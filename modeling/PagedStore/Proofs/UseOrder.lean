import PagedStore.Proofs.CacheRuns
import PagedStore.Proofs.Leftovers

/-!
# The order of use and the history

A page is *used* each time a transaction is given it, be it from the cache or from its file.
The history tells these uses (`usesOf`), and the *age* of a page is the number of uses since its
last one (`age`).

The order of use in the cache is the order of the last uses: each page in it was used, and is
older than those behind it (`Dated`).  For a move takes pages out of the order and puts at most
one at its end, which is the one that the history has as used then (`Turnover`,
`Traffic.turnover_of_step`).  So the order is right after any run (`Traffic.dated_of_run`), and
the page that a search for a page to give up finds is the oldest one that is accepted
(`Dated.oldest`).

Nothing is asked of the moves, and handles may be used freely.
-/

namespace PagedStore

variable {uses pages pages' rest : List PageId} {p q : PageId}

/-! ## Uses and ages -/

/-- The page that a transaction was given. -/
def Event.used? : Event → Option PageId
  | .fetched _ page _ _ => some page
  | _ => none

/-- The pages that transactions were given, one for each time. -/
def usesOf (events : List Event) : List PageId := events.filterMap Event.used?

/-- The number of uses of other pages since a page was used last. -/
def age (uses : List PageId) (p : PageId) : Nat := uses.reverse.idxOf p

theorem age_used_self (uses : List PageId) (p : PageId) : age (uses ++ [p]) p = 0 := by
  rw [age, List.reverse_concat, List.idxOf_cons_self]

theorem age_used_of_ne (uses : List PageId) (h : p ≠ q) :
    age (uses ++ [p]) q = age uses q + 1 := by
  rw [age, List.reverse_concat, List.idxOf_cons_ne _ h]
  rfl

theorem usesOf_append (events more : List Event) :
    usesOf (events ++ more) = usesOf events ++ usesOf more := List.filterMap_append

/-! ## Dated orders -/

/-- The pages were used, and each was used before those behind it were used last. -/
structure Dated (uses pages : List PageId) : Prop where
  used : ∀ p ∈ pages, p ∈ uses
  older : pages.Pairwise fun p q => age uses q < age uses p

/-- What becomes of an order of use when some pages are used: pages leave it, and then one that is
used goes to its end. -/
inductive Turnover (pages : List PageId) : List PageId → List PageId → Prop
  | unused {pages' : List PageId} : pages'.Sublist pages → Turnover pages [] pages'
  | used {rest : List PageId} {p : PageId} :
      rest.Sublist pages → p ∉ rest → Turnover pages [p] (rest ++ [p])

/-- The page was used and is accepted, and every other page that is accepted is less old. -/
structure Oldest (uses : List PageId) (accept : PageId → Bool) (p : PageId) : Prop where
  used : p ∈ uses
  accepted : accept p = true
  older : ∀ q, accept q = true → q ≠ p → age uses q < age uses p

namespace Dated

theorem sublist (h : Dated uses pages) (hs : rest.Sublist pages) : Dated uses rest :=
  ⟨fun p hp => h.used p (hs.subset hp), h.older.sublist hs⟩

/-- A page that is used is the last one, and the others are older by one use. -/
theorem use (h : Dated uses pages) (hp : p ∉ pages) : Dated (uses ++ [p]) (pages ++ [p]) where
  used q hq := by
    rcases List.mem_append.1 hq with hq | hq
    · exact List.mem_append_left _ (h.used q hq)
    · exact List.mem_append_right _ hq
  older := by
    have hage : ∀ q ∈ pages, age (uses ++ [p]) q = age uses q + 1 := by
      intro q hq
      refine age_used_of_ne uses ?_
      rintro rfl
      exact hp hq
    rw [List.pairwise_append]
    refine ⟨h.older.imp_of_mem fun {a b} ha hb hab => ?_, List.pairwise_singleton _ _,
      fun a ha b hb => ?_⟩
    · rw [hage a ha, hage b hb]
      exact Nat.succ_lt_succ hab
    · rw [List.mem_singleton.1 hb, age_used_self, hage a ha]
      exact Nat.succ_pos _

theorem turnover {more : List PageId} (h : Dated uses pages) (ht : Turnover pages more pages') :
    Dated (uses ++ more) pages' := by
  cases ht with
  | unused hs =>
      rw [List.append_nil]
      exact h.sublist hs
  | used hs hp => exact (h.sublist hs).use hp

/-- A search finds the oldest page that is accepted, if only cached pages are accepted. -/
theorem oldest {c : Cache} {room : Nat} {accept : PageId → Bool} (h : Dated uses c.recency.pages)
    (ho : c.InOrder room) (ha : ∀ q, accept q = true → c.isCached q = true)
    (hv : c.recency.victim? accept = some p) : Oldest uses accept p := by
  rw [Recency.victim?_eq_find?] at hv
  obtain ⟨hp, before, behind, hsplit, hbefore⟩ := List.find?_eq_some_iff_append.1 hv
  refine ⟨h.used p (List.mem_of_find?_eq_some hv), hp, fun q hq hne => ?_⟩
  have hmem : q ∈ before ++ p :: behind := hsplit ▸ ho.mem_pages_iff.2 (ha q hq)
  rcases List.mem_append.1 hmem with hmem | hmem
  · simpa [hq] using hbefore q hmem
  · have holder := h.older
    rw [hsplit, List.pairwise_append] at holder
    exact List.rel_of_pairwise_cons holder.2.1 ((List.mem_cons.1 hmem).resolve_left hne)

end Dated

/-! ## The operations of a store -/

namespace Store

variable {s s' s'' : Store} {t : TransactionId} {f : TableFile} {id : PageId} {page : Page}

/-- Pages leave the order of use, and that is all that becomes of it. -/
def Sheds (s s' : Store) : Prop := s'.cache.recency.pages.Sublist s.cache.recency.pages

namespace Sheds

theorem refl (s : Store) : Sheds s s := List.Sublist.refl _

theorem trans (h : Sheds s s') (h' : Sheds s' s'') : Sheds s s'' := List.Sublist.trans h' h

/-- The order of use is not concerned. -/
theorem of_eq (h : s'.cache.recency = s.cache.recency) : Sheds s s' := by
  rw [Sheds, h]

theorem drop (s : Store) (id : PageId) : Sheds s (s.onCache fun c => c.drop id) := by
  show (s.cache.drop id).recency.pages.Sublist s.cache.recency.pages
  rw [Cache.drop]
  split
  · exact List.Sublist.refl _
  · exact List.filter_sublist

theorem untilError {α : Type} {f : Store → α → Except StoreError Store}
    (hf : ∀ {s a s'}, f s a = .ok s' → Sheds s s') (s : Store) (as : List α) :
    Sheds s (untilError f s as).2 := by
  induction as generalizing s with
  | nil => exact .refl s
  | cons a as ih =>
      rw [Store.untilError]
      split
      · exact .refl s
      · rename_i s₁ h
        exact (hf h).trans (ih s₁)

theorem writeOut (h : s.writeOut page = .ok s') : Sheds s s' := by
  obtain ⟨f, disk, -, -, rfl⟩ := writeOut_eq_ok h
  exact .of_eq rfl

theorem writeBack (h : s.writeBack page = .ok s') : Sheds s s' := by
  cases ho : page.owner with
  | none =>
      rw [Store.writeBack, ho] at h
      cases h
      exact .refl s
  | some owner =>
      obtain ⟨s₁, hw, rfl⟩ := writeBack_eq_ok h ho
      exact (writeOut hw).trans (.of_eq rfl)

theorem makeRoom (h : s.makeRoom t = .ok s') : Sheds s s' := by
  rcases makeRoom_cases h with rfl | ⟨id, page, -, -, rfl⟩ | ⟨id, page, s₁, -, -, hw, rfl⟩
  · exact .refl s'
  · exact drop s id
  · exact (writeBack hw).trans (drop s₁ page.id)

theorem flushPage (h : s.flushPage id = .ok s') : Sheds s s' := by
  rw [Store.flushPage] at h
  split at h
  · cases h
    exact .refl s
  · exact writeBack h

theorem discard (s : Store) (id : PageId) : Sheds s (s.discard id) := by
  rw [Store.discard]
  split
  · exact .refl s
  · dsimp only
    split <;> exact drop s id

theorem commitPage (h : s.commitPage id = .ok s') : Sheds s s' := by
  rw [Store.commitPage] at h
  split at h
  · cases h
    exact .refl s
  · split at h
    · cases h
    · rename_i s₁ hw
      cases h
      exact (writeOut hw).trans (.of_eq rfl)

theorem commit (s : Store) (t : TransactionId) : Sheds s (s.commit t).2 := by
  have hpages : Sheds s (Store.untilError Store.commitPage s (s.cache.ownedBy t)).2 :=
    untilError commitPage s _
  rw [Store.commit]
  split
  · rename_i e s₁ hu
    rw [hu] at hpages
    exact hpages
  · rename_i s₁ hu
    rw [hu] at hpages
    exact hpages.trans (.of_eq rfl)

theorem restoreAll (s : Store) (images : List (PageId × Bytes)) :
    Sheds s (s.restoreAll images).2 := by
  induction images generalizing s with
  | nil => exact .refl s
  | cons entry images ih =>
      rw [Store.restoreAll]
      split
      · rename_i s₁ hr
        obtain ⟨f, disk, -, -, rfl⟩ := restore_eq_ok hr
        exact (Sheds.of_eq rfl).trans (ih _)
      · exact ih s

theorem dropSpoiled (s : Store) (ids : List PageId) : Sheds s (ids.foldl dropSpoiled s) := by
  induction ids generalizing s with
  | nil => exact .refl s
  | cons id ids ih => exact (drop s id).trans (ih _)

theorem abort (s : Store) (t : TransactionId) : Sheds s (s.abort t).2 := by
  have hdropped : Sheds s ((s.spoiled t).foldl Store.dropSpoiled s) :=
    dropSpoiled s (s.spoiled t)
  have hforgotten : Sheds s (Store.onCache _ fun c => c.forget t) := hdropped.trans (.of_eq rfl)
  exact (hforgotten.trans (restoreAll _ (s.cache.keptFor t).toList)).trans (.of_eq rfl)

theorem ensureCached (s : Store) (t : TransactionId) (f : TableFile) (id : PageId) :
    Sheds s (s.ensureCached t f id).2 := by
  have hensured := s.ensured t f id
  generalize s.ensureCached t f id = result at hensured ⊢
  cases hensured with
  | hit | crowded => exact .of_eq rfl
  | unread hr => exact makeRoom (s := s.count .misses) hr
  | @read s₁ _ _ hr =>
      have hmade : Sheds s s₁ := makeRoom (s := s.count .misses) hr
      exact hmade.trans (.of_eq rfl)

theorem start (request : Request) (s : Store) (t : TransactionId) :
    Sheds s (request.start s t).1 := by
  obtain ⟨disk, he⟩ := request.start_eq s t
  rw [he]
  exact .of_eq rfl

/-- A stage that goes on uses no page but the one that it was given. -/
theorem resume (stage : Stage) (s : Store) (t : TransactionId) (r : Except StoreError Frame) :
    (stage.resume s t r).1.cache.recency = s.cache.recency := by
  cases r with
  | error e => rw [stage.resume_error]
  | ok frame =>
      cases stage with
      | get => rfl
      | look task page count heldBefore =>
          rw [Stage.resume, Insertion.looked]
          split
          · rfl
          · obtain ⟨disk, he⟩ := task.search_eq
              (if heldBefore then s else (s.releasePage t frame.page.id).2) t (page + 1) count
            rw [he]
            cases heldBefore <;> rfl
      | place task =>
          rw [Stage.resume, Insertion.place]
          split
          · rfl
          · rename_i record page _
            obtain ⟨disk, he⟩ := Insertion.begin_eq
              (s.onCache fun c => c.update page.id fun _ => page) t task.table task.schema
              (record :: task.stored) task.rows
            rw [he]
            rfl
      | delete record answer =>
          rw [Stage.resume]
          split <;> rfl
      | feed => rfl

end Sheds

/-- A page that was seen to is cached. -/
theorem isCached_ensureCached (h : (s.ensureCached t f id).1 = .ok ()) :
    (s.ensureCached t f id).2.cache.isCached id = true := by
  have hensured := s.ensured t f id
  generalize s.ensureCached t f id = result at hensured h ⊢
  cases hensured with
  | hit hc => exact hc
  | crowded | unread => cases h
  | @read s₁ page _ _ hp =>
      obtain ⟨image, -, hd⟩ := Disk.readPage_eq_ok hp
      obtain rfl : page.id = id := (Page.decode_eq_ok hd).2.1
      rw [Cache.isCached_iff]
      exact ⟨page, (Cache.page?_load _ page page.id).trans (if_pos rfl)⟩

/-- A page that is taken is the last one in the order of use. -/
theorem recency_take (s : Store) (t : TransactionId) (id : PageId) (mode : LockMode) :
    (s.take t id mode).cache.recency = s.cache.recency.touch id := by
  cases mode <;> rfl

/-- A fetch that fails has not come to the point where the page is taken. -/
theorem fetch_taken (s : Store) (t : TransactionId) (f : TableFile) (id : PageId)
    (mode : LockMode) :
    (∃ e, (s.ensureCached t f id).1 = .error e ∧
        s.fetch t f id mode = (.error e, (s.ensureCached t f id).2)) ∨
      (s.ensureCached t f id).1 = .ok () ∧
        ∃ frame, s.fetch t f id mode = (.ok frame, (s.ensureCached t f id).2.take t id mode) := by
  cases he : (s.ensureCached t f id).1 with
  | error e =>
      have hpair : s.ensureCached t f id = (.error e, (s.ensureCached t f id).2) := Prod.ext he rfl
      refine Or.inl ⟨e, rfl, ?_⟩
      rw [fetch, hpair]
  | ok _ =>
      have hpair : s.ensureCached t f id = (.ok (), (s.ensureCached t f id).2) := Prod.ext he rfl
      obtain ⟨page, hp⟩ := Cache.isCached_iff.1 (isCached_ensureCached he)
      obtain ⟨frame, hframe, -⟩ := Cache.page?_eq_some.1 hp
      have htaken := getElem?_frames_take (s.ensureCached t f id).2 t id mode id
      rw [if_pos rfl, hframe, Option.map_some] at htaken
      refine Or.inr ⟨rfl, { frame with page := taken t mode frame.page }, ?_⟩
      rw [fetch, hpair]
      simp only [htaken]

/-- When a request is evaluated, its page is used if and only if the history says so. -/
theorem turnover_submit (s : Store) (t : TransactionId) (source : TableFile) (r : LockRequest)
    (stage : Stage) :
    Turnover s.cache.recency.pages (usesOf (submitEvents s t source r stage))
      (submit s t source r stage).2.cache.recency.pages := by
  have hlocked : ∀ u v mode, usesOf (PageView.lockEvents u v mode) = [] := by
    intro u v mode
    rw [PageView.lockEvents]
    split <;> rfl
  have hchanged : ∀ changes : List Change, usesOf (changes.map (Event.changed t)) = [] := by
    intro changes
    rw [usesOf, List.filterMap_map]
    exact List.filterMap_eq_nil_iff.2 fun _ _ => rfl
  cases hv : (s.locks.consider t r).1 with
  | waits =>
      obtain ⟨he, hs⟩ := submit_of_waits source stage hv
      rw [he, hs]
      exact .unused (.refl _)
  | refused =>
      obtain ⟨he, hs⟩ := submit_of_refused source stage hv
      rw [he, hs]
      exact .unused (.refl _)
  | granted =>
      obtain ⟨he, hs⟩ := submit_of_granted source stage hv rfl
      have hshed := Sheds.ensureCached { s with locks := (s.locks.consider t r).2 } t source r.page
      rw [he, hs, usesOf_append, hlocked, List.nil_append, Sheds.resume]
      rcases ({ s with locks := (s.locks.consider t r).2 } : Store).fetch_taken t source r.page
        r.mode with ⟨e, -, hf⟩ | ⟨-, frame, hf⟩
      · rw [hf]
        exact .unused hshed
      · have huses : usesOf (fetchEvents t r stage (.ok frame)) = [r.page] := by
          show r.page :: usesOf _ = [r.page]
          rw [hchanged]
        rw [hf, recency_take, huses]
        refine .used (List.filter_sublist.trans hshed) ?_
        simp

end Store

/-! ## Runs -/

namespace Traffic

variable {s₀ : Store} {w w' : Traffic} {move : Move} {history events : List Event}
  {grips : List (TransactionId × Handle)} {rule : Ledger → Traffic → Move → Traffic → Prop}
  {free : Cache → Handle → Prop}

open Store (Sheds)

/-- What a move does to the order of use. -/
theorem turnover_of_step (hs : w.step move = some (events, w')) :
    Turnover w.store.cache.recency.pages (usesOf events) w'.store.cache.recency.pages := by
  cases move with
  | start t request =>
      simp only [step] at hs
      split at hs
      · cases hs
      · cases hs
        exact .unused (Sheds.start request w.store t)
  | resume t =>
      obtain ⟨task, -, hr⟩ := Option.map_eq_some_iff.1 hs
      cases hsource : w.sourceOf task with
      | ok source =>
          rw [resume_of_source hsource] at hr
          have hsub := w.store.turnover_submit t source { page := task.page, mode := task.mode }
            task.stage
          rw [← store_submit] at hsub
          obtain ⟨rfl, rfl⟩ : (w.submit t task source).1 = events ∧
              (w.submit t task source).2 = w' := Prod.ext_iff.1 hr
          exact hsub
      | error e =>
          rw [resume_of_error hsource, task.stage.resume_error] at hr
          cases hr
          exact .unused (.refl _)
  | commit t =>
      cases hs
      have hnone : usesOf [commitEvent t (w.store.commit t).1] = [] := by
        cases (w.store.commit t).1 <;> rfl
      rw [hnone]
      exact .unused (Sheds.commit w.store t)
  | abort t =>
      cases hs
      exact .unused (Sheds.abort w.store t)
  | flushPage page =>
      simp only [step] at hs
      split at hs
      · rename_i store hf
        cases hs
        exact .unused (Sheds.flushPage hf)
      · cases hs
        exact .unused (.refl _)
  | flushPages t =>
      cases hs
      exact .unused (Sheds.untilError Sheds.flushPage w.store _)
  | flushAll =>
      cases hs
      exact .unused (Sheds.untilError Sheds.flushPage w.store _)
  | discard page =>
      cases hs
      exact .unused (Sheds.discard w.store page)
  | release t page =>
      cases hs
      exact .unused (.refl _)
  | replace catalog disk =>
      cases hs
      exact .unused (.refl _)

/-- Whatever moves are made, and whatever is done through handles, the order of use is that of
the last uses. -/
theorem dated_of_run (h₀ : s₀.cache = ∅) (h : HandleRun rule free s₀ history w grips) :
    Dated (usesOf history) w.store.cache.recency.pages := by
  induction h with
  | start =>
      rw [h₀]
      exact ⟨fun p hp => (by cases hp), List.Pairwise.nil⟩
  | move _ _ hs ih =>
      rw [usesOf_append]
      exact ih.turnover (turnover_of_step hs)
  | @write history w grips t hd page page' change _ _ _ _ _ ih =>
      have hsame : (w.write hd page').store.cache.recency = w.store.cache.recency := by
        show (w.store.cache.updateCopy hd.page hd.copy fun _ => page').recency = _
        rw [Cache.updateCopy]
        split
        · split <;> rfl
        · rfl
      rw [usesOf_append, hsame]
      exact ih.turnover (.unused (.refl _))

end Traffic

end PagedStore
