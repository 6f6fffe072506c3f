import PagedStore.Proofs.AlikeTraffic
import PagedStore.Proofs.HandleWrites
import PagedStore.Proofs.HeldPages
import PagedStore.Proofs.LeavingLocks

/-!
# Nothing is left of a transaction that has ended

A transaction leaves traces in many places.  Cached pages are marked with it, before images are
kept for it, it holds pages, and in the wait graph edges lead from it and to it.  When it has
ended there is none of all this (`Store.FreeOf`), be it that its commit did not fail
(`Store.freeOf_commit`), or that it was aborted, whatever came of putting images back
(`Store.freeOf_abort`).

There is nothing to do then for a transaction that ends once more.  Another commit or abort
succeeds and leaves the store exactly as it is (`Store.FreeOf.commit_eq`,
`Store.FreeOf.abort_eq`).  It stays so whatever others do, as long as the transaction begins
nothing new (`Traffic.freeOf_of_step`).

All this is true of every store that a run leads to, without any rule for the moves
(`Traffic.nothing_left`).
-/

namespace PagedStore

open Std (ExtTreeMap)
open Relation (ReflTransGen)

variable {t u : TransactionId}

/-! ## The cache -/

namespace Cache

variable {c : Cache} {id : PageId} {page : Page}

/-- The cache has nothing of a transaction.  No page is marked with it, and nothing is kept for
it. -/
structure FreeOf (t : TransactionId) (c : Cache) : Prop where
  owner : ∀ p, c.owner? p ≠ some t
  kept : c.kept[t]? = none

namespace FreeOf

theorem owner_ne (h : c.FreeOf t) (hp : c.page? id = some page) : page.owner ≠ some t := by
  have ho := h.owner id
  rwa [owner?, hp] at ho

theorem of_page? {c' : Cache} (h : c.FreeOf t)
    (hp : ∀ ⦃p page⦄, c'.page? p = some page → page.owner ≠ some t) (hk : c'.kept = c.kept) :
    c'.FreeOf t := by
  refine ⟨fun p ho => ?_, hk ▸ h.kept⟩
  obtain ⟨page, hpage, ho⟩ := Option.bind_eq_some_iff.1 ho
  exact hp hpage ho

theorem load (h : c.FreeOf t) (ho : page.owner ≠ some t) : (c.load page).FreeOf t := by
  refine h.of_page? (fun p page' hp => ?_) rfl
  rw [page?_load] at hp
  split at hp
  · cases hp
    exact ho
  · exact h.owner_ne hp

theorem drop (h : c.FreeOf t) (id : PageId) : (c.drop id).FreeOf t := by
  refine h.of_page? (fun p page' hp => ?_) ?_
  · rw [page?_drop] at hp
    exact h.owner_ne (Option.ite_none_left_eq_some.1 hp).2
  · rw [Cache.drop]
    split <;> rfl

theorem update (h : c.FreeOf t) {f : Page → Page}
    (hf : ∀ page, c.page? id = some page → (f page).owner ≠ some t) : (c.update id f).FreeOf t := by
  refine h.of_page? (fun p page' hp => ?_) rfl
  rw [page?_update] at hp
  split at hp
  · rename_i he
    subst he
    obtain ⟨page, hpage, rfl⟩ := Option.map_eq_some_iff.1 hp
    exact hf page hpage
  · exact h.owner_ne hp

/-- An image is kept for another transaction. -/
theorem keep (h : c.FreeOf t) (hu : u ≠ t) (id : PageId) (image : Bytes) :
    (c.keep u id image).FreeOf t := by
  refine ⟨h.owner, ?_⟩
  show (c.kept.insert u _)[t]? = none
  rw [ExtTreeMap.getElem?_insert, if_neg fun he => hu (Std.LawfulEqCmp.compare_eq_iff_eq.1 he)]
  exact h.kept

theorem forget (h : c.FreeOf t) (u : TransactionId) : (c.forget u).FreeOf t := by
  refine ⟨h.owner, ?_⟩
  show (c.kept.erase u)[t]? = none
  rw [ExtTreeMap.getElem?_erase, h.kept, ite_self]

/-- A copy is changed through a handle, and keeps its owner. -/
theorem updateCopy (h : c.FreeOf t) {hd : Handle} {page page' : Page}
    (hc : c.copy? hd.page hd.copy = some page) (ho : page'.owner = page.owner) :
    (c.updateCopy hd.page hd.copy fun _ => page').FreeOf t := by
  by_cases hhas : c.Has hd
  · rw [updateCopy_of_has hhas]
    refine h.update fun _ hp => ?_
    rw [← copy?_of_has hhas, hc] at hp
    cases hp
    rw [ho]
    exact h.owner_ne ((copy?_of_has hhas).symm.trans hc)
  · rw [updateCopy_of_not_has hhas]
    exact ⟨h.owner, h.kept⟩

/-- There is nothing to forget. -/
theorem forget_eq (h : c.FreeOf t) : c.forget t = c := by
  refine Cache.ext rfl rfl rfl rfl (ExtTreeMap.ext_getElem? fun u => ?_)
  show (c.kept.erase t)[u]? = c.kept[u]?
  rw [ExtTreeMap.getElem?_erase]
  split
  · rename_i htu
    rw [← Std.LawfulEqCmp.compare_eq_iff_eq.1 htu, h.kept]
  · rfl

theorem keptFor_eq (h : c.FreeOf t) : c.keptFor t = ∅ := by
  rw [keptFor, ExtTreeMap.getD_eq_getD_getElem?, h.kept]
  rfl

end FreeOf

end Cache

/-! ## What others do with the cache -/

namespace Store

variable {s s' : Store} {id : PageId} {page : Page}

open Cache (FreeOf)

theorem freeOf_writeOut (h : s.cache.FreeOf t) (hw : s.writeOut page = .ok s') :
    s'.cache.FreeOf t := by
  obtain ⟨f, disk, -, -, rfl⟩ := writeOut_eq_ok hw
  exact h

/-- A page that is written early is one of another transaction. -/
theorem freeOf_writeBack (h : s.cache.FreeOf t) (hc : s.cache.page? id = some page)
    (hw : s.writeBack page = .ok s') : s'.cache.FreeOf t := by
  cases ho : page.owner with
  | none =>
      rw [writeBack, ho] at hw
      cases hw
      exact h
  | some owner =>
      obtain ⟨s₁, hout, rfl⟩ := writeBack_eq_ok hw ho
      refine (freeOf_writeOut h hout).keep ?_ _ _
      rintro rfl
      exact h.owner_ne hc ho

theorem freeOf_makeRoom (h : s.cache.FreeOf t) (hr : s.makeRoom u = .ok s') :
    s'.cache.FreeOf t := by
  rcases makeRoom_cases hr with rfl | ⟨id, page, -, -, rfl⟩ | ⟨id, page, s₁, hp, -, hw, rfl⟩
  · exact h
  · exact h.drop id
  · exact (freeOf_writeBack h hp hw).drop _

theorem freeOf_ensureCached (h : s.cache.FreeOf t) (u : TransactionId) (f : TableFile)
    (id : PageId) : (s.ensureCached u f id).2.cache.FreeOf t := by
  have hensured := s.ensured u f id
  generalize s.ensureCached u f id = result at hensured ⊢
  cases hensured with
  | hit | crowded => exact h
  | unread hr => exact freeOf_makeRoom (s := s.count .misses) h hr
  | read _ hr hp =>
      obtain ⟨image, -, hd⟩ := Disk.readPage_eq_ok hp
      obtain ⟨-, -, -, -, ho, -⟩ := Page.decode_eq_ok hd
      exact (freeOf_makeRoom (s := s.count .misses) h hr).load (by simp [ho])

/-- A page that is fetched for writing gets another owner. -/
theorem freeOf_take (h : s.cache.FreeOf t) (hu : u ≠ t) (id : PageId) (mode : LockMode) :
    (s.take u id mode).cache.FreeOf t := by
  cases mode with
  | shared => exact ⟨h.owner, h.kept⟩
  | exclusive =>
      have hother : ∀ page : Page, (page.withOwner (some u)).owner ≠ some t :=
        fun _ ho => hu (Option.some.inj ho)
      have htouched : (s.cache.touch id).FreeOf t := ⟨h.owner, h.kept⟩
      exact htouched.update fun page _ => hother page

theorem freeOf_fetch (h : s.cache.FreeOf t) (hu : u ≠ t) (f : TableFile) (id : PageId)
    (mode : LockMode) : (s.fetch u f id mode).2.cache.FreeOf t := by
  have hcached := freeOf_ensureCached h u f id
  rcases s.fetch_eq u f id mode with ⟨e, he⟩ | ⟨e, -, he⟩ | ⟨page, frame, -, -, he⟩
  · rw [he]
    exact hcached
  · rw [he]
    exact freeOf_take hcached hu id mode
  · rw [he]
    exact freeOf_take hcached hu id mode

theorem freeOf_untilError {α : Type} {f : Store → α → Except StoreError Store}
    (hf : ∀ {s a s'}, s.cache.FreeOf t → f s a = .ok s' → s'.cache.FreeOf t)
    (h : s.cache.FreeOf t) (as : List α) : (untilError f s as).2.cache.FreeOf t := by
  induction as generalizing s with
  | nil => exact h
  | cons a as ih =>
      rw [untilError]
      split
      · exact h
      · rename_i s₁ hs₁
        exact ih (hf h hs₁)

theorem freeOf_flushPage (h : s.cache.FreeOf t) (hf : s.flushPage id = .ok s') :
    s'.cache.FreeOf t := by
  rw [flushPage] at hf
  split at hf
  · cases hf
    exact h
  · rename_i page hp
    exact freeOf_writeBack h hp hf

theorem freeOf_discard (h : s.cache.FreeOf t) (id : PageId) : (s.discard id).cache.FreeOf t := by
  rw [discard]
  split
  · exact h
  · dsimp only
    split
    · exact h.drop id
    · exact h.drop id

theorem freeOf_commitPage (h : s.cache.FreeOf t) (hs : s.commitPage id = .ok s') :
    s'.cache.FreeOf t := by
  rw [commitPage] at hs
  split at hs
  · cases hs
    exact h
  · split at hs
    · cases hs
    · rename_i s₁ hw
      cases hs
      have hnone : ∀ page : Page, (page.keepImage.withOwner none).owner ≠ some t :=
        fun _ ho => by cases ho
      exact (freeOf_writeOut h hw).update fun page _ => hnone page

theorem freeOf_dropSpoiled (h : s.cache.FreeOf t) (ids : List PageId) :
    (ids.foldl dropSpoiled s).cache.FreeOf t := by
  induction ids generalizing s with
  | nil => exact h
  | cons id ids ih => exact ih (s := s.dropSpoiled id) (h.drop id)

/-- A row of a cached page is stored or deleted. -/
theorem freeOf_change {page' : Page} (h : s.cache.FreeOf t) (hc : s.cache.page? id = some page)
    (ho : page'.owner = page.owner) :
    (s.onCache fun c => c.update page'.id fun _ => page').cache.FreeOf t := by
  have hother : page'.owner ≠ some t := ho ▸ h.owner_ne hc
  exact h.update fun _ _ => hother

/-! ## The end of a transaction -/

/-- The store has nothing of a transaction, neither in its cache nor in its locks. -/
structure FreeOf (t : TransactionId) (s : Store) : Prop where
  cache : s.cache.FreeOf t
  locks : s.locks.FreeOf t

theorem locks_untilError_commitPage (s : Store) (ids : List PageId) :
    (untilError commitPage s ids).2.locks = s.locks := by
  induction ids generalizing s with
  | nil => rfl
  | cons id ids ih =>
      rw [untilError]
      split
      · rfl
      · rename_i s₁ h
        rw [ih]
        rw [commitPage] at h
        split at h
        · cases h
          rfl
        · split at h
          · cases h
          · rename_i s₂ hw
            cases h
            obtain ⟨f, disk, -, -, rfl⟩ := writeOut_eq_ok hw
            rfl

/-- A commit that does not fail leaves nothing of its transaction. -/
theorem freeOf_commit (hl : s.locks.Indexed) (h : (s.commit t).1 = .ok ()) :
    (s.commit t).2.FreeOf t := by
  have hlocks := locks_untilError_commitPage s (s.cache.ownedBy t)
  have howner : (untilError commitPage s (s.cache.ownedBy t)).1 = .ok () → ∀ q,
      (untilError commitPage s (s.cache.ownedBy t)).2.cache.owner? q =
        if q ∈ s.cache.ownedBy t then none else s.cache.owner? q := fun hok q =>
    (marks_untilError_commitPage (p := q) (l := {}) (show (Move.commit t).ends t from rfl)
      (nodup_ownedBy s.cache t) fun q hq => mem_ownedBy_iff.1 hq).2 hok q
  rw [commit] at h ⊢
  split at h
  · cases h
  · rename_i s₁ hs₁
    rw [hs₁] at hlocks howner
    refine ⟨⟨fun p ho => ?_, ExtTreeMap.getElem?_erase_self⟩, ?_⟩
    · have ho : s₁.cache.owner? p = some t := ho
      rw [howner rfl] at ho
      split at ho
      · cases ho
      · rename_i hp
        exact hp (mem_ownedBy_iff.2 ho)
    · show (s₁.locks.releaseAll t).2.FreeOf t
      rw [hlocks]
      exact hl.freeOf_releaseAll t

/-- An abort leaves nothing of its transaction, whatever came of putting images back. -/
theorem freeOf_abort (hl : s.locks.Indexed) (t : TransactionId) : (s.abort t).2.FreeOf t := by
  obtain ⟨-, -, hfold, -, -⟩ := foldl_dropSpoiled (s.spoiled t) s
  obtain ⟨-, hlocks, hcache, -⟩ := restored_restoreAll (s.keptImages t) (s.dropped t)
  rw [abort_eq]
  refine ⟨?_, ?_⟩
  · show ((s.dropped t).restoreAll (s.keptImages t)).2.cache.FreeOf t
    rw [hcache]
    refine ⟨fun p ho => ?_, ExtTreeMap.getElem?_erase_self⟩
    have ho : ((s.dropped t).view p).owner? = some t := ho
    rw [view_dropped, PageView.owner?] at ho
    dsimp only at ho
    split at ho
    · cases ho
    · rename_i hp
      exact hp (Or.inl ho)
  · show (((s.dropped t).restoreAll (s.keptImages t)).2.locks.releaseAll t).2.FreeOf t
    rw [hlocks, show (s.dropped t).locks = s.locks from hfold]
    exact hl.freeOf_releaseAll t

namespace FreeOf

theorem releaseAll_eq (h : s.FreeOf t) (hl : s.locks.Regular) : s.releaseAll t = s := by
  rw [Store.releaseAll, h.locks.releaseAll_eq hl]

/-- To commit once more does nothing. -/
theorem commit_eq (h : s.FreeOf t) (hl : s.locks.Regular) : s.commit t = (.ok (), s) := by
  have hnone : s.cache.ownedBy t = [] :=
    List.eq_nil_iff_forall_not_mem.2 fun p hp => h.cache.owner p (mem_ownedBy_iff.1 hp)
  rw [commit, hnone]
  show (Except.ok (), (s.onCache fun c => c.forget t).releaseAll t) = _
  rw [onCache, h.cache.forget_eq]
  exact congrArg _ (h.releaseAll_eq hl)

/-- To abort once more does nothing. -/
theorem abort_eq (h : s.FreeOf t) (hl : s.locks.Regular) : s.abort t = (.ok (), s) := by
  have hnone : s.spoiled t = [] := by
    refine List.eq_nil_iff_forall_not_mem.2 fun p hp => ?_
    rcases (mem_spoiled.1 hp).2 with ho | hk
    · exact h.cache.owner p ho
    · refine hk ?_
      show (s.cache.keptFor t)[p]? = none
      rw [h.cache.keptFor_eq]
      exact ExtTreeMap.getElem?_empty
  have himages : s.keptImages t = [] := by
    rw [keptImages, h.cache.keptFor_eq]
    rfl
  have hdropped : s.dropped t = s := by
    rw [dropped, hnone]
    show s.onCache _ = s
    rw [onCache, h.cache.forget_eq]
  rw [Store.abort_eq, himages, hdropped]
  show (Except.ok (), s.releaseAll t) = _
  rw [h.releaseAll_eq hl]

end FreeOf

end Store

/-! ## What tasks of others do -/

theorem Insertion.search_eq (task : Insertion) (s : Store) (t : TransactionId)
    (page count : Nat) : ∃ disk, (task.search s t page count).1 = { s with disk } := by
  rw [search]
  split
  · exact ⟨s.disk, rfl⟩
  · exact ⟨_, rfl⟩

theorem Insertion.begin_eq (s : Store) (t : TransactionId) (table : TableId) (schema : Schema)
    (stored : List RecordId) (rows : List (List Field)) :
    ∃ disk, (begin s t table schema stored rows).1 = { s with disk } := by
  cases rows with
  | nil => exact ⟨s.disk, rfl⟩
  | cons fields rows =>
      rw [begin]
      split
      · exact ⟨s.disk, rfl⟩
      · split
        · exact ⟨s.disk, rfl⟩
        · split
          · exact search_eq ..
          · exact ⟨s.disk, rfl⟩

/-- When a task begins, a file may get longer, and that is all. -/
theorem Request.start_eq (request : Request) (s : Store) (t : TransactionId) :
    ∃ disk, (request.start s t).1 = { s with disk } := by
  simp only [Request.start]
  split
  · exact ⟨s.disk, rfl⟩
  · exact Insertion.begin_eq ..
  · split
    · exact ⟨s.disk, rfl⟩
    · exact Insertion.begin_eq ..
  · exact ⟨s.disk, rfl⟩
  · split <;> exact ⟨s.disk, rfl⟩
  · split
    · exact ⟨s.disk, rfl⟩
    · split
      · exact ⟨s.disk, rfl⟩
      · split <;> exact ⟨s.disk, rfl⟩
  · exact ⟨s.disk, rfl⟩

/-- A task gives back its page at most. -/
theorem Stage.served_resume (stage : Stage) (s : Store) (u : TransactionId)
    (r : Except StoreError Frame) :
    LockTable.Served (fun c => ∃ p, c = .release u p) s.locks (stage.resume s u r).1.locks := by
  cases r with
  | error e =>
      rw [stage.resume_error]
  | ok frame =>
      cases stage with
      | get | feed => exact .refl
      | look task page count heldBefore =>
          rw [resume, Insertion.looked]
          split
          · exact .refl
          · rw [Insertion.locks_search]
            cases heldBefore with
            | true => exact .refl
            | false => exact .single ⟨.release u frame.page.id, ⟨_, rfl⟩, rfl⟩
      | place task =>
          rw [resume, Insertion.place]
          split
          · exact .refl
          · rw [Insertion.locks_begin]
            exact .refl
      | delete record answer =>
          rw [resume]
          split <;> exact .refl

theorem Stage.freeOf_resume (stage : Stage) {s : Store} (u : TransactionId)
    {r : Except StoreError Frame} (h : s.cache.FreeOf t)
    (hr : ∀ frame, r = .ok frame → ∃ id, s.cache.page? id = some frame.page) :
    (stage.resume s u r).1.cache.FreeOf t := by
  cases r with
  | error e =>
      rw [stage.resume_error]
      exact h
  | ok frame =>
      obtain ⟨id, hc⟩ := hr frame rfl
      cases stage with
      | get | feed => exact h
      | look task page count heldBefore =>
          rw [resume, Insertion.looked]
          split
          · exact h
          · obtain ⟨disk, he⟩ := task.search_eq
              (if heldBefore then s else (s.releasePage u frame.page.id).2) u (page + 1) count
            rw [he]
            cases heldBefore <;> exact h
      | place task =>
          rw [resume, Insertion.place]
          split
          · exact h
          · rename_i record page hins
            obtain ⟨disk, he⟩ := Insertion.begin_eq (s.onCache fun c => c.update page.id fun _ => page)
              u task.table task.schema (record :: task.stored) task.rows
            rw [he]
            obtain ⟨-, -, rfl⟩ := Page.insert_eq_ok hins
            exact Store.freeOf_change h hc rfl
      | delete record answer =>
          rw [resume]
          split
          · exact h
          · rename_i page hdel
            obtain ⟨-, rfl⟩ := Page.delete_eq_ok hdel
            exact Store.freeOf_change h hc rfl

/-- A request is evaluated, and the task may give back its page then. -/
theorem served_submit (s : Store) (u : TransactionId) (source : TableFile) (r : LockRequest)
    (stage : Stage) :
    LockTable.Served (fun c => c = .acquire u r ∨ ∃ p, c = .release u p) s.locks
      (submit s u source r stage).2.locks := by
  have hfirst : LockTable.Served (fun c => c = .acquire u r ∨ ∃ p, c = .release u p) s.locks
      (s.locks.consider u r).2 := .single ⟨.acquire u r, Or.inl rfl, rfl⟩
  have hthen : ∀ (s' : Store) (result : Except StoreError Frame),
      s'.locks = (s.locks.consider u r).2 →
        LockTable.Served (fun c => c = .acquire u r ∨ ∃ p, c = .release u p) s.locks
          (stage.resume s' u result).1.locks := by
    intro s' result hs'
    have hrest := stage.served_resume s' u result
    rw [hs'] at hrest
    exact hfirst.trans (ReflTransGen.mono
      (fun _ _ ⟨c, hc, he⟩ => ⟨c, Or.inr hc, he⟩) _ _ hrest)
  rw [submit]
  dsimp only
  split
  · exact hfirst
  · exact hthen _ _ rfl
  · exact hthen _ _ (Store.locks_fetch ..)

theorem freeOf_submit {s : Store} (h : s.cache.FreeOf t) (hu : u ≠ t) (source : TableFile)
    (r : LockRequest) (stage : Stage) : (submit s u source r stage).2.cache.FreeOf t := by
  rw [submit]
  dsimp only
  split
  · exact h
  · exact stage.freeOf_resume u h fun _ he => by cases he
  · have hfetched := Store.freeOf_fetch (s := { s with locks := (s.locks.consider u r).2 }) h hu
      source r.page r.mode
    refine stage.freeOf_resume u hfetched fun frame he => ?_
    obtain ⟨hframe, -⟩ := Store.frame_of_fetch (Prod.ext he rfl)
    exact ⟨r.page, Cache.page?_eq_some.2 ⟨frame, hframe, rfl⟩⟩

/-! ## Moves -/

namespace Traffic

variable {s₀ : Store} {w w' : Traffic} {move : Move} {history events : List Event}
  {grips : List (TransactionId × Handle)} {rule : Ledger → Traffic → Move → Traffic → Prop}
  {free : Cache → Handle → Prop}

/-- What a move does to the locks comes to some commands, and nothing is asked for in the name of a
transaction that has no task. -/
theorem served_of_step (hs : w.step move = some (events, w')) :
    LockTable.Served (fun c => ∀ t, w.tasks t = none → c.Spares t) w.store.locks
      w'.store.locks := by
  cases move with
  | start t request =>
      simp only [step] at hs
      split at hs
      · cases hs
      · cases hs
        obtain ⟨disk, he⟩ := request.start_eq w.store t
        show LockTable.Served _ _ (request.start w.store t).1.locks
        rw [he]
  | resume u =>
      obtain ⟨task, htask, hr⟩ := Option.map_eq_some_iff.1 hs
      cases hsource : w.sourceOf task with
      | error e =>
          rw [resume_of_error hsource, task.stage.resume_error] at hr
          cases hr
          exact .refl
      | ok source =>
          rw [resume_of_source hsource] at hr
          have hserved := served_submit w.store u source ⟨task.page, task.mode⟩ task.stage
          rw [← w.store_submit u task source, hr] at hserved
          refine ReflTransGen.mono ?_ _ _ hserved
          rintro l l' ⟨c, hc, he⟩
          refine ⟨c, fun t ht r hacquire => ?_, he⟩
          rcases hc with rfl | ⟨p, rfl⟩
          · cases hacquire
            rw [htask] at ht
            cases ht
          · cases hacquire
  | commit u =>
      cases hs
      have hpages := Store.locks_untilError_commitPage w.store (w.store.cache.ownedBy u)
      show LockTable.Served _ _ (w.store.commit u).2.locks
      rw [Store.commit]
      split
      · rename_i e s hu
        rw [hu] at hpages
        rw [hpages]
      · rename_i s hu
        rw [hu] at hpages
        rw [← hpages]
        exact .single ⟨.releaseAll u, (fun t _ r he => by cases he), rfl⟩
  | abort u =>
      cases hs
      obtain ⟨-, -, hfold, -, -⟩ := Store.foldl_dropSpoiled (w.store.spoiled u) w.store
      obtain ⟨-, hlocks, -, -⟩ :=
        Store.restored_restoreAll (w.store.keptImages u) (w.store.dropped u)
      have hbefore := hlocks.trans hfold
      show LockTable.Served _ _ (w.store.abort u).2.locks
      rw [Store.abort_eq, ← hbefore]
      exact .single ⟨.releaseAll u, (fun t _ r he => by cases he), rfl⟩
  | flushPage page =>
      simp only [step] at hs
      split at hs
      · rename_i store hf
        cases hs
        show LockTable.Served _ _ store.locks
        rw [(Store.quietAt_flushPage (p := page) hf).locks]
      · cases hs
        exact .refl
  | flushPages u =>
      cases hs
      show LockTable.Served _ _ (w.store.flushPages u).2.locks
      rw [(Store.quietAt_flushPages default w.store u).locks]
  | flushAll =>
      cases hs
      show LockTable.Served _ _ w.store.flushAll.2.locks
      rw [(Store.quietAt_flushAll default w.store).locks]
  | discard page =>
      cases hs
      show LockTable.Served _ _ (w.store.discard page).locks
      rw [w.store.locks_discard]
  | release u page =>
      cases hs
      exact .single ⟨.release u page, (fun t _ r he => by cases he), rfl⟩
  | replace catalog disk =>
      cases hs
      exact .refl

/-- In whatever store a run leads to, the lock table is regular. -/
theorem regular_of_run (hl : s₀.locks = ∅) (h : HandleRun rule free s₀ history w grips) :
    w.store.locks.Regular := by
  induction h with
  | start =>
      show s₀.locks.Regular
      rw [hl]
      exact LockTable.regular_empty
  | move _ _ hs ih => exact ih.served (served_of_step hs)
  | write _ _ _ _ _ ih => exact ih

/-- There stays nothing of a transaction as long as it begins nothing. -/
theorem freeOf_of_step (h : w.store.FreeOf t) (ht : w.tasks t = none)
    (hm : ∀ request, move ≠ .start t request) (hs : w.step move = some (events, w')) :
    w'.store.FreeOf t ∧ w'.tasks t = none := by
  suffices hrest : w'.store.cache.FreeOf t ∧ w'.tasks t = none from
    ⟨⟨hrest.1, h.locks.served (served_of_step hs) fun _ hc => hc t ht⟩, hrest.2⟩
  cases move with
  | start u request =>
      simp only [step] at hs
      split at hs
      · cases hs
      · cases hs
        have hne : t ≠ u := fun he => hm request (he ▸ rfl)
        obtain ⟨disk, he⟩ := request.start_eq w.store u
        refine ⟨?_, (if_neg hne).trans ht⟩
        show (request.start w.store u).1.cache.FreeOf t
        rw [he]
        exact h.cache
  | resume u =>
      obtain ⟨task, htask, hr⟩ := Option.map_eq_some_iff.1 hs
      have hne : u ≠ t := by
        rintro rfl
        rw [ht] at htask
        cases htask
      have htasks := w.tasks_resume task hne.symm
      rw [hr, ht] at htasks
      refine ⟨?_, htasks⟩
      cases hsource : w.sourceOf task with
      | error e =>
          rw [resume_of_error hsource, task.stage.resume_error] at hr
          cases hr
          exact h.cache
      | ok source =>
          rw [resume_of_source hsource] at hr
          have hstore := w.store_submit u task source
          rw [hr] at hstore
          rw [hstore]
          exact freeOf_submit h.cache hne source _ task.stage
  | commit u =>
      cases hs
      refine ⟨?_, ht⟩
      show (w.store.commit u).2.cache.FreeOf t
      have hpages := Store.freeOf_untilError (f := Store.commitPage) Store.freeOf_commitPage h.cache
        (w.store.cache.ownedBy u)
      rw [Store.commit]
      split
      · rename_i e s hu
        rw [hu] at hpages
        exact hpages
      · rename_i s hu
        rw [hu] at hpages
        exact hpages.forget u
  | abort u =>
      cases hs
      obtain ⟨-, -, hcache, -⟩ :=
        Store.restored_restoreAll (w.store.keptImages u) (w.store.dropped u)
      refine ⟨?_, ht⟩
      show (w.store.abort u).2.cache.FreeOf t
      rw [Store.abort_eq]
      show ((w.store.dropped u).restoreAll (w.store.keptImages u)).2.cache.FreeOf t
      rw [hcache]
      exact (Store.freeOf_dropSpoiled h.cache (w.store.spoiled u)).forget u
  | flushPage page =>
      simp only [step] at hs
      split at hs
      · rename_i store hf
        cases hs
        exact ⟨Store.freeOf_flushPage h.cache hf, ht⟩
      · cases hs
        exact ⟨h.cache, ht⟩
  | flushPages u =>
      cases hs
      exact ⟨Store.freeOf_untilError Store.freeOf_flushPage h.cache _, ht⟩
  | flushAll =>
      cases hs
      exact ⟨Store.freeOf_untilError Store.freeOf_flushPage h.cache _, ht⟩
  | discard page =>
      cases hs
      exact ⟨Store.freeOf_discard h.cache page, ht⟩
  | release u page =>
      cases hs
      exact ⟨h.cache, ht⟩
  | replace catalog disk =>
      cases hs
      exact ⟨h.cache, ht⟩

/-- What can come after a time, if a transaction begins nothing more.  Moves are made, and copies
are changed through handles. -/
inductive After (t : TransactionId) (w₀ : Traffic) : Traffic → Prop
  | refl : After t w₀ w₀
  | move {w w' : Traffic} {move : Move} {events : List Event} :
      After t w₀ w → (∀ request, move ≠ .start t request) → w.step move = some (events, w') →
        After t w₀ w'
  | write {w : Traffic} {hd : Handle} {page page' : Page} {change : Change} :
      After t w₀ w → w.store.cache.copy? hd.page hd.copy = some page → change.Made page page' →
        After t w₀ (w.write hd page')

theorem After.freeOf {w₀ : Traffic} (ha : After t w₀ w) (h : w₀.store.FreeOf t)
    (ht : w₀.tasks t = none) (hl : w₀.store.locks.Regular) :
    w.store.FreeOf t ∧ w.tasks t = none ∧ w.store.locks.Regular := by
  induction ha with
  | refl => exact ⟨h, ht, hl⟩
  | move _ hm hs ih =>
      obtain ⟨hfree, htask, hregular⟩ := ih
      obtain ⟨hfree', htask'⟩ := freeOf_of_step hfree htask hm hs
      exact ⟨hfree', htask', hregular.served (served_of_step hs)⟩
  | write _ hcopy hmade ih =>
      obtain ⟨hfree, htask, hregular⟩ := ih
      have howner := congrArg Page.owner hmade.same
      exact ⟨⟨hfree.cache.updateCopy hcopy howner, hfree.locks⟩, htask, hregular⟩

/-- When a transaction has ended, be it that its commit did not fail or that it was aborted, there
is nothing left of it: no cached page is marked with it, nothing is kept for it, it holds no page,
and it waits for nobody, nor does anybody wait for it.  So it stays whatever happens after that, as
long as the transaction begins nothing more.  To commit it or to abort it once more succeeds then,
and leaves the files, the cached pages, their order, the locks and the counters as they are. -/
theorem nothing_left (hl : s₀.locks = ∅) (h : HandleRun rule free s₀ history w grips)
    (ht : w.tasks t = none) {s : Store}
    (hs : w.store.commit t = (.ok (), s) ∨ ∃ result, w.store.abort t = (result, s)) :
    s.FreeOf t ∧
      ∀ w', After t { w with store := s } w' →
        w'.store.FreeOf t ∧ w'.store.commit t = (.ok (), w'.store) ∧
          w'.store.abort t = (.ok (), w'.store) := by
  have hregular := regular_of_run hl h
  obtain ⟨hfree, hregular'⟩ : s.FreeOf t ∧ s.locks.Regular := by
    rcases hs with hs | ⟨result, hs⟩
    · have hcommit := Store.freeOf_commit (s := w.store) (t := t) hregular.indexed (by rw [hs])
      have hserved := served_of_step (show w.step (.commit t) = some _ from rfl)
      rw [hs] at hcommit hserved
      exact ⟨hcommit, hregular.served hserved⟩
    · have habort := Store.freeOf_abort hregular.indexed t
      have hserved := served_of_step (show w.step (.abort t) = some _ from rfl)
      rw [hs] at habort hserved
      exact ⟨habort, hregular.served hserved⟩
  refine ⟨hfree, fun w' ha => ?_⟩
  obtain ⟨hfree', -, hregular''⟩ := ha.freeOf hfree ht hregular'
  exact ⟨hfree', hfree'.commit_eq hregular'', hfree'.abort_eq hregular''⟩

namespace Small

/-- A transaction fetches three pages for writing, the first of which is written early.  Another
transaction waits for this one. -/
def awaited : List Move := fetches ++ [.start ⟨1⟩ (.getPage (page 0) .shared), .resume ⟨1⟩]

end Small

theorem nothing_left_small :
    (Small.after Small.awaited).2.store.locks.waitingOn ⟨1⟩ = [⟨0⟩] ∧
      ((Small.after Small.awaited).2.store.view (Small.page 0)).kept ⟨0⟩ ≠ none ∧
        ∃ s, (Small.after Small.awaited).2.store.commit ⟨0⟩ = (.ok (), s) ∧ s.FreeOf ⟨0⟩ ∧
          s.abort ⟨0⟩ = (.ok (), s) := by
  have hrun : HandleRun Orderly Cache.Has Small.store _ _ _ :=
    @Small.handleRun Cache.Has Small.awaited (by decide) (by decide +kernel)
  have hok : ((Small.after Small.awaited).2.store.commit ⟨0⟩).1 = .ok () := by
    decide +kernel
  obtain ⟨hfree, hlater⟩ := nothing_left (t := ⟨0⟩) rfl hrun (by decide +kernel) (Or.inl (Prod.ext hok rfl))
  exact ⟨by decide +kernel, by decide +kernel, _, Prod.ext hok rfl, hfree, (hlater _ .refl).2.2⟩

end Traffic

end PagedStore
