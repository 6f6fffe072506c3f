import PagedStore.Proofs.CacheRuns

/-!
# Intact pages

A page is *intact* if its copy fits the file, a copy without an owner shows what is in the file,
and the before images that are kept can be put back (`PageView.Intact`).  Nothing is said about
locks, about who may change the page and about what it held at first.  So a page stays intact
also when locks are released early and when pages are dropped with changes on them: every turn
keeps it intact (`PageView.Intact.turn`), and so does every move that does not change tables or
files past the store (`Traffic.IntactAt.step`).

A page that is intact can be written to its file at any time (`Store.exists_writeOut`).
-/

namespace PagedStore

open Store (MovesAt)

variable {p : PageId}

/-! ## One page -/

namespace PageView

variable {v : PageView} {t : TransactionId}

/-- The copy fits the file, shows what is in the file as long as it has no owner, and the images
beside it have the size of a page. -/
structure Intact (v : PageView) : Prop where
  fits : ∀ {page}, v.copy = some page → v.Fits page
  clean : ∀ {page}, v.copy = some page → page.owner = none → v.shown v.image = some page.content
  sized : ∀ {f image}, v.file = some f → v.image = some image → image.length = f.pageSize
  before : ∀ {page f}, v.copy = some page → v.file = some f →
    page.beforeImage.length = f.pageSize
  kept : ∀ {t image}, v.kept t = some image →
    v.image ≠ none ∧ ∃ f, v.file = some f ∧ image.length = f.pageSize

namespace Intact

theorem load (h : v.Intact) {f : TableFile} {image : Bytes} {page : Page}
    (hf : v.file = some f) (hi : v.image = some image)
    (hd : Page.decode v.id f.schema f.pageSize image = .ok page) :
    Intact { v with copy := some page } := by
  obtain ⟨hv, hid, hs, hp, -, hb⟩ := Page.decode_eq_ok hd
  exact { h with
    fits := by
      rintro _ ⟨rfl⟩
      exact ⟨hid, hv, ⟨f, hf, hs.symm, hp.symm⟩, by rw [hi]; simp⟩
    clean := by
      rintro _ ⟨rfl⟩ -
      show v.shown v.image = _
      rw [hi, shown_eq hf hd]
    before := by
      rintro _ g ⟨rfl⟩ hg
      rw [hb]
      exact h.sized hg hi }

/-- The copy leaves the cache, whatever changes are on it. -/
theorem uncached (h : v.Intact) : Intact { v with copy := none } :=
  { h with
    fits := fun hc => by cases hc
    clean := fun hc => by cases hc
    before := fun hc => by cases hc }

theorem write (h : v.Intact) {page : Page} (hc : v.copy = some page) (ho : page.owner = some t) :
    (v.written t page).Intact where
  fits hp := (h.fits hp).anew rfl rfl (by simp [written])
  clean := by
    intro q hq hn
    rw [show q = page from Option.some.inj (hq.symm.trans hc), ho] at hn
    cases hn
  sized := by
    rintro f _ hf ⟨rfl⟩
    exact (h.fits hc).length_encode hf
  before := h.before
  kept := by
    intro u image hk
    refine ⟨by simp [written], ?_⟩
    obtain ⟨f, hf, -⟩ := (h.fits hc).file
    simp only [written] at hk
    split at hk
    · cases hkt : v.kept t with
      | some old =>
          rw [hkt] at hk
          cases hk
          exact (h.kept hkt).2
      | none =>
          rw [hkt] at hk
          cases hk
          exact ⟨f, hf, h.before hc hf⟩
    · exact (h.kept hk).2

/-- A page at the end of the file is neither cached nor kept before it is put there. -/
theorem append (h : v.Intact) (hi : v.image = none) : Intact { v with image := v.blank } where
  fits hc := absurd hi (h.fits hc).image
  clean hc := absurd hi (h.fits hc).image
  sized := by
    intro f image hf himage
    have hblank : v.blank = some image := himage
    rw [blank, show v.file = some f from hf] at hblank
    cases hblank
    exact Bytes.length_zeros _
  before := h.before
  kept hk := absurd hi (h.kept hk).1

theorem withMode (h : v.Intact) (mode : TransactionId → Option LockMode) :
    Intact { v with mode } :=
  { h with fits := fun hc => (h.fits hc).anew rfl rfl (h.fits hc).image }

/-- The copy is replaced by one with an owner. -/
theorem recopy (h : v.Intact) {page page' : Page} (hc : v.copy = some page)
    (hs : page.SameShape page') (hz : page'.pageSize = page.pageSize) (hv : page'.Valid)
    (hb : page'.beforeImage = page.beforeImage) (ho : page'.owner = some t) :
    Intact { v with copy := some page' } :=
  { h with
    fits := by
      rintro _ ⟨rfl⟩
      have hf := h.fits hc
      refine ⟨hs.id_eq.trans hf.id, hv, ?_, hf.image⟩
      rw [hs.schema_eq, hz]
      exact hf.file
    clean := by
      rintro _ ⟨rfl⟩ hn
      rw [ho] at hn
      cases hn
    before := by
      rintro _ f ⟨rfl⟩ hf
      rw [hb]
      exact h.before hc hf }

/-- The copy is written for good. -/
theorem saved (h : v.Intact) (t : TransactionId) : (v.saved t).Intact := by
  by_cases ho : v.owner? = some t
  · obtain ⟨page, hc, hpo⟩ := Option.bind_eq_some_iff.1 ho
    have hfits := h.fits hc
    rw [saved_of_owner hc hpo]
    exact { h with
      fits := by
        rintro _ ⟨rfl⟩
        exact ⟨hfits.id, hfits.valid.keepImage.withOwner none, hfits.file, by simp⟩
      clean := by
        rintro _ ⟨rfl⟩ -
        exact hfits.shown_encode
      sized := by
        rintro f _ hf ⟨rfl⟩
        exact hfits.length_encode hf
      before := by
        rintro _ f ⟨rfl⟩ hf
        exact hfits.length_encode hf
      kept := fun hk => ⟨by simp, (h.kept hk).2⟩ }
  · rw [saved_of_ne ho]
    exact h

theorem cleared (h : v.Intact) (t : TransactionId) : (v.cleared t).Intact := by
  have hkept : ∀ {u image}, (v.cleared t).kept u = some image → v.kept u = some image := by
    intro u image hk
    rw [kept_cleared] at hk
    split at hk
    · cases hk
    · exact hk
  exact { h with
    fits := fun hc => (h.fits hc).anew rfl rfl (h.fits hc).image
    kept := fun hk => h.kept (hkept hk) }

/-- The image before a transaction is put back, and the copy is dropped with it. -/
theorem undone (h : v.Intact) (t : TransactionId) :
    Intact { v with
      image := (v.kept t).or v.image
      copy := if v.Owns t then none else v.copy } := by
  by_cases ho : v.Owns t
  · rw [if_pos ho]
    refine { h.uncached with
      fits := fun hc => by cases hc
      clean := fun hc => by cases hc
      sized := fun hf hi => ?_
      kept := fun hk => ⟨?_, (h.kept hk).2⟩ }
    · rcases Option.or_eq_some_iff.1 hi with hi | ⟨-, hi⟩
      · obtain ⟨-, g, hg, hl⟩ := h.kept hi
        rw [show v.file = some _ from hf] at hg
        cases hg
        exact hl
      · exact h.sized hf hi
    · intro hn
      exact (h.kept hk).1 (Option.or_eq_none_iff.1 hn).2
  · have hn : v.kept t = none := by
      by_contra hk
      exact ho (Or.inr hk)
    rw [if_neg ho, hn]
    exact h

/-- Every turn keeps a page intact. -/
theorem turn {a b : Ledger × PageView} (ht : Turn a b) (h : a.2.Intact) : b.2.Intact := by
  cases ht with
  | elsewhere => exact h
  | load _ hf hi hd => exact h.load hf hi hd
  | drop => exact h.uncached
  | dropWritten => exact h.uncached
  | write hc ho => exact h.write hc ho
  | append _ hi => exact h.append hi
  | grant => exact h.withMode _
  | release => exact h.withMode _
  | take copy _ hc =>
      exact h.recopy hc ⟨rfl, rfl, rfl⟩ rfl ((h.fits hc).valid.withOwner _) rfl rfl
  | change hc ho hm =>
      have hs := hm.same
      exact h.recopy hc hm.sameShape (by rw [hs]) (hm.valid (h.fits hc).valid) (by rw [hs])
        (by rw [hs]; exact ho)
  | commit t => exact (h.saved t).cleared t
  | fail => exact h
  | failLate t => exact h.saved t
  | abort t => exact (h.undone t).cleared t

theorem turns {a b : Ledger × PageView} (ht : Turns a b) (h : a.2.Intact) : b.2.Intact := by
  induction ht with
  | refl => exact h
  | tail _ hlast ih => exact ih.turn hlast

end Intact

end PageView

/-- Dropping a page concerns the cache and a counter, or nothing at all. -/
theorem Store.discard_eq (s : Store) (id : PageId) :
    s.discard id = s ∨
      ∃ counters, s.discard id = { s.onCache (fun c => c.drop id) with counters } := by
  rw [discard]
  split
  · exact Or.inl rfl
  · dsimp only
    split
    · exact Or.inr ⟨_, rfl⟩
    · exact Or.inr ⟨_, rfl⟩

/-! ## Traffic -/

namespace Traffic

variable {w w' : Traffic} {move : Move} {history events : List Event} {s₀ : Store}
  {t : TransactionId}

/-- A page of the traffic is intact, and the tasks keep to what they have asked for. -/
structure IntactAt (p : PageId) (w : Traffic) : Prop where
  store : w.store.Sound
  numbered : w.store.NumberedAt p
  intact : (w.store.view p).Intact
  tasks : ∀ ⦃t task⦄, w.tasks t = some task → task.SoundAt p (w.store.view p).file {} t

/-- A task that is sound is sound for the ledger of nothing. -/
theorem soundAt_nothing {task : Task} {file : Option TableFile} {l : Ledger}
    (h : task.SoundAt p file l t) : task.SoundAt p file {} t :=
  h.mono fun hw => by cases hw

namespace IntactAt

/-- The page is intact after a step that turns it, if the tasks are sound by some ledger. -/
theorem moved (h : w.IntactAt p) {l : Ledger} (hm : MovesAt p {} w.store l w'.store)
    (hn : w'.store.NumberedAt p)
    (ht : ∀ ⦃t task⦄, w'.tasks t = some task →
      w.tasks t = some task ∨ task.SoundAt p (w.store.view p).file l t) : w'.IntactAt p where
  store := hm.sound h.store
  numbered := hn
  intact := PageView.Intact.turns (hm.turns h.store hn) h.intact
  tasks t task htask := by
    rw [hm.file_view]
    exact (ht htask).elim (fun hold => h.tasks hold) soundAt_nothing

/-- Only the store is another one. -/
theorem withStore (h : w.IntactAt p) {l : Ledger} {store : Store}
    (hm : MovesAt p {} w.store l store) (hn : store.NumberedAt p) :
    IntactAt p { w with store } := h.moved hm hn fun _ _ ht => Or.inl ht

/-- One transaction has another task, or none. -/
theorem turn (h : w.IntactAt p) {l : Ledger} {store : Store} {o : Option Task}
    (hm : MovesAt p {} w.store l store) (hn : store.NumberedAt p)
    (ht : ∀ ⦃task⦄, o = some task → task.SoundAt p (w.store.view p).file l t) :
    (w.turn t store o).IntactAt p := by
  refine h.moved hm hn fun u task hu => ?_
  by_cases hut : u = t
  · subst hut
    exact Or.inr (ht ((if_pos rfl).symm.trans hu))
  · exact Or.inl ((if_neg hut).symm.trans hu)

theorem submit (h : w.IntactAt p) {task : Task} {source : TableFile}
    (ht : w.tasks t = some task)
    (hf : task.page = p → w.store.catalog.file p.table = .ok source)
    (hn : (w.submit t task source).2.store.NumberedAt p) :
    (w.submit t task source).2.IntactAt p := by
  have hsound := h.tasks ht
  obtain ⟨hmoves, hnext⟩ := submit_moves (t := t) (l := {})
    (r := { page := task.page, mode := task.mode }) h.store (fun hw => by cases hw) hf
    hsound.insertion hsound.writes hsound.releases
  rw [Traffic.submit] at hn ⊢
  dsimp only at hn ⊢
  cases hsub : PagedStore.submit w.store t source { page := task.page, mode := task.mode }
      task.stage with
  | mk o store =>
      rw [hsub] at hmoves hnext hn
      cases o with
      | none =>
          refine h.turn hmoves hn ?_
          rintro _ ⟨rfl⟩
          have he := submitEvents_eq_nil (congrArg Prod.fst hsub)
          rw [he]
          refine ⟨fun hp f hs => ?_, hsound.insertion, hsound.writes, hsound.releases⟩
          cases hs
          exact Store.file_view (hf hp)
      | some n => exact h.turn hmoves hn (hnext rfl)

theorem resume (h : w.IntactAt p) {task : Task} (ht : w.tasks t = some task)
    (hn : (w.resume t task).2.store.NumberedAt p) : (w.resume t task).2.IntactAt p := by
  rw [Traffic.resume] at hn ⊢
  split at hn
  · rename_i source hsource
    exact h.submit ht (fun hp => Store.file_of_view ((h.tasks ht).source hp hsource)) hn
  · split at hn
    · rename_i source hf
      exact h.submit ht (fun hp => hp ▸ hf) hn
    · rename_i e hf
      refine h.turn (l := {}) ?_ hn fun _ ho => task.stage.soundAt_resume_error w.store t e ho
      rw [task.stage.resume_error]
      exact .refl p {} w.store

/-- A page is dropped, whatever changes are on it. -/
theorem discard (h : w.IntactAt p) (id : PageId) :
    IntactAt p { w with store := w.store.discard id } := by
  obtain he | ⟨counters, he⟩ := w.store.discard_eq id
  · rw [he]
    exact h
  · have hview : ({ w.store.onCache (fun c => c.drop id) with counters } : Store).view p =
        if id = p then { w.store.view p with copy := none } else w.store.view p :=
      Store.view_drop w.store id p
    rw [he]
    refine ⟨⟨h.store.catalog, h.store.keyed.drop id, h.store.indexed⟩, h.numbered, ?_, ?_⟩
    · rw [hview]
      split
      · exact h.intact.uncached
      · exact h.intact
    · exact h.tasks

/-- What every move does, if it changes no table and no file past the store. -/
theorem step (h : w.IntactAt p) (hr : ∀ catalog disk, move ≠ .replace catalog disk)
    (hs : w.step move = some (events, w')) (hn : w'.store.NumberedAt p) : w'.IntactAt p := by
  cases move with
  | start t request =>
      simp only [Traffic.step] at hs
      split at hs
      · cases hs
      · cases hs
        obtain ⟨hq, hnext⟩ := Request.start_moves (p := p) (l := {}) h.store
          (fun hw => by cases hw) request
        exact h.turn (hq.moves {}) hn hnext
  | resume t =>
      obtain ⟨task, htask, hresume⟩ := Option.map_eq_some_iff.1 hs
      obtain rfl : (w.resume t task).2 = w' := congrArg Prod.snd hresume
      exact h.resume htask hn
  | commit t =>
      cases hs
      exact h.withStore (commit_moves h.store t) hn
  | abort t =>
      cases hs
      exact h.withStore (abort_moves h.store t fun _ hk => h.intact.kept hk) hn
  | flushPage page =>
      simp only [Traffic.step] at hs
      split at hs
      · rename_i store hf
        cases hs
        exact h.withStore ((Store.quietAt_flushPage hf).moves {}) hn
      · cases hs
        exact h
  | flushPages t =>
      cases hs
      exact h.withStore ((Store.quietAt_flushPages p w.store t).moves {}) hn
  | flushAll =>
      cases hs
      exact h.withStore ((Store.quietAt_flushAll p w.store).moves {}) hn
  | discard page =>
      cases hs
      exact h.discard page
  | release t page =>
      cases hs
      exact h.withStore (Store.releasePage_moves (l := {}) w.store fun _ => rfl) hn
  | replace catalog disk => exact absurd rfl (hr catalog disk)

end IntactAt

/-- Every page is intact after a run in which no table and no file is changed past the store, if
the pages of its table can be counted. -/
theorem intactAt_of_run {rule : Ledger → Traffic → Move → Traffic → Prop} (h₀ : Fresh s₀)
    (hr : ∀ {l w w' catalog disk}, ¬ rule l w (.replace catalog disk) w')
    (h : Run rule s₀ history w) (hn : w.store.NumberedAt p) : w.IntactAt p := by
  induction h with
  | start =>
      refine ⟨h₀.sound, hn, ⟨?_, ?_, (h₀.agrees p).sized, ?_, (h₀.agrees p).kept⟩,
        fun t task ht => by cases ht⟩
      all_goals
        intro page
        rw [h₀.copy_view]
        exact fun hc => by cases hc
  | @step _ _ _ _ move _ hrule hs ih =>
      have hne : ∀ catalog disk, move ≠ .replace catalog disk := by
        rintro catalog disk rfl
        exact hr hrule
      exact (ih ((grew_of_ne_replace hne hs).numberedAt hn)).step hne hs hn

end Traffic

end PagedStore
