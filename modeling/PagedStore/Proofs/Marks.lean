import PagedStore.Proofs.Owners
import PagedStore.Proofs.TrafficTurns

/-!
# Marks and locks

The marks of owners in the cache and the locks of the pages are two things, and the store
changes them one by one.  Seen from one page a move is a sequence of steps (`Mark`).  A
request is evaluated, a lock is released, a page is fetched, a page is written for good, a
transaction ends, or the marks are left alone.

If all who have marks on the page have fetched it for writing, and they hold it in exclusive
mode, then it stays so (`MarkedAt.marks`).  What a move of one transaction does never
concerns the marks of another (`MarkedAt.spared_marks`).
-/

namespace PagedStore

open Std (ExtTreeMap)

/-! ## What changes the marks -/

/-- The transaction that a move is made for. -/
def Move.transaction? : Move → Option TransactionId
  | .start t _ | .resume t | .commit t | .abort t => some t
  | _ => none

/-- The transactions whose marks a move may touch. -/
def Move.mayTouch (move : Move) (u : TransactionId) : Prop :=
  ∀ ⦃t⦄, move.transaction? = some t → u = t

/-- The transaction that a move is to end. -/
def Move.ends : Move → TransactionId → Prop
  | .commit t | .abort t => fun u => u = t
  | _ => fun _ => False

/-- One thing that a move does, as far as the marks and the locks of a page go. -/
inductive Mark (p : PageId) (move : Move) : Ledger × Store → Ledger × Store → Prop where
  /-- The marks are left alone. -/
  | quiet {l l' : Ledger} {s s' : Store} :
      s.KeepsAt p move.mayTouch s' → (∀ u, l'.wrote u p = l.wrote u p) → Mark p move (l, s) (l', s')
  /-- A request is evaluated. -/
  | lock {l l' : Ledger} {s s' : Store} (t : TransactionId) (r : LockRequest) :
      s'.cache = s.cache → s'.locks = (s.locks.consider t r).2 →
        (∀ u, l'.wrote u p = l.wrote u p) → Mark p move (l, s) (l', s')
  /-- A lock is released by a transaction that has not fetched the page for writing. -/
  | release {l : Ledger} {s s' : Store} (t : TransactionId) (id : PageId) :
      (id = p → l.wrote t p = false) → s'.cache = s.cache →
        s'.locks = (s.locks.release id t).2 → Mark p move (l, s) (l, s')
  /-- A page is fetched. -/
  | take {l : Ledger} {s : Store} (t : TransactionId) (id : PageId) (mode : LockMode)
      (copy : Page) :
      move.mayTouch t → (mode = .exclusive → s.locks.modeOf? id t = some .exclusive) →
        Mark p move (l, s) (l.record (.fetched t id mode copy), s.take t id mode)
  /-- A page of a transaction is written for good. -/
  | save {l : Ledger} {s s' : Store} (t : TransactionId) (id : PageId) :
      move.ends t → s.cache.owner? id = some t → s.commitPage id = .ok s' →
        Mark p move (l, s) (l, s')
  /-- A transaction ends. -/
  | finish {l l' : Ledger} {s s' : Store} (t : TransactionId) :
      move.ends t → s.cache.owner? p ≠ some t → s'.cache = s.cache.forget t →
        s'.locks = (s.locks.releaseAll t).2 → (∀ u, l'.wrote u p = (l.close t).wrote u p) →
          Mark p move (l, s) (l', s')

/-- Any number of them. -/
abbrev Marks (p : PageId) (move : Move) : Ledger × Store → Ledger × Store → Prop :=
  Relation.ReflTransGen (Mark p move)

/-- Who has a mark on a page has fetched it for writing, and holds it in exclusive mode. -/
structure MarkedAt (p : PageId) (l : Ledger) (s : Store) : Prop where
  keyed : s.cache.Keyed
  indexed : s.locks.Indexed
  /-- Each copy has a number that was given out. -/
  counted : ∀ ⦃f⦄, s.cache.frames[p]? = some f → f.copy < s.cache.copies
  /-- An exclusive holder is the only one. -/
  alone : ∀ {t u}, s.locks.modeOf? p t = some .exclusive → u ≠ t → s.locks.modeOf? p u = none
  /-- Who has fetched the page for writing still holds it. -/
  locked : ∀ {t}, l.wrote t p = true → s.locks.modeOf? p t = some .exclusive
  /-- Who has a mark on the page has fetched it for writing. -/
  wrote : ∀ {t}, s.cache.Owns p t → l.wrote t p = true

namespace MarkedAt

variable {p id : PageId} {l l' : Ledger} {s s' : Store} {t u : TransactionId} {move : Move}

theorem mode_of_owns (h : MarkedAt p l s) (ht : s.cache.Owns p t) :
    s.locks.modeOf? p t = some .exclusive := h.locked (h.wrote ht)

theorem eq_of_mode (h : MarkedAt p l s) (ht : s.locks.modeOf? p t = some .exclusive)
    (hu : s.locks.modeOf? p u = some .exclusive) : u = t := by
  by_contra hne
  rw [h.alone ht hne] at hu
  cases hu

/-! ### Each change -/

theorem quiet (h : MarkedAt p l s) {mine : TransactionId → Prop} (hk : s.KeepsAt p mine s')
    (hw : ∀ u, l'.wrote u p = l.wrote u p) : MarkedAt p l' s' where
  keyed := hk.cache.keyed
  indexed := hk.locks ▸ h.indexed
  counted f' hf' := by
    rcases hk.cache.frame hf' with ⟨-, hlt, -⟩ | ⟨f, hf, hcopy, -⟩
    · exact hlt
    · rw [hcopy]
      exact Nat.lt_of_lt_of_le (h.counted hf) hk.cache.copies
  alone := by
    rw [hk.locks]
    exact h.alone
  locked ht := by
    rw [hk.locks]
    exact h.locked (by rwa [hw] at ht)
  wrote ht := by
    rw [hw]
    exact h.wrote (hk.cache.owns ht)

theorem lock (h : MarkedAt p l s) {r : LockRequest} (hc : s'.cache = s.cache)
    (hl : s'.locks = (s.locks.consider t r).2) (hw : ∀ u, l'.wrote u p = l.wrote u p) :
    MarkedAt p l' s' := by
  have hmode : ∀ u, (s.locks.consider t r).2.modeOf? p u =
      (if (s.locks.consider t r).1 = .granted ∧ r.page = p then (s.view p).granted t r.mode
        else s.view p).mode u :=
    fun u => congrFun (congrArg PageView.mode (s.view_consider t r p)) u
  refine ⟨hc ▸ h.keyed, hl ▸ h.indexed.consider t r, hc ▸ h.counted, ?_, ?_, ?_⟩
  · intro a b ha hb
    rw [hl, hmode] at ha ⊢
    split at ha
    · rename_i hg
      rw [if_pos hg]
      obtain ⟨page, mode⟩ := r
      obtain ⟨hg, rfl⟩ := hg
      refine PageView.alone_granted h.alone ?_ ?_ ha hb
      · rintro rfl u hu
        exact LockTable.eq_none_of_granted hg hu
      · rintro rfl hn u
        exact LockTable.ne_exclusive_of_granted hg hn
    · rename_i hg
      rw [if_neg hg]
      exact h.alone ha hb
  · intro a ha
    rw [hw] at ha
    rw [hl, hmode]
    split
    · exact PageView.exclusive_granted (h.locked ha)
    · exact h.locked ha
  · intro a ha
    rw [hc] at ha
    rw [hw]
    exact h.wrote ha

theorem release (h : MarkedAt p l s) (hr : id = p → l.wrote t p = false) (hc : s'.cache = s.cache)
    (hl : s'.locks = (s.locks.release id t).2) : MarkedAt p l s' := by
  have hmode : ∀ {u m}, s'.locks.modeOf? p u = some m → s.locks.modeOf? p u = some m := by
    intro u m hu
    rw [hl, LockTable.modeOf?_release] at hu
    exact (Option.ite_none_left_eq_some.1 hu).2
  refine ⟨hc ▸ h.keyed, hl ▸ h.indexed.release id t, hc ▸ h.counted, ?_, ?_, ?_⟩
  · intro a b ha hb
    have hb := h.alone (hmode ha) hb
    rw [hl, LockTable.modeOf?_release, hb, ite_self]
  · intro a ha
    rw [hl, LockTable.modeOf?_release, if_neg]
    · exact h.locked ha
    · rintro ⟨he, rfl⟩
      rw [hr he] at ha
      cases ha
  · intro a ha
    rw [hc] at ha
    exact h.wrote ha

end MarkedAt

/-- A fetched page keeps the number of its copy. -/
theorem Store.getElem?_frames_take (s : Store) (t : TransactionId) (id : PageId) (mode : LockMode)
    (q : PageId) :
    (s.take t id mode).cache.frames[q]? =
      if id = q then
        s.cache.frames[q]?.map fun frame => { frame with page := Store.taken t mode frame.page }
      else s.cache.frames[q]? := by
  cases mode with
  | shared =>
      show s.cache.frames[q]? = _
      cases s.cache.frames[q]? <;> simp [Store.taken]
  | exclusive => exact Cache.getElem?_frames_update ..

theorem Store.kept_take (s : Store) (t : TransactionId) (id : PageId) (mode : LockMode)
    (u : TransactionId) : (s.take t id mode).cache.keptFor u = s.cache.keptFor u := by
  cases mode <;> rfl

theorem Store.copies_take (s : Store) (t : TransactionId) (id : PageId) (mode : LockMode) :
    (s.take t id mode).cache.copies = s.cache.copies := by
  cases mode <;> rfl

/-- A page with an owner is written for good. -/
theorem Store.commitPage_of_owner {s s' : Store} {t : TransactionId} {id : PageId}
    (ho : s.cache.owner? id = some t) (h : s.commitPage id = .ok s') :
    s'.locks = s.locks ∧
      s'.cache = s.cache.update id fun page => page.keepImage.withOwner none := by
  obtain ⟨page, hc, -⟩ := Option.bind_eq_some_iff.1 ho
  rw [commitPage, hc] at h
  simp only at h
  split at h
  · cases h
  · rename_i s₁ hw
    cases h
    obtain ⟨f, disk, -, -, rfl⟩ := writeOut_eq_ok hw
    exact ⟨rfl, rfl⟩

namespace MarkedAt

variable {p id : PageId} {l l' : Ledger} {s s' : Store} {t u : TransactionId} {move : Move}
  {mode : LockMode}

/-- Who has a mark on the page after it is fetched had one before, or has fetched it for
writing. -/
theorem owns_take (ht : (s.take t id mode).cache.Owns p u) :
    s.cache.Owns p u ∨ (u = t ∧ id = p ∧ mode = .exclusive) := by
  rcases ht with ho | hk
  · obtain ⟨f', hf', ho⟩ := Cache.owner?_eq_some.1 ho
    rw [Store.getElem?_frames_take] at hf'
    split at hf'
    · rename_i hid
      obtain ⟨f, hf, rfl⟩ := Option.map_eq_some_iff.1 hf'
      cases mode with
      | shared => exact Or.inl (Or.inl (Cache.owner?_eq_some.2 ⟨f, hf, ho⟩))
      | exclusive => exact Or.inr ⟨(Option.some.inj ho).symm, hid, rfl⟩
    · exact Or.inl (Or.inl (Cache.owner?_eq_some.2 ⟨f', hf', ho⟩))
  · rw [Store.kept_take] at hk
    exact Or.inl (Or.inr hk)

theorem take (h : MarkedAt p l s) (hm : mode = .exclusive → s.locks.modeOf? id t = some .exclusive)
    (copy : Page) : MarkedAt p (l.record (.fetched t id mode copy)) (s.take t id mode) where
  keyed := Store.keyed_take h.keyed t id mode
  indexed := h.indexed
  counted f' hf' := by
    rw [Store.getElem?_frames_take] at hf'
    rw [Store.copies_take]
    split at hf'
    · obtain ⟨f, hf, rfl⟩ := Option.map_eq_some_iff.1 hf'
      have := h.counted hf
      exact this
    · exact h.counted hf'
  alone := h.alone
  locked ht := by
    rcases Ledger.wrote_fetched.1 ht with ⟨hx, rfl, rfl⟩ | ht
    · exact hm hx
    · exact h.locked ht
  wrote ht := by
    rcases owns_take ht with ht | ⟨hu, hid, hx⟩
    · exact Ledger.wrote_fetched.2 (Or.inr (h.wrote ht))
    · exact Ledger.wrote_fetched.2 (Or.inl ⟨hx, hu, hid⟩)

theorem save (h : MarkedAt p l s) (ho : s.cache.owner? id = some t)
    (hs : s.commitPage id = .ok s') : MarkedAt p l s' := by
  obtain ⟨hl, hc⟩ := Store.commitPage_of_owner ho hs
  have hframe : ∀ ⦃f'⦄, s'.cache.frames[p]? = some f' →
      ∃ f, s.cache.frames[p]? = some f ∧ f'.copy = f.copy ∧
        (f'.page.owner = none ∨ f'.page.owner = f.page.owner) := by
    intro f' hf'
    rw [hc, Cache.getElem?_frames_update] at hf'
    split at hf'
    · obtain ⟨f, hf, rfl⟩ := Option.map_eq_some_iff.1 hf'
      exact ⟨f, hf, rfl, Or.inl rfl⟩
    · exact ⟨f', hf', rfl, Or.inr rfl⟩
  refine ⟨hc ▸ h.keyed.update fun _ _ => rfl, hl ▸ h.indexed, fun f' hf' => ?_, ?_, ?_, ?_⟩
  · obtain ⟨f, hf, hcopy, -⟩ := hframe hf'
    rw [hcopy, hc]
    exact h.counted hf
  · rw [hl]
    exact h.alone
  · rw [hl]
    exact h.locked
  · rintro u (ho' | hk)
    · obtain ⟨f', hf', ho'⟩ := Cache.owner?_eq_some.1 ho'
      obtain ⟨f, hf, -, hn | hsame⟩ := hframe hf'
      · rw [hn] at ho'
        cases ho'
      · exact h.wrote (Or.inl (Cache.owner?_eq_some.2 ⟨f, hf, by rw [← hsame, ho']⟩))
    · rw [hc, Cache.keptFor_update] at hk
      exact h.wrote (Or.inr hk)

theorem finish (h : MarkedAt p l s) (ho : s.cache.owner? p ≠ some t)
    (hc : s'.cache = s.cache.forget t) (hl : s'.locks = (s.locks.releaseAll t).2)
    (hw : ∀ u, l'.wrote u p = (l.close t).wrote u p) : MarkedAt p l' s' := by
  have hmode : ∀ u, s'.locks.modeOf? p u = if t = u then none else s.locks.modeOf? p u := by
    intro u
    rw [hl, LockTable.modeOf?_releaseAll h.indexed]
  refine ⟨hc ▸ h.keyed, hl ▸ h.indexed.releaseAll t, hc ▸ h.counted, ?_, ?_, ?_⟩
  · intro a b ha hb
    rw [hmode] at ha
    rw [hmode, h.alone (Option.ite_none_left_eq_some.1 ha).2 hb, ite_self]
  · intro a ha
    rw [hw, Ledger.wrote_close] at ha
    rw [hmode, if_neg (Ne.symm ha.1)]
    exact h.locked ha.2
  · intro a ha
    rw [hw, Ledger.wrote_close]
    rw [hc] at ha
    rcases ha with ha | ha
    · have ha : s.cache.owner? p = some a := ha
      refine ⟨?_, h.wrote (Or.inl ha)⟩
      rintro rfl
      exact ho ha
    · rw [Cache.keptFor_forget] at ha
      split at ha
      · exact absurd ExtTreeMap.getElem?_empty ha
      · rename_i hne
        exact ⟨Ne.symm hne, h.wrote (Or.inr ha)⟩

/-- Whatever is done, who has a mark on the page has fetched it for writing and holds it in
exclusive mode. -/
theorem mark {a b : Ledger × Store} (h : MarkedAt p a.1 a.2) (hm : Mark p move a b) :
    MarkedAt p b.1 b.2 := by
  cases hm with
  | quiet hk hw => exact h.quiet hk hw
  | lock t r hc hl hw => exact h.lock hc hl hw
  | release t id hr hc hl => exact h.release hr hc hl
  | take t id mode copy _ hx => exact h.take hx copy
  | save t id _ ho hs => exact h.save ho hs
  | finish t _ ho hc hl hw => exact h.finish ho hc hl hw

theorem marks {a b : Ledger × Store} (h : MarkedAt p a.1 a.2) (hm : Marks p move a b) :
    MarkedAt p b.1 b.2 := by
  induction hm with
  | refl => exact h
  | tail _ hstep ih => exact ih.mark hstep

end MarkedAt

/-! ## The marks of others -/

theorem Move.mayTouch_of_ends {move : Move} {t : TransactionId} (h : move.ends t) :
    move.mayTouch t := by
  cases move with
  | commit | abort =>
      rintro u ⟨rfl⟩
      exact h
  | _ => cases h

/-- What a transaction has marked, and what is kept for it, is as before. -/
structure SparedAt (p : PageId) (u : TransactionId) (s s' : Store) : Prop where
  frame : s.cache.owner? p = some u → s'.cache.frames[p]? = s.cache.frames[p]?
  kept : (s'.cache.keptFor u)[p]? = (s.cache.keptFor u)[p]?

namespace MarkedAt

variable {p : PageId} {t u : TransactionId} {move : Move} {a b : Ledger × Store}

/-- What a move may not touch it leaves alone. -/
theorem spared_mark (h : MarkedAt p a.1 a.2) (hm : Mark p move a b) (hu : ¬ move.mayTouch u) :
    SparedAt p u a.2 b.2 := by
  cases hm with
  | quiet hk => exact ⟨hk.cache.spared hu, hk.cache.others hu⟩
  | lock _ _ hc => exact ⟨fun _ => by rw [hc], by rw [hc]⟩
  | release _ _ _ hc => exact ⟨fun _ => by rw [hc], by rw [hc]⟩
  | @take l s t id mode _ ht hx =>
      refine ⟨fun ho => ?_, by rw [Store.kept_take]⟩
      rw [Store.getElem?_frames_take]
      split
      · rename_i hid
        cases mode with
        | shared =>
            cases hf : s.cache.frames[p]? <;> simp [Store.taken]
        | exclusive =>
            -- the page is held in exclusive mode by its owner, so by no one else
            obtain rfl := h.eq_of_mode (hid ▸ hx rfl) (h.mode_of_owns (Or.inl ho))
            exact absurd ht hu
      · rfl
  | save t id ht ho hs =>
      obtain ⟨-, hc⟩ := Store.commitPage_of_owner ho hs
      refine ⟨fun hp => ?_, by rw [hc, Cache.keptFor_update]⟩
      rw [hc, Cache.getElem?_frames_update, if_neg]
      rintro rfl
      rw [ho] at hp
      cases hp
      exact hu (Move.mayTouch_of_ends ht)
  | finish t ht _ hc =>
      refine ⟨fun _ => by rw [hc]; rfl, ?_⟩
      rw [hc, Cache.keptFor_forget, if_neg]
      rintro rfl
      exact hu (Move.mayTouch_of_ends ht)

theorem spared_marks (h : MarkedAt p a.1 a.2) (hm : Marks p move a b) (hu : ¬ move.mayTouch u) :
    SparedAt p u a.2 b.2 := by
  induction hm with
  | refl => exact ⟨fun _ => rfl, rfl⟩
  | tail hm hstep ih =>
      have hlast := (h.marks hm).spared_mark hstep hu
      refine ⟨fun ho => ?_, hlast.kept.trans ih.kept⟩
      have hf := ih.frame ho
      rw [hlast.frame (by rw [Cache.owner?_congr hf, ho]), hf]

end MarkedAt

end PagedStore
