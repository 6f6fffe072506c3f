import PagedStore.Proofs.Waiting

/-!
# Locks of groups that share no table

Transactions and tables are divided among groups (`Parting`), and each transaction locks only
pages of the tables of its own group.  A lock table is *parted* (`LockTable.Parted`) if nobody
holds a page of another group or waits for a transaction of another group, and nobody waits in a
circle.  It stays so while everyone keeps to the own group.

Two lock tables are *alike for a group* (`LockTable.AlikeFor`) if the pages of the group are held
by the same transactions in the same modes, and its transactions wait for the same.  On both a
request of the group gets the same verdict (`LockTable.AlikeFor.consider`), although the whole
graph is searched for circles: a circle that the request closes is one of the group
(`WaitGraph.noCircle_setWaits`).  What is done for other groups changes nothing for the group
(`LockTable.alikeFor_consider`, `LockTable.Parted.alikeFor_releaseAll`).
-/

namespace PagedStore

open Relation (TransGen ReflTransGen)

/-- The groups of the transactions, and of the tables that are theirs. -/
structure Parting (γ : Type) where
  /-- The group of a transaction. -/
  transaction : TransactionId → γ
  /-- The group whose transactions use a table. -/
  table : TableId → γ

/-! ## Circles through one transaction -/

namespace WaitGraph

variable {g : WaitGraph} {t u : TransactionId} {blockers : List TransactionId}

/-- Whoever leads to a transaction does so without the edges of this one. -/
theorem leads_setWaits (h : ReflTransGen g.Waits u t) :
    ReflTransGen (g.setWaits t blockers).Waits u t := by
  induction h using ReflTransGen.head_induction_on with
  | refl => exact .refl
  | @head a b hab _ ih =>
      by_cases ha : a = t
      · subst ha
        exact .refl
      · refine ih.head (waits_setWaits.2 ?_)
        rwa [if_neg ha]

/-- A transaction that waits for others closes a circle if and only if one of them leads back to
it. -/
theorem noCircle_setWaits (hg : NoCircle g.Waits) :
    NoCircle (g.setWaits t blockers).Waits ↔
      ∀ u ∈ blockers, u ≠ t → ¬ ReflTransGen g.Waits u t := by
  have hself : ∀ {u}, (g.setWaits t blockers).Waits t u ↔ u ∈ blockers ∧ u ≠ t := by
    intro u
    rw [waits_setWaits, if_pos rfl]
  constructor
  · intro hno u hu hne hlead
    exact hno t (.head' (hself.2 ⟨hu, hne⟩) (leads_setWaits hlead))
  · intro hno a ha
    have hfrom : ∀ a b, (g.setWaits t blockers).Waits a b → g.Waits a b ∨ a = t := by
      intro a b hab
      by_cases hat : a = t
      · exact Or.inr hat
      · rw [waits_setWaits, if_neg hat] at hab
        exact Or.inl hab
    rcases transGen_cases_from hfrom ha with hold | ⟨hat, u, htu, hua⟩
    · exact hg a hold
    · obtain ⟨hu, hne⟩ := hself.1 htu
      exact hno u hu hne (hua.trans hat)

end WaitGraph

namespace LockTable

variable {γ : Type} {P : Parting γ} {g : γ} {l l' l'' : LockTable} {r : LockRequest}
  {p id : PageId} {t u : TransactionId}

/-! ## What a request leaves alone -/

theorem modeOf?_consider_of_ne (l : LockTable) (t : TransactionId) (hp : r.page ≠ p) :
    (l.consider t r).2.modeOf? p u = l.modeOf? p u := by
  by_cases hv : (l.consider t r).1 = .granted
  · rw [modeOf?_of_granted hv, if_neg fun h => hp h.1]
  · exact modeOf?_of_not_granted hv p u

theorem waits_consider_of_ne (l : LockTable) (r : LockRequest) {s : TransactionId} (hs : s ≠ t) :
    (l.consider t r).2.waits.Waits s u ↔ l.waits.Waits s u := by
  rcases l.consider_eq t r with ⟨-, hc⟩ | ⟨-, -, hc⟩ | ⟨-, -, hc⟩ <;> rw [hc]
  · dsimp only
    rw [waits_give, WaitGraph.waits_clearWaits]
    exact and_iff_right hs
  · exact WaitGraph.waits_clearWaits.trans (and_iff_right hs)
  · exact WaitGraph.waits_setWaits.trans (by rw [if_neg hs])

/-! ## Parted lock tables -/

/-- Everyone keeps to the own group, and nobody waits in a circle. -/
structure Parted (P : Parting γ) (l : LockTable) : Prop where
  held : ∀ {p t}, l.modeOf? p t ≠ none → P.table p.table = P.transaction t
  waits : ∀ {t u}, l.waits.Waits t u → P.transaction u = P.transaction t
  noCircle : NoCircle l.waits.Waits

theorem parted_empty (P : Parting γ) : (∅ : LockTable).Parted P where
  held h := absurd (modeOf?_empty ..) h
  waits h := (not_waits_empty _ _ h).elim
  noCircle a h := by
    obtain ⟨b, hab, -⟩ := TransGen.head'_iff.1 h
    exact not_waits_empty a b hab

namespace Parted

/-- Fewer locks and fewer that wait. -/
theorem mono (hl : l.Parted P) (hm : ∀ {p t}, l'.modeOf? p t ≠ none → l.modeOf? p t ≠ none)
    (hw : ∀ {t u}, l'.waits.Waits t u → l.waits.Waits t u) : l'.Parted P :=
  ⟨fun h => hl.held (hm h), fun h => hl.waits (hw h), hl.noCircle.mono fun _ _ h => hw h⟩

/-- Who stands in the way of a request is of the same group. -/
theorem blockers (hl : l.Parted P) (ht : P.table r.page.table = P.transaction t)
    (hu : u ∈ l.blockers t r) : P.transaction u = P.transaction t :=
  (hl.held (Holders.ne_and_holds_of_mem_conflicts hu).2).symm.trans ht

theorem consider (hl : l.Parted P) (ht : P.table r.page.table = P.transaction t) :
    (l.consider t r).2.Parted P := by
  rcases l.consider_eq t r with ⟨hb, hc⟩ | ⟨-, -, hc⟩ | ⟨-, hno, hc⟩ <;> rw [hc]
  · have hwaits : ∀ {s u}, (l.give t r).waits.Waits s u → l.waits.Waits s u := by
      intro s u h
      rw [waits_give] at h
      exact (WaitGraph.waits_clearWaits.1 h).2
    refine ⟨fun {p u} h => ?_, fun h => hl.waits (hwaits h),
      hl.noCircle.mono fun _ _ h => hwaits h⟩
    rw [modeOf?_give hb] at h
    split at h
    · rename_i he
      rw [← he.1, ← he.2, ht]
    · exact hl.held h
  · exact hl.mono id fun h => (WaitGraph.waits_clearWaits.1 h).2
  · refine ⟨fun h => hl.held h, fun {s u} h => ?_, hno⟩
    have h : (l.waits.setWaits t (l.blockers t r)).Waits s u := h
    rw [WaitGraph.waits_setWaits] at h
    split at h
    · rename_i hs
      rw [hs, hl.blockers ht h.1]
    · exact hl.waits h

theorem release (hl : l.Parted P) (id : PageId) (t : TransactionId) :
    (l.release id t).2.Parted P := by
  refine hl.mono (fun {p u} h => ?_) fun h => h
  rw [modeOf?_release] at h
  exact fun hn => h (by rw [hn, ite_self])

theorem releaseAll (hl : l.Parted P) (hi : l.Indexed) (t : TransactionId) :
    (l.releaseAll t).2.Parted P := by
  refine hl.mono (fun {p u} h => ?_) fun h => ?_
  · rw [modeOf?_releaseAll hi] at h
    exact fun hn => h (by rw [hn, ite_self])
  · rw [waits_releaseAll] at h
    exact (WaitGraph.waits_removeTransaction.1 h).2.2

end Parted

/-! ## Alike for a group -/

/-- The group cannot tell the lock tables apart. -/
structure AlikeFor (P : Parting γ) (g : γ) (l l' : LockTable) : Prop where
  mode : ∀ {p}, P.table p.table = g → ∀ t, l'.modeOf? p t = l.modeOf? p t
  waits : ∀ {t}, P.transaction t = g → ∀ u, l'.waits.Waits t u ↔ l.waits.Waits t u

theorem AlikeFor.refl (P : Parting γ) (g : γ) (l : LockTable) : l.AlikeFor P g l :=
  ⟨fun _ _ => rfl, fun _ _ => .rfl⟩

theorem AlikeFor.trans (h : l.AlikeFor P g l') (h' : l'.AlikeFor P g l'') : l.AlikeFor P g l'' :=
  ⟨fun hp t => (h'.mode hp t).trans (h.mode hp t), fun ht u => (h'.waits ht u).trans (h.waits ht u)⟩

/-! ### What is done for another group -/

/-- A request of another group changes nothing for the group. -/
theorem alikeFor_consider (l : LockTable) (ht : P.transaction t ≠ g)
    (hp : P.table r.page.table ≠ g) : l.AlikeFor P g (l.consider t r).2 where
  mode hq _ := l.modeOf?_consider_of_ne t fun he => hp (he ▸ hq)
  waits hs _ := l.waits_consider_of_ne r fun he => ht (he ▸ hs)

theorem alikeFor_release (l : LockTable) (t : TransactionId) (hp : P.table id.table ≠ g) :
    l.AlikeFor P g (l.release id t).2 where
  mode {q} hq u := by rw [modeOf?_release, if_neg fun he : id = q ∧ t = u => hp (he.1 ▸ hq)]
  waits _ _ := .rfl

/-- A transaction of another group gives all its locks back, and nobody of the group has waited
for it. -/
theorem Parted.alikeFor_releaseAll (hl : l.Parted P) (hi : l.Indexed) (ht : P.transaction t ≠ g) :
    l.AlikeFor P g (l.releaseAll t).2 where
  mode {p} hp u := by
    rw [modeOf?_releaseAll hi]
    split
    · rename_i he
      subst he
      by_contra hheld
      exact ht ((hl.held (Ne.symm hheld)).symm.trans hp)
    · rfl
  waits {s} hs u := by
    rw [waits_releaseAll, WaitGraph.waits_removeTransaction]
    refine ⟨fun h => h.2.2, fun h => ⟨?_, ?_, h⟩⟩
    · rintro rfl
      exact ht hs
    · rintro rfl
      exact ht ((hl.waits h).trans hs)

/-! ### What is done for the group -/

namespace AlikeFor

/-- The same transactions stand in the way of a request. -/
theorem mem_blockers (h : l.AlikeFor P g l') (hp : P.table r.page.table = g) (u : TransactionId) :
    u ∈ l'.blockers t r ↔ u ∈ l.blockers t r := mem_blockers_congr (h.mode hp) u

/-- Whom a transaction of the group leads to is of the group, and it leads there on both. -/
theorem leads (h : l.AlikeFor P g l') (hl : l.Parted P) (hu : P.transaction u = g)
    (hlead : ReflTransGen l.waits.Waits u t) :
    P.transaction t = g ∧ ReflTransGen l'.waits.Waits u t := by
  induction hlead with
  | refl => exact ⟨hu, .refl⟩
  | tail _ hab ih => exact ⟨(hl.waits hab).trans ih.1, ih.2.tail ((h.waits ih.1 _).2 hab)⟩

theorem symm (h : l.AlikeFor P g l') : l'.AlikeFor P g l :=
  ⟨fun hp t => (h.mode hp t).symm, fun ht u => (h.waits ht u).symm⟩

/-- A circle that a request closes on one lock table it closes on the other. -/
theorem noCircle (h : l.AlikeFor P g l') (hl : l.Parted P) (hl' : l'.Parted P)
    (ht : P.transaction t = g) (hp : P.table r.page.table = g)
    (hno : NoCircle (l.waits.setWaits t (l.blockers t r)).Waits) :
    NoCircle (l'.waits.setWaits t (l'.blockers t r)).Waits := by
  rw [WaitGraph.noCircle_setWaits hl.noCircle] at hno
  rw [WaitGraph.noCircle_setWaits hl'.noCircle]
  intro u hu hne hlead
  have hgroup := (hl'.blockers (hp.trans ht.symm) hu).trans ht
  exact hno u ((h.mem_blockers hp u).1 hu) hne (h.symm.leads hl' hgroup hlead).2

/-- A request of the group gets the same verdict. -/
theorem consider (h : l.AlikeFor P g l') (hl : l.Parted P) (hl' : l'.Parted P)
    (ht : P.transaction t = g) (hp : P.table r.page.table = g) :
    (l'.consider t r).1 = (l.consider t r).1 ∧
      (l.consider t r).2.AlikeFor P g (l'.consider t r).2 := by
  have hnil : l'.blockers t r = [] ↔ l.blockers t r = [] := by
    simp only [List.eq_nil_iff_forall_not_mem, h.mem_blockers hp]
  have hclear : ∀ {s}, P.transaction s = g → ∀ u,
      (l'.waits.clearWaits t).Waits s u ↔ (l.waits.clearWaits t).Waits s u := by
    intro s hs u
    rw [WaitGraph.waits_clearWaits, WaitGraph.waits_clearWaits, h.waits hs]
  rcases l.consider_eq t r with ⟨hb, hc⟩ | ⟨hb, hcircle, hc⟩ | ⟨hb, hno, hc⟩
  · have hb' := hnil.2 hb
    rw [hc, consider_of_free hb']
    refine ⟨rfl, fun hq u => ?_, fun hs u => ?_⟩
    · rw [modeOf?_give hb, modeOf?_give hb', h.mode hq, h.mode hq]
    · rw [waits_give, waits_give, hclear hs]
  · have hcircle' := fun hno' => hcircle (h.symm.noCircle hl' hl ht hp hno')
    rw [hc, consider_of_circle (mt hnil.1 hb) hcircle']
    exact ⟨rfl, fun hq u => h.mode hq u, hclear⟩
  · rw [hc, consider_of_wait (mt hnil.1 hb) (h.noCircle hl hl' ht hp hno)]
    refine ⟨rfl, fun hq u => h.mode hq u, fun {s} hs u => ?_⟩
    show (l'.waits.setWaits t (l'.blockers t r)).Waits s u ↔
      (l.waits.setWaits t (l.blockers t r)).Waits s u
    rw [WaitGraph.waits_setWaits, WaitGraph.waits_setWaits, h.mem_blockers hp, h.waits hs]

theorem release (h : l.AlikeFor P g l') (id : PageId) (t : TransactionId) :
    (l.release id t).2.AlikeFor P g (l'.release id t).2 where
  mode hp u := by rw [modeOf?_release, modeOf?_release, h.mode hp]
  waits hs u := h.waits hs u

theorem releaseAll (h : l.AlikeFor P g l') (hi : l.Indexed) (hi' : l'.Indexed)
    (t : TransactionId) : (l.releaseAll t).2.AlikeFor P g (l'.releaseAll t).2 where
  mode hp u := by rw [modeOf?_releaseAll hi, modeOf?_releaseAll hi', h.mode hp]
  waits hs u := by
    rw [waits_releaseAll, waits_releaseAll, WaitGraph.waits_removeTransaction,
      WaitGraph.waits_removeTransaction, h.waits hs]

end AlikeFor

end LockTable

end PagedStore
