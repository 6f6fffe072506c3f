import PagedStore.Locks.WaitGraph
import Mathlib.Logic.Relation
import Mathlib.Order.WellFoundedSet

/-!
# The search for circles is exact

The wait graph is searched for a circle by pruning.  The search finds one if and only
if there is one (`WaitGraph.hasCycle_eq_true_iff`).

A graph without circles has finitely many waiting transactions, so the edges cannot be
followed forever (`WaitGraph.wellFounded_waits`).  Hence some waiting transaction waits
only for transactions that do not wait, and a round of pruning takes it out
(`WaitGraph.size_prune_lt`).  Pruning never breaks a circle, since everyone on it waits.
-/

namespace PagedStore

open Std (ExtTreeMap ExtTreeSet)
open Relation (TransGen ReflTransGen)

/-! ## Relations without circles -/

section NoCircle

variable {α : Type*} {r s : α → α → Prop}

/-- No chain of the relation leads back to where it began. -/
def NoCircle (r : α → α → Prop) : Prop := ∀ a, ¬ TransGen r a a

theorem NoCircle.mono (hs : NoCircle s) (h : ∀ a b, r a b → s a b) : NoCircle r := by
  intro a ha
  exact hs a (TransGen.mono h a a ha)

/-- A pair that leads to a dead end lies on no circle. -/
theorem NoCircle.of_dead_ends (hs : NoCircle s) (h : ∀ a b, r a b → s a b ∨ ∀ c, ¬ r b c) :
    NoCircle r := by
  have follow : ∀ {a b}, TransGen r a b → (∃ c, r b c) → TransGen s a b := by
    intro a b hab
    induction hab with
    | single hab =>
        rintro ⟨c, hbc⟩
        rcases h _ _ hab with hs | hdead
        · exact .single hs
        · exact absurd hbc (hdead c)
    | tail _ hbc ih =>
        rintro ⟨d, hcd⟩
        rcases h _ _ hbc with hs | hdead
        · exact (ih ⟨_, hbc⟩).tail hs
        · exact absurd hcd (hdead d)
  intro a ha
  obtain ⟨c, hac, -⟩ := TransGen.head'_iff.1 ha
  exact hs a (follow ha ⟨c, hac⟩)

/-- If all new pairs begin at one element, a chain that is new passes through it. -/
theorem transGen_cases_from {t : α} (h : ∀ a b, r a b → s a b ∨ a = t) {a b : α}
    (hab : TransGen r a b) :
    TransGen s a b ∨ (ReflTransGen s a t ∧ ∃ c, r t c ∧ ReflTransGen s c b) := by
  induction hab with
  | single hab =>
      rcases h _ _ hab with hs | rfl
      · exact Or.inl (.single hs)
      · exact Or.inr ⟨.refl, _, hab, .refl⟩
  | tail _ hbc ih =>
      rcases h _ _ hbc with hs | rfl
      · rcases ih with ih | ⟨hat, d, htd, hdb⟩
        · exact Or.inl (ih.tail hs)
        · exact Or.inr ⟨hat, d, htd, hdb.tail hs⟩
      · rcases ih with ih | ⟨hat, -⟩
        · exact Or.inr ⟨ih.to_reflTransGen, _, hbc, .refl⟩
        · exact Or.inr ⟨hat, _, hbc, .refl⟩

end NoCircle

namespace WaitGraph

variable {g : WaitGraph} {s t u : TransactionId}

/-! ## The edges after each operation -/

theorem waits_iff : g.Waits s t ↔ ∃ targets, g.edges[s]? = some targets ∧ t ∈ targets := by
  rw [Waits, targets, ExtTreeMap.getD_eq_getD_getElem?]
  cases g.edges[s]? <;> simp

theorem mem_edges_of_waits (h : g.Waits s t) : s ∈ g.edges := by
  obtain ⟨targets, ht, -⟩ := waits_iff.1 h
  rw [ExtTreeMap.mem_iff_isSome_getElem?, ht]
  rfl

theorem isEmpty_eq_false_iff : g.isEmpty = false ↔ ∃ t, t ∈ g.edges := by
  rw [isEmpty, ExtTreeMap.isEmpty_eq_false_iff, ExtTreeMap.eq_empty_iff_forall_not_mem,
    not_forall_not]

theorem waits_clearWaits : (g.clearWaits t).Waits s u ↔ s ≠ t ∧ g.Waits s u := by
  rw [waits_iff, waits_iff, clearWaits]
  simp only [ExtTreeMap.getElem?_erase, Std.LawfulEqCmp.compare_eq_iff_eq]
  by_cases hst : t = s
  · simp [hst]
  · simp [hst, Ne.symm hst]

theorem waits_setWaits {holders : List TransactionId} :
    (g.setWaits t holders).Waits s u ↔ if s = t then u ∈ holders ∧ u ≠ t else g.Waits s u := by
  have hmem : ∀ v, v ∈ holders.filter (fun x => x ≠ t) ↔ v ∈ holders ∧ v ≠ t := by simp
  unfold setWaits
  dsimp only
  split
  · rename_i hempty
    rw [List.isEmpty_iff] at hempty
    show (g.clearWaits t).Waits s u ↔ _
    rw [waits_clearWaits]
    by_cases hst : s = t
    · rw [if_pos hst, ← hmem, hempty]
      simp [hst]
    · rw [if_neg hst]
      simp [hst]
  · rw [waits_iff]
    simp only [ExtTreeMap.getElem?_insert, Std.LawfulEqCmp.compare_eq_iff_eq]
    by_cases hst : s = t
    · rw [if_pos hst.symm, if_pos hst, ← hmem]
      simp [ExtTreeSet.mem_ofList]
    · rw [if_neg (Ne.symm hst), if_neg hst, waits_iff]

private theorem mem_filter_targets {targets : ExtTreeSet TransactionId}
    {p : TransactionId → Bool} : u ∈ targets.filter p ↔ u ∈ targets ∧ p u = true := by
  simp [ExtTreeSet.mem_filter]

theorem getElem?_restrict (p : TransactionId → Bool) :
    (g.restrict p).edges[s]? = g.edges[s]?.bind fun targets =>
      if (targets.filter p).isEmpty then none else some (targets.filter p) := by
  rw [restrict, ExtTreeMap.getElem?_filterMap']

theorem waits_restrict {p : TransactionId → Bool} :
    (g.restrict p).Waits s u ↔ g.Waits s u ∧ p u = true := by
  rw [waits_iff, waits_iff, getElem?_restrict]
  cases g.edges[s]? with
  | none => simp
  | some targets =>
      rw [Option.bind_some]
      split
      · rename_i hempty
        rw [ExtTreeSet.isEmpty_iff] at hempty
        have hnone : ¬ (u ∈ targets ∧ p u = true) := by
          rw [← mem_filter_targets, hempty]
          exact ExtTreeSet.not_mem_empty
        simpa using hnone
      · simp

/-- Only transactions with a target are left in a restricted graph. -/
theorem exists_waits_of_mem_restrict {p : TransactionId → Bool} (h : s ∈ (g.restrict p).edges) :
    ∃ u, g.Waits s u ∧ p u = true := by
  rw [ExtTreeMap.mem_iff_isSome_getElem?, getElem?_restrict] at h
  cases hs : g.edges[s]? with
  | none => simp [hs] at h
  | some targets =>
      rw [hs, Option.bind_some] at h
      split at h
      · cases h
      · rename_i hne
        rw [ExtTreeSet.isEmpty_iff, ExtTreeSet.eq_empty_iff_forall_not_mem] at hne
        obtain ⟨u, hu⟩ := not_forall_not.1 hne
        rw [mem_filter_targets] at hu
        exact ⟨u, waits_iff.2 ⟨targets, hs, hu.1⟩, hu.2⟩

theorem waits_removeTransaction :
    (g.removeTransaction t).Waits s u ↔ s ≠ t ∧ u ≠ t ∧ g.Waits s u := by
  rw [removeTransaction, waits_restrict, waits_clearWaits, decide_eq_true_eq]
  tauto

theorem waits_prune : g.prune.Waits s u ↔ g.Waits s u ∧ u ∈ g.edges := by
  rw [prune, waits_restrict, ExtTreeMap.contains_iff_mem]

/-! ## Graphs without circles -/

/-- Without a circle the edges cannot be followed forever. -/
theorem wellFounded_waits (hg : NoCircle g.Waits) : WellFounded fun t s => g.Waits s t := by
  let after : TransactionId → TransactionId → Prop := fun t s => TransGen g.Waits s t
  have : IsStrictOrder TransactionId after :=
    { irrefl := hg, trans := fun _ _ _ hab hbc => hbc.trans hab }
  have hfin : {s | s ∈ g.edges}.Finite := by
    refine (List.finite_toSet g.edges.keys).subset fun s hs => ?_
    exact ExtTreeMap.mem_keys.2 hs
  have hwf := Set.wellFoundedOn_iff.1 (hfin.wellFoundedOn (r := after))
  refine ⟨fun s => hwf.induction s fun s ih => ⟨s, fun t hst => ?_⟩⟩
  by_cases ht : t ∈ g.edges
  · exact ih t ⟨.single hst, ht, mem_edges_of_waits hst⟩
  · -- a transaction that does not wait is the end of every chain
    exact ⟨t, fun u htu => absurd (mem_edges_of_waits htu) ht⟩

/-- A round of pruning takes a transaction out, if any waits and there is no circle. -/
theorem size_prune_lt (hg : NoCircle g.Waits) (hne : g.isEmpty = false) :
    g.prune.edges.size < g.edges.size := by
  obtain ⟨s, hs⟩ := isEmpty_eq_false_iff.1 hne
  obtain ⟨t, ht, hlast⟩ := (wellFounded_waits hg).has_min {s | s ∈ g.edges} ⟨s, hs⟩
  have hout : t ∉ g.prune.edges := by
    intro h
    obtain ⟨u, htu, hu⟩ := exists_waits_of_mem_restrict h
    exact hlast u (ExtTreeMap.contains_iff_mem.1 hu) htu
  have hsub : t :: g.prune.edges.keys ⊆ g.edges.keys := by
    intro u hu
    rcases List.mem_cons.1 hu with rfl | hu
    · exact ExtTreeMap.mem_keys.2 ht
    · obtain ⟨v, huv, -⟩ := exists_waits_of_mem_restrict (ExtTreeMap.mem_keys.1 hu)
      exact ExtTreeMap.mem_keys.2 (mem_edges_of_waits huv)
  have hnodup : (t :: g.prune.edges.keys).Nodup :=
    List.nodup_cons.2 ⟨fun h => hout (ExtTreeMap.mem_keys.1 h), ExtTreeMap.nodup_keys⟩
  have hle := (hnodup.subperm hsub).length_le
  rw [List.length_cons, ExtTreeMap.length_keys, ExtTreeMap.length_keys] at hle
  omega

/-! ## The search -/

theorem noCircle_prune (hg : NoCircle g.Waits) : NoCircle g.prune.Waits :=
  hg.mono fun _ _ h => (waits_prune.1 h).1

/-- Without a circle every round takes a transaction out, until none is left. -/
theorem size_repeat_prune_le (hg : NoCircle g.Waits) :
    ∀ n, NoCircle (Nat.repeat prune n g).Waits ∧
      (Nat.repeat prune n g).edges.size ≤ g.edges.size - n
  | 0 => ⟨hg, Nat.le_refl _⟩
  | n + 1 => by
      obtain ⟨hn, hsize⟩ := size_repeat_prune_le hg n
      refine ⟨noCircle_prune hn, ?_⟩
      show (Nat.repeat prune n g).prune.edges.size ≤ _
      cases hempty : (Nat.repeat prune n g).isEmpty with
      | true =>
          have hzero : (Nat.repeat prune n g).prune.edges.size = 0 := by
            have hnone := ExtTreeMap.isEmpty_iff.1 hempty
            rw [prune, restrict, hnone]
            rfl
          omega
      | false =>
          have := size_prune_lt hn hempty
          omega

/-- Pruning keeps every edge between two transactions on one circle. -/
theorem transGen_prune (h : TransGen g.Waits s t) (ht : t ∈ g.edges) :
    TransGen g.prune.Waits s t := by
  induction h with
  | single h => exact .single (waits_prune.2 ⟨h, ht⟩)
  | tail _ hbc ih => exact (ih (mem_edges_of_waits hbc)).tail (waits_prune.2 ⟨hbc, ht⟩)

theorem transGen_repeat_prune (h : TransGen g.Waits t t) :
    ∀ n, TransGen (Nat.repeat prune n g).Waits t t
  | 0 => h
  | n + 1 => by
      have ih := transGen_repeat_prune h n
      obtain ⟨u, htu, -⟩ := TransGen.head'_iff.1 ih
      exact transGen_prune ih (mem_edges_of_waits htu)

/-- The search finds a circle if and only if there is one. -/
theorem hasCycle_eq_true_iff : g.hasCycle = true ↔ ¬ NoCircle g.Waits := by
  rw [hasCycle, Bool.not_eq_true']
  constructor
  · intro hne hg
    have hsize := (size_repeat_prune_le hg g.edges.size).2
    rw [Nat.sub_self, Nat.le_zero, ← ExtTreeMap.eq_empty_iff_size_eq_zero] at hsize
    rw [isEmpty, hsize] at hne
    cases hne
  · intro hg
    obtain ⟨t, ht⟩ := not_forall_not.1 hg
    obtain ⟨u, htu, -⟩ := TransGen.head'_iff.1 (transGen_repeat_prune ht g.edges.size)
    exact isEmpty_eq_false_iff.2 ⟨t, mem_edges_of_waits htu⟩

theorem hasCycle_eq_false_iff : g.hasCycle = false ↔ NoCircle g.Waits := by
  rw [← Bool.not_eq_true, hasCycle_eq_true_iff, not_not]

end WaitGraph

end PagedStore
