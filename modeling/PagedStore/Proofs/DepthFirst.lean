import PagedStore.Proofs.LeavingLocks
import Mathlib.Data.Finset.Card

/-!
# Depth-first search for circles

A circle in the wait graph can also be found by a depth-first search.  The search goes from one
transaction to another along the edges, in any order (`WaitGraph.Order`), and marks the ones that
it has visited and the ones on the path that it is on (`WaitGraph.Trail`).  It has found a circle
when it comes to a transaction on its path.  A transaction that was visited before is passed over,
also if the search has begun anew somewhere else since.

The search ends, since nobody is visited twice (`WaitGraph.Order.left`).  If it finds a circle
there is one, since the path leads to where the search is (`WaitGraph.Order.circle_of_visit`).  If
it finds none there is none: whoever it has gone back from lies on no circle and waits only for
others that it has gone back from (`WaitGraph.Trail.Settled`), and in the end that is everyone.

A wait graph comes about by edits (`WaitGraph.Edit`).  An edge stands until an edit takes it away
(`WaitGraph.Stands`).  A graph has the edges that stand (`WaitGraph.waits_ofEdits`), so every
answer is about these, and so are the searches, in whatever order
(`WaitGraph.answers_exact`).
-/

namespace PagedStore

open Std (ExtTreeMap ExtTreeSet)
open Relation (TransGen ReflTransGen)

namespace WaitGraph

variable {g : WaitGraph} {s t u : TransactionId} {ts : List TransactionId}

/-! ## The search -/

/-- The marks that a search leaves. -/
structure Trail where
  /-- The transactions that have been visited. -/
  visited : ExtTreeSet TransactionId := ∅
  /-- Those on the path that the search is on. -/
  path : ExtTreeSet TransactionId := ∅

/-- The search comes to a transaction. -/
def Trail.enter (r : Trail) (t : TransactionId) : Trail :=
  { visited := r.visited.insert t, path := r.path.insert t }

/-- The search goes back from a transaction. -/
def Trail.leave (r : Trail) (t : TransactionId) : Trail := { r with path := r.path.erase t }

/-- An order in which to go through a graph: the transactions that wait, and those that each
transaction waits for. -/
structure Order (g : WaitGraph) where
  /-- Where the search begins, one after another. -/
  sources : List TransactionId
  /-- Where it goes on from a transaction, one after another. -/
  targets : TransactionId → List TransactionId
  /-- It begins with everyone who waits. -/
  mem_sources : ∀ t, t ∈ sources ↔ t ∈ g.edges
  /-- It goes along all edges. -/
  mem_targets : ∀ s t, t ∈ targets s ↔ g.Waits s t

/-- The order of the transactions themselves. -/
instance : Inhabited (Order g) where
  default :=
    { sources := g.edges.keys
      targets := g.waitsOn
      mem_sources := fun _ => ExtTreeMap.mem_keys
      mem_targets := fun _ _ => mem_waitsOn }

namespace Trail

variable {r : Trail}

theorem mem_visited_enter : u ∈ (r.enter t).visited ↔ u = t ∨ u ∈ r.visited := by
  rw [enter, ExtTreeSet.mem_insert, Std.LawfulEqCmp.compare_eq_iff_eq, eq_comm]

theorem mem_path_enter : u ∈ (r.enter t).path ↔ u = t ∨ u ∈ r.path := by
  rw [enter, ExtTreeSet.mem_insert, Std.LawfulEqCmp.compare_eq_iff_eq, eq_comm]

theorem mem_path_leave : u ∈ (r.leave t).path ↔ u ≠ t ∧ u ∈ r.path := by
  rw [leave, ExtTreeSet.mem_erase, Ne, Std.LawfulEqCmp.compare_eq_iff_eq, eq_comm (a := t)]

end Trail

namespace Order

variable {o : g.Order} {r : Trail}

/-- The number of waiting transactions that have not been visited. -/
def left (o : g.Order) (r : Trail) : Nat :=
  (o.sources.toFinset.filter fun t => t ∉ r.visited).card

theorem left_enter_le (o : g.Order) (r : Trail) (t : TransactionId) :
    o.left (r.enter t) ≤ o.left r := by
  refine Finset.card_le_card fun u hu => ?_
  rw [Finset.mem_filter] at hu ⊢
  exact ⟨hu.1, fun hr => hu.2 (Trail.mem_visited_enter.2 (Or.inr hr))⟩

theorem left_enter_lt (ht : t ∈ o.sources) (hv : t ∉ r.visited) :
    o.left (r.enter t) < o.left r := by
  refine Finset.card_lt_card (Finset.ssubset_iff_of_subset (fun u hu => ?_) |>.2 ⟨t, ?_, ?_⟩)
  · rw [Finset.mem_filter] at hu ⊢
    exact ⟨hu.1, fun hr => hu.2 (Trail.mem_visited_enter.2 (Or.inr hr))⟩
  · exact Finset.mem_filter.2 ⟨List.mem_toFinset.2 ht, hv⟩
  · exact fun h => (Finset.mem_filter.1 h).2 (Trail.mem_visited_enter.2 (Or.inl rfl))

/-- To go on from a transaction that was not visited brings the end nearer: if it waits it is
visited now, and if it does not wait there is nowhere to go. -/
theorem nearer_enter (ts : List TransactionId) (hv : t ∉ r.visited) :
    Prod.Lex (· < ·) (· < ·) (o.left (r.enter t), (o.targets t).length)
      (o.left r, (t :: ts).length) := by
  by_cases ht : t ∈ o.sources
  · exact .left _ _ (left_enter_lt ht hv)
  · have hnone : o.targets t = [] := by
      refine List.eq_nil_iff_forall_not_mem.2 fun u hu => ht ((o.mem_sources t).2 ?_)
      exact mem_edges_of_waits ((o.mem_targets t u).1 hu)
    rw [hnone]
    rcases Nat.lt_or_eq_of_le (o.left_enter_le r t) with hlt | heq
    · exact .left _ _ hlt
    · rw [heq]
      exact .right _ (Nat.succ_pos _)

/-- To go on with the next transaction brings the end nearer. -/
theorem nearer_next {r' : Trail} (t : TransactionId) (ts : List TransactionId)
    (h : o.left r' ≤ o.left r) :
    Prod.Lex (· < ·) (· < ·) (o.left r', ts.length) (o.left r, (t :: ts).length) := by
  rcases Nat.lt_or_eq_of_le h with hlt | heq
  · exact .left _ _ hlt
  · rw [heq]
    exact .right _ (Nat.lt_succ_self _)

/-- Visits transactions one after another, and from each of them those that it leads to, until a
circle is found.  The result says whether one was found, and has the marks that are left. -/
def visit (o : g.Order) : (ts : List TransactionId) → (r : Trail) →
    { found : Bool × Trail // o.left found.2 ≤ o.left r }
  | [], r => ⟨(false, r), Nat.le_refl _⟩
  | t :: ts, r =>
      if t ∈ r.path then ⟨(true, r), Nat.le_refl _⟩
      else if _hv : t ∈ r.visited then o.visit ts r
      else
        let below := o.visit (o.targets t) (r.enter t)
        have hle := Nat.le_trans below.2 (o.left_enter_le r t)
        -- the path stays as it is when a circle is found
        if below.1.1 then ⟨below.1, hle⟩
        else
          let rest := o.visit ts (below.1.2.leave t)
          ⟨rest.1, Nat.le_trans rest.2 hle⟩
termination_by ts r => (o.left r, ts.length)
decreasing_by
  · exact nearer_next t ts (Nat.le_refl _)
  · exact nearer_enter ts _hv
  · exact nearer_next t ts hle

/-- Searches the whole graph for a circle. -/
def findsCircle (o : g.Order) : Bool := (o.visit o.sources {}).1.1

end Order

/-! ## What a search leaves -/

namespace Trail

/-- The search has been at a transaction and has gone back from it. -/
def Left (r : Trail) (t : TransactionId) : Prop := t ∈ r.visited ∧ t ∉ r.path

/-- Whoever the search has gone back from lies on no circle, and waits only for others of this
kind. -/
structure Settled (g : WaitGraph) (r : Trail) : Prop where
  closed : ∀ ⦃s t⦄, r.Left s → g.Waits s t → r.Left t
  noCircle : ∀ ⦃s⦄, r.Left s → ¬ TransGen g.Waits s s

/-- What has become of the marks when no circle was found from some transactions. -/
structure Passed (g : WaitGraph) (ts : List TransactionId) (r r' : Trail) : Prop where
  settled : r'.Settled g
  path : ∀ u, u ∈ r'.path ↔ u ∈ r.path
  visited : ∀ u, u ∈ r.visited → u ∈ r'.visited
  left : ∀ t ∈ ts, r'.Left t

variable {r r' : Trail}

theorem Passed.kept (h : Passed g ts r r') (hu : r.Left u) : r'.Left u :=
  ⟨h.visited u hu.1, fun hp => hu.2 ((h.path u).1 hp)⟩

theorem Passed.nil (h : r.Settled g) : Passed g [] r r :=
  ⟨h, fun _ => Iff.rfl, fun _ hu => hu, fun _ ht => absurd ht List.not_mem_nil⟩

theorem Passed.cons {r₁ r₂ : Trail} (h₁ : Passed g [t] r r₁) (h₂ : Passed g ts r₁ r₂) :
    Passed g (t :: ts) r r₂ := by
  refine ⟨h₂.settled, fun u => (h₂.path u).trans (h₁.path u),
    fun u hu => h₂.visited u (h₁.visited u hu), fun u hu => ?_⟩
  rcases List.mem_cons.1 hu with rfl | hu
  · exact h₂.kept (h₁.left u List.mem_cons_self)
  · exact h₂.left u hu

/-- A transaction that was left before can be passed over. -/
theorem Passed.again (h : r.Settled g) (ht : r.Left t) : Passed g [t] r r :=
  ⟨h, fun _ => Iff.rfl, fun _ hu => hu, fun _ hu => List.mem_singleton.1 hu ▸ ht⟩

theorem Settled.transGen (h : r.Settled g) (hs : r.Left s) (hst : TransGen g.Waits s t) :
    r.Left t := by
  induction hst with
  | single hst => exact h.closed hs hst
  | tail _ htu ih => exact h.closed ih htu

/-- To come to a transaction changes nothing for those that the search has gone back from. -/
theorem left_enter (hv : t ∉ r.visited) : (r.enter t).Left u ↔ r.Left u := by
  rw [Left, Left, mem_visited_enter, mem_path_enter]
  by_cases hu : u = t
  · simp [hu, hv]
  · simp [hu]

theorem Settled.enter (h : r.Settled g) (hv : t ∉ r.visited) : (r.enter t).Settled g where
  closed _ _ hs hst := (left_enter hv).2 (h.closed ((left_enter hv).1 hs) hst)
  noCircle _ hs := h.noCircle ((left_enter hv).1 hs)

/-- When all that a transaction waits for has been left, it can be left as well. -/
theorem Passed.leave (h : Passed g ts (r.enter t) r') (hp : t ∉ r.path)
    (ht : ∀ u, g.Waits t u → u ∈ ts) : Passed g [t] r (r'.leave t) := by
  have hnow : t ∈ r'.path := (h.path t).2 (mem_path_enter.2 (Or.inl rfl))
  have hseen : t ∈ r'.visited := h.visited t (mem_visited_enter.2 (Or.inl rfl))
  have hleft : ∀ u, (r'.leave t).Left u ↔ u = t ∨ r'.Left u := by
    intro u
    show u ∈ r'.visited ∧ u ∉ (r'.leave t).path ↔ _
    rw [mem_path_leave]
    by_cases hu : u = t
    · simp [hu, hseen]
    · simp [hu, Left]
  have hafter : ∀ u, g.Waits t u → r'.Left u := fun u hu => h.left u (ht u hu)
  refine ⟨⟨fun s u hs hsu => ?_, fun s hs hcircle => ?_⟩, fun u => ?_, fun u hu => ?_,
    fun u hu => (hleft u).2 (Or.inl (List.mem_singleton.1 hu))⟩
  · rcases (hleft s).1 hs with rfl | hs
    · exact (hleft u).2 (Or.inr (hafter u hsu))
    · exact (hleft u).2 (Or.inr (h.settled.closed hs hsu))
  · rcases (hleft s).1 hs with rfl | hs
    · -- the circle leads to someone who was left, and from there back to the path
      obtain ⟨u, hsu, hback⟩ := TransGen.head'_iff.1 hcircle
      rcases Relation.reflTransGen_iff_eq_or_transGen.1 hback with rfl | hback
      · exact (hafter _ hsu).2 hnow
      · exact (h.settled.transGen (hafter u hsu) hback).2 hnow
    · exact h.settled.noCircle hs hcircle
  · rw [mem_path_leave, h.path, mem_path_enter]
    constructor
    · rintro ⟨hne, rfl | hu⟩
      · exact absurd rfl hne
      · exact hu
    · intro hu
      refine ⟨?_, Or.inr hu⟩
      rintro rfl
      exact hp hu
  · exact h.visited u (mem_visited_enter.2 (Or.inr hu))

end Trail

/-! ## The search is exact -/

namespace Order

variable {o : g.Order} {r : Trail}

/-- Without a circle the search goes through everything that it is given and comes back. -/
theorem passed_of_visit (hr : r.Settled g) (h : (o.visit ts r).1.1 = false) :
    Trail.Passed g ts r (o.visit ts r).1.2 := by
  fun_induction o.visit ts r with
  | case1 r => exact .nil hr
  | case2 t ts r ht => cases h
  | case3 t ts r ht hv ih => exact (Trail.Passed.again hr ⟨hv, ht⟩).cons (ih hr h)
  | case4 t ts r ht hv below hle hb => exact absurd (hb.symm.trans h) (by decide)
  | case5 t ts r ht hv below hle hb rest ihBelow ihRest =>
      have hbelow : Trail.Passed g (o.targets t) (r.enter t) below.1.2 :=
        ihBelow (hr.enter hv) (Bool.eq_false_iff.2 hb)
      have hback := hbelow.leave ht fun u hu => (o.mem_targets t u).2 hu
      exact hback.cons (ihRest hback.settled h)

/-- If the path leads to where the search is, a circle that it finds is one. -/
theorem circle_of_visit (hr : r.Settled g) (hpath : ∀ s ∈ r.path, ∀ t ∈ ts, TransGen g.Waits s t)
    (h : (o.visit ts r).1.1 = true) : ∃ t, TransGen g.Waits t t := by
  fun_induction o.visit ts r with
  | case1 r => cases h
  | case2 t ts r ht => exact ⟨t, hpath t ht t List.mem_cons_self⟩
  | case3 t ts r ht hv ih =>
      exact ih hr (fun s hs u hu => hpath s hs u (List.mem_cons_of_mem _ hu)) h
  | case4 t ts r ht hv below hle hb ih =>
      refine ih (hr.enter hv) (fun s hs u hu => ?_) hb
      have htu : g.Waits t u := (o.mem_targets t u).1 hu
      rcases Trail.mem_path_enter.1 hs with rfl | hs
      · exact .single htu
      · exact (hpath s hs t List.mem_cons_self).tail htu
  | case5 t ts r ht hv below hle hb rest ihBelow ihRest =>
      have hbelow : Trail.Passed g (o.targets t) (r.enter t) below.1.2 :=
        passed_of_visit (hr.enter hv) (Bool.eq_false_iff.2 hb)
      have hback := hbelow.leave ht fun u hu => (o.mem_targets t u).2 hu
      refine ihRest hback.settled (fun s hs u hu => ?_) h
      exact hpath s ((hback.path s).1 hs) u (List.mem_cons_of_mem _ hu)

theorem settled_empty : Trail.Settled g {} where
  closed _ _ hs := absurd hs.1 ExtTreeSet.not_mem_empty
  noCircle _ hs := absurd hs.1 ExtTreeSet.not_mem_empty

/-- The search finds a circle if and only if there is one, in every order. -/
theorem findsCircle_iff : o.findsCircle = true ↔ ∃ t, TransGen g.Waits t t := by
  constructor
  · exact circle_of_visit settled_empty fun s hs => absurd hs ExtTreeSet.not_mem_empty
  · rintro ⟨t, ht⟩
    by_contra hnot
    have hpassed := passed_of_visit (settled_empty (g := g)) (Bool.eq_false_iff.2 hnot)
    obtain ⟨u, htu, -⟩ := TransGen.head'_iff.1 ht
    have hsource : t ∈ o.sources := (o.mem_sources t).2 (mem_edges_of_waits htu)
    exact hpassed.settled.noCircle (hpassed.left t hsource) ht

end Order

/-! ## Edges that stand -/

/-- A change of a wait graph. -/
inductive Edit where
  /-- A transaction waits for these from now on. -/
  | setWaits (waiter : TransactionId) (holders : List TransactionId)
  /-- A transaction no longer waits. -/
  | clearWaits (waiter : TransactionId)
  /-- A transaction is gone. -/
  | removeTransaction (t : TransactionId)

/-- Makes a change. -/
def edit (g : WaitGraph) : Edit → WaitGraph
  | .setWaits t holders => g.setWaits t holders
  | .clearWaits t => g.clearWaits t
  | .removeTransaction t => g.removeTransaction t

/-- The graph that comes about by changes, one after another. -/
def ofEdits (edits : List Edit) : WaitGraph := edits.foldl edit ∅

/-- A change that takes the edge from `s` to `t` away, if it does not bring it anew. -/
def Edit.Ends (s t : TransactionId) : Edit → Prop
  | .setWaits waiter _ => waiter = s
  | .clearWaits waiter => waiter = s
  | .removeTransaction u => u = s ∨ u = t

/-- The edge from `s` to `t` stands after some changes: `s` has been made to wait for `t`, which is
not itself, and no change since has taken the edge away. -/
def Stands (edits : List Edit) (s t : TransactionId) : Prop :=
  ∃ before holders after, edits = before ++ .setWaits s holders :: after ∧
    t ∈ holders ∧ t ≠ s ∧ ∀ e ∈ after, ¬ e.Ends s t

variable {edits : List Edit} {e : Edit}

theorem not_stands_nil : ¬ Stands [] s t := by
  rintro ⟨before, holders, after, h, -⟩
  simp at h

/-- An edge stands after one more change if the change brings it, or if it stood and the change
does not take it away. -/
theorem stands_concat : Stands (edits ++ [e]) s t ↔
    (∃ holders, e = .setWaits s holders ∧ t ∈ holders ∧ t ≠ s) ∨
      (Stands edits s t ∧ ¬ e.Ends s t) := by
  constructor
  · rintro ⟨before, holders, after, h, ht, hne, hafter⟩
    rcases List.eq_nil_or_concat after with rfl | ⟨after, last, rfl⟩
    · obtain ⟨-, he⟩ := List.append_inj' h rfl
      exact Or.inl ⟨holders, List.singleton_inj.1 he, ht, hne⟩
    · rw [List.concat_eq_append, ← List.cons_append, ← List.append_assoc] at h
      obtain ⟨rfl, he⟩ := List.append_inj' h rfl
      obtain rfl := List.singleton_inj.1 he
      refine Or.inr ⟨⟨before, holders, after, rfl, ht, hne, fun e he => hafter e ?_⟩, hafter e ?_⟩
      · simp [he]
      · simp
  · rintro (⟨holders, rfl, ht, hne⟩ | ⟨⟨before, holders, after, rfl, ht, hne, hafter⟩, he⟩)
    · exact ⟨edits, holders, [], rfl, ht, hne, fun _ h => absurd h List.not_mem_nil⟩
    · refine ⟨before, holders, after ++ [e], by simp, ht, hne, fun e' he' => ?_⟩
      rcases List.mem_append.1 he' with h | h
      · exact hafter e' h
      · rwa [List.mem_singleton.1 h]

theorem waits_edit : (g.edit e).Waits s t ↔
    (∃ holders, e = .setWaits s holders ∧ t ∈ holders ∧ t ≠ s) ∨
      (g.Waits s t ∧ ¬ e.Ends s t) := by
  cases e with
  | setWaits waiter holders =>
      rw [edit, waits_setWaits, Edit.Ends]
      by_cases hs : s = waiter
      · subst hs
        simp
      · simp [hs, Ne.symm hs]
  | clearWaits waiter =>
      rw [edit, waits_clearWaits, Edit.Ends]
      simp [and_comm, eq_comm]
  | removeTransaction u =>
      rw [edit, waits_removeTransaction, Edit.Ends]
      simp only [reduceCtorEq, false_and, exists_false, false_or, not_or]
      tauto

/-- A graph has the edges that stand. -/
theorem waits_ofEdits : (ofEdits edits).Waits s t ↔ Stands edits s t := by
  induction edits using List.reverseRecOn generalizing s t with
  | nil =>
      refine iff_of_false (fun h => ?_) not_stands_nil
      exact ExtTreeMap.not_mem_empty (mem_edges_of_waits h)
  | append_singleton edits e ih =>
      rw [ofEdits, List.foldl_concat, waits_edit, stands_concat]
      exact or_congr_right (and_congr_left' ih)

theorem Proper.edit (hg : g.Proper) : (g.edit e).Proper := by
  cases e with
  | setWaits waiter holders => exact hg.setWaits waiter holders
  | clearWaits waiter => exact hg.clearWaits waiter
  | removeTransaction u => exact proper_restrict _ _

theorem proper_ofEdits (edits : List Edit) : (ofEdits edits).Proper := by
  induction edits using List.reverseRecOn with
  | nil => exact proper_empty
  | append_singleton edits e ih =>
      rw [ofEdits, List.foldl_concat]
      exact ih.edit

/-- A graph is empty if and only if no edge stands. -/
theorem isEmpty_ofEdits : (ofEdits edits).isEmpty = true ↔ ∀ s t, ¬ Stands edits s t := by
  simp only [← waits_ofEdits]
  constructor
  · intro h s t hst
    exact Bool.false_ne_true ((isEmpty_eq_false_iff.2 ⟨s, mem_edges_of_waits hst⟩).symm.trans h)
  · intro h
    by_contra hne
    obtain ⟨s, hs⟩ := isEmpty_eq_false_iff.1 (Bool.eq_false_iff.2 hne)
    obtain ⟨t, hst⟩ := proper_ofEdits edits s hs
    exact h s t hst

theorem stands_eq_waits (edits : List Edit) : (ofEdits edits).Waits = Stands edits :=
  funext fun _ => funext fun _ => propext waits_ofEdits

/-- Whatever changes a graph has seen, its answers are those of the edges that stand: whom a
transaction waits for, each named once, whether there are edges, and whether there is a circle.  A
depth-first search says the same about circles, in whatever order it goes. -/
theorem answers_exact (edits : List Edit) :
    (∀ s t, t ∈ (ofEdits edits).waitsOn s ↔ Stands edits s t) ∧
    (∀ s, ((ofEdits edits).waitsOn s).Nodup) ∧
    ((ofEdits edits).isEmpty = true ↔ ∀ s t, ¬ Stands edits s t) ∧
    ((ofEdits edits).hasCycle = true ↔ ∃ t, TransGen (Stands edits) t t) ∧
    (∀ o : (ofEdits edits).Order, o.findsCircle = true ↔ ∃ t, TransGen (Stands edits) t t) := by
  refine ⟨fun s t => mem_waitsOn.trans waits_ofEdits, fun s => ?_, isEmpty_ofEdits, ?_, fun o => ?_⟩
  · exact ExtTreeSet.distinct_toList.imp fun h heq => h (Std.LawfulEqCmp.compare_eq_iff_eq.2 heq)
  · rw [hasCycle_eq_true_iff, stands_eq_waits, NoCircle, not_forall_not]
  · rw [Order.findsCircle_iff, stands_eq_waits]

end WaitGraph
end PagedStore
