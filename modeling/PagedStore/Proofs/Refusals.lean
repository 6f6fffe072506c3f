import PagedStore.Proofs.Waiting

/-!
# Refusals are exact

A request is refused if waiting would close a circle in the wait graph.  The graph may be
behind the holders, so a refusal could come too early, too late, or to someone who did
nothing.  None of this happens in a session where each command is settled before the next
one is sent (`LockTable.Calm`).

Between commands the graph says who is blocked by whom, so a request is refused if and only
if some holder in its way is blocked, in however many steps, by the requester.  While a
command is settled the graph may have edges that lead nowhere, to transactions that are not
parked, and holders that the graph does not know.  But a release takes blockers away, and
a grant adds none that waits.  So those that are parked never come to block each other in
a circle, and none of them is refused (`LockTable.Settling.consider`).

The main statement is `LockTable.refusals_exact`.
-/

namespace PagedStore

open Std (ExtTreeMap ExtTreeSet)
open Relation (TransGen ReflTransGen)

namespace LockTable

variable {l l' : LockTable} {s t u : TransactionId} {r q : LockRequest} {p : PageId}

/-- The first transaction is parked, and the second stands in the way of its request. -/
def BlockedBy (l : LockTable) (t u : TransactionId) : Prop :=
  ∃ r, l.parked[t]? = some r ∧ u ∈ l.blockers t r

/-- Waiting for this request would close a circle: someone who stands in its way is blocked, in
however many steps, by the requester. -/
def Closes (l : LockTable) (t : TransactionId) (r : LockRequest) : Prop :=
  ∃ u ∈ l.blockers t r, ReflTransGen l.BlockedBy u t

/-- A parked request is evaluated. -/
inductive Evaluates : LockTable → LockTable → Prop where
  | parked {l : LockTable} {t : TransactionId} {r : LockRequest} (h : l.parked[t]? = some r) :
      Evaluates l (l.consider t r).2

/-- The tables of a session between two commands.  Each command is sent by a transaction without a
parked request, and then parked requests are evaluated, in any order, until none is woken. -/
inductive Calm : LockTable → Prop where
  /-- No command was sent yet. -/
  | start : Calm ∅
  /-- A command was sent and settled. -/
  | settle {l l' : LockTable} (c : LockCommand) (hl : Calm l)
      (hc : l.isParked c.transaction = false) (he : ReflTransGen Evaluates (l.perform c).2 l')
      (hw : l'.woken = ∅) : Calm l'

/-! ## Between commands -/

theorem Tracked.evaluates (hl : l.Tracked) (h : ReflTransGen Evaluates l l') : l'.Tracked := by
  induction h with
  | refl => exact hl
  | tail _ he ih =>
      cases he
      exact ih.consider _ _

theorem Calm.tracked (h : Calm l) : l.Tracked := by
  induction h with
  | start => exact tracked_empty
  | settle c _ hc he _ ih => exact (ih.perform c hc).evaluates he

theorem Calm.woken (h : Calm l) : l.woken = ∅ := by
  cases h with
  | start => rfl
  | settle _ _ _ _ hw => exact hw

/-- When no request is woken the graph says who is blocked by whom. -/
theorem Tracked.waits_iff (hl : l.Tracked) (hw : l.woken = ∅) :
    l.waits.Waits t u ↔ l.BlockedBy t u := by
  have hstuck : ∀ r, l.parked[t]? = some r → l.Stuck t r := fun r hr =>
    hl.stuck t r hr (by rw [hw]; exact ExtTreeSet.not_mem_empty)
  constructor
  · intro h
    obtain ⟨r, hr⟩ := Option.ne_none_iff_exists'.1 (hl.parked t u h)
    exact ⟨r, hr, ((hstuck r hr).waits u).1 h⟩
  · rintro ⟨r, hr, hu⟩
    exact ((hstuck r hr).waits u).2 hu

theorem Tracked.noCircle_blockedBy (hl : l.Tracked) (hw : l.woken = ∅) : NoCircle l.BlockedBy :=
  hl.noCircle.mono fun _ _ h => (hl.waits_iff hw).2 h

/-- A new request closes a circle in the graph if and only if it closes one of blocked
transactions. -/
theorem Tracked.circle_iff (hl : l.Tracked) (hw : l.woken = ∅) (ht : l.parked[t]? = none) :
    ¬ NoCircle (l.waits.setWaits t (l.blockers t r)).Waits ↔ l.Closes t r := by
  have hnew : ∀ u, (l.waits.setWaits t (l.blockers t r)).Waits t u ↔ u ∈ l.blockers t r := by
    intro u
    rw [WaitGraph.waits_setWaits, if_pos rfl]
    exact and_iff_left_of_imp fun hu => (Holders.ne_and_holds_of_mem_conflicts hu).1
  have hold : ∀ s u, s ≠ t →
      ((l.waits.setWaits t (l.blockers t r)).Waits s u ↔ l.BlockedBy s u) := by
    intro s u hs
    rw [WaitGraph.waits_setWaits, if_neg hs, hl.waits_iff hw]
  have hnone : ∀ u, ¬ l.BlockedBy t u := by
    rintro u ⟨q, hq, -⟩
    rw [ht] at hq
    cases hq
  constructor
  · intro hc
    obtain ⟨a, ha⟩ := not_forall_not.1 hc
    have hfrom : ∀ s u, (l.waits.setWaits t (l.blockers t r)).Waits s u →
        l.BlockedBy s u ∨ s = t := by
      intro s u h
      by_cases hs : s = t
      · exact Or.inr hs
      · exact Or.inl ((hold s u hs).1 h)
    rcases transGen_cases_from hfrom ha with ha | ⟨hat, u, hu, hua⟩
    · exact absurd ha (hl.noCircle_blockedBy hw a)
    · exact ⟨u, (hnew u).1 hu, hua.trans hat⟩
  · rintro ⟨u, hu, hut⟩ hc
    refine hc t (TransGen.head' ((hnew u).2 hu) ?_)
    refine ReflTransGen.mono (fun a b hab => (hold a b ?_).2 hab) _ _ hut
    rintro rfl
    exact hnone b hab

/-! ## While a command is settled -/

/-- No parked transactions block each other in a circle, and whatever the graph has beyond the
blocked transactions leads to one that is not parked. -/
structure Settling (l : LockTable) : Prop where
  noCircle : NoCircle l.BlockedBy
  parked : ∀ t u, l.waits.Waits t u → l.parked[t]? ≠ none
  waits : ∀ t u, l.waits.Waits t u → l.BlockedBy t u ∨ l.parked[u]? = none

theorem Tracked.settling (hl : l.Tracked) (hw : l.woken = ∅) : l.Settling where
  noCircle := hl.noCircle_blockedBy hw
  parked := hl.parked
  waits _ _ h := Or.inl ((hl.waits_iff hw).1 h)

/-- Only parked transactions are blocked. -/
theorem not_blockedBy (ht : l.parked[t]? = none) (u : TransactionId) : ¬ l.BlockedBy t u := by
  rintro ⟨r, hr, -⟩
  rw [ht] at hr
  cases hr

/-- The graph with the edges that a parked request would have now. -/
theorem Settling.waits_setWaits (hl : l.Settling) (hr : l.parked[t]? = some r)
    (h : (l.waits.setWaits t (l.blockers t r)).Waits s u) :
    l.parked[s]? ≠ none ∧ (l.BlockedBy s u ∨ l.parked[u]? = none) := by
  rw [WaitGraph.waits_setWaits] at h
  split at h
  · rename_i hs
    subst hs
    exact ⟨by simp [hr], Or.inl ⟨r, hr, h.1⟩⟩
  · exact ⟨hl.parked s u h, hl.waits s u h⟩

/-- It has no circle: on a circle all are parked, and so each is blocked by the next. -/
theorem Settling.noCircle_setWaits (hl : l.Settling) (hr : l.parked[t]? = some r) :
    NoCircle (l.waits.setWaits t (l.blockers t r)).Waits := by
  refine hl.noCircle.of_dead_ends fun a b h => ?_
  refine (hl.waits_setWaits hr h).2.imp_right fun hb c hbc => ?_
  exact (hl.waits_setWaits hr hbc).1 hb

/-- What is enough to stay in order: who is not parked holds more or less than before, and nothing
else changes. -/
theorem Settling.of_idle (hl : l.Settling) (ht : l'.parked[t]? = none)
    (hp : ∀ u, t ≠ u → l'.parked[u]? = l.parked[u]?)
    (hm : ∀ p u, t ≠ u → l'.modeOf? p u = l.modeOf? p u)
    (hw : ∀ a b, l'.waits.Waits a b → t ≠ a ∧ l.waits.Waits a b) : l'.Settling := by
  have hsame : ∀ a b, t ≠ a → t ≠ b → (l'.BlockedBy a b ↔ l.BlockedBy a b) := by
    intro a b ha hb
    simp only [BlockedBy, hp a ha]
    refine exists_congr fun r => and_congr_right fun _ => ?_
    exact Holders.mem_conflicts_congr (hm r.page b hb) (hm r.page a ha)
  have hsource : ∀ a b, l'.BlockedBy a b → t ≠ a := by
    rintro a b hab rfl
    exact not_blockedBy ht b hab
  refine ⟨?_, fun a b h => ?_, fun a b h => ?_⟩
  · refine hl.noCircle.of_dead_ends fun a b hab => ?_
    by_cases hb : t = b
    · subst hb
      exact Or.inr (not_blockedBy ht)
    · exact Or.inl ((hsame a b (hsource a b hab) hb).1 hab)
  · obtain ⟨ha, h⟩ := hw a b h
    rw [hp a ha]
    exact hl.parked a b h
  · obtain ⟨ha, h⟩ := hw a b h
    by_cases hb : t = b
    · exact Or.inr (hb ▸ ht)
    · rw [hp b hb, hsame a b ha hb]
      exact hl.waits a b h

theorem Settling.give (hl : l.Settling) (hb : l.blockers t r = []) : (l.give t r).Settling := by
  have hparked := l.getElem?_parked_give t r
  refine hl.of_idle (t := t) ?_ (fun u hu => ?_) (fun p u hu => ?_) fun a b h => ?_
  · rw [hparked, if_pos rfl]
  · rw [hparked, if_neg hu]
  · rw [modeOf?_give hb, if_neg fun h => hu h.2]
  · rw [waits_give, WaitGraph.waits_clearWaits] at h
    exact ⟨h.1.symm, h.2⟩

/-- A parked request that has to wait on is parked as before. -/
theorem Settling.park (hl : l.Settling) (hr : l.parked[t]? = some r) : (l.park t r).Settling := by
  have hparked : ∀ u : TransactionId, (l.park t r).parked[u]? = l.parked[u]? := by
    intro u
    rw [getElem?_parked_park]
    split
    · rename_i hu
      rw [← hu, hr]
    · rfl
  have hblocked : ∀ a b, (l.park t r).BlockedBy a b ↔ l.BlockedBy a b := by
    intro a b
    simp only [BlockedBy, hparked]
    rfl
  refine ⟨hl.noCircle.mono fun a b => (hblocked a b).1, fun a b h => ?_, fun a b h => ?_⟩
  · rw [hparked]
    exact (hl.waits_setWaits hr h).1
  · rw [hparked, hblocked]
    exact (hl.waits_setWaits hr h).2

/-- A parked request is granted or parked again. -/
theorem Settling.consider (hl : l.Settling) (hr : l.parked[t]? = some r) :
    (l.consider t r = (.granted, l.give t r) ∨ l.consider t r = (.waits, l.park t r)) ∧
      (l.consider t r).2.Settling := by
  rcases l.consider_eq t r with ⟨hb, h⟩ | ⟨-, hc, -⟩ | ⟨-, -, h⟩
  · rw [h]
    exact ⟨Or.inl rfl, hl.give hb⟩
  · exact absurd (hl.noCircle_setWaits hr) hc
  · rw [h]
    exact ⟨Or.inr rfl, hl.park hr⟩

theorem Settling.evaluates (hl : l.Settling) (h : ReflTransGen Evaluates l l') : l'.Settling := by
  induction h with
  | refl => exact hl
  | tail _ he ih =>
      cases he with
      | parked hr => exact (ih.consider hr).2

theorem Settling.release (hl : l.Settling) (p : PageId) (ht : l.parked[t]? = none) :
    (l.release p t).2.Settling := by
  refine hl.of_idle (t := t) ht (fun _ _ => rfl) (fun q u hu => ?_) fun a b h => ⟨?_, h⟩
  · rw [modeOf?_release, if_neg fun h => hu h.2]
  · rintro rfl
    exact hl.parked t b h ht

theorem Settling.releaseAll (hl : l.Settling) (hi : l.Indexed) (ht : l.parked[t]? = none) :
    (l.releaseAll t).2.Settling := by
  refine hl.of_idle (t := t) ?_ (fun u _ => ?_) (fun q u hu => ?_) fun a b h => ?_
  · rw [parked_releaseAll, ht]
  · rw [parked_releaseAll]
  · rw [modeOf?_releaseAll hi, if_neg hu]
  · rw [waits_releaseAll, WaitGraph.waits_removeTransaction] at h
    exact ⟨h.1.symm, h.2.2⟩

/-- A command that is sent between others leaves parked transactions in order. -/
theorem Tracked.settling_perform (hl : l.Tracked) (hw : l.woken = ∅) (c : LockCommand)
    (hc : l.isParked c.transaction = false) : (l.perform c).2.Settling := by
  have hs := hl.settling hw
  have ht := isParked_eq_false_iff.1 hc
  cases c with
  | acquire t r =>
      have hnew : ∀ l' : LockTable, l'.woken = l.woken.erase t → l'.woken = ∅ := by
        intro l' h
        rw [h, hw, ExtTreeSet.erase_empty]
      show (l.consider t r).2.Settling
      rcases l.consider_eq t r with ⟨hb, h⟩ | ⟨-, -, h⟩ | ⟨hb, hcircle, h⟩
      · rw [h]
        exact hs.give hb
      · rw [h]
        exact (hl.refuse t).settling (hnew _ rfl)
      · rw [h]
        exact (hl.park hb hcircle).settling (hnew _ rfl)
  | release t p => exact hs.release p ht
  | releaseAll t => exact hs.releaseAll hl.indexed ht

/-! ## Settling ends -/

/-- Once all woken requests are evaluated none is woken. -/
theorem Tracked.woken_settleFrom (hl : l.Tracked) (answers : ExtTreeMap TransactionId Verdict) :
    (settleFrom answers l).2.woken = ∅ := by
  fun_induction settleFrom answers l with
  | case1 answers l h =>
      refine ExtTreeSet.eq_empty_iff_forall_not_mem.2 fun t ht => hl.woken t ht ?_
      have hnone := List.findSome?_eq_none_iff.1 h t (ExtTreeSet.mem_toList.2 ht)
      exact Option.map_eq_none_iff.1 hnone
  | case2 answers l t r h ih => exact ih (hl.consider t r)

theorem evaluates_settleFrom (answers : ExtTreeMap TransactionId Verdict) (l : LockTable) :
    ReflTransGen Evaluates l (settleFrom answers l).2 := by
  fun_induction settleFrom answers l with
  | case1 answers l h => exact .refl
  | case2 answers l t r h ih => exact .head (.parked (mem_of_nextWoken? h).2) ih

/-- A session that is served stays calm. -/
theorem Calm.serve (hl : Calm l) (c : LockCommand) : Calm (l.serve c).2.2 := by
  rw [LockTable.serve]
  split
  · exact hl
  · rename_i hc
    have hc : l.isParked c.transaction = false := by simpa using hc
    exact .settle c hl hc (evaluates_settleFrom _ _)
      ((hl.tracked.perform c hc).woken_settleFrom _)

theorem Calm.performAll :
    ∀ {commands : List LockCommand} {l l' : LockTable}, Calm l →
      performAll commands l = some l' → Calm l'
  | [], l, l', hl, h => by
      cases h
      exact hl
  | c :: commands, l, l', hl, h => by
      rw [LockTable.performAll] at h
      split at h
      · rename_i hc
        exact Calm.performAll (.settle c hl hc.1 .refl hc.2) h
      · cases h

/-! ## What a request comes to -/

/-- All that a refusal changes: the transaction waits for nobody, and there is one more
deadlock. -/
structure OnlyRefused (l l' : LockTable) (t : TransactionId) : Prop where
  holders : l'.holders = l.holders
  held : l'.held = l.held
  parked : l'.parked = l.parked
  others : ∀ u, u ≠ t → l'.waits.targets u = l.waits.targets u
  own : l'.waits.targets t = ∅
  deadlocks : l'.deadlocks = l.deadlocks + 1

/-- A new request is granted, refused or parked as its blockers say. -/
structure Exact (l : LockTable) (t : TransactionId) (r : LockRequest) : Prop where
  granted : (l.consider t r).1 = .granted ↔ l.blockers t r = []
  refused : (l.consider t r).1.error? t = some (.aborted t) ↔ l.Closes t r
  waits : (l.consider t r).1 = .waits ↔ l.blockers t r ≠ [] ∧ ¬ l.Closes t r
  parks : (l.consider t r).1 = .waits → (l.consider t r).2.parked[t]? = some r
  leaves : (l.consider t r).1 = .refused → OnlyRefused l (l.consider t r).2 t

theorem onlyRefused_refuse (ht : l.parked[t]? = none) : OnlyRefused l (l.refuse t) t where
  holders := rfl
  held := rfl
  parked := by
    refine ExtTreeMap.ext_getElem? fun u => ?_
    show (l.unpark t).parked[u]? = _
    rw [getElem?_parked_unpark]
    split
    · rename_i hu
      rw [← hu, ht]
    · rfl
  others u hu := by
    show (l.waits.edges.erase t).getD u ∅ = l.waits.edges.getD u ∅
    simp [ExtTreeMap.getD_erase, Ne.symm hu]
  own := by
    show (l.waits.edges.erase t).getD t ∅ = ∅
    simp
  deadlocks := rfl

theorem Tracked.exact (hl : l.Tracked) (hw : l.woken = ∅) (ht : l.parked[t]? = none)
    (r : LockRequest) : l.Exact t r := by
  have hcircle := hl.circle_iff (r := r) hw ht
  rcases l.consider_eq t r with ⟨hb, h⟩ | ⟨hb, hc, h⟩ | ⟨hb, hc, h⟩
  · have hnot : ¬ l.Closes t r := by
      rintro ⟨u, hu, -⟩
      rw [hb] at hu
      cases hu
    constructor <;> simp [h, hb, hnot, Verdict.error?]
  · have hcl := hcircle.1 hc
    constructor <;> simp [h, hb, hcl, Verdict.error?, onlyRefused_refuse ht]
  · have hcl := mt hcircle.2 (not_not.2 hc)
    constructor <;> simp [h, hb, hcl, Verdict.error?, getElem?_parked_park]

/-! ## What becomes of parked requests -/

theorem parked_consider_of_ne (l : LockTable) (r : LockRequest) (hu : t ≠ u) :
    (l.consider t r).2.parked[u]? = l.parked[u]? := by
  rcases l.consider_eq t r with ⟨-, h⟩ | ⟨-, -, h⟩ | ⟨-, -, h⟩
  · rw [h, getElem?_parked_give, if_neg hu]
  · rw [h]
    exact (l.getElem?_parked_unpark t u).trans (if_neg hu)
  · rw [h, getElem?_parked_park, if_neg hu]

/-- A command leaves the parked requests of others alone. -/
theorem parked_perform_of_ne (l : LockTable) (c : LockCommand) (hu : c.transaction ≠ u) :
    (l.perform c).2.parked[u]? = l.parked[u]? := by
  cases c with
  | acquire t r => exact l.parked_consider_of_ne r hu
  | release t p => rfl
  | releaseAll t =>
      show (l.releaseAll t).2.parked[u]? = _
      rw [parked_releaseAll]

/-- A parked request is granted or stays parked, and so do the others. -/
structure OnlyGranted (l : LockTable) (t : TransactionId) (r : LockRequest) : Prop where
  self : (l.consider t r).1 = .granted ∨
    ((l.consider t r).1 = .waits ∧ (l.consider t r).2.parked[t]? = some r)
  others : ∀ u : TransactionId, t ≠ u → (l.consider t r).2.parked[u]? = l.parked[u]?

theorem Settling.onlyGranted (hl : l.Settling) (hr : l.parked[t]? = some r) :
    l.OnlyGranted t r := by
  refine ⟨?_, fun u hu => l.parked_consider_of_ne r hu⟩
  rcases (hl.consider hr).1 with h | h
  · exact Or.inl (by rw [h])
  · refine Or.inr ⟨by rw [h], ?_⟩
    rw [h, getElem?_parked_park, if_pos rfl]

/-! ## The main statement -/

/-- Refusals are exact, and hit only the requester.  In a session where each command is settled, a
request of a transaction that is not parked is granted if nobody stands in its way, refused if
someone in its way is blocked, in however many steps, by the requester, and else parked.  A
refusal changes nothing but the edges of the requester and the count.  Whatever command comes
next, and however far it is settled, a parked request stays parked until it is granted, and is
never refused. -/
theorem refusals_exact (hl : Calm l) :
    (∀ t r, l.isParked t = false → l.Exact t r) ∧
      ∀ (c : LockCommand) (l₁ : LockTable), l.isParked c.transaction = false →
        ReflTransGen Evaluates (l.perform c).2 l₁ →
          (∀ u : TransactionId, l.isParked u = true →
            (l.perform c).2.parked[u]? = l.parked[u]?) ∧
          ∀ (t : TransactionId) (r : LockRequest), l₁.parked[t]? = some r →
            l₁.OnlyGranted t r := by
  refine ⟨fun t r ht => ?_, fun c l₁ hc he => ⟨fun u hu => ?_, fun t r hr => ?_⟩⟩
  · exact hl.tracked.exact hl.woken (isParked_eq_false_iff.1 ht) r
  · refine l.parked_perform_of_ne c ?_
    rintro rfl
    rw [hc] at hu
    cases hu
  · exact ((hl.tracked.settling_perform hl.woken c hc).evaluates he).onlyGranted hr

/-- Transaction 0 asks for the page of 1, which waits for 0. -/
theorem refusals_exact_line :
    Line.table.isParked ⟨0⟩ = false ∧
      (Line.table.consider ⟨0⟩ ⟨Line.page 1, .shared⟩).1 = .refused ∧
        Line.table.Exact ⟨0⟩ ⟨Line.page 1, .shared⟩ := by
  have ht : Line.table.isParked ⟨0⟩ = false := by decide +kernel
  exact ⟨ht, by decide +kernel,
    (refusals_exact (Calm.start.performAll Line.performAll_eq)).1 _ _ ht⟩

end LockTable

end PagedStore
