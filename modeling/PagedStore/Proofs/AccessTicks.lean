import PagedStore.Cache.Recency
import Mathlib.Data.List.Induction
import Mathlib.Data.List.Nodup

/-!
# The order of use kept by ticks

The order in which pages were last used can be kept in two finite maps.  Each access has a number,
its *tick*.  One map has the tick of the latest access to each page, the other the page of each of
these ticks (`AccessTicks`).  The second map read in the order of its keys is the order of use.

At any time each of the two maps is the inverse of the other, and no tick is above the last one
(`AccessTicks.Follows`).  So an access puts its page at the end and takes it away from where it
was, and a removal takes a page away (`AccessTicks.Follows.access?`,
`AccessTicks.Follows.remove`): the order is the one that `Recency` keeps.  Which order that is can
be told from the calls.  It has the pages accessed since they were removed last, by their latest
accesses (`Recency.mem_useAll_iff`, `Recency.pairwise_useAll`).  `AccessTicks.refines_list` has all
of this, together with what a search asks and finds.
-/

namespace PagedStore

open Std (ExtTreeMap)

/-! ## Maps read in the order of their keys -/

section Ordered

variable {α : Type} {l l' : List (UInt64 × α)} {m m' : ExtTreeMap UInt64 α} {tick : UInt64} {a : α}

theorem nodup_of_ordered (h : l.Pairwise fun e f => compare e.1 f.1 = .lt) : l.Nodup :=
  h.imp fun {e f} hlt heq => by
    rw [heq, Std.compare_eq_lt] at hlt
    exact UInt64.lt_irrefl _ hlt

/-- Lists in the order of their keys are the same if they have the same members. -/
theorem eq_of_ordered (h : l.Pairwise fun e f => compare e.1 f.1 = .lt)
    (h' : l'.Pairwise fun e f => compare e.1 f.1 = .lt) (hmem : ∀ e, e ∈ l ↔ e ∈ l') : l = l' := by
  have hperm := (List.perm_ext_iff_of_nodup (nodup_of_ordered h) (nodup_of_ordered h')).2 hmem
  refine hperm.eq_of_pairwise (fun e f _ _ hlt hgt => ?_) h h'
  rw [Std.compare_eq_lt] at hlt hgt
  exact absurd (UInt64.lt_trans hlt hgt) (UInt64.lt_irrefl _)

/-- An entry whose key is above all others comes last. -/
theorem toList_insert_of_lt (h : ∀ (k : UInt64) (v : α), m[k]? = some v → k < tick) :
    (m.insert tick a).toList = m.toList ++ [(tick, a)] := by
  refine eq_of_ordered ExtTreeMap.ordered_keys_toList ?_ ?_
  · refine List.pairwise_append.2 ⟨ExtTreeMap.ordered_keys_toList, List.pairwise_singleton _ _, ?_⟩
    rintro ⟨k, v⟩ hkv f hf
    rw [List.mem_singleton.1 hf, Std.compare_eq_lt]
    exact h k v (ExtTreeMap.mem_toList_iff_getElem?_eq_some.1 hkv)
  · rintro ⟨k, v⟩
    simp only [List.mem_append, List.mem_singleton, ExtTreeMap.mem_toList_iff_getElem?_eq_some,
      ExtTreeMap.getElem?_insert, Std.LawfulEqCmp.compare_eq_iff_eq, Prod.mk.injEq]
    by_cases hk : tick = k
    · subst hk
      have hnew : m[tick]? ≠ some v := fun hv => UInt64.lt_irrefl _ (h tick v hv)
      simp [hnew, eq_comm]
    · simp [hk, Ne.symm hk]

/-- If some entries are left out of a map, they are left out of its list. -/
theorem toList_eq_filter (keep : α → Bool)
    (h : ∀ (k : UInt64) (v : α), m'[k]? = some v ↔ m[k]? = some v ∧ keep v = true) :
    m'.toList = m.toList.filter fun e => keep e.2 := by
  refine eq_of_ordered ExtTreeMap.ordered_keys_toList
    (ExtTreeMap.ordered_keys_toList.sublist List.filter_sublist) ?_
  rintro ⟨k, v⟩
  rw [List.mem_filter, ExtTreeMap.mem_toList_iff_getElem?_eq_some,
    ExtTreeMap.mem_toList_iff_getElem?_eq_some, h]

end Ordered

/-! ## Ticks -/

/-- The order of use, kept by the numbers of the accesses. -/
structure AccessTicks where
  /-- The number of the last access. -/
  tick : UInt64 := 0
  /-- The number of the latest access to each page. -/
  latest : ExtTreeMap PageId UInt64 := ∅
  /-- The page that each of these accesses was to. -/
  order : ExtTreeMap UInt64 PageId := ∅

namespace AccessTicks

variable {σ : Type}

/-- The pages by number, without one of them. -/
def without (t : AccessTicks) (page : PageId) : ExtTreeMap UInt64 PageId :=
  match t.latest[page]? with
  | some old => t.order.erase old
  | none => t.order

/-- Makes a page the most recently used.  There is no result if the accesses can no longer be
counted. -/
def access? (t : AccessTicks) (page : PageId) : Option AccessTicks :=
  if t.tick.toNat + 1 < UInt64.size then
    let tick := t.tick + 1
    some { tick, latest := t.latest.insert page tick, order := (t.without page).insert tick page }
  else none

/-- Takes a page out of the order. -/
def remove (t : AccessTicks) (page : PageId) : AccessTicks :=
  { t with latest := t.latest.erase page, order := t.without page }

/-- The pages, the least recently used first. -/
def pages (t : AccessTicks) : List PageId := t.order.toList.map Prod.snd

/-- The number of pages. -/
def size (t : AccessTicks) : Nat := t.latest.size

/-- There is no page. -/
def isEmpty (t : AccessTicks) : Bool := t.latest.isEmpty

/-- Asks about pages one by one until one is accepted.  The answer can depend on what was asked
before, and asking can change what is known. -/
def ask (answer : σ → PageId → Bool × σ) : σ → List PageId → Option PageId × σ
  | s, [] => (none, s)
  | s, page :: pages =>
      match answer s page with
      | (true, s') => (some page, s')
      | (false, s') => ask answer s' pages

/-- The least recently used page that is accepted, and what is known after asking. -/
def findVictim (t : AccessTicks) (answer : σ → PageId → Bool × σ) (s : σ) : Option PageId × σ :=
  ask answer s t.pages

end AccessTicks

/-! ## Calls -/

/-- A call that changes the order of use. -/
inductive Use where
  /-- The page is accessed. -/
  | access (page : PageId)
  /-- The page is removed. -/
  | remove (page : PageId)
deriving DecidableEq

/-- The call is an access. -/
def Use.isAccess : Use → Bool
  | access _ => true
  | remove _ => false

/-- The page was accessed, and was not removed since. -/
def Tracked (uses : List Use) (p : PageId) : Prop :=
  ∃ i : Nat, uses[i]? = some (.access p) ∧ ∀ j : Nat, i < j → uses[j]? ≠ some (.remove p)

/-- The latest access to the page is the call at position `i`. -/
def LatestAccess (uses : List Use) (p : PageId) (i : Nat) : Prop :=
  uses[i]? = some (.access p) ∧ ∀ j : Nat, i < j → uses[j]? ≠ some (.access p)

namespace AccessTicks

/-- The order after a call. -/
def use? (t : AccessTicks) : Use → Option AccessTicks
  | .access page => t.access? page
  | .remove page => some (t.remove page)

/-- The order after many calls, one after another. -/
def useAll? (t : AccessTicks) (uses : List Use) : Option AccessTicks := uses.foldlM use? t

end AccessTicks

namespace Recency

variable {uses : List Use} {u : Use} {p q : PageId} {i : Nat}

/-- The order after a call. -/
def use (r : Recency) : Use → Recency
  | .access page => r.touch page
  | .remove page => r.remove page

/-- The order after many calls, one after another. -/
def useAll (r : Recency) (uses : List Use) : Recency := uses.foldl use r

theorem useAll_concat (r : Recency) (uses : List Use) (u : Use) :
    r.useAll (uses ++ [u]) = (r.useAll uses).use u := List.foldl_concat ..

end Recency

/-! ### Which pages, and in which order -/

section Calls

variable {uses : List Use} {u : Use} {p q : PageId} {i : Nat}

theorem getElem?_concat_eq_some_iff {α : Type} {l : List α} {a b : α} {i : Nat} :
    (l ++ [a])[i]? = some b ↔ l[i]? = some b ∨ i = l.length ∧ a = b := by
  obtain hi | rfl | hi := Nat.lt_trichotomy i l.length
  · simp [List.getElem?_append_left hi, Nat.ne_of_lt hi]
  · simp
  · rw [List.getElem?_eq_none (by rw [List.length_append]; exact hi),
      List.getElem?_eq_none (Nat.le_of_lt hi)]
    simp [Nat.ne_of_gt hi]

theorem lt_length_of_getElem? (h : uses[i]? = some u) : i < uses.length :=
  (List.getElem?_eq_some_iff.1 h).1

theorem tracked_concat_iff :
    Tracked (uses ++ [u]) p ↔ u = .access p ∨ Tracked uses p ∧ u ≠ .remove p := by
  constructor
  · rintro ⟨i, hi, hlater⟩
    rcases getElem?_concat_eq_some_iff.1 hi with hi | ⟨-, rfl⟩
    · refine .inr ⟨⟨i, hi, fun j hij hj => ?_⟩, fun hu => ?_⟩
      · exact hlater j hij (getElem?_concat_eq_some_iff.2 (.inl hj))
      · exact hlater _ (lt_length_of_getElem? hi) (getElem?_concat_eq_some_iff.2 (.inr ⟨rfl, hu⟩))
    · exact .inl rfl
  · rintro (rfl | ⟨⟨i, hi, hlater⟩, hu⟩)
    · refine ⟨uses.length, List.getElem?_concat_length, fun j hij hj => ?_⟩
      rcases getElem?_concat_eq_some_iff.1 hj with hj | ⟨-, hj⟩
      · exact Nat.lt_asymm hij (lt_length_of_getElem? hj)
      · cases hj
    · refine ⟨i, getElem?_concat_eq_some_iff.2 (.inl hi), fun j hij hj => ?_⟩
      rcases getElem?_concat_eq_some_iff.1 hj with hj | ⟨-, hj⟩
      · exact hlater j hij hj
      · exact hu hj

theorem latestAccess_concat_self : LatestAccess (uses ++ [.access p]) p uses.length := by
  refine ⟨List.getElem?_concat_length, fun j hij hj => ?_⟩
  rcases getElem?_concat_eq_some_iff.1 hj with hj | ⟨rfl, -⟩
  · exact Nat.lt_asymm hij (lt_length_of_getElem? hj)
  · exact Nat.lt_irrefl _ hij

theorem LatestAccess.concat (h : LatestAccess uses p i) (hu : u ≠ .access p) :
    LatestAccess (uses ++ [u]) p i := by
  refine ⟨getElem?_concat_eq_some_iff.2 (.inl h.1), fun j hij hj => ?_⟩
  rcases getElem?_concat_eq_some_iff.1 hj with hj | ⟨-, hj⟩
  · exact h.2 j hij hj
  · exact hu hj

theorem exists_latestAccess (h : .access p ∈ uses) : ∃ i, LatestAccess uses p i := by
  induction uses using List.reverseRecOn with
  | nil => cases h
  | append_singleton uses u ih =>
      by_cases hu : u = .access p
      · exact ⟨uses.length, hu ▸ latestAccess_concat_self⟩
      · obtain ⟨i, hi⟩ := ih (by simpa [Ne.symm hu] using h)
        exact ⟨i, hi.concat hu⟩

/-- The pages in the order of use are those accessed since they were removed last. -/
theorem Recency.mem_useAll_iff : p ∈ (Recency.useAll ∅ uses).pages ↔ Tracked uses p := by
  induction uses using List.reverseRecOn with
  | nil =>
      refine ⟨fun h => absurd h List.not_mem_nil, ?_⟩
      rintro ⟨i, hi, -⟩
      cases hi
  | append_singleton uses u ih =>
      rw [useAll_concat, tracked_concat_iff, ← ih]
      cases u with
      | access page =>
          rw [use, pages_touch, List.mem_append, List.mem_filter, List.mem_singleton]
          by_cases hp : page = p
          · simp [hp]
          · simp [hp, Ne.symm hp]
      | remove page =>
          rw [use, pages_remove, List.mem_filter]
          simp [@eq_comm _ p]

/-- They are ordered by their latest accesses. -/
theorem Recency.pairwise_useAll (uses : List Use) :
    (Recency.useAll ∅ uses).pages.Pairwise fun p q =>
      ∃ i j, LatestAccess uses p i ∧ LatestAccess uses q j ∧ i < j := by
  induction uses using List.reverseRecOn with
  | nil => exact .nil
  | append_singleton uses u ih =>
      have hkept : ∀ page, u = .access page ∨ u = .remove page →
          ((Recency.useAll ∅ uses).pages.filter fun q => q ≠ page).Pairwise fun p q =>
            ∃ i j, LatestAccess (uses ++ [u]) p i ∧ LatestAccess (uses ++ [u]) q j ∧ i < j := by
        intro page hu
        have hne : ∀ q ∈ (Recency.useAll ∅ uses).pages.filter fun q => q ≠ page,
            u ≠ .access q := by
          intro q hq
          have hq' : q ≠ page := by simpa using (List.mem_filter.1 hq).2
          rintro rfl
          simp [hq'] at hu
        refine (ih.sublist List.filter_sublist).imp_of_mem fun {p q} hp hq => ?_
        rintro ⟨i, j, hi, hj, hij⟩
        exact ⟨i, j, hi.concat (hne p hp), hj.concat (hne q hq), hij⟩
      rw [useAll_concat]
      cases u with
      | remove page => exact hkept page (.inr rfl)
      | access page =>
          refine List.pairwise_append.2 ⟨hkept page (.inl rfl), List.pairwise_singleton _ _, ?_⟩
          intro p hp q hq
          rw [List.mem_singleton.1 hq]
          obtain ⟨hmem, hne⟩ := List.mem_filter.1 hp
          obtain ⟨k, hk, -⟩ := mem_useAll_iff.1 hmem
          obtain ⟨i, hi⟩ := exists_latestAccess (List.mem_of_getElem? hk)
          have hne : Use.access page ≠ .access p := by
            rintro ⟨⟩
            simp at hne
          exact ⟨i, uses.length, hi.concat hne, latestAccess_concat_self,
            lt_length_of_getElem? hi.1⟩

end Calls

/-! ## Ticks follow the order of use -/

namespace AccessTicks

variable {t t' : AccessTicks} {r : Recency} {uses : List Use} {σ : Type}

/-- The maps are inverse, no tick is above the last one, and the order is that of use. -/
structure Follows (t : AccessTicks) (r : Recency) : Prop where
  /-- Each of the maps is the inverse of the other. -/
  inverse : ∀ (p : PageId) (k : UInt64), t.latest[p]? = some k ↔ t.order[k]? = some p
  /-- Ticks are counted up. -/
  counted : ∀ (k : UInt64) (p : PageId), t.order[k]? = some p → k ≤ t.tick
  /-- The pages are in the order of use. -/
  pages : t.pages = r.pages

namespace Follows

theorem getElem?_without (h : t.Follows r) (page : PageId) (k : UInt64) (p : PageId) :
    (t.without page)[k]? = some p ↔ t.order[k]? = some p ∧ p ≠ page := by
  rw [without]
  cases hold : t.latest[page]? with
  | none =>
      refine ⟨fun hp => ⟨hp, ?_⟩, And.left⟩
      rintro rfl
      rw [(h.inverse p k).2 hp] at hold
      cases hold
  | some old =>
      have hback := (h.inverse page old).1 hold
      simp only [ExtTreeMap.getElem?_erase, Std.LawfulEqCmp.compare_eq_iff_eq]
      split
      · rename_i hk
        subst hk
        rw [hback]
        simp [eq_comm]
      · rename_i hk
        refine ⟨fun hp => ⟨hp, ?_⟩, And.left⟩
        rintro rfl
        rw [(h.inverse p k).2 hp] at hold
        exact hk (Option.some.inj hold).symm

theorem pages_without (h : t.Follows r) (page : PageId) :
    (t.without page).toList.map Prod.snd = r.pages.filter fun q => q ≠ page := by
  have hfilter : (t.without page).toList =
      t.order.toList.filter fun e => decide (e.2 ≠ page) :=
    toList_eq_filter (fun q => decide (q ≠ page)) fun k q => by
      rw [h.getElem?_without, decide_eq_true_eq]
  rw [hfilter, ← h.pages, AccessTicks.pages, List.filter_map]
  rfl

protected theorem remove (h : t.Follows r) (page : PageId) :
    (t.remove page).Follows (r.remove page) where
  inverse p k := by
    show (t.latest.erase page)[p]? = some k ↔ (t.without page)[k]? = some p
    rw [h.getElem?_without, ← h.inverse]
    simp only [ExtTreeMap.getElem?_erase, Std.LawfulEqCmp.compare_eq_iff_eq]
    by_cases hp : page = p
    · simp [hp]
    · simp [hp, Ne.symm hp]
  counted k p hp := h.counted k p ((h.getElem?_without page k p).1 hp).1
  pages := h.pages_without page

/-- An access can be made while ticks are left, and uses up one. -/
protected theorem access? (h : t.Follows r) (page : PageId) (ht : t.tick.toNat + 1 < UInt64.size) :
    ∃ t', t.access? page = some t' ∧ t'.Follows (r.touch page) ∧
      t'.tick.toNat = t.tick.toNat + 1 := by
  have htick : (t.tick + 1).toNat = t.tick.toNat + 1 := by
    rw [UInt64.toNat_add]
    exact Nat.mod_eq_of_lt ht
  have hlt : ∀ (k : UInt64) (p : PageId), t.order[k]? = some p → k < t.tick + 1 := by
    intro k p hp
    have hle := UInt64.le_iff_toNat_le.1 (h.counted k p hp)
    rw [UInt64.lt_iff_toNat_lt, htick]
    omega
  have hbelow : ∀ (k : UInt64) (p : PageId), (t.without page)[k]? = some p → k < t.tick + 1 :=
    fun k p hp => hlt k p ((h.getElem?_without page k p).1 hp).1
  refine ⟨_, if_pos ht, ⟨fun p k => ?_, fun k p hp => ?_, ?_⟩, htick⟩
  · show (t.latest.insert page (t.tick + 1))[p]? = some k ↔
      ((t.without page).insert (t.tick + 1) page)[k]? = some p
    simp only [ExtTreeMap.getElem?_insert, Std.LawfulEqCmp.compare_eq_iff_eq]
    by_cases hp : page = p <;> by_cases hk : t.tick + 1 = k
    · simp [hp, hk]
    · simp [hp, hk, h.getElem?_without]
    · have hnew : t.latest[p]? ≠ some k := by
        rw [Ne, h.inverse, ← hk]
        exact fun hold => UInt64.lt_irrefl _ (hlt _ _ hold)
      simp [hp, hk, hnew]
    · simp [hp, hk, h.getElem?_without, h.inverse, Ne.symm hp]
  · show k ≤ t.tick + 1
    have hp : ((t.without page).insert (t.tick + 1) page)[k]? = some p := hp
    simp only [ExtTreeMap.getElem?_insert, Std.LawfulEqCmp.compare_eq_iff_eq] at hp
    split at hp
    · rename_i hk
      exact hk ▸ UInt64.le_refl _
    · exact UInt64.le_of_lt (hbelow k p hp)
  · show ((t.without page).insert (t.tick + 1) page).toList.map Prod.snd = (r.touch page).pages
    rw [toList_insert_of_lt hbelow, List.map_append, h.pages_without]
    rfl

/-- One call, while there are ticks for the accesses. -/
theorem use? (h : t.Follows r) (u : Use)
    (ht : t.tick.toNat + [u].countP Use.isAccess < UInt64.size) :
    ∃ t', t.use? u = some t' ∧ t'.Follows (r.use u) ∧
      t'.tick.toNat = t.tick.toNat + [u].countP Use.isAccess := by
  cases u with
  | access page => exact h.access? page ht
  | remove page => exact ⟨_, rfl, h.remove page, rfl⟩

/-- Many calls, while there are ticks for the accesses. -/
theorem useAll? (h : t.Follows r) (ht : t.tick.toNat + uses.countP Use.isAccess < UInt64.size) :
    ∃ t', t.useAll? uses = some t' ∧ t'.Follows (r.useAll uses) := by
  induction uses generalizing t r with
  | nil => exact ⟨t, rfl, h⟩
  | cons u uses ih =>
      have hcount : (u :: uses).countP Use.isAccess =
          [u].countP Use.isAccess + uses.countP Use.isAccess := by
        rw [← List.countP_append, List.singleton_append]
      rw [hcount] at ht
      obtain ⟨t₁, hu, h₁, ht₁⟩ := h.use? u (by omega)
      obtain ⟨t', hrest, h'⟩ := ih h₁ (by omega)
      refine ⟨t', ?_, h'⟩
      rw [AccessTicks.useAll?, List.foldlM_cons, hu]
      exact hrest

theorem empty : ({} : AccessTicks).Follows ∅ where
  inverse p k := by
    rw [ExtTreeMap.getElem?_empty, ExtTreeMap.getElem?_empty]
    simp
  counted k p hp := by
    rw [ExtTreeMap.getElem?_empty] at hp
    cases hp
  pages := by
    rw [AccessTicks.pages]
    simp
    rfl

theorem size_eq (h : t.Follows r) : t.size = t.pages.length := by
  have hmem : ∀ p, p ∈ t.latest.keys ↔ p ∈ t.pages := by
    intro p
    rw [ExtTreeMap.mem_keys, ExtTreeMap.mem_iff_isSome_getElem?, Option.isSome_iff_exists,
      AccessTicks.pages, List.mem_map]
    constructor
    · rintro ⟨k, hk⟩
      exact ⟨(k, p), ExtTreeMap.mem_toList_iff_getElem?_eq_some.2 ((h.inverse p k).1 hk), rfl⟩
    · rintro ⟨⟨k, q⟩, hkq, rfl⟩
      exact ⟨k, (h.inverse q k).2 (ExtTreeMap.mem_toList_iff_getElem?_eq_some.1 hkq)⟩
  have hperm : t.latest.keys.Perm t.pages :=
    (List.perm_ext_iff_of_nodup ExtTreeMap.nodup_keys (h.pages ▸ r.nodup)).2 hmem
  rw [size, ← hperm.length_eq, ExtTreeMap.length_keys]

theorem isEmpty_iff (h : t.Follows r) : t.isEmpty = true ↔ t.pages = [] := by
  rw [← List.length_eq_zero_iff, ← h.size_eq, isEmpty, ExtTreeMap.isEmpty_eq_size_beq_zero,
    beq_iff_eq]
  rfl

end Follows

/-! ## Searches -/

/-- Pages are asked about one after another, and each is refused. -/
inductive Refused (answer : σ → PageId → Bool × σ) : σ → List PageId → σ → Prop
  | nil {s : σ} : Refused answer s [] s
  | cons {s s₁ s₂ : σ} {page : PageId} {pages : List PageId} :
      answer s page = (false, s₁) → Refused answer s₁ pages s₂ →
        Refused answer s (page :: pages) s₂

/-- What comes of a search.  Nothing is asked about the pages after the one that is accepted. -/
inductive Searched (answer : σ → PageId → Bool × σ) (s : σ) (pages : List PageId) :
    Option PageId × σ → Prop
  /-- All pages up to one are asked about, and this one is the first that is accepted. -/
  | found {before after : List PageId} {page : PageId} {s₁ s₂ : σ} :
      pages = before ++ page :: after → Refused answer s before s₁ →
        answer s₁ page = (true, s₂) → Searched answer s pages (some page, s₂)
  /-- All pages are asked about, and none is accepted. -/
  | missed {s₁ : σ} : Refused answer s pages s₁ → Searched answer s pages (none, s₁)

/-- A page that is refused does not end the search. -/
theorem Searched.after_refused {answer : σ → PageId → Bool × σ} {s s' : σ} {page : PageId}
    {pages : List PageId} {result : Option PageId × σ} (h : answer s page = (false, s'))
    (hs : Searched answer s' pages result) : Searched answer s (page :: pages) result := by
  cases hs with
  | found hpages hbefore ha => exact .found (congrArg (page :: ·) hpages) (.cons h hbefore) ha
  | missed hall => exact .missed (.cons h hall)

theorem searched_ask (answer : σ → PageId → Bool × σ) (s : σ) (pages : List PageId) :
    Searched answer s pages (ask answer s pages) := by
  induction pages generalizing s with
  | nil => exact .missed .nil
  | cons page pages ih =>
      rw [ask]
      split
      · rename_i s' h
        exact .found (List.nil_append _).symm .nil h
      · rename_i s' h
        exact (ih s').after_refused h

/-- Answers by a predicate, and notes the pages that were asked about. -/
def noting (accept : PageId → Bool) (asked : List PageId) (page : PageId) : Bool × List PageId :=
  (accept page, asked ++ [page])

theorem ask_noting (accept : PageId → Bool) (asked pages : List PageId) :
    ask (noting accept) asked pages =
      ((Recency.propose accept pages).2, asked ++ (Recency.propose accept pages).1) := by
  induction pages generalizing asked with
  | nil => simp [ask, Recency.propose]
  | cons page pages ih =>
      rw [ask, noting, Recency.propose]
      cases accept page with
      | true => rfl
      | false =>
          dsimp only
          rw [ih, List.append_assoc]
          rfl

/-- What is known of the order of use after some calls. -/
structure RefinesList (t : AccessTicks) (uses : List Use) : Prop where
  /-- The order is the one that a list of pages keeps. -/
  pages_eq : t.pages = (Recency.useAll ∅ uses).pages
  /-- No page occurs twice. -/
  once : t.pages.Nodup
  /-- The pages are those accessed since they were removed last. -/
  tracked : ∀ p, p ∈ t.pages ↔ Tracked uses p
  /-- They are ordered by their latest accesses. -/
  ordered : t.pages.Pairwise fun p q =>
    ∃ i j, LatestAccess uses p i ∧ LatestAccess uses q j ∧ i < j
  /-- The size is the number of pages. -/
  size_eq : t.size = t.pages.length
  /-- The order is empty if there is no page. -/
  isEmpty_iff : t.isEmpty = true ↔ t.pages = []
  /-- A search finds the first page that is accepted, and asks about no page after it. -/
  searched : ∀ {σ : Type} (answer : σ → PageId → Bool × σ) (s : σ),
    Searched answer s t.pages (t.findVictim answer s)
  /-- It finds what a search of the list finds, and asks about the same pages. -/
  search_eq : ∀ accept, t.findVictim (noting accept) [] =
    (((Recency.useAll ∅ uses).search accept).2, ((Recency.useAll ∅ uses).search accept).1)

/-- The order of use is the list that the calls say, whatever was accessed and removed, as long as
there are ticks for all accesses. -/
theorem refines_list (uses : List Use) (h : uses.countP Use.isAccess < UInt64.size) :
    ∃ t, ({} : AccessTicks).useAll? uses = some t ∧ t.RefinesList uses := by
  have hticks : ({} : AccessTicks).tick.toNat + uses.countP Use.isAccess < UInt64.size := by
    rwa [show ({} : AccessTicks).tick.toNat = 0 from rfl, Nat.zero_add]
  obtain ⟨t, ht, hf⟩ := Follows.empty.useAll? hticks
  refine ⟨t, ht, hf.pages, hf.pages ▸ (Recency.useAll ∅ uses).nodup, fun p => ?_, ?_, hf.size_eq,
    hf.isEmpty_iff, fun answer s => searched_ask answer s t.pages, fun accept => ?_⟩
  · rw [hf.pages]
    exact Recency.mem_useAll_iff
  · rw [hf.pages]
    exact Recency.pairwise_useAll uses
  · rw [findVictim, ask_noting, hf.pages, List.nil_append]
    rfl

namespace Small

/-- A page of the table 7. -/
def page (number : Nat) : PageId := { table := ⟨7⟩, number }

/-- Page 0 is accessed again, page 2 is removed and accessed again, page 1 is removed, and so is a
page that was never accessed. -/
def calls : List Use :=
  [.access (page 0), .access (page 1), .access (page 2), .access (page 0), .remove (page 2),
   .remove (page 5), .access (page 2), .remove (page 1)]

end Small

theorem refines_list_small :
    Small.calls.countP Use.isAccess < UInt64.size ∧
      ∃ t, ({} : AccessTicks).useAll? Small.calls = some t ∧
        t.pages = [Small.page 0, Small.page 2] ∧ t.size = 2 ∧
        t.findVictim (noting fun p => p ≠ Small.page 0) [] =
          (some (Small.page 2), [Small.page 0, Small.page 2]) := by
  have hticks : Small.calls.countP Use.isAccess < UInt64.size := by decide
  obtain ⟨t, ht, hr⟩ := refines_list Small.calls hticks
  have hpages : t.pages = [Small.page 0, Small.page 2] := hr.pages_eq.trans (by decide)
  refine ⟨hticks, t, ht, hpages, by rw [hr.size_eq, hpages]; rfl, ?_⟩
  rw [hr.search_eq]
  decide

end AccessTicks
end PagedStore
