import PagedStore.Proofs.AlikeTraffic
import PagedStore.Proofs.HeldPages

/-!
# What a slot holds

A change is on one slot.  It leaves a value there, whatever the slot held before, and leaves
all other slots alone.  So the slots of a page can be told one by one: what a slot holds after some
changes is what the last change on it has left (`getElem?_replay`).

Say that some values are *good*.  Once a slot holds a good value for a transaction, it does so
from then on, as long as every change on the slot leaves a good one and the transaction is not
aborted.  Others may commit in the meantime, or abort (`Ledger.Holds.after`).  A run carries
this over to the page (`PageView.Replays.holds`), from the time when the transaction was given
the page (`Traffic.holds_of_fetched`).  In particular, what a transaction has left in a slot is
found there later (`Traffic.content_of_left`).
-/

namespace PagedStore

open PageView (Agrees Replays)

variable {record : RecordId} {Q : Option (List Field) → Prop} {changes more : List Change}
  {x y : Option (List Field)}

/-! ## Changes on a slot -/

namespace Change

/-- What the slot at an address holds after the change, if the change is on this slot. -/
def leaves? (record : RecordId) : Change → Option (Option (List Field))
  | insert r fields => if r = record then some (some fields) else none
  | delete r => if r = record then some none else none

/-- The change leaves nothing but good values in the slot. -/
def Keeps (record : RecordId) (Q : Option (List Field) → Prop) (change : Change) : Prop :=
  ∀ ⦃x⦄, change.leaves? record = some x → Q x

theorem leaves?_of_page_ne {change : Change} (h : change.page ≠ record.page) :
    change.leaves? record = none := by
  cases change with
  | insert r | delete r => exact if_neg fun hr => h (congrArg RecordId.page hr)

theorem keeps_of_page_ne {change : Change} (h : change.page ≠ record.page) :
    change.Keeps record Q := by
  intro x hx
  rw [leaves?_of_page_ne h] at hx
  cases hx

theorem getElem?_apply (change : Change) (old : Content) :
    (if change.page = record.page then change.apply old else old)[record.slot]? =
      old[record.slot]?.map fun x => (change.leaves? record).getD x := by
  by_cases hp : change.page = record.page
  · rw [if_pos hp]
    cases change with
    | insert r | delete r =>
        obtain ⟨page, slot⟩ := r
        obtain rfl : page = record.page := hp
        simp only [apply, leaves?, List.getElem?_set]
        by_cases hs : slot = record.slot
        · subst hs
          by_cases hlt : record.slot < old.length
          · simp [hlt]
          · simp [hlt]
        · rw [if_neg hs, if_neg fun hr => hs (congrArg RecordId.slot hr)]
          exact Option.map_id'.symm
  · rw [if_neg hp, leaves?_of_page_ne hp]
    exact Option.map_id'.symm

end Change

/-- What the slot at an address holds after some changes. -/
def slotAfter (record : RecordId) (changes : List Change) (x : Option (List Field)) :
    Option (List Field) :=
  changes.foldl (fun x change => (change.leaves? record).getD x) x

theorem slotAfter_append (record : RecordId) (changes more : List Change)
    (x : Option (List Field)) :
    slotAfter record (changes ++ more) x = slotAfter record more (slotAfter record changes x) :=
  List.foldl_append

/-- To replay changes on a page is to replay them on each of its slots. -/
theorem getElem?_replay (record : RecordId) (changes : List Change) (old : Content) :
    (replay record.page changes old)[record.slot]? =
      old[record.slot]?.map (slotAfter record changes) := by
  induction changes generalizing old with
  | nil => exact Option.map_id'.symm
  | cons change changes ih =>
      refine (ih _).trans ?_
      rw [change.getElem?_apply, Option.map_map]
      rfl

theorem slotAfter_of_page_ne (h : ∀ change ∈ changes, change.page ≠ record.page)
    (x : Option (List Field)) : slotAfter record changes x = x := by
  induction changes generalizing x with
  | nil => rfl
  | cons change changes ih =>
      show slotAfter record changes ((change.leaves? record).getD x) = x
      rw [Change.leaves?_of_page_ne (h change List.mem_cons_self)]
      exact ih (fun c hc => h c (List.mem_cons_of_mem _ hc)) x

/-- Either some change is on the slot, and the value before does not matter, or none is. -/
theorem slotAfter_cases (record : RecordId) (changes : List Change) :
    (∀ x y, slotAfter record changes x = slotAfter record changes y) ∨
      ∀ x, slotAfter record changes x = x := by
  induction changes with
  | nil => exact Or.inr fun _ => rfl
  | cons change changes ih =>
      rcases ih with hconst | hid
      · exact Or.inl fun x y => hconst _ _
      · cases hleaves : change.leaves? record with
        | none =>
            refine Or.inr fun x => ?_
            show slotAfter record changes ((change.leaves? record).getD x) = x
            rw [hleaves]
            exact hid x
        | some z =>
            refine Or.inl fun x y => ?_
            show slotAfter record changes ((change.leaves? record).getD x) =
              slotAfter record changes ((change.leaves? record).getD y)
            rw [hleaves]
            rfl

theorem slotAfter_keeps (h : ∀ change ∈ changes, change.Keeps record Q) (hx : Q x) :
    Q (slotAfter record changes x) := by
  induction changes generalizing x with
  | nil => exact hx
  | cons change changes ih =>
      refine ih (fun c hc => h c (List.mem_cons_of_mem _ hc)) ?_
      show Q ((change.leaves? record).getD x)
      cases hleaves : change.leaves? record with
      | none => exact hx
      | some z => exact h change List.mem_cons_self hleaves

/-- Changes that come before the last ones do no harm if they leave good values. -/
theorem slotAfter_between (h : ∀ change ∈ changes, change.Keeps record Q)
    (hx : Q (slotAfter record more x)) :
    Q (slotAfter record more (slotAfter record changes x)) := by
  rcases slotAfter_cases record more with hconst | hid
  · rwa [hconst _ x]
  · rw [hid] at hx ⊢
    exact slotAfter_keeps h hx

/-! ## The ledger -/

namespace Ledger

variable {l : Ledger} {t : TransactionId} {reader : Option TransactionId} {event : Event}
  {events : List Event}

/-- Locking a page adds no changes. -/
theorem pending_lockEvents (l : Ledger) (v : PageView) (t : TransactionId) (mode : LockMode) :
    (l.after (v.lockEvents t mode)).pending = l.pending := by
  rw [PageView.lockEvents]
  split <;> rfl

/-- What a slot holds for a transaction that has locked its page, or, without a transaction, what
the committed ones have left there. -/
def valueFor (l : Ledger) (reader : Option TransactionId) (record : RecordId)
    (x : Option (List Field)) : Option (List Field) :=
  slotAfter record (reader.elim [] l.pending) (slotAfter record l.committed x)

/-- The slot holds a good value for the reader, and others have left nothing else there since they
began. -/
structure Holds (l : Ledger) (reader : Option TransactionId) (record : RecordId)
    (Q : Option (List Field) → Prop) (x : Option (List Field)) : Prop where
  value : Q (l.valueFor reader record x)
  others : ∀ ⦃u⦄, reader ≠ some u → ∀ change ∈ l.pending u, change.Keeps record Q

/-- What the committed transactions have left is what every transaction finds, if none has left
anything else. -/
theorem Holds.valueFor (h : l.Holds none record Q x) (t : TransactionId) :
    Q (l.valueFor (some t) record x) :=
  slotAfter_keeps (h.others nofun) h.value

/-- A change is pending since before, or has just been made. -/
theorem pending_of_record {change : Change} (h : change ∈ (l.record event).pending t) :
    change ∈ l.pending t ∨ event = .changed t change := by
  cases event with
  | locked | failed => exact Or.inl h
  | fetched _ _ mode _ => cases mode <;> exact Or.inl h
  | changed u other =>
      have h : change ∈ if t = u then l.pending t ++ [other] else l.pending t := h
      split at h
      · rename_i hu
        rcases List.mem_append.1 h with h | h
        · exact Or.inl h
        · rw [hu, List.mem_singleton.1 h]
          exact Or.inr rfl
      · exact Or.inl h
  | committed u | aborted u =>
      have h : change ∈ if t = u then [] else l.pending t := h
      split at h
      · cases h
      · exact Or.inl h

theorem Holds.next (h : l.Holds reader record Q x)
    (hc : ∀ ⦃u change⦄, event = .changed u change → change.Keeps record Q)
    (ha : ∀ ⦃t⦄, reader = some t → event ≠ .aborted t) :
    (l.record event).Holds reader record Q x := by
  refine ⟨?_, fun u hu change hm => (pending_of_record hm).elim (h.others hu change) (hc ·)⟩
  cases event with
  | locked | failed => exact h.value
  | fetched _ _ mode _ => cases mode <;> exact h.value
  | changed u change =>
      cases reader with
      | none => exact h.value
      | some t =>
          show Q (slotAfter record (if t = u then l.pending t ++ [change] else l.pending t) _)
          split
          · rw [slotAfter_append]
            exact slotAfter_keeps (by simpa using hc rfl) h.value
          · exact h.value
  | committed u =>
      cases reader with
      | none =>
          show Q (slotAfter record (l.committed ++ l.pending u) x)
          rw [slotAfter_append]
          exact slotAfter_keeps (h.others nofun) h.value
      | some t =>
          show Q (slotAfter record (if t = u then [] else l.pending t)
            (slotAfter record (l.committed ++ l.pending u) x))
          rw [slotAfter_append]
          split
          · -- What was pending is committed, in the same place.
            rename_i hu
            rw [← hu]
            exact h.value
          · rename_i hu
            exact slotAfter_between (h.others fun he => hu (Option.some.inj he)) h.value
  | aborted u =>
      cases reader with
      | none => exact h.value
      | some t =>
          have hne : t ≠ u := fun he => ha rfl (congrArg Event.aborted he.symm)
          show Q (slotAfter record (if t = u then [] else l.pending t) _)
          rw [if_neg hne]
          exact h.value

/-- A slot holds a good value as long as the changes leave good ones there and the reader is not
aborted. -/
theorem Holds.after (h : l.Holds reader record Q x)
    (hc : ∀ ⦃u change⦄, .changed u change ∈ events → change.Keeps record Q)
    (ha : ∀ ⦃t⦄, reader = some t → .aborted t ∉ events) :
    (l.after events).Holds reader record Q x := by
  induction events generalizing l with
  | nil => exact h
  | cons event events ih =>
      refine ih (h.next (fun u change he => ?_) fun t ht he => ?_)
        (fun u change hm => hc (List.mem_cons_of_mem _ hm))
        fun t ht hm => ha ht (List.mem_cons_of_mem _ hm)
      · exact hc (List.mem_cons.2 (Or.inl he.symm))
      · exact ha ht (List.mem_cons.2 (Or.inl he.symm))

/-- Who changes the slot finds there what the change leaves. -/
theorem Holds.of_changed {change : Change} (hc : change.leaves? record = some y) (hy : Q y)
    (ho : ∀ ⦃u⦄, u ≠ t → ∀ other ∈ l.pending u, other.Keeps record Q) (x : Option (List Field)) :
    (l.record (.changed t change)).Holds (some t) record Q x := by
  constructor
  · show Q (slotAfter record (if t = t then l.pending t ++ [change] else l.pending t) _)
    rw [if_pos rfl, slotAfter_append]
    show Q ((change.leaves? record).getD _)
    rw [hc]
    exact hy
  · intro u hu other hm
    have hu : u ≠ t := fun he => hu (congrArg some he.symm)
    rcases pending_of_record hm with hm | he
    · exact ho hu other hm
    · cases he
      exact absurd rfl hu

/-- What the reader finds is there for everyone once it commits. -/
theorem Holds.committed (h : l.Holds (some t) record Q x) :
    (l.record (.committed t)).Holds none record Q x := by
  constructor
  · show Q (slotAfter record (l.committed ++ l.pending t) x)
    rw [slotAfter_append]
    exact h.value
  · intro u _ other hm
    have hm : other ∈ if u = t then [] else l.pending u := hm
    split at hm
    · cases hm
    · rename_i hu
      exact h.others (fun he => hu (Option.some.inj he).symm) other hm

/-- Changes stay pending until the transaction ends. -/
theorem mem_pending_record {change : Change} (h : change ∈ l.pending t)
    (hc : event ≠ .committed t) (ha : event ≠ .aborted t) :
    change ∈ (l.record event).pending t := by
  cases event with
  | locked | failed => exact h
  | fetched _ _ mode _ => cases mode <;> exact h
  | changed u other =>
      show change ∈ if t = u then l.pending t ++ [other] else l.pending t
      split
      · exact List.mem_append_left _ h
      · exact h
  | committed u =>
      show change ∈ if t = u then [] else l.pending t
      rwa [if_neg fun he => hc (congrArg Event.committed he.symm)]
  | aborted u =>
      show change ∈ if t = u then [] else l.pending t
      rwa [if_neg fun he => ha (congrArg Event.aborted he.symm)]

/-- A good value that a transaction has left is either still its own, or there for everyone, unless
the transaction is aborted before it has committed. -/
theorem Holds.left {change : Change} (h : l.Holds (some t) record Q x)
    (hp : change ∈ l.pending t)
    (hc : ∀ ⦃u change⦄, .changed u change ∈ events → change.Keeps record Q)
    (ha : ∀ ⦃a b⦄, events = a ++ .aborted t :: b → .committed t ∈ a) :
    ((l.after events).Holds (some t) record Q x ∧ change ∈ (l.after events).pending t) ∨
      (l.after events).Holds none record Q x := by
  induction events generalizing l with
  | nil => exact Or.inl ⟨h, hp⟩
  | cons event events ih =>
      have hlater : ∀ ⦃u change⦄, .changed u change ∈ events → change.Keeps record Q :=
        fun u change hm => hc (List.mem_cons_of_mem _ hm)
      by_cases hcommitted : event = .committed t
      · subst hcommitted
        exact Or.inr (h.committed.after hlater nofun)
      · have haborted : event ≠ .aborted t := by
          rintro rfl
          cases ha (a := []) rfl
        refine ih (h.next (fun u change he => hc (List.mem_cons.2 (Or.inl he.symm))) ?_)
          (mem_pending_record hp hcommitted haborted) hlater fun a b he => ?_
        · rintro u ⟨⟩
          exact haborted
        · have hm := ha (a := event :: a) (congrArg (event :: ·) he)
          exact (List.mem_cons.1 hm).resolve_left fun he => hcommitted he.symm

end Ledger

/-! ## Pages -/

/-- A slot of a page holds a good value, whoever comes to see it, if it does so for some
transaction. -/
theorem PageView.Replays.holds {base : PageId → Option Content} {l : Ledger} {v : PageView}
    {t : TransactionId} (hr : Replays base l v) (ha : Agrees l v) {first : Content}
    (hf : base v.id = some first) :
    ∃ now, v.content = some now ∧ ∀ ⦃slot Q y⦄,
      (∀ ⦃x⦄, first[slot]? = some x → l.Holds (some t) { page := v.id, slot } Q x) →
        now[slot]? = some y → Q y := by
  obtain ⟨u, hopen, hgood⟩ : ∃ u, v.OpenTo u ∧ ∀ ⦃slot Q x⦄,
      l.Holds (some t) { page := v.id, slot } Q x →
        Q (l.valueFor (some u) { page := v.id, slot } x) := by
    by_cases ho : ∃ u, u ≠ t ∧ v.Owns u
    · obtain ⟨u, hu, ho⟩ := ho
      refine ⟨u, ha.openTo_of_owns ho, fun slot Q x hx => ?_⟩
      -- Only its owner has changed the page, so the transaction finds what is committed there.
      have hnone : ∀ change ∈ l.pending t, change.page ≠ v.id :=
        fun change hm => hr.not_pending_of_owns ha ho (Ne.symm hu) hm
      have hvalue := hx.value
      rw [Ledger.valueFor, Option.elim, slotAfter_of_page_ne hnone] at hvalue
      exact slotAfter_keeps (hx.others fun he => hu (Option.some.inj he).symm) hvalue
    · refine ⟨t, fun u hu => ?_, fun slot Q x hx => hx.value⟩
      by_contra hne
      exact ho ⟨u, hne, hu⟩
  have hcurrent := hr.current hopen
  rw [Ledger.content, hf, Option.map_some, Option.map_some] at hcurrent
  refine ⟨_, hcurrent, fun slot Q y h hy => ?_⟩
  rw [getElem?_replay { page := v.id, slot } (l.pending u),
    getElem?_replay { page := v.id, slot } l.committed, Option.map_map] at hy
  obtain ⟨x, hx, rfl⟩ := Option.map_eq_some_iff.1 hy
  exact hgood (h hx)

/-! ## Runs -/

namespace Traffic

variable {s₀ : Store} {w w' : Traffic} {history earlier later : List Event} {p : PageId}
  {t u : TransactionId} {mode : LockMode} {copy : Page}

/-- When a transaction is given a page, no other one has changed it since it began. -/
theorem not_pending_of_fetched (h₀ : Fresh s₀) (h : Run Orderly s₀ history w)
    (hn : ∀ p, w.store.NumberedAt p)
    (he : history = earlier ++ .fetched t p mode copy :: later) (hu : u ≠ t) {change : Change}
    (hc : change ∈ (Ledger.of earlier).pending u) : change.page ≠ p := by
  obtain ⟨before, es, rest, move, v, v', rfl, hrun, hs, hnow, -⟩ := exists_step_of_fetched h hn he
  obtain ⟨a, task, source, -, -, -, hsub⟩ :=
    exists_submit_of_fetched hs (List.mem_append_right _ List.mem_cons_self)
  obtain ⟨hv, rfl, rfl, rfl, -⟩ := submitEvents_eq_append (congrArg Prod.fst hsub)
  have hsound := fun p => soundAt_of_orderly h₀ hrun (hnow p)
  have hopen := (SoundAt.storeFollows hsound).openTo_of_granted hv
  rw [Ledger.of_append, Ledger.pending_lockEvents] at hc
  exact fun hp => hu (hopen u (((replays_of_orderly h₀ hrun hnow).2 _).pending hc hp))

/-- What a transaction finds in a slot of the page that it is given, the ledger says.  If this is
good, then the slot holds a good value, and nothing that others have done there since they began
changes it. -/
theorem holds_of_fetched (h₀ : Fresh s₀) (h : Run Orderly s₀ history w)
    (hn : ∀ p, w.store.NumberedAt p)
    (he : history = earlier ++ .fetched t p mode copy :: later) :
    ∃ first, s₀.firstContent p = some first ∧ ∀ slot,
      copy.content[slot]? =
          first[slot]?.map ((Ledger.of earlier).valueFor (some t) { page := p, slot }) ∧
        ∀ ⦃Q x⦄, Q ((Ledger.of earlier).valueFor (some t) { page := p, slot } x) →
          (Ledger.of earlier).Holds (some t) { page := p, slot } Q x := by
  have hcontent : some copy.content = ((Ledger.of earlier).content s₀.firstContent p).map
      (replay p ((Ledger.of earlier).pending t)) := by
    obtain ⟨before, es, rest, move, v, v', rfl, hrun, hs, hnow, hnext⟩ :=
      exists_step_of_fetched h hn he
    exact content_of_fetching h₀ hrun hnow hnext hs
  rw [Ledger.content] at hcontent
  cases hf : s₀.firstContent p with
  | none =>
      rw [hf] at hcontent
      cases hcontent
  | some first =>
      rw [hf, Option.map_some, Option.map_some] at hcontent
      refine ⟨first, rfl, fun slot => ⟨?_, fun Q x hQ => ⟨hQ, fun u hu change hm y hy => ?_⟩⟩⟩
      · rw [Option.some.inj hcontent,
          getElem?_replay { page := p, slot } ((Ledger.of earlier).pending t),
          getElem?_replay { page := p, slot } (Ledger.of earlier).committed, Option.map_map]
        rfl
      · have hne := not_pending_of_fetched h₀ h hn he (fun he => hu (congrArg some he.symm)) hm
        exact Change.keeps_of_page_ne hne hy

/-- What a transaction leaves in a slot is found there by whoever is given the page later, if it
is not changed again, and not undone. -/
theorem content_of_left (h₀ : Fresh s₀) (h : Run Orderly s₀ history w)
    (hn : ∀ p, w.store.NumberedAt p) {since : List Event} {mode' : LockMode} {copy' : Page}
    {change : Change}
    (he : history = earlier ++ .fetched t record.page mode copy :: .changed t change ::
      (since ++ .fetched u record.page mode' copy' :: later))
    (hslot : record.slot < copy.content.length) (hleaves : change.leaves? record = some y)
    (hc : ∀ ⦃v other⦄, .changed v other ∈ since → other.leaves? record = none)
    (ha : ∀ ⦃a b⦄, since = a ++ .aborted t :: b → .committed t ∈ a) :
    copy'.content[record.slot]? = some y := by
  obtain ⟨first, hfirst, hslots⟩ := holds_of_fetched h₀ h hn he
  have he' : history =
      (earlier ++ [.fetched t record.page mode copy, .changed t change] ++ since) ++
        .fetched u record.page mode' copy' :: later := by simp [he]
  obtain ⟨first', hfirst', hslots'⟩ := holds_of_fetched h₀ h hn he'
  obtain rfl := Option.some.inj (hfirst.symm.trans hfirst')
  obtain ⟨x, hx, -⟩ := Option.map_eq_some_iff.1
    ((hslots record.slot).1.symm.trans (List.getElem?_eq_getElem hslot))
  -- The value is good if it is the one that the change has left.
  have hleft : ((Ledger.of earlier).after
      [.fetched t record.page mode copy, .changed t change]).Holds (some t) record (· = y) x := by
    refine Ledger.Holds.of_changed (Q := (· = y)) hleaves rfl (fun v hv other hm => ?_) x
    have hm : other ∈ (Ledger.of earlier).pending v := by
      cases mode <;> exact hm
    exact Change.keeps_of_page_ne (not_pending_of_fetched h₀ h hn he hv hm)
  have hpending : change ∈ ((Ledger.of earlier).after
      [.fetched t record.page mode copy, .changed t change]).pending t := by
    show change ∈ if t = t then _ ++ [change] else _
    rw [if_pos rfl]
    exact List.mem_append_right _ (List.mem_singleton_self _)
  have hvalue : (Ledger.of (earlier ++ [.fetched t record.page mode copy, .changed t change] ++
      since)).valueFor (some u) record x = y := by
    rw [Ledger.of_append, Ledger.of_append]
    rcases hleft.left hpending (fun v other hm z hz => by simp [hc hm] at hz) ha with
      ⟨hown, hstill⟩ | hall
    · by_cases hu : u = t
      · rw [hu]
        exact hown.value
      · rw [← Ledger.of_append, ← Ledger.of_append] at hstill
        have hne := not_pending_of_fetched h₀ h hn he' (Ne.symm hu) hstill
        rw [Change.leaves?_of_page_ne hne] at hleaves
        cases hleaves
    · exact hall.valueFor u
  rw [(hslots' record.slot).1, hx, Option.map_some, hvalue]

end Traffic

end PagedStore
