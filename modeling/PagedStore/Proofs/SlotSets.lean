import PagedStore.Proofs.SlotMaps
import Mathlib.Data.Finset.Card

/-!
# Packed marks are a set of slots

The header of a page in packed bytes stands for a set of slots (`PackedMarks.usedSlots`).  Setting
a bit puts its slot into the set and clearing it takes the slot out, and neither touches another
slot nor a bit past the last one (`PackedMarks.isUsed_set`, `PackedMarks.hasStray_set`).  So after
any calls a slot is used if the last call about it says so, or if there was none and it was used
before (`LastSaid`).

The other questions are answered from the set: the first free slot is the least one that is not in
it, and the free slots are counted by what is missing.  Marks without a stray bit are written and
read back as they are (`PackedMarks.Clean.ofBytes?_written`).  `PackedMarks.set_of_slots` says all
this of marks that are new or read from bytes, and that `SlotMarks` gives the same answers.
-/

namespace PagedStore

namespace PackedMarks

variable {m m' : PackedMarks} {slots slot i : Nat} {used : Bool} {data buffer : Bytes}

/-- A bit past the last slot is set. -/
def hasStray (m : PackedMarks) : Bool :=
  (List.range' m.slots (8 * m.bytes.length - m.slots)).any fun bit =>
    m.bytes[bit / 8]?.any fun b => b &&& mask bit != 0

/-- Writes the marks into the front of a buffer, which has to be long enough. -/
def writeTo? (m : PackedMarks) (buffer : Bytes) : Option Bytes :=
  if m.bytes.length ≤ buffer.length then some (Bytes.overwrite buffer 0 m.bytes) else none

/-- Sets and clears bits, one after another. -/
def setAll? (m : PackedMarks) (calls : List (Nat × Bool)) : Option PackedMarks :=
  calls.foldlM (fun m call => m.set? call.1 call.2) m

/-- The slots that are used. -/
def usedSlots (m : PackedMarks) : Finset Nat :=
  (Finset.range m.slots).filter fun slot => m.isUsed slot = true

/-! ## One call -/

theorem marked_iff_any (bytes : Bytes) (bit : Nat) :
    (bytes[bit / 8]?.any fun b => b &&& mask bit != 0) = true ↔ Marked bytes bit := by
  rw [Marked]
  cases bytes[bit / 8]? with
  | none => simp
  | some b => simp only [Option.any_some, and_mask_ne_zero, Option.getD_some]

theorem isUsed_eq_true_iff : m.isUsed i = true ↔ i < m.slots ∧ Marked m.bytes i := by
  rw [isUsed]
  split
  · rename_i h
    rw [and_mask_ne_zero, Marked, List.getElem?_eq_getElem (m.byte_lt_length h), Option.getD_some]
    simp [h]
  · rename_i h
    simp [h]

theorem hasStray_eq_true_iff :
    m.hasStray = true ↔ ∃ i, m.slots ≤ i ∧ i < 8 * m.bytes.length ∧ Marked m.bytes i := by
  rw [hasStray, List.any_eq_true]
  simp only [marked_iff_any, List.mem_range'_1]
  constructor
  · rintro ⟨i, ⟨hle, hlt⟩, hm⟩
    exact ⟨i, hle, by omega, hm⟩
  · rintro ⟨i, hle, hlt, hm⟩
    exact ⟨i, ⟨hle, by omega⟩, hm⟩

/-- A call about a slot changes what is known of this slot only. -/
theorem isUsed_set (m : PackedMarks) (h : slot < m.slots) (used : Bool) (i : Nat) :
    (m.set slot used h).isUsed i = true ↔ if slot = i then used = true else m.isUsed i = true := by
  rw [isUsed_eq_true_iff, isUsed_eq_true_iff, marked_set]
  show i < m.slots ∧ _ ↔ _
  split
  · rename_i hi
    simp [← hi, h]
  · rfl

/-- It changes no bit past the last slot. -/
theorem hasStray_set (m : PackedMarks) (h : slot < m.slots) (used : Bool) :
    (m.set slot used h).hasStray = m.hasStray := by
  rw [Bool.eq_iff_iff, hasStray_eq_true_iff, hasStray_eq_true_iff]
  simp only [marked_set]
  show (∃ i, m.slots ≤ i ∧ i < 8 * (m.bytes.set _ _).length ∧ _) ↔ _
  rw [List.length_set]
  refine exists_congr fun i => and_congr_right fun hi => ?_
  rw [if_neg (Nat.ne_of_lt (Nat.lt_of_lt_of_le h hi))]

/-! ## Many calls -/

/-- What the calls say about a slot: the last one about it counts, and the start if there is
none. -/
def LastSaid (start : Nat → Prop) (calls : List (Nat × Bool)) (slot : Nat) : Prop :=
  match calls.reverse.find? fun call => call.1 = slot with
  | some call => call.2 = true
  | none => start slot

theorem lastSaid_cons (start : Nat → Prop) (call : Nat × Bool) (calls : List (Nat × Bool))
    (i : Nat) :
    LastSaid start (call :: calls) i ↔
      LastSaid (fun i => if call.1 = i then call.2 = true else start i) calls i := by
  rw [LastSaid, LastSaid, List.reverse_cons, List.find?_append]
  cases calls.reverse.find? fun call => call.1 = i with
  | some last => rfl
  | none =>
      by_cases hi : call.1 = i
      · simp [hi]
      · simp [hi]

/-- The marks have a slot if the condition holds of it, and no bit past the last slot. -/
structure Holds (m : PackedMarks) (slots : Nat) (used : Nat → Prop) : Prop where
  slots_eq : m.slots = slots
  isUsed_iff : ∀ i, m.isUsed i = true ↔ i < slots ∧ used i
  clean : m.hasStray = false

theorem Holds.set? {holds : Nat → Prop} (h : m.Holds slots holds) (hslot : slot < slots)
    (used : Bool) :
    ∃ m', m.set? slot used = some m' ∧
      m'.Holds slots fun i => if slot = i then used = true else holds i := by
  have hlt : slot < m.slots := h.slots_eq ▸ hslot
  refine ⟨m.set slot used hlt, dif_pos hlt, h.slots_eq, fun i => ?_, ?_⟩
  · rw [m.isUsed_set hlt, h.isUsed_iff]
    split
    · rename_i hi
      simp [← hi, hslot]
    · rfl
  · rw [m.hasStray_set hlt, h.clean]

theorem Holds.setAll? {holds : Nat → Prop} (h : m.Holds slots holds) (calls : List (Nat × Bool))
    (hcalls : ∀ call ∈ calls, call.1 < slots) :
    ∃ m', m.setAll? calls = some m' ∧ m'.Holds slots (LastSaid holds calls) := by
  induction calls generalizing m holds with
  | nil => exact ⟨m, rfl, h⟩
  | cons call calls ih =>
      obtain ⟨m₁, hset, h₁⟩ := h.set? (hcalls call List.mem_cons_self) call.2
      obtain ⟨m', hrest, h'⟩ := ih h₁ fun c hc => hcalls c (List.mem_cons_of_mem _ hc)
      refine ⟨m', ?_, h'.slots_eq, fun i => ?_, h'.clean⟩
      · rw [PackedMarks.setAll?, List.foldlM_cons, hset]
        exact hrest
      · rw [h'.isUsed_iff, lastSaid_cons]

/-- How marks come to be, and which slots they say are used then. -/
inductive Origin (slots : Nat) : (Nat → Prop) → PackedMarks → Prop
  /-- They are new, and no slot is used. -/
  | new : Origin slots (fun _ => False) (empty slots)
  /-- They are read from the front of a byte string, and have no stray bit. -/
  | read {m : PackedMarks} (data : Bytes) (h : ofBytes? slots data = some m)
      (clean : m.hasStray = false) : Origin slots (Marked data) m

theorem not_marked_zeros (n i : Nat) : ¬ Marked (Bytes.zeros n) i := by
  rw [Marked, Bytes.zeros, List.getElem?_replicate]
  split <;> simp

theorem ofBytes?_eq_some (h : ofBytes? slots data = some m) :
    m.slots = slots ∧ m.bytes = data.take (SlotMarks.bytesFor slots) := by
  rw [ofBytes?] at h
  split at h
  · cases h
    exact ⟨rfl, rfl⟩
  · cases h

theorem Origin.holds {start : Nat → Prop} (ho : Origin slots start m) : m.Holds slots start := by
  cases ho with
  | new =>
      refine ⟨rfl, fun i => ?_, Bool.eq_false_iff.2 fun hstray => ?_⟩
      · rw [isUsed_eq_true_iff]
        exact and_congr_right fun _ => iff_false_intro (not_marked_zeros _ i)
      · obtain ⟨i, -, -, hm⟩ := hasStray_eq_true_iff.1 hstray
        exact not_marked_zeros _ i hm
  | read data h clean =>
      obtain ⟨hslots, hbytes⟩ := ofBytes?_eq_some h
      refine ⟨hslots, fun i => ?_, clean⟩
      rw [isUsed_eq_true_iff, hslots, hbytes]
      refine and_congr_right fun hi => ?_
      rw [Marked, Marked, List.getElem?_take_of_lt (by rw [SlotMarks.bytesFor]; omega)]

/-! ## Answers -/

theorem mem_usedSlots : i ∈ m.usedSlots ↔ m.isUsed i = true := by
  rw [usedSlots, Finset.mem_filter, Finset.mem_range, and_iff_right_iff_imp]
  exact fun h => (isUsed_eq_true_iff.1 h).1

theorem firstFree?_eq_some_iff :
    m.firstFree? = some i ↔ i < m.slots ∧ i ∉ m.usedSlots ∧ ∀ j < i, j ∈ m.usedSlots := by
  rw [firstFree?, List.find?_range_eq_some]
  simp only [mem_usedSlots, List.mem_range, Bool.not_eq_true', Bool.not_not, Bool.not_eq_true]
  exact and_left_comm

theorem firstFree?_eq_none_iff : m.firstFree? = none ↔ m.usedSlots = Finset.range m.slots := by
  rw [firstFree?, List.find?_eq_none, usedSlots, Finset.filter_eq_self]
  simp only [List.mem_range, Finset.mem_range, Bool.not_eq_true', Bool.not_eq_false]

theorem card_usedSlots (m : PackedMarks) :
    m.usedSlots.card = (List.range m.slots).countP m.isUsed := by
  have hlist : m.usedSlots = ((List.range m.slots).filter m.isUsed).toFinset := by
    ext i
    simp [usedSlots]
  rw [hlist, List.toFinset_card_of_nodup (List.nodup_range.filter _),
    List.countP_eq_length_filter]

theorem countFree_eq (m : PackedMarks) : m.countFree = m.slots - m.usedSlots.card := by
  have hsplit := List.length_eq_countP_add_countP m.isUsed (l := List.range m.slots)
  have hfree : (fun slot => !m.isUsed slot) = fun slot => decide ¬ m.isUsed slot = true :=
    funext fun slot => by simp
  rw [List.length_range, ← card_usedSlots] at hsplit
  rw [countFree, hfree]
  omega

/-- The marks can be written over anything that is long enough.  What comes after them stays, and
they are read back as they are. -/
theorem written (m : PackedMarks) (h : SlotMarks.bytesFor m.slots ≤ buffer.length) :
    ∃ bytes, m.writeTo? buffer = some bytes ∧ bytes.length = buffer.length ∧
      (∀ k, SlotMarks.bytesFor m.slots ≤ k → bytes[k]? = buffer[k]?) ∧
      ofBytes? m.slots bytes = some m := by
  have hlength : m.bytes.length = SlotMarks.bytesFor m.slots := m.length_bytes
  have hover : (Bytes.overwrite buffer 0 m.bytes).length = buffer.length := by
    rw [Bytes.length_overwrite (Nat.zero_le _)]
    omega
  refine ⟨_, if_pos (hlength ▸ h), hover, fun k hk => ?_, ?_⟩
  · exact Bytes.getElem?_overwrite_of_ge (Nat.zero_le _) (by omega)
  · rw [ofBytes?, dif_pos (by omega)]
    refine congrArg some (PackedMarks.ext rfl ?_)
    show (Bytes.overwrite buffer 0 m.bytes).take (SlotMarks.bytesFor m.slots) = m.bytes
    rw [← hlength]
    exact Bytes.take_drop_overwrite (Nat.zero_le _)

/-! ## The marks bit by bit -/

theorem hasStray_marks (m : PackedMarks) : m.marks.hasStray = m.hasStray := by
  rw [Bool.eq_iff_iff, marks, SlotMarks.hasStray_ofBytes, hasStray_eq_true_iff, m.length_bytes]

theorem writeTo?_marks (m : PackedMarks) (buffer : Bytes) :
    m.marks.writeTo? buffer = m.writeTo? buffer := by
  have hbytes : m.marks.toBytes = m.bytes := by
    rw [marks, SlotMarks.toBytes_ofBytes, List.take_of_length_le (Nat.le_of_eq m.length_bytes)]
  rw [SlotMarks.writeTo?, writeTo?, hbytes, m.length_bytes]
  rfl

end PackedMarks

/-- Sets and clears marks, one after another. -/
def SlotMarks.setAll? (m : SlotMarks) (calls : List (Nat × Bool)) : Option SlotMarks :=
  calls.foldlM (fun m call => m.set? call.1 call.2) m

namespace PackedMarks

variable {m₀ m : PackedMarks} {slots : Nat}

theorem setAll?_marks (m : PackedMarks) (calls : List (Nat × Bool)) :
    (m.setAll? calls).map marks = m.marks.setAll? calls := by
  induction calls generalizing m with
  | nil => rfl
  | cons call calls ih =>
      rw [setAll?, SlotMarks.setAll?, List.foldlM_cons, List.foldlM_cons, ← set?_marks]
      cases m.set? call.1 call.2 with
      | none => rfl
      | some m₁ => exact ih m₁

/-- The marks answer as a set of slots does. -/
structure IsSet (m : PackedMarks) (slots : Nat) (used : Nat → Prop) : Prop where
  /-- The slots are those of the set. -/
  isUsed_iff : ∀ i, m.isUsed i = true ↔ i < slots ∧ used i
  /-- The set has the same ones. -/
  mem_usedSlots : ∀ i, i ∈ m.usedSlots ↔ i < slots ∧ used i
  /-- The first free slot is the least one that is missing. -/
  firstFree_least : ∀ i, m.firstFree? = some i ↔
    i < slots ∧ i ∉ m.usedSlots ∧ ∀ j < i, j ∈ m.usedSlots
  /-- There is none if nothing is missing. -/
  firstFree_none : m.firstFree? = none ↔ m.usedSlots = Finset.range slots
  /-- The free slots are counted by what is missing. -/
  countFree_eq : m.countFree = slots - m.usedSlots.card
  /-- No bit past the last slot is set. -/
  clean : m.hasStray = false
  /-- The marks are written over the front of a buffer, and are read back from there. -/
  written : ∀ buffer : Bytes, SlotMarks.bytesFor slots ≤ buffer.length →
    ∃ bytes, m.writeTo? buffer = some bytes ∧ bytes.length = buffer.length ∧
      (∀ k, SlotMarks.bytesFor slots ≤ k → bytes[k]? = buffer[k]?) ∧
      ofBytes? slots bytes = some m

theorem Holds.isSet {used : Nat → Prop} (h : m.Holds slots used) : m.IsSet slots used := by
  obtain rfl := h.slots_eq
  exact ⟨h.isUsed_iff, fun i => PackedMarks.mem_usedSlots.trans (h.isUsed_iff i),
    fun i => firstFree?_eq_some_iff, firstFree?_eq_none_iff, m.countFree_eq, h.clean,
    fun buffer hb => m.written hb⟩

/-- The marks bit by bit give the same answers. -/
structure AnswersAs (n : SlotMarks) (m : PackedMarks) : Prop where
  isUsed : ∀ i, n.isUsed i = m.isUsed i
  firstFree? : n.firstFree? = m.firstFree?
  countFree : n.countFree = m.countFree
  hasStray : n.hasStray = m.hasStray
  writeTo? : ∀ buffer, n.writeTo? buffer = m.writeTo? buffer

theorem answersAs_marks (m : PackedMarks) : AnswersAs m.marks m :=
  ⟨m.isUsed_marks, m.firstFree?_marks, m.countFree_marks, m.hasStray_marks, m.writeTo?_marks⟩

/-- Marks are a set of slots.  Whatever marks were new or read from bytes without stray bits, and
whatever slots were then set and cleared, a slot is in the set if the last call about it says so,
or if there was none and it was in the set at the start.  The answers are those of the set, and
the marks bit by bit give the same ones. -/
theorem set_of_slots {start : Nat → Prop} (ho : Origin slots start m₀)
    (calls : List (Nat × Bool)) (hcalls : ∀ call ∈ calls, call.1 < slots) :
    ∃ m, m₀.setAll? calls = some m ∧ m.IsSet slots (LastSaid start calls) ∧
      m₀.marks.setAll? calls = some m.marks ∧ AnswersAs m.marks m := by
  obtain ⟨m, hm, h⟩ := ho.holds.setAll? calls hcalls
  refine ⟨m, hm, h.isSet, ?_, m.answersAs_marks⟩
  rw [← setAll?_marks, hm]
  rfl

namespace Small

/-- Two bytes of a header for twelve slots.  Slots 0 and 9 are used. -/
def header : Bytes := [1, 2]

/-- Slots 3 and 11 are set, slot 9 is set again, slot 0 is cleared and slot 3 is cleared. -/
def calls : List (Nat × Bool) := [(3, true), (11, true), (9, true), (0, false), (3, false)]

end Small

theorem set_of_slots_small :
    (∀ call ∈ Small.calls, call.1 < 12) ∧
      ∃ m₀ m, ofBytes? 12 Small.header = some m₀ ∧ m₀.hasStray = false ∧
        m₀.setAll? Small.calls = some m ∧ m.usedSlots = {9, 11} ∧
        m.IsSet 12 (LastSaid (Marked Small.header) Small.calls) := by
  have hcalls : ∀ call ∈ Small.calls, call.1 < 12 := by decide
  have ho : Origin 12 (Marked Small.header) ⟨12, Small.header, rfl⟩ :=
    .read Small.header rfl (by decide)
  obtain ⟨m, hm, hset, -, -⟩ := set_of_slots ho Small.calls hcalls
  have hused : (setAll? ⟨12, Small.header, rfl⟩ Small.calls).map usedSlots = some {9, 11} := by
    decide
  rw [hm] at hused
  exact ⟨hcalls, _, m, rfl, by decide, hm, Option.some.inj hused, hset⟩

end PackedMarks
end PagedStore
