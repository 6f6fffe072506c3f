import Std.Data.ExtTreeMap

/-!
# Identifiers

Four kinds of name.  A transaction has a number.  A table has a 32-bit word.
A page is a table and the number of the page within it.  A record is a page
and a slot of it.

Transactions, tables and pages are keys of finite maps, so each has a linear
order with the laws that the maps ask for.  Pages are ordered by table first,
and within a table by number (`PageId.compare_eq`).
-/

namespace PagedStore

/-! ## Transactions -/

/-- The identity of a transaction. -/
structure TransactionId where
  /-- The number by which it is known. -/
  number : Nat
deriving DecidableEq, Repr, Inhabited

namespace TransactionId

instance : Ord TransactionId := ⟨compareOn TransactionId.number⟩

instance : Std.TransOrd TransactionId :=
  inferInstanceAs (Std.TransCmp (compareOn TransactionId.number))

theorem compare_eq (s t : TransactionId) : compare s t = compare s.number t.number := rfl

instance : Std.LawfulEqOrd TransactionId where
  eq_of_compare {s t} h := by
    cases s
    cases t
    simpa [compare_eq] using h

instance : ToString TransactionId := ⟨fun t => s!"Txn({t.number})"⟩

end TransactionId

/-! ## Tables -/

/-- The identity of a table. -/
structure TableId where
  /-- The word by which it is known. -/
  word : UInt32
deriving DecidableEq, Repr, Inhabited

namespace TableId

instance : Ord TableId := ⟨compareOn TableId.word⟩

instance : Std.TransOrd TableId := inferInstanceAs (Std.TransCmp (compareOn TableId.word))

theorem compare_eq (s t : TableId) : compare s t = compare s.word t.word := rfl

instance : Std.LawfulEqOrd TableId where
  eq_of_compare {s t} h := by
    cases s
    cases t
    simpa [compare_eq] using h

instance : ToString TableId := ⟨fun t => s!"Table({t.word.toNat})"⟩

end TableId

/-! ## Pages -/

/-- The identity of a page. -/
structure PageId where
  /-- The table that the page belongs to. -/
  table : TableId
  /-- The number of the page within the table's file, counted from zero. -/
  number : Nat
deriving DecidableEq, Repr, Inhabited

namespace PageId

instance : Ord PageId := ⟨compareLex (compareOn PageId.table) (compareOn PageId.number)⟩

instance : Std.TransOrd PageId :=
  inferInstanceAs (Std.TransCmp (compareLex (compareOn PageId.table) (compareOn PageId.number)))

theorem compare_eq (p q : PageId) :
    compare p q = (compare p.table q.table).then (compare p.number q.number) := rfl

instance : Std.LawfulEqOrd PageId where
  eq_of_compare {p q} h := by
    cases p
    cases q
    simpa [compare_eq, Ordering.then_eq_eq] using h

instance : ToString PageId := ⟨fun p => s!"Page({p.table.word.toNat}:{p.number})"⟩

end PageId

/-! ## Records -/

/-- The address of a stored row. -/
structure RecordId where
  /-- The page that holds the row. -/
  page : PageId
  /-- The slot of the page, counted from zero. -/
  slot : Nat
deriving DecidableEq, Repr, Inhabited

instance : ToString RecordId := ⟨fun r => s!"{r.page}#{r.slot}"⟩

end PagedStore
