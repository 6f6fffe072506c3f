import PagedStore.Proofs.Ledger
import PagedStore.Tasks.Basic

/-!
# What a scan yields

What the rows of a page tell apart from their schemas are their *entries*: where each is stored,
and its values.  A page that is valid has the entries that its content has, slot by slot
(`Page.entries_content`).

`Scan.pull` copies the rows of the current page to its items, and then the items are enough, the
scan is at its end, or it asks for its next page (`Scan.pulled_pull`).  The rows among the items
can be told from the rest (`ScanItem.rows?`), unless a page could not be fetched.
-/

namespace PagedStore

/-! ## Entries -/

/-- Where a row is stored, and its values. -/
abbrev Entry := Option RecordId × List Field

/-- The entry of a row. -/
def Row.entry (row : Row) : Entry := (row.recordId, row.fields)

/-- The entry of a slot, if the slot is used. -/
def entryAt (p : PageId) (slot : Option (List Field) × Nat) : Option Entry :=
  slot.1.map fun fields => (some { page := p, slot := slot.2 }, fields)

/-- The entries of the used slots of a page in slot order. -/
def entries (p : PageId) (c : Content) : List Entry := c.zipIdx.filterMap (entryAt p)

/-- Rows that have the addresses of their slots have the entries of the slots. -/
theorem filterMap_entryAt {p : PageId} {slots : List (Option Row)} {i : Nat}
    (h : ∀ {j : Nat} {row : Row}, slots[j]? = some (some row) →
      row.recordId = some { page := p, slot := i + j }) :
    ((slots.map (Option.map Row.fields)).zipIdx i).filterMap (entryAt p) =
      (slots.filterMap fun s => s).map Row.entry := by
  induction slots generalizing i with
  | nil => rfl
  | cons slot slots ih =>
      have hrest := ih (i := i + 1) fun {j row} hj => by
        rw [Nat.add_right_comm, Nat.add_assoc]
        exact h (j := j + 1) hj
      rw [List.map_cons, List.zipIdx_cons]
      cases slot with
      | none => exact hrest
      | some row =>
          have hrow : entryAt p (Option.map Row.fields (some row), i) = some row.entry := by
            rw [Row.entry, h (j := 0) rfl]
            rfl
          rw [List.filterMap_cons_some hrow, hrest]
          rfl

/-- The rows of a valid page have the entries of its content. -/
theorem Page.entries_content {page : Page} (h : page.Valid) :
    entries page.id page.content = page.rows.map Row.entry := by
  refine filterMap_entryAt fun {j row} hj => ?_
  rw [Nat.zero_add]
  exact (h.fits hj).recordId

/-- An entry of a page is stored on the page. -/
theorem exists_of_mem_entries {p : PageId} {c : Content} {entry : Entry} (h : entry ∈ entries p c) :
    ∃ record, entry.1 = some record ∧ record.page = p := by
  obtain ⟨⟨slot, i⟩, -, he⟩ := List.mem_filterMap.1 h
  obtain ⟨fields, -, rfl⟩ := Option.map_eq_some_iff.1 he
  exact ⟨_, rfl, rfl⟩

/-! ## Items -/

namespace ScanItem

/-- The rows among items that have no error among them, and whether the end is reached. -/
def rows? : List ScanItem → Option (List Row × Bool)
  | [] => some ([], false)
  | [.finish] => some ([], true)
  | .row first :: items => (rows? items).map fun r => (first :: r.1, r.2)
  | _ => none

theorem rows?_append (rows : List Row) (items : List ScanItem) :
    rows? (rows.map .row ++ items) = (rows? items).map fun r => (rows ++ r.1, r.2) := by
  induction rows with
  | nil => simp
  | cons row rows ih =>
      rw [List.map_cons, List.cons_append, rows?, ih, Option.map_map]
      rfl

theorem rows?_map_row (rows : List Row) : rows? (rows.map .row) = some (rows, false) := by
  have h := rows?_append rows []
  rw [List.append_nil] at h
  rw [h]
  simp [rows?]

theorem rows?_map_row_finish (rows : List Row) :
    rows? (rows.map .row ++ [.finish]) = some (rows, true) := by
  rw [rows?_append]
  simp [rows?]

/-- Who is told of an error is not told rows only. -/
theorem rows?_of_failed {e : StoreError} {items : List ScanItem} (h : .failed e ∈ items) :
    rows? items = none := by
  induction items with
  | nil => cases h
  | cons item items ih =>
      cases item with
      | row row =>
          rw [rows?, ih (by simpa using h)]
          rfl
      | failed error => rfl
      | finish =>
          cases items with
          | nil => simp at h
          | cons => rfl

end ScanItem

/-! ## Pulling -/

namespace Scan

variable {count : Nat} {s : Scan} {items : List ScanItem}

/-- Where a scan can stop that is asked for items when there are some already. -/
inductive Pulled (count : Nat) (s : Scan) (items : List ScanItem) : Stop → Prop
  /-- A part of the rows of the current page was enough. -/
  | enough {told rest : List Row} : s.buffered = told ++ rest →
      Pulled count s items
        (.answered ((told.map .row).reverse ++ items) { s with buffered := rest })
  /-- There is no page after the current one. -/
  | finished : (∀ page, s.nextPage = some page → count ≤ page) →
      Pulled count s items (.answered (.finish :: ((s.buffered.map .row).reverse ++ items)) s.close)
  /-- The next page is needed. -/
  | asks {page wanted : Nat} : s.nextPage = some page → page < count →
      Pulled count s items (.needs page wanted ((s.buffered.map .row).reverse ++ items)
        { s with nextPage := some (page + 1), buffered := [] })

theorem pulled_pull (count : Nat) (s : Scan) (items : List ScanItem) (wanted : Nat) :
    Pulled count s items (s.pull count items wanted) := by
  have hfinished : (∀ page, s.nextPage = some page → count ≤ page) → Pulled count s items
      (.answered (.finish :: ((s.buffered.map .row).reverse ++ items)) s.close) := .finished
  have hasks : ∀ {page : Nat} (wanted : Nat), s.nextPage = some page → page < count →
      Pulled count s items (.needs page wanted ((s.buffered.map .row).reverse ++ items)
        { s with nextPage := some (page + 1), buffered := [] }) := fun _ => .asks
  induction wanted generalizing s items with
  | zero =>
      have henough : s.buffered = [] ++ s.buffered → Pulled count s items
          (.answered ((([] : List Row).map .row).reverse ++ items)
            { s with buffered := s.buffered }) :=
        .enough
      exact henough rfl
  | succ wanted ih =>
      rw [pull]
      split
      · -- One row is copied, and the rest is as if the scan was asked then.
        rename_i row rows hb
        have hshift : ∀ told : List Row, (told.map .row).reverse ++ .row row :: items =
            ((row :: told).map ScanItem.row).reverse ++ items := by
          intro told
          rw [List.map_cons, List.reverse_cons, List.append_assoc]
          rfl
        have hrest := ih { s with buffered := rows } (.row row :: items) .finished fun _ => .asks
        generalize pull count { s with buffered := rows } (.row row :: items) wanted = stop at hrest
        rw [hb] at hfinished hasks
        cases hrest with
        | enough ht =>
            rw [hshift]
            exact .enough (by rw [hb, List.cons_append]; exact congrArg _ ht)
        | finished hf =>
            rw [hshift]
            exact hfinished hf
        | asks hn hlt =>
            rw [hshift]
            exact hasks _ hn hlt
      · rename_i hb
        split
        · rename_i hn
          have hclose : s.close = s := by
            cases s
            simp_all [close]
          rw [hb, hclose] at hfinished
          exact hfinished fun page h => by rw [hn] at h; cases h
        · rename_i page hn
          split
          · rename_i hlt
            have hs : ({ s with nextPage := some (page + 1), buffered := [] } : Scan) =
                { s with nextPage := some (page + 1) } := by rw [← hb]
            have h := hasks (wanted + 1) hn hlt
            rwa [hb, hs] at h
          · rename_i hlt
            rw [hb] at hfinished
            refine hfinished fun page' h => ?_
            obtain rfl : page = page' := Option.some.inj (hn.symm.trans h)
            exact Nat.le_of_not_lt hlt

end Scan

end PagedStore
