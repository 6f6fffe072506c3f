import PagedStore.TableFile

/-!
# Scans

A scan goes over the rows of a table, page by page and slot by slot.  It is
closed at first, and is closed again when it has passed the last page.  The rows
of a page are copied when the page is fetched.

To get further a scan sometimes needs a page.  It has moved on to the next page
before it gets this one, so a page that cannot be fetched is passed over.

`Scan.pull` asks a scan for a number of items.  It stops after the end, and where
a page is needed it stops with a request for the page.
-/

namespace PagedStore

/-- A scan of a table. -/
structure Scan where
  /-- The transaction that it reads for. -/
  transaction : TransactionId
  /-- The file of the table. -/
  file : TableFile
  /-- The number of the next page, or nothing if the scan is closed. -/
  nextPage : Option Nat := none
  /-- The rows of the current page that are still to come. -/
  buffered : List Row := []
deriving DecidableEq

/-- What a scan yields. -/
inductive ScanItem where
  /-- A row of the table. -/
  | row (row : Row)
  /-- A page could not be fetched. -/
  | failed (error : StoreError)
  /-- There are no more rows. -/
  | finish
deriving DecidableEq

namespace Scan

/-- The scan at its beginning. -/
def rewind (s : Scan) : Scan := { s with nextPage := some 0, buffered := [] }

/-- The scan without anything to come. -/
def close (s : Scan) : Scan := { s with nextPage := none, buffered := [] }

/-- Where a scan stops when it is asked for items.  The items are the ones so far,
the latest first. -/
inductive Stop where
  /-- No more items are wanted, or there are none. -/
  | answered (items : List ScanItem) (scan : Scan)
  /-- A page is needed, and so many items are still wanted. -/
  | needs (page : Nat) (wanted : Nat) (items : List ScanItem) (scan : Scan)

/-- Asks a scan of a table with `count` pages for items. -/
def pull (count : Nat) (s : Scan) (items : List ScanItem) : Nat → Stop
  | 0 => .answered items s
  | wanted + 1 =>
      match s.buffered with
      | row :: rows => pull count { s with buffered := rows } (.row row :: items) wanted
      | [] =>
          match s.nextPage with
          | none => .answered (.finish :: items) s
          | some page =>
              if page < count then
                .needs page (wanted + 1) items { s with nextPage := some (page + 1) }
              else .answered (.finish :: items) s.close

/-- Goes on with the page that was needed, or without it. -/
def resume (count : Nat) (s : Scan) (items : List ScanItem) (wanted : Nat) :
    Except StoreError Page → Stop
  | .ok page => pull count { s with buffered := page.rows } items wanted
  | .error e => pull count s (.failed e :: items) (wanted - 1)

/-- A scan that is pulled asks for no page but its next. -/
theorem nextPage_of_pull_eq_needs {count page wanted n : Nat} {s s' : Scan}
    {items items' : List ScanItem} (h : pull count s items n = .needs page wanted items' s') :
    s.nextPage = some page ∧ s'.nextPage = some (page + 1) ∧ page < count := by
  induction n generalizing s items with
  | zero => cases h
  | succ n ih =>
      rw [pull] at h
      split at h
      · have := ih h
        exact this
      · split at h
        · cases h
        · rename_i hn
          split at h
          · rename_i hlt
            cases h
            exact ⟨hn, rfl, hlt⟩
          · cases h

end Scan

end PagedStore
