import PagedStore.Proofs.Images
import PagedStore.Locks.Holders

/-!
# The ledger of transactions

A history of a store is a list of events: a transaction is granted the exclusive
lock of a page, is given a page, inserts or deletes a row, commits or aborts
(`Event`).  The ledger is what a history comes to (`Ledger.of`).  It has the
changes of the committed transactions in the order of their commits, and for each
transaction that has not ended its own changes, the pages that it has fetched for
writing, and the images that these pages had in their files when it was granted
their exclusive locks.

The content of a page is what each of its slots holds (`Content`).  To *replay*
changes on a page is to apply those of them that are on this page, in order
(`replay`).  So what a page should hold, if only the committed transactions
counted, is the replay of their changes on what it held at first
(`Ledger.content`).
-/

namespace PagedStore

/-! ## Contents and changes -/

/-- What each slot of a page holds: the values of a row, or nothing. -/
abbrev Content := List (Option (List Field))

/-- What the slots of a page hold. -/
def Page.content (p : Page) : Content := p.slots.map (Option.map Row.fields)

/-- One change of a page. -/
inductive Change where
  | insert (record : RecordId) (fields : List Field)
  | delete (record : RecordId)
deriving DecidableEq

namespace Change

/-- The page that is changed. -/
def page : Change → PageId
  | insert record _ | delete record => record.page

/-- What the slots of the page hold after the change. -/
def apply : Change → Content → Content
  | insert record fields, c => c.set record.slot (some fields)
  | delete record, c => c.set record.slot none

end Change

/-- Applies the changes that are on a page. -/
def replay (p : PageId) (changes : List Change) (c : Content) : Content :=
  changes.foldl (fun c change => if change.page = p then change.apply c else c) c

theorem replay_append (p : PageId) (changes more : List Change) (c : Content) :
    replay p (changes ++ more) c = replay p more (replay p changes c) := by
  rw [replay, List.foldl_append]
  rfl

theorem replay_of_forall_ne {p : PageId} {changes : List Change}
    (h : ∀ change ∈ changes, change.page ≠ p) (c : Content) : replay p changes c = c := by
  induction changes generalizing c with
  | nil => rfl
  | cons change changes ih =>
      show replay p changes (if change.page = p then change.apply c else c) = c
      rw [if_neg (h change (by simp)), ih fun x hx => h x (by simp [hx])]

namespace Page

@[simp] theorem content_withOwner (p : Page) (owner : Option TransactionId) :
    (p.withOwner owner).content = p.content := rfl

@[simp] theorem content_keepImage (p : Page) : p.keepImage.content = p.content := rfl

@[simp] theorem content_reread (p : Page) : p.reread.content = p.content := by
  rw [content, content, reread, List.map_map]
  refine List.map_congr_left fun entry _ => ?_
  cases entry <;> rfl

theorem content_empty (id : PageId) (schema : Schema) (pageSize : Nat) :
    (empty id schema pageSize).content = List.replicate (slotsPerPage pageSize schema) none := by
  simp [content, empty]

theorem content_of_insert {p p' : Page} {row : Row} {record : RecordId}
    (h : p.insert row = .ok (record, p')) :
    p'.content = (Change.insert record row.fields).apply p.content := by
  obtain ⟨-, -, rfl⟩ := insert_eq_ok h
  simp [content, Change.apply, List.map_set, Row.placedAt]

theorem content_of_delete {p p' : Page} {record : RecordId}
    (h : p.delete (some record) = .ok p') :
    p'.content = (Change.delete record).apply p.content := by
  obtain ⟨-, rfl⟩ := delete_eq_ok h
  simp [content, Change.apply, List.map_set]

theorem same_of_insert {p p' : Page} {row : Row} {record : RecordId}
    (h : p.insert row = .ok (record, p')) : p' = { p with slots := p'.slots } := by
  obtain ⟨-, -, rfl⟩ := insert_eq_ok h
  rfl

theorem same_of_delete {p p' : Page} {record : RecordId} (h : p.delete (some record) = .ok p') :
    p' = { p with slots := p'.slots } := by
  obtain ⟨-, rfl⟩ := delete_eq_ok h
  rfl

end Page

/-- The change is made to the first page and gives the second. -/
inductive Change.Made : Change → Page → Page → Prop
  | insert {page page' : Page} {row : Row} {record : RecordId} :
      row.Valid → page.insert row = .ok (record, page') →
        Made (.insert record row.fields) page page'
  | delete {page page' : Page} {record : RecordId} :
      page.delete (some record) = .ok page' → Made (.delete record) page page'

namespace Change.Made

variable {change : Change} {page page' : Page}

theorem content (h : change.Made page page') : page'.content = change.apply page.content := by
  cases h with
  | insert _ h => exact Page.content_of_insert h
  | delete h => exact Page.content_of_delete h

theorem valid (h : change.Made page page') (hp : page.Valid) : page'.Valid := by
  cases h with
  | insert hr h => exact hp.insert hr h
  | delete h => exact hp.delete h

theorem page_eq (h : change.Made page page') : change.page = page.id := by
  cases h with
  | insert _ h => exact (Page.insert_eq_ok h).2.1
  | delete h => exact (Page.delete_eq_ok h).1

/-- Nothing but the slots is changed. -/
theorem same (h : change.Made page page') : page' = { page with slots := page'.slots } := by
  cases h with
  | insert _ h => exact Page.same_of_insert h
  | delete h => exact Page.same_of_delete h

end Change.Made

/-! ## Events -/

/-- What happens to the transactions of a store. -/
inductive Event where
  /-- The transaction is granted the exclusive lock of a page, and did not have it.  The
  page has this image in its file, if it is in the file. -/
  | locked (t : TransactionId) (page : PageId) (image : Option Bytes)
  /-- The transaction is given a page. -/
  | fetched (t : TransactionId) (page : PageId) (mode : LockMode) (copy : Page)
  /-- The transaction has changed a page. -/
  | changed (t : TransactionId) (change : Change)
  /-- The transaction has committed. -/
  | committed (t : TransactionId)
  /-- The transaction could not be committed. -/
  | failed (t : TransactionId)
  /-- The transaction has aborted. -/
  | aborted (t : TransactionId)
deriving DecidableEq

/-- What a history comes to. -/
structure Ledger where
  /-- The changes of the committed transactions, in the order of the commits. -/
  committed : List Change := []
  /-- The changes of each transaction since it began. -/
  pending : TransactionId → List Change := fun _ => []
  /-- The transaction has fetched the page for writing since it began. -/
  wrote : TransactionId → PageId → Bool := fun _ _ => false
  /-- The image that the page had when the transaction was granted its exclusive lock. -/
  found : TransactionId → PageId → Option Bytes := fun _ _ => none
  /-- A commit of the transaction has failed since it began. -/
  failed : TransactionId → Bool := fun _ => false
  /-- Some commit has failed. -/
  broken : Bool := false

namespace Ledger

/-- Nothing is left of a transaction that has ended. -/
def close (l : Ledger) (t : TransactionId) : Ledger :=
  { l with
    pending := fun u => if u = t then [] else l.pending u
    wrote := fun u p => u ≠ t && l.wrote u p
    failed := fun u => u ≠ t && l.failed u }

/-- The ledger after one more event. -/
def record (l : Ledger) : Event → Ledger
  | .locked t p image =>
      { l with found := fun u q => if u = t ∧ q = p then image else l.found u q }
  | .fetched t p .exclusive _ => { l with wrote := fun u q => (u = t ∧ q = p) || l.wrote u q }
  | .fetched _ _ .shared _ => l
  | .changed t change =>
      { l with pending := fun u => if u = t then l.pending u ++ [change] else l.pending u }
  | .committed t => { l.close t with committed := l.committed ++ l.pending t }
  | .failed t => { l with failed := fun u => u = t || l.failed u, broken := true }
  | .aborted t => l.close t

/-- The ledger after more events. -/
def after (l : Ledger) (events : List Event) : Ledger := events.foldl record l

/-- What a history comes to. -/
def of (history : List Event) : Ledger := after {} history

theorem after_append (l : Ledger) (events more : List Event) :
    l.after (events ++ more) = (l.after events).after more := List.foldl_append

theorem of_append (history events : List Event) :
    of (history ++ events) = (of history).after events :=
  after_append _ _ _

/-- What a page should hold if only the committed transactions counted, where `base` is
what it held at first. -/
def content (l : Ledger) (base : PageId → Option Content) (p : PageId) : Option Content :=
  (base p).map (replay p l.committed)

/-- A transaction that has ended has written nothing. -/
theorem wrote_close {l : Ledger} {t u : TransactionId} {p : PageId} :
    (l.close t).wrote u p = true ↔ u ≠ t ∧ l.wrote u p = true := by
  simp [close]

/-- Fetching a page for writing is what makes a transaction one that has written it. -/
theorem wrote_fetched {l : Ledger} {t u : TransactionId} {p q : PageId} {mode : LockMode}
    {copy : Page} :
    (l.record (.fetched t q mode copy)).wrote u p = true ↔
      (mode = .exclusive ∧ u = t ∧ q = p) ∨ l.wrote u p = true := by
  cases mode with
  | shared => simp [record]
  | exclusive => simp [record, @eq_comm _ p q]

theorem failed_close {l : Ledger} {t u : TransactionId} (h : u ≠ t) :
    (l.close t).failed u = l.failed u := by
  simp [close, h]

theorem failed_failed {l : Ledger} {t u : TransactionId} :
    (l.record (.failed t)).failed u = false ↔ u ≠ t ∧ l.failed u = false := by
  simp [record]

/-! ## The ledger of one page -/

/-- Two ledgers say the same about a page. -/
structure SameAt (p : PageId) (l l' : Ledger) : Prop where
  committed : ∀ c, replay p l'.committed c = replay p l.committed c
  pending : ∀ t c, replay p (l'.pending t) c = replay p (l.pending t) c
  touched : ∀ t, ∀ change ∈ l'.pending t, change.page = p → change ∈ l.pending t
  wrote : ∀ t, l'.wrote t p = l.wrote t p
  found : ∀ t, l'.found t p = l.found t p
  failed : l'.failed = l.failed
  broken : l'.broken = l.broken

theorem SameAt.refl (p : PageId) (l : Ledger) : SameAt p l l :=
  ⟨fun _ => rfl, fun _ _ => rfl, fun _ _ h _ => h, fun _ => rfl, fun _ => rfl, rfl, rfl⟩

theorem sameAt_locked {p q : PageId} (h : q ≠ p) (l : Ledger) (t : TransactionId)
    (image : Option Bytes) : SameAt p l (l.record (.locked t q image)) :=
  { SameAt.refl p l with
    found := fun _ => if_neg fun hc => h hc.2.symm }

theorem sameAt_fetched {p q : PageId} {mode : LockMode} (h : q ≠ p ∨ mode = .shared) (l : Ledger)
    (t : TransactionId) (copy : Page) : SameAt p l (l.record (.fetched t q mode copy)) := by
  cases mode with
  | shared => exact SameAt.refl p l
  | exclusive =>
      have hne : p ≠ q := by
        rcases h with h | h
        · exact h.symm
        · cases h
      exact { SameAt.refl p l with wrote := fun u => by simp [record, hne] }

theorem sameAt_changed {p : PageId} {change : Change} (h : change.page ≠ p) (l : Ledger)
    (t : TransactionId) : SameAt p l (l.record (.changed t change)) where
  committed _ := rfl
  pending u c := by
    simp only [record]
    split
    · rw [replay_append, replay_of_forall_ne (by simpa using h)]
    · rfl
  touched u x hx hp := by
    simp only [record] at hx
    split at hx
    · rcases List.mem_append.1 hx with hx | hx
      · exact hx
      · exact absurd (List.mem_singleton.1 hx ▸ hp) h
    · exact hx
  wrote _ := rfl
  found _ := rfl
  failed := rfl
  broken := rfl

end Ledger

end PagedStore
