import PagedStore.Cache.Recency
import PagedStore.Page.Image

/-!
# The cache

The cache holds copies of pages.  Each copy gets a number when it is made, so
that one can tell whether the copy in the cache is still the same.  A copy that
leaves the cache is *loose*.  Who has a reference to it can still read and
change it, but nobody else sees the changes.

The cache also keeps, for a transaction that has not finished, the before images
of pages that were written to their file early.  They are put back if the
transaction is aborted.
-/

namespace PagedStore

open Std (ExtTreeMap)

/-- A copy of a page in the cache. -/
structure Frame where
  /-- The number of the copy. -/
  copy : Nat
  /-- The page. -/
  page : Page
deriving DecidableEq

/-- The cached pages, and what goes with them. -/
@[ext] structure Cache where
  /-- The copies in the cache. -/
  frames : ExtTreeMap PageId Frame := ∅
  /-- The cached pages in the order of their last use. -/
  recency : Recency := ∅
  /-- The copies that have left the cache, by number. -/
  loose : ExtTreeMap Nat Page := ∅
  /-- The number of copies made so far. -/
  copies : Nat := 0
  /-- The before images of pages written early, for each transaction. -/
  kept : ExtTreeMap TransactionId (ExtTreeMap PageId Bytes) := ∅
deriving DecidableEq

namespace Cache

instance : Inhabited Cache := ⟨{}⟩

instance : EmptyCollection Cache := ⟨{}⟩

/-! ## Reading -/

/-- The number of cached pages. -/
def size (c : Cache) : Nat := c.frames.size

/-- The page is cached. -/
def isCached (c : Cache) (id : PageId) : Bool := c.frames.contains id

/-- The cached page of an identity. -/
def page? (c : Cache) (id : PageId) : Option Page := c.frames[id]?.map Frame.page

/-- The cached pages, in page order. -/
def ids (c : Cache) : List PageId := c.frames.keys

/-- The page is cached and has no owner. -/
def isClean (c : Cache) (id : PageId) : Bool := (c.page? id).any fun p => !p.isDirty

/-- The page is cached and has this owner. -/
def isOwnedBy (c : Cache) (t : TransactionId) (id : PageId) : Bool :=
  (c.page? id).any fun p => p.owner = some t

/-- The cached pages with this owner, in page order. -/
def ownedBy (c : Cache) (t : TransactionId) : List PageId := c.ids.filter (c.isOwnedBy t)

/-- The before images kept for a transaction. -/
def keptFor (c : Cache) (t : TransactionId) : ExtTreeMap PageId Bytes := c.kept.getD t ∅

/-! ## Changing -/

/-- Puts a new copy of a page into the cache. -/
def load (c : Cache) (page : Page) : Cache :=
  { c with frames := c.frames.insert page.id { copy := c.copies, page }, copies := c.copies + 1 }

/-- Makes a page the most recently used. -/
def touch (c : Cache) (id : PageId) : Cache := { c with recency := c.recency.touch id }

/-- Changes a page in the cache, if it is there. -/
def update (c : Cache) (id : PageId) (f : Page → Page) : Cache :=
  { c with frames := c.frames.modify id fun frame => { frame with page := f frame.page } }

/-- Takes a page out of the cache.  Its copy becomes loose. -/
def drop (c : Cache) (id : PageId) : Cache :=
  match c.frames[id]? with
  | none => c
  | some frame =>
      { c with
        frames := c.frames.erase id
        recency := c.recency.remove id
        loose := c.loose.insert frame.copy frame.page }

/-- Puts a copy into the cache that has left it.  Another copy of the page becomes loose. -/
def put (c : Cache) (frame : Frame) : Cache :=
  let c := c.drop frame.page.id
  { c with
    frames := c.frames.insert frame.page.id frame
    loose := c.loose.erase frame.copy }

/-- Keeps a before image for a transaction, unless one of the page is kept
already. -/
def keep (c : Cache) (t : TransactionId) (id : PageId) (image : Bytes) : Cache :=
  { c with kept := c.kept.insert t ((c.keptFor t).insertIfNew id image) }

/-- Forgets the before images kept for a transaction. -/
def forget (c : Cache) (t : TransactionId) : Cache := { c with kept := c.kept.erase t }

/-! ## The cached pages after each change -/

theorem page?_load (c : Cache) (page : Page) (id : PageId) :
    (c.load page).page? id = if page.id = id then some page else c.page? id := by
  simp only [page?, load, ExtTreeMap.getElem?_insert, Std.LawfulEqCmp.compare_eq_iff_eq]
  split <;> rfl

@[simp] theorem page?_touch (c : Cache) (used id : PageId) : (c.touch used).page? id = c.page? id :=
  rfl

theorem page?_update (c : Cache) (changed id : PageId) (f : Page → Page) :
    (c.update changed f).page? id = if changed = id then (c.page? id).map f else c.page? id := by
  simp only [page?, update, ExtTreeMap.getElem?_modify, Std.LawfulEqCmp.compare_eq_iff_eq]
  split
  · rename_i h
    subst h
    cases c.frames[changed]? <;> rfl
  · rfl

theorem page?_drop (c : Cache) (dropped id : PageId) :
    (c.drop dropped).page? id = if dropped = id then none else c.page? id := by
  unfold drop page?
  split
  · rename_i h
    split
    · rename_i he
      rw [← he, h]
      rfl
    · rfl
  · simp only [ExtTreeMap.getElem?_erase, Std.LawfulEqCmp.compare_eq_iff_eq]
    split <;> rfl

@[simp] theorem page?_keep (c : Cache) (t : TransactionId) (written id : PageId) (image : Bytes) :
    (c.keep t written image).page? id = c.page? id := rfl

@[simp] theorem page?_forget (c : Cache) (t : TransactionId) (id : PageId) :
    (c.forget t).page? id = c.page? id := rfl

/-- The first before image of a page is the one that stays. -/
theorem keptFor_keep (c : Cache) (t u : TransactionId) (written id : PageId) (image : Bytes) :
    ((c.keep t written image).keptFor u)[id]? =
      if t = u ∧ written = id ∧ (c.keptFor t)[id]? = none then some image
      else (c.keptFor u)[id]? := by
  have h : (c.keep t written image).keptFor u =
      if t = u then (c.keptFor t).insertIfNew written image else c.keptFor u := by
    simp only [keptFor, keep, ExtTreeMap.getD_insert, Std.LawfulEqCmp.compare_eq_iff_eq]
  rw [h]
  by_cases ht : t = u
  · subst ht
    simp only [if_true, true_and, ExtTreeMap.getElem?_insertIfNew,
      Std.LawfulEqCmp.compare_eq_iff_eq]
    by_cases hw : written = id
    · subst hw
      cases h : (c.keptFor t)[written]? <;>
        simp [ExtTreeMap.mem_iff_isSome_getElem?, h, -ExtTreeMap.isSome_getElem?_eq_contains]
    · simp [hw]
  · simp [ht]

/-! ## Copies -/

/-- A copy, be it in the cache or loose. -/
def copy? (c : Cache) (id : PageId) (copy : Nat) : Option Page :=
  match c.frames[id]? with
  | some frame => if frame.copy = copy then some frame.page else c.loose[copy]?
  | none => c.loose[copy]?

/-- Changes a copy, be it in the cache or loose. -/
def updateCopy (c : Cache) (id : PageId) (copy : Nat) (f : Page → Page) : Cache :=
  match c.frames[id]? with
  | some frame =>
      if frame.copy = copy then c.update id f else { c with loose := c.loose.modify copy f }
  | none => { c with loose := c.loose.modify copy f }

end Cache

end PagedStore
