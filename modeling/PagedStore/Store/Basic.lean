import PagedStore.Cache.Basic
import PagedStore.Cache.Counters
import PagedStore.Catalog.Load
import PagedStore.Locks.LockTable
import PagedStore.Settings

/-!
# The store

A store is a disk, a catalog of the tables on it, the locks of their pages, a
cache of pages, and counters.  The cache holds at most as many pages as the
settings allow.

Most operations can fail after a part of their work is done, and what is done
stays done.  They return a result and the store, whatever the result.  An
operation that changes nothing when it fails returns the store with its result
only.
-/

namespace PagedStore

/-- A store of tables. -/
@[ext] structure Store where
  /-- The settings. -/
  settings : Settings
  /-- The files. -/
  disk : Disk
  /-- The tables. -/
  catalog : Catalog
  /-- The locks of the pages. -/
  locks : LockTable := ∅
  /-- The cached pages. -/
  cache : Cache := ∅
  /-- How the cache is doing. -/
  counters : Counters := {}
deriving DecidableEq

namespace Store

/-- A store without tables, over the files of a disk. -/
def start (settings : Settings) (disk : Disk) : Except StoreError Store :=
  match settings.fault? with
  | some fault => .error (.settings fault)
  | none => .ok { settings, disk, catalog := { pageSize := settings.pageSize } }

/-- The pages that the cache may hold. -/
def capacity (s : Store) : Nat := s.settings.poolPages

/-- Counts one event. -/
def count (s : Store) (counter : Counter) : Store :=
  { s with counters := s.counters.bump counter }

/-- Changes the cache. -/
def onCache (s : Store) (f : Cache → Cache) : Store := { s with cache := f s.cache }

/-- Does a thing for one after another, until it fails for one.  A failure changes
nothing, but what was done before stays. -/
def untilError {α : Type} (f : Store → α → Except StoreError Store) (s : Store) :
    List α → Except StoreError Unit × Store
  | [] => (.ok (), s)
  | a :: as =>
      match f s a with
      | .error e => (.error e, s)
      | .ok s => untilError f s as

/-! ## Tables -/

/-- Opens the file of a table, which is made if there is none, and adds the table
to the catalog. -/
def createTable (s : Store) (path name : String) (schema : Schema) (key : Option String) :
    Except StoreError TableId × Store :=
  let r := s.catalog.openTable s.disk path name schema key
  (r.1, { s with disk := r.2.1, catalog := r.2.2 })

/-- Loads a schema file. -/
def loadSchema (s : Store) (path : String) : Except StoreError (List TableId) × Store :=
  let r := s.catalog.load s.disk path
  (r.1, { s with disk := r.2.1, catalog := r.2.2 })

/-- Forgets all tables. -/
def clearCatalog (s : Store) : Store := { s with catalog := s.catalog.clear }

/-! ## Locks -/

/-- Takes a lock from a transaction that has not finished, and says whether it held
the lock. -/
def releasePage (s : Store) (t : TransactionId) (id : PageId) : Bool × Store :=
  let r := s.locks.release id t
  (r.1, { s with locks := r.2 })

/-! ## Text -/

/-- The cache in a line: how many pages it may hold, how many it holds, and the
counters. -/
def listing (s : Store) : String :=
  s!"BufferPool \x7b capacity: {s.capacity}, cached: {s.cache.size}, " ++
    s!"stats: {s.counters.listing} \x7d"

end Store

end PagedStore
