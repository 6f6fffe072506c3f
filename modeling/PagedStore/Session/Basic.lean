import PagedStore.Tasks.Workload

/-!
# Sessions

A session is the work on one disk.  It has a store with its parked tasks, and
names for what is in use: *handles* on copies of pages, scans, and table files
that are not in the catalog.

A handle is on a copy and not on a page.  It stays when the copy leaves the cache,
and what is done through it then does not reach the cache.

A scan is known by a number, and a name stands for the scan that was made last with
it.  A scan that has lost its name may still be pulled by a parked task, and what
happens to it then does not reach the scan that has the name now.
-/

namespace PagedStore

open Std (ExtTreeMap)

/-- A reference to a copy of a page. -/
structure Handle where
  /-- The page. -/
  page : PageId
  /-- The number of the copy. -/
  copy : Nat
deriving DecidableEq

/-- The work on one disk. -/
structure Session where
  /-- The store and the parked tasks. -/
  work : Workload
  /-- The handles in use. -/
  handles : ExtTreeMap String Handle := ∅
  /-- The number of the scan that a name stands for. -/
  scanNames : ExtTreeMap String Nat := ∅
  /-- The scans, by number. -/
  scans : ExtTreeMap Nat Scan := ∅
  /-- The number of scans made so far. -/
  scansMade : Nat := 0
  /-- The table files in use that are not in the catalog. -/
  files : ExtTreeMap String TableFile := ∅
  /-- The number of transactions begun. -/
  begun : Nat := 0

namespace Session

/-- The store. -/
def store (s : Session) : Store := s.work.store

/-- The disk. -/
def disk (s : Session) : Disk := s.store.disk

/-- The catalog. -/
def catalog (s : Session) : Catalog := s.store.catalog

/-- The session with another store. -/
def withStore (s : Session) (store : Store) : Session :=
  { s with work := { s.work with store } }

/-- The session with another disk. -/
def withDisk (s : Session) (disk : Disk) : Session := s.withStore { s.store with disk }

/-- The path of the schema file. -/
def schemaPath : String := "schema.txt"

/-- A session over an empty directory. -/
def start (settings : Settings) (directory : String) : Except StoreError Session :=
  (Store.start settings { directory }).map fun store => { work := { store } }

/-- Writes the schema file and loads it. -/
def loadSchema (s : Session) (data : Bytes) : Except StoreError (List TableId) × Session :=
  match s.disk.write schemaPath data with
  | .error fault => (.error (.file fault), s)
  | .ok disk =>
      let r := { s.store with disk }.loadSchema schemaPath
      (r.1, s.withStore r.2)

/-- A session over a directory with nothing but a schema file, which is loaded. -/
def startWithSchema (settings : Settings) (directory : String) (data : Bytes) :
    Except StoreError Session :=
  match start settings directory with
  | .error e => .error e
  | .ok s =>
      match s.loadSchema data with
      | (.error e, _) => .error e
      | (.ok _, s) => .ok s

/-- The copy that a handle is on. -/
def copy? (s : Session) (h : Handle) : Option Page := s.store.cache.copy? h.page h.copy

/-- Changes the copy that a handle is on. -/
def updateCopy (s : Session) (h : Handle) (f : Page → Page) : Session :=
  s.withStore (s.store.onCache fun c => c.updateCopy h.page h.copy f)

/-- The session with a scan at another place. -/
def moveScan (s : Session) (number : Nat) (scan : Scan) : Session :=
  { s with scans := s.scans.insert number scan }

/-- Takes note of an answer: a scan that was pulled has moved. -/
def note (s : Session) : Answer → Session
  | .pulled number _ scan => s.moveScan number scan
  | _ => s

end Session

end PagedStore
