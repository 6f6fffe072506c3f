import PagedStore.Session.Command

/-!
# Serving commands

A command is carried out, and then the workload is settled.  The parked tasks of
other transactions that end meanwhile are the *events* of the command.  A task of
the command's own transaction may also be parked and end meanwhile.  Then its
answer is the reply.

A transaction with a parked task is busy, and a command for it changes nothing.
-/

namespace PagedStore.Session

open Std (ExtTreeMap)

/-! ## Tasks -/

/-- Begins a task of a transaction. -/
def request (s : Session) (t : TransactionId) (r : Request) : Reply × Session :=
  let begun := s.work.begin t r
  let s := { s with work := begun.2 }
  match begun.1 with
  | none => (.blocked, s)
  | some a => (.answer a, s.note a)

/-! ## Handles -/

/-- Uses a handle on a copy. -/
def useCopy (s : Session) (h : Handle) (page : Page) : HandleAction → Reply × Session
  | .insert fields =>
      match Row.ofFields page.schema fields with
      | .error fault => (.failed (.invalidRow fault), s)
      | .ok row =>
          match page.insert row with
          | .error e => (.failed e, s)
          | .ok (record, page) => (.record record, s.updateCopy h fun _ => page)
  | .delete record =>
      match page.delete record with
      | .error e => (.failed e, s)
      | .ok page => (.done, s.updateCopy h fun _ => page)
  | .mark owner => (.done, s.updateCopy h fun page => page.withOwner owner)
  | .keepImage => (.done, s.updateCopy h Page.keepImage)
  | .inspect => (.copy page, s)

/-- Uses a handle. -/
def useHandle (s : Session) (name : String) (action : HandleAction) : Reply × Session :=
  match s.handles[name]?.bind fun h => (s.copy? h).map fun page => (h, page) with
  | none => (.noHandle, s)
  | some (h, page) => s.useCopy h page action

/-- Whether two handles are on the same copy. -/
def sameCopy (s : Session) (name other : String) : Reply :=
  match s.handles[name]?, s.handles[other]? with
  | some h, some o => .flag (h = o)
  | _, _ => .noHandle

/-! ## Scans -/

/-- Uses a scan, unless its transaction is busy. -/
def useScan (s : Session) (name : String) (use : Nat → Scan → Reply × Session) :
    Reply × Session :=
  match s.scanNames[name]?.bind fun number => s.scans[number]?.map fun scan => (number, scan) with
  | none => (.noScan, s)
  | some (number, scan) =>
      if s.work.isParked scan.transaction then (.busy, s) else use number scan

/-- Resets a scan to its beginning or its end. -/
def resetScan (s : Session) (name : String) (f : Scan → Scan) : Reply × Session :=
  s.useScan name fun number scan => (.done, s.moveScan number (f scan))

/-- Makes a scan. -/
def addScan (s : Session) (t : TransactionId) (table : TableId) (name : String) :
    Reply × Session :=
  match s.catalog.file table with
  | .error e => (.failed e, s)
  | .ok file =>
      (.done, { s.moveScan s.scansMade { transaction := t, file } with
        scanNames := s.scanNames.insert name s.scansMade
        scansMade := s.scansMade + 1 })

/-! ## Tables and files -/

/-- Adds a table with a file in use, which is then in use no more. -/
def addTable (s : Session) (file name : String) (key : Option String) : Reply × Session :=
  match s.files[file]? with
  | none => (.noHandle, s)
  | some f =>
      let s := { s with files := s.files.erase file }
      match s.catalog.add f name key with
      | .error e => (.failed e, s)
      | .ok catalog => (.table f.table, s.withStore { s.store with catalog })

/-- Opens a table file. -/
def openFile (s : Session) (how : Opening) (path : String) (schema : Schema) (pageSize : Nat) :
    Except StoreError (TableFile × Disk) :=
  match how with
  | .create => TableFile.create s.disk path schema pageSize
  | .existing => (TableFile.openExisting s.disk path schema pageSize).map fun f => (f, s.disk)
  | .either => TableFile.openOrCreate s.disk path schema pageSize

/-- Opens a table file and calls it by a name. -/
def nameFile (s : Session) (how : Opening) (name path : String) (schema : Schema)
    (pageSize : Nat) : Reply × Session :=
  match s.openFile how path schema pageSize with
  | .error e => (.failed e, s)
  | .ok (file, disk) =>
      (.file file (disk.pageCount file),
        { s.withDisk disk with files := s.files.insert name file })

/-- The table file that a reference is to, or the reply if there is none. -/
def file (s : Session) : FileRef → Except Reply TableFile
  | .table t => (s.catalog.file t).mapError .failed
  | .named name =>
      match s.files[name]? with
      | some f => .ok f
      | none => .error .noHandle

/-- An empty page of a table with some rows put into it. -/
def pageOf (id : PageId) (schema : Schema) (pageSize : Nat) (rows : List (List Field)) :
    Except StoreError Page := do
  let page ← Page.fresh id schema pageSize
  rows.foldlM (fun page fields =>
    match Row.ofFields schema fields with
    | .error fault => .error (.invalidRow fault)
    | .ok row => (page.insert row).map Prod.snd) page

/-- Uses a table file. -/
def useFile (s : Session) (f : TableFile) : FileAction → Reply × Session
  | .append =>
      let r := s.disk.append f
      (.number r.1, s.withDisk r.2)
  | .count => (.number (s.disk.pageCount f), s)
  | .read id => (.ofExcept .page (s.disk.readPage f id), s)
  | .writeImage id image => changed (s.disk.writeImage f id image)
  | .writeRows id pageSize rows =>
      match pageOf id f.schema pageSize rows with
      | .error e => (.failed e, s)
      | .ok page => changed (s.disk.writePage f page)
where
  /-- The session with the disk that a writing gives. -/
  changed : Except StoreError Disk → Reply × Session
    | .error e => (.failed e, s)
    | .ok disk => (.done, s.withDisk disk)

/-- Begins anew with other settings.  Handles and scans are lost in any case. -/
def reopen (s : Session) (pageSize poolPages : Option Nat) : Reply × Session :=
  let old := s.store.settings
  let s := { s with handles := ∅, scanNames := ∅, scans := ∅ }
  match Store.start
      { pageSize := pageSize.getD old.pageSize, poolPages := poolPages.getD old.poolPages }
      s.disk with
  | .error e => (.failed e, s)
  | .ok store => (.done, { s with work := { store } })

/-! ## All commands -/

/-- A reply to something that can fail but gives nothing. -/
def finished (s : Session) (r : Except StoreError Unit × Store) : Reply × Session :=
  (.ofExcept (fun _ => .done) r.1, s.withStore r.2)

/-- Carries out a command, without settling. -/
def perform (s : Session) : Command → Reply × Session
  | .begin => (.number s.begun, { s with begun := s.begun + 1 })
  | .getPage t page mode _ => s.request t (.getPage page mode)
  | .insert t table schema rows => s.request t (.insert table schema rows)
  | .delete t record => s.request t (.delete record)
  | .deleteFrom t table record => s.request t (.deleteFrom table record)
  | .pull _ name wanted =>
      s.useScan name fun number scan => s.request scan.transaction (.pull number scan wanted)
  | .commit t => s.finished (s.store.commit t)
  | .abort t => s.finished (s.store.abort t)
  | .flushPage page =>
      match s.store.flushPage page with
      | .error e => (.failed e, s)
      | .ok store => (.done, s.withStore store)
  | .flushPages t => s.finished (s.store.flushPages t)
  | .flushAll => s.finished s.store.flushAll
  | .discard page => (.done, s.withStore (s.store.discard page))
  | .release t page =>
      let r := s.store.releasePage t page
      (.flag r.1, s.withStore r.2)
  | .handle name action => s.useHandle name action
  | .sameCopy name other => (s.sameCopy name other, s)
  | .dropHandle name =>
      (.flag (s.handles.contains name), { s with handles := s.handles.erase name })
  | .scan t table name => s.addScan t table name
  | .rewind name => s.resetScan name Scan.rewind
  | .close name => s.resetScan name Scan.close
  | .createTable path name schema key =>
      let r := s.store.createTable path name schema key
      (.ofExcept .table r.1, s.withStore r.2)
  | .addTable file name key => s.addTable file name key
  | .loadSchema data =>
      let r := s.loadSchema data
      (.loaded r.1, r.2)
  | .loadFrom path =>
      let r := s.store.loadSchema path
      (.loaded r.1, s.withStore r.2)
  | .clearCatalog => (.done, s.withStore s.store.clearCatalog)
  | .writeFile path data => written (s.disk.write path data)
  | .setLength path length => written (s.disk.setLength path length)
  | .openFile how name path schema pageSize => s.nameFile how name path schema pageSize
  | .onFile ref action =>
      match s.file ref with
      | .error reply => (reply, s)
      | .ok f => s.useFile f action
  | .resetCounters => (.done, s.withStore { s.store with counters := {} })
  | .reopen pageSize poolPages => s.reopen pageSize poolPages
where
  /-- The session with the disk that a writing gives. -/
  written : Except FileFault Disk → Reply × Session
    | .error fault => (.failed (.file fault), s)
    | .ok disk => (.done, s.withDisk disk)

/-- The session with a handle on the page that a command has got, if the command asks
for one. -/
def keepHandle (s : Session) : Command → Reply → Session
  | .getPage _ page _ (some name), .answer (.page frame) =>
      { s with handles := s.handles.insert name { page, copy := frame.copy } }
  | _, _ => s

/-- Serves a command: the reply, the events in ascending order of transactions, and the
session afterwards. -/
def serve (s : Session) (c : Command) : Reply × List (TransactionId × Answer) × Session :=
  if c.transaction?.any s.work.isParked then (.busy, [], s)
  else
    let first := s.perform c
    let settled := first.2.work.settle
    let answers := settled.1
    let s := answers.values.foldl note { first.2 with work := settled.2 }
    match first.1, c.transaction?.bind fun t => answers[t]?.map fun a => (t, a) with
    | .blocked, some (t, a) => (.answer a, (answers.erase t).toList, s.keepHandle c (.answer a))
    | reply, _ => (reply, answers.toList, s.keepHandle c reply)

end PagedStore.Session
