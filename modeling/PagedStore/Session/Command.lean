import PagedStore.Session.Basic

/-!
# Commands and replies

What can be asked of a session, and what it replies.
-/

namespace PagedStore

/-! ## Commands -/

/-- What to do with a copy of a page through a handle. -/
inductive HandleAction where
  /-- To insert a row with these values. -/
  | insert (fields : List Field)
  /-- To delete the row at an address. -/
  | delete (record : Option RecordId)
  /-- To give the copy another owner, or none. -/
  | mark (owner : Option TransactionId)
  /-- To make the present image the before image. -/
  | keepImage
  /-- To look at the copy. -/
  | inspect

/-- How a table file is opened. -/
inductive Opening where
  /-- It is made and must not exist. -/
  | create
  /-- It must exist. -/
  | existing
  /-- It is made if it does not exist. -/
  | either

/-- A table file that is in use. -/
inductive FileRef where
  /-- The file of a table of the catalog. -/
  | table (table : TableId)
  /-- A file that goes by a name of its own. -/
  | named (name : String)

/-- What to do with a table file, past the cache. -/
inductive FileAction where
  /-- To put a page of zeros at the end. -/
  | append
  /-- To count the pages. -/
  | count
  /-- To read a page. -/
  | read (page : PageId)
  /-- To write the image of a page. -/
  | writeImage (page : PageId) (image : Bytes)
  /-- To write a page of this size with these rows. -/
  | writeRows (page : PageId) (pageSize : Nat) (rows : List (List Field))

/-- What can be asked of a session. -/
inductive Command where
  /-- To begin a transaction. -/
  | begin
  /-- To get a page, and perhaps to keep a handle on it. -/
  | getPage (t : TransactionId) (page : PageId) (mode : LockMode) (handle : Option String)
  /-- To insert rows. -/
  | insert (t : TransactionId) (table : TableId) (schema : Option Schema)
      (rows : List (List Field))
  /-- To delete a row. -/
  | delete (t : TransactionId) (record : Option RecordId)
  /-- To delete a row from the file of a table. -/
  | deleteFrom (t : TransactionId) (table : TableId) (record : Option RecordId)
  /-- To pull items from a scan. -/
  | pull (t : TransactionId) (scan : String) (wanted : Nat)
  /-- To commit a transaction. -/
  | commit (t : TransactionId)
  /-- To abort a transaction. -/
  | abort (t : TransactionId)
  /-- To write a page early. -/
  | flushPage (page : PageId)
  /-- To write the pages of a transaction early. -/
  | flushPages (t : TransactionId)
  /-- To write all pages early. -/
  | flushAll
  /-- To drop a page from the cache. -/
  | discard (page : PageId)
  /-- To release the lock of a page early. -/
  | release (t : TransactionId) (page : PageId)
  /-- To use a handle. -/
  | handle (name : String) (action : HandleAction)
  /-- To ask whether two handles are on the same copy. -/
  | sameCopy (name other : String)
  /-- To give a handle up. -/
  | dropHandle (name : String)
  /-- To make a scan of a table. -/
  | scan (t : TransactionId) (table : TableId) (name : String)
  /-- To open a scan, or to begin it again. -/
  | rewind (scan : String)
  /-- To close a scan. -/
  | close (scan : String)
  /-- To open or make the file of a table and add the table. -/
  | createTable (path name : String) (schema : Schema) (key : Option String)
  /-- To add a table with a file in use. -/
  | addTable (file name : String) (key : Option String)
  /-- To write the schema file and to load it. -/
  | loadSchema (data : Bytes)
  /-- To load a schema file that is there or not. -/
  | loadFrom (path : String)
  /-- To forget all tables. -/
  | clearCatalog
  /-- To write a file. -/
  | writeFile (path : String) (data : Bytes)
  /-- To cut or lengthen a file. -/
  | setLength (path : String) (length : Nat)
  /-- To open a table file and to call it by a name. -/
  | openFile (how : Opening) (name path : String) (schema : Schema) (pageSize : Nat)
  /-- To use a table file. -/
  | onFile (file : FileRef) (action : FileAction)
  /-- To set all counters to zero. -/
  | resetCounters
  /-- To begin anew with other settings and the files as they are. -/
  | reopen (pageSize poolPages : Option Nat)

/-- The transaction that a command is for. -/
def Command.transaction? : Command → Option TransactionId
  | getPage t .. | insert t .. | delete t _ | deleteFrom t .. | pull t .. | commit t | abort t
  | flushPages t | release t _ | scan t .. => some t
  | _ => none

/-! ## Replies -/

/-- What a session replies. -/
inductive Reply where
  /-- It is done. -/
  | done
  /-- The transaction has a parked task. -/
  | busy
  /-- There is no such handle, or no table file of that name. -/
  | noHandle
  /-- There is no such scan. -/
  | noScan
  /-- The task is parked. -/
  | blocked
  /-- What came of the task. -/
  | answer (answer : Answer)
  /-- It could not be done. -/
  | failed (error : StoreError)
  /-- A number. -/
  | number (n : Nat)
  /-- Yes or no. -/
  | flag (yes : Bool)
  /-- A page. -/
  | page (page : Page)
  /-- A copy of a page, with its before image. -/
  | copy (page : Page)
  /-- The address of a row. -/
  | record (record : RecordId)
  /-- A table. -/
  | table (table : TableId)
  /-- The tables that were loaded. -/
  | loaded (tables : Except StoreError (List TableId))
  /-- A table file and the number of its pages. -/
  | file (file : TableFile) (pages : Nat)

/-- A reply to something that can fail. -/
def Reply.ofExcept {α : Type} (f : α → Reply) : Except StoreError α → Reply
  | .ok a => f a
  | .error e => failed e

end PagedStore
