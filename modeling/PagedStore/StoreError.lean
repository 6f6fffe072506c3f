import PagedStore.Field
import PagedStore.Ident
import PagedStore.Text.Quoted

/-!
# What can go wrong

`StoreError` is the error of every operation of the store.  Each constructor
is a cause.  Where several rules can be broken the cause carries a fault that
says which one: of a row, of a page image, of the settings, of a table
definition, or of a file.  A fault can also be *stated*, which is a reason a
caller gives in its own words.

The wording of all of them is in this module, in the functions `message`, and
nowhere else.
-/

namespace PagedStore

/-! ## Faults -/

/-- Why values do not make a row, or a row does not fit a table. -/
inductive RowFault where
  /-- The number of values is not the number of columns. -/
  | arity (expected given : Nat)
  /-- A value has another type than its column. -/
  | columnType (column : Nat) (expected given : ColumnType)
  /-- A text has more bytes than a row can store. -/
  | textTooLong (bytes : Nat)
  /-- There is no such column. -/
  | noColumn (column : Nat)
  /-- The row has no address, so it is stored nowhere. -/
  | noRecordId
  /-- The row and the table differ in the types of their columns. -/
  | schemaMismatch (row table : Schema)
  /-- A reason in words. -/
  | stated (reason : String)
deriving DecidableEq

/-- The wording of a row fault. -/
def RowFault.message : RowFault → String
  | .arity expected given => s!"expected {expected} fields, got {given}"
  | .columnType column expected given => s!"field {column} should be {expected}, got {given}"
  | .textTooLong bytes => s!"string of {bytes} bytes exceeds {textLimit}"
  | .noColumn column => s!"no field {column}"
  | .noRecordId => "tuple has no record id"
  | .schemaMismatch row table => s!"schema [{row}] does not match table schema [{table}]"
  | .stated reason => reason

/-- Why bytes are not the image of a page. -/
inductive PageFault where
  /-- The image to read is not one page long. -/
  | readLength (pageSize given : Nat)
  /-- The image to write is not one page long. -/
  | writeLength (pageSize given : Nat)
  /-- The header marks a slot that the page does not have. -/
  | strayMark
  /-- A used slot does not hold a row of the schema. -/
  | slot (index : Nat) (fault : FieldFault)
  /-- A reason in words. -/
  | stated (reason : String)
deriving DecidableEq

/-- The wording of a page fault. -/
def PageFault.message : PageFault → String
  | .readLength pageSize given => s!"expected {pageSize} bytes, got {given}"
  | .writeLength pageSize given => s!"image is {given} bytes, page size is {pageSize}"
  | .strayMark => "header marks slots past the end"
  | .slot index fault => s!"slot {index}: {fault.message}"
  | .stated reason => reason

/-- Why settings cannot be used. -/
inductive SettingsFault where
  /-- A page would have no bytes. -/
  | zeroPageSize
  /-- The settings allow no cached page. -/
  | zeroPoolPages
  /-- Not even one row fits a page. -/
  | rowTooWide (pageSize rowWidth : Nat)
  /-- The file of a table and the catalog differ in the page size. -/
  | pageSizeMismatch (table : String) (file catalog : Nat)
  /-- A reason in words. -/
  | stated (reason : String)
deriving DecidableEq

/-- The wording of a settings fault. -/
def SettingsFault.message : SettingsFault → String
  | .zeroPageSize => "page_size must be > 0"
  | .zeroPoolPages => "pool_pages must be > 0"
  | .rowTooWide pageSize rowWidth =>
      s!"page size {pageSize} cannot hold a {rowWidth}-byte tuple"
  | .pageSizeMismatch table file catalog =>
      s!"table {Text.quoted table} uses {file}-byte pages, catalog uses {catalog}"
  | .stated reason => reason

/-- Why a line does not define a table. -/
inductive DefinitionFault where
  /-- There is no opening parenthesis. -/
  | noOpen
  /-- There is no closing parenthesis. -/
  | noClose
  /-- The last closing parenthesis stands before the first opening one. -/
  | closeBeforeOpen
  /-- Nothing but blanks stands before the opening parenthesis. -/
  | noName
  /-- A column has fewer than two words or more than three. -/
  | badColumn (column : String)
  /-- The second word of a column is no type. -/
  | unknownType (word : String)
  /-- The third word of a column means nothing. -/
  | unknownKeyword (word : String)
  /-- A reason in words. -/
  | stated (reason : String)
deriving DecidableEq

/-- The wording of a definition fault. -/
def DefinitionFault.message : DefinitionFault → String
  | .noOpen => "missing '('"
  | .noClose => "missing ')'"
  | .closeBeforeOpen => "')' before '('"
  | .noName => "missing table name"
  | .badColumn column => s!"bad column {Text.quoted column}"
  | .unknownType word => s!"unknown type {Text.quoted word}"
  | .unknownKeyword word => s!"unknown annotation {Text.quoted word}"
  | .stated reason => reason

/-- Why a file cannot be used. -/
inductive FileFault where
  /-- There is no file of that name. -/
  | notFound
  /-- There is something of that name already. -/
  | alreadyExists
  /-- A path that should lead to a file leads to a directory. -/
  | isDirectory
  /-- A path goes on after a file. -/
  | notDirectory
  /-- A name holds a character that no name may hold. -/
  | invalidName
  /-- A name, or a full path, is longer than it may be. -/
  | nameTooLong
  /-- The length of a table's file is no multiple of the page size. -/
  | misaligned (path : String) (length pageSize : Nat)
  /-- The bytes of a text file are not UTF-8. -/
  | notText
  /-- A reason in words. -/
  | stated (reason : String)
deriving DecidableEq

/-- The wording of a file fault. -/
def FileFault.message : FileFault → String
  | .notFound => "no such file"
  | .alreadyExists => "file exists"
  | .isDirectory => "is a directory"
  | .notDirectory => "not a directory"
  | .invalidName => "file name holds a null character"
  | .nameTooLong => "file name too long"
  | .misaligned path length pageSize =>
      s!"{path} is {length} bytes, not a multiple of page size {pageSize}"
  | .notText => "stream did not contain valid UTF-8"
  | .stated reason => reason

/-! ## Errors of the store -/

/-- The error of an operation of the store. -/
inductive StoreError where
  /-- A file could not be used. -/
  | file (fault : FileFault)
  /-- The page lies past the end of its file, or in another file. -/
  | pageNotFound (page : PageId)
  /-- No table has the identity. -/
  | tableNotFound (table : TableId)
  /-- No table has the name. -/
  | tableNameNotFound (name : String)
  /-- The slot is empty, or lies elsewhere. -/
  | recordNotFound (record : RecordId)
  /-- To let the transaction wait would close a circle of waiting. -/
  | aborted (transaction : TransactionId)
  /-- Every cached page has changes of another running transaction. -/
  | noEvictablePage
  /-- No slot of the page is free. -/
  | pageFull (page : PageId)
  /-- The bytes of a page do not decode. -/
  | corruptPage (page : PageId) (fault : PageFault)
  /-- A row is not fit to be stored. -/
  | invalidRow (fault : RowFault)
  /-- Settings do not fit. -/
  | settings (fault : SettingsFault)
  /-- The bits of a page of this size cannot be counted. -/
  | pageTooLarge (pageSize : Nat)
  /-- A line of a schema file, counted from one, is malformed. -/
  | schemaLine (line : Nat) (fault : DefinitionFault)
deriving DecidableEq

namespace StoreError

/-- The wording of an error. -/
def message : StoreError → String
  | file fault => s!"I/O error: {fault.message}"
  | pageNotFound page => s!"{page} not found"
  | tableNotFound table => s!"table {table} not found"
  | tableNameNotFound name => s!"table {name} not found"
  | recordNotFound record => s!"record {record} not found"
  | aborted transaction => s!"{transaction} aborted"
  | noEvictablePage => "buffer pool is full and no page can be evicted"
  | pageFull page => s!"{page} is full"
  | corruptPage page fault => s!"{page} is corrupt: {fault.message}"
  | invalidRow fault => s!"invalid tuple: {fault.message}"
  | settings fault => s!"invalid configuration: {fault.message}"
  | pageTooLarge pageSize => s!"the bits of {pageSize} bytes cannot be counted in 64 bits"
  | schemaLine line fault => s!"schema file line {line}: {fault.message}"

/-- The error says that its transaction was chosen to break a deadlock. -/
def isAborted : StoreError → Bool
  | aborted _ => true
  | _ => false

/-- The error says that a page, a table or a record was not found. -/
def isLookupFailure : StoreError → Bool
  | pageNotFound _ | tableNotFound _ | tableNameNotFound _ | recordNotFound _ => true
  | _ => false

end StoreError

end PagedStore
