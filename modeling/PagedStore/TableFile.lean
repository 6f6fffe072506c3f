import PagedStore.Disk
import PagedStore.Page.Image

/-!
# Table files

The file of a table is a sequence of pages of one size, one after another.  The
number of pages is the length of the file divided by the page size, as a number
of 32 bits (`TableFile.pageCount`).  Bytes at the end that do not fill a page
are not looked at.

A page can be read if its number is below the number of pages.  It can be
written if its number is at most that, and the first page past the end is
appended by this.  A page belongs to one table, and its image has the size of a
page.

A file is opened with a schema and a page size that allow at least one row to a
page.  When an existing file is opened its length has to be a multiple of the
page size.

On the disk the zeros at the end of a file are not spelled out.  What is done to a file
there is what is done to its bytes (`Disk.pageCount_eq`, `Disk.readPage_eq`,
`Disk.writeImage_eq`, `Disk.append_eq`).
-/

namespace PagedStore

/-- The file of a table, with the way to read it. -/
structure TableFile where
  /-- What the file is listed under. -/
  name : String
  /-- The identity of the table. -/
  table : TableId
  /-- The columns of the table. -/
  schema : Schema
  /-- The bytes of a page. -/
  pageSize : Nat
  /-- A page has room for a row. -/
  fits : 0 < slotsPerPage pageSize schema
deriving DecidableEq

namespace TableFile

/-! ## Opening -/

/-- Why a schema and a page size do not go together. -/
def geometryError? (schema : Schema) (pageSize : Nat) : Option StoreError :=
  if pageSize = 0 then some (.settings .zeroPageSize)
  else
    match countSlots pageSize schema with
    | .error e => some e
    | .ok slots =>
        if slots = 0 then some (.settings (.rowTooWide pageSize schema.width)) else none

theorem geometryError?_eq_none_iff {schema : Schema} {pageSize : Nat} :
    geometryError? schema pageSize = none ↔
      BitsCountable pageSize ∧ 0 < slotsPerPage pageSize schema := by
  unfold geometryError? countSlots
  by_cases h0 : pageSize = 0
  · simp [h0, slotsPerPage]
  · by_cases hc : BitsCountable pageSize
    · by_cases hs : slotsPerPage pageSize schema = 0
      · simp [h0, hc, hs]
      · simp [h0, hc, hs, Nat.pos_of_ne_zero hs]
    · simp [h0, hc]

theorem pageSize_pos (f : TableFile) : 0 < f.pageSize := by
  rcases Nat.eq_zero_or_pos f.pageSize with h | h
  · have := f.fits
    simp [h, slotsPerPage] at this
  · exact h

/-- Makes an empty file for a table.  There must be nothing at the end of the path. -/
def create (disk : Disk) (path : String) (schema : Schema) (pageSize : Nat) :
    Except StoreError (TableFile × Disk) :=
  match h : geometryError? schema pageSize with
  | some e => .error e
  | none =>
      match disk.newName path with
      | .error fault => .error (.file fault)
      | .ok name =>
          .ok ({ name, table := .ofPath (disk.fullPath name), schema, pageSize,
                 fits := (geometryError?_eq_none_iff.1 h).2 },
            { disk with files := disk.files.insert name ∅ })

/-- Opens the file of a table. -/
def openExisting (disk : Disk) (path : String) (schema : Schema) (pageSize : Nat) :
    Except StoreError TableFile :=
  match h : geometryError? schema pageSize with
  | some e => .error e
  | none =>
      match disk.find path with
      | .error fault => .error (.file fault)
      | .ok name =>
          let length := (disk.files.getD name ∅).length
          if length % pageSize ≠ 0 then
            .error (.file (.misaligned (disk.fullPath path) length pageSize))
          else
            .ok { name, table := .ofPath (disk.fullPath name), schema, pageSize,
                  fits := (geometryError?_eq_none_iff.1 h).2 }

/-- Opens the file of a table, and makes it first if there is none.  What the path leads
to is opened even if it is no file. -/
def openOrCreate (disk : Disk) (path : String) (schema : Schema) (pageSize : Nat) :
    Except StoreError (TableFile × Disk) :=
  if disk.isTaken path then
    match openExisting disk path schema pageSize with
    | .ok file => .ok (file, disk)
    | .error e => .error e
  else create disk path schema pageSize

/-! ## Pages of the contents -/

/-- The number of pages that the contents of the file have. -/
def pageCount (f : TableFile) (data : Bytes) : Nat := data.length / f.pageSize % 4294967296

/-- Reads a page. -/
def readPage (f : TableFile) (data : Bytes) (id : PageId) : Except StoreError Page :=
  if id.table = f.table ∧ id.number < f.pageCount data then
    match Page.decode id f.schema f.pageSize
        ((data.drop (id.number * f.pageSize)).take f.pageSize) with
    | .ok page => .ok page
    | .error fault => .error (.corruptPage id fault)
  else .error (.pageNotFound id)

/-- The contents with the image of a page replaced or appended. -/
def writeImage (f : TableFile) (data : Bytes) (id : PageId) (image : Bytes) :
    Except StoreError Bytes :=
  if id.table ≠ f.table then .error (.pageNotFound id)
  else if image.length ≠ f.pageSize then
    .error (.corruptPage id (.writeLength f.pageSize image.length))
  else if f.pageCount data < id.number then .error (.pageNotFound id)
  else .ok (Bytes.overwrite data (id.number * f.pageSize) image)

/-- Puts a page of zeros after the last page: the number of the new page, and
the contents with it. -/
def append (f : TableFile) (data : Bytes) : Nat × Bytes :=
  let number := f.pageCount data
  (number, Bytes.overwrite data (number * f.pageSize) (Bytes.zeros f.pageSize))

end TableFile

namespace Disk

/-! ## Table files on the disk -/

/-- What a table's file holds. -/
def held (d : Disk) (f : TableFile) : Contents := d.files.getD f.name ∅

/-- The disk with a table's file that holds something else. -/
def setHeld (d : Disk) (f : TableFile) (c : Contents) : Disk :=
  { d with files := d.files.insert f.name c }

/-- The contents of a table's file. -/
def contents (d : Disk) (f : TableFile) : Bytes := d.bytes f.name

/-- The disk with other contents of a table's file. -/
def setContents (d : Disk) (f : TableFile) (data : Bytes) : Disk := d.setHeld f (.ofBytes data)

theorem bytes_setContents (d : Disk) (f : TableFile) (data : Bytes) (name : String) :
    (d.setContents f data).bytes name = if f.name = name then data else d.bytes name := by
  rw [setContents, setHeld, bytes_insert, Contents.bytes_ofBytes]

@[simp] theorem contents_setContents (d : Disk) (f : TableFile) (data : Bytes) :
    (d.setContents f data).contents f = data := by
  rw [contents, bytes_setContents, if_pos rfl]

/-- The number of pages of a table. -/
def pageCount (d : Disk) (f : TableFile) : Nat := (d.held f).length / f.pageSize % 4294967296

/-- Reads a page of a table. -/
def readPage (d : Disk) (f : TableFile) (id : PageId) : Except StoreError Page :=
  if id.table = f.table ∧ id.number < d.pageCount f then
    match Page.decode id f.schema f.pageSize
        ((d.held f).slice (id.number * f.pageSize) f.pageSize) with
    | .ok page => .ok page
    | .error fault => .error (.corruptPage id fault)
  else .error (.pageNotFound id)

/-- Writes the image of a page. -/
def writeImage (d : Disk) (f : TableFile) (id : PageId) (image : Bytes) :
    Except StoreError Disk :=
  if id.table ≠ f.table then .error (.pageNotFound id)
  else if image.length ≠ f.pageSize then
    .error (.corruptPage id (.writeLength f.pageSize image.length))
  else if d.pageCount f < id.number then .error (.pageNotFound id)
  else .ok (d.setHeld f ((d.held f).overwrite (id.number * f.pageSize) image))

/-- Writes a page. -/
def writePage (d : Disk) (f : TableFile) (page : Page) : Except StoreError Disk :=
  d.writeImage f page.id page.encode

/-- Puts a page of zeros at the end of a table's file. -/
def append (d : Disk) (f : TableFile) : Nat × Disk :=
  let number := d.pageCount f
  (number,
    d.setHeld f ((d.held f).overwrite (number * f.pageSize) (Bytes.zeros f.pageSize)))

/-! ## On the bytes -/

theorem setHeld_overwrite (d : Disk) (f : TableFile) (offset : Nat) (patch : Bytes) :
    d.setHeld f ((d.held f).overwrite offset patch) =
      d.setContents f (Bytes.overwrite (d.contents f) offset patch) := by
  have h : (d.held f).overwrite offset patch =
      .ofBytes (Bytes.overwrite (d.contents f) offset patch) :=
    Contents.ext (by rw [Contents.bytes_overwrite, Contents.bytes_ofBytes]; rfl)
  rw [setContents, h]

theorem pageCount_eq (d : Disk) (f : TableFile) : d.pageCount f = f.pageCount (d.contents f) :=
  congrArg (fun n => n / f.pageSize % 4294967296) (d.held f).length_bytes.symm

theorem readPage_eq (d : Disk) (f : TableFile) (id : PageId) :
    d.readPage f id = f.readPage (d.contents f) id := by
  rw [readPage, TableFile.readPage, pageCount_eq, Contents.bytes_slice]
  rfl

theorem writeImage_eq (d : Disk) (f : TableFile) (id : PageId) (image : Bytes) :
    d.writeImage f id image =
      match f.writeImage (d.contents f) id image with
      | .ok data => .ok (d.setContents f data)
      | .error e => .error e := by
  rw [writeImage, TableFile.writeImage, pageCount_eq, setHeld_overwrite]
  split
  · rfl
  · split
    · rfl
    · split <;> rfl

theorem append_eq (d : Disk) (f : TableFile) :
    d.append f = ((f.append (d.contents f)).1, d.setContents f (f.append (d.contents f)).2) := by
  rw [append, setHeld_overwrite, pageCount_eq]
  rfl

theorem contents_append (d : Disk) (f g : TableFile) :
    (d.append f).2.contents g =
      if f.name = g.name then (f.append (d.contents f)).2 else d.contents g := by
  rw [append_eq]
  exact d.bytes_setContents f _ g.name

end Disk

end PagedStore
