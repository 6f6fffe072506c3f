import PagedStore.Checksum.Crc32
import PagedStore.Contents
import PagedStore.Path

/-!
# The disk

Directories and files.  One of the directories is the *home*, and there are all
directories on the way to one that is there.  No directory is made or removed.  A
file has a name in a directory and holds bytes (`Disk.bytes`).  It is listed under
its name if it is in the home, and under its path from the root if it is not.

A path is followed from the home or from the root (`Disk.place`), and different
paths can lead to the same file.  One that is followed from the home stands for the
full path, and messages show that one (`Disk.fullPath`).  Three functions give what
the file is listed under, and they differ in what they refuse.  `Disk.find` is for a
file that is there, `Disk.nameFor` for one that may be there or not, and
`Disk.newName` for one that must not be there.  The last two refuse a name with a
slash after it as a directory, before they look at the name.

There are no links, so a file is listed once.  Everybody may read and write every
file, and the disk does not fail or run full.

What is written under a path is found again under it (`find_insert`,
`read_of_write`).

A table is known by the checksum of the full path of its file
(`TableId.ofPath`).
-/

namespace PagedStore

open Std (ExtTreeMap)

/-- The identity of the table whose file has a path. -/
def TableId.ofPath (path : String) : TableId := ⟨Crc32.checksum (Utf8.encode path)⟩

/-- Directories and files. -/
@[ext] structure Disk where
  /-- The path of the home from the root, without dots. -/
  directory : String
  /-- Other directories, each by the names that lead to it from the root. -/
  directories : List (List String) := []
  /-- The contents of each file, by its name in the home or by its path. -/
  files : ExtTreeMap String Contents := ∅
deriving DecidableEq

namespace Disk

/-! ## Names -/

/-- The full path of what a path leads to. -/
def fullPath (d : Disk) (path : String) : String := Path.join d.directory path

/-- The names that lead to the home from the root. -/
def home (d : Disk) : List String := Path.parts d.directory

/-- There is a directory at the end of these names from the root. -/
def isDirectory (d : Disk) (names : List String) : Bool :=
  (d.home :: d.directories).any names.isPrefixOf

/-- What a file in a directory is listed under. -/
def listedAs (d : Disk) (directory : List String) (name : String) : String :=
  if directory = d.home then name else "/" ++ "/".intercalate (directory ++ [name])

/-- There is a file of this name in a directory. -/
def isFile (d : Disk) (directory : List String) (name : String) : Bool :=
  d.files.contains (d.listedAs directory name)

/-- The place where a path ends. -/
def place (d : Disk) (path : String) : Except FileFault Place :=
  if path.toList.contains '\x00' then .error .invalidName
  else if Path.lengthLimit < (d.fullPath path).utf8ByteSize then .error .nameTooLong
  else
    Path.follow d.isDirectory d.isFile (Path.endsInSlash path)
      (if Path.isAbsolute path then [] else d.home) (Path.parts path)

/-- What the file is listed under that a path leads to. -/
def find (d : Disk) (path : String) : Except FileFault String :=
  match d.place path with
  | .error fault => .error fault
  | .ok (.directory _) => .error .isDirectory
  | .ok (.entry directory name slash) =>
      if Path.nameLimit < name.utf8ByteSize then .error .nameTooLong
      else if !d.isFile directory name then .error .notFound
      else if slash then .error .notDirectory
      else .ok (d.listedAs directory name)

/-- What a file is listed under, or will be if it is made, that a path leads to. -/
def nameFor (d : Disk) (path : String) : Except FileFault String :=
  match d.place path with
  | .error fault => .error fault
  | .ok (.directory _) => .error .isDirectory
  | .ok (.entry directory name slash) =>
      if slash then .error .isDirectory
      else if Path.nameLimit < name.utf8ByteSize then .error .nameTooLong
      else .ok (d.listedAs directory name)

/-- What a new file is listed under that is made at the end of a path.  There must be
nothing yet. -/
def newName (d : Disk) (path : String) : Except FileFault String :=
  match d.place path with
  | .ok (.directory false) => .error .alreadyExists
  | _ =>
      match d.nameFor path with
      | .error fault => .error fault
      | .ok name => if d.files.contains name then .error .alreadyExists else .ok name

/-- A path leads to a file or a directory. -/
def isTaken (d : Disk) (path : String) : Bool :=
  match d.find path with
  | .ok _ => true
  | .error fault => fault = .isDirectory

/-- What a file at the end of a path is or would be listed under, if the path ends in a
name. -/
def target? (d : Disk) (path : String) : Option String :=
  match d.place path with
  | .ok (.entry directory name false) => some (d.listedAs directory name)
  | _ => none

/-- The name in the home where a path ends, if it ends in one. -/
def nameOf? (d : Disk) (path : String) : Option String :=
  (d.target? path).filter fun name => !Path.isAbsolute name

/-- The identity of the table whose file is at the end of a path.  A path that does not end
in a name is taken as it is. -/
def tableOf (d : Disk) (path : String) : TableId :=
  .ofPath (d.fullPath ((d.target? path).getD path))

/-! ## Whole files -/

/-- The bytes of the file with a name, or none if there is no such file. -/
def bytes (d : Disk) (name : String) : Bytes := (d.files.getD name ∅).bytes

/-- The contents of the file that a path leads to. -/
def read (d : Disk) (path : String) : Except FileFault Bytes :=
  match d.find path with
  | .error fault => .error fault
  | .ok name => .ok (d.bytes name)

/-- The text in the file that a path leads to. -/
def readText (d : Disk) (path : String) : Except FileFault String :=
  match d.read path with
  | .error fault => .error fault
  | .ok data =>
      match Utf8.decode data with
      | .ok text => .ok text
      | .error _ => .error .notText

/-- Writes a whole file.  The file is made if there is none. -/
def write (d : Disk) (path : String) (data : Bytes) : Except FileFault Disk :=
  match d.nameFor path with
  | .error fault => .error fault
  | .ok name => .ok { d with files := d.files.insert name (.ofBytes data) }

/-- Cuts a file to a length, or makes it that long with zeros. -/
def setLength (d : Disk) (path : String) (length : Nat) : Except FileFault Disk :=
  match d.find path with
  | .error fault => .error fault
  | .ok name => .ok { d with files := d.files.insert name ((d.files.getD name ∅).resize length) }

/-! ## What is written is found -/

theorem place_eq_ok_of_eq_ok {d : Disk} {path : String} {p : Place} (h : d.place path = .ok p)
    (files : ExtTreeMap String Contents) : { d with files }.place path = .ok p := by
  unfold place at h ⊢
  split at h
  · cases h
  · next hn =>
      split at h
      · cases h
      · next hl =>
          exact (if_neg hn).trans ((if_neg hl).trans (Path.follow_eq_ok_of_eq_ok h _))

theorem target?_eq_some_iff {d : Disk} {path name : String} :
    d.target? path = some name ↔
      ∃ directory n, d.place path = .ok (.entry directory n false) ∧
        d.listedAs directory n = name := by
  unfold target?
  constructor
  · intro h
    split at h
    · next directory n hp => exact ⟨directory, n, hp, Option.some.inj h⟩
    · cases h
  · rintro ⟨directory, n, hp, rfl⟩
    rw [hp]

/-- What a file is listed under does not rest on any file. -/
theorem target?_of_eq_some {d : Disk} {path name : String} (h : d.target? path = some name)
    (files : ExtTreeMap String Contents) : { d with files }.target? path = some name := by
  obtain ⟨directory, n, hp, hname⟩ := target?_eq_some_iff.1 h
  exact target?_eq_some_iff.2 ⟨directory, n, place_eq_ok_of_eq_ok hp files, hname⟩

theorem target?_of_find {d : Disk} {path name : String} (h : d.find path = .ok name) :
    d.target? path = some name := by
  rw [find] at h
  split at h
  · cases h
  · cases h
  · next directory n slash hp =>
      split at h
      · cases h
      · split at h
        · cases h
        · cases slash with
          | true => cases h
          | false => exact target?_eq_some_iff.2 ⟨directory, n, hp, Except.ok.inj h⟩

theorem nameFor_eq_ok_iff {d : Disk} {path name : String} :
    d.nameFor path = .ok name ↔
      ∃ directory n, d.place path = .ok (.entry directory n false) ∧
        n.utf8ByteSize ≤ Path.nameLimit ∧ d.listedAs directory n = name := by
  unfold nameFor
  constructor
  · intro h
    split at h
    · cases h
    · cases h
    · next directory n slash hp =>
        cases slash with
        | true => cases h
        | false =>
            split at h
            · next hs => cases hs
            · split at h
              · cases h
              · next hl => exact ⟨directory, n, hp, Nat.not_lt.1 hl, Except.ok.inj h⟩
  · rintro ⟨directory, n, hp, hl, rfl⟩
    simp [hp, Nat.not_lt.2 hl]

theorem target?_of_nameFor {d : Disk} {path name : String} (h : d.nameFor path = .ok name) :
    d.target? path = some name := by
  obtain ⟨directory, n, hp, -, hname⟩ := nameFor_eq_ok_iff.1 h
  exact target?_eq_some_iff.2 ⟨directory, n, hp, hname⟩

theorem target?_of_newName {d : Disk} {path name : String} (h : d.newName path = .ok name) :
    d.target? path = some name := by
  rw [newName] at h
  split at h
  · cases h
  · split at h
    · cases h
    · next hn =>
        split at h
        · cases h
        · cases h
          exact target?_of_nameFor hn

/-- A file that is made under a path is found under it. -/
theorem find_insert {d : Disk} {path name : String} (h : d.nameFor path = .ok name)
    (c : Contents) : { d with files := d.files.insert name c }.find path = .ok name := by
  obtain ⟨directory, n, hp, hl, rfl⟩ := nameFor_eq_ok_iff.1 h
  have hfile : { d with files := d.files.insert (d.listedAs directory n) c }.isFile directory n =
      true := ExtTreeMap.contains_insert_self
  have hlisted : { d with files := d.files.insert (d.listedAs directory n) c }.listedAs
      directory n = d.listedAs directory n := rfl
  simp [find, place_eq_ok_of_eq_ok hp, Nat.not_lt.2 hl, hfile, hlisted]

/-- Two disks are the same if they have the same directories, and the same files with the
same bytes. -/
theorem eq_of_bytes {d d' : Disk} (hd : d'.directory = d.directory)
    (hs : d'.directories = d.directories)
    (hn : ∀ name, d'.files.contains name = d.files.contains name)
    (hb : ∀ name, d'.bytes name = d.bytes name) : d' = d := by
  refine Disk.ext hd hs (ExtTreeMap.ext_getElem? fun {name} => ?_)
  have hname := hn name
  have hbytes : d'.files.getD name ∅ = d.files.getD name ∅ := Contents.ext (hb name)
  rw [ExtTreeMap.getD_eq_getD_getElem?, ExtTreeMap.getD_eq_getD_getElem?] at hbytes
  rw [ExtTreeMap.contains_eq_isSome_getElem?, ExtTreeMap.contains_eq_isSome_getElem?] at hname
  cases hc : d.files[name]? with
  | none =>
      rwa [hc, Option.isSome_none, Option.isSome_eq_false_iff, Option.isNone_iff_eq_none] at hname
  | some c =>
      rw [hc] at hname hbytes
      obtain ⟨c', hc'⟩ := Option.isSome_iff_exists.1 hname
      rw [hc'] at hbytes ⊢
      exact congrArg some hbytes

theorem bytes_insert (d : Disk) (name n : String) (c : Contents) :
    { d with files := d.files.insert name c }.bytes n =
      if name = n then c.bytes else d.bytes n := by
  rw [bytes, ExtTreeMap.getD_insert]
  simp only [Std.LawfulEqCmp.compare_eq_iff_eq]
  split <;> rfl

/-- What is written is read again. -/
theorem read_of_write {d d' : Disk} {path : String} {data : Bytes}
    (h : d.write path data = .ok d') : d'.read path = .ok data := by
  unfold write at h
  split at h
  · cases h
  · next name hn =>
      cases h
      simp [read, find_insert hn, bytes_insert]

example :
    let d : Disk := { directory := "/d", files := (∅ : ExtTreeMap String Contents).insert "a" ∅ }
    ["./a", "../d/a", "/d/a"].map d.target? = [some "a", some "a", some "a"] := by
  decide +kernel

end Disk

end PagedStore
