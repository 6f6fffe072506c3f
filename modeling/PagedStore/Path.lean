import PagedStore.StoreError
import PagedStore.Text.Blank

/-!
# Paths

A path is a text with parts between slashes.  It starts at the root if its first
character is a slash, and else in the directory from which it is followed.  A
directory is given by the names that lead to it from the root.

One dot stays in a directory, two dots go to the one above, and any other part
goes to what has this name.  `Path.follow` goes through all parts but the last,
and says at which `Place` the path ends.  It does not ask for a file there, since
one may be made.  It does matter whether a slash follows the last part, since only
a directory may have one.

Going through a part needs a directory, so files can only stop a path.  Hence a
path that leads to a place leads to the same place whatever files there are
(`Path.follow_eq_ok_of_eq_ok`).

A path without its last part leads to the directory of what it leads to
(`Path.parent`), and a path can be put behind that of a directory (`Path.join`).
-/

namespace PagedStore

/-- Where a path ends. -/
inductive Place where
  /-- A directory.  It is named if the path ends in its name and a slash. -/
  | directory (named : Bool)
  /-- A name in a directory, which no directory has.  It may have a slash after it. -/
  | entry (directory : List String) (name : String) (slash : Bool)
deriving DecidableEq

namespace Path

/-- The most bytes a name may have. -/
def nameLimit : Nat := 255

/-- The most bytes a whole path may have. -/
def lengthLimit : Nat := 4095

/-! ## The parts of a path -/

/-- All parts of a path, with the empty ones. -/
def pieces (path : String) : List (List Char) := Text.pieces (· == '/') path.toList

/-- The texts that are not empty. -/
def named (pieces : List (List Char)) : List String :=
  (pieces.filter fun piece => !piece.isEmpty).map String.ofList

/-- The parts of a path that are not empty. -/
def parts (path : String) : List String := named (pieces path)

/-- The last part is empty.  The empty path counts, as it is that of the directory from
which it is followed. -/
def endsInSlash (path : String) : Bool := (pieces path).getLast? = some []

/-- The path starts at the root. -/
def isAbsolute (path : String) : Bool := path.toList.head? = some '/'

/-! ## The directory of a path -/

/-- The part stays in the directory. -/
def isIdle (part : List Char) : Bool := part.isEmpty || part = ['.']

/-- Some parts without those at the end that stay in the directory. -/
def trimIdle (pieces : List (List Char)) : List (List Char) :=
  (pieces.reverse.dropWhile isIdle).reverse

/-- A path without its last part.  It is empty if nothing is left of a path that does not
start at the root, and then it stands for the directory from which the path is followed. -/
def parent (path : String) : String :=
  let before := trimIdle (trimIdle (pieces path)).dropLast
  if before = [] then if isAbsolute path then "/" else ""
  else String.ofList (List.intercalate ['/'] before)

/-- A path that is followed from the directory to which another one leads.  A path from
the root stays as it is. -/
def join (directory path : String) : String :=
  if isAbsolute path then path
  else if endsInSlash directory then directory ++ path
  else directory ++ "/" ++ path

/-! ## Following a path -/

variable (isDirectory : List String → Bool) (isFile : List String → String → Bool)

/-- Goes through one part: the directory to which it leads.  There is none above the root. -/
def enter (directory : List String) (part : String) : Except FileFault (List String) :=
  if part = "." then .ok directory
  else if part = ".." then .ok directory.dropLast
  else if nameLimit < part.utf8ByteSize then .error .nameTooLong
  else if isDirectory (directory ++ [part]) then .ok (directory ++ [part])
  else if isFile directory part then .error .notDirectory
  else .error .notFound

/-- The place where the last part of a path leads, with or without a slash after it. -/
def arrive (slash : Bool) (directory : List String) (part : String) : Place :=
  if part = "." || part = ".." then .directory false
  else if isDirectory (directory ++ [part]) then .directory slash
  else .entry directory part slash

/-- The place where the parts of a path end, with or without a slash after them.  The root
has no name. -/
def follow (slash : Bool) (directory : List String) : List String → Except FileFault Place
  | [] => .ok (.directory !directory.isEmpty)
  | [part] => .ok (arrive isDirectory slash directory part)
  | part :: next :: rest =>
      match enter isDirectory isFile directory part with
      | .error fault => .error fault
      | .ok directory => follow slash directory (next :: rest)

variable {isDirectory : List String → Bool} {isFile : List String → String → Bool}
  {slash : Bool} {directory directory' : List String}

/-- Going through a part does not rest on any file. -/
theorem enter_eq_ok_of_eq_ok {part : String}
    (h : enter isDirectory isFile directory part = .ok directory')
    (isFile' : List String → String → Bool) :
    enter isDirectory isFile' directory part = .ok directory' := by
  unfold enter at h ⊢
  split at h
  · next hdot => exact (if_pos hdot).trans h
  · next hdot =>
      refine (if_neg hdot).trans ?_
      split at h
      · next hdots => exact (if_pos hdots).trans h
      · next hdots =>
          refine (if_neg hdots).trans ?_
          split at h
          · cases h
          · next hlong =>
              refine (if_neg hlong).trans ?_
              split at h
              · next hdir => exact (if_pos hdir).trans h
              · split at h <;> cases h

/-- Where a path ends does not rest on any file. -/
theorem follow_eq_ok_of_eq_ok {parts : List String} {p : Place}
    (h : follow isDirectory isFile slash directory parts = .ok p)
    (isFile' : List String → String → Bool) :
    follow isDirectory isFile' slash directory parts = .ok p := by
  fun_induction follow isDirectory isFile slash directory parts with
  | case1 => exact h
  | case2 => exact h
  | case3 => cases h
  | case4 _ part next rest dir he ih =>
      rw [follow, enter_eq_ok_of_eq_ok he]
      exact ih h

example : parts ".//a.dat" = [".", "a.dat"] := by decide +kernel

example : join (parent "../d/./s.txt") "t.dat" = "../d/t.dat" := by decide +kernel

example : follow (fun _ => false) (fun _ _ => true) false [] ["a.dat", "b"] =
    .error .notDirectory := by rfl

end Path

end PagedStore
