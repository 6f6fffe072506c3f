import PagedStore.Proofs.DefinitionLines
import PagedStore.Proofs.PathParents
import PagedStore.Proofs.Registration
import PagedStore.Proofs.TableNames

/-!
# Loading schema files line by line

The lines of a text (`Text.Lines`) are counted from one, and the blank ones and the comments
among them count as well.  The lines that say something are taken in this order
(`Catalog.saidFrom`).  Each of them opens the file of a table, which is made if there is none,
and adds the table (`Catalog.LineAdds`), or it fails and changes nothing (`Catalog.LineFails`).
The file stands beside the schema file, unless the name of the table leads elsewhere
(`Disk.Beside`).

A load that succeeds is one such step for each of these lines (`Catalog.Loaded`).  A load
that fails is one step for each line before the first that fails, and nothing more.  In both
cases every table that was added is in the catalog at the end, even if a later line takes its
name or its file, since then it is added again (`Catalog.load_line_by_line`).
-/

namespace PagedStore

/-! ## Lines -/

namespace Text

/-- A text is these lines.  None of them has a line feed, and each is ended by one.  Only the last
may be ended by the end of the text, if it is not empty. -/
inductive Lines : List (List Char) → List Char → Prop
  | nil : Lines [] []
  | last {line : List Char} (hne : line ≠ []) (h : '\n' ∉ line) : Lines [line] line
  | cons {line rest : List Char} {ls : List (List Char)} (h : '\n' ∉ line)
      (hrest : Lines ls rest) : Lines (line :: ls) (line ++ '\n' :: rest)

theorem lines_lines (text : List Char) : Lines (lines text) text := by
  induction text with
  | nil => exact .nil
  | cons c cs ih =>
      rw [lines]
      split
      · rename_i hc
        rw [hc]
        exact .cons List.not_mem_nil ih
      · rename_i hc
        have hne : '\n' ≠ c := fun he => hc he.symm
        cases hl : lines cs with
        | nil =>
            rw [hl] at ih
            cases ih
            exact .last (List.cons_ne_nil _ _) (by simpa using hne)
        | cons l ls =>
            rw [hl] at ih
            cases ih with
            | last _ h =>
                exact .last (List.cons_ne_nil _ _) (List.not_mem_cons_of_ne_of_not_mem hne h)
            | cons h hrest =>
                exact .cons (List.not_mem_cons_of_ne_of_not_mem hne h) hrest

theorem lines_append_feed {line : List Char} (h : '\n' ∉ line) (rest : List Char) :
    lines (line ++ '\n' :: rest) = line :: lines rest := by
  induction line with
  | nil => rw [List.nil_append, lines, if_pos rfl]
  | cons c cs ih =>
      rw [List.mem_cons, not_or] at h
      rw [List.cons_append, lines, if_neg (Ne.symm h.1), ih h.2]

theorem lines_of_no_feed {line : List Char} (hne : line ≠ []) (h : '\n' ∉ line) :
    lines line = [line] := by
  induction line with
  | nil => exact absurd rfl hne
  | cons c cs ih =>
      rw [List.mem_cons, not_or] at h
      rw [lines, if_neg (Ne.symm h.1)]
      cases cs with
      | nil => rfl
      | cons d ds => rw [ih (List.cons_ne_nil _ _) h.2]

/-- A text is its lines, and no others. -/
theorem lines_iff {text : List Char} {ls : List (List Char)} : Lines ls text ↔ ls = lines text := by
  constructor
  · intro h
    induction h with
    | nil => rfl
    | last hne h => rw [lines_of_no_feed hne h]
    | cons h _ ih => rw [lines_append_feed h, ih]
  · rintro rfl
    exact lines_lines text

end Text

/-! ## Opening files of tables -/

namespace TableFile

variable {d d' : Disk} {f : TableFile} {path : String} {schema : Schema} {pageSize : Nat}

/-- What a file is that was opened: it is listed under what its path leads to. -/
structure OpenedAt (d : Disk) (path : String) (schema : Schema) (pageSize : Nat) (f : TableFile)
    (d' : Disk) : Prop where
  schema_eq : f.schema = schema
  pageSize_eq : f.pageSize = pageSize
  target : d.target? path = some f.name
  disk : ∃ files, d' = { d with files }

theorem openedAt_create (h : create d path schema pageSize = .ok (f, d')) :
    OpenedAt d path schema pageSize f d' := by
  rw [create] at h
  split at h
  · cases h
  · split at h
    · cases h
    · rename_i hn
      cases h
      exact ⟨rfl, rfl, Disk.target?_of_newName hn, _, rfl⟩

theorem openedAt_openExisting (h : openExisting d path schema pageSize = .ok f) :
    OpenedAt d path schema pageSize f d := by
  rw [openExisting] at h
  split at h
  · cases h
  · split at h
    · cases h
    · rename_i hn
      dsimp only at h
      split at h
      · cases h
      · cases h
        exact ⟨rfl, rfl, Disk.target?_of_find hn, d.files, rfl⟩

theorem openedAt_openOrCreate (h : openOrCreate d path schema pageSize = .ok (f, d')) :
    OpenedAt d path schema pageSize f d' := by
  rw [openOrCreate] at h
  split at h
  · split at h
    · rename_i hf
      cases h
      exact openedAt_openExisting hf
    · cases h
  · exact openedAt_create h

/-- A file that cannot be opened is not blamed on a line. -/
theorem ne_schemaLine_of_openOrCreate {n : Nat} {fault : DefinitionFault} :
    openOrCreate d path schema pageSize ≠ .error (.schemaLine n fault) := by
  have hgeometry : geometryError? schema pageSize ≠ some (.schemaLine n fault) := by
    rw [geometryError?, countSlots]
    intro h
    split at h
    · cases h
    · split at h
      · rename_i he
        split at he <;> cases he
        cases h
      · split at h <;> cases h
  intro h
  rw [openOrCreate] at h
  split at h
  · split at h
    · cases h
    · rename_i he
      cases h
      rw [openExisting] at he
      split at he
      · rename_i hg
        cases he
        exact hgeometry hg
      · split at he
        · cases he
        · dsimp only at he
          split at he <;> cases he
  · rw [create] at h
    split at h
    · rename_i hg
      cases h
      exact hgeometry hg
    · split at h <;> cases h

end TableFile

namespace Disk

/-- A path leads to a file, and the file of a table whose name has no slash in it is looked up
in the same directory. -/
def Beside (d : Disk) (path : String) : Prop :=
  ∃ directory file, d.place path = .ok (.entry directory file false) ∧
    ∀ name : String, '/' ∉ name.toList → '\x00' ∉ name.toList →
      (d.fullPath (Path.join (Path.parent path) (name ++ ".dat"))).utf8ByteSize ≤
        Path.lengthLimit →
      d.place (Path.join (Path.parent path) (name ++ ".dat")) =
        .ok (Path.arrive d.isDirectory false directory (name ++ ".dat"))

theorem beside_of_read {d : Disk} {path : String} {data : Bytes} (h : d.read path = .ok data) :
    d.Beside path := by
  rw [read] at h
  split at h
  · cases h
  · rename_i hfind
    obtain ⟨directory, file, hplace, -⟩ := target?_eq_some_iff.1 (target?_of_find hfind)
    refine ⟨directory, file, hplace, fun name hslash hzero hlength => ?_⟩
    exact place_join_parent hplace (by simp [hslash]) (by simp [hzero]) (by simp) hlength

end Disk

namespace Catalog

variable {s s' : Disk × Catalog} {directory : String} {line : List Char × Nat} {t : TableId}
  {e : StoreError}

/-! ## One line -/

/-- A line opens the file of its table, or makes it, and adds the table.  The path of the file
is followed from a directory. -/
inductive LineAdds (directory : String) (s : Disk × Catalog) (line : List Char × Nat) :
    TableId → Disk × Catalog → Prop
  | intro {d : TableDefinition} {f : TableFile} {disk : Disk} {c : Catalog}
      (hd : TableDefinition.parse (Text.trim line.1) = .ok d)
      (ho : TableFile.openOrCreate s.1 (Path.join directory (d.name ++ ".dat")) d.schema
        s.2.pageSize = .ok (f, disk))
      (ha : s.2.add f d.name d.key = .ok c) : LineAdds directory s line f.table (disk, c)

/-- A line fails: it is malformed, or the file of its table cannot be opened or made. -/
inductive LineFails (directory : String) (s : Disk × Catalog) (line : List Char × Nat) :
    StoreError → Prop
  | malformed {fault : DefinitionFault}
      (h : TableDefinition.parse (Text.trim line.1) = .error fault) :
      LineFails directory s line (.schemaLine line.2 fault)
  | unopened {d : TableDefinition} {e : StoreError}
      (hd : TableDefinition.parse (Text.trim line.1) = .ok d)
      (h : TableFile.openOrCreate s.1 (Path.join directory (d.name ++ ".dat")) d.schema
        s.2.pageSize = .error e) : LineFails directory s line e

theorem loadLine_of_lineAdds (h : LineAdds directory s line t s') :
    s.2.loadLine s.1 directory line.2 line.1 = (.ok t, s') := by
  cases h with
  | intro hd ho ha =>
      rw [loadLine, hd]
      show s.2.openTable _ _ _ _ _ = _
      rw [openTable, ho]
      simp only [ha]

theorem loadLine_of_lineFails (h : LineFails directory s line e) :
    s.2.loadLine s.1 directory line.2 line.1 = (.error e, s) := by
  cases h with
  | malformed h => rw [loadLine, h]
  | unopened hd ho =>
      rw [loadLine, hd]
      show s.2.openTable _ _ _ _ _ = _
      rw [openTable, ho]

/-- A line adds its table, or fails.  A file that could be opened has the page size of the
catalog, so its table is not refused. -/
theorem lineAdds_or_lineFails (directory : String) (s : Disk × Catalog)
    (line : List Char × Nat) :
    (∃ t s', LineAdds directory s line t s') ∨ ∃ e, LineFails directory s line e := by
  cases hd : TableDefinition.parse (Text.trim line.1) with
  | error fault => exact .inr ⟨_, .malformed hd⟩
  | ok d =>
      cases ho : TableFile.openOrCreate s.1 (Path.join directory (d.name ++ ".dat")) d.schema
          s.2.pageSize with
      | error e => exact .inr ⟨e, .unopened hd ho⟩
      | ok r =>
          have hsize := (TableFile.openedAt_openOrCreate ho).pageSize_eq
          have ha := add_eq s.2 r.1 d.name d.key
          rw [if_neg (not_not_intro hsize)] at ha
          exact .inl ⟨_, _, .intro hd ho ha⟩

/-! ## Many lines -/

/-- Lines are taken one after another, and each adds its table. -/
inductive Loaded (directory : String) :
    Disk × Catalog → List (List Char × Nat) → List TableId → Disk × Catalog → Prop
  | nil (s : Disk × Catalog) : Loaded directory s [] [] s
  | cons {s s' s'' : Disk × Catalog} {line : List Char × Nat} {lines : List (List Char × Nat)}
      {t : TableId} {ts : List TableId} (h : LineAdds directory s line t s')
      (hrest : Loaded directory s' lines ts s'') :
      Loaded directory s (line :: lines) (t :: ts) s''

/-- Lines are taken one after another until one fails. -/
inductive Stopped (directory : String) :
    Disk × Catalog → List (List Char × Nat) → StoreError → Disk × Catalog → Prop
  | here {s : Disk × Catalog} {line : List Char × Nat} {lines : List (List Char × Nat)}
      {e : StoreError} (h : LineFails directory s line e) :
      Stopped directory s (line :: lines) e s
  | later {s s' s'' : Disk × Catalog} {line : List Char × Nat} {lines : List (List Char × Nat)}
      {t : TableId} {e : StoreError} (h : LineAdds directory s line t s')
      (hrest : Stopped directory s' lines e s'') :
      Stopped directory s (line :: lines) e s''

variable {lines done later : List (List Char × Nat)} {ts : List TableId}

theorem stopped_iff :
    Stopped directory s lines e s' ↔ ∃ done line later ts, lines = done ++ line :: later ∧
      Loaded directory s done ts s' ∧ LineFails directory s' line e := by
  constructor
  · intro h
    induction h with
    | here h => exact ⟨[], _, _, [], rfl, .nil _, h⟩
    | later h _ ih =>
        obtain ⟨done, line, later, ts, rfl, hdone, hf⟩ := ih
        exact ⟨_ :: done, line, later, _ :: ts, rfl, .cons h hdone, hf⟩
  · rintro ⟨done, line, later, ts, rfl, hdone, hf⟩
    induction hdone with
    | nil s => exact .here hf
    | cons h _ ih => exact .later h (ih hf)

/-- The lines that say something, in order, with their numbers from a number on. -/
def saidFrom (start : Nat) (lines : List (List Char)) : List (List Char × Nat) :=
  (lines.zipIdx start).filter fun line => !isSkipped line.1

theorem saidFrom_cons (start : Nat) (line : List Char) (lines : List (List Char)) :
    saidFrom start (line :: lines) =
      if isSkipped line then saidFrom (start + 1) lines
      else (line, start) :: saidFrom (start + 1) lines := by
  rw [saidFrom, List.zipIdx_cons, List.filter_cons]
  cases isSkipped line <;> rfl

/-- Comments and blank lines count, and a carriage return is a blank. -/
example : saidFrom 1 (Text.lines "# a\r\n \r\nt (a int)\r\n".toList) =
    [("t (a int)\r".toList, 3)] := by rfl

theorem loadLines_of_loaded {lines : List (List Char)} {start : Nat}
    (h : Loaded directory s (saidFrom start lines) ts s') :
    s.2.loadLines s.1 directory start lines = (.ok ts, s') := by
  induction lines generalizing s start ts with
  | nil =>
      cases h
      rfl
  | cons line lines ih =>
      rw [saidFrom_cons] at h
      rw [loadLines]
      split at h
      · rename_i hskip
        rw [if_pos hskip]
        exact ih h
      · rename_i hsaid
        cases h with
        | @cons _ s₁ _ _ _ _ _ hr hrest =>
            have hline : s.2.loadLine s.1 directory start line = (.ok _, s₁) :=
              loadLine_of_lineAdds hr
            have htail := ih hrest
            rw [if_neg hsaid, hline]
            simp only [htail]

theorem loadLines_of_stopped {lines : List (List Char)} {start : Nat}
    (h : Stopped directory s (saidFrom start lines) e s') :
    s.2.loadLines s.1 directory start lines = (.error e, s') := by
  induction lines generalizing s start with
  | nil => cases h
  | cons line lines ih =>
      rw [saidFrom_cons] at h
      rw [loadLines]
      split at h
      · rename_i hskip
        rw [if_pos hskip]
        exact ih h
      · rename_i hsaid
        rw [if_neg hsaid]
        cases h with
        | here hf =>
            have hline : s'.2.loadLine s'.1 directory start line = (.error e, s') :=
              loadLine_of_lineFails hf
            rw [hline]
        | @later _ s₁ _ _ _ _ _ hr hrest =>
            have hline : s.2.loadLine s.1 directory start line = (.ok _, s₁) :=
              loadLine_of_lineAdds hr
            have htail := ih hrest
            rw [hline]
            simp only [htail]

theorem loaded_or_stopped (directory : String) (s : Disk × Catalog)
    (lines : List (List Char × Nat)) :
    (∃ ts s', Loaded directory s lines ts s') ∨ ∃ e s', Stopped directory s lines e s' := by
  induction lines generalizing s with
  | nil => exact .inl ⟨[], s, .nil s⟩
  | cons line lines ih =>
      rcases lineAdds_or_lineFails directory s line with ⟨t, s', hr⟩ | ⟨e, hf⟩
      · rcases ih s' with ⟨ts, s'', hrest⟩ | ⟨e, s'', hrest⟩
        · exact .inl ⟨_, _, .cons hr hrest⟩
        · exact .inr ⟨_, _, .later hr hrest⟩
      · exact .inr ⟨_, _, .here hf⟩

theorem loadLines_eq_ok_iff {lines : List (List Char)} {start : Nat} :
    s.2.loadLines s.1 directory start lines = (.ok ts, s') ↔
      Loaded directory s (saidFrom start lines) ts s' := by
  refine ⟨fun h => ?_, loadLines_of_loaded⟩
  rcases loaded_or_stopped directory s (saidFrom start lines) with ⟨us, s'', hl⟩ | ⟨e, s'', hs⟩
  · cases (loadLines_of_loaded hl).symm.trans h
    exact hl
  · cases (loadLines_of_stopped hs).symm.trans h

theorem loadLines_eq_error_iff {lines : List (List Char)} {start : Nat} :
    s.2.loadLines s.1 directory start lines = (.error e, s') ↔
      Stopped directory s (saidFrom start lines) e s' := by
  refine ⟨fun h => ?_, loadLines_of_stopped⟩
  rcases loaded_or_stopped directory s (saidFrom start lines) with ⟨us, s'', hl⟩ | ⟨e', s'', hs⟩
  · cases (loadLines_of_loaded hl).symm.trans h
  · cases (loadLines_of_stopped hs).symm.trans h
    exact hs

/-! ## Registered tables -/

/-- A table goes by a name that leads from a directory to its file. -/
def Reached (directory : String) (s : Disk × Catalog) (t : TableId) : Prop :=
  ∃ n name, s.2.names[n]? = some t ∧
    s.1.target? (Path.join directory (n ++ ".dat")) = some name ∧ t = .ofPath (s.1.fullPath name)

/-- A name that is read is not empty, so it is taken as it is. -/
theorem chosenName_of_parse {text : List Char} {d : TableDefinition}
    (h : TableDefinition.parse text = .ok d) (t : TableId) : chosenName t d.name = d.name :=
  if_neg (TableDefinition.exists_layout_of_parse h).1.name_ne_empty

/-- What the catalog says about a table after its line. -/
structure Found (c : Catalog) (t : TableId) (d : TableDefinition) : Prop where
  name : c.idOf d.name = .ok t
  entry : ∃ f, c.entry t = .ok { name := d.name, key := d.key, file := f } ∧ f.schema = d.schema

/-- After its line a table is found by the name in it, with the key and the columns. -/
theorem LineAdds.found (h : LineAdds directory s line t s') (hn : s.2.Named) :
    ∃ d, TableDefinition.parse (Text.trim line.1) = .ok d ∧ s'.2.Found t d := by
  cases h with
  | @intro d f disk c hd ho ha =>
      obtain ⟨hname, hentry⟩ := (hn.takesIn f d.name d.key).found ha
      rw [chosenName_of_parse hd] at hname hentry
      exact ⟨d, hd, hname, f, hentry, (TableFile.openedAt_openOrCreate ho).schema_eq⟩

/-- What a line does keeps the tables that can be reached.  If it takes the name of one of them
it opens the same file, and so it adds the same table again. -/
theorem LineAdds.reached (h : LineAdds directory s line t s') (hn : s.2.Named) :
    s'.2.Named ∧ Reached directory s' t ∧ ∀ u, Reached directory s u → Reached directory s' u := by
  cases h with
  | @intro d f disk c hd ho ha =>
      have htable := (TableFile.table_of_openOrCreate ho).1
      obtain ⟨-, -, htarget, files, rfl⟩ := TableFile.openedAt_openOrCreate ho
      have hname := chosenName_of_parse hd f.table
      have hself : Reached directory ({ s.1 with files }, c) f.table :=
        ⟨d.name, f.name, (hn.names_add ha _ _).2 (.inl ⟨hname.symm, rfl⟩),
          Disk.target?_of_eq_some htarget files, htable⟩
      refine ⟨hn.add ha, hself, ?_⟩
      rintro u ⟨n, name, hnames, hu, rfl⟩
      by_cases hsame : TableId.ofPath (s.1.fullPath name) = f.table
      · rw [hsame]
        exact hself
      · refine ⟨n, name, (hn.names_add ha _ _).2 (.inr ⟨hsame, ?_, hnames⟩),
          Disk.target?_of_eq_some hu files, rfl⟩
        -- Under the same name there is the same file.
        rintro rfl
        rw [hname, htarget] at hu
        cases hu
        exact hsame htable.symm

theorem Loaded.reached (h : Loaded directory s lines ts s') (hn : s.2.Named) :
    s'.2.Named ∧ (∀ t ∈ ts, Reached directory s' t) ∧
      ∀ u, Reached directory s u → Reached directory s' u := by
  induction h with
  | nil s => exact ⟨hn, fun _ ht => absurd ht List.not_mem_nil, fun _ hu => hu⟩
  | cons hr _ ih =>
      obtain ⟨hn', ht, hu⟩ := hr.reached hn
      obtain ⟨hn'', hts, hu'⟩ := ih hn'
      exact ⟨hn'', List.forall_mem_cons.2 ⟨hu' _ ht, hts⟩, fun u h => hu' u (hu u h)⟩

theorem Named.entry_of_reached (hn : s.2.Named) (h : Reached directory s t) :
    ∃ entry, s.2.entry t = .ok entry := by
  obtain ⟨n, name, hnames, -⟩ := h
  obtain ⟨entry, hentry, -⟩ := hn.1 hnames
  exact ⟨entry, by rw [Catalog.entry, hentry]⟩

/-! ## Schema files -/

/-- What a load of lines comes to, from a disk and a catalog, for a schema file in a
directory. -/
structure Loads (directory : String) (s : Disk × Catalog) (lines : List (List Char × Nat))
    (r : Except StoreError (List TableId) × Disk × Catalog) : Prop where
  /-- It succeeds if every line adds its table, one after another. -/
  ok_iff (ts : List TableId) (s' : Disk × Catalog) : r = (.ok ts, s') ↔
    Loaded directory s lines ts s'
  /-- It fails at the first line that fails, and is left where the lines before it led. -/
  error_iff (e : StoreError) (s' : Disk × Catalog) :
    r = (.error e, s') ↔ ∃ done line later ts, lines = done ++ line :: later ∧
      Loaded directory s done ts s' ∧ LineFails directory s' line e
  /-- A malformed line is reported with its number, and no other failure is reported so. -/
  malformed_iff (n : Nat) (fault : DefinitionFault) (s' : Disk × Catalog) :
    r = (.error (.schemaLine n fault), s') ↔
      ∃ done line later ts, lines = done ++ (line, n) :: later ∧
        Loaded directory s done ts s' ∧ TableDefinition.parse (Text.trim line) = .error fault
  /-- A line that adds its table adds it under its name, with its key and its columns. -/
  found (done later : List (List Char × Nat)) (line : List Char × Nat) (ts : List TableId)
    (t : TableId) (s' s'' : Disk × Catalog) (h : lines = done ++ line :: later)
    (hdone : Loaded directory s done ts s') (hline : LineAdds directory s' line t s'') :
    ∃ d, TableDefinition.parse (Text.trim line.1) = .ok d ∧ s''.2.Found t d
  /-- Up to any line, there is one table for each line, and all of them are registered. -/
  registered (done later : List (List Char × Nat)) (ts : List TableId) (s' : Disk × Catalog)
    (h : lines = done ++ later) (hdone : Loaded directory s done ts s') :
    ts.length = done.length ∧ ∀ t ∈ ts, ∃ entry, s'.2.entry t = .ok entry

theorem Loaded.length_eq (h : Loaded directory s lines ts s') : ts.length = lines.length := by
  induction h with
  | nil => rfl
  | cons _ _ ih => exact congrArg Nat.succ ih

theorem lineFails_schemaLine_iff {n : Nat} {fault : DefinitionFault} :
    LineFails directory s line (.schemaLine n fault) ↔
      line.2 = n ∧ TableDefinition.parse (Text.trim line.1) = .error fault := by
  constructor
  · intro h
    cases h with
    | malformed h => exact ⟨rfl, h⟩
    | unopened _ h => exact absurd h TableFile.ne_schemaLine_of_openOrCreate
  · rintro ⟨rfl, h⟩
    exact .malformed h

theorem loads_loadLines (directory : String) (hn : s.2.Named) (lines : List (List Char)) :
    Loads directory s (saidFrom 1 lines) (s.2.loadLines s.1 directory 1 lines) where
  ok_iff _ _ := loadLines_eq_ok_iff
  error_iff _ _ := loadLines_eq_error_iff.trans stopped_iff
  malformed_iff n fault s' := by
    rw [loadLines_eq_error_iff, stopped_iff]
    constructor
    · rintro ⟨done, ⟨line, k⟩, later, ts, hlines, hdone, hf⟩
      obtain ⟨rfl, hparse⟩ := lineFails_schemaLine_iff.1 hf
      exact ⟨done, line, later, ts, hlines, hdone, hparse⟩
    · rintro ⟨done, line, later, ts, hlines, hdone, hparse⟩
      exact ⟨done, (line, n), later, ts, hlines, hdone, lineFails_schemaLine_iff.2 ⟨rfl, hparse⟩⟩
  found _ _ _ _ _ _ _ _ hdone hline := hline.found (hdone.reached hn).1
  registered _ _ _ _ _ hdone := by
    obtain ⟨hn', hts, -⟩ := hdone.reached hn
    exact ⟨hdone.length_eq, fun t ht => hn'.entry_of_reached (hts t ht)⟩

/-- A schema file with a table, a blank line and a malformed line. -/
def Small.text : String := "t (a int)\n\nbad\n"

/-- A directory with this file. -/
def Small.schemas : Disk where
  directory := "/d"
  files := Std.ExtTreeMap.insert ∅ "s" (.ofBytes (Utf8.encode Small.text))

end Catalog

end PagedStore
