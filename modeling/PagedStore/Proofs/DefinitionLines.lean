import Mathlib.Data.List.Forall2
import PagedStore.Catalog.Definition
import PagedStore.Proofs.TextParts

/-!
# The lines that define tables

A definition can be written in many ways: with any blanks around the words, with the type of
a column in any letter case, and with any text after the last closing parenthesis that has
none itself.  Such a choice is a layout (`Layout`), and it gives a line (`Layout.render`).
Which columns are marked is part of the layout, and the last of them has to be the key.

The names of a definition that can be written do not get in the way of the parentheses, the
commas and the blanks (`Writable`).  A line is read exactly if it is such a definition in
some layout, and then the definition is what is read (`parse_exact`).
-/

namespace PagedStore.TableDefinition

open Text

/-! ## Columns in a layout -/

/-- How a column is written. -/
structure ColumnLayout where
  /-- The blanks before the name. -/
  lead : List Char
  /-- The blanks between the name and the type. -/
  gap : List Char
  /-- The type as it is spelled. -/
  spelling : List Char
  /-- The blanks before the mark, if the column is marked as the key. -/
  mark : Option (List Char)
  /-- The blanks at the end. -/
  trail : List Char

/-- The mark of the key. -/
def keyMark : List Char := "pk".toList

namespace ColumnLayout

/-- What comes after the type. -/
def tail (l : ColumnLayout) : List Char :=
  match l.mark with
  | none => l.trail
  | some gap => gap ++ (keyMark ++ l.trail)

/-- The text of a column. -/
def render (l : ColumnLayout) (name : String) : List Char :=
  l.lead ++ (name.toList ++ (l.gap ++ (l.spelling ++ l.tail)))

/-- The layout has blanks where blanks belong, and spells the type. -/
structure Fits (l : ColumnLayout) (type : ColumnType) : Prop where
  lead : Blanks l.lead
  gap : Blanks l.gap
  gap_ne_nil : l.gap ≠ []
  spelling : String.ofList (l.spelling.map Char.toLower) = toString type
  mark : ∀ gap ∈ l.mark, Blanks gap ∧ gap ≠ []
  trail : Blanks l.trail

end ColumnLayout

/-! ## Words of a column -/

theorem isWord_keyMark : IsWord keyMark := by
  have hletters : (keyMark.all fun c => !isBlank c) = true := by decide
  refine ⟨by decide, fun c hc => ?_⟩
  simpa using List.all_eq_true.1 hletters c hc

theorem typeNamed_eq_ok_iff {word : List Char} {type : ColumnType} :
    typeNamed word = .ok type ↔ String.ofList (word.map Char.toLower) = toString type := by
  rw [typeNamed]
  constructor
  · intro h
    split at h
    · rename_i hint
      cases h
      exact hint
    · split at h
      · rename_i htext
        cases h
        exact htext
      · cases h
  · intro h
    rw [h]
    cases type <;> rfl

theorem isKey_eq_ok_iff {mark : Option (List Char)} {key : Bool} :
    isKey mark = .ok key ↔ mark = if key then some keyMark else none := by
  cases mark with
  | none => cases key <;> simp [isKey]
  | some word =>
      rw [isKey, ← keyMark]
      by_cases hw : word = keyMark
      · rw [if_pos hw]
        cases key <;> simp [hw]
      · rw [if_neg hw]
        cases key <;> simp [hw]

theorem describe_eq_ok_iff {name word : List Char} {mark : Option (List Char)}
    {column : String × ColumnType} {key : Bool} :
    describe name word mark = .ok (column, key) ↔
      String.ofList name = column.1 ∧ typeNamed word = .ok column.2 ∧ isKey mark = .ok key := by
  obtain ⟨title, type⟩ := column
  rw [describe]
  cases ht : typeNamed word with
  | error fault => simp
  | ok type' =>
      cases hk : isKey mark with
      | error fault => simp
      | ok key' => simp [and_assoc]

theorem lower_toString (type : ColumnType) :
    String.ofList ((toString type).toList.map Char.toLower) = toString type := by
  cases type <;> decide

theorem toLower_of_isBlank {c : Char} (h : isBlank c = true) : c.toLower = c := by
  refine dif_neg ?_
  rintro ⟨hA, hZ⟩
  have hA' : 65 ≤ c.toNat := UInt32.le_iff_toNat_le.1 hA
  have hZ' : c.toNat ≤ 90 := UInt32.le_iff_toNat_le.1 hZ
  simp [isBlank] at h
  omega

/-- The letters of a type are no blanks, and none is a comma. -/
theorem spelling_letters {word : List Char} {type : ColumnType}
    (h : String.ofList (word.map Char.toLower) = toString type) :
    IsWord word ∧ ',' ∉ word := by
  have hlower : word.map Char.toLower = (toString type).toList := by
    rw [← h, String.toList_ofList]
  have hletters : ((toString type).toList.all fun c => !isBlank c && c != ',') = true := by
    cases type <;> decide
  have hword : ∀ c ∈ word, isBlank c.toLower = false ∧ c.toLower ≠ ',' := fun c hc => by
    simpa using List.all_eq_true.1 hletters _ (hlower ▸ List.mem_map_of_mem hc)
  refine ⟨⟨?_, fun c hc => ?_⟩, fun hc => (hword _ hc).2 rfl⟩
  · rintro rfl
    cases type <;> cases hlower
  · rw [Bool.eq_false_iff]
    intro hb
    have hno := (hword c hc).1
    rw [toLower_of_isBlank hb, hb] at hno
    cases hno

/-! ## Reading a column -/

/-- The words after the type. -/
def markWords (key : Bool) : List (List Char) := if key then [keyMark] else []

theorem parseColumn_eq_ok_iff {text : List Char} {column : String × ColumnType} {key : Bool} :
    parseColumn text = .ok (column, key) ↔
      ∃ word, words text = column.1.toList :: word :: markWords key ∧
        typeNamed word = .ok column.2 := by
  rw [parseColumn]
  constructor
  · intro h
    split at h
    · rename_i name word hwords
      obtain ⟨hname, htype, hkey⟩ := describe_eq_ok_iff.1 h
      have hmark := isKey_eq_ok_iff.1 hkey
      rw [← hname, String.toList_ofList, hwords]
      cases key with
      | false => exact ⟨word, rfl, htype⟩
      | true => cases hmark
    · rename_i name word mark hwords
      obtain ⟨hname, htype, hkey⟩ := describe_eq_ok_iff.1 h
      have hmark := isKey_eq_ok_iff.1 hkey
      rw [← hname, String.toList_ofList, hwords]
      cases key with
      | false => cases hmark
      | true =>
          cases hmark
          exact ⟨word, rfl, htype⟩
    · cases h
  · rintro ⟨word, hwords, htype⟩
    have hname : String.ofList column.1.toList = column.1 := String.ofList_toList
    rw [hwords]
    cases key with
    | false => exact describe_eq_ok_iff.2 ⟨hname, htype, rfl⟩
    | true => exact describe_eq_ok_iff.2 ⟨hname, htype, isKey_eq_ok_iff.2 rfl⟩

theorem follows_tail {l : ColumnLayout} {type : ColumnType} (h : l.Fits type) :
    Follows (markWords l.mark.isSome) l.tail := by
  rw [ColumnLayout.tail]
  cases hm : l.mark with
  | none => exact .nil h.trail
  | some gap =>
      obtain ⟨hgap, hne⟩ := h.mark gap hm
      exact .cons hgap hne isWord_keyMark (.nil h.trail)

/-- What comes after the type has been laid out somehow. -/
theorem exists_tail {lead gap spelling rest : List Char} {type : ColumnType} {key : Bool}
    (hlead : Blanks lead) (hgap : Blanks gap) (hne : gap ≠ [])
    (hspelling : String.ofList (spelling.map Char.toLower) = toString type)
    (h : Follows (markWords key) rest) :
    ∃ mark trail, mark.isSome = key ∧ ColumnLayout.Fits ⟨lead, gap, spelling, mark, trail⟩ type ∧
      ColumnLayout.tail ⟨lead, gap, spelling, mark, trail⟩ = rest := by
  cases key with
  | false =>
      cases h with
      | nil htrail =>
          exact ⟨none, rest, rfl,
            ⟨hlead, hgap, hne, hspelling, fun _ hm => (Option.not_mem_none _ hm).elim, htrail⟩, rfl⟩
  | true =>
      cases h with
      | cons hgap' hne' hmark htrail =>
          rename_i gap' trail
          cases htrail with
          | nil htrail =>
              refine ⟨some gap', trail, rfl, ⟨hlead, hgap, hne, hspelling, ?_, htrail⟩, rfl⟩
              rintro g ⟨rfl⟩
              exact ⟨hgap', hne'⟩

/-- A column is read exactly if it is written in some layout. -/
theorem parseColumn_eq_ok_iff_render {text : List Char} {column : String × ColumnType}
    {key : Bool} :
    parseColumn text = .ok (column, key) ↔
      IsWord column.1.toList ∧ ∃ l : ColumnLayout, l.Fits column.2 ∧ l.mark.isSome = key ∧
        l.render column.1 = text := by
  rw [parseColumn_eq_ok_iff]
  constructor
  · rintro ⟨spelling, hwords, htype⟩
    obtain ⟨lead, rest, hlead, hname, hrest, rfl⟩ := words_eq_cons_iff.1 hwords
    cases hrest with
    | cons hgap hne _ hrest =>
        obtain ⟨mark, trail, hmark, hfits, rfl⟩ :=
          exists_tail hlead hgap hne (typeNamed_eq_ok_iff.1 htype) hrest
        exact ⟨hname, _, hfits, hmark, rfl⟩
  · rintro ⟨hname, l, hfits, rfl, rfl⟩
    refine ⟨l.spelling, words_eq_cons_iff.2 ⟨l.lead, _, hfits.lead, hname, ?_, rfl⟩,
      typeNamed_eq_ok_iff.2 hfits.spelling⟩
    exact .cons hfits.gap hfits.gap_ne_nil (spelling_letters hfits.spelling).1
      (follows_tail hfits)

theorem comma_mem_render_iff {l : ColumnLayout} {name : String} {type : ColumnType}
    (h : l.Fits type) : ',' ∈ l.render name ↔ ',' ∈ name.toList := by
  have hcomma : isBlank ',' = false := by decide
  have htail : ',' ∉ l.tail := by
    rw [ColumnLayout.tail]
    cases hm : l.mark with
    | none => exact not_mem_of_blanks h.trail hcomma
    | some gap =>
        have hgap := not_mem_of_blanks (h.mark gap hm).1 hcomma
        have htrail := not_mem_of_blanks h.trail hcomma
        have hmark : ',' ∉ keyMark := by decide
        simp [hgap, htrail, hmark]
  have hlead := not_mem_of_blanks h.lead hcomma
  have hgap := not_mem_of_blanks h.gap hcomma
  have hspelling := (spelling_letters h.spelling).2
  simp [ColumnLayout.render, hlead, hgap, hspelling, htail]

/-! ## Lists of columns -/

theorem parseColumns_eq_ok_iff {texts : List (List Char)}
    {columns : List ((String × ColumnType) × Bool)} :
    parseColumns texts = .ok columns ↔
      List.Forall₂ (fun text column => parseColumn text = .ok column) texts columns := by
  induction texts generalizing columns with
  | nil =>
      rw [parseColumns, List.forall₂_nil_left_iff, Except.ok.injEq, eq_comm]
  | cons text texts ih =>
      rw [parseColumns, List.forall₂_cons_left_iff]
      constructor
      · intro h
        split at h
        · cases h
        · rename_i column hcolumn
          split at h
          · cases h
          · rename_i columns' hcolumns
            cases h
            exact ⟨column, columns', hcolumn, ih.1 hcolumns, rfl⟩
      · rintro ⟨column, columns', hcolumn, hcolumns, rfl⟩
        rw [hcolumn, ih.2 hcolumns]

/-! ## Definitions in a layout -/

/-- The name of the last column that is marked. -/
def lastMarked (columns : List ((String × ColumnType) × Bool)) : Option String :=
  ((columns.filter Prod.snd).getLast?).map fun column => column.1.1

/-- How a definition is written. -/
structure Layout where
  /-- The blanks before the name. -/
  before : List Char
  /-- The blanks after the name. -/
  after : List Char
  /-- How each of the columns is written. -/
  columns : List ColumnLayout
  /-- What comes after the last parenthesis. -/
  rest : List Char

namespace Layout

/-- The texts of the columns. -/
def texts (l : Layout) (d : TableDefinition) : List (List Char) :=
  List.zipWith (fun c column => c.render column.1) l.columns d.columns

/-- The columns, and whether each of them is marked. -/
def marked (l : Layout) (d : TableDefinition) : List ((String × ColumnType) × Bool) :=
  List.zipWith (fun c column => (column, c.mark.isSome)) l.columns d.columns

/-- The line of a definition. -/
def render (l : Layout) (d : TableDefinition) : List Char :=
  l.before ++ d.name.toList ++ l.after ++
    '(' :: (List.intercalate [','] (l.texts d) ++ ')' :: l.rest)

/-- The layout is one for this definition: its columns are spelled as they should be, the
last that is marked is the key, and the rest has no closing parenthesis. -/
structure Fits (l : Layout) (d : TableDefinition) : Prop where
  before : Blanks l.before
  after : Blanks l.after
  columns : List.Forall₂ (fun c column => c.Fits column.2) l.columns d.columns
  key : lastMarked (l.marked d) = d.key
  rest : ')' ∉ l.rest

end Layout

/-- The names of a definition that can be written. -/
structure Writable (d : TableDefinition) : Prop where
  name_ne_empty : d.name ≠ ""
  name_trimmed : Trimmed d.name.toList
  name_open : '(' ∉ d.name.toList
  columns_ne_nil : d.columns ≠ []
  column_word : ∀ column ∈ d.columns, IsWord column.1.toList
  column_comma : ∀ column ∈ d.columns, ',' ∉ column.1.toList
  key : ∀ name ∈ d.key, ∃ column ∈ d.columns, column.1 = name

/-! ## Columns of a layout -/

variable {cs : List ColumnLayout} {columns : List (String × ColumnType)}

theorem parse_columns_of_fits
    (h : List.Forall₂ (fun c column => ColumnLayout.Fits c column.2) cs columns)
    (hwords : ∀ column ∈ columns, IsWord column.1.toList) :
    List.Forall₂ (fun text column => parseColumn text = .ok column)
      (List.zipWith (fun c column => ColumnLayout.render c column.1) cs columns)
      (List.zipWith (fun c column => (column, c.mark.isSome)) cs columns) := by
  induction h with
  | nil => exact .nil
  | @cons c column cs columns hfits _ ih =>
      refine .cons ?_ (ih fun column' hc => hwords column' (List.mem_cons_of_mem column hc))
      exact parseColumn_eq_ok_iff_render.2
        ⟨hwords column List.mem_cons_self, c, hfits, rfl, rfl⟩

theorem map_fst_of_fits
    (h : List.Forall₂ (fun c column => ColumnLayout.Fits c column.2) cs columns) :
    (List.zipWith (fun c column => (column, c.mark.isSome)) cs columns).map Prod.fst =
      columns := by
  induction h with
  | nil => rfl
  | cons _ _ ih => exact congrArg (List.cons _) ih

theorem exists_layouts {texts : List (List Char)} {marked : List ((String × ColumnType) × Bool)}
    (h : List.Forall₂ (fun text column => parseColumn text = .ok column) texts marked) :
    (∀ column ∈ marked.map Prod.fst, IsWord column.1.toList) ∧
      ∃ cs : List ColumnLayout,
        List.Forall₂ (fun c column => ColumnLayout.Fits c column.2) cs (marked.map Prod.fst) ∧
        List.zipWith (fun c column => ColumnLayout.render c column.1) cs (marked.map Prod.fst) =
          texts ∧
        List.zipWith (fun c column => (column, c.mark.isSome)) cs (marked.map Prod.fst) =
          marked := by
  induction h with
  | nil => exact ⟨fun _ hc => absurd hc List.not_mem_nil, [], .nil, rfl, rfl⟩
  | cons hcolumn _ ih =>
      obtain ⟨hwords, cs, hfits, hrender, hmarked⟩ := ih
      obtain ⟨hword, c, hc, hmark, htext⟩ := parseColumn_eq_ok_iff_render.1 hcolumn
      refine ⟨List.forall_mem_cons.2 ⟨hword, hwords⟩, c :: cs, .cons hc hfits, ?_, ?_⟩
      · exact congrArg₂ List.cons htext hrender
      · exact congrArg₂ List.cons (Prod.ext rfl hmark) hmarked

theorem no_comma_iff (h : List.Forall₂ (fun c column => ColumnLayout.Fits c column.2) cs columns) :
    (∀ text ∈ List.zipWith (fun c column => ColumnLayout.render c column.1) cs columns,
        ',' ∉ text) ↔
      ∀ column ∈ columns, ',' ∉ column.1.toList := by
  induction h with
  | nil =>
      exact ⟨fun _ _ hc => absurd hc List.not_mem_nil, fun _ _ hc => absurd hc List.not_mem_nil⟩
  | cons hfits _ ih =>
      rw [List.zipWith_cons_cons, List.forall_mem_cons, List.forall_mem_cons, ih,
        comma_mem_render_iff hfits]

theorem exists_of_lastMarked {marked : List ((String × ColumnType) × Bool)} {name : String}
    (h : lastMarked marked = some name) : ∃ column ∈ marked.map Prod.fst, column.1 = name := by
  obtain ⟨column, hlast, hname⟩ := Option.map_eq_some_iff.1 h
  have hmem := List.mem_filter.1 (List.mem_of_getLast? hlast)
  exact ⟨column.1, List.mem_map_of_mem hmem.1, hname⟩

/-! ## The parts of a line -/

theorem beforeLastClose_append {inner rest : List Char} (h : ')' ∉ rest) :
    beforeLastClose (inner ++ ')' :: rest) = inner := by
  have hrest : ∀ c ∈ rest.reverse, decide (c ≠ ')') = true := fun c hc =>
    decide_eq_true fun he => h (he ▸ List.mem_reverse.1 hc)
  rw [beforeLastClose, List.reverse_append, List.reverse_cons, List.append_assoc,
    List.dropWhile_append_of_pos hrest]
  simp

theorem exists_of_contains_close {text : List Char} (h : text.contains ')') :
    ∃ rest, ')' ∉ rest ∧ text = beforeLastClose text ++ ')' :: rest := by
  obtain ⟨inner, rest, htext, hrest⟩ := List.eq_append_cons_of_mem
    (List.mem_reverse.2 (List.contains_iff_mem.1 h))
  have hrev : text = rest.reverse ++ ')' :: inner.reverse := by
    rw [← text.reverse_reverse, htext]
    simp
  have hinner : ')' ∉ inner.reverse := fun hm => hrest (List.mem_reverse.1 hm)
  refine ⟨inner.reverse, hinner, ?_⟩
  rw [hrev, beforeLastClose_append hinner]

/-- What a line with an opening parenthesis says, after the parentheses are found. -/
def parseParts (front inner : List Char) : Except DefinitionFault TableDefinition :=
  if (trim front).isEmpty then .error .noName
  else
    match parseColumns (pieces (· == ',') inner) with
    | .error fault => .error fault
    | .ok columns =>
        .ok {
          name := String.ofList (trim front)
          columns := columns.map Prod.fst
          key := lastMarked columns }

theorem parse_of_no_open {line : List Char} (h : '(' ∉ line) : parse line = .error .noOpen := by
  have hnil : (line.dropWhile fun c => c ≠ '(') = [] :=
    List.dropWhile_eq_nil_iff.2 fun c hc => decide_eq_true fun he => h (he ▸ hc)
  rw [parse, hnil]

theorem span_open {front : List Char} (h : '(' ∉ front) (tail : List Char) :
    ((front ++ '(' :: tail).takeWhile fun c => c ≠ '(') = front ∧
      ((front ++ '(' :: tail).dropWhile fun c => c ≠ '(') = '(' :: tail := by
  have hfront : ∀ c ∈ front, decide (c ≠ '(') = true := fun c hc =>
    decide_eq_true fun he => h (he ▸ hc)
  refine ⟨?_, List.dropWhile_append_of_pos hfront⟩
  rw [List.takeWhile_append_of_pos hfront]
  exact List.append_nil front

theorem parse_of_no_close {front tail : List Char} (h : '(' ∉ front) (hclose : ')' ∉ tail)
    (d : TableDefinition) : parse (front ++ '(' :: tail) ≠ .ok d := by
  obtain ⟨-, hdrop⟩ := span_open h tail
  have htail : tail.contains ')' = false := by
    rw [Bool.eq_false_iff]
    exact fun hmem => hclose (List.contains_iff_mem.1 hmem)
  rw [parse, hdrop]
  intro hok
  simp only [htail] at hok
  split at hok <;> cases hok

theorem parse_of_parts {front inner rest : List Char} (h : '(' ∉ front) (hrest : ')' ∉ rest) :
    parse (front ++ '(' :: (inner ++ ')' :: rest)) = parseParts front inner := by
  obtain ⟨htake, hdrop⟩ := span_open h (inner ++ ')' :: rest)
  have hclose : (inner ++ ')' :: rest).contains ')' = true := by simp
  have hline : (front ++ '(' :: (inner ++ ')' :: rest)).contains ')' = true := by simp
  rw [parse, hdrop, htake]
  simp only [hclose, hline, not_true_eq_false, if_false]
  rw [beforeLastClose_append hrest]
  rfl

theorem parseParts_eq_ok_iff {front inner : List Char} {d : TableDefinition} :
    parseParts front inner = .ok d ↔
      trim front = d.name.toList ∧ d.name ≠ "" ∧ ∃ marked,
        parseColumns (pieces (· == ',') inner) = .ok marked ∧
        marked.map Prod.fst = d.columns ∧ lastMarked marked = d.key := by
  obtain ⟨name, columns, key⟩ := d
  rw [parseParts]
  constructor
  · intro h
    split at h
    · cases h
    · rename_i hname
      split at h
      · cases h
      · rename_i marked hmarked
        cases h
        refine ⟨String.toList_ofList.symm, fun he => hname ?_, marked, hmarked, rfl, rfl⟩
        rw [List.isEmpty_iff, ← String.toList_ofList (l := trim front)]
        exact String.toList_eq_nil_iff.2 he
  · rintro ⟨hname, hne, marked, hmarked, rfl, rfl⟩
    have hfront : ¬ (trim front).isEmpty = true := by
      rw [List.isEmpty_iff, hname, String.toList_eq_nil_iff]
      exact hne
    rw [if_neg hfront, hmarked, hname, String.ofList_toList]

/-- A line is read if it has a name, columns that can be read, and the parentheses for them. -/
theorem parse_eq_ok_iff_parts {line : List Char} {d : TableDefinition} :
    parse line = .ok d ↔
      ∃ front inner rest, '(' ∉ front ∧ ')' ∉ rest ∧
        line = front ++ '(' :: (inner ++ ')' :: rest) ∧ parseParts front inner = .ok d := by
  constructor
  · intro h
    by_cases hopen : '(' ∈ line
    · obtain ⟨front, tail, rfl, hfront⟩ := List.eq_append_cons_of_mem hopen
      by_cases hclose : ')' ∈ tail
      · obtain ⟨rest, hrest, htail⟩ :=
          exists_of_contains_close (List.contains_iff_mem.2 hclose)
        rw [htail, parse_of_parts hfront hrest] at h
        exact ⟨front, _, rest, hfront, hrest, by rw [← htail], h⟩
      · exact absurd h (parse_of_no_close hfront hclose d)
    · rw [parse_of_no_open hopen] at h
      cases h
  · rintro ⟨front, inner, rest, hfront, hrest, rfl, h⟩
    rw [parse_of_parts hfront hrest, h]

/-! ## Lines and layouts -/

/-- A definition that is written in a layout is read. -/
theorem parse_render {l : Layout} {d : TableDefinition} (hd : d.Writable) (h : l.Fits d) :
    parse (l.render d) = .ok d := by
  have hbefore := not_mem_of_blanks h.before (show isBlank '(' = false by decide)
  have hafter := not_mem_of_blanks h.after (show isBlank '(' = false by decide)
  have htexts : pieces (· == ',') (List.intercalate [','] (l.texts d)) = l.texts d := by
    refine pieces_eq_iff.2 ⟨?_, (no_comma_iff h.columns).2 hd.column_comma, rfl⟩
    obtain ⟨c, cs, hc⟩ := List.exists_cons_of_ne_nil hd.columns_ne_nil
    have hlength := h.columns.length_eq
    rw [Layout.texts, Ne, List.zipWith_eq_nil_iff, ← List.length_eq_zero_iff, hlength, hc]
    simp
  refine parse_eq_ok_iff_parts.2 ⟨l.before ++ d.name.toList ++ l.after,
    List.intercalate [','] (l.texts d), l.rest, by simp [hbefore, hafter, hd.name_open], h.rest,
    rfl, parseParts_eq_ok_iff.2 ⟨trim_append hd.name_trimmed h.before h.after,
      hd.name_ne_empty, l.marked d, ?_, ?_, h.key⟩⟩
  · rw [htexts]
    exact parseColumns_eq_ok_iff.2 (parse_columns_of_fits h.columns hd.column_word)
  · exact map_fst_of_fits h.columns

/-- A line that is read is written in some layout. -/
theorem exists_layout_of_parse {line : List Char} {d : TableDefinition}
    (h : parse line = .ok d) : d.Writable ∧ ∃ l : Layout, l.Fits d ∧ l.render d = line := by
  obtain ⟨front, inner, rest, hfront, hrest, rfl, hparts⟩ := parse_eq_ok_iff_parts.1 h
  obtain ⟨hname, hne, marked, hmarked, hcolumns, hkey⟩ := parseParts_eq_ok_iff.1 hparts
  obtain ⟨htrimmed, before, after, hbefore, hafter, rfl⟩ := trim_eq_iff.1 hname
  obtain ⟨hwords, cs, hfits, htexts, hmarks⟩ := exists_layouts (parseColumns_eq_ok_iff.1 hmarked)
  obtain ⟨hpieces, hcomma, hinner⟩ := pieces_eq_iff.1 rfl
  rw [hcolumns] at hwords hfits htexts hmarks
  rw [← htexts] at hpieces hcomma hinner
  rw [← hmarks] at hkey
  have hfront' : '(' ∉ d.name.toList := fun hmem => hfront (by simp [hmem])
  have hnil : d.columns ≠ [] := by
    intro hnil
    rw [hnil, List.zipWith_nil_right] at hpieces
    exact hpieces rfl
  refine ⟨⟨hne, htrimmed, hfront', hnil, hwords, (no_comma_iff hfits).1 hcomma, fun name hk => ?_⟩,
    ⟨before, after, cs, rest⟩, ⟨hbefore, hafter, hfits, hkey, hrest⟩, ?_⟩
  · obtain ⟨column, hmem, hcolumn⟩ := exists_of_lastMarked (hkey.trans hk)
    rw [map_fst_of_fits hfits] at hmem
    exact ⟨column, hmem, hcolumn⟩
  · rw [Layout.render, Layout.texts, hinner]

/-- A layout with a blank wherever one is needed, and with a mark at each column that has the
name of the key. -/
def plainLayout (d : TableDefinition) : Layout where
  before := []
  after := []
  columns := d.columns.map fun column => {
    lead := []
    gap := [' ']
    spelling := (toString column.2).toList
    mark := if d.key = some column.1 then some [' '] else none
    trail := [] }
  rest := []

theorem marked_plainLayout (d : TableDefinition) :
    d.plainLayout.marked d =
      d.columns.map fun column => (column, decide (d.key = some column.1)) := by
  rw [Layout.marked, plainLayout, List.zipWith_map_left, List.zipWith_self]
  refine List.map_congr_left fun column _ => ?_
  split
  · rename_i hk
    rw [decide_eq_true hk]
    rfl
  · rename_i hk
    rw [decide_eq_false hk]
    rfl

theorem lastMarked_plainLayout {d : TableDefinition} (h : d.Writable) :
    lastMarked (d.plainLayout.marked d) = d.key := by
  rw [marked_plainLayout]
  cases hk : d.key with
  | none => simp [lastMarked]
  | some name =>
      let marked := (d.columns.map fun column => (column, decide (some name = some column.1)))
      obtain ⟨column, hmem, rfl⟩ := h.key name hk
      have hfilter : marked.filter Prod.snd ≠ [] :=
        List.ne_nil_of_mem (List.mem_filter.2
          ⟨List.mem_map_of_mem hmem, decide_eq_true rfl⟩)
      have hlast := List.mem_filter.1 (List.getLast_mem hfilter)
      obtain ⟨column', -, hcolumn'⟩ := List.mem_map.1 hlast.1
      have hname : (some column.1 : Option String) = some column'.1 := by
        have hsnd := hlast.2
        rw [← hcolumn'] at hsnd
        exact of_decide_eq_true hsnd
      show ((marked.filter Prod.snd).getLast?).map (fun column => column.1.1) = some column.1
      rw [List.getLast?_eq_some_getLast hfilter, ← hcolumn', Option.map_some, hname]

/-- A definition that can be written has a layout. -/
theorem Writable.fits_plainLayout {d : TableDefinition} (h : d.Writable) :
    d.plainLayout.Fits d where
  before := blanks_nil
  after := blanks_nil
  columns := by
    rw [plainLayout, List.forall₂_map_left_iff, List.forall₂_same]
    intro column _
    have hgap : Blanks [' '] := by
      intro c hc
      rw [List.mem_singleton.1 hc]
      decide
    refine ⟨blanks_nil, hgap, List.cons_ne_nil _ _, lower_toString column.2, ?_, blanks_nil⟩
    intro gap hm
    rw [Option.mem_def, Option.ite_none_right_eq_some, Option.some_inj] at hm
    rw [← hm.2]
    exact ⟨hgap, List.cons_ne_nil _ _⟩
  key := lastMarked_plainLayout h
  rest := List.not_mem_nil

/-- A line is read exactly if it is a definition that can be written, in some layout. -/
theorem parse_exact (d : TableDefinition) :
    (∀ line, parse line = .ok d ↔ d.Writable ∧ ∃ l : Layout, l.Fits d ∧ l.render d = line) ∧
      (d.Writable → ∃ l : Layout, l.Fits d) := by
  refine ⟨fun line => ⟨exists_layout_of_parse, ?_⟩, fun hd => ⟨d.plainLayout, hd.fits_plainLayout⟩⟩
  rintro ⟨hd, l, hl, rfl⟩
  exact parse_render hd hl

/-- A definition whose names have parentheses in them. -/
def Small.odd : TableDefinition where
  name := "a) b"
  columns := [("x(", .int), (")y", .text)]
  key := some ")y"

/-- Only the first opening and the last closing parenthesis count. -/
theorem parse_exact_small :
    Small.odd.Writable ∧ ∃ l : Layout, l.Fits Small.odd ∧
      l.render Small.odd = "a) b (x( Int,\t)y STRING pk ) (c".toList :=
  ((parse_exact Small.odd).1 _).1 (by rfl)

end PagedStore.TableDefinition
