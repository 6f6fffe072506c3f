import PagedStore.Disk
import PagedStore.Proofs.TextParts

/-!
# The directory of a path

A path that leads to a file goes through its parts but the last, and comes to the directory of
the file.  `Path.parent` leaves out the last part and the dots and slashes before it, and these
lead nowhere else.  So a name that is put behind it is looked up in the directory of the file,
whether the path starts at the root or in the home (`Disk.place_join_parent`).

What a path is cut into says all about it (`Path.isAbsolute_iff`, `Path.mem_iff`), so the
argument is about the pieces of a path: those before the last one, without the idle ones at
their end, and then the name (`Path.parts_join_parent`).
-/

namespace PagedStore

namespace Path

/-! ## Pieces -/

/-- A path is its pieces with slashes between them. -/
theorem pieces_eq_iff {path : String} {texts : List (List Char)} :
    pieces path = texts ↔
      texts ≠ [] ∧ (∀ piece ∈ texts, '/' ∉ piece) ∧ List.intercalate ['/'] texts = path.toList :=
  Text.pieces_eq_iff

theorem slash_not_mem {path : String} {piece : List Char} (h : piece ∈ pieces path) :
    '/' ∉ piece :=
  (pieces_eq_iff.1 rfl).2.1 piece h

theorem intercalate_concat {texts : List (List Char)} (h : texts ≠ []) (last : List Char) :
    List.intercalate ['/'] (texts ++ [last]) = List.intercalate ['/'] texts ++ '/' :: last := by
  induction texts with
  | nil => exact absurd rfl h
  | cons text texts ih =>
      cases texts with
      | nil => simp [List.intercalate]
      | cons next texts =>
          have hne : next :: texts ≠ [] := List.cons_ne_nil _ _
          have htail := ih hne
          simp only [List.intercalate, List.cons_append, List.intersperse_cons_cons,
            List.flatten_cons] at htail ⊢
          rw [htail]
          simp

/-- The first piece of a path from the root is empty, and it is not the only one. -/
theorem isAbsolute_iff {path : String} {first : List Char} {rest : List (List Char)}
    (h : pieces path = first :: rest) : isAbsolute path = true ↔ first = [] ∧ rest ≠ [] := by
  obtain ⟨-, hslash, htext⟩ := pieces_eq_iff.1 h
  rw [isAbsolute, decide_eq_true_eq, ← htext]
  have hfirst : '/' ∉ first := hslash first List.mem_cons_self
  cases first with
  | nil =>
      cases rest with
      | nil => simp [List.intercalate]
      | cons next rest => simp [List.intercalate]
  | cons c cs =>
      have hc : c ≠ '/' := fun he => hfirst (he ▸ List.mem_cons_self)
      cases rest with
      | nil => simp [List.intercalate, hc]
      | cons next rest => simp [List.intercalate, hc]

/-- A path has the characters of its pieces, and slashes. -/
theorem mem_iff {path : String} {c : Char} (hc : c ≠ '/') :
    c ∈ path.toList ↔ ∃ piece ∈ pieces path, c ∈ piece := by
  obtain ⟨-, -, htext⟩ := pieces_eq_iff.1 (rfl : pieces path = pieces path)
  rw [← htext]
  induction pieces path with
  | nil => simp [List.intercalate]
  | cons text texts ih =>
      cases texts with
      | nil => simp [List.intercalate]
      | cons next texts =>
          simp only [List.intercalate, List.intersperse_cons_cons, List.flatten_cons] at ih ⊢
          rw [List.mem_append, List.mem_append, List.mem_singleton, ih]
          simp [hc]

theorem named_append (texts more : List (List Char)) :
    named (texts ++ more) = named texts ++ named more := by
  rw [named, List.filter_append, List.map_append]
  rfl

/-- Idle pieces are empty or dots. -/
theorem eq_dot_of_mem_named {texts : List (List Char)} (h : ∀ text ∈ texts, isIdle text = true)
    {part : String} (hp : part ∈ named texts) : part = "." := by
  obtain ⟨text, htext, rfl⟩ := List.mem_map.1 hp
  obtain ⟨hmem, hne⟩ := List.mem_filter.1 htext
  have hidle := h text hmem
  rw [isIdle, Bool.or_eq_true, decide_eq_true_eq] at hidle
  rcases hidle with hempty | rfl
  · rw [hempty] at hne
    cases hne
  · rfl

/-! ## The pieces before the last one -/

theorem trimIdle_concat {texts : List (List Char)} {last : List Char}
    (h : isIdle last = false) : trimIdle (texts ++ [last]) = texts ++ [last] :=
  List.rdropWhile_concat_neg _ _ _ (Bool.eq_false_iff.1 h)

theorem exists_eq_trimIdle_append (texts : List (List Char)) :
    ∃ idle, (∀ text ∈ idle, isIdle text = true) ∧ texts = trimIdle texts ++ idle :=
  ⟨texts.rtakeWhile isIdle, fun _ h => List.mem_rtakeWhile_imp h,
    List.rdropWhile_append_rtakeWhile.symm⟩

variable {path name : String} {before : List (List Char)} {last : List Char}

/-- The parent of a path is the path of its pieces but the last. -/
theorem parent_eq (hp : pieces path = before ++ [last]) (hl : isIdle last = false) :
    parent path =
      if trimIdle before = [] then if isAbsolute path then "/" else ""
      else String.ofList (List.intercalate ['/'] (trimIdle before)) := by
  rw [parent, hp, trimIdle_concat hl, List.dropLast_concat]

theorem pieces_parent (hp : pieces path = before ++ [last]) (hl : isIdle last = false)
    (hb : trimIdle before ≠ []) : pieces (parent path) = trimIdle before := by
  obtain ⟨idle, -, hsplit⟩ := exists_eq_trimIdle_append before
  refine pieces_eq_iff.2 ⟨hb, fun piece hpiece => ?_, ?_⟩
  · have hmem : piece ∈ pieces path := by
      rw [hp, hsplit]
      exact List.mem_append_left _ (List.mem_append_left _ hpiece)
    exact slash_not_mem hmem
  · rw [parent_eq hp hl, if_neg hb, String.toList_ofList]

/-- The last piece of a parent is not idle, so it is not empty. -/
theorem endsInSlash_parent (hp : pieces path = before ++ [last]) (hl : isIdle last = false)
    (hb : trimIdle before ≠ []) : endsInSlash (parent path) = false := by
  have hlast : isIdle ((trimIdle before).getLast hb) ≠ true := List.rdropWhile_last_not isIdle _ hb
  rw [endsInSlash, pieces_parent hp hl hb, decide_eq_false_iff_not,
    List.getLast?_eq_some_getLast hb]
  intro he
  rw [Option.some.inj he] at hlast
  exact hlast rfl

/-- The pieces of a path behind whose parent a name is put. -/
theorem pieces_join_parent (hp : pieces path = before ++ [last]) (hl : isIdle last = false)
    (hn : '/' ∉ name.toList) :
    pieces (join (parent path) name) =
      if trimIdle before = [] ∧ isAbsolute path = true then [[], name.toList]
      else trimIdle before ++ [name.toList] := by
  have hname : isAbsolute name = false := by
    rw [isAbsolute, decide_eq_false_iff_not]
    exact fun hhead => hn (List.mem_of_head? hhead)
  rw [join, hname, if_neg Bool.false_ne_true]
  by_cases hb : trimIdle before = []
  · rw [parent_eq hp hl, if_pos hb, hb]
    cases isAbsolute path with
    | true =>
        have hends : endsInSlash "/" = true := by decide +kernel
        rw [if_pos rfl, hends, if_pos rfl, if_pos ⟨rfl, rfl⟩, pieces_eq_iff]
        exact ⟨List.cons_ne_nil _ _, by simp [hn], by simp [List.intercalate]⟩
    | false =>
        have hends : endsInSlash "" = true := by decide +kernel
        rw [if_neg Bool.false_ne_true, hends, if_pos rfl, if_neg (by simp), pieces_eq_iff]
        exact ⟨List.cons_ne_nil _ _, by simp [hn], by simp [List.intercalate]⟩
  · obtain ⟨-, hslash, htext⟩ := pieces_eq_iff.1 (pieces_parent hp hl hb)
    rw [endsInSlash_parent hp hl hb, if_neg Bool.false_ne_true, if_neg fun h => hb h.1,
      pieces_eq_iff]
    refine ⟨by simp, fun piece hpiece => ?_, ?_⟩
    · rcases List.mem_append.1 hpiece with hpiece | hpiece
      · exact hslash piece hpiece
      · rw [List.mem_singleton.1 hpiece]
        exact hn
    · rw [intercalate_concat hb, htext]
      simp

theorem parts_join_parent (hp : pieces path = before ++ [last]) (hl : isIdle last = false)
    (hn : '/' ∉ name.toList) (hne : name ≠ "") :
    parts (join (parent path) name) = named (trimIdle before) ++ [name] := by
  have hname : named [name.toList] = [name] := by
    have hlist : name.toList.isEmpty = false := by simpa using hne
    simp [named, hlist]
  rw [parts, pieces_join_parent hp hl hn]
  split
  · rename_i h
    rw [h.1]
    exact hname
  · rw [named_append, hname]

theorem endsInSlash_join_parent (hp : pieces path = before ++ [last]) (hl : isIdle last = false)
    (hn : '/' ∉ name.toList) (hne : name ≠ "") : endsInSlash (join (parent path) name) = false := by
  rw [endsInSlash, pieces_join_parent hp hl hn, decide_eq_false_iff_not]
  split <;> simpa using hne

/-- Behind the parent of a path a name brings no characters but its own. -/
theorem not_mem_join_parent (hp : pieces path = before ++ [last]) (hl : isIdle last = false)
    (hn : '/' ∉ name.toList) {c : Char} (hc : c ≠ '/') (hpath : c ∉ path.toList)
    (hname : c ∉ name.toList) : c ∉ (join (parent path) name).toList := by
  obtain ⟨idle, -, hsplit⟩ := exists_eq_trimIdle_append before
  rw [mem_iff hc] at hpath ⊢
  rw [pieces_join_parent hp hl hn]
  rintro ⟨piece, hpiece, hmem⟩
  split at hpiece
  · rcases List.mem_cons.1 hpiece with rfl | hpiece
    · exact List.not_mem_nil hmem
    · rw [List.mem_singleton.1 hpiece] at hmem
      exact hname hmem
  · rcases List.mem_append.1 hpiece with hpiece | hpiece
    · refine hpath ⟨piece, ?_, hmem⟩
      rw [hp, hsplit]
      exact List.mem_append_left _ (List.mem_append_left _ hpiece)
    · rw [List.mem_singleton.1 hpiece] at hmem
      exact hname hmem

/-- The parent of a path starts where the path starts. -/
theorem isAbsolute_join_parent (hp : pieces path = before ++ [last]) (hl : isIdle last = false)
    (hn : '/' ∉ name.toList) : isAbsolute (join (parent path) name) = isAbsolute path := by
  have hpieces := pieces_join_parent hp hl hn
  rw [Bool.eq_iff_iff]
  cases hb : trimIdle before with
  | nil =>
      by_cases habs : isAbsolute path = true
      · rw [if_pos ⟨hb, habs⟩] at hpieces
        rw [isAbsolute_iff hpieces]
        exact iff_of_true ⟨rfl, List.cons_ne_nil _ _⟩ habs
      · rw [if_neg fun h => habs h.2, hb] at hpieces
        rw [isAbsolute_iff hpieces]
        exact iff_of_false (fun h => h.2 rfl) habs
  | cons text texts =>
      obtain ⟨idle, -, hsplit⟩ := exists_eq_trimIdle_append before
      rw [hsplit, hb] at hp
      rw [if_neg fun h => List.cons_ne_nil _ _ (hb.symm.trans h.1), hb] at hpieces
      rw [isAbsolute_iff hpieces, isAbsolute_iff hp]
      simp

/-! ## Following -/

variable {isDirectory : List String → Bool} {isFile : List String → String → Bool}
  {slash slash' : Bool} {directory directory' : List String} {part part' : String}

theorem follow_cons {parts : List String} (h : parts ≠ []) :
    follow isDirectory isFile slash directory (part :: parts) =
      match enter isDirectory isFile directory part with
      | .error fault => .error fault
      | .ok directory => follow isDirectory isFile slash directory parts := by
  cases parts with
  | nil => exact absurd rfl h
  | cons next rest => rfl

theorem arrive_eq_entry
    (h : arrive isDirectory slash directory part = .entry directory' part' slash') :
    directory = directory' ∧ part = part' ∧ slash = slash' ∧ part ≠ "." := by
  rw [arrive] at h
  split at h
  · cases h
  · rename_i hdots
    split at h
    · cases h
    · cases h
      exact ⟨rfl, rfl, rfl, fun hdot => hdots (by simp [hdot])⟩

/-- A path that leads to an entry ends in its name. -/
theorem follow_eq_entry {parts : List String}
    (h : follow isDirectory isFile slash directory parts = .ok (.entry directory' part' slash')) :
    slash = slash' ∧ part' ≠ "." ∧ ∃ front, parts = front ++ [part'] := by
  fun_induction follow isDirectory isFile slash directory parts with
  | case1 => cases h
  | case2 directory part =>
      obtain ⟨-, rfl, hslash, hdot⟩ := arrive_eq_entry (Except.ok.inj h)
      exact ⟨hslash, hdot, [], rfl⟩
  | case3 => cases h
  | case4 directory part next rest directory'' he ih =>
      obtain ⟨hslash, hdot, front, hfront⟩ := ih h
      exact ⟨hslash, hdot, part :: front, by rw [hfront]; rfl⟩

/-- The last piece of a path that ends in a name is that name. -/
theorem exists_pieces_concat {front : List String} (hends : endsInSlash path = false)
    (hparts : parts path = front ++ [part]) (hdot : part ≠ ".") :
    ∃ before last, pieces path = before ++ [last] ∧ isIdle last = false ∧
      parts path = named before ++ [String.ofList last] := by
  obtain ⟨before, last, hp⟩ : ∃ before last, pieces path = before ++ [last] :=
    ⟨_, _, (List.dropLast_append_getLast (Text.pieces_ne_nil _ _)).symm⟩
  have hlast : last ≠ [] := by
    rintro rfl
    rw [endsInSlash, hp, List.getLast?_concat] at hends
    cases hends
  have hnamed : named [last] = [String.ofList last] := by
    simp [named, hlast]
  have hnames : parts path = named before ++ [String.ofList last] := by
    rw [parts, hp, named_append, hnamed]
  refine ⟨before, last, hp, ?_, hnames⟩
  obtain ⟨-, hname⟩ := List.append_inj' (hparts.symm.trans hnames) rfl
  rw [isIdle, Bool.or_eq_false_iff, decide_eq_false_iff_not]
  refine ⟨by simpa using hlast, ?_⟩
  rintro rfl
  exact hdot (List.singleton_inj.1 hname)

/-- Another last part is looked up in the same directory, and dots before it lead nowhere. -/
theorem follow_of_entry {front dots : List String} (hdots : ∀ dot ∈ dots, dot = ".")
    (h : follow isDirectory isFile slash directory (front ++ dots ++ [part]) =
      .ok (.entry directory' part' slash')) (again : Bool) (other : String) :
    follow isDirectory isFile again directory (front ++ [other]) =
      .ok (arrive isDirectory again directory' other) := by
  induction front generalizing directory with
  | nil =>
      induction dots with
      | nil =>
          obtain ⟨rfl, -⟩ := arrive_eq_entry (Except.ok.inj h)
          rfl
      | cons dot dots ih =>
          obtain rfl := hdots dot List.mem_cons_self
          refine ih (fun dot hdot => hdots dot (List.mem_cons_of_mem _ hdot)) ?_
          rwa [List.nil_append, List.cons_append, follow_cons (by simp)] at h
  | cons first front ih =>
      rw [List.cons_append, List.cons_append, follow_cons (by simp)] at h
      rw [List.cons_append, follow_cons (by simp)]
      split at h
      · cases h
      · exact ih h

end Path

/-! ## On the disk -/

namespace Disk

variable {d : Disk} {path name file : String} {directory : List String}

theorem place_eq_ok_iff {p : Place} :
    d.place path = .ok p ↔ '\x00' ∉ path.toList ∧
      (d.fullPath path).utf8ByteSize ≤ Path.lengthLimit ∧
      Path.follow d.isDirectory d.isFile (Path.endsInSlash path)
        (if Path.isAbsolute path then [] else d.home) (Path.parts path) = .ok p := by
  rw [place]
  split
  · rename_i hzero
    simp only [reduceCtorEq, false_iff]
    exact fun h => h.1 (List.contains_iff_mem.1 hzero)
  · rename_i hzero
    rw [List.contains_iff_mem] at hzero
    split
    · rename_i hlong
      simp only [reduceCtorEq, false_iff]
      exact fun h => absurd h.2.1 (Nat.not_le.2 hlong)
    · rename_i hlong
      exact ⟨fun h => ⟨hzero, Nat.not_lt.1 hlong, h⟩, fun h => h.2.2⟩

/-- A name behind the parent of a path that leads to a file is looked up in the directory of
that file. -/
theorem place_join_parent (h : d.place path = .ok (.entry directory file false))
    (hslash : '/' ∉ name.toList) (hzero : '\x00' ∉ name.toList) (hne : name ≠ "")
    (hlength : (d.fullPath (Path.join (Path.parent path) name)).utf8ByteSize ≤ Path.lengthLimit) :
    d.place (Path.join (Path.parent path) name) =
      .ok (Path.arrive d.isDirectory false directory name) := by
  obtain ⟨hpath, -, hfollow⟩ := place_eq_ok_iff.1 h
  obtain ⟨hends, hdot, front, hfront⟩ := Path.follow_eq_entry hfollow
  obtain ⟨before, last, hp, hl, hparts⟩ := Path.exists_pieces_concat hends hfront hdot
  obtain ⟨idle, hidle, hsplit⟩ := Path.exists_eq_trimIdle_append before
  refine place_eq_ok_iff.2 ⟨?_, hlength, ?_⟩
  · exact Path.not_mem_join_parent hp hl hslash (by decide) hpath hzero
  · rw [hparts, hsplit, Path.named_append] at hfollow
    rw [Path.isAbsolute_join_parent hp hl hslash, Path.parts_join_parent hp hl hslash hne,
      Path.endsInSlash_join_parent hp hl hslash hne]
    exact Path.follow_of_entry (fun dot hdot => Path.eq_dot_of_mem_named hidle hdot) hfollow _ _

end Disk

end PagedStore
