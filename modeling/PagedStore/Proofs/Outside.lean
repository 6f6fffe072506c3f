import PagedStore.Proofs.StoreView

/-!
# Outside the pages

Two disks are the *same outside the pages* of a catalog if they differ in the images of pages
only (`Disk.SameOutside`): they have the same files, of the same lengths, a file of a table
ends with the same bytes after its last whole page, and any other file holds the same.

Writing the image of a page that lies inside its file changes nothing outside the pages, and
putting a page at the end of one file on both disks keeps them the same.  If the images of
all pages are the same too, so are the disks (`Store.disk_eq`).
-/

namespace PagedStore

open Std (ExtTreeMap)

/-! ## One file -/

namespace TableFile

variable {f : TableFile} {data data' data'' : Bytes}

/-- The contents have the same length, and end with the same bytes after the last whole
page. -/
structure SameTail (f : TableFile) (data data' : Bytes) : Prop where
  length : data'.length = data.length
  tail : ∀ i, data.length / f.pageSize * f.pageSize ≤ i → data'[i]? = data[i]?

namespace SameTail

theorem refl (f : TableFile) (data : Bytes) : f.SameTail data data := ⟨rfl, fun _ _ => rfl⟩

theorem symm (h : f.SameTail data data') : f.SameTail data' data :=
  ⟨h.length.symm, fun i hi => (h.tail i (h.length ▸ hi)).symm⟩

theorem trans (h : f.SameTail data data') (h' : f.SameTail data' data'') : f.SameTail data data'' :=
  ⟨h'.length.trans h.length, fun i hi => (h'.tail i (by rwa [h.length])).trans (h.tail i hi)⟩

/-- Writing a page that is there changes no byte after the last whole page. -/
theorem of_writeImage {id : PageId} {image old : Bytes}
    (h : f.writeImage data id image = .ok data') (ho : f.image? data id.number = some old) :
    f.SameTail data data' := by
  refine ⟨length_of_writeImage h ho, fun i hi => ?_⟩
  obtain ⟨-, hl, hc, rfl⟩ := writeImage_eq_ok h
  have hin : (id.number + 1) * f.pageSize ≤ data.length := by
    rw [image?] at ho
    split at ho
    · rwa [Nat.succ_mul]
    · cases ho
  have hpages : id.number + 1 ≤ data.length / f.pageSize :=
    (Nat.le_div_iff_mul_le f.pageSize_pos).2 hin
  have hend : (id.number + 1) * f.pageSize ≤ i :=
    Nat.le_trans (Nat.mul_le_mul_right _ hpages) hi
  refine Bytes.getElem?_overwrite_of_ge (mul_pageSize_le hc) ?_
  rwa [hl, ← Nat.succ_mul]

/-- After a page is put at the end there are no bytes after the last whole page. -/
theorem append (h : f.SameTail data data') (hn : f.Numbered data) :
    f.SameTail (f.append data).2 (f.append data').2 := by
  have hcount : f.pageCount data' = f.pageCount data := by rw [pageCount, pageCount, h.length]
  have hn' : f.Numbered data' := by rwa [Numbered, h.length]
  refine ⟨by rw [length_append hn, length_append hn', hcount], fun i hi => ?_⟩
  rw [length_append hn, Nat.mul_div_cancel _ f.pageSize_pos] at hi
  rw [List.getElem?_eq_none (by rw [length_append hn', hcount]; exact hi),
    List.getElem?_eq_none (by rw [length_append hn]; exact hi)]

/-- Contents with the same images are the same. -/
theorem eq (h : f.SameTail data data') (hi : ∀ n, f.image? data' n = f.image? data n) :
    data' = data := by
  refine List.ext_getElem? fun i => ?_
  by_cases htail : data.length / f.pageSize * f.pageSize ≤ i
  · exact h.tail i htail
  · -- The byte lies in a page, and both pages are the same.
    have hp := f.pageSize_pos
    have hmod : i % f.pageSize < f.pageSize := Nat.mod_lt _ hp
    have hdiv : i / f.pageSize * f.pageSize + i % f.pageSize = i := Nat.div_add_mod' _ _
    have hpage : i / f.pageSize + 1 ≤ data.length / f.pageSize :=
      (Nat.div_lt_iff_lt_mul hp).2 (Nat.lt_of_not_le htail)
    have hin : i / f.pageSize * f.pageSize + f.pageSize ≤ data.length := by
      rw [← Nat.succ_mul]
      exact (Nat.le_div_iff_mul_le hp).1 hpage
    have himage := hi (i / f.pageSize)
    rw [image?, image?, h.length, if_pos hin, if_pos hin] at himage
    have hbyte := congrArg (fun b : Bytes => b[i % f.pageSize]?) (Option.some.inj himage)
    simp only [List.getElem?_take_of_lt hmod, List.getElem?_drop, hdiv] at hbyte
    exact hbyte

end SameTail

end TableFile

/-! ## A disk -/

namespace Disk

variable {c : Catalog} {d d' d'' : Disk}

/-- The disks differ in the images of pages only. -/
structure SameOutside (d : Disk) (c : Catalog) (d' : Disk) : Prop where
  directory : d'.directory = d.directory
  directories : d'.directories = d.directories
  names : ∀ name, d'.files.contains name = d.files.contains name
  /-- The file of a table has the same length, and the same bytes at its end. -/
  tails : ∀ {t f}, c.file t = .ok f → f.SameTail (d.contents f) (d'.contents f)
  /-- Any other file is the same. -/
  others : ∀ {name}, (∀ {t f}, c.file t = .ok f → f.name ≠ name) →
    d'.bytes name = d.bytes name

namespace SameOutside

theorem refl (d : Disk) (c : Catalog) : d.SameOutside c d :=
  ⟨rfl, rfl, fun _ => rfl, fun _ => .refl _ _, fun _ => rfl⟩

theorem symm (h : d.SameOutside c d') : d'.SameOutside c d :=
  ⟨h.directory.symm, h.directories.symm, fun name => (h.names name).symm,
    fun hf => (h.tails hf).symm, fun hn => (h.others hn).symm⟩

theorem trans (h : d.SameOutside c d') (h' : d'.SameOutside c d'') : d.SameOutside c d'' :=
  ⟨h'.directory.trans h.directory, h'.directories.trans h.directories,
    fun name => (h'.names name).trans (h.names name), fun hf => (h.tails hf).trans (h'.tails hf),
    fun hn => (h'.others hn).trans (h.others hn)⟩

/-- All files have the same lengths. -/
theorem sameLengths (h : d.SameOutside c d') : d.SameLengths d' := by
  intro name
  by_cases hn : ∃ t f, c.file t = .ok f ∧ f.name = name
  · obtain ⟨t, f, hf, rfl⟩ := hn
    exact (h.tails hf).length
  · exact congrArg List.length (h.others fun hf hname => hn ⟨_, _, hf, hname⟩)

theorem pageCount_eq (h : d.SameOutside c d') (f : TableFile) : d'.pageCount f = d.pageCount f :=
  h.sameLengths.pageCount_eq f

end SameOutside

/-- A file that holds something is there. -/
theorem contains_of_contents_ne_nil {f : TableFile} (h : d.contents f ≠ []) :
    d.files.contains f.name = true := by
  by_contra hn
  rw [contents, bytes, ExtTreeMap.getD_eq_fallback (by simpa using hn)] at h
  exact h rfl

/-- Writing a page that lies inside its file changes nothing outside the pages. -/
theorem sameOutside_writeImage (hs : c.Sound) {f : TableFile} {id : PageId} {image old : Bytes}
    (hf : c.file id.table = .ok f) (hw : d.writeImage f id image = .ok d')
    (ho : f.image? (d.contents f) id.number = some old) : d.SameOutside c d' := by
  obtain ⟨data, hdata, rfl⟩ := writeImage_eq_ok hw
  have hne : d.contents f ≠ [] := by
    intro hnil
    have := TableFile.length_of_image? ho
    rw [TableFile.image?, hnil, if_neg (by have := f.pageSize_pos; simp; omega)] at ho
    cases ho
  refine ⟨rfl, rfl, fun name => ?_, fun {t g} hg => ?_, fun {name} hn => ?_⟩
  · rw [setContents, setHeld, ExtTreeMap.contains_insert]
    by_cases he : compare f.name name = .eq
    · rw [← Std.LawfulEqCmp.compare_eq_iff_eq.1 he, contains_of_contents_ne_nil hne]
      simp
    · simp [he]
  · rw [contents_setContents_eq]
    split
    · rename_i hname
      have htable := hs.apart hf hg hname
      rw [htable, hg] at hf
      cases hf
      exact .of_writeImage hdata ho
    · exact .refl _ _
  · rw [bytes_setContents, if_neg (hn hf)]

/-- A page is put at the end of the same file on both disks. -/
theorem SameOutside.append (h : d.SameOutside c d') {f : TableFile}
    (hf : ∀ {t g}, c.file t = .ok g → g.name = f.name → g = f ∧ g.Numbered (d.contents g)) :
    (d.append f).2.SameOutside c (d'.append f).2 := by
  refine ⟨h.directory, h.directories, fun name => ?_, fun {t g} hg => ?_, fun {name} hn => ?_⟩
  · rw [Disk.append, Disk.append, setHeld, setHeld, ExtTreeMap.contains_insert,
      ExtTreeMap.contains_insert, h.names]
  · rw [contents_append, contents_append]
    split
    · rename_i hname
      obtain ⟨rfl, hnum⟩ := hf hg hname.symm
      exact (h.tails hg).append hnum
    · exact h.tails hg
  · rw [append_eq, append_eq, bytes_setContents, bytes_setContents]
    split
    · -- A file of no table is the same on both disks, so the same comes of it.
      rename_i hname
      have := h.others hn
      rw [← hname] at this
      rw [contents, contents, this]
    · exact h.others hn

/-- Disks that are the same outside the pages, with the same images of all pages. -/
theorem SameOutside.eq (h : d.SameOutside c d')
    (hi : ∀ {t f}, c.file t = .ok f → ∀ n, f.image? (d'.contents f) n = f.image? (d.contents f) n) :
    d' = d := by
  refine eq_of_bytes h.directory h.directories h.names fun name => ?_
  by_cases hn : ∃ t f, c.file t = .ok f ∧ f.name = name
  · obtain ⟨t, f, hf, rfl⟩ := hn
    exact (h.tails hf).eq (hi hf)
  · exact h.others fun hf hname => hn ⟨_, _, hf, hname⟩

end Disk

namespace Store

variable {s s' : Store}

/-- Two stores with the same tables, the same disk outside the pages, and the same images of
all pages have the same disk. -/
theorem disk_eq (hc : s'.catalog = s.catalog) (hd : s.disk.SameOutside s.catalog s'.disk)
    (hi : ∀ p, (s'.view p).image = (s.view p).image) : s'.disk = s.disk := by
  refine hd.eq fun {t f} hf n => ?_
  have := hi { table := t, number := n }
  rw [image_view (s := s) hf, image_view (s := s') (hc ▸ hf)] at this
  exact this

end Store

end PagedStore
