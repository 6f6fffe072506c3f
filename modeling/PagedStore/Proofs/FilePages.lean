import PagedStore.TableFile

/-!
# A file as pages

The contents of a file are seen as the images of its pages, one for each page
that lies inside the contents (`TableFile.image?`).  The program counts pages
with 32 bits, so its count is the number of these pages as long as there are
fewer than `2 ^ 32` of them (`TableFile.Numbered`).

Writing the image of a page changes the image of this page only, and putting a
page at the end adds an image of zeros only.  No write makes a file shorter
(`Disk.Grows`).
-/

namespace PagedStore

namespace TableFile

/-- The image of the page with a number, if the page lies inside the contents. -/
def image? (f : TableFile) (data : Bytes) (n : Nat) : Option Bytes :=
  if n * f.pageSize + f.pageSize ≤ data.length then
    some ((data.drop (n * f.pageSize)).take f.pageSize)
  else none

/-- The pages of the contents can be counted with 32 bits. -/
def Numbered (f : TableFile) (data : Bytes) : Prop := data.length / f.pageSize < 4294967296

instance (f : TableFile) (data : Bytes) : Decidable (f.Numbered data) :=
  inferInstanceAs (Decidable (data.length / f.pageSize < 4294967296))

/-! ## Images and the number of pages -/

theorem length_of_image? {f : TableFile} {data image : Bytes} {n : Nat}
    (h : f.image? data n = some image) : image.length = f.pageSize := by
  rw [image?] at h
  split at h
  · cases h
    rw [List.length_take, List.length_drop]
    omega
  · cases h

theorem mul_pageSize_le {f : TableFile} {data : Bytes} {n : Nat} (h : n ≤ f.pageCount data) :
    n * f.pageSize ≤ data.length := by
  have hc : f.pageCount data ≤ data.length / f.pageSize := Nat.mod_le _ _
  calc n * f.pageSize ≤ data.length / f.pageSize * f.pageSize :=
        Nat.mul_le_mul_right _ (Nat.le_trans h hc)
    _ ≤ data.length := Nat.div_mul_le_self _ _

theorem image?_of_lt_pageCount {f : TableFile} {data : Bytes} {n : Nat}
    (h : n < f.pageCount data) :
    f.image? data n = some ((data.drop (n * f.pageSize)).take f.pageSize) := by
  have := mul_pageSize_le h
  rw [Nat.succ_mul] at this
  rw [image?, if_pos this]

theorem lt_pageCount_of_image? {f : TableFile} {data image : Bytes} {n : Nat}
    (hn : f.Numbered data) (h : f.image? data n = some image) : n < f.pageCount data := by
  rw [image?] at h
  split at h
  · rename_i hle
    rw [← Nat.succ_mul] at hle
    rw [pageCount, Nat.mod_eq_of_lt hn]
    exact Nat.le_of_lt_add_one (Nat.lt_succ_of_le
      ((Nat.le_div_iff_mul_le f.pageSize_pos).2 hle))
  · cases h

/-- A page can be read if its image is there and shows a page. -/
theorem readPage_eq_ok {f : TableFile} {data : Bytes} {id : PageId} {page : Page}
    (h : f.readPage data id = .ok page) :
    ∃ image, f.image? data id.number = some image ∧
      Page.decode id f.schema f.pageSize image = .ok page := by
  rw [readPage] at h
  split at h
  · rename_i hc
    split at h
    · rename_i p hd
      cases h
      exact ⟨_, image?_of_lt_pageCount hc.2, hd⟩
    · cases h
  · cases h

/-! ## Writing -/

theorem writeImage_eq_ok {f : TableFile} {data data' image : Bytes} {id : PageId}
    (h : f.writeImage data id image = .ok data') :
    id.table = f.table ∧ image.length = f.pageSize ∧ id.number ≤ f.pageCount data ∧
      data' = Bytes.overwrite data (id.number * f.pageSize) image := by
  rw [writeImage] at h
  split at h
  · cases h
  · rename_i ht
    split at h
    · cases h
    · rename_i hl
      split at h
      · cases h
      · rename_i hn
        cases h
        exact ⟨Decidable.not_not.1 ht, Decidable.not_not.1 hl, Nat.le_of_not_lt hn, rfl⟩

/-- A page that is there can be written. -/
theorem writeImage_of_image? {f : TableFile} {data image old : Bytes} {id : PageId}
    (hn : f.Numbered data) (ht : id.table = f.table) (hl : image.length = f.pageSize)
    (ho : f.image? data id.number = some old) :
    ∃ data', f.writeImage data id image = .ok data' := by
  have hlt := lt_pageCount_of_image? hn ho
  refine ⟨Bytes.overwrite data (id.number * f.pageSize) image, ?_⟩
  rw [writeImage, if_neg (not_not_intro ht), if_neg (not_not_intro hl), if_neg (by omega)]

theorem image?_overwrite_self {f : TableFile} {data image : Bytes} {n : Nat}
    (hn : n * f.pageSize ≤ data.length) (hl : image.length = f.pageSize) :
    f.image? (Bytes.overwrite data (n * f.pageSize) image) n = some image := by
  have hlen := @Bytes.length_overwrite data image _ hn
  rw [image?, if_pos (by omega)]
  have h := @Bytes.take_drop_overwrite data image _ hn
  rw [hl] at h
  rw [h]

theorem image?_overwrite_of_ne {f : TableFile} {data image : Bytes} {n m : Nat}
    (hn : n * f.pageSize ≤ data.length) (hl : image.length = f.pageSize) (hm : n ≠ m) :
    f.image? (Bytes.overwrite data (n * f.pageSize) image) m = f.image? data m := by
  have hlen := @Bytes.length_overwrite data image _ hn
  -- The two pages lie apart: one ends before the other begins.
  have happart : m * f.pageSize + f.pageSize ≤ n * f.pageSize ∨
      n * f.pageSize + f.pageSize ≤ m * f.pageSize := by
    rcases Nat.lt_or_gt_of_ne hm with h | h
    · right
      rw [← Nat.succ_mul]
      exact Nat.mul_le_mul_right _ h
    · left
      rw [← Nat.succ_mul]
      exact Nat.mul_le_mul_right _ h
  have hp := f.pageSize_pos
  simp only [image?]
  by_cases hin : m * f.pageSize + f.pageSize ≤ data.length
  · rw [if_pos hin, if_pos (by omega)]
    refine congrArg some (List.ext_getElem? fun i => ?_)
    by_cases hi : i < f.pageSize
    · rw [List.getElem?_take_of_lt hi, List.getElem?_take_of_lt hi, List.getElem?_drop,
        List.getElem?_drop]
      rcases happart with h | h
      · exact Bytes.getElem?_overwrite_of_lt hn (by omega)
      · exact Bytes.getElem?_overwrite_of_ge hn (by omega)
    · rw [List.getElem?_eq_none (by rw [List.length_take]; omega),
        List.getElem?_eq_none (by rw [List.length_take]; omega)]
  · rw [if_neg hin, if_neg (by omega)]

/-- Writing a page changes the image of this page only. -/
theorem image?_of_writeImage {f : TableFile} {data data' image : Bytes} {id : PageId}
    (h : f.writeImage data id image = .ok data') (n : Nat) :
    f.image? data' n = if id.number = n then some image else f.image? data n := by
  obtain ⟨-, hl, hc, rfl⟩ := writeImage_eq_ok h
  split
  · rename_i he
    rw [← he]
    exact image?_overwrite_self (mul_pageSize_le hc) hl
  · rename_i hne
    exact image?_overwrite_of_ne (mul_pageSize_le hc) hl hne

/-- A page at the end is new, and its image is all zeros. -/
theorem image?_append {f : TableFile} {data : Bytes} (hn : f.Numbered data) (n : Nat) :
    f.image? data (f.append data).1 = none ∧
      f.image? (f.append data).2 n =
        if (f.append data).1 = n then some (Bytes.zeros f.pageSize) else f.image? data n := by
  have hc : f.pageCount data = data.length / f.pageSize := Nat.mod_eq_of_lt hn
  have hle := mul_pageSize_le (Nat.le_refl (f.pageCount data))
  refine ⟨?_, ?_⟩
  · have hlt := Nat.lt_div_mul_add f.pageSize_pos (a := data.length)
    rw [← hc] at hlt
    exact if_neg (Nat.not_le.2 hlt)
  · split
    · rename_i he
      rw [← he]
      exact image?_overwrite_self hle (Bytes.length_zeros _)
    · rename_i hne
      exact image?_overwrite_of_ne hle (Bytes.length_zeros _) hne

/-! ## Lengths -/

theorem length_le_of_writeImage {f : TableFile} {data data' image : Bytes} {id : PageId}
    (h : f.writeImage data id image = .ok data') : data.length ≤ data'.length := by
  obtain ⟨-, -, hc, rfl⟩ := writeImage_eq_ok h
  rw [Bytes.length_overwrite (mul_pageSize_le hc)]
  exact Nat.le_max_left _ _

/-- Writing a page that is there keeps the length. -/
theorem length_of_writeImage {f : TableFile} {data data' image old : Bytes} {id : PageId}
    (h : f.writeImage data id image = .ok data') (ho : f.image? data id.number = some old) :
    data'.length = data.length := by
  obtain ⟨-, hl, hc, rfl⟩ := writeImage_eq_ok h
  have hin : id.number * f.pageSize + f.pageSize ≤ data.length := by
    rw [image?] at ho
    split at ho
    · assumption
    · cases ho
  rw [Bytes.length_overwrite (mul_pageSize_le hc)]
  omega

theorem length_le_append (f : TableFile) (data : Bytes) :
    data.length ≤ (f.append data).2.length := by
  rw [append, Bytes.length_overwrite (mul_pageSize_le (Nat.le_refl _))]
  exact Nat.le_max_left _ _

/-- After a page is put at the end, the file ends with it. -/
theorem length_append {f : TableFile} {data : Bytes} (hn : f.Numbered data) :
    (f.append data).2.length = (f.pageCount data + 1) * f.pageSize := by
  have hle := mul_pageSize_le (Nat.le_refl (f.pageCount data))
  have hlt := Nat.lt_div_mul_add f.pageSize_pos (a := data.length)
  rw [← Nat.mod_eq_of_lt hn, ← pageCount] at hlt
  rw [append, Bytes.length_overwrite hle, Bytes.length_zeros, Nat.succ_mul]
  omega

theorem Numbered.of_length_le {f : TableFile} {data data' : Bytes} (h : f.Numbered data')
    (hle : data.length ≤ data'.length) : f.Numbered data :=
  Nat.lt_of_le_of_lt (Nat.div_le_div_right hle) h

end TableFile

namespace Disk

/-- The files of the second disk are at least as long as those of the first. -/
def Grows (d d' : Disk) : Prop :=
  ∀ name : String, (d.bytes name).length ≤ (d'.bytes name).length

theorem Grows.refl (d : Disk) : d.Grows d := fun _ => Nat.le_refl _

theorem Grows.trans {d d' d'' : Disk} (h : d.Grows d') (h' : d'.Grows d'') : d.Grows d'' :=
  fun name => Nat.le_trans (h name) (h' name)

theorem grows_setContents {d : Disk} {f : TableFile} {data : Bytes}
    (h : (d.contents f).length ≤ data.length) : d.Grows (d.setContents f data) := by
  intro name
  rw [bytes_setContents]
  split
  · rename_i he
    rw [← he]
    exact h
  · exact Nat.le_refl _

/-- The files of both disks have the same lengths. -/
def SameLengths (d d' : Disk) : Prop :=
  ∀ name : String, (d'.bytes name).length = (d.bytes name).length

theorem SameLengths.refl (d : Disk) : d.SameLengths d := fun _ => rfl

theorem SameLengths.trans {d d' d'' : Disk} (h : d.SameLengths d') (h' : d'.SameLengths d'') :
    d.SameLengths d'' := fun name => (h' name).trans (h name)

/-- Files of the same length have the same number of pages. -/
theorem SameLengths.pageCount_eq {d d' : Disk} (h : d.SameLengths d') (f : TableFile) :
    d'.pageCount f = d.pageCount f := by
  have hl : (d'.contents f).length = (d.contents f).length := h f.name
  rw [Disk.pageCount_eq, Disk.pageCount_eq, TableFile.pageCount, TableFile.pageCount, hl]

/-- A file has one more page, with which it ends.  The other files have the same lengths. -/
structure Extends (d : Disk) (f : TableFile) (d' : Disk) : Prop where
  count : d'.pageCount f = d.pageCount f + 1
  length : (d'.contents f).length = (d.pageCount f + 1) * f.pageSize
  others : ∀ name, name ≠ f.name → (d'.bytes name).length = (d.bytes name).length

/-- A page is put at the end, if the pages can be counted then. -/
theorem extends_append {d : Disk} {f : TableFile}
    (hn : f.Numbered ((d.append f).2.contents f)) : d.Extends f (d.append f).2 := by
  have hcontents : (d.append f).2.contents f = (f.append (d.contents f)).2 := by
    rw [contents_append, if_pos rfl]
  rw [hcontents] at hn
  have hlength : (f.append (d.contents f)).2.length = (d.pageCount f + 1) * f.pageSize := by
    rw [pageCount_eq]
    exact TableFile.length_append (hn.of_length_le (f.length_le_append _))
  refine ⟨?_, by rw [hcontents, hlength], fun name hne => ?_⟩
  · rw [TableFile.Numbered, hlength, Nat.mul_div_cancel _ f.pageSize_pos] at hn
    rw [pageCount_eq, hcontents, TableFile.pageCount, hlength, Nat.mul_div_cancel _ f.pageSize_pos,
      Nat.mod_eq_of_lt hn]
  · rw [append_eq, bytes_setContents, if_neg (Ne.symm hne)]

theorem Extends.trans_same {d d' d'' : Disk} {f : TableFile} (h : d.Extends f d')
    (h' : d'.SameLengths d'') : d.Extends f d'' :=
  ⟨(h'.pageCount_eq f).trans h.count, (h' f.name).trans h.length,
    fun name hne => (h' name).trans (h.others name hne)⟩

theorem SameLengths.extends {d d' d'' : Disk} {f : TableFile} (h : d.SameLengths d')
    (h' : d'.Extends f d'') : d.Extends f d'' := by
  have hcount := h.pageCount_eq f
  exact ⟨hcount ▸ h'.count, hcount ▸ h'.length,
    fun name hne => (h'.others name hne).trans (h name)⟩

theorem sameLengths_setContents {d : Disk} {f : TableFile} {data : Bytes}
    (h : data.length = (d.contents f).length) : d.SameLengths (d.setContents f data) := by
  intro name
  rw [bytes_setContents]
  split
  · rename_i he
    rw [← he]
    exact h
  · rfl

theorem readPage_eq_ok {d : Disk} {f : TableFile} {id : PageId} {page : Page}
    (h : d.readPage f id = .ok page) :
    ∃ image, f.image? (d.contents f) id.number = some image ∧
      Page.decode id f.schema f.pageSize image = .ok page :=
  TableFile.readPage_eq_ok (readPage_eq d f id ▸ h)

theorem writeImage_eq_ok {d d' : Disk} {f : TableFile} {id : PageId} {image : Bytes}
    (h : d.writeImage f id image = .ok d') :
    ∃ data, f.writeImage (d.contents f) id image = .ok data ∧ d' = d.setContents f data := by
  rw [writeImage_eq] at h
  split at h
  · rename_i data hw
    cases h
    exact ⟨data, hw, rfl⟩
  · cases h

theorem grows_of_writeImage {d d' : Disk} {f : TableFile} {id : PageId} {image : Bytes}
    (h : d.writeImage f id image = .ok d') : d.Grows d' := by
  obtain ⟨data, hw, rfl⟩ := writeImage_eq_ok h
  exact grows_setContents (TableFile.length_le_of_writeImage hw)

theorem grows_append (d : Disk) (f : TableFile) : d.Grows (d.append f).2 := by
  rw [append_eq]
  exact grows_setContents (f.length_le_append _)

/-- A page at the end is new, and its image is all zeros. -/
theorem image?_append {d : Disk} {f : TableFile} (hn : f.Numbered (d.contents f)) (n : Nat) :
    f.image? (d.contents f) (d.append f).1 = none ∧
      f.image? ((d.append f).2.contents f) n =
        if (d.append f).1 = n then some (Bytes.zeros f.pageSize)
        else f.image? (d.contents f) n := by
  rw [contents_append, if_pos rfl, append_eq]
  exact TableFile.image?_append hn n

/-- Files of another name are as before. -/
theorem contents_setContents_eq (d : Disk) (f g : TableFile) (data : Bytes) :
    (d.setContents f data).contents g = if f.name = g.name then data else d.contents g :=
  d.bytes_setContents f data g.name

end Disk

end PagedStore
