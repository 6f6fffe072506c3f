import PagedStore.Proofs.FilePages

/-!
# A file as an array of pages

A file whose length is a multiple of the page size is an array of pages: its bytes are the
images of its pages one after another (`TableFile.pages`, `TableFile.flatten_pages`).  Writing
an image puts it at its place in the array or adds it at the end (`TableFile.pages_writeImage`),
and appending adds an image of zeros (`TableFile.pages_append`).

The calls on a file are made one after another, and what they write is recorded
(`FileCall.after`).  As long as the pages can be counted with 32 bits, the calls treat the
file as an array (`FileCall.Treats`), and after any number of them each page is what was
written to it last (`FileCall.array_of_pages`).

At `2 ^ 32` pages the count begins anew.  A page that is appended then is not put at the end,
but over one of the pages that are there (`FileCall.append_of_any_length`).
-/

namespace PagedStore

namespace TableFile

variable {f : TableFile} {data data' image : Bytes}

/-! ## The pages of the contents -/

/-- The contents are a whole number of pages. -/
def Whole (f : TableFile) (data : Bytes) : Prop := f.pageSize ∣ data.length

instance (f : TableFile) (data : Bytes) : Decidable (f.Whole data) :=
  inferInstanceAs (Decidable (f.pageSize ∣ data.length))

/-- The images of the pages, one after another. -/
def pages (f : TableFile) (data : Bytes) : List Bytes :=
  (List.range (data.length / f.pageSize)).map fun n =>
    (data.drop (n * f.pageSize)).take f.pageSize

/-- The images with one of them replaced, or with one more. -/
def put (images : List Bytes) (n : Nat) (image : Bytes) : List Bytes :=
  if n < images.length then images.set n image else images ++ [image]

@[simp] theorem length_pages (f : TableFile) (data : Bytes) :
    (f.pages data).length = data.length / f.pageSize := by
  rw [pages, List.length_map, List.length_range]

theorem getElem?_pages (f : TableFile) (data : Bytes) (n : Nat) :
    (f.pages data)[n]? = f.image? data n := by
  have hin : n < data.length / f.pageSize ↔ n * f.pageSize + f.pageSize ≤ data.length := by
    rw [← Nat.succ_mul, ← Nat.le_div_iff_mul_le f.pageSize_pos, Nat.succ_le_iff]
  rw [pages, List.getElem?_map, image?]
  by_cases h : n < data.length / f.pageSize
  · rw [List.getElem?_range h, if_pos (hin.1 h), Option.map_some]
  · rw [List.getElem?_eq_none (by rw [List.length_range]; omega), if_neg (h ∘ hin.2),
      Option.map_none]

theorem length_of_mem_pages (h : image ∈ f.pages data) : image.length = f.pageSize := by
  obtain ⟨n, hn⟩ := List.mem_iff_getElem?.1 h
  exact length_of_image? (getElem?_pages f data n ▸ hn)

/-- The first pages are the bytes up to where they end. -/
theorem flatten_windows (data : Bytes) (size count : Nat) :
    ((List.range count).map fun n => (data.drop (n * size)).take size).flatten =
      data.take (count * size) := by
  induction count with
  | zero => rw [Nat.zero_mul, List.take_zero]; rfl
  | succ count ih =>
      rw [List.range_succ, List.map_append, List.flatten_append, ih, List.map_singleton,
        List.flatten_singleton, Nat.succ_mul, List.take_add]

/-- The bytes of a file are its pages one after another. -/
theorem flatten_pages (h : f.Whole data) : (f.pages data).flatten = data := by
  rw [pages, flatten_windows, Nat.div_mul_cancel h, List.take_length]

theorem pages_eq_of_image? {images : List Bytes}
    (h : ∀ n, f.image? data n = images[n]?) : f.pages data = images :=
  List.ext_getElem? fun n => (getElem?_pages f data n).trans (h n)

theorem getElem?_put (images : List Bytes) {n : Nat} (hn : n ≤ images.length) (image : Bytes)
    (m : Nat) : (put images n image)[m]? = if n = m then some image else images[m]? := by
  rw [put]
  split
  · rename_i hlt
    rw [List.getElem?_set]
    simp only [hlt, if_true]
  · rename_i hge
    obtain rfl : n = images.length := Nat.le_antisymm hn (Nat.le_of_not_lt hge)
    rcases Nat.lt_trichotomy images.length m with hm | rfl | hm
    · rw [if_neg (Nat.ne_of_lt hm), List.getElem?_eq_none (Nat.le_of_lt hm),
        List.getElem?_eq_none (by rw [List.length_append, List.length_singleton]; omega)]
    · rw [if_pos rfl, List.getElem?_concat_length]
    · rw [if_neg (Nat.ne_of_gt hm), List.getElem?_append_left hm]

theorem pageCount_le_length (f : TableFile) (data : Bytes) :
    f.pageCount data ≤ (f.pages data).length := by
  rw [length_pages]
  exact Nat.mod_le _ _

theorem pageCount_eq_length (h : f.Numbered data) : f.pageCount data = (f.pages data).length := by
  rw [length_pages, pageCount, Nat.mod_eq_of_lt h]

/-! ## Writing and appending -/

/-- What makes an image fit a file at the number of a page. -/
structure Takes (f : TableFile) (count : Nat) (id : PageId) (image : Bytes) : Prop where
  table : id.table = f.table
  length : image.length = f.pageSize
  number : id.number ≤ count

theorem writeImage_eq_ok_iff {id : PageId} :
    f.writeImage data id image = .ok data' ↔
      f.Takes (f.pageCount data) id image ∧
        data' = Bytes.overwrite data (id.number * f.pageSize) image := by
  constructor
  · intro h
    obtain ⟨ht, hl, hn, rfl⟩ := writeImage_eq_ok h
    exact ⟨⟨ht, hl, hn⟩, rfl⟩
  · rintro ⟨⟨ht, hl, hn⟩, rfl⟩
    rw [writeImage, if_neg (not_not_intro ht), if_neg (not_not_intro hl),
      if_neg (Nat.not_lt.2 hn)]

theorem number_le_of_writeImage {id : PageId} (h : f.writeImage data id image = .ok data') :
    id.number ≤ (f.pages data).length :=
  Nat.le_trans (writeImage_eq_ok_iff.1 h).1.number (f.pageCount_le_length data)

/-- An image that is written takes its place in the array. -/
theorem pages_writeImage {id : PageId} (h : f.writeImage data id image = .ok data') :
    f.pages data' = put (f.pages data) id.number image := by
  refine pages_eq_of_image? fun n => ?_
  rw [image?_of_writeImage h, getElem?_put _ (number_le_of_writeImage h), getElem?_pages]

/-- A write inside keeps the length, and one at the end makes the file a page longer. -/
theorem Whole.writeImage {id : PageId} (hw : f.Whole data)
    (h : f.writeImage data id image = .ok data') : f.Whole data' := by
  obtain ⟨⟨-, hl, hn⟩, rfl⟩ := writeImage_eq_ok_iff.1 h
  rw [Whole, Bytes.length_overwrite (mul_pageSize_le hn), hl, ← Nat.succ_mul]
  rcases Nat.le_total data.length ((id.number + 1) * f.pageSize) with hle | hle
  · rw [Nat.max_eq_right hle]
    exact Nat.dvd_mul_left _ _
  · rw [Nat.max_eq_left hle]
    exact hw

/-- A page that is appended is written at the number it gets. -/
theorem writeImage_append (f : TableFile) (data : Bytes) :
    f.writeImage data ⟨f.table, (f.append data).1⟩ (Bytes.zeros f.pageSize) =
      .ok (f.append data).2 :=
  writeImage_eq_ok_iff.2 ⟨⟨rfl, Bytes.length_zeros _, Nat.le_refl _⟩, rfl⟩

theorem pages_append (f : TableFile) (data : Bytes) :
    f.pages (f.append data).2 =
      put (f.pages data) (f.append data).1 (Bytes.zeros f.pageSize) :=
  pages_writeImage (f.writeImage_append data)

/-- A page of zeros comes after the last page, if the pages can be counted. -/
theorem pages_append_of_numbered (hn : f.Numbered data) :
    f.pages (f.append data).2 = f.pages data ++ [Bytes.zeros f.pageSize] := by
  have hnumber : (f.append data).1 = (f.pages data).length := pageCount_eq_length hn
  rw [pages_append, hnumber, put, if_neg (Nat.lt_irrefl _)]

theorem Whole.append (hw : f.Whole data) : f.Whole (f.append data).2 :=
  hw.writeImage (f.writeImage_append data)

end TableFile

/-! ## Calls -/

/-- A call on the file of a table. -/
inductive FileCall where
  /-- A page is written. -/
  | writePage (page : Page)
  /-- The image of a page is written. -/
  | writeImage (id : PageId) (image : Bytes)
  /-- A page of zeros is put at the end. -/
  | append
  /-- A page is read. -/
  | readPage (id : PageId)

namespace FileCall

open TableFile

/-- What a call answers if it is not refused. -/
inductive Answer where
  /-- The image is written. -/
  | written
  /-- The new page has a number. -/
  | appended (number : Nat)
  /-- The page that was read. -/
  | page (page : Page)

variable {f : TableFile} {d d₀ : Disk} {call : FileCall} {id : PageId} {image : Bytes}

/-- The answer to a call, and the disk after it. -/
def perform (f : TableFile) (d : Disk) : FileCall → Except StoreError Answer × Disk
  | writePage page =>
      match d.writePage f page with
      | .ok d' => (.ok .written, d')
      | .error e => (.error e, d)
  | writeImage id image =>
      match d.writeImage f id image with
      | .ok d' => (.ok .written, d')
      | .error e => (.error e, d)
  | append => (.ok (.appended (d.append f).1), (d.append f).2)
  | readPage id =>
      match d.readPage f id with
      | .ok page => (.ok (.page page), d)
      | .error e => (.error e, d)

/-- What a call has written, if it got an answer: the number of the page and its image. -/
def wrote (f : TableFile) : FileCall → Except StoreError Answer → Option (Nat × Bytes)
  | writePage page, .ok _ => some (page.id.number, page.encode)
  | writeImage id image, .ok _ => some (id.number, image)
  | append, .ok (.appended number) => some (number, Bytes.zeros f.pageSize)
  | _, _ => none

/-- One more call is made: the disk, and all that was written, the latest first. -/
def step (f : TableFile) (s : Disk × List (Nat × Bytes)) (call : FileCall) :
    Disk × List (Nat × Bytes) :=
  ((call.perform f s.1).2, (call.wrote f (call.perform f s.1).1).toList ++ s.2)

/-- The disk after calls that are made one after another, and all that they wrote, the
latest first. -/
def after (f : TableFile) (d : Disk) (calls : List FileCall) : Disk × List (Nat × Bytes) :=
  calls.foldl (step f) (d, [])

/-- A call writes an image to a page. -/
inductive Writes : FileCall → PageId → Bytes → Prop
  | page (page : Page) : Writes (writePage page) page.id page.encode
  | image (id : PageId) (image : Bytes) : Writes (writeImage id image) id image

/-! ## The answers -/

/-- A call that is refused leaves everything as it is. -/
theorem perform_of_error {e : StoreError} (h : (call.perform f d).1 = .error e) :
    (call.perform f d).2 = d := by
  cases call with
  | writePage page =>
      rw [perform] at h ⊢
      split at h
      · cases h
      · rfl
  | writeImage id image =>
      rw [perform] at h ⊢
      split at h
      · cases h
      · rfl
  | append => cases h
  | readPage id =>
      rw [perform]
      split <;> rfl

theorem perform_readPage (f : TableFile) (d : Disk) (id : PageId) :
    ((readPage id).perform f d).2 = d := by
  rw [perform]
  split <;> rfl

/-- A write is done, or it is refused. -/
theorem perform_of_writes (h : call.Writes id image) :
    call.perform f d = match d.writeImage f id image with
      | .ok d' => (.ok .written, d')
      | .error e => (.error e, d) := by
  cases h <;> rfl

theorem wrote_of_writes (h : call.Writes id image) :
    call.wrote f (.ok .written) = some (id.number, image) := by
  cases h <;> rfl

/-- What a call does to the contents of the file: it writes an image, or nothing. -/
inductive Effect (f : TableFile) (d : Disk) (call : FileCall) : Prop
  | wrote (id : PageId) (image data : Bytes)
      (hw : f.writeImage (d.contents f) id image = .ok data)
      (hdisk : (call.perform f d).2 = d.setContents f data)
      (hrecord : call.wrote f (call.perform f d).1 = some (id.number, image))
  | nothing (hdisk : (call.perform f d).2 = d)
      (hrecord : call.wrote f (call.perform f d).1 = none)

theorem effect_of_writes (h : call.Writes id image) : Effect f d call := by
  have hp := perform_of_writes (f := f) (d := d) h
  cases hw : d.writeImage f id image with
  | ok d' =>
      rw [hw] at hp
      obtain ⟨data, hdata, rfl⟩ := Disk.writeImage_eq_ok hw
      exact .wrote id image data hdata (by rw [hp]) (by rw [hp]; exact wrote_of_writes h)
  | error e =>
      rw [hw] at hp
      refine .nothing (by rw [hp]) ?_
      rw [hp]
      cases h <;> rfl

theorem effect (f : TableFile) (d : Disk) (call : FileCall) : Effect f d call := by
  cases call with
  | writePage page => exact effect_of_writes (.page page)
  | writeImage id image => exact effect_of_writes (.image id image)
  | append =>
      refine .wrote _ _ _ (f.writeImage_append (d.contents f)) ?_ ?_
      · rw [perform, Disk.append_eq]
      · rw [perform, Disk.append_eq]
        rfl
  | readPage id =>
      refine .nothing (perform_readPage f d id) ?_
      rw [perform]
      split <;> rfl

/-! ## Many calls -/

/-- Each page is what was written to it last, or what it was on a disk before. -/
structure Recorded (f : TableFile) (d₀ : Disk) (s : Disk × List (Nat × Bytes)) : Prop where
  /-- The file is a whole number of pages. -/
  whole : f.Whole (s.1.contents f)
  /-- The latest image of a page is the one that the file has. -/
  latest (n : Nat) :
    (f.pages (s.1.contents f))[n]? = (s.2.lookup n).or (f.pages (d₀.contents f))[n]?
  /-- Other files are as before. -/
  others (name : String) (h : name ≠ f.name) : s.1.bytes name = d₀.bytes name

theorem Recorded.step {s : Disk × List (Nat × Bytes)} (h : Recorded f d₀ s) (call : FileCall) :
    Recorded f d₀ (step f s call) := by
  rw [FileCall.step]
  cases effect f s.1 call with
  | wrote id image data hw hdisk hrecord =>
      have hcontents : (s.1.setContents f data).contents f = data :=
        Disk.contents_setContents _ _ _
      rw [hdisk, hrecord]
      refine ⟨by rw [hcontents]; exact h.whole.writeImage hw, fun n => ?_, fun name hne => ?_⟩
      · rw [hcontents, pages_writeImage hw, getElem?_put _ (number_le_of_writeImage hw), h.latest,
          Option.toList_some, List.singleton_append, List.lookup_cons]
        by_cases he : n = id.number
        · rw [if_pos he.symm, beq_iff_eq.2 he, Option.some_or]
        · rw [if_neg (Ne.symm he), beq_eq_false_iff_ne.2 he]
      · rw [← h.others name hne]
        exact (s.1.bytes_setContents f data name).trans (if_neg (Ne.symm hne))
  | nothing hdisk hrecord =>
      rw [hdisk, hrecord]
      exact h

theorem Recorded.foldl (calls : List FileCall) {s : Disk × List (Nat × Bytes)}
    (h : Recorded f d₀ s) : Recorded f d₀ (calls.foldl (FileCall.step f) s) := by
  induction calls generalizing s with
  | nil => exact h
  | cons call calls ih => exact ih (h.step call)

/-! ## The array -/

/-- The calls treat a file as an array of pages. -/
structure Treats (f : TableFile) (d : Disk) (images : List Bytes) : Prop where
  /-- The file is the pages, one after another. -/
  contents : d.contents f = images.flatten
  /-- Each of them has the size of a page. -/
  sized (image : Bytes) (h : image ∈ images) : image.length = f.pageSize
  /-- They are all counted. -/
  counted : d.pageCount f = images.length
  /-- A write is done if it fits, and refused otherwise. -/
  write_iff {call : FileCall} {id : PageId} {image : Bytes} (h : call.Writes id image) :
    (call.perform f d).1 = .ok .written ↔ f.Takes images.length id image
  /-- The image that is written replaces that of its page, or comes after the last. -/
  write {call : FileCall} {id : PageId} {image : Bytes} (h : call.Writes id image)
    (hok : (call.perform f d).1 = .ok .written) :
    (call.perform f d).2.contents f = (put images id.number image).flatten
  /-- A page of zeros comes after the last page, and its number is answered. -/
  append : (FileCall.append.perform f d).1 = .ok (.appended images.length) ∧
    (FileCall.append.perform f d).2.contents f = (images ++ [Bytes.zeros f.pageSize]).flatten
  /-- A page is read if it is there and its image shows a page. -/
  read (id : PageId) (page : Page) :
    ((readPage id).perform f d).1 = .ok (.page page) ↔
      id.table = f.table ∧ ∃ image, images[id.number]? = some image ∧
        Page.decode id f.schema f.pageSize image = .ok page
  /-- Reading changes nothing. -/
  unread (id : PageId) : ((readPage id).perform f d).2 = d
  /-- A refused call changes nothing. -/
  refused (call : FileCall) (e : StoreError) (h : (call.perform f d).1 = .error e) :
    (call.perform f d).2 = d

theorem perform_written_iff (h : call.Writes id image) (hn : f.Numbered (d.contents f)) :
    (call.perform f d).1 = .ok .written ↔
      f.Takes (f.pages (d.contents f)).length id image := by
  rw [perform_of_writes h, ← pageCount_eq_length hn]
  constructor
  · intro hok
    split at hok
    · rename_i d' hd
      obtain ⟨data, hdata, -⟩ := Disk.writeImage_eq_ok hd
      exact (writeImage_eq_ok_iff.1 hdata).1
    · cases hok
  · intro ht
    rw [Disk.writeImage_eq, writeImage_eq_ok_iff.2 ⟨ht, rfl⟩]

theorem pages_perform (h : call.Writes id image) (hok : (call.perform f d).1 = .ok .written) :
    f.pages ((call.perform f d).2.contents f) = put (f.pages (d.contents f)) id.number image := by
  rw [perform_of_writes h] at hok ⊢
  split at hok
  · rename_i d' hd
    obtain ⟨data, hdata, rfl⟩ := Disk.writeImage_eq_ok hd
    rw [Disk.contents_setContents]
    exact pages_writeImage hdata
  · cases hok

theorem whole_perform (call : FileCall) (hw : f.Whole (d.contents f)) :
    f.Whole ((call.perform f d).2.contents f) := by
  cases effect f d call with
  | wrote id image data hdata hdisk _ =>
      rw [hdisk, Disk.contents_setContents]
      exact hw.writeImage hdata
  | nothing hdisk _ =>
      rw [hdisk]
      exact hw

theorem perform_readPage_iff (hn : f.Numbered (d.contents f)) (id : PageId) (page : Page) :
    ((readPage id).perform f d).1 = .ok (.page page) ↔
      id.table = f.table ∧ ∃ image, (f.pages (d.contents f))[id.number]? = some image ∧
        Page.decode id f.schema f.pageSize image = .ok page := by
  rw [perform, Disk.readPage_eq, TableFile.readPage]
  constructor
  · intro h
    split at h
    · rename_i p hp
      cases h
      split at hp
      · rename_i hin
        refine ⟨hin.1, _, (getElem?_pages f _ _).trans (image?_of_lt_pageCount hin.2), ?_⟩
        split at hp
        · rename_i hd
          cases hp
          exact hd
        · cases hp
      · cases hp
    · cases h
  · rintro ⟨ht, image, hi, hd⟩
    rw [getElem?_pages] at hi
    have hlt := lt_pageCount_of_image? hn hi
    rw [image?_of_lt_pageCount hlt, Option.some_inj] at hi
    rw [if_pos ⟨ht, hlt⟩, hi, hd]

/-- A whole file whose pages can be counted is treated as the array of its pages. -/
theorem treats (hw : f.Whole (d.contents f)) (hn : f.Numbered (d.contents f)) :
    Treats f d (f.pages (d.contents f)) where
  contents := (flatten_pages hw).symm
  sized _ h := length_of_mem_pages h
  counted := (Disk.pageCount_eq d f).trans (pageCount_eq_length hn)
  write_iff h := perform_written_iff h hn
  write h hok := by
    rw [← pages_perform h hok, flatten_pages (whole_perform _ hw)]
  append := by
    rw [perform, Disk.append_eq, Disk.contents_setContents, ← pages_append_of_numbered hn,
      flatten_pages hw.append]
    exact ⟨congrArg (Except.ok ∘ Answer.appended) (pageCount_eq_length hn), rfl⟩
  read := perform_readPage_iff hn
  unread := perform_readPage f d
  refused _ _ h := perform_of_error h

/-- After any calls on a whole file that leave its pages countable, the file is an array of
pages, in which each page is what was written to it last or else what it was at first.  The
next call treats it as this array. -/
theorem array_of_pages (calls : List FileCall) (hw : f.Whole (d.contents f))
    (hn : f.Numbered ((after f d calls).1.contents f)) :
    f.Whole ((after f d calls).1.contents f) ∧
      (∀ name, name ≠ f.name → (after f d calls).1.bytes name = d.bytes name) ∧
      ∃ images, Treats f (after f d calls).1 images ∧
        ∀ n, images[n]? = ((after f d calls).2.lookup n).or (f.image? (d.contents f) n) := by
  have hstart : Recorded f d (d, []) := ⟨hw, fun _ => rfl, fun _ _ => rfl⟩
  have h : Recorded f d (after f d calls) := hstart.foldl calls
  refine ⟨h.whole, h.others, _, treats h.whole hn, fun n => ?_⟩
  rw [h.latest, getElem?_pages]

/-- A file with pages of one byte. -/
def Small.file : TableFile where
  name := "a"
  table := ⟨1⟩
  schema := ⟨[]⟩
  pageSize := 1
  fits := by decide

/-- A disk without files. -/
def Small.disk : Disk := { directory := "/" }

/-- Calls on the file.  Two of them are refused. -/
def Small.calls : List FileCall :=
  [append, writeImage ⟨⟨1⟩, 0⟩ [1], writeImage ⟨⟨1⟩, 2⟩ [2], writeImage ⟨⟨2⟩, 0⟩ [2],
    readPage ⟨⟨1⟩, 0⟩, writeImage ⟨⟨1⟩, 1⟩ [3]]

theorem array_of_pages_small :
    ∃ images, Treats Small.file (after Small.file Small.disk Small.calls).1 images ∧
      images[0]? = some [1] ∧ images[1]? = some [3] ∧ images[2]? = none := by
  obtain ⟨-, -, images, htreats, hlatest⟩ :=
    array_of_pages (f := Small.file) (d := Small.disk) Small.calls (by decide) (by decide)
  exact ⟨images, htreats, (hlatest 0).trans (by decide), (hlatest 1).trans (by decide),
    (hlatest 2).trans (by decide)⟩

/-! ## Files with too many pages -/

/-- A page that is appended comes after the others. -/
structure Lengthens (f : TableFile) (d : Disk) : Prop where
  /-- The count is the length in pages. -/
  counted : d.pageCount f = (d.contents f).length / f.pageSize
  /-- The new page has this number. -/
  number : (d.append f).1 = (d.contents f).length / f.pageSize
  /-- What was there is followed by a page of zeros. -/
  contents : (d.append f).2.contents f = d.contents f ++ Bytes.zeros f.pageSize

theorem contents_append_eq (hw : f.Whole (d.contents f)) :
    (d.append f).2.contents f =
      (put (f.pages (d.contents f)) (d.append f).1 (Bytes.zeros f.pageSize)).flatten := by
  rw [Disk.append_eq, Disk.contents_setContents, ← pages_append, flatten_pages hw.append]

/-- Whatever the length of a whole file is, a page that is appended comes after the others
exactly if there are fewer than `2 ^ 32` of them.  Otherwise the count and the number of the
new page are what is left of the length, and the page of this number is lost. -/
theorem append_of_any_length (hw : f.Whole (d.contents f)) :
    (Lengthens f d ↔ (d.contents f).length / f.pageSize < 4294967296) ∧
      (4294967296 ≤ (d.contents f).length / f.pageSize →
        d.pageCount f = (d.contents f).length / f.pageSize % 4294967296 ∧
        (d.append f).1 = (d.contents f).length / f.pageSize % 4294967296 ∧
        (d.append f).2.contents f =
          ((f.pages (d.contents f)).set ((d.contents f).length / f.pageSize % 4294967296)
            (Bytes.zeros f.pageSize)).flatten) := by
  have hcount : d.pageCount f = (d.contents f).length / f.pageSize % 4294967296 :=
    Disk.pageCount_eq d f
  have hnumber : (d.append f).1 = (d.contents f).length / f.pageSize % 4294967296 := hcount
  have hcontents := contents_append_eq hw
  rw [hnumber, put, length_pages] at hcontents
  refine ⟨⟨fun h => ?_, fun hn => ?_⟩, fun hn => ⟨hcount, hnumber, ?_⟩⟩
  · rw [← h.counted, hcount]
    exact Nat.mod_lt _ (by decide)
  · rw [Nat.mod_eq_of_lt hn] at hcount hnumber hcontents
    refine ⟨hcount, hnumber, ?_⟩
    rw [hcontents, if_neg (Nat.lt_irrefl _), List.flatten_append, List.flatten_singleton,
      flatten_pages hw]
  · rw [hcontents, if_pos (Nat.lt_of_lt_of_le (Nat.mod_lt _ (by decide)) hn)]

/-- The first page is written, and then the file is made `2 ^ 32` pages long. -/
def Small.long : Disk :=
  Small.disk.setHeld Small.file ((Contents.ofBytes [1]).resize 4294967296)

theorem append_of_any_length_small :
    Small.file.Whole (Small.long.contents Small.file) ∧
      Small.long.pageCount Small.file = 0 ∧ (Small.long.append Small.file).1 = 0 ∧
      ¬ Lengthens Small.file Small.long ∧
      (Small.long.append Small.file).2.contents Small.file =
        ((Small.file.pages (Small.long.contents Small.file)).set 0 [0]).flatten := by
  have hlength : (Small.long.contents Small.file).length = 4294967296 :=
    ((Small.long.held Small.file).length_bytes).trans (by decide)
  have hcount : (Small.long.contents Small.file).length / Small.file.pageSize = 4294967296 := by
    rw [hlength]
    rfl
  have hwhole : Small.file.Whole (Small.long.contents Small.file) := Nat.one_dvd _
  obtain ⟨hiff, hlost⟩ := append_of_any_length (f := Small.file) (d := Small.long) hwhole
  rw [hcount] at hiff hlost
  obtain ⟨hpages, hnumber, hcontents⟩ := hlost (Nat.le_refl _)
  exact ⟨hwhole, hpages, hnumber, fun h => absurd (hiff.1 h) (Nat.lt_irrefl _), hcontents⟩

end FileCall

end PagedStore
