import PagedStore.Proofs.FailedCommit
import PagedStore.Proofs.ImageSizes
import PagedStore.Proofs.Leftovers

/-!
# Images that cannot be put back

When a transaction is aborted, the table of a page may be gone, or its file may have been cut.
Then the image that is kept of the page cannot be put back, and something is in its way
(`Store.obstacle?`).  An abort does not stop at such a page.  It drops every copy with changes of
the transaction, puts back every image that nothing is in the way of, leaves all other bytes
alone, releases the locks, and reports the first obstacle in page order (`Store.Undoes`).

What is in the way of an image is judged when its turn comes (`Store.blocked?`).  By then the
images of the pages before it have been put back, and each may have put one more page at the end
of a file.  So an image beyond the end of its file can be put back if images are kept of all pages
between (`Store.Whole.blocked?_eq_none_iff_kept`).

All this needs images of the size of a page.  In whatever store a run leads to they are
(`Traffic.whole_of_run`), if the tables that are registered have files of one page size.
-/

namespace PagedStore

open Std (ExtTreeMap)

theorem PageId.ne_of_compare_lt {p q : PageId} (h : compare p q = .lt) : p ≠ q := by
  rintro rfl
  rw [Std.ReflOrd.compare_self] at h
  cases h

/-- Pages of one table are in the order of their numbers. -/
theorem PageId.compare_number_eq_lt_iff {p : PageId} {m n : Nat} :
    compare ({ p with number := m } : PageId) { p with number := n } = .lt ↔ m < n := by
  rw [PageId.compare_eq, Std.ReflOrd.compare_self]
  exact Nat.compare_eq_lt

/-- A byte of a file, if the file is that long. -/
def Disk.byte? (d : Disk) (name : String) (i : Nat) : Option UInt8 := (d.bytes name)[i]?

namespace Store

variable {s s' : Store} {t : TransactionId} {id p : PageId} {image : Bytes} {size : Nat}
  {images : List (PageId × Bytes)} {entry : PageId × Bytes} {f : TableFile} {table : TableId}

/-! ## Putting one image back -/

/-- What is in the way of putting an image of a page back: the table is not registered, or the
file ends before the page. -/
def obstacle? (s : Store) (id : PageId) : Option StoreError :=
  match s.catalog.file id.table with
  | .error e => some e
  | .ok file => if s.disk.pageCount file < id.number then some (.pageNotFound id) else none

theorem obstacle?_eq_none_iff :
    s.obstacle? id = none ↔
      ∃ f, s.catalog.file id.table = .ok f ∧ id.number ≤ s.disk.pageCount f := by
  rw [obstacle?]
  cases s.catalog.file id.table with
  | error e => simp
  | ok f => simp

/-- The files of the tables, and some images of pages, have one page size. -/
structure SizedFor (s : Store) (size : Nat) (images : List (PageId × Bytes)) : Prop where
  sound : s.Sound
  files : s.catalog.OfSize size
  images : ∀ entry ∈ images, entry.2.length = size

/-- The first image is put back unless there is an obstacle. -/
theorem SizedFor.restore_cases (h : s.SizedFor size (entry :: images)) :
    (∃ e, s.obstacle? entry.1 = some e ∧ s.restore entry.1 entry.2 = .error e ∧
        (s.restoreAll [entry]).2 = s) ∨
      ∃ s', s.obstacle? entry.1 = none ∧ s.restore entry.1 entry.2 = .ok s' ∧
        (s.restoreAll [entry]).2 = s' := by
  rw [obstacle?, restoreAll, restore]
  cases hf : s.catalog.file entry.1.table with
  | error e => exact Or.inl ⟨e, rfl, rfl, rfl⟩
  | ok f =>
      have hl : entry.2.length = f.pageSize :=
        (h.images entry List.mem_cons_self).trans (h.files hf).symm
      have ht : f.table = entry.1.table := h.sound.catalog.table hf
      simp only [Disk.writeImage, ht, hl, ne_eq, not_true_eq_false, if_false]
      by_cases hn : s.disk.pageCount f < entry.1.number
      · simp only [if_pos hn]
        exact Or.inl ⟨_, rfl, rfl, rfl⟩
      · simp only [if_neg hn]
        exact Or.inr ⟨_, trivial, rfl, rfl⟩

/-- The bytes of other pages stay when an image is put back. -/
theorem byte?_restore {name : String} {i : Nat} (h : s.restore id image = .ok s')
    (hout : ∀ f, s.catalog.file id.table = .ok f → f.name = name →
      i < id.number * f.pageSize ∨ (id.number + 1) * f.pageSize ≤ i) :
    s'.disk.byte? name i = s.disk.byte? name i := by
  obtain ⟨f, disk, hf, hw, rfl⟩ := restore_eq_ok h
  obtain ⟨data, hdata, rfl⟩ := Disk.writeImage_eq_ok hw
  obtain ⟨-, hl, hn, rfl⟩ := TableFile.writeImage_eq_ok hdata
  have hle := TableFile.mul_pageSize_le hn
  show ((s.disk.setContents f _).bytes name)[i]? = _
  rw [Disk.bytes_setContents, Disk.byte?]
  split
  · rename_i hname
    subst hname
    rcases hout f hf rfl with hi | hi
    · exact Bytes.getElem?_overwrite_of_lt hle hi
    · refine Bytes.getElem?_overwrite_of_ge hle ?_
      rwa [hl, ← Nat.succ_mul]
  · rfl

/-! ## Putting all images back -/

/-- The store when the turn of a page comes: the images of the pages before it have been put back,
as many as could be. -/
def atTurn (s : Store) (images : List (PageId × Bytes)) (p : PageId) : Store :=
  (s.restoreAll (images.filter fun entry => (compare entry.1 p).isLT)).2

/-- The images are in page order. -/
abbrev InPageOrder (images : List (PageId × Bytes)) : Prop :=
  images.Pairwise fun a b => compare a.1 b.1 = .lt

/-- The store after one image is put back, or cannot be. -/
theorem restoreAll_cons (s : Store) (entry : PageId × Bytes) (images : List (PageId × Bytes)) :
    (s.restoreAll (entry :: images)).2 = ((s.restoreAll [entry]).2.restoreAll images).2 := by
  simp only [restoreAll]
  cases s.restore entry.1 entry.2 <;> rfl

/-- No page comes before the first. -/
theorem not_before_head (ho : InPageOrder (entry :: images)) {e : PageId × Bytes}
    (he : e ∈ entry :: images) : compare e.1 entry.1 ≠ .lt := by
  rcases List.mem_cons.1 he with rfl | he
  · rw [Std.ReflOrd.compare_self]
    decide
  · rw [Std.OrientedCmp.gt_of_lt ((List.pairwise_cons.1 ho).1 e he)]
    decide

/-- The first page has its turn at once. -/
theorem atTurn_head (ho : InPageOrder (entry :: images)) :
    s.atTurn (entry :: images) entry.1 = s := by
  have hnone : (entry :: images).filter (fun e => (compare e.1 entry.1).isLT) = [] := by
    rw [List.filter_eq_nil_iff]
    intro e he hbefore
    exact not_before_head ho he (Ordering.isLT_iff_eq_lt.1 hbefore)
  rw [atTurn, hnone]
  rfl

/-- The others have their turns after it. -/
theorem atTurn_of_mem_tail (ho : InPageOrder (entry :: images)) {e : PageId × Bytes}
    (he : e ∈ images) :
    s.atTurn (entry :: images) e.1 = (s.restoreAll [entry]).2.atTurn images e.1 := by
  have hkept : (entry :: images).filter (fun other => (compare other.1 e.1).isLT) =
      entry :: images.filter fun other => (compare other.1 e.1).isLT := by
    refine List.filter_cons_of_pos ?_
    rw [(List.pairwise_cons.1 ho).1 e he]
    rfl
  rw [atTurn, hkept, restoreAll_cons]
  rfl

theorem SizedFor.rest (h : s.SizedFor size (entry :: images)) :
    (s.restoreAll [entry]).2.SizedFor size images := by
  have hr := restored_restoreAll [entry] s
  exact ⟨hr.sound h.sound, hr.catalog ▸ h.files,
    fun e he => h.images e (List.mem_cons_of_mem _ he)⟩

/-- The images are all put back, or what is reported is what was in the way of the first one in
page order that could not be. -/
theorem restoreAll_cases (h : s.SizedFor size images) (ho : InPageOrder images) :
    ((s.restoreAll images).1 = .ok () ∧
        ∀ entry ∈ images, (s.atTurn images entry.1).obstacle? entry.1 = none) ∨
      ∃ e, (s.restoreAll images).1 = .error e ∧
        ∃ entry ∈ images, (s.atTurn images entry.1).obstacle? entry.1 = some e ∧
          ∀ other ∈ images, compare other.1 entry.1 = .lt →
            (s.atTurn images other.1).obstacle? other.1 = none := by
  induction images generalizing s with
  | nil => exact Or.inl ⟨rfl, fun _ he => by cases he⟩
  | cons entry images ih =>
      have ho' := (List.pairwise_cons.1 ho).2
      have hhead : s.atTurn (entry :: images) entry.1 = s := atTurn_head ho
      rcases h.restore_cases with ⟨e, hob, hr, -⟩ | ⟨s₁, hob, hr, hone⟩
      · exact Or.inr ⟨e, by simp only [restoreAll, hr], entry, List.mem_cons_self,
          by rw [hhead, hob], fun _ hother hbefore => absurd hbefore (not_before_head ho hother)⟩
      · have hresult : (s.restoreAll (entry :: images)).1 = (s₁.restoreAll images).1 := by
          simp only [restoreAll, hr]
        have hturn : ∀ e ∈ images, s.atTurn (entry :: images) e.1 = s₁.atTurn images e.1 :=
          fun e he => by rw [atTurn_of_mem_tail ho he, hone]
        have hnone : (s.atTurn (entry :: images) entry.1).obstacle? entry.1 = none := by
          rw [hhead, hob]
        rw [hresult]
        rcases ih (hone ▸ h.rest) ho' with ⟨hok, hall⟩ | ⟨e, herror, bad, hbad, hobstacle, hall⟩
        · refine Or.inl ⟨hok, fun e he => ?_⟩
          rcases List.mem_cons.1 he with rfl | he
          · exact hnone
          · rw [hturn e he]
            exact hall e he
        · refine Or.inr ⟨e, herror, bad, List.mem_cons_of_mem _ hbad, ?_, ?_⟩
          · rw [hturn bad hbad]
            exact hobstacle
          · intro other hother hbefore
            rcases List.mem_cons.1 hother with rfl | hother
            · exact hnone
            · rw [hturn other hother]
              exact hall other hother hbefore

/-- A page whose image is put back has it, unless there was something in the way. -/
theorem view_restoreAll (h : s.SizedFor size images) (ho : InPageOrder images)
    (hm : (p, image) ∈ images) :
    (s.restoreAll images).2.view p =
      if (s.atTurn images p).obstacle? p = none then { s.view p with image := some image }
      else s.view p := by
  induction images generalizing s with
  | nil => cases hm
  | cons entry images ih =>
      obtain ⟨hlt, ho'⟩ := List.pairwise_cons.1 ho
      have hsound := h.rest.sound
      rw [restoreAll_cons]
      rcases List.mem_cons.1 hm with rfl | hm
      · -- The pages after it are other ones.
        have hlater : ∀ e ∈ images, e.1 ≠ p :=
          fun e he => (PageId.ne_of_compare_lt (hlt e he)).symm
        rw [view_restoreAll_of_not_mem hsound hlater, atTurn_head ho]
        rcases h.restore_cases with ⟨e, hob, -, hone⟩ | ⟨s₁, hob, hr, hone⟩
        · rw [hone, hob]
          rfl
        · rw [hone, hob, view_restore h.sound hr, if_pos rfl, if_pos rfl]
      · have hview : (s.restoreAll [entry]).2.view p = s.view p := by
          refine view_restoreAll_of_not_mem h.sound fun e he hp => ?_
          rw [List.mem_singleton.1 he] at hp
          exact PageId.ne_of_compare_lt (hlt _ hm) hp
        rw [ih h.rest ho' hm, hview, atTurn_of_mem_tail ho hm]

/-- The bytes outside the pages whose images are put back stay. -/
theorem byte?_restoreAll {name : String} {i : Nat} (h : s.SizedFor size images)
    (ho : InPageOrder images)
    (hout : ∀ entry ∈ images, (s.atTurn images entry.1).obstacle? entry.1 = none →
      ∀ f, s.catalog.file entry.1.table = .ok f → f.name = name →
        i < entry.1.number * f.pageSize ∨ (entry.1.number + 1) * f.pageSize ≤ i) :
    (s.restoreAll images).2.disk.byte? name i = s.disk.byte? name i := by
  induction images generalizing s with
  | nil => rfl
  | cons entry images ih =>
      have hcatalog := (restored_restoreAll [entry] s).catalog
      have hone : (s.restoreAll [entry]).2.disk.byte? name i = s.disk.byte? name i := by
        rcases h.restore_cases with ⟨e, hob, -, hone⟩ | ⟨s₁, hob, hr, hone⟩
        · rw [hone]
        · rw [hone]
          exact byte?_restore hr (hout entry List.mem_cons_self (by rw [atTurn_head ho, hob]))
      rw [restoreAll_cons, ih h.rest (List.pairwise_cons.1 ho).2, hone]
      intro e he hnone f hf
      rw [hcatalog] at hf
      rw [← atTurn_of_mem_tail ho he] at hnone
      exact hout e (List.mem_cons_of_mem _ he) hnone f hf

/-! ## The lengths of files -/

/-- A file that an image is put back into reaches beyond the page then. -/
theorem pageCount_restore (hs : s.catalog.Sound) (h : s.restore id image = .ok s')
    (hf : s.catalog.file table = .ok f) (hn : f.Numbered (s'.disk.contents f)) :
    s'.disk.pageCount f =
      if id.table = table then max (s.disk.pageCount f) (id.number + 1)
      else s.disk.pageCount f := by
  have hold : f.Numbered (s.disk.contents f) :=
    hn.of_length_le ((restored_restore h).grows f.name)
  obtain ⟨g, disk, hg, hw, rfl⟩ := restore_eq_ok h
  obtain ⟨data, hdata, rfl⟩ := Disk.writeImage_eq_ok hw
  have hcontents := s.disk.contents_setContents_eq g f data
  split
  · rename_i ht
    obtain rfl : g = f := by
      rw [ht, hf] at hg
      exact (Except.ok.inj hg).symm
    obtain ⟨-, hl, hle, rfl⟩ := TableFile.writeImage_eq_ok hdata
    rw [if_pos rfl] at hcontents
    have hlength : (Bytes.overwrite (s.disk.contents g) (id.number * g.pageSize) image).length =
        max (s.disk.contents g).length ((id.number + 1) * g.pageSize) := by
      rw [Bytes.length_overwrite (TableFile.mul_pageSize_le hle), hl, Nat.succ_mul]
    have hnew : g.Numbered ((s.disk.setContents g _).contents g) := hn
    rw [Disk.pageCount_eq, Disk.pageCount_eq]
    show g.pageCount ((s.disk.setContents g _).contents g) = _
    rw [TableFile.pageCount, TableFile.pageCount, Nat.mod_eq_of_lt hnew, Nat.mod_eq_of_lt hold,
      hcontents, hlength]
    have hmono : Monotone fun n : Nat => n / g.pageSize := fun _ _ h => Nat.div_le_div_right h
    have hmul : (id.number + 1) * g.pageSize / g.pageSize = id.number + 1 :=
      Nat.mul_div_cancel _ g.pageSize_pos
    rw [hmono.map_max, hmul]
  · rename_i ht
    have hname : g.name ≠ f.name := fun he => ht (hs.apart hg hf he)
    rw [if_neg hname] at hcontents
    rw [Disk.pageCount_eq, Disk.pageCount_eq]
    show f.pageCount ((s.disk.setContents g data).contents f) = _
    rw [hcontents]

/-- There is one page more after the turn of the page at the end, and after any other turn there
are as many as before. -/
theorem pageCount_restoreAll_one (h : s.SizedFor size (entry :: images))
    (hf : s.catalog.file table = .ok f)
    (hn : f.Numbered ((s.restoreAll [entry]).2.disk.contents f)) :
    (s.restoreAll [entry]).2.disk.pageCount f =
      if entry.1.table = table ∧ entry.1.number = s.disk.pageCount f then s.disk.pageCount f + 1
      else s.disk.pageCount f := by
  rcases h.restore_cases with ⟨e, hob, -, hone⟩ | ⟨s₁, hob, hr, hone⟩
  · rw [hone, if_neg]
    rintro ⟨rfl, hnumber⟩
    have hnone : s.obstacle? entry.1 = none :=
      obstacle?_eq_none_iff.2 ⟨f, hf, Nat.le_of_eq hnumber⟩
    rw [hnone] at hob
    cases hob
  · rw [hone] at hn ⊢
    rw [pageCount_restore h.sound.catalog hr hf hn]
    by_cases ht : entry.1.table = table
    · obtain ⟨g, hg, hle⟩ := obstacle?_eq_none_iff.1 hob
      obtain rfl : g = f := by
        rw [ht, hf] at hg
        exact (Except.ok.inj hg).symm
      simp only [ht, true_and, if_true]
      split <;> omega
    · rw [if_neg ht, if_neg fun hc => ht hc.1]

/-- After some pages have had their turns, in page order, the file of a page reaches up to it if
it had reached there before, or if each page between had its turn. -/
theorem le_pageCount_restoreAll_iff (h : s.SizedFor size images) (ho : InPageOrder images)
    (hf : s.catalog.file p.table = .ok f)
    (hn : f.Numbered ((s.restoreAll images).2.disk.contents f)) :
    p.number ≤ (s.restoreAll images).2.disk.pageCount f ↔
      ∀ m, s.disk.pageCount f ≤ m → m < p.number →
        ∃ entry ∈ images, entry.1 = { p with number := m } := by
  induction images generalizing s with
  | nil =>
      show p.number ≤ s.disk.pageCount f ↔ _
      constructor
      · intro hle m hm hlt
        omega
      · intro hall
        by_contra hlt
        obtain ⟨_, he, -⟩ := hall _ (Nat.le_refl _) (Nat.lt_of_not_le hlt)
        cases he
  | cons entry images ih =>
      obtain ⟨id, image⟩ := entry
      obtain ⟨hlt', ho'⟩ := List.pairwise_cons.1 ho
      have hr := restored_restoreAll [(id, image)] s
      rw [restoreAll_cons] at hn ⊢
      have hone := pageCount_restoreAll_one h hf (hn.of_length_le
        ((restored_restoreAll images _).grows f.name))
      rw [ih h.rest ho' (hr.catalog ▸ hf) hn, hone]
      split
      · -- The image is put back at the end.
        rename_i hend
        have hid : id = { p with number := s.disk.pageCount f } := by rw [← hend.1, ← hend.2]
        constructor
        · intro hall m hm hlt
          rcases Nat.eq_or_lt_of_le hm with rfl | hm
          · exact ⟨_, List.mem_cons_self, hid⟩
          · obtain ⟨e, he, hpage⟩ := hall m hm hlt
            exact ⟨e, List.mem_cons_of_mem _ he, hpage⟩
        · intro hall m hm hlt
          obtain ⟨e, he, hpage⟩ := hall m (Nat.le_of_succ_le hm) hlt
          rcases List.mem_cons.1 he with rfl | he
          · rw [hid] at hpage
            injection hpage
            omega
          · exact ⟨e, he, hpage⟩
      · rename_i hend
        constructor
        · intro hall m hm hlt
          obtain ⟨e, he, hpage⟩ := hall m hm hlt
          exact ⟨e, List.mem_cons_of_mem _ he, hpage⟩
        · intro hall m hm hlt
          obtain ⟨e, he, hpage⟩ := hall m hm hlt
          rcases List.mem_cons.1 he with rfl | he
          · -- The page would leave a hole, and no page after it can fill it.
            exfalso
            have hpage : id = { p with number := m } := hpage
            obtain ⟨first, hfirst, hcount⟩ :=
              hall (s.disk.pageCount f) (Nat.le_refl _) (Nat.lt_of_le_of_lt hm hlt)
            rcases List.mem_cons.1 hfirst with rfl | hfirst
            · have hid : id = { p with number := s.disk.pageCount f } := hcount
              exact hend (by rw [hid]; exact ⟨rfl, rfl⟩)
            · have hbefore := hlt' _ hfirst
              rw [hcount, hpage] at hbefore
              exact absurd (PageId.compare_number_eq_lt_iff.1 hbefore) (Nat.not_lt.2 hm)
          · exact ⟨e, he, hpage⟩

/-! ## Abort -/

/-- The store when the turn of a page comes in the abort of a transaction. -/
def turnOf (s : Store) (t : TransactionId) (p : PageId) : Store :=
  (s.dropped t).atTurn (s.keptImages t) p

/-- What is in the way of the image that is kept of a page for a transaction, when its turn
comes. -/
def blocked? (s : Store) (t : TransactionId) (p : PageId) : Option StoreError :=
  (s.turnOf t p).obstacle? p

/-- Something is in the way of a page, and of no page before it. -/
def FirstBlocked (s : Store) (t : TransactionId) (p : PageId) (e : StoreError) : Prop :=
  (s.view p).kept t ≠ none ∧ s.blocked? t p = some e ∧
    ∀ q, compare q p = .lt → (s.view q).kept t ≠ none → s.blocked? t q = none

/-- An abort does all it can. -/
structure Undoes (s : Store) (t : TransactionId) : Prop where
  /-- The cached pages that the transaction has changed, and those that were written early for
  it, are dropped.  The others stay. -/
  copies : ∀ p, ((s.abort t).2.view p).copy =
    if (s.view p).Owns t then none else (s.view p).copy
  /-- A kept image is put back if its table is registered and the file is long enough by then. -/
  restored : ∀ p image f, (s.view p).kept t = some image → s.catalog.file p.table = .ok f →
    p.number ≤ (s.turnOf t p).disk.pageCount f → ((s.abort t).2.view p).image = some image
  /-- The image of every other page is what it was. -/
  others : ∀ p, (s.view p).kept t = none ∨ s.blocked? t p ≠ none →
    ((s.abort t).2.view p).image = (s.view p).image
  /-- And so is every byte of a file, be the table registered or not, outside the pages that are
  put back. -/
  bytes : ∀ name i,
    (∀ p f, (s.view p).kept t ≠ none → s.blocked? t p = none →
      s.catalog.file p.table = .ok f → f.name = name →
        i < p.number * f.pageSize ∨ (p.number + 1) * f.pageSize ≤ i) →
    (s.abort t).2.disk.byte? name i = s.disk.byte? name i
  /-- The transaction holds no lock any more.  Others hold theirs. -/
  locks : ∀ p u, ((s.abort t).2.view p).mode u = if t = u then none else (s.view p).mode u
  /-- The abort succeeds if nothing was in the way of any image. -/
  ok : (s.abort t).1 = .ok () ↔ ∀ p, (s.view p).kept t ≠ none → s.blocked? t p = none
  /-- Otherwise it reports what was in the way of the first one, in page order, that something
  was in the way of. -/
  error : ∀ e, (s.abort t).1 = .error e ↔ ∃ p, s.FirstBlocked t p e

/-- The tables have files of one page size, and the images that are kept have this size. -/
structure Whole (s : Store) (size : Nat) : Prop where
  sound : s.Sound
  files : s.catalog.OfSize size
  kept : ∀ ⦃t p image⦄, (s.view p).kept t = some image → image.length = size

theorem catalog_dropped (s : Store) (t : TransactionId) : (s.dropped t).catalog = s.catalog :=
  (foldl_dropSpoiled (s.spoiled t) s).2.1

theorem disk_dropped (s : Store) (t : TransactionId) : (s.dropped t).disk = s.disk :=
  (foldl_dropSpoiled (s.spoiled t) s).1

theorem inPageOrder_keptImages (s : Store) (t : TransactionId) :
    InPageOrder (s.keptImages t) := ExtTreeMap.ordered_keys_toList

theorem Whole.sizedFor (h : s.Whole size) (t : TransactionId) :
    (s.dropped t).SizedFor size (s.keptImages t) :=
  ⟨sound_dropped h.sound t, catalog_dropped s t ▸ h.files,
    fun _ he => h.kept (mem_keptImages.1 he)⟩

theorem exists_mem_keptImages :
    (∃ image, (p, image) ∈ s.keptImages t) ↔ (s.view p).kept t ≠ none := by
  simp only [mem_keptImages, Option.ne_none_iff_exists']

/-! ### What is in the way -/

/-- Nothing is in the way of a page if its table is registered and its file is long enough by the
time that its turn comes. -/
theorem blocked?_eq_none_iff :
    s.blocked? t p = none ↔
      ∃ f, s.catalog.file p.table = .ok f ∧ p.number ≤ (s.turnOf t p).disk.pageCount f := by
  have hcatalog : (s.turnOf t p).catalog = s.catalog :=
    (restored_restoreAll _ (s.dropped t)).catalog.trans (catalog_dropped s t)
  rw [blocked?, obstacle?_eq_none_iff, hcatalog]

/-- No file gets shorter after the turn of a page. -/
theorem grows_atTurn (ho : InPageOrder images) (p : PageId) :
    (s.atTurn images p).disk.Grows (s.restoreAll images).2.disk := by
  induction images generalizing s with
  | nil => exact Disk.Grows.refl _
  | cons entry images ih =>
      obtain ⟨hlt, ho'⟩ := List.pairwise_cons.1 ho
      by_cases hbefore : (compare entry.1 p).isLT = true
      · rw [atTurn, List.filter_cons, if_pos hbefore, restoreAll_cons s entry (images.filter _),
          restoreAll_cons s entry images]
        exact ih ho'
      · -- No page after it comes before the page.
        have hnone : (entry :: images).filter (fun e => (compare e.1 p).isLT) = [] := by
          rw [List.filter_eq_nil_iff]
          intro e he hep
          rcases List.mem_cons.1 he with rfl | he
          · exact hbefore hep
          · have hsmaller := Std.TransCmp.lt_trans (hlt e he) (Ordering.isLT_iff_eq_lt.1 hep)
            exact hbefore (Ordering.isLT_iff_eq_lt.2 hsmaller)
        rw [atTurn, hnone]
        exact (restored_restoreAll (entry :: images) s).grows

/-- Nothing is in the way of a page of a registered table if it lies inside the file, or if
images are kept of all pages between the end of the file and it, as long as the pages can be
counted. -/
theorem Whole.blocked?_eq_none_iff_kept (h : s.Whole size) (hf : s.catalog.file p.table = .ok f)
    (hn : (s.abort t).2.NumberedAt p) :
    s.blocked? t p = none ↔
      ∀ m, s.disk.pageCount f ≤ m → m < p.number →
        (s.view { p with number := m }).kept t ≠ none := by
  have hordered := inPageOrder_keptImages s t
  have hsized := h.sizedFor t
  have hturn : s.blocked? t p = none ↔ p.number ≤ (s.turnOf t p).disk.pageCount f := by
    rw [blocked?_eq_none_iff, hf]
    simp
  have hlater : (s.abort t).2.catalog.file p.table = .ok f := by
    rw [(abort_frame h.sound t).1, hf]
  have hdropped : (s.dropped t).catalog.file p.table = .ok f := by rw [catalog_dropped, hf]
  have hnumbered : f.Numbered ((s.turnOf t p).disk.contents f) :=
    (hn hlater).of_length_le (grows_atTurn hordered p f.name)
  have hearlier : (s.dropped t).SizedFor size
      ((s.keptImages t).filter fun entry => (compare entry.1 p).isLT) :=
    ⟨hsized.sound, hsized.files, fun e he => hsized.images e (List.mem_filter.1 he).1⟩
  have hreach := le_pageCount_restoreAll_iff hearlier (hordered.filter _) hdropped hnumbered
  rw [disk_dropped] at hreach
  rw [hturn]
  refine hreach.trans ?_
  refine forall_congr' fun m => imp_congr_right fun _ => forall_congr' fun hm => ?_
  rw [← exists_mem_keptImages]
  have hbefore : (compare ({ p with number := m } : PageId) p).isLT = true :=
    Ordering.isLT_iff_eq_lt.2 (PageId.compare_number_eq_lt_iff.2 hm)
  constructor
  · rintro ⟨⟨q, image⟩, he, rfl⟩
    exact ⟨image, (List.mem_filter.1 he).1⟩
  · rintro ⟨image, he⟩
    exact ⟨_, List.mem_filter.2 ⟨he, hbefore⟩, rfl⟩

/-! ### What an abort leaves and reports -/

/-- What an abort leaves of a page. -/
theorem Whole.view_abort (h : s.Whole size) (t : TransactionId) (p : PageId) :
    (s.abort t).2.view p =
      { (s.view p).cleared t with
        image := if s.blocked? t p = none then ((s.view p).kept t).or (s.view p).image
          else (s.view p).image
        copy := if (s.view p).Owns t then none else (s.view p).copy } := by
  have hsized := h.sizedFor t
  have hindexed := ((restored_restoreAll (s.keptImages t) (s.dropped t)).sound
    hsized.sound).indexed
  rw [abort_eq, view_releaseAll hindexed]
  cases hk : (s.view p).kept t with
  | none =>
      have hother : ∀ entry ∈ s.keptImages t, entry.1 ≠ p := by
        rintro ⟨q, image⟩ he rfl
        rw [mem_keptImages, hk] at he
        cases he
      rw [view_restoreAll_of_not_mem hsized.sound hother, view_dropped, Option.none_or, ite_self]
      rfl
  | some image =>
      rw [view_restoreAll hsized (inPageOrder_keptImages s t) (mem_keptImages.2 hk), view_dropped]
      show PageView.mk _ _ _ _ _ _ = _
      by_cases hb : s.blocked? t p = none
      · have hb' : ((s.dropped t).atTurn (s.keptImages t) p).obstacle? p = none := hb
        rw [if_pos hb', if_pos hb]
        rfl
      · have hb' : ((s.dropped t).atTurn (s.keptImages t) p).obstacle? p ≠ none := hb
        rw [if_neg hb', if_neg hb]
        rfl

/-- There is only one first page. -/
theorem FirstBlocked.error_eq {q : PageId} {e e' : StoreError} (h : s.FirstBlocked t p e)
    (h' : s.FirstBlocked t q e') : e = e' := by
  obtain ⟨hk, hb, hfirst⟩ := h
  obtain ⟨hk', hb', hfirst'⟩ := h'
  cases hc : compare q p with
  | lt =>
      rw [hfirst q hc hk'] at hb'
      cases hb'
  | eq =>
      obtain rfl : q = p := Std.LawfulEqCmp.compare_eq_iff_eq.1 hc
      exact Option.some.inj (hb.symm.trans hb')
  | gt =>
      rw [hfirst' p (Std.OrientedCmp.gt_iff_lt.1 hc) hk] at hb
      cases hb

/-- What an abort reports. -/
theorem Whole.abort_cases (h : s.Whole size) (t : TransactionId) :
    ((s.abort t).1 = .ok () ∧ ∀ p, (s.view p).kept t ≠ none → s.blocked? t p = none) ∨
      ∃ e p, (s.abort t).1 = .error e ∧ s.FirstBlocked t p e := by
  have hcases := restoreAll_cases (h.sizedFor t) (inPageOrder_keptImages s t)
  rw [show ((s.dropped t).restoreAll (s.keptImages t)).1 = (s.abort t).1 from rfl] at hcases
  rcases hcases with ⟨hok, hall⟩ | ⟨e, herror, ⟨p, image⟩, hm, hb, hfirst⟩
  · refine Or.inl ⟨hok, fun p hk => ?_⟩
    obtain ⟨image, hm⟩ := exists_mem_keptImages.2 hk
    exact hall (p, image) hm
  · refine Or.inr ⟨e, p, herror, exists_mem_keptImages.1 ⟨image, hm⟩, hb, fun q hq hk => ?_⟩
    obtain ⟨image', hm'⟩ := exists_mem_keptImages.2 hk
    exact hfirst (q, image') hm' hq

theorem Whole.abort_eq_ok_iff (h : s.Whole size) (t : TransactionId) :
    (s.abort t).1 = .ok () ↔ ∀ p, (s.view p).kept t ≠ none → s.blocked? t p = none := by
  rcases h.abort_cases t with ⟨hok, hall⟩ | ⟨e, p, herror, hk, hb, -⟩
  · exact iff_of_true hok hall
  · rw [herror]
    refine iff_of_false (fun hok => by cases hok) fun hall => ?_
    rw [hall p hk] at hb
    cases hb

theorem Whole.abort_eq_error_iff (h : s.Whole size) (t : TransactionId) (e : StoreError) :
    (s.abort t).1 = .error e ↔ ∃ p, s.FirstBlocked t p e := by
  rcases h.abort_cases t with ⟨hok, hall⟩ | ⟨e', p, herror, hfirst⟩
  · rw [hok]
    refine iff_of_false (fun he => by cases he) ?_
    rintro ⟨p, hk, hb, -⟩
    rw [hall p hk] at hb
    cases hb
  · rw [herror]
    constructor
    · rintro ⟨rfl⟩
      exact ⟨p, hfirst⟩
    · rintro ⟨q, hq⟩
      rw [hfirst.error_eq hq]

/-- The bytes outside the pages that are put back stay in an abort. -/
theorem Whole.byte?_abort (h : s.Whole size) {t : TransactionId} {name : String} {i : Nat}
    (hout : ∀ p f, (s.view p).kept t ≠ none → s.blocked? t p = none →
      s.catalog.file p.table = .ok f → f.name = name →
        i < p.number * f.pageSize ∨ (p.number + 1) * f.pageSize ≤ i) :
    (s.abort t).2.disk.byte? name i = s.disk.byte? name i := by
  have hbytes : ((s.dropped t).restoreAll (s.keptImages t)).2.disk.byte? name i =
      (s.dropped t).disk.byte? name i := by
    refine byte?_restoreAll (h.sizedFor t) (inPageOrder_keptImages s t) fun entry he hb f hf => ?_
    rw [catalog_dropped] at hf
    exact hout entry.1 f (exists_mem_keptImages.1 ⟨_, he⟩) hb hf
  rw [disk_dropped] at hbytes
  exact hbytes

/-- The abort of a store whose images are whole does all it can. -/
theorem Whole.undoes (h : s.Whole size) (t : TransactionId) : s.Undoes t where
  copies p := by rw [h.view_abort]
  restored p image f hk hf hn := by
    have hb : s.blocked? t p = none := blocked?_eq_none_iff.2 ⟨f, hf, hn⟩
    rw [h.view_abort]
    simp [hb, hk]
  others p hp := by
    rw [h.view_abort]
    rcases hp with hk | hb
    · simp [hk]
    · simp [hb]
  bytes name i hout := h.byte?_abort hout
  locks p u := by
    rw [h.view_abort]
    rfl
  ok := h.abort_eq_ok_iff t
  error := h.abort_eq_error_iff t

end Store

/-! ## Runs -/

namespace Traffic

variable {size : Nat} {s₀ : Store} {w : Traffic} {history : List Event}
  {free : Cache → Handle → Prop} {grips : List (TransactionId × Handle)}

/-- The images are whole in whatever store a run leads to. -/
theorem whole_of_run (h₀ : Fresh s₀) (hsize : s₀.catalog.OfSize size)
    (h : HandleRun (KeepsSize size) free s₀ history w grips) : w.store.Whole size := by
  have hsized := sized_of_run h₀ hsize h
  have hkeyed := (order_of_run h₀.cache h).keyed
  have hindexed := (regular_of_run h₀.locks h).indexed
  exact ⟨⟨hsized.catalog, hkeyed, hindexed⟩, hsized.store.files,
    fun _ _ _ hk => hsized.store.cache.kept hk⟩

/-- An abort does all it can, whatever images are kept, and whichever of their tables are gone or
have files that are too short by then.  The images have to be whole.  They are whatever has been
done before, to pages, to tables and to files. -/
theorem undoes_what_it_can :
    (∀ {size : Nat} {s₀ : Store} {w : Traffic} {history : List Event}
        {free : Cache → Handle → Prop} {grips : List (TransactionId × Handle)},
      Fresh s₀ → s₀.catalog.OfSize size →
        HandleRun (KeepsSize size) free s₀ history w grips → w.store.Whole size) ∧
      ∀ {size : Nat} {s : Store} (t : TransactionId), s.Whole size → s.Undoes t :=
  ⟨whole_of_run, fun t h => h.undoes t⟩

namespace Small

/-- A transaction deletes the rows of the first and the last page, and both are written early.
Then the file is cut to nothing. -/
def shortening : List Move :=
  deletions ++ [.flushAll, .replace store.catalog (store.disk.setContents file [])]

theorem ofSize : store.catalog.OfSize 5 := by
  intro t f hf
  obtain ⟨-, rfl⟩ := file_eq hf
  rfl

theorem handleRun_shortening :
    HandleRun (KeepsSize 5) (fun _ _ => True) store (after shortening).1 (after shortening).2
      (({ store } : Traffic).regrips [] shortening) := by
  have hrule : ∀ move ∈ shortening, ∀ l w w', KeepsSize 5 l w move w' := by
    simp [shortening, deletions, KeepsSize, fresh.catalog, ofSize]
  exact HandleRun.steps .start hrule (eq_some_getD (by decide +kernel) ([], { store }))

end Small

/-- The image of the first page is put back at the beginning of the file.  After it the last page
would leave a hole. -/
theorem undoes_what_it_can_small :
    ((Small.after Small.shortening).2.store.abort ⟨0⟩).1 = .error (.pageNotFound (Small.page 2)) ∧
      (∃ p, (Small.after Small.shortening).2.store.FirstBlocked ⟨0⟩ p
        (.pageNotFound (Small.page 2))) ∧
      (((Small.after Small.shortening).2.store.abort ⟨0⟩).2.view (Small.page 0)).image =
        some [1, 0, 0, 0, 1] := by
  have hwhole := undoes_what_it_can.1 Small.fresh Small.ofSize Small.handleRun_shortening
  have hundoes := undoes_what_it_can.2 ⟨0⟩ hwhole
  have herror : ((Small.after Small.shortening).2.store.abort ⟨0⟩).1 =
      .error (.pageNotFound (Small.page 2)) := by decide +kernel
  exact ⟨herror, (hundoes.error _).1 herror,
    hundoes.restored (Small.page 0) _ Small.file (by decide +kernel) rfl (by decide +kernel)⟩

end Traffic

end PagedStore
