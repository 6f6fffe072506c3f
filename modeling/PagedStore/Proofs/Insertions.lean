import PagedStore.Proofs.AlikeTraffic
import PagedStore.Proofs.HeldPages

/-!
# Placing rows

A row goes into a page that has room.  Between the look at a page and the time when the row is
put there, the transaction holds the page, so that nobody can take the room away.  A page that
it puts at the end of the file is another matter.  The page is there for all before it is
locked, and others may fill it while its lock is waited for.  This is the only way in which there
can be no slot for a row (`Traffic.insertion_result`).

What a task knows of the page that it has asked for is `Insertion.AptAt`.  It is kept by what
others do (`Insertion.AptAt.keep`), and each stage of an insertion establishes it for the next
(`submit_apt`).
-/

namespace PagedStore

open Store (Grew)

variable {before s s' : Store} {t : TransactionId} {p id : PageId} {l : Ledger} {i : Insertion}
  {stage : Stage} {frame : Frame}

/-! ## Room on a page -/

/-- Who fetches the page finds a free slot. -/
def PageView.HasRoom (v : PageView) : Prop := ∃ c, v.content = some c ∧ none ∈ c

namespace Page

theorem none_mem_content {page : Page} : none ∈ page.content ↔ none ∈ page.slots := by
  simp [content]

theorem countFree_pos_iff {page : Page} : 0 < page.countFree ↔ none ∈ page.content := by
  rw [countFree, List.countP_pos_iff, none_mem_content]
  constructor
  · rintro ⟨slot, hm, hn⟩
    rwa [Option.isNone_iff_eq_none.1 hn] at hm
  · exact fun hm => ⟨none, hm, rfl⟩

/-- A row with the columns of a page is put into a free slot, if there is one. -/
theorem insert_cases {page : Page} {row : Row} (h : row.schema.SameTypes page.schema) :
    (none ∉ page.content ∧ page.insert row = .error (.pageFull page.id)) ∨
      ∃ slot page', page.content[slot]? = some none ∧
        page.insert row = .ok ({ page := page.id, slot }, page') := by
  rw [insert, if_neg (not_not_intro h)]
  cases hfind : page.slots.findIdx? Option.isNone with
  | none =>
      refine Or.inl ⟨fun hm => ?_, rfl⟩
      have hused := List.findIdx?_eq_none_iff.1 hfind none (none_mem_content.1 hm)
      cases hused
  | some slot =>
      obtain ⟨hlt, hfree, -⟩ := List.findIdx?_eq_some_iff_getElem.1 hfind
      refine Or.inr ⟨slot, _, ?_, rfl⟩
      rw [content, List.getElem?_map, List.getElem?_eq_getElem hlt,
        Option.isNone_iff_eq_none.1 hfree]
      rfl

end Page

/-! ## Pages that are there -/

/-- The pages of a table can be counted, and what is cached lies inside its file. -/
structure Store.Seated (s : Store) : Prop where
  catalog : s.catalog.Sound
  numbered : ∀ p, s.NumberedAt p
  uncached : ∀ p, (s.view p).image = none → (s.view p).copy = none

theorem Store.Seated.change (h : s.Seated) (id : PageId) (f : Page → Page) :
    (s.onCache fun c => c.update id f).Seated := by
  refine ⟨h.catalog, h.numbered, fun p hp => ?_⟩
  have hcopy : (s.view p).copy = none := h.uncached p hp
  rw [Store.view_update]
  split
  · show (s.view p).copy.map f = none
    rw [hcopy, Option.map_none]
  · exact hcopy

theorem Store.Follows.seated (h : s.Follows l) : s.Seated :=
  ⟨h.sound.catalog, h.numbered, fun p => (h.view p).copy_of_no_image⟩

/-- A page is there, or it cannot be read. -/
theorem PageView.corrupt_of_fetchError? {v : PageView} {f : TableFile} {e : StoreError}
    (hf : v.file = some f) (hi : v.image ≠ none) (he : v.fetchError? = some e) :
    ∃ fault, e = .corruptPage v.id fault := by
  obtain ⟨image, himage⟩ := Option.ne_none_iff_exists'.1 hi
  rw [fetchError?] at he
  split at he
  · cases he
  · rw [read, hf, himage] at he
    dsimp only at he
    cases hd : Page.decode v.id f.schema f.pageSize image with
    | ok page =>
        rw [hd] at he
        cases he
    | error fault =>
        rw [hd] at he
        cases he
        exact ⟨fault, rfl⟩

/-! ## What an insertion knows of its page -/

namespace Insertion

/-- The page that a stage of an insertion has asked for is there, and it is one of the table of
the row.  The same holds for the pages that are still to be looked at. -/
structure LocatedAt (i : Insertion) (s : Store) (id : PageId) (stage : Stage) : Prop where
  file : s.catalog.file i.file.table = .ok i.file
  types : i.row.schema.SameTypes i.file.schema
  table : id.table = i.file.table
  image : (s.view id).image ≠ none
  counted : ∀ ⦃page count held⦄, stage = .look i page count held → ∀ n < count,
    (s.view { table := i.file.table, number := n }).image ≠ none

/-- Besides, there is room on a page that the row is to be put into, if the transaction holds
the page.  If it does not, the page was not there before the insertion began. -/
structure AptAt (i : Insertion) (before s : Store) (t : TransactionId) (id : PageId)
    (stage : Stage) : Prop extends LocatedAt i s id stage where
  room : stage = .place i → (s.view id).mode t ≠ none → (s.view id).HasRoom
  added : stage = .place i → (s.view id).mode t = none → (before.view id).image = none

theorem LocatedAt.grew (h : i.LocatedAt s id stage) (hg : Grew s s') : i.LocatedAt s' id stage where
  file := hg.catalog ▸ h.file
  types := h.types
  table := h.table
  image := hg.image h.image
  counted _ _ _ he n hn := hg.image (h.counted he n hn)

/-- It stays so as long as the page keeps its content while the transaction holds it. -/
theorem AptAt.keep (h : i.AptAt before s t id stage) (hg : Grew s s')
    (hm : (s'.view id).mode t = (s.view id).mode t)
    (hc : (s.view id).mode t ≠ none → (s'.view id).content = (s.view id).content) :
    i.AptAt before s' t id stage := by
  refine ⟨h.toLocatedAt.grew hg, fun he hheld => ?_, fun he hfree => h.added he (hm ▸ hfree)⟩
  rw [hm] at hheld
  obtain ⟨c, hcontent, hfree⟩ := h.room he hheld
  exact ⟨c, (hc hheld).trans hcontent, hfree⟩

end Insertion

/-- What is done next is not an insertion, or one that knows its page. -/
def Next.Apt (before s : Store) (t : TransactionId) (n : Next) : Prop :=
  ∀ ⦃id mode stage i⦄, n = .ask id mode stage → stage.insertion? = some i →
    i.AptAt before s t id stage

theorem Next.apt_answer (before s : Store) (t : TransactionId) (a : Answer) :
    (Next.answer a).Apt before s t := by
  intro id mode stage i h
  cases h

theorem Next.apt_ask {mode : LockMode} (hi : stage.insertion? = some i)
    (h : i.AptAt before s t id stage) : (Next.ask id mode stage).Apt before s t := by
  rintro _ _ _ j ⟨rfl⟩ hj
  rw [hi] at hj
  cases hj
  exact h

theorem Next.apt_of_idle {mode : LockMode} (hi : stage.insertion? = none) :
    (Next.ask id mode stage).Apt before s t := by
  rintro _ _ _ j ⟨rfl⟩ hj
  rw [hi] at hj
  cases hj

theorem Scan.Stop.apt_next (number : Nat) (stop : Scan.Stop) :
    (stop.next number).Apt before s t := by
  cases stop with
  | answered => exact Next.apt_answer ..
  | needs => exact Next.apt_of_idle rfl

namespace Insertion

/-- A page that is put at the end of the file has only free slots. -/
theorem append_apt (hs : s.Seated) (hg : Grew before s)
    (hf : s.catalog.file i.file.table = .ok i.file) (ht : i.row.schema.SameTypes i.file.schema) :
    i.AptAt before { s with disk := (s.disk.append i.file).2 } t
      { table := i.file.table, number := (s.disk.append i.file).1 } (.place i) := by
  have happended : s.Appended i.file
      { table := i.file.table, number := (s.disk.append i.file).1 } := ⟨i.file, hf, rfl, rfl⟩
  have hsame : ∀ g, s.catalog.file i.file.table = .ok g → g.name = i.file.name → g = i.file := by
    intro g hg _
    rw [hf] at hg
    exact (Except.ok.inj hg).symm
  generalize hid : ({ table := i.file.table, number := (s.disk.append i.file).1 } : PageId) = id
    at happended
  have htable : id.table = i.file.table := by rw [← hid]
  have hfile : (s.view id).file = some i.file := Store.file_view (htable ▸ hf)
  obtain ⟨-, himage, hview⟩ :=
    (Store.view_append (hs.numbered id) (htable ▸ hsame)).1 happended
  have hblank : (s.view id).blank ≠ none := by
    rw [PageView.blank, hfile]
    exact Option.some_ne_none _
  refine ⟨⟨hf, ht, htable, ?_, fun _ _ _ he => by cases he⟩, fun _ _ => ?_, fun _ _ => ?_⟩
  · rw [hview]
    exact hblank
  · have hcopy : (Store.view { s with disk := (s.disk.append i.file).2 } id).copy = none := by
      rw [hview]
      exact hs.uncached id himage
    refine ⟨List.replicate (slotsPerPage i.file.pageSize i.file.schema) none, ?_, ?_⟩
    · rw [PageView.content_of_none hcopy, hview, PageView.present_appended himage]
      exact Store.firstContent_of_none hfile himage
    · exact List.mem_replicate.2 ⟨Nat.ne_of_gt i.file.fits, rfl⟩
  · by_contra hthere
    exact hg.image hthere himage

theorem search_apt (hs : s.Seated) (hg : Grew before s)
    (hf : s.catalog.file i.file.table = .ok i.file) (ht : i.row.schema.SameTypes i.file.schema)
    {count : Nat}
    (hc : ∀ n < count, (s.view { table := i.file.table, number := n }).image ≠ none) (page : Nat) :
    (i.search s t page count).2.Apt before (i.search s t page count).1 t := by
  rw [search]
  split
  · rename_i hlt
    refine Next.apt_ask rfl
      ⟨⟨hf, ht, rfl, hc page hlt, ?_⟩, fun he => (by cases he), fun he => (by cases he)⟩
    rintro _ _ _ ⟨rfl⟩
    exact hc
  · exact Next.apt_ask rfl (append_apt hs hg hf ht)

theorem begin_apt (hs : s.Seated) (hg : Grew before s) (table : TableId) (schema : Schema)
    (stored : List RecordId) (rows : List (List Field)) :
    (begin s t table schema stored rows).2.Apt before (begin s t table schema stored rows).1 t := by
  cases rows with
  | nil => exact Next.apt_answer ..
  | cons fields rows =>
      rw [begin]
      split
      · exact Next.apt_answer ..
      · rename_i row hrow
        split
        · exact Next.apt_answer ..
        · rename_i f hf
          split
          · rename_i htypes
            rw [← hs.catalog.table hf] at hf
            refine search_apt (i := { row, file := f, .. }) hs hg hf htypes (fun n hn => ?_) 0
            rw [Store.image_view hf]
            rw [Disk.pageCount_eq] at hn
            show f.image? _ n ≠ none
            rw [TableFile.image?_of_lt_pageCount hn]
            exact Option.some_ne_none _
          · exact Next.apt_answer ..

theorem looked_apt (hs : s.Seated) (hg : Grew before s) (hp : s.cache.page? id = some frame.page)
    (hid : frame.page.id = id) (hheld : (s.view id).mode t ≠ none) {page count : Nat} {held : Bool}
    (h : i.LocatedAt s id (.look i page count held)) :
    (i.looked s t page count held frame).2.Apt before (i.looked s t page count held frame).1 t := by
  rw [looked]
  split
  · rename_i hfree
    rw [hid]
    refine Next.apt_ask rfl ⟨⟨h.file, h.types, h.table, h.image, fun _ _ _ he => by cases he⟩,
      fun _ _ => ?_, fun _ hn => absurd hn hheld⟩
    exact ⟨_, PageView.content_of_copy (v := s.view id) hp, Page.countFree_pos_iff.1 hfree⟩
  · cases held with
    | true => exact search_apt hs hg h.file h.types (h.counted rfl) _
    | false =>
        have hreleased : (s.releasePage t frame.page.id).2.Seated :=
          ⟨hs.catalog, hs.numbered, hs.uncached⟩
        exact search_apt hreleased ⟨hg.catalog, hg.grows⟩ h.file h.types (h.counted rfl) _

end Insertion

/-! ## Going on -/

/-- Without its page a task asks for no page to insert a row. -/
theorem Stage.apt_resume_error (stage : Stage) (s : Store) (t : TransactionId) (e : StoreError) :
    (stage.resume s t (.error e)).2.Apt before s' t := by
  cases stage with
  | feed => exact Scan.Stop.apt_next ..
  | _ => exact Next.apt_answer ..

/-- The next stage of an insertion knows its page. -/
theorem Stage.apt_resume_ok (stage : Stage) (hs : s.Seated) (hg : Grew before s)
    (hp : s.cache.page? id = some frame.page) (hid : frame.page.id = id)
    (hheld : (s.view id).mode t ≠ none)
    (h : ∀ ⦃i⦄, stage.insertion? = some i → i.LocatedAt s id stage) :
    (stage.resume s t (.ok frame)).2.Apt before (stage.resume s t (.ok frame)).1 t := by
  cases stage with
  | get => exact Next.apt_answer ..
  | look i page count held => exact Insertion.looked_apt hs hg hp hid hheld (h rfl)
  | place i =>
      rw [resume, Insertion.place]
      split
      · exact Next.apt_answer ..
      · rename_i record page hinsert
        exact Insertion.begin_apt (hs.change page.id fun _ => page) ⟨hg.catalog, hg.grows⟩ ..
  | delete record answer =>
      rw [resume]
      split <;> exact Next.apt_answer ..
  | feed => exact Scan.Stop.apt_next ..

/-! ## Evaluating the request -/

section Submit

variable {r : LockRequest} {source : TableFile}

/-- A page that is granted and fetched is in the cache of a store that follows the ledger, and
its content is the one that it had before. -/
theorem Store.Follows.granted_fetch (hs : s.Follows l)
    (hf : s.catalog.file r.page.table = .ok source) (hv : (s.locks.consider t r).1 = .granted) :
    (∃ e, (e = .noEvictablePage ∨ (s.view r.page).fetchError? = some e) ∧
        ({ s with locks := (s.locks.consider t r).2 }.fetch t source r.page r.mode).1 = .error e) ∨
      ∃ s₁ frame l', s₁.Follows l' ∧ Grew s s₁ ∧ (s₁.view r.page).mode t ≠ none ∧
        s₁.cache.page? r.page = some frame.page ∧
          (s.view r.page).content = some frame.page.content ∧
            { s with locks := (s.locks.consider t r).2 }.fetch t source r.page r.mode =
              (.ok frame, s₁) := by
  rcases (hs.granted hv).fetch_result hf (hs.openTo_of_granted hv) r.mode with
    ⟨e, he, hfetch, -⟩ | ⟨s₁, page, frame, -, hq, hp, hpage, hfetch⟩
  · exact Or.inl ⟨e, he, hfetch⟩
  · have hfollows := hq.follows (hs.granted hv)
    have hheld : s₁.locks.modeOf? r.page t ≠ none := by
      rw [(hq.quiet r.page).locks, LockTable.modeOf?_of_granted hv, if_pos ⟨rfl, rfl⟩]
      exact Option.some_ne_none _
    refine Or.inr ⟨_, frame, _, hfollows.taken (hq.exclusive_of_granted hv) hp,
      ⟨(hq.quiet r.page).catalog, (hq.quiet r.page).grows⟩, hheld,
      Store.page?_take_self hp hpage, ?_, hfetch⟩
    rw [hpage, Traffic.content_taken, ← PageView.content_of_copy (v := s₁.view r.page) hp]
    exact ((hq.alike (hs.granted hv)).view r.page).content.symm

end Submit

/-! ## What comes of an insertion -/

/-- What can come of the request of an insertion: the verdict, and what the task does next if it
goes on.  The stores are the one before the insertion began, the one on which the request is
evaluated, and the one after that. -/
inductive Insertion.Result (i : Insertion) (before s after : Store) (t : TransactionId)
    (id : PageId) (stage : Stage) : Verdict → Option Next → Prop
  /-- The task waits. -/
  | waits : Result i before s after t id stage .waits none
  /-- The transaction is to be aborted. -/
  | refused :
      Result i before s after t id stage .refused (some (stop i.stored (some (.aborted t))))
  /-- There is no room for the page in the cache. -/
  | crowded :
      Result i before s after t id stage .granted (some (stop i.stored (some .noEvictablePage)))
  /-- The page cannot be read. -/
  | corrupt (fault : PageFault) :
      Result i before s after t id stage .granted
        (some (stop i.stored (some (.corruptPage id fault))))
  /-- The task asks for another page, and gets closer to its end. -/
  | asks {page : PageId} {mode : LockMode} {next : Stage} :
      next.insertion? = some i → Cheaper next.cost stage.cost →
        Result i before s after t id stage .granted (some (.ask page mode next))
  /-- The row is put into a free slot, and the task goes on with the next row. -/
  | stores {old : Content} {slot : Nat} {s' : Store} :
      stage = .place i → (s.view id).content = some old → old[slot]? = some none →
        (s'.view id).content = some (old.set slot (some i.row.fields)) →
          after = (begin s' t i.table i.schema ({ page := id, slot } :: i.stored) i.rows).1 →
            Result i before s after t id stage .granted
              (some (begin s' t i.table i.schema ({ page := id, slot } :: i.stored) i.rows).2)
  /-- The row was to be put into a page that was not there before the insertion began.  The
  transaction did not hold the page, and the page is full by now. -/
  | full {old : Content} :
      stage = .place i → (s.view id).mode t = none → (before.view id).image = none →
        (s.view id).content = some old → none ∉ old →
          Result i before s after t id stage .granted (some (stop i.stored (some (.pageFull id))))

theorem Stage.stop_of_resume_error (hi : stage.insertion? = some i) (s : Store)
    (t : TransactionId) (e : StoreError) :
    (stage.resume s t (.error e)).2 = Insertion.stop i.stored (some e) := by
  cases stage with
  | look | place =>
      cases hi
      rfl
  | _ => cases hi

/-- A stage of an insertion is a look at a page, or the row is put into the page. -/
theorem Stage.insertion?_eq_some (hi : stage.insertion? = some i) :
    (∃ page count held, stage = .look i page count held) ∨ stage = .place i := by
  cases stage with
  | look j page count held =>
      cases hi
      exact Or.inl ⟨page, count, held, rfl⟩
  | place j =>
      cases hi
      exact Or.inr rfl
  | _ => cases hi

/-- The request is to insert rows with these columns, be they given or those of the table. -/
inductive Request.Inserts (s : Store) (table : TableId) (schema : Schema)
    (rows : List (List Field)) : Request → Prop
  | given : Inserts s table schema rows (.insert table (some schema) rows)
  | ofTable :
      s.catalog.schema table = .ok schema → Inserts s table schema rows (.insert table none rows)

theorem Request.Inserts.start_eq {request : Request} {table : TableId} {schema : Schema}
    {rows : List (List Field)} (h : request.Inserts s table schema rows) :
    request.start s t = Insertion.begin s t table schema [] rows := by
  cases h with
  | given => rfl
  | ofTable hschema => rw [start, hschema]

/-- To find a place for a row a task asks for a page. -/
theorem Insertion.asks_of_search (i : Insertion) (s : Store) (t : TransactionId)
    (page count : Nat) : ∃ id mode next, (i.search s t page count).2 = .ask id mode next ∧
      next.insertion? = some i := by
  rw [search]
  split <;> exact ⟨_, _, _, rfl, rfl⟩

theorem Insertion.asks_of_looked (i : Insertion) (s : Store) (t : TransactionId)
    (page count : Nat) (held : Bool) (frame : Frame) :
    ∃ id mode next, (i.looked s t page count held frame).2 = .ask id mode next ∧
      next.insertion? = some i := by
  rw [looked]
  split
  · exact ⟨_, _, _, rfl, rfl⟩
  · exact i.asks_of_search ..

/-- A page that is full takes no row.  Any other page of the table takes the row. -/
theorem Insertion.place_cases (i : Insertion) (hs : s.Follows l)
    (hf : (s.view id).file = some i.file) (ht : i.row.schema.SameTypes i.file.schema)
    (hp : s.cache.page? id = some frame.page) :
    (none ∉ frame.page.content ∧
        (i.place s t frame).2 = stop i.stored (some (.pageFull id))) ∨
      ∃ slot s', frame.page.content[slot]? = some none ∧
        (s'.view id).content = some (frame.page.content.set slot (some i.row.fields)) ∧
          i.place s t frame =
            begin s' t i.table i.schema ({ page := id, slot } :: i.stored) i.rows := by
  have hfits := (hs.view id).fits hp
  have hid : frame.page.id = id := hfits.id
  obtain ⟨f, hfile, hschema, -⟩ := hfits.file
  obtain rfl : i.file = f := Option.some.inj (hf.symm.trans hfile)
  rw [place]
  rcases Page.insert_cases (hschema ▸ ht) with ⟨hfull, hinsert⟩ | ⟨slot, page, hslot, hinsert⟩
  · rw [hinsert, hid]
    exact Or.inl ⟨hfull, rfl⟩
  · rw [hinsert, hid]
    refine Or.inr ⟨slot, s.onCache fun c => c.update page.id fun _ => page, hslot, ?_, rfl⟩
    have hpage : page.id = id := by
      obtain ⟨-, -, rfl⟩ := Page.insert_eq_ok hinsert
      exact hid
    have hcopy :
        ((s.onCache fun c => c.update page.id fun _ => page).view id).copy = some page := by
      rw [hpage, Store.view_update, if_pos rfl]
      show (s.cache.page? id).map _ = _
      rw [hp, Option.map_some]
    rw [PageView.content_of_copy hcopy, Page.content_of_insert hinsert]
    rfl

section Submit

variable {r : LockRequest} {source : TableFile}

/-- What comes of the request of an insertion that knows its page. -/
theorem submit_result (hs : s.Follows l) (hf : s.catalog.file r.page.table = .ok source)
    (hi : stage.insertion? = some i) (ha : i.AptAt before s t r.page stage) :
    i.Result before s (submit s t source r stage).2 t r.page stage (s.locks.consider t r).1
      (submit s t source r stage).1 := by
  cases hv : (s.locks.consider t r).1 with
  | waits =>
      rw [(submit_of_waits source stage hv).2]
      exact .waits
  | refused =>
      rw [(submit_of_refused source stage hv).2]
      dsimp only
      rw [Stage.stop_of_resume_error hi]
      exact .refused
  | granted =>
      rw [(submit_of_granted source stage hv rfl).2]
      have hfile : (s.view r.page).file = some i.file := Store.file_view (ha.table ▸ ha.file)
      rcases hs.granted_fetch hf hv with
        ⟨e, he, hfetch⟩ | ⟨s₁, frame, l', hs₁, hg, hheld, hp, hcontent, hfetch⟩
      · rw [hfetch]
        dsimp only
        rw [Stage.stop_of_resume_error hi]
        rcases he with rfl | he
        · exact .crowded
        · obtain ⟨fault, rfl⟩ := PageView.corrupt_of_fetchError? hfile ha.image he
          exact .corrupt fault
      · rw [hfetch]
        dsimp only
        rcases Stage.insertion?_eq_some hi with ⟨page, count, held, rfl⟩ | rfl
        · have hcheaper := Stage.cost_resume_lt s₁ t (.look i page count held) (.ok frame)
          obtain ⟨id, mode, next, hnext, hsame⟩ := i.asks_of_looked s₁ t page count held frame
          rw [Stage.resume] at hcheaper ⊢
          rw [hnext] at hcheaper ⊢
          exact .asks hsame hcheaper
        · have hfile₁ : (s₁.view r.page).file = some i.file := by
            rw [Store.view, hg.catalog]
            exact hfile
          rw [Stage.resume]
          rcases i.place_cases (t := t) hs₁ hfile₁ ha.types hp with
            ⟨hfull, hnext⟩ | ⟨slot, s₂, hslot, hstored, hnext⟩
          · -- A page that the transaction holds has room, so it does not hold this one.
            have hmode : (s.view r.page).mode t = none := by
              by_contra hm
              obtain ⟨c, hc, hfree⟩ := ha.room rfl hm
              rw [hcontent] at hc
              cases hc
              exact hfull hfree
            rw [hnext]
            exact .full rfl hmode (ha.added rfl hmode) hcontent hfull
          · rw [hnext]
            exact .stores rfl hcontent hslot hstored rfl

/-- A task does not go on only if its request waits. -/
theorem submit_of_eq_none (h : (submit s t source r stage).1 = none) :
    (s.locks.consider t r).1 = .waits ∧
      (submit s t source r stage).2 = { s with locks := (s.locks.consider t r).2 } := by
  cases hv : (s.locks.consider t r).1 with
  | waits => exact ⟨rfl, by rw [(submit_of_waits source stage hv).2]⟩
  | refused =>
      rw [(submit_of_refused source stage hv).2] at h
      cases h
  | granted =>
      rw [(submit_of_granted source stage hv rfl).2] at h
      cases h

/-- What a task does after its request is evaluated knows its page. -/
theorem submit_apt (hs : s.Follows l) (hb : Grew before s)
    (hf : s.catalog.file r.page.table = .ok source)
    (ha : ∀ ⦃i⦄, stage.insertion? = some i → i.LocatedAt s r.page stage) {n : Next}
    (hn : (submit s t source r stage).1 = some n) :
    n.Apt before (submit s t source r stage).2 t := by
  cases hv : (s.locks.consider t r).1 with
  | waits =>
      rw [(submit_of_waits source stage hv).2] at hn
      cases hn
  | refused =>
      rw [(submit_of_refused source stage hv).2] at hn ⊢
      cases hn
      exact stage.apt_resume_error ..
  | granted =>
      rw [(submit_of_granted source stage hv rfl).2] at hn ⊢
      rcases hs.granted_fetch hf hv with
        ⟨e, -, hfetch⟩ | ⟨s₁, frame, l', hs₁, hg, hheld, hp, -, hfetch⟩
      · rw [hfetch] at hn
        cases hn
        exact stage.apt_resume_error ..
      · rw [hfetch] at hn ⊢
        cases hn
        exact stage.apt_resume_ok hs₁.seated (hb.trans hg) hp ((hs₁.view r.page).fits hp).id hheld
          fun i hi => (ha hi).grew hg

end Submit

theorem Request.start_apt (request : Request) (hs : s.Seated) (hb : Grew before s) :
    (request.start s t).2.Apt before (request.start s t).1 t := by
  cases request with
  | getPage => exact Next.apt_of_idle rfl
  | insert table schema rows =>
      cases schema with
      | some schema => exact Insertion.begin_apt hs hb table schema [] rows
      | none =>
          rw [start]
          split
          · exact Next.apt_answer ..
          · exact Insertion.begin_apt hs hb table _ [] rows
  | delete record =>
      cases record with
      | none => exact Next.apt_answer ..
      | some record =>
          rw [start]
          split
          · exact Next.apt_answer ..
          · exact Next.apt_of_idle rfl
  | deleteFrom table record =>
      rw [start]
      split
      · exact Next.apt_answer ..
      · cases record with
        | none => exact Next.apt_answer ..
        | some record =>
            dsimp only
            split
            · exact Next.apt_of_idle rfl
            · exact Next.apt_answer ..
  | pull => exact Scan.Stop.apt_next ..

theorem Next.Apt.task {n : Next} {task : Task} (h : n.Apt before s t)
    (ht : Task.ofNext n = some task) (hi : task.stage.insertion? = some i) :
    i.AptAt before s t task.page task.stage := by
  cases n with
  | answer => cases ht
  | ask id mode stage =>
      cases ht
      exact h rfl hi

end PagedStore
