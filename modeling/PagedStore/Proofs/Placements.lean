import PagedStore.Proofs.AsideSteps
import PagedStore.Proofs.CurrentPages

/-!
# Where a row goes

A row that is inserted goes into the first page of its table that has a free slot, and there into
the first free slot.  If all pages are full it goes into a new page at the end of the file
(`Store.Places`).  Nothing else is changed.  Every other page holds what it held, and every other
lock is as it was.  The pages that are passed over on the way are looked at one by one, and some
that were cached may have to leave the cache for them.  But a page that is full is released again,
unless the transaction held it before, and nobody becomes its owner.

This is so for every insertion that ends without having waited (`Traffic.insertion_places`),
after every run in which tables are only added, and in which no copy is changed through a handle
that is cached and has no owner.  Without these two conditions a page may hold something else
when it has left the cache (`Traffic.not_places_small`).
-/

namespace PagedStore

open Std (ExtTreeMap)
open Store (Aside SameContents Grew)

variable {p id : PageId} {t u : TransactionId} {s s' s₁ : Store} {f source : TableFile}
  {mode : LockMode} {stage : Stage} {i : Insertion} {frame : Frame} {a : Answer} {n : Next}
  {record : RecordId} {records : List RecordId} {fields : List Field}

/-! ## Slots -/

namespace Page

theorem findIdx?_content (page : Page) :
    page.content.findIdx? Option.isNone = page.slots.findIdx? Option.isNone := by
  rw [content, List.findIdx?_map]
  exact congrArg (fun q => page.slots.findIdx? q) (funext fun entry => Option.isNone_map)

/-- A row is stored in the first free slot, under the address of the slot. -/
theorem stored_of_insert {page page' : Page} {row : Row}
    (h : page.insert row = .ok (record, page')) :
    page.content.findIdx? Option.isNone = some record.slot ∧
      page'.rowAt? record.slot = some (row.placedAt (some record)) := by
  rw [findIdx?_content]
  rw [insert] at h
  split at h
  · cases h
  · split at h
    · cases h
    · rename_i slot hslot
      cases h
      obtain ⟨hlt, -, -⟩ := List.findIdx?_eq_some_iff_getElem.1 hslot
      refine ⟨hslot, ?_⟩
      rw [rowAt?, List.getElem?_set_self hlt]
      rfl

end Page

/-- Who fetches the page finds no free slot. -/
def PageView.Full (v : PageView) : Prop := ∃ c, v.content = some c ∧ none ∉ c

/-! ## Locks -/

/-- When a page was granted to read it, and is released unless it was held before, the locks are as
they were. -/
theorem LockTable.modeOf?_passed {l : LockTable}
    (hv : (l.consider t { page := id, mode := .shared }).1 = .granted) (q : PageId)
    (u : TransactionId) :
    (if l.holds id t then (l.consider t { page := id, mode := .shared }).2
      else ((l.consider t { page := id, mode := .shared }).2.release id t).2).modeOf? q u =
        l.modeOf? q u := by
  split
  · rename_i hheld
    obtain ⟨mode, hm⟩ := Option.ne_none_iff_exists'.1 (Holders.holds_eq_true_iff.1 hheld)
    have hm : l.modeOf? id t = some mode := hm
    rw [modeOf?_of_granted hv]
    split
    · rename_i he
      obtain ⟨rfl, rfl⟩ := he
      rw [hm]
      rfl
    · rfl
  · rename_i hheld
    have hm : l.modeOf? id t = none := by
      by_contra hm
      exact hheld (Holders.holds_eq_true_iff.2 hm)
    rw [modeOf?_release, modeOf?_of_granted hv]
    split
    · rename_i he
      obtain ⟨rfl, rfl⟩ := he
      exact hm.symm
    · rfl

/-! ## Tasks that do not wait -/

/-- A task that asks for a page of no table goes on with the error. -/
theorem advance_of_no_file {e : StoreError} (hf : s.catalog.file id.table = .error e) :
    advance s t (.ask id mode stage) =
      advance (stage.resume s t (.error e)).1 t (stage.resume s t (.error e)).2 := by
  rw [advance]
  split
  · rename_i he
    rw [hf] at he
    cases he
    rfl
  · rename_i hsource
    rw [hf] at hsource
    cases hsource

/-- A task that asks for a page and need not wait for it goes on. -/
theorem advance_of_submit (hf : s.catalog.file id.table = .ok source)
    (h : submit s t source { page := id, mode } stage = (some n, s₁)) :
    advance s t (.ask id mode stage) = advance s₁ t n := by
  rw [advance]
  split
  · rename_i he
    rw [hf] at he
    cases he
  · rename_i hsource
    rw [hf] at hsource
    cases hsource
    split
    · rename_i hsub
      rw [h] at hsub
      cases hsub
    · rename_i hsub
      rw [h] at hsub
      cases hsub
      rfl

theorem exists_submit_of_advance (hf : s.catalog.file id.table = .ok source)
    (h : advance s t (.ask id mode stage) = (.ended a, s')) :
    ∃ n s₁, submit s t source { page := id, mode } stage = (some n, s₁) ∧
      advance s₁ t n = (.ended a, s') := by
  rw [advance] at h
  split at h
  · rename_i e he
    rw [hf] at he
    cases he
  · rename_i source' hsource
    rw [hf] at hsource
    cases hsource
    split at h
    · cases h
    · rename_i n s₁ hsub
      exact ⟨n, s₁, hsub, h⟩

theorem grew_advance (s : Store) (t : TransactionId) (n : Next) : Grew s (advance s t n).2 := by
  fun_induction advance s t n with
  | case1 => exact .refl _
  | case2 s page mode stage e _ ih => exact (stage.steady_resume s t _).toGrew.trans ih
  | case3 s page mode stage source _ s' hs =>
      have hsub := (steady_submit s t source { page, mode } stage).toGrew
      rw [hs] at hsub
      exact ⟨hsub.catalog, hsub.grows⟩
  | case4 s page mode stage source _ n s' hs ih =>
      have hsub := (steady_submit s t source { page, mode } stage).toGrew
      rw [hs] at hsub
      have hgrew : Grew s s' := ⟨hsub.catalog, hsub.grows⟩
      exact hgrew.trans ih

theorem numberedAt_of_advance {r : Progress} (h : advance s t n = (r, s'))
    (hn : s'.NumberedAt p) : s.NumberedAt p := by
  have hgrew := grew_advance s t n
  rw [h] at hgrew
  exact hgrew.numberedAt hn

/-- An insertion that stores its rows without having waited is granted the page that it asks for,
and can fetch it. -/
theorem Insertion.granted_of_advance (hi : stage.insertion? = some i)
    (hf : s.catalog.file id.table = .ok source)
    (h : advance s t (.ask id mode stage) = (.ended (.inserted records none), s')) :
    (s.locks.consider t { page := id, mode }).1 = .granted ∧
      ∃ frame s₁, Store.fetch { s with locks := (s.locks.consider t { page := id, mode }).2 } t
          source id mode = (.ok frame, s₁) ∧
        advance (stage.resume s₁ t (.ok frame)).1 t (stage.resume s₁ t (.ok frame)).2 =
          (.ended (.inserted records none), s') := by
  have hfail : ∀ {s₁ : Store} {e : StoreError},
      advance s₁ t (stage.resume s₁ t (.error e)).2 ≠ (.ended (.inserted records none), s') := by
    intro s₁ e h
    rw [Stage.stop_of_resume_error hi, stop, advance] at h
    cases h
  obtain ⟨n, s₁, hsub, hnext⟩ := exists_submit_of_advance hf h
  cases hv : (s.locks.consider t { page := id, mode }).1 with
  | waits =>
      rw [(submit_of_waits source stage hv).2] at hsub
      cases hsub
  | refused =>
      rw [(submit_of_refused source stage hv).2] at hsub
      cases hsub
      exact absurd hnext hfail
  | granted =>
      rw [(submit_of_granted source stage hv rfl).2] at hsub
      cases hfetch : Store.fetch { s with locks := (s.locks.consider t { page := id, mode }).2 } t
          source id mode with
      | mk result s₂ =>
          rw [hfetch] at hsub
          cases hsub
          cases result with
          | error e =>
              rw [stage.resume_error] at hnext
              exact absurd hnext hfail
          | ok frame => exact ⟨rfl, frame, s₂, rfl, hnext⟩

/-! ## What an insertion does to the pages -/

/-- Files of tables have different names. -/
theorem Catalog.Sound.eq_of_name {c : Catalog} (hc : c.Sound) (hf : c.file f.table = .ok f)
    {table : TableId} {g : TableFile} (hg : c.file table = .ok g) (hname : g.name = f.name) :
    g = f := by
  obtain rfl := hc.apart hg hf hname
  rw [hf] at hg
  exact (Except.ok.inj hg).symm

namespace Store

/-- The pages are as they were, apart from the lock that a transaction has on one of them. -/
structure LikeBut (t : TransactionId) (id : PageId) (s s' : Store) : Prop where
  contents : SameContents s s'
  owners : ∀ {q u}, (s'.view q).owner? = some u → (s.view q).owner? = some u
  modes : ∀ {q u}, (q = id → u ≠ t) → (s'.view q).mode u = (s.view q).mode u

/-- A row is put into the first free slot of a page, under the address of the slot.  The
transaction then owns the page and holds it in exclusive mode.  All other pages are as they were,
and so are all other locks. -/
structure Puts (t : TransactionId) (fields : List Field) (record : RecordId) (s s' : Store) :
    Prop where
  content : ∃ c, (s.view record.page).content = some c ∧
    c.findIdx? Option.isNone = some record.slot ∧
      (s'.view record.page).content = some (c.set record.slot (some fields))
  row : ∃ page row, s'.cache.page? record.page = some page ∧
    page.rowAt? record.slot = some row ∧ row.fields = fields ∧ row.recordId = some record
  others : ∀ q, q ≠ record.page → (s'.view q).content = (s.view q).content
  mode : (s'.view record.page).mode t = some .exclusive
  modes : ∀ q u, (q = record.page → u ≠ t) → (s'.view q).mode u = (s.view q).mode u
  owner : (s'.view record.page).owner? = some t
  owners : ∀ q u, q ≠ record.page → (s'.view q).owner? = some u → (s.view q).owner? = some u

/-- The page of a row that is inserted is one of those that were there, or a new one. -/
inductive Spot (f : TableFile) (record : RecordId) (s s' : Store) : Prop
  | found : record.page.number < s.disk.pageCount f → s.disk.SameLengths s'.disk →
      Spot f record s s'
  | added : record.page.number = s.disk.pageCount f → record.slot = 0 →
      s.disk.Extends f s'.disk → Spot f record s s'

/-- A row is put into the first page of a table that has room, or into a new page if there is none,
and nothing else is changed. -/
structure Places (t : TransactionId) (f : TableFile) (fields : List Field) (record : RecordId)
    (s s' : Store) : Prop extends Puts t fields record s s' where
  table : record.page.table = f.table
  full : ∀ n < record.page.number, (s.view { table := f.table, number := n }).Full
  spot : Spot f record s s'

theorem LikeBut.take_shared (h : LikeBut t id s s₁) (p : PageId) :
    LikeBut t id s (s₁.take t p .shared) := ⟨h.contents, h.owners, h.modes⟩

theorem Puts.of_likeBut (h : LikeBut t record.page s s₁) (hp : Puts t fields record s₁ s') :
    Puts t fields record s s' := by
  obtain ⟨c, hc, hslot, hc'⟩ := hp.content
  exact { hp with
    content := ⟨c, (h.contents _).symm.trans hc, hslot, hc'⟩
    others := fun q hq => (hp.others q hq).trans (h.contents q)
    modes := fun q u hqu => (hp.modes q u hqu).trans (h.modes hqu)
    owners := fun q u hq ho => h.owners (hp.owners q u hq ho) }

theorem Spot.of_sameLengths (h : s.disk.SameLengths s₁.disk) (hp : Spot f record s₁ s') :
    Spot f record s s' := by
  cases hp with
  | found hlt hsame => exact .found (h.pageCount_eq f ▸ hlt) (h.trans hsame)
  | added hnumber hslot he => exact .added (hnumber.trans (h.pageCount_eq f)) hslot (h.extends he)

/-- A page is granted, and then it is seen to aside. -/
theorem likeBut_granted {r : LockRequest} (hv : (s.locks.consider t r).1 = .granted)
    (ha : Aside t { s with locks := (s.locks.consider t r).2 } s₁) : LikeBut t r.page s s₁ := by
  refine ⟨(s.sameContents_consider t r).trans ha.contents, fun ho => ha.owner? ho,
    fun {q u} hne => ?_⟩
  show s₁.locks.modeOf? q u = s.locks.modeOf? q u
  rw [ha.locks]
  refine (LockTable.modeOf?_of_granted hv q u).trans (if_neg ?_)
  rintro ⟨rfl, rfl⟩
  exact hne rfl rfl

/-- A page that is granted and fetched has been seen to aside, and the transaction gets a copy of
what the page holds. -/
theorem Intact.exists_of_granted (hs : s.Intact) (hf : s.catalog.file id.table = .ok source)
    (hv : (s.locks.consider t { page := id, mode }).1 = .granted)
    (hfetch : fetch { s with locks := (s.locks.consider t { page := id, mode }).2 } t source id
      mode = (.ok frame, s')) :
    ∃ s₁ page, Aside t { s with locks := (s.locks.consider t { page := id, mode }).2 } s₁ ∧
      LikeBut t id s s₁ ∧ s' = s₁.take t id mode ∧ frame.page = taken t mode page ∧
        s'.cache.page? id = some frame.page ∧ frame.page.id = id ∧
          (s.view id).content = some frame.page.content := by
  obtain ⟨s₁, page, ha, hp, hframe, rfl⟩ := (hs.locked t _).exists_of_fetch hf hfetch
  have hlike := likeBut_granted hv ha
  have hcached : (s₁.take t id mode).cache.page? id = some frame.page := page?_take_self hp hframe
  refine ⟨s₁, page, ha, hlike, rfl, hframe, hcached,
    ((ha.intact (hs.locked t _)).sound.take t id mode).keyed hcached, ?_⟩
  rw [← hlike.contents id, PageView.content_of_copy (v := s₁.view id) hp, hframe,
    Traffic.content_taken]

end Store

open Store (LikeBut Puts Spot Places)

namespace Insertion

/-- A row is put into the page that is asked for. -/
theorem puts_of_advance (hs : s.Intact) (hf : s.catalog.file id.table = .ok source)
    (hr : i.rows = [])
    (h : advance s t (.ask id .exclusive (.place i)) = (.ended (.inserted records none), s')) :
    ∃ slot, records = (({ page := id, slot } : RecordId) :: i.stored).reverse ∧
      Puts t i.row.fields { page := id, slot } s s' ∧ s.disk.SameLengths s'.disk := by
  obtain ⟨hv, frame, s₁, hfetch, h⟩ := granted_of_advance rfl hf h
  obtain ⟨s₂, page, ha, hlike, rfl, hframe, hcached, hid, hbefore⟩ :=
    hs.exists_of_granted hf hv hfetch
  rw [Stage.resume, place] at h
  split at h
  · rw [stop, advance] at h
    cases h
  · rename_i record page' hinsert
    obtain ⟨hslot, hrow⟩ := Page.stored_of_insert hinsert
    obtain ⟨-, hpage, hsame⟩ := Page.insert_eq_ok hinsert
    have hid' : page'.id = id := by rw [hsame, ← hid]
    have hrecord : record = { page := id, slot := record.slot } := by rw [← hid, ← hpage]
    rw [hr, begin, stop, advance] at h
    cases h
    have hview := (s₂.take t id .exclusive).view_update page'.id (fun _ => page')
    have hself := hview id
    rw [if_pos hid', show (Store.view _ id).copy = _ from hcached] at hself
    have hother : ∀ q, q ≠ id → (((s₂.take t id .exclusive).onCache fun c =>
        c.update page'.id fun _ => page').view q) = s₂.view q := by
      intro q hq
      rw [hview, if_neg (hid' ▸ Ne.symm hq), Store.view_take, if_neg (Ne.symm hq)]
    refine ⟨record.slot, by rw [← hrecord],
      ⟨?content, ?row, ?others, ?held, ?modes, ?owner, ?owners⟩, ha.lengths⟩
    case content =>
      refine ⟨_, hbefore, hslot, ?_⟩
      rw [hself, PageView.content_of_copy rfl, Page.content_of_insert hinsert]
      rfl
    case row =>
      exact ⟨page', _, congrArg PageView.copy hself, hrow, rfl, congrArg some hrecord⟩
    case others =>
      intro q hq
      rw [hother q hq]
      exact hlike.contents q
    case held =>
      show s₂.locks.modeOf? id t = _
      rw [ha.locks]
      exact LockTable.modeOf?_self_of_granted hv rfl
    case modes => exact fun q u hqu => hlike.modes (q := q) hqu
    case owner =>
      rw [hself, PageView.owner?_of_copy rfl, hsame]
      show frame.page.owner = some t
      rw [hframe]
      rfl
    case owners =>
      intro q u hq ho
      rw [hother q hq] at ho
      exact hlike.owners ho

/-- A row is put into a new page at the end of the file. -/
theorem puts_of_append (hs : s.Intact) (hf : s.catalog.file i.file.table = .ok i.file)
    (hr : i.rows = []) (hst : i.stored = [])
    (h : advance { s with disk := (s.disk.append i.file).2 } t
      (.ask { table := i.file.table, number := (s.disk.append i.file).1 } .exclusive (.place i)) =
        (.ended (.inserted records none), s'))
    (hn : ∀ p, s'.NumberedAt p) :
    ∃ record, records = [record] ∧ Puts t i.row.fields record s s' ∧
      record.page = { table := i.file.table, number := s.disk.pageCount i.file } ∧
      Spot i.file record s s' := by
  have happended : ∀ p, Store.NumberedAt { s with disk := (s.disk.append i.file).2 } p :=
    fun p => numberedAt_of_advance h (hn p)
  have hunique : ∀ {u g}, s.catalog.file u = .ok g → g.name = i.file.name → g = i.file :=
    hs.sound.catalog.eq_of_name hf
  have hcontents := Store.sameContents_append hs.backed hunique
  obtain ⟨slot, rfl, hputs, hlengths⟩ :=
    puts_of_advance (hs.append hunique happended) hf hr h
  have hputs : Puts t i.row.fields _ s s' :=
    hputs.of_likeBut ⟨hcontents, fun ho => ho, fun _ => rfl⟩
  refine ⟨_, by rw [hst]; rfl, hputs, rfl, .added rfl ?_
    ((Disk.extends_append (happended ⟨i.file.table, 0⟩ hf)).trans_same hlengths)⟩
  -- The new page has no rows, so that its first slot is free.
  have himage : (s.view { table := i.file.table, number := (s.disk.append i.file).1 }).image =
      none := by
    rw [Store.image_view hf]
    exact (Disk.image?_append (hs.numbered ⟨i.file.table, 0⟩ hf) 0).1
  have hcopy : (s.view { table := i.file.table, number := (s.disk.append i.file).1 }).copy =
      none := by
    by_contra hc
    obtain ⟨copy, hc⟩ := Option.ne_none_iff_exists'.1 hc
    exact hs.backed.image hc himage
  obtain ⟨c, hc, hslot, -⟩ := hputs.content
  have hblank := Store.firstContent_of_none (Store.file_view hf) himage
  rw [Store.firstContent, ← PageView.content_of_none hcopy, hc] at hblank
  rw [Option.some.inj hblank, List.findIdx?_replicate] at hslot
  split at hslot
  · exact (Option.some.inj hslot).symm
  · cases hslot

/-- A page that is full is released, unless it was held before, and then it is as it was. -/
theorem passed (hs : s.Intact)
    (hv : (s.locks.consider t { page := id, mode := .shared }).1 = .granted)
    (ha : Aside t { s with locks := (s.locks.consider t { page := id, mode := .shared }).2 } s₁)
    (hs' : s' = if s.locks.holds id t then s₁.take t id .shared
      else ((s₁.take t id .shared).releasePage t id).2) :
    s'.Intact ∧ s.disk.SameLengths s'.disk ∧ s'.catalog = s.catalog ∧
      ∀ p, LikeBut t p s s' := by
  have htaken : (s₁.take t id .shared).Intact := (ha.intact (hs.locked t _)).take_shared t id
  have hlike := (Store.likeBut_granted hv ha).take_shared id
  have hlocks : s₁.locks = (s.locks.consider t { page := id, mode := .shared }).2 := ha.locks
  have hmodes : ∀ q u, (s'.view q).mode u = (s.view q).mode u := by
    intro q u
    refine Eq.trans ?_ (LockTable.modeOf?_passed hv q u)
    rw [hs', ← hlocks]
    split
    · rfl
    · rfl
  split at hs'
  · subst hs'
    exact ⟨htaken, ha.lengths, ha.catalog,
      fun _ => ⟨hlike.contents, hlike.owners, fun _ => hmodes _ _⟩⟩
  · subst hs'
    exact ⟨htaken.releasePage t id, ha.lengths, ha.catalog,
      fun _ => ⟨hlike.contents.trans (Store.sameContents_releasePage _ t id),
        fun ho => hlike.owners ho, fun _ => hmodes _ _⟩⟩

/-- From some page on, a row is put into the first page that has room. -/
theorem puts_of_search (hs : s.Intact) (hf : s.catalog.file i.file.table = .ok i.file)
    (hr : i.rows = []) (hst : i.stored = []) {page count : Nat}
    (hc : s.disk.pageCount i.file = count) (hle : page ≤ count)
    (h : advance (i.search s t page count).1 t (i.search s t page count).2 =
      (.ended (.inserted records none), s'))
    (hn : ∀ p, s'.NumberedAt p) :
    ∃ record, records = [record] ∧ Puts t i.row.fields record s s' ∧
      record.page.table = i.file.table ∧ Spot i.file record s s' ∧
      ∀ n, page ≤ n → n < record.page.number →
        (s.view { table := i.file.table, number := n }).Full := by
  -- The induction is on the number of pages that are still to be looked at.
  obtain ⟨left, rfl⟩ := Nat.exists_eq_add_of_le hle
  induction left generalizing s page with
  | zero =>
      rw [Nat.add_zero, search, if_neg (Nat.lt_irrefl page)] at h
      obtain ⟨record, hrecords, hputs, hpage, hspot⟩ := puts_of_append hs hf hr hst h hn
      refine ⟨record, hrecords, hputs, by rw [hpage], hspot, fun n hpn hlt => ?_⟩
      rw [hpage, hc] at hlt
      exact absurd hpn (Nat.not_le.2 hlt)
  | succ left ih =>
      rw [search, if_pos (Nat.lt_add_of_pos_right left.succ_pos)] at h
      generalize hid : ({ table := i.file.table, number := page } : PageId) = id at h
      have htable : id.table = i.file.table := by rw [← hid]
      have hnumber : id.number = page := by rw [← hid]
      have hsource : s.catalog.file id.table = .ok i.file := htable ▸ hf
      obtain ⟨hv, frame, s₁, hfetch, h⟩ := granted_of_advance rfl hsource h
      obtain ⟨s₂, -, ha, hlike, rfl, -, -, hkeyed, hbefore⟩ :=
        hs.exists_of_granted hsource hv hfetch
      rw [Stage.resume, looked] at h
      split at h
      · -- There is room.
        have hintact : (s₂.take t id .shared).Intact :=
          (ha.intact (hs.locked t _)).take_shared t id
        have hcatalog : (s₂.take t id .shared).catalog = s.catalog := ha.catalog
        rw [hkeyed] at h
        obtain ⟨slot, rfl, hputs, hlengths⟩ :=
          puts_of_advance hintact (hcatalog ▸ hsource) hr h
        refine ⟨_, by rw [hst]; rfl,
          hputs.of_likeBut (hlike.take_shared id), htable,
          .found ?_ (ha.lengths.trans hlengths), fun n hpn hlt => ?_⟩
        · show id.number < s.disk.pageCount i.file
          rw [hc, hnumber]
          exact Nat.lt_add_of_pos_right left.succ_pos
        · exact absurd hpn (Nat.not_le.2 (hnumber ▸ hlt))
      · -- The page is full, and the next one is looked at.
        rename_i hroom
        rw [hkeyed] at h
        generalize hs₃ : (if s.locks.holds id t then s₂.take t id .shared
          else ((s₂.take t id .shared).releasePage t id).2) = s₃ at h
        obtain ⟨hintact, hlengths, hcatalog, hsame⟩ := passed hs hv ha hs₃.symm
        have hcount : s₃.disk.pageCount i.file = page + 1 + left := by
          rw [hlengths.pageCount_eq, hc, Nat.add_right_comm, Nat.add_assoc]
        obtain ⟨record, hrecords, hputs, htab, hspot, hfull⟩ :=
          ih hintact (hcatalog ▸ hf) hcount (by omega)
            (by rw [Nat.add_right_comm, Nat.add_assoc]; exact h)
        refine ⟨record, hrecords, hputs.of_likeBut (hsame _), htab, hspot.of_sameLengths hlengths,
          fun n hpn hlt => ?_⟩
        rcases Nat.eq_or_lt_of_le hpn with rfl | hpn
        · rw [hid]
          exact ⟨_, hbefore, fun hnone => hroom (Page.countFree_pos_iff.2 hnone)⟩
        · obtain ⟨c, hc, hnone⟩ := hfull n hpn hlt
          exact ⟨c, ((hsame id).contents _).symm.trans hc, hnone⟩

/-- A row is put into the first page that has room. -/
theorem places_of_begin (hs : s.Intact) {table : TableId} {schema : Schema}
    (h : advance (begin s t table schema [] [fields]).1 t (begin s t table schema [] [fields]).2 =
      (.ended (.inserted records none), s'))
    (hn : ∀ p, s'.NumberedAt p) :
    ∃ f record, s.catalog.file table = .ok f ∧ records = [record] ∧
      Places t f fields record s s' := by
  rw [begin] at h
  split at h
  · rw [stop, advance] at h
    cases h
  · rename_i row hrow
    split at h
    · rw [stop, advance] at h
      cases h
    · rename_i f hf
      split at h
      · have hlisted : s.catalog.file f.table = .ok f := by
          rw [hs.sound.catalog.table hf]
          exact hf
        obtain ⟨record, hrecords, hputs, htable, hspot, hfull⟩ :=
          puts_of_search hs hlisted rfl rfl rfl (Nat.zero_le _) h hn
        have hfields : row.fields = fields := congrArg Row.fields (Row.ofFields_eq_ok_iff.1 hrow).1
        rw [hfields] at hputs
        exact ⟨f, record, hf, hrecords,
          { hputs with table := htable, full := fun n => hfull n n.zero_le, spot := hspot }⟩
      · rw [stop, advance] at h
        cases h

end Insertion

/-! ## Runs -/

namespace Traffic

variable {s₀ : Store} {w : Traffic} {history : List Event}
  {grips : List (TransactionId × Handle)}

theorem WellKept.store_intact (h : w.WellKept) : w.store.Intact :=
  ⟨(h.intact ⟨⟨0⟩, 0⟩).store, fun p => (h.intact p).numbered, fun p => (h.intact p).intact⟩

/-- A row that is inserted without waiting goes into the first page that has room, and nothing else
is changed.  In the run before, tables are only added, and no copy that is cached and has no owner
is changed through a handle.  Every table has fewer than `2 ^ 32` pages, also with a new one. -/
theorem insertion_places (h₀ : Fresh s₀)
    (h : HandleRun Sealed Cache.Entrusts s₀ history w grips) {request : Request} {table : TableId}
    {schema : Schema} (hr : request.Inserts w.store table schema [fields])
    (ha : advance (request.start w.store t).1 t (request.start w.store t).2 =
      (.ended (.inserted records none), s'))
    (hn : ∀ p, s'.NumberedAt p) :
    ∃ f record, w.store.catalog.file table = .ok f ∧ records = [record] ∧
      w.store.Places t f fields record s' := by
  have hkept := wellKept_of_handleRun h₀ h fun p =>
    (request.steady_start w.store t).toGrew.numberedAt (numberedAt_of_advance ha (hn p))
  rw [hr.start_eq] at ha
  exact Insertion.places_of_begin hkept.store_intact ha hn

end Traffic

/-! ### Small stores -/

/-- What a task comes to if it asks for no more than so many pages and need not wait. -/
def endsWithin : Nat → Store → TransactionId → Next → Option (Answer × Store)
  | _, s, _, .answer a => some (a, s)
  | 0, _, _, .ask .. => none
  | steps + 1, s, t, .ask page mode stage =>
      match s.catalog.file page.table with
      | .error e =>
          let after := stage.resume s t (.error e)
          endsWithin steps after.1 t after.2
      | .ok source =>
          match submit s t source { page, mode } stage with
          | (none, _) => none
          | (some next, s) => endsWithin steps s t next

theorem advance_of_endsWithin {steps : Nat} (h : endsWithin steps s t n = some (a, s')) :
    advance s t n = (.ended a, s') := by
  induction steps generalizing s n with
  | zero =>
      cases n with
      | answer => cases h; rw [advance]
      | ask => cases h
  | succ steps ih =>
      cases n with
      | answer => cases h; rw [advance]
      | ask page mode stage =>
          rw [endsWithin] at h
          split at h
          · rename_i hf
            rw [advance_of_no_file hf]
            exact ih h
          · rename_i hf
            split at h
            · cases h
            · rename_i hsub
              rw [advance_of_submit hf hsub]
              exact ih h

namespace Traffic

/-- The moves on a store are a run, if they can be made. -/
theorem handleRun_comesTo {rule : Ledger → Traffic → Move → Traffic → Prop}
    {free : Cache → Handle → Prop} {moves : List Move}
    (hr : ∀ move ∈ moves, ∀ l w w', rule l w move w')
    (hs : (({ store := s₀ } : Traffic).steps moves).isSome = true) :
    HandleRun rule free s₀ ((({ store := s₀ } : Traffic).steps moves).getD ([], { store := s₀ })).1
      (({ store := s₀ } : Traffic).comesTo moves)
      (({ store := s₀ } : Traffic).regrips [] moves) :=
  HandleRun.steps .start hr (eq_some_getD hs _)

/-- The traffic can come about if everything is allowed. -/
def Reached (s₀ : Store) (w : Traffic) : Prop :=
  ∃ history grips, HandleRun (fun _ _ _ _ => True) (fun _ _ => True) s₀ history w grips

namespace Reached

theorem start (s₀ : Store) : Reached s₀ { store := s₀ } := ⟨_, _, .start⟩

theorem comesTo (h : Reached s₀ w) (moves : List Move) : Reached s₀ (w.comesTo moves) := by
  obtain ⟨history, grips, h⟩ := h
  rw [Traffic.comesTo]
  cases hs : w.steps moves with
  | none => exact ⟨history, grips, h⟩
  | some => exact ⟨_, _, h.steps (fun _ _ _ _ _ => trivial) hs⟩

theorem replace (h : Reached s₀ w) (catalog : Catalog) (disk : Disk) :
    Reached s₀ { w with store := { w.store with catalog, disk } } := by
  obtain ⟨history, grips, h⟩ := h
  have hstep : w.step (.replace catalog disk) =
      some ([], { w with store := { w.store with catalog, disk } }) := rfl
  exact ⟨_, _, h.move trivial hstep⟩

end Reached

namespace Small

/-- What a request comes to, if it asks for few pages and need not wait. -/
def comesOf (w : Traffic) (t : TransactionId) (request : Request) : Option (Answer × Store) :=
  endsWithin 4 (request.start w.store t).1 t (request.start w.store t).2

theorem advance_of_comesOf {request : Request} (h : comesOf w t request = some (a, s')) :
    advance (request.start w.store t).1 t (request.start w.store t).2 = (.ended a, s') :=
  advance_of_endsWithin h

/-- One transaction deletes the row of the second page, another one reads the first page, which
is full. -/
def spared : List Move :=
  [.start ⟨0⟩ (.delete (Small.record 1)), .resume ⟨0⟩, .commit ⟨0⟩,
   .start ⟨1⟩ (.getPage (page 0) .shared), .resume ⟨1⟩]

end Small

/-- The row goes into the second page. -/
theorem insertion_places_small :
    ∃ s', advance (Request.start (Small.after Small.spared).2.store ⟨1⟩
          (.insert ⟨1⟩ none [[.int 7]])).1 ⟨1⟩
        (Request.start (Small.after Small.spared).2.store ⟨1⟩ (.insert ⟨1⟩ none [[.int 7]])).2 =
          (.ended (.inserted [{ page := Small.page 1, slot := 0 }] none), s') ∧
      (Small.after Small.spared).2.store.Places ⟨1⟩ Small.file [.int 7]
        { page := Small.page 1, slot := 0 } s' := by
  have hmoves : ∀ move ∈ Small.spared, ∀ l w w', Sealed l w move w' := by
    simp [Small.spared, Sealed]
  have hcomes : ∃ r ∈ Small.comesOf (Small.after Small.spared).2 ⟨1⟩ (.insert ⟨1⟩ none [[.int 7]]),
      r.1 = .inserted [{ page := Small.page 1, slot := 0 }] none ∧
        r.2.catalog = Small.store.catalog ∧
          (r.2.disk.contents Small.file).length / 5 < 4294967296 := by
    decide +kernel
  obtain ⟨⟨a, s'⟩, hcomes, rfl, hcatalog, hlength⟩ := hcomes
  have ha := Small.advance_of_comesOf hcomes
  obtain ⟨f, record, hf, hrecord, hplaces⟩ := insertion_places Small.fresh
    (handleRun_comesTo hmoves (by decide +kernel)) (.ofTable rfl) ha
    (Small.numberedAt hcatalog hlength)
  cases hrecord
  obtain ⟨-, rfl⟩ := Small.file_eq hf
  exact ⟨s', ha, hplaces⟩

namespace Small

/-- A catalog with two tables. -/
def catalogOf (f g : TableFile) : Catalog where
  pageSize := f.pageSize
  tables := (ExtTreeMap.insert ∅ f.table { name := f.name, key := none, file := f }).insert g.table
    { name := g.name, key := none, file := g }
  names := (ExtTreeMap.insert ∅ f.name f.table).insert g.name g.table

theorem sound_catalogOf {f g : TableFile} (h : f.name ≠ g.name) : (catalogOf f g).Sound := by
  have hfile : ∀ {table k}, (catalogOf f g).file table = .ok k →
      k.table = table ∧ (k = f ∨ k = g) := by
    intro table k hk
    obtain ⟨entry, hentry, rfl⟩ := Catalog.file_eq_ok.1 hk
    simp only [catalogOf, ExtTreeMap.getElem?_insert, ExtTreeMap.getElem?_empty] at hentry
    split at hentry
    · rename_i he
      cases hentry
      exact ⟨Std.LawfulEqCmp.compare_eq_iff_eq.1 he, .inr rfl⟩
    · split at hentry
      · rename_i he
        cases hentry
        exact ⟨Std.LawfulEqCmp.compare_eq_iff_eq.1 he, .inl rfl⟩
      · cases hentry
  refine ⟨fun hk => (hfile hk).1, fun hk hm hname => ?_⟩
  obtain ⟨htable, hk⟩ := hfile hk
  obtain ⟨htable', hm⟩ := hfile hm
  rw [← htable, ← htable']
  rcases hk with rfl | rfl <;> rcases hm with rfl | rfl
  · rfl
  · exact absurd hname h
  · exact absurd hname.symm h
  · rfl

/-- A store of a table with one page, and of another table without pages.  The cache holds one
page. -/
def tight : Store where
  settings := { pageSize := 9, poolPages := 1 }
  disk := singleStore.disk
  catalog := catalogOf single { single with name := "b", table := ⟨2⟩ }

theorem fresh_tight : Fresh tight := ⟨sound_catalogOf (by decide), rfl, rfl⟩

/-- The first transaction has read the page of the first table. -/
def readFirst : Traffic :=
  ({ store := tight } : Traffic).comesTo [.start ⟨0⟩ (.getPage (page 0) .shared), .resume ⟨0⟩]

/-- The file of the first table is emptied behind the store. -/
def emptied : Traffic :=
  { readFirst with store := { readFirst.store with
      disk := readFirst.store.disk.setContents single (Bytes.zeros 9) } }

/-- A transaction releases its page early.  Another one takes it over and commits. -/
def takenOver : List Move :=
  [.start ⟨0⟩ (.getPage (page 0) .exclusive), .resume ⟨0⟩, .release ⟨0⟩ (page 0),
   .start ⟨1⟩ (.getPage (page 0) .exclusive), .resume ⟨1⟩, .commit ⟨1⟩]

/-- Then the first transaction deletes the row through its handle. -/
def deletedLate : Traffic := wiped (({ store := tight } : Traffic).comesTo takenOver)

theorem reached_deletedLate : Reached tight deletedLate := by
  have hrun := @handleRun_comesTo tight (fun _ _ _ _ => True) (fun _ _ => True) takenOver
    (fun _ _ _ _ _ => trivial) (by decide +kernel)
  exact ⟨_, _, handleRun_wiped hrun (by decide +kernel) trivial (by decide +kernel)⟩

/-- A row that is put into the second table changes what is found in the first one. -/
def Disturbed (w : Traffic) : Prop :=
  ∃ record s', advance (Request.start w.store ⟨2⟩ (.insert ⟨2⟩ none [[.int 5]])).1 ⟨2⟩
      (Request.start w.store ⟨2⟩ (.insert ⟨2⟩ none [[.int 5]])).2 =
        (.ended (.inserted [record] none), s') ∧
    record.page.table = ⟨2⟩ ∧ (s'.view (page 0)).content ≠ (w.store.view (page 0)).content

theorem disturbed_of_comesOf
    (h : ∃ r ∈ comesOf w ⟨2⟩ (.insert ⟨2⟩ none [[.int 5]]),
      r.1 = .inserted [{ page := { table := ⟨2⟩, number := 0 }, slot := 0 }] none ∧
        (r.2.view (page 0)).content ≠ (w.store.view (page 0)).content) : Disturbed w := by
  obtain ⟨⟨a, s'⟩, hcomes, rfl, hcontent⟩ := h
  exact ⟨_, s', advance_of_comesOf hcomes, rfl, hcontent⟩

end Small

/-- A page may hold something else when it has left the cache for the page of an inserted row: the
table of the page is registered anew while it is cached, its file is changed past the store, or a
copy that nobody owns is changed through a handle. -/
theorem not_places_small :
    Fresh Small.tight ∧
      (Reached Small.tight (Small.renewed Small.readFirst) ∧
        Small.Disturbed (Small.renewed Small.readFirst)) ∧
      (Reached Small.tight Small.emptied ∧ Small.Disturbed Small.emptied) ∧
        Reached Small.tight Small.deletedLate ∧ Small.Disturbed Small.deletedLate := by
  have hread : Reached Small.tight Small.readFirst := (Reached.start _).comesTo _
  refine ⟨Small.fresh_tight, ⟨?_, Small.disturbed_of_comesOf (by decide +kernel)⟩,
    ⟨hread.replace _ _, Small.disturbed_of_comesOf (by decide +kernel)⟩,
    Small.reached_deletedLate, Small.disturbed_of_comesOf (by decide +kernel)⟩
  rw [Small.renewed]
  split
  · exact hread.replace _ _
  · exact hread

end Traffic

end PagedStore
