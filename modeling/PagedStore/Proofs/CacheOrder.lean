import Mathlib.Logic.Relation
import PagedStore.Proofs.HandleWrites

/-!
# The cache is in order

The cache holds no more pages than it may, each under its own identity, and the order of use
has the cached pages, each of them once, and no others (`Cache.InOrder`).  Then a search for a
page to give up proposes cached pages only, and it finds one if there is one to be found
(`Cache.InOrder.searched`).

The frames and the order of use are two records, and they are changed apart.  But what a store
does to its cache comes to a few kinds of *shifts* (`Cache.Shift`).  A page comes in and is used,
a cached page is used, one is edited, one is dropped from both records, or neither of them is
concerned.  Each operation of a store is a series of shifts, also where it fails half way
(`Store.shifts_fetch`, `Store.shifts_abort` and so on), and each shift keeps the cache in order
(`Cache.InOrder.shift`).  To make room pages are given up as long as the cache is full
(`Store.Evicts`), and one of them is enough (`Store.InOrder.evicts_iff`).

Nothing is asked of the catalog, the files and the locks.
-/

namespace PagedStore

open Std (ExtTreeMap)
open Relation (ReflTransGen)

/-! ## Pages and their order -/

/-- A page keeps its identity, its columns and the number of its slots. -/
structure Page.SameShape (page page' : Page) : Prop where
  id_eq : page'.id = page.id
  schema_eq : page'.schema = page.schema
  length_slots : page'.slots.length = page.slots.length

theorem Page.sameShape_of_insert {page page' : Page} {row : Row} {record : RecordId}
    (h : page.insert row = .ok (record, page')) : page.SameShape page' := by
  obtain ⟨-, -, rfl⟩ := insert_eq_ok h
  exact ⟨rfl, rfl, List.length_set⟩

theorem Page.sameShape_of_delete {page page' : Page} {record : Option RecordId}
    (h : page.delete record = .ok page') : page.SameShape page' := by
  cases record with
  | none => cases h
  | some record =>
      obtain ⟨-, rfl⟩ := delete_eq_ok h
      exact ⟨rfl, rfl, List.length_set⟩

theorem Change.Made.sameShape {change : Change} {page page' : Page} (h : change.Made page page') :
    page.SameShape page' := by
  cases h with
  | insert _ h => exact Page.sameShape_of_insert h
  | delete h => exact Page.sameShape_of_delete h

/-- Only pages of the order are proposed. -/
theorem Recency.mem_of_mem_propose {accept : PageId → Bool} {pages : List PageId} {id : PageId}
    (h : id ∈ (propose accept pages).1) : id ∈ pages := by
  induction pages with
  | nil => exact h
  | cons page pages ih =>
      rw [propose] at h
      split at h
      · rw [List.mem_singleton.1 h]
        exact List.mem_cons_self
      · rcases List.mem_cons.1 h with rfl | h
        · exact List.mem_cons_self
        · exact List.mem_cons_of_mem _ (ih h)

/-! ## The cache -/

namespace Cache

variable {c : Cache} {id : PageId} {room : Nat}

/-- The cache holds no more pages than there is room for, each under its own identity, and the
order of use has the cached pages, each once. -/
structure InOrder (room : Nat) (c : Cache) : Prop where
  size_le : c.size ≤ room
  keyed : c.Keyed
  tracked : c.recency.pages.Perm c.ids

/-- A search proposes cached pages only.  It finds one that is accepted, or there is none. -/
structure Searched (c : Cache) : Prop where
  proposed : ∀ {accept id}, id ∈ (c.recency.search accept).1 → c.isCached id = true
  found : ∀ {accept id}, c.recency.victim? accept = some id →
    c.isCached id = true ∧ accept id = true
  missed : ∀ {accept id}, c.recency.victim? accept = none → c.isCached id = true →
    accept id = false

theorem isCached_iff : c.isCached id = true ↔ ∃ page, c.page? id = some page := by
  rw [isCached, ExtTreeMap.contains_eq_isSome_getElem?, page?]
  cases c.frames[id]? <;> simp

theorem isCached_eq_false_iff : c.isCached id = false ↔ c.page? id = none := by
  rw [isCached, ExtTreeMap.contains_eq_isSome_getElem?, page?]
  cases c.frames[id]? <;> simp

theorem mem_ids : id ∈ c.ids ↔ c.isCached id = true := by
  rw [ids, ExtTreeMap.mem_keys, isCached, ExtTreeMap.contains_iff_mem]

/-- No page is in the order twice, so it is enough to know which are in it. -/
theorem perm_ids_iff : c.recency.pages.Perm c.ids ↔
    ∀ id, id ∈ c.recency.pages ↔ c.isCached id = true := by
  have hn : c.ids.Nodup := ExtTreeMap.nodup_keys
  rw [List.perm_ext_iff_of_nodup c.recency.nodup hn]
  exact forall_congr' fun id => by rw [mem_ids]

theorem isCached_drop (c : Cache) (dropped id : PageId) :
    (c.drop dropped).isCached id = (c.isCached id && decide (dropped ≠ id)) := by
  rw [Bool.eq_iff_iff, Bool.and_eq_true, decide_eq_true_eq, isCached_iff, isCached_iff, page?_drop]
  split <;> simp_all

@[simp] theorem size_update (c : Cache) (id : PageId) (f : Page → Page) :
    (c.update id f).size = c.size := ExtTreeMap.size_modify

@[simp] theorem isCached_update (c : Cache) (changed id : PageId) (f : Page → Page) :
    (c.update changed f).isCached id = c.isCached id := ExtTreeMap.contains_modify

/-- There is a page less when a cached page has left. -/
theorem size_drop (h : c.isCached id = true) : (c.drop id).size + 1 = c.size := by
  obtain ⟨frame, hf⟩ : ∃ frame, c.frames[id]? = some frame :=
    Option.isSome_iff_exists.1 (by rwa [ExtTreeMap.isSome_getElem?_eq_contains])
  have hm : id ∈ c.frames := ExtTreeMap.contains_iff_mem.1 h
  have hpos : 0 < c.frames.size := by
    rw [Nat.pos_iff_ne_zero]
    intro hz
    rw [ExtTreeMap.eq_empty_iff_size_eq_zero.2 hz] at hm
    exact ExtTreeMap.not_mem_empty hm
  rw [drop, hf]
  show (c.frames.erase id).size + 1 = c.frames.size
  rw [ExtTreeMap.size_erase, if_pos (ExtTreeMap.contains_iff_mem.2 hm)]
  omega

/-! ## Shifts -/

/-- One change of a cache that has room for some pages.  Only pages of a kind come in. -/
inductive Shift (P : Page → Prop) (room : Nat) : Cache → Cache → Prop
  /-- A page that is not cached comes in and is used. -/
  | load {c : Cache} {page : Page} : P page → c.isCached page.id = false → c.size < room →
      Shift P room c ((c.load page).touch page.id)
  /-- A cached page is used. -/
  | touch {c : Cache} {id : PageId} : c.isCached id = true → Shift P room c (c.touch id)
  /-- A cached page gets another owner, another before image or other rows. -/
  | edit {c : Cache} {id : PageId} {f : Page → Page} :
      (∀ page, c.page? id = some page → page.SameShape (f page)) →
        Shift P room c (c.update id f)
  /-- A page leaves the cache. -/
  | drop {c : Cache} (id : PageId) : Shift P room c (c.drop id)
  /-- Something is kept or forgotten beside the cached pages. -/
  | beside {c c' : Cache} : c'.frames = c.frames → c'.recency = c.recency → Shift P room c c'

/-- Many changes of a cache. -/
abbrev Shifts (P : Page → Prop) (room : Nat) : Cache → Cache → Prop :=
  ReflTransGen (Shift P room)

theorem Shift.mono {P Q : Page → Prop} {c' : Cache} (h : Shift P room c c')
    (hm : ∀ page, P page → Q page) : Shift Q room c c' := by
  cases h with
  | load hnew hn hs => exact .load (hm _ hnew) hn hs
  | touch hc => exact .touch hc
  | edit hf => exact .edit hf
  | drop id => exact .drop id
  | beside hf hr => exact .beside hf hr

/-- A copy is changed through a handle, be it cached or loose. -/
theorem shift_updateCopy {P : Page → Prop} {hd : Handle} {f : Page → Page}
    (hf : ∀ page, c.copy? hd.page hd.copy = some page → page.SameShape (f page)) :
    Shift P room c (c.updateCopy hd.page hd.copy f) := by
  by_cases hhas : c.Has hd
  · rw [updateCopy_of_has hhas]
    exact .edit fun page hp => hf page (by rwa [copy?_of_has hhas])
  · rw [updateCopy_of_not_has hhas]
    exact .beside rfl rfl

/-- A copy is replaced by what has become of it. -/
theorem shift_replaceCopy {P : Page → Prop} {hd : Handle} {page page' : Page}
    (hc : c.copy? hd.page hd.copy = some page) (h : page.SameShape page') :
    Shift P room c (c.updateCopy hd.page hd.copy fun _ => page') := by
  refine shift_updateCopy fun q hq => ?_
  rw [hc] at hq
  rwa [← Option.some.inj hq]

namespace InOrder

theorem mem_pages_iff (h : InOrder room c) : id ∈ c.recency.pages ↔ c.isCached id = true :=
  perm_ids_iff.1 h.tracked id

theorem empty (room : Nat) : InOrder room ∅ where
  size_le := Nat.zero_le room
  keyed := keyed_empty
  tracked := .nil

/-- A page that was not cached comes into the cache and is used. -/
theorem load_touch (h : InOrder room c) {page : Page} (hn : c.isCached page.id = false)
    (hs : c.size < room) : InOrder room ((c.load page).touch page.id) where
  size_le := by
    show (c.frames.insert page.id _).size ≤ room
    have hnew : ¬ c.frames.contains page.id = true := by
      rw [← isCached, hn]
      exact Bool.false_ne_true
    rw [ExtTreeMap.size_insert, if_neg hnew]
    exact hs
  keyed := h.keyed.load page
  tracked := perm_ids_iff.2 fun id => by
    have hload : ((c.load page).touch page.id).isCached id = true ↔
        page.id = id ∨ c.isCached id = true := by
      simp [isCached, load, touch]
    rw [hload, ← h.mem_pages_iff]
    show id ∈ (c.recency.touch page.id).pages ↔ _
    rw [Recency.pages_touch, List.mem_append, List.mem_filter, List.mem_singleton]
    by_cases he : id = page.id <;> simp [he, eq_comm]

/-- A cached page is used. -/
theorem touch (h : InOrder room c) (hc : c.isCached id = true) : InOrder room (c.touch id) where
  size_le := h.size_le
  keyed := h.keyed
  tracked := perm_ids_iff.2 fun q => by
    show q ∈ (c.recency.touch id).pages ↔ c.isCached q = true
    rw [Recency.pages_touch, List.mem_append, List.mem_filter, List.mem_singleton,
      h.mem_pages_iff]
    by_cases he : q = id <;> simp [he, hc]

theorem update (h : InOrder room c) {f : Page → Page}
    (hf : ∀ page, c.page? id = some page → (f page).id = page.id) :
    InOrder room (c.update id f) where
  size_le := by
    rw [size_update]
    exact h.size_le
  keyed := h.keyed.update hf
  tracked := perm_ids_iff.2 fun q => by
    rw [isCached_update]
    exact h.mem_pages_iff

theorem drop (h : InOrder room c) (id : PageId) : InOrder room (c.drop id) where
  size_le := by
    by_cases hc : c.isCached id = true
    · have := size_drop hc
      have := h.size_le
      omega
    · have hn : c.frames[id]? = none :=
        ExtTreeMap.getElem?_eq_none_of_contains_eq_false (Bool.not_eq_true _ ▸ hc)
      rw [Cache.drop, hn]
      exact h.size_le
  keyed := h.keyed.drop id
  tracked := perm_ids_iff.2 fun q => by
    rw [isCached_drop, Bool.and_eq_true, decide_eq_true_eq, ← h.mem_pages_iff]
    rw [Cache.drop]
    split
    · rename_i hn
      have hid : id ∉ c.recency.pages := by
        rw [h.mem_pages_iff, Bool.not_eq_true, isCached_eq_false_iff, page?, hn]
        rfl
      refine ⟨fun hq => ⟨hq, ?_⟩, And.left⟩
      rintro rfl
      exact hid hq
    · show q ∈ (c.recency.remove id).pages ↔ _
      rw [Recency.pages_remove, List.mem_filter, decide_eq_true_eq]
      exact and_congr_right fun _ => ne_comm

/-- Every change keeps the cache in order. -/
theorem shift {P : Page → Prop} {c' : Cache} (h : InOrder room c) (hs : Shift P room c c') :
    InOrder room c' := by
  cases hs with
  | load _ hn hroom => exact h.load_touch hn hroom
  | touch hc => exact h.touch hc
  | edit hf => exact h.update fun page hp => (hf page hp).id_eq
  | drop id => exact h.drop id
  | beside hf hr =>
      obtain ⟨frames, recency, loose, copies, kept⟩ := c'
      obtain rfl : frames = c.frames := hf
      obtain rfl : recency = c.recency := hr
      exact ⟨h.size_le, h.keyed, h.tracked⟩

theorem shifts {P : Page → Prop} {c' : Cache} (h : InOrder room c) (hs : Shifts P room c c') :
    InOrder room c' := by
  induction hs with
  | refl => exact h
  | tail _ hlast ih => exact ih.shift hlast

theorem searched (h : InOrder room c) : c.Searched where
  proposed {accept id} hp := h.mem_pages_iff.1 (Recency.mem_of_mem_propose hp)
  found {accept id} hv := by
    rw [Recency.victim?_eq_find?] at hv
    exact ⟨h.mem_pages_iff.1 (List.mem_of_find?_eq_some hv), List.find?_some hv⟩
  missed {accept id} hv hc := by
    rw [Recency.victim?_eq_find?, List.find?_eq_none] at hv
    simpa using hv id (h.mem_pages_iff.2 hc)

end InOrder

end Cache

/-! ## The operations of a store -/

/-- The page is what the file gives for its identity, with some contents. -/
def TableFile.Yields (f : TableFile) (id : PageId) (page : Page) : Prop :=
  ∃ image, Page.decode id f.schema f.pageSize image = .ok page

namespace Store

variable {s s' s'' : Store} {t : TransactionId} {f : TableFile} {id : PageId} {page : Page}
  {P : Page → Prop}

/-- The cache is in order, and holds no more pages than the settings allow. -/
def InOrder (s : Store) : Prop := s.cache.InOrder s.capacity

/-- The settings stay, and the cache goes through a series of shifts. -/
structure Shifts (P : Page → Prop) (s s' : Store) : Prop where
  settings : s'.settings = s.settings
  cache : s.cache.Shifts P s.capacity s'.cache

namespace Shifts

theorem refl (P : Page → Prop) (s : Store) : Shifts P s s := ⟨rfl, .refl⟩

theorem trans (h : Shifts P s s') (h' : Shifts P s' s'') : Shifts P s s'' := by
  have hcapacity : s'.capacity = s.capacity := congrArg Settings.poolPages h.settings
  exact ⟨h'.settings.trans h.settings, h.cache.trans (hcapacity ▸ h'.cache)⟩

theorem mono (h : Shifts P s s') {Q : Page → Prop} (hm : ∀ page, P page → Q page) :
    Shifts Q s s' :=
  ⟨h.settings, ReflTransGen.mono (fun _ _ hs => hs.mono hm) _ _ h.cache⟩

/-- One shift of the cache, and whatever apart from the settings. -/
theorem single (hs : s'.settings = s.settings) (hc : s.cache.Shift P s.capacity s'.cache) :
    Shifts P s s' := ⟨hs, .single hc⟩

/-- The cached pages are not concerned. -/
theorem beside (hs : s'.settings = s.settings) (hf : s'.cache.frames = s.cache.frames)
    (hr : s'.cache.recency = s.cache.recency) : Shifts P s s' := .single hs (.beside hf hr)

/-- What comes to shifts keeps the cache in order. -/
theorem inOrder (h : Shifts P s s') (ho : s.InOrder) : s'.InOrder := by
  have hcapacity : s'.capacity = s.capacity := congrArg Settings.poolPages h.settings
  rw [InOrder, hcapacity]
  exact Cache.InOrder.shifts ho h.cache

end Shifts

/-- Whatever comes in, the cache stays in order. -/
theorem InOrder.shifts (h : s.InOrder) (hs : Shifts (fun _ => True) s s') : s'.InOrder :=
  hs.inOrder h

theorem shifts_untilError {α : Type} {f : Store → α → Except StoreError Store}
    (hf : ∀ {s a s'}, f s a = .ok s' → Shifts P s s') (s : Store) (as : List α) :
    Shifts P s (untilError f s as).2 := by
  induction as generalizing s with
  | nil => exact .refl P s
  | cons a as ih =>
      rw [untilError]
      split
      · exact .refl P s
      · rename_i s₁ h
        exact (hf h).trans (ih s₁)

theorem shifts_writeOut (h : s.writeOut page = .ok s') : Shifts P s s' := by
  obtain ⟨f, disk, -, -, rfl⟩ := writeOut_eq_ok h
  exact .beside rfl rfl rfl

/-- To write a page early only changes what is kept beside the pages. -/
theorem shifts_writeBack (h : s.writeBack page = .ok s') :
    Shifts P s s' ∧ s'.cache.frames = s.cache.frames := by
  cases ho : page.owner with
  | none =>
      rw [writeBack, ho] at h
      cases h
      exact ⟨.refl P s, rfl⟩
  | some owner =>
      obtain ⟨s₁, hw, rfl⟩ := writeBack_eq_ok h ho
      obtain ⟨f, disk, -, -, rfl⟩ := writeOut_eq_ok hw
      exact ⟨.beside rfl rfl rfl, rfl⟩

/-- When a cached page is given up there is room. -/
theorem InOrder.evict (h : s.InOrder) (hc : s.cache.isCached id = true) :
    Shifts P s (s.evict id) ∧ (s.evict id).cache.size < (s.evict id).capacity := by
  refine ⟨.single rfl (.drop id), ?_⟩
  have hdrop : (s.evict id).cache.size + 1 = s.cache.size := Cache.size_drop hc
  have hle : s.cache.size ≤ (s.evict id).capacity := h.size_le
  omega

/-- When one page is given up there is room. -/
theorem InOrder.evictOne (h : s.InOrder) (hr : s.evictOne t = .ok s') :
    Shifts P s s' ∧ s'.cache.size < s'.capacity := by
  rw [Store.evictOne] at hr
  split at hr
  · rename_i id hv
    cases hr
    exact h.evict (h.searched.found hv).1
  · split at hr
    · cases hr
    · rename_i page hv
      split at hr
      · cases hr
      · rename_i s₁ hw
        cases hr
        obtain ⟨id, hp, -⟩ := ownVictim?_eq_some hv
        obtain ⟨hwritten, hframes⟩ := shifts_writeBack (P := P) hw
        have hc : s₁.cache.isCached page.id = true := by
          rw [Cache.isCached, hframes, h.keyed hp]
          exact Cache.isCached_iff.2 ⟨page, hp⟩
        obtain ⟨hgiven, hroom⟩ :=
          InOrder.evict (s := s₁.count .dirtyEvictions) (P := P) (hwritten.inOrder h) hc
        exact ⟨hwritten.trans ⟨hgiven.settings, hgiven.cache⟩, hroom⟩

/-- When room is made there is room. -/
theorem InOrder.makeRoom (h : s.InOrder) (hr : s.makeRoom t = .ok s') :
    Shifts P s s' ∧ s'.cache.size < s'.capacity := by
  rw [Store.makeRoom] at hr
  split at hr
  · rename_i hroom
    cases hr
    exact ⟨.refl P s, hroom⟩
  · exact h.evictOne hr

/-- What comes of giving pages up, one after another, as long as the cache is full. -/
inductive Evicts (t : TransactionId) : Store → Except StoreError Store → Prop
  | done {s : Store} (hroom : s.cache.size < s.capacity) : Evicts t s (.ok s)
  | failed {s : Store} {e : StoreError} (hfull : ¬ s.cache.size < s.capacity)
      (he : s.evictOne t = .error e) : Evicts t s (.error e)
  | again {s s' : Store} {r : Except StoreError Store} (hfull : ¬ s.cache.size < s.capacity)
      (he : s.evictOne t = .ok s') (hrest : Evicts t s' r) : Evicts t s r

/-- One page is enough: what comes of giving up pages as long as the cache is full is what comes
of making room. -/
theorem InOrder.evicts_iff (h : s.InOrder) {r : Except StoreError Store} :
    Evicts t s r ↔ s.makeRoom t = r := by
  constructor
  · intro he
    cases he with
    | done hroom => rw [Store.makeRoom, if_pos hroom]
    | failed hfull he => rw [Store.makeRoom, if_neg hfull, he]
    | again hfull he hrest =>
        have hroom := (h.evictOne (P := fun _ => True) he).2
        rw [Store.makeRoom, if_neg hfull, he]
        cases hrest with
        | done => rfl
        | failed hfull' => exact absurd hroom hfull'
        | again hfull' => exact absurd hroom hfull'
  · rintro rfl
    rw [Store.makeRoom]
    split
    · rename_i hroom
      exact .done hroom
    · rename_i hfull
      cases he : s.evictOne t with
      | error e => exact .failed hfull he
      | ok s' => exact .again hfull he (.done (h.evictOne (P := fun _ => True) he).2)

/-- A page that is used is taken. -/
theorem Shifts.take {r : Store} (h : Shifts P s { r with cache := r.cache.touch id })
    (t : TransactionId) (mode : LockMode) : Shifts P s (r.take t id mode) := by
  cases mode with
  | shared => exact h
  | exclusive =>
      have howner : Cache.Shift P r.capacity (r.cache.touch id)
          ((r.cache.touch id).update id fun page => page.withOwner (some t)) :=
        .edit fun _ _ => ⟨rfl, rfl, rfl⟩
      exact h.trans (.single rfl howner)

/-- A page that is seen to can be taken.  If there is no room for it, or if it cannot be read,
it is not taken. -/
theorem InOrder.ensureCached (h : s.InOrder) (t : TransactionId) (f : TableFile) (id : PageId) :
    ((∃ e, (s.ensureCached t f id).1 = .error e) ∧
        Shifts (f.Yields id) s (s.ensureCached t f id).2) ∨
      ((s.ensureCached t f id).1 = .ok () ∧
        ∀ mode, Shifts (f.Yields id) s ((s.ensureCached t f id).2.take t id mode)) := by
  have hensured := s.ensured t f id
  generalize s.ensureCached t f id = result at hensured ⊢
  cases hensured with
  | hit hc =>
      have hused : Shifts (f.Yields id) s { s with cache := s.cache.touch id } :=
        .single rfl (.touch hc)
      exact Or.inr ⟨rfl, Shifts.take (r := s.count .hits) ⟨hused.settings, hused.cache⟩ t⟩
  | crowded => exact Or.inl ⟨⟨_, rfl⟩, .beside rfl rfl rfl⟩
  | unread hr =>
      obtain ⟨hmade, -⟩ := InOrder.makeRoom (s := s.count .misses) (P := f.Yields id) h hr
      exact Or.inl ⟨⟨_, rfl⟩, hmade.settings, hmade.cache⟩
  | @read s₁ page hc hr hp =>
      obtain ⟨image, -, hd⟩ := Disk.readPage_eq_ok hp
      obtain rfl : page.id = id := (Page.decode_eq_ok hd).2.1
      obtain ⟨hmade, hroom⟩ :=
        InOrder.makeRoom (s := s.count .misses) (P := f.Yields page.id) h hr
      have hmade : Shifts (f.Yields page.id) s s₁ := ⟨hmade.settings, hmade.cache⟩
      have hn : s₁.cache.isCached page.id = false :=
        Cache.isCached_eq_false_iff.2 (page?_makeRoom hr hc)
      have hload : Shifts (f.Yields page.id) s₁
          { s₁ with cache := (s₁.cache.load page).touch page.id } :=
        .single rfl (.load ⟨image, hd⟩ hn hroom)
      exact Or.inr ⟨rfl, fun mode => hmade.trans
        (Shifts.take (r := (s₁.count .pagesRead).onCache fun c => c.load page)
          ⟨hload.settings, hload.cache⟩ t mode)⟩

/-- The only page that comes in is the one that is fetched. -/
theorem InOrder.fetch (h : s.InOrder) (t : TransactionId) (f : TableFile) (id : PageId)
    (mode : LockMode) : Shifts (f.Yields id) s (s.fetch t f id mode).2 := by
  have hensured := h.ensureCached t f id
  rw [Store.fetch]
  split
  · rename_i e s₁ he
    rw [he] at hensured
    obtain ⟨-, h₁⟩ | ⟨hok, -⟩ := hensured
    · exact h₁
    · cases hok
  · rename_i s₁ he
    rw [he] at hensured
    obtain ⟨⟨e, herror⟩, -⟩ | ⟨-, htaken⟩ := hensured
    · cases herror
    · dsimp only
      split
      · exact htaken mode
      · exact htaken mode

theorem shifts_flushPage (h : s.flushPage id = .ok s') : Shifts P s s' := by
  rw [flushPage] at h
  split at h
  · cases h
    exact .refl P s
  · exact (shifts_writeBack h).1

theorem shifts_discard (s : Store) (id : PageId) : Shifts P s (s.discard id) := by
  rw [discard]
  split
  · exact .refl P s
  · dsimp only
    split
    · exact .single rfl (.drop id)
    · exact .single rfl (.drop id)

theorem shifts_commitPage (h : s.commitPage id = .ok s') : Shifts P s s' := by
  rw [commitPage] at h
  split at h
  · cases h
    exact .refl P s
  · split at h
    · cases h
    · rename_i s₁ hw
      cases h
      have hsaved : Cache.Shift P s₁.capacity s₁.cache
          (s₁.cache.update id fun page => page.keepImage.withOwner none) :=
        .edit fun _ _ => ⟨rfl, rfl, rfl⟩
      exact (shifts_writeOut hw).trans (.single rfl hsaved)

theorem shifts_commit (s : Store) (t : TransactionId) : Shifts P s (s.commit t).2 := by
  have hpages : Shifts P s (untilError commitPage s (s.cache.ownedBy t)).2 :=
    shifts_untilError shifts_commitPage s _
  rw [commit]
  split
  · rename_i e s₁ hu
    rw [hu] at hpages
    exact hpages
  · rename_i s₁ hu
    rw [hu] at hpages
    exact hpages.trans (.beside rfl rfl rfl)

theorem shifts_restoreAll (s : Store) (images : List (PageId × Bytes)) :
    Shifts P s (s.restoreAll images).2 := by
  induction images generalizing s with
  | nil => exact .refl P s
  | cons entry images ih =>
      rw [restoreAll]
      split
      · rename_i s₁ hr
        obtain ⟨f, disk, -, -, rfl⟩ := restore_eq_ok hr
        have hput : Shifts P s ({ s with disk }.count .pagesWritten) := .beside rfl rfl rfl
        exact hput.trans (ih _)
      · exact ih s

theorem shifts_foldl_dropSpoiled (s : Store) (ids : List PageId) :
    Shifts P s (ids.foldl dropSpoiled s) := by
  induction ids generalizing s with
  | nil => exact .refl P s
  | cons id ids ih =>
      have hdrop : Shifts P s (s.dropSpoiled id) := .single rfl (.drop id)
      exact hdrop.trans (ih _)

theorem shifts_abort (s : Store) (t : TransactionId) : Shifts P s (s.abort t).2 := by
  have hdropped : Shifts P s ((s.spoiled t).foldl dropSpoiled s) :=
    shifts_foldl_dropSpoiled s _
  have hforgotten : Shifts P s (((s.spoiled t).foldl dropSpoiled s).onCache fun c => c.forget t) :=
    hdropped.trans (.beside rfl rfl rfl)
  have hrestored := hforgotten.trans (shifts_restoreAll _ (s.cache.keptFor t).toList)
  exact hrestored.trans (.beside rfl rfl rfl)

end Store

end PagedStore
