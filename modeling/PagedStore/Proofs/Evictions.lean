import PagedStore.Proofs.IntactPages
import PagedStore.Proofs.UseOrder

/-!
# Which page is given up

A transaction that is granted a page which is not cached may find the cache full.  Then one page
is given up, and it is clear which one (`MakesRoom`).  It is the oldest page without an owner.
If there is none it is the oldest page of the transaction itself, which is written to its file,
and its before image is kept if none is yet.  If all pages are owned by other transactions,
nothing is given up, and the fetch fails.  The page that is fetched may turn out not to be
readable, but the room is made by then.

The oldest page is the one whose last use lies furthest back in the history
(`Traffic.makes_room`).  The search for it goes by the order of use in the cache, and both tell
the same (`Traffic.dated_of_run`).

A page can be written if its table is registered with a file of the right size that has the page
(`Store.Registered`).  It is so after every run in which no table and no file is changed past
the store (`Traffic.registered_of_run`).
-/

namespace PagedStore

variable {uses : List PageId} {p q : PageId} {t : TransactionId} {source : TableFile}
  {mode : LockMode} {s s' s'' : Store} {page : Page} {result : Except StoreError Frame}

/-! ## What is given up -/

/-- One page has left the cache.  The page that was wanted is there and is the last one in the
order of use, unless it could not be read. -/
structure Exchanged (p q : PageId) (source : TableFile) (s : Store)
    (result : Except StoreError Frame) (s' : Store) : Prop where
  left : s'.cache.frames[q]? = none
  came : s'.cache.frames[p]? = result.toOption
  others : ∀ r, r ≠ p → r ≠ q → s'.cache.frames[r]? = s.cache.frames[r]?
  order : s'.cache.recency.pages =
    (s.cache.recency.pages.filter fun r => r ≠ q) ++ (result.toOption.map fun _ => p).toList
  counted : s'.counters.evictions = s.counters.evictions + 1
  read : (result.map fun _ => ()) = (s'.disk.readPage source p).map fun _ => ()

/-- What comes of a page that is wanted while the cache is full. -/
inductive MakesRoom (uses : List PageId) (t : TransactionId) (p : PageId) (source : TableFile)
    (s : Store) (result : Except StoreError Frame) (s' : Store) : Prop
  /-- The oldest page without an owner is given up. -/
  | clean {q : PageId} :
      Oldest uses s.cache.isClean q → Exchanged p q source s result s' →
        s'.disk = s.disk → s'.cache.kept = s.cache.kept → MakesRoom uses t p source s result s'
  /-- All pages have owners.  The oldest one of the transaction is written and given up. -/
  | own {q : PageId} {page : Page} {f : TableFile} :
      (∀ r, s.cache.isClean r = false) → Oldest uses (s.cache.isOwnedBy t) q →
        s.cache.page? q = some page → Exchanged p q source s result s' →
          s.catalog.file q.table = .ok f → s.disk.writePage f page = .ok s'.disk →
            (∀ u r, (s'.cache.keptFor u)[r]? =
              if t = u ∧ q = r ∧ (s.cache.keptFor t)[q]? = none then some page.beforeImage
              else (s.cache.keptFor u)[r]?) →
              MakesRoom uses t p source s result s'
  /-- All pages are owned by others. -/
  | none :
      (∀ q page, s.cache.page? q = some page → ∃ u, u ≠ t ∧ page.owner = some u) →
        result = .error .noEvictablePage → s'.cache = s.cache → s'.disk = s.disk →
          MakesRoom uses t p source s result s'

/-- A page of another transaction stays in the cache. -/
theorem MakesRoom.of_other (h : MakesRoom uses t p source s result s')
    (hn : s.cache.isCached p = false) {u : TransactionId} (hp : s.cache.page? q = some page)
    (ho : page.owner = some u) (hu : u ≠ t) : s'.cache.frames[q]? = s.cache.frames[q]? := by
  have hne : q ≠ p := by
    rintro rfl
    rw [Cache.isCached_eq_false_iff, hp] at hn
    cases hn
  cases h with
  | @clean victim hv hx =>
      refine hx.others q hne ?_
      rintro rfl
      obtain ⟨page', hp', ho'⟩ := Store.isClean_iff.1 hv.accepted
      rw [hp] at hp'
      cases hp'
      rw [ho] at ho'
      cases ho'
  | @own victim page' f _ hv _ hx =>
      refine hx.others q hne ?_
      rintro rfl
      obtain ⟨page', hp', ho'⟩ := Store.isOwnedBy_iff.1 hv.accepted
      rw [hp] at hp'
      cases hp'
      rw [ho] at ho'
      exact hu (Option.some.inj ho')
  | none _ _ hc => rw [hc]

/-- The locks do not matter. -/
theorem MakesRoom.of_locks {locks : LockTable}
    (h : MakesRoom uses t p source { s with locks } result s') :
    MakesRoom uses t p source s result s' := by
  have hsame : ∀ {q}, Exchanged p q source { s with locks } result s' →
      Exchanged p q source s result s' := fun h =>
    ⟨h.left, h.came, h.others, h.order, h.counted, h.read⟩
  cases h with
  | clean hv hx hd hk => exact .clean hv (hsame hx) hd hk
  | own hn hv hp hx hf hw hk => exact .own hn hv hp (hsame hx) hf hw hk
  | none hp hr hc hd => exact .none hp hr hc hd

namespace Store

/-! ## Pages that can be written -/

/-- The table of each cached page is registered with a file of the size of the page, which has the
page or ends right before it. -/
def Registered (s : Store) : Prop :=
  ∀ ⦃q page⦄, s.cache.page? q = some page →
    ∃ f, s.catalog.file q.table = .ok f ∧ f.table = q.table ∧
      page.encode.length = f.pageSize ∧ q.number ≤ s.disk.pageCount f

theorem Registered.exists_writePage (h : s.Registered) (hk : s.cache.Keyed)
    (hp : s.cache.page? q = some page) :
    ∃ f disk, s.catalog.file q.table = .ok f ∧ s.disk.writePage f page = .ok disk := by
  obtain ⟨f, hf, htable, hsize, hcount⟩ := h hp
  have hid : page.id = q := hk hp
  have hcount : ¬ s.disk.pageCount f < q.number := Nat.not_lt.2 hcount
  refine ⟨f, s.disk.setHeld f
    ((s.disk.held f).overwrite (q.number * f.pageSize) page.encode), hf, ?_⟩
  simp only [Disk.writePage, Disk.writeImage, hid, htable, hsize, hcount, ne_eq,
    not_true_eq_false, if_false]

/-! ## Making room -/

/-- A cached page leaves the cache and the order of use, and nothing else does. -/
structure GaveUp (q : PageId) (s s' : Store) : Prop where
  left : s'.cache.frames[q]? = none
  others : ∀ r, r ≠ q → s'.cache.frames[r]? = s.cache.frames[r]?
  order : s'.cache.recency.pages = s.cache.recency.pages.filter fun r => r ≠ q
  counted : s'.counters.evictions = s.counters.evictions + 1

theorem gaveUp_evict (hc : s.cache.isCached q = true) : GaveUp q s (s.evict q) := by
  have hframes := fun r => Cache.getElem?_frames_drop s.cache q r
  refine ⟨(hframes q).trans (if_pos rfl), fun r hr => (hframes r).trans (if_neg (Ne.symm hr)), ?_,
    rfl⟩
  obtain ⟨page, hp⟩ := Cache.isCached_iff.1 hc
  obtain ⟨frame, hf, -⟩ := Cache.page?_eq_some.1 hp
  show (s.cache.drop q).recency.pages = _
  rw [Cache.drop, hf]
  rfl

/-- What making room comes to when the cache is full. -/
theorem makeRoom_full (ho : s.InOrder) (hr : s.Registered) (hfull : s.cache.size = s.capacity)
    (t : TransactionId) :
    (∃ q, s.cache.recency.victim? s.cache.isClean = some q ∧ s.makeRoom t = .ok (s.evict q)) ∨
      (∃ q page f disk, s.cache.recency.victim? s.cache.isClean = none ∧
        s.cache.recency.victim? (s.cache.isOwnedBy t) = some q ∧ s.cache.page? q = some page ∧
          s.catalog.file q.table = .ok f ∧ s.disk.writePage f page = .ok disk ∧
            s.makeRoom t = .ok (((({ s with disk }.count .pagesWritten).onCache fun c =>
              c.keep t q page.beforeImage).count .dirtyEvictions).evict q)) ∨
        s.cache.recency.victim? s.cache.isClean = none ∧
          s.cache.recency.victim? (s.cache.isOwnedBy t) = none ∧
            s.makeRoom t = .error .noEvictablePage := by
  have hno : ¬ s.cache.size < s.capacity := by omega
  cases hclean : s.cache.recency.victim? s.cache.isClean with
  | some q =>
      refine Or.inl ⟨q, rfl, ?_⟩
      rw [makeRoom, if_neg hno, evictOne, hclean]
  | none =>
      cases hown : s.cache.recency.victim? (s.cache.isOwnedBy t) with
      | none =>
          refine Or.inr (Or.inr ⟨rfl, rfl, ?_⟩)
          rw [makeRoom, if_neg hno, evictOne, hclean, ownVictim?, hown]
          rfl
      | some q =>
          obtain ⟨page, hp, hpo⟩ := isOwnedBy_iff.1 (ho.searched.found hown).2
          obtain ⟨f, disk, hf, hw⟩ := hr.exists_writePage ho.keyed hp
          obtain rfl : page.id = q := ho.keyed hp
          refine Or.inr (Or.inl ⟨page.id, page, f, disk, rfl, rfl, hp, hf, hw, ?_⟩)
          rw [makeRoom, if_neg hno, evictOne, hclean, ownVictim?, hown]
          simp only [Option.bind_some, hp, writeBack, hpo, writeOut, hf, hw]

/-! ## Fetching into a full cache -/

/-- There is room, and the page is read and taken, or cannot be read. -/
theorem exchanged_of_room (t : TransactionId) (source : TableFile) (mode : LockMode)
    (ho : s.InOrder) (hn : s.cache.isCached p = false) (hq : s.cache.isCached q = true)
    (hg : GaveUp q s s')
    (hr : (s.count .misses).makeRoom t = .ok s') :
    Exchanged p q source s (s.fetch t source p mode).1 (s.fetch t source p mode).2 ∧
      (s.fetch t source p mode).2.disk = s'.disk ∧
        (s.fetch t source p mode).2.cache.kept = s'.cache.kept := by
  have hpq : p ≠ q := by
    rintro rfl
    rw [hq] at hn
    cases hn
  have hpn : s'.cache.frames[p]? = none := by
    rw [hg.others p hpq]
    exact Std.ExtTreeMap.getElem?_eq_none_of_contains_eq_false hn
  have hfilter : (s'.cache.recency.pages.filter fun r => r ≠ p) = s'.cache.recency.pages := by
    rw [List.filter_eq_self]
    intro r hmem
    rw [hg.order] at hmem
    have hcached := ho.mem_pages_iff.1 (List.mem_of_mem_filter hmem)
    rw [decide_eq_true_eq]
    rintro rfl
    rw [hn] at hcached
    cases hcached
  have hmiss : s.ensureCached t source p = (s.count .misses).read t source p := by
    rw [ensureCached, if_neg (by rw [hn]; exact Bool.false_ne_true)]
  cases hread : s'.disk.readPage source p with
  | error e =>
      have hfetch : s.fetch t source p mode = (.error e, s') := by
        rw [fetch, hmiss, read, hr]
        simp only [hread]
      rw [hfetch]
      refine ⟨⟨hg.left, hpn, fun r _ hrq => hg.others r hrq, ?_, hg.counted, ?_⟩, rfl, rfl⟩
      · exact hg.order.trans (List.append_nil _).symm
      · rw [hread]
        rfl
  | ok page =>
      obtain ⟨image, -, hd⟩ := Disk.readPage_eq_ok hread
      have hid : page.id = p := (Page.decode_eq_ok hd).2.1
      have hensured : s.ensureCached t source p =
          (.ok (), (s'.count .pagesRead).onCache fun c => c.load page) := by
        rw [hmiss, read, hr]
        simp only [hread]
      rcases s.fetch_taken t source p mode with ⟨e, he, -⟩ | ⟨-, frame, hfetch⟩
      · rw [hensured] at he
        cases he
      · have hframe := (frame_of_fetch hfetch).1
        rw [hensured] at hfetch hframe
        rw [hfetch]
        -- Beside the page that is taken the copies are those that there was room beside.
        have hothers : ∀ r, r ≠ p → (((s'.count .pagesRead).onCache fun c =>
            c.load page).take t p mode).cache.frames[r]? = s'.cache.frames[r]? := by
          intro r hrp
          rw [getElem?_frames_take, if_neg (Ne.symm hrp)]
          exact (Cache.getElem?_frames_load _ _ _).trans (if_neg (hid ▸ Ne.symm hrp))
        refine ⟨⟨?_, hframe, fun r hrp hrq => ?_, ?_, ?_, ?_⟩, ?_, ?_⟩
        · rw [hothers q (Ne.symm hpq), hg.left]
        · rw [hothers r hrp, hg.others r hrq]
        · rw [recency_take, Recency.pages_touch]
          show (s'.cache.recency.pages.filter fun r => r ≠ p) ++ [p] = _
          rw [hfilter, hg.order]
          rfl
        · cases mode <;> exact hg.counted
        · cases mode <;> exact (congrArg (Except.map fun _ => ()) hread).symm
        · cases mode <;> rfl
        · cases mode <;> rfl

/-- What comes of fetching a page that is not cached when the cache is full. -/
theorem makesRoom_fetch (ho : s.InOrder) (hd : Dated uses s.cache.recency.pages)
    (hr : s.Registered) (hn : s.cache.isCached p = false) (hfull : s.cache.size = s.capacity)
    (t : TransactionId) (source : TableFile) (mode : LockMode) :
    MakesRoom uses t p source s (s.fetch t source p mode).1 (s.fetch t source p mode).2 := by
  have hclean : ∀ q, s.cache.isClean q = true → s.cache.isCached q = true := by
    intro q hq
    obtain ⟨page, hp, -⟩ := isClean_iff.1 hq
    exact Cache.isCached_iff.2 ⟨page, hp⟩
  have howned : ∀ q, s.cache.isOwnedBy t q = true → s.cache.isCached q = true := by
    intro q hq
    obtain ⟨page, hp, -⟩ := isOwnedBy_iff.1 hq
    exact Cache.isCached_iff.2 ⟨page, hp⟩
  have hnone : ∀ {accept : PageId → Bool},
      (∀ q, accept q = true → s.cache.isCached q = true) →
        s.cache.recency.victim? accept = none → ∀ q, accept q = false := by
    intro accept ha hv q
    by_contra hq
    rw [Bool.not_eq_false] at hq
    rw [ho.searched.missed hv (ha q hq)] at hq
    cases hq
  rcases makeRoom_full (s := s.count .misses) ho hr hfull t with
    ⟨q, hv, hm⟩ | ⟨q, page, f, disk, hc, hv, hp, hf, hw, hm⟩ | ⟨hc, hv, hm⟩
  · have hq := (ho.searched.found hv).1
    have hg := gaveUp_evict (s := s.count .misses) hq
    obtain ⟨hx, hdisk, hkept⟩ := exchanged_of_room t source mode ho hn hq
      ⟨hg.left, hg.others, hg.order, hg.counted⟩ hm
    refine .clean (hd.oldest ho hclean hv) hx hdisk (hkept.trans ?_)
    show (s.cache.drop q).kept = s.cache.kept
    rw [Cache.drop]
    split <;> rfl
  · have hq := (ho.searched.found hv).1
    have hg := gaveUp_evict (q := q) (s := ((({ s.count .misses with disk }.count
      .pagesWritten).onCache fun c => c.keep t q page.beforeImage).count .dirtyEvictions)) hq
    obtain ⟨hx, hdisk, hkept⟩ := exchanged_of_room t source mode ho hn hq
      ⟨hg.left, hg.others, hg.order, hg.counted⟩ hm
    refine .own (hnone hclean hc) (hd.oldest ho howned hv) hp hx hf (hw.trans ?_) fun u r => ?_
    · rw [hdisk]
      rfl
    · rw [Cache.keptFor, hkept]
      show (((s.cache.keep t q page.beforeImage).drop q).keptFor u)[r]? = _
      rw [Cache.keptFor_drop, Cache.keptFor_keep]
      by_cases hqr : q = r
      · rw [hqr]
      · simp only [hqr, false_and, and_false]
  · have hmiss : s.ensureCached t source p = (s.count .misses).read t source p := by
      rw [ensureCached, if_neg (by rw [hn]; exact Bool.false_ne_true)]
    have hfetch : s.fetch t source p mode = (.error .noEvictablePage, s.count .misses) := by
      rw [fetch, hmiss, read, hm]
    rw [hfetch]
    refine .none (fun q page hp => ?_) rfl rfl rfl
    cases hpo : page.owner with
    | none =>
        have := isClean_iff.2 ⟨page, hp, hpo⟩
        rw [hnone hclean hc] at this
        cases this
    | some u =>
        refine ⟨u, ?_, rfl⟩
        rintro rfl
        have := isOwnedBy_iff.2 ⟨page, hp, hpo⟩
        rw [hnone howned hv] at this
        cases this

end Store

/-! ## Runs -/

namespace Traffic

variable {s₀ : Store} {w w' : Traffic} {move : Move} {history events : List Event}
  {grips : List (TransactionId × Handle)} {task : Task}
  {rule : Ledger → Traffic → Move → Traffic → Prop} {free : Cache → Handle → Prop}

/-- After a run in which no table and no file is changed past the store, every cached page can be
written. -/
theorem registered_of_run (h₀ : Fresh s₀)
    (hr : ∀ {l w w' catalog disk}, ¬ rule l w (.replace catalog disk) w')
    (h : Run rule s₀ history w) (hn : ∀ p, w.store.NumberedAt p) : w.store.Registered := by
  intro q page hp
  have hat := intactAt_of_run h₀ hr h (hn q)
  have hfits : (w.store.view q).Fits page := hat.intact.fits hp
  obtain ⟨f, hf, -⟩ := hfits.file
  have hfile := Store.file_of_view hf
  obtain ⟨image, hi⟩ := Option.ne_none_iff_exists'.1 hfits.image
  rw [Store.image_view hfile] at hi
  have hlt := TableFile.lt_pageCount_of_image? (hn q hfile) hi
  rw [← Disk.pageCount_eq] at hlt
  exact ⟨f, hfile, hat.store.catalog.table hfile, hfits.length_encode hf, Nat.le_of_lt hlt⟩

/-- A task is granted a page that is not cached while the cache is full of pages that can be
written.  Then the oldest page without an owner is given up for it, or the oldest of its
transaction if all have owners, or nothing if all are owned by others.  What the task does then
is up to its stage.  No page of another transaction is given up. -/
theorem makes_room (h₀ : s₀.cache = ∅) (h : HandleRun rule free s₀ history w grips)
    (hs : w.step (.resume t) = some (events, w')) (ht : w.tasks t = some task)
    (hsource : w.sourceOf task = .ok source)
    (hv : (w.store.locks.consider t { page := task.page, mode := task.mode }).1 = .granted)
    (hn : w.store.cache.isCached task.page = false)
    (hfull : w.store.cache.size = w.store.capacity) (hr : w.store.Registered) :
    ∃ result s', MakesRoom (usesOf history) t task.page source w.store result s' ∧
      (∀ q page u, w.store.cache.page? q = some page → page.owner = some u → u ≠ t →
        s'.cache.frames[q]? = w.store.cache.frames[q]?) ∧
        w' = w.turn t (task.stage.resume s' t result).1
          (Task.ofNext (task.stage.resume s' t result).2) := by
  let locked : Store := { w.store with
    locks := (w.store.locks.consider t { page := task.page, mode := task.mode }).2 }
  have horder := order_of_run h₀ h
  have hroom := MakesRoom.of_locks (Store.makesRoom_fetch (s := locked) horder (dated_of_run h₀ h)
    hr hn hfull t source task.mode)
  refine ⟨_, _, hroom, fun q page u hp ho hu => hroom.of_other hn hp ho hu, ?_⟩
  obtain ⟨-, hsub⟩ := submit_of_granted source task.stage hv rfl
  rw [step, ht, Option.map_some, resume_of_source hsource] at hs
  rw [← submit_of_some w task hsub, Option.some.inj hs]

namespace Small

/-- A transaction has changed both pages that the cache holds, and asks for a third one. -/
def ownFull : List Move :=
  [.start ⟨0⟩ (.delete (record 1)), .resume ⟨0⟩, .start ⟨0⟩ (.delete (record 0)), .resume ⟨0⟩,
    .start ⟨0⟩ (.getPage (Small.page 2) .shared)]

/-- The task that asks for the third page. -/
def third : Task := { page := Small.page 2, mode := .shared, stage := .get }

theorem registered_ownFull : (after ownFull).2.store.Registered :=
  registered_of_run fresh id (run (by decide) (by decide +kernel))
    (numberedAt (by decide +kernel) (by decide +kernel))

end Small

theorem makes_room_small :
    ∃ events w' result s',
      (Small.after Small.ownFull).2.step (.resume ⟨0⟩) = some (events, w') ∧
        MakesRoom (usesOf (Small.after Small.ownFull).1) ⟨0⟩ (Small.page 2) Small.file
          (Small.after Small.ownFull).2.store result s' ∧
          w' = (Small.after Small.ownFull).2.turn ⟨0⟩ (Small.third.stage.resume s' ⟨0⟩ result).1
            (Task.ofNext (Small.third.stage.resume s' ⟨0⟩ result).2) := by
  have ht : (Small.after Small.ownFull).2.tasks ⟨0⟩ = some Small.third := by decide +kernel
  have hs : (Small.after Small.ownFull).2.step (.resume ⟨0⟩) =
      some ((Small.after Small.ownFull).2.resume ⟨0⟩ Small.third) := by
    rw [step, ht]
    rfl
  have hsource : (Small.after Small.ownFull).2.sourceOf Small.third = .ok Small.file := by
    decide +kernel
  obtain ⟨result, s', hroom, -, hw⟩ := makes_room rfl
    (@Small.handleRun (fun _ _ => True) Small.ownFull (by decide) (by decide +kernel)) hs ht
    hsource (by decide +kernel) (by decide +kernel) (by decide +kernel) Small.registered_ownFull
  exact ⟨_, _, result, s', hs, hroom, hw⟩

/-- The page that was used first has gone, and its row is gone from the file. -/
example : ((Small.after (Small.ownFull ++ [.resume ⟨0⟩])).2.store.cache.ids,
    (Small.after (Small.ownFull ++ [.resume ⟨0⟩])).2.store.disk.contents Small.file) =
      ([Small.page 0, Small.page 2], [1, 0, 0, 0, 1, 0, 0, 0, 0, 0, 1, 0, 0, 0, 3]) := by
  decide +kernel

end Traffic

end PagedStore
