import PagedStore.Proofs.UseOrder

/-!
# The counters add up

The *books* of a store are the number of its cached pages and its counters.  Each operation has
its own way to change them.  What writes and drops pages leaves books that are *tidied*
(`Books.Tidied`): the dropped pages are counted as discarded.  To make room a page is given up
and counted as an eviction (`Books.Cleared`).  A request for a page that is granted its lock is a
hit, or it is a miss, and then the page is read or the request fails (`Books.Served`).

Hence the books *balance* (`Books.Balances`).  Every page that was read is still cached, was
evicted or was discarded.  Every request was a hit or a miss, and every miss led to a page that
was read or to a failure.  The evictions with a write are among the evictions, and their writes
are among the writes.

This holds along any run on a store whose cache is empty and whose counters are at zero
(`Traffic.balances_of_run`).  Operations may fail, locks may be released early, handles may be
used and tables replaced.  Only a cached page without changes is not to be discarded, for this is
not counted, and no counter may wrap around.
-/

namespace PagedStore

open Std (ExtTreeMap)

/-! ## Counters -/

/-- All counters. -/
def Counter.all : List Counter :=
  [.hits, .misses, .evictions, .dirtyEvictions, .pagesRead, .pagesWritten, .pagesDiscarded]

theorem Counter.mem_all (counter : Counter) : counter ∈ all := by
  cases counter <;> decide

namespace Counters

/-- The value of a counter. -/
def value (c : Counters) : Counter → Nat
  | .hits => c.hits.toNat
  | .misses => c.misses.toNat
  | .evictions => c.evictions.toNat
  | .dirtyEvictions => c.dirtyEvictions.toNat
  | .pagesRead => c.pagesRead.toNat
  | .pagesWritten => c.pagesWritten.toNat
  | .pagesDiscarded => c.pagesDiscarded.toNat

/-- No counter gets smaller.  So none of them has wrapped around. -/
def Rises (c c' : Counters) : Prop := ∀ counter, c.value counter ≤ c'.value counter

instance (c c' : Counters) : Decidable (c.Rises c') :=
  decidable_of_iff (∀ counter ∈ Counter.all, c.value counter ≤ c'.value counter)
    ⟨fun h counter => h counter counter.mem_all, fun h counter _ => h counter⟩

/-- A counter that something is added to, and the others. -/
theorem value_add (c : Counters) (changed : Counter) (n : UInt64) (counter : Counter) :
    (c.add changed n).value counter =
      if changed = counter then (c.value counter + n.toNat) % 2 ^ 64 else c.value counter := by
  cases changed <;> cases counter <;> first
    | exact UInt64.toNat_add ..
    | rfl

theorem value_lt (c : Counters) (counter : Counter) : c.value counter < 2 ^ 64 := by
  cases counter <;> exact UInt64.toNat_lt _

theorem value_bump (c : Counters) (changed counter : Counter) :
    (c.bump changed).value counter =
      if changed = counter then (c.value counter + 1) % 2 ^ 64 else c.value counter :=
  value_add c changed 1 counter

end Counters

/-! ## Books -/

/-- The number of cached pages, and the counters. -/
@[ext] structure Books where
  /-- The number of cached pages. -/
  cached : Nat
  /-- The counters. -/
  counters : Counters
deriving DecidableEq

namespace Books

variable {b b' b'' : Books} {result : Except StoreError Frame}

/-- One event is counted. -/
def bump (b : Books) (counter : Counter) : Books := { b with counters := b.counters.bump counter }

/-- The value of a counter. -/
def value (b : Books) (counter : Counter) : Nat := b.counters.value counter

@[simp] theorem cached_bump (b : Books) (counter : Counter) :
    (b.bump counter).cached = b.cached := rfl

@[simp] theorem value_bump (b : Books) (changed counter : Counter) :
    (b.bump changed).value counter =
      if changed = counter then (b.value counter + 1) % 2 ^ 64 else b.value counter :=
  b.counters.value_bump changed counter

theorem value_lt (b : Books) (counter : Counter) : b.value counter < 2 ^ 64 :=
  b.counters.value_lt counter

theorem value_congr (h : b'.counters = b.counters) (counter : Counter) :
    b'.value counter = b.value counter := congrArg (Counters.value · counter) h

/-- A request has failed. -/
def failed (result : Except StoreError Frame) : Bool := !result.isOk

/-! ### Changes of the books -/

/-- Pages are written, and the pages that are dropped are counted as discarded. -/
inductive Tidied (b b' : Books) : Prop
  | intro (written : UInt64) (discarded : Nat) (cached : b.cached = b'.cached + discarded)
      (counters : b'.counters =
        (b.counters.add .pagesWritten written).add .pagesDiscarded (.ofNat discarded))

theorem Tidied.refl (b : Books) : Tidied b b :=
  .intro 0 0 rfl (by ext <;> simp [Counters.add])

theorem Tidied.trans (h : Tidied b b') (h' : Tidied b' b'') : Tidied b b'' := by
  obtain ⟨written, discarded, hcached, hcounters⟩ := h
  obtain ⟨written', discarded', hcached', hcounters'⟩ := h'
  refine .intro (written + written') (discarded + discarded') (by omega) ?_
  rw [hcounters', hcounters]
  ext <;> simp [Counters.add, UInt64.add_assoc]

/-- A page is written. -/
theorem Tidied.write (b : Books) : Tidied b (b.bump .pagesWritten) :=
  .intro 1 0 rfl (by ext <;> simp [bump, Counters.bump, Counters.add])

/-- A page is dropped, and counted as discarded. -/
theorem Tidied.drop (hcached : b.cached = b'.cached + 1)
    (hcounters : b'.counters = b.counters.bump .pagesDiscarded) : Tidied b b' :=
  .intro 0 1 hcached (by rw [hcounters]; ext <;> simp [Counters.bump, Counters.add])

/-- There is room already, or a page is given up for it, after it was written if it has an
owner. -/
inductive Cleared (b : Books) : Books → Prop
  | room : Cleared b b
  | clean {b' : Books} : b.cached = b'.cached + 1 → b'.counters = b.counters.bump .evictions →
      Cleared b b'
  | own {b' : Books} : b.cached = b'.cached + 1 →
      b'.counters = ((b.counters.bump .pagesWritten).bump .dirtyEvictions).bump .evictions →
      Cleared b b'

/-- What comes of a request for a page that was granted its lock. -/
inductive Served (b b' : Books) : Except StoreError Frame → Prop
  /-- The page is cached. -/
  | hit {frame : Frame} : b' = b.bump .hits → Served b b' (.ok frame)
  /-- It is not, and there is no room for it. -/
  | crowded {e : StoreError} : b' = b.bump .misses → Served b b' (.error e)
  /-- There is room for it, but it cannot be read. -/
  | unread {e : StoreError} : (b.bump .misses).Cleared b' → Served b b' (.error e)
  /-- It is read. -/
  | read {made : Books} {frame : Frame} : (b.bump .misses).Cleared made →
      b'.cached = made.cached + 1 → b'.counters = made.counters.bump .pagesRead →
      Served b b' (.ok frame)

theorem Tidied.value_eq (h : Tidied b b') {counter : Counter} (hw : counter ≠ .pagesWritten)
    (hd : counter ≠ .pagesDiscarded) : b'.value counter = b.value counter := by
  obtain ⟨written, discarded, -, hcounters⟩ := h
  rw [value, hcounters, Counters.value_add, if_neg (Ne.symm hd), Counters.value_add,
    if_neg (Ne.symm hw)]
  rfl

theorem Cleared.value_eq (h : Cleared b b') {counter : Counter} (he : counter ≠ .evictions)
    (hd : counter ≠ .dirtyEvictions) (hw : counter ≠ .pagesWritten) :
    b'.value counter = b.value counter := by
  cases h with
  | room => rfl
  | clean _ hcounters =>
      rw [value, hcounters, Counters.value_bump, if_neg (Ne.symm he)]
      rfl
  | own _ hcounters =>
      rw [value, hcounters, Counters.value_bump, if_neg (Ne.symm he), Counters.value_bump,
        if_neg (Ne.symm hd), Counters.value_bump, if_neg (Ne.symm hw)]
      rfl

/-! ### Balance -/

/-- The books balance, after a number of requests for pages that were granted their locks, some
of which have failed. -/
structure Balances (requests failures : Nat) (b : Books) : Prop where
  /-- A page that was read is cached, was evicted or was discarded. -/
  read : b.value .pagesRead = b.cached + b.value .evictions + b.value .pagesDiscarded
  /-- A request is a hit or a miss. -/
  requested : b.value .hits + b.value .misses = requests
  /-- After a miss a page was read, or the request has failed. -/
  missed : b.value .misses = b.value .pagesRead + failures
  /-- A page that is written to be given up is given up. -/
  evicted : b.value .dirtyEvictions ≤ b.value .evictions
  /-- It is written. -/
  written : b.value .dirtyEvictions ≤ b.value .pagesWritten

namespace Balances

variable {requests failures : Nat}

/-- What is dropped was cached, so it was read, and the discarded pages are too few for their
counter to wrap around. -/
theorem tidied (h : b.Balances requests failures) (ht : Tidied b b')
    (hr : b.counters.Rises b'.counters) : b'.Balances requests failures := by
  have hsame : ∀ counter, counter ≠ .pagesWritten → counter ≠ .pagesDiscarded →
      b'.value counter = b.value counter := fun _ => ht.value_eq
  obtain ⟨written, discarded, hcached, hcounters⟩ := ht
  have hread := h.read
  have hfew := b.value_lt .pagesRead
  have hdiscarded : b'.value .pagesDiscarded = b.value .pagesDiscarded + discarded := by
    rw [value, hcounters, Counters.value_add, if_pos rfl, Counters.value_add, if_neg (by decide),
      UInt64.toNat_ofNat_of_lt' (by simp only [UInt64.size]; omega)]
    exact Nat.mod_eq_of_lt (by change b.value _ + _ < _; omega)
  have hwritten : b.value .pagesWritten ≤ b'.value .pagesWritten := hr .pagesWritten
  exact
    { read := by
        rw [hsame .pagesRead (by decide) (by decide), hsame .evictions (by decide) (by decide),
          hdiscarded]
        omega
      requested := by
        rw [hsame .hits (by decide) (by decide), hsame .misses (by decide) (by decide)]
        exact h.requested
      missed := by
        rw [hsame .misses (by decide) (by decide), hsame .pagesRead (by decide) (by decide)]
        exact h.missed
      evicted := by
        rw [hsame .dirtyEvictions (by decide) (by decide),
          hsame .evictions (by decide) (by decide)]
        exact h.evicted
      written := by
        rw [hsame .dirtyEvictions (by decide) (by decide)]
        exact h.written.trans hwritten }

theorem hit (h : b.Balances requests failures)
    (hr : b.value .hits ≤ (b.bump .hits).value .hits) :
    (b.bump .hits).Balances (requests + 1) failures := by
  have hrequested := h.requested
  have hlt := b.value_lt .hits
  rw [value_bump, if_pos rfl] at hr
  exact
    { read := by simpa using h.read
      requested := by
        simp only [value_bump, if_pos, reduceCtorEq, if_false]
        omega
      missed := by simpa using h.missed
      evicted := by simpa using h.evicted
      written := by simpa using h.written }

/-- As long as its page is not read, a request that misses counts as one that has failed. -/
theorem miss (h : b.Balances requests failures)
    (hr : b.value .misses ≤ (b.bump .misses).value .misses) :
    (b.bump .misses).Balances (requests + 1) (failures + 1) := by
  have hrequested := h.requested
  have hmissed := h.missed
  have hlt := b.value_lt .misses
  rw [value_bump, if_pos rfl] at hr
  exact
    { read := by simpa using h.read
      requested := by
        simp only [value_bump, if_pos, reduceCtorEq, if_false]
        omega
      missed := by
        simp only [value_bump, if_pos, reduceCtorEq, if_false]
        omega
      evicted := by simpa using h.evicted
      written := by simpa using h.written }

/-- A page that is given up was read, so the evictions are too few for their counters to wrap
around. -/
theorem cleared (h : b.Balances requests failures) (hc : Cleared b b')
    (hr : b.value .pagesWritten ≤ b'.value .pagesWritten) :
    b'.Balances requests failures := by
  have hread := h.read
  have hevicted := h.evicted
  have hwritten := h.written
  have hfew := b.value_lt .pagesRead
  have hsame : ∀ counter, counter ≠ .evictions → counter ≠ .dirtyEvictions →
      counter ≠ .pagesWritten → b'.value counter = b.value counter := fun _ => hc.value_eq
  have hrequested : b'.value .hits + b'.value .misses = requests := by
    rw [hsame .hits (by decide) (by decide) (by decide),
      hsame .misses (by decide) (by decide) (by decide)]
    exact h.requested
  have hpages := hsame .pagesRead (by decide) (by decide) (by decide)
  have hdiscarded := hsame .pagesDiscarded (by decide) (by decide) (by decide)
  have hmissed : b'.value .misses = b'.value .pagesRead + failures := by
    rw [hsame .misses (by decide) (by decide) (by decide), hpages]
    exact h.missed
  cases hc with
  | room => exact h
  | clean hcached hcounters =>
      have hvalue := value_congr (b := b.bump .evictions) hcounters
      have hevictions := hvalue .evictions
      have hdirty := hvalue .dirtyEvictions
      rw [value_bump] at hevictions hdirty
      rw [if_pos rfl, Nat.mod_eq_of_lt (by omega)] at hevictions
      rw [if_neg (by decide)] at hdirty
      exact ⟨by omega, hrequested, hmissed, by omega, by omega⟩
  | own hcached hcounters =>
      have hvalue := value_congr
        (b := ((b.bump .pagesWritten).bump .dirtyEvictions).bump .evictions) hcounters
      have hevictions := hvalue .evictions
      have hdirty := hvalue .dirtyEvictions
      have hpagesWritten := hvalue .pagesWritten
      simp only [value_bump, reduceCtorEq, if_false, if_true] at hevictions hdirty hpagesWritten
      rw [Nat.mod_eq_of_lt (by omega)] at hevictions hdirty
      have hlt := b.value_lt .pagesWritten
      exact ⟨by omega, hrequested, hmissed, by omega, by omega⟩

/-- The page of a request that has missed is read after all. -/
theorem load (h : b.Balances requests (failures + 1)) (hcached : b'.cached = b.cached + 1)
    (hcounters : b'.counters = b.counters.bump .pagesRead)
    (hr : b.value .pagesRead ≤ b'.value .pagesRead) : b'.Balances requests failures := by
  have hvalue := value_congr (b := b.bump .pagesRead) hcounters
  have hread := h.read
  have hmissed := h.missed
  have hlt := b.value_lt .pagesRead
  have hpages := hvalue .pagesRead
  rw [value_bump, if_pos rfl] at hpages
  have hsame : ∀ counter, counter ≠ .pagesRead → b'.value counter = b.value counter := by
    intro counter hne
    rw [hvalue, value_bump, if_neg (Ne.symm hne)]
  have hevictions := hsame .evictions (by decide)
  have hdiscarded := hsame .pagesDiscarded (by decide)
  have hmisses := hsame .misses (by decide)
  exact
    { read := by omega
      requested := by
        rw [hsame .hits (by decide), hmisses]
        exact h.requested
      missed := by omega
      evicted := by
        rw [hsame .dirtyEvictions (by decide), hevictions]
        exact h.evicted
      written := by
        rw [hsame .dirtyEvictions (by decide), hsame .pagesWritten (by decide)]
        exact h.written }

/-- A request that is granted its lock is counted, and so is its failure. -/
theorem served (h : b.Balances requests failures) (hs : Served b b' result)
    (hr : b.counters.Rises b'.counters) :
    b'.Balances (requests + 1) (failures + [result].countP failed) := by
  cases hs with
  | hit he =>
      subst he
      exact h.hit (hr .hits)
  | crowded he =>
      subst he
      exact h.miss (hr .misses)
  | unread hc =>
      have hmisses : b.value .misses ≤ b'.value .misses := hr .misses
      have hwritten : b.value .pagesWritten ≤ b'.value .pagesWritten := hr .pagesWritten
      rw [hc.value_eq (by decide) (by decide) (by decide)] at hmisses
      exact (h.miss hmisses).cleared hc (by simpa using hwritten)
  | @read made frame hc hcached hcounters =>
      have hvalue := value_congr (b := made.bump .pagesRead) hcounters
      have hmisses : b.value .misses ≤ b'.value .misses := hr .misses
      have hwritten : b.value .pagesWritten ≤ b'.value .pagesWritten := hr .pagesWritten
      have hpages : b.value .pagesRead ≤ b'.value .pagesRead := hr .pagesRead
      have hmade : made.value .pagesRead = (b.bump .misses).value .pagesRead :=
        hc.value_eq (by decide) (by decide) (by decide)
      rw [hvalue, value_bump, if_neg (by decide),
        hc.value_eq (by decide) (by decide) (by decide)] at hmisses
      rw [hvalue, value_bump, if_neg (by decide)] at hwritten
      refine ((h.miss hmisses).cleared hc (by simpa using hwritten)).load hcached hcounters ?_
      rw [hmade]
      simpa using hpages

end Balances

end Books

/-! ## The operations of a store -/

theorem Cache.size_load {c : Cache} {page : Page} (h : c.isCached page.id = false) :
    (c.load page).size = c.size + 1 := by
  have hnew : ¬ c.frames.contains page.id = true := by
    rw [← isCached, h]
    exact Bool.false_ne_true
  show (c.frames.insert page.id _).size = _
  rw [ExtTreeMap.size_insert, if_neg hnew]
  rfl

@[simp] theorem Cache.size_updateCopy (c : Cache) (id : PageId) (copy : Nat) (f : Page → Page) :
    (c.updateCopy id copy f).size = c.size := by
  rw [updateCopy]
  split
  · split
    · exact size_update ..
    · rfl
  · rfl

namespace Store

variable {s s' : Store} {t : TransactionId} {f : TableFile} {id : PageId} {page : Page}

/-- The number of cached pages, and the counters. -/
def books (s : Store) : Books := { cached := s.cache.size, counters := s.counters }

theorem books_onCache {g : Cache → Cache} (h : (g s.cache).size = s.cache.size) :
    (s.onCache g).books = s.books := by
  rw [books, onCache, h]
  rfl

@[simp] theorem books_update (s : Store) (id : PageId) (g : Page → Page) :
    (s.onCache fun c => c.update id g).books = s.books :=
  books_onCache (Cache.size_update ..)

@[simp] theorem books_take (s : Store) (t : TransactionId) (id : PageId) (mode : LockMode) :
    (s.take t id mode).books = s.books := by
  cases mode with
  | shared => rfl
  | exclusive => exact books_onCache (Cache.size_update ..)

/-! ### Writing -/

theorem books_writeOut (h : s.writeOut page = .ok s') : s'.books = s.books.bump .pagesWritten := by
  obtain ⟨f, disk, -, -, rfl⟩ := writeOut_eq_ok h
  rfl

theorem books_writeBack (h : s.writeBack page = .ok s') (ho : page.owner = some t) :
    s'.books = s.books.bump .pagesWritten := by
  obtain ⟨s₁, hw, rfl⟩ := writeBack_eq_ok h ho
  have hwritten := books_writeOut hw
  exact hwritten

theorem tidied_untilError {α : Type} {g : Store → α → Except StoreError Store}
    (hg : ∀ {s a s'}, g s a = .ok s' → s.books.Tidied s'.books) (s : Store) (as : List α) :
    s.books.Tidied (untilError g s as).2.books := by
  induction as generalizing s with
  | nil => exact .refl _
  | cons a as ih =>
      rw [untilError]
      split
      · exact .refl _
      · rename_i s₁ h
        exact (hg h).trans (ih s₁)

theorem tidied_flushPage (h : s.flushPage id = .ok s') : s.books.Tidied s'.books := by
  rw [flushPage] at h
  split at h
  · cases h
    exact .refl _
  · rename_i page hp
    cases ho : page.owner with
    | none =>
        rw [writeBack, ho] at h
        cases h
        exact .refl _
    | some owner =>
        rw [books_writeBack h ho]
        exact .write _

theorem tidied_commitPage (h : s.commitPage id = .ok s') : s.books.Tidied s'.books := by
  rw [commitPage] at h
  split at h
  · cases h
    exact .refl _
  · split at h
    · cases h
    · rename_i s₁ hw
      cases h
      rw [books_update, books_writeOut hw]
      exact .write _

theorem tidied_commit (s : Store) (t : TransactionId) : s.books.Tidied (s.commit t).2.books := by
  have hpages := tidied_untilError (g := commitPage) tidied_commitPage s (s.cache.ownedBy t)
  rw [commit]
  split <;> rename_i hu <;> rw [hu] at hpages <;> exact hpages

/-! ### Dropping -/

/-- A page with changes that is dropped is counted. -/
theorem tidied_dropSpoiled (h : s.cache.isCached id = true) :
    s.books.Tidied (s.dropSpoiled id).books :=
  .drop (Cache.size_drop h).symm rfl

/-- Pages that are cached, each named once, are counted as they are dropped. -/
theorem tidied_foldl_dropSpoiled {s : Store} {ids : List PageId} (hn : ids.Nodup)
    (hc : ∀ id ∈ ids, s.cache.isCached id = true) :
    s.books.Tidied (ids.foldl dropSpoiled s).books := by
  induction ids generalizing s with
  | nil => exact .refl _
  | cons id ids ih =>
      obtain ⟨hout, hn⟩ := List.nodup_cons.1 hn
      refine (tidied_dropSpoiled (hc id List.mem_cons_self)).trans (ih hn fun q hq => ?_)
      have hne : id ≠ q := fun he => hout (he ▸ hq)
      show (s.cache.drop id).isCached q = true
      rw [Cache.isCached_drop, hc q (List.mem_cons_of_mem _ hq), decide_eq_true hne]
      rfl

theorem tidied_restoreAll (s : Store) (images : List (PageId × Bytes)) :
    s.books.Tidied (s.restoreAll images).2.books := by
  induction images generalizing s with
  | nil => exact .refl _
  | cons entry images ih =>
      rw [restoreAll]
      split
      · rename_i s₁ hr
        obtain ⟨f, disk, -, -, rfl⟩ := restore_eq_ok hr
        have hput : s.books.Tidied ({ s with disk }.count .pagesWritten).books := .write _
        exact hput.trans (ih _)
      · exact ih s

theorem tidied_abort (s : Store) (t : TransactionId) : s.books.Tidied (s.abort t).2.books := by
  have hn : (s.spoiled t).Nodup := ExtTreeMap.nodup_keys.sublist List.filter_sublist
  have hdropped := tidied_foldl_dropSpoiled hn fun id hid =>
    Cache.mem_ids.1 (List.mem_of_mem_filter hid)
  exact hdropped.trans (tidied_restoreAll
    (((s.spoiled t).foldl dropSpoiled s).onCache fun c => c.forget t) (s.cache.keptFor t).toList)

/-- A page that is discarded is counted if it has changes. -/
theorem tidied_discard (h : s.cache.isClean id = false) : s.books.Tidied (s.discard id).books := by
  rw [discard]
  split
  · exact .refl _
  · rename_i page hp
    have hdirty : page.isDirty = true := by
      rw [Cache.isClean, hp] at h
      simpa using h
    rw [if_pos hdirty]
    exact .drop (Cache.size_drop (Cache.isCached_iff.2 ⟨page, hp⟩)).symm rfl

/-! ### Fetching -/

/-- A page that is given up is counted. -/
theorem InOrder.cleared_makeRoom (h : s.InOrder) (hr : s.makeRoom t = .ok s') :
    s.books.Cleared s'.books := by
  obtain rfl | ⟨id, page, hp, -, rfl⟩ | ⟨id, page, s₁, hp, ho, hw, rfl⟩ := makeRoom_cases hr
  · exact .room
  · exact .clean (Cache.size_drop (Cache.isCached_iff.2 ⟨page, hp⟩)).symm rfl
  · have hbooks := books_writeBack hw ho
    have hcached : s₁.cache.isCached page.id = true := by
      rw [Cache.isCached, (shifts_writeBack (P := fun _ => True) hw).2, h.keyed hp]
      exact Cache.isCached_iff.2 ⟨page, hp⟩
    have hsize : s₁.cache.size = s.cache.size := congrArg Books.cached hbooks
    have hcounters : s₁.counters = s.counters.bump .pagesWritten :=
      congrArg Books.counters hbooks
    refine .own (hsize.symm.trans (Cache.size_drop hcached).symm) ?_
    show (s₁.counters.bump .dirtyEvictions).bump .evictions = _
    rw [hcounters]
    rfl

/-- A request for a page is counted, whatever comes of it. -/
theorem InOrder.served_fetch (h : s.InOrder) (t : TransactionId) (f : TableFile) (id : PageId)
    (mode : LockMode) : s.books.Served (s.fetch t f id mode).2.books (s.fetch t f id mode).1 := by
  have hensured := s.ensured t f id
  obtain ⟨e, he, hf⟩ | ⟨hok, frame, hf⟩ := s.fetch_taken t f id mode
  · rw [hf]
    generalize s.ensureCached t f id = result at hensured he ⊢
    cases hensured with
    | hit | read => cases he
    | crowded => exact .crowded rfl
    | unread hr => exact .unread (InOrder.cleared_makeRoom (s := s.count .misses) h hr)
  · rw [hf]
    show Books.Served _ ((s.ensureCached t f id).2.take t id mode).books _
    rw [books_take]
    generalize s.ensureCached t f id = result at hensured hok ⊢
    cases hensured with
    | hit => exact .hit rfl
    | crowded | unread => cases hok
    | @read s₁ page hc hr hp =>
        obtain ⟨image, -, hd⟩ := Disk.readPage_eq_ok hp
        obtain rfl : page.id = id := (Page.decode_eq_ok hd).2.1
        have hn : s₁.cache.isCached page.id = false :=
          Cache.isCached_eq_false_iff.2 (page?_makeRoom hr hc)
        exact .read (InOrder.cleared_makeRoom (s := s.count .misses) h hr) (Cache.size_load hn) rfl

/-! ### Tasks -/

theorem books_begin (s : Store) (t : TransactionId) (table : TableId) (schema : Schema)
    (stored : List RecordId) (rows : List (List Field)) :
    (Insertion.begin s t table schema stored rows).1.books = s.books := by
  obtain ⟨disk, he⟩ := Insertion.begin_eq s t table schema stored rows
  rw [he]
  rfl

theorem books_start (request : Request) (s : Store) (t : TransactionId) :
    (request.start s t).1.books = s.books := by
  obtain ⟨disk, he⟩ := request.start_eq s t
  rw [he]
  rfl

/-- A stage counts nothing. -/
theorem books_resume (stage : Stage) (s : Store) (t : TransactionId)
    (r : Except StoreError Frame) : (stage.resume s t r).1.books = s.books := by
  cases r with
  | error e => rw [stage.resume_error]
  | ok frame =>
      cases stage with
      | get => rfl
      | look task page count heldBefore =>
          rw [Stage.resume, Insertion.looked]
          split
          · rfl
          · obtain ⟨disk, he⟩ := task.search_eq
              (if heldBefore then s else (s.releasePage t frame.page.id).2) t (page + 1) count
            rw [he]
            cases heldBefore <;> rfl
      | place task =>
          rw [Stage.resume, Insertion.place]
          split
          · rfl
          · rw [books_begin, books_update]
      | delete record answer =>
          rw [Stage.resume]
          split
          · rfl
          · exact books_update ..
      | feed => rfl

/-- What the fetch comes to when a request is granted its lock. -/
def call? (s : Store) (t : TransactionId) (f : TableFile) (r : LockRequest) :
    Option (Except StoreError Frame) :=
  let verdict := s.locks.consider t r
  match verdict.1 with
  | .granted => some ({ s with locks := verdict.2 }.fetch t f r.page r.mode).1
  | _ => none

/-- A request that is evaluated counts if it is granted its lock. -/
theorem InOrder.served_submit (h : s.InOrder) (t : TransactionId) (f : TableFile) (r : LockRequest)
    (stage : Stage) :
    (s.call? t f r = none ∧ (PagedStore.submit s t f r stage).2.books = s.books) ∨
      ∃ result, s.call? t f r = some result ∧
        s.books.Served (PagedStore.submit s t f r stage).2.books result := by
  cases hv : (s.locks.consider t r).1 with
  | waits =>
      rw [(submit_of_waits f stage hv).2]
      exact Or.inl ⟨by simp only [call?, hv], rfl⟩
  | refused =>
      rw [(submit_of_refused f stage hv).2]
      exact Or.inl ⟨by simp only [call?, hv], rfl⟩
  | granted =>
      rw [(submit_of_granted f stage hv rfl).2]
      have hserved := InOrder.served_fetch (s := { s with locks := (s.locks.consider t r).2 }) h t
        f r.page r.mode
      refine Or.inr ⟨_, by simp only [call?, hv]; rfl, ?_⟩
      rw [books_resume]
      exact hserved

end Store

/-! ## Runs -/

namespace Traffic

variable {s₀ : Store} {w w' : Traffic} {move : Move} {events : List Event}
  {calls : List (Except StoreError Frame)}

/-- The request for a page that is granted its lock with a move, if there is one: what the fetch
comes to. -/
def called (w : Traffic) : Move → List (Except StoreError Frame)
  | .resume t =>
      ((w.tasks t).bind fun task =>
        (w.sourceOf task).toOption.bind fun source =>
          w.store.call? t source { page := task.page, mode := task.mode }).toList
  | _ => []

/-- A page is discarded only if it is not cached or has changes. -/
def Sparing (w : Traffic) : Move → Prop
  | .discard page => w.store.cache.isClean page = false
  | _ => True

/-- A run from a store, with what has come of the requests for pages that were granted their
locks, and the traffic after it.  No counter wraps around.  A copy may be changed through a handle
in any way that keeps its shape. -/
inductive CountedRun (s₀ : Store) : List (Except StoreError Frame) → Traffic → Prop
  | start : CountedRun s₀ [] { store := s₀ }
  | move {calls : List (Except StoreError Frame)} {events : List Event} {w w' : Traffic}
      {move : Move} :
      CountedRun s₀ calls w → w.Sparing move → w.step move = some (events, w') →
        w.store.counters.Rises w'.store.counters → CountedRun s₀ (calls ++ w.called move) w'
  | write {calls : List (Except StoreError Frame)} {w : Traffic} {hd : Handle}
      {page page' : Page} :
      CountedRun s₀ calls w → w.store.cache.copy? hd.page hd.copy = some page →
        page.SameShape page' → CountedRun s₀ calls (w.write hd page')

/-- What a move does to the books. -/
theorem books_of_step (ho : w.store.InOrder) (hm : w.Sparing move)
    (hs : w.step move = some (events, w')) :
    (w.called move = [] ∧ w.store.books.Tidied w'.store.books) ∨
      ∃ result, w.called move = [result] ∧ w.store.books.Served w'.store.books result := by
  have hquiet : ∀ {s' : Store}, s'.books = w.store.books → w.store.books.Tidied s'.books :=
    fun he => he ▸ .refl _
  cases move with
  | start t request =>
      refine Or.inl ⟨rfl, ?_⟩
      simp only [step] at hs
      split at hs
      · cases hs
      · cases hs
        exact hquiet (Store.books_start ..)
  | resume t =>
      obtain ⟨task, ht, hr⟩ := Option.map_eq_some_iff.1 hs
      cases hsource : w.sourceOf task with
      | error e =>
          rw [resume_of_error hsource] at hr
          cases hr
          refine Or.inl ⟨by simp [called, ht, hsource, Except.toOption], hquiet ?_⟩
          exact Store.books_resume ..
      | ok source =>
          have hcalls : w.called (.resume t) =
              (w.store.call? t source { page := task.page, mode := task.mode }).toList := by
            simp [called, ht, hsource, Except.toOption]
          rw [resume_of_source hsource] at hr
          have hstore := store_submit w t task source
          rw [hr] at hstore
          rw [hcalls, hstore]
          obtain ⟨hnone, hb⟩ | ⟨result, hsome, hserved⟩ := ho.served_submit t source
            { page := task.page, mode := task.mode } task.stage
          · exact Or.inl ⟨by rw [hnone]; rfl, hquiet hb⟩
          · exact Or.inr ⟨result, by rw [hsome]; rfl, hserved⟩
  | commit t =>
      cases hs
      exact Or.inl ⟨rfl, Store.tidied_commit ..⟩
  | abort t =>
      cases hs
      exact Or.inl ⟨rfl, Store.tidied_abort ..⟩
  | flushPage page =>
      refine Or.inl ⟨rfl, ?_⟩
      simp only [step] at hs
      split at hs
      · rename_i store hf
        cases hs
        exact Store.tidied_flushPage hf
      · cases hs
        exact .refl _
  | flushPages t =>
      cases hs
      exact Or.inl ⟨rfl, Store.tidied_untilError Store.tidied_flushPage ..⟩
  | flushAll =>
      cases hs
      exact Or.inl ⟨rfl, Store.tidied_untilError Store.tidied_flushPage ..⟩
  | discard page =>
      cases hs
      exact Or.inl ⟨rfl, Store.tidied_discard hm⟩
  | release t page =>
      cases hs
      exact Or.inl ⟨rfl, hquiet rfl⟩
  | replace catalog disk =>
      cases hs
      exact Or.inl ⟨rfl, hquiet rfl⟩

instance (w : Traffic) (move : Move) : Decidable (w.Sparing move) :=
  match move with
  | .discard _ => inferInstanceAs (Decidable (_ = false))
  | .start .. | .resume _ | .commit _ | .abort _ | .flushPage _ | .flushPages _ | .flushAll
  | .release .. | .replace .. => isTrue trivial

/-- What has come of the requests when some moves are made one after another, and the traffic
after them, if they are sparing and no counter wraps around. -/
def tally (w : Traffic) : List Move → Option (List (Except StoreError Frame) × Traffic)
  | [] => some ([], w)
  | move :: moves =>
      match w.step move with
      | none => none
      | some (_, w') =>
          if w.Sparing move ∧ w.store.counters.Rises w'.store.counters then
            (w'.tally moves).map fun r => (w.called move ++ r.1, r.2)
          else none

/-- A run goes on with moves that can be tallied. -/
theorem CountedRun.steps {moves : List Move} {r : List (Except StoreError Frame) × Traffic}
    (h : CountedRun s₀ calls w) (hs : w.tally moves = some r) :
    CountedRun s₀ (calls ++ r.1) r.2 := by
  induction moves generalizing calls w r with
  | nil =>
      cases hs
      rw [List.append_nil]
      exact h
  | cons move moves ih =>
      rw [tally] at hs
      split at hs
      · cases hs
      · rename_i events w₁ hstep
        split at hs
        · rename_i hm
          obtain ⟨rest, hrest, rfl⟩ := Option.map_eq_some_iff.1 hs
          rw [← List.append_assoc]
          exact ih (h.move hm.1 hstep hm.2) hrest
        · cases hs

/-- Whatever is done, the books balance all along. -/
theorem balances_of_run (hcache : s₀.cache = ∅) (hcounters : s₀.counters = {})
    (h : CountedRun s₀ calls w) :
    w.store.books.Balances calls.length (calls.countP Books.failed) := by
  have hboth : w.store.InOrder ∧
      w.store.books.Balances calls.length (calls.countP Books.failed) := by
    induction h with
    | start =>
        refine ⟨?_, ?_⟩
        · show s₀.cache.InOrder s₀.capacity
          rw [hcache]
          exact .empty _
        · show s₀.books.Balances _ _
          rw [Store.books, hcache, hcounters]
          exact ⟨rfl, rfl, rfl, le_rfl, le_rfl⟩
    | @move calls events w w' move _ hm hs hr ih =>
        obtain ⟨ho, hb⟩ := ih
        refine ⟨(shifts_of_step ho hs).inOrder ho, ?_⟩
        obtain ⟨hcalls, htidied⟩ | ⟨result, hcalls, hserved⟩ := books_of_step ho hm hs
        · rw [hcalls, List.append_nil]
          exact hb.tidied htidied hr
        · rw [hcalls, List.length_append, List.countP_append]
          exact hb.served hserved hr
    | write _ hcopy hshape ih =>
        obtain ⟨ho, hb⟩ := ih
        refine ⟨ho.shifts (shifts_write hcopy hshape), ?_⟩
        rw [write, Store.books_onCache (Cache.size_updateCopy ..)]
        exact hb
  exact hboth.2

namespace Small

/-- Two transactions have changed all that is cached, and a third one finds no room.  The first
one gives up a page of its own, uses another one twice and is aborted.  A page of the second one
is discarded, and then the third one reads all pages. -/
def busy : List Move :=
  [.start ⟨0⟩ (.getPage (page 0) .exclusive), .resume ⟨0⟩,
   .start ⟨1⟩ (.getPage (page 1) .exclusive), .resume ⟨1⟩,
   .start ⟨2⟩ (.getPage (page 2) .shared), .resume ⟨2⟩, .abort ⟨2⟩,
   .start ⟨0⟩ (.getPage (page 2) .exclusive), .resume ⟨0⟩,
   .start ⟨0⟩ (.getPage (page 2) .shared), .resume ⟨0⟩,
   .abort ⟨0⟩, .discard (page 1), .commit ⟨1⟩,
   .start ⟨2⟩ (.getPage (page 0) .shared), .resume ⟨2⟩,
   .start ⟨2⟩ (.getPage (page 1) .shared), .resume ⟨2⟩,
   .start ⟨2⟩ (.getPage (page 2) .shared), .resume ⟨2⟩]

theorem tallies : (({ store } : Traffic).tally busy).isSome = true := by decide +kernel

/-- What has come of the requests in this run, and the traffic after it. -/
def tallied : List (Except StoreError Frame) × Traffic :=
  (({ store } : Traffic).tally busy).getD ([], { store })

end Small

theorem balances_of_run_small :
    Small.store.cache = ∅ ∧ Small.store.counters = {} ∧
      CountedRun Small.store Small.tallied.1 Small.tallied.2 ∧
        Small.tallied.2.store.books.Balances 8 1 := by
  have hrun : CountedRun Small.store Small.tallied.1 Small.tallied.2 :=
    CountedRun.start.steps (eq_some_getD Small.tallies ([], { store := Small.store }))
  have hlength : Small.tallied.1.length = 8 := by decide +kernel
  have hfailed : Small.tallied.1.countP Books.failed = 1 := by decide +kernel
  have hbalances := balances_of_run rfl rfl hrun
  rw [hlength, hfailed] at hbalances
  exact ⟨rfl, rfl, hrun, hbalances⟩

example : Small.tallied.2.store.books = ⟨2, ⟨1, 7, 2, 1, 6, 2, 2⟩⟩ := by
  decide +kernel

end Traffic

end PagedStore
