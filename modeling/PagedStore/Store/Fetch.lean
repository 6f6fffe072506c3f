import PagedStore.Store.Basic

/-!
# Fetching pages

A transaction that holds the lock of a page fetches the page from the cache.  If
it is not there it is read from its file, and first room is made if the cache is
full.  A page fetched for writing belongs to the transaction from then on.

To make room one page is given up.  It is the least recently used page that
nobody owns.  If all pages have an owner, it is the least recently used one that
the requesting transaction owns.  That page is written to its file, and its
before image is kept.  Pages of other transactions are never given up, so there
may be no room to make.
-/

namespace PagedStore.Store

/-! ## Writing back -/

/-- Writes a page to its file.  The page is not changed. -/
def writeOut (s : Store) (page : Page) : Except StoreError Store :=
  match s.catalog.file page.id.table with
  | .error e => .error e
  | .ok file =>
      match s.disk.writePage file page with
      | .error e => .error e
      | .ok disk => .ok ({ s with disk }.count .pagesWritten)

/-- Writes a page that has an owner to its file before the owner has finished, and
keeps its before image.  The page stays with its owner. -/
def writeBack (s : Store) (page : Page) : Except StoreError Store :=
  match page.owner with
  | none => .ok s
  | some owner =>
      match s.writeOut page with
      | .error e => .error e
      | .ok s => .ok (s.onCache fun c => c.keep owner page.id page.beforeImage)

/-! ## Making room -/

/-- Gives a page up. -/
def evict (s : Store) (id : PageId) : Store := (s.onCache fun c => c.drop id).count .evictions

/-- The page to give up if a transaction needs room and every page has an owner. -/
def ownVictim? (s : Store) (t : TransactionId) : Option Page :=
  (s.cache.recency.victim? (s.cache.isOwnedBy t)).bind s.cache.page?

/-- Gives one page up. -/
def evictOne (s : Store) (t : TransactionId) : Except StoreError Store :=
  match s.cache.recency.victim? s.cache.isClean with
  | some id => .ok (s.evict id)
  | none =>
      match s.ownVictim? t with
      | none => .error .noEvictablePage
      | some page =>
          match s.writeBack page with
          | .error e => .error e
          | .ok s => .ok ((s.count .dirtyEvictions).evict page.id)

/-- Makes room for one page.  The cache never holds more pages than it may, so one page is
given up at most. -/
def makeRoom (s : Store) (t : TransactionId) : Except StoreError Store :=
  if s.cache.size < s.capacity then .ok s else s.evictOne t

/-! ## Fetching -/

/-- Reads a page that is not cached from its file into the cache. -/
def read (s : Store) (t : TransactionId) (file : TableFile) (id : PageId) :
    Except StoreError Unit × Store :=
  match s.makeRoom t with
  | .error e => (.error e, s)
  | .ok s =>
      match s.disk.readPage file id with
      | .error e => (.error e, s)
      | .ok page => (.ok (), (s.count .pagesRead).onCache fun c => c.load page)

/-- Sees to it that a page is cached. -/
def ensureCached (s : Store) (t : TransactionId) (file : TableFile) (id : PageId) :
    Except StoreError Unit × Store :=
  if s.cache.isCached id then (.ok (), s.count .hits) else (s.count .misses).read t file id

/-- Makes a cached page the most recently used, and the transaction's own if it is
fetched for writing. -/
def take (s : Store) (t : TransactionId) (id : PageId) (mode : LockMode) : Store :=
  s.onCache fun c =>
    match mode with
    | .shared => c.touch id
    | .exclusive => (c.touch id).update id fun page => page.withOwner (some t)

/-- Fetches a page for a transaction that holds its lock in this mode.  The file is
where the page is read from if it is not cached. -/
def fetch (s : Store) (t : TransactionId) (file : TableFile) (id : PageId) (mode : LockMode) :
    Except StoreError Frame × Store :=
  match s.ensureCached t file id with
  | (.error e, s) => (.error e, s)
  | (.ok _, s) =>
      let s := s.take t id mode
      match s.cache.frames[id]? with
      | some frame => (.ok frame, s)
      | none => (.error (.pageNotFound id), s)

/-! ## Installing -/

/-- Makes a copy a transaction's own, sees to it that it is the one in the cache, and makes its
page the most recently used. -/
def install (s : Store) (t : TransactionId) (frame : Frame) : Except StoreError Unit × Store :=
  let id := frame.page.id
  let own := { frame with page := frame.page.withOwner (some t) }
  let s := s.onCache fun c => c.updateCopy id frame.copy fun page => page.withOwner (some t)
  match s.cache.frames[id]? with
  | some cached =>
      if cached.copy = frame.copy then (.ok (), s.onCache fun c => c.touch id)
      else (.ok (), s.onCache fun c => (c.put own).touch id)
  | none =>
      match s.makeRoom t with
      | .error e => (.error e, s)
      | .ok s => (.ok (), s.onCache fun c => (c.put own).touch id)

end PagedStore.Store
