import PagedStore.Store.Fetch

/-!
# Flushing, and the end of a transaction

Pages can be flushed, that is, written to their files early, or discarded.

A transaction ends with a commit or an abort.  A commit writes every page that
the transaction owns.  The pages stay cached, belong to nobody, and their before
images are their present images.  If a page cannot be written the commit fails
there, the pages before it are committed, and the transaction keeps its locks.

An abort drops every page that the transaction owns or that was written early for
it, and puts the kept before images back into the files.  It does all it can, and
reports the first image that could not be put back.  The locks are released in
any case.
-/

namespace PagedStore.Store

/-! ## Flushing and discarding -/

/-- Writes a page to its file if it is cached and has an owner. -/
def flushPage (s : Store) (id : PageId) : Except StoreError Store :=
  match s.cache.page? id with
  | none => .ok s
  | some page => s.writeBack page

/-- Writes every page that a transaction owns. -/
def flushPages (s : Store) (t : TransactionId) : Except StoreError Unit × Store :=
  untilError flushPage s (s.cache.ownedBy t)

/-- Writes every page that has an owner. -/
def flushAll (s : Store) : Except StoreError Unit × Store := untilError flushPage s s.cache.ids

/-- Drops a page from the cache without writing it. -/
def discard (s : Store) (id : PageId) : Store :=
  match s.cache.page? id with
  | none => s
  | some page =>
      let s := s.onCache fun c => c.drop id
      if page.isDirty then s.count .pagesDiscarded else s

/-! ## Commit -/

/-- Writes a cached page for good. -/
def commitPage (s : Store) (id : PageId) : Except StoreError Store :=
  match s.cache.page? id with
  | none => .ok s
  | some page =>
      match s.writeOut page with
      | .error e => .error e
      | .ok s => .ok (s.onCache fun c => c.update id fun page => page.keepImage.withOwner none)

/-- Releases all locks of a transaction. -/
def releaseAll (s : Store) (t : TransactionId) : Store :=
  { s with locks := (s.locks.releaseAll t).2 }

/-- Commits a transaction. -/
def commit (s : Store) (t : TransactionId) : Except StoreError Unit × Store :=
  match untilError commitPage s (s.cache.ownedBy t) with
  | (.error e, s) => (.error e, s)
  | (.ok _, s) => (.ok (), (s.onCache fun c => c.forget t).releaseAll t)

/-! ## Abort -/

/-- The cached pages that carry changes of a transaction, in page order. -/
def spoiled (s : Store) (t : TransactionId) : List PageId :=
  s.cache.ids.filter fun id => s.cache.isOwnedBy t id || (s.cache.keptFor t).contains id

/-- Drops a page with changes that are not wanted. -/
def dropSpoiled (s : Store) (id : PageId) : Store :=
  (s.onCache fun c => c.drop id).count .pagesDiscarded

/-- Puts a before image back into the file of its page. -/
def restore (s : Store) (id : PageId) (image : Bytes) : Except StoreError Store :=
  match s.catalog.file id.table with
  | .error e => .error e
  | .ok file =>
      match s.disk.writeImage file id image with
      | .error e => .error e
      | .ok disk => .ok ({ s with disk }.count .pagesWritten)

/-- Puts back as many before images as can be: the first error, if there was one,
and the store. -/
def restoreAll (s : Store) : List (PageId × Bytes) → Except StoreError Unit × Store
  | [] => (.ok (), s)
  | (id, image) :: images =>
      match s.restore id image with
      | .ok s => restoreAll s images
      | .error e => (.error e, (restoreAll s images).2)

/-- Aborts a transaction. -/
def abort (s : Store) (t : TransactionId) : Except StoreError Unit × Store :=
  let images := (s.cache.keptFor t).toList
  let s := ((s.spoiled t).foldl dropSpoiled s).onCache fun c => c.forget t
  let r := s.restoreAll images
  (r.1, r.2.releaseAll t)

end PagedStore.Store
