import PagedStore.Numeric.Fixed

/-!
# Counters of the cache

Seven counters of 64 bits tell how the cache is doing.  They wrap around.  The
*hit rate* is the part of the requests that found their page in the cache, and
zero before the first request.

The counters have two texts.  `Counters.summary` is for people and gives the
hit rate as a percentage.  `Counters.listing` has each counter by name.
-/

namespace PagedStore

/-- The names of the counters. -/
inductive Counter where
  /-- Requests that found their page in the cache. -/
  | hits
  /-- Requests that did not. -/
  | misses
  /-- Pages dropped to make room. -/
  | evictions
  /-- Pages written and then dropped to make room. -/
  | dirtyEvictions
  /-- Pages read from a file. -/
  | pagesRead
  /-- Pages written to a file. -/
  | pagesWritten
  /-- Pages dropped with changes that are not wanted. -/
  | pagesDiscarded
deriving DecidableEq, Repr

/-- The values of the counters. -/
@[ext] structure Counters where
  /-- The value of `Counter.hits`. -/
  hits : UInt64 := 0
  /-- The value of `Counter.misses`. -/
  misses : UInt64 := 0
  /-- The value of `Counter.evictions`. -/
  evictions : UInt64 := 0
  /-- The value of `Counter.dirtyEvictions`. -/
  dirtyEvictions : UInt64 := 0
  /-- The value of `Counter.pagesRead`. -/
  pagesRead : UInt64 := 0
  /-- The value of `Counter.pagesWritten`. -/
  pagesWritten : UInt64 := 0
  /-- The value of `Counter.pagesDiscarded`. -/
  pagesDiscarded : UInt64 := 0
deriving DecidableEq, Repr, Inhabited

namespace Counters

/-- The values in the order of the fields. -/
def values (c : Counters) : List UInt64 :=
  [c.hits, c.misses, c.evictions, c.dirtyEvictions, c.pagesRead, c.pagesWritten, c.pagesDiscarded]

/-- Adds to one counter. -/
def add (c : Counters) (counter : Counter) (n : UInt64) : Counters :=
  match counter with
  | .hits => { c with hits := c.hits + n }
  | .misses => { c with misses := c.misses + n }
  | .evictions => { c with evictions := c.evictions + n }
  | .dirtyEvictions => { c with dirtyEvictions := c.dirtyEvictions + n }
  | .pagesRead => { c with pagesRead := c.pagesRead + n }
  | .pagesWritten => { c with pagesWritten := c.pagesWritten + n }
  | .pagesDiscarded => { c with pagesDiscarded := c.pagesDiscarded + n }

/-- Adds one to a counter. -/
def bump (c : Counters) (counter : Counter) : Counters := c.add counter 1

/-- The part of the requests that found their page in the cache. -/
def hitRate (c : Counters) : Float :=
  let total := c.hits + c.misses
  if total = 0 then 0 else c.hits.toFloat / total.toFloat

/-- The counters in a line, with the hit rate in percent. -/
def summary (c : Counters) : String :=
  s!"Stats \x7b hits: {c.hits}, misses: {c.misses}, evictions: {c.evictions} " ++
    s!"({c.dirtyEvictions} dirty), read: {c.pagesRead}, written: {c.pagesWritten}, " ++
    s!"discarded: {c.pagesDiscarded}, hit_rate: {Numeric.hundredths (c.hitRate * 100)}% \x7d"

/-- The counters in a line, each by name. -/
def listing (c : Counters) : String :=
  s!"StatsSnapshot \x7b cache_hits: {c.hits}, cache_misses: {c.misses}, " ++
    s!"evictions: {c.evictions}, dirty_evictions: {c.dirtyEvictions}, " ++
    s!"pages_read: {c.pagesRead}, pages_written: {c.pagesWritten}, " ++
    s!"pages_discarded: {c.pagesDiscarded} \x7d"

end Counters

end PagedStore
