import PagedStore.Proofs.ScanProgress

/-!
# Scans are complete and repeatable

A transaction drives a scan of a table to its end, while others insert and delete rows, put new
pages at the end of the file, commit and abort.  The rows that it is told are then the rows of the
file as it is at that moment, page by page and slot by slot (`Store.Lists`).  If it rewinds the
scan and drives it to its end once more, it is told the same rows again, and after them only rows
of pages that are new (`Traffic.scan_complete`).

This needs that no page is released early by a transaction that has fetched it for writing, and
that no page is dropped with changes of the transaction on it.  Without the one or the other a
scan can miss a row (`Traffic.scan_incomplete_small`).
-/

namespace PagedStore

open Store (ReadUpTo)

variable {t : TransactionId} {f : TableFile}

namespace Store

variable {s : Store} {n n' : Nat} {rows : List Row}

/-- All pages of a file can be read, and these are their rows, page by page and slot by slot. -/
structure Lists (s : Store) (f : TableFile) (rows : List Row) : Prop where
  readable : ∀ number < s.disk.pageCount f,
    (s.view { table := f.table, number }).content ≠ none
  listed : rows.map Row.entry = s.entriesUpTo f.table (s.disk.pageCount f)

theorem ReadUpTo.lists (h : ReadUpTo t f (s.disk.pageCount f) s rows) : s.Lists f rows :=
  ⟨h.readable, h.listed⟩

/-- More pages have the entries of the first ones, and after them those of the others. -/
theorem exists_entriesUpTo (s : Store) (table : TableId) (h : n ≤ n') :
    ∃ more, s.entriesUpTo table n' = s.entriesUpTo table n ++ more ∧
      ∀ entry ∈ more, ∃ record, entry.1 = some record ∧ n ≤ record.page.number := by
  induction h with
  | refl => exact ⟨[], (List.append_nil _).symm, fun _ h => by cases h⟩
  | @step n' hle ih =>
      obtain ⟨more, hmore, hpages⟩ := ih
      refine ⟨more ++ entries { table, number := n' }
        ((s.view { table, number := n' }).content.getD []), ?_, ?_⟩
      · rw [entriesUpTo_succ, hmore, List.append_assoc]
      · intro entry hm
        rcases List.mem_append.1 hm with hm | hm
        · exact hpages entry hm
        · obtain ⟨record, he, hpage⟩ := exists_of_mem_entries hm
          exact ⟨record, he, by rw [hpage]; exact hle⟩

end Store

namespace Traffic

variable {s₀ : Store} {w₀ : Traffic} {earlier history : List Event} {c : Course} {scan : Scan}
  {number : Nat}

/-- As long as nothing is changed past the store, the tables are those it began with. -/
theorem Run.grew_start {w : Traffic} (h : Run Enclosed s₀ history w) : Store.Grew s₀ w.store := by
  induction h with
  | start => exact .refl _
  | step _ hrule hs ih => exact ih.trans (grew_of_ne_replace hrule.2 hs)

/-- A transaction that has driven a scan to its end has read all pages, and has kept what it
held. -/
theorem Drive.readUpTo {scan₀ : Scan} (h₀ : Fresh s₀) (h : Run Enclosed s₀ earlier w₀)
    (hf : w₀.store.catalog.file f.table = .ok f) (hfile : scan₀.file = f)
    (hd : Drive (Undisturbed t) t number earlier (.rewound w₀ scan₀) history c)
    (hend : c.position = .ended scan) (hn : ∀ p, c.traffic.store.NumberedAt p) :
    Run Enclosed s₀ history c.traffic ∧ Keeps t w₀.store c.traffic.store ∧
      ReadUpTo t f (c.traffic.store.disk.pageCount f) c.traffic.store c.rows ∧
        scan.file = f ∧ scan.nextPage = none ∧ scan.buffered = [] := by
  have hstart : Course.Fine t number f (.rewound w₀ scan₀) :=
    .between hfile rfl (.zero t f w₀.store)
  obtain ⟨hrun, hfine, hk⟩ := hd.fine h₀ h hf hstart hn
  cases hfine with
  | ended hfile hnext hbuffered hread =>
      cases hend
      exact ⟨hrun, hk, hread, hfile, hnext, hbuffered⟩
  | between | asking | failing => cases hend

/-- A scan that has nothing to come says that there are no more rows. -/
theorem outcome_of_idle {w : Traffic} {idle : Scan} (hidle : w.tasks t = none)
    (hnext : idle.nextPage = none) (hb : idle.buffered = []) (wanted : Nat) :
    w.outcome (.start t (.pull number idle (wanted + 1))) =
      some (.began (.answer (.pulled number [.finish] idle))) := by
  rw [outcome, hidle]
  simp only [Request.start, Scan.pull, hb, hnext]
  rfl

/-- A scan of a table that is driven to its end, with others at work, has told the rows of the
table's file as it is then.  When it is rewound and driven to its end again, it tells the same
rows, and then only rows of pages that were added.  A scan that has not been opened, that was
closed, or that is at its end tells that there are no more rows.  Every table has fewer than
`2 ^ 32` pages. -/
theorem scan_complete {table : TableId} (h₀ : Fresh s₀) (h : Run Enclosed s₀ earlier w₀)
    (hf : w₀.store.catalog.file table = .ok f)
    (hd : Drive (Undisturbed t) t number earlier (.opened w₀ t f) history c)
    (hend : c.position = .ended scan) (hn : ∀ p, c.traffic.store.NumberedAt p) :
    c.traffic.store.Lists f c.rows ∧
      (∀ {history' : List Event} {c' : Course} {scan' : Scan},
        Drive (Undisturbed t) t number history (.rewound c.traffic scan) history' c' →
          c'.position = .ended scan' → (∀ p, c'.traffic.store.NumberedAt p) →
            c'.traffic.store.Lists f c'.rows ∧
              ∃ more, c'.rows.map Row.entry = c.rows.map Row.entry ++ more ∧
                ∀ entry ∈ more, ∃ record, entry.1 = some record ∧
                  c.traffic.store.disk.pageCount f ≤ record.page.number) ∧
        ∀ {w : Traffic} {idle : Scan}, w.tasks t = none →
          idle = { transaction := t, file := f } ∨ (∃ used : Scan, idle = used.close) ∨
            idle = scan →
          ∀ wanted, w.outcome (.start t (.pull number idle (wanted + 1))) =
            some (.began (.answer (.pulled number [.finish] idle))) := by
  have hf' : w₀.store.catalog.file f.table = .ok f := by
    have hsound : w₀.store.catalog.Sound := h.grew_start.catalog ▸ h₀.catalog
    rw [hsound.table hf, hf]
  obtain ⟨hrun, hk, hread, hfile, hnext, hb⟩ := hd.readUpTo h₀ h hf' rfl hend hn
  refine ⟨hread.lists, ?_, ?_⟩
  · intro history' c' scan' hd' hend' hn'
    have hf₁ : c.traffic.store.catalog.file f.table = .ok f := by rw [hk.grew.catalog, hf']
    obtain ⟨-, hk', hread', -⟩ := hd'.readUpTo h₀ hrun hf₁ hfile hend' hn'
    -- What was read in the first place is there as it was.
    have hold := hread.keep hk' (by rw [hk'.grew.catalog, hf₁]) hn'
    obtain ⟨more, hmore, hpages⟩ := c'.traffic.store.exists_entriesUpTo f.table hold.bound
    exact ⟨hread'.lists, more, by rw [hread'.listed, hold.listed, hmore], hpages⟩
  · rintro w idle hidle (rfl | ⟨used, rfl⟩ | rfl)
    · exact outcome_of_idle hidle rfl rfl
    · exact outcome_of_idle hidle rfl rfl
    · exact outcome_of_idle hidle hnext hb

end Traffic

/-! ## Moves while a scan is driven -/

/-- Many moves, one after another.  The transaction only goes on with its scan. -/
def Course.steps (t : TransactionId) (number : Nat) (c : Course) :
    List Move → Option (List Event × Course)
  | [] => some ([], c)
  | move :: moves =>
      if move.for? = some t ∧ c.position.drives t number move = false then none
      else
        match c.step t number move with
        | none => none
        | some (events, c') => (c'.steps t number moves).map fun r => (events ++ r.1, r.2)

namespace Traffic

variable {rule : Ledger → Traffic → Move → List Event → Traffic → Prop} {moves : List Move}

/-- A scan is driven by moves of others that keep to the rule, and by the transaction itself. -/
theorem Drive.steps {c₀ : Course} {r : List Event × Course}
    (h : Drive rule t number earlier c₀ history c)
    (hr : ∀ move ∈ moves, move.for? ≠ some t → ∀ l w events w', rule l w move events w')
    (hs : c.steps t number moves = some r) :
    Drive rule t number earlier c₀ (history ++ r.1) r.2 := by
  induction moves generalizing history c r with
  | nil =>
      cases hs
      rw [List.append_nil]
      exact h
  | cons move moves ih =>
      rw [Course.steps] at hs
      split at hs
      · cases hs
      · rename_i hown
        split at hs
        · cases hs
        · rename_i events c' hstep
          obtain ⟨rest, hrest, rfl⟩ := Option.map_eq_some_iff.1 hs
          rw [← List.append_assoc]
          refine ih (h.step (fun hd => ?_) hstep)
            (fun m hm => hr m (List.mem_cons_of_mem _ hm)) hrest
          exact hr move List.mem_cons_self (fun hfor => hown ⟨hfor, hd⟩) _ _ _ _

/-- A move that is not made for the transaction leaves it passive. -/
theorem passive_of_other {l : Ledger} {w w' : Traffic} {move : Move} {events : List Event}
    (hi : ∀ catalog disk, move ≠ .replace catalog disk) (hne : move.for? ≠ some t) :
    Passive t l w move events w' :=
  ⟨hi, fun h => absurd h hne, fun h => absurd h hne⟩

theorem undisturbed_of_other {l : Ledger} {w w' : Traffic} {move : Move} {events : List Event}
    (hp : move.isPlain = true) (hne : move.for? ≠ some t) : Undisturbed t l w move events w' := by
  refine ⟨passive_of_other ?_ hne, ?_, ?_⟩
  · rintro catalog disk rfl
    cases hp
  · rintro u page rfl
    cases hp
  · rintro page rfl
    cases hp

/-! ## Scans of a small table -/

namespace Small

/-- A scan of the table that is about to ask for a page. -/
def scanAt (number : Nat) : Scan := { transaction := ⟨1⟩, file, nextPage := some number }

/-- What some moves come to while the scan is driven. -/
def driven (c : Course) (moves : List Move) : List Event × Course :=
  (c.steps ⟨1⟩ 0 moves).getD ([], c)

theorem drive_driven {c₀ : Course} (earlier : List Event)
    (hr : ∀ move ∈ moves, move.for? ≠ some ⟨1⟩ → ∀ l w events w', rule l w move events w')
    (hs : (c₀.steps ⟨1⟩ 0 moves).isSome = true) :
    Drive rule ⟨1⟩ 0 earlier c₀ (earlier ++ (driven c₀ moves).1) (driven c₀ moves).2 :=
  Drive.steps .start hr (eq_some_getD hs _)

theorem drive_plain (earlier : List Event) (c₀ : Course) (moves : List Move)
    (hp : ∀ move ∈ moves, move.isPlain = true) (hs : (c₀.steps ⟨1⟩ 0 moves).isSome = true) :
    Drive (Undisturbed ⟨1⟩) ⟨1⟩ 0 earlier c₀ (earlier ++ (driven c₀ moves).1)
      (driven c₀ moves).2 :=
  drive_driven earlier (fun move hm hne _ _ _ _ => undisturbed_of_other (hp move hm) hne) hs

/-- While the table is scanned another transaction puts a row on a new page, and commits. -/
def firstScan : List Move :=
  [.start ⟨1⟩ (.pull 0 (scanAt 0) 9), .resume ⟨1⟩, .start ⟨0⟩ (.insert ⟨1⟩ none [[.int 7]]),
   .resume ⟨0⟩, .resume ⟨0⟩, .resume ⟨0⟩, .resume ⟨0⟩, .resume ⟨1⟩, .resume ⟨1⟩, .resume ⟨1⟩,
   .commit ⟨0⟩, .resume ⟨1⟩]

/-- One more row is put on a new page before the table is scanned again. -/
def secondScan : List Move :=
  [.start ⟨2⟩ (.insert ⟨1⟩ none [[.int 8]]), .resume ⟨2⟩, .resume ⟨2⟩, .resume ⟨2⟩, .resume ⟨2⟩,
   .resume ⟨2⟩, .commit ⟨2⟩, .start ⟨1⟩ (.pull 0 (scanAt 0) 9), .resume ⟨1⟩, .resume ⟨1⟩,
   .resume ⟨1⟩, .resume ⟨1⟩, .resume ⟨1⟩]

/-- The table after it was scanned for the first time. -/
def scanned : Course := (driven (.opened { store } ⟨1⟩ file) firstScan).2

/-- The table after it was scanned for the second time. -/
def rescanned : Course :=
  (driven (.rewound scanned.traffic { transaction := ⟨1⟩, file }) secondScan).2

end Small

/-- The first scan waits for the new page and tells its row as the last one.  The second scan
tells the same rows, and one more. -/
theorem scan_complete_small :
    Small.scanned.rows.map Row.fields = [[.int 1], [.int 2], [.int 3], [.int 7]] ∧
      Small.scanned.traffic.store.Lists Small.file Small.scanned.rows ∧
        ∃ more, Small.rescanned.rows.map Row.entry = Small.scanned.rows.map Row.entry ++ more ∧
          more.map Prod.snd = [[.int 8]] := by
  have hend : Small.scanned.position = .ended { transaction := ⟨1⟩, file := Small.file } := by
    decide +kernel
  have hend' : Small.rescanned.position = .ended { transaction := ⟨1⟩, file := Small.file } := by
    decide +kernel
  obtain ⟨hlists, hagain, -⟩ := scan_complete Small.fresh .start
    (show Small.store.catalog.file ⟨1⟩ = .ok Small.file by rfl)
    (Small.drive_plain [] _ Small.firstScan (by decide) (by decide +kernel)) hend
    (Small.numberedAt (by decide +kernel) (by decide +kernel))
  obtain ⟨-, more, hmore, -⟩ := hagain
    (Small.drive_plain _ _ Small.secondScan (by decide) (by decide +kernel)) hend'
    (Small.numberedAt (by decide +kernel) (by decide +kernel))
  have hrows : Small.scanned.rows.map Row.fields = [[.int 1], [.int 2], [.int 3], [.int 7]] := by
    decide +kernel
  refine ⟨hrows, hlists, more, hmore, ?_⟩
  have hall : Small.rescanned.rows.map Row.fields =
      [[.int 1], [.int 2], [.int 3], [.int 7], [.int 8]] := by decide +kernel
  have hsnd : ∀ rows : List Row, (rows.map Row.entry).map Prod.snd = rows.map Row.fields :=
    fun rows => List.map_map
  have h : (Small.rescanned.rows.map Row.entry).map Prod.snd =
      (Small.scanned.rows.map Row.entry ++ more).map Prod.snd := congrArg (List.map Prod.snd) hmore
  rw [List.map_append, hsnd, hsnd, hall, hrows] at h
  simpa using h.symm

/-! ## Scans that miss a row -/

namespace Small

/-- A scan of the table can miss a row that is there in the end, though all moves keep to a
rule. -/
def Misses (rule : Ledger → Traffic → Move → List Event → Traffic → Prop) (earlier : List Event)
    (w : Traffic) : Prop :=
  ∃ history c scan, Drive rule ⟨1⟩ 0 earlier (.opened w ⟨1⟩ file) history c ∧
    c.position = .ended scan ∧ ¬ c.traffic.store.Lists file c.rows

/-- A row is deleted, and the lock of its page is released early.  The page is scanned, and the
deletion is undone before the scan is at its end. -/
def releasedScan : List Move :=
  [.start ⟨0⟩ (.delete (record 0)), .resume ⟨0⟩, .release ⟨0⟩ (page 0),
   .start ⟨1⟩ (.pull 0 (scanAt 0) 4), .resume ⟨1⟩, .abort ⟨0⟩, .resume ⟨1⟩, .resume ⟨1⟩]

/-- The transaction that is to scan the table deletes a row. -/
def ownDelete : List Move := [.start ⟨1⟩ (.delete (record 0)), .resume ⟨1⟩]

/-- The page of the row is dropped when it has been scanned. -/
def discardedScan : List Move :=
  [.start ⟨1⟩ (.pull 0 (scanAt 0) 4), .resume ⟨1⟩, .discard (page 0), .resume ⟨1⟩, .resume ⟨1⟩]

theorem misses_of {earlier : List Event} {w : Traffic} {scan : Scan}
    (hr : ∀ move ∈ moves, move.for? ≠ some ⟨1⟩ → ∀ l w events w', rule l w move events w')
    (hs : ((Course.opened w ⟨1⟩ file).steps ⟨1⟩ 0 moves).isSome = true)
    (hend : (driven (.opened w ⟨1⟩ file) moves).2.position = .ended scan)
    (hmiss : (driven (.opened w ⟨1⟩ file) moves).2.rows.map Row.entry ≠
      (driven (.opened w ⟨1⟩ file) moves).2.traffic.store.entriesUpTo file.table
        ((driven (.opened w ⟨1⟩ file) moves).2.traffic.store.disk.pageCount file)) :
    Misses rule earlier w :=
  ⟨_, _, scan, drive_driven earlier hr hs, hend, fun h => hmiss h.listed⟩

end Small

/-- A transaction that scans a table and changes and releases nothing meanwhile can miss a row if
another one releases a page early that it has fetched for writing, even if no page is dropped from
the cache.  It can miss a row if a page with changes of its own is dropped, even if no page is
released early. -/
theorem scan_incomplete_small :
    Small.Misses (fun l w move events w' => Passive ⟨1⟩ l w move events w' ∧
        ∀ page, move ≠ .discard page) [] { store := Small.store } ∧
      Small.Misses (fun l w move events w' => Passive ⟨1⟩ l w move events w' ∧
          ∀ u page, move ≠ .release u page)
        (Small.after Small.ownDelete).1 (Small.after Small.ownDelete).2 ∧
        Run Orderly Small.store (Small.after Small.ownDelete).1
          (Small.after Small.ownDelete).2 := by
  refine ⟨?_, ?_, Small.run (by decide) (by decide +kernel)⟩
  · have hend : (Small.driven (.opened { store := Small.store } ⟨1⟩ Small.file)
        Small.releasedScan).2.position = .ended { transaction := ⟨1⟩, file := Small.file } := by
      decide +kernel
    refine Small.misses_of (fun move hm hne _ _ _ _ => ?_) (by decide +kernel) hend
      (by decide +kernel)
    simp only [Small.releasedScan, List.mem_cons, List.not_mem_nil, or_false] at hm
    rcases hm with rfl | rfl | rfl | rfl | rfl | rfl | rfl | rfl <;>
      exact ⟨passive_of_other (fun _ _ h => by cases h) hne, fun _ h => by cases h⟩
  · have hend : (Small.driven (.opened (Small.after Small.ownDelete).2 ⟨1⟩ Small.file)
        Small.discardedScan).2.position = .ended { transaction := ⟨1⟩, file := Small.file } := by
      decide +kernel
    refine Small.misses_of (fun move hm hne _ _ _ _ => ?_) (by decide +kernel) hend
      (by decide +kernel)
    simp only [Small.discardedScan, List.mem_cons, List.not_mem_nil, or_false] at hm
    rcases hm with rfl | rfl | rfl | rfl | rfl <;>
      exact ⟨passive_of_other (fun _ _ h => by cases h) hne, fun _ _ h => by cases h⟩

end Traffic

end PagedStore
