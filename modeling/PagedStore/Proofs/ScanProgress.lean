import PagedStore.Proofs.DrivenScans

/-!
# What a scan has read

The pages before the next page of a scan have been read (`Store.ReadUpTo`).  The transaction holds
them, and the rows that it was told, together with those that the scan still has, are the rows
that these pages have now.

This is so however far the scan is (`Course.Fine`), unless a page could not be fetched.  Then the
error is among the items of the pull that is under way, and the transaction will be told of it.
Going on with the scan keeps it so (`Course.Fine.drive`), and so does everything that leaves what
the transaction holds as it is (`Course.Fine.aside`).
-/

namespace PagedStore

variable {t u : TransactionId} {l : Ledger} {p : PageId} {f : TableFile}

/-! ## What was read so far -/

theorem Disk.pageCount_le {d d' : Disk} (h : f.Numbered (d'.contents f)) (hg : d.Grows d') :
    d.pageCount f ≤ d'.pageCount f := by
  have hle : (d.contents f).length ≤ (d'.contents f).length := hg f.name
  rw [pageCount_eq, pageCount_eq, TableFile.pageCount, TableFile.pageCount,
    Nat.mod_eq_of_lt (h.of_length_le hle), Nat.mod_eq_of_lt h]
  exact Nat.div_le_div_right hle

namespace Store

variable {s s' : Store} {n : Nat} {rows : List Row}

/-- The entries of the first pages of a table, page by page. -/
def entriesUpTo (s : Store) (table : TableId) (n : Nat) : List Entry :=
  (List.range n).flatMap fun number =>
    entries { table, number } ((s.view { table, number }).content.getD [])

theorem entriesUpTo_succ (s : Store) (table : TableId) (n : Nat) :
    s.entriesUpTo table (n + 1) = s.entriesUpTo table n ++
      entries { table, number := n } ((s.view { table, number := n }).content.getD []) := by
  rw [entriesUpTo, List.range_succ, List.flatMap_append, List.flatMap_singleton]
  rfl

/-- The first pages of a table have been read.  They are held, and these are their rows. -/
structure ReadUpTo (t : TransactionId) (f : TableFile) (n : Nat) (s : Store) (rows : List Row) :
    Prop where
  bound : n ≤ s.disk.pageCount f
  held : ∀ number < n, (s.view { table := f.table, number }).mode t ≠ none
  readable : ∀ number < n, (s.view { table := f.table, number }).content ≠ none
  listed : rows.map Row.entry = s.entriesUpTo f.table n

namespace ReadUpTo

theorem zero (t : TransactionId) (f : TableFile) (s : Store) : ReadUpTo t f 0 s [] :=
  ⟨Nat.zero_le _, fun _ h => absurd h (Nat.not_lt_zero _), fun _ h => absurd h (Nat.not_lt_zero _),
    rfl⟩

/-- What was read stays as it is. -/
theorem keep (h : ReadUpTo t f n s rows) (hk : Traffic.Keeps t s s')
    (hf : s'.catalog.file f.table = .ok f) (hn : ∀ p, s'.NumberedAt p) :
    ReadUpTo t f n s' rows where
  bound := Nat.le_trans h.bound
    (Disk.pageCount_le (hn { table := f.table, number := 0 } hf) hk.grew.grows)
  held number hlt := hk.held _ (h.held number hlt)
  readable number hlt := by
    rw [hk.content _ (h.held number hlt)]
    exact h.readable number hlt
  listed := by
    rw [h.listed, entriesUpTo, entriesUpTo, List.flatMap_def, List.flatMap_def]
    refine congrArg List.flatten (List.map_congr_left fun number hm => ?_)
    rw [hk.content _ (h.held number (List.mem_range.1 hm))]

/-- One more page was read. -/
theorem succ (h : ReadUpTo t f n s rows) {page : Page} (hlt : n < s.disk.pageCount f)
    (hheld : (s.view { table := f.table, number := n }).mode t ≠ none)
    (hc : (s.view { table := f.table, number := n }).content = some page.content)
    (hv : page.Valid) (hid : page.id = { table := f.table, number := n }) :
    ReadUpTo t f (n + 1) s (rows ++ page.rows) where
  bound := hlt
  held number hle := by
    rcases Nat.lt_succ_iff_lt_or_eq.1 hle with hle | rfl
    · exact h.held number hle
    · exact hheld
  readable number hle := by
    rcases Nat.lt_succ_iff_lt_or_eq.1 hle with hle | rfl
    · exact h.readable number hle
    · rw [hc]
      exact Option.some_ne_none _
  listed := by
    rw [List.map_append, h.listed, entriesUpTo_succ, hc, ← Page.entries_content hv, hid]
    rfl

end ReadUpTo

end Store

open Store (ReadUpTo)

namespace Course

/-! ## How far a scan is -/

/-- What a transaction has read while it drives a scan of a table.  If a page could not be
fetched it will be told of the error. -/
inductive Fine (t : TransactionId) (number : Nat) (f : TableFile) : Course → Prop
  /-- The rows that it was told, and those that the scan still has, are those of the pages before
  the next one. -/
  | between {w : Traffic} {rows : List Row} {scan : Scan} {n : Nat} :
      scan.file = f → scan.nextPage = some n →
        ReadUpTo t f n w.store (rows ++ scan.buffered) →
          Fine t number f ⟨w, .between scan, rows⟩
  /-- The scan has asked for its next page. -/
  | asking {w : Traffic} {rows told : List Row} {scan : Scan} {task : Task} {n wanted : Nat} :
      w.tasks t = some task → task.page = { table := f.table, number := n } →
        task.stage = .feed number scan wanted (told.map .row).reverse → scan.file = f →
          scan.nextPage = some (n + 1) → n < w.store.disk.pageCount f →
            ReadUpTo t f n w.store (rows ++ told) → Fine t number f ⟨w, .underway, rows⟩
  /-- A page could not be fetched. -/
  | failing {w : Traffic} {rows : List Row} {scan : Scan} {task : Task} {wanted : Nat}
      {items : List ScanItem} {e : StoreError} :
      w.tasks t = some task → task.stage = .feed number scan wanted items → .failed e ∈ items →
        Fine t number f ⟨w, .underway, rows⟩
  /-- All pages were read. -/
  | ended {w : Traffic} {rows : List Row} {scan : Scan} :
      scan.file = f → scan.nextPage = none → scan.buffered = [] →
        ReadUpTo t f (w.store.disk.pageCount f) w.store rows →
          Fine t number f ⟨w, .ended scan, rows⟩

variable {number n wanted : Nat} {w : Traffic} {rows told more : List Row} {scan : Scan}
  {position : Position} {items : List ScanItem}

/-- A scan that is pulled with the rows so far is as far as it should be. -/
theorem fine_of_pull {next : Next} (hfile : scan.file = f) (hnext : scan.nextPage = some n)
    (hread : ReadUpTo t f n w.store (rows ++ told ++ scan.buffered))
    (hstop : next = (scan.pull (w.store.disk.pageCount f) (told.map .row).reverse wanted).next
      number)
    (htask : w.tasks t = Task.ofNext next)
    (htold : Position.told? number (some next) = some (more, position)) :
    Fine t number f ⟨w, position, rows ++ more⟩ := by
  have hpulled := Scan.pulled_pull (w.store.disk.pageCount f) scan (told.map .row).reverse wanted
  generalize scan.pull (w.store.disk.pageCount f) (told.map .row).reverse wanted = stop at *
  have hitems : ∀ rows : List Row, (rows.map ScanItem.row).reverse ++ (told.map .row).reverse =
      ((told ++ rows).map ScanItem.row).reverse := fun rows => by
    rw [List.map_append, List.reverse_append]
  subst hstop
  cases hpulled with
  | enough hb =>
      rename_i told' rest
      rw [hitems, Scan.Stop.next, List.reverse_reverse, Position.told?, if_pos rfl,
        ScanItem.rows?_map_row] at htold
      cases htold
      refine .between hfile hnext ?_
      rw [hb] at hread
      simpa only [List.append_assoc] using hread
  | finished hlast =>
      rw [hitems, Scan.Stop.next, List.reverse_cons, List.reverse_reverse, Position.told?,
        if_pos rfl, ScanItem.rows?_map_row_finish] at htold
      cases htold
      obtain rfl : n = w.store.disk.pageCount f := Nat.le_antisymm hread.bound (hlast n hnext)
      refine .ended hfile rfl rfl ?_
      simpa only [List.append_assoc] using hread
  | asks hn hlt =>
      rename_i page wanted'
      obtain rfl : n = page := Option.some.inj (hnext.symm.trans hn)
      cases htold
      rw [List.append_nil]
      rw [hitems] at htask
      refine .asking htask (by rw [hfile]) rfl hfile rfl hlt ?_
      simpa only [List.append_assoc] using hread

/-- A scan that has an error among its items goes on to the next page, or the transaction is
told of the error. -/
theorem fine_of_failed {next : Next} {count : Nat} {e : StoreError} (he : .failed e ∈ items)
    (hstop : next = (scan.pull count items wanted).next number)
    (htask : w.tasks t = Task.ofNext next)
    (htold : Position.told? number (some next) = some (more, position)) :
    Fine t number f ⟨w, position, rows ++ more⟩ := by
  have hpulled := Scan.pulled_pull count scan items wanted
  generalize scan.pull count items wanted = stop at *
  subst hstop
  cases hpulled with
  | enough =>
      rw [Scan.Stop.next, Position.told?, if_pos rfl,
        ScanItem.rows?_of_failed (e := e) (by simp [he])] at htold
      cases htold
  | finished =>
      rw [Scan.Stop.next, Position.told?, if_pos rfl,
        ScanItem.rows?_of_failed (e := e) (by simp [he])] at htold
      cases htold
  | asks =>
      cases htold
      rw [List.append_nil]
      exact .failing htask rfl (List.mem_append_right _ he)

/-! ## Moves -/

variable {c c' : Course} {move : Move} {events : List Event}

theorem step_of_drives (hd : c.position.drives t number move = true)
    (hs : c.step t number move = some (events, c')) :
    c.traffic.step move = some (events, c'.traffic) ∧
      ∃ more, Position.told? number ((c.traffic.outcome move).bind Outcome.next?) =
        some (more, c'.position) ∧ c'.rows = c.rows ++ more := by
  rw [step] at hs
  split at hs
  · cases hs
  · split at hs
    · cases hs
    · rename_i events' w hstep
      obtain ⟨⟨more, position⟩, htold, hmk⟩ := Option.map_eq_some_iff.1 hs
      cases hmk
      exact ⟨hstep, more, htold, rfl⟩

theorem step_of_not_drives (hd : c.position.drives t number move = false)
    (hs : c.step t number move = some (events, c')) :
    c.traffic.step move = some (events, c'.traffic) ∧ c.position.isOver = false ∧
      c' = { c with traffic := c'.traffic } := by
  rw [step] at hs
  split at hs
  · cases hs
  · rename_i hover
    split at hs
    · cases hs
    · rename_i events' w hstep
      rw [hd] at hs
      cases hs
      exact ⟨hstep, by simpa using hover, rfl⟩

/-- A move of a course is one of its traffic. -/
theorem traffic_step (hs : c.step t number move = some (events, c')) :
    c.traffic.step move = some (events, c'.traffic) := by
  cases hd : c.position.drives t number move with
  | true => exact (step_of_drives hd hs).1
  | false => exact (step_of_not_drives hd hs).1

/-- The scan goes on when its pull is resumed. -/
theorem fine_of_fed {w' : Traffic} {next : Option Next}
    (hc : Fine t number f ⟨w, .underway, rows⟩) (hk : Traffic.Keeps t w.store w'.store)
    (hf : w'.store.catalog.file f.table = .ok f) (hn : ∀ p, w'.store.NumberedAt p)
    (hfed : ∀ {task scan wanted items}, w.tasks t = some task →
      task.stage = .feed number scan wanted items →
        Traffic.Fed t w' task number scan wanted items next)
    (htold : Position.told? number next = some (more, position)) :
    Fine t number f ⟨w', position, rows ++ more⟩ := by
  cases hc with
  | failing ht hstage he =>
      cases hfed ht hstage with
      | waits ht' _ hstage' =>
          cases htold
          rw [List.append_nil]
          exact .failing ht' (hstage'.trans hstage) he
      | failed hstop ht' => exact fine_of_failed (List.mem_cons_of_mem _ he) hstop ht' htold
      | read hstop ht' => exact fine_of_failed he hstop ht' htold
  | asking ht hpage hstage hfile hnext hlt hread =>
      have hread' := hread.keep hk hf hn
      have hlt' := Nat.lt_of_lt_of_le hlt (Disk.pageCount_le
        (hn { table := f.table, number := 0 } hf) hk.grew.grows)
      cases hfed ht hstage with
      | waits ht' hpage' hstage' =>
          cases htold
          rw [List.append_nil]
          exact .asking ht' (hpage'.trans hpage) (hstage'.trans hstage) hfile hnext hlt' hread'
      | failed hstop ht' => exact fine_of_failed List.mem_cons_self hstop ht' htold
      | read hstop ht' hvalid hid hmode hcontent =>
          rename_i told scan task' n wanted page next'
          rw [hpage] at hid hmode hcontent
          have hnow : ReadUpTo t f (n + 1) w'.store
              (rows ++ told ++ ({ scan with buffered := page.rows } : Scan).buffered) :=
            hread'.succ hlt' hmode hcontent hvalid hid
          have hcount : w'.store.disk.pageCount scan.file = w'.store.disk.pageCount f := by
            rw [hfile]
          exact fine_of_pull (show ({ scan with buffered := page.rows } : Scan).file = f from hfile)
            hnext hnow (by rw [hstop, hcount]) ht' htold


/-- The scan is pulled. -/
theorem fine_of_start {w' : Traffic} (hc : Fine t number f ⟨w, .between scan, rows⟩)
    (hs : w.step (.start t (.pull number scan wanted)) = some (events, w'))
    (htold : Position.told? number ((w.outcome (.start t (.pull number scan wanted))).bind
      Outcome.next?) = some (more, position)) :
    Fine t number f ⟨w', position, rows ++ more⟩ ∧ Traffic.Keeps t w.store w'.store := by
  simp only [Traffic.step] at hs
  split at hs
  · cases hs
  · rename_i hidle
    cases hs
    rw [Traffic.outcome, hidle] at htold
    cases hc with
    | @between _ _ _ n hfile hnext hread =>
        have hread' : ReadUpTo t f n w.store (rows ++ [] ++ scan.buffered) := by
          rw [List.append_nil]
          exact hread
        have hstop : (Request.start w.store t (.pull number scan wanted)).2 =
            (scan.pull (w.store.disk.pageCount f) (([] : List Row).map .row).reverse wanted).next
              number := by
          rw [Request.start, hfile]
          rfl
        exact ⟨fine_of_pull hfile hnext hread' hstop (if_pos rfl) htold, .refl t w.store⟩

/-- The pull is resumed. -/
theorem fine_of_resume {w' : Traffic} (h : ∀ p, w.SoundAt p l)
    (hc : Fine t number f ⟨w, .underway, rows⟩) (hs : w.step (.resume t) = some (events, w'))
    (hf : w'.store.catalog.file f.table = .ok f) (hn : ∀ p, w'.store.NumberedAt p)
    (htold : Position.told? number ((w.outcome (.resume t)).bind Outcome.next?) =
      some (more, position)) :
    Fine t number f ⟨w', position, rows ++ more⟩ ∧ Traffic.Keeps t w.store w'.store := by
  obtain ⟨task, ht, hresume⟩ := Option.map_eq_some_iff.1 hs
  rw [Traffic.outcome, ht] at htold
  obtain rfl : (w.resume t task).2 = w' := by rw [hresume]
  have hfeed : ∃ scan wanted items, task.stage = .feed number scan wanted items := by
    cases hc with
    | asking ht' _ hstage | failing ht' hstage =>
        rw [ht] at ht'
        cases ht'
        exact ⟨_, _, _, hstage⟩
  obtain ⟨scan, wanted, items, hstage⟩ := hfeed
  have hk := Traffic.keeps_of_feed h ht hstage
  refine ⟨fine_of_fed hc hk hf hn (fun {task' _ _ _} ht' hstage' => ?_) htold, hk⟩
  obtain rfl : task = task' := Option.some.inj (ht.symm.trans ht')
  exact Traffic.fed_of_resume h ht hstage'

/-- The transaction goes on with its scan. -/
theorem Fine.drive (h : ∀ p, c.traffic.SoundAt p l) (hc : c.Fine t number f)
    (hd : c.position.drives t number move = true) (hs : c.step t number move = some (events, c'))
    (hf : c'.traffic.store.catalog.file f.table = .ok f) (hn : ∀ p, c'.traffic.store.NumberedAt p) :
    c'.Fine t number f ∧ Traffic.Keeps t c.traffic.store c'.traffic.store := by
  obtain ⟨hstep, more, htold, hrows⟩ := step_of_drives hd hs
  obtain ⟨w, before, rows⟩ := c
  obtain ⟨w', after, rows'⟩ := c'
  obtain rfl : rows' = rows ++ more := hrows
  rcases Position.drives_cases hd with ⟨scan, wanted, hbefore, rfl⟩ | ⟨hbefore, rfl⟩
  · obtain rfl : before = .between scan := hbefore
    exact fine_of_start hc hstep htold
  · obtain rfl : before = .underway := hbefore
    exact fine_of_resume h hc hstep hf hn htold

/-- Others do something, or the transaction does something else. -/
theorem Fine.aside {w' : Traffic} (hc : c.Fine t number f)
    (hk : Traffic.Keeps t c.traffic.store w'.store) (hover : c.position.isOver = false)
    (htask : c.position = .underway → ∀ {task}, c.traffic.tasks t = some task →
      w'.tasks t = some task)
    (hf : w'.store.catalog.file f.table = .ok f) (hn : ∀ p, w'.store.NumberedAt p) :
    Fine t number f { c with traffic := w' } := by
  cases hc with
  | between hfile hnext hread => exact .between hfile hnext (hread.keep hk hf hn)
  | asking ht hpage hstage hfile hnext hlt hread =>
      have hle := Disk.pageCount_le (hn { table := f.table, number := 0 } hf) hk.grew.grows
      exact .asking (htask rfl ht) hpage hstage hfile hnext (Nat.lt_of_lt_of_le hlt hle)
        (hread.keep hk hf hn)
  | failing ht hstage he => exact .failing (htask rfl ht) hstage he
  | ended => cases hover

end Course

namespace Traffic

variable {s₀ : Store} {w w' : Traffic} {move : Move} {history earlier events : List Event}
  {c c₀ : Course} {number : Nat}

/-- A task stays as it is until it is resumed. -/
theorem tasks_of_step {task : Task} (hs : w.step move = some (events, w'))
    (hne : move ≠ .resume t) (ht : w.tasks t = some task) : w'.tasks t = some task := by
  by_cases hfor : move.transaction? = some t
  · cases move with
    | start =>
        -- A transaction that has a task starts no other.
        cases hfor
        simp only [step, ht] at hs
        cases hs
    | resume =>
        cases hfor
        exact absurd rfl hne
    | commit | abort =>
        cases hs
        exact ht
    | flushPage | flushPages | flushAll | discard | release | replace => cases hfor
  · rw [tasks_of_other hs fun u hu hut => hfor (hu.trans (congrArg some hut.symm))]
    exact ht

/-- Going on with a scan is allowed at any time. -/
theorem enclosed_of_drives {position : Position} (hd : position.drives t number move = true) :
    Enclosed l w move w' := by
  cases move with
  | start | resume => exact ⟨fun _ _ h => (by cases h), fun _ _ h => by cases h⟩
  | _ => cases position <;> cases hd

/-- While a transaction drives a scan of a table, it has read what it should have, and what it
holds stays as it is. -/
theorem Drive.fine (h₀ : Fresh s₀) (hrun : Run Enclosed s₀ earlier c₀.traffic)
    (h : Drive (Undisturbed t) t number earlier c₀ history c)
    (hf : c₀.traffic.store.catalog.file f.table = .ok f) (hc : c₀.Fine t number f)
    (hn : ∀ p, c.traffic.store.NumberedAt p) :
    Run Enclosed s₀ history c.traffic ∧ c.Fine t number f ∧
      Keeps t c₀.traffic.store c.traffic.store := by
  induction h with
  | start => exact ⟨hrun, hc, .refl t _⟩
  | @step history events c c' move _ hrule hs ih =>
      have hstep := Course.traffic_step hs
      have henclosed : Enclosed (Ledger.of history) c.traffic move c'.traffic := by
        cases hd : c.position.drives t number move with
        | true => exact enclosed_of_drives hd
        | false => exact ⟨(hrule hd).guarded, (hrule hd).inside⟩
      have hgrew := grew_of_ne_replace henclosed.2 hstep
      have hbefore := fun p => hgrew.numberedAt (hn p)
      obtain ⟨hrun, hc, hk⟩ := ih hbefore
      have hsound := hrun.soundAt_doubted h₀ hbefore
      have hf' : c'.traffic.store.catalog.file f.table = .ok f := by
        rw [hgrew.catalog, hk.grew.catalog, hf]
      have hnext : c'.Fine t number f ∧ Keeps t c.traffic.store c'.traffic.store := by
        cases hd : c.position.drives t number move with
        | true => exact hc.drive hsound hd hs hf' hn
        | false =>
            obtain ⟨-, hover, hc'⟩ := Course.step_of_not_drives hd hs
            have hk' := (hrule hd).keeps hsound hstep hn
            refine ⟨?_, hk'⟩
            rw [hc']
            refine hc.aside hk' hover (fun hunder {task} => tasks_of_step hstep ?_) hf' hn
            rintro rfl
            rw [hunder] at hd
            simp [Position.drives] at hd
      exact ⟨hrun.step henclosed hstep, hnext.1, hk.trans hnext.2⟩

end Traffic

end PagedStore
