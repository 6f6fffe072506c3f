import PagedStore.Proofs.Scans

/-!
# Pages that a scan passes over

A scan moves on to its next page before it has fetched the page.  If the page is denied to it, the
transaction is told of the error, and the scan goes on behind the page.  A transaction that goes
on with a scan nevertheless, until it is told that there are no more rows (`Traffic.Persists`), is
told the rows of the other pages, page by page and slot by slot, and the errors
(`Traffic.scan_passes_over`).

So it is told all rows if and only if there are none on the pages that were denied.  That the page
could be fetched a moment later makes no difference.  In a small table a row is missed because
another transaction had changed all that was cached (`Traffic.scan_passes_over_small`).
-/

namespace PagedStore

variable {t : TransactionId} {l : Ledger} {f : TableFile}

/-! ## The entries beside some pages -/

namespace Store

variable {s s' : Store} {table : TableId} {passed : List PageId} {n : Nat} {rows : List Row}

/-- The entries of the first pages of a table, page by page, but for some pages. -/
def entriesBeside (s : Store) (table : TableId) (passed : List PageId) (n : Nat) : List Entry :=
  ((List.range n).filter fun number => ({ table, number } : PageId) ∉ passed).flatMap fun number =>
    entries { table, number } ((s.view { table, number }).content.getD [])

theorem entriesBeside_succ (s : Store) (table : TableId) (passed : List PageId) (n : Nat) :
    s.entriesBeside table passed (n + 1) = s.entriesBeside table passed n ++
      if ({ table, number := n } : PageId) ∈ passed then []
      else entries { table, number := n } ((s.view { table, number := n }).content.getD []) := by
  rw [entriesBeside, List.range_succ, List.filter_append, List.flatMap_append]
  by_cases h : ({ table, number := n } : PageId) ∈ passed <;> simp [h, entriesBeside]

/-- A page behind the first ones makes no difference to them. -/
theorem entriesBeside_concat {p : PageId} (h : n ≤ p.number) :
    s.entriesBeside table (passed ++ [p]) n = s.entriesBeside table passed n := by
  rw [entriesBeside, entriesBeside]
  refine congrArg (List.flatMap _) (List.filter_congr fun number hm => ?_)
  have hne : ({ table, number } : PageId) ≠ p := by
    rintro rfl
    exact Nat.lt_irrefl _ (Nat.lt_of_lt_of_le (List.mem_range.1 hm) h)
  simp [hne]

theorem entriesBeside_congr (h : ∀ number < n, ({ table, number } : PageId) ∉ passed →
    (s'.view { table, number }).content = (s.view { table, number }).content) :
    s'.entriesBeside table passed n = s.entriesBeside table passed n := by
  rw [entriesBeside, entriesBeside, List.flatMap_def, List.flatMap_def]
  refine congrArg List.flatten (List.map_congr_left fun number hm => ?_)
  obtain ⟨hlt, hout⟩ := List.mem_filter.1 hm
  rw [h number (List.mem_range.1 hlt) (by simpa using hout)]

theorem mem_entriesBeside {entry : Entry} (h : entry ∈ s.entriesBeside table passed n) :
    ∃ record, entry.1 = some record ∧ record.page ∉ passed := by
  obtain ⟨number, hm, he⟩ := List.mem_flatMap.1 h
  obtain ⟨record, hrecord, hpage⟩ := exists_of_mem_entries he
  refine ⟨record, hrecord, ?_⟩
  rw [hpage]
  simpa using (List.mem_filter.1 hm).2

/-- The entries are those of all first pages if and only if there are none on the pages left
out. -/
theorem entriesBeside_eq_iff (h : ∀ p ∈ passed, p.table = table ∧ p.number < n) :
    s.entriesBeside table passed n = s.entriesUpTo table n ↔
      ∀ p ∈ passed, entries p ((s.view p).content.getD []) = [] := by
  constructor
  · intro heq p hp
    obtain ⟨rfl, hlt⟩ := h p hp
    rw [List.eq_nil_iff_forall_not_mem]
    intro entry he
    have hall : entry ∈ s.entriesUpTo p.table n :=
      List.mem_flatMap.2 ⟨p.number, List.mem_range.2 hlt, he⟩
    -- An entry tells its page, so it cannot come from another one.
    obtain ⟨record, hrecord, hout⟩ := mem_entriesBeside (heq ▸ hall)
    obtain ⟨record', hrecord', hpage⟩ := exists_of_mem_entries he
    obtain rfl : record = record' := Option.some.inj (hrecord.symm.trans hrecord')
    exact hout (hpage ▸ hp)
  · intro hempty
    clear h
    induction n with
    | zero => rfl
    | succ n ih =>
        rw [entriesBeside_succ, entriesUpTo_succ, ih]
        split
        · rename_i hp
          rw [hempty _ hp]
        · rfl

/-! ## What was read so far -/

/-- The first pages of a table have been read, but for some that were passed over.  The pages that
were read are held, and these are their rows. -/
structure ReadBeside (t : TransactionId) (f : TableFile) (passed : List PageId) (n : Nat)
    (s : Store) (rows : List Row) : Prop where
  bound : n ≤ s.disk.pageCount f
  behind : ∀ p ∈ passed, p.table = f.table ∧ p.number < n
  held : ∀ number < n, ({ table := f.table, number } : PageId) ∉ passed →
    (s.view { table := f.table, number }).mode t ≠ none
  readable : ∀ number < n, ({ table := f.table, number } : PageId) ∉ passed →
    (s.view { table := f.table, number }).content ≠ none
  listed : rows.map Row.entry = s.entriesBeside f.table passed n

namespace ReadBeside

theorem zero (t : TransactionId) (f : TableFile) (s : Store) : ReadBeside t f [] 0 s [] :=
  ⟨Nat.zero_le _, fun _ h => absurd h List.not_mem_nil, fun _ h => absurd h (Nat.not_lt_zero _),
    fun _ h => absurd h (Nat.not_lt_zero _), rfl⟩

/-- What was read stays as it is. -/
theorem keep (h : ReadBeside t f passed n s rows) (hk : Traffic.Keeps t s s')
    (hf : s'.catalog.file f.table = .ok f) (hn : ∀ p, s'.NumberedAt p) :
    ReadBeside t f passed n s' rows where
  bound := Nat.le_trans h.bound
    (Disk.pageCount_le (hn { table := f.table, number := 0 } hf) hk.grew.grows)
  behind := h.behind
  held number hlt hout := hk.held _ (h.held number hlt hout)
  readable number hlt hout := by
    rw [hk.content _ (h.held number hlt hout)]
    exact h.readable number hlt hout
  listed := by
    rw [h.listed]
    exact (entriesBeside_congr fun number hlt hout => hk.content _ (h.held number hlt hout)).symm

/-- One more page was read. -/
theorem read (h : ReadBeside t f passed n s rows) {page : Page} (hlt : n < s.disk.pageCount f)
    (hheld : (s.view { table := f.table, number := n }).mode t ≠ none)
    (hc : (s.view { table := f.table, number := n }).content = some page.content)
    (hv : page.Valid) (hid : page.id = { table := f.table, number := n }) :
    ReadBeside t f passed (n + 1) s (rows ++ page.rows) where
  bound := hlt
  behind p hp := ⟨(h.behind p hp).1, Nat.lt_succ_of_lt (h.behind p hp).2⟩
  held number hle hout := by
    rcases Nat.lt_succ_iff_lt_or_eq.1 hle with hle | rfl
    · exact h.held number hle hout
    · exact hheld
  readable number hle hout := by
    rcases Nat.lt_succ_iff_lt_or_eq.1 hle with hle | rfl
    · exact h.readable number hle hout
    · rw [hc]
      exact Option.some_ne_none _
  listed := by
    have hnew : ({ table := f.table, number := n } : PageId) ∉ passed := fun hp =>
      Nat.lt_irrefl _ (h.behind _ hp).2
    rw [List.map_append, h.listed, entriesBeside_succ, if_neg hnew, hc,
      ← Page.entries_content hv, hid]
    rfl

/-- One more page was passed over. -/
theorem pass (h : ReadBeside t f passed n s rows) (hlt : n < s.disk.pageCount f) :
    ReadBeside t f (passed ++ [{ table := f.table, number := n }]) (n + 1) s rows where
  bound := hlt
  behind p hp := by
    rcases List.mem_append.1 hp with hp | hp
    · exact ⟨(h.behind p hp).1, Nat.lt_succ_of_lt (h.behind p hp).2⟩
    · obtain rfl := List.mem_singleton.1 hp
      exact ⟨rfl, Nat.lt_succ_self n⟩
  held number hle hout := by
    rw [List.mem_append, not_or, List.mem_singleton] at hout
    rcases Nat.lt_succ_iff_lt_or_eq.1 hle with hle | rfl
    · exact h.held number hle hout.1
    · exact absurd rfl hout.2
  readable number hle hout := by
    rw [List.mem_append, not_or, List.mem_singleton] at hout
    rcases Nat.lt_succ_iff_lt_or_eq.1 hle with hle | rfl
    · exact h.readable number hle hout.1
    · exact absurd rfl hout.2
  listed := by
    rw [h.listed, entriesBeside_succ, if_pos (List.mem_append_right _ (List.mem_singleton_self _)),
      List.append_nil, entriesBeside_concat (Nat.le_refl n)]

end ReadBeside

end Store

/-! ## What a transaction is told -/

namespace ScanItem

/-- The row, if it is one. -/
def row? : ScanItem → Option Row
  | row r => some r
  | _ => none

/-- The error, if it is one. -/
def error? : ScanItem → Option StoreError
  | failed e => some e
  | _ => none

theorem filterMap_row? (rows : List Row) : (rows.map ScanItem.row).filterMap row? = rows := by
  rw [List.filterMap_map]
  exact List.filterMap_some

theorem filterMap_error? (rows : List Row) : (rows.map ScanItem.row).filterMap error? = [] := by
  rw [List.filterMap_map]
  exact List.filterMap_eq_nil_iff.2 fun _ _ => rfl

theorem finish_not_mem_rows (rows : List Row) : .finish ∉ rows.map ScanItem.row := by
  intro h
  obtain ⟨row, -, hrow⟩ := List.mem_map.1 h
  cases hrow

end ScanItem

/-- The items that a transaction is told when it goes on with its scan, and where it is then. -/
def Position.heard? (number : Nat) : Option Next → Option (List ScanItem × Position)
  | none | some (.ask ..) => some ([], .underway)
  | some (.answer (.pulled number' items scan)) =>
      if number' = number then
        some (items, if .finish ∈ items then .ended scan else .between scan)
      else none
  | some (.answer _) => none

/-- A traffic in which a transaction drives a scan and goes on when it is told of errors. -/
structure Passage where
  /-- The traffic. -/
  traffic : Traffic
  /-- Where the transaction is with its scan. -/
  position : Position
  /-- What it was told. -/
  items : List ScanItem := []
  /-- The pages that were denied to the scan, and why. -/
  denied : List (PageId × StoreError) := []

namespace Passage

/-- The rows that the transaction was told. -/
def rows (c : Passage) : List Row := c.items.filterMap ScanItem.row?

/-- The errors that the transaction was told. -/
def errors (c : Passage) : List StoreError := c.items.filterMap ScanItem.error?

/-- The pages that were denied to the scan. -/
def passed (c : Passage) : List PageId := c.denied.map Prod.fst

/-- The scan of a table is opened. -/
def opened (w : Traffic) (t : TransactionId) (f : TableFile) : Passage :=
  { traffic := w, position := .between (Scan.rewind { transaction := t, file := f }) }

/-- One move. -/
def step (t : TransactionId) (number : Nat) (c : Passage) (move : Move) :
    Option (List Event × Passage) :=
  if c.position.isOver then none
  else
    match c.traffic.step move with
    | none => none
    | some (events, w) =>
        if c.position.drives t number move then
          (Position.heard? number ((c.traffic.outcome move).bind Outcome.next?)).map fun r =>
            (events,
              { traffic := w, position := r.2, items := c.items ++ r.1,
                denied := c.denied ++ (c.traffic.denied? move).toList })
        else some (events, { c with traffic := w })

end Passage

/-- What follows on a history while a transaction drives a scan, whatever it is told.  The other
moves keep to a rule. -/
inductive Traffic.Persists (rule : Ledger → Traffic → Move → List Event → Traffic → Prop)
    (t : TransactionId) (number : Nat) (earlier : List Event) (c₀ : Passage) :
    List Event → Passage → Prop
  | start : Persists rule t number earlier c₀ earlier c₀
  | step {history events : List Event} {c c' : Passage} {move : Move} :
      Persists rule t number earlier c₀ history c →
        (c.position.drives t number move = false →
          rule (Ledger.of history) c.traffic move events c'.traffic) →
          c.step t number move = some (events, c') →
            Persists rule t number earlier c₀ (history ++ events) c'

/-! ## How far a scan is -/

namespace Passage

/-- The items are the rows of the first pages of a table, but for those that the scan still has
and those of the pages that it was denied, and the errors. -/
structure Told (t : TransactionId) (f : TableFile) (denied : List (PageId × StoreError)) (n : Nat)
    (s : Store) (items : List ScanItem) (buffered : List Row) : Prop where
  read : s.ReadBeside t f (denied.map Prod.fst) n (items.filterMap ScanItem.row? ++ buffered)
  errors : items.filterMap ScanItem.error? = denied.map Prod.snd
  unfinished : .finish ∉ items

/-- What a transaction has been told while it drives a scan of a table. -/
inductive Fine (t : TransactionId) (number : Nat) (f : TableFile) : Passage → Prop
  | between {w : Traffic} {items : List ScanItem} {denied : List (PageId × StoreError)}
      {scan : Scan} {n : Nat} :
      scan.file = f → scan.nextPage = some n →
        Told t f denied n w.store items scan.buffered →
          Fine t number f ⟨w, .between scan, items, denied⟩
  /-- The scan has asked for its next page. -/
  | asking {w : Traffic} {items pending : List ScanItem} {denied : List (PageId × StoreError)}
      {scan : Scan} {task : Task} {n wanted : Nat} :
      w.tasks t = some task → task.page = { table := f.table, number := n } →
        task.stage = .feed number scan wanted pending → scan.file = f →
          scan.nextPage = some (n + 1) → scan.buffered = [] → n < w.store.disk.pageCount f →
            Told t f denied n w.store (items ++ pending.reverse) [] →
              Fine t number f ⟨w, .underway, items, denied⟩
  | ended {w : Traffic} {items : List ScanItem} {denied : List (PageId × StoreError)}
      {scan : Scan} :
      Told t f denied (w.store.disk.pageCount f) w.store items [] →
        Fine t number f ⟨w, .ended scan, items ++ [.finish], denied⟩

namespace Told

variable {s s' : Store} {denied : List (PageId × StoreError)} {n : Nat} {items : List ScanItem}
  {told buffered : List Row}

theorem keep (h : Told t f denied n s items buffered) (hk : Traffic.Keeps t s s')
    (hf : s'.catalog.file f.table = .ok f) (hn : ∀ p, s'.NumberedAt p) :
    Told t f denied n s' items buffered :=
  ⟨h.read.keep hk hf hn, h.errors, h.unfinished⟩

/-- Some of the rows that the scan has are told. -/
theorem tell (h : Told t f denied n s items (told ++ buffered)) :
    Told t f denied n s (items ++ told.map .row) buffered where
  read := by
    rw [List.filterMap_append, ScanItem.filterMap_row?, List.append_assoc]
    exact h.read
  errors := by
    rw [List.filterMap_append, ScanItem.filterMap_error?, List.append_nil]
    exact h.errors
  unfinished := by
    rw [List.mem_append, not_or]
    exact ⟨h.unfinished, ScanItem.finish_not_mem_rows told⟩

/-- All rows that the scan has are told. -/
theorem tell_all (h : Told t f denied n s items buffered) :
    Told t f denied n s (items ++ buffered.map .row) [] := by
  rw [← List.append_nil buffered] at h
  exact h.tell

/-- The next page is denied, and the error is told. -/
theorem pass (h : Told t f denied n s items []) (hlt : n < s.disk.pageCount f) (e : StoreError) :
    Told t f (denied ++ [({ table := f.table, number := n }, e)]) (n + 1) s
      (items ++ [.failed e]) [] where
  read := by
    have hread := h.read.pass hlt
    rw [List.append_nil] at hread ⊢
    rw [List.filterMap_append, List.map_append]
    show Store.ReadBeside _ _ _ _ _ (items.filterMap ScanItem.row? ++ [])
    rw [List.append_nil]
    exact hread
  errors := by
    rw [List.filterMap_append, List.map_append, h.errors]
    rfl
  unfinished := by
    rw [List.mem_append, not_or]
    exact ⟨h.unfinished, by simp⟩

end Told

variable {number n wanted : Nat} {w w' : Traffic} {items pending more : List ScanItem}
  {denied : List (PageId × StoreError)} {scan : Scan} {position : Position} {next : Option Next}

/-- A scan that is pulled is as far as it should be. -/
theorem fine_of_pull {stop : Next} (hfile : scan.file = f) (hnext : scan.nextPage = some n)
    (htold : Told t f denied n w.store (items ++ pending.reverse) scan.buffered)
    (hstop : stop = (scan.pull (w.store.disk.pageCount f) pending wanted).next number)
    (htask : w.tasks t = Task.ofNext stop)
    (hheard : Position.heard? number (some stop) = some (more, position)) :
    Fine t number f ⟨w, position, items ++ more, denied⟩ := by
  have hpulled := Scan.pulled_pull (w.store.disk.pageCount f) scan pending wanted
  generalize scan.pull (w.store.disk.pageCount f) pending wanted = stop' at *
  have hitems : ∀ rows : List Row, items ++ ((rows.map ScanItem.row).reverse ++ pending).reverse =
      items ++ pending.reverse ++ rows.map .row := fun rows => by
    rw [List.reverse_append, List.reverse_reverse, List.append_assoc]
  subst hstop
  cases hpulled with
  | @enough told rest hb =>
      rw [hb] at htold
      have hnow := htold.tell
      rw [← hitems] at hnow
      rw [Scan.Stop.next, Position.heard?, if_pos rfl,
        if_neg fun hm => hnow.unfinished (List.mem_append_right _ hm)] at hheard
      cases hheard
      exact .between hfile hnext hnow
  | finished hlast =>
      rw [Scan.Stop.next, Position.heard?, if_pos rfl,
        if_pos (List.mem_reverse.2 List.mem_cons_self)] at hheard
      cases hheard
      obtain rfl : n = w.store.disk.pageCount f :=
        Nat.le_antisymm htold.read.bound (hlast n hnext)
      have hnow := htold.tell_all
      rw [← hitems] at hnow
      rw [List.reverse_cons, ← List.append_assoc]
      exact .ended hnow
  | @asks page wanted' hn hlt =>
      obtain rfl : n = page := Option.some.inj (hnext.symm.trans hn)
      cases hheard
      rw [List.append_nil]
      have hnow := htold.tell_all
      rw [← hitems] at hnow
      exact .asking htask (by rw [hfile]) rfl hfile rfl rfl hlt hnow

/-! ## Moves -/

variable {c c' : Passage} {move : Move} {events : List Event}

theorem step_of_drives (hd : c.position.drives t number move = true)
    (hs : c.step t number move = some (events, c')) :
    c.traffic.step move = some (events, c'.traffic) ∧
      ∃ more, Position.heard? number ((c.traffic.outcome move).bind Outcome.next?) =
        some (more, c'.position) ∧ c'.items = c.items ++ more ∧
          c'.denied = c.denied ++ (c.traffic.denied? move).toList := by
  rw [step] at hs
  split at hs
  · cases hs
  · split at hs
    · cases hs
    · rename_i events' w hstep
      obtain ⟨⟨more, position⟩, hheard, hmk⟩ := Option.map_eq_some_iff.1 hs
      cases hmk
      exact ⟨hstep, more, hheard, rfl, rfl⟩

theorem step_of_not_drives (hd : c.position.drives t number move = false)
    (hs : c.step t number move = some (events, c')) :
    c.traffic.step move = some (events, c'.traffic) ∧ c.position.isOver = false ∧
      c' = { c with traffic := c'.traffic } := by
  rw [step] at hs
  split at hs
  · cases hs
  · rename_i hover
    split at hs
    · cases hs
    · rename_i events' w hstep
      rw [hd] at hs
      cases hs
      exact ⟨hstep, by simpa using hover, rfl⟩

theorem traffic_step (hs : c.step t number move = some (events, c')) :
    c.traffic.step move = some (events, c'.traffic) := by
  cases hd : c.position.drives t number move with
  | true => exact (step_of_drives hd hs).1
  | false => exact (step_of_not_drives hd hs).1

/-- The scan goes on when its pull is resumed. -/
theorem fine_of_given {refusal : Option (PageId × StoreError)}
    (hc : Fine t number f ⟨w, .underway, items, denied⟩) (hk : Traffic.Keeps t w.store w'.store)
    (hf : w'.store.catalog.file f.table = .ok f) (hn : ∀ p, w'.store.NumberedAt p)
    (hgiven : ∀ {task scan wanted pending}, w.tasks t = some task →
      task.stage = .feed number scan wanted pending →
        Traffic.Given t w' task number scan wanted pending refusal next)
    (hheard : Position.heard? number next = some (more, position)) :
    Fine t number f ⟨w', position, items ++ more, denied ++ refusal.toList⟩ := by
  cases hc with
  | @asking _ _ pending _ scan task n wanted ht hpage hstage hfile hnext hb hlt htold =>
      have htold' := htold.keep hk hf hn
      have hlt' := Nat.lt_of_lt_of_le hlt (Disk.pageCount_le
        (hn { table := f.table, number := 0 } hf) hk.grew.grows)
      have hcount : w'.store.disk.pageCount scan.file = w'.store.disk.pageCount f := by rw [hfile]
      cases hgiven ht hstage with
      | waits ht' hpage' hstage' =>
          cases hheard
          rw [List.append_nil, Option.toList_none, List.append_nil]
          exact .asking ht' (hpage'.trans hpage) (hstage'.trans hstage) hfile hnext hb hlt' htold'
      | @denied e _ hstop ht' =>
          have hnow := htold'.pass hlt' e
          rw [List.append_assoc, ← List.reverse_cons, ← hb, ← hpage] at hnow
          exact fine_of_pull hfile hnext hnow (by rw [hstop, hcount]) ht' hheard
      | @read page _ hstop ht' hvalid hid hmode hcontent =>
          rw [hpage] at hid hmode hcontent
          have hread := htold'.read.read hlt' hmode hcontent hvalid hid
          rw [List.append_nil] at hread
          have hnow : Told t f denied (n + 1) w'.store (items ++ pending.reverse)
              ({ scan with buffered := page.rows } : Scan).buffered :=
            ⟨hread, htold'.errors, htold'.unfinished⟩
          rw [Option.toList_none, List.append_nil]
          exact fine_of_pull (show ({ scan with buffered := page.rows } : Scan).file = f from hfile)
            hnext hnow (by rw [hstop, hcount]) ht' hheard

/-- The scan is pulled. -/
theorem fine_of_start (hc : Fine t number f ⟨w, .between scan, items, denied⟩)
    (hs : w.step (.start t (.pull number scan wanted)) = some (events, w'))
    (hheard : Position.heard? number ((w.outcome (.start t (.pull number scan wanted))).bind
      Outcome.next?) = some (more, position)) :
    Fine t number f ⟨w', position, items ++ more, denied⟩ ∧ Traffic.Keeps t w.store w'.store := by
  simp only [Traffic.step] at hs
  split at hs
  · cases hs
  · rename_i hidle
    cases hs
    rw [Traffic.outcome, hidle] at hheard
    cases hc with
    | @between _ _ _ _ n hfile hnext htold =>
        have htold' : Told t f denied n w.store (items ++ ([] : List ScanItem).reverse)
            scan.buffered := by
          rw [List.reverse_nil, List.append_nil]
          exact htold
        have hstop : (Request.start w.store t (.pull number scan wanted)).2 =
            (scan.pull (w.store.disk.pageCount f) [] wanted).next number := by
          rw [Request.start, hfile]
        exact ⟨fine_of_pull hfile hnext htold' hstop (if_pos rfl) hheard, .refl t w.store⟩

/-- The pull is resumed. -/
theorem fine_of_resume (h : ∀ p, w.SoundAt p l)
    (hc : Fine t number f ⟨w, .underway, items, denied⟩)
    (hs : w.step (.resume t) = some (events, w')) (hf : w'.store.catalog.file f.table = .ok f)
    (hn : ∀ p, w'.store.NumberedAt p)
    (hheard : Position.heard? number ((w.outcome (.resume t)).bind Outcome.next?) =
      some (more, position)) :
    Fine t number f ⟨w', position, items ++ more, denied ++ (w.denied? (.resume t)).toList⟩ ∧
      Traffic.Keeps t w.store w'.store := by
  obtain ⟨task, ht, hresume⟩ := Option.map_eq_some_iff.1 hs
  rw [Traffic.outcome, ht] at hheard
  obtain rfl : (w.resume t task).2 = w' := by rw [hresume]
  have hfeed : ∃ scan wanted pending, task.stage = .feed number scan wanted pending := by
    cases hc with
    | asking ht' _ hstage =>
        rw [ht] at ht'
        cases ht'
        exact ⟨_, _, _, hstage⟩
  obtain ⟨scan, wanted, pending, hstage⟩ := hfeed
  have hk := Traffic.keeps_of_feed h ht hstage
  refine ⟨fine_of_given hc hk hf hn (fun {task' _ _ _} ht' hstage' => ?_) hheard, hk⟩
  obtain rfl : task = task' := Option.some.inj (ht.symm.trans ht')
  exact Traffic.given_of_resume h ht hstage'

/-- The transaction goes on with its scan. -/
theorem Fine.drive (h : ∀ p, c.traffic.SoundAt p l) (hc : c.Fine t number f)
    (hd : c.position.drives t number move = true) (hs : c.step t number move = some (events, c'))
    (hf : c'.traffic.store.catalog.file f.table = .ok f) (hn : ∀ p, c'.traffic.store.NumberedAt p) :
    c'.Fine t number f ∧ Traffic.Keeps t c.traffic.store c'.traffic.store := by
  obtain ⟨hstep, more, hheard, hitems, hdenied⟩ := step_of_drives hd hs
  obtain ⟨w, before, items, denied⟩ := c
  obtain ⟨w', after, items', denied'⟩ := c'
  obtain rfl : items' = items ++ more := hitems
  obtain rfl : denied' = denied ++ (w.denied? move).toList := hdenied
  rcases Position.drives_cases hd with ⟨scan, wanted, hbefore, rfl⟩ | ⟨hbefore, rfl⟩
  · obtain rfl : before = .between scan := hbefore
    have hnone : w.denied? (.start t (.pull number scan wanted)) = none := rfl
    rw [hnone, Option.toList_none, List.append_nil]
    exact fine_of_start hc hstep hheard
  · obtain rfl : before = .underway := hbefore
    exact fine_of_resume h hc hstep hf hn hheard

/-- Others do something, or the transaction does something else. -/
theorem Fine.aside (hc : c.Fine t number f) (hk : Traffic.Keeps t c.traffic.store w'.store)
    (hover : c.position.isOver = false)
    (htask : c.position = .underway → ∀ {task}, c.traffic.tasks t = some task →
      w'.tasks t = some task)
    (hf : w'.store.catalog.file f.table = .ok f) (hn : ∀ p, w'.store.NumberedAt p) :
    Fine t number f { c with traffic := w' } := by
  cases hc with
  | between hfile hnext htold => exact .between hfile hnext (htold.keep hk hf hn)
  | asking ht hpage hstage hfile hnext hb hlt htold =>
      have hle := Disk.pageCount_le (hn { table := f.table, number := 0 } hf) hk.grew.grows
      exact .asking (htask rfl ht) hpage hstage hfile hnext hb (Nat.lt_of_lt_of_le hlt hle)
        (htold.keep hk hf hn)
  | ended => cases hover

/-- Many moves, one after another.  The transaction only goes on with its scan. -/
def steps (t : TransactionId) (number : Nat) (c : Passage) :
    List Move → Option (List Event × Passage)
  | [] => some ([], c)
  | move :: moves =>
      if move.for? = some t ∧ c.position.drives t number move = false then none
      else
        match c.step t number move with
        | none => none
        | some (events, c') => (c'.steps t number moves).map fun r => (events ++ r.1, r.2)

end Passage

namespace Traffic

variable {s₀ : Store} {w₀ : Traffic} {earlier history : List Event} {c c₀ : Passage} {scan : Scan}
  {number : Nat}

/-- While a transaction drives a scan of a table, it is told what it should be but for the pages
that are denied to it, and what it holds stays as it is. -/
theorem Persists.fine (h₀ : Fresh s₀) (hrun : Run Enclosed s₀ earlier c₀.traffic)
    (h : Persists (Undisturbed t) t number earlier c₀ history c)
    (hf : c₀.traffic.store.catalog.file f.table = .ok f) (hc : c₀.Fine t number f)
    (hn : ∀ p, c.traffic.store.NumberedAt p) :
    Run Enclosed s₀ history c.traffic ∧ c.Fine t number f ∧
      Keeps t c₀.traffic.store c.traffic.store := by
  induction h with
  | start => exact ⟨hrun, hc, .refl t _⟩
  | @step history events c c' move _ hrule hs ih =>
      have hstep := Passage.traffic_step hs
      have henclosed : Enclosed (Ledger.of history) c.traffic move c'.traffic := by
        cases hd : c.position.drives t number move with
        | true => exact enclosed_of_drives hd
        | false => exact ⟨(hrule hd).guarded, (hrule hd).inside⟩
      have hgrew := grew_of_ne_replace henclosed.2 hstep
      have hbefore := fun p => hgrew.numberedAt (hn p)
      obtain ⟨hrun, hc, hk⟩ := ih hbefore
      have hsound := hrun.soundAt_doubted h₀ hbefore
      have hf' : c'.traffic.store.catalog.file f.table = .ok f := by
        rw [hgrew.catalog, hk.grew.catalog, hf]
      have hnext : c'.Fine t number f ∧ Keeps t c.traffic.store c'.traffic.store := by
        cases hd : c.position.drives t number move with
        | true => exact hc.drive hsound hd hs hf' hn
        | false =>
            obtain ⟨-, hover, hc'⟩ := Passage.step_of_not_drives hd hs
            have hk' := (hrule hd).keeps hsound hstep hn
            refine ⟨?_, hk'⟩
            rw [hc']
            refine hc.aside hk' hover (fun hunder {task} => tasks_of_step hstep ?_) hf' hn
            rintro rfl
            rw [hunder] at hd
            simp [Position.drives] at hd
      exact ⟨hrun.step henclosed hstep, hnext.1, hk.trans hnext.2⟩

/-- A scan is driven by moves of others that keep to the rule, and by the transaction itself. -/
theorem Persists.steps {rule : Ledger → Traffic → Move → List Event → Traffic → Prop}
    {moves : List Move} {r : List Event × Passage} (h : Persists rule t number earlier c₀ history c)
    (hr : ∀ move ∈ moves, move.for? ≠ some t → ∀ l w events w', rule l w move events w')
    (hs : c.steps t number moves = some r) :
    Persists rule t number earlier c₀ (history ++ r.1) r.2 := by
  induction moves generalizing history c r with
  | nil =>
      cases hs
      rw [List.append_nil]
      exact h
  | cons move moves ih =>
      rw [Passage.steps] at hs
      split at hs
      · cases hs
      · rename_i hown
        split at hs
        · cases hs
        · rename_i events c' hstep
          obtain ⟨rest, hrest, rfl⟩ := Option.map_eq_some_iff.1 hs
          rw [← List.append_assoc]
          refine ih (h.step (fun hd => ?_) hstep)
            (fun m hm => hr m (List.mem_cons_of_mem _ hm)) hrest
          exact hr move List.mem_cons_self (fun hfor => hown ⟨hfor, hd⟩) _ _ _ _

/-- A transaction goes on with a scan of a table, whatever errors it is told of, until it is told
that there are no more rows.  It has been told each error that a page was denied with, and the
rows of the table's file as it is then, page by page and slot by slot, but for the pages that were
denied.  So these are all rows if and only if there are none on the pages that were denied. -/
theorem scan_passes_over {table : TableId} (h₀ : Fresh s₀) (h : Run Enclosed s₀ earlier w₀)
    (hf : w₀.store.catalog.file table = .ok f)
    (hp : Persists (Undisturbed t) t number earlier (.opened w₀ t f) history c)
    (hend : c.position = .ended scan) (hn : ∀ p, c.traffic.store.NumberedAt p) :
    c.errors = c.denied.map Prod.snd ∧
      c.rows.map Row.entry =
        c.traffic.store.entriesBeside table c.passed (c.traffic.store.disk.pageCount f) ∧
        (c.rows.map Row.entry =
            c.traffic.store.entriesUpTo table (c.traffic.store.disk.pageCount f) ↔
          ∀ p ∈ c.passed, entries p ((c.traffic.store.view p).content.getD []) = []) := by
  have hsound : w₀.store.catalog.Sound := h.grew_start.catalog ▸ h₀.catalog
  obtain rfl : f.table = table := hsound.table hf
  have hstart : Passage.Fine t number f (.opened w₀ t f) :=
    .between rfl rfl ⟨.zero t f w₀.store, rfl, List.not_mem_nil⟩
  obtain ⟨-, hfine, -⟩ := hp.fine h₀ h hf hstart hn
  cases hfine with
  | @ended w items denied scan' htold =>
      have hlisted := htold.read.listed
      rw [List.append_nil] at hlisted
      have hrows : (⟨w, .ended scan', items ++ [.finish], denied⟩ : Passage).rows =
          items.filterMap ScanItem.row? := by
        rw [Passage.rows, List.filterMap_append]
        exact List.append_nil _
      have herrors : (⟨w, .ended scan', items ++ [.finish], denied⟩ : Passage).errors =
          items.filterMap ScanItem.error? := by
        rw [Passage.errors, List.filterMap_append]
        exact List.append_nil _
      rw [hrows, herrors]
      refine ⟨htold.errors, hlisted, ?_⟩
      rw [hlisted]
      exact Store.entriesBeside_eq_iff htold.read.behind
  | between | asking => cases hend

namespace Small

/-- A transaction has changed all that is cached, and another one that scans the table cannot have
the first page.  When the first one has committed, the scan goes on. -/
def crowdedScan : List Move :=
  [.start ⟨0⟩ (.getPage (page 1) .exclusive), .resume ⟨0⟩,
   .start ⟨0⟩ (.getPage (page 2) .exclusive), .resume ⟨0⟩,
   .start ⟨1⟩ (.pull 0 (scanAt 0) 1), .resume ⟨1⟩, .commit ⟨0⟩,
   .start ⟨1⟩ (.pull 0 (scanAt 1) 9), .resume ⟨1⟩, .resume ⟨1⟩]

/-- What these moves come to. -/
def crowdedPassage : List Event × Passage :=
  ((Passage.opened { store } ⟨1⟩ file).steps ⟨1⟩ 0 crowdedScan).getD
    ([], .opened { store } ⟨1⟩ file)

theorem persists_crowded :
    Persists (Undisturbed ⟨1⟩) ⟨1⟩ 0 [] (.opened { store } ⟨1⟩ file) ([] ++ crowdedPassage.1)
      crowdedPassage.2 := by
  have hsteps : ((Passage.opened { store } ⟨1⟩ file).steps ⟨1⟩ 0 crowdedScan).isSome = true := by
    decide +kernel
  have hplain : ∀ move ∈ crowdedScan, move.isPlain = true := by decide
  exact Persists.start.steps
    (fun move hm hne _ _ _ _ => undisturbed_of_other (hplain move hm) hne)
    (eq_some_getD hsteps ([], .opened { store } ⟨1⟩ file))

end Small

/-- There is no room for the first page when the scan asks for it.  Its row is missed, though in
the end there is room for it. -/
theorem scan_passes_over_small :
    Small.crowdedPassage.2.position = .ended { transaction := ⟨1⟩, file := Small.file } ∧
      Small.crowdedPassage.2.denied = [(Small.page 0, .noEvictablePage)] ∧
        Small.crowdedPassage.2.errors = [.noEvictablePage] ∧
          Small.crowdedPassage.2.rows.map Row.fields = [[.int 2], [.int 3]] ∧
            Small.crowdedPassage.2.rows.map Row.entry ≠
                Small.crowdedPassage.2.traffic.store.entriesUpTo ⟨1⟩ 3 ∧
              (Small.crowdedPassage.2.traffic.store.fetch ⟨1⟩ Small.file (Small.page 0)
                .shared).1.isOk = true := by
  have hend : Small.crowdedPassage.2.position =
      .ended { transaction := ⟨1⟩, file := Small.file } := by decide +kernel
  have hdenied : Small.crowdedPassage.2.denied = [(Small.page 0, .noEvictablePage)] := by
    decide +kernel
  have hcount : Small.crowdedPassage.2.traffic.store.disk.pageCount Small.file = 3 := by
    decide +kernel
  have hpage : entries (Small.page 0)
      ((Small.crowdedPassage.2.traffic.store.view (Small.page 0)).content.getD []) ≠ [] := by
    decide +kernel
  obtain ⟨herrors, -, hall⟩ := scan_passes_over Small.fresh .start
    (show Small.store.catalog.file ⟨1⟩ = .ok Small.file by rfl) Small.persists_crowded hend
    (Small.numberedAt (by decide +kernel) (by decide +kernel))
  rw [hcount] at hall
  refine ⟨hend, hdenied, ?_, by decide +kernel, fun h => hpage (hall.1 h _ ?_), by decide +kernel⟩
  · rw [herrors, hdenied]
    rfl
  · rw [Passage.passed, hdenied]
    exact List.mem_singleton_self _

end Traffic

end PagedStore
