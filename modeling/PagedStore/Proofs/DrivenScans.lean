import PagedStore.Proofs.ContentChanges
import PagedStore.Proofs.ScanItems

/-!
# Driving a scan

A transaction *drives* a scan if it pulls it again and again until it is told that there are no
more rows (`Traffic.Drive`).  In between others do what they like, and the transaction may do
other things as well, as long as it changes nothing and releases nothing (`Traffic.Passive`).

What the transaction holds stays as it is, whether its scan goes on (`Traffic.keeps_of_feed`) or
something else is done (`Traffic.Undisturbed.keeps`).  For the second no page must be released
early that its transaction has fetched for writing, and no page may be dropped with changes of
the transaction on it.

When a pull is resumed it waits, or goes on without its page and with an error among its items,
or with the rows of the page, which the transaction then holds (`Traffic.fed_of_resume`).  It
goes on without its page if it is denied the page (`Traffic.given_of_resume`).
-/

namespace PagedStore

variable {t u : TransactionId} {l : Ledger} {p : PageId} {f : TableFile}

/-! ## Driving a scan -/

/-- What a task does next, as far as the outcome of a move tells it. -/
def Outcome.next? : Outcome → Option Next
  | .began next | .astray next => some next
  | .evaluated _ next => next
  | .done _ => none

/-- Where a transaction is with a scan. -/
inductive Position where
  /-- It may pull the scan. -/
  | between (scan : Scan)
  /-- It has pulled the scan, and has no answer yet. -/
  | underway
  /-- It was told that there are no more rows. -/
  | ended (scan : Scan)
deriving DecidableEq

namespace Position

/-- By the move the transaction goes on with its scan: it pulls the scan, or resumes the pull. -/
def drives (t : TransactionId) (number : Nat) : Position → Move → Bool
  | .between scan, .start u (.pull number' scan' _) => u = t && number' = number && scan' = scan
  | .underway, .resume u => u = t
  | _, _ => false

theorem drives_cases {position : Position} {number : Nat} {move : Move}
    (h : position.drives t number move = true) :
    (∃ scan wanted, position = .between scan ∧ move = .start t (.pull number scan wanted)) ∨
      position = .underway ∧ move = .resume t := by
  cases position with
  | between scan =>
      cases move with
      | start u request =>
          cases request with
          | pull number' scan' wanted =>
              simp only [drives, Bool.and_eq_true, decide_eq_true_eq] at h
              obtain ⟨⟨rfl, rfl⟩, rfl⟩ := h
              exact Or.inl ⟨scan', wanted, rfl, rfl⟩
          | _ => cases h
      | _ => cases h
  | underway =>
      cases move with
      | resume u =>
          simp only [drives, decide_eq_true_eq] at h
          exact Or.inr ⟨rfl, h ▸ rfl⟩
      | _ => cases h
  | ended => cases h

/-- It was told that there are no more rows. -/
def isOver : Position → Bool
  | .ended _ => true
  | _ => false

/-- The rows that the transaction is told when it goes on with its scan, and where it is then.
It is told of no error. -/
def told? (number : Nat) : Option Next → Option (List Row × Position)
  | none | some (.ask ..) => some ([], .underway)
  | some (.answer (.pulled number' items scan)) =>
      if number' = number then
        (ScanItem.rows? items).map fun r => (r.1, if r.2 then .ended scan else .between scan)
      else none
  | some (.answer _) => none

end Position

/-- A traffic in which a transaction drives a scan. -/
structure Course where
  /-- The traffic. -/
  traffic : Traffic
  /-- Where the transaction is with its scan. -/
  position : Position
  /-- The rows that it was told. -/
  rows : List Row := []

namespace Course

/-- The scan of a table is opened. -/
def opened (w : Traffic) (t : TransactionId) (f : TableFile) : Course :=
  { traffic := w, position := .between (Scan.rewind { transaction := t, file := f }) }

/-- The scan is rewound. -/
def rewound (w : Traffic) (scan : Scan) : Course :=
  { traffic := w, position := .between scan.rewind }

/-- One move.  If the transaction goes on with its scan by the move, it is told of no error. -/
def step (t : TransactionId) (number : Nat) (c : Course) (move : Move) :
    Option (List Event × Course) :=
  if c.position.isOver then none
  else
    match c.traffic.step move with
    | none => none
    | some (events, w) =>
        if c.position.drives t number move then
          (Position.told? number ((c.traffic.outcome move).bind Outcome.next?)).map fun r =>
            (events, { traffic := w, position := r.2, rows := c.rows ++ r.1 })
        else some (events, { c with traffic := w })

end Course

namespace Traffic

/-- What follows on a history while a transaction drives a scan.  The other moves keep to a rule. -/
inductive Drive (rule : Ledger → Traffic → Move → List Event → Traffic → Prop) (t : TransactionId)
    (number : Nat) (earlier : List Event) (c₀ : Course) : List Event → Course → Prop
  | start : Drive rule t number earlier c₀ earlier c₀
  | step {history events : List Event} {c c' : Course} {move : Move} :
      Drive rule t number earlier c₀ history c →
        (c.position.drives t number move = false →
          rule (Ledger.of history) c.traffic move events c'.traffic) →
          c.step t number move = some (events, c') →
            Drive rule t number earlier c₀ (history ++ events) c'

/-- The move is made through the store.  If it is one of the transaction, the transaction changes
nothing and releases nothing. -/
structure Passive (t : TransactionId) (_ : Ledger) (w : Traffic) (move : Move)
    (events : List Event) (w' : Traffic) : Prop where
  inside : ∀ catalog disk, move ≠ .replace catalog disk
  unchanged : move.for? = some t → ∀ change, .changed t change ∉ events
  held : move.for? = some t →
    ∀ p, (w.store.view p).mode t ≠ none → (w'.store.view p).mode t ≠ none

/-- Besides, no page is released early by a transaction that has fetched it for writing, and no
page is dropped with changes of the transaction on it. -/
structure Undisturbed (t : TransactionId) (l : Ledger) (w : Traffic) (move : Move)
    (events : List Event) (w' : Traffic) : Prop extends Passive t l w move events w' where
  guarded : Guarded l w move w'
  kept : ∀ page, move = .discard page → (w.store.view page).owner? ≠ some t

variable {s₀ : Store} {w w' : Traffic} {move : Move} {history events : List Event}

/-! ## What the transaction holds -/

/-- The pages that a transaction holds are still held and have the same contents, and no file is
shorter. -/
structure Keeps (t : TransactionId) (s s' : Store) : Prop where
  content : ∀ p, (s.view p).mode t ≠ none → (s'.view p).content = (s.view p).content
  held : ∀ p, (s.view p).mode t ≠ none → (s'.view p).mode t ≠ none
  grew : Store.Grew s s'

theorem Keeps.refl (t : TransactionId) (s : Store) : Keeps t s s :=
  ⟨fun _ _ => rfl, fun _ h => h, .refl s⟩

theorem Keeps.trans {s s' s'' : Store} (h : Keeps t s s') (h' : Keeps t s' s'') : Keeps t s s'' :=
  ⟨fun p hp => (h'.content p (h.held p hp)).trans (h.content p hp),
    fun p hp => h'.held p (h.held p hp), h.grew.trans h'.grew⟩

/-- Rows are inserted and deleted when a task is resumed. -/
theorem resume_of_changed {change : Change} (hs : w.step move = some (events, w'))
    (hm : .changed t change ∈ events) : move = .resume t := by
  cases move with
  | resume u =>
      obtain ⟨task, -, hresume⟩ := Option.map_eq_some_iff.1 hs
      have hmem : .changed t change ∈ (w.resume u task).1 := by
        rw [hresume]
        exact hm
      rcases work_of_mem_resume hmem with ⟨p, image, he⟩ | ⟨p, mode, copy, he⟩ | ⟨change', he⟩ <;>
        cases he
      rfl
  | start u request =>
      simp only [step] at hs
      split at hs <;> cases hs
      cases hm
  | commit u =>
      cases hs
      have := List.mem_singleton.1 hm
      simp only [commitEvent] at this
      split at this <;> cases this
  | abort u =>
      cases hs
      cases List.mem_singleton.1 hm
  | flushPage page =>
      simp only [step] at hs
      split at hs <;> cases hs <;> cases hm
  | flushPages | flushAll | discard | release | replace =>
      cases hs
      cases hm

/-- A move that does not disturb a transaction keeps what it holds. -/
theorem Undisturbed.keeps {l' : Ledger} (h : ∀ p, w.SoundAt p l')
    (hr : Undisturbed t l w move events w')
    (hs : w.step move = some (events, w')) (hn : ∀ p, w'.store.NumberedAt p) :
    Keeps t w.store w'.store := by
  have hheld : ∀ p, (w.store.view p).mode t ≠ none → (w'.store.view p).mode t ≠ none := by
    intro p hp
    by_cases hfor : move.for? = some t
    · exact hr.held hfor p hp
    · rw [mode_of_step (h p) hr.inside hs (hn p) fun u hu hut =>
        hfor (hu.trans (congrArg some hut))]
      exact hp
  refine ⟨fun p hp => content_of_held h hr.inside hs hp ?_, hheld,
    grew_of_ne_replace hr.inside hs⟩
  rintro (⟨change, hc⟩ | rfl | ⟨rfl, ho⟩)
  · obtain rfl := resume_of_changed hs hc
    exact hr.unchanged rfl change hc
  · cases hs
    exact hheld p hp ((SoundAt.storeFollows h).mode_abort t p)
  · exact hr.kept p rfl ho

/-! ## The scan goes on -/

/-- A scan that is given a page, or goes on without it, does nothing else. -/
theorem Stage.store_feed (s : Store) (t : TransactionId) (number : Nat) (scan : Scan)
    (wanted : Nat) (items : List ScanItem) (r : Except StoreError Frame) :
    ((Stage.feed number scan wanted items).resume s t r).1 = s := by
  cases r <;> rfl

/-- A scan that goes on locks its page at most. -/
theorem locks_submit_feed {source : TableFile} {r : LockRequest} {stage : Stage} {number : Nat}
    {scan : Scan} {wanted : Nat} {items : List ScanItem}
    (hstage : stage = .feed number scan wanted items) (s : Store) (t : TransactionId) :
    (PagedStore.submit s t source r stage).2.locks = (s.locks.consider t r).2 := by
  subst hstage
  rw [PagedStore.submit]
  dsimp only
  split
  · rfl
  · rw [Stage.store_feed]
  · rw [Stage.store_feed, Store.locks_fetch]

/-- What a transaction holds it keeps when its scan goes on. -/
theorem keeps_of_feed {task : Task} {number : Nat} {scan : Scan} {wanted : Nat}
    {items : List ScanItem} (h : ∀ p, w.SoundAt p l) (ht : w.tasks t = some task)
    (hstage : task.stage = .feed number scan wanted items) :
    Keeps t w.store (w.resume t task).2.store := by
  refine ⟨fun p _ => ?_, fun p hp => ?_, w.grew_resume t task⟩
  · rcases content_of_resume h ht p with hsame | ⟨hx, -⟩
    · exact hsame
    · rw [hstage] at hx
      cases hx
  · cases hsource : w.sourceOf task with
    | error e =>
        rw [resume_of_error hsource, Stage.resume_error]
        exact hp
    | ok source =>
        rw [resume_of_source hsource, store_submit]
        show (PagedStore.submit w.store t source _ task.stage).2.locks.modeOf? p t ≠ none
        rw [locks_submit_feed hstage]
        by_cases hg : (w.store.locks.consider t { page := task.page, mode := task.mode }).1 =
            .granted
        · rw [LockTable.modeOf?_of_granted hg]
          split
          · exact Option.some_ne_none _
          · exact hp
        · rw [LockTable.modeOf?_of_not_granted hg]
          exact hp

theorem resumeOutcome_of_source {task : Task} {source : TableFile}
    (h : w.sourceOf task = .ok source) :
    w.resumeOutcome t task = w.submitOutcome t task source := by
  rw [sourceOf] at h
  rw [resumeOutcome]
  cases hs : task.source with
  | some f =>
      rw [hs] at h
      cases h
      rfl
  | none =>
      rw [hs] at h
      simp only [h]

theorem resumeOutcome_of_error {task : Task} {e : StoreError} (h : w.sourceOf task = .error e) :
    w.resumeOutcome t task = .astray (task.stage.resume w.store t (.error e)).2 := by
  rw [sourceOf] at h
  rw [resumeOutcome]
  cases hs : task.source with
  | some f =>
      rw [hs] at h
      cases h
  | none =>
      rw [hs] at h
      simp only [h]

/-- The page that a resumed task has asked for, if the task goes on without it, and why. -/
def denied? (w : Traffic) : Move → Option (PageId × StoreError)
  | .resume t =>
      (w.tasks t).bind fun task =>
        match w.sourceOf task with
        | .error e => some (task.page, e)
        | .ok source =>
            let verdict := w.store.locks.consider t { page := task.page, mode := task.mode }
            match verdict.1 with
            | .waits => none
            | .refused => some (task.page, .aborted t)
            | .granted =>
                let s : Store := { w.store with locks := verdict.2 }
                match (s.fetch t source task.page task.mode).1 with
                | .error e => some (task.page, e)
                | .ok _ => none
  | _ => none

/-- What a scan that has asked for its page is given. -/
inductive Given (t : TransactionId) (w' : Traffic) (task : Task) (number : Nat) (scan : Scan)
    (wanted : Nat) (items : List ScanItem) : Option (PageId × StoreError) → Option Next → Prop
  /-- The request waits. -/
  | waits {task' : Task} : w'.tasks t = some task' → task'.page = task.page →
      task'.stage = task.stage → Given t w' task number scan wanted items none none
  /-- The page is denied, and the scan goes on without it. -/
  | denied {e : StoreError} {next : Next} :
      next = ((Scan.pull (w'.store.disk.pageCount scan.file) scan (.failed e :: items)
        (wanted - 1)).next number) →
        w'.tasks t = Task.ofNext next →
          Given t w' task number scan wanted items (some (task.page, e)) (some next)
  /-- The scan goes on with the rows of the page. -/
  | read {page : Page} {next : Next} :
      next = ((Scan.pull (w'.store.disk.pageCount scan.file) { scan with buffered := page.rows }
        items wanted).next number) →
        w'.tasks t = Task.ofNext next → page.Valid → page.id = task.page →
          (w'.store.view task.page).mode t ≠ none →
            (w'.store.view task.page).content = some page.content →
              Given t w' task number scan wanted items none (some next)

theorem given_of_resume {task : Task} {number : Nat} {scan : Scan} {wanted : Nat}
    {items : List ScanItem} (h : ∀ p, w.SoundAt p l) (ht : w.tasks t = some task)
    (hstage : task.stage = .feed number scan wanted items) :
    Given t (w.resume t task).2 task number scan wanted items (w.denied? (.resume t))
      (w.resumeOutcome t task).next? := by
  have hturn : ∀ {s : Store} {o : Option Task}, (w.turn t s o).tasks t = o := if_pos rfl
  have hdenied : ∀ (s : Store) (e : StoreError), Given t
      (w.turn t s (Task.ofNext (task.stage.resume s t (.error e)).2)) task number scan wanted items
        (some (task.page, e)) (some (task.stage.resume s t (.error e)).2) := by
    intro s e
    rw [hstage]
    exact .denied rfl hturn
  rw [denied?, ht, Option.bind_some]
  cases hsource : w.sourceOf task with
  | error e =>
      rw [resume_of_error hsource, resumeOutcome_of_error hsource, Stage.resume_error]
      exact hdenied w.store e
  | ok source =>
      rw [resume_of_source hsource, resumeOutcome_of_source hsource, submit_eq_turn, submitOutcome]
      simp only [Outcome.next?]
      have hf := (h task.page).file_of_sourceOf ht hsource
      cases hv : (w.store.locks.consider t { page := task.page, mode := task.mode }).1 with
      | waits =>
          rw [(submit_of_waits source task.stage hv).2]
          exact .waits hturn rfl rfl
      | refused =>
          rw [(submit_of_refused source task.stage hv).2]
          exact hdenied _ _
      | granted =>
          rw [(submit_of_granted source task.stage hv rfl).2]
          rcases (SoundAt.storeFollows h).granted_fetch hf hv with
            ⟨e, -, hfetch⟩ | ⟨s₁, frame, l', hs₁, -, hmode, hp, hc, hfetch⟩
          · rw [hfetch, Stage.resume_error]
            exact hdenied _ e
          · rw [hfetch, hstage]
            have hfits := (hs₁.view task.page).fits hp
            exact .read rfl hturn hfits.valid hfits.id hmode
              (PageView.content_of_copy (v := s₁.view task.page) hp)

/-- What can come of the request of a scan for its page. -/
inductive Fed (t : TransactionId) (w' : Traffic) (task : Task) (number : Nat) (scan : Scan)
    (wanted : Nat) (items : List ScanItem) : Option Next → Prop
  /-- The request waits. -/
  | waits {task' : Task} : w'.tasks t = some task' → task'.page = task.page →
      task'.stage = task.stage → Fed t w' task number scan wanted items none
  /-- The scan goes on without the page. -/
  | failed {e : StoreError} {count : Nat} {next : Next} :
      next = (scan.pull count (.failed e :: items) (wanted - 1)).next number →
        w'.tasks t = Task.ofNext next → Fed t w' task number scan wanted items (some next)
  /-- The scan goes on with the rows of the page. -/
  | read {page : Page} {next : Next} :
      next = ((Scan.pull (w'.store.disk.pageCount scan.file) { scan with buffered := page.rows }
        items wanted).next number) →
        w'.tasks t = Task.ofNext next → page.Valid → page.id = task.page →
          (w'.store.view task.page).mode t ≠ none →
            (w'.store.view task.page).content = some page.content →
              Fed t w' task number scan wanted items (some next)

theorem fed_of_resume {task : Task} {number : Nat} {scan : Scan} {wanted : Nat}
    {items : List ScanItem} (h : ∀ p, w.SoundAt p l) (ht : w.tasks t = some task)
    (hstage : task.stage = .feed number scan wanted items) :
    Fed t (w.resume t task).2 task number scan wanted items (w.resumeOutcome t task).next? := by
  have hgiven := given_of_resume h ht hstage
  generalize w.denied? (.resume t) = denied at hgiven
  generalize (w.resumeOutcome t task).next? = next at hgiven ⊢
  cases hgiven with
  | waits ht' hpage hstage' => exact .waits ht' hpage hstage'
  | denied hstop ht' => exact .failed hstop ht'
  | read hstop ht' hvalid hid hmode hcontent => exact .read hstop ht' hvalid hid hmode hcontent

end Traffic

end PagedStore
