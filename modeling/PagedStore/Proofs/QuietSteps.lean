import PagedStore.Proofs.StoreView

/-!
# Quiet steps

Reading pages, making room for them, flushing them, giving up pages without changes
and putting new pages at the end of a file go on without an entry in the ledger.
Seen from a page each of them is a sequence of turns that leaves the ledger as it is
(`Store.QuietAt`).
-/

namespace PagedStore.Store

open Std (ExtTreeMap)
open PageView (Turn Turns)

variable {s s' s'' : Store} {p id : PageId} {t : TransactionId} {page : Page}

/-- Seen from a page, nothing happens that goes into the ledger. -/
structure QuietAt (p : PageId) (s s' : Store) : Prop where
  catalog : s'.catalog = s.catalog
  locks : s'.locks = s.locks
  grows : s.disk.Grows s'.disk
  sound : s.Sound → s'.Sound
  turns : s.Sound → s'.NumberedAt p → ∀ l, Turns (l, s.view p) (l, s'.view p)

namespace QuietAt

theorem refl (p : PageId) (s : Store) : QuietAt p s s :=
  ⟨rfl, rfl, Disk.Grows.refl _, id, fun _ _ _ => .refl⟩

theorem trans (h : QuietAt p s s') (h' : QuietAt p s' s'') : QuietAt p s s'' where
  catalog := h'.catalog.trans h.catalog
  locks := h'.locks.trans h.locks
  grows := h.grows.trans h'.grows
  sound hs := h'.sound (h.sound hs)
  turns hs hn l :=
    (h.turns hs (hn.of_grows h'.catalog h'.grows) l).trans (h'.turns (h.sound hs) hn l)

/-- Only the cache is changed, and this in one turn or not at all. -/
theorem ofCache {f : Cache → Cache} (hs : s.cache.Keyed → (f s.cache).Keyed)
    (ht : s.Sound → ∀ l, Turns (l, s.view p) (l, (s.onCache f).view p)) :
    QuietAt p s (s.onCache f) :=
  ⟨rfl, rfl, Disk.Grows.refl _, fun h => ⟨h.catalog, hs h.keyed, h.indexed⟩, fun h _ => ht h⟩

theorem withCounters (h : QuietAt p s s') (counters : Counters) :
    QuietAt p s { s' with counters } where
  catalog := h.catalog
  locks := h.locks
  grows := h.grows
  sound hs := ⟨(h.sound hs).catalog, (h.sound hs).keyed, (h.sound hs).indexed⟩
  turns hs hn l := h.turns hs hn l

end QuietAt

/-! ## Writing early -/

theorem writeOut_eq_ok (h : s.writeOut page = .ok s') :
    ∃ f disk, s.catalog.file page.id.table = .ok f ∧
      s.disk.writeImage f page.id page.encode = .ok disk ∧
        s' = { s with disk }.count .pagesWritten := by
  rw [writeOut] at h
  split at h
  · cases h
  · rename_i f hf
    split at h
    · cases h
    · rename_i disk hw
      cases h
      exact ⟨f, disk, hf, hw, rfl⟩

theorem view_writeOut (hs : s.Sound) (h : s.writeOut page = .ok s') :
    s'.view p =
      if page.id = p then { s.view p with image := some page.encode } else s.view p := by
  obtain ⟨f, disk, hf, hw, rfl⟩ := writeOut_eq_ok h
  exact view_writeImage hs.catalog hf hw

theorem writeBack_eq_ok (h : s.writeBack page = .ok s') {o : TransactionId}
    (ho : page.owner = some o) :
    ∃ s₁, s.writeOut page = .ok s₁ ∧
      s' = s₁.onCache fun c => c.keep o page.id page.beforeImage := by
  rw [writeBack] at h
  rw [ho] at h
  simp only at h
  split at h
  · cases h
  · rename_i s₁ hw
    cases h
    exact ⟨s₁, hw, rfl⟩

/-- What writing early does to each page. -/
theorem view_writeBack (hs : s.Sound) {o : TransactionId} (ho : page.owner = some o)
    (h : s.writeBack page = .ok s') :
    s'.view p = if page.id = p then (s.view p).written o page else s.view p := by
  obtain ⟨s₁, hw, rfl⟩ := writeBack_eq_ok h ho
  rw [view_keep, view_writeOut hs hw]
  split <;> rfl

theorem quietAt_writeBack (hc : s.cache.page? id = some page) (h : s.writeBack page = .ok s') :
    QuietAt p s s' := by
  cases ho : page.owner with
  | none =>
      rw [writeBack, ho] at h
      cases h
      exact .refl p s
  | some o =>
      have hview := fun hs : s.Sound => view_writeBack (p := p) hs ho h
      obtain ⟨s₁, hw, rfl⟩ := writeBack_eq_ok h ho
      obtain ⟨f, disk, hf, hd, rfl⟩ := writeOut_eq_ok hw
      refine ⟨rfl, rfl, Disk.grows_of_writeImage hd, fun hs => ⟨hs.catalog, hs.keyed, hs.indexed⟩,
        fun hs _ l => ?_⟩
      rw [hview hs]
      split
      · rename_i he
        have hcopy : (s.view p).copy = some page := by
          rw [← he, hs.keyed hc]
          exact hc
        exact .single (.write hcopy ho)
      · exact .refl

/-! ## Giving pages up -/

/-- A page without changes leaves the cache. -/
theorem quietAt_drop (hc : id = p → ∀ page, s.cache.page? id = some page → page.owner = none) :
    QuietAt p s (s.onCache fun c => c.drop id) := by
  refine .ofCache (fun h => h.drop id) fun _ l => ?_
  rw [view_drop]
  split
  · rename_i he
    subst he
    cases hp : s.cache.page? id with
    | none =>
        have : { s.view id with copy := none } = s.view id :=
          PageView.ext rfl rfl rfl hp.symm rfl rfl
        rw [this]
    | some page => exact .single (.drop hp (hc rfl page hp))
  · exact .refl

/-- A page that was written early leaves the cache. -/
theorem quietAt_writeBack_drop (hc : s.cache.page? id = some page) {o : TransactionId}
    (ho : page.owner = some o) (h : s.writeBack page = .ok s') :
    QuietAt p s (s'.onCache fun c => c.drop page.id) := by
  have hw := quietAt_writeBack (p := p) hc h
  have hd : s'.Sound → (s'.onCache fun c => c.drop page.id).Sound :=
    fun hs => ⟨hs.catalog, hs.keyed.drop _, hs.indexed⟩
  refine ⟨hw.catalog, hw.locks, hw.grows, fun hs => hd (hw.sound hs), fun hs hn l => ?_⟩
  refine (hw.turns hs hn l).trans ?_
  rw [view_drop]
  split
  · rename_i he
    have hcopy : (s.view p).copy = some page := by
      rw [← he, hs.keyed hc]
      exact hc
    rw [view_writeBack hs ho h, if_pos he]
    refine .single (.dropWritten hcopy ho ?_ rfl)
    show (if o = o then _ else _) ≠ none
    rw [if_pos rfl]
    cases (s.view p).kept o <;> simp
  · exact .refl

theorem isClean_iff {c : Cache} :
    c.isClean id = true ↔ ∃ page, c.page? id = some page ∧ page.owner = none := by
  rw [Cache.isClean]
  cases c.page? id <;> simp [Page.isDirty]

theorem isOwnedBy_iff {c : Cache} :
    c.isOwnedBy t id = true ↔ ∃ page, c.page? id = some page ∧ page.owner = some t := by
  rw [Cache.isOwnedBy]
  cases c.page? id <;> simp

theorem ownVictim?_eq_some (h : s.ownVictim? t = some page) :
    ∃ id, s.cache.page? id = some page ∧ page.owner = some t := by
  rw [ownVictim?] at h
  obtain ⟨id, hv, hp⟩ := Option.bind_eq_some_iff.1 h
  rw [Recency.victim?_eq_find?] at hv
  obtain ⟨q, hq, ho⟩ := isOwnedBy_iff.1 (List.find?_some hv)
  rw [hp] at hq
  cases hq
  exact ⟨id, hp, ho⟩

/-- Room is made by giving up nothing, a page without an owner, or a page of the transaction,
which is written early. -/
theorem makeRoom_cases (h : s.makeRoom t = .ok s') :
    s' = s ∨
      (∃ id page, s.cache.page? id = some page ∧ page.owner = none ∧ s' = s.evict id) ∨
        ∃ id page s₁, s.cache.page? id = some page ∧ page.owner = some t ∧
          s.writeBack page = .ok s₁ ∧ s' = (s₁.count .dirtyEvictions).evict page.id := by
  rw [makeRoom] at h
  split at h
  · cases h
    exact Or.inl rfl
  · rw [evictOne] at h
    split at h
    · rename_i id hv
      cases h
      rw [Recency.victim?_eq_find?] at hv
      obtain ⟨page, hp, ho⟩ := isClean_iff.1 (List.find?_some hv)
      exact Or.inr (Or.inl ⟨id, page, hp, ho, rfl⟩)
    · split at h
      · cases h
      · rename_i page hv
        split at h
        · cases h
        · rename_i s₁ hw
          cases h
          obtain ⟨id, hp, ho⟩ := ownVictim?_eq_some hv
          exact Or.inr (Or.inr ⟨id, page, s₁, hp, ho, hw, rfl⟩)

theorem quietAt_makeRoom (h : s.makeRoom t = .ok s') : QuietAt p s s' := by
  rcases makeRoom_cases h with rfl | ⟨id, page, hp, ho, rfl⟩ | ⟨id, page, s₁, hp, ho, hw, rfl⟩
  · exact .refl p s'
  · have hdrop : QuietAt p s (s.onCache fun c => c.drop id) := by
      refine quietAt_drop fun _ q hq => ?_
      rw [hp] at hq
      cases hq
      exact ho
    exact hdrop.withCounters _
  · exact (quietAt_writeBack_drop hp ho hw).withCounters _

/-- Making room brings no page into the cache. -/
theorem page?_makeRoom (h : s.makeRoom t = .ok s') (hn : s.cache.page? id = none) :
    s'.cache.page? id = none := by
  have hdrop : ∀ {c : Cache} (q : PageId), c.page? id = none → (c.drop q).page? id = none := by
    intro c q hc
    rw [Cache.page?_drop, hc, ite_self]
  rcases makeRoom_cases h with rfl | ⟨q, -, -, -, rfl⟩ | ⟨q, page, s₁, -, ho, hw, rfl⟩
  · exact hn
  · exact hdrop q hn
  · obtain ⟨s₂, hout, rfl⟩ := writeBack_eq_ok hw ho
    obtain ⟨f, disk, -, -, rfl⟩ := writeOut_eq_ok hout
    exact hdrop page.id hn

/-! ## Reading -/

/-- A page is read from its file into the cache. -/
theorem quietAt_load {f : TableFile} (hn : s.cache.page? id = none)
    (hf : id = p → s.catalog.file p.table = .ok f) (hr : s.disk.readPage f id = .ok page) :
    QuietAt p s (s.onCache fun c => c.load page) := by
  obtain ⟨image, hi, hd⟩ := Disk.readPage_eq_ok hr
  have hid : page.id = id := (Page.decode_eq_ok hd).2.1
  refine .ofCache (fun h => h.load page) fun _ l => ?_
  rw [view_load]
  split
  · rename_i he
    rw [hid] at he
    subst he
    have hf := hf rfl
    exact .single (.load hn (file_view hf) ((image_view hf).trans hi) hd)
  · exact .refl

theorem quietAt_ensureCached {f : TableFile} (hf : id = p → s.catalog.file p.table = .ok f) :
    QuietAt p s (s.ensureCached t f id).2 := by
  have hensured := s.ensured t f id
  generalize s.ensureCached t f id = result at hensured ⊢
  have hmissed : QuietAt p s (s.count .misses) := (QuietAt.refl p s).withCounters _
  cases hensured with
  | hit => exact (QuietAt.refl p s).withCounters _
  | crowded => exact hmissed
  | unread hr => exact hmissed.trans (quietAt_makeRoom hr)
  | read hn hr hp =>
      have hmade := hmissed.trans (quietAt_makeRoom (p := p) hr)
      refine (hmade.trans (quietAt_load (page?_makeRoom hr hn) ?_ hp)).withCounters _
      intro he
      rw [hmade.catalog]
      exact hf he

/-! ## Fetching -/

/-- The page as it is for who fetches it. -/
def taken (t : TransactionId) : LockMode → Page → Page
  | .shared, page => page
  | .exclusive, page => page.withOwner (some t)

theorem page?_take (s : Store) (t : TransactionId) (id : PageId) (mode : LockMode) (q : PageId) :
    (s.take t id mode).cache.page? q =
      if id = q then (s.cache.page? q).map (taken t mode) else s.cache.page? q := by
  cases mode with
  | shared =>
      show s.cache.page? q = _
      cases s.cache.page? q <;> simp [taken]
  | exclusive => exact Cache.page?_update ..

/-- What is taken is in the cache then. -/
theorem page?_take_self {s : Store} {t : TransactionId} {id : PageId} {mode : LockMode}
    {page copy : Page} (hp : s.cache.page? id = some page) (hc : copy = taken t mode page) :
    (s.take t id mode).cache.page? id = some copy := by
  rw [page?_take, if_pos rfl, hp, Option.map_some, hc]

theorem view_take (s : Store) (t : TransactionId) (id : PageId) (mode : LockMode) (p : PageId) :
    (s.take t id mode).view p =
      if id = p then { s.view p with copy := (s.view p).copy.map (taken t mode) }
      else s.view p := by
  have hk : ∀ u, (s.take t id mode).cache.keptFor u = s.cache.keptFor u := by
    intro u
    cases mode <;> rfl
  have hview : (s.take t id mode).view p =
      { s.view p with copy := (s.take t id mode).cache.page? p } :=
    PageView.ext rfl rfl rfl rfl (funext fun u => congrArg (fun m => m[p]?) (hk u)) rfl
  rw [hview, page?_take]
  split <;> rfl

theorem keyed_take (hk : s.cache.Keyed) (t : TransactionId) (id : PageId) (mode : LockMode) :
    (s.take t id mode).cache.Keyed := by
  intro q page hp
  rw [page?_take] at hp
  split at hp
  · obtain ⟨old, ho, rfl⟩ := Option.map_eq_some_iff.1 hp
    rw [← hk ho]
    cases mode <;> rfl
  · exact hk hp

theorem Sound.take (hs : s.Sound) (t : TransactionId) (id : PageId) (mode : LockMode) :
    (s.take t id mode).Sound := ⟨hs.catalog, keyed_take hs.keyed t id mode, hs.indexed⟩

/-- A fetch that does not fail gives the copy of the page that is in the cache when it has
been seen to. -/
theorem fetch_eq (s : Store) (t : TransactionId) (f : TableFile) (id : PageId) (mode : LockMode) :
    (∃ e, s.fetch t f id mode = (.error e, (s.ensureCached t f id).2)) ∨
      (∃ e, (s.ensureCached t f id).2.cache.page? id = none ∧
        s.fetch t f id mode = (.error e, (s.ensureCached t f id).2.take t id mode)) ∨
        ∃ page frame, (s.ensureCached t f id).2.cache.page? id = some page ∧
          frame.page = taken t mode page ∧
            s.fetch t f id mode = (.ok frame, (s.ensureCached t f id).2.take t id mode) := by
  rw [fetch]
  split
  · rename_i e s₁ he
    rw [he]
    exact Or.inl ⟨e, rfl⟩
  · rename_i s₁ he
    rw [he]
    right
    have hp := page?_take s₁ t id mode id
    rw [if_pos rfl] at hp
    simp only
    split
    · rename_i frame hframe
      have hpage : (s₁.take t id mode).cache.page? id = some frame.page := by
        rw [Cache.page?, hframe]
        rfl
      rw [hpage] at hp
      obtain ⟨page, hpage, ht⟩ := Option.map_eq_some_iff.1 hp.symm
      exact Or.inr ⟨page, frame, hpage, ht.symm, rfl⟩
    · rename_i hframe
      have hpage : (s₁.take t id mode).cache.page? id = none := by
        rw [Cache.page?, hframe]
        rfl
      rw [hpage] at hp
      exact Or.inl ⟨_, Option.map_eq_none_iff.1 hp.symm, rfl⟩

/-- A fetch that fails leaves nothing in the ledger.  One that does not fail gives the
copy of the page that is in the cache by then. -/
theorem fetch_cases {f : TableFile} (mode : LockMode)
    (hf : id = p → s.catalog.file p.table = .ok f) :
    ((∃ e, (s.fetch t f id mode).1 = .error e) ∧ QuietAt p s (s.fetch t f id mode).2) ∨
      ∃ s₁ page frame, QuietAt p s s₁ ∧ s₁.cache.page? id = some page ∧
        (s.fetch t f id mode).1 = .ok frame ∧ frame.page = taken t mode page ∧
          (s.fetch t f id mode).2 = s₁.take t id mode := by
  have hq := quietAt_ensureCached (t := t) hf
  rcases s.fetch_eq t f id mode with ⟨e, he⟩ | ⟨e, hn, he⟩ | ⟨page, frame, hp, ht, he⟩
  · rw [he]
    exact Or.inl ⟨⟨e, rfl⟩, hq⟩
  · rw [he]
    generalize (s.ensureCached t f id).2 = s₁ at hq hn
    refine Or.inl ⟨⟨e, rfl⟩, hq.trans ?_⟩
    refine ⟨rfl, rfl, Disk.Grows.refl _, fun hs => hs.take t id mode, fun _ _ l => ?_⟩
    rw [view_take]
    split
    · rename_i he
      subst he
      have : { s₁.view id with copy := (s₁.view id).copy.map (taken t mode) } = s₁.view id := by
        refine PageView.ext rfl rfl rfl ?_ rfl rfl
        show (s₁.cache.page? id).map _ = s₁.cache.page? id
        rw [hn]
        rfl
      rw [this]
    · exact .refl
  · rw [he]
    exact Or.inr ⟨_, page, frame, hq, hp, rfl, ht, rfl⟩

/-! ## Flushing and discarding -/

theorem quietAt_flushPage (h : s.flushPage id = .ok s') : QuietAt p s s' := by
  rw [flushPage] at h
  split at h
  · cases h
    exact .refl p s
  · rename_i page hp
    exact quietAt_writeBack hp h

theorem quietAt_untilError {α : Type} {f : Store → α → Except StoreError Store}
    (hf : ∀ {s a s'}, f s a = .ok s' → QuietAt p s s') (s : Store) (as : List α) :
    QuietAt p s (untilError f s as).2 := by
  induction as generalizing s with
  | nil => exact .refl p s
  | cons a as ih =>
      rw [untilError]
      split
      · exact .refl p s
      · rename_i s₁ h
        exact (hf h).trans (ih s₁)

theorem quietAt_flushPages (p : PageId) (s : Store) (t : TransactionId) :
    QuietAt p s (s.flushPages t).2 := quietAt_untilError quietAt_flushPage s _

theorem quietAt_flushAll (p : PageId) (s : Store) : QuietAt p s s.flushAll.2 :=
  quietAt_untilError quietAt_flushPage s _

theorem quietAt_discard
    (hc : id = p → ∀ page, s.cache.page? id = some page → page.owner = none) :
    QuietAt p s (s.discard id) := by
  rw [discard]
  split
  · exact .refl p s
  · have hq := quietAt_drop (p := p) hc
    dsimp only
    split
    · exact hq.withCounters _
    · exact hq

/-! ## New pages -/

/-- The page that is put at the end of a file. -/
def Appended (s : Store) (f : TableFile) (p : PageId) : Prop :=
  ∃ g, s.catalog.file p.table = .ok g ∧ g.name = f.name ∧ (s.disk.append f).1 = p.number

/-- What putting a page at the end of a file does to each page. -/
theorem view_append {f : TableFile} (hn : s.NumberedAt p)
    (hf : ∀ g, s.catalog.file p.table = .ok g → g.name = f.name → g = f) :
    (s.Appended f p → (s.view p).file ≠ none ∧ (s.view p).image = none ∧
        view { s with disk := (s.disk.append f).2 } p =
          { s.view p with image := (s.view p).blank }) ∧
      (¬ s.Appended f p → view { s with disk := (s.disk.append f).2 } p = s.view p) := by
  constructor
  · rintro ⟨g, hg, hname, hnumber⟩
    obtain rfl := hf g hg hname
    obtain ⟨hnew, himages⟩ := Disk.image?_append (hn hg) p.number
    refine ⟨by rw [file_view hg]; simp, ?_, PageView.ext rfl rfl ?_ rfl rfl rfl⟩
    · rw [image_view hg, ← hnumber]
      exact hnew
    · rw [image_view (s := { s with disk := (s.disk.append g).2 }) hg]
      show _ = (s.view p).blank
      rw [himages, if_pos hnumber, PageView.blank, file_view hg]
      rfl
  · intro hother
    refine PageView.ext rfl rfl ?_ rfl rfl rfl
    show Option.bind (s.catalog.file p.table).toOption _ = Option.bind _ _
    cases hg : s.catalog.file p.table with
    | error e => rfl
    | ok g =>
        show g.image? ((s.disk.append f).2.contents g) p.number = _
        by_cases hname : f.name = g.name
        · obtain rfl := hf g hg hname.symm
          rw [(Disk.image?_append (hn hg) p.number).2,
            if_neg fun hnumber => hother ⟨g, hg, rfl, hnumber⟩]
          rfl
        · rw [Disk.contents_append, if_neg hname]
          rfl

theorem quietAt_append {f : TableFile}
    (hf : ∀ g, s.catalog.file p.table = .ok g → g.name = f.name → g = f) :
    QuietAt p s { s with disk := (s.disk.append f).2 } := by
  refine ⟨rfl, rfl, Disk.grows_append _ _, fun hs => ⟨hs.catalog, hs.keyed, hs.indexed⟩,
    fun _ hafter l => ?_⟩
  have hn : s.NumberedAt p := hafter.of_grows rfl (Disk.grows_append _ _)
  obtain ⟨hnew, hold⟩ := view_append hn hf
  by_cases hp : s.Appended f p
  · obtain ⟨hfile, himage, hview⟩ := hnew hp
    rw [hview]
    exact .single (.append hfile himage)
  · rw [hold hp]

end PagedStore.Store
