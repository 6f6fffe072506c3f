import PagedStore.Proofs.Placements

/-!
# Tasks that fail

A request to insert a row or to delete one may fail at many places: before it has asked for a
page, because a lock is refused, because there is no room in the cache, because a page cannot be
read, or because it has no such row.  Until then pages may have been locked, released again, moved
into the cache and out of it, and one may have become the transaction's own.  Even a page may have
been put at the end of the file.

But nothing is lost.  Every page holds what it held before, and holds what it would have held if
any transaction is aborted.  The locks and the changed pages of the other transactions are as they
were, and the transaction has the locks that it had (`Store.Spares`).  The lengths of the files are
the same, apart from a new page of zeros at the end of the file in which a row was to be placed
(`Store.Lengthened`).

This is so after every run in which tables are only added, and in which no transaction releases a
page early that it has fetched for writing (`Traffic.spares_of_failure`).  Without the second
condition it is not (`Traffic.not_spares_small`).
-/

namespace PagedStore

open PageView (Agrees)
open Store (SameContents Silent Grew)

variable {p id : PageId} {t u : TransactionId} {l l' : Ledger} {s s' s'' s₁ : Store}
  {f source : TableFile} {mode : LockMode} {stage : Stage} {i : Insertion} {frame : Frame}
  {a : Answer} {n : Next} {e : StoreError} {page : Page}

/-! ## One page -/

namespace PageView

variable {v v' v'' : PageView}

theorem content_aborted_of_not_owns (h : ¬ v.Owns u) : (v.aborted u).content = v.content := by
  rw [aborted_of_not_owns h]
  rfl

/-- When its owner is aborted a page shows what the owner has found. -/
theorem Agrees.content_aborted_of_owns (h : Agrees l v) (ho : v.Owns u) :
    (v.aborted u).content = v.shown (v.before u) := by
  obtain ⟨hc, -, hi, hne⟩ := h.aborted_of_owns ho
  obtain ⟨image, hb⟩ := Option.ne_none_iff_exists'.1 hne
  rw [content_of_none hc, present_of_image (hi.trans hb), hb]
  rfl

/-- Work for a transaction leaves the page as it is for everybody. -/
structure Spares (t : TransactionId) (v v' : PageView) : Prop where
  content : v'.content = v.content
  /-- It holds the same when someone is aborted. -/
  restored : ∀ u, (v'.aborted u).content = (v.aborted u).content
  mode : ∀ {u}, u ≠ t → v'.mode u = v.mode u
  owner : ∀ {u}, u ≠ t → (v'.owner? = some u ↔ v.owner? = some u)

namespace Spares

theorem refl (t : TransactionId) (v : PageView) : Spares t v v :=
  ⟨rfl, fun _ => rfl, fun _ => rfl, fun _ => .rfl⟩

theorem trans (h : Spares t v v') (h' : Spares t v' v'') : Spares t v v'' :=
  ⟨h'.content.trans h.content, fun u => (h'.restored u).trans (h.restored u),
    fun hu => (h'.mode hu).trans (h.mode hu), fun hu => (h'.owner hu).trans (h.owner hu)⟩

/-- The transaction gets a lock, or gives it back. -/
theorem withMode {mode : TransactionId → Option LockMode} (h : ∀ {u}, u ≠ t → mode u = v.mode u) :
    Spares t v { v with mode } :=
  ⟨rfl, fun _ => rfl, h, fun _ => .rfl⟩

/-- The page is moved, and nobody loses or gets it. -/
theorem of_alike (h : v.Alike v') (ha : Agrees l v) (ha' : Agrees l' v')
    (ho : ∀ {u}, u ≠ t → (v'.owner? = some u ↔ v.owner? = some u)) : Spares t v v' :=
  ⟨h.content, fun u => (h.aborted ha ha' u).content, fun {u} _ => congrFun h.mode u, ho⟩

/-- A page that is put at the end of its file holds nothing else than before. -/
theorem append (h : Agrees l v) (hi : v.image = none) :
    Spares t v { v with image := v.blank } := by
  have hcopy : v.copy = none := by
    by_contra hc
    obtain ⟨page, hc⟩ := Option.ne_none_iff_exists'.1 hc
    exact (h.fits hc).image hi
  have hnone : ∀ u, ¬ v.Owns u := fun u ho => h.image_of_owns ho hi
  have hcontent : PageView.content { v with image := v.blank } = v.content := by
    rw [content_of_none hcopy, content_of_none (v := { v with image := v.blank }) hcopy,
      present_appended hi]
    rfl
  refine ⟨hcontent, fun u => ?_, fun _ => rfl, fun _ => .rfl⟩
  rw [content_aborted_of_not_owns (hnone u)]
  exact (content_aborted_of_not_owns (v := { v with image := v.blank }) (hnone u)).trans hcontent

/-- A page that the transaction makes its own holds the same as before, and if the transaction is
aborted it still does: without changes a page shows what is in its file. -/
theorem take (h : Agrees l v)
    (h' : Agrees l' { v with copy := some (page.withOwner (some t)) }) (hc : v.copy = some page)
    (hm : v.mode t = some .exclusive) :
    Spares t v { v with copy := some (page.withOwner (some t)) } := by
  have hopen : v.OpenTo t := h.openTo_of_mode (by rw [hm]; simp)
  have hcontent :
      PageView.content { v with copy := some (page.withOwner (some t)) } = v.content := by
    rw [content_of_copy hc]
    rfl
  have howner : ∀ {u}, u ≠ t → v.owner? ≠ some u := fun hu ho => hu (hopen _ (Or.inl ho))
  have howner' : ∀ {u}, u ≠ t →
      owner? { v with copy := some (page.withOwner (some t)) } ≠ some u :=
    fun hu ho => hu (Option.some.inj ho).symm
  refine ⟨hcontent, fun u => ?_, fun _ => rfl,
    fun hu => iff_of_false (howner' hu) (howner hu)⟩
  by_cases hu : u = t
  · subst hu
    rw [h'.content_aborted_of_owns (Or.inl rfl)]
    by_cases ho : v.Owns u
    · rw [h.content_aborted_of_owns ho]
      rfl
    · have hkept : v.kept u = none := by
        by_contra hk
        exact ho (Or.inr hk)
      have hnone : page.owner = none := by
        cases hp : page.owner with
        | none => rfl
        | some w =>
            have hown : v.owner? = some w := (owner?_of_copy hc).trans hp
            exact absurd (Or.inl (hopen w (Or.inl hown) ▸ hown)) ho
      rw [content_aborted_of_not_owns ho, content_of_copy hc, ← h.clean hc hnone]
      show v.shown (v.before u) = v.shown v.image
      rw [before_of_unowned hkept (h.fits hc).image]
  · have hkept := Agrees.kept_of_openTo hopen hu
    have hnot : ¬ v.Owns u := fun ho => ho.elim (howner hu) fun hk => hk hkept
    have hnot' : ¬ Owns { v with copy := some (page.withOwner (some t)) } u :=
      fun ho => ho.elim (howner' hu) fun hk => hk hkept
    rw [content_aborted_of_not_owns hnot, content_aborted_of_not_owns hnot', hcontent]

end Spares

end PageView

/-! ## Stores -/

namespace Store

/-- Work for a transaction leaves every page as it is for everybody, and takes no lock from the
transaction. -/
structure Harmless (t : TransactionId) (s s' : Store) : Prop where
  follows : ∃ l, s'.Follows l
  catalog : s'.catalog = s.catalog
  view : ∀ p, (s.view p).Spares t (s'.view p)
  held : ∀ {p}, (s.view p).mode t ≠ none → (s'.view p).mode t ≠ none
  exclusive : ∀ {p}, (s.view p).mode t = some .exclusive → (s'.view p).mode t = some .exclusive

theorem Harmless.trans (h : Harmless t s s') (h' : Harmless t s' s'') : Harmless t s s'' where
  follows := h'.follows
  catalog := h'.catalog.trans h.catalog
  view p := (h.view p).trans (h'.view p)
  held hm := h'.held (h.held hm)
  exclusive hm := h'.exclusive (h.exclusive hm)

/-- Nothing is done to the files either, but that changes of the transaction may be written
early. -/
structure Idle (t : TransactionId) (s s' : Store) : Prop extends Harmless t s s' where
  lengths : s.disk.SameLengths s'.disk
  image : ∀ {p}, (∀ u, ¬ (s.view p).Owns u) → (s'.view p).image = (s.view p).image

theorem Follows.idle_refl (hs : s.Follows l) (t : TransactionId) : Idle t s s where
  follows := ⟨l, hs⟩
  catalog := rfl
  view _ := .refl t _
  held := id
  exclusive := id
  lengths := .refl _
  image _ := rfl

/-- A request is evaluated before. -/
theorem Idle.of_considered {r : LockRequest}
    (h : Idle t { s with locks := (s.locks.consider t r).2 } s') : Idle t s s' := by
  have hview := fun p => s.view_consider t r p
  refine ⟨⟨h.follows, h.catalog, fun p => ?_, fun {p} hm => h.held ?_, fun {p} hm =>
    h.exclusive ?_⟩, h.lengths, fun {p} ho => h.image ?_⟩
  · refine PageView.Spares.trans ?_ (h.view p)
    rw [hview]
    split
    · exact .withMode fun hu => if_neg (Ne.symm hu)
    · exact .refl t _
  · rw [hview]
    split
    · rw [PageView.mode_granted, if_pos rfl]
      exact Option.some_ne_none _
    · exact hm
  · rw [hview]
    split
    · exact PageView.exclusive_granted hm
    · exact hm
  · rw [hview]
    split
    · exact ho
    · exact ho

theorem Follows.idle_of_silent (hs : s.Follows l) (hq : Silent s s')
    (hk : ∀ p, s.KeepsAt p (· = t) s') : Idle t s s' := by
  have halike := hq.alike hs
  have hs' := hq.follows hs
  have howner : ∀ (p : PageId) {u}, u ≠ t →
      ((s'.view p).owner? = some u ↔ (s.view p).owner? = some u) :=
    fun p u hu => ⟨fun ho => (hk p).cache.owner ho,
      fun ho => (Cache.owner?_congr ((hk p).cache.spared hu ho)).trans ho⟩
  refine ⟨⟨⟨l, hs'⟩, halike.catalog,
    fun p => .of_alike (halike.view p) (hs.view p) (hs'.view p) (howner p), fun {p} hm => ?_,
    fun {p} hm => ?_⟩, halike.outside.sameLengths, fun {p} ho => ?_⟩
  · rw [(halike.view p).mode]
    exact hm
  · rw [(halike.view p).mode]
    exact hm
  · have hsettled := (halike.view p).settled (PageView.Agrees.openTo_of_forall_not ho (t := t))
    have ho' : (s'.view p).owner? ≠ some t :=
      fun hown => ho t (((halike.view p).owns t).1 (Or.inl hown))
    rwa [PageView.settled_of_ne ho', PageView.settled_of_ne fun hown => ho t (Or.inl hown)]
      at hsettled

/-- A page that is fetched is taken when it has been seen to. -/
theorem Idle.take (h : Idle t s s₁) (hs₁ : s₁.Follows l)
    (hm : mode = .exclusive → s₁.locks.modeOf? id t = some .exclusive)
    (hp : s₁.cache.page? id = some page) : Idle t s (s₁.take t id mode) := by
  have htaken := hs₁.taken hm hp
  refine ⟨⟨⟨_, htaken⟩, h.catalog, fun p => (h.view p).trans ?_, h.held, h.exclusive⟩, h.lengths,
    fun {p} ho => Eq.trans ?_ (h.image ho)⟩
  · cases mode with
    | shared =>
        rw [view_take_shared]
        exact .refl t _
    | exclusive =>
        have hagrees := htaken.view p
        rw [view_take] at hagrees ⊢
        split
        · rename_i he
          subst he
          have hc : (s₁.view id).copy = some page := hp
          rw [if_pos rfl, hc, Option.map_some] at hagrees
          rw [hc, Option.map_some]
          exact .take (hs₁.view id) hagrees hc (hm rfl)
        · exact .refl t _
  · rw [view_take]
    split
    · rfl
    · rfl

/-- A fetch does nothing else, whether it fails or not. -/
theorem Follows.idle_fetch (hs : s.Follows l) (hf : s.catalog.file id.table = .ok f)
    (hm : mode = .exclusive → s.locks.modeOf? id t = some .exclusive)
    (ho : (s.view id).OpenTo t) :
    Idle t s (s.fetch t f id mode).2 ∧
      (s.fetch t f id mode).2.locks = s.locks ∧
        ∀ frame, (s.fetch t f id mode).1 = .ok frame →
          (s.fetch t f id mode).2.cache.page? id = some frame.page := by
  have hlocks := s.locks_fetch t f id mode
  rcases hs.fetch_result hf ho mode with ⟨e, -, he, hq⟩ | ⟨_, _, _, -, -, -, -, hok⟩
  · have hk : ∀ p, s.KeepsAt p (· = t) (s.fetch t f id mode).2 := by
      intro p
      rcases fetch_keepsAt (p := p) hs.sound.keyed t f id mode with
        ⟨-, -, hk⟩ | ⟨_, _, _, -, -, -, hok⟩
      · exact hk
      · rw [hok] at he
        cases he
    refine ⟨hs.idle_of_silent hq hk, hlocks, fun frame hok => ?_⟩
    rw [he] at hok
    cases hok
  · rcases s.fetch_eq t f id mode with ⟨e, he⟩ | ⟨e, -, he⟩ | ⟨page, frame, hp, hpage, he⟩
    · rw [hok] at he
      cases he
    · rw [hok] at he
      cases he
    · have hq : Silent s (s.ensureCached t f id).2 := silent_ensureCached hf
      have hidle : Idle t s (s.ensureCached t f id).2 :=
        hs.idle_of_silent hq fun p => keepsAt_ensureCached hs.sound.keyed f id
      refine ⟨?_, hlocks, fun frame' hok' => ?_⟩
      · rw [he]
        exact hidle.take (hq.follows hs) (fun hx => (hq.quiet id).locks ▸ hm hx) hp
      · rw [he] at hok' ⊢
        cases hok'
        exact page?_take_self hp hpage

/-- A file has one more page, with zeros. -/
structure Lengthened (f : TableFile) (s s' : Store) : Prop where
  grown : s.disk.Extends f s'.disk
  blank : (s'.view { table := f.table, number := s.disk.pageCount f }).image =
    some (Bytes.zeros f.pageSize)

end Store

open Store (Harmless Idle Lengthened)

/-! ## Requests for pages -/

/-- When a task goes on after a request for a page, nothing has happened that it does not do
itself. -/
theorem Store.Follows.idle_submit (hs : s.Follows l) (hf : s.catalog.file id.table = .ok source)
    (h : submit s t source { page := id, mode } stage = (some n, s')) :
    ∃ s₁ result, Idle t s s₁ ∧ (s', n) = stage.resume s₁ t result ∧
      ∀ frame, result = .ok frame → s₁.cache.page? id = some frame.page ∧
        (s.locks.consider t { page := id, mode }).1 = .granted ∧
          s₁.locks = (s.locks.consider t { page := id, mode }).2 := by
  cases hv : (s.locks.consider t { page := id, mode }).1 with
  | waits =>
      rw [(submit_of_waits source stage hv).2] at h
      cases h
  | refused =>
      rw [(submit_of_refused source stage hv).2] at h
      cases h
      have hconsidered : Store.Follows l
          { s with locks := (s.locks.consider t { page := id, mode }).2 } := by
        have hmoves := fun p => s.consider_moves t { page := id, mode } p l
        simp only [hv] at hmoves
        exact hs.moves hmoves hs.numbered
      refine ⟨_, .error (.aborted t), (hconsidered.idle_refl t).of_considered, ?_,
        fun frame hok => by cases hok⟩
      exact Prod.ext (stage.resume_error ..).symm rfl
  | granted =>
      rw [(submit_of_granted source stage hv rfl).2] at h
      cases h
      obtain ⟨hidle, hlocks, hcached⟩ := (hs.granted hv).idle_fetch hf
        (fun hx => LockTable.modeOf?_self_of_granted hv hx) (hs.openTo_of_granted hv)
      exact ⟨_, _, hidle.of_considered, rfl, fun frame hok => ⟨hcached frame hok, rfl, hlocks⟩⟩

/-- Why the task has failed. -/
def Answer.failure? : Answer → Option StoreError
  | .inserted _ failure => failure
  | .failed e => some e
  | _ => none

theorem advance_answer (s : Store) (t : TransactionId) (a : Answer) :
    advance s t (.answer a) = (.ended a, s) := by
  rw [advance]

/-! ## Deleting a row -/

/-- A row is not deleted. -/
theorem Request.idle_of_deleteIn (hs : s.Follows l) {record : RecordId} {answer : Answer}
    (h : advance s t (deleteIn record answer) = (.ended a, s')) (ha : answer.failure? = none)
    (he : a.failure? = some e) : Idle t s s' := by
  rw [deleteIn] at h
  cases hf : s.catalog.file record.page.table with
  | error e =>
      rw [advance_of_no_file hf] at h
      rw [Stage.resume, advance_answer] at h
      cases h
      exact hs.idle_refl t
  | ok source =>
      obtain ⟨n, s₁, hsub, hnext⟩ := exists_submit_of_advance hf h
      obtain ⟨s₂, result, hidle, hresume, -⟩ := hs.idle_submit hf hsub
      cases result with
      | error e =>
          cases hresume
          rw [advance_answer] at hnext
          cases hnext
          exact hidle
      | ok frame =>
          rw [Stage.resume] at hresume
          split at hresume
          · cases hresume
            rw [advance_answer] at hnext
            cases hnext
            exact hidle
          · cases hresume
            rw [advance_answer] at hnext
            cases hnext
            rw [ha] at he
            cases he

/-! ## Inserting a row -/

namespace Insertion

/-- The row is not placed in the page that is asked for. -/
theorem idle_of_place (hs : s.Follows l) (hf : s.catalog.file id.table = .ok source)
    (hr : i.rows = []) (h : advance s t (.ask id mode (.place i)) = (.ended a, s'))
    (he : a.failure? = some e) : Idle t s s' := by
  obtain ⟨n, s₁, hsub, hnext⟩ := exists_submit_of_advance hf h
  obtain ⟨s₂, result, hidle, hresume, -⟩ := hs.idle_submit hf hsub
  cases result with
  | error e =>
      cases hresume
      rw [stop, advance_answer] at hnext
      cases hnext
      exact hidle
  | ok frame =>
      rw [Stage.resume, place] at hresume
      split at hresume
      · cases hresume
        rw [stop, advance_answer] at hnext
        cases hnext
        exact hidle
      · -- There is nothing left that could fail.
        rw [hr, begin, stop] at hresume
        cases hresume
        rw [advance_answer] at hnext
        cases hnext
        cases he

/-- A page is put at the end of the file, and the row is not placed there. -/
theorem harmless_of_append (hs : s.Follows l) (hf : s.catalog.file i.file.table = .ok i.file)
    (hr : i.rows = [])
    (h : advance { s with disk := (s.disk.append i.file).2 } t
      (.ask { table := i.file.table, number := (s.disk.append i.file).1 } .exclusive (.place i)) =
        (.ended a, s'))
    (he : a.failure? = some e) (hn : ∀ p, s'.NumberedAt p) :
    Harmless t s s' ∧ Lengthened i.file s s' := by
  have happended : ∀ p, Store.NumberedAt { s with disk := (s.disk.append i.file).2 } p :=
    fun p => numberedAt_of_advance h (hn p)
  have hunique : ∀ {u g}, s.catalog.file u = .ok g → g.name = i.file.name → g = i.file :=
    hs.sound.catalog.eq_of_name hf
  have hviews := fun p => Store.view_append (f := i.file) (hs.numbered p) fun g hg => hunique hg
  have hadded : Store.Follows l { s with disk := (s.disk.append i.file).2 } :=
    hs.moves (fun p => (Store.quietAt_append fun g hg => hunique hg).moves l) happended
  have hidle := idle_of_place hadded hf hr h he
  have hharmless : Harmless t s { s with disk := (s.disk.append i.file).2 } := by
    refine ⟨⟨l, hadded⟩, rfl, fun p => ?_, id, id⟩
    by_cases hp : s.Appended i.file p
    · obtain ⟨-, himage, hview⟩ := (hviews p).1 hp
      rw [hview]
      exact .append (hs.view p) himage
    · rw [(hviews p).2 hp]
      exact .refl t _
  refine ⟨hharmless.trans hidle.toHarmless,
    (Disk.extends_append (happended ⟨i.file.table, 0⟩ hf)).trans_same hidle.lengths, ?_⟩
  -- Nobody has changed the new page, so that its image stays as it is.
  obtain ⟨-, himage, hview⟩ := (hviews
    { table := i.file.table, number := (s.disk.append i.file).1 }).1 ⟨i.file, hf, rfl, rfl⟩
  have hnobody : ∀ u, ¬ (Store.view { s with disk := (s.disk.append i.file).2 }
      { table := i.file.table, number := (s.disk.append i.file).1 }).Owns u := by
    intro u ho
    rw [hview] at ho
    exact (hs.view _).image_of_owns ho himage
  have hsame := hidle.image hnobody
  rw [hview, PageView.blank, Store.file_view hf] at hsame
  exact hsame

/-- A page that is passed over is as it was. -/
theorem idle_of_passed
    (hv : (s.locks.consider t { page := id, mode := .shared }).1 = .granted)
    (hidle : Idle t s s₁)
    (hlocks : s₁.locks = (s.locks.consider t { page := id, mode := .shared }).2)
    (hs' : s' = if s.locks.holds id t then s₁ else (s₁.releasePage t id).2) : Idle t s s' := by
  have hmodes : ∀ q u, (s'.view q).mode u = (s.view q).mode u := by
    intro q u
    refine Eq.trans ?_ (LockTable.modeOf?_passed hv q u)
    rw [hs', ← hlocks]
    split
    · rfl
    · rfl
  split at hs'
  · subst hs'
    exact hidle
  · rename_i hheld
    subst hs'
    obtain ⟨l', hfollows⟩ := hidle.follows
    -- The page is held in shared mode only, so that nobody misses the lock.
    have hwrote : l'.wrote t id = false := by
      by_contra hw
      rw [Bool.not_eq_false] at hw
      have hm : (s.view id).mode t = none := by
        by_contra hm
        exact hheld (Holders.holds_eq_true_iff.2 hm)
      have hx : s₁.locks.modeOf? id t = some .exclusive := (hfollows.view id).locked hw
      rw [hlocks, LockTable.modeOf?_of_granted hv, if_pos ⟨rfl, rfl⟩,
        show s.locks.modeOf? id t = none from hm] at hx
      cases hx
    have hreleased : Store.Follows l' (s₁.releasePage t id).2 :=
      hfollows.moves (fun p => s₁.releasePage_moves fun he => he ▸ hwrote) hfollows.numbered
    refine ⟨⟨⟨l', hreleased⟩, hidle.catalog, fun p => (hidle.view p).trans ?_, fun {p} hm => ?_,
      fun {p} hm => ?_⟩, hidle.lengths, fun {p} ho => Eq.trans ?_ (hidle.image ho)⟩
    · rw [Store.view_releasePage]
      split
      · exact .withMode fun hu => if_neg (Ne.symm hu)
      · exact .refl t _
    · rw [hmodes]
      exact hm
    · rw [hmodes]
      exact hm
    · rw [Store.view_releasePage]
      split
      · rfl
      · rfl

/-- From some page on, no page is found for the row. -/
theorem harmless_of_search (hs : s.Follows l) (hf : s.catalog.file i.file.table = .ok i.file)
    (hr : i.rows = []) {number count : Nat} (hc : s.disk.pageCount i.file = count)
    (hle : number ≤ count)
    (h : advance (i.search s t number count).1 t (i.search s t number count).2 = (.ended a, s'))
    (he : a.failure? = some e) (hn : ∀ p, s'.NumberedAt p) :
    Harmless t s s' ∧ (s.disk.SameLengths s'.disk ∨ Lengthened i.file s s') := by
  -- The induction is on the number of pages that are still to be looked at.
  obtain ⟨left, rfl⟩ := Nat.exists_eq_add_of_le hle
  induction left generalizing s l number with
  | zero =>
      rw [Nat.add_zero, search, if_neg (Nat.lt_irrefl number)] at h
      obtain ⟨hharmless, hlengthened⟩ := harmless_of_append hs hf hr h he hn
      exact ⟨hharmless, Or.inr hlengthened⟩
  | succ left ih =>
      rw [search, if_pos (Nat.lt_add_of_pos_right left.succ_pos)] at h
      generalize hid : ({ table := i.file.table, number } : PageId) = id at h
      have hsource : s.catalog.file id.table = .ok i.file := by rw [← hid]; exact hf
      obtain ⟨n, s₁, hsub, hnext⟩ := exists_submit_of_advance hsource h
      obtain ⟨s₂, result, hidle, hresume, hgranted⟩ := hs.idle_submit hsource hsub
      obtain ⟨l₂, hs₂⟩ := hidle.follows
      cases result with
      | error e =>
          cases hresume
          rw [stop, advance_answer] at hnext
          cases hnext
          exact ⟨hidle.toHarmless, Or.inl hidle.lengths⟩
      | ok frame =>
          obtain ⟨hcached, hv, hlocks⟩ := hgranted frame rfl
          have hkeyed : frame.page.id = id := hs₂.sound.keyed hcached
          rw [Stage.resume, looked, hkeyed] at hresume
          split at hresume
          · -- There is room, but the row is not placed.
            cases hresume
            have hplace := idle_of_place hs₂ (hidle.catalog ▸ hsource) hr hnext he
            exact ⟨hidle.toHarmless.trans hplace.toHarmless,
              Or.inl (hidle.lengths.trans hplace.lengths)⟩
          · -- The page is full, and the next one is looked at.
            generalize hs₃ : (if s.locks.holds id t then s₂ else (s₂.releasePage t id).2) = s₃
              at hresume
            have hpassed := idle_of_passed hv hidle hlocks hs₃.symm
            obtain ⟨l₃, hfollows⟩ := hpassed.follows
            have hcount := hpassed.lengths.pageCount_eq i.file
            rw [Prod.ext_iff] at hresume
            obtain ⟨rfl, rfl⟩ := hresume
            have hnumbers : number + (left + 1) = number + 1 + left := by omega
            obtain ⟨hharmless, hfiles⟩ := ih hfollows (hpassed.catalog ▸ hf)
              (by rw [hcount, hc, hnumbers]) (by omega) (hnumbers ▸ hnext)
            refine ⟨hpassed.toHarmless.trans hharmless, hfiles.imp hpassed.lengths.trans ?_⟩
            rintro ⟨hgrown, hblank⟩
            exact ⟨hpassed.lengths.extends hgrown, hcount ▸ hblank⟩

/-- A row is not inserted. -/
theorem harmless_of_begin (hs : s.Follows l) {table : TableId} {schema : Schema}
    {fields : List Field}
    (h : advance (begin s t table schema [] [fields]).1 t (begin s t table schema [] [fields]).2 =
      (.ended a, s'))
    (he : a.failure? = some e) (hn : ∀ p, s'.NumberedAt p) :
    Harmless t s s' ∧ (s.disk.SameLengths s'.disk ∨
      ∃ f, s.catalog.file table = .ok f ∧ Lengthened f s s') := by
  have hnothing : ∀ {n : Next} {b : Answer}, n = .answer b → advance s t n = (.ended a, s') →
      Harmless t s s' ∧ (s.disk.SameLengths s'.disk ∨
        ∃ f, s.catalog.file table = .ok f ∧ Lengthened f s s') := by
    rintro _ b rfl h
    rw [advance_answer] at h
    cases h
    exact ⟨(hs.idle_refl t).toHarmless, Or.inl (.refl _)⟩
  rw [begin] at h
  split at h
  · exact hnothing rfl h
  · split at h
    · exact hnothing rfl h
    · rename_i f hf
      split at h
      · have hlisted : s.catalog.file f.table = .ok f := by
          rw [hs.sound.catalog.table hf]
          exact hf
        obtain ⟨hharmless, hfiles⟩ := harmless_of_search hs hlisted rfl rfl (Nat.zero_le _) h he hn
        exact ⟨hharmless, hfiles.imp_right fun hl => ⟨f, hf, hl⟩⟩
      · exact hnothing rfl h

end Insertion

/-! ## Requests that fail -/

/-- A request to insert or to delete one row. -/
inductive Request.Single : Request → Prop
  | insert (table : TableId) (schema : Option Schema) (fields : List Field) :
      Single (.insert table schema [fields])
  | delete (record : Option RecordId) : Single (.delete record)
  | deleteFrom (table : TableId) (record : Option RecordId) : Single (.deleteFrom table record)

/-- The request is one for a row in a table, and the file of the table is lengthened. -/
def Request.Lengthens (request : Request) (s s' : Store) : Prop :=
  ∃ table schema fields f, request = .insert table schema [fields] ∧
    s.catalog.file table = .ok f ∧ Lengthened f s s'

/-- A request of one row that fails is harmless. -/
theorem Request.Single.harmless {request : Request} (hr : request.Single) (hs : s.Follows l)
    (h : advance (request.start s t).1 t (request.start s t).2 = (.ended a, s'))
    (he : a.failure? = some e) (hn : ∀ p, s'.NumberedAt p) :
    Harmless t s s' ∧ (s.disk.SameLengths s'.disk ∨ request.Lengthens s s') := by
  have hidle : Idle t s s' →
      Harmless t s s' ∧ (s.disk.SameLengths s'.disk ∨ request.Lengthens s s') :=
    fun hidle => ⟨hidle.toHarmless, Or.inl hidle.lengths⟩
  have hended : ∀ {b : Answer}, advance s t (.answer b) = (.ended a, s') → Idle t s s' := by
    intro b h
    rw [advance_answer] at h
    cases h
    exact hs.idle_refl t
  cases hr with
  | insert table schema? fields =>
      have hbegin : ∀ {schema : Schema},
          advance (Insertion.begin s t table schema [] [fields]).1 t
            (Insertion.begin s t table schema [] [fields]).2 = (.ended a, s') →
          Harmless t s s' ∧ (s.disk.SameLengths s'.disk ∨
            Request.Lengthens (.insert table schema? [fields]) s s') := by
        intro schema h
        obtain ⟨hharmless, hfiles⟩ := Insertion.harmless_of_begin hs h he hn
        exact ⟨hharmless, hfiles.imp_right fun ⟨f, hf, hl⟩ => ⟨_, _, _, f, rfl, hf, hl⟩⟩
      cases schema? with
      | some schema => exact hbegin h
      | none =>
          rw [start] at h
          split at h
          · exact hidle (hended h)
          · exact hbegin h
  | delete record =>
      cases record with
      | none => exact hidle (hended h)
      | some record =>
          rw [start] at h
          split at h
          · exact hidle (hended h)
          · exact hidle (idle_of_deleteIn hs h rfl he)
  | deleteFrom table record =>
      rw [start] at h
      split at h
      · exact hidle (hended h)
      · split at h
        · exact hidle (hended h)
        · split at h
          · exact hidle (idle_of_deleteIn hs h rfl he)
          · exact hidle (hended h)

namespace Store

/-- What a transaction leaves as it is: what the pages hold, and would hold if someone was aborted,
the locks and the changed pages of others, and its own locks. -/
structure Spares (t : TransactionId) (s s' : Store) : Prop where
  contents : SameContents s s'
  restored : ∀ u, SameContents (s.abort u).2 (s'.abort u).2
  modes : ∀ {p u}, u ≠ t → (s'.view p).mode u = (s.view p).mode u
  owners : ∀ {p u}, u ≠ t → ((s'.view p).owner? = some u ↔ (s.view p).owner? = some u)
  held : ∀ {p}, (s.view p).mode t ≠ none → (s'.view p).mode t ≠ none
  exclusive : ∀ {p}, (s.view p).mode t = some .exclusive → (s'.view p).mode t = some .exclusive

theorem Harmless.spares (h : Harmless t s s') (hs : s.Follows l) : Spares t s s' := by
  obtain ⟨l', hs'⟩ := h.follows
  refine ⟨fun p => (h.view p).content, fun u p => ?_, (h.view _).mode, (h.view _).owner, h.held,
    h.exclusive⟩
  obtain ⟨-, -, -, -, hview⟩ := hs.abort_frame u
  obtain ⟨-, -, -, -, hview'⟩ := hs'.abort_frame u
  rw [hview, hview']
  exact (h.view p).restored u

end Store

/-! ## Runs -/

namespace Traffic

variable {s₀ : Store} {w : Traffic} {history : List Event} {grips : List (TransactionId × Handle)}
  {free : Cache → Handle → Prop}

/-- A request to insert or to delete one row that fails without having waited leaves everything as
it was for everybody, and only a row that is not inserted may leave a new page of zeros at the
end of its file.  In the run before, tables are only added, and no lock is released early by a
transaction that has fetched the page for writing.  Every table has fewer than `2 ^ 32` pages, also
with a new one. -/
theorem spares_of_failure (h₀ : Fresh s₀) (h : HandleRun Secured free s₀ history w grips)
    {request : Request} (hr : request.Single)
    (ha : advance (request.start w.store t).1 t (request.start w.store t).2 = (.ended a, s'))
    (he : a.failure? = some e) (hn : ∀ p, s'.NumberedAt p) :
    w.store.Spares t s' ∧
      (w.store.disk.SameLengths s'.disk ∨ request.Lengthens w.store s') := by
  have hfollows := follows_of_handleRun h₀ h fun p =>
    (request.steady_start w.store t).toGrew.numberedAt (numberedAt_of_advance ha (hn p))
  obtain ⟨hharmless, hfiles⟩ := hr.harmless hfollows ha he hn
  exact ⟨hharmless.spares hfollows, hfiles⟩

/-! ### Small stores -/

namespace Small

/-- A transaction has deleted two rows, so that the cache is full of pages that are its own. -/
def filled : List Move :=
  [.start ⟨0⟩ (.delete (record 0)), .resume ⟨0⟩, .start ⟨0⟩ (.delete (record 1)), .resume ⟨0⟩]

end Small

/-- Another transaction then finds no room for the third page. -/
theorem spares_of_failure_small :
    ∃ s', advance (Request.start (Small.after Small.filled).2.store ⟨1⟩
          (.delete (Small.record 2))).1 ⟨1⟩
        (Request.start (Small.after Small.filled).2.store ⟨1⟩ (.delete (Small.record 2))).2 =
          (.ended (.failed .noEvictablePage), s') ∧
      (Small.after Small.filled).2.store.Spares ⟨1⟩ s' ∧
        (s'.view (Small.page 2)).mode ⟨1⟩ = some .exclusive := by
  have hmoves : ∀ move ∈ Small.filled, ∀ l w w', Secured l w move w' := by
    simp [Small.filled, Secured, Guarded, Sealed]
  have hcomes : ∃ r ∈ Small.comesOf (Small.after Small.filled).2 ⟨1⟩ (.delete (Small.record 2)),
      r.1 = .failed .noEvictablePage ∧ r.2.catalog = Small.store.catalog ∧
        (r.2.disk.contents Small.file).length / 5 < 4294967296 ∧
          (r.2.view (Small.page 2)).mode ⟨1⟩ = some .exclusive := by
    decide +kernel
  obtain ⟨⟨a, s'⟩, hcomes, rfl, hcatalog, hlength, hmode⟩ := hcomes
  have ha := Small.advance_of_comesOf hcomes
  have hspares := spares_of_failure Small.fresh
    (@handleRun_comesTo Small.store Secured (fun _ _ => True) Small.filled hmoves
      (by decide +kernel))
    (.delete _) ha rfl (Small.numberedAt hcatalog hlength)
  exact ⟨s', ha, hspares.1, hmode⟩

namespace Small

/-- A transaction deletes a row, and releases the page early. -/
def releasedEarly : Traffic :=
  ({ store } : Traffic).comesTo
    [.start ⟨0⟩ (.delete (record 0)), .resume ⟨0⟩, .release ⟨0⟩ (Small.page 0)]

end Small

/-- If a page is released early, another transaction that does not find a row there takes the page
over, and the deleted row does not come back when the first transaction is aborted.  If the copy is
changed later through a handle, a request that fails on a page of another table makes it leave the
cache, and the page holds something else. -/
theorem not_spares_small :
    (Fresh Small.store ∧ Reached Small.store Small.releasedEarly ∧
      ∃ e s', advance (Request.start Small.releasedEarly.store ⟨1⟩ (.delete (Small.record 0))).1 ⟨1⟩
          (Request.start Small.releasedEarly.store ⟨1⟩ (.delete (Small.record 0))).2 =
            (.ended (.failed e), s') ∧
        (Small.releasedEarly.store.view (Small.page 0)).owner? = some ⟨0⟩ ∧
          (s'.view (Small.page 0)).owner? = some ⟨1⟩ ∧
            ((s'.abort ⟨0⟩).2.view (Small.page 0)).content ≠
              ((Small.releasedEarly.store.abort ⟨0⟩).2.view (Small.page 0)).content) ∧
      Fresh Small.tight ∧ Reached Small.tight Small.deletedLate ∧
        ∃ e s', advance (Request.start Small.deletedLate.store ⟨2⟩
              (.delete (some { page := { table := ⟨2⟩, number := 0 }, slot := 0 }))).1 ⟨2⟩
            (Request.start Small.deletedLate.store ⟨2⟩
              (.delete (some { page := { table := ⟨2⟩, number := 0 }, slot := 0 }))).2 =
              (.ended (.failed e), s') ∧
          (s'.view (Small.page 0)).content ≠
            (Small.deletedLate.store.view (Small.page 0)).content := by
  refine ⟨⟨Small.fresh, (Reached.start _).comesTo _, ?_⟩, Small.fresh_tight,
    Small.reached_deletedLate, ?_⟩
  · have hcomes : ∃ r ∈ Small.comesOf Small.releasedEarly ⟨1⟩ (.delete (Small.record 0)),
        r.1 = .failed (.recordNotFound { page := Small.page 0, slot := 0 }) ∧
          (Small.releasedEarly.store.view (Small.page 0)).owner? = some ⟨0⟩ ∧
            (r.2.view (Small.page 0)).owner? = some ⟨1⟩ ∧
              ((r.2.abort ⟨0⟩).2.view (Small.page 0)).content ≠
                ((Small.releasedEarly.store.abort ⟨0⟩).2.view (Small.page 0)).content := by
      decide +kernel
    obtain ⟨⟨a, s'⟩, hcomes, rfl, hspared⟩ := hcomes
    exact ⟨_, s', Small.advance_of_comesOf hcomes, hspared⟩
  · have hcomes : ∃ r ∈ Small.comesOf Small.deletedLate ⟨2⟩
          (.delete (some { page := { table := ⟨2⟩, number := 0 }, slot := 0 })),
        r.1 = .failed (.pageNotFound { table := ⟨2⟩, number := 0 }) ∧
          (r.2.view (Small.page 0)).content ≠
            (Small.deletedLate.store.view (Small.page 0)).content := by
      decide +kernel
    obtain ⟨⟨a, s'⟩, hcomes, rfl, hcontent⟩ := hcomes
    exact ⟨_, s', Small.advance_of_comesOf hcomes, hcontent⟩

end Traffic

end PagedStore
