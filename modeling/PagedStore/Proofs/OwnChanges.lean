import PagedStore.Proofs.Replay

/-!
# What an owner makes of a page

Who holds a page in exclusive mode finds there what it found when it was granted the lock,
with its own changes after it (`PageView.Develops`).  This is so whether or not commits have
failed, since nobody else changes the page in the meantime.

Every turn keeps this, if the page agrees with the ledger (`PageView.Develops.turns`).  So
after the commit of a transaction the file has what the transaction has made of the page
(`PageView.Develops.kept_committed`).
-/

namespace PagedStore.PageView

variable {l l' : Ledger} {v v' : PageView} {t u : TransactionId}

/-- What a transaction found on the page when it was granted its exclusive lock. -/
def foundBy (v : PageView) (l : Ledger) (t : TransactionId) : Option Content :=
  v.shown ((l.found t v.id).or v.blank)

theorem foundBy_congr (hid : v'.id = v.id) (hf : v'.file = v.file)
    (hfound : l'.found t v.id = l.found t v.id) : v'.foundBy l' t = v.foundBy l t := by
  rw [foundBy, foundBy, shown, shown, blank, blank, hid, hf, hfound]

/-- The file of the page shows what a transaction found there with all its changes after
it. -/
structure Kept (l : Ledger) (t : TransactionId) (v : PageView) : Prop where
  exact : v.shown v.image = (v.foundBy l t).map (replay v.id (l.pending t))
  readable : v.shown v.image ≠ none

instance (l : Ledger) (t : TransactionId) (v : PageView) : Decidable (Kept l t v) :=
  decidable_of_iff (_ ∧ _) ⟨fun h => ⟨h.1, h.2⟩, fun h => ⟨h.exact, h.readable⟩⟩

/-- The page holds what its exclusive holder has made of it. -/
structure Develops (l : Ledger) (v : PageView) : Prop where
  /-- The holder finds its own changes after what it found at first. -/
  current : ∀ {t}, v.mode t = some .exclusive →
    v.content = (v.foundBy l t).map (replay v.id (l.pending t))
  /-- Who has changed the page has fetched it for writing. -/
  pending : ∀ {t change}, change ∈ l.pending t → change.page = v.id → l.wrote t v.id = true
  /-- A page that was fetched for writing is in the file. -/
  image : ∀ {t}, l.wrote t v.id = true → v.image ≠ none
  /-- A page that was fetched for writing can be read. -/
  readable : ∀ {t}, l.wrote t v.id = true → v.content ≠ none

namespace Develops

/-! ## General cases -/

/-- The page shows the same, and nobody else holds it. -/
theorem same (h : Develops l v) (hid : v'.id = v.id) (hf : v'.file = v.file)
    (hm : ∀ {t}, v'.mode t = some .exclusive → v.mode t = some .exclusive)
    (hc : v'.content = v.content) (hi : v.image ≠ none → v'.image ≠ none) : Develops l v' where
  current ht := by
    rw [hc, h.current (hm ht), foundBy_congr hid hf rfl, hid]
  pending hx he := by
    rw [hid] at he ⊢
    exact h.pending hx he
  image hw := hi (h.image (hid ▸ hw))
  readable hw := by
    rw [hc]
    exact h.readable (hid ▸ hw)

/-- The ledger says the same to those who hold the page. -/
theorem congr (h : Develops l v)
    (hfound : ∀ {t}, v.mode t = some .exclusive → l'.found t v.id = l.found t v.id)
    (hr : ∀ {t}, v.mode t = some .exclusive → ∀ c,
      replay v.id (l'.pending t) c = replay v.id (l.pending t) c)
    (hp : ∀ {t change}, change ∈ l'.pending t → change.page = v.id → l'.wrote t v.id = true)
    (hw : ∀ {t}, l'.wrote t v.id = true → l.wrote t v.id = true) : Develops l' v where
  current ht := by
    rw [h.current ht, foundBy_congr rfl rfl (hfound ht), funext (hr ht)]
  pending := hp
  image ht := h.image (hw ht)
  readable ht := h.readable (hw ht)

/-- Nobody has anything to do with the page. -/
theorem of_forall_not (hm : ∀ t, v.mode t ≠ some .exclusive)
    (hp : ∀ {t change}, change ∈ l.pending t → change.page = v.id → False)
    (hw : ∀ t, l.wrote t v.id = false) : Develops l v where
  current ht := absurd ht (hm _)
  pending hx he := (hp hx he).elim
  image ht := by
    rw [hw] at ht
    cases ht
  readable ht := by
    rw [hw] at ht
    cases ht

/-- Who has not fetched the page for writing has not changed it. -/
theorem replay_of_not_wrote (h : Develops l v) (hw : l.wrote t v.id = false) (c : Content) :
    replay v.id (l.pending t) c = c := by
  refine replay_of_forall_ne (fun change hx he => ?_) c
  rw [h.pending hx he] at hw
  cases hw

/-! ## Turns that leave the contents -/

theorem load (h : Develops l v) {f : TableFile} {image : Bytes} {page : Page}
    (hc : v.copy = none) (hf : v.file = some f) (hi : v.image = some image)
    (hd : Page.decode v.id f.schema f.pageSize image = .ok page) :
    Develops l { v with copy := some page } := by
  refine h.same rfl rfl (fun hm => hm) ?_ (fun hn => hn)
  rw [content_of_none hc, present_of_image hi, shown_eq hf hd]
  rfl

/-- A copy that holds what is in the file leaves the cache. -/
theorem uncached (h : Develops l v) (ha : Agrees l v) {page : Page} (hc : v.copy = some page)
    (hs : v.shown v.image = some page.content) : Develops l { v with copy := none } :=
  h.same rfl rfl (fun hm => hm) (ha.content_uncached hc hs) (fun hn => hn)

theorem write (h : Develops l v) {page : Page} (hc : v.copy = some page) :
    Develops l (v.written t page) := by
  refine h.same rfl rfl (fun hm => hm) ?_ fun _ => by simp [written]
  rw [content_of_copy hc]
  exact content_of_copy hc

theorem append (h : Develops l v) (ha : Agrees l v) (hi : v.image = none) :
    Develops l { v with image := v.blank } :=
  h.same rfl rfl (fun hm => hm) (ha.content_appended hi) fun hn => absurd hi hn

theorem saved (h : Develops l v) (ha : Agrees l v) : Develops l (v.saved t) := by
  by_cases ho : v.owner? = some t
  · refine h.same id_saved file_saved (fun hm => by rwa [mode_saved] at hm)
      (ha.content_saved (ha.openTo_of_owns (Or.inl ho))).1 fun _ => ?_
    obtain ⟨page, hc, hown⟩ := Option.bind_eq_some_iff.1 ho
    rw [saved_of_owner hc hown]
    simp
  · rw [saved_of_ne ho]
    exact h

/-! ## Locks -/

theorem grant (h : Develops l v) (ha : Agrees l v) {mode : LockMode}
    (hx : mode = .exclusive → ∀ u, u ≠ t → v.mode u = none) :
    Develops (l.after (v.lockEvents t mode)) (v.granted t mode) := by
  by_cases he : mode = .exclusive ∧ v.mode t ≠ some .exclusive
  · obtain ⟨rfl, hne⟩ := he
    have hother : ∀ {u}, (v.granted t .exclusive).mode u = some .exclusive → u = t := by
      intro u hu
      by_contra hut
      rw [mode_granted, if_neg (Ne.symm hut), hx rfl u hut] at hu
      cases hu
    -- Nobody has held the page in exclusive mode, so nobody has changed it.
    have hnobody : ∀ u, v.mode u ≠ some .exclusive := by
      intro u hu
      by_cases hut : u = t
      · exact hne (hut ▸ hu)
      · rw [hx rfl u hut] at hu
        cases hu
    have hw : ∀ u, l.wrote u v.id = false := by
      intro u
      by_contra hw
      exact hnobody u (ha.locked (by simpa using hw))
    have hunowned : v.owner? = none := by
      by_contra ho
      obtain ⟨u, hu⟩ := Option.ne_none_iff_exists'.1 ho
      exact hnobody u (ha.mode_of_owns (Or.inl hu))
    have hl : l.after (v.lockEvents t .exclusive) = l.record (.locked t v.id v.image) := by
      rw [lockEvents, if_pos ⟨rfl, hne⟩]
      rfl
    have hfound : (l.record (.locked t v.id v.image)).found t v.id = v.image := by
      simp only [Ledger.record, and_self, if_true]
    rw [hl]
    exact {
      current := by
        intro u hu
        obtain rfl := hother hu
        have hr : replay v.id (l.pending u) = fun c => c :=
          funext fun c => h.replay_of_not_wrote (hw u) c
        show v.content = (v.foundBy _ u).map (replay v.id (l.pending u))
        rw [ha.content_of_unowned hunowned, foundBy, hfound, hr]
        exact Option.map_id'.symm
      pending := h.pending
      image := h.image
      readable := h.readable }
  · have hl : l.after (v.lockEvents t mode) = l := by
      rw [lockEvents, if_neg he]
      rfl
    rw [hl]
    exact h.same rfl rfl (fun hu => exclusive_of_granted he hu) rfl fun hi => hi

theorem release (h : Develops l v) : Develops l (v.released t) := by
  refine h.same rfl rfl (fun hm => ?_) rfl fun hi => hi
  rw [mode_released] at hm
  exact (Option.ite_none_left_eq_some.1 hm).2

/-! ## The owner -/

theorem take (h : Develops l v) (ha : Agrees l v) {page : Page} (hc : v.copy = some page)
    (copy : Page) :
    Develops (l.record (.fetched t v.id .exclusive copy))
      { v with copy := some (page.withOwner (some t)) } where
  current hm := by
    have hcurrent := h.current hm
    rw [content_of_copy hc] at hcurrent
    exact hcurrent
  pending hx he := by simp [Ledger.record, h.pending hx he]
  image _ := (ha.fits hc).image
  readable _ := by simp [content]

theorem change (h : Develops l v) (ha : Agrees l v) {page page' : Page} {change : Change}
    (hc : v.copy = some page) (ho : page.owner = some t) (hp : change.Made page page') :
    Develops (l.record (.changed t change)) { v with copy := some page' } := by
  have hpage : change.page = v.id := hp.page_eq.trans (ha.fits hc).id
  have hown : v.Owns t := Or.inl (by rw [owner?_of_copy hc, ho])
  have hm := ha.mode_of_owns hown
  have hpending : ∀ u, (l.record (.changed t change)).pending u =
      if u = t then l.pending u ++ [change] else l.pending u := fun _ => rfl
  exact {
    current := by
      intro u hu
      have hu : v.mode u = some .exclusive := hu
      obtain rfl : u = t := by
        by_contra hne
        rw [ha.alone hm hne] at hu
        cases hu
      have hcurrent := h.current hu
      rw [content_of_copy hc] at hcurrent
      obtain ⟨c, hfound, hcontent⟩ := Option.map_eq_some_iff.1 hcurrent.symm
      show some page'.content = (v.foundBy l u).map _
      rw [hfound, Option.map_some, hpending, if_pos rfl, replay_append, hcontent, hp.content]
      show _ = some (if change.page = v.id then change.apply page.content else page.content)
      rw [if_pos hpage]
    pending := by
      intro u x hx he
      rw [hpending] at hx
      split at hx
      · rename_i hu
        rw [hu]
        exact ha.wrote hown
      · exact h.pending hx he
    image := h.image
    readable := fun _ => by simp [content] }

/-! ## The end of a transaction -/

/-- A transaction that has ended holds the page no longer. -/
theorem clear (h : Develops l v) (hp : l'.pending = (l.close t).pending)
    (hw : l'.wrote = (l.close t).wrote) (hfound : l'.found = l.found) :
    Develops l' (v.cleared t) := by
  have hne : ∀ {u}, (v.cleared t).mode u = some .exclusive →
      u ≠ t ∧ v.mode u = some .exclusive := by
    intro u hu
    rw [mode_cleared] at hu
    obtain ⟨htu, hm⟩ := Option.ite_none_left_eq_some.1 hu
    exact ⟨Ne.symm htu, hm⟩
  have hv : Develops l (v.cleared t) :=
    h.same rfl rfl (fun hm => (hne hm).2) rfl fun hi => hi
  refine hv.congr (fun _ => by rw [hfound]) (fun {u} hu c => ?_) (fun {u change} hx he => ?_)
    fun {u} hwu => ?_
  · rw [hp]
    show replay _ (if u = t then [] else l.pending u) c = _
    rw [if_neg (hne hu).1]
  · rw [hp] at hx
    have hx : change ∈ if u = t then [] else l.pending u := hx
    rw [hw, Ledger.wrote_close]
    split at hx
    · cases hx
    · rename_i hut
      exact ⟨hut, h.pending hx he⟩
  · rw [hw, Ledger.wrote_close] at hwu
    exact hwu.2

theorem commit (h : Develops l v) (ha : Agrees l v) :
    Develops (l.record (.committed t)) (v.committed t) := (h.saved ha).clear rfl rfl rfl

theorem abort (h : Develops l v) (ha : Agrees l v) :
    Develops (l.record (.aborted t)) (v.aborted t) := by
  rw [aborted]
  by_cases ho : v.Owns t
  · -- The owner was the only one to hold the page, so nobody holds it now.
    have hnot : ∀ {u}, u ≠ t → v.mode u ≠ some .exclusive := by
      intro u hu hm
      rw [ha.alone (ha.mode_of_owns ho) hu] at hm
      cases hm
    have hw : ∀ u, (l.close t).wrote u v.id = false := by
      intro u
      by_contra hne
      obtain ⟨hut, hwu⟩ := Ledger.wrote_close.1 (by simpa using hne)
      exact hnot hut (ha.locked hwu)
    refine of_forall_not (fun u hm => ?_) (fun {u change} hx he => ?_) hw
    · rw [mode_cleared] at hm
      obtain ⟨htu, hm⟩ := Option.ite_none_left_eq_some.1 hm
      exact hnot (Ne.symm htu) hm
    · have hx : change ∈ if u = t then [] else l.pending u := hx
      split at hx
      · cases hx
      · rename_i hut
        exact hnot hut (ha.locked (h.pending hx he))
  · have hk : v.kept t = none := by
      by_contra hk
      exact ho (Or.inr hk)
    rw [if_neg ho, hk]
    exact h.clear rfl rfl rfl

/-! ## Turns -/

/-- A turn leaves the page as its exclusive holder has made it. -/
theorem turn {a b : Ledger × PageView} (hs : Turn a b) (ha : Agrees a.1 a.2)
    (h : Develops a.1 a.2) : Develops b.1 b.2 := by
  cases hs with
  | elsewhere hl =>
      refine h.congr (fun _ => hl.found _) (fun _ => hl.pending _) (fun hx he => ?_) fun hw => ?_
      · rw [hl.wrote]
        exact h.pending (hl.touched _ _ hx he) he
      · rwa [hl.wrote] at hw
  | load hc hf hi hd => exact h.load hc hf hi hd
  | drop hc ho => exact h.uncached ha hc (ha.clean hc ho)
  | dropWritten hc ho _ hi => exact h.uncached ha hc (by rw [hi, ha.shown_encode hc])
  | write hc => exact h.write hc
  | append _ hi => exact h.append ha hi
  | grant t mode hx => exact h.grant ha hx
  | release t => exact h.release
  | take copy _ hc => exact h.take ha hc copy
  | change hc ho hp => exact h.change ha hc ho hp
  | commit t => exact h.commit ha
  | fail t => exact h.congr (fun _ => rfl) (fun _ _ => rfl) h.pending fun hw => hw
  | failLate t =>
      have hv := h.saved ha (t := t)
      exact hv.congr (fun _ => rfl) (fun _ _ => rfl) hv.pending fun hw => hw
  | abort t => exact h.abort ha

theorem turns {a b : Ledger × PageView} (hs : Turns a b) (ha : Agrees a.1 a.2)
    (h : Develops a.1 a.2) : Develops b.1 b.2 := by
  induction hs with
  | refl => exact h
  | tail hm hs ih => exact ih.turn hs (ha.turns hm)

/-- A commit leaves in the file what the transaction has made of the page. -/
theorem kept_committed (h : Develops l v) (ha : Agrees l v) (hw : l.wrote t v.id = true) :
    Kept l t (v.committed t) := by
  have hm := ha.locked hw
  obtain ⟨hsame, hshown⟩ := ha.content_saved (ha.openTo_of_mode (by rw [hm]; simp))
  obtain ⟨image, hi⟩ : ∃ image, (v.saved t).image = some image :=
    Option.ne_none_iff_exists'.1 ((h.saved ha).image (by rwa [id_saved]))
  have hfile : (v.committed t).shown (v.committed t).image = v.content := by
    rw [← hshown, present_of_image hi]
    show (v.saved t).shown (v.saved t).image = _
    rw [hi]
  have hfound : (v.committed t).foundBy l t = v.foundBy l t :=
    foundBy_congr id_saved file_saved rfl
  have hid : (v.committed t).id = v.id := id_saved
  constructor
  · rw [hfile, h.current hm, hfound, hid]
  · rw [hfile]
    exact h.readable hw

end Develops

end PagedStore.PageView
