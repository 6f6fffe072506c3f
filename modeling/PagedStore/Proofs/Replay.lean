import PagedStore.Proofs.Agreement

/-!
# A page holds what the ledger says

The ledger says what a page should hold: what it held at first, with the changes
of the committed transactions (`Ledger.content`).  As long as no commit fails this is
what the image before an owner shows, or the present image if there is no owner.
The owner finds on the page what the ledger says with its own changes after it
(`PageView.Replays`).

Every turn keeps this, if the page agrees with the ledger and no commit fails
(`PageView.Replays.turns`).
-/

namespace PagedStore.PageView

variable {base : PageId → Option Content} {l l' : Ledger} {v v' : PageView} {t u : TransactionId}

/-- The page holds what the ledger says. -/
structure Replays (base : PageId → Option Content) (l : Ledger) (v : PageView) : Prop where
  /-- Before the only owner the page held what the committed transactions made of it. -/
  before : ∀ {t}, v.OpenTo t → v.shown (v.before t) = l.content base v.id
  /-- The only owner finds its own changes after that. -/
  current : ∀ {t}, v.OpenTo t →
    v.content = (l.content base v.id).map (replay v.id (l.pending t))
  /-- Nobody but the owner has changed the page. -/
  pending : ∀ {t change}, change ∈ l.pending t → change.page = v.id → v.Owns t

/-! ## Copies and images that show the same -/

namespace Agrees

/-- A copy that leaves the cache holds what is in the file. -/
theorem content_uncached (h : Agrees l v) {page : Page} (hc : v.copy = some page)
    (hs : v.shown v.image = some page.content) :
    PageView.content { v with copy := none } = v.content := by
  obtain ⟨image, hi⟩ := Option.ne_none_iff_exists'.1 (h.fits hc).image
  show v.shown v.present = v.content
  rw [content_of_copy hc, present_of_image hi, ← hi, hs]

/-- A new page holds what it held before it was in the file. -/
theorem content_appended (h : Agrees l v) (hi : v.image = none) :
    PageView.content { v with image := v.blank } = v.content := by
  have hc := h.copy_of_no_image hi
  rw [content_of_none hc, content_of_none (v := { v with image := v.blank }) hc,
    present_appended hi]
  rfl

/-- A page without changes in the cache holds what is in the file. -/
theorem content_of_unowned (h : Agrees l v) (ho : v.owner? = none) :
    v.content = v.shown v.present := by
  cases hc : v.copy with
  | none => exact content_of_none hc
  | some page =>
      obtain ⟨image, hi⟩ := Option.ne_none_iff_exists'.1 (h.fits hc).image
      rw [owner?_of_copy hc] at ho
      rw [content_of_copy hc, present_of_image hi, ← hi, h.clean hc ho]

/-- What is written for good is what the page held. -/
theorem content_saved (h : Agrees l v) (ho : v.OpenTo t) :
    (v.saved t).content = v.content ∧ (v.saved t).shown (v.saved t).present = v.content := by
  cases hu : v.owner? with
  | none =>
      rw [saved_of_ne (by rw [hu]; simp)]
      exact ⟨rfl, (h.content_of_unowned hu).symm⟩
  | some u =>
      obtain rfl : u = t := ho u (Or.inl hu)
      obtain ⟨page, hc, hp⟩ := Option.bind_eq_some_iff.1 hu
      rw [content_of_copy hc, saved_of_owner hc hp]
      exact ⟨rfl, h.shown_encode hc⟩

end Agrees

namespace Replays

/-! ## General cases -/

/-- A page without an owner. -/
theorem unowned (ho : ∀ u, ¬ v.Owns u) (hs : v.shown v.present = l.content base v.id)
    (hc : v.content = l.content base v.id)
    (hp : ∀ {t change}, change ∈ l.pending t → change.page ≠ v.id) : Replays base l v where
  before {t} _ := by
    have hk : v.kept t = none := by
      by_contra hk
      exact ho t (Or.inr hk)
    rw [before_of_none hk, hs]
  current {t} _ := by
    have hr : replay v.id (l.pending t) = fun c => c :=
      funext fun c => replay_of_forall_ne (fun _ => hp) c
    rw [hr, hc]
    exact Option.map_id'.symm
  pending hm he := absurd he (hp hm)

/-- The page has the same owners, and shows the same. -/
theorem same (h : Replays base l v) (hid : v'.id = v.id) (ho : ∀ u, v'.Owns u ↔ v.Owns u)
    (hb : ∀ t, v'.OpenTo t → v'.shown (v'.before t) = v.shown (v.before t))
    (hc : v'.content = v.content) : Replays base l v' := by
  have hopen : ∀ {t}, v'.OpenTo t → v.OpenTo t := fun hv u hu => hv u ((ho u).2 hu)
  exact {
    before := fun hv => by rw [hb _ hv, hid, h.before (hopen hv)]
    current := fun hv => by rw [hc, hid, h.current (hopen hv)]
    pending := fun hm he => (ho _).2 (h.pending hm (he.trans hid)) }

/-- The ledger says the same about the page. -/
theorem congr (h : Replays base l v)
    (hc : ∀ c, replay v.id l'.committed c = replay v.id l.committed c)
    (hp : ∀ t c, replay v.id (l'.pending t) c = replay v.id (l.pending t) c)
    (hm : ∀ t, ∀ change ∈ l'.pending t, change.page = v.id → change ∈ l.pending t) :
    Replays base l' v := by
  have hcontent : l'.content base v.id = l.content base v.id := by
    rw [Ledger.content, Ledger.content, funext hc]
  exact {
    before := fun hv => by rw [hcontent, h.before hv]
    current := fun {t} hv => by rw [hcontent, h.current hv, funext (hp t)]
    pending := fun hx he => h.pending (hm _ _ hx he) he }

/-- The owner has changed nothing else than the page, so others have changed nothing on it. -/
theorem not_pending_of_owns (h : Replays base l v) (ha : Agrees l v) (ht : v.Owns t)
    {change : Change} (hu : u ≠ t) (hm : change ∈ l.pending u) : change.page ≠ v.id :=
  fun he => hu (ha.eq_of_owns ht (h.pending hm he))

/-! ## Turns that leave the contents -/

theorem load (h : Replays base l v) {f : TableFile} {image : Bytes} {page : Page}
    (hc : v.copy = none) (hf : v.file = some f) (hi : v.image = some image)
    (hd : Page.decode v.id f.schema f.pageSize image = .ok page) :
    Replays base l { v with copy := some page } := by
  obtain ⟨-, -, -, -, ho, -⟩ := Page.decode_eq_ok hd
  refine h.same rfl (fun _ => owns_load hc ho) (fun _ _ => rfl) ?_
  rw [content_of_none hc, present_of_image hi, shown_eq hf hd]
  rfl

theorem drop (h : Replays base l v) (ha : Agrees l v) {page : Page} (hc : v.copy = some page)
    (ho : page.owner = none) : Replays base l { v with copy := none } := by
  refine h.same rfl (fun _ => owns_uncached ?_) (fun _ _ => rfl)
    (ha.content_uncached hc (ha.clean hc ho))
  intro t ht
  rw [owner?_of_copy hc, ho] at ht
  cases ht

theorem dropWritten (h : Replays base l v) (ha : Agrees l v) {page : Page}
    (hc : v.copy = some page) (ho : page.owner = some t) (hk : v.kept t ≠ none)
    (hi : v.image = some page.encode) : Replays base l { v with copy := none } := by
  refine h.same rfl (fun _ => owns_uncached ?_) (fun _ _ => rfl)
    (ha.content_uncached hc (by rw [hi, ha.shown_encode hc]))
  intro u hu
  rw [owner?_of_copy hc, ho] at hu
  cases hu
  exact hk

theorem write (h : Replays base l v) (ha : Agrees l v) {page : Page} (hc : v.copy = some page)
    (ho : page.owner = some t) : Replays base l (v.written t page) := by
  have hown : v.Owns t := Or.inl (by rw [owner?_of_copy hc, ho])
  refine h.same rfl (fun _ => owns_written hc ho) ?_ ?_
  · intro u hu
    obtain rfl : t = u := hu t ((owns_written hc ho).2 hown)
    have hk : (v.written t page).kept t = (v.kept t).or (some page.beforeImage) := if_pos rfl
    show v.shown ((v.written t page).before t) = _
    cases hkt : v.kept t with
    | some image =>
        rw [before_of_kept hkt, before_of_kept (hk.trans (by rw [hkt]; rfl))]
    | none =>
        have hi : v.image = some page.beforeImage := by
          refine ha.fresh hc fun u hu => ?_
          rw [ho] at hu
          cases hu
          exact hkt
        rw [before_of_none hkt, present_of_image hi,
          before_of_kept (hk.trans (by rw [hkt]; rfl))]
  · rw [content_of_copy hc]
    exact content_of_copy hc

theorem append (h : Replays base l v) (ha : Agrees l v) (hi : v.image = none) :
    Replays base l { v with image := v.blank } := by
  refine h.same rfl (fun _ => owns_congr rfl rfl) (fun t _ => ?_) (ha.content_appended hi)
  show v.shown ((v.kept t).or (PageView.present { v with image := v.blank })) = _
  rw [present_appended hi]
  rfl

theorem grant (h : Replays base l v) (mode : LockMode) :
    Replays base (l.after (v.lockEvents t mode)) (v.granted t mode) := by
  have hv : Replays base l (v.granted t mode) :=
    h.same rfl (fun _ => owns_congr rfl rfl) (fun _ _ => rfl) rfl
  rw [lockEvents]
  split
  · exact hv.congr (fun _ => rfl) (fun _ _ => rfl) fun _ _ hm _ => hm
  · exact hv

theorem release (h : Replays base l v) : Replays base l (v.released t) :=
  h.same rfl (fun _ => owns_congr rfl rfl) (fun _ _ => rfl) rfl

/-! ## The owner -/

theorem take (h : Replays base l v) (ha : Agrees l v) {page : Page}
    (hm : v.mode t = some .exclusive) (hc : v.copy = some page) (copy : Page) :
    Replays base (l.record (.fetched t v.id .exclusive copy))
      { v with copy := some (page.withOwner (some t)) } := by
  have hopen : v.OpenTo t := ha.openTo_of_mode (by rw [hm]; simp)
  have hself : PageView.Owns { v with copy := some (page.withOwner (some t)) } t :=
    (ha.owns_take page hm).2 rfl
  have hv : Replays base l { v with copy := some (page.withOwner (some t)) } :=
    { before := by
        intro u hu
        obtain rfl : t = u := hu t hself
        exact h.before hopen
      current := by
        intro u hu
        obtain rfl : t = u := hu t hself
        have := h.current hopen
        rw [content_of_copy hc] at this
        exact this
      pending := by
        intro u change hx he
        obtain rfl : u = t := ha.eq_of_mode hm (h.pending hx he)
        exact hself }
  exact hv.congr (fun _ => rfl) (fun _ _ => rfl) fun _ _ hx _ => hx

theorem change (h : Replays base l v) (ha : Agrees l v) {page page' : Page} {change : Change}
    (hc : v.copy = some page) (ho : page.owner = some t) (hp : change.Made page page') :
    Replays base (l.record (.changed t change)) { v with copy := some page' } := by
  have howner : page'.owner = page.owner := by rw [hp.same]
  have hpage : change.page = v.id := hp.page_eq.trans (ha.fits hc).id
  have ht : v.Owns t := Or.inl (by rw [owner?_of_copy hc, ho])
  have hself : PageView.Owns { v with copy := some page' } t := (owns_changed hc howner).2 ht
  have hpending : ∀ u, (l.record (.changed t change)).pending u =
      if u = t then l.pending u ++ [change] else l.pending u := fun _ => rfl
  exact {
    before := by
      intro u hu
      obtain rfl : t = u := hu t hself
      exact h.before (ha.openTo_of_owns ht)
    current := by
      intro u hu
      obtain rfl : t = u := hu t hself
      have hcur := h.current (ha.openTo_of_owns ht)
      rw [content_of_copy hc] at hcur
      show some page'.content = (l.content base v.id).map _
      obtain ⟨c, hb, hcontent⟩ := Option.map_eq_some_iff.1 hcur.symm
      rw [hb, Option.map_some, hpending, if_pos rfl, replay_append, hcontent, hp.content]
      show _ = some (if change.page = v.id then change.apply page.content else page.content)
      rw [if_pos hpage]
    pending := by
      intro u x hx he
      refine (owns_changed hc howner).2 ?_
      rw [hpending] at hx
      split at hx
      · rename_i hu
        rw [hu]
        exact ht
      · exact h.pending hx he }

/-! ## The end of a transaction -/

/-- A transaction that does not own the page has ended. -/
theorem clear (h : Replays base l v) (ht : ¬ v.Owns t)
    (hc : ∀ c, replay v.id l'.committed c = replay v.id l.committed c)
    (hp : l'.pending = (l.close t).pending) : Replays base l' (v.cleared t) := by
  have hne : ∀ change ∈ l.pending t, change.page ≠ v.id := fun _ hx he => ht (h.pending hx he)
  have hk : ∀ u, (v.cleared t).kept u = v.kept u := by
    intro u
    by_cases htu : t = u
    · subst htu
      have : v.kept t = none := by
        by_contra hk
        exact ht (Or.inr hk)
      simp [cleared, this]
    · simp [cleared, htu]
  have hv : Replays base l (v.cleared t) := by
    refine h.same rfl (fun u => owns_congr rfl (hk u)) (fun u _ => ?_) rfl
    show v.shown (((v.cleared t).kept u).or v.present) = _
    rw [hk u]
    rfl
  refine hv.congr hc (fun u c => ?_) fun u x hx he => ?_
  · rw [hp]
    show replay v.id (if u = t then [] else l.pending u) c = replay v.id (l.pending u) c
    split
    · rename_i hu
      rw [hu, replay_of_forall_ne hne]
      rfl
    · rfl
  · rw [hp] at hx
    have hx : x ∈ if u = t then [] else l.pending u := hx
    split at hx
    · cases hx
    · exact hx

/-- The owner has ended, and the page holds what the ledger says then. -/
theorem clear_owned (h : Replays base l v) (ha : Agrees l v) (ht : v.Owns t)
    (hid : v'.id = v.id) (ho : v'.owner? = none) (hk : v'.kept = v.kept)
    (hp : l'.pending = (l.close t).pending) (hs : v'.shown v'.present = l'.content base v.id)
    (hc : v'.content = l'.content base v.id) : Replays base l' (v'.cleared t) := by
  refine unowned ?_ (hs.trans (by rw [← hid]; rfl)) (hc.trans (by rw [← hid]; rfl)) ?_
  · intro u hu
    obtain ⟨hne, hu⟩ := (owns_cleared (by rw [ho]; simp)).1 hu
    rcases hu with hu | hu
    · rw [ho] at hu
      cases hu
    · rw [hk] at hu
      exact hne (ha.eq_of_owns (Or.inr hu) ht)
  · intro u x hx
    rw [hp] at hx
    have hx : x ∈ if u = t then [] else l.pending u := hx
    show x.page ≠ v'.id
    rw [hid]
    split at hx
    · cases hx
    · rename_i hu
      exact h.not_pending_of_owns ha ht hu hx

theorem commit (h : Replays base l v) (ha : Agrees l v) :
    Replays base (l.record (.committed t)) (v.committed t) := by
  have hcontent : (l.record (.committed t)).content base v.id =
      (l.content base v.id).map (replay v.id (l.pending t)) := by
    rw [Ledger.content, Ledger.content, Option.map_map]
    exact congrArg (fun f => (base v.id).map f) (funext fun c => replay_append ..)
  by_cases ht : v.Owns t
  · have hopen := ha.openTo_of_owns ht
    obtain ⟨h1, h2⟩ := ha.content_saved hopen
    have howner : (v.saved t).owner? = none := by
      rw [owner?_saved]
      split
      · rfl
      · rename_i hne
        cases hu : v.owner? with
        | none => rfl
        | some u =>
            rw [hu] at hne
            exact absurd (congrArg some (hopen u (Or.inl hu))) hne
    exact h.clear_owned ha ht id_saved howner kept_saved rfl
      (by rw [h2, hcontent, h.current hopen]) (by rw [h1, hcontent, h.current hopen])
  · have hsaved : v.saved t = v := saved_of_ne fun hc => ht (Or.inl hc)
    rw [committed, hsaved]
    refine h.clear ht (fun c => ?_) rfl
    show replay v.id (l.committed ++ l.pending t) c = _
    rw [replay_append, replay_of_forall_ne fun x hx he => ht (h.pending hx he)]

theorem abort (h : Replays base l v) (ha : Agrees l v) :
    Replays base (l.record (.aborted t)) (v.aborted t) := by
  rw [aborted]
  by_cases ht : v.Owns t
  · rw [if_pos ht]
    have hbefore : v.before t = ((v.kept t).or v.image).or v.blank := Option.or_assoc.symm
    have hshown := h.before (ha.openTo_of_owns ht)
    rw [hbefore] at hshown
    exact h.clear_owned ha ht rfl rfl rfl rfl hshown hshown
  · have hk : v.kept t = none := by
      by_contra hk
      exact ht (Or.inr hk)
    rw [if_neg ht, hk]
    exact h.clear ht (fun _ => rfl) rfl

/-! ## Turns -/

theorem broken_of_turn {a b : Ledger × PageView} (h : Turn a b) (hb : b.1.broken = false) :
    a.1.broken = false := by
  cases h with
  | elsewhere hs => rwa [hs.broken] at hb
  | grant t mode =>
      rw [lockEvents] at hb
      split at hb <;> exact hb
  | fail | failLate => cases hb
  | _ => exact hb

/-- A turn keeps what the page holds in line with the ledger, unless a commit fails. -/
theorem turn {a b : Ledger × PageView} (h : Turn a b) (hb : b.1.broken = false)
    (ha : Agrees a.1 a.2) (hr : Replays base a.1 a.2) : Replays base b.1 b.2 := by
  cases h with
  | elsewhere hs => exact hr.congr hs.committed hs.pending hs.touched
  | load hc hf hi hd => exact hr.load hc hf hi hd
  | drop hc ho => exact hr.drop ha hc ho
  | dropWritten hc ho hk hi => exact hr.dropWritten ha hc ho hk hi
  | write hc ho => exact hr.write ha hc ho
  | append _ hi => exact hr.append ha hi
  | grant t mode => exact hr.grant mode
  | release t => exact hr.release
  | take copy hm hc => exact hr.take ha hm hc copy
  | change hc ho hp => exact hr.change ha hc ho hp
  | commit t => exact hr.commit ha
  | fail | failLate => cases hb
  | abort t => exact hr.abort ha

theorem turns {a b : Ledger × PageView} (h : Turns a b) (hb : b.1.broken = false)
    (ha : Agrees a.1 a.2) (hr : Replays base a.1 a.2) : Replays base b.1 b.2 := by
  induction h with
  | refl => exact hr
  | tail hm hs ih => exact turn hs hb (ha.turns hm) (ih (broken_of_turn hs hb))

end Replays

end PagedStore.PageView
