import PagedStore.Proofs.Agreement

/-!
# Alike pages

Two stores can differ in what they have cached, and in what they have written early, and
still be the same for everyone who uses them.  Two views of a page are *alike*
(`PageView.Alike`) if the same transactions hold and own the page, it holds the same for who
fetches it, and it comes to the same image whether its owner commits or aborts.

A page that agrees with a ledger stays alike to itself when it is read into the cache, is
written early or leaves the cache (`alike_load`, `Agrees.alike_write`,
`Agrees.alike_dropWritten`).  Two alike pages stay alike when the same happens to both, be it
a lock, a change, a commit or an abort.

All this rests on one fact: what the slots of a page hold determines its image
(`Page.encode_congr`).
-/

namespace PagedStore

/-! ## Images of pages with the same content -/

namespace Page

/-- The bytes of a slot that holds these values, or nothing. -/
def entryBytes (schema : Schema) : Option (List Field) → Bytes
  | none => Bytes.zeros schema.width
  | some fields => fields.flatMap Field.encode

theorem slotBytes_eq (schema : Schema) :
    slotBytes schema = fun entry => entryBytes schema (entry.map Row.fields) := by
  funext entry
  cases entry <;> rfl

theorem marks_eq (p : Page) : p.marks = SlotMarks.ofFlags (p.content.map Option.isSome) := by
  rw [marks, content, List.map_map]
  refine congrArg SlotMarks.ofFlags (List.map_congr_left fun entry _ => ?_)
  cases entry <;> rfl

theorem body_eq (p : Page) :
    p.body = (SlotMarks.ofFlags (p.content.map Option.isSome)).toBytes ++
      p.content.flatMap (entryBytes p.schema) := by
  rw [body, marks_eq, slotBytes_eq, content, List.flatMap_map]

/-- What the slots hold determines the image. -/
theorem encode_congr {p q : Page} (hs : q.schema = p.schema) (hz : q.pageSize = p.pageSize)
    (hc : q.content = p.content) : q.encode = p.encode := by
  rw [encode, encode, body_eq, body_eq, hs, hz, hc]

end Page

namespace PageView

variable {v v' v'' : PageView} {l l' : Ledger} {t u : TransactionId} {page page' : Page}

/-! ## Views that are alike -/

/-- The image that the page has in its file after a transaction is committed. -/
def settled (v : PageView) (t : TransactionId) : Option Bytes :=
  match v.copy with
  | none => v.image
  | some page => if page.owner = some t then some page.encode else v.image

theorem image_saved (v : PageView) (t : TransactionId) : (v.saved t).image = v.settled t := by
  rw [saved, settled]
  cases v.copy with
  | none => rfl
  | some page =>
      dsimp only
      split <;> rfl

theorem settled_of_owner (hc : v.copy = some page) (ho : page.owner = some t) :
    v.settled t = some page.encode := by
  rw [settled, hc]
  exact if_pos ho

theorem settled_of_none (hc : v.copy = none) : v.settled t = v.image := by
  rw [settled, hc]

theorem settled_of_ne (h : v.owner? ≠ some t) : v.settled t = v.image := by
  rw [← image_saved, saved_of_ne h]

/-- The views differ only in what is cached and what is written early. -/
structure Alike (v v' : PageView) : Prop where
  id : v'.id = v.id
  file : v'.file = v.file
  mode : v'.mode = v.mode
  owns : ∀ t, v'.Owns t ↔ v.Owns t
  /-- The page holds the same for who fetches it. -/
  content : v'.content = v.content
  /-- It lies inside its file or not. -/
  image : v'.image = none ↔ v.image = none
  /-- It has the same image after its owner aborts. -/
  before : ∀ {t}, v.OpenTo t → v'.before t = v.before t
  /-- It has the same image after its owner commits. -/
  settled : ∀ {t}, v.OpenTo t → v'.settled t = v.settled t

namespace Alike

theorem openTo (h : v.Alike v') : v'.OpenTo t ↔ v.OpenTo t :=
  forall_congr' fun u => imp_congr_left (h.owns u)

theorem refl (v : PageView) : v.Alike v :=
  ⟨rfl, rfl, rfl, fun _ => .rfl, rfl, .rfl, fun _ => rfl, fun _ => rfl⟩

theorem symm (h : v.Alike v') : v'.Alike v where
  id := h.id.symm
  file := h.file.symm
  mode := h.mode.symm
  owns t := (h.owns t).symm
  content := h.content.symm
  image := h.image.symm
  before ho := (h.before (h.openTo.1 ho)).symm
  settled ho := (h.settled (h.openTo.1 ho)).symm

theorem trans (h : v.Alike v') (h' : v'.Alike v'') : v.Alike v'' where
  id := h'.id.trans h.id
  file := h'.file.trans h.file
  mode := h'.mode.trans h.mode
  owns t := (h'.owns t).trans (h.owns t)
  content := h'.content.trans h.content
  image := h'.image.trans h.image
  before ho := (h'.before (h.openTo.2 ho)).trans (h.before ho)
  settled ho := (h'.settled (h.openTo.2 ho)).trans (h.settled ho)

/-- Copies of alike pages are copies of one page. -/
theorem fits_eq (h : v.Alike v') (hp : v.Fits page) (hp' : v'.Fits page') :
    page'.id = page.id ∧ page'.schema = page.schema ∧ page'.pageSize = page.pageSize := by
  obtain ⟨f, hf, hs, hz⟩ := hp.file
  obtain ⟨g, hg, hs', hz'⟩ := hp'.file
  rw [h.file, hf] at hg
  cases hg
  exact ⟨hp'.id.trans (h.id.trans hp.id.symm), hs'.symm.trans hs, hz'.symm.trans hz⟩

/-- An image shows the same in both. -/
theorem shown_eq (h : v.Alike v') (image : Option Bytes) : v'.shown image = v.shown image := by
  rw [shown, shown, h.file, h.id]

theorem content_eq (h : v.Alike v') (hc : v.copy = some page) (hc' : v'.copy = some page') :
    page'.content = page.content := by
  have := h.content
  rw [content_of_copy hc, content_of_copy hc'] at this
  exact Option.some.inj this

end Alike

/-- Nobody owns a page whose copy has no owner and of which nothing is kept. -/
theorem not_owns (ho : v.owner? ≠ some t) (hk : v.kept t = none) : ¬ v.Owns t := by
  rintro (h | h)
  · exact ho h
  · exact h hk

/-! ## What goes on without notice -/

theorem alike_load {f : TableFile} {image : Bytes} (hc : v.copy = none)
    (hf : v.file = some f) (hi : v.image = some image)
    (hd : Page.decode v.id f.schema f.pageSize image = .ok page) :
    v.Alike { v with copy := some page } := by
  obtain ⟨-, -, -, -, hown, -⟩ := Page.decode_eq_ok hd
  refine ⟨rfl, rfl, rfl, fun t => owns_load hc hown, ?_, .rfl, fun _ => rfl, fun {t} _ => ?_⟩
  · rw [content_of_none hc, present_of_image hi, shown_eq hf hd]
    rfl
  · have hn : PageView.owner? { v with copy := some page } ≠ some t := by simp [owner?, hown]
    rw [settled_of_none hc, settled_of_ne hn]

namespace Agrees

/-- A copy without changes leaves the cache. -/
theorem alike_drop (h : Agrees l v) (hc : v.copy = some page) (ho : page.owner = none) :
    v.Alike { v with copy := none } := by
  have howner : v.owner? = none := (owner?_of_copy hc).trans ho
  have hn : ∀ t, v.owner? ≠ some t := by simp [howner]
  obtain ⟨image, hi⟩ := Option.ne_none_iff_exists'.1 (h.fits hc).image
  refine ⟨rfl, rfl, rfl, fun t => owns_uncached fun u hu => absurd hu (hn u), ?_, .rfl,
    fun _ => rfl, fun {t} _ => ?_⟩
  · rw [content_of_none rfl, content_of_copy hc, ← h.clean hc ho]
    exact congrArg v.shown ((present_of_image (v := { v with copy := none }) hi).trans hi.symm)
  · rw [settled_of_ne (hn t)]
    rfl

/-- A copy that is written leaves the cache. -/
theorem alike_dropWritten (h : Agrees l v) (hc : v.copy = some page) (ho : page.owner = some t)
    (hk : v.kept t ≠ none) (hi : v.image = some page.encode) : v.Alike { v with copy := none } := by
  have howner : v.owner? = some t := (owner?_of_copy hc).trans ho
  have howns : ∀ u, v.owner? = some u → v.kept u ≠ none := by
    intro u hu
    rw [howner] at hu
    cases hu
    exact hk
  refine ⟨rfl, rfl, rfl, fun u => owns_uncached howns, ?_, .rfl, fun _ => rfl, fun {u} hopen => ?_⟩
  · rw [content_of_none rfl, content_of_copy hc, ← h.shown_encode hc]
    exact congrArg v.shown (present_of_image hi)
  · obtain rfl : t = u := hopen t (Or.inl howner)
    rw [settled_of_owner hc ho, ← hi]
    rfl

theorem alike_write (h : Agrees l v) (hc : v.copy = some page) (ho : page.owner = some t) :
    v.Alike (v.written t page) := by
  have howner : v.owner? = some t := (owner?_of_copy hc).trans ho
  have himage := (h.fits hc).image
  refine ⟨rfl, rfl, rfl, fun u => owns_written hc ho, ?_, ?_, fun {u} hopen => ?_,
    fun {u} hopen => ?_⟩
  · rw [content_of_copy hc]
    exact content_of_copy (v := v.written t page) hc
  · simp [written, himage]
  · obtain rfl : t = u := hopen t (Or.inl howner)
    cases hk : v.kept t with
    | some image =>
        rw [before_of_kept hk]
        exact before_of_kept (by simp [written, hk])
    | none =>
        -- The image that is kept from now on is the one in the file.
        have hi : v.image = some page.beforeImage := h.fresh hc fun u hu => by
          rw [ho] at hu
          cases hu
          exact hk
        rw [before_of_none hk, present_of_image hi]
        exact before_of_kept (by simp [written, hk])
  · obtain rfl : t = u := hopen t (Or.inl howner)
    rw [settled_of_owner hc ho]
    exact settled_of_owner (v := v.written t page) hc ho

end Agrees

/-! ## The same for both -/

namespace Alike

/-- The same locks are taken or released in both. -/
theorem withMode (h : v.Alike v') {mode mode' : TransactionId → Option LockMode}
    (hm : mode' = mode) : Alike { v with mode } { v' with mode := mode' } :=
  { h with mode := hm }

theorem granted (h : v.Alike v') (t : TransactionId) (mode : LockMode) :
    (v.granted t mode).Alike (v'.granted t mode) :=
  h.withMode (by rw [h.mode])

theorem released (h : v.Alike v') (t : TransactionId) : (v.released t).Alike (v'.released t) :=
  h.withMode (by rw [h.mode])

/-- Both pages are put at the ends of their files. -/
theorem append (h : v.Alike v') (ha : Agrees l v) (ha' : Agrees l' v') (hi : v.image = none) :
    Alike { v with image := v.blank } { v' with image := v'.blank } := by
  have hi' := h.image.2 hi
  have hb : v'.blank = v.blank := by rw [blank, blank, h.file]
  have hcontent : ∀ {v : PageView}, v.image = none → v.copy = none →
      PageView.content { v with image := v.blank } = v.content := by
    intro v hi hc
    rw [content_of_none hc, content_of_none (v := { v with image := v.blank }) hc,
      present_appended hi]
    rfl
  have hbefore : ∀ {v : PageView}, v.image = none →
      PageView.before { v with image := v.blank } = v.before := by
    intro v hi
    funext t
    rw [PageView.before, PageView.before, present_appended hi]
  have hsettled : ∀ {v : PageView}, v.copy = none →
      PageView.settled { v with image := v.blank } = fun _ => v.blank := by
    intro v hc
    funext t
    exact settled_of_none (v := { v with image := v.blank }) hc
  have hc := ha.copy_of_no_image hi
  have hc' := ha'.copy_of_no_image hi'
  refine ⟨h.id, h.file, h.mode, h.owns, ?_, by rw [hb], fun {t} ho => ?_, fun {t} _ => ?_⟩
  · rw [hcontent hi hc, hcontent hi' hc', h.content]
  · rw [hbefore hi, hbefore hi']
    exact h.before ho
  · rw [hsettled hc, hsettled hc', hb]

/-- Both pages are fetched for writing. -/
theorem take (h : v.Alike v') (ha : Agrees l v) (ha' : Agrees l' v')
    (hm : v.mode t = some .exclusive) (hc : v.copy = some page) (hc' : v'.copy = some page') :
    Alike { v with copy := some (page.withOwner (some t)) }
      { v' with copy := some (page'.withOwner (some t)) } := by
  have hm' : v'.mode t = some .exclusive := by rw [h.mode, hm]
  have hopen : v.OpenTo t := ha.openTo_of_mode (by rw [hm]; simp)
  have hcontent := h.content_eq hc hc'
  have honly : ∀ {u}, OpenTo { v with copy := some (page.withOwner (some t)) } u → u = t :=
    fun ho => (ho t ((ha.owns_take page hm).2 rfl)).symm
  obtain ⟨-, hs, hz⟩ := h.fits_eq (ha.fits hc) (ha'.fits hc')
  refine ⟨h.id, h.file, h.mode,
    fun u => (ha'.owns_take page' hm').trans (ha.owns_take page hm).symm,
    congrArg some hcontent, h.image, fun {u} ho => ?_, fun {u} ho => ?_⟩
  · obtain rfl := honly ho
    exact h.before hopen
  · obtain rfl := honly ho
    rw [settled_of_owner (v := { v with copy := some (page.withOwner (some u)) }) rfl rfl,
      settled_of_owner (v := { v' with copy := some (page'.withOwner (some u)) }) rfl rfl]
    exact congrArg some (Page.encode_congr hs hz hcontent)

/-- The same change is made to both copies. -/
theorem change (h : v.Alike v') (ha : Agrees l v) (ha' : Agrees l' v') {change : Change}
    {after after' : Page} (hc : v.copy = some page) (hc' : v'.copy = some page')
    (ho : page.owner = some t) (ho' : page'.owner = some t) (hm : change.Made page after)
    (hm' : change.Made page' after') :
    Alike { v with copy := some after } { v' with copy := some after' } := by
  have hown : after.owner = page.owner := by rw [hm.same]
  have hown' : after'.owner = page'.owner := by rw [hm'.same]
  have howns : ∀ u, Owns { v with copy := some after } u ↔ v.Owns u := fun _ => owns_changed hc hown
  have hcontent : after'.content = after.content := by
    rw [hm.content, hm'.content, h.content_eq hc hc']
  obtain ⟨-, hs, hz⟩ := h.fits_eq (ha.fits hc) (ha'.fits hc')
  have hs : after'.schema = after.schema := by rw [hm.same, hm'.same, hs]
  have hz : after'.pageSize = after.pageSize := by rw [hm.same, hm'.same, hz]
  refine ⟨h.id, h.file, h.mode, fun u => ?_, congrArg some hcontent, h.image, fun {u} hu => ?_,
    fun {u} hu => ?_⟩
  · exact (owns_changed hc' hown').trans ((h.owns u).trans (howns u).symm)
  · exact h.before fun x hx => hu x ((howns x).2 hx)
  · obtain rfl : t = u := hu t (Or.inl (hown.trans ho))
    rw [settled_of_owner (v := { v with copy := some after }) rfl (hown.trans ho),
      settled_of_owner (v := { v' with copy := some after' }) rfl (hown'.trans ho')]
    exact congrArg some (Page.encode_congr hs hz hcontent)

end Alike

/-! ## Both transactions end -/

/-- What is left of a page when a transaction ends that does not own it. -/
theorem cleared_of_not_owns (h : ¬ v.Owns t) :
    v.cleared t = { v with mode := (v.cleared t).mode } := by
  refine PageView.ext rfl rfl rfl rfl (funext fun u => ?_) rfl
  rw [kept_cleared]
  split
  · rename_i htu
    subst htu
    by_contra hk
    exact h (Or.inr (Ne.symm hk))
  · rfl

theorem committed_of_not_owns (h : ¬ v.Owns t) :
    v.committed t = { v with mode := (v.cleared t).mode } := by
  rw [committed, saved_of_ne fun ho => h (Or.inl ho)]
  exact cleared_of_not_owns h

theorem aborted_of_not_owns (h : ¬ v.Owns t) :
    v.aborted t = { v with mode := (v.cleared t).mode } := by
  have hk : v.kept t = none := by
    by_contra hk
    exact h (Or.inr hk)
  rw [aborted, if_neg h, hk]
  exact cleared_of_not_owns h

namespace Agrees

/-- Nothing is kept of a page for others than its owner. -/
theorem kept_of_openTo (h : v.OpenTo t) (hu : u ≠ t) : v.kept u = none := by
  by_contra hk
  exact hu (h u (Or.inr hk))

/-- What is left of a page when its owner commits. -/
theorem committed_of_owns (h : Agrees l v) (ho : v.Owns t) :
    (v.committed t).owner? = none ∧ (∀ u, (v.committed t).kept u = none) ∧
      (v.committed t).image = v.settled t ∧ v.settled t ≠ none := by
  have hopen := h.openTo_of_owns ho
  have howner : (v.committed t).owner? = none := by
    show (v.saved t).owner? = none
    rw [owner?_saved]
    split
    · rfl
    · rename_i hne
      cases hv : v.owner? with
      | none => rfl
      | some u => exact absurd (hopen u (Or.inl hv) ▸ hv) hne
  refine ⟨howner, fun u => ?_, v.image_saved t, ?_⟩
  · rw [committed, kept_cleared, kept_saved]
    split
    · rfl
    · rename_i hne
      exact kept_of_openTo hopen (Ne.symm hne)
  · have himage := h.image_of_owns ho
    rw [settled]
    split
    · exact himage
    · split
      · simp
      · exact himage

/-- What is left of a page when its owner aborts. -/
theorem aborted_of_owns (h : Agrees l v) (ho : v.Owns t) :
    (v.aborted t).copy = none ∧ (∀ u, (v.aborted t).kept u = none) ∧
      (v.aborted t).image = v.before t ∧ v.before t ≠ none := by
  have hopen := h.openTo_of_owns ho
  obtain ⟨image, hi⟩ := Option.ne_none_iff_exists'.1 (h.image_of_owns ho)
  have hbefore : (v.kept t).or v.image = v.before t := by
    rw [before, present_of_image hi, hi]
  rw [aborted, if_pos ho]
  refine ⟨rfl, fun u => ?_, hbefore, ?_⟩
  · rw [kept_cleared]
    split
    · rfl
    · rename_i hne
      exact kept_of_openTo (v := v) hopen (Ne.symm hne)
  · rw [← hbefore, hi]
    cases v.kept t <;> simp

end Agrees

/-- A page holds the same after a commit. -/
theorem content_committed (v : PageView) (t : TransactionId) :
    (v.committed t).content = v.content := by
  by_cases ho : v.owner? = some t
  · obtain ⟨page, hc, hpo⟩ := Option.bind_eq_some_iff.1 ho
    rw [committed, saved_of_owner hc hpo, content_of_copy hc]
    rfl
  · rw [committed, saved_of_ne ho]
    rfl

/-- A page without an owner comes to its image in the file. -/
theorem before_of_unowned (hk : v.kept t = none) (hi : v.image ≠ none) : v.before t = v.image := by
  obtain ⟨image, hi⟩ := Option.ne_none_iff_exists'.1 hi
  rw [before_of_none hk, present_of_image hi, hi]

/-- Two pages without an owner are alike if they have the same image, and hold the same. -/
theorem Alike.of_unowned (hid : v'.id = v.id) (hf : v'.file = v.file) (hm : v'.mode = v.mode)
    (ho : v.owner? = none) (ho' : v'.owner? = none) (hk : ∀ t, v.kept t = none)
    (hk' : ∀ t, v'.kept t = none) (hi : v'.image = v.image) (hne : v.image ≠ none)
    (hc : v'.content = v.content) : v.Alike v' := by
  have hn : ∀ t, v.owner? ≠ some t := fun t h => by rw [ho] at h; cases h
  have hn' : ∀ t, v'.owner? ≠ some t := fun t h => by rw [ho'] at h; cases h
  refine ⟨hid, hf, hm, fun t => ?_, hc, by rw [hi], fun {t} _ => ?_, fun {t} _ => ?_⟩
  · exact iff_of_false (not_owns (hn' t) (hk' t)) (not_owns (hn t) (hk t))
  · rw [before_of_unowned (hk t) hne, before_of_unowned (hk' t) (hi ▸ hne), hi]
  · rw [settled_of_ne (hn t), settled_of_ne (hn' t), hi]

namespace Alike

theorem mode_cleared (h : v.Alike v') (t : TransactionId) :
    (v'.cleared t).mode = (v.cleared t).mode := by
  rw [cleared, cleared, h.mode]

theorem committed (h : v.Alike v') (ha : Agrees l v) (ha' : Agrees l' v') (t : TransactionId) :
    (v.committed t).Alike (v'.committed t) := by
  by_cases ho : v.Owns t
  · have ho' := (h.owns t).2 ho
    obtain ⟨hn, hk, hi, hne⟩ := ha.committed_of_owns ho
    obtain ⟨hn', hk', hi', -⟩ := ha'.committed_of_owns ho'
    refine of_unowned ?_ ?_ ?_ hn hn' hk hk' ?_ ?_ ?_
    · exact id_saved.trans (h.id.trans id_saved.symm)
    · exact file_saved.trans (h.file.trans file_saved.symm)
    · rw [PageView.committed, PageView.committed, cleared, cleared, mode_saved, mode_saved, h.mode]
    · rw [hi, hi', h.settled (ha.openTo_of_owns ho)]
    · rw [hi]
      exact hne
    · rw [content_committed, content_committed, h.content]
  · rw [committed_of_not_owns ho, committed_of_not_owns fun ho' => ho ((h.owns t).1 ho')]
    exact h.withMode (h.mode_cleared t)

theorem aborted (h : v.Alike v') (ha : Agrees l v) (ha' : Agrees l' v') (t : TransactionId) :
    (v.aborted t).Alike (v'.aborted t) := by
  by_cases ho : v.Owns t
  · have ho' := (h.owns t).2 ho
    obtain ⟨hc, hk, hi, hne⟩ := ha.aborted_of_owns ho
    obtain ⟨hc', hk', hi', -⟩ := ha'.aborted_of_owns ho'
    have himage : (v'.aborted t).image = (v.aborted t).image := by
      rw [hi, hi', h.before (ha.openTo_of_owns ho)]
    refine of_unowned h.id h.file (h.mode_cleared t) (owner?_of_none hc) (owner?_of_none hc') hk
      hk' himage (hi ▸ hne) ?_
    have hpresent : (v'.aborted t).present = (v.aborted t).present := by
      obtain ⟨image, hb⟩ := Option.ne_none_iff_exists'.1 hne
      rw [present_of_image (hi.trans hb), present_of_image (himage.trans (hi.trans hb))]
    rw [content_of_none hc, content_of_none hc', hpresent]
    exact h.shown_eq _
  · rw [aborted_of_not_owns ho, aborted_of_not_owns fun ho' => ho ((h.owns t).1 ho')]
    exact h.withMode (h.mode_cleared t)

end Alike

end PageView

end PagedStore
