import PagedStore.Proofs.QuietSteps

/-!
# What leaves the marks of owners alone

The cache marks a copy with its owner, and keeps before images for owners.  Most of what a
store does leaves the marks of a page as they are (`Cache.KeepsAt`).  A copy comes without
an owner, goes, or stays with the number and the owner that it has.  An image is kept only
for one who has a mark on the page already.

Such work is done for some transactions, and it leaves the marks of all others alone.  To
make room a transaction gives up a copy without an owner or one of its own
(`Store.keepsAt_makeRoom`).  Flushing concerns every owner (`Store.keepsAt_flushPage`).

Nothing is asked of the catalog and of the files here.  Tables may be replaced, files may
be cut, and reads and writes may fail.
-/

namespace PagedStore

open Std (ExtTreeMap)

/-! ## The cache -/

namespace Cache

variable {c c' c'' : Cache} {p id : PageId} {t u : TransactionId} {mine : TransactionId → Prop}

theorem getElem?_frames_load (c : Cache) (page : Page) (id : PageId) :
    (c.load page).frames[id]? =
      if page.id = id then some { copy := c.copies, page } else c.frames[id]? := by
  simp only [load, ExtTreeMap.getElem?_insert, Std.LawfulEqCmp.compare_eq_iff_eq]

theorem getElem?_frames_drop (c : Cache) (dropped id : PageId) :
    (c.drop dropped).frames[id]? = if dropped = id then none else c.frames[id]? := by
  unfold drop
  split
  · rename_i h
    split
    · rename_i he
      rw [← he, h]
    · rfl
  · simp only [ExtTreeMap.getElem?_erase, Std.LawfulEqCmp.compare_eq_iff_eq]

theorem getElem?_frames_update (c : Cache) (changed id : PageId) (f : Page → Page) :
    (c.update changed f).frames[id]? =
      if changed = id then c.frames[id]?.map fun frame => { frame with page := f frame.page }
      else c.frames[id]? := by
  simp only [update, ExtTreeMap.getElem?_modify, Std.LawfulEqCmp.compare_eq_iff_eq]
  split
  · rename_i h
    rw [h]
  · rfl

@[simp] theorem copies_drop (c : Cache) (id : PageId) : (c.drop id).copies = c.copies := by
  unfold drop
  split <;> rfl

/-- The transaction that a cached page is marked with. -/
def owner? (c : Cache) (id : PageId) : Option TransactionId := (c.page? id).bind Page.owner

/-- The cached page is marked with the transaction, or an image of the page is kept for it. -/
def Owns (c : Cache) (id : PageId) (t : TransactionId) : Prop :=
  c.owner? id = some t ∨ (c.keptFor t)[id]? ≠ none

theorem page?_eq_some {page : Page} :
    c.page? id = some page ↔ ∃ frame, c.frames[id]? = some frame ∧ frame.page = page :=
  Option.map_eq_some_iff

theorem owner?_eq_some :
    c.owner? id = some t ↔ ∃ frame, c.frames[id]? = some frame ∧ frame.page.owner = some t := by
  rw [owner?, page?]
  cases c.frames[id]? <;> simp

theorem owner?_congr (h : c'.frames[id]? = c.frames[id]?) : c'.owner? id = c.owner? id := by
  rw [owner?, owner?, page?, page?, h]

/-- What work for some transactions leaves of the marks of a page. -/
structure KeepsAt (p : PageId) (mine : TransactionId → Prop) (c c' : Cache) : Prop where
  keyed : c'.Keyed
  copies : c.copies ≤ c'.copies
  /-- A copy is a new one without an owner, or has the owner it had. -/
  frame : ∀ ⦃f'⦄, c'.frames[p]? = some f' →
    (c.copies ≤ f'.copy ∧ f'.copy < c'.copies ∧ f'.page.owner = none) ∨
      ∃ f, c.frames[p]? = some f ∧ f'.copy = f.copy ∧ f'.page.owner = f.page.owner
  /-- An image is kept for one who had a mark on the page. -/
  kept : ∀ ⦃t⦄, (c'.keptFor t)[p]? ≠ none → c.Owns p t
  /-- The copy of another transaction stays as it is. -/
  spared : ∀ ⦃t⦄, ¬ mine t → c.owner? p = some t → c'.frames[p]? = c.frames[p]?
  /-- What is kept for another transaction stays as it is. -/
  others : ∀ ⦃t⦄, ¬ mine t → (c'.keptFor t)[p]? = (c.keptFor t)[p]?

namespace KeepsAt

/-- Neither the copy of the page nor what is kept of it changes. -/
theorem of_same (hk : c'.Keyed) (hn : c.copies ≤ c'.copies)
    (hf : c'.frames[p]? = c.frames[p]?) (hkept : ∀ t, (c'.keptFor t)[p]? = (c.keptFor t)[p]?) :
    KeepsAt p mine c c' where
  keyed := hk
  copies := hn
  frame f' h := Or.inr ⟨f', hf ▸ h, rfl, rfl⟩
  kept t h := Or.inr (by rwa [hkept] at h)
  spared _ _ _ := hf
  others t _ := hkept t

theorem refl (p : PageId) (mine : TransactionId → Prop) (hk : c.Keyed) : KeepsAt p mine c c :=
  .of_same hk (Nat.le_refl _) rfl fun _ => rfl

theorem owner (h : KeepsAt p mine c c') (ht : c'.owner? p = some t) : c.owner? p = some t := by
  obtain ⟨f', hf', ho⟩ := owner?_eq_some.1 ht
  rcases h.frame hf' with ⟨-, -, hn⟩ | ⟨f, hf, -, hsame⟩
  · rw [hn] at ho
    cases ho
  · exact owner?_eq_some.2 ⟨f, hf, by rw [← hsame, ho]⟩

/-- No transaction has a mark that it did not have. -/
theorem owns (h : KeepsAt p mine c c') (ht : c'.Owns p t) : c.Owns p t := by
  rcases ht with ho | hk
  · exact Or.inl (h.owner ho)
  · exact h.kept hk

theorem trans (h : KeepsAt p mine c c') (h' : KeepsAt p mine c' c'') : KeepsAt p mine c c'' where
  keyed := h'.keyed
  copies := Nat.le_trans h.copies h'.copies
  frame f'' hf'' := by
    rcases h'.frame hf'' with ⟨hge, hlt, hn⟩ | ⟨f', hf', hcopy, hsame⟩
    · exact Or.inl ⟨Nat.le_trans h.copies hge, hlt, hn⟩
    · rw [hcopy, hsame]
      rcases h.frame hf' with ⟨hge, hlt, hn⟩ | hold
      · exact Or.inl ⟨hge, Nat.lt_of_lt_of_le hlt h'.copies, hn⟩
      · exact Or.inr hold
  kept t hk := h.owns (h'.kept hk)
  spared t hm ho := by
    have hf := h.spared hm ho
    rw [h'.spared hm (by rw [owner?_congr hf, ho]), hf]
  others t hm := (h'.others hm).trans (h.others hm)

/-- Work for some transactions is work for more of them. -/
theorem mono (h : KeepsAt p mine c c') {more : TransactionId → Prop} (hm : ∀ u, mine u → more u) :
    KeepsAt p more c c' :=
  { h with
    spared := fun _ hu => h.spared (mt (hm _) hu)
    others := fun _ hu => h.others (mt (hm _) hu) }

/-- A page that is not cached is read into the cache. -/
theorem load (hk : c.Keyed) {page : Page} (hn : c.page? page.id = none) (ho : page.owner = none) :
    KeepsAt p mine c (c.load page) where
  keyed := hk.load page
  copies := Nat.le_succ _
  frame f' h := by
    rw [getElem?_frames_load] at h
    split at h
    · cases h
      exact Or.inl ⟨Nat.le_refl _, Nat.lt_succ_self _, ho⟩
    · exact Or.inr ⟨f', h, rfl, rfl⟩
  kept _ h := Or.inr h
  spared t _ h := by
    rw [getElem?_frames_load, if_neg]
    rintro rfl
    rw [owner?, hn] at h
    cases h
  others _ _ := rfl

/-- A page leaves the cache.  If another transaction has marked it, it is not this page. -/
theorem drop (hk : c.Keyed) (hm : id = p → ∀ t, c.owner? p = some t → mine t) :
    KeepsAt p mine c (c.drop id) where
  keyed := hk.drop id
  copies := Nat.le_of_eq (c.copies_drop id).symm
  frame f' h := by
    rw [getElem?_frames_drop] at h
    split at h
    · cases h
    · exact Or.inr ⟨f', h, rfl, rfl⟩
  kept t h := by
    rw [keptFor_drop] at h
    exact Or.inr h
  spared t ht ho := by
    rw [getElem?_frames_drop, if_neg]
    intro he
    exact ht (hm he t ho)
  others t _ := by rw [keptFor_drop]

/-- An image is kept for the owner of a page. -/
theorem keep (hk : c.Keyed) (image : Bytes) (ho : c.owner? id = some t) (hm : mine t) :
    KeepsAt p mine c (c.keep t id image) where
  keyed := hk
  copies := Nat.le_refl _
  frame f' h := Or.inr ⟨f', h, rfl, rfl⟩
  kept u h := by
    rw [keptFor_keep] at h
    split at h
    · rename_i hc
      obtain ⟨rfl, rfl, -⟩ := hc
      exact Or.inl ho
    · exact Or.inr h
  spared _ _ _ := rfl
  others u hu := by
    rw [keptFor_keep, if_neg]
    rintro ⟨rfl, -⟩
    exact hu hm

/-- A cached page is changed, and keeps its owner. -/
theorem update (hk : c.Keyed) {f : Page → Page}
    (hf : ∀ page, c.page? id = some page → (f page).id = page.id ∧ (f page).owner = page.owner)
    (hm : id = p → ∀ t, c.owner? p = some t → mine t) : KeepsAt p mine c (c.update id f) where
  keyed := hk.update fun page hp => (hf page hp).1
  copies := Nat.le_refl _
  frame f' h := by
    rw [getElem?_frames_update] at h
    split at h
    · rename_i hid
      subst hid
      obtain ⟨frame, hframe, rfl⟩ := Option.map_eq_some_iff.1 h
      exact Or.inr ⟨frame, hframe, rfl, (hf _ (page?_eq_some.2 ⟨frame, hframe, rfl⟩)).2⟩
    · exact Or.inr ⟨f', h, rfl, rfl⟩
  kept _ h := Or.inr h
  spared t ht ho := by
    rw [getElem?_frames_update, if_neg]
    intro he
    exact ht (hm he t ho)
  others _ _ := rfl

end KeepsAt

end Cache

/-! ## What leaves the marks alone -/

namespace Store

variable {s s' s'' : Store} {p id : PageId} {t u : TransactionId} {page : Page}
  {mine : TransactionId → Prop}

/-- The locks are as before, and work for some transactions leaves the marks of the others. -/
structure KeepsAt (p : PageId) (mine : TransactionId → Prop) (s s' : Store) : Prop where
  locks : s'.locks = s.locks
  cache : s.cache.KeepsAt p mine s'.cache

namespace KeepsAt

theorem refl (p : PageId) (mine : TransactionId → Prop) (hk : s.cache.Keyed) :
    KeepsAt p mine s s := ⟨rfl, .refl p mine hk⟩

theorem trans (h : KeepsAt p mine s s') (h' : KeepsAt p mine s' s'') : KeepsAt p mine s s'' :=
  ⟨h'.locks.trans h.locks, h.cache.trans h'.cache⟩

theorem mono (h : KeepsAt p mine s s') {more : TransactionId → Prop} (hm : ∀ u, mine u → more u) :
    KeepsAt p more s s' := ⟨h.locks, h.cache.mono hm⟩

end KeepsAt

/-- Only an owner's image is written early. -/
theorem keepsAt_writeBack (hk : s.cache.Keyed) (hc : s.cache.page? id = some page)
    (hm : ∀ o, page.owner = some o → mine o) (h : s.writeBack page = .ok s') :
    KeepsAt p mine s s' := by
  cases ho : page.owner with
  | none =>
      rw [writeBack, ho] at h
      cases h
      exact .refl p mine hk
  | some o =>
      obtain ⟨s₁, hw, rfl⟩ := writeBack_eq_ok h ho
      obtain ⟨f, disk, -, -, rfl⟩ := writeOut_eq_ok hw
      have howner : s.cache.owner? page.id = some o := by
        rw [hk hc, Cache.owner?, hc]
        exact ho
      exact ⟨rfl, .keep hk page.beforeImage howner (hm o ho)⟩

/-- A transaction makes room for itself at its own cost, or at nobody's. -/
theorem keepsAt_makeRoom (hk : s.cache.Keyed) (h : s.makeRoom t = .ok s') :
    KeepsAt p (· = t) s s' := by
  rcases makeRoom_cases h with rfl | ⟨id, page, hp, ho, rfl⟩ | ⟨id, page, s₁, hp, ho, hw, rfl⟩
  · exact .refl p _ hk
  · refine ⟨rfl, .drop hk ?_⟩
    rintro rfl u hu
    rw [Cache.owner?, hp, Option.bind_some, ho] at hu
    cases hu
  · have hmine : ∀ o, page.owner = some o → o = t := by
      intro o h
      rw [ho] at h
      exact (Option.some.inj h).symm
    have hkeep : KeepsAt p (· = t) s s₁ := keepsAt_writeBack hk hp hmine hw
    refine ⟨hkeep.locks, hkeep.cache.trans (.drop hkeep.cache.keyed ?_)⟩
    rintro rfl u hu
    have hu := hkeep.cache.owner hu
    rw [hk hp, Cache.owner?, hp] at hu
    exact hmine u hu

theorem keepsAt_ensureCached (hk : s.cache.Keyed) (f : TableFile) (id : PageId) :
    KeepsAt p (· = t) s (s.ensureCached t f id).2 := by
  have hensured := s.ensured t f id
  generalize s.ensureCached t f id = result at hensured ⊢
  have hroom : ∀ {s₁}, (s.count .misses).makeRoom t = .ok s₁ → KeepsAt p (· = t) s s₁ := by
    intro s₁ hr
    have hmade := keepsAt_makeRoom (s := s.count .misses) (p := p) hk hr
    exact ⟨hmade.locks, hmade.cache⟩
  cases hensured with
  | hit | crowded => exact ⟨rfl, .refl p _ hk⟩
  | unread hr => exact hroom hr
  | @read s₁ page hn hr hp =>
      obtain ⟨image, -, hd⟩ := Disk.readPage_eq_ok hp
      obtain ⟨-, hid, -, -, ho, -⟩ := Page.decode_eq_ok hd
      have hnone : s₁.cache.page? page.id = none := by
        rw [hid]
        exact page?_makeRoom hr hn
      exact ⟨(hroom hr).locks, (hroom hr).cache.trans (.load (hroom hr).cache.keyed hnone ho)⟩

theorem keepsAt_flushPage (hk : s.cache.Keyed) (h : s.flushPage id = .ok s') :
    KeepsAt p (fun _ => True) s s' := by
  rw [flushPage] at h
  split at h
  · cases h
    exact .refl p _ hk
  · rename_i page hp
    exact keepsAt_writeBack hk hp (fun _ _ => trivial) h

theorem keepsAt_untilError {α : Type} {f : Store → α → Except StoreError Store}
    (hf : ∀ {s a s'}, s.cache.Keyed → f s a = .ok s' → KeepsAt p mine s s') (as : List α)
    (hk : s.cache.Keyed) : KeepsAt p mine s (untilError f s as).2 := by
  induction as generalizing s with
  | nil => exact .refl p mine hk
  | cons a as ih =>
      rw [untilError]
      split
      · exact .refl p mine hk
      · rename_i s₁ h
        have h₁ := hf hk h
        exact h₁.trans (ih h₁.cache.keyed)

theorem keepsAt_discard (hk : s.cache.Keyed) (id : PageId) :
    KeepsAt p (fun _ => True) s (s.discard id) := by
  rw [discard]
  split
  · exact .refl p _ hk
  · have hdrop : s.cache.KeepsAt p (fun _ => True) (s.cache.drop id) :=
      .drop hk fun _ _ _ => trivial
    dsimp only
    split
    · exact ⟨rfl, hdrop⟩
    · exact ⟨rfl, hdrop⟩

/-- Pages are dropped that nobody else has marked. -/
theorem keepsAt_dropSpoiled (ids : List PageId) (hk : s.cache.Keyed)
    (hm : p ∈ ids → ∀ u, s.cache.owner? p = some u → mine u) :
    KeepsAt p mine s (ids.foldl dropSpoiled s) := by
  induction ids generalizing s with
  | nil => exact .refl p mine hk
  | cons id ids ih =>
      have hdrop : s.cache.KeepsAt p mine (s.dropSpoiled id).cache :=
        .drop hk fun he u hu => hm (he ▸ List.mem_cons_self) u hu
      have h : KeepsAt p mine s (s.dropSpoiled id) := ⟨rfl, hdrop⟩
      refine h.trans (ih hdrop.keyed fun hp u hu => ?_)
      exact hm (List.mem_cons_of_mem _ hp) u (hdrop.owner hu)

end Store

end PagedStore
