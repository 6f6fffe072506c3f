import PagedStore.Proofs.AlikePages
import PagedStore.Proofs.Endings
import PagedStore.Proofs.Outside

/-!
# Alike stores

Two stores are *alike* (`Store.Alike`) if they have the same tables, the same locks and the
same disk outside the pages, and their views of each page are alike.  While no page has an
owner their disks are the same (`Store.Alike.disk_eq`).

A step is *silent* (`Store.Silent`) if it goes on without an entry in the ledger and leaves a
store that is alike.  Silent are all steps that only move pages between the cache and the
files: reading a page, making room for it, flushing, and giving up a page without changes.
For these a store has to *follow* a ledger, page by page (`Store.Follows`), and no step on a
store that does can fail to write.
-/

namespace PagedStore.Store

variable {s s' s'' : Store} {l l' : Ledger} {p id : PageId} {t : TransactionId} {page : Page}
  {f : TableFile}

/-! ## Stores that follow a ledger -/

/-- The store is sound, its pages can be counted, and each agrees with the ledger. -/
structure Follows (l : Ledger) (s : Store) : Prop where
  sound : s.Sound
  numbered : ∀ p, s.NumberedAt p
  view : ∀ p, PageView.Agrees l (s.view p)

theorem Follows.withCounters (h : s.Follows l) (counters : Counters) :
    Follows l { s with counters } :=
  ⟨⟨h.sound.catalog, h.sound.keyed, h.sound.indexed⟩, h.numbered, h.view⟩

theorem NumberedAt.of_sameLengths (h : s.NumberedAt p) (hc : s'.catalog = s.catalog)
    (hd : s.disk.SameLengths s'.disk) : s'.NumberedAt p := by
  intro f hf
  exact (h (hc ▸ hf)).of_length_le (Nat.le_of_eq (hd f.name))

/-! ## Stores that are alike -/

/-- The stores differ only in what is cached and what is written early. -/
structure Alike (s s' : Store) : Prop where
  catalog : s'.catalog = s.catalog
  locks : s'.locks = s.locks
  outside : s.disk.SameOutside s.catalog s'.disk
  view : ∀ p, (s.view p).Alike (s'.view p)

namespace Alike

theorem refl (s : Store) : s.Alike s := ⟨rfl, rfl, .refl _ _, fun _ => .refl _⟩

theorem symm (h : s.Alike s') : s'.Alike s :=
  ⟨h.catalog.symm, h.locks.symm, h.catalog ▸ h.outside.symm, fun p => (h.view p).symm⟩

theorem trans (h : s.Alike s') (h' : s'.Alike s'') : s.Alike s'' :=
  ⟨h'.catalog.trans h.catalog, h'.locks.trans h.locks,
    h.outside.trans (h.catalog ▸ h'.outside), fun p => (h.view p).trans (h'.view p)⟩

/-- Counters do not matter. -/
theorem withCounters (h : s.Alike s') (counters counters' : Counters) :
    Alike { s with counters } { s' with counters := counters' } :=
  ⟨h.catalog, h.locks, h.outside, h.view⟩

theorem numberedAt (h : s.Alike s') (hn : s.NumberedAt p) : s'.NumberedAt p :=
  hn.of_sameLengths h.catalog h.outside.sameLengths

/-- While no page has an owner the disks are the same. -/
theorem disk_eq (h : s.Alike s') (ho : ∀ p t, ¬ (s.view p).Owns t) : s'.disk = s.disk := by
  refine Store.disk_eq h.catalog h.outside fun p => ?_
  have t : TransactionId := ⟨0⟩
  have hn : (s.view p).owner? ≠ some t := fun hu => ho p t (Or.inl hu)
  have hn' : (s'.view p).owner? ≠ some t := fun hu => ho p t (((h.view p).owns t).1 (Or.inl hu))
  rw [← PageView.settled_of_ne hn, ← PageView.settled_of_ne hn']
  exact (h.view p).settled (PageView.Agrees.openTo_of_forall_not (ho p))

end Alike

/-! ## Silent steps -/

/-- A step that nobody notices. -/
structure Silent (s s' : Store) : Prop where
  quiet : ∀ p, QuietAt p s s'
  alike : ∀ {l}, s.Follows l → s.Alike s'

namespace Silent

theorem refl (s : Store) : Silent s s := ⟨fun p => .refl p s, fun _ => .refl s⟩

/-- A store follows the same ledger after a silent step. -/
theorem follows (h : Silent s s') (hs : s.Follows l) : s'.Follows l := by
  have hn := fun p => (h.alike hs).numberedAt (hs.numbered p)
  exact ⟨(h.quiet ⟨⟨0⟩, 0⟩).sound hs.sound, hn, fun p =>
    PageView.Agrees.turns ((h.quiet p).turns hs.sound (hn p) l) (hs.view p)⟩

theorem trans (h : Silent s s') (h' : Silent s' s'') : Silent s s'' :=
  ⟨fun p => (h.quiet p).trans (h'.quiet p),
    fun hs => (h.alike hs).trans (h'.alike (h.follows hs))⟩

theorem withCounters (h : Silent s s') (counters : Counters) : Silent s { s' with counters } :=
  ⟨fun p => (h.quiet p).withCounters counters,
    fun hs => (h.alike hs).withCounters s.counters counters⟩

/-- Alike stores go on unnoticed, each on its own. -/
theorem both {s₁ s₁' : Store} (hq : Silent s s₁) (hq' : Silent s' s₁') (h : s.Alike s')
    (hs : s.Follows l) (hs' : s'.Follows l') : s₁.Alike s₁' :=
  ((hq.alike hs).symm.trans h).trans (hq'.alike hs')

end Silent

/-! ## Writing early -/

/-- The image of a page that lies inside its file is written. -/
theorem outside_writeOut (hs : s.Sound) (hi : (s.view page.id).image ≠ none)
    (h : s.writeOut page = .ok s') : s.disk.SameOutside s.catalog s'.disk := by
  obtain ⟨f, disk, hf, hw, rfl⟩ := writeOut_eq_ok h
  obtain ⟨old, ho⟩ := Option.ne_none_iff_exists'.1 hi
  rw [image_view hf] at ho
  exact Disk.sameOutside_writeImage hs.catalog hf hw ho

/-- A cached page lies inside its file. -/
theorem Follows.image_of_cached (hs : s.Follows l) (hc : s.cache.page? id = some page) :
    (s.view page.id).image ≠ none := by
  rw [hs.sound.keyed hc]
  exact ((hs.view id).fits hc).image

theorem alike_writeBack (hs : s.Follows l) (hc : s.cache.page? id = some page)
    (h : s.writeBack page = .ok s') : s.Alike s' := by
  cases ho : page.owner with
  | none =>
      rw [writeBack, ho] at h
      cases h
      exact .refl s
  | some o =>
      have hview := fun p => view_writeBack (p := p) hs.sound ho h
      have hid := hs.sound.keyed hc
      obtain ⟨s₁, hw, rfl⟩ := writeBack_eq_ok h ho
      have houtside := outside_writeOut hs.sound (hs.image_of_cached hc) hw
      obtain ⟨f, disk, -, -, rfl⟩ := writeOut_eq_ok hw
      refine ⟨rfl, rfl, houtside, fun p => ?_⟩
      rw [hview]
      split
      · rename_i he
        rw [hid] at he
        subst he
        exact (hs.view id).alike_write hc ho
      · exact .refl _

theorem silent_writeBack (hc : s.cache.page? id = some page) (h : s.writeBack page = .ok s') :
    Silent s s' :=
  ⟨fun _ => quietAt_writeBack hc h, fun hs => alike_writeBack hs hc h⟩

/-- No page of a store that follows a ledger fails to be written early. -/
theorem Follows.exists_writeBack (hs : s.Follows l) (hc : s.cache.page? id = some page) :
    ∃ s', s.writeBack page = .ok s' := by
  obtain ⟨s₁, hw⟩ := exists_writeOut hs.sound ((hs.view id).fits hc) (hs.numbered id)
  rw [writeBack]
  split
  · exact ⟨_, rfl⟩
  · exact ⟨_, by rw [hw]⟩

/-! ## Giving pages up -/

theorem silent_drop (hc : ∀ page, s.cache.page? id = some page → page.owner = none) :
    Silent s (s.onCache fun c => c.drop id) := by
  refine ⟨fun p => quietAt_drop fun _ => hc, fun {l} hs => ⟨rfl, rfl, .refl _ _, fun p => ?_⟩⟩
  rw [view_drop]
  split
  · rename_i he
    subst he
    cases hp : s.cache.page? id with
    | none =>
        have : { s.view id with copy := none } = s.view id :=
          PageView.ext rfl rfl rfl hp.symm rfl rfl
        rw [this]
        exact .refl _
    | some page => exact (hs.view id).alike_drop hp (hc page hp)
  · exact .refl _

theorem silent_writeBack_drop (hc : s.cache.page? id = some page) {o : TransactionId}
    (ho : page.owner = some o) (h : s.writeBack page = .ok s') :
    Silent s (s'.onCache fun c => c.drop page.id) := by
  have hw := silent_writeBack hc h
  refine ⟨fun p => quietAt_writeBack_drop hc ho h, fun {l} hs => (hw.alike hs).trans ?_⟩
  refine ⟨rfl, rfl, .refl _ _, fun p => ?_⟩
  rw [view_drop]
  split
  · rename_i he
    have hp : p = id := by rw [← he, hs.sound.keyed hc]
    have hview := view_writeBack (p := p) hs.sound ho h
    rw [if_pos he] at hview
    have hcopy : (s'.view p).copy = some page := by
      rw [hview, hp]
      exact hc
    have hkept : (s'.view p).kept o ≠ none := by
      rw [hview]
      show (if o = o then _ else _) ≠ none
      rw [if_pos rfl]
      cases (s.view p).kept o <;> simp
    exact ((hw.follows hs).view p).alike_dropWritten hcopy ho hkept (by rw [hview]; rfl)
  · exact .refl _

theorem silent_makeRoom (h : s.makeRoom t = .ok s') : Silent s s' := by
  rcases makeRoom_cases h with rfl | ⟨id, page, hp, ho, rfl⟩ | ⟨id, page, s₁, hp, ho, hw, rfl⟩
  · exact .refl s'
  · refine (silent_drop fun q hq => ?_).withCounters _
    rw [hp] at hq
    cases hq
    exact ho
  · exact (silent_writeBack_drop hp ho hw).withCounters _

/-- The only thing that can be wrong is that there is no page to give up. -/
theorem Follows.makeRoom_error (hs : s.Follows l) {e : StoreError} (h : s.makeRoom t = .error e) :
    e = .noEvictablePage := by
  rw [makeRoom] at h
  split at h
  · cases h
  · rw [evictOne] at h
    split at h
    · cases h
    · split at h
      · cases h
        rfl
      · rename_i page hv
        obtain ⟨id, hp, -⟩ := ownVictim?_eq_some hv
        obtain ⟨s₁, hw⟩ := hs.exists_writeBack hp
        rw [hw] at h
        cases h

/-! ## Reading -/

/-- A page that is read is as it was before. -/
theorem alike_load (hn : s.cache.page? id = none) (hf : s.catalog.file id.table = .ok f)
    (hr : s.disk.readPage f id = .ok page) : s.Alike (s.onCache fun c => c.load page) := by
  refine ⟨rfl, rfl, .refl _ _, fun p => ?_⟩
  obtain ⟨image, hi, hd⟩ := Disk.readPage_eq_ok hr
  have hid : page.id = id := (Page.decode_eq_ok hd).2.1
  rw [view_load]
  split
  · rename_i he
    rw [hid] at he
    subst he
    exact PageView.alike_load hn (file_view hf) ((image_view hf).trans hi) hd
  · exact .refl _

theorem silent_load (hn : s.cache.page? id = none) (hf : s.catalog.file id.table = .ok f)
    (hr : s.disk.readPage f id = .ok page) : Silent s (s.onCache fun c => c.load page) :=
  ⟨fun _ => quietAt_load hn (fun he => he ▸ hf) hr, fun _ => alike_load hn hf hr⟩

theorem silent_ensureCached (hf : s.catalog.file id.table = .ok f) :
    Silent s (s.ensureCached t f id).2 := by
  have hensured := s.ensured t f id
  generalize s.ensureCached t f id = result at hensured ⊢
  have hmissed : Silent s (s.count .misses) := (Silent.refl s).withCounters _
  cases hensured with
  | hit => exact (Silent.refl s).withCounters _
  | crowded => exact hmissed
  | unread hr => exact hmissed.trans (silent_makeRoom hr)
  | @read s₁ page hn hr hp =>
      have hroom := hmissed.trans (silent_makeRoom hr)
      have hf₁ : s₁.catalog.file id.table = .ok f := (hroom.quiet id).catalog ▸ hf
      exact (hroom.trans (silent_load (page?_makeRoom hr hn) hf₁ hp)).withCounters _

/-! ## Flushing and discarding -/

theorem silent_flushPage (h : s.flushPage id = .ok s') : Silent s s' := by
  rw [flushPage] at h
  split at h
  · cases h
    exact .refl s
  · rename_i page hp
    exact silent_writeBack hp h

theorem silent_untilError {α : Type} {g : Store → α → Except StoreError Store}
    (hg : ∀ {s a s'}, g s a = .ok s' → Silent s s') (s : Store) (as : List α) :
    Silent s (untilError g s as).2 := by
  induction as generalizing s with
  | nil => exact .refl s
  | cons a as ih =>
      rw [untilError]
      split
      · exact .refl s
      · rename_i s₁ h
        exact (hg h).trans (ih s₁)

theorem silent_flushPages (s : Store) (t : TransactionId) : Silent s (s.flushPages t).2 :=
  silent_untilError silent_flushPage s _

theorem silent_flushAll (s : Store) : Silent s s.flushAll.2 :=
  silent_untilError silent_flushPage s _

theorem silent_discard (hc : ∀ page, s.cache.page? id = some page → page.owner = none) :
    Silent s (s.discard id) := by
  rw [discard]
  split
  · exact .refl s
  · have h := silent_drop hc
    dsimp only
    split
    · exact h.withCounters _
    · exact h

theorem Follows.exists_flushPage (hs : s.Follows l) (id : PageId) :
    ∃ s', s.flushPage id = .ok s' := by
  rw [flushPage]
  split
  · exact ⟨s, rfl⟩
  · exact hs.exists_writeBack ‹_›

/-- No flush of many pages fails. -/
theorem Follows.untilError_flushPage (hs : s.Follows l) (ids : List PageId) :
    (untilError flushPage s ids).1 = .ok () := by
  induction ids generalizing s with
  | nil => rfl
  | cons id ids ih =>
      obtain ⟨s₁, h⟩ := hs.exists_flushPage id
      rw [untilError, h]
      exact ih ((silent_flushPage h).follows hs)

end PagedStore.Store
