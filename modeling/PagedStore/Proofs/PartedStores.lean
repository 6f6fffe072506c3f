import PagedStore.Proofs.Likeness
import PagedStore.Proofs.PartedLocks

/-!
# Stores of groups that share no table

Two stores are *alike for a group* (`Store.AlikeFor`) if the pages and the files of its tables
are alike, and the lock tables are.  What the pages of other tables hold does not matter, nor what
is cached, nor who else waits for whom.

For the transactions of the group, which keep to its tables, such stores are the same
(`Store.AlikeFor.likeness`).  And whatever a transaction of another group does, the store stays
alike for the group (`Store.likeness_other`): its pages may be written early and leave the cache,
but nobody changes them.
-/

namespace PagedStore

/-- The tables of the group of a transaction. -/
def Parting.own {γ : Type} (P : Parting γ) (t : TransactionId) : TableId → Prop :=
  fun table => P.table table = P.transaction t

namespace Store

variable {γ : Type} {P : Parting γ} {g : γ} {s s' s'' : Store} {l l' : Ledger} {id : PageId}
  {t : TransactionId} {f : TableFile} {c : Catalog}

/-! ## Alike for a group -/

/-- The group cannot tell the stores apart, and on both everyone keeps to the own group. -/
structure AlikeFor (P : Parting γ) (g : γ) (s s' : Store) : Prop where
  parted : s.locks.Parted P
  parted' : s'.locks.Parted P
  catalog : s'.catalog = s.catalog
  locks : s.locks.AlikeFor P g s'.locks
  tails : ∀ {u f}, P.table u = g → s.catalog.file u = .ok f →
    f.SameTail (s.disk.contents f) (s'.disk.contents f)
  view : ∀ {p}, P.table p.table = g → (s.view p).Alike (s'.view p)

namespace AlikeFor

theorem symm (h : s.AlikeFor P g s') : s'.AlikeFor P g s where
  parted := h.parted'
  parted' := h.parted
  catalog := h.catalog.symm
  locks := h.locks.symm
  tails hu hf := (h.tails hu (h.catalog ▸ hf)).symm
  view hp := (h.view hp).symm

theorem trans (h : s.AlikeFor P g s') (h' : s'.AlikeFor P g s'') : s.AlikeFor P g s'' where
  parted := h.parted
  parted' := h'.parted'
  catalog := h'.catalog.trans h.catalog
  locks := h.locks.trans h'.locks
  tails hu hf := (h.tails hu hf).trans (h'.tails hu (h.catalog ▸ hf))
  view hp := (h.view hp).trans (h'.view hp)

/-- The files of the group have the same numbers of pages. -/
theorem pageCount_eq (h : s.AlikeFor P g s') (hu : P.table f.table = g)
    (hf : s.catalog.file f.table = .ok f) : s'.disk.pageCount f = s.disk.pageCount f := by
  rw [Disk.pageCount_eq, Disk.pageCount_eq, TableFile.pageCount, TableFile.pageCount,
    (h.tails hu hf).length]

/-- The files of the group are the same if none of its pages has an owner. -/
theorem contents_eq (h : s.AlikeFor P g s') {u : TableId} (hu : P.table u = g)
    (hf : s.catalog.file u = .ok f) (ho : ∀ p, p.table = u → ∀ t, ¬ (s.view p).Owns t) :
    s'.disk.contents f = s.disk.contents f := by
  refine (h.tails hu hf).eq fun n => ?_
  let p : PageId := { table := u, number := n }
  have t : TransactionId := ⟨0⟩
  have halike : (s.view p).Alike (s'.view p) := h.view hu
  have hn : (s.view p).owner? ≠ some t := fun hu => ho p rfl t (Or.inl hu)
  have hn' : (s'.view p).owner? ≠ some t := fun hu => ho p rfl t ((halike.owns t).1 (Or.inl hu))
  have hsettled := halike.settled (PageView.Agrees.openTo_of_forall_not (t := t) (ho p rfl))
  rw [PageView.settled_of_ne hn, PageView.settled_of_ne hn', image_view (s := s) hf,
    image_view (s := s') (h.catalog ▸ hf)] at hsettled
  exact hsettled

end AlikeFor

/-- Alike stores are so for every group. -/
theorem Alike.alikeFor (h : s.Alike s') (hl : s.locks.Parted P) (g : γ) : s.AlikeFor P g s' where
  parted := hl
  parted' := h.locks ▸ hl
  catalog := h.catalog
  locks := h.locks ▸ .refl P g _
  tails _ hf := h.outside.tails hf
  view _ := h.view _

/-! ## What is done for the group -/

namespace AlikeFor

/-- A transaction has ended on both. -/
theorem ended {e e' : Store} (h : s.AlikeFor P g s') (hs : s.Follows l) (hs' : s'.Follows l')
    (hc : e.catalog = s.catalog) (hc' : e'.catalog = s'.catalog)
    (hl : e.locks = (s.locks.releaseAll t).2) (hl' : e'.locks = (s'.locks.releaseAll t).2)
    (ho : s.disk.SameOutside s.catalog e.disk) (ho' : s'.disk.SameOutside s'.catalog e'.disk)
    (hv : ∀ {p}, P.table p.table = g → (e.view p).Alike (e'.view p)) : e.AlikeFor P g e' where
  parted := hl ▸ h.parted.releaseAll hs.sound.indexed t
  parted' := hl' ▸ h.parted'.releaseAll hs'.sound.indexed t
  catalog := hc'.trans (h.catalog.trans hc.symm)
  locks := by
    rw [hl, hl']
    exact h.locks.releaseAll hs.sound.indexed hs'.sound.indexed t
  tails hu hf := by
    rw [hc] at hf
    exact ((ho.tails hf).symm.trans (h.tails hu hf)).trans (ho'.tails (h.catalog ▸ hf))
  view := hv

/-- A page is put at the end of a file of the group on both. -/
theorem append (h : s.AlikeFor P g s') (hs : s.Follows l) (hs' : s'.Follows l')
    (hu : P.table f.table = g) (hin : s.catalog.file f.table = .ok f)
    (hf : ∀ {u k}, s.catalog.file u = .ok k → k.name = f.name → k = f) :
    AlikeFor P g { s with disk := (s.disk.append f).2 }
      { s' with disk := (s'.disk.append f).2 } := by
  refine ⟨h.parted, h.parted', h.catalog, h.locks, fun {u k} hk hfile => ?_,
    fun hp => alikeAt_append (h.view hp) hs hs' h.catalog (h.pageCount_eq hu hin) hf⟩
  rw [Disk.contents_append, Disk.contents_append]
  split
  · rename_i hname
    obtain rfl := hf hfile hname.symm
    exact (h.tails hk hfile).append (hs.numbered { table := u, number := 0 } hfile)
  · exact h.tails hk hfile

/-- For a transaction of the group the stores are the same within its tables. -/
theorem likeness (P : Parting γ) (t : TransactionId) (hc : c.Sound) :
    Likeness t (c.scope (P.own t))
      fun s s' => s.catalog = c ∧ s.AlikeFor P (P.transaction t) s' where
  catalog h := h.2.catalog
  view h hp := h.2.view hp
  pageCount h hf := h.2.pageCount_eq hf.1 (h.1 ▸ hf.2)
  table hf := hf.1
  file h ht hf := hc.scope_file ht (h.1 ▸ hf)
  silent h hs hs' hq hq' := by
    refine ⟨(hq.quiet ⟨⟨0⟩, 0⟩).catalog.trans h.1, ?_⟩
    exact (((hq.alike hs).alikeFor h.2.parted _).symm.trans h.2).trans
      ((hq'.alike hs').alikeFor h.2.parted' _)
  consider h ht := by
    obtain ⟨hv, hlocks⟩ := h.2.locks.consider h.2.parted h.2.parted' rfl ht
    exact ⟨hv, h.1, h.2.parted.consider ht, h.2.parted'.consider ht, h.2.catalog, hlocks,
      h.2.tails, fun hp => alikeAt_consider (h.2.view hp) hv⟩
  take h hs hs' _ hm hc hc' :=
    ⟨h.1, h.2.parted, h.2.parted', h.2.catalog, h.2.locks, h.2.tails,
      fun hp => alikeAt_take (h.2.view hp) hs hs' hm hc hc'⟩
  releasePage h _ :=
    ⟨h.1, h.2.parted.release _ t, h.2.parted'.release _ t, h.2.catalog, h.2.locks.release _ t,
      h.2.tails, fun hp => alikeAt_releasePage (h.2.view hp) t _⟩
  change h hs hs' _ hc hc' ho ho' hm hm' :=
    ⟨h.1, h.2.parted, h.2.parted', h.2.catalog, h.2.locks, h.2.tails,
      fun hp => alikeAt_change (h.2.view hp) hs hs' hc hc' ho ho' hm hm'⟩
  append h hs hs' hin hf := ⟨h.1, h.2.append hs hs' hin.1 (h.1 ▸ hin.2) hf⟩
  commit h hs hs' := by
    obtain ⟨hok, hcat, hl, ho⟩ := hs.commit_frame t
    obtain ⟨hok', hcat', hl', ho'⟩ := hs'.commit_frame t
    refine ⟨hok'.trans hok.symm, hcat.trans h.1,
      h.2.ended hs hs' hcat hcat' hl hl' ho ho' fun {p} hp => ?_⟩
    rw [hs.view_commit, hs'.view_commit]
    exact (h.2.view hp).committed (hs.view p) (hs'.view p) t
  abort h hs hs' := by
    obtain ⟨hok, hcat, hl, ho, hv⟩ := hs.abort_frame t
    obtain ⟨hok', hcat', hl', ho', hv'⟩ := hs'.abort_frame t
    refine ⟨hok'.trans hok.symm, hcat.trans h.1,
      h.2.ended hs hs' hcat hcat' hl hl' ho ho' fun {p} hp => ?_⟩
    rw [hv, hv']
    exact (h.2.view hp).aborted (hs.view p) (hs'.view p) t

end AlikeFor

/-! ## What is done for other groups -/

section Other

/-- Only pages of other groups are concerned, and no file. -/
theorem alikeFor_of_view (hl : s.locks.Parted P) (hl' : s'.locks.Parted P)
    (hc : s'.catalog = s.catalog) (hlocks : s.locks.AlikeFor P g s'.locks)
    (hd : s'.disk = s.disk) (hv : ∀ {p}, P.table p.table = g → s'.view p = s.view p) :
    s.AlikeFor P g s' :=
  ⟨hl, hl', hc, hlocks, fun _ _ => hd ▸ .refl _ _, fun hp => hv hp ▸ .refl _⟩

/-- A page of another group is not one of the group. -/
theorem ne_of_own (hid : P.own t id.table) (ht : P.transaction t ≠ g) {p : PageId}
    (hp : P.table p.table = g) : id ≠ p := by
  rintro rfl
  exact ht (hid.symm.trans hp)

theorem alikeFor_consider {r : LockRequest} (hl : s.locks.Parted P) (hid : P.own t r.page.table)
    (ht : P.transaction t ≠ g) :
    s.AlikeFor P g { s with locks := (s.locks.consider t r).2 } := by
  refine alikeFor_of_view hl (hl.consider hid) rfl
    (s.locks.alikeFor_consider ht fun he => ht (hid.symm.trans he)) rfl fun hp => ?_
  rw [view_consider, if_neg fun he => ne_of_own hid ht hp he.2]

theorem alikeFor_take (hl : s.locks.Parted P) (hid : P.own t id.table) (ht : P.transaction t ≠ g)
    (mode : LockMode) : s.AlikeFor P g (s.take t id mode) := by
  refine alikeFor_of_view hl hl rfl (.refl P g _) rfl fun hp => ?_
  rw [view_take, if_neg (ne_of_own hid ht hp)]

theorem alikeFor_releasePage (hl : s.locks.Parted P) (hid : P.own t id.table)
    (ht : P.transaction t ≠ g) : s.AlikeFor P g (s.releasePage t id).2 := by
  refine alikeFor_of_view hl (hl.release id t) rfl
    (s.locks.alikeFor_release t fun he => ht (hid.symm.trans he)) rfl fun hp => ?_
  rw [view_releasePage, if_neg (ne_of_own hid ht hp)]

theorem alikeFor_update (hl : s.locks.Parted P) (hid : P.own t id.table) (ht : P.transaction t ≠ g)
    (change : Page → Page) : s.AlikeFor P g (s.onCache fun c => c.update id change) := by
  refine alikeFor_of_view hl hl rfl (.refl P g _) rfl fun hp => ?_
  rw [view_update, if_neg (ne_of_own hid ht hp)]

/-- A page is put at the end of a file of another group. -/
theorem alikeFor_append (hl : s.locks.Parted P) (hs : s.Follows l) (hid : P.own t f.table)
    (ht : P.transaction t ≠ g)
    (hf : ∀ {u k}, s.catalog.file u = .ok k → k.name = f.name → k = f) :
    s.AlikeFor P g { s with disk := (s.disk.append f).2 } := by
  have hne : ∀ {u k}, P.table u = g → s.catalog.file u = .ok k → k.name ≠ f.name := by
    intro u k hu hk hname
    obtain rfl := hf hk hname
    rw [hs.sound.catalog.table hk] at hid
    exact ht (hid.symm.trans hu)
  refine ⟨hl, hl, rfl, .refl P g _, fun {u k} hu hk => ?_, fun {p} hp => ?_⟩
  · rw [Disk.contents_append, if_neg fun he => hne hu hk he.symm]
    exact .refl _ _
  · have hold := (view_append (hs.numbered p) fun k hk => hf hk).2
    rw [hold fun ⟨k, hk, hname, _⟩ => hne hp hk hname]
    exact .refl _

/-- A transaction of another group has no page of the group. -/
theorem mode_eq_none (hl : s.locks.Parted P) (ht : P.transaction t ≠ g) {p : PageId}
    (hp : P.table p.table = g) : (s.view p).mode t = none := by
  by_contra hm
  exact ht ((hl.held hm).symm.trans hp)

/-- A transaction of another group has ended. -/
theorem alikeFor_ended {e : Store} (hl : s.locks.Parted P) (hs : s.Follows l)
    (ht : P.transaction t ≠ g) (hc : e.catalog = s.catalog)
    (he : e.locks = (s.locks.releaseAll t).2) (ho : s.disk.SameOutside s.catalog e.disk)
    (hv : ∀ p, ¬ (s.view p).Owns t →
      e.view p = { s.view p with mode := ((s.view p).cleared t).mode }) : s.AlikeFor P g e where
  parted := hl
  parted' := he ▸ hl.releaseAll hs.sound.indexed t
  catalog := hc
  locks := he ▸ hl.alikeFor_releaseAll hs.sound.indexed ht
  tails _ hf := ho.tails hf
  view {p} hp := by
    have hm := mode_eq_none hl ht hp
    have hnot : ¬ (s.view p).Owns t := fun hown => by
      rw [(hs.view p).mode_of_owns hown] at hm
      cases hm
    have hview : e.view p = s.view p := by
      rw [hv p hnot]
      refine PageView.ext rfl rfl rfl rfl rfl (funext fun u => ?_)
      show ((s.view p).cleared t).mode u = (s.view p).mode u
      rw [PageView.mode_cleared]
      split
      · rename_i hu
        rw [← hu, hm]
      · rfl
    rw [hview]
    exact .refl _

/-- Whatever a transaction of another group does in its tables, the store stays alike for the
group. -/
theorem likeness_other (s₀ : Store) (hc : c.Sound) (ht : P.transaction t ≠ g) :
    Likeness t (c.scope (P.own t))
      fun s s' => s.catalog = c ∧ s.Alike s' ∧ s₀.AlikeFor P g s where
  catalog h := h.2.1.catalog
  view h _ := h.2.1.view _
  pageCount h _ := h.2.1.outside.pageCount_eq _
  table hf := hf.1
  file h hu hf := hc.scope_file hu (h.1 ▸ hf)
  silent h hs hs' hq hq' :=
    ⟨(hq.quiet ⟨⟨0⟩, 0⟩).catalog.trans h.1, hq.both hq' h.2.1 hs hs',
      h.2.2.trans ((hq.alike hs).alikeFor h.2.2.parted' g)⟩
  consider h hid :=
    ⟨by rw [h.2.1.locks], h.1, h.2.1.consider t _,
      h.2.2.trans (alikeFor_consider h.2.2.parted' hid ht)⟩
  take h hs hs' hid hm hp hp' :=
    ⟨h.1, h.2.1.take hs hs' hm hp hp', h.2.2.trans (alikeFor_take h.2.2.parted' hid ht _)⟩
  releasePage h hid :=
    ⟨h.1, h.2.1.releasePage t _, h.2.2.trans (alikeFor_releasePage h.2.2.parted' hid ht)⟩
  change h hs hs' hid hp hp' ho ho' hm hm' := by
    refine ⟨h.1, h.2.1.change hs hs' hp hp' ho ho' hm hm',
      h.2.2.trans (alikeFor_update h.2.2.parted' ?_ ht _)⟩
    rw [← hs.sound.keyed hp] at hid
    rw [hm.same]
    exact hid
  append h hs hs' hin hf :=
    ⟨h.1, h.2.1.append hs hs' hf, h.2.2.trans (alikeFor_append h.2.2.parted' hs hin.1 ht hf)⟩
  commit h hs hs' := by
    obtain ⟨hr, halike⟩ := h.2.1.commit hs hs' t
    obtain ⟨-, hcat, hl, ho⟩ := hs.commit_frame t
    refine ⟨hr, hcat.trans h.1, halike,
      h.2.2.trans (alikeFor_ended h.2.2.parted' hs ht hcat hl ho fun p hnot => ?_)⟩
    rw [hs.view_commit, PageView.committed_of_not_owns hnot]
  abort h hs hs' := by
    obtain ⟨hr, halike⟩ := h.2.1.abort hs hs' t
    obtain ⟨-, hcat, hl, ho, hv⟩ := hs.abort_frame t
    refine ⟨hr, hcat.trans h.1, halike,
      h.2.2.trans (alikeFor_ended h.2.2.parted' hs ht hcat hl ho fun p hnot => ?_)⟩
    rw [hv, PageView.aborted_of_not_owns hnot]

end Other

end Store

end PagedStore
