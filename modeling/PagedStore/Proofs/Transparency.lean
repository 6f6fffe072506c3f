import PagedStore.Proofs.AlikeTraffic
import PagedStore.Proofs.SerialReplay

/-!
# The cache is transparent

Two stores begin with the same tables and the same files, and may differ in how many pages
they may cache.  The same moves are made on both, side by side, and now and then a page
without an owner is dropped from the cache of one of them (`Traffic.Abreast`).

Then the clients cannot tell the stores apart.  What they get to know of each move is the same
on both, the locks are the same, and while no page has an owner so are the files
(`Traffic.cache_transparent`).  Only a lack of room in the cache would show.
-/

namespace PagedStore

namespace Traffic

variable {s₀ s₀' : Store} {w w' : Traffic}

/-- Two runs side by side, from two stores.  The same moves are made in both, and lack room in
neither.  Besides, pages without an owner are dropped from either cache. -/
inductive Abreast (s₀ s₀' : Store) : Traffic → Traffic → Prop
  | start : Abreast s₀ s₀' { store := s₀ } { store := s₀' }
  | both {w w' v v' : Traffic} {move move' : Move} {events events' : List Event} :
      Abreast s₀ s₀' w w' → move.isPlain = true → move.Matches move' →
        w.lacksRoom move = false → w'.lacksRoom move' = false →
          w.step move = some (events, v) → w'.step move' = some (events', v') →
            Abreast s₀ s₀' v v'
  | left {w w' : Traffic} {page : PageId} :
      Abreast s₀ s₀' w w' → (w.store.view page).owner? = none →
        Abreast s₀ s₀' { w with store := w.store.discard page } w'
  | right {w w' : Traffic} {page : PageId} :
      Abreast s₀ s₀' w w' → (w'.store.view page).owner? = none →
        Abreast s₀ s₀' w { w' with store := w'.store.discard page }

/-- A run goes on with a page without an owner dropped. -/
theorem Run.discard {history : List Event} {page : PageId} (h : Run Orderly s₀ history w)
    (ho : (w.store.view page).owner? = none) :
    Run Orderly s₀ (history ++ []) { w with store := w.store.discard page } :=
  h.step (show Orderly _ w (.discard page) _ from ho) rfl

/-- Each of the two runs is orderly. -/
theorem Abreast.orderly (h : Abreast s₀ s₀' w w') :
    (∃ history, Run Orderly s₀ history w) ∧ ∃ history, Run Orderly s₀' history w' := by
  induction h with
  | start => exact ⟨⟨_, .start⟩, ⟨_, .start⟩⟩
  | both _ hp hm _ _ hs hs' ih =>
      obtain ⟨⟨history, hr⟩, ⟨history', hr'⟩⟩ := ih
      exact ⟨⟨_, hr.step (orderly_of_isPlain hp) hs⟩,
        ⟨_, hr'.step (orderly_of_isPlain (hm.isPlain.trans hp)) hs'⟩⟩
  | left _ ho ih =>
      obtain ⟨⟨history, hr⟩, hr'⟩ := ih
      exact ⟨⟨_, hr.discard ho⟩, hr'⟩
  | right _ ho ih =>
      obtain ⟨hr, history', hr'⟩ := ih
      exact ⟨hr, ⟨_, hr'.discard ho⟩⟩

/-- Fresh stores over the same files are alike. -/
theorem Fresh.alike (h₀ : Fresh s₀) (h₀' : Fresh s₀') (hc : s₀'.catalog = s₀.catalog)
    (hd : s₀'.disk = s₀.disk) : s₀.Alike s₀' := by
  refine ⟨hc, by rw [h₀.locks, h₀'.locks], hd ▸ .refl _ _, fun p => ?_⟩
  have hview : s₀'.view p = s₀.view p := by
    simp only [Store.view, hc, hd, h₀.locks, h₀'.locks, h₀.cache, h₀'.cache]
  rw [hview]
  exact .refl _

/-- A page without an owner is dropped. -/
theorem silent_discard {page : PageId} (h : (w.store.view page).owner? = none) :
    Store.Silent w.store (w.store.discard page) := by
  refine Store.silent_discard fun copy hc => ?_
  rw [← h]
  exact (PageView.owner?_of_copy (v := w.store.view page) hc).symm

/-- The two runs have alike stores, and their transactions are at the same tasks. -/
theorem Abreast.alike (h₀ : Fresh s₀) (h₀' : Fresh s₀') (hc : s₀'.catalog = s₀.catalog)
    (hd : s₀'.disk = s₀.disk) (h : Abreast s₀ s₀' w w') (hn : ∀ p, w.store.NumberedAt p) :
    w.Alike w' := by
  induction h with
  | start => exact ⟨h₀.alike h₀' hc hd, fun _ => rfl⟩
  | both hrun hp hm hroom hroom' hs hs' ih =>
      have hgrew := grew_of_step (l := {}) (orderly_of_isPlain hp) hs
      have hn := fun p => hgrew.numberedAt (hn p)
      have halike := ih hn
      obtain ⟨⟨history, hr⟩, ⟨history', hr'⟩⟩ := hrun.orderly
      exact (halike.step (fun p => soundAt_of_orderly h₀ hr (hn p))
        (fun p => soundAt_of_orderly h₀' hr' (halike.store.numberedAt (hn p))) hp hm
          (hroom'.trans hroom.symm)).2 hs hs'
  | left hrun ho ih =>
      have hn := fun p => (Store.steady_discard ..).toGrew.numberedAt (hn p)
      have halike := ih hn
      obtain ⟨⟨history, hr⟩, -⟩ := hrun.orderly
      have ha := SoundAt.storeFollows fun p => soundAt_of_orderly h₀ hr (hn p)
      exact ⟨((silent_discard ho).alike ha).symm.trans halike.store, halike.tasks⟩
  | right hrun ho ih =>
      have halike := ih hn
      obtain ⟨-, history', hr'⟩ := hrun.orderly
      have ha' := SoundAt.storeFollows
        fun p => soundAt_of_orderly h₀' hr' (halike.store.numberedAt (hn p))
      exact ⟨halike.store.trans ((silent_discard ho).alike ha'), halike.tasks⟩

/-- Whatever the caches hold, the locks of the two stores are the same, every further move
that lacks room on neither can be made on both or on none and has the same outcome, and while
no page has an owner the files are the same.  Every table has fewer than `2 ^ 32` pages. -/
theorem cache_transparent (h₀ : Fresh s₀) (h₀' : Fresh s₀') (hc : s₀'.catalog = s₀.catalog)
    (hd : s₀'.disk = s₀.disk) (h : Abreast s₀ s₀' w w') (hn : ∀ p, w.store.NumberedAt p) :
    w'.store.locks = w.store.locks ∧
      (∀ {move move' : Move}, move.isPlain = true → move.Matches move' →
        w.lacksRoom move = false → w'.lacksRoom move' = false →
          (w'.step move' = none ↔ w.step move = none) ∧
            (w'.outcome move').map Outcome.bare = (w.outcome move).map Outcome.bare) ∧
        ((∀ p t, ¬ (w.store.view p).Owns t) → w'.store.disk = w.store.disk) := by
  have halike := h.alike h₀ h₀' hc hd hn
  obtain ⟨⟨history, hr⟩, history', hr'⟩ := h.orderly
  refine ⟨halike.store.locks, fun hp hm hroom hroom' => ?_, halike.store.disk_eq⟩
  have hout := (halike.step (fun p => soundAt_of_orderly h₀ hr (hn p))
    (fun p => soundAt_of_orderly h₀' hr' (halike.store.numberedAt (hn p))) hp hm
      (hroom'.trans hroom.symm)).1
  refine ⟨?_, hout⟩
  rw [← outcome_eq_none_iff, ← outcome_eq_none_iff, ← Option.map_eq_none_iff, hout,
    Option.map_eq_none_iff]

/-! ## A wide and a narrow cache -/

/-- None of some moves, made one after another, lacks room. -/
def hasRoom (w : Traffic) : List Move → Bool
  | [] => true
  | move :: moves =>
      !w.lacksRoom move &&
        match w.step move with
        | none => true
        | some (_, w') => w'.hasRoom moves

/-- The same moves are made in both runs. -/
theorem Abreast.steps {moves : List Move} {r r' : List Event × Traffic}
    (h : Abreast s₀ s₀' w w') (hp : ∀ move ∈ moves, move.isPlain = true)
    (hroom : w.hasRoom moves = true) (hroom' : w'.hasRoom moves = true)
    (hs : w.steps moves = some r) (hs' : w'.steps moves = some r') :
    Abreast s₀ s₀' r.2 r'.2 := by
  induction moves generalizing w w' r r' with
  | nil =>
      cases hs
      cases hs'
      exact h
  | cons move moves ih =>
      rw [Traffic.steps] at hs hs'
      rw [hasRoom, Bool.and_eq_true, Bool.not_eq_true'] at hroom hroom'
      split at hs
      · cases hs
      · rename_i first w₁ hstep
        split at hs'
        · cases hs'
        · rename_i first' w₁' hstep'
          rw [hstep] at hroom
          rw [hstep'] at hroom'
          obtain ⟨_, hrest, rfl⟩ := Option.map_eq_some_iff.1 hs
          obtain ⟨_, hrest', rfl⟩ := Option.map_eq_some_iff.1 hs'
          have hboth := h.both (hp move List.mem_cons_self) (.same move) hroom.1 hroom'.1 hstep
            hstep'
          exact (ih hboth (fun m hm => hp m (List.mem_cons_of_mem _ hm)) hroom.2 hroom'.2 hrest
            hrest' :)

namespace Small

/-- The small store with room for one page only. -/
def narrow : Store := { store with settings := { pageSize := 5, poolPages := 1 } }

theorem fresh_narrow : Fresh narrow := ⟨fresh.catalog, rfl, rfl⟩

/-- A transaction deletes two rows and commits.  Another one asks for the first page. -/
def twoDeletes : List Move :=
  [.start ⟨0⟩ (.delete (record 0)), .resume ⟨0⟩, .start ⟨0⟩ (.delete (record 1)), .resume ⟨0⟩,
   .commit ⟨0⟩, .start ⟨1⟩ (.getPage (page 0) .exclusive)]

/-- The traffic on the narrow store after this. -/
def narrowAfter : Traffic :=
  ((({ store := narrow } : Traffic).steps twoDeletes).getD ([], { store := narrow })).2

end Small

theorem Small.abreast :
    Abreast Small.store Small.narrow (Small.after Small.twoDeletes).2 Small.narrowAfter :=
  Abreast.steps .start (by decide) (by decide +kernel) (by decide +kernel)
    (eq_some_getD (by decide +kernel) _) (eq_some_getD (by decide +kernel) _)

/-- The narrow store has given up the page, and the other one, which has it, has dropped the page
that the narrow store still has. -/
theorem cache_transparent_small :
    ∃ w, Abreast Small.store Small.narrow w Small.narrowAfter ∧
      w.store.cache.ids = [Small.page 0] ∧ Small.narrowAfter.store.cache.ids = [Small.page 1] ∧
        Small.narrowAfter.store.locks = w.store.locks ∧
          (Small.narrowAfter.outcome (.resume ⟨1⟩)).map Outcome.bare =
              (w.outcome (.resume ⟨1⟩)).map Outcome.bare ∧
            Small.narrowAfter.store.disk = w.store.disk := by
  let w : Traffic :=
    { (Small.after Small.twoDeletes).2 with
      store := (Small.after Small.twoDeletes).2.store.discard (Small.page 1) }
  have h : Abreast Small.store Small.narrow w Small.narrowAfter :=
    Small.abreast.left (by decide +kernel)
  have hn : ∀ p, w.store.NumberedAt p := Small.numberedAt (by decide +kernel) (by decide +kernel)
  obtain ⟨⟨history, hr⟩, -⟩ := h.orderly
  have hlocks : w.store.locks = ∅ := by decide +kernel
  obtain ⟨hl, hout, hdisk⟩ := cache_transparent Small.fresh Small.fresh_narrow rfl rfl h hn
  refine ⟨w, h, by decide +kernel, by decide +kernel, hl,
    (hout rfl (.same _) (by decide +kernel) (by decide +kernel)).2,
    hdisk fun p t => not_owns_of_unlocked Small.fresh hr (hn p) hlocks t⟩

end Traffic

end PagedStore
