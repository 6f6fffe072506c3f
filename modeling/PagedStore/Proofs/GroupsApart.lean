import PagedStore.Proofs.PartedTraffic
import PagedStore.Proofs.Transparency

/-!
# Groups that share no table do not notice each other

Transactions and tables are divided among groups, and each transaction uses only tables of its
own group.  The moves of one group are made twice from one store: among the moves of the other
groups, in any order, and alone (`Traffic.Among`).

Then the group cannot tell whether the others are there.  Each of its moves has the same outcome,
and while none of its transactions is live the files of its tables are the same
(`Traffic.groups_apart`).  All groups share one cache, one lock table and one graph of those that
wait, but only a lack of room in the cache would show.
-/

namespace PagedStore

open Std (ExtTreeMap)

/-- The transactions that are live after a move, when some are before it. -/
def Move.live (move : Move) (live : TransactionId → Prop) : TransactionId → Prop :=
  match move with
  | .start t _ | .resume t => fun u => u = t ∨ live u
  | .commit t | .abort t => fun u => u ≠ t ∧ live u
  | _ => live

namespace Traffic

variable {γ : Type} {P : Parting γ} {g : γ} {s₀ : Store} {live : TransactionId → Prop}
  {w w' v : Traffic} {move : Move} {events : List Event} {l : Ledger} {t u : TransactionId}
  {p : PageId}

/-- A run of all groups, and one of a single group that makes the same moves alone, and the
transactions that are live in the first.  No move lacks room. -/
inductive Among (P : Parting γ) (g : γ) (s₀ : Store) :
    (TransactionId → Prop) → Traffic → Traffic → Prop
  | start : Among P g s₀ (fun _ => False) { store := s₀ } { store := s₀ }
  | both {live : TransactionId → Prop} {w w' v v' : Traffic} {t : TransactionId}
      {move move' : Move} {events events' : List Event} :
      Among P g s₀ live w w' → move.OwnOf P s₀.catalog t → P.transaction t = g →
        move.Matches move' → w.lacksRoom move = false → w'.lacksRoom move' = false →
          w.step move = some (events, v) → w'.step move' = some (events', v') →
            Among P g s₀ (move.live live) v v'
  | other {live : TransactionId → Prop} {w w' v : Traffic} {t : TransactionId} {move : Move}
      {events : List Event} :
      Among P g s₀ live w w' → move.OwnOf P s₀.catalog t → P.transaction t ≠ g →
        w.lacksRoom move = false → w.step move = some (events, v) →
          Among P g s₀ (move.live live) v w'

/-- If the pages can be counted after a move, so can they be before. -/
theorem numberedAt_of_own {c : Catalog} (hk : move.OwnOf P c t)
    (hs : w.step move = some (events, v)) (hn : ∀ p, v.store.NumberedAt p) (p : PageId) :
    w.store.NumberedAt p :=
  (grew_of_step (l := {}) (orderly_of_isPlain hk.isPlain) hs).numberedAt (hn p)

/-- Each of the two runs is orderly. -/
theorem Among.orderly (h : Among P g s₀ live w w') :
    (∃ history, Run Orderly s₀ history w) ∧ ∃ history, Run Orderly s₀ history w' := by
  induction h with
  | start => exact ⟨⟨_, .start⟩, ⟨_, .start⟩⟩
  | both _ hk _ hm _ _ hs hs' ih =>
      obtain ⟨⟨history, hr⟩, ⟨history', hr'⟩⟩ := ih
      exact ⟨⟨_, hr.step (orderly_of_isPlain hk.isPlain) hs⟩,
        ⟨_, hr'.step (orderly_of_isPlain (hk.of_matches hm).isPlain) hs'⟩⟩
  | other _ hk _ _ hs ih =>
      obtain ⟨⟨history, hr⟩, hr'⟩ := ih
      exact ⟨⟨_, hr.step (orderly_of_isPlain hk.isPlain) hs⟩, hr'⟩

/-- Each of the two runs is sound at the pages that can be counted. -/
theorem Among.sound (h₀ : Fresh s₀) (h : Among P g s₀ live w w') :
    (∃ l, (∀ p, w.store.NumberedAt p) → ∀ p, w.SoundAt p l) ∧
      ∃ l, (∀ p, w'.store.NumberedAt p) → ∀ p, w'.SoundAt p l := by
  obtain ⟨⟨_, hr⟩, ⟨_, hr'⟩⟩ := h.orderly
  exact ⟨⟨_, fun hn p => soundAt_of_orderly h₀ hr (hn p)⟩,
    ⟨_, fun hn p => soundAt_of_orderly h₀ hr' (hn p)⟩⟩

/-- The runs are apart for the group, and the pages of the second can be counted. -/
theorem Among.apart (h₀ : Fresh s₀) (h : Among P g s₀ live w w')
    (hn : ∀ p, w.store.NumberedAt p) :
    w.Apart P g s₀.catalog w' ∧ ∀ p, w'.store.NumberedAt p := by
  induction h with
  | start =>
      have hl : s₀.locks.Parted P := h₀.locks ▸ LockTable.parted_empty P
      exact ⟨⟨rfl, (Store.Alike.refl s₀).alikeFor hl g, fun _ => rfl,
        fun t task ht => by cases ht⟩, hn⟩
  | both hrun hk ht hm hroom hroom' hs hs' ih =>
      have hbefore := numberedAt_of_own hk hs hn
      obtain ⟨hapart, hn'⟩ := ih hbefore
      obtain ⟨⟨_, hsound⟩, ⟨_, hsound'⟩⟩ := hrun.sound h₀
      have hafter := (hapart.both h₀.catalog (hsound hbefore) (hsound' hn') hk ht hm
        (hroom'.trans hroom.symm)).2 hs hs'
      exact ⟨hafter, hafter.numberedAt hapart (hsound' hn') (hk.of_matches hm) ht hs' hn⟩
  | other hrun hk ht _ hs ih =>
      have hbefore := numberedAt_of_own hk hs hn
      obtain ⟨hapart, hn'⟩ := ih hbefore
      obtain ⟨⟨_, hsound⟩, -⟩ := hrun.sound h₀
      exact ⟨hapart.other (hsound hbefore) hk ht hs, hn'⟩

/-! ## Transactions that are not live -/

/-- Who is live stays live while others make moves. -/
theorem live_of_other (ht : move.transaction? = some t) (hne : u ≠ t) (h : live u) :
    move.live live u := by
  cases move with
  | start | resume => exact Or.inr h
  | commit | abort =>
      cases ht
      exact ⟨hne, h⟩
  | flushPage | flushPages | flushAll | discard | release | replace => exact h

/-- A transaction that is not live after a move holds no page, if none did that was not live
before. -/
theorem unlocked_of_step {c : Catalog} (hs : ∀ p, w.SoundAt p l) (hk : move.OwnOf P c t)
    (hstep : w.step move = some (events, v)) (hn : v.store.NumberedAt p)
    (hidle : ∀ u, ¬ live u → (w.store.view p).mode u = none) (hu : ¬ move.live live u) :
    (v.store.view p).mode u = none := by
  have ht := hk.transaction
  by_cases he : u = t
  · -- It has committed or aborted, and given all its locks back.
    subst he
    have hfollows := SoundAt.storeFollows hs
    cases move with
    | start | resume =>
        cases ht
        exact absurd (Or.inl rfl) hu
    | commit =>
        cases ht
        cases hstep
        exact hfollows.mode_commit u p
    | abort =>
        cases ht
        cases hstep
        exact hfollows.mode_abort u p
    | flushPage | flushPages | flushAll | discard | release | replace => cases ht
  · have hother : ∀ ⦃u'⦄, move.for? = some u' → u' ≠ u := by
      rw [hk.for?_eq]
      rintro _ ⟨rfl⟩
      exact Ne.symm he
    rw [mode_of_step (hs p) (fun catalog disk hr => by rw [hr] at ht; cases ht) hstep hn hother]
    exact hidle u fun h => hu (live_of_other ht he h)

/-- A transaction that is not live holds no page. -/
theorem Among.unlocked (h₀ : Fresh s₀) (h : Among P g s₀ live w w')
    (hn : ∀ p, w.store.NumberedAt p) (hu : ¬ live u) : (w.store.view p).mode u = none := by
  induction h generalizing u with
  | start =>
      show s₀.locks.modeOf? p u = none
      rw [h₀.locks, LockTable.modeOf?_empty]
  | both hrun hk _ _ _ _ hs _ ih =>
      have hbefore := numberedAt_of_own hk hs hn
      obtain ⟨⟨_, hsound⟩, -⟩ := hrun.sound h₀
      exact unlocked_of_step (hsound hbefore) hk hs (hn p) (fun u => ih hbefore) hu
  | other hrun hk _ _ hs ih =>
      have hbefore := numberedAt_of_own hk hs hn
      obtain ⟨⟨_, hsound⟩, -⟩ := hrun.sound h₀
      exact unlocked_of_step (hsound hbefore) hk hs (hn p) (fun u => ih hbefore) hu

/-! ## The result -/

/-- Whatever other groups do, every further move of the group that lacks room neither among them
nor alone can be made in both runs or in none and has the same outcome, and while none of its
transactions is live the files of its tables are the same.  Every table has fewer than `2 ^ 32`
pages. -/
theorem groups_apart (h₀ : Fresh s₀) (h : Among P g s₀ live w w')
    (hn : ∀ p, w.store.NumberedAt p) :
    (∀ {t : TransactionId} {move move' : Move}, move.OwnOf P s₀.catalog t →
        P.transaction t = g → move.Matches move' → w.lacksRoom move = false →
          w'.lacksRoom move' = false →
            (w'.step move' = none ↔ w.step move = none) ∧
              (w'.outcome move').map Outcome.bare = (w.outcome move).map Outcome.bare) ∧
      ((∀ t, P.transaction t = g → ¬ live t) → ∀ {u : TableId} {f : TableFile}, P.table u = g →
        s₀.catalog.file u = .ok f → w'.store.disk.contents f = w.store.disk.contents f) := by
  obtain ⟨hapart, hn'⟩ := h.apart h₀ hn
  obtain ⟨⟨_, hsound⟩, ⟨_, hsound'⟩⟩ := h.sound h₀
  refine ⟨fun hk ht hm hroom hroom' => ?_, fun hidle u f hu hf => ?_⟩
  · have hout := (hapart.both h₀.catalog (hsound hn) (hsound' hn') hk ht hm
      (hroom'.trans hroom.symm)).1
    refine ⟨?_, hout⟩
    rw [← outcome_eq_none_iff, ← outcome_eq_none_iff, ← Option.map_eq_none_iff, hout,
      Option.map_eq_none_iff]
  · refine hapart.store.contents_eq hu (hapart.catalog ▸ hf) fun p hp t hown => ?_
    -- An owner holds the page, so it is live and of the group.
    have hmode := (hsound hn p).agrees.mode_of_owns hown
    by_cases ht : P.transaction t = g
    · rw [h.unlocked h₀ hn (hidle t ht)] at hmode
      cases hmode
    · rw [Store.mode_eq_none hapart.store.parted ht (hp ▸ hu)] at hmode
      cases hmode

/-! ## Two tables -/

/-- The moves are made one after another, and those of the group also alone. -/
theorem Among.steps {moves : List Move} {mine : Move → Bool} {r r' : List Event × Traffic}
    (h : Among P g s₀ live w w')
    (hk : ∀ move ∈ moves, ∃ t, move.OwnOf P s₀.catalog t ∧ (mine move = true ↔ P.transaction t = g))
    (hroom : w.hasRoom moves = true) (hroom' : w'.hasRoom (moves.filter mine) = true)
    (hs : w.steps moves = some r) (hs' : w'.steps (moves.filter mine) = some r') :
    Among P g s₀ (moves.foldl (fun live move => move.live live) live) r.2 r'.2 := by
  induction moves generalizing live w w' r r' with
  | nil =>
      cases hs
      cases hs'
      exact h
  | cons move moves ih =>
      obtain ⟨t, hown, hmine⟩ := hk move List.mem_cons_self
      have hk := fun m hm => hk m (List.mem_cons_of_mem _ hm)
      rw [Traffic.steps] at hs
      rw [hasRoom, Bool.and_eq_true, Bool.not_eq_true'] at hroom
      split at hs
      · cases hs
      · rename_i first w₁ hstep
        rw [hstep] at hroom
        obtain ⟨_, hrest, rfl⟩ := Option.map_eq_some_iff.1 hs
        cases hm : mine move with
        | false =>
            rw [List.filter_cons_of_neg (by simp [hm])] at hroom' hs'
            have hother := h.other hown (fun ht => by rw [hmine.2 ht] at hm; cases hm) hroom.1 hstep
            exact (ih hother hk hroom.2 hroom' hrest hs' :)
        | true =>
            rw [List.filter_cons_of_pos hm] at hroom' hs'
            rw [Traffic.steps] at hs'
            rw [hasRoom, Bool.and_eq_true, Bool.not_eq_true'] at hroom'
            split at hs'
            · cases hs'
            · rename_i first' w₁' hstep'
              rw [hstep'] at hroom'
              obtain ⟨_, hrest', rfl⟩ := Option.map_eq_some_iff.1 hs'
              have hboth := h.both hown (hmine.1 hm) (.same move) hroom.1 hroom'.1 hstep hstep'
              exact (ih hboth hk hroom.2 hroom'.2 hrest hrest' :)

namespace Small

/-- A second table like the first, with one full page. -/
def secondFile : TableFile := { file with name := "b", table := ⟨2⟩ }

/-- A store of both tables. -/
def twoTables : Store where
  settings := { pageSize := 5, poolPages := 2 }
  disk :=
    { directory := "/d"
      files :=
        (ExtTreeMap.insert ∅ "a"
          (.ofBytes [1, 0, 0, 0, 1, 1, 0, 0, 0, 2, 1, 0, 0, 0, 3])).insert "b"
          (.ofBytes [1, 0, 0, 0, 4]) }
  catalog :=
    { pageSize := 5
      tables := (ExtTreeMap.insert ∅ ⟨1⟩ { name := "a", key := none, file }).insert ⟨2⟩
        { name := "b", key := none, file := secondFile }
      names := (ExtTreeMap.insert ∅ "a" ⟨1⟩).insert "b" ⟨2⟩ }

/-- Each of two transactions has a table of its own. -/
def parting : Parting Bool where
  transaction t := t = ⟨0⟩
  table u := u = ⟨1⟩

/-- Both transactions delete a row.  The first one then reads another page of its table, for which
it has to write the page with its change early, unless it is alone.  In the end it commits. -/
def mixed : List Move :=
  [.start ⟨0⟩ (.delete (record 0)), .resume ⟨0⟩,
   .start ⟨1⟩ (.delete (some { page := { table := ⟨2⟩, number := 0 }, slot := 0 })), .resume ⟨1⟩,
   .start ⟨0⟩ (.getPage (page 1) .shared), .resume ⟨0⟩, .commit ⟨0⟩]

/-- The moves of the first transaction. -/
def mine (move : Move) : Bool := move.transaction? = some ⟨0⟩

theorem twoTables_file {u : TableId} {f : TableFile} (h : twoTables.catalog.file u = .ok f) :
    u = ⟨1⟩ ∧ f = file ∨ u = ⟨2⟩ ∧ f = secondFile := by
  have hget : twoTables.catalog.tables[u]? =
      if (⟨2⟩ : TableId) = u then some { name := "b", key := none, file := secondFile }
      else if (⟨1⟩ : TableId) = u then some { name := "a", key := none, file } else none := by
    simp [twoTables, ExtTreeMap.getElem?_insert]
  unfold Catalog.file Catalog.entry at h
  rw [hget] at h
  split at h
  · rename_i e he
    split at he
    · rename_i hu
      cases he
      cases h
      exact Or.inr ⟨hu.symm, rfl⟩
    · split at he
      · rename_i hu
        cases he
        cases h
        exact Or.inl ⟨hu.symm, rfl⟩
      · cases he
  · cases h

theorem fresh_twoTables : Fresh twoTables where
  catalog :=
    { table := fun h => by
        rcases twoTables_file h with ⟨rfl, rfl⟩ | ⟨rfl, rfl⟩ <;> rfl
      apart := fun h h' hname => by
        rcases twoTables_file h with ⟨rfl, rfl⟩ | ⟨rfl, rfl⟩ <;>
          rcases twoTables_file h' with ⟨rfl, rfl⟩ | ⟨rfl, rfl⟩
        · rfl
        · exact absurd hname (by decide)
        · exact absurd hname (by decide)
        · rfl }
  cache := rfl
  locks := rfl

/-- What moves on the store of both tables come to. -/
def onTwoTables (moves : List Move) : Traffic :=
  ((({ store := twoTables } : Traffic).steps moves).getD ([], { store := twoTables })).2

theorem exists_ownOf {move : Move} {t : TransactionId} (ht : move.transaction? = some t)
    (hin : move.Within (twoTables.catalog.scope (parting.own t))) :
    ∃ t, move.OwnOf parting twoTables.catalog t ∧
      (mine move = true ↔ parting.transaction t = true) :=
  ⟨t, ⟨ht, hin⟩, by simp [mine, ht, parting]⟩

end Small

theorem Small.among : Among Small.parting true Small.twoTables
    (Small.mixed.foldl (fun live move => move.live live) fun _ => False)
    (Small.onTwoTables Small.mixed) (Small.onTwoTables (Small.mixed.filter Small.mine)) := by
  refine Among.steps .start (fun move hm => ?_) (by decide +kernel) (by decide +kernel)
    (eq_some_getD (by decide +kernel) _) (eq_some_getD (by decide +kernel) _)
  simp only [Small.mixed, List.mem_cons, List.not_mem_nil, or_false] at hm
  rcases hm with rfl | rfl | rfl | rfl | rfl | rfl | rfl
  · exact Small.exists_ownOf rfl (by rintro r ⟨rfl⟩; rfl)
  · exact Small.exists_ownOf rfl trivial
  · exact Small.exists_ownOf rfl (by rintro r ⟨rfl⟩; rfl)
  · exact Small.exists_ownOf rfl trivial
  · exact Small.exists_ownOf rfl rfl
  · exact Small.exists_ownOf rfl trivial
  · exact Small.exists_ownOf rfl trivial

/-- The caches differ, since the other transaction has a page of its own there, but the file of the
first table is the same, and a request for one of its pages comes to the same. -/
theorem groups_apart_small :
    ∃ live w w', Among Small.parting true Small.twoTables live w w' ∧
      w'.store.cache.ids ≠ w.store.cache.ids ∧
        (w'.outcome (.start ⟨0⟩ (.getPage (Small.page 0) .exclusive))).map Outcome.bare =
            (w.outcome (.start ⟨0⟩ (.getPage (Small.page 0) .exclusive))).map Outcome.bare ∧
          w'.store.disk.contents Small.file = w.store.disk.contents Small.file := by
  have hn : ∀ p, (Small.onTwoTables Small.mixed).store.NumberedAt p := by
    intro p f hf
    have hcatalog : (Small.onTwoTables Small.mixed).store.catalog = Small.twoTables.catalog := by
      decide +kernel
    rcases Small.twoTables_file (hcatalog ▸ hf) with ⟨-, rfl⟩ | ⟨-, rfl⟩
    · have hlength : ((Small.onTwoTables Small.mixed).store.disk.contents Small.file).length / 5 <
          4294967296 := by decide +kernel
      exact hlength
    · have hlength : ((Small.onTwoTables Small.mixed).store.disk.contents Small.secondFile).length /
          5 < 4294967296 := by decide +kernel
      exact hlength
  obtain ⟨hout, hfiles⟩ := groups_apart Small.fresh_twoTables Small.among hn
  have hidle : ∀ t, Small.parting.transaction t = true →
      ¬ Small.mixed.foldl (fun live move => move.live live) (fun _ => False) t := by
    intro t ht hlive
    exact hlive.1 (by simpa [Small.parting] using ht)
  have hown : Move.OwnOf Small.parting Small.twoTables.catalog ⟨0⟩
      (.start ⟨0⟩ (.getPage (Small.page 0) .exclusive)) := ⟨rfl, rfl⟩
  exact ⟨_, _, _, Small.among, by decide +kernel, (hout hown rfl (.same _) rfl rfl).2,
    hfiles hidle (u := ⟨1⟩) rfl rfl⟩

end Traffic

end PagedStore
