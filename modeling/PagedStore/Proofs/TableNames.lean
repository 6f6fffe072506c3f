import PagedStore.Catalog.Load
import Mathlib.Data.List.Nodup
import Mathlib.Data.List.Perm.Lattice

/-!
# The names of tables

A catalog finds a table by its identity or by its name.  It is *named* if the two ways agree: a
name stands for a table if and only if the table goes by this name (`Catalog.Named`).  Then
identities and names are in bijection, and there are as many of the one as of the other.

A new table may replace two old ones, one that has its name and one that has its identity.  What
is left then is all that differs in both (`Catalog.Named.tables_add`,
`Catalog.Named.names_add`).  So a catalog that was named stays named.  A schema file is
loaded by adding one table after another, and nothing else (`Catalog.keeps_load`).

Hence every catalog that tables have been added to, loaded into and cleared from is named
(`Catalog.names_and_ids_agree`).
-/

namespace PagedStore.Catalog

open Std (ExtTreeMap)

variable {c c' : Catalog} {file : TableFile} {name n : String} {key : Option String} {t : TableId}
  {disk : Disk} {path : String}

/-! ## Names and identities agree -/

/-- A name stands for a table if and only if the table goes by it. -/
def Named (c : Catalog) : Prop :=
  ∀ ⦃n : String⦄ ⦃t : TableId⦄,
    c.names[n]? = some t ↔ ∃ e : TableEntry, c.tables[t]? = some e ∧ e.name = n

theorem named_clear (c : Catalog) : c.clear.Named := by
  intro n t
  simp [clear]

namespace Named

/-- Only the table that goes by the name is forgotten with it. -/
theorem forgetName_eq_some (h : c.Named) (name : String) :
    (∀ (t : TableId) (e : TableEntry), (c.forgetName name).tables[t]? = some e ↔
        e.name ≠ name ∧ c.tables[t]? = some e) ∧
      ∀ (n : String) (t : TableId), (c.forgetName name).names[n]? = some t ↔
        n ≠ name ∧ c.names[n]? = some t := by
  rw [forgetName]
  cases hname : c.names[name]? with
  | none =>
      -- No table goes by the name.
      refine ⟨fun t e => ⟨fun ht => ⟨?_, ht⟩, And.right⟩,
        fun n t => ⟨fun hn => ⟨?_, hn⟩, And.right⟩⟩
      · rintro rfl
        rw [h.2 ⟨e, ht, rfl⟩] at hname
        cases hname
      · rintro rfl
        rw [hname] at hn
        cases hn
  | some u =>
      obtain ⟨old, hu, hold⟩ := h.1 hname
      simp only [ExtTreeMap.getElem?_erase, Std.LawfulEqCmp.compare_eq_iff_eq, ite_eq_iff,
        reduceCtorEq, and_false, false_or]
      refine ⟨fun t e => and_congr_left fun ht => not_congr ⟨?_, ?_⟩, fun n t =>
        and_congr_left fun _ => not_congr eq_comm⟩
      · rintro rfl
        rw [hu] at ht
        cases ht
        exact hold
      · rintro rfl
        rw [h.2 ⟨e, ht, rfl⟩] at hname
        exact (Option.some.inj hname).symm

/-- Only the name that stands for the table is forgotten with it. -/
theorem forgetTable_eq_some (h : c.Named) (u : TableId) :
    (∀ (t : TableId) (e : TableEntry), (c.forgetTable u).tables[t]? = some e ↔
        t ≠ u ∧ c.tables[t]? = some e) ∧
      ∀ (n : String) (t : TableId), (c.forgetTable u).names[n]? = some t ↔
        t ≠ u ∧ c.names[n]? = some t := by
  rw [forgetTable]
  cases hu : c.tables[u]? with
  | none =>
      -- No name stands for the table.
      refine ⟨fun t e => ⟨fun ht => ⟨?_, ht⟩, And.right⟩,
        fun n t => ⟨fun hn => ⟨?_, hn⟩, And.right⟩⟩
      · rintro rfl
        rw [hu] at ht
        cases ht
      · rintro rfl
        obtain ⟨e, ht, -⟩ := h.1 hn
        rw [hu] at ht
        cases ht
  | some old =>
      have hname := h.2 ⟨old, hu, rfl⟩
      simp only [ExtTreeMap.getElem?_erase, Std.LawfulEqCmp.compare_eq_iff_eq, ite_eq_iff,
        reduceCtorEq, and_false, false_or]
      refine ⟨fun t e => and_congr_left fun _ => not_congr eq_comm, fun n t =>
        and_congr_left fun hn => not_congr ⟨?_, ?_⟩⟩
      · rintro rfl
        rw [hname] at hn
        exact (Option.some.inj hn).symm
      · rintro rfl
        obtain ⟨e, ht, rfl⟩ := h.1 hn
        rw [hu] at ht
        cases ht
        rfl

theorem forgetName (h : c.Named) (name : String) : (c.forgetName name).Named := by
  obtain ⟨htables, hnames⟩ := h.forgetName_eq_some name
  intro n t
  rw [hnames]
  constructor
  · rintro ⟨hne, hn⟩
    obtain ⟨e, ht, rfl⟩ := h.1 hn
    exact ⟨e, (htables t e).2 ⟨hne, ht⟩, rfl⟩
  · rintro ⟨e, ht, rfl⟩
    obtain ⟨hne, ht⟩ := (htables t e).1 ht
    exact ⟨hne, h.2 ⟨e, ht, rfl⟩⟩

end Named

/-! ## Adding a table -/

/-- The name that a table is added under. -/
def chosenName (t : TableId) (name : String) : String :=
  if name = "" then generatedName t else name

/-- What is left when a name and an identity are taken. -/
def vacate (c : Catalog) (name : String) (t : TableId) : Catalog :=
  (c.forgetName name).forgetTable t

/-- A table is refused for its page size only, and otherwise takes its name and its identity. -/
theorem add_eq (c : Catalog) (file : TableFile) (name : String) (key : Option String) :
    c.add file name key =
      if file.pageSize ≠ c.pageSize then
        .error (.settings (.pageSizeMismatch name file.pageSize c.pageSize))
      else
        let free := c.vacate (chosenName file.table name) file.table
        .ok { free with
          names := free.names.insert (chosenName file.table name) file.table
          tables := free.tables.insert file.table
            { name := chosenName file.table name, key, file } } := rfl

namespace Named

/-- What is left differs both in the name and in the identity. -/
theorem vacate_eq_some (h : c.Named) (name : String) (u : TableId) :
    (∀ (t : TableId) (e : TableEntry), (c.vacate name u).tables[t]? = some e ↔
        t ≠ u ∧ e.name ≠ name ∧ c.tables[t]? = some e) ∧
      ∀ (n : String) (t : TableId), (c.vacate name u).names[n]? = some t ↔
        t ≠ u ∧ n ≠ name ∧ c.names[n]? = some t := by
  obtain ⟨htables, hnames⟩ := h.forgetName_eq_some name
  obtain ⟨htables', hnames'⟩ := (h.forgetName name).forgetTable_eq_some u
  exact ⟨fun t e => by rw [vacate, htables', htables], fun n t => by rw [vacate, hnames', hnames]⟩

/-- The tables after one is added: the new one, and those that differ from it in name and
identity. -/
theorem tables_add (h : c.Named) (ha : c.add file name key = .ok c') (t : TableId)
    (e : TableEntry) : c'.tables[t]? = some e ↔
      (t = file.table ∧ e = { name := chosenName file.table name, key, file }) ∨
        (t ≠ file.table ∧ e.name ≠ chosenName file.table name ∧ c.tables[t]? = some e) := by
  rw [add_eq] at ha
  split at ha
  · cases ha
  · cases ha
    rw [← (h.vacate_eq_some _ _).1, ExtTreeMap.getElem?_insert]
    simp only [Std.LawfulEqCmp.compare_eq_iff_eq]
    by_cases ht : file.table = t
    · subst ht
      simp [(h.vacate_eq_some _ _).1, eq_comm]
    · simp [ht, Ne.symm ht]

/-- The names after a table is added: the new one, and those that stand for tables with other
identities. -/
theorem names_add (h : c.Named) (ha : c.add file name key = .ok c') (n : String) (t : TableId) :
    c'.names[n]? = some t ↔
      (n = chosenName file.table name ∧ t = file.table) ∨
        (t ≠ file.table ∧ n ≠ chosenName file.table name ∧ c.names[n]? = some t) := by
  rw [add_eq] at ha
  split at ha
  · cases ha
  · cases ha
    rw [← (h.vacate_eq_some _ _).2, ExtTreeMap.getElem?_insert]
    simp only [Std.LawfulEqCmp.compare_eq_iff_eq]
    by_cases hn : chosenName file.table name = n
    · subst hn
      simp [(h.vacate_eq_some _ _).2, eq_comm]
    · simp [hn, Ne.symm hn]

theorem add (h : c.Named) (ha : c.add file name key = .ok c') : c'.Named := by
  intro n t
  rw [h.names_add ha]
  constructor
  · rintro (⟨rfl, rfl⟩ | ⟨ht, hn, hnames⟩)
    · exact ⟨_, (h.tables_add ha _ _).2 (.inl ⟨rfl, rfl⟩), rfl⟩
    · obtain ⟨e, htables, rfl⟩ := h.1 hnames
      exact ⟨e, (h.tables_add ha _ _).2 (.inr ⟨ht, hn, htables⟩), rfl⟩
  · rintro ⟨e, he, rfl⟩
    rcases (h.tables_add ha _ _).1 he with ⟨rfl, rfl⟩ | ⟨ht, hn, htables⟩
    · exact .inl ⟨rfl, rfl⟩
    · exact .inr ⟨ht, hn, h.2 ⟨e, htables, rfl⟩⟩

/-! ## What follows -/

theorem idOf_of_nameOf (h : c.Named) (hn : c.nameOf t = .ok n) : c.idOf n = .ok t := by
  rw [nameOf, entry] at hn
  split at hn
  · rename_i e he
    cases hn
    rw [idOf, h.2 ⟨e, he, rfl⟩]
  · cases hn

theorem nameOf_of_idOf (h : c.Named) (ht : c.idOf n = .ok t) : c.nameOf t = .ok n := by
  rw [idOf] at ht
  split at ht
  · rename_i u hn
    cases ht
    obtain ⟨e, he, rfl⟩ := h.1 hn
    rw [nameOf, entry, he]
    rfl
  · cases ht

/-- Each name gives another identity, and every identity is given. -/
theorem size_names (h : c.Named) : c.names.size = c.size := by
  have hget : ∀ {n}, n ∈ c.names.keys → c.names[n]? = some (c.names.getD n default) := by
    intro n hn
    obtain ⟨t, ht⟩ := Option.isSome_iff_exists.1
      (ExtTreeMap.mem_iff_isSome_getElem?.1 (ExtTreeMap.mem_keys.1 hn))
    rw [ht, ExtTreeMap.getD_eq_getD_getElem?, ht, Option.getD_some]
  have hperm : (c.names.keys.map fun n => c.names.getD n default).Perm c.tables.keys := by
    refine (List.perm_ext_iff_of_nodup (List.Nodup.map_on ?_ ExtTreeMap.nodup_keys)
      ExtTreeMap.nodup_keys).2 fun t => ?_
    · intro n hn m hm heq
      obtain ⟨e, he, rfl⟩ := h.1 (hget hn)
      obtain ⟨e', he', rfl⟩ := h.1 (hget hm)
      rw [heq, he'] at he
      cases he
      rfl
    · rw [List.mem_map, ExtTreeMap.mem_keys, ExtTreeMap.mem_iff_isSome_getElem?,
        Option.isSome_iff_exists]
      constructor
      · rintro ⟨n, hn, rfl⟩
        obtain ⟨e, he, -⟩ := h.1 (hget hn)
        exact ⟨e, he⟩
      · rintro ⟨e, he⟩
        have hn := h.2 ⟨e, he, rfl⟩
        refine ⟨e.name, ?_, ?_⟩
        · rw [ExtTreeMap.mem_keys, ExtTreeMap.mem_iff_isSome_getElem?, hn]
          rfl
        · rw [ExtTreeMap.getD_eq_getD_getElem?, hn, Option.getD_some]
  have hlength := hperm.length_eq
  rwa [List.length_map, ExtTreeMap.length_keys, ExtTreeMap.length_keys] at hlength

end Named

/-! ## Loading -/

section Keeps

variable {P : Catalog → Prop}
  (hadd : ∀ {c c' : Catalog} {file : TableFile} {name : String} {key : Option String},
    P c → c.add file name key = .ok c' → P c')

include hadd

/-- Opening a table adds it, or leaves the catalog as it is. -/
theorem keeps_openTable (h : P c) (disk : Disk) (path name : String) (schema : Schema)
    (key : Option String) : P (c.openTable disk path name schema key).2.2 := by
  rw [openTable]
  split
  · exact h
  · split
    · exact h
    · exact hadd h ‹_›

theorem keeps_loadLines (h : P c) (disk : Disk) (directory : String) (number : Nat)
    (lines : List (List Char)) : P (c.loadLines disk directory number lines).2.2 := by
  induction lines generalizing c disk number with
  | nil => exact h
  | cons line lines ih =>
      have hline : P (c.loadLine disk directory number line).2.2 := by
        rw [loadLine]
        split
        · exact h
        · exact keeps_openTable hadd h ..
      rw [loadLines]
      split
      · exact ih h ..
      · split
        · rename_i hl
          rwa [hl] at hline
        · rename_i t disk' c' hl
          rw [hl] at hline
          have hrest := ih hline disk' (number + 1)
          split <;> rename_i hr <;> rwa [hr] at hrest

/-- What every added table keeps is kept by a schema file, also if it fails half way. -/
theorem keeps_load (h : P c) (disk : Disk) (path : String) : P (c.load disk path).2.2 := by
  rw [load]
  split
  · exact h
  · exact keeps_loadLines hadd h ..

end Keeps

/-! ## Every catalog -/

/-- One thing that is done to a catalog.  What the disk holds may have changed in between. -/
inductive Action where
  /-- A table is added with its file. -/
  | add (file : TableFile) (name : String) (key : Option String)
  /-- The file of a table is opened, or made, and the table is added. -/
  | openTable (disk : Disk) (path name : String) (schema : Schema) (key : Option String)
  /-- A schema file is loaded. -/
  | load (disk : Disk) (path : String)
  /-- All tables are forgotten. -/
  | clear

/-- The catalog after an action, whether it fails or not. -/
def act (c : Catalog) : Action → Catalog
  | .add file name key =>
      match c.add file name key with
      | .ok c' => c'
      | .error _ => c
  | .openTable disk path name schema key => (c.openTable disk path name schema key).2.2
  | .load disk path => (c.load disk path).2.2
  | .clear => c.clear

/-- The catalog after many actions, one after another. -/
def actAll (c : Catalog) (actions : List Action) : Catalog := actions.foldl act c

theorem Named.act (h : c.Named) (a : Action) : (c.act a).Named := by
  cases a with
  | add file name key =>
      rw [Catalog.act]
      split
      · exact h.add ‹_›
      · exact h
  | openTable disk path name schema key => exact keeps_openTable (P := Named) Named.add h ..
  | load disk path => exact keeps_load (P := Named) Named.add h ..
  | clear => exact c.named_clear

theorem Named.actAll (h : c.Named) (actions : List Action) : (c.actAll actions).Named := by
  induction actions generalizing c with
  | nil => exact h
  | cons a actions ih => exact ih (h.act a)

/-- What becomes of a catalog when a table is added.  It is refused for its page size only, and
then nothing changes.  Otherwise its name stands for it, and whatever differs from it in name and
identity stays. -/
structure TakesIn (c : Catalog) (file : TableFile) (name : String) (key : Option String) :
    Prop where
  accepted : (∃ c', c.add file name key = .ok c') ↔ file.pageSize = c.pageSize
  refused : ∀ {e}, c.add file name key = .error e → c.act (.add file name key) = c
  found : ∀ {c'}, c.add file name key = .ok c' →
    c'.idOf (chosenName file.table name) = .ok file.table ∧
      c'.entry file.table = .ok { name := chosenName file.table name, key, file }
  tables : ∀ {c'} {t : TableId} {e : TableEntry}, c.add file name key = .ok c' → t ≠ file.table →
    e.name ≠ chosenName file.table name → (c'.tables[t]? = some e ↔ c.tables[t]? = some e)
  names : ∀ {c'} {n : String} {t : TableId}, c.add file name key = .ok c' → t ≠ file.table →
    n ≠ chosenName file.table name → (c'.names[n]? = some t ↔ c.names[n]? = some t)

theorem Named.takesIn (h : c.Named) (file : TableFile) (name : String) (key : Option String) :
    c.TakesIn file name key where
  accepted := by
    rw [add_eq]
    split
    · rename_i hne
      exact iff_of_false (fun ⟨_, hc⟩ => by cases hc) hne
    · rename_i heq
      exact iff_of_true ⟨_, rfl⟩ (Decidable.not_not.1 heq)
  refused he := by rw [Catalog.act, he]
  found := by
    intro c' ha
    constructor
    · rw [idOf, (h.names_add ha _ _).2 (.inl ⟨rfl, rfl⟩)]
    · rw [entry, (h.tables_add ha _ _).2 (.inl ⟨rfl, rfl⟩)]
  tables := by
    intro c' t e ha ht hn
    rw [h.tables_add ha]
    exact ⟨fun he => (he.resolve_left fun hc => ht hc.1).2.2, fun he => .inr ⟨ht, hn, he⟩⟩
  names := by
    intro c' n t ha ht hn
    rw [h.names_add ha]
    exact ⟨fun he => (he.resolve_left fun hc => ht hc.2).2.2, fun he => .inr ⟨ht, hn, he⟩⟩

/-- Whatever tables have been added, loaded and cleared, names and identities are in bijection,
there are as many of the one as of the other, and one more table can be taken in. -/
theorem names_and_ids_agree (pageSize : Nat) (actions : List Action) :
    (∀ (n : String) (t : TableId), (actAll { pageSize } actions).names[n]? = some t ↔
        ∃ e : TableEntry, (actAll { pageSize } actions).tables[t]? = some e ∧ e.name = n) ∧
      (∀ n t, (actAll { pageSize } actions).nameOf t = .ok n ↔
        (actAll { pageSize } actions).idOf n = .ok t) ∧
      (actAll { pageSize } actions).size = (actAll { pageSize } actions).names.size ∧
      ∀ file name key, (actAll { pageSize } actions).TakesIn file name key := by
  have h : (actAll { pageSize } actions).Named := (named_clear { pageSize }).actAll actions
  exact ⟨fun _ _ => ⟨fun hn => h.1 hn, fun he => h.2 he⟩,
    fun _ _ => ⟨h.idOf_of_nameOf, h.nameOf_of_idOf⟩, h.size_names.symm, h.takesIn⟩

end PagedStore.Catalog
