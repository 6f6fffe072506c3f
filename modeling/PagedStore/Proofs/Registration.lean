import PagedStore.Proofs.Sessions

/-!
# Registration

A table is known by the checksum of the full path of its file.  So tables that are made or
loaded in one directory have different files if they have different identities, and each
is registered under the identity of its file (`Catalog.OpenedIn`).  This holds whatever
was there before, and if some tables could not be opened.

So a session that starts over a directory, makes and loads tables, and then serves plain
commands is an orderly run from a fresh store (`Session.exists_run_of_setUp`).
-/

namespace PagedStore

open Traffic (Run Orderly Fresh)

/-! ## The catalog -/

namespace Catalog

variable {c c' : Catalog} {f g : TableFile} {t : TableId} {name : String} {key : Option String}

theorem file_eq_ok : c.file t = .ok f ↔ ∃ e, c.tables[t]? = some e ∧ e.file = f := by
  unfold file entry
  split
  · rename_i e he
    simp [he, Except.map]
  · rename_i he
    simp [he, Except.map]

theorem file_of_forgetName (h : (c.forgetName name).file t = .ok f) : c.file t = .ok f := by
  rw [forgetName] at h
  split at h
  · exact h
  · rw [file_eq_ok] at h ⊢
    rw [Std.ExtTreeMap.getElem?_erase] at h
    obtain ⟨e, he, hf⟩ := h
    split at he
    · cases he
    · exact ⟨e, he, hf⟩

theorem file_of_forgetTable {u : TableId} (h : (c.forgetTable u).file t = .ok f) :
    c.file t = .ok f := by
  rw [forgetTable] at h
  split at h
  · exact h
  · rw [file_eq_ok] at h ⊢
    rw [Std.ExtTreeMap.getElem?_erase] at h
    obtain ⟨e, he, hf⟩ := h
    split at he
    · cases he
    · exact ⟨e, he, hf⟩

/-- A table in the catalog is the one that was added, or was there before. -/
theorem file_of_add (ha : c.add f name key = .ok c') (h : c'.file t = .ok g) :
    t = f.table ∧ g = f ∨ c.file t = .ok g := by
  rw [add] at ha
  split at ha
  · cases ha
  · cases ha
    rw [file_eq_ok] at h
    obtain ⟨e, he, hg⟩ := h
    rw [Std.ExtTreeMap.getElem?_insert] at he
    split at he
    · rename_i ht
      cases he
      exact .inl ⟨(Std.LawfulEqCmp.compare_eq_iff_eq.1 ht).symm, hg.symm⟩
    · exact .inr (file_of_forgetName (file_of_forgetTable (file_eq_ok.2 ⟨e, he, hg⟩)))

/-- The tables are known by the full paths of their files in a directory. -/
structure OpenedIn (c : Catalog) (d : Disk) : Prop where
  table : ∀ {t f}, c.file t = .ok f → f.table = t
  path : ∀ {t f}, c.file t = .ok f → t = .ofPath (d.fullPath f.name)

theorem OpenedIn.sound {d : Disk} (h : c.OpenedIn d) : c.Sound where
  table := h.table
  apart hf hg hn := by rw [h.path hf, h.path hg, hn]

theorem OpenedIn.add {d : Disk} (h : c.OpenedIn d) (hf : f.table = .ofPath (d.fullPath f.name))
    (ha : c.add f name key = .ok c') : c'.OpenedIn d := by
  constructor
  · intro t g hg
    rcases file_of_add ha hg with ⟨rfl, rfl⟩ | hg
    · rfl
    · exact h.table hg
  · intro t g hg
    rcases file_of_add ha hg with ⟨rfl, rfl⟩ | hg
    · exact hf
    · exact h.path hg

end Catalog

/-! ## Opening files -/

namespace TableFile

variable {d d' : Disk} {f : TableFile} {path : String} {schema : Schema} {pageSize : Nat}

theorem table_of_create (h : create d path schema pageSize = .ok (f, d')) :
    f.table = .ofPath (d.fullPath f.name) ∧ d'.directory = d.directory := by
  rw [create] at h
  split at h
  · cases h
  · split at h
    · cases h
    · cases h
      exact ⟨rfl, rfl⟩

theorem table_of_openExisting (h : openExisting d path schema pageSize = .ok f) :
    f.table = .ofPath (d.fullPath f.name) := by
  rw [openExisting] at h
  split at h
  · cases h
  · split at h
    · cases h
    · dsimp only at h
      split at h
      · cases h
      · cases h
        rfl

theorem table_of_openOrCreate (h : openOrCreate d path schema pageSize = .ok (f, d')) :
    f.table = .ofPath (d.fullPath f.name) ∧ d'.directory = d.directory := by
  rw [openOrCreate] at h
  split at h
  · split at h
    · rename_i hf
      cases h
      exact ⟨table_of_openExisting hf, rfl⟩
    · cases h
  · exact table_of_create h

end TableFile

namespace Catalog

variable {c : Catalog} {d : Disk}

/-- The directory stays, and the tables are known by the paths of their files in it. -/
def Opens (d : Disk) (r : Disk × Catalog) : Prop :=
  r.1.directory = d.directory ∧ r.2.OpenedIn d

theorem OpenedIn.of_directory {d' : Disk} (h : c.OpenedIn d) (hd : d'.directory = d.directory) :
    c.OpenedIn d' := by
  refine ⟨h.table, fun hf => ?_⟩
  rw [Disk.fullPath, hd]
  exact h.path hf

theorem opens_openTable (h : c.OpenedIn d) (path name : String) (schema : Schema)
    (key : Option String) : Opens d (c.openTable d path name schema key).2 := by
  rw [openTable]
  split
  · exact ⟨rfl, h⟩
  · rename_i f d' ho
    obtain ⟨hf, hd⟩ := TableFile.table_of_openOrCreate ho
    split
    · exact ⟨hd, h⟩
    · rename_i ha
      exact ⟨hd, h.add hf ha⟩

theorem opens_loadLines (directory : String) (lines : List (List Char)) :
    ∀ {c : Catalog} {d : Disk} (number : Nat), c.OpenedIn d →
      Opens d (c.loadLines d directory number lines).2 := by
  induction lines with
  | nil => exact fun _ h => ⟨rfl, h⟩
  | cons line lines ih =>
      intro c d number h
      have hline : Opens d (c.loadLine d directory number line).2 := by
        rw [loadLine]
        split
        · exact ⟨rfl, h⟩
        · exact opens_openTable h ..
      rw [loadLines]
      split
      · exact ih _ h
      · split
        · rename_i hl
          rw [hl] at hline
          exact hline
        · rename_i t d' c' hl
          rw [hl] at hline
          obtain ⟨hd, hc⟩ := hline
          have hrest := ih (number + 1) (hc.of_directory hd)
          split
          · rename_i hr
            rw [hr] at hrest
            exact ⟨hrest.1.trans hd, hrest.2.of_directory hd.symm⟩
          · rename_i hr
            rw [hr] at hrest
            exact ⟨hrest.1.trans hd, hrest.2.of_directory hd.symm⟩

theorem opens_load (h : c.OpenedIn d) (path : String) : Opens d (c.load d path).2 := by
  rw [load]
  split
  · exact ⟨rfl, h⟩
  · exact opens_loadLines _ _ _ h

end Catalog

/-! ## Setting up -/

namespace Store

variable {s : Store}

/-- Tables have been made and loaded, and nothing else was done. -/
structure SetUp (s : Store) : Prop where
  opened : s.catalog.OpenedIn s.disk
  cache : s.cache = ∅
  locks : s.locks = ∅

theorem SetUp.fresh (h : s.SetUp) : Fresh s := ⟨h.opened.sound, h.cache, h.locks⟩

/-- Tables are opened, and files are made. -/
theorem SetUp.of_opens (h : s.SetUp) {r : Disk × Catalog} (hr : Catalog.Opens s.disk r) :
    SetUp { s with disk := r.1, catalog := r.2 } :=
  ⟨hr.2.of_directory hr.1, h.cache, h.locks⟩

theorem setUp_start {settings : Settings} {disk : Disk} (h : start settings disk = .ok s) :
    s.SetUp := by
  rw [start] at h
  split at h
  · cases h
  · cases h
    have hnone : ∀ t f, Catalog.file { pageSize := settings.pageSize } t ≠ .ok f := by
      intro t f hf
      obtain ⟨e, he, -⟩ := Catalog.file_eq_ok.1 hf
      cases he
    exact ⟨⟨fun hf => absurd hf (hnone _ _), fun hf => absurd hf (hnone _ _)⟩, rfl, rfl⟩

end Store

/-- Tables and files are made, changed or loaded. -/
def Command.isSetUp : Command → Bool
  | .createTable .. | .loadSchema _ | .loadFrom _ | .writeFile .. | .setLength .. => true
  | _ => false

theorem Disk.directory_of_write {d d' : Disk} {path : String} {data : Bytes}
    (h : d.write path data = .ok d') : d'.directory = d.directory := by
  rw [write] at h
  split at h
  · cases h
  · cases h
    rfl

theorem Disk.directory_of_setLength {d d' : Disk} {path : String} {length : Nat}
    (h : d.setLength path length = .ok d') : d'.directory = d.directory := by
  rw [setLength] at h
  split at h
  · cases h
  · cases h
    rfl

namespace Store

theorem SetUp.withDisk {s : Store} (h : s.SetUp) {disk : Disk}
    (hd : disk.directory = s.disk.directory) : SetUp { s with disk } :=
  ⟨h.opened.of_directory hd, h.cache, h.locks⟩

theorem SetUp.createTable {s : Store} (h : s.SetUp) (path name : String) (schema : Schema)
    (key : Option String) : (s.createTable path name schema key).2.SetUp :=
  h.of_opens (Catalog.opens_openTable h.opened ..)

theorem SetUp.loadSchema {s : Store} (h : s.SetUp) (path : String) :
    (s.loadSchema path).2.SetUp :=
  h.of_opens (Catalog.opens_load h.opened path)

end Store

namespace Session

variable {s : Session} {c : Command}

/-- A session that is set up has no parked tasks. -/
structure SetUp (s : Session) : Prop where
  store : s.store.SetUp
  jobs : s.work.jobs = []

theorem SetUp.perform (h : s.SetUp) (hc : c.isSetUp = true) : (s.perform c).2.SetUp := by
  cases c with
  | createTable path name schema key => exact ⟨h.store.createTable .., h.jobs⟩
  | loadSchema data =>
      rw [Session.perform, Session.loadSchema]
      split
      · exact h
      · rename_i disk hw
        have hdisk := h.store.withDisk (Disk.directory_of_write hw)
        exact ⟨hdisk.loadSchema schemaPath, h.jobs⟩
  | loadFrom path => exact ⟨h.store.loadSchema path, h.jobs⟩
  | writeFile path data =>
      rw [Session.perform]
      cases hw : s.disk.write path data with
      | error fault => exact h
      | ok disk => exact ⟨h.store.withDisk (Disk.directory_of_write hw), h.jobs⟩
  | setLength path length =>
      rw [Session.perform]
      cases hw : s.disk.setLength path length with
      | error fault => exact h
      | ok disk => exact ⟨h.store.withDisk (Disk.directory_of_setLength hw), h.jobs⟩
  | _ => cases hc

/-- There is nothing to settle without jobs. -/
theorem settle_of_nil {w : Workload} (h : w.jobs = []) : w.settle.2 = w := by
  have hnone : wokenJob? w.store.locks w.jobs = none := by
    rw [h]
    rfl
  rw [Workload.settle]
  rw [Workload.settleFrom]
  split
  · rfl
  · rename_i hj
    rw [hnone] at hj
    cases hj

theorem SetUp.serve (h : s.SetUp) (hc : c.isSetUp = true) : (s.serve c).2.2.SetUp := by
  have hp := h.perform hc
  have hb : c.transaction?.any s.work.isParked = false := by
    cases c <;> first | rfl | cases hc
  have hwork : (s.serve c).2.2.work = (s.perform c).2.work := by
    rw [work_serve hb, settle_of_nil hp.jobs]
  refine ⟨?_, ?_⟩
  · rw [Session.store, hwork]
    exact hp.store
  · rw [hwork]
    exact hp.jobs

theorem SetUp.serveAll {commands : List Command} (h : s.SetUp)
    (hc : ∀ c ∈ commands, c.isSetUp = true) : (s.serveAll commands).SetUp := by
  induction commands generalizing s with
  | nil => exact h
  | cons c commands ih =>
      exact ih (h.serve (hc c List.mem_cons_self)) fun c' hm => hc c' (List.mem_cons_of_mem _ hm)

theorem setUp_start {settings : Settings} {directory : String}
    (h : start settings directory = .ok s) : s.SetUp := by
  rw [start] at h
  cases hs : Store.start settings { directory } with
  | error e =>
      rw [hs] at h
      cases h
  | ok store =>
      rw [hs] at h
      cases h
      exact ⟨Store.setUp_start hs, rfl⟩

/-- A session that is started, makes and loads tables, and then serves plain commands is an
orderly run from a fresh store. -/
theorem exists_run_of_setUp {settings : Settings} {directory : String}
    {preparations commands : List Command} (h : start settings directory = .ok s)
    (hp : ∀ c ∈ preparations, c.isSetUp = true) (hc : ∀ c ∈ commands, c.isPlain = true) :
    Fresh (s.serveAll preparations).store ∧
      ∃ history, Run Orderly (s.serveAll preparations).store history
        ((s.serveAll preparations).serveAll commands).work.traffic := by
  have hs := (setUp_start h).serveAll hp
  exact ⟨hs.store.fresh, exists_run hs.store.fresh hs.jobs hc⟩

end Session

end PagedStore
