import PagedStore.Proofs.Workloads
import PagedStore.Session.Serve

/-!
# Sessions are traffic

A session serves commands one after another, and settles after each.  For most commands
this comes to moves of its traffic (`Session.reaches_serve`).  The others use handles,
drop pages, release locks early, or change tables and files past the store
(`Command.isPlain`).

So a session that begins with a fresh store and serves such commands, as many as there are,
is an orderly run (`Session.exists_run`), and its pages replay the ledger of this run.
-/

namespace PagedStore

open Traffic (Reaches PlainStep Run Orderly Fresh)

/-- Handles, dropped pages, locks that are released early, tables and files apart, a command may
be given at any time. -/
def Command.isPlain : Command → Bool
  | .begin | .getPage .. | .insert .. | .delete .. | .deleteFrom .. | .pull .. | .commit _
  | .abort _ | .flushPage _ | .flushPages _ | .flushAll | .sameCopy .. | .dropHandle _ | .scan ..
  | .rewind _ | .close _ => true
  | _ => false

namespace Session

variable {s : Session} {c : Command} {t : TransactionId}

/-! ## What does not concern the workload -/

@[simp] theorem work_note (s : Session) (a : Answer) : (s.note a).work = s.work := by
  cases a <;> rfl

@[simp] theorem work_foldl_note (answers : List Answer) (s : Session) :
    (answers.foldl note s).work = s.work := by
  induction answers generalizing s with
  | nil => rfl
  | cons a answers ih => rw [List.foldl_cons, ih, work_note]

@[simp] theorem work_keepHandle (s : Session) (c : Command) (r : Reply) :
    (s.keepHandle c r).work = s.work := by
  simp only [keepHandle]
  split <;> rfl

/-! ## Commands -/

/-- The session goes on with a workload that moves lead to. -/
def LeadsTo (s s' : Session) : Prop :=
  s.work.traffic.Reaches s'.work.traffic ∧ s'.work.Matched

theorem LeadsTo.of_work_eq {s' : Session} (h : s.work.Matched) (hw : s'.work = s.work) :
    s.LeadsTo s' := by
  rw [LeadsTo, hw]
  exact ⟨.refl, h⟩

theorem leadsTo_request (h : s.work.Matched) (hp : s.work.isParked t = false) (r : Request) :
    s.LeadsTo (s.request t r).2 := by
  have hnone : s.work.store.locks.parked[t]? = none :=
    Std.ExtTreeMap.getElem?_eq_none_of_contains_eq_false hp
  have hwork : (s.request t r).2.work = (s.work.begin t r).2 := by
    unfold request
    dsimp only
    split
    · rfl
    · exact work_note ..
  rw [LeadsTo, hwork]
  exact Workload.reaches_begin h hnone r

/-- A plain move, which leaves the parked requests as they are. -/
theorem leadsTo_withStore (h : s.work.Matched) {store : Store} {e : List Event}
    (move : Move) (hm : move.isPlain = true)
    (hs : s.work.traffic.step move = some (e, { s.work.traffic with store }))
    (hst : s.store.Steady store) : s.LeadsTo (s.withStore store) := by
  refine ⟨.single ⟨move, e, hm, ?_⟩, Workload.Matched.of_steady h hst⟩
  rw [hs]
  exact congrArg (fun w => some (e, w)) (Workload.traffic_of_steady hst).symm

theorem leadsTo_useScan (h : s.work.Matched) (name : String)
    {use : Nat → Scan → Reply × Session}
    (hu : ∀ number scan, s.work.isParked scan.transaction = false →
      s.LeadsTo (use number scan).2) : s.LeadsTo (s.useScan name use).2 := by
  rw [useScan]
  split
  · exact .of_work_eq h rfl
  · split
    · exact .of_work_eq h rfl
    · rename_i hp
      exact hu _ _ (by simpa using hp)

theorem leadsTo_perform (h : s.work.Matched) (hc : c.isPlain = true)
    (hb : c.transaction?.any s.work.isParked = false) : s.LeadsTo (s.perform c).2 := by
  cases c with
  | begin => exact .of_work_eq h rfl
  | getPage t page mode handle => exact leadsTo_request h hb _
  | insert t table schema rows => exact leadsTo_request h hb _
  | delete t record => exact leadsTo_request h hb _
  | deleteFrom t table record => exact leadsTo_request h hb _
  | pull t name wanted =>
      exact leadsTo_useScan h name fun number scan hp => leadsTo_request h hp _
  | commit t => exact leadsTo_withStore h (.commit t) rfl rfl (Store.steady_commit ..)
  | abort t => exact leadsTo_withStore h (.abort t) rfl rfl (Store.steady_abort ..)
  | flushPage page =>
      rw [perform]
      split
      · exact .of_work_eq h rfl
      · rename_i store hf
        refine leadsTo_withStore h (.flushPage page) rfl (e := []) ?_
          (Store.steady_flushPage hf)
        have hflush : s.work.traffic.store.flushPage page = .ok store := hf
        simp only [Traffic.step, hflush]
  | flushPages t =>
      exact leadsTo_withStore h (.flushPages t) rfl rfl (Store.steady_flushPages ..)
  | flushAll => exact leadsTo_withStore h .flushAll rfl rfl (Store.steady_flushAll ..)
  | sameCopy name other => exact .of_work_eq h rfl
  | dropHandle name => exact .of_work_eq h rfl
  | scan t table name =>
      refine .of_work_eq h ?_
      rw [perform, addScan]
      split <;> rfl
  | rewind name => exact leadsTo_useScan h name fun _ _ _ => .of_work_eq h rfl
  | close name => exact leadsTo_useScan h name fun _ _ _ => .of_work_eq h rfl
  | _ => cases hc

/-- Serving a command is to carry it out and to settle. -/
theorem work_serve (hb : c.transaction?.any s.work.isParked = false) :
    (s.serve c).2.2.work = (s.perform c).2.work.settle.2 := by
  rw [serve]
  rw [if_neg (by simp [hb])]
  dsimp only
  split <;> rw [work_keepHandle, work_foldl_note]

/-- To serve a plain command comes to plain moves. -/
theorem leadsTo_serve (h : s.work.Matched) (hc : c.isPlain = true) :
    s.LeadsTo (s.serve c).2.2 := by
  cases hb : c.transaction?.any s.work.isParked with
  | true =>
      refine .of_work_eq h ?_
      rw [serve]
      rw [if_pos hb]
  | false =>
      obtain ⟨hfirst, hmatched⟩ := leadsTo_perform h hc hb
      obtain ⟨hrest, hend⟩ := Workload.reaches_settleFrom ∅ hmatched
      rw [LeadsTo, work_serve hb]
      exact ⟨hfirst.trans hrest, hend⟩

/-! ## Many commands -/

/-- The session after some commands. -/
def serveAll (s : Session) (commands : List Command) : Session :=
  commands.foldl (fun s c => (s.serve c).2.2) s

theorem leadsTo_serveAll {commands : List Command} (h : s.work.Matched)
    (hc : ∀ c ∈ commands, c.isPlain = true) : s.LeadsTo (s.serveAll commands) := by
  induction commands generalizing s with
  | nil => exact .of_work_eq h rfl
  | cons c commands ih =>
      obtain ⟨hfirst, hmatched⟩ := leadsTo_serve h (hc c List.mem_cons_self)
      obtain ⟨hrest, hend⟩ := ih hmatched fun c' hm => hc c' (List.mem_cons_of_mem _ hm)
      exact ⟨hfirst.trans hrest, hend⟩

/-- A session that begins with a fresh store is an orderly run. -/
theorem exists_run {commands : List Command} (h : Fresh s.store) (hj : s.work.jobs = [])
    (hc : ∀ c ∈ commands, c.isPlain = true) :
    ∃ history, Run Orderly s.store history (s.serveAll commands).work.traffic := by
  have hmatched : s.work.Matched := by
    refine ⟨by rw [hj]; exact List.nodup_nil, fun t => ?_⟩
    have hparked : s.work.store.locks.parked[t]? = none := by
      show s.store.locks.parked[t]? = none
      rw [h.locks]
      rfl
    simp [hparked, hj]
  have hstart : s.work.traffic = { store := s.store } := by
    refine congrArg (Traffic.mk s.store) (funext fun t => ?_)
    rw [hj]
    rfl
  have hrun : Run Orderly s.store [] s.work.traffic := by
    rw [hstart]
    exact .start
  obtain ⟨more, hmore⟩ := hrun.reaches (leadsTo_serveAll hmatched hc).1
  exact ⟨_, hmore⟩

end Session

end PagedStore
