import Dicedev.NoBug
import Dicedev.RunPages
import Dicedev.Sessions
import Dicedev.Shutdown
import Dicedev.Wakeup
import Mathlib.Data.Prod.Lex

/-!
# Every task comes to its end

The worker, the device and the interrupt handler hand the running task to each other: the
worker feeds it, the device reaches its fence, the handler wakes the worker, and the worker
destroys the task and turns to the next one. `Stage` says whose turn it is. In each stage one
label helps, and the others do not undo what has been done: `rank_step`. So a task that is in
the queue is destroyed in the end, in every run that is fair to the three (`tasks_destroyed`),
as long as the driver is in service, there are slots for the tasks (`SessionsFit`), commands
are whole, addresses are not reused too early, and no thread dies on the way (`NoFault`).
-/

namespace Dicedev

open State

variable {s s' : State} {l : Label} {t : TaskId}

/-! ## In service -/

/-- The driver is neither suspended nor removed. -/
structure InService (s : State) : Prop where
  run : s.shouldStop = false
  unpark : s.shouldPark = false
  intr : s.intrEnable = true

/-- The steps that take the driver out of service. -/
def Label.leaves : Label → Bool
  | .suspend => true
  | .remove => true
  | _ => false

theorem InService.step (h : InService s) (hl : l.leaves = false) (hs : Step s l s') :
    InService s' := by
  cases hs with
  | suspend | remove => cases hl
  | resume => exact ⟨h.run, rfl, rfl⟩
  | finishing =>
    refine ⟨h.run, h.unpark, ?_⟩
    change (if s.devFailed then true else s.intrEnable) = true
    rw [h.intr, ite_self]
  | _ => exact ⟨h.run, h.unpark, h.intr⟩

/-- The worker leaves its loop only when it is told to stop. -/
def LeavesOnStop (s : State) : Prop :=
  s.pc = .shutdown ∨ s.pc = .hung ∨ s.pc = .exited → s.shouldStop = true

theorem LeavesOnStop.step (h : LeavesOnStop s) (hs : Step s l s') : LeavesOnStop s' := by
  intro hpc
  cases hs with
  | runQueue | writeQueue | isrFence | suspend =>
    refine h (hpc.imp ?_ (Or.imp ?_ ?_)) <;> exact fun hw => pc_of_woken hw (by simp)
  | remove => rfl
  | head =>
    change s.wtPoll = _ ∨ s.wtPoll = _ ∨ s.wtPoll = _ at hpc
    unfold wtPoll at hpc
    split at hpc
    · rename_i hstop
      exact hstop
    · split at hpc <;> simp at hpc
  | shutdown hshut => exact h (Or.inl hshut)
  | account t caller => cases caller <;> simp [destroyReturn] at hpc
  | polled | sleep | again | park | drop | getNext | bindSlot | taskRun | taskFinish | runDone
  | runSkip | runFeed | runReject | fence | destroyUnbind | destroyKeep | finishing =>
    simp at hpc
  | _ => exact h hpc

theorem leavesOnStop_reachable (h : Reachable s) : LeavesOnStop s :=
  Machine.Reachable.invariant (fun hpc => by simp [system, probed] at hpc)
    (fun _ _ _ hI hs => hI.step (Step.of_step hs)) h

theorem wtPoll_of_service (h : InService s) :
    s.wtPoll = if s.fenceState = .reached then .event .taskFinish else .polled := by
  unfold wtPoll wtGetEventFence
  rw [h.run, h.unpark]
  by_cases hfence : s.fenceState = .reached
  · rw [if_pos hfence, if_pos hfence]
    rfl
  · rw [if_neg hfence, if_neg hfence]
    rfl

theorem wtGetEvent_of_service (h : InService s) (hfence : s.fenceState ≠ .reached) :
    s.wtGetEvent = s.wtGetEventTask := by
  unfold wtGetEvent wtGetEventFence
  rw [h.run, h.unpark, if_neg hfence]
  rfl

/-! ## There is something to do -/

/-- While a task is unfinished, the worker has something to do or waits for a fence. -/
theorem event_of_unfinished (hr : Reachable s) (hfit : Fitting s) (ht : t < s.nTask)
    (hgone : t ∉ s.gone) (hdrop : s.pc.droppedTask = none) (hfence : s.fenceState ≠ .waiting) :
    s.wtGetEvent ≠ .noEvent := by
  intro hev
  obtain ⟨hrun, hcases⟩ := stuck_cases hr hev hfence
  rcases hcases with ⟨hnext, hpend⟩ | ⟨u, hnext, hplace, hfree⟩
  · exact hgone ((freedGone_reachable hr t ht).mp (freed_of_empty hr hrun hnext hdrop hpend ht))
  · have hheld : s.pipeline.Held u := Or.inl hnext
    have hu := held_lt hr hheld
    have hulive := live_of_not_gone hr hu (not_gone_of_held hr hheld)
    have hcard : 16 ≤ (s.others u (s.out u)).card := by
      refine others_card hr hfree hplace fun v hv => ?_
      by_contra hvlive
      rw [Bool.not_eq_true] at hvlive
      have hle := next_le_live hr hnext hrun (Nat.lt_trans hv hu) hvlive
      exact absurd hv (Nat.not_lt.mpr hle)
    exact absurd (hfit u hu hulive) (Nat.not_lt.mpr hcard)

/-- With slots for all tasks the worker does not sleep until one is free, so nobody has to
announce it. -/
theorem slotsAnnounced_of_fit (hr : Reachable s) (hfit : Fitting s) (hidle : SleepsIdle s)
    (l : Label) : SlotsAnnounced s l := by
  have hnot : ¬ s.WaitsForSlot := by
    rintro ⟨hpc, hnext, hfence⟩
    obtain ⟨u, hu⟩ := Option.ne_none_iff_exists'.mp hnext
    have hheld := next_held hr hu
    have hdrop : s.pc.droppedTask = none := by
      rw [hpc]
      rfl
    exact event_of_unfinished hr hfit (held_lt hr hheld) (not_gone_of_held hr hheld) hdrop
      (by simp [hfence]) (hidle hpc)
  cases l with
  | releaseBuffer c => exact fun _ _ _ => hnot
  | bufferRelease b => exact fun _ => hnot
  | _ => trivial

theorem sleepsIdle_of_fit (h : system.ReachableBy SessionsFit s) : SleepsIdle s := by
  induction h with
  | init => exact fun hpc => by cases hpc
  | step h _ hs ih =>
    have hr := h.reachable
    exact ih.step hr (slotsAnnounced_of_fit hr (fitting_reachable h) ih _) (Step.of_step hs)

/-! ## Stages -/

/-- Whose turn it is: the worker ends the running task after its destruction, fetches the next
one, and feeds it; the device reaches its fence; the handler sees the interrupt; the worker
destroys the task. -/
inductive Stage
  | ending
  | fetching
  | feeding
  | owing
  | raised
  | reached
  deriving DecidableEq, Repr

/-- The number of stages before the next destruction. -/
def Stage.ahead : Stage → Nat
  | .ending => 5
  | .fetching => 4
  | .feeding => 3
  | .owing => 2
  | .raised => 1
  | .reached => 0

/-- The step that goes on. -/
def Stage.helper : Stage → Label
  | .owing => .fenceInterrupt
  | .raised => .isr
  | _ => .worker

namespace WtPc

/-- The worker is in `__wt_run_task` or before its fence. -/
def feeding : WtPc → Bool
  | .running _ => true
  | .fencing => true
  | _ => false

/-- Steps until the fence is fed. -/
def toFence : WtPc → Nat
  | .running left => left + 1
  | _ => 0

/-- Steps until the handler of an event of the queue. -/
def toHandler : WtPc → Nat
  | .event .taskGetNext => 0
  | .event .taskBindSlot => 0
  | .event .taskRun => 0
  | .polled => 1
  | .head => 2
  | .event .park => 4
  | _ => 3

/-- Steps until a task is run or dropped, with `errands` still to be done. -/
def toRun (errands : Nat) : WtPc → Nat
  | .account _ _ => 0
  | .destroy _ _ => 1
  | pc => errands + pc.toHandler + 2

/-- Steps until the running task is destroyed, when its fence has been reached. -/
def toFinish : WtPc → Nat
  | .account _ .finish => 0
  | .destroy _ .finish => 1
  | .event .taskFinish => 2
  | .head => 3
  | .event .park => 5
  | .destroy _ .drop => 5
  | .event .taskGetNext => 6
  | .polled => 7
  | _ => 4

end WtPc

namespace State

def stage (s : State) : Stage :=
  match s.fenceState with
  | .none => .fetching
  | .waiting => if s.pc.feeding then .feeding else if s.intr.fenceWait then .raised else .owing
  | .reached => if s.pc = .finishing then .ending else .reached

/-- What has to be done before a task can be run: fetch it, and bind its buffer. -/
def errands (s : State) : Nat :=
  match s.nextTask with
  | none => 10
  | some t => if s.place (s.out t) = none then 5 else 0

/-- Steps of the worker until the next stage. -/
def distance (s : State) : Nat :=
  match s.stage with
  | .fetching => s.pc.toRun s.errands
  | .feeding => s.pc.toFence
  | .reached => s.pc.toFinish
  | _ => 0

/-- The tasks up to `t` that are not destroyed. -/
def unfinished (s : State) (t : TaskId) : Nat :=
  ((Finset.range (t + 1)).filter (· ∉ s.gone)).card

/-- What is left to do until task `t` is destroyed. -/
def rank (t : TaskId) (s : State) : ℕ ×ₗ ℕ ×ₗ ℕ :=
  toLex (s.unfinished t, toLex (s.stage.ahead, s.distance))

end State

/-- A step goes on to a later stage, comes nearer to it, or is not the helpful one and changes
nothing. -/
inductive Ahead (s : State) (l : Label) (s' : State) : Prop
  | stage (h : s'.stage.ahead < s.stage.ahead)
  | nearer (hstage : s'.stage = s.stage) (h : s'.distance < s.distance)
  | same (hstage : s'.stage = s.stage) (hdist : s'.distance = s.distance)
      (hl : l ≠ s.stage.helper)

theorem stage_of_none (h : s.fenceState = .none) : s.stage = .fetching := by
  rw [State.stage, h]

theorem none_of_fetching (h : s.stage = .fetching) : s.fenceState = .none := by
  unfold State.stage at h
  split at h
  · assumption
  · split at h
    · cases h
    · split at h <;> cases h
  · split at h <;> cases h

theorem stage_of_feeding (h : s.fenceState = .waiting) (hpc : s.pc.feeding = true) :
    s.stage = .feeding := by
  rw [State.stage, h, hpc]
  rfl

theorem stage_of_device (h : s.fenceState = .waiting) (hpc : s.pc.feeding = false) :
    s.stage = if s.intr.fenceWait then .raised else .owing := by
  rw [State.stage, h, hpc]
  rfl

theorem ahead_le_of_device (h : s.fenceState = .waiting) (hpc : s.pc.feeding = false) :
    s.stage.ahead ≤ 2 := by
  rw [stage_of_device h hpc]
  cases s.intr.fenceWait <;> decide

theorem stage_of_reached (h : s.fenceState = .reached) (hpc : s.pc ≠ .finishing) :
    s.stage = .reached := by
  rw [State.stage, h]
  exact if_neg hpc

theorem stage_of_finishing (h : s.fenceState = .reached) (hpc : s.pc = .finishing) :
    s.stage = .ending := by
  rw [State.stage, h]
  exact if_pos hpc

namespace Ahead

/-- While the device has the running task, it does not matter what the worker does. -/
theorem device (hf : s.fenceState = .waiting) (hf' : s'.fenceState = .waiting)
    (hwait : s'.intr.fenceWait = s.intr.fenceWait) (hpc : s.pc.feeding = false)
    (hpc' : s'.pc.feeding = false) (hl : l ≠ s.stage.helper) : Ahead s l s' := by
  have hstage : s'.stage = s.stage := by
    rw [stage_of_device hf hpc, stage_of_device hf' hpc', hwait]
  refine .same hstage ?_ hl
  unfold State.distance
  rw [hstage, stage_of_device hf hpc]
  cases s.intr.fenceWait <;> rfl

theorem not_worker (hf : s.fenceState = .waiting) (hpc : s.pc.feeding = false) :
    Label.worker ≠ s.stage.helper := by
  rw [stage_of_device hf hpc]
  cases s.intr.fenceWait
  · nofun
  · nofun

/-- A step of the worker between two places outside `__wt_run_task`. -/
theorem of_pc (hfence : s'.fenceState = s.fenceState)
    (hwait : s'.intr.fenceWait = s.intr.fenceWait) (hpc : s.pc.feeding = false)
    (hpc' : s'.pc.feeding = false)
    (hnone : s.fenceState = .none → s'.pc.toRun s'.errands < s.pc.toRun s.errands)
    (hreached : s.fenceState = .reached →
      s.pc ≠ .finishing ∧ s'.pc ≠ .finishing ∧ s'.pc.toFinish < s.pc.toFinish) :
    Ahead s .worker s' := by
  cases hf : s.fenceState with
  | none =>
    have hstage := stage_of_none hf
    have hstage' := stage_of_none (hfence.trans hf)
    refine .nearer (hstage'.trans hstage.symm) ?_
    rw [State.distance, State.distance, hstage, hstage']
    exact hnone hf
  | waiting => exact device hf (hfence.trans hf) hwait hpc hpc' (not_worker hf hpc)
  | reached =>
    obtain ⟨hend, hend', hlt⟩ := hreached hf
    have hstage := stage_of_reached hf hend
    have hstage' := stage_of_reached (hfence.trans hf) hend'
    refine .nearer (hstage'.trans hstage.symm) ?_
    rw [State.distance, State.distance, hstage, hstage']
    exact hlt

/-- A step of the worker that changes nothing but its place. -/
theorem move {pc pc' : WtPc} (hpc : s.pc = pc) (hfeed : pc.feeding = false)
    (hfeed' : pc'.feeding = false)
    (hnone : s.fenceState = .none → pc'.toRun s.errands < pc.toRun s.errands)
    (hreached : s.fenceState = .reached →
      pc ≠ .finishing ∧ pc' ≠ .finishing ∧ pc'.toFinish < pc.toFinish) :
    Ahead s .worker { s with pc := pc' } := by
  subst hpc
  exact .of_pc rfl rfl hfeed hfeed' hnone hreached

/-- A step of the worker in `__wt_run_task`. -/
theorem of_feeding (hf : s.fenceState = .waiting) (hf' : s'.fenceState = .waiting)
    (hpc : s.pc.feeding = true) (hpc' : s'.pc.feeding = true)
    (hlt : s'.pc.toFence < s.pc.toFence) : Ahead s l s' := by
  have hstage := stage_of_feeding hf hpc
  have hstage' := stage_of_feeding hf' hpc'
  refine .nearer (hstage'.trans hstage.symm) ?_
  rw [State.distance, State.distance, hstage, hstage']
  exact hlt

/-- A step of another thread that the worker does not notice. -/
theorem of_same (hfence : s'.fenceState = s.fenceState)
    (hwait : s'.intr.fenceWait = s.intr.fenceWait) (hpc : s'.pc = s.pc)
    (herrands : s.fenceState = .none → s'.errands = s.errands) (hl : l ≠ s.stage.helper) :
    Ahead s l s' := by
  have hstage : s'.stage = s.stage := by
    unfold State.stage
    rw [hfence, hwait, hpc]
  refine .same hstage ?_ hl
  unfold State.distance
  rw [hstage, hpc]
  cases hst : s.stage with
  | fetching =>
    dsimp only
    rw [herrands (none_of_fetching hst)]
  | _ => rfl

end Ahead

/-! ## The other threads -/

/-- The step goes through no pointer that is not there. A RUN that is started has the page of its
first byte: `dicedev_task_init_it` loads it even if the RUN has no bytes, and there is none at the
end of a full page or in a buffer without pages (`run_pages_in_range_iff`). And no write fails
after it has raised `task_count`: it would die with `slock` held (`write_failure_iff`). -/
def NoFault (s : State) : Label → Prop
  | .worker => s.pc = .event .taskRun → ∀ t ∈ s.nextTask, ∀ b ∈ (s.tasks t).body.cBuff,
      ∀ i ∈ initIndices (s.tasks t), i < (s.bufs b).numPages
  | .writeFail _ => False
  | _ => True

instance (s : State) (l : Label) : Decidable (NoFault s l) := by
  apply @Label.casesOn (fun l => Decidable (NoFault s l)) l <;> intros <;>
    unfold NoFault <;> infer_instance

/-- Addresses are not reused too early, commands are whole, and no thread dies. -/
def Faultless (s : State) (l : Label) : Prop := Orderly s l ∧ NoFault s l

instance (s : State) (l : Label) : Decidable (Faultless s l) := inferInstanceAs (Decidable (_ ∧ _))

/-- Such a step, and there are slots for the tasks. -/
def Serviceable (s : State) (l : Label) : Prop := Faultless s l ∧ SessionsFit s l

instance (s : State) (l : Label) : Decidable (Serviceable s l) :=
  inferInstanceAs (Decidable (_ ∧ _))

section

variable (h : system.ReachableBy Serviceable s)

include h

theorem fresh_of_serviceable : system.ReachableBy AddrFresh s := h.mono fun _ _ hC => hC.1.1.1

theorem whole_of_serviceable : system.ReachableBy WholeCommands s :=
  h.mono fun _ _ hC => hC.1.1.2

theorem fits_of_serviceable : system.ReachableBy SessionsFit s := h.mono fun _ _ hC => hC.2

theorem bug_of_serviceable : s.bug = none := bug_eq_none (h.mono fun _ _ hC => hC.1.1)

/-- The worker sleeps only while the device has a task. -/
theorem waiting_of_asleep (ht : t < s.nTask) (hgone : t ∉ s.gone) (hpc : s.pc = .asleep) :
    s.fenceState = .waiting := by
  have hfits := fits_of_serviceable h
  have hdrop : s.pc.droppedTask = none := by
    rw [hpc]
    rfl
  by_contra hne
  exact event_of_unfinished h.reachable (fitting_reachable hfits) ht hgone hdrop hne
    (sleepsIdle_of_fit hfits hpc)

end

theorem nextTask_other (hs : Step s l s') (hl : l ≠ .worker) : s'.nextTask = s.nextTask := by
  cases hs with
  | head | polled | sleep | again | park | drop | getNext | bindSlot | taskRun | taskFinish
  | runDone | runSkip | runFeed | runReject | fence | destroyUnbind | destroyKeep | account
  | finishing | shutdown => exact absurd rfl hl
  | _ => rfl

/-- The prefetched task keeps its slot. -/
theorem errands_other (h : system.ReachableBy AddrFresh s) (hs : Step s l s') (hl : l ≠ .worker)
    (hfence : s.fenceState = .none) : s'.errands = s.errands := by
  have hr := h.reachable
  unfold State.errands
  rw [nextTask_other hs hl]
  cases hnext : s.nextTask with
  | none => rfl
  | some u =>
    have hu := next_lt hr hnext
    have hplace : s'.place (s.out u) = s.place (s.out u) := by
      rcases place_shape hr hs with heq | ⟨d, hunbinds, heq⟩ | ⟨v, i, hbinds, rfl⟩
      · rw [heq]
      · rw [heq]
        refine Function.update_of_ne ?_ _ _
        rintro rfl
        have hlive := live_of_not_gone hr hu (not_gone_of_held hr (next_held hr hnext))
        obtain ⟨v, c, hdestroy⟩ := not_unbinds_of_live h hu hlive hunbinds
        have hagrees := (ctl_reachable hr).agrees hdestroy
        cases c with
        | drop => cases hnext.symm.trans hagrees
        | finish => cases hfence.symm.trans hagrees.2
      · have hbind := hbinds.pc_eq
        rcases pc_other_step hs hl with hpc | hpc
        · cases hbind.symm.trans hpc.symm
        · cases hbind.symm.trans (pc_of_woken hpc.symm (by nofun))
    dsimp only
    rw [out_step hs hu, hplace]

/-- Other threads than the interrupt handler and the device leave the fence alone. -/
theorem fence_other (hs : Step s l s') (hl : l ≠ .worker) (hisr : l ≠ .isr)
    (hdev : l ≠ .fenceInterrupt) :
    s'.fenceState = s.fenceState ∧ s'.intr.fenceWait = s.intr.fenceWait := by
  cases hs with
  | head | polled | sleep | again | park | drop | getNext | bindSlot | taskRun | taskFinish
  | runDone | runSkip | runFeed | runReject | fence | destroyUnbind | destroyKeep | account
  | finishing | shutdown => exact absurd rfl hl
  | isrOff | isr | isrFence => exact absurd rfl hisr
  | fenceInterrupt => exact absurd rfl hdev
  | halt _ _ hwho => exact absurd hwho (not_or.mpr ⟨hisr, hl⟩)
  | errorInterrupt i mem => exact ⟨rfl, by cases mem <;> rfl⟩
  | _ => exact ⟨rfl, rfl⟩

/-- While interrupts are enabled the handler reads and clears its bits. -/
theorem isr_cases (hen : s.intrEnable = true) (hs : system.step s .isr = some s')
    (hbug : s'.bug = none) :
    (s.intr.fenceWait = false ∧ s' = { s with intr := Intr.clear, ctxs := s.isrCtxs }) ∨
      (s.intr.fenceWait = true ∧ s' = { s with
        intr := Intr.clear
        ctxs := s.isrCtxs
        fenceState := .reached
        pc := s.wokenPc }) := by
  have hhandle : s.dicedevIsr.map s.orHalt = some s' := handle_of_step hs
  unfold dicedevIsr at hhandle
  split at hhandle
  · rcases Step.isrError_cases s with ⟨b, hb, -⟩ | ⟨hok, -⟩
    · simp only [hb] at hhandle
      cases hhandle
      cases hbug
    · simp only [hok, bind, Except.bind, State.isrFence] at hhandle
      split at hhandle
      · rename_i hwait
        split at hhandle
        · cases hhandle
          cases hbug
        · exact Or.inr ⟨hwait, (Option.some.inj hhandle).symm⟩
      · rename_i hwait
        exact Or.inl ⟨Bool.eq_false_iff.mpr hwait, (Option.some.inj hhandle).symm⟩
  · cases hhandle

/-- Outside `__wt_run_task` nothing is fed for the running task. -/
theorem feeding_eq_false {pc : WtPc} {r : TaskId} (h : pc.fedTask (some r) = none) :
    pc.feeding = false := by
  cases pc with
  | running | fencing => cases h
  | _ => rfl

/-- An interrupt of the device is about the fence that the driver waits for. -/
theorem waiting_of_raised (hr : Reachable s) (hwait : s.intr.fenceWait = true) :
    s.fenceState = .waiting ∧ s.pc.feeding = false := by
  have hphase := (deviceInv_reachable hr).phase
  generalize hf : s.fenceState = fence at hphase
  cases hphase with
  | raised r hrun hfed =>
    rw [hrun] at hfed
    exact ⟨rfl, feeding_eq_false hfed⟩
  | idle _ _ hoff | feeding _ _ _ hoff | owing _ _ _ _ hoff | reached _ _ _ _ hoff =>
    rw [hoff] at hwait
    cases hwait

/-- A fence that the device owes is the one that the driver waits for. -/
theorem waiting_of_owed (hr : Reachable s) (howed : s.owed ≠ []) :
    s.fenceState = .waiting ∧ s.pc.feeding = false ∧ s.intr.fenceWait = false := by
  have hphase := (deviceInv_reachable hr).phase
  generalize hf : s.fenceState = fence at hphase
  cases hphase with
  | owing r hrun hfed _ hwait =>
    rw [hrun] at hfed
    exact ⟨rfl, feeding_eq_false hfed, hwait⟩
  | idle _ hnone | feeding _ _ hnone | raised _ _ _ hnone | reached _ _ _ hnone =>
    exact absurd hnone howed

theorem owed_eq_nil_iff (s : State) : s.owed = [] ↔ s.fences[s.signalled]? = none := by
  rw [State.owed, fences_eq, List.drop_eq_nil_iff, List.getElem?_eq_none_iff]

/-- The device owes a fence when it is its turn. -/
theorem owed_of_owing (hr : Reachable s) (hst : s.stage = .owing) : s.owed ≠ [] := by
  have hphase := (deviceInv_reachable hr).phase
  unfold State.stage at hst
  generalize hf : s.fenceState = fence at hphase hst
  cases hphase with
  | idle => cases hst
  | reached =>
    dsimp only at hst
    split at hst <;> cases hst
  | owing r _ _ howed =>
    rw [howed]
    exact List.cons_ne_nil _ _
  | feeding r hfed =>
    have hpc : s.pc.feeding = true := by
      cases hp : s.pc with
      | running | fencing => rfl
      | _ =>
        rw [hp] at hfed
        cases hfed
    rw [hpc] at hst
    cases hst
  | raised r _ _ _ hwait =>
    rw [hwait] at hst
    dsimp only at hst
    split at hst <;> cases hst

section

variable (h : system.ReachableBy Serviceable s) (hservice : InService s) (ht : t < s.nTask)
  (hgone : t ∉ s.gone) (hC : Serviceable s l) (hs : system.step s l = some s')

include h ht hgone hs in
/-- A step of a user. -/
theorem ahead_other (hl : l ≠ .worker) (hisr : l ≠ .isr) (hdev : l ≠ .fenceInterrupt) :
    Ahead s l s' := by
  have hstep := Step.of_step hs
  obtain ⟨hfence, hwait⟩ := fence_other hstep hl hisr hdev
  have hhelp : l ≠ s.stage.helper := by
    cases s.stage with
    | owing => exact hdev
    | raised => exact hisr
    | _ => exact hl
  have hsame : s'.pc = s.pc → Ahead s l s' := fun hpc =>
    .of_same hfence hwait hpc (errands_other (fresh_of_serviceable h) hstep hl) hhelp
  rcases pc_other_step hstep hl with hpc | hpc
  · exact hsame hpc
  · by_cases hasleep : s.pc = .asleep
    · have hf := waiting_of_asleep h ht hgone hasleep
      rw [wokenPc, if_pos hasleep] at hpc
      exact .device hf (hfence.trans hf) hwait (by rw [hasleep]; rfl) (by rw [hpc]; rfl) hhelp
    · rw [wokenPc, if_neg hasleep] at hpc
      exact hsame hpc

include h hservice hC hs in
/-- The interrupt handler takes notice of the fence. -/
theorem ahead_isr (hl : l = .isr) : Ahead s l s' := by
  subst hl
  have hr := h.reachable
  rcases isr_cases hservice.intr hs (bug_of_serviceable (h.step hC hs)) with
    ⟨hwait, rfl⟩ | ⟨hwait, rfl⟩
  · refine .of_same rfl hwait.symm rfl (fun _ => rfl) fun hl => ?_
    cases hst : s.stage with
    | raised =>
      unfold State.stage at hst
      rw [hwait] at hst
      split at hst
      · cases hst
      · split at hst <;> cases hst
      · split at hst <;> cases hst
    | _ =>
      rw [hst] at hl
      cases hl
  · obtain ⟨hfence, hpc⟩ := waiting_of_raised hr hwait
    have hne : s.wokenPc ≠ .finishing := by
      intro hend
      have hagrees := (ctl_reachable hr).agrees (pc_of_woken hend (by nofun))
      cases hfence.symm.trans hagrees.2
    refine .stage ?_
    rw [stage_of_device hfence hpc, hwait, stage_of_reached rfl hne]
    decide

include h hs in
/-- The device reaches the fence. -/
theorem ahead_fenceInterrupt (hl : l = .fenceInterrupt) : Ahead s l s' := by
  subst hl
  cases Step.of_step hs with
  | fenceInterrupt u hu =>
    obtain ⟨hfence, hpc, hwait⟩ := waiting_of_owed h.reachable fun hnil => by
      cases hu.symm.trans ((owed_eq_nil_iff s).mp hnil)
    refine .stage ?_
    unfold State.stage
    dsimp only
    rw [hfence, hpc, hwait]
    exact Nat.one_lt_two
  | halt _ _ hl => rcases hl with hl | hl <;> cases hl

end

/-! ## The worker -/

/-- A prefetched task needs at most a slot. -/
theorem errands_le_of_next (h : s.nextTask = some t) : s.errands ≤ 5 := by
  rw [State.errands, h]
  dsimp only
  split <;> decide

theorem errands_of_bound (h : s.nextTask = some t) {i : Slot}
    (hplace : s.place (s.out t) = some i) :
    s.errands = 0 := by
  rw [State.errands, h]
  dsimp only
  rw [hplace]
  exact if_neg nofun

theorem errands_of_unbound (h : s.nextTask = some t) (hplace : s.place (s.out t) = none) :
    s.errands = 5 := by
  rw [State.errands, h]
  exact if_pos hplace

theorem errands_afterBind (h : s.nextTask = some t) (i : Slot) : (s.afterBind t i).errands = 0 := by
  refine errands_of_bound h (i := i) ?_
  rw [place_afterBind]
  exact Function.update_self ..

theorem wtGetEventTask_cases (s : State) :
    s.wtGetEventTask = .taskGetNext ∨ s.wtGetEventTask = .noEvent ∨
      s.fenceState = .none ∧
        (s.wtGetEventTask = .taskBindSlot ∨ s.wtGetEventTask = .taskRun) := by
  unfold wtGetEventTask
  split
  · split
    · exact Or.inl rfl
    · exact Or.inr (Or.inl rfl)
  · split
    · exact Or.inr (Or.inl rfl)
    · rename_i hnone
      refine Or.inr ?_
      split
      · split
        · exact Or.inr ⟨not_not.mp hnone, Or.inl rfl⟩
        · exact Or.inl rfl
      · exact Or.inr ⟨not_not.mp hnone, Or.inr rfl⟩

/-- While the worker is in `__wt_run_task` the driver waits for a fence. -/
theorem waiting_of_feeding (hr : Reachable s) (hpc : s.pc.feeding = true) :
    s.fenceState = .waiting := by
  have hfed : ∃ r, s.pc.fedTask s.runningTask = some r := by
    have hagrees := (ctl_reachable hr).2
    cases hp : s.pc with
    | running left =>
      rw [hp] at hagrees
      exact Option.ne_none_iff_exists'.mp hagrees.1
    | fencing =>
      rw [hp] at hagrees
      exact Option.ne_none_iff_exists'.mp hagrees.1
    | _ =>
      rw [hp] at hpc
      cases hpc
  obtain ⟨r, hr'⟩ := hfed
  exact ((deviceInv_reachable hr).phase.of_fed hr').2.2

/-- Until the running task is finished nothing younger is, and without a running task the
worker drops the oldest task. -/
theorem le_of_dropped (hr : Reachable s) (hgone : t ∉ s.gone) {u : TaskId} {c : Caller}
    (hpc : s.pc = .account u c) (hfence : s.fenceState = .none ∨ c = .finish) : u ≤ t := by
  have hv := pipeline_reachable hr
  have hctl := ctl_reachable hr
  have hagrees := hctl.agrees hpc
  cases c with
  | finish =>
    refine hv.running_le ?_ hgone
    change s.pc.deviceTask s.runningTask = some u
    rw [hpc]
    exact hagrees.1
  | drop =>
    by_contra hlt
    have hdrop : s.pipeline.dropping = some u := by
      change s.pc.droppedTask = some u
      rw [hpc]
      rfl
    have hrun : s.runningTask = none := hctl.1.mpr (hfence.resolve_right nofun)
    refine hgone ((hv.gone_iff t).mpr ⟨?_, ?_⟩)
    · have hlast := hv.dropping_last u hdrop
      exact hlast ▸ Nat.lt_succ_of_lt (Nat.lt_of_not_le hlt)
    · rintro (hheld | hheld | hheld)
      · change s.pc.waitingTask s.nextTask = some t at hheld
        rw [hpc] at hheld
        cases hheld.symm.trans hagrees
      · change s.pc.deviceTask s.runningTask = some t at hheld
        rw [hpc, hrun] at hheld
        cases hheld
      · rw [hdrop] at hheld
        cases hheld
        exact hlt (Nat.le_refl _)

section

variable (h : system.ReachableBy Serviceable s) (hservice : InService s) (ht : t < s.nTask)
  (hgone : t ∉ s.gone) (hC : Serviceable s .worker) (hs : system.step s .worker = some s')

include h hservice ht hgone hC hs

theorem ahead_worker : Ahead s .worker s' ∨ ∃ u c, s.pc = .account u c ∧ u ≤ t := by
  have hr := h.reachable
  have hctl := ctl_reachable hr
  have hevent : s.pc.droppedTask = none → s.fenceState ≠ .waiting → s.wtGetEvent ≠ .noEvent :=
    event_of_unfinished hr (fitting_reachable (fits_of_serviceable h)) ht hgone
  have hfeeds : ∀ {pc}, s.pc = pc → pc.feeding = true → s.fenceState = .waiting :=
    fun hpc hfeed => waiting_of_feeding hr (hpc ▸ hfeed)
  cases Step.of_step hs with
  | head hpc =>
    left
    rw [wtPoll_of_service hservice]
    split
    · rename_i hf
      exact .move hpc rfl rfl (fun hnone => by cases hf.symm.trans hnone)
        fun _ => ⟨nofun, nofun, by decide⟩
    · rename_i hf
      exact .move hpc rfl rfl (fun _ => Nat.lt_succ_self _) fun hreached => absurd hreached hf
  | polled hpc =>
    left
    rcases wtGetEventTask_cases s with he | he | ⟨hf, he | he⟩ <;> rw [he]
    · exact .move hpc rfl rfl (fun _ => Nat.lt_succ_self _) fun _ => ⟨nofun, nofun, by decide⟩
    · refine .move hpc rfl rfl (fun hf => ?_) fun _ => ⟨nofun, nofun, by decide⟩
      refine absurd ?_ (hevent (by rw [hpc]; rfl) (by rw [hf]; nofun))
      rw [wtGetEvent_of_service hservice (by rw [hf]; nofun), he]
    · exact .move hpc rfl rfl (fun _ => Nat.lt_succ_self _) fun hf' => by cases hf.symm.trans hf'
    · exact .move hpc rfl rfl (fun _ => Nat.lt_succ_self _) fun hf' => by cases hf.symm.trans hf'
  | sleep hpc hev =>
    left
    have hf : s.fenceState = .waiting := by
      by_contra hne
      exact hevent (by rw [hpc]; rfl) hne hev
    exact .move hpc rfl rfl (fun hf' => by cases hf.symm.trans hf')
      fun hf' => by cases hf.symm.trans hf'
  | again hpc =>
    left
    rcases hpc with hpc | hpc | hpc
    all_goals
      exact .move hpc rfl rfl (fun _ => Nat.lt_succ_self _) fun _ => ⟨nofun, nofun, by decide⟩
  | park hpc =>
    left
    exact .move hpc rfl rfl (fun _ => Nat.lt_succ_self _) fun _ => ⟨nofun, nofun, by decide⟩
  | drop u rest hpc hpend hfail =>
    left
    refine .of_pc rfl rfl (by rw [hpc]; rfl) rfl ?_ ?_
    · intro _
      rw [hpc]
      exact Nat.succ_lt_succ (Nat.zero_lt_succ _)
    · intro _
      rw [hpc]
      exact ⟨nofun, nofun, Nat.lt_succ_self 5⟩
  | getNext u rest hpc hpend hfail =>
    left
    refine .of_pc rfl rfl (by rw [hpc]; rfl) rfl ?_ ?_
    · intro _
      have hten : s.errands = 10 := by rw [State.errands, (hctl.agrees hpc).1]
      rw [hpc, hten]
      exact Nat.lt_of_le_of_lt (Nat.add_le_add_right (errands_le_of_next rfl) 4) (by decide)
    · intro _
      rw [hpc]
      exact ⟨nofun, nofun, (by decide : 3 < 6)⟩
  | bindSlot u b i hpc hnext hout hslot hempty =>
    left
    refine .of_pc rfl rfl (by rw [hpc]; rfl) rfl ?_ ?_
    · intro _
      have hfive := errands_of_unbound hnext (((slots_reachable hr).2 hpc).2 u hnext)
      rw [hpc, hfive]
      subst hout
      change (s.afterBind u i).errands + 4 < 7
      rw [errands_afterBind hnext i]
      decide
    · intro hf
      cases hf.symm.trans (hctl.agrees hpc).2
  | taskRun u hpc hnext hbound =>
    left
    refine .stage ?_
    rw [stage_of_none (hctl.agrees hpc).2]
    exact Nat.lt_succ_self 3
  | taskFinish u hpc hrun =>
    left
    have hf : s.fenceState = .reached := hctl.agrees hpc
    exact .move hpc rfl rfl (fun hf' => by cases hf.symm.trans hf')
      fun _ => ⟨nofun, nofun, Nat.lt_succ_self 1⟩
  | runDone u hpc hrun =>
    left
    have hf := hfeeds hpc rfl
    exact .of_feeding hf hf (by rw [hpc]; rfl) rfl (by rw [hpc]; exact Nat.zero_lt_succ _)
  | runSkip u left task left' hpc hrun hpass =>
    left
    have hf := hfeeds hpc rfl
    refine .of_feeding hf hf (by rw [hpc]; rfl) rfl ?_
    have hne := left_ne_zero hpc hrun hs fun heq => by cases congrArg State.pc heq
    rw [hpc]
    exact Nat.succ_lt_succ
      (left_lt_of_pass (whole_of_serviceable h) hC.1.1.2 hpc hrun hne hpass rfl)
  | runFeed u left task words user left' hpc hrun hpass =>
    left
    have hf := hfeeds hpc rfl
    refine .of_feeding hf hf (by rw [hpc]; rfl) rfl ?_
    have hne := left_ne_zero hpc hrun hs fun heq => by cases congrArg State.pc heq
    rw [hpc]
    exact Nat.succ_lt_succ
      (left_lt_of_pass (whole_of_serviceable h) hC.1.1.2 hpc hrun hne hpass rfl)
  | runReject u left task hpc hrun hpass =>
    left
    have hf := hfeeds hpc rfl
    exact .of_feeding hf hf (by rw [hpc]; rfl) rfl (by rw [hpc]; exact Nat.zero_lt_succ _)
  | fence u hpc hrun =>
    left
    have hf := hfeeds hpc rfl
    refine .stage ?_
    rw [stage_of_feeding hf (by rw [hpc]; rfl)]
    exact Nat.lt_succ_of_le (ahead_le_of_device hf rfl)
  | destroyUnbind u c b hpc hout hwhy =>
    left
    refine .of_pc rfl rfl (by rw [hpc]; rfl) rfl ?_ ?_
    · intro _
      rw [hpc]
      exact Nat.zero_lt_one
    · intro _
      rw [hpc]
      exact ⟨nofun, nofun, by cases c <;> exact Nat.lt_succ_self _⟩
  | destroyKeep u c hpc hwrite hfail =>
    left
    exact .move hpc rfl rfl (fun _ => Nat.zero_lt_one)
      fun _ => ⟨nofun, nofun, by cases c <;> exact Nat.lt_succ_self _⟩
  | account u caller c b hpc hctx hout =>
    by_cases hle : u ≤ t
    · exact Or.inr ⟨u, caller, hpc, hle⟩
    · left
      cases caller with
      | finish => exact absurd (le_of_dropped hr hgone hpc (Or.inr rfl)) hle
      | drop =>
        refine .of_pc rfl rfl (by rw [hpc]; rfl) rfl ?_ ?_
        · intro hf
          exact absurd (le_of_dropped hr hgone hpc (Or.inl hf)) hle
        · intro _
          rw [hpc]
          exact ⟨nofun, nofun, Nat.lt_succ_self 3⟩
  | finishing hpc =>
    left
    refine .stage ?_
    rw [stage_of_finishing (hctl.agrees hpc).2 hpc]
    exact Nat.lt_succ_self 4
  | shutdown hpc =>
    have hstop := leavesOnStop_reachable hr (Or.inl hpc)
    rw [hservice.run] at hstop
    cases hstop
  | halt _ b _ _ hbug =>
    cases bug_of_serviceable (h.step hC hs)

end

theorem enabled_of_handle (hbug : s.bug = none) (hl : s.handle l ≠ none) : system.Enabled s l :=
  fun hnone => hl ((if_pos hbug).symm.trans hnone)

/-! ## The rank -/

theorem unfinished_le (hs : Step s l s') (t : TaskId) : s'.unfinished t ≤ s.unfinished t := by
  refine Finset.card_le_card fun u hu => ?_
  obtain ⟨hmem, hgone⟩ := Finset.mem_filter.mp hu
  exact Finset.mem_filter.mpr ⟨hmem, fun hold => hgone (mem_filterMap_step hs hold)⟩

theorem gone_of_account {u : TaskId} {c : Caller} (hpc : s.pc = .account u c)
    (hs : system.step s .worker = some s') : u ∈ s'.gone := by
  have hwt : s.wtStep = some (.ok
      ({ s.taskDestroyCount u with pc := destroyReturn c }.log (destroyEvent u c))) := by
    rw [wtStep, hpc]
  rw [step_worker (bug_of_step hs) hwt] at hs
  rw [← Option.some.inj hs]
  refine List.mem_filterMap.mpr ⟨destroyEvent u c, ?_, gone?_destroyEvent u c⟩
  exact List.mem_append_right _ (List.mem_singleton_self _)

/-- A task is destroyed. -/
theorem unfinished_lt (hr : Reachable s) (hs : system.step s .worker = some s') {u : TaskId}
    {c : Caller} (hpc : s.pc = .account u c) (hu : u ≤ t) :
    s'.unfinished t < s.unfinished t := by
  have hstep := Step.of_step hs
  have hold := not_gone_of_held hr (account_held hr hpc)
  have hnew := gone_of_account hpc hs
  refine Finset.card_lt_card ⟨fun v hv => ?_, fun hsub => ?_⟩
  · obtain ⟨hmem, hgone⟩ := Finset.mem_filter.mp hv
    exact Finset.mem_filter.mpr ⟨hmem, fun hmem' => hgone (mem_filterMap_step hstep hmem')⟩
  · have hin : u ∈ (Finset.range (t + 1)).filter (· ∉ s.gone) :=
      Finset.mem_filter.mpr ⟨Finset.mem_range.mpr (Nat.lt_succ_of_le hu), hold⟩
    exact (Finset.mem_filter.mp (hsub hin)).2 hnew

theorem rank_lt_of_unfinished (h : s'.unfinished t < s.unfinished t) : s'.rank t < s.rank t :=
  Prod.Lex.toLex_lt_toLex.mpr (Or.inl h)

theorem rank_of_ahead (hle : s'.unfinished t ≤ s.unfinished t) (h : Ahead s l s') :
    s'.rank t < s.rank t ∨
      s'.rank t = s.rank t ∧ s'.stage.helper = s.stage.helper ∧ l ≠ s.stage.helper := by
  rcases Nat.lt_or_eq_of_le hle with hlt | heq
  · exact Or.inl (rank_lt_of_unfinished hlt)
  · cases h with
    | stage h =>
      refine Or.inl (Prod.Lex.toLex_lt_toLex.mpr (Or.inr ⟨heq, ?_⟩))
      exact Prod.Lex.toLex_lt_toLex.mpr (Or.inl h)
    | nearer hstage h =>
      refine Or.inl (Prod.Lex.toLex_lt_toLex.mpr (Or.inr ⟨heq, ?_⟩))
      exact Prod.Lex.toLex_lt_toLex.mpr (Or.inr ⟨congrArg Stage.ahead hstage, h⟩)
    | same hstage hdist hl =>
      refine Or.inr ⟨?_, congrArg Stage.helper hstage, hl⟩
      unfold State.rank
      rw [heq, hstage, hdist]

section

variable (h : system.ReachableBy Serviceable s) (hservice : InService s) (ht : t < s.nTask)
  (hgone : t ∉ s.gone)

include h hservice ht hgone

/-- Every step brings the end of task `t` nearer, or it is not the helpful one and leaves
everything as it is. -/
theorem rank_step (hC : Serviceable s l) (hs : system.step s l = some s') :
    s'.rank t < s.rank t ∨
      s'.rank t = s.rank t ∧ s'.stage.helper = s.stage.helper ∧ l ≠ s.stage.helper := by
  have hle := unfinished_le (Step.of_step hs) t
  by_cases hworker : l = .worker
  · subst hworker
    rcases ahead_worker h hservice ht hgone hC hs with hahead | ⟨u, c, hpc, hu⟩
    · exact rank_of_ahead hle hahead
    · exact Or.inl (rank_lt_of_unfinished (unfinished_lt h.reachable hs hpc hu))
  · refine rank_of_ahead hle ?_
    by_cases hisr : l = .isr
    · exact ahead_isr h hservice hC hs hisr
    · by_cases hdev : l = .fenceInterrupt
      · exact ahead_fenceInterrupt h hs hdev
      · exact ahead_other h ht hgone hs hworker hisr hdev

omit ht hgone in
/-- A worker in service has not left its loop. -/
theorem not_left : ¬ (s.pc = .shutdown ∨ s.pc = .hung ∨ s.pc = .exited) := by
  intro hout
  have hstop := leavesOnStop_reachable h.reachable hout
  rw [hservice.run] at hstop
  cases hstop

omit ht hgone in
theorem worker_enabled (hpc : s.pc ≠ .asleep) : system.Enabled s .worker := by
  have hin := not_left h hservice
  have hwt : s.wtStep ≠ none := by
    unfold wtStep
    cases hp : s.pc with
    | asleep => exact absurd hp hpc
    | hung => exact absurd (Or.inr (Or.inl hp)) hin
    | exited => exact absurd (Or.inr (Or.inr hp)) hin
    | parked =>
      dsimp only
      rw [hservice.unpark]
      nofun
    | _ => nofun
  exact enabled_of_handle (bug_of_serviceable h) fun hnone => hwt (Option.map_eq_none_iff.mp hnone)

omit ht hgone in
theorem isr_enabled : system.Enabled s .isr := by
  have hfree : s.slockFree = true :=
    decide_eq_true fun hp => not_left h hservice (Or.inr (Or.inl hp))
  refine enabled_of_handle (bug_of_serviceable h) ?_
  rw [State.handle, dicedevIsr, if_pos hfree, if_pos hservice.intr]
  nofun

omit hservice ht hgone in
theorem fenceInterrupt_enabled (hst : s.stage = .owing) : system.Enabled s .fenceInterrupt := by
  have howed := owed_of_owing h.reachable hst
  rw [Ne, owed_eq_nil_iff] at howed
  obtain ⟨u, hu⟩ := Option.ne_none_iff_exists'.mp howed
  refine enabled_of_handle (bug_of_serviceable h) ?_
  rw [State.handle, hwFence, hu]
  nofun

/-- The helpful step can be taken. -/
theorem helper_enabled : system.Enabled s s.stage.helper := by
  cases hst : s.stage with
  | owing => exact fenceInterrupt_enabled h hst
  | raised => exact isr_enabled h hservice
  | ending | fetching | feeding | reached =>
    refine worker_enabled h hservice fun hasleep => ?_
    have hf := waiting_of_asleep h ht hgone hasleep
    rw [stage_of_device hf (by rw [hasleep]; rfl)] at hst
    cases hw : s.intr.fenceWait <;> rw [hw] at hst <;> cases hst

end

/-! ## Whole runs -/

/-- A step of a driver that stays in service. -/
def Steady (s : State) (l : Label) : Prop := Serviceable s l ∧ l.leaves = false

instance (s : State) (l : Label) : Decidable (Steady s l) := inferInstanceAs (Decidable (_ ∧ _))

/-- A run of a driver in service, fair to the worker, the device and the interrupt handler. In all
its steps, and in those that lead to its start, addresses are not reused too early, commands are
whole, no thread dies, and there are slots for the tasks. -/
structure Served (r : system.Run) : Prop where
  start : system.ReachableBy Serviceable (r.state 0)
  steps : ∀ k, Steady (r.state k) (r.label k)
  service : InService (r.state 0)
  worker : r.Fair .worker
  fenceInterrupt : r.Fair .fenceInterrupt
  isr : r.Fair .isr

namespace Served

variable {r : system.Run} (h : Served r)

include h

theorem reachable (k : Nat) : system.ReachableBy Serviceable (r.state k) :=
  r.reachableBy h.start (fun j => (h.steps j).1) k

theorem inService (k : Nat) : InService (r.state k) :=
  r.keeps h.service
    (fun j _ hj => hj.step (h.steps j).2 (Step.of_step (r.step j))) (Nat.zero_le k)

omit h in
theorem nTask_le {k j : Nat} (hkj : k ≤ j) (ht : t < (r.state k).nTask) : t < (r.state j).nTask :=
  r.keeps (P := fun s => t < s.nTask) ht
    (fun i _ hi => Nat.lt_of_lt_of_le hi (nTask_le_step (Step.of_step (r.step i)))) hkj

theorem fair (st : Stage) : r.Fair st.helper := by
  cases st with
  | owing => exact h.fenceInterrupt
  | raised => exact h.isr
  | _ => exact h.worker

end Served

theorem gone_eventually {r : system.Run} (h : Served r) {k : Nat} (ht : t < (r.state k).nTask) :
    ∃ j, k ≤ j ∧ t ∈ (r.state j).gone := by
  refine r.eventually (fun s => t ∈ s.gone) (State.rank t) (fun s => s.stage.helper) (n := k)
    (fun j _ => h.fair _) ?_ ?_ (Nat.le_refl k)
  · intro j hj hgone
    exact helper_enabled (h.reachable j) (h.inService j) (Served.nTask_le hj ht) hgone
  · intro j hj hgone _
    exact rank_step (h.reachable j) (h.inService j) (Served.nTask_le hj ht) hgone (h.steps j).1
      (r.step j)

/-- In a run of a driver in service (`Served`) a queued task is destroyed in the end, and its
memory has been given back. -/
theorem tasks_destroyed {r : system.Run} (h : Served r) {k : Nat} (ht : t < (r.state k).nTask) :
    ∃ j, k ≤ j ∧ ∀ i, j ≤ i → t ∈ (r.state i).gone ∧ ((r.state i).tasks t).freed = true := by
  obtain ⟨j, hj, hgone⟩ := gone_eventually h ht
  refine ⟨j, hj, fun i hi => ?_⟩
  have hgone' : t ∈ (r.state i).gone :=
    r.keeps (P := fun s => t ∈ s.gone) hgone
      (fun m _ hm => mem_filterMap_step (Step.of_step (r.step m)) hm) hi
  have hlt := Served.nTask_le (Nat.le_trans hj hi) ht
  exact ⟨hgone', (freedGone_reachable (h.reachable i).reachable t hlt).mpr hgone'⟩

/-! ## Runs that come to rest -/

/-- Nothing is left to do. -/
def State.Idle (s : State) : Prop :=
  s.pc = .asleep ∧ s.bug = none ∧ s.intrEnable = true ∧ s.intr = Intr.clear ∧
    s.runningTask = none ∧ s.fences[s.signalled]? = none

instance (s : State) : Decidable s.Idle := by
  unfold State.Idle
  infer_instance

/-- An interrupt without a reason. -/
theorem isr_idle (h : s.Idle) : system.step s .isr = some s := by
  obtain ⟨hpc, hbug, hen, hintr, hrun, -⟩ := h
  have hfree : s.slockFree = true := decide_eq_true (by rw [hpc]; nofun)
  have hctxs : s.isrCtxs = s.ctxs := by rw [isrCtxs, hrun]
  have hisr : s.dicedevIsr = some (.ok { s with intr := Intr.clear, ctxs := s.isrCtxs }) := by
    rw [dicedevIsr, if_pos hfree, if_pos hen, hctxs]
    simp only [hintr, isrError, isrFence, Intr.clear]
    rfl
  change (if s.bug = none then s.dicedevIsr.map s.orHalt else none) = some s
  rw [if_pos hbug, hisr, hctxs, ← hintr]
  rfl

/-- A finite run to a state at rest goes on for ever, with interrupts without a reason. -/
theorem exists_served {u : State} {ls : List Label} (hr : system.ReachableBy Steady s)
    (hservice : InService s) (hls : (system.guarded Steady).exec s ls = some u) (hidle : u.Idle) :
    ∃ r : system.Run, r.state 0 = s ∧ Served r ∧ r.EndsIn u .isr := by
  obtain ⟨r, h₀, hsteps, hend⟩ :=
    Machine.exists_run hls (isr_idle hidle) ⟨⟨⟨⟨trivial, trivial⟩, trivial⟩, trivial⟩, rfl⟩
  obtain ⟨hpc, hbug, -, -, -, hfence⟩ := hidle
  refine ⟨r, h₀, ⟨?_, hsteps, h₀ ▸ hservice, ?_, ?_, ?_⟩, hend⟩
  · rw [h₀]
    exact hr.mono fun _ _ hC => hC.1
  · refine hend.fair (Or.inr fun hen => hen ?_)
    exact (if_pos hbug).trans (by rw [State.handle, wtStep, hpc]; rfl)
  · refine hend.fair (Or.inr fun hen => hen ?_)
    exact (if_pos hbug).trans (by rw [State.handle, hwFence, hfence])
  · exact hend.fair (Or.inl rfl)

instance (s : State) : Decidable (InService s) :=
  decidable_of_iff (s.shouldStop = false ∧ s.shouldPark = false ∧ s.intrEnable = true)
    ⟨fun h => ⟨h.1, h.2.1, h.2.2⟩, fun h => ⟨h.run, h.unpark, h.intr⟩⟩

/-- The write without commands is run and destroyed. -/
theorem tasks_destroyed_write :
    ∃ r : system.Run, Served r ∧ 0 < (r.state 0).nTask ∧ 0 ∉ (r.state 0).gone ∧
      ∃ j, 0 ≤ j ∧ ∀ i, j ≤ i → 0 ∈ (r.state i).gone ∧ ((r.state i).tasks 0).freed = true := by
  have hseen : seenBy Steady (openOne ++ writeCall 0 0 0 (fun _ => 0)) (fun s =>
      (s.nTask, s.gone, decide (InService s),
        ((system.guarded Steady).exec s (startEmpty ++ finishTask ++ workerSteps 3)).any
          fun u => decide u.Idle)) = some (1, [], true, true) := by
    decide +kernel
  obtain ⟨s, hr, hs⟩ := exists_seenBy hseen
  simp only [Prod.mk.injEq, decide_eq_true_eq, Option.any_eq_true] at hs
  obtain ⟨hn, hgone, hservice, u, hu, hidle⟩ := hs
  obtain ⟨r, rfl, hserved, -⟩ := exists_served hr hservice hu hidle
  have hlt : 0 < (r.state 0).nTask := by
    rw [hn]
    decide
  refine ⟨r, hserved, hlt, ?_, tasks_destroyed hserved hlt⟩
  rw [hgone]
  decide

end Dicedev
