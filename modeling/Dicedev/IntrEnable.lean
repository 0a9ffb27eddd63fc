import Dicedev.Step

/-!
# `INTR_ENABLE` is read by the interrupt handler only

The handlers of the system do not look at `INTR_ENABLE`, with the exception of `dicedev_isr`, of
the calls of the PCI core, and of `restart_device`, which is not reached as long as `dev->failed`
is not set. So they commute with a write of the register, `handle_masked`.
-/

namespace Dicedev

open State

variable {s s' : State} {l : Label}

namespace State

/-- The state with another value of `INTR_ENABLE`. -/
def masked (s : State) (b : Bool) : State := { s with intrEnable := b }

theorem map_ite_masked {p : Prop} [Decidable p] (b : Bool) (x y : Option State) :
    (if p then x else y).map (masked · b) = if p then x.map (masked · b) else y.map (masked · b) :=
  apply_ite ..

theorem ok_ite_masked {p : Prop} [Decidable p] (b : Bool) (x y : Except Bug State) :
    (if p then x else y).map (masked · b) = if p then x.map (masked · b) else y.map (masked · b) :=
  apply_ite ..

theorem orHalt_masked (b : Bool) (r : Except Bug State) :
    (s.masked b).orHalt (r.map (masked · b)) = (s.orHalt r).masked b := by
  cases r <;> rfl

theorem map_orHalt_masked (b : Bool) (r : Option (Except Bug State)) :
    (r.map fun e => e.map (masked · b)).map (s.masked b).orHalt =
      (r.map s.orHalt).map (masked · b) := by
  cases r with
  | none => rfl
  | some e => exact congrArg some (orHalt_masked b e)

theorem unbindIfBound_masked (b : Bool) (c : BufId) :
    (s.masked b).unbindIfBound c = (s.unbindIfBound c).map (masked · b) := by
  have hbufs : (s.masked b).bufs = s.bufs := rfl
  rw [unbindIfBound_eq, unbindIfBound_eq, unbound, unbound, hbufs]
  cases (s.bufs c).bindedSlot <;> rfl

theorem releaseBuffer_masked (b : Bool) (c : CtxId) :
    (s.masked b).releaseBuffer c = (s.releaseBuffer c).map fun e => e.map (masked · b) := by
  have hlist : ((s.masked b).ctxs c).allocatedBuffers = (s.ctxs c).allocatedBuffers := rfl
  simp only [releaseBuffer, hlist, apply_ite (Option.map fun e => Except.map (masked · b) e)]
  refine if_congr Iff.rfl ?_ rfl
  cases (s.ctxs c).allocatedBuffers with
  | nil => rfl
  | cons a rest =>
    simp only [releaseOne, unbindIfBound_masked]
    cases s.unbindIfBound a <;> rfl

theorem bufferRelease_masked (b : Bool) (c : BufId) :
    (s.masked b).dicedevBufferRelease c =
      (s.dicedevBufferRelease c).map fun e => e.map (masked · b) := by
  simp only [dicedevBufferRelease, bufferDestroy, unbindIfBound_masked,
    apply_ite (Option.map fun e => Except.map (masked · b) e)]
  refine if_congr Iff.rfl ?_ rfl
  cases s.unbindIfBound c <;> rfl

theorem wtTaskGetNext_masked (b : Bool) :
    (s.masked b).wtTaskGetNext = s.wtTaskGetNext.map (masked · b) := by
  have hqueue : (s.masked b).pendingTasks = s.pendingTasks := rfl
  simp only [wtTaskGetNext, hqueue]
  cases s.pendingTasks with
  | nil => rfl
  | cons t rest =>
    dsimp only
    rw [ok_ite_masked]
    rfl

theorem bindSlot_masked (b : Bool) (c : BufId) (i : Option Slot) :
    (s.masked b).bindSlot c i = (s.bindSlot c i).map (masked · b) := by
  cases i with
  | none => rfl
  | some i =>
    rw [bindSlot, bindSlot, ok_ite_masked]
    rfl

theorem wtTaskBindSlot_masked (b : Bool) :
    (s.masked b).wtTaskBindSlot = s.wtTaskBindSlot.map (masked · b) := by
  have hnext : (s.masked b).nextTask = s.nextTask := rfl
  have hslot : (s.masked b).getSlot = s.getSlot := rfl
  have htasks : (s.masked b).tasks = s.tasks := rfl
  simp only [wtTaskBindSlot, hnext, hslot, htasks, bindSlot_masked]
  cases s.nextTask with
  | none => rfl
  | some t =>
    dsimp only
    cases s.bindSlot (s.tasks t).buffOut s.getSlot <;> rfl

theorem wtTaskRun_masked (b : Bool) :
    (s.masked b).wtTaskRun = s.wtTaskRun.map (masked · b) := by
  have hnext : (s.masked b).nextTask = s.nextTask := rfl
  simp only [wtTaskRun, hnext]
  cases s.nextTask with
  | none => rfl
  | some t =>
    dsimp only
    rw [ok_ite_masked]
    rfl

theorem wtRunTask_masked (b : Bool) (left : Nat) :
    (s.masked b).wtRunTask left = (s.wtRunTask left).map (masked · b) := by
  have hrunning : (s.masked b).runningTask = s.runningTask := rfl
  simp only [wtRunTask, hrunning]
  cases s.runningTask with
  | none => rfl
  | some t =>
    have hbufs : (s.masked b).bufs = s.bufs := rfl
    have htasks : (s.masked b).tasks = s.tasks := rfl
    simp only [hbufs, htasks, ok_ite_masked]
    refine if_congr Iff.rfl rfl ?_
    cases runTaskPass (fun b => (s.bufs b).page) (s.bufs (s.tasks t).buffOut).allowed
        (s.bufs (s.tasks t).buffOut).bindedSlot (s.tasks t) left with
    | error e => rfl
    | ok r =>
      obtain ⟨task, pass⟩ := r
      cases pass <;> rfl

theorem wtFence_masked (b : Bool) : (s.masked b).wtFence = s.wtFence.map (masked · b) := by
  have hrunning : (s.masked b).runningTask = s.runningTask := rfl
  simp only [wtFence, hrunning]
  cases s.runningTask <;> rfl

theorem wtHandle_masked (b : Bool) (e : WtEvent) :
    (s.masked b).wtHandle e = (s.wtHandle e).map (masked · b) := by
  cases e with
  | noEvent | stop | park => rfl
  | taskGetNext => exact wtTaskGetNext_masked b
  | taskBindSlot => exact wtTaskBindSlot_masked b
  | taskRun => exact wtTaskRun_masked b
  | taskFinish =>
    have hrunning : (s.masked b).runningTask = s.runningTask := rfl
    simp only [wtHandle, hrunning]
    cases s.runningTask <;> rfl

theorem taskDestroyUnbind_masked (b : Bool) (t : TaskId) :
    (s.masked b).taskDestroyUnbind t = (s.taskDestroyUnbind t).map (masked · b) := by
  simp only [taskDestroyUnbind, unbindIfBound_masked, ok_ite_masked]
  rfl

/-- A worker that does not restart the device does not see the register. -/
theorem wtStep_masked (b : Bool) (hfailed : s.devFailed = false) :
    (s.masked b).wtStep = s.wtStep.map fun e => e.map (masked · b) := by
  have hpc : (s.masked b).pc = s.pc := rfl
  simp only [wtStep, hpc]
  cases s.pc with
  | head | polled | asleep | account | shutdown | hung | exited => rfl
  | event e => exact congrArg some (wtHandle_masked b e)
  | parked =>
    have hpark : (s.masked b).shouldPark = s.shouldPark := rfl
    simp only [hpark]
    split <;> rfl
  | running left => exact congrArg some (wtRunTask_masked b left)
  | fencing => exact congrArg some (wtFence_masked b)
  | destroy t c =>
    simp only [taskDestroyUnbind_masked]
    cases s.taskDestroyUnbind t <;> rfl
  | finishing =>
    have hfailed' : (s.masked b).devFailed = false := hfailed
    simp only [wtTaskFinish, hfailed, hfailed']
    rfl

end State

/-- The calls of the PCI core. -/
def Label.isPm : Label → Bool
  | .suspend | .resume | .remove => true
  | _ => false

/-- The steps that read or write `INTR_ENABLE`. -/
def Label.seesIntr : Label → Bool
  | .isr => true
  | l => l.isPm

/-- The other steps do not see the register. -/
theorem handle_masked (b : Bool) (hfailed : s.devFailed = false) (hl : l.seesIntr = false) :
    (s.masked b).handle l = (s.handle l).map (masked · b) := by
  have hcalls : (s.masked b).calls = s.calls := rfl
  cases l with
  | openCtx addr =>
    simp only [State.handle, dicedevOpen, map_ite_masked]
    rfl
  | createSet c size allowed dma =>
    simp only [State.handle, dicedevIoctlCreateSet, map_ite_masked]
    rfl
  | run c cb db addr size shared alloc =>
    simp only [State.handle, dicedevIoctlRun, map_ite_masked]
    cases shared <;> rfl
  | runCount k =>
    simp only [State.handle, ioctlRunCount, hcalls]
    split
    · rw [map_ite_masked]
      rfl
    · rfl
  | runQueue k =>
    simp only [State.handle, ioctlRunQueue, hcalls]
    split
    · rw [map_ite_masked]
      rfl
    · rfl
  | wait c cnt =>
    simp only [State.handle, dicedevIoctlWait, map_ite_masked]
    rfl
  | waitLeave k =>
    simp only [State.handle, ioctlWaitLeave, hcalls]
    split
    · rw [map_ite_masked]
      rfl
    · rfl
  | waitReturn k =>
    simp only [State.handle, ioctlWaitReturn, hcalls]
    split <;> rfl
  | releaseMark c =>
    simp only [State.handle, State.releaseMark, map_ite_masked]
    rfl
  | releaseWait c =>
    simp only [State.handle, State.releaseWait, map_ite_masked]
    rfl
  | releaseBuffer c =>
    simp only [State.handle, releaseBuffer_masked, map_orHalt_masked]
  | releaseFree c =>
    simp only [State.handle, State.releaseFree, map_ite_masked]
    rfl
  | write b count =>
    simp only [State.handle, dicedevBufferWrite, map_ite_masked]
    rfl
  | writeFail k =>
    simp only [State.handle, bufferWriteFail, hcalls]
    split
    · rw [map_ite_masked]
      rfl
    · rfl
  | writeQueue k cmd =>
    simp only [State.handle, bufferWriteQueue, hcalls]
    split
    · rw [map_ite_masked]
      rfl
    · rfl
  | read b =>
    simp only [State.handle, dicedevBufferRead, map_ite_masked]
    rfl
  | seed b seed =>
    simp only [State.handle, dicedevBufferIoctl, map_ite_masked]
    rfl
  | dup b =>
    simp only [State.handle, bufferDup, map_ite_masked]
    rfl
  | close b =>
    simp only [State.handle, bufferClose, map_ite_masked]
    rfl
  | bufferRelease c =>
    simp only [State.handle, bufferRelease_masked, map_orHalt_masked]
  | store b i j w => rfl
  | fenceInterrupt =>
    have hfence : (s.masked b).fences[(s.masked b).signalled]? = s.fences[s.signalled]? := rfl
    simp only [State.handle, hwFence, hfence]
    split <;> rfl
  | errorInterrupt i mem =>
    have htask : (s.masked b).stream[i]?.bind Fed.task? = s.stream[i]?.bind Fed.task? := rfl
    simp only [State.handle, hwError, htask]
    split
    · rfl
    · rw [map_ite_masked]
      rfl
  | slotError => rfl
  | worker => simp only [State.handle, wtStep_masked b hfailed, map_orHalt_masked]
  | isr | suspend | resume | remove => cases hl

end Dicedev
