import Dicedev.Lib.Machine
import Dicedev.BufferFile

/-!
# The system

The driver with its worker, its users and its device, as one machine. The device is not
part of the repository; what the driver may rely on is that `FENCE_WAIT` is raised once
for each fence command, in the order of the stream, and that `CMD_ERROR` and `MEM_ERROR`
are raised for `GET_DIE` and `NEW_SET` commands only and not after the interrupt of the
next fence.
-/

namespace Dicedev

namespace State

/-- The tasks whose fences have been fed, oldest first. -/
def fences (s : State) : List TaskId := s.stream.filterMap Fed.fence?

/-- The device processes the next fence and raises `FENCE_WAIT`. -/
def hwFence (s : State) : Option State :=
  match s.fences[s.signalled]? with
  | none => none
  | some t =>
    some ({ s with
        signalled := s.signalled + 1
        intr := { s.intr with fenceWait := true } }.log (.fenceReached t))

/-- The number of fences in front of the command at position `i` of the stream. -/
def fencesBefore (s : State) (i : Nat) : Nat :=
  ((s.stream.take i).filterMap Fed.fence?).length

/-- The device raises `CMD_ERROR` or `MEM_ERROR` for the command at position `i`, whose
next fence has not been signalled. -/
def hwError (s : State) (i : Nat) (mem : Bool) : Option State :=
  match s.stream[i]?.bind Fed.task? with
  | none => none
  | some t =>
    if s.signalled ≤ s.fencesBefore i then
      some ({ s with
          intr := if mem then { s.intr with memError := true }
            else { s.intr with cmdError := true } }.log (.deviceError t))
    else none

/-- The device raises `SLOT_ERROR`, which the driver ignores. -/
def hwSlotError (s : State) : State := { s with intr := { s.intr with slotError := true } }

end State

/-- The steps of the system. -/
inductive Label
  | openCtx (addr : Nat)
  | createSet (c : CtxId) (size : Nat) (allowed dma : BitVec 64)
  | run (c : CtxId) (cBuff dBuff : BufId) (addr size : Word) (shared alloc : Bool)
  | runCount (k : CallId)
  | runQueue (k : CallId)
  | wait (c : CtxId) (cnt : Word)
  | waitLeave (k : CallId)
  | waitReturn (k : CallId)
  | releaseMark (c : CtxId)
  | releaseWait (c : CtxId)
  | releaseBuffer (c : CtxId)
  | releaseFree (c : CtxId)
  | write (b : BufId) (count : Nat)
  | writeFail (k : CallId)
  | writeQueue (k : CallId) (cmd : Nat → Word)
  | read (b : BufId)
  | seed (b : BufId) (seed : Word)
  | dup (b : BufId)
  | close (b : BufId)
  | bufferRelease (b : BufId)
  | store (b : BufId) (i j : Nat) (w : Word)
  | isr
  | fenceInterrupt
  | errorInterrupt (i : Nat) (mem : Bool)
  | slotError
  | suspend
  | resume
  | remove
  | worker

/-- The steps that begin with `spin_lock_irqsave(&dev->slock)`, and those of the worker. -/
def Label.slocked : Label → Bool
  | .runCount _ | .runQueue _ | .releaseMark _ | .releaseBuffer _ | .write _ _ | .writeFail _
  | .writeQueue _ _ | .read _ | .bufferRelease _ | .isr | .worker => true
  | _ => false

/-- The handler of a label. -/
def State.handle (s : State) : Label → Option State
  | .openCtx addr => s.dicedevOpen addr
  | .createSet c size allowed dma => s.dicedevIoctlCreateSet c size allowed dma
  | .run c cb db addr size shared alloc => s.dicedevIoctlRun c cb db addr size shared alloc
  | .runCount k => s.ioctlRunCount k
  | .runQueue k => s.ioctlRunQueue k
  | .wait c cnt => s.dicedevIoctlWait c cnt
  | .waitLeave k => s.ioctlWaitLeave k
  | .waitReturn k => s.ioctlWaitReturn k
  | .releaseMark c => s.releaseMark c
  | .releaseWait c => s.releaseWait c
  | .releaseBuffer c => (s.releaseBuffer c).map s.orHalt
  | .releaseFree c => s.releaseFree c
  | .write b count => s.dicedevBufferWrite b count
  | .writeFail k => s.bufferWriteFail k
  | .writeQueue k cmd => s.bufferWriteQueue k cmd
  | .read b => s.dicedevBufferRead b
  | .seed b seed => s.dicedevBufferIoctl b seed
  | .dup b => s.bufferDup b
  | .close b => s.bufferClose b
  | .bufferRelease b => (s.dicedevBufferRelease b).map s.orHalt
  | .store b i j w => some (s.storeWord b i j w)
  | .isr => s.dicedevIsr.map s.orHalt
  | .fenceInterrupt => s.hwFence
  | .errorInterrupt i mem => s.hwError i mem
  | .slotError => some s.hwSlotError
  | .suspend => some s.dicedevSuspend
  | .resume => some s.dicedevResume
  | .remove => some s.dicedevRemove
  | .worker => s.wtStep.map s.orHalt

/-- A step of the system; after a `BUG` there is none. -/
def State.step (s : State) (l : Label) : Option State :=
  if s.bug = none then s.handle l else none

/-- The driver after `dicedev_probe`. -/
def system : Machine State Label := ⟨State.probed, State.step⟩

/-- States reachable after `dicedev_probe`. -/
abbrev Reachable (s : State) : Prop := system.Reachable s

/-! ## Runs -/

/-- The state after the run `ls`, seen through `f`. -/
def seenAfter {α : Type} (ls : List Label) (f : State → α) : Option α :=
  (system.exec State.probed ls).map f

theorem exists_seenAfter {α : Type} {ls : List Label} {f : State → α} {a : α}
    (h : seenAfter ls f = some a) :
    ∃ s, system.exec State.probed ls = some s ∧ Reachable s ∧ f s = a := by
  unfold seenAfter at h
  obtain ⟨s, hs, ha⟩ := Option.map_eq_some_iff.mp h
  exact ⟨s, hs, Machine.Reachable.exec (m := system) .init hs, ha⟩

/-- The state after the run `ls`, whose steps all meet `C`, seen through `f`. -/
def seenBy {α : Type} (C : State → Label → Prop) [∀ s l, Decidable (C s l)] (ls : List Label)
    (f : State → α) : Option α :=
  ((system.guarded C).exec State.probed ls).map f

theorem exists_seenBy {α : Type} {C : State → Label → Prop} [∀ s l, Decidable (C s l)]
    {ls : List Label} {f : State → α} {a : α} (h : seenBy C ls f = some a) :
    ∃ s, system.ReachableBy C s ∧ f s = a := by
  unfold seenBy at h
  obtain ⟨s, hs, ha⟩ := Option.map_eq_some_iff.mp h
  exact ⟨s, Machine.ReachableBy.of_guarded (m := system) .init hs, ha⟩

/-- A context with one buffer. -/
def openOne : List Label := [.openCtx 7, .createSet 0 4096 0x20 0x1000]

/-- The worker takes `n` steps. -/
def workerSteps (n : Nat) : List Label := List.replicate n .worker

/-- The user of buffer `b` writes `count` bytes, in the call `k`. -/
def writeCall (b : BufId) (k : CallId) (count : Nat) (cmd : Nat → Word) : List Label :=
  [.write b count, .writeQueue k cmd]

/-- The worker fetches a task without commands, binds its buffer and runs it. -/
def startEmpty : List Label := workerSteps 11

/-- The fence of the running task is reached and the task is destroyed. -/
def finishTask : List Label := [.fenceInterrupt, .isr] ++ workerSteps 5

/-- The first context, numbered 0, gets `n` buffers, and an empty write to each of them is
run. Every one keeps its slot. -/
def fillSlots (n : Nat) : List Label :=
  .openCtx 7 :: (List.range n).flatMap fun i =>
    .createSet 0 4096 0x20 0x1000 :: writeCall i i 0 (fun _ => 0) ++ startEmpty ++ finishTask

end Dicedev
