import Dicedev.System

/-!
# What a step can do

`Step s l s'` lists the outcomes of every label with the tests that lead to them.
`Step.of_step` proves that a step of the system is one of them, and the invariants are
proved over `Step`, so no other module takes a handler apart.
-/

namespace Dicedev

namespace State

/-- The guarded unbinding of a buffer, as a function: the `BUG_ON` of `unbind_slot` is
behind the test. -/
def unbound (s : State) (b : BufId) : State :=
  match (s.bufs b).bindedSlot with
  | none => s
  | some i => s.unbindFrom b i

theorem unbindIfBound_eq (s : State) (b : BufId) : s.unbindIfBound b = .ok (s.unbound b) := by
  unfold unbindIfBound unbindSlot unbound
  cases (s.bufs b).bindedSlot with
  | none => rfl
  | some i => rfl

theorem releaseOne_eq (s : State) (c : CtxId) (b : BufId) (rest : List BufId) :
    s.releaseOne c b rest =
      .ok { s with
        freeSlots := (s.unbound b).freeSlots
        buffSlots := (s.unbound b).buffSlots
        bufs := Function.update (s.unbound b).bufs b
          { (s.unbound b).bufs b with ctxRef := false }
        ctxs := Function.update s.ctxs c { s.ctxs c with allocatedBuffers := rest }
        trace := (s.unbound b).trace ++ [.closed b] } := by
  rw [releaseOne, unbindIfBound_eq]
  unfold unbound
  cases (s.bufs b).bindedSlot with
  | none => rfl
  | some i => rfl

theorem bufferDestroy_eq (s : State) (b : BufId) :
    s.bufferDestroy b =
      .ok { s with
        freeSlots := (s.unbound b).freeSlots
        buffSlots := (s.unbound b).buffSlots
        bufs := Function.update (s.unbound b).bufs b { (s.unbound b).bufs b with freed := true }
        trace := (s.unbound b).trace } := by
  rw [bufferDestroy, unbindIfBound_eq]
  unfold unbound
  cases (s.bufs b).bindedSlot with
  | none => rfl
  | some i => rfl

theorem taskDestroyUnbind_eq (s : State) (t : TaskId) (c : Caller)
    (h : ((s.tasks t).isRun || (s.ctxs (s.tasks t).ctx).failed) = true) :
    (do
      let s ← s.taskDestroyUnbind t
      .ok { s with pc := .account t c } : Except Bug State) =
      .ok { s with
        freeSlots := (s.unbound (s.tasks t).buffOut).freeSlots
        buffSlots := (s.unbound (s.tasks t).buffOut).buffSlots
        bufs := (s.unbound (s.tasks t).buffOut).bufs
        trace := (s.unbound (s.tasks t).buffOut).trace
        pc := .account t c } := by
  rw [taskDestroyUnbind, if_pos h, unbindIfBound_eq]
  unfold unbound
  cases (s.bufs (s.tasks t).buffOut).bindedSlot with
  | none => rfl
  | some i => rfl

/-- The place of the worker after a wake-up. -/
def wokenPc (s : State) : WtPc := if s.pc = .asleep then .event .noEvent else s.pc

/-- A wake-up only moves a sleeping worker. -/
theorem pc_of_woken {s : State} {pc : WtPc} (h : s.wokenPc = pc) (hpc : pc ≠ .event .noEvent) :
    s.pc = pc := by
  unfold wokenPc at h
  split at h
  · exact absurd h.symm hpc
  · exact h

/-- Where the worker can be after the first part of `__wt_get_event`. -/
theorem wtPoll_cases (s : State) :
    s.wtPoll = .shutdown ∨ s.wtPoll = .polled ∨ s.wtPoll = .event .stop ∨
      s.wtPoll = .event .park ∨ (s.wtPoll = .event .taskFinish ∧ s.fenceState = .reached) := by
  unfold wtPoll wtGetEventFence
  by_cases hstop : s.shouldStop
  · simp [hstop]
  · by_cases hpark : s.shouldPark
    · simp [hstop, hpark]
    · by_cases hf : s.fenceState = .reached
      · simp [hstop, hpark, hf]
      · simp [hstop, hpark, hf]

theorem wtShutdown_cases (s : State) : s.wtShutdown = .exited ∨ s.wtShutdown = .hung := by
  unfold wtShutdown
  split
  · exact Or.inl rfl
  · exact Or.inr rfl

/-- The buffers after the two `fdget`s of `dicedev_ioctl_run`. -/
def leakBufs (s : State) (cb db : BufId) (shared : Bool) : BufId → Buffer :=
  ((s.leakRef cb shared).leakRef db shared).bufs

theorem leakRef_eq (s : State) (cb db : BufId) (shared : Bool) :
    (s.leakRef cb shared).leakRef db shared = { s with bufs := s.leakBufs cb db shared } := by
  cases shared <;> rfl

theorem wtTaskFinish_eq (s : State) :
    s.wtTaskFinish =
      { s with
        devFailed := false
        intr := if s.devFailed then Intr.clear else s.intr
        intrEnable := if s.devFailed then true else s.intrEnable
        fenceState := .none
        runningTask := none
        pc := .head } := by
  unfold wtTaskFinish
  cases hdev : s.devFailed with
  | true => rfl
  | false => simp [hdev]

/-- The pass that the loop of `__wt_run_task` makes over task `t`. -/
def passOf (s : State) (t : TaskId) (left : Nat) : Except Bug (Task × Pass) :=
  runTaskPass (fun b => (s.bufs b).page) (s.bufs (s.tasks t).buffOut).allowed
    (s.bufs (s.tasks t).buffOut).bindedSlot (s.tasks t) left

/-- The contexts after the error branch of the interrupt handler. -/
def isrCtxs (s : State) : CtxId → Context :=
  match s.runningTask with
  | none => s.ctxs
  | some t =>
    if s.intr.cmdError ∨ s.intr.memError then (s.ctxFail (s.tasks t).ctx).ctxs else s.ctxs

/-- The call `k` has queued `task` and is over. -/
def queued (s : State) (k : CallId) (task : Task) : State :=
  { s with
    calls := Function.update s.calls k none
    tasks := Function.update s.tasks s.nTask task
    nTask := s.nTask + 1
    pendingTasks := s.pendingTasks ++ [s.nTask]
    pc := s.wokenPc
    trace := s.trace ++ [.queued s.nTask] }

end State

open State

/-- The outcomes of a step. The states are written field by field, so that a property of
the other fields carries over as it is. -/
inductive Step (s : State) : Label → State → Prop
  | openCtx (addr : Nat)
      (hfree : ∀ c < s.nCtx, (s.ctxs c).phase ≠ .freed → (s.ctxs c).addr ≠ addr) :
      Step s (.openCtx addr)
        { s with
          ctxs := Function.update s.ctxs s.nCtx ⟨addr, false, 0, [], .opened⟩
          nCtx := s.nCtx + 1 }
  | createSetRefused (c : CtxId) (size : Nat) (allowed dma : BitVec 64) :
      Step s (.createSet c size allowed dma) s
  | createSet (c : CtxId) (size : Nat) (allowed dma : BitVec 64)
      (hopen : (s.ctxs c).phase = .opened) :
      Step s (.createSet c size allowed dma)
        { s with
          bufs := Function.update s.bufs s.nBuf (newBuffer c size allowed dma)
          nBuf := s.nBuf + 1
          ctxs := Function.update s.ctxs c
            { s.ctxs c with allocatedBuffers := s.nBuf :: (s.ctxs c).allocatedBuffers } }
  | runRefused (c : CtxId) (cb db : BufId) (addr size : Word) (shared alloc leak : Bool) :
      Step s (.run c cb db addr size shared alloc) { s with bufs := s.leakBufs cb db leak }
  | run (c : CtxId) (cb db : BufId) (addr size : Word) (shared alloc : Bool)
      (hopen : (s.ctxs c).phase = .opened) (hcb : 0 < (s.bufs cb).fdRefs)
      (hdb : 0 < (s.bufs db).fdRefs)
      (hcheck : s.ioctlRunCheck c cb db addr.toNat size.toNat = none) :
      Step s (.run c cb db addr size shared alloc)
        { s with
          bufs := s.leakBufs cb db shared
          calls := Function.update s.calls s.nCall
            (some (.run c cb db addr.toNat size.toNat false))
          nCall := s.nCall + 1 }
  | runCount (k : CallId) (c : CtxId) (cb db : BufId) (addr size : Nat)
      (hcall : s.calls k = some (.run c cb db addr size false)) :
      Step s (.runCount k)
        { s with
          ctxs := Function.update s.ctxs c
            { s.ctxs c with taskCount := (s.ctxs c).taskCount + 1 }
          calls := Function.update s.calls k (some (.run c cb db addr size true)) }
  | runQueue (k : CallId) (c : CtxId) (cb db : BufId) (addr size : Nat)
      (hcall : s.calls k = some (.run c cb db addr size true)) :
      Step s (.runQueue k) (s.queued k ⟨c, 0, db, .run ⟨cb, addr, size, 0, 0, 0, 0⟩, false⟩)
  | wait (c : CtxId) (cnt : Word) (hopen : (s.ctxs c).phase = .opened) :
      Step s (.wait c cnt)
        { s with
          calls := Function.update s.calls s.nCall (some (.wait c cnt.toNat false))
          nCall := s.nCall + 1 }
  | waitLeave (k : CallId) (c : CtxId) (cnt : Nat)
      (hcall : s.calls k = some (.wait c cnt false)) (hle : (s.ctxs c).taskCount ≤ cnt) :
      Step s (.waitLeave k)
        { s with calls := Function.update s.calls k (some (.wait c cnt true)) }
  | waitReturn (k : CallId) (c : CtxId) (cnt : Nat)
      (hcall : s.calls k = some (.wait c cnt true)) :
      Step s (.waitReturn k)
        { s with
          calls := Function.update s.calls k none
          trace := s.trace ++ [.waitReturned k (s.ioctlWaitResult c)] }
  | releaseMark (c : CtxId) (hopen : (s.ctxs c).phase = .opened)
      (hcalls : ∀ k < s.nCall, ∀ call ∈ s.calls k, call.ioctlOf c = false) :
      Step s (.releaseMark c)
        { s with
          bufs := fun b =>
            if b ∈ (s.ctxs c).allocatedBuffers then { s.bufs b with destroyed := true }
            else s.bufs b
          ctxs := Function.update s.ctxs c { s.ctxs c with phase := .waiting } }
  | releaseWait (c : CtxId) (hwait : (s.ctxs c).phase = .waiting)
      (hzero : (s.ctxs c).taskCount = 0) :
      Step s (.releaseWait c)
        { s with ctxs := Function.update s.ctxs c { s.ctxs c with phase := .closing } }
  | releaseBuffer (c : CtxId) (b : BufId) (rest : List BufId)
      (hclosing : (s.ctxs c).phase = .closing)
      (hlist : (s.ctxs c).allocatedBuffers = b :: rest) :
      Step s (.releaseBuffer c)
        { s with
          freeSlots := (s.unbound b).freeSlots
          buffSlots := (s.unbound b).buffSlots
          bufs := Function.update (s.unbound b).bufs b
            { (s.unbound b).bufs b with ctxRef := false }
          ctxs := Function.update s.ctxs c { s.ctxs c with allocatedBuffers := rest }
          trace := (s.unbound b).trace ++ [.closed b] }
  | releaseFree (c : CtxId) (hclosing : (s.ctxs c).phase = .closing)
      (hlist : (s.ctxs c).allocatedBuffers = []) :
      Step s (.releaseFree c)
        { s with ctxs := Function.update s.ctxs c { s.ctxs c with phase := .freed } }
  | writeRefused (b : BufId) (count : Nat) : Step s (.write b count) s
  | write (b : BufId) (count : Nat) (hfd : 0 < (s.bufs b).fdRefs)
      (halive : (s.bufs b).destroyed = false) :
      Step s (.write b count)
        { s with
          ctxs := Function.update s.ctxs (s.bufs b).ctx
            { s.ctxs (s.bufs b).ctx with taskCount := (s.ctxs (s.bufs b).ctx).taskCount + 1 }
          calls := Function.update s.calls s.nCall (some (.write b (s.bufs b).ctx count))
          nCall := s.nCall + 1 }
  | writeFail (k : CallId) (b : BufId) (c : CtxId) (count : Nat)
      (hcall : s.calls k = some (.write b c count)) :
      Step s (.writeFail k)
        { s with
          ctxs := Function.update s.ctxs c
            { s.ctxs c with taskCount := sizeDec (s.ctxs c).taskCount }
          calls := Function.update s.calls k none }
  | writeQueue (k : CallId) (cmd : Nat → Word) (b : BufId) (c : CtxId) (count : Nat)
      (hcall : s.calls k = some (.write b c count)) :
      Step s (.writeQueue k cmd) (s.queued k ⟨c, 0, b, .write ⟨cmd, count, 0⟩, false⟩)
  | readNone (b : BufId) : Step s (.read b) s
  | read (b : BufId) :
      Step s (.read b)
        { s with
          bufs := Function.update s.bufs b
            { s.bufs b with reader := ⟨(s.bufs b).reader.resultCount,
                (s.bufs b).reader.offset + 1⟩ } }
  | seed (b : BufId) (seed : Word) :
      Step s (.seed b seed)
        { s with
          bufs := Function.update s.bufs b
            { s.bufs b with seedChg := true, seed := seed.setWidth 64 } }
  | dup (b : BufId) (hfd : 0 < (s.bufs b).fdRefs) :
      Step s (.dup b)
        { s with
          bufs := Function.update s.bufs b
            { s.bufs b with fdRefs := (s.bufs b).fdRefs + 1 } }
  | close (b : BufId) (hfd : 0 < (s.bufs b).fdRefs) :
      Step s (.close b)
        { s with
          bufs := Function.update s.bufs b
            { s.bufs b with fdRefs := (s.bufs b).fdRefs - 1 } }
  | bufferRelease (b : BufId) (hfreed : (s.bufs b).freed = false)
      (hfd : (s.bufs b).fdRefs = 0) (hctx : (s.bufs b).ctxRef = false)
      (hcalls : ∀ k < s.nCall, ∀ call ∈ s.calls k, call.uses b = false) :
      Step s (.bufferRelease b)
        { s with
          freeSlots := (s.unbound b).freeSlots
          buffSlots := (s.unbound b).buffSlots
          bufs := Function.update (s.unbound b).bufs b
            { (s.unbound b).bufs b with freed := true }
          trace := (s.unbound b).trace }
  | store (b : BufId) (i j : Nat) (w : Word) :
      Step s (.store b i j w)
        { s with
          bufs := Function.update s.bufs b
            { s.bufs b with
              page := Function.update (s.bufs b).page i
                (Function.update ((s.bufs b).page i) j w) } }
  | isrOff : Step s .isr s
  | isr (hen : s.intrEnable = true) (hfence : s.intr.fenceWait = false)
      (htask : s.intr.cmdError ∨ s.intr.memError → s.runningTask ≠ none) :
      Step s .isr { s with intr := Intr.clear, ctxs := s.isrCtxs }
  | isrFence (t : TaskId) (hen : s.intrEnable = true) (hfence : s.intr.fenceWait = true)
      (htask : s.runningTask = some t) :
      Step s .isr
        { s with
          intr := Intr.clear
          ctxs := s.isrCtxs
          fenceState := .reached
          pc := s.wokenPc }
  | fenceInterrupt (t : TaskId) (hfence : s.fences[s.signalled]? = some t) :
      Step s .fenceInterrupt
        { s with
          signalled := s.signalled + 1
          intr := { s.intr with fenceWait := true }
          trace := s.trace ++ [.fenceReached t] }
  | errorInterrupt (i : Nat) (mem : Bool) (t : TaskId)
      (hcmd : s.stream[i]?.bind Fed.task? = some t) (hfence : s.signalled ≤ s.fencesBefore i) :
      Step s (.errorInterrupt i mem)
        { s with
          intr := if mem then { s.intr with memError := true }
            else { s.intr with cmdError := true }
          trace := s.trace ++ [.deviceError t] }
  | slotError : Step s .slotError { s with intr := { s.intr with slotError := true } }
  | suspend :
      Step s .suspend { s with intrEnable := false, shouldPark := true, pc := s.wokenPc }
  | resume : Step s .resume { s with shouldPark := false, intrEnable := true }
  | remove :
      Step s .remove
        { s with intrEnable := false, shouldStop := true, shouldPark := false, pc := s.wokenPc }
  | head (hpc : s.pc = .head) : Step s .worker { s with pc := s.wtPoll }
  | polled (hpc : s.pc = .polled) : Step s .worker { s with pc := .event s.wtGetEventTask }
  | sleep (hpc : s.pc = .event .noEvent) (hev : s.wtGetEvent = .noEvent) :
      Step s .worker { s with pc := .asleep }
  | again (hpc : s.pc = .event .noEvent ∨ s.pc = .event .stop ∨ s.pc = .parked) :
      Step s .worker { s with pc := .head }
  | park (hpc : s.pc = .event .park) : Step s .worker { s with pc := .parked }
  | drop (t : TaskId) (rest : List TaskId) (hpc : s.pc = .event .taskGetNext)
      (hpend : s.pendingTasks = t :: rest) (hfail : (s.ctxs (s.tasks t).ctx).failed = true) :
      Step s .worker { s with pendingTasks := rest, pc := .destroy t .drop }
  | getNext (t : TaskId) (rest : List TaskId) (hpc : s.pc = .event .taskGetNext)
      (hpend : s.pendingTasks = t :: rest) (hfail : (s.ctxs (s.tasks t).ctx).failed = false) :
      Step s .worker { s with pendingTasks := rest, nextTask := some t, pc := .head }
  | bindSlot (t : TaskId) (b : BufId) (i : Slot) (hpc : s.pc = .event .taskBindSlot)
      (hnext : s.nextTask = some t) (hout : (s.tasks t).buffOut = b)
      (hslot : s.getSlot = some i) (hempty : s.buffSlots i = none) :
      Step s .worker
        { s with
          freeSlots := sizeDec s.freeSlots
          buffSlots := Function.update s.buffSlots i (some b)
          bufs := Function.update s.bufs b
            { s.bufs b with bindedSlot := some i, usageCount := 1, reader := ⟨0, 0⟩ }
          pc := .head
          trace := s.trace ++ [.feed ⟨bindCmd i (s.bufs b), .bind b⟩] }
  | taskRun (t : TaskId) (hpc : s.pc = .event .taskRun) (hnext : s.nextTask = some t)
      (hbound : (s.bufs (s.tasks t).buffOut).bindedSlot ≠ none) :
      Step s .worker
        { s with
          fenceState := .waiting
          runningTask := some t
          tasks := Function.update s.tasks t (taskInitIt (s.tasks t))
          pc := .running (taskBytes (s.tasks t))
          trace := s.trace ++ [.started t] }
  | taskFinish (t : TaskId) (hpc : s.pc = .event .taskFinish) (hrun : s.runningTask = some t) :
      Step s .worker { s with pc := .destroy t .finish }
  | runDone (t : TaskId) (hpc : s.pc = .running 0) (hrun : s.runningTask = some t) :
      Step s .worker { s with nextTask := none, pc := .fencing }
  | runSkip (t : TaskId) (left : Nat) (task : Task) (left' : Nat) (hpc : s.pc = .running left)
      (hrun : s.runningTask = some t) (hpass : s.passOf t left = .ok (task, .skip left')) :
      Step s .worker
        { s with tasks := Function.update s.tasks t task, pc := .running left' }
  | runFeed (t : TaskId) (left : Nat) (task : Task) (words : List Word) (user : Word)
      (left' : Nat) (hpc : s.pc = .running left) (hrun : s.runningTask = some t)
      (hpass : s.passOf t left = .ok (task, .fed words user left')) :
      Step s .worker
        { s with
          tasks := Function.update s.tasks t task
          pc := .running left'
          trace := s.trace ++
            [.feed ⟨words, .task t user (s.bufs task.buffOut).bindedSlot⟩] }
  | runReject (t : TaskId) (left : Nat) (task : Task) (hpc : s.pc = .running left)
      (hrun : s.runningTask = some t) (hpass : s.passOf t left = .ok (task, .reject)) :
      Step s .worker
        { s with
          tasks := Function.update s.tasks t task
          ctxs := Function.update s.ctxs task.ctx { s.ctxs task.ctx with failed := true }
          nextTask := none
          pc := .fencing
          trace := s.trace ++ [.rejected t] }
  | fence (t : TaskId) (hpc : s.pc = .fencing) (hrun : s.runningTask = some t) :
      Step s .worker
        { s with
          pc := .head
          trace := s.trace ++ [.feed ⟨[userCmdFenceHeader taskFenceVal], .fence t⟩] }
  | destroyUnbind (t : TaskId) (c : Caller) (b : BufId) (hpc : s.pc = .destroy t c)
      (hout : (s.tasks t).buffOut = b)
      (hwhy : (s.tasks t).isRun = true ∨ (s.ctxs (s.tasks t).ctx).failed = true) :
      Step s .worker
        { s with
          freeSlots := (s.unbound b).freeSlots
          buffSlots := (s.unbound b).buffSlots
          bufs := (s.unbound b).bufs
          trace := (s.unbound b).trace
          pc := .account t c }
  | destroyKeep (t : TaskId) (c : Caller) (hpc : s.pc = .destroy t c)
      (hwrite : (s.tasks t).isRun = false) (hfail : (s.ctxs (s.tasks t).ctx).failed = false) :
      Step s .worker { s with pc := .account t c }
  | account (t : TaskId) (caller : Caller) (c : CtxId) (b : BufId)
      (hpc : s.pc = .account t caller) (hctx : (s.tasks t).ctx = c)
      (hout : (s.tasks t).buffOut = b) :
      Step s .worker
        { s with
          ctxs := Function.update s.ctxs c
            { s.ctxs c with taskCount := sizeDec (s.ctxs c).taskCount }
          bufs := Function.update s.bufs b
            { s.bufs b with reader := ⟨(s.bufs b).reader.resultCount + (s.tasks t).resultCount,
                (s.bufs b).reader.offset⟩ }
          tasks := Function.update s.tasks t { s.tasks t with freed := true }
          pc := destroyReturn caller
          trace := s.trace ++ [destroyEvent t caller] }
  | finishing (hpc : s.pc = .finishing) :
      Step s .worker
        { s with
          devFailed := false
          intr := if s.devFailed then Intr.clear else s.intr
          intrEnable := if s.devFailed then true else s.intrEnable
          fenceState := .none
          runningTask := none
          pc := .head }
  | shutdown (hpc : s.pc = .shutdown) : Step s .worker { s with pc := s.wtShutdown }
  | halt (l : Label) (b : Bug) (hl : l = .isr ∨ l = .worker) (hunbind : b ≠ .unbindSlot)
      (hslot : b = .noSlot ∨ b = .bindSlot → s.pc = .event .taskBindSlot ∧
        ∀ i, s.getSlot = some i → s.buffSlots i ≠ none) :
      Step s l { s with bug := some b }

namespace Step

variable {s s' : State}

theorem of_open {addr : Nat} (h : s.dicedevOpen addr = some s') : Step s (.openCtx addr) s' := by
  unfold dicedevOpen at h
  split at h
  · rename_i hfree
    cases h
    exact .openCtx addr hfree
  · cases h

theorem of_createSet {c : CtxId} {size : Nat} {allowed dma : BitVec 64}
    (h : s.dicedevIoctlCreateSet c size allowed dma = some s') :
    Step s (.createSet c size allowed dma) s' := by
  unfold dicedevIoctlCreateSet at h
  split at h
  · rename_i hopen
    split at h
    · cases h
      exact .createSetRefused c size allowed dma
    · cases h
      exact .createSet c size allowed dma hopen
  · cases h

theorem of_run {c : CtxId} {cb db : BufId} {addr size : Word} {shared alloc : Bool}
    (h : s.dicedevIoctlRun c cb db addr size shared alloc = some s') :
    Step s (.run c cb db addr size shared alloc) s' := by
  unfold dicedevIoctlRun at h
  split at h
  · rename_i hopen
    simp only [leakRef_eq] at h
    split at h
    · cases h
      exact .runRefused c cb db addr size shared alloc false
    · split at h
      · rename_i hcheck
        cases h
        exact .run c cb db addr size shared alloc hopen.1 hopen.2.1 hopen.2.2 hcheck.1
      · cases h
        exact .runRefused c cb db addr size shared alloc shared
  · cases h

theorem of_runCount {k : CallId} (h : s.ioctlRunCount k = some s') : Step s (.runCount k) s' := by
  unfold ioctlRunCount at h
  split at h
  · rename_i c cb db addr size hcall
    split at h
    · cases h
      exact .runCount k c cb db addr size hcall
    · cases h
  · cases h

theorem of_runQueue {k : CallId} (h : s.ioctlRunQueue k = some s') : Step s (.runQueue k) s' := by
  unfold ioctlRunQueue at h
  split at h
  · rename_i c cb db addr size hcall
    split at h
    · cases h
      exact .runQueue k c cb db addr size hcall
    · cases h
  · cases h

theorem of_wait {c : CtxId} {cnt : Word} (h : s.dicedevIoctlWait c cnt = some s') :
    Step s (.wait c cnt) s' := by
  unfold dicedevIoctlWait at h
  split at h
  · rename_i hopen
    cases h
    exact .wait c cnt hopen
  · cases h

theorem of_waitLeave {k : CallId} (h : s.ioctlWaitLeave k = some s') :
    Step s (.waitLeave k) s' := by
  unfold ioctlWaitLeave at h
  split at h
  · rename_i c cnt hcall
    split at h
    · rename_i hle
      cases h
      exact .waitLeave k c cnt hcall hle
    · cases h
  · cases h

theorem of_waitReturn {k : CallId} (h : s.ioctlWaitReturn k = some s') :
    Step s (.waitReturn k) s' := by
  unfold ioctlWaitReturn at h
  split at h
  · rename_i c cnt hcall
    cases h
    exact .waitReturn k c cnt hcall
  · cases h

theorem of_releaseMark {c : CtxId} (h : s.releaseMark c = some s') :
    Step s (.releaseMark c) s' := by
  unfold State.releaseMark at h
  split at h
  · rename_i hg
    cases h
    exact .releaseMark c hg.2.1 hg.2.2
  · cases h

theorem of_releaseWait {c : CtxId} (h : s.releaseWait c = some s') :
    Step s (.releaseWait c) s' := by
  unfold State.releaseWait at h
  split at h
  · rename_i hg
    cases h
    exact .releaseWait c hg.1 hg.2
  · cases h

theorem of_releaseBuffer {c : CtxId} (h : (s.releaseBuffer c).map s.orHalt = some s') :
    Step s (.releaseBuffer c) s' := by
  unfold State.releaseBuffer at h
  split at h
  · rename_i hg
    split at h
    · cases h
    · rename_i b rest hlist
      rw [releaseOne_eq] at h
      cases h
      exact .releaseBuffer c b rest hg.2 hlist
  · cases h

theorem of_releaseFree {c : CtxId} (h : s.releaseFree c = some s') :
    Step s (.releaseFree c) s' := by
  unfold State.releaseFree at h
  split at h
  · rename_i hg
    cases h
    exact .releaseFree c hg.1 hg.2
  · cases h

theorem of_write {b : BufId} {count : Nat} (h : s.dicedevBufferWrite b count = some s') :
    Step s (.write b count) s' := by
  unfold dicedevBufferWrite at h
  split at h
  · rename_i hfd
    split at h
    · cases h
      exact .writeRefused b count
    · split at h
      · split at h
        · cases h
          exact .writeRefused b count
        · rename_i halive
          cases h
          exact .write b count hfd (by simpa using halive)
      · cases h
  · cases h

theorem of_writeFail {k : CallId} (h : s.bufferWriteFail k = some s') :
    Step s (.writeFail k) s' := by
  unfold bufferWriteFail at h
  split at h
  · rename_i b c count hcall
    split at h
    · cases h
      exact .writeFail k b c count hcall
    · cases h
  · cases h

theorem of_writeQueue {k : CallId} {cmd : Nat → Word} (h : s.bufferWriteQueue k cmd = some s') :
    Step s (.writeQueue k cmd) s' := by
  unfold bufferWriteQueue at h
  split at h
  · rename_i b c count hcall
    split at h
    · cases h
      exact .writeQueue k cmd b c count hcall
    · cases h
  · cases h

theorem of_read {b : BufId} (h : s.dicedevBufferRead b = some s') : Step s (.read b) s' := by
  unfold dicedevBufferRead at h
  dsimp only at h
  split at h
  · split at h
    · cases h
      exact .readNone b
    · cases h
      exact .read b
  · cases h

theorem of_seed {b : BufId} {seed : Word} (h : s.dicedevBufferIoctl b seed = some s') :
    Step s (.seed b seed) s' := by
  unfold dicedevBufferIoctl at h
  split at h
  · cases h
    exact .seed b seed
  · cases h

theorem of_dup {b : BufId} (h : s.bufferDup b = some s') : Step s (.dup b) s' := by
  unfold bufferDup at h
  split at h
  · rename_i hfd
    cases h
    exact .dup b hfd
  · cases h

theorem of_close {b : BufId} (h : s.bufferClose b = some s') : Step s (.close b) s' := by
  unfold bufferClose at h
  split at h
  · rename_i hfd
    cases h
    exact .close b hfd
  · cases h

theorem of_bufferRelease {b : BufId} (h : (s.dicedevBufferRelease b).map s.orHalt = some s') :
    Step s (.bufferRelease b) s' := by
  unfold dicedevBufferRelease at h
  dsimp only at h
  split at h
  · rename_i hg
    obtain ⟨-, hfreed, hfd, -, hctx, hcalls⟩ := hg
    rw [bufferDestroy_eq] at h
    cases h
    exact .bufferRelease b hfreed hfd hctx hcalls
  · cases h

/-! ## The interrupt handler -/

theorem isrError_cases (s : State) :
    (∃ b, { s with intr := Intr.clear }.isrError s.intr = .error b ∧ b = .isrNoTask) ∨
      ({ s with intr := Intr.clear }.isrError s.intr =
          .ok { s with intr := Intr.clear, ctxs := s.isrCtxs } ∧
        (s.intr.cmdError ∨ s.intr.memError → s.runningTask ≠ none)) := by
  unfold State.isrError isrCtxs
  by_cases herr : s.intr.cmdError ∨ s.intr.memError
  · cases hrun : s.runningTask with
    | none => exact Or.inl ⟨_, by simp [herr], rfl⟩
    | some t => exact Or.inr ⟨by simp [herr, ctxFail, updCtx], by simp⟩
  · cases hrun : s.runningTask with
    | none => exact Or.inr ⟨by simp [herr], fun h => absurd h herr⟩
    | some t => exact Or.inr ⟨by simp [herr], by simp⟩

theorem of_isr (h : s.dicedevIsr.map s.orHalt = some s') : Step s .isr s' := by
  unfold dicedevIsr at h
  split at h
  · split at h
    · rename_i hen
      rcases isrError_cases s with ⟨b, hb, rfl⟩ | ⟨hok, htask⟩
      · simp only [hb] at h
        cases h
        exact .halt _ _ (by simp) (by decide) (by simp)
      · simp only [hok, bind, Except.bind, State.isrFence] at h
        split at h
        · rename_i hfence
          split at h
          · cases h
            exact .halt _ _ (by simp) (by decide) (by simp)
          · rename_i t hrun
            cases h
            exact .isrFence t hen hfence hrun
        · rename_i hfence
          cases h
          exact .isr hen (by simpa using hfence) htask
    · cases h
      exact .isrOff
  · cases h

/-! ## The device -/

theorem of_fenceInterrupt (h : s.hwFence = some s') : Step s .fenceInterrupt s' := by
  unfold hwFence at h
  split at h
  · cases h
  · rename_i t ht
    cases h
    exact .fenceInterrupt t ht

theorem of_errorInterrupt {i : Nat} {mem : Bool} (h : s.hwError i mem = some s') :
    Step s (.errorInterrupt i mem) s' := by
  unfold hwError at h
  split at h
  · cases h
  · rename_i t ht
    split at h
    · rename_i hfence
      cases h
      exact .errorInterrupt i mem t ht hfence
    · cases h

/-! ## The worker -/

theorem of_taskGetNext (hpc : s.pc = .event .taskGetNext) :
    Step s .worker (s.orHalt s.wtTaskGetNext) := by
  unfold wtTaskGetNext
  cases hpend : s.pendingTasks with
  | nil => exact .halt _ _ (by simp) (by decide) (by simp)
  | cons t rest =>
    cases hfail : (s.ctxs (s.tasks t).ctx).failed with
    | true => simpa [hfail, orHalt] using Step.drop t rest hpc hpend hfail
    | false => simpa [hfail, orHalt] using Step.getNext t rest hpc hpend hfail

theorem of_taskBindSlot (hpc : s.pc = .event .taskBindSlot) :
    Step s .worker (s.orHalt s.wtTaskBindSlot) := by
  unfold wtTaskBindSlot
  cases hnext : s.nextTask with
  | none => exact .halt _ _ (by simp) (by decide) (by simp)
  | some t =>
    cases hslot : s.getSlot with
    | none => exact .halt _ _ (by simp) (by decide) (fun _ => ⟨hpc, by simp [hslot]⟩)
    | some i =>
      by_cases hempty : s.buffSlots i = none
      · simpa [State.bindSlot, hempty, bind, Except.bind, orHalt, bindTo, bufferInitReader,
          feedCmd, log, updBuf] using Step.bindSlot t _ i hpc hnext rfl hslot hempty
      · simp only [State.bindSlot, hempty, bind, Except.bind, orHalt, ne_eq, not_false_eq_true,
          if_true]
        refine .halt _ _ (by simp) (by decide) (fun _ => ⟨hpc, fun j hj => ?_⟩)
        rw [hslot] at hj
        cases hj
        exact hempty

theorem of_taskRun (hpc : s.pc = .event .taskRun) : Step s .worker (s.orHalt s.wtTaskRun) := by
  unfold wtTaskRun
  split
  · exact .halt _ _ (by simp) (by decide) (by simp)
  · rename_i t hnext
    split
    · exact .halt _ _ (by simp) (by decide) (by simp)
    · rename_i hbound
      exact .taskRun t hpc hnext hbound

theorem of_wtHandle {e : WtEvent} (hpc : s.pc = .event e) :
    Step s .worker (s.orHalt (s.wtHandle e)) := by
  cases e with
  | noEvent =>
    simp only [wtHandle, orHalt]
    split
    · rename_i hev
      exact .sleep hpc hev
    · exact .again (Or.inl hpc)
  | taskGetNext => exact of_taskGetNext hpc
  | taskBindSlot => exact of_taskBindSlot hpc
  | taskRun => exact of_taskRun hpc
  | taskFinish =>
    simp only [wtHandle]
    split
    · exact .halt _ _ (by simp) (by decide) (by simp)
    · rename_i t hrun
      exact .taskFinish t hpc hrun
  | park => exact .park hpc
  | stop => exact .again (Or.inr (Or.inl hpc))

/-- Reading a word can only run into the `BUG_ON` of the write iterator. -/
theorem taskGetNextWord_error {mem : BufId → Nat → Nat → Word} {t : Task} {b : Bug}
    (h : taskGetNextWord mem t = .error b) : b = .nextWord := by
  unfold taskGetNextWord at h
  split at h
  · split at h
    · cases h
      rfl
    · cases h
  · cases h

theorem runTaskPass_error {mem : BufId → Nat → Nat → Word} {allowed : Word}
    {slot : Option Slot} {t : Task} {left : Nat} {b : Bug}
    (h : runTaskPass mem allowed slot t left = .error b) : b = .nextWord := by
  unfold runTaskPass at h
  split at h
  · rename_i e he
    cases h
    exact taskGetNextWord_error he
  · split at h
    · cases h
    · split at h
      · split at h
        · cases h
        · split at h
          · rename_i e he
            cases h
            exact taskGetNextWord_error he
          · cases h
      · split at h <;> cases h

theorem wtRunTaskPass_reject (s : State) (t : TaskId) (task : Task) :
    s.wtRunTaskPass t (task, .reject) =
      { s with
        tasks := Function.update s.tasks t task
        ctxs := Function.update s.ctxs task.ctx { s.ctxs task.ctx with failed := true }
        nextTask := none
        pc := .fencing
        trace := s.trace ++ [.rejected t] } := by
  simp only [wtRunTaskPass, updTask, ctxFail, updCtx, State.log, wtRunTaskReturn]

theorem of_running {left : Nat} (hpc : s.pc = .running left) :
    Step s .worker (s.orHalt (s.wtRunTask left)) := by
  unfold wtRunTask
  cases hrun : s.runningTask with
  | none => exact .halt _ _ (by simp) (by decide) (by simp)
  | some t =>
    by_cases hleft : left = 0
    · subst hleft
      exact .runDone t hpc hrun
    · simp only [hleft, if_false]
      change Step s .worker (s.orHalt (do
        let r ← s.passOf t left
        .ok (s.wtRunTaskPass t r)))
      cases hpass : s.passOf t left with
      | error b =>
        have hb := runTaskPass_error hpass
        subst hb
        exact .halt _ _ (by simp) (by decide) (by simp)
      | ok r =>
        obtain ⟨task, pass⟩ := r
        cases pass with
        | skip left' => exact .runSkip t left task left' hpc hrun hpass
        | fed words user left' => exact .runFeed t left task words user left' hpc hrun hpass
        | reject =>
          change Step s .worker (s.wtRunTaskPass t (task, .reject))
          rw [wtRunTaskPass_reject]
          exact .runReject t left task hpc hrun hpass

theorem of_destroy {t : TaskId} {c : Caller} (hpc : s.pc = .destroy t c) :
    Step s .worker (s.orHalt (do
      let s ← s.taskDestroyUnbind t
      .ok { s with pc := .account t c })) := by
  by_cases hwhy : ((s.tasks t).isRun || (s.ctxs (s.tasks t).ctx).failed) = true
  · rw [taskDestroyUnbind_eq s t c hwhy]
    exact .destroyUnbind t c _ hpc rfl (by simpa using hwhy)
  · rw [taskDestroyUnbind, if_neg hwhy]
    rw [Bool.not_eq_true, Bool.or_eq_false_iff] at hwhy
    exact .destroyKeep t c hpc hwhy.1 hwhy.2

theorem taskDestroyCount_eq (s : State) (t : TaskId) :
    s.taskDestroyCount t =
      { s with
        ctxs := Function.update s.ctxs (s.tasks t).ctx
          { s.ctxs (s.tasks t).ctx with
            taskCount := sizeDec (s.ctxs (s.tasks t).ctx).taskCount }
        bufs := Function.update s.bufs (s.tasks t).buffOut
          { s.bufs (s.tasks t).buffOut with
            reader := ⟨(s.bufs (s.tasks t).buffOut).reader.resultCount +
              (s.tasks t).resultCount, (s.bufs (s.tasks t).buffOut).reader.offset⟩ }
        tasks := Function.update s.tasks t { s.tasks t with freed := true } } := by
  simp only [taskDestroyCount, updCtx, updBuf, updTask]

theorem of_worker (h : s.wtStep.map s.orHalt = some s') : Step s .worker s' := by
  unfold wtStep at h
  split at h
  · rename_i hpc
    cases h
    exact .head hpc
  · rename_i hpc
    cases h
    exact .polled hpc
  · rename_i e hpc
    cases h
    exact of_wtHandle hpc
  · cases h
  · rename_i hpc
    split at h
    · cases h
    · cases h
      exact .again (Or.inr (Or.inr hpc))
  · rename_i left hpc
    cases h
    exact of_running hpc
  · rename_i hpc
    cases h
    unfold wtFence
    split
    · exact .halt _ _ (by simp) (by decide) (by simp)
    · rename_i t hrun
      exact .fence t hpc hrun
  · rename_i t c hpc
    cases h
    exact of_destroy hpc
  · rename_i t c hpc
    rw [taskDestroyCount_eq] at h
    cases h
    exact .account t c _ _ hpc rfl rfl
  · rename_i hpc
    cases h
    rw [wtTaskFinish_eq]
    exact .finishing hpc
  · rename_i hpc
    cases h
    exact .shutdown hpc
  · cases h
  · cases h

/-- Every step of the system is one of the listed outcomes. -/
theorem of_step {l : Label} (h : system.step s l = some s') : Step s l s' := by
  have h' : s.step l = some s' := h
  unfold State.step at h'
  split at h'
  · cases l with
    | openCtx addr => exact of_open h'
    | createSet c size allowed dma => exact of_createSet h'
    | run c cb db addr size shared alloc => exact of_run h'
    | runCount k => exact of_runCount h'
    | runQueue k => exact of_runQueue h'
    | wait c cnt => exact of_wait h'
    | waitLeave k => exact of_waitLeave h'
    | waitReturn k => exact of_waitReturn h'
    | releaseMark c => exact of_releaseMark h'
    | releaseWait c => exact of_releaseWait h'
    | releaseBuffer c => exact of_releaseBuffer h'
    | releaseFree c => exact of_releaseFree h'
    | write b count => exact of_write h'
    | writeFail k => exact of_writeFail h'
    | writeQueue k cmd => exact of_writeQueue h'
    | read b => exact of_read h'
    | seed b seed => exact of_seed h'
    | dup b => exact of_dup h'
    | close b => exact of_close h'
    | bufferRelease b => exact of_bufferRelease h'
    | store b i j w =>
      cases h'
      exact .store b i j w
    | isr => exact of_isr h'
    | fenceInterrupt => exact of_fenceInterrupt h'
    | errorInterrupt i mem => exact of_errorInterrupt h'
    | slotError =>
      cases h'
      exact .slotError
    | suspend =>
      cases h'
      exact .suspend
    | resume =>
      cases h'
      exact .resume
    | remove =>
      cases h'
      exact .remove
    | worker => exact of_worker h'
  · cases h'

end Step

end Dicedev
