import Dicedev.RunTask

/-!
# The worker thread

`__wt_get_event`, `__task_destroy` and `dicedev_wt_fn`. A step of the worker is one
critical section under `slock`, one pass of the loop of `__wt_run_task`, or a stretch of
code that touches nothing another thread writes. The test for a reached fence and the
rest of `__wt_get_event` are separate steps, and so are an event and its handler, because
the tests are made without the lock.

Two critical sections are one step with the unlocked test that follows them, taken at the
time of that test. `WT_EVENT_TASK_GET_NEXT` takes the head off `pending_tasks` and then tests
`ctx->failed`: in between the others can only append to the queue, and nobody but the worker
looks at its head, so it makes no difference that the head is taken off later. A failure that
the interrupt handler reports in between comes before the step, and the test sees it.
`__wt_get_event` finds the buffer without a slot and then reads `free_slots`: in between nobody
but the worker could give the buffer a slot.
-/

namespace Dicedev

namespace State

/-- The first three tests of `__wt_get_event`. -/
def wtGetEventFence (s : State) : Option WtEvent :=
  if s.shouldStop then some .stop
  else if s.shouldPark then some .park
  else if s.fenceState = .reached then some .taskFinish
  else none

/-- The rest of `__wt_get_event`. -/
def wtGetEventTask (s : State) : WtEvent :=
  match s.nextTask with
  | none => if s.pendingTasks ≠ [] then .taskGetNext else .noEvent
  | some t =>
    if s.fenceState ≠ .none then .noEvent
    else if (s.bufs (s.tasks t).buffOut).bindedSlot = none then
      if 0 < s.freeSlots then .taskBindSlot else .noEvent
    else .taskRun

/-- `__wt_get_event`. -/
def wtGetEvent (s : State) : WtEvent := s.wtGetEventFence.getD s.wtGetEventTask

/-- `WT_EVENT_TASK_GET_NEXT`: the head of the queue becomes `next_task`, or goes to
`__task_destroy` if its context has failed. The step is taken when the flag is tested. -/
def wtTaskGetNext (s : State) : Except Bug State :=
  match s.pendingTasks with
  | [] => .error .emptyQueue
  | t :: rest =>
    if (s.ctxs (s.tasks t).ctx).failed then
      .ok { s with pendingTasks := rest, pc := .destroy t .drop }
    else .ok { s with pendingTasks := rest, nextTask := some t, pc := .head }

/-- `dicedev_buffer_init_reader`. -/
def bufferInitReader (s : State) (b : BufId) : State :=
  s.updBuf b fun buf => { buf with reader := ⟨0, 0⟩ }

/-- `WT_EVENT_TASK_BIND_SLOT`. -/
def wtTaskBindSlot (s : State) : Except Bug State :=
  match s.nextTask with
  | none => .error .noTask
  | some t => do
    let b := (s.tasks t).buffOut
    let s ← s.bindSlot b s.getSlot
    .ok { s.bufferInitReader b with pc := .head }

/-- `WT_EVENT_TASK_RUN` up to the loop of `__wt_run_task`. -/
def wtTaskRun (s : State) : Except Bug State :=
  match s.nextTask with
  | none => .error .noTask
  | some t =>
    if (s.bufs (s.tasks t).buffOut).bindedSlot = none then .error .runNoSlot
    else
      .ok (({ s with
          fenceState := .waiting
          runningTask := some t
          pc := .running (taskBytes (s.tasks t)) }.updTask t taskInitIt).log (.started t))

/-- `__wt_run_task` returns, and the worker forgets `next_task`. -/
def wtRunTaskReturn (s : State) : State := { s with nextTask := none, pc := .fencing }

/-- `ctx->failed = true`. -/
def ctxFail (s : State) (c : CtxId) : State := s.updCtx c fun ctx => { ctx with failed := true }

/-- The effect of one pass of the loop of `__wt_run_task` on task `t`. -/
def wtRunTaskPass (s : State) (t : TaskId) : Task × Pass → State
  | (task, .skip left) => { s with pc := .running left }.updTask t fun _ => task
  | (task, .fed words user left) =>
    ({ s with pc := .running left }.updTask t fun _ => task).feedCmd words
      (.task t user (s.bufs task.buffOut).bindedSlot)
  | (task, .reject) =>
    (((s.updTask t fun _ => task).ctxFail task.ctx).log (.rejected t)).wtRunTaskReturn

/-- One pass of the loop of `__wt_run_task`, or its end. -/
def wtRunTask (s : State) (bytesLeft : Nat) : Except Bug State :=
  match s.runningTask with
  | none => .error .noTask
  | some t =>
    if bytesLeft = 0 then .ok s.wtRunTaskReturn
    else do
      let out := s.bufs (s.tasks t).buffOut
      let r ← runTaskPass (fun b => (s.bufs b).page) out.allowed out.bindedSlot (s.tasks t)
        bytesLeft
      .ok (s.wtRunTaskPass t r)

/-- The end of `WT_EVENT_TASK_RUN`: the fence is fed. -/
def wtFence (s : State) : Except Bug State :=
  match s.runningTask with
  | none => .error .noTask
  | some t => .ok ({ s with pc := .head }.feedCmd [userCmdFenceHeader taskFenceVal] (.fence t))

/-- The first critical section of `__task_destroy`. -/
def taskDestroyUnbind (s : State) (t : TaskId) : Except Bug State :=
  let task := s.tasks t
  if task.isRun || (s.ctxs task.ctx).failed then s.unbindIfBound task.buffOut else .ok s

/-- The second critical section of `__task_destroy`, and `kfree(task)`. -/
def taskDestroyCount (s : State) (t : TaskId) : State :=
  let task := s.tasks t
  ((s.updCtx task.ctx fun ctx => { ctx with taskCount := sizeDec ctx.taskCount }).updBuf
    task.buffOut fun b =>
      { b with reader := { b.reader with
          resultCount := b.reader.resultCount + task.resultCount } }).updTask t fun task =>
      { task with freed := true }

/-- Where `__task_destroy` returns to. -/
def destroyReturn : Caller → WtPc
  | .drop => .head
  | .finish => .finishing

/-- What the trace records when a task has been destroyed. -/
def destroyEvent (t : TaskId) : Caller → Event
  | .drop => .dropped t
  | .finish => .finished t

/-- The end of `WT_EVENT_TASK_FINISH`. -/
def wtTaskFinish (s : State) : State :=
  let s := if s.devFailed then { s.restartDevice with devFailed := false } else s
  { s with fenceState := .none, runningTask := none, pc := .head }

/-- The handler of an event, up to its first wait or the end of its first critical
section. -/
def wtHandle (s : State) : WtEvent → Except Bug State
  | .noEvent =>
    .ok { s with pc := if s.wtGetEvent = .noEvent then .asleep else .head }
  | .stop => .ok { s with pc := .head }
  | .park => .ok { s with pc := .parked }
  | .taskGetNext => s.wtTaskGetNext
  | .taskBindSlot => s.wtTaskBindSlot
  | .taskRun => s.wtTaskRun
  | .taskFinish =>
    match s.runningTask with
    | none => .error .finishNoTask
    | some t => .ok { s with pc := .destroy t .finish }

/-- The test of the `while` loop and the first part of `__wt_get_event`. -/
def wtPoll (s : State) : WtPc :=
  if s.shouldStop then .shutdown
  else
    match s.wtGetEventFence with
    | some e => .event e
    | none => .polled

/-- After the loop `slock` is taken and `__task_destroy` takes it again, so the worker
never gets past a pending or running task. -/
def wtShutdown (s : State) : WtPc :=
  if s.pendingTasks = [] ∧ s.runningTask = none then .exited else .hung

/-- A step of `dicedev_wt_fn`; `none` where the worker is blocked. -/
def wtStep (s : State) : Option (Except Bug State) :=
  match s.pc with
  | .head => some (.ok { s with pc := s.wtPoll })
  | .polled => some (.ok { s with pc := .event s.wtGetEventTask })
  | .event e => some (s.wtHandle e)
  | .asleep => none
  | .parked => if s.shouldPark then none else some (.ok { s with pc := .head })
  | .running bytesLeft => some (s.wtRunTask bytesLeft)
  | .fencing => some s.wtFence
  | .destroy t c => some do
    let s ← s.taskDestroyUnbind t
    .ok { s with pc := .account t c }
  | .account t c =>
    some (.ok ({ s.taskDestroyCount t with pc := destroyReturn c }.log (destroyEvent t c)))
  | .finishing => some (.ok s.wtTaskFinish)
  | .shutdown => some (.ok { s with pc := s.wtShutdown })
  | .hung => none
  | .exited => none

end State

end Dicedev
