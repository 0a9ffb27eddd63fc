import Mathlib.Algebra.Group.Nat.Defs
import Mathlib.Logic.Function.Basic

/-!
# Data of the driver

The structures of `dicedev_types.h` and the constants of `dicedev.h`, as far as the
modelled functions read them, and the state of the whole system: the driver's structures,
the worker thread, the system calls in progress and the device.

Pointers are identities. Contexts, buffers, tasks and system calls are numbered in the
order in which they appear; the number of a task is given by `dicedev_wt_add_task`, so the
order of the numbers is the queueing order. The one place where the driver compares raw
pointers is the owner test of `DICEDEV_IOCTL_RUN`, and for it a context carries its
address, which the allocator may hand out again after `kfree`. A buffer that has been freed
keeps its fields, and its number is not used again; `SlotPointers.lean` adds the addresses of
buffers, which are.

`State.trace` records what happened, oldest first. Nothing in the driver reads it.
-/

namespace Dicedev

/-- A `uint32_t`: one word of a command. -/
abbrev Word := BitVec 32

/-- An index into `buff_slots` (`DICEDEV_NUM_SLOTS` is 16). -/
abbrev Slot := Fin 16

abbrev CtxId := Nat
abbrev BufId := Nat
abbrev TaskId := Nat
abbrev CallId := Nat

/-! ## Arithmetic of `size_t` -/

/-- Subtraction of `size_t`, which wraps below zero. -/
def sizeSub (a b : Nat) : Nat := (a + 2 ^ 64 - b) % 2 ^ 64

/-- `n--` on a `size_t` counter: zero wraps to the largest value. -/
def sizeDec (n : Nat) : Nat := if n = 0 then 2 ^ 64 - 1 else n - 1

/-! ## Commands -/

def userCmdTypeNop : Word := 0x0
def userCmdTypeBindSlot : Word := 0x1
def userCmdTypeGetDie : Word := 0x2
def userCmdTypeFence : Word := 0x3
def userCmdTypeNewSet : Word := 0x4
def userCmdTypeUnbindSlot : Word := 0x5

/-- `DICEDEV_CMD_TYPE_MASK`. -/
def cmdTypeMask : Word := 0xF

/-- `DICEDEV_TASK_FENCE_VAL`. -/
def taskFenceVal : Word := 42

/-- `GET_DIE_SLOT_MASK`: `((1 << 28) - 1) ^ ((1 << 25) - 1)`. -/
def getDieSlotMask : Word := ((1 <<< 28) - 1) ^^^ ((1 <<< 25) - 1)

/-- `GET_DIE_NUM_MASK`: `((1 << 20) - 1) ^ ((1 << 5) - 1)`. -/
def getDieNumMask : Word := ((1 <<< 20) - 1) ^^^ ((1 <<< 5) - 1)

/-- `NEW_SET_SLOT_MASK`: `((1 << 8) - 1) ^ ((1 << 5) - 1)`. -/
def newSetSlotMask : Word := ((1 <<< 8) - 1) ^^^ ((1 <<< 5) - 1)

/-- `DICEDEV_USER_CMD_BIND_SLOT_HEADER`. The seed is a `size_t`, so the header is computed
in 64 bits and cut to 32 when it is stored in the command. -/
def userCmdBindSlotHeader (slot : BitVec 64) (seed : BitVec 64) : Word :=
  (userCmdTypeBindSlot.setWidth 64 ||| slot <<< 4 ||| seed <<< 12).setWidth 32

/-- `DICEDEV_USER_CMD_GET_DIE_HEADER`. -/
def userCmdGetDieHeader (num outputType : Word) : Word :=
  userCmdTypeGetDie ||| num <<< 4 ||| outputType <<< 20

/-- `DICEDEV_USER_CMD_GET_DIE_HEADER_WSLOT`. -/
def userCmdGetDieHeaderWslot (num outputType slot : Word) : Word :=
  userCmdTypeGetDie ||| num <<< 4 ||| outputType <<< 20 ||| slot <<< 24

/-- `DICEDEV_USER_CMD_NEW_SET`. -/
def userCmdNewSet : Word := userCmdTypeNewSet

/-- `DICEDEV_USER_CMD_FENCE_HEADER`. -/
def userCmdFenceHeader (num : Word) : Word := userCmdTypeFence ||| num <<< 4

/-- `DICEDEV_USER_CMD_UNBIND_SLOT_HEADER`. -/
def userCmdUnbindSlotHeader (slot : Word) : Word := userCmdTypeUnbindSlot ||| slot <<< 4

/-! ## The driver's structures -/

/-- `enum dicedev_fence_state`. -/
inductive FenceState
  | none
  | waiting
  | reached
  deriving DecidableEq, Repr

/-- The life of a context's file: open, inside the wait loop of `dicedev_release`, past
that loop, and after its `kfree`. -/
inductive Phase
  | opened
  | waiting
  | closing
  | freed
  deriving DecidableEq, Repr

/-- `struct dicedev_context`. A context that was never opened is the default one. -/
structure Context where
  addr : Nat
  failed : Bool
  taskCount : Nat
  allocatedBuffers : List BufId
  phase : Phase
  deriving DecidableEq, Repr

instance : Inhabited Context := ⟨⟨0, false, 0, [], .freed⟩⟩

/-- `buff->reader`. -/
structure Reader where
  resultCount : Nat
  offset : Nat
  deriving DecidableEq, Repr

/-- `struct dicedev_buffer` with its page table: `page i j` is word `j` of data page `i`.
`fdRefs` counts the descriptors and mappings of its file, `leakedRefs` the references
taken by `fdget` and not given back, and `ctxRef` is the reference of its context. -/
structure Buffer where
  ctx : CtxId
  destroyed : Bool
  seed : BitVec 64
  seedChg : Bool
  allowed : Word
  usageCount : Nat
  bindedSlot : Option Slot
  reader : Reader
  dmaHandler : BitVec 64
  numPages : Nat
  maxSize : Nat
  page : Nat → Nat → Word
  fdRefs : Nat
  leakedRefs : Nat
  ctxRef : Bool
  freed : Bool

instance : Inhabited Buffer :=
  ⟨⟨0, true, 0, false, 0, 0, none, ⟨0, 0⟩, 0, 0, 0, fun _ _ => 0, 0, 0, false, true⟩⟩

/-- `struct dicedev_task_write`. `cmd i` is the word at index `i`; from `cmdSize / 4` on it
is whatever lies behind the array. -/
structure TaskWrite where
  cmd : Nat → Word
  cmdSize : Nat
  itOffset : Nat

/-- `struct dicedev_task_run`. The pointer `curr_pg` is kept as the index of its page. -/
structure TaskRun where
  cBuff : BufId
  offset : Nat
  size : Nat
  currPg : Nat
  currPgNo : Nat
  currPgOff : Nat
  bytesLeft : Nat

/-- The tagged union of `struct dicedev_task`. -/
inductive TaskBody
  | write (w : TaskWrite)
  | run (r : TaskRun)

/-- `struct dicedev_task`. -/
structure Task where
  ctx : CtxId
  resultCount : Nat
  buffOut : BufId
  body : TaskBody
  freed : Bool

instance : Inhabited Task := ⟨⟨0, 0, 0, .write ⟨fun _ => 0, 0, 0⟩, true⟩⟩

/-- `task->type == DICEDEV_TASK_TYPE_RUN`. -/
def Task.isRun (t : Task) : Bool :=
  match t.body with
  | .write _ => false
  | .run _ => true

/-! ## The worker thread -/

/-- `enum wt_event`. -/
inductive WtEvent
  | noEvent
  | taskGetNext
  | taskBindSlot
  | taskRun
  | taskFinish
  | park
  | stop
  deriving DecidableEq, Repr

/-- Which event handler called `__task_destroy`: a fetched task of a failed context is
dropped, a task whose fence was reached is finished. -/
inductive Caller
  | drop
  | finish
  deriving DecidableEq, Repr

/-- Where the worker is in `dicedev_wt_fn`. -/
inductive WtPc
  /-- At the test of the `while` loop. -/
  | head
  /-- Inside `__wt_get_event`, past the test for a reached fence. -/
  | polled
  /-- The `switch` has taken this case. -/
  | event (e : WtEvent)
  /-- Asleep in `wait_event_interruptible`. -/
  | asleep
  /-- Inside `kthread_parkme`. -/
  | parked
  /-- In the loop of `__wt_run_task`, with its `bytes_left`. -/
  | running (bytesLeft : Nat)
  /-- After `__wt_run_task`, before the fence is fed. -/
  | fencing
  /-- In `__task_destroy`, before its first critical section. -/
  | destroy (t : TaskId) (c : Caller)
  /-- In `__task_destroy`, before its second critical section. -/
  | account (t : TaskId) (c : Caller)
  /-- At `WT_EVENT_TASK_FINISH`, after `__task_destroy`. -/
  | finishing
  /-- After the loop. -/
  | shutdown
  /-- Spinning on `slock` while holding it. -/
  | hung
  /-- `dicedev_wt_fn` has returned. -/
  | exited
  deriving DecidableEq, Repr

/-! ## System calls in progress -/

inductive Errno
  | einval
  | eio
  | enomem
  | efault
  | eperm
  deriving DecidableEq, Repr

/-- A system call that has started and not yet returned. -/
inductive Call
  /-- `dicedev_ioctl_run` past its checks; `counted` once it has raised `task_count`. -/
  | run (c : CtxId) (cBuff dBuff : BufId) (addr size : Nat) (counted : Bool)
  /-- `dicedev_buffer_write` after it has raised `task_count`. -/
  | write (b : BufId) (c : CtxId) (count : Nat)
  /-- `dicedev_ioctl_wait`; `left` once it has left its loop. -/
  | wait (c : CtxId) (cnt : Nat) (left : Bool)
  deriving DecidableEq, Repr

/-! ## The device -/

/-- The bits of the interrupt register that the driver enables. -/
structure Intr where
  fenceWait : Bool
  cmdError : Bool
  memError : Bool
  slotError : Bool
  deriving DecidableEq, Repr

def Intr.clear : Intr := ⟨false, false, false, false⟩

/-- Who fed a command. For a command of a task: the user's word it was made from, and the
slot of the task's buffer when it was fed. -/
inductive Origin
  | probe
  | bind (b : BufId)
  | unbind (b : BufId)
  | task (t : TaskId) (user : Word) (slot : Option Slot)
  | fence (t : TaskId)
  deriving DecidableEq, Repr

/-- One command written to `CMD_MANUAL_FEED` by `feed_cmd`. -/
structure Fed where
  words : List Word
  origin : Origin
  deriving DecidableEq, Repr

/-- What the trace records. -/
inductive Event
  | feed (f : Fed)
  | queued (t : TaskId)
  | started (t : TaskId)
  | rejected (t : TaskId)
  | fenceReached (t : TaskId)
  | deviceError (t : TaskId)
  | dropped (t : TaskId)
  | finished (t : TaskId)
  | closed (b : BufId)
  | waitReturned (k : CallId) (err : Option Errno)
  deriving DecidableEq, Repr

/-- A `BUG_ON`, or the use of an index, list entry or task that is not there. -/
inductive Bug
  | bindSlot
  | unbindSlot
  | noSlot
  | emptyQueue
  | noTask
  | runNoSlot
  | nextWord
  | isrNoTask
  | finishNoTask
  deriving DecidableEq, Repr

/-! ## The system -/

/-- `struct dicedev_device`, the worker thread with its local `wtState`, the heap, the
system calls in progress, the device, and the history. An object with number `n` exists
once its counter is above `n`; the first `signalled` fences of the stream have raised
their interrupt. -/
structure State where
  fenceState : FenceState
  devFailed : Bool
  buffSlots : Slot → Option BufId
  freeSlots : Nat
  pendingTasks : List TaskId
  runningTask : Option TaskId
  pc : WtPc
  nextTask : Option TaskId
  shouldStop : Bool
  shouldPark : Bool
  ctxs : CtxId → Context
  nCtx : Nat
  bufs : BufId → Buffer
  nBuf : Nat
  tasks : TaskId → Task
  nTask : Nat
  calls : CallId → Option Call
  nCall : Nat
  intr : Intr
  intrEnable : Bool
  signalled : Nat
  trace : List Event
  bug : Option Bug

/-- The command of an entry of the trace. -/
def Event.fed? : Event → Option Fed
  | .feed f => some f
  | _ => none

/-- The commands fed to the device so far, oldest first. -/
def State.stream (s : State) : List Fed := s.trace.filterMap Event.fed?

/-- The task of a fence command. -/
def Fed.fence? (f : Fed) : Option TaskId :=
  match f.origin with
  | .fence t => some t
  | _ => none

/-- The task of a `GET_DIE` or `NEW_SET` command. -/
def Fed.task? (f : Fed) : Option TaskId :=
  match f.origin with
  | .task t _ _ => some t
  | _ => none

namespace State

/-! ## Updates -/

def updCtx (s : State) (c : CtxId) (f : Context → Context) : State :=
  { s with ctxs := Function.update s.ctxs c (f (s.ctxs c)) }

def updBuf (s : State) (b : BufId) (f : Buffer → Buffer) : State :=
  { s with bufs := Function.update s.bufs b (f (s.bufs b)) }

def updTask (s : State) (t : TaskId) (f : Task → Task) : State :=
  { s with tasks := Function.update s.tasks t (f (s.tasks t)) }

def setCall (s : State) (k : CallId) (call : Option Call) : State :=
  { s with calls := Function.update s.calls k call }

/-- Append to the trace. -/
def log (s : State) (e : Event) : State := { s with trace := s.trace ++ [e] }

/-- `BUG()` stops the machine in the state `s` before the step that ran into it. -/
def orHalt (s : State) : Except Bug State → State
  | .ok s' => s'
  | .error b => { s with bug := some b }

end State

end Dicedev
