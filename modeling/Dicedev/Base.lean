import Dicedev.Worker

/-!
# The character device and the interrupt handler

`dicedev_open`, `dicedev_release`, the ioctls and `dicedev_isr` of `dicedev_base.c`. A
handler returns `none` when it cannot run in this state; a call that the driver refuses
returns the state it leaves behind.

The kernel calls `dicedev_release` when the last reference to the file is gone. An ioctl
holds one, so no ioctl of the context is in progress then.
-/

namespace Dicedev

/-- An ioctl of context `c` is in progress in this call. -/
def Call.ioctlOf (c : CtxId) : Call → Bool
  | .run c' _ _ _ _ _ => c' == c
  | .write _ _ _ => false
  | .wait c' _ _ => c' == c

/-- The call refers to the file of buffer `b`. -/
def Call.uses (b : BufId) : Call → Bool
  | .run _ cb db _ _ _ => cb == b || db == b
  | .write b' _ _ => b' == b
  | .wait _ _ _ => false

/-- `DICEDEV_MAX_BUFFER_SIZE`. -/
def maxBufferSize : Nat := 0x1000 * 1024

/-- `DICEDEV_MAX_ALLOWED`. -/
def maxAllowed : Nat := 2 ^ 33 - 1

/-- `DICEDEV_DEFAULT_SEED`. -/
def defaultSeed : BitVec 64 := 42

namespace State

/-- Start a system call. -/
def addCall (s : State) (call : Call) : State :=
  { s with calls := Function.update s.calls s.nCall (some call), nCall := s.nCall + 1 }

/-! ## Contexts -/

/-- `dicedev_open`, with the address that `kzalloc` returns. -/
def dicedevOpen (s : State) (addr : Nat) : Option State :=
  if ∀ c < s.nCtx, (s.ctxs c).phase ≠ .freed → (s.ctxs c).addr ≠ addr then
    some { s with
      ctxs := Function.update s.ctxs s.nCtx ⟨addr, false, 0, [], .opened⟩
      nCtx := s.nCtx + 1 }
  else none

/-- The buffer made by `dicedev_buffer_init`, with its file installed. -/
def newBuffer (c : CtxId) (size : Nat) (allowed dma : BitVec 64) : Buffer where
  ctx := c
  destroyed := false
  seed := defaultSeed
  seedChg := false
  allowed := allowed.setWidth 32
  usageCount := 0
  bindedSlot := none
  reader := ⟨0, 0⟩
  dmaHandler := dma
  numPages := (size + 0x1000 - 1) / 0x1000
  maxSize := size
  page := fun _ _ => 0
  fdRefs := 1
  leakedRefs := 0
  ctxRef := true
  freed := false

/-- `dicedev_ioctl_create_set` when its allocations succeed; `dma` is the address of the
page table. The source adds the buffer to `allocated_buffers` without a lock; here the whole call
is one step, so two calls for one context follow one another. -/
def dicedevIoctlCreateSet (s : State) (c : CtxId) (size : Nat) (allowed dma : BitVec 64) :
    Option State :=
  if (s.ctxs c).phase = .opened then
    if size > maxBufferSize ∨ allowed.toNat > maxAllowed then some s
    else
      some ({ s with
          bufs := Function.update s.bufs s.nBuf (newBuffer c size allowed dma)
          nBuf := s.nBuf + 1 }.updCtx c fun ctx =>
        { ctx with allocatedBuffers := s.nBuf :: ctx.allocatedBuffers })
  else none

/-- The checks of `dicedev_ioctl_run`, in their order; `none` if they all pass. -/
def ioctlRunCheck (s : State) (c : CtxId) (cBuff dBuff : BufId) (addr size : Nat) :
    Option Errno :=
  if addr % 4 ≠ 0 ∨ size % 4 ≠ 0 then some .einval
  else if addr + size > (s.bufs cBuff).maxSize then some .einval
  -- the source compares the pointer kept in the buffer with that of the open file
  else if (s.ctxs (s.bufs cBuff).ctx).addr ≠ (s.ctxs c).addr ∨
      (s.ctxs (s.bufs dBuff).ctx).addr ≠ (s.ctxs c).addr then some .einval
  else if (s.ctxs c).failed then some .eio
  else none

/-- The reference that `fdget` takes when the descriptor table is shared. -/
def leakRef (s : State) (b : BufId) (shared : Bool) : State :=
  if shared then s.updBuf b fun buf => { buf with leakedRefs := buf.leakedRefs + 1 } else s

/-- `dicedev_ioctl_run` up to its allocation, for descriptors that name dicedev buffers. -/
def dicedevIoctlRun (s : State) (c : CtxId) (cBuff dBuff : BufId) (addr size : Word)
    (shared alloc : Bool) : Option State :=
  if (s.ctxs c).phase = .opened ∧ 0 < (s.bufs cBuff).fdRefs ∧ 0 < (s.bufs dBuff).fdRefs then
    -- this check comes before the two `fdget`s, the others come after them
    if addr.toNat % 4 ≠ 0 ∨ size.toNat % 4 ≠ 0 then some s
    else
      let s' := (s.leakRef cBuff shared).leakRef dBuff shared
      if s.ioctlRunCheck c cBuff dBuff addr.toNat size.toNat = none ∧ alloc then
        some (s'.addCall (.run c cBuff dBuff addr.toNat size.toNat false))
      else some s'
  else none

/-- The critical section of `dicedev_ioctl_run`: `task_count++`. -/
def ioctlRunCount (s : State) (k : CallId) : Option State :=
  match s.calls k with
  | some (.run c cb db addr size false) =>
    if s.slockFree then
      some ((s.updCtx c fun ctx => { ctx with taskCount := ctx.taskCount + 1 }).setCall k
        (some (.run c cb db addr size true)))
    else none
  | _ => none

/-- `dicedev_wt_add_task`. -/
def wtAddTask (s : State) (task : Task) : State :=
  ({ s with
      tasks := Function.update s.tasks s.nTask task
      nTask := s.nTask + 1
      pendingTasks := s.pendingTasks ++ [s.nTask] }.log (.queued s.nTask)).wakeWorker

/-- The end of `dicedev_ioctl_run`: the task is queued. -/
def ioctlRunQueue (s : State) (k : CallId) : Option State :=
  match s.calls k with
  | some (.run c cb db addr size true) =>
    if s.slockFree then
      some ((s.setCall k none).wtAddTask ⟨c, 0, db, .run ⟨cb, addr, size, 0, 0, 0, 0⟩, false⟩)
    else none
  | _ => none

/-- `dicedev_ioctl_wait` starts. -/
def dicedevIoctlWait (s : State) (c : CtxId) (cnt : Word) : Option State :=
  if (s.ctxs c).phase = .opened then some (s.addCall (.wait c cnt.toNat false)) else none

/-- `dicedev_ioctl_wait` reads `task_count` and leaves its loop. -/
def ioctlWaitLeave (s : State) (k : CallId) : Option State :=
  match s.calls k with
  | some (.wait c cnt false) =>
    if (s.ctxs c).taskCount ≤ cnt then some (s.setCall k (some (.wait c cnt true))) else none
  | _ => none

/-- The answer of `dicedev_ioctl_wait` once it has left its loop. -/
def ioctlWaitResult (s : State) (c : CtxId) : Option Errno :=
  if (s.ctxs c).failed then some .eio else none

/-- `dicedev_ioctl_wait` reads `failed` and returns. -/
def ioctlWaitReturn (s : State) (k : CallId) : Option State :=
  match s.calls k with
  | some (.wait c _ true) => some ((s.setCall k none).log (.waitReturned k (s.ioctlWaitResult c)))
  | _ => none

/-! ## `dicedev_release` -/

/-- The first critical section: every buffer of the context is marked destroyed. -/
def releaseMark (s : State) (c : CtxId) : Option State :=
  if s.slockFree ∧ (s.ctxs c).phase = .opened ∧
      ∀ k < s.nCall, ∀ call ∈ s.calls k, call.ioctlOf c = false then
    some ({ s with
        bufs := fun b =>
          if b ∈ (s.ctxs c).allocatedBuffers then { s.bufs b with destroyed := true }
          else s.bufs b }.updCtx c fun ctx => { ctx with phase := .waiting })
  else none

/-- The wait loop ends: `task_count` reads zero. -/
def releaseWait (s : State) (c : CtxId) : Option State :=
  if (s.ctxs c).phase = .waiting ∧ (s.ctxs c).taskCount = 0 then
    some (s.updCtx c fun ctx => { ctx with phase := .closing })
  else none

/-- The body of the loop over `allocated_buffers`. -/
def releaseOne (s : State) (c : CtxId) (b : BufId) (rest : List BufId) : Except Bug State := do
  let s ← s.unbindIfBound b
  .ok (((s.updCtx c fun ctx => { ctx with allocatedBuffers := rest }).updBuf b fun buf =>
    { buf with ctxRef := false }).log (.closed b))

/-- One pass of the loop over `allocated_buffers`. -/
def releaseBuffer (s : State) (c : CtxId) : Option (Except Bug State) :=
  if s.slockFree ∧ (s.ctxs c).phase = .closing then
    match (s.ctxs c).allocatedBuffers with
    | [] => none
    | b :: rest => some (s.releaseOne c b rest)
  else none

/-- `kfree(ctx)`. -/
def releaseFree (s : State) (c : CtxId) : Option State :=
  if (s.ctxs c).phase = .closing ∧ (s.ctxs c).allocatedBuffers = [] then
    some (s.updCtx c fun ctx => { ctx with phase := .freed })
  else none

/-! ## The interrupt handler -/

/-- The error branch of `dicedev_isr`. -/
def isrError (s : State) (istatus : Intr) : Except Bug State :=
  if istatus.cmdError ∨ istatus.memError then
    match s.runningTask with
    | none => .error .isrNoTask
    | some t => .ok (s.ctxFail (s.tasks t).ctx)
  else .ok s

/-- The fence branch of `dicedev_isr`. -/
def isrFence (s : State) (istatus : Intr) : Except Bug State :=
  if istatus.fenceWait then
    match s.runningTask with
    | none => .error .isrNoTask
    | some _ => .ok { s with fenceState := .reached }.wakeWorker
  else .ok s

/-- `dicedev_isr`. Writing `istatus` back clears the bits it read. -/
def dicedevIsr (s : State) : Option (Except Bug State) :=
  if s.slockFree then
    if s.intrEnable then
      some do
        let istatus := s.intr
        let s ← { s with intr := Intr.clear }.isrError istatus
        s.isrFence istatus
    else some (.ok s)
  else none

/-! ## The PCI driver -/

/-- `dicedev_suspend` up to the wait in `kthread_park`. -/
def dicedevSuspend (s : State) : State :=
  { s with intrEnable := false, shouldPark := true }.wakeWorker

/-- `dicedev_resume`. -/
def dicedevResume (s : State) : State := { s with shouldPark := false, intrEnable := true }

/-- `dicedev_remove` up to the wait in `kthread_stop`. -/
def dicedevRemove (s : State) : State :=
  { s with intrEnable := false, shouldStop := true, shouldPark := false }.wakeWorker

/-- The state after `dicedev_probe`: the sixteen slots have been unbound. -/
def probed : State where
  fenceState := .none
  devFailed := false
  buffSlots := fun _ => none
  freeSlots := 16
  pendingTasks := []
  runningTask := none
  pc := .head
  nextTask := none
  shouldStop := false
  shouldPark := false
  ctxs := fun _ => default
  nCtx := 0
  bufs := fun _ => default
  nBuf := 0
  tasks := fun _ => default
  nTask := 0
  calls := fun _ => none
  nCall := 0
  intr := Intr.clear
  intrEnable := true
  signalled := 0
  trace := (List.finRange 16).map fun i => .feed ⟨unbindCmd i, .probe⟩
  bug := none

end State

end Dicedev
