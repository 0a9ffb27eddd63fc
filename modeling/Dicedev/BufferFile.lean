import Dicedev.Base

/-!
# The buffer file

`dicedev_buffer_write`, the seed ioctl, `dicedev_buffer_read` and the release of a buffer
(`dicedev_buffer.c`). A write raises `task_count` in one critical section and queues its
task, or rolls back, in another; everything in between is its own.
-/

namespace Dicedev

/-- `READS_AVAILABLE`. -/
def readsAvailable (r : Reader) : Nat := sizeSub r.resultCount r.offset

namespace State

/-- `dicedev_buffer_write` up to the end of its first critical section. -/
def dicedevBufferWrite (s : State) (b : BufId) (count : Nat) : Option State :=
  if 0 < (s.bufs b).fdRefs then
    if count % 4 ≠ 0 then some s
    else if s.slockFree then
      if (s.bufs b).destroyed then some s
      else
        let c := (s.bufs b).ctx
        some ((s.updCtx c fun ctx => { ctx with taskCount := ctx.taskCount + 1 }).addCall
          (.write b c count))
    else none
  else none

/-- The rollback of `dicedev_buffer_write` after a failed allocation or copy, as far as other
threads see it. The wake-up goes through a task pointer that was not set, so it reaches no queue
of the model. The thread dies there with `slock` held: `WriteState` has this, and `NoFault` keeps
such steps out of the runs in which the driver has to go on. -/
def bufferWriteFail (s : State) (k : CallId) : Option State :=
  match s.calls k with
  | some (.write _ c _) =>
    if s.slockFree then
      some ((s.updCtx c fun ctx => { ctx with taskCount := sizeDec ctx.taskCount }).setCall k none)
    else none
  | _ => none

/-- The end of `dicedev_buffer_write`: the task with the copied words is queued. -/
def bufferWriteQueue (s : State) (k : CallId) (cmd : Nat → Word) : Option State :=
  match s.calls k with
  | some (.write b c count) =>
    if s.slockFree then
      some ((s.setCall k none).wtAddTask ⟨c, 0, b, .write ⟨cmd, count, 0⟩, false⟩)
    else none
  | _ => none

/-- The critical section of `dicedev_buffer_read` once its loop has ended. The offset is
raised by `__buff_read_result` before its page test. -/
def dicedevBufferRead (s : State) (b : BufId) : Option State :=
  let buf := s.bufs b
  if s.slockFree ∧ 0 < buf.fdRefs ∧
      ¬ (readsAvailable buf.reader = 0 ∧ buf.destroyed = false ∧
        0 < (s.ctxs buf.ctx).taskCount) then
    if readsAvailable buf.reader = 0 then some s
    else
      some (s.updBuf b fun buf =>
        { buf with reader := { buf.reader with offset := buf.reader.offset + 1 } })
  else none

/-- `DICEDEV_BUFFER_IOCTL_SEED`. -/
def dicedevBufferIoctl (s : State) (b : BufId) (seed : Word) : Option State :=
  if 0 < (s.bufs b).fdRefs then
    some (s.updBuf b fun buf => { buf with seedChg := true, seed := seed.setWidth 64 })
  else none

/-- A descriptor or mapping of the buffer's file is added. -/
def bufferDup (s : State) (b : BufId) : Option State :=
  if 0 < (s.bufs b).fdRefs then
    some (s.updBuf b fun buf => { buf with fdRefs := buf.fdRefs + 1 })
  else none

/-- A descriptor or mapping of the buffer's file is closed. -/
def bufferClose (s : State) (b : BufId) : Option State :=
  if 0 < (s.bufs b).fdRefs then
    some (s.updBuf b fun buf => { buf with fdRefs := buf.fdRefs - 1 })
  else none

/-- `dicedev_buffer_destroy` and the `kfree` of the buffer. -/
def bufferDestroy (s : State) (b : BufId) : Except Bug State := do
  let s ← s.unbindIfBound b
  .ok (s.updBuf b fun buf => { buf with freed := true })

/-- `dicedev_buffer_release`, run when no reference to the file is left. -/
def dicedevBufferRelease (s : State) (b : BufId) : Option (Except Bug State) :=
  let buf := s.bufs b
  if s.slockFree ∧ buf.freed = false ∧ buf.fdRefs = 0 ∧ buf.leakedRefs = 0 ∧
      buf.ctxRef = false ∧ ∀ k < s.nCall, ∀ call ∈ s.calls k, call.uses b = false then
    some (s.bufferDestroy b)
  else none

/-- A word of a data page changes: a store through a mapping, or a result of the device. -/
def storeWord (s : State) (b : BufId) (i j : Nat) (w : Word) : State :=
  s.updBuf b fun buf =>
    { buf with page := Function.update buf.page i (Function.update (buf.page i) j w) }

end State

end Dicedev
