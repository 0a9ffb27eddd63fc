import Dicedev.Types

/-!
# Slots and the command register

The functions of `dicedev_utils.c`, and the wake-up of the worker. `feed_cmd` holds
`feed_lock` for a whole command, so a command enters the stream in one piece.
-/

namespace Dicedev

/-- A slot number as a 32-bit `int`. -/
def slotWord (i : Slot) : Word := BitVec.ofNat 32 i

/-- `binded_slot` as a 32-bit `int`: `DICEDEV_BUFFER_NO_SLOT` is `-1`. -/
def bindedSlotWord : Option Slot → Word
  | some i => slotWord i
  | none => BitVec.allOnes 32

/-- The four words that `bind_slot` feeds. -/
def bindCmd (i : Slot) (b : Buffer) : List Word :=
  [userCmdBindSlotHeader (BitVec.ofNat 64 i) b.seed, b.allowed,
    b.dmaHandler.setWidth 32, (b.dmaHandler >>> 32).setWidth 32]

/-- The word that `unbind_slot` feeds. -/
def unbindCmd (i : Slot) : List Word := [userCmdUnbindSlotHeader (slotWord i)]

namespace State

/-- `feed_cmd`. -/
def feedCmd (s : State) (words : List Word) (origin : Origin) : State :=
  s.log (.feed ⟨words, origin⟩)

/-- `get_slot`: the first empty slot, `none` for `-1`. -/
def getSlot (s : State) : Option Slot :=
  if 0 < s.freeSlots then (List.finRange 16).find? fun i => s.buffSlots i = none else none

/-- The effect of `bind_slot` on an empty slot. -/
def bindTo (s : State) (b : BufId) (i : Slot) : State :=
  ({ s with
      freeSlots := sizeDec s.freeSlots
      buffSlots := Function.update s.buffSlots i (some b) }.updBuf b fun buf =>
    { buf with bindedSlot := some i, usageCount := 1 }).feedCmd (bindCmd i (s.bufs b)) (.bind b)

/-- `bind_slot` on the result of `get_slot`. An index of `-1` is outside the table. -/
def bindSlot (s : State) (b : BufId) : Option Slot → Except Bug State
  | none => .error .noSlot
  | some i => if s.buffSlots i ≠ none then .error .bindSlot else .ok (s.bindTo b i)

/-- The effect of `unbind_slot` on a buffer bound to slot `i`. -/
def unbindFrom (s : State) (b : BufId) (i : Slot) : State :=
  ({ s with
      freeSlots := s.freeSlots + 1
      buffSlots := Function.update s.buffSlots i none }.updBuf b fun buf =>
    { buf with bindedSlot := none, usageCount := 0 }).feedCmd (unbindCmd i) (.unbind b)

/-- `unbind_slot`. -/
def unbindSlot (s : State) (b : BufId) : Except Bug State :=
  match (s.bufs b).bindedSlot with
  | none => .error .unbindSlot
  | some i => .ok (s.unbindFrom b i)

/-- `if (buff->binded_slot != DICEDEV_BUFFER_NO_SLOT) unbind_slot(dev, buff)`, the body of
the critical sections of `dicedev_release` and `dicedev_buffer_destroy`. -/
def unbindIfBound (s : State) (b : BufId) : Except Bug State :=
  if (s.bufs b).bindedSlot ≠ none then s.unbindSlot b else .ok s

/-- `restart_device`: it clears the pending interrupts. -/
def restartDevice (s : State) : State := { s with intr := Intr.clear, intrEnable := true }

/-- `wake_up_interruptible(&dev->wt.event_cond)`: a sleeping worker tests its condition
again. -/
def wakeWorker (s : State) : State :=
  { s with pc := if s.pc = .asleep then .event .noEvent else s.pc }

/-- `slock` can be taken: nobody spins on it while holding it. Every critical section is
one step, so it is free between the steps. -/
def slockFree (s : State) : Bool := decide (s.pc ≠ .hung)

end State

end Dicedev
