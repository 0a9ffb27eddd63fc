import Dicedev.Lib.Bits
import Dicedev.Views

/-!
# The commands on the wire

`Fed.Shaped` lists the commands that can be in the stream: the sixteen `UNBIND_SLOT`s of
`dicedev_probe`, the commands of `bind_slot` and `unbind_slot`, the commands of a task, which
are user words with a slot put in, and fences. The rest of the module reads the fields of
these words the way the device does.
-/

namespace Dicedev

open State

/-- A four-bit slot field of a command word. -/
def slotField (k : Nat) (w : Word) : Slot := (Bits.field k 4 w).toFin

/-- The first word of a command. -/
def Fed.header (f : Fed) : Word := f.words.headD 0

/-- The type of a command. -/
def Fed.type (f : Fed) : Word := f.header &&& cmdTypeMask

/-- The commands that the driver feeds. A command of a task is made from a user word whose
masked slot bits are clear. -/
inductive Fed.Shaped : Fed → Prop
  | probe (i : Slot) : Shaped ⟨unbindCmd i, .probe⟩
  | bind (i : Slot) (buf : Buffer) (b : BufId) : Shaped ⟨bindCmd i buf, .bind b⟩
  | unbind (i : Slot) (b : BufId) : Shaped ⟨unbindCmd i, .unbind b⟩
  | getDie (t : TaskId) (user cmd1 : Word) (slot : Option Slot)
      (htype : user &&& cmdTypeMask = userCmdTypeGetDie) (hmask : user &&& getDieSlotMask = 0) :
      Shaped ⟨[user ||| bindedSlotWord slot <<< 24, cmd1], .task t user slot⟩
  | newSet (t : TaskId) (user : Word) (slot : Option Slot)
      (htype : user &&& cmdTypeMask = userCmdTypeNewSet) (hmask : user &&& newSetSlotMask = 0) :
      Shaped ⟨[user ||| bindedSlotWord slot <<< 4], .task t user slot⟩
  | fence (t : TaskId) : Shaped ⟨[userCmdFenceHeader taskFenceVal], .fence t⟩

variable {s s' : State} {l : Label}

/-- What a pass feeds is a masked user word with the slot of the output buffer. -/
theorem passOf_shaped {t : TaskId} {left left' : Nat} {task : Task} {words : List Word}
    {user : Word} (h : s.passOf t left = .ok (task, .fed words user left')) :
    Fed.Shaped ⟨words, .task t user (s.bufs task.buffOut).bindedSlot⟩ := by
  have hout : task.buffOut = (s.tasks t).buffOut := congrArg TaskSig.buffOut (passOf_sig h)
  rw [hout]
  cases passOf_case h with
  | getDie _ m _ hdie hslot => exact .getDie t user m _ hdie hslot
  | newSet _ _ hset hslot => exact .newSet t user _ hset hslot

/-! ## Every command in the stream has its shape -/

def StreamShaped (trace : List Event) : Prop :=
  ∀ f ∈ trace.filterMap Event.fed?, f.Shaped

theorem StreamShaped.note {trace : List Event} (h : StreamShaped trace) {e : Event}
    (he : e.fed? = none) : StreamShaped (trace ++ [e]) := by
  unfold StreamShaped
  rw [filterMap_log_none he]
  exact h

theorem StreamShaped.feed {trace : List Event} (h : StreamShaped trace) {f : Fed}
    (hf : f.Shaped) : StreamShaped (trace ++ [.feed f]) := by
  intro g hg
  rw [List.filterMap_append] at hg
  rcases List.mem_append.mp hg with hg | hg
  · exact h g hg
  · rw [show [Event.feed f].filterMap Event.fed? = [f] from rfl, List.mem_singleton] at hg
    rw [hg]
    exact hf

theorem StreamShaped.unbound (h : StreamShaped s.trace) (b : BufId) :
    StreamShaped (s.unbound b).trace := by
  rcases trace_unbound s b with ht | ⟨i, -, ht⟩
  · rw [ht]
    exact h
  · rw [ht]
    exact h.feed (.unbind i b)

theorem StreamShaped.step (h : StreamShaped s.trace) (hs : Step s l s') :
    StreamShaped s'.trace := by
  cases hs with
  | openCtx | createSetRefused | createSet | runRefused | run | runCount | wait | waitLeave
  | releaseMark | releaseWait | releaseFree | writeRefused | write | writeFail | readNone
  | read | seed | dup | close | store | isrOff | isr | isrFence | slotError | suspend | resume
  | remove | head | polled | sleep | again | park | drop | getNext | taskFinish | runDone
  | runSkip | destroyKeep | finishing | shutdown | halt => exact h
  | runQueue | writeQueue | waitReturn | fenceInterrupt | errorInterrupt | taskRun
  | runReject => exact h.note rfl
  | releaseBuffer c b rest => exact (h.unbound b).note rfl
  | bufferRelease b => exact h.unbound b
  | destroyUnbind t c b => exact h.unbound b
  | bindSlot t b i => exact h.feed (.bind i _ b)
  | runFeed t left task words user left' hpc hrun hpass => exact h.feed (passOf_shaped hpass)
  | fence t => exact h.feed (.fence t)
  | account t caller =>
    refine h.note ?_
    cases caller <;> rfl

theorem streamShaped_probed : StreamShaped probed.trace := by
  intro f hf
  have hstream : probed.trace.filterMap Event.fed? =
      (List.finRange 16).map fun i => ⟨unbindCmd i, .probe⟩ := rfl
  rw [hstream] at hf
  obtain ⟨i, -, rfl⟩ := List.mem_map.mp hf
  exact .probe i

theorem shaped_reachable (h : Reachable s) {f : Fed} (hf : f ∈ s.stream) : f.Shaped := by
  have hI : StreamShaped s.trace :=
    Machine.Reachable.invariant (I := fun s => StreamShaped s.trace) streamShaped_probed
      (fun _ _ _ hI hs => hI.step (Step.of_step hs)) h
  exact hI f hf

/-! ## Reading the fields -/

/-- The command type is the lowest field. -/
theorem type_eq (w : Word) : w &&& cmdTypeMask = (Bits.field 0 4 w).setWidth 32 :=
  Bits.and_lowMask w 4

theorem field_slotWord (i : Slot) : Bits.field 0 4 (slotWord i) = BitVec.ofFin i := by
  revert i
  decide

theorem slotField_unbind (i : Slot) : slotField 4 (userCmdUnbindSlotHeader (slotWord i)) = i := by
  revert i
  decide

theorem slotField_bind (i : Slot) (seed : BitVec 64) :
    slotField 4 (userCmdBindSlotHeader (BitVec.ofNat 64 i) seed) = i := by
  have hfield : Bits.field 4 4 (userCmdBindSlotHeader (BitVec.ofNat 64 i) seed) =
      BitVec.ofFin i := by
    unfold userCmdBindSlotHeader
    rw [Bits.field_setWidth _ (by decide), Bits.field_or, Bits.field_or,
      Bits.field_shiftLeft _ (by decide), Bits.field_shiftLeft_of_le _ (by decide)]
    revert i
    decide
  unfold slotField
  rw [hfield]

theorem seedField_bind (i : Slot) (seed : BitVec 64) :
    Bits.field 12 20 (userCmdBindSlotHeader (BitVec.ofNat 64 i) seed) = seed.setWidth 20 := by
  have hlow : ∀ i : Slot, Bits.field 12 20
      (userCmdTypeBindSlot.setWidth 64 ||| BitVec.ofNat 64 i <<< 4) = 0#20 := by decide
  unfold userCmdBindSlotHeader
  rw [Bits.field_setWidth _ (by decide), Bits.field_or, hlow i, BitVec.zero_or,
    Bits.field_shiftLeft _ (by decide)]
  rfl

theorem type_unbind (i : Slot) :
    userCmdUnbindSlotHeader (slotWord i) &&& cmdTypeMask = userCmdTypeUnbindSlot := by
  revert i
  decide

theorem type_bind (i : Slot) (seed : BitVec 64) :
    userCmdBindSlotHeader (BitVec.ofNat 64 i) seed &&& cmdTypeMask = userCmdTypeBindSlot := by
  rw [type_eq]
  unfold userCmdBindSlotHeader
  rw [Bits.field_setWidth _ (by decide), Bits.field_or, Bits.field_or,
    Bits.field_shiftLeft_of_le _ (by decide), Bits.field_shiftLeft_of_le _ (by decide)]
  decide

/-- Putting a slot into a user word does not change the type of the command. -/
theorem type_or_shiftLeft (user x : Word) {d : Nat} (hd : 4 ≤ d) :
    (user ||| x <<< d) &&& cmdTypeMask = user &&& cmdTypeMask := by
  rw [type_eq, type_eq, Bits.field_or, Bits.field_shiftLeft_of_le _ (by omega), BitVec.or_zero]

/-- The command types that a part of the driver feeds. -/
def Origin.Feeds (w : Word) : Origin → Prop
  | .probe => w = userCmdTypeUnbindSlot
  | .bind _ => w = userCmdTypeBindSlot
  | .unbind _ => w = userCmdTypeUnbindSlot
  | .task _ _ _ => w = userCmdTypeGetDie ∨ w = userCmdTypeNewSet
  | .fence _ => w = userCmdTypeFence

theorem Fed.Shaped.feeds {f : Fed} (h : f.Shaped) : f.origin.Feeds f.type := by
  cases h with
  | probe i => exact type_unbind i
  | bind i buf b => exact type_bind i buf.seed
  | unbind i b => exact type_unbind i
  | getDie t user cmd1 slot hdie =>
    exact Or.inl ((type_or_shiftLeft user _ (by decide)).trans hdie)
  | newSet t user slot hset => exact Or.inr ((type_or_shiftLeft user _ (by decide)).trans hset)
  | fence t =>
    exact (by decide : userCmdFenceHeader taskFenceVal &&& cmdTypeMask = userCmdTypeFence)

end Dicedev
