import Dicedev.Slots

/-!
# Isolation of the slots

`__wt_run_task` tests a user word against a slot mask and then puts the slot of the output
buffer into the slot field with an `or`. The masks cover three of the four bits of the field,
so the lowest bit of the field comes from the user as well. `slot_isolation_iff` says for
which words the field is right, and that exactly then the device acts on the buffer of the
task; `slot_isolation_fails` is a run in which a context rolls the dice of another one.
-/

namespace Dicedev

open State

/-- Where the slot field of a command of a task begins. -/
def Fed.slotPos (f : Fed) : Nat := if f.type = userCmdTypeGetDie then 24 else 4

/-- The slot that the device reads from a command of a task. -/
def Fed.slot (f : Fed) : Slot := slotField f.slotPos f.header

/-! ## One command -/

/-- A slot put into a field whose upper bits are clear: the lowest bit decides. -/
theorem slotField_put (user : Word) (i : Slot) {k : Nat} (hk : k + 4 ≤ 32)
    (hclear : ∀ j, 0 < j → j < 4 → user.getLsbD (k + j) = false) :
    slotField k (user ||| slotWord i <<< k) = i ↔ user.getLsbD k = false ∨ i.val % 2 = 1 := by
  have hfield : Bits.field k 4 (user ||| slotWord i <<< k) =
      (BitVec.ofBool (user.getLsbD k)).setWidth 4 ||| BitVec.ofFin i := by
    rw [Bits.field_or, Bits.field_shiftLeft _ hk, Bits.field_eq_ofBool _ hclear, field_slotWord]
  have hbit : ∀ (bit : Bool) (i : Slot),
      ((BitVec.ofBool bit).setWidth 4 ||| BitVec.ofFin i).toFin = i ↔
        bit = false ∨ i.val % 2 = 1 := by decide
  unfold slotField
  rw [hfield]
  exact hbit _ i

theorem getDieSlotMask_clear {user : Word} (h : user &&& getDieSlotMask = 0) :
    ∀ j, 0 < j → j < 4 → user.getLsbD (24 + j) = false := by
  have hmask : ∀ j < 4, 0 < j → getDieSlotMask.getLsbD (24 + j) = true := by decide
  intro j hpos hlt
  exact Bits.getLsbD_of_and_eq_zero h (hmask j hlt hpos)

theorem newSetSlotMask_clear {user : Word} (h : user &&& newSetSlotMask = 0) :
    ∀ j, 0 < j → j < 4 → user.getLsbD (4 + j) = false := by
  have hmask : ∀ j < 4, 0 < j → newSetSlotMask.getLsbD (4 + j) = true := by decide
  intro j hpos hlt
  exact Bits.getLsbD_of_and_eq_zero h (hmask j hlt hpos)

/-- A command whose header has a slot put into its slot field. -/
theorem slot_iff_of_put {f : Fed} {user : Word} {slot : Option Slot} {k : Nat}
    (hpos : f.slotPos = k) (hheader : f.header = user ||| bindedSlotWord slot <<< k)
    (hk : k + 4 ≤ 32) (hclear : ∀ j, 0 < j → j < 4 → user.getLsbD (k + j) = false) :
    slot = some f.slot ↔
      ∃ i, slot = some i ∧ (user.getLsbD f.slotPos = false ∨ i.val % 2 = 1) := by
  unfold Fed.slot
  rw [hpos, hheader]
  cases slot with
  | none => simp
  | some i =>
    rw [Option.some.injEq, eq_comm, bindedSlotWord, slotField_put user i hk hclear]
    simp

/-- The slot field of a command of a task is the slot of its buffer exactly if the buffer is
bound and the user's lowest slot bit does no harm. -/
theorem Fed.Shaped.slot_iff {words : List Word} {t : TaskId} {user : Word} {slot : Option Slot}
    (h : Fed.Shaped ⟨words, .task t user slot⟩) :
    slot = some (Fed.slot ⟨words, .task t user slot⟩) ↔
      ∃ i, slot = some i ∧
        (user.getLsbD (Fed.slotPos ⟨words, .task t user slot⟩) = false ∨ i.val % 2 = 1) := by
  cases h with
  | getDie _ _ cmd1 _ htype hmask =>
    have hty : Fed.type ⟨[user ||| bindedSlotWord slot <<< 24, cmd1], .task t user slot⟩ =
        userCmdTypeGetDie := (type_or_shiftLeft user _ (by decide)).trans htype
    exact slot_iff_of_put (if_pos hty) rfl (by decide) (getDieSlotMask_clear hmask)
  | newSet _ _ _ htype hmask =>
    have hty : Fed.type ⟨[user ||| bindedSlotWord slot <<< 4], .task t user slot⟩ =
        userCmdTypeNewSet := (type_or_shiftLeft user _ (by decide)).trans htype
    exact slot_iff_of_put (if_neg (by rw [hty]; decide)) rfl (by decide)
      (newSetSlotMask_clear hmask)

/-! ## The device's table at the time of a command -/

/-- The slot recorded with a command of a task is where the device has the output buffer of
the task at that time. -/
def Recorded (trace : List Event) (nTask : Nat) (out : TaskId → BufId) : Prop :=
  ∀ pre f post t user slot, trace.filterMap Event.fed? = pre ++ f :: post →
    f.origin = .task t user slot →
    t < nTask ∧ ∀ j, SlotTable.replay (fun _ => none) (pre.filterMap Fed.slotCmd?) j =
      some (out t) ↔ slot = some j

namespace Recorded

variable {trace : List Event} {nTask : Nat} {out : TaskId → BufId}

theorem note (h : Recorded trace nTask out) {e : Event} (he : e.fed? = none) :
    Recorded (trace ++ [e]) nTask out := by
  unfold Recorded
  rw [filterMap_log_none he]
  exact h

theorem feed (h : Recorded trace nTask out) {f : Fed}
    (hf : ∀ t user slot, f.origin = .task t user slot → t < nTask ∧
      ∀ j, SlotTable.replay (fun _ => none)
        ((trace.filterMap Event.fed?).filterMap Fed.slotCmd?) j = some (out t) ↔ slot = some j) :
    Recorded (trace ++ [.feed f]) nTask out := by
  intro pre g post t user slot hsplit hg
  have hstream : (trace ++ [Event.feed f]).filterMap Event.fed? =
      trace.filterMap Event.fed? ++ [f] := filterMap_log_some rfl
  rw [hstream] at hsplit
  rcases Blocks.split_append hsplit with ⟨rfl, rfl, -⟩ | ⟨post', -, hold⟩
  · exact hf t user slot hg
  · exact h pre g post' t user slot hold hg

/-- A command that is not one of a task. -/
theorem feed_other (h : Recorded trace nTask out) {f : Fed} (hf : f.task? = none) :
    Recorded (trace ++ [.feed f]) nTask out := by
  refine h.feed ?_
  intro t user slot ho
  rw [Fed.task?, ho] at hf
  cases hf

theorem unbound {s : State} (h : Recorded s.trace nTask out) (b : BufId) :
    Recorded (s.unbound b).trace nTask out := by
  rcases trace_unbound s b with ht | ⟨i, -, ht⟩
  · rw [ht]
    exact h
  · rw [ht]
    exact h.feed_other rfl

theorem of_out (h : Recorded trace nTask out) {out' : TaskId → BufId} (heq : out' = out) :
    Recorded trace nTask out' := by
  rw [heq]
  exact h

/-- A new task has no commands in the stream. -/
theorem addTask (h : Recorded trace nTask out) (b : BufId) :
    Recorded trace (nTask + 1) (Function.update out nTask b) := by
  intro pre f post t user slot hsplit ho
  obtain ⟨hlt, hj⟩ := h pre f post t user slot hsplit ho
  rw [Function.update_of_ne (Nat.ne_of_lt hlt)]
  exact ⟨Nat.lt_succ_of_lt hlt, hj⟩

end Recorded

variable {s s' : State} {l : Label}

theorem Recorded.queued (h : Recorded s.trace s.nTask s.out) (k : CallId) (task : Task) :
    Recorded (s.queued k task).trace (s.queued k task).nTask (s.queued k task).out :=
  ((h.addTask task.buffOut).of_out (Function.comp_update _ _ _ _)).note rfl

theorem Recorded.step (hr : Reachable s) (h : Recorded s.trace s.nTask s.out)
    (hs : Step s l s') : Recorded s'.trace s'.nTask s'.out := by
  cases hs with
  | openCtx | createSetRefused | createSet | runRefused | run | runCount | wait | waitLeave
  | releaseMark | releaseWait | releaseFree | writeRefused | write | writeFail | readNone
  | read | seed | dup | close | store | isrOff | isr | isrFence | slotError | suspend | resume
  | remove | head | polled | sleep | again | park | drop | getNext | taskFinish | runDone
  | destroyKeep | finishing | shutdown | halt => exact h
  | runQueue k => exact h.queued k _
  | writeQueue k => exact h.queued k _
  | waitReturn | fenceInterrupt | errorInterrupt => exact h.note rfl
  | releaseBuffer c b rest => exact (h.unbound b).note rfl
  | bufferRelease b => exact h.unbound b
  | destroyUnbind t c b => exact h.unbound b
  | bindSlot | fence => exact h.feed_other rfl
  | taskRun t => exact (h.note rfl).of_out (congrArg (TaskSig.buffOut ∘ ·) (sig_initIt s t))
  | runSkip t left task left' hpc hrun hpass =>
    exact h.of_out (congrArg (TaskSig.buffOut ∘ ·) (sig_pass hpass))
  | runReject t left task hpc hrun hpass =>
    exact (h.note rfl).of_out (congrArg (TaskSig.buffOut ∘ ·) (sig_pass hpass))
  | runFeed t left task words user left' hpc hrun hpass =>
    have hout : task.buffOut = s.out t := congrArg TaskSig.buffOut (passOf_sig hpass)
    have hslots := slots_reachable hr
    refine (h.feed ?_).of_out (congrArg (TaskSig.buffOut ∘ ·) (sig_pass hpass))
    intro u user' slot ho
    cases ho
    refine ⟨running_lt hr hrun, ?_⟩
    intro j
    rw [show SlotTable.replay (fun _ => none)
      ((s.trace.filterMap Event.fed?).filterMap Fed.slotCmd?) = s.buffSlots from
      hslots.replay _, hout]
    exact hslots.1.agrees.mutual_iff j (s.out t)
  | account t caller c b =>
    refine (h.note ?_).of_out (comp_update_of_eq (g := TaskSig.buffOut ∘ Task.sig) rfl)
    cases caller <;> rfl

theorem recorded_probed : Recorded probed.trace probed.nTask probed.out := by
  have hnone : ∀ f ∈ probed.trace.filterMap Event.fed?, f.task? = none := by decide
  intro pre f post t user slot hsplit ho
  have hf := hnone f (by rw [hsplit]; simp)
  rw [Fed.task?, ho] at hf
  cases hf

theorem recorded_reachable (h : Reachable s) : Recorded s.trace s.nTask s.out :=
  Machine.Reachable.invariant_of (I := fun s => Recorded s.trace s.nTask s.out)
    (fun _ hr => hr) recorded_probed
    (fun _ _ _ hr hI hs => Recorded.step hr hI (Step.of_step hs)) h

/-! ## The contract -/

/-- Every command of a task carries the slot of the output buffer exactly if this buffer is
bound when the command is fed and the lowest slot bit of the user's word is clear or the slot
is odd; and exactly then the device, with the table it has at that time, acts on this
buffer. -/
theorem slot_isolation_iff (h : Reachable s) {pre post : List Fed} {f : Fed} {t : TaskId}
    {user : Word} {slot : Option Slot} (hf : s.stream = pre ++ f :: post)
    (ho : f.origin = .task t user slot) :
    (slot = some f.slot ↔
      ∃ i, slot = some i ∧ (user.getLsbD f.slotPos = false ∨ i.val % 2 = 1)) ∧
    (SlotTable.replay (fun _ => none) (pre.filterMap Fed.slotCmd?) f.slot =
        some (s.tasks t).buffOut ↔
      ∃ i, slot = some i ∧ (user.getLsbD f.slotPos = false ∨ i.val % 2 = 1)) := by
  have hshaped : f.Shaped := shaped_reachable h (by rw [hf]; simp)
  obtain ⟨words, o⟩ := f
  cases ho
  have hslot := hshaped.slot_iff
  refine ⟨hslot, ?_⟩
  rw [← hslot]
  exact (recorded_reachable h pre _ post t user slot hf rfl).2 _

/-- The words of a `GET_DIE` for one die with 20 sides. -/
def getDieWords (header : Word) : Nat → Word := fun i => if i = 0 then header else 0x20

/-- A context whose buffer is in slot 0 rolls a die. -/
def ownDice : List Label := openOne ++ writeCall 0 0 8 (getDieWords 0x12) ++ workerSteps 10

theorem slot_isolation_iff_ownDice :
    ∃ s f, system.exec probed ownDice = some s ∧ s.stream = s.stream.dropLast ++ [f] ∧
      f.origin = .task 0 0x12 (some 0) ∧ some 0 = some f.slot ∧
      SlotTable.replay (fun _ => none) (s.stream.dropLast.filterMap Fed.slotCmd?) f.slot =
        some (s.tasks 0).buffOut := by
  have hseen : seenAfter ownDice (fun s => s.stream.getLast?) =
      some (some ⟨[0x12, 0x20], .task 0 0x12 (some 0)⟩) := by decide
  obtain ⟨s, hs, hr, hlast⟩ := exists_seenAfter hseen
  have hf := (List.dropLast_append_getLast? _ hlast).symm
  have hcond : ∃ i : Slot, some 0 = some i ∧
      ((0x12 : Word).getLsbD (Fed.slotPos ⟨[0x12, 0x20], .task 0 0x12 (some 0)⟩) = false ∨
        i.val % 2 = 1) := ⟨0, rfl, by decide⟩
  obtain ⟨hfield, hacts⟩ := slot_isolation_iff hr hf rfl
  exact ⟨s, _, hs, hf, rfl, hfield.mpr hcond, hacts.mpr hcond⟩

/-- Two contexts have one buffer each, in the slots 0 and 1. The first one sends a `GET_DIE`
with bit 24 set. -/
def otherDice : List Label :=
  openOne ++ [.openCtx 8, .createSet 1 4096 0x20 0x2000] ++
    writeCall 0 0 0 (fun _ => 0) ++ startEmpty ++ finishTask ++
    writeCall 1 1 0 (fun _ => 0) ++ startEmpty ++ finishTask ++
    writeCall 0 2 8 (getDieWords 0x01000012) ++ workerSteps 7

/-- The command of the first context is fed with the slot of the second one. -/
theorem slot_isolation_fails :
    ∃ s f, system.exec probed otherDice = some s ∧ s.stream.getLast? = some f ∧
      f.origin = .task 2 0x01000012 (some 0) ∧ f.slot = 1 ∧
      (s.tasks 2).ctx = 0 ∧ (s.tasks 2).buffOut = 0 ∧ (s.bufs 0).bindedSlot = some 0 ∧
      s.buffSlots 1 = some 1 ∧ (s.bufs 1).ctx = 1 := by
  have hseen : seenAfter otherDice (fun s => (s.stream.getLast?, s.sig 2,
      (s.bufs 0).bindedSlot, s.buffSlots 1, (s.bufs 1).ctx)) =
      some (some ⟨[0x01000012, 0x20], .task 2 0x01000012 (some 0)⟩, ⟨0, 0, none, false⟩, some 0,
        some 1, 1) := by
    decide +kernel
  obtain ⟨s, hs, -, hf⟩ := exists_seenAfter hseen
  simp only [Prod.mk.injEq] at hf
  obtain ⟨hlast, hsig, hrest⟩ := hf
  exact ⟨s, _, hs, hlast, rfl, by decide, congrArg TaskSig.ctx hsig,
    congrArg TaskSig.buffOut hsig, hrest⟩

end Dicedev
