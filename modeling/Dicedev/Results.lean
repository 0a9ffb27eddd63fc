import Dicedev.Lib.Packed
import Dicedev.Readers

/-!
# Counting results

For a `GET_DIE` with the number `num` and a mask of dice the device produces a result for each
die of the mask, `num` times over. `__wt_run_task` adds the masked header itself to
`result_count`: the number without its lowest bit, and still shifted by four.
`counted_reachable` is what the counter of a task holds in every state, and
`result_accounting_iff` says when it is the number of results. `__task_destroy` adds the
counter to the reader of the buffer as it is.

The loop also multiplies the masked header by the number of dice, into a local that is not read
again. `numbers_of_bits_set` does count the bits, `toNat_numbersOfBitsSet`, but the product is
as far off, `resCount_eq_produced_iff`.
-/

namespace Dicedev

open State

/-! ## The commands of a task -/

/-- The number in the header of a `GET_DIE`. -/
def Fed.num (f : Fed) : Nat := (Bits.field 4 16 f.header).toNat

/-- The dice of a `GET_DIE`. -/
def Fed.mask (f : Fed) : Word := f.words.getD 1 0

/-- The results that the device produces for a command. -/
def Fed.produced (f : Fed) : Nat :=
  if f.type = userCmdTypeGetDie then f.num * f.mask.cpop.toNat else 0

/-- What `__wt_run_task` counts for it: the number without its lowest bit, shifted by four. -/
def Fed.counted (f : Fed) : Nat :=
  if f.type = userCmdTypeGetDie then 16 * (f.num / 2 * 2) else 0

/-- The command of task `t` in an entry of the trace. -/
def Event.fedFor? (t : TaskId) : Event → Option Fed
  | .feed f => if f.task? = some t then some f else none
  | _ => none

namespace State

/-- The commands fed for task `t`. -/
def fedFor (s : State) (t : TaskId) : List Fed := s.trace.filterMap (Event.fedFor? t)

/-- The results that the device produces for task `t`. -/
def produced (s : State) (t : TaskId) : Nat := ((s.fedFor t).map Fed.produced).sum

/-- What is counted for task `t`. -/
def counted (s : State) (t : TaskId) : Nat := ((s.fedFor t).map Fed.counted).sum

end State

/-- `task->result_count += cmd[0] & GET_DIE_NUM_MASK`. -/
theorem and_getDieNumMask (w : Word) :
    (w &&& getDieNumMask).toNat = 16 * ((Bits.field 4 16 w).toNat / 2 * 2) := by
  have hmask : ∀ i < 32, getDieNumMask.getLsbD i = (decide (5 ≤ i) && decide (i < 5 + 15)) := by
    decide
  rw [Bits.and_fieldMask w hmask, BitVec.toNat_shiftLeft, BitVec.toNat_setWidth,
    Bits.toNat_field, Bits.toNat_field, Nat.shiftLeft_eq]
  omega

/-- The slot is put in above the number. -/
theorem num_or_shiftLeft (user x : Word) :
    Bits.field 4 16 (user ||| x <<< 24) = Bits.field 4 16 user := by
  rw [Bits.field_or, Bits.field_shiftLeft_of_le _ (by decide), BitVec.or_zero]

theorem counted_getDie {user m slot : Word} {origin : Origin}
    (h : user &&& cmdTypeMask = userCmdTypeGetDie) :
    Fed.counted ⟨[user ||| slot <<< 24, m], origin⟩ = (user &&& getDieNumMask).toNat := by
  have htype : Fed.type ⟨[user ||| slot <<< 24, m], origin⟩ = userCmdTypeGetDie :=
    (type_or_shiftLeft user slot (by decide)).trans h
  rw [Fed.counted, if_pos htype, and_getDieNumMask, ← num_or_shiftLeft user slot]
  rfl

theorem counted_newSet {user slot : Word} {origin : Origin}
    (h : user &&& cmdTypeMask = userCmdTypeNewSet) :
    Fed.counted ⟨[user ||| slot <<< 4], origin⟩ = 0 := by
  have htype : Fed.type ⟨[user ||| slot <<< 4], origin⟩ = userCmdTypeNewSet :=
    (type_or_shiftLeft user slot (by decide)).trans h
  rw [Fed.counted, htype]
  exact if_neg (by decide)

variable {s s' : State} {l : Label}

/-- A pass that feeds a command counts it. -/
theorem passOf_counted {t : TaskId} {left left' : Nat} {task : Task} {words : List Word}
    {user : Word} (origin : Origin) (h : s.passOf t left = .ok (task, .fed words user left')) :
    task.resultCount = (s.tasks t).resultCount + Fed.counted ⟨words, origin⟩ := by
  cases passOf_case h with
  | getDie _ m _ hdie _ _ _ hcount => rw [hcount, counted_getDie hdie]
  | newSet _ _ hset _ _ hcount => rw [hcount, counted_newSet hset, Nat.add_zero]

/-- A pass that feeds nothing counts nothing. -/
theorem passOf_uncounted {t : TaskId} {left : Nat} {task : Task} {pass : Pass}
    (h : s.passOf t left = .ok (task, pass))
    (hfed : ∀ words user left', pass ≠ .fed words user left') :
    task.resultCount = (s.tasks t).resultCount := by
  cases passOf_case h with
  | skip _ _ hcount | reject _ _ hcount => exact hcount
  | getDie | newSet => exact absurd rfl (hfed _ _ _)

/-! ## What the counter of a task holds -/

/-- The counter of a task is what has been counted for its commands, and a task that has not
been queued yet has none. -/
structure Counted (s : State) : Prop where
  count : ∀ t, (s.tasks t).resultCount = s.counted t
  fresh : ∀ t, s.nTask ≤ t → (s.tasks t).resultCount = 0

namespace Counted

theorem of_same (h : Counted s) (htasks : ∀ t, (s'.tasks t).resultCount = (s.tasks t).resultCount)
    (hfed : ∀ t, s'.fedFor t = s.fedFor t) (hn : s.nTask ≤ s'.nTask) : Counted s' := by
  refine ⟨fun t => ?_, fun t ht => (htasks t).trans (h.fresh t (hn.trans ht))⟩
  rw [htasks, h.count, State.counted, State.counted, hfed]

theorem queued (h : Counted s) (k : CallId) {task : Task} (htask : task.resultCount = 0) :
    Counted (s.queued k task) := by
  refine h.of_same (fun t => ?_) (fun t => filterMap_log_none rfl) (Nat.le_succ _)
  exact update_field Task.resultCount (htask.trans (h.fresh _ (Nat.le_refl _)).symm) t

theorem feed (h : Counted s) {t : TaskId} (ht : t < s.nTask) {left left' : Nat} {task : Task}
    {words : List Word} {user : Word} {slot : Option Slot}
    (hpass : s.passOf t left = .ok (task, .fed words user left')) :
    Counted { s with
      tasks := Function.update s.tasks t task
      pc := .running left'
      trace := s.trace ++ [.feed ⟨words, .task t user slot⟩] } := by
  have hcount := passOf_counted (.task t user slot) hpass
  refine ⟨fun u => ?_, fun u hu => ?_⟩
  · by_cases hu : u = t
    · subst hu
      simp only [State.counted, State.fedFor, Function.update_self]
      rw [filterMap_log_some (x := ⟨words, .task u user slot⟩) (if_pos rfl), List.map_append,
        List.sum_append, hcount, h.count]
      rfl
    · simp only [State.counted, State.fedFor, Function.update_of_ne hu]
      rw [filterMap_log_none (if_neg fun he => hu (Option.some_inj.mp he).symm)]
      exact h.count u
  · have hne : u ≠ t := Nat.ne_of_gt (Nat.lt_of_lt_of_le ht hu)
    simp only [Function.update_of_ne hne]
    exact h.fresh u hu

theorem step (hr : Reachable s) (h : Counted s) (hs : Step s l s') : Counted s' := by
  have hunbound : ∀ b t, (s.unbound b).trace.filterMap (Event.fedFor? t) = s.fedFor t :=
    fun b t => filterMap_unbound (fun _ _ => rfl) s b
  cases hs with
  | openCtx | createSetRefused | createSet | runRefused | run | runCount | wait | waitLeave
  | releaseMark | releaseWait | releaseFree | writeRefused | write | writeFail | readNone
  | read | seed | dup | close | store | isrOff | isr | isrFence | slotError | suspend | resume
  | remove | head | polled | sleep | again | park | drop | getNext | taskFinish | runDone
  | destroyKeep | finishing | shutdown | halt =>
    exact h.of_same (fun _ => rfl) (fun _ => rfl) (Nat.le_refl _)
  | waitReturn | fenceInterrupt | errorInterrupt | bindSlot | fence =>
    exact h.of_same (fun _ => rfl) (fun _ => filterMap_log_none rfl) (Nat.le_refl _)
  | bufferRelease b | destroyUnbind t c b =>
    exact h.of_same (fun _ => rfl) (hunbound b) (Nat.le_refl _)
  | releaseBuffer c b =>
    exact h.of_same (fun _ => rfl) (fun t => (filterMap_log_none rfl).trans (hunbound b t))
      (Nat.le_refl _)
  | runQueue k | writeQueue k => exact h.queued k rfl
  | taskRun t =>
    exact h.of_same (update_field Task.resultCount (taskInitIt_resultCount _))
      (fun _ => filterMap_log_none rfl) (Nat.le_refl _)
  | runSkip t left task left' hpc hrun hpass =>
    exact h.of_same (update_field Task.resultCount (passOf_uncounted hpass (by simp)))
      (fun _ => rfl) (Nat.le_refl _)
  | runReject t left task hpc hrun hpass =>
    exact h.of_same (update_field Task.resultCount (passOf_uncounted hpass (by simp)))
      (fun _ => filterMap_log_none rfl) (Nat.le_refl _)
  | runFeed t left task words user left' hpc hrun hpass => exact h.feed (running_lt hr hrun) hpass
  | account t caller =>
    refine h.of_same (update_field Task.resultCount rfl) (fun u => ?_) (Nat.le_refl _)
    refine filterMap_log_none ?_
    cases caller <;> rfl

end Counted

theorem counted_reachable (h : Reachable s) : Counted s :=
  Machine.Reachable.invariant_of (fun _ hr => hr) ⟨fun _ => rfl, fun _ _ => rfl⟩
    (fun _ _ _ hr hI hs => hI.step hr (Step.of_step hs)) h

/-! ## When it is the number of results -/

/-- The results of task `t` are accounted for: its counter is the number of results that the
device produces for its commands, and when `__task_destroy` comes to its second critical section
it adds this number to the reader of the buffer. -/
structure ResultsAccounted (s : State) (t : TaskId) : Prop where
  count : (s.tasks t).resultCount = s.produced t
  added : ∀ caller s', s.pc = .account t caller → system.step s .worker = some s' →
    (s'.bufs (s.tasks t).buffOut).reader.resultCount =
      (s.bufs (s.tasks t).buffOut).reader.resultCount + s.produced t

/-- `__task_destroy` adds the counter of the task to the reader of its buffer. -/
theorem reader_account {t : TaskId} {caller : Caller} (hpc : s.pc = .account t caller)
    (hs : system.step s .worker = some s') :
    (s'.bufs (s.tasks t).buffOut).reader.resultCount =
      (s.bufs (s.tasks t).buffOut).reader.resultCount + (s.tasks t).resultCount := by
  change (if s.bug = none then s.wtStep.map s.orHalt else none) = some s' at hs
  split at hs
  · simp only [wtStep, hpc, Option.map_some, Option.some.injEq] at hs
    subst hs
    simp [orHalt, taskDestroyCount, updBuf, updCtx, updTask, State.log]
  · cases hs

/-- The results of a task are accounted for exactly if the numbers of its `GET_DIE` commands,
each without its lowest bit and multiplied by sixteen, add up to the number of results. -/
theorem result_accounting_iff (h : Reachable s) (t : TaskId) :
    ResultsAccounted s t ↔ s.counted t = s.produced t := by
  have hcount := (counted_reachable h).count t
  constructor
  · intro hacc
    rw [← hcount]
    exact hacc.count
  · intro heq
    refine ⟨hcount.trans heq, fun caller s' hpc hs => ?_⟩
    rw [reader_account hpc hs, hcount, heq]

/-- The words of a `GET_DIE` of two rolls of sixteen dice. -/
def sixteenDice : Nat → Word := fun i => if i = 0 then 0x22 else 0xFFFF

/-- Both numbers are 32 for two rolls of sixteen dice. -/
theorem result_accounting_iff_sixteenDice :
    ∃ s, Reachable s ∧ s.produced 0 = 32 ∧ s.pc = .account 0 .finish ∧ ResultsAccounted s 0 := by
  have hseen : seenAfter ([.openCtx 7, .createSet 0 4096 0xFFFF 0x1000] ++
      writeCall 0 0 8 sixteenDice ++ workerSteps 12 ++ [.fenceInterrupt, .isr] ++ workerSteps 3)
      (fun s => (s.pc, s.produced 0, s.counted 0)) = some (.account 0 .finish, 32, 32) := by
    decide +kernel
  obtain ⟨s, -, hr, hf⟩ := exists_seenAfter hseen
  simp only [Prod.mk.injEq] at hf
  obtain ⟨hpc, hproduced, hcounted⟩ := hf
  exact ⟨s, hr, hproduced, hpc, (result_accounting_iff hr 0).mpr (hcounted.trans hproduced.symm)⟩

/-- For two rolls of one die the device produces two results, and 32 are counted and added to
the reader. -/
theorem twoDice_miscounted :
    ∃ s, system.exec probed diceWritten = some s ∧ s.produced 0 = 2 ∧
      (s.tasks 0).resultCount = 32 ∧ (s.bufs 0).reader = ⟨32, 0⟩ ∧ ¬ ResultsAccounted s 0 := by
  have hseen : seenAfter diceWritten (fun s =>
      (s.produced 0, (s.tasks 0).resultCount, (s.bufs 0).reader)) = some (2, 32, ⟨32, 0⟩) := by
    decide +kernel
  obtain ⟨s, hs, -, hf⟩ := exists_seenAfter hseen
  simp only [Prod.mk.injEq] at hf
  obtain ⟨hproduced, hcount, hreader⟩ := hf
  refine ⟨s, hs, hproduced, hcount, hreader, fun hacc => ?_⟩
  have heq := hacc.count
  rw [hcount, hproduced] at heq
  cases heq

/-! ## The product that is dropped -/

section

open Packed

/-- `numbers_of_bits_set`. -/
def numbersOfBitsSet (i : Word) : Word :=
  let i := i - ((i >>> 1) &&& 0x55555555)
  let i := (i &&& 0x33333333) + ((i >>> 2) &&& 0x33333333)
  let i := (i + (i >>> 4)) &&& 0x0F0F0F0F
  (i * 0x01010101) >>> 24

theorem sum_bits_succ (n x : Nat) :
    (bits (n + 1) x).sum = (bits n x).sum + (x.testBit n).toNat := by
  rw [bits, List.range_succ, List.map_append, List.sum_append, List.map_singleton,
    List.sum_singleton]
  rfl

theorem cpop_eq_sum (w : Word) : w.cpop.toNat = (bits 32 w.toNat).sum := by
  have hrec : ∀ n acc, w.cpopNatRec n acc = (bits n w.toNat).sum + acc := by
    intro n
    induction n with
    | zero => exact fun acc => (Nat.zero_add acc).symm
    | succ n ih =>
      intro acc
      have hbit : w.getLsbD n = w.toNat.testBit n := rfl
      rw [BitVec.cpopNatRec_succ, ih, sum_bits_succ, hbit]
      omega
  rw [BitVec.toNat_cpop, hrec, Nat.add_zero]

/-- The last step adds up four bytes. -/
theorem mul_shift_sum {x : Word} {ds : List Nat} (h : Fields 8 4 8 ds x.toNat) :
    ((x * 0x01010101) >>> 24).toNat = ds.sum := by
  obtain ⟨hvalue, hlen, hle⟩ := h
  match ds, hlen with
  | [a, b, c, d], _ =>
    simp only [List.mem_cons, List.not_mem_nil, or_false, forall_eq_or_imp, forall_eq] at hle
    have hmul : x.toNat * 0x01010101 =
        a + 2 ^ 8 * (a + b) + 2 ^ 16 * (a + b + c) + 2 ^ 24 * (a + b + c + d) +
          2 ^ 32 * (b + c + d + 2 ^ 8 * (c + d) + 2 ^ 16 * d) := by
      rw [hvalue]
      simp only [Nat.ofDigits_cons, Nat.ofDigits_nil]
      ring
    have hlow : a + 2 ^ 8 * (a + b) + 2 ^ 16 * (a + b + c) + 2 ^ 24 * (a + b + c + d) < 2 ^ 32 := by
      omega
    have hprod : (x * 0x01010101).toNat =
        a + 2 ^ 8 * (a + b) + 2 ^ 16 * (a + b + c) + 2 ^ 24 * (a + b + c + d) := by
      have hones : (0x01010101 : Word).toNat = 0x01010101 := by decide
      rw [BitVec.toNat_mul, hones, hmul, Nat.add_mul_mod_self_left, Nat.mod_eq_of_lt hlow]
    rw [BitVec.toNat_ushiftRight, Nat.shiftRight_eq_div_pow, hprod]
    simp only [List.sum_cons, List.sum_nil]
    omega

theorem toNat_numbersOfBitsSet (w : Word) : (numbersOfBitsSet w).toNat = w.cpop.toNat := by
  have hmask₁ : (0x55555555 : Word).toNat = lowMask 1 16 := by decide +kernel
  have hmask₂ : (0x33333333 : Word).toNat = lowMask 2 8 := by decide +kernel
  have hmask₃ : (0x0F0F0F0F : Word).toNat = lowMask 4 4 := by decide +kernel
  unfold numbersOfBitsSet
  dsimp only
  -- pairs of bits
  have hbits := Fields.of_lt w.isLt
  have h₁ := hbits.sub_halves (n := 16)
  have hle : (w >>> 1) &&& 0x55555555 ≤ w := by
    rw [BitVec.le_def, BitVec.toNat_and, BitVec.toNat_ushiftRight]
    exact Nat.and_le_left.trans (Nat.shiftRight_le _ _)
  rw [← hmask₁, ← BitVec.toNat_ushiftRight, ← BitVec.toNat_and, ← BitVec.toNat_sub_of_le hle] at h₁
  generalize w - ((w >>> 1) &&& 0x55555555) = i at h₁ ⊢
  -- groups of four
  have h₂ := h₁.add_halves (n := 8) (by decide)
  have hlt := h₂.lt (by decide) (by decide)
  rw [← hmask₂, ← BitVec.toNat_ushiftRight, ← BitVec.toNat_and, ← BitVec.toNat_and] at h₂ hlt
  rw [← BitVec.toNat_add_of_lt hlt] at h₂
  generalize (i &&& 0x33333333) + ((i >>> 2) &&& 0x33333333) = j at h₂ ⊢
  -- groups of eight
  have h₃ := h₂.add_then_mask (n := 4) (by decide)
  have hsum := h₂.add_shift_lt (by decide) (by decide)
  rw [← BitVec.toNat_ushiftRight] at h₃ hsum
  rw [← hmask₃, ← BitVec.toNat_add_of_lt hsum, ← BitVec.toNat_and] at h₃
  rw [mul_shift_sum h₃, sum_sums, sum_sums, sum_sums, cpop_eq_sum]

end

/-- The local `res_count` of `__wt_run_task`, which is not read again. -/
def resCount (cmd0 cmd1 : Word) : Nat :=
  (cmd0 &&& getDieNumMask).toNat * (numbersOfBitsSet cmd1).toNat

/-- The product is not the number of results either, unless there are none: the number is
masked, but not shifted. -/
theorem resCount_eq_produced_iff {user m slot : Word} {origin : Origin}
    (h : user &&& cmdTypeMask = userCmdTypeGetDie) :
    resCount user m = Fed.produced ⟨[user ||| slot <<< 24, m], origin⟩ ↔
      Fed.produced ⟨[user ||| slot <<< 24, m], origin⟩ = 0 := by
  have htype : Fed.type ⟨[user ||| slot <<< 24, m], origin⟩ = userCmdTypeGetDie :=
    (type_or_shiftLeft user slot (by decide)).trans h
  have hproduced : Fed.produced ⟨[user ||| slot <<< 24, m], origin⟩ =
      (Bits.field 4 16 user).toNat * m.cpop.toNat := by
    rw [Fed.produced, if_pos htype, ← num_or_shiftLeft user slot]
    rfl
  rw [hproduced, resCount, and_getDieNumMask, toNat_numbersOfBitsSet]
  generalize (Bits.field 4 16 user).toNat = num
  generalize m.cpop.toNat = dice
  constructor
  · intro heq
    rcases Nat.eq_zero_or_pos dice with hzero | hpos
    · rw [hzero, Nat.mul_zero]
    · have hnum := Nat.eq_of_mul_eq_mul_right hpos heq
      have hzero : num = 0 := by omega
      rw [hzero, Nat.zero_mul]
  · intro hzero
    rcases Nat.mul_eq_zero.mp hzero with hnum | hdice
    · rw [hnum]
    · rw [hdice, Nat.mul_zero, Nat.mul_zero]

end Dicedev
