import Dicedev.Readers
import Dicedev.Writes

/-!
# The arrays of commands

The array that `dicedev_buffer_write` allocates for the commands goes over to the task when the
task is queued. `__task_destroy` frees the task and nothing else, so the array of every write
that has been carried out, or dropped, stays allocated: `arrays_exact_iff`. An array that a
failing call has allocated is freed once, by the call itself, before it dies.
-/

namespace Dicedev

open State

/-- The call holds the array it has allocated. -/
def WriteCall.HoldsArray (call : WriteCall) : Prop :=
  match call.pc with
  | .copyCmd | .allocTask | .addTask | .errCopy _ => True
  | _ => False

namespace WriteState

/-- The array of call `w` is allocated. There is none for a write of no bytes. -/
def Live (x : WriteState) (w : Nat) : Prop :=
  ∃ call, x.writes w = some call ∧ 0 < call.count ∧ .alloc ∈ call.acts ∧ .free ∉ call.acts

/-- The array of call `w` belongs to the call, or to a task that is not yet destroyed. -/
def Owned (x : WriteState) (w : Nat) : Prop :=
  ∃ call, x.writes w = some call ∧ 0 < call.count ∧
    (call.HoldsArray ∨ ∃ t < x.sys.nTask, x.arrayOf t = some w ∧ t ∉ x.sys.gone)

end WriteState

/-- The live arrays are those with an owner, and the others have been freed once. -/
structure ArraysExact (x : WriteState) : Prop where
  live_iff : ∀ w, x.Live w ↔ x.Owned w
  once : ∀ w call, x.writes w = some call → 0 < call.count → .alloc ∈ call.acts →
    ¬ x.Live w → call.acts.count .free = 1

/-! ## Which task has which array -/

/-- Every call that has queued its task has left its array to one task, and every write task has
the array of such a call. -/
structure ArrayOwners (x : WriteState) : Prop where
  fresh : ∀ w, x.nWrite ≤ w → x.writes w = none
  holder : ∀ t w, x.arrayOf t = some w → t < x.sys.nTask ∧
    ∃ call, x.writes w = some call ∧ call.pc = .returned none
  inj : ∀ t t' w, x.arrayOf t = some w → x.arrayOf t' = some w → t = t'
  queued : ∀ w call, x.writes w = some call → call.pc = .returned none →
    ∃ t, x.arrayOf t = some w
  write : ∀ t < x.sys.nTask, x.arrayOf t ≠ none ↔ (x.sys.tasks t).isRun = false

variable {x x' : WriteState} {l : WriteLabel} {s : State}

/-- Which tasks are RUNs does not change, and only the end of a write adds a write. -/
theorem isRun_step {s s' : State} {l : Label} (hs : Step s l s') :
    (∀ t < s.nTask, (s'.tasks t).isRun = (s.tasks t).isRun) ∧
      (s'.nTask = s.nTask ∨ s'.nTask = s.nTask + 1 ∧
        ((s'.tasks s.nTask).isRun = true ∧ l.isWrite = false ∨
          (s'.tasks s.nTask).isRun = false ∧ ∃ k cmd, l = .writeQueue k cmd)) := by
  refine ⟨fun t ht => ?_, ?_⟩
  · rw [Task.isRun_eq, Task.isRun_eq]
    exact congrArg Option.isSome (cBuff_step hs ht)
  · cases hs with
    | runQueue k =>
      refine Or.inr ⟨rfl, Or.inl ⟨?_, rfl⟩⟩
      simp only [State.queued, Function.update_self]
      rfl
    | writeQueue k cmd =>
      refine Or.inr ⟨rfl, Or.inr ⟨?_, k, cmd, rfl⟩⟩
      simp only [State.queued, Function.update_self]
      rfl
    | _ => exact Or.inl rfl

namespace ArrayOwners

theorem arrayOf_nTask (h : ArrayOwners x) : x.arrayOf x.sys.nTask = none :=
  Option.eq_none_iff_forall_ne_some.mpr fun w hw =>
    Nat.lt_irrefl _ (h.holder _ w hw).1

theorem write_lt (h : ArrayOwners x) {w : Nat} {call : WriteCall} (hw : x.writes w = some call) :
    w < x.nWrite := by
  by_contra hle
  rw [h.fresh w (Nat.le_of_not_lt hle)] at hw
  cases hw

/-- The system takes a step that queues no write. -/
theorem sys (h : ArrayOwners x) {l : Label} (hs : system.step x.sys l = some s)
    (hl : ∀ k cmd, l ≠ .writeQueue k cmd) : ArrayOwners { x with sys := s } := by
  have hst := Step.of_step hs
  refine ⟨h.fresh, fun t w ht => ?_, h.inj, h.queued, ?_⟩
  · obtain ⟨hlt, hcall⟩ := h.holder t w ht
    exact ⟨Nat.lt_of_lt_of_le hlt (nTask_le_step hst), hcall⟩
  · intro t ht
    change t < s.nTask at ht
    obtain ⟨hold, hn | ⟨hn, ⟨hrun, -⟩ | ⟨-, k, cmd, rfl⟩⟩⟩ := isRun_step hst
    · rw [hn] at ht
      simp only [hold t ht]
      exact h.write t ht
    · rw [hn] at ht
      rcases Nat.lt_succ_iff_lt_or_eq.mp ht with ht | rfl
      · simp only [hold t ht]
        exact h.write t ht
      · simp [h.arrayOf_nTask, hrun]
    · exact absurd rfl (hl k cmd)

/-- A new call has not queued a task. -/
theorem add (h : ArrayOwners x) (new : WriteCall) (hnew : new.pc ≠ .returned none) :
    ArrayOwners (x.add new) := by
  have hold : ∀ {w call}, x.writes w = some call → (x.add new).writes w = some call := by
    intro w call hw
    exact (Function.update_of_ne (Nat.ne_of_lt (h.write_lt hw)) ..).trans hw
  refine ⟨fun w hw => ?_, fun t w ht => ?_, h.inj, fun w call hw hpc => ?_, h.write⟩
  · have hle : x.nWrite + 1 ≤ w := hw
    refine (Function.update_of_ne ?_ ..).trans (h.fresh w (Nat.le_of_succ_le hle))
    exact Nat.ne_of_gt hle
  · obtain ⟨hlt, call, hcall, hpc⟩ := h.holder t w ht
    exact ⟨hlt, call, hold hcall, hpc⟩
  · rcases update_eq_some hw with hcall | hcall
    · cases hcall
      exact absurd hpc hnew
    · exact h.queued w call hcall hpc

/-- A call that is not over goes on, and does not queue its task. -/
theorem set (h : ArrayOwners x) {w : Nat} {old new : WriteCall} (hw : x.writes w = some old)
    (hold : old.pc ≠ .returned none) (hnew : new.pc ≠ .returned none) :
    ArrayOwners (x.set w new) := by
  refine ⟨fun v hv => ?_, fun t v ht => ?_, h.inj, fun v call hv hpc => ?_, h.write⟩
  · refine (Function.update_of_ne ?_ ..).trans (h.fresh v hv)
    exact Nat.ne_of_gt (Nat.lt_of_lt_of_le (h.write_lt hw) hv)
  · obtain ⟨hlt, call, hcall, hpc⟩ := h.holder t v ht
    refine ⟨hlt, call, (Function.update_of_ne ?_ ..).trans hcall, hpc⟩
    rintro rfl
    cases hw.symm.trans hcall
    exact hold hpc
  · rcases update_eq_some hv with hcall | hcall
    · cases hcall
      exact absurd hpc hnew
    · exact h.queued v call hcall hpc

/-- A call queues its task and leaves the array to it. -/
theorem queue (h : ArrayOwners x) {w : Nat} {old new : WriteCall} (hw : x.writes w = some old)
    (hold : old.pc ≠ .returned none) (hnew : new.pc = .returned none) {k : CallId}
    {cmd : Nat → Word} (hs : system.step x.sys (.writeQueue k cmd) = some s) :
    ArrayOwners { x.set w new with
      sys := s
      arrayOf := Function.update x.arrayOf x.sys.nTask (some w) } := by
  obtain ⟨hkeep, hn⟩ := isRun_step (Step.of_step hs)
  obtain ⟨hn, hrun⟩ : s.nTask = x.sys.nTask + 1 ∧ (s.tasks x.sys.nTask).isRun = false := by
    cases Step.of_step hs with
    | writeQueue =>
      refine ⟨rfl, ?_⟩
      simp only [State.queued, Function.update_self]
      rfl
    | halt _ _ hl => rcases hl with hl | hl <;> cases hl
  have hnot : ∀ t, x.arrayOf t ≠ some w := by
    intro t ht
    obtain ⟨-, call, hcall, hpc⟩ := h.holder t w ht
    cases hw.symm.trans hcall
    exact hold hpc
  refine ⟨fun v hv => ?_, fun t v ht => ?_, fun t t' v ht ht' => ?_, fun v call hv hpc => ?_,
    fun t ht => ?_⟩
  · refine (Function.update_of_ne ?_ ..).trans (h.fresh v hv)
    exact Nat.ne_of_gt (Nat.lt_of_lt_of_le (h.write_lt hw) hv)
  · change t < s.nTask ∧ _
    rw [hn]
    rcases update_some_cases ht with ⟨rfl, hv⟩ | ⟨-, hv⟩
    · cases hv
      exact ⟨Nat.lt_succ_self _, new, Function.update_self .., hnew⟩
    · obtain ⟨hlt, call, hcall, hpc⟩ := h.holder t v hv
      refine ⟨Nat.lt_succ_of_lt hlt, call, (Function.update_of_ne ?_ ..).trans hcall, hpc⟩
      rintro rfl
      exact hnot t hv
  · rcases update_some_cases ht with ⟨rfl, hv⟩ | ⟨-, ht⟩
    · cases hv
      rcases update_some_cases ht' with ⟨rfl, -⟩ | ⟨-, ht'⟩
      · rfl
      · exact absurd ht' (hnot t')
    · rcases update_some_cases ht' with ⟨rfl, hv⟩ | ⟨-, ht'⟩
      · cases hv
        exact absurd ht (hnot t)
      · exact h.inj t t' v ht ht'
  · rcases update_some_cases hv with ⟨rfl, -⟩ | ⟨-, hcall⟩
    · exact ⟨x.sys.nTask, Function.update_self ..⟩
    · obtain ⟨t, ht⟩ := h.queued v call hcall hpc
      refine ⟨t, (Function.update_of_ne ?_ ..).trans ht⟩
      exact Nat.ne_of_lt (h.holder t v ht).1
  · change t < s.nTask at ht
    rw [hn] at ht
    rcases Nat.lt_succ_iff_lt_or_eq.mp ht with ht | rfl
    · simp only [hkeep t ht, Function.update_of_ne (Nat.ne_of_lt ht)]
      exact h.write t ht
    · simp [hrun]

theorem step (h : ArrayOwners x) (hs : WriteStep x l x') : ArrayOwners x' := by
  cases hs with
  | sys l s hl hs => exact h.sys hs fun k cmd heq => by rw [heq] at hl; cases hl
  | refused => exact h.add _ (by simp)
  | raised b c count s hc hs => exact (h.add _ (by simp)).sys hs (by simp)
  | move w op call acts pc hw hmove =>
    have hne : ∀ {pc : WritePc}, pc.over = false → pc ≠ .returned none := by
      rintro pc hover rfl
      cases hover
    exact h.set hw (hne hmove.over_eq.1) (hne hmove.over_eq.2)
  | queue w cmd call s hw hpc hs => exact h.queue hw (by simp [hpc]) rfl hs
  | rollback w call f s hw hpc hs =>
    exact (h.set hw (by simp [hpc]) (by simp [WriteCall.goto])).sys hs (by simp)

end ArrayOwners

theorem arrayOwners_reachable (h : writeSystem.Reachable x) : ArrayOwners x := by
  refine Machine.Reachable.invariant ?_ ?_ h
  · refine ⟨fun _ _ => rfl, ?_, ?_, ?_, ?_⟩
    · intro t w ht
      cases ht
    · intro t t' w ht
      cases ht
    · intro w call hw
      cases hw
    · exact fun t ht => absurd ht (Nat.not_lt_zero t)
  · exact fun _ _ _ hI hs => hI.step (WriteStep.of_step hs)

/-! ## Live arrays -/

/-- An array is live if its call holds it, or has given it to its task, and a call frees its
array at most once. -/
theorem acts_array {call : WriteCall} (h : ActsOf call.ctx call.acts call.pc) :
    ((.alloc ∈ call.acts ∧ .free ∉ call.acts) ↔ (call.HoldsArray ∨ call.pc = .returned none)) ∧
      call.acts.count .free ≤ 1 := by
  unfold WriteCall.HoldsArray
  cases hpc : call.pc with
  | allocCmd | copyCmd | allocTask | addTask =>
    rw [hpc] at h
    simp [show call.acts = _ from h]
  | errCopy f =>
    rw [hpc] at h
    simp [show call.acts = _ from h.2]
  | errTask f =>
    rw [hpc] at h
    rw [show call.acts = _ from h.2]
    cases f <;> simp [WriteFault.acts]
  | returned f =>
    rw [hpc] at h
    cases f with
    | none =>
      obtain ⟨t, hacts⟩ := h
      simp [hacts]
    | some f => simp [show call.acts = _ from h.2]
  | died f =>
    rw [hpc] at h
    rw [show call.acts = _ from h.2]
    cases f <;> simp [WriteFault.acts]

/-- The live arrays of commands are exactly those of calls and of tasks that are not yet
destroyed, if no write with commands has been destroyed; and no array is freed twice. -/
theorem arrays_exact_iff (h : writeSystem.Reachable x) :
    ArraysExact x ↔ ∀ t ∈ x.sys.gone, ∀ w call, x.arrayOf t = some w → x.writes w = some call →
      call.count = 0 := by
  have hown := arrayOwners_reachable h
  constructor
  · intro hexact t ht w call harray hw
    by_contra hpos
    obtain ⟨-, call', hw', hpc⟩ := hown.holder t w harray
    cases hw.symm.trans hw'
    have hacts := (acts_array (acts_reachable h hw)).1.mpr (Or.inr hpc)
    have hlive : x.Live w := ⟨call, hw, Nat.pos_of_ne_zero hpos, hacts⟩
    obtain ⟨call', hw', -, hholds | ⟨t', -, harray', hgone⟩⟩ := (hexact.live_iff w).mp hlive
    · cases hw.symm.trans hw'
      rw [WriteCall.HoldsArray, hpc] at hholds
      exact hholds
    · rw [hown.inj t t' w harray harray'] at ht
      exact hgone ht
  · intro hzero
    refine ⟨fun w => ⟨?_, ?_⟩, ?_⟩
    · rintro ⟨call, hw, hpos, hacts⟩
      refine ⟨call, hw, hpos, ?_⟩
      rcases (acts_array (acts_reachable h hw)).1.mp hacts with hholds | hpc
      · exact Or.inl hholds
      · obtain ⟨t, ht⟩ := hown.queued w call hw hpc
        refine Or.inr ⟨t, (hown.holder t w ht).1, ht, fun hgone => ?_⟩
        exact Nat.ne_of_gt hpos (hzero t hgone w call ht hw)
    · rintro ⟨call, hw, hpos, hholds⟩
      refine ⟨call, hw, hpos, (acts_array (acts_reachable h hw)).1.mpr ?_⟩
      refine hholds.imp_right ?_
      rintro ⟨t, -, ht, -⟩
      obtain ⟨-, call', hw', hpc⟩ := hown.holder t w ht
      cases hw.symm.trans hw'
      exact hpc
    · intro w call hw hpos halloc hnot
      have hfree : .free ∈ call.acts := by
        by_contra hfree
        exact hnot ⟨call, hw, hpos, halloc, hfree⟩
      exact Nat.le_antisymm (acts_array (acts_reachable h hw)).2 (List.count_pos_iff.mpr hfree)

/-- A write of two dice is queued. -/
def diceQueued : List WriteLabel :=
  openOne.map .sys ++ [.write 0 8] ++
    [.allocCmd true, .copyCmd true, .allocTask true, .addTask twoDice].map (.call 0)

/-- The task is run and destroyed. -/
def diceDestroyed : List WriteLabel :=
  diceQueued ++ (workerSteps 12 ++ finishTask).map .sys

/-- While the task is in the queue its array has an owner. -/
theorem arrays_exact_iff_diceQueued :
    ∃ x, writeSystem.Reachable x ∧ x.sys.pendingTasks = [0] ∧ x.Live 0 ∧ ArraysExact x := by
  obtain ⟨x, hx, hf⟩ := Option.map_eq_some_iff.mp
    (show (writeSystem.exec writeSystem.init diceQueued).map
      (fun x => (x.sys.pendingTasks, x.sys.gone, x.writes 0)) = some ([0], [],
        some ⟨0, 0, 8, 0, .returned none, [.raise 0, .alloc, .queue 0]⟩) by decide +kernel)
  simp only [Prod.mk.injEq] at hf
  obtain ⟨hpend, hgone, hw⟩ := hf
  have hr : writeSystem.Reachable x := Machine.Reachable.init.exec hx
  refine ⟨x, hr, hpend, ⟨_, hw, by decide⟩, (arrays_exact_iff hr).mpr ?_⟩
  intro t ht
  rw [hgone] at ht
  cases ht

/-- The only task has been destroyed and its array is still allocated. -/
theorem array_outlives_task :
    ∃ x, writeSystem.exec writeSystem.init diceDestroyed = some x ∧ x.sys.nTask = 1 ∧
      x.sys.gone = [0] ∧ x.Live 0 ∧ ¬ x.Owned 0 ∧ ¬ ArraysExact x := by
  obtain ⟨x, hx, hf⟩ := Option.map_eq_some_iff.mp
    (show (writeSystem.exec writeSystem.init diceDestroyed).map
      (fun x => (x.sys.nTask, x.sys.gone, x.writes 0)) = some (1, [0],
        some ⟨0, 0, 8, 0, .returned none, [.raise 0, .alloc, .queue 0]⟩) by decide +kernel)
  simp only [Prod.mk.injEq] at hf
  obtain ⟨hn, hgone, hw⟩ := hf
  have hlive : x.Live 0 := ⟨_, hw, by decide⟩
  have hown : ¬ x.Owned 0 := by
    rintro ⟨call, hcall, -, hholds | ⟨t, ht, -, hnot⟩⟩
    · cases hw.symm.trans hcall
      exact hholds
    · rw [hn, Nat.lt_one_iff] at ht
      rw [hgone, ht] at hnot
      exact hnot List.mem_cons_self
  exact ⟨x, hx, hn, hgone, hlive, hown, fun h => hown ((h.live_iff 0).mp hlive)⟩

end Dicedev
