import Dicedev.Device
import Dicedev.Failed

/-!
# The restart that never comes

`WT_EVENT_TASK_FINISH` calls `restart_device` when `dev->failed` is set. The interrupt handler
fails the context of the running task, and nothing sets `dev->failed`: it is false in every
reachable state, so `restart_device` is never executed. A run keeps the promise to restart the
device after an error only as long as no later task is fed, `restart_iff`.
-/

namespace Dicedev

open State

variable {s s' : State} {l : Label}

/-- `dev->failed` stays as `dicedev_probe` has set it. -/
theorem devFailed_false (h : Reachable s) : s.devFailed = false := by
  refine Machine.Reachable.invariant (I := fun s => s.devFailed = false) rfl ?_ h
  intro s l s' hf hs
  cases Step.of_step hs with
  | finishing => rfl
  | _ => exact hf

/-- The worker executes `restart_device` in this step. -/
def Restarts (s : State) : Label → Prop
  | .worker => s.pc = .finishing ∧ s.devFailed = true
  | _ => False

instance (s : State) (l : Label) : Decidable (Restarts s l) := by
  apply @Label.casesOn (fun l => Decidable (Restarts s l)) l <;> intros <;>
    unfold Restarts <;> infer_instance

/-- The restarts of a run, as the states in which they are executed. -/
def restarts (ls : List Label) : List State := system.moments Restarts probed ls

theorem restarts_eq_nil (ls : List Label) : restarts ls = [] := by
  refine Machine.moments_eq_nil ?_ Machine.Reachable.init ls
  intro s l hr hl
  cases l with
  | worker =>
    obtain ⟨-, hfailed⟩ := hl
    rw [devFailed_false hr] at hfailed
    cases hfailed
  | _ => exact hl

/-- A command of the task `u` is fed after the device has reported an error of another task
`t`: the error stands at position `i` of the trace, the command at position `j`. -/
structure FedAfterError (s : State) (i j : Nat) (t u : TaskId) : Prop where
  before : i < j
  error : s.trace[i]? = some (.deviceError t)
  fed : s.trace[j]?.bind Event.fedBy? = some u
  other : u ≠ t

/-- The task `t`, of which the device has reported an error, is over: it is destroyed and the
worker has left `WT_EVENT_TASK_FINISH`. -/
structure OverAfterError (s : State) (i : Nat) (t : TaskId) : Prop where
  error : s.trace[i]? = some (.deviceError t)
  gone : t ∈ s.gone
  left : s.runningTask ≠ some t

/-- The run restarts the device after every error, when the fence of the task has been
reached: before a command of another task is fed, and by the time the task is over. And it
restarts the device only when no task is running. -/
def RestartsInTime (ls : List Label) : Prop :=
  ∀ s, system.exec probed ls = some s →
    (∀ i j t u, FedAfterError s i j t u →
      ∃ v ∈ restarts ls, i < v.trace.length ∧ v.trace.length ≤ j ∧ t ∈ v.reachedTasks) ∧
    (∀ i t, OverAfterError s i t →
      ∃ v ∈ restarts ls, i < v.trace.length ∧ t ∈ v.reachedTasks) ∧
    ∀ v ∈ restarts ls, ∀ t ∈ v.runningTask, t ∈ v.gone

/-- No run restarts the device. So a run restarts it in time exactly if no task with an error
is over and no command of a later task is fed after an error. -/
theorem restart_iff (ls : List Label) :
    restarts ls = [] ∧
    (RestartsInTime ls ↔
      ∀ s, system.exec probed ls = some s →
        (∀ i j t u, ¬ FedAfterError s i j t u) ∧ ∀ i t, ¬ OverAfterError s i t) := by
  have hnone := restarts_eq_nil ls
  have hno : ∀ v, v ∉ restarts ls := by
    intro v hv
    rw [hnone] at hv
    cases hv
  refine ⟨hnone, ?_⟩
  constructor
  · intro h s hs
    obtain ⟨hfed, hover, -⟩ := h s hs
    refine ⟨?_, ?_⟩
    · intro i j t u he
      obtain ⟨v, hv, -⟩ := hfed i j t u he
      exact hno v hv
    · intro i t he
      obtain ⟨v, hv, -⟩ := hover i t he
      exact hno v hv
  · intro h s hs
    obtain ⟨hfed, hover⟩ := h s hs
    refine ⟨?_, ?_, ?_⟩
    · intro i j t u he
      exact absurd he (hfed i j t u)
    · intro i t he
      exact absurd he (hover i t)
    · intro v hv
      exact absurd hv (hno v)

/-- Two tasks with a `GET_DIE` each. The device reports an error of the first one, the task is
finished, and the command of the second one is fed. -/
def fedAfterError : List Label :=
  openOne ++ writeCall 0 0 8 oneDie ++ writeCall 0 1 8 oneDie ++ errorBetween ++ workerSteps 3

theorem fedAfterError_not_inTime : ¬ RestartsInTime fedAfterError := by
  intro h
  have hseen : seenAfter fedAfterError (fun s => (s.trace[22]?,
      s.trace[28]?.bind Event.fedBy?)) = some (some (.deviceError 0), some 1) := by
    decide +kernel
  obtain ⟨s, hs, -, hf⟩ := exists_seenAfter hseen
  simp only [Prod.mk.injEq] at hf
  obtain ⟨herror, hfed⟩ := hf
  obtain ⟨v, hv, -⟩ := (h s hs).1 22 28 0 1 ⟨by decide, herror, hfed, by decide⟩
  rw [restarts_eq_nil] at hv
  cases hv

end Dicedev
