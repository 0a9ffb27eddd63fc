import Dicedev.Step

/-!
# Where the worker is

`Ctl` ties the place of the worker in `dicedev_wt_fn` to its two tasks, the fence state and
the queue. There is a running task exactly while `fence_state` is not `NONE`, and an event
that was computed without the lock still describes the state when its handler runs.
-/

namespace Dicedev

open State

/-- What the place of the worker says about its tasks, the fence and the queue. -/
def WtPc.Agrees (pc : WtPc) (next running : Option TaskId) (fence : FenceState)
    (pending : List TaskId) : Prop :=
  match pc with
  | .event .taskGetNext => next = none ∧ pending ≠ []
  | .event .taskBindSlot => next ≠ none ∧ fence = .none
  | .event .taskRun => next ≠ none ∧ fence = .none
  | .event .taskFinish => fence = .reached
  | .running _ => running ≠ none ∧ next = running
  | .fencing => running ≠ none ∧ next = none
  | .destroy _ .drop => next = none
  | .account _ .drop => next = none
  | .destroy t .finish => running = some t ∧ fence = .reached
  | .account t .finish => running = some t ∧ fence = .reached
  | .finishing => running ≠ none ∧ fence = .reached
  | _ => True

def Ctl (s : State) : Prop :=
  (s.runningTask = none ↔ s.fenceState = .none) ∧
    s.pc.Agrees s.nextTask s.runningTask s.fenceState s.pendingTasks

variable {s s' : State} {l : Label}

theorem Ctl.agrees (h : Ctl s) {pc : WtPc} (hpc : s.pc = pc) :
    pc.Agrees s.nextTask s.runningTask s.fenceState s.pendingTasks :=
  hpc ▸ h.2

theorem ctl_probed : Ctl probed := ⟨by simp [probed], trivial⟩

theorem WtPc.Agrees.woken {next running : Option TaskId} {fence : FenceState}
    {pending : List TaskId} (h : s.pc.Agrees next running fence pending) :
    s.wokenPc.Agrees next running fence pending := by
  unfold wokenPc
  split
  · trivial
  · exact h

/-- Queueing a task keeps every promise about the queue. -/
theorem WtPc.Agrees.append {pc : WtPc} {next running : Option TaskId} {fence : FenceState}
    {pending : List TaskId} (h : pc.Agrees next running fence pending) (t : TaskId) :
    pc.Agrees next running fence (pending ++ [t]) := by
  cases pc with
  | event e =>
    cases e with
    | taskGetNext => exact ⟨h.1, by simp⟩
    | _ => exact h
  | destroy _ c => cases c <;> exact h
  | account _ c => cases c <;> exact h
  | _ => exact h

/-- A fence reached by the running task breaks no promise: no handler that needs an idle
device is pending. -/
theorem WtPc.Agrees.reached {pc : WtPc} {next running : Option TaskId} {fence : FenceState}
    {pending : List TaskId} (h : pc.Agrees next running fence pending) (hf : fence ≠ .none) :
    pc.Agrees next running .reached pending := by
  cases pc with
  | event e =>
    cases e with
    | taskBindSlot => exact absurd h.2 hf
    | taskRun => exact absurd h.2 hf
    | taskFinish => rfl
    | _ => exact h
  | destroy _ c =>
    cases c with
    | drop => exact h
    | finish => exact ⟨h.1, rfl⟩
  | account _ c =>
    cases c with
    | drop => exact h
    | finish => exact ⟨h.1, rfl⟩
  | finishing => exact ⟨h.1, rfl⟩
  | _ => exact h

theorem Ctl.queued (h : Ctl s) (k : CallId) (task : Task) : Ctl (s.queued k task) :=
  ⟨h.1, h.2.woken.append s.nTask⟩

theorem Ctl.poll (h : Ctl s) : Ctl { s with pc := s.wtPoll } := by
  refine ⟨h.1, ?_⟩
  change s.wtPoll.Agrees s.nextTask s.runningTask s.fenceState s.pendingTasks
  rcases wtPoll_cases s with h | h | h | h | ⟨h, hf⟩
  all_goals rw [h]
  all_goals trivial

theorem Ctl.event (h : Ctl s) : Ctl { s with pc := .event s.wtGetEventTask } := by
  refine ⟨h.1, ?_⟩
  change (WtPc.event s.wtGetEventTask).Agrees s.nextTask s.runningTask s.fenceState
    s.pendingTasks
  unfold wtGetEventTask
  cases hn : s.nextTask with
  | none =>
    by_cases hp : s.pendingTasks = []
    · simp [hp, WtPc.Agrees]
    · simp [hp, WtPc.Agrees]
  | some t =>
    by_cases hf : s.fenceState = .none
    · by_cases hb : (s.bufs (s.tasks t).buffOut).bindedSlot = none
      · by_cases hs : 0 < s.freeSlots
        · simp [hf, hb, hs, WtPc.Agrees]
        · simp [hf, hb, hs, WtPc.Agrees]
      · simp [hf, hb, WtPc.Agrees]
    · simp [hf, WtPc.Agrees]

theorem Ctl.step (h : Ctl s) (hs : Step s l s') : Ctl s' := by
  cases hs with
  | openCtx | createSetRefused | createSet | runRefused | run | runCount | wait | waitLeave
  | waitReturn | releaseMark | releaseWait | releaseBuffer | releaseFree | writeRefused | write
  | writeFail | readNone | read | seed | dup | close | bufferRelease | store | isrOff | isr
  | fenceInterrupt | errorInterrupt | slotError | resume | halt => exact h
  | runQueue k => exact h.queued k _
  | writeQueue k => exact h.queued k _
  | isrFence t hen hfence htask =>
    have hf : s.fenceState ≠ .none := fun hn => by
      rw [h.1.mpr hn] at htask
      cases htask
    exact ⟨by simp [htask], h.2.woken.reached hf⟩
  | suspend | remove => exact ⟨h.1, h.2.woken⟩
  | head => exact h.poll
  | polled => exact h.event
  | sleep => exact ⟨h.1, trivial⟩
  | again => exact ⟨h.1, trivial⟩
  | park => exact ⟨h.1, trivial⟩
  | drop t rest hpc =>
    have h2 := h.agrees hpc
    exact ⟨h.1, h2.1⟩
  | getNext => exact ⟨h.1, trivial⟩
  | bindSlot => exact ⟨h.1, trivial⟩
  | taskRun t hpc hnext hbound => exact ⟨by simp, by simp, hnext⟩
  | taskFinish t hpc hrun =>
    have h2 := h.agrees hpc
    exact ⟨h.1, hrun, h2⟩
  | runDone t hpc hrun => exact ⟨h.1, by simp [hrun], rfl⟩
  | runSkip t left task left' hpc =>
    have h2 := h.agrees hpc
    exact ⟨h.1, h2⟩
  | runFeed t left task words user left' hpc =>
    have h2 := h.agrees hpc
    exact ⟨h.1, h2⟩
  | runReject t left task hpc =>
    have h2 := h.agrees hpc
    exact ⟨h.1, h2.1, rfl⟩
  | fence => exact ⟨h.1, trivial⟩
  | destroyUnbind t c b hpc =>
    have h2 := h.agrees hpc
    exact ⟨h.1, by cases c <;> exact h2⟩
  | destroyKeep t c hpc =>
    have h2 := h.agrees hpc
    exact ⟨h.1, by cases c <;> exact h2⟩
  | account t caller c b hpc =>
    have h2 := h.agrees hpc
    refine ⟨h.1, ?_⟩
    cases caller with
    | drop => trivial
    | finish =>
      obtain ⟨hrun, hfence⟩ := h2
      exact ⟨Option.ne_none_iff_exists'.mpr ⟨t, hrun⟩, hfence⟩
  | finishing => exact ⟨⟨fun _ => rfl, fun _ => rfl⟩, trivial⟩
  | shutdown =>
    refine ⟨h.1, ?_⟩
    change s.wtShutdown.Agrees _ _ _ _
    rcases wtShutdown_cases s with h | h <;> rw [h] <;> trivial

/-- The control invariant of every reachable state. -/
theorem ctl_reachable (h : Reachable s) : Ctl s :=
  Machine.Reachable.invariant ctl_probed (fun _ _ _ hI hs => hI.step (Step.of_step hs)) h

end Dicedev
