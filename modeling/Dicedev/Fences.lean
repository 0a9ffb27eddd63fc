import Dicedev.Blame
import Dicedev.Slots

/-!
# The fence state machine

The interrupt handler relies on a running task, the worker on a slot for the task it starts.
The first holds in every reachable state: the device reports fences and errors of the running
task only. The second can fail: a RUN into a buffer of a context that is gone keeps nobody
from releasing the buffer between the event `WT_EVENT_TASK_RUN` and `__wt_run_task`,
`run_without_slot`. Under the condition that makes the owner test of RUN right (`AddrFresh`)
it holds, and none of the `BUG_ON`s can fire, `fence_machine`.
-/

namespace Dicedev

open State

variable {s s' : State} {l : Label}

/-! ## The bits of the interrupt register -/

theorem running_of_intr (h : Reachable s)
    (hbit : s.intr.fenceWait = true ∨ s.intr.cmdError = true ∨ s.intr.memError = true) :
    s.runningTask ≠ none := by
  rcases hbit with hwait | herr
  · obtain ⟨-, -, r, -, hrun⟩ := (deviceInv_reachable h).phase.of_wait hwait
    rw [hrun]
    simp
  · obtain ⟨-, r, -, hrun⟩ := Blamed.pending (blames_reachable h) (s.intr.err_iff.mpr herr)
    rw [hrun]
    simp

theorem running_of_reached (h : Reachable s) (hf : s.fenceState = .reached) :
    s.runningTask ≠ none := by
  intro hnone
  rw [(ctl_reachable h).1.mp hnone] at hf
  cases hf

/-- Only an idle device gets a task. -/
theorem waiting_step (h : Reachable s) (hs : Step s l s') (hf : s.fenceState = .reached) :
    s'.fenceState ≠ .waiting := by
  have hne : s.fenceState ≠ .waiting := by
    rw [hf]
    decide
  cases hs with
  | taskRun t hpc =>
    have hidle := ((ctl_reachable h).agrees hpc).2
    rw [hf] at hidle
    cases hidle
  | isrFence => exact fun hw => by cases hw
  | finishing => exact fun hw => by cases hw
  | _ => exact hne

/-- At most one fence is fed and not reached. -/
theorem fences_outstanding (h : Reachable s) : (s.fences.drop s.signalled).length ≤ 1 := by
  rw [fences_eq]
  change s.owed.length ≤ 1
  cases howed : s.owed with
  | nil => exact Nat.zero_le 1
  | cons t rest =>
    have hmem : t ∈ s.owed := by
      rw [howed]
      exact List.mem_cons_self
    rw [← howed, ((deviceInv_reachable h).phase.of_owed hmem).2.2.1]
    exact Nat.le_refl 1

/-! ## The slot of the task that starts -/

/-- While a task is there, the release of its context waits, and only the worker takes the slot
of its buffer. -/
theorem not_unbinds_of_live (h : system.ReachableBy AddrFresh s) {t : TaskId} (ht : t < s.nTask)
    (hlive : (s.sig t).freed = false) (hunbinds : Unbinds s (s.out t) l) :
    ∃ u c, s.pc = .destroy u c := by
  have hr := h.reachable
  have hcounting := Tracked.task (tracks_reachable hr) t ht hlive
  have hown : (s.bufs (s.out t)).ctx = (s.sig t).ctx :=
    (OwnedRuns.task_own (ownsRuns_reachable h) t ht).1
  cases hunbinds with
  | destroy u c hpc => exact ⟨u, c, hpc⟩
  | release c rest hclosing hlist =>
    rw [show (s.sig t).ctx = c from hown.symm.trans (owner_of_head hr hlist)] at hcounting
    rcases hcounting with hphase | hphase <;>
      (rw [show (s.ctxs c).phase = _ from hphase] at hclosing; cases hclosing)
  | bufferRelease hfreed hfd hctx =>
    rw [← hown] at hcounting
    have href : (s.bufs (s.out t)).ctxRef = true :=
      Owned.listed_live (ownership_reachable hr) _ (out_lt hr ht) hcounting
    rw [href] at hctx
    cases hctx

/-- The event `WT_EVENT_TASK_RUN` comes with a slot, and the slot stays. -/
def RunReady (s : State) : Prop :=
  s.pc = .event .taskRun → ∀ t ∈ s.nextTask, s.place (s.out t) ≠ none

theorem runReady_event (s : State) : RunReady { s with pc := .event s.wtGetEventTask } := by
  intro hpc t ht
  have hev : s.wtGetEventTask = .taskRun := WtPc.event.inj hpc
  unfold wtGetEventTask at hev
  split at hev
  · split at hev <;> cases hev
  · rename_i u hnext
    rw [show s.nextTask = some t from ht] at hnext
    cases hnext
    split at hev
    · cases hev
    · split at hev
      · split at hev <;> cases hev
      · assumption

theorem next_step_of_event (hs : Step s l s') (hpc : s'.pc = .event .taskRun) :
    (s.pc = .event .taskRun ∧ s'.nextTask = s.nextTask) ∨
      s' = { s with pc := .event s.wtGetEventTask } := by
  cases hs with
  | runQueue | writeQueue | isrFence | suspend | remove =>
    exact Or.inl ⟨pc_of_woken hpc (by simp), rfl⟩
  | head =>
    change s.wtPoll = _ at hpc
    rcases wtPoll_cases s with h | h | h | h | ⟨h, -⟩ <;> rw [h] at hpc <;> cases hpc
  | shutdown =>
    change s.wtShutdown = _ at hpc
    rcases wtShutdown_cases s with h | h <;> rw [h] at hpc <;> cases hpc
  | polled => exact Or.inr rfl
  | account u c => cases c <;> cases hpc
  | sleep | again | park | drop | getNext | bindSlot | taskRun | taskFinish | runDone | runSkip
  | runFeed | runReject | fence | destroyUnbind | destroyKeep | finishing => cases hpc
  | _ => exact Or.inl ⟨hpc, rfl⟩

theorem RunReady.step (h : system.ReachableBy AddrFresh s) (hI : RunReady s)
    (hs : Step s l s') : RunReady s' := by
  intro hpc' t ht
  have hr := h.reachable
  rcases next_step_of_event hs hpc' with ⟨hpc, hnext⟩ | rfl
  · rw [hnext] at ht
    have hlt := next_lt hr ht
    have hlive := live_of_not_gone hr hlt (not_gone_of_held hr (next_held hr ht))
    rw [out_step hs hlt]
    rcases place_shape hr hs with hsame | ⟨d, hunbinds, hnone⟩ | ⟨u, i, hbinds, -⟩
    · rw [hsame]
      exact hI hpc t ht
    · by_cases hd : s.out t = d
      · subst hd
        obtain ⟨u, c, hdestroy⟩ := not_unbinds_of_live h hlt hlive hunbinds
        rw [hpc] at hdestroy
        cases hdestroy
      · rw [hnone, Function.update_of_ne hd]
        exact hI hpc t ht
    · have hbind := hbinds.pc_eq
      rw [hpc] at hbind
      cases hbind
  · exact runReady_event s hpc' t ht

theorem runReady_reachable (h : system.ReachableBy AddrFresh s) : RunReady s := by
  induction h with
  | init => exact fun hpc => by cases hpc
  | step hr _ hs ih => exact ih.step hr (Step.of_step hs)

/-! ## The `BUG_ON`s -/

/-- What the worker must find to run into a `BUG_ON`. -/
def State.Trips (s : State) : Bug → Prop
  | .finishNoTask => s.pc = .event .taskFinish ∧ s.runningTask = none
  | .runNoSlot => s.pc = .event .taskRun ∧ ∃ t, s.nextTask = some t ∧ s.place (s.out t) = none
  | .isrNoTask => False
  | _ => True

/-- A step of the worker sets no flag of its own, and ends in a `BUG` only for a reason. -/
def State.Explains (s : State) : Except Bug State → Prop
  | .ok s' => s'.bug = s.bug
  | .error b => s.Trips b

theorem explains_wtHandle {e : WtEvent} (hpc : s.pc = .event e) : s.Explains (s.wtHandle e) := by
  cases e with
  | noEvent | park | stop => rfl
  | taskGetNext =>
    simp only [wtHandle, wtTaskGetNext]
    split
    · trivial
    · split <;> rfl
  | taskBindSlot =>
    simp only [wtHandle, wtTaskBindSlot]
    split
    · trivial
    · cases hslot : s.getSlot with
      | none => trivial
      | some i =>
        simp only [State.bindSlot, bind, Except.bind]
        split
        · rename_i hok
          split at hok <;> cases hok
          trivial
        · rename_i hok
          split at hok
          · cases hok
          · cases hok
            rfl
  | taskRun =>
    simp only [wtHandle, wtTaskRun]
    split
    · trivial
    · rename_i t hnext
      split
      · rename_i hnone
        exact ⟨hpc, t, hnext, hnone⟩
      · rfl
  | taskFinish =>
    simp only [wtHandle]
    split
    · rename_i hrun
      exact ⟨hpc, hrun⟩
    · rfl

theorem explains_wtRunTask (s : State) (left : Nat) : s.Explains (s.wtRunTask left) := by
  unfold wtRunTask
  split
  · trivial
  · rename_i t hrun
    split
    · rfl
    · simp only [bind, Except.bind]
      split
      · rename_i b hb
        rw [Step.runTaskPass_error hb]
        trivial
      · rename_i r hr
        obtain ⟨task, pass⟩ := r
        cases pass <;> rfl

theorem explains_wtStep {r : Except Bug State} (h : s.wtStep = some r) : s.Explains r := by
  unfold wtStep at h
  cases hpc : s.pc with
  | head | polled | account | shutdown =>
    rw [hpc] at h
    cases h
    rfl
  | asleep | hung | exited =>
    rw [hpc] at h
    cases h
  | event e =>
    rw [hpc] at h
    cases h
    exact explains_wtHandle hpc
  | parked =>
    rw [hpc] at h
    dsimp only at h
    split at h
    · cases h
    · cases h
      rfl
  | running left =>
    rw [hpc] at h
    cases h
    exact explains_wtRunTask s left
  | fencing =>
    rw [hpc] at h
    cases h
    unfold wtFence
    split
    · trivial
    · rfl
  | destroy t c =>
    rw [hpc] at h
    cases h
    unfold taskDestroyUnbind
    dsimp only
    split
    · rw [unbindIfBound_eq]
      unfold unbound
      split <;> rfl
    · rfl
  | finishing =>
    rw [hpc] at h
    cases h
    rw [wtTaskFinish_eq]
    rfl

/-- With a running task for its bits, the interrupt handler runs into no `BUG_ON`. -/
theorem isr_explained {r : Except Bug State} (h : s.dicedevIsr = some r)
    (hrun : s.intr.fenceWait = true ∨ s.intr.cmdError = true ∨ s.intr.memError = true →
      s.runningTask ≠ none) : ∃ s', r = .ok s' ∧ s'.bug = s.bug := by
  unfold dicedevIsr at h
  split at h
  · split at h
    · cases h
      rcases Step.isrError_cases s with ⟨b, hb, -⟩ | ⟨hok, -⟩
      · unfold State.isrError at hb
        split at hb
        · rename_i herr
          split at hb
          · rename_i hnone
            exact absurd hnone (hrun (Or.inr herr))
          · cases hb
        · cases hb
      · simp only [hok, bind, Except.bind, State.isrFence]
        split
        · rename_i hwait
          split
          · rename_i hnone
            exact absurd hnone (hrun (Or.inl hwait))
          · exact ⟨_, rfl, rfl⟩
        · exact ⟨_, rfl, rfl⟩
    · cases h
      exact ⟨s, rfl, rfl⟩
  · cases h

/-- None of the `BUG_ON`s about fences has fired. -/
def NoFenceBug (bug : Option Bug) : Prop :=
  bug ≠ some .isrNoTask ∧ bug ≠ some .finishNoTask ∧ bug ≠ some .runNoSlot

theorem noFenceBug_none : NoFenceBug none := ⟨nofun, nofun, nofun⟩

theorem noFenceBug_step (h : system.ReachableBy AddrFresh s) (hs : system.step s l = some s') :
    NoFenceBug s'.bug := by
  have hr := h.reachable
  have hstep := Step.of_step hs
  change (if s.bug = none then s.handle l else none) = some s' at hs
  split at hs
  · rename_i hbug
    have hnone : NoFenceBug s.bug := by
      rw [hbug]
      exact noFenceBug_none
    cases hstep with
    | halt _ b hl =>
      rcases hl with rfl | rfl
      · obtain ⟨r, hisr, hres⟩ := Option.map_eq_some_iff.mp hs
        obtain ⟨s', rfl, hsame⟩ := isr_explained hisr (running_of_intr hr)
        rw [← hres, show (s.orHalt (.ok s')).bug = s.bug from hsame]
        exact hnone
      · obtain ⟨r, hwt, hres⟩ := Option.map_eq_some_iff.mp hs
        have hexpl := explains_wtStep hwt
        rw [← hres]
        cases r with
        | ok s' =>
          rw [show (s.orHalt (.ok s')).bug = s.bug from hexpl]
          exact hnone
        | error b =>
          refine ⟨?_, ?_, ?_⟩
          · rintro ⟨⟩
            exact hexpl
          · rintro ⟨⟩
            exact running_of_reached hr ((ctl_reachable hr).agrees hexpl.1) hexpl.2
          · rintro ⟨⟩
            obtain ⟨hpc, t, hnext, hplace⟩ := hexpl
            exact runReady_reachable h hpc t hnext hplace
    | _ => exact hnone
  · cases hs

/-- While no new context gets the address of the owner of a buffer that still exists: when the
interrupt handler sees one of its bits, and when `fence_state` is `REACHED`, there is a running
task; `REACHED` is never overwritten by `WAITING`; the task that the worker is about to run has
a slot; at most one fence is outstanding; and none of the `BUG_ON`s about this has fired. -/
theorem fence_machine (h : system.ReachableBy AddrFresh s) :
    (s.intr.fenceWait = true ∨ s.intr.cmdError = true ∨ s.intr.memError = true →
      s.runningTask ≠ none) ∧
    (s.fenceState = .reached → s.runningTask ≠ none) ∧
    (∀ l s', system.step s l = some s' → s.fenceState = .reached → s'.fenceState ≠ .waiting) ∧
    (s.pc = .event .taskRun →
      ∃ t, s.nextTask = some t ∧ (s.bufs (s.tasks t).buffOut).bindedSlot ≠ none) ∧
    (s.fences.drop s.signalled).length ≤ 1 ∧
    (s.bug ≠ some .isrNoTask ∧ s.bug ≠ some .finishNoTask ∧ s.bug ≠ some .runNoSlot) := by
  have hr := h.reachable
  refine ⟨running_of_intr hr, running_of_reached hr, ?_, ?_, fences_outstanding hr, ?_⟩
  · exact fun l s' hs => waiting_step hr (Step.of_step hs)
  · intro hpc
    obtain ⟨t, ht⟩ := Option.ne_none_iff_exists'.mp ((ctl_reachable hr).agrees hpc).1
    exact ⟨t, ht, runReady_reachable h hpc t ht⟩
  · cases h with
    | init => exact noFenceBug_none
    | step h _ hs => exact noFenceBug_step h hs

theorem fence_machine_atStart :
    ∃ s t, system.ReachableBy AddrFresh s ∧ s.pc = .event .taskRun ∧ s.nextTask = some t ∧
      (s.bufs (s.tasks t).buffOut).bindedSlot ≠ none := by
  have hseen : seenBy AddrFresh (openOne ++ writeCall 0 0 0 (fun _ => 0) ++ workerSteps 8)
      (fun s => s.pc) = some (.event .taskRun) := by decide +kernel
  obtain ⟨s, hr, hpc⟩ := exists_seenBy hseen
  obtain ⟨t, hnext, hbound⟩ := (fence_machine hr).2.2.2.1 hpc
  exact ⟨s, t, hr, hpc, hnext, hbound⟩

/-- The RUN into the buffer of a closed context is about to start when the last descriptor of
the buffer is closed: the buffer is released, and the worker runs into the `BUG_ON`. -/
theorem run_without_slot :
    ∃ s s', system.exec probed (staleRun ++ workerSteps 8 ++ [.close 0, .bufferRelease 0]) =
        some s ∧ system.step s .worker = some s' ∧ s.pc = .event .taskRun ∧
      s.nextTask = some 0 ∧ (s.bufs (s.tasks 0).buffOut).bindedSlot = none ∧
      s'.bug = some .runNoSlot := by
  have hseen : seenAfter (staleRun ++ workerSteps 8 ++ [.close 0, .bufferRelease 0]) (fun s =>
      (s.pc, s.nextTask, (s.bufs (s.tasks 0).buffOut).bindedSlot,
        (system.step s .worker).map fun s' => s'.bug)) =
      some (.event .taskRun, some 0, none, some (some .runNoSlot)) := by decide +kernel
  obtain ⟨s, hs, -, hf⟩ := exists_seenAfter hseen
  simp only [Prod.mk.injEq, Option.map_eq_some_iff] at hf
  obtain ⟨hpc, hnext, hslot, s', hs', hbug⟩ := hf
  exact ⟨s, s', hs, hs', hpc, hnext, hslot, hbug⟩

end Dicedev
