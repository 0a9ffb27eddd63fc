import Dicedev.Stream

/-!
# Fences and their interrupts

The device reports the fences of the stream one by one, and the driver waits for the fence of
one task at a time. `DeviceAt` lists the states that the two can be in: nothing is on the
device; the worker feeds the commands of a task; their fence has been fed; the device has
raised the interrupt; the driver has seen it. In every reachable state they are in one of
them, so `fence_state` becomes `REACHED` for the fence of the running task only, and a task is
finished after its own fence.
-/

namespace Dicedev

open State

variable {s s' : State} {l : Label}

/-- The fence that an entry of the trace feeds. -/
def Event.fence? (e : Event) : Option TaskId := e.fed?.bind Fed.fence?

/-- What the trace says about fences that the device has reached. -/
def Event.reached? : Event → Option TaskId
  | .fenceReached t => some t
  | _ => none

/-- The tasks whose fences the device has reached, oldest first. -/
def State.reachedTasks (s : State) : List TaskId := s.trace.filterMap Event.reached?

/-- The tasks whose fences were fed and not yet reached. -/
def State.owed (s : State) : List TaskId := (s.trace.filterMap Event.fence?).drop s.signalled

theorem fences_eq (s : State) : s.fences = s.trace.filterMap Event.fence? :=
  List.filterMap_filterMap ..

/-- The driver and the device, seen by `fence_state`: the running task, the task whose
commands are being fed, the fences that the device owes, its interrupt bit, and the fences it
has reached. -/
inductive DeviceAt (running fed : Option TaskId) (owed : List TaskId) (wait : Bool)
    (reachedTasks : List TaskId) : FenceState → Prop
  | idle (hfed : fed = none) (howed : owed = []) (hwait : wait = false) :
      DeviceAt running fed owed wait reachedTasks .none
  | feeding (r : TaskId) (hfed : fed = some r) (howed : owed = []) (hwait : wait = false) :
      DeviceAt running fed owed wait reachedTasks .waiting
  | owing (r : TaskId) (hrun : running = some r) (hfed : fed = none) (howed : owed = [r])
      (hwait : wait = false) : DeviceAt running fed owed wait reachedTasks .waiting
  | raised (r : TaskId) (hrun : running = some r) (hfed : fed = none) (howed : owed = [])
      (hwait : wait = true) (hmem : r ∈ reachedTasks) :
      DeviceAt running fed owed wait reachedTasks .waiting
  | reached (r : TaskId) (hrun : running = some r) (hfed : fed = none) (howed : owed = [])
      (hwait : wait = false) (hmem : r ∈ reachedTasks) :
      DeviceAt running fed owed wait reachedTasks .reached

namespace DeviceAt

variable {running fed : Option TaskId} {owed reachedTasks : List TaskId} {wait : Bool}
  {fence : FenceState}

theorem of_none (h : DeviceAt running fed owed wait reachedTasks .none) :
    owed = [] ∧ wait = false := by
  cases h with
  | idle _ howed hwait => exact ⟨howed, hwait⟩

theorem of_reached (h : DeviceAt running fed owed wait reachedTasks .reached) :
    fed = none ∧ owed = [] ∧ wait = false ∧ ∃ r ∈ reachedTasks, running = some r := by
  cases h with
  | reached r hrun hfed howed hwait hmem => exact ⟨hfed, howed, hwait, r, hmem, hrun⟩

/-- While commands are fed, no fence is owed. -/
theorem of_fed (h : DeviceAt running fed owed wait reachedTasks fence) {t : TaskId}
    (ht : fed = some t) : owed = [] ∧ wait = false ∧ fence = .waiting := by
  cases h with
  | feeding r _ howed hwait => exact ⟨howed, hwait, rfl⟩
  | idle hfed | owing _ _ hfed | raised _ _ hfed | reached _ _ hfed =>
    rw [hfed] at ht
    cases ht

/-- An owed fence is that of the running task. -/
theorem of_owed (h : DeviceAt running fed owed wait reachedTasks fence) {t : TaskId}
    (ht : t ∈ owed) : running = some t ∧ fed = none ∧ owed = [t] ∧ fence = .waiting := by
  cases h with
  | owing r hrun hfed howed =>
    rw [howed, List.mem_singleton] at ht
    subst ht
    exact ⟨hrun, hfed, howed, rfl⟩
  | idle _ howed | feeding _ _ howed | raised _ _ _ howed | reached _ _ _ howed =>
    rw [howed] at ht
    cases ht

/-- A raised interrupt is that of the running task. -/
theorem of_wait (h : DeviceAt running fed owed wait reachedTasks fence) (hw : wait = true) :
    fed = none ∧ owed = [] ∧ ∃ r ∈ reachedTasks, running = some r := by
  cases h with
  | raised r hrun hfed howed _ hmem => exact ⟨hfed, howed, r, hmem, hrun⟩
  | idle _ _ hwait | feeding _ _ _ hwait | owing _ _ _ _ hwait | reached _ _ _ _ hwait =>
    rw [hwait] at hw
    cases hw

end DeviceAt

structure DeviceInv (s : State) : Prop where
  signalled_le : s.signalled ≤ (s.trace.filterMap Event.fence?).length
  phase : DeviceAt s.runningTask (s.pc.fedTask s.runningTask) s.owed s.intr.fenceWait
    s.reachedTasks s.fenceState

namespace DeviceInv

/-- A step that neither the fences nor their interrupt depend on. -/
theorem of_eq (h : DeviceInv s) (hrun : s'.runningTask = s.runningTask)
    (hfed : s'.pc.fedTask s.runningTask = s.pc.fedTask s.runningTask)
    (hsig : s'.signalled = s.signalled)
    (hfences : s'.trace.filterMap Event.fence? = s.trace.filterMap Event.fence?)
    (hwait : s'.intr.fenceWait = s.intr.fenceWait)
    (hreached : s'.trace.filterMap Event.reached? = s.trace.filterMap Event.reached?)
    (hfence : s'.fenceState = s.fenceState) : DeviceInv s' := by
  refine ⟨?_, ?_⟩
  · rw [hsig, hfences]
    exact h.signalled_le
  · have howed : s'.owed = s.owed := by
      unfold State.owed
      rw [hsig, hfences]
    have htasks : s'.reachedTasks = s.reachedTasks := hreached
    rw [hrun, hfed, howed, hwait, htasks, hfence]
    exact h.phase

/-- The worker moves on without feeding or ending anything. -/
theorem move (h : DeviceInv s) {pc pc' : WtPc} (hpc : s.pc = pc)
    (hfed : pc'.fedTask s.runningTask = pc.fedTask s.runningTask) :
    DeviceInv { s with pc := pc' } := by
  refine h.of_eq rfl ?_ rfl rfl rfl rfl rfl
  rw [hpc]
  exact hfed

/-- The next fence is that of the running task. -/
theorem fenceInterrupt (h : DeviceInv s) {t : TaskId} (ht : s.fences[s.signalled]? = some t) :
    DeviceInv
      { s with
        signalled := s.signalled + 1
        intr := { s.intr with fenceWait := true }
        trace := s.trace ++ [.fenceReached t] } := by
  rw [fences_eq] at ht
  obtain ⟨hlt, hget⟩ := List.getElem?_eq_some_iff.mp ht
  have howed : s.owed = t :: (s.trace.filterMap Event.fence?).drop (s.signalled + 1) := by
    rw [State.owed, List.drop_eq_getElem_cons hlt, hget]
  have hfences : (s.trace ++ [Event.fenceReached t]).filterMap Event.fence? =
      s.trace.filterMap Event.fence? := filterMap_log_none rfl
  obtain ⟨hrun, hfed, hone, hfence⟩ := h.phase.of_owed (t := t) (by rw [howed]; simp)
  refine ⟨?_, ?_⟩
  · change s.signalled + 1 ≤ ((s.trace ++ [Event.fenceReached t]).filterMap Event.fence?).length
    rw [hfences]
    exact hlt
  · change DeviceAt _ _ (((s.trace ++ [Event.fenceReached t]).filterMap Event.fence?).drop
      (s.signalled + 1)) _ _ s.fenceState
    rw [hfences, hfence]
    refine .raised t hrun hfed ?_ rfl ?_
    · rw [howed] at hone
      exact (List.cons.inj hone).2
    · simp [State.reachedTasks, Event.reached?]

/-- The fence of the running task is fed. -/
theorem fence (h : DeviceInv s) {t : TaskId} (hpc : s.pc = .fencing)
    (hrun : s.runningTask = some t) (words : List Word) :
    DeviceInv { s with pc := .head, trace := s.trace ++ [.feed ⟨words, .fence t⟩] } := by
  have hfed : s.pc.fedTask s.runningTask = some t := by
    rw [hpc]
    exact hrun
  obtain ⟨howed, hwait, hfence⟩ := h.phase.of_fed hfed
  have hfences : (s.trace ++ [Event.feed ⟨words, .fence t⟩]).filterMap Event.fence? =
      s.trace.filterMap Event.fence? ++ [t] := filterMap_log_some rfl
  refine ⟨?_, ?_⟩
  · change s.signalled ≤ ((s.trace ++ [Event.feed ⟨words, .fence t⟩]).filterMap _).length
    rw [hfences, List.length_append]
    exact Nat.le_trans h.signalled_le (Nat.le_add_right _ _)
  · change DeviceAt _ _ (((s.trace ++ [Event.feed ⟨words, .fence t⟩]).filterMap
      Event.fence?).drop s.signalled) _ _ s.fenceState
    rw [hfences, List.drop_append_of_le_length h.signalled_le, hfence]
    refine .owing t hrun rfl ?_ hwait
    rw [show (s.trace.filterMap Event.fence?).drop s.signalled = [] from howed]
    rfl

theorem step (hc : Ctl s) (h : DeviceInv s) (hs : Step s l s') : DeviceInv s' := by
  cases hs with
  | openCtx | createSetRefused | createSet | runRefused | run | runCount | wait | waitLeave
  | releaseMark | releaseWait | releaseFree | writeRefused | write | writeFail | readNone
  | read | seed | dup | close | store | isrOff | slotError | resume | halt =>
    exact ⟨h.signalled_le, h.phase⟩
  | runQueue | writeQueue =>
    exact h.of_eq rfl (wokenPc_fedTask s _) rfl (filterMap_log_none rfl) rfl
      (filterMap_log_none rfl) rfl
  | suspend | remove => exact h.of_eq rfl (wokenPc_fedTask s _) rfl rfl rfl rfl rfl
  | waitReturn =>
    exact h.of_eq rfl rfl rfl (filterMap_log_none rfl) rfl (filterMap_log_none rfl) rfl
  | errorInterrupt i mem =>
    refine h.of_eq rfl rfl rfl (filterMap_log_none rfl) ?_ (filterMap_log_none rfl) rfl
    cases mem <;> rfl
  | releaseBuffer c b =>
    exact h.of_eq rfl rfl rfl
      ((filterMap_log_none rfl).trans (filterMap_unbound (fun _ _ => rfl) s b)) rfl
      ((filterMap_log_none rfl).trans (filterMap_unbound (fun _ _ => rfl) s b)) rfl
  | bufferRelease b =>
    exact h.of_eq rfl rfl rfl (filterMap_unbound (fun _ _ => rfl) s b) rfl
      (filterMap_unbound (fun _ _ => rfl) s b) rfl
  | isr hen hfence => exact h.of_eq rfl rfl rfl rfl hfence.symm rfl rfl
  | isrFence t hen hfence =>
    obtain ⟨hfed, howed, r, hmem, hrun⟩ := h.phase.of_wait hfence
    refine ⟨h.signalled_le, .reached r hrun ?_ howed rfl hmem⟩
    exact (wokenPc_fedTask s _).trans hfed
  | fenceInterrupt t ht => exact h.fenceInterrupt ht
  | head hpc => exact h.move hpc (wtPoll_fedTask s _)
  | shutdown hpc => exact h.move hpc (wtShutdown_fedTask s _)
  | polled hpc => exact h.move hpc rfl
  | sleep hpc => exact h.move hpc rfl
  | again hpc =>
    rcases hpc with hpc | hpc | hpc
    · exact h.move hpc rfl
    · exact h.move hpc rfl
    · exact h.move hpc rfl
  | park hpc => exact h.move hpc rfl
  | drop t rest hpc | getNext t rest hpc | runDone t hpc | runSkip t left task left' hpc =>
    exact h.of_eq rfl (by rw [hpc]; rfl) rfl rfl rfl rfl rfl
  | taskFinish t hpc => exact h.move hpc rfl
  | bindSlot t b i hpc | runFeed t left task words user left' hpc | runReject t left task hpc =>
    exact h.of_eq rfl (by rw [hpc]; rfl) rfl (filterMap_log_none rfl) rfl
      (filterMap_log_none rfl) rfl
  | taskRun t hpc =>
    have h2 := hc.agrees hpc
    have hphase := h.phase
    rw [h2.2] at hphase
    obtain ⟨howed, hwait⟩ := hphase.of_none
    have hfences : (s.trace ++ [Event.started t]).filterMap Event.fence? =
        s.trace.filterMap Event.fence? := filterMap_log_none rfl
    refine ⟨?_, .feeding t rfl ?_ hwait⟩
    · change s.signalled ≤ ((s.trace ++ [Event.started t]).filterMap Event.fence?).length
      rw [hfences]
      exact h.signalled_le
    · change ((s.trace ++ [Event.started t]).filterMap Event.fence?).drop s.signalled = []
      rw [hfences]
      exact howed
  | fence t hpc hrun => exact h.fence hpc hrun _
  | destroyUnbind t c b hpc =>
    exact h.of_eq rfl (by rw [hpc]; rfl) rfl (filterMap_unbound (fun _ _ => rfl) s b) rfl
      (filterMap_unbound (fun _ _ => rfl) s b) rfl
  | destroyKeep t c hpc => exact h.move hpc rfl
  | account t caller c b hpc =>
    refine h.of_eq rfl ?_ rfl (filterMap_log_none ?_) rfl (filterMap_log_none ?_) rfl
    · rw [hpc]
      cases caller <;> rfl
    · cases caller <;> rfl
    · cases caller <;> rfl
  | finishing hpc =>
    have h2 := hc.agrees hpc
    have hphase := h.phase
    rw [h2.2] at hphase
    obtain ⟨-, howed, hwait, -⟩ := hphase.of_reached
    refine ⟨h.signalled_le, .idle rfl howed ?_⟩
    change (if s.devFailed = true then Intr.clear else s.intr).fenceWait = false
    split
    · rfl
    · exact hwait

end DeviceInv

theorem deviceInv_probed : DeviceInv probed := ⟨Nat.zero_le _, .idle rfl (by decide) rfl⟩

theorem deviceInv_reachable (h : Reachable s) : DeviceInv s :=
  Machine.Reachable.invariant_of (fun _ hr => ctl_reachable hr) deviceInv_probed
    (fun _ _ _ hc hI hs => hI.step hc (Step.of_step hs)) h

theorem running_of_fedTask {pc : WtPc} {running : Option TaskId} {t : TaskId}
    (h : pc.fedTask running = some t) : running = some t := by
  unfold WtPc.fedTask at h
  split at h
  · exact h
  · exact h
  · cases h

/-- The device complains about the running task only, and before its fence is reached. -/
theorem error_running (h : Reachable s) {i : Nat} {t : TaskId}
    (hcmd : s.stream[i]?.bind Fed.task? = some t) (hfence : s.signalled ≤ s.fencesBefore i) :
    s.runningTask = some t ∧ s.fenceState = .waiting := by
  have hdev := (deviceInv_reachable h).phase
  -- the fence behind the command is that of `t`, or it has not been fed yet
  rcases (streamBlocks_reachable h).fenced i t hcmd with hown | ⟨-, hfed⟩
  · have howed : t ∈ s.owed := by
      have hget : (s.fences.drop s.signalled)[s.fencesBefore i - s.signalled]? = some t := by
        rw [List.getElem?_drop, Nat.add_sub_cancel' hfence]
        exact hown
      rw [fences_eq] at hget
      exact List.mem_of_getElem? hget
    obtain ⟨hrun, -, -, hwait⟩ := hdev.of_owed howed
    exact ⟨hrun, hwait⟩
  · exact ⟨running_of_fedTask hfed, (hdev.of_fed hfed).2.2⟩

/-! ## A task is finished after its fence -/

/-- Every end of a task in the trace stands behind its fence. -/
def FinishedBehind (trace : List Event) : Prop :=
  ∀ pre t post, trace = pre ++ .finished t :: post → .fenceReached t ∈ pre

/-- The device has reached the fence of a task that is being finished. -/
theorem reached_of_finish (hr : Reachable s) {t : TaskId} (hpc : s.pc = .account t .finish) :
    .fenceReached t ∈ s.trace := by
  have h2 := (ctl_reachable hr).agrees hpc
  have hphase := (deviceInv_reachable hr).phase
  rw [h2.2] at hphase
  obtain ⟨-, -, -, r, hmem, hrun⟩ := hphase.of_reached
  rw [h2.1] at hrun
  cases hrun
  obtain ⟨e, he, het⟩ := List.mem_filterMap.mp hmem
  cases e with
  | fenceReached u =>
    cases het
    exact he
  | _ => cases het

theorem finishedBehind_step (hr : Reachable s) (h : FinishedBehind s.trace) (hs : Step s l s') :
    FinishedBehind s'.trace := by
  obtain ⟨es, ht, hes⟩ := logs_step hs
  intro pre t post heq
  rw [ht] at heq
  rcases Blocks.split_appends heq with ⟨post', hold⟩ | ⟨hnew, as, rfl⟩
  · exact h pre t post' hold
  · exact List.mem_append_left _ (reached_of_finish hr (hes _ hnew))

theorem finishedBehind_probed : FinishedBehind probed.trace := by
  intro pre t post heq
  have hmem : Event.finished t ∈ probed.trace := by
    rw [heq]
    simp
  obtain ⟨i, -, hi⟩ := List.mem_map.mp hmem
  cases hi

theorem finished_behind_fence (h : Reachable s) : FinishedBehind s.trace :=
  Machine.Reachable.invariant_of (I := fun s => FinishedBehind s.trace) (fun _ hr => hr)
    finishedBehind_probed (fun _ _ _ hr hI hs => finishedBehind_step hr hI (Step.of_step hs)) h

/-- A finished task was started. -/
theorem started_of_finished (h : Reachable s) {t : TaskId} (ht : .finished t ∈ s.trace) :
    t ∈ s.started := by
  refine entries_reachable (P := fun s e => ∀ t, e = .finished t → t ∈ s.started)
    (fun f t hf => by cases hf) ?_ ?_ h _ ht t rfl
  · rintro s l s' hr hs e he t rfl
    have h2 := (ctl_reachable hr).agrees he
    exact mem_filterMap_step hs (running_started hr h2.1)
  · intro s l s' hr hs e _ he t het
    exact mem_filterMap_step hs (he t het)

end Dicedev
