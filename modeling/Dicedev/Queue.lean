import Dicedev.Lib.Pipeline
import Dicedev.Control
import Dicedev.Views

/-!
# The queue as a pipeline

`State.pipeline` reads the driver's queue, its two task pointers and the history as a
`Pipeline`. While `__wt_run_task` runs, `next_task` still points to the task that is
already the running one, and after `__task_destroy` at `WT_EVENT_TASK_FINISH` the pointer
`running_task` is stale until the end of the case; the view leaves these copies out.

`pipeline_step` proves that every step of the system is a move of the pipeline or leaves
it as it is, so the driver inherits what holds of pipelines.
-/

namespace Dicedev

open State

/-- `next_task` as a task that waits to be run. -/
def WtPc.waitingTask (pc : WtPc) (next : Option TaskId) : Option TaskId :=
  match pc with
  | .running _ => none
  | _ => next

/-- `running_task` as a task that is on the device. -/
def WtPc.deviceTask (pc : WtPc) (running : Option TaskId) : Option TaskId :=
  match pc with
  | .finishing => none
  | _ => running

/-- The fetched task of a failed context, on its way through `__task_destroy`. -/
def WtPc.droppedTask : WtPc → Option TaskId
  | .destroy t .drop => some t
  | .account t .drop => some t
  | _ => none

/-- The queue of the driver. -/
def State.pipeline (s : State) : Pipeline where
  arrived := s.nTask
  waiting := s.pendingTasks
  next := s.pc.waitingTask s.nextTask
  running := s.pc.deviceTask s.runningTask
  dropping := s.pc.droppedTask
  started := s.started
  gone := s.gone

variable {s s' : State} {l : Label}

/-! ## Steps that leave the pipeline alone -/

/-- Two states have the same pipeline when they agree on what it reads. -/
theorem pipeline_congr {pc : WtPc} (hpc : s.pc = pc) (hn : s'.nTask = s.nTask)
    (hp : s'.pendingTasks = s.pendingTasks)
    (hnext : s'.pc.waitingTask s'.nextTask = pc.waitingTask s.nextTask)
    (hrun : s'.pc.deviceTask s'.runningTask = pc.deviceTask s.runningTask)
    (hdrop : s'.pc.droppedTask = pc.droppedTask)
    (hstarted : s'.trace.filterMap Event.started? = s.started)
    (hgone : s'.trace.filterMap Event.gone? = s.gone) : s'.pipeline = s.pipeline := by
  unfold State.pipeline
  rw [hpc, hn, hp, hnext, hrun, hdrop]
  exact congrArg₂ _ hstarted hgone

/-- The place of the worker hides no task pointer and holds no task. -/
def WtPc.Plain (pc : WtPc) : Prop :=
  (∀ next, pc.waitingTask next = next) ∧ (∀ running, pc.deviceTask running = running) ∧
    pc.droppedTask = none

theorem plain_head : WtPc.head.Plain := ⟨fun _ => rfl, fun _ => rfl, rfl⟩

theorem plain_wtPoll (s : State) : s.wtPoll.Plain := by
  rcases wtPoll_cases s with h | h | h | h | ⟨h, -⟩
  all_goals rw [h]
  all_goals exact ⟨fun _ => rfl, fun _ => rfl, rfl⟩

theorem plain_wtShutdown (s : State) : s.wtShutdown.Plain := by
  rcases wtShutdown_cases s with h | h <;> rw [h] <;> exact ⟨fun _ => rfl, fun _ => rfl, rfl⟩

theorem pipeline_event {e : WtEvent} (h : s.pc = .event e) :
    s.pipeline =
      ⟨s.nTask, s.pendingTasks, s.nextTask, s.runningTask, none, s.started, s.gone⟩ := by
  unfold State.pipeline
  rw [h]
  rfl

/-- Moving between plain places. -/
theorem pipeline_pc {pc : WtPc} (h : s.pc.Plain) (h' : pc.Plain) :
    { s with pc := pc }.pipeline = s.pipeline :=
  pipeline_congr rfl rfl rfl ((h'.1 _).trans (h.1 _).symm) ((h'.2.1 _).trans (h.2.1 _).symm)
    (h'.2.2.trans h.2.2.symm) rfl rfl

theorem wokenPc_views (s : State) (o : Option TaskId) :
    s.wokenPc.waitingTask o = s.pc.waitingTask o ∧ s.wokenPc.deviceTask o = s.pc.deviceTask o ∧
      s.wokenPc.droppedTask = s.pc.droppedTask := by
  unfold wokenPc
  split
  · rename_i h
    rw [h]
    exact ⟨rfl, rfl, rfl⟩
  · exact ⟨rfl, rfl, rfl⟩

/-- A wake-up, with other changes that the pipeline does not see. -/
theorem pipeline_woken (hn : s'.nTask = s.nTask) (hp : s'.pendingTasks = s.pendingTasks)
    (hnext : s'.nextTask = s.nextTask) (hrun : s'.runningTask = s.runningTask)
    (hpc : s'.pc = s.wokenPc) (htrace : s'.trace = s.trace) : s'.pipeline = s.pipeline := by
  refine pipeline_congr rfl hn hp ?_ ?_ ?_ ?_ ?_
  · rw [hpc, hnext]
    exact (wokenPc_views s _).1
  · rw [hpc, hrun]
    exact (wokenPc_views s _).2.1
  · rw [hpc]
    exact (wokenPc_views s none).2.2
  · rw [htrace]
    rfl
  · rw [htrace]
    rfl

/-! ## The moves -/

theorem pipeline_queued (s : State) (k : CallId) (task : Task) :
    Pipeline.Move s.pipeline (s.queued k task).pipeline := by
  have h : (s.queued k task).pipeline =
      { s.pipeline with
        arrived := s.pipeline.arrived + 1
        waiting := s.pipeline.waiting ++ [s.pipeline.arrived] } := by
    change Pipeline.mk _ _ (s.wokenPc.waitingTask _) (s.wokenPc.deviceTask _)
      s.wokenPc.droppedTask _ _ = _
    rw [(wokenPc_views s _).1, (wokenPc_views s _).2.1, (wokenPc_views s none).2.2]
    exact congrArg₂ _ (filterMap_log_none rfl) (filterMap_log_none rfl)
  rw [h]
  exact .arrive

theorem pipeline_account (hc : Ctl s) {t : TaskId} {caller : Caller}
    (hpc : s.pc = .account t caller) :
    Pipeline.Move s.pipeline
      ⟨s.nTask, s.pendingTasks, (destroyReturn caller).waitingTask s.nextTask,
        (destroyReturn caller).deviceTask s.runningTask, (destroyReturn caller).droppedTask,
        s.started, s.gone ++ [t]⟩ := by
  have h2 := hc.agrees hpc
  cases caller with
  | drop =>
    have hd : s.pipeline.dropping = some t := by simp [State.pipeline, hpc, WtPc.droppedTask]
    have hm := Pipeline.Move.drop t hd
    simpa [State.pipeline, hpc, WtPc.waitingTask, WtPc.deviceTask, destroyReturn,
      WtPc.droppedTask] using hm
  | finish =>
    have hr : s.pipeline.running = some t := by
      simp [State.pipeline, hpc, WtPc.deviceTask, h2.1]
    have hm := Pipeline.Move.finish t hr
    simpa [State.pipeline, hpc, WtPc.waitingTask, WtPc.deviceTask, destroyReturn,
      WtPc.droppedTask] using hm

theorem gone?_destroyEvent (t : TaskId) (c : Caller) : (destroyEvent t c).gone? = some t := by
  cases c <;> rfl

theorem started?_destroyEvent (t : TaskId) (c : Caller) : (destroyEvent t c).started? = none := by
  cases c <;> rfl

/-- Every step of the system leaves the pipeline alone or is one of its moves. -/
theorem pipeline_step (hc : Ctl s) (hs : Step s l s') :
    s'.pipeline = s.pipeline ∨ Pipeline.Move s.pipeline s'.pipeline := by
  cases hs with
  | openCtx | createSetRefused | createSet | runRefused | run | runCount | wait | waitLeave
  | releaseMark | releaseWait | releaseFree | writeRefused | write | writeFail | readNone
  | read | seed | dup | close | store | isrOff | isr | slotError | resume | halt =>
    exact Or.inl rfl
  | runQueue k => exact Or.inr (pipeline_queued s k _)
  | writeQueue k => exact Or.inr (pipeline_queued s k _)
  | waitReturn | fenceInterrupt | errorInterrupt =>
    exact Or.inl (pipeline_congr rfl rfl rfl rfl rfl rfl (filterMap_log_none rfl)
      (filterMap_log_none rfl))
  | releaseBuffer c b rest =>
    exact Or.inl (pipeline_congr rfl rfl rfl rfl rfl rfl
      ((filterMap_log_none rfl).trans (filterMap_unbound (fun _ _ => rfl) s b))
      ((filterMap_log_none rfl).trans (filterMap_unbound (fun _ _ => rfl) s b)))
  | bufferRelease b =>
    exact Or.inl (pipeline_congr rfl rfl rfl rfl rfl rfl (filterMap_unbound (fun _ _ => rfl) s b)
      (filterMap_unbound (fun _ _ => rfl) s b))
  | isrFence | suspend | remove => exact Or.inl (pipeline_woken rfl rfl rfl rfl rfl rfl)
  | head hpc => exact Or.inl (pipeline_pc (hpc ▸ plain_head) (plain_wtPoll s))
  | polled hpc => exact Or.inl (pipeline_congr hpc rfl rfl rfl rfl rfl rfl rfl)
  | sleep hpc => exact Or.inl (pipeline_congr hpc rfl rfl rfl rfl rfl rfl rfl)
  | again hpc =>
    rcases hpc with hpc | hpc | hpc
    · exact Or.inl (pipeline_congr hpc rfl rfl rfl rfl rfl rfl rfl)
    · exact Or.inl (pipeline_congr hpc rfl rfl rfl rfl rfl rfl rfl)
    · exact Or.inl (pipeline_congr hpc rfl rfl rfl rfl rfl rfl rfl)
  | park hpc => exact Or.inl (pipeline_congr hpc rfl rfl rfl rfl rfl rfl rfl)
  | drop t rest hpc hpend =>
    have h2 := hc.agrees hpc
    rw [pipeline_event hpc]
    exact Or.inr (.discard t rest hpend h2.1 rfl)
  | getNext t rest hpc hpend =>
    have h2 := hc.agrees hpc
    rw [pipeline_event hpc]
    exact Or.inr (.fetch t rest hpend h2.1 rfl)
  | bindSlot t b i hpc =>
    exact Or.inl (pipeline_congr hpc rfl rfl rfl rfl rfl (filterMap_log_none rfl)
      (filterMap_log_none rfl))
  | taskRun t hpc hnext =>
    have h2 := hc.agrees hpc
    have hm : Pipeline.Move s.pipeline ⟨s.nTask, s.pendingTasks, none, some t, none,
        s.started ++ [t], s.gone⟩ := by
      rw [pipeline_event hpc]
      exact .start t hnext (hc.1.mpr h2.2)
    have hstarted : (s.trace ++ [Event.started t]).filterMap Event.started? = s.started ++ [t] :=
      filterMap_log_some rfl
    have hgone : (s.trace ++ [Event.started t]).filterMap Event.gone? = s.gone :=
      filterMap_log_none rfl
    rw [← hstarted, ← hgone] at hm
    exact Or.inr hm
  | taskFinish t hpc => exact Or.inl (pipeline_congr hpc rfl rfl rfl rfl rfl rfl rfl)
  | runDone t hpc => exact Or.inl (pipeline_congr hpc rfl rfl rfl rfl rfl rfl rfl)
  | runSkip t left task left' hpc =>
    exact Or.inl (pipeline_congr hpc rfl rfl rfl rfl rfl rfl rfl)
  | runFeed t left task words user left' hpc =>
    exact Or.inl (pipeline_congr hpc rfl rfl rfl rfl rfl (filterMap_log_none rfl)
      (filterMap_log_none rfl))
  | runReject t left task hpc =>
    exact Or.inl (pipeline_congr hpc rfl rfl rfl rfl rfl (filterMap_log_none rfl)
      (filterMap_log_none rfl))
  | fence t hpc =>
    exact Or.inl (pipeline_congr hpc rfl rfl rfl rfl rfl (filterMap_log_none rfl)
      (filterMap_log_none rfl))
  | destroyUnbind t c b hpc =>
    refine Or.inl (pipeline_congr hpc rfl rfl rfl rfl ?_
      (filterMap_unbound (fun _ _ => rfl) s b) (filterMap_unbound (fun _ _ => rfl) s b))
    cases c <;> rfl
  | destroyKeep t c hpc =>
    refine Or.inl (pipeline_congr hpc rfl rfl rfl rfl ?_ rfl rfl)
    cases c <;> rfl
  | account t caller c b hpc =>
    have hm := pipeline_account hc hpc
    have hstarted : (s.trace ++ [destroyEvent t caller]).filterMap Event.started? = s.started :=
      filterMap_log_none (started?_destroyEvent t caller)
    have hgone : (s.trace ++ [destroyEvent t caller]).filterMap Event.gone? = s.gone ++ [t] :=
      filterMap_log_some (gone?_destroyEvent t caller)
    rw [← hstarted, ← hgone] at hm
    exact Or.inr hm
  | finishing hpc => exact Or.inl (pipeline_congr hpc rfl rfl rfl rfl rfl rfl rfl)
  | shutdown hpc =>
    have h : s.pc.Plain := by
      rw [hpc]
      exact ⟨fun _ => rfl, fun _ => rfl, rfl⟩
    exact Or.inl (pipeline_pc h (plain_wtShutdown s))

theorem pipeline_probed : probed.pipeline.Valid := by
  have hp : probed.pipeline = ⟨0, [], none, none, none, [], []⟩ := rfl
  rw [hp]
  constructor <;> simp [Pipeline.fetched, Pipeline.Held]

/-- The driver's queue is a valid pipeline in every reachable state. -/
theorem pipeline_reachable (h : Reachable s) : s.pipeline.Valid := by
  refine Machine.Reachable.invariant_of (I := fun s => s.pipeline.Valid)
    (fun _ => ctl_reachable) pipeline_probed ?_ h
  intro s l s' hc hv hs
  rcases pipeline_step hc (Step.of_step hs) with heq | hm
  · rw [heq]
    exact hv
  · exact hv.move hm

/-! ## Starts -/

/-- The worker is about to start the task `t`. -/
structure State.Starts (s : State) (t : TaskId) : Prop where
  pc_eq : s.pc = .event .taskRun
  next : s.nextTask = some t
  bound : (s.bufs (s.tasks t).buffOut).bindedSlot ≠ none

/-- A task starts with a slot for its buffer. -/
theorem started_step (hs : Step s l s') :
    s'.started = s.started ∨
      ∃ t, s.Starts t ∧ s'.started = s.started ++ [t] ∧ s'.bufs = s.bufs := by
  cases hs with
  | openCtx | createSetRefused | createSet | runRefused | run | runCount | wait | waitLeave
  | releaseMark | releaseWait | releaseFree | writeRefused | write | writeFail | readNone
  | read | seed | dup | close | store | isrOff | isr | isrFence | slotError | suspend | resume
  | remove | head | polled | sleep | again | park | drop | getNext | taskFinish | runDone
  | runSkip | destroyKeep | finishing | shutdown | halt => exact Or.inl rfl
  | runQueue | writeQueue | waitReturn | fenceInterrupt | errorInterrupt | bindSlot | runFeed
  | runReject | fence => exact Or.inl (filterMap_log_none rfl)
  | releaseBuffer c b rest =>
    exact Or.inl ((filterMap_log_none rfl).trans (filterMap_unbound (fun _ _ => rfl) s b))
  | bufferRelease b | destroyUnbind t c b =>
    exact Or.inl (filterMap_unbound (fun _ _ => rfl) s b)
  | account t caller => exact Or.inl (filterMap_log_none (started?_destroyEvent t caller))
  | taskRun t hpc hnext hbound =>
    exact Or.inr ⟨t, ⟨hpc, hnext, hbound⟩, filterMap_log_some rfl, rfl⟩

/-! ## The task pointers -/

/-- `running_task` points to a task that was started, stale or not. -/
def RunningStarted (running : Option TaskId) (started : List TaskId) : Prop :=
  ∀ t ∈ running, t ∈ started

theorem runningStarted_step (h : RunningStarted s.runningTask s.started) (hs : Step s l s') :
    RunningStarted s'.runningTask s'.started := by
  have hlog : ∀ {trace : List Event}, trace.filterMap Event.started? = s.started →
      RunningStarted s.runningTask (trace.filterMap Event.started?) := by
    intro trace heq
    rw [heq]
    exact h
  cases hs with
  | openCtx | createSetRefused | createSet | runRefused | run | runCount | wait | waitLeave
  | releaseMark | releaseWait | releaseFree | writeRefused | write | writeFail | readNone
  | read | seed | dup | close | store | isrOff | isr | isrFence | slotError | suspend | resume
  | remove | head | polled | sleep | again | park | drop | getNext | taskFinish | runDone
  | runSkip | destroyKeep | shutdown | halt => exact h
  | runQueue | writeQueue | waitReturn | fenceInterrupt | errorInterrupt | bindSlot | runFeed
  | runReject | fence => exact hlog (filterMap_log_none rfl)
  | releaseBuffer c b rest =>
    exact hlog ((filterMap_log_none rfl).trans (filterMap_unbound (fun _ _ => rfl) s b))
  | bufferRelease b => exact hlog (filterMap_unbound (fun _ _ => rfl) s b)
  | destroyUnbind t c b => exact hlog (filterMap_unbound (fun _ _ => rfl) s b)
  | taskRun t =>
    intro u hu
    cases hu
    simp [State.started, Event.started?]
  | account t caller => exact hlog (filterMap_log_none (started?_destroyEvent t caller))
  | finishing =>
    intro u hu
    cases hu

theorem running_started (h : Reachable s) {t : TaskId} (ht : s.runningTask = some t) :
    t ∈ s.started := by
  have hI : RunningStarted s.runningTask s.started :=
    Machine.Reachable.invariant (I := fun s => RunningStarted s.runningTask s.started)
      (fun t ht => by cases ht) (fun _ _ _ hI hs => runningStarted_step hI (Step.of_step hs)) h
  exact hI t ht

theorem fetched_le (s : State) : s.pipeline.fetched ≤ s.nTask := Nat.sub_le _ _

theorem running_lt (h : Reachable s) {t : TaskId} (ht : s.runningTask = some t) :
    t < s.nTask :=
  Nat.lt_of_lt_of_le ((pipeline_reachable h).started_lt t (running_started h ht)).1
    (fetched_le s)

theorem held_lt (h : Reachable s) {t : TaskId} (ht : s.pipeline.Held t) : t < s.nTask :=
  Nat.lt_of_lt_of_le ((pipeline_reachable h).held_lt ht) (fetched_le s)

/-- A task that the worker holds has not been destroyed. -/
theorem not_gone_of_held (h : Reachable s) {t : TaskId} (ht : s.pipeline.Held t) : t ∉ s.gone :=
  fun hgone => (((pipeline_reachable h).gone_iff t).mp hgone).2 ht

theorem gone_lt (h : Reachable s) {t : TaskId} (ht : t ∈ s.gone) : t < s.nTask :=
  Nat.lt_of_lt_of_le ((pipeline_reachable h).gone_lt ht) (fetched_le s)

theorem not_gone_of_pending (h : Reachable s) {t : TaskId} (ht : t ∈ s.pendingTasks) :
    t ∉ s.gone := by
  intro hgone
  have hv := pipeline_reachable h
  have hge := (hv.mem_waiting.mp ht).1
  exact absurd (hv.gone_lt hgone) (Nat.not_lt.mpr hge)

theorem pending_lt (h : Reachable s) {t : TaskId} (ht : t ∈ s.pendingTasks) : t < s.nTask :=
  ((pipeline_reachable h).mem_waiting.mp ht).2

theorem next_held (h : Reachable s) {t : TaskId} (ht : s.nextTask = some t) :
    s.pipeline.Held t := by
  by_cases hrun : ∃ left, s.pc = .running left
  · obtain ⟨left, hpc⟩ := hrun
    have h2 := (ctl_reachable h).agrees hpc
    refine Or.inr (Or.inl ?_)
    change s.pc.deviceTask s.runningTask = some t
    rw [hpc]
    exact h2.2.symm.trans ht
  · have hnext : s.pc.waitingTask s.nextTask = s.nextTask := by
      unfold WtPc.waitingTask
      split
      · rename_i left hpc
        exact absurd ⟨left, hpc⟩ hrun
      · rfl
    exact Or.inl (hnext.trans ht)

theorem next_lt (h : Reachable s) {t : TaskId} (ht : s.nextTask = some t) : t < s.nTask :=
  held_lt h (next_held h ht)

/-- The running task is held until its fence is seen. -/
theorem running_held (h : Reachable s) {t : TaskId} (ht : s.runningTask = some t)
    (hf : s.fenceState = .waiting) : s.pipeline.Held t := by
  refine Or.inr (Or.inl ?_)
  change s.pc.deviceTask s.runningTask = some t
  unfold WtPc.deviceTask
  split
  · rename_i hpc
    have h2 := (ctl_reachable h).agrees hpc
    rw [hf] at h2
    cases h2.2
  · exact ht

/-- The task in `__task_destroy`. -/
theorem destroy_held (h : Reachable s) {t : TaskId} {c : Caller}
    (hpc : s.pc = .destroy t c ∨ s.pc = .account t c) : s.pipeline.Held t := by
  have h2 := (ctl_reachable h).2
  cases c with
  | drop =>
    refine Or.inr (Or.inr ?_)
    change s.pc.droppedTask = some t
    rcases hpc with hpc | hpc <;> rw [hpc] <;> rfl
  | finish =>
    refine Or.inr (Or.inl ?_)
    change s.pc.deviceTask s.runningTask = some t
    rcases hpc with hpc | hpc <;> rw [hpc] at h2 ⊢ <;> exact h2.1

theorem account_held (h : Reachable s) {t : TaskId} {c : Caller} (hpc : s.pc = .account t c) :
    s.pipeline.Held t :=
  destroy_held h (Or.inr hpc)

theorem account_lt (h : Reachable s) {t : TaskId} {c : Caller} (hpc : s.pc = .account t c) :
    t < s.nTask :=
  held_lt h (account_held h hpc)

end Dicedev
