import Dicedev.Lib.Blocks
import Dicedev.Queue

/-!
# The stream in blocks

The commands of a task stand together in the stream and end with its fence, and in the
trace only the commands of a task stand between its start and its end. With the pipeline
this gives the contract of the queue, `fifo_one_at_a_time`.
-/

namespace Dicedev

open State

/-- The task whose commands the worker is feeding. -/
def WtPc.fedTask (pc : WtPc) (running : Option TaskId) : Option TaskId :=
  match pc with
  | .running _ => running
  | .fencing => running
  | _ => none

/-- What the trace says about finished tasks. -/
def Event.finished? : Event → Option TaskId
  | .finished t => some t
  | _ => none

/-- The task that fed the command of an entry of the trace. -/
def Event.fedBy? (e : Event) : Option TaskId := e.fed?.bind Fed.task?

variable {s s' : State} {l : Label}

/-! ## One entry more -/

/-- The trace is made of blocks: `fed` is the task whose commands still wait for their
fence, `device` the task that was started and not yet finished. -/
structure InBlocks (trace : List Event) (fed device : Option TaskId) : Prop where
  fenced : Blocks.Fenced Fed.fence? Fed.task? (trace.filterMap Event.fed?) fed
  bracketed : Blocks.Bracketed Event.started? Event.finished? trace device
  inside : Blocks.Inside Event.started? Event.finished? Event.fedBy? trace

namespace InBlocks

variable {trace : List Event} {fed device : Option TaskId} {t : TaskId}

theorem log (h : InBlocks trace fed device) {e : Event}
    (hfence : e.fed?.bind Fed.fence? = none) (hstart : e.started? = none)
    (hown : ∀ t, e.fedBy? = some t → fed = some t ∧ device = some t) :
    InBlocks (trace ++ [e]) fed device := by
  refine ⟨?_, h.bracketed.append hstart, h.inside.append h.bracketed fun t ht => (hown t ht).2⟩
  unfold Event.fedBy? at hown
  cases he : e.fed? with
  | none =>
    rw [filterMap_log_none he]
    exact h.fenced
  | some f =>
    rw [he] at hfence hown
    rw [filterMap_log_some he]
    exact h.fenced.append hfence fun t ht => (hown t ht).1

/-- An entry that no block depends on. -/
theorem note (h : InBlocks trace fed device) {e : Event}
    (hfence : e.fed?.bind Fed.fence? = none) (hstart : e.started? = none)
    (hfed : e.fedBy? = none) : InBlocks (trace ++ [e]) fed device := by
  refine h.log hfence hstart ?_
  intro t ht
  rw [hfed] at ht
  cases ht

theorem start (h : InBlocks trace none none) (t : TaskId) :
    InBlocks (trace ++ [.started t]) (some t) (some t) := by
  refine ⟨?_, h.bracketed.start rfl, h.inside.append h.bracketed ?_⟩
  · rw [filterMap_log_none rfl]
    exact h.fenced.start t
  · simp [Event.fedBy?, Event.fed?]

theorem fence (h : InBlocks trace (some t) device) (words : List Word) :
    InBlocks (trace ++ [.feed ⟨words, .fence t⟩]) none device := by
  refine ⟨?_, h.bracketed.append rfl, h.inside.append h.bracketed ?_⟩
  · rw [List.filterMap_append]
    exact h.fenced.close rfl rfl
  · simp [Event.fedBy?, Event.fed?, Fed.task?]

theorem finish (h : InBlocks trace fed (some t)) :
    InBlocks (trace ++ [.finished t]) fed none := by
  refine ⟨?_, h.bracketed.close rfl rfl, h.inside.append h.bracketed ?_⟩
  · rw [filterMap_log_none rfl]
    exact h.fenced
  · simp [Event.fedBy?, Event.fed?]

theorem unbound (h : InBlocks s.trace fed device) (b : BufId) :
    InBlocks (s.unbound b).trace fed device := by
  rcases trace_unbound s b with ht | ⟨i, -, ht⟩
  · rw [ht]
    exact h
  · rw [ht]
    exact h.note rfl rfl rfl

end InBlocks

/-! ## The blocks of the system's trace -/

def StreamBlocks (s : State) : Prop :=
  InBlocks s.trace (s.pc.fedTask s.runningTask) (s.pc.deviceTask s.runningTask)

theorem wokenPc_fedTask (s : State) (o : Option TaskId) :
    s.wokenPc.fedTask o = s.pc.fedTask o := by
  unfold wokenPc
  split
  · rename_i h
    rw [h]
    rfl
  · rfl

theorem wtPoll_fedTask (s : State) (o : Option TaskId) : s.wtPoll.fedTask o = none := by
  rcases wtPoll_cases s with h | h | h | h | ⟨h, -⟩ <;> rw [h] <;> rfl

theorem wtShutdown_fedTask (s : State) (o : Option TaskId) : s.wtShutdown.fedTask o = none := by
  rcases wtShutdown_cases s with h | h <;> rw [h] <;> rfl

theorem StreamBlocks.at (h : StreamBlocks s) {pc : WtPc} {fed device : Option TaskId}
    (hpc : s.pc = pc) (hfed : pc.fedTask s.runningTask = fed)
    (hdev : pc.deviceTask s.runningTask = device) : InBlocks s.trace fed device := by
  rw [← hfed, ← hdev, ← hpc]
  exact h

theorem StreamBlocks.woken (h : StreamBlocks s) :
    InBlocks s.trace (s.wokenPc.fedTask s.runningTask)
      (s.wokenPc.deviceTask s.runningTask) := by
  rw [wokenPc_fedTask, (wokenPc_views s _).2.1]
  exact h

theorem StreamBlocks.step (hc : Ctl s) (h : StreamBlocks s) (hs : Step s l s') :
    StreamBlocks s' := by
  cases hs with
  | openCtx | createSetRefused | createSet | runRefused | run | runCount | wait | waitLeave
  | releaseMark | releaseWait | releaseFree | writeRefused | write | writeFail | readNone
  | read | seed | dup | close | store | isrOff | isr | slotError | resume | halt => exact h
  | runQueue | writeQueue => exact h.woken.note rfl rfl rfl
  | waitReturn | fenceInterrupt | errorInterrupt => exact InBlocks.note h rfl rfl rfl
  | releaseBuffer c b rest => exact (InBlocks.unbound h b).note rfl rfl rfl
  | bufferRelease b => exact InBlocks.unbound h b
  | isrFence | suspend | remove => exact h.woken
  | head hpc => exact h.at hpc (wtPoll_fedTask s _).symm ((plain_wtPoll s).2.1 _).symm
  | polled hpc => exact h.at hpc rfl rfl
  | sleep hpc => exact h.at hpc rfl rfl
  | again hpc =>
    rcases hpc with hpc | hpc | hpc
    · exact h.at hpc rfl rfl
    · exact h.at hpc rfl rfl
    · exact h.at hpc rfl rfl
  | park hpc => exact h.at hpc rfl rfl
  | drop t rest hpc => exact h.at hpc rfl rfl
  | getNext t rest hpc => exact h.at hpc rfl rfl
  | bindSlot t b i hpc => exact (h.at hpc rfl rfl).note rfl rfl rfl
  | taskRun t hpc =>
    have h2 := hc.agrees hpc
    exact (h.at hpc rfl (hc.1.mpr h2.2)).start t
  | taskFinish t hpc => exact h.at hpc rfl rfl
  | runDone t hpc => exact h.at hpc rfl rfl
  | runSkip t left task left' hpc => exact h.at hpc rfl rfl
  | runFeed t left task words user left' hpc hrun =>
    refine (h.at hpc rfl rfl).log rfl rfl ?_
    intro u hu
    exact ⟨hrun.trans hu, hrun.trans hu⟩
  | runReject t left task hpc => exact (h.at hpc rfl rfl).note rfl rfl rfl
  | fence t hpc hrun => exact (h.at hpc hrun rfl).fence _
  | destroyUnbind t c b hpc => exact (h.at hpc rfl rfl).unbound b
  | destroyKeep t c hpc => exact h.at hpc rfl rfl
  | account t caller c b hpc =>
    have h2 := hc.agrees hpc
    cases caller with
    | drop => exact (h.at hpc rfl rfl).note rfl rfl rfl
    | finish => exact (h.at hpc rfl h2.1).finish
  | finishing hpc => exact h.at hpc rfl rfl
  | shutdown hpc =>
    exact h.at hpc (wtShutdown_fedTask s _).symm ((plain_wtShutdown s).2.1 _).symm

theorem streamBlocks_probed : StreamBlocks probed := by
  have hnone : ∀ f ∈ probed.stream, f.task? = none := by decide
  have hstart : ∀ e ∈ probed.trace, e.started? = none := by decide
  refine ⟨?_, ?_, ?_⟩
  · intro i t hi
    obtain ⟨f, hf, ht⟩ := Option.bind_eq_some_iff.mp hi
    rw [hnone f (List.mem_of_getElem? hf)] at ht
    cases ht
  · intro pre a mid t hl ha
    rw [hstart a (by rw [hl]; simp)] at ha
    cases ha
  · intro pre a mid b post t u hl ha
    rw [hstart a (by rw [hl]; simp)] at ha
    cases ha

theorem streamBlocks_reachable (h : Reachable s) : StreamBlocks s :=
  Machine.Reachable.invariant_of (fun _ => ctl_reachable) streamBlocks_probed
    (fun _ _ _ hc hI hs => hI.step hc (Step.of_step hs)) h

/-! ## The queueing order -/

/-- What the trace says about queued tasks. -/
def Event.queued? : Event → Option TaskId
  | .queued t => some t
  | _ => none

/-- The tasks passed to `dicedev_wt_add_task` so far, in this order. -/
def State.queuedTasks (s : State) : List TaskId := s.trace.filterMap Event.queued?

/-- The numbers of the tasks are their places in the queueing order. -/
def Numbered (s : State) : Prop := s.queuedTasks = List.range s.nTask

theorem Numbered.queued (h : Numbered s) (k : CallId) (task : Task) :
    Numbered (s.queued k task) := by
  have hq : (s.queued k task).queuedTasks = s.queuedTasks ++ [s.nTask] :=
    filterMap_log_some rfl
  unfold Numbered at h ⊢
  rw [hq, h]
  exact List.range_succ.symm

theorem Numbered.step (h : Numbered s) (hs : Step s l s') : Numbered s' := by
  cases hs with
  | openCtx | createSetRefused | createSet | runRefused | run | runCount | wait | waitLeave
  | releaseMark | releaseWait | releaseFree | writeRefused | write | writeFail | readNone
  | read | seed | dup | close | store | isrOff | isr | isrFence | slotError | suspend | resume
  | remove | head | polled | sleep | again | park | drop | getNext | taskFinish | runDone
  | runSkip | destroyKeep | finishing | shutdown | halt => exact h
  | runQueue k => exact h.queued k _
  | writeQueue k => exact h.queued k _
  | waitReturn | fenceInterrupt | errorInterrupt | bindSlot | taskRun | runFeed | runReject
  | fence => exact (filterMap_log_none rfl).trans h
  | releaseBuffer c b rest =>
    exact (filterMap_log_none rfl).trans ((filterMap_unbound (fun _ _ => rfl) s b).trans h)
  | bufferRelease b => exact (filterMap_unbound (fun _ _ => rfl) s b).trans h
  | destroyUnbind t c b => exact (filterMap_unbound (fun _ _ => rfl) s b).trans h
  | account t caller c b =>
    refine (filterMap_log_none ?_).trans h
    cases caller <;> rfl

theorem numbered_probed : Numbered probed := rfl

theorem numbered_reachable (h : Reachable s) : Numbered s :=
  Machine.Reachable.invariant numbered_probed
    (fun _ _ _ hI hs => hI.step (Step.of_step hs)) h

/-! ## The contract of the queue -/

/-- Where the driver keeps a task. -/
inductive Place
  | pending
  | next
  | running
  | destroyed

def State.InPlace (s : State) (t : TaskId) : Place → Prop
  | .pending => t ∈ s.pendingTasks
  | .next => s.nextTask = some t
  | .running => s.runningTask = some t
  | .destroyed => t ∈ s.gone

/-- The worker is in the middle of an event: it runs the task that `next_task` still points
to, drops a task it has taken off the queue, or has destroyed the task that `running_task`
still points to. -/
def WtPc.midEvent : WtPc → Bool
  | .running _ => true
  | .destroy _ .drop => true
  | .account _ .drop => true
  | .finishing => true
  | _ => false

theorem pipeline_of_not_midEvent (h : s.pc.midEvent = false) :
    s.pipeline =
      ⟨s.nTask, s.pendingTasks, s.nextTask, s.runningTask, none, s.started, s.gone⟩ := by
  unfold State.pipeline
  cases hpc : s.pc with
  | destroy t c =>
    rw [hpc] at h
    cases c with
    | drop => cases h
    | finish => rfl
  | account t c =>
    rw [hpc] at h
    cases c with
    | drop => cases h
    | finish => rfl
  | running left =>
    rw [hpc] at h
    cases h
  | finishing =>
    rw [hpc] at h
    cases h
  | _ => rfl

def Place.inPipeline : Place → Pipeline.Place
  | .pending => .waiting
  | .next => .next
  | .running => .running
  | .destroyed => .gone

/-- Between two events the places of the pipeline are the driver's own. -/
theorem place_of_not_midEvent (hv : s.pipeline.Valid) (hmid : s.pc.midEvent = false) {t : TaskId}
    (ht : t < s.nTask) : ∃! pl, s.InPlace t pl := by
  have hp := pipeline_of_not_midEvent hmid
  have hat : ∀ pl : Place, s.InPlace t pl ↔ s.pipeline.At t pl.inPipeline := by
    intro pl
    rw [hp]
    cases pl <;> exact Iff.rfl
  obtain ⟨pl, hpl, huniq⟩ := hv.place (t := t) ht
  have hex : ∃ pl' : Place, pl'.inPipeline = pl := by
    cases pl with
    | waiting => exact ⟨.pending, rfl⟩
    | next => exact ⟨.next, rfl⟩
    | running => exact ⟨.running, rfl⟩
    | gone => exact ⟨.destroyed, rfl⟩
    | dropping =>
      rw [hp] at hpl
      cases hpl
  obtain ⟨pl', rfl⟩ := hex
  refine ⟨pl', (hat pl').mpr hpl, ?_⟩
  intro pl'' h''
  have heq := huniq _ ((hat pl'').mp h'')
  cases pl' <;> cases pl'' <;> first | rfl | cases heq

/-- First in, first out, one at a time, without loss or duplication. A task that was queued
is in one place of the pipeline at every moment, and between two events of the worker it is
in one of the driver's four places; it is destroyed once; tasks start in the order in which
they were queued; between the start of a task and its end only its own commands are fed;
and a stretch of the stream without a fence has the commands of one task. -/
theorem fifo_one_at_a_time (h : Reachable s) :
    (∀ t ∈ s.queuedTasks, (∃! pl, s.pipeline.At t pl) ∧
      (s.pc.midEvent = false → ∃! pl, s.InPlace t pl)) ∧
    s.gone.Nodup ∧
    s.queuedTasks.Nodup ∧ s.started.Sublist s.queuedTasks ∧
    (∀ pre mid post t f u, s.trace = pre ++ .started t :: (mid ++ .feed f :: post) →
      .finished t ∉ mid → f.task? = some u → u = t) ∧
    (∀ pre mid post, s.stream = pre ++ mid ++ post → (∀ f ∈ mid, f.fence? = none) →
      ∀ f ∈ mid, ∀ g ∈ mid, ∀ t u, f.task? = some t → g.task? = some u → t = u) := by
  have hv := pipeline_reachable h
  have hb := streamBlocks_reachable h
  have hn := numbered_reachable h
  refine ⟨?_, hv.gone_nodup, ?_, ?_, ?_, ?_⟩
  · intro t ht
    rw [hn, List.mem_range] at ht
    exact ⟨hv.place ht, fun hmid => place_of_not_midEvent hv hmid ht⟩
  · rw [hn]
    exact List.nodup_range
  · rw [hn]
    exact hv.started_sublist
  · intro pre mid post t f u htrace hmid hu
    refine hb.inside pre (.started t) mid (.feed f) post t u htrace rfl ?_ hu
    intro c hc hct
    cases c with
    | finished v =>
      cases hct
      exact hmid hc
    | _ => cases hct
  · intro pre mid post hstream hmid f hf g hg t u ht hu
    exact hb.fenced.stretch hstream hmid hf hg ht hu

/-- One task on the device and one in the queue. -/
def twoTasks : List Label :=
  openOne ++ writeCall 0 0 0 (fun _ => 0) ++ startEmpty ++ writeCall 0 1 0 (fun _ => 0)

theorem fifo_one_at_a_time_twoTasks :
    ∃ s, system.exec probed twoTasks = some s ∧
      s.queuedTasks = [0, 1] ∧ s.started = [0] ∧ s.started.Sublist s.queuedTasks ∧
      (∃! pl, s.InPlace 0 pl) ∧ (∃! pl, s.InPlace 1 pl) := by
  have hseen : seenAfter twoTasks (fun s => (s.queuedTasks, s.started, s.pc.midEvent)) =
      some ([0, 1], [0], false) := by decide
  obtain ⟨s, hs, hr, hf⟩ := exists_seenAfter hseen
  simp only [Prod.mk.injEq] at hf
  obtain ⟨hq, hst, hmid⟩ := hf
  obtain ⟨hplace, -, -, hsub, -⟩ := fifo_one_at_a_time hr
  have h0 := (hplace 0 (by simp [hq])).2 hmid
  have h1 := (hplace 1 (by simp [hq])).2 hmid
  exact ⟨s, hs, hq, hst, hsub, h0, h1⟩

end Dicedev
