import Dicedev.Account

/-!
# Failed contexts

`ctx->failed` is set in two places: by the worker when `__wt_run_task` rejects a command, and
by the interrupt handler, for the context of `running_task`. It is never cleared, and the
worker tests it when it takes a task off the queue.

The worker takes the next task while another one is on the device. When both belong to one
context and the device then reports an error, the next task has already passed the test, and
it is run (`failed_prefetched`). `failed_not_started` is what holds when the interrupt handler
never finds such a task (`NotPrefetched`).
-/

namespace Dicedev

open State

variable {s s' : State} {l : Label}

/-! ## The flag -/

/-- The flags of all contexts. -/
def State.fails (s : State) : CtxId → Bool := Context.failed ∘ s.ctxs

/-- The step `l` finds a fault of the running task `t`: the worker rejects its next command,
or the interrupt handler sees an error of the device. -/
def State.Faults (s : State) (l : Label) (t : TaskId) : Prop :=
  s.runningTask = some t ∧
    ((l = .worker ∧ ∃ left task, s.pc = .running left ∧ s.passOf t left = .ok (task, .reject)) ∨
      (l = .isr ∧ s.intrEnable = true ∧ (s.intr.cmdError = true ∨ s.intr.memError = true)))

theorem fails_isrCtxs (s : State) :
    (s.runningTask = none ∨ ¬ (s.intr.cmdError = true ∨ s.intr.memError = true)) ∧
        Context.failed ∘ s.isrCtxs = s.fails ∨
      ∃ t, s.runningTask = some t ∧ (s.intr.cmdError = true ∨ s.intr.memError = true) ∧
        Context.failed ∘ s.isrCtxs = Function.update s.fails (s.tasks t).ctx true := by
  unfold isrCtxs
  split
  · rename_i hrun
    exact Or.inl ⟨Or.inl hrun, rfl⟩
  · rename_i t hrun
    split
    · rename_i herr
      exact Or.inr ⟨t, hrun, herr, Function.comp_update _ _ _ _⟩
    · rename_i herr
      exact Or.inl ⟨Or.inr herr, rfl⟩

/-- The flags change only by a fault of the running task, and then for its context only. -/
theorem fails_step (hr : Reachable s) (hs : Step s l s') :
    s'.fails = s.fails ∨
      ∃ t, s.Faults l t ∧ s'.fails = Function.update s.fails (s.tasks t).ctx true := by
  cases hs with
  | createSetRefused | runRefused | run | runQueue | wait | waitLeave | waitReturn | writeRefused
  | writeQueue | readNone | read | seed | dup | close | bufferRelease | store | isrOff
  | fenceInterrupt | errorInterrupt | slotError | suspend | resume | remove | head | polled
  | sleep | again | park | drop | getNext | bindSlot | taskRun | taskFinish | runDone | runSkip
  | runFeed | fence | destroyUnbind | destroyKeep | finishing | shutdown | halt =>
    exact Or.inl rfl
  | openCtx addr =>
    refine Or.inl (comp_update_of_eq ?_)
    rw [Names.ctx_fresh (scope_reachable hr) s.nCtx (Nat.le_refl _)]
    rfl
  | createSet | runCount | releaseMark | releaseWait | releaseBuffer | releaseFree | write
  | writeFail | account => exact Or.inl (comp_update_of_eq rfl)
  | isr hen =>
    rcases fails_isrCtxs s with ⟨-, heq⟩ | ⟨t, hrun, herr, heq⟩
    · exact Or.inl heq
    · exact Or.inr ⟨t, ⟨hrun, Or.inr ⟨rfl, hen, herr⟩⟩, heq⟩
  | isrFence u hen =>
    rcases fails_isrCtxs s with ⟨-, heq⟩ | ⟨t, hrun, herr, heq⟩
    · exact Or.inl heq
    · exact Or.inr ⟨t, ⟨hrun, Or.inr ⟨rfl, hen, herr⟩⟩, heq⟩
  | runReject t left task hpc hrun hpass =>
    refine Or.inr ⟨t, ⟨hrun, Or.inl ⟨rfl, left, task, hpc, hpass⟩⟩, ?_⟩
    have hctx : task.ctx = (s.tasks t).ctx := congrArg TaskSig.ctx (passOf_sig hpass)
    rw [← hctx]
    exact Function.comp_update _ _ _ _

/-- `failed` is never cleared. -/
theorem failed_sticky (hr : Reachable s) (hs : Step s l s') {c : CtxId}
    (hc : s.fails c = true) : s'.fails c = true := by
  rcases fails_step hr hs with heq | ⟨t, -, heq⟩
  · rw [heq]
    exact hc
  · rw [heq]
    by_cases hct : c = (s.tasks t).ctx
    · rw [hct, Function.update_self]
    · rw [Function.update_of_ne hct]
      exact hc

/-! ## Dropped tasks -/

/-- How a step changes the task that is being dropped: there is none, it stays, or it is a
task whose context has failed. -/
theorem dropping_step (hs : Step s l s') :
    s'.pc.droppedTask = none ∨ s'.pc.droppedTask = s.pc.droppedTask ∨
      ∃ t ∈ s.pendingTasks, s'.pc.droppedTask = some t ∧ s.fails (s.sig t).ctx = true := by
  cases hs with
  | openCtx | createSetRefused | createSet | runRefused | run | runCount | wait | waitLeave
  | waitReturn | releaseMark | releaseWait | releaseBuffer | releaseFree | writeRefused | write
  | writeFail | readNone | read | seed | dup | close | bufferRelease | store | isrOff | isr
  | fenceInterrupt | errorInterrupt | slotError | resume | halt => exact Or.inr (Or.inl rfl)
  | runQueue | writeQueue | isrFence | suspend | remove =>
    exact Or.inr (Or.inl (wokenPc_views s none).2.2)
  | head => exact Or.inl (plain_wtPoll s).2.2
  | shutdown => exact Or.inl (plain_wtShutdown s).2.2
  | polled | sleep | again | park | getNext | bindSlot | taskRun | taskFinish | runDone | runSkip
  | runFeed | runReject | fence | finishing => exact Or.inl rfl
  | destroyUnbind t c b hpc | destroyKeep t c hpc =>
    refine Or.inr (Or.inl ?_)
    rw [hpc]
    cases c <;> rfl
  | account t caller =>
    refine Or.inl ?_
    cases caller <;> rfl
  | drop t rest hpc hpend hfail =>
    exact Or.inr (Or.inr ⟨t, by rw [hpend]; exact List.mem_cons_self, rfl, hfail⟩)

/-- Only tasks of failed contexts are dropped. -/
def DropSound (s : State) : Prop :=
  ∀ t, s.pc.droppedTask = some t → s.fails (s.sig t).ctx = true

theorem DropSound.step (hr : Reachable s) (h : DropSound s) (hs : Step s l s') :
    DropSound s' := by
  intro t ht
  rcases dropping_step hs with hnone | hsame | ⟨u, hu, hdrop, hfail⟩
  · rw [hnone] at ht
    cases ht
  · rw [hsame] at ht
    have hheld : s.pipeline.Held t := Or.inr (Or.inr ht)
    rw [ctx_step hs (held_lt hr hheld)]
    exact failed_sticky hr hs (h t ht)
  · rw [hdrop] at ht
    cases ht
    rw [ctx_step hs (pending_lt hr hu)]
    exact failed_sticky hr hs hfail

theorem dropSound_reachable (h : Reachable s) : DropSound s :=
  Machine.Reachable.invariant_of (fun _ hr => hr) (fun t ht => by cases ht)
    (fun _ _ _ hr hI hs => hI.step hr (Step.of_step hs)) h

theorem gone_of_mem {e : Event} {t : TaskId} (he : e ∈ s.trace) (ht : e.gone? = some t) :
    t ∈ s.gone :=
  List.mem_filterMap.mpr ⟨e, he, ht⟩

/-- The context of a task that was dropped has failed. -/
theorem dropped_failed (h : Reachable s) {t : TaskId} (ht : .dropped t ∈ s.trace) :
    s.fails (s.sig t).ctx = true := by
  refine entries_reachable (P := fun s e => ∀ t, e = .dropped t → s.fails (s.sig t).ctx = true)
    (fun f t hf => by cases hf) ?_ ?_ h _ ht t rfl
  · rintro s l s' hr hs e he t rfl
    have hpc : s.pc = .account t .drop := he
    rw [ctx_step hs (account_lt hr hpc)]
    refine failed_sticky hr hs (dropSound_reachable hr t ?_)
    rw [hpc]
    rfl
  · rintro s l s' hr hs e hmem he t rfl
    rw [ctx_step hs (gone_lt hr (gone_of_mem hmem rfl))]
    exact failed_sticky hr hs (he t rfl)

/-! ## The prefetched task -/

/-- How a step changes the prefetched task: it goes, it stays, or it is a task that has just
passed the test for `failed`. -/
theorem next_step (hs : Step s l s') :
    s'.pipeline.next = none ∨ s'.pipeline.next = s.pipeline.next ∨
      ∃ t ∈ s.pendingTasks, s'.pipeline.next = some t ∧ s.fails (s.sig t).ctx = false ∧
        s'.fails = s.fails := by
  have hpc : ∀ {pc pc' : WtPc}, s.pc = pc →
      pc'.waitingTask s.nextTask = pc.waitingTask s.nextTask →
      pc'.waitingTask s.nextTask = s.pipeline.next := by
    rintro pc pc' rfl h
    exact h
  cases hs with
  | openCtx | createSetRefused | createSet | runRefused | run | runCount | wait | waitLeave
  | waitReturn | releaseMark | releaseWait | releaseBuffer | releaseFree | writeRefused | write
  | writeFail | readNone | read | seed | dup | close | bufferRelease | store | isrOff | isr
  | fenceInterrupt | errorInterrupt | slotError | resume | halt => exact Or.inr (Or.inl rfl)
  | runQueue | writeQueue | isrFence | suspend | remove =>
    exact Or.inr (Or.inl (wokenPc_views s _).1)
  | head h => exact Or.inr (Or.inl (hpc h ((plain_wtPoll s).1 _)))
  | shutdown h => exact Or.inr (Or.inl (hpc h ((plain_wtShutdown s).1 _)))
  | polled h | sleep h | park h => exact Or.inr (Or.inl (hpc h rfl))
  | again h =>
    rcases h with h | h | h
    · exact Or.inr (Or.inl (hpc h rfl))
    · exact Or.inr (Or.inl (hpc h rfl))
    · exact Or.inr (Or.inl (hpc h rfl))
  | drop t rest h | bindSlot t b i h | taskFinish t h | fence t h | destroyUnbind t c b h
  | destroyKeep t c h => exact Or.inr (Or.inl (hpc h rfl))
  | finishing h => exact Or.inr (Or.inl (hpc h rfl))
  | account t caller c b h =>
    refine Or.inr (Or.inl (hpc h ?_))
    cases caller <;> rfl
  | getNext t rest h hpend hfail =>
    exact Or.inr (Or.inr ⟨t, by rw [hpend]; exact List.mem_cons_self, rfl, hfail, rfl⟩)
  | taskRun | runDone | runSkip | runFeed | runReject => exact Or.inl rfl

/-- When the interrupt handler sees an error, no other task of the context is prefetched. The test
of `ctx->failed` and the store to `next_task` are one step of the worker, so `next_task` stands
here also for a task that `WT_EVENT_TASK_GET_NEXT` has tested and not yet stored. -/
def NotPrefetched (s : State) : Label → Prop
  | .isr => s.intrEnable = true → s.intr.cmdError = true ∨ s.intr.memError = true →
    ∀ r ∈ s.runningTask, ∀ t ∈ s.nextTask, t = r ∨ (s.tasks t).ctx ≠ (s.tasks r).ctx
  | _ => True

instance (s : State) (l : Label) : Decidable (NotPrefetched s l) := by
  apply @Label.casesOn (fun l => Decidable (NotPrefetched s l)) l <;> intros <;>
    unfold NotPrefetched <;> infer_instance

/-- The context of a prefetched task has not failed. -/
def NextSound (s : State) : Prop := ∀ t, s.pipeline.next = some t → s.fails (s.sig t).ctx = false

theorem nextTask_of_next {t : TaskId} (h : s.pipeline.next = some t) : s.nextTask = some t := by
  have hnext : s.pc.waitingTask s.nextTask = some t := h
  unfold WtPc.waitingTask at hnext
  split at hnext
  · cases hnext
  · exact hnext

/-- A fault that the condition allows is not a fault of the prefetched task's context. -/
theorem State.Faults.ctx_ne (hr : Reachable s) (hC : NotPrefetched s l) {r t : TaskId}
    (hf : s.Faults l r) (hnext : s.pipeline.next = some t) : (s.sig t).ctx ≠ (s.tasks r).ctx := by
  obtain ⟨hrun, hwhy⟩ := hf
  rcases hwhy with ⟨-, left, task, hpc, -⟩ | ⟨rfl, hen, herr⟩
  · have hnone : s.pc.waitingTask s.nextTask = some t := hnext
    rw [hpc] at hnone
    cases hnone
  · rcases hC hen herr r hrun t (nextTask_of_next hnext) with rfl | hne
    · have hstarted := running_started hr hrun
      exact absurd hnext ((pipeline_reachable hr).started_lt t hstarted).2.1
    · exact hne

theorem NextSound.step (hr : Reachable s) (h : NextSound s) (hC : NotPrefetched s l)
    (hs : Step s l s') : NextSound s' := by
  intro t ht
  rcases next_step hs with hnext | hnext | ⟨u, hu, hnext, hfail, heq⟩
  · rw [hnext] at ht
    cases ht
  · have hold : s.pipeline.next = some t := hnext.symm.trans ht
    have hheld : s.pipeline.Held t := Or.inl hold
    rw [ctx_step hs (held_lt hr hheld)]
    rcases fails_step hr hs with heq | ⟨r, hf, heq⟩
    · rw [heq]
      exact h t hold
    · rw [heq, Function.update_of_ne (hf.ctx_ne hr hC hold)]
      exact h t hold
  · rw [hnext] at ht
    cases ht
    rw [heq, ctx_step hs (pending_lt hr hu)]
    exact hfail

theorem nextSound_reachable (h : system.ReachableBy NotPrefetched s) : NextSound s :=
  Machine.ReachableBy.invariant_of (fun _ hr => hr) (fun t ht => by cases ht)
    (fun _ _ _ hr hI hC hs => hI.step hr hC (Step.of_step hs)) h

/-- What a step starts is the prefetched task. -/
theorem start_step (hr : Reachable s) (hs : Step s l s') :
    s'.started = s.started ∨
      ∃ t, s.pipeline.next = some t ∧ s'.started = s.started ++ [t] := by
  rcases pipeline_step (ctl_reachable hr) hs with heq | hm
  · exact Or.inl (congrArg Pipeline.started heq)
  · exact hm.started

theorem started_lt (h : Reachable s) {t : TaskId} (ht : t ∈ s.started) : t < s.nTask :=
  Nat.lt_of_lt_of_le ((pipeline_reachable h).started_lt t ht).1 (fetched_le s)

/-- From `s` on, flags stay and the tasks that were started are of contexts that had not
failed. -/
def StartsSound (s u : State) : Prop :=
  (∀ c, s.fails c = true → u.fails c = true) ∧
    ∀ t ∈ u.started, t ∉ s.started → s.fails (u.sig t).ctx = false

theorem StartsSound.step {u u' : State} (hu : system.ReachableBy NotPrefetched u)
    (h : StartsSound s u) (hs : Step u l u') : StartsSound s u' := by
  have hr := hu.reachable
  refine ⟨fun c hc => failed_sticky hr hs (h.1 c hc), ?_⟩
  intro t ht hnew
  have hold : t ∈ u.started → s.fails (u'.sig t).ctx = false := by
    intro hmem
    rw [ctx_step hs (started_lt hr hmem)]
    exact h.2 t hmem hnew
  rcases start_step hr hs with heq | ⟨r, hnext, heq⟩
  · rw [heq] at ht
    exact hold ht
  · rw [heq, List.mem_append, List.mem_singleton] at ht
    rcases ht with ht | rfl
    · exact hold ht
    · have hheld : u.pipeline.Held t := Or.inl hnext
      have hopen := nextSound_reachable hu t hnext
      rw [ctx_step hs (held_lt hr hheld)]
      cases hf : s.fails (u.sig t).ctx with
      | false => rfl
      | true => exact absurd ((h.1 _ hf).symm.trans hopen) (by decide)

/-- When the interrupt handler never finds a prefetched task of the failing context, a task
that is started after some moment belongs to a context that had not failed at that moment. -/
theorem failed_not_started (h : system.ReachableBy NotPrefetched s) :
    (∀ l s' t, system.step s l = some s' → s'.started = s.started ++ [t] →
      (s.ctxs (s.tasks t).ctx).failed = false) ∧
    ∀ ls s', (system.guarded NotPrefetched).exec s ls = some s' →
      ∀ t ∈ s'.started, t ∉ s.started → (s.ctxs (s'.tasks t).ctx).failed = false := by
  refine ⟨?_, ?_⟩
  · intro l s' t hs hstart
    rcases start_step h.reachable (Step.of_step hs) with heq | ⟨u, hnext, heq⟩
    · rw [hstart] at heq
      simp at heq
    · rw [hstart, List.append_cancel_left_eq, List.singleton_inj] at heq
      subst heq
      exact nextSound_reachable h t hnext
  · intro ls s' hrun
    have hI : system.ReachableBy NotPrefetched s' ∧ StartsSound s s' := by
      refine Machine.exec_invariant
        (I := fun u => system.ReachableBy NotPrefetched u ∧ StartsSound s u) ?_ ?_ hrun
      · rintro u l u' ⟨hu, hsound⟩ hstep
        obtain ⟨hC, hs⟩ := Machine.guarded_step hstep
        exact ⟨hu.step hC hs, hsound.step hu (Step.of_step hs)⟩
      · exact ⟨h, fun _ hc => hc, fun t ht hnew => absurd ht hnew⟩
    exact hI.2.2

/-- The words of a `GET_DIE` of one die. -/
def oneDie : Nat → Word := fun i => if i = 0 then 0x12 else 0x20

/-- The worker runs the task of one `GET_DIE` at the head of the queue and prefetches the next
task. Then the device reports an error and reaches the fence, and the worker is about to run
the prefetched task. -/
def errorBetween : List Label :=
  workerSteps 15 ++ [.errorInterrupt 17 false, .isr] ++ finishTask ++ workerSteps 5

/-- Two contexts with a task each. -/
def failedFirst : List Label :=
  openOne ++ [.openCtx 8, .createSet 1 4096 0x20 0x2000] ++ writeCall 0 0 8 oneDie ++
    writeCall 1 1 0 (fun _ => 0) ++ errorBetween

theorem failed_not_started_failedFirst :
    ∃ s s', system.ReachableBy NotPrefetched s ∧ system.step s .worker = some s' ∧
      s'.started = s.started ++ [1] ∧ (s.ctxs 0).failed = true ∧
      (s.ctxs (s.tasks 1).ctx).failed = false := by
  have hseen : seenBy NotPrefetched failedFirst (fun s => ((s.ctxs 0).failed,
      (system.step s .worker).map fun s' => (s.started, s'.started))) =
      some (true, some ([0], [0, 1])) := by
    decide +kernel
  obtain ⟨s, hr, hf⟩ := exists_seenBy hseen
  simp only [Prod.mk.injEq, Option.map_eq_some_iff] at hf
  obtain ⟨hfailed, s', hs', hold, hnew⟩ := hf
  have hstart : s'.started = s.started ++ [1] := by
    rw [hold, hnew]
    rfl
  exact ⟨s, s', hr, hs', hstart, hfailed, (failed_not_started hr).1 .worker s' 1 hs' hstart⟩

/-- A context with two tasks. -/
def failedBoth : List Label :=
  openOne ++ writeCall 0 0 8 oneDie ++ writeCall 0 1 0 (fun _ => 0) ++ errorBetween

/-- The second task of the failed context is started. -/
theorem failed_prefetched :
    ∃ s s', system.exec probed failedBoth = some s ∧ s.pc = .event .taskRun ∧
      (s.ctxs (s.tasks 1).ctx).failed = true ∧ system.step s .worker = some s' ∧
      s'.started = s.started ++ [1] := by
  have hseen : seenAfter failedBoth (fun s => (s.pc, (s.ctxs (s.tasks 1).ctx).failed,
      (system.step s .worker).map fun s' => (s.started, s'.started))) =
      some (.event .taskRun, true, some ([0], [0, 1])) := by
    decide +kernel
  obtain ⟨s, hs, -, hf⟩ := exists_seenAfter hseen
  simp only [Prod.mk.injEq, Option.map_eq_some_iff] at hf
  obtain ⟨hpc, hfailed, s', hs', hold, hnew⟩ := hf
  refine ⟨s, s', hs, hpc, hfailed, hs', ?_⟩
  rw [hold, hnew]
  rfl

end Dicedev
