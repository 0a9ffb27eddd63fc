import Dicedev.Wait

/-!
# Whose fault it is

A context fails because the worker rejects a command of one of its tasks, or because the
device reports an error of one. The interrupt handler does not learn which command it was
and blames the running task. That is right: the device reports an error before the next
fence, and until that fence is reached the running task is the one whose commands stand in
front of it (`error_running`). So an error waits for the handler only while its task is
running and the driver has not seen the fence, and when the task is destroyed the context has
been blamed: `failure_attributed`.
-/

namespace Dicedev

open State

variable {s s' : State} {l : Label}

/-- A fault: the worker rejected a command of the task, or the device reported an error of
one. -/
inductive Fault
  | reject (t : TaskId)
  | device (t : TaskId)
  deriving DecidableEq

def Fault.task : Fault → TaskId
  | .reject t => t
  | .device t => t

/-- What the trace says about faults. -/
def Event.fault? : Event → Option Fault
  | .rejected t => some (.reject t)
  | .deviceError t => some (.device t)
  | _ => none

/-- The faults so far, oldest first. -/
def State.faults (s : State) : List Fault := s.trace.filterMap Event.fault?

/-- An error waits for the interrupt handler. -/
def Intr.err (i : Intr) : Bool := i.cmdError || i.memError

theorem Intr.err_iff (i : Intr) : i.err = true ↔ i.cmdError = true ∨ i.memError = true :=
  Bool.or_eq_true _ _ ▸ Iff.rfl

/-! ## Faults and flags -/

/-- Faults and the flags of contexts: an error that waits is the running task's, and no fence
has been seen since; a task with a fault has failed its context, unless the error waits; and
every flag has a fault behind it. -/
structure Blamed (running : Option TaskId) (fence : FenceState) (err : Bool)
    (faults : List Fault) (fails : CtxId → Bool) (ctxOf : TaskId → CtxId) : Prop where
  pending : err = true → fence = .waiting ∧ ∃ r, .device r ∈ faults ∧ running = some r
  failed : ∀ f ∈ faults, fails (ctxOf f.task) = true ∨ (running = some f.task ∧ err = true)
  caused : ∀ c, fails c = true → ∃ f ∈ faults, ctxOf f.task = c

namespace Blamed

variable {running : Option TaskId} {fence : FenceState} {err err' : Bool}
  {faults faults' : List Fault} {fails fails' : CtxId → Bool} {ctxOf ctxOf' : TaskId → CtxId}

theorem of_eq (h : Blamed running fence err faults fails ctxOf) (hfaults : faults' = faults)
    (hfails : fails' = fails) : Blamed running fence err faults' fails' ctxOf := by
  rw [hfaults, hfails]
  exact h

theorem congr_ctx (h : Blamed running fence err faults fails ctxOf)
    (hctx : ∀ f ∈ faults, ctxOf' f.task = ctxOf f.task) :
    Blamed running fence err faults fails ctxOf' := by
  refine ⟨h.pending, ?_, ?_⟩
  · intro f hf
    rw [hctx f hf]
    exact h.failed f hf
  · intro c hc
    obtain ⟨f, hf, rfl⟩ := h.caused c hc
    exact ⟨f, hf, hctx f hf⟩

theorem err_false (h : Blamed running fence err faults fails ctxOf) (hf : fence ≠ .waiting) :
    err = false :=
  Bool.eq_false_iff.mpr fun he => hf (h.pending he).1

/-- Without an error that waits, the running task and the fence do not matter. -/
theorem turn (h : Blamed running fence err faults fails ctxOf) (he : err = false)
    (he' : err' = false) (running' : Option TaskId) (fence' : FenceState) :
    Blamed running' fence' err' faults fails ctxOf := by
  subst he he'
  refine ⟨fun he => absurd he Bool.false_ne_true, ?_, h.caused⟩
  intro f hf
  rcases h.failed f hf with hfail | ⟨-, he⟩
  · exact Or.inl hfail
  · cases he

/-- The device reports an error of the running task. -/
theorem raise (h : Blamed running fence err faults fails ctxOf) {t : TaskId}
    (hrun : running = some t) (hf : fence = .waiting) :
    Blamed running fence true (faults ++ [.device t]) fails ctxOf := by
  refine ⟨fun _ => ⟨hf, t, by simp, hrun⟩, ?_, ?_⟩
  · intro f hmem
    rcases List.mem_append.mp hmem with hmem | hmem
    · exact (h.failed f hmem).imp_right fun hw => ⟨hw.1, rfl⟩
    · rw [List.mem_singleton] at hmem
      subst hmem
      exact Or.inr ⟨hrun, rfl⟩
  · intro c hc
    obtain ⟨f, hmem, hfc⟩ := h.caused c hc
    exact ⟨f, List.mem_append_left _ hmem, hfc⟩

/-- The context of the task `t` is blamed, for a fault of `t`, old or new. -/
theorem blame (h : Blamed running fence err faults fails ctxOf) {t : TaskId}
    (hold : ∀ f ∈ faults, f ∈ faults') (hnew : ∀ f ∈ faults', f ∈ faults ∨ f.task = t)
    (hwhy : ∃ f ∈ faults', f.task = t) :
    Blamed running fence err faults' (Function.update fails (ctxOf t) true) ctxOf := by
  refine ⟨?_, ?_, ?_⟩
  · intro he
    obtain ⟨hf, r, hr, hrun⟩ := h.pending he
    exact ⟨hf, r, hold _ hr, hrun⟩
  · intro f hf
    by_cases hft : ctxOf f.task = ctxOf t
    · rw [hft, Function.update_self]
      exact Or.inl rfl
    · rw [Function.update_of_ne hft]
      rcases hnew f hf with hf | rfl
      · exact h.failed f hf
      · exact absurd rfl hft
  · intro c hc
    by_cases hct : c = ctxOf t
    · obtain ⟨f, hf, rfl⟩ := hwhy
      exact ⟨f, hf, hct.symm⟩
    · rw [Function.update_of_ne hct] at hc
      obtain ⟨f, hf, hfc⟩ := h.caused c hc
      exact ⟨f, hold f hf, hfc⟩

/-- The worker rejects a command of the task `t`. -/
theorem reject (h : Blamed running fence err faults fails ctxOf) (t : TaskId) :
    Blamed running fence err (faults ++ [.reject t]) (Function.update fails (ctxOf t) true)
      ctxOf := by
  refine h.blame (fun f hf => List.mem_append_left _ hf) ?_ ⟨.reject t, by simp, rfl⟩
  intro f hf
  rcases List.mem_append.mp hf with hf | hf
  · exact Or.inl hf
  · rw [List.mem_singleton] at hf
    subst hf
    exact Or.inr rfl

/-- The interrupt handler blames the running task for the error that waits. -/
theorem clear (h : Blamed running fence err faults fails ctxOf) (he : err = true) {t : TaskId}
    (hrun : running = some t) (fence' : FenceState) :
    Blamed running fence' false faults (Function.update fails (ctxOf t) true) ctxOf := by
  obtain ⟨-, r, hr, hrun'⟩ := h.pending he
  rw [hrun] at hrun'
  cases hrun'
  have hb := h.blame (fun f hf => hf) (fun f hf => Or.inl hf) ⟨.device t, hr, rfl⟩
  refine ⟨fun he => absurd he Bool.false_ne_true, ?_, hb.caused⟩
  intro f hf
  rcases hb.failed f hf with hfail | ⟨hft, -⟩
  · exact Or.inl hfail
  · rw [hrun] at hft
    cases hft
    exact Or.inl (Function.update_self _ _ _)

end Blamed

/-! ## The running task is to blame -/

/-- A fault that a step writes into the trace is one of the running task, and the driver has
not seen the fence of the task. -/
theorem fault_running (hr : Reachable s) {e : Event} {f : Fault} (hlog : s.Logs e)
    (hf : e.fault? = some f) : s.runningTask = some f.task ∧ s.fenceState = .waiting := by
  cases e with
  | rejected t =>
    cases hf
    obtain ⟨hrun, left, hpc⟩ := hlog
    have hfed : s.pc.fedTask s.runningTask = some t := by
      rw [hpc]
      exact hrun
    exact ⟨hrun, ((deviceInv_reachable hr).phase.of_fed hfed).2.2⟩
  | deviceError t =>
    cases hf
    obtain ⟨i, hcmd, hfence⟩ := hlog
    exact error_running hr hcmd hfence
  | _ => cases hf

/-- A step finds faults of the running task only, and only before the task is destroyed. -/
theorem faults_step (hr : Reachable s) (hs : Step s l s') :
    ∃ fs, s'.faults = s.faults ++ fs ∧
      ∀ f ∈ fs, s.runningTask = some f.task ∧ f.task ∉ s.gone := by
  obtain ⟨es, ht, hes⟩ := logs_step hs
  refine ⟨es.filterMap Event.fault?, ?_, ?_⟩
  · unfold State.faults
    rw [ht, List.filterMap_append]
  · intro f hf
    obtain ⟨e, he, hef⟩ := List.mem_filterMap.mp hf
    obtain ⟨hrun, hfence⟩ := fault_running hr (hes e he) hef
    exact ⟨hrun, not_gone_of_held hr (running_held hr hrun hfence)⟩

theorem fault_started (h : Reachable s) {f : Fault} (hf : f ∈ s.faults) : f.task ∈ s.started := by
  obtain ⟨e, he, hef⟩ := List.mem_filterMap.mp hf
  refine entries_reachable (P := fun s e => ∀ f, e.fault? = some f → f.task ∈ s.started)
    (fun _ f hf => by cases hf) ?_ ?_ h e he f hef
  · intro s l s' hr hs e hlog f hf
    exact mem_filterMap_step hs (running_started hr (fault_running hr hlog hf).1)
  · intro s l s' hr hs e _ hP f hf
    exact mem_filterMap_step hs (hP f hf)

theorem fault_lt (h : Reachable s) {f : Fault} (hf : f ∈ s.faults) : f.task < s.nTask :=
  started_lt h (fault_started h hf)

/-! ## Every step blames the right context -/

/-- Faults and flags of a state. -/
def Blames (s : State) : Prop :=
  Blamed s.runningTask s.fenceState s.intr.err s.faults s.fails fun t => (s.sig t).ctx

theorem Blames.isr (h : Blames s) (fence : FenceState) :
    Blamed s.runningTask fence false s.faults (Context.failed ∘ s.isrCtxs)
      fun t => (s.sig t).ctx := by
  cases herr : s.intr.err with
  | true =>
    rcases fails_isrCtxs s with ⟨hno, -⟩ | ⟨t, hrun, -, heq⟩
    · obtain ⟨-, r, -, hrun⟩ := Blamed.pending h herr
      rcases hno with hno | hno
      · rw [hno] at hrun
        cases hrun
      · exact absurd (s.intr.err_iff.mp herr) hno
    · rw [heq]
      exact Blamed.clear h herr hrun fence
  | false =>
    rcases fails_isrCtxs s with ⟨-, heq⟩ | ⟨t, -, he, -⟩
    · rw [heq]
      exact Blamed.turn h herr rfl _ fence
    · rw [s.intr.err_iff.mpr he] at herr
      cases herr

/-- The step, with the tasks' contexts as they were. -/
theorem Blames.step_old (hr : Reachable s) (h : Blames s) (hs : Step s l s') :
    Blamed s'.runningTask s'.fenceState s'.intr.err s'.faults s'.fails
      fun t => (s.sig t).ctx := by
  cases hs with
  | createSetRefused | runRefused | run | wait | waitLeave | writeRefused | readNone | read | seed
  | dup | close | store | isrOff | slotError | suspend | resume | remove | head | polled | sleep
  | again | park | drop | getNext | taskFinish | runDone | runSkip | destroyKeep | shutdown
  | halt => exact h
  | openCtx addr =>
    refine h.of_eq rfl (comp_update_of_eq ?_)
    rw [Names.ctx_fresh (scope_reachable hr) s.nCtx (Nat.le_refl _)]
    rfl
  | createSet | runCount | releaseMark | releaseWait | releaseFree | write | writeFail =>
    exact h.of_eq rfl (comp_update_of_eq rfl)
  | runQueue | writeQueue | waitReturn | fenceInterrupt | bindSlot | runFeed | fence =>
    exact h.of_eq (filterMap_log_none rfl) rfl
  | bufferRelease b => exact h.of_eq (filterMap_unbound (fun _ _ => rfl) s b) rfl
  | destroyUnbind t c b => exact h.of_eq (filterMap_unbound (fun _ _ => rfl) s b) rfl
  | releaseBuffer c b =>
    exact h.of_eq ((filterMap_log_none rfl).trans (filterMap_unbound (fun _ _ => rfl) s b))
      (comp_update_of_eq rfl)
  | account t caller =>
    refine h.of_eq (filterMap_log_none ?_) (comp_update_of_eq rfl)
    cases caller <;> rfl
  | isr => exact h.isr _
  | isrFence => exact h.isr _
  | errorInterrupt i mem t hcmd hfence =>
    obtain ⟨hrun, hwait⟩ := error_running hr hcmd hfence
    have herr : (if mem then { s.intr with memError := true }
        else { s.intr with cmdError := true }).err = true := by
      cases mem <;> simp [Intr.err]
    have hfaults : (s.trace ++ [Event.deviceError t]).filterMap Event.fault? =
        s.faults ++ [.device t] := filterMap_log_some rfl
    change Blamed s.runningTask s.fenceState _ ((s.trace ++ [Event.deviceError t]).filterMap
      Event.fault?) s.fails _
    rw [herr, hfaults]
    exact Blamed.raise h hrun hwait
  | taskRun t hpc =>
    have h2 := (ctl_reachable hr).agrees hpc
    -- the device is idle, so no error waits
    have herr := Blamed.err_false h (by rw [h2.2]; decide)
    exact (Blamed.turn h herr herr _ _).of_eq (filterMap_log_none rfl) rfl
  | finishing hpc =>
    have h2 := (ctl_reachable hr).agrees hpc
    -- the fence has been seen, so no error waits
    have herr := Blamed.err_false h (by rw [h2.2]; decide)
    have herr' : (if s.devFailed then Intr.clear else s.intr).err = false := by
      split
      · rfl
      · exact herr
    exact Blamed.turn h herr herr' _ _
  | runReject t left task hpc hrun hpass =>
    have hctx : task.ctx = (s.sig t).ctx := congrArg TaskSig.ctx (passOf_sig hpass)
    have hfails : Context.failed ∘ Function.update s.ctxs task.ctx
        { s.ctxs task.ctx with failed := true } = Function.update s.fails (s.sig t).ctx true := by
      rw [← hctx]
      exact Function.comp_update _ _ _ _
    exact (Blamed.reject h t).of_eq (filterMap_log_some rfl) hfails

theorem Blames.step (hr : Reachable s) (h : Blames s) (hs : Step s l s') : Blames s' := by
  refine (h.step_old hr hs).congr_ctx ?_
  intro f hf
  refine ctx_step hs ?_
  obtain ⟨fs, hfs, hnew⟩ := faults_step hr hs
  rw [hfs] at hf
  rcases List.mem_append.mp hf with hf | hf
  · exact fault_lt hr hf
  · exact running_lt hr (hnew f hf).1

theorem blames_probed : Blames probed := by
  have hfaults : probed.faults = [] := by decide
  refine ⟨?_, ?_, ?_⟩
  · intro he
    cases he
  · intro f hf
    rw [hfaults] at hf
    cases hf
  · intro c hc
    cases hc

theorem blames_reachable (h : Reachable s) : Blames s :=
  Machine.Reachable.invariant_of (fun _ hr => hr) blames_probed
    (fun _ _ _ hr hI hs => hI.step hr (Step.of_step hs)) h

/-- When a task with a fault leaves `task_count`, its context has failed. -/
theorem fault_failed (h : Reachable s) {f : Fault} (hf : f ∈ s.faults)
    (hgone : f.task ∈ s.gone ∨ ∃ caller, s.pc = .account f.task caller) :
    s.fails (s.sig f.task).ctx = true := by
  have hb := blames_reachable h
  rcases Blamed.failed hb f hf with hfail | ⟨hrun, herr⟩
  · exact hfail
  · have hwait := (Blamed.pending hb herr).1
    rcases hgone with hgone | ⟨caller, hpc⟩
    · exact absurd hgone (not_gone_of_held h (running_held h hrun hwait))
    · cases caller with
      | drop =>
        refine dropSound_reachable h f.task ?_
        rw [hpc]
        rfl
      | finish =>
        have h2 := (ctl_reachable h).agrees hpc
        rw [hwait] at h2
        cases h2.2

/-- A step that fails a context finds a fault of a running task of it. -/
theorem fails_cause (h : Reachable s) (hs : Step s l s') {c : CtxId} (hold : s.fails c = false)
    (hnew : s'.fails c = true) :
    ∃ t ∈ s.started, s.runningTask = some t ∧ (s.tasks t).ctx = c ∧
      ((l = .worker ∧ ∃ left task, s.pc = .running left ∧
          s.passOf t left = .ok (task, .reject)) ∨
        (l = .isr ∧ .device t ∈ s.faults)) := by
  rcases fails_step h hs with heq | ⟨t, ⟨hrun, hwhy⟩, heq⟩
  · rw [heq, hold] at hnew
    cases hnew
  · have hctx : (s.tasks t).ctx = c := by
      by_contra hne
      rw [heq, Function.update_of_ne (Ne.symm hne), hold] at hnew
      cases hnew
    refine ⟨t, running_started h hrun, hrun, hctx, hwhy.imp_right ?_⟩
    rintro ⟨rfl, -, herr⟩
    obtain ⟨-, r, hr, hrun'⟩ := Blamed.pending (blames_reachable h) (s.intr.err_iff.mpr herr)
    rw [hrun] at hrun'
    cases hrun'
    exact ⟨rfl, hr⟩

/-! ## WAIT for all tasks -/

/-- A queued task stays one of its context. -/
theorem ctx_run {t : TaskId} {ls : List Label} (ht : t < s.nTask)
    (hrun : system.exec s ls = some s') : t < s'.nTask ∧ (s'.sig t).ctx = (s.sig t).ctx := by
  refine Machine.exec_invariant
    (I := fun u => t < u.nTask ∧ (u.sig t).ctx = (s.sig t).ctx) ?_ ⟨ht, rfl⟩ hrun
  rintro u l v ⟨hlt, hctx⟩ hstep
  have hs := Step.of_step hstep
  exact ⟨Nat.lt_of_lt_of_le hlt (nTask_le_step hs), (ctx_step hs hlt).trans hctx⟩

/-- A destroyed task has no faults any more. -/
theorem gone_run (hr : Reachable s) {t : TaskId} {ls : List Label} (ht : t ∈ s.gone)
    (hrun : system.exec s ls = some s') :
    t ∈ s'.gone ∧ ∀ f ∈ s'.faults, f.task = t → f ∈ s.faults := by
  have hI : Reachable s' ∧ t ∈ s'.gone ∧ ∀ f ∈ s'.faults, f.task = t → f ∈ s.faults := by
    refine Machine.exec_invariant (I := fun u => Reachable u ∧ t ∈ u.gone ∧
      ∀ f ∈ u.faults, f.task = t → f ∈ s.faults) ?_ ⟨hr, ht, fun _ hf _ => hf⟩ hrun
    rintro u l v ⟨hu, hgone, hfaults⟩ hstep
    have hs := Step.of_step hstep
    refine ⟨hu.step hstep, mem_filterMap_step hs hgone, ?_⟩
    rintro f hf rfl
    obtain ⟨fs, hfs, hnew⟩ := faults_step hu hs
    rw [hfs] at hf
    rcases List.mem_append.mp hf with hf | hf
    · exact hfaults f hf rfl
    · exact absurd hgone (hnew f hf).2
  exact hI.2

/-- An empty counter: every task of the context is gone. -/
theorem gone_of_count (h : Reachable s) {t : TaskId} (ht : t < s.nTask)
    (hcount : (s.ctxs (s.sig t).ctx).taskCount = 0) : t ∈ s.gone := by
  have hacc : (s.ctxs (s.sig t).ctx).taskCount = _ := accounts_reachable h _
  have hzero : tasksOf s.sig s.nTask (s.sig t).ctx = 0 := by omega
  have hlive := Tally.not_of_tally_eq_zero hzero ht
  refine (freedGone_reachable h t ht).mp ?_
  simpa [TaskSig.liveIn] using hlive

/-- A WAIT(0) that is called when `t` is queued returns `-EIO` if `t` has a fault, whenever it
is found. -/
theorem wait_fault {s₀ s₁ u : State} (h : Reachable s₀) {t : TaskId} (ht : t < s₀.nTask)
    {ls ls' : List Label} (hcall : system.step s₀ (.wait (s₀.tasks t).ctx 0) = some s₁)
    (hrun : system.exec s₁ ls = some s)
    (hret : system.step s (.waitReturn s₀.nCall) = some s') (hrest : system.exec s' ls' = some u)
    {f : Fault} (hf : f ∈ u.faults) (hft : f.task = t) :
    s'.trace = s.trace ++ [.waitReturned s₀.nCall (some .eio)] := by
  obtain ⟨htrace, as, bs, v, -, hv, hbs, hcount⟩ := wait_call hcall hrun hret
  have hrv : Reachable v := Machine.Reachable.exec (h.step hcall) hv
  have hrs : Reachable s := Machine.Reachable.exec hrv hbs
  have hcv := ctx_run ht (Machine.exec_cons_some.mpr ⟨s₁, hcall, hv⟩)
  have hcs := ctx_run hcv.1 hbs
  -- the task is gone when the call reads the counter, so the fault was found before
  have hgone : t ∈ v.gone := by
    refine gone_of_count hrv hcv.1 ?_
    rw [hcv.2]
    exact Nat.le_zero.mp hcount
  have hgs := (gone_run hrv hgone hbs).1
  have hold := (gone_run hrs hgs (Machine.exec_cons_some.mpr ⟨s', hret, hrest⟩)).2 f hf hft
  have hfail : s.fails (s.sig t).ctx = true := by
    rw [← hft] at hgs ⊢
    exact fault_failed hrs hold (Or.inl hgs)
  have hctx : (s.sig t).ctx = (s₀.tasks t).ctx := hcs.2.trans hcv.2
  rw [hctx] at hfail
  have hres : s.ioctlWaitResult (s₀.tasks t).ctx = some .eio := if_pos hfail
  rw [htrace, hres]

/-- Failures are attributed exactly. A context fails in the step in which the worker rejects a
command of a started task of it, or in which the interrupt handler handles an error that the
device reported for a command of one, and every failed context has such a fault behind it.
Conversely a fault is found while its task is counted, the context has failed when the task
leaves `task_count`, and a WAIT(0) that is called after the task was queued returns `-EIO`. -/
theorem failure_attributed (h : Reachable s) :
    (∀ l s' c, system.step s l = some s' → (s.ctxs c).failed = false →
      (s'.ctxs c).failed = true →
      ∃ t ∈ s.started, s.runningTask = some t ∧ (s.tasks t).ctx = c ∧
        ((l = .worker ∧ ∃ left task, s.pc = .running left ∧
            s.passOf t left = .ok (task, .reject)) ∨
          (l = .isr ∧ .device t ∈ s.faults))) ∧
    (∀ c, (s.ctxs c).failed = true →
      ∃ f ∈ s.faults, f.task ∈ s.started ∧ (s.tasks f.task).ctx = c) ∧
    (∀ l s', system.step s l = some s' → ∃ fs, s'.faults = s.faults ++ fs ∧
      ∀ f ∈ fs, s.runningTask = some f.task ∧ f.task ∉ s.gone) ∧
    (∀ f ∈ s.faults, (f.task ∈ s.gone ∨ ∃ caller, s.pc = .account f.task caller) →
      (s.ctxs (s.tasks f.task).ctx).failed = true) ∧
    ∀ t < s.nTask, ∀ s₁ ls u u' ls' v, system.step s (.wait (s.tasks t).ctx 0) = some s₁ →
      system.exec s₁ ls = some u → system.step u (.waitReturn s.nCall) = some u' →
      system.exec u' ls' = some v → (∃ f ∈ v.faults, f.task = t) →
      u'.trace = u.trace ++ [.waitReturned s.nCall (some .eio)] := by
  refine ⟨?_, ?_, ?_, ?_, ?_⟩
  · intro l s' c hs hold hnew
    exact fails_cause h (Step.of_step hs) hold hnew
  · intro c hc
    obtain ⟨f, hf, hfc⟩ := Blamed.caused (blames_reachable h) c hc
    exact ⟨f, hf, fault_started h hf, hfc⟩
  · intro l s' hs
    exact faults_step h (Step.of_step hs)
  · intro f hf hgone
    exact fault_failed h hf hgone
  · rintro t ht s₁ ls u u' ls' v hcall hrun hret hrest ⟨f, hf, hft⟩
    exact wait_fault h ht hcall hrun hret hrest hf hft

/-- The device reports an error of the only task. A WAIT leaves its loop after the task. -/
def leaveAfterError : List Label :=
  workerSteps 15 ++ [.errorInterrupt 17 false, .isr] ++ finishTask ++ [.waitLeave 1]

theorem failure_attributed_leaveAfterError :
    ∃ s₀ s₁ s s', Reachable s₀ ∧ system.step s₀ (.wait 0 0) = some s₁ ∧
      system.exec s₁ leaveAfterError = some s ∧ system.step s (.waitReturn s₀.nCall) = some s' ∧
      s'.faults = [.device 0] ∧ s'.gone = [0] ∧ (s'.ctxs 0).failed = true ∧
      s'.trace = s.trace ++ [.waitReturned s₀.nCall (some .eio)] := by
  have hseen : seenAfter (openOne ++ writeCall 0 0 8 oneDie) (fun s₀ =>
      ((s₀.nCall, s₀.nTask, (s₀.tasks 0).ctx), (system.step s₀ (.wait 0 0)).bind fun s₁ =>
        (system.exec s₁ leaveAfterError).bind fun s => (system.step s (.waitReturn 1)).map
          fun s' => decide (s'.faults = [.device 0] ∧ s'.gone = [0] ∧ (s'.tasks 0).ctx = 0))) =
      some ((1, 1, 0), some true) := by
    decide +kernel
  obtain ⟨s₀, -, hr, hf⟩ := exists_seenAfter hseen
  simp only [Prod.mk.injEq, Option.bind_eq_some_iff, Option.map_eq_some_iff,
    decide_eq_true_eq] at hf
  obtain ⟨⟨hk, hn, hctx⟩, s₁, h₁, s, hs, s', hs', hfaults, hgone, hctx'⟩ := hf
  rw [← hk] at hs'
  have hr' : Reachable s' := (Machine.Reachable.exec (hr.step h₁) hs).step hs'
  have hfault : Fault.device 0 ∈ s'.faults := by
    rw [hfaults]
    simp
  have heio := (failure_attributed hr).2.2.2.2 0 (by rw [hn]; decide) s₁ leaveAfterError s s' [] s'
    (by rw [hctx]; exact h₁) hs hs' rfl ⟨_, hfault, rfl⟩
  have hfailed : (s'.ctxs (s'.tasks 0).ctx).failed = true :=
    (failure_attributed hr').2.2.2.1 _ hfault (Or.inl (by rw [hgone]; decide))
  rw [hctx'] at hfailed
  exact ⟨s₀, s₁, s, s', hr, h₁, hs, hs', hfaults, hgone, hfailed, heio⟩

end Dicedev
