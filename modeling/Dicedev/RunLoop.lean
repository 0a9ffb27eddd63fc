import Dicedev.Buffers
import Dicedev.Failed
import Dicedev.Fences
import Dicedev.Translate

/-!
# The loop of `__wt_run_task` in the running driver

`Loop.after` is the loop of one task by itself. In the driver its passes are steps of the
worker, and between two of them anything may happen: other processes queue tasks and write to
mapped buffers, contexts are released, the device raises interrupts. `loop_refined` says that
with fresh addresses of contexts none of this shows: a started task is somewhere on a run of its
own loop, with one slot for all passes, and the device has got the commands that this run has fed,
in their order and once each. Without them a buffer can be released under a task that runs on it,
and the release takes the slot away between two passes.

For a write, whose words nobody can change, `submission_translated` adds what the commands are,
unless the words end in a header whose mask is missing: the translation of the submitted words,
all of it once the fence of the task has been fed.
-/

namespace Dicedev

open State

/-! ## What a task keeps -/

/-- The body of a task without its iterator. -/
def TaskBody.erase : TaskBody → TaskBody
  | .write w => .write { w with itOffset := 0 }
  | .run r => .run { r with currPg := 0, currPgNo := 0, currPgOff := 0, bytesLeft := 0 }

/-- A task as `dicedev_wt_add_task` got it. -/
def Task.asQueued (t : Task) : Task :=
  { t with body := t.body.erase, resultCount := 0, freed := false }

/-- The command that an entry of the trace feeds for task `t`. -/
def Event.commandOf (t : TaskId) (e : Event) : Option (List Word) :=
  e.fed?.bind fun f => if f.task? = some t then some f.words else none

/-- What the trace says about rejected tasks. -/
def Event.rejected? : Event → Option TaskId
  | .rejected t => some t
  | _ => none

namespace State

/-- The commands fed for task `t`, oldest first. -/
def commandsOf (s : State) (t : TaskId) : List (List Word) := s.trace.filterMap (Event.commandOf t)

/-- The tasks with a command that the worker has rejected. -/
def rejectedTasks (s : State) : List TaskId := s.trace.filterMap Event.rejected?

end State

/-- The task whose commands are being read, and the `bytes_left` of the loop. -/
def WtPc.loopAt (pc : WtPc) (running : Option TaskId) : Option (TaskId × Nat) :=
  match pc with
  | .running left => running.map fun t => (t, left)
  | _ => none

variable {s s' : State} {l : Label} {t : TaskId}

theorem taskInitIt_asQueued (t : Task) : (taskInitIt t).asQueued = t.asQueued := by
  obtain ⟨ctx, count, out, body, freed⟩ := t
  cases body <;> rfl

/-- The iterator starts from the beginning, wherever it was. -/
theorem taskInitIt_of_asQueued (t : Task) :
    taskInitIt t.asQueued = { taskInitIt t with resultCount := 0, freed := false } := by
  obtain ⟨ctx, count, out, body, freed⟩ := t
  cases body <;> rfl

theorem taskBytes_asQueued (t : Task) : taskBytes t.asQueued = taskBytes t := by
  obtain ⟨ctx, count, out, body, freed⟩ := t
  cases body <;> rfl

theorem runTurnPage_erase (r : TaskRun) :
    (TaskBody.run (runTurnPage r)).erase = (TaskBody.run r).erase := by
  unfold runTurnPage
  split <;> rfl

theorem taskGetNextWord_asQueued {mem : BufId → Nat → Nat → Word} {t t' : Task} {w : Word}
    (h : taskGetNextWord mem t = .ok (w, t')) : t'.asQueued = t.asQueued := by
  obtain ⟨ctx, count, out, body, freed⟩ := t
  unfold taskGetNextWord at h
  cases body with
  | write w =>
    dsimp only at h
    split at h
    · cases h
    · cases h
      rfl
  | run r =>
    cases h
    exact congrArg (fun b : TaskBody => Task.mk ctx 0 out b false) (runTurnPage_erase r)

theorem getDiePass_asQueued (allowed : Word) (slot : Option Slot) (w m : Word) (t : Task)
    (left : Nat) : (getDiePass allowed slot w m t left).1.asQueued = t.asQueued := by
  unfold getDiePass
  split
  · rfl
  · split <;> rfl

theorem newSetPass_asQueued (slot : Option Slot) (w : Word) (t : Task) (left : Nat) :
    (newSetPass slot w t left).1.asQueued = t.asQueued := by
  unfold newSetPass
  split <;> rfl

theorem runTaskPass_asQueued {mem : BufId → Nat → Nat → Word} {allowed : Word}
    {slot : Option Slot} {t : Task} {left : Nat} {r : Task × Pass}
    (h : runTaskPass mem allowed slot t left = .ok r) : r.1.asQueued = t.asQueued := by
  unfold runTaskPass at h
  split at h
  · cases h
  · rename_i w t₁ hget
    have h₁ := taskGetNextWord_asQueued hget
    split at h
    · cases h
      exact h₁
    · split at h
      · split at h
        · cases h
          exact h₁
        · split at h
          · cases h
          · rename_i m t₂ hget'
            cases h
            exact (getDiePass_asQueued ..).trans ((taskGetNextWord_asQueued hget').trans h₁)
      · split at h
        · cases h
          exact (newSetPass_asQueued ..).trans h₁
        · cases h
          exact h₁

/-! ## What a step does to the loop -/

/-- What a pass writes into the trace. -/
def Pass.events (t : TaskId) (slot : Option Slot) : Pass → List Event
  | .skip _ => []
  | .fed words user _ => [.feed ⟨words, .task t user slot⟩]
  | .reject => [.rejected t]

/-- Two traces that say the same about loops. -/
structure SameLoops (trace trace' : List Event) : Prop where
  commands : ∀ t, trace'.filterMap (Event.commandOf t) = trace.filterMap (Event.commandOf t)
  rejected : trace'.filterMap Event.rejected? = trace.filterMap Event.rejected?
  started : trace'.filterMap Event.started? = trace.filterMap Event.started?

namespace SameLoops

theorem refl (trace : List Event) : SameLoops trace trace := ⟨fun _ => rfl, rfl, rfl⟩

theorem note {trace trace' : List Event} (h : SameLoops trace trace') {e : Event}
    (hc : ∀ t, e.commandOf t = none) (hr : e.rejected? = none) (hs : e.started? = none) :
    SameLoops trace (trace' ++ [e]) :=
  ⟨fun t => (filterMap_log_none (hc t)).trans (h.commands t),
    (filterMap_log_none hr).trans h.rejected, (filterMap_log_none hs).trans h.started⟩

theorem unbound (s : State) (b : BufId) : SameLoops s.trace (s.unbound b).trace :=
  ⟨fun _ => filterMap_unbound (fun _ _ => rfl) s b, filterMap_unbound (fun _ _ => rfl) s b,
    filterMap_unbound (fun _ _ => rfl) s b⟩

end SameLoops

/-- A step starts a loop, makes a pass, ends a loop, or leaves all loops alone. -/
inductive LoopStep (s : State) (l : Label) (s' : State) : Prop
  | start (t : TaskId) (hstart : s.Starts t) (hn : s'.nTask = s.nTask)
      (htasks : s'.tasks = Function.update s.tasks t (taskInitIt (s.tasks t)))
      (hbufs : s'.bufs = s.bufs)
      (hat : s'.pc.loopAt s'.runningTask = some (t, taskBytes (s.tasks t)))
      (htrace : s'.trace = s.trace ++ [.started t])
  | pass (t : TaskId) (left : Nat) (task : Task) (pass : Pass) (hpc : s.pc = .running left)
      (hrun : s.runningTask = some t) (hleft : left ≠ 0)
      (hpass : s.passOf t left = .ok (task, pass)) (hn : s'.nTask = s.nTask)
      (htasks : s'.tasks = Function.update s.tasks t task) (hbufs : s'.bufs = s.bufs)
      (hat : s'.pc.loopAt s'.runningTask = pass.left?.map fun left' => (t, left'))
      (htrace : s'.trace = s.trace ++ pass.events t (s.bufs task.buffOut).bindedSlot)
      (hl : l = .worker)
  | done (t : TaskId) (hpc : s.pc = .running 0) (hrun : s.runningTask = some t)
      (hn : s'.nTask = s.nTask) (htasks : s'.tasks = s.tasks) (hbufs : s'.bufs = s.bufs)
      (hat : s'.pc.loopAt s'.runningTask = none) (htrace : s'.trace = s.trace)
  | quiet (htasks : ∀ t < s.nTask,
        { s'.tasks t with freed := false } = { s.tasks t with freed := false })
      (hnew : ∀ t, s.nTask ≤ t → t < s'.nTask → (s'.tasks t).resultCount = 0)
      (hat : s'.pc.loopAt s'.runningTask = s.pc.loopAt s.runningTask)
      (htrace : SameLoops s.trace s'.trace)

theorem loopAt_woken (s : State) (o : Option TaskId) : s.wokenPc.loopAt o = s.pc.loopAt o := by
  unfold wokenPc
  split
  · rename_i h
    rw [h]
    rfl
  · rfl

theorem bug_of_step (hs : system.step s l = some s') : s.bug = none := by
  by_contra hne
  rw [show system.step s l = none from if_neg hne] at hs
  cases hs

/-- The loop ends when no bytes are left. -/
theorem running_zero (hpc : s.pc = .running 0) (hrun : s.runningTask = some t)
    (hs : system.step s .worker = some s') : s' = s.wtRunTaskReturn := by
  have hstep : s.wtStep = some (.ok s.wtRunTaskReturn) := by
    unfold wtStep wtRunTask
    simp only [hpc, hrun, if_true]
  rw [step_worker (bug_of_step hs) hstep] at hs
  exact (Option.some.inj hs).symm

theorem left_ne_zero {left : Nat} (hpc : s.pc = .running left) (hrun : s.runningTask = some t)
    (hs : system.step s .worker = some s') (hne : s' ≠ s.wtRunTaskReturn) : left ≠ 0 := by
  rintro rfl
  exact hne (running_zero hpc hrun hs)

theorem LoopStep.of_same (hn : s'.nTask = s.nTask) (htasks : s'.tasks = s.tasks)
    (hat : s'.pc.loopAt s'.runningTask = s.pc.loopAt s.runningTask)
    (htrace : SameLoops s.trace s'.trace) : LoopStep s l s' := by
  refine .quiet (fun t _ => by rw [htasks]) ?_ hat htrace
  intro t hge hlt
  omega

theorem LoopStep.queued (s : State) (k : CallId) {task : Task} (hcount : task.resultCount = 0) :
    LoopStep s l (s.queued k task) := by
  refine .quiet ?_ ?_ (loopAt_woken s _) ((SameLoops.refl _).note (fun _ => rfl) rfl rfl)
  · intro t ht
    have hne : t ≠ s.nTask := Nat.ne_of_lt ht
    simp only [State.queued, Function.update_of_ne hne]
  · intro t hge hlt
    have ht : t = s.nTask := Nat.le_antisymm (Nat.le_of_lt_succ hlt) hge
    subst ht
    simp only [State.queued, Function.update_self]
    exact hcount

theorem LoopStep.of_step (hs : system.step s l = some s') : LoopStep s l s' := by
  have hmove : ∀ {pc : WtPc}, s.pc = pc → (∀ o, pc.loopAt o = none) →
      s.pc.loopAt s.runningTask = none := fun hpc ho => by rw [hpc]; exact ho _
  cases Step.of_step hs with
  | openCtx | createSetRefused | createSet | runRefused | run | runCount | wait | waitLeave
  | releaseMark | releaseWait | releaseFree | writeRefused | write | writeFail | readNone
  | read | seed | dup | close | store | isrOff | isr | slotError | resume | halt =>
    exact .of_same rfl rfl rfl (.refl _)
  | runQueue k => exact .queued s k rfl
  | writeQueue k => exact .queued s k rfl
  | waitReturn | fenceInterrupt | errorInterrupt =>
    exact .of_same rfl rfl rfl ((SameLoops.refl _).note (fun _ => rfl) rfl rfl)
  | releaseBuffer c b =>
    exact .of_same rfl rfl rfl ((SameLoops.unbound s b).note (fun _ => rfl) rfl rfl)
  | bufferRelease b => exact .of_same rfl rfl rfl (.unbound s b)
  | isrFence | suspend | remove => exact .of_same rfl rfl (loopAt_woken s _) (.refl _)
  | head hpc =>
    refine .of_same rfl rfl ?_ (.refl _)
    rw [hmove hpc fun _ => rfl]
    change s.wtPoll.loopAt s.runningTask = none
    rcases wtPoll_cases s with h | h | h | h | ⟨h, -⟩ <;> rw [h] <;> rfl
  | polled hpc | sleep hpc | park hpc | drop _ _ hpc | getNext _ _ hpc | taskFinish _ hpc
  | destroyKeep _ _ hpc =>
    exact .of_same rfl rfl (hmove hpc fun _ => rfl).symm (.refl _)
  | finishing hpc => exact .of_same rfl rfl (hmove hpc fun _ => rfl).symm (.refl _)
  | again hpc =>
    refine .of_same rfl rfl ?_ (.refl _)
    rcases hpc with hpc | hpc | hpc <;> exact (hmove hpc fun _ => rfl).symm
  | bindSlot t b i hpc =>
    exact .of_same rfl rfl (hmove hpc fun _ => rfl).symm
      ((SameLoops.refl _).note (fun _ => rfl) rfl rfl)
  | fence t hpc =>
    exact .of_same rfl rfl (hmove hpc fun _ => rfl).symm
      ((SameLoops.refl _).note (fun _ => rfl) rfl rfl)
  | destroyUnbind t c b hpc =>
    exact .of_same rfl rfl (hmove hpc fun _ => rfl).symm (.unbound s b)
  | shutdown hpc =>
    refine .of_same rfl rfl ?_ (.refl _)
    rw [hmove hpc fun _ => rfl]
    change s.wtShutdown.loopAt s.runningTask = none
    rcases wtShutdown_cases s with h | h <;> rw [h] <;> rfl
  | account t caller c b hpc =>
    refine .quiet ?_ (fun u hge hlt => absurd hlt (Nat.not_lt.mpr hge)) ?_ ?_
    · intro u _
      by_cases hu : u = t
      · subst hu
        simp only [Function.update_self]
      · simp only [Function.update_of_ne hu]
    · rw [hmove hpc fun _ => rfl]
      cases caller <;> rfl
    · exact (SameLoops.refl _).note (fun _ => by cases caller <;> rfl) (by cases caller <;> rfl)
        (started?_destroyEvent t caller)
  | taskRun t hpc hnext hbound => exact .start t ⟨hpc, hnext, hbound⟩ rfl rfl rfl rfl rfl
  | runDone t hpc hrun => exact .done t hpc hrun rfl rfl rfl rfl rfl
  | runSkip t left task left' hpc hrun hpass =>
    refine .pass t left task _ hpc hrun (left_ne_zero hpc hrun hs ?_) hpass rfl rfl rfl ?_
      (List.append_nil _).symm rfl
    · exact fun heq => by cases congrArg State.pc heq
    · exact congrArg (Option.map fun u => (u, left')) hrun
  | runFeed t left task words user left' hpc hrun hpass =>
    refine .pass t left task _ hpc hrun (left_ne_zero hpc hrun hs ?_) hpass rfl rfl rfl ?_ rfl rfl
    · exact fun heq => by cases congrArg State.pc heq
    · exact congrArg (Option.map fun u => (u, left')) hrun
  | runReject t left task hpc hrun hpass =>
    refine .pass t left task _ hpc hrun (left_ne_zero hpc hrun hs ?_) hpass rfl rfl rfl rfl rfl rfl
    intro heq
    have htrace : s.trace ++ [Event.rejected t] = s.trace := congrArg State.trace heq
    simp at htrace

/-! ## Runs of one loop -/

/-- A run of the loop sees the memory of the passes it has made. -/
theorem after_congr {mem mem' : Nat → BufId → Nat → Nat → Word} {allowed : Word}
    {slot : Nat → Option Slot} {task : Task} {n : Nat} (h : ∀ k < n, mem' k = mem k) :
    Loop.after mem' allowed slot task n = Loop.after mem allowed slot task n := by
  induction n with
  | zero => rfl
  | succ n ih =>
    simp only [Loop.after]
    rw [ih fun k hk => h k (Nat.lt_succ_of_lt hk), h n (Nat.lt_succ_self n)]

/-- One pass more, over the contents `now`. -/
theorem after_succ (mem : Nat → BufId → Nat → Nat → Word) (now : BufId → Nat → Nat → Word)
    (allowed : Word) (slot : Nat → Option Slot) (task : Task) (n : Nat) :
    ∃ mem', Loop.after mem' allowed slot task (n + 1) =
      (Loop.after mem allowed slot task n).pass now allowed (slot n) := by
  refine ⟨fun k => if k < n then mem k else now, ?_⟩
  simp only [Loop.after, Nat.lt_irrefl, if_false]
  rw [after_congr fun k hk => if_pos hk]

/-- The loop `p` of task `t`, with the slot `i`, is where the driver is with this task. -/
structure LoopOf (s : State) (t : TaskId) (i : Slot) (p : Loop) : Prop where
  task : { s.tasks t with freed := false } = p.task
  fed : s.commandsOf t = p.fed
  rejected : t ∈ s.rejectedTasks ↔ p.status = .failed
  at_iff : ∀ left, s.pc.loopAt s.runningTask = some (t, left) ↔
    p.status = .looping ∧ p.bytesLeft = left
  slot : p.status = .looping → s.place (s.out t) = some i
  status : p.status = .looping ∨ p.Ended

/-- The driver is on a run of the loop of `t`. -/
def OnLoop (s : State) (t : TaskId) : Prop :=
  ∃ mem i n, LoopOf s t i
    (Loop.after mem (s.bufs (s.out t)).allowed (fun _ => some i) (s.tasks t).asQueued n)

/-- Nothing has been done for a task that was not started. -/
def NotOnLoop (s : State) (t : TaskId) : Prop :=
  s.commandsOf t = [] ∧ t ∉ s.rejectedTasks ∧ (t < s.nTask → (s.tasks t).resultCount = 0)

structure LoopInv (s : State) : Prop where
  queued : ∀ t, t ∉ s.started → NotOnLoop s t
  started : ∀ t ∈ s.started, OnLoop s t

/-- A buffer keeps its mask. -/
theorem allowed_step (hs : Step s l s') {b : BufId} (hb : b < s.nBuf) :
    (s'.bufs b).allowed = (s.bufs b).allowed := by
  have hbuf := BufStep.of_step hs hb
  generalize s'.bufs b = x at hbuf ⊢
  cases hbuf with
  | keep | leak | mark | giveUp | read | seed | dup | close | free | store | bind | unbind
  | account => rfl

theorem running_of_loopAt {pc : WtPc} {running : Option TaskId} {left : Nat}
    (h : pc.loopAt running = some (t, left)) : pc = .running left ∧ running = some t := by
  unfold WtPc.loopAt at h
  split at h
  · rename_i left'
    obtain ⟨u, hu, heq⟩ := Option.map_eq_some_iff.mp h
    cases heq
    exact ⟨rfl, hu⟩
  · cases h

/-- While the loop of a task is running, its buffer keeps its slot. -/
theorem place_of_loop (h : system.ReachableBy AddrFresh s) (hs : Step s l s') {left : Nat}
    (hat : s.pc.loopAt s.runningTask = some (t, left)) :
    s'.place (s.out t) = s.place (s.out t) := by
  have hr := h.reachable
  obtain ⟨hpc, hrun⟩ := running_of_loopAt hat
  have hnext : s.nextTask = some t := ((ctl_reachable hr).agrees hpc).2.trans hrun
  have hlt := next_lt hr hnext
  have hlive := live_of_not_gone hr hlt (not_gone_of_held hr (next_held hr hnext))
  rcases place_shape hr hs with heq | ⟨d, hunbinds, heq⟩ | ⟨u, i, hbinds, -⟩
  · rw [heq]
  · rw [heq]
    refine Function.update_of_ne ?_ _ _
    rintro rfl
    obtain ⟨u, c, hdestroy⟩ := not_unbinds_of_live h hlt hlive hunbinds
    cases hpc.symm.trans hdestroy
  · cases hpc.symm.trans hbinds.pc_eq

/-- The loop of another task, or of this one while the step leaves it alone. -/
theorem OnLoop.keep (hout : s'.out t = s.out t)
    (hallowed : (s'.bufs (s.out t)).allowed = (s.bufs (s.out t)).allowed)
    (htask : { s'.tasks t with freed := false } = { s.tasks t with freed := false })
    (hat : ∀ left, s'.pc.loopAt s'.runningTask = some (t, left) ↔
      s.pc.loopAt s.runningTask = some (t, left))
    (hplace : ∀ left, s.pc.loopAt s.runningTask = some (t, left) →
      s'.place (s.out t) = s.place (s.out t))
    (hcommands : s'.commandsOf t = s.commandsOf t)
    (hrejected : t ∈ s'.rejectedTasks ↔ t ∈ s.rejectedTasks) (h : OnLoop s t) : OnLoop s' t := by
  obtain ⟨mem, i, n, hloop⟩ := h
  have hqueued : (s'.tasks t).asQueued = (s.tasks t).asQueued :=
    (congrArg Task.asQueued htask :)
  refine ⟨mem, i, n, ?_⟩
  rw [hout, hallowed, hqueued]
  refine ⟨htask.trans hloop.task, hcommands.trans hloop.fed, hrejected.trans hloop.rejected,
    fun left => (hat left).trans (hloop.at_iff left), ?_, hloop.status⟩
  intro hlooping
  have hthere := (hloop.at_iff _).mpr ⟨hlooping, rfl⟩
  rw [hout, hplace _ hthere]
  exact hloop.slot hlooping

/-! ## The steps -/

section

variable (h : system.ReachableBy AddrFresh s) (hI : LoopInv s) (hs : Step s l s')

include h hs

/-- A step that leaves task `u` and its loop alone. -/
theorem OnLoop.of_other {u : TaskId} (hu : u < s.nTask)
    (htask : { s'.tasks u with freed := false } = { s.tasks u with freed := false })
    (hat : ∀ left, s'.pc.loopAt s'.runningTask = some (u, left) ↔
      s.pc.loopAt s.runningTask = some (u, left))
    (hcommands : s'.commandsOf u = s.commandsOf u)
    (hrejected : u ∈ s'.rejectedTasks ↔ u ∈ s.rejectedTasks) (hon : OnLoop s u) : OnLoop s' u :=
  hon.keep (out_step hs hu) (allowed_step hs (out_lt h.reachable hu)) htask hat
    (fun _ hleft => place_of_loop h hs hleft) hcommands hrejected

include hI

theorem LoopInv.quiet
    (htasks : ∀ t < s.nTask, { s'.tasks t with freed := false } = { s.tasks t with freed := false })
    (hnew : ∀ t, s.nTask ≤ t → t < s'.nTask → (s'.tasks t).resultCount = 0)
    (hat : s'.pc.loopAt s'.runningTask = s.pc.loopAt s.runningTask)
    (htrace : SameLoops s.trace s'.trace) : LoopInv s' := by
  have hstarted : s'.started = s.started := htrace.started
  refine ⟨?_, ?_⟩
  · intro t ht
    rw [hstarted] at ht
    obtain ⟨hcommands, hrejected, hcount⟩ := hI.queued t ht
    refine ⟨(htrace.commands t).trans hcommands, ?_, ?_⟩
    · unfold State.rejectedTasks
      rw [htrace.rejected]
      exact hrejected
    · intro hlt
      by_cases hold : t < s.nTask
      · exact (congrArg Task.resultCount (htasks t hold) :).trans (hcount hold)
      · exact hnew t (Nat.le_of_not_lt hold) hlt
  · intro t ht
    rw [hstarted] at ht
    have hlt := started_lt h.reachable ht
    refine (hI.started t ht).of_other h hs hlt (htasks t hlt) (fun left => by rw [hat])
      (htrace.commands t) ?_
    unfold State.rejectedTasks
    rw [htrace.rejected]

/-- A loop begins with its first word. -/
theorem LoopInv.start (hstart : s.Starts t) (hn : s'.nTask = s.nTask)
    (htasks : s'.tasks = Function.update s.tasks t (taskInitIt (s.tasks t)))
    (hbufs : s'.bufs = s.bufs)
    (hat : s'.pc.loopAt s'.runningTask = some (t, taskBytes (s.tasks t)))
    (htrace : s'.trace = s.trace ++ [.started t]) : LoopInv s' := by
  have hr := h.reachable
  have hlt := next_lt hr hstart.next
  have hnew : t ∉ s.started := by
    have hnext : s.pipeline.next = some t := by
      change s.pc.waitingTask s.nextTask = some t
      rw [hstart.pc_eq]
      exact hstart.next
    exact fun hmem => ((pipeline_reachable hr).started_lt t hmem).2.1 hnext
  have hat₀ : s.pc.loopAt s.runningTask = none := by rw [hstart.pc_eq]; rfl
  have hcommands : ∀ u, s'.commandsOf u = s.commandsOf u := by
    intro u
    unfold State.commandsOf
    rw [htrace]
    exact filterMap_log_none rfl
  have hrejected : s'.rejectedTasks = s.rejectedTasks := by
    unfold State.rejectedTasks
    rw [htrace]
    exact filterMap_log_none rfl
  have hstarted : s'.started = s.started ++ [t] := by
    unfold State.started
    rw [htrace]
    exact filterMap_log_some rfl
  have hself : s'.tasks t = taskInitIt (s.tasks t) := by rw [htasks, Function.update_self]
  have hother : ∀ u, u ≠ t → s'.tasks u = s.tasks u := fun u hu => by
    rw [htasks, Function.update_of_ne hu]
  refine ⟨?_, ?_⟩
  · intro u hu
    rw [hstarted, List.mem_append, not_or, List.mem_singleton] at hu
    obtain ⟨hnone, hrej, hcount⟩ := hI.queued u hu.1
    refine ⟨(hcommands u).trans hnone, hrejected ▸ hrej, ?_⟩
    rw [hother u hu.2, hn]
    exact hcount
  · intro u hu
    rw [hstarted, List.mem_append, List.mem_singleton] at hu
    by_cases hut : u = t
    · subst hut
      obtain ⟨hnone, hrej, hcount⟩ := hI.queued u hnew
      obtain ⟨i, hi⟩ := Option.ne_none_iff_exists'.mp hstart.bound
      refine ⟨fun _ _ _ _ => 0, i, 0, ?_⟩
      have hqueued : (s'.tasks u).asQueued = (s.tasks u).asQueued := by
        rw [hself, taskInitIt_asQueued]
      rw [hqueued]
      refine ⟨?_, (hcommands u).trans hnone, ?_, ?_, ?_, Or.inl rfl⟩
      · change _ = taskInitIt (s.tasks u).asQueued
        rw [taskInitIt_of_asQueued, hself, ← hcount hlt, ← taskInitIt_resultCount]
      · rw [hrejected]
        exact ⟨fun hmem => absurd hmem hrej, fun hfail => by cases hfail⟩
      · intro left
        rw [hat]
        change _ ↔ LoopStatus.looping = .looping ∧ taskBytes (s.tasks u).asQueued = left
        rw [taskBytes_asQueued]
        simp
      · intro _
        rw [out_step hs hlt]
        change (s'.bufs _).bindedSlot = some i
        rw [hbufs]
        exact hi
    · have hin := hu.resolve_right hut
      refine (hI.started u hin).of_other h hs (started_lt hr hin) (by rw [hother u hut]) ?_
        (hcommands u) (by rw [hrejected])
      intro left
      rw [hat, hat₀]
      simp [Ne.symm hut]

/-- A step of the loop of `t` leaves the other loops alone. -/
theorem LoopInv.own {left : Nat} (hat : s.pc.loopAt s.runningTask = some (t, left))
    (hn : s'.nTask = s.nTask) (hother : ∀ u, u ≠ t → s'.tasks u = s.tasks u)
    (hat' : ∀ u left', s'.pc.loopAt s'.runningTask = some (u, left') → u = t)
    (hcommands : ∀ u, u ≠ t → s'.commandsOf u = s.commandsOf u)
    (hrejected : ∀ u, u ≠ t → (u ∈ s'.rejectedTasks ↔ u ∈ s.rejectedTasks))
    (hstarted : s'.started = s.started) (hon : OnLoop s' t) : LoopInv s' := by
  have hr := h.reachable
  have htin : t ∈ s.started := running_started hr (running_of_loopAt hat).2
  refine ⟨?_, ?_⟩
  · intro u hu
    rw [hstarted] at hu
    have hut : u ≠ t := fun heq => hu (heq ▸ htin)
    obtain ⟨hnone, hrej, hcount⟩ := hI.queued u hu
    refine ⟨(hcommands u hut).trans hnone, fun hmem => hrej ((hrejected u hut).mp hmem), ?_⟩
    rw [hother u hut, hn]
    exact hcount
  · intro u hu
    rw [hstarted] at hu
    by_cases hut : u = t
    · exact hut ▸ hon
    · refine (hI.started u hu).of_other h hs (started_lt hr hu) (by rw [hother u hut]) ?_
        (hcommands u hut) (hrejected u hut)
      intro left'
      refine ⟨fun h' => absurd (hat' u left' h') hut, fun h' => absurd ?_ hut⟩
      rw [hat] at h'
      cases h'
      rfl

end

/-- The effect of a pass on the loop and on the driver. -/
theorem LoopOf.effect {i : Slot} {p : Loop} {k : Nat} {task : Task} {pass : Pass}
    {slot : Option Slot} (hloop : LoopOf s t i p) (hlooping : p.status = .looping)
    (htask : { s'.tasks t with freed := false } = task) (hplace : s'.place (s'.out t) = some i)
    (hat : s'.pc.loopAt s'.runningTask = pass.left?.map fun left => (t, left))
    (htrace : s'.trace = s.trace ++ pass.events t slot) :
    LoopOf s' t i (p.effect k (task, pass)) := by
  have hgoes : ∀ left left' : Nat, some (t, left) = some (t, left') ↔
      p.status = .looping ∧ left = left' := fun _ _ => by simp [hlooping]
  cases pass with
  | skip left =>
    have hsame : s'.trace = s.trace := htrace.trans (List.append_nil _)
    refine ⟨htask, ?_, ?_, fun left' => hat ▸ hgoes left left', fun _ => hplace, Or.inl hlooping⟩
    · unfold State.commandsOf
      rw [hsame]
      exact hloop.fed
    · unfold State.rejectedTasks
      rw [hsame]
      exact hloop.rejected
  | fed words user left =>
    refine ⟨htask, ?_, ?_, fun left' => hat ▸ hgoes left left', fun _ => hplace, Or.inl hlooping⟩
    · have hcommand : Event.commandOf t (.feed ⟨words, .task t user slot⟩) = some words :=
        if_pos rfl
      unfold State.commandsOf
      rw [htrace]
      exact (filterMap_log_some hcommand).trans (congrArg (· ++ [words]) hloop.fed)
    · have hsame : s'.rejectedTasks = s.rejectedTasks := by
        unfold State.rejectedTasks
        rw [htrace]
        exact filterMap_log_none rfl
      rw [hsame]
      exact hloop.rejected
  | reject =>
    refine ⟨htask, ?_, ?_, ?_, (fun hl => by cases hl), Or.inr (Or.inr rfl)⟩
    · unfold State.commandsOf
      rw [htrace]
      exact (filterMap_log_none rfl).trans hloop.fed
    · refine ⟨fun _ => rfl, fun _ => List.mem_filterMap.mpr ⟨.rejected t, ?_, rfl⟩⟩
      rw [htrace]
      exact List.mem_append_right _ (List.mem_singleton_self _)
    · intro left
      rw [hat]
      change none = some (t, left) ↔ LoopStatus.failed = .looping ∧ _
      simp

section

variable (h : system.ReachableBy AddrFresh s) (hI : LoopInv s)

include h hI

/-- The loop of the running task, before the next pass. -/
theorem LoopInv.running {left : Nat} (hat : s.pc.loopAt s.runningTask = some (t, left)) :
    ∃ mem i n p, p = Loop.after mem (s.bufs (s.out t)).allowed (fun _ => some i)
        (s.tasks t).asQueued n ∧ LoopOf s t i p ∧ p.status = .looping ∧ p.bytesLeft = left ∧
      p.task = s.tasks t := by
  have hr := h.reachable
  obtain ⟨hpc, hrun⟩ := running_of_loopAt hat
  obtain ⟨mem, i, n, hloop⟩ := hI.started t (running_started hr hrun)
  have hstands := (hloop.at_iff left).mp hat
  have hnext : s.nextTask = some t := ((ctl_reachable hr).agrees hpc).2.trans hrun
  have hlive : (s.tasks t).freed = false :=
    live_of_not_gone hr (next_lt hr hnext) (not_gone_of_held hr (next_held hr hnext))
  refine ⟨mem, i, n, _, rfl, hloop, hstands.1, hstands.2, ?_⟩
  rw [← hloop.task, ← hlive]

/-- A pass of the worker is a pass of the loop. -/
theorem OnLoop.pass (hs : Step s l s') {left : Nat} {task : Task} {pass : Pass}
    (hat : s.pc.loopAt s.runningTask = some (t, left)) (hleft : left ≠ 0)
    (hpass : s.passOf t left = .ok (task, pass))
    (htasks : s'.tasks = Function.update s.tasks t task)
    (hat' : s'.pc.loopAt s'.runningTask = pass.left?.map fun left' => (t, left'))
    (htrace : s'.trace = s.trace ++ pass.events t (s.bufs task.buffOut).bindedSlot) :
    OnLoop s' t := by
  have hr := h.reachable
  obtain ⟨mem, i, n, p, hp, hloop, hlooping, hbytes, htask⟩ := hI.running h hat
  have hlt := running_lt hr (running_of_loopAt hat).2
  have hself : s'.tasks t = task := by rw [htasks, Function.update_self]
  have hqueued : (s'.tasks t).asQueued = (s.tasks t).asQueued := by
    rw [hself]
    exact runTaskPass_asQueued hpass
  have hlive : task.freed = false := by
    have hsig : task.freed = (s.tasks t).freed := congrArg TaskSig.freed (passOf_sig hpass)
    rw [hsig, ← htask, ← hloop.task]
  -- the pass that the loop makes over the present contents of the buffers
  obtain ⟨mem', hnext⟩ := after_succ mem (fun b => (s.bufs b).page) (s.bufs (s.out t)).allowed
    (fun _ => some i) (s.tasks t).asQueued n
  have hplace : (s.bufs (s.out t)).bindedSlot = some i := hloop.slot hlooping
  have hmade : runTaskPass (fun b => (s.bufs b).page) (s.bufs (s.out t)).allowed (some i) p.task
      p.bytesLeft = .ok (task, pass) := by
    rw [htask, hbytes, ← hplace]
    exact hpass
  rw [← hp, pass_eq hlooping (by omega) hmade rfl] at hnext
  refine ⟨mem', i, n + 1, ?_⟩
  rw [out_step hs hlt, allowed_step hs (out_lt hr hlt), hqueued, hnext]
  have hslot : s'.place (s'.out t) = some i := by
    rw [out_step hs hlt, place_of_loop h hs hat]
    exact hplace
  exact hloop.effect hlooping (by rw [hself, ← hlive]) hslot hat' htrace

/-- The end of the loop. -/
theorem OnLoop.done (hs : Step s l s') (hat : s.pc.loopAt s.runningTask = some (t, 0))
    (htasks : s'.tasks = s.tasks) (hat' : s'.pc.loopAt s'.runningTask = none)
    (htrace : s'.trace = s.trace) : OnLoop s' t := by
  have hr := h.reachable
  obtain ⟨mem, i, n, p, hp, hloop, hlooping, hbytes, -⟩ := hI.running h hat
  have hlt := running_lt hr (running_of_loopAt hat).2
  obtain ⟨mem', hnext⟩ := after_succ mem (fun b => (s.bufs b).page) (s.bufs (s.out t)).allowed
    (fun _ => some i) (s.tasks t).asQueued n
  rw [← hp, Loop.pass, if_pos hlooping, if_pos hbytes] at hnext
  refine ⟨mem', i, n + 1, ?_⟩
  rw [out_step hs hlt, allowed_step hs (out_lt hr hlt), htasks, hnext]
  refine ⟨by rw [htasks]; exact hloop.task, ?_, ?_, ?_, (fun hl => by cases hl),
    Or.inr (Or.inl rfl)⟩
  · unfold State.commandsOf
    rw [htrace]
    exact hloop.fed
  · unfold State.rejectedTasks
    rw [htrace]
    refine ⟨fun hmem => ?_, fun hfail => by cases hfail⟩
    rw [hloop.rejected.mp hmem] at hlooping
    cases hlooping
  · intro left
    rw [hat']
    change none = some (t, left) ↔ LoopStatus.returned = .looping ∧ _
    simp

theorem LoopInv.step (hs : system.step s l = some s') : LoopInv s' := by
  have hstep := Step.of_step hs
  cases LoopStep.of_step hs with
  | start t hstart hn htasks hbufs hat htrace =>
    exact hI.start h hstep hstart hn htasks hbufs hat htrace
  | quiet htasks hnew hat htrace => exact hI.quiet h hstep htasks hnew hat htrace
  | done t hpc hrun hn htasks hbufs hat htrace =>
    have hat₀ : s.pc.loopAt s.runningTask = some (t, 0) := by
      rw [hpc, hrun]
      rfl
    refine hI.own h hstep hat₀ hn (fun u _ => by rw [htasks]) ?_ ?_ ?_ ?_
      (OnLoop.done h hI hstep hat₀ htasks hat htrace)
    · intro u left' hu
      rw [hat] at hu
      cases hu
    · intro u _
      unfold State.commandsOf
      rw [htrace]
    · intro u _
      unfold State.rejectedTasks
      rw [htrace]
    · unfold State.started
      rw [htrace]
  | pass t left task pass hpc hrun hleft hpass hn htasks hbufs hat htrace =>
    have hat₀ : s.pc.loopAt s.runningTask = some (t, left) := by
      rw [hpc, hrun]
      rfl
    refine hI.own h hstep hat₀ hn (fun u hu => by rw [htasks, Function.update_of_ne hu]) ?_ ?_ ?_ ?_
      (OnLoop.pass h hI hstep hat₀ hleft hpass htasks hat htrace)
    · intro u left' hu
      rw [hat] at hu
      obtain ⟨_, -, heq⟩ := Option.map_eq_some_iff.mp hu
      cases heq
      rfl
    · intro u hu
      unfold State.commandsOf
      rw [htrace, List.filterMap_append]
      cases pass <;> simp [Pass.events, Event.commandOf, Event.fed?, Fed.task?, Ne.symm hu]
    · intro u hu
      unfold State.rejectedTasks
      rw [htrace, List.filterMap_append]
      cases pass <;> simp [Pass.events, Event.rejected?, hu]
    · unfold State.started
      rw [htrace, List.filterMap_append]
      cases pass <;> simp [Pass.events, Event.started?]

end

theorem loopInv_probed : LoopInv probed := by
  have hrejected : probed.rejectedTasks = [] := rfl
  have hstarted : probed.started = [] := rfl
  refine ⟨fun t _ => ⟨rfl, by simp [hrejected], fun ht => absurd ht (Nat.not_lt_zero t)⟩, ?_⟩
  simp [hstarted]

/-- A task that was started is on a run of its loop, in every state of every interleaving. -/
theorem loopInv_reachable (h : system.ReachableBy AddrFresh s) : LoopInv s := by
  induction h with
  | init => exact loopInv_probed
  | step hr _ hs ih => exact ih.step hr hs

/-- As long as no context gets the address of the owner of a buffer that still exists, a task that
was started is somewhere on a run of its own loop, whatever else happens in the driver. Every pass
of the run has the same slot, and reads the command buffers as they are then. -/
theorem loop_refined (h : system.ReachableBy AddrFresh s) (ht : t ∈ s.started) :
    ∃ mem i n, LoopOf s t i
      (Loop.after mem (s.bufs (s.out t)).allowed (fun _ => some i) (s.tasks t).asQueued n) :=
  (loopInv_reachable h).started t ht

/-- A task of one `GET_DIE`, after its only pass. -/
theorem loop_refined_die :
    ∃ s, system.ReachableBy AddrFresh s ∧ 0 ∈ s.started ∧ s.pc = .running 0 ∧
      s.commandsOf 0 ≠ [] ∧ ∃ mem i n, LoopOf s 0 i
        (Loop.after mem (s.bufs (s.out 0)).allowed (fun _ => some i) (s.tasks 0).asQueued n) := by
  have hseen : seenBy AddrFresh (openOne ++ writeCall 0 0 8 oneDie ++ workerSteps 10)
      (fun s => (s.started, s.pc, (s.commandsOf 0).isEmpty)) =
      some ([0], .running 0, false) := by decide +kernel
  obtain ⟨s, hr, hs⟩ := exists_seenBy hseen
  simp only [Prod.mk.injEq] at hs
  obtain ⟨hstarted, hpc, hfed⟩ := hs
  have hin : 0 ∈ s.started := by
    rw [hstarted]
    decide
  refine ⟨s, hr, hin, hpc, fun hnil => ?_, loop_refined hr hin⟩
  rw [hnil] at hfed
  cases hfed

/-! ## The fence behind the loop -/

theorem fences_step (hs : Step s l s') :
    s'.fences = s.fences ∨
      ∃ t, l = .worker ∧ s.pc = .fencing ∧ s.runningTask = some t ∧
        s'.fences = s.fences ++ [t] := by
  rw [fences_eq, fences_eq]
  cases hs with
  | openCtx | createSetRefused | createSet | runRefused | run | runCount | wait | waitLeave
  | releaseMark | releaseWait | releaseFree | writeRefused | write | writeFail | readNone
  | read | seed | dup | close | store | isrOff | isr | isrFence | slotError | suspend | resume
  | remove | head | polled | sleep | again | park | drop | getNext | taskFinish | runDone
  | runSkip | destroyKeep | finishing | shutdown | halt => exact Or.inl rfl
  | runQueue | writeQueue | waitReturn | fenceInterrupt | errorInterrupt | bindSlot | runFeed
  | runReject | taskRun => exact Or.inl (filterMap_log_none rfl)
  | releaseBuffer c b =>
    exact Or.inl ((filterMap_log_none rfl).trans (filterMap_unbound (fun _ _ => rfl) s b))
  | bufferRelease b | destroyUnbind t c b =>
    exact Or.inl (filterMap_unbound (fun _ _ => rfl) s b)
  | account t caller => exact Or.inl (filterMap_log_none (by cases caller <;> rfl))
  | fence t hpc hrun => exact Or.inr ⟨t, rfl, hpc, hrun, filterMap_log_some rfl⟩

/-- A task whose fence has been fed was started, and its loop is over. -/
def FencedOver (s : State) : Prop :=
  ∀ t ∈ s.fences, t ∈ s.started ∧ ∀ left, s.pc.loopAt s.runningTask ≠ some (t, left)

theorem FencedOver.step (hr : Reachable s) (h : FencedOver s) (hs : system.step s l = some s') :
    FencedOver s' := by
  have hstep := Step.of_step hs
  intro t ht
  have hold : t ∈ s.fences ∨ (s.pc = .fencing ∧ s.runningTask = some t) := by
    rcases fences_step hstep with heq | ⟨u, -, hpc, hrun, heq⟩
    · exact Or.inl (heq ▸ ht)
    · rw [heq, List.mem_append, List.mem_singleton] at ht
      rcases ht with ht | rfl
      · exact Or.inl ht
      · exact Or.inr ⟨hpc, hrun⟩
  have hbefore : t ∈ s.started ∧ ∀ left, s.pc.loopAt s.runningTask ≠ some (t, left) := by
    rcases hold with hmem | ⟨hpc, hrun⟩
    · exact h t hmem
    · refine ⟨running_started hr hrun, fun left hat => ?_⟩
      rw [hpc] at hat
      cases hat
  refine ⟨mem_filterMap_step hstep hbefore.1, fun left hat => ?_⟩
  cases LoopStep.of_step hs with
  | start u hstart _ _ _ hat' =>
    rw [hat'] at hat
    cases hat
    refine ((pipeline_reachable hr).started_lt t hbefore.1).2.1 ?_
    change s.pc.waitingTask s.nextTask = some t
    rw [hstart.pc_eq]
    exact hstart.next
  | pass u left' task pass hpc hrun _ _ _ _ _ hat' =>
    rw [hat'] at hat
    obtain ⟨_, -, heq⟩ := Option.map_eq_some_iff.mp hat
    cases heq
    refine hbefore.2 left' ?_
    rw [hpc, hrun]
    rfl
  | done u _ _ _ _ _ hat' =>
    rw [hat'] at hat
    cases hat
  | quiet _ _ hat' => exact hbefore.2 left (hat' ▸ hat)

theorem fencedOver_reachable (h : Reachable s) : FencedOver s := by
  have hprobed : probed.fences = [] := by decide
  refine Machine.Reachable.invariant_of (fun _ hr => hr) ?_
    (fun _ _ _ hr hI hs => hI.step hr hs) h
  intro t ht
  rw [show system.init.fences = [] from hprobed] at ht
  cases ht

/-! ## The words of a write -/

/-- How far the loop has come with words whose meaning is `out`. -/
inductive Loop.Parsing (allowed : Word) (slot : Option Slot) (task : Task) (word : Nat → Word)
    (out : Output) (p : Loop) : Prop
  | before (ws : List Word) (j : Nat) (rest : Output) (hat : p.At task ws.length j)
      (hspells : Spells word j ws) (hpasses : ∀ k < ws.length, task.Passes (j + k))
      (hlt : 4 * ws.length < 2 ^ 64) (hparse : parse allowed slot ws = some rest)
      (hout : out = ⟨p.fed ++ rest.fed, p.task.resultCount + rest.results, rest.failed⟩)
  | returned (hstatus : p.status = .returned) (hout : out = ⟨p.fed, p.task.resultCount, false⟩)
  | failed (hstatus : p.status = .failed) (hout : out = ⟨p.fed, p.task.resultCount, true⟩)

namespace Loop.Parsing

variable {allowed : Word} {slot : Option Slot} {task : Task} {word : Nat → Word} {out : Output}
  {p : Loop} {mem : BufId → Nat → Nat → Word}

/-- A command is rejected. -/
theorem reject {t' : Task} {j left : Nat} {k : Nat} (hat : p.At task left j) (hleft : left ≠ 0)
    (hrun : runTaskPass mem allowed slot p.task p.bytesLeft = .ok (t', .reject))
    (hreads : passReads mem p.task p.bytesLeft = k)
    (hcount : t'.resultCount = p.task.resultCount)
    (hout : out = ⟨p.fed, p.task.resultCount, true⟩) :
    Parsing allowed slot task word out (p.pass mem allowed slot) := by
  have hbytes := hat.bytes
  rw [pass_eq hat.looping (by omega) hrun hreads]
  refine .failed rfl ?_
  change out = ⟨p.fed, t'.resultCount, true⟩
  rw [hcount]
  exact hout

/-- The loop goes on behind a command of `k` words that counts `n` results. -/
theorem next {t' : Task} {pass : Pass} {ws ws' : List Word} {j k n : Nat} {rest : Output}
    {c : List (List Word)} (hat : p.At task ws.length j) (hlen : ws.length = ws'.length + k)
    (hk : k ≠ 0) (hpasses : ∀ k < ws.length, task.Passes (j + k)) (hlt : 4 * ws.length < 2 ^ 64)
    (hrun : runTaskPass mem allowed slot p.task p.bytesLeft = .ok (t', pass))
    (hreads : passReads mem p.task p.bytesLeft = k) (hleft : pass.left? = some (4 * ws'.length))
    (hfed : (p.effect k (t', pass)).fed = p.fed ++ c)
    (hcount : t'.resultCount = p.task.resultCount + n) (hat' : task.At (j + k) t')
    (hspells : Spells word (j + k) ws') (hparse : parse allowed slot ws' = some rest)
    (hout : out = ⟨p.fed ++ (c ++ rest.fed), p.task.resultCount + (n + rest.results),
      rest.failed⟩) :
    Parsing allowed slot task word out (p.pass mem allowed slot) := by
  have hbytes := hat.bytes
  rw [pass_eq hat.looping (by omega) hrun hreads]
  have heffect : (p.effect k (t', pass)).At task ws'.length (j + k) ∧
      (p.effect k (t', pass)).task = t' := by
    cases pass with
    | skip left =>
      cases hleft
      exact ⟨⟨hat.looping, hat', rfl, congrArg (· + k) hat.asked⟩, rfl⟩
    | fed words user left =>
      cases hleft
      exact ⟨⟨hat.looping, hat', rfl, congrArg (· + k) hat.asked⟩, rfl⟩
    | reject => cases hleft
  refine .before ws' (j + k) rest heffect.1 hspells ?_ (by omega) hparse ?_
  · intro i hi
    rw [Nat.add_assoc]
    exact hpasses (k + i) (by omega)
  · rw [hfed, heffect.2, hcount, List.append_assoc, Nat.add_assoc]
    exact hout

/-- A pass over a word that is not the header of a `GET_DIE`. -/
theorem pass_of_ne {w : Word} {ws : List Word} {j : Nat} {rest : Output}
    (hword : ∀ j, task.word mem j = word j) (hat : p.At task (w :: ws).length j)
    (hspells : Spells word j (w :: ws)) (hpasses : ∀ k < (w :: ws).length, task.Passes (j + k))
    (hlt : 4 * (w :: ws).length < 2 ^ 64) (hparse : parse allowed slot (w :: ws) = some rest)
    (hout : out = ⟨p.fed ++ rest.fed, p.task.resultCount + rest.results, rest.failed⟩)
    (hdie : w &&& cmdTypeMask ≠ userCmdTypeGetDie) :
    Parsing allowed slot task word out (p.pass mem allowed slot) := by
  obtain ⟨t₁, hget, hat'⟩ := get_at mem hat.task (hpasses 0 (Nat.zero_lt_succ _))
  rw [hword, hspells.1] at hget
  have hcount := (taskGetNextWord_same hget).2
  have hreads := passReads_one hget hdie p.bytesLeft
  have hsub : sizeSub p.bytesLeft 4 = 4 * ws.length := by
    rw [hat.bytes]
    exact sizeSub_words (k := 1) hlt
  rw [parse_of_ne hdie] at hparse
  split at hparse
  · rename_i hnop
    have hrun : runTaskPass mem allowed slot p.task p.bytesLeft =
        .ok (t₁, .skip (4 * ws.length)) := by
      rw [runTaskPass_nop hget hnop, hsub]
    exact next (c := []) (n := 0) hat rfl (by decide) hpasses hlt hrun hreads rfl
      (List.append_nil _).symm hcount hat' hspells.2 hparse (by rw [Nat.zero_add]; exact hout)
  · rename_i hnop
    split at hparse
    · rename_i hset
      split at hparse
      · rename_i hbad
        cases hparse
        refine reject hat (Nat.succ_ne_zero _) ?_ hreads hcount ?_
        · rw [runTaskPass_newSet hget hset, newSetPass, if_pos hbad]
        · rw [hout, List.append_nil, Nat.add_zero]
      · rename_i hgood
        obtain ⟨rest', hrest, rfl⟩ := Option.map_eq_some_iff.mp hparse
        have hrun : runTaskPass mem allowed slot p.task p.bytesLeft =
            .ok (t₁, .fed [w ||| bindedSlotWord slot <<< 4] w (4 * ws.length)) := by
          rw [runTaskPass_newSet hget hset, newSetPass, if_neg hgood, hsub]
        exact next (n := 0) hat rfl (by decide) hpasses hlt hrun hreads rfl rfl hcount hat'
          hspells.2 hrest hout
    · rename_i hset
      cases hparse
      refine reject hat (Nat.succ_ne_zero _) (runTaskPass_unknown hget hnop hdie hset) hreads
        hcount ?_
      rw [hout, List.append_nil, Nat.add_zero]

/-- A pass over a `GET_DIE`. -/
theorem pass_of_getDie {w m : Word} {ws : List Word} {j : Nat} {rest : Output}
    (hword : ∀ j, task.word mem j = word j) (hat : p.At task (w :: m :: ws).length j)
    (hspells : Spells word j (w :: m :: ws))
    (hpasses : ∀ k < (w :: m :: ws).length, task.Passes (j + k))
    (hlt : 4 * (w :: m :: ws).length < 2 ^ 64)
    (hparse : parse allowed slot (w :: m :: ws) = some rest)
    (hout : out = ⟨p.fed ++ rest.fed, p.task.resultCount + rest.results, rest.failed⟩)
    (hdie : w &&& cmdTypeMask = userCmdTypeGetDie) :
    Parsing allowed slot task word out (p.pass mem allowed slot) := by
  obtain ⟨t₁, hget, hat₁⟩ := get_at mem hat.task (hpasses 0 (Nat.zero_lt_succ _))
  obtain ⟨t₂, hget', hat₂⟩ := get_at mem hat₁ (hpasses 1 (by simp))
  rw [hword, hspells.1] at hget
  rw [hword, hspells.2.1] at hget'
  have hcount := (taskGetNextWord_same hget').2.trans (taskGetNextWord_same hget).2
  have hfour : ¬ p.bytesLeft < 4 := by
    rw [hat.bytes]
    exact not_words_lt_four w _
  have hreads := passReads_two hget hdie hfour
  have hpass : runTaskPass mem allowed slot p.task p.bytesLeft =
      .ok (getDiePass allowed slot w m t₂ p.bytesLeft) := runTaskPass_getDie hget hdie hfour hget'
  rw [parse_getDie hdie] at hparse
  split at hparse
  · rename_i hbad
    cases hparse
    refine reject hat (Nat.succ_ne_zero _) ?_ hreads hcount ?_
    · rw [hpass, getDiePass_reject hbad]
    · rw [hout, List.append_nil, Nat.add_zero]
  · rename_i hgood
    obtain ⟨hslot, hmask⟩ := not_or.mp hgood
    obtain ⟨rest', hrest, rfl⟩ := Option.map_eq_some_iff.mp hparse
    have hsub : sizeSub p.bytesLeft 8 = 4 * ws.length := by
      rw [hat.bytes]
      exact sizeSub_words (k := 2) hlt
    rw [getDiePass, if_neg hslot, if_neg hmask, hsub] at hpass
    exact next (k := 2) hat rfl (by decide) hpasses hlt hpass hreads rfl rfl
      (congrArg (· + (w &&& getDieNumMask).toNat) hcount) (hat₂.of_body rfl) hspells.2.2 hrest hout

theorem pass (hword : ∀ j, task.word mem j = word j)
    (h : Parsing allowed slot task word out p) :
    Parsing allowed slot task word out (p.pass mem allowed slot) := by
  cases h with
  | before ws j rest hat hspells hpasses hlt hparse hout =>
    rcases ws with - | ⟨w, ws⟩
    · rw [pass_at_end hat]
      cases hparse
      refine .returned rfl ?_
      rw [hout, List.append_nil, Nat.add_zero]
    · by_cases hdie : w &&& cmdTypeMask = userCmdTypeGetDie
      · rcases ws with - | ⟨m, ws⟩
        · -- there is no meaning with a header in the last word
          have hnop : w &&& cmdTypeMask ≠ userCmdTypeNop := by
            rw [hdie]
            decide
          rw [parse, if_neg hnop, if_pos hdie] at hparse
          cases hparse
        · exact pass_of_getDie hword hat hspells hpasses hlt hparse hout hdie
      · exact pass_of_ne hword hat hspells hpasses hlt hparse hout hdie
  | returned hstatus hout =>
    rw [Loop.Ended.pass_eq (Or.inl hstatus)]
    exact .returned hstatus hout
  | failed hstatus hout =>
    rw [Loop.Ended.pass_eq (Or.inr hstatus)]
    exact .failed hstatus hout

/-- What has been fed is the beginning of the translation, and all of it when the loop is over. -/
theorem fed_begins (h : Parsing allowed slot task word out p) : p.fed <+: out.fed := by
  cases h with
  | before ws j rest hat hspells hpasses hlt hparse hout =>
    exact ⟨rest.fed, by rw [hout]⟩
  | returned _ hout | failed _ hout => rw [hout]

theorem ended (h : Parsing allowed slot task word out p) (hend : p.Ended) :
    out.fed = p.fed ∧ out.results = p.task.resultCount ∧
      (out.failed = true ↔ p.status = .failed) := by
  cases h with
  | before ws j rest hat =>
    rcases hend with hs | hs <;> cases hs.symm.trans hat.looping
  | returned hstatus hout =>
    rw [hout, hstatus]
    exact ⟨rfl, rfl, by simp⟩
  | failed hstatus hout =>
    rw [hout, hstatus]
    exact ⟨rfl, rfl, by simp⟩

end Loop.Parsing

theorem parsing_after {allowed : Word} {i : Slot} {task : Task} {word : Nat → Word}
    {ws : List Word} {out : Output} (mem : Nat → BufId → Nat → Nat → Word)
    (hword : ∀ mem j, task.word mem j = word j) (hwords : task.Words ws.length)
    (hcount : task.resultCount = 0) (hspells : Spells word 0 ws)
    (hparse : parse allowed (some i) ws = some out) (n : Nat) :
    Loop.Parsing allowed (some i) task word out
      (Loop.after mem allowed (fun _ => some i) task n) := by
  induction n with
  | zero =>
    refine .before ws 0 out (at_start hwords) hspells ?_ hwords.lt hparse ?_
    · intro k hk
      rw [Nat.zero_add]
      exact hwords.passes (by omega) k (Nat.le_of_lt hk)
    · change out = ⟨[] ++ out.fed, (taskInitIt task).resultCount + out.results, out.failed⟩
      rw [taskInitIt_resultCount, hcount, Nat.zero_add]
      rfl
  | succ n ih => exact ih.pass (hword (mem n))

/-- The commands of a write that has been started are those of the translation of its words, as
far as the loop has got. -/
theorem translated_of_started (h : system.ReachableBy AddrFresh s) (hin : t ∈ s.started)
    {c : CtxId} {b : BufId} {cmd : Nat → Word} {ws : List Word}
    (hqueued : (s.tasks t).asQueued = writeTask c b cmd (4 * ws.length))
    (hlt : 4 * ws.length < 2 ^ 64) (hws : ∀ j < ws.length, ws[j]? = some (cmd j))
    (hcut : cutHeader (s.bufs (s.out t)).allowed (fun _ => cmd) ws.length 0 0 = false) :
    ∃ i out, parse (s.bufs (s.out t)).allowed (some i) ws = some out ∧
      s.commandsOf t <+: out.fed ∧
      (t ∈ s.fences → s.commandsOf t = out.fed ∧ (s.tasks t).resultCount = out.results ∧
        (t ∈ s.rejectedTasks ↔ out.failed = true)) := by
  obtain ⟨mem, i, n, hloop⟩ := (loopInv_reachable h).started t hin
  have hspells : Spells cmd 0 ws :=
    spells_of_getElem? fun j hj => by rw [Nat.zero_add]; exact hws j hj
  obtain ⟨out, hparse⟩ := parse_of_cutHeader (some i) hspells hcut
  have hpars : Loop.Parsing (s.bufs (s.out t)).allowed (some i) (s.tasks t).asQueued cmd out
      (Loop.after mem (s.bufs (s.out t)).allowed (fun _ => some i) (s.tasks t).asQueued n) :=
    parsing_after mem (fun _ _ => by rw [hqueued]; rfl)
      (by rw [hqueued]; exact words_write _ _ _ hlt) rfl hspells hparse n
  refine ⟨i, out, hparse, by rw [hloop.fed]; exact hpars.fed_begins, fun hfence => ?_⟩
  have hend : (Loop.after mem (s.bufs (s.out t)).allowed (fun _ => some i)
      (s.tasks t).asQueued n).Ended := by
    refine hloop.status.resolve_left fun hlooping => ?_
    exact (fencedOver_reachable h.reachable t hfence).2 _ ((hloop.at_iff _).mpr ⟨hlooping, rfl⟩)
  obtain ⟨hfed, hresults, hfailed⟩ := hpars.ended hend
  have hcount := (congrArg Task.resultCount hloop.task :)
  exact ⟨hloop.fed.trans hfed.symm, hcount.trans hresults.symm, hloop.rejected.trans hfailed.symm⟩

/-- A write as it was queued. -/
theorem asQueued_of_write {task : Task} {w : TaskWrite} {n : Nat} (hbody : task.body = .write w)
    (hsize : w.cmdSize = n) : task.asQueued = writeTask task.ctx task.buffOut w.cmd n := by
  unfold Task.asQueued writeTask
  rw [hbody, ← hsize]
  rfl

/-- What becomes of the words `ws` of the write `t`, when the addresses of contexts are fresh and
the loop does not come to a header as the last of the words. Before the task is started nothing is
fed for it. From then on the device has got the beginning of the translation of the words, and when
the fence of the task has been fed it has got all of it: the results counted and the rejection are
those of the translation too. -/
theorem submission_translated (h : system.ReachableBy AddrFresh s) {w : TaskWrite}
    {ws : List Word} (hbody : (s.tasks t).body = .write w)
    (hsize : w.cmdSize = 4 * ws.length) (hlt : 4 * ws.length < 2 ^ 64)
    (hws : ∀ j < ws.length, ws[j]? = some (w.cmd j))
    (hcut : cutHeader (s.bufs (s.out t)).allowed (fun _ => w.cmd) ws.length 0 0 = false) :
    (t ∉ s.started → s.commandsOf t = []) ∧
    (t ∈ s.started → ∃ i out, parse (s.bufs (s.out t)).allowed (some i) ws = some out ∧
      s.commandsOf t <+: out.fed ∧
      (t ∈ s.fences → s.commandsOf t = out.fed ∧ (s.tasks t).resultCount = out.results ∧
        (t ∈ s.rejectedTasks ↔ out.failed = true))) :=
  ⟨fun hnot => ((loopInv_reachable h).queued t hnot).1,
    fun hin => translated_of_started h hin (asQueued_of_write hbody hsize) hlt hws hcut⟩

theorem getElem?_pair {cmd : Nat → Word} {a b : Word} (h₀ : cmd 0 = a) (h₁ : cmd 1 = b) :
    ∀ j < 2, [a, b][j]? = some (cmd j) := by
  intro j hj
  match j, hj with
  | 0, _ => exact congrArg some h₀.symm
  | 1, _ => exact congrArg some h₁.symm

/-- The fields of a write. -/
def TaskBody.write? : TaskBody → Option TaskWrite
  | .write w => some w
  | .run _ => none

theorem TaskBody.eq_write {body : TaskBody} {w : TaskWrite} (h : body.write? = some w) :
    body = .write w := by
  cases body with
  | write w' =>
    cases h
    rfl
  | run r => cases h

/-- The write of one `GET_DIE`, with its fence fed. -/
theorem submission_translated_die :
    ∃ s, system.ReachableBy AddrFresh s ∧ 0 ∈ s.fences ∧
      ∃ i out, parse (s.bufs (s.out 0)).allowed (some i) [0x12, 0x20] = some out ∧
        s.commandsOf 0 = out.fed ∧ (s.tasks 0).resultCount = out.results ∧
        (0 ∈ s.rejectedTasks ↔ out.failed = true) := by
  have hseen : seenBy AddrFresh (openOne ++ writeCall 0 0 8 oneDie ++ workerSteps 12)
      (fun s => (s.started, s.fences, (s.tasks 0).body.write?.any fun w =>
        decide (w.cmdSize = 8 ∧ w.cmd 0 = 0x12 ∧ w.cmd 1 = 0x20 ∧
          cutHeader (s.bufs (s.out 0)).allowed (fun _ => w.cmd) 2 0 0 = false))) =
      some ([0], [0], true) := by decide +kernel
  obtain ⟨s, hr, hs⟩ := exists_seenBy hseen
  simp only [Prod.mk.injEq, Option.any_eq_true, decide_eq_true_eq] at hs
  obtain ⟨hstarted, hfences, w, hw, hbytes, h₀, h₁, hcut⟩ := hs
  have hfence : 0 ∈ s.fences := by
    rw [hfences]
    decide
  have hsize : w.cmdSize = 4 * ([0x12, 0x20] : List Word).length := hbytes
  obtain ⟨i, out, hparse, -, hdone⟩ :=
    (submission_translated hr (TaskBody.eq_write hw) hsize (by decide) (getElem?_pair h₀ h₁)
      hcut).2 (by rw [hstarted]; decide)
  exact ⟨s, hr, hfence, i, out, hparse, hdone hfence⟩

end Dicedev
