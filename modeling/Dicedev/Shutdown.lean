import Dicedev.Sessions

/-!
# Stopping the worker

After its loop `dicedev_wt_fn` takes `slock` and destroys the pending tasks and the running
one with `__task_destroy`, which takes the lock again; and it forgets the prefetched task. So
the tasks are all destroyed when the function returns exactly if there are none left at the
end of the loop, `shutdown_iff`. What is left then is never destroyed.
-/

namespace Dicedev

open State

variable {s s' : State} {l : Label}

/-- Every task that was queued has been destroyed, once, and the counters hold nothing but the
calls in progress. -/
structure AllDestroyed (s : State) : Prop where
  once : s.gone.Nodup
  all : ∀ t < s.nTask, t ∈ s.gone
  counts : ∀ c, (s.ctxs c).taskCount = callsOf s.calls s.nCall c

theorem counts_of_all (h : Reachable s) (hall : ∀ t < s.nTask, t ∈ s.gone) (c : CtxId) :
    (s.ctxs c).taskCount = callsOf s.calls s.nCall c := by
  have hacc : (s.ctxs c).taskCount = _ := accounts_reachable h c
  have hzero : tasksOf s.sig s.nTask c = 0 := by
    apply Tally.tally_eq_zero
    intro t ht hlive
    have hfreed := (freedGone_reachable h t ht).mpr (hall t ht)
    simp [TaskSig.liveIn, hfreed] at hlive
  omega

/-- The code behind the loop is one step. -/
theorem shutdown_step (hpc : s.pc = .shutdown) (hs : system.step s .worker = some s') :
    s' = { s with pc := s.wtShutdown } := by
  change (if s.bug = none then s.wtStep.map s.orHalt else none) = some s' at hs
  split at hs
  · rw [State.wtStep, hpc] at hs
    cases hs
    rfl
  · cases hs

/-- Other threads move the worker only out of its sleep. -/
theorem pc_other_step (hs : Step s l s') (hl : l ≠ .worker) : s'.pc = s.pc ∨ s'.pc = s.wokenPc := by
  cases hs with
  | runQueue | writeQueue | isrFence | suspend | remove => exact Or.inr rfl
  | head | polled | sleep | again | park | drop | getNext | bindSlot | taskRun | taskFinish
  | runDone | runSkip | runFeed | runReject | fence | destroyUnbind | destroyKeep | account
  | finishing | shutdown => exact absurd rfl hl
  | _ => exact Or.inl rfl

/-- The worker has returned, or spins for ever. -/
def State.Stopped (s : State) : Prop := s.pc = .exited ∨ s.pc = .hung

theorem Stopped.step (h : s.Stopped) (hs : system.step s l = some s') : s'.pc = s.pc := by
  have hl : l ≠ .worker := by
    rintro rfl
    change (if s.bug = none then s.wtStep.map s.orHalt else none) = some s' at hs
    rcases h with hpc | hpc <;> simp [State.wtStep, hpc] at hs
  rcases pc_other_step (Step.of_step hs) hl with hpc | hpc
  · exact hpc
  · have hne : s.pc ≠ .asleep := by
      rcases h with hpc | hpc <;> rw [hpc] <;> decide
    rw [hpc, wokenPc, if_neg hne]

/-- A stopped worker destroys nothing any more. -/
theorem stopped_run (h : s.Stopped) {ls : List Label} (hrun : system.exec s ls = some s') :
    s'.pc = s.pc ∧ ∀ t, t ∈ s'.gone ↔ t ∈ s.gone := by
  refine Machine.exec_invariant (I := fun u => u.pc = s.pc ∧ ∀ t, t ∈ u.gone ↔ t ∈ s.gone) ?_
    ⟨rfl, fun _ => Iff.rfl⟩ hrun
  rintro u l v ⟨hpc, hgone⟩ hstep
  have hstopped : u.Stopped := by
    rw [State.Stopped, hpc]
    exact h
  refine ⟨(Stopped.step hstopped hstep).trans hpc, fun t => Iff.trans ⟨?_, ?_⟩ (hgone t)⟩
  · intro ht
    by_contra hold
    obtain ⟨c, haccount⟩ := gone_step (Step.of_step hstep) ht hold
    rcases hstopped with hpc | hpc <;> rw [hpc] at haccount <;> cases haccount
  · exact mem_filterMap_step (Step.of_step hstep)

/-- The worker returns from `dicedev_wt_fn` with every task destroyed exactly if none is left
at the end of its loop: none in the queue, none prefetched and none running. Afterwards no
task is destroyed. -/
theorem shutdown_iff (h : Reachable s) (hpc : s.pc = .shutdown)
    (hs : system.step s .worker = some s') :
    (s'.pc = .exited ∧ AllDestroyed s' ↔
      s.pendingTasks = [] ∧ s.nextTask = none ∧ s.runningTask = none) ∧
    ∀ ls u, system.exec s' ls = some u → u.pc = s'.pc ∧ ∀ t, t ∈ u.gone ↔ t ∈ s.gone := by
  have hr' := h.step hs
  obtain rfl := shutdown_step hpc hs
  refine ⟨⟨?_, ?_⟩, ?_⟩
  · rintro ⟨hexit, hall⟩
    have hempty : s.pendingTasks = [] ∧ s.runningTask = none := by
      by_contra hne
      change s.wtShutdown = .exited at hexit
      rw [wtShutdown, if_neg hne] at hexit
      cases hexit
    refine ⟨hempty.1, ?_, hempty.2⟩
    -- a prefetched task would still be there
    by_contra hnext
    obtain ⟨t, ht⟩ := Option.ne_none_iff_exists'.mp hnext
    exact not_gone_of_held h (next_held h ht) (hall.all t (next_lt h ht))
  · rintro ⟨hpend, hnext, hrun⟩
    have hview : ∀ o : Option TaskId, s.pc.deviceTask o = o ∧ s.pc.waitingTask o = o ∧
        s.pc.droppedTask = none := by
      intro o
      rw [hpc]
      exact ⟨rfl, rfl, rfl⟩
    have hall : ∀ t < s.nTask, t ∈ s.gone := by
      intro t ht
      refine (freedGone_reachable h t ht).mp (freed_of_empty h ?_ ?_ (hview none).2.2 hpend ht)
      · exact (hview _).1.trans hrun
      · exact (hview _).2.1.trans hnext
    refine ⟨if_pos ⟨hpend, hrun⟩, (pipeline_reachable h).gone_nodup, hall, ?_⟩
    exact fun c => counts_of_all hr' hall c
  · intro ls u hrun
    exact stopped_run (wtShutdown_cases s) hrun

/-- An idle worker is stopped after one task. -/
theorem shutdown_iff_idle :
    ∃ s s', Reachable s ∧ s.pc = .shutdown ∧ system.step s .worker = some s' ∧ s.nTask = 1 ∧
      s'.pc = .exited ∧ AllDestroyed s' := by
  have hseen : seenAfter (openOne ++ writeCall 0 0 0 (fun _ => 0) ++ startEmpty ++ finishTask ++
      [.remove, .worker]) (fun s => ((s.pc, s.nTask), s.pendingTasks, s.nextTask, s.runningTask,
        (system.step s .worker).isSome)) =
      some ((.shutdown, 1), [], none, none, true) := by decide +kernel
  obtain ⟨s, -, hr, hf⟩ := exists_seenAfter hseen
  simp only [Prod.mk.injEq] at hf
  obtain ⟨⟨hpc, hn⟩, hpend, hnext, hrun, hstep⟩ := hf
  obtain ⟨s', hs'⟩ := Option.isSome_iff_exists.mp hstep
  obtain ⟨hexit, hall⟩ := (shutdown_iff hr hpc hs').1.mpr ⟨hpend, hnext, hrun⟩
  exact ⟨s, s', hr, hpc, hs', hn, hexit, hall⟩

/-- The stop comes when a task is prefetched, and the worker returns without it; or a task is
pending, and the worker does not return. -/
theorem shutdown_leaves_task :
    (∃ s, system.exec probed (openOne ++ writeCall 0 0 0 (fun _ => 0) ++ workerSteps 3 ++
        [.remove] ++ workerSteps 2) = some s ∧ s.pc = .exited ∧ 0 < s.nTask ∧ 0 ∉ s.gone ∧
        (s.ctxs 0).taskCount = 1 ∧ s.calls 0 = none ∧ ¬ AllDestroyed s) ∧
      ∃ s, system.exec probed (openOne ++ writeCall 0 0 0 (fun _ => 0) ++ [.remove] ++
        workerSteps 2) = some s ∧ s.pc = .hung ∧ 0 < s.nTask ∧ 0 ∉ s.gone := by
  constructor
  · have hseen : seenAfter (openOne ++ writeCall 0 0 0 (fun _ => 0) ++ workerSteps 3 ++
        [.remove] ++ workerSteps 2) (fun s => ((s.pc, s.nTask), s.gone, (s.ctxs 0).taskCount,
          s.calls 0)) = some ((.exited, 1), [], 1, none) := by decide +kernel
    obtain ⟨s, hs, -, hf⟩ := exists_seenAfter hseen
    simp only [Prod.mk.injEq] at hf
    obtain ⟨⟨hpc, hn⟩, hgone, hcount, hcall⟩ := hf
    have hpos : 0 < s.nTask := by omega
    have hleft : 0 ∉ s.gone := by simp [hgone]
    exact ⟨s, hs, hpc, hpos, hleft, hcount, hcall, fun h => hleft (h.all 0 hpos)⟩
  · have hseen : seenAfter (openOne ++ writeCall 0 0 0 (fun _ => 0) ++ [.remove] ++
        workerSteps 2) (fun s => (s.pc, s.nTask, s.gone)) = some (.hung, 1, []) := by decide +kernel
    obtain ⟨s, hs, -, hf⟩ := exists_seenAfter hseen
    simp only [Prod.mk.injEq] at hf
    obtain ⟨hpc, hn, hgone⟩ := hf
    exact ⟨s, hs, hpc, by omega, by simp [hgone]⟩

end Dicedev
