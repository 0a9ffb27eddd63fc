import Dicedev.Liveness

/-!
# Parking and stopping

`dicedev_suspend` waits in `kthread_park` for the worker to park, and `dicedev_remove` waits in
`kthread_stop` for it to leave its loop. Both leave a flag and wake the worker, which looks at
the flags at the top of its loop only. However long the task is that it feeds, it gets there:
`worker_rests`. Three things could keep it: a sleep that the flag does not end, but both
functions wake the worker (`untold_reachable`); a loop of `__wt_run_task` that goes on for ever,
which whole commands exclude; and a fault, of its own or of a write that dies with `slock` held
(`NoFault`).
-/

namespace Dicedev

open State

variable {s s' : State} {l : Label} {park : Bool}

/-! ## The flags wake the worker -/

/-- The worker has been told neither to park nor to stop. -/
def State.Untold (s : State) : Prop := s.shouldStop = false ∧ s.shouldPark = false

theorem untold_of_noEvent (h : s.wtGetEvent = .noEvent) : s.Untold := by
  refine ⟨?_, shouldPark_of_noEvent h⟩
  cases hstop : s.shouldStop with
  | false => rfl
  | true =>
    unfold wtGetEvent wtGetEventFence at h
    rw [hstop] at h
    cases h

/-- A worker that sleeps has not been told anything. -/
theorem untold_step (h : s.pc = .asleep → s.Untold) (hs : Step s l s') (hpc : s'.pc = .asleep) :
    s'.Untold := by
  cases hs with
  | runQueue | writeQueue | isrFence | suspend | remove => exact absurd hpc (wokenPc_ne_asleep s)
  | resume => exact ⟨(h hpc).1, rfl⟩
  | head => exact absurd hpc (wtPoll_ne_asleep s)
  | shutdown => exact absurd hpc (wtShutdown_ne_asleep s)
  | sleep _ hev => exact untold_of_noEvent hev
  | account _ c => cases c <;> cases hpc
  | polled | again | park | drop | getNext | bindSlot | taskRun | taskFinish | runDone | runSkip
  | runFeed | runReject | fence | destroyUnbind | destroyKeep | finishing => cases hpc
  | _ => exact h hpc

theorem untold_reachable (hr : Reachable s) : s.pc = .asleep → s.Untold :=
  Machine.Reachable.invariant (I := fun s => s.pc = .asleep → s.Untold)
    (fun hpc => by cases hpc) (fun _ _ _ hI hs => untold_step hI (Step.of_step hs)) hr

/-! ## The way to the top of the loop -/

/-- What is left to do before a worker that has been told to park, or to stop, does so. -/
def WtPc.toRest (park : Bool) : WtPc → Nat ×ₗ Nat
  | .exited | .hung => toLex (0, 0)
  | .shutdown => toLex (1, 0)
  | .head => toLex (2, 0)
  | .event .noEvent | .event .stop | .finishing | .fencing => toLex (3, 0)
  | .parked => toLex (if park then 0 else 3, 0)
  | .event .park => toLex (if park then 1 else 4, 0)
  | .account _ _ => toLex (4, 0)
  | .destroy _ _ => toLex (5, 0)
  | .running left => toLex (6, left)
  | .event _ => toLex (7, 0)
  | .polled => toLex (8, 0)
  | .asleep => toLex (9, 0)

/-- The worker is told to park if `park`, and to stop otherwise. -/
def State.Told (s : State) (park : Bool) : Prop := s.shouldPark = park ∧ s.shouldStop = !park

/-- The worker does as it was told. -/
def State.AtRest (s : State) (park : Bool) : Prop :=
  if park then s.pc = .parked else s.Stopped

instance (s : State) (park : Bool) : Decidable (s.Told park) :=
  inferInstanceAs (Decidable (_ ∧ _))

theorem State.Told.not_untold (h : s.Told park) : ¬ s.Untold := by
  rintro ⟨hstop, hpark⟩
  have hnot : park = false := h.1.symm.trans hpark
  rw [h.2, hnot] at hstop
  cases hstop

theorem State.Told.wtPoll (h : s.Told park) :
    s.wtPoll = if park then .event .park else .shutdown := by
  unfold State.wtPoll wtGetEventFence
  rw [h.1, h.2]
  cases park <;> rfl

/-- A worker step brings the worker nearer to its rest. -/
theorem toRest_worker (h : system.ReachableBy Faultless s) (hC : Faultless s .worker)
    (hs : system.step s .worker = some s') (htold : s.Told park) (hrest : ¬ s.AtRest park) :
    s'.pc.toRest park < s.pc.toRest park := by
  have hwhole := h.mono fun _ _ hC => hC.1.2
  have hbug := bug_eq_none ((h.step hC hs).mono fun _ _ hC => hC.1)
  have hleft : ∀ {a b c d : Nat}, a < b → (toLex (a, c) : Nat ×ₗ Nat) < toLex (b, d) :=
    fun hlt => Prod.Lex.toLex_lt_toLex.mpr (Or.inl hlt)
  have hright : ∀ {a c d : Nat}, c < d → (toLex (a, c) : Nat ×ₗ Nat) < toLex (a, d) :=
    fun hlt => Prod.Lex.toLex_lt_toLex.mpr (Or.inr ⟨rfl, hlt⟩)
  cases Step.of_step hs with
  | head hpc =>
    change s.wtPoll.toRest park < _
    rw [htold.wtPoll, hpc]
    cases park <;> exact hleft (by decide)
  | sleep _ hev => exact absurd (untold_of_noEvent hev) htold.not_untold
  | again hpc =>
    rcases hpc with hpc | hpc | hpc <;> rw [hpc]
    · exact hleft (by decide)
    · exact hleft (by decide)
    · cases park with
      | false => exact hleft (by decide)
      | true => exact absurd hpc hrest
  | park hpc =>
    rw [hpc]
    cases park <;> exact hleft (by decide)
  | polled hpc =>
    rw [hpc]
    change (WtPc.event s.wtGetEventTask).toRest park < _
    rcases wtGetEventTask_cases s with he | he | ⟨-, he | he⟩ <;> rw [he] <;>
      exact hleft (by decide)
  | account t c b _ hpc =>
    rw [hpc]
    cases c <;> exact hleft (by decide)
  | shutdown hpc =>
    change s.wtShutdown.toRest park < _
    rw [hpc]
    rcases wtShutdown_cases s with hout | hout <;> rw [hout] <;> exact hleft (by decide)
  -- inside the loop the bytes that are left get fewer
  | runSkip t left task left' hpc hrun hpass =>
    have hne := left_ne_zero hpc hrun hs fun heq => by cases congrArg State.pc heq
    rw [hpc]
    exact hright (left_lt_of_pass hwhole hC.1.2 hpc hrun hne hpass rfl)
  | runFeed t left task words user left' hpc hrun hpass =>
    have hne := left_ne_zero hpc hrun hs fun heq => by cases congrArg State.pc heq
    rw [hpc]
    exact hright (left_lt_of_pass hwhole hC.1.2 hpc hrun hne hpass rfl)
  | halt => cases hbug
  | drop _ _ hpc | getNext _ _ hpc | bindSlot _ _ _ hpc | taskRun _ hpc | taskFinish _ hpc
  | runDone _ hpc | runReject _ _ _ hpc | fence _ hpc | destroyUnbind _ _ _ hpc
  | destroyKeep _ _ hpc | finishing hpc =>
    rw [hpc]
    exact hleft (by decide)

theorem pc_other_of_told (hr : Reachable s) (hs : Step s l s') (hl : l ≠ .worker)
    (htold : s.Told park) : s'.pc = s.pc := by
  rcases pc_other_step hs hl with hpc | hpc
  · exact hpc
  · have hawake : s.pc ≠ .asleep := fun hasleep => htold.not_untold (untold_reachable hr hasleep)
    rw [hpc, wokenPc, if_neg hawake]

/-- On its way the worker is never blocked. -/
theorem worker_enabled_of_told (h : system.ReachableBy Faultless s) (htold : s.Told park)
    (hrest : ¬ s.AtRest park) : system.Enabled s .worker := by
  have hwt : s.wtStep ≠ none := by
    unfold wtStep
    cases hp : s.pc with
    | asleep => exact absurd (untold_reachable h.reachable hp) htold.not_untold
    | parked =>
      dsimp only
      rw [htold.1]
      cases park with
      | false => exact Option.some_ne_none _
      | true => exact absurd hp hrest
    | hung | exited =>
      have hstop := leavesOnStop_reachable h.reachable (by simp [hp])
      rw [htold.2] at hstop
      cases park with
      | false => exact absurd (by simp [State.AtRest, State.Stopped, hp]) hrest
      | true => cases hstop
    | _ => exact Option.some_ne_none _
  exact enabled_of_handle (bug_eq_none (h.mono fun _ _ hC => hC.1)) fun hnone =>
    hwt (Option.map_eq_none_iff.mp hnone)

/-- The worker does not move again before it is told something else. -/
theorem State.AtRest.step (hrest : s.AtRest park) (htold : s.Told park)
    (hs : system.step s l = some s') : s'.AtRest park := by
  cases park with
  | false =>
    have hpc := Stopped.step hrest hs
    exact Or.imp hpc.trans hpc.trans hrest
  | true =>
    have hpc : s.pc = .parked := hrest
    have hl : l ≠ .worker := by
      rintro rfl
      change (if s.bug = none then s.wtStep.map s.orHalt else none) = some s' at hs
      simp [State.wtStep, hpc, htold.1] at hs
    rcases pc_other_step (Step.of_step hs) hl with hpc' | hpc'
    · exact hpc'.trans hpc
    · exact hpc'.trans ((if_neg (by rw [hpc]; decide)).trans hpc)

/-! ## Whole runs -/

/-- A run in which the worker has been told to park, or to stop, from `n` on. It is fair to the
worker, and in its steps, and in those that lead to its start, addresses are not reused too early,
commands are whole and no thread dies. -/
structure Resting (r : system.Run) (park : Bool) (n : Nat) : Prop where
  start : system.ReachableBy Faultless (r.state 0)
  steps : ∀ k, Faultless (r.state k) (r.label k)
  worker : r.Fair .worker
  told : ∀ k, n ≤ k → (r.state k).Told park

/-- `kthread_park` returns, and the worker leaves its loop for `kthread_stop`: wherever the
worker is when it is told, in a run with whole commands and without faults (`Resting`) it gets
there, and stays. -/
theorem worker_rests {r : system.Run} {n : Nat} (h : Resting r park n) :
    ∃ j, n ≤ j ∧ ∀ i, j ≤ i → (r.state i).AtRest park := by
  have hreach := r.reachableBy h.start h.steps
  have hrest : ∃ j, n ≤ j ∧ (r.state j).AtRest park := by
    refine r.eventually (fun s => s.AtRest park) (fun s => s.pc.toRest park) (fun _ => .worker)
      (fun _ _ => h.worker) (fun k hk => worker_enabled_of_told (hreach k) (h.told k hk)) ?_
      (Nat.le_refl n)
    intro k hk hgoal _
    by_cases hl : r.label k = .worker
    · have hC := h.steps k
      have hs := r.step k
      rw [hl] at hC hs
      exact Or.inl (toRest_worker (hreach k) hC hs (h.told k hk) hgoal)
    · have hpc := pc_other_of_told (hreach k).reachable (Step.of_step (r.step k)) hl (h.told k hk)
      exact Or.inr ⟨congrArg (WtPc.toRest park) hpc, rfl, hl⟩
  obtain ⟨j, hj, hgoal⟩ := hrest
  refine ⟨j, hj, fun i hi => ?_⟩
  exact r.keeps (P := fun s => s.AtRest park) hgoal
    (fun k hk hr => hr.step (h.told k (Nat.le_trans hj hk)) (r.step k)) hi

/-- Interrupts that are switched off change nothing. -/
theorem isr_off (hbug : s.bug = none) (hfree : s.slockFree = true) (hoff : s.intrEnable = false) :
    system.step s .isr = some s := by
  have hisr : s.dicedevIsr = some (.ok s) := by
    rw [dicedevIsr, if_pos hfree, hoff]
    rfl
  change (if s.bug = none then s.dicedevIsr.map s.orHalt else none) = some s
  rw [if_pos hbug, hisr]
  rfl

/-- The driver is suspended while a `GET_DIE` of eight bytes is still to be fed. -/
theorem worker_rests_suspend :
    ∃ r : system.Run, Resting r true 0 ∧ (r.state 0).pc = .running 8 ∧
      ∃ j, 0 ≤ j ∧ ∀ i, j ≤ i → (r.state i).AtRest true := by
  have hseen : seenBy Faultless (openOne ++ writeCall 0 0 8 oneDie ++ workerSteps 9 ++ [.suspend])
      (fun s => (s.pc,
        ((system.guarded fun s l => Faultless s l ∧ s.Told true).exec s (workerSteps 5)).any
          fun u => decide (u.pc = .parked ∧ u.bug = none ∧ u.intrEnable = false ∧ u.Told true))) =
      some (.running 8, true) := by
    decide +kernel
  obtain ⟨s, hr, hs⟩ := exists_seenBy hseen
  simp only [Prod.mk.injEq, decide_eq_true_eq, Option.any_eq_true] at hs
  obtain ⟨hpc, u, hu, hparked, hbug, hoff, htold⟩ := hs
  have hfree : u.slockFree = true := decide_eq_true (by rw [hparked]; decide)
  obtain ⟨r, rfl, hsteps, hend⟩ :=
    Machine.exists_run hu (isr_off hbug hfree hoff) ⟨⟨⟨trivial, trivial⟩, trivial⟩, htold⟩
  have hfair : r.Fair .worker := by
    refine hend.fair (Or.inr fun hen => hen ?_)
    exact (if_pos hbug).trans (by rw [State.handle, wtStep, hparked, htold.1]; rfl)
  have hrest : Resting r true 0 :=
    ⟨hr, fun k => (hsteps k).1, hfair, fun k _ => (hsteps k).2⟩
  exact ⟨r, hrest, hpc, worker_rests hrest⟩

end Dicedev
