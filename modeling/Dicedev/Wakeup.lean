import Dicedev.Scope

/-!
# Sleeping and waking

The worker sleeps when `__wt_get_event` has nothing for it. Queueing a task, the interrupt of
a fence and the requests to park and to stop wake it. What is not announced is a slot that
gets free: neither `dicedev_release` nor `dicedev_buffer_destroy` wakes the worker after
`unbind_slot`, and a worker that sleeps for want of a slot sleeps on (`asleep_slot_freed`).
Apart from that a sleeping worker has nothing to do: `asleep_no_event`.
-/

namespace Dicedev

open State

variable {s s' : State} {l : Label}

/-! ## What `__wt_get_event` depends on -/

/-- The part of the state that `__wt_get_event` reads first. -/
def State.flags (s : State) : Bool × Bool × FenceState × Option TaskId × List TaskId :=
  (s.shouldStop, s.shouldPark, s.fenceState, s.nextTask, s.pendingTasks)

theorem wtGetEventFence_congr (h : s'.flags = s.flags) :
    s'.wtGetEventFence = s.wtGetEventFence := by
  simp only [State.flags, Prod.mk.injEq] at h
  obtain ⟨hstop, hpark, hfence, -, -⟩ := h
  unfold wtGetEventFence
  rw [hstop, hpark, hfence]

/-- Nothing changes while the slots stay as they are. -/
theorem wtGetEvent_congr (h : s'.flags = s.flags) (hfree : s'.freeSlots = s.freeSlots)
    (hslot : s'.place = s.place) (htasks : s'.tasks = s.tasks) :
    s'.wtGetEvent = s.wtGetEvent := by
  have hfirst := wtGetEventFence_congr h
  simp only [State.flags, Prod.mk.injEq] at h
  obtain ⟨-, -, hfence, hnext, hpend⟩ := h
  have hbound : ∀ b, (s'.bufs b).bindedSlot = (s.bufs b).bindedSlot := congrFun hslot
  unfold wtGetEvent wtGetEventTask
  rw [hfirst, hfence, hnext, hpend, hfree, htasks]
  simp only [hbound]

/-- Slots do not matter while there is no prefetched task or one is on the device. -/
theorem wtGetEvent_of_busy (h : s'.flags = s.flags)
    (hbusy : s.nextTask = none ∨ s.fenceState ≠ .none) : s'.wtGetEvent = s.wtGetEvent := by
  have hfirst := wtGetEventFence_congr h
  simp only [State.flags, Prod.mk.injEq] at h
  obtain ⟨-, -, hfence, hnext, hpend⟩ := h
  unfold wtGetEvent wtGetEventTask
  rw [hfirst, hfence, hnext, hpend]
  rcases hbusy with hnone | hwait
  · rw [hnone]
  · cases s.nextTask with
    | none => rfl
    | some t => simp only [hwait, ne_eq, not_false_eq_true, if_true]

theorem shouldPark_of_noEvent (h : s.wtGetEvent = .noEvent) : s.shouldPark = false := by
  cases hpark : s.shouldPark with
  | false => rfl
  | true =>
    unfold wtGetEvent wtGetEventFence at h
    rw [hpark] at h
    cases hstop : s.shouldStop <;> rw [hstop] at h <;> cases h

theorem wtPoll_ne_asleep (s : State) : s.wtPoll ≠ .asleep := by
  rcases wtPoll_cases s with h | h | h | h | ⟨h, -⟩ <;> rw [h] <;> simp

theorem wtShutdown_ne_asleep (s : State) : s.wtShutdown ≠ .asleep := by
  rcases wtShutdown_cases s with h | h <;> rw [h] <;> simp

theorem wokenPc_ne_asleep (s : State) : s.wokenPc ≠ .asleep := by
  intro h
  have hpc := pc_of_woken h (by simp)
  rw [wokenPc, if_pos hpc] at h
  cases h

/-! ## The sleeping worker -/

/-- The worker sleeps until a slot is free. -/
def State.WaitsForSlot (s : State) : Prop :=
  s.pc = .asleep ∧ s.nextTask ≠ none ∧ s.fenceState = .none

instance (s : State) : Decidable s.WaitsForSlot := by
  unfold State.WaitsForSlot
  infer_instance

/-- No bound buffer is released while the worker sleeps until a slot is free. -/
def SlotsAnnounced (s : State) : Label → Prop
  | .releaseBuffer c =>
    ∀ b ∈ (s.ctxs c).allocatedBuffers.head?, (s.bufs b).bindedSlot ≠ none → ¬ s.WaitsForSlot
  | .bufferRelease b => (s.bufs b).bindedSlot ≠ none → ¬ s.WaitsForSlot
  | _ => True

instance (s : State) (l : Label) : Decidable (SlotsAnnounced s l) := by
  apply @Label.casesOn (fun l => Decidable (SlotsAnnounced s l)) l <;> intros <;>
    unfold SlotsAnnounced <;> infer_instance

/-- The worker sleeps only while there is nothing to do. -/
def SleepsIdle (s : State) : Prop := s.pc = .asleep → s.wtGetEvent = .noEvent

theorem SleepsIdle.of_flags (h : SleepsIdle s) (hpc : s'.pc = s.pc) (hflags : s'.flags = s.flags)
    (hfree : s'.freeSlots = s.freeSlots) (hslot : s'.place = s.place)
    (htasks : s'.tasks = s.tasks) : SleepsIdle s' := by
  intro hp
  rw [wtGetEvent_congr hflags hfree hslot htasks]
  exact h (hpc.symm.trans hp)

/-- A buffer is unbound by another thread than the worker. -/
theorem SleepsIdle.unbound (h : SleepsIdle s) {b : BufId} (hpc : s'.pc = s.pc)
    (hflags : s'.flags = s.flags) (hfree : s'.freeSlots = (s.unbound b).freeSlots)
    (hslot : s'.place = (s.unbound b).place) (htasks : s'.tasks = s.tasks)
    (hC : (s.bufs b).bindedSlot ≠ none → ¬ s.WaitsForSlot) : SleepsIdle s' := by
  by_cases hb : (s.bufs b).bindedSlot = none
  · rw [unbound_of_none hb] at hfree hslot
    exact h.of_flags hpc hflags hfree hslot htasks
  · intro hp
    have hasleep : s.pc = .asleep := hpc.symm.trans hp
    have hbusy : s.nextTask = none ∨ s.fenceState ≠ .none := by
      by_contra hno
      rw [not_or, not_not] at hno
      exact hC hb ⟨hasleep, hno⟩
    rw [wtGetEvent_of_busy hflags hbusy]
    exact h hasleep

theorem SleepsIdle.step (hr : Reachable s) (h : SleepsIdle s) (hC : SlotsAnnounced s l)
    (hs : Step s l s') : SleepsIdle s' := by
  cases hs with
  | openCtx | createSetRefused | runCount | wait | waitLeave | waitReturn | releaseWait
  | releaseFree | writeRefused | write | writeFail | readNone | isrOff | isr | fenceInterrupt
  | errorInterrupt | slotError | halt => exact h
  | createSet =>
    refine h.of_flags rfl rfl rfl (comp_update_of_eq ?_) rfl
    exact (congrArg BufSig.bindedSlot
      (Names.buf_fresh (scope_reachable hr) s.nBuf (Nat.le_refl _))).symm
  | runRefused c cb db addr size shared alloc leak =>
    exact h.of_flags rfl rfl rfl (place_leakBufs s cb db leak) rfl
  | run c cb db addr size shared =>
    exact h.of_flags rfl rfl rfl (place_leakBufs s cb db shared) rfl
  | releaseMark => exact h.of_flags rfl rfl rfl (place_mark s _) rfl
  | read | seed | dup | close | store =>
    exact h.of_flags rfl rfl rfl (comp_update_of_eq rfl) rfl
  | releaseBuffer c b rest hclosing hlist =>
    refine h.unbound rfl rfl rfl (comp_update_of_eq rfl) rfl (hC b ?_)
    rw [hlist]
    rfl
  | bufferRelease b => exact h.unbound rfl rfl rfl (comp_update_of_eq rfl) rfl hC
  | runQueue | writeQueue | isrFence | suspend | remove =>
    exact fun hp => absurd hp (wokenPc_ne_asleep s)
  | resume =>
    intro hp
    have hpark := shouldPark_of_noEvent (h hp)
    have hflags : { s with shouldPark := false, intrEnable := true }.flags = s.flags := by
      simp only [State.flags, hpark]
    exact (wtGetEvent_congr hflags rfl rfl rfl).trans (h hp)
  | head => exact fun hp => absurd hp (wtPoll_ne_asleep s)
  | shutdown => exact fun hp => absurd hp (wtShutdown_ne_asleep s)
  | sleep hpc hev => exact fun _ => hev
  | account t caller => exact fun hp => by cases caller <;> cases hp
  | polled | again | park | drop | getNext | bindSlot | taskRun | taskFinish | runDone | runSkip
  | runFeed | runReject | fence | destroyUnbind | destroyKeep | finishing =>
    exact fun hp => by cases hp

/-- A sleeping worker has nothing to do, as long as no slot gets free behind its back. -/
theorem asleep_no_event (h : system.ReachableBy SlotsAnnounced s) (hasleep : s.pc = .asleep) :
    s.wtGetEvent = .noEvent := by
  have hI : SleepsIdle s :=
    Machine.ReachableBy.invariant_of (fun _ hr => hr) (fun hp => by cases hp)
      (fun _ _ _ hr hI hC hs => hI.step hr hC (Step.of_step hs)) h
  exact hI hasleep

/-- Two tasks are queued. The worker has prefetched the second one and sleeps until the fence
of the first one. -/
def sleepOnFence : List Label :=
  openOne ++ writeCall 0 0 0 (fun _ => 0) ++ startEmpty ++ writeCall 0 1 0 (fun _ => 0) ++
    workerSteps 6

theorem asleep_no_event_sleepOnFence :
    ∃ s, system.ReachableBy SlotsAnnounced s ∧ s.pc = .asleep ∧ s.nextTask = some 1 ∧
      s.wtGetEvent = .noEvent := by
  have hseen : seenBy SlotsAnnounced sleepOnFence (fun s => (s.pc, s.nextTask)) =
      some (.asleep, some 1) := by
    decide
  obtain ⟨s, hr, hf⟩ := exists_seenBy hseen
  simp only [Prod.mk.injEq] at hf
  exact ⟨s, hr, hf.1, hf.2, asleep_no_event hr hf.1⟩

/-- The buffers of the first context have all the slots. The worker sleeps with a task of a
second context, and the first one is released. -/
def slotFreed : List Label :=
  fillSlots 16 ++ [.openCtx 8, .createSet 1 4096 0x20 0x1000] ++ writeCall 16 16 0 (fun _ => 0) ++
    workerSteps 6 ++ [.releaseMark 0, .releaseWait 0, .releaseBuffer 0]

set_option maxRecDepth 20000 in
/-- There is a slot for the task, and the worker sleeps on. -/
theorem asleep_slot_freed :
    ∃ s, system.exec probed slotFreed = some s ∧ s.pc = .asleep ∧
      s.wtGetEvent = .taskBindSlot := by
  have hseen : seenAfter slotFreed (fun s => (s.pc, s.wtGetEvent)) =
      some (.asleep, .taskBindSlot) := by
    decide +kernel
  obtain ⟨s, hs, -, hf⟩ := exists_seenAfter hseen
  simp only [Prod.mk.injEq] at hf
  exact ⟨s, hs, hf⟩

end Dicedev
