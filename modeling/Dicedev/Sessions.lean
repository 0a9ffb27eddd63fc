import Dicedev.Account
import Dicedev.Slots

/-!
# Write sessions and the slots

A buffer that was bound for a write keeps its slot when the task is over; a RUN gives the
slot back. So a write can wait for a slot that only the release of a context gives back, and
the release waits for the write: `close_deadlock` is such a run, with 17 buffers.

`InSession` are the buffers that keep their slot over the tasks in front of a task. If there
are fewer of them than slots whenever a task is queued (`SessionsFit`), the worker always
gets its slot, whatever the contexts do: `worker_not_stuck`.
-/

namespace Dicedev

open State

/-- Over the unfinished ones of the first `n` tasks, the buffer `d` keeps a slot: it has one
and no RUN gives it back, or it gets one by a write. -/
def InSession (place : BufId → Option Slot) (sig : TaskId → TaskSig) (n : Nat) (d : BufId) :
    Prop :=
  (place d ≠ none ∧
      ∀ u < n, (sig u).freed = false → (sig u).buffOut = d → (sig u).cBuff = none) ∨
    ∃ u < n, (sig u).freed = false ∧ (sig u).buffOut = d ∧ (sig u).cBuff = none

instance (place : BufId → Option Slot) (sig : TaskId → TaskSig) (n : Nat) (d : BufId) :
    Decidable (InSession place sig n d) := by
  unfold InSession
  infer_instance

/-- A session of `d` that is there after a step was there before it. -/
theorem InSession.mono {place place' : BufId → Option Slot} {sig sig' : TaskId → TaskSig}
    {n : Nat} {d : BufId} (hplace : place d = none → place' d = none)
    (hsig : ∀ u < n, sig' u = { sig u with freed := (sig' u).freed })
    (hfreed : ∀ u < n, (sig' u).freed = false → (sig u).freed = false)
    (hrun : ∀ u < n, (sig u).freed = false → (sig' u).freed = true → (sig u).buffOut = d →
      (sig u).cBuff ≠ none → place' d = none)
    (h : InSession place' sig' n d) : InSession place sig n d := by
  rcases h with ⟨hbound, hwrites⟩ | ⟨u, hu, hlive, hout, hwrite⟩
  · refine Or.inl ⟨fun hnone => hbound (hplace hnone), ?_⟩
    intro u hu hlive hout
    by_contra hcb
    cases hf : (sig' u).freed with
    | true => exact hbound (hrun u hu hlive hf hout hcb)
    | false =>
      have hw := hwrites u hu hf (by rw [hsig u hu]; exact hout)
      rw [hsig u hu] at hw
      exact hcb hw
  · have hold := hfreed u hu hlive
    rw [hsig u hu] at hout hwrite
    exact Or.inr ⟨u, hu, hold, hout, hwrite⟩

variable {s s' : State} {l : Label}

/-- The buffers other than `b` that keep a slot over the first `n` tasks. -/
def State.others (s : State) (n : Nat) (b : BufId) : Finset BufId :=
  (Finset.range s.nBuf).filter fun d => d ≠ b ∧ InSession s.place s.sig n d

/-! ## What a step does to slots and tasks -/

/-- A step binds no buffer, or it is the one that binds the buffer of the prefetched task. -/
theorem place_step (hr : Reachable s) (hs : Step s l s') :
    (∀ d, s.place d = none → s'.place d = none) ∨
      ∃ t, s.pc = .event .taskBindSlot ∧ s.nextTask = some t ∧ s'.sig = s.sig ∧
        ∀ d, d ≠ (s.sig t).buffOut → s'.place d = s.place d := by
  rcases place_shape hr hs with hsame | ⟨d, -, hunbound⟩ | ⟨t, i, hbinds, rfl⟩
  · rw [hsame]
    exact Or.inl fun _ h => h
  · rw [hunbound]
    refine Or.inl fun e he => ?_
    by_cases hed : e = d
    · subst hed
      exact Function.update_self _ _ _
    · rw [Function.update_of_ne hed]
      exact he
  · refine Or.inr ⟨t, hbinds.pc_eq, hbinds.next, rfl, ?_⟩
    intro d hd
    rw [place_afterBind]
    exact Function.update_of_ne hd _ _

/-- A step frees no task, or it is the end of `__task_destroy` and frees its task. -/
theorem freed_step (hs : Step s l s') {t : TaskId} (ht : t < s.nTask) :
    (s'.sig t).freed = (s.sig t).freed ∨
      ∃ caller, s.pc = .account t caller ∧ s'.place = s.place := by
  rcases sig_step_cases hs ht with heq | ⟨caller, hpc, hplace, -⟩
  · exact Or.inl (congrArg TaskSig.freed heq)
  · exact Or.inr ⟨caller, hpc, hplace⟩

/-- A RUN that is about to be freed has given back its slot. -/
def RunUnbound (s : State) : Prop :=
  ∀ t caller, s.pc = .account t caller → (s.sig t).cBuff ≠ none → s.place (s.out t) = none

theorem account_step (hs : Step s l s') {t : TaskId} {caller : Caller}
    (hpc : s'.pc = .account t caller) :
    s.pc = .account t caller ∨
      (s.pc = .destroy t caller ∧
        ((s.tasks t).isRun = false ∨ s'.place (s.out t) = none)) := by
  cases hs with
  | openCtx | createSetRefused | createSet | runRefused | run | runCount | wait | waitLeave
  | waitReturn | releaseMark | releaseWait | releaseBuffer | releaseFree | writeRefused | write
  | writeFail | readNone | read | seed | dup | close | bufferRelease | store | isrOff | isr
  | fenceInterrupt | errorInterrupt | slotError | resume | halt => exact Or.inl hpc
  | runQueue | writeQueue | isrFence | suspend | remove => exact Or.inl (pc_of_woken hpc (by simp))
  | head =>
    change s.wtPoll = _ at hpc
    rcases wtPoll_cases s with h | h | h | h | ⟨h, -⟩ <;> rw [h] at hpc <;> cases hpc
  | shutdown =>
    change s.wtShutdown = _ at hpc
    rcases wtShutdown_cases s with h | h <;> rw [h] at hpc <;> cases hpc
  | polled | sleep | again | park | drop | getNext | bindSlot | taskRun | taskFinish | runDone
  | runSkip | runFeed | runReject | fence | finishing => cases hpc
  | account u c => cases c <;> cases hpc
  | destroyUnbind u c b hdestroy hout =>
    cases hpc
    refine Or.inr ⟨hdestroy, Or.inr ?_⟩
    have hplace := congrFun (place_unbound s b) (s.out t)
    rw [show s.out t = b from hout, Function.update_self] at hplace
    exact (congrArg _ hout).trans hplace
  | destroyKeep u c hdestroy hwrite =>
    cases hpc
    exact Or.inr ⟨hdestroy, Or.inl hwrite⟩

theorem RunUnbound.step (hr : Reachable s) (h : RunUnbound s) (hs : Step s l s') :
    RunUnbound s' := by
  intro t caller hpc' hcb
  rcases account_step hs hpc' with hpc | ⟨hpc, hwhy⟩
  · have ht := account_lt hr hpc
    rw [cBuff_step hs ht] at hcb
    rw [out_step hs ht]
    rcases place_step hr hs with hkeep | ⟨u, hbind, -⟩
    · exact hkeep _ (h t caller hpc hcb)
    · rw [hbind] at hpc
      cases hpc
  · have ht := held_lt hr (destroy_held hr (Or.inl hpc))
    rw [cBuff_step hs ht] at hcb
    rw [out_step hs ht]
    rcases hwhy with hwrite | hnone
    · rw [Task.isRun_eq, Option.isSome_eq_false_iff, Option.isNone_iff_eq_none] at hwrite
      exact absurd hwrite hcb
    · exact hnone

theorem runUnbound_reachable (h : Reachable s) : RunUnbound s :=
  Machine.Reachable.invariant_of (fun _ hr => hr) (fun t caller hpc => by cases hpc)
    (fun _ _ _ hr hI hs => hI.step hr (Step.of_step hs)) h

/-! ## Sessions only end -/

theorem live_of_account (hr : Reachable s) {t : TaskId} {caller : Caller}
    (hpc : s.pc = .account t caller) : (s.sig t).freed = false :=
  live_of_not_gone hr (account_lt hr hpc) (not_gone_of_held hr (account_held hr hpc))

/-- A task that is not freed after a step was not freed before it. -/
theorem live_step (hr : Reachable s) (hs : Step s l s') {t : TaskId} (ht : t < s.nTask)
    (hlive : (s'.sig t).freed = false) : (s.sig t).freed = false := by
  rcases freed_step hs ht with heq | ⟨caller, hpc, -⟩
  · exact heq.symm.trans hlive
  · exact live_of_account hr hpc

/-- A step that binds no buffer begins no session. -/
theorem InSession.of_keep (hr : Reachable s) (hs : Step s l s')
    (hkeep : ∀ d, s.place d = none → s'.place d = none) {n : Nat} (hn : n ≤ s.nTask) {d : BufId}
    (h : InSession s'.place s'.sig n d) : InSession s.place s.sig n d := by
  refine h.mono (hkeep d) ?_ ?_ ?_
  · exact fun u hu => sig_step hs (Nat.lt_of_lt_of_le hu hn)
  · exact fun u hu hlive => live_step hr hs (Nat.lt_of_lt_of_le hu hn) hlive
  · intro u hu hlive hfreed hout hcb
    rcases freed_step hs (Nat.lt_of_lt_of_le hu hn) with heq | ⟨caller, hpc, hplace⟩
    · rw [heq, hlive] at hfreed
      cases hfreed
    · rw [hplace, ← hout]
      exact runUnbound_reachable hr u caller hpc hcb

/-- Binding the buffer of the task `t` begins no session over the tasks behind it: there is
one already, or `t` is a RUN. -/
theorem InSession.of_bind {place place' : BufId → Option Slot} {sig : TaskId → TaskSig}
    {t n : Nat} (hplace : ∀ d, d ≠ (sig t).buffOut → place' d = place d)
    (hlive : (sig t).freed = false) (htn : t < n) {d : BufId} (h : InSession place' sig n d) :
    InSession place sig n d := by
  by_cases hd : d = (sig t).buffOut
  · subst hd
    rcases h with ⟨-, hwrites⟩ | h
    · exact Or.inr ⟨t, htn, hlive, rfl, hwrites t htn hlive rfl⟩
    · exact Or.inr h
  · rcases h with ⟨hbound, hwrites⟩ | h
    · rw [hplace d hd] at hbound
      exact Or.inl ⟨hbound, hwrites⟩
    · exact Or.inr h

/-- While the worker has a prefetched task and the device has none, there is no older task. -/
theorem next_le_live (hr : Reachable s) {t u : TaskId} (hnext : s.pipeline.next = some t)
    (hrun : s.pipeline.running = none) (hu : u < s.nTask) (hlive : (s.sig u).freed = false) :
    t ≤ u := by
  have hv := pipeline_reachable hr
  have hlast := hv.next_last t hnext
  by_contra hlt
  have hgone : u ∈ s.gone := by
    refine (hv.gone_iff u).mpr ⟨hlast ▸ Nat.lt_succ_of_lt (Nat.lt_of_not_le hlt), ?_⟩
    rintro (hu' | hu' | hu')
    · rw [hnext] at hu'
      cases hu'
      exact hlt (Nat.le_refl _)
    · rw [hrun] at hu'
      cases hu'
    · rcases hv.one_last with hnone | hnone
      · rw [hnone] at hnext
        cases hnext
      · rw [hnone] at hu'
        cases hu'
  rw [(freedGone_reachable hr u hu).mpr hgone] at hlive
  cases hlive

theorem inSession_lt (hr : Reachable s) {n : Nat} (hn : n ≤ s.nTask) {d : BufId}
    (h : InSession s.place s.sig n d) : d < s.nBuf := by
  have hscope := scope_reachable hr
  rcases h with ⟨hbound, -⟩ | ⟨u, hu, -, hout, -⟩
  · exact hscope.bound_lt hbound
  · rw [← hout]
    exact (Names.task_known hscope u (Nat.lt_of_lt_of_le hu hn)).2.1

theorem others_subset (hr : Reachable s) {n : Nat} (hn : n ≤ s.nTask) {b : BufId}
    (h : ∀ d, d ≠ b → InSession s'.place s'.sig n d → InSession s.place s.sig n d) :
    s'.others n b ⊆ s.others n b := by
  intro d hd
  obtain ⟨-, hdb, hin⟩ := Finset.mem_filter.mp hd
  have hold := h d hdb hin
  exact Finset.mem_filter.mpr ⟨Finset.mem_range.mpr (inSession_lt hr hn hold), hdb, hold⟩

/-! ## The invariant -/

/-- The buffer that a call will queue a task for. -/
def Call.target? : Call → Option BufId
  | .run _ _ db _ _ _ => some db
  | .write b _ _ => some b
  | .wait _ _ _ => none

/-- When a task is queued, fewer than 16 other buffers are in a session. -/
def SessionsFit (s : State) : Label → Prop
  | .runQueue k => ∀ b ∈ (s.calls k).bind Call.target?, (s.others s.nTask b).card < 16
  | .writeQueue k _ => ∀ b ∈ (s.calls k).bind Call.target?, (s.others s.nTask b).card < 16
  | _ => True

instance (s : State) (l : Label) : Decidable (SessionsFit s l) := by
  apply @Label.casesOn (fun l => Decidable (SessionsFit s l)) l <;> intros <;>
    unfold SessionsFit <;> infer_instance

/-- For every unfinished task, fewer than 16 other buffers keep a slot over the tasks in
front of it. -/
def Fitting (s : State) : Prop :=
  ∀ t, t < s.nTask → (s.sig t).freed = false → (s.others t (s.out t)).card < 16

/-- The tasks that were there before the step. -/
theorem Fitting.old (hr : Reachable s) (h : Fitting s) (hs : Step s l s') {t : TaskId}
    (ht : t < s.nTask) (hlive' : (s'.sig t).freed = false) :
    (s'.others t (s'.out t)).card < 16 := by
  have hlive := live_step hr hs ht hlive'
  rw [out_step hs ht]
  refine Nat.lt_of_le_of_lt (Finset.card_le_card ?_) (h t ht hlive)
  refine others_subset hr (Nat.le_of_lt ht) ?_
  intro d hd hin
  rcases place_step hr hs with hkeep | ⟨u, hpc, hnext, hsig, hplace⟩
  · exact hin.of_keep hr hs hkeep (Nat.le_of_lt ht)
  · rw [hsig] at hin
    have h2 := (ctl_reachable hr).agrees hpc
    have hrun : s.runningTask = none := (ctl_reachable hr).1.mpr h2.2
    have hpipe := pipeline_event hpc
    have hpn : s.pipeline.next = some u := by rw [hpipe]; exact hnext
    have hpr : s.pipeline.running = none := by rw [hpipe]; exact hrun
    have hule := next_le_live hr hpn hpr ht hlive
    rcases Nat.lt_or_eq_of_le hule with hut | rfl
    · have hulive := live_of_not_gone hr (next_lt hr hnext)
        (not_gone_of_held hr (next_held hr hnext))
      exact hin.of_bind hplace hulive hut
    · rcases hin with ⟨hbound, hwrites⟩ | hin
      · rw [hplace d hd] at hbound
        exact Or.inl ⟨hbound, hwrites⟩
      · exact Or.inr hin

/-- A step that adds a task ends a call. -/
theorem nTask_step (hs : Step s l s') :
    s'.nTask = s.nTask ∨
      ∃ k call task, s.calls k = some call ∧ call.target? = some (Task.sig task).buffOut ∧
        (l = .runQueue k ∨ ∃ cmd, l = .writeQueue k cmd) ∧ s' = s.queued k task := by
  cases hs with
  | runQueue k c cb db addr size hcall =>
    exact Or.inr ⟨k, _, _, hcall, rfl, Or.inl rfl, rfl⟩
  | writeQueue k cmd b c count hcall =>
    exact Or.inr ⟨k, _, _, hcall, rfl, Or.inr ⟨cmd, rfl⟩, rfl⟩
  | _ => exact Or.inl rfl

theorem Fitting.step (hr : Reachable s) (h : Fitting s) (hC : SessionsFit s l)
    (hs : Step s l s') : Fitting s' := by
  intro t ht hlive
  by_cases hold : t < s.nTask
  · exact h.old hr hs hold hlive
  · rcases nTask_step hs with hn | ⟨k, call, task, hcall, htarget, hl, rfl⟩
    · rw [hn] at ht
      exact absurd ht hold
    · have htn : t = s.nTask := Nat.le_antisymm (Nat.le_of_lt_succ ht) (Nat.le_of_not_lt hold)
      subst htn
      have hfit : (s.others s.nTask task.sig.buffOut).card < 16 := by
        rcases hl with rfl | ⟨cmd, rfl⟩
        · exact hC _ (by rw [hcall]; exact htarget)
        · exact hC _ (by rw [hcall]; exact htarget)
      have hout : (s.queued k task).out s.nTask = task.sig.buffOut := by
        simp only [State.out, State.sig, queued, Function.comp_apply, Function.update_self]
      rw [hout]
      refine Nat.lt_of_le_of_lt (Finset.card_le_card ?_) hfit
      refine others_subset hr (Nat.le_refl _) fun d _ hin => ?_
      exact hin.of_keep hr hs (fun _ hd => hd) (Nat.le_refl _)

theorem fitting_reachable (h : system.ReachableBy SessionsFit s) : Fitting s :=
  Machine.ReachableBy.invariant_of (fun _ hr => hr)
    (fun t ht => absurd ht (Nat.not_lt_zero t))
    (fun _ _ _ hr hI hC hs => hI.step hr hC (Step.of_step hs)) h

/-! ## The worker is not stuck -/

/-- Without a free slot and without older tasks, 16 buffers other than an unbound one are in
a session. -/
theorem others_card (h : Reachable s) (hfree : s.freeSlots = 0) {b : BufId}
    (hb : s.place b = none) {n : Nat} (hfreed : ∀ u < n, (s.sig u).freed = true) :
    16 ≤ (s.others n b).card := by
  obtain ⟨f, hinj, hplace⟩ := (slots_reachable h).1.agrees.full hfree
  -- the sixteen buffers in the slots, none of which has an unfinished RUN task
  have hsub : Finset.univ.image f ⊆ s.others n b := by
    intro d hd
    obtain ⟨i, -, rfl⟩ := Finset.mem_image.mp hd
    have hbound : s.place (f i) ≠ none := by
      rw [hplace i]
      simp
    have hlt := (scope_reachable h).bound_lt hbound
    refine Finset.mem_filter.mpr ⟨Finset.mem_range.mpr hlt, ?_, Or.inl ⟨hbound, ?_⟩⟩
    · rintro rfl
      exact hbound hb
    · intro u hu hlive
      rw [hfreed u hu] at hlive
      cases hlive
  have hcard := Finset.card_le_card hsub
  rw [Finset.card_image_of_injective _ hinj] at hcard
  exact hcard

/-- A positive counter with no call in between is the counter of a task. -/
theorem exists_task (h : Reachable s) {c : CtxId} (hpos : 0 < (s.ctxs c).taskCount)
    (hcalls : ∀ k call, s.calls k = some call → call.counts c = false) :
    ∃ t, t < s.nTask ∧ (s.sig t).freed = false := by
  by_contra hno
  have htasks : tasksOf s.sig s.nTask c = 0 := by
    refine Tally.tally_eq_zero fun t ht hlive => hno ⟨t, ht, ?_⟩
    simp only [TaskSig.liveIn, Bool.and_eq_true, Bool.not_eq_true'] at hlive
    exact hlive.1
  have hzero : callsOf s.calls s.nCall c = 0 := by
    refine Tally.tally_eq_zero fun k _ hk => ?_
    rw [Option.any_eq_true] at hk
    obtain ⟨call, hcall, hc⟩ := hk
    exact absurd (hc.symm.trans (hcalls k call hcall)) (by decide)
  have hacc : (s.ctxs c).taskCount = _ := accounts_reachable h c
  omega

theorem wtGetEventTask_of_noEvent (h : s.wtGetEvent = .noEvent) :
    s.fenceState ≠ .reached ∧ s.wtGetEventTask = .noEvent := by
  unfold wtGetEvent wtGetEventFence at h
  split at h
  · cases h
  · split at h
    · cases h
    · split at h
      · cases h
      · rename_i hfence
        exact ⟨hfence, h⟩

/-- An idle worker that does not wait for a fence has no task, or it has a task without a slot
and no slot is free. -/
theorem stuck_cases (h : Reachable s) (hev : s.wtGetEvent = .noEvent)
    (hfence : s.fenceState ≠ .waiting) :
    s.pipeline.running = none ∧
      (s.pipeline.next = none ∧ s.pendingTasks = [] ∨
        ∃ t, s.pipeline.next = some t ∧ s.place (s.out t) = none ∧ s.freeSlots = 0) := by
  obtain ⟨hreached, htask⟩ := wtGetEventTask_of_noEvent hev
  have hnone : s.fenceState = .none := by
    cases hf : s.fenceState with
    | none => rfl
    | waiting => exact absurd hf hfence
    | reached => exact absurd hf hreached
  have hctl := ctl_reachable h
  have hrun : s.runningTask = none := hctl.1.mpr hnone
  -- `next_task` is a task that is being run only while there is a running task
  have hwait : s.pipeline.next = s.nextTask := by
    change s.pc.waitingTask s.nextTask = s.nextTask
    unfold WtPc.waitingTask
    split
    · rename_i left hpc
      have h2 := hctl.agrees hpc
      exact absurd hrun h2.1
    · rfl
  refine ⟨?_, ?_⟩
  · change s.pc.deviceTask s.runningTask = none
    rw [hrun]
    cases s.pc <;> rfl
  · rw [hwait]
    unfold wtGetEventTask at htask
    split at htask
    · rename_i hnext
      refine Or.inl ⟨hnext, ?_⟩
      by_contra hpend
      rw [if_pos hpend] at htask
      cases htask
    · rename_i t hnext
      rw [if_neg (by simp [hnone])] at htask
      split at htask
      · rename_i hplace
        refine Or.inr ⟨t, hnext, hplace, ?_⟩
        by_contra hfree
        rw [if_pos (Nat.pos_of_ne_zero hfree)] at htask
        cases htask
      · cases htask

/-- Without any task in its hands or in the queue the worker has destroyed them all. -/
theorem freed_of_empty (h : Reachable s) (hrun : s.pipeline.running = none)
    (hnext : s.pipeline.next = none) (hdrop : s.pc.droppedTask = none)
    (hpend : s.pendingTasks = []) {t : TaskId} (ht : t < s.nTask) : (s.sig t).freed = true := by
  have hv := pipeline_reachable h
  have hadd := hv.fetched_add
  rw [show s.pipeline.waiting = [] from hpend, List.length_nil, Nat.add_zero] at hadd
  refine (freedGone_reachable h t ht).mpr ((hv.gone_iff t).mpr ⟨hadd.symm ▸ ht, ?_⟩)
  rintro (hu | hu | hu)
  · rw [hnext] at hu
    cases hu
  · rw [hrun] at hu
    cases hu
  · rw [show s.pipeline.dropping = none from hdrop] at hu
    cases hu

/-- While fewer than 16 other buffers are in a session whenever a task is queued: if a counter
is positive, no call is between raising it and queueing its task, and the worker is not in
the middle of dropping a task, then the worker has something to do or waits for a fence. -/
theorem worker_not_stuck (h : system.ReachableBy SessionsFit s) {c : CtxId}
    (hpos : 0 < (s.ctxs c).taskCount)
    (hcalls : ∀ k call, s.calls k = some call → call.counts c = false)
    (hpc : s.pc.droppedTask = none) :
    s.wtGetEvent ≠ .noEvent ∨ s.fenceState = .waiting := by
  have hr := h.reachable
  by_contra hstuck
  rw [not_or, not_not] at hstuck
  obtain ⟨t, ht, hlive⟩ := exists_task hr hpos hcalls
  obtain ⟨hrun, hcases⟩ := stuck_cases hr hstuck.1 hstuck.2
  rcases hcases with ⟨hnext, hpend⟩ | ⟨u, hnext, hplace, hfree⟩
  · rw [freed_of_empty hr hrun hnext hpc hpend ht] at hlive
    cases hlive
  · have hheld : s.pipeline.Held u := Or.inl hnext
    have hu := held_lt hr hheld
    have hulive := live_of_not_gone hr hu (not_gone_of_held hr hheld)
    have hfit := fitting_reachable h u hu hulive
    have hcard : 16 ≤ (s.others u (s.out u)).card := by
      refine others_card hr hfree hplace fun v hv => ?_
      by_contra hvlive
      rw [Bool.not_eq_true] at hvlive
      have hle := next_le_live hr hnext hrun (Nat.lt_trans hv hu) hvlive
      exact absurd hv (Nat.not_lt.mpr hle)
    exact absurd hfit (Nat.not_lt.mpr hcard)

/-- A buffer of the only context keeps its slot, the write to a second one is queued, and the
context is released. -/
def releaseQueued : List Label :=
  fillSlots 1 ++ [.createSet 0 4096 0x20 0x2000] ++ writeCall 1 1 0 (fun _ => 0) ++
    [.releaseMark 0]

theorem worker_not_stuck_releaseQueued :
    ∃ s, system.ReachableBy SessionsFit s ∧ s.nCtx = 1 ∧ (s.ctxs 0).phase = .waiting ∧
      0 < (s.ctxs 0).taskCount ∧ (s.wtGetEvent ≠ .noEvent ∨ s.fenceState = .waiting) := by
  have hseen : seenBy SessionsFit releaseQueued (fun s => ((s.nCtx, s.nCall),
      (s.calls 0, s.calls 1), (s.ctxs 0).phase, (s.ctxs 0).taskCount, s.pc)) =
      some ((1, 2), (none, none), .waiting, 1, .head) := by
    decide +kernel
  obtain ⟨s, hr, hf⟩ := exists_seenBy hseen
  simp only [Prod.mk.injEq] at hf
  obtain ⟨⟨hctx, hcall⟩, ⟨hc0, hc1⟩, hphase, hcount, hpc⟩ := hf
  have hpos : 0 < (s.ctxs 0).taskCount := by omega
  refine ⟨s, hr, hctx, hphase, hpos, worker_not_stuck hr hpos ?_ ?_⟩
  · intro k call hk
    have hlt := Names.call_lt (scope_reachable hr.reachable) hk
    rw [hcall] at hlt
    have hcases : ∀ j, j < 2 → s.calls j = none
      | 0, _ => hc0
      | 1, _ => hc1
    rw [hcases k hlt] at hk
    cases hk
  · rw [hpc]
    rfl

/-- 16 buffers of the only context keep their slots, the write to a seventeenth one waits for
a slot, and the context is released. -/
def releaseFull : List Label :=
  fillSlots 16 ++ [.createSet 0 4096 0x20 0x2000] ++ writeCall 16 16 0 (fun _ => 0) ++
    workerSteps 6 ++ [.releaseMark 0]

set_option maxRecDepth 20000 in
/-- The release waits for the task, and the worker sleeps until there is a slot. -/
theorem close_deadlock :
    ∃ s, system.exec probed releaseFull = some s ∧ s.nCtx = 1 ∧ (s.ctxs 0).phase = .waiting ∧
      (s.ctxs 0).taskCount = 1 ∧ s.pc = .asleep ∧ s.wtGetEvent = .noEvent ∧
      s.fenceState = .none ∧ s.nextTask = some 16 ∧ s.freeSlots = 0 := by
  have hseen : seenAfter releaseFull (fun s => ((s.nCtx, (s.ctxs 0).phase, (s.ctxs 0).taskCount),
      (s.nextTask, s.freeSlots), s.pc, s.wtGetEvent, s.fenceState)) =
      some ((1, .waiting, 1), (some 16, 0), .asleep, .noEvent, .none) := by
    decide +kernel
  obtain ⟨s, hs, -, hf⟩ := exists_seenAfter hseen
  simp only [Prod.mk.injEq] at hf
  obtain ⟨⟨hctx, hphase, hcount⟩, ⟨hnext, hfree⟩, hpc, hev, hfence⟩ := hf
  exact ⟨s, hs, hctx, hphase, hcount, hpc, hev, hfence, hnext, hfree⟩

end Dicedev
