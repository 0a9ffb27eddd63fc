import Dicedev.Liveness
import Dicedev.Wait

/-!
# Contexts that come to rest

`task_count` of a context counts the tasks that are queued and not destroyed, and the calls that
are about to queue one (`accounts_reachable`). Once no call raises it any more, the calls that
are under way return and the tasks in the queue come to their end, it goes down to zero and
stays there: `count_eventually_zero`. Then nobody has to wait in the context. WAIT calls return
and reads do not block: `waits_end`.
-/

namespace Dicedev

open State

variable {s s' : State} {l : Label} {c : CtxId}

/-! ## Without calls and tasks the counter is zero -/

/-- The call `k` is not going to queue a task of `c`. -/
def State.Settled (s : State) (c : CtxId) (k : CallId) : Prop :=
  ∀ call, s.calls k = some call → call.counts c = false

/-- The task `t` does not belong to `c`, or is destroyed. -/
def State.Finished (s : State) (c : CtxId) (t : TaskId) : Prop :=
  t < s.nTask → (s.sig t).ctx = c → t ∈ s.gone

/-- A new task is in the counter of its context already. -/
theorem counts_of_new (hs : Step s l s') {t : TaskId} (hge : s.nTask ≤ t) (hlt : t < s'.nTask) :
    ∃ k call, s.calls k = some call ∧ call.counts (s'.sig t).ctx = true := by
  have hself : ∀ {k : CallId} {task : Task}, s' = s.queued k task → s'.sig t = task.sig := by
    rintro k task rfl
    have ht : t = s.nTask := Nat.le_antisymm (Nat.le_of_lt_succ hlt) hge
    subst ht
    exact congrArg Task.sig (Function.update_self ..)
  cases hs with
  | runQueue k c cb db addr size hcall =>
    refine ⟨k, _, hcall, ?_⟩
    rw [hself rfl]
    exact beq_self_eq_true c
  | writeQueue k cmd b c count hcall =>
    refine ⟨k, _, hcall, ?_⟩
    rw [hself rfl]
    exact beq_self_eq_true c
  | _ => exact absurd hlt (Nat.not_lt.mpr hge)

theorem State.Finished.step (hset : ∀ k, s.Settled c k) (hs : Step s l s') {t : TaskId}
    (h : s.Finished c t) : s'.Finished c t := by
  intro ht hctx
  by_cases hold : t < s.nTask
  · rw [ctx_step hs hold] at hctx
    exact mem_filterMap_step hs (h hold hctx)
  · obtain ⟨k, call, hcall, hcounts⟩ := counts_of_new hs (Nat.le_of_not_lt hold) ht
    rw [hctx, hset k call hcall] at hcounts
    cases hcounts

/-- Without tasks and calls the counter is zero. -/
theorem count_eq_zero (hr : Reachable s) (hset : ∀ k, s.Settled c k) (hfin : ∀ t, s.Finished c t) :
    (s.ctxs c).taskCount = 0 := by
  have hacc : (s.ctxs c).taskCount = _ := accounts_reachable hr c
  have htasks : tasksOf s.sig s.nTask c = 0 := by
    refine Tally.tally_eq_zero fun t ht hlive => ?_
    simp only [TaskSig.liveIn, Bool.and_eq_true, Bool.not_eq_true', beq_iff_eq] at hlive
    have hfreed := (freedGone_reachable hr t ht).mpr (hfin t ht hlive.2)
    cases hfreed.symm.trans hlive.1
  have hcalls : callsOf s.calls s.nCall c = 0 := by
    refine Tally.tally_eq_zero fun k _ hk => ?_
    rw [Option.any_eq_true] at hk
    obtain ⟨call, hcall, hcounts⟩ := hk
    cases hcounts.symm.trans (hset k call hcall)
  omega

/-! ## Whole runs -/

/-- From `n` on no call begins to count for `c`, and those that count then come to their end. -/
structure Quiescent (r : system.Run) (c : CtxId) (n : Nat) : Prop where
  quiet : ∀ i, n ≤ i → ∀ k, (r.state i).Settled c k → (r.state (i + 1)).Settled c k
  returns : ∀ k, ¬ (r.state n).Settled c k → ∃ j, n ≤ j ∧ (r.state j).calls k = none

section

variable {r : system.Run} (h : Served r) {n : Nat} (hq : Quiescent r c n)

include hq

theorem settled_after {k : CallId} {m j : Nat} (hm : n ≤ m) (hset : (r.state m).Settled c k)
    (hj : m ≤ j) : (r.state j).Settled c k :=
  r.keeps (P := fun s => s.Settled c k) hset
    (fun i hi hk => hq.quiet i (Nat.le_trans hm hi) k hk) hj

include h

/-- The calls come to their end. -/
theorem settled_eventually : ∃ j, n ≤ j ∧ ∀ k, (r.state j).Settled c k := by
  have hev : ∀ k < (r.state n).nCall, ∃ j, n ≤ j ∧ (r.state j).Settled c k := by
    intro k _
    by_cases hset : (r.state n).Settled c k
    · exact ⟨n, Nat.le_refl n, hset⟩
    · obtain ⟨j, hj, hnone⟩ := hq.returns k hset
      exact ⟨j, hj, fun call hcall => by cases hnone.symm.trans hcall⟩
  obtain ⟨j, hj, hall⟩ := r.eventually_all (fun k s => s.Settled c k) hev
    (fun k i hi hk => settled_after hq hi hk (Nat.le_succ i))
  refine ⟨j, hj, fun k => ?_⟩
  by_cases hk : k < (r.state n).nCall
  · exact hall k hk
  · refine settled_after hq (Nat.le_refl n) (fun call hcall => ?_) hj
    exact absurd (Names.call_lt (scope_reachable (h.reachable n).reachable) hcall) hk

/-- The tasks come to their end, and no new ones are queued. -/
theorem count_eventually_zero :
    ∃ j, n ≤ j ∧ ∀ i, j ≤ i → ((r.state i).ctxs c).taskCount = 0 := by
  obtain ⟨m, hm, hset⟩ := settled_eventually h hq
  have hset' : ∀ i, m ≤ i → ∀ k, (r.state i).Settled c k := fun i hi k =>
    settled_after hq hm (hset k) hi
  have hfin' : ∀ {t i j : Nat}, m ≤ i → (r.state i).Finished c t → i ≤ j →
      (r.state j).Finished c t := by
    intro t i j hi hfin hj
    exact r.keeps (P := fun s => s.Finished c t) hfin
      (fun k hk hold => hold.step (hset' k (Nat.le_trans hi hk)) (Step.of_step (r.step k))) hj
  have hev : ∀ t < (r.state m).nTask, ∃ j, m ≤ j ∧ (r.state j).Finished c t := by
    intro t ht
    obtain ⟨j, hj, hgone⟩ := gone_eventually h ht
    exact ⟨j, hj, fun _ _ => hgone⟩
  obtain ⟨j, hj, hall⟩ := r.eventually_all (fun t s => s.Finished c t) hev
    (fun t i hi hfin => hfin' hi hfin (Nat.le_succ i))
  refine ⟨j, Nat.le_trans hm hj, fun i hi => ?_⟩
  have hmi := Nat.le_trans hj hi
  refine count_eq_zero (h.reachable i).reachable (hset' i hmi) fun t => ?_
  by_cases ht : t < (r.state m).nTask
  · exact hfin' hj (hall t ht) hi
  · exact hfin' (Nat.le_refl m) (fun hlt => absurd hlt ht) hmi

end

/-! ## The waits in a context at rest -/

/-- How far a WAIT call is from its end. -/
def State.waitLeft (s : State) (k : CallId) : Nat :=
  match s.calls k with
  | none => 0
  | some (.wait _ _ false) => 2
  | some _ => 1

/-- The next step of a WAIT call. -/
def State.waitLabel (s : State) (k : CallId) : Label :=
  if s.waitLeft k = 2 then .waitLeave k else .waitReturn k

theorem waitLabel_enabled (hbug : s.bug = none) (hzero : (s.ctxs c).taskCount = 0) {k : CallId}
    {cnt : Nat} {left : Bool} (hcall : s.calls k = some (.wait c cnt left)) :
    system.Enabled s (s.waitLabel k) := by
  refine enabled_of_handle hbug ?_
  cases left with
  | false =>
    have hleave : s.waitLabel k = .waitLeave k := by simp [State.waitLabel, State.waitLeft, hcall]
    rw [hleave]
    simp [State.handle, ioctlWaitLeave, hcall, hzero]
  | true =>
    have hreturn : s.waitLabel k = .waitReturn k := by
      simp [State.waitLabel, State.waitLeft, hcall]
    rw [hreturn]
    simp [State.handle, ioctlWaitReturn, hcall]

/-- The step of its own takes a WAIT call on. -/
theorem waitLabel_step {k : CallId} {cnt : Nat} {left : Bool} (hs : Step s (s.waitLabel k) s')
    (hcall : s.calls k = some (.wait c cnt left)) : s'.calls k ≠ s.calls k := by
  intro hsame
  have hlabel : s.waitLabel k = if left then .waitReturn k else .waitLeave k := by
    cases left <;> simp [State.waitLabel, State.waitLeft, hcall]
  rw [hlabel] at hs
  rw [hcall] at hsame
  cases left with
  | false =>
    cases hs with
    | waitLeave _ d m hj =>
      have hself : Function.update s.calls k (some (.wait d m true)) k = _ := hsame
      rw [Function.update_self] at hself
      cases hself
    | halt _ b hl => rcases hl with hl | hl <;> cases hl
  | true =>
    cases hs with
    | waitReturn _ d m hj =>
      have hself : Function.update s.calls k none k = _ := hsame
      rw [Function.update_self] at hself
      cases hself
    | halt _ b hl => rcases hl with hl | hl <;> cases hl

/-- A WAIT call that has not returned waits on, or comes nearer to its end. -/
theorem waitLeft_step {k : CallId} {cnt : Nat} {left : Bool} (hs : Step s l s') (hk : k < s.nCall)
    (hcall : s.calls k = some (.wait c cnt left)) :
    s'.waitLeft k < s.waitLeft k ∨
      s'.waitLeft k = s.waitLeft k ∧ s'.waitLabel k = s.waitLabel k ∧ l ≠ s.waitLabel k := by
  rcases wait_step hs hk (Or.inr ⟨left, hcall⟩) with hsame | hnone | ⟨hfalse, htrue, -⟩
  · have hleft : s'.waitLeft k = s.waitLeft k := by rw [State.waitLeft, State.waitLeft, hsame]
    refine Or.inr ⟨hleft, by rw [State.waitLabel, State.waitLabel, hleft], ?_⟩
    rintro rfl
    exact waitLabel_step hs hcall hsame
  · left
    cases left <;> simp [State.waitLeft, hnone, hcall]
  · left
    simp [State.waitLeft, hfalse, htrue]

/-- The call `k` is a WAIT call of `c`, or over. -/
def State.Waits (s : State) (c : CtxId) (k : CallId) (cnt : Nat) : Prop :=
  k < s.nCall ∧ (s.calls k = none ∨ ∃ left, s.calls k = some (.wait c cnt left))

theorem State.Waits.step {k : CallId} {cnt : Nat} (h : s.Waits c k cnt) (hs : Step s l s') :
    s'.Waits c k cnt := by
  refine ⟨Nat.lt_of_lt_of_le h.1 (nCall_le_step hs), ?_⟩
  rcases wait_step hs h.1 h.2 with hsame | hnone | ⟨-, htrue, -⟩
  · rw [hsame]
    exact h.2
  · exact Or.inl hnone
  · exact Or.inr ⟨true, htrue⟩

theorem read_enabled (h : system.ReachableBy Serviceable s) (hservice : InService s) {b : BufId}
    (hzero : (s.ctxs (s.bufs b).ctx).taskCount = 0) (hfd : 0 < (s.bufs b).fdRefs) :
    system.Enabled s (.read b) := by
  have hfree : s.slockFree = true :=
    decide_eq_true fun hp => not_left h hservice (Or.inr (Or.inl hp))
  have hblock : ¬ (readsAvailable (s.bufs b).reader = 0 ∧ (s.bufs b).destroyed = false ∧
      0 < (s.ctxs (s.bufs b).ctx).taskCount) := by
    rintro ⟨-, -, hpos⟩
    rw [hzero] at hpos
    exact Nat.lt_irrefl 0 hpos
  refine enabled_of_handle (bug_of_serviceable h) ?_
  rw [State.handle, dicedevBufferRead, if_pos ⟨hfree, hfd, hblock⟩]
  split <;> exact Option.some_ne_none _

/-- A WAIT call returns once the counter stays at zero. -/
theorem wait_returns {r : system.Run} (h : Served r) {m : Nat}
    (hzero : ∀ i, m ≤ i → ((r.state i).ctxs c).taskCount = 0) {k : CallId} {cnt : Nat}
    (hwaits : (r.state m).Waits c k cnt) (hleave : r.Fair (.waitLeave k))
    (hreturn : r.Fair (.waitReturn k)) : ∃ j, m ≤ j ∧ (r.state j).calls k = none := by
  have hcall : ∀ i, m ≤ i → (r.state i).Waits c k cnt := fun i hi =>
    r.keeps (P := fun s => s.Waits c k cnt) hwaits
      (fun i _ hi => hi.step (Step.of_step (r.step i))) hi
  have hwait : ∀ i, m ≤ i → ¬ (r.state i).calls k = none →
      ∃ left, (r.state i).calls k = some (.wait c cnt left) :=
    fun i hi hne => (hcall i hi).2.resolve_left hne
  refine r.eventually (fun s => s.calls k = none) (fun s => s.waitLeft k)
    (fun s => s.waitLabel k) (fun i _ => ?_) (fun i hi hne => ?_) (fun i hi hne _ => ?_)
    (Nat.le_refl m)
  · dsimp only [State.waitLabel]
    split
    · exact hleave
    · exact hreturn
  · obtain ⟨left, hw⟩ := hwait i hi hne
    exact waitLabel_enabled (bug_of_serviceable (h.reachable i)) (hzero i hi) hw
  · obtain ⟨left, hw⟩ := hwait i hi hne
    exact waitLeft_step (Step.of_step (r.step i)) (hcall i hi).1 hw

/-- In a run of a driver in service (`Served`) nobody waits for ever in a context that has come to
rest (`Quiescent`). Its counter goes down to zero, from then on a read of one of its buffers does
not block, and the WAIT calls to whose steps the run is fair return. -/
theorem waits_end {r : system.Run} (h : Served r) {n : Nat} (hq : Quiescent r c n) :
    (∃ j, n ≤ j ∧ ∀ i, j ≤ i → ((r.state i).ctxs c).taskCount = 0 ∧
      ∀ b, ((r.state i).bufs b).ctx = c → 0 < ((r.state i).bufs b).fdRefs →
        system.Enabled (r.state i) (.read b)) ∧
    ∀ k cnt, (r.state n).Waits c k cnt → r.Fair (.waitLeave k) → r.Fair (.waitReturn k) →
      ∃ j, n ≤ j ∧ (r.state j).calls k = none := by
  obtain ⟨m, hm, hzero⟩ := count_eventually_zero h hq
  refine ⟨⟨m, hm, fun i hi => ⟨hzero i hi, fun b hb hfd => ?_⟩⟩, ?_⟩
  · refine read_enabled (h.reachable i) (h.inService i) ?_ hfd
    rw [hb]
    exact hzero i hi
  · intro k cnt hwaits hleave hreturn
    have hlater : (r.state m).Waits c k cnt :=
      r.keeps (P := fun s => s.Waits c k cnt) hwaits
        (fun i _ hi => hi.step (Step.of_step (r.step i))) hm
    obtain ⟨j, hj, hnone⟩ := wait_returns h hzero hlater hleave hreturn
    exact ⟨j, Nat.le_trans hm hj, hnone⟩

/-- A run in which only WAIT calls are left, and no call begins. -/
theorem quiescent_of_waits {r : system.Run} (h : Served r)
    (hwaits : ∀ k < (r.state 0).nCall, ∃ d cnt, (r.state 0).Waits d k cnt)
    (hcalls : ∀ i, (r.state i).nCall ≤ (r.state 0).nCall) : Quiescent r c 0 := by
  have hset : ∀ i k, (r.state i).Settled c k := by
    intro i k call hcall
    have hk := Names.call_lt (scope_reachable (h.reachable i).reachable) hcall
    obtain ⟨d, cnt, hwait⟩ := hwaits k (Nat.lt_of_lt_of_le hk (hcalls i))
    have hlater : (r.state i).Waits d k cnt :=
      r.keeps (P := fun s => s.Waits d k cnt) hwait
        (fun i _ hi => hi.step (Step.of_step (r.step i))) (Nat.zero_le i)
    rcases hlater.2 with hnone | ⟨left, hw⟩
    · cases hnone.symm.trans hcall
    · cases hw.symm.trans hcall
      rfl
  exact ⟨fun i _ k _ => hset (i + 1) k, fun k hnot => absurd (hset 0 k) hnot⟩

/-- A WAIT for the write without commands. -/
theorem waits_end_write :
    ∃ r : system.Run, Served r ∧ Quiescent r 0 0 ∧ (r.state 0).calls 1 = some (.wait 0 0 false) ∧
      ((r.state 0).ctxs 0).taskCount = 1 ∧ ∃ j, 0 ≤ j ∧ (r.state j).calls 1 = none := by
  have hseen : seenBy Steady (openOne ++ writeCall 0 0 0 (fun _ => 0) ++ [.wait 0 0])
      (fun s => ((s.nCall, decide (s.calls 0 = none), decide (s.calls 1 = some (.wait 0 0 false))),
        (s.ctxs 0).taskCount, decide (InService s),
        ((system.guarded Steady).exec s (startEmpty ++ finishTask ++ workerSteps 3 ++
          [.waitLeave 1, .waitReturn 1])).any fun u =>
            decide (u.Idle ∧ u.nCall = 2 ∧ u.calls 1 = none))) =
      some ((2, true, true), 1, true, true) := by
    decide +kernel
  obtain ⟨s, hr, hs⟩ := exists_seenBy hseen
  simp only [Prod.mk.injEq, decide_eq_true_eq, Option.any_eq_true] at hs
  obtain ⟨⟨hn, hwrite, hwait⟩, hcount, hservice, u, hu, hidle, hcalls, hover⟩ := hs
  obtain ⟨r, rfl, hserved, hend⟩ := exists_served hr hservice hu hidle
  have hnCall : ∀ i, (r.state i).nCall ≤ (r.state 0).nCall := by
    intro i
    obtain ⟨j, hj, hstate, -⟩ := hend.exists_ge i
    have hle : (r.state i).nCall ≤ (r.state j).nCall :=
      r.keeps (P := fun s => (r.state i).nCall ≤ s.nCall) (Nat.le_refl _)
        (fun k _ hk => Nat.le_trans hk (nCall_le_step (Step.of_step (r.step k)))) hj
    rw [hn, ← hcalls, ← hstate]
    exact hle
  have hwaits : ∀ k < (r.state 0).nCall, ∃ d cnt, (r.state 0).Waits d k cnt := by
    intro k hk
    refine ⟨0, 0, hk, ?_⟩
    rw [hn] at hk
    rcases k with _ | _ | k
    · exact Or.inl hwrite
    · exact Or.inr ⟨false, hwait⟩
    · omega
  have hpast : ∀ {l : Label}, u.handle l = none → r.Fair l := fun hl =>
    hend.fair (Or.inr fun hen => hen ((if_pos hidle.2.1).trans hl))
  have hq : Quiescent r 0 0 := quiescent_of_waits hserved hwaits hnCall
  refine ⟨r, hserved, hq, hwait, hcount, ?_⟩
  refine (waits_end hserved hq).2 1 0 ⟨by rw [hn]; decide, Or.inr ⟨false, hwait⟩⟩ (hpast ?_)
    (hpast ?_)
  · rw [State.handle, ioctlWaitLeave, hover]
  · rw [State.handle, ioctlWaitReturn, hover]

end Dicedev
