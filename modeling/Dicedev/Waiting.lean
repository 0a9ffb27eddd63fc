import Dicedev.Lib.WaitQueue
import Dicedev.Waiters
import Dicedev.Closing

/-!
# The waits for the tasks of a context

`dicedev_release` and `dicedev_ioctl_wait` wait on `ctx->wq` until few enough tasks are left. They
read `task_count` without `slock`. `__task_destroy` lowers the count and wakes the queue in one
critical section, and these are two steps here: the waiters, and a release that goes on, can come
in between.

* `no_lost_wakeup`: a waiter whose condition has come true returns from its loop by at most five
  steps of its own, after the wake-up that is due if there is one. Failed writes are excluded:
  they wake nobody.
* `wait_queue_allocated`: with fresh addresses the wake-up and these waiters find the context
  allocated. A release that sees the count reach zero before the wake-up could free the context,
  but it has to take `slock` for each of the buffers first, and the context still has the one of
  the task: no buffer is lost from its list, as a call of `DICEDEV_IOCTL_CREATE_SET` is one step.
-/

namespace Dicedev

open State Machine

/-- Who waits for the tasks of a context: its release, or a call of `DICEDEV_IOCTL_WAIT`. -/
inductive Waiter
  | release (c : CtxId)
  | call (k : CallId)
  deriving DecidableEq, Repr

/-- The context on whose queue the waiter is, and the number of tasks it may leave behind. -/
def State.waitsFor (s : State) : Waiter → Option (CtxId × Nat)
  | .release c => if (s.ctxs c).phase = .waiting then some (c, 0) else none
  | .call k =>
    match s.calls k with
    | some (.wait c cnt false) => some (c, cnt)
    | _ => none

/-- The end of the loop of a waiter. -/
def Waiter.leaveLabel : Waiter → Label
  | .release c => .releaseWait c
  | .call k => .waitLeave k

def Label.leaver? : Label → Option Waiter
  | .releaseWait c => some (.release c)
  | .waitLeave k => some (.call k)
  | _ => none

/-- The driver; `signalling` if the worker has lowered the count of a context and not yet woken
its queue. -/
structure SignalState where
  base : State
  signalling : Option CtxId

inductive SignalLabel
  | sys (l : Label)
  | wake

/-- A step. Between the count and the wake-up the worker holds `slock`. -/
def SignalState.step (s : SignalState) : SignalLabel → Option SignalState
  | .sys l =>
    if s.signalling = none ∨ l.slocked = false then
      (system.step s.base l).map fun base => ⟨base, (s.base.wakes l).or s.signalling⟩
    else none
  | .wake => if s.signalling = none then none else some ⟨s.base, none⟩

/-- The driver with `__task_destroy` taken apart. -/
def signalSystem : Machine SignalState SignalLabel := ⟨⟨State.probed, none⟩, SignalState.step⟩

/-- The condition of the loop of a waiter. -/
def State.waitBlocked (s : State) (w : Waiter) : Bool :=
  (s.waitsFor w).any fun p => decide (p.2 < (s.ctxs p.1).taskCount)

/-- The waiters on the queues of the contexts. -/
def ctxQueue : WaitQueue SignalState SignalLabel Waiter where
  blocked s w := s.base.waitBlocked w
  wakes s l w :=
    match l with
    | .sys _ => false
    | .wake => (s.base.waitsFor w).any fun p => decide (some p.1 = s.signalling)
  leaves
    | .sys l => l.leaver?
    | .wake => none

/-- The driver with its waiters. -/
def waitSystem : Machine (SignalState × (Waiter → WaitPc)) (WaitLabel SignalLabel Waiter) :=
  signalSystem.withWaiters ctxQueue

variable {s s' : State} {l : Label} {w : Waiter} {c : CtxId} {n : Nat}

/-! ## What a step does to a waiter -/

theorem waitsFor_cases (h : s.waitsFor w = some (c, n)) :
    w = .release c ∧ (s.ctxs c).phase = .waiting ∧ n = 0 ∨
      ∃ k, w = .call k ∧ s.calls k = some (.wait c n false) := by
  cases w with
  | release d =>
    unfold State.waitsFor at h
    dsimp only at h
    split at h
    · rename_i hphase
      cases h
      exact Or.inl ⟨rfl, hphase, rfl⟩
    · cases h
  | call k =>
    unfold State.waitsFor at h
    dsimp only at h
    split at h
    · rename_i hcall
      cases h
      exact Or.inr ⟨k, rfl, hcall⟩
    · cases h

/-- A waiter's context is not freed. -/
theorem phase_of_waitsFor (hr : Reachable s) (h : s.waitsFor w = some (c, n)) :
    (s.csig c).phase.Counting := by
  rcases waitsFor_cases h with ⟨-, hphase, -⟩ | ⟨k, -, hcall⟩
  · exact Or.inr hphase
  · exact Or.inl (Owned.ioctl_open (ownership_reachable hr) k _ c hcall (beq_self_eq_true c))

theorem lt_of_counting (hr : Reachable s) (h : (s.csig c).phase.Counting) : c < s.nCtx := by
  refine Names.ctx_lt (scope_reachable hr) fun hfreed => ?_
  rcases h with h | h <;> cases h.symm.trans hfreed

/-- A call of WAIT goes on until it leaves its loop itself. -/
theorem wait_call_step (hr : Reachable s) (hs : Step s l s') {k : CallId}
    (hcall : s.calls k = some (.wait c n false)) (hl : l ≠ .waitLeave k) :
    s'.calls k = some (.wait c n false) := by
  have hold : k ≠ s.nCall := Nat.ne_of_lt (Names.call_lt (scope_reachable hr) hcall)
  have hother : ∀ {j : CallId} {call : Call} {o : Option Call}, s.calls j = some call →
      call ≠ .wait c n false → Function.update s.calls j o k = some (.wait c n false) := by
    intro j call o hj hne
    refine (Function.update_of_ne ?_ _ _).trans hcall
    rintro rfl
    exact hne (Option.some.inj (hj.symm.trans hcall))
  cases hs with
  | run | wait | write => exact (Function.update_of_ne hold _ _).trans hcall
  | runCount _ _ _ _ _ _ hj => exact hother hj nofun
  | runQueue _ _ _ _ _ _ hj => exact hother hj nofun
  | waitLeave j c' cnt hj =>
    refine (Function.update_of_ne ?_ _ _).trans hcall
    rintro rfl
    exact hl rfl
  | waitReturn j c' cnt hj => exact hother hj nofun
  | writeFail _ _ _ _ hj => exact hother hj nofun
  | writeQueue _ _ _ _ _ hj => exact hother hj nofun
  | _ => exact hcall

/-- A waiter stays what it is until it leaves its loop. -/
theorem waitsFor_step (hr : Reachable s) (hs : Step s l s') (h : s.waitsFor w = some (c, n))
    (hl : l.leaver? ≠ some w) : s'.waitsFor w = some (c, n) := by
  have hc := lt_of_counting hr (phase_of_waitsFor hr h)
  rcases waitsFor_cases h with ⟨rfl, hphase, rfl⟩ | ⟨k, rfl, hcall⟩
  · refine if_pos ?_
    have hctx := CtxStep.of_step hs hc
    change (s.csig c).phase = .waiting at hphase
    change (s'.csig c).phase = .waiting
    generalize s'.csig c = x at hctx ⊢
    cases hctx with
    | keep => exact hphase
    | createSet _ _ _ hopen | mark hopen => cases hopen.symm.trans hphase
    | leave => exact absurd rfl hl
    | giveUp _ _ hclosing | free hclosing => cases hclosing.symm.trans hphase
  · have hcall' := wait_call_step hr hs hcall fun heq => hl (by rw [heq]; rfl)
    unfold State.waitsFor
    dsimp only
    rw [hcall']

/-- The count is lowered by the wake-up of the queue and by failed writes only. -/
theorem count_step (hs : Step s l s') (hc : c < s.nCtx) (hl : ∀ k, l ≠ .writeFail k) :
    (s.ctxs c).taskCount ≤ (s'.ctxs c).taskCount ∨ s.wakes l = some c := by
  have hset : ∀ {d : CtxId} {x : Context}, (c = d → (s.ctxs c).taskCount ≤ x.taskCount) →
      (s.ctxs c).taskCount ≤ (Function.update s.ctxs d x c).taskCount := by
    intro d x hx
    by_cases hcd : c = d
    · rw [hcd, Function.update_self, ← hcd]
      exact hx hcd
    · rw [Function.update_of_ne hcd]
  cases hs with
  | openCtx => exact Or.inl (hset fun heq => absurd heq (Nat.ne_of_lt hc))
  | createSet | releaseMark | releaseWait | releaseBuffer | releaseFree | runReject =>
    exact Or.inl (hset fun heq => heq ▸ Nat.le_refl _)
  | runCount | write => exact Or.inl (hset fun heq => heq ▸ Nat.le_succ _)
  | writeFail k => exact absurd rfl (hl k)
  | isr | isrFence => exact Or.inl (Nat.le_of_eq (congrFun (counts_isrCtxs s) c).symm)
  | account t caller d b hpc hctx =>
    by_cases hcd : c = d
    · refine Or.inr ?_
      unfold State.wakes
      rw [hpc, hcd]
      exact congrArg some hctx
    · exact Or.inl (hset fun heq => absurd heq hcd)
  | _ => exact Or.inl (Nat.le_refl _)

/-! ## The wake-up as a step of its own -/

/-- The condition `C` on the steps of the driver. -/
def onBase (C : State → Label → Prop) (s : SignalState) : SignalLabel → Prop
  | .sys l => C s.base l
  | .wake => True

instance (C : State → Label → Prop) [∀ s l, Decidable (C s l)] (s : SignalState)
    (l : SignalLabel) : Decidable (onBase C s l) := by
  cases l <;> unfold onBase <;> infer_instance

/-- What a step does. -/
inductive SignalStep (s : SignalState) : SignalLabel → SignalState → Prop
  | sys (l : Label) (base : State) (hs : system.step s.base l = some base)
      (hwakes : s.base.wakes l = none) (hlock : s.signalling = none ∨ l.slocked = false) :
      SignalStep s (.sys l) ⟨base, s.signalling⟩
  | count (c : CtxId) (base : State) (hs : system.step s.base .worker = some base)
      (hwakes : s.base.wakes .worker = some c) (hfree : s.signalling = none) :
      SignalStep s (.sys .worker) ⟨base, some c⟩
  | wake (c : CtxId) (h : s.signalling = some c) : SignalStep s .wake ⟨s.base, none⟩

variable {x x' : SignalState} {y : SignalLabel} {C : State → Label → Prop}

theorem SignalStep.of_step (h : x.step y = some x') : SignalStep x y x' := by
  cases y with
  | sys l =>
    unfold SignalState.step at h
    dsimp only at h
    split at h
    · rename_i hlock
      obtain ⟨base, hs, rfl⟩ := Option.map_eq_some_iff.mp h
      cases hwakes : x.base.wakes l with
      | none => exact .sys l base hs hwakes hlock
      | some c =>
        have hl : l = .worker := by
          cases l <;> first | rfl | cases hwakes
        subst hl
        exact .count c base hs hwakes (hlock.resolve_right nofun)
    · cases h
  | wake =>
    unfold SignalState.step at h
    dsimp only at h
    split at h
    · cases h
    · rename_i hsig
      cases h
      obtain ⟨c, hc⟩ := Option.ne_none_iff_exists'.mp hsig
      exact .wake c hc

theorem base_reachable (h : signalSystem.ReachableBy (onBase C) x) :
    system.ReachableBy C x.base := by
  induction h with
  | init => exact .init
  | step _ hC hs ih =>
    cases SignalStep.of_step hs with
    | sys l base hbase => exact ih.step hC hbase
    | count c base hbase => exact ih.step hC hbase
    | wake => exact ih

/-! ## No wake-up is lost -/

/-- The write does not fail after it has raised the count: it would lower it and wake nobody. -/
def NoFailedWrite (_ : State) : Label → Prop
  | .writeFail _ => False
  | _ => True

instance (s : State) (l : Label) : Decidable (NoFailedWrite s l) := by
  cases l <;> unfold NoFailedWrite <;> infer_instance

/-- The waiter is blocked, or a wake-up is due to it. -/
def SignalState.Due (x : SignalState) (w : Waiter) : Prop :=
  ∃ c n, x.base.waitsFor w = some (c, n) ∧
    (n < (x.base.ctxs c).taskCount ∨ x.signalling = some c)

theorem due_of_blocked (h : x.base.waitBlocked w = true) : x.Due w := by
  obtain ⟨⟨c, n⟩, hw, hlt⟩ := (Option.any_eq_true _ _).mp h
  exact ⟨c, n, hw, Or.inl (of_decide_eq_true hlt)⟩

theorem due_step (hr : Reachable x.base) (hC : onBase NoFailedWrite x y) (hs : SignalStep x y x')
    (hl : ctxQueue.leaves y ≠ some w) (h : x.Due w) :
    x'.Due w ∨ ctxQueue.wakes x y w = true := by
  obtain ⟨c, n, hw, hdue⟩ := h
  have hc := lt_of_counting hr (phase_of_waitsFor hr hw)
  cases hs with
  | sys l base hs hwakes hlock =>
    have hstep := Step.of_step hs
    refine Or.inl ⟨c, n, waitsFor_step hr hstep hw hl, ?_⟩
    rcases hdue with hlt | hsig
    · have hcount := count_step hstep hc fun k heq => by
        subst heq
        exact hC
      rw [hwakes] at hcount
      exact Or.inl (Nat.lt_of_lt_of_le hlt (hcount.resolve_right nofun))
    · exact Or.inr hsig
  | count d base hs hwakes hfree =>
    have hstep := Step.of_step hs
    refine Or.inl ⟨c, n, waitsFor_step hr hstep hw nofun, ?_⟩
    rcases hdue with hlt | hsig
    · rcases count_step hstep hc nofun with hle | hc'
      · exact Or.inl (Nat.lt_of_lt_of_le hlt hle)
      · exact Or.inr (hwakes.symm.trans hc')
    · cases hfree.symm.trans hsig
  | wake d hd =>
    rcases hdue with hlt | hsig
    · exact Or.inl ⟨c, n, hw, Or.inl hlt⟩
    · refine Or.inr ((Option.any_eq_true _ _).mpr ⟨(c, n), hw, ?_⟩)
      exact decide_eq_true hsig.symm

/-- A waiter that sleeps is blocked, or a wake-up is due to it. -/
theorem due_of_sleeps {u : SignalState × (Waiter → WaitPc)}
    (h : waitSystem.ReachableBy (onSys (onBase NoFailedWrite)) u) (hw : (u.2 w).Sleeps) :
    u.1.Due w :=
  h.due (fun _ _ _ => due_of_blocked) (fun _ _ _ _ hr hC hs hl hdue =>
    due_step (base_reachable hr).reachable hC (SignalStep.of_step hs) hl hdue) w hw

/-- The end of the loop of a waiter whose condition holds. -/
theorem leave_enabled (hbug : s.bug = none) (hw : s.waitsFor w = some (c, n))
    (hcount : (s.ctxs c).taskCount ≤ n) :
    ∃ s', system.step s w.leaveLabel = some s' ∧ s'.waitsFor w = none := by
  rcases waitsFor_cases hw with ⟨rfl, hphase, rfl⟩ | ⟨k, rfl, hcall⟩
  · refine ⟨_, (if_pos hbug).trans (if_pos ⟨hphase, Nat.le_zero.mp hcount⟩), if_neg ?_⟩
    rw [show (State.updCtx s c _).ctxs c = _ from Function.update_self c _ s.ctxs]
    nofun
  · refine ⟨s.setCall k (some (.wait c n true)), (if_pos hbug).trans ?_, ?_⟩
    · change s.ioctlWaitLeave k = _
      unfold State.ioctlWaitLeave
      rw [hcall]
      exact if_pos hcount
    · unfold State.waitsFor
      dsimp only
      rw [show (s.setCall k _).calls k = _ from Function.update_self k _ s.calls]

theorem leaver?_leaveLabel (w : Waiter) : w.leaveLabel.leaver? = some w := by
  cases w <;> rfl

theorem slocked_leaveLabel (w : Waiter) : w.leaveLabel.slocked = false := by
  cases w <;> rfl

/-- A waiter whose condition holds, and to which no wake-up is due, leaves its loop. -/
theorem leaves_of_not_due {u : SignalState × (Waiter → WaitPc)}
    (h : waitSystem.ReachableBy (onSys (onBase NoFailedWrite)) u) (hbug : u.1.base.bug = none)
    (hw : u.1.base.waitsFor w = some (c, n)) (hcount : (u.1.base.ctxs c).taskCount ≤ n)
    (hsig : u.1.signalling ≠ some c) :
    ∃ ls u', (∀ y ∈ ls, y.waiter? = some w) ∧ ls.length ≤ 4 ∧
      waitSystem.exec u (ls ++ [.sys (.sys w.leaveLabel)]) = some u' ∧
      u'.1.base.waitsFor w = none := by
  have hnot : ¬ u.1.Due w := by
    rintro ⟨d, m, hd, hdue⟩
    obtain ⟨rfl, rfl⟩ := Prod.mk.inj (Option.some.inj (hw.symm.trans hd))
    rcases hdue with hlt | hd
    · exact absurd hcount (Nat.not_le_of_lt hlt)
    · exact hsig hd
  have hfree : ctxQueue.blocked u.1 w = false :=
    Bool.eq_false_iff.mpr fun hb => hnot (due_of_blocked hb)
  obtain ⟨base, hbase, hleft⟩ := leave_enabled hbug hw hcount
  have hstep : u.1.step (.sys w.leaveLabel) =
      some ⟨base, (u.1.base.wakes w.leaveLabel).or u.1.signalling⟩ := by
    refine (if_pos (Or.inr (slocked_leaveLabel w))).trans ?_
    rw [hbase]
    rfl
  obtain ⟨ls, pcs, hown, hlen, hexec⟩ := exec_leave (m := signalSystem) (q := ctxQueue)
    (l := .sys w.leaveLabel) hfree (fun hs => hnot (due_of_sleeps h hs)) (leaver?_leaveLabel w)
    hstep
  exact ⟨ls, _, hown, hlen, hexec, hleft⟩

/-- The wake-up that is due to the waiters on the queue of `c`. -/
def SignalState.dueWake (x : SignalState) (c : CtxId) : List (WaitLabel SignalLabel Waiter) :=
  if x.signalling = some c then [.sys .wake] else []

/-- Without failed writes no wake-up of the queue of a context is lost. When the condition of a
waiter has come true it leaves its loop: after the wake-up, if that is still due, by its own steps
only. -/
theorem no_lost_wakeup {u : SignalState × (Waiter → WaitPc)}
    (h : waitSystem.ReachableBy (onSys (onBase NoFailedWrite)) u) (hbug : u.1.base.bug = none)
    (hw : u.1.base.waitsFor w = some (c, n)) (hcount : (u.1.base.ctxs c).taskCount ≤ n) :
    ∃ ls u', (∀ y ∈ ls, y.waiter? = some w) ∧ ls.length ≤ 4 ∧
      waitSystem.exec u (u.1.dueWake c ++ ls ++ [.sys (.sys w.leaveLabel)]) = some u' ∧
      u'.1.base.waitsFor w = none := by
  unfold SignalState.dueWake
  split
  · rename_i hsig
    have hwake : u.1.step .wake = some ⟨u.1.base, none⟩ := if_neg (by rw [hsig]; nofun)
    obtain ⟨pcs, hstep⟩ := withWaiters_sys (m := signalSystem) (q := ctxQueue) (s := u)
      (l := .wake) nofun hwake
    have hr : waitSystem.ReachableBy (onSys (onBase NoFailedWrite)) (⟨u.1.base, none⟩, pcs) :=
      h.step (l := .sys .wake) trivial hstep
    obtain ⟨ls, u', hown, hlen, hexec, hleft⟩ := leaves_of_not_due hr hbug hw hcount nofun
    exact ⟨ls, u', hown, hlen, exec_cons_some.mpr ⟨_, hstep, hexec⟩, hleft⟩
  · rename_i hsig
    exact leaves_of_not_due h hbug hw hcount hsig

/-- The steps of the driver as steps of the system with waiters. -/
def sysSteps (ls : List Label) : List (WaitLabel SignalLabel Waiter) :=
  ls.map fun l => .sys (.sys l)

/-- The release of the context 0 goes to sleep. -/
def releaseSleeps : List (WaitLabel SignalLabel Waiter) :=
  [.sys (.sys (.releaseMark 0)), .test (.release 0), .enter (.release 0),
    .prepare (.release 0) false, .check (.release 0), .schedule (.release 0)]

/-- The release sleeps until the task of its context is destroyed, up to the count. -/
def releaseCounted : List (WaitLabel SignalLabel Waiter) :=
  sysSteps (openOne ++ writeCall 0 0 0 (fun _ => 0)) ++ releaseSleeps ++
    sysSteps (startEmpty ++ [.fenceInterrupt, .isr] ++ workerSteps 4)

theorem no_lost_wakeup_release :
    ∃ u, waitSystem.ReachableBy (onSys (onBase NoFailedWrite)) u ∧ u.2 (.release 0) = .sleeping ∧
      (u.1.base.ctxs 0).taskCount = 0 ∧
      ∃ ls u', ls.length ≤ 4 ∧
        waitSystem.exec u ([.sys .wake] ++ ls ++ [.sys (.sys (.releaseWait 0))]) = some u' ∧
        u'.1.base.waitsFor (.release 0) = none := by
  have hseen : ((waitSystem.guarded (onSys (onBase NoFailedWrite))).exec waitSystem.init
      releaseCounted).map (fun u => ((u.1.base.bug, u.1.signalling),
        u.1.base.waitsFor (.release 0), (u.1.base.ctxs 0).taskCount, u.2 (.release 0))) =
      some ((none, some 0), some (0, 0), 0, .sleeping) := by
    decide +kernel
  obtain ⟨u, hu, hf⟩ := Option.map_eq_some_iff.mp hseen
  simp only [Prod.mk.injEq] at hf
  obtain ⟨⟨hbug, hsig⟩, hw, hcount, hpc⟩ := hf
  have hr := Machine.ReachableBy.of_guarded (m := waitSystem) .init hu
  obtain ⟨ls, u', -, hlen, hexec, hleft⟩ :=
    no_lost_wakeup hr hbug hw (Nat.le_of_eq hcount)
  rw [SignalState.dueWake, if_pos hsig] at hexec
  exact ⟨u, hr, hpc, hcount, ls, u', hlen, hexec, hleft⟩

/-! ## The queue is allocated -/

/-- The context whose queue is going to be woken has a buffer and is not freed. -/
def SignalState.Holds (x : SignalState) : Prop :=
  ∀ c, x.signalling = some c → c < x.base.nCtx ∧ (x.base.csig c).phase ≠ .freed ∧
    (x.base.csig c).allocatedBuffers ≠ []

/-- The context of a task that is accounted for has a buffer: the one of the task. -/
theorem held_of_wakes (h : system.ReachableBy AddrFresh s) (hw : s.wakes l = some c) :
    c < s.nCtx ∧ (s.csig c).phase.Counting ∧ (s.csig c).allocatedBuffers ≠ [] := by
  have hr := h.reachable
  obtain ⟨t, caller, hpc, rfl⟩ : ∃ t caller, s.pc = .account t caller ∧ (s.tasks t).ctx = c := by
    unfold State.wakes at hw
    split at hw
    · split at hw
      · rename_i t caller hpc
        exact ⟨t, caller, hpc, Option.some.inj hw⟩
      · cases hw
    · cases hw
  have ht := account_lt hr hpc
  have hlive := live_of_not_gone hr ht (not_gone_of_held hr (account_held hr hpc))
  have hcounting : (s.csig (s.tasks t).ctx).phase.Counting :=
    Tracked.task (tracks_reachable hr) t ht hlive
  have howner : (s.bsig (s.sig t).buffOut).ctx = (s.tasks t).ctx :=
    ((ownsRuns_reachable h).task_own t ht).1
  have hb : (s.sig t).buffOut < s.nBuf := out_lt hr ht
  have hlisted := Owned.listed_live (ownership_reachable hr) _ hb (howner.symm ▸ hcounting)
  have hmem := (Owned.listed_iff (ownership_reachable hr) _ hb).mp hlisted
  rw [howner] at hmem
  exact ⟨lt_of_counting hr hcounting, hcounting, List.ne_nil_of_mem hmem⟩

theorem holds_step (h : system.ReachableBy AddrFresh x.base) (hI : x.Holds)
    (hs : SignalStep x y x') : x'.Holds := by
  cases hs with
  | sys l base hs hwakes hlock =>
    intro c hc
    obtain ⟨hlt, hfreed, hlist⟩ := hI c hc
    have hstep := Step.of_step hs
    have hslock : l.slocked = false := hlock.resolve_left fun hnone => by cases hnone.symm.trans hc
    have hctx := CtxStep.of_step hstep hlt
    refine ⟨Nat.lt_of_lt_of_le hlt (nCtx_le_step hstep), ?_⟩
    dsimp only
    generalize base.csig c = z at hctx ⊢
    cases hctx with
    | keep => exact ⟨hfreed, hlist⟩
    | createSet => exact ⟨hfreed, List.cons_ne_nil _ _⟩
    | leave => exact ⟨nofun, hlist⟩
    -- the other steps of the release wait for the lock
    | mark | giveUp => cases hslock
    | free _ hempty => exact absurd hempty hlist
  | count c base hs hwakes hfree =>
    rintro d hd
    cases hd
    obtain ⟨hlt, hcounting, hlist⟩ := held_of_wakes h hwakes
    have hctx := CtxStep.of_step (Step.of_step hs) hlt
    refine ⟨Nat.lt_of_lt_of_le hlt (nCtx_le_step (Step.of_step hs)), ?_⟩
    dsimp only
    generalize base.csig c = z at hctx ⊢
    cases hctx with
    | keep =>
      refine ⟨fun hfreed => ?_, hlist⟩
      rcases hcounting with hp | hp <;> cases hp.symm.trans hfreed
  | wake => exact fun c hc => by cases hc

theorem holds_reachable (h : signalSystem.ReachableBy (onBase AddrFresh) x) : x.Holds := by
  induction h with
  | init => exact fun c hc => by cases hc
  | step hr _ hs ih => exact holds_step (base_reachable hr) ih (SignalStep.of_step hs)

/-- A thread inside `wait_event_interruptible` is still waiting for its context. -/
theorem waitsFor_of_waits {u : SignalState × (Waiter → WaitPc)}
    (h : waitSystem.ReachableBy (onSys (onBase C)) u) (hw : u.2 w ≠ .testing) :
    ∃ p, u.1.base.waitsFor w = some p := by
  refine h.waits (A := fun x w => ∃ p, x.base.waitsFor w = some p) ?_ ?_ w hw
  · intro x w _ hb
    obtain ⟨p, hp, -⟩ := (Option.any_eq_true _ _).mp hb
    exact ⟨p, hp⟩
  · rintro x y x' w hr _ hs hl ⟨p, hp⟩
    have hbase := (base_reachable hr).reachable
    cases SignalStep.of_step hs with
    | sys l base hbs => exact ⟨p, waitsFor_step hbase (Step.of_step hbs) hp hl⟩
    | count c base hbs => exact ⟨p, waitsFor_step hbase (Step.of_step hbs) hp nofun⟩
    | wake => exact ⟨p, hp⟩

/-- As long as a new context does not get the address of the owner of a buffer that still exists,
the worker between the count and its wake-up, although a release may have seen the count reach
zero, and every release or WAIT inside `wait_event_interruptible` find the context allocated. The
readers that wait on the same queue need not (`context_outlives_waiters`). -/
theorem wait_queue_allocated {u : SignalState × (Waiter → WaitPc)}
    (h : waitSystem.ReachableBy (onSys (onBase AddrFresh)) u) :
    (∀ c, u.1.signalling = some c → (u.1.base.ctxs c).phase ≠ .freed) ∧
      ∀ w, u.2 w ≠ .testing → ∃ c n, u.1.base.waitsFor w = some (c, n) ∧
        (u.1.base.ctxs c).phase ≠ .freed := by
  refine ⟨fun c hc => (holds_reachable h.base c hc).2.1, fun w hw => ?_⟩
  obtain ⟨⟨c, n⟩, hp⟩ := waitsFor_of_waits h hw
  refine ⟨c, n, hp, fun hfreed => ?_⟩
  rcases phase_of_waitsFor (base_reachable h.base).reachable hp with hphase | hphase <;>
    cases hphase.symm.trans hfreed

/-- The release has seen the count reach zero and the wake-up is still to come. -/
theorem wait_queue_allocated_leaving :
    ∃ u, waitSystem.ReachableBy (onSys (onBase AddrFresh)) u ∧ u.1.signalling = some 0 ∧
      (u.1.base.ctxs 0).phase = .closing ∧ (u.1.base.ctxs 0).phase ≠ .freed := by
  have hseen : ((waitSystem.guarded (onSys (onBase AddrFresh))).exec waitSystem.init
      (releaseCounted ++ [.signal (.release 0), .prepare (.release 0) true,
        .sys (.sys (.releaseWait 0))])).map (fun u => (u.1.signalling,
        (u.1.base.ctxs 0).phase)) = some (some 0, .closing) := by
    decide +kernel
  obtain ⟨u, hu, hf⟩ := Option.map_eq_some_iff.mp hseen
  simp only [Prod.mk.injEq] at hf
  have hr := Machine.ReachableBy.of_guarded (m := waitSystem) .init hu
  exact ⟨u, hr, hf.1, hf.2, (wait_queue_allocated hr).1 0 hf.1⟩

end Dicedev
