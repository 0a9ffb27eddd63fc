import Dicedev.Failed
import Dicedev.Device

/-!
# What a successful WAIT means

`DICEDEV_IOCTL_WAIT` leaves its loop when it reads a counter that is small enough, and then it
looks at `failed`. `wait_moment` finds the moment of the first reading in the run of the call.
If the context has not failed when the call returns, no task of it was dropped before, so
every task of the context that is gone at that moment was finished, after its fence, and the
queue makes them the oldest ones: `wait_success`.
-/

namespace Dicedev

open State

variable {s s' : State} {l : Label}

/-! ## The call -/

theorem nCall_le_step (hs : Step s l s') : s.nCall ≤ s'.nCall := by
  cases hs with
  | run | wait | write => exact Nat.le_succ _
  | _ => exact Nat.le_refl _

/-- A WAIT call is in its loop, it has left it, or it has returned. -/
theorem wait_step (hs : Step s l s') {k : CallId} {c : CtxId} {cnt : Nat} (hk : k < s.nCall)
    (hcall : s.calls k = none ∨ ∃ left, s.calls k = some (.wait c cnt left)) :
    s'.calls k = s.calls k ∨ s'.calls k = none ∨
      (s.calls k = some (.wait c cnt false) ∧ s'.calls k = some (.wait c cnt true) ∧
        (s.ctxs c).taskCount ≤ cnt) := by
  have hother : ∀ {j : CallId} {o : Option Call}, k ≠ j →
      Function.update s.calls j o k = s.calls k := fun hne => Function.update_of_ne hne _ _
  have hnew : ∀ {o : Option Call}, Function.update s.calls s.nCall o k = s.calls k :=
    hother (Nat.ne_of_lt hk)
  have hne : ∀ {j : CallId} {call : Call}, s.calls j = some call →
      (∀ left, call ≠ .wait c cnt left) → k ≠ j := by
    rintro j call hj hcall' rfl
    rcases hcall with hnone | ⟨left, hwait⟩
    · rw [hnone] at hj
      cases hj
    · rw [hwait] at hj
      exact hcall' left (Option.some.inj hj).symm
  cases hs with
  | run | wait | write => exact Or.inl hnew
  | runCount j _ _ _ _ _ hj | runQueue j _ _ _ _ _ hj | writeFail j _ _ _ hj
  | writeQueue j _ _ _ _ hj => exact Or.inl (hother (hne hj (by simp)))
  | waitLeave j d m hj hle =>
    by_cases hkj : k = j
    · subst hkj
      rcases hcall with hnone | ⟨left, hwait⟩
      · rw [hnone] at hj
        cases hj
      · rw [hwait] at hj
        cases hj
        exact Or.inr (Or.inr ⟨hwait, Function.update_self _ _ _, hle⟩)
    · exact Or.inl (hother hkj)
  | waitReturn j d m hj =>
    by_cases hkj : k = j
    · subst hkj
      exact Or.inr (Or.inl (Function.update_self _ _ _))
    · exact Or.inl (hother hkj)
  | _ => exact Or.inl rfl

/-- While the call `k` is a WAIT call or over, it stays so. -/
theorem wait_run {k : CallId} {c : CtxId} {cnt : Nat} {ls : List Label} (hk : k < s.nCall)
    (hcall : s.calls k = none ∨ ∃ left, s.calls k = some (.wait c cnt left))
    (hrun : system.exec s ls = some s') :
    s'.calls k = none ∨ s.calls k ≠ none ∧ ∃ left, s'.calls k = some (.wait c cnt left) := by
  have hI : k < s'.nCall ∧
      (s'.calls k = none ∨ s.calls k ≠ none ∧ ∃ left, s'.calls k = some (.wait c cnt left)) := by
    refine Machine.exec_invariant (I := fun u => k < u.nCall ∧
      (u.calls k = none ∨ s.calls k ≠ none ∧ ∃ left, u.calls k = some (.wait c cnt left)))
      ?_ ⟨hk, ?_⟩ hrun
    · rintro u l v ⟨hlt, hu⟩ hstep
      have hs := Step.of_step hstep
      refine ⟨Nat.lt_of_lt_of_le hlt (nCall_le_step hs), ?_⟩
      have hcases := wait_step hs hlt (hu.imp_right fun h => h.2)
      rcases hcases with hsame | hnone | ⟨hfalse, htrue, -⟩
      · rw [hsame]
        exact hu
      · exact Or.inl hnone
      · rcases hu with hnone | ⟨hne, -⟩
        · rw [hnone] at hfalse
          cases hfalse
        · exact Or.inr ⟨hne, true, htrue⟩
    · rcases hcall with hnone | ⟨left, hwait⟩
      · exact Or.inl hnone
      · exact Or.inr ⟨by rw [hwait]; simp, left, hwait⟩
  exact hI.2

/-- A WAIT call that has left its loop has read a small counter on the way. -/
theorem wait_moment {k : CallId} {c d : CtxId} {cnt m : Nat} {ls : List Label}
    (hk : k < s.nCall) (hstart : s.calls k = some (.wait c cnt false))
    (hrun : system.exec s ls = some s') (hend : s'.calls k = some (.wait d m true)) :
    d = c ∧ ∃ as bs u, ls = as ++ bs ∧ system.exec s as = some u ∧ system.exec u bs = some s' ∧
      (u.ctxs c).taskCount ≤ cnt := by
  refine ⟨?_, ?_⟩
  · rcases wait_run hk (Or.inr ⟨false, hstart⟩) hrun with hnone | ⟨-, left, hwait⟩
    · rw [hnone] at hend
      cases hend
    · rw [hwait] at hend
      cases hend
      rfl
  · have hleft : ¬ s'.calls k = some (.wait c cnt false) := by
      intro hin
      rw [hin] at hend
      cases hend
    obtain ⟨as, l, bs, u, v, hls, hu, hstep, hv, hPu, hPv⟩ :=
      Machine.exists_flip (P := fun w => w.calls k = some (.wait c cnt false)) hrun hstart hleft
    have hlt : k < u.nCall :=
      Machine.exec_invariant (I := fun w => k < w.nCall) (fun w l w' hw hs =>
        Nat.lt_of_lt_of_le hw (nCall_le_step (Step.of_step hs))) hk hu
    have hs := Step.of_step hstep
    rcases wait_step hs hlt (Or.inr ⟨false, hPu⟩) with hsame | hnone | ⟨-, -, hle⟩
    · exact absurd (hsame.trans hPu) hPv
    · have hlt' := Nat.lt_of_lt_of_le hlt (nCall_le_step hs)
      have hcall : v.calls k = none ∨ ∃ left, v.calls k = some (.wait c cnt left) :=
        Or.inl hnone
      rcases wait_run hlt' hcall hv with hover | ⟨hne, -⟩
      · rw [hover] at hend
        cases hend
      · exact absurd hnone hne
    · exact ⟨as, l :: bs, u, hls, hu, Machine.exec_cons_some.mpr ⟨v, hstep, hv⟩, hle⟩

/-! ## Flags and tasks along the run -/

/-- A context that has not failed at the end of a run had not failed before. -/
theorem not_failed_run (hr : Reachable s) {ls : List Label} (hrun : system.exec s ls = some s')
    {c : CtxId} (hc : s'.fails c = false) : s.fails c = false := by
  cases hf : s.fails c with
  | false => rfl
  | true =>
    have hI : Reachable s' ∧ s'.fails c = true :=
      Machine.exec_invariant (I := fun u => Reachable u ∧ u.fails c = true)
        (fun u l v hu hs => ⟨hu.1.step hs, failed_sticky hu.1 (Step.of_step hs) hu.2⟩)
        ⟨hr, hf⟩ hrun
    rw [hI.2] at hc
    cases hc

/-- The context has not failed: its freed tasks were finished behind their fences. -/
theorem finished_of_freed (h : Reachable s) {t : TaskId} (ht : t < s.nTask)
    (hok : s.fails (s.sig t).ctx = false) (hfreed : (s.sig t).freed = true) :
    .dropped t ∉ s.trace ∧
      ∃ pre post, s.trace = pre ++ .finished t :: post ∧ .fenceReached t ∈ pre := by
  have hnot : .dropped t ∉ s.trace := fun hd => by
    rw [dropped_failed h hd] at hok
    cases hok
  refine ⟨hnot, ?_⟩
  obtain ⟨e, he, het⟩ := List.mem_filterMap.mp ((freedGone_reachable h t ht).mp hfreed)
  have hfin : e = .finished t := by
    cases e with
    | finished u =>
      cases het
      rfl
    | dropped u =>
      cases het
      exact absurd he hnot
    | _ => cases het
  subst hfin
  obtain ⟨pre, post, htrace⟩ := List.append_of_mem he
  exact ⟨pre, post, htrace, finished_behind_fence h pre t post htrace⟩

/-- A finished task leaves no older task behind. -/
theorem freed_of_lt (h : Reachable s) {t u : TaskId} (hu : u < s.nTask)
    (hfin : .finished u ∈ s.trace) (htu : t < u) : (s.sig t).freed = true := by
  have hv := pipeline_reachable h
  have hgone := hv.gone_of_lt (started_of_finished h hfin) htu
  exact (freedGone_reachable h t (Nat.lt_trans htu hu)).mpr hgone

/-! ## The result -/

/-- The state of the context `c` that a WAIT for `cnt` tasks promises: at most `cnt` of its
tasks are unfinished, the others were finished behind their own fences and not dropped, and
they are the oldest ones. -/
structure State.DoneUpTo (s : State) (c : CtxId) (cnt : Nat) : Prop where
  unfinished : tasksOf s.sig s.nTask c ≤ cnt
  finished : ∀ t < s.nTask, (s.tasks t).ctx = c → (s.tasks t).freed = true →
    .dropped t ∉ s.trace ∧
      ∃ pre post, s.trace = pre ++ .finished t :: post ∧ .fenceReached t ∈ pre
  oldest : ∀ t u, t < u → u < s.nTask → (s.tasks t).ctx = c → (s.tasks u).ctx = c →
    (s.tasks u).freed = true → (s.tasks t).freed = true

theorem doneUpTo (h : Reachable s) {c : CtxId} {cnt : Nat} (hok : s.fails c = false)
    (hcount : (s.ctxs c).taskCount ≤ cnt) : s.DoneUpTo c cnt := by
  have hfin : ∀ t < s.nTask, (s.tasks t).ctx = c → (s.tasks t).freed = true →
      .dropped t ∉ s.trace ∧
        ∃ pre post, s.trace = pre ++ .finished t :: post ∧ .fenceReached t ∈ pre := by
    rintro t ht rfl hfreed
    exact finished_of_freed h ht hok hfreed
  refine ⟨?_, hfin, ?_⟩
  · have hacc : (s.ctxs c).taskCount = _ := accounts_reachable h c
    omega
  · intro t u htu hu _ huc hfreed
    obtain ⟨-, pre, post, htrace, -⟩ := hfin u hu huc hfreed
    exact freed_of_lt h hu (by rw [htrace]; simp) htu

theorem wait_start {c : CtxId} {cnt : Word} (hs : system.step s (.wait c cnt) = some s') :
    s.nCall < s'.nCall ∧ s'.calls s.nCall = some (.wait c cnt.toNat false) := by
  cases Step.of_step hs with
  | wait => exact ⟨Nat.lt_succ_self _, Function.update_self _ _ _⟩
  | halt _ _ hl => simp at hl

theorem wait_end {k : CallId} (hs : system.step s (.waitReturn k) = some s') :
    ∃ c cnt, s.calls k = some (.wait c cnt true) ∧
      s'.trace = s.trace ++ [.waitReturned k (s.ioctlWaitResult c)] := by
  cases Step.of_step hs with
  | waitReturn _ c cnt hcall => exact ⟨c, cnt, hcall, rfl⟩
  | halt _ _ hl => simp at hl

/-- The moment of a WAIT call at which it read its counter, and its result. -/
theorem wait_call {s₀ s₁ : State} {c : CtxId} {cnt : Word} {ls : List Label}
    (hcall : system.step s₀ (.wait c cnt) = some s₁) (hrun : system.exec s₁ ls = some s)
    (hret : system.step s (.waitReturn s₀.nCall) = some s') :
    s'.trace = s.trace ++ [.waitReturned s₀.nCall (s.ioctlWaitResult c)] ∧
      ∃ as bs u, ls = as ++ bs ∧ system.exec s₁ as = some u ∧ system.exec u bs = some s ∧
        (u.ctxs c).taskCount ≤ cnt.toNat := by
  obtain ⟨hk, hstart⟩ := wait_start hcall
  obtain ⟨d, m, hend, htrace⟩ := wait_end hret
  obtain ⟨rfl, hmoment⟩ := wait_moment hk hstart hrun hend
  exact ⟨htrace, hmoment⟩

/-- A WAIT that returns 0: at a moment of the call the context was done up to `cnt` tasks. -/
theorem wait_success {s₀ s₁ : State} (h : Reachable s₀) {c : CtxId} {cnt : Word}
    {ls : List Label} (hcall : system.step s₀ (.wait c cnt) = some s₁)
    (hrun : system.exec s₁ ls = some s)
    (hret : system.step s (.waitReturn s₀.nCall) = some s')
    (hzero : s'.trace = s.trace ++ [.waitReturned s₀.nCall none]) :
    ∃ as bs u, ls = as ++ bs ∧ system.exec s₁ as = some u ∧ system.exec u bs = some s ∧
      u.DoneUpTo c cnt.toNat := by
  obtain ⟨htrace, as, bs, u, hls, hu, hv, hcount⟩ := wait_call hcall hrun hret
  have hru : Reachable u := Machine.Reachable.exec (h.step hcall) hu
  have hok : s.fails c = false := by
    rw [hzero, List.append_cancel_left_eq, List.singleton_inj, Event.waitReturned.injEq] at htrace
    have hres := htrace.2
    unfold ioctlWaitResult at hres
    split at hres
    · cases hres
    · rename_i hfail
      exact Bool.not_eq_true _ ▸ hfail
  exact ⟨as, bs, u, hls, hu, hv, doneUpTo hru (not_failed_run hru hv hok) hcount⟩

/-- Two tasks are queued. -/
def twoWrites : List Label :=
  openOne ++ writeCall 0 0 0 (fun _ => 0) ++ writeCall 0 1 0 (fun _ => 0)

/-- The first of them is finished, and a WAIT leaves its loop. -/
def leaveAfterOne : List Label := startEmpty ++ finishTask ++ [.waitLeave 2]

theorem wait_success_leaveAfterOne :
    ∃ s₀ s₁ s s', Reachable s₀ ∧ system.step s₀ (.wait 0 1) = some s₁ ∧
      system.exec s₁ leaveAfterOne = some s ∧ system.step s (.waitReturn s₀.nCall) = some s' ∧
      s'.trace = s.trace ++ [.waitReturned s₀.nCall none] ∧
      ∃ as bs u, leaveAfterOne = as ++ bs ∧ system.exec s₁ as = some u ∧
        system.exec u bs = some s ∧ u.DoneUpTo 0 1 := by
  have hseen : seenAfter twoWrites (fun s₀ => (s₀.nCall,
      (system.step s₀ (.wait 0 1)).bind fun s₁ => (system.exec s₁ leaveAfterOne).bind fun s =>
        (system.step s (.waitReturn 2)).map fun s' =>
          decide (s'.trace = s.trace ++ [.waitReturned 2 none]))) = some (2, some true) := by
    decide +kernel
  obtain ⟨s₀, -, hr, hf⟩ := exists_seenAfter hseen
  simp only [Prod.mk.injEq, Option.bind_eq_some_iff, Option.map_eq_some_iff,
    decide_eq_true_eq] at hf
  obtain ⟨hk, s₁, h₁, s, hs, s', hs', hzero⟩ := hf
  rw [← hk] at hs' hzero
  exact ⟨s₀, s₁, s, s', hr, h₁, hs, hs', hzero, wait_success hr h₁ hs hs' hzero⟩

end Dicedev
