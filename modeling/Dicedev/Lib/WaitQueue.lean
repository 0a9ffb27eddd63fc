import Dicedev.Lib.Machine

/-!
# Waiting in a queue for a condition

Threads that run `while (blocked) wait_event_interruptible(queue, !blocked)` beside a machine.
`wait_event_interruptible` tests its condition, puts the thread on the queue, tests again, and
sleeps if it is still blocked and has not been woken since it is on the queue. None of the tests
is made under a lock. Every wait is non-exclusive, so a wake-up is one for all waiters it is meant
for.

* `withWaiters` is the machine with its waiters. Their step out of the loop is one of the
  machine's own steps.
* `ReachableBy.waits`: what holds of a blocked waiter, and is lost only when it leaves its loop,
  holds of every waiter inside `wait_event_interruptible`.
* `ReachableBy.due`: the rule for lost wake-ups. If what is due to a blocked waiter is lost only
  by a wake-up, no waiter sleeps to which it is not due.
* `exec_leave`: a waiter that is not blocked and not about to sleep comes back to the test of its
  loop by its own steps, and leaves it.
-/

universe u v w

namespace Machine

/-- Where a thread is in its wait loop. -/
inductive WaitPc
  /-- Before the test of the loop, or outside of it. -/
  | testing
  /-- Before the first test of `wait_event_interruptible`. -/
  | entering
  /-- Before it is put on the queue. -/
  | preparing
  /-- On the queue, before the test; `woken` if a wake-up has come since. -/
  | queued (woken : Bool)
  /-- The test on the queue has said to go on waiting. -/
  | checked (woken : Bool)
  | sleeping
  /-- Before it is taken off the queue. -/
  | finishing
  deriving DecidableEq, Repr

/-- A wake-up of the queue. -/
def WaitPc.wake : WaitPc → WaitPc
  | .queued _ => .queued true
  | .checked _ => .checked true
  | .sleeping => .preparing
  | pc => pc

/-- The thread sleeps, or is going to without a further look at its condition. -/
def WaitPc.Sleeps : WaitPc → Prop
  | .checked false | .sleeping => True
  | _ => False

/-- Waiters beside a machine with states `σ` and labels `lab`. -/
structure WaitQueue (σ : Type u) (lab : Type v) (wtr : Type w) where
  /-- The condition of the loop. -/
  blocked : σ → wtr → Bool
  /-- The step wakes the queue in which the waiter is. -/
  wakes : σ → lab → wtr → Bool
  /-- The step is the end of the loop of this waiter. -/
  leaves : lab → Option wtr

/-- The steps of the machine, and those of its waiters. -/
inductive WaitLabel (lab : Type v) (wtr : Type w)
  | sys (l : lab)
  | test (x : wtr)
  | enter (x : wtr)
  | prepare (x : wtr) (signal : Bool)
  | check (x : wtr)
  | schedule (x : wtr)
  | signal (x : wtr)
  | finish (x : wtr)

/-- The waiter whose step it is. -/
def WaitLabel.waiter? {lab : Type v} {wtr : Type w} : WaitLabel lab wtr → Option wtr
  | .sys _ => none
  | .test x | .enter x | .prepare x _ | .check x | .schedule x | .signal x | .finish x => some x

variable {σ : Type u} {lab : Type v} {wtr : Type w}

/-- The step of a waiter at `pc`; `blocked` is its condition. -/
def WaitPc.step (blocked : Bool) : WaitPc → WaitLabel lab wtr → Option WaitPc
  | .testing, .test _ => if blocked then some .entering else none
  | .entering, .enter _ => some (if blocked then .preparing else .testing)
  | .preparing, .prepare _ signal => some (if signal then .testing else .queued false)
  | .queued woken, .check _ => some (if blocked then .checked woken else .finishing)
  | .checked woken, .schedule _ => some (if woken then .preparing else .sleeping)
  | .sleeping, .signal _ => some .preparing
  | .finishing, .finish _ => some .testing
  | _, _ => none

theorem WaitPc.wake_eq_testing {pc : WaitPc} : pc.wake = .testing ↔ pc = .testing := by
  cases pc <;> simp [WaitPc.wake]

theorem WaitPc.not_sleeps_wake (pc : WaitPc) : ¬ pc.wake.Sleeps := by
  cases pc <;> simp [WaitPc.wake, WaitPc.Sleeps]

/-- Only a blocked waiter goes into its wait. -/
theorem WaitPc.blocked_of_testing {b : Bool} {pc pc' : WaitPc} {l : WaitLabel lab wtr}
    (h : pc.step b l = some pc') (hpc : pc = .testing) : b = true := by
  subst hpc
  cases l <;> simp_all [WaitPc.step]

/-- Only a blocked waiter goes to sleep. -/
theorem WaitPc.blocked_of_sleeps {b : Bool} {pc pc' : WaitPc} {l : WaitLabel lab wtr}
    (h : pc.step b l = some pc') (hpc : ¬ pc.Sleeps) (hsleeps : pc'.Sleeps) : b = true := by
  by_contra hb
  rw [Bool.not_eq_true] at hb
  subst hb
  unfold WaitPc.step at h
  split at h
  · cases h
  · cases h
    exact hsleeps
  · rename_i signal
    cases signal <;> cases h <;> exact hsleeps
  · cases h
    exact hsleeps
  · rename_i woken _
    cases woken
    · exact hpc trivial
    · cases h
      exact hsleeps
  · cases h
    exact hsleeps
  · cases h
    exact hsleeps
  · cases h

variable [DecidableEq wtr]

/-- The machine `m` with the waiters of `q`. -/
def withWaiters (m : Machine σ lab) (q : WaitQueue σ lab wtr) :
    Machine (σ × (wtr → WaitPc)) (WaitLabel lab wtr) where
  init := (m.init, fun _ => .testing)
  step s l :=
    match l with
    | .sys l =>
      if ∀ x ∈ q.leaves l, s.2 x = .testing then
        (m.step s.1 l).map fun s' =>
          (s', fun x => if q.wakes s.1 l x then (s.2 x).wake else s.2 x)
      else none
    | l => l.waiter?.bind fun x =>
      ((s.2 x).step (q.blocked s.1 x) l).map fun pc => (s.1, Function.update s.2 x pc)

/-- What a step does. -/
inductive WaitStep (m : Machine σ lab) (q : WaitQueue σ lab wtr) (s : σ × (wtr → WaitPc)) :
    WaitLabel lab wtr → σ × (wtr → WaitPc) → Prop
  | sys (l : lab) (s' : σ) (hleave : ∀ x, q.leaves l = some x → s.2 x = .testing)
      (hs : m.step s.1 l = some s') :
      WaitStep m q s (.sys l) (s', fun x => if q.wakes s.1 l x then (s.2 x).wake else s.2 x)
  | own (l : WaitLabel lab wtr) (x : wtr) (pc : WaitPc) (hl : l.waiter? = some x)
      (hpc : (s.2 x).step (q.blocked s.1 x) l = some pc) :
      WaitStep m q s l (s.1, Function.update s.2 x pc)

variable {m : Machine σ lab} {q : WaitQueue σ lab wtr}

theorem withWaiters_own {s : σ × (wtr → WaitPc)} {l : WaitLabel lab wtr} {x : wtr}
    (hl : l.waiter? = some x) : (m.withWaiters q).step s l =
      ((s.2 x).step (q.blocked s.1 x) l).map fun pc => (s.1, Function.update s.2 x pc) := by
  cases l <;> cases hl <;> rfl

theorem withWaiters_sys {s : σ × (wtr → WaitPc)} {l : lab} {s' : σ}
    (hleave : ∀ x, q.leaves l = some x → s.2 x = .testing) (hs : m.step s.1 l = some s') :
    ∃ pcs, (m.withWaiters q).step s (.sys l) = some (s', pcs) := by
  refine ⟨fun x => if q.wakes s.1 l x then (s.2 x).wake else s.2 x, (if_pos hleave).trans ?_⟩
  rw [hs]
  rfl

theorem WaitStep.of_step {s s' : σ × (wtr → WaitPc)} {l : WaitLabel lab wtr}
    (h : (m.withWaiters q).step s l = some s') : WaitStep m q s l s' := by
  cases hl : l.waiter? with
  | some x =>
    rw [withWaiters_own hl] at h
    obtain ⟨pc, hpc, rfl⟩ := Option.map_eq_some_iff.mp h
    exact .own l x pc hl hpc
  | none =>
    cases l with
    | sys l =>
      change (if _ then _ else _) = _ at h
      split at h
      · rename_i hleave
        obtain ⟨base, hs, rfl⟩ := Option.map_eq_some_iff.mp h
        exact .sys l base hleave hs
      · cases h
    | _ => cases hl

/-- The condition `C` on the steps of the machine. -/
def onSys (C : σ → lab → Prop) (s : σ × (wtr → WaitPc)) : WaitLabel lab wtr → Prop
  | .sys l => C s.1 l
  | _ => True

instance (C : σ → lab → Prop) [∀ s l, Decidable (C s l)] (s : σ × (wtr → WaitPc))
    (l : WaitLabel lab wtr) : Decidable (onSys C s l) := by
  cases l <;> unfold onSys <;> infer_instance

variable {C : σ → lab → Prop} {s : σ × (wtr → WaitPc)}

/-- Waiters do not change the machine. -/
theorem ReachableBy.base (h : (m.withWaiters q).ReachableBy (onSys C) s) :
    m.ReachableBy C s.1 := by
  induction h with
  | init => exact .init
  | step _ hC hs ih =>
    cases WaitStep.of_step hs with
    | sys l s' _ hbase => exact ih.step hC hbase
    | own => exact ih

/-- What holds of a blocked waiter and is lost only with the end of its loop holds of every
waiter inside its loop. -/
theorem ReachableBy.waits {A : σ → wtr → Prop}
    (hblocked : ∀ s x, m.ReachableBy C s → q.blocked s x = true → A s x)
    (hstep : ∀ s l s' x, m.ReachableBy C s → C s l → m.step s l = some s' →
      q.leaves l ≠ some x → A s x → A s' x)
    (h : (m.withWaiters q).ReachableBy (onSys C) s) (x : wtr) (hx : s.2 x ≠ .testing) :
    A s.1 x := by
  induction h generalizing x with
  | init => exact absurd rfl hx
  | @step s _ _ hr hC hs ih =>
    cases WaitStep.of_step hs with
    | sys l s' hleave hbase =>
      have hpc : s.2 x ≠ .testing := by
        intro hpc
        refine hx ?_
        dsimp only
        split
        · exact WaitPc.wake_eq_testing.mpr hpc
        · exact hpc
      exact hstep _ l s' x hr.base hC hbase (fun hl => hpc (hleave x hl)) (ih x hpc)
    | own l y pc hl hpc =>
      by_cases hxy : x = y
      · subst hxy
        by_cases htest : s.2 x = .testing
        · exact hblocked _ x hr.base (WaitPc.blocked_of_testing hpc htest)
        · exact ih x htest
      · exact ih x fun hpc => hx ((Function.update_of_ne hxy _ _).trans hpc)

/-- No wake-up is lost: if `D` holds of every blocked waiter, and is lost only by a wake-up or
with the end of the loop, then it holds of every waiter that sleeps. -/
theorem ReachableBy.due {D : σ → wtr → Prop}
    (hblocked : ∀ s x, m.ReachableBy C s → q.blocked s x = true → D s x)
    (hstep : ∀ s l s' x, m.ReachableBy C s → C s l → m.step s l = some s' →
      q.leaves l ≠ some x → D s x → D s' x ∨ q.wakes s l x = true)
    (h : (m.withWaiters q).ReachableBy (onSys C) s) (x : wtr) (hx : (s.2 x).Sleeps) :
    D s.1 x := by
  induction h generalizing x with
  | init => exact hx.elim
  | @step s _ _ hr hC hs ih =>
    cases WaitStep.of_step hs with
    | sys l s' hleave hbase =>
      dsimp only at hx
      split at hx
      · exact absurd hx (WaitPc.not_sleeps_wake _)
      · rename_i hwake
        have hne : q.leaves l ≠ some x := by
          intro hl
          rw [hleave x hl] at hx
          exact hx
        exact (hstep _ l s' x hr.base hC hbase hne (ih x hx)).resolve_right hwake
    | own l y pc hl hpc =>
      by_cases hxy : x = y
      · subst hxy
        change (Function.update s.2 x pc x).Sleeps at hx
        rw [Function.update_self] at hx
        by_cases hold : (s.2 x).Sleeps
        · exact ih x hold
        · exact hblocked _ x hr.base (WaitPc.blocked_of_sleeps hpc hold hx)
      · change (Function.update s.2 y pc x).Sleeps at hx
        rw [Function.update_of_ne hxy] at hx
        exact ih x hx

/-! ## Coming back -/

/-- The step a waiter takes next by itself. -/
def WaitPc.next (x : wtr) : WaitPc → WaitLabel lab wtr
  | .testing => .test x
  | .entering => .enter x
  | .preparing => .prepare x false
  | .queued _ => .check x
  | .checked _ => .schedule x
  | .sleeping => .signal x
  | .finishing => .finish x

/-- The number of its steps before a waiter that is not blocked is back at its test. -/
def WaitPc.away : WaitPc → Nat
  | .testing => 0
  | .entering | .finishing => 1
  | .queued _ => 2
  | .preparing => 3
  | .checked _ | .sleeping => 4

omit [DecidableEq wtr] in
theorem WaitPc.waiter?_next (x : wtr) (pc : WaitPc) :
    (pc.next x : WaitLabel lab wtr).waiter? = some x := by
  cases pc <;> rfl

omit [DecidableEq wtr] in
/-- A waiter that is not blocked and does not sleep comes nearer to its test, and does not go
to sleep. -/
theorem WaitPc.step_next (x : wtr) {pc : WaitPc} (hpc : pc ≠ .testing) (hawake : ¬ pc.Sleeps) :
    ∃ pc', pc.step false (pc.next x : WaitLabel lab wtr) = some pc' ∧ pc'.away < pc.away ∧
      ¬ pc'.Sleeps := by
  cases pc with
  | testing => exact absurd rfl hpc
  | checked woken =>
    cases woken
    · exact absurd trivial hawake
    · exact ⟨_, rfl, by decide, id⟩
  | sleeping => exact absurd trivial hawake
  | queued _ => exact ⟨.finishing, rfl, Nat.one_lt_two, id⟩
  | _ => exact ⟨_, rfl, by decide, id⟩

/-- A waiter that is not blocked and does not sleep comes back to its test by at most four steps
of its own. -/
theorem exec_return (x : wtr) (hfree : q.blocked s.1 x = false) (hawake : ¬ (s.2 x).Sleeps) :
    ∃ ls : List (WaitLabel lab wtr), (∀ l ∈ ls, l.waiter? = some x) ∧ ls.length ≤ (s.2 x).away ∧
      (m.withWaiters q).exec s ls = some (s.1, Function.update s.2 x .testing) := by
  generalize hn : (s.2 x).away = n
  induction n using Nat.strongRecOn generalizing s with
  | ind n ih =>
    by_cases hpc : s.2 x = .testing
    · refine ⟨[], List.forall_mem_nil _, Nat.zero_le n, ?_⟩
      rw [← hpc, Function.update_eq_self]
      rfl
    · obtain ⟨pc, hstep, hlt, hawake'⟩ : ∃ pc, (s.2 x).step false ((s.2 x).next x :
          WaitLabel lab wtr) = some pc ∧ _ := WaitPc.step_next x hpc hawake
      have hself : Function.update s.2 x pc x = pc := Function.update_self x pc s.2
      obtain ⟨ls, hown, hlen, hexec⟩ := ih pc.away (hn ▸ hlt)
        (s := (s.1, Function.update s.2 x pc)) hfree
        (fun hsleeps => hawake' (hself ▸ hsleeps)) (congrArg WaitPc.away hself)
      refine ⟨(s.2 x).next x :: ls, ?_, ?_, ?_⟩
      · exact List.forall_mem_cons.mpr ⟨WaitPc.waiter?_next x _, hown⟩
      · exact Nat.le_trans (Nat.succ_le_succ hlen) (hn ▸ hlt)
      · refine exec_cons_some.mpr ⟨(s.1, Function.update s.2 x pc), ?_, ?_⟩
        · rw [withWaiters_own (WaitPc.waiter?_next x _), hfree, hstep]
          rfl
        · rw [hexec, Function.update_idem]

theorem WaitPc.away_le (pc : WaitPc) : pc.away ≤ 4 := by
  unfold WaitPc.away
  split <;> decide

/-- A waiter that is not blocked and does not sleep leaves its loop, by the step `l` that is the
end of it, after at most four other steps of its own. -/
theorem exec_leave {x : wtr} {l : lab} {s' : σ} (hfree : q.blocked s.1 x = false)
    (hawake : ¬ (s.2 x).Sleeps) (hl : q.leaves l = some x) (hs : m.step s.1 l = some s') :
    ∃ (ls : List (WaitLabel lab wtr)) (pcs : wtr → WaitPc), (∀ y ∈ ls, y.waiter? = some x) ∧
      ls.length ≤ 4 ∧ (m.withWaiters q).exec s (ls ++ [.sys l]) = some (s', pcs) := by
  obtain ⟨ls, hown, hlen, hexec⟩ := exec_return (m := m) x hfree hawake
  have hleave : ∀ y, q.leaves l = some y → Function.update s.2 x .testing y = .testing := by
    intro y hy
    rw [Option.some.inj (hy.symm.trans hl), Function.update_self]
  obtain ⟨pcs, hlast⟩ := withWaiters_sys (s := (s.1, Function.update s.2 x .testing)) hleave hs
  refine ⟨ls, pcs, hown, Nat.le_trans hlen (s.2 x).away_le, ?_⟩
  rw [exec_append, hexec]
  exact exec_cons_some.mpr ⟨_, hlast, rfl⟩

end Machine
