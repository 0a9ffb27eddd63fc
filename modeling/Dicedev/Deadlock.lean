import Dicedev.Lib.LockOrder
import Dicedev.Locking

/-!
# No deadlock on the spinlocks

`slock` and `feed_lock` are taken by every thread that uses the driver, by the interrupt handler
and by the worker. `feed_cmd` takes `feed_lock` inside sections of `slock`, and outside of them in
`__wt_run_task`. `Locking` looks at one operation at a time; here any number of threads go through
operations one after the other.

`spinlocks_progress`: a thread that spins for one of the locks gets it when the threads that hold
locks go on, and for that none of them has to return from a sleep. The operations go the ways on
which `slock` is not misused (`Harmless`): no result is copied to the user, which is done under
the lock, and the worker does not stop with tasks left. They run into no `BUG`, and no write fails
after it has raised `task_count` (`WriteGoesWell`).
-/

namespace Dicedev

open LockPaths

/-- `feed_lock` is taken inside of `slock`. -/
def Lock.rank : Lock → Nat
  | .slock => 0
  | .feedLock => 1

/-- What a thread goes through at a time: an operation, or a call of `__wt_get_event` by the loop
of the worker. -/
def LockProg.Runs (p : LockProg) : Prop := p = .wtGetEvent ∨ ∃ op : Operation, p = op.prog

variable {es : List (Mark Lock Test Sleep)} {x : Exit} {p : LockProg}

/-- The program as it looks for the lock `l`. -/
def LockProg.guarded (l : Lock) (p : LockProg) : LockProg :=
  p.mapAct (Act.guard Lock.rank l .waitEvent)

/-- No operation takes a lock that is not above the locks it holds. -/
theorem guarded_accepts (hp : p.Runs) (l : Lock) : accepts l harmless (p.guarded l) = true := by
  rcases hp with rfl | ⟨op, rfl⟩
  · cases l <;> decide
  · cases op with
    | wtEvent e => cases e <;> cases l <;> decide
    | _ => cases l <;> decide

/-- The rules for both locks are kept on the ways that are not a misuse of `slock`. -/
theorem tame_of_path (hp : p.Runs) (h : Path p es x) (hx : x ≠ .halted) (hes : Harmless es) :
    tame Lock.rank (fun _ => false) es := by
  refine tame_of_held .waitEvent fun l => ?_
  obtain ⟨b, hheld, hb⟩ := disciplined_of_accepts harmless (guarded_accepts hp l) (h.mapAct _)
    fun c b hc => hes _ (test_mem_guarded hc)
  exact hheld.trans (congrArg some (hb.resolve_left hx))

/-- If it is the way of a write, no allocation and no copy fails. The error path goes through a
`task` that is not there, and the thread dies with `slock` held (`write_failure_iff`). -/
def WriteGoesWell (p : LockProg) (es : List (Mark Lock Test Sleep)) : Prop :=
  p = .bufferWrite → .test .allocFails true ∉ es ∧ .test .copyFails true ∉ es

/-- The threads go through operations of the driver, on ways without a misuse of `slock`, without a
`BUG` and without a write that dies. -/
def Operates {T : Type} (_ : Threads Lock Test Sleep T) : ThreadLabel Lock Test Sleep T → Prop
  | .start _ es =>
    Harmless es ∧ ∃ p x, LockProg.Runs p ∧ Path p es x ∧ x ≠ .halted ∧ WriteGoesWell p es
  | _ => True

/-- Any number of threads that go through operations of the driver, on ways without a misuse of
`slock`, a `BUG` or a write that dies (`Operates`). When one of them spins for a lock, a run of
others, in which nobody returns from a sleep, frees the lock for it. A thread that sleeps on such a
way holds no lock. -/
theorem spinlocks_progress {T : Type} [DecidableEq T] {s : Threads Lock Test Sleep T}
    (h : (threadSystem Lock Test Sleep T).ReachableBy Operates s) :
    (∀ t l es, s.todo t = .act (.lock l) :: es → ∃ (ts : List T) (s' : Threads Lock Test Sleep T),
      t ∉ ts ∧ (threadSystem Lock Test Sleep T).exec s (ts.map .go) = some s' ∧
        s'.todo t = s.todo t ∧ s'.owner l = none) ∧
    ∀ t w es l, s.todo t = .act (.sleep w) :: es → s.owner l ≠ some t := by
  have htame : s.Tame Lock.rank := by
    refine tame_reachable ?_ h
    rintro s t es ⟨hes, p, x, hp, hpath, hx, -⟩
    exact tame_of_path hp hpath hx hes
  refine ⟨fun t l es htodo => ?_, fun t w es l htodo => htame.sleeps_free htodo l⟩
  exact htame.lock_available (n := 2) (by rintro (_ | _) <;> decide) htodo

/-- The way through the interrupt handler when there is no interrupt. -/
def spuriousIsr : List (Mark Lock Test Sleep) :=
  [.act (.lock .slock), .test .interrupt false, .act (.unlock .slock)]

theorem spuriousIsr_path : Path (Operation.prog .isr) spuriousIsr .returned :=
  .seq (.act _) (.seq (.iteFalse .skip) (.seq (.act _) .ret))

/-- Two interrupt handlers, one in its section and one that spins. -/
theorem spinlocks_progress_isr :
    ∃ s, (threadSystem Lock Test Sleep Bool).ReachableBy Operates s ∧
      s.owner .slock = some false ∧ s.todo true = spuriousIsr ∧
      ∃ (ts : List Bool) (s' : Threads Lock Test Sleep Bool), true ∉ ts ∧
        (threadSystem Lock Test Sleep Bool).exec s (ts.map .go) = some s' ∧
        s'.owner .slock = none := by
  have hop : ∀ (s : Threads Lock Test Sleep Bool) (t : Bool),
      Operates s (.start t spuriousIsr) := fun _ _ =>
    ⟨by decide, _, .returned, Or.inr ⟨.isr, rfl⟩, spuriousIsr_path, nofun, fun _ => by decide⟩
  have h₁ := (Machine.ReachableBy.init (m := threadSystem Lock Test Sleep Bool)).step
    (hop _ false) rfl
  have h₂ := h₁.step (show Operates _ (.go false) from trivial) rfl
  have h₃ := h₂.step (hop _ true) rfl
  obtain ⟨ts, s', hnot, hexec, -, hfree⟩ := (spinlocks_progress h₃).1 true .slock _ rfl
  exact ⟨_, h₃, rfl, rfl, ts, s', hnot, hexec, hfree⟩

end Dicedev
