import Dicedev.Account

/-!
# The calls of write

`dicedev_buffer_write` taken apart: after it has raised `task_count` it allocates the array for
the commands, copies them, allocates the task and queues it, and each of the three can fail.
`writeSystem` is the driver with any number of such calls, and it records what each call does.

The error path lowers `task_count` and wakes the queue of `task->ctx`. But a call only gets there
without a task, so it reads through a pointer that was never set, or that is `NULL`. There it
dies, and `slock` stays taken: `write_failure_iff`.
-/

namespace Dicedev

open State

/-- The points at which a call can fail. -/
inductive WriteFault
  | align
  | destroyed
  | cmdAlloc
  | copy
  | taskAlloc
  deriving DecidableEq, Repr

/-- The error that is returned. -/
def WriteFault.errno : WriteFault → Errno
  | .align => .einval
  | .destroyed => .eperm
  | .cmdAlloc => .enomem
  | .copy => .efault
  | .taskAlloc => .enomem

/-- The value of the local variable `task`. -/
inductive TaskPtr
  | unset
  | null
  | task (c : CtxId)
  deriving DecidableEq, Repr

/-- The value of `task` on the error path. -/
def WriteFault.taskPtr : WriteFault → TaskPtr
  | .taskAlloc => .null
  | _ => .unset

/-- What a call does to the rest of the driver. -/
inductive WriteAct
  | raise (c : CtxId)
  | lower (c : CtxId)
  | wake (c : CtxId)
  | alloc
  | free
  | queue (t : TaskId)
  /-- It reads through a pointer that is not a task. -/
  | useTask (p : TaskPtr)
  deriving DecidableEq, Repr

/-- Where a call is. -/
inductive WritePc
  /-- Before `kmalloc(count)`. -/
  | allocCmd
  /-- Before `copy_from_user`. -/
  | copyCmd
  /-- Before the `kmalloc` of the task. -/
  | allocTask
  /-- Before `dicedev_wt_add_task`. -/
  | addTask
  /-- At `err_copy`. -/
  | errCopy (f : WriteFault)
  /-- At `err_task`. -/
  | errTask (f : WriteFault)
  /-- It has returned `count`, or the error of a fault. -/
  | returned (f : Option WriteFault)
  /-- It has read through a pointer that is not a task, with `slock` held, and gets no further. -/
  | died (f : WriteFault)
  deriving DecidableEq, Repr

/-- The call has come to an end. -/
def WritePc.over : WritePc → Bool
  | .returned _ | .died _ => true
  | _ => false

/-- A call of `dicedev_buffer_write`. Once it has raised `task_count`, `id` is its number among
the calls of the system. -/
structure WriteCall where
  buf : BufId
  ctx : CtxId
  count : Nat
  id : CallId
  pc : WritePc
  acts : List WriteAct
  deriving DecidableEq, Repr

namespace WriteCall

/-- The call goes on to `pc` and has done `acts`. -/
def goto (call : WriteCall) (pc : WritePc) (acts : List WriteAct) : WriteCall :=
  { call with pc := pc, acts := call.acts ++ acts }

/-- The end of the error path: `ctx->task_count--` and
`wake_up_interruptible(&task->ctx->wq)`. -/
def rollback (call : WriteCall) (f : WriteFault) : WriteCall :=
  match f.taskPtr with
  | .task c => call.goto (.returned (some f)) [.lower call.ctx, .wake c]
  | p => call.goto (.died f) [.lower call.ctx, .useTask p]

/-- What a call has returned. -/
def result (call : WriteCall) : Option (Except Errno Nat) :=
  match call.pc with
  | .returned none => some (.ok call.count)
  | .returned (some f) => some (.error f.errno)
  | _ => none

/-- The call has raised `task_count` and not yet come to an end. -/
def InProgress (call : WriteCall) : Prop := call.pc.over = false

/-- The call has come to an end because of `f`. -/
def Failed (call : WriteCall) (f : WriteFault) : Prop :=
  call.pc = .returned (some f) ∨ call.pc = .died f

/-- The call holds `slock` for ever. -/
def keepsSlock (call : WriteCall) : Bool :=
  match call.pc with
  | .died _ => true
  | _ => false

end WriteCall

/-- The driver with its calls of write. `arrayOf t` is the call that has allocated the array of
task `t`. -/
structure WriteState where
  sys : State
  writes : Nat → Option WriteCall
  nWrite : Nat
  arrayOf : TaskId → Option Nat

/-- The steps of a call after its first critical section; the answers of the allocator and of
`copy_from_user` are given. -/
inductive WriteOp
  | allocCmd (ok : Bool)
  | copyCmd (ok : Bool)
  | allocTask (ok : Bool)
  | addTask (cmd : Nat → Word)
  | freeCmd
  | rollback

inductive WriteLabel
  | sys (l : Label)
  | write (b : BufId) (count : Nat)
  | call (w : Nat) (op : WriteOp)

/-- The steps of the system that belong to a call of write. -/
def Label.isWrite : Label → Bool
  | .write _ _ => true
  | .writeFail _ => true
  | .writeQueue _ _ => true
  | _ => false

/-- `__wt_get_event` comes to its critical section. -/
def State.getEventLocks (s : State) : Bool :=
  s.wtGetEventFence.isNone && s.nextTask.isSome && decide (s.fenceState = .none)

/-- The next step of the worker has a critical section of `slock`. -/
def State.workerLocks (s : State) : Bool :=
  match s.pc with
  -- the first three tests have been made
  | .polled => s.nextTask.isSome && decide (s.fenceState = .none)
  | .event .noEvent => s.getEventLocks
  | .event .taskGetNext | .event .taskBindSlot | .fencing | .destroy _ _ | .account _ _
  | .shutdown => true
  | _ => false

/-- The step has a critical section of `slock`. -/
def State.locks (s : State) : Label → Bool
  | .worker => s.workerLocks
  | l => l.slocked

namespace WriteState

/-- `slock` can be taken: neither the worker nor a call that has died holds it for ever. -/
def slockFree (x : WriteState) : Bool :=
  x.sys.slockFree && (List.range x.nWrite).all fun w => !(x.writes w).any WriteCall.keepsSlock

def add (x : WriteState) (call : WriteCall) : WriteState :=
  { x with writes := Function.update x.writes x.nWrite (some call), nWrite := x.nWrite + 1 }

def set (x : WriteState) (w : Nat) (call : WriteCall) : WriteState :=
  { x with writes := Function.update x.writes w (some call) }

/-- The beginning of `dicedev_buffer_write`, up to the end of its first critical section. -/
def bufferWrite (x : WriteState) (b : BufId) (count : Nat) : Option WriteState :=
  let c := (x.sys.bufs b).ctx
  if x.sys.bug = none ∧ 0 < (x.sys.bufs b).fdRefs then
    if count % 4 ≠ 0 then some (x.add ⟨b, c, count, 0, .returned (some .align), []⟩)
    else if x.slockFree then
      if (x.sys.bufs b).destroyed then
        some (x.add ⟨b, c, count, 0, .returned (some .destroyed), []⟩)
      else
        (system.step x.sys (.write b count)).map fun s =>
          { x.add ⟨b, c, count, x.sys.nCall, .allocCmd, [.raise c]⟩ with sys := s }
    else none
  else none

/-- The rest of `dicedev_buffer_write`. -/
def callStep (x : WriteState) (w : Nat) (call : WriteCall) (op : WriteOp) : Option WriteState :=
  match call.pc, op with
  | .allocCmd, .allocCmd ok =>
    some (x.set w (if ok then call.goto .copyCmd [.alloc] else call.goto (.errTask .cmdAlloc) []))
  | .copyCmd, .copyCmd ok =>
    some (x.set w (call.goto (if ok then .allocTask else .errCopy .copy) []))
  | .allocTask, .allocTask ok =>
    some (x.set w (call.goto (if ok then .addTask else .errCopy .taskAlloc) []))
  | .addTask, .addTask cmd =>
    if x.slockFree then
      -- from here on the array belongs to the task
      (system.step x.sys (.writeQueue call.id cmd)).map fun s =>
        { x.set w (call.goto (.returned none) [.queue x.sys.nTask]) with
          sys := s
          arrayOf := Function.update x.arrayOf x.sys.nTask (some w) }
    else none
  | .errCopy f, .freeCmd => some (x.set w (call.goto (.errTask f) [.free]))
  | .errTask f, .rollback =>
    if x.slockFree then
      (system.step x.sys (.writeFail call.id)).map fun s =>
        { x.set w (call.rollback f) with sys := s }
    else none
  | _, _ => none

def step (x : WriteState) : WriteLabel → Option WriteState
  | .sys l =>
    if l.isWrite ∨ (x.sys.locks l = true ∧ x.slockFree = false) then none
    else (system.step x.sys l).map fun s => { x with sys := s }
  | .write b count => x.bufferWrite b count
  | .call w op => (x.writes w).bind fun call => x.callStep w call op

end WriteState

/-- The driver and any number of calls of `dicedev_buffer_write`. -/
def writeSystem : Machine WriteState WriteLabel :=
  ⟨⟨State.probed, fun _ => none, 0, fun _ => none⟩, WriteState.step⟩

/-! ## Steps -/

/-- A call moves on by itself, and does `acts`. -/
inductive CallMove : WritePc → List WriteAct → WritePc → Prop
  | cmd : CallMove .allocCmd [.alloc] .copyCmd
  | noCmd : CallMove .allocCmd [] (.errTask .cmdAlloc)
  | copied : CallMove .copyCmd [] .allocTask
  | notCopied : CallMove .copyCmd [] (.errCopy .copy)
  | task : CallMove .allocTask [] .addTask
  | noTask : CallMove .allocTask [] (.errCopy .taskAlloc)
  | free (f : WriteFault) : CallMove (.errCopy f) [.free] (.errTask f)

/-- Neither before nor after such a move the call has come to an end. -/
theorem CallMove.over_eq {pc pc' : WritePc} {acts : List WriteAct} (h : CallMove pc acts pc') :
    pc.over = false ∧ pc'.over = false := by
  cases h <;> exact ⟨rfl, rfl⟩

/-- On the error path there is no task, so the call dies. -/
theorem rollback_dies (call : WriteCall) (f : WriteFault) :
    call.rollback f = call.goto (.died f) [.lower call.ctx, .useTask f.taskPtr] := by
  cases f <;> rfl

/-- What a step does. -/
inductive WriteStep (x : WriteState) : WriteLabel → WriteState → Prop
  | sys (l : Label) (s : State) (hl : l.isWrite = false) (hs : system.step x.sys l = some s) :
      WriteStep x (.sys l) { x with sys := s }
  | refused (b : BufId) (c : CtxId) (count : Nat) (f : WriteFault)
      (hf : f = .align ∨ f = .destroyed) :
      WriteStep x (.write b count) (x.add ⟨b, c, count, 0, .returned (some f), []⟩)
  | raised (b : BufId) (c : CtxId) (count : Nat) (s : State) (hc : (x.sys.bufs b).ctx = c)
      (hs : system.step x.sys (.write b count) = some s)
      (hcall : s.calls x.sys.nCall = some (.write b c count)) :
      WriteStep x (.write b count)
        { x.add ⟨b, c, count, x.sys.nCall, .allocCmd, [.raise c]⟩ with sys := s }
  | move (w : Nat) (op : WriteOp) (call : WriteCall) (acts : List WriteAct) (pc : WritePc)
      (hw : x.writes w = some call) (hmove : CallMove call.pc acts pc) :
      WriteStep x (.call w op) (x.set w (call.goto pc acts))
  | queue (w : Nat) (cmd : Nat → Word) (call : WriteCall) (s : State)
      (hw : x.writes w = some call) (hpc : call.pc = .addTask)
      (hs : system.step x.sys (.writeQueue call.id cmd) = some s) :
      WriteStep x (.call w (.addTask cmd))
        { x.set w (call.goto (.returned none) [.queue x.sys.nTask]) with
          sys := s
          arrayOf := Function.update x.arrayOf x.sys.nTask (some w) }
  | rollback (w : Nat) (call : WriteCall) (f : WriteFault) (s : State)
      (hw : x.writes w = some call) (hpc : call.pc = .errTask f)
      (hs : system.step x.sys (.writeFail call.id) = some s) :
      WriteStep x (.call w .rollback)
        { x.set w (call.goto (.died f) [.lower call.ctx, .useTask f.taskPtr]) with sys := s }

variable {x x' : WriteState} {l : WriteLabel}

theorem WriteStep.of_bufferWrite {b : BufId} {count : Nat} (h : x.bufferWrite b count = some x') :
    WriteStep x (.write b count) x' := by
  unfold WriteState.bufferWrite at h
  split at h
  · rename_i hopen
    split at h
    · cases h
      exact .refused b _ count .align (Or.inl rfl)
    · rename_i hmod
      split at h
      · rename_i hfree
        split at h
        · cases h
          exact .refused b _ count .destroyed (Or.inr rfl)
        · rename_i halive
          obtain ⟨s, hs, rfl⟩ := Option.map_eq_some_iff.mp h
          refine .raised b _ count s rfl hs ?_
          have hfree' : x.sys.slockFree = true := (Bool.and_eq_true_iff.mp hfree).1
          have hs' : system.step x.sys (.write b count) = some
              ((x.sys.updCtx (x.sys.bufs b).ctx fun ctx =>
                { ctx with taskCount := ctx.taskCount + 1 }).addCall
                (.write b (x.sys.bufs b).ctx count)) := by
            simp [system, State.step, State.handle, State.dicedevBufferWrite, hopen.1, hopen.2,
              hmod, hfree', halive]
          cases hs.symm.trans hs'
          exact Function.update_self ..
      · cases h
  · cases h

theorem WriteStep.of_callStep {w : Nat} {call : WriteCall} {op : WriteOp}
    (hw : x.writes w = some call) (h : x.callStep w call op = some x') :
    WriteStep x (.call w op) x' := by
  unfold WriteState.callStep at h
  split at h
  · rename_i ok hpc
    cases h
    cases ok with
    | true => exact .move w _ call _ _ hw (hpc ▸ .cmd)
    | false => exact .move w _ call _ _ hw (hpc ▸ .noCmd)
  · rename_i ok hpc
    cases h
    cases ok with
    | true => exact .move w _ call _ _ hw (hpc ▸ .copied)
    | false => exact .move w _ call _ _ hw (hpc ▸ .notCopied)
  · rename_i ok hpc
    cases h
    cases ok with
    | true => exact .move w _ call _ _ hw (hpc ▸ .task)
    | false => exact .move w _ call _ _ hw (hpc ▸ .noTask)
  · rename_i cmd hpc
    split at h
    · obtain ⟨s, hs, rfl⟩ := Option.map_eq_some_iff.mp h
      exact .queue w cmd call s hw hpc hs
    · cases h
  · rename_i f hpc
    cases h
    exact .move w _ call _ _ hw (hpc ▸ .free f)
  · rename_i f hpc
    split at h
    · obtain ⟨s, hs, rfl⟩ := Option.map_eq_some_iff.mp h
      rw [rollback_dies]
      exact .rollback w call f s hw hpc hs
    · cases h
  · cases h

theorem WriteStep.of_step (h : writeSystem.step x l = some x') : WriteStep x l x' := by
  cases l with
  | sys l =>
    change (if l.isWrite ∨ _ then none else _) = some x' at h
    split at h
    · cases h
    · rename_i hl
      obtain ⟨s, hs, rfl⟩ := Option.map_eq_some_iff.mp h
      exact .sys l s (Bool.eq_false_iff.mpr fun hwrite => hl (Or.inl hwrite)) hs
  | write b count => exact .of_bufferWrite h
  | call w op =>
    obtain ⟨call, hw, hcall⟩ := Option.bind_eq_some_iff.mp h
    exact .of_callStep hw hcall

theorem writeSystem_sys (h : writeSystem.Reachable x) : Reachable x.sys := by
  refine Machine.ReachableBy.project (f := WriteState.sys) rfl ?_ h
  intro x l x' hstep
  cases WriteStep.of_step hstep with
  | sys l s _ hs => exact ⟨[l], Machine.exec_cons_some.mpr ⟨s, hs, rfl⟩⟩
  | refused | move => exact ⟨[], rfl⟩
  | raised b c count s _ hs => exact ⟨[_], Machine.exec_cons_some.mpr ⟨s, hs, rfl⟩⟩
  | queue w cmd call s _ _ hs => exact ⟨[_], Machine.exec_cons_some.mpr ⟨s, hs, rfl⟩⟩
  | rollback w call f s _ _ hs => exact ⟨[_], Machine.exec_cons_some.mpr ⟨s, hs, rfl⟩⟩

/-! ## What a call has done -/

/-- What a call with this fault has done when it comes to `err_task`. -/
def WriteFault.acts (c : CtxId) : WriteFault → List WriteAct
  | .align | .destroyed => []
  | .cmdAlloc => [.raise c]
  | .copy | .taskAlloc => [.raise c, .alloc, .free]

/-- The fault comes after `task_count` has been raised. -/
def WriteFault.Late (f : WriteFault) : Prop := f ≠ .align ∧ f ≠ .destroyed

/-- What a call has done is known from where it is. -/
def ActsOf (c : CtxId) (acts : List WriteAct) : WritePc → Prop
  | .allocCmd => acts = [.raise c]
  | .copyCmd | .allocTask | .addTask => acts = [.raise c, .alloc]
  | .errCopy f => (f = .copy ∨ f = .taskAlloc) ∧ acts = [.raise c, .alloc]
  | .errTask f => f.Late ∧ acts = f.acts c
  | .returned none => ∃ t, acts = [.raise c, .alloc, .queue t]
  | .returned (some f) => ¬ f.Late ∧ acts = []
  | .died f => f.Late ∧ acts = f.acts c ++ [.lower c, .useTask f.taskPtr]

theorem CallMove.acts {c : CtxId} {pc pc' : WritePc} {acts new : List WriteAct}
    (h : CallMove pc new pc') (hacts : ActsOf c acts pc) : ActsOf c (acts ++ new) pc' := by
  cases h with
  | cmd => exact congrArg (· ++ [WriteAct.alloc]) hacts
  | noCmd => exact ⟨⟨by simp, by simp⟩, (List.append_nil acts).trans hacts⟩
  | copied | task => exact (List.append_nil acts).trans hacts
  | notCopied => exact ⟨Or.inl rfl, (List.append_nil acts).trans hacts⟩
  | noTask => exact ⟨Or.inr rfl, (List.append_nil acts).trans hacts⟩
  | free f =>
    obtain ⟨hf, hacts⟩ := hacts
    rcases hf with rfl | rfl <;> exact ⟨⟨by simp, by simp⟩, congrArg (· ++ [WriteAct.free]) hacts⟩

theorem acts_step {w : Nat} {call : WriteCall}
    (hI : ∀ w call, x.writes w = some call → ActsOf call.ctx call.acts call.pc)
    (hs : WriteStep x l x') (hw : x'.writes w = some call) :
    ActsOf call.ctx call.acts call.pc := by
  cases hs with
  | sys => exact hI w call hw
  | refused b c count f hf =>
    rcases update_eq_some hw with h | h
    · cases h
      refine ⟨fun hlate => ?_, rfl⟩
      rcases hf with rfl | rfl
      · exact hlate.1 rfl
      · exact hlate.2 rfl
    · exact hI w call h
  | raised b c count s =>
    rcases update_eq_some hw with h | h
    · cases h
      rfl
    · exact hI w call h
  | move v op old acts pc hv hmove =>
    rcases update_eq_some hw with h | h
    · cases h
      exact hmove.acts (hI v old hv)
    · exact hI w call h
  | queue v cmd old s hv hpc =>
    rcases update_eq_some hw with h | h
    · cases h
      have hacts := hI v old hv
      rw [hpc] at hacts
      exact ⟨x.sys.nTask, congrArg (· ++ _) hacts⟩
    · exact hI w call h
  | rollback v old f s hv hpc =>
    rcases update_eq_some hw with h | h
    · cases h
      have hacts := hI v old hv
      rw [hpc] at hacts
      exact ⟨hacts.1, congrArg (· ++ _) hacts.2⟩
    · exact hI w call h

theorem acts_reachable (h : writeSystem.Reachable x) {w : Nat} {call : WriteCall}
    (hw : x.writes w = some call) : ActsOf call.ctx call.acts call.pc := by
  have hI : ∀ w call, x.writes w = some call → ActsOf call.ctx call.acts call.pc := by
    refine Machine.Reachable.invariant (I := fun x => ∀ w call, x.writes w = some call →
      ActsOf call.ctx call.acts call.pc) ?_ ?_ h
    · intro w call hw
      cases hw
    · intro x l x' hI hs w call
      exact acts_step hI (WriteStep.of_step hs)
  exact hI w call hw

/-! ## The calls in the system -/

/-- A call in progress is the call of the system with its number, and no two have the same. -/
structure Linked (x : WriteState) : Prop where
  call : ∀ w call, x.writes w = some call → call.InProgress →
    x.sys.calls call.id = some (.write call.buf call.ctx call.count)
  inj : ∀ w w' call call', x.writes w = some call → x.writes w' = some call' →
    call.InProgress → call'.InProgress → call.id = call'.id → w = w'

variable {s s' : State}

/-- The call of a write is not touched by the other steps. -/
theorem write_call_step {l : Label} (hr : Reachable s) (hs : Step s l s') {k : CallId} {b : BufId}
    {c : CtxId} {n : Nat} (hk : s.calls k = some (.write b c n)) (hfail : l ≠ .writeFail k)
    (hqueue : ∀ cmd, l ≠ .writeQueue k cmd) : s'.calls k = some (.write b c n) := by
  have hlt := Names.call_lt (scope_reachable hr) hk
  have hnew : ∀ o, Function.update s.calls s.nCall o k = some (.write b c n) := fun o =>
    (Function.update_of_ne (Nat.ne_of_lt hlt) ..).trans hk
  have hother : ∀ {j : CallId} {call : Call} (o : Option Call), s.calls j = some call →
      call ≠ .write b c n → Function.update s.calls j o k = some (.write b c n) := by
    intro j call o hj hne
    refine (Function.update_of_ne ?_ ..).trans hk
    rintro rfl
    exact hne (Option.some_inj.mp (hj.symm.trans hk))
  cases hs with
  | run | wait | write => exact hnew _
  | runCount j _ _ _ _ _ hcall | runQueue j _ _ _ _ _ hcall | waitLeave j _ _ hcall
  | waitReturn j _ _ hcall => exact hother _ hcall (by simp)
  | writeFail j =>
    exact (Function.update_of_ne (fun h => hfail (by rw [h])) ..).trans hk
  | writeQueue j cmd =>
    exact (Function.update_of_ne (fun h => hqueue cmd (by rw [h])) ..).trans hk
  | _ => exact hk

/-- The calls keep different numbers when one of them is written. -/
theorem inj_update {f : Nat → Option WriteCall} {w : Nat} {new : WriteCall}
    (hinj : ∀ v v' call call', f v = some call → f v' = some call' →
      call.InProgress → call'.InProgress → call.id = call'.id → v = v')
    (hne : ∀ v call, v ≠ w → f v = some call → call.InProgress → new.InProgress →
      call.id ≠ new.id) (v v' : Nat) (call call' : WriteCall)
    (hv : Function.update f w (some new) v = some call)
    (hv' : Function.update f w (some new) v' = some call') (hprog : call.InProgress)
    (hprog' : call'.InProgress) (hid : call.id = call'.id) : v = v' := by
  rcases update_some_cases hv with ⟨rfl, hcall⟩ | ⟨hvw, hcall⟩
  · cases hcall
    rcases update_some_cases hv' with ⟨rfl, -⟩ | ⟨hvw', hcall'⟩
    · rfl
    · exact absurd hid.symm (hne v' call' hvw' hcall' hprog' hprog)
  · rcases update_some_cases hv' with ⟨rfl, hcall'⟩ | ⟨-, hcall'⟩
    · cases hcall'
      exact absurd hid (hne v call hvw hcall hprog hprog')
    · exact hinj v v' call call' hcall hcall' hprog hprog' hid

namespace Linked

/-- The call `w` goes on, and the system may have done something too. -/
theorem set (h : Linked x) {w : Nat} {old new : WriteCall} (hw : x.writes w = some old)
    (arrayOf : TaskId → Option Nat)
    (hnew : new.InProgress → old.InProgress ∧ new.id = old.id ∧
      s.calls new.id = some (.write new.buf new.ctx new.count))
    (hold : ∀ v call, v ≠ w → x.writes v = some call → call.InProgress →
      s.calls call.id = some (.write call.buf call.ctx call.count)) :
    Linked { x.set w new with sys := s, arrayOf := arrayOf } := by
  refine ⟨?_, ?_⟩
  · intro v call hv hprog
    rcases update_some_cases hv with ⟨-, hcall⟩ | ⟨hne, hcall⟩
    · cases hcall
      exact (hnew hprog).2.2
    · exact hold v call hne hcall hprog
  · refine inj_update h.inj fun v call hvw hv hprog hprog' hid => ?_
    obtain ⟨hprog', hid', -⟩ := hnew hprog'
    exact hvw (h.inj v w call old hv hw hprog hprog' (hid.trans hid'))

/-- A new call. -/
theorem add (h : Linked x) {new : WriteCall}
    (hnew : new.InProgress → s.calls new.id = some (.write new.buf new.ctx new.count) ∧
      x.sys.calls new.id = none)
    (hold : ∀ v call, x.writes v = some call → call.InProgress →
      s.calls call.id = some (.write call.buf call.ctx call.count)) :
    Linked { x.add new with sys := s } := by
  refine ⟨?_, ?_⟩
  · intro v call hv hprog
    rcases update_some_cases hv with ⟨-, hcall⟩ | ⟨-, hcall⟩
    · cases hcall
      exact (hnew hprog).1
    · exact hold v call hcall hprog
  · refine inj_update h.inj fun v call _ hv hprog hprog' hid => ?_
    have hcall := h.call v call hv hprog
    rw [hid, (hnew hprog').2] at hcall
    cases hcall

theorem step (hr : Reachable x.sys) (h : Linked x) (hs : WriteStep x l x') : Linked x' := by
  cases hs with
  | sys l s hl hs =>
    refine ⟨fun w call hw hprog => ?_, h.inj⟩
    refine write_call_step hr (Step.of_step hs) (h.call w call hw hprog) ?_ ?_
    · rintro rfl
      cases hl
    · rintro cmd rfl
      cases hl
  | refused b c count f => exact h.add (fun hprog => by cases hprog) h.call
  | raised b c count s hc hs hcall =>
    refine h.add (fun _ => ⟨hcall, ?_⟩) fun w call hw hprog => ?_
    · refine Option.eq_none_iff_forall_ne_some.mpr fun call hcall => ?_
      exact Nat.lt_irrefl _ (Names.call_lt (scope_reachable hr) hcall)
    · exact write_call_step hr (Step.of_step hs) (h.call w call hw hprog) (by simp) (by simp)
  | move w op call acts pc hw hmove =>
    have hprog : call.InProgress := hmove.over_eq.1
    refine h.set hw x.arrayOf (fun _ => ⟨hprog, rfl, h.call w call hw hprog⟩) ?_
    exact fun v other _ hv => h.call v other hv
  | queue w cmd call s hw hpc hs =>
    have hprog : call.InProgress := congrArg WritePc.over hpc
    refine h.set hw _ (fun hnew => by cases hnew) fun v other hne hv hprog' => ?_
    refine write_call_step hr (Step.of_step hs) (h.call v other hv hprog') (by simp) ?_
    intro cmd' heq
    refine hne (h.inj v w other call hv hw hprog' hprog ?_)
    injection heq with hid
    exact hid.symm
  | rollback w call f s hw hpc hs =>
    have hprog : call.InProgress := congrArg WritePc.over hpc
    refine h.set hw _ (fun hnew => by cases hnew) fun v other hne hv hprog' => ?_
    refine write_call_step hr (Step.of_step hs) (h.call v other hv hprog') ?_ (by simp)
    intro heq
    refine hne (h.inj v w other call hv hw hprog' hprog ?_)
    injection heq with hid
    exact hid.symm

end Linked

theorem linked_reachable (h : writeSystem.Reachable x) : Linked x := by
  refine Machine.Reachable.invariant_of (J := fun x => Reachable x.sys)
    (fun _ => writeSystem_sys) ?_ ?_ h
  · refine ⟨?_, ?_⟩
    · intro w call hw
      cases hw
    · intro w w' call call' hw
      cases hw
  · exact fun _ _ _ hr hI hs => hI.step hr (WriteStep.of_step hs)

/-! ## Failing calls -/

/-- What a call that fails at `f` is to leave behind: the error, no task, no allocation, and
every `task_count` as it was apart from what others did. -/
structure RolledBack (call : WriteCall) (f : WriteFault) : Prop where
  error : call.result = some (.error f.errno)
  noTask : ∀ t, .queue t ∉ call.acts
  noAlloc : call.acts.count .alloc = call.acts.count .free
  counts : ∀ c, call.acts.count (.raise c) = call.acts.count (.lower c)

/-- The call has failed and nothing is wrong: if it had raised `task_count` it has woken the
waiters of the context, and it has not used a task that is not there. -/
structure CleanFailure (call : WriteCall) (f : WriteFault) : Prop extends RolledBack call f where
  wakes : ∀ c, .raise c ∈ call.acts → .wake c ∈ call.acts
  noPointer : ∀ p, .useTask p ∉ call.acts

/-- A call that fails early has done nothing. -/
theorem clean_of_returned {call : WriteCall} {f : WriteFault} (hpc : call.pc = .returned (some f))
    (h : ActsOf call.ctx call.acts call.pc) : CleanFailure call f := by
  have hresult : call.result = some (.error f.errno) := by rw [WriteCall.result, hpc]
  rw [hpc] at h
  have hnil : call.acts = [] := h.2
  refine ⟨⟨hresult, ?_, ?_, ?_⟩, ?_, ?_⟩
  all_goals simp [hnil]

/-- A call that has died has read through its `task` and returns nothing. -/
theorem not_clean_of_died {call : WriteCall} {f : WriteFault} (hpc : call.pc = .died f)
    (h : ActsOf call.ctx call.acts call.pc) : ¬ CleanFailure call f := by
  rw [hpc] at h
  intro hclean
  refine hclean.noPointer f.taskPtr ?_
  rw [h.2]
  simp

/-- A call that has come to an end takes no step. -/
theorem no_step_of_over {w : Nat} {call : WriteCall} (hw : x.writes w = some call)
    (hover : call.pc.over = true) (op : WriteOp) : writeSystem.step x (.call w op) = none := by
  refine Option.eq_none_iff_forall_ne_some.mpr fun x' hs => ?_
  have hgoing : ∀ {old : WriteCall}, x.writes w = some old → old.pc.over = false → False := by
    intro old hold hgoes
    cases hw.symm.trans hold
    rw [hover] at hgoes
    cases hgoes
  cases WriteStep.of_step hs with
  | move _ _ old _ _ hold hmove => exact hgoing hold hmove.over_eq.1
  | queue _ _ old _ hold hpc => exact hgoing hold (congrArg WritePc.over hpc)
  | rollback _ old _ _ hold hpc => exact hgoing hold (congrArg WritePc.over hpc)

/-- A call at `err_task` takes its last step. -/
theorem rollback_step (h : writeSystem.Reachable x) {w : Nat} {call : WriteCall}
    (hw : x.writes w = some call) {f : WriteFault} (hpc : call.pc = .errTask f)
    (hfree : x.slockFree = true) (hbug : x.sys.bug = none) :
    ∃ x' call', writeSystem.step x (.call w .rollback) = some x' ∧ x'.writes w = some call' ∧
      call'.pc = .died f := by
  have hcall := (linked_reachable h).call w call hw (congrArg WritePc.over hpc)
  have hfree' : x.sys.slockFree = true := (Bool.and_eq_true_iff.mp hfree).1
  obtain ⟨s, hs⟩ : ∃ s, system.step x.sys (.writeFail call.id) = some s := by
    simp [system, State.step, State.handle, bufferWriteFail, hbug, hcall, hfree']
  refine ⟨{ x.set w (call.rollback f) with sys := s }, _, ?_, Function.update_self .., ?_⟩
  · change (x.writes w).bind _ = _
    rw [hw, Option.bind_some]
    unfold WriteState.callStep
    rw [hpc]
    dsimp only
    rw [if_pos hfree, hs]
    rfl
  · rw [rollback_dies]
    rfl

/-- A call at `err_copy` frees its array and goes on to `err_task`. -/
theorem freeCmd_step {w : Nat} {call : WriteCall} (hw : x.writes w = some call) {f : WriteFault}
    (hpc : call.pc = .errCopy f) :
    writeSystem.step x (.call w .freeCmd) =
      some (x.set w (call.goto (.errTask f) [.free])) := by
  change (x.writes w).bind _ = _
  rw [hw, Option.bind_some]
  unfold WriteState.callStep
  rw [hpc]

/-- The call that frees its array does not hold `slock`. -/
theorem slockFree_set {w : Nat} {call new : WriteCall} (hw : x.writes w = some call)
    (hnew : new.keepsSlock = call.keepsSlock) : (x.set w new).slockFree = x.slockFree := by
  have hkeeps : ∀ v, (((x.set w new).writes v).any WriteCall.keepsSlock) =
      ((x.writes v).any WriteCall.keepsSlock) := by
    intro v
    change ((Function.update x.writes w (some new) v).any WriteCall.keepsSlock) = _
    by_cases hv : v = w
    · rw [hv, Function.update_self, hw]
      exact hnew
    · rw [Function.update_of_ne hv]
  unfold WriteState.slockFree
  simp only [hkeeps]
  rfl

/-- An aligned write that finds no memory for its commands. -/
def noCmdMemory : List WriteLabel :=
  openOne.map .sys ++ [.write 0 4] ++ [.allocCmd false, .rollback].map (.call 0)

/-- An aligned write that finds no memory for its task. -/
def noTaskMemory : List WriteLabel :=
  openOne.map .sys ++ [.write 0 4] ++
    [.allocCmd true, .copyCmd true, .allocTask false, .freeCmd, .rollback].map (.call 0)

end Dicedev
