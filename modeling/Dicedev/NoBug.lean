import Dicedev.Lib.Fair
import Dicedev.Memory
import Dicedev.RunLoop

/-!
# No `BUG_ON` fires

The `BUG_ON`s of the slots and of the fences are dealt with where the slots and the fences are.
What remains are those of the queue, which are behind the tests that led to the event, and
that of `dicedev_task_get_next_word`: the loop of `__wt_run_task` goes by `bytes_left`, the
iterator of a write by its own offset, and the two must not part. They do part at a `GET_DIE`
without its mask, and only there (`WholeCommands`). Without one no `BUG_ON` of the driver ever
fires, `no_bug`.
-/

namespace Dicedev

open State

variable {s s' : State} {l : Label} {t : TaskId}

/-! ## One pass -/

section

variable {mem : BufId → Nat → Nat → Word} {task task' : Task} {w : Word} {left left' n : Nat}

/-- The iterator of a write is one word further. -/
theorem taskGetNextWord_write (h : taskGetNextWord mem task = .ok (w, task')) {y : TaskWrite}
    (hy : task'.body = .write y) :
    ∃ x, task.body = .write x ∧ y = { x with itOffset := x.itOffset + 1 } := by
  unfold taskGetNextWord at h
  cases hbody : task.body with
  | write x =>
    rw [hbody] at h
    dsimp only at h
    split at h
    · cases h
    · cases h
      cases hy
      exact ⟨x, rfl, rfl⟩
  | run r =>
    rw [hbody] at h
    cases h
    cases hy

theorem taskGetNextWord_ok (mem : BufId → Nat → Nat → Word)
    (h : ∀ x, task.body = .write x → x.itOffset < x.cmdSize) :
    ∃ w task', taskGetNextWord mem task = .ok (w, task') := by
  unfold taskGetNextWord
  cases hbody : task.body with
  | write x =>
    have hne : x.cmdSize ≠ x.itOffset := Nat.ne_of_gt (h x hbody)
    exact ⟨_, _, if_neg hne⟩
  | run r => exact ⟨_, _, rfl⟩

/-- The next word is the header of a `GET_DIE`. -/
def HeadsGetDie (mem : BufId → Nat → Nat → Word) (task : Task) : Prop :=
  ∃ w task', taskGetNextWord mem task = .ok (w, task') ∧
    w &&& cmdTypeMask = userCmdTypeGetDie

/-- A pass of the loop after which `left'` bytes are left. -/
structure Moves (mem : BufId → Nat → Nat → Word) (task task' : Task) (left left' n : Nat) :
    Prop where
  pos : 0 < n
  left_eq : left' = sizeSub left (4 * n)
  words : n = 1 ∨ n = 2 ∧ HeadsGetDie mem task
  offset : ∀ y, task'.body = .write y →
    ∃ x, task.body = .write x ∧ y = { x with itOffset := x.itOffset + n }

theorem newSetPass_body (slot : Option Slot) (w : Word) (task : Task) (left : Nat) :
    (newSetPass slot w task left).1.body = task.body := by
  unfold newSetPass
  split <;> rfl

theorem getDiePass_body (allowed : Word) (slot : Option Slot) (w m : Word) (task : Task)
    (left : Nat) : (getDiePass allowed slot w m task left).1.body = task.body := by
  unfold getDiePass
  split
  · rfl
  · split <;> rfl

theorem newSetPass_left {slot : Option Slot}
    (h : (newSetPass slot w task left).2.left? = some left') : left' = sizeSub left 4 := by
  unfold newSetPass at h
  split at h
  · cases h
  · exact (Option.some.inj h).symm

theorem getDiePass_left {allowed : Word} {slot : Option Slot} {m : Word}
    (h : (getDiePass allowed slot w m task left).2.left? = some left') :
    left' = sizeSub left 8 := by
  unfold getDiePass at h
  split at h
  · cases h
  · split at h
    · cases h
    · exact (Option.some.inj h).symm

theorem moves_of_pass {allowed : Word} {slot : Option Slot} {pass : Pass}
    (h : runTaskPass mem allowed slot task left = .ok (task', pass))
    (hleft : pass.left? = some left') : ∃ n, Moves mem task task' left left' n := by
  unfold runTaskPass at h
  split at h
  · cases h
  · rename_i w t₁ hget
    split at h
    · obtain ⟨rfl, rfl⟩ := Prod.mk.inj (Except.ok.inj h)
      exact ⟨1, Nat.one_pos, (Option.some.inj hleft).symm, Or.inl rfl,
        fun y => taskGetNextWord_write hget⟩
    · split at h
      · rename_i hdie
        split at h
        · obtain ⟨rfl, rfl⟩ := Prod.mk.inj (Except.ok.inj h)
          cases hleft
        · split at h
          · cases h
          · rename_i m t₂ hget'
            obtain ⟨rfl, rfl⟩ := Prod.ext_iff.mp (Except.ok.inj h)
            refine ⟨2, Nat.two_pos, getDiePass_left hleft, Or.inr ⟨rfl, w, t₁, hget, hdie⟩, ?_⟩
            intro z hz
            rw [getDiePass_body] at hz
            obtain ⟨y, hy, rfl⟩ := taskGetNextWord_write hget' hz
            obtain ⟨x, hx, rfl⟩ := taskGetNextWord_write hget hy
            exact ⟨x, hx, rfl⟩
      · split at h
        · obtain ⟨rfl, rfl⟩ := Prod.ext_iff.mp (Except.ok.inj h)
          refine ⟨1, Nat.one_pos, newSetPass_left hleft, Or.inl rfl, fun y hy => ?_⟩
          rw [newSetPass_body] at hy
          exact taskGetNextWord_write hget hy
        · obtain ⟨rfl, rfl⟩ := Prod.mk.inj (Except.ok.inj h)
          cases hleft

/-- Before a pass the iterator of a write and `bytes_left` agree. -/
structure InStep (task : Task) (left : Nat) : Prop where
  aligned : left % 4 = 0
  bound : left < 2 ^ 64
  offset : ∀ x, task.body = .write x → 4 * x.itOffset + left = x.cmdSize

/-- A pass over a whole command reads no more than what is left. -/
theorem InStep.read (h : InStep task left) (hpos : left ≠ 0)
    (hwhole : left = 4 → ¬ HeadsGetDie mem task) (hmoves : Moves mem task task' left left' n) :
    left' + 4 * n = left := by
  have haligned := h.aligned
  have hbound := h.bound
  have hle : 4 * n ≤ left := by
    rcases hmoves.words with rfl | ⟨rfl, hdie⟩
    · omega
    · have hfour : left ≠ 4 := fun hl => hwhole hl hdie
      omega
  rw [hmoves.left_eq, sizeSub]
  omega

theorem InStep.next (h : InStep task left) (hpos : left ≠ 0)
    (hwhole : left = 4 → ¬ HeadsGetDie mem task) (hmoves : Moves mem task task' left left' n) :
    InStep task' left' := by
  have hread := h.read hpos hwhole hmoves
  have haligned := h.aligned
  have hbound := h.bound
  refine ⟨by omega, by omega, fun y hy => ?_⟩
  obtain ⟨x, hx, rfl⟩ := hmoves.offset y hy
  have hoffset := h.offset x hx
  change 4 * (x.itOffset + n) + left' = x.cmdSize
  omega

/-- There is a word to read for every word of a whole command. -/
theorem InStep.pass_ok (h : InStep task left) (hpos : left ≠ 0)
    (hwhole : left = 4 → ¬ HeadsGetDie mem task) (allowed : Word) (slot : Option Slot) :
    ∃ r, runTaskPass mem allowed slot task left = .ok r := by
  have haligned := h.aligned
  have hfirst : ∀ x, task.body = .write x → x.itOffset < x.cmdSize := by
    intro x hx
    have hoffset := h.offset x hx
    omega
  obtain ⟨w, t₁, hget⟩ := taskGetNextWord_ok mem hfirst
  unfold runTaskPass
  simp only [hget]
  split
  · exact ⟨_, rfl⟩
  · split
    · rename_i hdie
      have hfour : left ≠ 4 := fun hl => hwhole hl ⟨w, t₁, hget, hdie⟩
      have hsecond : ∀ y, t₁.body = .write y → y.itOffset < y.cmdSize := by
        intro y hy
        obtain ⟨x, hx, rfl⟩ := taskGetNextWord_write hget hy
        have hoffset := h.offset x hx
        change x.itOffset + 1 < x.cmdSize
        omega
      obtain ⟨m, t₂, hget'⟩ := taskGetNextWord_ok mem hsecond
      rw [hget']
      split <;> exact ⟨_, rfl⟩
    · split <;> exact ⟨_, rfl⟩

end

/-! ## Sizes -/

/-- The bytes of commands that a call is going to queue. -/
def Call.bytes : Call → Nat
  | .run _ _ _ _ size _ => size
  | .write _ _ count => count
  | .wait _ _ _ => 0

/-- The next word of task `t`. -/
def State.nextWord? (s : State) (t : TaskId) : Option Word :=
  match taskGetNextWord (fun b => (s.bufs b).page) (s.tasks t) with
  | .ok (w, _) => some w
  | .error _ => none

/-- The last word of a task is not the header of a `GET_DIE`, and `count` is a `size_t`. -/
def WholeCommands (s : State) : Label → Prop
  | .worker => s.pc = .running 4 → ∀ t ∈ s.runningTask, ∀ w ∈ s.nextWord? t,
      w &&& cmdTypeMask ≠ userCmdTypeGetDie
  | .write _ count => count < 2 ^ 64
  | _ => True

instance (s : State) (l : Label) : Decidable (WholeCommands s l) := by
  apply @Label.casesOn (fun l => Decidable (WholeCommands s l)) l <;> intros <;>
    unfold WholeCommands <;> infer_instance

theorem not_headsGetDie (hC : WholeCommands s .worker) (hpc : s.pc = .running 4)
    (hrun : s.runningTask = some t) :
    ¬ HeadsGetDie (fun b => (s.bufs b).page) (s.tasks t) := by
  rintro ⟨w, t', hget, hdie⟩
  refine hC hpc t hrun w ?_ hdie
  unfold State.nextWord?
  rw [hget]
  rfl

/-- A number of bytes that is a number of words. -/
def WordBytes (n : Nat) : Prop := n % 4 = 0 ∧ n < 2 ^ 64

/-- Every size is a number of words, and the loop of the running task is in step with its
iterator. -/
structure Sized (s : State) : Prop where
  calls : ∀ k call, s.calls k = some call → WordBytes call.bytes
  tasks : ∀ t < s.nTask, WordBytes (taskBytes (s.tasks t))
  loop : ∀ t left, s.pc.loopAt s.runningTask = some (t, left) → InStep (s.tasks t) left

/-- A call comes with its size, and keeps it. -/
theorem call_bytes_step (hs : system.step s l = some s') (hC : WholeCommands s l)
    (hcalls : ∀ k call, s.calls k = some call → WordBytes call.bytes) {k : CallId} {call : Call}
    (hcall : s'.calls k = some call) : WordBytes call.bytes := by
  have hset : ∀ {j : CallId} {o : Option Call}, (∀ call ∈ o, WordBytes call.bytes) →
      Function.update s.calls j o k = some call → WordBytes call.bytes := by
    intro j o ho hk
    by_cases hkj : k = j
    · subst hkj
      rw [Function.update_self] at hk
      exact ho call hk
    · rw [Function.update_of_ne hkj] at hk
      exact hcalls k call hk
  have hhandle := handle_of_step hs
  cases Step.of_step hs with
  | run c cb db addr size shared alloc _ _ _ hcheck =>
    refine hset ?_ hcall
    rintro _ ⟨⟩
    exact ⟨(ioctlRunCheck_aligned hcheck).2, Nat.lt_trans size.isLt (by decide)⟩
  | runCount k c cb db addr size hold =>
    refine hset ?_ hcall
    rintro _ ⟨⟩
    exact (hcalls _ _ hold :)
  | wait | waitLeave =>
    refine hset ?_ hcall
    rintro _ ⟨⟩
    exact ⟨rfl, Nat.two_pow_pos 64⟩
  | runQueue | waitReturn | writeFail | writeQueue => exact hset (by simp) hcall
  | write b count hfd halive =>
    refine hset ?_ hcall
    rintro _ ⟨⟩
    refine ⟨?_, hC⟩
    by_contra hne
    have hmis : count % 4 ≠ 0 := hne
    change s.dicedevBufferWrite b count = _ at hhandle
    rw [dicedevBufferWrite, if_pos hfd, if_pos hmis] at hhandle
    have hn : s.nCall = s.nCall + 1 := congrArg State.nCall (Option.some.inj hhandle)
    omega
  | _ => exact hcalls k call hcall

/-- The size of a task is that of the call that has queued it. -/
theorem task_bytes_new (hs : Step s l s') (hge : s.nTask ≤ t) (hlt : t < s'.nTask) :
    ∃ k call, s.calls k = some call ∧ taskBytes (s'.tasks t) = call.bytes := by
  have hself : ∀ {k : CallId} {task : Task}, s' = s.queued k task → s'.tasks t = task := by
    rintro k task rfl
    have ht : t = s.nTask := Nat.le_antisymm (Nat.le_of_lt_succ hlt) hge
    subst ht
    exact Function.update_self ..
  cases hs with
  | runQueue k c cb db addr size hcall => exact ⟨k, _, hcall, by rw [hself rfl]; rfl⟩
  | writeQueue k cmd b c count hcall => exact ⟨k, _, hcall, by rw [hself rfl]; rfl⟩
  | _ => exact absurd hlt (Nat.not_lt.mpr hge)

theorem taskBytes_of_asQueued {task task' : Task} (h : task'.asQueued = task.asQueued) :
    taskBytes task' = taskBytes task := by
  rw [← taskBytes_asQueued task', h, taskBytes_asQueued]

/-- A task stays what was queued. -/
theorem asQueued_step (hs : system.step s l = some s') (ht : t < s.nTask) :
    (s'.tasks t).asQueued = (s.tasks t).asQueued := by
  have hupdate : ∀ {u : TaskId} {task : Task}, task.asQueued = (s.tasks u).asQueued →
      s'.tasks = Function.update s.tasks u task →
      (s'.tasks t).asQueued = (s.tasks t).asQueued := by
    intro u task hqueued htasks
    rw [htasks]
    by_cases htu : t = u
    · subst htu
      rw [Function.update_self]
      exact hqueued
    · rw [Function.update_of_ne htu]
  cases LoopStep.of_step hs with
  | start u _ _ htasks => exact hupdate (taskInitIt_asQueued _) htasks
  | pass u left task pass _ _ _ hpass _ htasks =>
    exact hupdate (runTaskPass_asQueued hpass) htasks
  | done u _ _ _ htasks => rw [htasks]
  | quiet htasks => exact (congrArg Task.asQueued (htasks t ht) :)

/-- A task keeps its size. -/
theorem task_bytes_step (hs : system.step s l = some s') (ht : t < s.nTask) :
    taskBytes (s'.tasks t) = taskBytes (s.tasks t) :=
  taskBytes_of_asQueued (asQueued_step hs ht)

/-- The loop begins with all the bytes and the iterator at the first word. -/
theorem InStep.init {task : Task} (h : WordBytes (taskBytes task)) :
    InStep (taskInitIt task) (taskBytes task) := by
  refine ⟨h.1, h.2, ?_⟩
  intro x hx
  obtain ⟨ctx, count, out, body, freed⟩ := task
  cases body with
  | write y =>
    cases hx
    exact Nat.zero_add _
  | run r => cases hx

theorem Sized.step (hr : Reachable s) (h : Sized s) (hC : WholeCommands s l)
    (hs : system.step s l = some s') : Sized s' := by
  refine ⟨fun k call => call_bytes_step hs hC h.calls, ?_, ?_⟩
  · intro t ht
    by_cases hold : t < s.nTask
    · rw [task_bytes_step hs hold]
      exact h.tasks t hold
    · obtain ⟨k, call, hcall, hbytes⟩ := task_bytes_new (Step.of_step hs) (Nat.not_lt.mp hold) ht
      rw [hbytes]
      exact h.calls k call hcall
  · intro t left hat'
    cases LoopStep.of_step hs with
    | start u hstart hn htasks hbufs hat =>
      rw [hat] at hat'
      cases hat'
      rw [htasks, Function.update_self]
      exact .init (h.tasks t (next_lt hr hstart.next))
    | pass u left₀ task pass hpc hrun hleft hpass hn htasks hbufs hat _ hl =>
      rw [hat] at hat'
      obtain ⟨left', hleft', heq⟩ := Option.map_eq_some_iff.mp hat'
      cases heq
      obtain ⟨n, hmoves⟩ := moves_of_pass hpass hleft'
      have hthere : s.pc.loopAt s.runningTask = some (t, left₀) := by
        rw [hpc, hrun]
        rfl
      rw [htasks, Function.update_self]
      refine (h.loop t left₀ hthere).next hleft ?_ hmoves
      rintro rfl
      subst hl
      exact not_headsGetDie hC hpc hrun
    | done u hpc hrun hn htasks hbufs hat =>
      rw [hat] at hat'
      cases hat'
    | quiet htasks hnew hat =>
      rw [hat] at hat'
      have hsame := h.loop t left hat'
      have hbody : (s'.tasks t).body = (s.tasks t).body :=
        (congrArg Task.body (htasks t (running_lt hr (running_of_loopAt hat').2)) :)
      exact ⟨hsame.aligned, hsame.bound, by rw [hbody]; exact hsame.offset⟩

theorem sized_reachable (h : system.ReachableBy WholeCommands s) : Sized s := by
  induction h with
  | init => exact ⟨nofun, fun t ht => absurd ht (Nat.not_lt_zero t), nofun⟩
  | step hr hC hs ih => exact ih.step hr.reachable hC hs

/-- A pass of the loop leaves less to do. -/
theorem left_lt_of_pass (h : system.ReachableBy WholeCommands s) (hC : WholeCommands s .worker)
    {left left' : Nat} {task : Task} {pass : Pass} (hpc : s.pc = .running left)
    (hrun : s.runningTask = some t) (hleft : left ≠ 0)
    (hpass : s.passOf t left = .ok (task, pass)) (hleft' : pass.left? = some left') :
    left' < left := by
  have hat : s.pc.loopAt s.runningTask = some (t, left) := by
    rw [hpc, hrun]
    rfl
  obtain ⟨n, hmoves⟩ := moves_of_pass hpass hleft'
  have hwhole : left = 4 → ¬ HeadsGetDie (fun b => (s.bufs b).page) (s.tasks t) := by
    rintro rfl
    exact not_headsGetDie hC hpc hrun
  have hread := ((sized_reachable h).loop t left hat).read hleft hwhole hmoves
  have hpos := hmoves.pos
  omega

/-! ## The worker -/

/-- Addresses are not reused too early, and commands are whole. -/
def Orderly (s : State) (l : Label) : Prop := AddrFresh s l ∧ WholeCommands s l

instance (s : State) (l : Label) : Decidable (Orderly s l) := inferInstanceAs (Decidable (_ ∧ _))

theorem wtHandle_ok (h : system.ReachableBy AddrFresh s) {e : WtEvent} (hpc : s.pc = .event e) :
    ∃ s', s.wtHandle e = .ok s' := by
  have hr := h.reachable
  have hagrees := (ctl_reachable hr).agrees hpc
  cases e with
  | noEvent | stop | park => exact ⟨_, rfl⟩
  | taskGetNext =>
    obtain ⟨t, rest, hpend⟩ := List.exists_cons_of_ne_nil hagrees.2
    simp only [wtHandle, wtTaskGetNext, hpend]
    split <;> exact ⟨_, rfl⟩
  | taskBindSlot =>
    obtain ⟨t, hnext⟩ := Option.ne_none_iff_exists'.mp hagrees.1
    obtain ⟨i, hi, hempty⟩ := (slots_reachable hr).getSlot hpc
    simp only [wtHandle, wtTaskBindSlot, hnext, hi, State.bindSlot, hempty]
    exact ⟨_, rfl⟩
  | taskRun =>
    obtain ⟨t, hnext⟩ := Option.ne_none_iff_exists'.mp hagrees.1
    have hbound : (s.bufs (s.tasks t).buffOut).bindedSlot ≠ none :=
      runReady_reachable h hpc t hnext
    simp only [wtHandle, wtTaskRun, hnext, if_neg hbound]
    exact ⟨_, rfl⟩
  | taskFinish =>
    obtain ⟨t, hrun⟩ := Option.ne_none_iff_exists'.mp (running_of_reached hr hagrees)
    simp only [wtHandle, hrun]
    exact ⟨_, rfl⟩

/-- The worker does not run into a `BUG_ON`. -/
theorem wtStep_ok (h : system.ReachableBy AddrFresh s) (hsized : Sized s)
    (hC : WholeCommands s .worker) {r : Except Bug State} (hs : s.wtStep = some r) :
    ∃ s', r = .ok s' := by
  have hr := h.reachable
  unfold wtStep at hs
  cases hpc : s.pc with
  | head | polled | account | shutdown | finishing =>
    rw [hpc] at hs
    exact ⟨_, (Option.some.inj hs).symm⟩
  | asleep | hung | exited =>
    rw [hpc] at hs
    cases hs
  | event e =>
    rw [hpc] at hs
    obtain ⟨s', hs'⟩ := wtHandle_ok h hpc
    exact ⟨s', (Option.some.inj hs).symm.trans hs'⟩
  | parked =>
    rw [hpc] at hs
    dsimp only at hs
    split at hs
    · cases hs
    · exact ⟨_, (Option.some.inj hs).symm⟩
  | running left =>
    rw [hpc] at hs
    obtain ⟨t, hrun⟩ := Option.ne_none_iff_exists'.mp ((ctl_reachable hr).agrees hpc).1
    have hat : s.pc.loopAt s.runningTask = some (t, left) := by
      rw [hpc, hrun]
      rfl
    rw [← Option.some.inj hs]
    unfold wtRunTask
    simp only [hrun]
    split
    · exact ⟨_, rfl⟩
    · rename_i hleft
      have hwhole : left = 4 → ¬ HeadsGetDie (fun b => (s.bufs b).page) (s.tasks t) := by
        rintro rfl
        exact not_headsGetDie hC hpc hrun
      obtain ⟨x, hx⟩ := (hsized.loop t left hat).pass_ok hleft hwhole
        (s.bufs (s.tasks t).buffOut).allowed (s.bufs (s.tasks t).buffOut).bindedSlot
      rw [hx]
      exact ⟨_, rfl⟩
  | fencing =>
    rw [hpc] at hs
    obtain ⟨t, hrun⟩ := Option.ne_none_iff_exists'.mp ((ctl_reachable hr).agrees hpc).1
    rw [← Option.some.inj hs]
    unfold wtFence
    simp only [hrun]
    exact ⟨_, rfl⟩
  | destroy t c =>
    rw [hpc] at hs
    rw [← Option.some.inj hs]
    unfold taskDestroyUnbind
    dsimp only
    split
    · rw [unbindIfBound_eq]
      exact ⟨_, rfl⟩
    · exact ⟨_, rfl⟩

theorem bug_eq_none (h : system.ReachableBy Orderly s) : s.bug = none := by
  cases h with
  | init => rfl
  | @step s₀ _ l h hC hs =>
    have hfresh := h.mono fun _ _ hC => hC.1
    have hhandle := handle_of_step hs
    have hbug := bug_of_step hs
    cases Step.of_step hs with
    | halt _ b hl =>
      rcases hl with rfl | rfl
      · obtain ⟨r, hisr, hres⟩ := Option.map_eq_some_iff.mp hhandle
        obtain ⟨s', rfl, hsame⟩ := isr_explained hisr (running_of_intr h.reachable)
        rw [← hres]
        exact hsame.trans hbug
      · obtain ⟨r, hwt, hres⟩ := Option.map_eq_some_iff.mp hhandle
        obtain ⟨s', rfl⟩ := wtStep_ok hfresh (sized_reachable (h.mono fun _ _ hC => hC.2)) hC.2 hwt
        rw [← hres]
        exact (explains_wtStep hwt).trans hbug
    | _ => exact hbug

/-- No `BUG_ON` of the driver fires, in any interleaving of its users, its worker and its
interrupts, and in the loop of a write `bytes_left` is what the iterator has left. -/
theorem no_bug (h : system.ReachableBy Orderly s) :
    s.bug = none ∧ ∀ t left w, s.pc = .running left → s.runningTask = some t →
      (s.tasks t).body = .write w → 4 * w.itOffset + left = w.cmdSize := by
  refine ⟨bug_eq_none h, fun t left w hpc hrun hbody => ?_⟩
  have hat : s.pc.loopAt s.runningTask = some (t, left) := by
    rw [hpc, hrun]
    rfl
  exact ((sized_reachable (h.mono fun _ _ hC => hC.2)).loop t left hat).offset w hbody

/-- A `GET_DIE` has been fed, and the loop is at its end. -/
theorem no_bug_die :
    ∃ s w, system.ReachableBy Orderly s ∧ s.pc = .running 0 ∧ (s.tasks 0).body = .write w ∧
      s.bug = none ∧ 4 * w.itOffset + 0 = w.cmdSize := by
  have hseen : seenBy Orderly (openOne ++ writeCall 0 0 8 oneDie ++ workerSteps 10)
      (fun s => (s.pc, s.runningTask, (s.tasks 0).isRun)) = some (.running 0, some 0, false) := by
    decide +kernel
  obtain ⟨s, hr, hs⟩ := exists_seenBy hseen
  simp only [Prod.mk.injEq] at hs
  obtain ⟨hpc, hrun, hwrite⟩ := hs
  obtain ⟨hbug, hloop⟩ := no_bug hr
  cases hbody : (s.tasks 0).body with
  | write w => exact ⟨s, w, hr, hpc, hbody, hbug, hloop 0 0 w hpc hrun hbody⟩
  | run x =>
    rw [Task.isRun, hbody] at hwrite
    cases hwrite

end Dicedev
