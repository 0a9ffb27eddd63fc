import Dicedev.Buffers
import Dicedev.Fences

/-!
# What a step dereferences

Contexts, buffers and tasks are allocated and freed by different parts of the driver: a context
by the last close of its file, a buffer by that of its own, a task by the worker. They point to
each other without counting. `State.touches` lists, for every label, the objects whose memory
the code of that step reads or writes, neighbours in the kernel's lists included, and
`State.frees` those that it gives to `kfree`.

`memory_safe`: with fresh addresses (`AddrFresh`), whatever a step uses is allocated, it frees
only what is allocated, and nothing else disappears. Three things are outside of it.

* The rollback of `dicedev_buffer_write` goes through a task pointer that was not set, and dies.
* A step of a read is a critical section. The wait of `dicedev_buffer_read`, which uses the queue
  and the count of the context without a lock, is not among the steps. It can outlive the context
  (`Waiters.lean`).
* `DICEDEV_IOCTL_CREATE_SET` is one step. Its `list_add` has no lock, and two calls for one context
  at the same time can lose one of the two buffers from `allocated_buffers`.
-/

namespace Dicedev

open State

/-- The structures that the driver allocates and frees again, and a local pointer that was not set.
The arrays of commands and of pages are in `Arrays.lean` and `RunPages.lean`. -/
inductive Obj
  | ctx (c : CtxId)
  | buf (b : BufId)
  | task (t : TaskId)
  | unset
  deriving DecidableEq, Repr

namespace State

/-- The object has been made and not been freed. -/
def Allocated (s : State) : Obj → Prop
  | .ctx c => c < s.nCtx ∧ (s.ctxs c).phase ≠ .freed
  | .buf b => b < s.nBuf ∧ (s.bufs b).freed = false
  | .task t => t < s.nTask ∧ (s.tasks t).freed = false
  | .unset => False

instance (s : State) (o : Obj) : Decidable (s.Allocated o) := by
  cases o <;> unfold Allocated <;> infer_instance

/-! ## The worker -/

/-- `__wt_get_event` behind the test for a reached fence. -/
def getEventTouches (s : State) : List Obj :=
  match s.nextTask with
  | none => []
  | some t => if s.fenceState ≠ .none then [] else [.task t, .buf (s.tasks t).buffOut]

/-- A task with its context and its output buffer. -/
def taskTouches (s : State) (t : TaskId) : List Obj :=
  [.task t, .ctx (s.tasks t).ctx, .buf (s.tasks t).buffOut]

/-- `__wt_run_task`, which reads the commands of a RUN from its buffer. -/
def runTouches (s : State) (t : TaskId) : List Obj :=
  s.taskTouches t ++ (s.tasks t).body.cBuff.toList.map .buf

/-- `list_del` on the first task of the queue, and the context of this task. -/
def fetchTouches (s : State) : List Obj :=
  match s.pendingTasks with
  | [] => []
  | t :: rest => .task t :: .ctx (s.tasks t).ctx :: rest.head?.toList.map .task

/-- The code behind the loop of `dicedev_wt_fn`, up to where it hangs. -/
def shutdownTouches (s : State) : List Obj :=
  match s.pendingTasks, s.runningTask with
  | [], some t => [.task t, .ctx (s.tasks t).ctx]
  | _, _ => s.fetchTouches

def wtTouches (s : State) : List Obj :=
  match s.pc with
  | .polled => s.getEventTouches
  | .event .noEvent => if s.wtGetEventFence = none then s.getEventTouches else []
  | .event .taskGetNext => s.fetchTouches
  | .event .taskBindSlot => s.nextTask.toList.flatMap s.taskTouches
  | .event .taskRun => s.nextTask.toList.flatMap s.runTouches
  | .running _ => s.runningTask.toList.flatMap s.runTouches
  | .destroy t _ | .account t _ => s.taskTouches t
  | .shutdown => s.shutdownTouches
  | .head | .event .stop | .event .park | .event .taskFinish | .asleep | .parked | .fencing
  | .finishing | .hung | .exited => []

/-! ## The system calls -/

/-- `list_add_tail` at the end of the queue. -/
def queueTouches (s : State) : List Obj := s.pendingTasks.getLast?.toList.map .task

/-- The objects whose memory a step uses. What a read uses while it waits is in
`ReadState.touches`. -/
def touches (s : State) : Label → List Obj
  | .createSet c size allowed _ =>
    if size > maxBufferSize ∨ allowed.toNat > maxAllowed then []
    -- `list_add` goes to the head of the list
    else .ctx c :: (s.ctxs c).allocatedBuffers.head?.toList.map .buf
  | .run c cb db addr size _ _ =>
    if addr.toNat % 4 ≠ 0 ∨ size.toNat % 4 ≠ 0 then [] else [.buf cb, .buf db, .ctx c]
  | .runCount k =>
    match s.calls k with
    | some (.run c _ db _ _ _) => [.buf db, .ctx c]
    | _ => []
  | .runQueue k =>
    match s.calls k with
    | some (.run c _ _ _ _ _) => .ctx c :: s.queueTouches
    | _ => []
  | .waitLeave k | .waitReturn k =>
    match s.calls k with
    | some (.wait c _ _) => [.ctx c]
    | _ => []
  | .releaseMark c => .ctx c :: (s.ctxs c).allocatedBuffers.map .buf
  -- `list_for_each_safe` looks one buffer ahead
  | .releaseBuffer c => .ctx c :: ((s.ctxs c).allocatedBuffers.take 2).map .buf
  | .releaseWait c | .releaseFree c => [.ctx c]
  | .write b count =>
    if count % 4 ≠ 0 then []
    else if (s.bufs b).destroyed then [.buf b]
    else [.buf b, .ctx (s.bufs b).ctx]
  | .writeFail k =>
    match s.calls k with
    | some (.write b c _) => [.buf b, .ctx c, .unset]
    | _ => []
  | .writeQueue k _ =>
    match s.calls k with
    | some (.write _ c _) => .ctx c :: s.queueTouches
    | _ => []
  | .read b =>
    -- the loop condition reads `ctx->task_count` last
    if readsAvailable (s.bufs b).reader = 0 ∧ (s.bufs b).destroyed = false then
      [.buf b, .ctx (s.bufs b).ctx]
    else [.buf b]
  | .seed b _ | .bufferRelease b => [.buf b]
  | .isr =>
    if s.intrEnable = true ∧ (s.intr.cmdError = true ∨ s.intr.memError = true) then
      s.runningTask.toList.flatMap fun t => [.task t, .ctx (s.tasks t).ctx]
    else []
  | .worker => s.wtTouches
  | .openCtx _ | .wait _ _ | .dup _ | .close _ | .store _ _ _ _ | .fenceInterrupt
  | .errorInterrupt _ _ | .slotError | .suspend | .resume | .remove => []

/-- The objects that a step frees. -/
def frees (s : State) : Label → List Obj
  | .releaseFree c => [.ctx c]
  | .bufferRelease b => [.buf b]
  | .worker =>
    match s.pc with
    | .account t _ => [.task t]
    | _ => []
  | _ => []

end State

variable {s s' : State} {l : Label}

/-! ## Allocated objects -/

theorem allocated_open (hr : Reachable s) {c : CtxId} (hc : (s.ctxs c).phase ≠ .freed) :
    s.Allocated (.ctx c) :=
  ⟨Names.ctx_lt (scope_reachable hr) hc, hc⟩

/-- A buffer with a reference is there. -/
theorem allocated_of_fd (hr : Reachable s) {b : BufId} (hfd : 0 < (s.bufs b).fdRefs) :
    s.Allocated (.buf b) := by
  refine ⟨(scope_reachable hr).fd_lt hfd, Bool.eq_false_iff.mpr fun hfreed => ?_⟩
  have hzero : (s.bufs b).fdRefs = 0 := (Owned.freed_unref (ownership_reachable hr) b hfreed).2
  omega

theorem allocated_of_listed (hr : Reachable s) {c : CtxId} {b : BufId}
    (hb : b ∈ (s.ctxs c).allocatedBuffers) : s.Allocated (.buf b) := by
  have ho := ownership_reachable hr
  have hlt : b < s.nBuf := Names.listed_lt (scope_reachable hr) c b hb
  have hown : (s.bufs b).ctx = c := Owned.listed_owner ho c b hb
  have href : (s.bufs b).ctxRef = true := (Owned.listed_iff ho b hlt).mpr (by
    change b ∈ (s.ctxs (s.bufs b).ctx).allocatedBuffers
    rw [hown]
    exact hb)
  refine ⟨hlt, Bool.eq_false_iff.mpr fun hfreed => ?_⟩
  have hnone : (s.bufs b).ctxRef = false := (Owned.freed_unref ho b hfreed).1
  rw [href] at hnone
  cases hnone

/-- The context of a buffer outlives the flag `destroyed`. -/
theorem allocated_owner (hr : Reachable s) {b : BufId} (hb : b < s.nBuf)
    (halive : (s.bufs b).destroyed = false) : s.Allocated (.ctx (s.bufs b).ctx) := by
  refine allocated_open hr fun hfreed => ?_
  have hne : (s.ctxs (s.bufs b).ctx).phase ≠ .opened := by
    rw [hfreed]
    decide
  have htrue : (s.bufs b).destroyed = true :=
    (Owned.destroyed_iff (ownership_reachable hr) b hb).mpr hne
  rw [halive] at htrue
  cases htrue

theorem allocated_counting (hr : Reachable s) {c : CtxId} (hc : (s.ctxs c).phase.Counting) :
    s.Allocated (.ctx c) := by
  refine allocated_open hr fun hfreed => ?_
  rcases hc with hc | hc <;> rw [hfreed] at hc <;> cases hc

/-- The context of an ioctl in progress is open. -/
theorem allocated_ioctl (hr : Reachable s) {k : CallId} {call : Call} {c : CtxId}
    (hcall : s.calls k = some call) (hc : call.ioctlOf c = true) : s.Allocated (.ctx c) :=
  allocated_counting hr (Or.inl (Owned.ioctl_open (ownership_reachable hr) k call c hcall hc))

/-! ## Tasks -/

theorem allocated_held (hr : Reachable s) {t : TaskId} (ht : s.pipeline.Held t) :
    s.Allocated (.task t) :=
  ⟨held_lt hr ht, live_of_not_gone hr (held_lt hr ht) (not_gone_of_held hr ht)⟩

theorem allocated_pending (hr : Reachable s) {t : TaskId} (ht : t ∈ s.pendingTasks) :
    s.Allocated (.task t) :=
  ⟨pending_lt hr ht, live_of_not_gone hr (pending_lt hr ht) (not_gone_of_pending hr ht)⟩

theorem allocated_taskCtx (hr : Reachable s) {t : TaskId} (ht : s.Allocated (.task t)) :
    s.Allocated (.ctx (s.tasks t).ctx) :=
  allocated_counting hr (Tracked.task (tracks_reachable hr) t ht.1 ht.2)

/-- A buffer of the context of a task. -/
theorem allocated_taskBuf (hr : Reachable s) {t : TaskId} (ht : s.Allocated (.task t)) {b : BufId}
    (hb : b < s.nBuf) (hown : (s.bufs b).ctx = (s.tasks t).ctx) : s.Allocated (.buf b) := by
  have ho := ownership_reachable hr
  have hcounting : (s.ctxs (s.bufs b).ctx).phase.Counting := by
    rw [hown]
    exact Tracked.task (tracks_reachable hr) t ht.1 ht.2
  have href : (s.bufs b).ctxRef = true := Owned.listed_live ho b hb hcounting
  refine allocated_of_listed hr (c := (s.bufs b).ctx) ?_
  exact (Owned.listed_iff ho b hb).mp href

/-- The objects of a task that is there. -/
theorem runTouches_allocated (h : system.ReachableBy AddrFresh s) {t : TaskId}
    (ht : s.Allocated (.task t)) : ∀ o ∈ s.runTouches t, s.Allocated o := by
  have hr := h.reachable
  have hknown := Names.task_known (scope_reachable hr) t ht.1
  have hown := OwnedRuns.task_own (ownsRuns_reachable h) t ht.1
  intro o ho
  rcases List.mem_append.mp ho with ho | ho
  · simp only [taskTouches, List.mem_cons, List.not_mem_nil, or_false] at ho
    rcases ho with rfl | rfl | rfl
    · exact ht
    · exact allocated_taskCtx hr ht
    · exact allocated_taskBuf hr ht hknown.2.1 hown.1
  · obtain ⟨b, hb, rfl⟩ := List.mem_map.mp ho
    have hcb : b ∈ (s.sig t).cBuff := Option.mem_toList.mp hb
    exact allocated_taskBuf hr ht (hknown.2.2 b hcb) (hown.2 b hcb)

theorem taskTouches_allocated (h : system.ReachableBy AddrFresh s) {t : TaskId}
    (ht : s.Allocated (.task t)) : ∀ o ∈ s.taskTouches t, s.Allocated o :=
  fun o ho => runTouches_allocated h ht o (List.mem_append_left _ ho)

theorem getEventTouches_allocated (h : system.ReachableBy AddrFresh s) :
    ∀ o ∈ s.getEventTouches, s.Allocated o := by
  intro o ho
  unfold getEventTouches at ho
  split at ho
  · cases ho
  · rename_i t hnext
    split at ho
    · cases ho
    · refine taskTouches_allocated h (allocated_held h.reachable (next_held h.reachable hnext)) o ?_
      simp only [List.mem_cons, List.not_mem_nil, or_false] at ho
      rcases ho with rfl | rfl <;> simp [taskTouches]

theorem fetchTouches_allocated (hr : Reachable s) : ∀ o ∈ s.fetchTouches, s.Allocated o := by
  intro o ho
  unfold fetchTouches at ho
  split at ho
  · cases ho
  · rename_i t rest hpend
    have ht : s.Allocated (.task t) := allocated_pending hr (hpend ▸ List.mem_cons_self)
    simp only [List.mem_cons, List.mem_map, Option.mem_toList] at ho
    rcases ho with rfl | rfl | ⟨u, hu, rfl⟩
    · exact ht
    · exact allocated_taskCtx hr ht
    · refine allocated_pending hr (hpend ▸ List.mem_cons_of_mem t ?_)
      exact List.mem_of_mem_head? hu

theorem queueTouches_allocated (hr : Reachable s) : ∀ o ∈ s.queueTouches, s.Allocated o := by
  intro o ho
  obtain ⟨t, ht, rfl⟩ := List.mem_map.mp ho
  exact allocated_pending hr (List.mem_of_mem_getLast? (Option.mem_toList.mp ht))

/-- Behind the loop `running_task` is not stale. -/
theorem shutdownTouches_allocated (hr : Reachable s) (hpc : s.pc = .shutdown) :
    ∀ o ∈ s.shutdownTouches, s.Allocated o := by
  intro o ho
  unfold shutdownTouches at ho
  split at ho
  · rename_i t _ hrun
    have hheld : s.pipeline.Held t := by
      refine Or.inr (Or.inl ?_)
      change s.pc.deviceTask s.runningTask = some t
      rw [hpc]
      exact hrun
    have ht := allocated_held hr hheld
    simp only [List.mem_cons, List.not_mem_nil, or_false] at ho
    rcases ho with rfl | rfl
    · exact ht
    · exact allocated_taskCtx hr ht
  · exact fetchTouches_allocated hr o ho

theorem wtTouches_allocated (h : system.ReachableBy AddrFresh s) :
    ∀ o ∈ s.wtTouches, s.Allocated o := by
  have hr := h.reachable
  intro o ho
  unfold wtTouches at ho
  split at ho
  · exact getEventTouches_allocated h o ho
  · split at ho
    · exact getEventTouches_allocated h o ho
    · cases ho
  · exact fetchTouches_allocated hr o ho
  · obtain ⟨t, ht, ho⟩ := List.mem_flatMap.mp ho
    exact taskTouches_allocated h (allocated_held hr (next_held hr (Option.mem_toList.mp ht))) o ho
  · obtain ⟨t, ht, ho⟩ := List.mem_flatMap.mp ho
    exact runTouches_allocated h (allocated_held hr (next_held hr (Option.mem_toList.mp ht))) o ho
  · rename_i left hpc
    obtain ⟨t, ht, ho⟩ := List.mem_flatMap.mp ho
    have hnext : s.nextTask = some t :=
      ((ctl_reachable hr).agrees hpc).2.trans (Option.mem_toList.mp ht)
    exact runTouches_allocated h (allocated_held hr (next_held hr hnext)) o ho
  · rename_i t c hpc
    exact taskTouches_allocated h (allocated_held hr (destroy_held hr (Or.inl hpc))) o ho
  · rename_i t c hpc
    exact taskTouches_allocated h (allocated_held hr (destroy_held hr (Or.inr hpc))) o ho
  · rename_i hpc
    exact shutdownTouches_allocated hr hpc o ho
  all_goals cases ho

/-- The interrupt handler meets a running task that is still there: a device error comes before
the driver has seen the fence. -/
theorem isrTouches_allocated (hr : Reachable s) : ∀ o ∈ s.touches .isr, s.Allocated o := by
  intro o ho
  dsimp only [touches] at ho
  split at ho
  · rename_i herr
    obtain ⟨t, ht, ho⟩ := List.mem_flatMap.mp ho
    have hwait := (Blamed.pending (blames_reachable hr) (s.intr.err_iff.mpr herr.2)).1
    have htask := allocated_held hr (running_held hr (Option.mem_toList.mp ht) hwait)
    simp only [List.mem_cons, List.not_mem_nil, or_false] at ho
    rcases ho with rfl | rfl
    · exact htask
    · exact allocated_taskCtx hr htask
  · cases ho

/-! ## The system calls -/

theorem handle_of_step (hs : system.step s l = some s') : s.handle l = some s' := by
  change (if s.bug = none then s.handle l else none) = some s' at hs
  split at hs
  · exact hs
  · cases hs

theorem createSet_allocated (hr : Reachable s) {c : CtxId} {size : Nat} {allowed dma : BitVec 64}
    (hs : s.dicedevIoctlCreateSet c size allowed dma = some s') :
    ∀ o ∈ s.touches (.createSet c size allowed dma), s.Allocated o := by
  intro o ho
  dsimp only [touches] at ho
  split at ho
  · cases ho
  · unfold dicedevIoctlCreateSet at hs
    split at hs
    · rename_i hopen
      simp only [List.mem_cons, List.mem_map, Option.mem_toList] at ho
      rcases ho with rfl | ⟨b, hb, rfl⟩
      · exact allocated_counting hr (Or.inl hopen)
      · exact allocated_of_listed hr (List.mem_of_mem_head? hb)
    · cases hs

theorem run_allocated (hr : Reachable s) {c : CtxId} {cb db : BufId} {addr size : Word}
    {shared alloc : Bool} (hs : s.dicedevIoctlRun c cb db addr size shared alloc = some s') :
    ∀ o ∈ s.touches (.run c cb db addr size shared alloc), s.Allocated o := by
  intro o ho
  dsimp only [touches] at ho
  split at ho
  · cases ho
  · unfold dicedevIoctlRun at hs
    split at hs
    · rename_i hopen
      simp only [List.mem_cons, List.not_mem_nil, or_false] at ho
      rcases ho with rfl | rfl | rfl
      · exact allocated_of_fd hr hopen.2.1
      · exact allocated_of_fd hr hopen.2.2
      · exact allocated_counting hr (Or.inl hopen.1)
    · cases hs

/-- The buffer of a RUN in progress belongs to the context of the call, which is open. -/
theorem runCount_allocated (h : system.ReachableBy AddrFresh s) (k : CallId) :
    ∀ o ∈ s.touches (.runCount k), s.Allocated o := by
  have hr := h.reachable
  intro o ho
  dsimp only [touches] at ho
  split at ho
  · rename_i c cb db addr size counted hcall
    have hopen : (s.ctxs c).phase = .opened :=
      Owned.ioctl_open (ownership_reachable hr) k _ c hcall (by simp [Call.ioctlOf])
    have hown : (s.bufs db).ctx = c :=
      (OwnedRuns.run_own (ownsRuns_reachable h) k c cb db addr size counted hcall).2
    have hlt : db < s.nBuf := (Names.call_known (scope_reachable hr) k _ hcall).2.2
    simp only [List.mem_cons, List.not_mem_nil, or_false] at ho
    rcases ho with rfl | rfl
    · have ho := ownership_reachable hr
      have href : (s.bufs db).ctxRef = true := by
        refine Owned.listed_live ho db hlt (Or.inl ?_)
        change (s.ctxs (s.bufs db).ctx).phase = .opened
        rw [hown]
        exact hopen
      exact allocated_of_listed hr ((Owned.listed_iff ho db hlt).mp href)
    · exact allocated_counting hr (Or.inl hopen)
  · cases ho

theorem write_allocated (hr : Reachable s) {b : BufId} {count : Nat}
    (hs : s.dicedevBufferWrite b count = some s') :
    ∀ o ∈ s.touches (.write b count), s.Allocated o := by
  intro o ho
  dsimp only [touches] at ho
  unfold dicedevBufferWrite at hs
  split at hs
  · rename_i hfd
    have hb := allocated_of_fd hr hfd
    split at ho
    · cases ho
    · split at ho
      · cases List.mem_singleton.mp ho
        exact hb
      · rename_i halive
        simp only [List.mem_cons, List.not_mem_nil, or_false] at ho
        rcases ho with rfl | rfl
        · exact hb
        · exact allocated_owner hr hb.1 (Bool.eq_false_iff.mpr halive)
  · cases hs

theorem read_allocated (hr : Reachable s) {b : BufId} (hs : s.dicedevBufferRead b = some s') :
    ∀ o ∈ s.touches (.read b), s.Allocated o := by
  intro o ho
  dsimp only [touches] at ho
  unfold dicedevBufferRead at hs
  dsimp only at hs
  split at hs
  · rename_i hguard
    have hb := allocated_of_fd hr hguard.2.1
    split at ho
    · rename_i hempty
      simp only [List.mem_cons, List.not_mem_nil, or_false] at ho
      rcases ho with rfl | rfl
      · exact hb
      · exact allocated_owner hr hb.1 hempty.2
    · cases List.mem_singleton.mp ho
      exact hb
  · cases hs

/-- The context of a counted call. -/
theorem queue_allocated (hr : Reachable s) {k : CallId} {call : Call} {c : CtxId}
    (hcall : s.calls k = some call) (hc : call.counts c = true) :
    ∀ o ∈ Obj.ctx c :: s.queueTouches, s.Allocated o := by
  intro o ho
  rcases List.mem_cons.mp ho with rfl | ho
  · exact allocated_counting hr (Tracked.call (tracks_reachable hr) k call c hcall hc)
  · exact queueTouches_allocated hr o ho

theorem touches_allocated (h : system.ReachableBy AddrFresh s) (hl : ∀ k, l ≠ .writeFail k)
    (hs : system.step s l = some s') : ∀ o ∈ s.touches l, s.Allocated o := by
  have hr := h.reachable
  have hstep := handle_of_step hs
  cases l with
  | openCtx | wait | dup | close | store | fenceInterrupt | errorInterrupt | slotError | suspend
  | resume | remove => exact fun o ho => by cases ho
  | createSet => exact createSet_allocated hr hstep
  | run => exact run_allocated hr hstep
  | runCount k => exact runCount_allocated h k
  | runQueue k =>
    cases Step.of_step hs with
    | runQueue _ c cb db addr size hcall =>
      dsimp only [touches]
      rw [hcall]
      exact queue_allocated hr hcall (by simp [Call.counts])
    | halt _ _ hl => simp at hl
  | waitLeave k =>
    cases Step.of_step hs with
    | waitLeave _ c cnt hcall =>
      dsimp only [touches]
      rw [hcall]
      exact List.forall_mem_singleton.mpr (allocated_ioctl hr hcall (by simp [Call.ioctlOf]))
    | halt _ _ hl => simp at hl
  | waitReturn k =>
    cases Step.of_step hs with
    | waitReturn _ c cnt hcall =>
      dsimp only [touches]
      rw [hcall]
      exact List.forall_mem_singleton.mpr (allocated_ioctl hr hcall (by simp [Call.ioctlOf]))
    | halt _ _ hl => simp at hl
  | releaseMark c =>
    cases Step.of_step hs with
    | releaseMark _ hopen =>
      intro o ho
      rcases List.mem_cons.mp ho with rfl | ho
      · exact allocated_counting hr (Or.inl hopen)
      · obtain ⟨b, hb, rfl⟩ := List.mem_map.mp ho
        exact allocated_of_listed hr hb
    | halt _ _ hl => simp at hl
  | releaseWait c =>
    cases Step.of_step hs with
    | releaseWait _ hwait =>
      exact List.forall_mem_singleton.mpr (allocated_counting hr (Or.inr hwait))
    | halt _ _ hl => simp at hl
  | releaseBuffer c =>
    cases Step.of_step hs with
    | releaseBuffer _ b rest hclosing =>
      intro o ho
      rcases List.mem_cons.mp ho with rfl | ho
      · exact allocated_open hr (by rw [hclosing]; decide)
      · obtain ⟨b, hb, rfl⟩ := List.mem_map.mp ho
        exact allocated_of_listed hr (List.mem_of_mem_take hb)
    | halt _ _ hl => simp at hl
  | releaseFree c =>
    cases Step.of_step hs with
    | releaseFree _ hclosing =>
      exact List.forall_mem_singleton.mpr (allocated_open hr (by rw [hclosing]; decide))
    | halt _ _ hl => simp at hl
  | write => exact write_allocated hr hstep
  | writeFail k => exact absurd rfl (hl k)
  | writeQueue k cmd =>
    cases Step.of_step hs with
    | writeQueue _ _ b c count hcall =>
      dsimp only [touches]
      rw [hcall]
      exact queue_allocated hr hcall (by simp [Call.counts])
    | halt _ _ hl => simp at hl
  | read => exact read_allocated hr hstep
  | seed b =>
    change s.dicedevBufferIoctl b _ = some s' at hstep
    unfold dicedevBufferIoctl at hstep
    split at hstep
    · rename_i hfd
      exact List.forall_mem_singleton.mpr (allocated_of_fd hr hfd)
    · cases hstep
  | bufferRelease b =>
    cases Step.of_step hs with
    | bufferRelease _ hfreed =>
      exact List.forall_mem_singleton.mpr ⟨(scope_reachable hr).unfreed_lt hfreed, hfreed⟩
    | halt _ _ hl => simp at hl
  | isr => exact isrTouches_allocated hr
  | worker => exact wtTouches_allocated h

/-! ## What disappears -/

/-- Only `kfree` in `dicedev_release` ends a context. -/
theorem ctx_kept (hs : Step s l s') {c : CtxId} (hc : s.Allocated (.ctx c))
    (hl : l ≠ .releaseFree c) : s'.Allocated (.ctx c) := by
  have hkeep : ∀ {d : CtxId} {x : Context}, (d = c → x.phase ≠ .freed) →
      (Function.update s.ctxs d x c).phase ≠ .freed :=
    fun hx => update_pred (P := fun y : Context => y.phase ≠ .freed) hc.2 hx
  have hsame : ∀ {d : CtxId} {x : Context}, x.phase = (s.ctxs d).phase →
      (Function.update s.ctxs d x c).phase ≠ .freed :=
    fun hx => hkeep fun hd => by rw [hx, hd]; exact hc.2
  cases hs with
  | createSetRefused | runRefused | run | runQueue | wait | waitLeave | waitReturn | writeRefused
  | writeQueue | readNone | read | seed | dup | close | bufferRelease | store | isrOff
  | fenceInterrupt | errorInterrupt | slotError | suspend | resume | remove | head | polled
  | sleep | again | park | drop | getNext | bindSlot | taskRun | taskFinish | runDone | runSkip
  | runFeed | fence | destroyUnbind | destroyKeep | finishing | shutdown | halt => exact hc
  | openCtx => exact ⟨Nat.lt_succ_of_lt hc.1, hkeep fun _ => by simp⟩
  | createSet | runCount | releaseBuffer | write | writeFail | runReject | account =>
    exact ⟨hc.1, hsame rfl⟩
  | releaseMark | releaseWait => exact ⟨hc.1, hkeep fun _ => by simp⟩
  | releaseFree d => exact ⟨hc.1, hkeep fun hd => absurd (hd ▸ rfl) hl⟩
  | isr | isrFence =>
    refine ⟨hc.1, ?_⟩
    have hphase : (s.isrCtxs c).phase = (s.ctxs c).phase :=
      congrArg CtxSig.phase (congrFun (csig_isrCtxs s) c)
    exact hphase ▸ hc.2

/-- Only the release of its file ends a buffer. -/
theorem buf_kept (hs : Step s l s') {b : BufId} (hb : s.Allocated (.buf b))
    (hl : l ≠ .bufferRelease b) : s'.Allocated (.buf b) := by
  refine ⟨Nat.lt_of_lt_of_le hb.1 (nBuf_le_step hs), ?_⟩
  have hbuf := BufStep.of_step hs hb.1
  generalize s'.bufs b = x at hbuf ⊢
  cases hbuf with
  | keep | leak | mark | giveUp | read | seed | dup | close | store | bind | unbind | account =>
    exact hb.2
  | free => exact absurd rfl hl

/-- The tasks that are there are changed by the worker only. -/
theorem worker_of_sig_ne (hs : Step s l s') {t : TaskId} (ht : t < s.nTask)
    (hne : s'.sig t ≠ s.sig t) : l = .worker := by
  cases hs with
  | runQueue | writeQueue => exact absurd (sig_queued s _ _ ht) hne
  | head | polled | sleep | again | park | drop | getNext | bindSlot | taskRun | taskFinish
  | runDone | runSkip | runFeed | runReject | fence | destroyUnbind | destroyKeep | account
  | finishing | shutdown => rfl
  | _ => exact absurd rfl hne

/-- Only the end of `__task_destroy` ends a task. -/
theorem task_kept (hs : Step s l s') {t : TaskId} (ht : s.Allocated (.task t))
    (hl : .task t ∉ s.frees l) : s'.Allocated (.task t) := by
  refine ⟨Nat.lt_of_lt_of_le ht.1 (nTask_le_step hs), ?_⟩
  by_cases heq : s'.sig t = s.sig t
  · have hfreed : (s'.tasks t).freed = (s.tasks t).freed := congrArg TaskSig.freed heq
    exact hfreed.trans ht.2
  · rcases sig_step_cases hs ht.1 with h | ⟨caller, hpc, -⟩
    · exact absurd h heq
    · refine absurd ?_ hl
      rw [worker_of_sig_ne hs ht.1 heq]
      dsimp only [frees]
      rw [hpc]
      exact List.mem_singleton_self _

/-- What a step uses, frees and leaves. -/
structure MemorySafe (s : State) (l : Label) (s' : State) : Prop where
  used : ∀ o ∈ s.touches l, s.Allocated o
  freed : ∀ o ∈ s.frees l, s.Allocated o ∧ ¬ s'.Allocated o
  kept : ∀ o, s.Allocated o → o ∉ s.frees l → s'.Allocated o

theorem tasks_account {t : TaskId} {caller : Caller} (hpc : s.pc = .account t caller)
    (hs : s.handle .worker = some s') : (s'.tasks t).freed = true := by
  change s.wtStep.map s.orHalt = some s' at hs
  unfold wtStep at hs
  rw [hpc] at hs
  cases hs
  change (Function.update s.tasks t { s.tasks t with freed := true } t).freed = true
  rw [Function.update_self]

theorem frees_allocated (hr : Reachable s) (hs : system.step s l = some s') :
    ∀ o ∈ s.frees l, s.Allocated o ∧ ¬ s'.Allocated o := by
  cases l with
  | releaseFree c =>
    cases Step.of_step hs with
    | releaseFree _ hclosing =>
      refine List.forall_mem_singleton.mpr ⟨allocated_open hr (by rw [hclosing]; decide), ?_⟩
      exact fun h => h.2 (by simp)
    | halt _ _ hl => simp at hl
  | bufferRelease b =>
    cases Step.of_step hs with
    | bufferRelease _ hfreed =>
      refine List.forall_mem_singleton.mpr ⟨⟨(scope_reachable hr).unfreed_lt hfreed, hfreed⟩, ?_⟩
      intro h
      have hfalse : (Function.update (s.unbound b).bufs b
          { (s.unbound b).bufs b with freed := true } b).freed = false := h.2
      simp at hfalse
    | halt _ _ hl => simp at hl
  | worker =>
    dsimp only [frees]
    split
    · rename_i t caller hpc
      refine List.forall_mem_singleton.mpr ⟨allocated_held hr (account_held hr hpc), ?_⟩
      intro h
      have hfreed := tasks_account hpc (handle_of_step hs)
      rw [h.2] at hfreed
      cases hfreed
    · exact fun o ho => by cases ho
  | _ => exact fun o ho => by cases ho

/-- With fresh addresses a step, other than the rollback of a write, uses and frees only what is
allocated. The wait of a read is no step here, and the calls of `DICEDEV_IOCTL_CREATE_SET` follow
one another. -/
theorem memory_safe (h : system.ReachableBy AddrFresh s) (hl : ∀ k, l ≠ .writeFail k)
    (hs : system.step s l = some s') : MemorySafe s l s' := by
  have hstep := Step.of_step hs
  refine ⟨touches_allocated h hl hs, frees_allocated h.reachable hs, ?_⟩
  intro o ho hkeep
  cases o with
  | ctx c => exact ctx_kept hstep ho fun heq => hkeep (by simp [heq, frees])
  | buf b => exact buf_kept hstep ho fun heq => hkeep (by simp [heq, frees])
  | task t => exact task_kept hstep ho hkeep
  | unset => cases ho

/-- A write is run and its task destroyed: the last step uses the task, the context and the
buffer, and frees the task. -/
theorem memory_safe_account :
    ∃ s s', system.ReachableBy AddrFresh s ∧ system.step s .worker = some s' ∧
      s.touches .worker = [.task 0, .ctx 0, .buf 0] ∧ s.frees .worker = [.task 0] ∧
      MemorySafe s .worker s' := by
  have hseen : seenBy AddrFresh (openOne ++ writeCall 0 0 0 (fun _ => 0) ++ startEmpty ++
      [.fenceInterrupt, .isr] ++ workerSteps 3)
      (fun s => (s.touches .worker, s.frees .worker, (system.step s .worker).isSome)) =
      some ([.task 0, .ctx 0, .buf 0], [.task 0], true) := by decide +kernel
  obtain ⟨s, hr, hs⟩ := exists_seenBy hseen
  simp only [Prod.mk.injEq] at hs
  obtain ⟨s', hstep⟩ := Option.isSome_iff_exists.mp hs.2.2
  exact ⟨s, s', hr, hstep, hs.1, hs.2.1, memory_safe hr (fun k hk => by cases hk) hstep⟩

end Dicedev
