import Dicedev.Lib.Tally
import Dicedev.RunOwner

/-!
# The task counter of a context

`task_count` is raised by `write()` and RUN before their task exists, and lowered when the
task is destroyed or the call gives up. `Accounted` says that it is the number of tasks of
the context that are not destroyed and of calls that are in between, and so it is positive
whenever it is lowered.

`dicedev_release` leaves its loop when the counter is zero. From then on no task and no call
of the context is left (`Tracked`), and none can come: the buffers are marked. That also
holds of tasks of other contexts that refer to its buffers, once a RUN takes buffers of its
own context only: `task_accounting`.
-/

namespace Dicedev

open State Tally

/-- The call has raised the counter of `c` and has neither queued its task nor rolled back. -/
def Call.counts (c : CtxId) : Call → Bool
  | .run c' _ _ _ _ counted => counted && c' == c
  | .write _ c' _ => c' == c
  | .wait _ _ _ => false

/-- The task belongs to `c` and is not destroyed. -/
def TaskSig.liveIn (c : CtxId) (t : TaskSig) : Bool := !t.freed && t.ctx == c

/-- The number of tasks of `c` below `n` that are not destroyed. -/
def tasksOf (sig : TaskId → TaskSig) (n : Nat) (c : CtxId) : Nat :=
  tally (fun t => t.liveIn c = true) sig n

/-- The number of calls below `n` that have raised the counter of `c`. -/
def callsOf (calls : CallId → Option Call) (n : Nat) (c : CtxId) : Nat :=
  tally (fun o => o.any (Call.counts c) = true) calls n

/-- The counters say how many tasks and calls there are. -/
def Accounted (nTask nCall : Nat) (count : CtxId → Nat) (sig : TaskId → TaskSig)
    (calls : CallId → Option Call) : Prop :=
  ∀ c, count c = tasksOf sig nTask c + callsOf calls nCall c

namespace Accounted

variable {nTask nCall : Nat} {count count' : CtxId → Nat} {sig sig' : TaskId → TaskSig}
  {calls : CallId → Option Call}

theorem of_eq (h : Accounted nTask nCall count sig calls) (hc : count' = count)
    (hs : sig' = sig) : Accounted nTask nCall count' sig' calls := by
  rw [hc, hs]
  exact h

/-- A counter is positive while there is a call that has raised it. -/
theorem call_pos (h : Accounted nTask nCall count sig calls) {k : CallId} {call : Call}
    {c : CtxId} (hk : k < nCall) (hcall : calls k = some call) (hc : call.counts c = true) :
    0 < count c := by
  have hpos : 0 < callsOf calls nCall c := tally_pos hk (by rw [hcall]; exact hc)
  have := h c
  omega

/-- A counter is positive while there is a task. -/
theorem task_pos (h : Accounted nTask nCall count sig calls) {t : TaskId} (ht : t < nTask)
    (hlive : (sig t).freed = false) : 0 < count (sig t).ctx := by
  have hpos : 0 < tasksOf sig nTask (sig t).ctx :=
    tally_pos ht (by simp [TaskSig.liveIn, hlive])
  have := h (sig t).ctx
  omega

/-- A new call. -/
theorem pushCall (h : Accounted nTask nCall count sig calls) {call : Call}
    (hc : ∀ d, count' d = count d + if call.counts d = true then 1 else 0) :
    Accounted nTask (nCall + 1) count' sig (Function.update calls nCall (some call)) := by
  intro d
  have hpush : callsOf (Function.update calls nCall (some call)) (nCall + 1) d =
      callsOf calls nCall d + if call.counts d = true then 1 else 0 := tally_push
  rw [hpush, hc d, h d, Nat.add_assoc]

/-- A call goes on or returns. -/
theorem setCall (h : Accounted nTask nCall count sig calls) {k : CallId} {call : Call}
    {o : Option Call} (hk : k < nCall) (hcall : calls k = some call)
    (hc : ∀ d, count' d + (if call.counts d = true then 1 else 0) =
      count d + if o.any (Call.counts d) = true then 1 else 0) :
    Accounted nTask nCall count' sig (Function.update calls k o) := by
  intro d
  have hset : callsOf (Function.update calls k o) nCall d +
      (if (calls k).any (Call.counts d) = true then 1 else 0) =
      callsOf calls nCall d + if o.any (Call.counts d) = true then 1 else 0 := tally_set hk
  rw [hcall] at hset
  simp only [Option.any_some] at hset
  have := h d
  have := hc d
  omega

/-- A new call that raises no counter. -/
theorem pushIdle (h : Accounted nTask nCall count sig calls) {call : Call}
    (hc : ∀ d, call.counts d = false) :
    Accounted nTask (nCall + 1) count sig (Function.update calls nCall (some call)) :=
  h.pushCall fun d => by simp [hc d]

/-- A WAIT call goes on or returns. -/
theorem setIdle (h : Accounted nTask nCall count sig calls) {k : CallId} {call : Call}
    {o : Option Call} (hk : k < nCall) (hcall : calls k = some call)
    (hc : ∀ d, call.counts d = false) (ho : ∀ d, o.any (Call.counts d) = false) :
    Accounted nTask nCall count sig (Function.update calls k o) :=
  h.setCall hk hcall fun d => by simp [hc d, ho d]

/-- The call `k` queues its task. -/
theorem queue (h : Accounted nTask nCall count sig calls) {k : CallId} {call : Call}
    {x : TaskSig} (hk : k < nCall) (hcall : calls k = some call)
    (hx : ∀ d, x.liveIn d = call.counts d) :
    Accounted (nTask + 1) nCall count (Function.update sig nTask x)
      (Function.update calls k none) := by
  intro d
  have hpush : tasksOf (Function.update sig nTask x) (nTask + 1) d =
      tasksOf sig nTask d + if x.liveIn d = true then 1 else 0 := tally_push
  have hset : callsOf (Function.update calls k none) nCall d +
      (if (calls k).any (Call.counts d) = true then 1 else 0) = callsOf calls nCall d + 0 :=
    tally_set hk
  rw [hcall] at hset
  simp only [Option.any_some] at hset
  rw [hx] at hpush
  have := h d
  omega

/-- The task `t` is destroyed. -/
theorem freeTask (h : Accounted nTask nCall count sig calls) {t : TaskId} {x : TaskSig}
    (ht : t < nTask) (hlive : (sig t).freed = false) (hx : x.freed = true)
    (hc : ∀ d, count' d + (if (sig t).ctx = d then 1 else 0) = count d) :
    Accounted nTask nCall count' (Function.update sig t x) calls := by
  intro d
  have hset : tasksOf (Function.update sig t x) nTask d +
      (if (sig t).liveIn d = true then 1 else 0) =
      tasksOf sig nTask d + if x.liveIn d = true then 1 else 0 := tally_set ht
  simp only [TaskSig.liveIn, hlive, hx, Bool.not_false, Bool.not_true, Bool.true_and,
    Bool.false_and, Bool.false_eq_true, if_false, beq_iff_eq] at hset
  have := h d
  have := hc d
  omega

end Accounted

variable {s s' : State} {l : Label}

/-! ## Freed tasks -/

/-- The freed tasks are the destroyed ones. -/
def FreedGone (nTask : Nat) (sig : TaskId → TaskSig) (gone : List TaskId) : Prop :=
  ∀ t, t < nTask → ((sig t).freed = true ↔ t ∈ gone)

theorem FreedGone.push {n : Nat} {sig : TaskId → TaskSig} {gone : List TaskId}
    (h : FreedGone n sig gone) {x : TaskSig} (hx : x.freed = false) (hn : n ∉ gone) :
    FreedGone (n + 1) (Function.update sig n x) gone := by
  refine forall_lt_succ_update (P := fun t (y : TaskSig) => y.freed = true ↔ t ∈ gone) ?_ h
  rw [hx]
  simp [hn]

theorem FreedGone.free {n : Nat} {sig : TaskId → TaskSig} {gone : List TaskId}
    (h : FreedGone n sig gone) {t : TaskId} {x : TaskSig} (hx : x.freed = true) :
    FreedGone n (Function.update sig t x) (gone ++ [t]) := by
  intro u hu
  rw [List.mem_append, List.mem_singleton]
  by_cases hut : u = t
  · subst hut
    rw [Function.update_self, hx]
    simp
  · rw [Function.update_of_ne hut, h u hu]
    simp [hut]

theorem FreedGone.of_eq {n : Nat} {sig sig' : TaskId → TaskSig} {gone gone' : List TaskId}
    (h : FreedGone n sig gone) (hs : sig' = sig) (hg : gone' = gone) :
    FreedGone n sig' gone' := by
  rw [hs, hg]
  exact h

theorem freedGone_queued (hr : Reachable s) (h : FreedGone s.nTask s.sig s.gone) {k : CallId}
    {task : Task} (hfreed : task.freed = false) :
    FreedGone (s.queued k task).nTask (s.queued k task).sig (s.queued k task).gone := by
  have hn : s.nTask ∉ s.gone := fun hg =>
    absurd ((pipeline_reachable hr).gone_lt hg) (Nat.not_lt.mpr (fetched_le s))
  have h1 := FreedGone.push (x := task.sig) h hfreed hn
  exact h1.of_eq (Function.comp_update _ _ _ _) (filterMap_log_none rfl)

theorem freedGone_step (hr : Reachable s) (h : FreedGone s.nTask s.sig s.gone)
    (hs : Step s l s') : FreedGone s'.nTask s'.sig s'.gone := by
  cases hs with
  | openCtx | createSetRefused | createSet | runRefused | run | runCount | wait | waitLeave
  | releaseMark | releaseWait | releaseFree | writeRefused | write | writeFail | readNone
  | read | seed | dup | close | store | isrOff | isr | isrFence | slotError | suspend | resume
  | remove | head | polled | sleep | again | park | drop | getNext | taskFinish | runDone
  | destroyKeep | finishing | shutdown | halt => exact h
  | runQueue => exact freedGone_queued hr h rfl
  | writeQueue => exact freedGone_queued hr h rfl
  | waitReturn | fenceInterrupt | errorInterrupt | bindSlot | fence =>
    exact h.of_eq rfl (filterMap_log_none rfl)
  | releaseBuffer c b =>
    exact h.of_eq rfl ((filterMap_log_none rfl).trans (filterMap_unbound (fun _ _ => rfl) s b))
  | bufferRelease b => exact h.of_eq rfl (filterMap_unbound (fun _ _ => rfl) s b)
  | destroyUnbind t c b => exact h.of_eq rfl (filterMap_unbound (fun _ _ => rfl) s b)
  | taskRun t => exact h.of_eq (sig_initIt s t) (filterMap_log_none rfl)
  | runSkip t left task left' hpc hrun hpass => exact h.of_eq (sig_pass hpass) rfl
  | runFeed t left task words user left' hpc hrun hpass =>
    exact h.of_eq (sig_pass hpass) (filterMap_log_none rfl)
  | runReject t left task hpc hrun hpass =>
    exact h.of_eq (sig_pass hpass) (filterMap_log_none rfl)
  | account t caller =>
    have h1 := FreedGone.free (t := t) (x := Task.sig { s.tasks t with freed := true }) h rfl
    exact h1.of_eq (Function.comp_update _ _ _ _)
      (filterMap_log_some (gone?_destroyEvent t caller))

theorem freedGone_reachable (h : Reachable s) : FreedGone s.nTask s.sig s.gone :=
  Machine.Reachable.invariant_of (I := fun s => FreedGone s.nTask s.sig s.gone)
    (fun _ hr => hr) (fun t ht => absurd ht (Nat.not_lt_zero t))
    (fun _ _ _ hr hI hs => freedGone_step hr hI (Step.of_step hs)) h

/-- A task that was queued and is not destroyed has not been freed. -/
theorem live_of_not_gone (h : Reachable s) {t : TaskId} (ht : t < s.nTask) (hg : t ∉ s.gone) :
    (s.sig t).freed = false := by
  cases hf : (s.sig t).freed with
  | false => rfl
  | true => exact absurd ((freedGone_reachable h t ht).mp hf) hg

/-! ## The counter -/

/-- The counters of all contexts. -/
def State.counts (s : State) : CtxId → Nat := Context.taskCount ∘ s.ctxs

theorem counts_isrCtxs (s : State) : Context.taskCount ∘ s.isrCtxs = s.counts := by
  unfold isrCtxs
  split
  · rfl
  · split
    · exact comp_update_of_eq rfl
    · rfl

def Accounts (s : State) : Prop := Accounted s.nTask s.nCall s.counts s.sig s.calls

theorem sizeDec_add_one {n : Nat} (h : 0 < n) : sizeDec n + 1 = n := by
  unfold sizeDec
  rw [if_neg (Nat.ne_of_gt h)]
  omega

/-- The counters after one of them is raised. -/
theorem counts_raise (s : State) (c d : CtxId) :
    (Context.taskCount ∘ Function.update s.ctxs c
      { s.ctxs c with taskCount := (s.ctxs c).taskCount + 1 }) d =
      s.counts d + if c = d then 1 else 0 := by
  by_cases hdc : d = c
  · subst hdc
    simp [State.counts]
  · simp [State.counts, Function.update_of_ne hdc, Ne.symm hdc]

/-- The counters after one of them is lowered, which was not zero. -/
theorem counts_lower (s : State) {c : CtxId} (hpos : 0 < s.counts c) (d : CtxId) :
    (Context.taskCount ∘ Function.update s.ctxs c
      { s.ctxs c with taskCount := sizeDec (s.ctxs c).taskCount }) d +
      (if c = d then 1 else 0) = s.counts d := by
  by_cases hdc : d = c
  · subst hdc
    simp only [Function.comp_apply, Function.update_self, if_true]
    exact sizeDec_add_one hpos
  · simp [State.counts, Function.update_of_ne hdc, Ne.symm hdc]

theorem Accounts.queued (hr : Reachable s) (h : Accounts s) {k : CallId} {call : Call}
    {task : Task} (hcall : s.calls k = some call)
    (hx : ∀ d, task.sig.liveIn d = call.counts d) : Accounts (s.queued k task) := by
  have hk := Names.call_lt (scope_reachable hr) hcall
  exact (Accounted.queue h hk hcall hx).of_eq rfl (Function.comp_update _ _ _ _)

theorem Accounts.step (hr : Reachable s) (h : Accounts s) (hs : Step s l s') : Accounts s' := by
  have hscope := scope_reachable hr
  cases hs with
  | createSetRefused | runRefused | writeRefused | readNone | read | seed | dup | close
  | bufferRelease | store | isrOff | fenceInterrupt | errorInterrupt | slotError | suspend
  | resume | remove | head | polled | sleep | again | park | drop | getNext | bindSlot
  | taskFinish | runDone | fence | destroyUnbind | destroyKeep | finishing | shutdown | halt =>
    exact h
  | openCtx addr =>
    refine Accounted.of_eq h (comp_update_of_eq ?_) rfl
    rw [Names.ctx_fresh hscope s.nCtx (Nat.le_refl _)]
    rfl
  | createSet | releaseMark | releaseWait | releaseBuffer | releaseFree =>
    exact Accounted.of_eq h (comp_update_of_eq rfl) rfl
  | run => exact Accounted.pushIdle h fun d => by simp [Call.counts]
  | wait => exact Accounted.pushIdle h fun d => by simp [Call.counts]
  | write b count =>
    exact Accounted.pushCall h fun d => (counts_raise s _ d).trans (by simp [Call.counts])
  | runCount k c cb db addr size hcall =>
    refine Accounted.setCall h (Names.call_lt hscope hcall) hcall fun d => ?_
    simp only [Call.counts, Bool.false_and, Bool.true_and, Bool.false_eq_true, if_false,
      Option.any_some, beq_iff_eq]
    exact counts_raise s c d
  | waitLeave k c cnt hcall =>
    exact Accounted.setIdle h (Names.call_lt hscope hcall) hcall (fun _ => rfl) fun _ => rfl
  | waitReturn k c cnt hcall =>
    exact Accounted.setIdle h (Names.call_lt hscope hcall) hcall (fun _ => rfl) fun _ => rfl
  | writeFail k b c count hcall =>
    have hk := Names.call_lt hscope hcall
    have hpos : 0 < s.counts c := Accounted.call_pos h hk hcall (by simp [Call.counts])
    refine Accounted.setCall h hk hcall fun d => ?_
    simp only [Call.counts, Option.any_none, Bool.false_eq_true, if_false, beq_iff_eq]
    exact counts_lower s hpos d
  | runQueue k c cb db addr size hcall =>
    exact h.queued hr hcall fun d => by simp [TaskSig.liveIn, Task.sig, Call.counts]
  | writeQueue k cmd b c count hcall =>
    exact h.queued hr hcall fun d => by simp [TaskSig.liveIn, Task.sig, Call.counts]
  | isr => exact Accounted.of_eq h (counts_isrCtxs s) rfl
  | isrFence => exact Accounted.of_eq h (counts_isrCtxs s) rfl
  | taskRun t => exact Accounted.of_eq h rfl (sig_initIt s t)
  | runSkip t left task left' hpc hrun hpass => exact Accounted.of_eq h rfl (sig_pass hpass)
  | runFeed t left task words user left' hpc hrun hpass =>
    exact Accounted.of_eq h rfl (sig_pass hpass)
  | runReject t left task hpc hrun hpass =>
    exact Accounted.of_eq h (comp_update_of_eq rfl) (sig_pass hpass)
  | account t caller c b hpc hctx hout =>
    have ht := account_lt hr hpc
    have hlive := live_of_not_gone hr ht (not_gone_of_held hr (account_held hr hpc))
    have hpos : 0 < s.counts c := hctx ▸ Accounted.task_pos h ht hlive
    have h1 := Accounted.freeTask (x := Task.sig { s.tasks t with freed := true }) h ht hlive rfl
      fun d => by
        rw [show (s.sig t).ctx = c from hctx]
        exact counts_lower s hpos d
    exact h1.of_eq rfl (Function.comp_update _ _ _ _)

theorem accounts_probed : Accounts probed := fun _ => rfl

theorem accounts_reachable (h : Reachable s) : Accounts s :=
  Machine.Reachable.invariant_of (fun _ hr => hr) accounts_probed
    (fun _ _ _ hr hI hs => hI.step hr (Step.of_step hs)) h

/-! ## Nothing is left of a context that is past its wait loop -/

/-- The release of the context has not left its loop. -/
def Phase.Counting (p : Phase) : Prop := p = .opened ∨ p = .waiting

/-- Tasks and counted calls keep their context in this phase. -/
structure Tracked (nTask : Nat) (csig : CtxId → CtxSig) (sig : TaskId → TaskSig)
    (calls : CallId → Option Call) : Prop where
  task : ∀ t, t < nTask → (sig t).freed = false → (csig (sig t).ctx).phase.Counting
  call : ∀ k call c, calls k = some call → call.counts c = true → (csig c).phase.Counting

namespace Tracked

variable {nTask : Nat} {csig csig' : CtxId → CtxSig} {sig sig' : TaskId → TaskSig}
  {calls : CallId → Option Call}

theorem of_eq (h : Tracked nTask csig sig calls) (hc : csig' = csig) (hs : sig' = sig) :
    Tracked nTask csig' sig' calls := by
  rw [hc, hs]
  exact h

/-- A context that keeps counting. -/
theorem setCtx (h : Tracked nTask csig sig calls) {c : CtxId} {x : CtxSig}
    (hx : (csig c).phase.Counting → x.phase.Counting) :
    Tracked nTask (Function.update csig c x) sig calls := by
  have hphase : ∀ d, (csig d).phase.Counting → (Function.update csig c x d).phase.Counting := by
    intro d hd
    exact update_pred (P := fun y : CtxSig => y.phase.Counting) hd fun hcd => hx (hcd ▸ hd)
  exact ⟨fun t ht hlive => hphase _ (h.task t ht hlive),
    fun k call d hk hd => hphase d (h.call k call d hk hd)⟩

/-- A context without tasks and calls. -/
theorem leave (h : Tracked nTask csig sig calls) {c : CtxId} {x : CtxSig}
    (htask : ∀ t, t < nTask → (sig t).freed = false → (sig t).ctx ≠ c)
    (hcall : ∀ k call, calls k = some call → call.counts c = false) :
    Tracked nTask (Function.update csig c x) sig calls := by
  refine ⟨?_, ?_⟩
  · intro t ht hlive
    rw [Function.update_of_ne (htask t ht hlive)]
    exact h.task t ht hlive
  · intro k call d hk hd
    have hdc : d ≠ c := by
      rintro rfl
      exact absurd (hd.symm.trans (hcall k call hk)) (by decide)
    rw [Function.update_of_ne hdc]
    exact h.call k call d hk hd

/-- A call that has raised no counter, or that of a context that counts. -/
theorem setCall (h : Tracked nTask csig sig calls) {k : CallId} {o : Option Call}
    (ho : ∀ call c, o = some call → call.counts c = true → (csig c).phase.Counting) :
    Tracked nTask csig sig (Function.update calls k o) := by
  refine ⟨h.task, ?_⟩
  intro j call c hj hc
  rcases update_eq_some hj with hj | hj
  · exact ho call c hj hc
  · exact h.call j call c hj hc

/-- A call starts or goes on. -/
theorem putCall (h : Tracked nTask csig sig calls) {k : CallId} {call : Call}
    (hcall : ∀ c, call.counts c = true → (csig c).phase.Counting) :
    Tracked nTask csig sig (Function.update calls k (some call)) := by
  refine h.setCall fun call' c heq => ?_
  obtain rfl := Option.some.inj heq
  exact hcall c

theorem addTask (h : Tracked nTask csig sig calls) {x : TaskSig}
    (hx : (csig x.ctx).phase.Counting) :
    Tracked (nTask + 1) csig (Function.update sig nTask x) calls := by
  refine ⟨?_, h.call⟩
  exact forall_lt_succ_update
    (P := fun _ (y : TaskSig) => y.freed = false → (csig y.ctx).phase.Counting)
    (fun _ => hx) h.task

theorem freeTask (h : Tracked nTask csig sig calls) {t : TaskId} {x : TaskSig}
    (hx : x.freed = true) : Tracked nTask csig (Function.update sig t x) calls := by
  refine ⟨?_, h.call⟩
  intro u hu
  exact update_pred (P := fun y : TaskSig => y.freed = false → (csig y.ctx).phase.Counting)
    (h.task u hu) fun _ hlive => absurd (hlive.symm.trans hx) (by decide)

end Tracked

def Tracks (s : State) : Prop := Tracked s.nTask s.csig s.sig s.calls

theorem Tracks.queued (h : Tracks s) {k : CallId} {call : Call} {task : Task}
    (hcall : s.calls k = some call) (hx : call.counts task.ctx = true) :
    Tracks (s.queued k task) := by
  have hphase := Tracked.call h k call task.ctx hcall hx
  have h1 := Tracked.setCall (k := k) (o := none) h (by simp)
  exact (Tracked.addTask (x := task.sig) h1 hphase).of_eq rfl (Function.comp_update _ _ _ _)

theorem Tracks.step (hr : Reachable s) (h : Tracks s) (hs : Step s l s') : Tracks s' := by
  have hscope := scope_reachable hr
  have hown := ownership_reachable hr
  have hacc := accounts_reachable hr
  cases hs with
  | createSetRefused | runRefused | writeRefused | readNone | read | seed | dup | close
  | bufferRelease | store | isrOff | fenceInterrupt | errorInterrupt | slotError | suspend
  | resume | remove | head | polled | sleep | again | park | drop | getNext | bindSlot
  | taskFinish | runDone | fence | destroyUnbind | destroyKeep | finishing | shutdown | halt =>
    exact h
  | openCtx addr =>
    exact (Tracked.setCtx h fun _ => Or.inl rfl).of_eq (Function.comp_update _ _ _ _) rfl
  | createSet c size allowed dma hopen =>
    exact (Tracked.setCtx h fun _ => Or.inl hopen).of_eq (Function.comp_update _ _ _ _) rfl
  | run | wait | waitLeave => exact Tracked.putCall h nofun
  | waitReturn => exact Tracked.setCall h (by simp)
  | write b count hfd halive =>
    have hb := hscope.fd_lt hfd
    have hopen : (s.csig (s.bsig b).ctx).phase = .opened := by
      by_contra hne
      have hdead := (Owned.destroyed_iff hown b hb).mpr hne
      exact absurd (halive.symm.trans hdead) (by decide)
    refine (Tracked.putCall h fun c hc => ?_).of_eq (comp_update_of_eq rfl) rfl
    have heq : (s.bufs b).ctx = c := eq_of_beq hc
    subst heq
    exact Or.inl hopen
  | runCount k c cb db addr size hcall =>
    have hopen := Owned.ioctl_open hown k _ c hcall (beq_self_eq_true c)
    refine (Tracked.putCall h fun d hd => ?_).of_eq (comp_update_of_eq rfl) rfl
    have heq : c = d := eq_of_beq hd
    subst heq
    exact Or.inl hopen
  | writeFail => exact (Tracked.setCall h (by simp)).of_eq (comp_update_of_eq rfl) rfl
  | runQueue k c cb db addr size hcall => exact h.queued hcall (beq_self_eq_true c)
  | writeQueue k cmd b c count hcall => exact h.queued hcall (beq_self_eq_true c)
  | releaseMark c =>
    exact (Tracked.setCtx h fun _ => Or.inr rfl).of_eq (Function.comp_update _ _ _ _) rfl
  | releaseWait c hwait hzero =>
    refine (Tracked.leave h ?_ ?_).of_eq (Function.comp_update _ _ _ _) rfl
    · rintro t ht hlive rfl
      exact absurd hzero (Nat.ne_of_gt (Accounted.task_pos hacc ht hlive))
    · intro k call hk
      cases hc : call.counts c with
      | false => rfl
      | true =>
        exact absurd hzero
          (Nat.ne_of_gt (Accounted.call_pos hacc (Names.call_lt hscope hk) hk hc))
  | releaseBuffer c b rest =>
    exact (Tracked.setCtx (c := c) (x := Context.sig { s.ctxs c with allocatedBuffers := rest }) h
      fun hc => hc).of_eq (Function.comp_update _ _ _ _) rfl
  | releaseFree c hclosing =>
    refine (Tracked.setCtx h fun hc => ?_).of_eq (Function.comp_update _ _ _ _) rfl
    rcases hc with hc | hc
    · exact absurd (hclosing.symm.trans hc) (by decide)
    · exact absurd (hclosing.symm.trans hc) (by decide)
  | isr => exact Tracked.of_eq h (csig_isrCtxs s) rfl
  | isrFence => exact Tracked.of_eq h (csig_isrCtxs s) rfl
  | taskRun t => exact Tracked.of_eq h rfl (sig_initIt s t)
  | runSkip t left task left' hpc hrun hpass => exact Tracked.of_eq h rfl (sig_pass hpass)
  | runFeed t left task words user left' hpc hrun hpass =>
    exact Tracked.of_eq h rfl (sig_pass hpass)
  | runReject t left task hpc hrun hpass =>
    exact Tracked.of_eq h (comp_update_of_eq rfl) (sig_pass hpass)
  | account t caller =>
    have h1 := Tracked.freeTask (t := t) (x := Task.sig { s.tasks t with freed := true }) h rfl
    exact h1.of_eq (comp_update_of_eq rfl) (Function.comp_update _ _ _ _)

theorem tracks_probed : Tracks probed :=
  ⟨fun t ht => absurd ht (Nat.not_lt_zero t), fun k call c hk => by cases hk⟩

theorem tracks_reachable (h : Reachable s) : Tracks s :=
  Machine.Reachable.invariant_of (fun _ hr => hr) tracks_probed
    (fun _ _ _ hr hI hs => hI.step hr (Step.of_step hs)) h

/-- `dicedev_release` of `c` is past its wait loop. -/
def State.PastWait (s : State) (c : CtxId) : Prop :=
  c < s.nCtx ∧ ((s.ctxs c).phase = .closing ∨ (s.ctxs c).phase = .freed)

/-- The task `t` is pending, prefetched or running. While `WT_EVENT_TASK_FINISH` is at its
end, `running_task` still points to the task that it has destroyed. -/
def State.InHand (s : State) (t : TaskId) : Prop :=
  t ∈ s.pendingTasks ∨ s.nextTask = some t ∨ (s.runningTask = some t ∧ t ∉ s.gone)

/-- The task `t` refers to `c` or to one of its buffers. -/
def State.RefersTo (s : State) (t : TaskId) (c : CtxId) : Prop :=
  (s.tasks t).ctx = c ∨ (s.bufs (s.tasks t).buffOut).ctx = c ∨
    ∃ cb ∈ (s.tasks t).body.cBuff, (s.bufs cb).ctx = c

theorem inHand_live (h : Reachable s) {t : TaskId} (ht : s.InHand t) :
    t < s.nTask ∧ (s.sig t).freed = false := by
  rcases ht with ht | ht | ⟨ht, hg⟩
  · have hlt := pending_lt h ht
    exact ⟨hlt, live_of_not_gone h hlt (not_gone_of_pending h ht)⟩
  · have hlt := next_lt h ht
    exact ⟨hlt, live_of_not_gone h hlt (not_gone_of_held h (next_held h ht))⟩
  · have hlt := running_lt h ht
    exact ⟨hlt, live_of_not_gone h hlt hg⟩

theorem State.PastWait.not_counting {c : CtxId} (h : s.PastWait c) :
    ¬ (s.csig c).phase.Counting := by
  intro hc
  have hphase : (s.ctxs c).phase = .opened ∨ (s.ctxs c).phase = .waiting := hc
  rcases h.2 with h | h <;> rw [h] at hphase <;> simp at hphase

/-- The contexts past their loop, after one context has changed. -/
theorem State.PastWait.setCtx {c d : CtxId} {x : Context} {n : Nat} (h : s.PastWait c)
    (hn : s.nCtx ≤ n) (hx : d = c → x.phase = .closing ∨ x.phase = .freed) :
    c < n ∧ ((Function.update s.ctxs d x c).phase = .closing ∨
      (Function.update s.ctxs d x c).phase = .freed) := by
  refine ⟨Nat.lt_of_lt_of_le h.1 hn, ?_⟩
  exact update_pred (P := fun y : Context => y.phase = .closing ∨ y.phase = .freed) h.2 hx

theorem State.PastWait.isrCtxs {c : CtxId} (h : s.PastWait c) :
    c < s.nCtx ∧ ((s.isrCtxs c).phase = .closing ∨ (s.isrCtxs c).phase = .freed) := by
  have hphase : (s.isrCtxs c).phase = (s.ctxs c).phase :=
    congrArg CtxSig.phase (congrFun (csig_isrCtxs s) c)
  rw [hphase]
  exact h

/-- A release does not go back into its loop. -/
theorem State.PastWait.step {c : CtxId} (h : s.PastWait c) (hs : Step s l s') : s'.PastWait c := by
  have hne : ∀ {d : CtxId}, (s.ctxs d).phase = .opened ∨ (s.ctxs d).phase = .waiting → d ≠ c := by
    rintro d hd rfl
    exact h.not_counting hd
  cases hs with
  | createSetRefused | runRefused | run | runQueue | wait | waitLeave | waitReturn | writeRefused
  | writeQueue | readNone | read | seed | dup | close | bufferRelease | store | isrOff
  | fenceInterrupt | errorInterrupt | slotError | suspend | resume | remove | head | polled
  | sleep | again | park | drop | getNext | bindSlot | taskRun | taskFinish | runDone | runSkip
  | runFeed | fence | destroyUnbind | destroyKeep | finishing | shutdown | halt => exact h
  | openCtx =>
    refine h.setCtx (Nat.le_succ _) fun hc => ?_
    exact absurd h.1 (hc ▸ Nat.lt_irrefl _)
  | createSet d size allowed dma hopen =>
    exact h.setCtx (Nat.le_refl _) fun hc => absurd hc (hne (Or.inl hopen))
  | runCount => exact h.setCtx (Nat.le_refl _) fun hc => hc ▸ h.2
  | releaseMark d hopen =>
    exact h.setCtx (Nat.le_refl _) fun hc => absurd hc (hne (Or.inl hopen))
  | releaseWait => exact h.setCtx (Nat.le_refl _) fun _ => Or.inl rfl
  | releaseBuffer => exact h.setCtx (Nat.le_refl _) fun hc => hc ▸ h.2
  | releaseFree => exact h.setCtx (Nat.le_refl _) fun _ => Or.inr rfl
  | write => exact h.setCtx (Nat.le_refl _) fun hc => hc ▸ h.2
  | writeFail => exact h.setCtx (Nat.le_refl _) fun hc => hc ▸ h.2
  | isr => exact h.isrCtxs
  | isrFence => exact h.isrCtxs
  | runReject => exact h.setCtx (Nat.le_refl _) fun hc => hc ▸ h.2
  | account => exact h.setCtx (Nat.le_refl _) fun hc => hc ▸ h.2

/-- A call that uses a buffer keeps the owner of the buffer in its loop. -/
theorem uses_counting (h : system.ReachableBy AddrFresh s) {k : CallId} {call : Call} {b : BufId}
    (hk : s.calls k = some call) (huse : call.uses b = true) :
    (s.csig (s.bsig b).ctx).phase.Counting := by
  cases call with
  | run c cb db addr size counted =>
    obtain ⟨hcb, hdb⟩ := OwnedRuns.run_own (ownsRuns_reachable h) k c cb db addr size counted hk
    have hopen := Owned.ioctl_open (ownership_reachable h.reachable) k _ c hk
      (beq_self_eq_true c)
    have hb : (s.bsig b).ctx = c := by
      rcases Bool.or_eq_true_iff.mp huse with hu | hu
      · exact eq_of_beq hu ▸ hcb
      · exact eq_of_beq hu ▸ hdb
    rw [hb]
    exact Or.inl hopen
  | write b' c count =>
    have hb : (s.bsig b).ctx = c :=
      eq_of_beq huse ▸ (Names.call_known (scope_reachable h.reachable) k _ hk).2
    rw [hb]
    exact Tracked.call (tracks_reachable h.reachable) k _ c hk (beq_self_eq_true c)
  | wait c cnt left => cases huse

/-- `write()` on a marked buffer is refused. -/
theorem write_destroyed {b : BufId} {n : Nat} (hd : (s.bufs b).destroyed = true)
    (hs : Step s (.write b n) s') : s' = s := by
  cases hs with
  | writeRefused => rfl
  | write _ _ hfd halive => exact absurd (hd.symm.trans halive) (by decide)
  | halt _ _ hl => simp at hl

/-- With buffers that belong to the context of their task: the counter of a context is the
number of its tasks and of the calls in between, it is positive when it is lowered, and once
the release of the context is past its wait loop, no task is left that refers to the context
or its buffers and no `write()` makes a new one. -/
theorem task_accounting (h : system.ReachableBy AddrFresh s) (c : CtxId) :
    ((s.ctxs c).taskCount = tasksOf s.sig s.nTask c + callsOf s.calls s.nCall c ∧
      (∀ t caller, s.pc = .account t caller → (s.tasks t).ctx = c →
        0 < (s.ctxs c).taskCount) ∧
      ∀ k b n, s.calls k = some (.write b c n) → 0 < (s.ctxs c).taskCount) ∧
    (s.PastWait c →
      (∀ t, s.InHand t → ¬ s.RefersTo t c) ∧
      (∀ b < s.nBuf, (s.bufs b).ctx = c →
        (∀ k call, s.calls k = some call → call.uses b = false) ∧
        ∀ n s', system.step s (.write b n) = some s' → s' = s) ∧
      ∀ l s', system.step s l = some s' → s'.PastWait c) := by
  have hr := h.reachable
  have hacc := accounts_reachable hr
  have htrack := tracks_reachable hr
  have hscope := scope_reachable hr
  have hown := ownership_reachable hr
  have hruns := ownsRuns_reachable h
  refine ⟨⟨hacc c, ?_, ?_⟩, ?_⟩
  · rintro t caller hpc rfl
    have ht := account_lt hr hpc
    exact Accounted.task_pos hacc ht
      (live_of_not_gone hr ht (not_gone_of_held hr (account_held hr hpc)))
  · intro k b n hk
    exact Accounted.call_pos hacc (Names.call_lt hscope hk) hk (beq_self_eq_true c)
  · intro hpast
    refine ⟨?_, ?_, fun l s' hs => hpast.step (Step.of_step hs)⟩
    · intro t ht hrefers
      obtain ⟨hlt, hlive⟩ := inHand_live hr ht
      obtain ⟨hout, hcb⟩ := OwnedRuns.task_own hruns t hlt
      have hctx : (s.sig t).ctx = c := by
        rcases hrefers with hc | hc | ⟨cb, hmem, hc⟩
        · exact hc
        · exact hout.symm.trans hc
        · exact (hcb cb hmem).symm.trans hc
      have hcount := Tracked.task htrack t hlt hlive
      rw [hctx] at hcount
      exact hpast.not_counting hcount
    · intro b hb hbc
      have hnot : ¬ (s.csig (s.bsig b).ctx).phase.Counting := by
        rw [show (s.bsig b).ctx = c from hbc]
        exact hpast.not_counting
      refine ⟨?_, ?_⟩
      · intro k call hk
        cases huse : call.uses b with
        | false => rfl
        | true => exact absurd (uses_counting h hk huse) hnot
      · intro n s' hs
        have hdead := (Owned.destroyed_iff hown b hb).mpr fun hopen => hnot (Or.inl hopen)
        exact write_destroyed hdead (Step.of_step hs)

/-- Two contexts: the first one is released, the second one has a queued task and a `write()`
in progress. -/
def releasedFirst : List Label :=
  openOne ++ [.openCtx 8, .createSet 1 4096 0x20 0x2000] ++ writeCall 1 0 0 (fun _ => 0) ++
    [.write 1 4, .releaseMark 0, .releaseWait 0]

theorem task_accounting_releasedFirst :
    ∃ s, system.ReachableBy AddrFresh s ∧ s.PastWait 0 ∧ s.InHand 0 ∧ ¬ s.RefersTo 0 0 ∧
      (∀ k call, s.calls k = some call → call.uses 0 = false) ∧
      (s.ctxs 1).taskCount = 2 ∧ tasksOf s.sig s.nTask 1 + callsOf s.calls s.nCall 1 = 2 := by
  have hseen : seenBy AddrFresh releasedFirst (fun s => ((s.nCtx, s.nBuf), (s.ctxs 0).phase,
      s.pendingTasks, (s.bufs 0).ctx, (s.ctxs 1).taskCount)) =
      some ((2, 2), .closing, [0], 0, 2) := by
    decide
  obtain ⟨s, hr, hf⟩ := exists_seenBy hseen
  simp only [Prod.mk.injEq] at hf
  obtain ⟨⟨hn, hnb⟩, hphase, hpend, hctx, hcount⟩ := hf
  have hpast : s.PastWait 0 := ⟨by rw [hn]; decide, Or.inl hphase⟩
  have hin : s.InHand 0 := Or.inl (by rw [hpend]; decide)
  obtain ⟨-, hafter⟩ := task_accounting hr 0
  obtain ⟨⟨heq, -⟩, -⟩ := task_accounting hr 1
  obtain ⟨hrefers, hbufs, -⟩ := hafter hpast
  exact ⟨s, hr, hpast, hin, hrefers 0 hin, (hbufs 0 (by rw [hnb]; decide) hctx).1, hcount,
    heq.symm.trans hcount⟩

end Dicedev
