import Dicedev.Queue

/-!
# Names in use

A number above the counter of its kind names nothing: a context that is not open, a buffer
without references and without a slot, a task that does not exist, no system call. Whatever
the driver's structures refer to has been made. `Names` states this for the tables, apart
from the rest of the state, and `scope_reachable` for every reachable state.
-/

namespace Dicedev

open State

/-- What a system call refers to has been made, and a write call has the context of its
buffer. -/
def Call.Known (nCtx nBuf : Nat) (bsig : BufId → BufSig) : Call → Prop
  | .run c cb db _ _ _ => c < nCtx ∧ cb < nBuf ∧ db < nBuf
  | .write b c _ => b < nBuf ∧ (bsig b).ctx = c
  | .wait c _ _ => c < nCtx

def TaskSig.Known (nCtx nBuf : Nat) (t : TaskSig) : Prop :=
  t.ctx < nCtx ∧ t.buffOut < nBuf ∧ ∀ b ∈ t.cBuff, b < nBuf

/-- The tables of contexts, buffers, tasks and system calls refer to what has been made. -/
structure Names (nCtx nBuf nTask nCall : Nat) (ctxs : CtxId → Context) (bsig : BufId → BufSig)
    (sig : TaskId → TaskSig) (calls : CallId → Option Call) : Prop where
  ctx_fresh : ∀ c, nCtx ≤ c → ctxs c = default
  buf_fresh : ∀ b, nBuf ≤ b → bsig b = (default : Buffer).sig
  task_fresh : ∀ t, nTask ≤ t → (sig t).freed = true
  call_fresh : ∀ k, nCall ≤ k → calls k = none
  owner_lt : ∀ b, b < nBuf → (bsig b).ctx < nCtx
  listed_lt : ∀ c, ∀ b ∈ (ctxs c).allocatedBuffers, b < nBuf
  task_known : ∀ t, t < nTask → (sig t).Known nCtx nBuf
  call_known : ∀ k call, calls k = some call → call.Known nCtx nBuf bsig

namespace Names

variable {nCtx nBuf nTask nCall : Nat} {ctxs : CtxId → Context} {bsig : BufId → BufSig}
  {sig : TaskId → TaskSig} {calls : CallId → Option Call}

theorem ctx_lt (h : Names nCtx nBuf nTask nCall ctxs bsig sig calls) {c : CtxId}
    (hc : (ctxs c).phase ≠ .freed) : c < nCtx := by
  refine Nat.lt_of_not_le fun hge => hc ?_
  rw [h.ctx_fresh c hge]
  rfl

theorem buf_lt (h : Names nCtx nBuf nTask nCall ctxs bsig sig calls) {b : BufId}
    (hb : bsig b ≠ (default : Buffer).sig) : b < nBuf := by
  exact Nat.lt_of_not_le fun hge => hb (h.buf_fresh b hge)

theorem call_lt (h : Names nCtx nBuf nTask nCall ctxs bsig sig calls) {k : CallId} {call : Call}
    (hk : calls k = some call) : k < nCall := by
  refine Nat.lt_of_not_le fun hge => ?_
  rw [h.call_fresh k hge] at hk
  cases hk

theorem of_eq (h : Names nCtx nBuf nTask nCall ctxs bsig sig calls) {bsig' : BufId → BufSig}
    {sig' : TaskId → TaskSig} (hb : bsig' = bsig) (hs : sig' = sig) :
    Names nCtx nBuf nTask nCall ctxs bsig' sig' calls := by
  rw [hb, hs]
  exact h

/-- A context that exists changes. -/
theorem setCtx (h : Names nCtx nBuf nTask nCall ctxs bsig sig calls) {c : CtxId} {x : Context}
    (hc : c < nCtx) (hx : ∀ b ∈ x.allocatedBuffers, b < nBuf) :
    Names nCtx nBuf nTask nCall (Function.update ctxs c x) bsig sig calls := by
  refine ⟨?_, h.buf_fresh, h.task_fresh, h.call_fresh, h.owner_lt, ?_, h.task_known,
    h.call_known⟩
  · intro d hd
    rw [Function.update_of_ne (Nat.ne_of_gt (Nat.lt_of_lt_of_le hc hd))]
    exact h.ctx_fresh d hd
  · intro d b hb
    by_cases hdc : d = c
    · subst hdc
      rw [Function.update_self] at hb
      exact hx b hb
    · rw [Function.update_of_ne hdc] at hb
      exact h.listed_lt d b hb

/-- A context that exists changes its counter, its phase or its flag. -/
theorem setCtx_same (h : Names nCtx nBuf nTask nCall ctxs bsig sig calls) {c : CtxId}
    {x : Context} (hc : c < nCtx) (hx : x.allocatedBuffers = (ctxs c).allocatedBuffers) :
    Names nCtx nBuf nTask nCall (Function.update ctxs c x) bsig sig calls :=
  h.setCtx hc fun b hb => h.listed_lt c b (hx ▸ hb)

/-- Buffers that exist change, but not their owners. -/
theorem setBufs (h : Names nCtx nBuf nTask nCall ctxs bsig sig calls) {bsig' : BufId → BufSig}
    (howner : ∀ b, (bsig' b).ctx = (bsig b).ctx) (hfresh : ∀ b, nBuf ≤ b → bsig' b = bsig b) :
    Names nCtx nBuf nTask nCall ctxs bsig' sig calls := by
  refine ⟨h.ctx_fresh, ?_, h.task_fresh, h.call_fresh, ?_, h.listed_lt, h.task_known, ?_⟩
  · intro d hd
    rw [hfresh d hd]
    exact h.buf_fresh d hd
  · intro d hd
    rw [howner d]
    exact h.owner_lt d hd
  · intro k call hk
    have hknown := h.call_known k call hk
    cases call with
    | run => exact hknown
    | wait => exact hknown
    | write d c n => exact ⟨hknown.1, (howner d).trans hknown.2⟩

theorem setBuf (h : Names nCtx nBuf nTask nCall ctxs bsig sig calls) {b : BufId} {x : BufSig}
    (hb : b < nBuf) (hx : x.ctx = (bsig b).ctx) :
    Names nCtx nBuf nTask nCall ctxs (Function.update bsig b x) sig calls := by
  refine h.setBufs ?_ ?_
  · intro d
    by_cases hd : d = b
    · subst hd
      rw [Function.update_self, hx]
    · rw [Function.update_of_ne hd]
  · intro d hd
    exact Function.update_of_ne (Nat.ne_of_gt (Nat.lt_of_lt_of_le hb hd)) _ _

/-- The entry of a call that was made is replaced or taken out. -/
theorem setCall (h : Names nCtx nBuf nTask nCall ctxs bsig sig calls) {k : CallId}
    {o : Option Call} (hk : k < nCall) (ho : ∀ call ∈ o, call.Known nCtx nBuf bsig) :
    Names nCtx nBuf nTask nCall ctxs bsig sig (Function.update calls k o) := by
  refine ⟨h.ctx_fresh, h.buf_fresh, h.task_fresh, ?_, h.owner_lt, h.listed_lt, h.task_known, ?_⟩
  · intro j hj
    rw [Function.update_of_ne (Nat.ne_of_gt (Nat.lt_of_lt_of_le hk hj))]
    exact h.call_fresh j hj
  · intro j call hj
    rcases update_eq_some hj with hj | hj
    · exact ho call hj
    · exact h.call_known j call hj

/-- A call starts or goes on. -/
theorem putCall (h : Names nCtx nBuf nTask nCall ctxs bsig sig calls) {k : CallId} {x : Call}
    (hk : k < nCall) (hx : x.Known nCtx nBuf bsig) :
    Names nCtx nBuf nTask nCall ctxs bsig sig (Function.update calls k (some x)) := by
  refine h.setCall hk fun call heq => ?_
  obtain rfl := Option.some.inj heq
  exact hx

/-- The counter of the calls goes up. -/
theorem nextCall (h : Names nCtx nBuf nTask nCall ctxs bsig sig calls) :
    Names nCtx nBuf nTask (nCall + 1) ctxs bsig sig calls :=
  ⟨h.ctx_fresh, h.buf_fresh, h.task_fresh, fun k hk => h.call_fresh k (Nat.le_of_succ_le hk),
    h.owner_lt, h.listed_lt, h.task_known, h.call_known⟩

/-- A new task is entered. -/
theorem addTask (h : Names nCtx nBuf nTask nCall ctxs bsig sig calls) {x : TaskSig}
    (hx : x.Known nCtx nBuf) :
    Names nCtx nBuf (nTask + 1) nCall ctxs bsig (Function.update sig nTask x) calls := by
  refine ⟨h.ctx_fresh, h.buf_fresh, ?_, h.call_fresh, h.owner_lt, h.listed_lt, ?_, h.call_known⟩
  · intro t ht
    rw [Function.update_of_ne (Nat.ne_of_gt ht)]
    exact h.task_fresh t (Nat.le_of_succ_le ht)
  · exact forall_lt_succ_update (P := fun _ (y : TaskSig) => y.Known nCtx nBuf) hx h.task_known

/-- A task is freed. -/
theorem freeTask (h : Names nCtx nBuf nTask nCall ctxs bsig sig calls) (t : TaskId) :
    Names nCtx nBuf nTask nCall ctxs bsig
      (Function.update sig t { sig t with freed := true }) calls := by
  refine ⟨h.ctx_fresh, h.buf_fresh, ?_, h.call_fresh, h.owner_lt, h.listed_lt, ?_, h.call_known⟩
  · intro u hu
    by_cases hut : u = t
    · subst hut
      rw [Function.update_self]
    · rw [Function.update_of_ne hut]
      exact h.task_fresh u hu
  · intro u hu
    have hknown := h.task_known u hu
    exact update_pred (P := fun y : TaskSig => y.Known nCtx nBuf) hknown fun htu => htu ▸ hknown

/-- A new context is opened. -/
theorem addCtx (h : Names nCtx nBuf nTask nCall ctxs bsig sig calls) {x : Context}
    (hx : x.allocatedBuffers = []) :
    Names (nCtx + 1) nBuf nTask nCall (Function.update ctxs nCtx x) bsig sig calls := by
  refine ⟨?_, h.buf_fresh, h.task_fresh, h.call_fresh, ?_, ?_, ?_, ?_⟩
  · intro d hd
    rw [Function.update_of_ne (Nat.ne_of_gt hd)]
    exact h.ctx_fresh d (Nat.le_of_succ_le hd)
  · intro b hb
    exact Nat.lt_succ_of_lt (h.owner_lt b hb)
  · intro d b hb
    by_cases hd : d = nCtx
    · subst hd
      rw [Function.update_self, hx] at hb
      cases hb
    · rw [Function.update_of_ne hd] at hb
      exact h.listed_lt d b hb
  · intro t ht
    obtain ⟨hc, hb, hcb⟩ := h.task_known t ht
    exact ⟨Nat.lt_succ_of_lt hc, hb, hcb⟩
  · intro k call hk
    have hknown := h.call_known k call hk
    cases call with
    | run => exact ⟨Nat.lt_succ_of_lt hknown.1, hknown.2⟩
    | write => exact hknown
    | wait => exact Nat.lt_succ_of_lt hknown

/-- A new buffer of a context that exists. -/
theorem addBuf (h : Names nCtx nBuf nTask nCall ctxs bsig sig calls) {x : BufSig}
    (hx : x.ctx < nCtx) :
    Names nCtx (nBuf + 1) nTask nCall ctxs (Function.update bsig nBuf x) sig calls := by
  refine ⟨h.ctx_fresh, ?_, h.task_fresh, h.call_fresh, ?_, ?_, ?_, ?_⟩
  · intro d hd
    rw [Function.update_of_ne (Nat.ne_of_gt hd)]
    exact h.buf_fresh d (Nat.le_of_succ_le hd)
  · exact forall_lt_succ_update (P := fun _ (y : BufSig) => y.ctx < nCtx) hx h.owner_lt
  · intro c b hb
    exact Nat.lt_succ_of_lt (h.listed_lt c b hb)
  · intro t ht
    obtain ⟨hc, hb, hcb⟩ := h.task_known t ht
    exact ⟨hc, Nat.lt_succ_of_lt hb, fun b hb => Nat.lt_succ_of_lt (hcb b hb)⟩
  · intro k call hk
    have hknown := h.call_known k call hk
    cases call with
    | run =>
      exact ⟨hknown.1, Nat.lt_succ_of_lt hknown.2.1, Nat.lt_succ_of_lt hknown.2.2⟩
    | wait => exact hknown
    | write b c n =>
      refine ⟨Nat.lt_succ_of_lt hknown.1, ?_⟩
      rw [Function.update_of_ne (Nat.ne_of_lt hknown.1)]
      exact hknown.2

end Names

/-! ## Reachable states -/

def Scope (s : State) : Prop :=
  Names s.nCtx s.nBuf s.nTask s.nCall s.ctxs s.bsig s.sig s.calls

variable {s s' : State} {l : Label}

theorem Scope.fd_lt (h : Scope s) {b : BufId} (hb : 0 < (s.bufs b).fdRefs) : b < s.nBuf := by
  refine Names.buf_lt h fun heq => ?_
  have : (s.bufs b).fdRefs = 0 := congrArg BufSig.fdRefs heq
  omega

theorem Scope.bound_lt (h : Scope s) {b : BufId} (hb : (s.bufs b).bindedSlot ≠ none) :
    b < s.nBuf :=
  Names.buf_lt h fun heq => hb (congrArg BufSig.bindedSlot heq)

theorem Scope.unfreed_lt (h : Scope s) {b : BufId} (hb : (s.bufs b).freed = false) :
    b < s.nBuf :=
  Names.buf_lt h fun heq => by
    have : (s.bufs b).freed = true := congrArg BufSig.freed heq
    rw [hb] at this
    cases this

theorem Scope.opened_lt (h : Scope s) {c : CtxId} (hc : (s.ctxs c).phase = .opened) :
    c < s.nCtx :=
  Names.ctx_lt h (by rw [hc]; decide)

/-- The error branch of the interrupt handler blames an existing context. -/
theorem Scope.isrCtxs (hr : Reachable s) (h : Scope s) :
    Names s.nCtx s.nBuf s.nTask s.nCall s.isrCtxs s.bsig s.sig s.calls := by
  unfold State.isrCtxs
  split
  · exact h
  · rename_i t ht
    split
    · exact Names.setCtx_same h (Names.task_known h t (running_lt hr ht)).1 rfl
    · exact h

theorem Scope.unbound (h : Scope s) (b : BufId) :
    Names s.nCtx s.nBuf s.nTask s.nCall s.ctxs (Buffer.sig ∘ (s.unbound b).bufs) s.sig
      s.calls := by
  by_cases hb : (s.bufs b).bindedSlot = none
  · rw [unbound_of_none hb]
    exact h
  · rw [bsig_unbound]
    exact Names.setBuf h (h.bound_lt hb) rfl

theorem Scope.queued (h : Scope s) {k : CallId} {call : Call} {task : Task}
    (hk : s.calls k = some call) (htask : task.sig.Known s.nCtx s.nBuf) :
    Scope (s.queued k task) := by
  have h1 := Names.setCall (o := none) h (Names.call_lt h hk) (by simp)
  refine (h1.addTask htask).of_eq rfl ?_
  exact Function.comp_update _ _ _ _

theorem Scope.step (hr : Reachable s) (h : Scope s) (hs : Step s l s') : Scope s' := by
  cases hs with
  | createSetRefused | writeRefused | readNone | isrOff | fenceInterrupt | errorInterrupt
  | slotError | suspend | resume | remove | head | polled | sleep | again | park | drop
  | getNext | taskFinish | runDone | fence | destroyKeep | finishing | shutdown | halt => exact h
  | openCtx addr => exact Names.addCtx h rfl
  | createSet c size allowed dma hopen =>
    have hc := h.opened_lt hopen
    have h1 := Names.addBuf (x := (newBuffer c size allowed dma).sig) h hc
    have h2 := h1.setCtx (c := c) (x := { s.ctxs c with
      allocatedBuffers := s.nBuf :: (s.ctxs c).allocatedBuffers }) hc ?_
    · exact h2.of_eq (Function.comp_update _ _ _ _) rfl
    · intro b hb
      rcases List.mem_cons.mp hb with rfl | hb
      · exact Nat.lt_succ_self _
      · exact h1.listed_lt c b hb
  | runRefused c cb db addr size shared alloc leak =>
    exact Names.of_eq h (bsig_leakBufs s cb db leak) rfl
  | run c cb db addr size shared alloc hopen hcb hdb =>
    have h1 := Names.putCall (x := .run c cb db addr.toNat size.toNat false)
      (Names.nextCall h) (Nat.lt_succ_self _) ⟨h.opened_lt hopen, h.fd_lt hcb, h.fd_lt hdb⟩
    exact h1.of_eq (bsig_leakBufs s cb db shared) rfl
  | runCount k c cb db addr size hcall =>
    have hknown := Names.call_known h k _ hcall
    have h1 := Names.setCtx_same (c := c) (x := { s.ctxs c with
      taskCount := (s.ctxs c).taskCount + 1 }) h hknown.1 rfl
    exact h1.putCall (Names.call_lt h hcall) hknown
  | runQueue k c cb db addr size hcall =>
    have hknown := Names.call_known h k _ hcall
    refine h.queued hcall ⟨hknown.1, hknown.2.2, ?_⟩
    intro b hb
    cases hb
    exact hknown.2.1
  | wait c cnt hopen =>
    exact Names.putCall (Names.nextCall h) (Nat.lt_succ_self _) (h.opened_lt hopen)
  | waitLeave k c cnt hcall =>
    have hknown := Names.call_known h k _ hcall
    exact Names.putCall h (Names.call_lt h hcall) hknown
  | waitReturn k c cnt hcall => exact Names.setCall h (Names.call_lt h hcall) (by simp)
  | releaseMark c hopen =>
    have h1 := Names.setCtx_same (c := c) (x := { s.ctxs c with phase := .waiting }) h
      (h.opened_lt hopen) rfl
    refine h1.setBufs ?_ ?_
    · intro b
      simp only [bsig, Function.comp_apply]
      split <;> rfl
    · intro b hb
      have hnot : b ∉ (s.ctxs c).allocatedBuffers := fun hmem =>
        absurd (Names.listed_lt h c b hmem) (Nat.not_lt_of_le hb)
      simp only [bsig, Function.comp_apply, hnot, if_false]
  | releaseWait c hwait =>
    exact Names.setCtx_same h (Names.ctx_lt h (by rw [hwait]; decide)) rfl
  | releaseBuffer c b rest hclosing hlist =>
    have hb : b < s.nBuf := Names.listed_lt h c b (by rw [hlist]; simp)
    have h1 := (h.unbound b).setBuf (x := { Buffer.sig ((s.unbound b).bufs b) with
      ctxRef := false }) hb rfl
    have h2 := h1.setCtx (c := c) (x := { s.ctxs c with allocatedBuffers := rest })
      (Names.ctx_lt h (by rw [hclosing]; decide)) ?_
    · exact h2.of_eq (Function.comp_update _ _ _ _) rfl
    · intro d hd
      exact Names.listed_lt h c d (by rw [hlist]; exact List.mem_cons_of_mem _ hd)
  | releaseFree c hclosing =>
    exact Names.setCtx_same h (Names.ctx_lt h (by rw [hclosing]; decide)) rfl
  | write b count hfd =>
    have hb := h.fd_lt hfd
    have h1 := Names.setCtx_same (c := (s.bufs b).ctx) (x := { s.ctxs (s.bufs b).ctx with
      taskCount := (s.ctxs (s.bufs b).ctx).taskCount + 1 }) h (Names.owner_lt h b hb) rfl
    exact h1.nextCall.putCall (Nat.lt_succ_self _) ⟨hb, rfl⟩
  | writeFail k b c count hcall =>
    have hknown := Names.call_known h k _ hcall
    have hc : c < s.nCtx := hknown.2 ▸ Names.owner_lt h b hknown.1
    have h1 := Names.setCtx_same (c := c) (x := { s.ctxs c with
      taskCount := sizeDec (s.ctxs c).taskCount }) h hc rfl
    exact h1.setCall (Names.call_lt h hcall) (by simp)
  | writeQueue k cmd b c count hcall =>
    have hknown := Names.call_known h k _ hcall
    have hc : c < s.nCtx := hknown.2 ▸ Names.owner_lt h b hknown.1
    exact h.queued hcall ⟨hc, hknown.1, by simp [Task.sig, TaskBody.cBuff]⟩
  | read | seed | store => exact Names.of_eq h (comp_update_of_eq rfl) rfl
  | dup b hfd | close b hfd =>
    refine Names.of_eq (Names.setBuf h (h.fd_lt hfd) ?_) (Function.comp_update _ _ _ _) rfl
    rfl
  | bufferRelease b hfreed =>
    have h1 := (h.unbound b).setBuf (x := { Buffer.sig ((s.unbound b).bufs b) with
      freed := true }) (h.unfreed_lt hfreed) rfl
    exact h1.of_eq (Function.comp_update _ _ _ _) rfl
  | isr => exact h.isrCtxs hr
  | isrFence => exact h.isrCtxs hr
  | bindSlot t b i hpc hnext hout =>
    have hb : b < s.nBuf := hout ▸ (Names.task_known h t (next_lt hr hnext)).2.1
    refine Names.of_eq (Names.setBuf h hb ?_) (Function.comp_update _ _ _ _) rfl
    rfl
  | taskRun t => exact Names.of_eq h rfl (sig_initIt s t)
  | runSkip t left task left' hpc hrun hpass => exact Names.of_eq h rfl (sig_pass hpass)
  | runFeed t left task words user left' hpc hrun hpass =>
    exact Names.of_eq h rfl (sig_pass hpass)
  | runReject t left task hpc hrun hpass =>
    have hctx : task.ctx = (s.tasks t).ctx := congrArg TaskSig.ctx (passOf_sig hpass)
    have hc : task.ctx < s.nCtx := hctx ▸ (Names.task_known h t (running_lt hr hrun)).1
    refine Names.of_eq (Names.setCtx_same h hc ?_) rfl (sig_pass hpass)
    rfl
  | destroyUnbind t c b => exact h.unbound b
  | account t caller c b hpc hctx hout =>
    have hc : c < s.nCtx := hctx ▸ (Names.task_known h t (account_lt hr hpc)).1
    have h1 := Names.setCtx_same (c := c) (x := { s.ctxs c with
      taskCount := sizeDec (s.ctxs c).taskCount }) h hc rfl
    exact (h1.freeTask t).of_eq (comp_update_of_eq rfl) (Function.comp_update _ _ _ _)

theorem scope_probed : Scope probed := by
  constructor
  · exact fun _ _ => rfl
  · exact fun _ _ => rfl
  · exact fun _ _ => rfl
  · exact fun _ _ => rfl
  · exact fun b hb => absurd hb (Nat.not_lt_zero b)
  · intro c b hb
    cases hb
  · exact fun t ht => absurd ht (Nat.not_lt_zero t)
  · intro k call hk
    cases hk

theorem scope_reachable (h : Reachable s) : Scope s :=
  Machine.Reachable.invariant_of (fun _ hr => hr) scope_probed
    (fun _ _ _ hr hI hs => Scope.step hr hI (Step.of_step hs)) h

/-- The buffer of a task has been made. -/
theorem out_lt (h : Reachable s) {t : TaskId} (ht : t < s.nTask) : s.out t < s.nBuf :=
  (Names.task_known (scope_reachable h) t ht).2.1

end Dicedev
