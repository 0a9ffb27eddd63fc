import Dicedev.Ownership

/-!
# The owner test of RUN

`DICEDEV_IOCTL_RUN` compares addresses, and a buffer can outlive its context. So the test
means ownership only while no new context gets the address of the owner of an old buffer
(`AddrFresh`): `run_owns_buffers`. Without that condition it fails, `run_stale_buffer`.
-/

namespace Dicedev

open State

variable {s s' : State} {l : Label}

/-- A new context does not get the address of the owner of a buffer that still exists. In
particular this holds when no two contexts ever have the same address. -/
def AddrFresh (s : State) : Label → Prop
  | .openCtx addr =>
    ∀ b < s.nBuf, (s.bufs b).freed = false → (s.ctxs (s.bufs b).ctx).addr ≠ addr
  | _ => True

instance (s : State) (l : Label) : Decidable (AddrFresh s l) := by
  apply @Label.casesOn (fun l => Decidable (AddrFresh s l)) l <;> intros <;>
    unfold AddrFresh <;> infer_instance

/-- With fresh addresses the test of `DICEDEV_IOCTL_RUN` is a test for the owner, and what
has passed it is owned by its context. -/
structure OwnedRuns (nBuf nTask : Nat) (csig : CtxId → CtxSig) (bsig : BufId → BufSig)
    (sig : TaskId → TaskSig) (calls : CallId → Option Call) : Prop where
  own_addr : ∀ b c, b < nBuf → (bsig b).freed = false → (csig c).phase ≠ .freed →
    (csig (bsig b).ctx).addr = (csig c).addr → (bsig b).ctx = c
  run_own : ∀ k c cb db a z n, calls k = some (.run c cb db a z n) →
    (bsig cb).ctx = c ∧ (bsig db).ctx = c
  task_own : ∀ t, t < nTask → (bsig (sig t).buffOut).ctx = (sig t).ctx ∧
    ∀ cb ∈ (sig t).cBuff, (bsig cb).ctx = (sig t).ctx

namespace OwnedRuns

variable {nBuf nTask : Nat} {csig csig' : CtxId → CtxSig} {bsig bsig' : BufId → BufSig}
  {sig sig' : TaskId → TaskSig} {calls calls' : CallId → Option Call}

/-- Buffers and contexts may only disappear, and no RUN call may appear. -/
theorem mono (h : OwnedRuns nBuf nTask csig bsig sig calls)
    (hctx : ∀ b, (bsig' b).ctx = (bsig b).ctx)
    (hfreed : ∀ b, (bsig' b).freed = false → (bsig b).freed = false)
    (hcsig : ∀ c, (csig' c).addr = (csig c).addr ∧
      ((csig' c).phase ≠ .freed → (csig c).phase ≠ .freed))
    (hcalls : ∀ k c cb db a z n, calls' k = some (.run c cb db a z n) →
      ∃ j m, calls j = some (.run c cb db a z m))
    (hsig : sig' = sig) : OwnedRuns nBuf nTask csig' bsig' sig' calls' := by
  refine ⟨?_, ?_, ?_⟩
  · intro b c hb hf hc haddr
    rw [hctx, (hcsig _).1, (hcsig _).1] at haddr
    rw [hctx]
    exact h.own_addr b c hb (hfreed b hf) ((hcsig c).2 hc) haddr
  · intro k c cb db a z n hk
    obtain ⟨j, m, hj⟩ := hcalls k c cb db a z n hk
    rw [hctx, hctx]
    exact h.run_own j c cb db a z m hj
  · intro t ht
    obtain ⟨hout, hcb⟩ := h.task_own t ht
    rw [hsig, hctx]
    refine ⟨hout, ?_⟩
    intro cb hmem
    rw [hctx]
    exact hcb cb hmem

/-- One buffer changes, but neither its owner nor that it was freed. -/
theorem setBuf (h : OwnedRuns nBuf nTask csig bsig sig calls) {b : BufId} {x : BufSig}
    (hctx : x.ctx = (bsig b).ctx) (hfreed : x.freed = false → (bsig b).freed = false) :
    OwnedRuns nBuf nTask csig (Function.update bsig b x) sig calls := by
  refine h.mono (update_field BufSig.ctx hctx) ?_ (fun _ => ⟨rfl, id⟩)
    (fun k c cb db a z n hk => ⟨k, n, hk⟩) rfl
  intro d
  exact update_pred (P := fun y : BufSig => y.freed = false → (bsig d).freed = false) id
    fun hbd => hbd ▸ hfreed

/-- One context changes its list or moves on. -/
theorem setCtx (h : OwnedRuns nBuf nTask csig bsig sig calls) {c : CtxId} {x : CtxSig}
    (haddr : x.addr = (csig c).addr) (hphase : (csig c).phase ≠ .freed) :
    OwnedRuns nBuf nTask (Function.update csig c x) bsig sig calls := by
  refine h.mono (fun _ => rfl) (fun _ => id) (fun d => ⟨update_field CtxSig.addr haddr d, ?_⟩)
    (fun k c cb db a z n hk => ⟨k, n, hk⟩) rfl
  exact update_pred (P := fun y : CtxSig => y.phase ≠ .freed → (csig d).phase ≠ .freed) id
    fun hcd _ => hcd ▸ hphase

theorem of_eq (h : OwnedRuns nBuf nTask csig bsig sig calls) (hc : csig' = csig)
    (hb : bsig' = bsig) (hs : sig' = sig) : OwnedRuns nBuf nTask csig' bsig' sig' calls := by
  rw [hc, hb, hs]
  exact h

/-- A call that is no RUN call, or the RUN call that was there before. -/
theorem setCall (h : OwnedRuns nBuf nTask csig bsig sig calls) (k : CallId) {o : Option Call}
    (ho : ∀ c cb db a z n, o = some (.run c cb db a z n) →
      ∃ j m, calls j = some (.run c cb db a z m)) :
    OwnedRuns nBuf nTask csig bsig sig (Function.update calls k o) := by
  refine h.mono (fun _ => rfl) (fun _ hf => hf) (fun _ => ⟨rfl, id⟩) ?_ rfl
  intro j c cb db a z n hj
  rcases update_eq_some hj with hj | hj
  · exact ho c cb db a z n hj
  · exact ⟨j, n, hj⟩

/-- A RUN call that has passed the owner test. -/
theorem addRun (h : OwnedRuns nBuf nTask csig bsig sig calls) {k c cb db a z : Nat} {n : Bool}
    (hcb : (bsig cb).ctx = c) (hdb : (bsig db).ctx = c) :
    OwnedRuns nBuf nTask csig bsig sig
      (Function.update calls k (some (.run c cb db a z n))) := by
  refine ⟨h.own_addr, ?_, h.task_own⟩
  intro j c' cb' db' a' z' n' hj
  rcases update_eq_some hj with hj | hj
  · cases hj
    exact ⟨hcb, hdb⟩
  · exact h.run_own j c' cb' db' a' z' n' hj

theorem addTask (h : OwnedRuns nBuf nTask csig bsig sig calls) {x : TaskSig}
    (hx : (bsig x.buffOut).ctx = x.ctx ∧ ∀ cb ∈ x.cBuff, (bsig cb).ctx = x.ctx) :
    OwnedRuns nBuf (nTask + 1) csig bsig (Function.update sig nTask x) calls := by
  refine ⟨h.own_addr, h.run_own, ?_⟩
  exact forall_lt_succ_update
    (P := fun _ (y : TaskSig) =>
      (bsig y.buffOut).ctx = y.ctx ∧ ∀ cb ∈ y.cBuff, (bsig cb).ctx = y.ctx)
    hx h.task_own

/-- One task is freed. -/
theorem setTask (h : OwnedRuns nBuf nTask csig bsig sig calls) {t : TaskId} {x : TaskSig}
    (hx : x = { sig t with freed := x.freed }) :
    OwnedRuns nBuf nTask csig bsig (Function.update sig t x) calls := by
  refine ⟨h.own_addr, h.run_own, ?_⟩
  intro u hu
  by_cases hut : u = t
  · subst hut
    rw [Function.update_self, hx]
    exact h.task_own u hu
  · rw [Function.update_of_ne hut]
    exact h.task_own u hu

theorem addCtx (h : OwnedRuns nBuf nTask csig bsig sig calls) (n addr : Nat)
    (howner : ∀ b, b < nBuf → (bsig b).ctx ≠ n)
    (hfresh : ∀ b, b < nBuf → (bsig b).freed = false → (csig (bsig b).ctx).addr ≠ addr) :
    OwnedRuns nBuf nTask (Function.update csig n ⟨addr, [], .opened⟩) bsig sig calls := by
  refine ⟨?_, h.run_own, h.task_own⟩
  intro b c hb hf hc haddr
  rw [Function.update_of_ne (howner b hb)] at haddr
  by_cases hcn : c = n
  · subst hcn
    rw [Function.update_self] at haddr
    exact absurd haddr (hfresh b hb hf)
  · rw [Function.update_of_ne hcn] at hc haddr
    exact h.own_addr b c hb hf hc haddr

/-- A new buffer, which nothing refers to yet. -/
theorem addBuf (h : OwnedRuns nBuf nTask csig bsig sig calls) {x : BufSig}
    (hx : ∀ c, (csig c).phase ≠ .freed → (csig x.ctx).addr = (csig c).addr → x.ctx = c)
    (hcalls : ∀ k c cb db a z n, calls k = some (.run c cb db a z n) → cb < nBuf ∧ db < nBuf)
    (htasks : ∀ t, t < nTask → (sig t).buffOut < nBuf ∧ ∀ cb ∈ (sig t).cBuff, cb < nBuf) :
    OwnedRuns (nBuf + 1) nTask csig (Function.update bsig nBuf x) sig calls := by
  have hold : ∀ b, b < nBuf → Function.update bsig nBuf x b = bsig b := fun b hb =>
    Function.update_of_ne (Nat.ne_of_lt hb) _ _
  refine ⟨?_, ?_, ?_⟩
  · intro b c hb hf hc haddr
    by_cases hbn : b = nBuf
    · subst hbn
      rw [Function.update_self] at haddr ⊢
      exact hx c hc haddr
    · have hlt := Nat.lt_of_le_of_ne (Nat.le_of_lt_succ hb) hbn
      rw [hold b hlt] at hf haddr ⊢
      exact h.own_addr b c hlt hf hc haddr
  · intro k c cb db a z n hk
    obtain ⟨hcb, hdb⟩ := hcalls k c cb db a z n hk
    rw [hold cb hcb, hold db hdb]
    exact h.run_own k c cb db a z n hk
  · intro t ht
    obtain ⟨hout, hcb⟩ := htasks t ht
    rw [hold _ hout]
    refine ⟨(h.task_own t ht).1, ?_⟩
    intro cb hmem
    rw [hold cb (hcb cb hmem)]
    exact (h.task_own t ht).2 cb hmem

end OwnedRuns

def OwnsRuns (s : State) : Prop :=
  OwnedRuns s.nBuf s.nTask s.csig s.bsig s.sig s.calls

/-- A RUN that passes its checks has two buffers with the address of its context. -/
theorem ioctlRunCheck_addr {c : CtxId} {cb db : BufId} {addr size : Nat}
    (h : s.ioctlRunCheck c cb db addr size = none) :
    (s.ctxs (s.bufs cb).ctx).addr = (s.ctxs c).addr ∧
      (s.ctxs (s.bufs db).ctx).addr = (s.ctxs c).addr := by
  unfold ioctlRunCheck at h
  split at h
  · cases h
  · split at h
    · cases h
    · split at h
      · cases h
      · rename_i haddr
        rw [not_or, not_not, not_not] at haddr
        exact haddr

/-- A buffer with an open file has not been freed. -/
theorem Ownership.unfreed (h : Ownership s) {b : BufId} (hfd : 0 < (s.bufs b).fdRefs) :
    (s.bufs b).freed = false := by
  cases hf : (s.bufs b).freed with
  | false => rfl
  | true =>
    have hzero : (s.bufs b).fdRefs = 0 := (Owned.freed_unref h b hf).2
    omega

theorem phase_ne_freed {c : CtxId} {p : Phase} (h : (s.ctxs c).phase = p) (hp : p ≠ .freed) :
    (s.csig c).phase ≠ .freed :=
  fun hf => hp (h.symm.trans hf)

/-- With fresh addresses, a RUN that passes its checks has buffers of its own context. -/
theorem OwnsRuns.of_check (hr : Reachable s) (h : OwnsRuns s) {c : CtxId} {cb db : BufId}
    {addr size : Nat} (hopen : (s.ctxs c).phase = .opened) (hcb : 0 < (s.bufs cb).fdRefs)
    (hdb : 0 < (s.bufs db).fdRefs) (hcheck : s.ioctlRunCheck c cb db addr size = none) :
    (s.bufs cb).ctx = c ∧ (s.bufs db).ctx = c := by
  have hscope := scope_reachable hr
  have hown := ownership_reachable hr
  have hphase := phase_ne_freed hopen (by decide)
  obtain ⟨hcaddr, hdaddr⟩ := ioctlRunCheck_addr hcheck
  exact ⟨h.own_addr cb c (hscope.fd_lt hcb) (hown.unfreed hcb) hphase hcaddr,
    h.own_addr db c (hscope.fd_lt hdb) (hown.unfreed hdb) hphase hdaddr⟩

theorem OwnsRuns.queued (h : OwnsRuns s) {k : CallId} {task : Task}
    (htask : (s.bsig task.sig.buffOut).ctx = task.sig.ctx ∧
      ∀ cb ∈ task.sig.cBuff, (s.bsig cb).ctx = task.sig.ctx) :
    OwnsRuns (s.queued k task) := by
  have h1 := OwnedRuns.setCall (o := none) h k (by simp)
  exact (h1.addTask htask).of_eq rfl rfl (Function.comp_update _ _ _ _)

theorem OwnsRuns.unbound (h : OwnsRuns s) (b : BufId) :
    OwnedRuns s.nBuf s.nTask s.csig (Buffer.sig ∘ (s.unbound b).bufs) s.sig s.calls := by
  rw [bsig_unbound]
  exact OwnedRuns.setBuf h rfl id

theorem OwnsRuns.step (hr : Reachable s) (h : OwnsRuns s) (hfresh : AddrFresh s l)
    (hs : Step s l s') : OwnsRuns s' := by
  have hscope := scope_reachable hr
  cases hs with
  | createSetRefused | writeRefused | readNone | isrOff | fenceInterrupt | errorInterrupt
  | slotError | suspend | resume | remove | head | polled | sleep | again | park | drop
  | getNext | taskFinish | runDone | fence | destroyKeep | finishing | shutdown | halt => exact h
  | openCtx addr =>
    have h1 := OwnedRuns.addCtx h s.nCtx addr
      (fun b hb => Nat.ne_of_lt (Names.owner_lt hscope b hb)) hfresh
    exact h1.of_eq (Function.comp_update _ _ _ _) rfl rfl
  | createSet c size allowed dma hopen =>
    have hphase := phase_ne_freed hopen (by decide)
    have h1 := OwnedRuns.addBuf (x := (newBuffer c size allowed dma).sig) h
      (fun d hd haddr => Owned.addr_inj (ownership_reachable hr) c d hphase hd haddr)
      (fun k d cb db a z n hk => (Names.call_known hscope k _ hk).2)
      (fun t ht => (Names.task_known hscope t ht).2)
    have h2 := h1.setCtx (c := c) (x := Context.sig { s.ctxs c with
      allocatedBuffers := s.nBuf :: (s.ctxs c).allocatedBuffers }) rfl hphase
    exact h2.of_eq (Function.comp_update _ _ _ _) (Function.comp_update _ _ _ _) rfl
  | runRefused c cb db addr size shared alloc leak =>
    exact OwnedRuns.of_eq h rfl (bsig_leakBufs s cb db leak) rfl
  | run c cb db addr size shared alloc hopen hcb hdb hcheck =>
    obtain ⟨hcown, hdown⟩ := h.of_check hr hopen hcb hdb hcheck
    exact (OwnedRuns.addRun h hcown hdown).of_eq rfl (bsig_leakBufs s cb db shared) rfl
  | runCount k c cb db addr size hcall =>
    have hown := OwnedRuns.run_own h k c cb db addr size false hcall
    exact (OwnedRuns.addRun h hown.1 hown.2).of_eq (comp_update_of_eq rfl) rfl rfl
  | runQueue k c cb db addr size hcall =>
    have hown := OwnedRuns.run_own h k c cb db addr size true hcall
    refine h.queued ⟨hown.2, ?_⟩
    intro b hb
    cases hb
    exact hown.1
  | writeQueue k cmd b c count hcall =>
    have hknown := Names.call_known hscope k _ hcall
    exact h.queued ⟨hknown.2, by simp [Task.sig, TaskBody.cBuff]⟩
  | wait => exact OwnedRuns.setCall h s.nCall (by simp)
  | waitLeave k => exact OwnedRuns.setCall h k (by simp)
  | waitReturn k => exact OwnedRuns.setCall h k (by simp)
  | releaseMark c hopen =>
    have hphase := phase_ne_freed hopen (by decide)
    have h1 := OwnedRuns.setCtx (c := c) (x := Context.sig { s.ctxs c with phase := .waiting }) h
      rfl hphase
    refine (h1.mono ?_ ?_ (fun _ => ⟨rfl, id⟩) (fun k c cb db a z n hk => ⟨k, n, hk⟩) rfl).of_eq
      (Function.comp_update _ _ _ _) rfl rfl
    · intro b
      simp only [bsig, Function.comp_apply]
      split <;> rfl
    · intro b
      simp only [bsig, Function.comp_apply]
      split <;> exact id
  | releaseWait c hwait =>
    have hphase := phase_ne_freed hwait (by decide)
    exact (OwnedRuns.setCtx (x := Context.sig { s.ctxs c with phase := .closing }) h rfl
      hphase).of_eq (Function.comp_update _ _ _ _) rfl rfl
  | releaseBuffer c b rest hclosing =>
    have hphase := phase_ne_freed hclosing (by decide)
    have h1 := (h.unbound b).setBuf (b := b) (x := { Buffer.sig ((s.unbound b).bufs b) with
      ctxRef := false }) rfl id
    have h2 := h1.setCtx (c := c) (x := Context.sig { s.ctxs c with allocatedBuffers := rest })
      rfl hphase
    exact h2.of_eq (Function.comp_update _ _ _ _) (Function.comp_update _ _ _ _) rfl
  | releaseFree c hclosing =>
    have hphase := phase_ne_freed hclosing (by decide)
    exact (OwnedRuns.setCtx (x := Context.sig { s.ctxs c with phase := .freed }) h rfl
      hphase).of_eq (Function.comp_update _ _ _ _) rfl rfl
  | write => exact (OwnedRuns.setCall h s.nCall (by simp)).of_eq (comp_update_of_eq rfl) rfl rfl
  | writeFail k => exact (OwnedRuns.setCall h k (by simp)).of_eq (comp_update_of_eq rfl) rfl rfl
  | read | seed | store => exact OwnedRuns.of_eq h rfl (comp_update_of_eq rfl) rfl
  | dup b | close b | bindSlot t b =>
    refine (OwnedRuns.setBuf (b := b) h ?_ ?_).of_eq rfl (Function.comp_update _ _ _ _) rfl
    · rfl
    · exact id
  | bufferRelease b =>
    have h1 := (h.unbound b).setBuf (b := b) (x := { Buffer.sig ((s.unbound b).bufs b) with
      freed := true }) rfl (fun hf => by cases hf)
    exact h1.of_eq rfl (Function.comp_update _ _ _ _) rfl
  | isr => exact OwnedRuns.of_eq h (csig_isrCtxs s) rfl rfl
  | isrFence => exact OwnedRuns.of_eq h (csig_isrCtxs s) rfl rfl
  | taskRun t => exact OwnedRuns.of_eq h rfl rfl (sig_initIt s t)
  | runSkip t left task left' hpc hrun hpass => exact OwnedRuns.of_eq h rfl rfl (sig_pass hpass)
  | runFeed t left task words user left' hpc hrun hpass =>
    exact OwnedRuns.of_eq h rfl rfl (sig_pass hpass)
  | runReject t left task hpc hrun hpass =>
    exact OwnedRuns.of_eq h (comp_update_of_eq rfl) rfl (sig_pass hpass)
  | destroyUnbind t c b => exact h.unbound b
  | account t =>
    have h1 := OwnedRuns.setTask (t := t) (x := Task.sig { s.tasks t with freed := true }) h rfl
    exact h1.of_eq (comp_update_of_eq rfl) (comp_update_of_eq rfl) (Function.comp_update _ _ _ _)

theorem ownsRuns_probed : OwnsRuns probed := by
  refine ⟨?_, ?_, ?_⟩
  · intro b c hb
    exact absurd hb (Nat.not_lt_zero b)
  · intro k c cb db a z n hk
    cases hk
  · intro t ht
    exact absurd ht (Nat.not_lt_zero t)

theorem ownsRuns_reachable (h : system.ReachableBy AddrFresh s) : OwnsRuns s :=
  Machine.ReachableBy.invariant_of (fun _ hr => hr) ownsRuns_probed
    (fun _ _ _ hr hI hC hs => hI.step hr hC (Step.of_step hs)) h

/-- `b` was created by a `CREATE_SET` on the open context `c` and is not destroyed. -/
def State.OwnedBy (s : State) (c : CtxId) (b : BufId) : Prop :=
  (s.ctxs c).phase = .opened ∧ (s.bufs b).ctx = c ∧ b ∈ (s.ctxs c).allocatedBuffers ∧
    (s.bufs b).destroyed = false

theorem Ownership.ownedBy (h : Ownership s) {c : CtxId} {b : BufId} (hb : b < s.nBuf)
    (hopen : (s.ctxs c).phase = .opened) (hctx : (s.bufs b).ctx = c) : s.OwnedBy c b := by
  subst hctx
  refine ⟨hopen, rfl, ?_, ?_⟩
  · exact (Owned.listed_iff h b hb).mp (Owned.listed_live h b hb (Or.inl hopen))
  · cases hd : (s.bufs b).destroyed with
    | false => rfl
    | true => exact absurd hopen ((Owned.destroyed_iff h b hb).mp hd)

/-- While no new context gets the address of the owner of a buffer that still exists, the
checks of a RUN only let buffers of its own context pass, and a RUN call only queues a
task on such buffers. -/
theorem run_owns_buffers (h : system.ReachableBy AddrFresh s) :
    (∀ c cb db addr size, (s.ctxs c).phase = .opened → 0 < (s.bufs cb).fdRefs →
      0 < (s.bufs db).fdRefs → s.ioctlRunCheck c cb db addr size = none →
        s.OwnedBy c cb ∧ s.OwnedBy c db) ∧
    (∀ k s', system.step s (.runQueue k) = some s' →
      ∃ c cb db, (s'.tasks s.nTask).sig = ⟨c, db, some cb, false⟩ ∧
        s'.pendingTasks = s.pendingTasks ++ [s.nTask] ∧ s'.OwnedBy c cb ∧ s'.OwnedBy c db) := by
  have hr := h.reachable
  have hown := ownership_reachable hr
  have hscope := scope_reachable hr
  have hruns := ownsRuns_reachable h
  refine ⟨?_, ?_⟩
  · intro c cb db addr size hopen hcb hdb hcheck
    obtain ⟨hcown, hdown⟩ := hruns.of_check hr hopen hcb hdb hcheck
    exact ⟨hown.ownedBy (hscope.fd_lt hcb) hopen hcown,
      hown.ownedBy (hscope.fd_lt hdb) hopen hdown⟩
  · intro k s' hstep
    cases Step.of_step hstep with
    | runQueue k c cb db addr size hcall =>
      obtain ⟨hcown, hdown⟩ := OwnedRuns.run_own hruns k c cb db addr size true hcall
      have hopen : (s.ctxs c).phase = .opened :=
        Owned.ioctl_open hown k _ c hcall (beq_self_eq_true c)
      obtain ⟨hcb, hdb⟩ := (Names.call_known hscope k _ hcall).2
      refine ⟨c, cb, db, ?_, rfl, ?_, ?_⟩
      · simp only [queued, Function.update_self]
        rfl
      · exact hown.ownedBy hcb hopen hcown
      · exact hown.ownedBy hdb hopen hdown
    | halt _ _ hl => simp at hl

/-- A context with two buffers and a RUN call between them. -/
def ownRun : List Label :=
  openOne ++ [.createSet 0 4096 0x20 0x2000, .run 0 0 1 0 4 false true, .runCount 0]

theorem run_owns_buffers_ownRun :
    ∃ s s', system.ReachableBy AddrFresh s ∧ system.step s (.runQueue 0) = some s' ∧
      (∃ c cb db, (s'.tasks s.nTask).sig = ⟨c, db, some cb, false⟩ ∧ s'.OwnedBy c cb ∧
        s'.OwnedBy c db) ∧
      s.ioctlRunCheck 0 0 1 0 4 = none ∧ s.OwnedBy 0 0 ∧ s.OwnedBy 0 1 := by
  have hseen : seenBy AddrFresh ownRun (fun s => ((s.ctxs 0).phase, (s.bufs 0).fdRefs,
      (s.bufs 1).fdRefs, s.ioctlRunCheck 0 0 1 0 4, (system.step s (.runQueue 0)).isSome)) =
      some (.opened, 1, 1, none, true) := by
    decide
  obtain ⟨s, hr, hf⟩ := exists_seenBy hseen
  simp only [Prod.mk.injEq] at hf
  obtain ⟨hopen, hcb, hdb, hcheck, hsome⟩ := hf
  obtain ⟨s', hs'⟩ := Option.isSome_iff_exists.mp hsome
  obtain ⟨hpass, hqueue⟩ := run_owns_buffers hr
  obtain ⟨c, cb, db, hsig, -, hc, hd⟩ := hqueue 0 s' hs'
  obtain ⟨h0, h1⟩ := hpass 0 0 1 0 4 hopen (by omega) (by omega) hcheck
  exact ⟨s, s', hr, hs', ⟨c, cb, db, hsig, hc, hd⟩, hcheck, h0, h1⟩

/-- A context is closed while the file of its buffer stays open, and a new context gets
its address. -/
def staleRun : List Label :=
  openOne ++ [.releaseMark 0, .releaseWait 0, .releaseBuffer 0, .releaseFree 0, .openCtx 7,
    .run 1 0 0 0 4 false true, .runCount 0, .runQueue 0]

/-- The new context has queued a task on the destroyed buffer of the old one. -/
theorem run_stale_buffer :
    ∃ s, system.exec probed staleRun = some s ∧ s.pendingTasks = [0] ∧
      s.sig 0 = ⟨1, 0, some 0, false⟩ ∧ (s.ctxs 1).phase = .opened ∧
      (s.bufs 0).ctx = 0 ∧ (s.ctxs 0).phase = .freed ∧ (s.bufs 0).destroyed = true := by
  have hseen : seenAfter staleRun (fun s => (s.pendingTasks, s.sig 0, (s.ctxs 1).phase,
      (s.ctxs 0).phase, s.bsig 0)) =
      some ([0], ⟨1, 0, some 0, false⟩, .opened, .freed, ⟨0, true, none, 1, false, false⟩) := by
    decide
  obtain ⟨s, hs, -, hf⟩ := exists_seenAfter hseen
  simp only [Prod.mk.injEq] at hf
  obtain ⟨hpend, hsig, hnew, hold, hbuf⟩ := hf
  exact ⟨s, hs, hpend, hsig, hnew, congrArg BufSig.ctx hbuf, hold,
    congrArg BufSig.destroyed hbuf⟩

end Dicedev
