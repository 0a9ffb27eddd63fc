import Dicedev.Scope

/-!
# Contexts and their buffers

`Owned` is what holds between contexts and buffers in every reachable state: a buffer is on
the list of its context until the context gives it up, it is marked destroyed exactly when
its context is no longer open, and contexts that exist at the same time have different
addresses.
-/

namespace Dicedev

open State

structure Owned (nBuf : Nat) (csig : CtxId → CtxSig) (bsig : BufId → BufSig)
    (calls : CallId → Option Call) : Prop where
  listed_owner : ∀ c, ∀ b ∈ (csig c).allocatedBuffers, (bsig b).ctx = c
  listed_nodup : ∀ c, (csig c).allocatedBuffers.Nodup
  destroyed_iff : ∀ b, b < nBuf →
    ((bsig b).destroyed = true ↔ (csig (bsig b).ctx).phase ≠ .opened)
  listed_iff : ∀ b, b < nBuf →
    ((bsig b).ctxRef = true ↔ b ∈ (csig (bsig b).ctx).allocatedBuffers)
  listed_live : ∀ b, b < nBuf →
    ((csig (bsig b).ctx).phase = .opened ∨ (csig (bsig b).ctx).phase = .waiting) →
      (bsig b).ctxRef = true
  freed_unref : ∀ b, (bsig b).freed = true → (bsig b).ctxRef = false ∧ (bsig b).fdRefs = 0
  addr_inj : ∀ c d, (csig c).phase ≠ .freed → (csig d).phase ≠ .freed →
    (csig c).addr = (csig d).addr → c = d
  ioctl_open : ∀ k call c, calls k = some call → call.ioctlOf c = true →
    (csig c).phase = .opened

namespace Owned

variable {nBuf : Nat} {csig : CtxId → CtxSig} {bsig : BufId → BufSig}
  {calls : CallId → Option Call}

theorem of_eq (h : Owned nBuf csig bsig calls) {csig' : CtxId → CtxSig} {bsig' : BufId → BufSig}
    (hc : csig' = csig) (hb : bsig' = bsig) : Owned nBuf csig' bsig' calls := by
  rw [hc, hb]
  exact h

/-- An entry of the table of calls is replaced or taken out. -/
theorem setCall (h : Owned nBuf csig bsig calls) (k : CallId) {o : Option Call}
    (ho : ∀ call c, o = some call → call.ioctlOf c = true → (csig c).phase = .opened) :
    Owned nBuf csig bsig (Function.update calls k o) := by
  refine ⟨h.listed_owner, h.listed_nodup, h.destroyed_iff, h.listed_iff, h.listed_live,
    h.freed_unref, h.addr_inj, ?_⟩
  intro j call c hj hc
  rcases update_eq_some hj with hj | hj
  · exact ho call c hj hc
  · exact h.ioctl_open j call c hj hc

/-- A call starts or goes on. -/
theorem putCall (h : Owned nBuf csig bsig calls) (k : CallId) {call : Call}
    (hcall : ∀ c, call.ioctlOf c = true → (csig c).phase = .opened) :
    Owned nBuf csig bsig (Function.update calls k (some call)) := by
  refine h.setCall k fun call' c heq => ?_
  obtain rfl := Option.some.inj heq
  exact hcall c

/-- A buffer changes its slot or its references. -/
theorem setBuf (h : Owned nBuf csig bsig calls) {b : BufId} {x : BufSig}
    (hctx : x.ctx = (bsig b).ctx) (hdes : x.destroyed = (bsig b).destroyed)
    (href : x.ctxRef = (bsig b).ctxRef)
    (hfreed : x.freed = true → x.ctxRef = false ∧ x.fdRefs = 0) :
    Owned nBuf csig (Function.update bsig b x) calls := by
  have howner := update_field BufSig.ctx hctx
  have hdestroyed := update_field BufSig.destroyed hdes
  have hlisted := update_field BufSig.ctxRef href
  refine ⟨?_, h.listed_nodup, ?_, ?_, ?_, ?_, h.addr_inj, h.ioctl_open⟩
  · intro c d hd
    rw [howner d]
    exact h.listed_owner c d hd
  · intro d hd
    rw [howner d, hdestroyed d]
    exact h.destroyed_iff d hd
  · intro d hd
    rw [howner d, hlisted d]
    exact h.listed_iff d hd
  · intro d hd
    rw [howner d, hlisted d]
    exact h.listed_live d hd
  · intro d
    exact update_pred (P := fun y : BufSig => y.freed = true → y.ctxRef = false ∧ y.fdRefs = 0)
      (h.freed_unref d) fun _ => hfreed

theorem phase_update (c : CtxId) (p : Phase) (d : CtxId) :
    (Function.update csig c { csig c with phase := p } d).phase =
      if d = c then p else (csig d).phase := by
  by_cases hd : d = c
  · subst hd
    simp
  · simp [hd]

/-- A context that exists after another phase is set existed before. -/
theorem unfreed_of_update {c d : CtxId} {p : Phase} (hc : (csig c).phase ≠ .freed)
    (hd : (Function.update csig c { csig c with phase := p } d).phase ≠ .freed) :
    (csig d).phase ≠ .freed := by
  rw [phase_update] at hd
  by_cases hdc : d = c
  · rw [hdc]
    exact hc
  · rwa [if_neg hdc] at hd

/-- A context moves on after its list of buffers has been marked, or after the list is
empty. -/
theorem setPhase (h : Owned nBuf csig bsig calls) {c : CtxId} {p : Phase}
    (hfrom : (csig c).phase = .waiting ∨ (csig c).phase = .closing)
    (hto : p = .closing ∨ p = .freed) :
    Owned nBuf (Function.update csig c { csig c with phase := p }) bsig calls := by
  have hnotopen : (csig c).phase ≠ .opened ∧ (csig c).phase ≠ .freed := by
    rcases hfrom with hf | hf <;> rw [hf] <;> decide
  have hp : p ≠ .opened ∧ p ≠ .waiting := by
    rcases hto with rfl | rfl <;> decide
  have hlist := update_field (f := csig) (x := { csig c with phase := p })
    CtxSig.allocatedBuffers rfl
  have haddr := update_field (f := csig) (x := { csig c with phase := p }) CtxSig.addr rfl
  refine ⟨?_, ?_, ?_, ?_, ?_, h.freed_unref, ?_, ?_⟩
  · intro d b hb
    rw [hlist d] at hb
    exact h.listed_owner d b hb
  · intro d
    rw [hlist d]
    exact h.listed_nodup d
  · intro b hb
    rw [h.destroyed_iff b hb, phase_update]
    by_cases hbc : (bsig b).ctx = c
    · rw [hbc]
      simp [hnotopen.1, hp.1]
    · simp [hbc]
  · intro b hb
    rw [h.listed_iff b hb, hlist]
  · intro b hb
    rw [phase_update]
    by_cases hbc : (bsig b).ctx = c
    · simp [hbc, hp.1, hp.2]
    · simpa [hbc] using h.listed_live b hb
  · intro d e hd he
    rw [haddr d, haddr e]
    exact h.addr_inj d e (unfreed_of_update hnotopen.2 hd) (unfreed_of_update hnotopen.2 he)
  · intro k call d hk hd
    have hopen := h.ioctl_open k call d hk hd
    have hne : d ≠ c := by
      rintro rfl
      exact hnotopen.1 hopen
    rw [phase_update, if_neg hne]
    exact hopen

/-- A new context with an address that no existing context has. -/
theorem addCtx (h : Owned nBuf csig bsig calls) (n addr : Nat)
    (hnew : (csig n).phase = .freed) (howner : ∀ b, b < nBuf → (bsig b).ctx ≠ n)
    (haddr : ∀ c, (csig c).phase ≠ .freed → (csig c).addr ≠ addr) :
    Owned nBuf (Function.update csig n ⟨addr, [], .opened⟩) bsig calls := by
  refine ⟨?_, ?_, ?_, ?_, ?_, h.freed_unref, ?_, ?_⟩
  · intro c b
    exact update_pred (P := fun y : CtxSig => b ∈ y.allocatedBuffers → (bsig b).ctx = c)
      (h.listed_owner c b) fun _ hb => nomatch hb
  · intro c
    exact update_pred (P := fun y : CtxSig => y.allocatedBuffers.Nodup) (h.listed_nodup c)
      fun _ => List.nodup_nil
  · intro b hb
    rw [Function.update_of_ne (howner b hb)]
    exact h.destroyed_iff b hb
  · intro b hb
    rw [Function.update_of_ne (howner b hb)]
    exact h.listed_iff b hb
  · intro b hb
    rw [Function.update_of_ne (howner b hb)]
    exact h.listed_live b hb
  · intro c d hc hd heq
    by_cases hcn : c = n
    · by_cases hdn : d = n
      · rw [hcn, hdn]
      · subst hcn
        rw [Function.update_self, Function.update_of_ne hdn] at heq
        rw [Function.update_of_ne hdn] at hd
        exact absurd heq.symm (haddr d hd)
    · by_cases hdn : d = n
      · subst hdn
        rw [Function.update_self, Function.update_of_ne hcn] at heq
        rw [Function.update_of_ne hcn] at hc
        exact absurd heq (haddr c hc)
      · rw [Function.update_of_ne hcn] at hc heq
        rw [Function.update_of_ne hdn] at hd heq
        exact h.addr_inj c d hc hd heq
  · intro k call c hk hc
    have hopen := h.ioctl_open k call c hk hc
    have hne : c ≠ n := by
      rintro rfl
      rw [hnew] at hopen
      cases hopen
    rw [Function.update_of_ne hne]
    exact hopen

/-- An open context makes a buffer. -/
theorem addBuf (h : Owned nBuf csig bsig calls) {c : CtxId} {x : BufSig}
    (hopen : (csig c).phase = .opened) (hlisted : ∀ d, ∀ b ∈ (csig d).allocatedBuffers, b < nBuf)
    (hctx : x.ctx = c) (hdes : x.destroyed = false) (href : x.ctxRef = true)
    (hfreed : x.freed = false) :
    Owned (nBuf + 1)
      (Function.update csig c
        { csig c with allocatedBuffers := nBuf :: (csig c).allocatedBuffers })
      (Function.update bsig nBuf x) calls := by
  have hphase := update_field (f := csig) (a := c) (x := { csig c with
    allocatedBuffers := nBuf :: (csig c).allocatedBuffers }) CtxSig.phase rfl
  have haddr := update_field (f := csig) (a := c) (x := { csig c with
    allocatedBuffers := nBuf :: (csig c).allocatedBuffers }) CtxSig.addr rfl
  have hmem : ∀ d b, b ∈ (Function.update csig c
      { csig c with allocatedBuffers := nBuf :: (csig c).allocatedBuffers } d).allocatedBuffers ↔
      (b = nBuf ∧ d = c) ∨ b ∈ (csig d).allocatedBuffers := by
    intro d b
    by_cases hd : d = c
    · subst hd
      simp
    · simp [hd]
  have hold : ∀ b, b < nBuf → Function.update bsig nBuf x b = bsig b := fun b hb =>
    Function.update_of_ne (Nat.ne_of_lt hb) _ _
  have hcases : ∀ b, b < nBuf + 1 → b = nBuf ∨ b < nBuf := fun b hb =>
    (Nat.lt_succ_iff_lt_or_eq.mp hb).symm
  refine ⟨?_, ?_, ?_, ?_, ?_, ?_, ?_, ?_⟩
  · intro d b hb
    rcases (hmem d b).mp hb with ⟨rfl, rfl⟩ | hb
    · rw [Function.update_self]
      exact hctx
    · rw [hold b (hlisted d b hb)]
      exact h.listed_owner d b hb
  · intro d
    by_cases hd : d = c
    · subst hd
      rw [Function.update_self]
      refine List.nodup_cons.mpr ⟨?_, h.listed_nodup d⟩
      intro hin
      exact absurd (hlisted d nBuf hin) (Nat.lt_irrefl _)
    · rw [Function.update_of_ne hd]
      exact h.listed_nodup d
  · intro b hb
    rw [hphase]
    rcases hcases b hb with rfl | hb
    · rw [Function.update_self, hctx, hdes, hopen]
      simp
    · rw [hold b hb]
      exact h.destroyed_iff b hb
  · intro b hb
    rw [hmem]
    rcases hcases b hb with rfl | hb
    · rw [Function.update_self, hctx, href]
      simp
    · rw [hold b hb, h.listed_iff b hb]
      simp [Nat.ne_of_lt hb]
  · intro b hb
    rw [hphase]
    rcases hcases b hb with rfl | hb
    · rw [Function.update_self]
      exact fun _ => href
    · rw [hold b hb]
      exact h.listed_live b hb
  · intro b
    exact update_pred (P := fun y : BufSig => y.freed = true → y.ctxRef = false ∧ y.fdRefs = 0)
      (h.freed_unref b) fun _ hb => absurd (hb.symm.trans hfreed) (by decide)
  · intro d e
    rw [hphase d, hphase e, haddr d, haddr e]
    exact h.addr_inj d e
  · intro k call d hk hd
    rw [hphase d]
    exact h.ioctl_open k call d hk hd

/-- `dicedev_release` marks the buffers of the context. -/
theorem mark (h : Owned nBuf csig bsig calls) {c : CtxId} (bsig' : BufId → BufSig)
    (hopen : (csig c).phase = .opened)
    (hcalls : ∀ k call, calls k = some call → call.ioctlOf c = false)
    (hmarked : ∀ b ∈ (csig c).allocatedBuffers, bsig' b = { bsig b with destroyed := true })
    (hrest : ∀ b, b ∉ (csig c).allocatedBuffers → bsig' b = bsig b) :
    Owned nBuf (Function.update csig c { csig c with phase := .waiting }) bsig' calls := by
  have hlist := update_field (f := csig) (x := { csig c with phase := .waiting })
    CtxSig.allocatedBuffers rfl
  have haddr := update_field (f := csig) (x := { csig c with phase := .waiting }) CtxSig.addr rfl
  have hbsig : ∀ b, (bsig' b).ctx = (bsig b).ctx ∧ (bsig' b).ctxRef = (bsig b).ctxRef ∧
      (bsig' b).freed = (bsig b).freed ∧ (bsig' b).fdRefs = (bsig b).fdRefs := by
    intro b
    by_cases hb : b ∈ (csig c).allocatedBuffers
    · rw [hmarked b hb]
      exact ⟨rfl, rfl, rfl, rfl⟩
    · rw [hrest b hb]
      exact ⟨rfl, rfl, rfl, rfl⟩
  refine ⟨?_, ?_, ?_, ?_, ?_, ?_, ?_, ?_⟩
  · intro d b hb
    rw [hlist d] at hb
    rw [(hbsig b).1]
    exact h.listed_owner d b hb
  · intro d
    rw [hlist d]
    exact h.listed_nodup d
  · intro b hb
    rw [(hbsig b).1, phase_update]
    by_cases hin : b ∈ (csig c).allocatedBuffers
    · rw [hmarked b hin, h.listed_owner c b hin]
      simp
    · have hne : (bsig b).ctx ≠ c := by
        intro hbc
        have hlive := h.listed_live b hb (Or.inl (hbc.symm ▸ hopen))
        rw [h.listed_iff b hb, hbc] at hlive
        exact hin hlive
      rw [hrest b hin, h.destroyed_iff b hb, if_neg hne]
  · intro b hb
    rw [(hbsig b).1, (hbsig b).2.1, hlist]
    exact h.listed_iff b hb
  · intro b hb hphase
    rw [(hbsig b).1, phase_update] at hphase
    rw [(hbsig b).2.1]
    by_cases hbc : (bsig b).ctx = c
    · exact h.listed_live b hb (Or.inl (hbc.symm ▸ hopen))
    · rw [if_neg hbc] at hphase
      exact h.listed_live b hb hphase
  · intro b hb
    rw [(hbsig b).2.1, (hbsig b).2.2.2]
    rw [(hbsig b).2.2.1] at hb
    exact h.freed_unref b hb
  · intro d e hd he
    rw [haddr d, haddr e]
    have hunfreed : (csig c).phase ≠ .freed := by
      rw [hopen]
      decide
    exact h.addr_inj d e (unfreed_of_update hunfreed hd) (unfreed_of_update hunfreed he)
  · intro k call d hk hd
    have hne : d ≠ c := by
      rintro rfl
      rw [hcalls k call hk] at hd
      cases hd
    rw [phase_update, if_neg hne]
    exact h.ioctl_open k call d hk hd

/-- `dicedev_release` gives up the first buffer of its list. -/
theorem giveUp (h : Owned nBuf csig bsig calls) {c : CtxId} {b : BufId} {rest : List BufId}
    {x : BufSig} (hclosing : (csig c).phase = .closing)
    (hlist : (csig c).allocatedBuffers = b :: rest) (hctx : x.ctx = (bsig b).ctx)
    (hdes : x.destroyed = (bsig b).destroyed) (href : x.ctxRef = false)
    (hfreed : x.freed = true → x.fdRefs = 0) :
    Owned nBuf (Function.update csig c { csig c with allocatedBuffers := rest })
      (Function.update bsig b x) calls := by
  have hbowner : (bsig b).ctx = c := h.listed_owner c b (by rw [hlist]; simp)
  have hnodup := h.listed_nodup c
  rw [hlist, List.nodup_cons] at hnodup
  have hphase := update_field (f := csig) (x := { csig c with allocatedBuffers := rest })
    CtxSig.phase rfl
  have haddr := update_field (f := csig) (x := { csig c with allocatedBuffers := rest })
    CtxSig.addr rfl
  have howner := update_field BufSig.ctx hctx
  have hdestroyed := update_field BufSig.destroyed hdes
  have hmem : ∀ d e, e ∈ (Function.update csig c
      { csig c with allocatedBuffers := rest } d).allocatedBuffers ↔
      e ≠ b ∧ e ∈ (csig d).allocatedBuffers := by
    intro d e
    by_cases hd : d = c
    · subst hd
      rw [Function.update_self, hlist, List.mem_cons]
      constructor
      · intro he
        exact ⟨fun heb => hnodup.1 (heb ▸ he), Or.inr he⟩
      · rintro ⟨hne, he | he⟩
        · exact absurd he hne
        · exact he
    · rw [Function.update_of_ne hd]
      constructor
      · intro he
        refine ⟨?_, he⟩
        rintro rfl
        exact hd ((h.listed_owner d e he).symm.trans hbowner)
      · exact fun he => he.2
  refine ⟨?_, ?_, ?_, ?_, ?_, ?_, ?_, ?_⟩
  · intro d e he
    rw [howner e]
    exact h.listed_owner d e ((hmem d e).mp he).2
  · intro d
    exact update_pred (P := fun y : CtxSig => y.allocatedBuffers.Nodup) (h.listed_nodup d)
      fun _ => hnodup.2
  · intro e he
    rw [howner e, hdestroyed e, hphase]
    exact h.destroyed_iff e he
  · intro e he
    rw [hmem, howner e]
    by_cases heb : e = b
    · subst heb
      rw [Function.update_self, href]
      simp
    · rw [Function.update_of_ne heb, h.listed_iff e he]
      simp [heb]
  · intro e he hlive
    rw [howner e, hphase] at hlive
    have heb : e ≠ b := by
      rintro rfl
      rw [hbowner, hclosing] at hlive
      rcases hlive with hlive | hlive <;> cases hlive
    rw [Function.update_of_ne heb]
    exact h.listed_live e he hlive
  · intro e
    exact update_pred (P := fun y : BufSig => y.freed = true → y.ctxRef = false ∧ y.fdRefs = 0)
      (h.freed_unref e) fun _ he => ⟨href, hfreed he⟩
  · intro d e
    rw [hphase d, hphase e, haddr d, haddr e]
    exact h.addr_inj d e
  · intro k call d hk hd
    rw [hphase d]
    exact h.ioctl_open k call d hk hd

end Owned

/-! ## Reachable states -/

def Ownership (s : State) : Prop := Owned s.nBuf s.csig s.bsig s.calls

variable {s s' : State} {l : Label}

theorem Ownership.unbound (h : Ownership s) (b : BufId) :
    Owned s.nBuf s.csig (Buffer.sig ∘ (s.unbound b).bufs) s.calls := by
  rw [bsig_unbound]
  exact Owned.setBuf h rfl rfl rfl (Owned.freed_unref h b)

theorem Ownership.queued (h : Ownership s) (k : CallId) (task : Task) :
    Ownership (s.queued k task) :=
  Owned.setCall h k (by simp)

theorem Ownership.step (hr : Reachable s) (h : Ownership s) (hs : Step s l s') :
    Ownership s' := by
  have hscope := scope_reachable hr
  cases hs with
  | createSetRefused | writeRefused | readNone | isrOff | fenceInterrupt | errorInterrupt
  | slotError | suspend | resume | remove | head | polled | sleep | again | park | drop
  | getNext | taskRun | taskFinish | runDone | runSkip | runFeed | fence | destroyKeep
  | finishing | shutdown | halt => exact h
  | openCtx addr hfree =>
    have hfresh : s.ctxs s.nCtx = default := Names.ctx_fresh hscope s.nCtx (Nat.le_refl _)
    have h1 := Owned.addCtx h s.nCtx addr
      (congrArg Context.phase hfresh)
      (fun b hb => Nat.ne_of_lt (Names.owner_lt hscope b hb))
      (fun c hc => hfree c (Names.ctx_lt hscope hc) hc)
    exact h1.of_eq (Function.comp_update _ _ _ _) rfl
  | createSet c size allowed dma hopen =>
    have h1 := Owned.addBuf (c := c) (x := (newBuffer c size allowed dma).sig) h hopen
      (Names.listed_lt hscope) rfl rfl rfl rfl
    exact h1.of_eq (Function.comp_update _ _ _ _) (Function.comp_update _ _ _ _)
  | runRefused c cb db addr size shared alloc leak =>
    exact Owned.of_eq h rfl (bsig_leakBufs s cb db leak)
  | run c cb db addr size shared alloc hopen =>
    refine (Owned.putCall h s.nCall fun d hd => ?_).of_eq rfl (bsig_leakBufs s cb db shared)
    have hcd : c = d := by simpa [Call.ioctlOf] using hd
    exact hcd ▸ hopen
  | runCount k c cb db addr size hcall =>
    refine (Owned.putCall h k fun d hd => ?_).of_eq (comp_update_of_eq rfl) rfl
    exact Owned.ioctl_open h k _ d hcall hd
  | runQueue k => exact h.queued k _
  | writeQueue k => exact h.queued k _
  | wait c cnt hopen =>
    refine Owned.putCall h s.nCall fun d hd => ?_
    have hcd : c = d := by simpa [Call.ioctlOf] using hd
    exact hcd ▸ hopen
  | waitLeave k c cnt hcall =>
    exact Owned.putCall h k fun d hd => Owned.ioctl_open h k _ d hcall hd
  | waitReturn k => exact Owned.setCall h k (by simp)
  | releaseMark c hopen hcalls =>
    have h1 := Owned.mark (c := c) h (fun b =>
      if b ∈ (s.ctxs c).allocatedBuffers then { s.bsig b with destroyed := true } else s.bsig b)
      hopen (fun k call hk => hcalls k (Names.call_lt hscope hk) call hk)
      (fun b hb => if_pos hb) (fun b hb => if_neg hb)
    refine h1.of_eq (Function.comp_update _ _ _ _) ?_
    funext b
    simp only [bsig, Function.comp_apply]
    split <;> rfl
  | releaseWait c hwait =>
    exact (Owned.setPhase h (Or.inl hwait) (Or.inl rfl)).of_eq (Function.comp_update _ _ _ _) rfl
  | releaseBuffer c b rest hclosing hlist =>
    have h1 := (h.unbound b).giveUp (c := c) (x := { Buffer.sig ((s.unbound b).bufs b) with
      ctxRef := false }) hclosing hlist rfl rfl rfl
      (fun hf => ((h.unbound b).freed_unref b hf).2)
    exact h1.of_eq (Function.comp_update _ _ _ _) (Function.comp_update _ _ _ _)
  | releaseFree c hclosing =>
    exact (Owned.setPhase h (Or.inr hclosing) (Or.inr rfl)).of_eq
      (Function.comp_update _ _ _ _) rfl
  | write b =>
    refine (Owned.putCall h s.nCall fun d hd => ?_).of_eq (comp_update_of_eq rfl) rfl
    cases hd
  | writeFail k => exact (Owned.setCall h k (by simp)).of_eq (comp_update_of_eq rfl) rfl
  | read | seed | store => exact Owned.of_eq h rfl (comp_update_of_eq rfl)
  | dup b hfd | close b hfd =>
    refine (Owned.setBuf h ?_ ?_ ?_ ?_).of_eq rfl (Function.comp_update _ _ _ _)
    · rfl
    · rfl
    · rfl
    · intro hfreed
      have hzero : (s.bufs b).fdRefs = 0 := (Owned.freed_unref h b hfreed).2
      omega
  | bufferRelease b hfreed hfd hctx =>
    have hunref : (Buffer.sig ((s.unbound b).bufs b)).ctxRef = false ∧
        (Buffer.sig ((s.unbound b).bufs b)).fdRefs = 0 := by
      have hb := congrFun (bsig_unbound s b) b
      rw [Function.update_self] at hb
      have hb' : Buffer.sig ((s.unbound b).bufs b) = { s.bsig b with bindedSlot := none } := hb
      rw [hb']
      exact ⟨hctx, hfd⟩
    refine ((h.unbound b).setBuf ?_ ?_ ?_ ?_).of_eq rfl (Function.comp_update _ _ _ _)
    · rfl
    · rfl
    · rfl
    · exact fun _ => hunref
  | isr => exact Owned.of_eq h (csig_isrCtxs s) rfl
  | isrFence => exact Owned.of_eq h (csig_isrCtxs s) rfl
  | bindSlot t b i =>
    refine (Owned.setBuf h ?_ ?_ ?_ ?_).of_eq rfl (Function.comp_update _ _ _ _)
    · rfl
    · rfl
    · rfl
    · exact Owned.freed_unref h b
  | runReject => exact Owned.of_eq h (comp_update_of_eq rfl) rfl
  | destroyUnbind t c b => exact h.unbound b
  | account => exact Owned.of_eq h (comp_update_of_eq rfl) (comp_update_of_eq rfl)

theorem ownership_probed : Ownership probed := by
  refine ⟨?_, ?_, ?_, ?_, ?_, ?_, ?_, ?_⟩
  · intro c b hb
    cases hb
  · exact fun _ => List.nodup_nil
  · exact fun b hb => absurd hb (Nat.not_lt_zero b)
  · exact fun b hb => absurd hb (Nat.not_lt_zero b)
  · exact fun b hb => absurd hb (Nat.not_lt_zero b)
  · exact fun _ _ => ⟨rfl, rfl⟩
  · exact fun c d hc => absurd rfl hc
  · intro k call c hk
    cases hk

theorem ownership_reachable (h : Reachable s) : Ownership s :=
  Machine.Reachable.invariant_of (fun _ hr => hr) ownership_probed
    (fun _ _ _ hr hI hs => Ownership.step hr hI (Step.of_step hs)) h

/-- The first buffer in the list of a context belongs to it. -/
theorem owner_of_head (h : Reachable s) {c : CtxId} {b : BufId} {rest : List BufId}
    (hlist : (s.ctxs c).allocatedBuffers = b :: rest) : (s.bufs b).ctx = c := by
  refine Owned.listed_owner (ownership_reachable h) c b ?_
  change b ∈ (s.ctxs c).allocatedBuffers
  rw [hlist]
  exact List.mem_cons_self

end Dicedev
