import Dicedev.Step
import Mathlib.Data.List.Basic

/-!
# What the invariants look at

Most of a task and most of a buffer is data that the invariants do not depend on: the
iterator of a task moves while it is run, and a buffer's reader, seed and pages change all
the time. `Task.sig`, `Buffer.sig` and `Context.sig` are the rest, and the lemmas here say
which steps leave them alone.
-/

namespace Dicedev

open State

/-- What a task refers to, and whether it has been freed. `cBuff` is there for a RUN task
only. -/
structure TaskSig where
  ctx : CtxId
  buffOut : BufId
  cBuff : Option BufId
  freed : Bool
  deriving DecidableEq, Repr

/-- The buffer a task reads its commands from. -/
def TaskBody.cBuff : TaskBody → Option BufId
  | .write _ => none
  | .run r => some r.cBuff

def Task.sig (t : Task) : TaskSig := ⟨t.ctx, t.buffOut, t.body.cBuff, t.freed⟩

/-- The owner, the flags, the slot and the references of a buffer. -/
structure BufSig where
  ctx : CtxId
  destroyed : Bool
  bindedSlot : Option Slot
  fdRefs : Nat
  ctxRef : Bool
  freed : Bool
  deriving DecidableEq, Repr

def Buffer.sig (b : Buffer) : BufSig :=
  ⟨b.ctx, b.destroyed, b.bindedSlot, b.fdRefs, b.ctxRef, b.freed⟩

/-- The address, the buffers and the phase of a context. -/
structure CtxSig where
  addr : Nat
  allocatedBuffers : List BufId
  phase : Phase
  deriving DecidableEq, Repr

def Context.sig (c : Context) : CtxSig := ⟨c.addr, c.allocatedBuffers, c.phase⟩

/-- What the trace says about destroyed tasks. -/
def Event.gone? : Event → Option TaskId
  | .dropped t => some t
  | .finished t => some t
  | _ => none

/-- What the trace says about started tasks. -/
def Event.started? : Event → Option TaskId
  | .started t => some t
  | _ => none

namespace State

def sig (s : State) : TaskId → TaskSig := Task.sig ∘ s.tasks

def bsig (s : State) : BufId → BufSig := Buffer.sig ∘ s.bufs

def csig (s : State) : CtxId → CtxSig := Context.sig ∘ s.ctxs

/-- The slot of every buffer. -/
def place (s : State) : BufId → Option Slot := Buffer.bindedSlot ∘ s.bufs

/-- The output buffer of every task. -/
def out (s : State) : TaskId → BufId := TaskSig.buffOut ∘ s.sig

/-- The tasks destroyed so far, in the order of their destruction. -/
def gone (s : State) : List TaskId := s.trace.filterMap Event.gone?

/-- The tasks started so far, in the order of their starts. -/
def started (s : State) : List TaskId := s.trace.filterMap Event.started?

end State

variable {s s' : State}

/-! ## The trace -/

theorem filterMap_log_none {β : Type} {f : Event → Option β} {trace : List Event} {e : Event}
    (h : f e = none) : (trace ++ [e]).filterMap f = trace.filterMap f := by
  simp [List.filterMap_append, h]

theorem filterMap_log_some {β : Type} {f : Event → Option β} {trace : List Event} {e : Event}
    {x : β} (h : f e = some x) : (trace ++ [e]).filterMap f = trace.filterMap f ++ [x] := by
  simp [List.filterMap_append, h]

/-- Unbinding feeds at most one command. -/
theorem trace_unbound (s : State) (b : BufId) :
    (s.unbound b).trace = s.trace ∨
      ∃ i, (s.bufs b).bindedSlot = some i ∧
        (s.unbound b).trace = s.trace ++ [.feed ⟨unbindCmd i, .unbind b⟩] := by
  unfold unbound
  split
  · exact Or.inl rfl
  · rename_i i hi
    exact Or.inr ⟨i, hi, rfl⟩

/-- A part of the trace that does not see the command does not see an unbinding. -/
theorem filterMap_unbound {β : Type} {f : Event → Option β}
    (h : ∀ i b, f (.feed ⟨unbindCmd i, .unbind b⟩) = none) (s : State) (b : BufId) :
    (s.unbound b).trace.filterMap f = s.trace.filterMap f := by
  rcases trace_unbound s b with ht | ⟨i, -, ht⟩
  · rw [ht]
  · rw [ht]
    exact filterMap_log_none (h i b)

/-! ## Tasks -/

theorem comp_update_of_eq {α β γ : Type} [DecidableEq α] {f : α → β} {g : β → γ} {a : α} {x : β}
    (h : g x = g (f a)) : g ∘ Function.update f a x = g ∘ f := by
  rw [Function.comp_update, Function.update_eq_self_iff]
  exact h

/-- A field that an update leaves alone. -/
theorem update_field {α β γ : Type} [DecidableEq α] {f : α → β} {a : α} {x : β} (g : β → γ)
    (h : g x = g (f a)) (d : α) : g (Function.update f a x d) = g (f d) :=
  congrFun (comp_update_of_eq h) d

/-- A property of one entry, after a write that may have hit it. -/
theorem update_pred {α β : Type} [DecidableEq α] {P : β → Prop} {f : α → β} {a d : α} {x : β}
    (h : P (f d)) (hx : a = d → P x) : P (Function.update f a x d) := by
  by_cases hd : d = a
  · subst hd
    rw [Function.update_self]
    exact hx rfl
  · rw [Function.update_of_ne hd]
    exact h

/-- An entry of a table with gaps is the one just written or another one. -/
theorem update_some_cases {α β : Type} [DecidableEq α] {f : α → Option β} {a d : α}
    {o : Option β} {y : β} (h : Function.update f a o d = some y) :
    (d = a ∧ o = some y) ∨ (d ≠ a ∧ f d = some y) := by
  by_cases hd : d = a
  · subst hd
    rw [Function.update_self] at h
    exact Or.inl ⟨rfl, h⟩
  · rw [Function.update_of_ne hd] at h
    exact Or.inr ⟨hd, h⟩

theorem update_eq_some {α β : Type} [DecidableEq α] {f : α → Option β} {a d : α} {o : Option β}
    {y : β} (h : Function.update f a o d = some y) : o = some y ∨ f d = some y :=
  (update_some_cases h).imp And.right And.right

/-- A property of the first `n` entries, after the next one is written. -/
theorem forall_lt_succ_update {β : Type} {P : Nat → β → Prop} {f : Nat → β} {n : Nat} {x : β}
    (hx : P n x) (h : ∀ i, i < n → P i (f i)) (i : Nat) (hi : i < n + 1) :
    P i (Function.update f n x i) := by
  rcases Nat.lt_succ_iff_lt_or_eq.mp hi with hi | rfl
  · rw [Function.update_of_ne (Nat.ne_of_lt hi)]
    exact h i hi
  · rw [Function.update_self]
    exact hx

theorem Task.isRun_eq (t : Task) : t.isRun = t.sig.cBuff.isSome := by
  unfold Task.isRun Task.sig TaskBody.cBuff
  cases t.body with
  | write w => rfl
  | run r => rfl

theorem taskInitIt_sig (t : Task) : (taskInitIt t).sig = t.sig := by
  unfold taskInitIt Task.sig TaskBody.cBuff
  cases t.body with
  | write w => rfl
  | run r => rfl

theorem taskInitIt_resultCount (t : Task) : (taskInitIt t).resultCount = t.resultCount := by
  unfold taskInitIt
  cases t.body with
  | write w => rfl
  | run r => rfl

/-- Reading a word moves the iterator, nothing else. -/
theorem taskGetNextWord_same {mem : BufId → Nat → Nat → Word} {t t' : Task} {w : Word}
    (h : taskGetNextWord mem t = .ok (w, t')) :
    t'.sig = t.sig ∧ t'.resultCount = t.resultCount := by
  unfold taskGetNextWord at h
  split at h
  · rename_i wr hb
    split at h
    · cases h
    · cases h
      simp [Task.sig, TaskBody.cBuff, hb]
  · rename_i r hb
    cases h
    have hturn : (runTurnPage r).cBuff = r.cBuff := by
      unfold runTurnPage
      split <;> rfl
    simp [Task.sig, TaskBody.cBuff, hb, hturn]

/-- What a pass of the loop of `__wt_run_task` can do. -/
inductive PassCase (allowed : Word) (slot : Option Slot) (t : Task) (left : Nat) :
    Task → Pass → Prop
  | skip (t' : Task) (hsig : t'.sig = t.sig) (hcount : t'.resultCount = t.resultCount) :
      PassCase allowed slot t left t' (.skip (sizeSub left 4))
  | getDie (w m : Word) (t' : Task) (hdie : w &&& cmdTypeMask = userCmdTypeGetDie)
      (hslot : w &&& getDieSlotMask = 0) (hmask : m &&& ~~~allowed = 0) (hsig : t'.sig = t.sig)
      (hcount : t'.resultCount = t.resultCount + (w &&& getDieNumMask).toNat) :
      PassCase allowed slot t left t'
        (.fed [w ||| bindedSlotWord slot <<< 24, m] w (sizeSub left 8))
  | newSet (w : Word) (t' : Task) (hset : w &&& cmdTypeMask = userCmdTypeNewSet)
      (hslot : w &&& newSetSlotMask = 0) (hsig : t'.sig = t.sig)
      (hcount : t'.resultCount = t.resultCount) :
      PassCase allowed slot t left t'
        (.fed [w ||| bindedSlotWord slot <<< 4] w (sizeSub left 4))
  | reject (t' : Task) (hsig : t'.sig = t.sig) (hcount : t'.resultCount = t.resultCount) :
      PassCase allowed slot t left t' .reject

theorem getDiePass_case {allowed : Word} {slot : Option Slot} {t t₂ : Task} {w m : Word}
    {left : Nat} (hdie : w &&& cmdTypeMask = userCmdTypeGetDie) (hsig : t₂.sig = t.sig)
    (hcount : t₂.resultCount = t.resultCount) :
    PassCase allowed slot t left (getDiePass allowed slot w m t₂ left).1
      (getDiePass allowed slot w m t₂ left).2 := by
  unfold getDiePass
  split
  · exact .reject t₂ hsig hcount
  · rename_i hslot
    split
    · exact .reject t₂ hsig hcount
    · rename_i hmask
      refine .getDie w m _ hdie (not_not.mp hslot) (not_not.mp hmask) hsig ?_
      exact congrArg (· + (w &&& getDieNumMask).toNat) hcount

theorem newSetPass_case {allowed : Word} {slot : Option Slot} {t t₁ : Task} {w : Word} {left : Nat}
    (hset : w &&& cmdTypeMask = userCmdTypeNewSet) (hsig : t₁.sig = t.sig)
    (hcount : t₁.resultCount = t.resultCount) :
    PassCase allowed slot t left (newSetPass slot w t₁ left).1 (newSetPass slot w t₁ left).2 := by
  unfold newSetPass
  split
  · exact .reject t₁ hsig hcount
  · rename_i hslot
    exact .newSet w t₁ hset (not_not.mp hslot) hsig hcount

theorem runTaskPass_case {mem : BufId → Nat → Nat → Word} {allowed : Word} {slot : Option Slot}
    {t : Task} {left : Nat} {r : Task × Pass} (h : runTaskPass mem allowed slot t left = .ok r) :
    PassCase allowed slot t left r.1 r.2 := by
  unfold runTaskPass at h
  split at h
  · cases h
  · rename_i w t₁ hget
    obtain ⟨hsig, hcount⟩ := taskGetNextWord_same hget
    split at h
    · cases h
      exact .skip t₁ hsig hcount
    · split at h
      · rename_i hdie
        split at h
        · cases h
          exact .reject t₁ hsig hcount
        · split at h
          · cases h
          · rename_i m t₂ hget'
            obtain ⟨hsig', hcount'⟩ := taskGetNextWord_same hget'
            cases h
            exact getDiePass_case hdie (hsig'.trans hsig) (hcount'.trans hcount)
      · split at h
        · rename_i hset
          cases h
          exact newSetPass_case hset hsig hcount
        · cases h
          exact .reject t₁ hsig hcount

theorem passOf_case {t : TaskId} {left : Nat} {task : Task} {pass : Pass}
    (h : s.passOf t left = .ok (task, pass)) :
    PassCase (s.bufs (s.tasks t).buffOut).allowed (s.bufs (s.tasks t).buffOut).bindedSlot
      (s.tasks t) left task pass :=
  runTaskPass_case h

/-- A pass of the loop of `__wt_run_task` moves the iterator and counts results, nothing
else. -/
theorem passOf_sig {t : TaskId} {left : Nat} {task : Task} {pass : Pass}
    (h : s.passOf t left = .ok (task, pass)) : task.sig = (s.tasks t).sig := by
  cases passOf_case h with
  | skip _ hsig | getDie _ _ _ _ _ _ hsig | newSet _ _ _ _ hsig | reject _ hsig => exact hsig

theorem sig_initIt (s : State) (t : TaskId) :
    Task.sig ∘ Function.update s.tasks t (taskInitIt (s.tasks t)) = s.sig :=
  comp_update_of_eq (taskInitIt_sig _)

theorem sig_pass {t : TaskId} {left : Nat} {task : Task} {pass : Pass}
    (h : s.passOf t left = .ok (task, pass)) :
    Task.sig ∘ Function.update s.tasks t task = s.sig :=
  comp_update_of_eq (passOf_sig h)

/-! ## Contexts -/

theorem csig_isrCtxs (s : State) : Context.sig ∘ s.isrCtxs = s.csig := by
  unfold isrCtxs
  split
  · rfl
  · split
    · exact comp_update_of_eq rfl
    · rfl

/-! ## Buffers -/

theorem bsig_leakBufs (s : State) (cb db : BufId) (shared : Bool) :
    Buffer.sig ∘ s.leakBufs cb db shared = s.bsig := by
  cases shared with
  | false => rfl
  | true =>
    have h1 : Buffer.sig ∘ (s.leakRef cb true).bufs = s.bsig := comp_update_of_eq rfl
    have h2 : Buffer.sig ∘ ((s.leakRef cb true).leakRef db true).bufs =
        Buffer.sig ∘ (s.leakRef cb true).bufs := comp_update_of_eq rfl
    exact h2.trans h1

theorem unbound_of_none {b : BufId} (h : (s.bufs b).bindedSlot = none) : s.unbound b = s := by
  unfold unbound
  rw [h]

theorem unbound_of_some {b : BufId} {i : Slot} (h : (s.bufs b).bindedSlot = some i) :
    s.unbound b = s.unbindFrom b i := by
  unfold unbound
  rw [h]

/-- Unbinding a buffer takes its slot away and changes nothing else of it. -/
theorem bsig_unbound (s : State) (b : BufId) :
    Buffer.sig ∘ (s.unbound b).bufs =
      Function.update s.bsig b { s.bsig b with bindedSlot := none } := by
  cases h : (s.bufs b).bindedSlot with
  | none =>
    rw [unbound_of_none h]
    refine (Function.update_eq_self_iff.mpr ?_).symm
    simp [bsig, Buffer.sig, h]
  | some i =>
    rw [unbound_of_some h]
    exact Function.comp_update _ _ _ _

theorem place_leakBufs (s : State) (cb db : BufId) (shared : Bool) :
    Buffer.bindedSlot ∘ s.leakBufs cb db shared = s.place :=
  congrArg (BufSig.bindedSlot ∘ ·) (bsig_leakBufs s cb db shared)

theorem place_unbound (s : State) (b : BufId) :
    Buffer.bindedSlot ∘ (s.unbound b).bufs = Function.update s.place b none := by
  have h := congrArg (BufSig.bindedSlot ∘ ·) (bsig_unbound s b)
  exact h.trans (Function.comp_update _ _ _ _)

/-- Marking the buffers of a context leaves their slots alone. -/
theorem place_mark (s : State) (bs : List BufId) :
    Buffer.bindedSlot ∘ (fun b =>
      if b ∈ bs then { s.bufs b with destroyed := true } else s.bufs b) = s.place := by
  funext b
  simp only [State.place, Function.comp_apply]
  split <;> rfl

/-! ## What a step does to a task that is there -/

theorem sig_queued (s : State) (k : CallId) (task : Task) {t : TaskId} (ht : t < s.nTask) :
    (s.queued k task).sig t = s.sig t := by
  have hne : t ≠ s.nTask := Nat.ne_of_lt ht
  simp only [State.sig, queued, Function.comp_apply, Function.update_of_ne hne]

/-- A step leaves a task alone, or it is the end of `__task_destroy` and frees the task. -/
theorem sig_step_cases {l : Label} (hs : Step s l s') {t : TaskId} (ht : t < s.nTask) :
    s'.sig t = s.sig t ∨
      ∃ caller, s.pc = .account t caller ∧ s'.place = s.place ∧
        s'.sig t = { s.sig t with freed := true } := by
  cases hs with
  | openCtx | createSetRefused | createSet | runRefused | run | runCount | wait | waitLeave
  | waitReturn | releaseMark | releaseWait | releaseBuffer | releaseFree | writeRefused | write
  | writeFail | readNone | read | seed | dup | close | bufferRelease | store | isrOff | isr
  | isrFence | fenceInterrupt | errorInterrupt | slotError | suspend | resume | remove | head
  | polled | sleep | again | park | drop | getNext | bindSlot | taskFinish | runDone | fence
  | destroyUnbind | destroyKeep | finishing | shutdown | halt => exact Or.inl rfl
  | runQueue => exact Or.inl (sig_queued s _ _ ht)
  | writeQueue => exact Or.inl (sig_queued s _ _ ht)
  | taskRun u => exact Or.inl (congrFun (sig_initIt s u) t)
  | runSkip u left task left' hpc hrun hpass => exact Or.inl (congrFun (sig_pass hpass) t)
  | runFeed u left task words user left' hpc hrun hpass =>
    exact Or.inl (congrFun (sig_pass hpass) t)
  | runReject u left task hpc hrun hpass => exact Or.inl (congrFun (sig_pass hpass) t)
  | account u caller c b hpc =>
    by_cases htu : t = u
    · subst htu
      refine Or.inr ⟨caller, hpc, comp_update_of_eq rfl, ?_⟩
      simp only [State.sig, Function.comp_apply, Function.update_self]
      rfl
    · refine Or.inl ?_
      simp only [State.sig, Function.comp_apply, Function.update_of_ne htu]

/-- A task keeps what it refers to. -/
theorem sig_step {l : Label} (hs : Step s l s') {t : TaskId} (ht : t < s.nTask) :
    s'.sig t = { s.sig t with freed := (s'.sig t).freed } := by
  rcases sig_step_cases hs ht with heq | ⟨caller, -, -, heq⟩
  · rw [heq]
  · rw [heq]

theorem ctx_step {l : Label} (hs : Step s l s') {t : TaskId} (ht : t < s.nTask) :
    (s'.sig t).ctx = (s.sig t).ctx := by
  rw [sig_step hs ht]

theorem out_step {l : Label} (hs : Step s l s') {t : TaskId} (ht : t < s.nTask) :
    s'.out t = s.out t := by
  change (s'.sig t).buffOut = (s.sig t).buffOut
  rw [sig_step hs ht]

theorem cBuff_step {l : Label} (hs : Step s l s') {t : TaskId} (ht : t < s.nTask) :
    (s'.sig t).cBuff = (s.sig t).cBuff := by
  rw [sig_step hs ht]

theorem nTask_le_step {l : Label} (hs : Step s l s') : s.nTask ≤ s'.nTask := by
  cases hs with
  | runQueue | writeQueue => exact Nat.le_succ _
  | _ => exact Nat.le_refl _

/-! ## What a step writes into the trace -/

/-- What holds in the state in which an entry about a task is written. -/
def State.Logs (s : State) : Event → Prop
  | .rejected t => s.runningTask = some t ∧ ∃ left, s.pc = .running left
  | .fenceReached t => s.fences[s.signalled]? = some t
  | .deviceError t =>
    ∃ i, s.stream[i]?.bind Fed.task? = some t ∧ s.signalled ≤ s.fencesBefore i
  | .dropped t => s.pc = .account t .drop
  | .finished t => s.pc = .account t .finish
  | _ => True

/-- The trace only grows, and its new entries tell the truth. -/
theorem logs_step {l : Label} (hs : Step s l s') :
    ∃ es, s'.trace = s.trace ++ es ∧ ∀ e ∈ es, s.Logs e := by
  have hnone : ∃ es, s.trace = s.trace ++ es ∧ ∀ e ∈ es, s.Logs e :=
    ⟨[], (List.append_nil _).symm, by simp⟩
  have hone : ∀ {e : Event}, s.Logs e →
      ∃ es, s.trace ++ [e] = s.trace ++ es ∧ ∀ e ∈ es, s.Logs e := fun h =>
    ⟨_, rfl, by simpa using h⟩
  have hunbound : ∀ b, ∃ es, (s.unbound b).trace = s.trace ++ es ∧ ∀ e ∈ es, s.Logs e := by
    intro b
    rcases trace_unbound s b with ht | ⟨i, -, ht⟩
    · rw [ht]
      exact hnone
    · rw [ht]
      exact hone trivial
  cases hs with
  | openCtx | createSetRefused | createSet | runRefused | run | runCount | wait | waitLeave
  | releaseMark | releaseWait | releaseFree | writeRefused | write | writeFail | readNone
  | read | seed | dup | close | store | isrOff | isr | isrFence | slotError | suspend | resume
  | remove | head | polled | sleep | again | park | drop | getNext | taskFinish | runDone
  | runSkip | destroyKeep | finishing | shutdown | halt => exact hnone
  | runQueue | writeQueue | waitReturn | bindSlot | taskRun | runFeed | fence =>
    exact hone trivial
  | fenceInterrupt t ht => exact hone ht
  | errorInterrupt i mem t hcmd hfence => exact hone ⟨i, hcmd, hfence⟩
  | runReject t left task hpc hrun => exact hone ⟨hrun, left, hpc⟩
  | bufferRelease b => exact hunbound b
  | destroyUnbind t c b => exact hunbound b
  | releaseBuffer c b =>
    obtain ⟨es, ht, hes⟩ := hunbound b
    refine ⟨es ++ [.closed b], ?_, ?_⟩
    · rw [← List.append_assoc, ← ht]
    · intro e he
      rcases List.mem_append.mp he with he | he
      · exact hes e he
      · rw [List.mem_singleton] at he
        subst he
        trivial
  | account t caller c b hpc =>
    cases caller with
    | drop => exact hone hpc
    | finish => exact hone hpc

/-- What a step finds in a part of the trace stays there. -/
theorem mem_filterMap_step {β : Type} {f : Event → Option β} {l : Label} (hs : Step s l s')
    {x : β} (hx : x ∈ s.trace.filterMap f) : x ∈ s'.trace.filterMap f := by
  obtain ⟨es, ht, -⟩ := logs_step hs
  rw [ht, List.filterMap_append]
  exact List.mem_append_left _ hx

/-- A task is destroyed at the end of `__task_destroy`. -/
theorem gone_step {l : Label} (hs : Step s l s') {t : TaskId} (ht : t ∈ s'.gone)
    (hold : t ∉ s.gone) : ∃ c, s.pc = .account t c := by
  obtain ⟨es, htrace, hlogs⟩ := logs_step hs
  have hnew : t ∈ (s.trace ++ es).filterMap Event.gone? := htrace ▸ ht
  rw [List.filterMap_append] at hnew
  rcases List.mem_append.mp hnew with h | h
  · exact absurd h hold
  · obtain ⟨e, he, hgone⟩ := List.mem_filterMap.mp h
    have hlog := hlogs e he
    cases e with
    | dropped u =>
      cases hgone
      exact ⟨.drop, hlog⟩
    | finished u =>
      cases hgone
      exact ⟨.finish, hlog⟩
    | _ => cases hgone

/-- A property of the entries of the trace that new entries have and that later steps keep. -/
theorem entries_reachable {P : State → Event → Prop} (h0 : ∀ f, P probed (.feed f))
    (hnew : ∀ s l s', Reachable s → Step s l s' → ∀ e, s.Logs e → P s' e)
    (hold : ∀ s l s', Reachable s → Step s l s' → ∀ e ∈ s.trace, P s e → P s' e)
    (h : Reachable s) : ∀ e ∈ s.trace, P s e := by
  refine Machine.Reachable.invariant_of (I := fun s => ∀ e ∈ s.trace, P s e) (fun _ hr => hr)
    ?_ ?_ h
  · intro e he
    obtain ⟨i, -, rfl⟩ := List.mem_map.mp he
    exact h0 _
  · intro s l s' hr hI hstep e he
    have hs := Step.of_step hstep
    obtain ⟨es, ht, hes⟩ := logs_step hs
    rw [ht] at he
    rcases List.mem_append.mp he with he | he
    · exact hold s l s' hr hs e he (hI e he)
    · exact hnew s l s' hr hs e (hes e he)

end Dicedev
