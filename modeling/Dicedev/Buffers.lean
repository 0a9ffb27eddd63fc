import Dicedev.Views

/-!
# What a step does to a buffer

`BufStep s b l x` lists what a step with the label `l` can turn buffer `b` of the state `s`
into. Of most steps a buffer notices nothing. A new buffer is the only other change of the
table, `nBuf_step`.
-/

namespace Dicedev

open State

variable {s s' : State} {l : Label} {b : BufId}

inductive BufStep (s : State) (b : BufId) : Label → Buffer → Prop
  | keep (l : Label) (hl : l ≠ .bufferRelease b) : BufStep s b l (s.bufs b)
  | leak (c : CtxId) (cb db : BufId) (addr size : Word) (shared alloc : Bool) (n : Nat) :
      BufStep s b (.run c cb db addr size shared alloc)
        { s.bufs b with leakedRefs := (s.bufs b).leakedRefs + n }
  | mark (c : CtxId) (hmem : b ∈ (s.ctxs c).allocatedBuffers) :
      BufStep s b (.releaseMark c) { s.bufs b with destroyed := true }
  | giveUp (c : CtxId) (rest : List BufId) (n : Nat) (hclosing : (s.ctxs c).phase = .closing)
      (hlist : (s.ctxs c).allocatedBuffers = b :: rest) :
      BufStep s b (.releaseBuffer c)
        { s.bufs b with bindedSlot := none, usageCount := n, ctxRef := false }
  | read :
      BufStep s b (.read b)
        { s.bufs b with reader := ⟨(s.bufs b).reader.resultCount, (s.bufs b).reader.offset + 1⟩ }
  | seed (w : Word) :
      BufStep s b (.seed b w) { s.bufs b with seedChg := true, seed := w.setWidth 64 }
  | dup (hfd : 0 < (s.bufs b).fdRefs) :
      BufStep s b (.dup b) { s.bufs b with fdRefs := (s.bufs b).fdRefs + 1 }
  | close (hfd : 0 < (s.bufs b).fdRefs) :
      BufStep s b (.close b) { s.bufs b with fdRefs := (s.bufs b).fdRefs - 1 }
  | free (n : Nat) (hfreed : (s.bufs b).freed = false) (hfd : (s.bufs b).fdRefs = 0)
      (hctx : (s.bufs b).ctxRef = false) :
      BufStep s b (.bufferRelease b)
        { s.bufs b with bindedSlot := none, usageCount := n, freed := true }
  | store (i j : Nat) (w : Word) (page : Nat → Nat → Word) :
      BufStep s b (.store b i j w) { s.bufs b with page := page }
  | bind (t : TaskId) (i : Slot) (hpc : s.pc = .event .taskBindSlot) (hnext : s.nextTask = some t)
      (hout : (s.tasks t).buffOut = b) :
      BufStep s b .worker
        { s.bufs b with bindedSlot := some i, usageCount := 1, reader := ⟨0, 0⟩ }
  | unbind (t : TaskId) (c : Caller) (n : Nat) (hpc : s.pc = .destroy t c)
      (hout : (s.tasks t).buffOut = b) :
      BufStep s b .worker { s.bufs b with bindedSlot := none, usageCount := n }
  | account (t : TaskId) (c : Caller) (hpc : s.pc = .account t c)
      (hout : (s.tasks t).buffOut = b) :
      BufStep s b .worker
        { s.bufs b with
          reader := ⟨(s.bufs b).reader.resultCount + (s.tasks t).resultCount,
            (s.bufs b).reader.offset⟩ }

/-- The two `fdget`s of RUN raise one counter. -/
theorem leakBufs_apply (s : State) (cb db : BufId) (shared : Bool) (b : BufId) :
    ∃ n, s.leakBufs cb db shared b =
      { s.bufs b with leakedRefs := (s.bufs b).leakedRefs + n } := by
  have hone : ∀ (u : State) (d : BufId), ∃ n, (u.leakRef d true).bufs b =
      { u.bufs b with leakedRefs := (u.bufs b).leakedRefs + n } := by
    intro u d
    by_cases hd : b = d
    · subst hd
      exact ⟨1, Function.update_self ..⟩
    · exact ⟨0, Function.update_of_ne hd ..⟩
  cases shared with
  | false => exact ⟨0, rfl⟩
  | true =>
    obtain ⟨n, hn⟩ := hone s cb
    obtain ⟨m, hm⟩ := hone (s.leakRef cb true) db
    refine ⟨n + m, ?_⟩
    change ((s.leakRef cb true).leakRef db true).bufs b = _
    rw [hm, hn, Nat.add_assoc]

/-- A buffer that is not unbound stays as it is. -/
theorem unbound_of_ne {d : BufId} (h : b ≠ d) : (s.unbound d).bufs b = s.bufs b := by
  cases hd : (s.bufs d).bindedSlot with
  | none => rw [unbound_of_none hd]
  | some i =>
    rw [unbound_of_some hd]
    exact Function.update_of_ne h ..

/-- An unbound buffer has no slot and is not in use. -/
theorem unbound_self (s : State) (b : BufId) :
    ∃ n, (s.unbound b).bufs b = { s.bufs b with bindedSlot := none, usageCount := n } := by
  cases hb : (s.bufs b).bindedSlot with
  | none =>
    rw [unbound_of_none hb]
    exact ⟨(s.bufs b).usageCount, by rw [← hb]⟩
  | some i =>
    rw [unbound_of_some hb]
    exact ⟨0, Function.update_self ..⟩

/-- One written entry of the table. -/
theorem BufStep.of_update {d : BufId} {x : Buffer} (hl : l ≠ .bufferRelease b)
    (h : d = b → BufStep s b l x) : BufStep s b l (Function.update s.bufs d x b) :=
  update_pred (.keep l hl) h

theorem BufStep.of_step (hs : Step s l s') (hb : b < s.nBuf) : BufStep s b l (s'.bufs b) := by
  cases hs with
  | openCtx | createSetRefused | runCount | runQueue | wait | waitLeave | waitReturn
  | releaseWait | releaseFree | writeRefused | write | writeFail | writeQueue | readNone | isrOff
  | isr | isrFence | fenceInterrupt | errorInterrupt | slotError | suspend | resume | remove
  | head | polled | sleep | again | park | drop | getNext | taskRun | taskFinish | runDone
  | runSkip | runFeed | runReject | fence | destroyKeep | finishing | shutdown =>
    exact .keep _ (by simp)
  | halt l bug hl =>
    refine .keep l ?_
    rcases hl with rfl | rfl <;> simp
  | createSet => exact .of_update (by simp) fun h => absurd h (Nat.ne_of_gt hb)
  | runRefused c cb db addr size shared alloc leak =>
    obtain ⟨n, hn⟩ := leakBufs_apply s cb db leak b
    simp only [hn]
    exact .leak c cb db addr size shared alloc n
  | run c cb db addr size shared alloc =>
    obtain ⟨n, hn⟩ := leakBufs_apply s cb db shared b
    simp only [hn]
    exact .leak c cb db addr size shared alloc n
  | releaseMark c =>
    dsimp only
    split
    · rename_i hmem
      exact .mark c hmem
    · exact .keep _ (by simp)
  | releaseBuffer c d rest hclosing hlist =>
    by_cases hd : b = d
    · subst hd
      obtain ⟨n, hn⟩ := unbound_self s b
      simp only [Function.update_self, hn]
      exact .giveUp c rest n hclosing hlist
    · simp only [Function.update_of_ne hd, unbound_of_ne hd]
      exact .keep _ (by simp)
  | read d =>
    refine .of_update (by simp) fun hd => ?_
    subst hd
    exact .read
  | seed d w =>
    refine .of_update (by simp) fun hd => ?_
    subst hd
    exact .seed w
  | dup d hfd =>
    refine .of_update (by simp) fun hd => ?_
    subst hd
    exact .dup hfd
  | close d hfd =>
    refine .of_update (by simp) fun hd => ?_
    subst hd
    exact .close hfd
  | bufferRelease d hfreed hfd hctx =>
    by_cases hd : b = d
    · subst hd
      obtain ⟨n, hn⟩ := unbound_self s b
      simp only [Function.update_self, hn]
      exact .free n hfreed hfd hctx
    · simp only [Function.update_of_ne hd, unbound_of_ne hd]
      exact .keep _ (by simpa using Ne.symm hd)
  | store d i j w =>
    refine .of_update (by simp) fun hd => ?_
    subst hd
    exact .store i j w _
  | bindSlot t d i hpc hnext hout =>
    refine .of_update (by simp) fun hd => ?_
    subst hd
    exact .bind t i hpc hnext hout
  | destroyUnbind t c d hpc hout =>
    by_cases hd : b = d
    · subst hd
      obtain ⟨n, hn⟩ := unbound_self s b
      simp only [hn]
      exact .unbind t c n hpc hout
    · simp only [unbound_of_ne hd]
      exact .keep _ (by simp)
  | account t caller c d hpc hctx hout =>
    refine .of_update (by simp) fun hd => ?_
    subst hd
    exact .account t caller hpc hout

/-- The table of buffers stays, or `DICEDEV_IOCTL_CREATE_SET` adds one. -/
theorem nBuf_step (hs : Step s l s') :
    s'.nBuf = s.nBuf ∨ ∃ c size allowed dma, l = .createSet c size allowed dma ∧
      s'.nBuf = s.nBuf + 1 ∧ s'.bufs s.nBuf = newBuffer c size allowed dma := by
  cases hs with
  | createSet c size allowed dma =>
    exact Or.inr ⟨c, size, allowed, dma, rfl, rfl, Function.update_self ..⟩
  | _ => exact Or.inl rfl

theorem nBuf_le_step (hs : Step s l s') : s.nBuf ≤ s'.nBuf := by
  rcases nBuf_step hs with hn | ⟨c, size, allowed, dma, -, hn, -⟩
  · exact Nat.le_of_eq hn.symm
  · exact Nat.le_of_lt (Nat.lt_of_lt_of_eq (Nat.lt_succ_self _) hn.symm)

/-- A property of the buffers that a new buffer has and that every step keeps. -/
theorem buffers_reachable {P : State → BufId → Prop}
    (hnew : ∀ s s' c size allowed dma, Reachable s → Step s (.createSet c size allowed dma) s' →
      s'.bufs s.nBuf = newBuffer c size allowed dma → P s' s.nBuf)
    (hstep : ∀ s l s' b, Reachable s → system.step s l = some s' → b < s.nBuf → P s b → P s' b)
    (h : Reachable s) : ∀ b < s.nBuf, P s b := by
  refine Machine.Reachable.invariant_of (I := fun s => ∀ b < s.nBuf, P s b) (fun _ hr => hr)
    ?_ ?_ h
  · intro b hb
    exact absurd hb (Nat.not_lt_zero b)
  · intro s l s' hr hI hs b hb
    rcases nBuf_step (Step.of_step hs) with hn | ⟨c, size, allowed, dma, rfl, hn, hbuf⟩
    · rw [hn] at hb
      exact hstep s l s' b hr hs hb (hI b hb)
    · rw [hn] at hb
      rcases Nat.lt_succ_iff_lt_or_eq.mp hb with hlt | heq
      · exact hstep s _ s' b hr hs hlt (hI b hlt)
      · rw [heq]
        exact hnew s s' c size allowed dma hr (Step.of_step hs) hbuf

end Dicedev
