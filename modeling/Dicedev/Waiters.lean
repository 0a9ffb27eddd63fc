import Dicedev.Readers

/-!
# The readers that wait on a context

`dicedev_buffer_read` waits on `ctx->wq` of the buffer's context. Here its calls are taken
apart: the test of the loop under `slock`, and the parts of `wait_event_interruptible`, which
evaluates its condition, puts itself on the queue, evaluates the condition again, sleeps, and
after a wake-up starts over with the queue. The condition is evaluated without a lock, one load
after the other, and the last load is that of `ctx->task_count`. A reader refers to the file of
the buffer and not to that of the context, and `dicedev_release` waits for the tasks only. So the
context can be freed while a reader still has to use it, `context_freed_under_reader`.

`context_outlives_waiters`: it needs a reader that is in its wait when the loop of
`dicedev_release` ends, and from there on nothing prevents it.
-/

namespace Dicedev

open State

/-- The loads of the condition of `wait_event_interruptible`, in their order. -/
inductive CondLoad
  /-- `READS_AVAILABLE(res_buff->reader)`. -/
  | reads
  /-- `res_buff->destroyed`. -/
  | destroyed
  /-- `res_buff->ctx->task_count`. -/
  | count
  deriving DecidableEq, Repr

/-- The load that follows when this one does not decide the condition. -/
def CondLoad.next : CondLoad → Option CondLoad
  | .reads => some .destroyed
  | .destroyed => some .count
  | .count => none

/-- What has become of the entry that `prepare_to_wait_event` puts on the queue. -/
inductive QueueEntry
  | queued
  /-- A wake-up has taken it off. -/
  | woken
  /-- A signal was pending, and it was not put there. -/
  | interrupted
  deriving DecidableEq, Repr

/-- Where a call of `dicedev_buffer_read` is. -/
inductive ReadPc
  | outside
  /-- Before the critical section with the test of the loop. -/
  | testing (b : BufId)
  /-- The test told it to wait; in the first evaluation of the condition, before the load `q`. -/
  | entering (b : BufId) (q : CondLoad)
  /-- Before `prepare_to_wait_event`. -/
  | preparing (b : BufId)
  /-- Behind it, in the evaluation of the condition, before the load `q`. -/
  | checking (b : BufId) (q : CondLoad) (e : QueueEntry)
  /-- In `schedule`. -/
  | sleeping (b : BufId)
  /-- Before `finish_wait`. -/
  | finishing (b : BufId) (e : QueueEntry)
  deriving DecidableEq, Repr

/-- The buffer that is read. -/
def ReadPc.buf? : ReadPc → Option BufId
  | .outside => none
  | .testing b | .entering b _ | .preparing b | .checking b _ _ | .sleeping b
  | .finishing b _ => some b

/-- The reader has to use its context before it returns: to load `task_count`, or to go through
the queue. It has not before the load of `destroyed` if it is not on the queue, for that load may
end its wait, nor in `finish_wait` once its entry is off the queue. -/
def ReadPc.waitsOn : ReadPc → Option BufId
  | .entering b .count | .preparing b | .checking b .count _ | .checking b _ .queued
  | .sleeping b | .finishing b .queued => some b
  | _ => none

/-- Where the reader goes when the condition is false. -/
def QueueEntry.wait (b : BufId) : QueueEntry → ReadPc
  | .queued => .sleeping b
  -- `schedule` returns at once
  | .woken => .preparing b
  -- `finish_wait` is skipped
  | .interrupted => .testing b

namespace State

/-- The loop condition of `dicedev_buffer_read`. -/
def ReadBlocked (s : State) (b : BufId) : Prop :=
  readsAvailable (s.bufs b).reader = 0 ∧ (s.bufs b).destroyed = false ∧
    0 < (s.ctxs (s.bufs b).ctx).taskCount

/-- The loop condition is evaluated up to `ctx->task_count`. -/
def ReadsCount (s : State) (b : BufId) : Prop :=
  readsAvailable (s.bufs b).reader = 0 ∧ (s.bufs b).destroyed = false

instance (s : State) (b : BufId) : Decidable (s.ReadBlocked b) :=
  inferInstanceAs (Decidable (_ ∧ _ ∧ _))

instance (s : State) (b : BufId) : Decidable (s.ReadsCount b) :=
  inferInstanceAs (Decidable (_ ∧ _))

/-- The load makes the condition of `wait_event_interruptible` true. -/
def condHolds (s : State) (b : BufId) : CondLoad → Bool
  | .reads => decide (readsAvailable (s.bufs b).reader ≠ 0)
  | .destroyed => (s.bufs b).destroyed
  | .count => decide ((s.ctxs (s.bufs b).ctx).taskCount = 0)

/-- The context whose queue is woken by a step: `__task_destroy` wakes that of its task. -/
def wakes (s : State) : Label → Option CtxId
  | .worker =>
    match s.pc with
    | .account t _ => some (s.tasks t).ctx
    | _ => none
  | _ => none

end State

/-- A wake-up takes the entry off the queue. -/
def QueueEntry.wake (hit : Bool) : QueueEntry → QueueEntry
  | .queued => if hit then .woken else .queued
  | e => e

/-- A wake-up of the queue of `c`. -/
def ReadPc.wake (s : State) (c : Option CtxId) : ReadPc → ReadPc
  | .checking b q e => .checking b q (e.wake (decide (some (s.bufs b).ctx = c)))
  | .sleeping b => if some (s.bufs b).ctx = c then .preparing b else .sleeping b
  | .finishing b e => .finishing b (e.wake (decide (some (s.bufs b).ctx = c)))
  | pc => pc

/-- The driver with its readers; the first `nRead` of them have been started. -/
structure ReadState where
  base : State
  readers : Nat → ReadPc
  nRead : Nat

inductive ReadLabel
  | sys (l : Label)
  | start (b : BufId)
  | test (r : Nat)
  | enter (r : Nat)
  | prepare (r : Nat) (signal : Bool)
  | check (r : Nat)
  | signal (r : Nat)
  | finish (r : Nat)

namespace ReadState

/-- The readers of the file of `b`. -/
def readersOn (s : ReadState) (b : BufId) : Nat :=
  ((List.range s.nRead).filter fun r => (s.readers r).buf? = some b).length

/-- The steps of the driver that are taken by others: a reader's reference to a file is not
closed for it, and reads are the readers' own steps. -/
def admits (s : ReadState) : Label → Bool
  | .read _ => false
  | .close b => decide (s.readersOn b < (s.base.bufs b).fdRefs)
  | _ => true

def goto (s : ReadState) (r : Nat) (pc : ReadPc) : ReadState :=
  { s with readers := Function.update s.readers r pc }

/-- The end of a call: its critical section, and the reference to the file. -/
def readDone (s : State) (b : BufId) : Option State :=
  (system.step s (.read b)).bind fun s => system.step s (.close b)

def step (s : ReadState) (l : ReadLabel) : Option ReadState :=
  if s.base.bug = none then
    match l with
    | .sys l =>
      if s.admits l then
        (system.step s.base l).map fun base =>
          { s with base := base, readers := fun r => (s.readers r).wake s.base (s.base.wakes l) }
      else none
    | .start b =>
      -- the call holds a reference to the file
      (system.step s.base (.dup b)).map fun base =>
        { s.goto s.nRead (.testing b) with base := base, nRead := s.nRead + 1 }
    | .test r =>
      match s.readers r with
      | .testing b =>
        if s.base.slockFree then
          if s.base.ReadBlocked b then some (s.goto r (.entering b .reads))
          else (readDone s.base b).map fun base => { s.goto r .outside with base := base }
        else none
      | _ => none
    | .enter r =>
      match s.readers r with
      | .entering b q =>
        some (s.goto r (if s.base.condHolds b q then .testing b
          else q.next.elim (.preparing b) (.entering b)))
      | _ => none
    | .prepare r signal =>
      match s.readers r with
      | .preparing b =>
        some (s.goto r (.checking b .reads (if signal then .interrupted else .queued)))
      | _ => none
    | .check r =>
      match s.readers r with
      | .checking b q e =>
        some (s.goto r (if s.base.condHolds b q then .finishing b e
          else q.next.elim (e.wait b) fun q => .checking b q e))
      | _ => none
    | .signal r =>
      match s.readers r with
      | .sleeping b => some (s.goto r (.preparing b))
      | _ => none
    | .finish r =>
      match s.readers r with
      | .finishing b _ => some (s.goto r (.testing b))
      | _ => none
  else none

/-- The context whose memory a step of a reader reads or writes. -/
def touches (s : ReadState) : ReadLabel → Option CtxId
  | .test r =>
    match s.readers r with
    | .testing b => if s.base.ReadsCount b then some (s.base.bufs b).ctx else none
    | _ => none
  | .enter r =>
    match s.readers r with
    | .entering b .count => some (s.base.bufs b).ctx
    | _ => none
  | .check r =>
    match s.readers r with
    | .checking b .count _ => some (s.base.bufs b).ctx
    | _ => none
  | .prepare r _ =>
    match s.readers r with
    | .preparing b => some (s.base.bufs b).ctx
    | _ => none
  | .finish r =>
    -- `finish_wait` takes the lock of the queue if the entry is on it
    match s.readers r with
    | .finishing b .queued => some (s.base.bufs b).ctx
    | _ => none
  | _ => none

end ReadState

/-- The driver and any number of calls of `dicedev_buffer_read`. -/
def readSystem : Machine ReadState ReadLabel :=
  ⟨⟨State.probed, fun _ => .outside, 0⟩, ReadState.step⟩

/-- No context is freed that a reader still has to use, and no reader uses the memory of a freed
context. -/
structure OutlivesWaiters (s : ReadState) : Prop where
  waiters : ∀ r b, (s.readers r).waitsOn = some b →
    (s.base.ctxs (s.base.bufs b).ctx).phase ≠ .freed
  memory : ∀ l c, s.touches l = some c → (s.base.ctxs c).phase ≠ .freed

/-- The context whose release leaves its loop. -/
def ReadLabel.leaves? : ReadLabel → Option CtxId
  | .sys (.releaseWait c) => some c
  | _ => none

/-- When the loop of `dicedev_release` ends, no reader is in its wait on the context. -/
def WaitersGone (s : ReadState) (l : ReadLabel) : Prop :=
  ∀ c ∈ l.leaves?, ∀ r < s.nRead, ∀ b ∈ (s.readers r).waitsOn, (s.base.bufs b).ctx ≠ c

instance (s : ReadState) (l : ReadLabel) : Decidable (WaitersGone s l) :=
  inferInstanceAs (Decidable (∀ c ∈ l.leaves?, ∀ r < s.nRead, ∀ b ∈ (s.readers r).waitsOn,
    (s.base.bufs b).ctx ≠ c))

/-- No write fails after it has raised `task_count`. It would die with `slock` held
(`write_failure_iff`), and no release could go on. -/
def WritesReturn (_ : ReadState) (l : ReadLabel) : Prop := ∀ k, l ≠ .sys (.writeFail k)

/-! ## Steps -/

/-- How a reader moves while the driver stands still. -/
inductive ReadMove (s : State) : ReadPc → ReadPc → Prop
  | block (b : BufId) : ReadMove s (.testing b) (.entering b .reads)
  | skip (b : BufId) (q : CondLoad) : ReadMove s (.entering b q) (.testing b)
  | enterNext (b : BufId) : ReadMove s (.entering b .reads) (.entering b .destroyed)
  | enterCount (b : BufId) (h : (s.bufs b).destroyed = false) :
      ReadMove s (.entering b .destroyed) (.entering b .count)
  | wait (b : BufId) : ReadMove s (.entering b .count) (.preparing b)
  | prepare (b : BufId) (e : QueueEntry) : ReadMove s (.preparing b) (.checking b .reads e)
  | leave (b : BufId) (q : CondLoad) (e : QueueEntry) :
      ReadMove s (.checking b q e) (.finishing b e)
  | checkNext (b : BufId) (e : QueueEntry) :
      ReadMove s (.checking b .reads e) (.checking b .destroyed e)
  | checkCount (b : BufId) (e : QueueEntry) (h : (s.bufs b).destroyed = false) :
      ReadMove s (.checking b .destroyed e) (.checking b .count e)
  | again (b : BufId) (e : QueueEntry) : ReadMove s (.checking b .count e) (e.wait b)
  | signal (b : BufId) : ReadMove s (.sleeping b) (.preparing b)
  | finish (b : BufId) (e : QueueEntry) : ReadMove s (.finishing b e) (.testing b)

/-- What a step does. -/
inductive ReadStep (s : ReadState) : ReadLabel → ReadState → Prop
  | sys (l : Label) (base : State) (hs : system.step s.base l = some base) :
      ReadStep s (.sys l)
        { s with base := base, readers := fun r => (s.readers r).wake s.base (s.base.wakes l) }
  | start (b : BufId) (base : State) (hs : system.step s.base (.dup b) = some base) :
      ReadStep s (.start b)
        { s.goto s.nRead (.testing b) with base := base, nRead := s.nRead + 1 }
  | done (r : Nat) (b : BufId) (mid base : State) (hpc : s.readers r = .testing b)
      (hread : system.step s.base (.read b) = some mid)
      (hclose : system.step mid (.close b) = some base) :
      ReadStep s (.test r) { s.goto r .outside with base := base }
  | move (l : ReadLabel) (r : Nat) (pc : ReadPc) (hl : ∀ l', l ≠ .sys l')
      (hmove : ReadMove s.base (s.readers r) pc) : ReadStep s l (s.goto r pc)

variable {s s' : ReadState} {l : ReadLabel}

/-- A load of the first evaluation. -/
theorem ReadMove.of_enter (s : State) (b : BufId) (q : CondLoad) :
    ReadMove s (.entering b q) (if s.condHolds b q then .testing b
      else q.next.elim (.preparing b) (.entering b)) := by
  split
  · exact .skip b q
  · rename_i hfalse
    cases q with
    | reads => exact .enterNext b
    | destroyed => exact .enterCount b (Bool.eq_false_iff.mpr hfalse)
    | count => exact .wait b

/-- A load of the evaluation behind `prepare_to_wait_event`. -/
theorem ReadMove.of_check (s : State) (b : BufId) (q : CondLoad) (e : QueueEntry) :
    ReadMove s (.checking b q e) (if s.condHolds b q then .finishing b e
      else q.next.elim (e.wait b) fun q => .checking b q e) := by
  split
  · exact .leave b q e
  · rename_i hfalse
    cases q with
    | reads => exact .checkNext b e
    | destroyed => exact .checkCount b e (Bool.eq_false_iff.mpr hfalse)
    | count => exact .again b e

theorem ReadStep.of_move {r : Nat} {pc pc' : ReadPc} (hpc : s.readers r = pc)
    (hmove : ReadMove s.base pc pc') (hl : ∀ l', l ≠ .sys l') : ReadStep s l (s.goto r pc') := by
  refine .move l r pc' hl ?_
  rw [hpc]
  exact hmove

theorem ReadStep.of_step (h : s.step l = some s') : ReadStep s l s' := by
  unfold ReadState.step at h
  split at h
  · cases l with
    | sys l =>
      dsimp only at h
      split at h
      · obtain ⟨base, hs, rfl⟩ := Option.map_eq_some_iff.mp h
        exact .sys l base hs
      · cases h
    | start b =>
      obtain ⟨base, hs, rfl⟩ := Option.map_eq_some_iff.mp h
      exact .start b base hs
    | test r =>
      dsimp only at h
      split at h
      · rename_i b hpc
        split at h
        · split at h
          · cases h
            exact .of_move hpc (.block b) nofun
          · obtain ⟨base, hdone, rfl⟩ := Option.map_eq_some_iff.mp h
            obtain ⟨mid, hread, hclose⟩ := Option.bind_eq_some_iff.mp hdone
            exact .done r b mid base hpc hread hclose
        · cases h
      · cases h
    | enter r =>
      dsimp only at h
      split at h
      · rename_i b q hpc
        cases h
        exact .of_move hpc (.of_enter s.base b q) nofun
      · cases h
    | prepare r signal =>
      dsimp only at h
      split at h
      · rename_i b hpc
        cases h
        exact .of_move hpc (.prepare b _) nofun
      · cases h
    | check r =>
      dsimp only at h
      split at h
      · rename_i b q e hpc
        cases h
        exact .of_move hpc (.of_check s.base b q e) nofun
      · cases h
    | signal r =>
      dsimp only at h
      split at h
      · rename_i b hpc
        cases h
        exact .of_move hpc (.signal b) nofun
      · cases h
    | finish r =>
      dsimp only at h
      split at h
      · rename_i b e hpc
        cases h
        exact .of_move hpc (.finish b e) nofun
      · cases h
  · cases h

theorem ReadMove.buf? {s : State} {pc pc' : ReadPc} (h : ReadMove s pc pc') :
    pc'.buf? = pc.buf? := by
  cases h with
  | again b e => cases e <;> rfl
  | _ => rfl

/-- A reader has to use its context only after it has found the buffer not destroyed. -/
theorem ReadMove.waitsOn {s : State} {pc pc' : ReadPc} (h : ReadMove s pc pc') {b : BufId}
    (hb : pc'.waitsOn = some b) :
    pc.waitsOn = some b ∨ (pc.buf? = some b ∧ (s.bufs b).destroyed = false) := by
  cases h with
  | enterCount b' hd | checkCount b' e hd =>
    cases hb
    exact Or.inr ⟨rfl, hd⟩
  | wait | signal => exact Or.inl hb
  | prepare b' e | checkNext b' e =>
    cases e with
    | queued => exact Or.inl hb
    | woken | interrupted => cases hb
  | leave b' q e =>
    cases e with
    | queued => exact Or.inl (by cases q <;> exact hb)
    | woken | interrupted => cases hb
  | again b' e =>
    cases e with
    | queued | woken => exact Or.inl hb
    | interrupted => cases hb
  | block | skip | enterNext | finish => cases hb

theorem wake_buf? (s : State) (c : Option CtxId) (pc : ReadPc) : (pc.wake s c).buf? = pc.buf? := by
  cases pc with
  | sleeping b =>
    change (if some (s.bufs b).ctx = c then ReadPc.preparing b else .sleeping b).buf? = some b
    split <;> rfl
  | _ => rfl

theorem buf?_of_waitsOn {pc : ReadPc} {b : BufId} (h : pc.waitsOn = some b) : pc.buf? = some b := by
  unfold ReadPc.waitsOn at h
  split at h
  all_goals first
    | exact h
    | cases h

/-- A wake-up does not take a reader into its wait. -/
theorem wake_waitsOn {s : State} {c : Option CtxId} {pc : ReadPc} {b : BufId}
    (h : (pc.wake s c).waitsOn = some b) : pc.waitsOn = some b := by
  cases pc with
  | sleeping b' =>
    change (if some (s.bufs b').ctx = c then ReadPc.preparing b' else .sleeping b').waitsOn = _ at h
    split at h <;> exact h
  -- a reader whose entry is on the queue is in its wait anyway
  | checking b' q e =>
    cases e with
    | queued =>
      have hb : some b' = some b := buf?_of_waitsOn h
      rw [← hb]
      cases q <;> rfl
    | woken | interrupted => exact h
  | finishing b' e =>
    cases e with
    | queued => exact buf?_of_waitsOn h
    | woken | interrupted => exact h
  | _ => exact h

/-! ## The driver under the readers -/

theorem counting_update {f : CtxId → Context} {c d : CtxId} {x : Context}
    (h : (f c).phase.Counting) (hx : d = c → x.phase.Counting) :
    (Function.update f d x c).phase.Counting :=
  update_pred (P := fun y : Context => y.phase.Counting) h hx

/-- A context stays open, or in the loop of its release, until the loop ends. -/
theorem counting_step {s s' : State} {l : Label} (hs : Step s l s') {c : CtxId}
    (h : (s.ctxs c).phase.Counting) (hl : l ≠ .releaseWait c) : (s'.ctxs c).phase.Counting := by
  have hisr : (s.isrCtxs c).phase.Counting := by
    have hphase : (s.isrCtxs c).phase = (s.ctxs c).phase :=
      congrArg CtxSig.phase (congrFun (csig_isrCtxs s) c)
    rw [hphase]
    exact h
  cases hs with
  | openCtx => exact counting_update h fun _ => Or.inl rfl
  | releaseMark => exact counting_update h fun _ => Or.inr rfl
  | releaseWait d =>
    refine counting_update h fun hd => ?_
    subst hd
    exact absurd rfl hl
  | releaseFree d hclosing =>
    refine counting_update h fun hd => ?_
    subst hd
    rw [hclosing] at h
    rcases h with h | h <;> cases h
  | createSet | runCount | releaseBuffer | write | writeFail | runReject | account =>
    exact counting_update h fun hd => hd ▸ h
  | isr => exact hisr
  | isrFence => exact hisr
  | _ => exact h

/-- What holds of the readers in every run. -/
structure ReadInv (s : ReadState) : Prop where
  base : Reachable s.base
  unused : ∀ r, s.nRead ≤ r → s.readers r = .outside
  buf_lt : ∀ r b, (s.readers r).buf? = some b → b < s.base.nBuf

theorem ReadMove.ne_outside {s : State} {pc pc' : ReadPc} (h : ReadMove s pc pc') :
    pc ≠ .outside := by
  rintro rfl
  cases h

/-- A reader that moves has been started. -/
theorem unused_goto (h : ReadInv s) {r : Nat} (hr : s.readers r ≠ .outside) (pc : ReadPc) (q : Nat)
    (hq : s.nRead ≤ q) : Function.update s.readers r pc q = .outside := by
  have hne : q ≠ r := by
    rintro rfl
    exact hr (h.unused q hq)
  rw [Function.update_of_ne hne]
  exact h.unused q hq

theorem readInv_step (h : ReadInv s) (hs : ReadStep s l s') : ReadInv s' := by
  cases hs with
  | sys l base hs =>
    refine ⟨h.base.step hs, ?_, ?_⟩
    · intro r hr
      change (s.readers r).wake _ _ = _
      rw [h.unused r hr]
      rfl
    · intro r b hb
      rw [wake_buf?] at hb
      exact Nat.lt_of_lt_of_le (h.buf_lt r b hb) (nBuf_le_step (Step.of_step hs))
  | start b base hs =>
    have hle := nBuf_le_step (Step.of_step hs)
    have hlt : b < s.base.nBuf := by
      cases Step.of_step hs with
      | dup _ hfd => exact (scope_reachable h.base).fd_lt hfd
      | halt _ _ hl => rcases hl with hl | hl <;> cases hl
    refine ⟨h.base.step hs, ?_, ?_⟩
    · intro r hr
      have hne : r ≠ s.nRead := by
        change s.nRead + 1 ≤ r at hr
        omega
      exact (Function.update_of_ne hne _ _).trans (h.unused r (Nat.le_of_succ_le hr))
    · refine (Function.forall_update_iff s.readers fun _ pc =>
        ∀ b, pc.buf? = some b → b < base.nBuf).mpr ⟨?_, ?_⟩
      · intro b' hb'
        cases hb'
        exact Nat.lt_of_lt_of_le hlt hle
      · exact fun r _ b' hb' => Nat.lt_of_lt_of_le (h.buf_lt r b' hb') hle
  | done r b mid base hpc hread hclose =>
    have hle := Nat.le_trans (nBuf_le_step (Step.of_step hread))
      (nBuf_le_step (Step.of_step hclose))
    have hactive : s.readers r ≠ .outside := by
      rw [hpc]
      nofun
    refine ⟨(h.base.step hread).step hclose, unused_goto h hactive _, ?_⟩
    · refine (Function.forall_update_iff s.readers fun _ pc =>
        ∀ b, pc.buf? = some b → b < base.nBuf).mpr ⟨nofun, ?_⟩
      exact fun r _ b' hb' => Nat.lt_of_lt_of_le (h.buf_lt r b' hb') hle
  | move l r pc hl hmove =>
    refine ⟨h.base, unused_goto h hmove.ne_outside _, ?_⟩
    · refine (Function.forall_update_iff s.readers fun _ pc =>
        ∀ b, pc.buf? = some b → b < s.base.nBuf).mpr ⟨?_, fun r _ => h.buf_lt r⟩
      intro b hb
      rw [hmove.buf?] at hb
      exact h.buf_lt r b hb

theorem readInv_reachable (h : readSystem.Reachable s) : ReadInv s := by
  refine Machine.Reachable.invariant (I := ReadInv) ?_ ?_ h
  · exact ⟨.init, fun _ _ => rfl, fun _ _ => nofun⟩
  · exact fun s l s' hi hs => readInv_step hi (ReadStep.of_step hs)

/-! ## Waiting on a context -/

/-- The context of a reader in its wait is open, or its release is in its loop. -/
def WaitsCounted (s : ReadState) : Prop :=
  ∀ r b, (s.readers r).waitsOn = some b →
    (s.base.ctxs (s.base.bufs b).ctx).phase.Counting

theorem counted_step {s s' : State} {l : Label} (hs : Step s l s') {b : BufId} (hb : b < s.nBuf)
    (h : (s.ctxs (s.bufs b).ctx).phase.Counting) (hl : l ≠ .releaseWait (s.bufs b).ctx) :
    (s'.ctxs (s'.bufs b).ctx).phase.Counting := by
  rw [(owner_step hs hb).1]
  exact counting_step hs h hl

/-- A buffer that is not marked belongs to an open context. -/
theorem opened_of_not_destroyed {s : State} (h : Reachable s) {b : BufId} (hb : b < s.nBuf)
    (hd : (s.bufs b).destroyed = false) : (s.ctxs (s.bufs b).ctx).phase = .opened := by
  by_contra hne
  have hmarked := (Owned.destroyed_iff (ownership_reachable h) b hb).mpr hne
  cases hd.symm.trans hmarked

theorem waitsCounted_step (h : ReadInv s) (hw : WaitsCounted s) (hC : WaitersGone s l)
    (hs : ReadStep s l s') : WaitsCounted s' := by
  cases hs with
  | sys l base hs =>
    intro r b hb
    replace hb := wake_waitsOn hb
    have hlt := h.buf_lt r b (buf?_of_waitsOn hb)
    refine counted_step (Step.of_step hs) hlt (hw r b hb) ?_
    rintro rfl
    have hr : r < s.nRead := by
      by_contra hge
      rw [h.unused r (Nat.not_lt.mp hge)] at hb
      cases hb
    exact hC _ rfl r hr b hb rfl
  | start b base hs =>
    refine (Function.forall_update_iff s.readers fun _ pc => ∀ b, pc.waitsOn = some b →
      (base.ctxs (base.bufs b).ctx).phase.Counting).mpr ⟨nofun, ?_⟩
    intro r _ b' hb'
    exact counted_step (Step.of_step hs) (h.buf_lt r b' (buf?_of_waitsOn hb')) (hw r b' hb') nofun
  | done r b mid base hpc hread hclose =>
    refine (Function.forall_update_iff s.readers fun _ pc => ∀ b, pc.waitsOn = some b →
      (base.ctxs (base.bufs b).ctx).phase.Counting).mpr ⟨nofun, ?_⟩
    intro r _ b' hb'
    have hlt := h.buf_lt r b' (buf?_of_waitsOn hb')
    have hmid := counted_step (Step.of_step hread) hlt (hw r b' hb') nofun
    have hlt' := Nat.lt_of_lt_of_le hlt (nBuf_le_step (Step.of_step hread))
    exact counted_step (Step.of_step hclose) hlt' hmid nofun
  | move l r pc hl hmove =>
    refine (Function.forall_update_iff s.readers fun _ pc => ∀ b, pc.waitsOn = some b →
      (s.base.ctxs (s.base.bufs b).ctx).phase.Counting).mpr ⟨?_, fun r _ => hw r⟩
    intro b hb
    rcases hmove.waitsOn hb with hold | ⟨hbuf, hd⟩
    · exact hw r b hold
    · exact Or.inl (opened_of_not_destroyed h.base (h.buf_lt r b hbuf) hd)

theorem waitsCounted_reachable (h : readSystem.ReachableBy WaitersGone s) : WaitsCounted s := by
  refine Machine.ReachableBy.invariant_of (I := WaitsCounted)
    (fun _ => readInv_reachable) ?_ ?_ h
  · exact fun _ _ => nofun
  · exact fun s l s' hi hw hC hs => waitsCounted_step hi hw hC (ReadStep.of_step hs)

theorem Phase.Counting.ne_freed {p : Phase} (h : p.Counting) : p ≠ .freed := by
  rcases h with rfl | rfl <;> decide

/-- A reader uses the memory of a context in its wait, or finds the buffer not marked. -/
theorem touches_cases {c : CtxId} (h : s.touches l = some c) :
    ∃ r b, (s.base.bufs b).ctx = c ∧ ((s.readers r).waitsOn = some b ∨
      ((s.readers r).buf? = some b ∧ (s.base.bufs b).destroyed = false)) := by
  unfold ReadState.touches at h
  split at h
  · split at h
    · rename_i hpc
      split at h
      · rename_i hreads
        exact ⟨_, _, Option.some.inj h, Or.inr ⟨congrArg ReadPc.buf? hpc, hreads.2⟩⟩
      · cases h
    · cases h
  -- the four uses without the lock are all in the wait
  iterate 4
    · split at h
      · rename_i hpc
        exact ⟨_, _, Option.some.inj h, Or.inl (congrArg ReadPc.waitsOn hpc)⟩
      · cases h
  · cases h

theorem outlives_of_counted (h : ReadInv s) (hw : WaitsCounted s) : OutlivesWaiters s := by
  refine ⟨fun r b hb => (hw r b hb).ne_freed, ?_⟩
  intro l c hl
  obtain ⟨r, b, rfl, hwait | ⟨hbuf, hd⟩⟩ := touches_cases hl
  · exact (hw r b hwait).ne_freed
  · rw [opened_of_not_destroyed h.base (h.buf_lt r b hbuf) hd]
    decide

/-! ## The end of a release -/

/-- The loop over the buffers of a context is not held up. -/
theorem releaseBuffer_enabled {s : State} {c : CtxId} {b : BufId} {rest : List BufId}
    (hbug : s.bug = none) (hlock : s.slockFree = true) (hclosing : (s.ctxs c).phase = .closing)
    (hlist : (s.ctxs c).allocatedBuffers = b :: rest) :
    ∃ s', system.step s (.releaseBuffer c) = some s' ∧ s'.bug = none ∧ s'.slockFree = true ∧
      (s'.ctxs c).phase = .closing ∧ (s'.ctxs c).allocatedBuffers = rest := by
  have hstep : system.step s (.releaseBuffer c) = some (s.orHalt (s.releaseOne c b rest)) := by
    change (if s.bug = none then (s.releaseBuffer c).map s.orHalt else none) = _
    rw [if_pos hbug, releaseBuffer, if_pos ⟨hlock, hclosing⟩, hlist]
    rfl
  refine ⟨_, hstep, ?_⟩
  generalize s.orHalt (s.releaseOne c b rest) = s' at hstep
  cases Step.of_step hstep with
  | releaseBuffer _ b' rest' _ hlist' =>
    obtain ⟨rfl, rfl⟩ := List.cons.inj (hlist.symm.trans hlist')
    refine ⟨hbug, hlock, ?_, ?_⟩
    · exact (congrArg Context.phase (Function.update_self c _ s.ctxs)).trans hclosing
    · exact congrArg Context.allocatedBuffers (Function.update_self c _ s.ctxs)
  | halt _ _ hl => rcases hl with hl | hl <;> cases hl

theorem wake_none (s : State) (pc : ReadPc) : pc.wake s none = pc := by
  cases pc with
  | checking b q e => cases e <;> rfl
  | finishing b e => cases e <;> rfl
  | _ => rfl

/-- A step of the driver that the readers do not notice. -/
theorem sys_step {l : Label} {base : State} (hs : system.step s.base l = some base)
    (hbug : s.base.bug = none) (hl : s.admits l = true) (hw : s.base.wakes l = none) :
    readSystem.step s (.sys l) = some { s with base := base } := by
  change (if s.base.bug = none then if s.admits l then (system.step s.base l).map _ else none
    else none) = _
  rw [if_pos hbug, if_pos hl, hs, hw]
  refine congrArg some ?_
  simp only [wake_none]

/-- Nothing keeps a release from freeing its context once it has left its loop; the induction
is on the buffers that are left. -/
theorem close_run {c : CtxId} {bufs : List BufId} (hbug : s.base.bug = none)
    (hlock : s.base.slockFree = true) (hclosing : (s.base.ctxs c).phase = .closing)
    (hlist : (s.base.ctxs c).allocatedBuffers = bufs) :
    ∃ ls base, readSystem.exec s ls = some { s with base := base } ∧
      (base.ctxs c).phase = .freed ∧
      ∀ b < s.base.nBuf, (base.bufs b).ctx = (s.base.bufs b).ctx := by
  induction bufs generalizing s with
  | nil =>
    have hstep : system.step s.base (.releaseFree c) =
        some (s.base.updCtx c fun ctx => { ctx with phase := .freed }) := by
      change (if s.base.bug = none then s.base.releaseFree c else none) = _
      rw [if_pos hbug, releaseFree, if_pos ⟨hclosing, hlist⟩]
    refine ⟨[.sys (.releaseFree c)], _,
      Machine.exec_cons_some.mpr ⟨_, sys_step hstep hbug rfl rfl, rfl⟩, ?_, fun _ _ => rfl⟩
    exact congrArg Context.phase (Function.update_self c _ s.base.ctxs)
  | cons b rest ih =>
    obtain ⟨base, hstep, hbug', hlock', hclosing', hlist'⟩ :=
      releaseBuffer_enabled hbug hlock hclosing hlist
    obtain ⟨ls, base', hrun, hfreed, hctx⟩ :=
      ih (s := { s with base := base }) hbug' hlock' hclosing' hlist'
    refine ⟨.sys (.releaseBuffer c) :: ls, base',
      Machine.exec_cons_some.mpr ⟨_, sys_step hstep hbug rfl rfl, hrun⟩, hfreed, ?_⟩
    intro b' hb'
    have hb'' := Nat.lt_of_lt_of_le hb' (nBuf_le_step (Step.of_step hstep))
    exact (hctx b' hb'').trans (owner_step (Step.of_step hstep) hb').1

/-- A context is freed under a reader that is in its wait when the loop of the release
ends. -/
theorem freed_under_waiter {c : CtxId} (h : readSystem.Reachable s)
    (henabled : readSystem.step s (.sys (.releaseWait c)) ≠ none)
    (hlock : s.base.slockFree = true) (hwait : ¬ WaitersGone s (.sys (.releaseWait c))) :
    ∃ ls s', readSystem.exec s (.sys (.releaseWait c) :: ls) = some s' ∧
      ¬ OutlivesWaiters s' := by
  obtain ⟨r, b, hb, rfl⟩ : ∃ r b, (s.readers r).waitsOn = some b ∧ (s.base.bufs b).ctx = c := by
    unfold WaitersGone at hwait
    push Not at hwait
    obtain ⟨c', hc', r, -, b, hb, hctx⟩ := hwait
    exact ⟨r, b, hb, hctx.trans (Option.some.inj hc').symm⟩
  have hlt := (readInv_reachable h).buf_lt r b (buf?_of_waitsOn hb)
  have hbug : s.base.bug = none := by
    by_contra hne
    exact henabled (if_neg hne)
  obtain ⟨s₁, hs₁⟩ := Option.ne_none_iff_exists'.mp henabled
  have hstep : s.step (.sys (.releaseWait (s.base.bufs b).ctx)) = some s₁ := hs₁
  cases ReadStep.of_step hstep with
  | move _ _ _ hl => exact absurd rfl (hl _)
  | sys _ base hs =>
    have hclosing : (base.ctxs (s.base.bufs b).ctx).phase = .closing ∧ base.bug = none ∧
        base.slockFree = true ∧ base.bufs = s.base.bufs ∧ base.nBuf = s.base.nBuf := by
      cases Step.of_step hs with
      | releaseWait =>
        exact ⟨congrArg Context.phase (Function.update_self _ _ s.base.ctxs), hbug, hlock, rfl, rfl⟩
      | halt _ _ hl => rcases hl with hl | hl <;> cases hl
    obtain ⟨hphase, hbug₁, hlock₁, hbufs, hnBuf⟩ := hclosing
    obtain ⟨ls, base', hrun, hfreed, hctx⟩ := close_run (s := { s with
      base := base, readers := fun r => (s.readers r).wake s.base none }) hbug₁ hlock₁ hphase rfl
    refine ⟨ls, _, Machine.exec_cons_some.mpr ⟨_, hs₁, hrun⟩, fun ho => ?_⟩
    have hwaits : ((s.readers r).wake s.base none).waitsOn = some b := by
      rw [wake_none]
      exact hb
    have hne : (base'.ctxs (base'.bufs b).ctx).phase ≠ .freed := ho.waiters r b hwaits
    rw [hctx b (hnBuf ▸ hlt), hbufs] at hne
    exact hne hfreed

/-- A write of nothing to the only buffer, and a reader that goes to sleep before it is run. -/
def readerSleeps : List ReadLabel :=
  (openOne ++ writeCall 0 0 0 fun _ => 0).map .sys ++
    [.start 0, .test 0, .enter 0, .enter 0, .enter 0, .prepare 0 false, .check 0, .check 0,
      .check 0]

/-- The task is run, which wakes the reader, and the context is released. -/
def taskDone : List ReadLabel := (startEmpty ++ finishTask).map .sys

def releaseOpened : List ReadLabel :=
  [.sys (.releaseMark 0), .sys (.releaseWait 0), .sys (.releaseBuffer 0), .sys (.releaseFree 0)]

end Dicedev
