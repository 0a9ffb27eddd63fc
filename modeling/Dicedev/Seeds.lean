import Dicedev.Buffers
import Dicedev.Sessions

/-!
# The seeds

The seed of a buffer reaches the device in one place only, the `BIND_SLOT` of the buffer. The
ioctl stores the new seed and sets `seed_chg`, which nobody reads, so a buffer that keeps its
slot keeps its seed on the device: `seed_not_delivered` is a run in which a second write
starts with the seed of the first.

`SeedsDelivered` are the ioctls that the next binding makes good: on a buffer without a slot,
or with a RUN that gives the slot back before another task of the buffer starts. In runs with
only such ioctls the device has the right seed at every start, `seed_carried`.
-/

namespace Dicedev

open State

/-- The seed that a command brings to slot `i`. -/
def Fed.seedFor? (i : Slot) (f : Fed) : Option (BitVec 20) :=
  if f.type = userCmdTypeBindSlot ∧ slotField 4 f.header = i then some (Bits.field 12 20 f.header)
  else none

/-- The seed of the last `BIND_SLOT` fed for slot `i`. -/
def State.carriedSeed (s : State) (i : Slot) : Option (BitVec 20) :=
  (s.stream.filterMap (Fed.seedFor? i)).getLast?

/-- The seed that a step sets for buffer `b`. -/
def Label.seedOf? (b : BufId) : Label → Option (BitVec 64)
  | .seed b' x => if b' = b then some (x.setWidth 64) else none
  | _ => none

/-- The last seed set for buffer `b` in a run. -/
def lastSeed (b : BufId) (ls : List Label) : BitVec 64 :=
  (ls.filterMap (Label.seedOf? b)).getLast?.getD defaultSeed

variable {s s' : State} {l : Label}

/-! ## The last seed -/

/-- The seeds that the driver keeps. -/
def State.seeds (s : State) : BufId → BitVec 64 := Buffer.seed ∘ s.bufs

/-- The seed of a buffer, also of one that is still to be made. -/
def State.seedOf (s : State) (b : BufId) : BitVec 64 :=
  if b < s.nBuf then s.seeds b else defaultSeed

theorem BufStep.seed_eq {b : BufId} {x : Buffer} (h : BufStep s b l x)
    (hl : l.seedOf? b = none) : x.seed = (s.bufs b).seed := by
  cases h with
  | seed w => simp [Label.seedOf?] at hl
  | _ => rfl

/-- The seed ioctl needs an open descriptor. -/
theorem seed_lt (hr : Reachable s) {b : BufId} {seed : Word}
    (h : system.step s (.seed b seed) = some s') : b < s.nBuf := by
  refine (scope_reachable hr).fd_lt ?_
  by_contra hfd
  have hnone : system.step s (.seed b seed) = none := by
    change (if s.bug = none then s.dicedevBufferIoctl b seed else none) = none
    rw [dicedevBufferIoctl, if_neg hfd, ite_self]
  rw [hnone] at h
  cases h

theorem eq_seed {b : BufId} {x : BitVec 64} (h : l.seedOf? b = some x) :
    ∃ w : Word, l = .seed b w ∧ x = w.setWidth 64 := by
  cases l with
  | seed d w =>
    by_cases hd : d = b
    · subst hd
      refine ⟨w, rfl, ?_⟩
      simpa [Label.seedOf?] using h.symm
    · simp [Label.seedOf?, hd] at h
  | _ => cases h

/-- Only the ioctl changes a seed. -/
theorem seedOf_step (hr : Reachable s) (h : system.step s l = some s') (b : BufId) :
    s'.seedOf b = (l.seedOf? b).getD (s.seedOf b) := by
  have hs := Step.of_step h
  cases hl : l.seedOf? b with
  | none =>
    change s'.seedOf b = s.seedOf b
    unfold State.seedOf
    by_cases hb : b < s.nBuf
    · rw [if_pos hb, if_pos (Nat.lt_of_lt_of_le hb (nBuf_le_step hs))]
      exact (BufStep.of_step hs hb).seed_eq hl
    · rw [if_neg hb]
      rcases nBuf_step hs with hn | ⟨c, size, allowed, dma, -, hn, hbuf⟩
      · rw [hn, if_neg hb]
      · by_cases hnew : b = s.nBuf
        · rw [hnew, State.seeds, Function.comp_apply, hbuf]
          exact ite_self _
        · refine if_neg fun hlt => hb ?_
          rw [hn] at hlt
          exact Nat.lt_of_le_of_ne (Nat.le_of_lt_succ hlt) hnew
  | some x =>
    obtain ⟨w, rfl, rfl⟩ := eq_seed hl
    have hlt := seed_lt hr h
    cases hs with
    | seed => simp [State.seedOf, State.seeds, hlt]
    | halt _ _ hbug => rcases hbug with hbug | hbug <;> cases hbug

theorem seedOf_exec (hr : Reachable s) {ls : List Label} (h : system.exec s ls = some s')
    (b : BufId) :
    s'.seedOf b = (ls.filterMap (Label.seedOf? b)).getLast?.getD (s.seedOf b) := by
  induction ls generalizing s with
  | nil =>
    cases h
    rfl
  | cons l ls ih =>
    obtain ⟨t, ht, hrest⟩ := Machine.exec_cons_some.mp h
    rw [ih (hr.step ht) hrest, seedOf_step hr ht b]
    cases hl : l.seedOf? b with
    | none => simp [hl]
    | some x => simp [hl, List.getLast?_cons]

/-- The driver keeps the last seed set for every buffer. -/
theorem seed_eq_lastSeed {ls : List Label} (h : system.exec probed ls = some s) {b : BufId}
    (hb : b < s.nBuf) : (s.bufs b).seed = lastSeed b ls := by
  have hseed := seedOf_exec Machine.Reachable.init h b
  unfold State.seedOf at hseed
  rw [if_pos hb] at hseed
  exact hseed

/-! ## The seed on the device -/

theorem seedFor_bind (i j : Slot) (buf : Buffer) (b : BufId) :
    Fed.seedFor? j ⟨bindCmd i buf, .bind b⟩ =
      if i = j then some (buf.seed.setWidth 20) else none := by
  have htype : Fed.type ⟨bindCmd i buf, .bind b⟩ = userCmdTypeBindSlot := type_bind i buf.seed
  have hslot : slotField 4 (Fed.header ⟨bindCmd i buf, .bind b⟩) = i := slotField_bind i buf.seed
  have hseed : Bits.field 12 20 (Fed.header ⟨bindCmd i buf, .bind b⟩) = buf.seed.setWidth 20 :=
    seedField_bind i buf.seed
  unfold Fed.seedFor?
  simp only [htype, hslot, hseed, true_and]

theorem seedFor_of_type {f : Fed} (h : f.type ≠ userCmdTypeBindSlot) (i : Slot) :
    f.seedFor? i = none :=
  if_neg fun hf => h hf.1

/-- The seed of the last `BIND_SLOT` for slot `i` in a trace. -/
def carriedBy (i : Slot) (trace : List Event) : Option (BitVec 20) :=
  ((trace.filterMap Event.fed?).filterMap (Fed.seedFor? i)).getLast?

theorem carriedBy_note {trace : List Event} {e : Event} (he : e.fed? = none) (i : Slot) :
    carriedBy i (trace ++ [e]) = carriedBy i trace := by
  unfold carriedBy
  rw [filterMap_log_none he]

theorem carriedBy_feed {trace : List Event} {f : Fed} {i : Slot} (hf : f.seedFor? i = none) :
    carriedBy i (trace ++ [.feed f]) = carriedBy i trace := by
  unfold carriedBy
  rw [filterMap_log_some (f := Event.fed?) rfl, List.filterMap_append]
  simp [hf]

theorem carriedBy_bind {trace : List Event} {f : Fed} {i : Slot} {x : BitVec 20}
    (hf : f.seedFor? i = some x) : carriedBy i (trace ++ [.feed f]) = some x := by
  unfold carriedBy
  rw [filterMap_log_some (f := Event.fed?) rfl, List.filterMap_append]
  simp [hf]

theorem carriedBy_unbound (s : State) (b : BufId) (i : Slot) :
    carriedBy i (s.unbound b).trace = carriedBy i s.trace := by
  rcases trace_unbound s b with ht | ⟨j, -, ht⟩
  · rw [ht]
  · rw [ht]
    refine carriedBy_feed (seedFor_of_type ?_ i)
    rw [show Fed.type ⟨unbindCmd j, .unbind b⟩ = userCmdTypeUnbindSlot from type_unbind j]
    decide

/-- Only a binding to slot `i` changes the seed that slot `i` has on the device. -/
theorem carried_keep (hs : Step s l s') {i : Slot}
    (hne : ∀ t j, s.Binds t j → s' = s.afterBind t j → j ≠ i) :
    s'.carriedSeed i = s.carriedSeed i := by
  cases hs with
  | openCtx | createSetRefused | createSet | runRefused | run | runCount | wait | waitLeave
  | releaseMark | releaseWait | releaseFree | writeRefused | write | writeFail | readNone
  | read | seed | dup | close | store | isrOff | isr | isrFence | slotError | suspend | resume
  | remove | head | polled | sleep | again | park | drop | getNext | taskFinish | runDone
  | runSkip | destroyKeep | finishing | shutdown | halt => rfl
  | runQueue | writeQueue | waitReturn | fenceInterrupt | errorInterrupt | taskRun | runReject =>
    exact carriedBy_note rfl i
  | account t caller =>
    refine carriedBy_note ?_ i
    cases caller <;> rfl
  | releaseBuffer c d => exact (carriedBy_note rfl i).trans (carriedBy_unbound s d i)
  | bufferRelease d | destroyUnbind t c d => exact carriedBy_unbound s d i
  | runFeed t left task words user left' hpc hrun hpass =>
    refine carriedBy_feed (seedFor_of_type ?_ i)
    rcases (passOf_shaped hpass).feeds with htype | htype <;> rw [htype] <;> decide
  | fence t =>
    refine carriedBy_feed (seedFor_of_type ?_ i)
    rw [show Fed.type ⟨[userCmdFenceHeader taskFenceVal], .fence t⟩ = _ from
      (Fed.Shaped.fence t).feeds]
    decide
  | bindSlot t d j hpc hnext hout hslot hempty =>
    subst hout
    refine carriedBy_feed ?_
    rw [seedFor_bind, if_neg (hne t j ⟨hpc, hnext, hempty⟩ rfl)]

theorem carried_afterBind (s : State) (t : TaskId) (i : Slot) :
    (s.afterBind t i).carriedSeed i = some (((s.afterBind t i).seeds (s.out t)).setWidth 20) := by
  have hseed : (s.afterBind t i).seeds (s.out t) = (s.bufs (s.out t)).seed := by
    simp [State.afterBind, State.seeds]
  rw [hseed]
  refine carriedBy_bind ?_
  rw [seedFor_bind, if_pos rfl]

/-- A buffer with a slot has had it before, with the same seed on the device, or it has just
been bound with the driver's seed. -/
theorem carried_step (hr : Reachable s) (hs : Step s l s') {b : BufId} {i : Slot}
    (hplace : s'.place b = some i) :
    (s.place b = some i ∧ s'.carriedSeed i = s.carriedSeed i) ∨
      s'.carriedSeed i = some ((s'.seeds b).setWidth 20) := by
  -- an empty slot is not that of a bound buffer
  have hkeep : s.place b = some i → s'.carriedSeed i = s.carriedSeed i := by
    intro hb
    refine carried_keep hs ?_
    rintro t j hbinds - rfl
    have hempty := hbinds.empty
    rw [((slots_reachable hr).1.agrees.mutual_iff j b).mpr hb] at hempty
    cases hempty
  rcases place_shape hr hs with hsame | ⟨d, -, hunbound⟩ | ⟨t, j, -, rfl⟩
  · rw [hsame] at hplace
    exact Or.inl ⟨hplace, hkeep hplace⟩
  · rw [hunbound] at hplace
    by_cases hbd : b = d
    · subst hbd
      rw [Function.update_self] at hplace
      cases hplace
    · rw [Function.update_of_ne hbd] at hplace
      exact Or.inl ⟨hplace, hkeep hplace⟩
  · rw [place_afterBind] at hplace
    by_cases hb : b = s.out t
    · subst hb
      rw [Function.update_self] at hplace
      cases hplace
      exact Or.inr (carried_afterBind s t i)
    · rw [Function.update_of_ne hb] at hplace
      exact Or.inl ⟨hplace, hkeep hplace⟩

/-- If the buffer has a slot, the device has its seed. -/
def Delivered (b : BufId) (s : State) : Prop :=
  ∀ i, s.place b = some i → s.carriedSeed i = some ((s.seeds b).setWidth 20)

/-- Without an ioctl the device keeps the right seed. -/
theorem Delivered.step (hr : Reachable s) {b : BufId} (h : Delivered b s)
    (hstep : system.step s l = some s') (hl : l.seedOf? b = none) : Delivered b s' := by
  intro i hi
  have hs := Step.of_step hstep
  rcases carried_step hr hs hi with ⟨hold, hcarried⟩ | hnew
  · -- a bound buffer has been made
    have hlt : b < s.nBuf := by
      refine (scope_reachable hr).bound_lt fun hnone => ?_
      rw [show s.place b = none from hnone] at hold
      cases hold
    have hlt' : b < s'.nBuf := by
      refine (scope_reachable (hr.step hstep)).bound_lt fun hnone => ?_
      rw [show s'.place b = none from hnone] at hi
      cases hi
    have hseed := seedOf_step hr hstep b
    rw [hl, Option.getD_none, State.seedOf, State.seedOf, if_pos hlt, if_pos hlt'] at hseed
    rw [hcarried, hseed]
    exact h i hold
  · exact hnew

/-! ## Which changes are delivered -/

/-- The oldest task that is not destroyed. -/
def State.oldest? (s : State) : Option TaskId :=
  (List.range s.nTask).find? fun t => decide (t ∉ s.gone)

/-- The task `t` is a RUN for buffer `b`, and it is on the device, or the device is idle. -/
def State.GivesBack (s : State) (b : BufId) (t : TaskId) : Prop :=
  (s.tasks t).isRun = true ∧ (s.tasks t).buffOut = b ∧ (t ∈ s.started ∨ s.fenceState = .none)

instance (s : State) (b : BufId) : DecidablePred (s.GivesBack b) := by
  unfold State.GivesBack
  infer_instance

/-- A new seed is set for a buffer without a slot, or when the oldest task is a RUN for the
buffer and has no other task in front of it. -/
def SeedsDelivered (s : State) : Label → Prop
  | .seed b x => x.setWidth 64 = (s.bufs b).seed ∨ (s.bufs b).bindedSlot = none ∨
      ∃ t ∈ s.oldest?, s.GivesBack b t
  | _ => True

instance (s : State) (l : Label) : Decidable (SeedsDelivered s l) := by
  apply @Label.casesOn (fun l => Decidable (SeedsDelivered s l)) l <;> intros <;>
    unfold SeedsDelivered <;> infer_instance

theorem oldest_iff {t : TaskId} :
    t ∈ s.oldest? ↔ t < s.nTask ∧ t ∉ s.gone ∧ ∀ u < t, u ∈ s.gone := by
  unfold State.oldest?
  rw [Option.mem_def, List.find?_range_eq_some]
  simp only [decide_eq_true_eq, List.mem_range, Bool.not_eq_true', decide_eq_false_iff_not,
    not_not]
  exact and_left_comm

/-- An idle device stays idle until the prefetched task starts. -/
theorem idle_step (hr : Reachable s) (hs : Step s l s') (hidle : s.fenceState = .none) :
    s'.fenceState = .none ∨
      ∃ u, s.nextTask = some u ∧ s'.pipeline.running = some u ∧ u ∈ s'.started := by
  cases hs with
  | isrFence t hen hfence hrun =>
    rw [(ctl_reachable hr).1.mpr hidle] at hrun
    cases hrun
  | taskRun u hpc hnext =>
    refine Or.inr ⟨u, hnext, rfl, ?_⟩
    change u ∈ (s.trace ++ [Event.started u]).filterMap Event.started?
    rw [filterMap_log_some (x := u) rfl]
    exact List.mem_append_right _ (List.mem_singleton_self u)
  | finishing => exact Or.inl rfl
  | _ => exact Or.inl hidle

/-- A RUN in front of all other tasks stays there until it gives the slot back. -/
theorem givesBack_step (hr : Reachable s) (hr' : Reachable s') (hs : Step s l s') {b : BufId}
    {t : TaskId} (ht : t ∈ s.oldest?) (h : s.GivesBack b t) :
    s'.place b = none ∨ (t ∈ s'.oldest? ∧ s'.GivesBack b t) := by
  obtain ⟨hlt, hgone, holder⟩ := oldest_iff.mp ht
  obtain ⟨hrun, hout, hfront⟩ := h
  by_cases hgone' : t ∈ s'.gone
  · -- the RUN is destroyed in this step, and its buffer has lost the slot before
    obtain ⟨c, hpc⟩ := gone_step hs hgone' hgone
    have hnone : s.place b = none := by
      rw [← hout]
      refine runUnbound_reachable hr t c hpc fun hcb => ?_
      rw [Task.isRun_eq, show (s.tasks t).sig.cBuff = none from hcb] at hrun
      cases hrun
    refine Or.inl ?_
    rcases place_step hr hs with hkeep | ⟨u, hbind, -⟩
    · exact hkeep b hnone
    · rw [hbind] at hpc
      cases hpc
  · refine Or.inr ⟨oldest_iff.mpr ⟨Nat.lt_of_lt_of_le hlt (nTask_le_step hs), hgone', ?_⟩,
      ?_, ?_, ?_⟩
    · exact fun u hu => mem_filterMap_step hs (holder u hu)
    · rw [Task.isRun_eq] at hrun ⊢
      exact (congrArg Option.isSome (cBuff_step hs hlt)).trans hrun
    · exact (out_step hs hlt).trans hout
    · rcases hfront with hstarted | hidle
      · exact Or.inl (mem_filterMap_step hs hstarted)
      · rcases idle_step hr hs hidle with hidle' | ⟨u, hnext, hrunning, hstarted⟩
        · exact Or.inr hidle'
        · -- the task that starts is the oldest one
          have hle := (pipeline_reachable hr').running_le hrunning hgone'
          have hu := not_gone_of_held hr (next_held hr hnext)
          have heq : u = t := by
            refine Nat.le_antisymm hle (Nat.le_of_not_lt fun hut => hu (holder u hut))
          exact Or.inl (heq ▸ hstarted)

/-- The device has the right seed, or a RUN will give the slot back. -/
def SeedInv (s : State) : Prop := ∀ b, Delivered b s ∨ ∃ t ∈ s.oldest?, s.GivesBack b t

theorem delivered_of_none {b : BufId} (h : s.place b = none) : Delivered b s := by
  intro i hi
  rw [h] at hi
  cases hi

theorem SeedInv.step (hr : Reachable s) (h : SeedInv s) (hC : SeedsDelivered s l)
    (hstep : system.step s l = some s') : SeedInv s' := by
  intro b
  have hs := Step.of_step hstep
  have hback : (∃ t ∈ s.oldest?, s.GivesBack b t) →
      Delivered b s' ∨ ∃ t ∈ s'.oldest?, s'.GivesBack b t := by
    rintro ⟨t, ht, hgives⟩
    rcases givesBack_step hr (hr.step hstep) hs ht hgives with hnone | ⟨ht', hgives'⟩
    · exact Or.inl (delivered_of_none hnone)
    · exact Or.inr ⟨t, ht', hgives'⟩
  rcases h b with hd | hgives
  · cases hl : l.seedOf? b with
    | none => exact Or.inl (hd.step hr hstep hl)
    | some x =>
      cases l with
      | seed d w =>
        simp only [Label.seedOf?, Option.ite_none_right_eq_some, Option.some.injEq] at hl
        obtain ⟨rfl, rfl⟩ := hl
        cases hs with
        | seed =>
          have hplace : ∀ {v : State}, v.bufs = Function.update s.bufs d
              { s.bufs d with seedChg := true, seed := w.setWidth 64 } → v.place d = s.place d := by
            intro v hv
            simp [State.place, hv]
          rcases hC with hsame | hnone | hgives
          · refine Or.inl fun i hi => ?_
            rw [hplace rfl] at hi
            refine (hd i hi).trans ?_
            simp [State.seeds, hsame]
          · exact Or.inl (delivered_of_none ((hplace rfl).trans hnone))
          · exact hback hgives
        | halt _ _ hl => rcases hl with hl | hl <;> cases hl
      | _ => cases hl
  · exact hback hgives

theorem seedInv_reachable (h : system.ReachableBy SeedsDelivered s) : SeedInv s := by
  refine Machine.ReachableBy.invariant_of (fun _ hr => hr) ?_ ?_ h
  · exact fun b => Or.inl (delivered_of_none rfl)
  · exact fun s l s' hr hI hC hs => hI.step hr hC hs

/-- When a task is over, no RUN is on the device or has an idle device before it. -/
theorem delivered_of_finishing (h : system.ReachableBy SeedsDelivered s)
    (hpc : s.pc = .finishing) (b : BufId) : Delivered b s := by
  rcases seedInv_reachable h b with hd | ⟨t, ht, hgives⟩
  · exact hd
  · obtain ⟨-, -, hfront⟩ := hgives
    have hr := h.reachable
    have hagrees := (ctl_reachable hr).agrees hpc
    rcases hfront with hstarted | hidle
    · have hrun := (pipeline_reachable hr).running_of_started hstarted (oldest_iff.mp ht).2.1
      have hnone : s.pipeline.running = none := by
        change s.pc.deviceTask s.runningTask = none
        rw [hpc]
        rfl
      rw [hnone] at hrun
      cases hrun
    · rw [hagrees.2] at hidle
      cases hidle

/-! ## Starts -/

/-- No seed has been set for buffer `b` since the end of the last task on the device, or since
the beginning if there was none. -/
def SeedQuiet (b : BufId) (ls : List Label) : Prop :=
  ∃ as bs, ls = as ++ bs ∧ (∀ x, Label.seed b x ∉ bs) ∧
    (as = [] ∨ ∃ v, system.exec probed as = some v ∧ v.pc = .finishing)

theorem seedOf_none {b : BufId} {ls : List Label} (h : ∀ x, Label.seed b x ∉ ls)
    (hl : l ∈ ls) : l.seedOf? b = none := by
  cases l with
  | seed d x =>
    refine if_neg ?_
    rintro rfl
    exact h x hl
  | _ => rfl

theorem delivered_of_quiet {ls : List Label}
    (h : (system.guarded SeedsDelivered).exec probed ls = some s) {b : BufId}
    (hquiet : SeedQuiet b ls) : Delivered b s := by
  obtain ⟨as, bs, rfl, hnone, hend⟩ := hquiet
  rw [Machine.exec_append] at h
  obtain ⟨v, hv, hrest⟩ := Option.bind_eq_some_iff.mp h
  have hby : system.ReachableBy SeedsDelivered v := .of_guarded .init hv
  have hd : Delivered b v := by
    rcases hend with rfl | ⟨w, hw, hpc⟩
    · cases hv
      exact delivered_of_none rfl
    · rw [Machine.exec_of_guarded hv] at hw
      cases hw
      exact delivered_of_finishing hby hpc b
  have hI : Reachable s ∧ Delivered b s := by
    refine Machine.exec_invariant_mem (m := system) (I := fun s => Reachable s ∧ Delivered b s) ?_
      ⟨hby.reachable, hd⟩ (Machine.exec_of_guarded hrest)
    rintro u l u' hl ⟨hr, hu⟩ hs
    exact ⟨hr.step hs, hu.step hr hs (seedOf_none hnone hl)⟩
  exact hI.2

theorem lastSeed_lt {b : BufId} {ls : List Label}
    (h : ∀ x, Label.seed b x ∈ ls → x.toNat < 2 ^ 20) : (lastSeed b ls).toNat < 2 ^ 20 := by
  unfold lastSeed
  cases hlast : (ls.filterMap (Label.seedOf? b)).getLast? with
  | none => decide
  | some y =>
    obtain ⟨l, hl, hy⟩ := List.mem_filterMap.mp (List.mem_of_getLast? hlast)
    cases l with
    | seed d x =>
      simp only [Label.seedOf?, Option.ite_none_right_eq_some, Option.some.injEq] at hy
      obtain ⟨rfl, rfl⟩ := hy
      have hx := h x hl
      rw [Option.getD_some, BitVec.toNat_setWidth]
      exact Nat.lt_of_le_of_lt (Nat.mod_le _ _) hx
    | _ => cases hy

/-- In a run whose seed ioctls are all delivered, the task that starts finds the last seed of
its buffer on the device, unless the seed was set after the end of the last task. -/
theorem seed_carried {ls : List Label} {t : TaskId}
    (hrun : (system.guarded SeedsDelivered).exec probed ls = some s)
    (hfit : ∀ b x, Label.seed b x ∈ ls → x.toNat < 2 ^ 20) (hstart : s.Starts t)
    (hquiet : SeedQuiet (s.tasks t).buffOut ls) :
    ∃ i x, (s.bufs (s.tasks t).buffOut).bindedSlot = some i ∧ s.carriedSeed i = some x ∧
      x.toNat = (lastSeed (s.tasks t).buffOut ls).toNat := by
  have hexec := Machine.exec_of_guarded hrun
  have hr : Reachable s := Machine.Reachable.exec .init hexec
  obtain ⟨i, hi⟩ := Option.ne_none_iff_exists'.mp hstart.bound
  refine ⟨i, _, hi, delivered_of_quiet hrun hquiet i hi, ?_⟩
  have hlt := (scope_reachable hr).bound_lt hstart.bound
  have hseed : s.seeds (s.tasks t).buffOut = lastSeed (s.tasks t).buffOut ls :=
    seed_eq_lastSeed hexec hlt
  rw [hseed, BitVec.toNat_setWidth]
  exact Nat.mod_eq_of_lt (lastSeed_lt (hfit _))

/-- A write to buffer 0 is on the device when a seed is set for buffer `b`; then it ends. -/
def seedDuring (b : BufId) : List Label :=
  openOne ++ [.createSet 0 4096 0x20 0x2000] ++ writeCall 0 0 0 (fun _ => 0) ++ startEmpty ++
    [.seed b 7, .fenceInterrupt, .isr] ++ workerSteps 4

/-- The next write, to buffer `b`, up to the event that starts it. -/
def nextStart (b : BufId) (n : Nat) : List Label :=
  .worker :: writeCall b 1 0 (fun _ => 0) ++ workerSteps n

theorem seedQuiet_seedDuring (b : BufId) (n : Nat)
    (h : seenAfter (seedDuring b) (fun s => s.pc) = some .finishing) :
    SeedQuiet b (seedDuring b ++ nextStart b n) := by
  obtain ⟨v, hv, -, hpc⟩ := exists_seenAfter h
  refine ⟨_, _, rfl, ?_, Or.inr ⟨v, hv, hpc⟩⟩
  intro x hx
  simp [nextStart, writeCall, workerSteps] at hx

theorem fit_seedDuring (b : BufId) (n : Nat) :
    ∀ d x, Label.seed d x ∈ seedDuring b ++ nextStart b n → x.toNat < 2 ^ 20 := by
  intro d x hx
  simp [seedDuring, nextStart, openOne, writeCall, startEmpty, workerSteps] at hx
  rw [hx.2]
  decide

/-- The seed set for a buffer without a slot is there when its first task starts. -/
theorem seed_carried_firstTask :
    ∃ s, (system.guarded SeedsDelivered).exec probed (seedDuring 1 ++ nextStart 1 8) = some s ∧
      s.Starts 1 ∧ ∃ i x, (s.bufs 1).bindedSlot = some i ∧ s.carriedSeed i = some x ∧
        x.toNat = 7 := by
  have hseen : ((system.guarded SeedsDelivered).exec probed (seedDuring 1 ++ nextStart 1 8)).map
      (fun s => (s.pc, s.nextTask, (s.tasks 1).buffOut, (s.bufs 1).bindedSlot)) =
        some (.event .taskRun, some 1, 1, some 1) := by decide +kernel
  obtain ⟨s, hs, hf⟩ := Option.map_eq_some_iff.mp hseen
  simp only [Prod.mk.injEq] at hf
  obtain ⟨hpc, hnext, hout, hslot⟩ := hf
  have hstart : s.Starts 1 := ⟨hpc, hnext, by rw [hout, hslot]; simp⟩
  have hquiet : SeedQuiet (s.tasks 1).buffOut (seedDuring 1 ++ nextStart 1 8) := by
    rw [hout]
    exact seedQuiet_seedDuring 1 8 (by decide +kernel)
  have hcarried := seed_carried hs (fit_seedDuring 1 8) hstart hquiet
  rw [hout, show (lastSeed 1 (seedDuring 1 ++ nextStart 1 8)).toNat = 7 from by decide] at hcarried
  exact ⟨s, hs, hstart, hcarried⟩

/-- The buffer of a write keeps its slot, and the next write starts with the old seed. -/
theorem seed_not_delivered :
    ∃ s, system.exec probed (seedDuring 0 ++ nextStart 0 5) = some s ∧ s.Starts 1 ∧
      (s.tasks 1).buffOut = 0 ∧ SeedQuiet 0 (seedDuring 0 ++ nextStart 0 5) ∧
      (∀ b x, Label.seed b x ∈ seedDuring 0 ++ nextStart 0 5 → x.toNat < 2 ^ 20) ∧
      (s.bufs 0).bindedSlot = some 0 ∧ s.carriedSeed 0 = some 42 ∧
      (lastSeed 0 (seedDuring 0 ++ nextStart 0 5)).toNat = 7 := by
  have hseen : seenAfter (seedDuring 0 ++ nextStart 0 5) (fun s =>
      ((s.pc, s.nextTask), (s.tasks 1).buffOut, (s.bufs 0).bindedSlot, s.carriedSeed 0)) =
        some ((.event .taskRun, some 1), 0, some 0, some 42) := by decide +kernel
  obtain ⟨s, hs, -, hf⟩ := exists_seenAfter hseen
  simp only [Prod.mk.injEq] at hf
  obtain ⟨⟨hpc, hnext⟩, hout, hslot, hcarried⟩ := hf
  refine ⟨s, hs, ⟨hpc, hnext, by rw [hout, hslot]; simp⟩, hout,
    seedQuiet_seedDuring 0 5 (by decide +kernel), fit_seedDuring 0 5, hslot, hcarried, by decide⟩

end Dicedev
