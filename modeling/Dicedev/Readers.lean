import Dicedev.Buffers
import Dicedev.Failed
import Dicedev.Sessions

/-!
# The results of writes

A buffer keeps its slot and its reader after a write, so that the results can be read while
further writes add to them. `__task_destroy` unbinds the buffer of a RUN, whatever ran on it
before, and `WT_EVENT_TASK_BIND_SLOT` resets the reader: a RUN into a buffer with results of
writes throws them away, `session_lost_by_run`.

If no RUN is queued for a buffer after a write (`WritesStay`), the slot and the reader stay
until the buffer is destroyed or its context fails, `write_session_kept`.
-/

namespace Dicedev

open State

/-- The reader only moves forward. -/
structure Reader.Le (x y : Reader) : Prop where
  results : x.resultCount ≤ y.resultCount
  offset : x.offset ≤ y.offset

theorem Reader.Le.refl (x : Reader) : x.Le x := ⟨Nat.le_refl _, Nat.le_refl _⟩

theorem Reader.Le.trans {x y z : Reader} (hxy : x.Le y) (hyz : y.Le z) : x.Le z :=
  ⟨Nat.le_trans hxy.results hyz.results, Nat.le_trans hxy.offset hyz.offset⟩

/-- A buffer keeps its owner, stays destroyed, and its reader moves forward. -/
structure Buffer.Grows (x y : Buffer) : Prop where
  ctx : y.ctx = x.ctx
  destroyed : x.destroyed = true → y.destroyed = true
  reader : x.reader.Le y.reader

theorem Buffer.Grows.refl (x : Buffer) : x.Grows x := ⟨rfl, id, .refl _⟩

variable {s s' : State} {l : Label}

/-! ## What a step does to a buffer -/

/-- All but a binding let a buffer grow. -/
theorem BufStep.grows {b : BufId} {x : Buffer} (h : BufStep s b l x)
    (hbind : l = .worker → s.pc ≠ .event .taskBindSlot) : (s.bufs b).Grows x := by
  cases h with
  | bind t i hpc => exact absurd hpc (hbind rfl)
  | mark => exact ⟨rfl, fun _ => rfl, .refl _⟩
  | read => exact ⟨rfl, id, Nat.le_refl _, Nat.le_succ _⟩
  | account => exact ⟨rfl, id, Nat.le_add_right _ _, Nat.le_refl _⟩
  | _ => exact ⟨rfl, id, .refl _⟩

/-- The reader of a buffer is reset only when the buffer is bound. -/
theorem grows_step (hs : Step s l s') {b : BufId} (hb : b < s.nBuf) :
    (s.bufs b).Grows (s'.bufs b) ∨ ∃ t i, s.Binds t i ∧ s' = s.afterBind t i := by
  have hbs := BufStep.of_step hs hb
  cases hs with
  | head | polled | sleep | again | park | drop | getNext | taskRun | taskFinish | runDone
  | runSkip | runFeed | runReject | fence | destroyKeep | finishing | shutdown | halt =>
    exact Or.inl (.refl _)
  | destroyUnbind t c d hpc => exact Or.inl (hbs.grows (by simp [hpc]))
  | account t caller c d hpc => exact Or.inl (hbs.grows (by simp [hpc]))
  | bindSlot t d i hpc hnext hout hslot hempty =>
    subst hout
    exact Or.inr ⟨t, i, ⟨hpc, hnext, hempty⟩, rfl⟩
  | _ => exact Or.inl (hbs.grows (by simp))

/-- A buffer keeps its owner and stays destroyed. -/
theorem owner_step (hs : Step s l s') {b : BufId} (hb : b < s.nBuf) :
    (s'.bufs b).ctx = (s.bufs b).ctx ∧
      ((s.bufs b).destroyed = true → (s'.bufs b).destroyed = true) := by
  rcases grows_step hs hb with h | ⟨t, i, -, rfl⟩
  · exact ⟨h.ctx, h.destroyed⟩
  · refine ⟨update_field Buffer.ctx ?_ b, fun hd => (update_field Buffer.destroyed ?_ b).trans hd⟩
    · rfl
    · rfl

/-- The buffer is destroyed, or its context has failed. -/
def State.Over (s : State) (b : BufId) : Prop :=
  (s.bufs b).destroyed = true ∨ s.fails (s.bufs b).ctx = true

theorem Over.step (hr : Reachable s) (hs : Step s l s') {b : BufId} (hb : b < s.nBuf)
    (h : s.Over b) : s'.Over b := by
  obtain ⟨hctx, hdestroyed⟩ := owner_step hs hb
  rcases h with h | h
  · exact Or.inl (hdestroyed h)
  · exact Or.inr (hctx ▸ failed_sticky hr hs h)

/-! ## The writes of a buffer -/

/-- A write task belongs to the context of its buffer. -/
def WritesOwned (s : State) : Prop :=
  ∀ t < s.nTask, (s.sig t).cBuff = none → (s.bufs (s.out t)).ctx = (s.sig t).ctx

theorem WritesOwned.step (hr : Reachable s) (h : WritesOwned s) (hs : Step s l s') :
    WritesOwned s' := by
  intro t ht hwrite
  by_cases hold : t < s.nTask
  · rw [cBuff_step hs hold] at hwrite
    rw [ctx_step hs hold, out_step hs hold, (owner_step hs (out_lt hr hold)).1]
    exact h t hold hwrite
  · have hnew : ∀ {k : CallId} {task : Task}, s' = s.queued k task →
        (s'.sig t) = task.sig ∧ s'.bufs = s.bufs := by
      rintro k task rfl
      have htn : t = s.nTask := Nat.le_antisymm (Nat.le_of_lt_succ ht) (Nat.le_of_not_lt hold)
      subst htn
      refine ⟨?_, rfl⟩
      simp only [State.sig, queued, Function.comp_apply, Function.update_self]
    cases hs with
    | runQueue k c cb db addr size =>
      rw [(hnew rfl).1] at hwrite
      cases hwrite
    | writeQueue k cmd b c count hcall =>
      obtain ⟨hsig, hbufs⟩ := hnew rfl
      have hout : State.out _ t = b := congrArg TaskSig.buffOut hsig
      rw [hsig, hout, hbufs]
      exact (Names.call_known (scope_reachable hr) k _ hcall).2
    | _ => exact absurd ht hold

theorem writesOwned_reachable (h : Reachable s) : WritesOwned s :=
  Machine.Reachable.invariant_of (fun _ hr => hr) (fun t ht => absurd ht (Nat.not_lt_zero t))
    (fun _ _ _ hr hI hs => WritesOwned.step hr hI (Step.of_step hs)) h

/-- No RUN is queued for a buffer for which a write has been queued, unless the buffer is
destroyed or its context has failed. -/
def WritesStay (s : State) : Label → Prop
  | .runQueue k => ∀ b ∈ (s.calls k).bind Call.target?,
      (s.bufs b).destroyed = true ∨ (s.ctxs (s.bufs b).ctx).failed = true ∨
        ∀ t < s.nTask, (s.tasks t).buffOut = b → (s.tasks t).isRun = true
  | _ => True

instance (s : State) (l : Label) : Decidable (WritesStay s l) := by
  apply @Label.casesOn (fun l => Decidable (WritesStay s l)) l <;> intros <;>
    unfold WritesStay <;> infer_instance

/-- The RUNs of a buffer come before its writes. -/
def RunsFirst (s : State) : Prop :=
  ∀ t u, t < u → u < s.nTask → s.out t = s.out u → (s.sig t).cBuff = none →
    (s.sig u).cBuff ≠ none → s.Over (s.out u)

theorem RunsFirst.step (hr : Reachable s) (h : RunsFirst s) (hC : WritesStay s l)
    (hs : Step s l s') : RunsFirst s' := by
  intro t u htu hu hout hwrite hrun
  by_cases hold : u < s.nTask
  · have ht : t < s.nTask := Nat.lt_trans htu hold
    rw [out_step hs ht, out_step hs hold] at hout
    rw [cBuff_step hs ht] at hwrite
    rw [cBuff_step hs hold] at hrun
    rw [out_step hs hold]
    exact Over.step hr hs (out_lt hr hold) (h t u htu hold hout hwrite hrun)
  · have hun : ∀ {n : Nat}, s'.nTask = n + 1 → n = s.nTask → u = s.nTask := by
      rintro n hn rfl
      rw [hn] at hu
      exact Nat.le_antisymm (Nat.le_of_lt_succ hu) (Nat.le_of_not_lt hold)
    have ht : ∀ {n : Nat}, u = n → t < n := fun h => h ▸ htu
    cases hs with
    | runQueue k c cb db addr size hcall =>
      have hus := hun rfl rfl
      have hts := ht hus
      subst hus
      have hnew : (s.queued k ⟨c, 0, db, .run ⟨cb, addr, size, 0, 0, 0, 0⟩, false⟩).out s.nTask =
          db := by
        simp only [State.out, State.sig, queued, Function.comp_apply, Function.update_self]
        rfl
      rw [hnew] at hout ⊢
      have hsig := sig_queued s k ⟨c, 0, db, .run ⟨cb, addr, size, 0, 0, 0, 0⟩, false⟩ hts
      rcases hC db (by rw [hcall]; rfl) with hd | hf | hruns
      · exact Or.inl hd
      · exact Or.inr hf
      · have hisrun := hruns t hts ((congrArg TaskSig.buffOut hsig).symm.trans hout)
        have hcb : (s.tasks t).sig.cBuff = none := (congrArg TaskSig.cBuff hsig).symm.trans hwrite
        rw [Task.isRun_eq, hcb] at hisrun
        cases hisrun
    | writeQueue k cmd b c count =>
      have hus := hun rfl rfl
      subst hus
      refine absurd ?_ hrun
      simp only [State.sig, queued, Function.comp_apply, Function.update_self]
      rfl
    | _ => exact absurd hu hold

theorem runsFirst_reachable (h : system.ReachableBy WritesStay s) : RunsFirst s :=
  Machine.ReachableBy.invariant_of (fun _ hr => hr) (fun _ u _ hu => absurd hu (Nat.not_lt_zero u))
    (fun _ _ _ hr hI hC hs => RunsFirst.step hr hI hC (Step.of_step hs)) h

/-! ## Sessions -/

/-- A buffer that is listed by a closing context, or has lost its context, is destroyed. -/
theorem destroyed_of_unbinds (hr : Reachable s) {b : BufId} (hb : b < s.nBuf)
    (h : (∃ c rest, (s.ctxs c).phase = .closing ∧ (s.ctxs c).allocatedBuffers = b :: rest) ∨
      (s.bufs b).ctxRef = false) : (s.bufs b).destroyed = true := by
  have ho := ownership_reachable hr
  refine (Owned.destroyed_iff ho b hb).mpr fun hopen => ?_
  rcases h with ⟨c, rest, hclosing, hlist⟩ | href
  · rw [show (s.bsig b).ctx = c from owner_of_head hr hlist] at hopen
    rw [show (s.ctxs c).phase = .opened from hopen] at hclosing
    cases hclosing
  · rw [show (s.bufs b).ctxRef = true from Owned.listed_live ho b hb (Or.inl hopen)] at href
    cases href

/-- While a write has been run on a buffer, only the end of the buffer or of its context
takes the slot away. -/
theorem over_of_unbinds (h : system.ReachableBy WritesStay s) {t : TaskId}
    (hstarted : t ∈ s.started) (hwrite : (s.sig t).cBuff = none)
    (hunbinds : Unbinds s (s.out t) l) : s.Over (s.out t) := by
  have hr := h.reachable
  have ht := started_lt hr hstarted
  cases hunbinds with
  | destroy u c hpc hout hwhy =>
    have hheld := destroy_held hr (Or.inl hpc)
    have hu := held_lt hr hheld
    -- the tasks in front of a started one are gone
    have htu : t ≤ u := by
      refine Nat.le_of_not_lt fun hlt => not_gone_of_held hr hheld ?_
      exact (pipeline_reachable hr).gone_of_lt hstarted hlt
    by_cases hrun : (s.sig u).cBuff = none
    · have hctx := writesOwned_reachable hr u hu hrun
      rcases hwhy with hrun' | hfail
      · rw [Task.isRun_eq, show (s.tasks u).sig.cBuff = none from hrun] at hrun'
        cases hrun'
      · refine Or.inr ?_
        rw [← hout, hctx]
        exact hfail
    · rw [← hout]
      refine runsFirst_reachable h t u (Nat.lt_of_le_of_ne htu ?_) hu hout.symm hwrite hrun
      rintro rfl
      exact hrun hwrite
  | release c rest hclosing hlist =>
    exact Or.inl (destroyed_of_unbinds hr (out_lt hr ht) (Or.inl ⟨c, rest, hclosing, hlist⟩))
  | bufferRelease hfreed hfd hctx =>
    exact Or.inl (destroyed_of_unbinds hr (out_lt hr ht) (Or.inr hctx))

/-- The buffer is over, or it still has slot `i` and its reader has not gone back behind
`r`. -/
def Session (b : BufId) (i : Slot) (r : Reader) (s : State) : Prop :=
  s.Over b ∨ (s.place b = some i ∧ r.Le (s.bufs b).reader)

theorem Session.step (h : system.ReachableBy WritesStay s) {t : TaskId}
    (hstarted : t ∈ s.started) (hwrite : (s.sig t).cBuff = none) {i : Slot} {r : Reader}
    (hsession : Session (s.out t) i r s) (hs : Step s l s') : Session (s.out t) i r s' := by
  have hr := h.reachable
  have hb := out_lt hr (started_lt hr hstarted)
  have hover : s.Over (s.out t) → Session (s.out t) i r s' :=
    fun ho => Or.inl (Over.step hr hs hb ho)
  rcases hsession with ho | ⟨hplace, hreader⟩
  · exact hover ho
  -- a buffer with a slot is not bound
  have hnobind : ∀ {u j}, s.Binds u j → s.out t ≠ s.out u := by
    intro u j hbinds heq
    have hnone := ((slots_reachable hr).2 hbinds.pc_eq).2 u hbinds.next
    rw [heq, hnone] at hplace
    cases hplace
  have hreader' : r.Le (s'.bufs (s.out t)).reader := by
    rcases grows_step hs hb with hgrows | ⟨u, j, hbinds, rfl⟩
    · exact hreader.trans hgrows.reader
    · unfold State.afterBind
      simp only [Function.update_of_ne (hnobind hbinds)]
      exact hreader
  rcases place_shape hr hs with hsame | ⟨d, hunbinds, hnone⟩ | ⟨u, j, hbinds, rfl⟩
  · exact Or.inr ⟨(congrFun hsame _).trans hplace, hreader'⟩
  · by_cases hd : s.out t = d
    · subst hd
      exact hover (over_of_unbinds h hstarted hwrite hunbinds)
    · refine Or.inr ⟨?_, hreader'⟩
      rw [hnone, Function.update_of_ne hd]
      exact hplace
  · refine Or.inr ⟨?_, hreader'⟩
    rw [place_afterBind, Function.update_of_ne (hnobind hbinds)]
    exact hplace

/-- The buffer of a write that has been started is in a session. -/
def WritesBound (s : State) : Prop :=
  ∀ t ∈ s.started, (s.sig t).cBuff = none → ∃ i, Session (s.out t) i ⟨0, 0⟩ s

theorem WritesBound.step (h : system.ReachableBy WritesStay s) (hI : WritesBound s)
    (hs : Step s l s') : WritesBound s' := by
  intro t ht hwrite
  have hr := h.reachable
  by_cases hold : t ∈ s.started
  · have hlt := started_lt hr hold
    rw [cBuff_step hs hlt] at hwrite
    rw [out_step hs hlt]
    obtain ⟨i, hi⟩ := hI t hold hwrite
    exact ⟨i, hi.step h hold hwrite hs⟩
  · rcases started_step hs with heq | ⟨u, hstarts, heq, hbufs⟩
    · exact absurd (heq ▸ ht) hold
    · rw [heq, List.mem_append, List.mem_singleton] at ht
      obtain rfl := ht.resolve_left hold
      obtain ⟨i, hi⟩ := Option.ne_none_iff_exists'.mp hstarts.bound
      rw [out_step hs (next_lt hr hstarts.next)]
      refine ⟨i, Or.inr ⟨?_, Nat.zero_le _, Nat.zero_le _⟩⟩
      change (s'.bufs (s.out t)).bindedSlot = some i
      rw [hbufs]
      exact hi

theorem writesBound_reachable (h : system.ReachableBy WritesStay s) : WritesBound s := by
  induction h with
  | init => exact fun t ht => by cases ht
  | step hr _ hs ih => exact ih.step hr (Step.of_step hs)

/-- A session goes on along a run, and what is over stays over. -/
theorem session_run (h : system.ReachableBy WritesStay s) {t : TaskId}
    (hstarted : t ∈ s.started) (hwrite : (s.sig t).cBuff = none) {ls : List Label}
    (hrun : (system.guarded WritesStay).exec s ls = some s') :
    (s.Over (s.out t) → s'.Over (s.out t)) ∧
      ∀ i r, Session (s.out t) i r s → Session (s.out t) i r s' := by
  have hI : (system.ReachableBy WritesStay s' ∧ t ∈ s'.started ∧ (s'.sig t).cBuff = none ∧
      s'.out t = s.out t) ∧ (s.Over (s.out t) → s'.Over (s.out t)) ∧
      ∀ i r, Session (s.out t) i r s → Session (s.out t) i r s' := by
    refine Machine.exec_invariant (I := fun u => (system.ReachableBy WritesStay u ∧
      t ∈ u.started ∧ (u.sig t).cBuff = none ∧ u.out t = s.out t) ∧
      (s.Over (s.out t) → u.Over (s.out t)) ∧
      ∀ i r, Session (s.out t) i r s → Session (s.out t) i r u)
      ?_ ⟨⟨h, hstarted, hwrite, rfl⟩, id, fun _ _ => id⟩ hrun
    rintro u l v ⟨⟨hu, hst, hw, ho⟩, hover, hsession⟩ hstep
    obtain ⟨hC, hs⟩ := Machine.guarded_step hstep
    have hs' := Step.of_step hs
    have hlt := started_lt hu.reachable hst
    rw [← ho] at hover hsession ⊢
    refine ⟨⟨hu.step hC hs, mem_filterMap_step hs' hst, (cBuff_step hs' hlt).trans hw,
      out_step hs' hlt⟩, ?_, ?_⟩
    · exact fun h => Over.step hu.reachable hs' (out_lt hu.reachable hlt) (hover h)
    · exact fun i r h => (hsession i r h).step hu hst hw hs'
  exact hI.2

/-- If no RUN is queued for a buffer after a write, then from the start of a write on the
buffer keeps its slot, and its reader only moves forward, until the buffer is destroyed or its
context fails. -/
theorem write_session_kept (h : system.ReachableBy WritesStay s) {t : TaskId} {b : BufId}
    (hstarted : t ∈ s.started) (hwrite : (s.tasks t).isRun = false)
    (hout : (s.tasks t).buffOut = b) {ls : List Label}
    (hrun : (system.guarded WritesStay).exec s ls = some s')
    (halive : (s'.bufs b).destroyed = false)
    (hfail : (s'.ctxs (s'.bufs b).ctx).failed = false) :
    ∃ i, (s.bufs b).bindedSlot = some i ∧ (s'.bufs b).bindedSlot = some i ∧
      (s.bufs b).reader.resultCount ≤ (s'.bufs b).reader.resultCount ∧
      (s.bufs b).reader.offset ≤ (s'.bufs b).reader.offset := by
  have hcb : (s.sig t).cBuff = none := by
    rw [Task.isRun_eq, Option.isSome_eq_false_iff, Option.isNone_iff_eq_none] at hwrite
    exact hwrite
  subst hout
  have hnot : ¬ s'.Over (s.out t) := by
    rintro (hd | hf)
    · exact Bool.false_ne_true (halive.symm.trans hd)
    · exact Bool.false_ne_true (hfail.symm.trans hf)
  obtain ⟨hover, hkeep⟩ := session_run h hstarted hcb hrun
  obtain ⟨i, hi⟩ := writesBound_reachable h t hstarted hcb
  have hplace := (hi.resolve_left fun ho => hnot (hover ho)).1
  obtain ⟨hend, hle⟩ := (hkeep i _ (Or.inr ⟨hplace, .refl _⟩)).resolve_left hnot
  exact ⟨i, hplace, hend, hle.results, hle.offset⟩

/-- The words of a `GET_DIE` of two dice. -/
def twoDice : Nat → Word := fun i => if i = 0 then 0x22 else 0x20

/-- A write of two dice has been run on buffer 0. -/
def diceWritten : List Label :=
  openOne ++ writeCall 0 0 8 twoDice ++ workerSteps 12 ++ finishTask

/-- A second write of two dice is run on buffer 0. -/
def diceAgain : List Label := writeCall 0 1 8 twoDice ++ workerSteps 9 ++ finishTask

/-- An empty RUN is run on buffer 0. -/
def emptyRun : List Label :=
  [.run 0 0 0 0 0 false true, .runCount 1, .runQueue 1] ++ workerSteps 8 ++ finishTask

/-- The buffer of the next write is bound. -/
def boundAgain : List Label := writeCall 0 2 0 (fun _ => 0) ++ workerSteps 6

theorem write_session_kept_diceAgain :
    ∃ s s', system.ReachableBy WritesStay s ∧
      (system.guarded WritesStay).exec s diceAgain = some s' ∧
      (s'.bufs 0).reader = ⟨64, 0⟩ ∧ ∃ i, (s.bufs 0).bindedSlot = some i ∧
        (s'.bufs 0).bindedSlot = some i ∧
        (s.bufs 0).reader.resultCount ≤ (s'.bufs 0).reader.resultCount ∧
        (s.bufs 0).reader.offset ≤ (s'.bufs 0).reader.offset := by
  have hseen : seenBy WritesStay diceWritten (fun s =>
      ((decide (0 ∈ s.started), (s.tasks 0).isRun), (s.tasks 0).buffOut,
        ((system.guarded WritesStay).exec s diceAgain).map fun s' =>
          ((s'.bufs 0).reader, (s'.bufs 0).destroyed, (s'.ctxs (s'.bufs 0).ctx).failed))) =
      some ((true, false), 0, some (⟨64, 0⟩, false, false)) := by decide +kernel
  obtain ⟨s, hr, hf⟩ := exists_seenBy hseen
  simp only [Prod.mk.injEq, decide_eq_true_eq, Option.map_eq_some_iff] at hf
  obtain ⟨⟨hstarted, hwrite⟩, hout, s', hs', hreader, halive, hfail⟩ := hf
  exact ⟨s, s', hr, hs', hreader, write_session_kept hr hstarted hwrite hout hs' halive hfail⟩

/-- A RUN takes the slot of a buffer with results of a write, and the next write starts with
an empty reader. -/
theorem session_lost_by_run :
    ∃ s s' s'', system.exec probed diceWritten = some s ∧ system.exec s emptyRun = some s' ∧
      system.exec s (emptyRun ++ boundAgain) = some s'' ∧
      (0 ∈ s.started ∧ (s.tasks 0).isRun = false ∧ (s.tasks 0).buffOut = 0 ∧
        (s.bufs 0).bindedSlot = some 0 ∧ (s.bufs 0).reader = ⟨32, 0⟩) ∧
      (s'.bufs 0).bindedSlot = none ∧ (s''.bufs 0).reader = ⟨0, 0⟩ ∧
      (s''.bufs 0).destroyed = false ∧ (s''.ctxs (s''.bufs 0).ctx).failed = false := by
  have hseen : seenAfter diceWritten (fun s =>
      (decide (0 ∈ s.started ∧ (s.tasks 0).isRun = false ∧ (s.tasks 0).buffOut = 0 ∧
          (s.bufs 0).bindedSlot = some 0 ∧ (s.bufs 0).reader = ⟨32, 0⟩),
        (system.exec s emptyRun).map (fun s' => (s'.bufs 0).bindedSlot),
        (system.exec s (emptyRun ++ boundAgain)).map fun s'' =>
          ((s''.bufs 0).reader, (s''.bufs 0).destroyed, (s''.ctxs (s''.bufs 0).ctx).failed))) =
      some (true, some none, some (⟨0, 0⟩, false, false)) := by
    decide +kernel
  obtain ⟨s, hs, -, hf⟩ := exists_seenAfter hseen
  simp only [Prod.mk.injEq, decide_eq_true_eq, Option.map_eq_some_iff] at hf
  obtain ⟨hbefore, ⟨s', hs', hnone⟩, s'', hs'', hafter⟩ := hf
  exact ⟨s, s', s'', hs, hs', hs'', hbefore, hnone, hafter⟩

end Dicedev
