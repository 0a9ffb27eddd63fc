import Dicedev.Quiet

/-!
# A close comes to its end

`dicedev_release` marks the buffers of the context, waits until no task is left, gives up the
buffers one by one and frees the context. `CtxStep` lists what a step can do to a context, and
nobody but the release itself moves it on. After the mark no call begins to count for the
context (`State.Settled.step`), so the context comes to rest, and so does the release:
`release_completes`.
-/

namespace Dicedev

open State

variable {s s' : State} {l : Label} {c : CtxId}

/-! ## What a step does to a context -/

/-- What becomes of the context `c`. -/
inductive CtxStep (s : State) (c : CtxId) : Label → CtxSig → Prop
  | keep (l : Label) : CtxStep s c l (s.csig c)
  | createSet (size : Nat) (allowed dma : BitVec 64) (hopen : (s.csig c).phase = .opened) :
      CtxStep s c (.createSet c size allowed dma)
        { s.csig c with allocatedBuffers := s.nBuf :: (s.csig c).allocatedBuffers }
  | mark (hopen : (s.csig c).phase = .opened) :
      CtxStep s c (.releaseMark c) { s.csig c with phase := .waiting }
  | leave (hwait : (s.csig c).phase = .waiting) :
      CtxStep s c (.releaseWait c) { s.csig c with phase := .closing }
  | giveUp (b : BufId) (rest : List BufId) (hclosing : (s.csig c).phase = .closing)
      (hlist : (s.csig c).allocatedBuffers = b :: rest) :
      CtxStep s c (.releaseBuffer c) { s.csig c with allocatedBuffers := rest }
  | free (hclosing : (s.csig c).phase = .closing) (hlist : (s.csig c).allocatedBuffers = []) :
      CtxStep s c (.releaseFree c) { s.csig c with phase := .freed }

namespace CtxStep

/-- The context `d` is replaced by `x`. -/
theorem of_update {d : CtxId} {x : Context} (hctxs : s'.ctxs = Function.update s.ctxs d x)
    (h : c = d → CtxStep s c l x.sig) : CtxStep s c l (s'.csig c) := by
  change CtxStep s c l (s'.ctxs c).sig
  rw [hctxs]
  by_cases hcd : c = d
  · rw [hcd, Function.update_self, ← hcd]
    exact h hcd
  · rw [Function.update_of_ne hcd]
    exact .keep l

theorem of_isr (hctxs : s'.ctxs = s.isrCtxs) : CtxStep s c l (s'.csig c) := by
  have hsame : s'.csig c = s.csig c := by
    change (s'.ctxs c).sig = _
    rw [hctxs]
    exact congrFun (csig_isrCtxs s) c
  rw [hsame]
  exact .keep l

theorem of_step (hs : Step s l s') (hc : c < s.nCtx) : CtxStep s c l (s'.csig c) := by
  cases hs with
  | openCtx => exact of_update rfl fun heq => absurd heq (Nat.ne_of_lt hc)
  | createSet d size allowed dma hopen =>
    refine of_update rfl ?_
    rintro rfl
    exact .createSet size allowed dma hopen
  | releaseMark d hopen =>
    refine of_update rfl ?_
    rintro rfl
    exact .mark hopen
  | releaseWait d hwait =>
    refine of_update rfl ?_
    rintro rfl
    exact .leave hwait
  | releaseBuffer d b rest hclosing hlist =>
    refine of_update rfl ?_
    rintro rfl
    exact .giveUp b rest hclosing hlist
  | releaseFree d hclosing hlist =>
    refine of_update rfl ?_
    rintro rfl
    exact .free hclosing hlist
  | runCount | write | writeFail | runReject | account =>
    refine of_update rfl ?_
    rintro rfl
    exact .keep _
  | isr | isrFence => exact of_isr rfl
  | _ => exact .keep _

end CtxStep

/-- A freed context has given up its buffers. -/
def FreedEmpty (s : State) : Prop :=
  ∀ c < s.nCtx, (s.csig c).phase = .freed → (s.csig c).allocatedBuffers = []

theorem FreedEmpty.step (h : FreedEmpty s) (hs : Step s l s') : FreedEmpty s' := by
  intro c hlt
  by_cases hc : c < s.nCtx
  · have hctx := CtxStep.of_step hs hc
    generalize s'.csig c = x at hctx ⊢
    cases hctx with
    | keep => exact h c hc
    | createSet _ _ _ hopen => exact fun hfreed => by cases hopen.symm.trans hfreed
    | mark | leave => exact fun hfreed => by cases hfreed
    | giveUp _ _ hclosing => exact fun hfreed => by cases hclosing.symm.trans hfreed
    | free _ hlist => exact fun _ => hlist
  · cases hs with
    | openCtx =>
      have hcn : c = s.nCtx := Nat.le_antisymm (Nat.le_of_lt_succ hlt) (Nat.le_of_not_lt hc)
      subst hcn
      exact fun _ => congrArg Context.allocatedBuffers (Function.update_self s.nCtx _ s.ctxs)
    | _ => exact absurd hlt hc

theorem freedEmpty_reachable (h : Reachable s) : FreedEmpty s :=
  Machine.Reachable.invariant (fun _ _ _ => rfl) (fun _ _ _ hI hs => hI.step (Step.of_step hs)) h

/-! ## After the mark -/

/-- The file of the context `c` has been closed. -/
def State.Closed (s : State) (c : CtxId) : Prop := c < s.nCtx ∧ (s.csig c).phase ≠ .opened

theorem nCtx_le_step (hs : Step s l s') : s.nCtx ≤ s'.nCtx := by
  cases hs with
  | openCtx => exact Nat.le_succ _
  | _ => exact Nat.le_refl _

theorem State.Closed.step (h : s.Closed c) (hs : Step s l s') : s'.Closed c := by
  refine ⟨Nat.lt_of_lt_of_le h.1 (nCtx_le_step hs), ?_⟩
  have hctx := CtxStep.of_step hs h.1
  generalize s'.csig c = x at hctx ⊢
  cases hctx with
  | keep => exact h.2
  | createSet _ _ _ hopen | mark hopen => exact absurd hopen h.2
  | leave | free => nofun
  | giveUp _ _ hclosing => exact fun hopen => by cases hclosing.symm.trans hopen

/-- After the mark no call raises the counter any more. -/
theorem State.Settled.step (hr : Reachable s) (hclosed : s.Closed c) (hs : Step s l s')
    {k : CallId} (h : s.Settled c k) : s'.Settled c k := by
  have hset : ∀ {j : CallId} {o : Option Call}, (∀ call ∈ o, j = k → call.counts c = false) →
      s'.calls = Function.update s.calls j o → s'.Settled c k := by
    intro j o ho hcalls call hcall
    rw [hcalls] at hcall
    by_cases hkj : k = j
    · subst hkj
      rw [Function.update_self] at hcall
      exact ho call hcall rfl
    · rw [Function.update_of_ne hkj] at hcall
      exact h call hcall
  cases hs with
  | run | wait | waitLeave =>
    refine hset ?_ rfl
    rintro _ ⟨⟩ -
    rfl
  | runQueue | waitReturn | writeFail | writeQueue => exact hset (by simp) rfl
  | runCount j c' cb db addr size hcall =>
    refine hset ?_ rfl
    rintro _ ⟨⟩ -
    have hne : c' ≠ c := by
      rintro rfl
      refine absurd ?_ hclosed.2
      exact Owned.ioctl_open (ownership_reachable hr) j _ c' hcall (beq_self_eq_true c')
    simp [Call.counts, hne]
  | write b count hfd halive =>
    refine hset ?_ rfl
    rintro _ ⟨⟩ -
    have hb := (scope_reachable hr).fd_lt hfd
    have hne : (s.bufs b).ctx ≠ c := by
      intro heq
      have hmark : (s.bsig b).destroyed = true := by
        refine (Owned.destroyed_iff (ownership_reachable hr) b hb).mpr ?_
        rw [show (s.bsig b).ctx = c from heq]
        exact hclosed.2
      cases hmark.symm.trans halive
    exact beq_eq_false_iff_ne.mpr hne
  | _ => exact h

/-! ## The steps of the release -/

theorem releaseWait_step (hs : Step s (.releaseWait c) s') : (s'.csig c).phase = .closing := by
  cases hs with
  | releaseWait => exact congrArg Context.phase (Function.update_self c _ s.ctxs)
  | halt _ _ hl => rcases hl with hl | hl <;> cases hl

theorem releaseBuffer_step (hs : Step s (.releaseBuffer c) s') :
    ∃ b rest, (s.csig c).allocatedBuffers = b :: rest ∧ (s'.csig c).allocatedBuffers = rest := by
  cases hs with
  | releaseBuffer _ b rest _ hlist =>
    exact ⟨b, rest, hlist, congrArg Context.allocatedBuffers (Function.update_self c _ s.ctxs)⟩
  | halt _ _ hl => rcases hl with hl | hl <;> cases hl

theorem releaseFree_step (hs : Step s (.releaseFree c) s') : (s'.csig c).phase = .freed := by
  cases hs with
  | releaseFree => exact congrArg Context.phase (Function.update_self c _ s.ctxs)
  | halt _ _ hl => rcases hl with hl | hl <;> cases hl

/-- What the release of `c` does next, when it is past its wait. -/
def State.releaseLabel (s : State) (c : CtxId) : Label :=
  if (s.csig c).allocatedBuffers = [] then .releaseFree c else .releaseBuffer c

theorem releaseLabel_enabled (hbug : s.bug = none) (hpc : s.pc ≠ .hung)
    (hclosing : (s.csig c).phase = .closing) : system.Enabled s (s.releaseLabel c) := by
  refine enabled_of_handle hbug ?_
  have hphase : (s.ctxs c).phase = .closing := hclosing
  have hfree : s.slockFree = true := decide_eq_true hpc
  unfold State.releaseLabel
  cases hlist : (s.csig c).allocatedBuffers with
  | nil =>
    have hempty : (s.ctxs c).allocatedBuffers = [] := hlist
    rw [if_pos rfl]
    change s.releaseFree c ≠ none
    rw [State.releaseFree, if_pos ⟨hphase, hempty⟩]
    nofun
  | cons b rest =>
    have hcons : (s.ctxs c).allocatedBuffers = b :: rest := hlist
    rw [if_neg (List.cons_ne_nil b rest)]
    change (s.releaseBuffer c).map s.orHalt ≠ none
    rw [State.releaseBuffer, if_pos ⟨hfree, hphase⟩, hcons]
    nofun

/-- A release past its wait goes on, or is left alone. -/
theorem release_step (hclosing : (s.csig c).phase = .closing) (hc : c < s.nCtx) (hs : Step s l s')
    (hgoal : (s'.csig c).phase ≠ .freed) :
    (s'.csig c).allocatedBuffers.length < (s.csig c).allocatedBuffers.length ∨
      (s'.csig c).allocatedBuffers.length = (s.csig c).allocatedBuffers.length ∧
        s'.releaseLabel c = s.releaseLabel c ∧ l ≠ s.releaseLabel c := by
  have hnot : l = s.releaseLabel c →
      (s'.csig c).allocatedBuffers.length < (s.csig c).allocatedBuffers.length := by
    intro hl
    unfold State.releaseLabel at hl
    split at hl
    · subst hl
      exact absurd (releaseFree_step hs) hgoal
    · subst hl
      obtain ⟨b, rest, hlist, hlist'⟩ := releaseBuffer_step hs
      rw [hlist, hlist']
      exact Nat.lt_succ_self _
  by_cases hl : l = s.releaseLabel c
  · exact Or.inl (hnot hl)
  · have hctx := CtxStep.of_step hs hc
    have hlabel : s'.csig c = s.csig c → s'.releaseLabel c = s.releaseLabel c := fun heq => by
      unfold State.releaseLabel
      rw [heq]
    generalize hx : s'.csig c = x at hctx hgoal hlabel ⊢
    cases hctx with
    | keep => exact Or.inr ⟨rfl, hlabel rfl, hl⟩
    | createSet _ _ _ hopen | mark hopen => cases hclosing.symm.trans hopen
    | leave hwait => cases hclosing.symm.trans hwait
    | giveUp b rest _ hlist =>
      left
      rw [hlist]
      exact Nat.lt_succ_self _
    | free => exact absurd rfl hgoal

/-! ## Whole runs -/

/-- The writes to the buffers of `c` that are under way return, and the run is fair to the
steps of the release of `c`. -/
structure Releasing (r : system.Run) (c : CtxId) : Prop where
  writes : ∀ k n, ¬ (r.state n).Settled c k → ∃ j, n ≤ j ∧ (r.state j).calls k = none
  leave : r.Fair (.releaseWait c)
  giveUp : r.Fair (.releaseBuffer c)
  free : r.Fair (.releaseFree c)

section

variable {r : system.Run} (h : Served r) (hrel : Releasing r c) {n : Nat}
  (hclosed : (r.state n).Closed c)

include hclosed

theorem closed_after {j : Nat} (hj : n ≤ j) : (r.state j).Closed c :=
  r.keeps (P := fun s => s.Closed c) hclosed (fun k _ hk => hk.step (Step.of_step (r.step k))) hj

include h hrel

theorem Releasing.quiescent : Quiescent r c n :=
  ⟨fun i hi _ hk => hk.step (h.reachable i).reachable (closed_after hclosed hi)
    (Step.of_step (r.step i)), fun k => hrel.writes k n⟩

/-- The release leaves its wait. -/
theorem leaves_wait : ∃ j, n ≤ j ∧ ((r.state j).csig c).phase ≠ .waiting := by
  obtain ⟨m, hm, hzero⟩ := count_eventually_zero h (Releasing.quiescent h hrel hclosed)
  have hen : ∀ k, m ≤ k → ¬ ((r.state k).csig c).phase ≠ .waiting →
      system.Enabled (r.state k) (.releaseWait c) := by
    intro k hk hwait
    refine enabled_of_handle (bug_of_serviceable (h.reachable k)) ?_
    change (r.state k).releaseWait c ≠ none
    rw [State.releaseWait, if_pos ⟨not_not.mp hwait, hzero k hk⟩]
    nofun
  have hstep : ∀ k, m ≤ k → r.label k = .releaseWait c →
      ((r.state (k + 1)).csig c).phase ≠ .waiting := by
    intro k _ hl
    have hs := Step.of_step (r.step k)
    rw [hl] at hs
    rw [releaseWait_step hs]
    nofun
  obtain ⟨j, hj, hgoal⟩ := r.eventually_of_label (fun s => (s.csig c).phase ≠ .waiting) hrel.leave
    hen hstep (Nat.le_refl m)
  exact ⟨j, Nat.le_trans hm hj, hgoal⟩

theorem pastWait_eventually : ∃ j, n ≤ j ∧ ∀ i, j ≤ i → (r.state i).PastWait c := by
  obtain ⟨m, hm, hleft⟩ := leaves_wait h hrel hclosed
  have hpast : (r.state m).PastWait c := by
    obtain ⟨hc, hopen⟩ := closed_after hclosed hm
    refine ⟨hc, ?_⟩
    change ((r.state m).csig c).phase = .closing ∨ ((r.state m).csig c).phase = .freed
    cases hp : ((r.state m).csig c).phase with
    | opened => exact absurd hp hopen
    | waiting => exact absurd hp hleft
    | closing => exact Or.inl rfl
    | freed => exact Or.inr rfl
  refine ⟨m, hm, fun i hi => ?_⟩
  exact r.keeps (P := fun s => s.PastWait c) hpast
    (fun k _ hk => hk.step (Step.of_step (r.step k))) hi

/-- Past its wait the release gives up one buffer after the other, and frees the context. -/
theorem freed_eventually : ∃ j, n ≤ j ∧ ((r.state j).csig c).phase = .freed := by
  obtain ⟨m, hm, hpast⟩ := pastWait_eventually h hrel hclosed
  have hclosing : ∀ k, m ≤ k → ((r.state k).csig c).phase ≠ .freed →
      ((r.state k).csig c).phase = .closing := fun k hk hne => (hpast k hk).2.resolve_right hne
  have hfair : ∀ k, m ≤ k → r.Fair ((r.state k).releaseLabel c) := by
    intro k _
    unfold State.releaseLabel
    split
    · exact hrel.free
    · exact hrel.giveUp
  have hen : ∀ k, m ≤ k → ¬ ((r.state k).csig c).phase = .freed →
      system.Enabled (r.state k) ((r.state k).releaseLabel c) := fun k hk hne =>
    releaseLabel_enabled (bug_of_serviceable (h.reachable k))
      (fun hp => not_left (h.reachable k) (h.inService k) (Or.inr (Or.inl hp)))
      (hclosing k hk hne)
  obtain ⟨j, hj, hgoal⟩ := r.eventually (fun s => (s.csig c).phase = .freed)
    (fun s => (s.csig c).allocatedBuffers.length) (fun s => s.releaseLabel c) hfair hen
    (fun k hk hne hne' => release_step (hclosing k hk hne) (hpast k hk).1 (Step.of_step (r.step k))
      hne') (Nat.le_refl m)
  exact ⟨j, Nat.le_trans hm hj, hgoal⟩

end

/-- In a run of a driver in service (`Served`) that is fair to the release, and in which the writes
under way return (`Releasing`), a context whose file is closed is freed in the end. When it is, its
tasks have been destroyed and it refers to none of its buffers any more. -/
theorem release_completes {r : system.Run} (h : Served r) (hrel : Releasing r c) {n : Nat}
    (hclosed : (r.state n).Closed c) :
    ∃ j, n ≤ j ∧ ((r.state j).ctxs c).phase = .freed ∧
      (∀ t < (r.state j).nTask, ((r.state j).tasks t).ctx = c →
        ((r.state j).tasks t).freed = true) ∧
      ∀ b < (r.state j).nBuf, ((r.state j).bufs b).ctx = c →
        ((r.state j).bufs b).ctxRef = false := by
  obtain ⟨j, hj, hfreed⟩ := freed_eventually h hrel hclosed
  have hr := (h.reachable j).reachable
  have hc := (closed_after hclosed hj).1
  refine ⟨j, hj, hfreed, ?_, ?_⟩
  · intro t ht hctx
    by_contra hlive
    rw [Bool.not_eq_true] at hlive
    have hcounting := Tracked.task (tracks_reachable hr) t ht hlive
    rw [show ((r.state j).sig t).ctx = c from hctx, hfreed] at hcounting
    rcases hcounting with hp | hp <;> cases hp
  · intro b hb hctx
    have hlisted := Owned.listed_iff (ownership_reachable hr) b hb
    rw [show ((r.state j).bsig b).ctx = c from hctx, freedEmpty_reachable hr c hc hfreed] at hlisted
    exact Bool.eq_false_iff.mpr fun href => List.not_mem_nil (hlisted.mp href)

/-- The file of the context is closed while the write without commands is in the queue. -/
theorem release_completes_queued :
    ∃ r : system.Run, Served r ∧ Releasing r 0 ∧ (r.state 0).Closed 0 ∧
      0 < (r.state 0).nTask ∧ ∃ j, 0 ≤ j ∧ ((r.state j).ctxs 0).phase = .freed := by
  have hseen : seenBy Steady (openOne ++ writeCall 0 0 0 (fun _ => 0) ++ [.releaseMark 0])
      (fun s => ((s.nTask, s.nCtx, (s.ctxs 0).phase), decide (InService s),
        ((system.guarded Steady).exec s (startEmpty ++ finishTask ++ workerSteps 3 ++
          [.releaseWait 0, .releaseBuffer 0, .releaseFree 0])).any fun u =>
            decide (u.Idle ∧ u.nCall = 1 ∧ u.calls 0 = none ∧ (u.ctxs 0).phase = .freed))) =
      some ((1, 1, .waiting), true, true) := by
    decide +kernel
  obtain ⟨s, hr, hs⟩ := exists_seenBy hseen
  simp only [Prod.mk.injEq, decide_eq_true_eq, Option.any_eq_true] at hs
  obtain ⟨⟨hn, hc, hphase⟩, hservice, u, hu, hidle, hcalls, hcall, hfreed⟩ := hs
  obtain ⟨r, rfl, hserved, hend⟩ := exists_served hr hservice hu hidle
  have hru : Reachable u := by
    obtain ⟨j, -, hj, -⟩ := hend.exists_ge 0
    exact hj ▸ (hserved.reachable j).reachable
  have hnone : ∀ k, u.calls k = none := by
    rintro (- | k)
    · exact hcall
    · refine Names.call_fresh (scope_reachable hru) _ ?_
      rw [hcalls]
      exact Nat.succ_le_succ (Nat.zero_le k)
  have hpast : ∀ {l : Label}, u.handle l = none → r.Fair l := fun hl =>
    hend.fair (Or.inr fun hen => hen ((if_pos hidle.2.1).trans hl))
  have hrel : Releasing r 0 := by
    refine ⟨fun k n _ => ?_, hpast ?_, hpast ?_, hpast ?_⟩
    · obtain ⟨j, hj, hstate, -⟩ := hend.exists_ge n
      exact ⟨j, hj, hstate ▸ hnone k⟩
    · exact if_neg fun hg => by cases hfreed.symm.trans hg.1
    · rw [State.handle, State.releaseBuffer, if_neg fun hg => by cases hfreed.symm.trans hg.2]
      rfl
    · exact if_neg fun hg => by cases hfreed.symm.trans hg.1
  have hclosed : (r.state 0).Closed 0 := by
    refine ⟨by rw [hc]; decide, fun hp => ?_⟩
    cases hphase.symm.trans hp
  obtain ⟨j, hj, hdone, -⟩ := release_completes hserved hrel hclosed
  exact ⟨r, hserved, hrel, hclosed, by rw [hn]; decide, j, hj, hdone⟩

end Dicedev
