import Dicedev.Buffers
import Dicedev.Ownership
import Dicedev.RunRequest

/-!
# References to files

`fdget` takes a reference to the file when the descriptor table is shared, and
`dicedev_ioctl_run` never gives it back: there is no `fdput` on any of its paths. `fileSystem`
is the driver with the calls of RUN for any descriptor table and with the count of these
references for every file; the kernel releases a file when nothing refers to it.

`run_file_refs`: a call that returns keeps the counts exactly if the table is not shared or the
call does not come to its `fdget`s. If all calls do, every buffer is released once, when its
descriptors and mappings are closed and its context has given it up. A reference that is kept
prevents the release for ever.
-/

namespace Dicedev

open State

/-! ## The references of a call -/

/-- `fdget` on the counts of references. -/
def FdTable.fdget (t : FdTable) (refs : File → Nat) (fd : Word) : File → Nat :=
  match t.file fd with
  | none => refs
  | some f => if t.shared then Function.update refs f (refs f + 1) else refs

/-- The counts after a call of `dicedev_ioctl_run`, whichever way it returns. -/
def FdTable.runRefs (t : FdTable) (refs : File → Nat) : Option RunCmd → File → Nat
  | none => refs
  | some r => if r.Aligned then t.fdget (t.fdget refs r.cfd) r.bfd else refs

/-- The call takes no reference. -/
def RunBalanced (t : FdTable) (arg : Option RunCmd) : Prop :=
  t.shared = false ∨ ∀ r ∈ arg, ¬ r.Aligned

instance (t : FdTable) (arg : Option RunCmd) : Decidable (RunBalanced t arg) :=
  inferInstanceAs (Decidable (_ ∨ _))

/-! ## The driver with its files -/

/-- The driver, the references that `fdget` took and nobody gave back, and how often
`dicedev_buffer_release` has run for each buffer. -/
structure FileState where
  sys : State
  refs : File → Nat
  releases : BufId → Nat

inductive FileLabel
  | sys (l : Label)
  | ioctlRun (t : FdTable) (c : CtxId) (arg : Option RunCmd) (alloc : Bool)

/-- The buffer that a step releases. -/
def Label.released? : Label → Option BufId
  | .bufferRelease b => some b
  | _ => none

/-- The step is a RUN. -/
def Label.isRun : Label → Bool
  | .run _ _ _ _ _ _ _ => true
  | _ => false

namespace FileState

/-- A buffer that a descriptor names has a descriptor. -/
def backs (x : FileState) (t : FdTable) (fd : Word) : Bool :=
  match (t.file fd).bind File.buffer? with
  | none => true
  | some b => decide (0 < (x.sys.bufs b).fdRefs)

/-- A call of RUN up to its allocation. The references are counted in `refs`, so the part of
the driver is that of a table that is not shared. A call that reads through a wrong pointer has
no step. -/
def ioctlRun (x : FileState) (t : FdTable) (c : CtxId) (arg : Option RunCmd) (alloc : Bool) :
    Option FileState :=
  if (x.sys.ctxs c).phase = .opened ∧ ∀ r ∈ arg, x.backs t r.cfd ∧ x.backs t r.bfd then
    match x.sys.ioctlRunVerdict t c arg alloc with
    | .refused _ => some { x with refs := t.runRefs x.refs arg }
    | .admitted cb db addr size =>
      (system.step x.sys
        (.run c cb db (BitVec.ofNat 32 addr) (BitVec.ofNat 32 size) false true)).map fun s =>
        { x with sys := s, refs := t.runRefs x.refs arg }
    | .nullFile => none
    | .foreign _ => none
  else none

def step (x : FileState) : FileLabel → Option FileState
  | .sys l =>
    if l.isRun = false ∧ ∀ b ∈ l.released?, x.refs (.buffer b) = 0 then
      (system.step x.sys l).map fun s =>
        { x with
          sys := s
          releases := fun b => x.releases b + if l.released? = some b then 1 else 0 }
    else none
  | .ioctlRun t c arg alloc => x.ioctlRun t c arg alloc

end FileState

/-- The driver with its files, after `dicedev_probe`. -/
def fileSystem : Machine FileState FileLabel :=
  ⟨⟨State.probed, fun _ => 0, fun _ => 0⟩, FileState.step⟩

/-- No RUN of the run keeps a reference. -/
def RunsBalanced (_ : FileState) : FileLabel → Prop
  | .sys _ => True
  | .ioctlRun t _ arg _ => RunBalanced t arg

instance (x : FileState) (l : FileLabel) : Decidable (RunsBalanced x l) :=
  match l with
  | .sys _ => isTrue trivial
  | .ioctlRun t _ arg _ => inferInstanceAs (Decidable (RunBalanced t arg))

/-! ## What a call leaves -/

variable {t : FdTable} {refs : File → Nat} {arg : Option RunCmd}

theorem fdget_unshared (h : t.shared = false) (fd : Word) : t.fdget refs fd = refs := by
  unfold FdTable.fdget
  split
  · rfl
  · rw [h]
    rfl

theorem le_fdget (t : FdTable) (refs : File → Nat) (fd : Word) (f : File) :
    refs f ≤ t.fdget refs fd f := by
  unfold FdTable.fdget
  cases t.file fd with
  | none => exact Nat.le_refl _
  | some g =>
    dsimp only
    split
    · exact update_pred (P := (refs f ≤ ·)) (Nat.le_refl _) fun h => h ▸ Nat.le_succ _
    · exact Nat.le_refl _

theorem fdget_self {fd : Word} {f : File} (hshared : t.shared = true) (hf : t.file fd = some f) :
    t.fdget refs fd f = refs f + 1 := by
  simp [FdTable.fdget, hf, hshared]

/-- References are only added. -/
theorem le_runRefs (t : FdTable) (refs : File → Nat) (arg : Option RunCmd) (f : File) :
    refs f ≤ t.runRefs refs arg f := by
  unfold FdTable.runRefs
  split
  · exact Nat.le_refl _
  · split
    · exact (le_fdget t refs _ f).trans (le_fdget t _ _ f)
    · exact Nat.le_refl _

theorem runRefs_balanced (h : RunBalanced t arg) : t.runRefs refs arg = refs := by
  unfold FdTable.runRefs
  split
  · rfl
  · rename_i r
    split
    · rename_i hal
      rcases h with hshared | hmis
      · rw [fdget_unshared hshared, fdget_unshared hshared]
      · exact absurd hal (hmis r rfl)
    · rfl

/-- A call that returns keeps the counts exactly if it is balanced: if the table is shared and
the request aligned, both descriptors were open, and the file of `cfd` has one reference more. -/
theorem runRefs_eq_iff {s s' : State} {c : CtxId} {alloc : Bool} {err : Option Errno}
    (h : s.ioctlRunCall t c arg alloc = .returned err s') :
    t.runRefs refs arg = refs ↔ RunBalanced t arg := by
  refine ⟨fun heq => ?_, runRefs_balanced⟩
  by_contra hbal
  simp only [RunBalanced, not_or, Bool.not_eq_false, not_forall, not_not] at hbal
  obtain ⟨hshared, r, rfl, hal⟩ := hbal
  obtain ⟨cf, hcf⟩ : ∃ cf, t.file r.cfd = some cf := by
    by_contra hclosed
    have hnone : t.file r.cfd = none := by
      simpa [Option.eq_none_iff_forall_ne_some] using hclosed
    rw [ioctlRunCall, verdict_of_closed hal (Or.inl hnone)] at h
    cases h
  have hle := le_fdget t (t.fdget refs r.cfd) r.bfd cf
  rw [FdTable.runRefs, if_pos hal] at heq
  rw [heq, fdget_self hshared hcf] at hle
  omega

/-- `fdget` on the counts and on the buffers of a state agree. -/
theorem leakedRefs_fdget {s : State} (hrefs : ∀ b, refs (.buffer b) = (s.bufs b).leakedRefs)
    (fd : Word) (b : BufId) :
    t.fdget refs fd (.buffer b) = ((s.fdget t fd).bufs b).leakedRefs := by
  unfold FdTable.fdget State.fdget
  cases t.file fd with
  | none => exact hrefs b
  | some f =>
    cases f with
    | buffer d =>
      cases t.shared with
      | false => exact hrefs b
      | true =>
        by_cases hd : b = d
        · subst hd
          simp [leakRef, updBuf, hrefs]
        · simp [leakRef, updBuf, hrefs, hd]
    | context | other =>
      dsimp only
      split
      · simp [hrefs]
      · exact hrefs b

/-- The references that a call leaves in the system are those to the files of buffers. -/
theorem leakedRefs_ioctlRunFiles {s : State}
    (hrefs : ∀ b, refs (.buffer b) = (s.bufs b).leakedRefs) (b : BufId) :
    t.runRefs refs arg (.buffer b) = ((s.ioctlRunFiles t arg).bufs b).leakedRefs := by
  cases arg with
  | none => exact hrefs b
  | some r =>
    unfold FdTable.runRefs ioctlRunFiles
    dsimp only
    split
    · exact leakedRefs_fdget (leakedRefs_fdget hrefs r.cfd) r.bfd b
    · exact hrefs b

/-! ## Steps -/

variable {x x' : FileState} {l : FileLabel}

/-- What a step does. -/
inductive FileStep (x : FileState) : FileLabel → FileState → Prop
  | sys (l : Label) (s : State) (hrun : l.isRun = false)
      (hrefs : ∀ b ∈ l.released?, x.refs (.buffer b) = 0) (hs : system.step x.sys l = some s) :
      FileStep x (.sys l)
        { x with
          sys := s
          releases := fun b => x.releases b + if l.released? = some b then 1 else 0 }
  | refused (t : FdTable) (c : CtxId) (arg : Option RunCmd) (alloc : Bool) :
      FileStep x (.ioctlRun t c arg alloc) { x with refs := t.runRefs x.refs arg }
  | admitted (t : FdTable) (c : CtxId) (arg : Option RunCmd) (alloc : Bool) (l : Label) (s : State)
      (hs : system.step x.sys l = some s) (hbufs : s.bufs = x.sys.bufs)
      (hn : s.nBuf = x.sys.nBuf) :
      FileStep x (.ioctlRun t c arg alloc) { x with sys := s, refs := t.runRefs x.refs arg }

/-- A RUN of a table that is not shared leaves the buffers alone. -/
theorem run_unshared {s s' : State} {c : CtxId} {cb db : BufId} {addr size : Word} {alloc : Bool}
    (h : system.step s (.run c cb db addr size false alloc) = some s') :
    s'.bufs = s.bufs ∧ s'.nBuf = s.nBuf := by
  change (if s.bug = none then s.dicedevIoctlRun c cb db addr size false alloc else none) =
    some s' at h
  unfold dicedevIoctlRun at h
  split at h
  · split at h
    · split at h
      · cases h
        exact ⟨rfl, rfl⟩
      · dsimp only at h
        split at h <;> cases h <;> exact ⟨rfl, rfl⟩
    · cases h
  · cases h

theorem FileStep.of_step (h : fileSystem.step x l = some x') : FileStep x l x' := by
  cases l with
  | sys l =>
    change (if _ then _ else none) = some x' at h
    split at h
    · rename_i hguard
      obtain ⟨s, hs, rfl⟩ := Option.map_eq_some_iff.mp h
      exact .sys l s hguard.1 hguard.2 hs
    · cases h
  | ioctlRun t c arg alloc =>
    change x.ioctlRun t c arg alloc = some x' at h
    unfold FileState.ioctlRun at h
    split at h
    · split at h
      · cases h
        exact .refused t c arg alloc
      · obtain ⟨s, hs, rfl⟩ := Option.map_eq_some_iff.mp h
        obtain ⟨hbufs, hn⟩ := run_unshared hs
        exact .admitted t c arg alloc _ s hs hbufs hn
      · cases h
      · cases h
    · cases h

theorem fileSystem_sys (h : fileSystem.Reachable x) : Reachable x.sys := by
  refine Machine.ReachableBy.project (f := FileState.sys) rfl ?_ h
  intro x l x' hstep
  cases FileStep.of_step hstep with
  | sys l s _ _ hs => exact ⟨[l], Machine.exec_cons_some.mpr ⟨s, hs, rfl⟩⟩
  | refused => exact ⟨[], rfl⟩
  | admitted _ _ _ _ l s hs => exact ⟨[l], Machine.exec_cons_some.mpr ⟨s, hs, rfl⟩⟩

/-! ## The buffers of a run -/

/-- The system itself keeps no reference to a buffer, and it has released a buffer once if the
buffer is freed and not at all otherwise. -/
structure ReleasedOnce (x : FileState) : Prop where
  kept : ∀ b < x.sys.nBuf, (x.sys.bufs b).leakedRefs = 0
  once : ∀ b < x.sys.nBuf, x.releases b = (x.sys.bufs b).freed.toNat
  fresh : ∀ b, x.sys.nBuf ≤ b → x.releases b = 0

namespace ReleasedOnce

theorem of_same (h : ReleasedOnce x) {s : State} (hbufs : s.bufs = x.sys.bufs)
    (hn : s.nBuf = x.sys.nBuf) (refs : File → Nat) : ReleasedOnce ⟨s, refs, x.releases⟩ := by
  refine ⟨?_, ?_, ?_⟩
  · simpa [hbufs, hn] using h.kept
  · simpa [hbufs, hn] using h.once
  · simpa [hn] using h.fresh

/-- A step on a buffer that is there. -/
theorem bufStep {s : State} {l : Label} {b : BufId} {y : Buffer} {n : Nat} (hrun : l.isRun = false)
    (hkept : (s.bufs b).leakedRefs = 0) (honce : n = (s.bufs b).freed.toNat)
    (h : BufStep s b l y) :
    y.leakedRefs = 0 ∧ (n + if l.released? = some b then 1 else 0) = y.freed.toNat := by
  cases h with
  | keep l hl =>
    have hne : l.released? ≠ some b := by
      cases l with
      | bufferRelease d => exact fun h => hl (by rw [Option.some_inj.mp h])
      | _ => nofun
    rw [if_neg hne]
    exact ⟨hkept, honce⟩
  | leak => cases hrun
  | free m hfreed =>
    rw [honce, hfreed]
    exact ⟨hkept, by simp [Label.released?]⟩
  | mark | giveUp | read | seed | dup | close | store | bind | unbind | account =>
    exact ⟨hkept, honce⟩

theorem step (hr : Reachable x.sys) (h : ReleasedOnce x) (hs : FileStep x l x') :
    ReleasedOnce x' := by
  cases hs with
  | refused => exact ⟨h.kept, h.once, h.fresh⟩
  | admitted t c arg alloc l s hs hbufs hn => exact h.of_same hbufs hn _
  | sys l s hrun hrefs hs =>
    have hst := Step.of_step hs
    have hold : ∀ b < x.sys.nBuf, (s.bufs b).leakedRefs = 0 ∧
        (x.releases b + if l.released? = some b then 1 else 0) = (s.bufs b).freed.toNat :=
      fun b hb => bufStep hrun (h.kept b hb) (h.once b hb) (.of_step hst hb)
    rcases nBuf_step hst with hn | ⟨c, size, allowed, dma, rfl, hn, hnew⟩
    · refine ⟨fun b hb => (hold b (hn ▸ hb)).1, fun b hb => (hold b (hn ▸ hb)).2, fun b hb => ?_⟩
      have hle : x.sys.nBuf ≤ b := hn ▸ hb
      have hne : l.released? ≠ some b := by
        intro hl
        cases hst with
        | bufferRelease d hfreed =>
          cases hl
          exact absurd ((scope_reachable hr).unfreed_lt hfreed) (Nat.not_lt.mpr hle)
        | halt l bug hl' => rcases hl' with rfl | rfl <;> cases hl
        | _ => cases hl
      change x.releases b + _ = 0
      rw [if_neg hne, h.fresh b hle]
    · have hb' : ∀ b < x.sys.nBuf + 1, (s.bufs b).leakedRefs = 0 ∧
          x.releases b = (s.bufs b).freed.toNat := by
        intro b hb
        rcases Nat.lt_succ_iff_lt_or_eq.mp hb with hb | rfl
        · exact hold b hb
        · rw [hnew, h.fresh _ (Nat.le_refl _)]
          exact ⟨rfl, rfl⟩
      refine ⟨fun b hb => (hb' b (hn ▸ hb)).1, fun b hb => (hb' b (hn ▸ hb)).2, fun b hb => ?_⟩
      have hle : x.sys.nBuf + 1 ≤ b := hn ▸ hb
      exact h.fresh b (Nat.le_of_succ_le hle)

end ReleasedOnce

theorem releasedOnce_reachable (h : fileSystem.Reachable x) : ReleasedOnce x := by
  refine Machine.Reachable.invariant_of (J := fun x => Reachable x.sys)
    (fun _ => fileSystem_sys) ?_ ?_ h
  · exact ⟨fun b hb => absurd hb (Nat.not_lt_zero b), fun b hb => absurd hb (Nat.not_lt_zero b),
      fun _ _ => rfl⟩
  · exact fun _ _ _ hr hI hs => hI.step hr (FileStep.of_step hs)

/-- Without unbalanced calls there are no references left. -/
theorem refs_balanced (h : fileSystem.ReachableBy RunsBalanced x) (f : File) : x.refs f = 0 := by
  refine Machine.ReachableBy.invariant (I := fun x => x.refs f = 0) rfl ?_ h
  intro x l x' hI hC hs
  cases FileStep.of_step hs with
  | sys => exact hI
  | refused | admitted => exact (congrFun (runRefs_balanced hC) f).trans hI

/-- A reference that is kept prevents the release of a buffer. -/
theorem releases_of_kept {b : BufId} (hrefs : 0 < x.refs (.buffer b)) (hrel : x.releases b = 0)
    {ls : List FileLabel} (h : fileSystem.exec x ls = some x') : x'.releases b = 0 := by
  have hI : 0 < x'.refs (.buffer b) ∧ x'.releases b = 0 := by
    refine Machine.exec_invariant (I := fun x => 0 < x.refs (.buffer b) ∧ x.releases b = 0) ?_
      ⟨hrefs, hrel⟩ h
    rintro x l x' ⟨hrefs, hrel⟩ hstep
    cases FileStep.of_step hstep with
    | sys l s hrun hzero hs =>
      refine ⟨hrefs, ?_⟩
      have hne : l.released? ≠ some b := fun hl => Nat.ne_of_gt hrefs (hzero b hl)
      change x.releases b + _ = 0
      rw [if_neg hne, hrel]
    | refused | admitted => exact ⟨Nat.lt_of_lt_of_le hrefs (le_runRefs _ _ _ _), hrel⟩
  exact hI.2

/-! ## The release of a buffer -/

/-- No descriptor, mapping, context or call refers to the file of buffer `b`. -/
structure Unused (s : State) (b : BufId) : Prop where
  descriptors : (s.bufs b).fdRefs = 0
  context : (s.bufs b).ctxRef = false
  calls : ∀ k < s.nCall, ∀ call ∈ s.calls k, call.uses b = false

/-- `dicedev_buffer_release` runs once for buffer `b`: it has run at most once, it only runs when
the file is unused and the release of the context has come to the buffer, and it can run as soon
as the file is unused, unless the stopped worker holds `slock`. -/
structure ReleaseRuns (x : FileState) (b : BufId) : Prop where
  once : x.releases b ≤ 1
  unused : ∀ x', fileSystem.step x (.sys (.bufferRelease b)) = some x' →
    Unused x.sys b ∧ ((x.sys.ctxs (x.sys.bufs b).ctx).phase = .closing ∨
      (x.sys.ctxs (x.sys.bufs b).ctx).phase = .freed) ∧ x.releases b = 0 ∧ x'.releases b = 1
  runs : Unused x.sys b → x.sys.slockFree = true → x.sys.bug = none →
    x.releases b = 1 ∨ ∃ x', fileSystem.step x (.sys (.bufferRelease b)) = some x'

/-- The context of a buffer that it has given up is past its wait. -/
theorem released_of_ctxRef {s : State} (h : Reachable s) {b : BufId} (hb : b < s.nBuf)
    (href : (s.bufs b).ctxRef = false) :
    (s.ctxs (s.bufs b).ctx).phase = .closing ∨ (s.ctxs (s.bufs b).ctx).phase = .freed := by
  have hlive := Owned.listed_live (ownership_reachable h) b hb
  change (s.ctxs (s.bufs b).ctx).phase = .opened ∨ (s.ctxs (s.bufs b).ctx).phase = .waiting →
    (s.bufs b).ctxRef = true at hlive
  rw [href] at hlive
  cases hphase : (s.ctxs (s.bufs b).ctx).phase with
  | opened => exact absurd (hlive (Or.inl hphase)) (by decide)
  | waiting => exact absurd (hlive (Or.inr hphase)) (by decide)
  | closing => exact Or.inl rfl
  | freed => exact Or.inr rfl

/-- The step of `dicedev_buffer_release`, and what it finds. -/
theorem bufferRelease_step {s : State} {b : BufId} :
    (∃ s', system.step s (.bufferRelease b) = some s') ↔
      s.bug = none ∧ s.slockFree = true ∧ (s.bufs b).freed = false ∧ (s.bufs b).leakedRefs = 0 ∧
        Unused s b := by
  change (∃ s', (if s.bug = none then (s.dicedevBufferRelease b).map s.orHalt else none) = some s')
    ↔ _
  by_cases hbug : s.bug = none
  · rw [if_pos hbug, dicedevBufferRelease]
    split
    · rename_i hguard
      obtain ⟨hfree, hfreed, hfd, hleak, hctx, hcalls⟩ := hguard
      exact ⟨fun _ => ⟨hbug, hfree, hfreed, hleak, hfd, hctx, hcalls⟩, fun _ => ⟨_, rfl⟩⟩
    · rename_i hguard
      constructor
      · rintro ⟨s', hs'⟩
        cases hs'
      · rintro ⟨-, hfree, hfreed, hleak, hunused⟩
        exact absurd ⟨hfree, hfreed, hunused.descriptors, hleak, hunused.context,
          hunused.calls⟩ hguard
  · rw [if_neg hbug]
    constructor
    · rintro ⟨s', hs'⟩
      cases hs'
    · exact fun h => absurd h.1 hbug

theorem releaseRuns_of_refs (h : fileSystem.Reachable x) {b : BufId} (hb : b < x.sys.nBuf)
    (hrefs : x.refs (.buffer b) = 0) : ReleaseRuns x b := by
  have hI := releasedOnce_reachable h
  have honce := hI.once b hb
  have hguard : (Label.bufferRelease b).isRun = false ∧
      ∀ d ∈ (Label.bufferRelease b).released?, x.refs (.buffer d) = 0 :=
    ⟨rfl, fun d hd => Option.some_inj.mp hd ▸ hrefs⟩
  refine ⟨?_, ?_, ?_⟩
  · rw [honce]
    exact Bool.toNat_le _
  · intro x' hx'
    cases FileStep.of_step hx' with
    | sys _ s _ _ hs =>
      obtain ⟨-, -, hfreed, -, hunused⟩ := bufferRelease_step.mp ⟨s, hs⟩
      have hzero : x.releases b = 0 := by rw [honce, hfreed]; rfl
      refine ⟨hunused, released_of_ctxRef (fileSystem_sys h) hb hunused.context, hzero, ?_⟩
      change x.releases b + (if some b = some b then 1 else 0) = 1
      rw [hzero, if_pos rfl]
  · intro hunused hfree hbug
    cases hfreed : (x.sys.bufs b).freed with
    | true =>
      rw [hfreed] at honce
      exact Or.inl honce
    | false =>
      obtain ⟨s', hs'⟩ :=
        bufferRelease_step.mpr ⟨hbug, hfree, hfreed, hI.kept b hb, hunused⟩
      have hstep : fileSystem.step x (.sys (.bufferRelease b)) =
          (system.step x.sys (.bufferRelease b)).map _ := if_pos hguard
      rw [hstep, hs']
      exact Or.inr ⟨_, rfl⟩

/-- A call of RUN that returns keeps the references to all files exactly if its table is not
shared or it does not come to its `fdget`s. If this is so for all calls of a run, every buffer is
released once, when it is unused and its context has been released; and as soon as one reference
to a buffer is kept, the buffer is not released any more. -/
theorem run_file_refs (t : FdTable) (arg : Option RunCmd) (x : FileState) (b : BufId) :
    (∀ (refs : File → Nat) (s s' : State) c alloc err,
      s.ioctlRunCall t c arg alloc = .returned err s' →
      (t.runRefs refs arg = refs ↔ RunBalanced t arg)) ∧
    (fileSystem.ReachableBy RunsBalanced x → b < x.sys.nBuf → ReleaseRuns x b) ∧
    (0 < x.refs (.buffer b) → x.releases b = 0 →
      ∀ ls x', fileSystem.exec x ls = some x' → x'.releases b = 0) := by
  refine ⟨fun _ _ _ _ _ _ h => runRefs_eq_iff h, fun h hb => ?_, fun hrefs hrel ls x' hx' => ?_⟩
  · exact releaseRuns_of_refs h.reachable hb (refs_balanced h _)
  · exact releases_of_kept hrefs hrel hx'

/-- Descriptor 3 is open on buffer 0. -/
def bufferOnly (shared : Bool) : FdTable :=
  ⟨fun fd => if fd = 3 then some (.buffer 0) else none, shared⟩

/-- A RUN that is refused because it does not fit, then everything is closed. -/
def closedAfterRun (shared : Bool) : List FileLabel :=
  openOne.map .sys ++ [.ioctlRun (bufferOnly shared) 0 (some ⟨3, 0, 8192, 3⟩) true] ++
    [Label.releaseMark 0, .releaseWait 0, .releaseBuffer 0, .releaseFree 0, .close 0].map .sys

/-- In a process without threads the buffer is released. -/
theorem run_file_refs_unshared :
    ∃ x x', fileSystem.ReachableBy RunsBalanced x ∧ ReleaseRuns x 0 ∧ x.releases 0 = 0 ∧
      fileSystem.step x (.sys (.bufferRelease 0)) = some x' ∧ x'.releases 0 = 1 := by
  have hseen : ((fileSystem.guarded RunsBalanced).exec fileSystem.init (closedAfterRun false)).map
      (fun x => (x.sys.nBuf, x.releases 0,
        (fileSystem.step x (.sys (.bufferRelease 0))).map fun x' => x'.releases 0)) =
      some (1, 0, some 1) := by decide +kernel
  obtain ⟨x, hx, hf⟩ := Option.map_eq_some_iff.mp hseen
  simp only [Prod.mk.injEq, Option.map_eq_some_iff] at hf
  obtain ⟨hn, hrel, x', hx', hone⟩ := hf
  have hr : fileSystem.ReachableBy RunsBalanced x := .of_guarded .init hx
  have hruns := (run_file_refs (bufferOnly false) none x 0).2.1 hr (hn ▸ Nat.zero_lt_one)
  exact ⟨x, x', hr, hruns, hrel, hx', hone⟩

/-- One refused RUN in a process with threads, and the buffer is never released. -/
theorem refused_run_keeps_buffer :
    ∃ x, fileSystem.exec fileSystem.init (closedAfterRun true) = some x ∧ Unused x.sys 0 ∧
      x.sys.slockFree = true ∧ x.sys.bug = none ∧ x.refs (.buffer 0) = 2 ∧
      ¬ ReleaseRuns x 0 ∧ ∀ ls x', fileSystem.exec x ls = some x' → x'.releases 0 = 0 := by
  have hseen : (fileSystem.exec fileSystem.init (closedAfterRun true)).map (fun x =>
      (((x.sys.bufs 0).fdRefs, (x.sys.bufs 0).ctxRef, x.sys.nCall), x.sys.slockFree, x.sys.bug,
        x.refs (.buffer 0), x.releases 0)) = some ((0, false, 0), true, none, 2, 0) := by
    decide +kernel
  obtain ⟨x, hx, hf⟩ := Option.map_eq_some_iff.mp hseen
  simp only [Prod.mk.injEq] at hf
  obtain ⟨⟨hfd, hctx, hn⟩, hfree, hbug, hrefs, hrel⟩ := hf
  have hunused : Unused x.sys 0 :=
    ⟨hfd, hctx, fun k hk => absurd hk (hn ▸ Nat.not_lt_zero k)⟩
  have hpos : 0 < x.refs (.buffer 0) := by omega
  have hnever : ∀ ls x', fileSystem.exec x ls = some x' → x'.releases 0 = 0 :=
    fun ls x' => releases_of_kept hpos hrel
  refine ⟨x, hx, hunused, hfree, hbug, hrefs, fun h => ?_, hnever⟩
  rcases h.runs hunused hfree hbug with hone | ⟨x', hx'⟩
  · omega
  · have hzero := hnever [_] x' (Machine.exec_cons_some.mpr ⟨x', hx', rfl⟩)
    have hone := (h.unused x' hx').2.2.2
    omega

end Dicedev
