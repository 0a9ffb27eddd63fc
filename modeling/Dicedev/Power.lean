import Dicedev.IntrEnable
import Dicedev.Memory
import Dicedev.Restart
import Dicedev.RunLoop
import Dicedev.Shutdown

/-!
# Suspending, resuming and removing, register by register

The system takes `dicedev_suspend`, `dicedev_resume` and `dicedev_remove` as one step each, up to
their waits. Here they are taken apart into their register writes and their calls of the kernel,
and any step of the system may come in between. `powerSystem` also has the registers that the
system leaves out: `ENABLE`, `CMD_FENCE_WAIT`, and `INCREMENT_SEED`, which
`dicedev_ioctl_seed_increment` writes.

The interrupt handler finds its interrupts disabled a moment earlier or a moment later than in
the system, and nobody can tell the difference: `power_refined`. The order of the writes is such
that a device that is switched off has no worker, with one exception: `dicedev_resume` lets the
worker go before it switches the device on, `disabled_feeds`.
-/

namespace Dicedev

open State

variable {s s' : State} {l : Label}

/-! ## The model -/

/-- Where the calls of the PCI core are. -/
inductive PmCall
  /-- Between the calls, the device is on. -/
  | running
  /-- `dicedev_suspend` has written `INTR_ENABLE`. -/
  | suspendIntr
  /-- `dicedev_suspend` waits in `kthread_park`. -/
  | suspendPark
  /-- `dicedev_suspend` has returned. -/
  | suspended
  /-- `dicedev_resume` has called `kthread_unpark`. -/
  | resumeUnparked
  /-- `dicedev_resume` has written `INTR_ENABLE`. -/
  | resumeIntr
  /-- `dicedev_remove` has written `INTR_ENABLE`; it may have found the device suspended. -/
  | removeIntr (off : Bool)
  /-- `dicedev_remove` waits in `kthread_stop`. -/
  | removeStop (off : Bool)
  /-- `dicedev_remove` has written `ENABLE`. -/
  | removed
  deriving DecidableEq, Repr

/-- The registers that the system leaves out. -/
structure Regs where
  enable : Bool
  fenceWait : Word
  /-- `none` as long as the driver has not written it. -/
  incrementSeed : Option Word
  deriving DecidableEq, Repr

/-- The registers after `dicedev_probe`. -/
def Regs.probed : Regs := ⟨true, 1, none⟩

/-- The registers that a step of the system writes. -/
def Regs.after (r : Regs) (s : State) : Label → Regs
  | .worker =>
    match s.pc with
    | .fencing => { r with fenceWait := taskFenceVal }
    -- `restart_device` switches the device off and on
    | .finishing => if s.devFailed then { r with enable := true } else r
    | _ => r
  | _ => r

/-- What `dicedev_ioctl_seed_increment` returns, where `fault` is the result of
`copy_from_user`. -/
def ioctlSeedCheck (fault : Bool) (enableIncrement : Word) : Option Errno :=
  if fault then some .efault
  else if enableIncrement ≠ 0 ∧ enableIncrement ≠ 1 then some .einval
  else none

structure PowerState where
  sys : State
  pm : PmCall
  regs : Regs

inductive PowerLabel
  /-- Any step of the system but the three calls. -/
  | sys (l : Label)
  | seedIncrement (c : CtxId) (fault : Bool) (enableIncrement : Word)
  | suspendIntr
  | suspendPark
  | suspendOff
  | resumeUnpark
  | resumeIntr
  | resumeOn
  | removeIntr
  | removeStop
  | removeOff

namespace PowerState

/-- `dicedev_ioctl_seed_increment`. -/
def seedIncrement (x : PowerState) (c : CtxId) (fault : Bool) (enableIncrement : Word) :
    Option PowerState :=
  if (x.sys.ctxs c).phase = .opened then
    match ioctlSeedCheck fault enableIncrement with
    | some _ => some x
    | none =>
      if x.sys.slockFree then
        some { x with regs := { x.regs with incrementSeed := some enableIncrement } }
      else none
  else none

/-- The write of `INTR_ENABLE`. -/
def setIntr (x : PowerState) (b : Bool) (pm : PmCall) : PowerState :=
  { x with sys := { x.sys with intrEnable := b }, pm := pm }

/-- The write of `ENABLE`. -/
def setEnable (x : PowerState) (b : Bool) (pm : PmCall) : PowerState :=
  { x with regs := { x.regs with enable := b }, pm := pm }

/-- A step of the calls of the PCI core, or of the system. The PCI core resumes a device that is
suspended, and it removes a device that is running or suspended. -/
def handle (x : PowerState) : PowerLabel → Option PowerState
  | .sys l =>
    if l.isPm then none
    else (x.sys.handle l).map fun s => { x with sys := s, regs := x.regs.after x.sys l }
  | .seedIncrement c fault v => x.seedIncrement c fault v
  | .suspendIntr => if x.pm = .running then some (x.setIntr false .suspendIntr) else none
  | .suspendPark =>
    if x.pm = .suspendIntr then
      some { x with sys := { x.sys with shouldPark := true }.wakeWorker, pm := .suspendPark }
    else none
  | .suspendOff =>
    if x.pm = .suspendPark ∧ x.sys.pc = .parked then some (x.setEnable false .suspended) else none
  | .resumeUnpark =>
    if x.pm = .suspended then
      some { x with sys := { x.sys with shouldPark := false }, pm := .resumeUnparked }
    else none
  | .resumeIntr => if x.pm = .resumeUnparked then some (x.setIntr true .resumeIntr) else none
  | .resumeOn => if x.pm = .resumeIntr then some (x.setEnable true .running) else none
  | .removeIntr =>
    match x.pm with
    | .running => some (x.setIntr false (.removeIntr false))
    | .suspended => some (x.setIntr false (.removeIntr true))
    | _ => none
  | .removeStop =>
    match x.pm with
    | .removeIntr off =>
      some { x with
        sys := { x.sys with shouldStop := true, shouldPark := false }.wakeWorker
        pm := .removeStop off }
    | _ => none
  | .removeOff =>
    match x.pm with
    | .removeStop _ => if x.sys.pc = .exited then some (x.setEnable false .removed) else none
    | _ => none

end PowerState

/-- The driver after `dicedev_probe`, with its registers. -/
def powerSystem : Machine PowerState PowerLabel :=
  ⟨⟨State.probed, .running, Regs.probed⟩, fun x l => if x.sys.bug = none then x.handle l else none⟩

/-! ## What a step can do -/

variable {x y : PowerState}

/-- The outcomes of the steps, with the places of the calls in which they happen. -/
inductive PowerStep (x : PowerState) : PowerLabel → PowerState → Prop
  | sys (l : Label) (t : State) (hl : l.isPm = false) (ht : x.sys.handle l = some t) :
      PowerStep x (.sys l) { x with sys := t, regs := x.regs.after x.sys l }
  | seedRefused (c : CtxId) (fault : Bool) (v : Word) : PowerStep x (.seedIncrement c fault v) x
  | seed (c : CtxId) (fault : Bool) (v : Word) (hcheck : ioctlSeedCheck fault v = none) :
      PowerStep x (.seedIncrement c fault v)
        { x with regs := { x.regs with incrementSeed := some v } }
  | suspendIntr (hpm : x.pm = .running) : PowerStep x .suspendIntr (x.setIntr false .suspendIntr)
  | suspendPark (hpm : x.pm = .suspendIntr) :
      PowerStep x .suspendPark
        { x with sys := { x.sys with shouldPark := true }.wakeWorker, pm := .suspendPark }
  | suspendOff (hpm : x.pm = .suspendPark) (hpc : x.sys.pc = .parked) :
      PowerStep x .suspendOff (x.setEnable false .suspended)
  | resumeUnpark (hpm : x.pm = .suspended) :
      PowerStep x .resumeUnpark
        { x with sys := { x.sys with shouldPark := false }, pm := .resumeUnparked }
  | resumeIntr (hpm : x.pm = .resumeUnparked) :
      PowerStep x .resumeIntr (x.setIntr true .resumeIntr)
  | resumeOn (hpm : x.pm = .resumeIntr) : PowerStep x .resumeOn (x.setEnable true .running)
  | removeRunning (hpm : x.pm = .running) :
      PowerStep x .removeIntr (x.setIntr false (.removeIntr false))
  | removeSuspended (hpm : x.pm = .suspended) :
      PowerStep x .removeIntr (x.setIntr false (.removeIntr true))
  | removeStop (off : Bool) (hpm : x.pm = .removeIntr off) :
      PowerStep x .removeStop
        { x with
          sys := { x.sys with shouldStop := true, shouldPark := false }.wakeWorker
          pm := .removeStop off }
  | removeOff (off : Bool) (hpm : x.pm = .removeStop off) (hpc : x.sys.pc = .exited) :
      PowerStep x .removeOff (x.setEnable false .removed)

theorem PowerStep.of_seed {c : CtxId} {fault : Bool} {v : Word}
    (hs : x.seedIncrement c fault v = some y) : PowerStep x (.seedIncrement c fault v) y := by
  unfold PowerState.seedIncrement at hs
  split at hs
  · split at hs
    · obtain rfl := Option.some.inj hs
      exact .seedRefused c fault v
    · rename_i hcheck
      split at hs
      · obtain rfl := Option.some.inj hs
        exact .seed c fault v hcheck
      · cases hs
  · cases hs

/-- Every step is one of the outcomes. -/
theorem PowerStep.of_step {l : PowerLabel} (hs : powerSystem.step x l = some y) :
    x.sys.bug = none ∧ PowerStep x l y := by
  change (if x.sys.bug = none then x.handle l else none) = some y at hs
  split at hs
  case isFalse => cases hs
  case isTrue hbug =>
    refine ⟨hbug, ?_⟩
    cases l with
    | seedIncrement c fault v => exact .of_seed hs
    | sys l =>
      dsimp only [PowerState.handle] at hs
      split at hs
      · cases hs
      · rename_i hl
        obtain ⟨t, ht, rfl⟩ := Option.map_eq_some_iff.mp hs
        exact .sys l t (eq_false_of_ne_true hl) ht
    | suspendIntr =>
      obtain ⟨hpm, ⟨⟩⟩ := Option.ite_none_right_eq_some.mp hs
      exact .suspendIntr hpm
    | suspendPark =>
      obtain ⟨hpm, ⟨⟩⟩ := Option.ite_none_right_eq_some.mp hs
      exact .suspendPark hpm
    | suspendOff =>
      obtain ⟨hpm, ⟨⟩⟩ := Option.ite_none_right_eq_some.mp hs
      exact .suspendOff hpm.1 hpm.2
    | resumeUnpark =>
      obtain ⟨hpm, ⟨⟩⟩ := Option.ite_none_right_eq_some.mp hs
      exact .resumeUnpark hpm
    | resumeIntr =>
      obtain ⟨hpm, ⟨⟩⟩ := Option.ite_none_right_eq_some.mp hs
      exact .resumeIntr hpm
    | resumeOn =>
      obtain ⟨hpm, ⟨⟩⟩ := Option.ite_none_right_eq_some.mp hs
      exact .resumeOn hpm
    | removeIntr =>
      dsimp only [PowerState.handle] at hs
      split at hs
      · rename_i hpm
        obtain rfl := Option.some.inj hs
        exact .removeRunning hpm
      · rename_i hpm
        obtain rfl := Option.some.inj hs
        exact .removeSuspended hpm
      · cases hs
    | removeStop =>
      dsimp only [PowerState.handle] at hs
      split at hs
      · rename_i off hpm
        obtain rfl := Option.some.inj hs
        exact .removeStop off hpm
      · cases hs
    | removeOff =>
      dsimp only [PowerState.handle] at hs
      split at hs
      · rename_i off hpm
        obtain ⟨hpc, ⟨⟩⟩ := Option.ite_none_right_eq_some.mp hs
        exact .removeOff off hpm hpc
      · cases hs

/-! ## The calls seen as one step -/

/-- Between the write of `INTR_ENABLE` and the call of the kernel the system still has, or already
has, the interrupts. -/
def PmCall.lags : PmCall → Bool
  | .suspendIntr | .resumeUnparked | .removeIntr false => true
  | _ => false

/-- The state of the system that a state of the calls stands for. -/
def PowerState.view (x : PowerState) : State := if x.pm.lags then x.sys.masked true else x.sys

/-- The interrupts are enabled in this place. -/
def PmCall.intrOn : PmCall → Bool
  | .running | .resumeIntr => true
  | _ => false

theorem intrOn_of_lags {pm : PmCall} (h : pm.lags = true) : pm.intrOn = false := by
  cases pm <;> first | rfl | cases h

theorem masked_eq {b : Bool} (h : s.intrEnable = b) : s.masked b = s := by
  subst h
  rfl

theorem view_of_lags (h : x.pm.lags = true) : x.view = x.sys.masked true := if_pos h

theorem view_of_not_lags (h : x.pm.lags = false) : x.view = x.sys :=
  if_neg (by rw [h]; exact Bool.false_ne_true)

theorem devFailed_view (x : PowerState) : x.view.devFailed = x.sys.devFailed := by
  unfold PowerState.view
  split <;> rfl

theorem bug_view (x : PowerState) : x.view.bug = x.sys.bug := by
  unfold PowerState.view
  split <;> rfl

theorem system_step (hbug : s.bug = none) (hs : s.handle l = some s') :
    system.step s l = some s' := (if_pos hbug).trans hs

/-- What a step amounts to in the system. -/
def Amounts (x y : PowerState) : Prop :=
  y.view = x.view ∨ ∃ l, system.step x.view l = some y.view

/-- With its interrupts disabled the handler does nothing. -/
theorem isr_disabled (hintr : s.intrEnable = false) (hs : s.handle .isr = some s') : s' = s := by
  change s.dicedevIsr.map s.orHalt = some s' at hs
  unfold dicedevIsr at hs
  rw [hintr] at hs
  split at hs
  · exact (Option.some.inj hs).symm
  · cases hs

theorem eq_isr (hsees : l.seesIntr = true) (hpm : l.isPm = false) : l = .isr := by
  cases l with
  | isr => rfl
  | suspend | resume | remove => cases hpm
  | _ => cases hsees

/-- A step of the system between the calls: the register is seen by the interrupt handler only,
which does nothing where the register is ahead. -/
theorem amounts_sys {t : State} (hfailed : x.sys.devFailed = false)
    (hintr : x.sys.intrEnable = x.pm.intrOn) (hbug : x.sys.bug = none) (hl : l.isPm = false)
    (ht : x.sys.handle l = some t) (hsys : y.sys = t) (hpm : y.pm = x.pm) : Amounts x y := by
  subst hsys
  cases hlags : x.pm.lags with
  | false =>
    rw [Amounts, view_of_not_lags hlags, view_of_not_lags (x := y) (hpm ▸ hlags)]
    exact Or.inr ⟨l, system_step hbug ht⟩
  | true =>
    rw [Amounts, view_of_lags hlags, view_of_lags (x := y) (hpm ▸ hlags)]
    rw [intrOn_of_lags hlags] at hintr
    cases hsees : l.seesIntr with
    | false =>
      refine Or.inr ⟨l, system_step hbug ?_⟩
      rw [handle_masked true hfailed hsees, ht]
      rfl
    | true =>
      rw [eq_isr hsees hl] at ht
      exact Or.inl (congrArg (masked · true) (isr_disabled hintr ht))

/-- `kthread_park` and `kthread_stop` are called with the interrupts disabled. -/
theorem suspend_masked (b : Bool) (h : s.intrEnable = false) :
    (s.masked b).dicedevSuspend = { s with shouldPark := true }.wakeWorker := by
  change ({ s.masked false with shouldPark := true } : State).wakeWorker = _
  rw [masked_eq h]

theorem remove_masked (b : Bool) (h : s.intrEnable = false) :
    (s.masked b).dicedevRemove =
      { s with shouldStop := true, shouldPark := false }.wakeWorker := by
  change ({ s.masked false with shouldStop := true, shouldPark := false } : State).wakeWorker = _
  rw [masked_eq h]

theorem amounts_step {l : PowerLabel} (hfailed : x.sys.devFailed = false)
    (hintr : x.sys.intrEnable = x.pm.intrOn) (hbug : x.sys.bug = none) (hs : PowerStep x l y) :
    Amounts x y := by
  have hbug' : x.view.bug = none := (bug_view x).trans hbug
  have hview : ∀ {pm : PmCall}, x.pm = pm → pm.lags = false → x.view = x.sys := fun h hlags =>
    view_of_not_lags (h ▸ hlags)
  have hmask : ∀ {pm : PmCall}, x.pm = pm → pm.lags = true → x.view = x.sys.masked true :=
    fun h hlags => view_of_lags (h ▸ hlags)
  cases hs with
  | sys l t hl ht => exact amounts_sys hfailed hintr hbug hl ht rfl rfl
  | seedRefused => exact Or.inl rfl
  | seed => exact Or.inl rfl
  | suspendIntr hpm =>
    rw [hpm] at hintr
    exact Or.inl ((masked_eq hintr).trans (hview hpm rfl).symm)
  | suspendPark hpm =>
    rw [hpm] at hintr
    refine Or.inr ⟨.suspend, system_step hbug' ?_⟩
    rw [hmask hpm rfl]
    exact congrArg some (suspend_masked true hintr)
  | suspendOff hpm hpc => exact Or.inl (hview hpm rfl).symm
  | resumeUnpark hpm =>
    refine Or.inr ⟨.resume, system_step hbug' ?_⟩
    rw [hview hpm rfl]
    rfl
  | resumeIntr hpm => exact Or.inl (hmask hpm rfl).symm
  | resumeOn hpm => exact Or.inl (hview hpm rfl).symm
  | removeRunning hpm =>
    rw [hpm] at hintr
    exact Or.inl ((masked_eq hintr).trans (hview hpm rfl).symm)
  | removeSuspended hpm =>
    rw [hpm] at hintr
    exact Or.inl ((masked_eq hintr).trans (hview hpm rfl).symm)
  | removeStop off hpm =>
    rw [hpm] at hintr
    change x.sys.intrEnable = false at hintr
    refine Or.inr ⟨.remove, system_step hbug' ?_⟩
    cases off with
    | false =>
      rw [hmask hpm rfl]
      exact congrArg some (remove_masked true hintr)
    | true =>
      have hremove := remove_masked false hintr
      rw [masked_eq hintr] at hremove
      rw [hview hpm rfl]
      exact congrArg some hremove
  | removeOff off hpm hpc => exact Or.inl (hview hpm rfl).symm

/-! ## The registers -/

/-- The steps of the system leave `INTR_ENABLE` to the calls of the PCI core. -/
theorem intrEnable_step (hs : Step s l s') (hfailed : s.devFailed = false)
    (hl : l.isPm = false) : s'.intrEnable = s.intrEnable := by
  cases hs with
  | suspend | resume | remove => cases hl
  | finishing => simp [hfailed]
  | _ => rfl

theorem intr_step {l : PowerLabel} (hfailed : x.sys.devFailed = false)
    (hintr : x.sys.intrEnable = x.pm.intrOn) (hbug : x.sys.bug = none) (hs : PowerStep x l y) :
    y.sys.intrEnable = y.pm.intrOn := by
  cases hs with
  | sys l t hl ht =>
    exact (intrEnable_step (Step.of_step (system_step hbug ht)) hfailed hl).trans hintr
  | seedRefused | seed => exact hintr
  | suspendIntr | resumeIntr | removeRunning | removeSuspended => rfl
  | suspendPark hpm | suspendOff hpm | resumeUnpark hpm | resumeOn hpm | removeStop _ hpm
  | removeOff _ hpm =>
    rw [hpm] at hintr
    exact hintr

/-- The device is on in this place. -/
def PmCall.deviceOn : PmCall → Bool
  | .running | .suspendIntr | .suspendPark => true
  | .removeIntr off | .removeStop off => !off
  | .suspended | .resumeUnparked | .resumeIntr | .removed => false

theorem after_enable (r : Regs) (hfailed : s.devFailed = false) :
    (r.after s l).enable = r.enable := by
  cases l with
  | worker =>
    dsimp only [Regs.after]
    split
    · rfl
    · rw [hfailed]
      rfl
    · rfl
  | _ => rfl

theorem enable_step {l : PowerLabel} (hfailed : x.sys.devFailed = false)
    (hon : x.regs.enable = x.pm.deviceOn) (hs : PowerStep x l y) :
    y.regs.enable = y.pm.deviceOn := by
  cases hs with
  | sys l t hl ht => exact (after_enable x.regs hfailed).trans hon
  | seedRefused | seed => exact hon
  | suspendOff | resumeOn | removeOff => rfl
  | suspendIntr hpm | suspendPark hpm | resumeUnpark hpm | resumeIntr hpm | removeRunning hpm
  | removeSuspended hpm | removeStop _ hpm =>
    rw [hpm] at hon
    exact hon

/-- Before a fence is fed the register has the value of the fence. -/
def Regs.Armed (r : Regs) (s : State) : Prop := s.fences ≠ [] → r.fenceWait = taskFenceVal

theorem after_fenceWait (r : Regs) :
    (r.after s l).fenceWait = r.fenceWait ∨ (r.after s l).fenceWait = taskFenceVal := by
  cases l with
  | worker =>
    dsimp only [Regs.after]
    split
    · exact Or.inr rfl
    · split <;> exact Or.inl rfl
    · exact Or.inl rfl
  | _ => exact Or.inl rfl

theorem Regs.Armed.after {r : Regs} (h : r.Armed s) (hs : Step s l s') :
    (r.after s l).Armed s' := by
  intro hne
  rcases fences_step hs with heq | ⟨t, rfl, hpc, -, -⟩
  · rw [heq] at hne
    rcases after_fenceWait r with hkeep | hset
    · rw [hkeep]
      exact h hne
    · exact hset
  · rw [Regs.after, hpc]

/-- `dicedev_ioctl_seed_increment` has written nothing else than its two values. -/
def Regs.SeedValid (r : Regs) : Prop := ∀ v ∈ r.incrementSeed, v = 0 ∨ v = 1

theorem seed_of_check {fault : Bool} {v : Word} (h : ioctlSeedCheck fault v = none) :
    v = 0 ∨ v = 1 := by
  unfold ioctlSeedCheck at h
  split at h
  · cases h
  · split at h
    · cases h
    · rename_i hbad
      by_contra hnot
      exact hbad ⟨fun h₀ => hnot (Or.inl h₀), fun h₁ => hnot (Or.inr h₁)⟩

theorem after_incrementSeed (r : Regs) : (r.after s l).incrementSeed = r.incrementSeed := by
  cases l with
  | worker =>
    dsimp only [Regs.after]
    split
    · rfl
    · split <;> rfl
    · rfl
  | _ => rfl

theorem registers_step {l : PowerLabel} (harmed : x.regs.Armed x.sys) (hseed : x.regs.SeedValid)
    (hbug : x.sys.bug = none) (hs : PowerStep x l y) : y.regs.Armed y.sys ∧ y.regs.SeedValid := by
  cases hs with
  | sys l t hl ht =>
    refine ⟨harmed.after (Step.of_step (system_step hbug ht)), ?_⟩
    unfold Regs.SeedValid
    rw [after_incrementSeed]
    exact hseed
  | seed c fault v hcheck =>
    refine ⟨harmed, fun w hw => ?_⟩
    obtain rfl := Option.some.inj hw
    exact seed_of_check hcheck
  | _ => exact ⟨harmed, hseed⟩

/-! ## A device that is off -/

/-- Where a worker is that has been stopped while it was parked. -/
def WtPc.leaving : WtPc → Bool
  | .parked | .head | .shutdown | .hung | .exited => true
  | _ => false

/-- What the worker does while the device is off. -/
def PmCall.Rests (s : State) : PmCall → Prop
  | .suspended | .removeIntr true => s.pc = .parked ∧ s.shouldPark = true
  | .removeStop true => s.pc.leaving = true ∧ s.shouldStop = true
  | .removed => s.pc = .exited
  | _ => True

theorem flags_step (hs : Step s l s') (hl : l.isPm = false) :
    s'.shouldStop = s.shouldStop ∧ s'.shouldPark = s.shouldPark := by
  cases hs with
  | suspend | resume | remove => cases hl
  | _ => exact ⟨rfl, rfl⟩

theorem pc_other_of_awake (hs : Step s l s') (hl : l ≠ .worker) (hpc : s.pc ≠ .asleep) :
    s'.pc = s.pc := by
  rcases pc_other_step hs hl with heq | hwoken
  · exact heq
  · exact hwoken.trans (if_neg hpc)

theorem worker_of_parked (hpc : s.pc = .parked) (hpark : s.shouldPark = true) :
    s.handle .worker = none := by
  rw [State.handle, wtStep, hpc, hpark]
  rfl

theorem worker_of_exited (hpc : s.pc = .exited) : s.handle .worker = none := by
  rw [State.handle, wtStep, hpc]
  rfl

/-- A worker that leaves does nothing on its way. -/
theorem worker_of_leaving (hpc : s.pc.leaving = true) (hstop : s.shouldStop = true)
    (hs : s.handle .worker = some s') :
    ∃ pc : WtPc, pc.leaving = true ∧ s' = { s with pc := pc } := by
  change s.wtStep.map s.orHalt = some s' at hs
  unfold wtStep at hs
  cases hp : s.pc with
  | head =>
    rw [hp] at hs
    refine ⟨s.wtPoll, ?_, (Option.some.inj hs).symm⟩
    rw [wtPoll, if_pos hstop]
    rfl
  | parked =>
    rw [hp] at hs
    dsimp only at hs
    split at hs
    · cases hs
    · exact ⟨.head, rfl, (Option.some.inj hs).symm⟩
  | shutdown =>
    rw [hp] at hs
    refine ⟨s.wtShutdown, ?_, (Option.some.inj hs).symm⟩
    unfold wtShutdown
    split <;> rfl
  | hung | exited =>
    rw [hp] at hs
    cases hs
  | _ =>
    rw [hp] at hpc
    cases hpc

/-- The steps of the system leave a worker that rests where it is. -/
theorem PmCall.Rests.step {pm : PmCall} (h : pm.Rests s) (hbug : s.bug = none)
    (hl : l.isPm = false) (hs : s.handle l = some s') : pm.Rests s' := by
  have hstep := Step.of_step (system_step hbug hs)
  obtain ⟨hstop, hpark⟩ := flags_step hstep hl
  have hparked : s.pc = .parked ∧ s.shouldPark = true → s'.pc = .parked ∧ s'.shouldPark = true := by
    rintro ⟨hpc, hflag⟩
    have hw : l ≠ .worker := by
      rintro rfl
      rw [worker_of_parked hpc hflag] at hs
      cases hs
    have hsame := pc_other_of_awake hstep hw (by rw [hpc]; decide)
    exact ⟨hsame.trans hpc, hpark.trans hflag⟩
  cases pm with
  | suspended => exact hparked h
  | removeIntr off =>
    cases off with
    | false => exact trivial
    | true => exact hparked h
  | removeStop off =>
    cases off with
    | false => exact trivial
    | true =>
      obtain ⟨hpc, hflag⟩ := h
      refine ⟨?_, hstop.trans hflag⟩
      by_cases hw : l = .worker
      · rw [hw] at hs
        obtain ⟨pc, hleave, rfl⟩ := worker_of_leaving hpc hflag hs
        exact hleave
      · rw [pc_other_of_awake hstep hw fun hasleep => by rw [hasleep] at hpc; cases hpc]
        exact hpc
  | removed =>
    have hpc : s.pc = .exited := h
    have hw : l ≠ .worker := by
      rintro rfl
      rw [worker_of_exited hpc] at hs
      cases hs
    exact (pc_other_of_awake hstep hw (by rw [hpc]; decide)).trans hpc
  | running | suspendIntr | suspendPark | resumeUnparked | resumeIntr => exact trivial

theorem wakeWorker_pc (hpc : s.pc ≠ .asleep) : s.wakeWorker.pc = s.pc := if_neg hpc

/-- A worker that parks has been told to. -/
theorem rests_step {l : PowerLabel} (hrests : x.pm.Rests x.sys) (hbug : x.sys.bug = none)
    (hpark : x.pm = .suspendPark → x.sys.shouldPark = true) (hs : PowerStep x l y) :
    y.pm.Rests y.sys := by
  cases hs with
  | sys l t hl ht => exact hrests.step hbug hl ht
  | seedRefused | seed => exact hrests
  | suspendIntr | suspendPark | resumeUnpark | resumeIntr | resumeOn | removeRunning => trivial
  | suspendOff hpm hpc => exact ⟨hpc, hpark hpm⟩
  | removeSuspended hpm =>
    rw [hpm] at hrests
    exact hrests
  | removeStop off hpm =>
    cases off with
    | false => trivial
    | true =>
      rw [hpm] at hrests
      obtain ⟨hpc, -⟩ := hrests
      refine ⟨?_, rfl⟩
      have hpc' : ({ x.sys with shouldStop := true, shouldPark := false } : State).pc = .parked :=
        hpc
      dsimp only
      rw [wakeWorker_pc (by rw [hpc']; decide), hpc']
      rfl
  | removeOff off hpm hpc => exact hpc

theorem shouldPark_step {l : PowerLabel} (h : x.pm = .suspendPark → x.sys.shouldPark = true)
    (hbug : x.sys.bug = none) (hs : PowerStep x l y) :
    y.pm = .suspendPark → y.sys.shouldPark = true := by
  intro hy
  cases hs with
  | sys l t hl ht =>
    exact (flags_step (Step.of_step (system_step hbug ht)) hl).2.trans (h hy)
  | seedRefused | seed => exact h hy
  | suspendPark => rfl
  | suspendIntr | suspendOff | resumeUnpark | resumeIntr | resumeOn | removeRunning
  | removeSuspended | removeStop | removeOff => cases hy

/-! ## Whole runs -/

/-- What holds of the calls and the registers in every state. -/
structure PowerInv (x : PowerState) : Prop where
  view : Reachable x.view
  intr : x.sys.intrEnable = x.pm.intrOn
  enable : x.regs.enable = x.pm.deviceOn
  armed : x.regs.Armed x.sys
  seed : x.regs.SeedValid
  told : x.pm = .suspendPark → x.sys.shouldPark = true
  rests : x.pm.Rests x.sys

theorem PowerInv.start : PowerInv powerSystem.init := by
  refine ⟨.init, rfl, rfl, fun hne => absurd ?_ hne, fun v hv => ?_, fun hpm => ?_, trivial⟩
  · decide
  · cases hv
  · cases hpm

theorem PowerInv.devFailed (h : PowerInv x) : x.sys.devFailed = false :=
  (devFailed_view x).symm.trans (devFailed_false h.view)

theorem PowerInv.amounts {l : PowerLabel} (h : PowerInv x) (hs : powerSystem.step x l = some y) :
    Amounts x y := by
  obtain ⟨hbug, hstep⟩ := PowerStep.of_step hs
  exact amounts_step h.devFailed h.intr hbug hstep

theorem PowerInv.step {l : PowerLabel} (h : PowerInv x) (hs : powerSystem.step x l = some y) :
    PowerInv y := by
  obtain ⟨hbug, hstep⟩ := PowerStep.of_step hs
  obtain ⟨harmed, hseed⟩ := registers_step h.armed h.seed hbug hstep
  refine ⟨?_, intr_step h.devFailed h.intr hbug hstep, enable_step h.devFailed h.enable hstep,
    harmed, hseed, shouldPark_step h.told hbug hstep, rests_step h.rests hbug h.told hstep⟩
  rcases h.amounts hs with hsame | ⟨l', hmove⟩
  · exact hsame ▸ h.view
  · exact h.view.step hmove

theorem powerInv_reachable (h : powerSystem.Reachable x) : PowerInv x :=
  h.invariant PowerInv.start fun _ _ _ hI hs => hI.step hs

/-- Suspending, resuming and removing may be taken as one step each. Whatever comes between their
register writes, the state stands for a reachable state of the system, which differs in
`INTR_ENABLE` at most, and every step is a step there or changes nothing. -/
theorem power_refined (h : powerSystem.Reachable x) :
    Reachable x.view ∧ ∀ l y, powerSystem.step x l = some y →
      y.view = x.view ∨ ∃ l', system.step x.view l' = some y.view :=
  ⟨(powerInv_reachable h).view, fun _ _ hs => (powerInv_reachable h).amounts hs⟩

theorem exists_seenPower {α : Type} {ls : List PowerLabel} {f : PowerState → α} {r : α}
    (h : (powerSystem.exec powerSystem.init ls).map f = some r) :
    ∃ x, powerSystem.Reachable x ∧ f x = r := by
  obtain ⟨x, hx, hr⟩ := Option.map_eq_some_iff.mp h
  exact ⟨x, Machine.Reachable.exec (m := powerSystem) .init hx, hr⟩

/-- A fence is reached just after `dicedev_suspend` has disabled the interrupts: the handler comes
too late, and in the system it has not run yet. -/
theorem power_refined_late :
    ∃ x y, powerSystem.Reachable x ∧ x.view.intrEnable = true ∧ x.sys.intr.fenceWait = true ∧
      powerSystem.step x (.sys .isr) = some y ∧
      (y.view = x.view ∨ ∃ l', system.step x.view l' = some y.view) := by
  have hseen : (powerSystem.exec powerSystem.init
      ((openOne ++ writeCall 0 0 8 oneDie ++ workerSteps 12).map .sys ++
        [.suspendIntr, .sys .fenceInterrupt])).map
      (fun x => (x.view.intrEnable, x.sys.intr.fenceWait,
        (powerSystem.step x (.sys .isr)).isSome)) = some (true, true, true) := by
    decide +kernel
  obtain ⟨x, hr, hx⟩ := exists_seenPower hseen
  simp only [Prod.mk.injEq, Option.isSome_iff_exists] at hx
  obtain ⟨hintr, hfence, y, hy⟩ := hx
  exact ⟨x, y, hr, hintr, hfence, hy, (power_refined hr).2 _ _ hy⟩

/-- The worker feeds a device that is switched off inside `dicedev_resume` only. Every fence in the
stream has the value in `CMD_FENCE_WAIT`, so the device will report it, and `INCREMENT_SEED` has
one of its two values once it has been written. -/
theorem disabled_feeds (h : powerSystem.Reachable x) :
    (∀ t, x.regs.enable = false → system.step x.sys .worker = some t → t.stream ≠ x.sys.stream →
      x.pm = .resumeUnparked ∨ x.pm = .resumeIntr) ∧
    (∀ f ∈ x.sys.stream, ∀ t, f.origin = .fence t →
      f.words = [userCmdFenceHeader x.regs.fenceWait]) ∧
    ∀ v, x.regs.incrementSeed = some v → v = 0 ∨ v = 1 := by
  have hinv := powerInv_reachable h
  refine ⟨fun t hoff hs hfeed => ?_, fun f hf t ho => ?_, fun v hv => hinv.seed v hv⟩
  · have hrests := hinv.rests
    have hon := hinv.enable.symm.trans hoff
    have hw := handle_of_step hs
    have hparked : x.sys.pc = .parked ∧ x.sys.shouldPark = true → False := by
      rintro ⟨hpc, hpark⟩
      rw [worker_of_parked hpc hpark] at hw
      cases hw
    cases hpm : x.pm with
    | resumeUnparked => exact Or.inl rfl
    | resumeIntr => exact Or.inr rfl
    | running | suspendIntr | suspendPark =>
      rw [hpm] at hon
      cases hon
    | suspended =>
      rw [hpm] at hrests
      exact (hparked hrests).elim
    | removeIntr off =>
      rw [hpm] at hon hrests
      cases off with
      | false => cases hon
      | true => exact (hparked hrests).elim
    | removeStop off =>
      rw [hpm] at hon hrests
      cases off with
      | false => cases hon
      | true =>
        obtain ⟨pc, -, rfl⟩ := worker_of_leaving hrests.1 hrests.2 hw
        exact absurd rfl hfeed
    | removed =>
      rw [hpm] at hrests
      rw [worker_of_exited hrests] at hw
      cases hw
  · have hstream : x.view.stream = x.sys.stream := by
      unfold PowerState.view
      split <;> rfl
    have hne : x.sys.fences ≠ [] :=
      List.ne_nil_of_mem (List.mem_filterMap.mpr ⟨f, hf, by rw [Fed.fence?, ho]⟩)
    rw [hinv.armed hne]
    cases shaped_reachable hinv.view (hstream ▸ hf) with
    | fence u => rfl
    | probe | bind | unbind | getDie | newSet => cases ho

/-- The driver is resumed with a write in its queue, and the buffer is bound before the device is
on. -/
theorem disabled_feeds_resume :
    ∃ x t, powerSystem.Reachable x ∧ x.regs.enable = false ∧
      system.step x.sys .worker = some t ∧ t.stream ≠ x.sys.stream ∧
      (x.pm = .resumeUnparked ∨ x.pm = .resumeIntr) := by
  have hseen : (powerSystem.exec powerSystem.init
      ((openOne ++ writeCall 0 0 8 oneDie).map .sys ++ [.suspendIntr, .suspendPark] ++
        (workerSteps 2).map .sys ++ [.suspendOff, .resumeUnpark] ++
        (workerSteps 6).map .sys)).map
      (fun x => (x.regs.enable, (system.step x.sys .worker).any fun t =>
        decide (t.stream ≠ x.sys.stream))) = some (false, true) := by
    decide +kernel
  obtain ⟨x, hr, hx⟩ := exists_seenPower hseen
  simp only [Prod.mk.injEq, Option.any_eq_true, decide_eq_true_eq] at hx
  obtain ⟨hoff, t, ht, hfeed⟩ := hx
  exact ⟨x, t, hr, hoff, ht, hfeed, (disabled_feeds hr).1 t hoff ht hfeed⟩

end Dicedev
