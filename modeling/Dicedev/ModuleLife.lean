import Dicedev.PciCore

/-!
# Loading and unloading the module

`dicedev_init` and `dicedev_exit` around the machine of the devices. The module registers its
device numbers, its class and its PCI driver; while the driver is registered the PCI core probes
and removes devices; `pci_unregister_driver` removes the devices that are left.

`lifeSystem` writes down everything that is acquired and released in the order in which it
happens. While every failure of a probe is handled, nothing in this ledger is acquired twice or
released without being held, a device holds all of its resources or none of them, and a module
that is not loaded holds nothing: `module_ledger`.
-/

namespace Dicedev

open Ledger

/-- What `dicedev_init` acquires. -/
inductive ModObj
  /-- The device numbers of `alloc_chrdev_region`. -/
  | chrdevRegion
  /-- `dicedev_class`. -/
  | chrdevClass
  /-- `dicedev_pci_driver`. -/
  | pciDriver
  deriving DecidableEq, Repr

/-- The answers of the kernel to `dicedev_init`. -/
structure InitEnv where
  chrdevRegion : KernelRet
  chrdevClass : KernelRet
  pciDriver : KernelRet

/-- `dicedev_init`: what it returns and what it does. -/
def dicedevInit (env : InitEnv) : Int × List (Entry ModObj) :=
  if env.chrdevRegion.1 ≠ 0 then (env.chrdevRegion.1, [])
  else if env.chrdevClass.1 ≠ 0 then
    (env.chrdevClass.1, [.acquire .chrdevRegion, .release .chrdevRegion])
  else if env.pciDriver.1 ≠ 0 then
    (env.pciDriver.1, [.acquire .chrdevRegion, .acquire .chrdevClass, .release .chrdevClass,
      .release .chrdevRegion])
  else (0, [.acquire .chrdevRegion, .acquire .chrdevClass, .acquire .pciDriver])

/-- What `dicedev_exit` releases, once the devices are removed. -/
def dicedevExit : List ModObj := [.pciDriver, .chrdevClass, .chrdevRegion]

/-- Everything the driver acquires: for itself, and for the device at an address. -/
inductive Res
  | driver (o : ModObj)
  | device (p : DevAddr) (o : ProbeObj)
  deriving DecidableEq, Repr

inductive ModPhase
  | unloaded
  | loaded
  /-- Inside `pci_unregister_driver`. -/
  | going
  deriving DecidableEq, Repr

/-- The module, the devices, and the ledger from the start. -/
structure LifeState where
  phase : ModPhase
  pci : PciState
  /-- The devices that are bound to the driver, as the PCI core lists them. -/
  bound : List PdevId
  log : List (Entry Res)

/-- The steps of the module and of its devices. -/
inductive LifeLabel
  | init (env : InitEnv)
  | pci (l : PciLabel)
  | exitBegin
  | exitEnd

namespace PciState

/-- What a step of the driver acquires and releases. -/
def entries (s : PciState) : PciLabel → List (Entry Res)
  | .probe pdev env => (s.dicedevProbe pdev env).log.map (Entry.map (.device env.addr))
  | .removeEnd pdev =>
    match s.drvdata pdev with
    | none => []
    | some p =>
      match s.heap p with
      | none => []
      | some d => (removeObjs d).map fun o => .release (.device p o)
  | .removeBegin _ => []
  | .sys _ _ => []

/-- The list of bound devices after a step of the driver. -/
def bindings (s : PciState) (bound : List PdevId) : PciLabel → List PdevId
  | .probe pdev env => if (s.dicedevProbe pdev env).ret = 0 then pdev :: bound else bound
  | .removeEnd pdev => bound.erase pdev
  | .removeBegin _ => bound
  | .sys _ _ => bound

end PciState

/-- A driver that is being unregistered is no longer offered devices. -/
def LifeState.offers (x : LifeState) : PciLabel → Bool
  | .probe _ _ => x.phase = .loaded
  | .removeBegin _ => x.phase ≠ .unloaded
  | .removeEnd _ => x.phase ≠ .unloaded
  | .sys _ _ => x.phase ≠ .unloaded

def LifeState.step (x : LifeState) : LifeLabel → Option LifeState
  | .init env =>
    if x.phase = .unloaded then
      let (ret, log) := dicedevInit env
      some { x with
        phase := if ret = 0 then .loaded else .unloaded
        -- `dicedev_devices` of the module that is loaded now
        pci := { x.pci with devices := fun _ => none }
        log := x.log ++ log.map (Entry.map .driver) }
    else none
  | .pci l =>
    if x.offers l then
      (pciCore.step x.pci l).map fun t =>
        { x with
          pci := t
          bound := x.pci.bindings x.bound l
          log := x.log ++ x.pci.entries l }
    else none
  | .exitBegin => if x.phase = .loaded then some { x with phase := .going } else none
  | .exitEnd =>
    if x.phase = .going ∧ x.bound = [] then
      some { x with
        phase := .unloaded
        log := x.log ++ dicedevExit.map fun o => .release (.driver o) }
    else none

/-- The module before it is loaded for the first time. -/
def lifeSystem : Machine LifeState LifeLabel :=
  ⟨⟨.unloaded, pciCore.init, [], []⟩, LifeState.step⟩

/-- No probe fails in a way that is not handled. -/
def CleanLife (x : LifeState) : LifeLabel → Prop
  | .pci l => CleanProbe x.pci l
  | .init _ => True
  | .exitBegin => True
  | .exitEnd => True

open PciState

variable {s t : PciState} {p : DevAddr} {d : Device} {env : ProbeEnv} {pdev : PdevId}
  {x y : LifeState} {bound : List PdevId}

/-- What is held while the module is in this phase: a device that has a structure has everything. -/
def heldBy (phase : ModPhase) (s : PciState) : Res → Bool
  | .driver _ => phase ≠ .unloaded
  | .device p _ => (s.heap p).isSome

/-! ## The calls -/

/-- `dicedev_init` returns zero and has everything, or fails and leaves nothing behind. -/
theorem dicedevInit_cases (env : InitEnv) :
    ((dicedevInit env).1 ≠ 0 ∧ Settled (dicedevInit env).2) ∨
      dicedevInit env =
        (0, [ModObj.chrdevRegion, .chrdevClass, .pciDriver].map .acquire) := by
  have hregion : Undone [.acquire ModObj.chrdevRegion, .release .chrdevRegion] [.chrdevRegion] :=
    Undone.nil.wrap (by simp)
  have hclass : Undone [.acquire ModObj.chrdevClass, .release .chrdevClass] [.chrdevClass] :=
    Undone.nil.wrap (by simp)
  unfold dicedevInit
  split
  · rename_i h
    exact Or.inl ⟨h, Undone.nil.settled⟩
  · split
    · rename_i h
      exact Or.inl ⟨h, hregion.settled⟩
    · split
      · rename_i h
        exact Or.inl ⟨h, (hclass.wrap (x := ModObj.chrdevRegion) (by decide)).settled⟩
      · exact Or.inr rfl

theorem driver_injective : Function.Injective Res.driver := fun _ _ h => Res.driver.inj h

theorem device_injective (p : DevAddr) : Function.Injective (Res.device p) :=
  fun _ _ h => (Res.device.inj h).2

/-- The resources of a device are acquired together. -/
theorem balance_probe (phase : ModPhase) {objs : List ProbeObj} (hp : s.heap p = none)
    (hnodup : objs.Nodup) (hall : ∀ o, o ∈ objs)
    (hheap : t.heap = Function.update s.heap p (some d)) :
    balance (heldBy phase s) ((objs.map (Res.device p)).map .acquire) = some (heldBy phase t) := by
  rw [balance_acquires (hnodup.map (device_injective p))]
  · refine congrArg some (funext fun r => ?_)
    cases r with
    | driver o => simp [heldBy]
    | device q o =>
      by_cases hqp : q = p <;> simp [heldBy, hheap, hqp, hall]
      exact fun h => absurd h.symm hqp
  · intro r hr
    obtain ⟨o, -, rfl⟩ := List.mem_map.mp hr
    simp [heldBy, hp]

/-- The resources of a device are released together. -/
theorem balance_remove (phase : ModPhase) {objs : List ProbeObj} (hp : s.heap p = some d)
    (hnodup : objs.Nodup) (hall : ∀ o, o ∈ objs) (hheap : t.heap = Function.update s.heap p none) :
    balance (heldBy phase s) ((objs.map (Res.device p)).map .release) = some (heldBy phase t) := by
  rw [balance_releases (hnodup.map (device_injective p))]
  · refine congrArg some (funext fun r => ?_)
    cases r with
    | driver o => simp [heldBy]
    | device q o =>
      by_cases hqp : q = p <;> simp [heldBy, hheap, hqp, hall]
      exact fun _ h => absurd h.symm hqp
  · intro r hr
    obtain ⟨o, -, rfl⟩ := List.mem_map.mp hr
    simp [heldBy, hp]

/-- All devices have been probed without a failure. -/
def Whole (s : PciState) : Prop := ∀ p d, s.heap p = some d → d.node = true

/-- What a step does while every failure of a probe is handled. -/
inductive PciMoves (s t : PciState) : PciLabel → Prop
  | refused (pdev : PdevId) (env : ProbeEnv) (hp : s.heap env.addr = none)
      (hret : (s.dicedevProbe pdev env).ret ≠ 0)
      (hlog : Settled (s.dicedevProbe pdev env).log) (ht : t = s) :
      PciMoves s t (.probe pdev env)
  | probed (pdev : PdevId) (env : ProbeEnv) (i : DevIdx) (hp : s.heap env.addr = none)
      (hpdev : s.drvdata pdev = none) (hret : (s.dicedevProbe pdev env).ret = 0)
      (hlog : (s.dicedevProbe pdev env).log =
        (hardwareObjs ++ [ProbeObj.thread] ++ [ProbeObj.cdev, .node]).map .acquire)
      (ht : t = (s.taken env.addr i ⟨i, true, true, State.probed⟩).bind pdev env.addr 0) :
      PciMoves s t (.probe pdev env)
  | removed (pdev : PdevId) (p : DevAddr) (d : Device) (hpdev : s.drvdata pdev = some p)
      (hd : s.heap p = some d)
      (ht : t = { s with
        devices := Function.update s.devices d.idx none
        heap := Function.update s.heap p none
        drvdata := Function.update s.drvdata pdev none }) :
      PciMoves s t (.removeEnd pdev)
  | moved (l : PciLabel) (p : DevAddr) (d : Device) (st : State) (hd : s.heap p = some d)
      (hlog : s.entries l = []) (hbound : ∀ bound, s.bindings bound l = bound)
      (ht : t = s.updDev p fun d => { d with state := st }) : PciMoves s t l

theorem PciMoves.of_probe (hp : s.heap env.addr = none) (hpdev : s.drvdata pdev = none)
    (hclean : ¬ env.Unhandled s.freeIndex) (ht : t = (s.dicedevProbe pdev env).state) :
    PciMoves s t (.probe pdev env) := by
  by_cases hs : env.Succeeds s.freeIndex
  · obtain ⟨ret, log, hend, heq⟩ := probe_end s pdev env
    obtain ⟨i, hi⟩ := Option.ne_none_iff_exists'.mp hs.index
    obtain ⟨rfl, rfl⟩ := hend.succeeds hs
    have hworker : env.worker = [.thread] := by
      rw [ProbeEnv.worker, hs.thread]
      rfl
    refine .probed pdev env i hp hpdev (by rw [heq]) (by rw [heq, hworker]) ?_
    rw [ht, heq, foldl_done hi, hs.thread]
  · obtain ⟨hret, hlog, hstate⟩ := (probe_undone_iff pdev hp).mpr hclean hs
    exact .refused pdev env hp (Int.ne_of_lt hret) hlog (ht.trans hstate)

theorem PciMoves.of_devStep {l : PciLabel} {a : Label} (hd : s.heap p = some d)
    (hs : (system.step d.state a).map (fun st => s.updDev p fun d => { d with state := st }) =
      some t)
    (hlog : s.entries l = []) (hbound : ∀ bound, s.bindings bound l = bound) :
    PciMoves s t l := by
  obtain ⟨st, -, rfl⟩ := Option.map_eq_some_iff.mp hs
  exact .moved l p d st hd hlog hbound rfl

theorem PciMoves.of_step {l : PciLabel} (h : PciInv s) (hclean : CleanProbe s l)
    (hs : pciCore.step s l = some t) : PciMoves s t l := by
  change PciState.step s l = some t at hs
  unfold PciState.step at hs
  rw [h.oops, if_neg Bool.false_ne_true] at hs
  cases l with
  | probe pdev env =>
    dsimp only at hs
    split at hs
    · rename_i hguard
      exact .of_probe hguard.2 hguard.1 hclean (Option.some.inj hs).symm
    · cases hs
  | removeBegin pdev =>
    dsimp only [PciState.removeBegin] at hs
    split at hs
    · cases hs
    · rename_i p hpdev
      split at hs
      · rename_i hp
        exact absurd hp ((h.live p).mp ⟨pdev, hpdev⟩)
      · rename_i d hd
        rw [if_pos (h.running p d hd).1] at hs
        exact .of_devStep hd hs rfl fun _ => rfl
  | removeEnd pdev =>
    dsimp only [PciState.removeEnd] at hs
    split at hs
    · cases hs
    · rename_i p hpdev
      split at hs
      · cases hs
      · rename_i d hd
        split at hs
        · obtain rfl := Option.some.inj hs
          exact .removed pdev p d hpdev hd (by rw [foldl_removeObjs hd])
        · cases hs
  | sys p l =>
    dsimp only at hs
    unfold PciState.sysStep at hs
    split at hs
    · cases hs
    · split at hs
      · cases hs
      · rename_i d hd
        rw [if_pos (h.running p d hd).1] at hs
        exact .of_devStep hd hs rfl fun _ => rfl

/-! ## The ledger -/

/-- What holds of the module while every failure of a probe is handled. -/
structure LifeInv (x : LifeState) : Prop where
  pci : PciInv x.pci
  whole : Whole x.pci
  bound : ∀ pdev, pdev ∈ x.bound ↔ x.pci.drvdata pdev ≠ none
  nodup : x.bound.Nodup
  empty : x.phase = .unloaded → ∀ p, x.pci.heap p = none
  held : balance (fun _ => false) x.log = some (heldBy x.phase x.pci)

theorem LifeInv.start : LifeInv lifeSystem.init := by
  refine ⟨PciInv.init, fun p d hd => ?_, fun pdev => ?_, List.nodup_nil, fun _ p => rfl, ?_⟩
  · cases hd
  · exact ⟨fun h => absurd h List.not_mem_nil, fun h => absurd rfl h⟩
  · refine congrArg some (funext fun r => ?_)
    cases r <;> rfl

/-- The ledger of a step, after the ledger so far. -/
theorem LifeInv.balance_step (h : LifeInv x) {log : List (Entry Res)} {held : Res → Bool}
    (hlog : balance (heldBy x.phase x.pci) log = some held) :
    balance (fun _ => false) (x.log ++ log) = some held := by
  rw [balance_append, h.held, Option.bind_some, hlog]

theorem heldBy_updDev {phase : ModPhase} {st : State} :
    heldBy phase (s.updDev p fun d => { d with state := st }) = heldBy phase s := by
  funext r
  cases r with
  | driver o => rfl
  | device q o =>
    by_cases hqp : q = p <;> simp [heldBy, updDev, hqp]

/-- A settled call of the driver leaves what is held as it is. -/
theorem balance_settled {phase : ModPhase} {log : List (Entry ProbeObj)} (hp : s.heap p = none)
    (h : Settled log) :
    balance (heldBy phase s) (log.map (Entry.map (.device p))) = some (heldBy phase s) := by
  refine (h.map (device_injective p)).balance fun r hr => ?_
  rw [acquired_map] at hr
  obtain ⟨o, -, rfl⟩ := List.mem_map.mp hr
  simp [heldBy, hp]

/-- The ledger after a step of the driver. -/
theorem balance_moves {phase : ModPhase} {l : PciLabel} (hm : PciMoves s t l)
    (hwhole : Whole s) :
    balance (heldBy phase s) (s.entries l) = some (heldBy phase t) := by
  cases hm with
  | refused pdev env hp hret hlog ht =>
    rw [ht]
    exact balance_settled hp hlog
  | probed pdev env i hp hpdev hret hlog ht =>
    rw [ht, PciState.entries, hlog, List.map_map]
    have hall : ∀ o, o ∈ hardwareObjs ++ [ProbeObj.thread] ++ [ProbeObj.cdev, .node] := by
      intro o
      cases o <;> decide
    have hbalance := balance_probe phase hp (by decide) hall
      (t := (s.taken env.addr i ⟨i, true, true, State.probed⟩).bind pdev env.addr 0) rfl
    rw [List.map_map] at hbalance
    exact hbalance
  | removed pdev p d hpdev hd ht =>
    have hobjs : removeObjs d = [.node, .cdev, .thread, .irq, .mapping, .regions, .pciEnable,
        .index, .device] := by
      rw [removeObjs, hwhole p d hd]
      rfl
    have hall : ∀ o, o ∈ removeObjs d := by
      intro o
      rw [hobjs]
      cases o <;> decide
    have hbalance := balance_remove phase (t := t) hd (by rw [hobjs]; decide) hall
      (by rw [ht])
    rw [List.map_map] at hbalance
    simp only [PciState.entries, hpdev, hd]
    exact hbalance
  | moved l p d st hd hlog hbound ht =>
    rw [hlog, ht, heldBy_updDev]
    rfl

/-- The list of the PCI core after a step of the driver. -/
theorem bindings_moves {l : PciLabel} (hm : PciMoves s t l) (hnodup : bound.Nodup)
    (hbound : ∀ a, a ∈ bound ↔ s.drvdata a ≠ none) :
    (s.bindings bound l).Nodup ∧ ∀ a, a ∈ s.bindings bound l ↔ t.drvdata a ≠ none := by
  cases hm with
  | refused pdev env hp hret hlog ht =>
    rw [PciState.bindings, if_neg hret, ht]
    exact ⟨hnodup, hbound⟩
  | probed pdev env i hp hpdev hret hlog ht =>
    rw [PciState.bindings, if_pos hret]
    have hnew : pdev ∉ bound := fun hmem => (hbound pdev).mp hmem hpdev
    refine ⟨List.nodup_cons.mpr ⟨hnew, hnodup⟩, fun a => ?_⟩
    have hdrv : t.drvdata = Function.update s.drvdata pdev (some env.addr) := by
      rw [ht]
      rfl
    rw [hdrv, List.mem_cons, Function.update_apply, hbound a]
    split <;> simp [*]
  | removed pdev p d hpdev hd ht =>
    refine ⟨hnodup.erase pdev, fun a => ?_⟩
    rw [PciState.bindings, hnodup.mem_erase_iff, hbound a, ht]
    dsimp only
    rw [Function.update_apply]
    split <;> simp [*]
  | moved l p d st hd hlog hb ht =>
    rw [hb, ht]
    exact ⟨hnodup, hbound⟩

theorem whole_moves {l : PciLabel} (hm : PciMoves s t l) (hwhole : Whole s) : Whole t := by
  intro q d' hd'
  cases hm with
  | refused pdev env hp hret hlog ht =>
    rw [ht] at hd'
    exact hwhole q d' hd'
  | probed pdev env i hp hpdev hret hlog ht =>
    rw [ht] at hd'
    change Function.update s.heap env.addr (some _) q = some d' at hd'
    rw [Function.update_apply] at hd'
    split at hd'
    · obtain rfl := Option.some.inj hd'
      rfl
    · exact hwhole q d' hd'
  | removed pdev p d hpdev hd ht =>
    rw [ht] at hd'
    change Function.update s.heap p none q = some d' at hd'
    rw [Function.update_apply] at hd'
    split at hd'
    · cases hd'
    · exact hwhole q d' hd'
  | moved l p d st hd hlog hb ht =>
    rw [ht] at hd'
    change Function.update s.heap p ((s.heap p).map _) q = some d' at hd'
    rw [Function.update_apply, hd] at hd'
    split at hd'
    · obtain rfl := Option.some.inj hd'
      exact hwhole p d hd
    · exact hwhole q d' hd'

/-- Without devices the table is empty. -/
theorem PciInv.devices_of_empty (h : PciInv s) (hempty : ∀ p, s.heap p = none) :
    { s with devices := fun _ => none } = s := by
  have htable : s.devices = fun _ => none := by
    funext i
    cases hi : s.devices i with
    | none => rfl
    | some p =>
      have hidx := (h.entry i p).mp hi
      rw [idxOf, hempty p] at hidx
      cases hidx
  rw [← htable]

/-- Loading the module: it has everything afterwards, or it has failed. -/
theorem balance_init {env : InitEnv} (hempty : ∀ p, s.heap p = none) :
    balance (heldBy .unloaded s) ((dicedevInit env).2.map (Entry.map .driver)) =
      some (heldBy (if (dicedevInit env).1 = 0 then .loaded else .unloaded) s) := by
  rcases dicedevInit_cases env with ⟨hret, hlog⟩ | hdone
  · rw [if_neg hret]
    refine (hlog.map driver_injective).balance fun r hr => ?_
    rw [acquired_map] at hr
    obtain ⟨o, -, rfl⟩ := List.mem_map.mp hr
    rfl
  · rw [hdone, if_pos rfl, List.map_map]
    have hlog : [ModObj.chrdevRegion, .chrdevClass, .pciDriver].map
        (Entry.map Res.driver ∘ Entry.acquire) =
        ([ModObj.chrdevRegion, .chrdevClass, .pciDriver].map Res.driver).map .acquire := rfl
    rw [hlog, balance_acquires (by decide)]
    · refine congrArg some (funext fun r => ?_)
      cases r with
      | driver o => cases o <;> simp [heldBy]
      | device p o => simp [heldBy, hempty p]
    · intro r hr
      obtain ⟨o, -, rfl⟩ := List.mem_map.mp hr
      rfl

/-- Unloading the module gives back the rest. -/
theorem balance_exit {phase : ModPhase} (hphase : phase ≠ .unloaded)
    (hempty : ∀ p, s.heap p = none) :
    balance (heldBy phase s) (dicedevExit.map fun o => .release (.driver o)) =
      some (heldBy .unloaded s) := by
  have hlog : (dicedevExit.map fun o => Entry.release (Res.driver o)) =
      (dicedevExit.map Res.driver).map .release := rfl
  rw [hlog, balance_releases (by decide)]
  · refine congrArg some (funext fun r => ?_)
    cases r with
    | driver o => cases o <;> simp [heldBy, dicedevExit]
    | device p o => simp [heldBy, hempty p]
  · intro r hr
    obtain ⟨o, -, rfl⟩ := List.mem_map.mp hr
    simp [heldBy, hphase]

/-- A driver without bound devices has no structures. -/
theorem LifeInv.heap_of_unbound (h : LifeInv x) (hbound : x.bound = []) (p : DevAddr) :
    x.pci.heap p = none := by
  by_contra hne
  obtain ⟨pdev, hpdev⟩ := (h.pci.live p).mpr hne
  have hmem : pdev ∈ x.bound := (h.bound pdev).mpr (by simp [hpdev])
  rw [hbound] at hmem
  exact absurd hmem List.not_mem_nil

theorem LifeInv.step {l : LifeLabel} (h : LifeInv x) (hclean : CleanLife x l)
    (hs : lifeSystem.step x l = some y) : LifeInv y := by
  change LifeState.step x l = some y at hs
  cases l with
  | init env =>
    dsimp only [LifeState.step] at hs
    split at hs
    · rename_i hphase
      obtain rfl := Option.some.inj hs
      have hempty := h.empty hphase
      rw [h.pci.devices_of_empty hempty]
      refine ⟨h.pci, h.whole, h.bound, h.nodup, fun _ => hempty, h.balance_step ?_⟩
      rw [hphase]
      exact balance_init hempty
    · cases hs
  | pci l =>
    dsimp only [LifeState.step] at hs
    split at hs
    · rename_i hoffer
      obtain ⟨t, ht, rfl⟩ := Option.map_eq_some_iff.mp hs
      have hm := PciMoves.of_step h.pci hclean ht
      obtain ⟨hnodup, hbound⟩ := bindings_moves hm h.nodup h.bound
      refine ⟨h.pci.step hclean ht, whole_moves hm h.whole, hbound, hnodup, fun hphase => ?_,
        h.balance_step (balance_moves hm h.whole)⟩
      -- a module that is not loaded has no devices that could take the step
      change x.phase = .unloaded at hphase
      cases l <;> simp [LifeState.offers, hphase] at hoffer
    · cases hs
  | exitBegin =>
    dsimp only [LifeState.step] at hs
    split at hs
    · rename_i hphase
      obtain rfl := Option.some.inj hs
      refine ⟨h.pci, h.whole, h.bound, h.nodup, fun hgone => ?_, ?_⟩
      · cases hgone
      · refine h.held.trans (congrArg some (funext fun r => ?_))
        cases r <;> simp [heldBy, hphase]
    · cases hs
  | exitEnd =>
    dsimp only [LifeState.step] at hs
    split at hs
    · rename_i hguard
      obtain rfl := Option.some.inj hs
      have hempty := h.heap_of_unbound hguard.2
      refine ⟨h.pci, h.whole, h.bound, h.nodup, fun _ => hempty, h.balance_step ?_⟩
      exact balance_exit (by simp [hguard.1]) hempty
    · cases hs

theorem lifeInv_reachable (h : lifeSystem.ReachableBy CleanLife x) : LifeInv x :=
  h.invariant LifeInv.start fun _ _ _ hI hclean hs => hI.step hclean hs

/-- Over the whole life of the module, with devices that come and go, nothing is acquired while it
is held or released while it is not. A device has all of its resources while it is bound and none
otherwise, and once the module is unloaded nothing is left. -/
theorem module_ledger (h : lifeSystem.ReachableBy CleanLife x) :
    ∃ held, balance (fun _ => false) x.log = some held ∧
      (∀ o, held (.driver o) = true ↔ x.phase ≠ .unloaded) ∧
      (∀ p o, held (.device p o) = true ↔ x.pci.Live p) ∧
      (x.phase = .unloaded → ∀ r, held r = false) := by
  have hinv := lifeInv_reachable h
  refine ⟨_, hinv.held, fun o => ?_, fun p o => ?_, fun hphase r => ?_⟩
  · simp [heldBy]
  · rw [hinv.pci.live p]
    exact Option.isSome_iff_ne_none
  · cases r with
    | driver o => simp [heldBy, hphase]
    | device p o => simp [heldBy, hinv.empty hphase p]

instance (env : ProbeEnv) (free : Option DevIdx) : Decidable (env.Running free) :=
  decidable_of_iff
    (env.alloc = true ∧ free ≠ none ∧ env.pciEnable.1 = 0 ∧ env.dmaMask.1 = 0 ∧
      env.regions.1 = 0 ∧ env.iomap = true ∧ env.irq.1 = 0)
    ⟨fun ⟨h₁, h₂, h₃, h₄, h₅, h₆, h₇⟩ => ⟨h₁, h₂, h₃, h₄, h₅, h₆, h₇⟩,
      fun ⟨h₁, h₂, h₃, h₄, h₅, h₆, h₇⟩ => ⟨h₁, h₂, h₃, h₄, h₅, h₆, h₇⟩⟩

instance (env : ProbeEnv) (free : Option DevIdx) : Decidable (env.Unhandled free) :=
  inferInstanceAs (Decidable (_ ∧ _))

instance (s : PciState) (l : PciLabel) : Decidable (CleanProbe s l) :=
  match l with
  | .probe _ env => inferInstanceAs (Decidable (¬ env.Unhandled s.freeIndex))
  | .removeBegin _ | .removeEnd _ | .sys _ _ => isTrue trivial

instance (x : LifeState) (l : LifeLabel) : Decidable (CleanLife x l) :=
  match l with
  | .pci l => inferInstanceAs (Decidable (CleanProbe x.pci l))
  | .init _ | .exitBegin | .exitEnd => isTrue trivial

/-- The module is loaded. A device does not get its interrupt, the next one is probed, and the
module is unloaded. -/
def loadAndUnload (env : InitEnv) : List LifeLabel :=
  [.init env, .pci (.probe 0 (answers 7 false true)), .pci (.probe 1 (answers 7 true true)),
    .exitBegin, .pci (.removeBegin 1), .pci (.sys 7 .worker), .pci (.sys 7 .worker),
    .pci (.removeEnd 1), .exitEnd]

/-- After a failed probe, a probe and a removal nothing is left. -/
theorem module_ledger_unload :
    ∃ x held, lifeSystem.ReachableBy CleanLife x ∧ x.phase = .unloaded ∧ x.log.length = 34 ∧
      balance (fun _ => false) x.log = some held ∧ ∀ r, held r = false := by
  have hseen : ((lifeSystem.guarded CleanLife).exec lifeSystem.init
      (loadAndUnload ⟨⟨0, Int.le_refl 0⟩, ⟨0, Int.le_refl 0⟩, ⟨0, Int.le_refl 0⟩⟩)).map
      (fun x => (x.phase, x.log.length)) = some (.unloaded, 34) := by
    decide +kernel
  obtain ⟨x, hx, hf⟩ := Option.map_eq_some_iff.mp hseen
  obtain ⟨hphase, hlen⟩ := Prod.mk.inj hf
  have hr : lifeSystem.ReachableBy CleanLife x :=
    Machine.ReachableBy.of_guarded (m := lifeSystem) .init hx
  obtain ⟨held, hheld, -, -, hnone⟩ := module_ledger hr
  exact ⟨x, held, hr, hphase, hlen, hheld, hnone hphase⟩

end Dicedev
