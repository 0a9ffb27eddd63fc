import Dicedev.Lib.SlotTable
import Dicedev.Probe

/-!
# The devices of the driver

The PCI core probes and removes devices in any order, and each device runs the system of
`System.lean` from its probe to its removal. `pciCore` is the machine of all of them.

While every failure of a probe is handled, the table `dicedev_devices` holds the live devices,
each at an index of its own. A failing `device_create` ends this: the probe returns zero, and the
PCI core keeps a device whose structure has been freed: `probe_leaves_nothing_iff`.
-/

namespace Dicedev

open Ledger

namespace PciState

/-- `dicedev_remove` up to the wait in `kthread_stop`. -/
def removeBegin (s : PciState) (pdev : PdevId) : Option PciState :=
  match s.drvdata pdev with
  | none => none
  | some p =>
    match s.heap p with
    | none => some { s with oops := true }
    | some d =>
      if d.thread then
        (system.step d.state .remove).map fun st => s.updDev p fun d => { d with state := st }
      else some { s with oops := true }

/-- The rest of `dicedev_remove`, once the worker has returned. -/
def removeEnd (s : PciState) (pdev : PdevId) : Option PciState :=
  match s.drvdata pdev with
  | none => none
  | some p =>
    match s.heap p with
    | none => none
    | some d =>
      if d.state.shouldStop ∧ d.state.pc = .exited then
        let t := ((removeObjs d).map .release).foldl (enact p) s
        some { t with drvdata := Function.update t.drvdata pdev none }
      else none

/-- Another step of the system of the device at `p`. -/
def sysStep (s : PciState) (p : DevAddr) : Label → Option PciState
  | .remove => none
  | l =>
    match s.heap p with
    | none => none
    | some d =>
      if d.thread then
        (system.step d.state l).map fun st => s.updDev p fun d => { d with state := st }
      else none

end PciState

/-- The steps of the driver and its devices. -/
inductive PciLabel
  | probe (pdev : PdevId) (env : ProbeEnv)
  | removeBegin (pdev : PdevId)
  | removeEnd (pdev : PdevId)
  | sys (p : DevAddr) (l : Label)

/-- A device is probed if it is not bound, and `kzalloc` returns memory that is not in use. -/
def PciState.step (s : PciState) (l : PciLabel) : Option PciState :=
  if s.oops then none
  else
    match l with
    | .probe pdev env =>
      if s.drvdata pdev = none ∧ s.heap env.addr = none then some (s.dicedevProbe pdev env).state
      else none
    | .removeBegin pdev => s.removeBegin pdev
    | .removeEnd pdev => s.removeEnd pdev
    | .sys p l => s.sysStep p l

/-- The driver after `dicedev_init`. -/
def pciCore : Machine PciState PciLabel :=
  ⟨⟨fun _ => none, fun _ => none, fun _ => none, false⟩, PciState.step⟩

namespace PciState

/-- The PCI core has bound a PCI device to the driver with this structure. -/
def Live (s : PciState) (p : DevAddr) : Prop := ∃ pdev, s.drvdata pdev = some p

/-- `dev->idx`. -/
def idxOf (s : PciState) (p : DevAddr) : Option DevIdx := (s.heap p).map Device.idx

end PciState

open PciState

variable {s t : PciState} {p : DevAddr} {i : DevIdx} {d : Device} {o : Option Device}
  {env : ProbeEnv} {pdev : PdevId}

/-! ## The table of devices -/

/-- The table holds the live devices, each at its index. -/
structure TableExact (s : PciState) : Prop where
  entry : ∀ i p, s.devices i = some p ↔ s.Live p ∧ s.idxOf p = some i
  indexed : ∀ p, s.Live p → ∃ i, s.idxOf p = some i

/-- What holds of the driver while every failure of a probe is handled. -/
structure PciInv (s : PciState) : Prop where
  entry : ∀ i p, s.devices i = some p ↔ s.idxOf p = some i
  live : ∀ p, s.Live p ↔ s.heap p ≠ none
  owner : ∀ a b p, s.drvdata a = some p → s.drvdata b = some p → a = b
  running : ∀ p d, s.heap p = some d → d.thread = true ∧ Reachable d.state
  oops : s.oops = false

theorem idxOf_of_heap (hd : s.heap p = some d) : s.idxOf p = some d.idx := by
  rw [idxOf, hd]
  rfl

theorem PciInv.tableExact (h : PciInv s) : TableExact s := by
  constructor
  · intro i p
    rw [h.entry i p, h.live p]
    refine ⟨fun hi => ⟨?_, hi⟩, fun hi => hi.2⟩
    intro hnone
    rw [idxOf, hnone] at hi
    cases hi
  · intro p hp
    obtain ⟨d, hd⟩ := Option.ne_none_iff_exists'.mp ((h.live p).mp hp)
    exact ⟨d.idx, idxOf_of_heap hd⟩

theorem PciInv.init : PciInv pciCore.init := by
  refine ⟨fun i p => ?_, fun p => ?_, fun a b p ha => ?_, fun p d hd => ?_, rfl⟩
  · exact ⟨nofun, nofun⟩
  · exact ⟨nofun, fun h => absurd rfl h⟩
  · cases ha
  · cases hd

theorem idxOf_update (hheap : t.heap = Function.update s.heap p o) :
    t.idxOf = Function.update s.idxOf p (o.map Device.idx) := by
  funext q
  rw [idxOf, hheap, Function.update_apply, Function.update_apply]
  split <;> rfl

/-- Binding or releasing one PCI device does not change who else is bound. -/
theorem exists_update_iff {f : PdevId → Option DevAddr} {q : DevAddr} {x : Option DevAddr}
    (hold : f pdev ≠ some q) (hnew : x ≠ some q) :
    (∃ a, Function.update f pdev x a = some q) ↔ ∃ a, f a = some q := by
  refine exists_congr fun a => ?_
  rw [Function.update_apply]
  split
  · rename_i hap
    rw [hap]
    exact ⟨fun h => absurd h hnew, fun h => absurd h hold⟩
  · rfl

/-- A device is probed. -/
theorem PciInv.take (h : PciInv s) (hp : s.heap p = none) (hfree : s.freeIndex = some i)
    (hpdev : s.drvdata pdev = none) :
    PciInv ((s.taken p i ⟨i, true, true, State.probed⟩).bind pdev p 0) := by
  have hnew : ∀ a, s.drvdata a ≠ some p := fun a ha => (h.live p).mp ⟨a, ha⟩ hp
  refine ⟨fun j q => ?_, fun q => ?_, fun a b q ha hb => ?_, fun q d hd => ?_, h.oops⟩
  · have hnone : s.idxOf p = none := by
      rw [idxOf, hp]
      rfl
    rw [idxOf_update (s := s) (p := p) (o := some ⟨i, true, true, State.probed⟩) rfl]
    exact SlotTable.mutual_bind h.entry (freeIndex_spec hfree) hnone j q
  · change (∃ a, Function.update s.drvdata pdev (some p) a = some q) ↔
      Function.update s.heap p (some _) q ≠ none
    by_cases hqp : q = p
    · subst hqp
      rw [Function.update_self]
      exact ⟨fun _ => by simp, fun _ => ⟨pdev, Function.update_self ..⟩⟩
    · rw [Function.update_of_ne hqp, ← h.live q]
      exact exists_update_iff (by simp [hpdev]) (by simpa using Ne.symm hqp)
  · change Function.update s.drvdata pdev (some p) a = some q at ha
    change Function.update s.drvdata pdev (some p) b = some q at hb
    rw [Function.update_apply] at ha hb
    split at ha
    · rename_i hap
      split at hb
      · rename_i hbp
        exact hap.trans hbp.symm
      · exact absurd (hb.trans ha.symm) (hnew b)
    · split at hb
      · exact absurd (ha.trans hb.symm) (hnew a)
      · exact h.owner a b q ha hb
  · change Function.update s.heap p (some _) q = some d at hd
    rw [Function.update_apply] at hd
    split at hd
    · obtain rfl := Option.some.inj hd
      exact ⟨rfl, .init⟩
    · exact h.running q d hd

theorem foldl_removeObjs (hd : s.heap p = some d) :
    ((removeObjs d).map .release).foldl (enact p) s =
      { s with
        devices := Function.update s.devices d.idx none
        heap := Function.update s.heap p none } := by
  unfold removeObjs
  cases d.node <;> simp [enact, PciState.release, hd]

/-- A device is removed. -/
theorem PciInv.drop (h : PciInv s) (hpdev : s.drvdata pdev = some p) (hd : s.heap p = some d) :
    PciInv
      { s with
        devices := Function.update s.devices d.idx none
        heap := Function.update s.heap p none
        drvdata := Function.update s.drvdata pdev none } := by
  refine ⟨fun j q => ?_, fun q => ?_, fun a b q ha hb => ?_, fun q d' hd' => ?_, h.oops⟩
  · rw [idxOf_update (s := s) (p := p) (o := none) rfl]
    exact SlotTable.mutual_unbind h.entry (idxOf_of_heap hd) j q
  · change (∃ a, Function.update s.drvdata pdev none a = some q) ↔
      Function.update s.heap p none q ≠ none
    by_cases hqp : q = p
    · subst hqp
      rw [Function.update_self]
      refine ⟨fun ⟨a, ha⟩ => ?_, fun hne => absurd rfl hne⟩
      rw [Function.update_apply] at ha
      split at ha
      · cases ha
      · rename_i hne
        exact absurd (h.owner a pdev q ha hpdev) hne
    · rw [Function.update_of_ne hqp, ← h.live q]
      exact exists_update_iff (by simpa [hpdev] using Ne.symm hqp) (by simp)
  · change Function.update s.drvdata pdev none a = some q at ha
    change Function.update s.drvdata pdev none b = some q at hb
    rw [Function.update_apply] at ha hb
    split at ha
    · cases ha
    · split at hb
      · cases hb
      · exact h.owner a b q ha hb
  · change Function.update s.heap p none q = some d' at hd'
    rw [Function.update_apply] at hd'
    split at hd'
    · cases hd'
    · exact h.running q d' hd'

/-- A device takes a step. -/
theorem PciInv.setState (h : PciInv s) (hd : s.heap p = some d) {st : State} (hst : Reachable st) :
    PciInv (s.updDev p fun d => { d with state := st }) := by
  have hheap : (s.updDev p fun d => { d with state := st }).heap =
      Function.update s.heap p (some { d with state := st }) := by
    rw [updDev, hd]
    rfl
  refine ⟨fun j q => ?_, fun q => ?_, h.owner, fun q d' hd' => ?_, h.oops⟩
  · rw [idxOf_update hheap]
    change _ ↔ Function.update s.idxOf p (some d.idx) q = _
    rw [← idxOf_of_heap hd, Function.update_eq_self]
    exact h.entry j q
  · rw [hheap, Function.update_apply]
    refine Iff.trans (h.live q) ?_
    split
    · rename_i hqp
      simp [hqp, hd]
    · rfl
  · rw [hheap, Function.update_apply] at hd'
    split at hd'
    · obtain rfl := Option.some.inj hd'
      exact ⟨(h.running p d hd).1, hst⟩
    · exact h.running q d' hd'

theorem PciInv.devStep (h : PciInv s) (hd : s.heap p = some d) {l : Label}
    (hs : (system.step d.state l).map (fun st => s.updDev p fun d => { d with state := st }) =
      some t) : PciInv t := by
  obtain ⟨st, hst, rfl⟩ := Option.map_eq_some_iff.mp hs
  exact h.setState hd ((h.running p d hd).2.step hst)

/-- No probe fails in a way that is not handled. -/
def CleanProbe (s : PciState) : PciLabel → Prop
  | .probe _ env => ¬ env.Unhandled s.freeIndex
  | .removeBegin _ => True
  | .removeEnd _ => True
  | .sys _ _ => True

/-- A probe whose failure is handled fails and changes nothing, or takes the first free index. -/
theorem probe_state_of_clean (pdev : PdevId) (hp : s.heap env.addr = none)
    (hclean : ¬ env.Unhandled s.freeIndex) :
    (s.dicedevProbe pdev env).ret < 0 ∧ (s.dicedevProbe pdev env).state = s ∨
      ∃ i, s.freeIndex = some i ∧ (s.dicedevProbe pdev env).ret = 0 ∧
        (s.dicedevProbe pdev env).state =
          (s.taken env.addr i ⟨i, true, true, State.probed⟩).bind pdev env.addr 0 := by
  by_cases hs : env.Succeeds s.freeIndex
  · obtain ⟨ret, log, hend, heq⟩ := probe_end s pdev env
    obtain ⟨i, hi⟩ := Option.ne_none_iff_exists'.mp hs.index
    obtain ⟨rfl, rfl⟩ := hend.succeeds hs
    rw [heq]
    refine Or.inr ⟨i, hi, rfl, ?_⟩
    rw [foldl_done hi, hs.thread]
  · obtain ⟨hret, -, hstate⟩ := (probe_undone_iff pdev hp).mpr hclean hs
    exact Or.inl ⟨hret, hstate⟩

theorem PciInv.step (h : PciInv s) {l : PciLabel} (hclean : CleanProbe s l)
    (hs : pciCore.step s l = some t) : PciInv t := by
  change PciState.step s l = some t at hs
  unfold PciState.step at hs
  rw [h.oops, if_neg Bool.false_ne_true] at hs
  cases l with
  | probe pdev env =>
    dsimp only at hs
    split at hs
    · rename_i hguard
      obtain rfl := Option.some.inj hs
      rcases probe_state_of_clean pdev hguard.2 hclean with ⟨-, hstate⟩ | ⟨i, hfree, -, hstate⟩
      · rw [hstate]
        exact h
      · rw [hstate]
        exact h.take hguard.2 hfree hguard.1
    · cases hs
  | removeBegin pdev =>
    dsimp only [PciState.removeBegin] at hs
    split at hs
    · cases hs
    · rename_i p hpdev
      split at hs
      · rename_i hp
        exact absurd hp ((h.live p).mp ⟨pdev, hpdev⟩)
      · rename_i d hd
        rw [if_pos (h.running p d hd).1] at hs
        exact h.devStep hd hs
  | removeEnd pdev =>
    dsimp only [PciState.removeEnd] at hs
    split at hs
    · cases hs
    · rename_i p hpdev
      split at hs
      · cases hs
      · rename_i d hd
        split at hs
        · obtain rfl := Option.some.inj hs
          rw [foldl_removeObjs hd]
          exact h.drop hpdev hd
        · cases hs
  | sys p l =>
    dsimp only at hs
    unfold PciState.sysStep at hs
    split at hs
    · cases hs
    · split at hs
      · cases hs
      · rename_i d hd
        rw [if_pos (h.running p d hd).1] at hs
        exact h.devStep hd hs

theorem pciInv_reachable (h : pciCore.ReachableBy CleanProbe s) : PciInv s :=
  h.invariant PciInv.init fun _ _ _ hI hclean hs => hI.step hclean hs

/-- Between its probe and its removal a device runs the system. -/
theorem live_reachable (h : pciCore.ReachableBy CleanProbe s) (hlive : s.Live p) :
    ∃ d, s.heap p = some d ∧ Reachable d.state := by
  have hinv := pciInv_reachable h
  obtain ⟨d, hd⟩ := Option.ne_none_iff_exists'.mp ((hinv.live p).mp hlive)
  exact ⟨d, hd, (hinv.running p d hd).2⟩

/-- A probe that returns zero has got an index that no other live device has. -/
def FreshIndex (s : PciState) (p : DevAddr) (r : ProbeResult) : Prop :=
  r.ret = 0 → ∃ i, r.state.idxOf p = some i ∧ r.state.devices i = some p ∧
    ∀ q, s.Live q → s.idxOf q ≠ some i

theorem PciInv.freshIndex (h : PciInv s) (hp : s.heap env.addr = none)
    (hclean : ¬ env.Unhandled s.freeIndex) :
    FreshIndex s env.addr (s.dicedevProbe pdev env) := by
  intro hret
  rcases probe_state_of_clean pdev hp hclean with ⟨hneg, -⟩ | ⟨i, hfree, -, hstate⟩
  · exact absurd hret (Int.ne_of_lt hneg)
  · rw [hstate]
    refine ⟨i, ?_, Function.update_self .., fun q _ hq => ?_⟩
    · rw [idxOf_update (s := s) (p := env.addr) (o := some ⟨i, true, true, State.probed⟩) rfl]
      exact Function.update_self ..
    · have hentry := (h.entry i q).mpr hq
      rw [freeIndex_spec hfree] at hentry
      cases hentry

/-- Where `device_create` fails the device is bound and has no structure. -/
theorem probe_noNode_state (pdev : PdevId) (hp : s.heap env.addr = none)
    (hrun : env.Running s.freeIndex) (hcdev : env.cdevAdd.1 = 0)
    (hnode : env.deviceCreate = false) :
    (s.dicedevProbe pdev env).ret = 0 ∧
      (s.dicedevProbe pdev env).state = s.bind pdev env.addr 0 := by
  obtain ⟨ret, log, hend, heq⟩ := probe_end s pdev env
  rw [heq, hend.restores hp (Or.inr hnode)]
  rcases hend.late hrun with ⟨hneg, -⟩ | ⟨-, -, rfl, -⟩ | ⟨-, -, rfl, -⟩
  · exact absurd hcdev (Int.ne_of_lt hneg)
  · exact ⟨rfl, rfl⟩
  · exact ⟨rfl, rfl⟩

/-- A probe that fails returns an error and leaves nothing behind exactly if its failure is
handled. As long as this is so of every probe, the table holds the live devices, each at an index
of its own; and it is no longer so after a probe whose `device_create` fails. -/
theorem probe_leaves_nothing_iff (s : PciState) (pdev : PdevId) (env : ProbeEnv)
    (hp : s.heap env.addr = none) :
    ((¬ env.Succeeds s.freeIndex → ProbeUndone s (s.dicedevProbe pdev env)) ↔
      ¬ env.Unhandled s.freeIndex) ∧
    (∀ t, pciCore.ReachableBy CleanProbe t → TableExact t ∧
      ∀ pdev env, t.heap env.addr = none → ¬ env.Unhandled t.freeIndex →
        FreshIndex t env.addr (t.dicedevProbe pdev env)) ∧
    (env.Running s.freeIndex → env.cdevAdd.1 = 0 → env.deviceCreate = false →
      ¬ TableExact (s.dicedevProbe pdev env).state ∧
        ¬ FreshIndex s env.addr (s.dicedevProbe pdev env)) := by
  refine ⟨probe_undone_iff pdev hp, fun t ht => ?_, fun hrun hcdev hnode => ?_⟩
  · have hinv := pciInv_reachable ht
    exact ⟨hinv.tableExact, fun pdev env hp hclean => hinv.freshIndex hp hclean⟩
  · obtain ⟨hret, hstate⟩ := probe_noNode_state pdev hp hrun hcdev hnode
    have hidx : (s.bind pdev env.addr 0).idxOf env.addr = none := by
      change (s.heap env.addr).map Device.idx = none
      rw [hp]
      rfl
    refine ⟨fun hexact => ?_, fun hfresh => ?_⟩
    · rw [hstate] at hexact
      obtain ⟨i, hi⟩ := hexact.indexed env.addr ⟨pdev, Function.update_self ..⟩
      rw [hidx] at hi
      cases hi
    · obtain ⟨i, hi, -⟩ := hfresh hret
      rw [hstate, hidx] at hi
      cases hi

/-- A kernel that gives the structure at `p` and everything else, but maybe not the interrupt
(`-EBUSY`) and not the device node. -/
def answers (p : DevAddr) (irq node : Bool) : ProbeEnv where
  alloc := true
  addr := p
  pciEnable := ⟨0, by decide⟩
  dmaMask := ⟨0, by decide⟩
  regions := ⟨0, by decide⟩
  iomap := true
  irq := if irq then ⟨0, by decide⟩ else ⟨-16, by decide⟩
  thread := true
  cdevAdd := ⟨0, by decide⟩
  deviceCreate := node

/-- The second device does not get its interrupt. -/
theorem probe_leaves_nothing_iff_irq :
    ∃ t, pciCore.ReachableBy CleanProbe t ∧ t.devices 0 = some 7 ∧ TableExact t ∧
      (t.dicedevProbe 1 (answers 8 false true)).ret = -16 ∧
      ProbeUndone t (t.dicedevProbe 1 (answers 8 false true)) := by
  have hclean : CleanProbe pciCore.init (.probe 0 (answers 7 true true)) := by
    rintro ⟨-, ⟨-, hcdev⟩ | ⟨hthread, -⟩ | ⟨-, hnode⟩⟩
    · exact hcdev rfl
    · cases hthread
    · cases hnode
  have hstep : pciCore.step pciCore.init (.probe 0 (answers 7 true true)) =
      some (pciCore.init.dicedevProbe 0 (answers 7 true true)).state := rfl
  have hreach := Machine.ReachableBy.init.step hclean hstep
  have hall := probe_leaves_nothing_iff (pciCore.init.dicedevProbe 0 (answers 7 true true)).state 1
    (answers 8 false true) rfl
  refine ⟨_, hreach, rfl, (hall.2.1 _ hreach).1, rfl, hall.1.mpr ?_ ?_⟩
  · exact fun hbad => absurd hbad.1.irq (by decide)
  · exact fun hs => absurd hs.irq (by decide)

/-- What a probe does whose `device_create` fails. -/
def nodeless : List (Entry ProbeObj) :=
  [.acquire .device, .acquire .index, .acquire .pciEnable, .acquire .regions, .acquire .mapping,
    .acquire .irq, .acquire .thread, .acquire .cdev, .release .irq, .release .mapping,
    .release .regions, .release .pciEnable, .release .index, .release .device]

/-- The first device cannot be created, and its probe returns zero. The structure of the second
device gets the same address, and the removal of the first one frees it. -/
theorem device_create_failure :
    (pciCore.init.dicedevProbe 0 (answers 7 true false)).ret = 0 ∧
      (pciCore.init.dicedevProbe 0 (answers 7 true false)).log = nodeless ∧
      ProbeObj.thread ∉ released nodeless ∧ ProbeObj.cdev ∉ released nodeless ∧
      ¬ (answers 7 true false).Succeeds pciCore.init.freeIndex ∧
      ¬ ProbeUndone pciCore.init (pciCore.init.dicedevProbe 0 (answers 7 true false)) ∧
      ∃ t, pciCore.exec pciCore.init
        [.probe 0 (answers 7 true false), .probe 1 (answers 7 true true),
          .removeBegin 0, .sys 7 .worker, .sys 7 .worker, .removeEnd 0] = some t ∧
        t.drvdata 1 = some 7 ∧ t.devices 0 = none ∧ ¬ TableExact t := by
  have hseen : (pciCore.exec pciCore.init
      [.probe 0 (answers 7 true false), .probe 1 (answers 7 true true),
        .removeBegin 0, .sys 7 .worker, .sys 7 .worker, .removeEnd 0]).map
      (fun t => (t.drvdata 1, t.devices 0, t.idxOf 7)) = some (some 7, none, none) := by
    decide +kernel
  obtain ⟨t, ht, hf⟩ := Option.map_eq_some_iff.mp hseen
  simp only [Prod.mk.injEq] at hf
  obtain ⟨hdrv, hdev, hidx⟩ := hf
  refine ⟨rfl, rfl, by decide, by decide, fun hs => ?_, fun hundone => ?_, t, ht, hdrv, hdev,
    fun hexact => ?_⟩
  · exact absurd hs.deviceCreate (by decide)
  · exact absurd hundone.ret (Int.lt_irrefl 0)
  · obtain ⟨i, hi⟩ := hexact.indexed 7 ⟨1, hdrv⟩
    rw [hidx] at hi
    cases hi

end Dicedev
