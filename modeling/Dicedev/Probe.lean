import Dicedev.CreateSet

/-!
# Probing and removing a device

`dicedev_probe`, `dicedev_wt_init` and `dicedev_remove` for every answer of the kernel, with what
they acquire and release and what they do to the table `dicedev_devices`.

The labels at the end of `dicedev_probe` undo its steps in the reverse order up to `request_irq`.
They do not undo the start of the worker and `cdev_add`, the result of `kthread_run` is not
looked at, and a failing `device_create` does not set `err`. So a probe that fails leaves nothing
behind exactly if it does not fail in one of these ways, `probe_undone_iff`.
-/

namespace Dicedev

open Ledger

/-- The address of a `struct dicedev_device`. -/
abbrev DevAddr := Nat

/-- A `struct pci_dev`. -/
abbrev PdevId := Nat

/-- An index into `dicedev_devices` (`DICEDEV_MAX_DEVICES` is 256). -/
abbrev DevIdx := Fin 256

/-- What a function of the kernel returns: zero, or the negative number of an error. -/
abbrev KernelRet := { r : Int // r ≤ 0 }

/-- The answers of the kernel during a probe. -/
structure ProbeEnv where
  /-- The answer of `kzalloc`, and the address if there is one. -/
  alloc : Bool
  addr : DevAddr
  pciEnable : KernelRet
  dmaMask : KernelRet
  regions : KernelRet
  iomap : Bool
  irq : KernelRet
  /-- `kthread_run` returns a thread. -/
  thread : Bool
  cdevAdd : KernelRet
  /-- `device_create` returns a device. -/
  deviceCreate : Bool

/-- What a probe acquires. -/
inductive ProbeObj
  /-- `struct dicedev_device`. -/
  | device
  /-- The entry of `dicedev_devices`. -/
  | index
  | pciEnable
  | regions
  | mapping
  | irq
  /-- The worker. -/
  | thread
  | cdev
  /-- The result of `device_create`. -/
  | node
  deriving DecidableEq, Repr

/-- The labels at the end of `dicedev_probe`. -/
inductive ErrLabel
  | devCreate
  | cdevAdd
  | requestIrq
  | iomap
  | requestRegions
  | dmaMask
  | enableDev
  | maxDev
  | allocDev
  deriving DecidableEq, Repr

/-- The end of `dicedev_probe`: every label with what is released between it and the next. -/
def errLadder : List (ErrLabel × List ProbeObj) :=
  [(.devCreate, []), (.cdevAdd, [.irq]), (.requestIrq, [.mapping]), (.iomap, [.regions]),
    (.requestRegions, []), (.dmaMask, [.pciEnable]), (.enableDev, [.index]),
    (.maxDev, [.device]), (.allocDev, [])]

/-- What is released after a jump to a label. -/
def errCleanup (l : ErrLabel) : List ProbeObj :=
  (errLadder.dropWhile fun e => e.1 ≠ l).flatMap fun e => e.2

/-- `-ENOSPC`. -/
def enospcRet : Int := -28

/-- `goto l` with this `err`, after `as` have been acquired. -/
def probeGoto (l : ErrLabel) (err : Int) (as : List ProbeObj) : Int × List (Entry ProbeObj) :=
  (err, as.map .acquire ++ (errCleanup l).map .release)

/-- What `dicedev_probe` has once its interrupt is connected. -/
def hardwareObjs : List ProbeObj := [.device, .index, .pciEnable, .regions, .mapping, .irq]

/-- What `dicedev_wt_init` acquires. -/
def ProbeEnv.worker (env : ProbeEnv) : List ProbeObj := if env.thread then [.thread] else []

/-- `dicedev_probe`, where `free` is the result of its search for an index: what it returns and
what it does. -/
def probeCall (env : ProbeEnv) (free : Option DevIdx) : Int × List (Entry ProbeObj) :=
  if env.alloc = false then probeGoto .allocDev Errno.enomem.ret []
  else if free = none then probeGoto .maxDev enospcRet [.device]
  else if env.pciEnable.1 ≠ 0 then probeGoto .enableDev env.pciEnable.1 [.device, .index]
  else if env.dmaMask.1 ≠ 0 then
    probeGoto .dmaMask env.dmaMask.1 [.device, .index, .pciEnable]
  else if env.regions.1 ≠ 0 then
    probeGoto .requestRegions env.regions.1 [.device, .index, .pciEnable]
  else if env.iomap = false then
    probeGoto .iomap Errno.enomem.ret [.device, .index, .pciEnable, .regions]
  else if env.irq.1 ≠ 0 then
    probeGoto .requestIrq env.irq.1 [.device, .index, .pciEnable, .regions, .mapping]
  else
    -- `dicedev_wt_init` keeps whatever `kthread_run` returns
    let got := hardwareObjs ++ env.worker
    if env.cdevAdd.1 ≠ 0 then probeGoto .cdevAdd env.cdevAdd.1 got
    else if env.deviceCreate = false then
      -- `err` is what `cdev_add` has returned
      probeGoto .devCreate env.cdevAdd.1 (got ++ [ProbeObj.cdev])
    else (0, (got ++ [ProbeObj.cdev, .node]).map .acquire)

/-- `struct dicedev_device`. The field `thread` says whether `wt.thread` is a thread, `node`
whether `dev` is set, and `state` is the rest with the users and the device. -/
structure Device where
  idx : DevIdx
  thread : Bool
  node : Bool
  state : State

/-- The driver as the PCI core sees it. -/
structure PciState where
  /-- `dicedev_devices`. -/
  devices : DevIdx → Option DevAddr
  /-- The structures that are allocated. -/
  heap : DevAddr → Option Device
  /-- `pci_get_drvdata` of the PCI devices that are bound to the driver. -/
  drvdata : PdevId → Option DevAddr
  /-- A pointer was followed that points nowhere. -/
  oops : Bool

/-- What a probe returns, what it does, and the state it leaves. -/
structure ProbeResult where
  ret : Int
  log : List (Entry ProbeObj)
  state : PciState

namespace PciState

/-- The loop over `dicedev_devices`. -/
def freeIndex (s : PciState) : Option DevIdx :=
  (List.finRange 256).find? fun i => s.devices i = none

def updDev (s : PciState) (p : DevAddr) (f : Device → Device) : PciState :=
  { s with heap := Function.update s.heap p ((s.heap p).map f) }

/-- The effect of an acquisition for the device at `p`. -/
def acquire (p : DevAddr) (s : PciState) : ProbeObj → PciState
  | .device => { s with heap := Function.update s.heap p (some ⟨0, false, false, State.probed⟩) }
  | .index =>
    match s.freeIndex with
    | none => s
    | some i =>
      { s with devices := Function.update s.devices i (some p) }.updDev p fun d =>
        { d with idx := i }
  | .thread => s.updDev p fun d => { d with thread := true }
  | .node => s.updDev p fun d => { d with node := true }
  | .pciEnable | .regions | .mapping | .irq | .cdev => s

/-- The effect of a release for the device at `p`. -/
def release (p : DevAddr) (s : PciState) : ProbeObj → PciState
  | .device => { s with heap := Function.update s.heap p none }
  | .index =>
    match s.heap p with
    | none => s
    | some d => { s with devices := Function.update s.devices d.idx none }
  | .thread | .node | .pciEnable | .regions | .mapping | .irq | .cdev => s

def enact (p : DevAddr) (s : PciState) : Entry ProbeObj → PciState
  | .acquire o => s.acquire p o
  | .release o => s.release p o

/-- The PCI core binds a device whose probe has returned zero. -/
def bind (s : PciState) (pdev : PdevId) (p : DevAddr) (ret : Int) : PciState :=
  if ret = 0 then { s with drvdata := Function.update s.drvdata pdev (some p) } else s

/-- `dicedev_probe`, called by the PCI core. -/
def dicedevProbe (s : PciState) (pdev : PdevId) (env : ProbeEnv) : ProbeResult :=
  let (ret, log) := probeCall env s.freeIndex
  ⟨ret, log, (log.foldl (enact env.addr) s).bind pdev env.addr ret⟩

end PciState

/-- What `dicedev_remove` releases. -/
def removeObjs (d : Device) : List ProbeObj :=
  (if d.node then [.node] else []) ++
    [.cdev, .thread, .irq, .mapping, .regions, .pciEnable, .index, .device]

open PciState

variable {s : PciState} {p : DevAddr} {i : DevIdx} {env : ProbeEnv} {free : Option DevIdx}

/-! ## How a probe ends -/

/-- The steps up to `request_irq` succeed. -/
structure ProbeEnv.Running (env : ProbeEnv) (free : Option DevIdx) : Prop where
  alloc : env.alloc = true
  index : free ≠ none
  pciEnable : env.pciEnable.1 = 0
  dmaMask : env.dmaMask.1 = 0
  regions : env.regions.1 = 0
  iomap : env.iomap = true
  irq : env.irq.1 = 0

/-- All steps of the probe succeed. -/
structure ProbeEnv.Succeeds (env : ProbeEnv) (free : Option DevIdx) : Prop
    extends env.Running free where
  thread : env.thread = true
  cdevAdd : env.cdevAdd.1 = 0
  deviceCreate : env.deviceCreate = true

/-- The steps around a part of the probe: it holds the structure and an index. -/
def withIndex (mid : List (Entry ProbeObj)) : List (Entry ProbeObj) :=
  .acquire .device :: (.acquire .index :: mid ++ [.release .index]) ++ [.release .device]

/-- The hardware is set up and given back; `as` are acquired in between. -/
def withHardware (as : List ProbeObj) : List (Entry ProbeObj) :=
  ([ProbeObj.pciEnable, .regions, .mapping, .irq] ++ as).map .acquire ++
    [.release .irq, .release .mapping, .release .regions, .release .pciEnable]

/-- The ways out of `dicedev_probe`. -/
inductive ProbeEnd (env : ProbeEnv) (free : Option DevIdx) : Int → List (Entry ProbeObj) → Prop
  | noMemory (h : env.alloc = false) : ProbeEnd env free Errno.enomem.ret []
  | noIndex (h : free = none) :
      ProbeEnd env free enospcRet [.acquire .device, .release .device]
  | noHardware (err : Int) (as : List ProbeObj) (herr : err < 0) (hnot : ¬ env.Running free)
      (hfree : free ≠ none) (has : as.IsPrefix [.pciEnable, .regions, .mapping, .irq]) :
      ProbeEnd env free err (withIndex (as.map .acquire ++ as.reverse.map .release))
  | noCdev (hrun : env.Running free) (h : env.cdevAdd.1 < 0) :
      ProbeEnd env free env.cdevAdd.1 (withIndex (withHardware env.worker))
  | noNode (hrun : env.Running free) (hcdev : env.cdevAdd.1 = 0) (h : env.deviceCreate = false) :
      ProbeEnd env free 0 (withIndex (withHardware (env.worker ++ [.cdev])))
  | done (hrun : env.Running free) (hcdev : env.cdevAdd.1 = 0) (h : env.deviceCreate = true) :
      ProbeEnd env free 0 ((hardwareObjs ++ env.worker ++ [ProbeObj.cdev, .node]).map .acquire)

theorem KernelRet.neg {r : KernelRet} (h : r.1 ≠ 0) : r.1 < 0 := by
  have hle := r.2
  omega

/-- A jump to a label that gives the hardware back. -/
theorem probeGoto_hardware {l : ErrLabel} {err : Int} {as : List ProbeObj}
    (h : errCleanup l = hardwareObjs.reverse) :
    probeGoto l err (hardwareObjs ++ as) = (err, withIndex (withHardware as)) := by
  rw [probeGoto, h]
  simp [withIndex, withHardware, hardwareObjs]

theorem ProbeEnd.of_call (env : ProbeEnv) (free : Option DevIdx) :
    ProbeEnd env free (probeCall env free).1 (probeCall env free).2 := by
  unfold probeCall
  by_cases halloc : env.alloc = false
  · rw [if_pos halloc]
    exact .noMemory halloc
  rw [if_neg halloc]
  by_cases hfree : free = none
  · rw [if_pos hfree]
    exact .noIndex hfree
  rw [if_neg hfree]
  by_cases henable : env.pciEnable.1 ≠ 0
  · rw [if_pos henable]
    exact .noHardware _ [] (KernelRet.neg henable) (fun h => henable h.pciEnable) hfree (by decide)
  rw [if_neg henable]
  by_cases hmask : env.dmaMask.1 ≠ 0
  · rw [if_pos hmask]
    exact .noHardware _ [.pciEnable] (KernelRet.neg hmask) (fun h => hmask h.dmaMask) hfree
      (by decide)
  rw [if_neg hmask]
  by_cases hregions : env.regions.1 ≠ 0
  · rw [if_pos hregions]
    exact .noHardware _ [.pciEnable] (KernelRet.neg hregions) (fun h => hregions h.regions) hfree
      (by decide)
  rw [if_neg hregions]
  by_cases hiomap : env.iomap = false
  · rw [if_pos hiomap]
    exact .noHardware _ [.pciEnable, .regions] (Errno.ret_neg .enomem)
      (fun h => absurd h.iomap (by simp [hiomap])) hfree (by decide)
  rw [if_neg hiomap]
  by_cases hirq : env.irq.1 ≠ 0
  · rw [if_pos hirq]
    exact .noHardware _ [.pciEnable, .regions, .mapping] (KernelRet.neg hirq)
      (fun h => hirq h.irq) hfree (by decide)
  rw [if_neg hirq]
  have hrun : env.Running free :=
    ⟨eq_true_of_ne_false halloc, hfree, not_not.mp henable, not_not.mp hmask,
      not_not.mp hregions, eq_true_of_ne_false hiomap, not_not.mp hirq⟩
  by_cases hcdev : env.cdevAdd.1 ≠ 0
  · dsimp only
    rw [if_pos hcdev, probeGoto_hardware rfl]
    exact .noCdev hrun (KernelRet.neg hcdev)
  dsimp only
  rw [if_neg hcdev]
  have hzero : env.cdevAdd.1 = 0 := not_not.mp hcdev
  by_cases hnode : env.deviceCreate = false
  · rw [if_pos hnode, List.append_assoc, probeGoto_hardware rfl, hzero]
    exact .noNode hrun hzero hnode
  · rw [if_neg hnode]
    exact .done hrun hzero (eq_true_of_ne_false hnode)

/-! ## What a probe does to the table -/

namespace PciState

/-- The device at `p` holds index `i`, and its structure is `d`. -/
def taken (s : PciState) (p : DevAddr) (i : DevIdx) (d : Device) : PciState :=
  { s with
    devices := Function.update s.devices i (some p)
    heap := Function.update s.heap p (some d) }

end PciState

/-- The entry is about something else than the structure and the index. -/
def keepsIndex : Entry ProbeObj → Bool
  | .acquire o | .release o => o ≠ .device ∧ o ≠ .index

variable {d : Device} {o : Option Device} {mid : List (Entry ProbeObj)}

theorem freeIndex_spec (h : s.freeIndex = some i) : s.devices i = none := by
  have hfound := List.find?_some h
  simpa using hfound

theorem acquire_index (h : s.freeIndex = some i) :
    (s.acquire p .device).acquire p .index = s.taken p i ⟨i, false, false, State.probed⟩ := by
  have hfree : (s.acquire p .device).freeIndex = some i := h
  generalize hdev : s.acquire p .device = u at hfree ⊢
  rw [PciState.acquire, hfree, ← hdev]
  simp [PciState.acquire, updDev, taken]

theorem updDev_taken (f : Device → Device) :
    (s.taken p i d).updDev p f = s.taken p i (f d) := by
  simp [updDev, taken]

theorem enact_taken {e : Entry ProbeObj} (he : keepsIndex e = true) :
    ∃ d', d'.idx = d.idx ∧ (s.taken p i d).enact p e = s.taken p i d' := by
  cases e with
  | acquire o =>
    cases o with
    | device | index => exact absurd he (by decide)
    | thread => exact ⟨{ d with thread := true }, rfl, updDev_taken _⟩
    | node => exact ⟨{ d with node := true }, rfl, updDev_taken _⟩
    | pciEnable | regions | mapping | irq | cdev => exact ⟨d, rfl, rfl⟩
  | release o =>
    cases o with
    | device | index => exact absurd he (by decide)
    | pciEnable | regions | mapping | irq | thread | cdev | node => exact ⟨d, rfl, rfl⟩

/-- The device keeps its index as long as nothing is done to it. -/
theorem foldl_taken (hmid : ∀ e ∈ mid, keepsIndex e = true) :
    ∃ d', d'.idx = d.idx ∧ mid.foldl (enact p) (s.taken p i d) = s.taken p i d' := by
  induction mid generalizing d with
  | nil => exact ⟨d, rfl, rfl⟩
  | cons e mid ih =>
    obtain ⟨d₁, hidx₁, henact⟩ := enact_taken (s := s) (p := p) (i := i) (d := d)
      (hmid e List.mem_cons_self)
    obtain ⟨d₂, hidx₂, hrest⟩ := ih (d := d₁) fun e he => hmid e (List.mem_cons_of_mem _ he)
    refine ⟨d₂, hidx₂.trans hidx₁, ?_⟩
    rw [List.foldl_cons, henact, hrest]

theorem release_taken (hp : s.heap p = none) (hi : s.devices i = none) (hd : d.idx = i) :
    ((s.taken p i d).release p .index).release p .device = s := by
  have hindex : (s.taken p i d).release p .index =
      { s with heap := Function.update s.heap p (some d) } := by
    simp [PciState.release, taken, hd, ← hi]
  rw [hindex]
  simp [PciState.release, ← hp]

/-- A probe that gives its index and its structure back leaves the driver as it was. -/
theorem withIndex_state (hp : s.heap p = none) (hfree : s.freeIndex = some i)
    (hmid : ∀ e ∈ mid, keepsIndex e = true) : (withIndex mid).foldl (enact p) s = s := by
  obtain ⟨d, hidx, hrun⟩ := foldl_taken (s := s) (p := p) (i := i)
    (d := ⟨i, false, false, State.probed⟩) hmid
  have hstart : (s.enact p (.acquire .device)).enact p (.acquire .index) =
      s.taken p i ⟨i, false, false, State.probed⟩ := acquire_index hfree
  simp only [withIndex, List.foldl_cons, List.foldl_append, List.cons_append, List.foldl_nil]
  rw [hstart, hrun]
  exact release_taken hp (freeIndex_spec hfree) hidx

theorem keepsIndex_hardware {as : List ProbeObj} (has : ∀ o ∈ as, o ≠ .device ∧ o ≠ .index) :
    ∀ e ∈ withHardware as, keepsIndex e = true := by
  intro e he
  rw [withHardware, List.map_append, List.append_assoc, List.mem_append, List.mem_append] at he
  rcases he with hset | hmore | hback
  · revert e
    decide
  · obtain ⟨o, ho, rfl⟩ := List.mem_map.mp hmore
    exact decide_eq_true (has o ho)
  · revert e
    decide

theorem hardware_ne {as : List ProbeObj} (has : as ⊆ [.pciEnable, .regions, .mapping, .irq]) :
    ∀ o ∈ as, o ≠ .device ∧ o ≠ .index := by
  have hall : ∀ o ∈ [ProbeObj.pciEnable, .regions, .mapping, .irq], o ≠ .device ∧ o ≠ .index := by
    decide
  exact fun o ho => hall o (has ho)

theorem worker_ne (env : ProbeEnv) : ∀ o ∈ env.worker, o ≠ .device ∧ o ≠ .index := by
  unfold ProbeEnv.worker
  split <;> decide

variable {ret : Int} {log : List (Entry ProbeObj)} {pdev : PdevId}

/-- Unless `device_create` succeeds the structure and the index are given back. -/
theorem ProbeEnd.restores (h : ProbeEnd env s.freeIndex ret log) (hp : s.heap env.addr = none)
    (hnot : ret ≠ 0 ∨ env.deviceCreate = false) : log.foldl (enact env.addr) s = s := by
  cases h with
  | noMemory => rfl
  | noIndex => simp [enact, PciState.acquire, PciState.release, ← hp]
  | noHardware ret as herr hrun hfree has =>
    obtain ⟨i, hi⟩ := Option.ne_none_iff_exists'.mp hfree
    refine withIndex_state hp hi fun e he => ?_
    have hothers := hardware_ne has.subset
    rcases List.mem_append.mp he with hget | hback
    · obtain ⟨o, ho, rfl⟩ := List.mem_map.mp hget
      exact decide_eq_true (hothers o ho)
    · obtain ⟨o, ho, rfl⟩ := List.mem_map.mp hback
      exact decide_eq_true (hothers o (List.mem_reverse.mp ho))
  | noCdev hrun =>
    obtain ⟨i, hi⟩ := Option.ne_none_iff_exists'.mp hrun.index
    exact withIndex_state hp hi (keepsIndex_hardware (worker_ne env))
  | noNode hrun =>
    obtain ⟨i, hi⟩ := Option.ne_none_iff_exists'.mp hrun.index
    refine withIndex_state hp hi (keepsIndex_hardware fun o ho => ?_)
    rcases List.mem_append.mp ho with hworker | hcdev
    · exact worker_ne env o hworker
    · rw [List.mem_singleton.mp hcdev]
      decide
  | done hrun hcdev hnode =>
    rcases hnot with hret | hfail
    · exact absurd rfl hret
    · rw [hnode] at hfail
      cases hfail

/-- A probe that gets to its end has filled an entry of the table. -/
theorem foldl_done (hfree : s.freeIndex = some i) :
    ((hardwareObjs ++ env.worker ++ [ProbeObj.cdev, .node]).map Entry.acquire).foldl (enact p) s =
      s.taken p i ⟨i, env.thread, true, State.probed⟩ := by
  have hstart : (s.enact p (.acquire .device)).enact p (.acquire .index) =
      s.taken p i ⟨i, false, false, State.probed⟩ := acquire_index hfree
  have hnode : ∀ d, (s.taken p i d).enact p (.acquire .node) =
      s.taken p i { d with node := true } := fun d => updDev_taken _
  have hthread : ∀ d, (s.taken p i d).enact p (.acquire .thread) =
      s.taken p i { d with thread := true } := fun d => updDev_taken _
  simp only [hardwareObjs, List.map_append, List.map_cons, List.map_nil, List.foldl_append,
    List.foldl_cons, List.foldl_nil, hstart]
  unfold ProbeEnv.worker
  cases env.thread with
  | false => exact hnode ⟨i, false, false, State.probed⟩
  | true =>
    refine Eq.trans ?_ (hnode ⟨i, true, false, State.probed⟩)
    exact congrArg (fun u => PciState.enact p u (.acquire .node)) (hthread _)

/-! ## A probe that fails -/

/-- The probe has failed and has left nothing behind. -/
structure ProbeUndone (s : PciState) (r : ProbeResult) : Prop where
  ret : r.ret < 0
  settled : Settled r.log
  state : r.state = s

/-- A failure that `dicedev_probe` does not handle: the worker is not started, or it is started
and a step that follows fails. Where the worker is not started and then `cdev_add` fails, there
is nothing more to undo than the labels do. -/
def ProbeEnv.Unhandled (env : ProbeEnv) (free : Option DevIdx) : Prop :=
  env.Running free ∧
    (env.thread = true ∧ env.cdevAdd.1 ≠ 0 ∨ env.thread = false ∧ env.cdevAdd.1 = 0 ∨
      env.cdevAdd.1 = 0 ∧ env.deviceCreate = false)

theorem undone_withIndex {as : List ProbeObj} (h : Undone mid as)
    (has : ∀ o ∈ as, o ≠ .device ∧ o ≠ .index) :
    Undone (withIndex mid) (.device :: .index :: as) := by
  refine (h.wrap fun hmem => (has _ hmem).2 rfl).wrap fun hmem => ?_
  rcases List.mem_cons.mp hmem with heq | hmem
  · cases heq
  · exact (has _ hmem).1 rfl

theorem phases_hardware (as : List ProbeObj) :
    Phases (withHardware as) ([.pciEnable, .regions, .mapping, .irq] ++ as)
      [.irq, .mapping, .regions, .pciEnable] := rfl

theorem probe_end (s : PciState) (pdev : PdevId) (env : ProbeEnv) :
    ∃ ret log, ProbeEnd env s.freeIndex ret log ∧
      s.dicedevProbe pdev env = ⟨ret, log, (log.foldl (enact env.addr) s).bind pdev env.addr ret⟩ :=
  ⟨_, _, ProbeEnd.of_call env s.freeIndex, rfl⟩

/-- A probe that has failed before it starts the worker. -/
theorem ProbeEnd.undone_or_running (h : ProbeEnd env free ret log) :
    env.Running free ∨ ret < 0 ∧ Settled log := by
  cases h with
  | noMemory => exact Or.inr ⟨Errno.ret_neg .enomem, Undone.nil.settled⟩
  | noIndex =>
    have hundone : Undone [.acquire ProbeObj.device, .release .device] [.device] :=
      Undone.nil.wrap (by simp)
    exact Or.inr ⟨by decide, hundone.settled⟩
  | noHardware ret as herr hnot hfree has =>
    have hnodup : as.Nodup := has.sublist.nodup (by decide)
    have hundone : Undone (as.map .acquire ++ as.reverse.map .release) as :=
      ⟨hnodup, as.reverse, rfl, as.reverse_perm⟩
    exact Or.inr ⟨herr, (undone_withIndex hundone (hardware_ne has.subset)).settled⟩
  | noCdev hrun | noNode hrun | done hrun => exact Or.inl hrun

/-- How a probe ends that has started the worker, or has tried to. -/
theorem ProbeEnd.late (h : ProbeEnd env free ret log) (hrun : env.Running free) :
    (env.cdevAdd.1 < 0 ∧ ret = env.cdevAdd.1 ∧ log = withIndex (withHardware env.worker)) ∨
      (env.cdevAdd.1 = 0 ∧ env.deviceCreate = false ∧ ret = 0 ∧
        log = withIndex (withHardware (env.worker ++ [.cdev]))) ∨
      (env.cdevAdd.1 = 0 ∧ env.deviceCreate = true ∧ ret = 0 ∧
        log = (hardwareObjs ++ env.worker ++ [ProbeObj.cdev, .node]).map .acquire) := by
  cases h with
  | noMemory h => exact absurd hrun.alloc (by simp [h])
  | noIndex h => exact absurd h hrun.index
  | noHardware _ _ _ hnot => exact absurd hrun hnot
  | noCdev _ hcdev => exact Or.inl ⟨hcdev, rfl, rfl⟩
  | noNode _ hcdev hnode => exact Or.inr (Or.inl ⟨hcdev, hnode, rfl, rfl⟩)
  | done _ hcdev hnode => exact Or.inr (Or.inr ⟨hcdev, hnode, rfl, rfl⟩)

theorem ProbeEnd.succeeds (h : ProbeEnd env free ret log) (hs : env.Succeeds free) :
    ret = 0 ∧ log = (hardwareObjs ++ env.worker ++ [ProbeObj.cdev, .node]).map .acquire := by
  rcases h.late hs.toRunning with ⟨hneg, -⟩ | ⟨-, hnode, -⟩ | ⟨-, -, hret, hlog⟩
  · exact absurd hs.cdevAdd (Int.ne_of_lt hneg)
  · exact absurd hs.deviceCreate (by simp [hnode])
  · exact ⟨hret, hlog⟩

/-- Without a worker the labels undo everything. -/
theorem settled_noWorker : Settled (withIndex (withHardware [])) := by
  have hundone : Undone (withHardware []) [.pciEnable, .regions, .mapping, .irq] :=
    ⟨by decide, _, phases_hardware [], by decide⟩
  exact (undone_withIndex hundone (hardware_ne (List.Subset.refl _))).settled

/-- The labels do not stop the worker. -/
theorem not_settled_worker : ¬ Settled (withIndex (withHardware [.thread])) := by
  intro hsettled
  have hmem : ProbeObj.thread ∈ acquired (withIndex (withHardware [.thread])) := by decide
  exact absurd (hsettled.perm.symm.subset hmem) (by decide)

/-- A probe that returns zero must have succeeded. -/
theorem probe_zero_iff {t : PciState} (hnot : ¬ env.Succeeds free) (hbad : env.Unhandled free) :
    (¬ env.Succeeds free → ProbeUndone s ⟨0, log, t⟩) ↔ ¬ env.Unhandled free :=
  ⟨fun hall => absurd (hall hnot).ret (Int.lt_irrefl 0), fun hgood => absurd hbad hgood⟩

/-- A probe that fails leaves nothing behind exactly if its failure is handled. -/
theorem probe_undone_iff (pdev : PdevId) (hp : s.heap env.addr = none) :
    (¬ env.Succeeds s.freeIndex → ProbeUndone s (s.dicedevProbe pdev env)) ↔
      ¬ env.Unhandled s.freeIndex := by
  obtain ⟨ret, log, hend, heq⟩ := probe_end s pdev env
  rw [heq]
  have hstate : ret < 0 → (log.foldl (enact env.addr) s).bind pdev env.addr ret = s := by
    intro hneg
    have hne : ret ≠ 0 := Int.ne_of_lt hneg
    rw [hend.restores hp (Or.inl hne), PciState.bind, if_neg hne]
  by_cases hrun : env.Running s.freeIndex
  · rcases hend.late hrun with ⟨hcdev, rfl, rfl⟩ | ⟨hcdev, hnode, rfl, -⟩ | ⟨hcdev, hnode, rfl, -⟩
    · have hne : env.cdevAdd.1 ≠ 0 := Int.ne_of_lt hcdev
      unfold ProbeEnv.worker at hstate ⊢
      cases hthread : env.thread with
      | false =>
        rw [hthread] at hstate
        refine ⟨fun _ hbad => ?_, fun _ _ => ⟨hcdev, settled_noWorker, hstate hcdev⟩⟩
        simp [ProbeEnv.Unhandled, hthread, hne] at hbad
      | true =>
        refine ⟨fun hall => ?_, fun hgood => absurd ⟨hrun, Or.inl ⟨hthread, hne⟩⟩ hgood⟩
        exact absurd (hall fun hs => hne hs.cdevAdd).settled not_settled_worker
    · refine probe_zero_iff (fun hs => ?_) ⟨hrun, Or.inr (Or.inr ⟨hcdev, hnode⟩)⟩
      exact absurd hs.deviceCreate (by simp [hnode])
    · cases hthread : env.thread with
      | false =>
        refine probe_zero_iff (fun hs => ?_) ⟨hrun, Or.inr (Or.inl ⟨hthread, hcdev⟩)⟩
        exact absurd hs.thread (by simp [hthread])
      | true =>
        refine ⟨fun _ hbad => ?_, fun _ hfail => absurd ⟨hrun, hthread, hcdev, hnode⟩ hfail⟩
        simp [ProbeEnv.Unhandled, hthread, hcdev, hnode] at hbad
  · obtain ⟨hret, hsettled⟩ := hend.undone_or_running.resolve_left hrun
    exact ⟨fun _ hbad => hrun hbad.1, fun _ _ => ⟨hret, hsettled, hstate hret⟩⟩

/-- `dicedev_remove` releases what a probe without failures has acquired. -/
theorem probe_remove_settled (h : env.Succeeds free) (hd : d.node = true) :
    Settled ((probeCall env free).2 ++ (removeObjs d).map .release) := by
  have hworker : env.worker = [.thread] := by
    rw [ProbeEnv.worker, h.thread]
    rfl
  have hremove : removeObjs d = [.node, .cdev, .thread, .irq, .mapping, .regions, .pciEnable,
      .index, .device] := by
    rw [removeObjs, hd]
    rfl
  rw [((ProbeEnd.of_call env free).succeeds h).2, hworker, hremove]
  exact ((Phases.acquires _).release _).settled (by decide) (by decide)

end Dicedev
