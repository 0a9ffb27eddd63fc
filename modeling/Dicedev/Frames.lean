import Dicedev.DeviceView
import Dicedev.PageLayout

/-!
# The memory behind the buffers

In `System.lean` every buffer has pages of its own. Behind them is one memory of frames. The
worker finds the frame of a page in `pt->pages`, a user through a mapping that
`dicedev_buffer_vm_fault` has filled, and the device through the words of the table page, which
are in memory too. `memSystem` is the driver over such a memory, with the descriptors and the
mappings of its users.

The driver itself sees the memory through `State.through`: its steps are those of `system`, in
the state whose buffers have the pages that the memory holds for them.
-/

namespace Dicedev

open State

/-! ## The model -/

/-- A page of memory, by its DMA address. -/
abbrev Frame := BitVec 64

abbrev VmaId := Nat

/-- `struct vm_area_struct`: `vm_private_data`, and the frames that faults have entered, by their
offset in the file. -/
structure Vma where
  buf : BufId
  ptes : Nat → Option Frame

/-- `dicedev_buffer_vm_fault`; `none` is `VM_FAULT_SIGBUS`. -/
def dicedevBufferVmFault (pt : PageTable) (pgoff : Nat) : Option Frame :=
  if pgoff ≥ pt.numPages then none else some (pt.pages pgoff)

/-- `dicedev_buffer_mmap`: nothing is mapped before the first fault. -/
def dicedevBufferMmap (b : BufId) : Vma := ⟨b, fun _ => none⟩

/-- A fault at `pgoff`. -/
def Vma.fault (a : Vma) (pt : PageTable) (pgoff : Nat) : Vma :=
  match dicedevBufferVmFault pt pgoff with
  | none => a
  | some f => { a with ptes := Function.update a.ptes pgoff (some f) }

/-- The answers of an allocator for DMA. -/
structure DmaEnv extends PtEnv where
  dma : toPtEnv.Dma

/-- The frames of a table: its own page, and then the data pages. -/
def PageTable.frame (pt : PageTable) : Nat → Frame
  | 0 => pt.dmaHandler
  | i + 1 => pt.pages i

def PtEnv.frame (env : PtEnv) : Nat → Option Frame
  | 0 => env.tablePage
  | i + 1 => env.page i

/-- The buffers, with the pages that `mem` holds for them. A buffer that has been freed has no
frames any more. -/
def State.through (s : State) (pts : BufId → PageTable) (mem : Frame → Nat → Word) : State :=
  { s with
    bufs := fun b =>
      if (s.bufs b).freed then s.bufs b
      else
        { s.bufs b with
          page := fun i =>
            if i < (s.bufs b).numPages then mem ((pts b).pages i) else (s.bufs b).page i } }

/-- The driver, `pt` of each buffer, the memory, and the descriptors and mappings of the files. -/
structure MemState where
  sys : State
  pts : BufId → PageTable
  mem : Frame → Nat → Word
  fds : BufId → Nat
  vmas : VmaId → Option Vma
  nVma : Nat

inductive MemLabel
  | sys (l : Label)
  | createSet (c : CtxId) (env : DmaEnv) (size : Nat) (allowed : BitVec 64)
  | dup (b : BufId)
  | close (b : BufId)
  | mmap (b : BufId)
  | fork (v : VmaId)
  | munmap (v : VmaId)
  | fault (v : VmaId) (pgoff : Nat)
  | userStore (v : VmaId) (pgoff j : Nat) (w : Word)
  | deviceStore (n i j : Nat) (w : Word)

/-- The steps that are not taken as they are. -/
def Label.refined : Label → Bool
  | .createSet .. | .dup _ | .close _ | .store .. => true
  | _ => false

namespace MemState

/-- The state of the driver over the memory. -/
def view (x : MemState) : State := x.sys.through x.pts x.mem

/-- A step of the driver, which sees the memory. -/
def drive (x : MemState) (l : Label) : Option MemState :=
  (system.step x.view l).map fun s => { x with sys := s }

/-- The memory after `dicedev_pt_init`: the entries are on the table page, and the data pages are
zeroed. -/
def withTable (mem : Frame → Nat → Word) (pt : PageTable) : Frame → Nat → Word := fun f =>
  if f = pt.dmaHandler then pt.entries
  else if ∃ i < pt.numPages, pt.pages i = f then fun _ => 0
  else mem f

/-- `dicedev_ioctl_create_set`, with its page table. -/
def createSet (x : MemState) (c : CtxId) (env : DmaEnv) (size : Nat) (allowed : BitVec 64) :
    Option MemState :=
  if size > maxBufferSize ∨ allowed.toNat > maxAllowed then x.drive (.createSet c size allowed 0)
  else
    match (dicedevPtInit env.toPtEnv size).1 with
    | .error _ => some x
    | .ok pt =>
      (x.drive (.createSet c size allowed pt.dmaHandler)).map fun y =>
        { y with
          pts := Function.update x.pts x.sys.nBuf pt
          mem := withTable x.mem pt
          fds := Function.update x.fds x.sys.nBuf 1 }

/-- A word of a frame is written. -/
def store (x : MemState) (f : Frame) (j : Nat) (w : Word) : MemState :=
  { x with mem := Function.update x.mem f (Function.update (x.mem f) j w) }

/-- A mapping takes a reference to the file of its buffer. -/
def addVma (x : MemState) (a : Vma) : Option MemState :=
  (x.drive (.dup a.buf)).map fun y =>
    { y with vmas := Function.update x.vmas x.nVma (some a), nVma := x.nVma + 1 }

/-- The frame of page `i` for the command `n` of the stream, which the device may still be
executing: the device has the table page in the slot of the command, and reads the entry there. -/
def walk (x : MemState) (table : Slot → Option SlotEntry) (n i : Nat) : Option Frame := do
  let f ← x.view.stream[n]?
  if f.task? ≠ none ∧ x.view.signalled ≤ x.view.fencesBefore n ∧ i < tableEntries then
    let e ← ((Hw.idle table).run (wordsOf (x.view.stream.take n))).slots f.slot
    if present (x.mem e.dma i) then some (decodePtEntry (x.mem e.dma i)) else none
  else none

/-- A step; `table` is what the device has in its slots before `dicedev_probe`. -/
def step (table : Slot → Option SlotEntry) (x : MemState) (l : MemLabel) : Option MemState :=
  if x.sys.bug = none then
    match l with
    | .sys l => if l.refined then none else x.drive l
    | .createSet c env size allowed => x.createSet c env size allowed
    | .dup b =>
      if 0 < x.fds b then
        (x.drive (.dup b)).map fun y => { y with fds := Function.update x.fds b (x.fds b + 1) }
      else none
    | .close b =>
      if 0 < x.fds b then
        (x.drive (.close b)).map fun y => { y with fds := Function.update x.fds b (x.fds b - 1) }
      else none
    | .mmap b => if 0 < x.fds b then x.addVma (dicedevBufferMmap b) else none
    | .fork v => (x.vmas v).bind x.addVma
    | .munmap v =>
      (x.vmas v).bind fun a =>
        (x.drive (.close a.buf)).map fun y => { y with vmas := Function.update x.vmas v none }
    | .fault v pgoff =>
      (x.vmas v).map fun a =>
        { x with vmas := Function.update x.vmas v (some (a.fault (x.pts a.buf) pgoff)) }
    | .userStore v pgoff j w =>
      (x.vmas v).bind fun a => (a.ptes pgoff).map fun f => x.store f j w
    | .deviceStore n i j w => (x.walk table n i).map fun f => x.store f j w
  else none

/-- Before the first buffer. -/
def start : MemState := ⟨probed, fun _ => .empty 0 0, fun _ _ => 0, fun _ => 0, fun _ => none, 0⟩

/-- The frames of a new table differ, and none belongs to a buffer that has not been freed. -/
def FreshFrames (x : MemState) (env : PtEnv) (size : Nat) : Prop :=
  (∀ k ≤ numPagesFor size, ∀ k' ≤ numPagesFor size, env.frame k = env.frame k' → k = k') ∧
  ∀ b < x.sys.nBuf, (x.sys.bufs b).freed = false → ∀ k ≤ (x.pts b).numPages,
    ∀ k' ≤ numPagesFor size, env.frame k' ≠ some ((x.pts b).frame k)

instance (x : MemState) (env : PtEnv) (size : Nat) : Decidable (x.FreshFrames env size) :=
  inferInstanceAs (Decidable (_ ∧ _))

/-- The command was made from a word whose lowest slot bit is clear. -/
def ClearBit : Fed → Bool
  | ⟨words, .task t user slot⟩ => !user.getLsbD (Fed.slotPos ⟨words, .task t user slot⟩)
  | _ => true

/-- What is assumed of the steps: the addresses of contexts are not reused too early, the
allocator hands out frames that are not in use, and no command has the slot bit that the masks of
`__wt_run_task` miss. -/
def Orderly (x : MemState) : MemLabel → Prop
  | .sys l => AddrFresh x.view l
  | .createSet _ env size _ => x.FreshFrames env.toPtEnv size
  | .deviceStore n _ _ _ => ∀ f ∈ x.view.stream[n]?, ClearBit f = true
  | _ => True

/-- The step of `System.lean` that a step over the memory amounts to. A store through a mapping
goes to the buffer of the mapping, a result of the device to the buffer of its task. -/
def image (x : MemState) : MemLabel → Option Label
  | .sys l => some l
  | .createSet c env size allowed =>
    if size > maxBufferSize ∨ allowed.toNat > maxAllowed then some (.createSet c size allowed 0)
    else
      match (dicedevPtInit env.toPtEnv size).1 with
      | .error _ => none
      | .ok pt => some (.createSet c size allowed pt.dmaHandler)
  | .dup b => some (.dup b)
  | .close b => some (.close b)
  | .mmap b => some (.dup b)
  | .fork v => (x.vmas v).map fun a => .dup a.buf
  | .munmap v => (x.vmas v).map fun a => .close a.buf
  | .fault _ _ => none
  | .userStore v pgoff j w => (x.vmas v).map fun a => .store a.buf pgoff j w
  | .deviceStore n i j w =>
    (x.view.stream[n]?.bind Fed.task?).map fun t => .store (x.view.out t) i j w

instance (x : MemState) (l : MemLabel) : Decidable (x.Orderly l) := by
  apply @MemLabel.casesOn (fun l => Decidable (x.Orderly l)) l <;> intros <;>
    unfold MemState.Orderly <;> infer_instance

/-- From `x` to `y` the view takes the step `l`, or none. -/
def Looks (x y : MemState) : Option Label → Prop
  | none => y.view = x.view
  | some l => system.step x.view l = some y.view

end MemState

/-- The driver over the memory. -/
def memSystem (table : Slot → Option SlotEntry) : Machine MemState MemLabel :=
  ⟨MemState.start, MemState.step table⟩

/-! ## Looking through the memory -/

variable {s s' : State} {l : Label} {b : BufId} {pts : BufId → PageTable}
  {mem : Frame → Nat → Word}

theorem through_bufs (h : (s.bufs b).freed = true) : (s.through pts mem).bufs b = s.bufs b :=
  if_pos h

theorem through_page (h : (s.bufs b).freed = false) :
    (s.through pts mem).bufs b =
      { s.bufs b with
        page := fun i =>
          if i < (s.bufs b).numPages then mem ((pts b).pages i) else (s.bufs b).page i } :=
  if_neg (by rw [h]; exact Bool.false_ne_true)

/-- Nothing but the pages is read from the memory. -/
theorem through_fields (s : State) (pts : BufId → PageTable) (mem : Frame → Nat → Word)
    (b : BufId) : ∃ page, (s.through pts mem).bufs b = { s.bufs b with page := page } := by
  cases h : (s.bufs b).freed with
  | true => exact ⟨(s.bufs b).page, through_bufs h⟩
  | false => exact ⟨_, through_page h⟩

@[simp] theorem through_freed (s : State) (pts : BufId → PageTable) (mem : Frame → Nat → Word)
    (b : BufId) : ((s.through pts mem).bufs b).freed = (s.bufs b).freed := by
  obtain ⟨page, h⟩ := through_fields s pts mem b
  rw [h]

@[simp] theorem through_numPages (s : State) (pts : BufId → PageTable) (mem : Frame → Nat → Word)
    (b : BufId) : ((s.through pts mem).bufs b).numPages = (s.bufs b).numPages := by
  obtain ⟨page, h⟩ := through_fields s pts mem b
  rw [h]

/-- The pages of the buffers are in the memory. -/
def Coherent (s : State) (pts : BufId → PageTable) (mem : Frame → Nat → Word) : Prop :=
  ∀ b, (s.bufs b).freed = false → ∀ i < (s.bufs b).numPages,
    (s.bufs b).page i = mem ((pts b).pages i)

theorem coherent_through (s : State) (pts : BufId → PageTable) (mem : Frame → Nat → Word) :
    Coherent (s.through pts mem) pts mem := by
  intro b hb i hi
  rw [through_freed] at hb
  rw [through_numPages] at hi
  rw [through_page hb]
  exact if_pos hi

theorem Coherent.through_eq (h : Coherent s pts mem) : s.through pts mem = s := by
  have hbufs : (s.through pts mem).bufs = s.bufs := by
    funext b
    cases hb : (s.bufs b).freed with
    | true => exact through_bufs hb
    | false =>
      rw [through_page hb]
      have hpage : (fun i => if i < (s.bufs b).numPages then mem ((pts b).pages i)
          else (s.bufs b).page i) = (s.bufs b).page := by
        funext i
        split
        · rename_i hi
          exact (h b hb i hi).symm
        · rfl
      rw [hpage]
  change { s with bufs := (s.through pts mem).bufs } = s
  rw [hbufs]

/-! ## What the steps of the driver leave alone -/

/-- What the memory has to know of a buffer. -/
structure BufKept (x y : Buffer) : Prop where
  page : y.page = x.page
  numPages : y.numPages = x.numPages
  dmaHandler : y.dmaHandler = x.dmaHandler
  freed : y.freed = false → x.freed = false

theorem bufKept_step (hs : Step s l s') (hstore : ∀ i j w, l ≠ .store b i j w) (hb : b < s.nBuf) :
    BufKept (s.bufs b) (s'.bufs b) := by
  have hbuf := BufStep.of_step hs hb
  generalize s'.bufs b = x at hbuf ⊢
  cases hbuf with
  | store i j w => exact absurd rfl (hstore i j w)
  | free => exact ⟨rfl, rfl, rfl, fun h => by cases h⟩
  | keep | leak | mark | giveUp | read | seed | dup | close | bind | unbind | account =>
    exact ⟨rfl, rfl, rfl, id⟩

theorem fdRefs_step (hs : Step s l s') (hl : l.refined = false) (hb : b < s.nBuf) :
    (s'.bufs b).fdRefs = (s.bufs b).fdRefs := by
  have hbuf := BufStep.of_step hs hb
  generalize s'.bufs b = x at hbuf ⊢
  cases hbuf with
  | dup | close | store => cases hl
  | keep | leak | mark | giveUp | read | seed | free | bind | unbind | account => rfl

/-- A buffer that exists has a number. -/
theorem lt_of_not_freed (hr : Reachable s) (h : (s.bufs b).freed = false) : b < s.nBuf := by
  refine Nat.lt_of_not_le fun hge => ?_
  have hsig := Names.buf_fresh (scope_reachable hr) b hge
  have hfreed : (s.bufs b).freed = true := congrArg BufSig.freed hsig
  cases hfreed.symm.trans h

theorem fdRefs_eq_zero (hr : Reachable s) (hb : s.nBuf ≤ b) : (s.bufs b).fdRefs = 0 :=
  congrArg BufSig.fdRefs (Names.buf_fresh (scope_reachable hr) b hb)

theorem fdRefs_sys (hr : Reachable s) (hs : system.step s l = some s') (hl : l.refined = false)
    (b : BufId) : (s'.bufs b).fdRefs = (s.bufs b).fdRefs := by
  have hstep := Step.of_step hs
  by_cases hb : b < s.nBuf
  · exact fdRefs_step hstep hl hb
  · have hn : s'.nBuf = s.nBuf := by
      rcases nBuf_step hstep with hn | ⟨c, size, allowed, dma, rfl, -⟩
      · exact hn
      · cases hl
    rw [fdRefs_eq_zero hr (Nat.le_of_not_lt hb),
      fdRefs_eq_zero (hr.step hs) (hn ▸ Nat.le_of_not_lt hb)]

theorem fdRefs_dup {d : BufId} (hs : Step s (.dup d) s') (b : BufId) :
    (s'.bufs b).fdRefs = (s.bufs b).fdRefs + if d = b then 1 else 0 := by
  cases hs with
  | dup _ hfd =>
    by_cases hdb : d = b
    · subst hdb
      simp
    · simp [hdb, Function.update_of_ne (Ne.symm hdb)]
  | halt _ _ hl => rcases hl with hl | hl <;> cases hl

theorem fdRefs_close {d : BufId} (hs : Step s (.close d) s') (b : BufId) :
    (s'.bufs b).fdRefs + (if d = b then 1 else 0) = (s.bufs b).fdRefs := by
  cases hs with
  | close _ hfd =>
    by_cases hdb : d = b
    · subst hdb
      simp only [Function.update_self, if_true]
      omega
    · simp [hdb, Function.update_of_ne (Ne.symm hdb)]
  | halt _ _ hl => rcases hl with hl | hl <;> cases hl

end Dicedev
