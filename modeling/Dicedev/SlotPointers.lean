import Dicedev.Memory
import Dicedev.Slots

/-!
# The slot table as pointers

`dev->buff_slots` holds pointers, and `kzalloc` may give a new buffer the address of one that has
been freed. `heapSystem` is the driver with the addresses of its buffers.

`slot_pointers_agree`: as long as a new context does not get the address of the owner of a buffer
that still exists (`AddrFresh`), every entry of the table points to a buffer that exists, and the
table agrees with the field `binded_slot` of the buffers, whatever addresses these get.

Without that condition a context can run a task on a buffer that is not its own, and nothing keeps
that buffer alive. The worker then binds it after its release has unbound it for the last time.
The entry outlives the buffer, and points to the next buffer at that address: `stale_slot`.
-/

namespace Dicedev

open State

/-- The driver, and the address of every buffer. -/
structure HeapState where
  sys : State
  addr : BufId → Nat

/-- The steps of the driver. A `CREATE_SET` says what address `kzalloc` returns. -/
inductive HeapLabel
  | sys (l : Label)
  | createSet (c : CtxId) (size : Nat) (allowed dma : BitVec 64) (addr : Nat)

def Label.creates : Label → Bool
  | .createSet _ _ _ _ => true
  | _ => false

/-- The step of the driver that is taken. -/
def HeapLabel.label : HeapLabel → Label
  | .sys l => l
  | .createSet c size allowed dma _ => .createSet c size allowed dma

namespace HeapState

/-- No buffer that exists is at the address `a`. -/
def Vacant (x : HeapState) (a : Nat) : Prop :=
  ∀ b < x.sys.nBuf, (x.sys.bufs b).freed = false → x.addr b ≠ a

instance (x : HeapState) (a : Nat) : Decidable (x.Vacant a) :=
  inferInstanceAs (Decidable (∀ b < x.sys.nBuf, (x.sys.bufs b).freed = false → x.addr b ≠ a))

def step (x : HeapState) : HeapLabel → Option HeapState
  | .sys l =>
    if l.creates then none else (system.step x.sys l).map fun s => { x with sys := s }
  | .createSet c size allowed dma a =>
    if x.Vacant a then
      (system.step x.sys (.createSet c size allowed dma)).map fun s =>
        ⟨s, Function.update x.addr x.sys.nBuf a⟩
    else none

/-- The pointer `dev->buff_slots[i]`. -/
def slotPtr (x : HeapState) (i : Slot) : Option Nat := (x.sys.buffSlots i).map x.addr

end HeapState

/-- The driver with the addresses of its buffers. -/
def heapSystem : Machine HeapState HeapLabel := ⟨⟨State.probed, fun _ => 0⟩, HeapState.step⟩

/-- `AddrFresh` for the step of the driver. -/
def OwnersFresh (x : HeapState) (l : HeapLabel) : Prop := AddrFresh x.sys l.label

instance (x : HeapState) (l : HeapLabel) : Decidable (OwnersFresh x l) :=
  inferInstanceAs (Decidable (AddrFresh x.sys l.label))

/-- The slots agree, and they still do if one looks at the pointers. -/
structure PointersAgree (x : HeapState) : Prop extends SlotsAgree x.sys where
  /-- For a buffer that exists, `dev->buff_slots[i] == buff` exactly if `buff->binded_slot == i`. -/
  pointer_iff : ∀ i b, x.sys.Allocated (.buf b) →
    (x.slotPtr i = some (x.addr b) ↔ (x.sys.bufs b).bindedSlot = some i)
  /-- Every entry points to a buffer that exists. -/
  pointer_live : ∀ i a, x.slotPtr i = some a → ∃ b, x.sys.Allocated (.buf b) ∧ x.addr b = a

/-! ## Bound buffers exist -/

section

variable {s s' : State} {l : Label} {b : BufId}

/-- A buffer that exists existed before. -/
theorem allocated_before (hs : Step s l s') (hb : b < s.nBuf) (h : s'.Allocated (.buf b)) :
    s.Allocated (.buf b) := by
  refine ⟨hb, ?_⟩
  have hfreed := h.2
  have hbuf := BufStep.of_step hs hb
  generalize s'.bufs b = x at hbuf hfreed
  cases hbuf with
  | free => cases hfreed
  | _ => exact hfreed

/-- A buffer that exists is one that existed before, or the one that the step has created. -/
theorem allocated_cases (hs : Step s l s') (h : s'.Allocated (.buf b)) :
    s.Allocated (.buf b) ∨ l.creates = true ∧ b = s.nBuf := by
  rcases nBuf_step hs with hn | ⟨c, size, allowed, dma, rfl, hn, -⟩
  · exact Or.inl (allocated_before hs (hn ▸ h.1) h)
  · by_cases hb : b = s.nBuf
    · exact Or.inr ⟨rfl, hb⟩
    · have hlt := Nat.lt_of_lt_of_eq h.1 hn
      exact Or.inl (allocated_before hs (Nat.lt_of_le_of_ne (Nat.le_of_lt_succ hlt) hb) h)

/-- With fresh addresses a buffer that has a slot exists: it is freed without one, and the buffer
of a task that is there is not freed. -/
theorem allocated_of_bound (h : system.ReachableBy AddrFresh s) {i : Slot}
    (hb : (s.bufs b).bindedSlot = some i) : s.Allocated (.buf b) := by
  induction h generalizing b i with
  | init => cases hb
  | @step s s' l hr hC hs ih =>
    have hstep := Step.of_step hs
    have hne : (s'.bufs b).bindedSlot ≠ none := fun hnone => by cases hnone.symm.trans hb
    have hlt := (scope_reachable (hr.step hC hs).reachable).bound_lt hne
    have hold : b < s.nBuf := by
      rcases nBuf_step hstep with hn | ⟨c, size, allowed, dma, -, hn, hnew⟩
      · exact hn ▸ hlt
      · rw [hn] at hlt
        refine Nat.lt_of_le_of_ne (Nat.le_of_lt_succ hlt) ?_
        rintro rfl
        rw [hnew] at hb
        cases hb
    refine ⟨hlt, ?_⟩
    have hbuf := BufStep.of_step hstep hold
    generalize s'.bufs b = x at hbuf hb
    cases hbuf with
    | giveUp | free | unbind => cases hb
    | bind t j hpc hnext hout =>
      have htask := allocated_held hr.reachable (next_held hr.reachable hnext)
      have hout' : s.Allocated (.buf (s.tasks t).buffOut) :=
        taskTouches_allocated hr htask _ (by simp [taskTouches])
      rw [hout] at hout'
      exact hout'.2
    | _ => exact (ih hb).2

end

/-! ## Addresses -/

variable {x x' : HeapState} {l : HeapLabel}

/-- What a step does. -/
inductive HeapStep (x : HeapState) : HeapLabel → HeapState → Prop
  | sys (l : Label) (s : State) (hl : l.creates = false) (hs : system.step x.sys l = some s) :
      HeapStep x (.sys l) { x with sys := s }
  | createSet (c : CtxId) (size : Nat) (allowed dma : BitVec 64) (a : Nat) (s : State)
      (ha : x.Vacant a) (hs : system.step x.sys (.createSet c size allowed dma) = some s) :
      HeapStep x (.createSet c size allowed dma a) ⟨s, Function.update x.addr x.sys.nBuf a⟩

theorem HeapStep.of_step (h : heapSystem.step x l = some x') : HeapStep x l x' := by
  cases l with
  | sys l =>
    change (if l.creates then none else _) = some x' at h
    split at h
    · cases h
    · rename_i hl
      obtain ⟨s, hs, rfl⟩ := Option.map_eq_some_iff.mp h
      exact .sys l s (Bool.eq_false_iff.mpr hl) hs
  | createSet c size allowed dma a =>
    change (if x.Vacant a then _ else none) = some x' at h
    split at h
    · rename_i ha
      obtain ⟨s, hs, rfl⟩ := Option.map_eq_some_iff.mp h
      exact .createSet c size allowed dma a s ha hs
    · cases h

theorem heapSystem_sys (h : heapSystem.ReachableBy OwnersFresh x) :
    system.ReachableBy AddrFresh x.sys := by
  induction h with
  | init => exact .init
  | step _ hC hs ih =>
    cases HeapStep.of_step hs with
    | sys l s _ hsys => exact ih.step hC hsys
    | createSet c size allowed dma a s _ hsys => exact ih.step hC hsys

/-- Two buffers that exist have different addresses. -/
def Apart (x : HeapState) : Prop :=
  ∀ b b', x.sys.Allocated (.buf b) → x.sys.Allocated (.buf b') → x.addr b = x.addr b' → b = b'

theorem Apart.step (h : Apart x) (hs : HeapStep x l x') : Apart x' := by
  cases hs with
  | sys l s hl hs =>
    have hold : ∀ {b}, s.Allocated (.buf b) → x.sys.Allocated (.buf b) := fun hb =>
      (allocated_cases (Step.of_step hs) hb).resolve_right fun hnew => by
        rw [hl] at hnew
        cases hnew.1
    exact fun b b' hb hb' => h b b' (hold hb) (hold hb')
  | createSet c size allowed dma a s ha hs =>
    have hnew : Function.update x.addr x.sys.nBuf a x.sys.nBuf = a := Function.update_self ..
    have hold : ∀ {b}, x.sys.Allocated (.buf b) →
        Function.update x.addr x.sys.nBuf a b = x.addr b ∧ x.addr b ≠ a := fun hb =>
      ⟨Function.update_of_ne (Nat.ne_of_lt hb.1) .., ha _ hb.1 hb.2⟩
    intro b b' hb hb' haddr
    dsimp only at haddr
    rcases allocated_cases (Step.of_step hs) hb with hex | ⟨-, rfl⟩
    · rw [(hold hex).1] at haddr
      rcases allocated_cases (Step.of_step hs) hb' with hex' | ⟨-, rfl⟩
      · rw [(hold hex').1] at haddr
        exact h b b' hex hex' haddr
      · exact absurd (haddr.trans hnew) (hold hex).2
    · rw [hnew] at haddr
      rcases allocated_cases (Step.of_step hs) hb' with hex' | ⟨-, rfl⟩
      · rw [(hold hex').1] at haddr
        exact absurd haddr.symm (hold hex').2
      · rfl

theorem apart_reachable (h : heapSystem.Reachable x) : Apart x :=
  Machine.Reachable.invariant (fun b _ hb => absurd hb.1 (Nat.not_lt_zero b))
    (fun _ _ _ hI hs => hI.step (HeapStep.of_step hs)) h

/-! ## The contract of the slots -/

/-- As long as a new context does not get the address of the owner of a buffer that still exists,
the table of the slots, the slots of the buffers, the counter and the table of the device agree,
and the pointers in the table are those of buffers that exist. -/
theorem slot_pointers_agree (h : heapSystem.ReachableBy OwnersFresh x) : PointersAgree x := by
  have hsys := heapSystem_sys h
  have hagree := slotsAgree_reachable hsys.reachable
  have hlive : ∀ {i b}, x.sys.buffSlots i = some b → x.sys.Allocated (.buf b) := fun hb =>
    allocated_of_bound hsys ((hagree.bound_iff _ _).mp hb)
  refine ⟨hagree, fun i b hb => ⟨fun hptr => ?_, fun hslot => ?_⟩, fun i a hptr => ?_⟩
  · obtain ⟨b', hb', haddr⟩ := Option.map_eq_some_iff.mp hptr
    obtain rfl := apart_reachable h.reachable b' b (hlive hb') hb haddr
    exact (hagree.bound_iff i b').mp hb'
  · exact Option.map_eq_some_iff.mpr ⟨b, (hagree.bound_iff i b).mpr hslot, rfl⟩
  · obtain ⟨b, hb, haddr⟩ := Option.map_eq_some_iff.mp hptr
    exact ⟨b, hlive hb, haddr⟩

/-- The steps of the driver that create nothing. -/
def heapSteps (ls : List Label) : List HeapLabel := ls.map .sys

/-- A context with one buffer, at the address 0x100. -/
def openOneAt : List HeapLabel := [.sys (.openCtx 7), .createSet 0 4096 0x20 0x1000 0x100]

/-- The buffer of a write is bound. -/
theorem slot_pointers_agree_bound :
    ∃ x, heapSystem.ReachableBy OwnersFresh x ∧ x.slotPtr 0 = some 0x100 ∧ x.sys.freeSlots = 15 ∧
      PointersAgree x := by
  have hseen : ((heapSystem.guarded OwnersFresh).exec heapSystem.init
      (openOneAt ++ heapSteps (writeCall 0 0 0 (fun _ => 0) ++ startEmpty))).map
      (fun x => (x.slotPtr 0, x.sys.freeSlots)) = some (some 0x100, 15) := by decide +kernel
  obtain ⟨x, hx, hf⟩ := Option.map_eq_some_iff.mp hseen
  obtain ⟨hptr, hfree⟩ := Prod.mk.inj hf
  have hr : heapSystem.ReachableBy OwnersFresh x :=
    Machine.ReachableBy.of_guarded (m := heapSystem) .init hx
  exact ⟨x, hr, hptr, hfree, slot_pointers_agree hr⟩

/-- A context is closed while the file of its buffer stays open, a new context gets its address
and queues a RUN on the buffer, whose file is then closed. The worker binds the buffer, and the
new context creates one at the same address. In the code the slot is bound between the critical
section of `dicedev_buffer_destroy` and the `kfree` behind it. -/
def staleBind : List HeapLabel :=
  openOneAt ++ heapSteps ([.releaseMark 0, .releaseWait 0, .releaseBuffer 0, .releaseFree 0,
    .openCtx 7, .run 1 0 0 0 4 false true, .runCount 0, .runQueue 0, .close 0, .bufferRelease 0] ++
    workerSteps 6) ++ [.createSet 1 4096 0x20 0x2000 0x100]

/-- The entry of slot 0 points to the new buffer, which has no slot. -/
theorem stale_slot :
    ∃ x, heapSystem.exec heapSystem.init staleBind = some x ∧ x.sys.Allocated (.buf 1) ∧
      x.slotPtr 0 = some (x.addr 1) ∧ (x.sys.bufs 1).bindedSlot = none ∧ ¬ PointersAgree x := by
  have hseen : (heapSystem.exec heapSystem.init staleBind).map (fun x =>
      (decide (x.sys.Allocated (.buf 1)), decide (x.slotPtr 0 = some (x.addr 1)),
        (x.sys.bufs 1).bindedSlot)) = some (true, true, none) := by decide +kernel
  obtain ⟨x, hx, hf⟩ := Option.map_eq_some_iff.mp hseen
  simp only [Prod.mk.injEq, decide_eq_true_eq] at hf
  obtain ⟨hex, hptr, hslot⟩ := hf
  refine ⟨x, hx, hex, hptr, hslot, fun h => ?_⟩
  cases hslot.symm.trans ((h.pointer_iff 0 1 hex).mp hptr)

end Dicedev
