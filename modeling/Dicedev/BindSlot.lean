import Dicedev.Commands
import Dicedev.CreateSet

/-!
# The words of `BIND_SLOT`

A user chooses the allowed types of a buffer in `DICEDEV_IOCTL_CREATE_SET` and its seed in
`DICEDEV_BUFFER_IOCTL_SEED`. When the buffer is bound the device gets them in four words, next to
the slot and the address of the page table. `decodeBind` reads these words. The slot and the
address arrive unchanged. The ioctls accept a seed of 32 bits and an `allowed` of 33; there are 20
bits for the seed in the first word, and the second word and the field `allowed` of the buffer
have 32 bits: `bind_slot_faithful_iff`.
-/

namespace Dicedev

/-- What the device learns about a slot. -/
structure BindFields where
  slot : Slot
  seed : Word
  allowed : BitVec 64
  dma : BitVec 64
  deriving DecidableEq, Repr

/-- The fields of a `BIND_SLOT` command. -/
def decodeBind : List Word → Option BindFields
  | [w0, w1, w2, w3] =>
    some ⟨slotField 4 w0, (Bits.field 12 20 w0).setWidth 32, w1.setWidth 64, w3 ++ w2⟩
  | _ => none

/-- The last command of the stream. -/
def State.lastWords (s : State) : Option (List Word) := s.stream.getLast?.map Fed.words

/-- A buffer is created on this request, its seed is set, and it is bound to slot `i`: the words
that `bind_slot` feeds. -/
def State.bindWords (s : State) (c : CtxId) (cs : CreateSet) (seed : Word) (dma : BitVec 64)
    (i : Slot) : Option (List Word) := do
  let s₁ ← s.dicedevIoctlCreateSet c cs.bytes cs.allowed dma
  let s₂ ← s₁.dicedevBufferIoctl s.nBuf seed
  match s₂.bindSlot s.nBuf (some i) with
  | .error _ => none
  | .ok s₃ => s₃.lastWords

/-- The device gets the buffer's fields, the seed cut to 20 bits. -/
theorem decode_bindCmd (i : Slot) (buf : Buffer) :
    decodeBind (bindCmd i buf) =
      some ⟨i, (buf.seed.setWidth 20).setWidth 32, buf.allowed.setWidth 64, buf.dmaHandler⟩ := by
  have hdma : (buf.dmaHandler >>> 32).setWidth 32 ++ buf.dmaHandler.setWidth 32 =
      buf.dmaHandler := Bits.append_parts (n := 32) (m := 32) buf.dmaHandler
  simp only [bindCmd, decodeBind, slotField_bind, seedField_bind, hdma]

theorem lastWords_bindTo (s : State) (b : BufId) (i : Slot) :
    (s.bindTo b i).lastWords = some (bindCmd i (s.bufs b)) := by
  have hstream : (s.bindTo b i).stream = s.stream ++ [⟨bindCmd i (s.bufs b), .bind b⟩] := by
    change (s.trace ++ [Event.feed _]).filterMap Event.fed? = _
    rw [List.filterMap_append]
    rfl
  rw [State.lastWords, hstream, List.getLast?_concat]
  rfl

variable {s : State} {c : CtxId} {cs : CreateSet} {i : Slot}

/-- The buffer of an accepted request once its seed has been set. -/
def userBuffer (c : CtxId) (cs : CreateSet) (seed : Word) (dma : BitVec 64) : Buffer :=
  { State.newBuffer c cs.bytes cs.allowed dma with seedChg := true, seed := seed.setWidth 64 }

/-- An accepted request, an accepted seed and an empty slot: the command is fed. -/
theorem bindWords_eq (hopen : (s.ctxs c).phase = .opened) (hcs : cs.Valid)
    (hslot : s.buffSlots i = none) (seed : Word) (dma : BitVec 64) :
    s.bindWords c cs seed dma i = some (bindCmd i (userBuffer c cs seed dma)) := by
  have hcreate : s.dicedevIoctlCreateSet c cs.bytes cs.allowed dma =
      some (s.addSet c cs.bytes cs.allowed dma) := by
    rw [State.dicedevIoctlCreateSet, if_pos hopen, if_neg hcs.passes]
    rfl
  have hbuf : (s.addSet c cs.bytes cs.allowed dma).bufs s.nBuf =
      State.newBuffer c cs.bytes cs.allowed dma := Function.update_self ..
  have hseed : (s.addSet c cs.bytes cs.allowed dma).dicedevBufferIoctl s.nBuf seed =
      some ((s.addSet c cs.bytes cs.allowed dma).updBuf s.nBuf fun buf =>
        { buf with seedChg := true, seed := seed.setWidth 64 }) := by
    rw [State.dicedevBufferIoctl, hbuf]
    exact if_pos Nat.one_pos
  unfold State.bindWords
  rw [hcreate, Option.bind_eq_bind, Option.bind_some, hseed, Option.bind_some]
  generalize hs₂ : (s.addSet c cs.bytes cs.allowed dma).updBuf s.nBuf (fun buf =>
    { buf with seedChg := true, seed := seed.setWidth 64 }) = s₂
  have hempty : ¬ s₂.buffSlots i ≠ none := by
    rw [← hs₂, not_not]
    exact hslot
  have huser : s₂.bufs s.nBuf = userBuffer c cs seed dma := by
    rw [← hs₂, State.updBuf, hbuf]
    exact Function.update_self ..
  rw [State.bindSlot, if_neg hempty, ← huser]
  exact lastWords_bindTo s₂ s.nBuf i

/-! ## What gets lost -/

theorem seed_cut_iff (seed : Word) :
    ((seed.setWidth 64).setWidth 20).setWidth 32 = seed ↔ seed.toNat < 2 ^ 20 := by
  rw [← BitVec.toNat_inj]
  simp only [BitVec.toNat_setWidth]
  have hlt := seed.isLt
  omega

theorem allowed_cut_iff (allowed : BitVec 64) :
    (allowed.setWidth 32).setWidth 64 = allowed ↔ allowed.toNat < 2 ^ 32 := by
  rw [← BitVec.toNat_inj]
  simp only [BitVec.toNat_setWidth]
  have hlt := allowed.isLt
  omega

/-- The words that `bind_slot` feeds name the slot and the address of the page table, and they
name the seed and the allowed types that the user has chosen exactly if the seed has 20 bits and
`allowed` has 32. -/
theorem bind_slot_faithful_iff (seed : Word) (dma : BitVec 64)
    (hopen : (s.ctxs c).phase = .opened) (hcs : cs.Valid) (hslot : s.buffSlots i = none) :
    ∃ f, (s.bindWords c cs seed dma i).bind decodeBind = some f ∧ f.slot = i ∧ f.dma = dma ∧
      (f = ⟨i, seed, cs.allowed, dma⟩ ↔ seed.toNat < 2 ^ 20 ∧ cs.allowed.toNat < 2 ^ 32) := by
  rw [bindWords_eq hopen hcs hslot, Option.bind_some, decode_bindCmd]
  refine ⟨_, rfl, rfl, rfl, ?_⟩
  rw [← seed_cut_iff, ← allowed_cut_iff]
  simp only [userBuffer, State.newBuffer, BindFields.mk.injEq, true_and, and_true]

/-- The largest seed and the largest `allowed` that fit. -/
theorem bind_slot_faithful_iff_largest :
    ∃ s, Reachable s ∧ (s.bindWords 0 ⟨4096, 0xFFFFFFFF⟩ 0xFFFFF 0xFFFFFFF000 15).bind decodeBind =
      some ⟨15, 0xFFFFF, 0xFFFFFFFF, 0xFFFFFFF000⟩ := by
  have hseen : seenAfter [.openCtx 7] (fun s => ((s.ctxs 0).phase, s.buffSlots 15)) =
      some (.opened, none) := by decide
  obtain ⟨s, -, hr, hf⟩ := exists_seenAfter hseen
  simp only [Prod.mk.injEq] at hf
  have hcs : (⟨4096, 0xFFFFFFFF⟩ : CreateSet).Valid := ⟨by decide, by decide, by decide⟩
  obtain ⟨f, hdecode, -, -, hiff⟩ :=
    bind_slot_faithful_iff 0xFFFFF 0xFFFFFFF000 hf.1 hcs hf.2
  exact ⟨s, hr, hdecode.trans (congrArg some (hiff.mpr ⟨by decide, by decide⟩))⟩

/-- The smallest seed that does not fit arrives as zero, and so does the smallest `allowed`. -/
theorem bind_slot_cuts :
    ∃ s, Reachable s ∧ (⟨4096, 0x100000000⟩ : CreateSet).Valid ∧
      (s.bindWords 0 ⟨4096, 0x100000000⟩ 0x100000 0x1000 0).bind decodeBind =
        some ⟨0, 0, 0, 0x1000⟩ := by
  have hseen : seenAfter [.openCtx 7] (fun s =>
      (s.bindWords 0 ⟨4096, 0x100000000⟩ 0x100000 0x1000 0).bind decodeBind) =
      some (some ⟨0, 0, 0, 0x1000⟩) := by decide +kernel
  obtain ⟨s, -, hr, hf⟩ := exists_seenAfter hseen
  exact ⟨s, hr, ⟨by decide, by decide, by decide⟩, hf⟩

end Dicedev
