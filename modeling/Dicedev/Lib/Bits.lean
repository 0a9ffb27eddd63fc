import Mathlib.Data.BitVec

/-!
# Fields of words

A field is a run of bits inside a word. The lemmas say what the operations that build
command words do to a field: a union is a union of fields, a value shifted to the start of
a field fills it, a value shifted beyond a field does not touch it, and a mask test says
which bits are clear.
-/

namespace Bits

variable {n m k w i : Nat} {x y : BitVec n}

/-- The `w` bits of a word that start at position `k`. -/
def field (k w : Nat) (x : BitVec n) : BitVec w := x.extractLsb' k w

theorem getLsbD_field (x : BitVec n) (hi : i < w) :
    (field k w x).getLsbD i = x.getLsbD (k + i) := by
  unfold field
  rw [BitVec.getLsbD_extractLsb']
  simp [hi]

theorem field_or (x y : BitVec n) : field k w (x ||| y) = field k w x ||| field k w y := by
  apply BitVec.eq_of_getLsbD_eq
  intro i hi
  rw [BitVec.getLsbD_or, getLsbD_field _ hi, getLsbD_field _ hi, getLsbD_field _ hi,
    BitVec.getLsbD_or]

/-- A shifted value fills the field at the shift distance. -/
theorem field_shiftLeft (x : BitVec n) (h : k + w ≤ n) : field k w (x <<< k) = field 0 w x := by
  apply BitVec.eq_of_getLsbD_eq
  intro i hi
  rw [getLsbD_field _ hi, getLsbD_field _ hi, BitVec.getLsbD_shiftLeft]
  have h1 : k + i < n := by omega
  simp [h1]

/-- Below the shift distance there is nothing. -/
theorem field_shiftLeft_of_le (x : BitVec n) {d : Nat} (h : k + w ≤ d) :
    field k w (x <<< d) = 0#w := by
  apply BitVec.eq_of_getLsbD_eq
  intro i hi
  rw [getLsbD_field _ hi, BitVec.getLsbD_shiftLeft]
  have h1 : k + i < d := by omega
  simp [h1]

theorem field_setWidth (x : BitVec n) (h : k + w ≤ m) : field k w (x.setWidth m) = field k w x := by
  apply BitVec.eq_of_getLsbD_eq
  intro i hi
  rw [getLsbD_field _ hi, getLsbD_field _ hi, BitVec.getLsbD_setWidth]
  have h1 : k + i < m := by omega
  simp [h1]

/-- A word is put together again from its upper and its lower part. -/
theorem append_parts (x : BitVec (n + m)) : (x >>> m).setWidth n ++ x.setWidth m = x := by
  apply BitVec.eq_of_getLsbD_eq
  intro i hi
  rw [BitVec.getLsbD_append, BitVec.getLsbD_setWidth, BitVec.getLsbD_setWidth,
    BitVec.getLsbD_ushiftRight]
  by_cases hm : i < m
  · simp [hm]
  · have h1 : i - m < n := by omega
    have h2 : m + (i - m) = i := by omega
    simp [hm, h1, h2]

/-- A mask of low bits keeps the lowest field. -/
theorem and_lowMask (x : BitVec n) (w : Nat) :
    x &&& BitVec.ofNat n (2 ^ w - 1) = (field 0 w x).setWidth n := by
  apply BitVec.eq_of_getLsbD_eq
  intro i hi
  rw [BitVec.getLsbD_and, BitVec.getLsbD_ofNat, Nat.testBit_two_pow_sub_one,
    BitVec.getLsbD_setWidth]
  by_cases hw : i < w
  · rw [getLsbD_field _ hw]
    simp [hi, hw]
  · rw [BitVec.getLsbD_of_ge _ _ (Nat.le_of_not_lt hw)]
    simp [hw]

/-- A mask with the bits of a field keeps the field in its place. -/
theorem and_fieldMask (x : BitVec n)
    (h : ∀ i < n, y.getLsbD i = (decide (k ≤ i) && decide (i < k + w))) :
    x &&& y = (field k w x).setWidth n <<< k := by
  apply BitVec.eq_of_getLsbD_eq
  intro i hi
  rw [BitVec.getLsbD_and, h i hi, BitVec.getLsbD_shiftLeft, BitVec.getLsbD_setWidth]
  by_cases hk : k ≤ i
  · by_cases hw : i < k + w
    · have h1 : i - k < n := by omega
      rw [getLsbD_field x (by omega : i - k < w), Nat.add_sub_cancel' hk]
      simp [hi, hk, hw, h1]
    · rw [BitVec.getLsbD_of_ge _ _ (by omega : w ≤ i - k)]
      simp [hw]
  · have h1 : i < k := by omega
    simp [hk, h1]

/-- A field is a part of the value of a word. -/
theorem toNat_field (x : BitVec n) : (field k w x).toNat = x.toNat / 2 ^ k % 2 ^ w := by
  unfold field
  rw [BitVec.extractLsb'_toNat, Nat.shiftRight_eq_div_pow]

/-- A bit of the mask is clear in a word that the mask annihilates. -/
theorem getLsbD_of_and_eq_zero (h : x &&& y = 0#n) (hy : y.getLsbD i = true) :
    x.getLsbD i = false := by
  have hi := congrArg (fun z => BitVec.getLsbD z i) h
  simpa [hy] using hi

/-- A shifted value does not meet a mask that begins behind it. -/
theorem shiftLeft_and_eq_zero (x : BitVec m) {d : Nat}
    (h : ∀ i < n, y.getLsbD i = true → d + m ≤ i) : x.setWidth n <<< d &&& y = 0#n := by
  apply BitVec.eq_of_getLsbD_eq
  intro i hi
  rw [BitVec.getLsbD_and, BitVec.getLsbD_shiftLeft, BitVec.getLsbD_setWidth,
    BitVec.getLsbD_zero, Bool.and_eq_false_iff]
  cases hy : y.getLsbD i with
  | false => exact Or.inr rfl
  | true =>
    have hge := h i hi hy
    rw [BitVec.getLsbD_of_ge x (i - d) (by omega), Bool.and_false, Bool.and_false]
    exact Or.inl rfl

/-- A field with nothing above its lowest bit. -/
theorem field_eq_ofBool (x : BitVec n) (h : ∀ i, 0 < i → i < w → x.getLsbD (k + i) = false) :
    field k w x = (BitVec.ofBool (x.getLsbD k)).setWidth w := by
  apply BitVec.eq_of_getLsbD_eq
  intro i hi
  rw [getLsbD_field _ hi, BitVec.getLsbD_setWidth]
  rcases Nat.eq_zero_or_pos i with rfl | hpos
  · simp [hi]
  · rw [h i hpos hi]
    have h1 : i ≠ 0 := by omega
    simp [h1]

end Bits
