import Mathlib.Data.Nat.Bitwise
import Mathlib.Data.Nat.Digits.Defs
import Mathlib.Tactic.Ring

/-!
# Numbers as packed fields

A number is read as a list of fields of `s` bits each, the lowest first. The lemmas are about
adding up neighbouring fields in parallel: `Fields.add_halves`, `Fields.sub_halves` and
`Fields.add_then_mask` are the three ways in which bit counts do it. Each of them halves the
number of fields, doubles their width and keeps their sum, as long as no field overflows.
-/

namespace Packed

/-- Neighbours in a list. -/
def pairs : List ℕ → List (ℕ × ℕ)
  | [] => []
  | [a] => [(a, 0)]
  | a :: b :: ds => (a, b) :: pairs ds

/-- The sums of neighbours. -/
def sums (ds : List ℕ) : List ℕ := (pairs ds).map fun p => p.1 + p.2

/-- The mask for the lower halves of `n` fields of `2 * s` bits. -/
def lowMask (s n : ℕ) : ℕ := Nat.ofDigits (2 ^ (2 * s)) (List.replicate n (2 ^ s - 1))

/-- `x` consists of the `n` fields `ds` of `s` bits, which are at most `c`. -/
structure Fields (s n c : ℕ) (ds : List ℕ) (x : ℕ) : Prop where
  value : x = Nat.ofDigits (2 ^ s) ds
  length : ds.length = n
  le : ∀ d ∈ ds, d ≤ c

variable {s n c x : ℕ} {ds : List ℕ}

/-! ## Pairs of fields -/

/-- The number whose fields of `2 * s` bits have the given halves. -/
def join (s : ℕ) (ps : List (ℕ × ℕ)) : ℕ :=
  Nat.ofDigits (2 ^ (2 * s)) (ps.map fun p => p.1 + 2 ^ s * p.2)

theorem join_nil (s : ℕ) : join s [] = 0 := rfl

theorem join_cons (s : ℕ) (p : ℕ × ℕ) (ps : List (ℕ × ℕ)) :
    join s (p :: ps) = p.1 + 2 ^ s * p.2 + 2 ^ (2 * s) * join s ps := Nat.ofDigits_cons

theorem lowMask_succ (s n : ℕ) : lowMask s (n + 1) = 2 ^ s - 1 + 2 ^ (2 * s) * lowMask s n :=
  Nat.ofDigits_cons

theorem two_pow_double (s : ℕ) : 2 ^ (2 * s) = 2 ^ s * 2 ^ s := by
  rw [two_mul, pow_add]

/-- Fields of `s` bits are halves of fields of `2 * s` bits. -/
theorem ofDigits_eq_join (s : ℕ) (ds : List ℕ) : Nat.ofDigits (2 ^ s) ds = join s (pairs ds) := by
  fun_induction pairs ds with
  | case1 => rfl
  | case2 a => simp [join]
  | case3 a b ds ih =>
    rw [join_cons, Nat.ofDigits_cons, Nat.ofDigits_cons, ih, two_pow_double]
    ring

theorem length_pairs (ds : List ℕ) : (pairs ds).length = (ds.length + 1) / 2 := by
  fun_induction pairs ds with
  | case1 => rfl
  | case2 a => simp
  | case3 a b ds ih =>
    rw [List.length_cons, ih, List.length_cons, List.length_cons]
    omega

theorem pairs_le (h : ∀ d ∈ ds, d ≤ c) : ∀ p ∈ pairs ds, p.1 ≤ c ∧ p.2 ≤ c := by
  fun_induction pairs ds with
  | case1 => simp
  | case2 a => simpa using h
  | case3 a b ds ih =>
    simp only [List.mem_cons, forall_eq_or_imp] at h ⊢
    exact ⟨⟨h.1, h.2.1⟩, ih h.2.2⟩

/-- Adding up neighbours keeps the sum. -/
theorem sum_sums (ds : List ℕ) : (sums ds).sum = ds.sum := by
  unfold sums
  fun_induction pairs ds with
  | case1 => rfl
  | case2 a => rfl
  | case3 a b ds ih =>
    rw [List.map_cons, List.sum_cons, ih, List.sum_cons, List.sum_cons]
    ring

/-! ## Halves under a mask -/

/-- A mask in two parts. -/
theorem and_split {m k : ℕ} (hm : m < 2 ^ k) (x M : ℕ) :
    x &&& (m + 2 ^ k * M) = (x % 2 ^ k &&& m) + 2 ^ k * (x / 2 ^ k &&& M) := by
  have hmod : (m + 2 ^ k * M) % 2 ^ k = m := by
    rw [Nat.add_mul_mod_self_left, Nat.mod_eq_of_lt hm]
  have hdiv : (m + 2 ^ k * M) / 2 ^ k = M := by
    rw [Nat.add_mul_div_left _ _ (Nat.two_pow_pos k), Nat.div_eq_of_lt hm, Nat.zero_add]
  calc x &&& (m + 2 ^ k * M)
      = (x &&& (m + 2 ^ k * M)) % 2 ^ k + 2 ^ k * ((x &&& (m + 2 ^ k * M)) / 2 ^ k) :=
        (Nat.mod_add_div _ _).symm
    _ = (x % 2 ^ k &&& m) + 2 ^ k * (x / 2 ^ k &&& M) := by
        rw [Nat.and_mod_two_pow, Nat.and_div_two_pow, hmod, hdiv]

/-- The lower half of the lowest field and the rest. -/
theorem and_lowMask_succ (s n x : ℕ) :
    x &&& lowMask s (n + 1) = x % 2 ^ s + 2 ^ (2 * s) * (x / 2 ^ (2 * s) &&& lowMask s n) := by
  have hpos := Nat.two_pow_pos s
  have hm : 2 ^ s - 1 < 2 ^ (2 * s) := by
    have hle : 2 ^ s ≤ 2 ^ (2 * s) := Nat.pow_le_pow_right (by decide) (by omega)
    omega
  rw [lowMask_succ, and_split hm, Nat.and_two_pow_sub_one_eq_mod,
    Nat.mod_mod_of_dvd _ (Nat.pow_dvd_pow 2 (by omega))]

/-- Lower halves of which no carry gets into the next one. -/
theorem and_lowMask_cons {a b : ℕ} (ha : a < 2 ^ s) (hb : b < 2 ^ s) (n y : ℕ) :
    (a + 2 ^ s * b + 2 ^ (2 * s) * y) &&& lowMask s (n + 1) =
      a + 2 ^ (2 * s) * (y &&& lowMask s n) := by
  have hlow : a + 2 ^ s * b < 2 ^ (2 * s) := by
    rw [two_pow_double]
    calc a + 2 ^ s * b < 2 ^ s + 2 ^ s * b := Nat.add_lt_add_right ha _
      _ = 2 ^ s * (b + 1) := by ring
      _ ≤ 2 ^ s * 2 ^ s := Nat.mul_le_mul_left _ hb
  have hmod : (a + 2 ^ s * b + 2 ^ (2 * s) * y) % 2 ^ s = a := by
    have hfactor : a + 2 ^ s * b + 2 ^ (2 * s) * y = a + 2 ^ s * (b + 2 ^ s * y) := by
      rw [two_pow_double]
      ring
    rw [hfactor, Nat.add_mul_mod_self_left, Nat.mod_eq_of_lt ha]
  rw [and_lowMask_succ, hmod, Nat.add_mul_div_left _ _ (Nat.two_pow_pos _),
    Nat.div_eq_of_lt hlow, Nat.zero_add]

variable {ps : List (ℕ × ℕ)}

theorem join_and_lowMask (h : ∀ p ∈ ps, p.1 < 2 ^ s ∧ p.2 < 2 ^ s) :
    join s ps &&& lowMask s ps.length = Nat.ofDigits (2 ^ (2 * s)) (ps.map Prod.fst) := by
  induction ps with
  | nil => exact Nat.zero_and _
  | cons p ps ih =>
    simp only [List.mem_cons, forall_eq_or_imp] at h
    rw [join_cons, List.length_cons, and_lowMask_cons h.1.1 h.1.2, ih h.2, List.map_cons,
      Nat.ofDigits_cons]

/-- The field above, seen after a shift by one field. -/
theorem join_shift_cons {p : ℕ × ℕ} (hp : p.1 < 2 ^ s) (ps : List (ℕ × ℕ)) :
    join s (p :: ps) >>> s =
      p.2 + 2 ^ s * (join s ps % 2 ^ s) + 2 ^ (2 * s) * (join s ps >>> s) := by
  have hfactor : join s (p :: ps) = p.1 + 2 ^ s * (p.2 + 2 ^ s * join s ps) := by
    rw [join_cons, two_pow_double]
    ring
  rw [Nat.shiftRight_eq_div_pow, hfactor, Nat.add_mul_div_left _ _ (Nat.two_pow_pos s),
    Nat.div_eq_of_lt hp, Nat.zero_add, Nat.shiftRight_eq_div_pow]
  nth_rewrite 1 [← Nat.mod_add_div (join s ps) (2 ^ s)]
  rw [two_pow_double]
  ring

theorem join_shift_and_lowMask (h : ∀ p ∈ ps, p.1 < 2 ^ s ∧ p.2 < 2 ^ s) :
    (join s ps >>> s) &&& lowMask s ps.length =
      Nat.ofDigits (2 ^ (2 * s)) (ps.map Prod.snd) := by
  induction ps with
  | nil =>
    rw [join_nil, Nat.zero_shiftRight]
    exact Nat.zero_and _
  | cons p ps ih =>
    simp only [List.mem_cons, forall_eq_or_imp] at h
    have hmod := Nat.mod_lt (join s ps) (Nat.two_pow_pos s)
    rw [join_shift_cons h.1.1, List.length_cons, and_lowMask_cons h.1.2 hmod, ih h.2,
      List.map_cons, Nat.ofDigits_cons]

theorem ofDigits_map_add (B : ℕ) (ps : List (ℕ × ℕ)) :
    Nat.ofDigits B (ps.map fun p => p.1 + p.2) =
      Nat.ofDigits B (ps.map Prod.fst) + Nat.ofDigits B (ps.map Prod.snd) := by
  induction ps with
  | nil => rfl
  | cons p ps ih =>
    simp only [List.map_cons, Nat.ofDigits_cons, ih]
    ring

theorem join_eq_add (s : ℕ) (ps : List (ℕ × ℕ)) :
    join s ps = Nat.ofDigits (2 ^ (2 * s)) (ps.map Prod.fst) +
      2 ^ s * Nat.ofDigits (2 ^ (2 * s)) (ps.map Prod.snd) := by
  induction ps with
  | nil => rfl
  | cons p ps ih =>
    simp only [join_cons, List.map_cons, Nat.ofDigits_cons, ih]
    ring

/-! ## Adding up neighbours -/

/-- The lowest `n` bits of `x`. -/
def bits (n x : ℕ) : List ℕ := (List.range n).map fun i => (x.testBit i).toNat

theorem bits_succ (n x : ℕ) : bits (n + 1) x = x % 2 :: bits n (x / 2) := by
  rw [bits, List.range_succ_eq_map, List.map_cons, List.map_map]
  refine congrArg₂ List.cons ?_ ?_
  · rw [Nat.testBit_zero]
    rcases Nat.mod_two_eq_zero_or_one x with h | h <;> simp [h]
  · refine List.map_congr_left fun i _ => ?_
    simp only [Function.comp_apply, Nat.succ_eq_add_one, Nat.testBit_succ]

namespace Fields

/-- A number consists of its bits. -/
theorem of_lt (h : x < 2 ^ n) : Fields 1 n 1 (bits n x) x := by
  refine ⟨?_, by rw [bits, List.length_map, List.length_range], ?_⟩
  · induction n generalizing x with
    | zero => exact Nat.lt_one_iff.mp h
    | succ n ih =>
      have hhalf : x / 2 < 2 ^ n := by
        rw [Nat.pow_succ] at h
        omega
      have hrest := ih hhalf
      rw [bits_succ, Nat.ofDigits_cons, ← hrest]
      omega
  · intro d hd
    obtain ⟨i, -, rfl⟩ := List.mem_map.mp hd
    exact Bool.toNat_le _

theorem lt (h : Fields s n c ds x) (hs : 0 < s) (hc : c < 2 ^ s) : x < 2 ^ (s * n) := by
  rw [h.value, pow_mul, ← h.length]
  refine Nat.ofDigits_lt_base_pow_length (Nat.one_lt_two_pow hs.ne') fun d hd => ?_
  exact Nat.lt_of_le_of_lt (h.le d hd) hc

/-- Where a sum of two fields fits into a field, the number can be added to its shift. -/
theorem add_shift_lt (h : Fields s n c ds x) (hs : 0 < s) (hc : 2 * c < 2 ^ s) :
    x + x >>> s < 2 ^ (s * n) := by
  have hdouble : Fields s n (2 * c) (ds.map (2 * ·)) (2 * x) := by
    refine ⟨by rw [h.value, Nat.mul_ofDigits], by rw [List.length_map, h.length], ?_⟩
    intro d hd
    obtain ⟨e, he, rfl⟩ := List.mem_map.mp hd
    exact Nat.mul_le_mul_left 2 (h.le e he)
  have hlt := hdouble.lt hs hc
  have hshift := Nat.shiftRight_le x s
  omega

theorem join_eq (h : Fields s n c ds x) : x = join s (pairs ds) :=
  h.value.trans (ofDigits_eq_join s ds)

/-- The sums of neighbours in fields of twice the width. -/
theorem of_sums {y : ℕ} (h : Fields s (2 * n) c ds x)
    (hy : y = Nat.ofDigits (2 ^ (2 * s)) (sums ds)) : Fields (2 * s) n (2 * c) (sums ds) y := by
  refine ⟨hy, ?_, ?_⟩
  · rw [sums, List.length_map, length_pairs, h.length]
    omega
  · intro d hd
    obtain ⟨p, hp, rfl⟩ := List.mem_map.mp hd
    obtain ⟨h₁, h₂⟩ := pairs_le h.le p hp
    omega

theorem length_pairs (h : Fields s (2 * n) c ds x) : (pairs ds).length = n := by
  rw [Packed.length_pairs, h.length]
  omega

theorem pairs_lt (h : Fields s n c ds x) (hc : c < 2 ^ s) :
    ∀ p ∈ pairs ds, p.1 < 2 ^ s ∧ p.2 < 2 ^ s := by
  intro p hp
  obtain ⟨h₁, h₂⟩ := pairs_le h.le p hp
  exact ⟨Nat.lt_of_le_of_lt h₁ hc, Nat.lt_of_le_of_lt h₂ hc⟩

/-- Both halves are masked and added. -/
theorem add_halves (h : Fields s (2 * n) c ds x) (hc : c < 2 ^ s) :
    Fields (2 * s) n (2 * c) (sums ds)
      ((x &&& lowMask s n) + (x >>> s &&& lowMask s n)) := by
  refine h.of_sums ?_
  have hlt := h.pairs_lt hc
  have hlow := join_and_lowMask hlt
  have hhigh := join_shift_and_lowMask hlt
  rw [h.length_pairs] at hlow hhigh
  rw [h.join_eq, hlow, hhigh, sums, ofDigits_map_add]

/-- For fields of one bit the upper half can be subtracted instead. -/
theorem sub_halves (h : Fields 1 (2 * n) 1 ds x) :
    Fields 2 n 2 (sums ds) (x - (x >>> 1 &&& lowMask 1 n)) := by
  refine h.of_sums ?_
  have hhigh := join_shift_and_lowMask (h.pairs_lt (by decide))
  rw [h.length_pairs] at hhigh
  rw [h.join_eq, hhigh, join_eq_add, sums, ofDigits_map_add]
  omega

/-- Where a sum fits into a field, the mask can come last. -/
theorem add_then_mask (h : Fields s (2 * n) c ds x) (hc : 2 * c < 2 ^ s) :
    Fields (2 * s) n (2 * c) (sums ds) ((x + x >>> s) &&& lowMask s n) := by
  refine h.of_sums ?_
  have hle := pairs_le h.le
  rw [h.join_eq, ← h.length_pairs, sums]
  generalize pairs ds = ps at hle
  induction ps with
  | nil =>
    rw [join_nil, Nat.zero_shiftRight]
    exact Nat.zero_and _
  | cons p ps ih =>
    simp only [List.mem_cons, forall_eq_or_imp] at hle
    -- the lowest field of the rest is a field too
    have hfirst : join s ps % 2 ^ s ≤ c := by
      cases ps with
      | nil => exact (Nat.zero_mod _).le.trans (Nat.zero_le c)
      | cons q qs =>
        have hq := hle.2 q (List.mem_cons_self ..)
        have hlt : q.1 < 2 ^ s := by omega
        have hfactor : join s (q :: qs) = q.1 + 2 ^ s * (q.2 + 2 ^ s * join s qs) := by
          rw [join_cons, two_pow_double]
          ring
        rw [hfactor, Nat.add_mul_mod_self_left, Nat.mod_eq_of_lt hlt]
        exact hq.1
    have hadd : join s (p :: ps) + join s (p :: ps) >>> s =
        p.1 + p.2 + 2 ^ s * (p.2 + join s ps % 2 ^ s) +
          2 ^ (2 * s) * (join s ps + join s ps >>> s) := by
      rw [join_shift_cons (by omega), join_cons]
      ring
    rw [hadd, List.length_cons, and_lowMask_cons (by omega) (by omega), ih hle.2, List.map_cons,
      Nat.ofDigits_cons]

end Fields

end Packed
