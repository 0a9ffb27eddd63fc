import Mathlib.Data.Nat.Count
import Mathlib.Logic.Function.Basic

/-!
# Counting the entries of a table

A table is a function from natural numbers whose first `n` entries are in use. `tally P f n`
counts those with the property `P`. The lemmas say how the count moves when one entry is
written and when the table grows by one entry, which is what a reference counter has to
follow.
-/

namespace Tally

variable {α : Type*} {P : α → Prop} [DecidablePred P] {f : ℕ → α} {n i : ℕ} {x : α}

/-- The number of entries below `n` with the property `P`. -/
def tally (P : α → Prop) [DecidablePred P] (f : ℕ → α) (n : ℕ) : ℕ :=
  Nat.count (fun i => P (f i)) n

theorem tally_succ (P : α → Prop) [DecidablePred P] (f : ℕ → α) (n : ℕ) :
    tally P f (n + 1) = tally P f n + if P (f n) then 1 else 0 :=
  Nat.count_succ _ n

/-- An entry at or above `n` is not counted. -/
theorem tally_update_of_le (h : n ≤ i) : tally P (Function.update f i x) n = tally P f n := by
  induction n with
  | zero => rfl
  | succ n ih =>
    rw [tally_succ, tally_succ, ih (Nat.le_of_succ_le h),
      Function.update_of_ne (Nat.ne_of_lt h)]

/-- A new entry at the end. -/
theorem tally_push :
    tally P (Function.update f n x) (n + 1) = tally P f n + if P x then 1 else 0 := by
  rw [tally_succ, tally_update_of_le (Nat.le_refl n), Function.update_self]

/-- One entry is replaced: the old one leaves the count and the new one enters it. -/
theorem tally_set (h : i < n) :
    tally P (Function.update f i x) n + (if P (f i) then 1 else 0) =
      tally P f n + if P x then 1 else 0 := by
  induction n with
  | zero => exact absurd h (Nat.not_lt_zero i)
  | succ n ih =>
    rw [tally_succ, tally_succ]
    rcases Nat.lt_or_eq_of_le (Nat.le_of_lt_succ h) with hlt | heq
    · have hrec := ih hlt
      rw [Function.update_of_ne (Nat.ne_of_gt hlt)]
      omega
    · subst heq
      rw [tally_update_of_le (Nat.le_refl i), Function.update_self]
      omega

theorem tally_pos (h : i < n) (hP : P (f i)) : 0 < tally P f n := by
  have hcount := Nat.count_strict_mono (p := fun i => P (f i)) hP h
  exact Nat.lt_of_le_of_lt (Nat.zero_le _) hcount

/-- Nothing counted, no entry with the property. -/
theorem not_of_tally_eq_zero (h : tally P f n = 0) (hi : i < n) : ¬ P (f i) := fun hP =>
  absurd h (Nat.ne_of_gt (tally_pos hi hP))

theorem tally_eq_zero (h : ∀ i, i < n → ¬ P (f i)) : tally P f n = 0 := by
  induction n with
  | zero => rfl
  | succ n ih =>
    rw [tally_succ, ih fun i hi => h i (Nat.lt_succ_of_lt hi), if_neg (h n (Nat.lt_succ_self n))]

end Tally
