import Dicedev.Lib.Machine
import Mathlib.Order.WellFounded

/-!
# Infinite runs and weak fairness

A run is an infinite sequence of steps. It is fair to a label if the label is taken again and
again, or is again and again not enabled: a label that stays enabled is taken in the end.

* `Run.eventually` is the rule for what must happen. Every state that is not a goal names a
  label that helps. The label is enabled, every step that is taken lowers a rank or leaves the
  rank and the helpful label as they are, and the helpful label lowers it. The rank may be in
  any well-founded order.
* `Run.eventually_of_label` is the case of one label that stays enabled, and
  `Run.eventually_all` puts finitely many goals together.
* `exists_run` continues a finite run by a step that changes nothing, and `EndsIn.fair` says
  what such a run is fair to.
-/

universe u v

namespace Machine

variable {σ : Type u} {lab : Type v}

/-- The label `l` can be taken in `s`. -/
def Enabled (m : Machine σ lab) (s : σ) (l : lab) : Prop := m.step s l ≠ none

/-- An infinite sequence of steps, from any state. -/
structure Run (m : Machine σ lab) where
  state : Nat → σ
  label : Nat → lab
  step : ∀ k, m.step (state k) (label k) = some (state (k + 1))

variable {m : Machine σ lab}

theorem ReachableBy.mono {C D : σ → lab → Prop} (hCD : ∀ s l, C s l → D s l) {s : σ}
    (h : m.ReachableBy C s) : m.ReachableBy D s := by
  induction h with
  | init => exact .init
  | step _ hC hs ih => exact .step ih (hCD _ _ hC) hs

namespace Run

variable (r : m.Run)

/-- Weak fairness. -/
def Fair (l : lab) : Prop := ∀ k, ∃ j, k ≤ j ∧ (r.label j = l ∨ ¬ m.Enabled (r.state j) l)

variable {r}

theorem reachableBy {C : σ → lab → Prop} (h₀ : m.ReachableBy C (r.state 0))
    (hC : ∀ k, C (r.state k) (r.label k)) (k : Nat) : m.ReachableBy C (r.state k) := by
  induction k with
  | zero => exact h₀
  | succ k ih => exact .step ih (hC k) (r.step k)

/-- What every step from `n` on keeps. -/
theorem keeps {P : σ → Prop} {n : Nat} (h₀ : P (r.state n))
    (hstep : ∀ k, n ≤ k → P (r.state k) → P (r.state (k + 1))) {k : Nat} (hk : n ≤ k) :
    P (r.state k) :=
  Nat.le_induction h₀ hstep k hk

section

variable {ι : Type*} [Preorder ι] {rank : σ → ι} {help : σ → lab} {goal : σ → Prop} {n : Nat}

/-- Until the helpful label is taken, the rank falls or nothing changes. -/
theorem falls_or_keeps
    (hstep : ∀ k, n ≤ k → ¬ goal (r.state k) → ¬ goal (r.state (k + 1)) →
      rank (r.state (k + 1)) < rank (r.state k) ∨
        rank (r.state (k + 1)) = rank (r.state k) ∧
          help (r.state (k + 1)) = help (r.state k) ∧ r.label k ≠ help (r.state k))
    {k : Nat} (hk : n ≤ k) (hgoal : ∀ j, k ≤ j → ¬ goal (r.state j)) {j : Nat} (hj : k ≤ j) :
    (∃ i, k ≤ i ∧ rank (r.state i) < rank (r.state k)) ∨
      rank (r.state j) = rank (r.state k) ∧ help (r.state j) = help (r.state k) := by
  induction j, hj using Nat.le_induction with
  | base => exact Or.inr ⟨rfl, rfl⟩
  | succ j hj ih =>
    rcases ih with hfall | ⟨hrank, hhelp⟩
    · exact Or.inl hfall
    · have hkj : k ≤ j + 1 := Nat.le_succ_of_le hj
      rcases hstep j (Nat.le_trans hk hj) (hgoal j hj) (hgoal (j + 1) hkj) with
        hfall | ⟨hrank', hhelp', -⟩
      · exact Or.inl ⟨j + 1, hkj, hrank ▸ hfall⟩
      · exact Or.inr ⟨hrank'.trans hrank, hhelp'.trans hhelp⟩

/-- A goal is reached from every state of a fair run, if some enabled label always helps. -/
theorem eventually [WellFoundedLT ι] (goal : σ → Prop) (rank : σ → ι) (help : σ → lab)
    (hfair : ∀ k, n ≤ k → r.Fair (help (r.state k)))
    (hen : ∀ k, n ≤ k → ¬ goal (r.state k) → m.Enabled (r.state k) (help (r.state k)))
    (hstep : ∀ k, n ≤ k → ¬ goal (r.state k) → ¬ goal (r.state (k + 1)) →
      rank (r.state (k + 1)) < rank (r.state k) ∨
        rank (r.state (k + 1)) = rank (r.state k) ∧
          help (r.state (k + 1)) = help (r.state k) ∧ r.label k ≠ help (r.state k))
    {k : Nat} (hk : n ≤ k) : ∃ j, k ≤ j ∧ goal (r.state j) := by
  by_contra hnone
  have hgoal : ∀ j, k ≤ j → ¬ goal (r.state j) := fun j hj hg => hnone ⟨j, hj, hg⟩
  clear hnone
  -- the induction is on the rank of the present state
  induction hrank : rank (r.state k) using WellFoundedLT.induction generalizing k with
  | ind x ih =>
    subst hrank
    have hfalls : ¬ ∃ i, k ≤ i ∧ rank (r.state i) < rank (r.state k) := by
      rintro ⟨i, hi, hlt⟩
      exact ih _ hlt (Nat.le_trans hk hi) (fun j hj => hgoal j (Nat.le_trans hi hj)) rfl
    obtain ⟨j, hj, htaken⟩ := hfair k hk k
    obtain ⟨hsame, hhelp⟩ := (falls_or_keeps hstep hk hgoal hj).resolve_left hfalls
    have hnj := Nat.le_trans hk hj
    have hlabel : r.label j = help (r.state j) := by
      rcases htaken with hl | hdis
      · exact hl.trans hhelp.symm
      · exact absurd (hhelp ▸ hen j hnj (hgoal j hj)) hdis
    have hkj : k ≤ j + 1 := Nat.le_succ_of_le hj
    rcases hstep j hnj (hgoal j hj) (hgoal (j + 1) hkj) with hfall | ⟨-, -, hother⟩
    · exact hfalls ⟨j + 1, hkj, hsame ▸ hfall⟩
    · exact hother hlabel

end

/-- A label that stays enabled until the goal is taken before it. -/
theorem eventually_of_label (goal : σ → Prop) {l : lab} {n : Nat} (hfair : r.Fair l)
    (hen : ∀ k, n ≤ k → ¬ goal (r.state k) → m.Enabled (r.state k) l)
    (hstep : ∀ k, n ≤ k → r.label k = l → goal (r.state (k + 1))) {k : Nat} (hk : n ≤ k) :
    ∃ j, k ≤ j ∧ goal (r.state j) := by
  refine eventually goal (fun _ => 0) (fun _ => l) (fun _ _ => hfair) hen ?_ hk
  exact fun j hj _ hgoal => Or.inr ⟨rfl, rfl, fun hl => hgoal (hstep j hj hl)⟩

/-- Finitely many things that each happen in the end, and stay, hold together in the end. -/
theorem eventually_all (P : Nat → σ → Prop) {n N : Nat}
    (hev : ∀ i < N, ∃ j, n ≤ j ∧ P i (r.state j))
    (hstays : ∀ i k, n ≤ k → P i (r.state k) → P i (r.state (k + 1))) :
    ∃ j, n ≤ j ∧ ∀ i < N, P i (r.state j) := by
  induction N with
  | zero => exact ⟨n, Nat.le_refl n, fun i hi => absurd hi (Nat.not_lt_zero i)⟩
  | succ N ih =>
    obtain ⟨j, hj, hall⟩ := ih fun i hi => hev i (Nat.lt_succ_of_lt hi)
    obtain ⟨j', hj', hlast⟩ := hev N (Nat.lt_succ_self N)
    have hlater : ∀ {i k : Nat}, n ≤ k → k ≤ max j j' → P i (r.state k) →
        P i (r.state (max j j')) := by
      intro i k hk hle hP
      exact keeps (P := P i) hP (fun m hm => hstays i m (Nat.le_trans hk hm)) hle
    refine ⟨max j j', Nat.le_trans hj (le_max_left ..), fun i hi => ?_⟩
    rcases Nat.lt_or_eq_of_le (Nat.le_of_lt_succ hi) with hlt | rfl
    · exact hlater hj (le_max_left ..) (hall i hlt)
    · exact hlater hj' (le_max_right ..) hlast

variable (r) in
/-- From some moment on the run takes the step `l` in `u`. -/
def EndsIn (u : σ) (l : lab) : Prop := ∃ n, ∀ k, n ≤ k → r.state k = u ∧ r.label k = l

theorem EndsIn.exists_ge {u : σ} {l : lab} (h : r.EndsIn u l) (k : Nat) :
    ∃ j, k ≤ j ∧ r.state j = u ∧ r.label j = l := by
  obtain ⟨n, hend⟩ := h
  exact ⟨max k n, le_max_left k n, hend _ (le_max_right k n)⟩

/-- A run that comes to rest is fair to what is not enabled there. -/
theorem EndsIn.fair {u : σ} {l l' : lab} (hend : r.EndsIn u l) (h : l = l' ∨ ¬ m.Enabled u l') :
    r.Fair l' := by
  intro k
  obtain ⟨j, hj, rfl, hlabel⟩ := hend.exists_ge k
  exact ⟨j, hj, h.imp_left hlabel.trans⟩

end Run

/-- A finite run that ends where `l` changes nothing is the beginning of an infinite one. -/
theorem exists_run {C : σ → lab → Prop} [∀ s l, Decidable (C s l)] {s u : σ} {ls : List lab}
    {l : lab} (hls : (m.guarded C).exec s ls = some u) (hl : m.step u l = some u) (hC : C u l) :
    ∃ r : m.Run, r.state 0 = s ∧ (∀ k, C (r.state k) (r.label k)) ∧
      r.EndsIn u l := by
  induction ls generalizing s with
  | nil =>
    cases hls
    exact ⟨⟨fun _ => u, fun _ => l, fun _ => hl⟩, rfl, fun _ => hC, 0,
      fun _ _ => ⟨rfl, rfl⟩⟩
  | cons a ls ih =>
    obtain ⟨t, ht, hrest⟩ := exec_cons_some.mp hls
    obtain ⟨hCa, hstep⟩ := guarded_step ht
    obtain ⟨r, h₀, hCr, n, hend⟩ := ih hrest
    refine ⟨⟨fun k => k.casesOn s r.state, fun k => k.casesOn a r.label, ?_⟩, rfl, ?_, n + 1, ?_⟩
    · rintro (- | k)
      · rw [← h₀] at hstep
        exact hstep
      · exact r.step k
    · rintro (- | k)
      · exact hCa
      · exact hCr k
    · rintro (- | k) hk
      · exact absurd hk (Nat.not_succ_le_zero _)
      · exact hend k (Nat.le_of_succ_le_succ hk)

end Machine
