import Mathlib.Logic.Function.Basic

/-!
# Machines with an executable step

A machine is an initial state and a partial step function: `step s l = none` says that
the label `l` is not enabled in `s`. Everything nondeterministic is in the labels, so a
finite run is a list of labels and can be evaluated.

* `exec` runs a list of labels.
* `ReachableBy C` are the states reached by steps that all meet the condition `C` on the
  state before the step and the label. `Reachable` has no condition.
* `ReachableBy.invariant` and `ReachableBy.invariant_of` are the induction rules: an
  invariant is proved for one step, possibly from facts already known of every reachable
  state.
* `exists_flip` finds the step of a run at which a property is lost.
* `ReachableBy.project` is for machines that are built over another one.
* `moments P` are the states of a run in which a step with the property `P` is taken.
-/

universe u v

/-- An initial state and a partial step function on labels. -/
structure Machine (σ : Type u) (lab : Type v) where
  init : σ
  step : σ → lab → Option σ

namespace Machine

variable {σ : Type u} {lab : Type v} (m : Machine σ lab)

/-- The state after a list of labels, if every one of them is enabled in its turn. -/
def exec : σ → List lab → Option σ
  | s, [] => some s
  | s, l :: ls => (m.step s l).bind fun s' => exec s' ls

/-- The states reached from `init` by steps that meet `C`. -/
inductive ReachableBy (C : σ → lab → Prop) : σ → Prop
  | init : ReachableBy C m.init
  | step {s s' : σ} {l : lab} :
      ReachableBy C s → C s l → m.step s l = some s' → ReachableBy C s'

/-- The states reached from `init` by any steps. -/
def Reachable (s : σ) : Prop := m.ReachableBy (fun _ _ => True) s

variable {m}

theorem Reachable.init : m.Reachable m.init := ReachableBy.init

theorem Reachable.step {s s' : σ} {l : lab} (h : m.Reachable s) (hs : m.step s l = some s') :
    m.Reachable s' :=
  ReachableBy.step h trivial hs

theorem ReachableBy.reachable {C : σ → lab → Prop} {s : σ} (h : m.ReachableBy C s) :
    m.Reachable s := by
  induction h with
  | init => exact .init
  | step _ _ hs ih => exact ih.step hs

/-- A property that holds initially and is kept by every step that meets `C`. -/
theorem ReachableBy.invariant {C : σ → lab → Prop} {I : σ → Prop} (h0 : I m.init)
    (hstep : ∀ s l s', I s → C s l → m.step s l = some s' → I s') {s : σ}
    (h : m.ReachableBy C s) : I s := by
  induction h with
  | init => exact h0
  | step _ hC hs ih => exact hstep _ _ _ ih hC hs

/-- As `ReachableBy.invariant`, where the step may use a property `J` that is already
known of every reachable state. -/
theorem ReachableBy.invariant_of {C : σ → lab → Prop} {I J : σ → Prop}
    (hJ : ∀ s, m.Reachable s → J s) (h0 : I m.init)
    (hstep : ∀ s l s', J s → I s → C s l → m.step s l = some s' → I s') {s : σ}
    (h : m.ReachableBy C s) : I s := by
  induction h with
  | init => exact h0
  | step hr hC hs ih => exact hstep _ _ _ (hJ _ hr.reachable) ih hC hs

theorem Reachable.invariant {I : σ → Prop} (h0 : I m.init)
    (hstep : ∀ s l s', I s → m.step s l = some s' → I s') {s : σ} (h : m.Reachable s) : I s :=
  ReachableBy.invariant h0 (fun s l s' hI _ hs => hstep s l s' hI hs) h

theorem Reachable.invariant_of {I J : σ → Prop} (hJ : ∀ s, m.Reachable s → J s)
    (h0 : I m.init) (hstep : ∀ s l s', J s → I s → m.step s l = some s' → I s') {s : σ}
    (h : m.Reachable s) : I s :=
  ReachableBy.invariant_of hJ h0 (fun s l s' hj hI _ hs => hstep s l s' hj hI hs) h

/-! ## Runs -/

variable (m) in
/-- The machine without the steps that do not meet `C`. -/
def guarded (C : σ → lab → Prop) [∀ s l, Decidable (C s l)] : Machine σ lab :=
  ⟨m.init, fun s l => if C s l then m.step s l else none⟩

theorem guarded_step {C : σ → lab → Prop} [∀ s l, Decidable (C s l)] {s s' : σ} {l : lab}
    (h : (m.guarded C).step s l = some s') : C s l ∧ m.step s l = some s' := by
  unfold guarded at h
  dsimp only at h
  split at h
  · rename_i hC
    exact ⟨hC, h⟩
  · cases h

theorem exec_cons_some {s s' : σ} {l : lab} {ls : List lab} :
    m.exec s (l :: ls) = some s' ↔ ∃ t, m.step s l = some t ∧ m.exec t ls = some s' := by
  simp only [exec, Option.bind_eq_some_iff]

theorem exec_append (s : σ) (as bs : List lab) :
    m.exec s (as ++ bs) = (m.exec s as).bind fun t => m.exec t bs := by
  induction as generalizing s with
  | nil => rfl
  | cons a as ih =>
    simp only [List.cons_append, exec]
    cases m.step s a with
    | none => rfl
    | some t => exact ih t

/-- A property that holds at the start of a run and is kept by every step with one of its
labels holds at its end. -/
theorem exec_invariant_mem {I : σ → Prop} {ls : List lab}
    (hstep : ∀ s l s', l ∈ ls → I s → m.step s l = some s' → I s') {s s' : σ} (h0 : I s)
    (h : m.exec s ls = some s') : I s' := by
  induction ls generalizing s with
  | nil =>
    cases h
    exact h0
  | cons l ls ih =>
    obtain ⟨t, ht, hrest⟩ := exec_cons_some.mp h
    refine ih ?_ (hstep s l t List.mem_cons_self h0 ht) hrest
    exact fun s l s' hl => hstep s l s' (List.mem_cons_of_mem _ hl)

/-- A property that holds at the start of a run and is kept by every step holds at its end. -/
theorem exec_invariant {I : σ → Prop} (hstep : ∀ s l s', I s → m.step s l = some s' → I s')
    {s s' : σ} {ls : List lab} (h0 : I s) (h : m.exec s ls = some s') : I s' :=
  exec_invariant_mem (fun s l s' _ => hstep s l s') h0 h

theorem Reachable.exec {s s' : σ} {ls : List lab} (h : m.Reachable s)
    (hs : m.exec s ls = some s') : m.Reachable s' :=
  exec_invariant (fun _ _ _ hr hstep => hr.step hstep) h hs

/-- A machine over another one: if every step is a run of the other machine on its part of the
state, then that part is reachable there. -/
theorem ReachableBy.project {τ : Type*} {lab' : Type*} {m' : Machine τ lab'} {f : τ → σ}
    {C : τ → lab' → Prop} (h0 : f m'.init = m.init)
    (hstep : ∀ x l x', m'.step x l = some x' → ∃ ls, m.exec (f x) ls = some (f x')) {x : τ}
    (h : m'.ReachableBy C x) : m.Reachable (f x) := by
  refine h.invariant (I := fun x => m.Reachable (f x)) (h0 ▸ .init) ?_
  intro x l x' hr _ hs
  obtain ⟨ls, hls⟩ := hstep x l x' hs
  exact hr.exec hls

/-- A run without the other steps is a run. -/
theorem exec_of_guarded {C : σ → lab → Prop} [∀ s l, Decidable (C s l)] {s s' : σ}
    {ls : List lab} (h : (m.guarded C).exec s ls = some s') : m.exec s ls = some s' := by
  induction ls generalizing s with
  | nil => exact h
  | cons l ls ih =>
    obtain ⟨t, ht, hrest⟩ := exec_cons_some.mp h
    exact exec_cons_some.mpr ⟨t, (guarded_step ht).2, ih hrest⟩

/-- What the machine without the other steps reaches is reached by steps that meet `C`. -/
theorem ReachableBy.of_guarded {C : σ → lab → Prop} [∀ s l, Decidable (C s l)] {s s' : σ}
    {ls : List lab} (h : m.ReachableBy C s) (hs : (m.guarded C).exec s ls = some s') :
    m.ReachableBy C s' :=
  exec_invariant (fun _ _ _ hr hstep => hr.step (guarded_step hstep).1 (guarded_step hstep).2)
    h hs

/-- A run that starts with `P` and ends without it has a step that loses `P`. -/
theorem exists_flip {P : σ → Prop} {s s' : σ} {ls : List lab}
    (h : m.exec s ls = some s') (hP : P s) (hN : ¬ P s') :
    ∃ as l bs u v, ls = as ++ l :: bs ∧ m.exec s as = some u ∧ m.step u l = some v ∧
      m.exec v bs = some s' ∧ P u ∧ ¬ P v := by
  induction ls generalizing s with
  | nil =>
    cases h
    exact absurd hP hN
  | cons l ls ih =>
    obtain ⟨t, ht, hrest⟩ := exec_cons_some.mp h
    by_cases hPt : P t
    · obtain ⟨as, l', bs, u, v, rfl, hu, hv, hend, hPu, hPv⟩ := ih hrest hPt
      exact ⟨l :: as, l', bs, u, v, rfl, exec_cons_some.mpr ⟨t, ht, hu⟩, hv, hend, hPu, hPv⟩
    · exact ⟨[], l, ls, s, t, rfl, rfl, ht, hrest, hP, hPt⟩

/-- The states of a run in which it takes a step with the property `P`, oldest first. -/
def moments (m : Machine σ lab) (P : σ → lab → Prop) [∀ s l, Decidable (P s l)] :
    σ → List lab → List σ
  | _, [] => []
  | s, l :: ls =>
    match m.step s l with
    | none => []
    | some s' => if P s l then s :: moments m P s' ls else moments m P s' ls

/-- The first step of a run is one of its moments, or the moment comes later. -/
theorem mem_moments_cons {P : σ → lab → Prop} [∀ s l, Decidable (P s l)] {s s' t : σ} {l : lab}
    {ls : List lab} (hs : m.step s l = some s') :
    t ∈ m.moments P s (l :: ls) ↔ (P s l ∧ t = s) ∨ t ∈ m.moments P s' ls := by
  rw [moments, hs]
  dsimp only
  split
  · rename_i hP
    rw [List.mem_cons, eq_true hP, true_and]
  · rename_i hP
    rw [eq_false hP, false_and, false_or]

/-- A step that no reachable state takes has no moments. -/
theorem moments_eq_nil {P : σ → lab → Prop} [∀ s l, Decidable (P s l)]
    (hP : ∀ s l, m.Reachable s → ¬ P s l) {s : σ} (h : m.Reachable s) (ls : List lab) :
    m.moments P s ls = [] := by
  induction ls generalizing s with
  | nil => rfl
  | cons l ls ih =>
    unfold moments
    split
    · rfl
    · rename_i s' hs
      rw [if_neg (hP s l h)]
      exact ih (h.step hs)

end Machine
