import Mathlib.Data.List.Basic
import Mathlib.Data.List.Range
import Mathlib.Data.List.Sort
import Mathlib.Logic.ExistsUnique

/-!
# A pipeline with one job fetched ahead

Jobs arrive at a queue and are numbered in the order of arrival. One worker fetches the
job at the head of the queue while an earlier job may still be running; a fetched job is
either kept as the next job or discarded. A job runs only when none is running.

`Valid` is the invariant: the queue holds the jobs that were not fetched, the fetched job
is the youngest of the others, and everything else is running or gone. `Valid.place` says
that a job is in one place, `Valid.started_sorted` that jobs start in the order of their
arrival, and `Valid.gone_of_lt` that an older job is gone before a younger one has run.
-/

/-- The jobs by their numbers. `started` and `gone` are histories. -/
structure Pipeline where
  arrived : Nat
  waiting : List Nat
  next : Option Nat
  running : Option Nat
  dropping : Option Nat
  started : List Nat
  gone : List Nat

namespace Pipeline

/-- The number of jobs taken off the queue. -/
def fetched (p : Pipeline) : Nat := p.arrived - p.waiting.length

/-- What can happen to a pipeline. -/
inductive Move (p : Pipeline) : Pipeline → Prop
  | arrive : Move p { p with arrived := p.arrived + 1, waiting := p.waiting ++ [p.arrived] }
  | fetch (t : Nat) (rest : List Nat) (hw : p.waiting = t :: rest) (hn : p.next = none)
      (hd : p.dropping = none) : Move p { p with waiting := rest, next := some t }
  | discard (t : Nat) (rest : List Nat) (hw : p.waiting = t :: rest) (hn : p.next = none)
      (hd : p.dropping = none) : Move p { p with waiting := rest, dropping := some t }
  | drop (t : Nat) (hd : p.dropping = some t) :
      Move p { p with dropping := none, gone := p.gone ++ [t] }
  | start (t : Nat) (hn : p.next = some t) (hr : p.running = none) :
      Move p { p with next := none, running := some t, started := p.started ++ [t] }
  | finish (t : Nat) (hr : p.running = some t) :
      Move p { p with running := none, gone := p.gone ++ [t] }

/-- What a move starts is the next job. -/
theorem Move.started {p q : Pipeline} (hm : Move p q) :
    q.started = p.started ∨ ∃ t, p.next = some t ∧ q.started = p.started ++ [t] := by
  cases hm with
  | arrive => exact Or.inl rfl
  | fetch => exact Or.inl rfl
  | discard => exact Or.inl rfl
  | drop => exact Or.inl rfl
  | start t hn => exact Or.inr ⟨t, hn, rfl⟩
  | finish => exact Or.inl rfl

/-- The job `t` is fetched and not gone. -/
def Held (p : Pipeline) (t : Nat) : Prop :=
  p.next = some t ∨ p.running = some t ∨ p.dropping = some t

structure Valid (p : Pipeline) : Prop where
  length_le : p.waiting.length ≤ p.arrived
  waiting_eq : p.waiting = List.range' p.fetched p.waiting.length
  next_last : ∀ t, p.next = some t → t + 1 = p.fetched
  dropping_last : ∀ t, p.dropping = some t → t + 1 = p.fetched
  one_last : p.next = none ∨ p.dropping = none
  running_lt : ∀ t, p.running = some t →
    t < p.fetched ∧ p.next ≠ some t ∧ p.dropping ≠ some t
  gone_iff : ∀ t, t ∈ p.gone ↔ t < p.fetched ∧ ¬ p.Held t
  gone_nodup : p.gone.Nodup
  started_sorted : p.started.Pairwise (· < ·)
  started_lt : ∀ t ∈ p.started, t < p.fetched ∧ p.next ≠ some t ∧ p.dropping ≠ some t
  running_started : ∀ t, p.running = some t → t ∈ p.started
  running_max : ∀ t, p.running = some t → ∀ u ∈ p.started, u ≤ t

variable {p q : Pipeline}

theorem Valid.fetched_add (h : p.Valid) : p.fetched + p.waiting.length = p.arrived := by
  have := h.length_le
  unfold fetched
  omega

theorem Valid.mem_waiting (h : p.Valid) {t : Nat} :
    t ∈ p.waiting ↔ p.fetched ≤ t ∧ t < p.arrived := by
  have := h.fetched_add
  rw [h.waiting_eq, List.mem_range'_1]
  constructor
  · intro ht
    omega
  · intro ht
    omega

/-- The head of the queue is the first job that was not fetched. -/
theorem Valid.head_eq (h : p.Valid) {t : Nat} {rest : List Nat} (hw : p.waiting = t :: rest) :
    t = p.fetched ∧ rest = List.range' (p.fetched + 1) rest.length := by
  have hr := h.waiting_eq
  rw [hw, List.length_cons, List.range'_succ] at hr
  exact ⟨(List.cons.inj hr).1, (List.cons.inj hr).2⟩

theorem Valid.fetched_rest (h : p.Valid) {t : Nat} {rest : List Nat}
    (hw : p.waiting = t :: rest) : p.arrived - rest.length = p.fetched + 1 := by
  have := h.fetched_add
  rw [hw, List.length_cons] at this
  omega

theorem Valid.held_lt (h : p.Valid) {t : Nat} (ht : p.Held t) : t < p.fetched := by
  rcases ht with ht | ht | ht
  · have := h.next_last t ht
    omega
  · exact (h.running_lt t ht).1
  · have := h.dropping_last t ht
    omega

theorem Valid.gone_lt (h : p.Valid) {t : Nat} (ht : t ∈ p.gone) : t < p.fetched :=
  ((h.gone_iff t).mp ht).1

/-! ## The invariant is kept -/

theorem Valid.arrive (h : p.Valid) :
    Valid { p with arrived := p.arrived + 1, waiting := p.waiting ++ [p.arrived] } := by
  have hf : fetched { p with arrived := p.arrived + 1, waiting := p.waiting ++ [p.arrived] } =
      p.fetched := by
    have := h.length_le
    simp only [fetched, List.length_append, List.length_singleton]
    omega
  have hadd := h.fetched_add
  refine ⟨?_, ?_, ?_, ?_, h.one_last, ?_, ?_, h.gone_nodup, h.started_sorted, ?_,
    h.running_started, h.running_max⟩
  · simpa using h.length_le
  · rw [hf]
    simp only [List.length_append, List.length_singleton, List.range'_concat]
    rw [← h.waiting_eq, Nat.one_mul, hadd]
  · simpa only [hf] using h.next_last
  · simpa only [hf] using h.dropping_last
  · simpa only [hf] using h.running_lt
  · intro u
    rw [hf]
    exact h.gone_iff u
  · simpa only [hf] using h.started_lt

/-- Taking the head off the queue, whether it is kept or discarded. -/
theorem Valid.take (h : p.Valid) {t : Nat} {rest : List Nat} (hw : p.waiting = t :: rest)
    (hn : p.next = none) (hd : p.dropping = none) {next dropping : Option Nat}
    (hone : (next = some t ∧ dropping = none) ∨ (next = none ∧ dropping = some t)) :
    Valid { p with waiting := rest, next := next, dropping := dropping } := by
  obtain ⟨ht, hrest⟩ := h.head_eq hw
  have hf : fetched { p with waiting := rest, next := next, dropping := dropping } =
      p.fetched + 1 := h.fetched_rest hw
  have hold : ∀ u, (next = some u ∨ dropping = some u) ↔ u = t := by
    intro u
    rcases hone with ⟨rfl, rfl⟩ | ⟨rfl, rfl⟩ <;> simp [eq_comm]
  have hne : ∀ u, u < p.fetched → next ≠ some u ∧ dropping ≠ some u := by
    intro u hu
    have : ¬ (next = some u ∨ dropping = some u) := fun hu' => by
      have := (hold u).mp hu'
      omega
    exact not_or.mp this
  refine ⟨?_, ?_, ?_, ?_, ?_, ?_, ?_, h.gone_nodup, h.started_sorted, ?_, h.running_started,
    h.running_max⟩
  · have := h.length_le
    rw [hw, List.length_cons] at this
    exact Nat.le_of_succ_le this
  · rw [hf]
    exact hrest
  · intro u hu
    have := (hold u).mp (Or.inl hu)
    omega
  · intro u hu
    have := (hold u).mp (Or.inr hu)
    omega
  · rcases hone with ⟨-, rfl⟩ | ⟨rfl, -⟩
    · exact Or.inr rfl
    · exact Or.inl rfl
  · intro u hu
    have hlt := (h.running_lt u hu).1
    exact ⟨by omega, hne u hlt⟩
  · intro u
    rw [h.gone_iff, hf]
    simp only [Held, hn, hd, reduceCtorEq, false_or, or_false]
    constructor
    · rintro ⟨hlt, hrun⟩
      refine ⟨by omega, ?_⟩
      rintro (hu | hu | hu)
      · exact (hne u hlt).1 hu
      · exact hrun hu
      · exact (hne u hlt).2 hu
    · rintro ⟨hlt, hheld⟩
      have hut : u ≠ t := by
        rintro rfl
        rcases (hold u).mpr rfl with hu | hu
        · exact hheld (Or.inl hu)
        · exact hheld (Or.inr (Or.inr hu))
      exact ⟨by omega, fun hu => hheld (Or.inr (Or.inl hu))⟩
  · intro u hu
    have hlt := (h.started_lt u hu).1
    exact ⟨by omega, hne u hlt⟩

theorem Valid.gone_append (h : p.Valid) {t : Nat} (ht : p.Held t) : (p.gone ++ [t]).Nodup := by
  rw [List.nodup_append]
  refine ⟨h.gone_nodup, by simp, ?_⟩
  intro u hu v hv
  rw [List.mem_singleton] at hv
  rintro rfl
  subst hv
  exact ((h.gone_iff u).mp hu).2 ht

theorem Valid.drop (h : p.Valid) {t : Nat} (hd : p.dropping = some t) :
    Valid { p with dropping := none, gone := p.gone ++ [t] } := by
  have hheld : p.Held t := Or.inr (Or.inr hd)
  have hlt := h.held_lt hheld
  refine ⟨h.length_le, h.waiting_eq, h.next_last, by simp, Or.inr rfl, ?_, ?_,
    h.gone_append hheld, h.started_sorted, ?_, h.running_started, h.running_max⟩
  · intro u hu
    obtain ⟨hu1, hu2, -⟩ := h.running_lt u hu
    exact ⟨hu1, hu2, by simp⟩
  · intro u
    have hiff := h.gone_iff u
    have hnext : p.next ≠ some t := fun hn => by
      rcases h.one_last with hnone | hnone
      · rw [hnone] at hn
        cases hn
      · rw [hnone] at hd
        cases hd
    have hrun : p.running ≠ some t := fun hr => (h.running_lt t hr).2.2 hd
    change u ∈ p.gone ++ [t] ↔ u < p.fetched ∧ ¬ (p.next = some u ∨ p.running = some u ∨ _)
    simp only [List.mem_append, List.mem_singleton, hiff, Held, hd]
    constructor
    · rintro (⟨hlt, hu⟩ | rfl)
      · exact ⟨hlt, fun hu' => hu (by tauto)⟩
      · exact ⟨hlt, by simp [hnext, hrun]⟩
    · rintro ⟨hlt, hu⟩
      by_cases hut : u = t
      · exact Or.inr hut
      · refine Or.inl ⟨hlt, ?_⟩
        rintro (hu' | hu' | hu')
        · exact hu (Or.inl hu')
        · exact hu (Or.inr (Or.inl hu'))
        · exact hut (Option.some.inj hu').symm
  · intro u hu
    obtain ⟨hu1, hu2, -⟩ := h.started_lt u hu
    exact ⟨hu1, hu2, by simp⟩

theorem Valid.start (h : p.Valid) {t : Nat} (hn : p.next = some t) (hr : p.running = none) :
    Valid { p with next := none, running := some t, started := p.started ++ [t] } := by
  have ht := h.next_last t hn
  have hbelow : ∀ u ∈ p.started, u < t := by
    intro u hu
    obtain ⟨hlt, hne, -⟩ := h.started_lt u hu
    have : u ≠ t := fun hut => hne (hut ▸ hn)
    omega
  have hdrop : p.dropping = none := by
    rcases h.one_last with hnone | hnone
    · rw [hnone] at hn
      cases hn
    · exact hnone
  refine ⟨h.length_le, h.waiting_eq, by simp, h.dropping_last, Or.inl rfl, ?_, ?_,
    h.gone_nodup, ?_, ?_, ?_, ?_⟩
  · intro u hu
    cases hu
    exact ⟨by change t < p.fetched; omega, by simp, by simp [hdrop]⟩
  · intro u
    change u ∈ p.gone ↔ u < p.fetched ∧ _
    rw [h.gone_iff]
    simp only [Held, hn, hr, hdrop, reduceCtorEq, false_or, or_false]
  · rw [List.pairwise_append]
    refine ⟨h.started_sorted, List.pairwise_singleton _ _, ?_⟩
    intro u hu v hv
    rw [List.mem_singleton] at hv
    subst hv
    exact hbelow u hu
  · intro u hu
    change u < p.fetched ∧ _
    rcases List.mem_append.mp hu with hu | hu
    · exact ⟨(h.started_lt u hu).1, by simp, (h.started_lt u hu).2.2⟩
    · rw [List.mem_singleton] at hu
      subst hu
      exact ⟨by omega, by simp, by simp [hdrop]⟩
  · intro u hu
    cases hu
    simp
  · intro u hu v hv
    cases hu
    rcases List.mem_append.mp hv with hv | hv
    · exact (hbelow v hv).le
    · exact (List.mem_singleton.mp hv).le

theorem Valid.finish (h : p.Valid) {t : Nat} (hr : p.running = some t) :
    Valid { p with running := none, gone := p.gone ++ [t] } := by
  have hheld : p.Held t := Or.inr (Or.inl hr)
  obtain ⟨hlt, hnext, hdrop⟩ := h.running_lt t hr
  refine ⟨h.length_le, h.waiting_eq, h.next_last, h.dropping_last, h.one_last, by simp, ?_,
    h.gone_append hheld, h.started_sorted, h.started_lt, by simp, by simp⟩
  intro u
  have hiff := h.gone_iff u
  change u ∈ p.gone ++ [t] ↔ u < p.fetched ∧ ¬ (p.next = some u ∨ _ ∨ p.dropping = some u)
  simp only [List.mem_append, List.mem_singleton, hiff, Held, hr]
  constructor
  · rintro (⟨hlt, hu⟩ | rfl)
    · exact ⟨hlt, fun hu' => hu (by tauto)⟩
    · exact ⟨hlt, by simp [hnext, hdrop]⟩
  · rintro ⟨hlt, hu⟩
    by_cases hut : u = t
    · exact Or.inr hut
    · refine Or.inl ⟨hlt, ?_⟩
      rintro (hu' | hu' | hu')
      · exact hu (Or.inl hu')
      · exact hut (Option.some.inj hu').symm
      · exact hu (Or.inr (Or.inr hu'))

theorem Valid.move (h : p.Valid) (hm : Move p q) : q.Valid := by
  cases hm with
  | arrive => exact h.arrive
  | fetch t rest hw hn hd => simpa [hd] using h.take hw hn hd (Or.inl ⟨rfl, rfl⟩)
  | discard t rest hw hn hd => simpa [hn] using h.take hw hn hd (Or.inr ⟨rfl, rfl⟩)
  | drop t hd => exact h.drop hd
  | start t hn hr => exact h.start hn hr
  | finish t hr => exact h.finish hr

/-! ## What the invariant says about a job -/

/-- Where a job can be. -/
inductive Place
  | waiting
  | next
  | running
  | dropping
  | gone

/-- The job `t` is in this place. -/
def At (p : Pipeline) (t : Nat) : Place → Prop
  | .waiting => t ∈ p.waiting
  | .next => p.next = some t
  | .running => p.running = some t
  | .dropping => p.dropping = some t
  | .gone => t ∈ p.gone

/-- A job that has arrived is in exactly one place. -/
theorem Valid.place (h : p.Valid) {t : Nat} (ht : t < p.arrived) : ∃! pl, p.At t pl := by
  by_cases hw : t ∈ p.waiting
  · have hge := (h.mem_waiting.mp hw).1
    refine ⟨.waiting, hw, ?_⟩
    intro pl hpl
    cases pl with
    | waiting => rfl
    | gone => exact absurd (h.gone_lt hpl) (by omega)
    | next => exact absurd (h.held_lt (Or.inl hpl)) (by omega)
    | running => exact absurd (h.held_lt (Or.inr (Or.inl hpl))) (by omega)
    | dropping => exact absurd (h.held_lt (Or.inr (Or.inr hpl))) (by omega)
  · have hlt : t < p.fetched := by
      by_contra hge
      exact hw (h.mem_waiting.mpr ⟨by omega, ht⟩)
    by_cases hn : p.next = some t
    · refine ⟨.next, hn, ?_⟩
      intro pl hpl
      cases pl with
      | waiting => exact absurd hpl hw
      | next => rfl
      | running => exact absurd hn (h.running_lt t hpl).2.1
      | dropping =>
        rcases h.one_last with hnone | hnone
        · rw [hnone] at hn
          cases hn
        · rw [At, hnone] at hpl
          cases hpl
      | gone => exact absurd (Or.inl hn) ((h.gone_iff t).mp hpl).2
    · by_cases hr : p.running = some t
      · refine ⟨.running, hr, ?_⟩
        intro pl hpl
        cases pl with
        | waiting => exact absurd hpl hw
        | next => exact absurd hpl hn
        | running => rfl
        | dropping => exact absurd hpl (h.running_lt t hr).2.2
        | gone => exact absurd (Or.inr (Or.inl hr)) ((h.gone_iff t).mp hpl).2
      · by_cases hd : p.dropping = some t
        · refine ⟨.dropping, hd, ?_⟩
          intro pl hpl
          cases pl with
          | waiting => exact absurd hpl hw
          | next => exact absurd hpl hn
          | running => exact absurd hpl hr
          | dropping => rfl
          | gone => exact absurd (Or.inr (Or.inr hd)) ((h.gone_iff t).mp hpl).2
        · have hgone : t ∈ p.gone := (h.gone_iff t).mpr ⟨hlt, by simp [Held, hn, hr, hd]⟩
          refine ⟨.gone, hgone, ?_⟩
          intro pl hpl
          cases pl with
          | waiting => exact absurd hpl hw
          | next => exact absurd hpl hn
          | running => exact absurd hpl hr
          | dropping => exact absurd hpl hd
          | gone => rfl

/-- The jobs that started are a part of those that arrived, in the order of arrival. -/
theorem Valid.started_sublist (h : p.Valid) : p.started.Sublist (List.range p.arrived) := by
  have hnodup : p.started.Nodup := h.started_sorted.imp fun hab => Nat.ne_of_lt hab
  have hsub : p.started ⊆ List.range p.arrived := by
    intro t ht
    have := (h.started_lt t ht).1
    have := h.fetched_add
    rw [List.mem_range]
    omega
  refine List.sublist_of_subperm_of_sortedLE (List.subperm_of_subset hnodup hsub) ?_ ?_
  · exact (h.started_sorted.imp fun hab => Nat.le_of_lt hab).sortedLE
  · exact List.pairwise_le_range.sortedLE

/-- A job that has started is running until it is gone. -/
theorem Valid.running_of_started (h : p.Valid) {t : Nat} (hs : t ∈ p.started) (hg : t ∉ p.gone) :
    p.running = some t := by
  obtain ⟨hlt, hnext, hdrop⟩ := h.started_lt t hs
  by_contra hrun
  refine hg ((h.gone_iff t).mpr ⟨hlt, ?_⟩)
  rintro (hn | hr | hd)
  · exact hnext hn
  · exact hrun hr
  · exact hdrop hd

/-- When a job has started, every older job is gone. -/
theorem Valid.gone_of_lt (h : p.Valid) {t u : Nat} (hs : t ∈ p.started) (hu : u < t) :
    u ∈ p.gone := by
  have hlt := (h.started_lt t hs).1
  refine (h.gone_iff u).mpr ⟨by omega, ?_⟩
  rintro (hn | hr | hd)
  · have := h.next_last u hn
    omega
  · have := h.running_max u hr t hs
    omega
  · have := h.dropping_last u hd
    omega

/-- The running job is the oldest one that is not gone. -/
theorem Valid.running_le (h : p.Valid) {t u : Nat} (hr : p.running = some u) (ht : t ∉ p.gone) :
    u ≤ t :=
  Nat.le_of_not_lt fun htu => ht (h.gone_of_lt (h.running_started u hr) htu)

end Pipeline
