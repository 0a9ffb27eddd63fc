import Dicedev.Lib.Blocks
import Mathlib.Data.Fintype.Card
import Mathlib.Logic.Function.Basic

/-!
# Slot tables

A table gives each slot at most one object, each object remembers its slot, and a counter
holds the number of empty slots. `Agrees` is the invariant that ties the three together.

A second party sees only the commands `bind` and `unbind`. `replay` is the table it ends up
with, and `Legal` says that it was never told to bind a bound slot or to unbind an empty
one.
-/

namespace SlotTable

variable {ι β : Type} [DecidableEq ι]

/-! ## Commands -/

inductive Cmd (ι β : Type)
  | bind (i : ι) (b : β)
  | unbind (i : ι)
  deriving DecidableEq, Repr

/-- The table after a command. -/
def Cmd.apply (table : ι → Option β) : Cmd ι β → ι → Option β
  | .bind i b => Function.update table i (some b)
  | .unbind i => Function.update table i none

/-- Only an empty slot is bound, only a bound one is unbound. -/
def Cmd.Fits (table : ι → Option β) : Cmd ι β → Prop
  | .bind i _ => table i = none
  | .unbind i => table i ≠ none

/-- The table after a list of commands, oldest first. -/
def replay (table : ι → Option β) (cmds : List (Cmd ι β)) : ι → Option β :=
  cmds.foldl Cmd.apply table

/-- Every command fits the table it meets. -/
def Legal (table : ι → Option β) (cmds : List (Cmd ι β)) : Prop :=
  ∀ pre c post, cmds = pre ++ c :: post → c.Fits (replay table pre)

theorem replay_append (table : ι → Option β) (as bs : List (Cmd ι β)) :
    replay table (as ++ bs) = replay (replay table as) bs :=
  List.foldl_append

/-- Unbinding slots empties them, whatever was in the table. -/
theorem replay_unbinds (table : ι → Option β) (l : List ι) (i : ι) :
    replay table (l.map .unbind) i = if i ∈ l then none else table i := by
  induction l generalizing table with
  | nil => simp [replay]
  | cons j l ih =>
    have hstep : replay table ((j :: l).map .unbind) =
        replay (Function.update table j none) (l.map .unbind) := rfl
    rw [hstep, ih]
    by_cases hl : i ∈ l
    · simp [hl]
    · by_cases hij : i = j
      · subst hij
        simp [hl]
      · simp [hl, hij]

theorem Legal.nil (table : ι → Option β) : Legal table [] := by
  intro pre c post h
  simp at h

theorem Legal.append {table : ι → Option β} {cmds : List (Cmd ι β)} (h : Legal table cmds)
    {c : Cmd ι β} (hc : c.Fits (replay table cmds)) : Legal table (cmds ++ [c]) := by
  intro pre d post heq
  rcases Blocks.split_append heq with ⟨rfl, rfl, -⟩ | ⟨post', -, hcmds⟩
  · exact hc
  · exact h pre d post' hcmds

/-! ## Two readers of the same commands -/

section Readers

variable {α γ : Type} {R : β → γ → Prop}

/-- Two readings of a command that put related objects into the same slot. -/
inductive Cmd.Rel (R : β → γ → Prop) : Cmd ι β → Cmd ι γ → Prop
  | bind (i : ι) {b : β} {c : γ} (h : R b c) : Cmd.Rel R (.bind i b) (.bind i c)
  | unbind (i : ι) : Cmd.Rel R (.unbind i) (.unbind i)

theorem Cmd.Rel.apply {c : Cmd ι β} {d : Cmd ι γ} (h : Cmd.Rel R c d) {table : ι → Option β}
    {table' : ι → Option γ} (ht : ∀ i, Option.Rel R (table i) (table' i)) (i : ι) :
    Option.Rel R (c.apply table i) (d.apply table' i) := by
  cases h with
  | bind j hbc =>
    unfold Cmd.apply
    by_cases hij : i = j
    · subst hij
      simp only [Function.update_self]
      exact .some hbc
    · simp only [Function.update_of_ne hij]
      exact ht i
  | unbind j =>
    unfold Cmd.apply
    by_cases hij : i = j
    · subst hij
      simp only [Function.update_self]
      exact .none
    · simp only [Function.update_of_ne hij]
      exact ht i

/-- Two readers that read every item of a list alike end up with related tables. -/
theorem replay_rel {f : α → Option (Cmd ι β)} {g : α → Option (Cmd ι γ)} {l : List α}
    (h : ∀ a ∈ l, Option.Rel (Cmd.Rel R) (f a) (g a)) {table : ι → Option β}
    {table' : ι → Option γ} (ht : ∀ i, Option.Rel R (table i) (table' i)) (i : ι) :
    Option.Rel R (replay table (l.filterMap f) i) (replay table' (l.filterMap g) i) := by
  induction l generalizing table table' with
  | nil => exact ht i
  | cons a l ih =>
    have ha := h a List.mem_cons_self
    have hrest := fun b hb => h b (List.mem_cons_of_mem a hb)
    cases hf : f a with
    | none =>
      rw [hf] at ha
      cases hg : g a with
      | none =>
        rw [List.filterMap_cons_none hf, List.filterMap_cons_none hg]
        exact ih hrest ht
      | some d =>
        rw [hg] at ha
        cases ha
    | some c =>
      rw [hf] at ha
      cases hg : g a with
      | none =>
        rw [hg] at ha
        cases ha
      | some d =>
        rw [hg] at ha
        cases ha with
        | some hcd =>
          rw [List.filterMap_cons_some hf, List.filterMap_cons_some hg]
          exact ih hrest (hcd.apply ht)

end Readers

/-! ## The table, the objects and the counter -/

section Counting

variable {ι β : Type} [Fintype ι] {table : ι → Option β}

/-- The number of empty slots. -/
def emptySlots (table : ι → Option β) : Nat := (Finset.univ.filter fun i => table i = none).card

theorem emptySlots_le (table : ι → Option β) : emptySlots table ≤ Fintype.card ι :=
  Finset.card_filter_le _ _

theorem exists_empty (h : 0 < emptySlots table) : ∃ i, table i = none := by
  obtain ⟨i, hi⟩ := Finset.card_pos.mp h
  exact ⟨i, (Finset.mem_filter.mp hi).2⟩

variable [DecidableEq ι]

theorem emptySlots_bind {i : ι} (h : table i = none) (b : β) :
    emptySlots (Function.update table i (some b)) + 1 = emptySlots table := by
  have heq : (Finset.univ.filter fun j => Function.update table i (some b) j = none) =
      (Finset.univ.filter fun j => table j = none).erase i := by
    ext j
    by_cases hj : j = i
    · subst hj
      simp
    · simp [hj]
  unfold emptySlots
  rw [heq]
  exact Finset.card_erase_add_one (by simp [h])

theorem emptySlots_unbind {i : ι} (h : table i ≠ none) :
    emptySlots (Function.update table i none) = emptySlots table + 1 := by
  have heq : (Finset.univ.filter fun j => Function.update table i none j = none) =
      insert i (Finset.univ.filter fun j => table j = none) := by
    ext j
    by_cases hj : j = i
    · subst hj
      simp
    · simp [hj]
  unfold emptySlots
  rw [heq]
  exact Finset.card_insert_of_notMem (by simp [h])

end Counting

variable [Fintype ι] {table : ι → Option β} {place : β → Option ι} {free : Nat}

structure Agrees (table : ι → Option β) (place : β → Option ι) (free : Nat) : Prop where
  mutual_iff : ∀ i b, table i = some b ↔ place b = some i
  free_eq : free = emptySlots table

omit [DecidableEq ι] in
/-- Without an empty slot, every slot has an object of its own. -/
theorem Agrees.full (h : Agrees table place free) (hfree : free = 0) :
    ∃ f : ι → β, Function.Injective f ∧ ∀ i, place (f i) = some i := by
  have hbound : ∀ i, ∃ b, table i = some b := by
    intro i
    have hempty : i ∉ Finset.univ.filter fun j => table j = none := by
      have hcard := h.free_eq.symm.trans hfree
      rw [emptySlots, Finset.card_eq_zero] at hcard
      rw [hcard]
      exact Finset.notMem_empty i
    exact Option.ne_none_iff_exists'.mp fun hi => hempty (by simp [hi])
  choose f hf using hbound
  have hplace : ∀ i, place (f i) = some i := fun i => (h.mutual_iff i (f i)).mp (hf i)
  refine ⟨f, ?_, hplace⟩
  intro i j hij
  have hi := hplace i
  rw [hij, hplace j] at hi
  exact (Option.some.inj hi).symm

variable [DecidableEq β]

section Mutual

omit [Fintype ι]

/-- The table and the places still agree after an object without a slot is bound to an empty
one. -/
theorem mutual_bind (h : ∀ i b, table i = some b ↔ place b = some i) {i : ι} {b : β}
    (hi : table i = none) (hb : place b = none) (j : ι) (c : β) :
    Function.update table i (some b) j = some c ↔
      Function.update place b (some i) c = some j := by
  by_cases hj : j = i
  · subst hj
    by_cases hc : c = b
    · subst hc
      simp
    · have hne : place c ≠ some j := fun hp => by
        rw [(h j c).mpr hp] at hi
        cases hi
      simp [hc, hne, Ne.symm hc]
  · by_cases hc : c = b
    · subst hc
      have hne : table j ≠ some c := fun ht => by
        rw [(h j c).mp ht] at hb
        cases hb
      simp [hj, hne, Ne.symm hj]
    · simp [hj, hc, h j c]

/-- The table and the places still agree after an object is unbound. -/
theorem mutual_unbind (h : ∀ i b, table i = some b ↔ place b = some i) {i : ι} {b : β}
    (hb : place b = some i) (j : ι) (c : β) :
    Function.update table i none j = some c ↔ Function.update place b none c = some j := by
  have hi : table i = some b := (h i b).mpr hb
  by_cases hj : j = i
  · subst hj
    by_cases hc : c = b
    · subst hc
      simp
    · have hne : place c ≠ some j := fun hp => by
        rw [(h j c).mpr hp] at hi
        exact hc (Option.some.inj hi)
      simp [hc, hne]
  · by_cases hc : c = b
    · subst hc
      have hne : table j ≠ some c := fun ht => by
        rw [(h j c).mp ht] at hb
        exact hj (Option.some.inj hb)
      simp [hj, hne]
    · simp [hj, hc, h j c]

end Mutual

/-- Binding an object without a slot to an empty slot. -/
theorem Agrees.bind (h : Agrees table place free) {i : ι} {b : β} (hi : table i = none)
    (hb : place b = none) :
    Agrees (Function.update table i (some b)) (Function.update place b (some i)) (free - 1) := by
  refine ⟨mutual_bind h.mutual_iff hi hb, ?_⟩
  have := emptySlots_bind hi b
  have := h.free_eq
  omega

/-- Unbinding an object. -/
theorem Agrees.unbind (h : Agrees table place free) {i : ι} {b : β} (hb : place b = some i) :
    Agrees (Function.update table i none) (Function.update place b none) (free + 1) := by
  have hi : table i = some b := (h.mutual_iff i b).mpr hb
  refine ⟨mutual_unbind h.mutual_iff hb, ?_⟩
  rw [emptySlots_unbind (by simp [hi]), h.free_eq]

end SlotTable
