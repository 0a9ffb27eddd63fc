import Mathlib.Data.List.Basic

/-!
# Histories in blocks

A history is a list that grows at its end. Its entries belong to owners, and two kinds of
marks tell which owner's turn it is.

* With separators, `Fenced` says that the entries of an owner are followed by its own
  separator before any other. Then the entries between two separators have one owner
  (`Fenced.same_block`).
* With opening and closing marks, `Bracketed` says that only the current owner has an
  opening mark without its closing mark, and `Inside` that every entry after such a mark
  belongs to the owner of the mark.

For both, the lemmas say what an appended entry must satisfy.
-/

namespace Blocks

variable {α ι : Type}

/-! ## Separators -/

section Separators

variable (sep own : α → Option ι)

/-- The number of separators in front of position `i`. -/
def before (l : List α) (i : Nat) : Nat := ((l.take i).filterMap sep).length

/-- Every entry is followed by the separator of its owner, or by none, and then its owner
is `cur`. -/
def Fenced (l : List α) (cur : Option ι) : Prop :=
  ∀ i t, l[i]?.bind own = some t →
    (l.filterMap sep)[before sep l i]? = some t ∨
      (before sep l i = (l.filterMap sep).length ∧ cur = some t)

variable {sep own} {l : List α} {a : α} {cur : Option ι} {t : ι}

theorem before_append {i : Nat} (h : i ≤ l.length) (l' : List α) :
    before sep (l ++ l') i = before sep l i := by
  unfold before
  rw [List.take_append_of_le_length h]

theorem before_length : before sep l l.length = (l.filterMap sep).length := by
  unfold before
  rw [List.take_length]

/-- Splitting the positions of a list with one more entry. -/
theorem own_append {i : Nat} (h : (l ++ [a])[i]?.bind own = some t) :
    (i < l.length ∧ l[i]?.bind own = some t) ∨ (i = l.length ∧ own a = some t) := by
  rcases Nat.lt_trichotomy i l.length with hi | hi | hi
  · rw [List.getElem?_append_left hi] at h
    exact Or.inl ⟨hi, h⟩
  · subst hi
    rw [List.getElem?_append_right (Nat.le_refl _), Nat.sub_self] at h
    exact Or.inr ⟨rfl, h⟩
  · rw [List.getElem?_eq_none (by simp; omega)] at h
    cases h

/-- An entry that is no separator, owned by nobody or by the current owner. -/
theorem Fenced.append (h : Fenced sep own l cur) (hsep : sep a = none)
    (hown : ∀ t, own a = some t → cur = some t) : Fenced sep own (l ++ [a]) cur := by
  intro i t ht
  have hseps : (l ++ [a]).filterMap sep = l.filterMap sep := by
    rw [List.filterMap_append]
    simp [hsep]
  rw [hseps]
  rcases own_append ht with ⟨hi, ht'⟩ | ⟨rfl, ht'⟩
  · rw [before_append (Nat.le_of_lt hi)]
    exact h i t ht'
  · rw [before_append (Nat.le_refl _), before_length]
    exact Or.inr ⟨rfl, hown t ht'⟩

/-- The separator of the current owner closes its block. -/
theorem Fenced.close (h : Fenced sep own l (some t)) (hsep : sep a = some t)
    (hown : own a = none) : Fenced sep own (l ++ [a]) none := by
  intro i u hu
  have hseps : (l ++ [a]).filterMap sep = l.filterMap sep ++ [t] := by
    rw [List.filterMap_append]
    simp [hsep]
  rw [hseps]
  rcases own_append hu with ⟨hi, hu'⟩ | ⟨rfl, hu'⟩
  · rw [before_append (Nat.le_of_lt hi)]
    left
    rcases h i u hu' with hc | ⟨hb, hc⟩
    · have hlt := (List.getElem?_eq_some_iff.mp hc).1
      rw [List.getElem?_append_left hlt]
      exact hc
    · rw [hb, List.getElem?_append_right (Nat.le_refl _), Nat.sub_self]
      exact hc
  · rw [hown] at hu'
    cases hu'

/-- An owner can take its turn when nobody has it. -/
theorem Fenced.start (h : Fenced sep own l none) (t : ι) : Fenced sep own l (some t) := by
  intro i u hu
  rcases h i u hu with hc | ⟨-, hc⟩
  · exact Or.inl hc
  · cases hc

/-- Entries with the same separators in front of them have the same owner. -/
theorem Fenced.same_block (h : Fenced sep own l cur) {i j : Nat} {u : ι}
    (hi : l[i]?.bind own = some t) (hj : l[j]?.bind own = some u)
    (hb : before sep l i = before sep l j) : t = u := by
  have hlen : ∀ k : Nat, ∀ v : ι, (l.filterMap sep)[k]? = some v →
      k ≠ (l.filterMap sep).length := by
    intro k v hk
    have := (List.getElem?_eq_some_iff.mp hk).1
    omega
  rcases h i t hi with hci | ⟨hbi, hci⟩
  · rcases h j u hj with hcj | ⟨hbj, -⟩
    · rw [hb, hcj] at hci
      exact (Option.some.inj hci).symm
    · exact absurd (hb.trans hbj) (hlen _ _ hci)
  · rcases h j u hj with hcj | ⟨-, hcj⟩
    · exact absurd (hb.symm.trans hbi) (hlen _ _ hcj)
    · rw [hci] at hcj
      exact Option.some.inj hcj

/-- A stretch without separators has one owner. -/
theorem Fenced.stretch (h : Fenced sep own l cur) {pre mid post : List α}
    (hl : l = pre ++ mid ++ post) (hmid : ∀ a ∈ mid, sep a = none) {a b : α} {t u : ι}
    (ha : a ∈ mid) (hb : b ∈ mid) (hat : own a = some t) (hbu : own b = some u) : t = u := by
  have hbefore : ∀ k, k < mid.length →
      before sep l (pre.length + k) = (pre.filterMap sep).length := by
    intro k hk
    have hnone : (mid.take k).filterMap sep = [] := by
      rw [List.filterMap_eq_nil_iff]
      intro c hc
      exact hmid c (List.mem_of_mem_take hc)
    unfold before
    rw [hl, List.append_assoc, List.take_length_add_append,
      List.take_append_of_le_length (Nat.le_of_lt hk), List.filterMap_append, hnone,
      List.append_nil]
  have hget : ∀ k, k < mid.length → l[pre.length + k]? = mid[k]? := by
    intro k hk
    rw [hl, List.append_assoc, List.getElem?_append_right (Nat.le_add_right _ _),
      Nat.add_sub_cancel_left, List.getElem?_append_left hk]
  obtain ⟨i, hi, rfl⟩ := List.getElem_of_mem ha
  obtain ⟨j, hj, rfl⟩ := List.getElem_of_mem hb
  refine h.same_block (i := pre.length + i) (j := pre.length + j) ?_ ?_ ?_
  · rw [hget i hi, List.getElem?_eq_getElem hi]
    exact hat
  · rw [hget j hj, List.getElem?_eq_getElem hj]
    exact hbu
  · rw [hbefore i hi, hbefore j hj]

end Separators

/-! ## Opening and closing marks -/

section Brackets

variable (opens closes own : α → Option ι)

/-- A mark without its closing mark belongs to the current owner. -/
def Bracketed (l : List α) (cur : Option ι) : Prop :=
  ∀ pre a mid t, l = pre ++ a :: mid → opens a = some t → (∀ b ∈ mid, closes b ≠ some t) →
    cur = some t

/-- Between an opening mark and its closing mark all entries have its owner. -/
def Inside (l : List α) : Prop :=
  ∀ pre a mid b post t u, l = pre ++ a :: (mid ++ b :: post) → opens a = some t →
    (∀ c ∈ mid, closes c ≠ some t) → own b = some u → u = t

variable {opens closes own} {l : List α} {e : α} {cur : Option ι} {t : ι}

/-- Where an entry of a list with one more entry is. -/
theorem split_append {pre mid : List α} {a : α} (h : l ++ [e] = pre ++ a :: mid) :
    (pre = l ∧ a = e ∧ mid = []) ∨ ∃ mid', mid = mid' ++ [e] ∧ l = pre ++ a :: mid' := by
  rcases List.eq_nil_or_concat mid with rfl | ⟨mid', x, rfl⟩
  · left
    have h' := List.append_inj' h rfl
    exact ⟨h'.1.symm, (List.cons.inj h'.2).1.symm, rfl⟩
  · right
    rw [List.concat_eq_append, ← List.cons_append, ← List.append_assoc] at h
    have h' := List.append_inj' h rfl
    refine ⟨mid', ?_, h'.1⟩
    rw [List.concat_eq_append, (List.cons.inj h'.2).1]

/-- Where an entry of a list with more entries is. -/
theorem split_appends {es pre mid : List α} {a : α} (h : l ++ es = pre ++ a :: mid) :
    (∃ mid', l = pre ++ a :: mid') ∨ (a ∈ es ∧ ∃ as, pre = l ++ as) := by
  rcases List.append_eq_append_iff.mp h with ⟨as, hpre, hes⟩ | ⟨bs, hl, hbs⟩
  · exact Or.inr ⟨by rw [hes]; simp, as, hpre⟩
  · cases bs with
    | nil =>
      rw [List.append_nil] at hl
      exact Or.inr ⟨by rw [List.nil_append] at hbs; rw [← hbs]; simp, [], by simp [hl]⟩
    | cons b bs =>
      cases (List.cons.inj hbs).1
      exact Or.inl ⟨bs, hl⟩

/-- An entry that opens nothing. -/
theorem Bracketed.append (h : Bracketed opens closes l cur) (hopen : opens e = none) :
    Bracketed opens closes (l ++ [e]) cur := by
  intro pre a mid t hl ha hmid
  rcases split_append hl with ⟨-, rfl, -⟩ | ⟨mid', rfl, hl'⟩
  · rw [hopen] at ha
    cases ha
  · exact h pre a mid' t hl' ha fun b hb => hmid b (List.mem_append_left _ hb)

/-- An owner opens its block when nobody has one. -/
theorem Bracketed.start (h : Bracketed opens closes l none) (hopen : opens e = some t) :
    Bracketed opens closes (l ++ [e]) (some t) := by
  intro pre a mid u hl ha hmid
  rcases split_append hl with ⟨-, rfl, -⟩ | ⟨mid', rfl, hl'⟩
  · exact hopen.symm.trans ha
  · have := h pre a mid' u hl' ha fun b hb => hmid b (List.mem_append_left _ hb)
    cases this

/-- The current owner closes its block. -/
theorem Bracketed.close (h : Bracketed opens closes l (some t)) (hopen : opens e = none)
    (hclose : closes e = some t) : Bracketed opens closes (l ++ [e]) none := by
  intro pre a mid u hl ha hmid
  rcases split_append hl with ⟨-, rfl, -⟩ | ⟨mid', rfl, hl'⟩
  · rw [hopen] at ha
    cases ha
  · have hu := h pre a mid' u hl' ha fun b hb => hmid b (List.mem_append_left _ hb)
    exact absurd (hclose.trans hu) (hmid e (by simp))

/-- An entry of nobody or of the current owner. -/
theorem Inside.append (h : Inside opens closes own l) (hb : Bracketed opens closes l cur)
    (hown : ∀ u, own e = some u → cur = some u) : Inside opens closes own (l ++ [e]) := by
  intro pre a mid b post t u hl ha hmid hbu
  have hl1 : l ++ [e] = (pre ++ a :: mid) ++ b :: post := by
    rw [hl, List.append_assoc, List.cons_append]
  rcases split_append hl1 with ⟨hpre, rfl, -⟩ | ⟨post', -, hl'⟩
  · have hcur := hb pre a mid t hpre.symm ha hmid
    rw [hown u hbu] at hcur
    exact Option.some.inj hcur
  · refine h pre a mid b post' t u ?_ ha hmid hbu
    rw [hl', List.append_assoc, List.cons_append]

end Brackets

end Blocks
