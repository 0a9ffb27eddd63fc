import Mathlib.Logic.Basic

/-!
# Paths through programs with locks

A program takes and releases locks, makes calls that may sleep, and branches on tests whose
outcome is not known. `Path` is its semantics: what happens along one way through it and how the
way ends. `held` follows one lock along the way; it is lost when the lock is taken while it
is held, released while it is free, or when a call sleeps under it.

`check` decides for all paths at once in which state the lock is left. It can be told that
some outcomes of tests do not occur, and `check_sound` then speaks of the other paths.
-/

namespace LockPaths

inductive Act (L W : Type)
  | lock (l : L)
  | unlock (l : L)
  | sleep (w : W)
  deriving DecidableEq, Repr

/-- What stands on a path: an action, or the outcome of a test. -/
inductive Mark (L C W : Type)
  | act (a : Act L W)
  | test (c : C) (b : Bool)
  deriving DecidableEq, Repr

/-- How a path ends: behind the program, at a `return`, or at a `BUG`. -/
inductive Exit
  | done
  | returned
  | halted
  deriving DecidableEq, Repr

inductive Prog (L C W : Type)
  | skip
  | act (a : Act L W)
  | seq (p q : Prog L C W)
  | ite (c : C) (p q : Prog L C W)
  | loop (c : C) (p : Prog L C W)
  | call (p : Prog L C W)
  | ret
  | halt
  deriving Repr

variable {L C W : Type}

namespace Prog

/-- Statements one after the other. -/
def block : List (Prog L C W) → Prog L C W
  | [] => skip
  | [p] => p
  | p :: ps => seq p (block ps)

/-- The tests of a program. -/
def tests : Prog L C W → List C
  | skip | act _ | ret | halt => []
  | seq p q => p.tests ++ q.tests
  | ite c p q => c :: p.tests ++ q.tests
  | loop c p => c :: p.tests
  | call p => p.tests

end Prog

/-- The paths through a program. -/
inductive Path : Prog L C W → List (Mark L C W) → Exit → Prop
  | skip : Path .skip [] .done
  | act (a : Act L W) : Path (.act a) [.act a] .done
  | seq {p q : Prog L C W} {es fs : List (Mark L C W)} {x : Exit} (hp : Path p es .done)
      (hq : Path q fs x) : Path (.seq p q) (es ++ fs) x
  | seqExit {p q : Prog L C W} {es : List (Mark L C W)} {x : Exit} (hp : Path p es x)
      (hx : x ≠ .done) : Path (.seq p q) es x
  | iteTrue {c : C} {p q : Prog L C W} {es : List (Mark L C W)} {x : Exit} (hp : Path p es x) :
      Path (.ite c p q) (.test c true :: es) x
  | iteFalse {c : C} {p q : Prog L C W} {es : List (Mark L C W)} {x : Exit} (hq : Path q es x) :
      Path (.ite c p q) (.test c false :: es) x
  | loopEnd (c : C) (p : Prog L C W) : Path (.loop c p) [.test c false] .done
  | loopNext {c : C} {p : Prog L C W} {es fs : List (Mark L C W)} {x : Exit}
      (hp : Path p es .done) (hl : Path (.loop c p) fs x) :
      Path (.loop c p) (.test c true :: (es ++ fs)) x
  | loopExit {c : C} {p : Prog L C W} {es : List (Mark L C W)} {x : Exit} (hp : Path p es x)
      (hx : x ≠ .done) : Path (.loop c p) (.test c true :: es) x
  | call {p : Prog L C W} {es : List (Mark L C W)} {x : Exit} (hp : Path p es x)
      (hx : x ≠ .halted) : Path (.call p) es .done
  | callHalt {p : Prog L C W} {es : List (Mark L C W)} (hp : Path p es .halted) :
      Path (.call p) es .halted
  | ret : Path .ret [] .returned
  | halt : Path .halt [] .halted

theorem Path.of_seq {p q : Prog L C W} {es : List (Mark L C W)} {x : Exit}
    (h : Path (.seq p q) es x) :
    (∃ fs gs, es = fs ++ gs ∧ Path p fs .done ∧ Path q gs x) ∨ Path p es x := by
  cases h with
  | seq hp hq => exact Or.inl ⟨_, _, rfl, hp, hq⟩
  | seqExit hp _ => exact Or.inr hp

theorem Path.of_act_seq {a : Act L W} {q : Prog L C W} {es : List (Mark L C W)} {x : Exit}
    (h : Path (.seq (.act a) q) es x) : ∃ fs, es = .act a :: fs ∧ Path q fs x := by
  cases h with
  | seq hp hq =>
    cases hp
    exact ⟨_, rfl, hq⟩
  | seqExit hp hx =>
    cases hp
    exact absurd rfl hx

/-- Only the tests of the program stand on its paths. -/
theorem Path.mem_tests {p : Prog L C W} {es : List (Mark L C W)} {x : Exit} (h : Path p es x)
    {c : C} {b : Bool} (hc : .test c b ∈ es) : c ∈ p.tests := by
  induction h with
  | skip | ret | halt => cases hc
  | act a => cases List.mem_singleton.mp hc
  | seq _ _ ihp ihq =>
    rcases List.mem_append.mp hc with hc | hc
    · exact List.mem_append_left _ (ihp hc)
    · exact List.mem_append_right _ (ihq hc)
  | seqExit _ _ ih => exact List.mem_append_left _ (ih hc)
  | iteTrue _ ih =>
    rcases List.mem_cons.mp hc with hc | hc
    · cases hc
      exact List.mem_append_left _ List.mem_cons_self
    · exact List.mem_append_left _ (List.mem_cons_of_mem _ (ih hc))
  | iteFalse _ ih =>
    rcases List.mem_cons.mp hc with hc | hc
    · cases hc
      exact List.mem_append_left _ List.mem_cons_self
    · exact List.mem_append_right _ (ih hc)
  | loopEnd c p =>
    cases List.mem_singleton.mp hc
    exact List.mem_cons_self
  | loopNext _ _ ihp ihl =>
    rcases List.mem_cons.mp hc with hc | hc
    · cases hc
      exact List.mem_cons_self
    · rcases List.mem_append.mp hc with hc | hc
      · exact List.mem_cons_of_mem _ (ihp hc)
      · exact ihl hc
  | loopExit _ _ ih =>
    rcases List.mem_cons.mp hc with hc | hc
    · cases hc
      exact List.mem_cons_self
    · exact List.mem_cons_of_mem _ (ih hc)
  | call _ _ ih => exact ih hc
  | callHalt _ ih => exact ih hc

/-! ## One lock -/

section

variable [DecidableEq L] (l : L)

/-- The state of the lock `l` after an action, `none` if the action breaks the rules. -/
def Act.apply (held : Bool) : Act L W → Option Bool
  | .lock l' => if l' = l then if held then none else some true else some held
  | .unlock l' => if l' = l then if held then some false else none else some held
  | .sleep _ => if held then none else some false

def Mark.apply (held : Bool) : Mark L C W → Option Bool
  | .act a => a.apply l held
  | .test _ _ => some held

/-- The state of the lock `l` along a path. -/
def held : Bool → List (Mark L C W) → Option Bool
  | h, [] => some h
  | h, e :: es => (e.apply l h).bind fun h' => held h' es

/-- The rules for the lock `l` are kept, and it is free at the end of a path that has one. -/
def Disciplined (es : List (Mark L C W)) (x : Exit) : Prop :=
  ∃ h, held l false es = some h ∧ (x = .halted ∨ h = false)

theorem held_append (h : Bool) (es fs : List (Mark L C W)) :
    held l h (es ++ fs) = (held l h es).bind fun h' => held l h' fs := by
  induction es generalizing h with
  | nil => rfl
  | cons e es ih =>
    change (e.apply l h).bind _ = ((e.apply l h).bind _).bind _
    rw [Option.bind_assoc]
    exact congrArg _ (funext fun h' => ih h')

theorem held_append_some {h h' : Bool} {es : List (Mark L C W)} (hes : held l h es = some h')
    (fs : List (Mark L C W)) : held l h (es ++ fs) = held l h' fs := by
  rw [held_append, hes]
  rfl

theorem held_append_none {h : Bool} {es : List (Mark L C W)} (hes : held l h es = none)
    (fs : List (Mark L C W)) : held l h (es ++ fs) = none := by
  rw [held_append, hes]
  rfl

/-! ## The checker -/

/-- The state of the lock at the end of a program and at its `return`s; `none` if there is no
path there. -/
structure Exits where
  done : Option Bool
  returned : Option Bool
  deriving DecidableEq, Repr

/-- Two ways meet: they must agree on the lock. -/
def join : Option Bool → Option Bool → Option (Option Bool)
  | none, r => some r
  | r, none => some r
  | some a, some b => if a = b then some (some a) else none

theorem join_left {a b r : Option Bool} {h : Bool} (hj : join a b = some r) (ha : a = some h) :
    r = some h := by
  subst ha
  cases b with
  | none => exact (Option.some.inj hj).symm
  | some b =>
    change (if h = b then some (some h) else none) = some r at hj
    split at hj
    · exact (Option.some.inj hj).symm
    · cases hj

theorem join_right {a b r : Option Bool} {h : Bool} (hj : join a b = some r) (hb : b = some h) :
    r = some h := by
  subst hb
  cases a with
  | none => exact (Option.some.inj hj).symm
  | some a =>
    change (if a = h then some (some a) else none) = some r at hj
    split at hj
    · rename_i hab
      rw [← hab]
      exact (Option.some.inj hj).symm
    · cases hj

def Exits.join (a b : Exits) : Option Exits := do
  let done ← LockPaths.join a.done b.done
  let returned ← LockPaths.join a.returned b.returned
  some ⟨done, returned⟩

/-- In which state the program leaves the lock, if it keeps the rules on all paths with the
outcomes of tests that `ok` admits; a loop must leave the lock as it found it. -/
def Prog.check (ok : C → Bool → Bool) : Bool → Prog L C W → Option Exits
  | h, .skip => some ⟨some h, none⟩
  | h, .act a => (a.apply l h).map fun h' => ⟨some h', none⟩
  | h, .seq p q => do
    let a ← p.check ok h
    match a.done with
    | none => some a
    | some h' =>
      let b ← q.check ok h'
      let returned ← join a.returned b.returned
      some ⟨b.done, returned⟩
  | h, .ite c p q => do
    let a ← (if ok c true then p.check ok h else some ⟨none, none⟩)
    let b ← (if ok c false then q.check ok h else some ⟨none, none⟩)
    a.join b
  | h, .loop c p => do
    let a ← (if ok c true then p.check ok h else some ⟨none, none⟩)
    if a.done = none ∨ a.done = some h then some ⟨some h, a.returned⟩ else none
  | h, .call p => do
    let a ← p.check ok h
    let done ← join a.done a.returned
    some ⟨done, none⟩
  | h, .ret => some ⟨none, some h⟩
  | _, .halt => some ⟨none, none⟩

/-- The lock is where `r` says at the end of a path. -/
def Exits.Has (r : Exits) (x : Exit) (h : Bool) : Prop :=
  (x = .done → r.done = some h) ∧ (x = .returned → r.returned = some h)

variable {l}

theorem Exits.of_join {a b r : Exits} (hr : a.join b = some r) :
    LockPaths.join a.done b.done = some r.done ∧
      LockPaths.join a.returned b.returned = some r.returned := by
  unfold Exits.join at hr
  obtain ⟨d, hd, hr⟩ := Option.bind_eq_some_iff.mp hr
  obtain ⟨t, ht, hr⟩ := Option.bind_eq_some_iff.mp hr
  cases hr
  exact ⟨hd, ht⟩

theorem Exits.Has.join_left {a b r : Exits} {x : Exit} {h : Bool} (ha : a.Has x h)
    (hr : a.join b = some r) : r.Has x h := by
  obtain ⟨hd, ht⟩ := Exits.of_join hr
  exact ⟨fun hx => LockPaths.join_left hd (ha.1 hx), fun hx => LockPaths.join_left ht (ha.2 hx)⟩

theorem Exits.Has.join_right {a b r : Exits} {x : Exit} {h : Bool} (hb : b.Has x h)
    (hr : a.join b = some r) : r.Has x h := by
  obtain ⟨hd, ht⟩ := Exits.of_join hr
  exact ⟨fun hx => LockPaths.join_right hd (hb.1 hx),
    fun hx => LockPaths.join_right ht (hb.2 hx)⟩

/-- What the checker says holds on every path whose tests have admitted outcomes. -/
theorem check_sound {ok : C → Bool → Bool} {p : Prog L C W} {es : List (Mark L C W)} {x : Exit}
    (hp : Path p es x) (hok : ∀ c b, .test c b ∈ es → ok c b = true) {h : Bool} {r : Exits}
    (hr : p.check l ok h = some r) : ∃ h', held l h es = some h' ∧ r.Has x h' := by
  induction hp generalizing h r with
  | skip =>
    cases hr
    exact ⟨h, rfl, fun _ => rfl, by simp⟩
  | act a =>
    obtain ⟨h', ha, rfl⟩ := Option.map_eq_some_iff.mp hr
    refine ⟨h', ?_, fun _ => rfl, by simp⟩
    change (a.apply l h).bind _ = _
    rw [ha]
    rfl
  | seq _ _ ihp ihq =>
    obtain ⟨a, ha, hr⟩ := Option.bind_eq_some_iff.mp hr
    obtain ⟨h₁, hes, hdone, -⟩ := ihp (fun c b hc => hok c b (List.mem_append_left _ hc)) ha
    rw [hdone rfl] at hr
    obtain ⟨b, hb, hr⟩ := Option.bind_eq_some_iff.mp hr
    obtain ⟨t, ht, hr⟩ := Option.bind_eq_some_iff.mp hr
    obtain ⟨h₂, hfs, hq⟩ := ihq (fun c b hc => hok c b (List.mem_append_right _ hc)) hb
    cases hr
    exact ⟨h₂, (held_append_some l hes _).trans hfs, hq.1, fun hx => join_right ht (hq.2 hx)⟩
  | seqExit _ hx ih =>
    obtain ⟨a, ha, hr⟩ := Option.bind_eq_some_iff.mp hr
    obtain ⟨h₁, hes, -, hret⟩ := ih hok ha
    refine ⟨h₁, hes, fun hd => absurd hd hx, fun ht => ?_⟩
    cases hdone : a.done with
    | none =>
      rw [hdone] at hr
      cases hr
      exact hret ht
    | some h₂ =>
      rw [hdone] at hr
      obtain ⟨b, hb, hr⟩ := Option.bind_eq_some_iff.mp hr
      obtain ⟨t, hj, hr⟩ := Option.bind_eq_some_iff.mp hr
      cases hr
      exact join_left hj (hret ht)
  | iteTrue _ ih =>
    obtain ⟨a, ha, hr⟩ := Option.bind_eq_some_iff.mp hr
    obtain ⟨b, hb, hr⟩ := Option.bind_eq_some_iff.mp hr
    rw [if_pos (hok _ _ List.mem_cons_self)] at ha
    obtain ⟨h₁, hes, hx⟩ := ih (fun c b hc => hok c b (List.mem_cons_of_mem _ hc)) ha
    exact ⟨h₁, hes, hx.join_left hr⟩
  | iteFalse _ ih =>
    obtain ⟨a, ha, hr⟩ := Option.bind_eq_some_iff.mp hr
    obtain ⟨b, hb, hr⟩ := Option.bind_eq_some_iff.mp hr
    rw [if_pos (hok _ _ List.mem_cons_self)] at hb
    obtain ⟨h₁, hes, hx⟩ := ih (fun c b hc => hok c b (List.mem_cons_of_mem _ hc)) hb
    exact ⟨h₁, hes, hx.join_right hr⟩
  | loopEnd c p =>
    obtain ⟨a, -, hr⟩ := Option.bind_eq_some_iff.mp hr
    split at hr
    · cases hr
      exact ⟨h, rfl, fun _ => rfl, by simp⟩
    · cases hr
  | loopNext _ _ ihp ihl =>
    have hloop := hr
    obtain ⟨a, ha, hr⟩ := Option.bind_eq_some_iff.mp hr
    rw [if_pos (hok _ _ List.mem_cons_self)] at ha
    have hok' := fun c b hc => hok c b (List.mem_cons_of_mem _ hc)
    obtain ⟨h₁, hes, hdone, -⟩ := ihp (fun c b hc => hok' c b (List.mem_append_left _ hc)) ha
    -- the body has left the lock as it found it
    have heq : h₁ = h := by
      rw [hdone rfl] at hr
      split at hr
      · rename_i hcase
        exact Option.some.inj (hcase.resolve_left (by simp))
      · cases hr
    subst heq
    obtain ⟨h₂, hfs, hx⟩ := ihl (fun c b hc => hok' c b (List.mem_append_right _ hc)) hloop
    exact ⟨h₂, (held_append_some l hes _).trans hfs, hx⟩
  | loopExit _ hx ih =>
    obtain ⟨a, ha, hr⟩ := Option.bind_eq_some_iff.mp hr
    rw [if_pos (hok _ _ List.mem_cons_self)] at ha
    obtain ⟨h₁, hes, -, hret⟩ := ih (fun c b hc => hok c b (List.mem_cons_of_mem _ hc)) ha
    split at hr
    · cases hr
      exact ⟨h₁, hes, fun hd => absurd hd hx, hret⟩
    · cases hr
  | @call _ _ x _ hx ih =>
    obtain ⟨a, ha, hr⟩ := Option.bind_eq_some_iff.mp hr
    obtain ⟨d, hd, hr⟩ := Option.bind_eq_some_iff.mp hr
    obtain ⟨h₁, hes, hdone, hret⟩ := ih hok ha
    cases hr
    refine ⟨h₁, hes, fun _ => ?_, by simp⟩
    cases x with
    | done => exact join_left hd (hdone rfl)
    | returned => exact join_right hd (hret rfl)
    | halted => exact absurd rfl hx
  | callHalt _ ih =>
    obtain ⟨a, ha, -⟩ := Option.bind_eq_some_iff.mp hr
    obtain ⟨h₁, hes, -⟩ := ih hok ha
    exact ⟨h₁, hes, by simp, by simp⟩
  | ret =>
    cases hr
    exact ⟨h, rfl, by simp, fun _ => rfl⟩
  | halt =>
    cases hr
    exact ⟨h, rfl, by simp, by simp⟩

/-- A checked program keeps the rules of a lock that it finds free. -/
theorem disciplined_of_check {ok : C → Bool → Bool} {p : Prog L C W} {r : Exits}
    (hr : p.check l ok false = some r) (hdone : r.done ≠ some true)
    (hret : r.returned ≠ some true) {es : List (Mark L C W)} {x : Exit} (hp : Path p es x)
    (hok : ∀ c b, .test c b ∈ es → ok c b = true) : Disciplined l es x := by
  obtain ⟨h, hheld, hd, ht⟩ := check_sound hp hok hr
  refine ⟨h, hheld, ?_⟩
  cases x with
  | halted => exact Or.inl rfl
  | done =>
    refine Or.inr (Bool.eq_false_iff.mpr ?_)
    rintro rfl
    exact hdone (hd rfl)
  | returned =>
    refine Or.inr (Bool.eq_false_iff.mpr ?_)
    rintro rfl
    exact hret (ht rfl)

end

end LockPaths
