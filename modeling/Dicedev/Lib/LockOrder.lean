import Dicedev.Lib.LockPaths
import Dicedev.Lib.Machine
import Mathlib.Logic.Function.Basic

/-!
# Threads that take locks in an order

Any number of threads follow paths. A thread at a `lock` spins until the lock is free.

`tame` are the rules for all locks at once: a lock is taken only above the locks that are held,
nobody sleeps with a lock or ends with one. `tame_of_held` gets them from one check for each lock,
in which taking a lock that is not above counts as a sleep.

`Threads.Tame.lock_available`: if all threads keep the rules, a thread that spins gets its lock
when those that hold locks go on. They need not sleep for that.
-/

namespace LockPaths

variable {L C W : Type} [DecidableEq L]

/-! ## The rules -/

/-- The rules on a path, from a point at which the locks in `h` are held. -/
def tame (rank : L → Nat) : (L → Bool) → List (Mark L C W) → Prop
  | h, [] => ∀ l, h l = false
  | h, .test _ _ :: es => tame rank h es
  | h, .act (.lock l) :: es =>
    (∀ m, h m = true → rank m < rank l) ∧ tame rank (Function.update h l true) es
  | h, .act (.unlock l) :: es => h l = true ∧ tame rank (Function.update h l false) es
  | h, .act (.sleep _) :: es => (∀ m, h m = false) ∧ tame rank h es

/-- For the lock `l`, taking another lock that is not above it is as bad as a sleep. -/
def Act.guard (rank : L → Nat) (l : L) (w : W) : Act L W → Act L W
  | .lock m => if m ≠ l ∧ rank m ≤ rank l then .sleep w else .lock m
  | a => a

def Mark.mapAct (f : Act L W → Act L W) : Mark L C W → Mark L C W
  | .act a => .act (f a)
  | .test c b => .test c b

def Prog.mapAct (f : Act L W → Act L W) : Prog L C W → Prog L C W
  | .skip => .skip
  | .act a => .act (f a)
  | .seq p q => .seq (p.mapAct f) (q.mapAct f)
  | .ite c p q => .ite c (p.mapAct f) (q.mapAct f)
  | .loop c p => .loop c (p.mapAct f)
  | .call p => .call (p.mapAct f)
  | .ret => .ret
  | .halt => .halt

omit [DecidableEq L] in
theorem Path.mapAct (f : Act L W → Act L W) {p : Prog L C W} {es : List (Mark L C W)} {x : Exit}
    (h : Path p es x) : Path (p.mapAct f) (es.map (Mark.mapAct f)) x := by
  induction h with
  | skip => exact .skip
  | act a => exact .act (f a)
  | seq _ _ ihp ihq =>
    rw [List.map_append]
    exact .seq ihp ihq
  | seqExit _ hx ih => exact .seqExit ih hx
  | iteTrue _ ih => exact .iteTrue ih
  | iteFalse _ ih => exact .iteFalse ih
  | loopEnd c p => exact .loopEnd c _
  | loopNext _ _ ihp ihl =>
    rw [List.map_cons, List.map_append]
    exact .loopNext ihp ihl
  | loopExit _ hx ih => exact .loopExit ih hx
  | call _ hx ih => exact .call ih hx
  | callHalt _ ih => exact .callHalt ih
  | ret => exact .ret
  | halt => exact .halt

/-- The path as it looks for the lock `l`. -/
def guarded (rank : L → Nat) (w : W) (l : L) (es : List (Mark L C W)) : List (Mark L C W) :=
  es.map (Mark.mapAct (Act.guard rank l w))

/-- The tests of a path stay. -/
theorem test_mem_guarded {rank : L → Nat} {w : W} {l : L} {es : List (Mark L C W)} {c : C}
    {b : Bool} (h : .test c b ∈ guarded rank w l es) : .test c b ∈ es := by
  obtain ⟨m, hm, heq⟩ := List.mem_map.mp h
  cases m with
  | act a => cases heq
  | test c' b' =>
    cases heq
    exact hm

theorem guard_lock_self (rank : L → Nat) (l : L) (w : W) :
    (Act.lock l).guard rank l w = .lock l :=
  if_neg fun h => h.1 rfl

/-- Another lock leaves `l` as it is, and is above it if `l` is held. -/
theorem guard_lock_apply {rank : L → Nat} {l m : L} {w : W} {b b' : Bool} (hml : m ≠ l)
    (h : ((Act.lock m).guard rank l w).apply l b = some b') :
    b' = b ∧ (b = true → rank l < rank m) := by
  by_cases hle : rank m ≤ rank l
  · rw [show (Act.lock m).guard rank l w = .sleep w from if_pos ⟨hml, hle⟩] at h
    cases b with
    | true => cases h
    | false => exact ⟨(Option.some.inj h).symm, fun hb => by cases hb⟩
  · rw [show (Act.lock m).guard rank l w = .lock m from if_neg fun h => hle h.2] at h
    have hb : (if m = l then if b then none else some true else some b) = some b' := h
    rw [if_neg hml] at hb
    exact ⟨(Option.some.inj hb).symm, fun _ => Nat.lt_of_not_le hle⟩

/-- A path on which the rules are kept for each lock alone keeps them for all. -/
theorem tame_of_held {rank : L → Nat} (w : W) {es : List (Mark L C W)} {h : L → Bool}
    (hheld : ∀ l, held l (h l) (guarded rank w l es) = some false) : tame rank h es := by
  induction es generalizing h with
  | nil => exact fun l => Option.some.inj (hheld l)
  | cons e es ih =>
    cases e with
    | test c b => exact ih hheld
    | act a =>
      have hnext : ∀ l, ∃ b, (a.guard rank l w).apply l (h l) = some b ∧
          held l b (guarded rank w l es) = some false := fun l =>
        Option.bind_eq_some_iff.mp (hheld l)
      cases a with
      | lock m =>
        have hfree : h m = false ∧ held m true (guarded rank w m es) = some false := by
          obtain ⟨b, hb, hrest⟩ := hnext m
          rw [guard_lock_self] at hb
          have hb' : (if m = m then if h m then none else some true else some (h m)) = some b := hb
          rw [if_pos rfl] at hb'
          split at hb'
          · cases hb'
          · rename_i hm
            cases hb'
            exact ⟨Bool.eq_false_iff.mpr hm, hrest⟩
        refine ⟨fun l hl => ?_, ih fun l => ?_⟩
        · obtain ⟨b, hb, -⟩ := hnext l
          refine (guard_lock_apply (fun hml => ?_) hb).2 hl
          rw [← hml, hfree.1] at hl
          cases hl
        · by_cases hml : m = l
          · rw [← hml, Function.update_self]
            exact hfree.2
          · obtain ⟨b, hb, hrest⟩ := hnext l
            rw [Function.update_of_ne (Ne.symm hml), ← (guard_lock_apply hml hb).1]
            exact hrest
      | unlock m =>
        refine ⟨?_, ih fun l => ?_⟩
        · obtain ⟨b, hb, -⟩ := hnext m
          have hb' : (if m = m then if h m then some false else none else some (h m)) = some b := hb
          rw [if_pos rfl] at hb'
          split at hb'
          · assumption
          · cases hb'
        · obtain ⟨b, hb, hrest⟩ := hnext l
          have hb' : (if m = l then if h l then some false else none else some (h l)) = some b := hb
          by_cases hml : m = l
          · rw [if_pos hml] at hb'
            split at hb'
            · cases hb'
              rw [hml, Function.update_self]
              exact hrest
            · cases hb'
          · rw [if_neg hml] at hb'
            rw [Function.update_of_ne (Ne.symm hml), Option.some.inj hb']
            exact hrest
      | sleep v =>
        have hnone : ∀ l, h l = false ∧ held l false (guarded rank w l es) = some false := by
          intro l
          obtain ⟨b, hb, hrest⟩ := hnext l
          have hb' : (if h l then none else some false) = some b := hb
          split at hb'
          · cases hb'
          · rename_i hl
            cases hb'
            exact ⟨Bool.eq_false_iff.mpr hl, hrest⟩
        exact ⟨fun l => (hnone l).1, ih fun l => (hnone l).1 ▸ (hnone l).2⟩

/-! ## Threads -/

/-- What every thread still has to do, and who holds the locks. -/
structure Threads (L C W T : Type) where
  todo : T → List (Mark L C W)
  owner : L → Option T

inductive ThreadLabel (L C W T : Type)
  /-- An idle thread begins with a path. -/
  | start (t : T) (es : List (Mark L C W))
  /-- A thread takes a step that is not a sleep. -/
  | go (t : T)
  /-- A thread returns from a sleep. -/
  | resume (t : T)

variable {T : Type} [DecidableEq T]

namespace Threads

/-- Thread `t` is behind its next mark. -/
def advance (s : Threads L C W T) (t : T) (es : List (Mark L C W)) : Threads L C W T :=
  { s with todo := Function.update s.todo t es }

def setOwner (s : Threads L C W T) (l : L) (o : Option T) : Threads L C W T :=
  { s with owner := Function.update s.owner l o }

def step (s : Threads L C W T) : ThreadLabel L C W T → Option (Threads L C W T)
  | .start t es => if (s.todo t).isEmpty then some (s.advance t es) else none
  | .go t =>
    match s.todo t with
    | .test _ _ :: es => some (s.advance t es)
    | .act (.lock l) :: es =>
      if s.owner l = none then some ((s.advance t es).setOwner l (some t)) else none
    | .act (.unlock l) :: es => some ((s.advance t es).setOwner l none)
    | _ => none
  | .resume t =>
    match s.todo t with
    | .act (.sleep _) :: es => some (s.advance t es)
    | _ => none

/-- The locks that thread `t` holds. -/
def holds (s : Threads L C W T) (t : T) (l : L) : Bool := decide (s.owner l = some t)

/-- Every thread keeps the rules on the rest of its path. -/
def Tame (rank : L → Nat) (s : Threads L C W T) : Prop := ∀ t, tame rank (s.holds t) (s.todo t)

end Threads

/-- Any number of threads, all of them idle at first. -/
def threadSystem (L C W T : Type) [DecidableEq L] [DecidableEq T] :
    Machine (Threads L C W T) (ThreadLabel L C W T) :=
  ⟨⟨fun _ => [], fun _ => none⟩, Threads.step⟩

namespace Threads

variable {s s' : Threads L C W T} {t u : T} {l : L} {es : List (Mark L C W)} {rank : L → Nat}

/-- A thread takes a free lock. -/
theorem holds_take (hfree : s.owner l = none) :
    (s.setOwner l (some t)).holds t = Function.update (s.holds t) l true ∧
      ∀ u, u ≠ t → (s.setOwner l (some t)).holds u = s.holds u := by
  refine ⟨funext fun m => ?_, fun u hu => funext fun m => ?_⟩
  · by_cases hm : m = l
    · subst hm
      simp [holds, setOwner]
    · simp [holds, setOwner, hm]
  · by_cases hm : m = l
    · subst hm
      simp [holds, setOwner, hfree, Ne.symm hu]
    · simp [holds, setOwner, hm]

/-- A thread gives its lock back. -/
theorem holds_drop (hown : s.owner l = some t) :
    (s.setOwner l none).holds t = Function.update (s.holds t) l false ∧
      ∀ u, u ≠ t → (s.setOwner l none).holds u = s.holds u := by
  refine ⟨funext fun m => ?_, fun u hu => funext fun m => ?_⟩
  · by_cases hm : m = l
    · subst hm
      simp [holds, setOwner]
    · simp [holds, setOwner, hm]
  · by_cases hm : m = l
    · subst hm
      simp [holds, setOwner, hown, Ne.symm hu]
    · simp [holds, setOwner, hm]

/-- Only thread `t` moves. -/
theorem Tame.move (h : s.Tame rank) (ht : tame rank (s'.holds t) (s'.todo t))
    (hother : ∀ u, u ≠ t → s'.holds u = s.holds u ∧ s'.todo u = s.todo u) : s'.Tame rank := by
  intro u
  by_cases hu : u = t
  · rw [hu]
    exact ht
  · rw [(hother u hu).1, (hother u hu).2]
    exact h u

/-- What a step of a running thread does. -/
inductive GoStep (s : Threads L C W T) (t : T) : Threads L C W T → Prop
  | test (c : C) (b : Bool) (es : List (Mark L C W)) (htodo : s.todo t = .test c b :: es) :
      GoStep s t (s.advance t es)
  | lock (l : L) (es : List (Mark L C W)) (htodo : s.todo t = .act (.lock l) :: es)
      (hfree : s.owner l = none) : GoStep s t ((s.advance t es).setOwner l (some t))
  | unlock (l : L) (es : List (Mark L C W)) (htodo : s.todo t = .act (.unlock l) :: es) :
      GoStep s t ((s.advance t es).setOwner l none)

theorem GoStep.of_step (h : s.step (.go t) = some s') : GoStep s t s' := by
  unfold step at h
  dsimp only at h
  split at h
  · rename_i htodo
    cases h
    exact .test _ _ _ htodo
  · rename_i htodo
    split at h
    · rename_i hfree
      cases h
      exact .lock _ _ htodo hfree
    · cases h
  · rename_i htodo
    cases h
    exact .unlock _ _ htodo
  · cases h

theorem GoStep.step (h : GoStep s t s') : s.step (.go t) = some s' := by
  unfold Threads.step
  dsimp only
  cases h with
  | test c b es htodo => rw [htodo]
  | lock l es htodo hfree =>
    rw [htodo]
    exact if_pos hfree
  | unlock l es htodo => rw [htodo]

omit [DecidableEq L] in
theorem todo_advance (s : Threads L C W T) (t : T) (es : List (Mark L C W)) :
    (s.advance t es).todo t = es := by
  simp [advance]

omit [DecidableEq L] in
theorem todo_other (s : Threads L C W T) (hu : u ≠ t) (es : List (Mark L C W)) :
    (s.advance t es).todo u = s.todo u := by
  simp [advance, hu]

theorem Tame.go (h : s.Tame rank) (hs : GoStep s t s') : s'.Tame rank := by
  have ht := h t
  cases hs with
  | test c b es htodo =>
    rw [htodo] at ht
    refine h.move (t := t) ?_ fun u hu => ⟨rfl, todo_other s hu es⟩
    rw [todo_advance]
    exact ht
  | lock l es htodo hfree =>
    rw [htodo] at ht
    obtain ⟨hself, hother⟩ := holds_take (s := s.advance t es) (t := t) hfree
    refine h.move (t := t) ?_ fun u hu => ⟨hother u hu, todo_other s hu es⟩
    rw [hself]
    exact (todo_advance s t es).symm ▸ ht.2
  | unlock l es htodo =>
    rw [htodo] at ht
    obtain ⟨hself, hother⟩ := holds_drop (s := s.advance t es) (of_decide_eq_true ht.1)
    refine h.move (t := t) ?_ fun u hu => ⟨hother u hu, todo_other s hu es⟩
    rw [hself]
    exact (todo_advance s t es).symm ▸ ht.2

theorem Tame.resume (h : s.Tame rank) (hs : s.step (.resume t) = some s') : s'.Tame rank := by
  have ht := h t
  unfold step at hs
  dsimp only at hs
  split at hs
  · rename_i w es htodo
    cases hs
    rw [htodo] at ht
    refine h.move (t := t) ?_ fun u hu => ⟨rfl, todo_other s hu es⟩
    rw [todo_advance]
    exact ht.2
  · cases hs

theorem Tame.start (h : s.Tame rank) (hes : tame rank (fun _ => false) es)
    (hs : s.step (.start t es) = some s') : s'.Tame rank := by
  have ht := h t
  unfold step at hs
  dsimp only at hs
  split at hs
  · rename_i hidle
    cases hs
    rw [List.isEmpty_iff.mp hidle] at ht
    refine h.move (t := t) ?_ fun u hu => ⟨rfl, todo_other s hu es⟩
    rw [todo_advance, show (s.advance t es).holds t = fun _ => false from funext ht]
    exact hes
  · cases hs

/-! ## Nobody waits for ever -/

/-- A run of threads that hold locks frees a lock of rank `r` and above: threads whose locks are
all lower do not take part in it. -/
structure Clears (rank : L → Nat) (l : L) (s : Threads L C W T) (ts : List T)
    (s' : Threads L C W T) : Prop where
  run : (threadSystem L C W T).exec s (ts.map .go) = some s'
  tame : s'.Tame rank
  low : ∀ u, (∀ m, s.owner m = some u → rank m < rank l) →
    u ∉ ts ∧ s'.todo u = s.todo u ∧ s'.holds u = s.holds u

/-- A step leaves the other threads alone. -/
theorem GoStep.other (h : s.Tame rank) (hs : GoStep s t s') (hu : u ≠ t) :
    s'.todo u = s.todo u ∧ s'.holds u = s.holds u := by
  have ht := h t
  cases hs with
  | test c b es htodo => exact ⟨todo_other s hu es, rfl⟩
  | lock l es htodo hfree =>
    exact ⟨todo_other s hu es, (holds_take (s := s.advance t es) hfree).2 u hu⟩
  | unlock l es htodo =>
    rw [htodo] at ht
    exact ⟨todo_other s hu es,
      (holds_drop (s := s.advance t es) (of_decide_eq_true ht.1)).2 u hu⟩

omit [DecidableEq L] in
theorem owner_of_holds (h : s'.holds u = s.holds u) (m : L) :
    s'.owner m = some u ↔ s.owner m = some u := by
  have hm := congrFun h m
  unfold holds at hm
  exact decide_eq_decide.mp hm

/-- The owner of `l` takes a step, and the rest follows. -/
theorem Clears.cons {s₁ s₂ : Threads L C W T} {ts : List T} (h : s.Tame rank)
    (howner : s.owner l = some t) (hs : GoStep s t s₁) (hrest : Clears rank l s₁ ts s₂) :
    Clears rank l s (t :: ts) s₂ := by
  refine ⟨Machine.exec_cons_some.mpr ⟨s₁, hs.step, hrest.run⟩, hrest.tame, fun u hu => ?_⟩
  have hne : u ≠ t := by
    rintro rfl
    exact Nat.lt_irrefl _ (hu l howner)
  obtain ⟨htodo, hholds⟩ := hs.other h hne
  obtain ⟨hnot, htodo', hholds'⟩ := hrest.low u fun m hm => hu m ((owner_of_holds hholds m).mp hm)
  refine ⟨fun hmem => ?_, htodo'.trans htodo, hholds'.trans hholds⟩
  rcases List.mem_cons.mp hmem with heq | hmem
  · exact hne heq
  · exact hnot hmem

/-- What frees a higher lock first. -/
theorem Clears.append {s₁ s₂ : Threads L C W T} {ts us : List T} {m : L} (hlm : rank l ≤ rank m)
    (hfirst : Clears rank m s ts s₁) (hrest : Clears rank l s₁ us s₂) :
    Clears rank l s (ts ++ us) s₂ := by
  refine ⟨?_, hrest.tame, fun u hu => ?_⟩
  · rw [List.map_append, Machine.exec_append, hfirst.run]
    exact hrest.run
  · obtain ⟨hnot, htodo, hholds⟩ := hfirst.low u fun k hk => Nat.lt_of_lt_of_le (hu k hk) hlm
    obtain ⟨hnot', htodo', hholds'⟩ :=
      hrest.low u fun k hk => hu k ((owner_of_holds hholds k).mp hk)
    refine ⟨fun hmem => ?_, htodo'.trans htodo, hholds'.trans hholds⟩
    rcases List.mem_append.mp hmem with hmem | hmem
    · exact hnot hmem
    · exact hnot' hmem

/-- A thread that holds the lock `l` can take a step, which frees `l` or brings it nearer to that,
or it spins for a lock above all of its own. -/
inductive OwnerNext (rank : L → Nat) (s : Threads L C W T) (l : L) (t : T) : Prop
  | frees (s' : Threads L C W T) (hs : GoStep s t s') (hfree : s'.owner l = none)
  | nearer (s' : Threads L C W T) (hs : GoStep s t s') (howner : s'.owner l = some t)
      (hlt : (s'.todo t).length < (s.todo t).length)
  | spins (m : L) (es : List (Mark L C W)) (u : T) (htodo : s.todo t = .act (.lock m) :: es)
      (howner : s.owner m = some u) (habove : ∀ k, s.owner k = some t → rank k < rank m)

theorem Tame.owner_next (h : s.Tame rank) (howner : s.owner l = some t) :
    OwnerNext rank s l t := by
  have ht := h t
  have hheld : s.holds t l = true := decide_eq_true howner
  have hnearer : ∀ {e : Mark L C W} {es : List (Mark L C W)}, s.todo t = e :: es →
      ((s.advance t es).todo t).length < (s.todo t).length := by
    intro e es htodo
    rw [todo_advance, htodo]
    exact Nat.lt_succ_self _
  cases htodo : s.todo t with
  | nil =>
    rw [htodo] at ht
    cases hheld.symm.trans (ht l)
  | cons e es =>
    rw [htodo] at ht
    rcases e with (m | m | w) | ⟨c, b⟩
    · cases hm : s.owner m with
      | none =>
        have hlm : l ≠ m := by
          rintro rfl
          cases howner.symm.trans hm
        refine .nearer _ (.lock m es htodo hm) ?_ (hnearer htodo)
        exact (Function.update_of_ne hlm _ _).trans howner
      | some u => exact .spins m es u htodo hm fun k hk => ht.1 k (decide_eq_true hk)
    · by_cases hlm : l = m
      · refine .frees _ (.unlock m es htodo) ?_
        rw [hlm]
        exact Function.update_self m _ _
      · refine .nearer _ (.unlock m es htodo) ?_ (hnearer htodo)
        exact (Function.update_of_ne hlm _ _).trans howner
    · cases hheld.symm.trans (ht.1 l)
    · exact .nearer _ (.test c b es htodo) howner (hnearer htodo)

/-- A lock that is held is freed by steps of threads that hold locks. The induction goes up the
order of the locks, and along the path of the owner. -/
theorem Tame.release {n : Nat} (hn : ∀ m, rank m < n) {s : Threads L C W T} {l : L} {t : T}
    (h : s.Tame rank) (howner : s.owner l = some t) :
    ∃ ts s', Clears rank l s ts s' ∧ s'.owner l = none := by
  cases h.owner_next howner with
  | frees s₁ hs hfree =>
    have hstop : Clears rank l s₁ [] s₁ := ⟨rfl, h.go hs, fun _ _ => ⟨List.not_mem_nil, rfl, rfl⟩⟩
    exact ⟨[t], s₁, hstop.cons h howner hs, hfree⟩
  | nearer s₁ hs howner₁ hlt =>
    obtain ⟨ts, s₂, hclear, hfree⟩ := (h.go hs).release hn howner₁
    exact ⟨t :: ts, s₂, hclear.cons h howner hs, hfree⟩
  | spins m es u htodo hu habove =>
    have hlm := habove l howner
    obtain ⟨ts, s₁, hclear, hfree⟩ := h.release hn hu
    -- the owner of `l` was left alone and now takes `m`
    obtain ⟨-, htodo₁, hholds₁⟩ := hclear.low t habove
    have howner₁ : s₁.owner l = some t := (owner_of_holds hholds₁ l).mpr howner
    have hs : GoStep s₁ t ((s₁.advance t es).setOwner m (some t)) :=
      .lock m es (htodo₁.trans htodo) hfree
    have hkeep : ((s₁.advance t es).setOwner m (some t)).owner l = some t := by
      have hne : l ≠ m := by
        rintro rfl
        exact Nat.lt_irrefl _ hlm
      exact (Function.update_of_ne hne _ _).trans howner₁
    obtain ⟨us, s₂, hclear', hfree'⟩ := (hclear.tame.go hs).release hn hkeep
    exact ⟨ts ++ t :: us, s₂,
      hclear.append (Nat.le_of_lt hlm) (hclear'.cons hclear.tame howner₁ hs), hfree'⟩
termination_by (n - rank l, (s.todo t).length)
decreasing_by
  · exact Prod.Lex.right _ hlt
  · exact Prod.Lex.left _ _ (Nat.sub_lt_sub_left (hn l) hlm)
  · refine Prod.Lex.right _ ?_
    rw [show ((s₁.advance t es).setOwner m (some t)).todo t = es from todo_advance s₁ t es, htodo]
    exact Nat.lt_succ_self _

/-- A thread that spins for a lock gets it when others, which hold locks, go on. -/
theorem Tame.lock_available {n : Nat} (hn : ∀ m, rank m < n) (h : s.Tame rank)
    (htodo : s.todo t = .act (.lock l) :: es) :
    ∃ (ts : List T) (s' : Threads L C W T), t ∉ ts ∧
      (threadSystem L C W T).exec s (ts.map .go) = some s' ∧
      s'.todo t = s.todo t ∧ s'.owner l = none := by
  cases howner : s.owner l with
  | none => exact ⟨[], s, List.not_mem_nil, rfl, rfl, howner⟩
  | some u =>
    obtain ⟨ts, s', hclear, hfree⟩ := h.release hn howner
    have ht := h t
    rw [htodo] at ht
    obtain ⟨hnot, hsame, -⟩ := hclear.low t fun m hm => ht.1 m (decide_eq_true hm)
    exact ⟨ts, s', hnot, hclear.run, hsame, hfree⟩

/-- A thread that sleeps holds no lock. -/
theorem Tame.sleeps_free (h : s.Tame rank) {w : W} (htodo : s.todo t = .act (.sleep w) :: es)
    (l : L) : s.owner l ≠ some t := by
  have ht := h t
  rw [htodo] at ht
  exact of_decide_eq_false (ht.1 l)

end Threads

/-- The paths that the threads begin with keep the rules. -/
theorem tame_reachable {rank : L → Nat} {P : Threads L C W T → ThreadLabel L C W T → Prop}
    (hP : ∀ s t es, P s (.start t es) → tame rank (fun _ => false) es) {s : Threads L C W T}
    (h : (threadSystem L C W T).ReachableBy P s) : s.Tame rank := by
  induction h with
  | init => exact fun _ _ => rfl
  | @step s s' l _ hl hs ih =>
    cases l with
    | start t es => exact ih.start (hP s t es hl) hs
    | go t => exact ih.go (.of_step hs)
    | resume t => exact ih.resume hs

end LockPaths
