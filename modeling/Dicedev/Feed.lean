import Dicedev.Lib.Machine
import Dicedev.Utils

/-!
# Feeding a command word by word

`State.feedCmd` appends a whole command to the stream. Here `feed_cmd` is taken apart: a call
takes `feed_lock`, polls `CMD_MANUAL_FREE` before each word and writes the word to
`CMD_MANUAL_FEED`, and any number of threads do so, interleaved with each other and with the
device, which frees entries of its queue. `commands_whole` says that the device gets the
commands whole, and `feedCmd_words` that it gets what the atomic `State.feedCmd` records.
-/

namespace Dicedev

/-- Where a thread is in `feed_cmd`. -/
inductive FeedPc
  | outside
  /-- At `spin_lock_irqsave`. -/
  | locking (cmd : List Word)
  /-- At the head of the loop with index `i`, or in the inner loop that waits for a free
  entry. -/
  | polling (cmd : List Word) (i : Nat)
  /-- `CMD_MANUAL_FREE` was not zero. -/
  | writing (cmd : List Word) (i : Nat)
  deriving DecidableEq, Repr

/-- The command of the call in progress. -/
def FeedPc.cmd? : FeedPc → Option (List Word)
  | .outside => none
  | .locking cmd | .polling cmd _ | .writing cmd _ => some cmd

/-- The words that the call in progress has written. -/
def FeedPc.sent : FeedPc → List Word
  | .outside | .locking _ => []
  | .polling cmd i | .writing cmd i => cmd.take i

/-- The call is between `spin_lock_irqsave` and `spin_unlock_irqrestore`. -/
def FeedPc.inside : FeedPc → Bool
  | .outside | .locking _ => false
  | .polling _ _ | .writing _ _ => true

/-- `words` is what was written to `CMD_MANUAL_FEED`; `issued` are the calls of `feed_cmd` in
the order in which they were made, and `fed` in the order in which they returned. -/
structure FeedState (T : Type) where
  pc : T → FeedPc
  feedLock : Option T
  manualFree : Nat
  words : List Word
  issued : List (T × List Word)
  fed : List (T × List Word)

inductive FeedLabel (T : Type)
  | call (t : T) (cmd : List Word)
  | lock (t : T)
  | poll (t : T)
  | write (t : T)
  | unlock (t : T)
  | free (n : Nat)
  deriving DecidableEq, Repr

variable {T : Type} [DecidableEq T]

namespace FeedState

/-- The words of the command that is being fed. -/
def part (s : FeedState T) : List Word :=
  match s.feedLock with
  | none => []
  | some t => (s.pc t).sent

/-- Thread `t` goes on. -/
def goto (s : FeedState T) (t : T) (pc : FeedPc) : FeedState T :=
  { s with pc := Function.update s.pc t pc }

def step (s : FeedState T) : FeedLabel T → Option (FeedState T)
  | .call t cmd =>
    if s.pc t = .outside then
      some { s.goto t (.locking cmd) with issued := s.issued ++ [(t, cmd)] }
    else none
  | .lock t =>
    match s.pc t with
    | .locking cmd =>
      if s.feedLock = none then some { s.goto t (.polling cmd 0) with feedLock := some t }
      else none
    | _ => none
  | .poll t =>
    match s.pc t with
    | .polling cmd i =>
      if i < cmd.length then
        if s.manualFree = 0 then some s else some (s.goto t (.writing cmd i))
      else none
    | _ => none
  | .write t =>
    match s.pc t with
    | .writing cmd i =>
      cmd[i]?.map fun w =>
        { s.goto t (.polling cmd (i + 1)) with
          manualFree := s.manualFree - 1
          words := s.words ++ [w] }
    | _ => none
  | .unlock t =>
    match s.pc t with
    | .polling cmd i =>
      if i < cmd.length then none
      else some { s.goto t .outside with feedLock := none, fed := s.fed ++ [(t, cmd)] }
    | _ => none
  | .free n => some { s with manualFree := s.manualFree + n }

end FeedState

/-- Threads that call `feed_cmd`, on a queue with `n` free entries. -/
def feedSystem (T : Type) [DecidableEq T] (n : Nat) : Machine (FeedState T) (FeedLabel T) :=
  ⟨⟨fun _ => .outside, none, n, [], [], []⟩, FeedState.step⟩

/-- The commands of thread `t` in a list of calls. -/
def cmdsOf (calls : List (T × List Word)) (t : T) : List (List Word) :=
  calls.filterMap fun p => if p.1 = t then some p.2 else none

variable {s s' : FeedState T} {l : FeedLabel T} {n : Nat}

theorem cmdsOf_append_self (calls : List (T × List Word)) (t : T) (cmd : List Word) :
    cmdsOf (calls ++ [(t, cmd)]) t = cmdsOf calls t ++ [cmd] := by
  simp [cmdsOf, List.filterMap_append]

theorem cmdsOf_append_of_ne {t u : T} (h : t ≠ u) (calls : List (T × List Word))
    (cmd : List Word) : cmdsOf (calls ++ [(t, cmd)]) u = cmdsOf calls u := by
  simp [cmdsOf, List.filterMap_append, h]

/-! ## Steps -/

/-- What a step does. -/
inductive FeedStep (s : FeedState T) : FeedLabel T → FeedState T → Prop
  | call (t : T) (cmd : List Word) (hpc : s.pc t = .outside) :
      FeedStep s (.call t cmd)
        { s.goto t (.locking cmd) with issued := s.issued ++ [(t, cmd)] }
  | lock (t : T) (cmd : List Word) (hpc : s.pc t = .locking cmd) (hfree : s.feedLock = none) :
      FeedStep s (.lock t) { s.goto t (.polling cmd 0) with feedLock := some t }
  | spin (t : T) : FeedStep s (.poll t) s
  | poll (t : T) (cmd : List Word) (i : Nat) (hpc : s.pc t = .polling cmd i)
      (hi : i < cmd.length) (hroom : s.manualFree ≠ 0) :
      FeedStep s (.poll t) (s.goto t (.writing cmd i))
  | write (t : T) (cmd : List Word) (i : Nat) (w : Word) (hpc : s.pc t = .writing cmd i)
      (hw : cmd[i]? = some w) :
      FeedStep s (.write t)
        { s.goto t (.polling cmd (i + 1)) with
          manualFree := s.manualFree - 1
          words := s.words ++ [w] }
  | unlock (t : T) (cmd : List Word) (i : Nat) (hpc : s.pc t = .polling cmd i)
      (hi : ¬ i < cmd.length) :
      FeedStep s (.unlock t)
        { s.goto t .outside with feedLock := none, fed := s.fed ++ [(t, cmd)] }
  | free (n : Nat) : FeedStep s (.free n) { s with manualFree := s.manualFree + n }

theorem FeedStep.of_step (h : s.step l = some s') : FeedStep s l s' := by
  unfold FeedState.step at h
  split at h
  · split at h
    · rename_i hpc
      cases h
      exact .call _ _ hpc
    · cases h
  · split at h
    · rename_i hpc
      split at h
      · rename_i hfree
        cases h
        exact .lock _ _ hpc hfree
      · cases h
    · cases h
  · split at h
    · rename_i hpc
      split at h
      · rename_i hi
        split at h
        · cases h
          exact .spin _
        · rename_i hroom
          cases h
          exact .poll _ _ _ hpc hi hroom
      · cases h
    · cases h
  · split at h
    · rename_i hpc
      obtain ⟨w, hw, rfl⟩ := Option.map_eq_some_iff.mp h
      exact .write _ _ _ w hpc hw
    · cases h
  · split at h
    · rename_i hpc
      split at h
      · cases h
      · rename_i hi
        cases h
        exact .unlock _ _ _ hpc hi
    · cases h
  · cases h
    exact .free _

/-- What holds in every state of every run. -/
structure FeedInv (s : FeedState T) : Prop where
  holder : ∀ t, s.feedLock = some t ↔ (s.pc t).inside = true
  bound : ∀ t cmd i, s.pc t = .polling cmd i → i ≤ cmd.length
  room : ∀ t cmd i, s.pc t = .writing cmd i → i < cmd.length ∧ 0 < s.manualFree
  words : s.words = s.fed.flatMap Prod.snd ++ s.part
  each : ∀ t, cmdsOf s.issued t = cmdsOf s.fed t ++ (s.pc t).cmd?.toList

section

variable {t : T} {b : FeedPc}

theorem FeedInv.unique (h : FeedInv s) {u : T} (ht : (s.pc t).inside = true)
    (hu : (s.pc u).inside = true) : u = t := by
  have hlock := (h.holder t).mpr ht
  rw [(h.holder u).mpr hu] at hlock
  exact Option.some.inj hlock

theorem holder_goto (h : FeedInv s) (hb : b.inside = (s.pc t).inside) :
    ∀ u, s.feedLock = some u ↔ ((s.goto t b).pc u).inside = true := by
  refine (Function.forall_update_iff s.pc fun u pc =>
    s.feedLock = some u ↔ pc.inside = true).mpr ⟨?_, fun u _ => h.holder u⟩
  rw [hb]
  exact h.holder t

theorem holder_step (h : FeedInv s) (hs : FeedStep s l s') :
    ∀ u, s'.feedLock = some u ↔ (s'.pc u).inside = true := by
  cases hs with
  | call t cmd hpc => exact holder_goto h (by rw [hpc]; rfl)
  | poll t cmd i hpc _ _ => exact holder_goto h (by rw [hpc]; rfl)
  | write t cmd i w hpc _ => exact holder_goto h (by rw [hpc]; rfl)
  | spin t => exact h.holder
  | free n => exact h.holder
  | lock t cmd hpc hfree =>
    refine (Function.forall_update_iff s.pc fun u pc =>
      some t = some u ↔ pc.inside = true).mpr ⟨iff_of_true rfl rfl, ?_⟩
    intro u hu
    rw [← h.holder u, hfree]
    exact iff_of_false (fun heq => hu (Option.some.inj heq).symm) nofun
  | unlock t cmd i hpc _ =>
    refine (Function.forall_update_iff s.pc fun u pc =>
      none = some u ↔ pc.inside = true).mpr ⟨iff_of_false nofun (by decide), ?_⟩
    intro u hu
    exact iff_of_false nofun fun hin => hu (h.unique (by rw [hpc]; rfl) hin)

/-- The indices of the words. -/
theorem bound_step (h : FeedInv s) (hs : FeedStep s l s') :
    ∀ u cmd i, s'.pc u = .polling cmd i → i ≤ cmd.length := by
  have hother : ∀ t b, (∀ cmd i, b = .polling cmd i → i ≤ cmd.length) →
      ∀ u cmd i, (s.goto t b).pc u = .polling cmd i → i ≤ cmd.length := by
    intro t b hb
    exact (Function.forall_update_iff s.pc fun _ pc =>
      ∀ cmd i, pc = .polling cmd i → i ≤ cmd.length).mpr ⟨hb, fun u _ => h.bound u⟩
  cases hs with
  | call t cmd hpc => exact hother t _ nofun
  | poll t cmd i hpc _ _ => exact hother t _ nofun
  | unlock t cmd i hpc _ => exact hother t _ nofun
  | spin t => exact h.bound
  | free n => exact h.bound
  | lock t cmd hpc _ =>
    refine hother t _ ?_
    intro cmd' i heq
    cases heq
    exact Nat.zero_le _
  | write t cmd i w hpc _ =>
    refine hother t _ ?_
    intro cmd' i' heq
    cases heq
    exact (h.room t cmd i hpc).1

/-- A thread that is about to write finds a free entry: nobody else writes, and the device
only adds to them. -/
theorem room_step (h : FeedInv s) (hs : FeedStep s l s') :
    ∀ u cmd i, s'.pc u = .writing cmd i → i < cmd.length ∧ 0 < s'.manualFree := by
  have hother : ∀ t b, (∀ cmd i, b = .writing cmd i → i < cmd.length ∧ 0 < s.manualFree) →
      ∀ u cmd i, (s.goto t b).pc u = .writing cmd i → i < cmd.length ∧ 0 < s.manualFree := by
    intro t b hb
    exact (Function.forall_update_iff s.pc fun _ pc =>
      ∀ cmd i, pc = .writing cmd i → i < cmd.length ∧ 0 < s.manualFree).mpr
        ⟨hb, fun u _ => h.room u⟩
  cases hs with
  | call t cmd hpc => exact hother t _ nofun
  | lock t cmd hpc _ => exact hother t _ nofun
  | unlock t cmd i hpc _ => exact hother t _ nofun
  | spin t => exact h.room
  | free n =>
    intro u cmd i hpc
    exact ⟨(h.room u cmd i hpc).1, Nat.lt_of_lt_of_le (h.room u cmd i hpc).2 (Nat.le_add_right ..)⟩
  | poll t cmd i hpc hi hroom =>
    refine hother t _ ?_
    intro cmd' i' heq
    cases heq
    exact ⟨hi, Nat.pos_of_ne_zero hroom⟩
  | write t cmd i w hpc _ =>
    refine (Function.forall_update_iff s.pc fun _ pc =>
      ∀ cmd i, pc = .writing cmd i → i < cmd.length ∧ 0 < s.manualFree - 1).mpr ⟨nofun, ?_⟩
    intro u hu cmd' i' hpc'
    exact absurd (h.unique (by rw [hpc]; rfl) (by rw [hpc']; rfl)) hu

theorem part_goto (hb : b.sent = (s.pc t).sent) : (s.goto t b).part = s.part := by
  unfold FeedState.part FeedState.goto
  cases s.feedLock with
  | none => rfl
  | some u =>
    by_cases hu : u = t
    · subst hu
      exact (congrArg FeedPc.sent (Function.update_self u b s.pc)).trans hb
    · exact congrArg FeedPc.sent (Function.update_of_ne hu b s.pc)

/-- What the thread with the lock has written. -/
theorem FeedInv.part_eq (h : FeedInv s) (hin : (s.pc t).inside = true) :
    s.part = (s.pc t).sent := by
  unfold FeedState.part
  rw [(h.holder t).mpr hin]

theorem words_step (h : FeedInv s) (hs : FeedStep s l s') :
    s'.words = s'.fed.flatMap Prod.snd ++ s'.part := by
  cases hs with
  | call t cmd hpc =>
    have hpart : (s.goto t (.locking cmd)).part = s.part := part_goto (by rw [hpc]; rfl)
    exact h.words.trans (congrArg _ hpart.symm)
  | poll t cmd i hpc _ _ =>
    have hpart : (s.goto t (.writing cmd i)).part = s.part := part_goto (by rw [hpc]; rfl)
    exact h.words.trans (congrArg _ hpart.symm)
  | spin t => exact h.words
  | free n => exact h.words
  | lock t cmd hpc hfree =>
    have hpart : s.part = [] := by
      unfold FeedState.part
      rw [hfree]
    have hnew : (Function.update s.pc t (.polling cmd 0) t).sent = [] := by
      rw [Function.update_self]
      rfl
    exact h.words.trans (congrArg _ (hpart.trans hnew.symm))
  | write t cmd i w hpc hw =>
    have hlock : s.feedLock = some t := (h.holder t).mpr (by rw [hpc]; rfl)
    have hpart : s.part = cmd.take i := by
      rw [h.part_eq (t := t) (by rw [hpc]; rfl), hpc]
      rfl
    have hnew : FeedState.part
        { s.goto t (.polling cmd (i + 1)) with
          manualFree := s.manualFree - 1, words := s.words ++ [w] } = cmd.take i ++ [w] := by
      change (match s.feedLock with
        | none => []
        | some u => (Function.update s.pc t (.polling cmd (i + 1)) u).sent) = _
      rw [hlock]
      change (Function.update s.pc t (.polling cmd (i + 1)) t).sent = _
      rw [Function.update_self]
      change cmd.take (i + 1) = _
      rw [List.take_add_one, hw]
      rfl
    change s.words ++ [w] = _
    rw [hnew, h.words, hpart, List.append_assoc]
    rfl
  | unlock t cmd i hpc hi =>
    have hpart : s.part = cmd := by
      rw [h.part_eq (t := t) (by rw [hpc]; rfl), hpc]
      exact List.take_of_length_le (Nat.not_lt.mp hi)
    change s.words = (s.fed ++ [(t, cmd)]).flatMap Prod.snd ++ []
    rw [List.append_nil, List.flatMap_append, h.words, hpart, List.flatMap_singleton]

/-- Every thread's calls return in the order in which it makes them. -/
theorem each_step (h : FeedInv s) (hs : FeedStep s l s') :
    ∀ u, cmdsOf s'.issued u = cmdsOf s'.fed u ++ (s'.pc u).cmd?.toList := by
  have hsame : ∀ t b, b.cmd? = (s.pc t).cmd? →
      ∀ u, cmdsOf s.issued u = cmdsOf s.fed u ++ ((s.goto t b).pc u).cmd?.toList := by
    intro t b hb
    refine (Function.forall_update_iff s.pc fun u pc =>
      cmdsOf s.issued u = cmdsOf s.fed u ++ pc.cmd?.toList).mpr ⟨?_, fun u _ => h.each u⟩
    rw [hb]
    exact h.each t
  cases hs with
  | lock t cmd hpc _ => exact hsame t _ (by rw [hpc]; rfl)
  | poll t cmd i hpc _ _ => exact hsame t _ (by rw [hpc]; rfl)
  | write t cmd i w hpc _ => exact hsame t _ (by rw [hpc]; rfl)
  | spin t => exact h.each
  | free n => exact h.each
  | call t cmd hpc =>
    refine (Function.forall_update_iff s.pc fun u pc =>
      cmdsOf (s.issued ++ [(t, cmd)]) u = cmdsOf s.fed u ++ pc.cmd?.toList).mpr ⟨?_, ?_⟩
    · have hnone := h.each t
      rw [hpc] at hnone
      rw [cmdsOf_append_self, hnone]
      exact congrArg (· ++ [cmd]) (List.append_nil _)
    · intro u hu
      rw [cmdsOf_append_of_ne (Ne.symm hu)]
      exact h.each u
  | unlock t cmd i hpc _ =>
    refine (Function.forall_update_iff s.pc fun u pc =>
      cmdsOf s.issued u = cmdsOf (s.fed ++ [(t, cmd)]) u ++ pc.cmd?.toList).mpr ⟨?_, ?_⟩
    · have hcmd := h.each t
      rw [hpc] at hcmd
      rw [cmdsOf_append_self, hcmd]
      exact (List.append_nil _).symm
    · intro u hu
      rw [cmdsOf_append_of_ne (Ne.symm hu)]
      exact h.each u

end

theorem feedInv_reachable (h : (feedSystem T n).Reachable s) : FeedInv s := by
  refine Machine.Reachable.invariant (I := FeedInv) ?_ ?_ h
  · exact ⟨fun _ => iff_of_false nofun nofun, fun _ _ _ => nofun, fun _ _ _ => nofun, rfl,
      fun _ => rfl⟩
  · intro s l s' hi hs
    have hs' := FeedStep.of_step hs
    exact ⟨holder_step hi hs', bound_step hi hs', room_step hi hs', words_step hi hs',
      each_step hi hs'⟩

/-! ## Every call returns -/

/-- A run in which only thread `t` moves, and the device, leads from `s` to `s'`. -/
def FeedRun (n : Nat) (t : T) (s s' : FeedState T) : Prop :=
  (∃ ls, (feedSystem T n).exec s ls = some s') ∧ s'.issued = s.issued ∧
    ∀ u ≠ t, s'.pc u = s.pc u

theorem FeedRun.trans {t : T} {s₁ s₂ s₃ : FeedState T} (h : FeedRun n t s₁ s₂)
    (h' : FeedRun n t s₂ s₃) : FeedRun n t s₁ s₃ := by
  obtain ⟨⟨ls, hls⟩, hissued, hpc⟩ := h
  obtain ⟨⟨ls', hls'⟩, hissued', hpc'⟩ := h'
  refine ⟨⟨ls ++ ls', ?_⟩, hissued'.trans hissued, fun u hu => (hpc' u hu).trans (hpc u hu)⟩
  rw [Machine.exec_append, hls]
  exact hls'

theorem FeedRun.of_step {t : T} (hs : s.step l = some s') (hissued : s'.issued = s.issued)
    (hpc : ∀ u ≠ t, s'.pc u = s.pc u) : FeedRun n t s s' :=
  ⟨⟨[l], Machine.exec_cons_some.mpr ⟨s', hs, rfl⟩⟩, hissued, hpc⟩

theorem write_run (n : Nat) {t : T} {cmd : List Word} {i : Nat} (hpc : s.pc t = .writing cmd i)
    (hi : i < cmd.length) : ∃ s', FeedRun n t s s' ∧ s'.pc t = .polling cmd (i + 1) := by
  have hstep : s.step (.write t) = some { s.goto t (.polling cmd (i + 1)) with
      manualFree := s.manualFree - 1, words := s.words ++ [cmd[i]] } := by
    simp only [FeedState.step, hpc, List.getElem?_eq_getElem hi, Option.map_some]
  exact ⟨_, .of_step hstep rfl fun u hu => Function.update_of_ne hu _ _,
    Function.update_self t _ s.pc⟩

/-- A thread at the head of the loop writes the rest of its command, if the device frees
entries; the induction is on the number of words. -/
theorem polling_run (n k : Nat) {t : T} {cmd : List Word} {i : Nat}
    (hpc : s.pc t = .polling cmd i) (hk : cmd.length - i = k) :
    ∃ s', FeedRun n t s s' ∧ s'.pc t = .outside ∧ s'.feedLock = none := by
  induction k generalizing s i with
  | zero =>
    have hstep : s.step (.unlock t) = some { s.goto t .outside with
        feedLock := none, fed := s.fed ++ [(t, cmd)] } := by
      have hi : ¬ i < cmd.length := by omega
      simp only [FeedState.step, hpc, if_neg hi]
    exact ⟨_, .of_step hstep rfl fun u hu => Function.update_of_ne hu _ _,
      Function.update_self t _ s.pc, rfl⟩
  | succ k ih =>
    have hi : i < cmd.length := by omega
    have hfree : FeedRun n t s { s with manualFree := s.manualFree + 1 } :=
      .of_step (l := .free 1) rfl rfl fun _ _ => rfl
    have hpoll : FeedRun n t { s with manualFree := s.manualFree + 1 }
        (({ s with manualFree := s.manualFree + 1 } : FeedState T).goto t (.writing cmd i)) := by
      refine .of_step (l := .poll t) ?_ rfl fun u hu => Function.update_of_ne hu _ _
      simp only [FeedState.step, hpc, if_pos hi, Nat.add_one_ne_zero, if_false]
    have hpc₀ : (({ s with manualFree := s.manualFree + 1 } : FeedState T).goto t
        (.writing cmd i)).pc t = .writing cmd i := Function.update_self t _ s.pc
    obtain ⟨s₁, hwrite, hpc₁⟩ := write_run n hpc₀ hi
    obtain ⟨s₂, hrest, hout⟩ := ih hpc₁ (by omega)
    exact ⟨s₂, hfree.trans (hpoll.trans (hwrite.trans hrest)), hout⟩

/-- The thread with the lock comes to its end. -/
theorem inside_run (n : Nat) (h : FeedInv s) {t : T} (hin : (s.pc t).inside = true) :
    ∃ s', FeedRun n t s s' ∧ s'.pc t = .outside ∧ s'.feedLock = none := by
  cases hpc : s.pc t with
  | outside =>
    rw [hpc] at hin
    cases hin
  | locking cmd =>
    rw [hpc] at hin
    cases hin
  | polling cmd i => exact polling_run n _ hpc rfl
  | writing cmd i =>
    obtain ⟨s₁, hwrite, hpc₁⟩ := write_run n hpc (h.room t cmd i hpc).1
    obtain ⟨s₂, hrest, hout⟩ := polling_run n _ hpc₁ rfl
    exact ⟨s₂, hwrite.trans hrest, hout⟩

/-- A thread that finds the lock free comes to its end. -/
theorem locking_run (n : Nat) {t : T} {cmd : List Word} (hpc : s.pc t = .locking cmd)
    (hfree : s.feedLock = none) : ∃ s', FeedRun n t s s' ∧ s'.pc t = .outside := by
  have hlock : FeedRun n t s { s.goto t (.polling cmd 0) with feedLock := some t } := by
    refine .of_step (l := .lock t) ?_ rfl fun u hu => Function.update_of_ne hu _ _
    simp only [FeedState.step, hpc, hfree, if_true]
  have hpc' : ({ s.goto t (.polling cmd 0) with feedLock := some t } : FeedState T).pc t =
      .polling cmd 0 := Function.update_self t _ s.pc
  obtain ⟨s', hrest, hout, -⟩ := polling_run n _ hpc' rfl
  exact ⟨s', hlock.trans hrest, hout⟩

/-- From every state the call of a thread can still return, without any new call. -/
theorem call_returns (n : Nat) (h : FeedInv s) (t : T) :
    ∃ ls s', (feedSystem T n).exec s ls = some s' ∧ s'.pc t = .outside ∧
      s'.issued = s.issued := by
  by_cases hin : (s.pc t).inside = true
  · obtain ⟨s', ⟨⟨ls, hls⟩, hissued, -⟩, hout, -⟩ := inside_run n h hin
    exact ⟨ls, s', hls, hout, hissued⟩
  cases hpc : s.pc t with
  | outside => exact ⟨[], s, rfl, hpc, rfl⟩
  | polling cmd i => exact absurd (by rw [hpc]; rfl) hin
  | writing cmd i => exact absurd (by rw [hpc]; rfl) hin
  | locking cmd =>
    cases hlock : s.feedLock with
    | none =>
      obtain ⟨s', ⟨⟨ls, hls⟩, hissued, -⟩, hout⟩ := locking_run n hpc hlock
      exact ⟨ls, s', hls, hout, hissued⟩
    | some u =>
      -- first the thread with the lock, then this one
      have hu := (h.holder u).mp hlock
      have hne : t ≠ u := by
        rintro rfl
        exact hin hu
      obtain ⟨s₁, ⟨⟨ls, hls⟩, hissued, hpcs⟩, -, hfree⟩ := inside_run n h hu
      obtain ⟨s₂, ⟨⟨ls', hls'⟩, hissued', -⟩, hout⟩ :=
        locking_run n ((hpcs t hne).trans hpc) hfree
      refine ⟨ls ++ ls', s₂, ?_, hout, hissued'.trans hissued⟩
      rw [Machine.exec_append, hls]
      exact hls'

/-! ## Commands reach the device whole -/

/-- The stream of words is made of the commands that were fed, in the order in which their
calls returned, and the words that the thread with the lock has written of its own. A thread's
calls return in the order in which it made them, each once, and the one that has not returned
yet still can. A word is written only while an entry is free. -/
structure CommandsWhole (n : Nat) (s : FeedState T) : Prop where
  words : s.words = s.fed.flatMap Prod.snd ++ s.part
  whole : s.feedLock = none → s.part = []
  part : ∀ t, s.feedLock = some t → ∃ cmd k, (s.pc t).cmd? = some cmd ∧ s.part = cmd.take k
  each : ∀ t, cmdsOf s.issued t = cmdsOf s.fed t ++ (s.pc t).cmd?.toList
  returns : ∀ t, ∃ ls s', (feedSystem T n).exec s ls = some s' ∧ s'.pc t = .outside ∧
    s'.issued = s.issued
  room : ∀ t s', s.step (.write t) = some s' → 0 < s.manualFree

theorem commands_whole {T : Type} [DecidableEq T] {n : Nat} {s : FeedState T}
    (h : (feedSystem T n).Reachable s) : CommandsWhole n s := by
  have hi := feedInv_reachable h
  refine ⟨hi.words, ?_, ?_, hi.each, call_returns n hi, ?_⟩
  · intro hfree
    unfold FeedState.part
    rw [hfree]
  · intro t hlock
    have hin := (hi.holder t).mp hlock
    rw [hi.part_eq hin]
    cases hpc : s.pc t with
    | outside =>
      rw [hpc] at hin
      cases hin
    | locking cmd =>
      rw [hpc] at hin
      cases hin
    | polling cmd i => exact ⟨cmd, i, rfl, rfl⟩
    | writing cmd i => exact ⟨cmd, i, rfl, rfl⟩
  · intro t s' hs
    cases FeedStep.of_step hs with
    | write _ cmd i w hpc _ => exact (hi.room t cmd i hpc).2

/-- Two threads: the second calls while the first is between its two words and the queue is
full. -/
def twoThreads : List (FeedLabel Bool) :=
  [.call true [0x12, 0x20], .lock true, .poll true, .write true, .call false [0x5], .poll true,
    .free 2, .poll true, .write true, .unlock true, .lock false, .poll false, .write false,
    .unlock false]

theorem commands_whole_twoThreads :
    ∃ s, (feedSystem Bool 1).exec (feedSystem Bool 1).init twoThreads = some s ∧
      s.words = [0x12, 0x20, 0x5] ∧ CommandsWhole 1 s := by
  have hwords : ((feedSystem Bool 1).exec (feedSystem Bool 1).init twoThreads).map
      FeedState.words = some [0x12, 0x20, 0x5] := by decide
  obtain ⟨s, hs, hw⟩ := Option.map_eq_some_iff.mp hwords
  exact ⟨s, hs, hw, commands_whole (Machine.Reachable.init.exec hs)⟩

theorem stream_feedCmd (st : State) (words : List Word) (origin : Origin) :
    (st.feedCmd words origin).stream = st.stream ++ [⟨words, origin⟩] :=
  List.filterMap_append

/-- The atomic feed of the model gives the device the words that `feed_cmd` writes. -/
theorem feedCmd_words (h : (feedSystem T n).Reachable s) (hlock : s.feedLock = none)
    (origin : T × List Word → Origin) (st : State) :
    (s.fed.foldl (fun st p => st.feedCmd p.2 (origin p)) st).stream.flatMap Fed.words =
      st.stream.flatMap Fed.words ++ s.words := by
  have hi := feedInv_reachable h
  have hpart : s.part = [] := by
    unfold FeedState.part
    rw [hlock]
  rw [hi.words, hpart, List.append_nil]
  induction s.fed generalizing st with
  | nil => exact (List.append_nil _).symm
  | cons p fed ih =>
    rw [List.foldl_cons, ih, stream_feedCmd, List.flatMap_append, List.flatMap_singleton,
      List.append_assoc, List.flatMap_cons]

end Dicedev
