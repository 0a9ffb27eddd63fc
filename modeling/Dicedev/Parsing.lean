import Dicedev.Iterator
import Dicedev.Views

/-!
# The loop of `__wt_run_task`

`Loop.after n` is the loop after `n` passes, with the number of words it has asked for and the
commands it has fed. Between two passes the contents of a mapped command buffer may change, so
every pass has contents of its own.

A `GET_DIE` has two words, and the loop tests `bytes_left < 4` before it asks for the second
one. At that point `bytes_left` still counts the first, so the test never fires: when the last
word of a task is the header of a `GET_DIE`, the loop reads the word behind the task and
`bytes_left` wraps. `parsing_bounded_iff` says that there is no other way out of the range.
-/

namespace Dicedev

/-- How the loop stands. -/
inductive LoopStatus
  | looping
  | returned
  | failed
  | bug (b : Bug)
  deriving DecidableEq, Repr

/-- The locals of `__wt_run_task`; `asked` counts the calls of `dicedev_task_get_next_word`
and `fed` collects the commands that were fed. -/
structure Loop where
  task : Task
  bytesLeft : Nat
  asked : Nat
  fed : List (List Word)
  status : LoopStatus

/-- The calls of `dicedev_task_get_next_word` in one pass. -/
def passReads (mem : BufId → Nat → Nat → Word) (t : Task) (bytesLeft : Nat) : Nat :=
  match taskGetNextWord mem t with
  | .error _ => 1
  | .ok (cmd0, _) =>
    if cmd0 &&& cmdTypeMask = userCmdTypeGetDie ∧ ¬ bytesLeft < 4 then 2 else 1

/-- The effect on the loop of a pass that asked for `k` words. -/
def Loop.effect (p : Loop) (k : Nat) : Task × Pass → Loop
  | (t, .skip left) => { p with task := t, bytesLeft := left, asked := p.asked + k }
  | (t, .fed words _ left) =>
    { p with task := t, bytesLeft := left, asked := p.asked + k, fed := p.fed ++ [words] }
  | (t, .reject) => { p with task := t, asked := p.asked + k, status := .failed }

/-- One pass of the loop. -/
def Loop.pass (mem : BufId → Nat → Nat → Word) (allowed : Word) (slot : Option Slot) (p : Loop) :
    Loop :=
  if p.status = .looping then
    if p.bytesLeft = 0 then { p with status := .returned }
    else
      match runTaskPass mem allowed slot p.task p.bytesLeft with
      | .error b =>
        { p with asked := p.asked + passReads mem p.task p.bytesLeft, status := .bug b }
      | .ok r => p.effect (passReads mem p.task p.bytesLeft) r
  else p

/-- The loop before its first pass. -/
def Loop.start (t : Task) : Loop := ⟨taskInitIt t, taskBytes t, 0, [], .looping⟩

/-- The loop after `n` passes; `mem n` is what pass `n` finds in the command buffers and
`slot n` the slot of the output buffer. -/
def Loop.after (mem : Nat → BufId → Nat → Nat → Word) (allowed : Word)
    (slot : Nat → Option Slot) (t : Task) : Nat → Loop
  | 0 => Loop.start t
  | n + 1 => (Loop.after mem allowed slot t n).pass (mem n) allowed (slot n)

/-- The loop keeps to the submitted words of `t`: it ends, it never asks for more words than
there are, `bytes_left` never wraps, and a `GET_DIE` header that is the last word fails the
context with nothing more read or fed. -/
structure ParsingBounded (mem : Nat → BufId → Nat → Nat → Word) (t : Task) (run : Nat → Loop) :
    Prop where
  ends : ∃ n, (run n).status = .returned ∨ (run n).status = .failed
  asked_le : ∀ n, (run n).asked ≤ taskBytes t / 4
  no_wrap : ∀ n, (run (n + 1)).bytesLeft ≤ (run n).bytesLeft
  last_header : ∀ n, (run n).status = .looping → (run n).asked + 1 = taskBytes t / 4 →
    t.word (mem n) (run n).asked &&& cmdTypeMask = userCmdTypeGetDie →
      (run (n + 1)).status = .failed ∧ (run (n + 1)).asked = taskBytes t / 4 ∧
      (run (n + 1)).fed = (run n).fed

/-- Parsing comes to a `GET_DIE` header with no word behind it. There are `left` words, the
first of them is word `i` of the task and read by pass `n`; `word n i` is word `i` as pass `n`
reads it. -/
def cutHeader (allowed : Word) (word : Nat → Nat → Word) : (left n i : Nat) → Bool
  | 0, _, _ => false
  | left + 1, n, i =>
    if word n i &&& cmdTypeMask = userCmdTypeNop then cutHeader allowed word left (n + 1) (i + 1)
    else if word n i &&& cmdTypeMask = userCmdTypeGetDie then
      match left with
      | 0 => true
      | left + 1 =>
        if word n i &&& getDieSlotMask ≠ 0 ∨ word n (i + 1) &&& ~~~allowed ≠ 0 then false
        else cutHeader allowed word left (n + 1) (i + 2)
    else if word n i &&& cmdTypeMask = userCmdTypeNewSet then
      if word n i &&& newSetSlotMask ≠ 0 then false
      else cutHeader allowed word left (n + 1) (i + 1)
    else false

/-- The task that `dicedev_buffer_write` queues. -/
def writeTask (c : CtxId) (b : BufId) (cmd : Nat → Word) (count : Nat) : Task :=
  ⟨c, 0, b, .write ⟨cmd, count, 0⟩, false⟩

/-- The tasks that `write` and an accepted RUN queue; the size of a write is a `size_t`. -/
inductive Submitted : Task → Prop
  | write (c : CtxId) (b : BufId) (cmd : Nat → Word) (count : BitVec 64)
      (h : count.toNat % 4 = 0) : Submitted (writeTask c b cmd count.toNat)
  | run (s : State) (c : CtxId) (cb db : BufId) (addr size : Word)
      (h : s.ioctlRunCheck c cb db addr.toNat size.toNat = none) :
      Submitted (runTask c cb db addr.toNat size.toNat)

/-! ## One pass -/

/-- The loop has `left` words of `t` before it, out of `i + left`. -/
structure Loop.At (t : Task) (left i : Nat) (p : Loop) : Prop where
  looping : p.status = .looping
  task : t.At i p.task
  bytes : p.bytesLeft = 4 * left
  asked : p.asked = i

/-- The task has whole words, no more bytes than a `size_t` counts, and its iterator gives
these words and one more. -/
structure Task.Words (t : Task) (count : Nat) : Prop where
  bytes : taskBytes t = 4 * count
  lt : 4 * count < 2 ^ 64
  passes : 0 < count → ∀ j ≤ count, t.Passes j

variable {mem : Nat → BufId → Nat → Nat → Word} {allowed : Word} {slot : Nat → Option Slot}
  {t t' : Task} {p : Loop} {count left i n : Nat}

theorem sizeSub_words {k : Nat} (hlt : 4 * (left + k) < 2 ^ 64) :
    sizeSub (4 * (left + k)) (4 * k) = 4 * left := by
  unfold sizeSub
  omega

section

variable {m : BufId → Nat → Nat → Word} {slot' : Option Slot}

theorem effect_asked (p : Loop) (k : Nat) (r : Task × Pass) :
    (p.effect k r).asked = p.asked + k := by
  obtain ⟨task, out⟩ := r
  cases out <;> rfl

theorem getDiePass_reject {w w' : Word} {k : Nat}
    (h : w &&& getDieSlotMask ≠ 0 ∨ w' &&& ~~~allowed ≠ 0) :
    getDiePass allowed slot' w w' t k = (t, .reject) := by
  unfold getDiePass
  split
  · rfl
  · rename_i hslot
    rw [if_pos (h.resolve_left hslot)]

theorem passReads_one {w : Word} (hget : taskGetNextWord m t = .ok (w, t'))
    (hw : w &&& cmdTypeMask ≠ userCmdTypeGetDie) (left : Nat) : passReads m t left = 1 := by
  unfold passReads
  rw [hget]
  exact if_neg fun h => hw h.1

theorem passReads_two {w : Word} (hget : taskGetNextWord m t = .ok (w, t'))
    (hw : w &&& cmdTypeMask = userCmdTypeGetDie) (hleft : ¬ left < 4) :
    passReads m t left = 2 := by
  unfold passReads
  rw [hget]
  exact if_pos ⟨hw, hleft⟩

theorem pass_eq (hloop : p.status = .looping) (hleft : p.bytesLeft ≠ 0) {r : Task × Pass}
    (hrun : runTaskPass m allowed slot' p.task p.bytesLeft = .ok r) {k : Nat}
    (hreads : passReads m p.task p.bytesLeft = k) : p.pass m allowed slot' = p.effect k r := by
  unfold Loop.pass
  rw [if_pos hloop, if_neg hleft, hrun, hreads]

end

/-- A command of one word, or one that is rejected. -/
theorem cutHeader_of_ne {word : Nat → Nat → Word}
    (h : word n i &&& cmdTypeMask ≠ userCmdTypeGetDie) :
    cutHeader allowed word (left + 1) n i =
      if word n i &&& cmdTypeMask = userCmdTypeNop then
        cutHeader allowed word left (n + 1) (i + 1)
      else if word n i &&& cmdTypeMask = userCmdTypeNewSet then
        if word n i &&& newSetSlotMask ≠ 0 then false
        else cutHeader allowed word left (n + 1) (i + 1)
      else false := by
  cases left <;> simp only [cutHeader, if_neg h]

/-- What a pass does that turns `p` into `q` and starts before word `i`, with `left` words
behind it: it fails the context, it goes on to a later word, or it reads past the end. -/
inductive PassOutcome (t : Task) (count : Nat) (cut : Nat → Nat → Nat → Bool)
    (left n i : Nat) (p q : Loop) : Prop
  | failed (status : q.status = .failed) (asked : q.asked ≤ count)
      (bytes : q.bytesLeft = p.bytesLeft) (hcut : cut (left + 1) n i = false)
  | next (k j : Nat) (hk : k ≤ left) (hj : j + k = count) (hat : q.At t k j)
      (hcut : cut (left + 1) n i = cut k (n + 1) j)
  | over (hleft : left = 0) (asked : count < q.asked) (hcut : cut (left + 1) n i = true)

section

variable (ht : t.Words count) (hi : i + (left + 1) = count) (hp : p.At t (left + 1) i)
  (mem : Nat → BufId → Nat → Nat → Word) (allowed : Word) (slot : Option Slot) (n : Nat)

include ht hi hp

/-- The bytes behind a command of one word. -/
theorem bytesLeft_next : sizeSub p.bytesLeft 4 = 4 * left := by
  have hlt := ht.lt
  rw [hp.bytes]
  exact sizeSub_words (k := 1) (by omega)

theorem pass_nop (h : t.word (mem n) i &&& cmdTypeMask = userCmdTypeNop) :
    PassOutcome t count (cutHeader allowed fun n => t.word (mem n)) left n i p
      (p.pass (mem n) allowed slot) := by
  have hsub := bytesLeft_next ht hi hp
  obtain ⟨hloop, htask, hbytes, hasked⟩ := hp
  obtain ⟨t₁, hget, hat⟩ :=
    get_at (mem n) htask (ht.passes (by omega) i (by omega))
  have hrun : runTaskPass (mem n) allowed slot p.task p.bytesLeft =
      .ok (t₁, .skip (4 * left)) := by
    rw [runTaskPass_nop hget h, hsub]
  have hne : t.word (mem n) i &&& cmdTypeMask ≠ userCmdTypeGetDie := by
    rw [h]
    decide
  rw [pass_eq hloop (by omega) hrun (passReads_one hget hne _)]
  refine .next left (i + 1) (Nat.le_refl left) (by omega) ?_ ?_
  · exact ⟨hloop, hat, rfl, congrArg (· + 1) hasked⟩
  · rw [cutHeader_of_ne hne, if_pos h]

theorem pass_newSet (h : t.word (mem n) i &&& cmdTypeMask = userCmdTypeNewSet) :
    PassOutcome t count (cutHeader allowed fun n => t.word (mem n)) left n i p
      (p.pass (mem n) allowed slot) := by
  have hsub := bytesLeft_next ht hi hp
  obtain ⟨hloop, htask, hbytes, hasked⟩ := hp
  obtain ⟨t₁, hget, hat⟩ :=
    get_at (mem n) htask (ht.passes (by omega) i (by omega))
  have hnop : t.word (mem n) i &&& cmdTypeMask ≠ userCmdTypeNop := by
    rw [h]
    decide
  have hdie : t.word (mem n) i &&& cmdTypeMask ≠ userCmdTypeGetDie := by
    rw [h]
    decide
  have hrun : runTaskPass (mem n) allowed slot p.task p.bytesLeft =
      .ok (newSetPass slot (t.word (mem n) i) t₁ p.bytesLeft) := runTaskPass_newSet hget h
  rw [pass_eq hloop (by omega) hrun (passReads_one hget hdie _), newSetPass, hsub]
  by_cases hbad : t.word (mem n) i &&& newSetSlotMask ≠ 0
  · rw [if_pos hbad]
    refine .failed rfl ?_ rfl ?_
    · change p.asked + 1 ≤ count
      omega
    · rw [cutHeader_of_ne hdie, if_neg hnop, if_pos h, if_pos hbad]
  · rw [if_neg hbad]
    refine .next left (i + 1) (Nat.le_refl left) (by omega) ?_ ?_
    · exact ⟨hloop, hat, rfl, congrArg (· + 1) hasked⟩
    · rw [cutHeader_of_ne hdie, if_neg hnop, if_pos h, if_neg hbad]

theorem pass_getDie (h : t.word (mem n) i &&& cmdTypeMask = userCmdTypeGetDie) :
    PassOutcome t count (cutHeader allowed fun n => t.word (mem n)) left n i p
      (p.pass (mem n) allowed slot) := by
  obtain ⟨hloop, htask, hbytes, hasked⟩ := hp
  have hlt := ht.lt
  have hfour : ¬ p.bytesLeft < 4 := by omega
  obtain ⟨t₁, hget, hat⟩ :=
    get_at (mem n) htask (ht.passes (by omega) i (by omega))
  obtain ⟨t₂, hget', hat'⟩ :=
    get_at (mem n) hat (ht.passes (by omega) (i + 1) (by omega))
  have hnop : t.word (mem n) i &&& cmdTypeMask ≠ userCmdTypeNop := by
    rw [h]
    decide
  have hrun : runTaskPass (mem n) allowed slot p.task p.bytesLeft =
      .ok (getDiePass allowed slot (t.word (mem n) i) (t.word (mem n) (i + 1)) t₂
        p.bytesLeft) := runTaskPass_getDie hget h hfour hget'
  rw [pass_eq hloop (by omega) hrun (passReads_two hget h hfour)]
  rcases left with - | left
  · -- the header is the last word, and two words have been asked for
    refine .over rfl ?_ ?_
    · rw [effect_asked]
      omega
    · rw [cutHeader, if_neg hnop, if_pos h]
  · by_cases hbad : t.word (mem n) i &&& getDieSlotMask ≠ 0 ∨
        t.word (mem n) (i + 1) &&& ~~~allowed ≠ 0
    · rw [getDiePass_reject hbad]
      refine .failed rfl ?_ rfl ?_
      · change p.asked + 2 ≤ count
        omega
      · rw [cutHeader, if_neg hnop, if_pos h]
        exact if_pos hbad
    · obtain ⟨hslot, hmask⟩ := not_or.mp hbad
      have hsub : sizeSub p.bytesLeft 8 = 4 * left := by
        rw [hbytes]
        exact sizeSub_words (k := 2) (by omega)
      rw [getDiePass, if_neg hslot, if_neg hmask, hsub]
      refine .next left (i + 2) (Nat.le_succ left) (by omega) ?_ ?_
      · exact ⟨hloop, hat'.of_body rfl, rfl, congrArg (· + 2) hasked⟩
      · rw [cutHeader, if_neg hnop, if_pos h]
        exact if_neg hbad

/-- One pass over the words of a task. -/
theorem pass_outcome :
    PassOutcome t count (cutHeader allowed fun n => t.word (mem n)) left n i p
      (p.pass (mem n) allowed slot) := by
  by_cases hnop : t.word (mem n) i &&& cmdTypeMask = userCmdTypeNop
  · exact pass_nop ht hi hp mem allowed slot n hnop
  by_cases hdie : t.word (mem n) i &&& cmdTypeMask = userCmdTypeGetDie
  · exact pass_getDie ht hi hp mem allowed slot n hdie
  by_cases hset : t.word (mem n) i &&& cmdTypeMask = userCmdTypeNewSet
  · exact pass_newSet ht hi hp mem allowed slot n hset
  -- an unknown command is rejected
  obtain ⟨hloop, htask, hbytes, hasked⟩ := hp
  obtain ⟨t₁, hget, hat⟩ :=
    get_at (mem n) htask (ht.passes (by omega) i (by omega))
  have hrun : runTaskPass (mem n) allowed slot p.task p.bytesLeft = .ok (t₁, .reject) :=
    runTaskPass_unknown hget hnop hdie hset
  rw [pass_eq hloop (by omega) hrun (passReads_one hget hdie _)]
  refine .failed rfl ?_ rfl ?_
  · change p.asked + 1 ≤ count
    omega
  · rw [cutHeader_of_ne hdie, if_neg hnop, if_neg hset]

end

/-- The loop has been left in one of the two ways the source has. -/
def Loop.Ended (p : Loop) : Prop := p.status = .returned ∨ p.status = .failed

/-- A pass of the worker over its running task is a pass of the loop. -/
theorem wtRunTask_pass {s s' : State} {id : TaskId} (hrun : s.runningTask = some id)
    (hloop : p.status = .looping) (htask : p.task = s.tasks id)
    (h : s.wtRunTask p.bytesLeft = .ok s') :
    let out := s.bufs (s.tasks id).buffOut
    let q := p.pass (fun b => (s.bufs b).page) out.allowed out.bindedSlot
    (∃ fed, q.fed = p.fed ++ fed ∧
      s'.stream.map Fed.words = s.stream.map Fed.words ++ fed) ∧
    ((q.status = .looping ∧ s'.pc = .running q.bytesLeft ∧ s'.tasks id = q.task) ∨
      (q.Ended ∧ s'.pc = .fencing)) := by
  intro out q
  unfold State.wtRunTask at h
  simp only [hrun] at h
  split at h
  · rename_i hzero
    have hq : q = { p with status := .returned } := by
      change p.pass _ _ _ = _
      rw [Loop.pass, if_pos hloop, if_pos hzero]
    cases h
    rw [hq]
    exact ⟨⟨[], (List.append_nil _).symm, (List.append_nil _).symm⟩, Or.inr ⟨Or.inl rfl, rfl⟩⟩
  · rename_i hpos
    obtain ⟨r, hpass, hs'⟩ : ∃ r, runTaskPass (fun b => (s.bufs b).page) out.allowed
        out.bindedSlot p.task p.bytesLeft = .ok r ∧ s' = s.wtRunTaskPass id r := by
      simp only [bind, Except.bind] at h
      rw [htask]
      split at h
      · cases h
      · rename_i r hr
        exact ⟨r, hr, (Except.ok.inj h).symm⟩
    have hq : q = p.effect _ r := pass_eq hloop hpos hpass rfl
    rw [hq, hs']
    obtain ⟨task, step⟩ := r
    have htask' : Function.update s.tasks id task id = task := Function.update_self id task s.tasks
    cases step with
    | skip left =>
      exact ⟨⟨[], (List.append_nil _).symm, (List.append_nil _).symm⟩,
        Or.inl ⟨hloop, rfl, htask'⟩⟩
    | fed words user left =>
      refine ⟨⟨[words], rfl, ?_⟩, Or.inl ⟨hloop, rfl, htask'⟩⟩
      exact (congrArg (List.map Fed.words) (filterMap_log_some rfl)).trans List.map_append
    | reject =>
      refine ⟨⟨[], (List.append_nil _).symm, ?_⟩, Or.inr ⟨Or.inr rfl, rfl⟩⟩
      rw [List.append_nil]
      exact congrArg (List.map Fed.words) (filterMap_log_none rfl)

/-! ## The whole loop -/

theorem pass_at_end (hp : p.At t 0 i) (m : BufId → Nat → Nat → Word) (allowed : Word)
    (slot : Option Slot) :
    p.pass m allowed slot = { p with status := .returned } := by
  unfold Loop.pass
  rw [if_pos hp.looping, if_pos hp.bytes]

theorem Loop.Ended.pass_eq (hp : p.Ended) (m : BufId → Nat → Nat → Word)
    (slot : Option Slot) : p.pass m allowed slot = p := by
  unfold Loop.pass
  refine if_neg fun hloop => ?_
  rcases hp with h | h <;> cases h.symm.trans hloop

theorem at_start (ht : t.Words count) : (Loop.start t).At t count 0 :=
  ⟨rfl, at_init t, ht.bytes, rfl⟩

/-- From any word on, the loop comes to its end, or past the last word; the induction is on
the number of words left. -/
theorem after_reaches (ht : t.Words count) (hi : i + left = count)
    (hp : (Loop.after mem allowed slot t n).At t left i) :
    (cutHeader allowed (fun n => t.word (mem n)) left n i = false ∧
      ∃ m, (Loop.after mem allowed slot t m).Ended) ∨
    (cutHeader allowed (fun n => t.word (mem n)) left n i = true ∧
      ∃ m, count < (Loop.after mem allowed slot t m).asked) := by
  induction left using Nat.strongRecOn generalizing n i with
  | ind left ih =>
    rcases left with - | left
    · have hend := pass_at_end hp (mem n) allowed (slot n)
      refine Or.inl ⟨by rw [cutHeader], n + 1, ?_⟩
      unfold Loop.after
      rw [hend]
      exact Or.inl rfl
    · rcases pass_outcome ht hi hp mem allowed (slot n) n with
        ⟨hfail, -, -, hcut⟩ | ⟨k, j, hk, hj, hat, hcut⟩ | ⟨-, hover, hcut⟩
      · exact Or.inl ⟨hcut, n + 1, Or.inr hfail⟩
      · rw [hcut]
        exact ih k (Nat.lt_succ_of_le hk) hj hat
      · exact Or.inr ⟨hcut, n + 1, hover⟩

/-- Where a loop is that does not come to a cut header. -/
inductive Loop.Within (t : Task) (count : Nat) (cut : Nat → Nat → Nat → Bool) (n : Nat)
    (p : Loop) : Prop
  | before (left i : Nat) (hi : i + left = count) (hat : p.At t left i)
      (hcut : cut left n i = false)
  | ended (h : p.Ended) (asked : p.asked ≤ count)

theorem Loop.Within.asked_le {cut : Nat → Nat → Nat → Bool} (h : p.Within t count cut n) :
    p.asked ≤ count := by
  cases h with
  | before left i hi hat _ => rw [hat.asked, ← hi]; exact Nat.le_add_right i left
  | ended _ hasked => exact hasked

theorem Loop.Within.pass (ht : t.Words count) {slot : Option Slot}
    (h : p.Within t count (cutHeader allowed fun n => t.word (mem n)) n) :
    (p.pass (mem n) allowed slot).Within t count (cutHeader allowed fun n => t.word (mem n))
      (n + 1) ∧ (p.pass (mem n) allowed slot).bytesLeft ≤ p.bytesLeft := by
  cases h with
  | before left i hi hat hcut =>
    rcases left with - | left
    · rw [pass_at_end hat]
      refine ⟨.ended (Or.inl rfl) ?_, Nat.le_refl _⟩
      exact Nat.le_of_eq (hat.asked.trans hi)
    · rcases pass_outcome ht hi hat mem allowed slot n with
        ⟨hfail, hasked, hbytes, -⟩ | ⟨k, j, hk, hj, hat', hcut'⟩ | ⟨-, -, hcut'⟩
      · exact ⟨.ended (Or.inr hfail) hasked, Nat.le_of_eq hbytes⟩
      · refine ⟨.before k j hj hat' (hcut'.symm.trans hcut), ?_⟩
        rw [hat'.bytes, hat.bytes]
        omega
      · cases hcut.symm.trans hcut'
  | ended hend hasked =>
    rw [hend.pass_eq]
    exact ⟨.ended hend hasked, Nat.le_refl _⟩

/-- No pass of the loop reads past the end if no header is cut. -/
theorem after_within (slot : Nat → Option Slot) (ht : t.Words count)
    (h : cutHeader allowed (fun n => t.word (mem n)) count 0 0 = false) (n : Nat) :
    (Loop.after mem allowed slot t n).Within t count
      (cutHeader allowed fun n => t.word (mem n)) n := by
  induction n with
  | zero => exact .before count 0 (Nat.zero_add count) (at_start ht) h
  | succ n ih => exact (ih.pass ht).1

/-- A loop that does not come to a cut header has none for its last word. -/
theorem Loop.Within.not_last {word : Nat → Nat → Word}
    (h : p.Within t count (cutHeader allowed word) n) (hloop : p.status = .looping)
    (hlast : p.asked + 1 = count) : word n p.asked &&& cmdTypeMask ≠ userCmdTypeGetDie := by
  intro hdie
  cases h with
  | before left i hi hat hcut =>
    rw [hat.asked] at hdie hlast
    obtain rfl : left = 1 := by omega
    have hnop : word n i &&& cmdTypeMask ≠ userCmdTypeNop := by
      rw [hdie]
      decide
    rw [cutHeader, if_neg hnop, if_pos hdie] at hcut
    cases hcut
  | ended hend _ => rcases hend with h | h <;> cases hloop.symm.trans h

theorem Submitted.words (h : Submitted t) : t.Words (taskBytes t / 4) := by
  cases h with
  | write c b cmd count hmod =>
    have hlt := count.isLt
    have hbytes : 4 * (count.toNat / 4) = count.toNat := by omega
    refine ⟨hbytes.symm, ?_, ?_⟩
    · change 4 * (count.toNat / 4) < 2 ^ 64
      omega
    · intro hpos j hj
      change count.toNat ≠ j
      change 0 < count.toNat / 4 at hpos
      change j ≤ count.toNat / 4 at hj
      omega
  | run s c cb db addr size hcheck =>
    have hlt := size.isLt
    have hmod := (ioctlRunCheck_aligned hcheck).2
    have hbytes : 4 * (size.toNat / 4) = size.toNat := by omega
    refine ⟨hbytes.symm, ?_, fun _ _ _ => trivial⟩
    change 4 * (size.toNat / 4) < 2 ^ 64
    omega

/-- The loop keeps to the submitted words exactly if parsing does not come to the header of a
`GET_DIE` in the last of them. -/
theorem parsing_bounded_iff (h : Submitted t) (mem : Nat → BufId → Nat → Nat → Word)
    (allowed : Word) (slot : Nat → Option Slot) :
    ParsingBounded mem t (Loop.after mem allowed slot t) ↔
      cutHeader allowed (fun n => t.word (mem n)) (taskBytes t / 4) 0 0 = false := by
  have ht := h.words
  have hstart : (Loop.after mem allowed slot t 0).At t (taskBytes t / 4) 0 := at_start ht
  rcases after_reaches ht (Nat.zero_add _) hstart with ⟨hcut, hends⟩ | ⟨hcut, n, hover⟩
  · have hwithin := after_within slot ht hcut
    refine ⟨fun _ => hcut, fun _ => ⟨hends, ?_, ?_, ?_⟩⟩
    · exact fun n => (hwithin n).asked_le
    · exact fun n => ((hwithin n).pass ht).2
    · intro n hloop hlast hdie
      exact absurd hdie ((hwithin n).not_last hloop hlast)
  · constructor
    · intro hb
      exact absurd (hb.asked_le n) (Nat.not_le.mpr hover)
    · intro hfalse
      cases hcut.symm.trans hfalse

/-- A write of a `GET_DIE` with its mask. -/
theorem parsing_bounded_iff_getDie :
    Submitted (writeTask 0 0 (fun i => if i = 0 then 0x12 else 0x20) 8) ∧
      ParsingBounded (fun _ _ _ _ => 0) (writeTask 0 0 (fun i => if i = 0 then 0x12 else 0x20) 8)
        (Loop.after (fun _ _ _ _ => 0) 0x20 (fun _ => some 0)
          (writeTask 0 0 (fun i => if i = 0 then 0x12 else 0x20) 8)) := by
  have h : Submitted (writeTask 0 0 (fun i => if i = 0 then 0x12 else 0x20) 8) :=
    .write 0 0 _ 8 (by decide)
  exact ⟨h, (parsing_bounded_iff h _ _ _).mpr (by decide)⟩

/-- A write of the header alone: the loop takes the word behind it for the mask, and
`bytes_left` wraps. -/
theorem header_read_past_end :
    (∃ s, system.exec State.probed (openOne ++
        writeCall 0 0 4 (fun i => if i = 0 then 0x12 else 0x20) ++ workerSteps 10) = some s ∧
      s.pc = .running (2 ^ 64 - 4)) ∧
    Submitted (writeTask 0 0 (fun i => if i = 0 then 0x12 else 0x20) 4) ∧
    ¬ ParsingBounded (fun _ _ _ _ => 0) (writeTask 0 0 (fun i => if i = 0 then 0x12 else 0x20) 4)
        (Loop.after (fun _ _ _ _ => 0) 0x20 (fun _ => some 0)
          (writeTask 0 0 (fun i => if i = 0 then 0x12 else 0x20) 4)) := by
  refine ⟨?_, .write 0 0 _ 4 (by decide), fun hb => absurd (hb.asked_le 1) (by decide)⟩
  have hseen : seenAfter (openOne ++
      writeCall 0 0 4 (fun i => if i = 0 then 0x12 else 0x20) ++ workerSteps 10) State.pc =
        some (.running (2 ^ 64 - 4)) := by decide +kernel
  obtain ⟨s, hs, -, hpc⟩ := exists_seenAfter hseen
  exact ⟨s, hs, hpc⟩

end Dicedev
