import Dicedev.Commands
import Dicedev.Parsing
import Dicedev.Queue

/-!
# What a task feeds

`parse` is the meaning of a list of words: the commands that are fed for it, the results that
are counted, and whether the context is failed. It has no value for a list that is left with
the header of a `GET_DIE` in its last word. `parse_runs` says that the loop of `__wt_run_task`
computes it, for a write as for a RUN.

`command_translation` reads off what is fed for commands made with the macros of `dicedev.h`,
and `run_write_agree` that it makes no difference which way a list of words was submitted.
-/

namespace Dicedev

open State

/-! ## The meaning of a list of words -/

/-- The commands fed for a task, the results counted for it, and whether its context is
failed. -/
structure Output where
  fed : List (List Word)
  results : Nat
  failed : Bool
  deriving DecidableEq, Repr

/-- A command in front of the others, with its results. -/
def Output.feed (words : List Word) (results : Nat) (out : Output) : Output :=
  ⟨words :: out.fed, results + out.results, out.failed⟩

/-- What is made of a list of words for a buffer with the mask `allowed` and the slot `slot`;
`none` if the list is left with the header of a `GET_DIE`. -/
def parse (allowed : Word) (slot : Option Slot) : List Word → Option Output
  | [] => some ⟨[], 0, false⟩
  | w :: ws =>
    if w &&& cmdTypeMask = userCmdTypeNop then parse allowed slot ws
    else if w &&& cmdTypeMask = userCmdTypeGetDie then
      match ws with
      | [] => none
      | m :: ws =>
        if w &&& getDieSlotMask ≠ 0 ∨ m &&& ~~~allowed ≠ 0 then some ⟨[], 0, true⟩
        else (parse allowed slot ws).map
          (Output.feed [w ||| bindedSlotWord slot <<< 24, m] (w &&& getDieNumMask).toNat)
    else if w &&& cmdTypeMask = userCmdTypeNewSet then
      if w &&& newSetSlotMask ≠ 0 then some ⟨[], 0, true⟩
      else (parse allowed slot ws).map (Output.feed [w ||| bindedSlotWord slot <<< 4] 0)
    else some ⟨[], 0, true⟩

section

variable {allowed w m : Word} {slot : Option Slot} {ws : List Word}

/-- A command of one word, or one that is rejected. -/
theorem parse_of_ne (h : w &&& cmdTypeMask ≠ userCmdTypeGetDie) :
    parse allowed slot (w :: ws) =
      if w &&& cmdTypeMask = userCmdTypeNop then parse allowed slot ws
      else if w &&& cmdTypeMask = userCmdTypeNewSet then
        if w &&& newSetSlotMask ≠ 0 then some ⟨[], 0, true⟩
        else (parse allowed slot ws).map (Output.feed [w ||| bindedSlotWord slot <<< 4] 0)
      else some ⟨[], 0, true⟩ := by
  cases ws <;> simp only [parse, if_neg h]

theorem parse_getDie (h : w &&& cmdTypeMask = userCmdTypeGetDie) :
    parse allowed slot (w :: m :: ws) =
      if w &&& getDieSlotMask ≠ 0 ∨ m &&& ~~~allowed ≠ 0 then some ⟨[], 0, true⟩
      else (parse allowed slot ws).map
        (Output.feed [w ||| bindedSlotWord slot <<< 24, m] (w &&& getDieNumMask).toNat) := by
  have hnop : w &&& cmdTypeMask ≠ userCmdTypeNop := by
    rw [h]
    decide
  rw [parse, if_neg hnop, if_pos h]

end

/-- The words from word `i` on are `ws`. -/
def Spells (word : Nat → Word) : Nat → List Word → Prop
  | _, [] => True
  | i, w :: ws => word i = w ∧ Spells word (i + 1) ws

theorem spells_of_getElem? {word : Nat → Word} {i : Nat} {ws : List Word}
    (h : ∀ j < ws.length, ws[j]? = some (word (i + j))) : Spells word i ws := by
  induction ws generalizing i with
  | nil => trivial
  | cons w ws ih =>
    refine ⟨(Option.some.inj (h 0 (Nat.zero_lt_succ _))).symm, ih fun j hj => ?_⟩
    have hnext := h (j + 1) (Nat.succ_lt_succ hj)
    rwa [List.getElem?_cons_succ, Nat.add_comm j 1, ← Nat.add_assoc] at hnext

/-! ## The loop, left alone -/

/-- The worker, left alone in `s`, gets task `id` to the end of `__wt_run_task` in `s'`, with
the outcome `out`. -/
structure Ran (s : State) (id : TaskId) (out : Output) (s' : State) : Prop where
  steps : ∃ n, system.exec s (workerSteps n) = some s'
  pc : s'.pc = .fencing
  fed : s'.stream.map Fed.words = s.stream.map Fed.words ++ out.fed
  results : (s'.tasks id).resultCount = (s.tasks id).resultCount + out.results
  failed : (s'.ctxs (s.tasks id).ctx).failed = ((s.ctxs (s.tasks id).ctx).failed || out.failed)

/-- The worker is in the loop over task `t`, with the words `ws` from word `i` on before it;
`allowed` and `slot` are those of the output buffer. -/
structure State.Parses (s : State) (id : TaskId) (t : Task) (allowed : Word)
    (slot : Option Slot) (i : Nat) (ws : List Word) : Prop where
  bug : s.bug = none
  running : s.runningTask = some id
  pc : s.pc = .running (4 * ws.length)
  task : t.At i (s.tasks id)
  words : Spells (t.word fun b => (s.bufs b).page) i ws
  passes : ∀ j < ws.length, t.Passes (i + j)
  lt : 4 * ws.length < 2 ^ 64
  allowed : (s.bufs (s.tasks id).buffOut).allowed = allowed
  slot : (s.bufs (s.tasks id).buffOut).bindedSlot = slot

variable {s s' : State} {id : TaskId} {t task : Task} {allowed : Word} {slot : Option Slot}
  {i left : Nat} {w : Word} {ws : List Word} {out : Output}

theorem step_worker (hbug : s.bug = none) {e : Except Bug State} (h : s.wtStep = some e) :
    system.step s .worker = some (s.orHalt e) := by
  change (if s.bug = none then s.wtStep.map s.orHalt else none) = _
  rw [if_pos hbug, h]
  rfl

theorem exec_worker {u v : State} (hs : system.step s .worker = some u)
    (h : ∃ n, system.exec u (workerSteps n) = some v) :
    ∃ n, system.exec s (workerSteps n) = some v := by
  obtain ⟨n, hn⟩ := h
  exact ⟨n + 1, Machine.exec_cons_some.mpr ⟨u, hs, hn⟩⟩

theorem tasks_pass (s : State) (id : TaskId) (r : Task × Pass) :
    (s.wtRunTaskPass id r).tasks id = r.1 := by
  have hself : Function.update s.tasks id r.1 id = r.1 := Function.update_self id r.1 s.tasks
  obtain ⟨task, pass⟩ := r
  cases pass <;> exact hself

theorem State.Parses.step (h : s.Parses id t allowed slot i (w :: ws)) {r : Task × Pass}
    (hpass : s.passOf id (4 * (w :: ws).length) = .ok r) :
    system.step s .worker = some (s.wtRunTaskPass id r) := by
  have hleft : 4 * (w :: ws).length ≠ 0 := Nat.mul_ne_zero (by decide) (Nat.succ_ne_zero _)
  have hrun : s.wtRunTask (4 * (w :: ws).length) = .ok (s.wtRunTaskPass id r) := by
    unfold State.wtRunTask
    simp only [h.running, if_neg hleft]
    change (do
      let r ← s.passOf id (4 * (w :: ws).length)
      .ok (s.wtRunTaskPass id r)) = _
    rw [hpass]
    rfl
  refine step_worker h.bug (e := .ok (s.wtRunTaskPass id r)) ?_
  unfold State.wtStep
  simp only [h.pc, hrun]

/-- Only a command that is fed is counted. -/
theorem passOf_count {pass : Pass} (h : s.passOf id left = .ok (task, pass))
    (hfed : ∀ words user left', pass ≠ .fed words user left') :
    task.resultCount = (s.tasks id).resultCount := by
  cases passOf_case h with
  | skip _ _ hcount | reject _ _ hcount => exact hcount
  | getDie | newSet => exact absurd rfl (hfed _ _ _)

/-- The loop goes on behind a NOP. -/
theorem Ran.skip (h : s.Parses id t allowed slot i (w :: ws))
    (hpass : s.passOf id (4 * (w :: ws).length) = .ok (task, .skip left))
    (hran : Ran (s.wtRunTaskPass id (task, .skip left)) id out s') : Ran s id out s' := by
  have htask := tasks_pass s id (task, .skip left)
  have hctx : task.ctx = (s.tasks id).ctx := congrArg TaskSig.ctx (passOf_sig hpass)
  obtain ⟨hsteps, hpc, hfed, hresults, hfailed⟩ := hran
  rw [htask, passOf_count hpass nofun] at hresults
  rw [htask, hctx] at hfailed
  exact ⟨exec_worker (h.step hpass) hsteps, hpc, hfed, hresults, hfailed⟩

/-- The loop goes on behind a command that it has fed. -/
theorem Ran.feed {words : List Word} {user : Word} {k : Nat}
    (h : s.Parses id t allowed slot i (w :: ws))
    (hpass : s.passOf id (4 * (w :: ws).length) = .ok (task, .fed words user left))
    (hcount : task.resultCount = (s.tasks id).resultCount + k)
    (hran : Ran (s.wtRunTaskPass id (task, .fed words user left)) id out s') :
    Ran s id (out.feed words k) s' := by
  have htask := tasks_pass s id (task, .fed words user left)
  have hctx : task.ctx = (s.tasks id).ctx := congrArg TaskSig.ctx (passOf_sig hpass)
  have hstream : (s.wtRunTaskPass id (task, .fed words user left)).stream.map Fed.words =
      s.stream.map Fed.words ++ [words] :=
    (congrArg (List.map Fed.words) (filterMap_log_some rfl)).trans List.map_append
  obtain ⟨hsteps, hpc, hfed, hresults, hfailed⟩ := hran
  rw [htask, hcount] at hresults
  rw [htask, hctx] at hfailed
  rw [hstream, List.append_assoc] at hfed
  exact ⟨exec_worker (h.step hpass) hsteps, hpc, hfed, hresults.trans (Nat.add_assoc _ _ _),
    hfailed⟩

theorem Ran.reject (h : s.Parses id t allowed slot i (w :: ws))
    (hpass : s.passOf id (4 * (w :: ws).length) = .ok (task, .reject)) :
    Ran s id ⟨[], 0, true⟩ (s.wtRunTaskPass id (task, .reject)) := by
  have htask := tasks_pass s id (task, .reject)
  have hctx : task.ctx = (s.tasks id).ctx := congrArg TaskSig.ctx (passOf_sig hpass)
  refine ⟨exec_worker (h.step hpass) ⟨0, rfl⟩, rfl, ?_, ?_, ?_⟩
  · rw [List.append_nil]
    exact congrArg (List.map Fed.words) (filterMap_log_none rfl)
  · rw [htask]
    exact passOf_count hpass nofun
  · have hfail : Function.update s.ctxs task.ctx { s.ctxs task.ctx with failed := true } task.ctx =
        { s.ctxs task.ctx with failed := true } := Function.update_self _ _ _
    rw [← hctx, Bool.or_true]
    exact congrArg Context.failed hfail

theorem Ran.done (h : s.Parses id t allowed slot i []) :
    Ran s id ⟨[], 0, false⟩ s.wtRunTaskReturn := by
  have hs : system.step s .worker = some s.wtRunTaskReturn := by
    refine step_worker h.bug (e := .ok s.wtRunTaskReturn) ?_
    unfold State.wtStep State.wtRunTask
    simp only [h.pc, h.running, List.length_nil, Nat.mul_zero, if_true]
  refine ⟨exec_worker hs ⟨0, rfl⟩, rfl, (List.append_nil _).symm, rfl, ?_⟩
  rw [Bool.or_false]
  rfl

namespace State.Parses

/-- The next word. -/
theorem head (h : s.Parses id t allowed slot i (w :: ws)) :
    ∃ t₁, taskGetNextWord (fun b => (s.bufs b).page) (s.tasks id) = .ok (w, t₁) ∧
      t.At (i + 1) t₁ := by
  have hget := get_at (fun b => (s.bufs b).page) h.task (h.passes 0 (Nat.zero_lt_succ _))
  rwa [h.words.1] at hget

/-- The word behind the next one. -/
theorem second {m : Word} (h : s.Parses id t allowed slot i (w :: m :: ws)) {t₁ : Task}
    (hat : t.At (i + 1) t₁) :
    ∃ t₂, taskGetNextWord (fun b => (s.bufs b).page) t₁ = .ok (m, t₂) ∧ t.At (i + 2) t₂ := by
  have hget := get_at (fun b => (s.bufs b).page) hat (h.passes 1 (by simp))
  rwa [h.words.2.1] at hget

theorem passOf_eq (h : s.Parses id t allowed slot i ws) :
    s.passOf id left = runTaskPass (fun b => (s.bufs b).page) allowed slot (s.tasks id) left := by
  unfold State.passOf
  rw [h.allowed, h.slot]

end State.Parses

/-- The `bytes_left` with which the loop goes on. -/
def Pass.left? : Pass → Option Nat
  | .skip left => some left
  | .fed _ _ left => some left
  | .reject => none

/-- The loop behind a command of `k` words. -/
theorem State.Parses.next {pass : Pass} {ws' : List Word} {k : Nat}
    (h : s.Parses id t allowed slot i ws) (hpass : s.passOf id left = .ok (task, pass))
    (hleft : pass.left? = some (4 * ws'.length)) (hlen : ws.length = ws'.length + k)
    (hwords : Spells (t.word fun b => (s.bufs b).page) (i + k) ws') (hat : t.At (i + k) task) :
    (s.wtRunTaskPass id (task, pass)).Parses id t allowed slot (i + k) ws' := by
  have htask := tasks_pass s id (task, pass)
  have hout : task.buffOut = (s.tasks id).buffOut := congrArg TaskSig.buffOut (passOf_sig hpass)
  have hlt := h.lt
  have hsame : (s.wtRunTaskPass id (task, pass)).bug = s.bug ∧
      (s.wtRunTaskPass id (task, pass)).runningTask = s.runningTask ∧
      (s.wtRunTaskPass id (task, pass)).bufs = s.bufs ∧
      (s.wtRunTaskPass id (task, pass)).pc = .running (4 * ws'.length) := by
    cases pass with
    | skip left =>
      cases hleft
      exact ⟨rfl, rfl, rfl, rfl⟩
    | fed words user left =>
      cases hleft
      exact ⟨rfl, rfl, rfl, rfl⟩
    | reject => cases hleft
  obtain ⟨hbug, hrun, hbufs, hpc⟩ := hsame
  refine ⟨hbug.trans h.bug, hrun.trans h.running, hpc, htask ▸ hat, ?_, ?_, by omega, ?_, ?_⟩
  · rw [hbufs]
    exact hwords
  · intro j hj
    rw [Nat.add_assoc]
    exact h.passes (k + j) (by omega)
  · rw [htask, hout, hbufs]
    exact h.allowed
  · rw [htask, hout, hbufs]
    exact h.slot

/-- A word that is left has four bytes. -/
theorem not_words_lt_four (w : Word) (ws : List Word) : ¬ 4 * (w :: ws).length < 4 := by
  rw [List.length_cons]
  omega

/-- The loop computes the meaning of the words before it. -/
theorem parse_runs (hout : parse allowed slot ws = some out)
    (h : s.Parses id t allowed slot i ws) : ∃ s', Ran s id out s' := by
  fun_induction parse allowed slot ws generalizing s i out with
  | case1 =>
    cases hout
    exact ⟨_, Ran.done h⟩
  | case2 w ws hnop ih =>
    obtain ⟨t₁, hget, hat⟩ := h.head
    have hlt := h.lt
    have hsub : sizeSub (4 * (w :: ws).length) 4 = 4 * ws.length := sizeSub_words (k := 1) hlt
    have hpass : s.passOf id (4 * (w :: ws).length) = .ok (t₁, .skip (4 * ws.length)) := by
      rw [h.passOf_eq, runTaskPass_nop hget hnop, hsub]
    obtain ⟨s', hran⟩ := ih hout (h.next (k := 1) hpass rfl rfl h.words.2 hat)
    exact ⟨s', Ran.skip h hpass hran⟩
  | case3 => cases hout
  | case4 w hnop hdie m ws hbad =>
    obtain ⟨t₁, hget, hat⟩ := h.head
    obtain ⟨t₂, hget', -⟩ := h.second hat
    have hpass : s.passOf id (4 * (w :: m :: ws).length) = .ok (t₂, .reject) := by
      rw [h.passOf_eq, runTaskPass_getDie hget hdie (not_words_lt_four w _) hget',
        getDiePass_reject hbad]
    cases hout
    exact ⟨_, Ran.reject h hpass⟩
  | case5 w hnop hdie m ws hgood ih =>
    obtain ⟨hslot, hmask⟩ := not_or.mp hgood
    obtain ⟨t₁, hget, hat⟩ := h.head
    obtain ⟨t₂, hget', hat'⟩ := h.second hat
    have hlt := h.lt
    have hsub : sizeSub (4 * (w :: m :: ws).length) 8 = 4 * ws.length := sizeSub_words (k := 2) hlt
    obtain ⟨rest, hrest, rfl⟩ := Option.map_eq_some_iff.mp hout
    have hpass : s.passOf id (4 * (w :: m :: ws).length) =
        .ok ({ t₂ with resultCount := t₂.resultCount + (w &&& getDieNumMask).toNat },
          .fed [w ||| bindedSlotWord slot <<< 24, m] w (4 * ws.length)) := by
      rw [h.passOf_eq, runTaskPass_getDie hget hdie (not_words_lt_four w _) hget', getDiePass,
        if_neg hslot, if_neg hmask, hsub]
    have hcount := (taskGetNextWord_same hget').2.trans (taskGetNextWord_same hget).2
    obtain ⟨s', hran⟩ := ih hrest (h.next (k := 2) hpass rfl rfl h.words.2.2 (hat'.of_body rfl))
    exact ⟨s', Ran.feed h hpass (congrArg (· + (w &&& getDieNumMask).toNat) hcount) hran⟩
  | case6 w ws hnop hdie hset hbad =>
    obtain ⟨t₁, hget, -⟩ := h.head
    have hpass : s.passOf id (4 * (w :: ws).length) = .ok (t₁, .reject) := by
      rw [h.passOf_eq, runTaskPass_newSet hget hset, newSetPass, if_pos hbad]
    cases hout
    exact ⟨_, Ran.reject h hpass⟩
  | case7 w ws hnop hdie hset hgood ih =>
    obtain ⟨t₁, hget, hat⟩ := h.head
    have hlt := h.lt
    have hsub : sizeSub (4 * (w :: ws).length) 4 = 4 * ws.length := sizeSub_words (k := 1) hlt
    obtain ⟨rest, hrest, rfl⟩ := Option.map_eq_some_iff.mp hout
    have hpass : s.passOf id (4 * (w :: ws).length) =
        .ok (t₁, .fed [w ||| bindedSlotWord slot <<< 4] w (4 * ws.length)) := by
      rw [h.passOf_eq, runTaskPass_newSet hget hset, newSetPass, if_neg hgood, hsub]
    obtain ⟨s', hran⟩ := ih hrest (h.next (k := 1) hpass rfl rfl h.words.2 hat)
    exact ⟨s', Ran.feed h hpass (taskGetNextWord_same hget).2 hran⟩
  | case8 w ws hnop hdie hset =>
    obtain ⟨t₁, hget, -⟩ := h.head
    have hpass : s.passOf id (4 * (w :: ws).length) = .ok (t₁, .reject) := by
      rw [h.passOf_eq, runTaskPass_unknown hget hnop hdie hset]
    cases hout
    exact ⟨_, Ran.reject h hpass⟩

/-! ## A task from its start -/

/-- The loop begins. -/
def State.startTask (s : State) (id : TaskId) : State :=
  { s with
    fenceState := .waiting
    runningTask := some id
    tasks := Function.update s.tasks id (taskInitIt (s.tasks id))
    pc := .running (taskBytes (s.tasks id))
    trace := s.trace ++ [.started id] }

theorem State.Starts.step (hbug : s.bug = none) (h : s.Starts id) :
    system.step s .worker = some (s.startTask id) := by
  have hrun : s.wtTaskRun = .ok (s.startTask id) := by
    unfold State.wtTaskRun
    split
    · rename_i hnone
      cases hnone.symm.trans h.next
    · rename_i t ht
      obtain rfl : id = t := Option.some.inj (h.next.symm.trans ht)
      rw [if_neg h.bound]
      rfl
  refine step_worker hbug (e := .ok (s.startTask id)) ?_
  unfold State.wtStep State.wtHandle
  simp only [h.pc_eq, hrun]

theorem tasks_startTask (s : State) (id : TaskId) :
    (s.startTask id).tasks id = taskInitIt (s.tasks id) := by
  simp only [State.startTask, Function.update_self]

theorem Ran.start (hbug : s.bug = none) (h : s.Starts id) (hran : Ran (s.startTask id) id out s') :
    Ran s id out s' := by
  have htask := tasks_startTask s id
  have hctx : (taskInitIt (s.tasks id)).ctx = (s.tasks id).ctx :=
    congrArg TaskSig.ctx (taskInitIt_sig (s.tasks id))
  have hstream : (s.startTask id).stream = s.stream := filterMap_log_none rfl
  obtain ⟨hsteps, hpc, hfed, hresults, hfailed⟩ := hran
  rw [htask, taskInitIt_resultCount] at hresults
  rw [htask, hctx] at hfailed
  rw [hstream] at hfed
  exact ⟨exec_worker (h.step hbug) hsteps, hpc, hfed, hresults, hfailed⟩

/-- What becomes of a task that the worker is about to start. -/
theorem starts_runs (hbug : s.bug = none) (h : s.Starts id)
    (hwords : (s.tasks id).Words ws.length)
    (hspells : Spells ((s.tasks id).word fun b => (s.bufs b).page) 0 ws)
    (hout : parse (s.bufs (s.tasks id).buffOut).allowed
      (s.bufs (s.tasks id).buffOut).bindedSlot ws = some out) : ∃ s', Ran s id out s' := by
  have htask := tasks_startTask s id
  have hbuf : (taskInitIt (s.tasks id)).buffOut = (s.tasks id).buffOut :=
    congrArg TaskSig.buffOut (taskInitIt_sig (s.tasks id))
  have hparses : (s.startTask id).Parses id (s.tasks id)
      (s.bufs (s.tasks id).buffOut).allowed (s.bufs (s.tasks id).buffOut).bindedSlot 0 ws := by
    refine ⟨hbug, rfl, congrArg WtPc.running hwords.bytes, ?_, hspells, ?_, hwords.lt, ?_, ?_⟩
    · rw [htask]
      exact at_init _
    · intro j hj
      rw [Nat.zero_add]
      exact hwords.passes (by omega) j (by omega)
    · rw [htask, hbuf]
      rfl
    · rw [htask, hbuf]
      rfl
  obtain ⟨s', hran⟩ := parse_runs hout hparses
  exact ⟨s', hran.start hbug h⟩

/-! ## The commands of the user -/

/-- The commands that a user makes with the macros of `dicedev.h`. A NOP may have anything in
its upper bits. -/
inductive UserCmd
  | nop (arg : BitVec 28)
  | getDie (num : BitVec 16) (outputType : BitVec 4) (mask : Word)
  | newSet
  deriving DecidableEq, Repr

namespace UserCmd

/-- The words of a command. -/
def encode : UserCmd → List Word
  | nop arg => [userCmdTypeNop ||| arg.setWidth 32 <<< 4]
  | getDie num outputType mask =>
    [userCmdGetDieHeader (num.setWidth 32) (outputType.setWidth 32), mask]
  | newSet => [userCmdNewSet]

/-- The mask of a `GET_DIE` is contained in the one of the buffer. -/
def Allowed (allowed : Word) : UserCmd → Prop
  | getDie _ _ mask => mask &&& ~~~allowed = 0
  | _ => True

/-- The commands that the device is to get. -/
def translate (slot : Slot) : UserCmd → List (List Word)
  | nop _ => []
  | getDie num outputType mask =>
    [[userCmdGetDieHeaderWslot (num.setWidth 32) (outputType.setWidth 32) (slotWord slot), mask]]
  | newSet => [[userCmdNewSet ||| slotWord slot <<< 4]]

end UserCmd

/-- A command that must be refused: a word of an unknown type, or a `GET_DIE` with a mask that
is not allowed. -/
inductive InvalidCmd (allowed : Word) : List Word → Prop
  | type (w : Word) (hnop : w &&& cmdTypeMask ≠ userCmdTypeNop)
      (hdie : w &&& cmdTypeMask ≠ userCmdTypeGetDie)
      (hset : w &&& cmdTypeMask ≠ userCmdTypeNewSet) : InvalidCmd allowed [w]
  | mask (w m : Word) (hdie : w &&& cmdTypeMask = userCmdTypeGetDie)
      (hmask : m &&& ~~~allowed ≠ 0) : InvalidCmd allowed [w, m]

theorem type_nop (arg : BitVec 28) :
    (userCmdTypeNop ||| arg.setWidth 32 <<< 4) &&& cmdTypeMask = userCmdTypeNop :=
  type_or_shiftLeft userCmdTypeNop _ (by decide)

theorem type_getDieHeader (num outputType : Word) :
    userCmdGetDieHeader num outputType &&& cmdTypeMask = userCmdTypeGetDie := by
  unfold userCmdGetDieHeader
  rw [type_or_shiftLeft _ _ (by decide), type_or_shiftLeft _ _ (by decide)]
  decide

/-- The number and the output type do not reach the bits of the slot. -/
theorem getDieHeader_slot (num : BitVec 16) (outputType : BitVec 4) :
    userCmdGetDieHeader (num.setWidth 32) (outputType.setWidth 32) &&& getDieSlotMask = 0 := by
  unfold userCmdGetDieHeader
  rw [BitVec.and_or_distrib_right, BitVec.and_or_distrib_right,
    Bits.shiftLeft_and_eq_zero num (by decide), Bits.shiftLeft_and_eq_zero outputType (by decide)]
  decide

/-- A valid command in front of other words. -/
theorem parse_encode_append {i : Slot} {u : UserCmd} (hu : u.Allowed allowed)
    (hout : parse allowed (some i) ws = some out) :
    ∃ k, parse allowed (some i) (u.encode ++ ws) =
      some ⟨u.translate i ++ out.fed, k + out.results, out.failed⟩ := by
  cases u with
  | nop arg =>
    refine ⟨0, ?_⟩
    rw [Nat.zero_add]
    simp only [UserCmd.encode, UserCmd.translate, List.singleton_append, List.nil_append]
    have hne : (userCmdTypeNop ||| arg.setWidth 32 <<< 4) &&& cmdTypeMask ≠ userCmdTypeGetDie := by
      rw [type_nop]
      decide
    rw [parse_of_ne hne, if_pos (type_nop arg), hout]
  | getDie num outputType mask =>
    have hdie := type_getDieHeader (num.setWidth 32) (outputType.setWidth 32)
    have hgood : ¬ (userCmdGetDieHeader (num.setWidth 32) (outputType.setWidth 32) &&&
        getDieSlotMask ≠ 0 ∨ mask &&& ~~~allowed ≠ 0) :=
      not_or.mpr ⟨not_not.mpr (getDieHeader_slot num outputType), not_not.mpr hu⟩
    refine ⟨(userCmdGetDieHeader (num.setWidth 32) (outputType.setWidth 32) &&&
      getDieNumMask).toNat, ?_⟩
    simp only [UserCmd.encode, List.cons_append, List.nil_append]
    rw [parse_getDie hdie, if_neg hgood, hout]
    rfl
  | newSet =>
    refine ⟨0, ?_⟩
    simp only [UserCmd.encode, List.singleton_append]
    rw [parse_of_ne (by decide), if_neg (by decide), if_pos (by decide), if_neg (by decide), hout]
    rfl

/-- A list of valid commands in front of other words. -/
theorem parse_encode {i : Slot} {cmds : List UserCmd} (hcmds : ∀ u ∈ cmds, u.Allowed allowed)
    (hout : parse allowed (some i) ws = some out) :
    ∃ k, parse allowed (some i) (cmds.flatMap UserCmd.encode ++ ws) =
      some ⟨cmds.flatMap (UserCmd.translate i) ++ out.fed, k + out.results, out.failed⟩ := by
  induction cmds with
  | nil => exact ⟨0, by simpa using hout⟩
  | cons u cmds ih =>
    obtain ⟨k, hk⟩ := ih fun u hu => hcmds u (List.mem_cons_of_mem _ hu)
    obtain ⟨k', hk'⟩ := parse_encode_append (hcmds u List.mem_cons_self) hk
    refine ⟨k' + k, ?_⟩
    rw [List.flatMap_cons, List.flatMap_cons, List.append_assoc, List.append_assoc, hk',
      Nat.add_assoc]

/-- An invalid command ends the parsing. -/
theorem parse_invalid {bad : List Word} (h : InvalidCmd allowed bad) (rest : List Word) :
    parse allowed slot (bad ++ rest) = some ⟨[], 0, true⟩ := by
  cases h with
  | type w hnop hdie hset =>
    rw [List.singleton_append, parse_of_ne hdie, if_neg hnop, if_neg hset]
  | mask w m hdie hmask =>
    rw [List.cons_append, List.singleton_append, parse_getDie hdie, if_pos (Or.inr hmask)]

/-! ## Writes -/

/-- A write of `count` bytes has its words. -/
theorem words_write (c : CtxId) (b : BufId) (cmd : Nat → Word) (hlt : 4 * left < 2 ^ 64) :
    (writeTask c b cmd (4 * left)).Words left := by
  refine ⟨rfl, hlt, fun hpos j hj => ?_⟩
  change 4 * left ≠ j
  omega

/-- A write to a buffer with slot `i` that begins with valid commands: the device gets their
translations. If nothing follows, the context is not failed; if an invalid command follows,
whatever comes behind it, nothing more is fed and the context is failed. -/
theorem command_translation {c : CtxId} {b : BufId} {cmd : Nat → Word} {count : BitVec 64}
    {i : Slot} {cmds : List UserCmd} {tail : List Word} (hbug : s.bug = none) (hstart : s.Starts id)
    (htask : s.tasks id = writeTask c b cmd count.toNat)
    (hslot : (s.bufs b).bindedSlot = some i)
    (hcmds : ∀ u ∈ cmds, u.Allowed (s.bufs b).allowed)
    (hws : ws = cmds.flatMap UserCmd.encode ++ tail) (hcount : count.toNat = 4 * ws.length)
    (hcmd : ∀ j < ws.length, ws[j]? = some (cmd j)) :
    (tail = [] → ∃ out s', Ran s id out s' ∧
      out.fed = cmds.flatMap (UserCmd.translate i) ∧ out.failed = false) ∧
    ∀ bad rest, tail = bad ++ rest → InvalidCmd (s.bufs b).allowed bad →
      ∃ out s', Ran s id out s' ∧
        out.fed = cmds.flatMap (UserCmd.translate i) ∧ out.failed = true := by
  have hlt : 4 * ws.length < 2 ^ 64 := hcount ▸ count.isLt
  rw [hcount] at htask
  have hbuf : (s.tasks id).buffOut = b := by rw [htask]; rfl
  have hwords : (s.tasks id).Words ws.length := by
    rw [htask]
    exact words_write c b cmd hlt
  have hspells : Spells ((s.tasks id).word fun b => (s.bufs b).page) 0 ws := by
    refine spells_of_getElem? fun j hj => ?_
    rw [htask, Nat.zero_add]
    exact hcmd j hj
  have hrun : ∀ {out : Output}, parse (s.bufs b).allowed (some i) ws = some out →
      ∃ s', Ran s id out s' := by
    intro out hout
    refine starts_runs hbug hstart hwords hspells ?_
    rw [hbuf, hslot]
    exact hout
  constructor
  · rintro rfl
    have hnil : parse (s.bufs b).allowed (some i) [] = some ⟨[], 0, false⟩ := rfl
    obtain ⟨k, hk⟩ := parse_encode hcmds hnil
    obtain ⟨s', hran⟩ := hrun (hws ▸ hk)
    exact ⟨_, s', hran, List.append_nil _, rfl⟩
  · rintro bad rest rfl hbad
    obtain ⟨k, hk⟩ := parse_encode hcmds (parse_invalid hbad rest)
    obtain ⟨s', hran⟩ := hrun (hws ▸ hk)
    exact ⟨_, s', hran, List.append_nil _, rfl⟩

/-- A `GET_DIE`, a `NEW_SET`, and a word of an unknown type with another word behind it. -/
def diceSetUnknown : Nat → Word
  | 0 => 0x12
  | 1 => 0x20
  | 2 => 0x4
  | 3 => 0x7
  | _ => 0x22

/-- The task that writes them is about to start. -/
theorem diceSetUnknown_starts :
    ∃ s, Reachable s ∧ s.bug = none ∧ s.Starts 0 ∧ s.tasks 0 = writeTask 0 0 diceSetUnknown 20 ∧
      (s.bufs 0).bindedSlot = some 0 ∧ (s.bufs 0).allowed = 0x20 := by
  have hseen : seenAfter (openOne ++ writeCall 0 0 20 diceSetUnknown ++ workerSteps 8)
      (fun s => (s.tasks 0, (s.bug, s.pc), s.nextTask, (s.bufs 0).bindedSlot, (s.bufs 0).allowed)) =
      some (writeTask 0 0 diceSetUnknown 20, (none, .event .taskRun), some 0, some 0, 0x20) := rfl
  obtain ⟨s, -, hr, hf⟩ := exists_seenAfter hseen
  simp only [Prod.mk.injEq] at hf
  obtain ⟨htask, ⟨hbug, hpc⟩, hnext, hslot, hallowed⟩ := hf
  refine ⟨s, hr, hbug, ⟨hpc, hnext, ?_⟩, htask, hslot, hallowed⟩
  rw [htask]
  exact hslot ▸ Option.some_ne_none 0

theorem command_translation_diceSetUnknown :
    ∃ s, Reachable s ∧ s.Starts 0 ∧ ∃ out s', Ran s 0 out s' ∧
      out.fed = [[0x12, 0x20], [0x4]] ∧ out.failed = true := by
  obtain ⟨s, hr, hbug, hstart, htask, hslot, hallowed⟩ := diceSetUnknown_starts
  refine ⟨s, hr, hstart, ?_⟩
  have hws : [0x12, 0x20, 0x4, 0x7, 0x22] =
      [UserCmd.getDie 1 0 0x20, .newSet].flatMap UserCmd.encode ++ [0x7, 0x22] := by decide
  have htask' : s.tasks 0 = writeTask 0 0 diceSetUnknown (20 : BitVec 64).toNat := htask
  refine (command_translation hbug hstart htask' hslot ?_ hws rfl ?_).2 [0x7] [0x22] rfl ?_
  · rw [hallowed]
    intro u hu
    rcases List.mem_cons.mp hu with rfl | hu
    · exact (by decide : (0x20 : Word) &&& ~~~0x20 = 0)
    · rw [List.mem_singleton.mp hu]
      trivial
  · decide
  · exact .type _ (by decide) (by decide) (by decide)

/-! ## RUN and write -/

/-- A list has a meaning if parsing does not come to a header in its last word. -/
theorem parse_of_cutHeader (slot : Option Slot) {word : Nat → Word} {n : Nat}
    (hword : Spells word i ws)
    (h : cutHeader allowed (fun _ => word) ws.length n i = false) :
    ∃ out, parse allowed slot ws = some out := by
  fun_induction parse allowed slot ws generalizing n i with
  | case1 => exact ⟨_, rfl⟩
  | case2 w ws hnop ih =>
    obtain ⟨rfl, hrest⟩ := hword
    rw [List.length_cons, cutHeader_of_ne (by rw [hnop]; decide), if_pos hnop] at h
    exact ih hrest h
  | case3 w hnop hdie =>
    obtain ⟨rfl, -⟩ := hword
    rw [List.length_singleton, cutHeader, if_neg hnop, if_pos hdie] at h
    cases h
  | case4 => exact ⟨_, rfl⟩
  | case5 w hnop hdie m ws hgood ih =>
    obtain ⟨rfl, rfl, hrest⟩ := hword
    rw [List.length_cons, List.length_cons, cutHeader, if_neg hnop, if_pos hdie] at h
    obtain ⟨out, hout⟩ := ih hrest ((if_neg hgood).symm.trans h)
    rw [hout]
    exact ⟨_, rfl⟩
  | case6 => exact ⟨_, rfl⟩
  | case7 w ws hnop hdie hset hgood ih =>
    obtain ⟨rfl, hrest⟩ := hword
    rw [List.length_cons, cutHeader_of_ne hdie, if_neg hnop, if_pos hset, if_neg hgood] at h
    obtain ⟨out, hout⟩ := ih hrest h
    rw [hout]
    exact ⟨_, rfl⟩
  | case8 => exact ⟨_, rfl⟩

theorem words_run (c : CtxId) (cb db : BufId) (addr : Nat) (hlt : 4 * left < 2 ^ 64) :
    (runTask c cb db addr (4 * left)).Words left :=
  ⟨rfl, hlt, fun _ _ _ => trivial⟩

/-- A RUN from the beginning of a page reads the words of the buffer from there on. -/
theorem word_runTask (mem : BufId → Nat → Nat → Word) (c : CtxId) (cb db : BufId)
    (pageNo size j : Nat) :
    (runTask c cb db (pageNo * pageSize) size).word mem j =
      wordAt mem cb (pageNo * pageSize + 4 * j) := by
  have hstart : (pageNo * pageSize) / pageSize * pageWords + pageNo * pageSize % pageSize % 4 =
      pageNo * pageWords := by
    rw [Nat.mul_div_cancel _ (by decide), Nat.mul_mod_left, Nat.zero_mod, Nat.add_zero]
  change nthWord mem cb (_ + j) = _
  rw [TaskRun.start, hstart, nthWord_eq_wordAt, Nat.mul_add, Nat.mul_left_comm]
  rfl

/-- A list of words that is not left with a header has the same outcome, whether a write
submits it or a RUN finds it from the beginning of a page on. -/
theorem run_write_agree {s₁ s₂ : State} {id₁ id₂ : TaskId} {c₁ c₂ : CtxId} {cb b₁ b₂ : BufId}
    {pageNo : Nat} {cmd : Nat → Word} (hbug₁ : s₁.bug = none) (hbug₂ : s₂.bug = none)
    (hstart₁ : s₁.Starts id₁) (hstart₂ : s₂.Starts id₂) (hlt : 4 * ws.length < 2 ^ 64)
    (hrun : s₁.tasks id₁ = runTask c₁ cb b₁ (pageNo * pageSize) (4 * ws.length))
    (hheld : ∀ j < ws.length, ws[j]? =
      some (wordAt (fun b => (s₁.bufs b).page) cb (pageNo * pageSize + 4 * j)))
    (hwrite : s₂.tasks id₂ = writeTask c₂ b₂ cmd (4 * ws.length))
    (hcmd : ∀ j < ws.length, ws[j]? = some (cmd j))
    (hallowed : (s₁.bufs b₁).allowed = (s₂.bufs b₂).allowed)
    (hslot : (s₁.bufs b₁).bindedSlot = (s₂.bufs b₂).bindedSlot)
    (hcut : cutHeader (s₂.bufs b₂).allowed (fun _ => cmd) ws.length 0 0 = false) :
    ∃ out s₁' s₂', Ran s₁ id₁ out s₁' ∧ Ran s₂ id₂ out s₂' ∧
      (s₁'.tasks id₁).resultCount = (s₂'.tasks id₂).resultCount := by
  have hspells₁ : Spells ((s₁.tasks id₁).word fun b => (s₁.bufs b).page) 0 ws := by
    refine spells_of_getElem? fun j hj => ?_
    rw [hrun, word_runTask, Nat.zero_add]
    exact hheld j hj
  have hspells₂ : Spells cmd 0 ws := by
    refine spells_of_getElem? fun j hj => ?_
    rw [Nat.zero_add]
    exact hcmd j hj
  obtain ⟨out, hout⟩ := parse_of_cutHeader (s₂.bufs b₂).bindedSlot hspells₂ hcut
  have hran₁ : ∃ s', Ran s₁ id₁ out s' := by
    refine starts_runs hbug₁ hstart₁ (hrun ▸ words_run c₁ cb b₁ _ hlt) hspells₁ ?_
    rw [hrun]
    change parse (s₁.bufs b₁).allowed (s₁.bufs b₁).bindedSlot ws = some out
    rw [hallowed, hslot]
    exact hout
  have hran₂ : ∃ s', Ran s₂ id₂ out s' := by
    refine starts_runs hbug₂ hstart₂ (hwrite ▸ words_write c₂ b₂ cmd hlt) ?_ ?_
    · rw [hwrite]
      exact hspells₂
    · rw [hwrite]
      exact hout
  obtain ⟨s₁', h₁⟩ := hran₁
  obtain ⟨s₂', h₂⟩ := hran₂
  refine ⟨out, s₁', s₂', h₁, h₂, ?_⟩
  rw [h₁.results, h₂.results, hrun, hwrite]
  rfl

/-- The words of `diceSetUnknown` in the second page of the buffer. -/
def diceSetStored : List Label :=
  [.openCtx 7, .createSet 0 8192 0x20 0x1000, .store 0 1 0 0x12, .store 0 1 1 0x20,
    .store 0 1 2 0x4, .store 0 1 3 0x7, .store 0 1 4 0x22]

theorem run_write_agree_diceSetUnknown :
    ∃ s₁ s₂ out s₁' s₂', Reachable s₁ ∧ Reachable s₂ ∧
      s₁.tasks 0 = runTask 0 0 0 4096 20 ∧ s₂.tasks 0 = writeTask 0 0 diceSetUnknown 20 ∧
      Ran s₁ 0 out s₁' ∧ Ran s₂ 0 out s₂' ∧
      (s₁'.tasks 0).resultCount = (s₂'.tasks 0).resultCount := by
  have hseen₁ : seenAfter (diceSetStored ++
      [.run 0 0 0 4096 20 false true, .runCount 0, .runQueue 0] ++ workerSteps 8)
      (fun s => (s.tasks 0, (s.bug, s.pc), s.nextTask, ((s.bufs 0).bindedSlot, (s.bufs 0).allowed),
        (List.range 5).map fun j => wordAt (fun b => (s.bufs b).page) 0 (1 * pageSize + 4 * j))) =
      some (runTask 0 0 0 4096 20, (none, .event .taskRun), some 0, (some 0, 0x20),
        [0x12, 0x20, 0x4, 0x7, 0x22]) := rfl
  obtain ⟨s₁, -, hr₁, hf₁⟩ := exists_seenAfter hseen₁
  simp only [Prod.mk.injEq] at hf₁
  obtain ⟨htask₁, ⟨hbug₁, hpc₁⟩, hnext₁, ⟨hslot₁, hallowed₁⟩, hheld⟩ := hf₁
  obtain ⟨s₂, hr₂, hbug₂, hstart₂, htask₂, hslot₂, hallowed₂⟩ := diceSetUnknown_starts
  have hstart₁ : s₁.Starts 0 := by
    refine ⟨hpc₁, hnext₁, ?_⟩
    rw [htask₁]
    exact hslot₁ ▸ Option.some_ne_none 0
  have hrun : s₁.tasks 0 = runTask 0 0 0 (1 * pageSize)
      (4 * [(0x12 : Word), 0x20, 0x4, 0x7, 0x22].length) := htask₁
  obtain ⟨out, s₁', s₂', h₁, h₂, hcount⟩ :=
    run_write_agree hbug₁ hbug₂ hstart₁ hstart₂ (by decide) hrun
      (by
        intro j hj
        rw [← hheld, List.getElem?_map, List.getElem?_range (show j < 5 from hj)]
        rfl)
      htask₂ (by decide) (hallowed₁.trans hallowed₂.symm) (hslot₁.trans hslot₂.symm)
      (by rw [hallowed₂]; decide)
  exact ⟨s₁, s₂, out, s₁', s₂', hr₁, hr₂, htask₁, htask₂, h₁, h₂, hcount⟩

end Dicedev
