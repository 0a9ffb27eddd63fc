import Mathlib.Algebra.Order.BigOperators.Group.List
import Mathlib.Algebra.Order.Group.Nat
import Dicedev.Blame
import Dicedev.Buffers
import Dicedev.Results

/-!
# How far a reader can get

`dicedev_buffer_read` takes a result only while `READS_AVAILABLE` is not zero, and
`__task_destroy` adds the results of a task to the reader of its buffer in the critical section
that takes the task off the counter of its context. So the offset stays at or below the number
of results, and a read that returns 0 has found every result of every task of the context, or
the context is on its way out.

What has been added to a reader is read off the trace: the results of the tasks destroyed since
the buffer was bound, `resultCount_added`.
-/

namespace Dicedev

open State

variable {s s' : State} {l : Label} {b : BufId}

/-! ## What a step does to a reader -/

/-- The entry of the trace says that buffer `b` is bound. -/
def Event.binds (b : BufId) : Event → Bool
  | .feed f => decide (f.origin = .bind b)
  | _ => false

/-- The entry of the trace neither binds buffer `b` nor destroys a task. -/
def Event.Quiet (b : BufId) (e : Event) : Prop := e.binds b = false ∧ e.gone? = none

/-- The results task `t` has for buffer `b`. -/
def State.resultsFor (s : State) (b : BufId) (t : TaskId) : Nat :=
  if s.out t = b then (s.tasks t).resultCount else 0

/-- What a step can turn the reader of buffer `b` into, with what it writes into the trace. -/
inductive ReaderStep (s : State) (b : BufId) (l : Label) : List Event → Reader → Prop
  | bind (words : List Word) : ReaderStep s b l [.feed ⟨words, .bind b⟩] ⟨0, 0⟩
  | account (t : TaskId) (c : Caller) (hpc : s.pc = .account t c) :
      ReaderStep s b l [destroyEvent t c]
        ⟨(s.bufs b).reader.resultCount + s.resultsFor b t, (s.bufs b).reader.offset⟩
  | read (hl : l = .read b) :
      ReaderStep s b l [] ⟨(s.bufs b).reader.resultCount, (s.bufs b).reader.offset + 1⟩
  | keep (es : List Event) (hquiet : ∀ e ∈ es, e.Quiet b) : ReaderStep s b l es (s.bufs b).reader

/-- A step that binds no buffer and destroys no task does not touch the number of results, and
only a read touches the offset. -/
theorem BufStep.readerStep {x : Buffer} (h : BufStep s b l x)
    (hbind : l = .worker → s.pc ≠ .event .taskBindSlot)
    (haccount : l = .worker → ∀ t c, s.pc ≠ .account t c) :
    ReaderStep s b l [] x.reader := by
  cases h with
  | bind t i hpc => exact absurd hpc (hbind rfl)
  | account t c hpc => exact absurd hpc (haccount rfl t c)
  | read => exact .read rfl
  | _ => exact .keep [] (by simp)

theorem ReaderStep.log {r : Reader} (h : ReaderStep s b l [] r) {es : List Event}
    (hl : l ≠ .read b) (hquiet : ∀ e ∈ es, e.Quiet b) : ReaderStep s b l es r := by
  cases h with
  | read h => exact absurd h hl
  | keep => exact .keep es hquiet

theorem ReaderStep.of_step (hs : Step s l s') (hb : b < s.nBuf) :
    ∃ es, s'.trace = s.trace ++ es ∧ ReaderStep s b l es (s'.bufs b).reader := by
  have hbs := BufStep.of_step hs hb
  have hother : l ≠ .worker → ReaderStep s b l [] (s'.bufs b).reader := fun hl =>
    hbs.readerStep (fun h => absurd h hl) (fun h => absurd h hl)
  have hunbound : ∀ d, ∃ es, (s.unbound d).trace = s.trace ++ es ∧ ∀ e ∈ es, e.Quiet b := by
    intro d
    rcases trace_unbound s d with ht | ⟨i, -, ht⟩
    · exact ⟨[], by rw [ht, List.append_nil], by simp⟩
    · exact ⟨_, ht, by simp [Event.Quiet, Event.binds, Event.gone?]⟩
  cases hs with
  | openCtx | createSetRefused | createSet | runRefused | run | runCount | wait | waitLeave
  | releaseMark | releaseWait | releaseFree | writeRefused | write | writeFail | readNone | read
  | seed | dup | close | store | isrOff | isr | isrFence | slotError | suspend | resume | remove =>
    exact ⟨[], (List.append_nil _).symm, hother (by simp)⟩
  | runQueue | writeQueue | waitReturn | fenceInterrupt | errorInterrupt =>
    exact ⟨_, rfl, (hother (by simp)).log (by simp)
      (by simp [Event.Quiet, Event.binds, Event.gone?])⟩
  | bufferRelease d =>
    obtain ⟨es, ht, hquiet⟩ := hunbound d
    exact ⟨es, ht, (hother (by simp)).log (by simp) hquiet⟩
  | releaseBuffer c d =>
    obtain ⟨es, ht, hquiet⟩ := hunbound d
    refine ⟨es ++ [.closed d], ?_, (hother (by simp)).log (by simp) ?_⟩
    · rw [← List.append_assoc, ← ht]
    · exact List.forall_mem_append.mpr ⟨hquiet, by simp [Event.Quiet, Event.binds, Event.gone?]⟩
  | head | polled | sleep | again | park | drop | getNext | taskFinish | runDone | runSkip
  | destroyKeep | finishing | shutdown | halt =>
    exact ⟨[], (List.append_nil _).symm, .keep [] (by simp)⟩
  | taskRun | runFeed | runReject | fence =>
    exact ⟨_, rfl, .keep _ (by simp [Event.Quiet, Event.binds, Event.gone?])⟩
  | destroyUnbind t c d hpc =>
    obtain ⟨es, ht, hquiet⟩ := hunbound d
    have hkeep := hbs.readerStep (by simp [hpc]) (by simp [hpc])
    exact ⟨es, ht, hkeep.log (by simp) hquiet⟩
  | bindSlot t d i hpc hnext hout =>
    refine ⟨_, rfl, ?_⟩
    by_cases hd : d = b
    · subst hd
      simp only [Function.update_self]
      exact .bind _
    · simp only [Function.update_of_ne (Ne.symm hd)]
      exact .keep _ (by simpa [Event.Quiet, Event.binds, Event.gone?] using hd)
  | account t caller c d hpc hctx hout =>
    have hreader := ReaderStep.account (s := s) (b := b) (l := .worker) t caller hpc
    refine ⟨_, rfl, ?_⟩
    by_cases hd : d = b
    · subst hd
      have heq : s.out t = d := hout
      rw [State.resultsFor, if_pos heq] at hreader
      simp only [Function.update_self]
      exact hreader
    · have hne : s.out t ≠ b := fun h => hd (hout.symm.trans h)
      rw [State.resultsFor, if_neg hne, Nat.add_zero] at hreader
      simp only [Function.update_of_ne (Ne.symm hd)]
      exact hreader

/-! ## The offset -/

/-- The critical section of `dicedev_buffer_read`. -/
theorem read_step (hs : system.step s (.read b) = some s') :
    0 < (s.bufs b).fdRefs ∧
      (readsAvailable (s.bufs b).reader = 0 →
        (s.bufs b).destroyed = true ∨ (s.ctxs (s.bufs b).ctx).taskCount = 0) ∧
      s' = if readsAvailable (s.bufs b).reader = 0 then s else
        s.updBuf b fun buf =>
          { buf with reader := { buf.reader with offset := buf.reader.offset + 1 } } := by
  change (if s.bug = none then s.dicedevBufferRead b else none) = some s' at hs
  split at hs
  · unfold dicedevBufferRead at hs
    dsimp only at hs
    split at hs
    · rename_i hguard
      obtain ⟨-, hfd, hloop⟩ := hguard
      refine ⟨hfd, fun havail => ?_, ?_⟩
      · by_contra hnot
        rw [not_or, Bool.not_eq_true] at hnot
        exact hloop ⟨havail, hnot.1, Nat.pos_of_ne_zero hnot.2⟩
      · split at hs
        · rename_i havail
          rw [if_pos havail]
          exact (Option.some.inj hs).symm
        · rename_i havail
          rw [if_neg havail]
          exact (Option.some.inj hs).symm
    · cases hs
  · cases hs

theorem readsAvailable_eq {r : Reader} (hle : r.offset ≤ r.resultCount)
    (hlt : r.resultCount < 2 ^ 64) : readsAvailable r = r.resultCount - r.offset := by
  unfold readsAvailable sizeSub
  omega

/-- While there is something to read the offset is below the number of results. -/
theorem offset_lt {r : Reader} (hle : r.offset ≤ r.resultCount) (havail : readsAvailable r ≠ 0) :
    r.offset < r.resultCount := by
  refine Nat.lt_of_le_of_ne hle fun heq => havail ?_
  unfold readsAvailable sizeSub
  rw [heq, Nat.add_sub_cancel_left, Nat.mod_self]

theorem offset_le_resultCount (h : Reachable s) :
    ∀ b < s.nBuf, (s.bufs b).reader.offset ≤ (s.bufs b).reader.resultCount := by
  refine buffers_reachable
    (P := fun s b => (s.bufs b).reader.offset ≤ (s.bufs b).reader.resultCount) ?_ ?_ h
  · intro s s' c size allowed dma _ _ hbuf
    rw [hbuf]
    exact Nat.le_refl 0
  · intro s l s' b _ hs hb hle
    obtain ⟨es, -, hreader⟩ := ReaderStep.of_step (Step.of_step hs) hb
    generalize hr : (s'.bufs b).reader = r at hreader ⊢
    cases hreader with
    | bind => exact Nat.le_refl 0
    | account => exact Nat.le_add_right_of_le hle
    | keep => exact hle
    | read hl =>
      -- the step was taken past the test of the loop
      subst hl
      obtain ⟨-, -, rfl⟩ := read_step hs
      by_cases havail : readsAvailable (s.bufs b).reader = 0
      · rw [if_pos havail] at hr
        rw [hr] at hle
        exact hle
      · exact offset_lt hle havail

/-! ## What has been added to a reader -/

/-- The tasks destroyed since buffer `b` was bound, after one more entry of the trace. -/
def Event.goneSince (b : BufId) (ts : List TaskId) (e : Event) : List TaskId :=
  if e.binds b then [] else ts ++ e.gone?.toList

/-- The tasks destroyed since buffer `b` was bound last. -/
def goneSince (b : BufId) (trace : List Event) : List TaskId :=
  trace.foldl (Event.goneSince b) []

theorem goneSince_append (b : BufId) (trace es : List Event) :
    goneSince b (trace ++ es) = es.foldl (Event.goneSince b) (goneSince b trace) :=
  List.foldl_append ..

theorem goneSince_suffix (b : BufId) (trace : List Event) :
    goneSince b trace <:+ trace.filterMap Event.gone? := by
  induction trace using List.reverseRecOn with
  | nil => exact List.suffix_refl []
  | append_singleton trace e ih =>
    obtain ⟨front, hfront⟩ := ih
    rw [goneSince_append, List.filterMap_append, ← hfront]
    change e.goneSince b (goneSince b trace) <:+ _
    unfold Event.goneSince
    split
    · exact List.nil_suffix
    · refine ⟨front, ?_⟩
      rw [← List.append_assoc]
      cases hgone : e.gone? with
      | none => simp [hgone]
      | some t => simp [hgone]

theorem goneSince_quiet {trace es : List Event} (hquiet : ∀ e ∈ es, e.Quiet b) :
    goneSince b (trace ++ es) = goneSince b trace := by
  rw [goneSince_append]
  refine List.foldlRecOn es (Event.goneSince b) (motive := (· = goneSince b trace)) rfl ?_
  intro ts hts e he
  rw [Event.goneSince, (hquiet e he).1, (hquiet e he).2]
  exact (List.append_nil ts).trans hts

namespace State

/-- The results of the tasks destroyed since buffer `b` was bound last. -/
def addedSince (s : State) (b : BufId) : Nat :=
  ((goneSince b s.trace).map (s.resultsFor b)).sum

/-- The results counted for all tasks. -/
def totalResults (s : State) : Nat :=
  ((List.range s.nTask).map fun t => (s.tasks t).resultCount).sum

end State

theorem mem_gone_of_goneSince {t : TaskId} (ht : t ∈ goneSince b s.trace) : t ∈ s.gone :=
  (goneSince_suffix b s.trace).subset ht

/-- Only the loop over the commands of a task touches its counter. -/
theorem resultCount_step (hs : Step s l s') {t : TaskId} (ht : t < s.nTask)
    (hrun : ∀ left, s.pc = .running left → s.runningTask ≠ some t) :
    (s'.tasks t).resultCount = (s.tasks t).resultCount := by
  have hother : ∀ {left : Nat} {u : TaskId} {task : Task}, s.pc = .running left →
      s.runningTask = some u →
      (Function.update s.tasks u task t).resultCount = (s.tasks t).resultCount := by
    intro left u task hpc hu
    have hne : t ≠ u := fun h => hrun left hpc (h ▸ hu)
    rw [Function.update_of_ne hne]
  cases hs with
  | runQueue k | writeQueue k =>
    exact congrArg Task.resultCount (Function.update_of_ne (Nat.ne_of_lt ht) ..)
  | taskRun u =>
    exact update_field Task.resultCount (taskInitIt_resultCount _) t
  | runSkip u left task left' hpc hu => exact hother hpc hu
  | runFeed u left task words user left' hpc hu => exact hother hpc hu
  | runReject u left task hpc hu => exact hother hpc hu
  | account u =>
    exact update_field Task.resultCount (by rfl) t
  | _ => rfl

theorem resultsFor_step (hs : Step s l s') {t : TaskId} (ht : t < s.nTask)
    (hrun : ∀ left, s.pc = .running left → s.runningTask ≠ some t) (b : BufId) :
    s'.resultsFor b t = s.resultsFor b t := by
  unfold State.resultsFor
  rw [out_step hs ht, resultCount_step hs ht hrun]

/-- A task that is destroyed is not being run. -/
theorem gone_not_running (h : Reachable s) {t : TaskId} (ht : t ∈ s.gone) (left : Nat)
    (hpc : s.pc = .running left) : s.runningTask ≠ some t := by
  intro hrun
  have hagree := (ctl_reachable h).agrees hpc
  exact not_gone_of_held h (next_held h (hagree.2.trans hrun)) ht

/-- No task has a buffer that is only made next. -/
theorem addedSince_fresh (h : Reachable s) : s.addedSince s.nBuf = 0 := by
  refine List.sum_eq_zero fun n hn => ?_
  obtain ⟨t, ht, rfl⟩ := List.mem_map.mp hn
  have hknown := Names.task_known (scope_reachable h) t (gone_lt h (mem_gone_of_goneSince ht))
  exact if_neg (Nat.ne_of_lt hknown.2.1)

/-- What a destroyed task has stays. -/
theorem map_resultsFor_step (h : Reachable s) (hs : Step s l s') (b : BufId) :
    (goneSince b s.trace).map (s'.resultsFor b) =
      (goneSince b s.trace).map (s.resultsFor b) := by
  refine List.map_congr_left fun t ht => ?_
  have hgone := mem_gone_of_goneSince ht
  exact resultsFor_step hs (gone_lt h hgone) (gone_not_running h hgone) b

/-- The reader of a buffer counts the results of the tasks destroyed since it was bound. -/
theorem resultCount_added (h : Reachable s) :
    ∀ b < s.nBuf, (s.bufs b).reader.resultCount = s.addedSince b := by
  refine buffers_reachable
    (P := fun s b => (s.bufs b).reader.resultCount = s.addedSince b) ?_ ?_ h
  · intro s s' c size allowed dma hr hs hbuf
    rw [hbuf]
    cases hs with
    | createSetRefused => exact (addedSince_fresh hr).symm
    | createSet => exact (addedSince_fresh hr).symm
    | halt _ _ hl => rcases hl with hl | hl <;> cases hl
  · intro s l s' b hr hs hb hI
    have hstep := Step.of_step hs
    have hold := map_resultsFor_step hr hstep b
    unfold State.addedSince at hI ⊢
    obtain ⟨es, htrace, hreader⟩ := ReaderStep.of_step hstep hb
    rw [htrace]
    generalize (s'.bufs b).reader = r at hreader
    cases hreader with
    | bind words =>
      rw [goneSince_append]
      simp [Event.goneSince, Event.binds]
    | account t c hpc =>
      have hself : s'.resultsFor b t = s.resultsFor b t :=
        resultsFor_step hstep (account_lt hr hpc) (by simp [hpc]) b
      have hgone : goneSince b (s.trace ++ [destroyEvent t c]) = goneSince b s.trace ++ [t] := by
        rw [goneSince_append]
        cases c with
        | drop => rfl
        | finish => rfl
      rw [hgone, List.map_append, List.sum_append, hold, ← hI, List.map_singleton,
        List.sum_singleton, hself]
    | read hl => rw [List.append_nil, hold, ← hI]
    | keep _ hquiet => rw [goneSince_quiet hquiet, hold, ← hI]

/-- No reader counts more than all tasks together. -/
theorem resultCount_le_total (h : Reachable s) (hb : b < s.nBuf) :
    (s.bufs b).reader.resultCount ≤ s.totalResults := by
  rw [resultCount_added h b hb]
  have hnodup : (goneSince b s.trace).Nodup :=
    (pipeline_reachable h).gone_nodup.sublist (goneSince_suffix b s.trace).sublist
  have hsub : goneSince b s.trace ⊆ List.range s.nTask := by
    intro t ht
    exact List.mem_range.mpr (gone_lt h (mem_gone_of_goneSince ht))
  obtain ⟨ts, hperm, hts⟩ := List.subperm_of_subset hnodup hsub
  calc s.addedSince b
      ≤ ((goneSince b s.trace).map fun t => (s.tasks t).resultCount).sum := by
        refine List.sum_le_sum fun t _ => ?_
        unfold State.resultsFor
        split
        · exact Nat.le_refl _
        · exact Nat.zero_le _
    _ = (ts.map fun t => (s.tasks t).resultCount).sum := ((hperm.map _).sum_eq).symm
    _ ≤ s.totalResults := (hts.map _).sum_le_sum fun _ _ => Nat.zero_le _

/-! ## A read that returns 0 -/

/-- A `read` on buffer `b` returns 0: its loop has ended with nothing to read. -/
def ReadEnds (s : State) (b : BufId) : Prop :=
  (∃ s', system.step s (.read b) = some s') ∧ readsAvailable (s.bufs b).reader = 0

/-- Every task of context `c` is destroyed, and the readers have the results of all destroyed
tasks. -/
structure AllAdded (s : State) (c : CtxId) : Prop where
  gone : ∀ t < s.nTask, (s.tasks t).ctx = c → t ∈ s.gone
  added : ∀ d < s.nBuf, (s.bufs d).reader.resultCount = s.addedSince d

/-- Nothing is left to read in buffer `b`, and nothing will come unless a new task does. -/
structure EndOfData (s : State) (b : BufId) : Prop where
  drained : (s.bufs b).reader.offset = (s.bufs b).reader.resultCount
  ended : (s.ctxs (s.bufs b).ctx).phase ≠ .opened ∨ AllAdded s (s.bufs b).ctx

theorem endOfData_of_readEnds (h : Reachable s) (hb : b < s.nBuf)
    (hlt : (s.bufs b).reader.resultCount < 2 ^ 64) (hend : ReadEnds s b) : EndOfData s b := by
  obtain ⟨⟨s', hs⟩, havail⟩ := hend
  have hle := offset_le_resultCount h b hb
  constructor
  · rw [readsAvailable_eq hle hlt] at havail
    omega
  · rcases (read_step hs).2.1 havail with hdestroyed | hcount
    · exact Or.inl (((ownership_reachable h).destroyed_iff b hb).mp hdestroyed)
    · refine Or.inr ⟨fun t ht hctx => gone_of_count h ht ?_, resultCount_added h⟩
      have hsig : (s.sig t).ctx = (s.bufs b).ctx := hctx
      rw [hsig]
      exact hcount

/-- The bounds of a reader, and what a read that returns 0 tells its caller. -/
theorem reader_bounds (h : Reachable s) (hb : b < s.nBuf) (htotal : s.totalResults < 2 ^ 64) :
    (s.bufs b).reader.offset ≤ (s.bufs b).reader.resultCount ∧
      readsAvailable (s.bufs b).reader =
        (s.bufs b).reader.resultCount - (s.bufs b).reader.offset ∧
      (ReadEnds s b → EndOfData s b) := by
  have hlt := Nat.lt_of_le_of_lt (resultCount_le_total h hb) htotal
  have hle := offset_le_resultCount h b hb
  exact ⟨hle, readsAvailable_eq hle hlt, endOfData_of_readEnds h hb hlt⟩

/-- After as many reads as results were counted the next one returns 0. -/
theorem reader_bounds_allRead :
    ∃ s, Reachable s ∧ (s.bufs 0).reader = ⟨32, 32⟩ ∧ ReadEnds s 0 ∧ EndOfData s 0 := by
  have hseen : seenAfter (diceWritten ++ List.replicate 32 (.read 0)) (fun s =>
      ((s.bufs 0).reader, s.nBuf, s.totalResults, (system.step s (.read 0)).isSome)) =
      some (⟨32, 32⟩, 1, 32, true) := by
    decide +kernel
  obtain ⟨s, -, hr, hf⟩ := exists_seenAfter hseen
  simp only [Prod.mk.injEq] at hf
  obtain ⟨hreader, hbuf, htotal, hread⟩ := hf
  have hend : ReadEnds s 0 := ⟨Option.isSome_iff_exists.mp hread, by rw [hreader]; rfl⟩
  have hbounds := reader_bounds hr (hbuf ▸ Nat.zero_lt_one : 0 < s.nBuf)
    (htotal ▸ (by decide : 32 < 2 ^ 64))
  exact ⟨s, hr, hreader, hend, hbounds.2.2 hend⟩

end Dicedev
