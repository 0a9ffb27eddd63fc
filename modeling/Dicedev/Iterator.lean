import Dicedev.System

/-!
# The words of a task

`dicedev_task_get_next_word` reads the words of a task one after the other; `Task.At` says
how far an iterator has come, and `get_at` what it returns next. A write returns its words in
order. A RUN goes through the pages of its command buffer, but `dicedev_task_init_it` starts
it at the beginning of the page of `addr`: it takes the remainder of the offset by 4, which is
zero, where the index of a word was meant. So a RUN reads the requested range only if the
range starts with a page, `run_reads_iff`.
-/

namespace Dicedev

/-- The number of words on a page. -/
def pageWords : Nat := pageSize / 4

/-- The index of the word at which the iterator of a RUN starts. -/
def TaskRun.start (r : TaskRun) : Nat := r.offset / pageSize * pageWords + r.offset % pageSize % 4

/-- The word with index `p` of a buffer. -/
def nthWord (mem : BufId → Nat → Nat → Word) (b : BufId) (p : Nat) : Word :=
  mem b (p / pageWords) (p % pageWords)

/-- Word `i` of a task, counted from the start of its iterator. -/
def Task.word (mem : BufId → Nat → Nat → Word) (t : Task) (i : Nat) : Word :=
  match t.body with
  | .write w => w.cmd i
  | .run r => nthWord mem r.cBuff (r.start + i)

/-- The task `t'` is the task `t` with an iterator that has read `i` words. -/
def Task.At (t : Task) (i : Nat) (t' : Task) : Prop :=
  match t.body with
  | .write w => t'.body = .write { w with itOffset := i }
  | .run r => ∃ r', t'.body = .run r' ∧ r'.cBuff = r.cBuff ∧ r'.currPg = r'.currPgNo ∧
      r'.currPgOff ≤ pageWords ∧ r'.currPgNo * pageWords + r'.currPgOff = r.start + i

/-- The `BUG_ON` of the iterator does not fire for word `i`. -/
def Task.Passes (t : Task) (i : Nat) : Prop :=
  match t.body with
  | .write w => w.cmdSize ≠ i
  | .run _ => True

variable {mem : BufId → Nat → Nat → Word} {t t' : Task} {i : Nat}

theorem at_init (t : Task) : t.At 0 (taskInitIt t) := by
  unfold Task.At taskInitIt
  cases t.body with
  | write w => rfl
  | run r =>
    have hlt : r.offset % pageSize % 4 < 4 := Nat.mod_lt _ (by decide)
    have hle : 4 ≤ pageWords := by decide
    exact ⟨_, rfl, rfl, rfl, Nat.le_trans (Nat.le_of_lt hlt) hle, (Nat.add_zero _).symm⟩

theorem Task.At.of_body (h : t.At i t') {t'' : Task} (hbody : t''.body = t'.body) :
    t.At i t'' := by
  unfold Task.At at h ⊢
  rw [hbody]
  exact h

/-- Turning the page does not move the iterator, and leaves it on a word of its page. -/
theorem turnPage_at (r : TaskRun) (hpg : r.currPg = r.currPgNo) (hoff : r.currPgOff ≤ pageWords) :
    (runTurnPage r).cBuff = r.cBuff ∧ (runTurnPage r).currPg = (runTurnPage r).currPgNo ∧
      (runTurnPage r).currPgOff < pageWords ∧
      (runTurnPage r).currPgNo * pageWords + (runTurnPage r).currPgOff =
        r.currPgNo * pageWords + r.currPgOff := by
  unfold runTurnPage
  split
  · rename_i heq
    have hfull : r.currPgOff = pageWords := heq
    have hpos : 0 < pageWords := by decide
    refine ⟨rfl, rfl, hpos, ?_⟩
    rw [hfull, Nat.add_mul, Nat.one_mul, Nat.add_zero]
  · rename_i hne
    exact ⟨rfl, hpg, Nat.lt_of_le_of_ne hoff hne, rfl⟩

/-- An iterator returns its words one after the other. -/
theorem get_at (mem : BufId → Nat → Nat → Word) (h : t.At i t') (hpass : t.Passes i) :
    ∃ t'', taskGetNextWord mem t' = .ok (t.word mem i, t'') ∧ t.At (i + 1) t'' := by
  unfold Task.At Task.Passes Task.word at *
  cases hbody : t.body with
  | write w =>
    simp only [hbody] at h hpass ⊢
    refine ⟨{ t' with body := .write { w with itOffset := i + 1 } }, ?_, rfl⟩
    unfold taskGetNextWord
    rw [h]
    exact if_neg hpass
  | run r =>
    simp only [hbody] at h ⊢
    obtain ⟨r', hrun, hbuf, hpg, hoff, hpos⟩ := h
    obtain ⟨hbuf', hpg', hoff', hpos'⟩ := turnPage_at r' hpg hoff
    have hword : mem (runTurnPage r').cBuff (runTurnPage r').currPg (runTurnPage r').currPgOff =
        nthWord mem r.cBuff (r.start + i) := by
      unfold nthWord
      rw [← hpos, ← hpos', hbuf', hbuf, hpg', Nat.mul_comm, Nat.mul_add_mod,
        Nat.mul_add_div (by decide), Nat.mod_eq_of_lt hoff', Nat.div_eq_of_lt hoff', Nat.add_zero]
    refine ⟨{ t' with
      body := .run
        { runTurnPage r' with
          bytesLeft := sizeSub (runTurnPage r').bytesLeft 4
          currPgOff := (runTurnPage r').currPgOff + 1 } }, ?_, _, rfl, hbuf'.trans hbuf, hpg',
      Nat.succ_le_of_lt hoff', ?_⟩
    · unfold taskGetNextWord
      rw [hrun, ← hword]
    · change (runTurnPage r').currPgNo * pageWords + ((runTurnPage r').currPgOff + 1) = _
      omega

/-! ## One pass over the words -/

section

variable {allowed w w' : Word} {slot : Option Slot} {t'' : Task} {left : Nat}

theorem runTaskPass_nop (hget : taskGetNextWord mem t = .ok (w, t'))
    (hw : w &&& cmdTypeMask = userCmdTypeNop) :
    runTaskPass mem allowed slot t left = .ok (t', .skip (sizeSub left 4)) := by
  unfold runTaskPass
  simp only [hget, if_pos hw]

theorem runTaskPass_getDie (hget : taskGetNextWord mem t = .ok (w, t'))
    (hw : w &&& cmdTypeMask = userCmdTypeGetDie) (hleft : ¬ left < 4)
    (hget' : taskGetNextWord mem t' = .ok (w', t'')) :
    runTaskPass mem allowed slot t left = .ok (getDiePass allowed slot w w' t'' left) := by
  have hnop : w &&& cmdTypeMask ≠ userCmdTypeNop := by
    rw [hw]
    decide
  unfold runTaskPass
  simp only [hget, if_neg hnop, if_pos hw, if_neg hleft, hget']

theorem runTaskPass_newSet (hget : taskGetNextWord mem t = .ok (w, t'))
    (hw : w &&& cmdTypeMask = userCmdTypeNewSet) :
    runTaskPass mem allowed slot t left = .ok (newSetPass slot w t' left) := by
  have hnop : w &&& cmdTypeMask ≠ userCmdTypeNop := by
    rw [hw]
    decide
  have hdie : w &&& cmdTypeMask ≠ userCmdTypeGetDie := by
    rw [hw]
    decide
  unfold runTaskPass
  simp only [hget, if_neg hnop, if_neg hdie, if_pos hw]

/-- An unknown command is rejected. -/
theorem runTaskPass_unknown (hget : taskGetNextWord mem t = .ok (w, t'))
    (hnop : w &&& cmdTypeMask ≠ userCmdTypeNop) (hdie : w &&& cmdTypeMask ≠ userCmdTypeGetDie)
    (hset : w &&& cmdTypeMask ≠ userCmdTypeNewSet) :
    runTaskPass mem allowed slot t left = .ok (t', .reject) := by
  unfold runTaskPass
  simp only [hget, if_neg hnop, if_neg hdie, if_neg hset]

end

/-! ## Reading several words -/

/-- `n` calls of `dicedev_task_get_next_word`. -/
def taskGetWords (mem : BufId → Nat → Nat → Word) : Nat → Task → Except Bug (List Word × Task)
  | 0, t => .ok ([], t)
  | n + 1, t => do
    let (w, t) ← taskGetNextWord mem t
    let (ws, t) ← taskGetWords mem n t
    .ok (w :: ws, t)

theorem getWords_at (mem : BufId → Nat → Nat → Word) {n : Nat} (h : t.At i t')
    (hpass : ∀ j < n, t.Passes (i + j)) :
    ∃ t'', taskGetWords mem n t' = .ok ((List.range n).map fun j => t.word mem (i + j), t'') := by
  induction n generalizing i t' with
  | zero => exact ⟨t', rfl⟩
  | succ n ih =>
    obtain ⟨t₁, hget, hat⟩ := get_at mem h (hpass 0 (Nat.zero_lt_succ n))
    have hrest : ∀ j < n, t.Passes (i + 1 + j) := by
      intro j hj
      have hp := hpass (j + 1) (Nat.succ_lt_succ hj)
      rwa [Nat.add_comm j 1, ← Nat.add_assoc] at hp
    obtain ⟨t₂, hwords⟩ := ih hat hrest
    refine ⟨t₂, ?_⟩
    unfold taskGetWords
    rw [hget]
    simp only [bind, Except.bind, hwords, List.range_succ_eq_map, List.map_cons, List.map_map]
    have hshift : (fun j => t.word mem (i + j)) ∘ Nat.succ = fun j => t.word mem (i + 1 + j) := by
      funext j
      simp only [Function.comp_apply, Nat.succ_eq_add_one]
      rw [Nat.add_comm j 1, ← Nat.add_assoc]
    rw [hshift]
    rfl

/-! ## The range of a RUN -/

/-- The word at byte position `pos` of a buffer. -/
def wordAt (mem : BufId → Nat → Nat → Word) (b : BufId) (pos : Nat) : Word :=
  mem b (pos / pageSize) (pos % pageSize / 4)

/-- The task that `dicedev_ioctl_run` queues. -/
def runTask (c : CtxId) (cb db : BufId) (addr size : Nat) : Task :=
  ⟨c, 0, db, .run ⟨cb, addr, size, 0, 0, 0, 0⟩, false⟩

/-- The words that a RUN reads are those of the requested range. -/
def RunReads (mem : BufId → Nat → Nat → Word) (c : CtxId) (cb db : BufId) (addr size : Nat) :
    Prop :=
  ∃ ws t', taskGetWords mem (size / 4) (taskInitIt (runTask c cb db addr size)) = .ok (ws, t') ∧
    ∀ k < size / 4, ws[k]? = some (wordAt mem cb (addr + 4 * k))

theorem nthWord_eq_wordAt (b : BufId) (p : Nat) : nthWord mem b p = wordAt mem b (4 * p) := by
  unfold nthWord wordAt
  have hdiv : 4 * p / pageSize = p / pageWords := by
    have h : pageSize = 4 * pageWords := by decide
    rw [h, Nat.mul_div_mul_left _ _ (by decide)]
  have hmod : 4 * p % pageSize / 4 = p % pageWords := by
    have h : pageSize = 4 * pageWords := by decide
    rw [h, Nat.mul_mod_mul_left, Nat.mul_div_cancel_left _ (by decide)]
  rw [hdiv, hmod]

/-- What a RUN reads: the words from the beginning of the page of `addr` on. -/
theorem runTask_words (mem : BufId → Nat → Nat → Word) (c : CtxId) (cb db : BufId)
    {addr : Nat} (size : Nat) (haddr : addr % 4 = 0) :
    ∃ t', taskGetWords mem (size / 4) (taskInitIt (runTask c cb db addr size)) =
      .ok ((List.range (size / 4)).map fun k =>
        wordAt mem cb (addr / pageSize * pageSize + 4 * k), t') := by
  obtain ⟨t', hwords⟩ := getWords_at mem (n := size / 4)
    (at_init (runTask c cb db addr size)) (fun _ _ => trivial)
  refine ⟨t', ?_⟩
  rw [hwords]
  have hstart : addr % pageSize % 4 = 0 := by
    rw [Nat.mod_mod_of_dvd _ (by decide : 4 ∣ pageSize)]
    exact haddr
  have hword : ∀ k, (runTask c cb db addr size).word mem (0 + k) =
      wordAt mem cb (addr / pageSize * pageSize + 4 * k) := by
    intro k
    change nthWord mem cb (addr / pageSize * pageWords + addr % pageSize % 4 + (0 + k)) = _
    rw [nthWord_eq_wordAt, hstart, Nat.zero_add, Nat.add_zero, Nat.mul_add]
    congr 2
    rw [Nat.mul_left_comm]
    rfl
  simp only [hword]

theorem runReads_iff {c : CtxId} {cb db : BufId} {addr size : Nat} (haddr : addr % 4 = 0) :
    RunReads mem c cb db addr size ↔ ∀ k < size / 4,
      wordAt mem cb (addr / pageSize * pageSize + 4 * k) = wordAt mem cb (addr + 4 * k) := by
  obtain ⟨t', hwords⟩ := runTask_words mem c cb db size haddr
  have hget : ∀ k < size / 4, ((List.range (size / 4)).map fun k =>
      wordAt mem cb (addr / pageSize * pageSize + 4 * k))[k]? =
        some (wordAt mem cb (addr / pageSize * pageSize + 4 * k)) := by
    intro k hk
    rw [List.getElem?_map, List.getElem?_range hk]
    rfl
  constructor
  · rintro ⟨ws, t'', hread, heq⟩ k hk
    rw [hwords] at hread
    cases hread
    have hkk := heq k hk
    rw [hget k hk] at hkk
    exact Option.some.inj hkk
  · intro heq
    refine ⟨_, t', hwords, ?_⟩
    intro k hk
    rw [hget k hk, heq k hk]

theorem ioctlRunCheck_aligned {s : State} {c : CtxId} {cb db : BufId} {addr size : Nat}
    (h : s.ioctlRunCheck c cb db addr size = none) : addr % 4 = 0 ∧ size % 4 = 0 := by
  unfold State.ioctlRunCheck at h
  split at h
  · cases h
  · rename_i haligned
    obtain ⟨haddr, hsize⟩ := not_or.mp haligned
    exact ⟨not_not.mp haddr, not_not.mp hsize⟩

/-- An accepted RUN reads the requested range exactly if the range holds the same words as the
one of its size that begins with the page of `addr`. For all contents this is so exactly if
`addr` is the beginning of a page, or nothing is read. -/
theorem run_reads_iff {s : State} {c : CtxId} {cb db : BufId} {addr size : Nat}
    (h : s.ioctlRunCheck c cb db addr size = none) :
    (∀ mem, RunReads mem c cb db addr size ↔ ∀ k < size / 4,
      wordAt mem cb (addr / pageSize * pageSize + 4 * k) = wordAt mem cb (addr + 4 * k)) ∧
    ((∀ mem, RunReads mem c cb db addr size) ↔ addr % pageSize = 0 ∨ size = 0) := by
  obtain ⟨haddr, hsize⟩ := ioctlRunCheck_aligned h
  refine ⟨fun mem => runReads_iff haddr, ?_, ?_⟩
  · intro hall
    by_contra hne
    obtain ⟨hoff, hpos⟩ := not_or.mp hne
    -- a buffer with one word that is not zero, at `addr`
    have hread := (runReads_iff haddr).mp
      (hall fun _ i j => if i = addr / pageSize ∧ j = addr % pageSize / 4 then 1 else 0) 0
      (by omega)
    have hdvd : 4 ∣ addr % pageSize := by
      rw [Nat.dvd_iff_mod_eq_zero, Nat.mod_mod_of_dvd _ (by decide : 4 ∣ pageSize)]
      exact haddr
    have hfirst : addr / pageSize * pageSize % pageSize / 4 ≠ addr % pageSize / 4 := by
      rw [Nat.mul_mod_left]
      omega
    simp only [wordAt, Nat.mul_zero, Nat.add_zero, hfirst, and_false, if_false, and_self,
      if_true] at hread
    exact absurd hread (by decide)
  · intro hcase mem
    refine (runReads_iff haddr).mpr fun k hk => ?_
    rcases hcase with hoff | hzero
    · rw [Nat.div_mul_cancel (Nat.dvd_of_mod_eq_zero hoff)]
    · rw [hzero] at hk
      exact absurd hk (Nat.not_lt_zero k)

/-- A RUN of one page of a buffer of two. -/
theorem run_reads_iff_secondPage :
    ∃ s, Reachable s ∧ s.ioctlRunCheck 0 0 0 4096 4096 = none ∧
      ∀ mem, RunReads mem 0 0 0 4096 4096 := by
  have hseen : seenAfter [.openCtx 7, .createSet 0 8192 0x20 0x1000]
      (fun s => s.ioctlRunCheck 0 0 0 4096 4096) = some none := by decide
  obtain ⟨s, -, hr, hcheck⟩ := exists_seenAfter hseen
  exact ⟨s, hr, hcheck, (run_reads_iff hcheck).2.mpr (Or.inl (by decide))⟩

/-- A RUN of the second word of a buffer reads the first. -/
theorem run_reads_first_word :
    ∃ s, system.exec State.probed (openOne ++ [.store 0 0 1 7]) = some s ∧
      s.ioctlRunCheck 0 0 0 4 4 = none ∧ ¬ RunReads (fun b => (s.bufs b).page) 0 0 0 4 4 := by
  have hseen : seenAfter (openOne ++ [.store 0 0 1 7]) (fun s => (s.ioctlRunCheck 0 0 0 4 4,
      wordAt (fun b => (s.bufs b).page) 0 0, wordAt (fun b => (s.bufs b).page) 0 4)) =
      some (none, 0, 7) := by decide
  obtain ⟨s, hs, -, hf⟩ := exists_seenAfter hseen
  simp only [Prod.mk.injEq] at hf
  obtain ⟨hcheck, hfirst, hsecond⟩ := hf
  refine ⟨s, hs, hcheck, fun hread => ?_⟩
  have hword : wordAt (fun b => (s.bufs b).page) 0 0 = wordAt (fun b => (s.bufs b).page) 0 4 :=
    (runReads_iff (by decide)).mp hread 0 (by decide)
  rw [hfirst, hsecond] at hword
  cases hword

end Dicedev
