import Dicedev.Buffers
import Dicedev.Iterator
import Dicedev.PageTable

/-!
# The pages that a RUN uses

`dicedev_ioctl_run` compares byte positions with `max_size`. The worker then indexes the array
`pages` of the command buffer: `dicedev_task_init_it` takes the page of the first byte, whether
or not there is anything to read, and `dicedev_task_get_next_word` takes the next page once it
needs a word from there. An accepted request leaves the array exactly if it is the empty one at
the end of a buffer that fills its last page, or that has none: `run_pages_in_range_iff`.
-/

namespace Dicedev

/-! ## Indices -/

/-- The index into `pages` that `dicedev_task_init_it` uses. -/
def initIndices (t : Task) : List Nat :=
  match t.body with
  | .write _ => []
  | .run r => [r.offset / pageSize]

/-- The index into `pages` that a call of `dicedev_task_get_next_word` uses, if it turns the
page. -/
def nextIndices (t : Task) : List Nat :=
  match t.body with
  | .write _ => []
  | .run r => if r.currPgOff = pageSize / 4 then [r.currPgNo + 1] else []

/-- The indices that `n` calls of `dicedev_task_get_next_word` use. -/
def wordsIndices (mem : BufId → Nat → Nat → Word) : Nat → Task → List Nat
  | 0, _ => []
  | n + 1, t =>
    nextIndices t ++
      match taskGetNextWord mem t with
      | .error _ => []
      | .ok (_, t) => wordsIndices mem n t

/-- The indices that a task uses: at its start, and for each of its words. -/
def taskIndices (mem : BufId → Nat → Nat → Word) (t : Task) : List Nat :=
  initIndices t ++ wordsIndices mem (taskBytes t / 4) (taskInitIt t)

variable {mem : BufId → Nat → Nat → Word} {t t' : Task} {r : TaskRun} {i k n : Nat}

/-- A call turns to the page of the word that it returns. -/
theorem nextIndices_at (hrun : t.body = .run r) (h : t.At i t') (hk : k ∈ nextIndices t') :
    k = (r.start + i) / pageWords := by
  unfold Task.At at h
  rw [hrun] at h
  obtain ⟨r', hbody, -, -, -, hpos⟩ := h
  unfold nextIndices at hk
  rw [hbody] at hk
  dsimp only at hk
  split at hk
  · rename_i hfull
    have hwords : r'.currPgOff = pageWords := hfull
    have hstart : r.start + i = (r'.currPgNo + 1) * pageWords := by
      rw [← hpos, hwords, Nat.add_mul, Nat.one_mul]
    rw [List.mem_singleton.mp hk, hstart, Nat.mul_div_cancel _ (by decide)]
  · cases hk

theorem wordsIndices_at (hrun : t.body = .run r) (h : t.At i t')
    (hk : k ∈ wordsIndices mem n t') : ∃ j < n, k = (r.start + (i + j)) / pageWords := by
  induction n generalizing i t' with
  | zero => cases hk
  | succ n ih =>
    have hpass : t.Passes i := by
      unfold Task.Passes
      rw [hrun]
      trivial
    obtain ⟨t'', hget, hat⟩ := get_at mem h hpass
    rw [wordsIndices, hget] at hk
    rcases List.mem_append.mp hk with hnext | hrest
    · exact ⟨0, Nat.succ_pos n, nextIndices_at hrun h hnext⟩
    · obtain ⟨j, hj, heq⟩ := ih hat hrest
      exact ⟨j + 1, Nat.succ_lt_succ hj, by rw [heq, Nat.add_assoc i 1 j, Nat.add_comm 1 j]⟩

/-! ## The array -/

theorem lt_numPagesFor {size : Nat} : k < numPagesFor size ↔ k * pageSize < size := by
  unfold numPagesFor dicedevPageSize pageSize
  omega

variable {s : State} {c : CtxId} {cb db : BufId} {addr size : Nat}

/-- A buffer has the pages for its size. -/
theorem numPages_reachable (h : Reachable s) :
    ∀ b < s.nBuf, (s.bufs b).numPages = numPagesFor (s.bufs b).maxSize := by
  refine buffers_reachable (P := fun s b => (s.bufs b).numPages = numPagesFor (s.bufs b).maxSize)
    ?_ ?_ h
  · intro s s' c size allowed dma _ _ hbuf
    rw [hbuf]
    rfl
  · intro s l s' b _ hs hb hI
    have hstep := BufStep.of_step (Step.of_step hs) hb
    generalize s'.bufs b = x at hstep
    cases hstep <;> exact hI

theorem ioctlRunCheck_fits (h : s.ioctlRunCheck c cb db addr size = none) :
    addr + size ≤ (s.bufs cb).maxSize := by
  unfold State.ioctlRunCheck at h
  split at h
  · cases h
  · split at h
    · cases h
    · rename_i hfits
      exact Nat.not_lt.mp hfits

/-- The words of an accepted request lie on pages of the buffer. -/
theorem word_page_lt (hr : Reachable s) (hcb : cb < s.nBuf)
    (h : s.ioctlRunCheck c cb db addr size = none) {j : Nat} (hj : j < size / 4) :
    (addr / pageSize * pageWords + addr % pageSize % 4 + j) / pageWords <
      (s.bufs cb).numPages := by
  have hfits := ioctlRunCheck_fits h
  obtain ⟨haddr, -⟩ := ioctlRunCheck_aligned h
  have hwords : pageWords = 1024 := rfl
  rw [numPages_reachable hr cb hcb, lt_numPagesFor, hwords]
  unfold pageSize
  omega

/-- An accepted request uses only pages of the command buffer exactly if it does not stand at the
end of a buffer whose size is a multiple of the page size. -/
theorem run_pages_in_range_iff (hr : Reachable s) (hcb : cb < s.nBuf)
    (h : s.ioctlRunCheck c cb db addr size = none) (mem : BufId → Nat → Nat → Word) :
    (∀ k ∈ taskIndices mem (runTask c cb db addr size), k < (s.bufs cb).numPages) ↔
      ¬ (addr = (s.bufs cb).maxSize ∧ pageSize ∣ (s.bufs cb).maxSize) := by
  have hfits := ioctlRunCheck_fits h
  have hfirst : addr / pageSize < (s.bufs cb).numPages ↔
      ¬ (addr = (s.bufs cb).maxSize ∧ pageSize ∣ (s.bufs cb).maxSize) := by
    rw [numPages_reachable hr cb hcb, lt_numPagesFor]
    unfold pageSize
    omega
  rw [← hfirst]
  constructor
  · intro hall
    exact hall _ (List.mem_append_left _ (List.mem_singleton.mpr rfl))
  · intro hlt k hk
    rcases List.mem_append.mp hk with hinit | hwords
    · rw [List.mem_singleton.mp hinit]
      exact hlt
    · obtain ⟨j, hj, rfl⟩ := wordsIndices_at rfl (at_init (runTask c cb db addr size)) hwords
      rw [Nat.zero_add]
      exact word_page_lt hr hcb h hj

/-- The second page of a buffer of two. -/
theorem run_pages_in_range_iff_secondPage :
    ∃ s, Reachable s ∧ s.ioctlRunCheck 0 0 0 4096 4096 = none ∧
      ∀ k ∈ taskIndices (fun b => (s.bufs b).page) (runTask 0 0 0 4096 4096),
        k < (s.bufs 0).numPages := by
  have hseen : seenAfter [.openCtx 7, .createSet 0 8192 0x20 0x1000]
      (fun s => (s.ioctlRunCheck 0 0 0 4096 4096, s.nBuf, (s.bufs 0).maxSize)) =
      some (none, 1, 8192) := by decide
  obtain ⟨s, -, hr, hf⟩ := exists_seenAfter hseen
  simp only [Prod.mk.injEq] at hf
  obtain ⟨hcheck, hn, hsize⟩ := hf
  have hcb : 0 < s.nBuf := by omega
  refine ⟨s, hr, hcheck, (run_pages_in_range_iff hr hcb hcheck _).mpr ?_⟩
  rw [hsize]
  decide

/-- The worker starts an empty request at the end of a buffer. -/
def endRun : List Label :=
  openOne ++ [.run 0 0 0 4096 0 false true, .runCount 0, .runQueue 0] ++ workerSteps 9

/-- The empty request at the end of a buffer of one page is accepted, and the worker takes page 1;
and one for a buffer without pages takes page 0. -/
theorem empty_run_leaves_pages :
    (∃ s r, system.exec State.probed endRun = some s ∧ (s.bufs 0).numPages = 1 ∧
        (s.tasks 0).body = .run r ∧ r.currPg = 1) ∧
      ∃ s, Reachable s ∧ s.ioctlRunCheck 0 0 0 0 0 = none ∧ (s.bufs 0).numPages = 0 ∧
        0 ∈ taskIndices (fun b => (s.bufs b).page) (runTask 0 0 0 0 0) := by
  constructor
  · have hseen : seenAfter endRun (fun s => ((s.bufs 0).numPages, match (s.tasks 0).body with
        | .write _ => none
        | .run r => some r.currPg)) = some (1, some 1) := by decide +kernel
    obtain ⟨s, hs, -, hf⟩ := exists_seenAfter hseen
    obtain ⟨hpages, hrun⟩ := Prod.mk.inj hf
    cases hbody : (s.tasks 0).body with
    | write w =>
      rw [hbody] at hrun
      cases hrun
    | run r =>
      rw [hbody] at hrun
      exact ⟨s, r, hs, hpages, hbody, Option.some.inj hrun⟩
  · have hseen : seenAfter [.openCtx 7, .createSet 0 0 0x20 0x1000]
        (fun s => (s.ioctlRunCheck 0 0 0 0 0, (s.bufs 0).numPages)) = some (none, 0) := by decide
    obtain ⟨s, -, hr, hf⟩ := exists_seenAfter hseen
    obtain ⟨hcheck, hpages⟩ := Prod.mk.inj hf
    exact ⟨s, hr, hcheck, hpages, List.mem_append_left _ (List.mem_singleton.mpr rfl)⟩

end Dicedev
