import Dicedev.Failed
import Dicedev.Liveness
import Dicedev.RunLoop

/-!
# What becomes of a submission

A task that is destroyed either ran behind its own fence or was dropped, because its context had
failed. In the first case the device has got the whole translation of its words, in the second
nothing at all. As every task of a driver in service is destroyed in the end, a write to a buffer
is carried out whole or not at all: `submission_served`.
-/

namespace Dicedev

open State

variable {s s' : State} {l : Label} {t : TaskId}

/-! ## The two ends of a task -/

/-- A dropped task was never started, and never is. -/
theorem not_started_of_dropped (h : Reachable s) (ht : .dropped t ∈ s.trace) : t ∉ s.started := by
  refine entries_reachable (P := fun s e => ∀ t, e = .dropped t → t ∉ s.started)
    (fun f t hf => by cases hf) ?_ ?_ h _ ht t rfl
  · rintro s l s' hr hs e hpc t rfl hstarted
    have hdrop : s.pipeline.dropping = some t := by
      change s.pc.droppedTask = some t
      rw [show s.pc = .account t .drop from hpc]
      rfl
    rcases started_step hs with hsame | ⟨u, hstarts, -⟩
    · rw [hsame] at hstarted
      exact ((pipeline_reachable hr).started_lt t hstarted).2.2 hdrop
    · cases hstarts.pc_eq.symm.trans hpc
  · intro s l s' hr hs e hmem hnot t het hstarted
    subst het
    rcases started_step hs with hsame | ⟨u, hstarts, hmore, -⟩
    · rw [hsame] at hstarted
      exact hnot t rfl hstarted
    · rw [hmore] at hstarted
      rcases List.mem_append.mp hstarted with hold | hnew
      · exact hnot t rfl hold
      · -- the task that starts was prefetched, so it is not gone
        have hgone : t ∈ s.gone := List.mem_filterMap.mpr ⟨_, hmem, rfl⟩
        rw [List.mem_singleton] at hnew
        subst hnew
        exact not_gone_of_held hr (next_held hr hstarts.next) hgone

theorem mem_fences_step (hs : Step s l s') (ht : t ∈ s.fences) : t ∈ s'.fences := by
  rw [fences_eq] at ht ⊢
  exact mem_filterMap_step hs ht

theorem fenced_of_reached (h : Reachable s) (ht : .fenceReached t ∈ s.trace) : t ∈ s.fences := by
  refine entries_reachable (P := fun s e => ∀ t, e = .fenceReached t → t ∈ s.fences)
    (fun f t hf => by cases hf) ?_ ?_ h _ ht t rfl
  · rintro s l s' hr hs e he t rfl
    exact mem_fences_step hs (List.mem_of_getElem? he)
  · intro s l s' hr hs e _ hold t het
    exact mem_fences_step hs (hold t het)

/-- A destroyed task had its turn on the device, or its context has failed and it was not even
started. -/
theorem ends_of_gone (h : Reachable s) (ht : t ∈ s.gone) :
    t ∈ s.started ∧ t ∈ s.fences ∨ t ∉ s.started ∧ s.fails (s.sig t).ctx = true := by
  obtain ⟨e, he, het⟩ := List.mem_filterMap.mp ht
  cases e with
  | finished u =>
    cases het
    obtain ⟨pre, post, htrace⟩ := List.append_of_mem he
    have hreached := finished_behind_fence h pre t post htrace
    refine Or.inl ⟨started_of_finished h he, fenced_of_reached h ?_⟩
    rw [htrace]
    exact List.mem_append_left _ hreached
  | dropped u =>
    cases het
    exact Or.inr ⟨not_started_of_dropped h he, dropped_failed h he⟩
  | _ => cases het

/-! ## Whole runs -/

/-- The task `t` is the write of `n` bytes at `cmd`, to a buffer with the mask `allowed`. -/
structure State.Submitted (s : State) (t : TaskId) (cmd : Nat → Word) (n : Nat) (allowed : Word) :
    Prop where
  queued : t < s.nTask
  write : (s.tasks t).asQueued = writeTask (s.tasks t).ctx (s.out t) cmd n
  mask : (s.bufs (s.out t)).allowed = allowed

theorem State.Submitted.step {cmd : Nat → Word} {n : Nat} {allowed : Word} (hr : Reachable s)
    (h : s.Submitted t cmd n allowed) (hs : system.step s l = some s') :
    s'.Submitted t cmd n allowed := by
  have hstep := Step.of_step hs
  have hout := out_step hstep h.queued
  have hctx : (s'.tasks t).ctx = (s.tasks t).ctx := ctx_step hstep h.queued
  refine ⟨Nat.lt_of_lt_of_le h.queued (nTask_le_step hstep), ?_, ?_⟩
  · rw [asQueued_step hs h.queued, h.write, hout, hctx]
  · rw [hout, allowed_step hstep (out_lt hr h.queued), h.mask]

/-- In a run of a driver in service (`Served`) a write to a buffer, without a `GET_DIE` that is cut
off, is carried out in the end, whole or not at all. Either its context has failed before its turn
and nothing is fed for it, or the device has been fed the translation of all its words, and the
results counted are those of the translation. -/
theorem submission_served {r : system.Run} (h : Served r) {k : Nat} {cmd : Nat → Word}
    {ws : List Word} {allowed : Word} (ht : (r.state k).Submitted t cmd (4 * ws.length) allowed)
    (hlt : 4 * ws.length < 2 ^ 64) (hws : ∀ j < ws.length, ws[j]? = some (cmd j))
    (hcut : cutHeader allowed (fun _ => cmd) ws.length 0 0 = false) :
    ∃ j, k ≤ j ∧ ∀ i, j ≤ i →
      (r.state i).commandsOf t = [] ∧ (r.state i).fails ((r.state i).tasks t).ctx = true ∨
      ∃ slot out, parse allowed (some slot) ws = some out ∧
        (r.state i).commandsOf t = out.fed ∧
        ((r.state i).tasks t).resultCount = out.results ∧
        (t ∈ (r.state i).rejectedTasks ↔ out.failed = true) := by
  obtain ⟨j, hj, hgone⟩ := gone_eventually h ht.queued
  refine ⟨j, hj, fun i hi => ?_⟩
  have hgone' : t ∈ (r.state i).gone :=
    r.keeps (P := fun s => t ∈ s.gone) hgone
      (fun m _ hm => mem_filterMap_step (Step.of_step (r.step m)) hm) hi
  have hsub : (r.state i).Submitted t cmd (4 * ws.length) allowed :=
    r.keeps (P := fun s => s.Submitted t cmd (4 * ws.length) allowed) ht
      (fun m _ hm => hm.step (h.reachable m).reachable (r.step m)) (Nat.le_trans hj hi)
  have hfresh := fresh_of_serviceable (h.reachable i)
  rcases ends_of_gone hfresh.reachable hgone' with ⟨hstarted, hfence⟩ | ⟨hnot, hfailed⟩
  · rw [← hsub.mask] at hcut
    obtain ⟨slot, out, hparse, -, hdone⟩ :=
      translated_of_started hfresh hstarted hsub.write hlt hws hcut
    rw [hsub.mask] at hparse
    exact Or.inr ⟨slot, out, hparse, hdone hfence⟩
  · exact Or.inl ⟨((loopInv_reachable hfresh).queued t hnot).1, hfailed⟩

/-- The write of one `GET_DIE` is carried out. -/
theorem submission_served_die :
    ∃ r : system.Run, Served r ∧ ∃ cmd, (r.state 0).Submitted 0 cmd 8 0x20 ∧
      cmd 0 = 0x12 ∧ cmd 1 = 0x20 ∧ ∃ j, 0 ≤ j ∧ ∀ i, j ≤ i →
        (r.state i).commandsOf 0 = [] ∧ (r.state i).fails ((r.state i).tasks 0).ctx = true ∨
        ∃ slot out, parse 0x20 (some slot) [0x12, 0x20] = some out ∧
          (r.state i).commandsOf 0 = out.fed ∧
          ((r.state i).tasks 0).resultCount = out.results ∧
          (0 ∈ (r.state i).rejectedTasks ↔ out.failed = true) := by
  have hseen : seenBy Steady (openOne ++ writeCall 0 0 8 oneDie) (fun s =>
      ((s.nTask, (s.bufs (s.out 0)).allowed, (s.tasks 0).body.write?.any fun w =>
          decide (w.cmdSize = 8 ∧ w.cmd 0 = 0x12 ∧ w.cmd 1 = 0x20 ∧
            cutHeader 0x20 (fun _ => w.cmd) 2 0 0 = false)), decide (InService s),
        ((system.guarded Steady).exec s (workerSteps 12 ++ finishTask ++ workerSteps 3)).any
          fun u => decide u.Idle)) = some ((1, 0x20, true), true, true) := by
    decide +kernel
  obtain ⟨s, hr, hs⟩ := exists_seenBy hseen
  simp only [Prod.mk.injEq, decide_eq_true_eq, Option.any_eq_true] at hs
  obtain ⟨⟨hn, hmask, w, hw, hbytes, h₀, h₁, hcut⟩, hservice, u, hu, hidle⟩ := hs
  obtain ⟨r, rfl, hserved, -⟩ := exists_served hr hservice hu hidle
  have hsub : (r.state 0).Submitted 0 w.cmd (4 * ([0x12, 0x20] : List Word).length) 0x20 :=
    ⟨by rw [hn]; decide, asQueued_of_write (TaskBody.eq_write hw) hbytes, hmask⟩
  exact ⟨r, hserved, w.cmd, hsub, h₀, h₁,
    submission_served hserved hsub (by decide) (getElem?_pair h₀ h₁) hcut⟩

end Dicedev
