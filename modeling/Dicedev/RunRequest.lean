import Dicedev.Iterator
import Dicedev.Scope

/-!
# Requests to run

`dicedev_ioctl_run` for any descriptor table. `fdget(fd).file->private_data` is read without a
test that the descriptor is open, and its value is used as a `struct dicedev_buffer *` without a
test that the file is one of a dicedev buffer. `ioctlRunVerdict` follows the tests in their order
up to the point where the call is refused, is admitted, or reads something that is not there,
and `run_request_iff` says for which tables and requests the call does what it is for.
-/

namespace Dicedev

/-- An open file: of a dicedev buffer, of a context, or of something else, where all that
matters is whether its `private_data` is set. -/
inductive File
  | buffer (b : BufId)
  | context (c : CtxId)
  | other (n : Nat) (hasData : Bool)
  deriving DecidableEq, Repr

/-- `file->private_data != NULL`. -/
def File.hasPrivateData : File → Bool
  | .buffer _ => true
  | .context _ => true
  | .other _ hasData => hasData

/-- The buffer that `private_data` points to. -/
def File.buffer? : File → Option BufId
  | .buffer b => some b
  | .context _ => none
  | .other _ _ => none

/-- The descriptors of a process, and whether other threads share them. -/
structure FdTable where
  file : Word → Option File
  shared : Bool

/-- `struct dicedev_ioctl_run`. -/
structure RunCmd where
  cfd : Word
  addr : Word
  size : Word
  bfd : Word
  deriving DecidableEq, Repr

/-- The first test of `dicedev_ioctl_run`. -/
def RunCmd.Aligned (r : RunCmd) : Prop := r.addr.toNat % 4 = 0 ∧ r.size.toNat % 4 = 0

instance (r : RunCmd) : Decidable r.Aligned := inferInstanceAs (Decidable (_ ∧ _))

/-- How the tests of `dicedev_ioctl_run` end. -/
inductive Verdict
  /-- The call returns this error. -/
  | refused (err : Errno)
  /-- The task is allocated. -/
  | admitted (cb db : BufId) (addr size : Nat)
  /-- The `file` of a closed descriptor is `NULL`, and its `private_data` is read. -/
  | nullFile
  /-- The `private_data` of this file is used as a buffer, which it is not. -/
  | foreign (f : File)
  deriving DecidableEq, Repr

/-- How a call of `dicedev_ioctl_run` ends. -/
inductive RunEnd
  | returned (err : Option Errno) (s : State)
  | nullFile
  | foreign (f : File)
  /-- It waits for `slock`, which the stopped worker holds. -/
  | spins

namespace State

/-- `buff->ctx == ctx`, which compares addresses. -/
def ownedBy (s : State) (b : BufId) (c : CtxId) : Bool :=
  decide ((s.ctxs (s.bufs b).ctx).addr = (s.ctxs c).addr)

/-- The tests that follow once `cBuff` is known to be a buffer. -/
def ioctlRunBuffers (s : State) (c : CtxId) (cb : BufId) (df : File) (r : RunCmd) (alloc : Bool) :
    Verdict :=
  if r.addr.toNat + r.size.toNat > (s.bufs cb).maxSize then .refused .einval
  else if s.ownedBy cb c = false then .refused .einval
  else
    match df.buffer? with
    | none => .foreign df
    | some db =>
      if s.ownedBy db c = false then .refused .einval
      else if (s.ctxs c).failed then .refused .eio
      else if alloc = false then .refused .enomem
      else .admitted cb db r.addr.toNat r.size.toNat

/-- The tests that follow once both descriptors are known to be open. -/
def ioctlRunPointers (s : State) (c : CtxId) (cf df : File) (r : RunCmd) (alloc : Bool) : Verdict :=
  if cf.hasPrivateData = false ∨ df.hasPrivateData = false then .refused .einval
  else
    match cf.buffer? with
    | none => .foreign cf
    | some cb => s.ioctlRunBuffers c cb df r alloc

/-- The tests of `dicedev_ioctl_run`, in their order. The argument is `none` if it could not be
copied, and `alloc` is the answer of `kzalloc`. -/
def ioctlRunVerdict (s : State) (t : FdTable) (c : CtxId) (arg : Option RunCmd) (alloc : Bool) :
    Verdict :=
  match arg with
  | none => .refused .efault
  | some r =>
    if ¬ r.Aligned then .refused .einval
    else
      match t.file r.cfd, t.file r.bfd with
      | some cf, some df => s.ioctlRunPointers c cf df r alloc
      | _, _ => .nullFile

/-- The reference that `fdget` takes on a file of the driver. -/
def fdget (s : State) (t : FdTable) (fd : Word) : State :=
  match t.file fd with
  | some (.buffer b) => s.leakRef b t.shared
  | _ => s

/-- The state after the two `fdget`s, or before them if the call does not come to them. -/
def ioctlRunFiles (s : State) (t : FdTable) : Option RunCmd → State
  | none => s
  | some r => if r.Aligned then (s.fdget t r.cfd).fdget t r.bfd else s

/-- `dicedev_ioctl_run`, with nothing else going on. -/
def ioctlRunCall (s : State) (t : FdTable) (c : CtxId) (arg : Option RunCmd) (alloc : Bool) :
    RunEnd :=
  match s.ioctlRunVerdict t c arg alloc with
  | .refused err => .returned (some err) (s.ioctlRunFiles t arg)
  | .admitted cb db addr size =>
    if s.slockFree then
      .returned none (((s.ioctlRunFiles t arg).updCtx c fun ctx =>
        { ctx with taskCount := ctx.taskCount + 1 }).wtAddTask (runTask c cb db addr size))
    else .spins
  | .nullFile => .nullFile
  | .foreign f => .foreign f

end State

open State

variable {s s' : State} {t : FdTable} {c : CtxId} {arg : Option RunCmd} {alloc : Bool}

/-! ## What the call is for -/

/-- The request is well formed: both descriptors name buffers of the calling context, the words
lie in the command buffer, the context has not failed and there is memory for the task. -/
structure RunWellFormed (s : State) (t : FdTable) (c : CtxId) (r : RunCmd) (alloc : Bool)
    (cb db : BufId) : Prop where
  aligned : r.Aligned
  cfd : t.file r.cfd = some (.buffer cb)
  bfd : t.file r.bfd = some (.buffer db)
  cOwner : (s.bufs cb).ctx = c
  dOwner : (s.bufs db).ctx = c
  fits : r.addr.toNat + r.size.toNat ≤ (s.bufs cb).maxSize
  alive : (s.ctxs c).failed = false
  memory : alloc = true

/-- The call has queued one task, for the buffers of the request. -/
structure RunQueued (s : State) (c : CtxId) (r : RunCmd) (cb db : BufId) (s' : State) : Prop where
  pending : s'.pendingTasks = s.pendingTasks ++ [s.nTask]
  task : s'.tasks s.nTask = runTask c cb db r.addr.toNat r.size.toNat
  counted : (s'.ctxs c).taskCount = (s.ctxs c).taskCount + 1
  others : ∀ d, d ≠ c → (s'.ctxs d).taskCount = (s.ctxs d).taskCount

/-- The call has left the queue and the counters as they were. -/
structure RunKept (s s' : State) : Prop where
  pending : s'.pendingTasks = s.pendingTasks
  counts : ∀ d, (s'.ctxs d).taskCount = (s.ctxs d).taskCount

/-- A well-formed request is queued and the call returns 0; another one is refused with an error
and changes nothing. In both cases the call returns, so it has not used the `private_data` of
another file. -/
structure RunAsSpecified (s : State) (t : FdTable) (c : CtxId) (arg : Option RunCmd)
    (alloc : Bool) : Prop where
  admits : ∀ r cb db, arg = some r → RunWellFormed s t c r alloc cb db →
    ∃ s', s.ioctlRunCall t c arg alloc = .returned none s' ∧ RunQueued s c r cb db s'
  refuses : (∀ r cb db, arg = some r → ¬ RunWellFormed s t c r alloc cb db) →
    ∃ err s', s.ioctlRunCall t c arg alloc = .returned (some err) s' ∧ RunKept s s'

/-- What the second file may be once the command buffer is in order: a buffer, and if it passes
the tests as well then both are really owned by the context, and `slock` can be taken. -/
def RunHarmlessOut (s : State) (c : CtxId) (cb : BufId) (df : File) (alloc : Bool) : Prop :=
  ∃ db, df = .buffer db ∧
    (s.ownedBy db c = false ∨ (s.ctxs c).failed = true ∨ alloc = false ∨
      ((s.bufs cb).ctx = c ∧ (s.bufs db).ctx = c ∧ s.slockFree = true))

/-- The tables and requests that do no harm. An aligned request must name two open files. One of
them may have no `private_data`. If both have, then the first must be a buffer, and so must the
second unless the command buffer is too small or has another owner. -/
def RunHarmless (s : State) (t : FdTable) (c : CtxId) (arg : Option RunCmd) (alloc : Bool) :
    Prop :=
  ∀ r, arg = some r → r.Aligned →
    ∃ cf df, t.file r.cfd = some cf ∧ t.file r.bfd = some df ∧
      (cf.hasPrivateData = false ∨ df.hasPrivateData = false ∨
        ∃ cb, cf = .buffer cb ∧
          ((s.bufs cb).maxSize < r.addr.toNat + r.size.toNat ∨ s.ownedBy cb c = false ∨
            RunHarmlessOut s c cb df alloc))

/-! ## The tests -/

@[simp] theorem hasPrivateData_buffer (b : BufId) : (File.buffer b).hasPrivateData = true := rfl

@[simp] theorem buffer?_buffer (b : BufId) : (File.buffer b).buffer? = some b := rfl

theorem eq_buffer {f : File} {b : BufId} (h : f.buffer? = some b) : f = .buffer b := by
  cases f with
  | buffer => rw [Option.some_inj.mp h]
  | context | other => cases h

theorem verdict_of_open {r : RunCmd} {cf df : File} (hal : r.Aligned)
    (hcf : t.file r.cfd = some cf) (hdf : t.file r.bfd = some df) :
    s.ioctlRunVerdict t c (some r) alloc = s.ioctlRunPointers c cf df r alloc := by
  rw [ioctlRunVerdict, if_neg (not_not.mpr hal), hcf, hdf]

theorem verdict_of_closed {r : RunCmd} (hal : r.Aligned)
    (hclosed : t.file r.cfd = none ∨ t.file r.bfd = none) :
    s.ioctlRunVerdict t c (some r) alloc = .nullFile := by
  rw [ioctlRunVerdict, if_neg (not_not.mpr hal)]
  split
  · rename_i hcf hdf
    simp [hcf, hdf] at hclosed
  · rfl

/-- A buffer is owned by its context, also by the test. -/
theorem ownedBy_of_ctx {b : BufId} (h : (s.bufs b).ctx = c) : s.ownedBy b c = true := by
  rw [ownedBy, h]
  exact decide_eq_true rfl

theorem verdict_of_wellFormed {r : RunCmd} {cb db : BufId}
    (h : RunWellFormed s t c r alloc cb db) :
    s.ioctlRunVerdict t c (some r) alloc = .admitted cb db r.addr.toNat r.size.toNat := by
  rw [verdict_of_open h.aligned h.cfd h.bfd]
  simp [ioctlRunPointers, ioctlRunBuffers, h.fits, ownedBy_of_ctx h.cOwner,
    ownedBy_of_ctx h.dOwner, h.alive, h.memory]

/-! ## The call -/

theorem fdget_eq (s : State) (t : FdTable) (fd : Word) :
    s.fdget t fd = { s with bufs := (s.fdget t fd).bufs } := by
  unfold State.fdget leakRef
  split
  · split <;> rfl
  · rfl

/-- The `fdget`s touch the files only. -/
theorem ioctlRunFiles_eq (s : State) (t : FdTable) (arg : Option RunCmd) :
    s.ioctlRunFiles t arg = { s with bufs := (s.ioctlRunFiles t arg).bufs } := by
  cases arg with
  | none => rfl
  | some r =>
    unfold ioctlRunFiles
    dsimp only
    split
    · rw [fdget_eq (s.fdget t r.cfd), fdget_eq s]
    · rfl

theorem call_refused {err : Errno} (h : s.ioctlRunVerdict t c arg alloc = .refused err) :
    ∃ s', s.ioctlRunCall t c arg alloc = .returned (some err) s' ∧ RunKept s s' := by
  refine ⟨s.ioctlRunFiles t arg, ?_, ?_⟩
  · rw [ioctlRunCall, h]
  · rw [ioctlRunFiles_eq]
    exact ⟨rfl, fun _ => rfl⟩

theorem call_admitted {r : RunCmd} {cb db : BufId}
    (h : s.ioctlRunVerdict t c arg alloc = .admitted cb db r.addr.toNat r.size.toNat)
    (hfree : s.slockFree = true) :
    ∃ s', s.ioctlRunCall t c arg alloc = .returned none s' ∧ RunQueued s c r cb db s' := by
  refine ⟨_, by rw [ioctlRunCall, h]; exact if_pos hfree, ?_⟩
  rw [ioctlRunFiles_eq]
  refine ⟨rfl, Function.update_self .., ?_, ?_⟩
  · simp [wtAddTask, wakeWorker, State.log, updCtx]
  · intro d hd
    simp [wtAddTask, wakeWorker, State.log, updCtx, hd]

theorem call_spins {cb db : BufId} {addr size : Nat}
    (h : s.ioctlRunVerdict t c arg alloc = .admitted cb db addr size)
    (hfree : s.slockFree = false) : s.ioctlRunCall t c arg alloc = .spins := by
  rw [ioctlRunCall, h, hfree]
  rfl

/-- A call that does what it is for returns. -/
theorem RunAsSpecified.returns (h : RunAsSpecified s t c arg alloc) :
    ∃ err s', s.ioctlRunCall t c arg alloc = .returned err s' := by
  by_cases hwell : ∃ r cb db, arg = some r ∧ RunWellFormed s t c r alloc cb db
  · obtain ⟨r, cb, db, harg, hwell⟩ := hwell
    obtain ⟨s', hs', -⟩ := h.admits r cb db harg hwell
    exact ⟨none, s', hs'⟩
  · obtain ⟨err, s', hs', -⟩ :=
      h.refuses fun r cb db harg hw => hwell ⟨r, cb, db, harg, hw⟩
    exact ⟨some err, s', hs'⟩

/-- The second file of a call that does what it is for, when the command buffer is in order. -/
theorem RunAsSpecified.harmlessOut {r : RunCmd} {cb : BufId} {df : File}
    (h : RunAsSpecified s t c (some r) alloc) (hal : r.Aligned)
    (hcf : t.file r.cfd = some (.buffer cb)) (hdf : t.file r.bfd = some df)
    (hdata : df.hasPrivateData = true) (hfits : r.addr.toNat + r.size.toNat ≤ (s.bufs cb).maxSize)
    (hown : s.ownedBy cb c = true) : RunHarmlessOut s c cb df alloc := by
  have hverdict : s.ioctlRunVerdict t c (some r) alloc = s.ioctlRunBuffers c cb df r alloc := by
    rw [verdict_of_open hal hcf hdf, ioctlRunPointers, if_neg (by simp [hdata])]
    rfl
  obtain ⟨err, s', hret⟩ := h.returns
  cases hbuf : df.buffer? with
  | none =>
    rw [ioctlRunCall, hverdict] at hret
    simp [ioctlRunBuffers, Nat.not_lt.mpr hfits, hown, hbuf] at hret
  | some db =>
    obtain rfl := eq_buffer hbuf
    refine ⟨db, rfl, ?_⟩
    by_contra hnone
    simp only [not_or, Bool.not_eq_false, Bool.not_eq_true, not_and] at hnone
    obtain ⟨hown', hfail, halloc, hstale⟩ := hnone
    have hadm : s.ioctlRunVerdict t c (some r) alloc =
        .admitted cb db r.addr.toNat r.size.toNat := by
      rw [hverdict]
      simp [ioctlRunBuffers, Nat.not_lt.mpr hfits, hown, hown', hfail, halloc]
    cases hfree : s.slockFree with
    | false => simp [call_spins hadm hfree] at hret
    | true =>
      -- one of the two buffers only has the address of its owner in common with the context
      have hill : ∀ r' cb' db', some r = some r' → ¬ RunWellFormed s t c r' alloc cb' db' := by
        rintro r' cb' db' hr hwell
        cases hr
        have hcb : cb' = cb := by simpa [hcf] using hwell.cfd.symm
        have hdb : db' = db := by simpa [hdf] using hwell.bfd.symm
        subst hcb hdb
        exact absurd (hfree.symm.trans (hstale hwell.cOwner hwell.dOwner)) (by decide)
      obtain ⟨e, u, hu, -⟩ := h.refuses hill
      obtain ⟨v, hv, -⟩ := call_admitted hadm hfree
      cases hu.symm.trans hv

/-- A refused request of a harmless table. -/
theorem RunHarmless.refused (h : RunHarmless s t c arg alloc)
    (hill : ∀ r cb db, arg = some r → ¬ RunWellFormed s t c r alloc cb db) :
    ∃ err, s.ioctlRunVerdict t c arg alloc = .refused err := by
  cases arg with
  | none => exact ⟨.efault, rfl⟩
  | some r =>
    by_cases hal : r.Aligned
    · obtain ⟨cf, df, hcf, hdf, hfiles⟩ := h r rfl hal
      rw [verdict_of_open hal hcf hdf, ioctlRunPointers]
      split
      · exact ⟨.einval, rfl⟩
      · rename_i hdata
        obtain ⟨cb, rfl, hcb⟩ := (hfiles.resolve_left fun h => hdata (Or.inl h)).resolve_left
          fun h => hdata (Or.inr h)
        rw [buffer?_buffer]
        dsimp only
        unfold ioctlRunBuffers
        split
        · exact ⟨.einval, rfl⟩
        · rename_i hfits
          split
          · exact ⟨.einval, rfl⟩
          · rename_i hown
            obtain ⟨db, rfl, hdb⟩ := (hcb.resolve_left hfits).resolve_left hown
            rw [buffer?_buffer]
            dsimp only
            split
            · exact ⟨.einval, rfl⟩
            · rename_i hown'
              split
              · exact ⟨.eio, rfl⟩
              · rename_i hfail
                split
                · exact ⟨.enomem, rfl⟩
                · rename_i halloc
                  obtain ⟨hc, hd, -⟩ :=
                    ((hdb.resolve_left hown').resolve_left hfail).resolve_left halloc
                  refine absurd ⟨hal, hcf, hdf, hc, hd, Nat.le_of_not_lt hfits, ?_, ?_⟩
                    (hill r cb db rfl)
                  · simpa using hfail
                  · simpa using halloc
    · exact ⟨.einval, if_pos hal⟩

/-- RUN queues the well-formed requests and refuses all others exactly if the request does no
harm: a misaligned one never does, and an aligned one does unless its descriptors are open and
every `private_data` that is used is a buffer of the device. -/
theorem run_request_iff (s : State) (t : FdTable) (c : CtxId) (arg : Option RunCmd) (alloc : Bool) :
    RunAsSpecified s t c arg alloc ↔ RunHarmless s t c arg alloc := by
  constructor
  · rintro h r rfl hal
    obtain ⟨err, s', hret⟩ := h.returns
    have hopen : ∃ cf df, t.file r.cfd = some cf ∧ t.file r.bfd = some df := by
      by_contra hnone
      have hclosed : t.file r.cfd = none ∨ t.file r.bfd = none := by
        cases hcf : t.file r.cfd with
        | none => exact Or.inl rfl
        | some cf =>
          refine Or.inr (Option.eq_none_iff_forall_ne_some.mpr fun df hdf => ?_)
          exact hnone ⟨cf, df, hcf, hdf⟩
      rw [ioctlRunCall, verdict_of_closed hal hclosed] at hret
      cases hret
    obtain ⟨cf, df, hcf, hdf⟩ := hopen
    refine ⟨cf, df, hcf, hdf, ?_⟩
    by_contra hnone
    simp only [not_or, Bool.not_eq_false, not_exists, not_and] at hnone
    obtain ⟨hcdata, hddata, hbuf⟩ := hnone
    cases hcb : cf.buffer? with
    | none =>
      rw [ioctlRunCall, verdict_of_open hal hcf hdf] at hret
      simp [ioctlRunPointers, hcdata, hddata, hcb] at hret
    | some cb =>
      obtain rfl := eq_buffer hcb
      obtain ⟨hfits, hown, hout⟩ := hbuf cb rfl
      exact hout (h.harmlessOut hal hcf hdf hddata (Nat.le_of_not_lt hfits) hown)
  · intro h
    refine ⟨?_, fun hill => ?_⟩
    · rintro r cb db rfl hwell
      have hfree : s.slockFree = true := by
        obtain ⟨cf, df, hcf, hdf, hfiles⟩ := h r rfl hwell.aligned
        cases hcf.symm.trans hwell.cfd
        cases hdf.symm.trans hwell.bfd
        simpa [ownedBy_of_ctx hwell.cOwner, ownedBy_of_ctx hwell.dOwner, hwell.alive,
          hwell.memory, Nat.not_lt.mpr hwell.fits, RunHarmlessOut, hwell.cOwner,
          hwell.dOwner] using hfiles
      exact call_admitted (verdict_of_wellFormed hwell) hfree
    · obtain ⟨err, herr⟩ := h.refused hill
      obtain ⟨s', hs', hkept⟩ := call_refused herr
      exact ⟨err, s', hs', hkept⟩

/-- Descriptor 3 is open on the file of the only context, the others are closed. -/
def contextOnly : FdTable := ⟨fun fd => if fd = 3 then some (.context 0) else none, false⟩

/-- RUN of the first word of a descriptor. -/
def runFirstWord (fd : Word) : RunCmd := ⟨fd, 0, 4, fd⟩

/-- A closed descriptor makes the call read through a `NULL` pointer, and a descriptor of the
context makes it use the context as a buffer. -/
theorem run_unchecked_descriptors :
    ∃ s, system.exec probed openOne = some s ∧
      s.ioctlRunCall contextOnly 0 (some (runFirstWord 4)) true = .nullFile ∧
      ¬ RunAsSpecified s contextOnly 0 (some (runFirstWord 4)) true ∧
      s.ioctlRunCall contextOnly 0 (some (runFirstWord 3)) true = .foreign (.context 0) ∧
      ¬ RunAsSpecified s contextOnly 0 (some (runFirstWord 3)) true := by
  have hnull : ∀ s : State,
      s.ioctlRunCall contextOnly 0 (some (runFirstWord 4)) true = .nullFile := fun _ => rfl
  have hforeign : ∀ s : State,
      s.ioctlRunCall contextOnly 0 (some (runFirstWord 3)) true = .foreign (.context 0) :=
    fun _ => rfl
  refine ⟨_, rfl, hnull _, fun h => ?_, hforeign _, fun h => ?_⟩
  · obtain ⟨err, s', hret⟩ := h.returns
    cases (hnull _).symm.trans hret
  · obtain ⟨err, s', hret⟩ := h.returns
    cases (hforeign _).symm.trans hret

/-! ## The call in the system -/

/-- For two buffers the tests are those of the system. -/
theorem verdict_buffers {r : RunCmd} {cb db : BufId} (hcf : t.file r.cfd = some (.buffer cb))
    (hdf : t.file r.bfd = some (.buffer db)) :
    s.ioctlRunVerdict t c (some r) alloc =
      match s.ioctlRunCheck c cb db r.addr.toNat r.size.toNat with
      | some err => .refused err
      | none => if alloc then .admitted cb db r.addr.toNat r.size.toNat else .refused .enomem := by
  by_cases hal : r.Aligned
  · have hmis : ¬ (r.addr.toNat % 4 ≠ 0 ∨ r.size.toNat % 4 ≠ 0) := by
      simpa [RunCmd.Aligned] using hal
    rw [verdict_of_open hal hcf hdf, ioctlRunPointers, if_neg (by simp), ioctlRunCheck,
      if_neg hmis]
    simp only [buffer?_buffer, ioctlRunBuffers, ownedBy, decide_eq_false_iff_not]
    by_cases hfits : r.addr.toNat + r.size.toNat > (s.bufs cb).maxSize
    · simp [hfits]
    · by_cases hcb : (s.ctxs (s.bufs cb).ctx).addr = (s.ctxs c).addr
      · by_cases hdb : (s.ctxs (s.bufs db).ctx).addr = (s.ctxs c).addr
        · cases hfail : (s.ctxs c).failed <;> cases alloc <;> simp [hfits, hcb, hdb]
        · simp [hfits, hcb, hdb]
      · simp [hfits, hcb]
  · have hmis : r.addr.toNat % 4 ≠ 0 ∨ r.size.toNat % 4 ≠ 0 := by
      by_contra h
      exact hal (by simpa [RunCmd.Aligned] using h)
    rw [ioctlRunVerdict, if_pos hal, ioctlRunCheck, if_pos hmis]

/-- The references taken on two buffers. -/
theorem ioctlRunFiles_buffers {r : RunCmd} {cb db : BufId}
    (hcf : t.file r.cfd = some (.buffer cb)) (hdf : t.file r.bfd = some (.buffer db)) :
    s.ioctlRunFiles t (some r) =
      if r.Aligned then (s.leakRef cb t.shared).leakRef db t.shared else s := by
  simp only [ioctlRunFiles, State.fdget, hcf, hdf]

section System

variable {r : RunCmd} {cb db : BufId}

/-- The step of the system, for descriptors on two open buffers. -/
theorem run_step (alloc : Bool) (hbug : s.bug = none) (hopen : (s.ctxs c).phase = .opened)
    (hcf : t.file r.cfd = some (.buffer cb)) (hdf : t.file r.bfd = some (.buffer db))
    (hcb : 0 < (s.bufs cb).fdRefs) (hdb : 0 < (s.bufs db).fdRefs) :
    system.step s (.run c cb db r.addr r.size t.shared alloc) =
      match s.ioctlRunVerdict t c (some r) alloc with
      | .admitted _ _ addr size =>
        some ((s.ioctlRunFiles t (some r)).addCall (.run c cb db addr size false))
      | _ => some (s.ioctlRunFiles t (some r)) := by
  rw [verdict_buffers hcf hdf, ioctlRunFiles_buffers hcf hdf]
  change (if s.bug = none then s.dicedevIoctlRun c cb db r.addr r.size t.shared alloc else none) = _
  rw [if_pos hbug, dicedevIoctlRun, if_pos ⟨hopen, hcb, hdb⟩]
  by_cases hal : r.Aligned
  · have hmis : ¬ (r.addr.toNat % 4 ≠ 0 ∨ r.size.toNat % 4 ≠ 0) := by
      simpa [RunCmd.Aligned] using hal
    rw [if_neg hmis, if_pos hal]
    cases hcheck : s.ioctlRunCheck c cb db r.addr.toNat r.size.toNat with
    | some err => simp
    | none => cases alloc <;> simp
  · have hmis : r.addr.toNat % 4 ≠ 0 ∨ r.size.toNat % 4 ≠ 0 := by
      by_contra h
      exact hal (by simpa [RunCmd.Aligned] using h)
    rw [if_pos hmis, if_neg hal, ioctlRunCheck, if_pos hmis]

/-- The rest of an admitted call: `task_count` is raised and the task is queued. -/
theorem count_queue_exec {addr size : Nat} (hbug : s.bug = none) (hfree : s.slockFree = true)
    (hcall : s.calls s.nCall = none) :
    system.exec (s.addCall (.run c cb db addr size false))
      [.runCount s.nCall, .runQueue s.nCall] =
      some { (s.updCtx c fun ctx => { ctx with taskCount := ctx.taskCount + 1 }).wtAddTask
        (runTask c cb db addr size) with nCall := s.nCall + 1 } := by
  have hpc : s.pc ≠ .hung := by simpa [slockFree] using hfree
  have hcalls : Function.update s.calls s.nCall none = s.calls := by
    rw [← hcall, Function.update_eq_self]
  have hcount : system.step (s.addCall (.run c cb db addr size false)) (.runCount s.nCall) =
      some ((s.updCtx c fun ctx => { ctx with taskCount := ctx.taskCount + 1 }).addCall
        (.run c cb db addr size true)) := by
    simp [system, State.step, State.handle, ioctlRunCount, addCall, setCall, updCtx, slockFree,
      hbug, hpc]
  rw [Machine.exec, hcount]
  simp only [Machine.exec, system, State.step, State.handle, ioctlRunQueue, addCall, updCtx,
    slockFree, setCall, hbug, hpc, hcalls, Function.update_self, Function.update_idem,
    Option.bind_some, ne_eq, not_false_eq_true, decide_true, if_true]
  rfl

/-- A call on two open buffers is what the system does in its steps. -/
theorem ioctlRunCall_system {err : Option Errno} (hr : Reachable s)
    (hbug : s.bug = none) (hopen : (s.ctxs c).phase = .opened)
    (hcf : t.file r.cfd = some (.buffer cb)) (hdf : t.file r.bfd = some (.buffer db))
    (hcb : 0 < (s.bufs cb).fdRefs) (hdb : 0 < (s.bufs db).fdRefs)
    (h : s.ioctlRunCall t c (some r) alloc = .returned err s') :
    system.exec s (.run c cb db r.addr r.size t.shared alloc ::
      if err = none then [.runCount s.nCall, .runQueue s.nCall] else []) =
      some { s' with nCall := if err = none then s.nCall + 1 else s.nCall } := by
  have hstep := run_step alloc hbug hopen hcf hdf hcb hdb
  have hfiles := ioctlRunFiles_eq s t (some r)
  rw [ioctlRunCall] at h
  cases hverdict : s.ioctlRunVerdict t c (some r) alloc with
  | refused e =>
    rw [hverdict] at h hstep
    cases h
    rw [Machine.exec, hstep, hfiles]
    rfl
  | admitted cb' db' addr size =>
    have hbufs : cb' = cb ∧ db' = db := by
      rw [verdict_buffers hcf hdf] at hverdict
      split at hverdict
      · cases hverdict
      · split at hverdict
        · cases hverdict
          exact ⟨rfl, rfl⟩
        · cases hverdict
    obtain ⟨rfl, rfl⟩ := hbufs
    rw [hverdict] at h hstep
    dsimp only at h hstep
    split at h
    · rename_i hfree
      cases h
      have hcall : s.calls s.nCall = none :=
        Option.eq_none_iff_forall_ne_some.mpr fun call hcall =>
          Nat.lt_irrefl _ (Names.call_lt (scope_reachable hr) hcall)
      rw [hfiles] at hstep ⊢
      rw [Machine.exec, hstep, if_pos rfl]
      exact count_queue_exec hbug hfree hcall
    · cases h
  | nullFile =>
    rw [hverdict] at h
    cases h
  | foreign f =>
    rw [hverdict] at h
    cases h

end System

end Dicedev
