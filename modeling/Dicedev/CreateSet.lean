import Dicedev.PageTable
import Dicedev.System

/-!
# Requests for a buffer

`dicedev_ioctl_create_set` with `dicedev_buffer_init`, `dicedev_buffer_get_fd` and
`dicedev_buffer_destroy`, for every request and every answer of the allocator, of
`anon_inode_getfile` and of `get_unused_fd_flags`, and with the objects they create and release.

The file of a new buffer has two references, one for its descriptor and one for the context.
Where the call fails before there is a file everything is released. Where there is no free
descriptor the call releases the buffer and keeps the file: `create_set_failure_iff`.
-/

namespace Dicedev

open Ledger

/-- What is created during a call. -/
inductive SetObj
  | buffer
  /-- `struct dicedev_page_table`. -/
  | table
  | pt (o : PtObj)
  /-- The reference of `anon_inode_getfile` (0) or of `get_file` (1) to the new file, whose
  `private_data` is the buffer. -/
  | fileRef (n : Fin 2)
  deriving DecidableEq, Repr

/-- The answers of the kernel. `file` and `fd` are the results of `anon_inode_getfile` and
`get_unused_fd_flags`; a negative number is an error. -/
structure SetEnv extends PtEnv where
  buffer : Bool
  table : Bool
  file : Int
  fd : Int

/-- `struct dicedev_ioctl_create_set`. -/
structure CreateSet where
  size : BitVec 32
  allowed : BitVec 64
  deriving DecidableEq, Repr

/-- The number that a call returns for an error. -/
def Errno.ret : Errno → Int
  | .eperm => -1
  | .eio => -5
  | .enomem => -12
  | .efault => -14
  | .einval => -22

/-- The ledger of the page table in that of the call. -/
def ptLog (log : List (Entry PtObj)) : List (Entry SetObj) := log.map (Entry.map .pt)

/-- `dicedev_buffer_init`: the page table or the error it returns, and what it does. -/
def dicedevBufferInit (env : SetEnv) (size : Nat) :
    Except Int PageTable × List (Entry SetObj) :=
  if env.table then
    match dicedevPtInit env.toPtEnv size with
    | (.error _, log) =>
      (.error Errno.enomem.ret, .acquire .table :: ptLog log ++ [.release .table])
    | (.ok pt, log) =>
      if env.file < 0 then
        (.error env.file,
          .acquire .table :: (ptLog log ++ ptLog (dicedevPtFree pt)) ++ [.release .table])
      else
        (.ok pt, .acquire .table :: ptLog log ++ [.acquire (.fileRef 0), .acquire (.fileRef 1)])
  else (.error Errno.enomem.ret, [])

/-- `dicedev_buffer_destroy` on a buffer without a slot. -/
def dicedevBufferDestroy (pt : PageTable) : List (Entry SetObj) :=
  ptLog (dicedevPtFree pt) ++ [.release .table]

namespace State

/-- What a call returns, what it does, and the state it leaves. -/
structure SetResult where
  ret : Int
  log : List (Entry SetObj)
  state : State

/-- The new buffer is put into the list of the context. -/
def addSet (s : State) (c : CtxId) (size : Nat) (allowed dma : BitVec 64) : State :=
  { s with
    bufs := Function.update s.bufs s.nBuf (newBuffer c size allowed dma)
    nBuf := s.nBuf + 1 }.updCtx c fun ctx =>
      { ctx with allocatedBuffers := s.nBuf :: ctx.allocatedBuffers }

/-- `dicedev_ioctl_create_set`; there is no request if `copy_from_user` fails. -/
def ioctlCreateSet (s : State) (c : CtxId) (cs? : Option CreateSet) (env : SetEnv) : SetResult :=
  match cs? with
  | none => ⟨Errno.efault.ret, [], s⟩
  | some cs =>
    if cs.size.toInt < 0 ∨ cs.size.toInt > maxBufferSize then ⟨Errno.einval.ret, [], s⟩
    else if cs.allowed.toNat > maxAllowed then ⟨Errno.einval.ret, [], s⟩
    else if env.buffer then
      match dicedevBufferInit env cs.size.toInt.toNat with
      | (.error _, log) =>
        ⟨Errno.enomem.ret, .acquire .buffer :: log ++ [.release .buffer], s⟩
      | (.ok pt, log) =>
        -- `dicedev_buffer_get_fd`
        if env.fd < 0 then
          ⟨env.fd, .acquire .buffer :: log ++ dicedevBufferDestroy pt ++ [.release .buffer], s⟩
        else
          ⟨env.fd, .acquire .buffer :: log,
            s.addSet c cs.size.toInt.toNat cs.allowed pt.dmaHandler⟩
    else ⟨Errno.enomem.ret, [], s⟩

end State

/-! ## How a call ends -/

/-- The request passes the checks. -/
structure CreateSet.Valid (cs : CreateSet) : Prop where
  size_nonneg : 0 ≤ cs.size.toInt
  size_le : cs.size.toInt ≤ maxBufferSize
  allowed_le : cs.allowed.toNat ≤ maxAllowed

/-- The number of bytes of a request. -/
def CreateSet.bytes (cs : CreateSet) : Nat := cs.size.toInt.toNat

/-- `dicedev_buffer_init` succeeds. -/
structure SetEnv.Ready (env : SetEnv) (size : Nat) : Prop where
  table : env.table = true
  pt : env.toPtEnv.Ready size
  file : 0 ≤ env.file

/-- The call gets to the point where it asks for a descriptor. -/
def ReachesFd (cs? : Option CreateSet) (env : SetEnv) : Prop :=
  ∃ cs, cs? = some cs ∧ cs.Valid ∧ env.buffer = true ∧ env.Ready cs.bytes

/-- What belongs to a buffer of `n` pages, in the order in which it is created. -/
def setObjs (n : Nat) : List SetObj :=
  .buffer :: .table :: (ptObjs n).map .pt ++ [.fileRef 0, .fileRef 1]

/-- What `dicedev_buffer_destroy` frees. -/
def setFreed (n : Nat) : List SetObj := (ptFreed n).map .pt ++ [.table]

variable {env : SetEnv} {size : Nat}

/-- The page table is freed where the file cannot be had. -/
theorem undone_pt {pt : PageTable} {env : PtEnv} {dma : BitVec 64}
    (h : Filled env 0 (numPagesFor size) (.empty dma size) pt) :
    Undone ((ptObjs (numPagesFor size)).map .acquire ++ dicedevPtFree pt)
      (ptObjs (numPagesFor size)) := by
  refine ⟨nodup_ptObjs _, ptFreed _, ?_, perm_ptFreed _⟩
  rw [dicedevPtFree_eq h]
  rfl

theorem pt_injective : Function.Injective SetObj.pt := fun _ _ h => SetObj.pt.inj h

/-- What `dicedev_buffer_init` leaves behind. -/
theorem dicedevBufferInit_end (env : SetEnv) (size : Nat) :
    (¬ env.Ready size ∧ (∃ e, (dicedevBufferInit env size).1 = .error e) ∧
      ∃ as, .buffer ∉ as ∧ Undone (dicedevBufferInit env size).2 as) ∨
    (env.Ready size ∧
      (∃ pt, (dicedevBufferInit env size).1 = .ok pt ∧
        dicedevBufferDestroy pt = (setFreed (numPagesFor size)).map .release) ∧
      .acquire .buffer :: (dicedevBufferInit env size).2 =
        (setObjs (numPagesFor size)).map .acquire) := by
  unfold dicedevBufferInit
  by_cases htable : env.table = true
  · rw [if_pos htable]
    have hend := dicedevPtInit_end env.toPtEnv size
    generalize dicedevPtInit env.toPtEnv size = r at hend
    obtain ⟨r, log⟩ := r
    cases r with
    | error e =>
      obtain ⟨hnot, as, hundone⟩ := hend.undone
      refine Or.inl ⟨fun h => hnot h.pt, ⟨_, rfl⟩, .table :: as.map .pt, by simp, ?_⟩
      exact (hundone.map pt_injective).wrap (by simp)
    | ok pt =>
      obtain ⟨hready, hlog, dma, hfilled⟩ := hend.ready
      dsimp only at hlog ⊢
      by_cases hfile : env.file < 0
      · rw [if_pos hfile]
        refine Or.inl ⟨fun h => absurd h.file (Int.not_le.mpr hfile), ⟨_, rfl⟩,
          .table :: (ptObjs (numPagesFor size)).map .pt, by simp, ?_⟩
        have hpt := (undone_pt hfilled).map pt_injective
        rw [List.map_append, ← hlog] at hpt
        exact hpt.wrap (by simp)
      · rw [if_neg hfile]
        refine Or.inr ⟨⟨htable, hready, Int.not_lt.mp hfile⟩, ⟨pt, rfl, ?_⟩, ?_⟩
        · rw [dicedevBufferDestroy, dicedevPtFree_eq hfilled]
          simp [setFreed, ptLog, Entry.map]
        · simp [hlog, setObjs, ptLog, Entry.map]
  · rw [if_neg htable]
    exact Or.inl ⟨fun h => htable h.table, ⟨_, rfl⟩, [], by simp, .nil⟩

/-- The ways out of `dicedev_ioctl_create_set`. -/
inductive SetEnd (s : State) (c : CtxId) (cs? : Option CreateSet) (env : SetEnv) :
    State.SetResult → Prop
  | early (e : Errno) (log : List (Entry SetObj)) (as : List SetObj) (hlog : Undone log as)
      (hnot : ¬ ReachesFd cs? env) : SetEnd s c cs? env ⟨e.ret, log, s⟩
  | noFd (n : Nat) (hfd : env.fd < 0) (hreach : ReachesFd cs? env) (log : List (Entry SetObj))
      (hlog : Phases log (setObjs n) (setFreed n ++ [SetObj.buffer])) :
      SetEnd s c cs? env ⟨env.fd, log, s⟩
  | done (cs : CreateSet) (dma : BitVec 64) (hfd : 0 ≤ env.fd) (hcs : cs? = some cs)
      (hvalid : cs.Valid) :
      SetEnd s c cs? env
        ⟨env.fd, (setObjs (numPagesFor cs.bytes)).map .acquire,
          s.addSet c cs.bytes cs.allowed dma⟩

theorem SetEnd.of_call (s : State) (c : CtxId) (cs? : Option CreateSet) (env : SetEnv) :
    SetEnd s c cs? env (s.ioctlCreateSet c cs? env) := by
  unfold State.ioctlCreateSet
  cases cs? with
  | none =>
    refine .early .efault [] [] .nil ?_
    rintro ⟨cs, hcs, -⟩
    cases hcs
  | some cs =>
    have hreach : ReachesFd (some cs) env ↔ cs.Valid ∧ env.buffer = true ∧ env.Ready cs.bytes := by
      simp [ReachesFd]
    dsimp only
    by_cases hsize : cs.size.toInt < 0 ∨ cs.size.toInt > maxBufferSize
    · rw [if_pos hsize]
      refine .early .einval [] [] .nil fun h => ?_
      have hvalid := (hreach.mp h).1
      rcases hsize with hneg | hbig
      · exact absurd hvalid.size_nonneg (Int.not_le.mpr hneg)
      · exact absurd hvalid.size_le (Int.not_le.mpr hbig)
    · rw [if_neg hsize]
      rw [not_or, Int.not_lt, Int.not_lt] at hsize
      by_cases hallowed : cs.allowed.toNat > maxAllowed
      · rw [if_pos hallowed]
        refine .early .einval [] [] .nil fun h => ?_
        exact absurd (hreach.mp h).1.allowed_le (Nat.not_le.mpr hallowed)
      · rw [if_neg hallowed]
        have hvalid : cs.Valid := ⟨hsize.1, hsize.2, Nat.not_lt.mp hallowed⟩
        by_cases hbuffer : env.buffer = true
        · rw [if_pos hbuffer]
          have hinit := dicedevBufferInit_end env cs.bytes
          unfold CreateSet.bytes at hinit
          generalize dicedevBufferInit env cs.size.toInt.toNat = r at hinit
          obtain ⟨r, log⟩ := r
          dsimp only at hinit
          rcases hinit with ⟨hnot, ⟨e, rfl⟩, as, hbuf, hundone⟩ |
              ⟨hready, ⟨pt, rfl, hdestroy⟩, hlog⟩
          · exact .early .enomem _ _ (hundone.wrap hbuf) fun h => hnot (hreach.mp h).2.2
          · dsimp only
            by_cases hfd : env.fd < 0
            · rw [if_pos hfd]
              refine .noFd (numPagesFor cs.bytes) hfd
                (hreach.mpr ⟨hvalid, hbuffer, hready⟩) _ ?_
              rw [hlog, hdestroy]
              exact ((Phases.acquires _).release _).release [SetObj.buffer]
            · rw [if_neg hfd, hlog]
              exact .done cs pt.dmaHandler (Int.not_lt.mp hfd) rfl hvalid
        · rw [if_neg hbuffer]
          exact .early .enomem [] [] .nil fun h => hbuffer (hreach.mp h).2.1

/-- An error is a negative number. -/
theorem Errno.ret_neg (e : Errno) : e.ret < 0 := by
  cases e <;> decide

theorem CreateSet.Valid.bytes_le {cs : CreateSet} (h : cs.Valid) : cs.bytes ≤ maxBufferSize := by
  have hsize := h.size_le
  unfold CreateSet.bytes
  omega

theorem CreateSet.Valid.passes {cs : CreateSet} (h : cs.Valid) :
    ¬ (cs.bytes > maxBufferSize ∨ cs.allowed.toNat > maxAllowed) := by
  rw [not_or]
  exact ⟨Nat.not_lt.mpr h.bytes_le, Nat.not_lt.mpr h.allowed_le⟩

/-- On success the call is the step of the system, and otherwise the state stays. -/
theorem ioctlCreateSet_system (s : State) (c : CtxId) (cs? : Option CreateSet) (env : SetEnv)
    (hbug : s.bug = none) (hopen : (s.ctxs c).phase = .opened) :
    ((s.ioctlCreateSet c cs? env).ret < 0 → (s.ioctlCreateSet c cs? env).state = s) ∧
      (0 ≤ (s.ioctlCreateSet c cs? env).ret → ∃ cs dma, cs? = some cs ∧
        system.step s (.createSet c cs.bytes cs.allowed dma) =
          some (s.ioctlCreateSet c cs? env).state) := by
  have hend := SetEnd.of_call s c cs? env
  generalize s.ioctlCreateSet c cs? env = r at hend
  cases hend with
  | early e => exact ⟨fun _ => rfl, fun h => absurd h (Int.not_le.mpr e.ret_neg)⟩
  | noFd n hfd => exact ⟨fun _ => rfl, fun h => absurd h (Int.not_le.mpr hfd)⟩
  | done cs dma hfd hcs hvalid =>
    refine ⟨fun h => absurd hfd (Int.not_le.mpr h), fun _ => ⟨cs, dma, hcs, ?_⟩⟩
    change (if s.bug = none then s.dicedevIoctlCreateSet c cs.bytes cs.allowed dma else none) = _
    rw [if_pos hbug, State.dicedevIoctlCreateSet, if_pos hopen, if_neg hvalid.passes]
    rfl

/-! ## A call that fails -/

/-- A call that fails leaves nothing behind. -/
structure NothingLeft (s : State) (c : CtxId) (r : State.SetResult) : Prop where
  ret : r.ret < 0
  settled : Settled r.log
  list : (r.state.ctxs c).allocatedBuffers = (s.ctxs c).allocatedBuffers
  /-- No file is left whose `private_data` is the freed buffer. -/
  file : .buffer ∈ released r.log →
    ∀ n, .fileRef n ∈ acquired r.log → .fileRef n ∈ released r.log

/-- A kernel with three data pages, which answers `fd` when asked for a descriptor. -/
def fewPages (fd : Int) : SetEnv where
  tablePage := some 0x8000
  pageArray := true
  page i := if i < 3 then some (0x10000 + BitVec.ofNat 64 (0x1000 * i)) else none
  buffer := true
  table := true
  file := 0
  fd := fd

/-- What a call for one page does if there is no free descriptor. -/
def descriptorless : List (Entry SetObj) :=
  [.acquire .buffer, .acquire .table, .acquire (.pt .tablePage), .acquire (.pt .pageArray),
    .acquire (.pt (.page 0)), .acquire (.fileRef 0), .acquire (.fileRef 1),
    .release (.pt (.page 0)), .release (.pt .pageArray), .release (.pt .tablePage),
    .release .table, .release .buffer]

end Dicedev
