import Dicedev.ReaderBounds

/-!
# What the reads of a buffer deliver

`deliverySystem` is the driver with the calls of `dicedev_buffer_read` of any number of readers. For
every buffer it records, in the order in which the calls take the lock, what they return; the
record starts anew when the buffer is bound.

`__buff_read_result` raises the offset before it looks whether the entry is on a page, and
`copy_to_user` comes after it. So every call that finds something to read takes the next entry,
`taken_reachable`, and the entry of a call that cannot deliver it (`FailingRead`) is not
delivered to anyone: `reads_exact_iff`.
-/

namespace Dicedev

open State

/-- `struct dice`. -/
structure Dice where
  value : Word
  type : Word
  deriving DecidableEq, Repr

/-- `sizeof(struct dice)`. -/
def sizeofDice : Nat := 8

/-- The number of results on a page. -/
def dicePerPage : Nat := pageSize / sizeofDice

/-- Entry `i` of the result area: element `i % 512` of page `i / 512`. -/
def Buffer.entry (buf : Buffer) (i : Nat) : Option Dice :=
  if i / dicePerPage < buf.numPages then
    some ⟨buf.page (i / dicePerPage) (2 * (i % dicePerPage)),
      buf.page (i / dicePerPage) (2 * (i % dicePerPage) + 1)⟩
  else none

/-- `__buff_read_result`. -/
def buffReadResult (buf : Buffer) : Except Errno Dice × Buffer :=
  let off := buf.reader.offset
  let buf := { buf with reader := { buf.reader with offset := off + 1 } }
  let pageNo := off / dicePerPage
  if pageNo ≥ buf.numPages then (.error .einval, buf)
  else
    let resultPage := buf.page pageNo
    (.ok ⟨resultPage (2 * (off % dicePerPage)), resultPage (2 * (off % dicePerPage) + 1)⟩, buf)

/-- What a call of `dicedev_buffer_read` returns. -/
inductive ReadRet
  /-- `-EINVAL`: the count is not the size of a result. -/
  | einval
  /-- 0. -/
  | zero
  /-- `-EFAULT`, after the call has taken entry `i`. -/
  | efault (i : Nat)
  /-- 8, and the result is entry `i`. -/
  | dice (i : Nat) (d : Dice)
  deriving DecidableEq, Repr

namespace ReadRet

/-- The entry that the call has taken. -/
def taken? : ReadRet → Option Nat
  | .efault i => some i
  | .dice i _ => some i
  | _ => none

/-- The entry that the call has delivered. -/
def delivered? : ReadRet → Option Nat
  | .dice i _ => some i
  | _ => none

end ReadRet

/-- What `dicedev_buffer_read` returns once its loop has ended. `copied` is the answer of
`copy_to_user`. -/
def State.readRet (s : State) (b : BufId) (copied : Bool) : ReadRet :=
  let buf := s.bufs b
  if readsAvailable buf.reader = 0 then .zero
  else
    match (buffReadResult buf).1 with
    | .error _ => .efault buf.reader.offset
    | .ok d => if copied then .dice buf.reader.offset d else .efault buf.reader.offset

/-- The driver, and what the reads of a buffer have returned since it was bound. -/
structure DeliveryState where
  sys : State
  reads : BufId → List ReadRet

inductive DeliveryLabel
  | sys (l : Label)
  | read (b : BufId) (count : Nat) (copied : Bool)

def Label.isRead : Label → Bool
  | .read _ => true
  | _ => false

namespace DeliveryState

/-- A call on buffer `b` returns `r`. -/
def ret (x : DeliveryState) (b : BufId) (r : ReadRet) : DeliveryState :=
  { x with reads := Function.update x.reads b (x.reads b ++ [r]) }

/-- A step of the rest of the driver. -/
def sysTo (x : DeliveryState) (s : State) : DeliveryState :=
  let es := s.trace.drop x.sys.trace.length
  ⟨s, fun b => if es.any (Event.binds b) then [] else x.reads b⟩

/-- A call of `dicedev_buffer_read`. -/
def bufferRead (x : DeliveryState) (b : BufId) (count : Nat) (copied : Bool) :
    Option DeliveryState :=
  if x.sys.bug = none ∧ 0 < (x.sys.bufs b).fdRefs then
    if count ≠ sizeofDice then some (x.ret b .einval)
    else
      (system.step x.sys (.read b)).map fun s =>
        { x.ret b (x.sys.readRet b copied) with sys := s }
  else none

def step (x : DeliveryState) : DeliveryLabel → Option DeliveryState
  | .sys l => if l.isRead then none else (system.step x.sys l).map x.sysTo
  | .read b count copied => x.bufferRead b count copied

/-- The entries that were delivered since buffer `b` was bound. -/
def delivered (x : DeliveryState) (b : BufId) : List Nat := (x.reads b).filterMap ReadRet.delivered?

/-- The entries that were taken since buffer `b` was bound. -/
def taken (x : DeliveryState) (b : BufId) : List Nat := (x.reads b).filterMap ReadRet.taken?

end DeliveryState

/-- The driver and its readers. -/
def deliverySystem : Machine DeliveryState DeliveryLabel :=
  ⟨⟨State.probed, fun _ => []⟩, DeliveryState.step⟩

/-- A call that finds something to read and cannot deliver it: `copy_to_user` fails, or the entry
at the offset is not on a page of the buffer. -/
def FailingRead (b : BufId) (x : DeliveryState) : DeliveryLabel → Prop
  | .sys _ => False
  | .read d count copied =>
    d = b ∧ count = sizeofDice ∧ readsAvailable (x.sys.bufs b).reader ≠ 0 ∧
      ¬ (copied = true ∧ (x.sys.bufs b).reader.offset / dicePerPage < (x.sys.bufs b).numPages)

instance (b : BufId) (x : DeliveryState) (l : DeliveryLabel) : Decidable (FailingRead b x l) :=
  match l with
  | .sys _ => inferInstanceAs (Decidable False)
  | .read _ _ _ => inferInstanceAs (Decidable (_ ∧ _ ∧ _ ∧ _))

/-- How often buffer `b` has been bound. -/
def State.bindCount (s : State) (b : BufId) : Nat := s.trace.countP (Event.binds b)

/-! ## Steps -/

variable {s s' : State} {x x' : DeliveryState} {l : DeliveryLabel} {b : BufId}

/-- The offset is raised on both ways out. -/
theorem buffReadResult_snd (buf : Buffer) :
    (buffReadResult buf).2 =
      { buf with reader := { buf.reader with offset := buf.reader.offset + 1 } } := by
  unfold buffReadResult
  dsimp only
  split
  · rfl
  · rfl

/-- The step of the system is the one of `__buff_read_result`. -/
theorem read_buffReadResult (hs : system.step s (.read b) = some s')
    (havail : readsAvailable (s.bufs b).reader ≠ 0) :
    s' = { s with bufs := Function.update s.bufs b (buffReadResult (s.bufs b)).2 } := by
  obtain ⟨-, -, hs'⟩ := read_step hs
  rw [hs', if_neg havail, buffReadResult_snd]
  rfl

/-- With nothing to read a call returns 0. -/
theorem readRet_zero {copied : Bool} (havail : readsAvailable (s.bufs b).reader = 0) :
    s.readRet b copied = .zero := if_pos havail

/-- A call that finds something takes the entry at the offset. It delivers it if the entry is
on a page and can be copied. -/
theorem readRet_taken {copied : Bool} (havail : readsAvailable (s.bufs b).reader ≠ 0) :
    ¬ (copied = true ∧ (s.bufs b).reader.offset / dicePerPage < (s.bufs b).numPages) ∧
        s.readRet b copied = .efault (s.bufs b).reader.offset ∨
      (copied = true ∧ (s.bufs b).reader.offset / dicePerPage < (s.bufs b).numPages) ∧
        ∃ d, (s.bufs b).entry (s.bufs b).reader.offset = some d ∧
          s.readRet b copied = .dice (s.bufs b).reader.offset d := by
  unfold State.readRet
  dsimp only
  rw [if_neg havail]
  unfold buffReadResult
  dsimp only
  by_cases hpage : (s.bufs b).reader.offset / dicePerPage ≥ (s.bufs b).numPages
  · rw [if_pos hpage]
    exact Or.inl ⟨fun hgood => Nat.not_lt.mpr hpage hgood.2, rfl⟩
  · rw [if_neg hpage]
    have hlt := Nat.lt_of_not_le hpage
    cases copied with
    | false => exact Or.inl ⟨fun hgood => Bool.false_ne_true hgood.1, rfl⟩
    | true => exact Or.inr ⟨⟨rfl, hlt⟩, _, if_pos hlt, rfl⟩

inductive DeliveryStep (x : DeliveryState) : DeliveryLabel → DeliveryState → Prop
  | sys (l : Label) (s : State) (hl : l.isRead = false) (hs : system.step x.sys l = some s) :
      DeliveryStep x (.sys l) (x.sysTo s)
  | refused (b : BufId) (count : Nat) (copied : Bool) (hfd : 0 < (x.sys.bufs b).fdRefs)
      (hcount : count ≠ sizeofDice) :
      DeliveryStep x (.read b count copied) (x.ret b .einval)
  | read (b : BufId) (copied : Bool) (s : State) (hfd : 0 < (x.sys.bufs b).fdRefs)
      (hs : system.step x.sys (.read b) = some s) :
      DeliveryStep x (.read b sizeofDice copied) { x.ret b (x.sys.readRet b copied) with sys := s }

theorem DeliveryStep.of_step (h : deliverySystem.step x l = some x') : DeliveryStep x l x' := by
  cases l with
  | sys l =>
    change (if l.isRead then none else _) = some x' at h
    split at h
    · cases h
    · rename_i hl
      obtain ⟨s, hs, rfl⟩ := Option.map_eq_some_iff.mp h
      exact .sys l s (by simpa using hl) hs
  | read b count copied =>
    change x.bufferRead b count copied = some x' at h
    unfold DeliveryState.bufferRead at h
    split at h
    · rename_i hopen
      split at h
      · rename_i hcount
        cases h
        exact .refused b count copied hopen.2 hcount
      · rename_i hcount
        rw [not_not] at hcount
        subst hcount
        obtain ⟨s, hs, rfl⟩ := Option.map_eq_some_iff.mp h
        exact .read b copied s hopen.2 hs
    · cases h

theorem deliverySystem_sys (h : deliverySystem.Reachable x) : Reachable x.sys := by
  refine Machine.ReachableBy.project (f := DeliveryState.sys) rfl ?_ h
  intro x l x' hstep
  cases DeliveryStep.of_step hstep with
  | sys l s _ hs => exact ⟨[l], Machine.exec_cons_some.mpr ⟨s, hs, rfl⟩⟩
  | refused => exact ⟨[], rfl⟩
  | read b copied s _ hs => exact ⟨[_], Machine.exec_cons_some.mpr ⟨s, hs, rfl⟩⟩

/-! ## The entries that are taken -/

/-- The calls since the buffer was bound have taken the entries below the offset, in order. -/
structure Taken (x : DeliveryState) : Prop where
  taken : ∀ b < x.sys.nBuf, x.taken b = List.range (x.sys.bufs b).reader.offset
  fresh : ∀ b, x.sys.nBuf ≤ b → x.reads b = []

namespace Taken

/-- A step of the rest of the driver leaves the offset, or binds the buffer. -/
theorem sysTo (h : Taken x) {l : Label} (hl : l.isRead = false)
    (hs : system.step x.sys l = some s) : Taken (x.sysTo s) := by
  have hstep := Step.of_step hs
  have hkept : ∀ b, x.reads b = [] → (x.sysTo s).reads b = [] := by
    intro b hb
    change (if _ then [] else x.reads b) = []
    rw [hb, ite_self]
  have hnew : ∀ b, (s.bufs b).reader.offset = 0 → x.reads b = [] →
      (x.sysTo s).taken b = List.range (s.bufs b).reader.offset := by
    intro b hoff hb
    rw [DeliveryState.taken, hkept b hb, hoff]
    rfl
  have hold : ∀ b < x.sys.nBuf, (x.sysTo s).taken b = List.range (s.bufs b).reader.offset := by
    intro b hb
    obtain ⟨es, htrace, hreader⟩ := ReaderStep.of_step hstep hb
    have hreads : (x.sysTo s).reads b = if es.any (Event.binds b) then [] else x.reads b := by
      simp only [DeliveryState.sysTo, htrace, List.drop_left]
    rw [DeliveryState.taken, hreads]
    generalize (s.bufs b).reader = r at hreader
    cases hreader with
    | bind words => simp [Event.binds]
    | account t c hpc =>
      have hbinds : (destroyEvent t c).binds b = false := by
        cases c with
        | drop => rfl
        | finish => rfl
      simp only [List.any_cons, List.any_nil, hbinds]
      exact h.taken b hb
    | read hread => exact absurd (hread ▸ hl) (by simp [Label.isRead])
    | keep _ hquiet =>
      have hany : es.any (Event.binds b) = false := by
        simpa using fun e he => (hquiet e he).1
      rw [hany]
      exact h.taken b hb
  rcases nBuf_step hstep with hn | ⟨c, size, allowed, dma, -, hn, hbuf⟩
  · refine ⟨fun b hb => hold b (hn ▸ hb), fun b hb => hkept b (h.fresh b (hn ▸ hb))⟩
  · refine ⟨fun b hb => ?_, fun b hb => hkept b (h.fresh b ?_)⟩
    · change b < s.nBuf at hb
      rw [hn] at hb
      rcases Nat.lt_succ_iff_lt_or_eq.mp hb with hlt | heq
      · exact hold b hlt
      · rw [heq]
        refine hnew _ ?_ (h.fresh _ (Nat.le_refl _))
        rw [hbuf]
        rfl
    · change s.nBuf ≤ b at hb
      omega

/-- A call returns. -/
theorem ret (h : Taken x) {r : ReadRet} (hb : b < x.sys.nBuf) (hn : s.nBuf = x.sys.nBuf)
    (hother : ∀ d ≠ b, (s.bufs d).reader.offset = (x.sys.bufs d).reader.offset)
    (hself : List.range (x.sys.bufs b).reader.offset ++ r.taken?.toList =
      List.range (s.bufs b).reader.offset) : Taken { x.ret b r with sys := s } := by
  constructor
  · intro d hd
    change ((Function.update x.reads b _) d).filterMap _ = List.range (s.bufs d).reader.offset
    by_cases hdb : d = b
    · subst hdb
      have hold : (x.reads d).filterMap ReadRet.taken? = _ := h.taken d hb
      rw [Function.update_self, List.filterMap_append, hold, ← hself]
      cases hr : r.taken? with
      | none => simp [hr]
      | some i => simp [hr]
    · rw [Function.update_of_ne hdb, hother d hdb]
      exact h.taken d (hn ▸ hd)
  · intro d hd
    change s.nBuf ≤ d at hd
    rw [hn] at hd
    have hdb : d ≠ b := Nat.ne_of_gt (Nat.lt_of_lt_of_le hb hd)
    exact (Function.update_of_ne hdb ..).trans (h.fresh d hd)

theorem step (h : Taken x) (hr : Reachable x.sys) (hs : DeliveryStep x l x') : Taken x' := by
  cases hs with
  | sys l s hl hs => exact h.sysTo hl hs
  | refused b count copied hfd =>
    exact h.ret ((scope_reachable hr).fd_lt hfd) rfl (fun _ _ => rfl) (List.append_nil _)
  | read b copied s hfd hs =>
    have hb := (scope_reachable hr).fd_lt hfd
    by_cases havail : readsAvailable (x.sys.bufs b).reader = 0
    · obtain ⟨-, -, hs'⟩ := read_step hs
      rw [if_pos havail] at hs'
      subst hs'
      rw [readRet_zero havail]
      exact h.ret hb rfl (fun _ _ => rfl) (List.append_nil _)
    · have hs' := read_buffReadResult hs havail
      subst hs'
      refine h.ret hb rfl (fun d hd => ?_) ?_
      · exact congrArg (fun buf : Buffer => buf.reader.offset) (Function.update_of_ne hd ..)
      · have htaken : (x.sys.readRet b copied).taken? = some (x.sys.bufs b).reader.offset := by
          rcases readRet_taken havail with ⟨-, hret⟩ | ⟨-, d, -, hret⟩
          · rw [hret]
            rfl
          · rw [hret]
            rfl
        simp only [htaken, Function.update_self, buffReadResult_snd, Option.toList_some]
        exact List.range_succ.symm

end Taken

/-- The entries are taken in order, each by one call, whatever the calls return. -/
theorem taken_reachable (h : deliverySystem.Reachable x) : Taken x := by
  refine Machine.Reachable.invariant_of (fun _ hr => deliverySystem_sys hr) ?_
    (fun _ _ _ hr hI hs => hI.step hr (DeliveryStep.of_step hs)) h
  exact ⟨fun b hb => absurd hb (Nat.not_lt_zero b), fun _ _ => rfl⟩

/-! ## The entries that are delivered -/

/-- No result of buffer `b` is lost. -/
structure ReadsExact (x : DeliveryState) (b : BufId) : Prop where
  /-- The successful calls since the buffer was bound have delivered 0, 1, 2, …. -/
  inOrder : x.delivered b = List.range (x.delivered b).length
  /-- The others have left the offset. -/
  unmoved : (x.sys.bufs b).reader.offset = (x.delivered b).length
  /-- The next to succeed delivers the next entry, as it is in the result area. -/
  next : ∀ count copied x' i d, deliverySystem.step x (.read b count copied) = some x' →
    x'.reads b = x.reads b ++ [.dice i d] →
      i = (x.delivered b).length ∧ (x.sys.bufs b).entry i = some d

/-- Without a failed call what is taken is delivered. -/
theorem delivered_eq_taken (h : ∀ i, .efault i ∉ x.reads b) : x.delivered b = x.taken b := by
  refine List.filterMap_congr fun r hr => ?_
  cases r with
  | efault i => exact absurd hr (h i)
  | _ => rfl

/-- Every failed call takes an entry that is not delivered. -/
theorem delivered_lt_taken {i : Nat} (h : .efault i ∈ x.reads b) :
    (x.delivered b).length < (x.taken b).length := by
  obtain ⟨before, after, hreads⟩ := List.append_of_mem h
  have hle : ∀ rs : List ReadRet,
      (rs.filterMap ReadRet.delivered?).length ≤ (rs.filterMap ReadRet.taken?).length := by
    intro rs
    induction rs with
    | nil => exact Nat.le_refl 0
    | cons r rs ih =>
      cases r with
      | einval | zero => exact ih
      | efault i => exact Nat.le_succ_of_le ih
      | dice i d => exact Nat.succ_le_succ ih
  have hbefore := hle before
  have hafter := hle after
  simp only [DeliveryState.delivered, DeliveryState.taken, hreads, List.filterMap_append,
    List.length_append, List.filterMap_cons, ReadRet.delivered?, ReadRet.taken?, List.length_cons]
  omega

/-- A successful call delivers the entry at the offset. -/
theorem dice_entry {count : Nat} {copied : Bool} {i : Nat} {d : Dice}
    (hs : deliverySystem.step x (.read b count copied) = some x')
    (hret : x'.reads b = x.reads b ++ [.dice i d]) :
    i = (x.sys.bufs b).reader.offset ∧ (x.sys.bufs b).entry i = some d := by
  have hlast : ∀ {r : ReadRet}, Function.update x.reads b (x.reads b ++ [r]) b =
      x.reads b ++ [.dice i d] → r = .dice i d := by
    intro r hr
    rw [Function.update_self] at hr
    simpa using hr
  cases DeliveryStep.of_step hs with
  | refused => cases hlast hret
  | read _ _ s hfd hs =>
    have hdice := hlast hret
    by_cases havail : readsAvailable (x.sys.bufs b).reader = 0
    · rw [readRet_zero havail] at hdice
      cases hdice
    · rcases readRet_taken havail with ⟨-, hefault⟩ | ⟨-, d', hentry, hok⟩
      · rw [hefault] at hdice
        cases hdice
      · rw [hok] at hdice
        cases hdice
        exact ⟨rfl, hentry⟩

/-- No result is lost exactly if no call has returned `-EFAULT` since the buffer was bound. -/
theorem exact_iff_no_efault (h : deliverySystem.Reachable x) (hb : b < x.sys.nBuf) :
    ReadsExact x b ↔ ∀ i, .efault i ∉ x.reads b := by
  have htaken := (taken_reachable h).taken b hb
  constructor
  · intro hexact i hi
    have hlt := delivered_lt_taken hi
    rw [htaken, List.length_range, hexact.unmoved] at hlt
    exact Nat.lt_irrefl _ hlt
  · intro hnone
    have hdelivered := (delivered_eq_taken hnone).trans htaken
    have hlen : (x.delivered b).length = (x.sys.bufs b).reader.offset := by
      rw [hdelivered, List.length_range]
    refine ⟨?_, hlen.symm, ?_⟩
    · rw [hlen]
      exact hdelivered
    · intro count copied x' i d hs hret
      rw [hlen]
      exact dice_entry hs hret

/-! ## The calls that fail -/

/-- A call on buffer `b` has returned `-EFAULT` since the buffer was bound. -/
def DeliveryState.Faulted (x : DeliveryState) (b : BufId) : Prop := ∃ i, .efault i ∈ x.reads b

/-- A call on `d` returns `r`. -/
theorem faulted_ret {d : BufId} {r : ReadRet} :
    { x.ret d r with sys := s }.Faulted b ↔ (d = b ∧ ∃ i, r = .efault i) ∨ x.Faulted b := by
  unfold DeliveryState.Faulted
  change (∃ i, .efault i ∈ Function.update x.reads d (x.reads d ++ [r]) b) ↔ _
  by_cases hdb : b = d
  · subst hdb
    simp only [Function.update_self, List.mem_append, List.mem_singleton, exists_or, true_and,
      eq_comm (b := r)]
    exact or_comm
  · rw [Function.update_of_ne hdb, eq_false (Ne.symm hdb), false_and, false_or]

/-- What a call returns is `-EFAULT` exactly if it finds something that it cannot deliver. -/
theorem readRet_efault_iff {copied : Bool} :
    (∃ i, x.sys.readRet b copied = .efault i) ↔ FailingRead b x (.read b sizeofDice copied) := by
  constructor
  · rintro ⟨i, hi⟩
    by_cases havail : readsAvailable (x.sys.bufs b).reader = 0
    · cases (readRet_zero havail).symm.trans hi
    · rcases readRet_taken havail with ⟨hbad, -⟩ | ⟨-, d, -, hdice⟩
      · exact ⟨rfl, rfl, havail, hbad⟩
      · cases hdice.symm.trans hi
  · rintro ⟨-, -, havail, hbad⟩
    rcases readRet_taken havail with ⟨-, hefault⟩ | ⟨hgood, -⟩
    · exact ⟨_, hefault⟩
    · exact absurd hgood hbad

theorem bindCount_read (hs : system.step s (.read b) = some s') (d : BufId) :
    s'.bindCount d = s.bindCount d := by
  obtain ⟨-, -, rfl⟩ := read_step hs
  split
  · rfl
  · rfl

/-- A step of the rest of the driver binds the buffer, and its record starts anew, or it leaves
both alone. -/
theorem faulted_sysTo {l : Label} (hs : system.step x.sys l = some s) :
    x.sys.bindCount b ≤ s.bindCount b ∧
      ((x.sysTo s).Faulted b ↔ s.bindCount b = x.sys.bindCount b ∧ x.Faulted b) := by
  obtain ⟨es, htrace, -⟩ := logs_step (Step.of_step hs)
  have hcount : s.bindCount b = x.sys.bindCount b + es.countP (Event.binds b) := by
    rw [State.bindCount, htrace, List.countP_append]
    rfl
  have hreads : (x.sysTo s).reads b = if es.any (Event.binds b) then [] else x.reads b := by
    simp only [DeliveryState.sysTo, htrace, List.drop_left]
  refine ⟨Nat.le.intro hcount.symm, ?_⟩
  unfold DeliveryState.Faulted
  rw [hreads, hcount]
  by_cases hany : es.any (Event.binds b) = true
  · have hpos : 0 < es.countP (Event.binds b) :=
      List.countP_pos_iff.mpr (List.any_eq_true.mp hany)
    rw [if_pos hany]
    constructor
    · rintro ⟨i, hi⟩
      cases hi
    · intro hsame
      omega
  · have hzero : es.countP (Event.binds b) = 0 := by
      refine List.countP_eq_zero.mpr fun e he hbinds => hany ?_
      exact List.any_eq_true.mpr ⟨e, he, hbinds⟩
    rw [if_neg hany, hzero]
    exact ⟨fun hfault => ⟨rfl, hfault⟩, fun hfault => hfault.2⟩

/-- After a step a call has returned `-EFAULT` if the buffer was not bound by the step, and one
had before it or the step is a call that fails. -/
theorem faulted_step (hs : deliverySystem.step x l = some x') :
    x.sys.bindCount b ≤ x'.sys.bindCount b ∧
      (x'.Faulted b ↔ x'.sys.bindCount b = x.sys.bindCount b ∧
        (FailingRead b x l ∨ x.Faulted b)) := by
  cases DeliveryStep.of_step hs with
  | sys l s _ hsys =>
    obtain ⟨hle, hiff⟩ := faulted_sysTo (b := b) hsys
    refine ⟨hle, hiff.trans ?_⟩
    exact and_congr_right fun _ => (or_iff_right fun hfail => hfail).symm
  | refused d count copied _ hcount =>
    refine ⟨Nat.le_refl _, (faulted_ret (s := x.sys)).trans ?_⟩
    have hnot : ¬ FailingRead b x (.read d count copied) := fun hfail => hcount hfail.2.1
    have heinval : ¬ ∃ i, ReadRet.einval = .efault i := fun ⟨i, hi⟩ => by cases hi
    simp only [heinval, hnot, and_false, false_or]
    exact (and_iff_right rfl).symm
  | read d copied s _ hread =>
    have hsame : s.bindCount b = x.sys.bindCount b := bindCount_read hread b
    refine ⟨hsame.ge, faulted_ret.trans ?_⟩
    rw [readRet_efault_iff, eq_true hsame, true_and]
    refine or_congr_left ⟨?_, ?_⟩
    · rintro ⟨rfl, hfail⟩
      exact hfail
    · intro hfail
      obtain rfl : d = b := hfail.1
      exact ⟨rfl, hfail⟩

theorem bindCount_exec {ls : List DeliveryLabel} (h : deliverySystem.exec x ls = some x') :
    x.sys.bindCount b ≤ x'.sys.bindCount b :=
  Machine.exec_invariant (I := fun y => x.sys.bindCount b ≤ y.sys.bindCount b)
    (fun _ _ _ hle hs => Nat.le_trans hle (faulted_step hs).1) (Nat.le_refl _) h

/-- The calls that have returned `-EFAULT` since the buffer was bound are the failing ones of the
run that were made since then. -/
theorem faulted_exec {ls : List DeliveryLabel} (h : deliverySystem.exec x ls = some x') :
    x'.Faulted b ↔ (x.sys.bindCount b = x'.sys.bindCount b ∧ x.Faulted b) ∨
      ∃ y ∈ deliverySystem.moments (FailingRead b) x ls,
        y.sys.bindCount b = x'.sys.bindCount b := by
  induction ls generalizing x with
  | nil =>
    cases h
    simp [Machine.moments]
  | cons l ls ih =>
    obtain ⟨y, hs, hrest⟩ := Machine.exec_cons_some.mp h
    obtain ⟨hle, hstep⟩ := faulted_step (b := b) hs
    have hle' := bindCount_exec (b := b) hrest
    have hsame : y.sys.bindCount b = x'.sys.bindCount b ∧
        y.sys.bindCount b = x.sys.bindCount b ↔ x.sys.bindCount b = x'.sys.bindCount b := by
      omega
    rw [ih hrest, hstep, ← and_assoc, hsame]
    simp only [Machine.mem_moments_cons hs]
    constructor
    · rintro (⟨hcount, hfail | hfault⟩ | ⟨z, hz, hcount⟩)
      · exact Or.inr ⟨x, Or.inl ⟨hfail, rfl⟩, hcount⟩
      · exact Or.inl ⟨hcount, hfault⟩
      · exact Or.inr ⟨z, Or.inr hz, hcount⟩
    · rintro (⟨hcount, hfault⟩ | ⟨z, ⟨hfail, rfl⟩ | hz, hcount⟩)
      · exact Or.inl ⟨hcount, Or.inr hfault⟩
      · exact Or.inl ⟨hcount, Or.inl hfail⟩
      · exact Or.inr ⟨z, hz, hcount⟩

/-- No result is lost exactly if every call since the buffer was bound that found something to
read found it on a page of the buffer and could copy it to the user. -/
theorem reads_exact_iff {ls : List DeliveryLabel}
    (h : deliverySystem.exec deliverySystem.init ls = some x) (hb : b < x.sys.nBuf) :
    ReadsExact x b ↔ ∀ y ∈ deliverySystem.moments (FailingRead b) deliverySystem.init ls,
      y.sys.bindCount b ≠ x.sys.bindCount b := by
  have hinit : ¬ deliverySystem.init.Faulted b := by
    rintro ⟨i, hi⟩
    cases hi
  have hfaulted := faulted_exec (b := b) h
  rw [eq_false hinit, and_false, false_or] at hfaulted
  rw [exact_iff_no_efault (Machine.Reachable.init.exec h) hb, ← not_exists]
  change ¬ x.Faulted b ↔ _
  rw [hfaulted]
  push Not
  rfl

/-- Buffer 0 is bound and has two results. -/
def diceStored : List DeliveryLabel :=
  diceWritten.map .sys ++
    [.sys (.store 0 0 0 3), .sys (.store 0 0 1 6), .sys (.store 0 0 2 5), .sys (.store 0 0 3 6)]

/-- Two calls that succeed. -/
theorem reads_exact_iff_twoReads :
    ∃ x, deliverySystem.exec deliverySystem.init
        (diceStored ++ [.read 0 8 true, .read 0 8 true]) = some x ∧
      x.reads 0 = [.dice 0 ⟨3, 6⟩, .dice 1 ⟨5, 6⟩] ∧ ReadsExact x 0 := by
  obtain ⟨x, hx, hf⟩ := Option.map_eq_some_iff.mp
    (show (deliverySystem.exec deliverySystem.init
      (diceStored ++ [.read 0 8 true, .read 0 8 true])).map (fun x => (x.reads 0, x.sys.nBuf)) =
        some ([.dice 0 ⟨3, 6⟩, .dice 1 ⟨5, 6⟩], 1) by decide +kernel)
  simp only [Prod.mk.injEq] at hf
  have hnone : (deliverySystem.moments (FailingRead 0) deliverySystem.init
      (diceStored ++ [.read 0 8 true, .read 0 8 true])).length = 0 := by decide +kernel
  refine ⟨x, hx, hf.1, (reads_exact_iff hx (hf.2 ▸ Nat.zero_lt_one)).mpr ?_⟩
  rw [List.length_eq_zero_iff.mp hnone]
  exact fun y hy => absurd hy List.not_mem_nil

/-- After a call whose `copy_to_user` fails the next one delivers the second result; the first
is never delivered. -/
theorem failed_read_loses_result :
    ∃ x, deliverySystem.exec deliverySystem.init (diceStored ++ [.read 0 8 false, .read 0 8 true]) =
        some x ∧
      x.reads 0 = [.efault 0, .dice 1 ⟨5, 6⟩] ∧ (x.sys.bufs 0).reader.offset = 2 ∧
      ¬ ReadsExact x 0 := by
  obtain ⟨x, hx, hf⟩ := Option.map_eq_some_iff.mp
    (show (deliverySystem.exec deliverySystem.init
      (diceStored ++ [.read 0 8 false, .read 0 8 true])).map
        (fun x => (x.reads 0, (x.sys.bufs 0).reader.offset)) =
        some ([.efault 0, .dice 1 ⟨5, 6⟩], 2) by decide +kernel)
  simp only [Prod.mk.injEq] at hf
  refine ⟨x, hx, hf.1, hf.2, fun hexact => ?_⟩
  have horder := hexact.inOrder
  rw [DeliveryState.delivered, hf.1] at horder
  exact absurd horder (by decide)

end Dicedev
