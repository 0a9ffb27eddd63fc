import Dicedev.Lib.LockPaths
import Dicedev.Worker

/-!
# The use of the spinlocks

Every operation of the driver as a program that takes and releases `slock` and `feed_lock`,
makes the calls that may sleep and branches as the source does. The data are left out: a test
may come out either way. `kfree`, `fput`, the wake-ups and the accesses to the registers
neither sleep nor take one of the two locks, and do not show.

Two operations break the rules of `slock`. `dicedev_buffer_read` copies a result to the user
while it holds the lock. `dicedev_wt_fn` calls `__task_destroy`, which takes the lock, with
the lock held when it stops with tasks left. `slock_discipline_iff` says that there is nothing
else.
-/

namespace Dicedev

open LockPaths

inductive Lock
  | slock
  | feedLock
  deriving DecidableEq, Repr

/-- The calls that may sleep. -/
inductive Sleep
  | copyToUser
  | copyFromUser
  /-- An allocation with `GFP_KERNEL`. -/
  | alloc
  | waitEvent
  | park
  deriving DecidableEq, Repr

/-- The conditions of the source. -/
inductive Test
  | allocFails
  | copyFails
  | wordsLeft
  | queueFull
  | slotTaken
  | slotBound
  | runOrFailed
  | mustSleep
  | sizeInvalid
  | allowedInvalid
  | morePages
  | initFails
  | fdFails
  | misaligned
  | noBuffer
  | outOfRange
  | otherContext
  | contextFailed
  | moreBuffers
  | tasksLeft
  | cntBelow
  | incrementInvalid
  | countInvalid
  | destroyed
  | cmdUnknown
  /-- The loop condition of `dicedev_buffer_read`. -/
  | readBlocked
  | nothingToRead
  /-- `__buff_read_result` returns an error: the page is not one of the buffer. -/
  | resultFails
  | interrupt
  | errorBits
  | fenceBit
  | runningTask
  | shouldStop
  /-- `!kthread_should_stop()`, the loop condition of `dicedev_wt_fn`. -/
  | goesOn
  | shouldPark
  | fenceReached
  | nextTask
  | fenceNone
  | event (e : WtEvent)
  | bytesLeft
  | wordBug
  | cmdNop
  | cmdGetDie
  | cmdNewSet
  | headerCut
  | slotBits
  | maskInvalid
  /-- `list_for_each_safe` over `pending_tasks` has another task. -/
  | pendingTask
  /-- `running_task` is set behind the loop of `dicedev_wt_fn`. -/
  | stillRunning
  deriving DecidableEq, Repr

abbrev LockProg := Prog Lock Test Sleep

namespace LockProg

def spinLock : LockProg := .act (.lock .slock)

def spinUnlock : LockProg := .act (.unlock .slock)

def copyFromUser : LockProg := .act (.sleep .copyFromUser)

def alloc : LockProg := .act (.sleep .alloc)

/-- `if (c) p`. -/
def when (c : Test) (p : LockProg) : LockProg := .ite c p .skip

/-- `if (c) return`. -/
def returnIf (c : Test) : LockProg := when c .ret

/-- `BUG_ON`. -/
def bugOn (c : Test) : LockProg := when c .halt

/-- `wait_event_interruptible`; the condition is evaluated before every wait. -/
def waitEvent (cond : LockProg) : LockProg :=
  .block [.act (.sleep .waitEvent), cond,
    .loop .mustSleep (.block [.act (.sleep .waitEvent), cond])]

/-! ## `dicedev_utils.c` -/

def feedCmd : LockProg :=
  .block [.act (.lock .feedLock), .loop .wordsLeft (.loop .queueFull .skip),
    .act (.unlock .feedLock)]

def bindSlot : LockProg := .block [bugOn .slotTaken, .call feedCmd]

def unbindSlot : LockProg := .block [.ite .slotBound .skip .halt, .call feedCmd]

/-- `if (buff->binded_slot != DICEDEV_BUFFER_NO_SLOT) unbind_slot(dev, buff)` under the lock. -/
def unbindLocked : LockProg :=
  .block [spinLock, when .slotBound (.call unbindSlot), spinUnlock]

/-! ## `dicedev_buffer.c` -/

def pageInit : LockProg := .block [alloc, returnIf .allocFails]

def ptInit : LockProg :=
  .block [.call pageInit, returnIf .allocFails, alloc, returnIf .allocFails,
    .loop .morePages (.block [.call pageInit, returnIf .allocFails])]

def bufferInit : LockProg :=
  .block [alloc, returnIf .allocFails, .call ptInit, returnIf .allocFails,
    -- `anon_inode_getfile`
    alloc, returnIf .allocFails]

def bufferDestroy : LockProg := unbindLocked

def wtAddTask : LockProg := .block [spinLock, spinUnlock]

/-- The end of `dicedev_buffer_write` behind `err_task`. -/
def bufferWriteFail : LockProg := .block [spinLock, spinUnlock, .ret]

def bufferWrite : LockProg :=
  .block [returnIf .countInvalid, spinLock,
    when .destroyed (.block [spinUnlock, .ret]),
    spinUnlock,
    alloc, when .allocFails bufferWriteFail,
    copyFromUser, when .copyFails bufferWriteFail,
    alloc, when .allocFails bufferWriteFail,
    .call wtAddTask, .ret]

/-- `dicedev_buffer_read` up to the end of its loop. -/
def bufferReadWait : LockProg :=
  .block [returnIf .countInvalid, spinLock,
    .loop .readBlocked (.block [spinUnlock, waitEvent .skip, spinLock])]

/-- `dicedev_buffer_read` from `copy_to_user` on. -/
def bufferReadCopy : LockProg :=
  .block [.act (.sleep .copyToUser), when .copyFails (.block [spinUnlock, .ret]),
    spinUnlock, .ret]

def bufferRead : LockProg :=
  .block [bufferReadWait,
    when .nothingToRead (.block [spinUnlock, .ret]),
    .ite .resultFails (.block [spinUnlock, .ret]) bufferReadCopy]

def bufferIoctl : LockProg :=
  .block [returnIf .noBuffer, returnIf .cmdUnknown, copyFromUser, returnIf .copyFails, .ret]

def bufferRelease : LockProg := .block [.call bufferDestroy, .ret]

/-! ## `dicedev_base.c` -/

def openCtx : LockProg := .block [alloc, returnIf .allocFails, .ret]

def release : LockProg :=
  .block [spinLock, .loop .moreBuffers .skip, spinUnlock,
    .loop .tasksLeft (waitEvent .skip),
    .loop .moreBuffers unbindLocked,
    .ret]

def ioctlCreateSet : LockProg :=
  .block [copyFromUser, returnIf .copyFails, returnIf .sizeInvalid, returnIf .allowedInvalid,
    alloc, returnIf .allocFails,
    .call bufferInit, returnIf .initFails,
    -- `get_unused_fd_flags`
    alloc, when .fdFails (.block [.call bufferDestroy, .ret]),
    .ret]

def ioctlRun : LockProg :=
  .block [copyFromUser, returnIf .copyFails, returnIf .misaligned, returnIf .noBuffer,
    returnIf .outOfRange, returnIf .otherContext, returnIf .contextFailed,
    alloc, returnIf .allocFails,
    spinLock, spinUnlock,
    .call wtAddTask, .ret]

def ioctlWait : LockProg :=
  .block [copyFromUser, returnIf .copyFails, .loop .cntBelow (waitEvent .skip),
    returnIf .contextFailed, .ret]

def ioctlSeedIncrement : LockProg :=
  .block [copyFromUser, returnIf .copyFails, returnIf .incrementInvalid,
    spinLock, spinUnlock, .ret]

def isr : LockProg :=
  .block [spinLock,
    when .interrupt (.block [
      when .errorBits (.ite .runningTask .skip .halt),
      when .fenceBit (.ite .runningTask .skip .halt)]),
    spinUnlock, .ret]

/-! ## `dicedev_wt.c` -/

def wtGetEvent : LockProg :=
  .block [returnIf .shouldStop, returnIf .shouldPark, returnIf .fenceReached,
    .ite .nextTask .skip .ret,
    .ite .fenceNone .skip .ret,
    spinLock,
    .ite .slotBound .skip (.block [spinUnlock, .ret]),
    spinUnlock, .ret]

def taskDestroy : LockProg :=
  .block [spinLock, when .slotBound (when .runOrFailed (.call unbindSlot)), spinUnlock,
    spinLock, spinUnlock]

def runTask : LockProg :=
  .block [.ite .slotBound .skip .halt,
    .loop .bytesLeft (.block [bugOn .wordBug,
      .ite .cmdNop .skip
        (.ite .cmdGetDie
          (.block [returnIf .headerCut, bugOn .wordBug, returnIf .slotBits,
            returnIf .maskInvalid, .call feedCmd])
          (.ite .cmdNewSet (.block [returnIf .slotBits, .call feedCmd]) .ret))])]

/-- The handler of an event. -/
def wtEvent : WtEvent → LockProg
  | .noEvent => waitEvent (.call wtGetEvent)
  | .stop => .skip
  | .park => .act (.sleep .park)
  | .taskGetNext => .block [spinLock, spinUnlock, when .contextFailed (.call taskDestroy)]
  | .taskBindSlot => .block [spinLock, .call bindSlot, spinUnlock]
  | .taskRun => .block [.call runTask, spinLock, .call feedCmd, spinUnlock]
  | .taskFinish => .block [.ite .runningTask .skip .halt, .call taskDestroy]

/-- The loop of `dicedev_wt_fn`. -/
def wtLoop : LockProg :=
  .loop .goesOn (.block [.call wtGetEvent,
    .ite (.event .stop) (wtEvent .stop) (.ite (.event .park) (wtEvent .park)
      (.ite (.event .noEvent) (wtEvent .noEvent)
      (.ite (.event .taskGetNext) (wtEvent .taskGetNext)
      (.ite (.event .taskBindSlot) (wtEvent .taskBindSlot)
      (.ite (.event .taskRun) (wtEvent .taskRun)
      (.ite (.event .taskFinish) (wtEvent .taskFinish) .halt))))))])

/-- `dicedev_wt_fn` behind its loop. -/
def wtShutdown : LockProg :=
  .block [spinLock, .loop .pendingTask (.call taskDestroy),
    when .stillRunning (.call taskDestroy), spinUnlock, .ret]

def wtFn : LockProg := .seq wtLoop wtShutdown

end LockProg

/-- The operations of the driver. -/
inductive Operation
  | openCtx
  | release
  | ioctlCreateSet
  | ioctlRun
  | ioctlWait
  | ioctlSeedIncrement
  | bufferWrite
  | bufferRead
  | bufferIoctl
  | bufferRelease
  | isr
  | wtEvent (e : WtEvent)
  | wtShutdown
  | wtFn
  deriving DecidableEq, Repr

def Operation.prog : Operation → LockProg
  | .openCtx => .openCtx
  | .release => .release
  | .ioctlCreateSet => .ioctlCreateSet
  | .ioctlRun => .ioctlRun
  | .ioctlWait => .ioctlWait
  | .ioctlSeedIncrement => .ioctlSeedIncrement
  | .bufferWrite => .bufferWrite
  | .bufferRead => .bufferRead
  | .bufferIoctl => .bufferIoctl
  | .bufferRelease => .bufferRelease
  | .isr => .isr
  | .wtEvent e => .wtEvent e
  | .wtShutdown => .wtShutdown
  | .wtFn => .wtFn

/-- The outcomes of tests that do not lead into a misuse of `slock`: no result is read, and no
task is left when the worker stops. -/
def harmless : Test → Bool → Bool
  | .resultFails, b => b
  | .pendingTask, b => !b
  | .stillRunning, b => !b
  | _, _ => true

def harmlessMark : Mark Lock Test Sleep → Bool
  | .act _ => true
  | .test c b => harmless c b

/-- Every test on the path has a harmless outcome. -/
def Harmless (es : List (Mark Lock Test Sleep)) : Prop := ∀ m ∈ es, harmlessMark m = true

instance (es : List (Mark Lock Test Sleep)) : Decidable (Harmless es) :=
  inferInstanceAs (Decidable (∀ m ∈ es, harmlessMark m = true))

variable {es fs : List (Mark Lock Test Sleep)} {x : Exit}

theorem Harmless.act (h : Harmless es) (a : Act Lock Sleep) : Harmless (.act a :: es) :=
  List.forall_mem_cons.mpr ⟨rfl, h⟩

theorem Harmless.test (h : Harmless es) {c : Test} {b : Bool} (hc : harmless c b = true) :
    Harmless (.test c b :: es) :=
  List.forall_mem_cons.mpr ⟨hc, h⟩

theorem Harmless.append (h : Harmless es) (h' : Harmless fs) : Harmless (es ++ fs) :=
  List.forall_mem_append.mpr ⟨h, h'⟩

/-- The checker accepts the program and finds the lock free at its ends. -/
def accepts (l : Lock) (ok : Test → Bool → Bool) (p : LockProg) : Bool :=
  (p.check l ok false).any fun r => r.done ≠ some true ∧ r.returned ≠ some true

theorem disciplined_of_accepts {l : Lock} (ok : Test → Bool → Bool) {p : LockProg}
    (ha : accepts l ok p = true) (h : Path p es x)
    (hok : ∀ c b, .test c b ∈ es → ok c b = true) : Disciplined l es x := by
  unfold accepts at ha
  cases hr : p.check l ok false with
  | none =>
    rw [hr] at ha
    cases ha
  | some r =>
    rw [hr] at ha
    obtain ⟨hdone, hret⟩ := of_decide_eq_true ha
    exact disciplined_of_check hr hdone hret h hok

/-- All operations keep the rules of `slock` on the paths with harmless tests. -/
theorem disciplined_of_harmless {op : Operation} (h : Path op.prog es x)
    (hes : Harmless es) : Disciplined .slock es x := by
  refine disciplined_of_accepts harmless ?_ h fun c b hc => hes _ hc
  cases op with
  | wtEvent e => cases e <;> decide
  | _ => decide

/-- All operations keep the rules of `feed_lock`. -/
theorem feedLock_disciplined {op : Operation} (h : Path op.prog es x) :
    Disciplined .feedLock es x := by
  refine disciplined_of_accepts (fun _ _ => true) ?_ h fun _ _ _ => rfl
  cases op with
  | wtEvent e => cases e <;> decide
  | _ => decide

/-- A program without the three tests. -/
def allHarmless (p : LockProg) : Bool := p.tests.all fun c => harmless c true && harmless c false

theorem harmless_of_path {p : LockProg} (h : Path p es x) (hp : allHarmless p = true) :
    Harmless es := by
  rintro (a | ⟨c, b⟩) hc
  · rfl
  have hboth := List.all_eq_true.mp hp c (h.mem_tests hc)
  rw [Bool.and_eq_true] at hboth
  cases b with
  | true => exact hboth.1
  | false => exact hboth.2

/-! ## The two misuses -/

/-- `copy_to_user` is called with the lock held. -/
theorem bufferReadCopy_locked (h : Path LockProg.bufferReadCopy es x) :
    held Lock.slock true es = none := by
  obtain ⟨fs, rfl, -⟩ := h.of_act_seq
  rfl

/-- On a path of `dicedev_buffer_read` no result is read, or the lock is lost. -/
theorem bufferRead_path_cases (h : Path LockProg.bufferRead es x) :
    Harmless es ∨ held Lock.slock false es = none := by
  have hwait : LockProg.bufferReadWait.check .slock harmless false =
      some ⟨some true, some false⟩ := by decide
  have hnothing : (LockProg.when .nothingToRead (.block [LockProg.spinUnlock, .ret])).check .slock
      harmless true = some ⟨some true, some false⟩ := by decide
  rcases h.of_seq with ⟨fs, gs, rfl, hfs, hgs⟩ | hearly
  · have hfs' := harmless_of_path hfs (by decide)
    obtain ⟨h₁, hheld, hdone, -⟩ := check_sound hfs (fun _ _ hc => hfs' _ hc) hwait
    obtain rfl : true = h₁ := Option.some.inj (hdone rfl)
    rw [held_append_some Lock.slock hheld]
    rcases hgs.of_seq with ⟨gs, ks, rfl, hgs, hks⟩ | hearly
    · have hgs' := harmless_of_path hgs (by decide)
      obtain ⟨h₂, hheld', hdone', -⟩ := check_sound hgs (fun _ _ hc => hgs' _ hc) hnothing
      obtain rfl : true = h₂ := Option.some.inj (hdone' rfl)
      rw [held_append_some Lock.slock hheld']
      cases hks with
      | iteTrue hp =>
        have hret := harmless_of_path hp (by decide)
        exact Or.inl (hfs'.append (hgs'.append (hret.test rfl)))
      | iteFalse hq =>
        have hlost := bufferReadCopy_locked hq
        exact Or.inr hlost
    · exact Or.inl (hfs'.append (harmless_of_path hearly (by decide)))
  · exact Or.inl (harmless_of_path hearly (by decide))

/-- `__task_destroy` must not be called with the lock held. -/
theorem taskDestroy_locked (h : Path (.call LockProg.taskDestroy) es x) :
    held Lock.slock true es = none := by
  have hlock : ∀ {y}, Path LockProg.taskDestroy es y → held Lock.slock true es = none := by
    intro y hp
    obtain ⟨fs, rfl, -⟩ := hp.of_act_seq
    rfl
  cases h with
  | call hp _ => exact hlock hp
  | callHalt hp => exact hlock hp

/-- The loop over the pending tasks does nothing, or it loses the lock. -/
theorem pendingLoop_locked (h : Path (.loop .pendingTask (.call LockProg.taskDestroy)) es x) :
    es = [.test .pendingTask false] ∨ held Lock.slock true es = none := by
  cases h with
  | loopEnd => exact Or.inl rfl
  | @loopNext _ _ _ gs _ hp _ =>
    have hlost := held_append_none Lock.slock (taskDestroy_locked hp) gs
    exact Or.inr hlost
  | loopExit hp _ =>
    have hlost := taskDestroy_locked hp
    exact Or.inr hlost

/-- On a path behind the loop of `dicedev_wt_fn` there is no task, or the lock is lost. -/
theorem wtShutdown_path_cases (h : Path LockProg.wtShutdown es x) :
    Harmless es ∨ held Lock.slock false es = none := by
  obtain ⟨fs, rfl, hfs⟩ := h.of_act_seq
  change _ ∨ held Lock.slock true fs = none
  suffices hcases : Harmless fs ∨ held Lock.slock true fs = none from
    hcases.imp_left fun hok => hok.act _
  rcases hfs.of_seq with ⟨fs, gs, rfl, hloop, hgs⟩ | hloop
  · rcases pendingLoop_locked hloop with rfl | hlost
    · rcases hgs.of_seq with ⟨gs, ks, rfl, hrun, hks⟩ | hrun
      · have hks' := harmless_of_path hks (by decide)
        cases hrun with
        | iteTrue hp =>
          have hlost := held_append_none Lock.slock (taskDestroy_locked hp) ks
          exact Or.inr hlost
        | iteFalse hq =>
          cases hq
          exact Or.inl ((hks'.test rfl).test rfl)
      · cases hrun with
        | iteTrue hp =>
          have hlost := taskDestroy_locked hp
          exact Or.inr hlost
        | iteFalse hq =>
          cases hq
          exact Or.inl (by decide)
    · exact Or.inr (held_append_none Lock.slock hlost gs)
  · rcases pendingLoop_locked hloop with rfl | hlost
    · exact Or.inl (by decide)
    · exact Or.inr hlost

theorem wtFn_path_cases (h : Path LockProg.wtFn es x) :
    Harmless es ∨ held Lock.slock false es = none := by
  have hcheck : LockProg.wtLoop.check .slock harmless false = some ⟨some false, none⟩ := by
    decide
  rcases h.of_seq with ⟨fs, gs, rfl, hfs, hgs⟩ | hearly
  · have hfs' := harmless_of_path hfs (by decide)
    obtain ⟨h₁, hheld, hdone, -⟩ := check_sound hfs (fun _ _ hc => hfs' _ hc) hcheck
    obtain rfl : false = h₁ := Option.some.inj (hdone rfl)
    rw [held_append_some Lock.slock hheld]
    exact (wtShutdown_path_cases hgs).imp_left fun hok => hfs'.append hok
  · exact Or.inl (harmless_of_path hearly (by decide))

theorem operation_path_cases {op : Operation} (h : Path op.prog es x) :
    Harmless es ∨ held Lock.slock false es = none := by
  cases op with
  | bufferRead => exact bufferRead_path_cases h
  | wtShutdown => exact wtShutdown_path_cases h
  | wtFn => exact wtFn_path_cases h
  | wtEvent e => exact Or.inl (harmless_of_path h (by cases e <;> decide))
  | _ => exact Or.inl (harmless_of_path h (by decide))

/-- On every path through every operation the rules of `slock` are kept exactly if the path
reads no result and meets no task when the worker stops. -/
theorem slock_discipline_iff {op : Operation} (h : Path op.prog es x) :
    Disciplined .slock es x ↔ Harmless es := by
  constructor
  · rintro ⟨held, hheld, -⟩
    rcases operation_path_cases h with hes | hlost
    · exact hes
    · cases hlost.symm.trans hheld
  · exact disciplined_of_harmless h

/-- A read that waits once and finds no result. -/
theorem slock_discipline_iff_emptyRead :
    ∃ es, Path Operation.bufferRead.prog es .returned ∧ Disciplined .slock es .returned := by
  have hwait : Path (LockProg.waitEvent .skip) _ .done :=
    .seq (.act _) (.seq .skip (.loopEnd _ _))
  have hloop : Path (.loop .readBlocked (.block
      [LockProg.spinUnlock, LockProg.waitEvent .skip, LockProg.spinLock])) _ .done :=
    .loopNext (.seq (.act _) (.seq hwait (.act _))) (.loopEnd _ _)
  have hread : Path Operation.bufferRead.prog _ .returned :=
    .seq (.seq (.iteFalse .skip) (.seq (.act _) hloop))
      (.seqExit (.iteTrue (.seq (.act _) .ret)) (by decide))
  exact ⟨_, hread, (slock_discipline_iff hread).mpr (by decide)⟩

/-- What `__task_destroy` does with the locks, for a task whose buffer has no slot. -/
def destroyMarks : List (Mark Lock Test Sleep) :=
  [.act (.lock .slock), .test .slotBound false, .act (.unlock .slock), .act (.lock .slock),
    .act (.unlock .slock)]

/-- The loop over `n` pending tasks. -/
def pendingMarks : Nat → List (Mark Lock Test Sleep)
  | 0 => [.test .pendingTask false]
  | n + 1 => .test .pendingTask true :: (destroyMarks ++ pendingMarks n)

/-- The path behind the loop of `dicedev_wt_fn` with `n` pending tasks. -/
def shutdownMarks (n : Nat) (running : Bool) : List (Mark Lock Test Sleep) :=
  .act (.lock .slock) :: (pendingMarks n ++
    (.test .stillRunning running :: ((if running then destroyMarks else []) ++
      [.act (.unlock .slock)])))

theorem destroyMarks_path : Path (.call LockProg.taskDestroy) destroyMarks .done :=
  .call (.seq (.act _) (.seq (.iteFalse .skip) (.seq (.act _) (.seq (.act _) (.act _)))))
    (by decide)

theorem pendingMarks_path (n : Nat) :
    Path (.loop .pendingTask (.call LockProg.taskDestroy)) (pendingMarks n) .done := by
  induction n with
  | zero => exact .loopEnd _ _
  | succ n ih => exact .loopNext destroyMarks_path ih

theorem shutdownMarks_path (n : Nat) (running : Bool) :
    Path LockProg.wtShutdown (shutdownMarks n running) .returned := by
  have hend : Path (.block [LockProg.spinUnlock, .ret]) [.act (.unlock .slock)] .returned :=
    .seq (.act _) .ret
  have hrun : Path (LockProg.when .stillRunning (.call LockProg.taskDestroy))
      (.test .stillRunning running :: if running then destroyMarks else []) .done := by
    cases running with
    | true => exact .iteTrue destroyMarks_path
    | false => exact .iteFalse .skip
  exact .seq (.act _) (.seq (pendingMarks_path n) (.seq hrun hend))

theorem shutdownMarks_disciplined_iff (n : Nat) (running : Bool) :
    Disciplined .slock (shutdownMarks n running) .returned ↔ n = 0 ∧ running = false := by
  constructor
  · rintro ⟨h, hheld, -⟩
    cases n with
    | succ n =>
      -- the first pending task is destroyed with the lock held
      have hlost : held Lock.slock false (shutdownMarks (n + 1) running) = none := rfl
      cases hlost.symm.trans hheld
    | zero =>
      cases running with
      | true => cases hheld
      | false => exact ⟨rfl, rfl⟩
  · rintro ⟨rfl, rfl⟩
    exact ⟨false, rfl, Or.inr rfl⟩

/-- The worker of the model gets to its end exactly if the path of its last step keeps the
rules. -/
theorem wtShutdown_exited_iff (s : State) :
    s.wtShutdown = .exited ↔
      Disciplined .slock (shutdownMarks s.pendingTasks.length s.runningTask.isSome) .returned := by
  rw [shutdownMarks_disciplined_iff, List.length_eq_zero_iff, Option.isSome_eq_false_iff,
    Option.isNone_iff_eq_none]
  unfold State.wtShutdown
  split
  · rename_i hnone
    exact iff_of_true rfl hnone
  · rename_i hsome
    exact iff_of_false (by decide) hsome

/-- A read of one result, and the end of the worker with one task in its queue. -/
theorem slock_misused :
    (∃ es, Path Operation.bufferRead.prog es .returned ∧ ¬ Disciplined .slock es .returned) ∧
    Path Operation.wtShutdown.prog (shutdownMarks 1 false) .returned ∧
      ¬ Disciplined .slock (shutdownMarks 1 false) .returned := by
  have hread : Path Operation.bufferRead.prog _ .returned :=
    .seq (.seq (.iteFalse .skip) (.seq (.act _) (.loopEnd _ _)))
      (.seq (.iteFalse .skip) (.iteFalse (.seq (.act _)
        (.seq (.iteFalse .skip) (.seq (.act _) .ret)))))
  refine ⟨⟨_, hread, ?_⟩, shutdownMarks_path 1 false, ?_⟩
  · rintro ⟨held, hheld, -⟩
    cases hheld
  · rintro ⟨held, hheld, -⟩
    cases hheld

end Dicedev
