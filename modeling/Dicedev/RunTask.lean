import Dicedev.Utils

/-!
# Parsing a task

`dicedev_task_get_next_word`, `dicedev_task_init_it` and one pass of the loop of
`__wt_run_task`. The loop itself is a sequence of steps of the worker, since interrupts
and releases run in between; a pass feeds at most one command.
-/

namespace Dicedev

/-- `PAGE_SIZE`. -/
def pageSize : Nat := 4096

/-- `dicedev_task_init_it`. The source also loads the page at this index, and `curr_pg` is the page;
here it is the index. `RunPages.lean` is about the indices that are out of range. -/
def taskInitIt (t : Task) : Task :=
  match t.body with
  | .write w => { t with body := .write { w with itOffset := 0 } }
  | .run r =>
    { t with
      body := .run
        { r with
          currPgNo := r.offset / pageSize
          -- the source takes the remainder by 4 here, not the index of the word
          currPgOff := (r.offset % pageSize) % 4
          currPg := r.offset / pageSize
          bytesLeft := r.size } }

/-- The page switch of `dicedev_task_get_next_word` for a RUN task. -/
def runTurnPage (r : TaskRun) : TaskRun :=
  if r.currPgOff = pageSize / 4 then
    { r with currPgOff := 0, currPgNo := r.currPgNo + 1, currPg := r.currPgNo + 1 }
  else r

/-- `dicedev_task_get_next_word`; `mem b i j` is word `j` of data page `i` of buffer `b`. -/
def taskGetNextWord (mem : BufId → Nat → Nat → Word) (t : Task) : Except Bug (Word × Task) :=
  match t.body with
  | .write w =>
    -- `cmd_size` counts bytes and the offset counts words
    if w.cmdSize = w.itOffset then .error .nextWord
    else .ok (w.cmd w.itOffset, { t with body := .write { w with itOffset := w.itOffset + 1 } })
  | .run r =>
    let r := runTurnPage r
    .ok (mem r.cBuff r.currPg r.currPgOff,
      { t with
        body := .run
          { r with bytesLeft := sizeSub r.bytesLeft 4, currPgOff := r.currPgOff + 1 } })

/-- What one pass of the loop does. -/
inductive Pass
  /-- A NOP. -/
  | skip (bytesLeft : Nat)
  /-- A command is fed; `user` is its first word before the slot was put in. -/
  | fed (words : List Word) (user : Word) (bytesLeft : Nat)
  /-- `goto err_ctx_fail`. -/
  | reject
  deriving DecidableEq, Repr

/-- The `GET_DIE` case after its mask has been read. -/
def getDiePass (allowed : Word) (slot : Option Slot) (cmd0 cmd1 : Word) (t : Task)
    (bytesLeft : Nat) : Task × Pass :=
  if cmd0 &&& getDieSlotMask ≠ 0 then (t, .reject)
  else if cmd1 &&& ~~~allowed ≠ 0 then (t, .reject)
  else
    -- the product with the number of dice goes into a local that is never read
    ({ t with resultCount := t.resultCount + (cmd0 &&& getDieNumMask).toNat },
      .fed [cmd0 ||| bindedSlotWord slot <<< 24, cmd1] cmd0 (sizeSub bytesLeft 8))

/-- The `NEW_SET` case. -/
def newSetPass (slot : Option Slot) (cmd0 : Word) (t : Task) (bytesLeft : Nat) : Task × Pass :=
  if cmd0 &&& newSetSlotMask ≠ 0 then (t, .reject)
  else (t, .fed [cmd0 ||| bindedSlotWord slot <<< 4] cmd0 (sizeSub bytesLeft 4))

/-- One pass of the loop of `__wt_run_task`, entered with `bytes_left > 0`. -/
def runTaskPass (mem : BufId → Nat → Nat → Word) (allowed : Word) (slot : Option Slot)
    (t : Task) (bytesLeft : Nat) : Except Bug (Task × Pass) :=
  match taskGetNextWord mem t with
  | .error e => .error e
  | .ok (cmd0, t) =>
    if cmd0 &&& cmdTypeMask = userCmdTypeNop then .ok (t, .skip (sizeSub bytesLeft 4))
    else if cmd0 &&& cmdTypeMask = userCmdTypeGetDie then
      -- the test is for one word, the command has two: `bytes_left` may wrap below
      if bytesLeft < 4 then .ok (t, .reject)
      else
        match taskGetNextWord mem t with
        | .error e => .error e
        | .ok (cmd1, t) => .ok (getDiePass allowed slot cmd0 cmd1 t bytesLeft)
    else if cmd0 &&& cmdTypeMask = userCmdTypeNewSet then .ok (newSetPass slot cmd0 t bytesLeft)
    else .ok (t, .reject)

/-- The `bytes_left` with which the loop starts. -/
def taskBytes (t : Task) : Nat :=
  match t.body with
  | .write w => w.cmdSize
  | .run r => r.size

end Dicedev
