import Dicedev.Isolation
import Dicedev.BindSlot
import Dicedev.RunLoop
import Dicedev.Memory

/-!
# What the device makes of the words

The device gets a sequence of words, without marks between the commands. `Hw` reads it word by
word, in the states of `enum processing_state`, and keeps for every slot what `BIND_SLOT` said.

* `device_follows`: at the end of every command the device is back in `NONE`, it has read exactly
  the commands that were fed, and its slots hold the masks and page tables of the buffers in
  `buff_slots`, whatever was in them before `dicedev_probe`. The buffers are identities here: when
  a context reuses an address too early, one of them may be a buffer that has been freed
  (`SlotPointers.lean`).
* `dma_live`: the device may be behind. With fresh addresses, a command of a task that it has not
  gone through yet, as no later fence has been signalled, meets in its slot the page table of a
  buffer that still exists, and asks for no dice that the slot does not allow.
-/

namespace Dicedev

open State

/-- `enum processing_state`, with the words of the command that have come. -/
inductive ProcState
  | none
  | bindSlot0 (header : Word)
  | bindSlot1 (header allowed : Word)
  | bindSlot2 (header allowed low : Word)
  | getDie0 (header : Word)
  deriving DecidableEq, Repr

/-- What the device knows about a bound slot. -/
structure SlotEntry where
  seed : BitVec 20
  allowed : Word
  dma : BitVec 64
  deriving DecidableEq, Repr

/-- The slot command in the words of a command. -/
def wordsSlotCmd? : List Word → Option (SlotTable.Cmd Slot SlotEntry)
  | [w] =>
    if w &&& cmdTypeMask = userCmdTypeUnbindSlot then some (.unbind (slotField 4 w)) else none
  | [w0, w1, w2, w3] => some (.bind (slotField 4 w0) ⟨Bits.field 12 20 w0, w1, w3 ++ w2⟩)
  | _ => none

/-- The device: where it is in a command, its slots, and the commands it has read. -/
structure Hw where
  proc : ProcState
  slots : Slot → Option SlotEntry
  done : List (List Word)

namespace Hw

/-- The end of a command. -/
def exec (d : Hw) (cmd : List Word) : Hw where
  proc := .none
  slots := (wordsSlotCmd? cmd).elim d.slots (SlotTable.Cmd.apply d.slots)
  done := d.done ++ [cmd]

/-- One word written to `CMD_MANUAL_FEED`. -/
def step (d : Hw) (w : Word) : Hw :=
  match d.proc with
  | .none =>
    if w &&& cmdTypeMask = userCmdTypeBindSlot then { d with proc := .bindSlot0 w }
    else if w &&& cmdTypeMask = userCmdTypeGetDie then { d with proc := .getDie0 w }
    else d.exec [w]
  | .bindSlot0 header => { d with proc := .bindSlot1 header w }
  | .bindSlot1 header allowed => { d with proc := .bindSlot2 header allowed w }
  | .bindSlot2 header allowed low => d.exec [header, allowed, low, w]
  | .getDie0 header => d.exec [header, w]

def run (d : Hw) (ws : List Word) : Hw := ws.foldl step d

/-- A device between two commands. -/
def idle (slots : Slot → Option SlotEntry) : Hw := ⟨.none, slots, []⟩

theorem run_append (d : Hw) (as bs : List Word) : d.run (as ++ bs) = (d.run as).run bs :=
  List.foldl_append

end Hw

/-- The slot command that the device finds in a fed command. -/
def Fed.wordCmd? (f : Fed) : Option (SlotTable.Cmd Slot SlotEntry) := wordsSlotCmd? f.words

/-- The words of a list of commands. -/
def wordsOf (fs : List Fed) : List Word := fs.flatMap Fed.words

variable {s s' : State} {l : Label}

/-! ## Whole commands -/

/-- The device reads a command from its first word to its last. -/
theorem Fed.Shaped.run {f : Fed} (h : f.Shaped) {d : Hw} (hd : d.proc = .none) :
    d.run f.words = d.exec f.words := by
  have hone : ∀ w : Word, w &&& cmdTypeMask ≠ userCmdTypeBindSlot →
      w &&& cmdTypeMask ≠ userCmdTypeGetDie → d.run [w] = d.exec [w] := by
    intro w hbind hdie
    change d.step w = _
    unfold Hw.step
    rw [hd]
    exact (if_neg hbind).trans (if_neg hdie)
  cases h with
  | probe i | unbind i => exact hone _ (by rw [type_unbind]; decide) (by rw [type_unbind]; decide)
  | bind i buf b =>
    have hfirst : d.step (userCmdBindSlotHeader (BitVec.ofNat 64 i) buf.seed) =
        { d with proc := .bindSlot0 (userCmdBindSlotHeader (BitVec.ofNat 64 i) buf.seed) } := by
      unfold Hw.step
      rw [hd]
      exact if_pos (type_bind i buf.seed)
    change Hw.run (d.step _) _ = _
    rw [hfirst]
    rfl
  | getDie t user cmd1 slot htype =>
    have hput := (type_or_shiftLeft user (bindedSlotWord slot) (by decide : 4 ≤ 24)).trans htype
    have hfirst : d.step (user ||| bindedSlotWord slot <<< 24) =
        { d with proc := .getDie0 (user ||| bindedSlotWord slot <<< 24) } := by
      unfold Hw.step
      rw [hd]
      exact (if_neg (by rw [hput]; decide)).trans (if_pos hput)
    change Hw.run (d.step _) _ = _
    rw [hfirst]
    rfl
  | newSet t user slot htype =>
    have hput := (type_or_shiftLeft user (bindedSlotWord slot) (by decide : 4 ≤ 4)).trans htype
    exact hone _ (by rw [hput]; decide) (by rw [hput]; decide)
  | fence t => exact hone _ (by decide) (by decide)

/-- The device after whole commands. -/
theorem run_wordsOf {fs : List Fed} (h : ∀ f ∈ fs, f.Shaped) {d : Hw} (hd : d.proc = .none) :
    d.run (wordsOf fs) =
      ⟨.none, SlotTable.replay d.slots (fs.filterMap Fed.wordCmd?),
        d.done ++ fs.map Fed.words⟩ := by
  induction fs generalizing d with
  | nil =>
    cases d
    subst hd
    simp [wordsOf, Hw.run, SlotTable.replay]
  | cons f fs ih =>
    have hf := (h f List.mem_cons_self).run hd
    have hsplit : wordsOf (f :: fs) = f.words ++ wordsOf fs := List.flatMap_cons
    rw [hsplit, Hw.run_append, hf, ih (fun g hg => h g (List.mem_cons_of_mem f hg)) rfl]
    unfold Hw.exec
    rw [show wordsSlotCmd? f.words = f.wordCmd? from rfl, List.map_cons, List.append_assoc]
    cases hcmd : f.wordCmd? with
    | none =>
      rw [List.filterMap_cons_none hcmd]
      rfl
    | some c =>
      rw [List.filterMap_cons_some hcmd]
      rfl

/-! ## What a step feeds -/

/-- The commands that a step may feed. -/
inductive State.Feeds (s : State) : Fed → Prop
  | bind (t : TaskId) (i : Slot) (hnext : s.nextTask = some t) :
      s.Feeds ⟨bindCmd i (s.bufs (s.out t)), .bind (s.out t)⟩
  | unbind (i : Slot) (b : BufId) : s.Feeds ⟨unbindCmd i, .unbind b⟩
  | task (t : TaskId) (left left' : Nat) (task : Task) (words : List Word) (user : Word)
      (hpc : s.pc = .running left) (hrun : s.runningTask = some t)
      (hpass : s.passOf t left = .ok (task, .fed words user left')) :
      s.Feeds ⟨words, .task t user (s.bufs (s.out t)).bindedSlot⟩
  | fence (t : TaskId) : s.Feeds ⟨[userCmdFenceHeader taskFenceVal], .fence t⟩

/-- A step feeds at most one command. -/
theorem stream_step (hs : Step s l s') :
    s'.stream = s.stream ∨ ∃ f, s.Feeds f ∧ s'.stream = s.stream ++ [f] := by
  have hnote : ∀ {trace : List Event} {e : Event}, e.fed? = none →
      (trace ++ [e]).filterMap Event.fed? = trace.filterMap Event.fed? := filterMap_log_none
  have hfeed : ∀ {f : Fed}, s.Feeds f →
      (s.trace ++ [Event.feed f]).filterMap Event.fed? = s.stream ∨
        ∃ g, s.Feeds g ∧ (s.trace ++ [Event.feed f]).filterMap Event.fed? = s.stream ++ [g] :=
    fun {f} hf => Or.inr ⟨f, hf, filterMap_log_some rfl⟩
  have hunbound : ∀ b, (s.unbound b).trace.filterMap Event.fed? = s.stream ∨
      ∃ f, s.Feeds f ∧ (s.unbound b).trace.filterMap Event.fed? = s.stream ++ [f] := by
    intro b
    rcases trace_unbound s b with ht | ⟨i, -, ht⟩
    · exact Or.inl (by rw [ht]; rfl)
    · rw [ht]
      exact hfeed (.unbind i b)
  cases hs with
  | openCtx | createSetRefused | createSet | runRefused | run | runCount | wait | waitLeave
  | releaseMark | releaseWait | releaseFree | writeRefused | write | writeFail | readNone
  | read | seed | dup | close | store | isrOff | isr | isrFence | slotError | suspend | resume
  | remove | head | polled | sleep | again | park | drop | getNext | taskFinish | runDone
  | runSkip | destroyKeep | finishing | shutdown | halt => exact Or.inl rfl
  | runQueue | writeQueue | waitReturn | fenceInterrupt | errorInterrupt | taskRun | runReject =>
    exact Or.inl (hnote rfl)
  | account t caller => exact Or.inl (hnote (by cases caller <;> rfl))
  | bufferRelease b | destroyUnbind t c b => exact hunbound b
  | releaseBuffer c b =>
    have hclosed : ((s.unbound b).trace ++ [Event.closed b]).filterMap Event.fed? =
        (s.unbound b).trace.filterMap Event.fed? := hnote rfl
    have hall := hunbound b
    rw [← hclosed] at hall
    exact hall
  | bindSlot t b i hpc hnext hout =>
    subst hout
    exact hfeed (.bind t i hnext)
  | runFeed t left task words user left' hpc hrun hpass =>
    have hout : task.buffOut = s.out t := congrArg TaskSig.buffOut (passOf_sig hpass)
    have hnew := State.Feeds.task t left left' task words user hpc hrun hpass
    rw [← hout] at hnew
    exact hfeed hnew
  | fence t => exact hfeed (.fence t)

/-- A property of the commands in the stream that new ones have and that steps keep. -/
theorem fed_reachable {C : State → Label → Prop} {P : State → Fed → Prop}
    (h0 : ∀ f ∈ probed.stream, P probed f)
    (hnew : ∀ s l s' f, system.ReachableBy C s → Step s l s' → s.Feeds f → P s' f)
    (hold : ∀ s l s' f, system.ReachableBy C s → Step s l s' → P s f → P s' f)
    (h : system.ReachableBy C s) : ∀ f ∈ s.stream, P s f := by
  induction h with
  | init => exact h0
  | @step s s' l hr _ hs ih =>
    have hstep := Step.of_step hs
    intro f hf
    rcases stream_step hstep with heq | ⟨g, hg, heq⟩
    · rw [heq] at hf
      exact hold s l s' f hr hstep (ih f hf)
    · rw [heq] at hf
      rcases List.mem_append.mp hf with hf | hf
      · exact hold s l s' f hr hstep (ih f hf)
      · rw [List.mem_singleton.mp hf]
        exact hnew s l s' g hr hstep hg

/-! ## The commands of `bind_slot` and of the tasks -/

/-- A buffer keeps its page table. -/
theorem dma_step (hs : Step s l s') {b : BufId} (hb : b < s.nBuf) :
    (s'.bufs b).dmaHandler = (s.bufs b).dmaHandler := by
  have hbuf := BufStep.of_step hs hb
  generalize s'.bufs b = x at hbuf ⊢
  cases hbuf with
  | keep | leak | mark | giveUp | read | seed | dup | close | free | store | bind | unbind
  | account => rfl

/-- A `BIND_SLOT` brings the mask and the page table of its buffer. -/
def State.BindsOwn (s : State) (f : Fed) : Prop :=
  ∀ b, f.origin = .bind b → b < s.nBuf ∧ f.words.tail = [(s.bufs b).allowed,
    (s.bufs b).dmaHandler.setWidth 32, ((s.bufs b).dmaHandler >>> 32).setWidth 32]

theorem origin_probed {f : Fed} (hf : f ∈ probed.stream) : f.origin = .probe := by
  obtain ⟨i, -, rfl⟩ := List.mem_map.mp (show f ∈ (List.finRange 16).map
    fun i => (⟨unbindCmd i, .probe⟩ : Fed) from hf)
  rfl

theorem bindsOwn_reachable (h : Reachable s) : ∀ f ∈ s.stream, s.BindsOwn f := by
  refine fed_reachable ?_ ?_ ?_ h
  · exact fun f hf b ho => by cases (origin_probed hf).symm.trans ho
  · intro s l s' f hr hs hf b ho
    cases hf with
    | bind t i hnext =>
      cases ho
      have hb := out_lt hr.reachable (next_lt hr.reachable hnext)
      rw [allowed_step hs hb, dma_step hs hb]
      exact ⟨Nat.lt_of_lt_of_le hb (nBuf_le_step hs), rfl⟩
    | _ => cases ho
  · intro s l s' f _ hs hI b ho
    obtain ⟨hb, hwords⟩ := hI b ho
    rw [allowed_step hs hb, dma_step hs hb]
    exact ⟨Nat.lt_of_lt_of_le hb (nBuf_le_step hs), hwords⟩

/-- A command of a task was fed while the buffer of the task had a slot, and asks for dice that
the buffer allows. -/
def State.Permitted (s : State) (f : Fed) : Prop :=
  ∀ t user slot, f.origin = .task t user slot → t < s.nTask ∧ slot ≠ none ∧
    ∀ m ∈ f.words.tail, m &&& ~~~(s.bufs (s.out t)).allowed = 0

theorem permitted_reachable (h : system.ReachableBy AddrFresh s) :
    ∀ f ∈ s.stream, s.Permitted f := by
  refine fed_reachable ?_ ?_ ?_ h
  · exact fun f hf t user slot ho => by cases (origin_probed hf).symm.trans ho
  · intro s l s' f h hs hf t user slot ho
    have hr := h.reachable
    cases hf with
    | task t' left left' task words user' hpc hrun hpass =>
      cases ho
      have ht := running_lt hr hrun
      rw [out_step hs ht, allowed_step hs (out_lt hr ht)]
      refine ⟨Nat.lt_of_lt_of_le ht (nTask_le_step hs), ?_, ?_⟩
      · obtain ⟨mem, i, n, hloop⟩ := (loopInv_reachable h).started t (running_started hr hrun)
        have hat : s.pc.loopAt s.runningTask = some (t, left) := by
          rw [hpc, hrun]
          rfl
        rw [show (s.bufs (s.out t)).bindedSlot = some i from
          hloop.slot ((hloop.at_iff left).mp hat).1]
        nofun
      · cases passOf_case hpass with
        | getDie _ m _ _ _ hmask => exact fun m' hm' => List.mem_singleton.mp hm' ▸ hmask
        | newSet => exact fun m' hm' => by cases hm'
    | _ => cases ho
  · intro s l s' f h hs hI t user slot ho
    have hr := h.reachable
    obtain ⟨ht, hslot, hmask⟩ := hI t user slot ho
    rw [out_step hs ht, allowed_step hs (out_lt hr ht)]
    exact ⟨Nat.lt_of_lt_of_le ht (nTask_le_step hs), hslot, hmask⟩

/-! ## The slots of the device -/

/-- The device has the mask and the page table of buffer `b`. -/
def State.Describes (s : State) (b : BufId) (e : SlotEntry) : Prop :=
  e.allowed = (s.bufs b).allowed ∧ e.dma = (s.bufs b).dmaHandler

theorem wordCmd_unbind (i : Slot) (o : Origin) :
    Fed.wordCmd? ⟨unbindCmd i, o⟩ = some (.unbind i) := by
  refine (if_pos (type_unbind i)).trans ?_
  rw [slotField_unbind]

/-- An address is sent in two words. -/
theorem dma_parts (dma : BitVec 64) :
    (dma >>> 32).setWidth 32 ++ dma.setWidth 32 = dma :=
  Bits.append_parts (n := 32) (m := 32) dma

theorem wordCmd_bind (i : Slot) (buf : Buffer) (o : Origin) :
    Fed.wordCmd? ⟨bindCmd i buf, o⟩ =
      some (.bind i ⟨buf.seed.setWidth 20, buf.allowed, buf.dmaHandler⟩) := by
  simp only [Fed.wordCmd?, bindCmd, wordsSlotCmd?, slotField_bind, seedField_bind, dma_parts]

/-- The device and the driver read the same slot commands. -/
theorem Fed.Shaped.slotCmd_rel {f : Fed} (h : f.Shaped) (hown : s.BindsOwn f) :
    Option.Rel (SlotTable.Cmd.Rel s.Describes) f.slotCmd? f.wordCmd? := by
  cases h with
  | probe i | unbind i =>
    rw [slotCmd_unbind, wordCmd_unbind]
    exact .some (.unbind i)
  | bind i buf b =>
    obtain ⟨-, hwords⟩ := hown b rfl
    obtain ⟨hallowed, hlow, hhigh⟩ : buf.allowed = (s.bufs b).allowed ∧
        buf.dmaHandler.setWidth 32 = (s.bufs b).dmaHandler.setWidth 32 ∧
        (buf.dmaHandler >>> 32).setWidth 32 = ((s.bufs b).dmaHandler >>> 32).setWidth 32 := by
      simpa [bindCmd] using hwords
    have hdma : buf.dmaHandler = (s.bufs b).dmaHandler := by
      rw [← dma_parts buf.dmaHandler, hlow, hhigh, dma_parts]
    rw [slotCmd_bind, wordCmd_bind]
    exact .some (.bind i ⟨hallowed, hdma⟩)
  | getDie t user cmd1 slot htype hmask =>
    rw [slotCmd_task (.getDie t user cmd1 slot htype hmask)]
    exact .none
  | newSet t user slot htype hmask =>
    rw [slotCmd_task (.newSet t user slot htype hmask)]
    have hput := (type_or_shiftLeft user (bindedSlotWord slot) (by decide : 4 ≤ 4)).trans htype
    rw [show Fed.wordCmd? ⟨[user ||| bindedSlotWord slot <<< 4], .task t user slot⟩ = none from
      if_neg (by rw [hput]; decide)]
    exact .none
  | fence t =>
    rw [slotCmd_fence]
    exact .none

theorem wordCmds_probed :
    probed.stream.filterMap Fed.wordCmd? = (List.finRange 16).map .unbind := by
  have hstream : probed.stream = (List.finRange 16).map fun i => ⟨unbindCmd i, .probe⟩ := rfl
  rw [hstream, List.filterMap_map]
  have hcmd : (Fed.wordCmd? ∘ fun i : Slot => (⟨unbindCmd i, .probe⟩ : Fed)) =
      fun i => some (SlotTable.Cmd.unbind i) := by
    funext i
    exact wordCmd_unbind i .probe
  rw [hcmd]
  exact congrFun List.filterMap_eq_map _

/-- After the commands of `dicedev_probe` it does not matter what the slots held before. -/
theorem replay_probed (table : Slot → Option SlotEntry) (rest : List Fed) :
    SlotTable.replay table ((probed.stream ++ rest).filterMap Fed.wordCmd?) =
      SlotTable.replay (fun _ => none) (rest.filterMap Fed.wordCmd?) := by
  have hempty : SlotTable.replay table ((List.finRange 16).map .unbind) = fun _ => none := by
    funext i
    rw [SlotTable.replay_unbinds, if_pos (List.mem_finRange i)]
  rw [List.filterMap_append, wordCmds_probed, SlotTable.replay_append, hempty]

/-- After a part of the stream, the device has in its slots what the driver had bound then. -/
theorem slots_rel (h : Reachable s) {rest post : List Fed}
    (hsplit : s.stream = probed.stream ++ rest ++ post) (table : Slot → Option SlotEntry)
    (i : Slot) :
    Option.Rel s.Describes
      (SlotTable.replay (fun _ => none) ((probed.stream ++ rest).filterMap Fed.slotCmd?) i)
      (((Hw.idle table).run (wordsOf (probed.stream ++ rest))).slots i) := by
  have hmem : ∀ f ∈ probed.stream ++ rest, f ∈ s.stream := fun f hf =>
    hsplit ▸ List.mem_append_left post hf
  rw [run_wordsOf (fun f hf => shaped_reachable h (hmem f hf)) rfl]
  dsimp only [Hw.idle]
  rw [replay_probed table, ← replay_probed fun _ => none]
  refine SlotTable.replay_rel (fun f hf => ?_) (fun _ => .none) i
  exact (shaped_reachable h (hmem f hf)).slotCmd_rel (bindsOwn_reachable h f (hmem f hf))

/-- The device reads the commands as they were fed and ends between two of them, and its slots
hold the masks and the page tables of the buffers that the driver has in `buff_slots`, whatever
they held before `dicedev_probe`. An entry of `buff_slots` is a buffer as it was created, also when
it has been freed since. -/
theorem device_follows (h : Reachable s) (table : Slot → Option SlotEntry) :
    ((Hw.idle table).run (wordsOf s.stream)).proc = .none ∧
    ((Hw.idle table).run (wordsOf s.stream)).done = s.stream.map Fed.words ∧
    ∀ i, (((Hw.idle table).run (wordsOf s.stream)).slots i).map (fun e => (e.allowed, e.dma)) =
      (s.buffSlots i).map fun b => ((s.bufs b).allowed, (s.bufs b).dmaHandler) := by
  have hrun := run_wordsOf (fun f hf => shaped_reachable h hf) (d := Hw.idle table) rfl
  refine ⟨by rw [hrun], by rw [hrun]; rfl, fun i => ?_⟩
  obtain ⟨rest, hrest, -, -⟩ := (slots_reachable h).1.replayed
  have hstream : s.stream = probed.stream ++ rest := hrest
  have hrel := slots_rel h (hstream.trans (List.append_nil _).symm) table i
  rw [← hstream, (slots_reachable h).replay] at hrel
  generalize s.buffSlots i = o at hrel ⊢
  generalize Hw.slots _ i = e at hrel ⊢
  cases hrel with
  | none => rfl
  | some he => rw [Option.map_some, Option.map_some, he.1, he.2]

theorem device_follows_bound :
    ∃ s, Reachable s ∧ (s.bufs 0).dmaHandler = 0x1000 ∧ ∀ table,
      (((Hw.idle table).run (wordsOf s.stream)).slots 0).map (fun e => (e.allowed, e.dma)) =
        some (0x20, 0x1000) := by
  have hseen : seenAfter (openOne ++ writeCall 0 0 0 (fun _ => 0) ++ startEmpty)
      (fun s => (s.buffSlots 0, (s.bufs 0).allowed, (s.bufs 0).dmaHandler)) =
      some (some 0, 0x20, 0x1000) := by decide
  obtain ⟨s, -, hr, hs⟩ := exists_seenAfter hseen
  simp only [Prod.mk.injEq] at hs
  obtain ⟨hslot, hallowed, hdma⟩ := hs
  refine ⟨s, hr, hdma, fun table => ?_⟩
  rw [(device_follows hr table).2.2 0, hslot, Option.map_some, hallowed, hdma]

/-! ## What the device still has to do -/

/-- A command of a task comes after those of `dicedev_probe`. -/
theorem probed_before (h : Reachable s) {pre post : List Fed} {f : Fed}
    (hsplit : s.stream = pre ++ f :: post) (ho : f.origin ≠ .probe) :
    ∃ rest, pre = probed.stream ++ rest := by
  obtain ⟨rest, hrest, -, -⟩ := (slots_reachable h).1.replayed
  rcases List.append_eq_append_iff.mp ((show s.stream = _ from hrest).symm.trans hsplit) with
    ⟨mid, hpre, -⟩ | ⟨mid, hprobed, hf⟩
  · exact ⟨mid, hpre⟩
  · cases mid with
    | nil => exact ⟨[], by rw [List.append_nil, hprobed, List.append_nil]⟩
    | cons g mid =>
      obtain ⟨rfl, -⟩ := List.cons.inj hf
      refine absurd (origin_probed ?_) ho
      rw [hprobed]
      exact List.mem_append_right pre List.mem_cons_self

/-- The device has not gone through the command behind `pre` for sure: no fence behind it has been
signalled. -/
def State.InFlight (s : State) (pre : List Fed) : Prop := s.signalled ≤ s.fencesBefore pre.length

/-- The task of a command in flight is still running, so its buffer is there. -/
theorem out_live_of_inFlight (h : system.ReachableBy AddrFresh s) {pre post : List Fed} {f : Fed}
    {t : TaskId} {user : Word} {slot : Option Slot} (hsplit : s.stream = pre ++ f :: post)
    (ho : f.origin = .task t user slot) (hflight : s.InFlight pre) :
    s.out t < s.nBuf ∧ (s.bufs (s.out t)).freed = false := by
  have hr := h.reachable
  have hcmd : s.stream[pre.length]?.bind Fed.task? = some t := by
    rw [hsplit, List.getElem?_append_right (Nat.le_refl _), Nat.sub_self]
    change f.task? = some t
    rw [Fed.task?, ho]
  obtain ⟨hrun, hwait⟩ := error_running hr hcmd hflight
  have htask := allocated_held hr (running_held hr hrun hwait)
  exact taskTouches_allocated h htask (.buf (s.tasks t).buffOut) (by simp [taskTouches])

/-- When the device gets to a command, it has the buffer of the task in the slot of the command. -/
theorem slot_describes (h : system.ReachableBy AddrFresh s) {pre post : List Fed} {f : Fed}
    {t : TaskId} {user : Word} {slot : Option Slot} (hsplit : s.stream = pre ++ f :: post)
    (ho : f.origin = .task t user slot) (hbit : user.getLsbD f.slotPos = false)
    (table : Slot → Option SlotEntry) :
    ∃ e, ((Hw.idle table).run (wordsOf pre)).slots f.slot = some e ∧ s.Describes (s.out t) e := by
  have hr := h.reachable
  have hmem : f ∈ s.stream := by
    rw [hsplit]
    exact List.mem_append_right pre List.mem_cons_self
  obtain ⟨-, hbound, -⟩ := permitted_reachable h f hmem t user slot ho
  have hslot : slot = some f.slot := by
    obtain ⟨i, hi⟩ := Option.ne_none_iff_exists'.mp hbound
    obtain ⟨words, o⟩ := f
    cases ho
    exact (shaped_reachable hr hmem).slot_iff.mpr ⟨i, hi, Or.inl hbit⟩
  have hreplay := ((recorded_reachable hr pre f post t user slot hsplit ho).2 f.slot).mpr hslot
  obtain ⟨rest, rfl⟩ := probed_before hr hsplit fun hp => by cases ho.symm.trans hp
  have hrel := slots_rel hr hsplit table f.slot
  rw [hreplay] at hrel
  generalize Hw.slots _ f.slot = o at hrel ⊢
  cases hrel with
  | some he => exact ⟨_, rfl, he⟩

/-- A command of a task that the device may still have to execute, made from a word whose lowest
slot bit is clear (the bit that the masks miss), in a driver where no context gets the address of
the owner of a buffer that still exists. The device finds in the slot of the command the page table
and the mask of the task's buffer. That buffer is not freed as long as the command can be in
flight, and the command asks for dice that the slot allows. -/
theorem dma_live (h : system.ReachableBy AddrFresh s) {pre post : List Fed} {f : Fed} {t : TaskId}
    {user : Word} {slot : Option Slot} (hsplit : s.stream = pre ++ f :: post)
    (ho : f.origin = .task t user slot) (hflight : s.InFlight pre)
    (hbit : user.getLsbD f.slotPos = false) (table : Slot → Option SlotEntry) :
    ∃ e, ((Hw.idle table).run (wordsOf pre)).slots f.slot = some e ∧
      s.Describes (s.out t) e ∧ s.out t < s.nBuf ∧ (s.bufs (s.out t)).freed = false ∧
      ∀ m ∈ f.words.tail, m &&& ~~~e.allowed = 0 := by
  obtain ⟨hlt, hlive⟩ := out_live_of_inFlight h hsplit ho hflight
  obtain ⟨e, he, hdescr⟩ := slot_describes h hsplit ho hbit table
  have hmem : f ∈ s.stream := by
    rw [hsplit]
    exact List.mem_append_right pre List.mem_cons_self
  obtain ⟨-, -, hmask⟩ := permitted_reachable h f hmem t user slot ho
  exact ⟨e, he, hdescr, hlt, hlive, fun m hm => hdescr.1.symm ▸ hmask m hm⟩

/-- A `GET_DIE` whose fence has not been fed. -/
theorem dma_live_die :
    ∃ s pre f post, system.ReachableBy AddrFresh s ∧ s.stream = pre ++ f :: post ∧
      f.origin = .task 0 0x12 (some 0) ∧ s.InFlight pre ∧ ∃ e,
        ((Hw.idle fun _ => none).run (wordsOf pre)).slots f.slot = some e ∧
        s.Describes (s.out 0) e ∧ (s.bufs (s.out 0)).freed = false := by
  have hseen : seenBy AddrFresh (openOne ++ writeCall 0 0 8 (getDieWords 0x12) ++ workerSteps 10)
      (fun s => (s.stream[17]?, s.signalled)) =
      some (some ⟨[0x12, 0x20], .task 0 0x12 (some 0)⟩, 0) := by decide
  obtain ⟨s, hr, hs⟩ := exists_seenBy hseen
  simp only [Prod.mk.injEq] at hs
  obtain ⟨hlt, hget⟩ := List.getElem?_eq_some_iff.mp hs.1
  have hsplit : s.stream = s.stream.take 17 ++ s.stream[17] :: s.stream.drop 18 := by
    rw [← List.drop_eq_getElem_cons hlt, List.take_append_drop]
  have ho : s.stream[17].origin = .task 0 0x12 (some 0) := by rw [hget]
  have hflight : s.InFlight (s.stream.take 17) := by
    unfold State.InFlight
    rw [hs.2]
    exact Nat.zero_le _
  have hbit : BitVec.getLsbD (0x12 : Word) s.stream[17].slotPos = false := by
    rw [hget]
    decide
  obtain ⟨e, he, hdescr, -, hfreed, -⟩ := dma_live hr hsplit ho hflight hbit fun _ => none
  exact ⟨s, _, _, _, hr, hsplit, ho, hflight, e, he, hdescr, hfreed⟩

end Dicedev
