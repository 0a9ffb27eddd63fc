import Dicedev.Lib.SlotTable
import Dicedev.Commands
import Dicedev.Scope

/-!
# The slots

The table `buff_slots`, the field `binded_slot` of every buffer, the counter `free_slots` and
the device's own table, which is a replay of the commands it was fed, agree in every
reachable state (`slotsAgree_reachable`). There is one binder, the worker, and it binds only after
it has seen a free slot and a buffer without one; nobody else can take either away.

Buffers are identities here, and a freed one keeps its slot. `SlotPointers` looks at the table as
the pointers that it holds.
-/

namespace Dicedev

open State

/-- The slot command that the device reads from a fed command. -/
def Fed.slotCmd? (f : Fed) : Option (SlotTable.Cmd Slot BufId) :=
  if f.type = userCmdTypeUnbindSlot then some (.unbind (slotField 4 f.header))
  else if f.type = userCmdTypeBindSlot then
    match f.origin with
    | .bind b => some (.bind (slotField 4 f.header) b)
    | _ => none
  else none

variable {s s' : State} {l : Label}

/-! ## Decoding -/

theorem slotCmd_unbind (i : Slot) (o : Origin) :
    Fed.slotCmd? ⟨unbindCmd i, o⟩ = some (.unbind i) := by
  have htype : Fed.type ⟨unbindCmd i, o⟩ = userCmdTypeUnbindSlot := type_unbind i
  have hslot : slotField 4 (Fed.header ⟨unbindCmd i, o⟩) = i := slotField_unbind i
  rw [Fed.slotCmd?, if_pos htype, hslot]

theorem slotCmd_bind (i : Slot) (buf : Buffer) (b : BufId) :
    Fed.slotCmd? ⟨bindCmd i buf, .bind b⟩ = some (.bind i b) := by
  have htype : Fed.type ⟨bindCmd i buf, .bind b⟩ = userCmdTypeBindSlot := type_bind i buf.seed
  have hslot : slotField 4 (Fed.header ⟨bindCmd i buf, .bind b⟩) = i := slotField_bind i buf.seed
  rw [Fed.slotCmd?, if_neg (by rw [htype]; decide), if_pos htype]
  simp only [hslot]

/-- Commands of a task and fences are no slot commands. -/
theorem slotCmd_none {f : Fed} (hu : f.type ≠ userCmdTypeUnbindSlot)
    (hb : f.type ≠ userCmdTypeBindSlot) : f.slotCmd? = none := by
  rw [Fed.slotCmd?, if_neg hu, if_neg hb]

theorem slotCmd_task {words : List Word} {t : TaskId} {user : Word} {slot : Option Slot}
    (h : Fed.Shaped ⟨words, .task t user slot⟩) :
    Fed.slotCmd? ⟨words, .task t user slot⟩ = none := by
  rcases h.feeds with htype | htype
  · exact slotCmd_none (by rw [htype]; decide) (by rw [htype]; decide)
  · exact slotCmd_none (by rw [htype]; decide) (by rw [htype]; decide)

theorem slotCmd_fence (t : TaskId) :
    Fed.slotCmd? ⟨[userCmdFenceHeader taskFenceVal], .fence t⟩ = none := by
  have htype := (Fed.Shaped.fence t).feeds
  exact slotCmd_none (by rw [htype]; decide) (by rw [htype]; decide)

/-- Only `bind_slot` feeds commands of the type `BIND_SLOT`. -/
theorem Fed.Shaped.bind_origin {f : Fed} (h : f.Shaped) (htype : f.type = userCmdTypeBindSlot) :
    ∃ b, f.origin = .bind b := by
  have hfeeds := h.feeds
  rw [htype] at hfeeds
  cases ho : f.origin with
  | bind b => exact ⟨b, rfl⟩
  | probe | unbind | fence =>
    rw [ho] at hfeeds
    simp only [Origin.Feeds] at hfeeds
    exact absurd hfeeds (by decide)
  | task =>
    rw [ho] at hfeeds
    rcases hfeeds with hfeeds | hfeeds
    · exact absurd hfeeds (by decide)
    · exact absurd hfeeds (by decide)

/-! ## The invariant of the tables -/

/-- The driver's tables agree with each other and with the replay of the stream: after the
commands of `dicedev_probe` every slot command fits, and the replay is `slots`. -/
structure SlotInv (trace : List Event) (slots : Slot → Option BufId) (place : BufId → Option Slot)
    (free : Nat) : Prop where
  agrees : SlotTable.Agrees slots place free
  replayed : ∃ rest, trace.filterMap Event.fed? = probed.stream ++ rest ∧
    SlotTable.Legal (fun _ => none) (rest.filterMap Fed.slotCmd?) ∧
    SlotTable.replay (fun _ => none) (rest.filterMap Fed.slotCmd?) = slots

namespace SlotInv

variable {trace : List Event} {slots : Slot → Option BufId} {place : BufId → Option Slot}
  {free : Nat}

theorem of_eq (h : SlotInv trace slots place free) {place' : BufId → Option Slot} {free' : Nat}
    (hp : place' = place) (hf : free' = free) : SlotInv trace slots place' free' := by
  rw [hp, hf]
  exact h

theorem note (h : SlotInv trace slots place free) {e : Event} (he : e.fed? = none) :
    SlotInv (trace ++ [e]) slots place free := by
  refine ⟨h.agrees, ?_⟩
  rw [filterMap_log_none he]
  exact h.replayed

theorem feed (h : SlotInv trace slots place free) {f : Fed} (hf : f.slotCmd? = none) :
    SlotInv (trace ++ [.feed f]) slots place free := by
  obtain ⟨rest, hrest, hlegal, hreplay⟩ := h.replayed
  have hcmds : (rest ++ [f]).filterMap Fed.slotCmd? = rest.filterMap Fed.slotCmd? := by
    simp [List.filterMap_append, hf]
  refine ⟨h.agrees, rest ++ [f], ?_, ?_, ?_⟩
  · rw [List.filterMap_append, hrest, List.append_assoc]
    rfl
  · rw [hcmds]
    exact hlegal
  · rw [hcmds]
    exact hreplay

/-- A slot command that fits changes the replay and the table in the same way. -/
theorem slotCmd (h : SlotInv trace slots place free) {f : Fed} {c : SlotTable.Cmd Slot BufId}
    (hf : f.slotCmd? = some c) (hfits : c.Fits slots) {place' : BufId → Option Slot} {free' : Nat}
    (hagrees : SlotTable.Agrees (c.apply slots) place' free') :
    SlotInv (trace ++ [.feed f]) (c.apply slots) place' free' := by
  obtain ⟨rest, hrest, hlegal, hreplay⟩ := h.replayed
  have hcmds : (rest ++ [f]).filterMap Fed.slotCmd? = rest.filterMap Fed.slotCmd? ++ [c] := by
    simp [List.filterMap_append, hf]
  refine ⟨hagrees, rest ++ [f], ?_, ?_, ?_⟩
  · rw [List.filterMap_append, hrest, List.append_assoc]
    rfl
  · rw [hcmds]
    exact hlegal.append (hreplay ▸ hfits)
  · rw [hcmds, SlotTable.replay_append, hreplay]
    rfl

theorem bind (h : SlotInv trace slots place free) {i : Slot} {b : BufId} (hi : slots i = none)
    (hb : place b = none) (buf : Buffer) :
    SlotInv (trace ++ [.feed ⟨bindCmd i buf, .bind b⟩]) (Function.update slots i (some b))
      (Function.update place b (some i)) (free - 1) :=
  h.slotCmd (slotCmd_bind i buf b) hi (h.agrees.bind hi hb)

theorem unbind (h : SlotInv trace slots place free) {i : Slot} {b : BufId}
    (hb : place b = some i) (o : Origin) :
    SlotInv (trace ++ [.feed ⟨unbindCmd i, o⟩]) (Function.update slots i none)
      (Function.update place b none) (free + 1) := by
  have hi : slots i = some b := (h.agrees.mutual_iff i b).mpr hb
  refine h.slotCmd (slotCmd_unbind i o) ?_ (h.agrees.unbind hb)
  change slots i ≠ none
  rw [hi]
  simp

end SlotInv

/-- The worker binds a buffer without a slot, and only when there is a free one. -/
def BindReady (pc : WtPc) (next : Option TaskId) (out : TaskId → BufId)
    (place : BufId → Option Slot) (free : Nat) : Prop :=
  pc = .event .taskBindSlot → 0 < free ∧ ∀ t ∈ next, place (out t) = none

/-- Other threads only give slots back. -/
theorem BindReady.mono {pc pc' : WtPc} {next : Option TaskId} {out out' : TaskId → BufId}
    {place place' : BufId → Option Slot} {free free' : Nat} (h : BindReady pc next out place free)
    (hpc : pc' = .event .taskBindSlot → pc = .event .taskBindSlot)
    (hout : ∀ t ∈ next, out' t = out t) (hplace : ∀ b, place b = none → place' b = none)
    (hfree : free ≤ free') : BindReady pc' next out' place' free' := by
  intro hpc'
  obtain ⟨hpos, hnone⟩ := h (hpc hpc')
  refine ⟨Nat.lt_of_lt_of_le hpos hfree, ?_⟩
  intro t ht
  rw [hout t ht]
  exact hplace _ (hnone t ht)

/-! ## Reachable states -/

def Slots (s : State) : Prop :=
  SlotInv s.trace s.buffSlots s.place s.freeSlots ∧
    BindReady s.pc s.nextTask s.out s.place s.freeSlots

theorem Slots.of_place (h : Slots s) {place : BufId → Option Slot} (heq : place = s.place) :
    SlotInv s.trace s.buffSlots place s.freeSlots ∧
      BindReady s.pc s.nextTask s.out place s.freeSlots := by
  rw [heq]
  exact h

theorem Slots.woken (h : Slots s) : BindReady s.wokenPc s.nextTask s.out s.place s.freeSlots := by
  refine BindReady.mono h.2 ?_ (fun _ _ => rfl) (fun _ hb => hb) (Nat.le_refl _)
  exact fun hpc => pc_of_woken hpc (by simp)

/-- Unbinding keeps the tables in agreement. -/
theorem Slots.unbound (h : Slots s) (b : BufId) :
    SlotInv (s.unbound b).trace (s.unbound b).buffSlots (Buffer.bindedSlot ∘ (s.unbound b).bufs)
      (s.unbound b).freeSlots := by
  cases hb : (s.bufs b).bindedSlot with
  | none =>
    rw [unbound_of_none hb]
    exact h.1
  | some i =>
    rw [unbound_of_some hb]
    have hplace : Buffer.bindedSlot ∘ (s.unbindFrom b i).bufs = Function.update s.place b none :=
      Function.comp_update _ _ _ _
    rw [hplace]
    exact SlotInv.unbind h.1 (b := b) hb (.unbind b)

theorem freeSlots_le_unbound (s : State) (b : BufId) : s.freeSlots ≤ (s.unbound b).freeSlots := by
  cases hb : (s.bufs b).bindedSlot with
  | none => rw [unbound_of_none hb]
  | some i =>
    rw [unbound_of_some hb]
    exact Nat.le_succ _

/-- Unbinding takes nothing away from the worker. -/
theorem Slots.unbound_ready (h : Slots s) (b : BufId) {place : BufId → Option Slot}
    (heq : place = Buffer.bindedSlot ∘ (s.unbound b).bufs) :
    BindReady s.pc s.nextTask s.out place (s.unbound b).freeSlots := by
  rw [heq, place_unbound]
  refine BindReady.mono h.2 id (fun _ _ => rfl) ?_ (freeSlots_le_unbound s b)
  intro d hd
  by_cases hdb : d = b
  · subst hdb
    exact Function.update_self _ _ _
  · rw [Function.update_of_ne hdb]
    exact hd

theorem Slots.queued (hr : Reachable s) (h : Slots s) (k : CallId) (task : Task) :
    Slots (s.queued k task) := by
  refine ⟨h.1.note rfl, BindReady.mono h.woken id ?_ (fun _ hb => hb) (Nat.le_refl _)⟩
  intro t ht
  have hne : t ≠ s.nTask := Nat.ne_of_lt (next_lt hr ht)
  change (Task.sig (Function.update s.tasks s.nTask task t)).buffOut = _
  rw [Function.update_of_ne hne]
  rfl

/-- The event `WT_EVENT_TASK_BIND_SLOT` comes with its conditions. -/
theorem bindReady_event (s : State) :
    BindReady (.event s.wtGetEventTask) s.nextTask s.out s.place s.freeSlots := by
  intro hpc
  have hev : s.wtGetEventTask = .taskBindSlot := WtPc.event.inj hpc
  unfold wtGetEventTask at hev
  split at hev
  · split at hev <;> cases hev
  · rename_i t hnext
    split at hev
    · cases hev
    · split at hev
      · rename_i hnone
        split at hev
        · rename_i hpos
          refine ⟨hpos, ?_⟩
          intro u hu
          rw [hnext] at hu
          cases hu
          exact hnone
        · cases hev
      · cases hev

theorem wtPoll_ne_bindSlot (s : State) : s.wtPoll ≠ .event .taskBindSlot := by
  rcases wtPoll_cases s with h | h | h | h | ⟨h, -⟩ <;> rw [h] <;> simp

theorem Slots.step (hr : Reachable s) (h : Slots s) (hs : Step s l s') : Slots s' := by
  cases hs with
  | openCtx | createSetRefused | runCount | wait | waitLeave | releaseWait | releaseFree
  | writeRefused | write | writeFail | readNone | isrOff | isr | slotError | resume | halt =>
    exact h
  | waitReturn | fenceInterrupt | errorInterrupt => exact ⟨h.1.note rfl, h.2⟩
  | createSet c size allowed dma =>
    have hfresh : s.place s.nBuf = none :=
      congrArg BufSig.bindedSlot (Names.buf_fresh (scope_reachable hr) s.nBuf (Nat.le_refl _))
    exact h.of_place (comp_update_of_eq hfresh.symm)
  | runRefused c cb db addr size shared alloc leak => exact h.of_place (place_leakBufs s cb db leak)
  | run c cb db addr size shared => exact h.of_place (place_leakBufs s cb db shared)
  | runQueue k => exact h.queued hr k _
  | writeQueue k => exact h.queued hr k _
  | releaseMark => exact h.of_place (place_mark s _)
  | releaseBuffer c b rest =>
    exact ⟨((h.unbound b).note rfl).of_eq (comp_update_of_eq rfl) rfl,
      h.unbound_ready b (comp_update_of_eq rfl)⟩
  | bufferRelease b =>
    exact ⟨(h.unbound b).of_eq (comp_update_of_eq rfl) rfl,
      h.unbound_ready b (comp_update_of_eq rfl)⟩
  | read | seed | dup | close | store => exact h.of_place (comp_update_of_eq rfl)
  | isrFence | suspend | remove => exact ⟨h.1, h.woken⟩
  | head => exact ⟨h.1, fun hpc => absurd hpc (wtPoll_ne_bindSlot s)⟩
  | polled => exact ⟨h.1, bindReady_event s⟩
  | sleep | again | park | drop | getNext | taskFinish | runDone | destroyKeep | finishing =>
    exact ⟨h.1, fun hpc => by cases hpc⟩
  | bindSlot t b i hpc hnext hout hslot hempty =>
    obtain ⟨hpos, hnone⟩ := h.2 hpc
    have hb : s.place b = none := hout ▸ hnone t hnext
    have hdec : sizeDec s.freeSlots = s.freeSlots - 1 := by
      unfold sizeDec
      rw [if_neg (by omega)]
    exact ⟨(h.1.bind hempty hb (s.bufs b)).of_eq (Function.comp_update _ _ _ _) hdec,
      fun hpc => by cases hpc⟩
  | runSkip => exact ⟨h.1, fun hpc => by cases hpc⟩
  | taskRun | runReject => exact ⟨h.1.note rfl, fun hpc => by cases hpc⟩
  | runFeed t left task words user left' hpc hrun hpass =>
    exact ⟨h.1.feed (slotCmd_task (passOf_shaped hpass)), fun hpc => by cases hpc⟩
  | fence t => exact ⟨h.1.feed (slotCmd_fence t), fun hpc => by cases hpc⟩
  | destroyUnbind t c b => exact ⟨h.unbound b, fun hpc => by cases hpc⟩
  | account t caller c b =>
    refine ⟨(h.1.note ?_).of_eq (comp_update_of_eq rfl) rfl, ?_⟩
    · cases caller <;> rfl
    · intro hpc
      cases caller <;> cases hpc
  | shutdown =>
    refine ⟨h.1, ?_⟩
    intro hpc
    change s.wtShutdown = _ at hpc
    rcases wtShutdown_cases s with h | h <;> rw [h] at hpc <;> cases hpc

theorem slots_probed : Slots probed := by
  refine ⟨⟨⟨?_, by decide⟩, [], by simp [State.stream], SlotTable.Legal.nil _, rfl⟩, ?_⟩
  · intro i b
    constructor
    · intro h
      cases h
    · intro h
      cases h
  · intro hpc
    cases hpc

theorem slots_reachable (h : Reachable s) : Slots s :=
  Machine.Reachable.invariant_of (fun _ hr => hr) slots_probed
    (fun _ _ _ hr hI hs => Slots.step hr hI (Step.of_step hs)) h

/-! ## What a step does to the slots -/

/-- The steps that take the slot of buffer `d` away: the end of a RUN or of a task of a failed
context, and the two releases. -/
inductive Unbinds (s : State) (d : BufId) : Label → Prop
  | destroy (t : TaskId) (c : Caller) (hpc : s.pc = .destroy t c) (hout : s.out t = d)
      (hwhy : (s.tasks t).isRun = true ∨ (s.ctxs (s.tasks t).ctx).failed = true) :
      Unbinds s d .worker
  | release (c : CtxId) (rest : List BufId) (hclosing : (s.ctxs c).phase = .closing)
      (hlist : (s.ctxs c).allocatedBuffers = d :: rest) : Unbinds s d (.releaseBuffer c)
  | bufferRelease (hfreed : (s.bufs d).freed = false) (hfd : (s.bufs d).fdRefs = 0)
      (hctx : (s.bufs d).ctxRef = false) : Unbinds s d (.bufferRelease d)

/-- The worker binds the buffer of the prefetched task `t` to slot `i`. -/
structure State.Binds (s : State) (t : TaskId) (i : Slot) : Prop where
  pc_eq : s.pc = .event .taskBindSlot
  next : s.nextTask = some t
  empty : s.buffSlots i = none

/-- The state after `WT_EVENT_TASK_BIND_SLOT`. -/
def State.afterBind (s : State) (t : TaskId) (i : Slot) : State :=
  { s with
    freeSlots := sizeDec s.freeSlots
    buffSlots := Function.update s.buffSlots i (some (s.out t))
    bufs := Function.update s.bufs (s.out t)
      { s.bufs (s.out t) with bindedSlot := some i, usageCount := 1, reader := ⟨0, 0⟩ }
    pc := .head
    trace := s.trace ++ [.feed ⟨bindCmd i (s.bufs (s.out t)), .bind (s.out t)⟩] }

theorem place_afterBind (s : State) (t : TaskId) (i : Slot) :
    (s.afterBind t i).place = Function.update s.place (s.out t) (some i) :=
  Function.comp_update _ _ _ _

/-- A step leaves the slots alone, takes one away, or gives one to the buffer of the
prefetched task. -/
theorem place_shape (hr : Reachable s) (hs : Step s l s') :
    s'.place = s.place ∨
      (∃ d, Unbinds s d l ∧ s'.place = Function.update s.place d none) ∨
      ∃ t i, s.Binds t i ∧ s' = s.afterBind t i := by
  cases hs with
  | openCtx | createSetRefused | runCount | runQueue | wait | waitLeave | waitReturn
  | releaseWait | releaseFree | writeRefused | write | writeFail | writeQueue | readNone | isrOff
  | isr | isrFence | fenceInterrupt | errorInterrupt | slotError | suspend | resume | remove
  | head | polled | sleep | again | park | drop | getNext | taskRun | taskFinish | runDone
  | runSkip | runFeed | runReject | fence | destroyKeep | finishing | shutdown | halt =>
    exact Or.inl rfl
  | createSet =>
    refine Or.inl (comp_update_of_eq ?_)
    exact (congrArg BufSig.bindedSlot
      (Names.buf_fresh (scope_reachable hr) s.nBuf (Nat.le_refl _))).symm
  | runRefused c cb db addr size shared alloc leak => exact Or.inl (place_leakBufs s cb db leak)
  | run c cb db addr size shared => exact Or.inl (place_leakBufs s cb db shared)
  | releaseMark => exact Or.inl (place_mark s _)
  | read | seed | dup | close | store | account => exact Or.inl (comp_update_of_eq rfl)
  | releaseBuffer c d rest hclosing hlist =>
    refine Or.inr (Or.inl ⟨d, .release c rest hclosing hlist, ?_⟩)
    rw [← place_unbound s d]
    exact comp_update_of_eq rfl
  | bufferRelease d hfreed hfd hctx =>
    refine Or.inr (Or.inl ⟨d, .bufferRelease hfreed hfd hctx, ?_⟩)
    rw [← place_unbound s d]
    exact comp_update_of_eq rfl
  | destroyUnbind t c d hpc hout hwhy =>
    exact Or.inr (Or.inl ⟨d, .destroy t c hpc hout hwhy, place_unbound s d⟩)
  | bindSlot t d i hpc hnext hout hslot hempty =>
    subst hout
    exact Or.inr (Or.inr ⟨t, i, ⟨hpc, hnext, hempty⟩, rfl⟩)

/-! ## No `BUG_ON` -/

/-- On `WT_EVENT_TASK_BIND_SLOT` there is a slot for `get_slot` to find. -/
theorem Slots.getSlot (h : Slots s) (hpc : s.pc = .event .taskBindSlot) :
    ∃ i, s.getSlot = some i ∧ s.buffSlots i = none := by
  have hpos := (h.2 hpc).1
  have hempty : 0 < SlotTable.emptySlots s.buffSlots := by
    rw [← h.1.agrees.free_eq]
    exact hpos
  obtain ⟨j, hj⟩ := SlotTable.exists_empty hempty
  have hfind : ((List.finRange 16).find? fun i => decide (s.buffSlots i = none)).isSome := by
    rw [List.find?_isSome]
    exact ⟨j, List.mem_finRange j, by simpa using hj⟩
  obtain ⟨i, hi⟩ := Option.isSome_iff_exists.mp hfind
  refine ⟨i, ?_, by simpa using List.find?_some hi⟩
  unfold State.getSlot
  rw [if_pos hpos]
  exact hi

def NoSlotBug (bug : Option Bug) : Prop :=
  bug ≠ some .bindSlot ∧ bug ≠ some .unbindSlot ∧ bug ≠ some .noSlot

theorem NoSlotBug.step (hslots : Slots s) (h : NoSlotBug s.bug) (hs : Step s l s') :
    NoSlotBug s'.bug := by
  cases hs with
  | halt _ b _ hunbind hslot =>
    have hno : ¬ (b = .noSlot ∨ b = .bindSlot) := by
      intro hb
      obtain ⟨hpc, hnone⟩ := hslot hb
      obtain ⟨i, hi, hempty⟩ := hslots.getSlot hpc
      exact hnone i hi hempty
    refine ⟨?_, ?_, ?_⟩
    · intro hb
      exact hno (Or.inr (Option.some.inj hb))
    · intro hb
      exact hunbind (Option.some.inj hb)
    · intro hb
      exact hno (Or.inl (Option.some.inj hb))
  | _ => exact h

theorem noSlotBug_reachable (h : Reachable s) : NoSlotBug s.bug :=
  Machine.Reachable.invariant_of (I := fun s => NoSlotBug s.bug) (fun _ => slots_reachable)
    ⟨nofun, nofun, nofun⟩ (fun _ _ _ hJ hI hs => NoSlotBug.step hJ hI (Step.of_step hs)) h

/-! ## The contract of the slots -/

theorem slotCmds_probed :
    probed.stream.filterMap Fed.slotCmd? = (List.finRange 16).map .unbind := by
  have hstream : probed.stream = (List.finRange 16).map fun i => ⟨unbindCmd i, .probe⟩ := rfl
  rw [hstream, List.filterMap_map]
  have hcmd : (Fed.slotCmd? ∘ fun i : Slot => (⟨unbindCmd i, .probe⟩ : Fed)) =
      fun i => some (SlotTable.Cmd.unbind i) := by
    funext i
    exact slotCmd_unbind i .probe
  rw [hcmd]
  exact congrFun List.filterMap_eq_map _

/-- Replaying the stream gives the driver's table, whatever the device started with. -/
theorem Slots.replay (h : Slots s) (table : Slot → Option BufId) :
    SlotTable.replay table (s.stream.filterMap Fed.slotCmd?) = s.buffSlots := by
  obtain ⟨rest, hrest, -, hreplay⟩ := h.1.replayed
  have hsplit : s.stream.filterMap Fed.slotCmd? =
      (List.finRange 16).map .unbind ++ rest.filterMap Fed.slotCmd? := by
    rw [State.stream, hrest, List.filterMap_append, slotCmds_probed]
  have hempty : SlotTable.replay table ((List.finRange 16).map .unbind) = fun _ => none := by
    funext i
    rw [SlotTable.replay_unbinds, if_pos (List.mem_finRange i)]
  rw [hsplit, SlotTable.replay_append, hempty]
  exact hreplay

/-- The driver's slot table, the slots of its buffers, its counter and the table of the device
agree. -/
structure SlotsAgree (s : State) : Prop where
  bound_iff : ∀ i b, s.buffSlots i = some b ↔ (s.bufs b).bindedSlot = some i
  free_eq : s.freeSlots = (Finset.univ.filter fun i => s.buffSlots i = none).card
  free_le : s.freeSlots ≤ 16
  /-- The event for binding finds a free slot. -/
  found : s.pc = .event .taskBindSlot → ∃ i, s.getSlot = some i ∧ s.buffSlots i = none
  noBug : s.bug ≠ some .bindSlot ∧ s.bug ≠ some .unbindSlot ∧ s.bug ≠ some .noSlot
  /-- After the sixteen commands of `dicedev_probe` every slot command fits, and whatever the
  device's table was before, replaying the stream gives the driver's table. -/
  replayed : ∃ rest, s.stream = probed.stream ++ rest ∧
    SlotTable.Legal (fun _ => none) (rest.filterMap Fed.slotCmd?) ∧
    (∀ table, SlotTable.replay table (s.stream.filterMap Fed.slotCmd?) = s.buffSlots) ∧
    ∀ f ∈ s.stream, f.type = userCmdTypeBindSlot → ∃ b, f.origin = .bind b

theorem slotsAgree_reachable (h : Reachable s) : SlotsAgree s := by
  have hslots := slots_reachable h
  obtain ⟨rest, hrest, hlegal, -⟩ := hslots.1.replayed
  refine ⟨hslots.1.agrees.mutual_iff, hslots.1.agrees.free_eq, ?_, hslots.getSlot,
    noSlotBug_reachable h, rest, hrest, hlegal, hslots.replay, ?_⟩
  · rw [hslots.1.agrees.free_eq]
    exact SlotTable.emptySlots_le s.buffSlots
  · intro f hf htype
    exact (shaped_reachable h hf).bind_origin htype

end Dicedev
