import Dicedev.Frames
import Dicedev.Lib.Tally

/-!
# Mappings

`memory_refined`: in an orderly run (`MemState.Orderly`: the allocator hands out frames that are
not in use, no context gets the address of the owner of a buffer that still exists, and the device
stores results only for words whose lowest slot bit is clear) a run over the memory is a run of
`System.lean`. A store through a mapping and a result of the device reach the page that they are
meant for and no other, and a table page is never written. In particular a mapping keeps its
buffer, and shows the frames in which the device looks for the pages of that buffer:
`mapping_exact`.

The invariant has two parts. `Framed`: the tables of the buffers that exist are in memory as
`dicedev_pt_init` has written them, in frames of their own. `Mapped`: the references to the files
are the descriptors and the mappings, so a buffer that is mapped has not been freed.
-/

namespace Dicedev

open State Tally

variable {s s' : State} {l : Label} {b : BufId} {pts : BufId → PageTable}
  {mem : Frame → Nat → Word}

/-! ## The invariant -/

/-- The table of the buffer is on its table page. -/
structure TableOf (pt : PageTable) (mem : Frame → Nat → Word) (buf : Buffer) : Prop where
  numPages : pt.numPages = buf.numPages
  dmaHandler : pt.dmaHandler = buf.dmaHandler
  stored : ∀ i < tableEntries, mem pt.dmaHandler i = pt.entries i
  fits : pt.numPages ≤ tableEntries
  present_iff : ∀ i < tableEntries, present (pt.entries i) = true ↔ i < pt.numPages
  page : ∀ i < pt.numPages, decodePtEntry (pt.entries i) = pt.pages i

/-- The tables of the buffers that exist are in memory, in frames of their own. -/
structure Framed (s : State) (pts : BufId → PageTable) (mem : Frame → Nat → Word) : Prop where
  table : ∀ b, (s.bufs b).freed = false → TableOf (pts b) mem (s.bufs b)
  apart : ∀ b b', (s.bufs b).freed = false → (s.bufs b').freed = false →
    ∀ k ≤ (pts b).numPages, ∀ k' ≤ (pts b').numPages,
      (pts b).frame k = (pts b').frame k' → b = b' ∧ k = k'

/-- The references to the files are the descriptors and the mappings, and a mapping shows pages
of its buffer. -/
structure Mapped (s : State) (x : MemState) : Prop where
  refs : ∀ b, x.fds b + tally (fun o => o.map Vma.buf = some b) x.vmas x.nVma = (s.bufs b).fdRefs
  known : ∀ v a, x.vmas v = some a → v < x.nVma
  pte : ∀ v a pgoff f, x.vmas v = some a → a.ptes pgoff = some f →
    pgoff < (x.pts a.buf).numPages ∧ (x.pts a.buf).pages pgoff = f

structure MemInv (x : MemState) : Prop where
  view : system.ReachableBy AddrFresh x.view
  framed : Framed x.view x.pts x.mem
  mapped : Mapped x.view x

variable {x y : MemState} {v : VmaId} {a : Vma}

theorem MemInv.of_view (hview : x.view = s) (hreach : system.ReachableBy AddrFresh s)
    (hframed : Framed s x.pts x.mem) (hmapped : Mapped s x) : MemInv x := by
  subst hview
  exact ⟨hreach, hframed, hmapped⟩

theorem Mapped.buf_live (hr : Reachable s) (h : Mapped s x) (ha : x.vmas v = some a) :
    (s.bufs a.buf).freed = false := by
  have hpos : 0 < tally (fun o => o.map Vma.buf = some a.buf) x.vmas x.nVma :=
    tally_pos (h.known v a ha) (by rw [ha]; rfl)
  have hrefs := h.refs a.buf
  cases hfreed : (s.bufs a.buf).freed with
  | false => rfl
  | true =>
    have hzero : (s.bufs a.buf).fdRefs = 0 :=
      (Owned.freed_unref (ownership_reachable hr) a.buf hfreed).2
    omega

/-- A step from `x` to `y` that looks like `l`. -/
structure Simulates (x y : MemState) (l : Option Label) : Prop where
  inv : MemInv y
  looks : x.Looks y l

/-! ## Steps of the driver -/

/-- A step that neither makes a buffer nor writes a page. -/
theorem Framed.step (h : Framed s pts mem) (hc : Coherent s pts mem) (hr : Reachable s)
    (hs : system.step s l = some s')
    (hset : ∀ c size allowed dma, l ≠ .createSet c size allowed dma)
    (hstore : ∀ b i j w, l ≠ .store b i j w) : Framed s' pts mem ∧ Coherent s' pts mem := by
  have hstep := Step.of_step hs
  have hn : s'.nBuf = s.nBuf := by
    rcases nBuf_step hstep with hn | ⟨c, size, allowed, dma, hl, -⟩
    · exact hn
    · exact absurd hl (hset c size allowed dma)
  have hkept : ∀ b, (s'.bufs b).freed = false → BufKept (s.bufs b) (s'.bufs b) := fun b hb =>
    bufKept_step hstep (hstore b) (hn ▸ lt_of_not_freed (hr.step hs) hb)
  refine ⟨⟨fun b hb => ?_, fun b b' hb hb' => ?_⟩, fun b hb i hi => ?_⟩
  · obtain ⟨-, hnum, hdma, hlive⟩ := hkept b hb
    obtain ⟨hnum', hdma', hstored, hfits, hpresent, hpage⟩ := h.table b (hlive hb)
    exact ⟨hnum'.trans hnum.symm, hdma'.trans hdma.symm, hstored, hfits, hpresent, hpage⟩
  · exact h.apart b b' ((hkept b hb).freed hb) ((hkept b' hb').freed hb')
  · obtain ⟨hpage, hnum, -, hlive⟩ := hkept b hb
    rw [hnum] at hi
    rw [hpage]
    exact hc b (hlive hb) i hi

/-- The driver takes a step, and the state with its result is the view of the memory again. -/
theorem MemInv.drive (h : MemInv x) (hl : AddrFresh x.view l) (hy : x.drive l = some y)
    (hset : ∀ c size allowed dma, l ≠ .createSet c size allowed dma)
    (hstore : ∀ b i j w, l ≠ .store b i j w) :
    system.step x.view l = some y.sys ∧ y = { x with sys := y.sys } ∧
      y.sys.through x.pts x.mem = y.sys ∧ system.ReachableBy AddrFresh y.sys ∧
      Framed y.sys x.pts x.mem := by
  obtain ⟨s, hs, rfl⟩ := Option.map_eq_some_iff.mp hy
  obtain ⟨hframed, hcoh⟩ := h.framed.step (coherent_through _ _ _) h.view.reachable hs hset hstore
  exact ⟨hs, rfl, hcoh.through_eq, .step h.view hl hs, hframed⟩

/-- After a step of the driver it is left to look at the references and the mappings. -/
theorem MemInv.of_drive (h : MemInv x) (hy : x.drive l = some y) (hl : AddrFresh x.view l)
    (hset : ∀ c size allowed dma, l ≠ .createSet c size allowed dma)
    (hstore : ∀ b i j w, l ≠ .store b i j w) {z : MemState} (hsys : z.sys = y.sys)
    (hpts : z.pts = x.pts) (hmem : z.mem = x.mem)
    (hmapped : Step x.view l y.sys → Mapped y.sys z) : Simulates x z (some l) := by
  obtain ⟨hs, -, hview, hreach, hframed⟩ := h.drive hl hy hset hstore
  have hz : z.view = y.sys := by
    rw [MemState.view, hsys, hpts, hmem]
    exact hview
  refine ⟨.of_view hz hreach ?_ (hmapped (Step.of_step hs)), hs.trans (congrArg some hz.symm)⟩
  rw [hpts, hmem]
  exact hframed

theorem MemInv.sys (h : MemInv x) (hl : AddrFresh x.view l) (hkind : l.refined = false)
    (hy : x.drive l = some y) : Simulates x y (some l) := by
  obtain ⟨s, hs, rfl⟩ := Option.map_eq_some_iff.mp hy
  refine h.of_drive hy hl (fun c size allowed dma heq => ?_) (fun b i j w heq => ?_) rfl rfl rfl
    fun _ => ⟨fun b => ?_, h.mapped.known, h.mapped.pte⟩
  · subst heq
    cases hkind
  · subst heq
    cases hkind
  · rw [fdRefs_sys h.view.reachable hs hkind b]
    exact h.mapped.refs b

theorem MemInv.dup (h : MemInv x) (hy : x.drive (.dup b) = some y) :
    Simulates x { y with fds := Function.update x.fds b (x.fds b + 1) } (some (.dup b)) := by
  obtain ⟨s, -, rfl⟩ := Option.map_eq_some_iff.mp hy
  refine h.of_drive hy trivial nofun nofun rfl rfl rfl
    fun hs => ⟨fun d => ?_, h.mapped.known, h.mapped.pte⟩
  have hrefs := h.mapped.refs d
  rw [fdRefs_dup hs d]
  dsimp only
  by_cases hbd : b = d
  · subst hbd
    rw [Function.update_self, if_pos rfl]
    omega
  · rw [Function.update_of_ne (Ne.symm hbd), if_neg hbd]
    omega

theorem MemInv.close (h : MemInv x) (hpos : 0 < x.fds b) (hy : x.drive (.close b) = some y) :
    Simulates x { y with fds := Function.update x.fds b (x.fds b - 1) } (some (.close b)) := by
  obtain ⟨s, -, rfl⟩ := Option.map_eq_some_iff.mp hy
  refine h.of_drive hy trivial nofun nofun rfl rfl rfl
    fun hs => ⟨fun d => ?_, h.mapped.known, h.mapped.pte⟩
  have hrefs := h.mapped.refs d
  have hclose := fdRefs_close hs d
  dsimp only at hclose ⊢
  by_cases hbd : b = d
  · subst hbd
    rw [if_pos rfl] at hclose
    rw [Function.update_self]
    omega
  · rw [if_neg hbd] at hclose
    rw [Function.update_of_ne (Ne.symm hbd)]
    omega

/-! ## Mappings come and go -/

theorem MemInv.addVma (h : MemInv x) (ha : ∀ pgoff f, a.ptes pgoff = some f →
      pgoff < (x.pts a.buf).numPages ∧ (x.pts a.buf).pages pgoff = f)
    (hy : x.addVma a = some y) : Simulates x y (some (.dup a.buf)) := by
  obtain ⟨z, hz, rfl⟩ := Option.map_eq_some_iff.mp hy
  obtain ⟨s, -, rfl⟩ := Option.map_eq_some_iff.mp hz
  refine h.of_drive hz trivial nofun nofun rfl rfl rfl fun hs => ⟨fun d => ?_, ?_, ?_⟩
  · have hrefs := h.mapped.refs d
    rw [fdRefs_dup hs d]
    dsimp only
    rw [tally_push]
    simp only [Option.map_some, Option.some.injEq]
    omega
  · intro v b hb
    dsimp only at hb ⊢
    by_cases hv : v = x.nVma
    · exact hv ▸ Nat.lt_succ_self _
    · rw [Function.update_of_ne hv] at hb
      exact Nat.lt_succ_of_lt (h.mapped.known v b hb)
  · intro v b pgoff f hb hf
    dsimp only at hb ⊢
    by_cases hv : v = x.nVma
    · subst hv
      rw [Function.update_self] at hb
      cases hb
      exact ha pgoff f hf
    · rw [Function.update_of_ne hv] at hb
      exact h.mapped.pte v b pgoff f hb hf

theorem MemInv.munmap (h : MemInv x) (ha : x.vmas v = some a)
    (hy : x.drive (.close a.buf) = some y) :
    Simulates x { y with vmas := Function.update x.vmas v none } (some (.close a.buf)) := by
  obtain ⟨s, -, rfl⟩ := Option.map_eq_some_iff.mp hy
  have hother : ∀ {u : VmaId} {b : Vma}, Function.update x.vmas v none u = some b →
      x.vmas u = some b := by
    intro u b hu
    by_cases huv : u = v
    · subst huv
      rw [Function.update_self] at hu
      cases hu
    · rwa [Function.update_of_ne huv] at hu
  refine h.of_drive hy trivial nofun nofun rfl rfl rfl fun hs => ⟨fun d => ?_, ?_, ?_⟩
  · have hrefs := h.mapped.refs d
    have hclose := fdRefs_close hs d
    have hset := tally_set (P := fun o : Option Vma => o.map Vma.buf = some d) (f := x.vmas)
      (x := none) (h.mapped.known v a ha)
    simp only [ha, Option.map_some, Option.some.injEq, Option.map_none, reduceCtorEq,
      if_false] at hset
    dsimp only at hclose ⊢
    omega
  · exact fun u b hu => h.mapped.known u b (hother hu)
  · exact fun u b pgoff f hu => h.mapped.pte u b pgoff f (hother hu)

theorem MemInv.fault (h : MemInv x) (ha : x.vmas v = some a) (pgoff : Nat) :
    Simulates x
      { x with vmas := Function.update x.vmas v (some (a.fault (x.pts a.buf) pgoff)) } none := by
  have hbuf : (a.fault (x.pts a.buf) pgoff).buf = a.buf := by
    unfold Vma.fault
    split <;> rfl
  have hpte : ∀ i f, (a.fault (x.pts a.buf) pgoff).ptes i = some f →
      i < (x.pts a.buf).numPages ∧ (x.pts a.buf).pages i = f := by
    intro i f hf
    unfold Vma.fault dicedevBufferVmFault at hf
    split at hf
    · exact h.mapped.pte v a i f ha hf
    · rename_i g hg
      split at hg
      · cases hg
      · rename_i hlt
        cases hg
        dsimp only at hf
        by_cases hi : i = pgoff
        · subst hi
          rw [Function.update_self] at hf
          exact ⟨Nat.lt_of_not_le hlt, Option.some.inj hf⟩
        · rw [Function.update_of_ne hi] at hf
          exact h.mapped.pte v a i f ha hf
  refine ⟨⟨h.view, h.framed, fun d => ?_, fun u b hu => ?_, fun u b i f hu hf => ?_⟩, rfl⟩
  · have hset := tally_set (P := fun o : Option Vma => o.map Vma.buf = some d) (f := x.vmas)
      (x := some (a.fault (x.pts a.buf) pgoff)) (h.mapped.known v a ha)
    simp only [ha, Option.map_some, hbuf] at hset
    have hrefs := h.mapped.refs d
    exact (congrArg (x.fds d + ·) (Nat.add_right_cancel hset)).trans hrefs
  · dsimp only at hu ⊢
    by_cases huv : u = v
    · exact huv ▸ h.mapped.known v a ha
    · rw [Function.update_of_ne huv] at hu
      exact h.mapped.known u b hu
  · dsimp only at hu ⊢
    by_cases huv : u = v
    · subst huv
      rw [Function.update_self] at hu
      cases hu
      rw [hbuf]
      exact hpte i f hf
    · rw [Function.update_of_ne huv] at hu
      exact h.mapped.pte u b i f hu hf

/-! ## Stores -/

/-- A frame that holds one page only is written. -/
theorem through_update {i : Nat} (hb : (s.bufs b).freed = false) (hi : i < (s.bufs b).numPages)
    (hone : ∀ d i', (s.bufs d).freed = false → i' < (s.bufs d).numPages →
      (pts d).pages i' = (pts b).pages i → d = b ∧ i' = i) (g : Nat → Word) :
    s.through pts (Function.update mem ((pts b).pages i) g) =
      (s.through pts mem).updBuf b fun buf =>
        { buf with page := Function.update buf.page i g } := by
  refine congrArg (fun bufs => { s with bufs := bufs }) (funext fun d => ?_)
  change (s.through pts _).bufs d = Function.update (s.through pts mem).bufs b _ d
  by_cases hd : d = b
  · subst hd
    rw [Function.update_self, through_page hb, through_page hb]
    refine congrArg (fun page => { s.bufs d with page := page }) (funext fun i' => ?_)
    by_cases hi' : i' = i
    · subst hi'
      rw [if_pos hi, Function.update_self, Function.update_self]
    · rw [Function.update_of_ne hi']
      dsimp only
      by_cases hlt : i' < (s.bufs d).numPages
      · rw [if_pos hlt, if_pos hlt,
          Function.update_of_ne fun heq => hi' (hone d i' hb hlt heq).2]
      · rw [if_neg hlt, if_neg hlt]
  · rw [Function.update_of_ne hd]
    cases hfreed : (s.bufs d).freed with
    | true => rw [through_bufs hfreed, through_bufs hfreed]
    | false =>
      rw [through_page hfreed, through_page hfreed]
      refine congrArg (fun page => { s.bufs d with page := page }) (funext fun i' => ?_)
      by_cases hlt : i' < (s.bufs d).numPages
      · rw [if_pos hlt, if_pos hlt,
          Function.update_of_ne fun heq => hd (hone d i' hfreed hlt heq).1]
      · rw [if_neg hlt, if_neg hlt]

/-- A store into the frame of a page is a store into that page of the view. -/
theorem view_store (h : Framed x.view x.pts x.mem) (hb : (x.view.bufs b).freed = false) {i : Nat}
    (hi : i < (x.view.bufs b).numPages) (j : Nat) (w : Word) :
    (x.store ((x.pts b).pages i) j w).view = x.view.storeWord b i j w := by
  have hpage : (x.view.bufs b).page i = x.mem ((x.pts b).pages i) :=
    coherent_through _ _ _ b hb i hi
  have hone : ∀ d i', (x.view.bufs d).freed = false → i' < (x.view.bufs d).numPages →
      (x.pts d).pages i' = (x.pts b).pages i → d = b ∧ i' = i := by
    intro d i' hd hi' heq
    have hk : i' + 1 ≤ (x.pts d).numPages := by rw [(h.table d hd).numPages]; exact hi'
    have hk' : i + 1 ≤ (x.pts b).numPages := by rw [(h.table b hb).numPages]; exact hi
    obtain ⟨hdb, hii⟩ := h.apart d b hd hb _ hk _ hk' heq
    exact ⟨hdb, Nat.succ.inj hii⟩
  simp only [MemState.view, through_freed, through_numPages] at hb hi hone
  refine (through_update hb hi hone (Function.update (x.mem ((x.pts b).pages i)) j w)).trans ?_
  rw [← hpage]
  rfl

theorem MemInv.store (h : MemInv x) (hbug : x.sys.bug = none)
    (hb : (x.view.bufs b).freed = false) {i : Nat} (hi : i < (x.pts b).numPages) (j : Nat)
    (w : Word) : Simulates x (x.store ((x.pts b).pages i) j w) (some (.store b i j w)) := by
  have htable := h.framed.table b hb
  have hview := view_store h.framed hb (htable.numPages ▸ hi) j w
  have hs : system.step x.view (.store b i j w) = some (x.view.storeWord b i j w) := if_pos hbug
  have hreach : system.ReachableBy AddrFresh (x.view.storeWord b i j w) :=
    .step (l := .store b i j w) h.view trivial hs
  -- nothing but the page of the buffer changes
  have hfields : ∀ d, ∃ page, (x.view.storeWord b i j w).bufs d =
      { x.view.bufs d with page := page } := by
    intro d
    by_cases hd : d = b
    · subst hd
      exact ⟨_, Function.update_self ..⟩
    · exact ⟨(x.view.bufs d).page, Function.update_of_ne hd ..⟩
  have hfreed : ∀ d, ((x.view.storeWord b i j w).bufs d).freed = (x.view.bufs d).freed := by
    intro d
    obtain ⟨page, hd⟩ := hfields d
    rw [hd]
  refine ⟨.of_view hview hreach ⟨fun d hd => ?_, fun d d' hd hd' => ?_⟩
    ⟨fun d => ?_, h.mapped.known, h.mapped.pte⟩, hs.trans (congrArg some hview.symm)⟩
  · rw [hfreed] at hd
    have hold := h.framed.table d hd
    have hframe : (x.pts d).dmaHandler ≠ (x.pts b).pages i := by
      intro heq
      have hsame := h.framed.apart d b hd hb 0 (Nat.zero_le _) (i + 1) hi heq
      cases hsame.2
    obtain ⟨page, hpage⟩ := hfields d
    rw [hpage]
    refine ⟨hold.numPages, hold.dmaHandler, fun k hk => ?_, hold.fits, hold.present_iff,
      hold.page⟩
    change Function.update x.mem _ _ (x.pts d).dmaHandler k = _
    rw [Function.update_of_ne hframe]
    exact hold.stored k hk
  · rw [hfreed] at hd hd'
    exact h.framed.apart d d' hd hd'
  · obtain ⟨page, hpage⟩ := hfields d
    rw [hpage]
    exact h.mapped.refs d

/-! ## A new buffer -/

section

variable {env : PtEnv} {size : Nat} {pt : PageTable}

/-- The frames of a new table are those that the allocator has given. -/
theorem frame_of_ptInit (hinit : (dicedevPtInit env size).1 = .ok pt) :
    pt.numPages = numPagesFor size ∧ ∀ k ≤ numPagesFor size, env.frame k = some (pt.frame k) := by
  have hend := dicedevPtInit_end env size
  rw [hinit] at hend
  generalize (dicedevPtInit env size).2 = log at hend
  cases hend with
  | ok dma _ htable harray hpages =>
    refine ⟨hpages.numPages, fun k hk => ?_⟩
    cases k with
    | zero =>
      rw [PtEnv.frame, PageTable.frame, htable, hpages.dmaHandler]
      rfl
    | succ i =>
      obtain ⟨addr, haddr, hpage, -⟩ := hpages.entry i (Nat.zero_le i) (by omega)
      rw [PtEnv.frame, PageTable.frame, haddr, hpage]

theorem layout_of_ptInit (hdma : env.Dma) (hsize : size ≤ maxBufferSize)
    (hinit : (dicedevPtInit env size).1 = .ok pt) : TableLayout env size pt := by
  have hend := dicedevPtInit_end env size
  rw [hinit] at hend
  obtain ⟨-, -, dma, hfilled⟩ := hend.ready
  exact hfilled.layout hdma (numPagesFor_le hsize)

theorem withTable_other {f : Frame} (h : ∀ k ≤ pt.numPages, pt.frame k ≠ f) :
    MemState.withTable mem pt f = mem f := by
  unfold MemState.withTable
  rw [if_neg fun heq => h 0 (Nat.zero_le _) heq.symm, if_neg]
  rintro ⟨i, hi, heq⟩
  exact h (i + 1) hi heq

theorem withTable_page (hne : ∀ i < pt.numPages, pt.pages i ≠ pt.dmaHandler) {i : Nat}
    (hi : i < pt.numPages) : MemState.withTable mem pt (pt.pages i) = fun _ => 0 := by
  unfold MemState.withTable
  rw [if_neg (hne i hi), if_pos ⟨i, hi, rfl⟩]

theorem bufs_createSet {c : CtxId} {allowed dma : BitVec 64}
    (hok : ¬ (size > maxBufferSize ∨ allowed.toNat > maxAllowed))
    (hs : system.step s (.createSet c size allowed dma) = some s') :
    s'.nBuf = s.nBuf + 1 ∧
      s'.bufs = Function.update s.bufs s.nBuf (newBuffer c size allowed dma) := by
  have hhandle : s.dicedevIoctlCreateSet c size allowed dma = some s' := handle_of_step hs
  rw [dicedevIoctlCreateSet, if_neg hok] at hhandle
  split at hhandle
  · cases hhandle
    exact ⟨rfl, rfl⟩
  · cases hhandle

theorem TableOf.new {c : CtxId} {allowed : BitVec 64} (hpt : TableLayout env size pt)
    (hnum : pt.numPages = numPagesFor size) :
    TableOf pt (MemState.withTable mem pt) (newBuffer c size allowed pt.dmaHandler) := by
  refine ⟨hnum, rfl, fun i _ => ?_, hpt.fits, fun i hi => ?_, fun i hi => ?_⟩
  · rw [MemState.withTable, if_pos rfl]
  · refine ⟨fun hpresent => Nat.lt_of_not_le fun hle => ?_, hpt.present i⟩
    rw [hpt.absent i hle hi] at hpresent
    cases hpresent
  · exact (hpt.entry i hi).2.symm

/-- A new table leaves the other tables where they are. -/
theorem TableOf.withTable {pt' : PageTable} {buf : Buffer} (h : TableOf pt' mem buf)
    (hother : ∀ k ≤ pt.numPages, pt.frame k ≠ pt'.frame 0) :
    TableOf pt' (MemState.withTable mem pt) buf := by
  refine ⟨h.numPages, h.dmaHandler, fun i hi => ?_, h.fits, h.present_iff, h.page⟩
  rw [← h.stored i hi]
  exact congrFun (withTable_other hother) i

section

variable (hdistinct : ∀ k ≤ pt.numPages, ∀ k' ≤ pt.numPages, pt.frame k = pt.frame k' → k = k')
  (hunused : ∀ b, (s.bufs b).freed = false → ∀ k ≤ (pts b).numPages, ∀ k' ≤ pt.numPages,
    pt.frame k' ≠ (pts b).frame k)

include hdistinct hunused

/-- Fresh frames are apart from those of the other buffers. -/
theorem Framed.apart_update {n : BufId} (h : Framed s pts mem)
    (hold : ∀ b, b ≠ n → s'.bufs b = s.bufs b) :
    ∀ b b', (s'.bufs b).freed = false → (s'.bufs b').freed = false →
      ∀ k ≤ (Function.update pts n pt b).numPages, ∀ k' ≤ (Function.update pts n pt b').numPages,
        (Function.update pts n pt b).frame k = (Function.update pts n pt b').frame k' →
          b = b' ∧ k = k' := by
  intro b b' hb hb' k hk k' hk' heq
  by_cases hbn : b = n
  · by_cases hbn' : b' = n
    · subst hbn
      subst hbn'
      rw [Function.update_self] at hk hk' heq
      exact ⟨rfl, hdistinct k hk k' hk' heq⟩
    · subst hbn
      rw [Function.update_self] at hk heq
      rw [Function.update_of_ne hbn'] at hk' heq
      rw [hold b' hbn'] at hb'
      exact absurd heq (hunused b' hb' k' hk' k hk)
  · rw [Function.update_of_ne hbn] at hk heq
    rw [hold b hbn] at hb
    by_cases hbn' : b' = n
    · subst hbn'
      rw [Function.update_self] at hk' heq
      exact absurd heq.symm (hunused b hb k hk k' hk')
    · rw [Function.update_of_ne hbn'] at hk' heq
      rw [hold b' hbn'] at hb'
      exact h.apart b b' hb hb' k hk k' hk' heq

/-- A buffer with fresh frames joins the others. -/
theorem Framed.createSet {c : CtxId} {allowed : BitVec 64} (h : Framed s pts mem)
    (hc : Coherent s pts mem) (hpt : TableLayout env size pt)
    (hnum : pt.numPages = numPagesFor size)
    (hbufs : s'.bufs = Function.update s.bufs s.nBuf (newBuffer c size allowed pt.dmaHandler)) :
    Framed s' (Function.update pts s.nBuf pt) (MemState.withTable mem pt) ∧
      Coherent s' (Function.update pts s.nBuf pt) (MemState.withTable mem pt) := by
  have hnew : s'.bufs s.nBuf = newBuffer c size allowed pt.dmaHandler := by
    rw [hbufs, Function.update_self]
  have hold : ∀ b, b ≠ s.nBuf → s'.bufs b = s.bufs b := by
    intro b hb
    rw [hbufs, Function.update_of_ne hb]
  have hpages : ∀ i < pt.numPages, pt.pages i ≠ pt.dmaHandler := by
    intro i hi heq
    cases hdistinct (i + 1) hi 0 (Nat.zero_le _) heq
  refine ⟨⟨fun b hb => ?_, h.apart_update hdistinct hunused hold⟩, fun b hb i hi => ?_⟩
  · by_cases hbn : b = s.nBuf
    · subst hbn
      rw [Function.update_self, hnew]
      exact .new hpt hnum
    · rw [hold b hbn] at hb ⊢
      rw [Function.update_of_ne hbn]
      exact (h.table b hb).withTable (hunused b hb 0 (Nat.zero_le _))
  · by_cases hbn : b = s.nBuf
    · subst hbn
      rw [hnew] at hi ⊢
      rw [Function.update_self]
      exact (withTable_page hpages (hnum ▸ hi)).symm
    · rw [hold b hbn] at hb hi ⊢
      rw [Function.update_of_ne hbn]
      have hlt : i + 1 ≤ (pts b).numPages := by rw [(h.table b hb).numPages]; exact hi
      exact (hc b hb i hi).trans (withTable_other (hunused b hb (i + 1) hlt)).symm

end

end

section

variable {env : PtEnv} {size : Nat} {pt : PageTable}

/-- What `FreshFrames` says about the frames of the new table. -/
theorem MemState.FreshFrames.distinct (h : x.FreshFrames env size)
    (hframe : ∀ k ≤ numPagesFor size, env.frame k = some (pt.frame k)) :
    ∀ k ≤ numPagesFor size, ∀ k' ≤ numPagesFor size, pt.frame k = pt.frame k' → k = k' := by
  intro k hk k' hk' heq
  refine h.1 k hk k' hk' ?_
  rw [hframe k hk, hframe k' hk', heq]

theorem MemState.FreshFrames.unused (h : x.FreshFrames env size) (hr : Reachable x.view)
    (hframe : ∀ k ≤ numPagesFor size, env.frame k = some (pt.frame k)) :
    ∀ b, (x.view.bufs b).freed = false → ∀ k ≤ (x.pts b).numPages, ∀ k' ≤ numPagesFor size,
      pt.frame k' ≠ (x.pts b).frame k := by
  intro b hb k hk k' hk' heq
  have hlt := lt_of_not_freed hr hb
  rw [MemState.view, through_freed] at hb
  exact h.2 b hlt hb k hk k' hk' (by rw [hframe k' hk', heq])

/-- The new file has one descriptor and no mapping. -/
theorem Mapped.createSet {c : CtxId} {allowed dma : BitVec 64} {z : MemState} (h : Mapped s x)
    (hr : Reachable s)
    (hbufs : s'.bufs = Function.update s.bufs s.nBuf (newBuffer c size allowed dma))
    (hpts : z.pts = Function.update x.pts s.nBuf pt)
    (hfds : z.fds = Function.update x.fds s.nBuf 1) (hvmas : z.vmas = x.vmas)
    (hnVma : z.nVma = x.nVma) : Mapped s' z := by
  refine ⟨fun b => ?_, fun v a ha => ?_, fun v a pgoff f ha hf => ?_⟩
  · have hrefs := h.refs b
    rw [hfds, hvmas, hnVma, hbufs]
    by_cases hb : b = s.nBuf
    · subst hb
      rw [fdRefs_eq_zero hr (Nat.le_refl _)] at hrefs
      rw [Function.update_self, Function.update_self]
      change 1 + _ = 1
      omega
    · rw [Function.update_of_ne hb, Function.update_of_ne hb]
      exact hrefs
  · rw [hvmas] at ha
    exact hnVma ▸ h.known v a ha
  · rw [hvmas] at ha
    have hne : a.buf ≠ s.nBuf := Nat.ne_of_lt (lt_of_not_freed hr (h.buf_live hr ha))
    rw [hpts, Function.update_of_ne hne]
    exact h.pte v a pgoff f ha hf

end

theorem MemInv.createSet {c : CtxId} {env : DmaEnv} {size : Nat} {allowed : BitVec 64}
    (h : MemInv x) (hfresh : x.FreshFrames env.toPtEnv size)
    (hy : x.createSet c env size allowed = some y) :
    Simulates x y (x.image (.createSet c env size allowed)) := by
  rw [MemState.createSet] at hy
  rw [MemState.image]
  split at hy
  · -- the request is refused
    rename_i hbad
    obtain ⟨s, hs, rfl⟩ := Option.map_eq_some_iff.mp hy
    have hsame : s = x.view := by
      have hhandle : x.view.dicedevIoctlCreateSet c size allowed 0 = some s := handle_of_step hs
      rw [dicedevIoctlCreateSet, if_pos hbad] at hhandle
      split at hhandle
      · exact (Option.some.inj hhandle).symm
      · cases hhandle
    have hview : MemState.view { x with sys := s } = s := by
      rw [hsame]
      exact (coherent_through _ _ _).through_eq
    rw [if_pos hbad]
    refine ⟨.of_view (hview.trans hsame) h.view h.framed ?_, hs.trans (congrArg some hview.symm)⟩
    exact ⟨h.mapped.refs, h.mapped.known, h.mapped.pte⟩
  · rename_i hok
    rw [if_neg hok]
    split at hy
    · cases hy
      exact ⟨h, rfl⟩
    · rename_i pt hinit
      obtain ⟨z, hz, rfl⟩ := Option.map_eq_some_iff.mp hy
      obtain ⟨s, hs, rfl⟩ := Option.map_eq_some_iff.mp hz
      obtain ⟨hnum, hframe⟩ := frame_of_ptInit hinit
      have hlayout := layout_of_ptInit env.dma (Nat.le_of_not_lt fun hlt => hok (Or.inl hlt)) hinit
      obtain ⟨-, hbufs⟩ := bufs_createSet hok hs
      have hdistinct := hfresh.distinct hframe
      have hunused := hfresh.unused h.view.reachable hframe
      rw [← hnum] at hdistinct hunused
      obtain ⟨hframed, hcoh⟩ := Framed.createSet hdistinct hunused h.framed
        (coherent_through _ _ _) hlayout hnum hbufs
      have hreach : system.ReachableBy AddrFresh s :=
        .step (l := .createSet c size allowed pt.dmaHandler) h.view trivial hs
      refine ⟨.of_view hcoh.through_eq hreach hframed ?_, ?_⟩
      · exact h.mapped.createSet h.view.reachable hbufs rfl rfl rfl rfl
      · exact hs.trans (congrArg some hcoh.through_eq.symm)

/-! ## The device -/

theorem origin_of_task {f : Fed} (h : f.task? ≠ none) :
    ∃ t user slot, f.origin = .task t user slot := by
  unfold Fed.task? at h
  split at h
  · rename_i t user slot ho
    exact ⟨t, user, slot, ho⟩
  · exact absurd rfl h

/-- The device finds the frame of a page of the buffer of the command, which is still there. -/
theorem walk_page {table : Slot → Option SlotEntry} {n i : Nat} {f : Frame} (h : MemInv x)
    (hbit : ∀ f ∈ x.view.stream[n]?, MemState.ClearBit f = true)
    (hw : x.walk table n i = some f) :
    ∃ t, x.view.stream[n]?.bind Fed.task? = some t ∧
      (x.view.bufs (x.view.out t)).freed = false ∧ i < (x.pts (x.view.out t)).numPages ∧
      (x.pts (x.view.out t)).pages i = f := by
  unfold MemState.walk at hw
  obtain ⟨g, hg, hw⟩ := Option.bind_eq_some_iff.mp hw
  split at hw
  · rename_i hguard
    obtain ⟨htask, hflight, hi⟩ := hguard
    obtain ⟨e, he, hw⟩ := Option.bind_eq_some_iff.mp hw
    split at hw
    · rename_i hpresent
      obtain ⟨t, user, slot, ho⟩ := origin_of_task htask
      obtain ⟨hlt, hget⟩ := List.getElem?_eq_some_iff.mp hg
      have hsplit : x.view.stream = x.view.stream.take n ++ g :: x.view.stream.drop (n + 1) := by
        rw [← hget, ← List.drop_eq_getElem_cons hlt, List.take_append_drop]
      have hclear : user.getLsbD g.slotPos = false := by
        have hb := hbit g hg
        obtain ⟨words, o⟩ := g
        cases ho
        simpa [MemState.ClearBit] using hb
      have hin : x.view.InFlight (x.view.stream.take n) := by
        rw [State.InFlight, List.length_take_of_le (Nat.le_of_lt hlt)]
        exact hflight
      obtain ⟨-, hlive⟩ := out_live_of_inFlight h.view hsplit ho hin
      obtain ⟨e', he', hdescr⟩ := slot_describes h.view hsplit ho hclear table
      cases he.symm.trans he'
      have htable := h.framed.table _ hlive
      have hword : x.mem e.dma i = (x.pts (x.view.out t)).entries i := by
        rw [hdescr.2, ← htable.dmaHandler]
        exact htable.stored i hi
      rw [hword] at hpresent hw
      have hpage := (htable.present_iff i hi).mp hpresent
      refine ⟨t, ?_, hlive, hpage, (htable.page i hpage).symm.trans (Option.some.inj hw)⟩
      rw [hg, Option.bind_some, Fed.task?, ho]
    · cases hw
  · cases hw

/-! ## Whole runs -/

theorem MemInv.start : MemInv MemState.start := by
  have hcoh : Coherent probed (fun _ => .empty 0 0) fun _ _ => 0 := fun b hb => by cases hb
  refine .of_view hcoh.through_eq .init ⟨fun b hb => ?_, fun b b' hb => ?_⟩
    ⟨fun b => rfl, nofun, nofun⟩
  · cases hb
  · cases hb

theorem MemInv.simulates {table : Slot → Option SlotEntry} {l : MemLabel} (h : MemInv x)
    (hC : x.Orderly l) (hs : (memSystem table).step x l = some y) :
    Simulates x y (x.image l) := by
  change x.step table l = some y at hs
  unfold MemState.step at hs
  split at hs
  · rename_i hbug
    cases l with
    | sys l =>
      dsimp only at hs
      split at hs
      · cases hs
      · rename_i hl
        exact h.sys hC (Bool.not_eq_true _ ▸ hl) hs
    | createSet c env size allowed => exact h.createSet hC hs
    | dup b =>
      dsimp only at hs
      split at hs
      · obtain ⟨z, hz, rfl⟩ := Option.map_eq_some_iff.mp hs
        exact h.dup hz
      · cases hs
    | close b =>
      dsimp only at hs
      split at hs
      · rename_i hpos
        obtain ⟨z, hz, rfl⟩ := Option.map_eq_some_iff.mp hs
        exact h.close hpos hz
      · cases hs
    | mmap b =>
      dsimp only at hs
      split at hs
      · exact h.addVma (fun _ _ hf => by cases hf) hs
      · cases hs
    | fork v =>
      obtain ⟨a, ha, hs⟩ := Option.bind_eq_some_iff.mp hs
      rw [MemState.image, ha]
      exact h.addVma (fun pgoff f => h.mapped.pte v a pgoff f ha) hs
    | munmap v =>
      obtain ⟨a, ha, hs⟩ := Option.bind_eq_some_iff.mp hs
      obtain ⟨z, hz, rfl⟩ := Option.map_eq_some_iff.mp hs
      rw [MemState.image, ha]
      exact h.munmap ha hz
    | fault v pgoff =>
      obtain ⟨a, ha, rfl⟩ := Option.map_eq_some_iff.mp hs
      exact h.fault ha pgoff
    | userStore v pgoff j w =>
      obtain ⟨a, ha, hs⟩ := Option.bind_eq_some_iff.mp hs
      obtain ⟨f, hf, rfl⟩ := Option.map_eq_some_iff.mp hs
      obtain ⟨hlt, rfl⟩ := h.mapped.pte v a pgoff f ha hf
      rw [MemState.image, ha]
      exact h.store hbug (h.mapped.buf_live h.view.reachable ha) hlt j w
    | deviceStore n i j w =>
      obtain ⟨f, hf, rfl⟩ := Option.map_eq_some_iff.mp hs
      obtain ⟨t, ht, hb, hlt, rfl⟩ := walk_page h hC hf
      rw [MemState.image, ht]
      exact h.store hbug hb hlt j w
  · cases hs

theorem memInv_reachable {table : Slot → Option SlotEntry}
    (h : (memSystem table).ReachableBy MemState.Orderly x) : MemInv x :=
  h.invariant MemInv.start fun _ _ _ hI hC hs => (hI.simulates hC hs).inv

/-- In orderly runs the driver over a memory of frames refines the driver whose buffers have pages
of their own. -/
theorem memory_refined {table : Slot → Option SlotEntry} {l : MemLabel}
    (h : (memSystem table).ReachableBy MemState.Orderly x) (hC : x.Orderly l)
    (hs : (memSystem table).step x l = some y) :
    system.ReachableBy AddrFresh x.view ∧ x.Looks y (x.image l) :=
  ⟨(memInv_reachable h).view, ((memInv_reachable h).simulates hC hs).looks⟩

/-- An allocator with one page. -/
def onePage : DmaEnv where
  tablePage := some 0x1000
  pageArray := true
  page := fun i => if i = 0 then some 0x2000 else none
  dma := by
    have haddr : ∀ i addr, (if i = 0 then some (0x2000 : BitVec 64) else none) = some addr →
        addr = 0x2000 := by
      intro i addr h
      split at h
      · exact (Option.some.inj h).symm
      · cases h
    constructor
    · intro i addr h
      rw [haddr i addr h]
      decide
    · intro i addr h
      rw [haddr i addr h]
      decide

/-- The state after a run over the memory, seen through `f`. -/
theorem exists_seenOver {α : Type} {ls : List MemLabel} {f : MemState → α} {r : α}
    (h : (((memSystem fun _ => none).guarded MemState.Orderly).exec MemState.start ls).map f =
      some r) : ∃ x, (memSystem fun _ => none).ReachableBy MemState.Orderly x ∧ f x = r := by
  obtain ⟨x, hx, hr⟩ := Option.map_eq_some_iff.mp h
  exact ⟨x, Machine.ReachableBy.of_guarded (m := memSystem fun _ => none) .init hx, hr⟩

/-- The device writes a result of a `GET_DIE` whose fence has not been fed. -/
theorem memory_refined_die :
    ∃ x y, (memSystem fun _ => none).ReachableBy MemState.Orderly x ∧
      x.Orderly (.deviceStore 17 0 3 0x2a) ∧
      (memSystem fun _ => none).step x (.deviceStore 17 0 3 0x2a) = some y ∧
      system.step x.view (.store 0 0 3 0x2a) = some y.view := by
  have hseen : (((memSystem fun _ => none).guarded MemState.Orderly).exec MemState.start
      ([.sys (.openCtx 7), .createSet 0 onePage 4096 0x20, .sys (.write 0 8),
        .sys (.writeQueue 0 (getDieWords 0x12))] ++ List.replicate 10 (.sys .worker))).map
      (fun x => (decide (x.Orderly (.deviceStore 17 0 3 0x2a)),
        ((memSystem fun _ => none).step x (.deviceStore 17 0 3 0x2a)).isSome,
        x.view.stream[17]?.bind Fed.task?, x.view.out 0)) = some (true, true, some 0, 0) := by
    decide +kernel
  obtain ⟨x, hr, hx⟩ := exists_seenOver hseen
  simp only [Prod.mk.injEq, decide_eq_true_eq, Option.isSome_iff_exists] at hx
  obtain ⟨hC, ⟨y, hy⟩, htask, hout⟩ := hx
  obtain ⟨-, hlooks⟩ := memory_refined hr hC hy
  rw [MemState.image, htask, Option.map_some, hout] at hlooks
  exact ⟨x, y, hr, hC, hy, hlooks⟩

/-- In orderly runs a mapping keeps its buffer. The frames that it shows are those in which the
device looks for the pages of the buffer; they hold these pages, and other mappings show them for
the same page of the same buffer only. -/
theorem mapping_exact {table : Slot → Option SlotEntry}
    (h : (memSystem table).ReachableBy MemState.Orderly x) (ha : x.vmas v = some a) :
    a.buf < x.sys.nBuf ∧ (x.sys.bufs a.buf).freed = false ∧
      ∀ pgoff f, a.ptes pgoff = some f → pgoff < (x.sys.bufs a.buf).numPages ∧
        decodePtEntry (x.mem (x.sys.bufs a.buf).dmaHandler pgoff) = f ∧
        x.mem f = (x.view.bufs a.buf).page pgoff ∧
        ∀ v' a' pgoff', x.vmas v' = some a' → a'.ptes pgoff' = some f →
          a'.buf = a.buf ∧ pgoff' = pgoff := by
  have hI := memInv_reachable h
  have hr := hI.view.reachable
  have hlive := hI.mapped.buf_live hr ha
  have htable := hI.framed.table a.buf hlive
  have hfreed : (x.sys.bufs a.buf).freed = false := by
    rwa [MemState.view, through_freed] at hlive
  have hbuf : a.buf < x.view.nBuf := lt_of_not_freed hr hlive
  refine ⟨hbuf, hfreed, fun pgoff f hf => ?_⟩
  obtain ⟨hlt, hpage⟩ := hI.mapped.pte v a pgoff f ha hf
  have hnum : pgoff < (x.view.bufs a.buf).numPages := htable.numPages ▸ hlt
  have hdma : (x.pts a.buf).dmaHandler = (x.sys.bufs a.buf).dmaHandler := by
    obtain ⟨page, heq⟩ := through_fields x.sys x.pts x.mem a.buf
    rw [htable.dmaHandler, MemState.view, heq]
  refine ⟨?_, ?_, ?_, fun v' a' pgoff' ha' hf' => ?_⟩
  · rwa [MemState.view, through_numPages] at hnum
  · rw [← hdma, htable.stored pgoff (Nat.lt_of_lt_of_le hlt htable.fits), htable.page pgoff hlt,
      hpage]
  · rw [← hpage]
    exact (coherent_through _ _ _ a.buf hlive pgoff hnum).symm
  · obtain ⟨hlt', hpage'⟩ := hI.mapped.pte v' a' pgoff' f ha' hf'
    obtain ⟨hsame, hoff⟩ := hI.framed.apart a'.buf a.buf (hI.mapped.buf_live hr ha') hlive
      (pgoff' + 1) hlt' (pgoff + 1) hlt (hpage'.trans hpage.symm)
    exact ⟨hsame, Nat.succ.inj hoff⟩

/-- A buffer of one page that is mapped twice. -/
theorem mapping_exact_fork :
    ∃ x a a', (memSystem fun _ => none).ReachableBy MemState.Orderly x ∧
      x.vmas 0 = some a ∧ x.vmas 1 = some a' ∧ a.ptes 0 = some 0x2000 ∧ a'.ptes 0 = some 0x2000 ∧
      (x.sys.bufs a.buf).freed = false ∧ a'.buf = a.buf := by
  have hseen : (((memSystem fun _ => none).guarded MemState.Orderly).exec MemState.start
      [.sys (.openCtx 7), .createSet 0 onePage 4096 0x20, .mmap 0, .fork 0, .fault 0 0,
        .fault 1 0]).map
      (fun x => ((x.vmas 0).map fun a => a.ptes 0, (x.vmas 1).map fun a => a.ptes 0)) =
      some (some (some 0x2000), some (some 0x2000)) := by
    decide +kernel
  obtain ⟨x, hr, hx⟩ := exists_seenOver hseen
  simp only [Prod.mk.injEq, Option.map_eq_some_iff] at hx
  obtain ⟨⟨a, ha, hf⟩, a', ha', hf'⟩ := hx
  obtain ⟨-, hlive, hpte⟩ := mapping_exact hr ha
  obtain ⟨-, -, -, hshared⟩ := hpte 0 _ hf
  exact ⟨x, a, a', hr, ha, ha', hf, hf', hlive, (hshared 1 a' 0 ha' hf').1⟩

end Dicedev
