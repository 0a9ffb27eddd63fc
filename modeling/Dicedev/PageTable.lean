import Dicedev.Lib.Ledger
import Dicedev.Types

/-!
# The page table of a buffer

`dicedev_pt_init` and `dicedev_pt_free` of `dicedev_pt.c`, with the objects they allocate and
free. The answers of the allocator are given: `PtEnv` says for every allocation whether it
succeeds, and at which address the device sees the page. `dma_alloc_coherent` is asked for
zeroed pages, so no entry of a new table is present.

Both functions free the data pages up to the first entry that is not present. As the entries
are filled from the start, these are the pages that were allocated: `dicedevPtInit_end`,
`dicedevPtFree_eq`.
-/

namespace Dicedev

open Ledger

/-- `DICEDEV_PAGE_SIZE`. -/
def dicedevPageSize : Nat := 0x1000

/-- `PRESENT_MASK`. -/
def presentMask : Word := 0x1

/-- `PRESENT`. -/
def present (entry : Word) : Bool := entry &&& presentMask != 0

/-- `MAKE_PT_ENTRY`, stored into a `page_entry_t`. -/
def makePtEntry (addr : BitVec 64) : Word := (0x1 ||| addr >>> 8).setWidth 32

/-- What belongs to a page table. -/
inductive PtObj
  /-- The page of `pt`. -/
  | tablePage
  /-- The array `pages`. -/
  | pageArray
  /-- The page of `pages[i]`. -/
  | page (i : Nat)
  deriving DecidableEq, Repr

/-- The answers of the allocator; a page is named by its DMA address. -/
structure PtEnv where
  tablePage : Option (BitVec 64)
  pageArray : Bool
  page : Nat → Option (BitVec 64)

/-- `struct dicedev_page_table`: the DMA address and the words of the table page, the DMA
addresses of the data pages, `num_pages` and `max_size`. -/
structure PageTable where
  dmaHandler : BitVec 64
  entries : Nat → Word
  pages : Nat → BitVec 64
  numPages : Nat
  maxSize : Nat

/-- The loop of `dicedev_pt_init` from page `i` on; `false` if a page could not be had. -/
def ptInitPages (env : PtEnv) :
    Nat → Nat → PageTable → Bool × PageTable × List (Entry PtObj)
  | 0, _, pt => (true, pt, [])
  | n + 1, i, pt =>
    match env.page i with
    | none => (false, pt, [])
    | some addr =>
      let pt :=
        { pt with
          pages := Function.update pt.pages i addr
          entries := Function.update pt.entries i (makePtEntry addr) }
      let (ok, pt, log) := ptInitPages env n (i + 1) pt
      (ok, pt, .acquire (.page i) :: log)

/-- The loop that frees the data pages, from page `i` on. -/
def ptFreePages (pt : PageTable) : Nat → Nat → List (Entry PtObj)
  | 0, _ => []
  | n + 1, i =>
    if present (pt.entries i) then .release (.page i) :: ptFreePages pt n (i + 1) else []

/-- The number of pages for `size` bytes. -/
def numPagesFor (size : Nat) : Nat := (size + dicedevPageSize - 1) / dicedevPageSize

/-- A table of `size` bytes without its pages. -/
def PageTable.empty (dma : BitVec 64) (size : Nat) : PageTable :=
  ⟨dma, fun _ => 0, fun _ => 0, numPagesFor size, size⟩

/-- `dicedev_pt_init`. -/
def dicedevPtInit (env : PtEnv) (size : Nat) : Except Errno PageTable × List (Entry PtObj) :=
  match env.tablePage with
  | none => (.error .enomem, [])
  | some dma =>
    let numPages := numPagesFor size
    if env.pageArray then
      let (ok, pt, log) := ptInitPages env numPages 0 (.empty dma size)
      let log := [.acquire .tablePage, .acquire .pageArray] ++ log
      if ok then (.ok pt, log)
      else
        (.error .enomem,
          log ++ ptFreePages pt numPages 0 ++ [.release .pageArray, .release .tablePage])
    else (.error .enomem, [.acquire .tablePage, .release .tablePage])

/-- `dicedev_pt_free`. -/
def dicedevPtFree (pt : PageTable) : List (Entry PtObj) :=
  ptFreePages pt pt.numPages 0 ++ [.release .pageArray, .release .tablePage]

/-! ## The two loops -/

theorem present_makePtEntry (addr : BitVec 64) : present (makePtEntry addr) = true := by
  have hbit : (makePtEntry addr &&& presentMask).getLsbD 0 = true := by
    simp [makePtEntry, presentMask]
  rw [present, bne_iff_ne]
  intro hzero
  rw [hzero] at hbit
  simp at hbit

theorem not_present_zero : present 0 = false := by decide

/-- Pages `i` to `i + k - 1` of the table have been filled, and the loop has stopped there. -/
structure Filled (env : PtEnv) (i k : Nat) (pt pt' : PageTable) : Prop where
  entry : ∀ j, i ≤ j → j < i + k →
    ∃ addr, env.page j = some addr ∧ pt'.pages j = addr ∧ pt'.entries j = makePtEntry addr
  other : ∀ j, j < i ∨ i + k ≤ j →
    pt'.entries j = pt.entries j ∧ pt'.pages j = pt.pages j
  dmaHandler : pt'.dmaHandler = pt.dmaHandler
  numPages : pt'.numPages = pt.numPages
  maxSize : pt'.maxSize = pt.maxSize

variable {env : PtEnv} {pt pt' : PageTable}

theorem Filled.none (env : PtEnv) (i : Nat) (pt : PageTable) : Filled env i 0 pt pt :=
  ⟨fun _ hle hlt => absurd hle (Nat.not_le.mpr hlt), fun _ _ => ⟨rfl, rfl⟩, rfl, rfl, rfl⟩

/-- Page `i` is filled, and then the following ones. -/
theorem Filled.cons {i k : Nat} {addr : BitVec 64} (hpage : env.page i = some addr)
    (h : Filled env (i + 1) k
      { pt with
        pages := Function.update pt.pages i addr
        entries := Function.update pt.entries i (makePtEntry addr) } pt') :
    Filled env i (k + 1) pt pt' := by
  refine ⟨fun j hle hlt => ?_, fun j hj => ?_, h.dmaHandler, h.numPages, h.maxSize⟩
  · rcases Nat.eq_or_lt_of_le hle with heq | hgt
    · subst heq
      obtain ⟨hentry, haddr⟩ := h.other i (Or.inl (Nat.lt_succ_self i))
      exact ⟨addr, hpage, haddr.trans (Function.update_self ..),
        hentry.trans (Function.update_self ..)⟩
    · exact h.entry j hgt (by omega)
  · obtain ⟨hentry, haddr⟩ := h.other j (by omega)
    have hne : j ≠ i := by omega
    exact ⟨hentry.trans (Function.update_of_ne hne ..), haddr.trans (Function.update_of_ne hne ..)⟩

/-- The data pages `i` to `i + k - 1`. -/
def dataPages (i k : Nat) : List PtObj := (List.range' i k).map .page

theorem dataPages_succ (i k : Nat) : dataPages i (k + 1) = .page i :: dataPages (i + 1) k := by
  rw [dataPages, List.range'_succ]
  rfl

theorem nodup_dataPages (i k : Nat) : (dataPages i k).Nodup :=
  List.Nodup.map (fun _ _ h => PtObj.page.inj h) List.nodup_range'

/-- The loop fills the table up to the first page that cannot be had. -/
theorem ptInitPages_spec (env : PtEnv) (n i : Nat) (pt : PageTable) :
    ∃ k ≤ n, Filled env i k pt (ptInitPages env n i pt).2.1 ∧
      (ptInitPages env n i pt).2.2 = (dataPages i k).map .acquire ∧
      ((ptInitPages env n i pt).1 = true ∧ k = n ∨
        (ptInitPages env n i pt).1 = false ∧ k < n ∧ env.page (i + k) = none) := by
  induction n generalizing i pt with
  | zero => exact ⟨0, Nat.le_refl 0, .none env i pt, rfl, Or.inl ⟨rfl, rfl⟩⟩
  | succ n ih =>
    cases hpage : env.page i with
    | none =>
      have hrun : ptInitPages env (n + 1) i pt = (false, pt, []) := by
        simp only [ptInitPages, hpage]
      rw [hrun]
      exact ⟨0, Nat.zero_le _, .none env i pt, rfl, Or.inr ⟨rfl, Nat.succ_pos n, hpage⟩⟩
    | some addr =>
      obtain ⟨k, hk, hfilled, hlog, hend⟩ := ih (i + 1)
        { pt with
          pages := Function.update pt.pages i addr
          entries := Function.update pt.entries i (makePtEntry addr) }
      simp only [ptInitPages, hpage]
      refine ⟨k + 1, Nat.succ_le_succ hk, .cons hpage hfilled, ?_, ?_⟩
      · rw [hlog, dataPages_succ]
        rfl
      · have hnext : i + (k + 1) = i + 1 + k := by omega
        rw [hnext]
        rcases hend with ⟨hok, hkn⟩ | ⟨hok, hkn, hnone⟩
        · exact Or.inl ⟨hok, congrArg (· + 1) hkn⟩
        · exact Or.inr ⟨hok, Nat.succ_lt_succ hkn, hnone⟩

/-- The loop frees the pages whose entries are present. -/
theorem ptFreePages_spec {n i k : Nat} (hk : k ≤ n)
    (hpresent : ∀ j, i ≤ j → j < i + k → present (pt.entries j) = true)
    (hend : k = n ∨ present (pt.entries (i + k)) = false) :
    ptFreePages pt n i = (dataPages i k).map .release := by
  induction n generalizing i k with
  | zero =>
    rw [Nat.le_zero.mp hk]
    rfl
  | succ n ih =>
    cases k with
    | zero =>
      have habsent := hend.resolve_left (Nat.succ_ne_zero n).symm
      rw [Nat.add_zero] at habsent
      rw [ptFreePages, if_neg (by simp [habsent])]
      rfl
    | succ k =>
      have hfirst := hpresent i (Nat.le_refl i) (by omega)
      rw [ptFreePages, if_pos hfirst, dataPages_succ,
        ih (i := i + 1) (k := k) (Nat.le_of_succ_le_succ hk)]
      · rfl
      · intro j hle hlt
        exact hpresent j (by omega) (by omega)
      · rcases hend with hkn | habsent
        · exact Or.inl (Nat.succ.inj hkn)
        · have hnext : i + (k + 1) = i + 1 + k := by omega
          exact Or.inr (hnext ▸ habsent)

/-! ## The whole functions -/

/-- What belongs to a table with `k` data pages, in the order in which it is allocated. -/
def ptObjs (k : Nat) : List PtObj := [.tablePage, .pageArray] ++ dataPages 0 k

/-- The same, in the order in which it is freed. -/
def ptFreed (k : Nat) : List PtObj := dataPages 0 k ++ [.pageArray, .tablePage]

theorem nodup_ptObjs (k : Nat) : (ptObjs k).Nodup := by
  refine List.nodup_append.mpr ⟨by decide, nodup_dataPages 0 k, ?_⟩
  intro a ha b hb heq
  obtain ⟨i, -, rfl⟩ := List.mem_map.mp hb
  rw [heq] at ha
  simp at ha

theorem perm_ptFreed (k : Nat) : (ptFreed k).Perm (ptObjs k) :=
  List.perm_append_comm.trans ((List.Perm.swap ..).append_right _)

/-- How `dicedev_pt_init` can end. -/
inductive PtInitEnd (env : PtEnv) (size : Nat) : Except Errno PageTable → List (Entry PtObj) → Prop
  | noTable (h : env.tablePage = none) : PtInitEnd env size (.error .enomem) []
  | noArray (h : env.pageArray = false) :
      PtInitEnd env size (.error .enomem) [.acquire .tablePage, .release .tablePage]
  | noPage (k : Nat) (hk : k < numPagesFor size) (h : env.page k = none) :
      PtInitEnd env size (.error .enomem) ((ptObjs k).map .acquire ++ (ptFreed k).map .release)
  | ok (dma : BitVec 64) (pt : PageTable) (htable : env.tablePage = some dma)
      (harray : env.pageArray = true)
      (hpages : Filled env 0 (numPagesFor size) (.empty dma size) pt) :
      PtInitEnd env size (.ok pt) ((ptObjs (numPagesFor size)).map .acquire)

/-- A filled prefix is what the cleanup frees if the entry behind it is zero. -/
theorem Filled.free_front {n k : Nat} (h : Filled env 0 k pt pt') (hk : k ≤ n)
    (hzero : k = n ∨ pt.entries k = 0) : ptFreePages pt' n 0 = (dataPages 0 k).map .release := by
  refine ptFreePages_spec hk (fun j hle hlt => ?_) (hzero.imp_right fun hentry => ?_)
  · obtain ⟨addr, -, -, hentry⟩ := h.entry j hle hlt
    rw [hentry]
    exact present_makePtEntry addr
  · rw [(h.other (0 + k) (Or.inr (Nat.le_refl _))).1, Nat.zero_add, hentry]
    exact not_present_zero

/-- A filled prefix of a new table is what the cleanup frees. -/
theorem Filled.free {dma : BitVec 64} {size n k : Nat} (h : Filled env 0 k (.empty dma size) pt)
    (hk : k ≤ n) : ptFreePages pt n 0 = (dataPages 0 k).map .release :=
  h.free_front hk (Or.inr rfl)

/-- With the table page and the page array, the call gets as far as there are pages. -/
theorem dicedevPtInit_pages {dma : BitVec 64} (htable : env.tablePage = some dma)
    (harray : env.pageArray = true) (size : Nat) :
    ∃ k pt, Filled env 0 k (.empty dma size) pt ∧
      (k = numPagesFor size ∧ dicedevPtInit env size = (.ok pt, (ptObjs k).map .acquire) ∨
        k < numPagesFor size ∧ env.page k = none ∧ dicedevPtInit env size =
          (.error .enomem, (ptObjs k).map .acquire ++ (ptFreed k).map .release)) := by
  obtain ⟨k, hk, hfilled, hlog, hend⟩ :=
    ptInitPages_spec env (numPagesFor size) 0 (.empty dma size)
  refine ⟨k, _, hfilled, ?_⟩
  unfold dicedevPtInit
  rw [htable]
  dsimp only
  rw [if_pos harray]
  rcases hend with ⟨hok, hkn⟩ | ⟨hok, hlt, hnone⟩
  · rw [hok, hlog]
    exact Or.inl ⟨hkn, rfl⟩
  · rw [hok, hlog, hfilled.free hk]
    have hsplit : [Entry.acquire PtObj.tablePage, .acquire .pageArray] ++
        (dataPages 0 k).map Entry.acquire ++ (dataPages 0 k).map Entry.release ++
        [.release .pageArray, .release .tablePage] =
          (ptObjs k).map .acquire ++ (ptFreed k).map .release := by
      simp [ptObjs, ptFreed]
    rw [if_neg Bool.false_ne_true, hsplit]
    exact Or.inr ⟨hlt, Nat.zero_add k ▸ hnone, rfl⟩

theorem dicedevPtInit_end (env : PtEnv) (size : Nat) :
    PtInitEnd env size (dicedevPtInit env size).1 (dicedevPtInit env size).2 := by
  cases htable : env.tablePage with
  | none =>
    unfold dicedevPtInit
    rw [htable]
    exact .noTable htable
  | some dma =>
    cases harray : env.pageArray with
    | false =>
      unfold dicedevPtInit
      rw [htable, harray]
      exact .noArray harray
    | true =>
      obtain ⟨k, pt, hfilled, ⟨rfl, hrun⟩ | ⟨hk, hnone, hrun⟩⟩ :=
        dicedevPtInit_pages htable harray size
      · rw [hrun]
        exact .ok dma pt htable harray hfilled
      · rw [hrun]
        exact .noPage k hk hnone

/-- Every allocation for a table of `size` bytes succeeds. -/
structure PtEnv.Ready (env : PtEnv) (size : Nat) : Prop where
  tablePage : env.tablePage.isSome
  pageArray : env.pageArray = true
  page : ∀ i < numPagesFor size, (env.page i).isSome

/-- Where an allocation fails, all that was allocated is freed. -/
theorem PtInitEnd.undone {size : Nat} {e : Errno} {log : List (Entry PtObj)}
    (h : PtInitEnd env size (.error e) log) : ¬ env.Ready size ∧ ∃ as, Undone log as := by
  cases h with
  | noTable h => exact ⟨fun hr => by simpa [h] using hr.tablePage, [], .nil⟩
  | noArray h =>
    exact ⟨fun hr => by simpa [h] using hr.pageArray, [.tablePage], Undone.nil.wrap (by simp)⟩
  | noPage k hk h =>
    refine ⟨fun hr => by simpa [h] using hr.page k hk, ptObjs k, nodup_ptObjs k, ptFreed k, ?_⟩
    exact ⟨rfl, perm_ptFreed k⟩

theorem PtInitEnd.ready {size : Nat} {log : List (Entry PtObj)}
    (h : PtInitEnd env size (.ok pt) log) :
    env.Ready size ∧ log = (ptObjs (numPagesFor size)).map .acquire ∧
      ∃ dma, Filled env 0 (numPagesFor size) (.empty dma size) pt := by
  cases h with
  | ok dma _ htable harray hpages =>
    refine ⟨⟨by rw [htable]; rfl, harray, fun i hi => ?_⟩, rfl, dma, hpages⟩
    obtain ⟨addr, haddr, -⟩ := hpages.entry i (Nat.zero_le i) (by omega)
    rw [haddr]
    rfl

/-- `dicedev_pt_free` frees what belongs to the table. -/
theorem dicedevPtFree_eq {dma : BitVec 64} {size : Nat}
    (h : Filled env 0 (numPagesFor size) (.empty dma size) pt) :
    dicedevPtFree pt = (ptFreed (numPagesFor size)).map .release := by
  have hn : pt.numPages = numPagesFor size := h.numPages
  rw [dicedevPtFree, hn, h.free (Nat.le_refl _), ptFreed, List.map_append]
  rfl

end Dicedev
