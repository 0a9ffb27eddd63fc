import Dicedev.CreateSet

/-!
# The layout of a page table

What `dicedev_pt_init` leaves in the table page for every size that `DICEDEV_IOCTL_CREATE_SET`
accepts, and what the two loops over the table free. The allocator is asked for zeroed pages; its
addresses are aligned to a page and have `DICEDEV_ADDR_BITS` bits, `PtEnv.Dma`.

The table page has room for 1024 entries, which is the number of pages of the largest buffer. The
loops find the end of the filled entries by their present bits. In the model the table goes on
behind the table page with zeroes; no accepted size gets there, `page_table_layout`, and what
lies there does not matter then, `page_allocation_balanced`.
-/

namespace Dicedev

open Ledger

/-- `DICEDEV_ADDR_BITS`. -/
def dicedevAddrBits : Nat := 40

/-- The number of `page_entry_t` on the table page. -/
def tableEntries : Nat := dicedevPageSize / 4

/-- The address in an entry: without the present bit, and in its place. -/
def decodePtEntry (entry : Word) : BitVec 64 := (entry &&& ~~~presentMask).setWidth 64 <<< 8

/-- What `dma_alloc_coherent` guarantees for the data pages. -/
structure PtEnv.Dma (env : PtEnv) : Prop where
  aligned : ∀ i addr, env.page i = some addr → addr.toNat % dicedevPageSize = 0
  below : ∀ i addr, env.page i = some addr → addr.toNat < 2 ^ dicedevAddrBits

/-! ## Entries -/

section

variable {addr : BitVec 64} {i : Nat}

theorem getLsbD_of_aligned (h : addr.toNat % dicedevPageSize = 0) (hi : i < 12) :
    addr.getLsbD i = false := by
  obtain ⟨q, hq⟩ := Nat.dvd_of_mod_eq_zero h
  have hpow : dicedevPageSize = 2 ^ 12 := rfl
  rw [BitVec.getLsbD, hq, hpow, Nat.testBit_two_pow_mul]
  simp [Nat.not_le.mpr hi]

theorem getLsbD_of_below (h : addr.toNat < 2 ^ dicedevAddrBits) (hi : 40 ≤ i) :
    addr.getLsbD i = false :=
  Nat.testBit_lt_two_pow (Nat.lt_of_lt_of_le h (Nat.pow_le_pow_right (by decide) hi))

/-- The bits of an address that are in its entry. -/
theorem getLsbD_decode (addr : BitVec 64) (hi : i < 64) :
    (decodePtEntry (makePtEntry addr)).getLsbD i =
      (decide (8 < i) && decide (i < 40) && addr.getLsbD i) := by
  have hmask : ∀ j, presentMask.getLsbD j = decide (j = 0) := by
    intro j
    simp [presentMask]
  rw [decodePtEntry, BitVec.getLsbD_shiftLeft, BitVec.getLsbD_setWidth, BitVec.getLsbD_and,
    BitVec.getLsbD_not, hmask, makePtEntry, BitVec.getLsbD_setWidth, BitVec.getLsbD_or,
    BitVec.getLsbD_ushiftRight]
  by_cases hlow : 8 < i
  · have hpos : 8 + (i - 8) = i := by omega
    rw [hpos]
    by_cases hhigh : i < 40
    · have h1 : i - 8 < 32 := by omega
      have h2 : i - 8 ≠ 0 := by omega
      have h3 : ¬ i < 8 := by omega
      have h4 : i - 8 < 64 := by omega
      simp [hi, hlow, hhigh, h1, h2, h3, h4]
    · have h1 : ¬ i - 8 < 32 := by omega
      simp [hhigh, h1]
  · have hzero : i - 8 = 0 := by omega
    simp [hlow, hzero]

/-- The entry of an aligned address of 40 bits holds the address. -/
theorem decode_makePtEntry (haligned : addr.toNat % dicedevPageSize = 0)
    (hbelow : addr.toNat < 2 ^ dicedevAddrBits) : decodePtEntry (makePtEntry addr) = addr := by
  apply BitVec.eq_of_getLsbD_eq
  intro i hi
  rw [getLsbD_decode addr hi]
  by_cases hlow : 8 < i
  · by_cases hhigh : i < 40
    · simp [hlow, hhigh]
    · rw [getLsbD_of_below hbelow (Nat.not_lt.mp hhigh), Bool.and_false]
  · rw [getLsbD_of_aligned haligned (by omega), Bool.and_false]

end

/-! ## The number of pages -/

theorem numPagesFor_enough (size : Nat) : size ≤ dicedevPageSize * numPagesFor size := by
  unfold numPagesFor dicedevPageSize
  omega

theorem numPagesFor_le {size n : Nat} (h : size ≤ dicedevPageSize * n) : numPagesFor size ≤ n := by
  unfold numPagesFor dicedevPageSize at *
  omega

theorem CreateSet.Valid.numPages_le {cs : CreateSet} (h : cs.Valid) :
    numPagesFor cs.bytes ≤ tableEntries :=
  numPagesFor_le h.bytes_le

/-! ## The table page -/

/-- The table has an entry for each of its pages and no other. -/
structure TableLayout (env : PtEnv) (size : Nat) (pt : PageTable) : Prop where
  enough : size ≤ dicedevPageSize * pt.numPages
  least : ∀ n, size ≤ dicedevPageSize * n → pt.numPages ≤ n
  fits : pt.numPages ≤ tableEntries
  present : ∀ i < pt.numPages, present (pt.entries i) = true
  entry : ∀ i < pt.numPages, env.page i = some (decodePtEntry (pt.entries i)) ∧
    pt.pages i = decodePtEntry (pt.entries i)
  absent : ∀ i, pt.numPages ≤ i → i < tableEntries → Dicedev.present (pt.entries i) = false

variable {env : PtEnv} {pt : PageTable} {cs : CreateSet} {size : Nat}

theorem Filled.layout {dma : BitVec 64} (hdma : env.Dma) (hfits : numPagesFor size ≤ tableEntries)
    (h : Filled env 0 (numPagesFor size) (.empty dma size) pt) : TableLayout env size pt := by
  have hnum : pt.numPages = numPagesFor size := h.numPages
  have hentry : ∀ i < pt.numPages, ∃ addr, env.page i = some addr ∧ pt.pages i = addr ∧
      pt.entries i = makePtEntry addr := by
    intro i hi
    exact h.entry i (Nat.zero_le i) (by omega)
  refine ⟨?_, fun n hn => ?_, ?_, fun i hi => ?_, fun i hi => ?_, fun i hi _ => ?_⟩
  · rw [hnum]
    exact numPagesFor_enough size
  · rw [hnum]
    exact numPagesFor_le hn
  · rw [hnum]
    exact hfits
  · obtain ⟨addr, -, -, heq⟩ := hentry i hi
    rw [heq]
    exact present_makePtEntry addr
  · obtain ⟨addr, hpage, haddr, heq⟩ := hentry i hi
    rw [heq, decode_makePtEntry (hdma.aligned i addr hpage) (hdma.below i addr hpage)]
    exact ⟨hpage, haddr⟩
  · rw [(h.other i (by omega)).1]
    exact not_present_zero

/-- For every accepted size a new table has the layout, and whatever lies behind the table page is
not written. -/
theorem page_table_layout (hcs : cs.Valid) (hdma : env.Dma)
    (hinit : (dicedevPtInit env cs.bytes).1 = .ok pt) :
    TableLayout env cs.bytes pt ∧
      ∀ (pt₀ : PageTable) (i : Nat), tableEntries ≤ i →
        (ptInitPages env (numPagesFor cs.bytes) 0 pt₀).2.1.entries i = pt₀.entries i := by
  constructor
  · have hend := dicedevPtInit_end env cs.bytes
    rw [hinit] at hend
    obtain ⟨-, -, dma, hfilled⟩ := hend.ready
    exact hfilled.layout hdma hcs.numPages_le
  · intro pt₀ i hi
    obtain ⟨k, hk, hfilled, -⟩ := ptInitPages_spec env (numPagesFor cs.bytes) 0 pt₀
    have hle := hcs.numPages_le
    exact (hfilled.other i (by omega)).1

theorem dma_fewPages (fd : Int) : (fewPages fd).toPtEnv.Dma := by
  have haddr : ∀ i addr, (fewPages fd).page i = some addr →
      addr = 0x10000 ∨ addr = 0x11000 ∨ addr = 0x12000 := by
    intro i addr h
    change (if i < 3 then some (0x10000 + BitVec.ofNat 64 (0x1000 * i)) else none) = some addr at h
    split at h
    · rename_i hi
      obtain rfl | rfl | rfl : i = 0 ∨ i = 1 ∨ i = 2 := by omega
      · exact Or.inl (Option.some.inj h).symm
      · exact Or.inr (Or.inl (Option.some.inj h).symm)
      · exact Or.inr (Or.inr (Option.some.inj h).symm)
    · cases h
  constructor
  · intro i addr h
    rcases haddr i addr h with rfl | rfl | rfl <;> decide
  · intro i addr h
    rcases haddr i addr h with rfl | rfl | rfl <;> decide

/-- A byte more than two pages. -/
theorem page_table_layout_threePages :
    ∃ pt, (dicedevPtInit (fewPages 3).toPtEnv 0x2001).1 = .ok pt ∧ pt.numPages = 3 ∧
      TableLayout (fewPages 3).toPtEnv 0x2001 pt := by
  have hcs : (⟨0x2001, 63⟩ : CreateSet).Valid := ⟨by decide, by decide, by decide⟩
  exact ⟨_, rfl, rfl, (page_table_layout hcs (dma_fewPages 3) rfl).1⟩

/-! ## What is freed -/

/-- The call ends at the first page that cannot be had. -/
theorem dicedevPtInit_fails {k : Nat} (htable : env.tablePage.isSome)
    (harray : env.pageArray = true) (hk : k < numPagesFor size)
    (hsome : ∀ j < k, (env.page j).isSome) (hnone : env.page k = none) :
    dicedevPtInit env size =
      (.error .enomem, (ptObjs k).map .acquire ++ (ptFreed k).map .release) := by
  obtain ⟨dma, hdma⟩ := Option.isSome_iff_exists.mp htable
  obtain ⟨k', pt, hfilled, hend⟩ := dicedevPtInit_pages hdma harray size
  have hle : k' ≤ k := by
    by_contra hgt
    obtain ⟨addr, hpage, -⟩ := hfilled.entry k (Nat.zero_le k) (by omega)
    rw [hnone] at hpage
    cases hpage
  rcases hend with ⟨hall, -⟩ | ⟨-, hpage, hrun⟩
  · omega
  · have hge : k ≤ k' := by
      by_contra hlt
      have hhad := hsome k' (by omega)
      rw [hpage] at hhad
      cases hhad
    rw [hrun, Nat.le_antisymm hle hge]

/-- If page `k` cannot be had, then exactly the pages before it, the page array and the table page
are freed, each once. `dicedev_pt_free` frees all pages of a table and then the page array and the
table page. As long as the table page has an entry for each page, nothing of this depends on what
lies behind it. -/
theorem page_allocation_balanced (env : PtEnv) (size : Nat) :
    (∀ k < numPagesFor size, env.tablePage.isSome → env.pageArray = true →
      (∀ j < k, (env.page j).isSome) → env.page k = none →
      (dicedevPtInit env size).1 = .error .enomem ∧
        released (dicedevPtInit env size).2 = dataPages 0 k ++ [.pageArray, .tablePage] ∧
        Settled (dicedevPtInit env size).2) ∧
    (∀ pt, (dicedevPtInit env size).1 = .ok pt →
      released (dicedevPtInit env size).2 = [] ∧
        dicedevPtFree pt =
          (dataPages 0 pt.numPages ++ [PtObj.pageArray, .tablePage]).map .release ∧
        Settled ((dicedevPtInit env size).2 ++ dicedevPtFree pt)) ∧
    (∀ pt₀ : PageTable, (∀ i < tableEntries, pt₀.entries i = 0) →
      numPagesFor size ≤ tableEntries →
      ∃ k ≤ numPagesFor size,
        (ptInitPages env (numPagesFor size) 0 pt₀).2.2 = (dataPages 0 k).map .acquire ∧
        ptFreePages (ptInitPages env (numPagesFor size) 0 pt₀).2.1 (numPagesFor size) 0 =
          (dataPages 0 k).map .release) := by
  refine ⟨?_, ?_, ?_⟩
  · intro k hk htable harray hsome hnone
    rw [dicedevPtInit_fails htable harray hk hsome hnone]
    have hphases : Phases ((ptObjs k).map .acquire ++ (ptFreed k).map .release) (ptObjs k)
        (ptFreed k) := rfl
    exact ⟨rfl, hphases.released_eq, hphases.settled (nodup_ptObjs k) (perm_ptFreed k)⟩
  · intro pt hok
    have hend := dicedevPtInit_end env size
    rw [hok] at hend
    obtain ⟨-, hlog, dma, hfilled⟩ := hend.ready
    have hnum : pt.numPages = numPagesFor size := hfilled.numPages
    rw [hlog]
    refine ⟨(Phases.acquires _).released_eq, ?_, (undone_pt hfilled).settled⟩
    rw [dicedevPtFree_eq hfilled, hnum]
    rfl
  · intro pt₀ hzero hfits
    obtain ⟨k, hk, hfilled, hlog, -⟩ := ptInitPages_spec env (numPagesFor size) 0 pt₀
    refine ⟨k, hk, hlog, hfilled.free_front hk ?_⟩
    rcases Nat.lt_or_eq_of_le hk with hlt | heq
    · exact Or.inr (hzero k (by omega))
    · exact Or.inl heq

/-- Three of four pages, and a table of three. -/
theorem page_allocation_balanced_fewPages :
    released (dicedevPtInit (fewPages 3).toPtEnv 0x4000).2 =
      [.page 0, .page 1, .page 2, .pageArray, .tablePage] ∧
      ∃ pt, (dicedevPtInit (fewPages 3).toPtEnv 0x3000).1 = .ok pt ∧ dicedevPtFree pt =
        [.release (.page 0), .release (.page 1), .release (.page 2), .release .pageArray,
          .release .tablePage] := by
  have hsome : ∀ j < 3, ((fewPages 3).page j).isSome := by decide
  refine ⟨?_, _, rfl, ?_⟩
  · exact ((page_allocation_balanced (fewPages 3).toPtEnv 0x4000).1 3 (by decide) rfl rfl hsome
      rfl).2.1
  · exact ((page_allocation_balanced (fewPages 3).toPtEnv 0x3000).2.1 _ rfl).2.1

end Dicedev
