import C64Tools.Kmod.Minim.Canonical

/-!
# What the allocator promises

The result of `minim_alloc` in terms of the free superblocks of the heap, and
the addresses that `minim_free` accepts.  Both hold of every well-formed heap,
whatever calls have led to it.
-/

namespace C64Tools.Kmod

open Tiling

variable {κ : Type*} {mm mm' : Minim κ} {row : List (Plot κ)} {i k : ℕ}

/-- The block size is a power of two, as `minim_init` computes it. -/
structure BlockSized (mm : Minim κ) : Prop where
  shift_lt : mm.blockSizeShift < 32
  blockSize_eq : mm.blockSize = 2 ^ mm.blockSizeShift

/-- The number of blocks for a request, rounded up as an integer. -/
def Minim.roundUp (mm : Minim κ) (numBytes : ℕ) : ℕ :=
  (numBytes + (mm.blockSize - 1)) / mm.blockSize

/-- The smallest free superblock of at least `k` blocks, and the first one of
its size. -/
structure BestFree (mm : Minim κ) (k i : ℕ) : Prop where
  isHead : IsHead mm i
  free : 0 < (mm.block i).freeCount
  fits : k ≤ (mm.block i).freeCount
  least : ∀ j, IsHead mm j → 0 < (mm.block j).freeCount →
    k ≤ (mm.block j).freeCount →
      (mm.block i).freeCount < (mm.block j).freeCount ∨
        ((mm.block i).freeCount = (mm.block j).freeCount ∧ i ≤ j)

/-- No free superblock has `k` blocks. -/
def NoneFree (mm : Minim κ) (k : ℕ) : Prop :=
  ∀ i, IsHead mm i → (mm.block i).freeCount < k

/-- The front of a superblock has become an allocation of the client, and
nothing else has changed. -/
structure Taken (mm : Minim κ) (cl : κ) (i k : ℕ) (mm' : Minim κ) : Prop where
  wellFormed : WellFormed mm'
  shape : mm' = { mm with blocks := mm'.blocks }
  live : ∀ a, mm'.Live a ↔ mm.Live a ∨ a = ⟨i, k, cl⟩

/-- A request is granted from the best free superblock, or else refused with a
zero region. -/
structure AllocContract (mm : Minim κ) (cl : κ) (numBytes : ℕ)
    (result : Option (DspMemRegion × Minim κ)) : Prop where
  granted : 1 ≤ numBytes → mm.roundUp numBytes * mm.blockSize < 2 ^ 32 →
    ∀ i, BestFree mm (mm.roundUp numBytes) i →
      numBytes ≤ mm.roundUp numBytes * mm.blockSize ∧
      ∃ mm', Taken mm cl i (mm.roundUp numBytes) mm' ∧
        result = some (⟨u32 (mm.physAddrBase + i * mm.blockSize), 0,
          mm.roundUp numBytes * mm.blockSize⟩, mm')
  refused : numBytes = 0 ∨ 2 ^ 32 ≤ mm.roundUp numBytes * mm.blockSize ∨
      NoneFree mm (mm.roundUp numBytes) →
    result = some (DspMemRegion.zero, mm)

/-! ## Free superblocks -/

theorem Represents.freeCount_pos_iff (h : Represents mm row) {p : Plot κ}
    (hp : PlotAt row i p) :
    0 < (mm.block i).freeCount ↔ p.tenant = none := by
  rw [h.block_head hp]
  cases htenant : p.tenant with
  | none =>
      rw [freeCount_headBlock htenant]
      exact iff_of_true p.size_pos rfl
  | some c =>
      rw [freeCount_headBlock_of_held htenant]
      exact iff_of_false (lt_irrefl 0) nofun

theorem Represents.freeCount_eq (h : Represents mm row) {p : Plot κ}
    (hp : PlotAt row i p) (htenant : p.tenant = none) :
    (mm.block i).freeCount = p.size := by
  rw [h.block_head hp, freeCount_headBlock htenant]

theorem Represents.bestFree (h : Represents mm row) {p : Plot κ}
    (hbest : BestFit row k i p) : BestFree mm k i where
  isHead := h.isHead_iff.mpr ⟨p, hbest.plotAt⟩
  free := (h.freeCount_pos_iff hbest.plotAt).mpr hbest.vacant
  fits := by
    rw [h.freeCount_eq hbest.plotAt hbest.vacant]
    exact hbest.fits
  least := by
    intro j hj hfree hk
    obtain ⟨q, hq⟩ := h.isHead_iff.mp hj
    have hvacant := (h.freeCount_pos_iff hq).mp hfree
    rw [h.freeCount_eq hq hvacant] at hk ⊢
    rw [h.freeCount_eq hbest.plotAt hbest.vacant]
    exact hbest.least j q hq hvacant hk

theorem BestFree.unique {j : ℕ} (hi : BestFree mm k i)
    (hj : BestFree mm k j) : i = j := by
  have hij := hi.least j hj.isHead hj.free hj.fits
  have hji := hj.least i hi.isHead hi.free hi.fits
  omega

theorem Represents.noneFree_iff (h : Represents mm row) (hk : 0 < k) :
    NoneFree mm k ↔ NoFit row k := by
  constructor
  · intro hnone off p hp hvacant
    have hlt := hnone off (h.isHead_iff.mpr ⟨p, hp⟩)
    rwa [h.freeCount_eq hp hvacant] at hlt
  · intro hnone i hi
    obtain ⟨p, hp⟩ := h.isHead_iff.mp hi
    by_cases hvacant : p.tenant = none
    · rw [h.freeCount_eq hp hvacant]
      exact hnone i p hp hvacant
    · have hzero := mt (h.freeCount_pos_iff hp).mp hvacant
      omega

theorem NoneFree.not_bestFree (h : NoneFree mm k) : ¬ BestFree mm k i := by
  intro hbest
  have hlt := h i hbest.isHead
  have hle := hbest.fits
  omega

/-! ## Byte counts -/

theorem BlockSized.blockSize_pos (h : BlockSized mm) : 0 < mm.blockSize := by
  rw [h.blockSize_eq]
  exact Nat.two_pow_pos _

theorem BlockSized.blockSize_dvd (h : BlockSized mm) :
    mm.blockSize ∣ 2 ^ 32 := by
  rw [h.blockSize_eq]
  exact Nat.pow_dvd_pow 2 h.shift_lt.le

theorem BlockSized.le_roundUp (h : BlockSized mm) (numBytes : ℕ) :
    numBytes ≤ mm.roundUp numBytes * mm.blockSize := by
  have hpos := h.blockSize_pos
  have hdiv := Nat.lt_div_mul_add (a := numBytes + (mm.blockSize - 1)) hpos
  unfold Minim.roundUp
  omega

theorem BlockSized.roundUp_pos (h : BlockSized mm) {numBytes : ℕ}
    (hpos : 1 ≤ numBytes) : 0 < mm.roundUp numBytes := by
  by_contra hzero
  have hle := h.le_roundUp numBytes
  rw [Nat.eq_zero_of_not_pos hzero, Nat.zero_mul] at hle
  omega

/-- The rounded byte count fits in 32 bits if the addition of the block size
does not overflow. -/
theorem BlockSized.roundUp_lt_iff (h : BlockSized mm) (numBytes : ℕ) :
    mm.roundUp numBytes * mm.blockSize < 2 ^ 32 ↔
      numBytes + mm.blockSize ≤ 2 ^ 32 := by
  obtain ⟨m, hm⟩ := h.blockSize_dvd
  have hpos := h.blockSize_pos
  rw [hm, Nat.mul_comm mm.blockSize m, Nat.mul_lt_mul_right hpos,
    Minim.roundUp, Nat.div_lt_iff_lt_mul hpos]
  omega

theorem BlockSized.blocksFor_eq (h : BlockSized mm) {numBytes : ℕ}
    (hfit : numBytes + mm.blockSize ≤ 2 ^ 32) :
    mm.blocksFor numBytes = mm.roundUp numBytes := by
  have hpos := h.blockSize_pos
  rw [Minim.blocksFor, u32_of_lt (by omega), Nat.shiftRight_eq_div_pow,
    ← h.blockSize_eq, Minim.roundUp]

/-- The sum has overflowed, and less than a block is left. -/
theorem BlockSized.blocksFor_eq_zero (h : BlockSized mm) {numBytes : ℕ}
    (hlt : numBytes < 2 ^ 32)
    (hzero : numBytes = 0 ∨ 2 ^ 32 < numBytes + mm.blockSize) :
    mm.blocksFor numBytes = 0 := by
  have hpos := h.blockSize_pos
  have hle : mm.blockSize ≤ 2 ^ 32 :=
    Nat.le_of_dvd (Nat.two_pow_pos 32) h.blockSize_dvd
  rw [Minim.blocksFor, Nat.shiftRight_eq_div_pow, ← h.blockSize_eq,
    Nat.div_eq_zero_iff_lt hpos]
  unfold u32
  omega

theorem BlockSized.regionAt_eq (h : BlockSized mm)
    (hk : k * mm.blockSize < 2 ^ 32) :
    mm.regionAt i k =
      ⟨u32 (mm.physAddrBase + i * mm.blockSize), 0, k * mm.blockSize⟩ := by
  rw [Minim.regionAt, Nat.shiftLeft_eq, Nat.shiftLeft_eq, ← h.blockSize_eq,
    u32_of_lt hk]
  unfold u32
  rw [Nat.add_mod_mod]

/-! ## When a request is met -/

section Alloc

variable {cl : κ} {numBytes : ℕ} {uninit : DspMemRegion}

/-- Without an overflow, `minim_alloc` does what it promises. -/
theorem Represents.allocContract (h : Represents mm row)
    (hsized : BlockSized mm) (uninit : DspMemRegion) (cl : κ)
    (hpos : 1 ≤ numBytes) (hfit : numBytes + mm.blockSize ≤ 2 ^ 32) :
    AllocContract mm cl numBytes (minimAlloc uninit mm cl numBytes) := by
  have hblocks := hsized.blocksFor_eq hfit
  have hk := hsized.roundUp_pos hpos
  have hlt := (hsized.roundUp_lt_iff numBytes).mpr hfit
  have hcases := minimAlloc_cases h uninit cl numBytes
  rw [hblocks] at hcases
  rcases hcases with
    ⟨hzero, -⟩ | ⟨-, hnone, heq⟩ |
      ⟨before, after, n, hn, hk', rfl, hkn, hbest, heq⟩
  · exact absurd hzero hk.ne'
  · constructor
    · intro _ _ i hi
      exact absurd hi ((h.noneFree_iff hk).mpr hnone).not_bestFree
    · intro _
      exact heq
  · have hfree := h.bestFree hbest
    constructor
    · intro _ _ i hi
      obtain rfl := hi.unique hfree
      refine ⟨hsized.le_roundUp numBytes, _,
        ⟨(h.lease hk hkn cl).wellFormed, rfl, h.live_lease hk hkn cl⟩, ?_⟩
      rw [heq, hsized.regionAt_eq hlt]
    · rintro (hzero | hover | hnone)
      · omega
      · omega
      · exact absurd hfree hnone.not_bestFree

/-- A request that comes to no blocks gets what the local variable contains. -/
theorem Represents.minimAlloc_of_blocksFor_eq_zero (h : Represents mm row)
    (hzero : mm.blocksFor numBytes = 0) :
    minimAlloc uninit mm cl numBytes = some (uninit, mm) := by
  rcases minimAlloc_cases h uninit cl numBytes with
    ⟨-, heq⟩ | ⟨hpos, -⟩ | ⟨_, _, _, _, hpos, -⟩
  · exact heq
  · omega
  · omega

/-- `minim_alloc` keeps its promise if the request is not empty and rounding
it up does not overflow; otherwise its result is what an uninitialised variable
contains, which would have to be zero. -/
theorem minimAlloc_contract_iff (uninit : DspMemRegion) (mm : Minim κ) (cl : κ)
    (numBytes : ℕ) (h : WellFormed mm) (hsized : BlockSized mm)
    (hlt : numBytes < 2 ^ 32) :
    AllocContract mm cl numBytes (minimAlloc uninit mm cl numBytes) ↔
      (1 ≤ numBytes ∧ numBytes + mm.blockSize ≤ 2 ^ 32) ∨
        uninit = DspMemRegion.zero := by
  obtain ⟨row, hrow⟩ := h.represents
  by_cases hgood : 1 ≤ numBytes ∧ numBytes + mm.blockSize ≤ 2 ^ 32
  · exact iff_of_true (hrow.allocContract hsized uninit cl hgood.1 hgood.2)
      (Or.inl hgood)
  · have hbad : numBytes = 0 ∨ 2 ^ 32 < numBytes + mm.blockSize := by omega
    have hresult : minimAlloc uninit mm cl numBytes = some (uninit, mm) :=
      hrow.minimAlloc_of_blocksFor_eq_zero
        (hsized.blocksFor_eq_zero hlt hbad)
    have hrefused : numBytes = 0 ∨
        2 ^ 32 ≤ mm.roundUp numBytes * mm.blockSize := by
      refine hbad.imp_right fun hover => ?_
      have hfits := hsized.roundUp_lt_iff numBytes
      omega
    rw [hresult, or_iff_right hgood]
    constructor
    · intro hcontract
      have hzero := hcontract.refused (hrefused.imp_right Or.inl)
      rw [Option.some.injEq, Prod.mk.injEq] at hzero
      exact hzero.1
    · rintro rfl
      refine ⟨fun hpos hfit => ?_, fun _ => rfl⟩
      exact absurd hrefused (by omega)

theorem minimInit_blockSized {numBlocks blockSizeShift : ℕ}
    (hshift : blockSizeShift < 32) (physAddrBase : ℕ) :
    BlockSized (minimInit numBlocks blockSizeShift physAddrBase : Minim κ) where
  shift_lt := hshift
  blockSize_eq := Nat.one_shiftLeft _

/-- A request of two blocks from a new heap of four. -/
theorem minimAlloc_contract_two_blocks :
    AllocContract (κ := ℕ) (minimInit 4 6 4096) 1 100
      (minimAlloc ⟨1, 2, 3⟩ (minimInit 4 6 4096) 1 100) :=
  (minimAlloc_contract_iff ⟨1, 2, 3⟩ (minimInit 4 6 4096) 1 100
    (minimInit_represents (by decide) 6 4096).wellFormed
    (minimInit_blockSized (by decide) 4096) (by decide)).mpr
      (Or.inl (by decide))

/-- The largest request wraps to zero blocks, and what is on the stack is
returned as its region. -/
theorem minimAlloc_returns_uninit :
    minimAlloc ⟨1, 2, 3⟩ (minimInit 4 6 4096 : Minim ℕ) 1 (2 ^ 32 - 1) =
        some (⟨1, 2, 3⟩, minimInit 4 6 4096) ∧
      WellFormed (minimInit 4 6 4096 : Minim ℕ) ∧
      ¬ AllocContract (κ := ℕ) (minimInit 4 6 4096) 1 (2 ^ 32 - 1)
        (minimAlloc ⟨1, 2, 3⟩ (minimInit 4 6 4096) 1 (2 ^ 32 - 1)) := by
  have hresult : minimAlloc ⟨1, 2, 3⟩ (minimInit 4 6 4096 : Minim ℕ) 1
      (2 ^ 32 - 1) = some (⟨1, 2, 3⟩, minimInit 4 6 4096) := rfl
  refine ⟨hresult, (minimInit_represents (by decide) 6 4096).wellFormed, ?_⟩
  intro hcontract
  have hzero := hcontract.refused (Or.inr (Or.inl (by decide)))
  rw [hresult] at hzero
  revert hzero
  decide

end Alloc

/-! ## Addresses that are accepted -/

section Free

variable {mem : DspMemRegion}

/-- The address lies in a block of the heap. -/
def Minim.InBlock (mm : Minim κ) (i addr : ℕ) : Prop :=
  mm.physAddrBase + i * mm.blockSize ≤ addr ∧
    addr < mm.physAddrBase + i * mm.blockSize + mm.blockSize

/-- The subtraction of the base wraps for an address below it, but the index
that comes out is then too large for the heap. -/
theorem BlockSized.blockIdx_eq_iff (h : BlockSized mm)
    (haddr : mm.physAddrBase + mm.numBlocks * mm.blockSize ≤ 2 ^ 32)
    (hmem : mem.physAddr < 2 ^ 32) (hi : i < mm.numBlocks) :
    mm.blockIdx mem = i ↔ mm.InBlock i mem.physAddr := by
  have hpos := h.blockSize_pos
  have hbound : (i + 1) * mm.blockSize ≤ mm.numBlocks * mm.blockSize :=
    Nat.mul_le_mul_right _ hi
  rw [Nat.succ_mul] at hbound
  have hsub : u32Sub mem.physAddr mm.physAddrBase =
      if mm.physAddrBase ≤ mem.physAddr then
        mem.physAddr - mm.physAddrBase
      else mem.physAddr + 2 ^ 32 - mm.physAddrBase := by
    unfold u32Sub u32
    split_ifs <;> omega
  rw [Minim.blockIdx, Nat.shiftRight_eq_div_pow, ← h.blockSize_eq,
    Nat.div_eq_iff hpos, hsub]
  unfold Minim.InBlock
  split_ifs with hle <;> omega

variable [DecidableEq κ] {cl : κ}

/-- Freeing succeeds exactly at the first block of a superblock that the
client owns. -/
theorem Represents.locMinimFreeByIdx_ok_iff (h : Represents mm row) :
    (locMinimFreeByIdx mm cl i).1 = .ok () ↔ ∃ n, Holds row cl i n := by
  rcases locMinimFreeByIdx_cases h cl i with
    ⟨hnone, heq⟩ | ⟨p, c, hp, hc, hne, heq⟩ |
      ⟨before, after, n, hn, rfl, rfl, heq⟩
  · rw [heq]
    refine iff_of_false nofun ?_
    rintro ⟨n, q, hq, htenant, -⟩
    rw [hnone q hq] at htenant
    cases htenant
  · rw [heq]
    refine iff_of_false nofun ?_
    rintro ⟨n, q, hq, htenant, -⟩
    rw [hq.unique hp, hc] at htenant
    exact hne (Option.some.inj htenant)
  · rw [heq]
    exact iff_of_true rfl ⟨n, _, plotAt_middle before _ after, rfl, rfl⟩

/-- `minim_free` accepts the addresses inside the first block of the caller's
own allocations, and no others; when it refuses, the heap is unchanged. -/
theorem minimFree_accepts_own (mm : Minim κ) (cl : κ) (mem : DspMemRegion)
    (h : WellFormed mm) (hsized : BlockSized mm)
    (haddr : mm.physAddrBase + mm.numBlocks * mm.blockSize ≤ 2 ^ 32)
    (hmem : mem.physAddr < 2 ^ 32) :
    ((minimFree mm cl mem).1 = .ok () ↔
      ∃ a, mm.Live a ∧ a.owner = cl ∧ mm.InBlock a.first mem.physAddr) ∧
    ((minimFree mm cl mem).1 ≠ .ok () → (minimFree mm cl mem).2 = mm) := by
  obtain ⟨row, hrow⟩ := h.represents
  constructor
  · have hfree : minimFree mm cl mem =
        if mm.blockIdx mem < mm.numBlocks then
          locMinimFreeByIdx mm cl (mm.blockIdx mem)
        else (.error .EFAULT, mm) := rfl
    rw [hfree]
    split_ifs with hlt
    · rw [hrow.locMinimFreeByIdx_ok_iff]
      constructor
      · rintro ⟨n, hholds⟩
        refine ⟨⟨mm.blockIdx mem, n, cl⟩, hrow.live_iff.mpr hholds, rfl, ?_⟩
        exact (hsized.blockIdx_eq_iff haddr hmem hlt).mp rfl
      · rintro ⟨⟨i, n, c⟩, hlive, rfl, hin⟩
        have hholds := hrow.live_iff.mp hlive
        have hi : i < mm.numBlocks := hlive.1.2
        refine ⟨n, ?_⟩
        rw [(hsized.blockIdx_eq_iff haddr hmem hi).mpr hin]
        exact hholds
    · refine iff_of_false nofun ?_
      rintro ⟨a, hlive, -, hin⟩
      have hi : a.first < mm.numBlocks := hlive.1.2
      rw [(hsized.blockIdx_eq_iff haddr hmem hi).mpr hin] at hlt
      exact hlt hi
  · intro hrefused
    rcases minimFree_cases hrow cl mem with ⟨e, heq⟩ | ⟨_, _, _, _, _, _, heq⟩
    · rw [heq]
    · rw [heq] at hrefused
      exact absurd rfl hrefused

/-- An address in the middle of the first block is accepted. -/
theorem minimFree_accepts_own_inside :
    ((minimFree (κ := ℕ) ⟨4, 64, 6, [⟨2, 0, some 1⟩, MinimBlock.blank,
        ⟨0, 2, none⟩, MinimBlock.blank], 4096⟩ 1 ⟨4100, 0, 0⟩).1 = .ok () ↔
      ∃ a, Minim.Live ⟨4, 64, 6, [⟨2, 0, some 1⟩, MinimBlock.blank,
          ⟨0, 2, none⟩, MinimBlock.blank], 4096⟩ a ∧ a.owner = 1 ∧
        Minim.InBlock (κ := ℕ) ⟨4, 64, 6, [⟨2, 0, some 1⟩, MinimBlock.blank,
          ⟨0, 2, none⟩, MinimBlock.blank], 4096⟩ a.first 4100) := by
  have hrow : Represents (κ := ℕ) ⟨4, 64, 6, [⟨2, 0, some 1⟩, MinimBlock.blank,
      ⟨0, 2, none⟩, MinimBlock.blank], 4096⟩
      [⟨2, some 1, Nat.two_pos⟩, ⟨2, none, Nat.two_pos⟩] := by
    refine ⟨rfl, rfl, ?_⟩
    exact .cons_cons (by simp [Apart]) (.singleton _)
  exact (minimFree_accepts_own _ 1 ⟨4100, 0, 0⟩ hrow.wellFormed
    ⟨by decide, rfl⟩ (by decide) (by decide)).1

end Free

end C64Tools.Kmod
