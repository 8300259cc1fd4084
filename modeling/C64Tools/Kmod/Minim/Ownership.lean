import C64Tools.Kmod.Minim.FreeByClient

/-!
# Who owns which SRAM region

The driver runs two heaps, one in the level 1 and one in the level 2 SRAM of
the DSP.  A heap is observed together with the list of the regions that were
granted and not freed since.  The granted regions are disjoint, block aligned
and inside the heap, whatever addresses the clients pass to `minim_free`.
-/

namespace C64Tools.Kmod

open Tiling Transition

/-! ## The heaps of the driver -/

/-- Arguments of `minim_init` for which no address and no rounded up byte
count exceeds 32 bits. -/
structure HeapConfig where
  numBlocks : ℕ
  blockSizeShift : ℕ
  physAddrBase : ℕ
  numBlocks_pos : 0 < numBlocks
  addr_le : physAddrBase + numBlocks * 2 ^ blockSizeShift ≤ 2 ^ 32
  count_le : (numBlocks + 1) * 2 ^ blockSizeShift ≤ 2 ^ 32

/-- `IVA2_L1DSRAM_BASE_GPP`. -/
def iva2L1dsramBaseGpp : ℕ := 0x5cf04000

/-- `IVA2_L1DSRAM_SIZE`. -/
def iva2L1dsramSize : ℕ := 0xc000

/-- `IVA2_L2SRAM_BASE_GPP`. -/
def iva2L2sramBaseGpp : ℕ := 0x5c7f8000

/-- `IVA2_L2SRAM_SIZE`. -/
def iva2L2sramSize : ℕ := 0x18000

/-- `DSP_L1SRAM_FSHM_SIZE`. -/
def dspL1sramFshmSize : ℕ := 24 * 1024

/-- `DSP_L1SRAM_SCRATCH_SIZE`. -/
def dspL1sramScratchSize : ℕ := 16 * 1024

/-- `DSP_FSHM_TOTAL_REG_SIZE`: the two fastcall register blocks. -/
def dspFshmTotalRegSize : ℕ := (2 * 64 + 63) >>> 6 <<< 6

/-- `l1sram_fshm_mm`. -/
def l1sramFshm : HeapConfig where
  numBlocks :=
    (dspL1sramFshmSize - dspL1sramScratchSize - dspFshmTotalRegSize) / 64
  blockSizeShift := 6
  physAddrBase := iva2L1dsramBaseGpp +
    (iva2L1dsramSize - dspL1sramFshmSize) + dspL1sramScratchSize
  numBlocks_pos := by decide
  addr_le := by decide
  count_le := by decide

/-- `l2sram_fshm_mm`. -/
def l2sramFshm : HeapConfig where
  numBlocks := iva2L2sramSize >>> 6
  blockSizeShift := 6
  physAddrBase := iva2L2sramBaseGpp
  numBlocks_pos := by decide
  addr_le := by decide
  count_le := by decide

namespace HeapConfig

def blockSize (cfg : HeapConfig) : ℕ := 2 ^ cfg.blockSizeShift

def numBytes (cfg : HeapConfig) : ℕ := cfg.numBlocks * cfg.blockSize

theorem blockSize_pos (cfg : HeapConfig) : 0 < cfg.blockSize :=
  Nat.two_pow_pos _

/-- The heap was set up with this configuration. -/
structure Fits {κ : Type*} (cfg : HeapConfig) (mm : Minim κ) : Prop where
  numBlocks : mm.numBlocks = cfg.numBlocks
  blockSize : mm.blockSize = cfg.blockSize
  blockSizeShift : mm.blockSizeShift = cfg.blockSizeShift
  physAddrBase : mm.physAddrBase = cfg.physAddrBase

end HeapConfig

/-! ## Arithmetic of block counts and addresses -/

section Arithmetic

variable {κ : Type*} {cfg : HeapConfig} {mm : Minim κ}

/-- A request is rounded up to blocks. -/
theorem HeapConfig.Fits.blocksFor (h : cfg.Fits mm) {numBytes : ℕ}
    (hle : numBytes ≤ cfg.numBytes) :
    mm.blocksFor numBytes =
      (numBytes + (cfg.blockSize - 1)) / cfg.blockSize := by
  have hcount := cfg.count_le
  have hpos := cfg.blockSize_pos
  have hlt : numBytes + (cfg.blockSize - 1) < 2 ^ 32 := by
    unfold HeapConfig.numBytes at hle
    unfold HeapConfig.blockSize at *
    rw [Nat.succ_mul] at hcount
    omega
  rw [Minim.blocksFor, h.blockSize, h.blockSizeShift, u32_of_lt hlt,
    Nat.shiftRight_eq_div_pow]
  rfl

theorem HeapConfig.Fits.le_blocksFor (h : cfg.Fits mm) {numBytes : ℕ}
    (hle : numBytes ≤ cfg.numBytes) :
    numBytes ≤ mm.blocksFor numBytes * cfg.blockSize := by
  have hpos := cfg.blockSize_pos
  have hdiv := Nat.lt_div_mul_add (a := numBytes + (cfg.blockSize - 1)) hpos
  rw [h.blocksFor hle]
  omega

theorem HeapConfig.Fits.blocksFor_pos (h : cfg.Fits mm) {numBytes : ℕ}
    (hpos : 0 < numBytes) (hle : numBytes ≤ cfg.numBytes) :
    0 < mm.blocksFor numBytes := by
  by_contra hzero
  have hbound := h.le_blocksFor hle
  rw [Nat.eq_zero_of_not_pos hzero, Nat.zero_mul] at hbound
  omega

/-- No address or size of a region inside the heap is cut to 32 bits. -/
theorem HeapConfig.Fits.regionAt (h : cfg.Fits mm) {fr k : ℕ} (hk : 0 < k)
    (hle : fr + k ≤ cfg.numBlocks) :
    mm.regionAt fr k =
      ⟨cfg.physAddrBase + fr * cfg.blockSize, 0, k * cfg.blockSize⟩ := by
  have haddr := cfg.addr_le
  have hcount := cfg.count_le
  have hpos := cfg.blockSize_pos
  have hbound := Nat.mul_le_mul_right cfg.blockSize hle
  rw [Nat.add_mul] at hbound
  have hkpos := Nat.mul_pos hk hpos
  rw [Nat.succ_mul] at hcount
  unfold HeapConfig.blockSize at *
  rw [Minim.regionAt, h.blockSizeShift, h.physAddrBase,
    Nat.shiftLeft_eq, Nat.shiftLeft_eq,
    u32_of_lt (n := fr * _) (by omega), u32_of_lt (n := k * _) (by omega),
    u32_of_lt (by omega)]

theorem u32_eq_add_u32Sub {a b : ℕ} (h : b + u32Sub a b < 2 ^ 32) :
    u32 a = b + u32Sub a b := by
  unfold u32Sub u32 at *
  omega

/-- An address with the block index of a block lies in that block. -/
theorem HeapConfig.Fits.addr_of_blockIdx (h : cfg.Fits mm)
    {mem : DspMemRegion} {i : ℕ} (hidx : mm.blockIdx mem = i)
    (hi : i < cfg.numBlocks) :
    cfg.physAddrBase + i * cfg.blockSize ≤ u32 mem.physAddr ∧
      u32 mem.physAddr <
        cfg.physAddrBase + i * cfg.blockSize + cfg.blockSize := by
  have haddr := cfg.addr_le
  have hpos := cfg.blockSize_pos
  rw [Minim.blockIdx, h.blockSizeShift, h.physAddrBase,
    Nat.shiftRight_eq_div_pow] at hidx
  have hlow := Nat.div_mul_le_self
    (u32Sub mem.physAddr cfg.physAddrBase) (2 ^ cfg.blockSizeShift)
  have hhigh := Nat.lt_div_mul_add
    (a := u32Sub mem.physAddr cfg.physAddrBase) hpos
  have hbound := Nat.mul_le_mul_right cfg.blockSize (Nat.succ_le_of_lt hi)
  rw [Nat.succ_mul] at hbound
  unfold HeapConfig.blockSize at *
  rw [hidx] at hlow hhigh
  have hsum := @u32_eq_add_u32Sub mem.physAddr cfg.physAddrBase (by omega)
  omega

end Arithmetic

/-! ## Granted regions -/

/-- A successful allocation. -/
structure Grant (κ : Type*) where
  client : κ
  region : DspMemRegion
  numBytes : ℕ

/-- A heap and the grants that were not freed since. -/
structure SramState (κ : Type*) where
  heap : Minim κ
  grants : List (Grant κ)

/-- Regions without a common byte. -/
def DisjointRegions (r r' : DspMemRegion) : Prop :=
  r.physAddr + r.size ≤ r'.physAddr ∨ r'.physAddr + r'.size ≤ r.physAddr

/-- The owner frees the grant with an address inside its first block. -/
def Grant.FreedBy {κ : Type*} (cfg : HeapConfig) (cl : κ)
    (mem : DspMemRegion) (g : Grant κ) : Prop :=
  g.client = cl ∧ g.region.physAddr ≤ u32 mem.physAddr ∧
    u32 mem.physAddr < g.region.physAddr + cfg.blockSize

variable {κ : Type*} [DecidableEq κ]

instance (cfg : HeapConfig) (cl : κ) (mem : DspMemRegion) (g : Grant κ) :
    Decidable (g.FreedBy cfg cl mem) :=
  inferInstanceAs (Decidable (_ ∧ _ ∧ _))

/-- Allocator calls, with requests from one byte up to the heap size.  A
region of size zero tells the client that its request failed. -/
inductive SramStep (cfg : HeapConfig) :
    SramState κ → HeapCall κ → SramState κ → Prop
  | alloc {s : SramState κ} {cl : κ} {numBytes : ℕ}
      {uninit region : DspMemRegion} {mm' : Minim κ} :
      1 ≤ numBytes → numBytes ≤ cfg.numBytes →
      minimAlloc uninit s.heap cl numBytes = some (region, mm') →
      SramStep cfg s (.alloc cl numBytes)
        ⟨mm', if region.size = 0 then s.grants
          else ⟨cl, region, numBytes⟩ :: s.grants⟩
  | free {s : SramState κ} {cl : κ} {mem : DspMemRegion} :
      SramStep cfg s (.free cl mem)
        ⟨(minimFree s.heap cl mem).2,
          s.grants.filter fun g => ¬g.FreedBy cfg cl mem⟩
  | freeByClient {s : SramState κ} {cl : κ} {mm' : Minim κ} :
      FreeByClientReturns s.heap cl mm' →
      SramStep cfg s (.freeByClient cl)
        ⟨mm', s.grants.filter fun g => g.client ≠ cl⟩

/-- One of the SRAM heaps of the driver. -/
def sramMachine (κ : Type*) [DecidableEq κ] (cfg : HeapConfig) :
    Machine (SramState κ) (HeapCall κ) where
  init s := s =
    ⟨minimInit cfg.numBlocks cfg.blockSizeShift cfg.physAddrBase, []⟩
  step := SramStep cfg

/-- The heap has a superblock of the client at the granted region. -/
def Grant.Held (cfg : HeapConfig) (row : List (Plot κ)) (g : Grant κ) :
    Prop :=
  ∃ i n, Holds row g.client i n ∧ g.numBytes ≤ n * cfg.blockSize ∧
    g.region = ⟨cfg.physAddrBase + i * cfg.blockSize, 0, n * cfg.blockSize⟩

/-- What every call preserves: the grants are held, and no two of them start
at the same address. -/
structure GrantsHeld (cfg : HeapConfig) (s : SramState κ)
    (row : List (Plot κ)) : Prop where
  fits : cfg.Fits s.heap
  represents : Represents s.heap row
  held : ∀ g ∈ s.grants, g.Held cfg row
  distinct : s.grants.Pairwise fun g g' =>
    g.region.physAddr ≠ g'.region.physAddr

section Step

variable {cfg : HeapConfig} {s : SramState κ} {row : List (Plot κ)} {cl : κ}

omit [DecidableEq κ] in
theorem GrantsHeld.span_eq (h : GrantsHeld cfg s row) :
    span row = cfg.numBlocks :=
  h.represents.numBlocks_eq.symm.trans h.fits.numBlocks

omit [DecidableEq κ] in
theorem minimInit_grantsHeld (cfg : HeapConfig) :
    GrantsHeld cfg (κ := κ)
      ⟨minimInit cfg.numBlocks cfg.blockSizeShift cfg.physAddrBase, []⟩
      [⟨cfg.numBlocks, none, cfg.numBlocks_pos⟩] where
  fits := ⟨rfl, Nat.one_shiftLeft _, rfl, rfl⟩
  represents := minimInit_represents cfg.numBlocks_pos _ _
  held := by simp
  distinct := List.Pairwise.nil

omit [DecidableEq κ] in
/-- Leaving out grants, while those that stay are still held. -/
theorem GrantsHeld.filter (h : GrantsHeld cfg s row) {mm' : Minim κ}
    {row' : List (Plot κ)} {keep : Grant κ → Bool} (hfits : cfg.Fits mm')
    (hrow : Represents mm' row')
    (hkeep : ∀ g ∈ s.grants, keep g = true → ∀ i n,
      Holds row g.client i n →
      g.region.physAddr = cfg.physAddrBase + i * cfg.blockSize →
      Holds row' g.client i n) :
    GrantsHeld cfg ⟨mm', s.grants.filter keep⟩ row' where
  fits := hfits
  represents := hrow
  held := by
    intro g hg
    obtain ⟨hmem, hk⟩ := List.mem_filter.mp hg
    obtain ⟨i, n, hholds, hbytes, hregion⟩ := h.held g hmem
    refine ⟨i, n, hkeep g hmem hk i n hholds ?_, hbytes, hregion⟩
    rw [hregion]
  distinct := h.distinct.filter keep

omit [DecidableEq κ] in
theorem GrantsHeld.alloc (h : GrantsHeld cfg s row) {numBytes : ℕ}
    {uninit region : DspMemRegion} {mm' : Minim κ} (hone : 1 ≤ numBytes)
    (hle : numBytes ≤ cfg.numBytes)
    (halloc : minimAlloc uninit s.heap cl numBytes = some (region, mm')) :
    ∃ row', GrantsHeld cfg ⟨mm', if region.size = 0 then s.grants
      else ⟨cl, region, numBytes⟩ :: s.grants⟩ row' := by
  have hk := h.fits.blocksFor_pos hone hle
  rcases minimAlloc_cases h.represents uninit cl numBytes with
    ⟨hzero, -⟩ | ⟨-, -, heq⟩ |
    ⟨before, after, n, hn, hk, rfl, hkn, -, heq⟩
  · exact absurd hzero hk.ne'
  · obtain ⟨rfl, rfl⟩ : DspMemRegion.zero = region ∧ s.heap = mm' := by
      simpa [heq] using halloc
    exact ⟨row, h⟩
  · have hspan := h.span_eq
    rw [span_append, span_cons] at hspan
    have hinside : span before + s.heap.blocksFor numBytes ≤
        cfg.numBlocks := by
      simp only at hspan
      omega
    rw [heq, Option.some.injEq, Prod.mk.injEq,
      h.fits.regionAt hk hinside] at halloc
    obtain ⟨rfl, rfl⟩ := halloc
    have hsize : s.heap.blocksFor numBytes * cfg.blockSize ≠ 0 :=
      (Nat.mul_pos hk cfg.blockSize_pos).ne'
    rw [if_neg hsize]
    refine ⟨_, ⟨h.fits.numBlocks, h.fits.blockSize, h.fits.blockSizeShift,
      h.fits.physAddrBase⟩, h.represents.lease hk hkn cl, ?_, ?_⟩
    · intro g hg
      rcases List.mem_cons.mp hg with rfl | hg
      · exact ⟨span before, _, (holds_lease hn hkn).mpr (Or.inr ⟨rfl, rfl, rfl⟩),
          h.fits.le_blocksFor hle, rfl⟩
      · obtain ⟨i, m, hholds, hbytes, hregion⟩ := h.held g hg
        exact ⟨i, m, (holds_lease hn hkn).mpr (Or.inl hholds), hbytes, hregion⟩
    · refine List.pairwise_cons.mpr ⟨?_, h.distinct⟩
      -- the first block of the new superblock was free until now
      intro g hg hsame
      obtain ⟨i, m, ⟨p, hp, hc, -⟩, -, hregion⟩ := h.held g hg
      rw [hregion] at hsame
      have hi : span before = i :=
        Nat.eq_of_mul_eq_mul_right cfg.blockSize_pos
          (Nat.add_left_cancel hsame)
      subst hi
      rw [hp.unique (plotAt_middle before _ after)] at hc
      exact absurd hc (by simp)

theorem GrantsHeld.free (h : GrantsHeld cfg s row) (mem : DspMemRegion) :
    ∃ row', GrantsHeld cfg ⟨(minimFree s.heap cl mem).2,
      s.grants.filter fun g => ¬g.FreedBy cfg cl mem⟩ row' := by
  rcases minimFree_cases h.represents cl mem with
    ⟨e, heq⟩ | ⟨before, after, n, hn, rfl, hidx, heq⟩
  · rw [heq]
    exact ⟨row, h.filter h.fits h.represents fun _ _ _ _ _ hholds _ => hholds⟩
  · rw [heq]
    refine ⟨_, h.filter ⟨h.fits.numBlocks, h.fits.blockSize,
      h.fits.blockSizeShift, h.fits.physAddrBase⟩ h.represents.vacate ?_⟩
    intro g hg hkeep i m hholds haddr
    refine holds_vacate.mpr ⟨hholds, ?_⟩
    rintro rfl
    have hmine : Holds (before ++ ⟨n, some cl, hn⟩ :: after) cl
        (span before) n := ⟨_, plotAt_middle before _ after, rfl, rfl⟩
    have hclient : g.client = cl := by
      have hm := hholds.pos
      rcases hholds.eq_or_disjoint hmine with hsame | hsame | hsame
      · exact hsame.2.2
      · omega
      · omega
    have hlt : span before < cfg.numBlocks := by
      have hle := hmine.le_span
      rw [h.span_eq] at hle
      omega
    have hrange := h.fits.addr_of_blockIdx hidx hlt
    rw [← haddr] at hrange
    exact absurd ⟨hclient, hrange⟩ (of_decide_eq_true hkeep)

theorem GrantsHeld.freeByClient (h : GrantsHeld cfg s row) {mm' : Minim κ}
    (hfree : FreeByClientReturns s.heap cl mm') :
    ∃ row', GrantsHeld cfg
      ⟨mm', s.grants.filter fun g => g.client ≠ cl⟩ row' := by
  obtain ⟨fuel, hfree⟩ := hfree
  obtain ⟨-, row', hrow', hholds⟩ := @freeByClientFrom_returned κ _ cl s.heap
    mm' [] row fuel h.represents (by simp) hfree
  obtain ⟨row'', -, hmm⟩ := freeByClientFrom_rebuilt h.represents hfree
  have hfits : cfg.Fits mm' := by
    rw [hmm]
    exact ⟨h.fits.numBlocks, h.fits.blockSize, h.fits.blockSizeShift,
      h.fits.physAddrBase⟩
  refine ⟨row', h.filter hfits hrow' ?_⟩
  intro g hg hkeep i n hold _
  exact (hholds _ _ _).mpr ⟨hold, of_decide_eq_true hkeep⟩

/-- A call of the allocator keeps all grants held. -/
theorem GrantsHeld.step (h : GrantsHeld cfg s row) {call : HeapCall κ}
    {s' : SramState κ} (hstep : SramStep cfg s call s') :
    ∃ row', GrantsHeld cfg s' row' := by
  cases hstep with
  | alloc hone hle halloc => exact h.alloc hone hle halloc
  | free => exact h.free _
  | freeByClient hfree => exact h.freeByClient hfree

end Step

/-! ## Safety of all runs -/

/-- The granted region is the superblock of its client at that address. -/
def Grant.InHeap {κ : Type*} (cfg : HeapConfig) (mm : Minim κ)
    (g : Grant κ) : Prop :=
  ∃ i n, g.region.physAddr = cfg.physAddrBase + i * cfg.blockSize ∧
    g.region.size = n * cfg.blockSize ∧ mm.block i = ⟨n, 0, some g.client⟩

/-- The granted regions are safe from each other and from all frees. -/
structure GrantsSafe (cfg : HeapConfig) (s : SramState κ) : Prop where
  disjoint : s.grants.Pairwise fun g g' => DisjointRegions g.region g'.region
  start_on_block : ∀ g ∈ s.grants, ∃ i,
    g.region.physAddr = cfg.physAddrBase + i * cfg.blockSize
  inside : ∀ g ∈ s.grants, cfg.physAddrBase ≤ g.region.physAddr ∧
    g.region.physAddr + g.region.size ≤
      cfg.physAddrBase + cfg.numBlocks * cfg.blockSize
  large_enough : ∀ g ∈ s.grants, g.numBytes ≤ g.region.size
  in_heap : ∀ g ∈ s.grants, g.InHeap cfg s.heap
  kept : ∀ cl mem, ∀ g ∈ s.grants, g.client ≠ cl →
    g.InHeap cfg (minimFree s.heap cl mem).2
  blocks_kept : ∀ cl mem i d, d ≠ cl → (s.heap.block i).owner = some d →
    (minimFree s.heap cl mem).2.block i = s.heap.block i

/-- A free of one client leaves the superblocks of all others alone. -/
theorem minimFree_block_eq {mm : Minim κ} {row : List (Plot κ)}
    (h : Represents mm row) {cl d : κ} (hne : d ≠ cl) (mem : DspMemRegion)
    {i : ℕ} (howner : (mm.block i).owner = some d) :
    (minimFree mm cl mem).2.block i = mm.block i := by
  rcases minimFree_cases h cl mem with
    ⟨e, heq⟩ | ⟨before, after, n, hn, rfl, -, heq⟩
  · rw [heq]
  · rw [heq]
    obtain ⟨m, hm⟩ := h.exists_holds howner
    have hafter : Holds (vacate before n hn after) d i m := by
      refine holds_vacate.mpr ⟨hm, ?_⟩
      rintro rfl
      obtain ⟨p, hp, hd, -⟩ := hm
      rw [hp.unique (plotAt_middle before _ after)] at hd
      exact hne (Option.some.inj hd).symm
    rw [(h.block_eq_iff_holds.mpr hm).2,
      (h.vacate.block_eq_iff_holds.mpr hafter).2]

/-- A free gives no block to anybody. -/
theorem minimFree_owner {mm : Minim κ} {row : List (Plot κ)}
    (h : Represents mm row) {cl d : κ} {mem : DspMemRegion} {i : ℕ}
    (howner : ((minimFree mm cl mem).2.block i).owner = some d) :
    (mm.block i).owner = some d := by
  rcases minimFree_cases h cl mem with
    ⟨e, heq⟩ | ⟨before, after, n, hn, rfl, -, heq⟩
  · rwa [heq] at howner
  · rw [heq] at howner
    obtain ⟨m, hm⟩ := h.vacate.exists_holds howner
    rw [(h.block_eq_iff_holds.mpr (holds_vacate.mp hm).1).2]

omit [DecidableEq κ] in
/-- An allocation gives blocks to its client only. -/
theorem minimAlloc_owner {mm mm' : Minim κ} {row : List (Plot κ)}
    (h : Represents mm row) {cl d : κ} {uninit region : DspMemRegion}
    {numBytes i : ℕ}
    (halloc : minimAlloc uninit mm cl numBytes = some (region, mm'))
    (howner : (mm'.block i).owner = some d) :
    (mm.block i).owner = some d ∨ d = cl := by
  rcases minimAlloc_inversion h halloc with
    rfl | ⟨before, after, n, hn, hk, rfl, hkn, -, rfl⟩
  · exact Or.inl howner
  · obtain ⟨m, hm⟩ := (h.lease hk hkn cl).exists_holds howner
    obtain hm | ⟨rfl, -, -⟩ := (holds_lease hn hkn).mp hm
    · exact Or.inl (by rw [(h.block_eq_iff_holds.mpr hm).2])
    · exact Or.inr rfl

theorem GrantsHeld.safe {cfg : HeapConfig} {s : SramState κ}
    {row : List (Plot κ)} (h : GrantsHeld cfg s row) : GrantsSafe cfg s where
  disjoint := by
    refine h.distinct.imp_of_mem ?_
    intro g g' hg hg' hne
    obtain ⟨i, n, hi, -, hregion⟩ := h.held g hg
    obtain ⟨j, m, hj, -, hregion'⟩ := h.held g' hg'
    rw [hregion, hregion'] at hne ⊢
    unfold DisjointRegions
    rcases hi.eq_or_disjoint hj with ⟨rfl, -⟩ | hle | hle
    · exact absurd rfl hne
    · left
      have hbytes := Nat.mul_le_mul_right cfg.blockSize hle
      rw [Nat.add_mul] at hbytes
      simp only
      omega
    · right
      have hbytes := Nat.mul_le_mul_right cfg.blockSize hle
      rw [Nat.add_mul] at hbytes
      simp only
      omega
  start_on_block := by
    intro g hg
    obtain ⟨i, n, -, -, hregion⟩ := h.held g hg
    exact ⟨i, by rw [hregion]⟩
  inside := by
    intro g hg
    obtain ⟨i, n, hi, -, hregion⟩ := h.held g hg
    have hle := hi.le_span
    rw [h.span_eq] at hle
    have hbytes := Nat.mul_le_mul_right cfg.blockSize hle
    rw [Nat.add_mul] at hbytes
    rw [hregion]
    simp only
    omega
  large_enough := by
    intro g hg
    obtain ⟨i, n, -, hbytes, hregion⟩ := h.held g hg
    rw [hregion]
    exact hbytes
  in_heap := by
    intro g hg
    obtain ⟨i, n, hi, -, hregion⟩ := h.held g hg
    exact ⟨i, n, by rw [hregion], by rw [hregion],
      (h.represents.block_eq_iff_holds.mpr hi).2⟩
  kept := by
    intro cl mem g hg hne
    obtain ⟨i, n, hi, -, hregion⟩ := h.held g hg
    have hblock := (h.represents.block_eq_iff_holds.mpr hi).2
    refine ⟨i, n, by rw [hregion], by rw [hregion], ?_⟩
    rw [minimFree_block_eq h.represents hne mem (by rw [hblock]), hblock]
  blocks_kept := fun _ mem _ _ hne howner =>
    minimFree_block_eq h.represents hne mem howner

/-- In every run the granted regions are safe. -/
theorem grantsSafe_of_reachable {cfg : HeapConfig} {s : SramState κ}
    (h : (sramMachine κ cfg).Reachable s) : GrantsSafe cfg s := by
  have hheld : ∃ row, GrantsHeld cfg s row := by
    refine h.invariant (P := fun s => ∃ row, GrantsHeld cfg s row) ?_ ?_
    · rintro _ rfl
      exact ⟨_, minimInit_grantsHeld cfg⟩
    · rintro s call s' ⟨row, hrow⟩ hstep
      exact hrow.step hstep
  obtain ⟨row, hrow⟩ := hheld
  exact hrow.safe

/-- Client 2 frees with an address inside the region of client 1. -/
theorem grantsSafe_of_reachable_foreign_free :
    GrantsSafe (κ := ℕ) ⟨4, 6, 4096, by decide, by decide, by decide⟩
      ⟨⟨4, 64, 6, [⟨2, 0, some 1⟩, MinimBlock.blank, ⟨1, 0, some 2⟩,
        ⟨0, 1, none⟩], 4096⟩,
        [⟨2, ⟨4224, 0, 64⟩, 64⟩, ⟨1, ⟨4096, 0, 128⟩, 100⟩]⟩ := by
  let cfg : HeapConfig := ⟨4, 6, 4096, by decide, by decide, by decide⟩
  have halloc : minimAlloc DspMemRegion.zero (minimInit 4 6 4096) 1 100 =
      some (⟨4096, 0, 128⟩, ⟨4, 64, 6, [⟨2, 0, some 1⟩, MinimBlock.blank,
        ⟨0, 2, none⟩, MinimBlock.blank], 4096⟩) := rfl
  have hfirst : (sramMachine ℕ cfg).Reachable
      ⟨⟨4, 64, 6, [⟨2, 0, some 1⟩, MinimBlock.blank, ⟨0, 2, none⟩,
        MinimBlock.blank], 4096⟩, [⟨1, ⟨4096, 0, 128⟩, 100⟩]⟩ :=
    .step (.init rfl) (@SramStep.alloc ℕ _ cfg _ 1 100 DspMemRegion.zero
      ⟨4096, 0, 128⟩ _ (by decide) (by decide) halloc)
  have hsecond : (sramMachine ℕ cfg).Reachable
      ⟨⟨4, 64, 6, [⟨2, 0, some 1⟩, MinimBlock.blank, ⟨1, 0, some 2⟩,
        ⟨0, 1, none⟩], 4096⟩,
        [⟨2, ⟨4224, 0, 64⟩, 64⟩, ⟨1, ⟨4096, 0, 128⟩, 100⟩]⟩ :=
    .step hfirst (@SramStep.alloc ℕ _ cfg _ 2 64 DspMemRegion.zero
      ⟨4224, 0, 64⟩ _ (by decide) (by decide) rfl)
  exact grantsSafe_of_reachable (.step hsecond
    (@SramStep.free ℕ _ cfg _ 2 ⟨4100, 0, 64⟩))

end C64Tools.Kmod
