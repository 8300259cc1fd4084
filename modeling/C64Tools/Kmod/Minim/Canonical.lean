import C64Tools.Kmod.Minim.Invariant

/-!
# Canonical heaps

A well-formed heap is the heap of a row of superblocks, and the allocated
superblocks determine the row.  Nothing of an allocation is left in the block
array when it has been freed, in whatever order superblocks are joined.
-/

namespace C64Tools.Kmod

open Tiling Transition

variable {κ : Type*} {mm mm' : Minim κ} {row row' : List (Plot κ)} {i : ℕ}

/-! ## Well-formed heaps as rows -/

theorem WellFormed.block_blank (h : WellFormed mm) (hi : IsHead mm i) {j : ℕ}
    (hij : i < j) (hj : j < i + (mm.block i).headCount) :
    mm.block j = MinimBlock.blank := by
  obtain ⟨halloc, hfree⟩ := h.interior i hi j hij hj
  have howner : (mm.block j).owner = none := by
    by_contra hsome
    have hpos := ((h.owner_iff j).mp hsome).2
    omega
  calc
    mm.block j = ⟨(mm.block j).allocCount, (mm.block j).freeCount,
        (mm.block j).owner⟩ := rfl
    _ = MinimBlock.blank := by
        rw [halloc, hfree, howner]
        rfl

theorem WellFormed.headCount_pos (h : WellFormed mm) (hi : IsHead mm i) :
    0 < (mm.block i).headCount := by
  unfold MinimBlock.headCount
  rcases h.one_count i hi with ⟨hpos, -⟩ | ⟨hzero, hpos⟩
  · rwa [if_pos hpos.ne']
  · rwa [if_neg (not_not.mpr hzero)]

/-- The superblock that starts with a block. -/
def WellFormed.plot (h : WellFormed mm) (hi : IsHead mm i) : Plot κ where
  size := (mm.block i).headCount
  tenant := (mm.block i).owner
  size_pos := h.headCount_pos hi

theorem WellFormed.headBlock_plot (h : WellFormed mm) (hi : IsHead mm i) :
    headBlock (h.plot hi) = mm.block i := by
  have howner := h.owner_iff i
  rcases h.one_count i hi with ⟨hpos, hzero⟩ | ⟨hzero, hpos⟩
  · obtain ⟨c, hc⟩ := Option.ne_none_iff_exists'.mp (howner.mpr ⟨hi, hpos⟩)
    have hcount : (mm.block i).headCount = (mm.block i).allocCount :=
      if_pos hpos.ne'
    have htenant : (h.plot hi).tenant = some c := hc
    calc
      headBlock (h.plot hi) = ⟨(mm.block i).headCount, 0, some c⟩ := by
        unfold headBlock
        rw [htenant]
        rfl
      _ = mm.block i := by rw [hcount, ← hzero, ← hc]
  · have hnone : (mm.block i).owner = none := by
      by_contra hsome
      exact absurd (howner.mp hsome).2 (by omega)
    have hcount : (mm.block i).headCount = (mm.block i).freeCount :=
      if_neg (not_not.mpr hzero)
    have htenant : (h.plot hi).tenant = none := hnone
    calc
      headBlock (h.plot hi) = ⟨0, (mm.block i).headCount, none⟩ := by
        unfold headBlock
        rw [htenant]
        rfl
      _ = mm.block i := by rw [hcount, ← hzero, ← hnone]

theorem block_eq_getElem {j : ℕ} (hj : j < mm.blocks.length) :
    mm.block j = mm.blocks[j] :=
  List.getD_eq_getElem _ _ hj

/-- The block array from a superblock on. -/
theorem WellFormed.drop_eq (h : WellFormed mm) (hi : IsHead mm i) :
    mm.blocks.drop i = superblock (h.plot hi) ++
      mm.blocks.drop (i + (mm.block i).headCount) := by
  have hle : i + (mm.block i).headCount ≤ mm.blocks.length := by
    rw [h.length_blocks]
    exact h.walk_le _ (.next hi.1 hi.2)
  have hpos := h.headCount_pos hi
  have hfront : (mm.blocks.drop i).take (mm.block i).headCount =
      superblock (h.plot hi) := by
    apply List.ext_getElem
    · rw [List.length_take, List.length_drop, length_superblock]
      show min _ _ = (mm.block i).headCount
      omega
    · intro j hj _
      rw [List.length_take, List.length_drop] at hj
      rw [List.getElem_take, List.getElem_drop,
        ← block_eq_getElem (by omega : i + j < mm.blocks.length)]
      cases j with
      | zero => exact (h.headBlock_plot hi).symm
      | succ j =>
          rw [h.block_blank hi (by omega) (by omega)]
          simp [superblock]
  rw [← hfront, ← List.drop_drop, List.take_append_drop]

theorem WellFormed.exists_row (h : WellFormed mm) (hi : Walk mm i) :
    ∃ row, mm.blocks.drop i = blocksOf row ∧ i + span row = mm.numBlocks ∧
      Coalesced row := by
  obtain ⟨left, hleft⟩ : ∃ left, mm.numBlocks - i = left := ⟨_, rfl⟩
  induction left using Nat.strong_induction_on generalizing i with
  | _ left ih =>
      rcases Nat.eq_or_lt_of_le (h.walk_le i hi) with rfl | hlt
      · refine ⟨[], ?_, rfl, List.isChain_nil⟩
        rw [← h.length_blocks]
        exact List.drop_length
      · have hhead : IsHead mm i := ⟨hi, hlt⟩
        have hpos := h.headCount_pos hhead
        obtain ⟨row, hdrop, hspan, hrow⟩ :=
          ih _ (by omega) (Walk.next hi hlt) rfl
        refine ⟨h.plot hhead :: row, ?_, ?_, ?_⟩
        · rw [h.drop_eq hhead, hdrop, blocksOf_cons]
        · rw [span_cons]
          show i + ((mm.block i).headCount + span row) = mm.numBlocks
          omega
        · cases row with
          | nil => exact List.isChain_singleton _
          | cons q row =>
              refine List.isChain_cons_cons.mpr ⟨?_, hrow⟩
              intro hvacant hnone
              rw [span_cons] at hspan
              have hq := q.size_pos
              have hnext : IsHead mm (i + (mm.block i).headCount) :=
                ⟨Walk.next hi hlt, by omega⟩
              have hblock : mm.block (i + (mm.block i).headCount) =
                  headBlock q := by
                have hget := @List.getElem?_drop _ mm.blocks
                  (i + (mm.block i).headCount) 0
                rw [hdrop] at hget
                rw [Minim.block, List.getD_eq_getElem?_getD, ← Nat.add_zero (i + _),
                  ← hget]
                rfl
              have hfree : (mm.block i).freeCount =
                  (h.plot hhead).size := by
                rw [← h.headBlock_plot hhead, freeCount_headBlock hvacant]
              rcases h.apart i hhead hnext with hzero | hzero
              · have hsize := (h.plot hhead).size_pos
                omega
              · rw [hblock, freeCount_headBlock hnone] at hzero
                omega

/-- A well-formed heap is the heap of a row of superblocks. -/
theorem WellFormed.represents (h : WellFormed mm) :
    ∃ row, Represents mm row := by
  obtain ⟨row, hblocks, hspan, hrow⟩ := h.exists_row Walk.start
  rw [Nat.zero_add] at hspan
  exact ⟨row, hblocks, hspan.symm, hrow⟩

/-! ## Live allocations -/

/-- A superblock that is allocated: its first block, its length and its
owner. -/
structure Allocation (κ : Type*) where
  first : ℕ
  count : ℕ
  owner : κ
  deriving DecidableEq, Repr

/-- The heap has this superblock. -/
def Minim.Live (mm : Minim κ) (a : Allocation κ) : Prop :=
  IsHead mm a.first ∧ 0 < a.count ∧
    (mm.block a.first).allocCount = a.count ∧
    (mm.block a.first).owner = some a.owner

theorem Represents.live_iff (h : Represents mm row) {a : Allocation κ} :
    mm.Live a ↔ Holds row a.owner a.first a.count := by
  constructor
  · rintro ⟨hhead, hpos, hcount, howner⟩
    obtain ⟨p, hp⟩ := h.isHead_iff.mp hhead
    rw [h.block_head hp, owner_headBlock] at howner
    rw [h.block_head hp, allocCount_headBlock_of_held howner] at hcount
    exact ⟨p, hp, howner, hcount⟩
  · intro hholds
    obtain ⟨hpos, hblock⟩ := h.block_eq_iff_holds.mpr hholds
    obtain ⟨p, hp, -, -⟩ := hholds
    refine ⟨h.isHead_iff.mpr ⟨p, hp⟩, hpos, ?_, ?_⟩
    · rw [hblock]
    · rw [hblock]

/-- Two heaps of one size with the same allocations have the same
superblocks. -/
theorem Represents.eq_of_live_iff (h : Represents mm row)
    (h' : Represents mm' row') (hnum : mm.numBlocks = mm'.numBlocks)
    (hlive : ∀ a, mm.Live a ↔ mm'.Live a) : row = row' := by
  apply h.coalesced.eq_of_holds_iff h'.coalesced
  · rw [← h.numBlocks_eq, ← h'.numBlocks_eq, hnum]
  · intro d off n
    have ha := hlive ⟨off, n, d⟩
    rwa [h.live_iff, h'.live_iff] at ha

/-- The allocations after the front of a free superblock has been let. -/
theorem Represents.live_lease {before after : List (Plot κ)} {n k : ℕ}
    {hn : 0 < n} (h : Represents mm (before ++ ⟨n, none, hn⟩ :: after))
    (hk : 0 < k) (hkn : k ≤ n) (cl : κ) (a : Allocation κ) :
    ({ mm with blocks := blocksOf (before ++
        ⟨k, some cl, hk⟩ :: (remainder (n - k) ++ after)) } :
      Minim κ).Live a ↔ mm.Live a ∨ a = ⟨span before, k, cl⟩ := by
  rw [(h.lease hk hkn cl).live_iff, h.live_iff, holds_lease hn hkn]
  refine or_congr_right ?_
  cases a
  simp only [Allocation.mk.injEq]
  constructor
  · rintro ⟨howner, hfirst, hcount⟩
    exact ⟨hfirst, hcount, howner⟩
  · rintro ⟨hfirst, hcount, howner⟩
    exact ⟨howner, hfirst, hcount⟩

theorem Represents.first_ne_of_vacant {before after : List (Plot κ)} {n : ℕ}
    {hn : 0 < n} (h : Represents mm (before ++ ⟨n, none, hn⟩ :: after))
    (a : Allocation κ) (ha : mm.Live a) : a.first ≠ span before := by
  intro hfirst
  obtain ⟨p, hp, htenant, -⟩ := h.live_iff.mp ha
  rw [hfirst] at hp
  rw [hp.unique (plotAt_middle before _ after)] at htenant
  cases htenant

/-- The allocations after one has been freed. -/
theorem Represents.live_vacate {before after : List (Plot κ)} {n : ℕ}
    {hn : 0 < n} {cl : κ}
    (h : Represents mm (before ++ ⟨n, some cl, hn⟩ :: after))
    (a : Allocation κ) :
    ({ mm with blocks := blocksOf (Tiling.vacate before n hn after) } :
        Minim κ).Live a ↔ mm.Live a ∧ a.first ≠ span before := by
  rw [h.vacate.live_iff, h.live_iff, holds_vacate (c := cl)]

/-! ## Freeing a region by its address -/

/-- `minim_free` gets the index of a block back from its address, as long as
the heap is not larger than the address space. -/
theorem blockIdx_regionAt {k : ℕ} (hi : i * 2 ^ mm.blockSizeShift < 2 ^ 32) :
    mm.blockIdx (mm.regionAt i k) = i := by
  unfold Minim.blockIdx Minim.regionAt
  rw [Nat.shiftLeft_eq, u32_of_lt hi, Nat.shiftRight_eq_div_pow]
  have hsub : u32Sub (u32 (mm.physAddrBase + i * 2 ^ mm.blockSizeShift))
      mm.physAddrBase = i * 2 ^ mm.blockSizeShift := by
    unfold u32Sub u32
    omega
  rw [hsub, Nat.mul_div_cancel _ (Nat.two_pow_pos _)]

variable [DecidableEq κ]

/-- The owner of a superblock frees it. -/
theorem minimFree_of_holds (h : Represents mm row) {cl : κ} {n : ℕ}
    {mem : DspMemRegion} (hidx : mm.blockIdx mem = i)
    (hholds : Holds row cl i n) :
    ∃ before after, ∃ hn : 0 < n,
      row = before ++ ⟨n, some cl, hn⟩ :: after ∧ i = span before ∧
      minimFree mm cl mem =
        (.ok (), { mm with blocks := blocksOf (vacate before n hn after) }) := by
  have hbound := hholds.le_span
  have hpos := hholds.pos
  obtain ⟨⟨m, tenant, hm⟩, hp, htenant, hsize⟩ := hholds
  obtain rfl : tenant = some cl := htenant
  obtain rfl : m = n := hsize
  obtain ⟨before, after, rfl, hi⟩ := hp.split
  refine ⟨before, after, hm, rfl, hi, ?_⟩
  have hlt : mm.blockIdx mem < mm.numBlocks := by
    rw [h.numBlocks_eq, hidx]
    omega
  rw [minimFree]
  show (if mm.blockIdx mem < mm.numBlocks then
    locMinimFreeByIdx mm cl (mm.blockIdx mem) else _) = _
  rw [if_pos hlt, hidx, hi]
  exact locMinimFreeByIdx_eq h

/-- A heap that has one allocation more than another one turns into it when
this allocation is freed. -/
theorem Represents.minimFree_eq (h : Represents mm row)
    (h' : Represents mm' row') (hshape : mm' = { mm with blocks := mm'.blocks })
    {a : Allocation κ} (hlive : ∀ b, mm'.Live b ↔ mm.Live b ∨ b = a)
    (hfresh : ∀ b, mm.Live b → b.first ≠ a.first) {mem : DspMemRegion}
    (hidx : mm'.blockIdx mem = a.first) :
    minimFree mm' a.owner mem = (.ok (), mm) := by
  have hholds : Holds row' a.owner a.first a.count :=
    h'.live_iff.mp ((hlive a).mpr (Or.inr rfl))
  obtain ⟨before, after, hn, rfl, hfirst, hfree⟩ :=
    minimFree_of_holds h' hidx hholds
  have hnum : mm'.numBlocks = mm.numBlocks := by rw [hshape]
  have hrow : Tiling.vacate before a.count hn after = row := by
    refine h'.vacate.eq_of_live_iff h hnum fun b => ?_
    rw [h'.live_vacate, hlive, ← hfirst]
    constructor
    · rintro ⟨hb | rfl, hne⟩
      · exact hb
      · exact absurd rfl hne
    · intro hb
      exact ⟨Or.inl hb, hfresh b hb⟩
  rw [hfree, hrow, ← h.blocks_eq, hshape]

/-- A call that allocates a superblock, and the free of the region that it has
returned. -/
theorem Represents.minimFree_minimAlloc (h : Represents mm row)
    (hfit : mm.numBlocks * 2 ^ mm.blockSizeShift ≤ 2 ^ 32)
    {uninit region : DspMemRegion} {cl : κ} {numBytes : ℕ}
    (halloc : minimAlloc uninit mm cl numBytes = some (region, mm'))
    (hne : mm' ≠ mm) : minimFree mm' cl region = (.ok (), mm) := by
  rcases minimAlloc_inversion h halloc with
    hsame | ⟨before, after, n, hn, hk, rfl, hkn, rfl, rfl⟩
  · exact absurd hsame hne
  · have hlt : span before < mm.numBlocks := by
      rw [h.numBlocks_eq, span_append, span_cons]
      dsimp only
      omega
    have hidx : mm.blockIdx
        (mm.regionAt (span before) (mm.blocksFor numBytes)) = span before :=
      blockIdx_regionAt (lt_of_lt_of_le
        (Nat.mul_lt_mul_of_pos_right hlt (Nat.two_pow_pos _)) hfit)
    exact h.minimFree_eq (h.lease hk hkn cl) rfl
      (h.live_lease hk hkn cl) h.first_ne_of_vacant hidx

/-- Allocations are freed by their owners, one after the other. -/
def freeAll (mm : Minim κ) (order : List (Allocation κ)) : Minim κ :=
  order.foldl (fun mm a =>
    (minimFree mm a.owner (mm.regionAt a.first a.count)).2) mm

/-- When all allocations have been freed, one free superblock is left. -/
theorem Represents.freeAll_eq (h : Represents mm row)
    (hfit : mm.numBlocks * 2 ^ mm.blockSizeShift ≤ 2 ^ 32)
    {order : List (Allocation κ)} (hnodup : order.Nodup)
    (horder : ∀ a, a ∈ order ↔ mm.Live a) :
    ∃ row', Represents (freeAll mm order) row' ∧
      freeAll mm order = { mm with blocks := blocksOf row' } ∧
      ∀ a, ¬ (freeAll mm order).Live a := by
  induction order generalizing mm row with
  | nil =>
      refine ⟨row, h, by rw [← h.blocks_eq]; rfl, fun a ha => ?_⟩
      exact absurd ((horder a).mpr ha) List.not_mem_nil
  | cons a order ih =>
      obtain ⟨hnot, hnodup⟩ := List.nodup_cons.mp hnodup
      have hholds : Holds row a.owner a.first a.count :=
        h.live_iff.mp ((horder a).mp (List.mem_cons_self ..))
      have hle := hholds.le_span
      have hpos := hholds.pos
      have hidx : mm.blockIdx (mm.regionAt a.first a.count) = a.first := by
        apply blockIdx_regionAt
        have hlt : a.first < mm.numBlocks := by
          rw [h.numBlocks_eq]
          omega
        exact lt_of_lt_of_le
          (Nat.mul_lt_mul_of_pos_right hlt (Nat.two_pow_pos _)) hfit
      obtain ⟨before, after, hn, rfl, hfirst, hfree⟩ :=
        minimFree_of_holds h hidx hholds
      have hstep : freeAll mm (a :: order) = freeAll
          { mm with blocks := blocksOf (Tiling.vacate before a.count hn after) }
          order := by
        rw [freeAll, List.foldl_cons, hfree]
        rfl
      have hrest : ∀ b, b ∈ order ↔
          ({ mm with blocks := blocksOf (Tiling.vacate before a.count hn after) } :
            Minim κ).Live b := by
        intro b
        rw [h.live_vacate, ← horder b, List.mem_cons]
        constructor
        · intro hb
          refine ⟨Or.inr hb, fun hsame => hnot ?_⟩
          have hbholds := h.live_iff.mp
            ((horder b).mp (List.mem_cons_of_mem _ hb))
          have hbpos := hbholds.pos
          rcases hbholds.eq_or_disjoint hholds with ⟨h1, h2, h3⟩ | h1 | h1
          · obtain rfl : b = a := by
              cases a
              cases b
              simp only [Allocation.mk.injEq]
              exact ⟨h1, h2, h3⟩
            exact hb
          · omega
          · omega
        · rintro ⟨rfl | hb, hne⟩
          · exact absurd hfirst hne
          · exact hb
      obtain ⟨row', hrow', heq, hlive⟩ := ih h.vacate hfit hnodup hrest
      rw [hstep]
      exact ⟨row', hrow', heq, hlive⟩

/-! ## Reachable heaps -/

section Run

variable {numBlocks blockSizeShift physAddrBase : ℕ}

/-- Only the block array of a heap ever changes. -/
theorem rebuilt_of_reachable (hpos : 0 < numBlocks)
    (h : (heapMachine κ numBlocks blockSizeShift physAddrBase).Reachable mm) :
    Rebuilt (minimInit numBlocks blockSizeShift physAddrBase) mm := by
  refine h.invariant (P := fun mm =>
    Rebuilt (minimInit numBlocks blockSizeShift physAddrBase) mm) ?_ ?_
  · rintro _ rfl
    exact (minimInit_represents hpos blockSizeShift physAddrBase).rebuilt_self
  · rintro mm call mm' ⟨row, hrow, rfl⟩ hstep
    obtain ⟨row', hrow', rfl⟩ := HeapStep.rebuilt hrow hstep
    exact ⟨row', hrow', rfl⟩

/-- The allocations determine the heap.  A region that is freed by the client
that has just allocated it, and all regions that are freed in any order, leave
no trace. -/
theorem heap_canonical (κ : Type*) [DecidableEq κ]
    (numBlocks blockSizeShift physAddrBase : ℕ) (hpos : 0 < numBlocks)
    (hfit : numBlocks * 2 ^ blockSizeShift ≤ 2 ^ 32) :
    (∀ mm mm' : Minim κ,
      (heapMachine κ numBlocks blockSizeShift physAddrBase).Reachable mm →
      (heapMachine κ numBlocks blockSizeShift physAddrBase).Reachable mm' →
      (∀ a, mm.Live a ↔ mm'.Live a) → mm = mm') ∧
    (∀ (mm mm' : Minim κ) (uninit region : DspMemRegion) (cl : κ)
      (numBytes : ℕ),
      (heapMachine κ numBlocks blockSizeShift physAddrBase).Reachable mm →
      minimAlloc uninit mm cl numBytes = some (region, mm') → mm' ≠ mm →
      minimFree mm' cl region = (.ok (), mm)) ∧
    ∀ (mm : Minim κ) (order : List (Allocation κ)),
      (heapMachine κ numBlocks blockSizeShift physAddrBase).Reachable mm →
      order.Nodup → (∀ a, a ∈ order ↔ mm.Live a) →
      freeAll mm order = minimInit numBlocks blockSizeShift physAddrBase := by
  refine ⟨?_, ?_, ?_⟩
  · intro mm mm' hmm hmm' hlive
    obtain ⟨row, hrow, rfl⟩ := rebuilt_of_reachable hpos hmm
    obtain ⟨row', hrow', rfl⟩ := rebuilt_of_reachable hpos hmm'
    obtain rfl := hrow.eq_of_live_iff hrow' rfl hlive
    rfl
  · intro mm mm' uninit region cl numBytes hmm halloc hne
    obtain ⟨row, hrow, rfl⟩ := rebuilt_of_reachable hpos hmm
    exact hrow.minimFree_minimAlloc hfit halloc hne
  · intro mm order hmm hnodup horder
    obtain ⟨row, hrow, rfl⟩ := rebuilt_of_reachable hpos hmm
    obtain ⟨row', hrow', heq, hnone⟩ := hrow.freeAll_eq hfit hnodup horder
    have hinit := minimInit_represents (κ := κ) hpos blockSizeShift
      physAddrBase
    have hsame : row' = [⟨numBlocks, none, hpos⟩] := by
      refine hrow'.eq_of_live_iff hinit (by rw [heq]) fun a => ?_
      refine iff_of_false (hnone a) fun hlive => ?_
      obtain ⟨p, hp, htenant, -⟩ := hinit.live_iff.mp hlive
      obtain rfl := List.mem_singleton.mp hp.mem
      cases htenant
    rw [heq, hsame, ← hinit.blocks_eq]

/-- Two of four blocks are allocated by different clients, and freed in the
order of their allocation. -/
theorem heap_canonical_two_regions :
    freeAll (κ := ℕ) ⟨4, 64, 6,
        [⟨1, 0, some 1⟩, ⟨1, 0, some 2⟩, ⟨0, 2, none⟩, MinimBlock.blank],
        4096⟩ [⟨0, 1, 1⟩, ⟨1, 1, 2⟩] = minimInit 4 6 4096 := by
  have hrun : (heapMachine ℕ 4 6 4096).Reachable ⟨4, 64, 6,
      [⟨1, 0, some 1⟩, ⟨1, 0, some 2⟩, ⟨0, 2, none⟩, MinimBlock.blank],
      4096⟩ := by
    refine .step (.step (.init rfl)
      (t := ⟨4, 64, 6, [⟨1, 0, some 1⟩, ⟨0, 3, none⟩, MinimBlock.blank,
        MinimBlock.blank], 4096⟩) (e := .alloc 1 64) ?_)
      (e := .alloc 2 40) ?_
    all_goals exact ⟨DspMemRegion.zero, _, rfl⟩
  have hrow : Represents (κ := ℕ) ⟨4, 64, 6,
      [⟨1, 0, some 1⟩, ⟨1, 0, some 2⟩, ⟨0, 2, none⟩, MinimBlock.blank], 4096⟩
      [⟨1, some 1, Nat.one_pos⟩, ⟨1, some 2, Nat.one_pos⟩,
        ⟨2, none, Nat.two_pos⟩] := by
    refine ⟨rfl, rfl, ?_⟩
    exact .cons_cons (by simp [Apart]) (.cons_cons (by simp [Apart])
      (.singleton _))
  refine (heap_canonical ℕ 4 6 4096 (by decide) (by decide)).2.2 _ _ hrun
    (by decide) fun a => ?_
  rw [hrow.live_iff]
  cases a
  simp only [holds_cons]
  simp [Holds, not_plotAt_nil]
  omega

end Run

end C64Tools.Kmod
