import C64Tools.Kmod.Minim.Refinement
import C64Tools.Library.Transition

/-!
# The heap representation invariant

The block array of a heap is well formed when the counts of the first blocks
lead from the first superblock to the next one and so on to the end of the
array, and the blocks in between are blank.  It is well formed after every
run of allocator calls.
-/

namespace C64Tools.Kmod

open Tiling Transition

variable {κ : Type*}

/-! ## Well-formed heaps -/

/-- Length of the superblock that starts with a block. -/
def MinimBlock.headCount (b : MinimBlock κ) : ℕ :=
  if b.allocCount ≠ 0 then b.allocCount else b.freeCount

/-- Positions met when the head counts are followed from block 0 on. -/
inductive Walk (mm : Minim κ) : ℕ → Prop
  | start : Walk mm 0
  | next {i : ℕ} : Walk mm i → i < mm.numBlocks →
      Walk mm (i + (mm.block i).headCount)

/-- Block `i` starts a superblock. -/
def IsHead (mm : Minim κ) (i : ℕ) : Prop := Walk mm i ∧ i < mm.numBlocks

/-- The representation invariant of the allocator. -/
structure WellFormed (mm : Minim κ) : Prop where
  length_blocks : mm.blocks.length = mm.numBlocks
  walk_le : ∀ i, Walk mm i → i ≤ mm.numBlocks
  walk_end : Walk mm mm.numBlocks
  one_count : ∀ i, IsHead mm i →
    (0 < (mm.block i).allocCount ∧ (mm.block i).freeCount = 0) ∨
      ((mm.block i).allocCount = 0 ∧ 0 < (mm.block i).freeCount)
  interior : ∀ i, IsHead mm i → ∀ j, i < j →
    j < i + (mm.block i).headCount →
      (mm.block j).allocCount = 0 ∧ (mm.block j).freeCount = 0
  owner_iff : ∀ i, (mm.block i).owner ≠ none ↔
    IsHead mm i ∧ 0 < (mm.block i).allocCount
  apart : ∀ i, IsHead mm i → IsHead mm (i + (mm.block i).headCount) →
    (mm.block i).freeCount = 0 ∨
      (mm.block (i + (mm.block i).headCount)).freeCount = 0

@[simp] theorem headCount_headBlock (p : Plot κ) :
    (headBlock p).headCount = p.size := by
  have hpos := p.size_pos
  unfold headBlock MinimBlock.headCount
  cases p.tenant with
  | none => simp
  | some c => simp [hpos.ne']

section Represented

variable {mm : Minim κ} {row : List (Plot κ)} {i : ℕ} {p : Plot κ}

theorem Represents.walk_span (row : List (Plot κ)) :
    ∀ rest, Represents mm (row ++ rest) → Walk mm (span row) := by
  induction row using List.reverseRecOn with
  | nil => exact fun _ _ => Walk.start
  | append_singleton row p ih =>
      intro rest h
      rw [List.append_assoc, List.singleton_append] at h
      have hhead : mm.block (span row) = headBlock p :=
        h.block_head (plotAt_middle row p rest)
      have hlt : span row < mm.numBlocks := by
        have hpos := p.size_pos
        rw [h.numBlocks_eq, span_append, span_cons]
        omega
      have hnext := Walk.next (ih (p :: rest) h) hlt
      rw [hhead, headCount_headBlock] at hnext
      simpa using hnext

/-- The walk meets the starts of the plots, and the end. -/
theorem Represents.walk_iff (h : Represents mm row) :
    Walk mm i ↔ i = span row ∨ ∃ p, PlotAt row i p := by
  constructor
  · intro hwalk
    induction hwalk with
    | start =>
        cases row with
        | nil => exact Or.inl rfl
        | cons p row => exact Or.inr ⟨p, PlotAt.here p row⟩
    | next _ hlt ih =>
        rw [h.numBlocks_eq] at hlt
        rcases ih with rfl | ⟨p, hp⟩
        · exact absurd hlt (lt_irrefl _)
        · rw [h.block_head hp, headCount_headBlock]
          exact hp.next
  · rintro (rfl | ⟨p, hp⟩)
    · exact Represents.walk_span row [] (by simpa using h)
    · obtain ⟨before, after, rfl, rfl⟩ := hp.split
      exact Represents.walk_span before (p :: after) h

theorem Represents.isHead_iff (h : Represents mm row) :
    IsHead mm i ↔ ∃ p, PlotAt row i p := by
  rw [IsHead, h.walk_iff, h.numBlocks_eq]
  constructor
  · rintro ⟨rfl | hp, hlt⟩
    · exact absurd hlt (lt_irrefl _)
    · exact hp
  · rintro ⟨p, hp⟩
    have hle := hp.le_span
    have hpos := p.size_pos
    exact ⟨Or.inr ⟨p, hp⟩, by omega⟩

/-- The heap of a row of superblocks is well formed. -/
theorem Represents.wellFormed (h : Represents mm row) : WellFormed mm where
  length_blocks := by rw [h.blocks_eq, length_blocksOf, h.numBlocks_eq]
  walk_le := by
    intro i hi
    rw [h.numBlocks_eq]
    rcases h.walk_iff.mp hi with rfl | ⟨p, hp⟩
    · exact le_refl _
    · have hle := hp.le_span
      omega
  walk_end := h.walk_iff.mpr (Or.inl h.numBlocks_eq)
  one_count := by
    intro i hi
    obtain ⟨p, hp⟩ := h.isHead_iff.mp hi
    rw [h.block_head hp]
    cases hc : p.tenant with
    | none =>
        rw [allocCount_headBlock hc, freeCount_headBlock hc]
        exact Or.inr ⟨rfl, p.size_pos⟩
    | some c =>
        rw [allocCount_headBlock_of_held hc, freeCount_headBlock_of_held hc]
        exact Or.inl ⟨p.size_pos, rfl⟩
  interior := by
    intro i hi j hij hj
    obtain ⟨p, hp⟩ := h.isHead_iff.mp hi
    rw [h.block_head hp, headCount_headBlock] at hj
    rw [h.block_interior hp hij hj]
    exact ⟨rfl, rfl⟩
  owner_iff := by
    intro i
    constructor
    · intro howner
      obtain ⟨c, hc⟩ := Option.ne_none_iff_exists'.mp howner
      obtain ⟨p, hp, htenant⟩ := h.plotAt_of_owner hc
      refine ⟨h.isHead_iff.mpr ⟨p, hp⟩, ?_⟩
      rw [h.block_head hp, allocCount_headBlock_of_held htenant]
      exact p.size_pos
    · rintro ⟨-, halloc⟩
      obtain ⟨p, hp, c, hc⟩ := h.plotAt_of_allocCount halloc
      rw [h.block_head hp]
      simp [headBlock, hc]
  apart := by
    intro i hi hnext
    obtain ⟨p, hp⟩ := h.isHead_iff.mp hi
    rw [h.block_head hp, headCount_headBlock] at hnext ⊢
    obtain ⟨q, hq⟩ := h.isHead_iff.mp hnext
    rw [h.block_head hq]
    cases hpc : p.tenant with
    | some c => exact Or.inl (freeCount_headBlock_of_held hpc)
    | none =>
        obtain ⟨c, hc⟩ := Option.ne_none_iff_exists'.mp
          (h.coalesced.apart hp hq hpc)
        exact Or.inr (freeCount_headBlock_of_held hc)

end Represented

/-! ## Runs of allocator calls -/

/-- A call of the allocator. -/
inductive HeapCall (κ : Type*) where
  | alloc (cl : κ) (numBytes : ℕ)
  | free (cl : κ) (mem : DspMemRegion)
  | freeByClient (cl : κ)

variable [DecidableEq κ]

/-- The call comes back and leaves heap `mm'`. -/
def HeapStep (mm : Minim κ) : HeapCall κ → Minim κ → Prop
  | .alloc cl numBytes, mm' => ∃ uninit region,
      minimAlloc uninit mm cl numBytes = some (region, mm')
  | .free cl mem, mm' => (minimFree mm cl mem).2 = mm'
  | .freeByClient cl, mm' => FreeByClientReturns mm cl mm'

/-- A heap, from `minim_init` on. -/
def heapMachine (κ : Type*) [DecidableEq κ]
    (numBlocks blockSizeShift physAddrBase : ℕ) :
    Machine (Minim κ) (HeapCall κ) where
  init mm := mm = minimInit numBlocks blockSizeShift physAddrBase
  step := HeapStep

section Step

variable {mm mm' : Minim κ} {row : List (Plot κ)} {cl : κ}

/-- `mm'` is `mm` with the superblocks of another row. -/
def Rebuilt (mm mm' : Minim κ) : Prop :=
  ∃ row', Represents mm' row' ∧ mm' = { mm with blocks := blocksOf row' }

omit [DecidableEq κ] in
theorem Represents.rebuilt_self (h : Represents mm row) : Rebuilt mm mm :=
  ⟨row, h, by rw [← h.blocks_eq]⟩

omit [DecidableEq κ] in
theorem minimAlloc_rebuilt (h : Represents mm row)
    {uninit region : DspMemRegion} {numBytes : ℕ}
    (halloc : minimAlloc uninit mm cl numBytes = some (region, mm')) :
    Rebuilt mm mm' := by
  rcases minimAlloc_inversion h halloc with
    rfl | ⟨before, after, n, hn, hk, rfl, hkn, -, rfl⟩
  · exact h.rebuilt_self
  · exact ⟨_, h.lease hk hkn cl, rfl⟩

theorem locMinimFreeByIdx_rebuilt (h : Represents mm row) (cl : κ)
    (fr : ℕ) : Rebuilt mm (locMinimFreeByIdx mm cl fr).2 := by
  rcases locMinimFreeByIdx_cases h cl fr with
    ⟨-, heq⟩ | ⟨_, _, _, _, _, heq⟩ | ⟨before, after, n, hn, rfl, rfl, heq⟩
  · rw [heq]
    exact h.rebuilt_self
  · rw [heq]
    exact h.rebuilt_self
  · rw [heq]
    exact ⟨_, h.vacate, rfl⟩

theorem minimFree_rebuilt (h : Represents mm row) (mem : DspMemRegion) :
    Rebuilt mm (minimFree mm cl mem).2 := by
  unfold minimFree
  simp only
  split
  next => exact locMinimFreeByIdx_rebuilt h cl _
  next => exact h.rebuilt_self

/-- Every turn of the loop that changes the heap is one free. -/
theorem freeByClientFrom_rebuilt {fuel fr : ℕ} (h : Represents mm row)
    (hfree : freeByClientFrom cl fuel mm fr = some mm') : Rebuilt mm mm' := by
  induction fuel generalizing mm row fr with
  | zero => simp [freeByClientFrom] at hfree
  | succ fuel ih =>
      simp only [freeByClientFrom] at hfree
      split at hfree
      next =>
        split at hfree
        next =>
          split at hfree
          next =>
            obtain ⟨row', h', heq⟩ := locMinimFreeByIdx_rebuilt h cl fr
            obtain ⟨row'', h'', heq'⟩ := ih h' hfree
            exact ⟨row'', h'', by rw [heq', heq]⟩
          next => exact ih h hfree
        next => exact ih h hfree
      next =>
        obtain rfl : mm = mm' := Option.some.inj hfree
        exact h.rebuilt_self

/-- A call of the allocator keeps the heap a row of superblocks. -/
theorem HeapStep.rebuilt {call : HeapCall κ} (h : Represents mm row)
    (hstep : HeapStep mm call mm') : Rebuilt mm mm' := by
  cases call with
  | alloc cl numBytes =>
      obtain ⟨uninit, region, halloc⟩ := hstep
      exact minimAlloc_rebuilt h halloc
  | free cl mem =>
      rw [← show (minimFree mm cl mem).2 = mm' from hstep]
      exact minimFree_rebuilt h mem
  | freeByClient cl =>
      obtain ⟨fuel, hfree⟩ := hstep
      exact freeByClientFrom_rebuilt h hfree

end Step

section Run

variable {numBlocks blockSizeShift physAddrBase : ℕ} {mm : Minim κ}

theorem represents_of_reachable (hpos : 0 < numBlocks)
    (h : (heapMachine κ numBlocks blockSizeShift physAddrBase).Reachable mm) :
    ∃ row, Represents mm row := by
  refine h.invariant (P := fun mm => ∃ row, Represents mm row) ?_ ?_
  · rintro _ rfl
    exact ⟨_, minimInit_represents hpos blockSizeShift physAddrBase⟩
  · rintro mm call mm' ⟨row, hrow⟩ hstep
    obtain ⟨row', hrow', -⟩ := HeapStep.rebuilt hrow hstep
    exact ⟨row', hrow'⟩

/-- Every reachable heap is well formed. -/
theorem wellFormed_of_reachable (hpos : 0 < numBlocks)
    (h : (heapMachine κ numBlocks blockSizeShift physAddrBase).Reachable mm) :
    WellFormed mm := by
  obtain ⟨row, hrow⟩ := represents_of_reachable hpos h
  exact hrow.wellFormed

/-- Three blocks of four are allocated; the second one is freed, and then the
third one is freed and joined with the free blocks on both sides. -/
theorem wellFormed_of_reachable_join_both :
    WellFormed (κ := ℕ) ⟨4, 64, 6,
      [⟨1, 0, some 1⟩, ⟨0, 3, none⟩, MinimBlock.blank, MinimBlock.blank],
      4096⟩ := by
  have hrun : (heapMachine ℕ 4 6 4096).Reachable ⟨4, 64, 6,
      [⟨1, 0, some 1⟩, ⟨1, 0, some 2⟩, ⟨1, 0, some 1⟩, ⟨0, 1, none⟩],
      4096⟩ := by
    refine .step (.step (.step (.init rfl)
      (t := ⟨4, 64, 6, [⟨1, 0, some 1⟩, ⟨0, 3, none⟩, MinimBlock.blank,
        MinimBlock.blank], 4096⟩) (e := .alloc 1 64) ?_)
      (t := ⟨4, 64, 6, [⟨1, 0, some 1⟩, ⟨1, 0, some 2⟩, ⟨0, 2, none⟩,
        MinimBlock.blank], 4096⟩) (e := .alloc 2 40) ?_)
      (e := .alloc 1 1) ?_
    all_goals exact ⟨DspMemRegion.zero, _, rfl⟩
  refine wellFormed_of_reachable (by decide) (.step (.step hrun
    (t := ⟨4, 64, 6, [⟨1, 0, some 1⟩, ⟨0, 1, none⟩, ⟨1, 0, some 1⟩,
      ⟨0, 1, none⟩], 4096⟩) (e := .free 2 ⟨4160, 0, 64⟩) ?_)
    (e := .free 1 ⟨4224, 0, 64⟩) ?_)
  all_goals rfl

end Run

end C64Tools.Kmod
