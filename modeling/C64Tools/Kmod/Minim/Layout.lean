import C64Tools.Kmod.Minim.Model
import C64Tools.Library.Tiling
import Mathlib.Data.List.GetD
import Mathlib.Data.List.Flatten

/-!
# Heaps as rows of superblocks

A heap represents a coalesced row of plots: the superblocks in address order,
each with the client it belongs to.  The search of `minim_alloc` finds the
best fit of the row, taking blocks is a letting, and freeing a superblock is
the leaving of a tenant.
-/

namespace C64Tools.Kmod

open Tiling

variable {κ : Type*}

/-! ## The block array of a row -/

/-- First block of a superblock. -/
def headBlock (p : Plot κ) : MinimBlock κ :=
  match p.tenant with
  | none => ⟨0, p.size, none⟩
  | some c => ⟨p.size, 0, some c⟩

/-- Blocks of a superblock. -/
def superblock (p : Plot κ) : List (MinimBlock κ) :=
  headBlock p :: List.replicate (p.size - 1) MinimBlock.blank

/-- Blocks of a row of superblocks. -/
def blocksOf (row : List (Plot κ)) : List (MinimBlock κ) :=
  row.flatMap superblock

@[simp] theorem blocksOf_nil : blocksOf ([] : List (Plot κ)) = [] := rfl

@[simp] theorem blocksOf_cons (p : Plot κ) (row : List (Plot κ)) :
    blocksOf (p :: row) = superblock p ++ blocksOf row := rfl

@[simp] theorem blocksOf_append (row rest : List (Plot κ)) :
    blocksOf (row ++ rest) = blocksOf row ++ blocksOf rest :=
  List.flatMap_append

@[simp] theorem length_superblock (p : Plot κ) :
    (superblock p).length = p.size := by
  have hpos := p.size_pos
  simp [superblock]
  omega

@[simp] theorem length_blocksOf (row : List (Plot κ)) :
    (blocksOf row).length = span row := by
  induction row with
  | nil => rfl
  | cons p row ih => simp [ih]

/-- The heap consists of the superblocks of `row`. -/
structure Represents (mm : Minim κ) (row : List (Plot κ)) : Prop where
  blocks_eq : mm.blocks = blocksOf row
  numBlocks_eq : mm.numBlocks = span row
  coalesced : Coalesced row

/-! ## Reading and writing single blocks -/

theorem block_at {mm : Minim κ} {front back : List (MinimBlock κ)}
    {b : MinimBlock κ} {i : ℕ} (h : mm.blocks = front ++ b :: back)
    (hi : i = front.length) : mm.block i = b := by
  subst hi
  simp [Minim.block, h]

theorem modify_append_cons {α : Type*} (front : List α) (x : α)
    (back : List α) (f : α → α) :
    (front ++ x :: back).modify front.length f = front ++ f x :: back := by
  induction front with
  | nil => simp
  | cons y front ih => simp [ih]

theorem update_at {mm : Minim κ} {front back : List (MinimBlock κ)}
    {b : MinimBlock κ} {i : ℕ} {f : MinimBlock κ → MinimBlock κ}
    (h : mm.blocks = front ++ b :: back) (hi : i = front.length) :
    mm.update i f = { mm with blocks := front ++ f b :: back } := by
  subst hi
  simp [Minim.update, h, modify_append_cons]

theorem update_blocks (mm : Minim κ) (front back : List (MinimBlock κ))
    (b : MinimBlock κ) (i : ℕ) (f : MinimBlock κ → MinimBlock κ)
    (hi : i = front.length) :
    ({ mm with blocks := front ++ b :: back } : Minim κ).update i f =
      { mm with blocks := front ++ f b :: back } :=
  update_at rfl hi

/-- An update that changes nothing leaves the heap as it is. -/
theorem update_eq_self {mm : Minim κ} {i : ℕ}
    {f : MinimBlock κ → MinimBlock κ} (h : f (mm.block i) = mm.block i) :
    mm.update i f = mm := by
  have hblocks : mm.blocks.modify i f = mm.blocks := by
    apply List.ext_getElem?
    intro j
    rw [List.getElem?_modify]
    by_cases hij : i = j
    · subst hij
      cases hget : mm.blocks[i]? with
      | none => simp
      | some b =>
          have hb : mm.block i = b := by simp [Minim.block, hget]
          rw [hb] at h
          simp [h]
    · cases mm.blocks[j]? <;> simp [hij]
  simp [Minim.update, hblocks]

theorem headBlock_counts (p : Plot κ) :
    (headBlock p).freeCount > 0 ∨ (headBlock p).allocCount > 0 := by
  have hpos := p.size_pos
  unfold headBlock
  split
  · exact Or.inl hpos
  · exact Or.inr hpos

@[simp] theorem owner_headBlock (p : Plot κ) : (headBlock p).owner = p.tenant := by
  unfold headBlock
  cases p.tenant <;> rfl

theorem freeCount_headBlock {p : Plot κ} (h : p.tenant = none) :
    (headBlock p).freeCount = p.size := by
  simp [headBlock, h]

theorem freeCount_headBlock_of_held {p : Plot κ} {c : κ}
    (h : p.tenant = some c) : (headBlock p).freeCount = 0 := by
  simp [headBlock, h]

theorem allocCount_headBlock {p : Plot κ} (h : p.tenant = none) :
    (headBlock p).allocCount = 0 := by
  simp [headBlock, h]

theorem allocCount_headBlock_of_held {p : Plot κ} {c : κ}
    (h : p.tenant = some c) : (headBlock p).allocCount = p.size := by
  simp [headBlock, h]

section Represented

variable {mm : Minim κ} {row : List (Plot κ)} {i : ℕ} {p : Plot κ}

theorem Represents.split (h : Represents mm row) (hp : PlotAt row i p) :
    ∃ before after, row = before ++ p :: after ∧ i = span before ∧
      mm.blocks = blocksOf before ++ (superblock p ++ blocksOf after) := by
  obtain ⟨before, after, rfl, rfl⟩ := hp.split
  exact ⟨before, after, rfl, rfl, by simp [h.blocks_eq]⟩

/-- The first block of a superblock. -/
theorem Represents.block_head (h : Represents mm row)
    (hp : PlotAt row i p) : mm.block i = headBlock p := by
  obtain ⟨before, after, rfl, rfl, hblocks⟩ := h.split hp
  exact block_at hblocks (by simp)

/-- The other blocks of a superblock. -/
theorem Represents.block_interior (h : Represents mm row)
    (hp : PlotAt row i p) {j : ℕ} (hij : i < j) (hj : j < i + p.size) :
    mm.block j = MinimBlock.blank := by
  obtain ⟨before, after, rfl, rfl, hblocks⟩ := h.split hp
  obtain ⟨k, rfl⟩ : ∃ k, j = span before + (k + 1) :=
    ⟨j - span before - 1, by omega⟩
  have hk : k < p.size - 1 := by omega
  have hlt : span before ≤ span before + (k + 1) := by omega
  simp only [Minim.block, hblocks]
  rw [List.getD_append_right _ _ _ _ (by simp), length_blocksOf,
    Nat.add_sub_cancel_left,
    List.getD_append _ _ _ _ (by rw [length_superblock]; omega)]
  simp [superblock, hk]

theorem Represents.block_outside (h : Represents mm row)
    (hi : span row ≤ i) : mm.block i = MinimBlock.blank := by
  rw [Minim.block, h.blocks_eq]
  exact List.getD_eq_default _ _ (by simpa using hi)

/-- A block is blank, or it is the first block of a superblock. -/
theorem Represents.block_cases (h : Represents mm row) (i : ℕ) :
    mm.block i = MinimBlock.blank ∨
      ∃ p, PlotAt row i p ∧ mm.block i = headBlock p := by
  rcases Nat.lt_or_ge i (span row) with hi | hi
  · obtain ⟨off, q, hq, hle, hlt⟩ := exists_plotAt_cover hi
    rcases Nat.eq_or_lt_of_le hle with rfl | hgt
    · exact Or.inr ⟨q, hq, h.block_head hq⟩
    · exact Or.inl (h.block_interior hq hgt hlt)
  · exact Or.inl (h.block_outside hi)

/-- A block with an owner is the first block of a superblock of that
client. -/
theorem Represents.plotAt_of_owner (h : Represents mm row) {c : κ}
    (hc : (mm.block i).owner = some c) :
    ∃ p, PlotAt row i p ∧ p.tenant = some c := by
  rcases h.block_cases i with hblank | ⟨p, hp, hhead⟩
  · rw [hblank] at hc
    simp [MinimBlock.blank] at hc
  · refine ⟨p, hp, ?_⟩
    rw [hhead, headBlock] at hc
    split at hc
    next => simp at hc
    next d hd => exact hd.trans hc

/-- A block with an allocation count is the first block of an allocated
superblock. -/
theorem Represents.plotAt_of_allocCount (h : Represents mm row)
    (hi : (mm.block i).allocCount > 0) :
    ∃ p, PlotAt row i p ∧ ∃ c, p.tenant = some c := by
  rcases h.block_cases i with hblank | ⟨p, hp, hhead⟩
  · rw [hblank] at hi
    simp [MinimBlock.blank] at hi
  · refine ⟨p, hp, ?_⟩
    rw [hhead, headBlock] at hi
    split at hi
    next => simp at hi
    next d hd => exact ⟨d, hd⟩

/-- The owner of a superblock, read off its first block. -/
theorem Represents.block_eq_iff_holds (h : Represents mm row) {n : ℕ} {d : κ} :
    (0 < n ∧ mm.block i = ⟨n, 0, some d⟩) ↔ Holds row d i n := by
  constructor
  · rintro ⟨hn, hblock⟩
    have howner : (mm.block i).owner = some d := by rw [hblock]
    obtain ⟨p, hp, hd⟩ := h.plotAt_of_owner howner
    refine ⟨p, hp, hd, ?_⟩
    have hhead := h.block_head hp
    rw [hblock] at hhead
    have hcount := congrArg MinimBlock.allocCount hhead
    rw [allocCount_headBlock_of_held hd] at hcount
    exact hcount.symm
  · rintro ⟨p, hp, hd, rfl⟩
    refine ⟨p.size_pos, ?_⟩
    rw [h.block_head hp]
    simp [headBlock, hd]

theorem Represents.exists_holds (h : Represents mm row) {d : κ}
    (howner : (mm.block i).owner = some d) : ∃ n, Holds row d i n := by
  obtain ⟨p, hp, hd⟩ := h.plotAt_of_owner howner
  exact ⟨p.size, p, hp, hd, rfl⟩

end Represented

end C64Tools.Kmod
