import C64Tools.Core.Types

/-!
# The SRAM allocator

The block allocator of `kmod/minim.c`.  A heap is an array of blocks.  The
first block of a superblock carries its length in `alloc_count` or in
`free_count`; all its other blocks have both counts zero.

Block pointers are block indices.  Counts and indices never exceed the number
of blocks, so they are plain numbers; byte counts and addresses are 32-bit.
Clients are an arbitrary type and `none` is the `NULL` owner.
-/

namespace C64Tools.Kmod

variable {κ : Type*}

/-- `minim_block_t`. -/
structure MinimBlock (κ : Type*) where
  allocCount : ℕ
  freeCount : ℕ
  owner : Option κ
  deriving DecidableEq, Repr

/-- A block as `memset` leaves it. -/
def MinimBlock.blank : MinimBlock κ := ⟨0, 0, none⟩

/-- `minim_t`. -/
structure Minim (κ : Type*) where
  numBlocks : ℕ
  blockSize : ℕ
  blockSizeShift : ℕ
  blocks : List (MinimBlock κ)
  physAddrBase : ℕ
  deriving DecidableEq, Repr

namespace Minim

/-- Read a block. -/
def block (mm : Minim κ) (i : ℕ) : MinimBlock κ :=
  mm.blocks.getD i MinimBlock.blank

/-- Update a block in place. -/
def update (mm : Minim κ) (i : ℕ) (f : MinimBlock κ → MinimBlock κ) :
    Minim κ :=
  { mm with blocks := mm.blocks.modify i f }

end Minim

/-! ## `minim_init` -/

def minimInit (numBlocks blockSizeShift physAddrBase : ℕ) : Minim κ :=
  let blocks := List.replicate numBlocks MinimBlock.blank
  { numBlocks
    blockSize := 1 <<< blockSizeShift
    blockSizeShift
    blocks := blocks.modify 0 fun b => { b with freeCount := numBlocks }
    physAddrBase }

/-! ## `minim_alloc` -/

/-- The search for the best match, from block `fr` on.  The fuel bounds the
number of iterations; `none` means that the loop is still running. -/
def findBestMatch (mm : Minim κ) (numBlocks : ℕ) :
    ℕ → ℕ → Option ℕ → Option (Option ℕ)
  | 0, _, _ => none
  | fuel + 1, fr, best =>
      if fr < mm.numBlocks then
        let b := mm.block fr
        if b.freeCount > 0 then
          let best :=
            if b.freeCount ≥ numBlocks then
              match best with
              | some frBest =>
                  if b.freeCount < (mm.block frBest).freeCount then some fr
                  else some frBest
              | none => some fr
            else best
          findBestMatch mm numBlocks fuel (fr + b.freeCount) best
        else
          findBestMatch mm numBlocks fuel (fr + b.allocCount) best
      else some best

/-- `for(i=1; i<numBlocks; i++) fr[i].free_count = 0;` -/
def clearFreeCounts (mm : Minim κ) (fr numBlocks : ℕ) : Minim κ :=
  (List.range' 1 (numBlocks - 1)).foldl
    (fun mm i => mm.update (fr + i) fun b => { b with freeCount := 0 }) mm

/-- Turn the front of the free superblock `fr` into an allocated one. -/
def takeBlocks (mm : Minim κ) (cl : κ) (fr numBlocks : ℕ) : Minim κ :=
  let mm := mm.update fr fun b => { b with allocCount := numBlocks }
  let mm := clearFreeCounts mm fr numBlocks
  let b := mm.block fr
  let mm :=
    if b.allocCount < b.freeCount then
      mm.update (fr + b.allocCount) fun r =>
        { r with freeCount := b.freeCount - b.allocCount }
    else mm
  mm.update fr fun b => { b with freeCount := 0, owner := some cl }

/-- Returns the region and the heap, or `none` if the search for a free
superblock does not end: an iteration that makes no headway repeats forever,
so more than `num_blocks` of them are enough to tell.  For a request of zero
blocks the region returned is the uninitialised local variable `ret`, whose
content is the argument `uninit`. -/
def minimAlloc (uninit : DspMemRegion) (mm : Minim κ) (cl : κ)
    (numBytes : ℕ) : Option (DspMemRegion × Minim κ) :=
  let numBlocks := u32 (numBytes + (mm.blockSize - 1)) >>> mm.blockSizeShift
  let numBytes := u32 (numBlocks <<< mm.blockSizeShift)
  if numBlocks > 0 then
    (findBestMatch mm numBlocks (mm.numBlocks + 1) 0 none).map fun
      | some fr =>
          (⟨u32 (mm.physAddrBase + u32 (fr <<< mm.blockSizeShift)), 0,
            numBytes⟩, takeBlocks mm cl fr numBlocks)
      | none => (DspMemRegion.zero, mm)
  else some (uninit, mm)

/-! ## `minim_free` -/

/-- The first block at or below `lfr` with a count that is not zero; `none`
if the loop leaves the array at its lower end. -/
def findLhs (mm : Minim κ) : ℕ → Option ℕ
  | 0 =>
      if (mm.block 0).freeCount > 0 ∨ (mm.block 0).allocCount > 0 then some 0
      else none
  | lfr + 1 =>
      if (mm.block (lfr + 1)).freeCount > 0 ∨
          (mm.block (lfr + 1)).allocCount > 0 then some (lfr + 1)
      else findLhs mm lfr

/-- Join the superblock `fr`, which has just become free, with a free right
hand side neighbour. -/
def joinRhs (mm : Minim κ) (fr : ℕ) : Minim κ :=
  let rfr := fr + (mm.block fr).allocCount
  if rfr < mm.numBlocks then
    if 0 = (mm.block rfr).allocCount then
      let count := (mm.block rfr).freeCount
      let mm := mm.update fr fun b =>
        { b with freeCount := b.freeCount + count }
      mm.update rfr fun b => { b with freeCount := 0 }
    else mm
  else mm

/-- Join the superblock `fr` with a free left hand side neighbour. -/
def joinLhs (mm : Minim κ) (fr : ℕ) : Minim κ :=
  if fr > 0 then
    match findLhs mm (fr - 1) with
    | some lfr =>
        if (mm.block lfr).freeCount > 0 then
          let count := (mm.block fr).freeCount
          let mm := mm.update lfr fun b =>
            { b with freeCount := b.freeCount + count }
          mm.update fr fun b => { b with freeCount := 0 }
        else mm
    | none => mm
  else mm

section Free

variable [DecidableEq κ]

def locMinimFreeByIdx (mm : Minim κ) (cl : κ) (blockIdx : ℕ) :
    Ret × Minim κ :=
  let fr := mm.block blockIdx
  if fr.allocCount > 0 then
    if fr.owner = some cl then
      let mm := mm.update blockIdx fun b =>
        { b with owner := none, freeCount := b.allocCount }
      let mm := joinRhs mm blockIdx
      let mm := joinLhs mm blockIdx
      (.ok (), mm.update blockIdx fun b => { b with allocCount := 0 })
    else (.error .EACCES, mm)
  else (.error .EFAULT, mm)

def minimFree (mm : Minim κ) (cl : κ) (mem : DspMemRegion) :
    Ret × Minim κ :=
  let blockIdx := u32Sub mem.physAddr mm.physAddrBase >>> mm.blockSizeShift
  if blockIdx < mm.numBlocks then locMinimFreeByIdx mm cl blockIdx
  else (.error .EFAULT, mm)

/-! ## `minim_free_by_client` -/

/-- The two nested loops, from block `fr` on.  Freeing a superblock leaves the
inner loop, and the outer one enters it again at the same `fr`.  `none` means
that the loops are still running. -/
def freeByClientFrom (cl : κ) : ℕ → Minim κ → ℕ → Option (Minim κ)
  | 0, _, _ => none
  | fuel + 1, mm, fr =>
      if fr < mm.numBlocks then
        let b := mm.block fr
        if b.allocCount > 0 then
          if b.owner = some cl then
            freeByClientFrom cl fuel (locMinimFreeByIdx mm cl fr).2 fr
          else freeByClientFrom cl fuel mm (fr + b.allocCount)
        else freeByClientFrom cl fuel mm (fr + b.freeCount)
      else some mm

def minimFreeByClient (fuel : ℕ) (mm : Minim κ) (cl : κ) :
    Option (Minim κ) :=
  freeByClientFrom cl fuel mm 0

/-- The call comes back, with heap `mm'`. -/
def FreeByClientReturns (mm : Minim κ) (cl : κ) (mm' : Minim κ) : Prop :=
  ∃ fuel, minimFreeByClient fuel mm cl = some mm'

end Free

end C64Tools.Kmod
