import C64Tools.Kmod.Dev.Memory
import C64Tools.Library.Transition
import C64Tools.Library.Translation

/-!
# The region tables of a process

The tables in which the library keeps what it has mapped: the two SRAM areas,
one entry for each type of shared memory, and the physical addresses of the
huge pages.  Shared memory is allocated and freed by type; addresses are
translated by searching the tables.

The answers of the kernel are arguments.  Beside the tables runs a record of
what the calls have handed out and not been given back, which the tables are
compared with.
-/

namespace C64Tools.Shm

open C64Tools.Kmod Transition Translation

/-- `DSP_L2SRAM_FSHM_BASE_OFF`. -/
def dspL2sramFshmBaseOff : ℕ := 0

/-- `DSP_L2SRAM_FSHM_SIZE`. -/
def dspL2sramFshmSize : ℕ := iva2L2sramSize - dspL2sramFshmBaseOff

/-- `DSP_L2SRAM_FSHM_BASE_GPP`. -/
def dspL2sramFshmBaseGpp : ℕ := iva2L2sramBaseGpp + dspL2sramFshmBaseOff

/-- `DSP_PAGESHIFT`. -/
def dspPageshift : ℕ := 12

/-- `DSP_HUGETLB_PAGESHIFT`. -/
def dspHugetlbPageshift : ℕ := 21

/-- `DSP_HUGETLB_PAGESIZE`. -/
def dspHugetlbPagesize : ℕ := 1 <<< dspHugetlbPageshift

/-- `DSP_HUGETLB_MAXPAGES`. -/
def dspHugetlbMaxpages : ℕ := 128

/-- `(sU32)MAP_FAILED`. -/
def mapFailed : ℕ := 0xffffffff

/-! ## The tables -/

/-- `c64_dev_ioctl_shm_alloc_t` as it is kept in `shared_mem_t`. -/
structure ShmEntry where
  type : DspCache
  mem : DspMemRegion
  deriving DecidableEq, Repr

/-- An entry filled with zeros. -/
def ShmEntry.zero : ShmEntry := ⟨.none, DspMemRegion.zero⟩

/-- The tables of `dsp.c`.  The cells of `hugetlbPagePhysAddr` from
`dspHugetlbMaxpages` on are the memory behind the array. -/
structure Regions where
  l1sramFshm : DspMemRegion
  l2sramFshm : DspMemRegion
  sharedMem : DspCache → ShmEntry
  hugetlbPagePhysAddr : ℕ → ℕ

/-- The tables after `dsp_open`, which has mapped the two SRAM areas. -/
def Regions.opened (l1Virt l2Virt : ℕ) : Regions where
  l1sramFshm := ⟨dspL1sramFshmBaseGpp, l1Virt, dspL1sramFshmSize⟩
  l2sramFshm := ⟨dspL2sramFshmBaseGpp, l2Virt, dspL2sramFshmSize⟩
  sharedMem := fun _ => ShmEntry.zero
  hugetlbPagePhysAddr := fun _ => 0

def Regions.setEntry (r : Regions) (t : DspCache) (e : ShmEntry) : Regions :=
  { r with sharedMem := Function.update r.sharedMem t e }

def Regions.setPages (r : Regions) (cells : ℕ → ℕ) : Regions :=
  { r with hugetlbPagePhysAddr := cells }

/-! ## Allocation -/

/-- What the kernel answers to an allocation: the address of `mmap`, the
physical address of `SHM_ALLOC`, and those of `HUGETLB_V2P`. -/
structure ShmAnswers where
  mmap : Option ℕ
  shmAlloc : Option ℕ
  hugetlbV2p : ℕ → Option ℕ

/-- The value of the call to `mmap`. -/
def ShmAnswers.mmapped (o : ShmAnswers) : ℕ :=
  match o.mmap with
  | some virt => u32 virt
  | none => mapFailed

/-- The answer for a page of the area that starts at `virt`. -/
def ShmAnswers.pageAt (o : ShmAnswers) (virt pageNr : ℕ) : Option ℕ :=
  (o.hugetlbV2p (u32 (virt + pageNr <<< dspHugetlbPageshift))).map u32

/-- The shift of the page size of a type. -/
def shmPageshift : DspCache → ℕ
  | .hugetlb => dspHugetlbPageshift
  | _ => dspPageshift

/-- The size in whole pages. -/
def shmRound (t : DspCache) (numBytes : ℕ) : ℕ :=
  u32 ((u32 (numBytes + (1 <<< shmPageshift t - 1)) >>> shmPageshift t) <<<
    shmPageshift t)

/-- The loop over the huge pages, from page `pageNr` on with `left` pages to
go; it stops at the first page without an answer. -/
def storePages (pageAt : ℕ → Option ℕ) :
    ℕ → ℕ → (ℕ → ℕ) → Bool × (ℕ → ℕ)
  | 0, _, cells => (true, cells)
  | left + 1, pageNr, cells =>
      match pageAt pageNr with
      | some addr =>
          storePages pageAt left (pageNr + 1)
            (Function.update cells pageNr addr)
      | none => (false, cells)

/-- `dsp_shm_alloc_at`; a `type` that is no `dsp_cache_t` is `none`.  The
address asked for is a hint that only `mmap` reads. -/
def dspShmAllocAt (o : ShmAnswers) (type : Option DspCache) (numBytes : ℕ)
    (r : Regions) : DspMemRegion × Regions :=
  match type with
  | none => (DspMemRegion.zero, r)
  | some t =>
      if (r.sharedMem t).mem.physAddr = 0 then
        let size := shmRound t numBytes
        let virt :=
          if t = .hugetlb then o.mmapped else (r.sharedMem t).mem.virtAddr
        let asked := r.setEntry t ⟨t, 0, virt, size⟩
        if t = .hugetlb ∧ virt = mapFailed then (DspMemRegion.zero, asked)
        else
          match o.shmAlloc with
          | none => (DspMemRegion.zero, asked)
          | some phys =>
              -- shared memory is mapped now, huge pages have been before
              let mem : DspMemRegion := ⟨u32 phys, o.mmapped, size⟩
              let granted := r.setEntry t ⟨t, mem⟩
              if mem.virtAddr ≠ mapFailed then
                if t = .hugetlb then
                  let numPages :=
                    u32 (size + (dspHugetlbPagesize - 1)) >>>
                      dspHugetlbPageshift
                  match storePages (o.pageAt mem.virtAddr) numPages 0
                      r.hugetlbPagePhysAddr with
                  | (true, cells) => (mem, granted.setPages cells)
                  | (false, cells) =>
                      (DspMemRegion.zero, granted.setPages cells)
                else (mem, granted)
              else (DspMemRegion.zero, granted)
      else (DspMemRegion.zero, r)

/-! ## Freeing -/

/-- `loc_get_cache_type_by_mem`: the type noted in the first entry with the
same physical address. -/
def locGetCacheTypeByMem (mem : DspMemRegion) (r : Regions) :
    Option DspCache :=
  (DspCache.all.find? fun t =>
    decide (mem.physAddr = (r.sharedMem t).mem.physAddr)).map fun t =>
      (r.sharedMem t).type

/-- `dsp_shm_free`; `ret` is what `SHM_FREE` returns. -/
def dspShmFree (ret : ℤ) (mem : DspMemRegion) (r : Regions) : ℤ × Regions :=
  match locGetCacheTypeByMem mem r with
  | some t => (ret, r.setEntry t ShmEntry.zero)
  | none => (10, r)

/-! ## Address translation -/

/-- The bounds test of both directions. -/
def InBounds (addr base size : ℕ) : Prop :=
  base ≤ addr ∧ addr < u32 (base + size)

instance (addr base size : ℕ) : Decidable (InBounds addr base size) := by
  unfold InBounds
  infer_instance

/-- The same offset from another base. -/
def rebase (addr base target : ℕ) : ℕ :=
  u32 (u32Sub addr base + target)

/-- The branch of `dsp_virt_to_phys` for an entry that holds the address. -/
def Regions.entryToPhys (r : Regions) (t : DspCache) (virt : ℕ) : ℕ :=
  let mem := (r.sharedMem t).mem
  if t = .hugetlb then
    let memOff := u32Sub virt mem.virtAddr
    let pageNr := memOff >>> dspHugetlbPageshift
    let pageOff := u32Sub memOff (u32 (pageNr <<< dspHugetlbPageshift))
    u32 (r.hugetlbPagePhysAddr pageNr + pageOff)
  else rebase virt mem.virtAddr mem.physAddr

/-- `dsp_virt_to_phys`. -/
def dspVirtToPhys (r : Regions) (virt : ℕ) : ℕ :=
  if InBounds virt r.l1sramFshm.virtAddr r.l1sramFshm.size then
    rebase virt r.l1sramFshm.virtAddr r.l1sramFshm.physAddr
  else if InBounds virt r.l2sramFshm.virtAddr r.l2sramFshm.size then
    rebase virt r.l2sramFshm.virtAddr r.l2sramFshm.physAddr
  else
    match DspCache.all.find? fun t =>
        decide (InBounds virt (r.sharedMem t).mem.virtAddr
          (r.sharedMem t).mem.size) with
    | some t => r.entryToPhys t virt
    | none => 0

/-- The loop of `dsp_phys_to_virt` over the huge pages. -/
def Regions.pageToVirt (r : Regions) (phys : ℕ) : ℕ :=
  match (List.range dspHugetlbMaxpages).find? fun i =>
      decide (InBounds phys (r.hugetlbPagePhysAddr i) dspHugetlbPagesize) with
  | some i =>
      u32 ((r.sharedMem .hugetlb).mem.virtAddr + i <<< dspHugetlbPageshift +
        u32Sub phys (r.hugetlbPagePhysAddr i))
  | none => 0

/-- The loop of `dsp_phys_to_virt` over the other entries. -/
def Regions.entryToVirt (r : Regions) (phys : ℕ) : ℕ :=
  match DspCache.contig.find? fun t =>
      decide (InBounds phys (r.sharedMem t).mem.physAddr
        (r.sharedMem t).mem.size) with
  | some t =>
      rebase phys (r.sharedMem t).mem.physAddr (r.sharedMem t).mem.virtAddr
  | none => 0

/-- `dsp_phys_to_virt`. -/
def dspPhysToVirt (r : Regions) (phys : ℕ) : ℕ :=
  if InBounds phys r.l1sramFshm.physAddr r.l1sramFshm.size then
    rebase phys r.l1sramFshm.physAddr r.l1sramFshm.virtAddr
  else if InBounds phys r.l2sramFshm.physAddr r.l2sramFshm.size then
    rebase phys r.l2sramFshm.physAddr r.l2sramFshm.virtAddr
  else if r.entryToVirt phys = 0 then
    if (r.sharedMem .hugetlb).mem.physAddr ≠ 0 then r.pageToVirt phys
    else r.entryToVirt phys
  else r.entryToVirt phys

end C64Tools.Shm
