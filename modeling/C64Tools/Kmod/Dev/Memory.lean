import C64Tools.Kmod.Dev.Slots
import C64Tools.Kmod.Minim.Ownership

/-!
# The memory of the clients

The shared memory table of a client, the superblocks it holds in the two SRAM
heaps, and the mappings that `fops__mmap` records, beside the state of the
driver.  Everything here is found under the slot of the client, and
`fops__release` clears it before the slot can be opened again.

The kernel answers a request for shared memory with a pair of addresses.  It
is asked for the size rounded up to pages; the driver records the size that
the client asked for.
-/

namespace C64Tools.Kmod

open Transition

/-- `dsp_cache_t`. -/
inductive DspCache where
  | none
  | rw
  | r
  | w
  | hugetlb
  deriving DecidableEq, Repr

/-- The types below `NUM_CONTIG_DSP_CACHE_TYPES`. -/
def DspCache.contig : List DspCache := [.none, .rw, .r, .w]

/-- The types below `NUM_DSP_CACHE_TYPES`. -/
def DspCache.all : List DspCache := [.none, .rw, .r, .w, .hugetlb]

/-- `client_shm_t`, less the attributes for the allocator. -/
structure ClientShm where
  kvirtAddr : ℕ
  dsp : DspMemRegion
  deriving DecidableEq, Repr

/-- An entry of the shared memory table that is not in use. -/
def ClientShm.empty : ClientShm := ⟨0, DspMemRegion.zero⟩

/-- The memory tables of `dev_client_t`. -/
structure ClientMem where
  shm : DspCache → ClientShm
  l1sramFshm : DspMemRegion
  l2sramFshm : DspMemRegion
  logbuf : DspMemRegion

/-- The tables as `loc_init_clients` leaves them. -/
def ClientMem.initial : ClientMem where
  shm := fun _ => ClientShm.empty
  l1sramFshm := DspMemRegion.zero
  l2sramFshm := DspMemRegion.zero
  logbuf := DspMemRegion.zero

def ClientMem.setShm (c : ClientMem) (t : DspCache) (e : ClientShm) :
    ClientMem :=
  { c with shm := Function.update c.shm t e }

/-! ## Shared memory -/

/-- `c64_dev_ioctl_shm_alloc_t`; a `type` that is no `dsp_cache_t` is `none`. -/
structure ShmAllocReq where
  type : Option DspCache
  size : ℕ
  virtAddr : ℕ
  deriving DecidableEq, Repr

/-- What the kernel answers: the kernel address and the bus address of an
allocation, and the address that a page of the client is mapped to. -/
structure ShmOutcome where
  kVirtAddr : ℕ
  dmaAddr : ℕ
  hugetlbPhys : ℕ
  deriving DecidableEq, Repr

def locShmAlloc (o : ShmOutcome) (req : ShmAllocReq) (c : ClientMem) :
    Ret × ClientMem :=
  match req.type with
  | some .hugetlb =>
      if o.hugetlbPhys ≠ 0 then
        (.ok (), c.setShm .hugetlb ⟨0, ⟨o.hugetlbPhys, req.virtAddr, req.size⟩⟩)
      else (.error .EFAULT, c)
  | some t =>
      if (c.shm t).kvirtAddr = 0 then
        if o.kVirtAddr ≠ 0 then
          (.ok (), c.setShm t ⟨o.kVirtAddr, ⟨o.dmaAddr, 0, req.size⟩⟩)
        else (.error .ENOMEM, c)
      else (.error .ENOMEM, c)
  | none => (.error .EINVAL, c)

def locShmFree (type : Option DspCache) (c : ClientMem) : Ret × ClientMem :=
  match type with
  | some .hugetlb => (.ok (), c.setShm .hugetlb ClientShm.empty)
  | some t =>
      if (c.shm t).kvirtAddr ≠ 0 then (.ok (), c.setShm t ClientShm.empty)
      else (.ok (), c)
  | none => (.error .EINVAL, c)

/-- The `SHM_ALLOC` case. -/
def ioctlShmAlloc (o : ShmOutcome) (buf : UserBuf ShmAllocReq)
    (copyBack : Bool) (c : ClientMem) : Ret × ClientMem :=
  match buf with
  | .readable req =>
      match locShmAlloc o req c with
      | (.ok (), c) =>
          if copyBack then (.ok (), c)
          else (.error .EFAULT, (locShmFree req.type c).2)
      | (.error e, c) => (.error e, c)
  | .fault _ => (.error .EFAULT, c)

/-! ## Mapping to user space -/

/-- The area a process wants to have mapped; the kernel maps no empty area. -/
structure Vma where
  vmPgoff : ℕ
  vmStart : ℕ
  vmEnd : ℕ
  start_lt_end : vmStart < vmEnd

/-- Errors of `fops__mmap`. -/
inductive MmapErrno where
  | EBADF
  | EEXIST
  | EFAULT
  | EINVAL
  deriving DecidableEq, Repr

/-- The checks made for each kind of area: it is not mapped yet, it is large
enough, and the kernel maps it. -/
def mapArea (remapped : Bool) (vma : Vma) (area : DspMemRegion)
    (areaSize : ℕ) : Except MmapErrno Unit :=
  if area.virtAddr = 0 then
    if vma.vmEnd - vma.vmStart ≤ areaSize then
      if remapped then .ok () else .error .EFAULT
    else .error .EINVAL
  else .error .EEXIST

/-- `DSP_L1SRAM_FSHM_BASE_GPP`. -/
def dspL1sramFshmBaseGpp : ℕ :=
  iva2L1dsramBaseGpp + (iva2L1dsramSize - dspL1sramFshmSize)

/-- `fops__mmap` for a client with overlay sections `sections`. -/
def fopsMmap (remapped : Bool) (vma : Vma) (sections : Section → Option DspMemRegion)
    (c : ClientMem) : Except MmapErrno Unit × ClientMem :=
  let reqPhysAddr := u32 (vma.vmPgoff <<< 12)
  let mapped (area : DspMemRegion) : DspMemRegion :=
    { area with physAddr := reqPhysAddr, virtAddr := vma.vmStart }
  match DspCache.contig.find? fun t => reqPhysAddr = (c.shm t).dsp.physAddr with
  | some t =>
      match mapArea remapped vma (c.shm t).dsp (c.shm t).dsp.size with
      | .ok () => (.ok (), c.setShm t
          { c.shm t with dsp := { (c.shm t).dsp with virtAddr := vma.vmStart } })
      | .error e => (.error e, c)
  | none =>
      if reqPhysAddr = dspL1sramFshmBaseGpp then
        match mapArea remapped vma c.l1sramFshm dspL1sramFshmSize with
        | .ok () => (.ok (), { c with l1sramFshm := mapped c.l1sramFshm })
        | .error e => (.error e, c)
      else if reqPhysAddr = iva2L2sramBaseGpp then
        match mapArea remapped vma c.l2sramFshm iva2L2sramSize with
        | .ok () => (.ok (), { c with l2sramFshm := mapped c.l2sramFshm })
        | .error e => (.error e, c)
      else if reqPhysAddr = dspLogbufBaseGpp then
        match mapArea remapped vma c.logbuf dspLogbufSize with
        | .ok () => (.ok (), { c with logbuf := mapped c.logbuf })
        | .error e => (.error e, c)
      else
        -- the mapping of an overlay section is not recorded
        match (List.finRange mlbComNumSectionIndices).find? fun s =>
            (sections s).any fun mem => reqPhysAddr = mem.physAddr ∧
              vma.vmEnd - vma.vmStart = mem.size with
        | some _ => if remapped then (.ok (), c) else (.error .EFAULT, c)
        | none => (.error .EINVAL, c)

/-- The overlay sections of a client that `fops__mmap` looks at. -/
def DevClient.sections (c : DevClient) (s : Section) : Option DspMemRegion :=
  if c.sectionFlags s then some (c.sectionMem s) else none

/-! ## The driver and the memory of its clients -/

/-- The two SRAM heaps. -/
inductive Sram where
  | l1
  | l2
  deriving DecidableEq, Repr

/-- The driver with the memory tables and the heaps `l1sram_fshm_mm` and
`l2sram_fshm_mm`. -/
structure Device where
  driver : Driver
  mem : Slot → ClientMem
  heap : Sram → Minim Slot

/-- The configurations of the heaps. -/
def Sram.config : Sram → HeapConfig
  | .l1 => l1sramFshm
  | .l2 => l2sramFshm

/-- The device when the module has been loaded. -/
def Device.initial (ram : DspMemRegion) : Device where
  driver := Driver.initial ram
  mem := fun _ => ClientMem.initial
  heap := fun l => minimInit l.config.numBlocks l.config.blockSizeShift
    l.config.physAddrBase

def Device.setMem (s : Device) (i : Slot) (c : ClientMem) : Device :=
  { s with mem := Function.update s.mem i c }

def Device.setHeap (s : Device) (l : Sram) (mm : Minim Slot) : Device :=
  { s with heap := Function.update s.heap l mm }

/-- The `L1SRAM_ALLOC` and `L2SRAM_ALLOC` cases; a region that cannot be
copied back stays allocated. -/
def ioctlSramAlloc (l : Sram) (uninit : DspMemRegion) (buf : UserBuf DspMemRegion)
    (copyBack : Bool) (i : Slot) (s : Device) : Option (Ret × Device) :=
  match buf with
  | .readable mem =>
      (minimAlloc uninit (s.heap l) i mem.size).map fun r =>
        (if copyBack then .ok () else .error .EFAULT, s.setHeap l r.2)
  | .fault _ => some (.error .EFAULT, s)

/-- The `L1SRAM_FREE` and `L2SRAM_FREE` cases. -/
def ioctlSramFree (l : Sram) (buf : UserBuf DspMemRegion) (i : Slot)
    (s : Device) : Ret × Device :=
  match buf with
  | .readable mem =>
      let (ret, mm) := minimFree (s.heap l) i mem
      (ret, s.setHeap l mm)
  | .fault _ => (.error .EFAULT, s)

/-- The loop of `fops__release` over the types of shared memory. -/
def freeShm (c : ClientMem) : ClientMem :=
  DspCache.all.foldl
    (fun c t =>
      if (c.shm t).dsp.physAddr ≠ 0 then (locShmFree (some t) c).2 else c) c

/-- What `fops__release` does to the memory of client `i`, if the loops of
`minim_free_by_client` end after `turns` turns. -/
def releaseMemory (turns : ℕ) (i : Slot) (s : Device) : Option Device :=
  (minimFreeByClient turns (s.heap .l1) i).bind fun l1 =>
    (minimFreeByClient turns (s.heap .l2) i).map fun l2 =>
      ((s.setMem i { freeShm (s.mem i) with
          l1sramFshm := DspMemRegion.zero
          l2sramFshm := DspMemRegion.zero
          logbuf := DspMemRegion.zero }).setHeap .l1 l1).setHeap .l2 l2

/-- What can happen next: a step of the driver, during which the loops of
`minim_free_by_client` may take some turns, or a call that has to do with
memory only. -/
inductive DeviceEvent where
  | file (e : Event) (turns : ℕ)
  | shmAlloc (filep : ℕ) (buf : UserBuf ShmAllocReq) (o : ShmOutcome)
      (copyBack : Bool)
  | shmFree (filep : ℕ) (type : Option DspCache)
  | sramAlloc (filep : ℕ) (l : Sram) (uninit : DspMemRegion)
      (buf : UserBuf DspMemRegion) (copyBack : Bool)
  | sramFree (filep : ℕ) (l : Sram) (buf : UserBuf DspMemRegion)
  | mmap (filep : ℕ) (vma : Vma) (remapped : Bool)

/-- The memory after a step of the process that holds the mutex. -/
def memoryStep (turns : ℕ) (s : Device) : Event → Option Device
  | .proc _ =>
      match s.driver.crit with
      | .relFree i => releaseMemory turns i s
      | _ => some s
  | _ => some s

/-- The next state, unless the step has to wait.  The calls that allocate or
free SRAM take `mtx_clients`; the others do not. -/
def deviceNext (s : Device) : DeviceEvent → Option Device
  | .file e turns =>
      (driverNext s.driver e).bind fun d =>
        (memoryStep turns s e).map fun s => { s with driver := d }
  | .shmAlloc filep buf o copyBack =>
      match s.driver.findClientByFilep filep with
      | some i => some (s.setMem i (ioctlShmAlloc o buf copyBack (s.mem i)).2)
      | none => some s
  | .shmFree filep type =>
      match s.driver.findClientByFilep filep with
      | some i => some (s.setMem i (locShmFree type (s.mem i)).2)
      | none => some s
  | .sramAlloc filep l uninit buf copyBack =>
      if s.driver.crit = .idle then
        match s.driver.findClientByFilep filep with
        | some i => (ioctlSramAlloc l uninit buf copyBack i s).map Prod.snd
        | none => some s
      else none
  | .sramFree filep l buf =>
      if s.driver.crit = .idle then
        match s.driver.findClientByFilep filep with
        | some i => some (ioctlSramFree l buf i s).2
        | none => some s
      else none
  | .mmap filep vma remapped =>
      match s.driver.findClientByFilep filep with
      | some i => some (s.setMem i (fopsMmap remapped vma
          (s.driver.clients i).sections (s.mem i)).2)
      | none => some s

/-- The device, from the loading of the module on. -/
def deviceMachine (ram : DspMemRegion) : Machine Device DeviceEvent :=
  Machine.ofNext (Device.initial ram) deviceNext

/-- The addresses that the kernel hands out are not zero. -/
def HandsOutAddrs (_ : Device) : DeviceEvent → Prop
  | .shmAlloc _ _ o _ => o.kVirtAddr ≠ 0 → o.dmaAddr ≠ 0
  | _ => True

instance (s : Device) (e : DeviceEvent) : Decidable (HandsOutAddrs s e) := by
  unfold HandsOutAddrs
  split <;> infer_instance

end C64Tools.Kmod
