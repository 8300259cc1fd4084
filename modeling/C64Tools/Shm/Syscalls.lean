import C64Tools.Kmod.Dev.AllocIoctls
import C64Tools.Kmod.Dev.Poll
import C64Tools.Library.Calls
import C64Tools.Shm.Held

/-!
# The calls of the library on the driver

The functions on shared memory once more, as the system calls that they make one
after the other, and the driver that answers them.  Between two of these calls
the other processes, the DSP and the interrupt handler may take any number of
steps, and so may the process with calls that have to do with other things.

The driver writes the region that it has recorded to the request of `SHM_ALLOC`,
so the library takes over the size from there as well.
-/

namespace C64Tools.Shm

open C64Tools.Kmod Transition Calls

/-! ## The calls of the library -/

/-- `mmapHugetlb` maps huge pages, `mmap` an area of the device. -/
inductive Syscall where
  | mmapHugetlb (size : ℕ)
  | mmap (size physAddr : ℕ)
  | munmap (virtAddr size : ℕ)
  | shmAlloc (req : ShmAllocReq)
  | shmFree (t : DspCache)
  | hugetlbV2p (virtAddr : ℕ)

/-- What a call returns, or writes to its argument. -/
abbrev Syscall.Answer : Syscall → Type
  | .mmapHugetlb _ => Option ℕ
  | .mmap _ _ => Option ℕ
  | .munmap _ _ => Unit
  | .shmAlloc _ => Option DspMemRegion
  | .shmFree _ => ℤ
  | .hugetlbV2p _ => Option ℕ

abbrev ShmProg (α : Type) := Prog Syscall Syscall.Answer α

/-- The value of the call to `mmap`. -/
def mmapValue : Option ℕ → ℕ
  | some virt => u32 virt
  | none => mapFailed

/-- The loop over the huge pages of the area that starts at `virt`. -/
def storePagesCalls (virt : ℕ) :
    ℕ → ℕ → (ℕ → ℕ) → ShmProg (Bool × (ℕ → ℕ))
  | 0, _, cells => .ret (true, cells)
  | left + 1, pageNr, cells =>
      .call (.hugetlbV2p (u32 (virt + pageNr <<< dspHugetlbPageshift))) fun
        | some addr =>
            storePagesCalls virt left (pageNr + 1)
              (Function.update cells pageNr (u32 addr))
        | none => .ret (false, cells)

/-- Ask for the addresses of huge pages that the driver has registered; without
all of them the pages are unmapped. -/
def locateHugetlbCalls (size : ℕ) (mem : DspMemRegion) (r : Regions) :
    ShmProg (DspMemRegion × Regions) :=
  let granted := r.setEntry .hugetlb ⟨.hugetlb, mem⟩
  if mem.virtAddr ≠ mapFailed then
    let numPages := u32 (size + (dspHugetlbPagesize - 1)) >>> dspHugetlbPageshift
    (storePagesCalls mem.virtAddr numPages 0 r.hugetlbPagePhysAddr).bind fun
      | (true, cells) => .ret (mem, granted.setPages cells)
      | (false, cells) =>
          .call (.munmap mem.virtAddr mem.size) fun _ =>
            .ret (DspMemRegion.zero, granted.setPages cells)
  else .ret (DspMemRegion.zero, granted)

/-- The flow of `dsp_shm_alloc_at()` for huge pages. -/
def allocHugetlbCalls (size : ℕ) (r : Regions) :
    ShmProg (DspMemRegion × Regions) :=
  .call (.mmapHugetlb size) fun answer =>
    let virt := mmapValue answer
    let asked := r.setEntry .hugetlb ⟨.hugetlb, 0, virt, size⟩
    if virt = mapFailed then .ret (DspMemRegion.zero, asked)
    else
      .call (.shmAlloc ⟨some .hugetlb, size, virt⟩) fun
        | none => .ret (DspMemRegion.zero, asked)
        | some mem => locateHugetlbCalls size mem r

/-- Map memory that the driver has granted. -/
def mapContigCalls (t : DspCache) (mem : DspMemRegion) (r : Regions) :
    ShmProg (DspMemRegion × Regions) :=
  .call (.mmap mem.size mem.physAddr) fun answer =>
    let mem := { mem with virtAddr := mmapValue answer }
    if mem.virtAddr ≠ mapFailed then .ret (mem, r.setEntry t ⟨t, mem⟩)
    else .ret (DspMemRegion.zero, r.setEntry t ⟨t, mem⟩)

/-- The flow of `dsp_shm_alloc_at()` for memory of the driver. -/
def allocContigCalls (t : DspCache) (size : ℕ) (r : Regions) :
    ShmProg (DspMemRegion × Regions) :=
  let virt := (r.sharedMem t).mem.virtAddr
  .call (.shmAlloc ⟨some t, size, virt⟩) fun
    | none => .ret (DspMemRegion.zero, r.setEntry t ⟨t, 0, virt, size⟩)
    | some mem => mapContigCalls t mem r

/-- `dsp_shm_alloc_at()`. -/
def dspShmAllocAtCalls (type : Option DspCache) (numBytes : ℕ) (r : Regions) :
    ShmProg (DspMemRegion × Regions) :=
  match type with
  | none => .ret (DspMemRegion.zero, r)
  | some t =>
      if (r.sharedMem t).mem.physAddr = 0 then
        if t = .hugetlb then allocHugetlbCalls (shmRound t numBytes) r
        else allocContigCalls t (shmRound t numBytes) r
      else .ret (DspMemRegion.zero, r)

/-- `dsp_shm_free()`. -/
def dspShmFreeCalls (mem : DspMemRegion) (r : Regions) :
    ShmProg (ℤ × Regions) :=
  match locGetCacheTypeByMem mem r with
  | some t =>
      let old := (r.sharedMem t).mem
      let free : ShmProg (ℤ × Regions) := .call (.shmFree t) fun ret =>
        .ret (ret, r.setEntry t ShmEntry.zero)
      if old.virtAddr ≠ 0 then
        .call (.munmap old.virtAddr old.size) fun _ => free
      else free
  | none => .ret (10, r)

/-- Free what the table has for each of some types. -/
def freeTypesCalls : List DspCache → Regions → ShmProg Regions
  | [], r => .ret r
  | t :: ts, r =>
      (dspShmFreeCalls (r.sharedMem t).mem r).bind fun res =>
        freeTypesCalls ts res.2

/-- The loop of `dsp_close()` over the types of shared memory. -/
def dspCloseShmCalls (r : Regions) : ShmProg Regions :=
  freeTypesCalls DspCache.all r

/-! ## The driver that answers -/

/-- What the kernel decides when it is called: the memory it finds, whether it can
copy from and to the process, where the process has room for a mapping, whether
it can map the pages, and where a huge page is. -/
structure KernelOutcome where
  shm : ShmOutcome
  copied : Bool
  vmStart : Option ℕ
  remapped : Bool
  page : Option ℕ

/-- Memory that is handed out has an address of 32 bits, which is that of a page
and not that of another entry; a mapping starts at a page as well. -/
structure KernelOutcome.Valid (o : KernelOutcome) (c : ClientMem) : Prop where
  handsOut : o.shm.kVirtAddr ≠ 0 → o.shm.dmaAddr ≠ 0
  dma_lt : o.shm.dmaAddr < 2 ^ 32
  dma_dvd : 4096 ∣ o.shm.dmaAddr
  dma_fresh : o.shm.kVirtAddr ≠ 0 →
    ∀ t ∈ DspCache.contig, (c.shm t).dsp.physAddr ≠ o.shm.dmaAddr
  hugetlb_lt : o.shm.hugetlbPhys < 2 ^ 32
  start_lt : ∀ start ∈ o.vmStart, start < 2 ^ 32
  start_dvd : ∀ start ∈ o.vmStart, 4096 ∣ start

/-- The kernel refuses nothing. -/
structure KernelOutcome.Grants (o : KernelOutcome) : Prop where
  dma : o.shm.kVirtAddr ≠ 0
  hugetlb : o.shm.hugetlbPhys ≠ 0
  copied : o.copied = true
  start : o.vmStart ≠ none
  remapped : o.remapped = true
  page : o.page ≠ none

/-- The area of whole pages that the kernel passes to `fops__mmap`. -/
def vmaAt (start size physAddr : ℕ) (hsize : 0 < size) : Vma where
  vmPgoff := physAddr >>> 12
  vmStart := start
  vmEnd := start + (size + 4095) / 4096 * 4096
  start_lt_end := by omega

/-- The answer to a call of a client, and its memory tables afterwards.  The
kernel itself refuses to map nothing, or from the middle of a page. -/
def serveClient (o : KernelOutcome) (sections : Section → Option DspMemRegion)
    (c : ClientMem) : (call : Syscall) → call.Answer × ClientMem
  | .mmapHugetlb size => (if 0 < size then o.vmStart else none, c)
  | .mmap size physAddr =>
      match o.vmStart with
      | some start =>
          if h : 0 < size ∧ 4096 ∣ physAddr then
            match fopsMmap o.remapped (vmaAt start size physAddr h.1) sections
                c with
            | (.ok (), c) => (some start, c)
            | (.error _, c) => (none, c)
          else (none, c)
      | none => (none, c)
  | .munmap _ _ => ((), c)
  | .shmAlloc req =>
      match ioctlShmAlloc o.shm (.readable req) o.copied c with
      | (.ok (), c) => (req.type.map fun t => (c.shm t).dsp, c)
      | (.error _, c) => (none, c)
  | .shmFree t =>
      match locShmFree (some t) c with
      | (.ok (), c) => (0, c)
      | (.error _, c) => (-1, c)
  | .hugetlbV2p _ => (o.page, c)

/-- The answer to a call of client `i`. -/
def serveDevice (o : KernelOutcome) (i : Slot) (s : Device) (call : Syscall) :
    call.Answer × Device :=
  let res := serveClient o (s.driver.clients i).sections (s.mem i) call
  (res.1, s.setMem i res.2)

/-- A step that is no call on the file which opens it, releases it, or changes the
entries of its shared memory. -/
def Elsewhere (filep : ℕ) (s : Device) : DeviceEvent → Prop
  | .file (.openFile _ f) _ => f ≠ filep
  | .file (.releaseFile f) _ => f ≠ filep
  | .shmAlloc f _ _ _ => f ≠ filep
  | .shmFree f _ => f ≠ filep
  | .mmap f vma _ => f = filep → ∀ i, s.driver.findClientByFilep f = some i →
      ∀ t ∈ DspCache.contig,
        u32 (vma.vmPgoff <<< 12) ≠ ((s.mem i).shm t).dsp.physAddr
  | _ => True

/-- The device with a process that has opened it; `ok` tells which outcomes the
calls of this process have. -/
def shmShared (filep : ℕ) (ok : KernelOutcome → Prop) :
    Shared Device Syscall Syscall.Answer where
  others s s' :=
    ∃ e, Elsewhere filep s e ∧ HandsOutAddrs s e ∧ deviceNext s e = some s'
  answers s call x s' :=
    ∃ o i, s.driver.findClientByFilep filep = some i ∧ o.Valid (s.mem i) ∧
      ok o ∧ serveDevice o i s call = (x, s')

/-! ## Runs that can be computed -/

instance (o : KernelOutcome) (c : ClientMem) : Decidable (o.Valid c) :=
  decidable_of_iff ((o.shm.kVirtAddr ≠ 0 → o.shm.dmaAddr ≠ 0) ∧
      o.shm.dmaAddr < 2 ^ 32 ∧ 4096 ∣ o.shm.dmaAddr ∧
      (o.shm.kVirtAddr ≠ 0 → ∀ t ∈ DspCache.contig,
        (c.shm t).dsp.physAddr ≠ o.shm.dmaAddr) ∧
      o.shm.hugetlbPhys < 2 ^ 32 ∧ (∀ start ∈ o.vmStart, start < 2 ^ 32) ∧
      ∀ start ∈ o.vmStart, 4096 ∣ start)
    ⟨fun ⟨h1, h2, h3, h4, h5, h6, h7⟩ => ⟨h1, h2, h3, h4, h5, h6, h7⟩,
      fun ⟨h1, h2, h3, h4, h5, h6, h7⟩ => ⟨h1, h2, h3, h4, h5, h6, h7⟩⟩

instance (o : KernelOutcome) : Decidable o.Grants :=
  decidable_of_iff (o.shm.kVirtAddr ≠ 0 ∧ o.shm.hugetlbPhys ≠ 0 ∧
      o.copied = true ∧ o.vmStart ≠ none ∧ o.remapped = true ∧
      o.page ≠ none)
    ⟨fun ⟨h1, h2, h3, h4, h5, h6⟩ => ⟨h1, h2, h3, h4, h5, h6⟩,
      fun ⟨h1, h2, h3, h4, h5, h6⟩ => ⟨h1, h2, h3, h4, h5, h6⟩⟩

/-- The answer with an outcome, if the outcome is possible. -/
def answerWith (filep : ℕ) (ok : KernelOutcome → Prop) [DecidablePred ok]
    (o : KernelOutcome) (s : Device) (call : Syscall) :
    Option (call.Answer × Device) :=
  match s.driver.findClientByFilep filep with
  | some i =>
      if o.Valid (s.mem i) ∧ ok o then some (serveDevice o i s call) else none
  | none => none

/-- A program that is followed with possible outcomes returns. -/
theorem returns_of_answerWith {filep : ℕ} {ok : KernelOutcome → Prop}
    [DecidablePred ok] {α : Type} {p : ShmProg α} {os : List KernelOutcome}
    {s t : Device} {a : α}
    (h : p.follow (answerWith filep ok) os s = some (a, t)) :
    (shmShared filep ok).Returns p s a t := by
  refine Shared.returns_of_follow (fun o s call x t hanswer => ?_) h
  unfold answerWith at hanswer
  split at hanswer
  next i hi =>
    obtain ⟨⟨hvalid, hok⟩, hserve⟩ :=
      Option.ite_none_right_eq_some.mp hanswer
    exact ⟨o, i, hi, hvalid, hok, Option.some.inj hserve⟩
  next => cases hanswer

end C64Tools.Shm
