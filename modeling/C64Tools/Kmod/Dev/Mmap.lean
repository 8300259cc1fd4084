import C64Tools.Kmod.Dev.SlotReuse

/-!
# What `fops__mmap` exposes

The area that a process asks for, the size that the driver has recorded for the
selected region, and the number of bytes behind it are three numbers.
`fops__mmap` compares the first two and then maps as many bytes as it has
recorded.  Beside the device we keep the number of bytes that the DMA allocator
was asked for, which is the recorded size rounded up to pages in 32 bits.
-/

namespace C64Tools.Kmod

open Transition

/-! ## Ranges of physical addresses -/

/-- Consecutive physical addresses, which have 32 bits. -/
structure PhysRange where
  base : ℕ
  size : ℕ

def PhysRange.Contains (r : PhysRange) (addr : ℕ) : Prop :=
  ∃ n < r.size, addr = u32 (r.base + n)

/-- The arguments of `remap_pfn_range`. -/
structure RemapCall where
  addr : ℕ
  pfn : ℕ
  size : ℕ
  deriving DecidableEq, Repr

/-- An address of one of the pages that are mapped for `size` bytes. -/
def RemapCall.Exposes (call : RemapCall) (addr : ℕ) : Prop :=
  ∃ k n, k <<< 12 < call.size ∧ n < 4096 ∧
    addr = u32 (((call.pfn + k) <<< 12) + n)

/-- `numBytes` of `loc_shm_alloc`: a size rounded up to pages. -/
def shmNumBytes (size : ℕ) : ℕ :=
  u32 ((u32 (size + (4096 - 1)) >>> 12) <<< 12)

theorem RemapCall.exposes_iff (call : RemapCall) (addr : ℕ) :
    call.Exposes addr ↔
      PhysRange.Contains ⟨u32 (call.pfn <<< 12),
        (call.size + 4095) / 4096 * 4096⟩ addr := by
  have hbase (n : ℕ) : u32 (u32 (call.pfn <<< 12) + n) =
      u32 (call.pfn <<< 12 + n) := Nat.mod_add_mod _ _ _
  have hinside (k : ℕ) {n : ℕ} (hn : n < 4096) :
      k * 4096 + n < (k + 1) * 4096 := by omega
  simp only [RemapCall.Exposes, PhysRange.Contains, hbase]
  simp only [Nat.shiftLeft_eq]
  constructor
  · rintro ⟨k, n, hk, hn, rfl⟩
    have haddr : (call.pfn + k) * 2 ^ 12 + n =
        call.pfn * 2 ^ 12 + (k * 4096 + n) := by omega
    have hpage : k + 1 ≤ (call.size + 4095) / 4096 := by
      rw [Nat.le_div_iff_mul_le (by decide)]
      omega
    rw [haddr]
    exact ⟨k * 4096 + n,
      (hinside k hn).trans_le (Nat.mul_le_mul_right 4096 hpage), rfl⟩
  · rintro ⟨n, hn, rfl⟩
    have haddr : call.pfn * 2 ^ 12 + n =
        (call.pfn + n / 4096) * 2 ^ 12 + n % 4096 := by omega
    rw [haddr]
    exact ⟨n / 4096, n % 4096, by omega, by omega, rfl⟩

/-- A range that does not go round contains another one at the same address
exactly if it is not smaller. -/
theorem PhysRange.contains_of_contains_iff {base m n : ℕ} (hn : n < 2 ^ 32) :
    (∀ addr, Contains ⟨base, m⟩ addr → Contains ⟨base, n⟩ addr) ↔ m ≤ n := by
  constructor
  · intro hsub
    by_contra hlt
    obtain ⟨k, hk, heq⟩ := hsub (u32 (base + n)) ⟨n, Nat.lt_of_not_le hlt, rfl⟩
    simp only [u32] at heq hk
    omega
  · rintro hle addr ⟨k, hk, rfl⟩
    exact ⟨k, Nat.lt_of_lt_of_le hk hle, rfl⟩

theorem shmNumBytes_zero : shmNumBytes 0 = 0 := by decide

theorem shmNumBytes_lt (size : ℕ) : shmNumBytes size < 2 ^ 32 :=
  Nat.mod_lt _ (Nat.two_pow_pos 32)

theorem shmNumBytes_dvd (size : ℕ) : 4096 ∣ shmNumBytes size := by
  simp only [shmNumBytes, u32, Nat.shiftRight_eq_div_pow, Nat.shiftLeft_eq]
  omega

/-- Rounding up leaves room for the size unless it overflows. -/
theorem le_shmNumBytes_iff (size : ℕ) :
    size ≤ shmNumBytes size ↔ size + 4095 < 2 ^ 32 := by
  simp only [shmNumBytes, u32, Nat.shiftRight_eq_div_pow, Nat.shiftLeft_eq]
  omega

/-- The mapped pages lie in a range of whole pages if and only if the size that
was passed does. -/
theorem RemapCall.exposed_iff_le {call : RemapCall} {n : ℕ} (hn : n < 2 ^ 32)
    (hpages : 4096 ∣ n) :
    (∀ addr, call.Exposes addr →
      PhysRange.Contains ⟨u32 (call.pfn <<< 12), n⟩ addr) ↔ call.size ≤ n := by
  simp only [call.exposes_iff]
  rw [PhysRange.contains_of_contains_iff hn]
  omega

/-! ## The call of `remap_pfn_range` -/

/-- The region that `fops__mmap` selects. -/
inductive MmapRegion where
  | shm (t : DspCache)
  | l1sram
  | l2sram
  | logbuf
  | overlay (s : Section)
  deriving DecidableEq, Repr

/-- The call for an area that is not mapped yet and is large enough. -/
def remapArea (vma : Vma) (area : DspMemRegion) (areaSize : ℕ) :
    Option RemapCall :=
  if area.virtAddr = 0 then
    if vma.vmEnd - vma.vmStart ≤ areaSize then
      some ⟨vma.vmStart, vma.vmPgoff, areaSize⟩
    else none
  else none

/-- The region that `fops__mmap` selects, and its call of `remap_pfn_range`, if
it gets there. -/
def fopsMmapRemap (vma : Vma) (sections : Section → Option DspMemRegion)
    (c : ClientMem) : Option (MmapRegion × RemapCall) :=
  let reqPhysAddr := u32 (vma.vmPgoff <<< 12)
  let reqSize := vma.vmEnd - vma.vmStart
  match DspCache.contig.find? fun t => reqPhysAddr = (c.shm t).dsp.physAddr with
  | some t =>
      (remapArea vma (c.shm t).dsp (c.shm t).dsp.size).map (.shm t, ·)
  | none =>
      if reqPhysAddr = dspL1sramFshmBaseGpp then
        (remapArea vma c.l1sramFshm dspL1sramFshmSize).map (.l1sram, ·)
      else if reqPhysAddr = iva2L2sramBaseGpp then
        (remapArea vma c.l2sramFshm iva2L2sramSize).map (.l2sram, ·)
      else if reqPhysAddr = dspLogbufBaseGpp then
        (remapArea vma c.logbuf dspLogbufSize).map (.logbuf, ·)
      else
        match (List.finRange mlbComNumSectionIndices).find? fun s =>
            (sections s).any fun mem => reqPhysAddr = mem.physAddr ∧
              reqSize = mem.size with
        | some s => some (.overlay s, ⟨vma.vmStart, vma.vmPgoff, reqSize⟩)
        | none => none

variable {vma : Vma} {sections : Section → Option DspMemRegion}
  {c : ClientMem} {region : MmapRegion} {call : RemapCall}

theorem mapArea_ok_iff {remapped : Bool} {area : DspMemRegion}
    {areaSize : ℕ} :
    mapArea remapped vma area areaSize = .ok () ↔
      remapped = true ∧ (remapArea vma area areaSize).isSome := by
  unfold mapArea remapArea
  split_ifs <;> simp_all

/-- The region of an area is recorded when its call has succeeded. -/
def recordArea (c g : ClientMem) :
    Except MmapErrno Unit → Except MmapErrno Unit × ClientMem
  | .ok () => (.ok (), g)
  | .error e => (.error e, c)

theorem recordArea_ok_iff {remapped : Bool} {area : DspMemRegion}
    {areaSize : ℕ} (g : ClientMem) (f : RemapCall → MmapRegion × RemapCall) :
    (recordArea c g (mapArea remapped vma area areaSize)).1 = .ok () ↔
      remapped = true ∧ ((remapArea vma area areaSize).map f).isSome := by
  rw [Option.isSome_map, ← mapArea_ok_iff]
  cases mapArea remapped vma area areaSize with
  | ok _ => exact iff_of_true rfl rfl
  | error e => exact iff_of_false (by simp [recordArea]) (by simp)

/-- `fops__mmap` succeeds if it gets to its call and the call succeeds. -/
theorem fopsMmap_ok_iff (remapped : Bool) :
    (fopsMmap remapped vma sections c).1 = .ok () ↔
      remapped = true ∧ (fopsMmapRemap vma sections c).isSome := by
  unfold fopsMmap fopsMmapRemap
  simp only
  cases DspCache.contig.find? fun t =>
      decide (u32 (vma.vmPgoff <<< 12) = (c.shm t).dsp.physAddr) with
  | some t => exact recordArea_ok_iff _ _
  | none =>
      simp only
      generalize (List.finRange mlbComNumSectionIndices).find? _ = found
      split_ifs with hl1 hl2 hlog hremapped
      · exact recordArea_ok_iff _ _
      · exact recordArea_ok_iff _ _
      · exact recordArea_ok_iff _ _
      · cases found with
        | some s => exact iff_of_true rfl ⟨hremapped, rfl⟩
        | none => exact iff_of_false (by simp) fun h => by simp at h
      · refine iff_of_false ?_ fun h => hremapped h.1
        cases found <;> simp

/-! ## The bytes behind an entry -/

/-- The number of bytes that the DMA allocator was asked for, for each entry of
a shared memory table. -/
abbrev DmaBytes := DspCache → ℕ

/-- `loc_shm_alloc` calls the DMA allocator for the contiguous types. -/
def dmaAlloc (o : ShmOutcome) (req : ShmAllocReq) (c : ClientMem)
    (dma : DmaBytes) : DmaBytes :=
  match req.type with
  | none | some .hugetlb => dma
  | some t =>
      if (c.shm t).kvirtAddr = 0 ∧ o.kVirtAddr ≠ 0 then
        Function.update dma t (shmNumBytes req.size)
      else dma

def dmaFree (type : Option DspCache) (c : ClientMem) (dma : DmaBytes) :
    DmaBytes :=
  match type with
  | none | some .hugetlb => dma
  | some t =>
      if (c.shm t).kvirtAddr ≠ 0 then Function.update dma t 0 else dma

def dmaIoctlAlloc (o : ShmOutcome) (buf : UserBuf ShmAllocReq)
    (copyBack : Bool) (c : ClientMem) (dma : DmaBytes) : DmaBytes :=
  match buf with
  | .readable req =>
      match locShmAlloc o req c with
      | (.ok (), c') =>
          if copyBack then dmaAlloc o req c dma
          else dmaFree req.type c' (dmaAlloc o req c dma)
      | (.error _, _) => dmaAlloc o req c dma
  | .fault _ => dma

/-- The loop of `fops__release` over the types of shared memory. -/
def dmaFreeAll (c : ClientMem) (dma : DmaBytes) : ClientMem × DmaBytes :=
  DspCache.all.foldl
    (fun (c, dma) t =>
      if (c.shm t).dsp.physAddr ≠ 0 then
        ((locShmFree (some t) c).2, dmaFree (some t) c dma)
      else (c, dma)) (c, dma)

/-- What an event does to the record. -/
def dmaNext (s : Device) (e : DeviceEvent) (dma : Slot → DmaBytes) :
    Slot → DmaBytes :=
  match e with
  | .shmAlloc filep buf o copyBack =>
      match s.driver.findClientByFilep filep with
      | some i => Function.update dma i
          (dmaIoctlAlloc o buf copyBack (s.mem i) (dma i))
      | none => dma
  | .shmFree filep type =>
      match s.driver.findClientByFilep filep with
      | some i => Function.update dma i (dmaFree type (s.mem i) (dma i))
      | none => dma
  | .file (.proc _) _ =>
      match s.driver.crit with
      | .relFree i => Function.update dma i (dmaFreeAll (s.mem i) (dma i)).2
      | _ => dma
  | _ => dma

/-- The device with the record, from the loading of the module on. -/
def dmaMachine (ram : DspMemRegion) :
    Machine (Device × (Slot → DmaBytes)) DeviceEvent :=
  Machine.ofNext (Device.initial ram, fun _ _ => 0) fun s e =>
    (deviceNext s.1 e).map fun t => (t, dmaNext s.1 e s.2)

/-- Behind a contiguous entry there is its size, rounded up. -/
def DmaRecorded (c : ClientMem) (dma : DmaBytes) : Prop :=
  ∀ t ∈ DspCache.contig, dma t = shmNumBytes (c.shm t).dsp.size

variable {dma : DmaBytes} {ram : DspMemRegion}

theorem dmaRecorded_initial : DmaRecorded ClientMem.initial fun _ => 0 :=
  fun _ _ => shmNumBytes_zero.symm

theorem DmaRecorded.of_shm {c' : ClientMem} (h : DmaRecorded c dma)
    (hsize : ∀ t, (c'.shm t).dsp.size = (c.shm t).dsp.size) :
    DmaRecorded c' dma := by
  intro t ht
  rw [hsize]
  exact h t ht

/-- The other areas are not in the record. -/
theorem DmaRecorded.clearAreas (h : DmaRecorded c dma) :
    DmaRecorded { c with
      l1sramFshm := DspMemRegion.zero
      l2sramFshm := DspMemRegion.zero
      logbuf := DspMemRegion.zero } dma :=
  h.of_shm fun _ => rfl

theorem DmaRecorded.update (h : DmaRecorded c dma) {t : DspCache}
    {entry : ClientShm} {n : ℕ} (hn : n = shmNumBytes entry.dsp.size) :
    DmaRecorded (c.setShm t entry) (Function.update dma t n) := by
  intro t' ht'
  simp only [ClientMem.setShm, Function.update_apply]
  split_ifs
  · exact hn
  · exact h t' ht'

/-- The huge pages are not in the record. -/
theorem DmaRecorded.hugetlb (h : DmaRecorded c dma) (entry : ClientShm) :
    DmaRecorded (c.setShm .hugetlb entry) dma := by
  intro t ht
  have hne : t ≠ .hugetlb := by
    rintro rfl
    revert ht
    decide
  simp only [ClientMem.setShm, Function.update_of_ne hne]
  exact h t ht

theorem DmaRecorded.alloc (h : DmaRecorded c dma) (o : ShmOutcome)
    (req : ShmAllocReq) :
    DmaRecorded (locShmAlloc o req c).2 (dmaAlloc o req c dma) := by
  unfold locShmAlloc dmaAlloc
  cases req.type with
  | none => exact h
  | some t =>
      cases t with
      | hugetlb =>
          simp only
          split
          · exact h.hugetlb _
          · exact h
      | none | rw | r | w =>
          simp only
          split_ifs with hfree hvirt hboth
          · exact h.update rfl
          · exact absurd ⟨hfree, hvirt⟩ hboth
          · tauto
          · exact h
          · tauto
          · exact h

theorem DmaRecorded.free (h : DmaRecorded c dma) (type : Option DspCache) :
    DmaRecorded (locShmFree type c).2 (dmaFree type c dma) := by
  unfold locShmFree dmaFree
  cases type with
  | none => exact h
  | some t =>
      cases t with
      | hugetlb => exact h.hugetlb _
      | none | rw | r | w =>
          simp only
          split_ifs
          · exact h.update shmNumBytes_zero.symm
          · exact h

theorem DmaRecorded.ioctlAlloc (h : DmaRecorded c dma) (o : ShmOutcome)
    (buf : UserBuf ShmAllocReq) (copyBack : Bool) :
    DmaRecorded (ioctlShmAlloc o buf copyBack c).2
      (dmaIoctlAlloc o buf copyBack c dma) := by
  unfold ioctlShmAlloc dmaIoctlAlloc
  cases buf with
  | fault left => exact h
  | readable req =>
      have halloc := h.alloc o req
      simp only
      rcases hres : locShmAlloc o req c with ⟨ret, c'⟩
      rw [hres] at halloc
      cases ret with
      | error e => exact halloc
      | ok _ =>
          simp only
          split_ifs
          · exact halloc
          · exact halloc.free req.type

/-- The loop of `fops__release` keeps the record right, and does to the table
what it does without the record. -/
theorem DmaRecorded.freeAll (h : DmaRecorded c dma) :
    DmaRecorded (freeShm c) (dmaFreeAll c dma).2 := by
  have hloop (ts : List DspCache) : ∀ c dma, DmaRecorded c dma →
      DmaRecorded (ts.foldl (fun c t =>
        if (c.shm t).dsp.physAddr ≠ 0 then (locShmFree (some t) c).2 else c) c)
        (ts.foldl (fun (c, dma) t =>
          if (c.shm t).dsp.physAddr ≠ 0 then
            ((locShmFree (some t) c).2, dmaFree (some t) c dma)
          else (c, dma)) (c, dma)).2 := by
    induction ts with
    | nil => exact fun _ _ h => h
    | cons t ts ih =>
        intro c dma h
        simp only [List.foldl_cons]
        split_ifs
        · exact ih _ _ (h.free (some t))
        · exact ih _ _ h
  exact hloop DspCache.all c dma h

/-- Mapping does not change the sizes. -/
theorem fopsMmap_size (remapped : Bool) (t : DspCache) :
    ((fopsMmap remapped vma sections c).2.shm t).dsp.size =
      (c.shm t).dsp.size := by
  have hset (u : DspCache) : ((c.setShm u { c.shm u with dsp :=
      { (c.shm u).dsp with virtAddr := vma.vmStart } }).shm t).dsp.size =
        (c.shm t).dsp.size := by
    simp only [ClientMem.setShm, Function.update_apply]
    split_ifs with hut
    · rw [hut]
    · rfl
  unfold fopsMmap
  simp only
  split
  next u hu =>
    split
    · exact hset u
    · rfl
  next =>
    split_ifs
    · split <;> rfl
    · split <;> rfl
    · split <;> rfl
    · split <;> rfl
    · split <;> rfl

/-! ## The sections that clients hold -/

/-- The overlay memory of an entry is clear or comes from the table of the
driver. -/
def DevClient.SectionsKnown (c : DevClient) : Prop :=
  ∀ s, c.sectionMem s = DspMemRegion.zero ∨ c.sectionMem s = overlaySections s

theorem DevClient.SectionsKnown.update {cl : DevClient}
    (h : cl.SectionsKnown) {s : Section} {mem : DspMemRegion}
    (hmem : mem = DspMemRegion.zero ∨ mem = overlaySections s)
    (flags : Section → Bool) :
    DevClient.SectionsKnown { cl with
      sectionFlags := flags
      sectionMem := Function.update cl.sectionMem s mem } := by
  intro s'
  simp only [Function.update_apply]
  split_ifs with hs
  · rwa [hs]
  · exact h s'

theorem sectionsKnown_update {clients : Slot → DevClient} {cl : DevClient}
    (h : ∀ i, (clients i).SectionsKnown) (hcl : cl.SectionsKnown) (k i : Slot) :
    (Function.update clients k cl i).SectionsKnown := by
  rw [Function.update_apply]
  split_ifs
  · exact hcl
  · exact h i

theorem sectionsKnown_step {d d' : Driver} {e : Event}
    (h : ∀ i, (d.clients i).SectionsKnown) (hstep : DriverStep d e d') (i : Slot) :
    (d'.clients i).SectionsKnown := by
  cases hstep with
  | send =>
      rw [(mlbSendToDsp_keeps _ _ _ d).clients]
      exact h i
  | ioctl _ _ heff =>
      cases heff with
      | power => exact h i
      | reserve =>
          exact sectionsKnown_update h ((h _).update (Or.inr rfl) _) _ i
      | giveBack =>
          exact sectionsKnown_update h ((h _).update (Or.inl rfl) _) _ i
      | @ref s =>
          refine sectionsKnown_update h ?_ _ i
          exact fun t => h _ t
  | relReset =>
      refine sectionsKnown_update h ?_ _ i
      exact fun _ => Or.inl rfl
  | opened | released | readCopied | writeMsg | writeFault | setPending
  | resetState | relFree | irqReply =>
      refine sectionsKnown_update h ?_ _ i
      exact fun t => h _ t
  | _ => exact h i

/-! ## Every run -/

/-- The record and the tables of the clients agree. -/
structure MmapSound (s : Device) (dma : Slot → DmaBytes) : Prop where
  recorded : ∀ i, DmaRecorded (s.mem i) (dma i)
  sections : ∀ i, (s.driver.clients i).SectionsKnown

theorem initial_mmapSound (ram : DspMemRegion) :
    MmapSound (Device.initial ram) fun _ _ => 0 where
  recorded _ := dmaRecorded_initial
  sections _ _ := Or.inl rfl

section Step

variable {s s' : Device} {dma : Slot → DmaBytes}

theorem MmapSound.setMem (h : MmapSound s dma) {i : Slot} {c : ClientMem}
    {n : DmaBytes} (hrec : DmaRecorded c n) :
    MmapSound (s.setMem i c) (Function.update dma i n) where
  recorded j := by
    simp only [Device.setMem, Function.update_apply]
    split_ifs
    · exact hrec
    · exact h.recorded j
  sections := h.sections

/-- The record is not touched where the table is not. -/
theorem MmapSound.setMem_same (h : MmapSound s dma) {i : Slot} {c : ClientMem}
    (hrec : DmaRecorded c (dma i)) : MmapSound (s.setMem i c) dma := by
  have hset := h.setMem (i := i) hrec
  rwa [Function.update_eq_self] at hset

/-- Allocating SRAM touches a heap only. -/
theorem ioctlSramAlloc_keeps {l : Sram} {uninit : DspMemRegion}
    {buf : UserBuf DspMemRegion} {copyBack : Bool} {i : Slot}
    {r : Ret × Device}
    (h : ioctlSramAlloc l uninit buf copyBack i s = some r) :
    r.2.driver = s.driver ∧ r.2.mem = s.mem := by
  cases buf with
  | fault left =>
      obtain rfl := Option.some.inj h
      exact ⟨rfl, rfl⟩
  | readable mem =>
      obtain ⟨mm, -, rfl⟩ := Option.map_eq_some_iff.mp h
      exact ⟨rfl, rfl⟩

theorem MmapSound.file (h : MmapSound s dma) {e : Event} {turns : ℕ}
    (hnext : deviceNext s (.file e turns) = some s') :
    MmapSound s' (dmaNext s (.file e turns) dma) := by
  obtain ⟨d', hd', hmap⟩ := Option.bind_eq_some_iff.mp hnext
  obtain ⟨t, ht, rfl⟩ := Option.map_eq_some_iff.mp hmap
  have hsections := sectionsKnown_step h.sections (driverNext_step hd')
  obtain ⟨rfl, hother⟩ | ⟨i, o, rfl, hcrit, hrelease⟩ := memoryStep_cases ht
  · have hsame : dmaNext t (.file e turns) dma = dma := by
      unfold dmaNext
      split
      next => cases ‹DeviceEvent.file e turns = _›
      next => cases ‹DeviceEvent.file e turns = _›
      next o _ heq =>
        obtain ⟨rfl, rfl⟩ := DeviceEvent.file.inj heq
        split
        next i hi => exact absurd hi (hother i o rfl)
        next => rfl
      next => rfl
    rw [hsame]
    exact ⟨h.recorded, hsections⟩
  · obtain ⟨l1, -, hrelease⟩ := Option.bind_eq_some_iff.mp hrelease
    obtain ⟨l2, -, rfl⟩ := Option.map_eq_some_iff.mp hrelease
    have hdma : dmaNext s (.file (.proc o) turns) dma =
        Function.update dma i (dmaFreeAll (s.mem i) (dma i)).2 := by
      simp only [dmaNext, hcrit]
    rw [hdma]
    have hfreed := (h.recorded i).freeAll.clearAreas
    exact ⟨(h.setMem hfreed).recorded, hsections⟩

theorem MmapSound.step (h : MmapSound s dma) {e : DeviceEvent}
    (hnext : deviceNext s e = some s') : MmapSound s' (dmaNext s e dma) := by
  cases e with
  | file e turns => exact h.file hnext
  | shmAlloc filep buf o copyBack =>
      simp only [deviceNext] at hnext
      split at hnext
      next i hi =>
        obtain rfl := Option.some.inj hnext
        simp only [dmaNext, hi]
        exact h.setMem ((h.recorded i).ioctlAlloc o buf copyBack)
      next hnone =>
        obtain rfl := Option.some.inj hnext
        simp only [dmaNext, hnone]
        exact h
  | shmFree filep type =>
      simp only [deviceNext] at hnext
      split at hnext
      next i hi =>
        obtain rfl := Option.some.inj hnext
        simp only [dmaNext, hi]
        exact h.setMem ((h.recorded i).free type)
      next hnone =>
        obtain rfl := Option.some.inj hnext
        simp only [dmaNext, hnone]
        exact h
  | sramAlloc filep l uninit buf copyBack =>
      obtain ⟨-, hnext⟩ := Option.ite_none_right_eq_some.mp hnext
      split at hnext
      next i hi =>
        obtain ⟨r, halloc, rfl⟩ := Option.map_eq_some_iff.mp hnext
        obtain ⟨hdriver, hmem⟩ := ioctlSramAlloc_keeps halloc
        exact ⟨fun j => by rw [hmem]; exact h.recorded j,
          fun j => by rw [hdriver]; exact h.sections j⟩
      next =>
        obtain rfl := Option.some.inj hnext
        exact h
  | sramFree filep l buf =>
      obtain ⟨-, hnext⟩ := Option.ite_none_right_eq_some.mp hnext
      split at hnext
      next i hi =>
        obtain rfl := Option.some.inj hnext
        cases buf <;> exact ⟨h.recorded, h.sections⟩
      next =>
        obtain rfl := Option.some.inj hnext
        exact h
  | mmap filep vma remapped =>
      simp only [deviceNext] at hnext
      split at hnext
      next i hi =>
        obtain rfl := Option.some.inj hnext
        exact h.setMem_same
          ((h.recorded i).of_shm (fopsMmap_size remapped))
      next =>
        obtain rfl := Option.some.inj hnext
        exact h

end Step

theorem mmapSound_of_reachable {s : Device} {dma : Slot → DmaBytes}
    (hs : (dmaMachine ram).Reachable (s, dma)) : MmapSound s dma := by
  refine Machine.Reachable.invariant (P := fun s => MmapSound s.1 s.2)
    ?_ ?_ hs
  · rintro s rfl
    exact initial_mmapSound ram
  · rintro s e s' h hnext
    obtain ⟨t, ht, rfl⟩ := Option.map_eq_some_iff.mp hnext
    exact h.step ht

/-- Every run of the device is one with a record. -/
theorem exists_dma_of_reachable {s : Device}
    (hs : (deviceMachine ram).Reachable s) :
    ∃ dma, (dmaMachine ram).Reachable (s, dma) := by
  induction hs with
  | init h =>
      obtain rfl := h
      exact ⟨_, .init rfl⟩
  | step _ hnext ih =>
      obtain ⟨dma, hdma⟩ := ih
      exact ⟨_, hdma.step (congrArg (Option.map _) hnext)⟩

/-! ## Mapping no more than there is -/

/-- The memory that is reserved for a region. -/
def reservedFor (sections : Section → Option DspMemRegion) (c : ClientMem)
    (dma : DmaBytes) : MmapRegion → PhysRange
  | .shm t => ⟨(c.shm t).dsp.physAddr, dma t⟩
  | .l1sram => ⟨dspL1sramFshmBaseGpp, dspL1sramFshmSize⟩
  | .l2sram => ⟨iva2L2sramBaseGpp, iva2L2sramSize⟩
  | .logbuf => ⟨dspLogbufBaseGpp, dspLogbufSize⟩
  | .overlay s =>
      match sections s with
      | some mem => ⟨mem.physAddr, mem.size⟩
      | none => ⟨0, 0⟩

/-- A call maps no more bytes than the area has, and no page that is not
reserved. -/
structure MmapContained (vma : Vma) (reserved : PhysRange)
    (call : RemapCall) : Prop where
  size_le : call.size ≤ vma.vmEnd - vma.vmStart
  reserved : ∀ addr, call.Exposes addr → reserved.Contains addr

/-- The area is as large as the recorded size of the region, and rounding up
this size has not overflowed. -/
def AsksForAll (vma : Vma) (c : ClientMem) : MmapRegion → Prop
  | .shm t => vma.vmEnd - vma.vmStart = (c.shm t).dsp.size ∧
      (c.shm t).dsp.size + 4095 < 2 ^ 32
  | .l1sram => vma.vmEnd - vma.vmStart = dspL1sramFshmSize
  | .l2sram => vma.vmEnd - vma.vmStart = iva2L2sramSize
  | .logbuf => vma.vmEnd - vma.vmStart = dspLogbufSize
  | .overlay _ => True

theorem remapArea_eq_some {area : DspMemRegion} {areaSize : ℕ}
    (h : remapArea vma area areaSize = some call) :
    vma.vmEnd - vma.vmStart ≤ areaSize ∧
      call = ⟨vma.vmStart, vma.vmPgoff, areaSize⟩ := by
  unfold remapArea at h
  split_ifs at h with hvirt hsize
  exact ⟨hsize, (Option.some.inj h).symm⟩

/-- A fixed area of whole pages is exposed beyond what was asked for unless all
of it was asked for. -/
theorem mmapContained_fixed_iff {base n : ℕ} {area : DspMemRegion}
    (hn : n < 2 ^ 32) (hpages : 4096 ∣ n)
    (hbase : u32 (vma.vmPgoff <<< 12) = base)
    (h : remapArea vma area n = some call) :
    MmapContained vma ⟨base, n⟩ call ↔ vma.vmEnd - vma.vmStart = n := by
  obtain ⟨hle, rfl⟩ := remapArea_eq_some h
  constructor
  · intro hcontained
    exact hle.antisymm hcontained.size_le
  · intro hsize
    refine ⟨hsize.ge, ?_⟩
    rw [← hbase]
    exact (RemapCall.exposed_iff_le hn hpages).mpr le_rfl

theorem mmapContained_shm_iff {t : DspCache}
    (hdma : dma t = shmNumBytes (c.shm t).dsp.size)
    (hbase : u32 (vma.vmPgoff <<< 12) = (c.shm t).dsp.physAddr)
    (h : remapArea vma (c.shm t).dsp (c.shm t).dsp.size = some call) :
    MmapContained vma ⟨(c.shm t).dsp.physAddr, dma t⟩ call ↔
      AsksForAll vma c (.shm t) := by
  obtain ⟨hle, rfl⟩ := remapArea_eq_some h
  rw [AsksForAll, ← le_shmNumBytes_iff, hdma, ← hbase]
  have hexposed := @RemapCall.exposed_iff_le
    ⟨vma.vmStart, vma.vmPgoff, (c.shm t).dsp.size⟩ _
    (shmNumBytes_lt (c.shm t).dsp.size) (shmNumBytes_dvd _)
  constructor
  · intro hcontained
    exact ⟨hle.antisymm hcontained.size_le,
      hexposed.mp hcontained.reserved⟩
  · rintro ⟨hsize, hroom⟩
    exact ⟨hsize.ge, hexposed.mpr hroom⟩

theorem overlaySections_pages (s : Section) :
    (overlaySections s).size < 2 ^ 32 ∧ 4096 ∣ (overlaySections s).size := by
  revert s
  decide

/-- A section is mapped as it is. -/
theorem mmapContained_overlay {s : Section} {mem : DspMemRegion}
    (hknown : mem = DspMemRegion.zero ∨ mem = overlaySections s)
    (hbase : u32 (vma.vmPgoff <<< 12) = mem.physAddr)
    (hsize : vma.vmEnd - vma.vmStart = mem.size) :
    MmapContained vma ⟨mem.physAddr, mem.size⟩
      ⟨vma.vmStart, vma.vmPgoff, vma.vmEnd - vma.vmStart⟩ := by
  have hpages : mem.size < 2 ^ 32 ∧ 4096 ∣ mem.size := by
    rcases hknown with rfl | rfl
    · decide
    · exact overlaySections_pages s
  refine ⟨le_rfl, ?_⟩
  rw [← hbase]
  exact (RemapCall.exposed_iff_le hpages.1 hpages.2).mpr hsize.le

theorem mmapRemap_contained_iff (hdma : DmaRecorded c dma)
    (hsections : ∀ s mem, sections s = some mem →
      mem = DspMemRegion.zero ∨ mem = overlaySections s)
    (h : fopsMmapRemap vma sections c = some (region, call)) :
    MmapContained vma (reservedFor sections c dma region) call ↔
      AsksForAll vma c region := by
  unfold fopsMmapRemap at h
  simp only at h
  split at h
  next t ht =>
    obtain ⟨r, hr, heq⟩ := Option.map_eq_some_iff.mp h
    obtain ⟨rfl, rfl⟩ := Prod.mk.inj heq
    have hbase : u32 (vma.vmPgoff <<< 12) = (c.shm t).dsp.physAddr := by
      simpa using List.find?_some ht
    exact mmapContained_shm_iff (hdma t (List.mem_of_find?_eq_some ht)) hbase hr
  next =>
    split_ifs at h with hl1 hl2 hlog
    · obtain ⟨r, hr, heq⟩ := Option.map_eq_some_iff.mp h
      obtain ⟨rfl, rfl⟩ := Prod.mk.inj heq
      exact mmapContained_fixed_iff (by decide) (by decide) hl1 hr
    · obtain ⟨r, hr, heq⟩ := Option.map_eq_some_iff.mp h
      obtain ⟨rfl, rfl⟩ := Prod.mk.inj heq
      exact mmapContained_fixed_iff (by decide) (by decide) hl2 hr
    · obtain ⟨r, hr, heq⟩ := Option.map_eq_some_iff.mp h
      obtain ⟨rfl, rfl⟩ := Prod.mk.inj heq
      exact mmapContained_fixed_iff (by decide) (by decide) hlog hr
    · split at h
      next s hs =>
        obtain ⟨rfl, rfl⟩ := Prod.mk.inj (Option.some.inj h)
        have hany := List.find?_some hs
        obtain ⟨mem, hmem, hmatch⟩ := (Option.any_eq_true _ _).mp hany
        obtain ⟨hbase, hsize⟩ := of_decide_eq_true hmatch
        simp only [reservedFor, hmem]
        exact iff_of_true
          (mmapContained_overlay (hsections s mem hmem) hbase hsize) trivial
      next => cases h

/-- In every run, a mapping that succeeds stays inside the area and inside the
memory that is reserved for the region if and only if the area is as large as
the region, and the size of shared memory could be rounded up to pages. -/
theorem mmap_contained_iff {s : Device} {dma : Slot → DmaBytes}
    (hs : (dmaMachine ram).Reachable (s, dma)) (i : Slot) (vma : Vma)
    (remapped : Bool)
    (hok : (fopsMmap remapped vma (s.driver.clients i).sections
      (s.mem i)).1 = .ok ()) :
    ∃ region call,
      fopsMmapRemap vma (s.driver.clients i).sections (s.mem i) =
        some (region, call) ∧
      (MmapContained vma (reservedFor (s.driver.clients i).sections (s.mem i)
          (dma i) region) call ↔ AsksForAll vma (s.mem i) region) := by
  obtain ⟨-, hsome⟩ := (fopsMmap_ok_iff remapped).mp hok
  obtain ⟨⟨region, call⟩, hcall⟩ := Option.isSome_iff_exists.mp hsome
  have hsound := mmapSound_of_reachable hs
  refine ⟨region, call, hcall,
    mmapRemap_contained_iff (hsound.recorded i) ?_ hcall⟩
  intro t mem hmem
  obtain ⟨-, heq⟩ := Option.ite_none_right_eq_some.mp hmem
  rw [← Option.some.inj heq]
  exact hsound.sections i t

/-- A client has two pages of one type, and the largest possible size of
another type. -/
def twoPagesRun : List DeviceEvent :=
  [.file (.openFile c64DevMinor 1) 0,
    .shmAlloc 1 (.readable ⟨some .rw, 8192, 0⟩) ⟨0xc8000000, 0x87000000, 0⟩ true,
    .shmAlloc 1 (.readable ⟨some .none, 2 ^ 32 - 1, 0⟩)
      ⟨0xc9000000, 0x88000000, 0⟩ true]

/-- An area of `n` pages at page `pgoff`. -/
def vmaOfPages (pgoff n : ℕ) (hn : 0 < n) : Vma where
  vmPgoff := pgoff
  vmStart := 0x60000000
  vmEnd := 0x60000000 + n * 4096
  start_lt_end := by omega

/-- Both pages are mapped. -/
theorem mmap_contained_two_pages :
    ∃ (s : Device) (dma : Slot → DmaBytes) (region : MmapRegion)
      (call : RemapCall),
      fopsMmapRemap (vmaOfPages 0x87000 2 (by decide))
          (s.driver.clients 0).sections (s.mem 0) = some (region, call) ∧
        (MmapContained (vmaOfPages 0x87000 2 (by decide))
            (reservedFor (s.driver.clients 0).sections (s.mem 0) (dma 0)
              region) call ↔
          AsksForAll (vmaOfPages 0x87000 2 (by decide)) (s.mem 0) region) := by
  have hrun : ∃ s, (dmaMachine DspMemRegion.zero).Reachable s ∧
      (fopsMmap true (vmaOfPages 0x87000 2 (by decide))
        (s.1.driver.clients 0).sections (s.1.mem 0)).1 = .ok () :=
    Machine.exists_reachable_of_run
      (fun s : Device × (Slot → DmaBytes) =>
        (fopsMmap true (vmaOfPages 0x87000 2 (by decide))
          (s.1.driver.clients 0).sections (s.1.mem 0)).1 = .ok ())
      twoPagesRun (by decide +kernel)
  obtain ⟨⟨s, dma⟩, hs, hok⟩ := hrun
  obtain ⟨region, call, h⟩ := mmap_contained_iff hs 0 _ true hok
  exact ⟨s, dma, region, call, h⟩

/-- A process maps one page at page `pgoff`, and `size` bytes are mapped. -/
def MapsOnePage (s : Device) (pgoff : ℕ) (t : DspCache) (size : ℕ) : Prop :=
  (fopsMmap true (vmaOfPages pgoff 1 (by decide))
      (s.driver.clients 0).sections (s.mem 0)).1 = .ok () ∧
    fopsMmapRemap (vmaOfPages pgoff 1 (by decide))
      (s.driver.clients 0).sections (s.mem 0) =
        some (.shm t, ⟨0x60000000, pgoff, size⟩)

instance (s : Device) (pgoff : ℕ) (t : DspCache) (size : ℕ) :
    Decidable (MapsOnePage s pgoff t size) := by
  unfold MapsOnePage
  infer_instance

/-- A request for one page of two maps both; one page of the largest size maps
all of it, and nothing is behind it. -/
theorem mmap_exposes_more_than_asked :
    ∃ (s : Device) (dma : Slot → DmaBytes),
      (dmaMachine DspMemRegion.zero).Reachable (s, dma) ∧
      (MapsOnePage s 0x87000 .rw 8192 ∧
        ¬ MmapContained (vmaOfPages 0x87000 1 (by decide))
          (reservedFor (s.driver.clients 0).sections (s.mem 0) (dma 0)
            (.shm .rw)) ⟨0x60000000, 0x87000, 8192⟩) ∧
      (MapsOnePage s 0x88000 .none (2 ^ 32 - 1) ∧ dma 0 .none = 0) := by
  have hrun : ∃ s, (dmaMachine DspMemRegion.zero).Reachable s ∧
      MapsOnePage s.1 0x87000 .rw 8192 ∧
      MapsOnePage s.1 0x88000 .none (2 ^ 32 - 1) ∧ s.2 0 .none = 0 :=
    Machine.exists_reachable_of_run
      (fun s : Device × (Slot → DmaBytes) =>
        MapsOnePage s.1 0x87000 .rw 8192 ∧
        MapsOnePage s.1 0x88000 .none (2 ^ 32 - 1) ∧ s.2 0 .none = 0)
      twoPagesRun (by decide +kernel)
  obtain ⟨⟨s, dma⟩, hs, htwo, hlargest⟩ := hrun
  refine ⟨s, dma, hs, ⟨htwo, fun hcontained => ?_⟩, hlargest⟩
  exact absurd hcontained.size_le (by decide)

end C64Tools.Kmod
