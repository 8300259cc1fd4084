import C64Tools.Kmod.Dev.SlotReuse
import C64Tools.Kmod.Minim.Contract

/-!
# Allocations that cannot be reported

`SHM_ALLOC`, `L1SRAM_ALLOC`, `L2SRAM_ALLOC` and `OVERLAY_ALLOC` allocate first
and copy the result to the client afterwards.  If the copying fails,
`SHM_ALLOC` frees what it has allocated; the other three do not.
-/

namespace C64Tools.Kmod

open Tiling Transition

/-- An ioctl that allocates, with the outcomes it depends on. -/
inductive AllocIoctl where
  | shm (o : ShmOutcome) (buf : UserBuf ShmAllocReq) (copyBack : Bool)
  | sram (l : Sram) (uninit : DspMemRegion) (buf : UserBuf DspMemRegion)
      (copyBack : Bool)
  | overlay (area : UserBuf ℕ) (copyBack : Bool)

def ioctlAlloc (i : Slot) (op : AllocIoctl) (s : Device) :
    Option (Ret × Device) :=
  match op with
  | .shm o buf copyBack =>
      let (ret, c) := ioctlShmAlloc o buf copyBack (s.mem i)
      some (ret, s.setMem i c)
  | .sram l uninit buf copyBack => ioctlSramAlloc l uninit buf copyBack i s
  | .overlay area copyBack =>
      let (ret, d) := ioctlClient i (.overlayAlloc area copyBack) s.driver
      some (ret, { s with driver := d })

/-- The allocating cases of `fops__unlocked_ioctl`. -/
def fopsIoctlAlloc (filep : ℕ) (op : AllocIoctl) (s : Device) :
    Option (Ret × Device) :=
  match s.driver.findClientByFilep filep with
  | some i => ioctlAlloc i op s
  | none => some (.error .EBADF, s)

/-- The event of the device that the ioctl is. -/
def AllocIoctl.event (filep : ℕ) : AllocIoctl → DeviceEvent
  | .shm o buf copyBack => .shmAlloc filep buf o copyBack
  | .sram l uninit buf copyBack => .sramAlloc filep l uninit buf copyBack
  | .overlay area copyBack =>
      .file (.ioctl filep (.overlayAlloc area copyBack)) 0

/-- What the clients have allocated is the same in both states. -/
structure MemoryKept (s s' : Device) : Prop where
  heap : s'.heap = s.heap
  shm : ∀ i, (s'.mem i).shm = (s.mem i).shm
  sectionFlags : s'.driver.sectionFlags = s.driver.sectionFlags
  clientFlags : ∀ i,
    (s'.driver.clients i).sectionFlags = (s.driver.clients i).sectionFlags
  clientMem : ∀ i,
    (s'.driver.clients i).sectionMem = (s.driver.clients i).sectionMem

/-- `loc_shm_alloc` writes to the entry `t`. -/
def ShmGranted (o : ShmOutcome) (t : DspCache) (c : ClientMem) : Prop :=
  match t with
  | .hugetlb => o.hugetlbPhys ≠ 0
  | t => (c.shm t).kvirtAddr = 0 ∧ o.kVirtAddr ≠ 0

/-- If the result cannot be copied back, there is nothing to be given back,
or giving it back restores the state. -/
def NothingLost (s : Device) (i : Slot) : AllocIoctl → Prop
  | .shm o (.readable req) false => ∀ t, req.type = some t →
      ShmGranted o t (s.mem i) → (s.mem i).shm t = ClientShm.empty
  | .sram l _ (.readable mem) false =>
      (s.heap l).blocksFor mem.size = 0 ∨
        NoneFree (s.heap l) ((s.heap l).blocksFor mem.size)
  | .overlay (.readable 2) false =>
      ∀ t ∈ area2Sections, s.driver.sectionFlags t = true
  | .overlay (.readable 3) false =>
      s.driver.sectionFlags mlbComSectionidxArea3 = true
  | _ => True

variable {s s' : Device} {i : Slot}

/-- The ioctls are events of the device. -/
theorem deviceNext_event (hcrit : s.driver.crit = .idle) (filep : ℕ)
    (op : AllocIoctl) :
    deviceNext s (op.event filep) =
      (fopsIoctlAlloc filep op s).map Prod.snd := by
  unfold fopsIoctlAlloc
  cases op with
  | shm o buf copyBack =>
      show (match s.driver.findClientByFilep filep with
        | some i => some (s.setMem i
            (ioctlShmAlloc o buf copyBack (s.mem i)).2)
        | none => some s) = _
      cases s.driver.findClientByFilep filep <;> rfl
  | sram l uninit buf copyBack =>
      show (if s.driver.crit = .idle then _ else _) = _
      rw [if_pos hcrit]
      cases s.driver.findClientByFilep filep <;> rfl
  | overlay area copyBack =>
      have hnext : deviceNext s
          ((AllocIoctl.overlay area copyBack).event filep) =
          some { s with driver := (fopsUnlockedIoctl filep
            (.overlayAlloc area copyBack) s.driver).2 } := by
        simp [AllocIoctl.event, deviceNext, driverNext, hcrit, memoryStep]
      rw [hnext, fopsUnlockedIoctl]
      cases s.driver.findClientByFilep filep <;> rfl

theorem MemoryKept.refl (s : Device) : MemoryKept s s :=
  ⟨rfl, fun _ => rfl, rfl, fun _ => rfl, fun _ => rfl⟩

/-! ## Shared memory -/

theorem memoryKept_setMem_iff {c : ClientMem} :
    MemoryKept s (s.setMem i c) ↔ c.shm = (s.mem i).shm := by
  constructor
  · intro hkept
    have hshm := hkept.shm i
    simpa only [Device.setMem, Function.update_self] using hshm
  · intro hshm
    refine ⟨rfl, fun j => ?_, rfl, fun _ => rfl, fun _ => rfl⟩
    by_cases hj : j = i
    · simpa only [hj, Device.setMem, Function.update_self] using hshm
    · simp only [Device.setMem, Function.update_of_ne hj]

theorem ClientMem.setShm_shm_eq_iff {c : ClientMem} {t : DspCache}
    {entry : ClientShm} : (c.setShm t entry).shm = c.shm ↔ c.shm t = entry := by
  rw [ClientMem.setShm, Function.update_eq_iff]
  exact ⟨fun h => h.1.symm, fun h => ⟨h.symm, fun _ _ => rfl⟩⟩

/-- What is left of a granted request when its entry has been freed. -/
theorem locShmFree_locShmAlloc {o : ShmOutcome} {req : ShmAllocReq}
    {c : ClientMem} {t : DspCache} (htype : req.type = some t)
    (hgranted : ShmGranted o t c) :
    (locShmAlloc o req c).1 = .ok () ∧
      (locShmFree req.type (locShmAlloc o req c).2).2 =
        c.setShm t ClientShm.empty := by
  rw [htype]
  cases t with
  | hugetlb =>
      have halloc : locShmAlloc o req c = (.ok (),
          c.setShm .hugetlb ⟨0, ⟨o.hugetlbPhys, req.virtAddr, req.size⟩⟩) := by
        simp only [locShmAlloc, htype]
        exact if_pos hgranted
      rw [halloc]
      refine ⟨rfl, ?_⟩
      simp only [locShmFree, ClientMem.setShm, Function.update_idem]
  | none | rw | r | w =>
      obtain ⟨hfree, hvirt⟩ := hgranted
      simp only [locShmAlloc, htype, if_pos hfree, if_pos hvirt, true_and]
      simp only [locShmFree, ClientMem.setShm, Function.update_self,
        Function.update_idem, if_pos hvirt]

theorem locShmAlloc_refused {o : ShmOutcome} {req : ShmAllocReq}
    {c : ClientMem}
    (hrefused : ∀ t, req.type = some t → ¬ ShmGranted o t c) :
    ∃ e, locShmAlloc o req c = (.error e, c) := by
  cases htype : req.type with
  | none => exact ⟨.EINVAL, by simp only [locShmAlloc, htype]⟩
  | some t =>
      have hnot := hrefused t htype
      cases t with
      | hugetlb =>
          refine ⟨.EFAULT, ?_⟩
          simp only [locShmAlloc, htype]
          exact if_neg hnot
      | none | rw | r | w =>
          refine ⟨.ENOMEM, ?_⟩
          simp only [locShmAlloc, htype]
          split_ifs with hfree hvirt
          · exact absurd ⟨hfree, hvirt⟩ hnot
          · rfl
          · rfl

theorem ioctlShmAlloc_kept_iff (o : ShmOutcome) (buf : UserBuf ShmAllocReq)
    (copyBack : Bool) :
    (∀ e, (ioctlShmAlloc o buf copyBack (s.mem i)).1 = .error e →
      MemoryKept s (s.setMem i
        (ioctlShmAlloc o buf copyBack (s.mem i)).2)) ↔
      NothingLost s i (.shm o buf copyBack) := by
  simp only [memoryKept_setMem_iff]
  cases buf with
  | fault left => exact iff_of_true (fun _ _ => rfl) trivial
  | readable req =>
      by_cases hgranted : ∃ t, req.type = some t ∧ ShmGranted o t (s.mem i)
      · obtain ⟨t, htype, hgranted⟩ := hgranted
        obtain ⟨hok, hfree⟩ := locShmFree_locShmAlloc htype hgranted
        rw [htype] at hfree
        have halloc : locShmAlloc o req (s.mem i) =
            (.ok (), (locShmAlloc o req (s.mem i)).2) := Prod.ext hok rfl
        simp only [ioctlShmAlloc]
        rw [halloc]
        cases copyBack with
        | true => exact iff_of_true nofun trivial
        | false =>
            simp only [Bool.false_eq_true, if_false, hfree,
              ClientMem.setShm_shm_eq_iff, NothingLost, htype,
              Option.some.injEq]
            constructor
            · rintro hempty t rfl -
              exact hempty .EFAULT rfl
            · intro hempty _ _
              exact hempty t rfl hgranted
      · have hrefused : ∀ t, req.type = some t → ¬ ShmGranted o t (s.mem i) :=
          fun t htype ht => hgranted ⟨t, htype, ht⟩
        obtain ⟨e, halloc⟩ := locShmAlloc_refused hrefused
        simp only [ioctlShmAlloc, halloc]
        refine iff_of_true (fun _ _ => trivial) ?_
        cases copyBack with
        | true => trivial
        | false => exact fun t htype ht => absurd ht (hrefused t htype)

/-- In a coherent table an entry without a kernel address is empty, so a
request for contiguous memory always restores it. -/
theorem ClientMem.Coherent.nothingLost (h : (s.mem i).Coherent)
    {o : ShmOutcome} {req : ShmAllocReq} {copyBack : Bool}
    (htype : req.type ≠ some .hugetlb) :
    NothingLost s i (.shm o (.readable req) copyBack) := by
  cases copyBack with
  | true => trivial
  | false =>
      intro t ht hgranted
      refine (h t).resolve_right ?_
      rintro ⟨-, hvirt⟩
      cases t with
      | hugetlb => exact htype ht
      | none | rw | r | w => exact hvirt (by decide) hgranted.1

/-! ## The SRAM heaps -/

/-- A request changes the heap unless it comes to no blocks or is refused. -/
theorem minimAlloc_heap_iff {mm : Minim Slot} (h : WellFormed mm)
    (uninit : DspMemRegion) (numBytes : ℕ) :
    ∃ r, minimAlloc uninit mm i numBytes = some r ∧
      (r.2 = mm ↔ mm.blocksFor numBytes = 0 ∨
        NoneFree mm (mm.blocksFor numBytes)) := by
  obtain ⟨row, hrow⟩ := h.represents
  rcases minimAlloc_cases hrow uninit i numBytes with
    ⟨hzero, heq⟩ | ⟨hk, hnone, heq⟩ |
      ⟨before, after, n, hn, hk, rfl, hkn, hbest, heq⟩
  · exact ⟨_, heq, iff_of_true rfl (Or.inl hzero)⟩
  · have hnone := (hrow.noneFree_iff hk).mpr hnone
    exact ⟨_, heq, iff_of_true rfl (Or.inr hnone)⟩
  · refine ⟨_, heq, iff_of_false ?_ ?_⟩
    · intro hsame
      have hleased := hrow.lease hk hkn i
      rw [show ({ mm with blocks := _ } : Minim Slot) = mm from hsame]
        at hleased
      have hfree := (hrow.freeCount_pos_iff hbest.plotAt).mpr rfl
      have hheld := (hleased.freeCount_pos_iff
        (plotAt_middle before _ _)).mp hfree
      cases hheld
    · rintro (hzero | hnone)
      · exact hk.ne' hzero
      · exact hnone.not_bestFree (hrow.bestFree hbest)

theorem memoryKept_setHeap_iff {l : Sram} {mm : Minim Slot} :
    MemoryKept s (s.setHeap l mm) ↔ mm = s.heap l := by
  constructor
  · intro hkept
    have hheap := congrFun hkept.heap l
    simpa only [Device.setHeap, Function.update_self] using hheap
  · rintro rfl
    rw [Device.setHeap, Function.update_eq_self]
    exact MemoryKept.refl s

theorem ioctlSramAlloc_kept_iff {l : Sram} (h : WellFormed (s.heap l))
    (uninit : DspMemRegion) (buf : UserBuf DspMemRegion) (copyBack : Bool) :
    ∃ ret s', ioctlSramAlloc l uninit buf copyBack i s = some (ret, s') ∧
      ((∀ e, ret = .error e → MemoryKept s s') ↔
        NothingLost s i (.sram l uninit buf copyBack)) := by
  cases buf with
  | fault left =>
      exact ⟨_, _, rfl, iff_of_true (fun _ _ => MemoryKept.refl s) trivial⟩
  | readable mem =>
      obtain ⟨r, halloc, hsame⟩ := minimAlloc_heap_iff (i := i) h uninit mem.size
      refine ⟨_, _, congrArg (Option.map _) halloc, ?_⟩
      cases copyBack with
      | true => exact iff_of_true nofun trivial
      | false =>
          rw [NothingLost, ← hsame, memoryKept_setHeap_iff]
          exact ⟨fun hkept => hkept .EFAULT rfl, fun heq _ _ => heq⟩

/-! ## The overlay sections -/

theorem not_memoryKept_of_reserve {t : Section}
    (hfree : s.driver.sectionFlags t = false) :
    ¬ MemoryKept s { s with driver := reserveSection i t s.driver } := by
  intro hkept
  have hflag := congrFun hkept.sectionFlags t
  simp [reserveSection, hfree] at hflag

/-- The section that an `OVERLAY_ALLOC` request finds. -/
def Driver.freeSection (d : Driver) : UserBuf ℕ → Option Section
  | .readable 2 => area2Sections.find? fun s => !d.sectionFlags s
  | .readable 3 =>
      if d.sectionFlags mlbComSectionidxArea3 then none
      else some mlbComSectionidxArea3
  | _ => none

theorem sectionFlags_of_freeSection {d : Driver} {area : UserBuf ℕ}
    {t : Section} (hfound : d.freeSection area = some t) :
    d.sectionFlags t = false := by
  unfold Driver.freeSection at hfound
  split at hfound
  · simpa using List.find?_some hfound
  · split at hfound
    next => cases hfound
    next hfree =>
      obtain rfl := Option.some.inj hfound
      exact Bool.eq_false_of_not_eq_true hfree
  · cases hfound

/-- A section that is found is reserved, and a failure to report it does not
change that. -/
theorem overlayAlloc_found {d : Driver} {area : UserBuf ℕ} {t : Section}
    (hfound : d.freeSection area = some t) (copyBack : Bool) :
    ioctlClient i (.overlayAlloc area copyBack) d =
      (if copyBack then .ok () else .error .EFAULT, reserveSection i t d) := by
  unfold Driver.freeSection at hfound
  split at hfound
  next =>
    simp only [ioctlClient, locIoctlOverlayAlloc, hfound]
    cases copyBack <;> rfl
  next =>
    split at hfound
    next => cases hfound
    next hfree =>
      obtain rfl := Option.some.inj hfound
      simp only [ioctlClient, locIoctlOverlayAlloc, hfree, Bool.not_false]
      cases copyBack <;> rfl
  next => cases hfound

theorem overlayAlloc_none {d : Driver} {area : UserBuf ℕ}
    (hnone : d.freeSection area = none) (copyBack : Bool) :
    ∃ e, ioctlClient i (.overlayAlloc area copyBack) d = (.error e, d) := by
  unfold Driver.freeSection at hnone
  split at hnone
  next =>
    simp only [ioctlClient, locIoctlOverlayAlloc, hnone]
    exact ⟨_, rfl⟩
  next =>
    have hflag : d.sectionFlags mlbComSectionidxArea3 = true := by
      by_contra hfree
      rw [if_neg hfree] at hnone
      cases hnone
    simp only [ioctlClient, locIoctlOverlayAlloc, hflag, Bool.not_true]
    exact ⟨_, rfl⟩
  next htwo hthree =>
    have hrefused : ∃ e, locIoctlOverlayAlloc i area copyBack d =
        (.error e, d) := by
      unfold locIoctlOverlayAlloc
      simp only
      split
      next => exact absurd rfl htwo
      next => exact absurd rfl hthree
      next => exact ⟨_, rfl⟩
      next => exact ⟨_, rfl⟩
    obtain ⟨e, hrefused⟩ := hrefused
    exact ⟨e, by rw [ioctlClient, hrefused]; rfl⟩

theorem nothingLost_overlay_iff {area : UserBuf ℕ} {copyBack : Bool} :
    NothingLost s i (.overlay area copyBack) ↔
      copyBack = true ∨ s.driver.freeSection area = none := by
  unfold Driver.freeSection
  cases copyBack with
  | true =>
      refine iff_of_true ?_ (Or.inl rfl)
      unfold NothingLost
      split <;> first | trivial | (next h => cases h)
  | false =>
      rw [or_iff_right Bool.false_ne_true]
      split
      next => simp [NothingLost, List.find?_eq_none]
      next => simp [NothingLost]
      next htwo hthree =>
        refine iff_of_true ?_ rfl
        unfold NothingLost
        split <;> simp_all

theorem ioctlOverlayAlloc_kept_iff (area : UserBuf ℕ) (copyBack : Bool) :
    (∀ e, (ioctlClient i (.overlayAlloc area copyBack) s.driver).1 =
        .error e →
      MemoryKept s { s with driver :=
        (ioctlClient i (.overlayAlloc area copyBack) s.driver).2 }) ↔
      NothingLost s i (.overlay area copyBack) := by
  rw [nothingLost_overlay_iff]
  cases hfound : s.driver.freeSection area with
  | none =>
      obtain ⟨e, halloc⟩ := overlayAlloc_none (i := i) hfound copyBack
      rw [halloc]
      exact iff_of_true (fun _ _ => MemoryKept.refl s) (Or.inr rfl)
  | some t =>
      rw [overlayAlloc_found hfound]
      cases copyBack with
      | true => exact iff_of_true nofun (Or.inl rfl)
      | false =>
          refine iff_of_false ?_ nofun
          intro hkept
          exact not_memoryKept_of_reserve (sectionFlags_of_freeSection hfound)
            (hkept .EFAULT rfl)

/-! ## All of them -/

/-- The heaps are well formed in every run. -/
theorem heap_wellFormed_of_reachable {ram : DspMemRegion}
    (hs : ((deviceMachine ram).restrict HandsOutAddrs).Reachable s)
    (l : Sram) : WellFormed (s.heap l) := by
  obtain ⟨row, hrow⟩ := (sound_of_reachable hs).heap l
  exact hrow.wellFormed

/-- Every allocating ioctl returns, and an error leaves everything as it was
if and only if the result could be copied back or nothing had been taken that
the ioctl does not restore. -/
theorem allocIoctl_atomic_iff (s : Device) (hheap : ∀ l, WellFormed (s.heap l))
    (filep : ℕ) (op : AllocIoctl) :
    ∃ ret s', fopsIoctlAlloc filep op s = some (ret, s') ∧
      ((∀ e, ret = .error e → MemoryKept s s') ↔
        ∀ i, s.driver.findClientByFilep filep = some i →
          NothingLost s i op) := by
  unfold fopsIoctlAlloc
  cases hfound : s.driver.findClientByFilep filep with
  | none =>
      exact ⟨_, _, rfl, iff_of_true (fun _ _ => MemoryKept.refl s) nofun⟩
  | some i =>
      have hcond : (∀ j, some i = some j → NothingLost s j op) ↔
          NothingLost s i op := by
        constructor
        · intro h
          exact h i rfl
        · rintro h _ ⟨⟩
          exact h
      rw [hcond]
      cases op with
      | shm o buf copyBack =>
          exact ⟨_, _, rfl, ioctlShmAlloc_kept_iff o buf copyBack⟩
      | sram l uninit buf copyBack =>
          exact ioctlSramAlloc_kept_iff (hheap l) uninit buf copyBack
      | overlay area copyBack =>
          exact ⟨_, _, rfl, ioctlOverlayAlloc_kept_iff area copyBack⟩

/-- A client that has registered a huge page. -/
def oneClientRun : List DeviceEvent :=
  [.file (.openFile c64DevMinor 1) 0,
    .shmAlloc 1 (.readable ⟨some .hugetlb, 0x200000, 0x40000000⟩)
      ⟨0, 0, 0x88000000⟩ true]

/-- A request for a superblock that is reported to the client. -/
theorem allocIoctl_atomic_reported :
    ∃ s : Device, s.driver.findClientByFilep 1 = some 0 ∧
      ∃ ret s', fopsIoctlAlloc 1 (.sram .l1 DspMemRegion.zero
          (.readable ⟨0, 0, 100⟩) true) s = some (ret, s') ∧
        ((∀ e, ret = .error e → MemoryKept s s') ↔
          ∀ i, s.driver.findClientByFilep 1 = some i →
            NothingLost s i (.sram .l1 DspMemRegion.zero
              (.readable ⟨0, 0, 100⟩) true)) := by
  have hrun : ∃ s, ((deviceMachine DspMemRegion.zero).restrict
      HandsOutAddrs).Reachable s ∧ s.driver.findClientByFilep 1 = some 0 :=
    Machine.exists_restrict_reachable_of_run
      (fun s : Device => s.driver.findClientByFilep 1 = some 0)
      oneClientRun (by decide +kernel)
  obtain ⟨s, hs, hfound⟩ := hrun
  exact ⟨s, hfound,
    allocIoctl_atomic_iff s (heap_wellFormed_of_reachable hs) 1 _⟩

/-- Requests whose result cannot be copied back. -/
def unreportedAllocs : List AllocIoctl :=
  [.sram .l1 DspMemRegion.zero (.readable ⟨0, 0, 100⟩) false,
    .sram .l2 DspMemRegion.zero (.readable ⟨0, 0, 100⟩) false,
    .overlay (.readable 2) false, .overlay (.readable 3) false,
    .shm ⟨0, 0, 0x88200000⟩
      (.readable ⟨some .hugetlb, 0x200000, 0x40200000⟩) false]

/-- What is looked at to tell two states apart. -/
def Device.sample (s : Device) :
    Option Slot × Option Slot × Bool × Bool × ClientShm :=
  (((s.heap .l1).block 0).owner, ((s.heap .l2).block 0).owner,
    s.driver.sectionFlags 0, s.driver.sectionFlags 4,
    (s.mem 0).shm .hugetlb)

theorem MemoryKept.sample (h : MemoryKept s s') : s'.sample = s.sample := by
  rw [Device.sample, h.heap, h.sectionFlags, h.shm, Device.sample]

/-- Superblocks and sections stay allocated, and the entry of a huge page that
had been registered before is lost. -/
theorem unreported_allocs_not_undone :
    ∃ s, ((deviceMachine DspMemRegion.zero).restrict
        HandsOutAddrs).Reachable s ∧
      ∀ op ∈ unreportedAllocs, ∃ s',
        fopsIoctlAlloc 1 op s = some (.error .EFAULT, s') ∧
          ¬ MemoryKept s s' := by
  have hrun : ∃ s, ((deviceMachine DspMemRegion.zero).restrict
      HandsOutAddrs).Reachable s ∧ ∀ op ∈ unreportedAllocs,
        ((fopsIoctlAlloc 1 op s).any fun r =>
          decide (r.1 = .error .EFAULT ∧ r.2.sample ≠ s.sample)) = true :=
    Machine.exists_restrict_reachable_of_run
      (fun s : Device => ∀ op ∈ unreportedAllocs,
        ((fopsIoctlAlloc 1 op s).any fun r =>
          decide (r.1 = .error .EFAULT ∧ r.2.sample ≠ s.sample)) = true)
      oneClientRun (by decide +kernel)
  obtain ⟨s, hs, hlost⟩ := hrun
  refine ⟨s, hs, fun op hop => ?_⟩
  obtain ⟨⟨ret, s'⟩, halloc, hdiff⟩ :=
    (Option.any_eq_true _ _).mp (hlost op hop)
  obtain ⟨rfl, hdiff⟩ := of_decide_eq_true hdiff
  exact ⟨s', halloc, fun hkept => hdiff hkept.sample⟩

end C64Tools.Kmod
