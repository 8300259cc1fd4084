import C64Tools.Kmod.Dev.Memory
import C64Tools.Kmod.Dev.Vacated

/-!
# Reusing the slot of a client

What belongs to a client is recorded in seven places under the slot of the
client.  While `fops__release` is under way it clears one after the other, and
once it has returned nothing is left for the next client of the slot.  The
records of the other clients are not touched.
-/

namespace C64Tools.Kmod

open Tiling Transition

variable {d d' : Driver} {e : Event} {i j : Slot} {ram : DspMemRegion}

/-! ## The shared memory tables -/

/-- An entry of the table is empty, or has an address, and a kernel address
too if it was allocated by the kernel. -/
def ClientShm.Valid (t : DspCache) (e : ClientShm) : Prop :=
  e = ClientShm.empty ∨
    e.dsp.physAddr ≠ 0 ∧ (t ∈ DspCache.contig → e.kvirtAddr ≠ 0)

/-- All entries of the table are valid. -/
def ClientMem.Coherent (c : ClientMem) : Prop :=
  ∀ t, (c.shm t).Valid t

variable {c : ClientMem} {t : DspCache}

theorem ClientMem.Coherent.setShm (h : c.Coherent) {entry : ClientShm}
    (he : entry.Valid t) : (c.setShm t entry).Coherent := by
  intro t'
  simp only [ClientMem.setShm, Function.update_apply]
  split
  next htt => exact htt ▸ he
  next => exact h t'

theorem ClientShm.valid_empty : ClientShm.empty.Valid t := Or.inl rfl

/-- Freeing an entry leaves it empty. -/
theorem locShmFree_eq (h : c.Coherent) :
    (locShmFree (some t) c).2 = c.setShm t ClientShm.empty := by
  have hkeep (hk : (c.shm t).kvirtAddr = 0) (ht : t ∈ DspCache.contig) :
      c = c.setShm t ClientShm.empty := by
    obtain hempty | ⟨-, hvirt⟩ := h t
    · rw [← hempty, ClientMem.setShm, Function.update_eq_self]
    · exact absurd hk (hvirt ht)
  cases t with
  | hugetlb => rfl
  | none | rw | r | w =>
      simp only [locShmFree]
      split
      · rfl
      next hk => exact hkeep (not_not.mp hk) (by decide)

theorem locShmFree_coherent (h : c.Coherent) (type : Option DspCache) :
    (locShmFree type c).2.Coherent := by
  cases type with
  | none => exact h
  | some t =>
      rw [locShmFree_eq h]
      exact h.setShm ClientShm.valid_empty

theorem locShmAlloc_coherent (h : c.Coherent) {o : ShmOutcome}
    (ho : o.kVirtAddr ≠ 0 → o.dmaAddr ≠ 0) (req : ShmAllocReq) :
    (locShmAlloc o req c).2.Coherent := by
  unfold locShmAlloc
  split
  next =>
    split
    next hphys => exact h.setShm (Or.inr ⟨hphys, fun ht => absurd ht (by decide)⟩)
    next => exact h
  next =>
    split
    · split
      next hvirt => exact h.setShm (Or.inr ⟨ho hvirt, fun _ => hvirt⟩)
      next => exact h
    · exact h
  next => exact h

theorem ioctlShmAlloc_coherent (h : c.Coherent) {o : ShmOutcome}
    (ho : o.kVirtAddr ≠ 0 → o.dmaAddr ≠ 0) (buf : UserBuf ShmAllocReq)
    (copyBack : Bool) : (ioctlShmAlloc o buf copyBack c).2.Coherent := by
  unfold ioctlShmAlloc
  split
  next req =>
    have halloc := locShmAlloc_coherent h ho req
    split
    next c' heq =>
      rw [heq] at halloc
      cases copyBack with
      | true => exact halloc
      | false => exact locShmFree_coherent halloc req.type
    next heq =>
      rw [heq] at halloc
      exact halloc
  next => exact h

/-- An area is not mapped if it has no room. -/
theorem mapArea_ne_ok {remapped : Bool} {vma : Vma} {area : DspMemRegion} :
    mapArea remapped vma area 0 ≠ .ok () := by
  have hlt := vma.start_lt_end
  have hsize : ¬ vma.vmEnd - vma.vmStart ≤ 0 := by omega
  unfold mapArea
  rw [if_neg hsize]
  split <;> simp

theorem fopsMmap_coherent (h : c.Coherent) (remapped : Bool) (vma : Vma)
    (sections : Section → Option DspMemRegion) :
    (fopsMmap remapped vma sections c).2.Coherent := by
  unfold fopsMmap
  simp only
  split
  next t ht =>
    split
    next hmap =>
      refine h.setShm ?_
      obtain hempty | hvalid := h t
      · rw [hempty] at hmap
        exact absurd hmap mapArea_ne_ok
      · exact Or.inr hvalid
    next => exact h
  next => repeat' split
          all_goals exact h

/-- The loop of `fops__release` empties the table. -/
theorem freeShm_shm (h : c.Coherent) (t : DspCache) :
    (freeShm c).shm t = ClientShm.empty := by
  have hturn {c : ClientMem} (h : c.Coherent) (t : DspCache) :
      (if (c.shm t).dsp.physAddr ≠ 0 then (locShmFree (some t) c).2 else c) =
        c.setShm t ClientShm.empty := by
    split
    next => exact locShmFree_eq h
    next hphys =>
      have hempty := (h t).resolve_right fun hv => hphys hv.1
      rw [← hempty, ClientMem.setShm, Function.update_eq_self]
  have hset {c : ClientMem} (h : c.Coherent) (t : DspCache) :
      (c.setShm t ClientShm.empty).Coherent := h.setShm ClientShm.valid_empty
  have hnone := hset h .none
  have hrw := hset hnone .rw
  have hr := hset hrw .r
  have hw := hset hr .w
  simp only [freeShm, DspCache.all, List.foldl_cons, List.foldl_nil, hturn h,
    hturn hnone, hturn hrw, hturn hr, hturn hw]
  cases t <;> rfl

/-! ## The memory of a client that has gone -/

/-- The client whose memory `fops__release` has still to free. -/
def Crit.holding : Crit → Option Slot
  | .relCurrent i | .relFastcall i | .relFree i => some i
  | _ => none

/-- No memory is recorded for slot `i`. -/
structure Device.MemFree (s : Device) (i : Slot) : Prop where
  mem : s.mem i = ClientMem.initial
  sram : ∀ l k, ((s.heap l).block k).owner ≠ some i

variable {s s' : Device} {turns : ℕ}

/-- What the freeing of the memory of client `i` achieves. -/
structure MemReleased (s : Device) (i : Slot) (s' : Device) : Prop where
  driver : s'.driver = s.driver
  mem : s'.mem = Function.update s.mem i ClientMem.initial
  heap : ∀ l, ReleasesAll (s.heap l) i (s'.heap l)
  rows : ∀ l, ∃ row, Represents (s'.heap l) row

theorem releaseMemory_released (hshm : (s.mem i).Coherent)
    (hheap : ∀ l, ∃ row, Represents (s.heap l) row)
    (h : releaseMemory turns i s = some s') : MemReleased s i s' := by
  obtain ⟨l1, hl1, h⟩ := Option.bind_eq_some_iff.mp h
  obtain ⟨l2, hl2, rfl⟩ := Option.map_eq_some_iff.mp h
  have hafter {l : Sram} {mm : Minim Slot}
      (hmm : minimFreeByClient turns (s.heap l) i = some mm) :
      ReleasesAll (s.heap l) i mm ∧ ∃ row, Represents mm row := by
    obtain ⟨row, hrow⟩ := hheap l
    obtain ⟨row', hrow', -⟩ := freeByClientFrom_rebuilt hrow hmm
    exact ⟨releasesAll_of_returns hrow ⟨turns, hmm⟩, row', hrow'⟩
  refine ⟨rfl, ?_, fun l => ?_, fun l => ?_⟩
  · have hempty : { freeShm (s.mem i) with
        l1sramFshm := DspMemRegion.zero
        l2sramFshm := DspMemRegion.zero
        logbuf := DspMemRegion.zero } = ClientMem.initial := by
      rw [ClientMem.initial, ClientMem.mk.injEq]
      exact ⟨funext (freeShm_shm hshm), rfl, rfl, rfl⟩
    simp only [Device.setHeap, Device.setMem, hempty]
  · cases l with
    | l1 => exact (hafter hl1).1
    | l2 => exact (hafter hl2).1
  · cases l with
    | l1 => exact (hafter hl1).2
    | l2 => exact (hafter hl2).2

theorem MemReleased.memFree (h : MemReleased s i s') : s'.MemFree i where
  mem := by rw [h.mem, Function.update_self]
  sram l := (h.heap l).none_left

theorem MemReleased.memFree_other (h : MemReleased s i s') (hj : s.MemFree j) :
    s'.MemFree j where
  mem := by
    rw [h.mem, Function.update_apply]
    split
    · rfl
    · exact hj.mem
  sram l k howner := hj.sram l k ((h.heap l).none_new k j howner)

/-- A step frees the memory of the client that is released, or touches no
memory. -/
theorem memoryStep_cases (h : memoryStep turns s e = some s') :
    (s' = s ∧ ∀ i o, e = .proc o → s.driver.crit ≠ .relFree i) ∨
      ∃ i o, e = .proc o ∧ s.driver.crit = .relFree i ∧
        releaseMemory turns i s = some s' := by
  unfold memoryStep at h
  split at h
  next o =>
    split at h
    next i hcrit => exact Or.inr ⟨i, o, rfl, hcrit, h⟩
    next hcrit =>
      exact Or.inl ⟨(Option.some.inj h).symm, fun i _ _ => hcrit i⟩
  next hproc =>
    exact Or.inl ⟨(Option.some.inj h).symm, fun _ o he => absurd he (hproc o)⟩

/-- `fops__release` goes on to the sections only by freeing the memory. -/
theorem holding_of_step (hstep : DriverStep d e d')
    (h : d.crit.holding = some i) :
    d'.crit.holding = some i ∨ d.crit = .relFree i ∧ ∃ o, e = .proc o := by
  cases hstep with
  | nothingToRead | ioctlUnknown | openFailed | opened | readFound | readCopied
  | readFailed | answered | irqReply | irqIgnored => exact Or.inl h
  | ioctl _ _ heff => exact Or.inl (by rw [heff.undisturbed.crit, h])
  | relNotCurrent hcrit | relIsCurrent hcrit | relFastcall hcrit =>
      rw [hcrit] at h
      exact Or.inl h
  | @relFree o k hcrit =>
      rw [hcrit] at h
      obtain rfl := Option.some.inj h
      exact Or.inr ⟨hcrit, o, rfl⟩
  | released hcrit | writeMsg hcrit | writeFault hcrit | writeTest hcrit
  | writeError hcrit | setCurrent hcrit | setPending hcrit | send hcrit
  | resetCurrent hcrit | resetState hcrit | testCurrent hcrit | relHeld hcrit
  | relNotHeld hcrit | relChecked hcrit | relReady hcrit | relTimeout hcrit
  | relMark hcrit | relReset hcrit | relSynced hcrit | relBusy hcrit =>
      simp [hcrit, Crit.holding] at h

/-! ## Every run -/

/-- Nothing is recorded for the slot of a client that has gone, except what
`fops__release` has still to clear. -/
structure Device.Sound (s : Device) : Prop where
  driver : DriverSound s.driver
  shm : ∀ i, (s.mem i).Coherent
  heap : ∀ l, ∃ row, Represents (s.heap l) row
  memFree : ∀ i, (s.driver.clients i).state = .unused →
    s.driver.crit.holding ≠ some i → s.MemFree i

theorem initial_sound (ram : DspMemRegion) : (Device.initial ram).Sound where
  driver := initial_driverSound
  shm _ _ := ClientShm.valid_empty
  heap l := ⟨_, minimInit_represents l.config.numBlocks_pos _ _⟩
  memFree i _ _ := by
    refine ⟨rfl, fun l k howner => ?_⟩
    obtain ⟨n, p, hp, hclient, -⟩ :=
      (minimInit_represents l.config.numBlocks_pos _ _).exists_holds howner
    obtain rfl := List.mem_singleton.mp hp.mem
    cases hclient

namespace Device.Sound

/-- A step of the driver. -/
theorem file (h : s.Sound) {e : Event}
    (hnext : deviceNext s (.file e turns) = some s') : s'.Sound := by
  obtain ⟨d', hd', hmap⟩ := Option.bind_eq_some_iff.mp hnext
  obtain ⟨t, ht, rfl⟩ := Option.map_eq_some_iff.mp hmap
  have hstep := driverNext_step hd'
  have hslots := h.driver.slots
  have hdriver := h.driver.next hd'
  obtain ⟨rfl, hother⟩ | ⟨k, o, rfl, hcrit, hrelease⟩ := memoryStep_cases ht
  · refine ⟨hdriver, h.shm, h.heap, fun i hunused hholding => ?_⟩
    obtain hbefore | ⟨hrel, -⟩ := unused_cases hslots hstep hunused
    · have hfree : t.MemFree i := by
        refine h.memFree i hbefore fun hheld => ?_
        obtain hheld | ⟨hfree, o, rfl⟩ := holding_of_step hstep hheld
        · exact hholding hheld
        · exact hother i o rfl hfree
      exact ⟨hfree.mem, hfree.sram⟩
    · exact absurd (by rw [hrel]; rfl) hholding
  · have hreleased := releaseMemory_released (h.shm k) h.heap hrelease
    refine ⟨hdriver, fun i => ?_, hreleased.rows, fun i hunused _ => ?_⟩
    · rw [hreleased.mem, Function.update_apply]
      split
      · exact fun _ => ClientShm.valid_empty
      · exact h.shm i
    · have hfree : t.MemFree i := by
        by_cases hik : i = k
        · rw [hik]
          exact hreleased.memFree
        · have hbefore := (hslots.unused_iff hstep nofun nofun i).mp hunused
          refine hreleased.memFree_other (h.memFree i hbefore ?_)
          rw [hcrit]
          exact fun hki => hik (Option.some.inj hki).symm
      exact ⟨hfree.mem, hfree.sram⟩

/-- A call that changes the memory table of a connected client. -/
theorem setMem (h : s.Sound) {k : Slot} {c : ClientMem}
    (hk : (s.driver.clients k).state ≠ .unused) (hc : c.Coherent) :
    (s.setMem k c).Sound where
  driver := h.driver
  shm i := by
    simp only [Device.setMem, Function.update_apply]
    split
    · exact hc
    · exact h.shm i
  heap := h.heap
  memFree i hunused hholding := by
    have hfree := h.memFree i hunused hholding
    have hik : i ≠ k := by
      rintro rfl
      exact hk hunused
    refine ⟨?_, hfree.sram⟩
    simp only [Device.setMem, Function.update_of_ne hik]
    exact hfree.mem

/-- A call that changes a heap for a connected client. -/
theorem setHeap (h : s.Sound) {k : Slot} {l : Sram} {mm : Minim Slot}
    (hk : (s.driver.clients k).state ≠ .unused)
    (hrow : ∃ row, Represents mm row)
    (howner : ∀ n i, (mm.block n).owner = some i →
      ((s.heap l).block n).owner = some i ∨ i = k) :
    (s.setHeap l mm).Sound where
  driver := h.driver
  shm := h.shm
  heap l' := by
    simp only [Device.setHeap, Function.update_apply]
    split
    · exact hrow
    · exact h.heap l'
  memFree i hunused hholding := by
    have hfree := h.memFree i hunused hholding
    refine ⟨hfree.mem, fun l' n => ?_⟩
    simp only [Device.setHeap, Function.update_apply]
    split
    · intro hi
      obtain hi | rfl := howner n i hi
      · exact hfree.sram l n hi
      · exact hk hunused
    · exact hfree.sram l' n

theorem sramAlloc (h : s.Sound) {k : Slot} {l : Sram} {uninit : DspMemRegion}
    {buf : UserBuf DspMemRegion} {copyBack : Bool} {r : Ret × Device}
    (hk : (s.driver.clients k).state ≠ .unused)
    (halloc : ioctlSramAlloc l uninit buf copyBack k s = some r) :
    r.2.Sound := by
  unfold ioctlSramAlloc at halloc
  cases buf with
  | readable mem =>
      obtain ⟨⟨region, mm⟩, hmm, rfl⟩ := Option.map_eq_some_iff.mp halloc
      obtain ⟨row, hrow⟩ := h.heap l
      obtain ⟨row', hrow', -⟩ := minimAlloc_rebuilt hrow hmm
      exact h.setHeap hk ⟨row', hrow'⟩ fun n i hi =>
        minimAlloc_owner hrow hmm hi
  | fault left =>
      obtain rfl := Option.some.inj halloc
      exact h

theorem sramFree (h : s.Sound) {k : Slot} (l : Sram)
    (buf : UserBuf DspMemRegion) (hk : (s.driver.clients k).state ≠ .unused) :
    (ioctlSramFree l buf k s).2.Sound := by
  cases buf with
  | readable mem =>
      obtain ⟨row, hrow⟩ := h.heap l
      obtain ⟨row', hrow', -⟩ := @minimFree_rebuilt _ _ _ _ k hrow mem
      exact h.setHeap hk ⟨row', hrow'⟩ fun n i hi =>
        Or.inl (minimFree_owner hrow hi)
  | fault left => exact h

theorem step (h : s.Sound) {e : DeviceEvent} (hok : HandsOutAddrs s e)
    (hnext : deviceNext s e = some s') : s'.Sound := by
  have hconn {filep : ℕ} {k : Slot}
      (hfound : s.driver.findClientByFilep filep = some k) :
      (s.driver.clients k).state ≠ .unused :=
    (Driver.findClientByFilep_some hfound).2
  cases e with
  | file e turns => exact h.file hnext
  | shmAlloc filep buf o copyBack =>
      simp only [deviceNext] at hnext
      split at hnext <;> obtain rfl := Option.some.inj hnext
      next k hfound =>
        exact h.setMem (hconn hfound)
          (ioctlShmAlloc_coherent (h.shm k) hok buf copyBack)
      next => exact h
  | shmFree filep type =>
      simp only [deviceNext] at hnext
      split at hnext <;> obtain rfl := Option.some.inj hnext
      next k hfound =>
        exact h.setMem (hconn hfound) (locShmFree_coherent (h.shm k) type)
      next => exact h
  | sramAlloc filep l uninit buf copyBack =>
      obtain ⟨-, hnext⟩ := Option.ite_none_right_eq_some.mp hnext
      split at hnext
      next k hfound =>
        obtain ⟨r, hr, rfl⟩ := Option.map_eq_some_iff.mp hnext
        exact h.sramAlloc (hconn hfound) hr
      next =>
        obtain rfl := Option.some.inj hnext
        exact h
  | sramFree filep l buf =>
      obtain ⟨-, hnext⟩ := Option.ite_none_right_eq_some.mp hnext
      split at hnext
      next k hfound =>
        obtain rfl := Option.some.inj hnext
        exact h.sramFree l buf (hconn hfound)
      next =>
        obtain rfl := Option.some.inj hnext
        exact h
  | mmap filep vma remapped =>
      simp only [deviceNext] at hnext
      split at hnext <;> obtain rfl := Option.some.inj hnext
      next k hfound =>
        exact h.setMem (hconn hfound)
          (fopsMmap_coherent (h.shm k) remapped vma _)
      next => exact h

end Device.Sound

theorem sound_of_reachable
    (hs : ((deviceMachine ram).restrict HandsOutAddrs).Reachable s) :
    s.Sound := by
  refine hs.invariant ?_ ?_
  · rintro s rfl
    exact initial_sound ram
  · rintro s e s' h ⟨hok, hnext⟩
    exact h.step hok hnext

/-! ## What a release leaves alone -/

/-- A step of `fops__release` for client `i`. -/
def Releases (s : Device) (i : Slot) : DeviceEvent → Prop
  | .file (.releaseFile filep) _ => s.driver.findClientByFilep filep = some i
  | .file (.proc _) _ =>
      s.driver.crit.releasing = some i ∨ s.driver.crit = .relSync
  | _ => False

/-- The driver still knows the same of client `j`, and if the client waits for
a reply, the reply is still to come. -/
structure DriverKept (d d' : Driver) (j : Slot) : Prop where
  client : d'.clients j = d.clients j
  current : d'.currentClient = some j ↔ d.currentClient = some j
  power : j ∈ d'.powerMask ↔ j ∈ d.powerMask
  reply : d.Waits j → d'.unanswered = d.unanswered ∧ d'.inbox = d.inbox ∧
    (d.power.executing = true → d'.power = d.power)

/-- Everything that is recorded for client `j` is still recorded. -/
structure ClientKept (s s' : Device) (j : Slot) : Prop where
  driver : DriverKept s.driver s'.driver j
  mem : s'.mem j = s.mem j
  sram : ∀ l k, ((s'.heap l).block k).owner = some j ↔
    ((s.heap l).block k).owner = some j
  blocks : ∀ l k, ((s.heap l).block k).owner = some j →
    (s'.heap l).block k = (s.heap l).block k

/-- No trace of a former client is left in the slot. -/
structure Device.SlotClean (s : Device) (i : Slot) : Prop where
  mem : s.mem i = ClientMem.initial
  sram : ∀ l k, ((s.heap l).block k).owner ≠ some i
  sections : (s.driver.clients i).NoSections
  power : i ∉ s.driver.powerMask
  current : s.driver.currentClient ≠ some i

theorem DriverKept.refl (d : Driver) (j : Slot) : DriverKept d d j :=
  ⟨rfl, Iff.rfl, Iff.rfl, fun _ => ⟨rfl, rfl, fun _ => rfl⟩⟩

theorem DriverKept.trans {d'' : Driver} (h : DriverKept d d' j)
    (h' : DriverKept d' d'' j) : DriverKept d d'' j where
  client := h'.client.trans h.client
  current := h'.current.trans h.current
  power := h'.power.trans h.power
  reply hwaits := by
    obtain ⟨hun, hin, hpower⟩ := h.reply hwaits
    have hwaits' : d'.Waits j :=
      ⟨h.current.mpr hwaits.1, by rw [h.client, hwaits.2]⟩
    obtain ⟨hun', hin', hpower'⟩ := h'.reply hwaits'
    refine ⟨hun'.trans hun, hin'.trans hin, fun hexec => ?_⟩
    rw [hpower' (by rw [hpower hexec, hexec]), hpower hexec]

theorem ClientKept.refl (s : Device) (j : Slot) : ClientKept s s j :=
  ⟨DriverKept.refl _ j, rfl, fun _ _ => Iff.rfl, fun _ _ _ => rfl⟩

theorem ClientKept.trans {s'' : Device} (h : ClientKept s s' j)
    (h' : ClientKept s' s'' j) : ClientKept s s'' j where
  driver := h.driver.trans h'.driver
  mem := h'.mem.trans h.mem
  sram l k := (h'.sram l k).trans (h.sram l k)
  blocks l k hk := (h'.blocks l k ((h.sram l k).mpr hk)).trans (h.blocks l k hk)

/-- The call of `fops__release` itself. -/
theorem driverKept_of_release {filep : ℕ} (hji : j ≠ i)
    (hfound : d.findClientByFilep filep = some i)
    (hnext : driverNext d (.releaseFile filep) = some d') :
    DriverKept d d' j := by
  obtain ⟨-, heq⟩ := Option.ite_none_right_eq_some.mp hnext
  obtain rfl := Option.some.inj heq
  have hfound' : ({ d with numOpen := d.numOpen - 1 } : Driver).findClientByFilep
      filep = some i := hfound
  simp only [fopsRelease, hfound']
  exact ⟨Function.update_of_ne hji _ _, Iff.rfl, by simp [hji],
    fun _ => ⟨rfl, rfl, fun _ => rfl⟩⟩

/-- The steps that it takes afterwards. -/
theorem driverKept_of_proc (h : DriverSound d) {o : ProcOutcome} (hji : j ≠ i)
    (hrel : d.crit.releasing = some i ∨ d.crit = .relSync)
    (hnext : driverNext d (.proc o) = some d') : DriverKept d d' j := by
  have hbusy (hwaits : d.Waits j) := h.phase j hwaits
  simp only [Driver.WaitPhase] at hbusy
  cases driverNext_step hnext with
  | setCurrent hcrit | setPending hcrit | resetCurrent hcrit | resetState hcrit
  | testCurrent hcrit => simp [hcrit, Crit.releasing] at hrel
  | @send _ who next hcrit =>
      have hkeep := mlbSendToDsp_keeps who next o.fifoFull d
      refine ⟨by rw [hkeep.clients], by rw [hkeep.currentClient],
        by rw [hkeep.powerMask], fun hwaits => ?_⟩
      -- an emergency unload is sent only when no client waits
      have hphase := hbusy hwaits
      rw [hcrit] at hphase hrel
      cases who with
      | client => simp [Crit.releasing] at hrel
      | test | emergency => exact hphase.elim
  | relNotCurrent | relIsCurrent | relNotHeld | relChecked | relReady
  | relTimeout | relMark | relBusy =>
      exact ⟨rfl, Iff.rfl, Iff.rfl, fun _ => ⟨rfl, rfl, fun _ => rfl⟩⟩
  | @relFastcall _ k hcrit =>
      obtain rfl : k = i := by simpa [hcrit, Crit.releasing] using hrel
      have hcur := h.fastcall k hcrit
      refine ⟨rfl, ?_, Iff.rfl, fun _ => ⟨rfl, rfl, fun _ => rfl⟩⟩
      simp [hcur, hji.symm]
  | @relFree _ k hcrit | @relReset _ k hcrit =>
      obtain rfl : k = i := by simpa [hcrit, Crit.releasing] using hrel
      exact ⟨Function.update_of_ne hji _ _, Iff.rfl, Iff.rfl,
        fun _ => ⟨rfl, rfl, fun _ => rfl⟩⟩
  | relHeld hcrit =>
      refine ⟨rfl, Iff.rfl, Iff.rfl, fun _ => ⟨rfl, rfl, fun hexec => ?_⟩⟩
      have hon : d.dsp.dspState ≠ .off := by
        intro hoff
        rw [h.offIdle hoff] at hexec
        cases hexec
      exact congrArg DspC64.toPower (dspResume_of_on hon _)
  | relSynced hcrit hready =>
      refine ⟨rfl, Iff.rfl, Iff.rfl, fun hwaits => ?_⟩
      have hphase := hbusy hwaits
      rw [hcrit] at hphase
      cases hready.symm.trans hphase

/-- A step of the release of one client leaves the records of all others
alone. -/
theorem clientKept_of_releases (h : s.Sound) {e : DeviceEvent}
    (hrel : Releases s i e) (hnext : deviceNext s e = some s') (hji : j ≠ i) :
    ClientKept s s' j := by
  unfold Releases at hrel
  split at hrel
  next filep turns =>
    obtain ⟨d', hd', hmap⟩ := Option.bind_eq_some_iff.mp hnext
    obtain rfl := Option.some.inj hmap
    exact ⟨driverKept_of_release hji hrel hd', rfl, fun _ _ => Iff.rfl,
      fun _ _ _ => rfl⟩
  next o turns =>
    obtain ⟨d', hd', hmap⟩ := Option.bind_eq_some_iff.mp hnext
    obtain ⟨t, ht, rfl⟩ := Option.map_eq_some_iff.mp hmap
    have hdriver := driverKept_of_proc h.driver hji hrel hd'
    obtain ⟨rfl, -⟩ | ⟨k, -, -, hcrit, hrelease⟩ := memoryStep_cases ht
    · exact ⟨hdriver, rfl, fun _ _ => Iff.rfl, fun _ _ _ => rfl⟩
    · obtain rfl : k = i := by simpa [hcrit, Crit.releasing] using hrel
      have hreleased := releaseMemory_released (h.shm k) h.heap hrelease
      refine ⟨hdriver, ?_, fun l n => ⟨fun hn => ?_, fun hn => ?_⟩,
        fun l n hn => (hreleased.heap l).others_kept n j hji hn⟩
      · simp only [hreleased.mem, Function.update_of_ne hji]
      · exact (hreleased.heap l).none_new n j hn
      · simp only [(hreleased.heap l).others_kept n j hji hn, hn]
  next => exact hrel.elim

/-- `fops__open` connects its client in a slot that is clean. -/
theorem slotClean_of_open (h : s.Sound) {minor filep : ℕ}
    (hnext : deviceNext s (.file (.openFile minor filep) turns) = some s')
    (hunused : (s.driver.clients i).state = .unused)
    (hconn : (s'.driver.clients i).state ≠ .unused) : s'.SlotClean i := by
  obtain ⟨d', hd', hmap⟩ := Option.bind_eq_some_iff.mp hnext
  obtain rfl := Option.some.inj hmap
  have hvacated := h.driver.vacated i hunused
  cases driverNext_step hd' with
  | openFailed => exact absurd hunused hconn
  | @opened _ _ _ k hcrit =>
      have hfree := h.memFree i hunused (by simp [hcrit, Crit.holding])
      have hsections := hvacated.sections (by simp [hcrit, Crit.releasing])
      refine ⟨hfree.mem, hfree.sram, ?_, hvacated.power, fun hcur => ?_⟩
      · exact noSections_update hsections (by rintro rfl; exact hsections)
      · exact absurd (hvacated.current hcur) (by simp [hcrit])

/-- A release goes on for the same client until it returns. -/
theorem releasing_step {o : ProcOutcome}
    (hrel : d.crit.releasing = some i ∨ d.crit = .relSync)
    (hstep : DriverStep d (.proc o) d') :
    d'.crit.releasing = some i ∨ d'.crit = .relSync ∨ d'.crit = .idle := by
  cases hstep with
  | setCurrent hcrit | setPending hcrit | resetCurrent hcrit | resetState hcrit
  | testCurrent hcrit => simp [hcrit, Crit.releasing] at hrel
  | @send _ who next hcrit =>
      left
      rw [(mlbSendToDsp_crit who next o.fifoFull d).1, ← hcrit]
      exact hrel.resolve_right (by simp [hcrit])
  | relReset =>
      right
      simp only
      split_ifs
      · exact Or.inl rfl
      · exact Or.inr rfl
  | relSynced | relBusy => exact Or.inr (Or.inr rfl)
  | relNotCurrent hcrit | relIsCurrent hcrit | relFastcall hcrit
  | relFree hcrit | relHeld hcrit | relNotHeld hcrit | relChecked hcrit
  | relReady hcrit | relTimeout hcrit | relMark hcrit =>
      rw [hcrit] at hrel
      exact Or.inl (hrel.resolve_right (by simp))

/-- Induction over the steps of a release that nothing interrupts. -/
theorem clientKept_of_procs {os : List ProcOutcome} (h : s.Sound)
    (hrel : s.driver.crit.releasing = some i ∨ s.driver.crit = .relSync ∨
      s.driver.crit = .idle)
    (hrun : Machine.follow deviceNext s
      (os.map fun o => .file (.proc o) turns) = some s')
    (hji : j ≠ i) : ClientKept s s' j := by
  induction os generalizing s with
  | nil =>
      obtain rfl := Option.some.inj hrun
      exact ClientKept.refl s j
  | cons o os ih =>
      obtain ⟨t, ht, hrest⟩ := Option.bind_eq_some_iff.mp hrun
      obtain ⟨d', hd', hmap⟩ := Option.bind_eq_some_iff.mp ht
      obtain ⟨m, hm, rfl⟩ := Option.map_eq_some_iff.mp hmap
      have hbusy : s.driver.crit.releasing = some i ∨
          s.driver.crit = .relSync := by
        refine hrel.imp_right fun hrel => hrel.resolve_right fun hidle => ?_
        simp [driverNext, procStep, hidle] at hd'
      have hkept := clientKept_of_releases (e := .file (.proc o) turns) h hbusy
        ht hji
      exact hkept.trans (ih (h.file ht)
        (releasing_step hbusy (driverNext_step hd')) hrest)

/-- The steps of a release that nothing interrupts. -/
def releaseSteps (filep turns : ℕ) (os : List ProcOutcome) : List DeviceEvent :=
  .file (.releaseFile filep) turns :: os.map fun o => .file (.proc o) turns

/-- In every run, the slot that `fops__open` gives to a new client is clean;
every step of a release, whatever happens between the steps, leaves the
records of all other clients alone; and so does the release as a whole. -/
theorem reused_slot_clean
    (hs : ((deviceMachine ram).restrict HandsOutAddrs).Reachable s) :
    (∀ minor filep turns s' i,
      deviceNext s (.file (.openFile minor filep) turns) = some s' →
      (s.driver.clients i).state = .unused →
      (s'.driver.clients i).state ≠ .unused → s'.SlotClean i) ∧
    (∀ e s' i j, Releases s i e → deviceNext s e = some s' → j ≠ i →
      ClientKept s s' j) ∧
    ∀ filep turns os s' i j, s.driver.findClientByFilep filep = some i →
      Machine.follow deviceNext s (releaseSteps filep turns os) = some s' →
      j ≠ i → ClientKept s s' j := by
  have h := sound_of_reachable hs
  refine ⟨fun _ _ _ _ _ => slotClean_of_open h,
    fun _ _ _ _ => clientKept_of_releases h, ?_⟩
  intro filep turns os s' i j hfound hrun hji
  obtain ⟨t, ht, hrest⟩ := Option.bind_eq_some_iff.mp hrun
  have hkept := clientKept_of_releases (e := .file (.releaseFile filep) turns)
    h hfound ht hji
  refine hkept.trans (clientKept_of_procs (h.file ht) (Or.inl ?_) hrest hji)
  obtain ⟨d', hd', hmap⟩ := Option.bind_eq_some_iff.mp ht
  obtain rfl := Option.some.inj hmap
  obtain ⟨-, heq⟩ := Option.ite_none_right_eq_some.mp hd'
  obtain rfl := Option.some.inj heq
  have hfound' : ({ s.driver with numOpen := s.driver.numOpen - 1 } : Driver
      ).findClientByFilep filep = some i := hfound
  simp only [fopsRelease, hfound', Crit.releasing]

/-- A client that has allocated and mapped memory, and reserved a section,
leaves while another one stays. -/
def leavingRun : List DeviceEvent :=
  [.file (.openFile c64DevMinor 1) 0, .file (.openFile c64DevMinor 2) 0,
    .shmAlloc 1 (.readable ⟨some .rw, 5000, 0⟩) ⟨0xc8000000, 0x87000000, 0⟩ true,
    .shmAlloc 1 (.readable ⟨some .hugetlb, 0x200000, 0x40000000⟩)
      ⟨0, 0, 0x88000000⟩ true,
    .sramAlloc 1 .l1 DspMemRegion.zero (.readable ⟨0, 0, 100⟩) true,
    .sramAlloc 2 .l2 DspMemRegion.zero (.readable ⟨0, 0, 100⟩) true,
    .mmap 1 ⟨0x86002, 0x50000000, 0x50004000, by decide⟩ true,
    .mmap 1 ⟨0x87000, 0x60000000, 0x60001000, by decide⟩ true,
    .file (.ioctl 1 (.overlayAlloc (.readable 2) true)) 0,
    .file (.ioctl 1 (.resume ⟨fun _ => true, true⟩)) 0,
    .file (.ioctl 2 (.resume ⟨fun _ => true, true⟩)) 0] ++
    releaseSteps 1 9 (List.replicate 15 .smooth)

/-- The first slot belongs to file 3, and the other client has kept its
superblock. -/
def Device.Reopened (s : Device) : Prop :=
  (s.driver.clients 0).state ≠ .unused ∧
    (s.driver.clients 0).filep = some 3 ∧
    ((s.heap .l2).block 0).owner = some 1

instance (s : Device) : Decidable s.Reopened := by
  unfold Device.Reopened
  infer_instance

/-- The slot of the client that left is opened again. -/
theorem leavingRun_slotClean :
    ∃ s : Device, s.SlotClean 0 ∧ s.Reopened := by
  have hrun : ∃ s, ((deviceMachine DspMemRegion.zero).restrict
      HandsOutAddrs).Reachable s ∧ (s.driver.clients 0).state = .unused ∧
      (deviceNext s (.file (.openFile c64DevMinor 3) 0)).any
        (decide <| Device.Reopened ·) = true :=
    Machine.exists_restrict_reachable_of_run
      (fun s : Device => (s.driver.clients 0).state = .unused ∧
        (deviceNext s (.file (.openFile c64DevMinor 3) 0)).any
          (decide <| Device.Reopened ·) = true)
      leavingRun (by decide +kernel)
  obtain ⟨s, hs, hunused, hany⟩ := hrun
  obtain ⟨s', hnext, hs'⟩ := (Option.any_eq_true _ _).mp hany
  have hreopened := of_decide_eq_true hs'
  exact ⟨s', (reused_slot_clean hs).1 _ _ _ s' 0 hnext hunused hreopened.1,
    hreopened⟩

end C64Tools.Kmod
