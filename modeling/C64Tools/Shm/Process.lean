import C64Tools.Shm.Agreement
import C64Tools.Shm.Free

/-!
# A process that shares memory with the DSP

A process opens the device, and allocates and frees shared memory as often as it
likes, while the other processes, the DSP and the interrupt handler go on.  In
every run its table agrees with that of the driver, and `dsp_close()` leaves
nothing in the driver, even where an allocation has failed half way.
-/

namespace C64Tools.Shm

open C64Tools.Kmod Transition Calls

/-- The device, and the tables of a process that has opened it. -/
structure ShmSystem where
  device : Device
  regions : Regions

/-- A step of the others, or a call of the process with its result. -/
inductive ShmAction where
  | other (e : DeviceEvent)
  | alloc (type : Option DspCache) (numBytes : ℕ) (mem : DspMemRegion)
  | free (mem : DspMemRegion) (ret : ℤ)

/-- `fops__open` has just returned for a new file. -/
def JustOpened (ram : DspMemRegion) (filep : ℕ) (s : Device) : Prop :=
  ∃ before minor turns,
    ((deviceMachine ram).restrict HandsOutAddrs).Reachable before ∧
    before.driver.findClientByFilep filep = none ∧
    deviceNext before (.file (.openFile minor filep) turns) = some s ∧
    s.driver.findClientByFilep filep ≠ none

/-- The runs of a process whose calls have outcomes `ok`. -/
def shmSystem (ram : DspMemRegion) (filep l1Virt l2Virt : ℕ)
    (ok : KernelOutcome → Prop) : Machine ShmSystem ShmAction where
  init s := JustOpened ram filep s.device ∧
    s.regions = Regions.opened l1Virt l2Virt
  step s a s' :=
    match a with
    | .other e => Elsewhere filep s.device e ∧ HandsOutAddrs s.device e ∧
        deviceNext s.device e = some s'.device ∧ s'.regions = s.regions
    | .alloc type numBytes mem => (shmShared filep ok).Returns
        (dspShmAllocAtCalls type numBytes s.regions) s.device
        (mem, s'.regions) s'.device
    | .free mem ret => (shmShared filep ok).Returns
        (dspShmFreeCalls mem s.regions) s.device (ret, s'.regions) s'.device

variable {ram : DspMemRegion} {filep l1Virt l2Virt : ℕ}
  {ok : KernelOutcome → Prop} {i : Slot} {tbl tbl' : ShmTable} {r : Regions}
  {s s' : ShmSystem} {d : Device} {held : DspCache → Option Held}
  {type : Option DspCache} {numBytes : ℕ}

/-! ## The invariant -/

/-- A file that has just been opened has a client without shared memory. -/
theorem owns_of_justOpened (h : JustOpened ram filep d) :
    ∃ i, Owns filep i (fun _ => ClientShm.empty) d := by
  obtain ⟨before, minor, turns, hbefore, hnone, hnext, hsome⟩ := h
  have hsound := sound_of_reachable hbefore
  obtain ⟨i, hi⟩ := Option.ne_none_iff_exists'.mp hsome
  obtain ⟨hfilep, hused⟩ := Driver.findClientByFilep_some hi
  have hunused : (before.driver.clients i).state = .unused := by
    obtain ⟨d', hd', hmap⟩ := Option.bind_eq_some_iff.mp hnext
    obtain rfl := Option.some.inj hmap
    have hno := List.find?_eq_none.mp hnone i (List.mem_finRange i)
    cases driverNext_step hd' with
    | openFailed => exact absurd (by simpa using ⟨hfilep, hused⟩) hno
    | @opened _ _ _ k _ hk =>
        by_cases hik : i = k
        · rw [hik]
          exact hk
        · simp only [Driver.observe, Driver.setClient_ne _ _ hik]
            at hfilep hused
          exact absurd (by simpa using ⟨hfilep, hused⟩) hno
  have hclean := slotClean_of_open hsound hnext hunused hused
  refine ⟨i, hsound.file hnext, hi, ?_⟩
  rw [hclean.mem]
  rfl

/-- What the process holds is what the driver has recorded. -/
def HeldRecorded (held : DspCache → Option Held) (tbl : ShmTable) : Prop :=
  ∀ t h, held t = some h → h.mem.physAddr ≠ 0 ∧ (tbl t).dsp = h.mem

/-- The tables agree, and the table of the library is that after a history of
calls. -/
def InAgreement (filep l1Virt l2Virt : ℕ) (s : ShmSystem) : Prop :=
  ∃ i tbl held, Owns filep i tbl s.device ∧ Agrees s.regions tbl ∧
    (shmMachine l1Virt l2Virt).Reachable ⟨s.regions, held⟩ ∧
    HeldRecorded held tbl

theorem HeldRecorded.alloc (h : HeldRecorded held tbl) (hagrees : Agrees r tbl)
    {res : DspMemRegion × Regions}
    (hdone : AllocDone ok type numBytes r tbl res tbl') (o : ShmAnswers) :
    HeldRecorded (handOut o type res.1 held) tbl' := by
  have hold {t : DspCache} {h' : Held} (ht : held t = some h') :
      h'.mem.physAddr ≠ 0 ∧ (tbl' t).dsp = h'.mem := by
    obtain ⟨hne, hdsp⟩ := h t h' ht
    refine ⟨hne, ?_⟩
    rw [hdone.kept t fun _ => ?_, hdsp]
    rwa [← (hagrees.entry t).physAddr, hdsp]
  by_cases hzero : res.1 = DspMemRegion.zero
  · rw [hzero, handOut_zero]
    exact fun _ _ => hold
  · obtain ⟨t, rfl, -, hdsp, hne, -⟩ := hdone.returned hzero
    rw [handOut_of_ne o t held hne]
    intro t' h' ht'
    by_cases heq : t' = t
    · subst heq
      rw [Function.update_self] at ht'
      obtain rfl := Option.some.inj ht'
      exact ⟨hne, hdsp⟩
    · rw [Function.update_of_ne heq] at ht'
      exact hold ht'

theorem HeldRecorded.free (h : HeldRecorded held tbl) (mem : DspMemRegion)
    (r : Regions) :
    HeldRecorded (takeBack (locGetCacheTypeByMem mem r) held)
      (freedTable mem r tbl) := by
  unfold takeBack freedTable
  cases locGetCacheTypeByMem mem r with
  | none => exact h
  | some t =>
      intro t' h' ht'
      dsimp only at ht' ⊢
      by_cases heq : t' = t
      · subst heq
        rw [Function.update_self] at ht'
        cases ht'
      · rw [Function.update_of_ne heq] at ht' ⊢
        exact h t' h' ht'

theorem InAgreement.step (h : InAgreement filep l1Virt l2Virt s)
    {a : ShmAction}
    (hstep : (shmSystem ram filep l1Virt l2Virt ok).step s a s') :
    InAgreement filep l1Virt l2Virt s' := by
  obtain ⟨i, tbl, held, howns, hagrees, hreach, hheld⟩ := h
  cases a with
  | other e =>
      obtain ⟨helse, hok, hnext, hsame⟩ := hstep
      refine ⟨i, tbl, held, howns.elsewhere helse hok hnext, ?_, ?_, hheld⟩
      · rwa [hsame]
      · rwa [hsame]
  | alloc type numBytes mem =>
      obtain ⟨tbl', howns', hdone⟩ :=
        triple_dspShmAllocAtCalls hagrees type numBytes _ _ _ howns hstep
      obtain ⟨o, ho, hres⟩ := hdone.answered
      refine ⟨i, tbl', handOut o type mem held, howns', hdone.agrees,
        hreach.step (e := .alloc type numBytes o) ?_,
        hheld.alloc hagrees hdone o⟩
      show shmNext _ _ = _
      rw [shmNext, if_pos ho, hres]
  | free mem ret =>
      obtain ⟨hres, howns'⟩ :=
        triple_dspShmFreeCalls mem s.regions _ _ _ howns hstep
      have hregions : s'.regions = (dspShmFree 0 mem s.regions).2 :=
        congrArg Prod.snd hres
      refine ⟨i, _, takeBack (locGetCacheTypeByMem mem s.regions) held, howns',
        ?_, hreach.step (e := .free mem 0) ?_, hheld.free mem s.regions⟩
      · rw [hregions]
        exact hagrees.freed 0 mem
      · show shmNext _ _ = _
        rw [shmNext, hregions]

theorem inAgreement_of_reachable
    (hs : (shmSystem ram filep l1Virt l2Virt ok).Reachable s) :
    InAgreement filep l1Virt l2Virt s := by
  refine hs.invariant (P := InAgreement filep l1Virt l2Virt) ?_ ?_
  · rintro s ⟨hopened, hregions⟩
    obtain ⟨i, howns⟩ := owns_of_justOpened hopened
    refine ⟨i, _, fun _ => none, howns, ?_, .init ?_, nofun⟩
    · rw [hregions]
      exact agrees_opened l1Virt l2Virt
    · rw [hregions]
      rfl
  · exact fun s a s' h => h.step

/-- In every run, the table of the library is that after a history of its calls,
its entries are those that the driver has recorded for the process, and so are
the regions that the process holds. -/
theorem shmSystem_agrees
    (hs : (shmSystem ram filep l1Virt l2Virt ok).Reachable s) :
    ∃ i held, s.device.driver.findClientByFilep filep = some i ∧
      (shmMachine l1Virt l2Virt).Reachable ⟨s.regions, held⟩ ∧
      (∀ t, EntryAgrees t (s.regions.sharedMem t)
        ((s.device.mem i).shm t)) ∧
      ∀ t h, held t = some h → ((s.device.mem i).shm t).dsp = h.mem := by
  obtain ⟨i, tbl, held, howns, hagrees, hreach, hheld⟩ :=
    inAgreement_of_reachable hs
  refine ⟨i, held, howns.found, hreach, ?_, ?_⟩
  · rw [howns.shm]
    exact hagrees.entry
  · rw [howns.shm]
    exact fun t h ht => (hheld t h ht).2

/-- The kernel has contiguous memory at an address. -/
def demoOutcome (dmaAddr : ℕ) : KernelOutcome where
  shm := ⟨0xc8000000, dmaAddr, 0x88000000⟩
  copied := true
  vmStart := some 0x60000000
  remapped := true
  page := some 0x88000000

/-- The table of a process that has opened the device. -/
abbrev demoRegions : Regions := Regions.opened 0xb6f00000 0xb6e00000

/-- A process of which the kernel refuses nothing. -/
abbrev demoSystem : Machine ShmSystem ShmAction :=
  shmSystem DspMemRegion.zero 1 0xb6f00000 0xb6e00000 KernelOutcome.Grants

/-- A program of a process that has opened the device, and its result. -/
theorem exists_opened {α : Type} (p : ShmProg α) (os : List KernelOutcome)
    (P : α → Prop) [DecidablePred P]
    (h : ((deviceNext (Device.initial DspMemRegion.zero)
      (.file (.openFile c64DevMinor 1) 0)).any fun d =>
        decide (d.driver.findClientByFilep 1 ≠ none) &&
          (p.follow (answerWith 1 KernelOutcome.Grants) os d).any fun res =>
            decide (P res.1)) = true) :
    ∃ d res d', demoSystem.Reachable ⟨d, demoRegions⟩ ∧
      (shmShared 1 KernelOutcome.Grants).Returns p d res d' ∧ P res := by
  obtain ⟨d, hd, hany⟩ := (Option.any_eq_true _ _).mp h
  obtain ⟨hopen, hany⟩ := Bool.and_eq_true_iff.mp hany
  obtain ⟨⟨res, d'⟩, hfollow, hP⟩ := (Option.any_eq_true _ _).mp hany
  refine ⟨d, res, d', .init ⟨⟨_, _, _, .init rfl, by decide, hd, ?_⟩, rfl⟩,
    returns_of_answerWith hfollow, of_decide_eq_true hP⟩
  exact of_decide_eq_true hopen

/-- The process has allocated two pages. -/
theorem shmSystem_agrees_twoPages : ∃ (s : ShmSystem) (i : Slot),
    (s.regions.sharedMem .rw).mem = ⟨0x87000000, 0x60000000, 8192⟩ ∧
      EntryAgrees .rw (s.regions.sharedMem .rw) ((s.device.mem i).shm .rw) := by
  obtain ⟨d, ⟨mem, r⟩, d', hs, hret, hentry⟩ := exists_opened
    (dspShmAllocAtCalls (some .rw) 5000 demoRegions)
    [demoOutcome 0x87000000, demoOutcome 0x87002000]
    (fun res => (res.2.sharedMem .rw).mem = ⟨0x87000000, 0x60000000, 8192⟩)
    (by decide +kernel)
  have hs' : demoSystem.Reachable ⟨d', r⟩ :=
    hs.step (e := .alloc (some .rw) 5000 mem) hret
  obtain ⟨i, -, -, -, hagrees, -⟩ := shmSystem_agrees hs'
  exact ⟨⟨d', r⟩, i, hentry, hagrees .rw⟩

/-! ## Closing -/

section Close

variable {t : DspCache} {before ts : List DspCache}

/-- A search for the address of an entry finds this entry if those before it have
none. -/
theorem findEntry_first (hall : DspCache.all = before ++ t :: ts)
    (hbefore : ∀ u ∈ before, (r.sharedMem u).mem.physAddr = 0)
    (hphys : (r.sharedMem t).mem.physAddr ≠ 0) :
    findEntry (r.sharedMem t).mem r = some t := by
  have hnone : (before.find? fun u => decide ((r.sharedMem t).mem.physAddr =
      (r.sharedMem u).mem.physAddr)) = none := by
    rw [List.find?_eq_none]
    intro u hu
    rw [hbefore u hu]
    simpa using hphys
  simp only [findEntry, hall, List.find?_append, hnone, List.find?_cons,
    decide_true, Option.none_or]

theorem physAddr_dspShmFree {u : DspCache} (mem : DspMemRegion)
    (h : (r.sharedMem u).mem.physAddr = 0) :
    ((dspShmFree 0 mem r).2.sharedMem u).mem.physAddr = 0 := by
  unfold dspShmFree
  cases locGetCacheTypeByMem mem r with
  | none => exact h
  | some t =>
      by_cases hu : u = t
      · rw [hu, sharedMem_setEntry]
        rfl
      · rw [sharedMem_setEntry_of_ne r _ hu]
        exact h

/-- A turn of the loop frees its type, with the types before it free. -/
theorem free_turn (h : Agrees r tbl) (hall : DspCache.all = before ++ t :: ts)
    (hbefore : ∀ u ∈ before, (r.sharedMem u).mem.physAddr = 0) :
    ∀ u ∈ before ++ [t],
      ((dspShmFree 0 (r.sharedMem t).mem r).2.sharedMem u).mem.physAddr =
        0 := by
  intro u hu
  by_cases hphys : (r.sharedMem u).mem.physAddr = 0
  · exact physAddr_dspShmFree _ hphys
  · -- only the type of this turn has an address, and it is noted in the entry
    obtain hu | hu := List.mem_append.mp hu
    · exact absurd (hbefore u hu) hphys
    · obtain rfl := List.mem_singleton.mp hu
      have htype : (r.sharedMem u).type = u := by
        have hentry := h.entry u
        generalize r.sharedMem u = e at hentry hphys
        generalize tbl u = k at hentry
        cases hentry with
        | free hzero => exact absurd hzero hphys
        | held => rfl
      rw [dspShmFree, locGetCacheTypeByMem_eq,
        findEntry_first hall hbefore hphys]
      simp only [Option.map_some, htype, sharedMem_setEntry]
      rfl

theorem triple_freeTypesCalls (h : Agrees r tbl)
    (hall : DspCache.all = before ++ ts)
    (hbefore : ∀ u ∈ before, (r.sharedMem u).mem.physAddr = 0) :
    (shmShared filep ok).Triple (Owns filep i tbl) (freeTypesCalls ts r)
      fun r' d => ∃ tbl', Owns filep i tbl' d ∧ Agrees r' tbl' ∧
        ∀ u, (r'.sharedMem u).mem.physAddr = 0 := by
  induction ts generalizing r tbl before with
  | nil =>
      refine Shared.triple_ret stable_owns fun d hd => ⟨tbl, hd, h, ?_⟩
      intro u
      refine hbefore u ?_
      rw [List.append_nil] at hall
      rw [← hall]
      cases u <;> decide
  | cons t ts ih =>
      refine Shared.triple_bind _
        (triple_dspShmFreeCalls (r.sharedMem t).mem r) ?_
      rintro res
      refine Shared.triple_of_imp ?_
      rintro rfl
      exact ih (h.freed 0 _) (by rw [hall, List.append_assoc]; rfl)
        (free_turn h hall hbefore)

end Close

/-- The loop of `dsp_close()` comes to its end, and whenever it does, the driver
has nothing left for the process, whatever allocations have failed before. -/
theorem dspClose_frees
    (hs : (shmSystem ram filep l1Virt l2Virt ok).Reachable s) :
    (∃ r d, (shmShared filep fun _ => True).Returns
      (dspCloseShmCalls s.regions) s.device r d) ∧
    ∀ r d, (shmShared filep fun _ => True).Returns
        (dspCloseShmCalls s.regions) s.device r d →
      ∃ i, d.driver.findClientByFilep filep = some i ∧
        ∀ t, (d.mem i).shm t = ClientShm.empty ∧
          (r.sharedMem t).mem.physAddr = 0 := by
  obtain ⟨i, tbl, held, howns, hagrees, -⟩ := inAgreement_of_reachable hs
  refine ⟨howns.exists_returns (fun _ _ => trivial) _, fun r d hret => ?_⟩
  obtain ⟨tbl', howns', hagrees', hfree⟩ :=
    triple_freeTypesCalls hagrees rfl (List.forall_mem_nil _) _ _ _ howns hret
  refine ⟨i, howns'.found, fun t => ⟨?_, hfree t⟩⟩
  rw [howns'.shm]
  exact hagrees'.eq_empty (hfree t)

/-- A process closes the device that it has only opened. -/
theorem dspClose_frees_opened : ∃ (d : Device) (i : Slot),
    d.driver.findClientByFilep 1 = some i ∧
      (d.mem i).shm .rw = ClientShm.empty := by
  obtain ⟨d, -, -, hs, -⟩ := exists_opened (.ret ()) [] (fun _ => True)
    (by decide +kernel)
  obtain ⟨⟨r, d', hret⟩, hall⟩ := dspClose_frees hs
  obtain ⟨i, hfound, hfree⟩ := hall r d' hret
  exact ⟨d', i, hfound, (hfree .rw).1⟩

/-! ## Allocations that nothing is in the way of -/

/-- After any run, also one with failures, a call to which the kernel grants what
it asks for returns, and it returns a region exactly if the type has no address and
the size is not rounded to nothing: the driver refuses nothing by itself.  The
region is as large as the size is rounded to, and is the one that the driver has
recorded. -/
theorem dspShmAllocAt_granted_iff
    (hs : (shmSystem ram filep l1Virt l2Virt ok).Reachable s) (t : DspCache)
    (numBytes : ℕ) :
    (∃ res d, (shmShared filep KernelOutcome.Grants).Returns
      (dspShmAllocAtCalls (some t) numBytes s.regions) s.device res d) ∧
    ∀ mem r d, (shmShared filep KernelOutcome.Grants).Returns
        (dspShmAllocAtCalls (some t) numBytes s.regions) s.device (mem, r) d →
      (mem ≠ DspMemRegion.zero ↔ Available s.regions t numBytes) ∧
      (mem ≠ DspMemRegion.zero → mem.size = shmRound t numBytes ∧
        ∃ i, d.driver.findClientByFilep filep = some i ∧
          ((d.mem i).shm t).dsp = mem) := by
  obtain ⟨i, tbl, held, howns, hagrees, -⟩ := inAgreement_of_reachable hs
  refine ⟨howns.exists_returns (fun _ => id) _, fun mem r d hret => ?_⟩
  obtain ⟨tbl', howns', hdone⟩ :=
    triple_dspShmAllocAtCalls hagrees (some t) numBytes _ _ _ howns hret
  have hreturned (hne : mem ≠ DspMemRegion.zero) := hdone.returned hne
  refine ⟨⟨fun hne => ?_, hdone.granted (fun _ => id) t rfl⟩, fun hne => ?_⟩
  · obtain ⟨_, ⟨⟩, havail, -⟩ := hreturned hne
    exact havail
  · obtain ⟨_, ⟨⟩, -, hdsp, -, hsize⟩ := hreturned hne
    refine ⟨hsize, i, howns'.found, ?_⟩
    rw [howns'.shm]
    exact hdsp

/-- The first allocation of a process. -/
theorem dspShmAllocAt_granted_iff_twoPages : ∃ (d : Device) (i : Slot),
    ((d.mem i).shm .rw).dsp = ⟨0x87000000, 0x60000000, 8192⟩ := by
  obtain ⟨d, ⟨mem, r⟩, d', hs, hret, hmem⟩ := exists_opened
    (dspShmAllocAtCalls (some .rw) 5000 demoRegions)
    [demoOutcome 0x87000000, demoOutcome 0x87002000]
    (fun res => res.1 = ⟨0x87000000, 0x60000000, 8192⟩) (by decide +kernel)
  have hne : mem ≠ DspMemRegion.zero := by
    rw [show mem = _ from hmem]
    decide
  obtain ⟨-, hall⟩ := dspShmAllocAt_granted_iff hs .rw 5000
  obtain ⟨-, hreturned⟩ := hall mem r d' hret
  obtain ⟨-, i, -, hdsp⟩ := hreturned hne
  exact ⟨d', i, hdsp.trans hmem⟩

end C64Tools.Shm
