import C64Tools.Shm.Atomic
import C64Tools.Shm.Syscalls

/-!
# The shared memory of one client

What the driver has recorded of the shared memory of a client changes only by the
calls of this client.  So a process may rely on it between its calls, whatever
the others do, and each call has a rule that speaks of this table alone.
-/

namespace C64Tools.Shm

open C64Tools.Kmod Transition Calls

/-- The entries of a client's shared memory. -/
abbrev ShmTable := DspCache → ClientShm

/-- The file belongs to client `i`, for which the driver has the table `tbl`. -/
structure Owns (filep : ℕ) (i : Slot) (tbl : ShmTable) (s : Device) : Prop where
  sound : s.Sound
  found : s.driver.findClientByFilep filep = some i
  shm : (s.mem i).shm = tbl

variable {filep : ℕ} {i : Slot} {tbl : ShmTable} {s s' : Device}
  {ok : KernelOutcome → Prop} {o : KernelOutcome}
  {sections : Section → Option DspMemRegion} {c : ClientMem}

/-! ## The steps of the others -/

theorem slot_ne_of_filep_ne {d : Driver} {f : ℕ} {k : Slot} (hne : f ≠ filep)
    (hk : d.findClientByFilep f = some k)
    (hi : d.findClientByFilep filep = some i) : i ≠ k := by
  rintro rfl
  have hf := (Driver.findClientByFilep_some hk).1
  exact hne (Option.some.inj
    (hf.symm.trans (Driver.findClientByFilep_some hi).1))

theorem mem_setMem (s : Device) (i : Slot) (c : ClientMem) :
    (s.setMem i c).mem i = c :=
  Function.update_self _ _ _

theorem mem_setMem_of_ne {k : Slot} (hne : i ≠ k) (c : ClientMem) :
    (s.setMem k c).mem i = s.mem i :=
  Function.update_of_ne hne _ _

/-- An area that is not at the address of an entry is mapped without a change to
the entries. -/
theorem fopsMmap_shm {remapped : Bool} {vma : Vma}
    (h : ∀ t ∈ DspCache.contig,
      u32 (vma.vmPgoff <<< 12) ≠ (c.shm t).dsp.physAddr) :
    (fopsMmap remapped vma sections c).2.shm = c.shm := by
  have hnone : (DspCache.contig.find? fun t =>
      decide (u32 (vma.vmPgoff <<< 12) = (c.shm t).dsp.physAddr)) = none := by
    simpa [List.find?_eq_none] using h
  unfold fopsMmap
  simp only [hnone]
  repeat' split
  all_goals rfl

/-- A step of the driver frees the memory of clients that are released. -/
theorem Owns.file (h : Owns filep i tbl s) {e : Event} {turns : ℕ}
    (hopen : ∀ minor, e ≠ .openFile minor filep)
    (hrelease : e ≠ .releaseFile filep)
    (hnext : deviceNext s (.file e turns) = some s') : Owns filep i tbl s' := by
  have hsound := h.sound.file hnext
  have hslots := h.sound.driver.slots
  obtain ⟨d', hd', hmap⟩ := Option.bind_eq_some_iff.mp hnext
  obtain ⟨t, ht, rfl⟩ := Option.map_eq_some_iff.mp hmap
  have hfind := (driverNext_step hd').find_eq hslots hopen hrelease
  refine ⟨hsound, hfind.trans h.found, ?_⟩
  obtain ⟨rfl, -⟩ | ⟨k, o, rfl, hcrit, hreleased⟩ := memoryStep_cases ht
  · exact h.shm
  · have hik : i ≠ k := by
      rintro rfl
      have hunused := hslots.releasing_unused i (by rw [hcrit]; rfl)
      exact (Driver.findClientByFilep_some h.found).2 hunused
    have hmem := (releaseMemory_released (h.sound.shm k) h.sound.heap
      hreleased).mem
    rw [← h.shm]
    simp only [hmem, Function.update_of_ne hik]

/-- The others leave the table alone. -/
theorem Owns.elsewhere (h : Owns filep i tbl s) {e : DeviceEvent}
    (helse : Elsewhere filep s e) (hok : HandsOutAddrs s e)
    (hnext : deviceNext s e = some s') : Owns filep i tbl s' := by
  have hsound := h.sound.step hok hnext
  have hother {f : ℕ} {k : Slot} (hne : f ≠ filep)
      (hk : s.driver.findClientByFilep f = some k) (c : ClientMem) :
      ((s.setMem k c).mem i).shm = tbl := by
    rw [mem_setMem_of_ne (slot_ne_of_filep_ne hne hk h.found), h.shm]
  cases e with
  | file e turns =>
      refine h.file ?_ ?_ hnext
      · rintro minor rfl
        exact helse rfl
      · rintro rfl
        exact helse rfl
  | shmAlloc f buf o copyBack =>
      simp only [deviceNext] at hnext
      split at hnext <;> obtain rfl := Option.some.inj hnext
      next k hk => exact ⟨hsound, h.found, hother helse hk _⟩
      next => exact h
  | shmFree f type =>
      simp only [deviceNext] at hnext
      split at hnext <;> obtain rfl := Option.some.inj hnext
      next k hk => exact ⟨hsound, h.found, hother helse hk _⟩
      next => exact h
  | sramAlloc f l uninit buf copyBack =>
      obtain ⟨-, hnext⟩ := Option.ite_none_right_eq_some.mp hnext
      split at hnext
      next k hk =>
        obtain ⟨r, hr, rfl⟩ := Option.map_eq_some_iff.mp hnext
        cases buf with
        | readable mem =>
            obtain ⟨mm, -, rfl⟩ := Option.map_eq_some_iff.mp hr
            exact ⟨hsound, h.found, h.shm⟩
        | fault left =>
            obtain rfl := Option.some.inj hr
            exact h
      next =>
        obtain rfl := Option.some.inj hnext
        exact h
  | sramFree f l buf =>
      obtain ⟨-, hnext⟩ := Option.ite_none_right_eq_some.mp hnext
      split at hnext
      next k hk =>
        obtain rfl := Option.some.inj hnext
        cases buf with
        | readable mem => exact ⟨hsound, h.found, h.shm⟩
        | fault left => exact h
      next =>
        obtain rfl := Option.some.inj hnext
        exact h
  | mmap f vma remapped =>
      simp only [deviceNext] at hnext
      split at hnext <;> obtain rfl := Option.some.inj hnext
      next k hk =>
        refine ⟨hsound, h.found, ?_⟩
        by_cases hf : f = filep
        · obtain rfl : k = i := by
            rw [hf, h.found] at hk
            exact (Option.some.inj hk).symm
          rw [mem_setMem, fopsMmap_shm (helse hf k hk), h.shm]
        · exact hother hf hk _
      next => exact h

theorem stable_owns : (shmShared filep ok).Stable (Owns filep i tbl) := by
  rintro s s' ⟨e, helse, hok, hnext⟩ h
  exact h.elsewhere helse hok hnext

/-! ## The calls of the client -/

/-- The entry that the driver records for a request that is granted. -/
def grantedShm (o : ShmOutcome) (size virt : ℕ) : DspCache → ClientShm
  | .hugetlb => ⟨0, ⟨o.hugetlbPhys, virt, size⟩⟩
  | _ => ⟨o.kVirtAddr, ⟨o.dmaAddr, 0, size⟩⟩

variable {t : DspCache} {size virt : ℕ}

theorem locShmAlloc_granted (size virt : ℕ) {o : ShmOutcome}
    (h : ShmGranted o t c) :
    locShmAlloc o ⟨some t, size, virt⟩ c =
      (.ok (), c.setShm t (grantedShm o size virt t)) := by
  cases t with
  | hugetlb => exact if_pos h
  | none | rw | r | w =>
      obtain ⟨hfree, hvirt⟩ := h
      simp only [locShmAlloc, if_pos hfree, if_pos hvirt, grantedShm]

theorem KernelOutcome.Grants.shmGranted (h : o.Grants)
    (hempty : c.shm t = ClientShm.empty) : ShmGranted o.shm t c := by
  cases t with
  | hugetlb => exact h.hugetlb
  | none | rw | r | w => exact ⟨by rw [hempty]; rfl, h.dma⟩

/-- A request for a type whose entry is empty is granted, or changes nothing. -/
theorem serveClient_shmAlloc (o : KernelOutcome)
    (sections : Section → Option DspMemRegion) (size virt : ℕ)
    (hempty : c.shm t = ClientShm.empty) :
    (ShmGranted o.shm t c ∧
      serveClient o sections c (.shmAlloc ⟨some t, size, virt⟩) =
        (some (grantedShm o.shm size virt t).dsp,
          c.setShm t (grantedShm o.shm size virt t))) ∨
    ¬ o.Grants ∧
      (serveClient o sections c (.shmAlloc ⟨some t, size, virt⟩)).1 = none ∧
      (serveClient o sections c (.shmAlloc ⟨some t, size, virt⟩)).2.shm =
        c.shm := by
  by_cases hgranted : ShmGranted o.shm t c
  · have halloc := locShmAlloc_granted size virt hgranted
    cases hcopied : o.copied with
    | true =>
        refine Or.inl ⟨hgranted, ?_⟩
        simp only [serveClient, ioctlShmAlloc, halloc, hcopied, if_true,
          Option.map_some, ClientMem.setShm, Function.update_self]
    | false =>
        have htype : (ShmAllocReq.mk (some t) size virt).type = some t := rfl
        have hfree := (locShmFree_locShmAlloc htype hgranted).2
        rw [halloc] at hfree
        refine Or.inr ⟨fun h => ?_, ?_⟩
        · exact Bool.false_ne_true (hcopied.symm.trans h.copied)
        · simp only [serveClient, ioctlShmAlloc, halloc, hcopied,
            Bool.false_eq_true, if_false, hfree, true_and]
          rw [ClientMem.setShm_shm_eq_iff, hempty]
  · have hrefused : ∀ t', (ShmAllocReq.mk (some t) size virt).type = some t' →
        ¬ ShmGranted o.shm t' c := by
      rintro t' ⟨⟩
      exact hgranted
    obtain ⟨e, halloc⟩ := locShmAlloc_refused hrefused
    refine Or.inr ⟨fun h => hgranted (h.shmGranted hempty), ?_⟩
    simp only [serveClient, ioctlShmAlloc, halloc, true_and]

/-- Huge pages are mapped where the kernel has room for them. -/
theorem serveClient_mmapHugetlb (o : KernelOutcome)
    (sections : Section → Option DspMemRegion) (c : ClientMem) (size : ℕ) :
    ∃ answer, serveClient o sections c (.mmapHugetlb size) = (answer, c) ∧
      (size = 0 → answer = none) ∧ (size ≠ 0 → answer = o.vmStart) := by
  refine ⟨_, rfl, fun hzero => ?_, fun hpos => ?_⟩
  · rw [hzero, if_neg (Nat.lt_irrefl 0)]
  · rw [if_pos (Nat.pos_of_ne_zero hpos)]

/-- Freeing is never refused. -/
theorem serveClient_shmFree (hc : c.Coherent) :
    serveClient o sections c (.shmFree t) =
      (0, c.setShm t ClientShm.empty) := by
  have hok : (locShmFree (some t) c).1 = .ok () := by
    cases t with
    | hugetlb => rfl
    | none | rw | r | w =>
        simp only [locShmFree]
        split <;> rfl
  have hfree : locShmFree (some t) c =
      (.ok (), c.setShm t ClientShm.empty) :=
    Prod.ext hok (locShmFree_eq hc)
  simp only [serveClient, hfree]

/-- The only type that passes a test is found. -/
theorem find_of_unique {ts : List DspCache} {p : DspCache → Bool}
    (ht : t ∈ ts) (hp : p t = true)
    (huniq : ∀ t' ∈ ts, t' ≠ t → p t' ≠ true) : ts.find? p = some t := by
  cases hfind : ts.find? p with
  | none => exact absurd hp (List.find?_eq_none.mp hfind t ht)
  | some t' =>
      by_contra hne
      exact huniq t' (List.mem_of_find?_eq_some hfind)
        (fun heq => hne (congrArg some heq)) (List.find?_some hfind)

/-- The area of whole pages that is passed for memory of whole pages. -/
theorem vmaAt_spec (start : ℕ) {physAddr : ℕ} (hpos : 0 < size)
    (hsize : 4096 ∣ size) (hlt : physAddr < 2 ^ 32) (hdvd : 4096 ∣ physAddr) :
    u32 ((vmaAt start size physAddr hpos).vmPgoff <<< 12) = physAddr ∧
      (vmaAt start size physAddr hpos).vmEnd -
        (vmaAt start size physAddr hpos).vmStart = size := by
  simp only [vmaAt, u32, Nat.shiftLeft_eq, Nat.shiftRight_eq_div_pow]
  omega

/-- An entry that is not mapped yet is mapped as a whole. -/
theorem fopsMmap_entry {k : ClientShm} {vma : Vma} (remapped : Bool)
    (ht : t ∈ DspCache.contig) (hk : c.shm t = k) (hvirt : k.dsp.virtAddr = 0)
    (hbase : u32 (vma.vmPgoff <<< 12) = k.dsp.physAddr)
    (hlen : vma.vmEnd - vma.vmStart = k.dsp.size)
    (hfresh : ∀ t' ∈ DspCache.contig, t' ≠ t →
      (c.shm t').dsp.physAddr ≠ k.dsp.physAddr) :
    fopsMmap remapped vma sections c =
      if remapped then
        (.ok (), c.setShm t
          { k with dsp := { k.dsp with virtAddr := vma.vmStart } })
      else (.error .EFAULT, c) := by
  have hfound : (DspCache.contig.find? fun t' => decide
      (u32 (vma.vmPgoff <<< 12) = (c.shm t').dsp.physAddr)) = some t := by
    rw [hbase]
    refine find_of_unique ht (by simp [hk]) fun t' ht' hne => ?_
    simpa using (hfresh t' ht' hne).symm
  simp only [fopsMmap, hfound, hk, mapArea, hvirt, hlen, le_refl, if_true]
  cases remapped <;> rfl

/-- The memory of an entry, at an address that no other entry has, is mapped as
the library asks for it, unless the kernel refuses. -/
theorem serveClient_mmap (o : KernelOutcome)
    (sections : Section → Option DspMemRegion) {k : ClientShm}
    (ht : t ∈ DspCache.contig) (hk : c.shm t = k) (hvirt : k.dsp.virtAddr = 0)
    (hsize : 4096 ∣ k.dsp.size) (hlt : k.dsp.physAddr < 2 ^ 32)
    (hdvd : 4096 ∣ k.dsp.physAddr)
    (hfresh : ∀ t' ∈ DspCache.contig, t' ≠ t →
      (c.shm t').dsp.physAddr ≠ k.dsp.physAddr) :
    (0 < k.dsp.size ∧ ∃ start ∈ o.vmStart,
      serveClient o sections c (.mmap k.dsp.size k.dsp.physAddr) =
        (some start,
          c.setShm t { k with dsp := { k.dsp with virtAddr := start } })) ∨
    (0 < k.dsp.size → ¬ o.Grants) ∧
      serveClient o sections c (.mmap k.dsp.size k.dsp.physAddr) =
        (none, c) := by
  simp only [serveClient]
  cases hstart : o.vmStart with
  | none => exact Or.inr ⟨fun _ h => h.start hstart, rfl⟩
  | some start =>
      simp only
      split
      next hpos =>
        obtain ⟨hbase, hlen⟩ := vmaAt_spec start hpos.1 hsize hlt hdvd
        rw [fopsMmap_entry o.remapped ht hk hvirt hbase hlen hfresh]
        cases hremapped : o.remapped with
        | true => exact Or.inl ⟨hpos.1, start, rfl, rfl⟩
        | false =>
            refine Or.inr ⟨fun _ h => ?_, rfl⟩
            exact Bool.false_ne_true (hremapped.symm.trans h.remapped)
      next hnot => exact Or.inr ⟨fun hpos _ => hnot ⟨hpos, hdvd⟩, rfl⟩

/-! ## The rule for calls -/

theorem serveClient_coherent (hc : c.Coherent) (ho : o.Valid c)
    (call : Syscall) : (serveClient o sections c call).2.Coherent := by
  cases call with
  | mmapHugetlb | munmap | hugetlbV2p => exact hc
  | mmap size physAddr =>
      simp only [serveClient]
      split
      next start _ =>
        split
        next hpos =>
          have hmap := fopsMmap_coherent hc o.remapped
            (vmaAt start size physAddr hpos.1) sections
          split <;> next heq =>
            rw [heq] at hmap
            exact hmap
        next => exact hc
      next => exact hc
  | shmAlloc req =>
      have halloc := ioctlShmAlloc_coherent hc ho.handsOut (.readable req)
        o.copied
      simp only [serveClient]
      split <;> next heq =>
        rw [heq] at halloc
        exact halloc
  | shmFree t =>
      rw [serveClient_shmFree hc]
      exact hc.setShm ClientShm.valid_empty

/-- A call leaves its table to the client. -/
theorem Owns.serve (h : Owns filep i tbl s) (ho : o.Valid (s.mem i))
    (call : Syscall) :
    Owns filep i
      (serveClient o (s.driver.clients i).sections (s.mem i) call).2.shm
      (serveDevice o i s call).2 where
  sound := h.sound.setMem (Driver.findClientByFilep_some h.found).2
    (serveClient_coherent (h.sound.shm i) ho call)
  found := h.found
  shm := congrArg ClientMem.shm (mem_setMem s i _)

/-- Before a call the client has its table, and after it the one that the call
leaves. -/
theorem triple_owns_call {α : Type} {call : Syscall}
    {next : call.Answer → ShmProg α} {Q : α → Device → Prop}
    (h : ∀ o sections c, o.Valid c → ok o → c.Coherent → c.shm = tbl →
      (shmShared filep ok).Triple
        (Owns filep i (serveClient o sections c call).2.shm)
        (next (serveClient o sections c call).1) Q) :
    (shmShared filep ok).Triple (Owns filep i tbl) (.call call next) Q := by
  refine Shared.triple_call (fun x s' => ∃ o sections c, o.Valid c ∧ ok o ∧
    c.Coherent ∧ c.shm = tbl ∧ x = (serveClient o sections c call).1 ∧
    Owns filep i (serveClient o sections c call).2.shm s') stable_owns ?_ ?_
  · rintro s x s' hs ⟨o, k, hk, hvalid, hok, hserve⟩
    obtain rfl : i = k := Option.some.inj (hs.found.symm.trans hk)
    obtain ⟨rfl, rfl⟩ := Prod.mk.inj hserve
    exact ⟨o, _, s.mem i, hvalid, hok, hs.sound.shm i, hs.shm, rfl,
      hs.serve hvalid call⟩
  · rintro x s a t ⟨o, sections, c, hvalid, hok, hc, htbl, rfl, hs⟩ hret
    exact h o sections c hvalid hok hc htbl s a t hs hret

/-- There are more pages than entries, so that one of them can be granted. -/
theorem exists_grants (c : ClientMem) :
    ∃ o : KernelOutcome, o.Valid c ∧ o.Grants := by
  let pages : Finset ℕ := {0x1000, 0x2000, 0x3000, 0x4000, 0x5000}
  let used := (DspCache.contig.map fun t => (c.shm t).dsp.physAddr).toFinset
  have hcard : used.card < pages.card := by
    have hle : used.card ≤ DspCache.contig.length := by
      simpa using List.toFinset_card_le
        (DspCache.contig.map fun t => (c.shm t).dsp.physAddr)
    exact hle.trans_lt (by decide)
  have hpages : ∀ dma ∈ pages, dma ≠ 0 ∧ dma < 2 ^ 32 ∧ 4096 ∣ dma := by
    decide
  obtain ⟨dma, hdma, hfresh⟩ := Finset.exists_mem_notMem_of_card_lt_card hcard
  obtain ⟨hne, hlt, hdvd⟩ := hpages dma hdma
  refine ⟨⟨⟨1, dma, 1⟩, true, some 0x1000, true, some 0⟩,
    ⟨fun _ => hne, hlt, hdvd, ?_, Nat.one_lt_two_pow (by decide), by simp,
      by simp⟩,
    ⟨Nat.one_ne_zero, Nat.one_ne_zero, rfl, nofun, rfl, nofun⟩⟩
  intro _ t ht heq
  exact hfresh (List.mem_toFinset.mpr (List.mem_map.mpr ⟨t, ht, heq⟩))

/-- Programs of the client return. -/
theorem Owns.exists_returns {α : Type} (h : Owns filep i tbl s)
    (hok : ∀ o : KernelOutcome, o.Grants → ok o) (p : ShmProg α) :
    ∃ a t, (shmShared filep ok).Returns p s a t := by
  refine Shared.exists_returns (P := fun s => ∃ tbl, Owns filep i tbl s) ?_ p
    ⟨tbl, h⟩
  rintro s call ⟨tbl, hs⟩
  obtain ⟨o, hvalid, hgrants⟩ := exists_grants (s.mem i)
  exact ⟨_, _, ⟨o, i, hs.found, hvalid, hok o hgrants, rfl⟩, _,
    hs.serve hvalid call⟩

end C64Tools.Shm
