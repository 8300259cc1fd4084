import C64Tools.Shm.Held

/-!
# What the calls leave behind

The two calls on shared memory once more, with what they do to the system: which
mappings they create and remove, what they reserve and free in the driver, and
which cells of the table of huge pages they write.  Without this they are the calls
as they were.
-/

namespace C64Tools.Shm

open C64Tools.Kmod Transition

/-- A step that has succeeded; `munmap()` and `SHM_FREE` are noted when they are
called. -/
inductive ShmEffect where
  | mmap (virtAddr size : ℕ)
  | munmap (virtAddr size : ℕ)
  | shmAlloc (t : DspCache)
  | shmFree (t : DspCache)
  | setPage (pageNr : ℕ)
  deriving DecidableEq, Repr

/-- The cells which the loop over the huge pages writes. -/
def storedPages (pageAt : ℕ → Option ℕ) : ℕ → ℕ → List ShmEffect
  | 0, _ => []
  | left + 1, pageNr =>
      match pageAt pageNr with
      | some _ => .setPage pageNr :: storedPages pageAt left (pageNr + 1)
      | none => []

/-- What an allocation does, what it returns, and the tables after it. -/
structure ShmOutput where
  effects : List ShmEffect
  mem : DspMemRegion
  regions : Regions

/-- `dsp_shm_alloc_at()` with its effects. -/
def dspShmAllocAtTraced (o : ShmAnswers) (type : Option DspCache)
    (numBytes : ℕ) (r : Regions) : ShmOutput :=
  match type with
  | none => ⟨[], DspMemRegion.zero, r⟩
  | some t =>
      if (r.sharedMem t).mem.physAddr = 0 then
        let size := shmRound t numBytes
        let virt :=
          if t = .hugetlb then o.mmapped else (r.sharedMem t).mem.virtAddr
        let asked := r.setEntry t ⟨t, 0, virt, size⟩
        if t = .hugetlb ∧ virt = mapFailed then
          ⟨[], DspMemRegion.zero, asked⟩
        else
          let pages := if t = .hugetlb then [.mmap virt size] else []
          match o.shmAlloc with
          | none => ⟨pages, DspMemRegion.zero, asked⟩
          | some phys =>
              let mem : DspMemRegion := ⟨u32 phys, o.mmapped, size⟩
              let granted := r.setEntry t ⟨t, mem⟩
              if mem.virtAddr ≠ mapFailed then
                if t = .hugetlb then
                  let numPages :=
                    u32 (size + (dspHugetlbPagesize - 1)) >>>
                      dspHugetlbPageshift
                  let stored :=
                    storedPages (o.pageAt mem.virtAddr) numPages 0
                  match storePages (o.pageAt mem.virtAddr) numPages 0
                      r.hugetlbPagePhysAddr with
                  | (true, cells) =>
                      ⟨pages ++ .shmAlloc t :: stored, mem,
                        granted.setPages cells⟩
                  | (false, cells) =>
                      ⟨pages ++ .shmAlloc t :: stored ++
                          [.munmap mem.virtAddr mem.size],
                        DspMemRegion.zero, granted.setPages cells⟩
                else
                  ⟨[.shmAlloc t, .mmap mem.virtAddr mem.size], mem, granted⟩
              else ⟨pages ++ [.shmAlloc t], DspMemRegion.zero, granted⟩
      else ⟨[], DspMemRegion.zero, r⟩

/-- `dsp_shm_free()` with its effects. -/
def dspShmFreeTraced (ret : ℤ) (mem : DspMemRegion) (r : Regions) :
    List ShmEffect × ℤ × Regions :=
  match locGetCacheTypeByMem mem r with
  | some t =>
      let old := (r.sharedMem t).mem
      ((if old.virtAddr ≠ 0 then [.munmap old.virtAddr old.size] else []) ++
        [.shmFree t], ret, r.setEntry t ShmEntry.zero)
  | none => ([], 10, r)

variable {o : ShmAnswers} {t : DspCache} {numBytes : ℕ} {r : Regions}
  {mem : DspMemRegion} {ret : ℤ}

/-! ## The ways an allocation goes -/

theorem dspShmAllocAtTraced_refused (h : (r.sharedMem t).mem.physAddr ≠ 0) :
    dspShmAllocAtTraced o (some t) numBytes r = ⟨[], DspMemRegion.zero, r⟩ := by
  rw [dspShmAllocAtTraced, if_neg h]

/-- Shared memory is granted first and then mapped. -/
theorem dspShmAllocAtTraced_contig (ht : t ≠ .hugetlb)
    (h : (r.sharedMem t).mem.physAddr = 0) :
    dspShmAllocAtTraced o (some t) numBytes r =
      match o.shmAlloc with
      | none =>
          ⟨[], DspMemRegion.zero, r.setEntry t
            ⟨t, 0, (r.sharedMem t).mem.virtAddr, shmRound t numBytes⟩⟩
      | some phys =>
          let mem : DspMemRegion :=
            ⟨u32 phys, o.mmapped, shmRound t numBytes⟩
          if o.mmapped ≠ mapFailed then
            ⟨[.shmAlloc t, .mmap mem.virtAddr mem.size], mem,
              r.setEntry t ⟨t, mem⟩⟩
          else ⟨[.shmAlloc t], DspMemRegion.zero, r.setEntry t ⟨t, mem⟩⟩ := by
  rw [dspShmAllocAtTraced, if_pos h]
  simp only [ht, false_and, if_false, List.nil_append]

theorem dspShmAllocAtTraced_mmap_failed
    (h : (r.sharedMem .hugetlb).mem.physAddr = 0)
    (hmap : o.mmapped = mapFailed) :
    dspShmAllocAtTraced o (some .hugetlb) numBytes r =
      ⟨[], DspMemRegion.zero, r.setEntry .hugetlb
        ⟨.hugetlb, 0, mapFailed, shmRound .hugetlb numBytes⟩⟩ := by
  rw [dspShmAllocAtTraced, if_pos h]
  simp only [hmap, if_true, true_and]

theorem dspShmAllocAtTraced_ioctl_failed
    (h : (r.sharedMem .hugetlb).mem.physAddr = 0)
    (hmap : o.mmapped ≠ mapFailed) (hioctl : o.shmAlloc = none) :
    dspShmAllocAtTraced o (some .hugetlb) numBytes r =
      ⟨[.mmap o.mmapped (shmRound .hugetlb numBytes)], DspMemRegion.zero,
        r.setEntry .hugetlb
          ⟨.hugetlb, 0, o.mmapped, shmRound .hugetlb numBytes⟩⟩ := by
  rw [dspShmAllocAtTraced, if_pos h]
  simp only [hmap, hioctl, if_true, true_and, if_false]

/-- Huge pages are mapped first and then registered, and at last the addresses of
the pages are asked for. -/
theorem dspShmAllocAtTraced_pages
    (h : (r.sharedMem .hugetlb).mem.physAddr = 0)
    (hmap : o.mmapped ≠ mapFailed) {phys : ℕ} (hioctl : o.shmAlloc = some phys)
    {done : Bool} {cells : ℕ → ℕ}
    (hstore : storePages (o.pageAt o.mmapped)
      (shmRound .hugetlb numBytes >>> dspHugetlbPageshift) 0
      r.hugetlbPagePhysAddr = (done, cells)) :
    dspShmAllocAtTraced o (some .hugetlb) numBytes r =
      let mem : DspMemRegion :=
        ⟨u32 phys, o.mmapped, shmRound .hugetlb numBytes⟩
      let acquired := .mmap mem.virtAddr mem.size :: .shmAlloc .hugetlb ::
        storedPages (o.pageAt o.mmapped)
          (shmRound .hugetlb numBytes >>> dspHugetlbPageshift) 0
      let regions := (r.setEntry .hugetlb ⟨.hugetlb, mem⟩).setPages cells
      if done then ⟨acquired, mem, regions⟩
      else ⟨acquired ++ [.munmap mem.virtAddr mem.size], DspMemRegion.zero,
        regions⟩ := by
  have hpages := (shmRound_hugetlb numBytes).2
  rw [dspShmAllocAtTraced, if_pos h]
  simp only [hmap, hioctl, hpages, hstore, if_true, true_and, if_false, ne_eq,
    not_false_iff]
  cases done with
  | true => rfl
  | false => rfl

/-! ## The calls without their effects -/

theorem dspShmAllocAt_pages
    (h : (r.sharedMem .hugetlb).mem.physAddr = 0)
    (hmap : o.mmapped ≠ mapFailed) {phys : ℕ} (hioctl : o.shmAlloc = some phys)
    {done : Bool} {cells : ℕ → ℕ}
    (hstore : storePages (o.pageAt o.mmapped)
      (shmRound .hugetlb numBytes >>> dspHugetlbPageshift) 0
      r.hugetlbPagePhysAddr = (done, cells)) :
    dspShmAllocAt o (some .hugetlb) numBytes r =
      let mem : DspMemRegion :=
        ⟨u32 phys, o.mmapped, shmRound .hugetlb numBytes⟩
      (if done then mem else DspMemRegion.zero,
        (r.setEntry .hugetlb ⟨.hugetlb, mem⟩).setPages cells) := by
  have hpages := (shmRound_hugetlb numBytes).2
  rw [dspShmAllocAt, if_pos h]
  simp only [hmap, hioctl, hpages, hstore, if_true, true_and, if_false, ne_eq,
    not_false_iff]
  cases done with
  | true => rfl
  | false => rfl

/-- The ways an allocation goes, of which there is one for all arguments. -/
inductive AllocWay (o : ShmAnswers) (numBytes : ℕ) (r : Regions) :
    DspCache → Prop
  | refused {t : DspCache} : (r.sharedMem t).mem.physAddr ≠ 0 →
      AllocWay o numBytes r t
  | contig {t : DspCache} : t ≠ .hugetlb → (r.sharedMem t).mem.physAddr = 0 →
      AllocWay o numBytes r t
  | mmapFailed : (r.sharedMem .hugetlb).mem.physAddr = 0 →
      o.mmapped = mapFailed → AllocWay o numBytes r .hugetlb
  | ioctlFailed : (r.sharedMem .hugetlb).mem.physAddr = 0 →
      o.mmapped ≠ mapFailed → o.shmAlloc = none →
      AllocWay o numBytes r .hugetlb
  | pages {phys : ℕ} {done : Bool} {cells : ℕ → ℕ} :
      (r.sharedMem .hugetlb).mem.physAddr = 0 →
      o.mmapped ≠ mapFailed → o.shmAlloc = some phys →
      storePages (o.pageAt o.mmapped)
        (shmRound .hugetlb numBytes >>> dspHugetlbPageshift) 0
        r.hugetlbPagePhysAddr = (done, cells) →
      AllocWay o numBytes r .hugetlb

theorem allocWay (o : ShmAnswers) (numBytes : ℕ) (r : Regions)
    (t : DspCache) : AllocWay o numBytes r t := by
  by_cases h : (r.sharedMem t).mem.physAddr = 0
  · by_cases ht : t = .hugetlb
    · subst ht
      by_cases hmap : o.mmapped = mapFailed
      · exact .mmapFailed h hmap
      · cases hioctl : o.shmAlloc with
        | none => exact .ioctlFailed h hmap hioctl
        | some phys => exact .pages h hmap hioctl (Prod.mk.eta).symm
    · exact .contig ht h
  · exact .refused h

theorem dspShmAllocAtTraced_eq (o : ShmAnswers) (type : Option DspCache)
    (numBytes : ℕ) (r : Regions) :
    dspShmAllocAt o type numBytes r =
      ((dspShmAllocAtTraced o type numBytes r).mem,
        (dspShmAllocAtTraced o type numBytes r).regions) := by
  cases type with
  | none => rfl
  | some t =>
      cases allocWay o numBytes r t with
      | refused h => rw [dspShmAllocAt_refused h, dspShmAllocAtTraced_refused h]
      | contig ht h =>
          rw [dspShmAllocAt_contig ht h, dspShmAllocAtTraced_contig ht h]
          cases o.shmAlloc with
          | none => rfl
          | some phys =>
              by_cases hmap : o.mmapped = mapFailed
              · simp only [hmap, ne_eq, not_true, if_false]
              · simp only [hmap, ne_eq, not_false_iff, if_true]
      | mmapFailed h hmap =>
          rw [dspShmAllocAt_mmap_failed h hmap,
            dspShmAllocAtTraced_mmap_failed h hmap]
      | ioctlFailed h hmap hioctl =>
          rw [dspShmAllocAt_ioctl_failed h hioctl,
            dspShmAllocAtTraced_ioctl_failed h hmap hioctl]
      | @pages _ done _ h hmap hioctl hstore =>
          rw [dspShmAllocAt_pages h hmap hioctl hstore,
            dspShmAllocAtTraced_pages h hmap hioctl hstore]
          cases done with
          | true => rfl
          | false => rfl

/-- Unless it is refused, an allocation writes the entry of its type, and what is
returned is the region in there. -/
theorem exists_entry_dspShmAllocAt (o : ShmAnswers) (numBytes : ℕ)
    (h : (r.sharedMem t).mem.physAddr = 0) :
    ∃ mem cells, (dspShmAllocAt o (some t) numBytes r).2 =
        (r.setEntry t ⟨t, mem⟩).setPages cells ∧
      ((dspShmAllocAt o (some t) numBytes r).1 = DspMemRegion.zero ∨
        (dspShmAllocAt o (some t) numBytes r).1 = mem ∧
          mem.virtAddr = o.mmapped ∧
          o.shmAlloc.map u32 = some mem.physAddr) := by
  cases allocWay o numBytes r t with
  | refused hne => exact absurd h hne
  | contig ht h =>
      rw [dspShmAllocAt_contig ht h]
      cases hioctl : o.shmAlloc with
      | none => exact ⟨_, r.hugetlbPagePhysAddr, rfl, .inl rfl⟩
      | some phys =>
          refine ⟨_, r.hugetlbPagePhysAddr, rfl, ?_⟩
          by_cases hmap : o.mmapped = mapFailed
          · exact .inl (if_neg (not_not.mpr hmap))
          · exact .inr ⟨if_pos hmap, rfl, rfl⟩
  | mmapFailed h hmap =>
      rw [dspShmAllocAt_mmap_failed h hmap]
      exact ⟨_, r.hugetlbPagePhysAddr, rfl, .inl rfl⟩
  | ioctlFailed h hmap hioctl =>
      rw [dspShmAllocAt_ioctl_failed h hioctl]
      exact ⟨_, r.hugetlbPagePhysAddr, rfl, .inl rfl⟩
  | @pages _ done cells h hmap hioctl hstore =>
      rw [dspShmAllocAt_pages h hmap hioctl hstore]
      refine ⟨_, cells, rfl, ?_⟩
      cases done with
      | true => exact .inr ⟨rfl, rfl, by rw [hioctl]; rfl⟩
      | false => exact .inl rfl

theorem dspShmFreeTraced_eq (ret : ℤ) (mem : DspMemRegion) (r : Regions) :
    dspShmFree ret mem r = (dspShmFreeTraced ret mem r).2 := by
  rw [dspShmFreeTraced, dspShmFree]
  cases locGetCacheTypeByMem mem r with
  | none => rfl
  | some t => rfl

end C64Tools.Shm
