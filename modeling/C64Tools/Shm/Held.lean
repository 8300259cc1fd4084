import C64Tools.Shm.Regions

/-!
# Regions handed out

Histories of allocations and frees, with a record of the regions that are
handed out.  An allocation that is given up in the middle leaves part of what
it has written in its entry, and a short area of huge pages leaves the cells
behind it as they were.  Histories in which neither happens keep the tables
tidy: every entry is either the region handed out or holds no address.
-/

namespace C64Tools.Shm

open C64Tools.Kmod Transition Translation

/-- A region handed out; `pages` are the physical addresses of its pages if
they are huge pages. -/
structure Held where
  mem : DspMemRegion
  pages : ℕ → ℕ

/-- A huge page. -/
def Held.pageSpan (h : Held) (k : ℕ) : Span :=
  ⟨h.mem.virtAddr + k <<< dspHugetlbPageshift, h.pages k, dspHugetlbPagesize⟩

/-- The pieces in which a region is mapped. -/
def Held.spans (h : Held) (t : DspCache) : List Span :=
  if t = .hugetlb then
    (List.range (h.mem.size >>> dspHugetlbPageshift)).map h.pageSpan
  else [⟨h.mem.virtAddr, h.mem.physAddr, h.mem.size⟩]

/-- The tables and the regions handed out of each type. -/
structure ShmProcess where
  regions : Regions
  held : DspCache → Option Held

namespace ShmProcess

/-- After `dsp_open`. -/
def opened (l1Virt l2Virt : ℕ) : ShmProcess where
  regions := Regions.opened l1Virt l2Virt
  held := fun _ => none

/-- The pieces of the region of a type. -/
def spansOf (s : ShmProcess) (t : DspCache) : List Span :=
  match s.held t with
  | some h => h.spans t
  | none => []

/-- Everything that is mapped: the two SRAM areas, which are from `dsp_open`
on, and the regions handed out. -/
def spans (s : ShmProcess) : List Span :=
  ⟨s.regions.l1sramFshm.virtAddr, s.regions.l1sramFshm.physAddr,
      s.regions.l1sramFshm.size⟩ ::
    ⟨s.regions.l2sramFshm.virtAddr, s.regions.l2sramFshm.physAddr,
      s.regions.l2sramFshm.size⟩ ::
    DspCache.all.flatMap s.spansOf

end ShmProcess

/-! ## Histories -/

/-- A call of the process, with the answers of the kernel. -/
inductive ShmCall where
  | alloc (type : Option DspCache) (numBytes : ℕ) (o : ShmAnswers)
  | free (mem : DspMemRegion) (ret : ℤ)

/-- No memory starts at the physical address `0`. -/
def ShmAnswers.Valid (o : ShmAnswers) : Prop :=
  o.shmAlloc.map u32 ≠ some 0

instance (o : ShmAnswers) : Decidable o.Valid := by
  unfold ShmAnswers.Valid
  infer_instance

/-- Note a region which `dsp_shm_alloc_at` returned. -/
def handOut (o : ShmAnswers) (type : Option DspCache) (mem : DspMemRegion)
    (held : DspCache → Option Held) : DspCache → Option Held :=
  match type with
  | some t =>
      if mem = DspMemRegion.zero then held
      else Function.update held t
        (some ⟨mem, fun k => (o.pageAt mem.virtAddr k).getD 0⟩)
  | none => held

/-- Strike out the region which `dsp_shm_free` unmaps. -/
def takeBack (type : Option DspCache) (held : DspCache → Option Held) :
    DspCache → Option Held :=
  match type with
  | some t => Function.update held t none
  | none => held

/-- One call. -/
def shmNext (s : ShmProcess) : ShmCall → Option ShmProcess
  | .alloc type numBytes o =>
      if o.Valid then
        let res := dspShmAllocAt o type numBytes s.regions
        some ⟨res.2, handOut o type res.1 s.held⟩
      else none
  | .free mem ret =>
      some ⟨(dspShmFree ret mem s.regions).2,
        takeBack (locGetCacheTypeByMem mem s.regions) s.held⟩

/-- All histories of a process. -/
def shmMachine (l1Virt l2Virt : ℕ) : Machine ShmProcess ShmCall :=
  Machine.ofNext (ShmProcess.opened l1Virt l2Virt) shmNext

/-! ## Allocations that leave nothing behind -/

/-- The pages all have an answer and fit into the table, and what stands in
the cells behind them is the address of one of them. -/
def ShmAnswers.FillsTable (o : ShmAnswers) (numPages : ℕ)
    (cells : ℕ → ℕ) : Prop :=
  numPages ≤ dspHugetlbMaxpages ∧
    (∀ k < numPages, o.pageAt o.mmapped k ≠ none) ∧
    ∀ k < dspHugetlbMaxpages, numPages ≤ k →
      ∃ j < numPages, o.pageAt o.mmapped j = some (cells k)

instance (o : ShmAnswers) (numPages : ℕ) (cells : ℕ → ℕ) :
    Decidable (o.FillsTable numPages cells) := by
  unfold ShmAnswers.FillsTable
  infer_instance

/-- The answers let the allocation succeed, or fail where nothing has been
written that a translation would find. -/
def ShmAnswers.Settles (o : ShmAnswers) (t : DspCache) (size : ℕ)
    (cells : ℕ → ℕ) : Prop :=
  if t = .hugetlb then
    o.mmapped = mapFailed ∨ (o.shmAlloc = none ∧ size = 0) ∨
      (o.shmAlloc ≠ none ∧
        o.FillsTable (size >>> dspHugetlbPageshift) cells)
  else size = 0 ∨ (o.shmAlloc ≠ none ∧ o.mmapped ≠ mapFailed)

instance (o : ShmAnswers) (t : DspCache) (size : ℕ) (cells : ℕ → ℕ) :
    Decidable (o.Settles t size cells) := by
  unfold ShmAnswers.Settles
  infer_instance

/-- The call is refused at once, or settles; a free always does. -/
def LeavesNothing (s : ShmProcess) : ShmCall → Prop
  | .alloc (some t) numBytes o =>
      (s.regions.sharedMem t).mem.physAddr ≠ 0 ∨
        o.Settles t (shmRound t numBytes) s.regions.hugetlbPagePhysAddr
  | .alloc none _ _ => True
  | .free _ _ => True

instance (s : ShmProcess) (e : ShmCall) : Decidable (LeavesNothing s e) := by
  unfold LeavesNothing
  split <;> infer_instance

/-! ## Tidy tables -/

/-- No address passes the bounds tests of the entry. -/
def Silent (t : DspCache) (mem : DspMemRegion) : Prop :=
  if t = .hugetlb then
    mem.physAddr = 0 ∧ (mem.virtAddr = mapFailed ∨ mem.size = 0)
  else mem.size = 0

/-- The table of huge pages is that of the region. -/
structure Held.PagesKept (h : Held) (cells : ℕ → ℕ) : Prop where
  size_eq : h.mem.size =
    (h.mem.size >>> dspHugetlbPageshift) <<< dspHugetlbPageshift
  fits : h.mem.size >>> dspHugetlbPageshift ≤ dspHugetlbMaxpages
  kept : ∀ k < h.mem.size >>> dspHugetlbPageshift, cells k = h.pages k
  behind : ∀ k < dspHugetlbMaxpages, h.mem.size >>> dspHugetlbPageshift ≤ k →
    ∃ j < h.mem.size >>> dspHugetlbPageshift, cells j = cells k

/-- The entry of a type is the region handed out, or is silent. -/
def TidyAt (r : Regions) (t : DspCache) : Option Held → Prop
  | some h =>
      r.sharedMem t = ⟨t, h.mem⟩ ∧ h.mem.physAddr ≠ 0 ∧
        (t = .hugetlb → h.PagesKept r.hugetlbPagePhysAddr)
  | none => Silent t (r.sharedMem t).mem

/-- All entries are tidy. -/
def Tidy (s : ShmProcess) : Prop :=
  ∀ t, TidyAt s.regions t (s.held t)

theorem silent_zero (t : DspCache) : Silent t DspMemRegion.zero := by
  unfold Silent DspMemRegion.zero
  split <;> simp

theorem shmRound_hugetlb (numBytes : ℕ) :
    shmRound .hugetlb numBytes =
        (shmRound .hugetlb numBytes >>> dspHugetlbPageshift) <<<
          dspHugetlbPageshift ∧
      u32 (shmRound .hugetlb numBytes + (dspHugetlbPagesize - 1)) >>>
          dspHugetlbPageshift =
        shmRound .hugetlb numBytes >>> dspHugetlbPageshift := by
  simp only [shmRound, shmPageshift, dspHugetlbPagesize, dspHugetlbPageshift,
    u32, Nat.shiftLeft_eq, Nat.shiftRight_eq_div_pow]
  omega

/-- With an answer for every page the loop stores all of them. -/
theorem storePages_eq {pageAt : ℕ → Option ℕ} (left pageNr : ℕ)
    (cells : ℕ → ℕ)
    (hall : ∀ k, pageNr ≤ k → k < pageNr + left → pageAt k ≠ none) :
    storePages pageAt left pageNr cells =
      (true, fun k =>
        if pageNr ≤ k ∧ k < pageNr + left then (pageAt k).getD 0
        else cells k) := by
  induction left generalizing pageNr cells with
  | zero =>
      have hnone (k : ℕ) : ¬(pageNr ≤ k ∧ k < pageNr + 0) := by omega
      exact congrArg _ (funext fun k => (if_neg (hnone k)).symm)
  | succ left ih =>
      obtain ⟨addr, haddr⟩ := Option.ne_none_iff_exists'.mp
        (hall pageNr le_rfl (by omega))
      rw [storePages, haddr]
      simp only
      rw [ih (pageNr + 1) _ fun k hlow hhigh =>
        hall k (by omega) (by omega)]
      refine congrArg _ (funext fun k => ?_)
      by_cases hk : k = pageNr
      · subst hk
        simp [haddr]
      · rw [Function.update_of_ne hk]
        exact if_congr (by omega) rfl rfl

theorem tidy_opened (l1Virt l2Virt : ℕ) :
    Tidy (ShmProcess.opened l1Virt l2Virt) :=
  fun t => silent_zero t

/-! ## What one call does -/

section Calls

variable {o : ShmAnswers} {t : DspCache} {numBytes : ℕ} {r : Regions}

theorem dspShmAllocAt_refused (h : (r.sharedMem t).mem.physAddr ≠ 0) :
    dspShmAllocAt o (some t) numBytes r = (DspMemRegion.zero, r) := by
  simp only [dspShmAllocAt]
  exact if_neg h

/-- Shared memory: the entry holds what was asked for, or what was granted. -/
theorem dspShmAllocAt_contig (ht : t ≠ .hugetlb)
    (h : (r.sharedMem t).mem.physAddr = 0) :
    dspShmAllocAt o (some t) numBytes r =
      match o.shmAlloc with
      | none =>
          (DspMemRegion.zero, r.setEntry t
            ⟨t, 0, (r.sharedMem t).mem.virtAddr, shmRound t numBytes⟩)
      | some phys =>
          (if o.mmapped ≠ mapFailed then
              ⟨u32 phys, o.mmapped, shmRound t numBytes⟩
            else DspMemRegion.zero,
            r.setEntry t ⟨t, u32 phys, o.mmapped, shmRound t numBytes⟩) := by
  simp only [dspShmAllocAt, if_pos h, ht, false_and, if_false]
  cases o.shmAlloc with
  | none => rfl
  | some phys =>
      simp only
      split <;> rfl

theorem dspShmAllocAt_mmap_failed
    (h : (r.sharedMem .hugetlb).mem.physAddr = 0)
    (hmap : o.mmapped = mapFailed) :
    dspShmAllocAt o (some .hugetlb) numBytes r =
      (DspMemRegion.zero, r.setEntry .hugetlb
        ⟨.hugetlb, 0, mapFailed, shmRound .hugetlb numBytes⟩) := by
  simp [dspShmAllocAt, h, hmap]

theorem dspShmAllocAt_ioctl_failed
    (h : (r.sharedMem .hugetlb).mem.physAddr = 0) (hioctl : o.shmAlloc = none) :
    dspShmAllocAt o (some .hugetlb) numBytes r =
      (DspMemRegion.zero, r.setEntry .hugetlb
        ⟨.hugetlb, 0, o.mmapped, shmRound .hugetlb numBytes⟩) := by
  by_cases hmap : o.mmapped = mapFailed
  · rw [dspShmAllocAt_mmap_failed h hmap, hmap]
  · simp [dspShmAllocAt, h, hmap, hioctl]

/-- Huge pages whose addresses are all known. -/
theorem dspShmAllocAt_hugetlb
    (h : (r.sharedMem .hugetlb).mem.physAddr = 0)
    (hmap : o.mmapped ≠ mapFailed) {phys : ℕ} (hioctl : o.shmAlloc = some phys)
    (hall : ∀ k < shmRound .hugetlb numBytes >>> dspHugetlbPageshift,
      o.pageAt o.mmapped k ≠ none) :
    dspShmAllocAt o (some .hugetlb) numBytes r =
      (⟨u32 phys, o.mmapped, shmRound .hugetlb numBytes⟩,
        (r.setEntry .hugetlb
          ⟨.hugetlb, u32 phys, o.mmapped,
            shmRound .hugetlb numBytes⟩).setPages fun k =>
          if k < shmRound .hugetlb numBytes >>> dspHugetlbPageshift then
            (o.pageAt o.mmapped k).getD 0
          else r.hugetlbPagePhysAddr k) := by
  have hstore := storePages_eq
    (shmRound .hugetlb numBytes >>> dspHugetlbPageshift) 0
    r.hugetlbPagePhysAddr fun k _ hk => hall k (by omega)
  simp only [Nat.zero_le, true_and, Nat.zero_add] at hstore
  simp [dspShmAllocAt, h, hmap, hioctl, (shmRound_hugetlb numBytes).2, hstore]

end Calls

/-! ## Calls keep the tables tidy -/

theorem tidyAt_setEntry_of_ne {r : Regions} {t t' : DspCache} {e : ShmEntry}
    {h : Option Held} (hne : t' ≠ t) (htidy : TidyAt r t' h) :
    TidyAt (r.setEntry t e) t' h := by
  cases h with
  | none => simpa [TidyAt, Regions.setEntry, hne] using htidy
  | some h => simpa [TidyAt, Regions.setEntry, hne] using htidy

theorem tidyAt_setPages {r : Regions} {t : DspCache} {cells : ℕ → ℕ}
    {h : Option Held} (hne : t ≠ .hugetlb) (htidy : TidyAt r t h) :
    TidyAt (r.setPages cells) t h := by
  cases h with
  | none => exact htidy
  | some h => exact ⟨htidy.1, htidy.2.1, fun ht => absurd ht hne⟩

/-- An entry with no region handed out. -/
theorem tidyAt_setEntry_none {r : Regions} {t : DspCache} {e : ShmEntry}
    (h : Silent t e.mem) : TidyAt (r.setEntry t e) t none := by
  simpa [TidyAt, Regions.setEntry] using h

/-- Nothing is handed out of a type without a physical address. -/
theorem TidyAt.eq_none {r : Regions} {t : DspCache} {h : Option Held}
    (htidy : TidyAt r t h) (hphys : (r.sharedMem t).mem.physAddr = 0) :
    h = none := by
  cases h with
  | none => rfl
  | some h =>
      obtain ⟨hentry, hne, -⟩ := htidy
      rw [hentry] at hphys
      exact absurd hphys hne

@[simp] theorem handOut_zero (o : ShmAnswers) (type : Option DspCache)
    (held : DspCache → Option Held) :
    handOut o type DspMemRegion.zero held = held := by
  cases type with
  | none => rfl
  | some t => simp [handOut]

theorem handOut_of_ne (o : ShmAnswers) (t : DspCache) {mem : DspMemRegion}
    (held : DspCache → Option Held) (h : mem.physAddr ≠ 0) :
    handOut o (some t) mem held = Function.update held t
      (some ⟨mem, fun k => (o.pageAt mem.virtAddr k).getD 0⟩) := by
  have hne : mem ≠ DspMemRegion.zero := by
    rintro rfl
    exact h rfl
  exact if_neg hne

section Steps

variable {s : ShmProcess} {o : ShmAnswers} {t : DspCache} {numBytes : ℕ}

/-- The entry of a type is replaced and nothing is handed out. -/
theorem tidy_setEntry (htidy : Tidy s) {e : ShmEntry} (hnone : s.held t = none)
    (h : Silent t e.mem) : Tidy ⟨s.regions.setEntry t e, s.held⟩ := by
  intro t'
  by_cases hne : t' = t
  · subst hne
    simpa only [hnone] using tidyAt_setEntry_none h
  · exact tidyAt_setEntry_of_ne hne (htidy t')

/-- The entry of a type is replaced and its region handed out. -/
theorem tidy_setEntry_handOut (htidy : Tidy s) {mem : DspMemRegion}
    (ht : t ≠ .hugetlb) (hphys : mem.physAddr ≠ 0) :
    Tidy ⟨s.regions.setEntry t ⟨t, mem⟩, handOut o (some t) mem s.held⟩ := by
  intro t'
  simp only [handOut_of_ne o t s.held hphys]
  by_cases hne : t' = t
  · subst hne
    rw [Function.update_self]
    exact ⟨by simp [Regions.setEntry], hphys, fun h => absurd h ht⟩
  · rw [Function.update_of_ne hne]
    exact tidyAt_setEntry_of_ne hne (htidy t')

/-- The same for huge pages, whose table is replaced as well. -/
theorem tidy_setPages_handOut (htidy : Tidy s) {mem : DspMemRegion}
    {cells : ℕ → ℕ} (hphys : mem.physAddr ≠ 0)
    (hkept : Held.PagesKept
      ⟨mem, fun k => (o.pageAt mem.virtAddr k).getD 0⟩ cells) :
    Tidy ⟨(s.regions.setEntry .hugetlb ⟨.hugetlb, mem⟩).setPages cells,
      handOut o (some .hugetlb) mem s.held⟩ := by
  intro t
  simp only [handOut_of_ne o .hugetlb s.held hphys]
  by_cases ht : t = .hugetlb
  · subst ht
    rw [Function.update_self]
    exact ⟨by simp [Regions.setEntry, Regions.setPages], hphys,
      fun _ => hkept⟩
  · rw [Function.update_of_ne ht]
    exact tidyAt_setPages ht (tidyAt_setEntry_of_ne ht (htidy t))

theorem tidy_alloc_contig (htidy : Tidy s) (hvalid : o.Valid)
    (ht : t ≠ .hugetlb)
    (hphys : (s.regions.sharedMem t).mem.physAddr = 0)
    (hsettles : o.Settles t (shmRound t numBytes)
      s.regions.hugetlbPagePhysAddr) :
    Tidy ⟨(dspShmAllocAt o (some t) numBytes s.regions).2,
      handOut o (some t) (dspShmAllocAt o (some t) numBytes s.regions).1
        s.held⟩ := by
  have hnone := (htidy t).eq_none hphys
  rw [ShmAnswers.Settles, if_neg ht] at hsettles
  rw [dspShmAllocAt_contig ht hphys]
  cases hioctl : o.shmAlloc with
  | none =>
      have hempty : shmRound t numBytes = 0 :=
        hsettles.resolve_right fun h => h.1 hioctl
      simp only [handOut_zero]
      exact tidy_setEntry htidy hnone (by simp [Silent, ht, hempty])
  | some phys =>
      simp only
      by_cases hmap : o.mmapped = mapFailed
      · have hempty : shmRound t numBytes = 0 :=
          hsettles.resolve_right fun h => h.2 hmap
        rw [if_neg (not_not.mpr hmap), handOut_zero]
        exact tidy_setEntry htidy hnone (by simp [Silent, ht, hempty])
      · rw [if_pos hmap]
        refine tidy_setEntry_handOut htidy ht ?_
        simpa [ShmAnswers.Valid, hioctl] using hvalid

theorem tidy_alloc_hugetlb (htidy : Tidy s) (hvalid : o.Valid)
    (hphys : (s.regions.sharedMem .hugetlb).mem.physAddr = 0)
    (hsettles : o.Settles .hugetlb (shmRound .hugetlb numBytes)
      s.regions.hugetlbPagePhysAddr) :
    Tidy ⟨(dspShmAllocAt o (some .hugetlb) numBytes s.regions).2,
      handOut o (some .hugetlb)
        (dspShmAllocAt o (some .hugetlb) numBytes s.regions).1 s.held⟩ := by
  have hnone := (htidy .hugetlb).eq_none hphys
  rw [ShmAnswers.Settles, if_pos rfl] at hsettles
  by_cases hmap : o.mmapped = mapFailed
  · rw [dspShmAllocAt_mmap_failed hphys hmap]
    simp only [handOut_zero]
    exact tidy_setEntry htidy hnone (by simp [Silent])
  · cases hioctl : o.shmAlloc with
    | none =>
        obtain hempty : shmRound .hugetlb numBytes = 0 := by
          simpa [hmap, hioctl] using hsettles
        rw [dspShmAllocAt_ioctl_failed hphys hioctl]
        simp only [handOut_zero]
        exact tidy_setEntry htidy hnone (by simp [Silent, hempty])
    | some phys =>
        obtain ⟨hfits, hall, hbehind⟩ : o.FillsTable
            (shmRound .hugetlb numBytes >>> dspHugetlbPageshift)
            s.regions.hugetlbPagePhysAddr := by
          simpa [hmap, hioctl] using hsettles
        rw [dspShmAllocAt_hugetlb hphys hmap hioctl hall]
        refine tidy_setPages_handOut htidy ?_ ?_
        · simpa [ShmAnswers.Valid, hioctl] using hvalid
        · refine ⟨(shmRound_hugetlb numBytes).1, hfits, ?_, ?_⟩
          · intro k hk
            exact if_pos hk
          · intro k hk hle
            obtain ⟨j, hj, hpage⟩ := hbehind k hk hle
            refine ⟨j, hj, ?_⟩
            rw [if_pos hj, if_neg (not_lt.mpr hle), hpage]
            rfl

theorem tidy_free (htidy : Tidy s) (mem : DspMemRegion) (ret : ℤ) :
    Tidy ⟨(dspShmFree ret mem s.regions).2,
      takeBack (locGetCacheTypeByMem mem s.regions) s.held⟩ := by
  unfold dspShmFree
  cases locGetCacheTypeByMem mem s.regions with
  | none => exact htidy
  | some t =>
      intro t'
      simp only [takeBack]
      by_cases hne : t' = t
      · subst hne
        rw [Function.update_self]
        exact tidyAt_setEntry_none (silent_zero t')
      · rw [Function.update_of_ne hne]
        exact tidyAt_setEntry_of_ne hne (htidy t')

end Steps

/-- One call that leaves nothing behind. -/
theorem tidy_next {s s' : ShmProcess} {e : ShmCall} (htidy : Tidy s)
    (hleaves : LeavesNothing s e) (hnext : shmNext s e = some s') :
    Tidy s' := by
  cases e with
  | alloc type numBytes o =>
      obtain ⟨hvalid, hs'⟩ := Option.ite_none_right_eq_some.mp hnext
      obtain rfl := Option.some.inj hs'
      cases type with
      | none => exact htidy
      | some t =>
          by_cases hphys : (s.regions.sharedMem t).mem.physAddr = 0
          · have hsettles := hleaves.resolve_left (not_not.mpr hphys)
            by_cases ht : t = .hugetlb
            · subst ht
              exact tidy_alloc_hugetlb htidy hvalid hphys hsettles
            · exact tidy_alloc_contig htidy hvalid ht hphys hsettles
          · simp only [dspShmAllocAt_refused hphys, handOut_zero]
            exact htidy
  | free mem ret =>
      obtain rfl := Option.some.inj hnext
      exact tidy_free htidy mem ret

/-- Histories of such calls keep the tables tidy. -/
theorem tidy_of_reachable {l1Virt l2Virt : ℕ} {s : ShmProcess}
    (hs : ((shmMachine l1Virt l2Virt).restrict LeavesNothing).Reachable s) :
    Tidy s := by
  refine hs.invariant (P := Tidy) ?_ ?_
  · rintro _ rfl
    exact tidy_opened l1Virt l2Virt
  · rintro s e s' htidy ⟨hleaves, hnext⟩
    exact tidy_next htidy hleaves hnext

end C64Tools.Shm
