import C64Tools.Shm.Effects
import C64Tools.Shm.RoundTrip

/-!
# Allocations that fail half way

`dsp_shm_alloc_at()` acquires one thing after the other, and gives back nearly
nothing when it cannot go on: shared memory that cannot be mapped stays reserved,
huge pages that the driver refuses stay mapped, and huge pages without an address
stay registered.  The number of huge pages is not compared with the length of the
table of their addresses.
-/

namespace C64Tools.Shm

open C64Tools.Kmod

/-! ## What is left -/

/-- What has been acquired and not given back. -/
structure ShmLeft where
  maps : List (ℕ × ℕ)
  reserved : List DspCache
  deriving DecidableEq, Repr

namespace ShmLeft

/-- Nothing at all. -/
def nothing : ShmLeft := ⟨[], []⟩

def after (l : ShmLeft) : ShmEffect → ShmLeft
  | .mmap virtAddr size => { l with maps := (virtAddr, size) :: l.maps }
  | .munmap virtAddr size => { l with maps := l.maps.erase (virtAddr, size) }
  | .shmAlloc t => { l with reserved := t :: l.reserved }
  | .shmFree t => { l with reserved := l.reserved.erase t }
  | .setPage _ => l

end ShmLeft

/-- What some effects leave. -/
def leftBy (effects : List ShmEffect) : ShmLeft :=
  effects.foldl ShmLeft.after ShmLeft.nothing

/-- The entry of a type can be used as before: allocations of the type are the
same, up to the tables after them; a region with an address is found to be freed as
before; and the other entries are what they were. -/
structure AsBefore (type : Option DspCache) (r r' : Regions) : Prop where
  alloc : ∀ o numBytes, dspShmAllocAtTraced o type numBytes r' =
    dspShmAllocAtTraced o type numBytes r
  found : ∀ mem, mem.physAddr ≠ 0 →
    locGetCacheTypeByMem mem r' = locGetCacheTypeByMem mem r
  others : ∀ t, type ≠ some t → r'.sharedMem t = r.sharedMem t

/-- An allocation that returns a region of size zero leaves nothing, one that
returns another region returns a large enough one, and no cell behind the table of
huge pages is written. -/
structure ShmOutput.Atomic (out : ShmOutput) (type : Option DspCache)
    (numBytes : ℕ) (r : Regions) : Prop where
  as_before : out.mem.size = 0 → AsBefore type r out.regions
  nothing_left : out.mem.size = 0 → leftBy out.effects = ShmLeft.nothing
  size_le : out.mem.size ≠ 0 → numBytes ≤ out.mem.size
  index_lt : ∀ i, .setPage i ∈ out.effects → i < dspHugetlbMaxpages

/-- Either the allocation fails before it has acquired anything, or it succeeds,
with a size that is not zero and no more huge pages than the table has cells. -/
def CleanOutcome (o : ShmAnswers) (type : Option DspCache) (numBytes : ℕ)
    (r : Regions) : Prop :=
  match type with
  | none => True
  | some t =>
      (r.sharedMem t).mem.physAddr ≠ 0 ∨
        if t = .hugetlb then
          let numPages := shmRound t numBytes >>> dspHugetlbPageshift
          o.mmapped = mapFailed ∨
            o.shmAlloc ≠ none ∧ 0 < numPages ∧
              numPages ≤ dspHugetlbMaxpages ∧
              ∀ k < numPages, o.pageAt o.mmapped k ≠ none
        else
          o.shmAlloc = none ∨ shmRound t numBytes ≠ 0 ∧ o.mmapped ≠ mapFailed

variable {o : ShmAnswers} {t : DspCache} {numBytes : ℕ} {r : Regions}

/-! ## Entries that have been given up -/

theorem sharedMem_setEntry (r : Regions) (t : DspCache) (e : ShmEntry) :
    (r.setEntry t e).sharedMem t = e :=
  Function.update_self _ _ _

theorem sharedMem_setEntry_of_ne (r : Regions) {t t' : DspCache}
    (e : ShmEntry) (h : t' ≠ t) :
    (r.setEntry t e).sharedMem t' = r.sharedMem t' :=
  Function.update_of_ne h _ _

theorem setEntry_setEntry (r : Regions) (t : DspCache) (e e' : ShmEntry) :
    (r.setEntry t e).setEntry t e' = r.setEntry t e' := by
  rw [Regions.setEntry, Regions.setEntry, Function.update_idem]
  rfl

/-- An allocation reads no more of an entry without an address than the virtual
address, and this only if it is not one of huge pages. -/
theorem dspShmAllocAtTraced_setEntry {e : ShmEntry}
    (hphys : (r.sharedMem t).mem.physAddr = 0) (he : e.mem.physAddr = 0)
    (hvirt : t ≠ .hugetlb →
      e.mem.virtAddr = (r.sharedMem t).mem.virtAddr) :
    dspShmAllocAtTraced o (some t) numBytes (r.setEntry t e) =
      dspShmAllocAtTraced o (some t) numBytes r := by
  have he' : ((r.setEntry t e).sharedMem t).mem.physAddr = 0 := by
    rwa [sharedMem_setEntry]
  cases allocWay o numBytes r t with
  | refused hne => exact absurd hphys hne
  | contig ht _ =>
      rw [dspShmAllocAtTraced_contig ht he',
        dspShmAllocAtTraced_contig ht hphys]
      simp only [setEntry_setEntry, sharedMem_setEntry, hvirt ht]
  | mmapFailed _ hmap =>
      rw [dspShmAllocAtTraced_mmap_failed he' hmap,
        dspShmAllocAtTraced_mmap_failed hphys hmap, setEntry_setEntry]
  | ioctlFailed _ hmap hioctl =>
      rw [dspShmAllocAtTraced_ioctl_failed he' hmap hioctl,
        dspShmAllocAtTraced_ioctl_failed hphys hmap hioctl, setEntry_setEntry]
  | pages _ hmap hioctl hstore =>
      have hstore' : storePages (o.pageAt o.mmapped)
          (shmRound .hugetlb numBytes >>> dspHugetlbPageshift) 0
          (r.setEntry .hugetlb e).hugetlbPagePhysAddr = _ := hstore
      rw [dspShmAllocAtTraced_pages he' hmap hioctl hstore',
        dspShmAllocAtTraced_pages hphys hmap hioctl hstore]
      simp only [setEntry_setEntry]

/-- A search for an address that is not zero passes over the entry. -/
theorem locGetCacheTypeByMem_setEntry {e : ShmEntry} {mem : DspMemRegion}
    (hphys : (r.sharedMem t).mem.physAddr = 0) (he : e.mem.physAddr = 0)
    (hmem : mem.physAddr ≠ 0) :
    locGetCacheTypeByMem mem (r.setEntry t e) = locGetCacheTypeByMem mem r := by
  have hsame : (fun t' => decide (mem.physAddr =
        ((r.setEntry t e).sharedMem t').mem.physAddr)) =
      fun t' => decide (mem.physAddr = (r.sharedMem t').mem.physAddr) := by
    funext t'
    by_cases ht : t' = t
    · subst ht
      rw [sharedMem_setEntry, he, hphys]
    · rw [sharedMem_setEntry_of_ne r e ht]
  rw [locGetCacheTypeByMem, locGetCacheTypeByMem, hsame]
  refine Option.map_congr fun t' ht' => ?_
  have hfound := List.find?_some (Option.mem_def.mp ht')
  have hne : t' ≠ t := by
    rintro rfl
    exact hmem ((of_decide_eq_true hfound).trans hphys)
  rw [sharedMem_setEntry_of_ne r e hne]

theorem asBefore_setEntry {e : ShmEntry}
    (hphys : (r.sharedMem t).mem.physAddr = 0) (he : e.mem.physAddr = 0)
    (hvirt : t ≠ .hugetlb →
      e.mem.virtAddr = (r.sharedMem t).mem.virtAddr) :
    AsBefore (some t) r (r.setEntry t e) where
  alloc _ _ := dspShmAllocAtTraced_setEntry hphys he hvirt
  found _ hmem := locGetCacheTypeByMem_setEntry hphys he hmem
  others _ ht := sharedMem_setEntry_of_ne r e fun heq => ht (congrArg some heq.symm)

theorem asBefore_refl (type : Option DspCache) (r : Regions) :
    AsBefore type r r where
  alloc _ _ := rfl
  found _ _ := rfl
  others _ _ := rfl

/-! ## Sizes -/

/-- A size which does not become zero is not made smaller. -/
theorem le_shmRound (ht : numBytes < 2 ^ 32) (hne : shmRound t numBytes ≠ 0) :
    numBytes ≤ shmRound t numBytes := by
  revert hne
  cases t <;>
    simp only [shmRound, shmPageshift, dspPageshift, dspHugetlbPageshift, u32,
      Nat.shiftLeft_eq, Nat.shiftRight_eq_div_pow] <;>
    omega

theorem shmRound_hugetlb_eq_zero_iff :
    shmRound .hugetlb numBytes >>> dspHugetlbPageshift = 0 ↔
      shmRound .hugetlb numBytes = 0 := by
  simp only [shmRound, shmPageshift, dspHugetlbPageshift, u32,
    Nat.shiftLeft_eq, Nat.shiftRight_eq_div_pow]
  omega

/-! ## The loop over the huge pages -/

section Pages

variable {pageAt : ℕ → Option ℕ}

/-- The loop comes to its end if every page has an answer. -/
theorem storePages_done_iff (pageAt : ℕ → Option ℕ) (left pageNr : ℕ) (cells : ℕ → ℕ) :
    (storePages pageAt left pageNr cells).1 = true ↔
      ∀ k, pageNr ≤ k → k < pageNr + left → pageAt k ≠ none := by
  induction left generalizing pageNr cells with
  | zero =>
      refine iff_of_true rfl fun k hle hlt => ?_
      exact absurd hlt (Nat.not_lt.mpr hle)
  | succ left ih =>
      rw [storePages]
      cases hpage : pageAt pageNr with
      | none =>
          refine iff_of_false Bool.false_ne_true fun hall => ?_
          exact hall pageNr (Nat.le_refl _) (by omega) hpage
      | some addr =>
          simp only [ih]
          constructor
          · intro hall k hle hlt
            obtain rfl | hne := eq_or_ne k pageNr
            · rw [hpage]
              exact Option.some_ne_none addr
            · exact hall k (by omega) (by omega)
          · intro hall k hle hlt
            exact hall k (by omega) (by omega)

/-- The cells that are written, if every page has an answer. -/
theorem mem_storedPages_iff {left pageNr : ℕ} (hall :
      ∀ k, pageNr ≤ k → k < pageNr + left → pageAt k ≠ none) {i : ℕ} :
    .setPage i ∈ storedPages pageAt left pageNr ↔
      pageNr ≤ i ∧ i < pageNr + left := by
  induction left generalizing pageNr with
  | zero =>
      refine iff_of_false List.not_mem_nil ?_
      omega
  | succ left ih =>
      obtain ⟨addr, hpage⟩ := Option.ne_none_iff_exists'.mp
        (hall pageNr (Nat.le_refl _) (by omega))
      have hall' : ∀ k, pageNr + 1 ≤ k → k < pageNr + 1 + left →
          pageAt k ≠ none :=
        fun k hle hlt => hall k (by omega) (by omega)
      have hrest := ih hall'
      rw [storedPages, hpage]
      simp only [List.mem_cons, ShmEffect.setPage.injEq, hrest]
      omega

/-- Writing cells acquires nothing. -/
theorem foldl_after_storedPages (left pageNr : ℕ) (l : ShmLeft) :
    (storedPages pageAt left pageNr).foldl ShmLeft.after l = l := by
  induction left generalizing pageNr with
  | zero => rfl
  | succ left ih =>
      rw [storedPages]
      cases pageAt pageNr with
      | none => rfl
      | some addr => exact ih (pageNr + 1)

end Pages

/-! ## Outcomes -/

variable {type : Option DspCache} {r' : Regions} {mem : DspMemRegion}
  {effects : List ShmEffect}

/-- Nothing has been acquired. -/
theorem atomic_of_asBefore (h : AsBefore type r r') :
    ShmOutput.Atomic ⟨[], DspMemRegion.zero, r'⟩ type numBytes r where
  as_before _ := h
  nothing_left _ := rfl
  size_le hne := absurd rfl hne
  index_lt _ hmem := absurd hmem List.not_mem_nil

/-- Something has been acquired, but is not returned. -/
theorem not_atomic_of_left (hsize : mem.size = 0)
    (hleft : leftBy effects ≠ ShmLeft.nothing) :
    ¬ ShmOutput.Atomic ⟨effects, mem, r'⟩ type numBytes r :=
  fun h => hleft (h.nothing_left hsize)

/-- A region that is returned is as large as it was asked for. -/
theorem atomic_returned_iff (hne : mem.size ≠ 0) (hle : numBytes ≤ mem.size) :
    ShmOutput.Atomic ⟨effects, mem, r'⟩ type numBytes r ↔
      ∀ i, .setPage i ∈ effects → i < dspHugetlbMaxpages := by
  constructor
  · exact fun h => h.index_lt
  · exact fun h => ⟨fun hzero => absurd hzero hne,
      fun hzero => absurd hzero hne, fun _ => hle, h⟩

theorem cleanOutcome_contig_iff (ht : t ≠ .hugetlb)
    (h : (r.sharedMem t).mem.physAddr = 0) :
    CleanOutcome o (some t) numBytes r ↔
      o.shmAlloc = none ∨
        shmRound t numBytes ≠ 0 ∧ o.mmapped ≠ mapFailed := by
  rw [CleanOutcome, if_neg ht]
  exact or_iff_right (not_not.mpr h)

theorem cleanOutcome_hugetlb_iff
    (h : (r.sharedMem .hugetlb).mem.physAddr = 0) :
    CleanOutcome o (some .hugetlb) numBytes r ↔
      let numPages := shmRound .hugetlb numBytes >>> dspHugetlbPageshift
      o.mmapped = mapFailed ∨
        o.shmAlloc ≠ none ∧ 0 < numPages ∧ numPages ≤ dspHugetlbMaxpages ∧
          ∀ k < numPages, o.pageAt o.mmapped k ≠ none := by
  rw [CleanOutcome, if_pos rfl]
  exact or_iff_right (not_not.mpr h)

/-- Huge pages that are granted fit the table, and each has an address. -/
theorem cleanOutcome_granted_iff (h : (r.sharedMem .hugetlb).mem.physAddr = 0)
    (hmap : o.mmapped ≠ mapFailed) (hioctl : o.shmAlloc ≠ none) :
    CleanOutcome o (some .hugetlb) numBytes r ↔
      let numPages := shmRound .hugetlb numBytes >>> dspHugetlbPageshift
      0 < numPages ∧ numPages ≤ dspHugetlbMaxpages ∧
        ∀ k < numPages, o.pageAt o.mmapped k ≠ none := by
  rw [cleanOutcome_hugetlb_iff h]
  constructor
  · rintro (hfailed | ⟨-, hpages⟩)
    · exact absurd hfailed hmap
    · exact hpages
  · exact fun hpages => .inr ⟨hioctl, hpages⟩

theorem atomic_contig_iff (hnum : numBytes < 2 ^ 32) (ht : t ≠ .hugetlb)
    (h : (r.sharedMem t).mem.physAddr = 0) :
    (dspShmAllocAtTraced o (some t) numBytes r).Atomic (some t) numBytes r ↔
      CleanOutcome o (some t) numBytes r := by
  rw [dspShmAllocAtTraced_contig ht h, cleanOutcome_contig_iff ht h]
  cases hioctl : o.shmAlloc with
  | none =>
      refine iff_of_true (atomic_of_asBefore ?_) (.inl rfl)
      exact asBefore_setEntry h rfl fun _ => rfl
  | some phys =>
      simp only [reduceCtorEq, false_or]
      by_cases hmap : o.mmapped = mapFailed
      · rw [if_neg (not_not.mpr hmap)]
        refine iff_of_false ?_ fun hok => hok.2 hmap
        exact not_atomic_of_left rfl (by simp [leftBy, ShmLeft.after,
          ShmLeft.nothing])
      · rw [if_pos hmap]
        by_cases hsize : shmRound t numBytes = 0
        · refine iff_of_false ?_ fun hok => hok.1 hsize
          exact not_atomic_of_left hsize (by simp [leftBy, ShmLeft.after,
            ShmLeft.nothing])
        · refine iff_of_true ?_ ⟨hsize, hmap⟩
          refine (atomic_returned_iff hsize (le_shmRound hnum hsize)).mpr ?_
          intro i hi
          simp at hi

/-- After the loop huge pages are mapped and registered. -/
theorem leftBy_acquired (pageAt : ℕ → Option ℕ) (virtAddr size left : ℕ) :
    leftBy (.mmap virtAddr size :: .shmAlloc .hugetlb ::
      storedPages pageAt left 0) = ⟨[(virtAddr, size)], [.hugetlb]⟩ :=
  foldl_after_storedPages left 0 _

/-- If the loop has not come to its end, they stay registered. -/
theorem leftBy_unmapped (pageAt : ℕ → Option ℕ) (virtAddr size left : ℕ) :
    leftBy (.mmap virtAddr size :: .shmAlloc .hugetlb ::
      storedPages pageAt left 0 ++ [.munmap virtAddr size]) =
        ⟨[], [.hugetlb]⟩ := by
  have hacquired := leftBy_acquired pageAt virtAddr size left
  rw [leftBy] at hacquired
  rw [leftBy, List.foldl_append, hacquired]
  simp [ShmLeft.after]

theorem atomic_pages_iff (hnum : numBytes < 2 ^ 32)
    (h : (r.sharedMem .hugetlb).mem.physAddr = 0)
    (hmap : o.mmapped ≠ mapFailed) {phys : ℕ} (hioctl : o.shmAlloc = some phys)
    {done : Bool} {cells : ℕ → ℕ}
    (hstore : storePages (o.pageAt o.mmapped)
      (shmRound .hugetlb numBytes >>> dspHugetlbPageshift) 0
      r.hugetlbPagePhysAddr = (done, cells)) :
    (dspShmAllocAtTraced o (some .hugetlb) numBytes r).Atomic (some .hugetlb)
        numBytes r ↔
      CleanOutcome o (some .hugetlb) numBytes r := by
  have hdone : done = true ↔
      ∀ k < shmRound .hugetlb numBytes >>> dspHugetlbPageshift,
        o.pageAt o.mmapped k ≠ none := by
    have hiff := storePages_done_iff (o.pageAt o.mmapped)
      (shmRound .hugetlb numBytes >>> dspHugetlbPageshift) 0
      r.hugetlbPagePhysAddr
    rw [hstore] at hiff
    simpa using hiff
  have hclean : CleanOutcome o (some .hugetlb) numBytes r ↔
      0 < shmRound .hugetlb numBytes >>> dspHugetlbPageshift ∧
        shmRound .hugetlb numBytes >>> dspHugetlbPageshift ≤
          dspHugetlbMaxpages ∧ done = true := by
    rw [hdone]
    refine cleanOutcome_granted_iff h hmap ?_
    rw [hioctl]
    exact Option.some_ne_none phys
  rw [dspShmAllocAtTraced_pages h hmap hioctl hstore, hclean]
  cases done with
  | false =>
      refine iff_of_false (not_atomic_of_left rfl ?_) ?_
      · rw [leftBy_unmapped]
        decide
      · rintro ⟨-, -, hfalse⟩
        exact Bool.false_ne_true hfalse
  | true =>
      simp only [if_true, and_true]
      by_cases hsize : shmRound .hugetlb numBytes = 0
      · refine iff_of_false (not_atomic_of_left hsize ?_) ?_
        · rw [leftBy_acquired]
          exact fun heq => nomatch congrArg ShmLeft.reserved heq
        · rintro ⟨hpos, -⟩
          exact hpos.ne' (shmRound_hugetlb_eq_zero_iff.mpr hsize)
      · have hpos := Nat.pos_of_ne_zero
          (mt shmRound_hugetlb_eq_zero_iff.mp hsize)
        have hwritten (i : ℕ) : .setPage i ∈ storedPages (o.pageAt o.mmapped)
            (shmRound .hugetlb numBytes >>> dspHugetlbPageshift) 0 ↔
              0 ≤ i ∧
                i < 0 + shmRound .hugetlb numBytes >>> dspHugetlbPageshift :=
          mem_storedPages_iff fun k _ hk => hdone.mp rfl k (by omega)
        refine Iff.trans (atomic_returned_iff ?_ ?_) ?_
        · exact hsize
        · exact le_shmRound hnum hsize
        constructor
        · intro hindex
          refine ⟨hpos, ?_⟩
          by_contra hgt
          -- the first cell behind the table
          have hlt := hindex dspHugetlbMaxpages
            (List.mem_cons_of_mem _ (List.mem_cons_of_mem _
              ((hwritten _).mpr ⟨Nat.zero_le _, by omega⟩)))
          exact Nat.lt_irrefl _ hlt
        · rintro ⟨-, hfits⟩ i hi
          have hcell : .setPage i ∈ storedPages (o.pageAt o.mmapped)
              (shmRound .hugetlb numBytes >>> dspHugetlbPageshift) 0 := by
            simpa using hi
          have hi' := (hwritten i).mp hcell
          omega

/-- An allocation is atomic exactly if it fails before it has acquired anything,
or succeeds with a size that is not zero and that the table has room for. -/
theorem atomic_iff_cleanOutcome (o : ShmAnswers) (type : Option DspCache)
    (r : Regions) (hnum : numBytes < 2 ^ 32) :
    (dspShmAllocAtTraced o type numBytes r).Atomic type numBytes r ↔
      CleanOutcome o type numBytes r := by
  cases type with
  | none => exact iff_of_true (atomic_of_asBefore (asBefore_refl none r)) trivial
  | some t =>
      cases allocWay o numBytes r t with
      | refused h =>
          rw [dspShmAllocAtTraced_refused h]
          exact iff_of_true (atomic_of_asBefore (asBefore_refl (some t) r))
            (.inl h)
      | contig ht h => exact atomic_contig_iff hnum ht h
      | mmapFailed h hmap =>
          rw [dspShmAllocAtTraced_mmap_failed h hmap]
          refine iff_of_true (atomic_of_asBefore ?_)
            ((cleanOutcome_hugetlb_iff h).mpr (.inl hmap))
          exact asBefore_setEntry h rfl fun hne => absurd rfl hne
      | ioctlFailed h hmap hioctl =>
          rw [dspShmAllocAtTraced_ioctl_failed h hmap hioctl]
          refine iff_of_false (not_atomic_of_left rfl ?_) ?_
          · exact fun heq => nomatch congrArg ShmLeft.maps heq
          · rw [cleanOutcome_hugetlb_iff h]
            rintro (hfailed | ⟨hgranted, -⟩)
            · exact hmap hfailed
            · exact hgranted hioctl
      | pages h hmap hioctl hstore =>
          exact atomic_pages_iff hnum h hmap hioctl hstore

theorem atomic_iff_cleanOutcome_block :
    (dspShmAllocAtTraced demoBlock (some .rw) 5000
        (Regions.opened 0xb6f00000 0xb6e00000)).Atomic (some .rw) 5000
          (Regions.opened 0xb6f00000 0xb6e00000) ↔
      CleanOutcome demoBlock (some .rw) 5000
        (Regions.opened 0xb6f00000 0xb6e00000) :=
  atomic_iff_cleanOutcome demoBlock (some .rw) _ (by decide)

/-- Shared memory that the driver grants, but that cannot be mapped. -/
theorem not_atomic :
    ¬ ∀ (o : ShmAnswers) (type : Option DspCache) (numBytes : ℕ)
        (r : Regions), numBytes < 2 ^ 32 →
      (dspShmAllocAtTraced o type numBytes r).Atomic type numBytes r := by
  intro hall
  have hatomic := hall ⟨none, some 0x87000000, fun _ => none⟩ (some .rw) 4096
    (Regions.opened 0xb6f00000 0xb6e00000) (by decide)
  exact absurd (hatomic.nothing_left rfl) (by decide)

end C64Tools.Shm
