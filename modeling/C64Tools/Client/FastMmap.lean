import C64Tools.Library.Paging
import C64Tools.Shm.RoundTrip

/-!
# Mapping physical memory

`dsp_mmap()` looks for the address in two windows that `dsp_init_root()` has mapped,
and maps whole pages if it is in neither.  The search compares the first address
only, and the number of pages does not depend on where in its page the first
address is; so the end of the range may be left out.

`dsp_munmap()` computes the same pages from the address that was returned, and does
nothing in a window.
-/

namespace C64Tools.Client

open Paging Shm Transition

/-- `DSP_PAGESIZE`. -/
def dspPagesize : ℕ := 4096

/-- `DSP_PAGESIZE_ROUND`. -/
def dspPagesizeRound (a : ℕ) : ℕ :=
  u32 ((u32 (a + (dspPagesize - 1)) >>> dspPageshift) <<< dspPageshift)

/-- `DSP_PAGESIZE_ALIGN`. -/
def dspPagesizeAlign (a : ℕ) : ℕ :=
  u32 ((a >>> dspPageshift) <<< dspPageshift)

/-- `DSP_ERR_OK` and `OSAL_ERR_OK`. -/
def dspErrOk : ℕ := 0

/-- `DSP_ERR_MEM_MAP`. -/
def dspErrMemMap : ℕ := 0x00031002

/-- `OSAL_ERR_MEM_UNMAP`. -/
def osalErrMemUnmap : ℕ := 0x00011003

/-- The parts of `dsp_config` that `dsp_init_root()` reads. -/
structure DspConfig where
  resetVector : DspMemRegion
  ram : DspMemRegion

/-- `dsp_config`. -/
def dspConfig : DspConfig where
  resetVector := ⟨0x86000000, 0, 0x00001000⟩
  ram := ⟨0x86002000, 0, 0x003fe000⟩

/-! ## The system -/

/-- What is mapped of the physical memory; `fresh` is the number of the next
mapping. -/
structure AddressSpace where
  table : Table
  fresh : ℕ

/-- The pages which a number of bytes takes up. -/
def pagesOf (numBytes : ℕ) : ℕ := (numBytes + (dspPagesize - 1)) / dspPagesize

/-- There is a place for new pages, before the end of the address space. -/
structure AddressSpace.Room (a : AddressSpace) (base numBytes : ℕ) : Prop where
  pos : base ≠ 0
  aligned : base % dspPagesize = 0
  nonempty : numBytes ≠ 0
  end_lt : base + numBytes < 2 ^ 32
  free : a.table.Free (base / dspPagesize) (pagesOf numBytes)

instance (a : AddressSpace) (base numBytes : ℕ) :
    Decidable (a.Room base numBytes) :=
  decidable_of_iff
    (base ≠ 0 ∧ base % dspPagesize = 0 ∧ numBytes ≠ 0 ∧
      base + numBytes < 2 ^ 32 ∧
      a.table.Free (base / dspPagesize) (pagesOf numBytes))
    ⟨fun ⟨h₁, h₂, h₃, h₄, h₅⟩ => ⟨h₁, h₂, h₃, h₄, h₅⟩,
      fun ⟨h₁, h₂, h₃, h₄, h₅⟩ => ⟨h₁, h₂, h₃, h₄, h₅⟩⟩

/-- How `mmap()` chooses an address, if it finds one. -/
structure Kernel where
  mmap : AddressSpace → ℕ → ℕ → Option ℕ
  room : ∀ a physAddr numBytes base,
    mmap a physAddr numBytes = some base → a.Room base numBytes

/-- `osal_mmap()`, which returns a null pointer if it fails. -/
def osalMmap (k : Kernel) (physAddr numBytes : ℕ) (a : AddressSpace) :
    ℕ × AddressSpace :=
  match k.mmap a physAddr numBytes with
  | some base =>
      (base,
        { table := a.table.map ⟨a.fresh, base / dspPagesize,
            pagesOf numBytes, physAddr / dspPagesize⟩
          fresh := a.fresh + 1 })
  | none => (0, a)

/-- `osal_munmap()`. -/
def osalMunmap (virtAddr numBytes : ℕ) (a : AddressSpace) :
    ℕ × AddressSpace :=
  if virtAddr % dspPagesize = 0 ∧ numBytes ≠ 0 then
    (dspErrOk,
      { a with table :=
          a.table.unmap (virtAddr / dspPagesize) (pagesOf numBytes) })
  else (osalErrMemUnmap, a)

/-! ## The two calls -/

/-- The window that an address is in. -/
def findWindow (fastMmap : List DspMemRegion) (physAddr : ℕ) :
    Option DspMemRegion :=
  fastMmap.find? fun w => decide (InBounds physAddr w.physAddr w.size)

/-- `dsp_mmap()`, with the address in `_retAddr` after the result.  The argument
`forceReal` is `b_dsp_mmap_force_real`. -/
def dspMmap (forceReal : Bool) (fastMmap : List DspMemRegion) (k : Kernel)
    (physAddr numBytes : ℕ) (a : AddressSpace) : ℕ × ℕ × AddressSpace :=
  match if forceReal then none else findWindow fastMmap physAddr with
  | some w => (dspErrOk, rebase physAddr w.physAddr w.virtAddr, a)
  | none =>
      let physAddrAlign := dspPagesizeAlign physAddr
      let numBytesRound := dspPagesizeRound numBytes
      let (ptr, a) := osalMmap k physAddrAlign numBytesRound a
      if ptr ≠ 0 then (dspErrOk, rebase physAddr physAddrAlign ptr, a)
      else (dspErrMemMap, ptr, a)

/-- `dsp_munmap()`. -/
def dspMunmap (forceReal : Bool) (fastMmap : List DspMemRegion)
    (virtAddr numBytes : ℕ) (a : AddressSpace) : ℕ × AddressSpace :=
  match
    if forceReal then none
    else fastMmap.find? fun w =>
      decide (InBounds virtAddr w.virtAddr w.size) with
  | some _ => (dspErrOk, a)
  | none =>
      osalMunmap (dspPagesizeAlign virtAddr) (dspPagesizeRound numBytes) a

/-! ## Initialization -/

/-- `fast_mmap` before the loop of `dsp_init_root()`. -/
def fastMmap : List DspMemRegion :=
  [⟨dspConfig.resetVector.physAddr, 0,
      u32Sub (dspConfig.ram.physAddr + dspConfig.ram.size)
        dspConfig.resetVector.physAddr⟩,
    ⟨0x48000000, 0, 0x00400000⟩]

/-- The loop of `dsp_init_root()`, which stops when a window cannot be mapped. -/
def mapWindows (k : Kernel) :
    List DspMemRegion → AddressSpace → ℕ × List DspMemRegion × AddressSpace
  | [], a => (dspErrOk, [], a)
  | w :: ws, a =>
      let (ret, virtAddr, a) := dspMmap true [] k w.physAddr w.size a
      let w := { w with virtAddr := virtAddr }
      if ret = dspErrOk then
        let (ret, ws, a) := mapWindows k ws a
        (ret, w :: ws, a)
      else (ret, w :: ws, a)

/-- `dsp_init_root()`, from the results of `osal_init()` and of `dsp_open()`, which
is zero if the latter is to be skipped. -/
def dspInitRoot (osalInit dspOpen : ℕ) (k : Kernel) (a : AddressSpace) :
    ℕ × List DspMemRegion × AddressSpace :=
  if osalInit = dspErrOk then
    if dspOpen = 0 then mapWindows k fastMmap a
    else (dspOpen, fastMmap, a)
  else (osalInit, fastMmap, a)

/-! ## Runs -/

/-- A call of `dsp_mmap()` whose address is in use, and the number of the mapping
if it made one. -/
structure LiveMap where
  physAddr : ℕ
  numBytes : ℕ
  virtAddr : ℕ
  made : Option ℕ
  deriving DecidableEq, Repr

structure MmapRun where
  space : AddressSpace
  fastMmap : List DspMemRegion
  live : List LiveMap

inductive MmapCall where
  | dspMmap (k : Kernel) (physAddr numBytes : ℕ)
  | dspMunmap (l : LiveMap)

/-- After a call of `dsp_mmap()`, with what it has returned if it succeeds. -/
def MmapRun.mapped (s : MmapRun) (physAddr numBytes : ℕ)
    (r : ℕ × ℕ × AddressSpace) : MmapRun :=
  let made :=
    if r.2.2.fresh = s.space.fresh then none else some s.space.fresh
  { s with
    space := r.2.2
    live :=
      if r.1 = dspErrOk then ⟨physAddr, numBytes, r.2.1, made⟩ :: s.live
      else s.live }

/-- All calls after a successful `dsp_init_root()`; what is unmapped is what was
mapped. -/
def mmapMachine : Machine MmapRun MmapCall where
  init s := s.live = [] ∧ ∃ osalInit dspOpen k,
    dspInitRoot osalInit dspOpen k ⟨fun _ => none, 0⟩ =
      (dspErrOk, s.fastMmap, s.space)
  step s e t :=
    match e with
    | .dspMmap k physAddr numBytes =>
        physAddr < 2 ^ 32 ∧ numBytes < 2 ^ 32 ∧
          t = s.mapped physAddr numBytes
            (dspMmap false s.fastMmap k physAddr numBytes s.space)
    | .dspMunmap l =>
        l ∈ s.live ∧
          t = { s with
            space :=
              (dspMunmap false s.fastMmap l.virtAddr l.numBytes s.space).2
            live := s.live.erase l }

/-- The address leads to the physical address, in a mapping in which the whole
range is. -/
def Covered (s : MmapRun) (l : LiveMap) : Prop :=
  ∃ mapping,
    s.space.table.byteAt dspPagesize l.virtAddr =
        some (mapping, l.physAddr) ∧
      ∀ k < l.numBytes,
        s.space.table.byteAt dspPagesize (l.virtAddr + k) =
          some (mapping, l.physAddr + k)

/-- To unmap the address removes the mapping that was made for it, if one was,
and leaves the windows as they are. -/
structure Unmaps (s : MmapRun) (l : LiveMap) : Prop where
  ret : (dspMunmap false s.fastMmap l.virtAddr l.numBytes s.space).1 =
    dspErrOk
  exact : (dspMunmap false s.fastMmap l.virtAddr l.numBytes s.space).2.table =
    s.space.table.drop l.made
  windows : ∀ w ∈ s.fastMmap, ∀ k < w.size, ∃ mapping,
    (dspMunmap false s.fastMmap l.virtAddr l.numBytes
        s.space).2.table.byteAt dspPagesize (w.virtAddr + k) =
      some (mapping, w.physAddr + k)

/-- The range ends in the window in which it starts; outside of the windows its
size takes up as many pages as the range. -/
def RangeOk (physAddr numBytes : ℕ) : Prop :=
  match findWindow fastMmap physAddr with
  | some w => physAddr + numBytes ≤ w.physAddr + w.size
  | none => physAddr % dspPagesize + numBytes ≤ dspPagesizeRound numBytes

variable {k : Kernel} {a a' : AddressSpace} {ws : List DspMemRegion}
  {physAddr numBytes : ℕ} {mem w : DspMemRegion} {id : ℕ}
  {s t : MmapRun} {l : LiveMap}

/-! ## Pages -/

theorem dspPagesizeAlign_eq {n : ℕ} (h : n < 2 ^ 32) :
    dspPagesizeAlign n = n / 4096 * 4096 := by
  simp only [dspPagesizeAlign, u32, dspPageshift, Nat.shiftRight_eq_div_pow,
    Nat.shiftLeft_eq]
  omega

theorem dspPagesizeRound_dvd (n : ℕ) : dspPagesizeRound n % 4096 = 0 := by
  simp only [dspPagesizeRound, u32, dspPageshift, dspPagesize,
    Nat.shiftRight_eq_div_pow, Nat.shiftLeft_eq]
  omega

theorem pagesOf_eq {n : ℕ} (h : n % 4096 = 0) : pagesOf n = n / 4096 := by
  simp only [pagesOf, dspPagesize]
  omega

/-! ## Where things are mapped -/

/-- A region of whole pages that is a mapping of its own. -/
structure Placed (a : AddressSpace) (id : ℕ) (mem : DspMemRegion) : Prop where
  virt_aligned : mem.virtAddr % 4096 = 0
  phys_aligned : mem.physAddr % 4096 = 0
  size_aligned : mem.size % 4096 = 0
  nonempty : mem.size ≠ 0
  end_lt : mem.virtAddr + mem.size < 2 ^ 32
  has : a.table.Has
    ⟨id, mem.virtAddr / 4096, mem.size / 4096, mem.physAddr / 4096⟩

/-- All numbers of mappings are below the next one. -/
def Numbered (a : AddressSpace) : Prop :=
  ∀ p f, a.table p = some f → f.mapping < a.fresh

/-- The page of an address in the region. -/
theorem Placed.apply (h : Placed a id mem) {v : ℕ} (hle : mem.virtAddr ≤ v)
    (hlt : v < mem.virtAddr + mem.size) :
    ∃ page, a.table (v / 4096) = some ⟨id, page⟩ := by
  have hvirt := h.virt_aligned
  have hsize := h.size_aligned
  have hpage : mem.virtAddr / 4096 ≤ v / 4096 ∧
      v / 4096 < mem.virtAddr / 4096 + mem.size / 4096 := by omega
  exact ⟨_, h.has.apply hpage⟩

theorem Placed.lt_fresh (h : Placed a id mem) (hnumbered : Numbered a) :
    id < a.fresh := by
  have hne := Nat.pos_of_ne_zero h.nonempty
  obtain ⟨page, hpage⟩ := h.apply (Nat.le_refl _) (Nat.lt_add_of_pos_right hne)
  exact hnumbered _ _ hpage

theorem Placed.byteAt_iff (h : Placed a id mem) {offset n : ℕ}
    (hoffset : offset < mem.size) :
    (∀ i < n, a.table.byteAt 4096 (mem.virtAddr + offset + i) =
        some (id, mem.physAddr + offset + i)) ↔ offset + n ≤ mem.size := by
  have hvirt : mem.virtAddr / 4096 * 4096 = mem.virtAddr :=
    Nat.div_mul_cancel (Nat.dvd_of_mod_eq_zero h.virt_aligned)
  have hphys : mem.physAddr / 4096 * 4096 = mem.physAddr :=
    Nat.div_mul_cancel (Nat.dvd_of_mod_eq_zero h.phys_aligned)
  have hsize : mem.size / 4096 * 4096 = mem.size :=
    Nat.div_mul_cancel (Nat.dvd_of_mod_eq_zero h.size_aligned)
  have hpages : offset < mem.size / 4096 * 4096 := by rwa [hsize]
  have hiff := h.has.byteAt_iff (n := n) (by decide : 0 < 4096) hpages
  simp only [hvirt, hphys, hsize] at hiff
  exact hiff

theorem Placed.byteAt (h : Placed a id mem) {offset : ℕ}
    (hoffset : offset < mem.size) :
    a.table.byteAt 4096 (mem.virtAddr + offset) =
      some (id, mem.physAddr + offset) :=
  (h.byteAt_iff (n := 1) hoffset).mpr hoffset 0 Nat.one_pos

/-! ## Mapping -/

/-- What `osal_mmap()` does with whole pages, if it succeeds. -/
theorem Kernel.placed_osalMmap {base : ℕ} (hnumbered : Numbered a)
    (hphys : physAddr % 4096 = 0) (hsize : numBytes % 4096 = 0)
    (hbase : k.mmap a physAddr numBytes = some base) :
    ∃ a', osalMmap k physAddr numBytes a = (base, a') ∧
      Placed a' a.fresh ⟨physAddr, base, numBytes⟩ ∧ Numbered a' ∧
      a'.fresh = a.fresh + 1 ∧
      ∀ id mem, Placed a id mem → Placed a' id mem := by
  have hroom := k.room _ _ _ _ hbase
  rw [osalMmap, hbase]
  refine ⟨_, rfl, ?_, ?_, rfl, ?_⟩
  · refine ⟨hroom.aligned, hphys, hsize, hroom.nonempty, hroom.end_lt, ?_⟩
    have hhas : (a.table.map ⟨a.fresh, base / dspPagesize, pagesOf numBytes,
        physAddr / dspPagesize⟩).Has _ :=
      Table.has_map fun p f hf => (hnumbered p f hf).ne
    rw [pagesOf_eq hsize] at hhas
    simp only [pagesOf_eq hsize]
    exact hhas
  · intro p f hf
    show f.mapping < a.fresh + 1
    by_cases hp : (⟨a.fresh, base / dspPagesize, pagesOf numBytes,
        physAddr / dspPagesize⟩ : Area).Covers p
    · obtain rfl := Option.some.inj ((Table.map_of_covers hp).symm.trans hf)
      exact Nat.lt_succ_self _
    · have hold := (Table.map_of_not_covers hp).symm.trans hf
      exact Nat.lt_succ_of_lt (hnumbered p f hold)
  · intro id mem hmem
    exact { hmem with
      has := hmem.has.map (hmem.lt_fresh hnumbered).ne hroom.free }

/-- `dsp_mmap()` in a window. -/
theorem dspMmap_window (hw : findWindow ws physAddr = some w) :
    dspMmap false ws k physAddr numBytes a =
      (dspErrOk, rebase physAddr w.physAddr w.virtAddr, a) := by
  simp only [dspMmap, Bool.false_eq_true, if_false, hw]

/-- `dsp_mmap()` outside of the windows, or with none to be used. -/
theorem dspMmap_pages (forceReal : Bool) (ws : List DspMemRegion) (k : Kernel)
    (numBytes : ℕ) (hnumbered : Numbered a)
    (hphys : physAddr < 2 ^ 32)
    (hnone : (if forceReal then none else findWindow ws physAddr) = none) :
    dspMmap forceReal ws k physAddr numBytes a = (dspErrMemMap, 0, a) ∨
      ∃ base a', dspMmap forceReal ws k physAddr numBytes a =
          (dspErrOk, base + physAddr % 4096, a') ∧
        Placed a' a.fresh
          ⟨physAddr / 4096 * 4096, base, dspPagesizeRound numBytes⟩ ∧
        Numbered a' ∧ a'.fresh = a.fresh + 1 ∧
        ∀ id mem, Placed a id mem → Placed a' id mem := by
  have halign := dspPagesizeAlign_eq hphys
  rw [dspMmap, hnone]
  cases hbase : k.mmap a (dspPagesizeAlign physAddr)
      (dspPagesizeRound numBytes) with
  | none =>
      left
      simp only [osalMmap, hbase, ne_eq, not_true, if_false]
  | some base =>
      right
      have hmod : dspPagesizeAlign physAddr % 4096 = 0 := by
        rw [halign]
        exact Nat.mul_mod_left _ _
      obtain ⟨a', hmap, hplaced, hrest⟩ :=
        k.placed_osalMmap hnumbered hmod (dspPagesizeRound_dvd numBytes) hbase
      have hpos : base ≠ 0 := (k.room _ _ _ _ hbase).pos
      rw [halign] at hplaced
      refine ⟨base, a', ?_, hplaced, hrest⟩
      simp only [hmap, ne_eq, hpos, not_false_iff, if_true]
      -- the offset in the page does not lead out of it
      have hend : base + dspPagesizeRound numBytes < 2 ^ 32 := hplaced.end_lt
      have hdvd := dspPagesizeRound_dvd numBytes
      have hne : dspPagesizeRound numBytes ≠ 0 := hplaced.nonempty
      have hle : physAddr / 4096 * 4096 ≤ physAddr := by omega
      rw [halign, rebase, u32Sub_of_le hle hphys, u32_of_lt (by omega)]
      have hoffset : physAddr - physAddr / 4096 * 4096 + base =
          base + physAddr % 4096 := by omega
      rw [hoffset]

/-! ## Initialization -/

/-- The window without the address that it is mapped at. -/
def withoutAddress (w : DspMemRegion) : DspMemRegion :=
  { w with virtAddr := 0 }

/-- A window of whole pages. -/
def WholePages (w : DspMemRegion) : Prop :=
  w.physAddr % 4096 = 0 ∧ w.physAddr < 2 ^ 32 ∧
    dspPagesizeRound w.size = w.size

theorem mapWindows_cons {virtAddr : ℕ}
    (hok : dspMmap true [] k w.physAddr w.size a = (dspErrOk, virtAddr, a')) :
    mapWindows k (w :: ws) a =
      ((mapWindows k ws a').1,
        { w with virtAddr := virtAddr } :: (mapWindows k ws a').2.1,
        (mapWindows k ws a').2.2) := by
  simp only [mapWindows, hok, if_true]

theorem mapWindows_ok {ws' : List DspMemRegion}
    (hws : ∀ w ∈ ws, WholePages w) (hnumbered : Numbered a)
    (h : mapWindows k ws a = (dspErrOk, ws', a')) :
    ws'.map withoutAddress = ws.map withoutAddress ∧
      (∀ w ∈ ws', ∃ id, Placed a' id w) ∧ Numbered a' ∧
      ∀ id mem, Placed a id mem → Placed a' id mem := by
  induction ws generalizing a ws' with
  | nil =>
      obtain ⟨rfl, rfl⟩ : [] = ws' ∧ a = a' := by
        simpa [mapWindows] using h
      exact ⟨rfl, fun w hw => absurd hw List.not_mem_nil, hnumbered,
        fun _ _ hmem => hmem⟩
  | cons w ws ih =>
      obtain ⟨hmod, hphys, hround⟩ := hws w List.mem_cons_self
      obtain hfail | ⟨base, b, hok, hplaced, hnumbered', -, hkeep⟩ :=
        dspMmap_pages true [] k w.size hnumbered hphys rfl
      · rw [mapWindows, hfail] at h
        have hret : dspErrMemMap = dspErrOk := congrArg Prod.fst h
        exact absurd hret (by decide)
      · rw [mapWindows_cons hok] at h
        obtain ⟨hret, rfl, hspace⟩ : (mapWindows k ws b).1 = dspErrOk ∧
            { w with virtAddr := base + w.physAddr % 4096 } ::
              (mapWindows k ws b).2.1 = ws' ∧
            (mapWindows k ws b).2.2 = a' := by
          simpa using h
        have hrest : mapWindows k ws b =
            (dspErrOk, (mapWindows k ws b).2.1, a') := by
          rw [← hret, ← hspace]
        obtain ⟨hmap, hall, hnumbered'', hkeep'⟩ :=
          ih (fun w' hw' => hws w' (List.mem_cons_of_mem w hw')) hnumbered'
            hrest
        have haligned : w.physAddr / 4096 * 4096 = w.physAddr :=
          Nat.div_mul_cancel (Nat.dvd_of_mod_eq_zero hmod)
        rw [hround, haligned] at hplaced
        refine ⟨?_, ?_, hnumbered'', fun id mem hmem =>
          hkeep' id mem (hkeep id mem hmem)⟩
        · rw [List.map_cons, List.map_cons, hmap]
          rfl
        · intro w' hw'
          obtain rfl | hw' := List.mem_cons.mp hw'
          · rw [hmod, Nat.add_zero]
            exact ⟨a.fresh, hkeep' _ _ hplaced⟩
          · exact hall w' hw'

/-! ## What every run keeps -/

/-- The address was returned for a window. -/
def ByWindow (s : MmapRun) (l : LiveMap) : Prop :=
  l.made = none ∧ ∃ w, findWindow s.fastMmap l.physAddr = some w ∧
    l.virtAddr = rebase l.physAddr w.physAddr w.virtAddr

/-- The pages which are mapped for a range. -/
def LiveMap.area (l : LiveMap) : DspMemRegion where
  physAddr := l.physAddr / 4096 * 4096
  virtAddr := l.virtAddr / 4096 * 4096
  size := dspPagesizeRound l.numBytes

/-- The address was returned for pages that were mapped for it. -/
def ByPages (s : MmapRun) (l : LiveMap) : Prop :=
  findWindow s.fastMmap l.physAddr = none ∧
    l.virtAddr % 4096 = l.physAddr % 4096 ∧
      ∃ id, l.made = some id ∧ Placed s.space id l.area

structure MmapKept (s : MmapRun) : Prop where
  numbered : Numbered s.space
  windows_eq : s.fastMmap.map withoutAddress = fastMmap
  windows : ∀ w ∈ s.fastMmap, ∃ id, Placed s.space id w ∧
    ∀ l ∈ s.live, l.made ≠ some id
  live : ∀ l ∈ s.live, ByWindow s l ∨ ByPages s l
  apart : s.live.Pairwise fun l m => ∀ id, l.made = some id → m.made ≠ some id

theorem wholePages_fastMmap : ∀ w ∈ fastMmap, WholePages w := by
  unfold WholePages
  decide

theorem mmapKept_of_init (h : mmapMachine.init s) : MmapKept s := by
  obtain ⟨hlive, osalInit, dspOpen, k, hinit⟩ := h
  have hnumbered : Numbered ⟨fun _ => none, 0⟩ := fun _ _ hf => nomatch hf
  have hwindows : mapWindows k fastMmap ⟨fun _ => none, 0⟩ =
      (dspErrOk, s.fastMmap, s.space) := by
    rw [dspInitRoot] at hinit
    split_ifs at hinit with hosal hopen
    · exact hinit
    · exact absurd (congrArg Prod.fst hinit) hopen
    · exact absurd (congrArg Prod.fst hinit) hosal
  obtain ⟨hmap, hall, hnumbered', -⟩ :=
    mapWindows_ok wholePages_fastMmap hnumbered hwindows
  have hnone : ∀ l, l ∉ s.live := by
    intro l
    rw [hlive]
    exact List.not_mem_nil
  refine ⟨hnumbered', hmap, ?_, fun l hl => absurd hl (hnone l), ?_⟩
  · intro w hw
    obtain ⟨id, hplaced⟩ := hall w hw
    exact ⟨id, hplaced, fun l hl => absurd hl (hnone l)⟩
  · rw [hlive]
    exact .nil

/-- An address of a window is known by the region of the window. -/
theorem MmapKept.findWindow_eq (h : MmapKept s) (physAddr : ℕ) :
    findWindow fastMmap physAddr =
      (findWindow s.fastMmap physAddr).map withoutAddress := by
  rw [← h.windows_eq, findWindow, List.find?_map]
  rfl

theorem mem_of_findWindow (h : findWindow ws physAddr = some w) :
    w ∈ ws ∧ InBounds physAddr w.physAddr w.size := by
  have hbounds := List.find?_some h
  exact ⟨List.mem_of_find?_eq_some h, of_decide_eq_true hbounds⟩

/-- A window does not go beyond the last address. -/
theorem MmapKept.window_lt (h : MmapKept s) (hw : w ∈ s.fastMmap) :
    w.physAddr + w.size < 2 ^ 32 := by
  have hmem : withoutAddress w ∈ fastMmap := by
    rw [← h.windows_eq]
    exact List.mem_map_of_mem hw
  have hall : ∀ w ∈ fastMmap, w.physAddr + w.size < 2 ^ 32 := by decide
  exact hall (withoutAddress w) hmem

/-- Only what is mapped for the range itself matters. -/
theorem ByPages.mono (h : ByPages s l) (hfast : t.fastMmap = s.fastMmap)
    (hkeep : ∀ id mem, l.made = some id → Placed s.space id mem →
      Placed t.space id mem) : ByPages t l := by
  obtain ⟨hnone, hoffset, id, hmade, hplaced⟩ := h
  rw [← hfast] at hnone
  exact ⟨hnone, hoffset, id, hmade, hkeep id _ hmade hplaced⟩

theorem ByWindow.mono (h : ByWindow s l) (hfast : t.fastMmap = s.fastMmap) :
    ByWindow t l := by
  rw [ByWindow, hfast]
  exact h

/-- No mapping of a call has a number to come. -/
theorem MmapKept.made_ne_fresh (h : MmapKept s) (hl : l ∈ s.live) :
    l.made ≠ some s.space.fresh := by
  intro hmade
  obtain ⟨hnone, -⟩ | ⟨-, -, id, hid, hplaced⟩ := h.live l hl
  · exact absurd (hnone.symm.trans hmade) (Option.some_ne_none _).symm
  · obtain rfl := Option.some.inj (hmade.symm.trans hid)
    exact absurd (hplaced.lt_fresh h.numbered) (Nat.lt_irrefl _)

/-- After `dsp_mmap()` has found a window. -/
theorem MmapKept.mapped_window (h : MmapKept s)
    (hw : findWindow s.fastMmap physAddr = some w) :
    MmapKept (s.mapped physAddr numBytes
      (dspMmap false s.fastMmap k physAddr numBytes s.space)) := by
  rw [dspMmap_window hw, MmapRun.mapped, if_pos rfl, if_pos rfl]
  refine ⟨h.numbered, h.windows_eq, ?_, ?_, ?_⟩
  · intro w' hw'
    obtain ⟨id, hplaced, hne⟩ := h.windows w' hw'
    refine ⟨id, hplaced, fun l hl => ?_⟩
    obtain rfl | hl := List.mem_cons.mp hl
    · exact (Option.some_ne_none id).symm
    · exact hne l hl
  · intro l hl
    obtain rfl | hl := List.mem_cons.mp hl
    · exact .inl ⟨rfl, w, hw, rfl⟩
    · exact h.live l hl
  · exact List.pairwise_cons.mpr ⟨fun _ _ _ => nofun, h.apart⟩

/-- After `dsp_mmap()` has mapped pages, or has failed to. -/
theorem MmapKept.mapped_pages (h : MmapKept s) (hphys : physAddr < 2 ^ 32)
    (hnone : findWindow s.fastMmap physAddr = none) :
    MmapKept (s.mapped physAddr numBytes
      (dspMmap false s.fastMmap k physAddr numBytes s.space)) := by
  obtain hfail | ⟨base, a', hok, hplaced, hnumbered, hfresh, hkeep⟩ :=
    dspMmap_pages false s.fastMmap k numBytes h.numbered hphys hnone
  · rw [hfail, MmapRun.mapped, if_pos rfl,
      if_neg (by decide : dspErrMemMap ≠ dspErrOk)]
    exact h
  · have hne : a'.fresh ≠ s.space.fresh := by
      rw [hfresh]
      exact Nat.succ_ne_self _
    have hbase : base % 4096 = 0 := hplaced.virt_aligned
    rw [hok, MmapRun.mapped, if_neg hne, if_pos rfl]
    refine ⟨hnumbered, h.windows_eq, ?_, ?_, ?_⟩
    · intro w' hw'
      obtain ⟨id, hplaced', hne'⟩ := h.windows w' hw'
      refine ⟨id, hkeep id w' hplaced', fun l hl => ?_⟩
      obtain rfl | hl := List.mem_cons.mp hl
      · intro hid
        obtain rfl := Option.some.inj hid
        exact absurd (hplaced'.lt_fresh h.numbered) (Nat.lt_irrefl _)
      · exact hne' l hl
    · intro l hl
      obtain rfl | hl := List.mem_cons.mp hl
      · have harea : (base + physAddr % 4096) / 4096 * 4096 = base := by
          omega
        refine .inr ⟨hnone, ?_, s.space.fresh, rfl, ?_⟩
        · show (base + physAddr % 4096) % 4096 = physAddr % 4096
          omega
        · rw [LiveMap.area, harea]
          exact hplaced
      · obtain hwindow | hpages := h.live l hl
        · exact .inl (hwindow.mono rfl)
        · exact .inr (hpages.mono rfl fun id mem _ => hkeep id mem)
    · refine List.pairwise_cons.mpr ⟨?_, h.apart⟩
      intro l hl id hid
      obtain rfl := Option.some.inj hid
      exact h.made_ne_fresh hl

/-! ## Unmapping -/

/-- An address that was returned for a window is in it. -/
theorem ByWindow.virtAddr_eq (hl : ByWindow s l) (h : MmapKept s) :
    ∃ w ∈ s.fastMmap, l.made = none ∧
      findWindow s.fastMmap l.physAddr = some w ∧
      w.physAddr ≤ l.physAddr ∧ l.physAddr < w.physAddr + w.size ∧
      l.virtAddr = w.virtAddr + (l.physAddr - w.physAddr) := by
  obtain ⟨hmade, w, hfind, hvirt⟩ := hl
  obtain ⟨hw, hbounds⟩ := mem_of_findWindow hfind
  have hlt := h.window_lt hw
  obtain ⟨id, hplaced, -⟩ := h.windows w hw
  have hend := hplaced.end_lt
  rw [InBounds, u32_of_lt hlt] at hbounds
  obtain ⟨hle, hlt'⟩ := hbounds
  refine ⟨w, hw, hmade, hfind, hle, hlt', ?_⟩
  rw [hvirt, rebase, u32Sub_of_le hle (by omega), u32_of_lt (by omega),
    Nat.add_comm]

/-- What `dsp_munmap()` does for an address that was returned. -/
theorem MmapKept.dspMunmap_eq (h : MmapKept s) (hl : l ∈ s.live) :
    dspMunmap false s.fastMmap l.virtAddr l.numBytes s.space =
      (dspErrOk, { s.space with table := s.space.table.drop l.made }) := by
  obtain hwindow | hpages := h.live l hl
  · obtain ⟨w, hw, hmade, -, hle, hlt, hvirt⟩ := hwindow.virtAddr_eq h
    obtain ⟨id, hplaced, -⟩ := h.windows w hw
    have hsome : (s.fastMmap.find? fun w =>
        decide (InBounds l.virtAddr w.virtAddr w.size)).isSome := by
      refine List.find?_isSome.mpr ⟨w, hw, decide_eq_true ?_⟩
      rw [InBounds, u32_of_lt hplaced.end_lt]
      omega
    obtain ⟨w', hfind⟩ := Option.isSome_iff_exists.mp hsome
    rw [hmade, Table.drop_none]
    simp only [dspMunmap, Bool.false_eq_true, if_false, hfind]
  · obtain ⟨-, -, id, hmade, hplaced⟩ := hpages
    have hdvd := dspPagesizeRound_dvd l.numBytes
    have hround : dspPagesizeRound l.numBytes ≠ 0 := hplaced.nonempty
    have hend : l.virtAddr / 4096 * 4096 + dspPagesizeRound l.numBytes <
      2 ^ 32 := hplaced.end_lt
    obtain ⟨page, hpage⟩ : ∃ page,
        s.space.table (l.virtAddr / 4096) = some ⟨id, page⟩ := by
      refine hplaced.apply (Nat.div_mul_le_self _ _) ?_
      show l.virtAddr < l.virtAddr / 4096 * 4096 + dspPagesizeRound l.numBytes
      omega
    have hnone : (s.fastMmap.find? fun w =>
        decide (InBounds l.virtAddr w.virtAddr w.size)) = none := by
      rw [List.find?_eq_none]
      intro w hw hbounds
      obtain ⟨id', hplaced', hne⟩ := h.windows w hw
      have hin := of_decide_eq_true hbounds
      rw [InBounds, u32_of_lt hplaced'.end_lt] at hin
      -- the page would be one of the window
      obtain ⟨page', hpage'⟩ := hplaced'.apply hin.1 hin.2
      have hid : id = id' := congrArg Frame.mapping
        (Option.some.inj (hpage.symm.trans hpage'))
      exact hne l hl (hid ▸ hmade)
    have hunmap : s.space.table.unmap
        (l.virtAddr / 4096 * 4096 / 4096) (dspPagesizeRound l.numBytes / 4096) =
          s.space.table.drop (some id) := hplaced.has.unmap_eq_drop
    have hmod : l.virtAddr / 4096 * 4096 % 4096 = 0 := Nat.mul_mod_left _ _
    simp only [dspMunmap, Bool.false_eq_true, if_false, hnone, osalMunmap,
      dspPagesizeAlign_eq (n := l.virtAddr) (by omega), dspPagesize,
      pagesOf_eq hdvd]
    rw [if_pos ⟨hmod, hround⟩, hunmap, hmade]

/-- No other call that is in use has the mapping that is removed. -/
theorem MmapKept.made_ne_of_mem_erase (h : MmapKept s) (hl : l ∈ s.live) :
    ∀ m ∈ s.live.erase l, ∀ id, m.made = some id → l.made ≠ some id := by
  have hperm := List.perm_cons_erase hl
  have hapart := (hperm.pairwise_iff fun {x y} hxy id hid hid' =>
    hxy id hid' hid).mp h.apart
  intro m hm id hmade hlmade
  exact List.rel_of_pairwise_cons hapart hm id hlmade hmade

theorem MmapKept.dropped (h : MmapKept s) (hl : l ∈ s.live) :
    MmapKept { s with
      space := { s.space with table := s.space.table.drop l.made }
      live := s.live.erase l } := by
  have hkeep : ∀ id mem, l.made ≠ some id → Placed s.space id mem →
      Placed { s.space with table := s.space.table.drop l.made } id mem :=
    fun id mem hne hplaced =>
      { hplaced with has := hplaced.has.drop hne }
  refine ⟨?_, h.windows_eq, ?_, ?_, h.apart.sublist List.erase_sublist⟩
  · intro p f hf
    exact h.numbered p f (Table.drop_eq_some_iff.mp hf).1
  · intro w hw
    obtain ⟨id, hplaced, hne⟩ := h.windows w hw
    exact ⟨id, hkeep id w (hne l hl) hplaced,
      fun m hm => hne m (List.mem_of_mem_erase hm)⟩
  · intro m hm
    obtain hwindow | hpages := h.live m (List.mem_of_mem_erase hm)
    · exact .inl (hwindow.mono rfl)
    · refine .inr (hpages.mono rfl fun id mem hmade hplaced => ?_)
      exact hkeep id mem (h.made_ne_of_mem_erase hl m hm id hmade) hplaced

theorem MmapKept.step {e : MmapCall} (h : MmapKept s)
    (hstep : mmapMachine.step s e t) : MmapKept t := by
  cases e with
  | dspMmap k physAddr numBytes =>
      obtain ⟨hphys, -, rfl⟩ := hstep
      cases hw : findWindow s.fastMmap physAddr with
      | some w => exact h.mapped_window hw
      | none => exact h.mapped_pages hphys hw
  | dspMunmap l =>
      obtain ⟨hl, rfl⟩ := hstep
      rw [h.dspMunmap_eq hl]
      exact h.dropped hl

theorem mmapKept_of_reachable (h : mmapMachine.Reachable s) : MmapKept s := by
  refine Machine.Reachable.invariant ?_ ?_ h
  · exact fun _ => mmapKept_of_init
  · exact fun _ _ _ hs hstep => hs.step hstep

/-! ## Every address in use -/

theorem MmapKept.unmaps (h : MmapKept s) (hl : l ∈ s.live) : Unmaps s l := by
  refine ⟨?_, ?_, ?_⟩
  · rw [h.dspMunmap_eq hl]
  · rw [h.dspMunmap_eq hl]
  · intro w hw k hk
    obtain ⟨id, hplaced, hne⟩ := h.windows w hw
    have hplaced' : Placed
        { s.space with table := s.space.table.drop l.made } id w :=
      { hplaced with has := hplaced.has.drop (hne l hl) }
    rw [h.dspMunmap_eq hl]
    exact ⟨id, hplaced'.byteAt hk⟩

/-- A range that starts in a region is covered if it ends in it. -/
theorem Placed.covered_iff (h : Placed s.space id mem) {offset : ℕ}
    (hoffset : offset < mem.size) (hvirt : l.virtAddr = mem.virtAddr + offset)
    (hphys : l.physAddr = mem.physAddr + offset) :
    Covered s l ↔ offset + l.numBytes ≤ mem.size := by
  have hfirst := h.byteAt hoffset
  rw [← h.byteAt_iff hoffset, Covered, hvirt, hphys]
  constructor
  · rintro ⟨id', hid', hall⟩
    obtain rfl : id = id' := congrArg Prod.fst
      (Option.some.inj (hfirst.symm.trans hid'))
    exact hall
  · intro hall
    exact ⟨id, hfirst, hall⟩

theorem MmapKept.covered_iff (h : MmapKept s) (hl : l ∈ s.live) :
    Covered s l ↔ RangeOk l.physAddr l.numBytes := by
  obtain hwindow | hpages := h.live l hl
  · obtain ⟨w, hw, -, hfind, hle, hlt, hvirt⟩ := hwindow.virtAddr_eq h
    obtain ⟨id, hplaced, -⟩ := h.windows w hw
    have hoffset : l.physAddr - w.physAddr < w.size := by omega
    rw [hplaced.covered_iff hoffset hvirt (by omega), RangeOk, h.findWindow_eq, hfind]
    show _ ↔ l.physAddr + l.numBytes ≤ w.physAddr + w.size
    omega
  · obtain ⟨hnone, hoffset, id, -, hplaced⟩ := hpages
    have hdvd := dspPagesizeRound_dvd l.numBytes
    have hround : dspPagesizeRound l.numBytes ≠ 0 := hplaced.nonempty
    have hlt : l.physAddr % 4096 < l.area.size := by
      show l.physAddr % 4096 < dspPagesizeRound l.numBytes
      omega
    have hvirt : l.virtAddr = l.area.virtAddr + l.physAddr % 4096 := by
      show l.virtAddr = l.virtAddr / 4096 * 4096 + l.physAddr % 4096
      omega
    have hphys : l.physAddr = l.area.physAddr + l.physAddr % 4096 := by
      show l.physAddr = l.physAddr / 4096 * 4096 + l.physAddr % 4096
      omega
    rw [hplaced.covered_iff hlt hvirt hphys, RangeOk, h.findWindow_eq, hnone]
    exact Iff.rfl

/-- In every run: an address in use is always unmapped as it was mapped, and
covers its range exactly if the condition holds. -/
theorem unmaps_and_covered_iff (h : mmapMachine.Reachable s) :
    ∀ l ∈ s.live, Unmaps s l ∧
      (Covered s l ↔ RangeOk l.physAddr l.numBytes) := by
  have hkept := mmapKept_of_reachable h
  intro l hl
  exact ⟨hkept.unmaps hl, hkept.covered_iff hl⟩

/-! ## Eight bytes across a page boundary -/

/-- A system in which every address is half the physical one. -/
def demoKernel : Kernel where
  mmap a physAddr numBytes :=
    if a.Room (physAddr / 2) numBytes then some (physAddr / 2) else none
  room a physAddr numBytes base h := by
    obtain ⟨hroom, hbase⟩ := Option.ite_none_right_eq_some.mp h
    exact Option.some.inj hbase ▸ hroom

theorem dspMmap_demoKernel (forceReal : Bool) (ws : List DspMemRegion)
    (physAddr numBytes : ℕ)
    (hnone : (if forceReal then none else findWindow ws physAddr) = none)
    (hroom : a.Room (dspPagesizeAlign physAddr / 2)
      (dspPagesizeRound numBytes)) :
    dspMmap forceReal ws demoKernel physAddr numBytes a =
      (dspErrOk,
        rebase physAddr (dspPagesizeAlign physAddr)
          (dspPagesizeAlign physAddr / 2),
        { table := a.table.map ⟨a.fresh,
            dspPagesizeAlign physAddr / 2 / dspPagesize,
            pagesOf (dspPagesizeRound numBytes),
            dspPagesizeAlign physAddr / dspPagesize⟩
          fresh := a.fresh + 1 }) := by
  have hbase : demoKernel.mmap a (dspPagesizeAlign physAddr)
      (dspPagesizeRound numBytes) =
        some (dspPagesizeAlign physAddr / 2) := if_pos hroom
  rw [dspMmap, hnone]
  simp only [osalMmap, hbase, ne_eq, hroom.pos, not_false_iff, if_true]

theorem exists_acrossPages : ∃ s, mmapMachine.Reachable s ∧
    s.live = [⟨0x80000ffc, 8, 0x40000ffc, some 2⟩] := by
  let a₀ : AddressSpace := ⟨fun _ => none, 0⟩
  let a₁ : AddressSpace :=
    ⟨a₀.table.map ⟨0, 0x43000, 0x400, 0x86000⟩, 1⟩
  let a₂ : AddressSpace :=
    ⟨a₁.table.map ⟨1, 0x24000, 0x400, 0x48000⟩, 2⟩
  let windows : List DspMemRegion :=
    [⟨0x86000000, 0x43000000, 0x400000⟩, ⟨0x48000000, 0x24000000, 0x400000⟩]
  have hnothing (first pages : ℕ) : a₀.table.Free first pages :=
    fun _ _ _ => rfl
  have hfirst : dspMmap true [] demoKernel 0x86000000 0x400000 a₀ =
      (dspErrOk, 0x43000000, a₁) :=
    dspMmap_demoKernel true [] _ _ rfl
      ⟨by decide, by decide, by decide, by decide, hnothing _ _⟩
  have hsecond : dspMmap true [] demoKernel 0x48000000 0x400000 a₁ =
      (dspErrOk, 0x24000000, a₂) :=
    dspMmap_demoKernel true [] _ _ rfl
      ⟨by decide, by decide, by decide, by decide,
        (hnothing _ _).map (.inl (by decide))⟩
  have hinit : dspInitRoot 0 0 demoKernel a₀ = (dspErrOk, windows, a₂) := by
    have hfast : fastMmap = [⟨0x86000000, 0, 0x400000⟩,
      ⟨0x48000000, 0, 0x400000⟩] := by decide
    have hok : 0 = dspErrOk := rfl
    rw [dspInitRoot, if_pos hok, if_pos rfl, hfast,
      mapWindows_cons (w := ⟨0x86000000, 0, 0x400000⟩) hfirst,
      mapWindows_cons (w := ⟨0x48000000, 0, 0x400000⟩) hsecond]
    rfl
  have hthird := @dspMmap_demoKernel a₂ false windows 0x80000ffc 8 (by decide)
    ⟨by decide, by decide, by decide, by decide,
      ((hnothing _ _).map (.inl (by decide))).map (.inr (by decide))⟩
  have hreach : mmapMachine.Reachable ⟨a₂, windows, []⟩ :=
    .init ⟨rfl, 0, 0, demoKernel, hinit⟩
  refine ⟨_, hreach.step (e := .dspMmap demoKernel 0x80000ffc 8)
    ⟨by decide, by decide, rfl⟩, ?_⟩
  rw [hthird]
  rfl

theorem unmaps_and_covered_iff_acrossPages : ∃ s : MmapRun,
    s.live = [⟨0x80000ffc, 8, 0x40000ffc, some 2⟩] ∧
      ∀ l ∈ s.live, Unmaps s l ∧
        (Covered s l ↔ RangeOk l.physAddr l.numBytes) := by
  obtain ⟨s, hs, hlive⟩ := exists_acrossPages
  exact ⟨s, hlive, unmaps_and_covered_iff hs⟩

/-- The second page is not mapped. -/
theorem not_covered :
    ¬ ∀ s, mmapMachine.Reachable s → ∀ l ∈ s.live, Covered s l := by
  intro h
  obtain ⟨s, hs, hlive⟩ := exists_acrossPages
  have hl : ⟨0x80000ffc, 8, 0x40000ffc, some 2⟩ ∈ s.live := by
    rw [hlive]
    exact List.mem_singleton.mpr rfl
  have hcovered := h s hs _ hl
  rw [(mmapKept_of_reachable hs).covered_iff hl] at hcovered
  have hgt : ¬ 0x80000ffc % dspPagesize + 8 ≤ dspPagesizeRound 8 := by decide
  exact hgt hcovered

end C64Tools.Client
