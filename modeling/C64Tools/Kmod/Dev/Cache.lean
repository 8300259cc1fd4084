import C64Tools.Kmod.Dev.Memory

/-!
# Cache maintenance

`loc_ioctl_cache` and `loc_ioctl_cache_virt` look for the regions of the client
that the range of a request lies in, the first one by physical addresses and
the second one by virtual addresses.  The end of the range is computed in 32
bits.  The search goes on after a region was found.
-/

namespace C64Tools.Kmod

/-- `c64_dev_ioctl_cache_t` and `c64_dev_ioctl_cache_virt_t`. -/
structure CacheReq where
  addr : ℕ
  size : ℕ
  action : ℕ
  deriving DecidableEq, Repr

/-- The last argument of `c64_v7_dma_map_area`. -/
inductive DmaDirection where
  | toDevice
  | fromDevice
  | bidirectional
  deriving DecidableEq, Repr

/-- A call that maintains the cache. -/
inductive CacheCall where
  | flushCacheAll
  | dmaMapArea (start size : ℕ) (dir : DmaDirection)
  deriving DecidableEq, Repr

/-- `C64_CACHE_AC_WB`, `C64_CACHE_AC_INV` and `C64_CACHE_AC_WBINV`. -/
def cacheDirection : ℕ → Option DmaDirection
  | 1 => some .toDevice
  | 2 => some .fromDevice
  | 3 => some .bidirectional
  | _ => none

/-- `C64_CACHE_AC_WBINVALL`. -/
def cacheAcWbinvall : ℕ := 4

/-- `ret`, `bDone` and the calls made so far. -/
structure CacheLoop where
  ret : Ret
  done : Bool
  calls : List CacheCall

/-- The test for a region that starts at `base`. -/
def cacheTest (req : CacheReq) (base size : ℕ) : Bool :=
  base ≤ req.addr ∧ req.addr < u32 (base + size) ∧
    u32 (req.addr + req.size) ≤ u32 (base + size)

/-- One turn of the loop over the types of shared memory; `base` is the address
that the request is compared with, and `start` the address that is passed on. -/
def cacheTurn (base start : DspMemRegion → ℕ) (req : CacheReq) (s : CacheLoop)
    (mem : DspMemRegion) : CacheLoop :=
  if mem.virtAddr ≠ 0 then
    if cacheTest req (base mem) mem.size then
      match cacheDirection req.action with
      | none => { s with ret := .error .EINVAL }
      | some dir => ⟨.ok (), true,
          s.calls ++ [.dmaMapArea (start mem) req.size dir]⟩
    else s
  else s

/-- The two ioctls after the request was copied. -/
def cacheSearch (types : List DspCache) (base start : DspMemRegion → ℕ)
    (req : CacheReq) (c : ClientMem) : Ret × List CacheCall :=
  if req.action = cacheAcWbinvall then (.ok (), [.flushCacheAll])
  else
    let s := (types.map fun t => (c.shm t).dsp).foldl (cacheTurn base start req)
      ⟨.ok (), false, []⟩
    if !s.done ∧ s.ret = .ok () then (.error .EFAULT, s.calls)
    else (s.ret, s.calls)

def locIoctlCache (buf : UserBuf CacheReq) (c : ClientMem) :
    Ret × List CacheCall :=
  match buf with
  | .readable req =>
      cacheSearch DspCache.contig DspMemRegion.physAddr
        (fun mem => u32 (mem.virtAddr + u32Sub req.addr mem.physAddr)) req c
  | .fault _ => (.error .EFAULT, [])

def locIoctlCacheVirt (buf : UserBuf CacheReq) (c : ClientMem) :
    Ret × List CacheCall :=
  match buf with
  | .readable req =>
      cacheSearch DspCache.all DspMemRegion.virtAddr (fun _ => req.addr) req c
  | .fault _ => (.error .EFAULT, [])

/-- The physical and the virtual variant. -/
inductive CacheVariant where
  | phys
  | virt
  deriving DecidableEq, Repr

namespace CacheVariant

/-- The ioctl. -/
def ioctl : CacheVariant → UserBuf CacheReq → ClientMem →
    Ret × List CacheCall
  | .phys => locIoctlCache
  | .virt => locIoctlCacheVirt

/-- The types of shared memory that it looks at. -/
def types : CacheVariant → List DspCache
  | .phys => DspCache.contig
  | .virt => DspCache.all

/-- The address that it compares requests with. -/
def base : CacheVariant → DspMemRegion → ℕ
  | .phys => DspMemRegion.physAddr
  | .virt => DspMemRegion.virtAddr

/-- A region of the client that is mapped. -/
def Mapped (v : CacheVariant) (c : ClientMem) (mem : DspMemRegion) : Prop :=
  ∃ t ∈ v.types, (c.shm t).dsp = mem ∧ mem.virtAddr ≠ 0

/-- No mapped region goes beyond the last address. -/
def NoneWraps (v : CacheVariant) (c : ClientMem) : Prop :=
  ∀ mem, v.Mapped c mem → v.base mem + mem.size ≤ 2 ^ 32

/-- The range of the request lies in a mapped region. -/
def Contained (v : CacheVariant) (c : ClientMem) (req : CacheReq) : Prop :=
  ∃ mem, v.Mapped c mem ∧ v.base mem ≤ req.addr ∧
    req.addr + req.size ≤ v.base mem + mem.size

/-- A range that lies in no mapped region is refused, and the cache is not
touched. -/
def RefusesOutside (v : CacheVariant) (c : ClientMem) (req : CacheReq) : Prop :=
  ¬ v.Contained c req →
    (∃ e, (v.ioctl (.readable req) c).1 = .error e) ∧
      (v.ioctl (.readable req) c).2 = []

/-- The end of the range does not wrap; or it does so and comes to lie behind
every region that holds the start; or it is the end of the address space, and a
region that holds the start ends there too. -/
def EndIsSafe (v : CacheVariant) (c : ClientMem) (req : CacheReq) : Prop :=
  req.addr + req.size < 2 ^ 32 ∨
    (∀ mem, v.Mapped c mem → v.base mem ≤ req.addr →
      req.addr < v.base mem + mem.size →
      v.base mem + mem.size < 2 ^ 32 →
        v.base mem + mem.size < req.addr + req.size - 2 ^ 32) ∨
    (req.addr + req.size = 2 ^ 32 ∧ ∃ mem, v.Mapped c mem ∧
      v.base mem ≤ req.addr ∧ v.base mem + mem.size = 2 ^ 32)

end CacheVariant

/-! ## The search -/

section Search

variable {base start : DspMemRegion → ℕ} {req : CacheReq} {c : ClientMem}
  {dir : DmaDirection}

/-- The region is mapped and passes the test. -/
def cacheAccepts (base : DspMemRegion → ℕ) (req : CacheReq)
    (mem : DspMemRegion) : Bool :=
  mem.virtAddr ≠ 0 ∧ cacheTest req (base mem) mem.size

theorem cacheTurn_of_accepts {mem : DspMemRegion}
    (hdir : cacheDirection req.action = some dir)
    (haccepts : cacheAccepts base req mem = true) (s : CacheLoop) :
    cacheTurn base start req s mem = ⟨.ok (), true,
      s.calls ++ [.dmaMapArea (start mem) req.size dir]⟩ := by
  obtain ⟨hmapped, htest⟩ := of_decide_eq_true haccepts
  rw [cacheTurn, if_pos hmapped, if_pos htest, hdir]

theorem cacheTurn_of_not_accepts {mem : DspMemRegion}
    (haccepts : cacheAccepts base req mem = false) (s : CacheLoop) :
    cacheTurn base start req s mem = s := by
  have hnot := of_decide_eq_false haccepts
  unfold cacheTurn
  split_ifs with hmapped htest
  · exact absurd ⟨hmapped, htest⟩ hnot
  · rfl
  · rfl

/-- For one of the three actions the loop makes one call for each region that
is accepted. -/
theorem foldl_cacheTurn (hdir : cacheDirection req.action = some dir)
    (mems : List DspMemRegion) : ∀ s : CacheLoop, s.ret = .ok () →
      mems.foldl (cacheTurn base start req) s =
        ⟨.ok (), s.done || mems.any (cacheAccepts base req),
          s.calls ++ (mems.filter (cacheAccepts base req)).map
            fun mem => .dmaMapArea (start mem) req.size dir⟩ := by
  induction mems with
  | nil =>
      rintro ⟨_, done, calls⟩ rfl
      simp
  | cons mem mems ih =>
      intro s hret
      rw [List.foldl_cons]
      cases haccepts : cacheAccepts base req mem with
      | true =>
          rw [cacheTurn_of_accepts hdir haccepts, ih _ rfl]
          simp [haccepts]
      | false =>
          rw [cacheTurn_of_not_accepts haccepts, ih s hret]
          simp [haccepts]

theorem cacheDirection_ne_wbinvall
    (hdir : cacheDirection req.action = some dir) :
    req.action ≠ cacheAcWbinvall := by
  intro haction
  rw [haction] at hdir
  cases hdir

/-- Without an accepted region the request is refused, and no call is made. -/
theorem cacheSearch_refuses_iff {types : List DspCache}
    (hdir : cacheDirection req.action = some dir) :
    ((∃ e, (cacheSearch types base start req c).1 = .error e) ∧
      (cacheSearch types base start req c).2 = []) ↔
      ∀ t ∈ types, cacheAccepts base req (c.shm t).dsp = false := by
  rw [cacheSearch, if_neg (cacheDirection_ne_wbinvall hdir),
    foldl_cacheTurn hdir _ _ rfl]
  simp only [Bool.false_or, List.nil_append]
  cases hany : (types.map fun t => (c.shm t).dsp).any (cacheAccepts base req) with
  | true =>
      simp only [Bool.not_true, Bool.false_eq_true, false_and, if_false]
      refine iff_of_false (fun h => nomatch h.1.choose_spec) fun hnone => ?_
      obtain ⟨mem, hmem, haccepts⟩ := List.any_eq_true.mp hany
      obtain ⟨t, ht, rfl⟩ := List.mem_map.mp hmem
      rw [hnone t ht] at haccepts
      cases haccepts
  | false =>
      have hnone : ∀ t ∈ types, cacheAccepts base req (c.shm t).dsp = false := by
        intro t ht
        have hall := List.any_eq_false.mp hany (c.shm t).dsp
          (List.mem_map_of_mem ht)
        exact Bool.eq_false_of_not_eq_true hall
      have hfilter : (types.map fun t => (c.shm t).dsp).filter
          (cacheAccepts base req) = [] :=
        List.filter_eq_nil_iff.mpr (List.any_eq_false.mp hany)
      simp only [hfilter, Bool.not_false, and_self, if_true, List.map_nil]
      exact iff_of_true ⟨⟨_, rfl⟩, trivial⟩ hnone

end Search

/-! ## Ranges that are refused -/

section Inside

variable {v : CacheVariant} {c : ClientMem} {req : CacheReq}

theorem CacheVariant.refuses_iff {dir : DmaDirection}
    (hdir : cacheDirection req.action = some dir) :
    ((∃ e, (v.ioctl (.readable req) c).1 = .error e) ∧
      (v.ioctl (.readable req) c).2 = []) ↔
      ∀ mem, v.Mapped c mem → cacheTest req (v.base mem) mem.size = false := by
  have hsearch : ((∃ e, (v.ioctl (.readable req) c).1 = .error e) ∧
      (v.ioctl (.readable req) c).2 = []) ↔
      ∀ t ∈ v.types, cacheAccepts v.base req (c.shm t).dsp = false := by
    cases v with
    | phys => exact cacheSearch_refuses_iff hdir
    | virt => exact cacheSearch_refuses_iff hdir
  rw [hsearch]
  constructor
  · rintro hnone mem ⟨t, ht, rfl, hvirt⟩
    have hnot := of_decide_eq_false (hnone t ht)
    exact Bool.eq_false_of_not_eq_true fun htest => hnot ⟨hvirt, htest⟩
  · intro hnone t ht
    refine decide_eq_false ?_
    rintro ⟨hvirt, htest⟩
    rw [hnone _ ⟨t, ht, rfl, hvirt⟩] at htest
    cases htest

/-- What the test says about a region that does not wrap. -/
theorem cacheTest_iff {base size : ℕ} (hregion : base + size ≤ 2 ^ 32)
    (haddr : req.addr < 2 ^ 32) (hsize : req.size < 2 ^ 32) :
    cacheTest req base size = true ↔
      base ≤ req.addr ∧ req.addr < base + size ∧ base + size < 2 ^ 32 ∧
        (req.addr + req.size ≤ base + size ∨
          2 ^ 32 ≤ req.addr + req.size ∧
            req.addr + req.size - 2 ^ 32 ≤ base + size) := by
  rw [cacheTest, decide_eq_true_iff]
  simp only [u32]
  omega

/-- A range outside the mapped regions is refused if and only if its end is
not taken for an address inside. -/
theorem ioctlCache_inside_iff (v : CacheVariant) (c : ClientMem)
    (req : CacheReq) (hdir : (cacheDirection req.action).isSome)
    (haddr : req.addr < 2 ^ 32) (hsize : req.size < 2 ^ 32)
    (hregions : v.NoneWraps c) :
    v.RefusesOutside c req ↔ v.EndIsSafe c req := by
  obtain ⟨dir, hdir⟩ := Option.isSome_iff_exists.mp hdir
  rw [CacheVariant.RefusesOutside, CacheVariant.refuses_iff hdir]
  have htest (mem : DspMemRegion) (hmem : v.Mapped c mem) :=
    cacheTest_iff (hregions mem hmem) haddr hsize
  constructor
  · intro hrefuses
    by_cases hfit : req.addr + req.size < 2 ^ 32
    · exact Or.inl hfit
    · by_cases hcontained : v.Contained c req
      · obtain ⟨mem, hmem, hbase, hend⟩ := hcontained
        have hregion := hregions mem hmem
        exact Or.inr (Or.inr ⟨by omega, mem, hmem, hbase, by omega⟩)
      · refine Or.inr (Or.inl fun mem hmem hbase hlt hregion => ?_)
        have hnot := mt (htest mem hmem).mpr
          (Bool.not_eq_true _ ▸ hrefuses hcontained mem hmem)
        omega
  · intro hsafe hcontained mem hmem
    refine Bool.eq_false_of_not_eq_true fun haccepts => ?_
    obtain ⟨hbase, hlt, hregion, hend⟩ := (htest mem hmem).mp haccepts
    rcases hsafe with hfit | hbehind | ⟨hend', mem', hmem', hbase', htop⟩
    · exact hcontained ⟨mem, hmem, hbase, by omega⟩
    · have hover := hbehind mem hmem hbase hlt hregion
      rcases hend with hinside | ⟨-, hwrapped⟩
      · exact hcontained ⟨mem, hmem, hbase, hinside⟩
      · omega
    · exact hcontained ⟨mem', hmem', hbase', by omega⟩

/-- A client that has mapped two pages. -/
def twoMappedPages : ClientMem :=
  ClientMem.initial.setShm .rw
    ⟨0xc8000000, ⟨0x87000000, 0x60000000, 8192⟩⟩

theorem mapped_twoMappedPages {mem : DspMemRegion}
    (h : v.Mapped twoMappedPages mem) :
    mem = ⟨0x87000000, 0x60000000, 8192⟩ := by
  obtain ⟨t, -, rfl, hvirt⟩ := h
  cases t with
  | rw => rfl
  | none | r | w | hugetlb => exact absurd rfl hvirt

theorem noneWraps_twoMappedPages (v : CacheVariant) :
    v.NoneWraps twoMappedPages := by
  intro mem hmem
  rw [mapped_twoMappedPages hmem]
  cases v <;> decide

/-- One cache line is written back. -/
theorem ioctlCache_inside_line :
    CacheVariant.phys.RefusesOutside twoMappedPages ⟨0x87000040, 64, 1⟩ ↔
      CacheVariant.phys.EndIsSafe twoMappedPages ⟨0x87000040, 64, 1⟩ :=
  ioctlCache_inside_iff .phys twoMappedPages ⟨0x87000040, 64, 1⟩ (by decide)
    (by decide) (by decide) (noneWraps_twoMappedPages .phys)

/-- A range from the second page once round the address space to the first one
is taken for a part of the region. -/
theorem ioctlCache_accepts_wrapped_range :
    (locIoctlCache (.readable ⟨0x87001000, 0xfffff000, 2⟩) twoMappedPages =
        (.ok (), [.dmaMapArea 0x60001000 0xfffff000 .fromDevice]) ∧
      ¬ CacheVariant.phys.RefusesOutside twoMappedPages
        ⟨0x87001000, 0xfffff000, 2⟩) ∧
    (locIoctlCacheVirt (.readable ⟨0x60001000, 0xfffff000, 2⟩) twoMappedPages =
        (.ok (), [.dmaMapArea 0x60001000 0xfffff000 .fromDevice]) ∧
      ¬ CacheVariant.virt.RefusesOutside twoMappedPages
        ⟨0x60001000, 0xfffff000, 2⟩) := by
  have houtside {v : CacheVariant} {addr : ℕ}
      (hend : 0x87000000 + 8192 < addr + 0xfffff000) :
      ¬ v.Contained twoMappedPages ⟨addr, 0xfffff000, 2⟩ := by
    rintro ⟨mem, hmem, -, hin⟩
    rw [mapped_twoMappedPages hmem] at hin
    cases v with
    | phys => exact absurd hin (Nat.not_le_of_lt hend)
    | virt =>
        have hlt : 0x60000000 + 8192 < addr + 0xfffff000 := by omega
        exact absurd hin (Nat.not_le_of_lt hlt)
  refine ⟨⟨by decide, fun hrefuses => ?_⟩, ⟨by decide, fun hrefuses => ?_⟩⟩
  · obtain ⟨-, hcalls⟩ := hrefuses (houtside (by decide))
    exact absurd hcalls (by decide)
  · obtain ⟨-, hcalls⟩ := hrefuses (houtside (by decide))
    exact absurd hcalls (by decide)

end Inside

end C64Tools.Kmod
