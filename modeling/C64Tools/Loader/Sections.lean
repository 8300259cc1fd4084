import C64Tools.Client.Access
import C64Tools.Coff.RawBuffer

/-!
# Loading the core image

What `c64_load` does with the sections of an image while the DSP is held in reset.
The memory behind the boot code is filled first.  Then each section is put at its
physical address, up to the first one that fails.  Sections of zeros below the
reset vector are left out, as they would be in the SRAM of the DSP.

The buffer for raw data is as large as the largest section with a short name.  A
larger one is read into it all the same: no more is said about a run that has
written behind the buffer, or outside of a mapping.
-/

namespace C64Tools.Loader

open ByteMemory Client Coff

/-- `DSP_RESET_VECTOR_CODESIZE`. -/
def dspResetVectorCodesize : ℕ := 0x00000080

/-- `DSP_RESET_VECTOR_MINSIZE`. -/
def dspResetVectorMinsize : ℕ := 0x00001000

/-- `err_t`, of which one member is in use at a time. -/
inductive Err where
  | coff (e : CoffError)
  | fileNotOpen
  | genBios5xx
  | dsp (ret : ℕ)
  deriving DecidableEq, Repr

/-- A `dsp_error_t` as an `err_t`. -/
def ofDsp (ret : ℕ) : Option Err :=
  if ret = dspErrOk then none else some (.dsp ret)

/-! ## The functions -/

/-- How many bytes of the raw data `coff_read` stores, also where it fails. -/
def rawDataStored (r : Reader) (h : CoffSecHeader) : ℕ :=
  match coffSeekAbs r h.rawDataOff with
  | .ok r =>
      if r.off + h.size ≤ r.size then
        min h.size.toNat (r.file.length - r.off.toNat)
      else 0
  | .error _ => 0

/-- One round of the loop over the sections. -/
def locReadSection (k : Kernel) (rawBufSize : Coff.Word) (h : CoffSecHeader)
    (r : Reader) (p : Process) :
    Option (Option Err × Reader × Process) :=
  if h.physAddr ≠ 0 then
    if h.flags &&& coffSecHeaderFlagBss ≠ 0 then
      if 0 < h.size then
        -- "avoid access to L1DSRAM"
        if dspConfig.resetVector.physAddr ≤ h.physAddr.toNat then do
          let (ret, p) ← dspMemset k h.physAddr.toNat 0 h.size.toNat p
          return (ofDsp ret, r, p)
        else some (none, r, p)
      else some (none, r, p)
    else if h.flags &&& (coffSecHeaderFlagText ||| coffSecHeaderFlagData) ≠ 0
    then
      if 0 < h.rawDataOff then
        if rawDataStored r h ≤ rawBufSize.toNat then
          match rawData r h with
          | .ok (bs, r) => do
              let (ret, p) ← dspCopyTo k h.physAddr.toNat (some bs) p
              return (ofDsp ret, r, p)
          | .error e => some (some (.coff e), r, p)
        else none
      else some (none, r, p)
    else some (none, r, p)
  else some (none, r, p)

/-- The loop over the sections, which ends at the first error. -/
def locReadSectionsLoop (k : Kernel) (rawBufSize : Coff.Word) :
    List CoffSecHeader → Reader → Process → Option (Option Err × Process)
  | [], _, p => some (none, p)
  | h :: hs, r, p =>
      match locReadSection k rawBufSize h r p with
      | some (none, r, p) => locReadSectionsLoop k rawBufSize hs r p
      | some (some e, _, p) => some (some e, p)
      | none => none

/-- `loc_read_sections`. -/
def locReadSections (k : Kernel) (osalAlloc : Coff.Word → Bool) (c : CoffInfo)
    (r : Reader) (p : Process) : Option (Option Err × Process) :=
  if 0 < c.maxRawDataSize then
    if osalAlloc c.maxRawDataSize then do
      let (ret, p) ← dspMemset k
        (dspConfig.resetVector.physAddr + dspResetVectorCodesize) 0xCC
        (dspResetVectorMinsize - dspResetVectorCodesize) p
      if ret = dspErrOk then
        locReadSectionsLoop k c.maxRawDataSize c.secHeaders r p
      else return (some (.dsp ret), p)
    else some (some (.coff .genRawBufAlloc), p)
  else some (some (.coff .genNoCodeOrData), p)

/-! ## What they are for -/

/-- Something is put into the memory for this section. -/
def IsPut (h : CoffSecHeader) : Prop :=
  h.IsBss ∧ dspConfig.resetVector.physAddr ≤ h.physAddr.toNat ∨ h.IsRaw

instance (h : CoffSecHeader) : Decidable (IsPut h) :=
  inferInstanceAs (Decidable (_ ∨ _))

/-- The file has the raw data of a section that needs some. -/
def InFile (file : List Byte) (h : CoffSecHeader) : Prop :=
  h.IsRaw → h.rawDataOff.toNat + h.size.toNat ≤ file.length

/-- What is put for the section stays in its mapping, and the raw data in the
buffer. -/
def Stays (rawBufSize : Coff.Word) (h : CoffSecHeader) : Prop :=
  RangeOk h.physAddr.toNat h.size.toNat ∧ (h.IsRaw → h.size ≤ rawBufSize)

/-- How the sections are put into the memory, up to the first error. -/
inductive Puts (file : List Byte) :
    List CoffSecHeader → Memory 32 → Option Err → Memory 32 → Prop
  | nil {mem : Memory 32} : Puts file [] mem none mem
  | skip {h : CoffSecHeader} {hs : List CoffSecHeader} {err : Option Err}
      {mem mem' : Memory 32} : ¬ IsPut h →
      Puts file hs mem err mem' → Puts file (h :: hs) mem err mem'
  | put {h : CoffSecHeader} {hs : List CoffSecHeader} {err : Option Err}
      {mem mem' : Memory 32} : IsPut h → InFile file h →
      RangeOk h.physAddr.toNat h.size.toNat →
      Puts file hs (write mem h.physAddr (h.content file)) err mem' →
      Puts file (h :: hs) mem err mem'
  | notInFile {h : CoffSecHeader} {hs : List CoffSecHeader} {e : CoffError}
      {mem : Memory 32} : IsPut h → ¬ InFile file h →
      Puts file (h :: hs) mem (some (.coff e)) mem
  | notMapped {h : CoffSecHeader} {hs : List CoffSecHeader}
      {mem : Memory 32} : IsPut h →
      findWindow fastMmap h.physAddr.toNat = none →
      Puts file (h :: hs) mem (some (.dsp dspErrMemMap)) mem

/-- The memory behind the boot code is filled. -/
def fill (mem : Memory 32) : Memory 32 :=
  write mem 0x86000080 (List.replicate 0xf80 0xCC)

variable {k : Kernel} {file : List Byte} {h : CoffSecHeader}
  {hs : List CoffSecHeader} {r : Reader} {p p' : Process}
  {rawBufSize : Coff.Word}

/-! ## One section -/

theorem rawDataStored_le (r : Reader) (h : CoffSecHeader) :
    rawDataStored r h ≤ h.size.toNat := by
  unfold rawDataStored
  split
  · split_ifs
    · exact min_le_left _ _
    · exact Nat.zero_le _
  · exact Nat.zero_le _

/-- Raw data that is not in the file cannot be read. -/
theorem rawData_of_not_le (hfile : r.file.length < 2 ^ 31)
    (hle : ¬ h.rawDataOff.toNat + h.size.toNat ≤ r.file.length) :
    ∃ e, rawData r h = .error e := by
  unfold rawData coffSeekAbs
  by_cases hseek : h.rawDataOff.toNat < 2 ^ 31
  · rw [if_pos hseek]
    show ∃ e, coffRead { r with off := h.rawDataOff } h.size = .error e
    unfold coffRead
    dsimp only
    have hlen : ((r.file.drop h.rawDataOff.toNat).take h.size.toNat).length ≠
        h.size.toNat ∨ h.rawDataOff.toNat > r.file.length := by
      rw [List.length_take, List.length_drop]
      omega
    by_cases hsum : h.rawDataOff + h.size ≤
        Reader.size { r with off := h.rawDataOff }
    · rw [if_pos hsum]
      obtain hlen | hgt := hlen
      · exact ⟨_, if_neg hlen⟩
      · -- the sum would have to wrap around, with nothing left to be read
        refine ⟨_, if_neg ?_⟩
        rw [List.length_take, List.length_drop]
        rw [BitVec.le_def, BitVec.toNat_add, Reader.size,
          BitVec.toNat_ofNat] at hsum
        have hsize := h.size.isLt
        have hoff := h.rawDataOff.isLt
        dsimp only at hsum
        omega
    · rw [if_neg hsum]
      exact ⟨_, rfl⟩
  · rw [if_neg hseek]
    exact ⟨_, rfl⟩

theorem length_content_of_put (hput : IsPut h) (hin : InFile file h) :
    (h.content file).length = h.size.toNat := by
  unfold CoffSecHeader.content
  by_cases hbss : h.IsBss
  · rw [if_pos hbss, List.length_replicate]
  · have hraw : h.IsRaw := hput.resolve_left fun hb => hbss hb.1
    have hle := hin hraw
    rw [if_neg hbss, if_pos hraw, List.length_take, List.length_drop]
    omega

/-- How one round of the loop ends. -/
inductive RoundEnds (file : List Byte) (rawBufSize : Coff.Word)
    (h : CoffSecHeader) (p : Process) :
    Option (Option Err × Reader × Process) → Prop
  | skip {r : Reader} : r.file = file → ¬ IsPut h →
      RoundEnds file rawBufSize h p (some (none, r, p))
  | put {r : Reader} {p' : Process} : r.file = file → IsPut h →
      InFile file h → RangeOk h.physAddr.toNat h.size.toNat →
      p'.mem = write p.mem h.physAddr (h.content file) →
      p'.space.table = p.space.table → p'.Ready →
      RoundEnds file rawBufSize h p (some (none, r, p'))
  | notInFile {r : Reader} {e : CoffError} : IsPut h → ¬ InFile file h →
      RoundEnds file rawBufSize h p (some (some (.coff e), r, p))
  | notMapped {r : Reader} : IsPut h →
      findWindow fastMmap h.physAddr.toNat = none →
      RoundEnds file rawBufSize h p (some (some (.dsp dspErrMemMap), r, p))
  | left : IsPut h → ¬ Stays rawBufSize h →
      RoundEnds file rawBufSize h p none

theorem locReadSection_bss (hp : p.Ready) (hbss : h.IsBss)
    (hr : r.file = file) :
    RoundEnds file rawBufSize h p (locReadSection k rawBufSize h r p) := by
  unfold locReadSection
  rw [if_pos hbss.1, if_pos hbss.2.1, if_pos hbss.2.2]
  have hnotraw : ¬ h.IsRaw := fun hraw => hbss.2.1 hraw.2.1
  have hin : InFile file h := fun hraw => absurd hraw hnotraw
  by_cases hstart : dspConfig.resetVector.physAddr ≤ h.physAddr.toNat
  · rw [if_pos hstart]
    have hput : IsPut h := .inl ⟨hbss, hstart⟩
    obtain ⟨hfail, hnone⟩ | ⟨hok, space, hdone, htable, hready⟩ | ⟨hnot, hleft⟩ :=
      hp.dspMemset_cases k 0 h.physAddr.isLt h.size.isLt
    · rw [hfail]
      exact .notMapped hput hnone
    · rw [hdone]
      refine .put hr hput hin hok ?_ htable hready
      rw [CoffSecHeader.content, if_pos hbss, BitVec.ofNat_toNat,
        BitVec.setWidth_eq]
    · rw [hleft]
      exact .left hput fun hstays => hnot hstays.1
  · rw [if_neg hstart]
    exact .skip hr fun hput => hput.elim (fun hb => hstart hb.2) hnotraw

theorem locReadSection_raw (hp : p.Ready) (hraw : h.IsRaw)
    (hr : r.file = file) (hfile : file.length < 2 ^ 31) :
    RoundEnds file rawBufSize h p (locReadSection k rawBufSize h r p) := by
  have hput : IsPut h := .inr hraw
  have hnotbss : ¬ h.IsBss := fun hbss => hbss.2.1 hraw.2.1
  unfold locReadSection
  rw [if_pos hraw.1, if_neg (not_not.mpr hraw.2.1), if_pos hraw.2.2.1,
    if_pos hraw.2.2.2]
  by_cases hbuf : rawDataStored r h ≤ rawBufSize.toNat
  swap
  · rw [if_neg hbuf]
    refine .left hput fun hstays => hbuf ?_
    exact (rawDataStored_le r h).trans (BitVec.le_def.mp (hstays.2 hraw))
  rw [if_pos hbuf]
  by_cases hle : h.rawDataOff.toNat + h.size.toNat ≤ file.length
  · obtain ⟨r', hdata, hr'⟩ := rawData_of_le hfile hr hle
    have hin : InFile file h := fun _ => hle
    have hcontent : h.content file =
        (file.drop h.rawDataOff.toNat).take h.size.toNat := by
      rw [CoffSecHeader.content, if_neg hnotbss, if_pos hraw]
    have hlength := length_content_of_put hput hin
    rw [hcontent] at hlength
    rw [hdata]
    obtain ⟨hfail, hnone⟩ | ⟨hok, space, hdone, htable, hready⟩ | ⟨hnot, hleft⟩ :=
      hp.dspCopyTo_cases k
        ((file.drop h.rawDataOff.toNat).take h.size.toNat) h.physAddr.isLt
        (lt_of_eq_of_lt hlength h.size.isLt)
    · simp only [hfail]
      exact .notMapped hput hnone
    · simp only [hdone]
      rw [hlength] at hok
      refine .put hr' hput hin hok ?_ htable hready
      rw [hcontent, BitVec.ofNat_toNat, BitVec.setWidth_eq]
    · simp only [hleft]
      rw [hlength] at hnot
      exact .left hput fun hstays => hnot hstays.1
  · have hnotin : ¬ InFile file h := fun hin => hle (hin hraw)
    subst hr
    obtain ⟨e, he⟩ := rawData_of_not_le hfile hle
    rw [he]
    exact .notInFile hput hnotin

theorem locReadSection_other (hbss : ¬ h.IsBss) (hraw : ¬ h.IsRaw) :
    locReadSection k rawBufSize h r p = some (none, r, p) := by
  unfold locReadSection
  split_ifs with haddr hflag hsize hstart hload hoff hbuf
  · exact absurd ⟨haddr, hflag, hsize⟩ hbss
  · rfl
  · rfl
  · exact absurd ⟨haddr, not_not.mp hflag, hload, hoff⟩ hraw
  · exact absurd ⟨haddr, not_not.mp hflag, hload, hoff⟩ hraw
  · rfl
  · rfl
  · rfl

theorem locReadSection_ends (k : Kernel) (rawBufSize : Coff.Word)
    (h : CoffSecHeader) (hp : p.Ready)
    (hr : r.file = file) (hfile : file.length < 2 ^ 31) :
    RoundEnds file rawBufSize h p (locReadSection k rawBufSize h r p) := by
  by_cases hbss : h.IsBss
  · exact locReadSection_bss hp hbss hr
  · by_cases hraw : h.IsRaw
    · exact locReadSection_raw hp hraw hr hfile
    · rw [locReadSection_other hbss hraw]
      exact .skip hr fun hput => hput.elim (fun hb => hbss hb.1) hraw

/-! ## All sections -/

/-- The loop puts the sections into the memory one after the other, if nothing of
one leaves its mapping or the buffer. -/
theorem locReadSectionsLoop_puts (k : Kernel) (rawBufSize : Coff.Word)
    (hs : List CoffSecHeader) (hp : p.Ready) (hr : r.file = file)
    (hfile : file.length < 2 ^ 31) :
    (∀ err p', locReadSectionsLoop k rawBufSize hs r p = some (err, p') →
      Puts file hs p.mem err p'.mem ∧ p'.space.table = p.space.table ∧
        p'.Ready) ∧
    (locReadSectionsLoop k rawBufSize hs r p = none →
      ∃ h ∈ hs, IsPut h ∧ ¬ Stays rawBufSize h) := by
  induction hs generalizing r p with
  | nil =>
      refine ⟨fun err p' hrun => ?_, fun hnone => ?_⟩
      · obtain ⟨rfl, rfl⟩ := Prod.mk.inj (Option.some.inj hrun)
        exact ⟨.nil, rfl, hp⟩
      · exact absurd hnone (Option.some_ne_none _)
  | cons h hs ih =>
      have hends := locReadSection_ends k rawBufSize h hp hr hfile
      rw [locReadSectionsLoop]
      generalize locReadSection k rawBufSize h r p = o at hends
      have htail {P : CoffSecHeader → Prop} :
          (∃ g ∈ hs, P g) → ∃ g ∈ h :: hs, P g := by
        rintro ⟨g, hg, hP⟩
        exact ⟨g, List.mem_cons_of_mem h hg, hP⟩
      cases hends with
      | skip hr' hnot =>
          obtain ⟨hsome, hnone⟩ := ih hp hr'
          refine ⟨fun err p' hrun => ?_, fun hrun => htail (hnone hrun)⟩
          obtain ⟨hputs, hrest⟩ := hsome err p' hrun
          exact ⟨.skip hnot hputs, hrest⟩
      | put hr' hput hin hok hmem htable hready =>
          obtain ⟨hsome, hnone⟩ := ih hready hr'
          refine ⟨fun err p' hrun => ?_, fun hrun => htail (hnone hrun)⟩
          obtain ⟨hputs, htable', hready'⟩ := hsome err p' hrun
          rw [hmem] at hputs
          exact ⟨.put hput hin hok hputs, htable'.trans htable, hready'⟩
      | notInFile hput hnotin =>
          refine ⟨fun err p' hrun => ?_, fun hrun => ?_⟩
          · obtain ⟨rfl, rfl⟩ := Prod.mk.inj (Option.some.inj hrun)
            exact ⟨.notInFile hput hnotin, rfl, hp⟩
          · exact absurd hrun (Option.some_ne_none _)
      | notMapped hput hnone =>
          refine ⟨fun err p' hrun => ?_, fun hrun => ?_⟩
          · obtain ⟨rfl, rfl⟩ := Prod.mk.inj (Option.some.inj hrun)
            exact ⟨.notMapped hput hnone, rfl, hp⟩
          · exact absurd hrun (Option.some_ne_none _)
      | left hput hnot =>
          refine ⟨fun err p' hrun => ?_, fun _ => ?_⟩
          · exact absurd hrun (Option.some_ne_none _).symm
          · exact ⟨h, List.mem_cons_self, hput, hnot⟩

/-- The range that is filled is in the first window. -/
theorem dspMemset_fill (hp : p.Ready) (k : Kernel) :
    ∃ space, dspMemset k
        (dspConfig.resetVector.physAddr + dspResetVectorCodesize) 0xCC
        (dspResetVectorMinsize - dspResetVectorCodesize) p =
          some (dspErrOk, ⟨p.fastMmap, space, fill p.mem⟩) ∧
      space.table = p.space.table ∧
      Process.Ready ⟨p.fastMmap, space, fill p.mem⟩ := by
  have haddr : dspConfig.resetVector.physAddr + dspResetVectorCodesize =
      0x86000080 := rfl
  have hsize : dspResetVectorMinsize - dspResetVectorCodesize = 0xf80 := rfl
  have hwindow : findWindow fastMmap 0x86000080 =
      some ⟨0x86000000, 0, 0x400000⟩ :=
    findWindow_image (by decide) (by decide)
  have hrange : RangeOk 0x86000080 0xf80 :=
    (rangeOk_image (by decide) (by decide)).mpr (by decide)
  rw [haddr, hsize]
  obtain ⟨-, hnone⟩ | ⟨-, space, hdone, htable, hready⟩ | ⟨hnot, -⟩ :=
    hp.dspMemset_cases k 0xCC (show 0x86000080 < 2 ^ 32 by decide)
      (show 0xf80 < 2 ^ 32 by decide)
  · exact absurd (hwindow.symm.trans hnone) (Option.some_ne_none _)
  · exact ⟨space, hdone, htable, hready⟩
  · exact absurd hrange hnot

/-- The range has been filled when the loop begins. -/
theorem locReadSections_eq {osalAlloc : Coff.Word → Bool} {c : CoffInfo}
    (k : Kernel) (r : Reader) (hp : p.Ready) (hmax : 0 < c.maxRawDataSize)
    (halloc : osalAlloc c.maxRawDataSize = true) :
    ∃ q : Process, locReadSections k osalAlloc c r p =
        locReadSectionsLoop k c.maxRawDataSize c.secHeaders r q ∧
      q.mem = fill p.mem ∧ q.space.table = p.space.table ∧ q.Ready := by
  obtain ⟨space, hdone, htable, hready⟩ := dspMemset_fill hp k
  generalize fill p.mem = mem at hdone hready ⊢
  refine ⟨⟨p.fastMmap, space, mem⟩, ?_, rfl, htable, hready⟩
  rw [locReadSections, if_pos hmax, if_pos halloc, hdone]
  rfl

/-- For any headers and any file: the loader ends before it has touched the memory,
or fills the range and puts the sections, up to the first one that is not in the
file or cannot be mapped; or something of a section does not stay in its mapping or
in the buffer. -/
theorem locReadSections_puts (k : Kernel) (osalAlloc : Coff.Word → Bool)
    (c : CoffInfo) (hp : p.Ready) (hfile : r.file.length < 2 ^ 31) :
    (∀ err p', locReadSections k osalAlloc c r p = some (err, p') →
      p'.space.table = p.space.table ∧ p'.Ready ∧
        (err ≠ none ∧ p' = p ∨
          Puts r.file c.secHeaders (fill p.mem) err p'.mem)) ∧
    (locReadSections k osalAlloc c r p = none →
      ∃ h ∈ c.secHeaders, IsPut h ∧ ¬ Stays c.maxRawDataSize h) := by
  have hearly {e : Err}
      (he : locReadSections k osalAlloc c r p = some (some e, p)) :
      (∀ err p', locReadSections k osalAlloc c r p = some (err, p') →
        p'.space.table = p.space.table ∧ p'.Ready ∧
          (err ≠ none ∧ p' = p ∨
            Puts r.file c.secHeaders (fill p.mem) err p'.mem)) ∧
      (locReadSections k osalAlloc c r p = none →
        ∃ h ∈ c.secHeaders, IsPut h ∧ ¬ Stays c.maxRawDataSize h) := by
    refine ⟨fun err p' hrun => ?_, fun hrun => ?_⟩
    · obtain ⟨rfl, rfl⟩ := Prod.mk.inj (Option.some.inj (he.symm.trans hrun))
      exact ⟨rfl, hp, .inl ⟨Option.some_ne_none _, rfl⟩⟩
    · exact absurd (he.symm.trans hrun) (Option.some_ne_none _)
  by_cases hmax : 0 < c.maxRawDataSize
  · by_cases halloc : osalAlloc c.maxRawDataSize = true
    · obtain ⟨q, heq, hmem, htable, hready⟩ :=
        locReadSections_eq k r hp hmax halloc
      obtain ⟨hsome, hnone⟩ :=
        locReadSectionsLoop_puts k c.maxRawDataSize c.secHeaders hready (Eq.refl r.file) hfile
      rw [hmem] at hsome
      rw [heq]
      refine ⟨fun err p' hrun => ?_, hnone⟩
      obtain ⟨hputs, htable', hready'⟩ := hsome err p' hrun
      exact ⟨htable'.trans htable, hready', .inr hputs⟩
    · refine hearly (e := .coff .genRawBufAlloc) ?_
      rw [locReadSections, if_pos hmax, if_neg halloc]
  · refine hearly (e := .coff .genNoCodeOrData) ?_
    rw [locReadSections, if_neg hmax]

/-! ## A well-formed image -/

/-- The sections are where they belong, the rest of the range is filled, and
nothing else is different. -/
structure ImageLoaded (file : List Byte) (hs : List CoffSecHeader)
    (mem mem' : Memory 32) : Prop where
  content : ∀ h ∈ hs, IsPut h → ∀ i, (hi : i < (h.content file).length) →
    mem' (h.physAddr + BitVec.ofNat 32 i) = (h.content file)[i]
  filled : ∀ x, InRange 0x86000080 0xf80 x →
    (∀ h ∈ hs, IsPut h → ¬ InRange h.physAddr (h.content file).length x) →
      mem' x = 0xCC
  rest : ∀ x, ¬ InRange 0x86000080 0xf80 x →
    (∀ h ∈ hs, IsPut h → ¬ InRange h.physAddr (h.content file).length x) →
      mem' x = mem x

/-- The sections do not overlap and go, with raw data that the file has, into the
memory area of the core image. -/
structure FitsCore (file : List Byte) (hs : List CoffSecHeader) : Prop where
  inFile : ∀ h ∈ hs, InFile file h
  inArea : ∀ h ∈ hs, IsPut h → 0x86000000 ≤ h.physAddr.toNat ∧
    h.physAddr.toNat < 0x86400000 ∧
      h.physAddr.toNat + h.size.toNat ≤ 0x86400000
  apart : hs.Pairwise fun g h => IsPut g → IsPut h → Apart file g h

/-- Sections that have all been put, and do not overlap, stay. -/
theorem Puts.loaded {mem mem' : Memory 32} {err : Option Err}
    (h : Puts file hs mem err mem') (herr : err = none)
    (hapart : hs.Pairwise fun g h => IsPut g → IsPut h → Apart file g h) :
    (∀ h ∈ hs, IsPut h → ∀ i, (hi : i < (h.content file).length) →
      mem' (h.physAddr + BitVec.ofNat 32 i) = (h.content file)[i]) ∧
    ∀ x, (∀ h ∈ hs, IsPut h → ¬ InRange h.physAddr (h.content file).length x) →
      mem' x = mem x := by
  induction h with
  | nil => exact ⟨fun h hh => absurd hh List.not_mem_nil, fun _ _ => rfl⟩
  | skip hnot _ ih =>
      obtain ⟨hcontent, hrest⟩ := ih herr hapart.of_cons
      refine ⟨fun g hg hput i hi => ?_, fun x hx => ?_⟩
      · obtain rfl | hg := List.mem_cons.mp hg
        · exact absurd hput hnot
        · exact hcontent g hg hput i hi
      · exact hrest x fun g hg => hx g (List.mem_cons_of_mem _ hg)
  | @put h hs err mem mem' hput hin _ _ ih =>
      obtain ⟨hhead, htail⟩ := List.pairwise_cons.mp hapart
      obtain ⟨hcontent, hrest⟩ := ih herr htail
      refine ⟨fun g hg hputg i hi => ?_, fun x hx => ?_⟩
      · obtain rfl | hg := List.mem_cons.mp hg
        · -- later sections leave this one as it is
          rw [hrest _ fun g' hg' hput' =>
            hhead g' hg' hput hput' _ (inRange_add_ofNat hi)]
          refine write_apply ?_ hi
          rw [length_content_of_put hput hin]
          exact Nat.le_of_lt g.size.isLt
        · exact hcontent g hg hputg i hi
      · rw [hrest x fun g hg => hx g (List.mem_cons_of_mem _ hg)]
        exact write_of_not_inRange (hx h List.mem_cons_self hput)
  | notInFile => exact absurd herr (Option.some_ne_none _)
  | notMapped => exact absurd herr (Option.some_ne_none _)

theorem fill_of_inRange {mem : Memory 32} {x : Coff.Word}
    (hx : InRange 0x86000080 0xf80 x) : fill mem x = 0xCC := by
  obtain ⟨i, hi, rfl⟩ := inRange_iff_exists.mp hx
  have hlen : i < (List.replicate 0xf80 (0xCC : Byte)).length := by
    rw [List.length_replicate]
    exact hi
  rw [fill, write_apply ?_ hlen, List.getElem_replicate]
  rw [List.length_replicate]
  decide

theorem fill_of_not_inRange {mem : Memory 32} {x : Coff.Word}
    (hx : ¬ InRange 0x86000080 0xf80 x) : fill mem x = mem x := by
  rw [fill, write_of_not_inRange]
  rw [List.length_replicate]
  exact hx

/-- Sections that have all been put, and do not overlap, are an image. -/
theorem Puts.imageLoaded {mem mem' : Memory 32}
    (h : Puts file hs (fill mem) none mem')
    (hapart : hs.Pairwise fun g h => IsPut g → IsPut h → Apart file g h) :
    ImageLoaded file hs mem mem' := by
  obtain ⟨hcontent, hrest⟩ := h.loaded rfl hapart
  refine ⟨hcontent, fun x hx hnot => ?_, fun x hx hnot => ?_⟩
  · rw [hrest x hnot]
    exact fill_of_inRange hx
  · rw [hrest x hnot]
    exact fill_of_not_inRange hx

/-- In the memory area of the image no section fails. -/
theorem FitsCore.err_eq_none {err : Option Err} {mem mem' : Memory 32}
    (hfits : FitsCore file hs) (h : Puts file hs mem err mem') : err = none := by
  have htail {h : CoffSecHeader} {hs : List CoffSecHeader}
      (hfits : FitsCore file (h :: hs)) : FitsCore file hs :=
    ⟨fun g hg => hfits.inFile g (List.mem_cons_of_mem h hg),
      fun g hg => hfits.inArea g (List.mem_cons_of_mem h hg),
      hfits.apart.of_cons⟩
  induction h with
  | nil => rfl
  | skip _ _ ih => exact ih (htail hfits)
  | put _ _ _ _ ih => exact ih (htail hfits)
  | notInFile _ hnot => exact absurd (hfits.inFile _ List.mem_cons_self) hnot
  | notMapped hput hnone =>
      obtain ⟨hle, hlt, -⟩ := hfits.inArea _ List.mem_cons_self hput
      have hwindow := (findWindow_image hle hlt).symm.trans hnone
      exact absurd hwindow (Option.some_ne_none _)

/-- The image is loaded. -/
theorem locReadSections_of_fitsCore {osalAlloc : Coff.Word → Bool} {c : CoffInfo}
    (k : Kernel) (hp : p.Ready) (hfile : r.file.length < 2 ^ 31)
    (hmax : 0 < c.maxRawDataSize)
    (halloc : osalAlloc c.maxRawDataSize = true)
    (hfits : FitsCore r.file c.secHeaders)
    (hbuf : ∀ h ∈ c.secHeaders, h.IsRaw → h.size ≤ c.maxRawDataSize) :
    ∃ p', locReadSections k osalAlloc c r p = some (none, p') ∧
      ImageLoaded r.file c.secHeaders p.mem p'.mem ∧
      p'.space.table = p.space.table ∧ p'.Ready := by
  obtain ⟨q, heq, hmem, htable, hready⟩ := locReadSections_eq k r hp hmax halloc
  obtain ⟨hsome, hnone⟩ :=
    locReadSectionsLoop_puts k c.maxRawDataSize c.secHeaders hready (Eq.refl r.file) hfile
  rw [hmem] at hsome
  rw [heq]
  cases hrun : locReadSectionsLoop k c.maxRawDataSize c.secHeaders r q with
  | none =>
      obtain ⟨h, hh, hput, hnot⟩ := hnone hrun
      obtain ⟨hle, hlt, hend⟩ := hfits.inArea h hh hput
      exact absurd ⟨(rangeOk_image hle hlt).mpr hend, hbuf h hh⟩ hnot
  | some o =>
      obtain ⟨err, p'⟩ := o
      obtain ⟨hputs, htable', hready'⟩ := hsome err p' hrun
      obtain rfl := hfits.err_eq_none hputs
      exact ⟨p', rfl, hputs.imageLoaded hfits.apart, htable'.trans htable,
        hready'⟩

end C64Tools.Loader
