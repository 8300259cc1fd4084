import C64Tools.Coff.Correctness

/-!
# The buffer for raw data

The image loader and the overlay loader read the raw data of one section after
the other into a buffer of `coff_max_raw_data_size` bytes.  This is the size of
the largest section with a short name that has raw data; the loaders make no
difference between short and long names.
-/

namespace C64Tools.Coff

open ByteMemory

/-! ## The image loader -/

/-- `dsp_config.reset_vector.phys_addr`. -/
def resetVectorPhysAddr : Word := 0x86000000

def dspResetVectorCodeSize : Word := 0x80
def dspResetVectorMinSize : Word := 0x1000

/-- Whether `dsp_memset` and `dsp_copy_to` can map the given addresses. -/
structure DspAccess where
  memset : Word → Word → Bool
  copyTo : Word → Word → Bool

/-- The union `err_t`. -/
inductive ImageError where
  | dsp
  | coff (e : CoffError)
  deriving DecidableEq, Repr

/-- One round of the loop over the sections in `c64_load`. -/
def imageReadSection (dsp : DspAccess) (h : CoffSecHeader) (r : Reader) :
    Except ImageError Reader :=
  if h.IsBss then
    if resetVectorPhysAddr ≤ h.physAddr then
      if dsp.memset h.physAddr h.size then .ok r else .error .dsp
    else .ok r
  else if h.IsRaw then
    match rawData r h with
    | .error e => .error (.coff e)
    | .ok (_, r) =>
        if dsp.copyTo h.physAddr h.size then .ok r else .error .dsp
  else .ok r

/-! ## What is read into the buffer -/

/-- The call of `coff_read` for the buffer that one round makes, in both
loaders: the offset of the raw data can be sought. -/
def roundReads (h : CoffSecHeader) (r : Reader) : List CoffSecHeader :=
  if h.IsRaw then
    match coffSeekAbs r h.rawDataOff with
    | .error _ => []
    | .ok _ => [h]
  else []

/-- The sections that a loop reads into the buffer, up to the first error. -/
def loopReads {σ ε : Type} (reader : σ → Reader)
    (round : CoffSecHeader → σ → Except ε σ) :
    List CoffSecHeader → σ → List CoffSecHeader
  | [], _ => []
  | h :: hs, s =>
      roundReads h (reader s) ++
        match round h s with
        | .error _ => []
        | .ok s => loopReads reader round hs s

section

variable (osalAlloc : Word → Bool)

/-- `loc_read_sections` of `c64_load`, which first clears what comes after the
reset vector. -/
def imageReads (dsp : DspAccess) (c : CoffInfo) (r : Reader) :
    List CoffSecHeader :=
  if 0 < c.maxRawDataSize ∧ osalAlloc c.maxRawDataSize ∧
      dsp.memset (resetVectorPhysAddr + dspResetVectorCodeSize)
        (dspResetVectorMinSize - dspResetVectorCodeSize) then
    loopReads id (imageReadSection dsp) c.secHeaders r
  else []

/-- `loc_read_sections` of `coff_load_overlay`. -/
def overlayReads (w : Window) (c : CoffInfo) (r : Reader) (d : Dsp) :
    List CoffSecHeader :=
  if 0 < c.maxRawDataSize ∧ osalAlloc c.maxRawDataSize then
    loopReads Prod.fst (fun h s => locReadSection w h s.1 s.2) c.secHeaders (r, d)
  else []

end

/-- What is known after some section headers have been parsed. -/
def CoffInfo.ofHeaders (hs : List CoffSecHeader) : CoffInfo :=
  hs.foldl CoffInfo.addSecHeader CoffInfo.init

/-- The section is no larger than one with a short name and raw data. -/
def CoffSecHeader.Covered (hs : List CoffSecHeader) (h : CoffSecHeader) : Prop :=
  h.size = 0 ∨ ∃ g ∈ hs, g.ShortName ∧ 0 < g.rawDataOff ∧ h.size ≤ g.size

variable {c c' : CoffInfo} {r r' : Reader} {h : CoffSecHeader}
  {hs : List CoffSecHeader}

theorem locReadSectionHeaders_eq_foldl {n : ℕ}
    (h : locReadSectionHeaders n c r = .ok (c', r')) :
    ∃ hs : List CoffSecHeader,
      hs.length = n ∧ c' = hs.foldl CoffInfo.addSecHeader c := by
  induction n generalizing c r with
  | zero =>
      obtain ⟨rfl, -⟩ := Prod.mk.inj (Except.ok.inj h)
      exact ⟨[], rfl, rfl⟩
  | succ n ih =>
      cases hread : coffRead r coffSecHeaderSize with
      | error e =>
          rw [locReadSectionHeaders, coffSecHeaderParse, hread] at h
          cases h
      | ok p =>
          have hrest : locReadSectionHeaders n
              (c.addSecHeader (CoffSecHeader.ofBytes p.1)) p.2 = .ok (c', r') := by
            rw [locReadSectionHeaders, coffSecHeaderParse, hread] at h
            exact h
          obtain ⟨hs, hlen, hc⟩ := ih hrest
          exact ⟨CoffSecHeader.ofBytes p.1 :: hs, by rw [List.length_cons, hlen],
            hc⟩

theorem mem_roundReads {g : CoffSecHeader} (hg : g ∈ roundReads h r) :
    g = h ∧ h.IsRaw := by
  unfold roundReads at hg
  split_ifs at hg with hraw
  · split at hg
    · cases hg
    · exact ⟨List.mem_singleton.mp hg, hraw⟩
  · cases hg

theorem mem_loopReads {σ ε : Type} {reader : σ → Reader}
    {round : CoffSecHeader → σ → Except ε σ} {s : σ}
    (hh : h ∈ loopReads reader round hs s) : h ∈ hs ∧ h.IsRaw := by
  induction hs generalizing s with
  | nil => cases hh
  | cons g hs ih =>
      obtain hh | hh := List.mem_append.mp hh
      · obtain ⟨rfl, hraw⟩ := mem_roundReads hh
        exact ⟨List.mem_cons_self, hraw⟩
      · split at hh
        · cases hh
        · obtain ⟨hmem, hraw⟩ := ih hh
          exact ⟨List.mem_cons_of_mem g hmem, hraw⟩

theorem mem_imageReads {osalAlloc : Word → Bool} {dsp : DspAccess}
    (hh : h ∈ imageReads osalAlloc dsp c r) : h ∈ c.secHeaders ∧ h.IsRaw := by
  unfold imageReads at hh
  split_ifs at hh
  · exact mem_loopReads hh
  · cases hh

theorem mem_overlayReads {osalAlloc : Word → Bool} {w : Window} {d : Dsp}
    (hh : h ∈ overlayReads osalAlloc w c r d) : h ∈ c.secHeaders ∧ h.IsRaw := by
  unfold overlayReads at hh
  split_ifs at hh
  · exact mem_loopReads hh
  · cases hh

/-! ## The size of the buffer -/

/-- The size of the buffer is zero or the size of one of the sections that it
is made for. -/
theorem maxRawDataSize_foldl (hs : List CoffSecHeader) (c : CoffInfo) :
    (hs.foldl CoffInfo.addSecHeader c).maxRawDataSize = c.maxRawDataSize ∨
      ∃ g ∈ hs, g.ShortName ∧ 0 < g.rawDataOff ∧
        (hs.foldl CoffInfo.addSecHeader c).maxRawDataSize = g.size := by
  induction hs generalizing c with
  | nil => exact Or.inl rfl
  | cons h hs ih =>
      obtain heq | ⟨g, hg, hshort, hraw, heq⟩ := ih (c.addSecHeader h)
      · rw [List.foldl_cons, heq]
        by_cases hlarger :
            h.ShortName ∧ 0 < h.rawDataOff ∧ c.maxRawDataSize < h.size
        · exact Or.inr ⟨h, List.mem_cons_self, hlarger.1, hlarger.2.1,
            if_pos hlarger⟩
        · exact Or.inl (if_neg hlarger)
      · exact Or.inr ⟨g, List.mem_cons_of_mem h hg, hshort, hraw, heq⟩

theorem size_le_iff_covered :
    h.size ≤ (CoffInfo.ofHeaders hs).maxRawDataSize ↔ h.Covered hs := by
  constructor
  · intro hle
    obtain heq | ⟨g, hg, hshort, hraw, heq⟩ :=
      maxRawDataSize_foldl hs CoffInfo.init
    · rw [CoffInfo.ofHeaders, heq] at hle
      exact Or.inl (BitVec.le_zero_iff.mp hle)
    · exact Or.inr ⟨g, hg, hshort, hraw, heq ▸ hle⟩
  · rintro (hzero | ⟨g, hg, hshort, hraw, hle⟩)
    · rw [hzero]
      exact BitVec.not_lt.mp BitVec.not_lt_zero
    · exact BitVec.le_trans hle (size_le_maxRawDataSize hg hshort hraw)

/-- For every list of section headers, the sections that either loader reads
into the buffer all fit into it if and only if those with a long name are no
larger than the largest one with a short name. -/
theorem rawBuf_bound_iff (osalAlloc : Word → Bool) (hs : List CoffSecHeader)
    (dsp : DspAccess) (w : Window) (r : Reader) (d : Dsp) :
    (∀ h ∈ imageReads osalAlloc dsp (CoffInfo.ofHeaders hs) r ++
        overlayReads osalAlloc w (CoffInfo.ofHeaders hs) r d,
      h.size ≤ (CoffInfo.ofHeaders hs).maxRawDataSize) ↔
    ∀ h ∈ imageReads osalAlloc dsp (CoffInfo.ofHeaders hs) r ++
        overlayReads osalAlloc w (CoffInfo.ofHeaders hs) r d,
      ¬ h.ShortName → h.Covered hs := by
  constructor
  · intro hle h hh _
    exact size_le_iff_covered.mp (hle h hh)
  · intro hcovered h hh
    by_cases hshort : h.ShortName
    · have hread : h ∈ hs ∧ h.IsRaw := by
        have hsec : (CoffInfo.ofHeaders hs).secHeaders = hs := secHeaders_foldl
        obtain hh | hh := List.mem_append.mp hh
        · simpa only [hsec] using mem_imageReads hh
        · simpa only [hsec] using mem_overlayReads hh
      exact size_le_maxRawDataSize hread.1 hshort hread.2.2.2.2
    · exact size_le_iff_covered.mpr (hcovered h hh hshort)

/-- A section of 4 bytes with a short name, and one of 8 bytes whose name is
in the string table. -/
def longNameHeaders : List CoffSecHeader :=
  [⟨[0x2E, 0x74, 0x65, 0x78, 0x74, 0, 0, 0], 0x87000000, 4, 146, 0x20⟩,
    ⟨[0, 0, 0, 0, 4, 0, 0, 0], 0x87000004, 8, 150, 0x20⟩]

def longNameImage : List Byte :=
  imageBytes longNameHeaders (List.replicate 12 0xAA)

theorem longNameImage_isImage : IsImage longNameImage longNameHeaders := by
  decide +kernel

/-- Both loaders read 8 bytes into a buffer of 4. -/
theorem longName_exceeds_rawBuf :
    ∃ (r : Reader) (h : CoffSecHeader),
      coffReadHeaders (fun _ => true) longNameImage =
        .ok (CoffInfo.ofHeaders longNameHeaders, r) ∧
      h ∈ imageReads (fun _ => true) ⟨fun _ _ => true, fun _ _ => true⟩
        (CoffInfo.ofHeaders longNameHeaders) r ∧
      h ∈ overlayReads (fun _ => true) smallWindow
        (CoffInfo.ofHeaders longNameHeaders) r ⟨fun _ => 0, []⟩ ∧
      ¬ h.size ≤ (CoffInfo.ofHeaders longNameHeaders).maxRawDataSize := by
  refine ⟨_, ⟨[0, 0, 0, 0, 4, 0, 0, 0], 0x87000004, 8, 150, 0x20⟩,
    longNameImage_isImage.readHeaders fun _ => rfl, ?_, ?_, ?_⟩
  · decide +kernel
  · decide +kernel
  · decide

end C64Tools.Coff
