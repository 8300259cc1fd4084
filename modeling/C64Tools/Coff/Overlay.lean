import C64Tools.Coff.Format

/-!
# Loading an overlay

`coff_load_overlay` copies the sections of an image to the memory area of an
overlay section, which is given by its virtual and its physical address and by
its size.  Then it applies the records of the `.cinit` section, which it reads
from the memory that it has loaded.

The buffer for raw data has the size of the largest section with a short name;
the content of the heap, which a larger section with a long name overwrites, is
left out.  The loop over the `.cinit` records need not end, and is followed for
a number of rounds.
-/

namespace C64Tools.Coff

open ByteMemory

/-- The arguments `_virtAddr`, `_physAddr` and `_size`. -/
structure Window where
  virtAddr : Word
  physAddr : Word
  size : Word
  deriving DecidableEq, Repr

/-- `P2V`. -/
def Window.p2v (w : Window) (a : Word) : Word :=
  (a - w.physAddr) + w.virtAddr

/-- "restrict access to overlay area". -/
def Window.HasStart (w : Window) (a : Word) : Prop :=
  w.physAddr ≤ a ∧ a < w.physAddr + w.size

instance (w : Window) (a : Word) : Decidable (w.HasStart a) :=
  inferInstanceAs (Decidable (_ ∧ _))

/-- The memory that the process sees, and where bytes were written: addresses
and numbers of bytes, in order. -/
structure Dsp where
  mem : Memory 32
  written : List (Word × ℕ)

def Dsp.memset (d : Dsp) (dst : Word) (val : Byte) (size : Word) : Dsp where
  mem := write d.mem dst (List.replicate size.toNat val)
  written := d.written ++ [(dst, size.toNat)]

def Dsp.memcpy (d : Dsp) (dst : Word) (bs : List Byte) : Dsp where
  mem := write d.mem dst bs
  written := d.written ++ [(dst, bs.length)]

/-! ## Sections -/

/-- A BSS section that is cleared. -/
def CoffSecHeader.IsBss (h : CoffSecHeader) : Prop :=
  h.physAddr ≠ 0 ∧ h.flags &&& coffSecHeaderFlagBss ≠ 0 ∧ 0 < h.size

instance (h : CoffSecHeader) : Decidable h.IsBss :=
  inferInstanceAs (Decidable (_ ∧ _))

/-- A TEXT or DATA section whose raw data is read. -/
def CoffSecHeader.IsRaw (h : CoffSecHeader) : Prop :=
  h.physAddr ≠ 0 ∧ h.flags &&& coffSecHeaderFlagBss = 0 ∧
    h.flags &&& (coffSecHeaderFlagText ||| coffSecHeaderFlagData) ≠ 0 ∧
    0 < h.rawDataOff

instance (h : CoffSecHeader) : Decidable h.IsRaw :=
  inferInstanceAs (Decidable (_ ∧ _))

/-- The raw data of a section. -/
def rawData (r : Reader) (h : CoffSecHeader) :
    Except CoffError (List Byte × Reader) := do
  let r ← coffSeekAbs r h.rawDataOff
  coffRead r h.size

/-- One round of the loop over the sections. -/
def locReadSection (w : Window) (h : CoffSecHeader) (r : Reader) (d : Dsp) :
    Except CoffError (Reader × Dsp) :=
  if h.IsBss then
    if w.HasStart h.physAddr then
      .ok (r, d.memset (w.p2v h.physAddr) 0 h.size)
    else .ok (r, d)
  else if h.IsRaw then do
    let (bs, r) ← rawData r h
    if w.HasStart h.physAddr then .ok (r, d.memcpy (w.p2v h.physAddr) bs)
    else .ok (r, d)
  else .ok (r, d)

/-- The loop over the sections ends at the first error. -/
def locReadSectionsLoop (w : Window) :
    List CoffSecHeader → Reader → Dsp → Dsp × Option CoffError
  | [], _, d => (d, none)
  | h :: hs, r, d =>
      match locReadSection w h r d with
      | .error e => (d, some e)
      | .ok (r, d) => locReadSectionsLoop w hs r d

/-! ## Static variables -/

/-- Where the loop over the `.cinit` records is. -/
structure Cinit where
  off : Word
  dsp : Dsp

section

variable (c : CoffInfo) (w : Window)

/-- `cinit.u32[off >> 2]`. -/
def Cinit.u32 (s : Cinit) (off : Word) : Word :=
  readWord32 s.dsp.mem (w.p2v c.cinitAddr + (off >>> 2) <<< 2)

/-- `numBytes`. -/
def Cinit.numBytes (s : Cinit) : Word :=
  s.u32 c w s.off

/-- `dstPhys`. -/
def Cinit.dstPhys (s : Cinit) : Word :=
  s.u32 c w (s.off + 4)

/-- One record is applied, byte by byte. -/
def Cinit.apply (s : Cinit) : Cinit where
  off := ((s.off + 8 + s.numBytes c w + 7) >>> 3) <<< 3
  dsp :=
    { mem := copy s.dsp.mem (w.p2v c.cinitAddr + (s.off + 8))
        (w.p2v (s.dstPhys c w)) (s.numBytes c w).toNat
      written := s.dsp.written ++
        [(w.p2v (s.dstPhys c w), (s.numBytes c w).toNat)] }

/-- One round of the loop over the records. -/
def Cinit.step (s : Cinit) : Cinit :=
  if s.off < c.cinitSize then s.apply c w else s

end

/-- How loading an overlay ends, if it does. -/
structure Load where
  err : Option CoffError
  dsp : Dsp
  finished : Bool

/-- `loc_read_sections`, with `n` rounds of the loop over the `.cinit`
records.  These are applied also after an error. -/
def locReadSections (n : ℕ) (osalAlloc : Word → Bool) (w : Window) (c : CoffInfo)
    (r : Reader) (d : Dsp) : Load :=
  if 0 < c.maxRawDataSize then
    if osalAlloc c.maxRawDataSize then
      let loaded := locReadSectionsLoop w c.secHeaders r d
      if c.cinitAddr ≠ 0 then
        let s := (Cinit.step c w)^[n] ⟨0, loaded.1⟩
        ⟨loaded.2, s.dsp, ¬ s.off < c.cinitSize⟩
      else ⟨loaded.2, loaded.1, true⟩
    else ⟨some .genRawBufAlloc, d, true⟩
  else ⟨some .genNoCodeOrData, d, true⟩

/-- `coff_load_overlay`. -/
def coffLoadOverlay (n : ℕ) (osalAlloc : Word → Bool) (file : List Byte)
    (w : Window) (d : Dsp) : Load :=
  match coffReadHeaders osalAlloc file with
  | .error e => ⟨some e, d, true⟩
  | .ok (c, r) => locReadSections n osalAlloc w c r d

end C64Tools.Coff
