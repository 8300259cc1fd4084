import C64Tools.Library.ByteMemory

/-!
# Reading a COFF2 file

The headers of an overlay image: the file header and the optional header, which
have to be exactly those of a C64+ image, the string table, and the section
headers.  The program is a 32-bit one, so that `fseek` takes offsets below
`2 ^ 31` and larger files are not opened.  Of each header only the fields are
kept that the loader looks at.
-/

namespace C64Tools.Coff

open ByteMemory

/-- `sU32`. -/
abbrev Word := BitVec 32

/-- The error codes of `coff_err.h` that loading an overlay may end with. -/
inductive CoffError where
  | genNoCodeOrData
  | genRawBufAlloc
  | fileNotFound
  | fileReadOutOfBounds
  | fileRead
  | fileSeek
  | fileHeaderVersion
  | fileHeaderFlags
  | fileHeaderOptSize
  | fileHeaderTargetId
  | optHeaderMagic
  | secHeaderAlloc
  | strTbl
  | strTblSeek
  | strTblReadSz
  | strTblAlloc
  | strTblReadChars
  deriving DecidableEq, Repr

/-! ## The file -/

/-- An open file: `coff_fh` and `coff_off`. -/
structure Reader where
  file : List Byte
  off : Word

/-- `coff_size`. -/
def Reader.size (r : Reader) : Word :=
  BitVec.ofNat 32 r.file.length

/-- `coff_open`. -/
def coffOpen (file : List Byte) : Except CoffError Reader :=
  if file.length < 2 ^ 31 then .ok ⟨file, 0⟩ else .error .fileNotFound

/-- `coff_read`. -/
def coffRead (r : Reader) (numBytes : Word) :
    Except CoffError (List Byte × Reader) :=
  if r.off + numBytes ≤ r.size then
    let bs := (r.file.drop r.off.toNat).take numBytes.toNat
    if bs.length = numBytes.toNat then
      .ok (bs, { r with off := r.off + numBytes })
    else .error .fileRead
  else .error .fileReadOutOfBounds

/-- `coff_seek_abs`. -/
def coffSeekAbs (r : Reader) (off : Word) : Except CoffError Reader :=
  if off.toNat < 2 ^ 31 then .ok { r with off := off } else .error .fileSeek

/-! ## Headers -/

def coffFileHeaderSize : Word := 22
def coffOptHeaderSize : Word := 28
def coffSecHeaderSize : Word := 48
def coffSymEntrySize : Word := 18

def coffFileHeaderVersion : BitVec 16 := 0x00C2
def coffOptHeaderMagic : BitVec 16 := 0x0108
def coffFileHeaderTargetIdTms320C6000 : BitVec 16 := 0x0099

/-- The flags of `coff_file_header_parse`: `RELFLG`, `EXEC`, `UNKWN1`,
`UNKWN2`, `LITTLE` and `SYMMERGE`. -/
def coffFileHeaderFlags : BitVec 16 :=
  0x0001 ||| 0x0002 ||| 0x0020 ||| 0x0040 ||| 0x0100 ||| 0x1000

def coffSecHeaderFlagText : Word := 0x20
def coffSecHeaderFlagData : Word := 0x40
def coffSecHeaderFlagBss : Word := 0x80

/-- `coff_file_header_t`. -/
structure CoffFileHeader where
  version : BitVec 16
  numSectionHeaders : BitVec 16
  symTabOffset : Word
  numSymTabEntries : Word
  numOptHeaderBytes : BitVec 16
  flags : BitVec 16
  targetId : BitVec 16

def CoffFileHeader.ofBytes (bs : List Byte) : CoffFileHeader where
  version := word16 bs 0
  numSectionHeaders := word16 bs 2
  symTabOffset := word32 bs 8
  numSymTabEntries := word32 bs 12
  numOptHeaderBytes := word16 bs 16
  flags := word16 bs 18
  targetId := word16 bs 20

/-- `coff_sec_header_t`. -/
structure CoffSecHeader where
  name : List Byte
  physAddr : Word
  size : Word
  rawDataOff : Word
  flags : Word
  deriving DecidableEq, Repr

def CoffSecHeader.ofBytes (bs : List Byte) : CoffSecHeader where
  name := bs.take 8
  physAddr := word32 bs 8
  size := word32 bs 16
  rawDataOff := word32 bs 20
  flags := word32 bs 40

/-- The name does not stand in the string table. -/
def CoffSecHeader.ShortName (h : CoffSecHeader) : Prop :=
  word32 h.name 0 ≠ 0

instance (h : CoffSecHeader) : Decidable h.ShortName :=
  inferInstanceAs (Decidable (_ ≠ _))

/-- The characters of `.cinit`. -/
def cinitChars : List Byte :=
  [0x2E, 0x63, 0x69, 0x6E, 0x69, 0x74]

def CoffSecHeader.IsCinit (h : CoffSecHeader) : Prop :=
  h.name.take 6 = cinitChars

instance (h : CoffSecHeader) : Decidable h.IsCinit :=
  inferInstanceAs (Decidable (_ = _))

/-- What is known of the file: `coff_sec_headers`, `coff_cinit_addr`,
`coff_cinit_size` and `coff_max_raw_data_size`. -/
structure CoffInfo where
  secHeaders : List CoffSecHeader
  cinitAddr : Word
  cinitSize : Word
  maxRawDataSize : Word
  deriving DecidableEq, Repr

/-- `coff_init`. -/
def CoffInfo.init : CoffInfo := ⟨[], 0, 0, 0⟩

/-- What `coff_sec_header_parse` takes down of a section header. -/
def CoffInfo.addSecHeader (c : CoffInfo) (h : CoffSecHeader) : CoffInfo where
  secHeaders := c.secHeaders ++ [h]
  cinitAddr :=
    if h.ShortName ∧ c.cinitAddr = 0 ∧ h.IsCinit then h.physAddr
    else c.cinitAddr
  cinitSize :=
    if h.ShortName ∧ c.cinitAddr = 0 ∧ h.IsCinit then h.size
    else c.cinitSize
  maxRawDataSize :=
    if h.ShortName ∧ 0 < h.rawDataOff ∧ c.maxRawDataSize < h.size then h.size
    else c.maxRawDataSize

/-! ## Parsing -/

section

variable (osalAlloc : Word → Bool)

/-- `coff_file_header_parse`. -/
def coffFileHeaderParse (r : Reader) :
    Except CoffError (CoffFileHeader × Reader) := do
  let (bs, r) ← coffRead r coffFileHeaderSize
  let h := CoffFileHeader.ofBytes bs
  if h.version ≠ coffFileHeaderVersion then .error .fileHeaderVersion
  else if h.flags ≠ coffFileHeaderFlags then .error .fileHeaderFlags
  else if h.numOptHeaderBytes ≠ 28 then .error .fileHeaderOptSize
  else if h.targetId ≠ coffFileHeaderTargetIdTms320C6000 then
    .error .fileHeaderTargetId
  else if osalAlloc (coffSecHeaderSize * h.numSectionHeaders.setWidth 32) then
    .ok (h, r)
  else .error .secHeaderAlloc

/-- `coff_opt_header_parse`. -/
def coffOptHeaderParse (r : Reader) : Except CoffError Reader := do
  let (bs, r) ← coffRead r coffOptHeaderSize
  if word16 bs 0 = coffOptHeaderMagic then .ok r else .error .optHeaderMagic

/-- `coff_string_table_read`. -/
def coffStringTableRead (h : CoffFileHeader) (r : Reader) :
    Except CoffError Reader :=
  let strTblOff := h.symTabOffset + h.numSymTabEntries * coffSymEntrySize
  match coffSeekAbs r strTblOff with
  | .error _ => .error .strTblSeek
  | .ok r1 =>
      match coffRead r1 4 with
      | .error _ => .error .strTblReadSz
      | .ok (bs, r2) =>
          let size := word32 bs 0
          if 4 ≤ size ∧ strTblOff + size ≤ r.size then
            if osalAlloc (size - 4) then
              match coffRead r2 (size - 4) with
              | .error _ => .error .strTblReadChars
              | .ok (_, r3) => coffSeekAbs r3 r.off
            else .error .strTblAlloc
          else .error .strTbl

/-- `loc_open_and_read_basic_headers`. -/
def locOpenAndReadBasicHeaders (r : Reader) :
    Except CoffError (CoffFileHeader × Reader) := do
  let (h, r) ← coffFileHeaderParse osalAlloc r
  let r ← coffOptHeaderParse r
  let r ← coffStringTableRead osalAlloc h r
  return (h, r)

/-- `coff_sec_header_parse`. -/
def coffSecHeaderParse (c : CoffInfo) (r : Reader) :
    Except CoffError (CoffInfo × Reader) := do
  let (bs, r) ← coffRead r coffSecHeaderSize
  return (c.addSecHeader (CoffSecHeader.ofBytes bs), r)

/-- `loc_read_section_headers`, with the number of headers still to be read. -/
def locReadSectionHeaders : ℕ → CoffInfo → Reader →
    Except CoffError (CoffInfo × Reader)
  | 0, c, r => .ok (c, r)
  | n + 1, c, r => do
      let (c, r) ← coffSecHeaderParse c r
      locReadSectionHeaders n c r

/-- What `coff_load_overlay` does before it reads the sections. -/
def coffReadHeaders (file : List Byte) : Except CoffError (CoffInfo × Reader) := do
  let r ← coffOpen file
  let (h, r) ← locOpenAndReadBasicHeaders osalAlloc r
  locReadSectionHeaders h.numSectionHeaders.toNat CoffInfo.init r

end

/-! ## Writing -/

def bytes16 (x : BitVec 16) : List Byte :=
  [x.extractLsb' 0 8, x.extractLsb' 8 8]

/-- A section header whose other fields are zero. -/
def CoffSecHeader.bytes (h : CoffSecHeader) : List Byte :=
  h.name ++ bytes32 h.physAddr ++ bytes32 h.physAddr ++ bytes32 h.size ++
    bytes32 h.rawDataOff ++ List.replicate 16 0 ++ bytes32 h.flags ++
    List.replicate 4 0

/-- An image with the given section headers, raw data that begins right after
them, and an empty string table. -/
def imageBytes (hs : List CoffSecHeader) (raw : List Byte) : List Byte :=
  let symTabOffset := 50 + 48 * hs.length + raw.length
  bytes16 coffFileHeaderVersion ++ bytes16 (BitVec.ofNat 16 hs.length) ++
    List.replicate 4 0 ++ bytes32 (BitVec.ofNat 32 symTabOffset) ++
    bytes32 0 ++ bytes16 28 ++ bytes16 coffFileHeaderFlags ++
    bytes16 coffFileHeaderTargetIdTms320C6000 ++
    bytes16 coffOptHeaderMagic ++ List.replicate 26 0 ++
    hs.flatMap CoffSecHeader.bytes ++ raw ++ bytes32 4

end C64Tools.Coff
