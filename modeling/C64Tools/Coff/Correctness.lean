import C64Tools.Coff.Safety
import C64Tools.Kmod.Dev.Model
import Mathlib.Tactic.Abel
import Mathlib.Tactic.MkIffOfInductiveProp

/-!
# Loading a well-formed image

When the image is well formed, its sections fit into the window and do not
overlap, and the records of its `.cinit` section stay in the window and off the
table, the loader leaves exactly the sections and then the effect of the records
in the memory.
-/

namespace C64Tools.Coff

open ByteMemory
open Kmod (Section overlaySections)

/-! ## Images -/

/-- The loader puts something into the memory for this section. -/
def CoffSecHeader.Loadable (h : CoffSecHeader) : Prop :=
  h.IsBss ∨ h.IsRaw

instance (h : CoffSecHeader) : Decidable h.Loadable :=
  inferInstanceAs (Decidable (_ ∨ _))

/-- What a section consists of: zeros, or its raw data. -/
def CoffSecHeader.content (file : List Byte) (h : CoffSecHeader) : List Byte :=
  if h.IsBss then List.replicate h.size.toNat 0
  else if h.IsRaw then (file.drop h.rawDataOff.toNat).take h.size.toNat
  else []

/-- A record of the `.cinit` section. -/
structure CinitRecord where
  dst : Word
  bytes : List Byte
  deriving DecidableEq, Repr

/-- A table of records: each one has its length, its destination, and its bytes
padded to a multiple of 8. -/
inductive CinitTable : List Byte → List CinitRecord → Prop
  | nil : CinitTable [] []
  | cons {rec : CinitRecord} {pad rest : List Byte} {recs : List CinitRecord} :
      rec.bytes.length < 2 ^ 32 → pad.length < 8 →
      (rec.bytes.length + pad.length) % 8 = 0 → CinitTable rest recs →
      CinitTable (bytes32 (BitVec.ofNat 32 rec.bytes.length) ++
        (bytes32 rec.dst ++ (rec.bytes ++ (pad ++ rest)))) (rec :: recs)

/-- Physical addresses of the window. -/
def Window.Encloses (w : Window) (a : Word) (n : ℕ) : Prop :=
  w.physAddr.toNat ≤ a.toNat ∧
    a.toNat + n ≤ w.physAddr.toNat + w.size.toNat

instance (w : Window) (a : Word) (n : ℕ) : Decidable (w.Encloses a n) :=
  inferInstanceAs (Decidable (_ ∧ _))

/-- The offset of the string table. -/
def CoffFileHeader.strTblOff (h : CoffFileHeader) : ℕ :=
  h.symTabOffset.toNat + 18 * h.numSymTabEntries.toNat

/-- The size of the string table, which stands at its beginning. -/
def strTblSize (file : List Byte) : ℕ :=
  (word32 (file.drop (CoffFileHeader.ofBytes file).strTblOff) 0).toNat

/-- A file that the parsers accept, with these section headers. -/
@[mk_iff]
structure IsImage (file : List Byte) (hs : List CoffSecHeader) : Prop where
  length : file.length < 2 ^ 31
  version : (CoffFileHeader.ofBytes file).version = coffFileHeaderVersion
  flags : (CoffFileHeader.ofBytes file).flags = coffFileHeaderFlags
  numOptHeaderBytes : (CoffFileHeader.ofBytes file).numOptHeaderBytes = 28
  targetId : (CoffFileHeader.ofBytes file).targetId =
    coffFileHeaderTargetIdTms320C6000
  magic : word16 file 22 = coffOptHeaderMagic
  strTbl_size : 4 ≤ strTblSize file
  strTbl_le : (CoffFileHeader.ofBytes file).strTblOff + strTblSize file ≤
    file.length
  numSectionHeaders :
    (CoffFileHeader.ofBytes file).numSectionHeaders.toNat = hs.length
  headers_le : 50 + 48 * hs.length ≤ file.length
  headers : ∀ i, (hi : i < hs.length) →
    hs[i] = CoffSecHeader.ofBytes (file.drop (50 + 48 * i))

instance (file : List Byte) (hs : List CoffSecHeader) :
    Decidable (IsImage file hs) :=
  decidable_of_iff' _ (isImage_iff file hs)

variable {file bs : List Byte} {hs : List CoffSecHeader} {r : Reader}

/-! ## Reading the headers -/

theorem byteAt_take {n i : ℕ} (hi : i < n) :
    byteAt (bs.take n) i = byteAt bs i := by
  simp [byteAt, hi]

theorem byteAt_drop (n i : ℕ) : byteAt (bs.drop n) i = byteAt bs (n + i) := by
  simp [byteAt]

theorem word16_take {n i : ℕ} (hi : i + 1 < n) :
    word16 (bs.take n) i = word16 bs i := by
  rw [word16, word16, byteAt_take hi, byteAt_take (by omega)]

theorem word32_take {n i : ℕ} (hi : i + 3 < n) :
    word32 (bs.take n) i = word32 bs i := by
  rw [word32, word32, byteAt_take hi, byteAt_take (by omega),
    byteAt_take (by omega), byteAt_take (by omega)]

theorem word16_drop (n i : ℕ) : word16 (bs.drop n) i = word16 bs (n + i) := by
  rw [word16, word16, byteAt_drop, byteAt_drop, Nat.add_assoc]

/-- What is read when it is in the file. -/
theorem coffRead_of_le {o n : ℕ} (hfile : file.length < 2 ^ 31)
    (hle : o + n ≤ file.length) :
    coffRead ⟨file, BitVec.ofNat 32 o⟩ (BitVec.ofNat 32 n) =
      .ok ((file.drop o).take n, ⟨file, BitVec.ofNat 32 (o + n)⟩) := by
  have ho : o % 2 ^ 32 = o := Nat.mod_eq_of_lt (by omega)
  have hn : n % 2 ^ 32 = n := Nat.mod_eq_of_lt (by omega)
  unfold coffRead Reader.size
  dsimp only
  rw [if_pos, BitVec.toNat_ofNat, BitVec.toNat_ofNat, ho, hn, if_pos]
  · rw [BitVec.ofNat_add]
  · simp
    omega
  · rw [BitVec.le_def, ← BitVec.ofNat_add, BitVec.toNat_ofNat,
      BitVec.toNat_ofNat]
    omega

theorem coffFileHeader_ofBytes_take {n : ℕ} (hn : 22 ≤ n) :
    CoffFileHeader.ofBytes (bs.take n) = CoffFileHeader.ofBytes bs := by
  unfold CoffFileHeader.ofBytes
  rw [word16_take (by omega), word16_take (by omega), word32_take (by omega),
    word32_take (by omega), word16_take (by omega), word16_take (by omega),
    word16_take (by omega)]

theorem coffSecHeader_ofBytes_take {n : ℕ} (hn : 48 ≤ n) :
    CoffSecHeader.ofBytes (bs.take n) = CoffSecHeader.ofBytes bs := by
  unfold CoffSecHeader.ofBytes
  rw [List.take_take, Nat.min_eq_left (by omega), word32_take (by omega),
    word32_take (by omega), word32_take (by omega), word32_take (by omega)]

theorem coffSecHeaders_read {o : ℕ} (c : CoffInfo)
    (hfile : file.length < 2 ^ 31)
    (hle : o + 48 * hs.length ≤ file.length)
    (hheaders : ∀ i, (hi : i < hs.length) →
      hs[i] = CoffSecHeader.ofBytes (file.drop (o + 48 * i))) :
    locReadSectionHeaders hs.length c ⟨file, BitVec.ofNat 32 o⟩ =
      .ok (hs.foldl CoffInfo.addSecHeader c,
        ⟨file, BitVec.ofNat 32 (o + 48 * hs.length)⟩) := by
  induction hs generalizing c o with
  | nil => rfl
  | cons h hs ih =>
      rw [List.length_cons] at hle
      have hfirst : h = CoffSecHeader.ofBytes (file.drop o) :=
        hheaders 0 (Nat.succ_pos _)
      have hread : coffSecHeaderParse c ⟨file, BitVec.ofNat 32 o⟩ =
          .ok (c.addSecHeader h, ⟨file, BitVec.ofNat 32 (o + 48)⟩) := by
        have hread := coffRead_of_le (n := 48) hfile (o := o) (by omega)
        unfold coffSecHeaderParse
        rw [show coffSecHeaderSize = BitVec.ofNat 32 48 from rfl, hread, hfirst]
        show Except.ok (c.addSecHeader (CoffSecHeader.ofBytes _), _) = _
        rw [coffSecHeader_ofBytes_take (Nat.le_refl 48)]
      have hrest := ih (c.addSecHeader h) (o := o + 48) (by omega)
        fun i hi => by
          have hnext := hheaders (i + 1) (Nat.succ_lt_succ hi)
          rw [show o + 48 + 48 * i = o + 48 * (i + 1) by omega]
          exact hnext
      rw [List.length_cons, locReadSectionHeaders, hread]
      show locReadSectionHeaders hs.length (c.addSecHeader h) _ = _
      rw [hrest, List.foldl_cons, Nat.add_assoc, Nat.add_comm 48, Nat.mul_succ]

theorem coffSeekAbs_of_lt {off : Word} {n : ℕ} (hn : n < 2 ^ 31) :
    coffSeekAbs ⟨file, off⟩ (BitVec.ofNat 32 n) =
      .ok ⟨file, BitVec.ofNat 32 n⟩ := by
  refine if_pos ?_
  rw [BitVec.toNat_ofNat]
  omega

/-- After the string table, the reader is back where it was. -/
theorem IsImage.strTbl_read (h : IsImage file hs) {osalAlloc : Word → Bool}
    (halloc : ∀ n, osalAlloc n = true) {o : ℕ} (ho : o < 2 ^ 31) :
    coffStringTableRead osalAlloc (CoffFileHeader.ofBytes file)
        ⟨file, BitVec.ofNat 32 o⟩ =
      .ok ⟨file, BitVec.ofNat 32 o⟩ := by
  have hsize := h.strTbl_size
  have hend := h.strTbl_le
  have hfile := h.length
  have hstart : (CoffFileHeader.ofBytes file).symTabOffset +
      (CoffFileHeader.ofBytes file).numSymTabEntries * coffSymEntrySize =
        BitVec.ofNat 32 (CoffFileHeader.ofBytes file).strTblOff := by
    apply BitVec.eq_of_toNat_eq
    rw [BitVec.toNat_add, BitVec.toNat_mul, BitVec.toNat_ofNat,
      show coffSymEntrySize.toNat = 18 from rfl]
    unfold CoffFileHeader.strTblOff
    omega
  unfold strTblSize at hsize hend
  generalize (CoffFileHeader.ofBytes file).strTblOff = start at *
  generalize hword : word32 (file.drop start) 0 = size at *
  have hreadSize : coffRead ⟨file, BitVec.ofNat 32 start⟩ 4 =
      .ok ((file.drop start).take 4, ⟨file, BitVec.ofNat 32 (start + 4)⟩) :=
    coffRead_of_le (n := 4) hfile (by omega)
  have hwordTake : word32 ((file.drop start).take 4) 0 = size := by
    rw [word32_take (by omega), hword]
  have hfits : 4 ≤ size ∧ BitVec.ofNat 32 start + size ≤
      Reader.size ⟨file, BitVec.ofNat 32 o⟩ := by
    rw [Reader.size, BitVec.le_def, BitVec.le_def, BitVec.toNat_add,
      BitVec.toNat_ofNat, BitVec.toNat_ofNat]
    dsimp only
    refine ⟨hsize, ?_⟩
    omega
  have hchars : size - 4 = BitVec.ofNat 32 (size.toNat - 4) := by
    apply BitVec.eq_of_toNat_eq
    rw [BitVec.toNat_sub, BitVec.toNat_ofNat, show (4 : Word).toNat = 4 from rfl]
    omega
  have hreadChars := coffRead_of_le (n := size.toNat - 4) hfile
    (o := start + 4) (by omega)
  unfold coffStringTableRead
  simp only [hstart, coffSeekAbs_of_lt (show start < 2 ^ 31 by omega),
    hreadSize, hwordTake]
  rw [if_pos hfits, if_pos (halloc _)]
  simp only [hchars, hreadChars]
  exact coffSeekAbs_of_lt ho

theorem IsImage.readHeaders (h : IsImage file hs) {osalAlloc : Word → Bool}
    (halloc : ∀ n, osalAlloc n = true) :
    coffReadHeaders osalAlloc file =
      .ok (hs.foldl CoffInfo.addSecHeader CoffInfo.init,
        ⟨file, BitVec.ofNat 32 (50 + 48 * hs.length)⟩) := by
  have hle := h.headers_le
  have hopen : coffOpen file = .ok ⟨file, BitVec.ofNat 32 0⟩ :=
    if_pos h.length
  have hfileHeader : coffFileHeaderParse osalAlloc ⟨file, BitVec.ofNat 32 0⟩ =
      .ok (CoffFileHeader.ofBytes file, ⟨file, BitVec.ofNat 32 22⟩) := by
    have hread := coffRead_of_le (n := 22) h.length (o := 0) (by omega)
    unfold coffFileHeaderParse
    rw [show coffFileHeaderSize = BitVec.ofNat 32 22 from rfl, hread]
    simp only [bind, Except.bind, List.drop_zero,
      coffFileHeader_ofBytes_take (Nat.le_refl 22), h.version, h.flags,
      h.numOptHeaderBytes, h.targetId, ne_eq, not_true_eq_false, if_false,
      halloc, if_true, Nat.zero_add]
  have hoptHeader : coffOptHeaderParse ⟨file, BitVec.ofNat 32 22⟩ =
      .ok ⟨file, BitVec.ofNat 32 50⟩ := by
    have hread := coffRead_of_le (n := 28) h.length (o := 22) (by omega)
    have hmagic : word16 ((file.drop 22).take 28) 0 = coffOptHeaderMagic := by
      rw [word16_take (by omega), word16_drop]
      exact h.magic
    unfold coffOptHeaderParse
    rw [show coffOptHeaderSize = BitVec.ofNat 32 28 from rfl, hread]
    exact if_pos hmagic
  have hstrTbl := h.strTbl_read halloc (o := 50) (by omega)
  have hsec := coffSecHeaders_read CoffInfo.init h.length hle h.headers
  unfold coffReadHeaders locOpenAndReadBasicHeaders
  simp only [bind, Except.bind, hopen, hfileHeader, hoptHeader, hstrTbl, pure,
    Except.pure, h.numSectionHeaders, hsec]

/-! ## What is taken down of the section headers -/

variable {c : CoffInfo} {h cinit : CoffSecHeader}

/-- The header is the one that `coff_cinit_addr` is taken from. -/
def CoffSecHeader.NamesCinit (h : CoffSecHeader) : Prop :=
  h.IsCinit ∧ h.physAddr ≠ 0

instance (h : CoffSecHeader) : Decidable h.NamesCinit :=
  inferInstanceAs (Decidable (_ ∧ _))

theorem secHeaders_foldl : (hs.foldl CoffInfo.addSecHeader c).secHeaders =
    c.secHeaders ++ hs := by
  induction hs generalizing c with
  | nil => simp
  | cons h hs ih => simp [ih, CoffInfo.addSecHeader]

theorem maxRawDataSize_le_addSecHeader :
    c.maxRawDataSize ≤ (c.addSecHeader h).maxRawDataSize := by
  unfold CoffInfo.addSecHeader
  dsimp only
  split_ifs with hlt
  · exact BitVec.le_of_lt hlt.2.2
  · exact BitVec.le_refl _

theorem maxRawDataSize_le_foldl :
    c.maxRawDataSize ≤ (hs.foldl CoffInfo.addSecHeader c).maxRawDataSize := by
  induction hs generalizing c with
  | nil => exact BitVec.le_refl _
  | cons h hs ih => exact BitVec.le_trans maxRawDataSize_le_addSecHeader ih

/-- The buffer is large enough for each section with a short name. -/
theorem size_le_maxRawDataSize (hmem : h ∈ hs) (hshort : h.ShortName)
    (hraw : 0 < h.rawDataOff) :
    h.size ≤ (hs.foldl CoffInfo.addSecHeader c).maxRawDataSize := by
  induction hs generalizing c with
  | nil => cases hmem
  | cons g hs ih =>
      obtain rfl | hmem := List.mem_cons.mp hmem
      · refine BitVec.le_trans ?_
          (maxRawDataSize_le_foldl (c := c.addSecHeader h))
        unfold CoffInfo.addSecHeader
        dsimp only
        split_ifs with hlt
        · exact BitVec.le_refl _
        · exact BitVec.not_lt.mp fun h' => hlt ⟨hshort, hraw, h'⟩
      · exact ih hmem

theorem cinit_addSecHeader_of_ne (hc : c.cinitAddr ≠ 0) :
    (c.addSecHeader h).cinitAddr = c.cinitAddr ∧
      (c.addSecHeader h).cinitSize = c.cinitSize :=
  ⟨if_neg fun h' => hc h'.2.1, if_neg fun h' => hc h'.2.1⟩

theorem cinit_foldl_of_ne (hc : c.cinitAddr ≠ 0) :
    (hs.foldl CoffInfo.addSecHeader c).cinitAddr = c.cinitAddr ∧
      (hs.foldl CoffInfo.addSecHeader c).cinitSize = c.cinitSize := by
  induction hs generalizing c with
  | nil => exact ⟨rfl, rfl⟩
  | cons h hs ih =>
      obtain ⟨haddr, hsize⟩ := cinit_addSecHeader_of_ne (h := h) hc
      rw [List.foldl_cons, ← haddr, ← hsize]
      exact ih (by rwa [haddr])

/-- The first header that names the `.cinit` section is the one that counts. -/
theorem cinit_foldl {pre post : List CoffSecHeader} (hc : c.cinitAddr = 0)
    (hpre : ∀ g ∈ pre, ¬ g.NamesCinit) (hshort : cinit.ShortName)
    (hcinit : cinit.NamesCinit) :
    ((pre ++ cinit :: post).foldl CoffInfo.addSecHeader c).cinitAddr =
        cinit.physAddr ∧
      ((pre ++ cinit :: post).foldl CoffInfo.addSecHeader c).cinitSize =
        cinit.size := by
  induction pre generalizing c with
  | nil =>
      have haddr : (c.addSecHeader cinit).cinitAddr = cinit.physAddr :=
        if_pos ⟨hshort, hc, hcinit.1⟩
      have hsize : (c.addSecHeader cinit).cinitSize = cinit.size :=
        if_pos ⟨hshort, hc, hcinit.1⟩
      rw [List.nil_append, List.foldl_cons, ← haddr, ← hsize]
      exact cinit_foldl_of_ne (by rw [haddr]; exact hcinit.2)
  | cons g pre ih =>
      rw [List.cons_append, List.foldl_cons]
      refine ih ?_ fun g' hg' => hpre g' (List.mem_cons_of_mem g hg')
      have hg := hpre g List.mem_cons_self
      unfold CoffInfo.addSecHeader
      dsimp only
      split_ifs with hnames
      · by_contra hne
        exact hg ⟨hnames.2.2, hne⟩
      · exact hc

/-! ## Loading the sections -/

variable {w : Window} {d : Dsp} {mem mem' : Memory 32} {a x : Word} {n : ℕ}

theorem inRange_p2v :
    InRange (w.p2v a) n x ↔ InRange a n (x - w.virtAddr + w.physAddr) := by
  have heq : x - w.virtAddr + w.physAddr - a = x - w.p2v a := by
    unfold Window.p2v
    abel
  rw [InRange, InRange, heq]

/-- The memory holds the sections, and nothing else in it is different. -/
structure Loaded (file : List Byte) (w : Window) (hs : List CoffSecHeader)
    (mem mem' : Memory 32) : Prop where
  content : ∀ h ∈ hs, ∀ i, (hi : i < (h.content file).length) →
    mem' (w.p2v h.physAddr + BitVec.ofNat 32 i) = (h.content file)[i]
  rest : ∀ x, (∀ h ∈ hs, ¬ InRange (w.p2v h.physAddr)
    (h.content file).length x) → mem' x = mem x

theorem length_content (h : CoffSecHeader) (file : List Byte) :
    (h.content file).length ≤ h.size.toNat := by
  unfold CoffSecHeader.content
  split_ifs
  · simp
  · simp
  · simp

/-- The section can be read, and the window has room for it. -/
structure CoffSecHeader.Loads (file : List Byte) (w : Window)
    (h : CoffSecHeader) : Prop where
  rawData : h.IsRaw → h.rawDataOff.toNat + h.size.toNat ≤ file.length
  encloses : h.Loadable → w.Encloses h.physAddr h.size.toNat

theorem Window.Encloses.hasStart (henc : w.Encloses a n) (hn : 0 < n)
    (hw : w.physAddr.toNat + w.size.toNat < 2 ^ 32) : w.HasStart a := by
  obtain ⟨hlow, hhigh⟩ := henc
  refine ⟨hlow, ?_⟩
  rw [BitVec.lt_def, BitVec.toNat_add]
  omega

theorem rawData_of_le (hfile : file.length < 2 ^ 31) (hr : r.file = file)
    (hle : h.rawDataOff.toNat + h.size.toNat ≤ file.length) :
    ∃ r', rawData r h =
        .ok ((file.drop h.rawDataOff.toNat).take h.size.toNat, r') ∧
      r'.file = file := by
  subst hr
  have hread := coffRead_of_le hfile hle
  rw [BitVec.ofNat_toNat, BitVec.setWidth_eq, BitVec.ofNat_toNat,
    BitVec.setWidth_eq] at hread
  have hseek : coffSeekAbs r h.rawDataOff = .ok { r with off := h.rawDataOff } :=
    if_pos (by omega)
  refine ⟨⟨r.file, BitVec.ofNat 32 (h.rawDataOff.toNat + h.size.toNat)⟩,
    ?_, rfl⟩
  unfold rawData
  rw [hseek]
  exact hread

theorem locReadSection_of_loads (hfile : file.length < 2 ^ 31)
    (hw : w.physAddr.toNat + w.size.toNat < 2 ^ 32)
    (hr : r.file = file) (hloads : h.Loads file w) :
    ∃ r' d', locReadSection w h r d = .ok (r', d') ∧ r'.file = file ∧
      d'.mem = write d.mem (w.p2v h.physAddr) (h.content file) := by
  unfold locReadSection CoffSecHeader.content
  by_cases hbss : h.IsBss
  · have hstart := (hloads.encloses (Or.inl hbss)).hasStart hbss.2.2 hw
    rw [if_pos hbss, if_pos hstart]
    refine ⟨_, _, rfl, hr, ?_⟩
    rw [if_pos hbss]
    rfl
  · rw [if_neg hbss, if_neg hbss]
    by_cases hraw : h.IsRaw
    · obtain ⟨r', hdata, hr'⟩ := rawData_of_le hfile hr (hloads.rawData hraw)
      rw [if_pos hraw, if_pos hraw, hdata]
      by_cases hstart : w.HasStart h.physAddr
      · exact ⟨r', _, if_pos hstart, hr', rfl⟩
      · -- then there is nothing to be copied
        have hzero : h.size.toNat = 0 := by
          by_contra hpos
          exact hstart ((hloads.encloses (Or.inr hraw)).hasStart
            (Nat.pos_of_ne_zero hpos) hw)
        refine ⟨r', d, if_neg hstart, hr', ?_⟩
        rw [hzero, List.take_zero]
        rfl
    · rw [if_neg hraw, if_neg hraw]
      exact ⟨r, d, rfl, hr, rfl⟩

/-- Sections that the loader puts somewhere do not overlap. -/
def Apart (file : List Byte) (g h : CoffSecHeader) : Prop :=
  ∀ x, InRange g.physAddr (g.content file).length x →
    ¬ InRange h.physAddr (h.content file).length x

theorem loaded_nil : Loaded file w [] mem mem :=
  ⟨nofun, fun _ _ => rfl⟩

/-- The sections that come later leave the first one as it is. -/
theorem loaded_cons (happart : ∀ g ∈ hs, Apart file h g)
    (hrest : Loaded file w hs
      (write mem (w.p2v h.physAddr) (h.content file)) mem') :
    Loaded file w (h :: hs) mem mem' where
  content g hg i hi := by
    obtain rfl | hg := List.mem_cons.mp hg
    · rw [hrest.rest]
      · refine write_apply ?_ hi
        exact Nat.le_trans (length_content g file)
          (Nat.le_of_lt g.size.isLt)
      · intro g' hg' hin
        exact happart g' hg' _ (inRange_p2v.mp (inRange_add_ofNat hi))
          (inRange_p2v.mp hin)
    · exact hrest.content g hg i hi
  rest x hx := by
    rw [hrest.rest x fun g hg => hx g (List.mem_cons_of_mem h hg)]
    exact write_of_not_inRange (hx h List.mem_cons_self)

theorem locReadSectionsLoop_loaded (hfile : file.length < 2 ^ 31)
    (hw : w.physAddr.toNat + w.size.toNat < 2 ^ 32)
    (hr : r.file = file) (hloads : ∀ h ∈ hs, h.Loads file w)
    (happart : hs.Pairwise (Apart file)) :
    ∃ d', locReadSectionsLoop w hs r d = (d', none) ∧
      Loaded file w hs d.mem d'.mem := by
  induction hs generalizing r d with
  | nil => exact ⟨d, rfl, loaded_nil⟩
  | cons h hs ih =>
      obtain ⟨hhead, htail⟩ := List.pairwise_cons.mp happart
      obtain ⟨r', d', hread, hr', hmem⟩ := locReadSection_of_loads
        (d := d) hfile hw hr (hloads h List.mem_cons_self)
      obtain ⟨d'', hloop, hloaded⟩ := ih (d := d') hr'
        (fun g hg => hloads g (List.mem_cons_of_mem h hg)) htail
      refine ⟨d'', ?_, loaded_cons hhead (hmem ▸ hloaded)⟩
      rw [locReadSectionsLoop, hread]
      exact hloop

/-! ## Applying the records -/

variable {rec : CinitRecord} {recs : List CinitRecord} {table : List Byte}
  {s : Cinit}

/-- The effect of a record. -/
def CinitRecord.apply (w : Window) (mem : Memory 32) (rec : CinitRecord) :
    Memory 32 :=
  write mem (w.p2v rec.dst) rec.bytes

/-- The record writes nothing into these bytes. -/
def CinitRecord.Off (rec : CinitRecord) (a : Word) (n : ℕ) : Prop :=
  ∀ x, InRange rec.dst rec.bytes.length x → ¬ InRange a n x

theorem toNat_shift_eight (x : Word) : ((x >>> 3) <<< 3).toNat = x.toNat / 8 * 8 := by
  have hx := x.isLt
  rw [BitVec.toNat_shiftLeft, BitVec.toNat_ushiftRight,
    Nat.shiftRight_eq_div_pow, Nat.shiftLeft_eq]
  omega

theorem toNat_shift_four (x : Word) : ((x >>> 2) <<< 2).toNat = x.toNat / 4 * 4 := by
  have hx := x.isLt
  rw [BitVec.toNat_shiftLeft, BitVec.toNat_ushiftRight,
    Nat.shiftRight_eq_div_pow, Nat.shiftLeft_eq]
  omega

/-- At a multiple of 4 the loop reads the word at its offset. -/
theorem Cinit.u32_of_mod {o : ℕ} (hmod : o % 4 = 0) :
    s.u32 c w (BitVec.ofNat 32 o) =
      readWord32 s.dsp.mem (w.p2v c.cinitAddr + BitVec.ofNat 32 o) := by
  have hshift : (BitVec.ofNat 32 o >>> 2) <<< 2 = BitVec.ofNat 32 o := by
    apply BitVec.eq_of_toNat_eq
    rw [toNat_shift_four, BitVec.toNat_ofNat]
    omega
  rw [Cinit.u32, hshift]

theorem CinitTable.length_mod (h : CinitTable table recs) :
    table.length % 8 = 0 := by
  induction h with
  | nil => rfl
  | cons hlt hpad hmod _ ih =>
      simp only [List.length_append, length_bytes32]
      omega

/-- The rest of the table, as the loop finds it in the memory. -/
structure Cinit.AtTable (c : CoffInfo) (w : Window) (s : Cinit) (o : ℕ)
    (table : List Byte) : Prop where
  off : s.off = BitVec.ofNat 32 o
  mod : o % 8 = 0
  size : o + table.length = c.cinitSize.toNat
  bytes : read s.dsp.mem (w.p2v c.cinitAddr + BitVec.ofNat 32 o) table.length =
    table

/-- The parts of the memory that the rest of the table consists of. -/
theorem read_split {mem : Memory 32} {a : Word} {xs ys : List Byte}
    (h : read mem a (xs ++ ys).length = xs ++ ys) :
    read mem a xs.length = xs ∧
      read mem (a + BitVec.ofNat 32 xs.length) ys.length = ys := by
  rw [List.length_append, read_add] at h
  exact List.append_inj h (by simp)

theorem add_ofNat_add_ofNat (a : Word) (i j : ℕ) :
    a + BitVec.ofNat 32 i + BitVec.ofNat 32 j = a + BitVec.ofNat 32 (i + j) := by
  rw [add_assoc, ← BitVec.ofNat_add]

/-- A record that writes off the table writes off each part of it. -/
theorem CinitRecord.Off.not_inRange (hoff : rec.Off a n) {i m : ℕ}
    (hle : i + m ≤ n) (hx : InRange (w.p2v rec.dst) rec.bytes.length x) :
    ¬ InRange (w.p2v a + BitVec.ofNat 32 i) m x := by
  intro hin
  refine hoff _ (inRange_p2v.mp hx) (inRange_p2v.mp ?_)
  obtain ⟨j, hj, rfl⟩ := inRange_iff_exists.mp hin
  rw [add_ofNat_add_ofNat]
  exact inRange_add_ofNat (by omega)

/-- The loop applies the first record of the rest of the table, and comes to
the next one. -/
theorem Cinit.AtTable.step {o : ℕ} {pad rest : List Byte}
    (h : s.AtTable c w o (bytes32 (BitVec.ofNat 32 rec.bytes.length) ++
      (bytes32 rec.dst ++ (rec.bytes ++ (pad ++ rest)))))
    (hlt : rec.bytes.length < 2 ^ 32) (hpad : pad.length < 8)
    (hmod : (rec.bytes.length + pad.length) % 8 = 0)
    (hrest : rest.length % 8 = 0)
    (hoff : rec.Off c.cinitAddr c.cinitSize.toNat) :
    (s.step c w).dsp.mem = rec.apply w s.dsp.mem ∧
      (s.step c w).AtTable c w
        (o + 8 + rec.bytes.length + pad.length) rest := by
  obtain ⟨hs, ho, hsize, hbytes⟩ := h
  have hmax := c.cinitSize.isLt
  obtain ⟨hword, hbytes⟩ := read_split hbytes
  obtain ⟨hdst, hbytes⟩ := read_split hbytes
  obtain ⟨hcopy, hbytes⟩ := read_split hbytes
  obtain ⟨-, htail⟩ := read_split hbytes
  simp only [length_bytes32, add_ofNat_add_ofNat, List.length_append] at *
  have hnum : s.numBytes c w = BitVec.ofNat 32 rec.bytes.length := by
    rw [Cinit.numBytes, hs, Cinit.u32_of_mod (by omega), readWord32, hword]
    exact word32_bytes32 _ []
  have hdstPhys : s.dstPhys c w = rec.dst := by
    rw [Cinit.dstPhys, hs, show BitVec.ofNat 32 o + 4 = BitVec.ofNat 32 (o + 4)
      from (BitVec.ofNat_add o 4).symm, Cinit.u32_of_mod (by omega), readWord32, hdst]
    exact word32_bytes32 _ []
  have hlen : (s.numBytes c w).toNat = rec.bytes.length := by
    rw [hnum, BitVec.toNat_ofNat, Nat.mod_eq_of_lt hlt]
  have hnext : s.step c w = s.apply c w := by
    refine if_pos ?_
    rw [hs, BitVec.lt_def, BitVec.toNat_ofNat]
    omega
  have hsrc : w.p2v c.cinitAddr + (s.off + 8) =
      w.p2v c.cinitAddr + BitVec.ofNat 32 (o + 4 + 4) := by
    rw [hs, Nat.add_assoc, BitVec.ofNat_add]
    rfl
  have hmem : (s.apply c w).dsp.mem = rec.apply w s.dsp.mem := by
    simp only [Cinit.apply, hdstPhys, hlen, hsrc]
    rw [copy_eq_write fun x hx => hoff.not_inRange (by omega) hx, hcopy]
    rfl
  have hmove : (s.apply c w).off =
      BitVec.ofNat 32 (o + 8 + rec.bytes.length + pad.length) := by
    apply BitVec.eq_of_toNat_eq
    simp only [Cinit.apply, toNat_shift_eight, hs, BitVec.toNat_add, hlen,
      BitVec.toNat_ofNat, show (8 : Word).toNat = 8 from rfl,
      show (7 : Word).toNat = 7 from rfl]
    omega
  have htable : read (rec.apply w s.dsp.mem) (w.p2v c.cinitAddr +
      BitVec.ofNat 32 (o + 4 + 4 + rec.bytes.length + pad.length))
        rest.length = rest := by
    refine Eq.trans (read_congr fun x hx => write_of_not_inRange fun hin => ?_)
      htail
    exact hoff.not_inRange (by omega) hin hx
  rw [hnext]
  refine ⟨hmem, hmove, by omega, by omega, ?_⟩
  rw [hmem]
  exact htable

theorem CinitTable.run (ht : CinitTable table recs) {o : ℕ}
    (h : s.AtTable c w o table)
    (hoff : ∀ rec ∈ recs, rec.Off c.cinitAddr c.cinitSize.toNat) :
    ((Cinit.step c w)^[recs.length] s).dsp.mem =
        recs.foldl (CinitRecord.apply w) s.dsp.mem ∧
      ((Cinit.step c w)^[recs.length] s).off = c.cinitSize := by
  induction ht generalizing s o with
  | nil =>
      refine ⟨rfl, ?_⟩
      have hsize : o = c.cinitSize.toNat := h.size
      show s.off = c.cinitSize
      rw [h.off, hsize, BitVec.ofNat_toNat, BitVec.setWidth_eq]
  | @cons rec pad rest recs hlt hpad hmod hrest ih =>
      obtain ⟨hmem, hnext⟩ := h.step hlt hpad hmod hrest.length_mod
        (hoff rec List.mem_cons_self)
      rw [List.length_cons, Function.iterate_succ_apply, List.foldl_cons,
        ← hmem]
      exact ih hnext fun rec' hrec => hoff rec' (List.mem_cons_of_mem rec hrec)

/-- After the last record the loop has ended. -/
theorem cinit_ended {m n : ℕ} (hm : ((Cinit.step c w)^[m] s).off = c.cinitSize)
    (hle : m ≤ n) :
    (Cinit.step c w)^[n] s = (Cinit.step c w)^[m] s := by
  obtain ⟨k, rfl⟩ := Nat.exists_eq_add_of_le' hle
  have hfixed : ((Cinit.step c w)^[m] s).step c w =
      (Cinit.step c w)^[m] s :=
    if_neg (by rw [hm]; exact BitVec.lt_irrefl _)
  rw [Function.iterate_add_apply, Function.iterate_fixed hfixed]

/-! ## Loading the image -/

/-- The parsers accept the file, and its sections fit into the window. -/
structure Fits (file : List Byte) (w : Window) (hs : List CoffSecHeader) :
    Prop where
  image : IsImage file hs
  shortNames : ∀ h ∈ hs, h.ShortName
  hasRaw : ∃ h ∈ hs, 0 < h.rawDataOff ∧ 0 < h.size
  loads : ∀ h ∈ hs, h.Loads file w
  apart : hs.Pairwise (Apart file)

/-- The section is loaded and consists of the records, none of which writes into
the section. -/
structure HasRecords (file : List Byte) (cinit : CoffSecHeader)
    (recs : List CinitRecord) : Prop where
  raw : cinit.IsRaw
  table : CinitTable (cinit.content file) recs
  off : ∀ rec ∈ recs, rec.Off cinit.physAddr cinit.size.toNat

/-- A well-formed overlay image for a window: one of the sections is `.cinit`, and
it has the records. -/
structure WellFormed (file : List Byte) (w : Window) (hs : List CoffSecHeader)
    (cinit : CoffSecHeader) (recs : List CinitRecord) : Prop
    extends Fits file w hs where
  mem : cinit ∈ hs
  name : cinit.name = cinitChars ++ [0, 0]
  records : HasRecords file cinit recs

/-- The first section with an address whose name begins with the characters of
`.cinit`. -/
def FirstNamed (hs : List CoffSecHeader) (cinit : CoffSecHeader) : Prop :=
  ∃ pre post, hs = pre ++ cinit :: post ∧ (∀ g ∈ pre, ¬ g.NamesCinit) ∧
    cinit.NamesCinit

/-- The loader succeeds.  Then the memory consists of the sections, changed by the
records in their order, and is otherwise what it was before. -/
def LoadsOverlay (osalAlloc : Word → Bool) (file : List Byte) (w : Window)
    (hs : List CoffSecHeader) (recs : List CinitRecord) (mem : Memory 32) :
    Prop :=
  ∃ image, Loaded file w hs mem image ∧ ∃ m, ∀ n, m ≤ n →
    (coffLoadOverlay n osalAlloc file w ⟨mem, []⟩).finished = true ∧
    (coffLoadOverlay n osalAlloc file w ⟨mem, []⟩).err = none ∧
    (coffLoadOverlay n osalAlloc file w ⟨mem, []⟩).dsp.mem =
      recs.foldl (CinitRecord.apply w) image

variable {osalAlloc : Word → Bool}

/-- The sections leave nothing open. -/
theorem Loaded.unique {image : Memory 32} (h : Loaded file w hs mem mem')
    (h' : Loaded file w hs mem image) : mem' = image := by
  funext x
  by_cases hx : ∃ h ∈ hs, InRange (w.p2v h.physAddr) (h.content file).length x
  · obtain ⟨g, hg, hin⟩ := hx
    obtain ⟨i, hi, rfl⟩ := inRange_iff_exists.mp hin
    rw [h.content g hg i hi, h'.content g hg i hi]
  · have hout : ∀ h ∈ hs, ¬ InRange (w.p2v h.physAddr)
        (h.content file).length x := fun g hg hin => hx ⟨g, hg, hin⟩
    rw [h.rest x hout, h'.rest x hout]

/-- The loader applies the records of the first section that is named so. -/
theorem Fits.loadsOverlay (h : Fits file w hs)
    (halloc : ∀ n, osalAlloc n = true)
    (hw : w.physAddr.toNat + w.size.toNat < 2 ^ 32)
    (hfirst : FirstNamed hs cinit) (hrecs : HasRecords file cinit recs)
    (mem : Memory 32) : LoadsOverlay osalAlloc file w hs recs mem := by
  obtain ⟨pre, post, hsplit, hpre, hnames⟩ := hfirst
  obtain ⟨hraw, htable, hoff⟩ := hrecs
  have hfile := h.image.length
  have hcinit : cinit ∈ hs := by
    rw [hsplit]
    exact List.mem_append_right pre List.mem_cons_self
  have hheaders := h.image.readHeaders halloc
  generalize hc : hs.foldl CoffInfo.addSecHeader CoffInfo.init = c at hheaders
  have hsec : c.secHeaders = hs := by
    rw [← hc, secHeaders_foldl]
    rfl
  have haddr : c.cinitAddr = cinit.physAddr ∧ c.cinitSize = cinit.size := by
    rw [← hc, hsplit]
    exact cinit_foldl rfl hpre (h.shortNames cinit hcinit) hnames
  have hmax : 0 < c.maxRawDataSize := by
    obtain ⟨g, hg, hgraw, hgsize⟩ := h.hasRaw
    have hle := size_le_maxRawDataSize (c := CoffInfo.init) hg
      (h.shortNames g hg) hgraw
    rw [hc, BitVec.le_def] at hle
    exact BitVec.lt_def.mpr (Nat.lt_of_lt_of_le (BitVec.lt_def.mp hgsize) hle)
  obtain ⟨d, hloop, hloaded⟩ := locReadSectionsLoop_loaded
    (r := ⟨file, BitVec.ofNat 32 (50 + 48 * hs.length)⟩) (d := ⟨mem, []⟩)
    hfile hw rfl h.loads h.apart
  have hlength : (cinit.content file).length = cinit.size.toNat := by
    have hbss : ¬ cinit.IsBss := fun hbss => hbss.2.1 hraw.2.1
    have hle := (h.loads cinit hcinit).rawData hraw
    rw [CoffSecHeader.content, if_neg hbss, if_pos hraw, List.length_take,
      List.length_drop]
    omega
  have hat : (⟨0, d⟩ : Cinit).AtTable c w 0 (cinit.content file) := by
    refine ⟨rfl, rfl, by rw [hlength, haddr.2, Nat.zero_add], ?_⟩
    refine List.ext_getElem length_read fun i hi hi' => ?_
    rw [getElem_read, haddr.1, add_ofNat_add_ofNat, Nat.zero_add]
    exact hloaded.content cinit hcinit i hi'
  obtain ⟨hmem, hend⟩ := htable.run hat (by rwa [haddr.1, haddr.2])
  refine ⟨d.mem, hloaded, recs.length, fun n hn => ?_⟩
  have hload : coffLoadOverlay n osalAlloc file w ⟨mem, []⟩ =
      ⟨none, ((Cinit.step c w)^[recs.length] ⟨0, d⟩).dsp, true⟩ := by
    have hne : c.cinitAddr ≠ 0 := by
      rw [haddr.1]
      exact hnames.2
    unfold coffLoadOverlay
    simp only [hheaders]
    unfold locReadSections
    rw [if_pos hmax, if_pos (halloc _), hsec, hloop]
    dsimp only
    rw [if_pos hne, cinit_ended hend hn, hend]
    simp
  rw [hload]
  exact ⟨rfl, rfl, hmem⟩

/-- `.cinit` is one of the sections that are named so. -/
theorem WellFormed.namesCinit (h : WellFormed file w hs cinit recs) :
    cinit.NamesCinit := by
  refine ⟨?_, h.records.raw.1⟩
  rw [CoffSecHeader.IsCinit, h.name]
  rfl

/-- With other records the image would be loaded if they had the same effect. -/
theorem Fits.loadsOverlay_iff {first : CoffSecHeader} {recs' : List CinitRecord}
    (h : Fits file w hs) (halloc : ∀ n, osalAlloc n = true)
    (hw : w.physAddr.toNat + w.size.toNat < 2 ^ 32)
    (hfirst : FirstNamed hs first) (hrecs : HasRecords file first recs')
    (mem : Memory 32) :
    LoadsOverlay osalAlloc file w hs recs mem ↔
      ∀ image, Loaded file w hs mem image →
        recs'.foldl (CinitRecord.apply w) image =
          recs.foldl (CinitRecord.apply w) image := by
  obtain ⟨image, hloaded, m, hrun⟩ := h.loadsOverlay halloc hw hfirst hrecs mem
  constructor
  · rintro ⟨image', hloaded', m', hrun'⟩ image'' hloaded''
    obtain rfl := hloaded''.unique hloaded
    obtain rfl := hloaded'.unique hloaded
    obtain ⟨-, -, heq⟩ := hrun (max m m') (le_max_left m m')
    obtain ⟨-, -, heq'⟩ := hrun' (max m m') (le_max_right m m')
    exact heq.symm.trans heq'
  · intro heffect
    rw [heffect image hloaded] at hrun
    exact ⟨image, hloaded, m, hrun⟩

/-- A well-formed image is loaded correctly if no section before `.cinit` has an
address and a name that begins like this one.  If there is one and it consists of
records as well, then these are applied instead, and the image is loaded correctly
exactly if they have the same effect. -/
theorem coffLoadOverlay_correct_iff (halloc : ∀ n, osalAlloc n = true)
    (hw : w.physAddr.toNat + w.size.toNat < 2 ^ 32)
    (h : WellFormed file w hs cinit recs) (mem : Memory 32) :
    ((∃ pre post, hs = pre ++ cinit :: post ∧ ∀ g ∈ pre, ¬ g.NamesCinit) →
      LoadsOverlay osalAlloc file w hs recs mem) ∧
    ∀ first recs', FirstNamed hs first → HasRecords file first recs' →
      (LoadsOverlay osalAlloc file w hs recs mem ↔
        ∀ image, Loaded file w hs mem image →
          recs'.foldl (CinitRecord.apply w) image =
            recs.foldl (CinitRecord.apply w) image) :=
  ⟨fun ⟨pre, post, hsplit, hpre⟩ => h.toFits.loadsOverlay halloc hw
      ⟨pre, post, hsplit, hpre, h.namesCinit⟩ h.records mem,
    fun _ _ hfirst hrecs =>
      h.toFits.loadsOverlay_iff halloc hw hfirst hrecs mem⟩

/-- The window of an overlay section that is mapped somewhere. -/
def Window.ofRegion (virtAddr : Word) (mem : DspMemRegion) : Window :=
  ⟨virtAddr, BitVec.ofNat 32 mem.physAddr, BitVec.ofNat 32 mem.size⟩

/-- The windows of the overlay sections end below the end of the address
space. -/
theorem ofRegion_overlaySections_lt (virtAddr : Word) (x : Section) :
    (Window.ofRegion virtAddr (overlaySections x)).physAddr.toNat +
      (Window.ofRegion virtAddr (overlaySections x)).size.toNat < 2 ^ 32 := by
  have hall : ∀ x, (BitVec.ofNat 32 (overlaySections x).physAddr).toNat +
      (BitVec.ofNat 32 (overlaySections x).size).toNat < 2 ^ 32 := by
    decide
  exact hall x

/-- The window of the first section. -/
def demoWindow : Window :=
  Window.ofRegion 0x40000000 (overlaySections 0)

theorem demoWindow_lt :
    demoWindow.physAddr.toNat + demoWindow.size.toNat < 2 ^ 32 :=
  ofRegion_overlaySections_lt 0x40000000 0

/-- `.cinit`, with its raw data at the offset. -/
def demoCinit (rawDataOff : Word) : CoffSecHeader :=
  ⟨cinitChars ++ [0, 0], 0x86200008, 16, rawDataOff, 0x40⟩

/-- The sections `.text`, `.cinit` and `.bss`. -/
def demoHeaders : List CoffSecHeader :=
  [⟨[0x2E, 0x74, 0x65, 0x78, 0x74, 0, 0, 0], 0x86200000, 4, 194, 0x20⟩,
    demoCinit 198,
    ⟨[0x2E, 0x62, 0x73, 0x73, 0, 0, 0, 0], 0x86200020, 8, 0, 0x80⟩]

/-- A record for the second byte of `.bss`. -/
def demoRecord : CinitRecord := ⟨0x86200021, [0x5A, 0xA5]⟩

/-- The bytes of this record, padded. -/
def demoTable : List Byte :=
  bytes32 2 ++ (bytes32 0x86200021 ++ ([0x5A, 0xA5] ++
    (List.replicate 6 0 ++ [])))

/-- The image with the code 1, 2, 3, 4 and this record. -/
def demoImage : List Byte :=
  imageBytes demoHeaders ([1, 2, 3, 4] ++ demoTable)

/-- Ranges one after the other do not overlap. -/
theorem not_inRange_of_le {b : Word} {m : ℕ} (hle : a.toNat + n ≤ b.toNat)
    (hend : b.toNat + m ≤ 2 ^ 32) (hx : InRange a n x) : ¬ InRange b m x := by
  have hxlt := x.isLt
  rw [InRange, BitVec.toNat_sub] at hx ⊢
  omega

/-- Sections in the order of their addresses fit if each one does. -/
theorem fits_of_ordered (himage : IsImage file hs)
    (hall : ∀ h ∈ hs, h.ShortName ∧
      (h.IsRaw → h.rawDataOff.toNat + h.size.toNat ≤ file.length) ∧
      (h.Loadable → w.Encloses h.physAddr h.size.toNat))
    (hraw : ∃ h ∈ hs, 0 < h.rawDataOff ∧ 0 < h.size)
    (hordered : hs.Pairwise fun g h =>
      g.physAddr.toNat + (g.content file).length ≤ h.physAddr.toNat ∧
        h.physAddr.toNat + (h.content file).length ≤ 2 ^ 32) :
    Fits file w hs where
  image := himage
  shortNames h hmem := (hall h hmem).1
  hasRaw := hraw
  loads h hmem := ⟨(hall h hmem).2.1, (hall h hmem).2.2⟩
  apart := hordered.imp fun ⟨hle, hend⟩ _ hx => not_inRange_of_le hle hend hx

theorem demoTable_hasRecords {off : Word} (hoff : 0 < off)
    (hcontent : (demoCinit off).content file = demoTable) :
    HasRecords file (demoCinit off) [demoRecord] where
  raw := by
    have hload : (0x86200008 : Word) ≠ 0 ∧
        (0x40 : Word) &&& coffSecHeaderFlagBss = 0 ∧
        (0x40 : Word) &&& (coffSecHeaderFlagText ||| coffSecHeaderFlagData) ≠
          0 := by
      decide
    exact ⟨hload.1, hload.2.1, hload.2.2, hoff⟩
  table := by
    rw [hcontent]
    exact @CinitTable.cons demoRecord (List.replicate 6 0) [] []
      (by decide) (by decide) (by decide) CinitTable.nil
  off rec hrec x hx hin := by
    obtain rfl := List.mem_singleton.mp hrec
    have hend : (0x86200008 : Word).toNat + 16 ≤ demoRecord.dst.toNat ∧
        demoRecord.dst.toNat + demoRecord.bytes.length ≤ 2 ^ 32 := by
      decide
    exact not_inRange_of_le hend.1 hend.2 hin hx

theorem demoImage_wellFormed :
    WellFormed demoImage demoWindow demoHeaders (demoCinit 198)
      [demoRecord] where
  toFits := fits_of_ordered (by decide +kernel) (by decide +kernel)
    ⟨_, List.mem_cons_self, by decide, by decide⟩ (by decide +kernel)
  mem := by decide
  name := rfl
  records := demoTable_hasRecords (by decide) (by decide +kernel)

theorem demoImage_loaded : ∃ n,
    (coffLoadOverlay n (fun _ => true) demoImage demoWindow
      ⟨fun _ => 0xFF, []⟩).err = none ∧
    (coffLoadOverlay n (fun _ => true) demoImage demoWindow
      ⟨fun _ => 0xFF, []⟩).dsp.mem 0x40000021 = 0x5A := by
  have halloc : ∀ n : Word, (fun _ => true : Word → Bool) n = true :=
    fun _ => rfl
  obtain ⟨hloads, -⟩ := coffLoadOverlay_correct_iff halloc demoWindow_lt
    demoImage_wellFormed fun _ => 0xFF
  obtain ⟨image, -, m, hload⟩ := hloads ⟨[_], [_], rfl, by decide⟩
  obtain ⟨-, herr, hmem⟩ := hload m (Nat.le_refl m)
  refine ⟨m, herr, ?_⟩
  rw [hmem]
  rfl

/-- The sections `.cinit0`, `.cinit` and `.bss`. -/
def cinit0Headers : List CoffSecHeader :=
  [⟨cinitChars ++ [0x30, 0], 0x86200000, 8, 194, 0x40⟩, demoCinit 202,
    ⟨[0x2E, 0x62, 0x73, 0x73, 0, 0, 0, 0], 0x86200020, 8, 0, 0x80⟩]

/-- The first section is a table with a record of no bytes. -/
def cinit0Image : List Byte :=
  imageBytes cinit0Headers (bytes32 0 ++ bytes32 0x86200020 ++ demoTable)

theorem cinit0Image_wellFormed :
    WellFormed cinit0Image demoWindow cinit0Headers (demoCinit 202)
      [demoRecord] where
  toFits := fits_of_ordered (by decide +kernel) (by decide +kernel)
    ⟨_, List.mem_cons_self, by decide, by decide⟩ (by decide +kernel)
  mem := by decide
  name := rfl
  records := demoTable_hasRecords (by decide) (by decide +kernel)

/-- The loader applies the records of `.cinit0`, and not those of `.cinit`. -/
theorem cinit0Image_not_loaded :
    WellFormed cinit0Image demoWindow cinit0Headers (demoCinit 202)
        [demoRecord] ∧
      demoWindow.Encloses demoRecord.dst demoRecord.bytes.length ∧
      ¬ LoadsOverlay (fun _ => true) cinit0Image demoWindow cinit0Headers
        [demoRecord] (fun _ => 0xFF) := by
  refine ⟨cinit0Image_wellFormed, by decide, ?_⟩
  have hfits := cinit0Image_wellFormed.toFits
  have hfirst : FirstNamed cinit0Headers
      ⟨cinitChars ++ [0x30, 0], 0x86200000, 8, 194, 0x40⟩ :=
    ⟨[], _, rfl, by decide, by decide⟩
  have hrecords : HasRecords cinit0Image
      ⟨cinitChars ++ [0x30, 0], 0x86200000, 8, 194, 0x40⟩
      [⟨0x86200020, []⟩] := by
    refine ⟨by decide, ?_, ?_⟩
    · have hcontent : CoffSecHeader.content cinit0Image
          ⟨cinitChars ++ [0x30, 0], 0x86200000, 8, 194, 0x40⟩ =
          bytes32 0 ++ (bytes32 0x86200020 ++ ([] ++ ([] ++ []))) := by
        decide +kernel
      rw [hcontent]
      exact @CinitTable.cons ⟨0x86200020, []⟩ [] [] [] (by decide)
        (by decide) (by decide) CinitTable.nil
    · intro rec hrec x hx
      obtain rfl := List.mem_singleton.mp hrec
      exact absurd hx (Nat.not_lt_zero _)
  have halloc : ∀ n : Word, (fun _ => true : Word → Bool) n = true :=
    fun _ => rfl
  intro hloads
  obtain ⟨image, hloaded, -⟩ :=
    hfits.loadsOverlay halloc demoWindow_lt hfirst hrecords fun _ => 0xFF
  have heq := (hfits.loadsOverlay_iff halloc demoWindow_lt hfirst hrecords _).mp
    hloads image hloaded
  -- the second byte of `.bss`
  have hzero : image 0x40000021 = 0 :=
    hloaded.content _ (List.mem_cons_of_mem _ (List.mem_cons_of_mem _
      List.mem_cons_self)) 1 (by decide +kernel)
  have hbyte := congrFun heq 0x40000021
  have hfirstByte : List.foldl (CinitRecord.apply demoWindow) image
      [⟨0x86200020, []⟩] 0x40000021 = image 0x40000021 := rfl
  have hrecordByte : List.foldl (CinitRecord.apply demoWindow) image
      [demoRecord] 0x40000021 = 0x5A := rfl
  rw [hfirstByte, hzero, hrecordByte] at hbyte
  exact absurd hbyte (by decide)

end C64Tools.Coff
