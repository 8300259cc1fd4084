import C64Tools.Coff.Correctness
import C64Tools.Coff.File

/-!
# The string table

The table begins with a word for its size, which counts itself, and offsets
into the table count from there.  `coff_string_table_read` keeps what comes
after this word, but `coff_string_table_get` adds an offset to that.
-/

namespace C64Tools.Coff

open Transition ByteMemory

/-- `coff_string_table_size` and the bytes at `coff_string_table`, if there is
a table. -/
structure StringTable where
  size : Word
  chars : Option (List Byte)
  deriving DecidableEq

/-- What reading the string table comes to, with all the bytes stored. -/
structure StringTableRead where
  ret : Except CoffError Unit
  table : StringTable
  stored : List Byte
  file : CoffFile

/-- The variable `strTblOff`. -/
def CoffFileHeader.strTblOff32 (h : CoffFileHeader) : Word :=
  h.symTabOffset + h.numSymTabEntries * coffSymEntrySize

/-- `coff_string_table_read`, once the size field has been read. -/
def stringTableReadChars (osalAlloc : Word → Bool) (strTblOff oldFileOff : Word)
    (sizeBytes : List Byte) (s : CoffFile) (t : StringTable) : StringTableRead :=
  let size := word32 sizeBytes 0
  if 4 ≤ size ∧ strTblOff + size ≤ s.size then
    if osalAlloc (size - 4) then
      let chars := s.read (size - 4)
      let table := ⟨size - 4, some chars.stored⟩
      match chars.ret with
      | .error _ =>
          ⟨.error .strTblReadChars, table, sizeBytes ++ chars.stored, chars.file⟩
      | .ok _ =>
          let back := chars.file.seekAbs oldFileOff
          ⟨back.1, table, sizeBytes ++ chars.stored, back.2⟩
    else ⟨.error .strTblAlloc, ⟨size - 4, none⟩, sizeBytes, s⟩
  else ⟨.error .strTbl, ⟨size, t.chars⟩, sizeBytes, s⟩

/-- `coff_string_table_read`. -/
def stringTableRead (osalAlloc : Word → Bool) (h : CoffFileHeader)
    (s : CoffFile) (t : StringTable) : StringTableRead :=
  let oldFileOff := s.off
  match s.seekAbs h.strTblOff32 with
  | (.error _, s) => ⟨.error .strTblSeek, t, [], s⟩
  | (.ok _, s) =>
      match s.read 4 with
      | ⟨.error _, stored, s⟩ => ⟨.error .strTblReadSz, t, stored, s⟩
      | ⟨.ok _, sizeBytes, s⟩ =>
          stringTableReadChars osalAlloc h.strTblOff32 oldFileOff sizeBytes s t

/-- `coff_string_table_get`: the index that is added to `coff_string_table`. -/
def coffStringTableGet (t : StringTable) (offset : Word) : Option Word :=
  if offset < t.size then some offset else none

/-- The bytes of the table from an index on. -/
def StringTable.bytesFrom (t : StringTable) (i : Word) : List Byte :=
  (t.chars.getD []).drop i.toNat

variable {osalAlloc : Word → Bool} {h : CoffFileHeader} {s : CoffFile}
  {t : StringTable} {n off : Word}

/-! ## What is read of the file -/

theorem CoffFileHeader.strTblOff32_toNat (h : CoffFileHeader) :
    h.strTblOff32.toNat = h.strTblOff % 2 ^ 32 := by
  rw [strTblOff32, strTblOff, BitVec.toNat_add, BitVec.toNat_mul,
    show coffSymEntrySize.toNat = 18 from rfl]
  omega

/-- The size field of a string table at this place. -/
def sizeField (bytes : List Byte) (pos : ℕ) : ℕ :=
  (word32 (bytes.drop pos) 0).toNat

theorem sizeField_lt (bytes : List Byte) (pos : ℕ) :
    sizeField bytes pos < 2 ^ 32 :=
  (word32 (bytes.drop pos) 0).isLt

theorem CoffFile.read_of_le (hpos : s.pos = s.off.toNat)
    (hlt : s.bytes.length < 2 ^ 31)
    (hle : s.off.toNat + n.toNat ≤ s.bytes.length) :
    s.read n = ⟨.ok (), (s.bytes.drop s.off.toNat).take n.toNat,
      { s with pos := s.pos + n.toNat, off := s.off + n }⟩ := by
  have hlen := s.length_fread n.toNat
  have hpass : s.off + n ≤ s.size := by
    rw [BitVec.le_def, BitVec.toNat_add, CoffFile.size_toNat hlt]
    omega
  obtain ⟨-, -, hread⟩ | ⟨-, hshort, -⟩ | ⟨hover, -⟩ := s.read_cases n
  · rw [hread, CoffFile.fread, hpos]
  · omega
  · exact absurd hpass (BitVec.not_le.mpr hover)

theorem CoffFile.read_of_gt (hlt : s.bytes.length < 2 ^ 31)
    (hsmall : s.off.toNat + n.toNat < 2 ^ 32)
    (hgt : s.bytes.length < s.off.toNat + n.toNat) :
    s.read n = ⟨.error .fileReadOutOfBounds, [], s⟩ := by
  refine if_neg (BitVec.not_le.mpr ?_)
  rw [BitVec.lt_def, BitVec.toNat_add, CoffFile.size_toNat hlt]
  omega

theorem CoffFile.seekAbs_of_lt (hoff : off.toNat < 2 ^ 31) :
    s.seekAbs off = (.ok (), { s with pos := off.toNat, off := off }) :=
  if_pos hoff

/-- Without a size field in the file nothing is stored. -/
theorem stringTableRead_of_gt (hlt : s.bytes.length < 2 ^ 31)
    (hgt : s.bytes.length < h.strTblOff32.toNat + 4) :
    (stringTableRead osalAlloc h s t).stored = [] ∧
      (stringTableRead osalAlloc h s t).ret ≠ .ok () := by
  unfold stringTableRead
  by_cases hseek : h.strTblOff32.toNat < 2 ^ 31
  · have hread := CoffFile.read_of_gt (n := 4)
      (s := { s with pos := h.strTblOff32.toNat, off := h.strTblOff32 }) hlt
      (Nat.add_lt_of_lt_sub (lt_of_lt_of_le hseek (by decide))) hgt
    simp only [CoffFile.seekAbs_of_lt hseek, hread]
    exact ⟨trivial, nofun⟩
  · have hfail : s.seekAbs h.strTblOff32 = (.error .fileSeek, s) := if_neg hseek
    simp only [hfail]
    exact ⟨trivial, nofun⟩

theorem stringTableRead_of_le (hlt : s.bytes.length < 2 ^ 31)
    (hle : h.strTblOff32.toNat + 4 ≤ s.bytes.length) :
    stringTableRead osalAlloc h s t =
      stringTableReadChars osalAlloc h.strTblOff32 s.off
        ((s.bytes.drop h.strTblOff32.toNat).take 4)
        { s with pos := h.strTblOff32.toNat + 4, off := h.strTblOff32 + 4 } t := by
  have hseek : s.seekAbs h.strTblOff32 = _ :=
    CoffFile.seekAbs_of_lt (by omega)
  have hread := CoffFile.read_of_le (n := 4)
    (s := { s with pos := h.strTblOff32.toNat, off := h.strTblOff32 }) rfl hlt hle
  simp only [stringTableRead, hseek, hread]
  rfl

/-- A read stores no more than the file has from the position of the stream
on. -/
theorem CoffFile.length_stored_le (s : CoffFile) (n : Word) :
    (s.read n).stored.length ≤ s.bytes.length - s.pos := by
  have hlen := s.length_fread n.toNat
  obtain ⟨-, -, hread⟩ | ⟨-, -, hread⟩ | ⟨-, hread⟩ := s.read_cases n
  · rw [hread]
    exact hlen.trans_le (Nat.min_le_right _ _)
  · rw [hread]
    exact hlen.trans_le (Nat.min_le_right _ _)
  · rw [hread]
    exact Nat.zero_le _

/-- A read that succeeds at the offset. -/
theorem CoffFile.read_of_ok (hpos : s.pos = s.off.toNat)
    (hok : (s.read n).ret = .ok ()) :
    n.toNat ≤ s.bytes.length - s.off.toNat ∧
      (s.read n).stored = (s.bytes.drop s.off.toNat).take n.toNat ∧
      (s.read n).file.bytes = s.bytes := by
  have hlen := s.length_fread n.toNat
  obtain ⟨-, hfull, hread⟩ | ⟨-, -, hread⟩ | ⟨-, hread⟩ := s.read_cases n
  · rw [hread]
    refine ⟨by omega, ?_, rfl⟩
    rw [CoffFile.fread, hpos]
  · rw [hread] at hok
    cases hok
  · rw [hread] at hok
    cases hok

theorem stringTableReadChars_stored {a oldFileOff : Word} {sizeBytes : List Byte} :
    sizeBytes.length ≤ (stringTableReadChars osalAlloc a oldFileOff sizeBytes s
        t).stored.length ∧
      (stringTableReadChars osalAlloc a oldFileOff sizeBytes s
        t).stored.length ≤ sizeBytes.length + (s.bytes.length - s.pos) := by
  have hstored := s.length_stored_le (word32 sizeBytes 0 - 4)
  unfold stringTableReadChars
  dsimp only
  split_ifs
  · split
    all_goals
      rw [List.length_append]
      omega
  · exact ⟨le_rfl, Nat.le_add_right _ _⟩
  · exact ⟨le_rfl, Nat.le_add_right _ _⟩

/-- A table is accepted if all its characters have been read. -/
theorem stringTableReadChars_ok {a oldFileOff : Word} {sizeBytes : List Byte}
    (hpos : s.pos = s.off.toNat) (hold : oldFileOff.toNat < 2 ^ 31)
    (hok : (stringTableReadChars osalAlloc a oldFileOff sizeBytes s t).ret =
      .ok ()) :
    4 ≤ word32 sizeBytes 0 ∧
      (word32 sizeBytes 0 - 4).toNat ≤ s.bytes.length - s.off.toNat ∧
      (stringTableReadChars osalAlloc a oldFileOff sizeBytes s t).table =
        ⟨word32 sizeBytes 0 - 4, some ((s.bytes.drop s.off.toNat).take
          (word32 sizeBytes 0 - 4).toNat)⟩ ∧
      (stringTableReadChars osalAlloc a oldFileOff sizeBytes s t).file =
        ⟨s.bytes, oldFileOff.toNat, oldFileOff⟩ := by
  unfold stringTableReadChars at hok ⊢
  dsimp only at hok ⊢
  split_ifs at hok ⊢ with hcheck halloc
  split at hok
  · cases hok
  · next hread =>
      obtain ⟨hle, hstored, hbytes⟩ := CoffFile.read_of_ok hpos hread
      refine ⟨hcheck.1, hle, ?_, ?_⟩
      · rw [hstored]
      · rw [CoffFile.seekAbs_of_lt hold, hbytes]

theorem stringTableRead_stored (hlt : s.bytes.length < 2 ^ 31)
    (hle : h.strTblOff32.toNat + 4 ≤ s.bytes.length) :
    4 ≤ (stringTableRead osalAlloc h s t).stored.length ∧
      (stringTableRead osalAlloc h s t).stored.length ≤
        s.bytes.length - h.strTblOff32.toNat := by
  have hfield : ((s.bytes.drop h.strTblOff32.toNat).take 4).length = 4 := by
    rw [List.length_take, List.length_drop]
    omega
  obtain ⟨hlow, hhigh⟩ := @stringTableReadChars_stored osalAlloc
    ⟨s.bytes, h.strTblOff32.toNat + 4, h.strTblOff32 + 4⟩ t h.strTblOff32 s.off
    ((s.bytes.drop h.strTblOff32.toNat).take 4)
  rw [hfield] at hlow hhigh
  rw [stringTableRead_of_le hlt hle]
  refine ⟨hlow, hhigh.trans ?_⟩
  show 4 + (s.bytes.length - (h.strTblOff32.toNat + 4)) ≤ _
  omega

/-- An accepted table lies in the file, and the file is left where it was. -/
theorem stringTableRead_ok (hlt : s.bytes.length < 2 ^ 31)
    (hoff : s.off.toNat < 2 ^ 31)
    (hok : (stringTableRead osalAlloc h s t).ret = .ok ()) {a : ℕ}
    (ha : h.strTblOff32.toNat = a) :
    4 ≤ sizeField s.bytes a ∧ a + sizeField s.bytes a ≤ s.bytes.length ∧
      (stringTableRead osalAlloc h s t).table =
        ⟨BitVec.ofNat 32 (sizeField s.bytes a - 4),
          some ((s.bytes.drop (a + 4)).take (sizeField s.bytes a - 4))⟩ ∧
      (stringTableRead osalAlloc h s t).file = ⟨s.bytes, s.off.toNat, s.off⟩ := by
  have hle : h.strTblOff32.toNat + 4 ≤ s.bytes.length := by
    by_contra hgt
    exact (stringTableRead_of_gt hlt (Nat.lt_of_not_le hgt)).2 hok
  have heq : stringTableRead osalAlloc h s t = _ :=
    stringTableRead_of_le hlt hle
  have hnext : (h.strTblOff32 + 4).toNat = a + 4 := by
    rw [BitVec.toNat_add, ha, show (4 : Word).toNat = 4 from rfl]
    omega
  have hword : word32 ((s.bytes.drop h.strTblOff32.toNat).take 4) 0 =
      BitVec.ofNat 32 (sizeField s.bytes a) := by
    rw [word32_take (by decide), sizeField, BitVec.ofNat_toNat,
      BitVec.setWidth_eq, ha]
  rw [heq] at hok ⊢
  obtain ⟨hfour, hchars, htable, hfile⟩ := stringTableReadChars_ok
    (by rw [hnext, ha]) hoff hok
  have hlow : 4 ≤ sizeField s.bytes a := by
    rw [hword, BitVec.le_def, BitVec.toNat_ofNat, Nat.mod_eq_of_lt
      (sizeField_lt s.bytes a)] at hfour
    exact hfour
  have hsub : BitVec.ofNat 32 (sizeField s.bytes a) - 4 =
      BitVec.ofNat 32 (sizeField s.bytes a - 4) :=
    (BitVec.ofNat_sub_ofNat_of_le (sizeField s.bytes a) 4 (by decide) hlow)
  have hnum : (BitVec.ofNat 32 (sizeField s.bytes a - 4)).toNat =
      sizeField s.bytes a - 4 := by
    have hlt32 := sizeField_lt s.bytes a
    rw [BitVec.toNat_ofNat, Nat.mod_eq_of_lt (by omega)]
  rw [hword, hsub, hnum, hnext] at hchars htable
  refine ⟨hlow, ?_, htable, hfile⟩
  replace hchars : sizeField s.bytes a - 4 ≤ s.bytes.length - (a + 4) := hchars
  omega

theorem stringTableReadChars_eq {a oldFileOff : Word} {sizeBytes : List Byte}
    (hpos : s.pos = s.off.toNat) :
    (if 4 ≤ word32 sizeBytes 0 ∧ a + word32 sizeBytes 0 ≤ s.size then
      if osalAlloc (word32 sizeBytes 0 - 4) then
        match coffRead ⟨s.bytes, s.off⟩ (word32 sizeBytes 0 - 4) with
        | .error _ => .error .strTblReadChars
        | .ok (_, r) => coffSeekAbs r oldFileOff
      else .error .strTblAlloc
    else .error .strTbl) =
      (stringTableReadChars osalAlloc a oldFileOff sizeBytes s t).ret.map fun _ =>
        (⟨(stringTableReadChars osalAlloc a oldFileOff sizeBytes s t).file.bytes,
          (stringTableReadChars osalAlloc a oldFileOff sizeBytes s t).file.off⟩ :
          Reader) := by
  unfold stringTableReadChars
  rw [CoffFile.coffRead_eq hpos]
  dsimp only
  split_ifs
  · cases (s.read (word32 sizeBytes 0 - 4)).ret with
    | error e => rfl
    | ok _ =>
        simp only [Except.map, coffSeekAbs, CoffFile.seekAbs]
        split_ifs <;> rfl
  · rfl
  · rfl

/-- As long as the stream stands at the offset, the table is read by the reader
that has the offset only. -/
theorem coffStringTableRead_eq :
    coffStringTableRead osalAlloc h ⟨s.bytes, s.off⟩ =
      (stringTableRead osalAlloc h s t).ret.map fun _ =>
        ⟨(stringTableRead osalAlloc h s t).file.bytes,
          (stringTableRead osalAlloc h s t).file.off⟩ := by
  unfold coffStringTableRead stringTableRead
  by_cases hseek : h.strTblOff32.toNat < 2 ^ 31
  · have hseekOff : coffSeekAbs ⟨s.bytes, s.off⟩ h.strTblOff32 =
        .ok ⟨s.bytes, h.strTblOff32⟩ := if_pos hseek
    have hfield := CoffFile.coffRead_eq (n := 4)
      (s := { s with pos := h.strTblOff32.toNat, off := h.strTblOff32 }) rfl
    rw [CoffFile.seekAbs_of_lt hseek]
    rw [CoffFileHeader.strTblOff32] at hseekOff
    simp only [hseekOff]
    rw [CoffFileHeader.strTblOff32] at hfield ⊢
    rw [hfield]
    obtain ⟨hsum, hfull, hread⟩ | ⟨hsum, hshort, hread⟩ | ⟨hsum, hread⟩ :=
      CoffFile.read_cases
        { s with
          pos := (h.symTabOffset + h.numSymTabEntries * coffSymEntrySize).toNat
          off := h.symTabOffset + h.numSymTabEntries * coffSymEntrySize } 4
    · rw [hread]
      have hnext : h.strTblOff32.toNat + 4 = (h.strTblOff32 + 4).toNat := by
        rw [BitVec.toNat_add, show (4 : Word).toNat = 4 from rfl]
        omega
      simp only [Except.map]
      exact stringTableReadChars_eq
        (s := ⟨s.bytes, h.strTblOff32.toNat + 4, h.strTblOff32 + 4⟩) hnext
    · rw [hread]
      rfl
    · rw [hread]
      rfl
  · have hseekOff : coffSeekAbs ⟨s.bytes, s.off⟩ h.strTblOff32 =
        .error .fileSeek := if_neg hseek
    have hfail : s.seekAbs h.strTblOff32 = (.error .fileSeek, s) := if_neg hseek
    rw [hfail]
    rw [CoffFileHeader.strTblOff32] at hseekOff
    simp only [hseekOff]
    rfl

/-! ## What is stored of a string table -/

/-- No more bytes are stored than the file has from the start of the table on,
and a table is accepted only if it ends in the file. -/
structure TableBounded (osalAlloc : Word → Bool) (h : CoffFileHeader)
    (s : CoffFile) (t : StringTable) : Prop where
  stored : (stringTableRead osalAlloc h s t).stored.length ≤
    s.bytes.length - h.strTblOff
  accepted : (stringTableRead osalAlloc h s t).ret = .ok () →
    h.strTblOff + ((stringTableRead osalAlloc h s t).table.size.toNat + 4) ≤
      s.bytes.length

/-- The offset of the table is a word, or what it wraps around to is not the
place of a size field. -/
theorem tableBounded_iff (hlt : s.bytes.length < 2 ^ 31)
    (hoff : s.off.toNat < 2 ^ 31) :
    TableBounded osalAlloc h s t ↔
      h.strTblOff < 2 ^ 32 ∨ s.bytes.length < h.strTblOff % 2 ^ 32 + 4 := by
  have hword := h.strTblOff32_toNat
  rw [← hword]
  by_cases hle : h.strTblOff32.toNat + 4 ≤ s.bytes.length
  · obtain ⟨hlow, hhigh⟩ := @stringTableRead_stored osalAlloc h s t hlt hle
    constructor
    · rintro ⟨hstored, -⟩
      left
      omega
    · intro hcond
      have hsame : h.strTblOff32.toNat = h.strTblOff := by omega
      refine ⟨by omega, fun hok => ?_⟩
      obtain ⟨hfour, hend, htable, -⟩ := stringTableRead_ok hlt hoff hok hsame
      have hfield := sizeField_lt s.bytes h.strTblOff
      rw [htable, BitVec.toNat_ofNat, Nat.mod_eq_of_lt (by omega)]
      omega
  · obtain ⟨hnone, hfail⟩ := @stringTableRead_of_gt osalAlloc h s t hlt
      (Nat.lt_of_not_le hle)
    refine iff_of_true ⟨?_, fun hok => absurd hok hfail⟩
      (Or.inr (Nat.lt_of_not_le hle))
    rw [hnone]
    exact Nat.zero_le _

/-- After any seeks and reads of a file of any size, a read keeps to the file
if and only if the sum of offset and count does not wrap around or nothing is
left of the file, and so does the reading of the string table if and only if its
offset does not. -/
theorem reads_bounded_iff (hs : fileMachine.Reachable s) :
    (∀ n, s.ReadBounded n ↔
      s.off.toNat + n.toNat < 2 ^ 32 ∨ s.bytes.length ≤ s.pos) ∧
    ∀ (osalAlloc : Word → Bool) (h : CoffFileHeader) (t : StringTable),
      TableBounded osalAlloc h s t ↔
        h.strTblOff < 2 ^ 32 ∨ s.bytes.length < h.strTblOff % 2 ^ 32 + 4 := by
  have hstep := CoffFile.inStep_of_reachable hs
  exact ⟨hstep.readBounded_iff, fun _ _ _ =>
    tableBounded_iff hstep.length_lt hstep.off_lt⟩

/-- A file of 100 bytes. -/
def hundredBytes : CoffFile := ⟨List.replicate 100 0, 0, 0⟩

theorem hundredBytes_read_bounded :
    (hundredBytes.seekAbs 16).2.ReadBounded 84 := by
  have hreach : fileMachine.Reachable (hundredBytes.seekAbs 16).2 :=
    .step (.init ⟨by decide, rfl, rfl⟩) (e := .seek 16) rfl
  exact ((reads_bounded_iff hreach).1 84).mpr (by decide)

/-- A read that fails, after it has stored the rest of the file. -/
theorem wrapped_read_not_bounded :
    fileMachine.Reachable (hundredBytes.seekAbs 16).2 ∧
      ((hundredBytes.seekAbs 16).2.read 0xFFFFFFF8).stored.length = 84 ∧
      ¬ (hundredBytes.seekAbs 16).2.ReadBounded 0xFFFFFFF8 := by
  have hstored : ((hundredBytes.seekAbs 16).2.read 0xFFFFFFF8).stored.length =
      84 := by
    decide +kernel
  refine ⟨.step (.init ⟨by decide, rfl, rfl⟩) (e := .seek 16) rfl, hstored, ?_⟩
  intro h
  have hnone := (h.outOfBounds (by decide)).2.1
  rw [hnone] at hstored
  cases hstored

/-! ## Names -/

/-- The bytes from an offset of the table to its end: the name that the format
assigns to the offset comes first among them. -/
def formatName (bytes : List Byte) (h : CoffFileHeader) (off : Word) :
    Option (List Byte) :=
  let size := sizeField bytes h.strTblOff
  if 4 ≤ off.toNat ∧ off.toNat < size then
    some (((bytes.drop h.strTblOff).take size).drop off.toNat)
  else none

/-- Every offset is looked up as the format has it, and the headers are read
on from where they were. -/
structure LookupRight (h : CoffFileHeader) (s : CoffFile) (p : StringTableRead)
    (off : Word) : Prop where
  name : (coffStringTableGet p.table off).map p.table.bytesFrom =
    formatName s.bytes h off
  file : p.file.off = s.off ∧ p.file.pos = s.off.toNat

theorem getFrom_table {size : ℕ} {chars : List Byte} (hsize : size < 2 ^ 32) :
    (coffStringTableGet ⟨BitVec.ofNat 32 size, some chars⟩ off).map
      (StringTable.bytesFrom ⟨BitVec.ofNat 32 size, some chars⟩) =
      if off.toNat < size then some (chars.drop off.toNat) else none := by
  have hlt : off < BitVec.ofNat 32 size ↔ off.toNat < size := by
    rw [BitVec.lt_def, BitVec.toNat_ofNat, Nat.mod_eq_of_lt hsize]
  unfold coffStringTableGet
  simp only [hlt]
  split_ifs <;> rfl

/-- After the string table of a file has been read, an offset is looked up as the
format has it if and only if the format assigns no name to it and it is also
outside of what is kept of the table. -/
theorem stringTableGet_iff (hs : fileMachine.Reachable s)
    (htable : h.strTblOff + sizeField s.bytes h.strTblOff ≤ s.bytes.length)
    (hok : (stringTableRead osalAlloc h s t).ret = .ok ()) (off : Word) :
    LookupRight h s (stringTableRead osalAlloc h s t) off ↔
      sizeField s.bytes h.strTblOff ≤ off.toNat ∨
        off.toNat < 4 ∧ sizeField s.bytes h.strTblOff ≤ off.toNat + 4 := by
  have hstep := CoffFile.inStep_of_reachable hs
  have hlt := hstep.length_lt
  have hfield := sizeField_lt s.bytes h.strTblOff
  have hsame : h.strTblOff32.toNat = h.strTblOff := by
    rw [h.strTblOff32_toNat]
    omega
  obtain ⟨hfour, -, hkept, hfile⟩ :=
    stringTableRead_ok hlt hstep.off_lt hok hsame
  have hget := @getFrom_table off (sizeField s.bytes h.strTblOff - 4)
    ((s.bytes.drop (h.strTblOff + 4)).take (sizeField s.bytes h.strTblOff - 4))
    (by omega)
  rw [← hkept] at hget
  have hfileOk : (stringTableRead osalAlloc h s t).file.off = s.off ∧
      (stringTableRead osalAlloc h s t).file.pos = s.off.toNat := by
    rw [hfile]
    exact ⟨rfl, rfl⟩
  constructor
  · rintro ⟨hname, -⟩
    rw [hget, formatName] at hname
    by_cases hkeep : off.toNat < sizeField s.bytes h.strTblOff - 4
    · exfalso
      rw [if_pos hkeep] at hname
      obtain ⟨hin, hsome⟩ := Option.ite_none_right_eq_some.mp hname.symm
      -- what is found is 4 bytes shorter than what the format has
      have hlength := congrArg List.length (Option.some.inj hsome)
      simp only [List.length_drop, List.length_take] at hlength
      omega
    · rw [if_neg hkeep] at hname
      have hnone : ¬ (4 ≤ off.toNat ∧
          off.toNat < sizeField s.bytes h.strTblOff) := fun hin => by
        simp only [hin, and_self, if_true] at hname
        cases hname
      omega
  · intro hcond
    refine ⟨?_, hfileOk⟩
    rw [hget, formatName, if_neg (by omega)]
    exact (if_neg (by omega)).symm

/-- A string table with the name "calc", at the beginning of its file. -/
def calcTable : CoffFile :=
  ⟨[9, 0, 0, 0, 0x63, 0x61, 0x6C, 0x63, 0], 0, 0⟩

/-- A file header that puts the string table at offset 0. -/
def tableAtZero : CoffFileHeader := CoffFileHeader.ofBytes []

theorem calcTable_read :
    (stringTableRead (fun _ => true) tableAtZero calcTable ⟨0, none⟩).ret =
      .ok () :=
  rfl

theorem calcTable_lookup_end :
    LookupRight tableAtZero calcTable
      (stringTableRead (fun _ => true) tableAtZero calcTable ⟨0, none⟩) 9 :=
  (stringTableGet_iff (.init ⟨by decide, rfl, rfl⟩) (by decide) calcTable_read
    9).mpr (by decide)

/-- The first name of the table has the offset 4.  The format has "calc" there,
and what is found is the terminator after it. -/
theorem calcTable_lookup_wrong :
    formatName calcTable.bytes tableAtZero 4 =
      some [0x63, 0x61, 0x6C, 0x63, 0] ∧
    (coffStringTableGet (stringTableRead (fun _ => true) tableAtZero calcTable
      ⟨0, none⟩).table 4).map (stringTableRead (fun _ => true) tableAtZero
        calcTable ⟨0, none⟩).table.bytesFrom = some [0] ∧
    ¬ LookupRight tableAtZero calcTable
      (stringTableRead (fun _ => true) tableAtZero calcTable ⟨0, none⟩) 4 := by
  have hformat : formatName calcTable.bytes tableAtZero 4 =
      some [0x63, 0x61, 0x6C, 0x63, 0] := by
    decide +kernel
  have hfound : (coffStringTableGet (stringTableRead (fun _ => true) tableAtZero
      calcTable ⟨0, none⟩).table 4).map (stringTableRead (fun _ => true)
        tableAtZero calcTable ⟨0, none⟩).table.bytesFrom = some [0] := by
    decide +kernel
  refine ⟨hformat, hfound, fun h => ?_⟩
  have hname := h.name
  rw [hformat, hfound] at hname
  cases hname

end C64Tools.Coff
