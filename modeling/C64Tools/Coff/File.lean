import C64Tools.Coff.Format
import C64Tools.Library.Transition

/-!
# Reads and seeks

`coff_read` adds its offset and the number of bytes as 32-bit words before it
compares the sum with the size of the file.  A sum that wraps around passes, and
`fread` then stores what is left of the file before it comes out short.  The
position of the stream goes on with it while `coff_off` stays, so both are kept
here; as long as they agree the reads are those of `coffRead`.
-/

namespace C64Tools.Coff

open Transition ByteMemory

/-- `coff_fh`, with the position of the stream, and `coff_off`. -/
structure CoffFile where
  bytes : List Byte
  pos : ℕ
  off : Word
  deriving DecidableEq

/-- What a read comes to: its return value, the bytes stored at the destination
and the file after it. -/
structure CoffRead where
  ret : Except CoffError Unit
  stored : List Byte
  file : CoffFile

namespace CoffFile

/-- `coff_size`. -/
def size (s : CoffFile) : Word :=
  BitVec.ofNat 32 s.bytes.length

/-- What `fread` delivers. -/
def fread (s : CoffFile) (numBytes : ℕ) : List Byte :=
  (s.bytes.drop s.pos).take numBytes

/-- `coff_read`. -/
def read (s : CoffFile) (numBytes : Word) : CoffRead :=
  if s.off + numBytes ≤ s.size then
    let bs := s.fread numBytes.toNat
    let moved := { s with pos := s.pos + bs.length }
    if bs.length = numBytes.toNat then
      ⟨.ok (), bs, { moved with off := s.off + numBytes }⟩
    else ⟨.error .fileRead, bs, moved⟩
  else ⟨.error .fileReadOutOfBounds, [], s⟩

/-- `coff_seek_abs`. -/
def seekAbs (s : CoffFile) (off : Word) : Except CoffError Unit × CoffFile :=
  if off.toNat < 2 ^ 31 then (.ok (), { s with pos := off.toNat, off := off })
  else (.error .fileSeek, s)

end CoffFile

/-! ## Sequences of seeks and reads -/

inductive FileCall where
  | seek (off : Word)
  | read (numBytes : Word)

def fileNext (s : CoffFile) : FileCall → Option CoffFile
  | .seek off => some (s.seekAbs off).2
  | .read numBytes => some (s.read numBytes).file

/-- A file after `coff_open`, which does not open files that are too large for
the offsets of the stream. -/
def fileMachine : Machine CoffFile FileCall where
  init s := s.bytes.length < 2 ^ 31 ∧ s.pos = 0 ∧ s.off = 0
  step s e t := fileNext s e = some t

/-- A read delivers the bytes at the offset and moves it, or leaves everything
as it is if these bytes are not all in the file. -/
structure CoffFile.ReadBounded (s : CoffFile) (numBytes : Word) : Prop where
  ok : (s.read numBytes).ret = .ok () →
    s.off.toNat + numBytes.toNat ≤ s.bytes.length ∧
      (s.read numBytes).stored =
        (s.bytes.drop s.off.toNat).take numBytes.toNat ∧
      (s.read numBytes).file.off.toNat = s.off.toNat + numBytes.toNat
  outOfBounds : s.bytes.length < s.off.toNat + numBytes.toNat →
    (s.read numBytes).ret ≠ .ok () ∧ (s.read numBytes).stored = [] ∧
      (s.read numBytes).file.off = s.off

/-- The stream stands at the offset, or at the end of the file. -/
structure CoffFile.InStep (s : CoffFile) : Prop where
  length_lt : s.bytes.length < 2 ^ 31
  off_lt : s.off.toNat < 2 ^ 31
  pos : s.pos = s.off.toNat ∨ s.bytes.length ≤ s.pos

variable {s t : CoffFile} {n off : Word} {e : FileCall}

theorem CoffFile.length_fread (s : CoffFile) (n : ℕ) :
    (s.fread n).length = min n (s.bytes.length - s.pos) := by
  rw [fread, List.length_take, List.length_drop]

theorem CoffFile.size_toNat (h : s.bytes.length < 2 ^ 31) :
    s.size.toNat = s.bytes.length := by
  rw [size, BitVec.toNat_ofNat]
  omega

/-- A read that the comparison lets pass, in full or short. -/
theorem CoffFile.read_cases (s : CoffFile) (n : Word) :
    (s.off + n ≤ s.size ∧ (s.fread n.toNat).length = n.toNat ∧
      s.read n = ⟨.ok (), s.fread n.toNat,
        { s with pos := s.pos + n.toNat, off := s.off + n }⟩) ∨
    (s.off + n ≤ s.size ∧ (s.fread n.toNat).length < n.toNat ∧
      s.read n = ⟨.error .fileRead, s.fread n.toNat,
        { s with pos := s.pos + (s.fread n.toNat).length }⟩) ∨
    (s.size < s.off + n ∧ s.read n = ⟨.error .fileReadOutOfBounds, [], s⟩) := by
  by_cases hsum : s.off + n ≤ s.size
  · have hread : s.read n = _ := if_pos hsum
    by_cases hfull : (s.fread n.toNat).length = n.toNat
    · refine Or.inl ⟨hsum, hfull, ?_⟩
      rw [hread, if_pos hfull, hfull]
    · refine Or.inr (Or.inl ⟨hsum, ?_, ?_⟩)
      · have hle := s.length_fread n.toNat
        omega
      · rw [hread, if_neg hfull]
  · exact Or.inr (Or.inr ⟨BitVec.not_le.mp hsum, if_neg hsum⟩)

theorem CoffFile.stored_of_le (hsum : s.off + n ≤ s.size) :
    (s.read n).stored = s.fread n.toNat := by
  obtain ⟨-, -, hread⟩ | ⟨-, -, hread⟩ | ⟨hover, -⟩ := s.read_cases n
  · rw [hread]
  · rw [hread]
  · exact absurd hsum (BitVec.not_le.mpr hover)

theorem CoffFile.InStep.read (h : s.InStep) (n : Word) :
    (s.read n).file.InStep := by
  have hlen := s.length_fread n.toNat
  have hlt := h.length_lt
  have hoff := h.off_lt
  obtain ⟨hsum, hfull, hread⟩ | ⟨-, hshort, hread⟩ | ⟨-, hread⟩ :=
    s.read_cases n
  · rw [hread]
    rw [BitVec.le_def, CoffFile.size_toNat hlt] at hsum
    refine ⟨hlt, lt_of_le_of_lt hsum hlt, ?_⟩
    obtain hpos | hpos := h.pos
    · left
      have hsmall : s.off.toNat + n.toNat < 2 ^ 32 := by omega
      rw [hpos, BitVec.toNat_add, Nat.mod_eq_of_lt hsmall]
    · right
      exact hpos.trans (Nat.le_add_right _ _)
  · rw [hread]
    refine ⟨hlt, hoff, Or.inr ?_⟩
    show s.bytes.length ≤ s.pos + (s.fread n.toNat).length
    omega
  · rw [hread]
    exact h

theorem CoffFile.InStep.seekAbs (h : s.InStep) (off : Word) :
    (s.seekAbs off).2.InStep := by
  unfold CoffFile.seekAbs
  split_ifs with hoff
  · exact ⟨h.length_lt, hoff, Or.inl rfl⟩
  · exact h

theorem CoffFile.inStep_of_reachable (hs : fileMachine.Reachable s) :
    s.InStep := by
  refine hs.invariant ?_ ?_
  · rintro s ⟨hlt, hpos, hoff⟩
    rw [← BitVec.toNat_inj] at hoff
    exact ⟨hlt, by rw [hoff]; decide, Or.inl (hpos.trans hoff.symm)⟩
  · rintro s e t hs hnext
    cases e with
    | seek off =>
        obtain rfl : (s.seekAbs off).2 = t := Option.some.inj hnext
        exact hs.seekAbs off
    | read n =>
        obtain rfl : (s.read n).file = t := Option.some.inj hnext
        exact hs.read n

/-- A read keeps to the file if and only if its sum does not wrap around, or
nothing is left of the file. -/
theorem CoffFile.InStep.readBounded_iff (h : s.InStep) (n : Word) :
    s.ReadBounded n ↔
      s.off.toNat + n.toNat < 2 ^ 32 ∨ s.bytes.length ≤ s.pos := by
  have hlen := s.length_fread n.toNat
  have hlt := h.length_lt
  have hoff := h.off_lt
  have hn := n.isLt
  have hsize := CoffFile.size_toNat hlt
  have hadd : (s.off + n).toNat = (s.off.toNat + n.toNat) % 2 ^ 32 :=
    BitVec.toNat_add s.off n
  constructor
  · rintro ⟨-, hout⟩
    by_contra hnot
    obtain ⟨hwrap, hleft⟩ := not_or.mp hnot
    obtain ⟨-, hnone, -⟩ := hout (by omega)
    have hpos := h.pos
    -- the sum has wrapped around to less than the offset
    have hpass : s.off + n ≤ s.size := by
      rw [BitVec.le_def, hadd, hsize]
      omega
    rw [CoffFile.stored_of_le hpass] at hnone
    rw [hnone, List.length_nil] at hlen
    omega
  · intro hcond
    constructor
    · intro hok
      obtain ⟨hsum, hfull, hread⟩ | ⟨-, -, hread⟩ | ⟨-, hread⟩ := s.read_cases n
      · rw [BitVec.le_def, hadd, hsize] at hsum
        have hsmall : s.off.toNat + n.toNat < 2 ^ 32 := by omega
        have hmod := Nat.mod_eq_of_lt hsmall
        rw [hread]
        refine ⟨by omega, ?_, hadd.trans hmod⟩
        obtain hpos | hpos := h.pos
        · rw [CoffFile.fread, hpos]
        · have hzero : n.toNat = 0 := by omega
          rw [CoffFile.fread, hzero, List.take_zero, List.take_zero]
      · rw [hread] at hok
        cases hok
      · rw [hread] at hok
        cases hok
    · intro hover
      obtain ⟨hsum, hfull, hread⟩ | ⟨hsum, -, hread⟩ | ⟨-, hread⟩ :=
        s.read_cases n
      · rw [BitVec.le_def, hadd, hsize] at hsum
        omega
      · rw [BitVec.le_def, hadd, hsize] at hsum
        have hnone : s.fread n.toNat = [] :=
          List.eq_nil_of_length_eq_zero (by omega)
        rw [hread]
        exact ⟨nofun, hnone, rfl⟩
      · rw [hread]
        exact ⟨nofun, rfl, rfl⟩

/-- As long as the stream stands at the offset, reads are those of the reader
that has the offset only. -/
theorem CoffFile.coffRead_eq (hpos : s.pos = s.off.toNat) :
    coffRead ⟨s.bytes, s.off⟩ n =
      (s.read n).ret.map fun _ =>
        ((s.read n).stored, ⟨(s.read n).file.bytes, (s.read n).file.off⟩) := by
  have hbytes : (s.bytes.drop s.off.toNat).take n.toNat = s.fread n.toNat := by
    rw [CoffFile.fread, hpos]
  have hsize : Reader.size ⟨s.bytes, s.off⟩ = s.size := rfl
  unfold coffRead
  dsimp only
  rw [hbytes, hsize]
  obtain ⟨hsum, hfull, hread⟩ | ⟨hsum, hshort, hread⟩ | ⟨hsum, hread⟩ :=
    s.read_cases n
  · rw [if_pos hsum, if_pos hfull, hread]
    rfl
  · rw [if_pos hsum, if_neg hshort.ne, hread]
    rfl
  · rw [if_neg (BitVec.not_le.mpr hsum), hread]
    rfl

end C64Tools.Coff
