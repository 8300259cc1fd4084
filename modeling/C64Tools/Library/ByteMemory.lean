import Mathlib.Data.BitVec
import Mathlib.Logic.Function.Basic

/-!
# Memories of bytes

A memory has one byte at each address, and addresses wrap around.  Runs of bytes
are written, read and copied upwards from an address.  Words are read and
written with their lowest byte first.
-/

namespace ByteMemory

abbrev Byte := BitVec 8

abbrev Memory (w : ℕ) := BitVec w → Byte

variable {w : ℕ}

/-- Write some bytes one after the other. -/
def write (mem : Memory w) (a : BitVec w) : List Byte → Memory w
  | [] => mem
  | b :: bs => write (Function.update mem a b) (a + 1) bs

/-- The bytes that are found one after the other. -/
def read (mem : Memory w) (a : BitVec w) : ℕ → List Byte
  | 0 => []
  | n + 1 => mem a :: read mem (a + 1) n

/-- Copy some bytes, each one before the next one is read. -/
def copy (mem : Memory w) (src dst : BitVec w) : ℕ → Memory w
  | 0 => mem
  | n + 1 => copy (Function.update mem dst (mem src)) (src + 1) (dst + 1) n

/-- An address is one of the `n` addresses from `a` on. -/
def InRange (a : BitVec w) (n : ℕ) (x : BitVec w) : Prop :=
  (x - a).toNat < n

instance (a : BitVec w) (n : ℕ) (x : BitVec w) : Decidable (InRange a n x) :=
  inferInstanceAs (Decidable (_ < _))

variable {mem mem' : Memory w} {a x src dst : BitVec w} {n i : ℕ}
  {bs : List Byte}

/-! ## Ranges -/

theorem inRange_iff_exists :
    InRange a n x ↔ ∃ i < n, x = a + BitVec.ofNat w i := by
  constructor
  · intro h
    refine ⟨(x - a).toNat, h, ?_⟩
    rw [BitVec.ofNat_toNat, BitVec.setWidth_eq, add_sub_cancel]
  · rintro ⟨i, hi, rfl⟩
    rw [InRange, add_sub_cancel_left, BitVec.toNat_ofNat]
    exact Nat.lt_of_le_of_lt (Nat.mod_le _ _) hi

theorem inRange_add_ofNat (hi : i < n) : InRange a n (a + BitVec.ofNat w i) :=
  inRange_iff_exists.mpr ⟨i, hi, rfl⟩

theorem add_one_add_ofNat (a : BitVec w) (i : ℕ) :
    a + 1 + BitVec.ofNat w i = a + BitVec.ofNat w (i + 1) := by
  rw [Nat.add_comm i 1, BitVec.ofNat_add, ← add_assoc]
  rfl

/-- The first address of a range, or one of the range after it. -/
theorem inRange_succ :
    InRange a (n + 1) x ↔ x = a ∨ InRange (a + 1) n x := by
  simp only [inRange_iff_exists]
  constructor
  · rintro ⟨i, hi, rfl⟩
    cases i with
    | zero => exact Or.inl (add_zero a)
    | succ i =>
        exact Or.inr ⟨i, Nat.lt_of_succ_lt_succ hi,
          (add_one_add_ofNat a i).symm⟩
  · rintro (rfl | ⟨i, hi, rfl⟩)
    · exact ⟨0, Nat.succ_pos n, (add_zero x).symm⟩
    · exact ⟨i + 1, Nat.succ_lt_succ hi, add_one_add_ofNat a i⟩

/-- Going on from an address does not come back to it before the end of the
address space. -/
theorem not_inRange_add_one (hn : n < 2 ^ w) : ¬ InRange (a + 1) n a := by
  rw [inRange_iff_exists]
  rintro ⟨i, hi, h⟩
  rw [add_one_add_ofNat, left_eq_add] at h
  have hzero : (i + 1) % 2 ^ w = 0 := by
    simpa using congrArg BitVec.toNat h
  rw [Nat.mod_eq_of_lt (by omega)] at hzero
  omega

/-- A range which does not wrap around. -/
theorem inRange_iff_toNat (h : a.toNat + n ≤ 2 ^ w) :
    InRange a n x ↔ a.toNat ≤ x.toNat ∧ x.toNat < a.toNat + n := by
  have hx := x.isLt
  have ha := a.isLt
  rw [InRange, BitVec.toNat_sub]
  obtain hlt | hle := Nat.lt_or_ge x.toNat a.toNat
  · rw [Nat.mod_eq_of_lt (by omega)]
    omega
  · have hsub : 2 ^ w - a.toNat + x.toNat = x.toNat - a.toNat + 2 ^ w := by
      omega
    rw [hsub, Nat.add_mod_right, Nat.mod_eq_of_lt (by omega)]
    omega

/-! ## Writing -/

theorem write_of_not_inRange (h : ¬ InRange a bs.length x) :
    write mem a bs x = mem x := by
  induction bs generalizing mem a with
  | nil => rfl
  | cons b bs ih =>
      obtain ⟨hne, hrest⟩ := not_or.mp (mt inRange_succ.mpr h)
      rw [write, ih hrest, Function.update_of_ne hne]

theorem write_apply (hn : bs.length ≤ 2 ^ w) (hi : i < bs.length) :
    write mem a bs (a + BitVec.ofNat w i) = bs[i] := by
  induction bs generalizing mem a i with
  | nil => cases hi
  | cons b bs ih =>
      cases i with
      | zero =>
          have ha : a + BitVec.ofNat w 0 = a := add_zero a
          rw [write, ha, write_of_not_inRange (not_inRange_add_one hn),
            Function.update_self]
          rfl
      | succ i =>
          rw [write, ← add_one_add_ofNat,
            ih (Nat.le_of_succ_le hn) (Nat.lt_of_succ_lt_succ hi)]
          rfl

/-! ## Reading -/

@[simp]
theorem length_read : (read mem a n).length = n := by
  induction n generalizing a with
  | zero => rfl
  | succ n ih => rw [read, List.length_cons, ih]

theorem getElem_read (hi : i < (read mem a n).length) :
    (read mem a n)[i] = mem (a + BitVec.ofNat w i) := by
  induction n generalizing a i with
  | zero => cases hi
  | succ n ih =>
      cases i with
      | zero => exact congrArg mem (add_zero a).symm
      | succ i =>
          rw [← add_one_add_ofNat]
          exact ih (Nat.lt_of_succ_lt_succ hi)

/-- What is read depends on the bytes in the range only. -/
theorem read_congr (h : ∀ x, InRange a n x → mem x = mem' x) :
    read mem a n = read mem' a n := by
  refine List.ext_getElem (by simp) fun i hi hi' => ?_
  rw [getElem_read, getElem_read]
  rw [length_read] at hi
  exact h _ (inRange_add_ofNat hi)

/-- What has been written is read. -/
theorem read_write (hn : bs.length ≤ 2 ^ w) :
    read (write mem a bs) a bs.length = bs := by
  refine List.ext_getElem (by simp) fun i hi hi' => ?_
  rw [getElem_read, write_apply hn hi']

theorem read_add (m : ℕ) :
    read mem a (n + m) =
      read mem a n ++ read mem (a + BitVec.ofNat w n) m := by
  induction n generalizing a with
  | zero =>
      have ha : a + BitVec.ofNat w 0 = a := add_zero a
      rw [ha, Nat.zero_add]
      rfl
  | succ n ih =>
      rw [Nat.add_right_comm, read, read, ih, List.cons_append,
        add_one_add_ofNat]

/-! ## Copying -/

/-- Copying to a range that does not meet the source. -/
theorem copy_eq_write
    (h : ∀ x, InRange dst n x → ¬ InRange src n x) :
    copy mem src dst n = write mem dst (read mem src n) := by
  induction n generalizing mem src dst with
  | zero => rfl
  | succ n ih =>
      have hrest : ∀ x, InRange (dst + 1) n x → ¬ InRange (src + 1) n x :=
        fun x hdst hsrc => h x (inRange_succ.mpr (Or.inr hdst))
          (inRange_succ.mpr (Or.inr hsrc))
      have hsame : read (Function.update mem dst (mem src)) (src + 1) n =
          read mem (src + 1) n := by
        refine read_congr fun x hx => Function.update_of_ne ?_ _ _
        rintro rfl
        exact h x (inRange_succ.mpr (Or.inl rfl))
          (inRange_succ.mpr (Or.inr hx))
      rw [copy, read, write, ih hrest, hsame]

/-! ## Words -/

/-- The byte at an index, or zero after the end. -/
def byteAt (bs : List Byte) (i : ℕ) : Byte :=
  bs.getD i 0

def word16 (bs : List Byte) (i : ℕ) : BitVec 16 :=
  byteAt bs (i + 1) ++ byteAt bs i

def word32 (bs : List Byte) (i : ℕ) : BitVec 32 :=
  byteAt bs (i + 3) ++ byteAt bs (i + 2) ++ byteAt bs (i + 1) ++ byteAt bs i

/-- The word that is found at an address. -/
def readWord32 (mem : Memory w) (a : BitVec w) : BitVec 32 :=
  word32 (read mem a 4) 0

/-- The bytes of a word. -/
def bytes32 (x : BitVec 32) : List Byte :=
  [x.extractLsb' 0 8, x.extractLsb' 8 8, x.extractLsb' 16 8,
    x.extractLsb' 24 8]

@[simp]
theorem length_bytes32 (x : BitVec 32) : (bytes32 x).length = 4 :=
  rfl

theorem word32_bytes32 (x : BitVec 32) (bs : List Byte) :
    word32 (bytes32 x ++ bs) 0 = x := by
  refine BitVec.eq_of_getLsbD_eq fun i hi => ?_
  simp only [word32, byteAt, bytes32, List.cons_append, List.nil_append,
    Nat.zero_add, List.getD_cons_zero, List.getD_cons_succ,
    BitVec.getLsbD_append, BitVec.getLsbD_extractLsb']
  split_ifs <;> grind

theorem readWord32_write_bytes32 (h : 4 ≤ 2 ^ w) (x : BitVec 32) :
    readWord32 (write mem a (bytes32 x)) a = x := by
  have hread : read (write mem a (bytes32 x)) a 4 = bytes32 x := read_write h
  rw [readWord32, hread]
  simpa using word32_bytes32 x []

/-- A word depends on its own bytes only. -/
theorem readWord32_congr (h : ∀ x, InRange a 4 x → mem x = mem' x) :
    readWord32 mem a = readWord32 mem' a := by
  rw [readWord32, readWord32, read_congr h]

end ByteMemory
