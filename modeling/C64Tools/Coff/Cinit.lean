import C64Tools.Coff.Correctness
import C64Tools.Library.Transition

/-!
# The loop over the `.cinit` records

The loop ends when its offset is no longer below the size of the section.  The
length of a record is compared with nothing: a record that goes on after the
end is read all the same, and a length close to `2 ^ 32` takes the offset back.
-/

namespace C64Tools.Coff

open Transition ByteMemory

section

variable (c : CoffInfo) (w : Window)

/-- The offsets, from the start of the section, of the bytes that one round
reads: the two words of the record and the bytes that it copies. -/
def Cinit.Reads (s : Cinit) (o : Word) : Prop :=
  InRange ((s.off >>> 2) <<< 2) 4 o ∨ InRange (((s.off + 4) >>> 2) <<< 2) 4 o ∨
    InRange (s.off + 8) (s.numBytes c w).toNat o

/-- A round goes forward, and reads the section only. -/
structure Cinit.Bounded (s : Cinit) : Prop where
  advances : s.off < (s.step c w).off
  reads : ∀ o, s.Reads c w o → o < c.cinitSize

/-- The loop comes to its end, with rounds that go forward and read the
section only. -/
structure Cinit.WellBehaved (s : Cinit) : Prop where
  ends : ∃ n, ¬ ((Cinit.step c w)^[n] s).off < c.cinitSize
  bounded : ∀ n, ((Cinit.step c w)^[n] s).off < c.cinitSize →
    ((Cinit.step c w)^[n] s).Bounded c w

/-- The record that the loop has come to ends in the section, and not in the
last bytes of the address space. -/
def Cinit.RecordInside (s : Cinit) : Prop :=
  s.off < c.cinitSize →
    s.off.toNat + 8 + (s.numBytes c w).toNat ≤ min c.cinitSize.toNat (2 ^ 32 - 8)

end

variable {c : CoffInfo} {w : Window} {s : Cinit}

/-! ## One round -/

theorem Cinit.step_off (hlt : s.off < c.cinitSize) :
    (s.step c w).off.toNat =
      (s.off.toNat + 8 + (s.numBytes c w).toNat + 7) % 2 ^ 32 / 8 * 8 := by
  have hnext : s.step c w = s.apply c w := if_pos hlt
  rw [hnext]
  simp only [Cinit.apply, toNat_shift_eight, BitVec.toNat_add,
    show (8 : Word).toNat = 8 from rfl, show (7 : Word).toNat = 7 from rfl]
  omega

theorem Cinit.step_mod (hmod : s.off.toNat % 8 = 0) :
    (s.step c w).off.toNat % 8 = 0 := by
  by_cases hlt : s.off < c.cinitSize
  · rw [Cinit.step_off hlt]
    exact Nat.mul_mod_left _ _
  · rw [Cinit.step, if_neg hlt]
    exact hmod

theorem inRange_iff_of_le {a x : Word} {n : ℕ} (h : a.toNat + n ≤ 2 ^ 32) :
    InRange a n x ↔ a.toNat ≤ x.toNat ∧ x.toNat < a.toNat + n := by
  have hx := x.isLt
  have ha := a.isLt
  rw [InRange, BitVec.toNat_sub]
  omega

theorem Cinit.reads_words (hmod : s.off.toNat % 8 = 0) {o : Word} :
    InRange ((s.off >>> 2) <<< 2) 4 o ∨ InRange (((s.off + 4) >>> 2) <<< 2) 4 o ↔
      s.off.toNat ≤ o.toNat ∧ o.toNat < s.off.toNat + 8 := by
  have hoff := s.off.isLt
  have hsecond : (s.off + 4).toNat = s.off.toNat + 4 := by
    rw [BitVec.toNat_add, show (4 : Word).toNat = 4 from rfl]
    omega
  rw [inRange_iff_of_le, inRange_iff_of_le]
  all_goals simp only [toNat_shift_four, hsecond]
  all_goals omega

theorem Cinit.bounded_iff (hmod : s.off.toNat % 8 = 0)
    (hlt : s.off < c.cinitSize) :
    s.Bounded c w ↔ s.off.toNat + 8 + (s.numBytes c w).toNat ≤
      min c.cinitSize.toNat (2 ^ 32 - 8) := by
  have hoff := s.off.isLt
  have hsize := c.cinitSize.isLt
  have hnum := (s.numBytes c w).isLt
  have hlow : s.off.toNat < c.cinitSize.toNat := hlt
  have hnext := Cinit.step_off (w := w) hlt
  have hdata : (s.off + 8).toNat = (s.off.toNat + 8) % 2 ^ 32 := by
    rw [BitVec.toNat_add]
    rfl
  constructor
  · rintro ⟨hadvances, hreads⟩
    rw [BitVec.lt_def, hnext] at hadvances
    have hheader : s.off.toNat + 8 ≤ c.cinitSize.toNat := by
      -- the last byte of the second word
      have hlast : (BitVec.ofNat 32 (s.off.toNat + 7) : Word).toNat =
          s.off.toNat + 7 := by
        rw [BitVec.toNat_ofNat]
        omega
      have hread := hreads (BitVec.ofNat 32 (s.off.toNat + 7))
        (or_assoc.mp (Or.inl ((Cinit.reads_words hmod).mpr
          ⟨by omega, by omega⟩)))
      rw [BitVec.lt_def, hlast] at hread
      omega
    have hrecord : s.off.toNat + 8 + (s.numBytes c w).toNat ≤
        c.cinitSize.toNat := by
      by_contra hover
      have hbyte : InRange (s.off + 8) (s.numBytes c w).toNat c.cinitSize := by
        rw [InRange, BitVec.toNat_sub, hdata]
        omega
      exact absurd (hreads c.cinitSize (Or.inr (Or.inr hbyte)))
        (BitVec.lt_irrefl _)
    omega
  · intro hinside
    refine ⟨?_, fun o ho => ?_⟩
    · rw [BitVec.lt_def, hnext]
      omega
    · rw [BitVec.lt_def]
      rw [Cinit.Reads, ← or_assoc, Cinit.reads_words hmod] at ho
      obtain ⟨-, hword⟩ | hbyte := ho
      · omega
      · rw [inRange_iff_of_le (by rw [hdata]; omega), hdata] at hbyte
        omega

/-! ## All rounds -/

theorem Cinit.mod_iterate (hmod : s.off.toNat % 8 = 0) (n : ℕ) :
    ((Cinit.step c w)^[n] s).off.toNat % 8 = 0 := by
  induction n with
  | zero => exact hmod
  | succ n ih =>
      rw [Function.iterate_succ_apply']
      exact Cinit.step_mod ih

/-- Rounds that go forward come to an end. -/
theorem Cinit.ends_of_bounded
    (h : ∀ n, ((Cinit.step c w)^[n] s).off < c.cinitSize →
      ((Cinit.step c w)^[n] s).Bounded c w) :
    ∃ n, ¬ ((Cinit.step c w)^[n] s).off < c.cinitSize := by
  refine Machine.exists_iterate_of_rank
    (P := fun t : Cinit => ∀ n, ((Cinit.step c w)^[n] t).off < c.cinitSize →
      ((Cinit.step c w)^[n] t).Bounded c w)
    (Q := fun t : Cinit => ¬ t.off < c.cinitSize) (f := Cinit.step c w)
    (fun t => c.cinitSize.toNat - t.off.toNat) ?_ ?_ h
  · intro t ht _ n hn
    rw [← Function.iterate_succ_apply] at hn ⊢
    exact ht (n + 1) hn
  · intro t ht hmore
    have hlt : t.off < c.cinitSize := not_not.mp hmore
    have hadvances := (ht 0 hlt).advances
    simp only [Function.iterate_zero, id_eq, BitVec.lt_def] at hadvances hlt
    right
    omega

/-- Whatever the size of the section and the memory are, the loop comes to its
end, goes forward and reads the section only if and only if each record ends
in the section when the loop comes to it. -/
theorem Cinit.wellBehaved_iff (c : CoffInfo) (w : Window) (d : Dsp) :
    (⟨0, d⟩ : Cinit).WellBehaved c w ↔
      ∀ n, ((Cinit.step c w)^[n] ⟨0, d⟩).RecordInside c w := by
  have hmod : ∀ n, ((Cinit.step c w)^[n] ⟨0, d⟩).off.toNat % 8 = 0 :=
    Cinit.mod_iterate rfl
  constructor
  · rintro h n hlt
    exact (Cinit.bounded_iff (hmod n) hlt).mp (h.bounded n hlt)
  · intro h
    have hbounded : ∀ n, ((Cinit.step c w)^[n] ⟨0, d⟩).off < c.cinitSize →
        ((Cinit.step c w)^[n] ⟨0, d⟩).Bounded c w := fun n hlt =>
      (Cinit.bounded_iff (hmod n) hlt).mpr (h n hlt)
    exact ⟨Cinit.ends_of_bounded hbounded, hbounded⟩

/-- A section of 16 bytes whose first word is `0xFFFFFFF8`. -/
def hugeRecord : Memory 32 :=
  write (fun _ => 0) 0x40000000 [0xF8, 0xFF, 0xFF, 0xFF]

/-- The loop takes this for the length of a record, and after the record it is
at offset 0 again. -/
theorem hugeRecord_not_wellBehaved :
    ¬ (⟨0, ⟨hugeRecord, []⟩⟩ : Cinit).WellBehaved ⟨[], 0x87000000, 16, 0⟩
      smallWindow := by
  intro h
  have hadvances := (h.bounded 0 (by decide)).advances
  have hback : ((⟨0, ⟨hugeRecord, []⟩⟩ : Cinit).step
      ⟨[], 0x87000000, 16, 0⟩ smallWindow).off = 0 := by
    decide +kernel
  exact absurd hadvances (by rw [Function.iterate_zero, id_eq, hback]; decide)

end C64Tools.Coff
