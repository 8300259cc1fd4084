import C64Tools.Coff.Overlay

/-!
# What is written outside the window

Of a section only the first address is compared with the window, and of a
`.cinit` record nothing is.  So an image is loaded into the window exactly if
its sections end there, too, and its records only name addresses there.
-/

namespace C64Tools.Coff

open ByteMemory

/-- The addresses all belong to the window. -/
def Window.Contains (w : Window) (a : Word) (n : ℕ) : Prop :=
  ∀ x, InRange a n x → InRange w.virtAddr w.size.toNat x

/-- Some bytes from a physical address on lie in the window. -/
def Window.Fits (w : Window) (a : Word) (n : ℕ) : Prop :=
  n = 0 ∨ (a - w.physAddr).toNat + n ≤ w.size.toNat

variable {w : Window} {c : CoffInfo} {r : Reader} {d : Dsp} {s : Cinit}
  {h : CoffSecHeader} {hs : List CoffSecHeader} {a : Word} {n : ℕ}

/-! ## Ranges of physical addresses -/

theorem length_of_coffRead {numBytes : Word} {bs : List Byte} {r' : Reader}
    (hread : coffRead r numBytes = .ok (bs, r')) :
    bs.length = numBytes.toNat ∧ r'.file = r.file := by
  unfold coffRead at hread
  dsimp only at hread
  split_ifs at hread with hbound hlength
  obtain ⟨rfl, rfl⟩ := Prod.mk.inj (Except.ok.inj hread)
  exact ⟨hlength, rfl⟩

/-- A window of 16 bytes. -/
def smallWindow : Window := ⟨0x40000000, 0x87000000, 16⟩

end C64Tools.Coff
