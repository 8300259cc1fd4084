import Mathlib.Tactic.Common

/-!
# Page tables

A page table leads pages to pages of the memory behind them.  With each page it
notes the mapping which the page is part of, so that two mappings that happen to
lie side by side stay two.
-/

namespace Paging

/-- Where a page leads to, and the mapping it is part of. -/
structure Frame where
  mapping : ℕ
  page : ℕ
  deriving DecidableEq, Repr

/-- A partial function on the numbers of pages. -/
abbrev Table := ℕ → Option Frame

/-- Some pages in a row, and the first page they lead to. -/
structure Area where
  mapping : ℕ
  first : ℕ
  pages : ℕ
  target : ℕ
  deriving DecidableEq, Repr

namespace Area

def Covers (m : Area) (p : ℕ) : Prop :=
  m.first ≤ p ∧ p < m.first + m.pages

instance (m : Area) (p : ℕ) : Decidable (m.Covers p) :=
  inferInstanceAs (Decidable (_ ∧ _))

/-- Where the area leads a page. -/
def frame (m : Area) (p : ℕ) : Frame :=
  ⟨m.mapping, m.target + (p - m.first)⟩

end Area

namespace Table

/-- Add a mapping. -/
def map (T : Table) (m : Area) : Table := fun p =>
  if m.Covers p then some (m.frame p) else T p

/-- Remove some pages in a row. -/
def unmap (T : Table) (first pages : ℕ) : Table := fun p =>
  if first ≤ p ∧ p < first + pages then none else T p

/-- Remove the pages of a mapping. -/
def drop (T : Table) (mapping : Option ℕ) : Table := fun p =>
  (T p).filter fun f => mapping ≠ some f.mapping

/-- The pages are all free. -/
def Free (T : Table) (first pages : ℕ) : Prop :=
  ∀ p, first ≤ p → p < first + pages → T p = none

/-- The pages of the area, and only these, are those of its mapping. -/
def Has (T : Table) (m : Area) : Prop :=
  ∀ p f, T p = some f ∧ f.mapping = m.mapping ↔ m.Covers p ∧ f = m.frame p

/-- Where an address leads to, and the mapping it is in. -/
def byteAt (T : Table) (pageSize addr : ℕ) : Option (ℕ × ℕ) :=
  (T (addr / pageSize)).map fun f =>
    (f.mapping, f.page * pageSize + addr % pageSize)

instance (T : Table) (first pages : ℕ) : Decidable (T.Free first pages) :=
  decidable_of_iff (∀ k < pages, T (first + k) = none)
    ⟨fun h p hle hlt => by
      have hp := h (p - first) (by omega)
      rwa [Nat.add_sub_cancel' hle] at hp,
    fun h k hk => h _ (Nat.le_add_right _ _) (Nat.add_lt_add_left hk _)⟩

variable {T : Table} {m m' : Area} {p : ℕ} {f : Frame}

theorem Has.apply (h : T.Has m) (hp : m.Covers p) : T p = some (m.frame p) :=
  ((h p (m.frame p)).mpr ⟨hp, rfl⟩).1

theorem Has.covers (h : T.Has m) (hp : T p = some f)
    (hf : f.mapping = m.mapping) : m.Covers p :=
  ((h p f).mp ⟨hp, hf⟩).1

/-! ## Adding a mapping -/

theorem map_of_covers (hp : m.Covers p) : T.map m p = some (m.frame p) :=
  if_pos hp

theorem map_of_not_covers (hp : ¬ m.Covers p) : T.map m p = T p :=
  if_neg hp

/-- Pages that are not mapped stay free. -/
theorem Free.map {first pages : ℕ} (h : T.Free first pages)
    (hapart : first + pages ≤ m.first ∨ m.first + m.pages ≤ first) :
    (T.map m).Free first pages := by
  intro p hle hlt
  have hp : ¬ m.Covers p := by
    rw [Area.Covers]
    omega
  rw [map_of_not_covers hp]
  exact h p hle hlt

/-- The new mapping is there, if its number is a new one. -/
theorem has_map (hnew : ∀ p f, T p = some f → f.mapping ≠ m.mapping) :
    (T.map m).Has m := by
  intro p f
  by_cases hp : m.Covers p
  · rw [map_of_covers hp]
    constructor
    · rintro ⟨hf, -⟩
      exact ⟨hp, (Option.some.inj hf).symm⟩
    · rintro ⟨-, rfl⟩
      exact ⟨rfl, rfl⟩
  · rw [map_of_not_covers hp]
    constructor
    · rintro ⟨hf, hmapping⟩
      exact absurd hmapping (hnew p f hf)
    · rintro ⟨hcovers, -⟩
      exact absurd hcovers hp

/-- Other mappings stay as they are, if the pages were free. -/
theorem Has.map (h : T.Has m') (hne : m'.mapping ≠ m.mapping)
    (hfree : T.Free m.first m.pages) : (T.map m).Has m' := by
  intro p f
  by_cases hp : m.Covers p
  · rw [map_of_covers hp]
    constructor
    · rintro ⟨hf, hmapping⟩
      obtain rfl := Option.some.inj hf
      exact absurd hmapping hne.symm
    · rintro ⟨hcovers, -⟩
      have hnone := hfree p hp.1 hp.2
      rw [h.apply hcovers] at hnone
      exact absurd hnone (Option.some_ne_none _)
  · rw [map_of_not_covers hp]
    exact h p f

/-! ## Removing a mapping -/

theorem unmap_eq_some_iff {first pages : ℕ} :
    T.unmap first pages p = some f ↔
      T p = some f ∧ ¬ (first ≤ p ∧ p < first + pages) := by
  rw [unmap, ite_eq_iff, and_comm (a := T p = some f)]
  constructor
  · rintro (⟨-, hnone⟩ | hsome)
    · exact absurd hnone (Option.some_ne_none f).symm
    · exact hsome
  · exact Or.inr

theorem drop_eq_some_iff {mapping : Option ℕ} :
    T.drop mapping p = some f ↔ T p = some f ∧ mapping ≠ some f.mapping := by
  rw [drop, Option.filter_eq_some_iff, decide_eq_true_iff]

theorem drop_none : T.drop none = T := by
  funext p
  ext f
  rw [drop_eq_some_iff, and_iff_left (Option.some_ne_none _).symm]

/-- To remove the pages of an area is to remove its mapping. -/
theorem Has.unmap_eq_drop (h : T.Has m) :
    T.unmap m.first m.pages = T.drop (some m.mapping) := by
  funext p
  ext f
  rw [unmap_eq_some_iff, drop_eq_some_iff]
  refine and_congr_right fun hf => not_congr ?_
  constructor
  · intro hcovers
    rw [h.apply hcovers] at hf
    obtain rfl := Option.some.inj hf
    rfl
  · intro hmapping
    exact h.covers hf (Option.some.inj hmapping).symm

/-- Other mappings stay as they are. -/
theorem Has.drop (h : T.Has m) {mapping : Option ℕ}
    (hne : mapping ≠ some m.mapping) : (T.drop mapping).Has m := by
  intro p f
  rw [drop_eq_some_iff, ← h p f]
  constructor
  · rintro ⟨⟨hf, -⟩, hmapping⟩
    exact ⟨hf, hmapping⟩
  · rintro ⟨hf, hmapping⟩
    exact ⟨⟨hf, hmapping ▸ hne⟩, hmapping⟩

/-! ## Addresses -/

variable {pageSize addr n : ℕ}

/-- An address in the area leads to the same place in the target. -/
theorem Has.byteAt (h : T.Has m) (hsize : 0 < pageSize) {k : ℕ}
    (hk : k < m.pages * pageSize) :
    T.byteAt pageSize (m.first * pageSize + k) =
      some (m.mapping, m.target * pageSize + k) := by
  have hpage : (m.first * pageSize + k) / pageSize =
      m.first + k / pageSize := by
    rw [Nat.add_comm, Nat.add_mul_div_right _ _ hsize, Nat.add_comm]
  have hcovers : m.Covers (m.first + k / pageSize) :=
    ⟨Nat.le_add_right _ _,
      Nat.add_lt_add_left ((Nat.div_lt_iff_lt_mul hsize).mpr hk) _⟩
  rw [Table.byteAt, hpage, h.apply hcovers, Nat.mul_add_mod_self_right]
  have htarget : (m.target + (m.first + k / pageSize - m.first)) * pageSize +
      k % pageSize = m.target * pageSize + k := by
    rw [Nat.add_sub_cancel_left, Nat.add_mul, Nat.add_assoc,
      Nat.div_add_mod']
  exact congrArg (fun addr => some (m.mapping, addr)) htarget

/-- No address behind the area is in the mapping. -/
theorem Has.byteAt_ne (h : T.Has m) (hsize : 0 < pageSize)
    (haddr : (m.first + m.pages) * pageSize ≤ addr) (target : ℕ) :
    T.byteAt pageSize addr ≠ some (m.mapping, target) := by
  intro hbyte
  obtain ⟨f, hf, heq⟩ := Option.map_eq_some_iff.mp hbyte
  have hcovers := h.covers hf (congrArg Prod.fst heq)
  have hge := (Nat.le_div_iff_mul_le hsize).mpr haddr
  exact absurd hcovers.2 (Nat.not_lt.mpr hge)

/-- All addresses from one on are in the mapping exactly if they do not go
beyond the end of its area. -/
theorem Has.byteAt_iff (h : T.Has m) (hsize : 0 < pageSize) {k : ℕ}
    (hk : k < m.pages * pageSize) :
    (∀ i < n, T.byteAt pageSize (m.first * pageSize + k + i) =
        some (m.mapping, m.target * pageSize + k + i)) ↔
      k + n ≤ m.pages * pageSize := by
  constructor
  · intro hall
    by_contra hgt
    -- the first address behind the area
    refine h.byteAt_ne hsize ?_ _ (hall (m.pages * pageSize - k) (by omega))
    rw [Nat.add_mul]
    omega
  · intro hle i hi
    rw [Nat.add_assoc, Nat.add_assoc]
    exact h.byteAt hsize (by omega)

end Table

end Paging
