import Mathlib.Algebra.Group.Action.Defs
import Mathlib.Algebra.Order.BigOperators.Group.List
import Mathlib.Algebra.Order.Ring.Nat
import Mathlib.Data.Finset.Card
import Mathlib.Order.Interval.Finset.Nat

/-!
# Blocks that lie apart

Blocks of consecutive addresses.  Blocks that lie apart from each other take up
no more than the addresses that there are, so that there is a bound on how many
blocks of some size there can be.
-/

namespace Blocks

/-- The addresses from `base` on. -/
structure Block where
  base : ℕ
  size : ℕ
  deriving DecidableEq, Repr

/-- One block ends before the other one starts. -/
def Block.Apart (b c : Block) : Prop :=
  b.base + b.size ≤ c.base ∨ c.base + c.size ≤ b.base

instance (b c : Block) : Decidable (b.Apart c) :=
  inferInstanceAs (Decidable (_ ∨ _))

theorem Block.Apart.symm {b c : Block} (h : b.Apart c) : c.Apart b :=
  Or.symm h

variable {blocks : List Block} {n k : ℕ}

/-- The addresses in some blocks that lie apart. -/
theorem exists_addresses (h : blocks.Pairwise Block.Apart) :
    ∃ s : Finset ℕ, s.card = (blocks.map Block.size).sum ∧
      ∀ x, x ∈ s ↔ ∃ b ∈ blocks, b.base ≤ x ∧ x < b.base + b.size := by
  induction blocks with
  | nil => exact ⟨∅, rfl, fun x => by simp⟩
  | cons b blocks ih =>
      obtain ⟨hb, hrest⟩ := List.pairwise_cons.mp h
      obtain ⟨s, hcard, hmem⟩ := ih hrest
      have hdisjoint : Disjoint (Finset.Ico b.base (b.base + b.size)) s := by
        rw [Finset.disjoint_left]
        intro x hx hxs
        obtain ⟨c, hc, hlow, hhigh⟩ := (hmem x).mp hxs
        rw [Finset.mem_Ico] at hx
        obtain h | h := hb c hc <;> omega
      refine ⟨Finset.Ico b.base (b.base + b.size) ∪ s, ?_, fun x => ?_⟩
      · rw [Finset.card_union_of_disjoint hdisjoint, Nat.card_Ico,
          Nat.add_sub_cancel_left, hcard, List.map_cons, List.sum_cons]
      · rw [Finset.mem_union, Finset.mem_Ico, hmem, List.exists_mem_cons_iff]

/-- Blocks that lie apart have room in the address space. -/
theorem sum_size_le (h : blocks.Pairwise Block.Apart)
    (hn : ∀ b ∈ blocks, b.base + b.size ≤ n) :
    (blocks.map Block.size).sum ≤ n := by
  obtain ⟨s, hcard, hmem⟩ := exists_addresses h
  have hsub : s ⊆ Finset.range n := by
    intro x hx
    obtain ⟨b, hb, -, hhigh⟩ := (hmem x).mp hx
    exact Finset.mem_range.mpr (Nat.lt_of_lt_of_le hhigh (hn b hb))
  calc (blocks.map Block.size).sum = s.card := hcard.symm
    _ ≤ (Finset.range n).card := Finset.card_le_card hsub
    _ = n := Finset.card_range n

/-- There are not too many blocks of some size. -/
theorem length_mul_le (h : blocks.Pairwise Block.Apart)
    (hn : ∀ b ∈ blocks, b.base + b.size ≤ n)
    (hk : ∀ b ∈ blocks, k ≤ b.size) : blocks.length * k ≤ n := by
  have hsum := List.card_nsmul_le_sum (blocks.map Block.size) k fun m hm => by
    obtain ⟨b, hb, rfl⟩ := List.mem_map.mp hm
    exact hk b hb
  rw [List.length_map, smul_eq_mul] at hsum
  exact hsum.trans (sum_size_le h hn)

end Blocks
