import Mathlib.Data.List.Basic
import Mathlib.Logic.Function.Basic

/-!
# Ring buffers

A ring of `n` cells is the first `n` cells of a memory, with the first cell
coming after the last one.  A window is what is found in some cells from a
position on.  Items that are stored behind a window become its end.
-/

namespace RingBuffer

variable {α : Type*}

/-- A position that may have left the ring, taken back into it. -/
def wrap (n i : ℕ) : ℕ := if n ≤ i then i - n else i

/-- How many cells come before the second position, from the first one on. -/
def distance (n i j : ℕ) : ℕ := if i ≤ j then j - i else j + n - i

/-- Write some items to consecutive cells. -/
def store (cells : ℕ → α) (i : ℕ) : List α → ℕ → α
  | [] => cells
  | x :: xs => store (Function.update cells i x) (i + 1) xs

/-- Write some items, going on in the first cell after the last one. -/
def storeWrapped (n : ℕ) (cells : ℕ → α) (i : ℕ) (xs : List α) : ℕ → α :=
  if n < i + xs.length then
    store (store cells i (xs.take (n - i))) 0 (xs.drop (n - i))
  else store cells i xs

/-- The items in some cells from a position on. -/
def window (n : ℕ) (cells : ℕ → α) (i : ℕ) : ℕ → List α
  | 0 => []
  | m + 1 => cells i :: window n cells (wrap n (i + 1)) m

variable {n i j k m : ℕ} {cells : ℕ → α} {xs : List α}

/-! ## Positions -/

theorem wrap_of_lt (hi : i < n) : wrap n i = i :=
  if_neg (by omega)

theorem wrap_lt (hi : i < n) (hk : k ≤ n) : wrap n (i + k) < n := by
  unfold wrap
  split_ifs <;> omega

theorem wrap_eq_mod (hi : i < n) (hk : k ≤ n) :
    wrap n (i + k) = (i + k) % n := by
  unfold wrap
  split_ifs with hle
  · rw [Nat.mod_eq_sub_mod hle, Nat.mod_eq_of_lt (by omega)]
  · exact (Nat.mod_eq_of_lt (Nat.lt_of_not_le hle)).symm

theorem wrap_wrap_add (hi : i < n) (h : j + k ≤ n) :
    wrap n (wrap n (i + j) + k) = wrap n (i + (j + k)) := by
  unfold wrap
  split_ifs <;> omega

/-- Going from the end of some cells round to one of them. -/
theorem wrap_wrap_add_sub (hi : i < n) (hk : k < m) (hm : m ≤ n) :
    wrap n (wrap n (i + m) + (n - m + k)) = wrap n (i + k) := by
  unfold wrap
  split_ifs <;> omega

theorem wrap_add_inj (hj : j < n) (hk : k < n) :
    wrap n (i + j) = wrap n (i + k) ↔ j = k := by
  unfold wrap
  split_ifs <;> omega

theorem wrap_add_distance (hi : i < n) (hj : j < n) :
    wrap n (i + distance n i j) = j := by
  unfold wrap distance
  split_ifs <;> omega

theorem distance_lt (hi : i < n) (hj : j < n) : distance n i j < n := by
  unfold distance
  split_ifs <;> omega

theorem distance_wrap_add (hi : i < n) (hk : k < n) :
    distance n i (wrap n (i + k)) = k := by
  unfold wrap distance
  split_ifs <;> omega

/-! ## Storing -/

theorem store_apply :
    store cells i xs j =
      if i ≤ j then xs[j - i]?.getD (cells j) else cells j := by
  induction xs generalizing cells i with
  | nil => simp [store]
  | cons x xs ih =>
      rw [store, ih]
      obtain hlt | rfl | hgt := Nat.lt_trichotomy i j
      · obtain ⟨d, rfl⟩ := Nat.exists_eq_add_of_lt hlt
        have hne : i + d + 1 ≠ i := by omega
        rw [Function.update_of_ne hne, if_pos (by omega), if_pos (by omega),
          show i + d + 1 - (i + 1) = d by omega,
          show i + d + 1 - i = d + 1 by omega, List.getElem?_cons_succ]
      · rw [if_neg (by omega), if_pos (Nat.le_refl _), Function.update_self, Nat.sub_self]
        rfl
      · rw [if_neg (by omega), if_neg (by omega),
          Function.update_of_ne (Nat.ne_of_lt hgt)]

/-- Every item gets to its cell, on whichever side of the end that is, and
the cells behind the items are not written. -/
theorem storeWrapped_apply (hi : i < n) (hxs : xs.length ≤ n) (hk : k < n) :
    storeWrapped n cells i xs (wrap n (i + k)) =
      xs[k]?.getD (cells (wrap n (i + k))) := by
  unfold storeWrapped
  split_ifs with hlong
  · rw [store_apply, if_pos (Nat.zero_le _), Nat.sub_zero, store_apply,
      List.getElem?_drop]
    by_cases hwrap : n ≤ i + k
    · have hlow : wrap n (i + k) = i + k - n := if_pos hwrap
      rw [hlow, if_neg (by omega), show n - i + (i + k - n) = k by omega]
    · have hhigh : wrap n (i + k) = i + k := wrap_of_lt (by omega)
      have hout : xs[n - i + (i + k)]? = none :=
        List.getElem?_eq_none (by omega)
      rw [hhigh, hout, if_pos (by omega), Option.getD_none,
        Nat.add_sub_cancel_left, List.getElem?_take_of_lt (by omega)]
  · rw [store_apply]
    by_cases hwrap : n ≤ i + k
    · have hlow : wrap n (i + k) = i + k - n := if_pos hwrap
      rw [hlow, if_neg (by omega), List.getElem?_eq_none (by omega),
        Option.getD_none]
    · have hhigh : wrap n (i + k) = i + k := wrap_of_lt (by omega)
      rw [hhigh, if_pos (by omega), Nat.add_sub_cancel_left]

/-- No cell outside of the ring is written. -/
theorem storeWrapped_of_le (hi : i < n) (hxs : xs.length ≤ n) (hj : n ≤ j) :
    storeWrapped n cells i xs j = cells j := by
  unfold storeWrapped
  split_ifs with hlong
  · rw [store_apply, if_pos (Nat.zero_le _),
      List.getElem?_eq_none (by rw [List.length_drop]; omega),
      Option.getD_none, store_apply, if_pos (by omega),
      List.getElem?_eq_none (by rw [List.length_take]; omega),
      Option.getD_none]
  · rw [store_apply, if_pos (by omega), List.getElem?_eq_none (by omega),
      Option.getD_none]

/-! ## Windows -/

@[simp]
theorem length_window : (window n cells i m).length = m := by
  induction m generalizing i with
  | zero => rfl
  | succ m ih => rw [window, List.length_cons, ih]

theorem getElem_window (hi : i < n) (hm : m ≤ n)
    (hk : k < (window n cells i m).length) :
    (window n cells i m)[k] = cells (wrap n (i + k)) := by
  induction m generalizing i k with
  | zero => cases hk
  | succ m ih =>
      cases k with
      | zero => exact congrArg cells (wrap_of_lt hi).symm
      | succ k =>
          have hkm : k < m := by simpa using hk
          have hnext : wrap n (wrap n (i + 1) + k) = wrap n (i + (k + 1)) := by
            rw [wrap_wrap_add hi (by omega), Nat.add_comm 1 k]
          rw [← hnext]
          exact ih (wrap_lt hi (by omega)) (by omega) (by simpa using hkm)

/-- A window depends on its own cells only. -/
theorem window_congr {cells' : ℕ → α} (hi : i < n) (hm : m ≤ n)
    (h : ∀ k < m, cells (wrap n (i + k)) = cells' (wrap n (i + k))) :
    window n cells i m = window n cells' i m := by
  refine List.ext_getElem (by simp) fun k hk hk' => ?_
  rw [getElem_window hi hm, getElem_window hi hm]
  rw [length_window] at hk
  exact h k hk

theorem window_add (hi : i < n) (h : m + k ≤ n) :
    window n cells i (m + k) =
      window n cells i m ++ window n cells (wrap n (i + m)) k := by
  induction m generalizing i with
  | zero => rw [Nat.zero_add, Nat.add_zero, wrap_of_lt hi]; rfl
  | succ m ih =>
      rw [Nat.add_right_comm, window, window, ih (wrap_lt hi (by omega))
        (by omega), wrap_wrap_add hi (by omega), List.cons_append,
        Nat.add_comm 1 m]

/-- Another item in a cell outside of a window. -/
theorem window_update (hi : i < n) (hmk : m ≤ k) (hk : k < n) (x : α) :
    window n (Function.update cells (wrap n (i + k)) x) i m =
      window n cells i m := by
  refine window_congr hi (by omega) fun l hl => Function.update_of_ne ?_ _ _
  rw [ne_eq, wrap_add_inj (by omega) hk]
  omega

/-- Items stored behind a window. -/
theorem window_storeWrapped (hi : i < n) (h : m + xs.length ≤ n) :
    window n (storeWrapped n cells (wrap n (i + m)) xs) i (m + xs.length) =
      window n cells i m ++ xs := by
  have hend : ∀ {k}, k < n → storeWrapped n cells (wrap n (i + m)) xs
      (wrap n (wrap n (i + m) + k)) =
        xs[k]?.getD (cells (wrap n (wrap n (i + m) + k))) :=
    fun hk => storeWrapped_apply (wrap_lt hi (by omega)) (by omega) hk
  rw [window_add hi h]
  congr 1
  · refine window_congr hi (by omega) fun k hk => ?_
    rw [← wrap_wrap_add_sub hi hk (by omega), hend (by omega),
      List.getElem?_eq_none (by omega), Option.getD_none]
  · refine List.ext_getElem (by simp) fun k hk hk' => ?_
    rw [getElem_window (wrap_lt hi (by omega)) (by omega), hend (by omega),
      List.getElem?_eq_getElem hk', Option.getD_some]

end RingBuffer
