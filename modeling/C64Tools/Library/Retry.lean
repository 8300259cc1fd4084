import Mathlib.Tactic.Common

/-!
# Bounded retries

A loop that tries something until the outcome is final, or until it has tried
often enough.  The outcome and the number of tries are known when it is left.
-/

namespace Retry

variable {ρ : Type*} (again : ρ → Prop) [DecidablePred again] (limit : ℕ)
  (op : ℕ → ρ)

/-- Do a try, and go on as long as the outcome asks for another one and the
count is below the limit. -/
def doWhile (count : ℕ) : ρ × ℕ :=
  if again (op count) ∧ count + 1 < limit then doWhile (count + 1)
  else (op count, count + 1)
termination_by limit - count

/-- The loop stops at the first final outcome, or at the limit. -/
theorem doWhile_spec (count : ℕ) :
    count < (doWhile again limit op count).2 ∧
      (doWhile again limit op count).1 =
        op ((doWhile again limit op count).2 - 1) ∧
      (∀ i, count ≤ i → i + 1 < (doWhile again limit op count).2 →
        again (op i) ∧ i + 1 < limit) ∧
      ((doWhile again limit op count).2 < limit →
        ¬ again (doWhile again limit op count).1) := by
  fun_induction doWhile again limit op count with
  | case1 count hgo ih =>
      obtain ⟨hlt, hlast, hbefore, hfinal⟩ := ih
      refine ⟨by omega, hlast, ?_, hfinal⟩
      intro i hi hi'
      obtain rfl | hne := eq_or_ne i count
      · exact hgo
      · exact hbefore i (by omega) hi'
  | case2 count hstop =>
      refine ⟨Nat.lt_succ_self count, rfl, fun i hi hi' => by omega, ?_⟩
      intro hlt hagain
      exact hstop ⟨hagain, hlt⟩

variable {again limit op}

theorem doWhile_le (hlimit : 0 < limit) :
    (doWhile again limit op 0).2 ≤ limit := by
  obtain ⟨hpos, -, hbefore, -⟩ := doWhile_spec again limit op 0
  by_contra hgt
  have hi := (hbefore (limit - 1) (Nat.zero_le _) (by omega)).2
  omega

/-- The loop stops at the first final outcome. -/
theorem doWhile_of_first {n : ℕ} (hn : n < limit)
    (hbefore : ∀ i < n, again (op i)) (hfinal : ¬ again (op n)) :
    doWhile again limit op 0 = (op n, n + 1) := by
  obtain ⟨hpos, hlast, hagain, hstop⟩ := doWhile_spec again limit op 0
  have hcount : (doWhile again limit op 0).2 = n + 1 := by
    obtain hlt | hcount | hgt := Nat.lt_trichotomy
      (doWhile again limit op 0).2 (n + 1)
    · have hnot := hstop (by omega)
      rw [hlast] at hnot
      exact absurd (hbefore _ (by omega)) hnot
    · exact hcount
    · exact absurd (hagain n (Nat.zero_le n) hgt).1 hfinal
  refine Prod.ext ?_ hcount
  rw [hlast, hcount, Nat.add_sub_cancel]

/-- The outcome is final if any of the permitted tries has a final one. -/
theorem not_again_doWhile_iff (hlimit : 0 < limit) :
    ¬ again (doWhile again limit op 0).1 ↔
      ∃ n < limit, ¬ again (op n) := by
  obtain ⟨hpos, hlast, hbefore, hfinal⟩ := doWhile_spec again limit op 0
  have hle : (doWhile again limit op 0).2 ≤ limit := doWhile_le hlimit
  constructor
  · intro h
    rw [hlast] at h
    exact ⟨_, by omega, h⟩
  · rintro ⟨n, hn, h⟩
    obtain hlt | hcount := Nat.lt_or_eq_of_le hle
    · exact hfinal hlt
    · have hlast' : n = (doWhile again limit op 0).2 - 1 := by
        by_contra hne
        exact h (hbefore n (Nat.zero_le n) (by omega)).1
      rw [hlast, ← hlast']
      exact h

/-- A try that was made had a good outcome if and only if the last one had,
since a good outcome is final. -/
theorem exists_doWhile_iff (good : ρ → Prop)
    (hgood : ∀ r, good r → ¬ again r) :
    (∃ i < (doWhile again limit op 0).2, good (op i)) ↔
      good (doWhile again limit op 0).1 := by
  obtain ⟨hpos, hlast, hbefore, -⟩ := doWhile_spec again limit op 0
  constructor
  · rintro ⟨i, hi, hi'⟩
    by_cases hend : i + 1 < (doWhile again limit op 0).2
    · exact absurd (hbefore i (Nat.zero_le i) hend).1 (hgood _ hi')
    · have hi : i = (doWhile again limit op 0).2 - 1 := by omega
      rw [hlast, ← hi]
      exact hi'
  · intro h
    rw [hlast] at h
    exact ⟨_, by omega, h⟩

/-- The last permitted try is made, with a good outcome, if all tries before it
ask for another one. -/
theorem doWhile_eq_limit_iff (good : ρ → Prop) (hlimit : 0 < limit) :
    (doWhile again limit op 0).2 = limit ∧ good (doWhile again limit op 0).1 ↔
      (∀ i < limit - 1, again (op i)) ∧ good (op (limit - 1)) := by
  obtain ⟨hpos, hlast, hbefore, hfinal⟩ := doWhile_spec again limit op 0
  constructor
  · rintro ⟨hcount, h⟩
    rw [hlast, hcount] at h
    exact ⟨fun i hi => (hbefore i (Nat.zero_le i) (by omega)).1, h⟩
  · rintro ⟨hagain, h⟩
    have hle : (doWhile again limit op 0).2 ≤ limit := doWhile_le hlimit
    have hcount : (doWhile again limit op 0).2 = limit := by
      by_contra hne
      have hlt := Nat.lt_of_le_of_ne hle hne
      have hnot := hfinal hlt
      rw [hlast] at hnot
      exact hnot (hagain _ (by omega))
    rw [hlast, hcount]
    exact ⟨rfl, h⟩

end Retry
