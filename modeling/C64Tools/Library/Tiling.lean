import Mathlib.Data.List.Chain
import Mathlib.Tactic.Common

/-!
# Rows of plots

A row of cells is divided into consecutive plots.  A plot is vacant or has a
tenant.  Two edits are enough for an allocator: the front part of a vacant
plot is let to a tenant, and a tenant's plot becomes vacant again and is
joined with the vacant plots next to it.  Both edits keep the number of
cells, keep every other tenant in place, and keep the row free of two
neighbouring vacant plots.
-/

namespace Tiling

variable {ω : Type*}

/-- A positive number of consecutive cells, vacant or let to a tenant. -/
structure Plot (ω : Type*) where
  size : ℕ
  tenant : Option ω
  size_pos : 0 < size

/-- Number of cells of a row. -/
def span : List (Plot ω) → ℕ
  | [] => 0
  | p :: row => p.size + span row

@[simp] theorem span_nil : span ([] : List (Plot ω)) = 0 := rfl

@[simp] theorem span_cons (p : Plot ω) (row : List (Plot ω)) :
    span (p :: row) = p.size + span row := rfl

@[simp] theorem span_append (row rest : List (Plot ω)) :
    span (row ++ rest) = span row + span rest := by
  induction row with
  | nil => simp
  | cons p row ih => simp [ih, Nat.add_assoc]

/-! ## The plot that starts at a cell -/

/-- `p` is a plot of the row and starts at cell `off`. -/
inductive PlotAt : List (Plot ω) → ℕ → Plot ω → Prop
  | here (p : Plot ω) (row : List (Plot ω)) : PlotAt (p :: row) 0 p
  | there {row : List (Plot ω)} {off : ℕ} {q : Plot ω} (p : Plot ω) :
      PlotAt row off q → PlotAt (p :: row) (p.size + off) q

theorem not_plotAt_nil {off : ℕ} {q : Plot ω} : ¬PlotAt [] off q := by
  rintro ⟨⟩

theorem plotAt_cons {p q : Plot ω} {row : List (Plot ω)} {off : ℕ} :
    PlotAt (p :: row) off q ↔
      (off = 0 ∧ q = p) ∨ ∃ k, off = p.size + k ∧ PlotAt row k q := by
  constructor
  · rintro (_ | ⟨_, h⟩)
    · exact Or.inl ⟨rfl, rfl⟩
    · exact Or.inr ⟨_, rfl, h⟩
  · rintro (⟨rfl, rfl⟩ | ⟨k, rfl, h⟩)
    · exact PlotAt.here _ _
    · exact PlotAt.there _ h

theorem plotAt_append {row rest : List (Plot ω)} {off : ℕ} {q : Plot ω} :
    PlotAt (row ++ rest) off q ↔
      PlotAt row off q ∨ ∃ k, off = span row + k ∧ PlotAt rest k q := by
  induction row generalizing off with
  | nil => simp [not_plotAt_nil]
  | cons p row ih =>
      simp only [List.cons_append, plotAt_cons, ih, span_cons]
      constructor
      · rintro (h | ⟨k, rfl, h | ⟨j, rfl, h⟩⟩)
        · exact Or.inl (Or.inl h)
        · exact Or.inl (Or.inr ⟨k, rfl, h⟩)
        · exact Or.inr ⟨j, by omega, h⟩
      · rintro ((h | ⟨k, rfl, h⟩) | ⟨j, rfl, h⟩)
        · exact Or.inl h
        · exact Or.inr ⟨k, rfl, Or.inl h⟩
        · exact Or.inr ⟨span row + j, by omega, Or.inr ⟨j, rfl, h⟩⟩

/-- A plot splits its row into the plots before it and those behind it. -/
theorem PlotAt.split {row : List (Plot ω)} {off : ℕ} {q : Plot ω}
    (h : PlotAt row off q) :
    ∃ before after, row = before ++ q :: after ∧ off = span before := by
  induction h with
  | here p row => exact ⟨[], row, rfl, rfl⟩
  | there p _ ih =>
      obtain ⟨before, after, rfl, rfl⟩ := ih
      exact ⟨p :: before, after, rfl, rfl⟩

theorem plotAt_middle (before : List (Plot ω)) (q : Plot ω)
    (after : List (Plot ω)) :
    PlotAt (before ++ q :: after) (span before) q :=
  plotAt_append.mpr (Or.inr ⟨0, rfl, PlotAt.here q after⟩)

theorem PlotAt.le_span {row : List (Plot ω)} {off : ℕ} {q : Plot ω}
    (h : PlotAt row off q) : off + q.size ≤ span row := by
  obtain ⟨before, after, rfl, rfl⟩ := h.split
  rw [span_append, span_cons]
  omega

theorem PlotAt.mem {row : List (Plot ω)} {off : ℕ} {q : Plot ω}
    (h : PlotAt row off q) : q ∈ row := by
  obtain ⟨before, after, rfl, -⟩ := h.split
  simp

/-- Two plots of a row are the same plot, or one ends before the other
starts. -/
theorem PlotAt.eq_or_disjoint {row : List (Plot ω)} {i j : ℕ} {p q : Plot ω}
    (hp : PlotAt row i p) (hq : PlotAt row j q) :
    (i = j ∧ p = q) ∨ i + p.size ≤ j ∨ j + q.size ≤ i := by
  induction hp generalizing j q with
  | here p row =>
      rcases plotAt_cons.mp hq with ⟨rfl, rfl⟩ | ⟨k, rfl, -⟩
      · exact Or.inl ⟨rfl, rfl⟩
      · exact Or.inr (Or.inl (by omega))
  | there p h ih =>
      rcases plotAt_cons.mp hq with ⟨rfl, rfl⟩ | ⟨k, rfl, hk⟩
      · exact Or.inr (Or.inr (by omega))
      · rcases ih hk with ⟨rfl, rfl⟩ | h | h
        · exact Or.inl ⟨rfl, rfl⟩
        · exact Or.inr (Or.inl (by omega))
        · exact Or.inr (Or.inr (by omega))

theorem PlotAt.unique {row : List (Plot ω)} {i : ℕ} {p q : Plot ω}
    (hp : PlotAt row i p) (hq : PlotAt row i q) : p = q := by
  rcases hp.eq_or_disjoint hq with h | h | h
  · exact h.2
  · exact absurd p.size_pos (by omega)
  · exact absurd q.size_pos (by omega)

/-- Every cell of a row lies in one of its plots. -/
theorem exists_plotAt_cover {row : List (Plot ω)} {i : ℕ}
    (hi : i < span row) :
    ∃ off q, PlotAt row off q ∧ off ≤ i ∧ i < off + q.size := by
  induction row generalizing i with
  | nil => simp at hi
  | cons p row ih =>
      rw [span_cons] at hi
      rcases Nat.lt_or_ge i p.size with h | h
      · exact ⟨0, p, PlotAt.here p row, Nat.zero_le i, by omega⟩
      · obtain ⟨off, q, hq, hle, hlt⟩ := ih (i := i - p.size) (by omega)
        exact ⟨p.size + off, q, PlotAt.there p hq, by omega, by omega⟩

/-- Behind a plot the row ends or the next plot starts. -/
theorem PlotAt.next {row : List (Plot ω)} {off : ℕ} {p : Plot ω}
    (h : PlotAt row off p) :
    off + p.size = span row ∨ ∃ q, PlotAt row (off + p.size) q := by
  obtain ⟨before, after, rfl, rfl⟩ := h.split
  cases after with
  | nil => exact Or.inl (by simp)
  | cons q after =>
      refine Or.inr ⟨q, ?_⟩
      have hq := plotAt_middle (before ++ [p]) q after
      simpa using hq

/-! ## Tenants -/

/-- Tenant `c` holds the `n` cells from `off` on. -/
def Holds (row : List (Plot ω)) (c : ω) (off n : ℕ) : Prop :=
  ∃ p, PlotAt row off p ∧ p.tenant = some c ∧ p.size = n

theorem holds_append {row rest : List (Plot ω)} {c : ω} {off n : ℕ} :
    Holds (row ++ rest) c off n ↔
      Holds row c off n ∨ ∃ k, off = span row + k ∧ Holds rest c k n := by
  constructor
  · rintro ⟨p, hp, hc, hn⟩
    rcases plotAt_append.mp hp with h | ⟨k, rfl, h⟩
    · exact Or.inl ⟨p, h, hc, hn⟩
    · exact Or.inr ⟨k, rfl, p, h, hc, hn⟩
  · rintro (⟨p, hp, hc, hn⟩ | ⟨k, rfl, p, hp, hc, hn⟩)
    · exact ⟨p, plotAt_append.mpr (Or.inl hp), hc, hn⟩
    · exact ⟨p, plotAt_append.mpr (Or.inr ⟨k, rfl, hp⟩), hc, hn⟩

theorem holds_cons {p : Plot ω} {row : List (Plot ω)} {c : ω} {off n : ℕ} :
    Holds (p :: row) c off n ↔
      (off = 0 ∧ p.tenant = some c ∧ p.size = n) ∨
        ∃ k, off = p.size + k ∧ Holds row c k n := by
  constructor
  · rintro ⟨q, hq, hc, hn⟩
    rcases plotAt_cons.mp hq with ⟨rfl, rfl⟩ | ⟨k, rfl, h⟩
    · exact Or.inl ⟨rfl, hc, hn⟩
    · exact Or.inr ⟨k, rfl, q, h, hc, hn⟩
  · rintro (⟨rfl, hc, hn⟩ | ⟨k, rfl, q, hq, hc, hn⟩)
    · exact ⟨p, PlotAt.here p row, hc, hn⟩
    · exact ⟨q, PlotAt.there p hq, hc, hn⟩

theorem Holds.pos {row : List (Plot ω)} {c : ω} {off n : ℕ}
    (h : Holds row c off n) : 0 < n := by
  obtain ⟨p, -, -, rfl⟩ := h
  exact p.size_pos

theorem Holds.le_span {row : List (Plot ω)} {c : ω} {off n : ℕ}
    (h : Holds row c off n) : off + n ≤ span row := by
  obtain ⟨p, hp, -, rfl⟩ := h
  exact hp.le_span

/-- What two tenants hold is disjoint, unless it is the same plot. -/
theorem Holds.eq_or_disjoint {row : List (Plot ω)} {c d : ω} {i j m n : ℕ}
    (hc : Holds row c i m) (hd : Holds row d j n) :
    (i = j ∧ m = n ∧ c = d) ∨ i + m ≤ j ∨ j + n ≤ i := by
  obtain ⟨p, hp, hpc, rfl⟩ := hc
  obtain ⟨q, hq, hqd, rfl⟩ := hd
  rcases hp.eq_or_disjoint hq with ⟨rfl, rfl⟩ | h
  · exact Or.inl ⟨rfl, rfl, Option.some.inj (hpc.symm.trans hqd)⟩
  · exact Or.inr h

/-! ## Coalesced rows -/

/-- The two plots are not both vacant. -/
def Apart (p q : Plot ω) : Prop := p.tenant = none → q.tenant ≠ none

/-- No two neighbouring plots are vacant. -/
def Coalesced (row : List (Plot ω)) : Prop := row.IsChain Apart

/-- A relation between neighbours, stated for the plots of a row. -/
theorem isChain_iff_plotAt {R : Plot ω → Plot ω → Prop}
    {row : List (Plot ω)} :
    row.IsChain R ↔
      ∀ off p q, PlotAt row off p → PlotAt row (off + p.size) q → R p q := by
  induction row with
  | nil => simp [not_plotAt_nil]
  | cons r row ih =>
      constructor
      · intro h off p q hp hq
        rcases plotAt_cons.mp hp with ⟨rfl, rfl⟩ | ⟨k, rfl, hk⟩
        · rcases plotAt_cons.mp hq with ⟨hzero, -⟩ | ⟨k, hk, hq⟩
          · exact absurd p.size_pos (by omega)
          · obtain rfl : k = 0 := by omega
            cases row with
            | nil => exact absurd hq not_plotAt_nil
            | cons s row =>
                rw [hq.unique (PlotAt.here s row)]
                exact (List.isChain_cons_cons.mp h).1
        · rcases plotAt_cons.mp hq with ⟨hzero, -⟩ | ⟨j, hj, hq⟩
          · exact absurd p.size_pos (by omega)
          · obtain rfl : j = k + p.size := by omega
            exact ih.mp (List.IsChain.tail h) k p q hk hq
      · intro h
        have htail : row.IsChain R := ih.mpr fun off p q hp hq =>
          h (r.size + off) p q (PlotAt.there r hp)
            (by rw [Nat.add_assoc]; exact PlotAt.there r hq)
        cases row with
        | nil => exact List.isChain_singleton r
        | cons s row =>
            have hs : PlotAt (r :: s :: row) (0 + r.size) s := by
              rw [Nat.zero_add]
              exact PlotAt.there r (PlotAt.here s row)
            exact List.isChain_cons_cons.mpr
              ⟨h 0 r s (PlotAt.here r _) hs, htail⟩

theorem Coalesced.apart {row : List (Plot ω)} (h : Coalesced row)
    {off : ℕ} {p q : Plot ω} (hp : PlotAt row off p)
    (hq : PlotAt row (off + p.size) q) : Apart p q :=
  isChain_iff_plotAt.mp h off p q hp hq

/-- Put a plot in front of a row, joining it with a vacant first plot when it
is vacant itself. -/
def join (p : Plot ω) : List (Plot ω) → List (Plot ω)
  | [] => [p]
  | q :: row =>
      if p.tenant = none ∧ q.tenant = none then
        ⟨p.size + q.size, none, Nat.add_pos_left p.size_pos q.size⟩ :: row
      else p :: q :: row

theorem join_of_vacant {p q : Plot ω} {row : List (Plot ω)}
    (hp : p.tenant = none) (hq : q.tenant = none) :
    join p (q :: row) =
      ⟨p.size + q.size, none, Nat.add_pos_left p.size_pos q.size⟩ :: row := by
  simp [join, hp, hq]

theorem join_of_apart {p q : Plot ω} {row : List (Plot ω)}
    (h : Apart p q) : join p (q :: row) = p :: q :: row := by
  have hnot : ¬(p.tenant = none ∧ q.tenant = none) := fun hpq => h hpq.1 hpq.2
  simp [join, hnot]

/-- A vacant plot put in front of a row absorbs its first plot or leaves the
row as it is. -/
theorem join_vacant_cases {n : ℕ} (hn : 0 < n) (row : List (Plot ω)) :
    ∃ m, ∃ hm : 0 < m, ∃ row',
      join ⟨n, none, hn⟩ row = ⟨m, none, hm⟩ :: row' ∧
      (row = row' ∨ ∃ q, q.tenant = none ∧ row = q :: row') := by
  cases row with
  | nil => exact ⟨n, hn, [], rfl, Or.inl rfl⟩
  | cons q row =>
      by_cases hq : q.tenant = none
      · exact ⟨_, _, row, join_of_vacant rfl hq, Or.inr ⟨q, hq, rfl⟩⟩
      · exact ⟨n, hn, q :: row, join_of_apart fun _ => hq, Or.inl rfl⟩

@[simp] theorem span_join (p : Plot ω) (row : List (Plot ω)) :
    span (join p row) = p.size + span row := by
  cases row with
  | nil => rfl
  | cons q row =>
      by_cases h : Apart p q
      · rw [join_of_apart h, span_cons]
      · simp only [Apart, Classical.not_imp, not_not] at h
        rw [join_of_vacant h.1 h.2]
        simp [Nat.add_assoc]

theorem holds_join {p : Plot ω} {row : List (Plot ω)} {c : ω} {off n : ℕ} :
    Holds (join p row) c off n ↔ Holds (p :: row) c off n := by
  cases row with
  | nil => rfl
  | cons q row =>
      by_cases h : Apart p q
      · rw [join_of_apart h]
      · simp only [Apart, Classical.not_imp, not_not] at h
        rw [join_of_vacant h.1 h.2]
        simp only [holds_cons, h.1, h.2, reduceCtorEq, false_and, and_false,
          false_or]
        constructor
        · rintro ⟨k, rfl, hk⟩
          exact ⟨q.size + k, by omega, k, rfl, hk⟩
        · rintro ⟨_, rfl, k, rfl, hk⟩
          exact ⟨k, by omega, hk⟩

theorem Coalesced.tail {p : Plot ω} {row : List (Plot ω)}
    (h : Coalesced (p :: row)) : Coalesced row :=
  List.IsChain.tail h

theorem Coalesced.join {p : Plot ω} {row : List (Plot ω)}
    (h : Coalesced row) : Coalesced (join p row) := by
  cases row with
  | nil => exact List.isChain_singleton p
  | cons q row =>
      by_cases hpq : Apart p q
      · rw [join_of_apart hpq]
        exact List.isChain_cons_cons.mpr ⟨hpq, h⟩
      · simp only [Apart, Classical.not_imp, not_not] at hpq
        rw [join_of_vacant hpq.1 hpq.2]
        cases row with
        | nil => exact List.isChain_singleton _
        | cons r row =>
            have hqr := List.isChain_cons_cons.mp h
            exact List.isChain_cons_cons.mpr ⟨fun _ => hqr.1 hpq.2, hqr.2⟩

/-! ## The best fit -/

/-- No vacant plot has `k` cells. -/
def NoFit (row : List (Plot ω)) (k : ℕ) : Prop :=
  ∀ off p, PlotAt row off p → p.tenant = none → p.size < k

/-- `p` at `off` is the smallest vacant plot of at least `k` cells, and the
first one of its size. -/
structure BestFit (row : List (Plot ω)) (k off : ℕ) (p : Plot ω) : Prop where
  plotAt : PlotAt row off p
  vacant : p.tenant = none
  fits : k ≤ p.size
  least : ∀ j q, PlotAt row j q → q.tenant = none → k ≤ q.size →
    p.size < q.size ∨ (p.size = q.size ∧ off ≤ j)

theorem plotAt_concat {row : List (Plot ω)} {off : ℕ} {p q : Plot ω} :
    PlotAt (row ++ [p]) off q ↔
      PlotAt row off q ∨ (off = span row ∧ q = p) := by
  rw [plotAt_append]
  constructor
  · rintro (h | ⟨k, rfl, h⟩)
    · exact Or.inl h
    · rcases plotAt_cons.mp h with ⟨rfl, rfl⟩ | ⟨_, -, h⟩
      · exact Or.inr ⟨rfl, rfl⟩
      · exact absurd h not_plotAt_nil
  · rintro (h | ⟨rfl, rfl⟩)
    · exact Or.inl h
    · exact Or.inr ⟨0, rfl, PlotAt.here q []⟩

theorem NoFit.concat {row : List (Plot ω)} {k : ℕ} {p : Plot ω}
    (h : NoFit row k) (hp : p.tenant = none → p.size < k) :
    NoFit (row ++ [p]) k := by
  intro off q hq hnone
  rcases plotAt_concat.mp hq with hq | ⟨-, rfl⟩
  · exact h off q hq hnone
  · exact hp hnone

/-- The first plot that fits is the best one so far. -/
theorem NoFit.bestFit {row : List (Plot ω)} {k : ℕ} {p : Plot ω}
    (h : NoFit row k) (hp : p.tenant = none) (hk : k ≤ p.size) :
    BestFit (row ++ [p]) k (span row) p where
  plotAt := plotAt_middle row p []
  vacant := hp
  fits := hk
  least := by
    intro j q hq hnone hfits
    rcases plotAt_concat.mp hq with hq | ⟨rfl, rfl⟩
    · exact absurd (h j q hq hnone) (by omega)
    · exact Or.inr ⟨rfl, le_refl _⟩

/-- A plot that is not smaller leaves the best fit as it is. -/
theorem BestFit.concat {row : List (Plot ω)} {k off : ℕ} {p q : Plot ω}
    (h : BestFit row k off p)
    (hq : q.tenant = none → k ≤ q.size → p.size ≤ q.size) :
    BestFit (row ++ [q]) k off p where
  plotAt := plotAt_concat.mpr (Or.inl h.plotAt)
  vacant := h.vacant
  fits := h.fits
  least := by
    intro j r hr hnone hfits
    rcases plotAt_concat.mp hr with hr | ⟨rfl, rfl⟩
    · exact h.least j r hr hnone hfits
    · have hle := hq hnone hfits
      have hoff := h.plotAt.le_span
      omega

/-- A smaller plot becomes the best fit. -/
theorem BestFit.improve {row : List (Plot ω)} {k off : ℕ} {p q : Plot ω}
    (h : BestFit row k off p) (hq : q.tenant = none) (hk : k ≤ q.size)
    (hlt : q.size < p.size) : BestFit (row ++ [q]) k (span row) q where
  plotAt := plotAt_middle row q []
  vacant := hq
  fits := hk
  least := by
    intro j r hr hnone hfits
    rcases plotAt_concat.mp hr with hr | ⟨rfl, rfl⟩
    · rcases h.least j r hr hnone hfits with hle | ⟨heq, -⟩
      · exact Or.inl (by omega)
      · exact Or.inl (by omega)
    · exact Or.inr ⟨rfl, le_refl _⟩

/-! ## Letting the front of a vacant plot -/

/-- The cells left over when the front of a vacant plot has been let. -/
def remainder (n : ℕ) : List (Plot ω) :=
  if h : 0 < n then [⟨n, none, h⟩] else []

@[simp] theorem span_remainder (n : ℕ) :
    span (remainder n : List (Plot ω)) = n := by
  unfold remainder
  split
  · simp
  · simp
    omega

theorem not_holds_remainder {n : ℕ} {c : ω} {off m : ℕ} :
    ¬Holds (remainder n) c off m := by
  unfold remainder
  split
  · rintro ⟨p, hp, hc, -⟩
    rcases plotAt_cons.mp hp with ⟨-, rfl⟩ | ⟨k, -, h⟩
    · simp at hc
    · exact not_plotAt_nil h
  · rintro ⟨p, hp, -⟩
    exact not_plotAt_nil hp

section Lease

variable {before after : List (Plot ω)} {n k : ℕ} {hk : 0 < k}

/-- The tenants after a letting are those from before it and the new one. -/
theorem holds_lease {c d : ω} {j m : ℕ} (hn : 0 < n) (hkn : k ≤ n) :
    Holds (before ++ ⟨k, some c, hk⟩ :: (remainder (n - k) ++ after)) d j m ↔
      Holds (before ++ ⟨n, none, hn⟩ :: after) d j m ∨
        (d = c ∧ j = span before ∧ m = k) := by
  simp only [holds_append, holds_cons, span_remainder, not_holds_remainder,
    reduceCtorEq, Option.some.injEq, false_and, and_false, false_or]
  constructor
  · rintro (h | ⟨_, rfl, ⟨rfl, rfl, rfl⟩ | ⟨_, rfl, i, rfl, h⟩⟩)
    · exact Or.inl (Or.inl h)
    · exact Or.inr ⟨rfl, rfl, rfl⟩
    · exact Or.inl (Or.inr ⟨n + i, by omega, i, rfl, h⟩)
  · rintro ((h | ⟨_, rfl, i, rfl, h⟩) | ⟨rfl, rfl, rfl⟩)
    · exact Or.inl h
    · exact Or.inr ⟨n + i, rfl, Or.inr ⟨n - k + i, by omega, i, rfl, h⟩⟩
    · exact Or.inr ⟨0, rfl, Or.inl ⟨rfl, rfl, rfl⟩⟩

theorem span_lease {c : ω} (hn : 0 < n) (hkn : k ≤ n) :
    span (before ++ ⟨k, some c, hk⟩ :: (remainder (n - k) ++ after)) =
      span (before ++ ⟨n, none, hn⟩ :: after) := by
  simp
  omega

theorem Coalesced.lease {c : ω} {hn : 0 < n}
    (h : Coalesced (before ++ ⟨n, none, hn⟩ :: after)) :
    Coalesced (before ++ ⟨k, some c, hk⟩ :: (remainder (n - k) ++ after)) := by
  obtain ⟨hbefore, hrest, hseam⟩ := List.isChain_append.mp h
  refine List.isChain_append.mpr ⟨hbefore, ?_, ?_⟩
  · have hremainder : Coalesced (remainder (n - k) ++ after) := by
      unfold remainder
      split
      · cases after with
        | nil => exact List.isChain_singleton _
        | cons q after =>
            have hq := List.isChain_cons_cons.mp hrest
            exact List.isChain_cons_cons.mpr ⟨fun _ => hq.1 rfl, hq.2⟩
      · exact Coalesced.tail hrest
    refine List.IsChain.cons hremainder ?_
    intro q _ hnone
    simp at hnone
  · intro p _ q hq _
    obtain rfl : ⟨k, some c, hk⟩ = q := by simpa using hq
    simp

end Lease

/-! ## A tenant leaves -/

/-- The row after the tenant of `n` cells between two rows has left. -/
def vacate (before : List (Plot ω)) (n : ℕ) (hn : 0 < n)
    (after : List (Plot ω)) : List (Plot ω) :=
  before.foldr join (join ⟨n, none, hn⟩ after)

section Vacate

variable {before after : List (Plot ω)} {n : ℕ} {hn : 0 < n}

theorem span_foldr_join (before row : List (Plot ω)) :
    span (before.foldr join row) = span before + span row := by
  induction before with
  | nil => simp
  | cons p before ih => simp [ih, Nat.add_assoc]

theorem span_vacate {c : ω} :
    span (vacate before n hn after) =
      span (before ++ ⟨n, some c, hn⟩ :: after) := by
  simp [vacate, span_foldr_join]

theorem holds_foldr_join {row : List (Plot ω)} {c : ω} {off m : ℕ} :
    Holds (before.foldr join row) c off m ↔ Holds (before ++ row) c off m := by
  induction before generalizing off with
  | nil => rfl
  | cons p before ih =>
      simp only [List.foldr_cons, List.cons_append, holds_join, holds_cons, ih]

/-- The tenants afterwards are all from before but the one that left. -/
theorem holds_vacate {c d : ω} {j m : ℕ} :
    Holds (vacate before n hn after) d j m ↔
      Holds (before ++ ⟨n, some c, hn⟩ :: after) d j m ∧ j ≠ span before := by
  rw [vacate, holds_foldr_join]
  simp only [holds_append, holds_join, holds_cons, reduceCtorEq, false_and,
    and_false, false_or]
  constructor
  · rintro (h | ⟨_, rfl, i, rfl, h⟩)
    · exact ⟨Or.inl h, by have := h.le_span; have := h.pos; omega⟩
    · exact ⟨Or.inr ⟨n + i, rfl, Or.inr ⟨i, rfl, h⟩⟩, by omega⟩
  · rintro ⟨h | ⟨_, rfl, ⟨rfl, -⟩ | ⟨i, rfl, h⟩⟩, hne⟩
    · exact Or.inl h
    · exact absurd rfl hne
    · exact Or.inr ⟨n + i, rfl, i, rfl, h⟩

theorem Coalesced.foldr_join {row : List (Plot ω)} (h : Coalesced row) :
    Coalesced (before.foldr Tiling.join row) := by
  induction before with
  | nil => exact h
  | cons p before ih => exact ih.join

theorem Coalesced.vacate {q : Plot ω}
    (h : Coalesced (before ++ q :: after)) :
    Coalesced (vacate before n hn after) := by
  have hafter : Coalesced after :=
    Coalesced.tail (List.isChain_append.mp h).2.1
  exact hafter.join.foldr_join

/-- Joining from the right leaves a coalesced row alone whose last plot is
held. -/
theorem foldr_join_eq_append {row : List (Plot ω)}
    (hbefore : Coalesced before)
    (hlast : ∀ p ∈ before.getLast?, p.tenant ≠ none) :
    before.foldr join row = before ++ row := by
  induction before with
  | nil => rfl
  | cons p before ih =>
      cases before with
      | nil =>
          have hp : p.tenant ≠ none := hlast p (by simp)
          cases row with
          | nil => rfl
          | cons q row => exact join_of_apart fun h => absurd h hp
      | cons q before =>
          have hpq := List.isChain_cons_cons.mp hbefore
          have htail := ih hpq.2 (by simpa using hlast)
          rw [List.foldr_cons, htail]
          exact join_of_apart hpq.1

/-- Joining from the right a coalesced row whose last plot is vacant. -/
theorem foldr_join_of_vacant {front rest : List (Plot ω)} {q : Plot ω}
    {m : ℕ} {hm : 0 < m} (hfront : Coalesced (front ++ [q]))
    (hq : q.tenant = none) :
    (front ++ [q]).foldr join (⟨m, none, hm⟩ :: rest) =
      front ++ ⟨q.size + m, none, Nat.add_pos_left q.size_pos m⟩ :: rest := by
  have hseam := List.isChain_append.mp hfront
  have hlast : ∀ p ∈ front.getLast?, p.tenant ≠ none := by
    intro p hp hnone
    exact hseam.2.2 p hp q (by simp) hnone hq
  rw [List.foldr_append, List.foldr_cons, List.foldr_nil,
    join_of_vacant hq rfl, foldr_join_eq_append hseam.1 hlast]

end Vacate

/-! ## The row of a set of tenants -/

section Canonical

variable {p q : Plot ω} {row row' : List (Plot ω)}

theorem Plot.eq_of_size_of_tenant (hsize : p.size = q.size)
    (htenant : p.tenant = q.tenant) : p = q := by
  cases p
  cases q
  simp only [Plot.mk.injEq]
  exact ⟨hsize, htenant⟩

/-- A held plot in front is the first plot of any row with these tenants. -/
theorem head_eq_of_held {c : ω} (hp : p.tenant = some c)
    (h : ∀ d off n, Holds (p :: row) d off n → Holds (q :: row') d off n) :
    p = q := by
  have hfirst : Holds (p :: row) c 0 p.size :=
    holds_cons.mpr (Or.inl ⟨rfl, hp, rfl⟩)
  rcases holds_cons.mp (h c 0 p.size hfirst) with ⟨-, hq, hsize⟩ | ⟨k, hk, -⟩
  · exact Plot.eq_of_size_of_tenant hsize.symm (hp.trans hq.symm)
  · have hpos := q.size_pos
    omega

/-- A vacant plot in front is not shorter than the vacant first plot of a row
with more tenants. -/
theorem size_le_of_vacant (hp : p.tenant = none) (hq : q.tenant = none)
    (hrow : Coalesced (p :: row)) (hspan : span (p :: row) = span (q :: row'))
    (h : ∀ d off n, Holds (p :: row) d off n → Holds (q :: row') d off n) :
    q.size ≤ p.size := by
  cases row with
  | nil =>
      rw [span_cons, span_cons, span_nil] at hspan
      omega
  | cons r row =>
      obtain ⟨c, hc⟩ := Option.ne_none_iff_exists'.mp
        ((List.isChain_cons_cons.mp hrow).1 hp)
      have hsecond : Holds (p :: r :: row) c p.size r.size :=
        holds_cons.mpr (Or.inr ⟨0, rfl,
          holds_cons.mpr (Or.inl ⟨rfl, hc, rfl⟩)⟩)
      rcases holds_cons.mp (h c p.size r.size hsecond) with
        ⟨-, htenant, -⟩ | ⟨k, hk, -⟩
      · rw [hq] at htenant
        cases htenant
      · omega

theorem head_eq_of_holds_iff (hrow : Coalesced (p :: row))
    (hrow' : Coalesced (q :: row'))
    (hspan : span (p :: row) = span (q :: row'))
    (h : ∀ d off n, Holds (p :: row) d off n ↔ Holds (q :: row') d off n) :
    p = q := by
  cases hp : p.tenant with
  | some c => exact head_eq_of_held hp fun d off n => (h d off n).mp
  | none =>
      cases hq : q.tenant with
      | some c => exact (head_eq_of_held hq fun d off n => (h d off n).mpr).symm
      | none =>
          have hle := size_le_of_vacant hp hq hrow hspan
            fun d off n => (h d off n).mp
          have hge := size_le_of_vacant hq hp hrow' hspan.symm
            fun d off n => (h d off n).mpr
          exact Plot.eq_of_size_of_tenant (le_antisymm hge hle)
            (hp.trans hq.symm)

/-- A coalesced row is determined by what its tenants hold. -/
theorem Coalesced.eq_of_holds_iff (hrow : Coalesced row)
    (hrow' : Coalesced row') (hspan : span row = span row')
    (h : ∀ d off n, Holds row d off n ↔ Holds row' d off n) : row = row' := by
  induction row generalizing row' with
  | nil =>
      cases row' with
      | nil => rfl
      | cons q row' =>
          have hpos := q.size_pos
          rw [span_nil, span_cons] at hspan
          omega
  | cons p row ih =>
      cases row' with
      | nil =>
          have hpos := p.size_pos
          rw [span_nil, span_cons] at hspan
          omega
      | cons q row' =>
          obtain rfl := head_eq_of_holds_iff hrow hrow' hspan h
          rw [span_cons, span_cons] at hspan
          have htail : ∀ d off n, Holds row d off n ↔ Holds row' d off n := by
            intro d off n
            have hshift := h d (p.size + off) n
            have hpos := p.size_pos
            have hnot : ¬(p.size + off = 0) := by omega
            rw [holds_cons, holds_cons] at hshift
            simpa only [hnot, false_and, false_or, Nat.add_left_cancel_iff,
              exists_eq_left'] using hshift
          rw [ih hrow.tail hrow'.tail (by omega) htail]

end Canonical

end Tiling
