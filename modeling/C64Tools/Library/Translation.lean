import Mathlib.Data.List.Basic
import Mathlib.Tactic.Common

/-!
# Piecewise translations

A span takes an interval of source addresses to an interval of target
addresses of the same length, and a list of spans translates an address by the
first span which covers it.  Turning all spans around gives the translation
back: on lists whose spans lie apart on both sides the two are inverse to each
other.
-/

namespace Translation

variable {τ : Type*}

/-- The addresses from `source` on, and where they are taken to. -/
structure Span where
  source : ℕ
  target : ℕ
  size : ℕ
  deriving DecidableEq, Repr

namespace Span

/-- The address is a source address of the span. -/
def Covers (m : Span) (a : ℕ) : Prop :=
  m.source ≤ a ∧ a < m.source + m.size

instance (m : Span) (a : ℕ) : Decidable (m.Covers a) := by
  unfold Covers
  infer_instance

/-- Where the span takes an address. -/
def image (m : Span) (a : ℕ) : ℕ :=
  a - m.source + m.target

/-- The span that leads back. -/
def flip (m : Span) : Span :=
  ⟨m.target, m.source, m.size⟩

@[simp] theorem flip_flip (m : Span) : m.flip.flip = m := rfl

theorem flip_covers_image {m : Span} {a : ℕ} (h : m.Covers a) :
    m.flip.Covers (m.image a) := by
  simp only [Covers, image, flip] at h ⊢
  omega

theorem flip_image_image {m : Span} {a : ℕ} (h : m.Covers a) :
    m.flip.image (m.image a) = a := by
  simp only [Covers, image, flip] at h ⊢
  omega

/-- No address is a source address of both spans. -/
def Apart (m m' : Span) : Prop :=
  m.size = 0 ∨ m'.size = 0 ∨ m.source + m.size ≤ m'.source ∨
    m'.source + m'.size ≤ m.source

instance (m m' : Span) : Decidable (m.Apart m') := by
  unfold Apart
  infer_instance

theorem apart_iff {m m' : Span} :
    m.Apart m' ↔ ∀ a, m.Covers a → ¬m'.Covers a := by
  unfold Apart Covers
  constructor
  · omega
  · intro h
    -- the larger of the two sources is covered by both unless they lie apart
    have hmax := h (max m.source m'.source)
    omega

end Span

/-! ## Lists of spans -/

/-- Some span covers the address. -/
def Mapped (ms : List Span) (a : ℕ) : Prop :=
  ∃ m ∈ ms, m.Covers a

instance (ms : List Span) (a : ℕ) : Decidable (Mapped ms a) := by
  unfold Mapped
  infer_instance

/-- The spans lie apart. -/
def Separate (ms : List Span) : Prop :=
  ms.Pairwise Span.Apart

instance (ms : List Span) : Decidable (Separate ms) := by
  unfold Separate
  infer_instance

/-- The spans that lead back. -/
def back (ms : List Span) : List Span :=
  ms.map Span.flip

@[simp] theorem back_back (ms : List Span) : back (back ms) = ms := by
  simp [back, Function.comp_def]

/-- Translation by the first span that covers the address. -/
def translate : List Span → ℕ → Option ℕ
  | [], _ => none
  | m :: ms, a => if m.Covers a then some (m.image a) else translate ms a

@[simp] theorem translate_nil (a : ℕ) : translate [] a = none := rfl

theorem translate_cons (m : Span) (ms : List Span) (a : ℕ) :
    translate (m :: ms) a =
      if m.Covers a then some (m.image a) else translate ms a := rfl

theorem translate_eq_none_iff {ms : List Span} {a : ℕ} :
    translate ms a = none ↔ ¬Mapped ms a := by
  induction ms with
  | nil => simp [Mapped]
  | cons m ms ih =>
      rw [translate_cons]
      by_cases hcovers : m.Covers a
      · simp [hcovers, Mapped]
      · rw [if_neg hcovers, ih]
        simp [Mapped, hcovers]

theorem mapped_of_translate {ms : List Span} {a b : ℕ}
    (h : translate ms a = some b) : Mapped ms a := by
  by_contra hnot
  rw [translate_eq_none_iff.mpr hnot] at h
  exact Option.some_ne_none b h.symm

theorem exists_span_of_translate {ms : List Span} {a b : ℕ}
    (h : translate ms a = some b) :
    ∃ m ∈ ms, m.Covers a ∧ m.image a = b := by
  induction ms with
  | nil => exact absurd h (by simp)
  | cons m ms ih =>
      rw [translate_cons] at h
      split at h
      · rename_i hcovers
        exact ⟨m, List.mem_cons_self, hcovers, Option.some.inj h⟩
      · obtain ⟨m', hmem, hm'⟩ := ih h
        exact ⟨m', List.mem_cons_of_mem m hmem, hm'⟩

/-- On spans that lie apart the order of the search does not matter. -/
theorem translate_eq_some {ms : List Span} (hsep : Separate ms) {m : Span}
    (hmem : m ∈ ms) {a : ℕ} (hcovers : m.Covers a) :
    translate ms a = some (m.image a) := by
  induction ms with
  | nil => exact absurd hmem List.not_mem_nil
  | cons m' ms ih =>
      obtain ⟨hfirst, hrest⟩ := List.pairwise_cons.mp hsep
      rw [translate_cons]
      obtain rfl | hlater := List.mem_cons.mp hmem
      · exact if_pos hcovers
      · have hnot : ¬m'.Covers a := fun hm' =>
          Span.apart_iff.mp (hfirst m hlater) a hm' hcovers
        rw [if_neg hnot]
        exact ih hrest hlater

/-- Translating back what has been translated gives the address again. -/
theorem translate_back {ms : List Span} (hsep : Separate (back ms)) {a b : ℕ}
    (h : translate ms a = some b) : translate (back ms) b = some a := by
  obtain ⟨m, hmem, hcovers, rfl⟩ := exists_span_of_translate h
  have hflip : m.flip ∈ back ms := List.mem_map_of_mem hmem
  rw [translate_eq_some hsep hflip (Span.flip_covers_image hcovers),
    Span.flip_image_image hcovers]

/-! ## Searches -/

theorem translate_append (ms ms' : List Span) (a : ℕ) :
    translate (ms ++ ms') a =
      (translate ms a).or (translate ms' a) := by
  induction ms with
  | nil => rfl
  | cons m ms ih =>
      rw [List.cons_append, translate_cons, translate_cons]
      split
      · rfl
      · exact ih

/-- A search over a family that tests each member and computes a value from
the first that passes, where test and value are those of the member's spans. -/
theorem translate_flatMap {spansOf : τ → List Span} {test : τ → Prop}
    [DecidablePred test] {value : τ → ℕ} {ts : List τ} {a : ℕ}
    (h : ∀ t ∈ ts, translate (spansOf t) a =
      if test t then some (value t) else none) :
    translate (ts.flatMap spansOf) a =
      (ts.find? fun t => decide (test t)).map value := by
  induction ts with
  | nil => rfl
  | cons t ts ih =>
      rw [List.flatMap_cons, translate_append, List.find?_cons,
        h t List.mem_cons_self]
      by_cases htest : test t
      · simp [htest]
      · rw [if_neg htest, decide_eq_false htest]
        exact ih fun t' ht' => h t' (List.mem_cons_of_mem t ht')

end Translation
