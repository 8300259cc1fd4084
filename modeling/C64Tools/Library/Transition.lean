import Mathlib.Logic.Function.Iterate
import Mathlib.Logic.Relation

/-!
# Transition systems

Labelled transition systems, the states they reach, and the rule by which
what one step preserves becomes what every run preserves.  A system may be
restricted to the runs whose steps all meet a condition on the state before
the step and on its label.
-/

namespace Transition

variable {σ ε : Type*}

/-- Initial states and labelled steps. -/
structure Machine (σ ε : Type*) where
  init : σ → Prop
  step : σ → ε → σ → Prop

namespace Machine

/-- States reached from an initial state in finitely many steps. -/
inductive Reachable (M : Machine σ ε) : σ → Prop
  | init {s : σ} : M.init s → Reachable M s
  | step {s t : σ} {e : ε} : Reachable M s → M.step s e t → Reachable M t

/-- The same system, taking only the steps which meet `ok`. -/
def restrict (M : Machine σ ε) (ok : σ → ε → Prop) : Machine σ ε where
  init := M.init
  step s e t := ok s e ∧ M.step s e t

/-- The system of a partial next-state function with one initial state. -/
def ofNext (start : σ) (next : σ → ε → Option σ) : Machine σ ε where
  init s := s = start
  step s e t := next s e = some t

/-- What holds initially and is preserved by every step holds throughout. -/
theorem Reachable.invariant {M : Machine σ ε} {P : σ → Prop}
    (hinit : ∀ s, M.init s → P s)
    (hstep : ∀ s e t, P s → M.step s e t → P t)
    {s : σ} (hs : M.Reachable s) : P s := by
  induction hs with
  | init h => exact hinit _ h
  | step _ h ih => exact hstep _ _ _ ih h

/-- What steps of the system lead to from a reachable state is reachable. -/
theorem Reachable.leads {M : Machine σ ε} {s t : σ} (hs : M.Reachable s)
    (h : Relation.ReflTransGen (fun s t => ∃ e, M.step s e t) s t) :
    M.Reachable t := by
  induction h with
  | refl => exact hs
  | tail _ hstep ih =>
      obtain ⟨e, he⟩ := hstep
      exact ih.step he

/-! ## Executions of a next-state function -/

/-- Follow a list of labels. -/
def follow (next : σ → ε → Option σ) : σ → List ε → Option σ
  | s, [] => some s
  | s, e :: es => (next s e).bind fun t => follow next t es

theorem Reachable.follow {start : σ} {next : σ → ε → Option σ} {s t : σ}
    {es : List ε} (hs : (ofNext start next).Reachable s)
    (ht : follow next s es = some t) : (ofNext start next).Reachable t := by
  induction es generalizing s with
  | nil =>
      obtain rfl : s = t := Option.some.inj ht
      exact hs
  | cons e es ih =>
      obtain ⟨u, hu, hrest⟩ := Option.bind_eq_some_iff.mp ht
      exact ih (Reachable.step hs hu) hrest

/-- Every state at the end of an execution from the start is reachable. -/
theorem reachable_of_follow {start : σ} {next : σ → ε → Option σ} {t : σ}
    {es : List ε} (ht : Machine.follow next start es = some t) :
    (ofNext start next).Reachable t :=
  (Reachable.init rfl).follow ht

/-- What a computed execution ends in is reached, and can be inspected. -/
theorem exists_reachable_of_run {start : σ} {next : σ → ε → Option σ}
    (P : σ → Prop) [DecidablePred P] (es : List ε)
    (h : (Machine.follow next start es).any (decide <| P ·) = true) :
    ∃ t, (ofNext start next).Reachable t ∧ P t := by
  obtain ⟨t, ht, hP⟩ := (Option.any_eq_true _ _).mp h
  exact ⟨t, reachable_of_follow ht, of_decide_eq_true hP⟩

/-! ## Progress -/

/-- If every step comes nearer to `Q` unless it gets there, it is got to. -/
theorem exists_iterate_of_rank {P Q : σ → Prop} {f : σ → σ} (rank : σ → ℕ)
    (hP : ∀ s, P s → ¬ Q s → P (f s))
    (hQ : ∀ s, P s → ¬ Q s → Q (f s) ∨ rank (f s) < rank s)
    {s : σ} (hs : P s) : ∃ n, Q (f^[n] s) := by
  induction hr : rank s using Nat.strongRecOn generalizing s with
  | _ r ih =>
      by_cases hq : Q s
      · exact ⟨0, hq⟩
      · obtain hnext | hlt := hQ s hs hq
        · exact ⟨1, hnext⟩
        · obtain ⟨n, hn⟩ := ih (rank (f s)) (hr ▸ hlt) (hP s hs hq) rfl
          exact ⟨n + 1, hn⟩

/-! ## Executions whose steps meet a condition -/

/-- Take a step only if it meets a decidable condition. -/
def guarded (ok : σ → ε → Prop) [∀ s e, Decidable (ok s e)]
    (next : σ → ε → Option σ) (s : σ) (e : ε) : Option σ :=
  if ok s e then next s e else none

theorem Reachable.follow_guarded {start : σ} {ok : σ → ε → Prop}
    [∀ s e, Decidable (ok s e)] {next : σ → ε → Option σ} {s t : σ}
    {es : List ε} (hs : ((ofNext start next).restrict ok).Reachable s)
    (ht : Machine.follow (guarded ok next) s es = some t) :
    ((ofNext start next).restrict ok).Reachable t := by
  induction es generalizing s with
  | nil =>
      obtain rfl : s = t := Option.some.inj ht
      exact hs
  | cons e es ih =>
      obtain ⟨u, hu, hrest⟩ := Option.bind_eq_some_iff.mp ht
      obtain ⟨hok, hnext⟩ := Option.ite_none_right_eq_some.mp hu
      exact ih (Reachable.step hs ⟨hok, hnext⟩) hrest

/-- What a computed execution of steps that meet the condition ends in. -/
theorem exists_restrict_reachable_of_run {start : σ} {ok : σ → ε → Prop}
    [∀ s e, Decidable (ok s e)] {next : σ → ε → Option σ} (P : σ → Prop)
    [DecidablePred P] (es : List ε)
    (h : (Machine.follow (guarded ok next) start es).any (decide <| P ·) =
      true) :
    ∃ t, ((ofNext start next).restrict ok).Reachable t ∧ P t := by
  obtain ⟨t, ht, hP⟩ := (Option.any_eq_true _ _).mp h
  exact ⟨t, (Reachable.init rfl).follow_guarded ht, of_decide_eq_true hP⟩

end Machine

end Transition
