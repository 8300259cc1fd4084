import Mathlib.Logic.Relation

/-!
# Programs that call a shared system

A program is a tree of calls: each call has an answer, on which the rest of the
program depends.  The system is shared, and between two calls of the program
others may take any number of steps.

The rules are those of Hoare triples, for conditions on the shared state.  A
condition which the steps of the others keep may be assumed before each call.
-/

namespace Calls

/-- A program with calls `κ`, whose answers have the types `ρ`. -/
inductive Prog (κ : Type*) (ρ : κ → Type*) (α : Type*)
  | ret (a : α)
  | call (c : κ) (next : ρ c → Prog κ ρ α)

/-- The steps of the others, and the answers to the calls with the states after
them. -/
structure Shared (σ κ : Type*) (ρ : κ → Type*) where
  others : σ → σ → Prop
  answers : σ → (c : κ) → ρ c → σ → Prop

variable {σ κ ω α β : Type*} {ρ : κ → Type*}

namespace Prog

/-- Go on with the result of a program. -/
def bind : Prog κ ρ α → (α → Prog κ ρ β) → Prog κ ρ β
  | .ret a, f => f a
  | .call c next, f => .call c fun x => (next x).bind f

@[simp] theorem bind_ret (a : α) (f : α → Prog κ ρ β) :
    (ret a : Prog κ ρ α).bind f = f a := rfl

/-- Follow a program that nobody interrupts; an outcome decides each answer, if
there is one. -/
def follow (serve : ω → σ → (c : κ) → Option (ρ c × σ)) :
    Prog κ ρ α → List ω → σ → Option (α × σ)
  | .ret a, [], s => some (a, s)
  | .call c next, o :: os, s =>
      (serve o s c).bind fun answer =>
        (next answer.1).follow serve os answer.2
  | _, _, _ => none

end Prog

namespace Shared

variable {S : Shared σ κ ρ} {P P' : σ → Prop} {Q Q' : α → σ → Prop}
  {p : Prog κ ρ α} {s t : σ} {a : α}

/-- A program that begins in one state may return in another one. -/
inductive Returns (S : Shared σ κ ρ) : Prog κ ρ α → σ → α → σ → Prop
  | ret {a : α} {s : σ} : Returns S (.ret a) s a s
  | others {p : Prog κ ρ α} {s t u : σ} {a : α} :
      S.others s t → Returns S p t a u → Returns S p s a u
  | call {c : κ} {next : ρ c → Prog κ ρ α} {s t u : σ} {x : ρ c} {a : α} :
      S.answers s c x t → Returns S (next x) t a u →
        Returns S (.call c next) s a u

/-- The steps of the others keep a condition. -/
def Stable (S : Shared σ κ ρ) (P : σ → Prop) : Prop :=
  ∀ s t, S.others s t → P s → P t

/-- What holds when a program returns that begins where `P` holds. -/
def Triple (S : Shared σ κ ρ) (P : σ → Prop) (p : Prog κ ρ α)
    (Q : α → σ → Prop) : Prop :=
  ∀ s a t, P s → S.Returns p s a t → Q a t

theorem Triple.mono (h : S.Triple P p Q) (hpost : ∀ a s, Q a s → Q' a s) :
    S.Triple P p Q' :=
  fun s a t hs hret => hpost a t (h s a t hs hret)

theorem triple_ret (hstable : S.Stable P) (h : ∀ s, P s → Q a s) :
    S.Triple P (.ret a) Q := by
  intro s b t hs hret
  generalize hp : (Prog.ret a : Prog κ ρ α) = p at hret
  induction hret with
  | ret =>
      obtain rfl := Prog.ret.inj hp
      exact h _ hs
  | others hother _ ih => exact ih (hstable _ _ hother hs) hp
  | call => cases hp

/-- The others may take steps before the call; what follows from the answer is
known after it. -/
theorem triple_call {c : κ} {next : ρ c → Prog κ ρ α} (R : ρ c → σ → Prop)
    (hstable : S.Stable P)
    (hanswer : ∀ s x t, P s → S.answers s c x t → R x t)
    (hnext : ∀ x, S.Triple (R x) (next x) Q) :
    S.Triple P (.call c next) Q := by
  intro s a t hs hret
  generalize hp : Prog.call c next = p at hret
  induction hret with
  | ret => cases hp
  | others hother _ ih => exact ih (hstable _ _ hother hs) hp
  | call hcall hrest =>
      cases hp
      exact hnext _ _ _ _ (hanswer _ _ _ hs hcall) hrest

/-- A program and what goes on with its result return one after the other. -/
theorem Returns.of_bind {f : α → Prog κ ρ β} {b : β}
    (h : S.Returns (p.bind f) s b t) :
    ∃ a u, S.Returns p s a u ∧ S.Returns (f a) u b t := by
  generalize hp : p.bind f = q at h
  induction h generalizing p with
  | ret =>
      cases p with
      | ret a =>
          refine ⟨a, _, .ret, ?_⟩
          rw [Prog.bind_ret] at hp
          rw [hp]
          exact .ret
      | call c next => cases hp
  | others hother _ ih =>
      obtain ⟨a, u, hfirst, hrest⟩ := ih hp
      exact ⟨a, u, .others hother hfirst, hrest⟩
  | call hcall hnext ih =>
      cases p with
      | ret a =>
          refine ⟨a, _, .ret, ?_⟩
          rw [Prog.bind_ret] at hp
          rw [hp]
          exact .call hcall hnext
      | call c next =>
          cases hp
          obtain ⟨a, u, hfirst, hrest⟩ := ih rfl
          exact ⟨a, u, .call hcall hfirst, hrest⟩

theorem triple_bind {f : α → Prog κ ρ β} {Q : β → σ → Prop}
    (R : α → σ → Prop) (hfirst : S.Triple P p R)
    (hrest : ∀ a, S.Triple (R a) (f a) Q) : S.Triple P (p.bind f) Q := by
  intro s b t hs hret
  obtain ⟨a, u, hp, hf⟩ := hret.of_bind
  exact hrest a u b t (hfirst s a u hs hp) hf

/-- A fact about no state may be assumed. -/
theorem triple_of_imp {φ : Prop} (h : φ → S.Triple P p Q) :
    S.Triple (fun s => φ ∧ P s) p Q :=
  fun s a t hs => h hs.1 s a t hs.2

/-- A program returns if its calls are answered; it is a finite tree. -/
theorem exists_returns
    (h : ∀ s c, P s → ∃ x t, S.answers s c x t ∧ P t) (p : Prog κ ρ α)
    (hs : P s) : ∃ a t, S.Returns p s a t := by
  induction p generalizing s with
  | ret a => exact ⟨a, s, .ret⟩
  | call c next ih =>
      obtain ⟨x, t, hx, ht⟩ := h s c hs
      obtain ⟨a, u, hret⟩ := ih x ht
      exact ⟨a, u, .call hx hret⟩

/-- Without steps of the others a program returns what it can be followed to. -/
theorem returns_of_follow {serve : ω → σ → (c : κ) → Option (ρ c × σ)}
    (hserve : ∀ o s c x t, serve o s c = some (x, t) → S.answers s c x t)
    {os : List ω} (h : p.follow serve os s = some (a, t)) :
    S.Returns p s a t := by
  induction p generalizing os s with
  | ret b =>
      cases os with
      | nil =>
          obtain ⟨rfl, rfl⟩ := Prod.mk.inj (Option.some.inj h)
          exact .ret
      | cons o os => cases h
  | call c next ih =>
      cases os with
      | nil => cases h
      | cons o os =>
          obtain ⟨⟨x, u⟩, hx, hrest⟩ := Option.bind_eq_some_iff.mp h
          exact .call (hserve o s c x u hx) (ih x hrest)

end Shared

end Calls
