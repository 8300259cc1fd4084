import Mathlib.Data.List.Nodup
import Mathlib.Logic.Function.Basic
import Mathlib.Algebra.GroupWithZero.Nat

/-!
# Transfers in flight

A transfer engine moves values from one address of a memory to another one,
beside a processor that loads and stores.  A move reads its value at some time
and writes it at a later one, and moves go on in any order.

A memory with some moves in flight *settles* to the memory in which they are all
done.  If no move writes what another one reads or writes, then what it settles
to does not depend on how far the moves have got, and the loads and stores that
keep clear of them are the same before the moves as after.
-/

namespace Transfers

variable {A V : Type*}

/-- A move that has not begun, or one that has read its value. -/
inductive Move (A V : Type*) where
  | copy (src dst : A)
  | put (v : V) (dst : A)

namespace Move

/-- Where the value is written. -/
def dst : Move A V → A
  | copy _ d => d
  | put _ d => d

/-- Where the value is still to be read. -/
def src : Move A V → Option A
  | copy s _ => some s
  | put _ _ => none

/-- The value that is moved, if it is read now. -/
def value (mem : A → V) : Move A V → V
  | copy s _ => mem s
  | put v _ => v

/-- The steps that a move has left. -/
def weight : Move A V → ℕ
  | copy _ _ => 2
  | put _ _ => 1

end Move

/-- No two moves write to one address, and none reads from where one writes. -/
structure Apart (ms : List (Move A V)) : Prop where
  nodup : (ms.map Move.dst).Nodup
  src : ∀ m ∈ ms, ∀ m' ∈ ms, m.src ≠ some m'.dst

instance [DecidableEq A] (ms : List (Move A V)) : Decidable (Apart ms) :=
  decidable_of_iff
    ((ms.map Move.dst).Nodup ∧ ∀ m ∈ ms, ∀ m' ∈ ms, m.src ≠ some m'.dst)
    ⟨fun h => ⟨h.1, h.2⟩, fun h => ⟨h.nodup, h.src⟩⟩

variable {mem mem' : A → V} {ms ms' : List (Move A V)} {m : Move A V} {x : A}

/-! ## Moves that are left -/

/-- The steps that some moves have left. -/
def weight (ms : List (Move A V)) : ℕ :=
  (ms.map Move.weight).sum

theorem weight_append (ms ms' : List (Move A V)) :
    weight (ms ++ ms') = weight ms + weight ms' := by
  rw [weight, List.map_append, List.sum_append]
  rfl

theorem weight_cons (m : Move A V) (ms : List (Move A V)) :
    weight (m :: ms) = m.weight + weight ms :=
  List.sum_cons

/-- Moves that are there still come from earlier ones. -/
def Within (ms ms' : List (Move A V)) : Prop :=
  ∀ m ∈ ms, m.dst ∈ ms'.map Move.dst ∧
    ∀ s, m.src = some s → ∃ m' ∈ ms', m'.src = some s

theorem Within.refl (ms : List (Move A V)) : Within ms ms :=
  fun m hm => ⟨List.mem_map_of_mem hm, fun _ hs => ⟨m, hm, hs⟩⟩

theorem Within.dst (h : Within ms ms') (hx : x ∉ ms'.map Move.dst) :
    x ∉ ms.map Move.dst := by
  intro hmem
  obtain ⟨m, hm, rfl⟩ := List.mem_map.mp hmem
  exact hx (h m hm).1

theorem Within.src (h : Within ms ms') (hx : ∀ m ∈ ms', m.src ≠ some x) :
    ∀ m ∈ ms, m.src ≠ some x := by
  intro m hm hsrc
  obtain ⟨m', hm', hsrc'⟩ := (h m hm).2 x hsrc
  exact hx m' hm' hsrc'

section Memory

variable [DecidableEq A]

/-- The memory in which the moves are done. -/
def settled (mem : A → V) (ms : List (Move A V)) : A → V := fun x =>
  match ms.find? fun m => m.dst = x with
  | some m => m.value mem
  | none => mem x

/-- One of the moves goes on. -/
inductive Advances :
    (A → V) × List (Move A V) → (A → V) × List (Move A V) → Prop
  | read (mem : A → V) (l r : List (Move A V)) (s d : A) :
      Advances (mem, l ++ .copy s d :: r) (mem, l ++ .put (mem s) d :: r)
  | write (mem : A → V) (l r : List (Move A V)) (v : V) (d : A) :
      Advances (mem, l ++ .put v d :: r) (Function.update mem d v, l ++ r)

/-! ## What is settled -/

theorem settled_of_not_mem (h : x ∉ ms.map Move.dst) :
    settled mem ms x = mem x := by
  have hnone : ms.find? (fun m => m.dst = x) = none := by
    rw [List.find?_eq_none]
    intro m hm hdst
    exact h (List.mem_map.mpr ⟨m, hm, of_decide_eq_true hdst⟩)
  rw [settled, hnone]

theorem settled_of_mem (hnodup : (ms.map Move.dst).Nodup) (hm : m ∈ ms) :
    settled mem ms m.dst = m.value mem := by
  cases hfind : ms.find? (fun m' => m'.dst = m.dst) with
  | none =>
      rw [List.find?_eq_none] at hfind
      exact absurd (decide_eq_true rfl) (hfind m hm)
  | some m' =>
      have hdst : m'.dst = m.dst := by
        simpa using List.find?_some hfind
      have hsame : m' = m :=
        List.inj_on_of_nodup_map hnodup (List.mem_of_find?_eq_some hfind) hm hdst
      rw [settled, hfind, hsame]

/-- What is settled depends only on which moves there are. -/
theorem settled_eq_iff (hnodup : (ms.map Move.dst).Nodup) {f : A → V} :
    settled mem ms = f ↔
      (∀ m ∈ ms, f m.dst = m.value mem) ∧
        ∀ x ∉ ms.map Move.dst, f x = mem x := by
  constructor
  · rintro rfl
    exact ⟨fun m hm => settled_of_mem hnodup hm, fun x => settled_of_not_mem⟩
  · rintro ⟨hmoved, hrest⟩
    funext x
    by_cases hx : x ∈ ms.map Move.dst
    · obtain ⟨m, hm, rfl⟩ := List.mem_map.mp hx
      rw [settled_of_mem hnodup hm, hmoved m hm]
    · rw [settled_of_not_mem hx, hrest x hx]

/-! ## The processor -/

/-- A store that keeps clear of the moves. -/
theorem settled_update (hnodup : (ms.map Move.dst).Nodup)
    (hdst : x ∉ ms.map Move.dst) (hsrc : ∀ m ∈ ms, m.src ≠ some x) (v : V) :
    settled (Function.update mem x v) ms =
      Function.update (settled mem ms) x v := by
  rw [settled_eq_iff hnodup]
  constructor
  · intro m hm
    have hne : m.dst ≠ x := by
      rintro rfl
      exact hdst (List.mem_map_of_mem hm)
    rw [Function.update_of_ne hne, settled_of_mem hnodup hm]
    cases m with
    | copy s d =>
        have hs : s ≠ x := fun h => hsrc _ hm (congrArg some h)
        exact (Function.update_of_ne hs _ _).symm
    | put w d => rfl
  · intro y hy
    obtain rfl | hne := eq_or_ne y x
    · rw [Function.update_self, Function.update_self]
    · rw [Function.update_of_ne hne, Function.update_of_ne hne,
        settled_of_not_mem hy]

/-! ## The engine -/

/-- A move that goes on keeps what is settled, and has less to do. -/
theorem Advances.keeps (h : Advances (mem, ms) (mem', ms')) (hapart : Apart ms) :
    settled mem' ms' = settled mem ms ∧ Apart ms' ∧ weight ms' < weight ms ∧
      ∀ busy, Within ms busy → Within ms' busy := by
  cases h with
  | read _ l r s d =>
      have hdsts : (l ++ .put (mem s) d :: r).map Move.dst =
          (l ++ .copy s d :: r).map Move.dst := by
        rw [List.map_append, List.map_append]
        rfl
      -- the move that goes on has read its value, and the others are as before
      have hmem : ∀ m, m ∈ l ++ .put (mem s) d :: r →
          m = .put (mem s) d ∨ m ∈ l ++ .copy s d :: r := by
        intro m hm
        rw [List.mem_append, List.mem_cons] at hm ⊢
        tauto
      have hold : Move.copy s d ∈ l ++ .copy s d :: r := by simp
      have hvalue : settled mem (l ++ .copy s d :: r) d = mem s :=
        settled_of_mem hapart.nodup hold
      have hnodup : ((l ++ .put (mem s) d :: r).map Move.dst).Nodup :=
        hdsts ▸ hapart.nodup
      refine ⟨(settled_eq_iff hnodup).mpr ⟨?_, ?_⟩, ⟨hnodup, ?_⟩, ?_, ?_⟩
      · intro m hm
        obtain rfl | hm := hmem m hm
        · exact hvalue
        · exact settled_of_mem hapart.nodup hm
      · intro y hy
        exact settled_of_not_mem (hdsts ▸ hy)
      · intro m hm m' hm'
        have hdst : m'.dst ∈ (l ++ Move.copy s d :: r).map Move.dst :=
          hdsts ▸ List.mem_map_of_mem hm'
        obtain ⟨m'', hm'', hsame⟩ := List.mem_map.mp hdst
        obtain rfl | hm := hmem m hm
        · exact (Option.some_ne_none _).symm
        · exact hsame ▸ hapart.src m hm m'' hm''
      · rw [weight_append, weight_append, weight_cons, weight_cons]
        exact Nat.add_lt_add_left (Nat.add_lt_add_right Nat.one_lt_two _) _
      · intro busy hbusy m hm
        obtain rfl | hm := hmem m hm
        · exact ⟨(hbusy _ hold).1, fun _ h => absurd h.symm (Option.some_ne_none _)⟩
        · exact hbusy m hm
  | write _ l r v d =>
      have hmem : ∀ m, m ∈ l ++ r → m ∈ l ++ .put v d :: r := by
        intro m hm
        rw [List.mem_append] at hm
        rw [List.mem_append, List.mem_cons]
        tauto
      have hold : Move.put v d ∈ l ++ .put v d :: r := by simp
      have hsplit := hapart.nodup
      rw [List.map_append, List.map_cons, List.nodup_middle,
        ← List.map_append] at hsplit
      obtain ⟨hnew, hnodup⟩ := List.nodup_cons.mp hsplit
      refine ⟨(settled_eq_iff hnodup).mpr ⟨?_, ?_⟩, ⟨hnodup, ?_⟩, ?_, ?_⟩
      · intro m hm
        rw [settled_of_mem hapart.nodup (hmem m hm)]
        cases m with
        | copy s e =>
            have hs : s ≠ d := fun h =>
              hapart.src _ (hmem _ hm) _ hold (congrArg some h)
            exact (Function.update_of_ne hs _ _).symm
        | put w e => rfl
      · intro y hy
        obtain rfl | hne := eq_or_ne y d
        · rw [Function.update_self]
          exact settled_of_mem hapart.nodup hold
        · rw [Function.update_of_ne hne]
          refine settled_of_not_mem fun hmap => ?_
          rw [List.map_append, List.map_cons, List.mem_append,
            List.mem_cons] at hmap
          rw [List.map_append, List.mem_append] at hy
          tauto
      · exact fun m hm m' hm' => hapart.src m (hmem m hm) m' (hmem m' hm')
      · rw [weight_append, weight_append, weight_cons]
        exact Nat.add_lt_add_left (Nat.lt_add_of_pos_left Nat.one_pos) _
      · exact fun busy hbusy m hm => hbusy m (hmem m hm)

/-- There is always one that can go on. -/
theorem exists_advances (mem : A → V) (hne : ms ≠ []) :
    ∃ next, Advances (mem, ms) next := by
  obtain ⟨m, r, rfl⟩ := List.exists_cons_of_ne_nil hne
  cases m with
  | copy s d => exact ⟨_, .read mem [] r s d⟩
  | put v d => exact ⟨_, .write mem [] r v d⟩

end Memory

end Transfers
