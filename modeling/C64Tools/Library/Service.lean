import Mathlib.Data.List.Basic

/-!
# Sequential service

A server that takes one request at a time: the state it is in after a list of
requests, and the replies it has given.  A record of requests and replies may be
kept while the server works.
-/

namespace Service

variable {σ κ ρ : Type*} (serve : σ → κ → σ × ρ)

/-- The state of the server after some requests. -/
def after (s : σ) (reqs : List κ) : σ :=
  reqs.foldl (fun s k => (serve s k).1) s

/-- The replies to some requests, in order. -/
def replies : σ → List κ → List ρ
  | _, [] => []
  | s, k :: ks => (serve s k).2 :: replies (serve s k).1 ks

@[simp]
theorem after_nil (s : σ) : after serve s [] = s :=
  rfl

@[simp]
theorem replies_nil (s : σ) : replies serve s [] = [] :=
  rfl

/-- One more request is served in the state that the others leave. -/
@[simp]
theorem after_concat (s : σ) (reqs : List κ) (k : κ) :
    after serve s (reqs ++ [k]) = (serve (after serve s reqs) k).1 := by
  simp [after]

@[simp]
theorem replies_concat (s : σ) (reqs : List κ) (k : κ) :
    replies serve s (reqs ++ [k]) =
      replies serve s reqs ++ [(serve (after serve s reqs) k).2] := by
  induction reqs generalizing s with
  | nil => rfl
  | cons k' reqs ih =>
      show (serve s k').2 :: replies serve (serve s k').1 (reqs ++ [k]) = _
      rw [ih]
      rfl

/-- Requests, each with the reply that the server gives to it in its turn. -/
def Recorded (s : σ) (record : List (κ × ρ)) : Prop :=
  record.map Prod.snd = replies serve s (record.map Prod.fst)

theorem recorded_nil (s : σ) : Recorded serve s [] :=
  rfl

variable {serve}

/-- The server has come to `t`, and serves one more request. -/
theorem Recorded.concat {s t : σ} {record : List (κ × ρ)}
    (h : Recorded serve s record) (ht : t = after serve s (record.map Prod.fst))
    (k : κ) : Recorded serve s (record ++ [(k, (serve t k).2)]) := by
  subst ht
  unfold Recorded at h ⊢
  rw [List.map_append, List.map_append, h]
  exact (replies_concat serve s (record.map Prod.fst) k).symm

end Service
