import C64Tools.Qdma.Interleaving

/-!
# Rules for plain executions

Parts of a program are executed one after the other.  Words are loaded and stored
as in the memory of bytes, where they keep clear of the transfer under way.
-/

namespace C64Tools.Qdma

open Edma ByteMemory Transfers

variable {α β : Type} {q : Quiet} {a x : Word} {n : ℕ}

namespace Program

theorem ite_none_bind {c : Prop} [Decidable c] (x : Option α)
    (f : α → Option β) :
    (if c then x else none).bind f = if c then x.bind f else none := by
  by_cases h : c
  · rw [if_pos h, if_pos h]
  · rw [if_neg h, if_neg h]
    rfl

theorem plain_bind (p : Program α) (f : α → Program β) (q : Quiet) :
    (p.bind f).plain q = (p.plain q).bind fun r => (f r.1).plain r.2 := by
  induction p generalizing q with
  | ret b => rfl
  | load b k ih => rw [bind, plain, plain, ite_none_bind, ih]
  | store b v k ih => rw [bind, plain, plain, ite_none_bind, ih]
  | init k ih => rw [bind, plain, plain, ite_none_bind, ih]
  | copy nr y k ih => rw [bind, plain, plain, ite_none_bind, ih]
  | link nr call k ih => rfl
  | wait nr k ih => rw [bind, plain, plain, ite_none_bind, ih]

/-- A part whose execution is known is followed by the rest. -/
theorem plain_bind_of_eq {p : Program α} {b : α} {q' : Quiet}
    (h : p.plain q = some (b, q')) (f : α → Program β) :
    (p.bind f).plain q = (f b).plain q' := by
  rw [plain_bind, h]
  rfl

end Program

/-! ## Loads -/

theorem plain_loadBytes (h : ∀ y, InRange a n y → q.Loadable y) :
    (loadBytes a n).plain q = some (read q.mem a n, q) := by
  induction n generalizing a with
  | zero => rfl
  | succ n ih =>
      have hfirst : q.Loadable a := h a (inRange_succ.mpr (.inl rfl))
      have hrest := ih fun y hy => h y (inRange_succ.mpr (.inr hy))
      rw [loadBytes, Program.plain, if_pos hfirst, Program.plain_bind_of_eq hrest]
      rfl

theorem plain_loadWord (h : ∀ y, InRange a 4 y → q.Loadable y) :
    (loadWord a).plain q = some (readWord32 q.mem a, q) :=
  Program.plain_bind_of_eq (plain_loadBytes h) _

/-! ## Arrays of words -/

theorem Quiet.moves_of_busy (h : q.busy = none) : q.moves = [] := by
  rw [Quiet.moves, h]
  rfl

/-- With no transfer under way, everything may be loaded. -/
theorem loadable_of_busy (h : q.busy = none) (x : Word) : q.Loadable x := by
  rw [Quiet.Loadable, q.moves_of_busy h]
  exact List.not_mem_nil

/-- The same transfer under way, with another memory. -/
def Quiet.put (q : Quiet) (mem : Memory 32) : Quiet :=
  { q with mem := mem }

theorem plain_storeBytes {bs : List Byte}
    (h : ∀ y, InRange a bs.length y → q.Storable y) :
    (storeBytes a bs).plain q = some ((), q.put (write q.mem a bs)) := by
  induction bs generalizing a q with
  | nil => rfl
  | cons b bs ih =>
      have hfirst : q.Storable a := h a (inRange_succ.mpr (.inl rfl))
      rw [storeBytes, Program.plain, if_pos hfirst]
      exact ih fun y hy => h y (inRange_succ.mpr (.inr hy))

theorem plain_storeWord (v : Word) (h : ∀ y, InRange a 4 y → q.Storable y) :
    (storeWord a v).plain q = some ((), q.put (write q.mem a (bytes32 v))) :=
  plain_storeBytes h

/-! ## Transfers -/

theorem ofInt_mul_toInt (y : ℕ) (p : Word) :
    BitVec.ofInt 32 (y * p.toInt) = BitVec.ofNat 32 y * p := by
  rw [BitVec.ofInt_mul, BitVec.ofInt_toInt]
  rfl

variable {dst dstPitch src srcPitch numBytesX numY : Word}

/-- The bytes of a transfer of several rows. -/
theorem mem_moves_twoD {m : Move Word Byte} :
    m ∈ (Transfer.twoD dst dstPitch src srcPitch numBytesX numY).moves ↔
      ∃ y < numY.toNat, ∃ j < numBytesX.toNat,
        m = .copy (src + BitVec.ofNat 32 y * srcPitch + BitVec.ofNat 32 j)
          (dst + BitVec.ofNat 32 y * dstPitch + BitVec.ofNat 32 j) := by
  rw [Transfer.moves, rowsMoves, List.mem_flatMap]
  constructor
  · rintro ⟨r, hr, hm⟩
    obtain ⟨y, hy, rfl⟩ := List.mem_map.mp hr
    obtain ⟨j, hj, rfl⟩ := List.mem_map.mp hm
    refine ⟨y, List.mem_range.mp hy, j, List.mem_range.mp hj, ?_⟩
    rw [ofInt_mul_toInt, ofInt_mul_toInt]
  · rintro ⟨y, hy, j, hj, rfl⟩
    rw [← ofInt_mul_toInt, ← ofInt_mul_toInt]
    exact ⟨_, List.mem_map_of_mem (List.mem_range.mpr hy),
      List.mem_map_of_mem (List.mem_range.mpr hj)⟩

/-- The numbers of some rows of one length. -/
theorem flatMap_range_map_range {γ : Type} (f : ℕ → γ) (ny nx : ℕ) :
    ((List.range ny).flatMap fun y =>
        (List.range nx).map fun j => f (y * nx + j)) =
      (List.range (ny * nx)).map f := by
  induction ny with
  | zero =>
      rw [Nat.zero_mul]
      rfl
  | succ ny ih =>
      rw [List.range_succ, List.flatMap_append, ih, Nat.succ_mul,
        List.range_add, List.map_append, List.flatMap_singleton, List.map_map]
      rfl

/-- Rows that are written one after the other do not meet. -/
theorem nodup_moves_twoD (hle : numY.toNat * numBytesX.toNat ≤ 2 ^ 32) :
    ((Transfer.twoD dst numBytesX src srcPitch numBytesX numY).moves.map
      Move.dst).Nodup := by
  have hdsts : (Transfer.twoD dst numBytesX src srcPitch numBytesX
      numY).moves.map Move.dst =
        (List.range (numY.toNat * numBytesX.toNat)).map
          fun i => dst + BitVec.ofNat 32 i := by
    rw [← flatMap_range_map_range, Transfer.moves, rowsMoves, List.map_flatMap,
      Transfer.rows, List.flatMap_map]
    refine List.flatMap_congr fun y _ => ?_
    rw [rowMoves, List.map_map]
    refine List.map_congr_left fun j _ => ?_
    show dst + BitVec.ofInt 32 (y * numBytesX.toInt) + BitVec.ofNat 32 j = _
    rw [ofInt_mul_toInt, BitVec.ofNat_add, ← add_assoc, BitVec.ofNat_mul,
      BitVec.ofNat_toNat, BitVec.setWidth_eq]
  rw [hdsts]
  refine List.Nodup.map_on (fun i hi j hj heq => ?_) List.nodup_range
  have heq := congrArg BitVec.toNat (add_left_cancel heq)
  rw [BitVec.toNat_ofNat, BitVec.toNat_ofNat,
    Nat.mod_eq_of_lt ((List.mem_range.mp hi).trans_le hle),
    Nat.mod_eq_of_lt ((List.mem_range.mp hj).trans_le hle)] at heq
  exact heq

/-! ## Where a program may begin -/

/-- A memory with some words at some addresses. -/
def demoMemory (blocks : List (Word × List Word)) : Memory 32 :=
  blocks.foldl (fun mem b => write mem b.1 (b.2.flatMap bytes32)) fun _ => 0

/-- Requests are worked on in any order. -/
def anyOrder : TransferControllers := ⟨fun _ => True, trivial⟩

/-- The system before anything has been transferred. -/
def demoSys (blocks : List (Word × List Word)) : Sys where
  mem := demoMemory blocks
  dma :=
    { qdma := fun _ => ⟨0, 0, 0, false⟩
      tpcc :=
        { param := fun _ _ => 0, qchmap := fun _ => 0, qeer := fun _ => false
          pending := [], trace := [] } }
  queue := []
  ipr := fun _ => false

end C64Tools.Qdma
