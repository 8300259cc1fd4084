import C64Tools.Library.ByteMemory
import C64Tools.Library.Paging

/-!
# Memory behind a page table

Bytes are loaded and stored at the addresses of a page table, upwards from an
address.  An access belongs to the mapping in which it starts, and is undefined
if it leaves that mapping.
-/

namespace Paging.Table

open ByteMemory

variable {w : ℕ}

/-- Store some bytes one after the other, all in one mapping. -/
def store (T : Table) (pageSize mapping : ℕ) :
    Memory w → ℕ → List Byte → Option (Memory w)
  | mem, _, [] => some mem
  | mem, addr, b :: bs =>
      match T.byteAt pageSize addr with
      | some (m, target) =>
          if m = mapping then
            store T pageSize mapping
              (Function.update mem (BitVec.ofNat w target) b) (addr + 1) bs
          else none
      | none => none

/-- Load some bytes one after the other, all from one mapping. -/
def load (T : Table) (pageSize mapping : ℕ) (mem : Memory w) :
    ℕ → ℕ → Option (List Byte)
  | _, 0 => some []
  | addr, n + 1 =>
      match T.byteAt pageSize addr with
      | some (m, target) =>
          if m = mapping then
            (load T pageSize mapping mem (addr + 1) n).map
              (mem (BitVec.ofNat w target) :: ·)
          else none
      | none => none

variable {T : Table} {m : Area} {mem : Memory w} {bs : List Byte}
  {pageSize mapping addr target n : ℕ}

theorem store_cons_eq_some {b : Byte} {mem' : Memory w} :
    T.store pageSize mapping mem addr (b :: bs) = some mem' ↔
      ∃ target, T.byteAt pageSize addr = some (mapping, target) ∧
        T.store pageSize mapping
          (Function.update mem (BitVec.ofNat w target) b) (addr + 1) bs =
            some mem' := by
  rw [store]
  split
  next m target hbyte =>
    rw [Option.ite_none_right_eq_some]
    constructor
    · rintro ⟨rfl, hrest⟩
      exact ⟨target, hbyte, hrest⟩
    · rintro ⟨target', hbyte', hrest⟩
      obtain ⟨rfl, rfl⟩ := Prod.mk.inj (Option.some.inj (hbyte.symm.trans hbyte'))
      exact ⟨rfl, hrest⟩
  next hnone =>
    refine iff_of_false (Option.some_ne_none _).symm ?_
    rintro ⟨target, hbyte, -⟩
    exact absurd (hnone.symm.trans hbyte) (Option.some_ne_none _).symm

theorem load_succ_eq_some :
    T.load pageSize mapping mem addr (n + 1) = some bs ↔
      ∃ target rest, T.byteAt pageSize addr = some (mapping, target) ∧
        T.load pageSize mapping mem (addr + 1) n = some rest ∧
          bs = mem (BitVec.ofNat w target) :: rest := by
  rw [load]
  split
  next m target hbyte =>
    rw [Option.ite_none_right_eq_some, Option.map_eq_some_iff]
    constructor
    · rintro ⟨rfl, rest, hrest, rfl⟩
      exact ⟨target, rest, hbyte, hrest, rfl⟩
    · rintro ⟨target', rest, hbyte', hrest, rfl⟩
      obtain ⟨rfl, rfl⟩ := Prod.mk.inj (Option.some.inj (hbyte.symm.trans hbyte'))
      exact ⟨rfl, rest, hrest, rfl⟩
  next hnone =>
    refine iff_of_false (Option.some_ne_none _).symm ?_
    rintro ⟨target, rest, hbyte, -⟩
    exact absurd (hnone.symm.trans hbyte) (Option.some_ne_none _).symm

/-! ## In the mapping -/

/-- The addresses from one on lead to those from another one on, in the
mapping. -/
def Leads (T : Table) (pageSize mapping addr target n : ℕ) : Prop :=
  ∀ i < n, T.byteAt pageSize (addr + i) = some (mapping, target + i)

theorem Leads.head (h : T.Leads pageSize mapping addr target (n + 1)) :
    T.byteAt pageSize addr = some (mapping, target) :=
  h 0 n.succ_pos

theorem Leads.tail (h : T.Leads pageSize mapping addr target (n + 1)) :
    T.Leads pageSize mapping (addr + 1) (target + 1) n := by
  intro i hi
  have hbyte := h (i + 1) (Nat.succ_lt_succ hi)
  rwa [Nat.add_comm i 1, ← Nat.add_assoc, ← Nat.add_assoc] at hbyte

theorem ofNat_add_one (w target : ℕ) :
    BitVec.ofNat w (target + 1) = BitVec.ofNat w target + 1 :=
  BitVec.ofNat_add target 1

/-- What is stored in the mapping is written to the memory behind it. -/
theorem Leads.store (h : T.Leads pageSize mapping addr target bs.length) :
    T.store pageSize mapping mem addr bs =
      some (write mem (BitVec.ofNat w target) bs) := by
  induction bs generalizing mem addr target with
  | nil => rfl
  | cons b bs ih =>
      refine store_cons_eq_some.mpr ⟨target, h.head, ?_⟩
      rw [ih h.tail, ofNat_add_one]
      rfl

/-- What is loaded in the mapping is read from the memory behind it. -/
theorem Leads.load (h : T.Leads pageSize mapping addr target n) :
    T.load pageSize mapping mem addr n =
      some (read mem (BitVec.ofNat w target) n) := by
  induction n generalizing addr target with
  | zero => rfl
  | succ n ih =>
      refine load_succ_eq_some.mpr ⟨target, _, h.head, ih h.tail, ?_⟩
      rw [ofNat_add_one]
      rfl

/-! ## Out of the mapping -/

theorem mapping_of_store {mem' : Memory w}
    (h : T.store pageSize mapping mem addr bs = some mem') {i : ℕ}
    (hi : i < bs.length) :
    ∃ target, T.byteAt pageSize (addr + i) = some (mapping, target) := by
  induction bs generalizing mem addr i with
  | nil => exact absurd hi (Nat.not_lt_zero i)
  | cons b bs ih =>
      obtain ⟨target, hbyte, hrest⟩ := store_cons_eq_some.mp h
      cases i with
      | zero => exact ⟨target, hbyte⟩
      | succ i =>
          obtain ⟨target', hbyte'⟩ := ih hrest (Nat.lt_of_succ_lt_succ hi)
          rw [Nat.add_comm i 1, ← Nat.add_assoc]
          exact ⟨target', hbyte'⟩

theorem mapping_of_load (h : T.load pageSize mapping mem addr n = some bs)
    {i : ℕ} (hi : i < n) :
    ∃ target, T.byteAt pageSize (addr + i) = some (mapping, target) := by
  induction n generalizing addr bs i with
  | zero => exact absurd hi (Nat.not_lt_zero i)
  | succ n ih =>
      obtain ⟨target, rest, hbyte, hrest, -⟩ := load_succ_eq_some.mp h
      cases i with
      | zero => exact ⟨target, hbyte⟩
      | succ i =>
          obtain ⟨target', hbyte'⟩ := ih hrest (Nat.lt_of_succ_lt_succ hi)
          rw [Nat.add_comm i 1, ← Nat.add_assoc]
          exact ⟨target', hbyte'⟩

/-- Addresses in the mapping of an area lead on from where the first one leads
to. -/
theorem Has.leads (h : T.Has m) (hsize : 0 < pageSize) {k : ℕ}
    (hk : k < m.pages * pageSize)
    (hall : ∀ i < n, ∃ target,
      T.byteAt pageSize (m.first * pageSize + k + i) =
        some (m.mapping, target)) :
    T.Leads pageSize m.mapping (m.first * pageSize + k)
      (m.target * pageSize + k) n := by
  refine (h.byteAt_iff hsize hk).mpr ?_
  by_contra hgt
  obtain ⟨target, hbyte⟩ := hall (m.pages * pageSize - k) (by omega)
  refine h.byteAt_ne hsize ?_ target hbyte
  rw [Nat.add_mul]
  omega

/-! ## A mapping that comes and goes -/

/-- To remove what was just mapped leaves what was there before. -/
theorem drop_map (hnew : ∀ p f, T p = some f → f.mapping ≠ m.mapping)
    (hfree : T.Free m.first m.pages) :
    (T.map m).drop (some m.mapping) = T := by
  funext p
  ext f
  rw [drop_eq_some_iff]
  by_cases hp : m.Covers p
  · rw [map_of_covers hp, hfree p hp.1 hp.2]
    refine iff_of_false ?_ (Option.some_ne_none f).symm
    rintro ⟨hf, hne⟩
    obtain rfl := Option.some.inj hf
    exact hne rfl
  · rw [map_of_not_covers hp]
    refine and_iff_left_of_imp fun hf hmapping => ?_
    exact hnew p f hf (Option.some.inj hmapping).symm

end Paging.Table
