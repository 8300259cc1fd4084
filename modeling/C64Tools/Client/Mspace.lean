import C64Tools.Library.Blocks
import C64Tools.Library.ByteMemory
import C64Tools.Library.Transition

/-!
# Allocation in a memory space

`dsp_mspace_malloc()` and `dsp_mspace_memalign()` ask the vendored allocator for
four bytes more, keep the size in these, and hand out the address behind them.  So
the alignment of an aligned block is lost if it is more than four, and the sum of
sizes is kept in a signed word.

The allocator is left open: its answers are arguments, and between two calls it
may change all bytes that are in no live block.
-/

namespace C64Tools.Client

open ByteMemory Blocks Transition

abbrev Word := BitVec 32

/-! ## The wrappers -/

/-- The memory, and the counters of `dsp_mspace_t`. -/
structure Mspace where
  mem : Memory 32
  totalNumBytes : Word
  totalAllocs : Word
  totalFrees : Word

/-- What is done with a block that the allocator has returned. -/
def Mspace.enter (p numBytes : Word) (s : Mspace) : Mspace where
  mem := write s.mem p (bytes32 numBytes)
  totalNumBytes := s.totalNumBytes + numBytes
  totalAllocs := s.totalAllocs + 1
  totalFrees := s.totalFrees

/-- `dsp_mspace_malloc()`; the handle is `none` if it is null. -/
def dspMspaceMalloc (mspaceMalloc : Word → Option Word) (numBytes : Word) :
    Option Mspace → Word × Option Mspace
  | some s =>
      match mspaceMalloc (numBytes + 4) with
      | none => (0, some s)
      | some p => (p + 4, some (s.enter p numBytes))
  | none => (0, none)

/-- `dsp_mspace_memalign()`. -/
def dspMspaceMemalign (mspaceMemalign : Word → Word → Option Word)
    (alignment numBytes : Word) : Option Mspace → Word × Option Mspace
  | some s =>
      match mspaceMemalign alignment (numBytes + 4) with
      | none => (0, some s)
      | some p => (p + 4, some (s.enter p numBytes))
  | none => (0, none)

/-- `dsp_mspace_free()`, with what is given to `mspace_free()`. -/
def dspMspaceFree (ptr : Word) :
    Option Mspace → Option Word × Option Mspace
  | some s =>
      if ptr ≠ 0 then
        let numBytes := readWord32 s.mem (ptr - 4)
        (some (ptr - 4),
          some { s with
            totalFrees := s.totalFrees + 1
            totalNumBytes := s.totalNumBytes - numBytes })
      else (none, some s)
  | none => (none, none)

/-! ## Runs -/

/-- A block of the allocator, and the pointer that was returned for it. -/
structure LiveBlock where
  block : Block
  ptr : Word
  alignment : Word
  numBytes : Word
  deriving DecidableEq, Repr

/-- The address of a block. -/
def addr (b : Block) : Word := BitVec.ofNat 32 b.base

/-- An address in a block. -/
def LiveBlock.Holds (l : LiveBlock) (x : Word) : Prop :=
  l.block.base ≤ x.toNat ∧ x.toNat < l.block.base + l.block.size

/-- An address which the caller may use. -/
def LiveBlock.MayUse (l : LiveBlock) (x : Word) : Prop :=
  l.ptr.toNat ≤ x.toNat ∧ x.toNat < l.ptr.toNat + l.numBytes.toNat

structure MspaceRun where
  mspace : Mspace
  live : List LiveBlock

/-- The sum of the sizes which were asked for. -/
def MspaceRun.liveBytes (s : MspaceRun) : ℕ :=
  (s.live.map fun l => l.numBytes.toNat).sum

/-- A call, or a change of the memory between calls. -/
inductive MspaceEvent where
  | malloc (mspaceMalloc : Word → Option Block) (numBytes : Word)
  | memalign (mspaceMemalign : Word → Word → Option Block)
      (alignment numBytes : Word)
  | free (l : LiveBlock)
  | memory (mem : Memory 32)

/-- A block is as large and aligned as it is asked for, and lies apart from
all others. -/
structure Fits (s : MspaceRun) (alignment asked : Word) (b : Block) :
    Prop where
  pos : 0 < b.base
  end_lt : b.base + b.size < 2 ^ 32
  size_le : asked.toNat ≤ b.size
  aligned : alignment.toNat ∣ b.base
  apart : ∀ l ∈ s.live, b.Apart l.block

/-- The state after an allocation, and the new block. -/
def MspaceRun.allocated (s : MspaceRun) (r : Word × Option Mspace)
    (answer : Option Block) (alignment numBytes : Word) : MspaceRun where
  mspace := r.2.getD s.mspace
  live := (answer.map fun b => ⟨b, r.1, alignment, numBytes⟩).toList ++ s.live

def MspaceRun.step (s : MspaceRun) : MspaceEvent → MspaceRun → Prop
  | .malloc mspaceMalloc numBytes, t =>
      (∀ asked b, mspaceMalloc asked = some b → Fits s 1 asked b) ∧
        t = s.allocated
          (dspMspaceMalloc (fun asked => (mspaceMalloc asked).map addr)
            numBytes (some s.mspace))
          (mspaceMalloc (numBytes + 4)) 1 numBytes
  | .memalign mspaceMemalign alignment numBytes, t =>
      (∃ k, alignment.toNat = 2 ^ k) ∧
        (∀ asked b, mspaceMemalign alignment asked = some b →
          Fits s alignment asked b) ∧
        t = s.allocated
          (dspMspaceMemalign
            (fun alignment asked => (mspaceMemalign alignment asked).map addr)
            alignment numBytes (some s.mspace))
          (mspaceMemalign alignment (numBytes + 4)) alignment numBytes
  | .free l, t =>
      l ∈ s.live ∧
        t = { mspace := (dspMspaceFree l.ptr (some s.mspace)).2.getD s.mspace
              live := s.live.erase l }
  | .memory mem, t =>
      (∀ x, mem x ≠ s.mspace.mem x →
        (∀ l ∈ s.live, ¬ l.Holds x) ∨ ∃ l ∈ s.live, l.MayUse x) ∧
        t = { s with mspace := { s.mspace with mem := mem } }

/-- Any calls, on a memory space that has been created. -/
def mspaceMachine : Machine MspaceRun MspaceEvent where
  init s := s.mspace.totalNumBytes = 0 ∧ s.mspace.totalAllocs = 0 ∧
    s.mspace.totalFrees = 0 ∧ s.live = []
  step s e t := s.step e t

/-- Every pointer can be used as it was asked for, freeing it hands its block
back, and the counters agree with what is live. -/
structure Accounts (s : MspaceRun) : Prop where
  usable : ∀ l ∈ s.live, l.block.base ≤ l.ptr.toNat ∧
    l.ptr.toNat + l.numBytes.toNat ≤ l.block.base + l.block.size
  aligned : ∀ l ∈ s.live, l.alignment.toNat ∣ l.ptr.toNat
  freed : ∀ l ∈ s.live,
    (dspMspaceFree l.ptr (some s.mspace)).1 = some (addr l.block)
  bytes : s.mspace.totalNumBytes.toInt = s.liveBytes
  count : (s.mspace.totalAllocs - s.mspace.totalFrees).toInt =
    s.live.length

/-- The size with its header does not wrap around, and the sum of sizes stays
positive in a signed word. -/
def SizeOk (s : MspaceRun) (numBytes : Word) : Prop :=
  numBytes.toNat + 4 < 2 ^ 32 ∧ s.liveBytes + numBytes.toNat < 2 ^ 31

/-- Unless there is no memory left, the size is not too large, and the
alignment is no more than that of the header. -/
def CallOk (s : MspaceRun) : MspaceEvent → Prop
  | .malloc mspaceMalloc numBytes =>
      mspaceMalloc (numBytes + 4) ≠ none → SizeOk s numBytes
  | .memalign mspaceMemalign alignment numBytes =>
      mspaceMemalign alignment (numBytes + 4) ≠ none →
        SizeOk s numBytes ∧ alignment.toNat ≤ 4
  | _ => True

variable {s t : MspaceRun} {b : Block} {l : LiveBlock}
  {alignment numBytes : Word}

/-! ## Both wrappers are one -/

/-- An allocation that succeeds. -/
def MspaceRun.push (s : MspaceRun) (b : Block) (alignment numBytes : Word) :
    MspaceRun where
  mspace := s.mspace.enter (addr b) numBytes
  live := ⟨b, addr b + 4, alignment, numBytes⟩ :: s.live

/-- What a step does. -/
inductive Stepped (s : MspaceRun) (e : MspaceEvent) : MspaceRun → Prop
  | refused : CallOk s e → Stepped s e s
  | allocated {alignment numBytes : Word} {b : Block} :
      Fits s alignment (numBytes + 4) b → (∃ k, alignment.toNat = 2 ^ k) →
      (CallOk s e ↔ SizeOk s numBytes ∧ alignment.toNat ≤ 4) →
      Stepped s e (s.push b alignment numBytes)
  | freed {l : LiveBlock} : CallOk s e → l ∈ s.live →
      Stepped s e
        { mspace := (dspMspaceFree l.ptr (some s.mspace)).2.getD s.mspace
          live := s.live.erase l }
  | memory {mem : Memory 32} : CallOk s e →
      (∀ x, mem x ≠ s.mspace.mem x →
        (∀ l ∈ s.live, ¬ l.Holds x) ∨ ∃ l ∈ s.live, l.MayUse x) →
      Stepped s e { s with mspace := { s.mspace with mem := mem } }

theorem stepped_of_step {e : MspaceEvent} (h : s.step e t) :
    Stepped s e t := by
  cases e with
  | malloc mspaceMalloc numBytes =>
      obtain ⟨hfits, rfl⟩ := h
      rw [dspMspaceMalloc]
      cases hp : mspaceMalloc (numBytes + 4) with
      | none => exact .refused fun hne => absurd hp hne
      | some b =>
          refine .allocated (hfits _ b hp) ⟨0, rfl⟩ ?_
          have hne : mspaceMalloc (numBytes + 4) ≠ none := by
            rw [hp]
            exact Option.some_ne_none b
          exact ⟨fun h => ⟨h hne, by decide⟩, fun h _ => h.1⟩
  | memalign mspaceMemalign alignment numBytes =>
      obtain ⟨hpow, hfits, rfl⟩ := h
      rw [dspMspaceMemalign]
      cases hp : mspaceMemalign alignment (numBytes + 4) with
      | none => exact .refused fun hne => absurd hp hne
      | some b =>
          refine .allocated (hfits _ b hp) hpow ?_
          have hne : mspaceMemalign alignment (numBytes + 4) ≠ none := by
            rw [hp]
            exact Option.some_ne_none b
          exact ⟨fun h => h hne, fun h _ => h⟩
  | free l =>
      obtain ⟨hl, rfl⟩ := h
      exact .freed trivial hl
  | memory mem =>
      obtain ⟨hmem, rfl⟩ := h
      exact .memory trivial hmem

/-! ## What allowed calls keep -/

/-- The pointer lies behind the header, which is in the block like the bytes
that were asked for. -/
structure Laid (l : LiveBlock) : Prop where
  pos : 0 < l.block.base
  end_lt : l.block.base + l.block.size < 2 ^ 32
  size_le : l.numBytes.toNat + 4 ≤ l.block.size
  ptr : l.ptr = addr l.block + 4
  aligned : l.alignment.toNat ∣ l.block.base
  small : l.alignment.toNat ∣ 4

structure Kept (s : MspaceRun) : Prop where
  laid : ∀ l ∈ s.live, Laid l
  apart : s.live.Pairwise fun l m => l.block.Apart m.block
  header : ∀ l ∈ s.live,
    readWord32 s.mspace.mem (addr l.block) = l.numBytes
  bytes : s.mspace.totalNumBytes = BitVec.ofNat 32 s.liveBytes
  bytes_lt : s.liveBytes < 2 ^ 31
  count : s.mspace.totalAllocs - s.mspace.totalFrees =
    BitVec.ofNat 32 s.live.length

theorem toNat_addr (h : b.base < 2 ^ 32) : (addr b).toNat = b.base := by
  rw [addr, BitVec.toNat_ofNat, Nat.mod_eq_of_lt h]

theorem toNat_addr_add (h : b.base + 4 < 2 ^ 32) :
    (addr b + 4).toNat = b.base + 4 := by
  have hfour : (4 : Word).toNat = 4 := rfl
  rw [BitVec.toNat_add, toNat_addr (by omega), hfour, Nat.mod_eq_of_lt h]

theorem Laid.toNat_ptr (h : Laid l) : l.ptr.toNat = l.block.base + 4 := by
  have hend := h.end_lt
  have hsize := h.size_le
  rw [h.ptr, toNat_addr_add (by omega)]

/-- The header of a block. -/
theorem Laid.inRange_header (h : Laid l) {x : Word} :
    InRange (addr l.block) 4 x ↔
      l.block.base ≤ x.toNat ∧ x.toNat < l.block.base + 4 := by
  have hend := h.end_lt
  have hsize := h.size_le
  have haddr : (addr l.block).toNat = l.block.base := toNat_addr (by omega)
  rw [inRange_iff_toNat (by omega), haddr]

theorem Laid.dspMspaceFree (h : Laid l) (m : Mspace) :
    dspMspaceFree l.ptr (some m) =
      (some (addr l.block),
        some { m with
          totalFrees := m.totalFrees + 1
          totalNumBytes := m.totalNumBytes -
            readWord32 m.mem (addr l.block) }) := by
  have hne : l.ptr ≠ 0 := by
    intro hzero
    have hnat := h.toNat_ptr
    rw [hzero] at hnat
    exact absurd hnat.symm (Nat.succ_ne_zero _)
  have hsub : l.ptr - 4 = addr l.block := by
    rw [h.ptr, add_sub_cancel_right]
  rw [Client.dspMspaceFree, if_pos hne, hsub]

/-! ## One step -/

theorem SizeOk.toNat_add (h : SizeOk s numBytes) :
    (numBytes + 4).toNat = numBytes.toNat + 4 := by
  have hfour : (4 : Word).toNat = 4 := rfl
  rw [BitVec.toNat_add, hfour, Nat.mod_eq_of_lt h.1]

theorem Kept.push (h : Kept s) (hfits : Fits s alignment (numBytes + 4) b)
    (hpow : ∃ k, alignment.toNat = 2 ^ k) (hsize : SizeOk s numBytes)
    (hsmall : alignment.toNat ≤ 4) : Kept (s.push b alignment numBytes) := by
  have hend := hfits.end_lt
  have hasked := hfits.size_le
  rw [hsize.toNat_add] at hasked
  have hdvd : alignment.toNat ∣ 4 := by
    obtain ⟨k, hk⟩ := hpow
    have hle : k ≤ 2 := by
      by_contra hgt
      have h8 : 2 ^ 3 ≤ 2 ^ k := Nat.pow_le_pow_right (by decide) (by omega)
      omega
    rw [hk]
    exact pow_dvd_pow 2 hle
  have hlaid : Laid ⟨b, addr b + 4, alignment, numBytes⟩ :=
    ⟨hfits.pos, hend, hasked, rfl, hfits.aligned, hdvd⟩
  refine ⟨?_, ?_, ?_, ?_, ?_, ?_⟩
  · intro l hl
    obtain rfl | hl := List.mem_cons.mp hl
    · exact hlaid
    · exact h.laid l hl
  · exact List.pairwise_cons.mpr ⟨hfits.apart, h.apart⟩
  · intro l hl
    obtain rfl | hl := List.mem_cons.mp hl
    · exact readWord32_write_bytes32 (by decide) numBytes
    · -- the new header is in no other block
      have hl' := h.laid l hl
      rw [← h.header l hl]
      refine readWord32_congr fun x hx => write_of_not_inRange ?_
      rw [length_bytes32, hlaid.inRange_header]
      show ¬ (b.base ≤ x.toNat ∧ x.toNat < b.base + 4)
      rw [hl'.inRange_header] at hx
      have hroom := hl'.size_le
      obtain hap | hap := hfits.apart l hl <;> omega
  · show s.mspace.totalNumBytes + numBytes = BitVec.ofNat 32 _
    rw [h.bytes]
    show _ = BitVec.ofNat 32 (numBytes.toNat + s.liveBytes)
    rw [BitVec.ofNat_add, BitVec.ofNat_toNat, BitVec.setWidth_eq, add_comm]
  · show numBytes.toNat + s.liveBytes < 2 ^ 31
    rw [Nat.add_comm]
    exact hsize.2
  · show s.mspace.totalAllocs + 1 - s.mspace.totalFrees = _
    rw [add_sub_right_comm, h.count]
    exact (BitVec.ofNat_add _ _).symm

theorem Kept.free (h : Kept s) (hl : l ∈ s.live) :
    Kept
      { mspace := (dspMspaceFree l.ptr (some s.mspace)).2.getD s.mspace
        live := s.live.erase l } := by
  have hperm := List.perm_cons_erase hl
  have hbytes : s.liveBytes = l.numBytes.toNat +
      ((s.live.erase l).map fun l => l.numBytes.toNat).sum :=
    (hperm.map _).sum_eq
  have hlength : s.live.length = (s.live.erase l).length + 1 :=
    hperm.length_eq
  have hlt := h.bytes_lt
  rw [(h.laid l hl).dspMspaceFree]
  refine ⟨fun m hm => h.laid m (List.mem_of_mem_erase hm),
    h.apart.sublist List.erase_sublist,
    fun m hm => h.header m (List.mem_of_mem_erase hm), ?_, ?_, ?_⟩
  · show s.mspace.totalNumBytes - readWord32 s.mspace.mem (addr l.block) = _
    rw [h.bytes, h.header l hl, hbytes, BitVec.ofNat_add, BitVec.ofNat_toNat,
      BitVec.setWidth_eq, add_sub_cancel_left]
    rfl
  · show ((s.live.erase l).map fun l => l.numBytes.toNat).sum < 2 ^ 31
    omega
  · show s.mspace.totalAllocs - (s.mspace.totalFrees + 1) = _
    rw [← sub_sub, h.count, hlength, BitVec.ofNat_add]
    exact add_sub_cancel_right _ _

/-- Nobody but the wrappers writes a header. -/
theorem Kept.memory (h : Kept s) {mem : Memory 32}
    (hmem : ∀ x, mem x ≠ s.mspace.mem x →
      (∀ l ∈ s.live, ¬ l.Holds x) ∨ ∃ l ∈ s.live, l.MayUse x) :
    Kept { s with mspace := { s.mspace with mem := mem } } := by
  refine ⟨h.laid, h.apart, ?_, h.bytes, h.bytes_lt, h.count⟩
  intro l hl
  have hlaid := h.laid l hl
  have hroom := hlaid.size_le
  rw [← h.header l hl]
  refine readWord32_congr fun x hx => ?_
  rw [hlaid.inRange_header] at hx
  by_contra hne
  obtain hfree | ⟨m, hm, huse⟩ := hmem x hne
  · exact hfree l hl ⟨hx.1, by omega⟩
  · have hmlaid := h.laid m hm
    have hmroom := hmlaid.size_le
    rw [LiveBlock.MayUse, hmlaid.toNat_ptr] at huse
    obtain rfl | hml := eq_or_ne l m
    · omega
    · have hsymm : Std.Symm
          fun l m : LiveBlock => l.block.Apart m.block :=
        ⟨fun _ _ => Block.Apart.symm⟩
      obtain hap | hap := h.apart.forall hl hm hml <;> omega

theorem Kept.step {e : MspaceEvent} (h : Kept s) (hok : CallOk s e)
    (hstep : s.step e t) : Kept t := by
  cases stepped_of_step hstep with
  | refused => exact h
  | allocated hfits hpow hiff =>
      obtain ⟨hsize, hsmall⟩ := hiff.mp hok
      exact h.push hfits hpow hsize hsmall
  | freed _ hl => exact h.free hl
  | memory _ hmem => exact h.memory hmem

theorem toInt_ofNat {n : ℕ} (h : n < 2 ^ 31) :
    (BitVec.ofNat 32 n).toInt = n := by
  have hnat : (BitVec.ofNat 32 n).toNat = n := by
    rw [BitVec.toNat_ofNat, Nat.mod_eq_of_lt (by omega)]
  rw [BitVec.toInt_eq_toNat_of_lt (by omega), hnat]

theorem Kept.accounts (h : Kept s) : Accounts s := by
  refine ⟨?_, ?_, ?_, ?_, ?_⟩
  · intro l hl
    have hroom := (h.laid l hl).size_le
    rw [(h.laid l hl).toNat_ptr]
    omega
  · intro l hl
    rw [(h.laid l hl).toNat_ptr]
    exact Nat.dvd_add (h.laid l hl).aligned (h.laid l hl).small
  · intro l hl
    rw [(h.laid l hl).dspMspaceFree]
  · have hlt := h.bytes_lt
    rw [h.bytes, toInt_ofNat hlt]
  · have hapart : (s.live.map LiveBlock.block).Pairwise Block.Apart :=
      List.pairwise_map.mpr h.apart
    have hlength := length_mul_le (n := 2 ^ 32) (k := 4) hapart
      (fun b hb => by
        obtain ⟨l, hl, rfl⟩ := List.mem_map.mp hb
        exact (h.laid l hl).end_lt.le)
      (fun b hb => by
        obtain ⟨l, hl, rfl⟩ := List.mem_map.mp hb
        exact Nat.le_trans (Nat.le_add_left _ _) (h.laid l hl).size_le)
    rw [List.length_map] at hlength
    rw [h.count, toInt_ofNat (by omega)]

/-! ## What the accounts need -/

/-- A block for which the pointer can be used is one of an allowed size. -/
theorem Accounts.sizeOk (h : Accounts (s.push b alignment numBytes))
    (hfits : Fits s alignment (numBytes + 4) b) :
    SizeOk s numBytes ∧ alignment.toNat ≤ 4 := by
  let l : LiveBlock := ⟨b, addr b + 4, alignment, numBytes⟩
  have hl : l ∈ (s.push b alignment numBytes).live := List.mem_cons_self
  have hend := hfits.end_lt
  obtain ⟨hlow, hhigh⟩ : b.base ≤ (addr b + 4).toNat ∧
      (addr b + 4).toNat + numBytes.toNat ≤ b.base + b.size := h.usable l hl
  have haddr : (addr b).toNat = b.base := toNat_addr (by omega)
  -- the pointer does not wrap around, or it would lie below the block
  have hptr : (addr b + 4).toNat = b.base + 4 := by
    refine toNat_addr_add ?_
    by_contra hge
    have hfour : (4 : Word).toNat = 4 := rfl
    rw [BitVec.toNat_add, haddr, hfour] at hlow
    omega
  refine ⟨⟨by omega, ?_⟩, ?_⟩
  · have hbytes : (s.mspace.totalNumBytes + numBytes).toInt =
        ((numBytes.toNat + s.liveBytes : ℕ) : Int) := h.bytes
    have hlt := BitVec.toInt_lt (x := s.mspace.totalNumBytes + numBytes)
    omega
  · have haligned : alignment.toNat ∣ (addr b + 4).toNat := h.aligned l hl
    rw [hptr] at haligned
    have hfour := (Nat.dvd_add_right hfits.aligned).mp haligned
    exact Nat.le_of_dvd (by decide) hfour

/-- What only succeeds with good accounts is an allowed call. -/
theorem Accounts.callOk {e : MspaceEvent} (h : Accounts t)
    (hstep : s.step e t) : CallOk s e := by
  cases stepped_of_step hstep with
  | refused hok => exact hok
  | allocated hfits _ hiff => exact hiff.mpr (h.sizeOk hfits)
  | freed hok _ => exact hok
  | memory hok _ => exact hok

/-- Nothing is live in a memory space that has just been created. -/
theorem kept_of_init (h : mspaceMachine.init s) : Kept s := by
  obtain ⟨hbytes, hallocs, hfrees, hlive⟩ := h
  have hnone : ∀ l, l ∉ s.live := by
    intro l
    rw [hlive]
    exact List.not_mem_nil
  have hsum : s.liveBytes = 0 := by
    rw [MspaceRun.liveBytes, hlive]
    rfl
  refine ⟨fun l hl => absurd hl (hnone l), ?_,
    fun l hl => absurd hl (hnone l), ?_, ?_, ?_⟩
  · rw [hlive]
    exact .nil
  · rw [hbytes, hsum]
    rfl
  · omega
  · rw [hallocs, hfrees, hlive]
    rfl

/-- In all runs of allowed calls the accounts are good, and no other call can
be added. -/
theorem accounts_and_iff_callOk
    (h : (mspaceMachine.restrict CallOk).Reachable s) :
    Accounts s ∧ ∀ e t, s.step e t → (Accounts t ↔ CallOk s e) := by
  have hkept : Kept s := by
    refine Machine.Reachable.invariant ?_ ?_ h
    · exact fun _ => kept_of_init
    · rintro s e t hs ⟨hok, hstep⟩
      exact hs.step hok hstep
  refine ⟨hkept.accounts, fun e t hstep => ⟨?_, ?_⟩⟩
  · intro ht
    exact ht.callOk hstep
  · intro hok
    exact (hkept.step hok hstep).accounts

/-! ## One block -/

/-- A memory space that has just been created. -/
def created : MspaceRun := ⟨⟨fun _ => 0, 0, 0, 0⟩, []⟩

/-- An allocator with one block, for eight bytes and a header. -/
def oneBlock (asked : Word) : Option Block :=
  if asked = 12 then some ⟨64, 64⟩ else none

theorem fits_oneBlock (halign : alignment.toNat ∣ 64) {asked : Word}
    (h : oneBlock asked = some b) : Fits created alignment asked b := by
  obtain ⟨rfl, hb⟩ := Option.ite_none_right_eq_some.mp h
  obtain rfl := Option.some.inj hb
  exact ⟨by decide, by decide, by decide, halign,
    fun l hl => absurd hl List.not_mem_nil⟩

theorem accounts_and_iff_callOk_malloc :
    Accounts (created.push ⟨64, 64⟩ 1 8) ∧
      ∀ e t, (created.push ⟨64, 64⟩ 1 8).step e t →
        (Accounts t ↔ CallOk (created.push ⟨64, 64⟩ 1 8) e) :=
  accounts_and_iff_callOk
    (.step (e := .malloc oneBlock 8) (.init ⟨rfl, rfl, rfl, rfl⟩)
      ⟨fun _ => ⟨by decide, by decide⟩,
        fun _ _ => fits_oneBlock (by decide), rfl⟩)

/-- Eight bytes that shall be aligned to eight bytes are not. -/
theorem not_accounts : ¬ ∀ s, mspaceMachine.Reachable s → Accounts s := by
  intro h
  have haccounts := h (created.push ⟨64, 64⟩ 8 8)
    (.step (e := .memalign (fun _ => oneBlock) 8 8) (.init ⟨rfl, rfl, rfl, rfl⟩)
      ⟨⟨3, rfl⟩, fun _ _ => fits_oneBlock (by decide), rfl⟩)
  have haligned := haccounts.aligned _ List.mem_cons_self
  exact absurd haligned (by decide)

end C64Tools.Client
