import C64Tools.DemoChecksum.Model
import C64Tools.Qdma.Plain
import Mathlib.Algebra.BigOperators.Group.Finset.Basic

/-!
# What is summed up

The plain executions of the loops over words, and of those over the blocks of a
working set in one half of the scratch buffer.
-/

namespace C64Tools.DemoChecksum

open Edma ByteMemory Qdma Transfers

/-- The sum of some words. -/
def wordsSum (mem : Memory 32) (a : Word) (n : ℕ) : Word :=
  ∑ i ∈ Finset.range n, readWord32 mem (wordAddr a i)

variable {mem mem' : Memory 32} {a x : Word} {n i si : ℕ} {q : Quiet}

/-! ## Words -/

theorem wordAddr_wordAddr (a : Word) (i j : ℕ) :
    wordAddr (wordAddr a i) j = wordAddr a (i + j) := by
  rw [wordAddr, wordAddr, wordAddr, add_assoc, ← BitVec.ofNat_add, ← Nat.mul_add]

/-- The bytes of a word of an array. -/
theorem inRange_wordAddr :
    InRange (wordAddr a i) 4 x ↔ ∃ j < 4, x = a + BitVec.ofNat 32 (4 * i + j) := by
  rw [inRange_iff_exists]
  simp only [wordAddr, add_assoc, ← BitVec.ofNat_add]

/-- Different words of an array have no byte in common. -/
theorem wordAddr_inj {k : ℕ} (hn : 4 * n ≤ 2 ^ 32) (hi : i < n) (hk : k < n)
    (hxi : InRange (wordAddr a i) 4 x) (hxk : InRange (wordAddr a k) 4 x) :
    i = k := by
  obtain ⟨j, hj, rfl⟩ := inRange_wordAddr.mp hxi
  obtain ⟨j', hj', heq⟩ := inRange_wordAddr.mp hxk
  have heq := congrArg BitVec.toNat (add_left_cancel heq)
  rw [BitVec.toNat_ofNat, BitVec.toNat_ofNat, Nat.mod_eq_of_lt (by omega),
    Nat.mod_eq_of_lt (by omega)] at heq
  omega

/-- The bytes of a word of an array that does not wrap around. -/
theorem inRange_word_toNat (hn : a.toNat + 4 * n ≤ 2 ^ 32) (hi : i < n)
    (hx : InRange (wordAddr a i) 4 x) :
    a.toNat ≤ x.toNat ∧ x.toNat < a.toNat + 4 * n := by
  have haddr : (wordAddr a i).toNat = a.toNat + 4 * i := by
    rw [wordAddr, BitVec.toNat_add, BitVec.toNat_ofNat, Nat.add_mod_mod,
      Nat.mod_eq_of_lt (by omega)]
  obtain ⟨hlow, hhigh⟩ := (inRange_iff_toNat (by omega)).mp hx
  omega

theorem wordsSum_succ (mem : Memory 32) (a : Word) (n : ℕ) :
    wordsSum mem a (n + 1) =
      readWord32 mem (wordAddr a 0) + wordsSum mem (wordAddr a 1) n := by
  rw [wordsSum, Finset.sum_range_succ', add_comm]
  refine congrArg _ (Finset.sum_congr rfl fun i _ => ?_)
  rw [wordAddr_wordAddr, Nat.add_comm]

theorem wordsSum_congr {b : Word} (h : ∀ i < n,
    readWord32 mem (wordAddr a i) = readWord32 mem' (wordAddr b i)) :
    wordsSum mem a n = wordsSum mem' b n :=
  Finset.sum_congr rfl fun i hi => h i (Finset.mem_range.mp hi)

/-- Two words with the same bytes. -/
theorem readWord32_eq {b : Word} (h : ∀ j < 4,
    mem (a + BitVec.ofNat 32 j) = mem' (b + BitVec.ofNat 32 j)) :
    readWord32 mem a = readWord32 mem' b := by
  have hread : read mem a 4 = read mem' b 4 := by
    refine List.ext_getElem (by simp) fun i hi hi' => ?_
    rw [getElem_read, getElem_read]
    rw [length_read] at hi
    exact h i hi
  rw [readWord32, readWord32, hread]

theorem write_congr {bs : List Byte} (hlen : bs.length ≤ 2 ^ 32)
    (h : mem x = mem' x) : write mem a bs x = write mem' a bs x := by
  by_cases hx : InRange a bs.length x
  · obtain ⟨i, hi, rfl⟩ := inRange_iff_exists.mp hx
    rw [write_apply hlen hi, write_apply hlen hi]
  · rw [write_of_not_inRange hx, write_of_not_inRange hx, h]

theorem plain_addWords (add : Word)
    (h : ∀ i < n, ∀ y, InRange (wordAddr a (si + i)) 4 y → q.Loadable y) :
    (addWords a si n add).plain q =
      some (add + wordsSum q.mem (wordAddr a si) n, q) := by
  induction n generalizing si add with
  | zero =>
      rw [wordsSum, Finset.range_zero, Finset.sum_empty, add_zero]
      rfl
  | succ n ih =>
      have hfirst := plain_loadWord (h 0 (Nat.succ_pos n))
      rw [Nat.add_zero] at hfirst
      have hrest : ∀ i < n, ∀ y,
          InRange (wordAddr a (si + 1 + i)) 4 y → q.Loadable y := by
        intro i hi
        rw [Nat.add_assoc, Nat.add_comm 1 i]
        exact h (i + 1) (Nat.succ_lt_succ hi)
      rw [addWords, Program.plain_bind_of_eq hfirst, ih _ hrest, wordsSum_succ,
        wordAddr_wordAddr, wordAddr_wordAddr, add_assoc]
      rfl

/-- The number of words is read in each round, and is always the same. -/
theorem plain_addWordsTo {numDwords : Program Word} {w : Word} {rounds : ℕ}
    (add : Word) (hnum : numDwords.plain q = some (w, q)) (hle : i ≤ w.toNat)
    (hrounds : w.toNat - i < rounds)
    (hload : ∀ j < w.toNat, ∀ y, InRange (wordAddr a j) 4 y → q.Loadable y) :
    (addWordsTo numDwords a rounds i add).plain q =
      (addWords a i (w.toNat - i) add).plain q := by
  induction rounds generalizing i add with
  | zero => exact absurd hrounds (Nat.not_lt_zero _)
  | succ rounds ih =>
      rw [addWordsTo, Program.plain_bind_of_eq hnum]
      obtain hlt | rfl := Nat.lt_or_eq_of_le hle
      · have hload' := plain_loadWord (hload i hlt)
        have hleft : w.toNat - i = w.toNat - (i + 1) + 1 := by omega
        rw [if_pos hlt, hleft, addWords, Program.plain_bind_of_eq hload',
          Program.plain_bind_of_eq hload', ih _ hlt (by omega)]
      · rw [if_neg (Nat.lt_irrefl _), Nat.sub_self, addWords]

/-! ## Blocks -/

/-- The arguments of a sum over blocks: those of one iteration are summed up in
one half of the scratch buffer. -/
structure Blocks where
  src : Word
  adv : Word
  dst : Word
  numBytes : ℕ
  numBlocks : ℕ
  numIterations : ℕ
  bAddToDst : Bool

namespace Blocks

variable (b : Blocks)

def total : ℕ := b.numIterations * b.numBlocks

/-- The address of a block. -/
def blockAddr (k : ℕ) : Word := b.src + BitVec.ofNat 32 k * b.adv

/-- What is to be found in the destination for a block. -/
def checksum (mem : Memory 32) (k : ℕ) : Word :=
  (if b.bAddToDst then readWord32 mem (wordAddr b.dst k) else 0) +
    wordsSum mem (b.blockAddr k) (b.numBytes / 4)

/-- The memory with the checksums of the first blocks in it. -/
def out (mem : Memory 32) : ℕ → Memory 32
  | 0 => mem
  | k + 1 => write (out mem k) (wordAddr b.dst k) (bytes32 (b.checksum mem k))

/-- A byte of the scratch buffer. -/
def InScratch (x : Word) : Prop :=
  InRange dspL1dsramScratchbufferBaseDsp dspL1dsramScratchbufferSizeDsp x

instance (x : Word) : Decidable (InScratch x) := by
  unfold InScratch
  infer_instance

/-- Where the blocks and the checksums lie.  A checksum may be stored where blocks
of the same iteration or of earlier ones lie, but not in a block that is still to
be streamed. -/
structure Placed : Prop where
  dst_le : 4 * b.total ≤ 2 ^ 32
  dst_scratch : ∀ k < b.total, ∀ x, InRange (wordAddr b.dst k) 4 x →
    ¬ InScratch x
  src_scratch : ∀ k < b.total, ∀ x, InRange (b.blockAddr k) b.numBytes x →
    ¬ InScratch x
  dst_src : ∀ k k', k' < b.total → k / b.numBlocks < k' / b.numBlocks →
    ∀ x, InRange (wordAddr b.dst k) 4 x →
      ¬ InRange (b.blockAddr k') b.numBytes x

/-- Blocks of whole words, of which those of one iteration fit into half of the
scratch buffer. -/
structure Ok : Prop extends b.Placed where
  words : 4 ∣ b.numBytes
  numBytes_pos : 0 < b.numBytes
  numBlocks_pos : 0 < b.numBlocks
  fits : b.numBlocks * b.numBytes ≤ scratchSize

variable {b} {k y : ℕ} {work next : Word}

theorem out_of_not_mem (h : ∀ i < k, ¬ InRange (wordAddr b.dst i) 4 x) :
    b.out mem k x = mem x := by
  induction k with
  | zero => rfl
  | succ k ih =>
      rw [out, write_of_not_inRange (h k (Nat.lt_succ_self k)),
        ih fun i hi => h i (hi.trans (Nat.lt_succ_self k))]

/-- A word of the destination whose turn has not come. -/
theorem readWord32_out_of_le (h : b.Ok) (hi : i < b.total) (hle : k ≤ i) :
    readWord32 (b.out mem k) (wordAddr b.dst i) =
      readWord32 mem (wordAddr b.dst i) := by
  refine readWord32_congr fun x hx => out_of_not_mem fun j hj hxj => ?_
  have hsame := wordAddr_inj h.dst_le (hj.trans_le (hle.trans hi.le)) hi hxj hx
  omega

/-- A checksum stays where it was stored. -/
theorem readWord32_out (h : b.Ok) (hk : k ≤ b.total) (hi : i < k) :
    readWord32 (b.out mem k) (wordAddr b.dst i) = b.checksum mem i := by
  induction k with
  | zero => exact absurd hi (Nat.not_lt_zero i)
  | succ k ih =>
      rw [out]
      obtain rfl | hne := eq_or_ne i k
      · exact readWord32_write_bytes32 (by decide) _
      · rw [← ih (Nat.le_of_succ_le hk) (by omega)]
        refine readWord32_congr fun x hx => write_of_not_inRange fun hxk => ?_
        exact hne (wordAddr_inj h.dst_le (hi.trans_le hk) hk hx hxk)

/-- Blocks, checksums and the scratch buffer do not meet at all. -/
theorem placed_of_apart (lo hi : ℕ)
    (hspan : ∀ k < b.total, lo ≤ (b.blockAddr k).toNat ∧
      (b.blockAddr k).toNat + b.numBytes ≤ hi) (hhi : hi ≤ 2 ^ 32)
    (hdst : b.dst.toNat + 4 * b.total ≤ 2 ^ 32)
    (hapart : hi ≤ b.dst.toNat ∨ b.dst.toNat + 4 * b.total ≤ lo)
    (hsrc : hi ≤ 0x10F04040 ∨ 0x10F0A000 ≤ lo)
    (hout : b.dst.toNat + 4 * b.total ≤ 0x10F04040 ∨
      0x10F0A000 ≤ b.dst.toNat) : b.Placed := by
  have hscratch : ∀ x, InScratch x → 0x10F04040 ≤ x.toNat ∧
      x.toNat < 0x10F0A000 := by
    intro x hx
    exact (inRange_iff_toNat (by decide)).mp hx
  have hword : ∀ k < b.total, ∀ x, InRange (wordAddr b.dst k) 4 x →
      b.dst.toNat ≤ x.toNat ∧ x.toNat < b.dst.toNat + 4 * b.total :=
    fun _ hk _ hx => inRange_word_toNat hdst hk hx
  have hblock : ∀ k < b.total, ∀ x, InRange (b.blockAddr k) b.numBytes x →
      lo ≤ x.toNat ∧ x.toNat < hi := by
    intro k hk x hx
    obtain ⟨hlow, hhigh⟩ := hspan k hk
    obtain ⟨hx', hx''⟩ := (inRange_iff_toNat (by omega)).mp hx
    omega
  refine ⟨by omega, ?_, ?_, ?_⟩
  · intro k hk x hx hin
    have h1 := hword k hk x hx
    have h2 := hscratch x hin
    omega
  · intro k hk x hx hin
    have h1 := hblock k hk x hx
    have h2 := hscratch x hin
    omega
  · intro k k' hk' hlt x hx hin
    have hk : k < b.total := by
      by_contra hge
      have hle := Nat.div_le_div_right (c := b.numBlocks)
        (hk'.le.trans (Nat.le_of_not_lt hge))
      omega
    have h1 := hword k hk x hx
    have h2 := hblock k' hk' x hin
    omega

/-- A half of the scratch buffer has the blocks of an iteration. -/
def Holds (b : Blocks) (mem₀ : Memory 32) (iter : ℕ) (work : Word)
    (mem : Memory 32) : Prop :=
  ∀ y < b.numBlocks, ∀ j < b.numBytes,
    mem (work + BitVec.ofNat 32 (y * b.numBytes + j)) =
      mem₀ (b.blockAddr (iter * b.numBlocks + y) + BitVec.ofNat 32 j)

/-- The blocks of an iteration, and outside of the scratch buffer some checksums
have been stored. -/
structure Streamed (b : Blocks) (mem₀ : Memory 32) (iter k : ℕ) (work : Word)
    (mem : Memory 32) : Prop where
  outside : ∀ x, ¬ InScratch x → mem x = b.out mem₀ k x
  holds : b.Holds mem₀ iter work mem

/-- The two halves of the scratch buffer. -/
structure Buffers (work next : Word) : Prop where
  workScratch : ∀ o < scratchSize, InScratch (work + BitVec.ofNat 32 o)
  nextScratch : ∀ o < scratchSize, InScratch (next + BitVec.ofNat 32 o)
  apart : ∀ o < scratchSize, ∀ o' < scratchSize,
    work + BitVec.ofNat 32 o ≠ next + BitVec.ofNat 32 o'

theorem Buffers.swap (h : Buffers work next) : Buffers next work :=
  ⟨h.nextScratch, h.workScratch, fun o ho o' ho' heq => h.apart o' ho' o ho heq.symm⟩

theorem scratchSize_eq : scratchSize = 12256 := by decide

theorem buffers_scratch : Buffers scratch1Addr scratch2Addr := by
  have hone : scratch1Addr = dspL1dsramScratchbufferBaseDsp := by decide
  have htwo : scratch2Addr =
      dspL1dsramScratchbufferBaseDsp + BitVec.ofNat 32 12256 := by decide
  have hsize : dspL1dsramScratchbufferSizeDsp = 24512 := by decide
  have hhalf := scratchSize_eq
  rw [hone, htwo]
  refine ⟨fun o ho => inRange_add_ofNat ?_, fun o ho => ?_,
    fun o ho o' ho' heq => ?_⟩
  · omega
  · rw [add_assoc, ← BitVec.ofNat_add]
    refine inRange_add_ofNat ?_
    omega
  · rw [add_assoc, ← BitVec.ofNat_add] at heq
    have heq := congrArg BitVec.toNat (add_left_cancel heq)
    rw [BitVec.toNat_ofNat, BitVec.toNat_ofNat, Nat.mod_eq_of_lt (by omega),
      Nat.mod_eq_of_lt (by omega)] at heq
    omega

/-! ## One iteration -/

theorem block_lt (hy : y < b.numBlocks) {iter : ℕ} (hi : iter < b.numIterations) :
    iter * b.numBlocks + y < b.total := by
  have hle : (iter + 1) * b.numBlocks ≤ b.numIterations * b.numBlocks :=
    Nat.mul_le_mul_right _ hi
  rw [Nat.succ_mul] at hle
  exact (Nat.add_lt_add_left hy _).trans_le hle

theorem offset_lt (h : b.Ok) (hy : y < b.numBlocks) {j : ℕ}
    (hj : j < b.numBytes) : y * b.numBytes + j < scratchSize := by
  have hle : (y + 1) * b.numBytes ≤ b.numBlocks * b.numBytes :=
    Nat.mul_le_mul_right _ hy
  rw [Nat.succ_mul] at hle
  exact (Nat.add_lt_add_left hj _).trans_le (hle.trans h.fits)

/-- The words of a block in the buffer. -/
theorem Holds.readWord32 {mem₀ : Memory 32} {iter : ℕ} (h : b.Holds mem₀ iter work mem)
    (hb : b.Ok) (hy : y < b.numBlocks) (hi : i < b.numBytes / 4) :
    readWord32 mem (wordAddr work (y * (b.numBytes / 4) + i)) =
      readWord32 mem₀ (wordAddr (b.blockAddr (iter * b.numBlocks + y)) i) := by
  obtain ⟨w, hw⟩ := hb.words
  rw [hw, Nat.mul_div_cancel_left w (by decide)] at hi ⊢
  refine readWord32_eq fun j hj => ?_
  have hj' : 4 * i + j < b.numBytes := by omega
  have hbyte := h y hy _ hj'
  rw [wordAddr, wordAddr, add_assoc, add_assoc, ← BitVec.ofNat_add,
    ← BitVec.ofNat_add, ← hbyte, hw]
  congr 3
  rw [Nat.mul_add, Nat.mul_left_comm, Nat.add_assoc]

variable {mem₀ : Memory 32} {iter left : ℕ}

/-- One more checksum is stored; the scratch buffer is not written. -/
theorem Streamed.put (h : b.Streamed mem₀ iter k work mem) (hb : b.Ok)
    (hwork : ∀ o < scratchSize, InScratch (work + BitVec.ofNat 32 o))
    (hk : k < b.total) :
    b.Streamed mem₀ iter (k + 1) work
        (write mem (wordAddr b.dst k) (bytes32 (b.checksum mem₀ k))) ∧
      ∀ x, InScratch x →
        write mem (wordAddr b.dst k) (bytes32 (b.checksum mem₀ k)) x = mem x := by
  have hkeep : ∀ x, InScratch x →
      write mem (wordAddr b.dst k) (bytes32 (b.checksum mem₀ k)) x = mem x :=
    fun x hx => write_of_not_inRange fun hin => hb.dst_scratch k hk x hin hx
  refine ⟨⟨fun x hx => ?_, fun y hy j hj => ?_⟩, hkeep⟩
  · exact write_congr (show 4 ≤ 2 ^ 32 by decide) (h.outside x hx)
  · rw [hkeep _ (hwork _ (offset_lt hb hy hj))]
    exact h.holds y hy j hj

/-- A part of a program that reads something which nobody writes: the transfer under
way keeps to the scratch buffer, and some checksums may have been stored. -/
def Fixed {α : Type} (b : Blocks) (mem₀ : Memory 32) (p : Program α) (r : α) :
    Prop :=
  ∀ k ≤ b.total, ∀ q : Quiet, (∀ x, ¬ InScratch x → q.mem x = b.out mem₀ k x) →
    (∀ x, ¬ InScratch x → q.Loadable x) → p.plain q = some (r, q)

theorem fixed_ret {α : Type} (b : Blocks) (mem₀ : Memory 32) (r : α) :
    b.Fixed mem₀ (.ret r) r :=
  fun _ _ _ _ _ => rfl

theorem Fixed.bind {α β : Type} {p : Program α} {f : α → Program β} {r : α}
    {r' : β} (hp : b.Fixed mem₀ p r) (hf : b.Fixed mem₀ (f r) r') :
    b.Fixed mem₀ (p.bind f) r' := by
  intro k hk q hmem hfree
  rw [Program.plain_bind_of_eq (hp k hk q hmem hfree)]
  exact hf k hk q hmem hfree

/-- An argument block of some words that is apart from what is written. -/
structure ArgsApart (b : Blocks) (args : Word) (n : ℕ) : Prop where
  scratch : ∀ i < n, ∀ x, InRange (wordAddr args i) 4 x → ¬ InScratch x
  dst : ∀ i < n, ∀ k < b.total, ∀ x, InRange (wordAddr b.dst k) 4 x →
    ¬ InRange (wordAddr args i) 4 x

/-- Its words stay. -/
theorem ArgsApart.fixed {args : Word} (h : b.ArgsApart args n) (hi : i < n)
    (mem₀ : Memory 32) :
    b.Fixed mem₀ (loadWord (wordAddr args i))
      (readWord32 mem₀ (wordAddr args i)) := by
  intro k hk q hmem hfree
  have hword : readWord32 q.mem (wordAddr args i) =
      readWord32 mem₀ (wordAddr args i) :=
    readWord32_congr fun x hx => (hmem x (h.scratch i hi x hx)).trans
      (out_of_not_mem fun j hj hin => h.dst i hi j (hj.trans_le hk) x hin hx)
  rw [plain_loadWord fun x hx => hfree x (h.scratch i hi x hx), hword]

/-- An argument block before or behind the checksums, and before or behind the
scratch buffer. -/
theorem argsApart_of_apart {args : Word} (hargs : args.toNat + 4 * n ≤ 2 ^ 32)
    (hdst : b.dst.toNat + 4 * b.total ≤ 2 ^ 32)
    (hscratch : args.toNat + 4 * n ≤ 0x10F04040 ∨ 0x10F0A000 ≤ args.toNat)
    (hapart : args.toNat + 4 * n ≤ b.dst.toNat ∨
      b.dst.toNat + 4 * b.total ≤ args.toNat) : b.ArgsApart args n := by
  constructor
  · intro i hi x hx hin
    have hx' := inRange_word_toNat hargs hi hx
    have hin' := (inRange_iff_toNat (by decide)).mp hin
    have hbase : dspL1dsramScratchbufferBaseDsp.toNat = 0x10F04040 := by decide
    have hsize : dspL1dsramScratchbufferSizeDsp = 24512 := by decide
    omega
  · intro i hi k hk x hx hin
    have hx' := inRange_word_toNat hdst hk hx
    have hin' := inRange_word_toNat hargs hi hin
    omega

/-- The transfer under way keeps clear of an iteration. -/
structure Clear (b : Blocks) (iter : ℕ) (work : Word) (q : Quiet) : Prop where
  outside : ∀ x, ¬ InScratch x → q.Loadable x
  work : ∀ o < scratchSize, q.Loadable (work + BitVec.ofNat 32 o)
  dst : ∀ y < b.numBlocks, ∀ x,
    InRange (wordAddr b.dst (iter * b.numBlocks + y)) 4 x → q.Storable x

theorem Clear.put (h : b.Clear iter work q) (mem : Memory 32) :
    b.Clear iter work (q.put mem) :=
  ⟨h.outside, h.work, h.dst⟩

/-- The words of a block may be read. -/
theorem Clear.word (h : b.Clear iter work q) (hb : b.Ok) (hy : y < b.numBlocks)
    (hi : i < b.numBytes / 4)
    (hx : InRange (wordAddr work (y * (b.numBytes / 4) + i)) 4 x) :
    q.Loadable x := by
  obtain ⟨w, hw⟩ := hb.words
  obtain ⟨j, hj, rfl⟩ := inRange_wordAddr.mp hx
  refine h.work _ ?_
  rw [hw, Nat.mul_div_cancel_left w (by decide)] at hi ⊢
  have hoff := offset_lt hb hy (show 4 * i + j < b.numBytes by omega)
  rw [hw, Nat.mul_left_comm] at hoff
  rw [Nat.mul_add, Nat.add_assoc]
  exact hoff

/-- A block is summed up. -/
theorem plain_addWords_block (hb : b.Ok) (hclear : b.Clear iter work q)
    (hholds : b.Holds mem₀ iter work q.mem) (hy : y < b.numBlocks) :
    (addWords work (y * (b.numBytes / 4)) (b.numBytes / 4) 0).plain q =
      some (wordsSum mem₀ (b.blockAddr (iter * b.numBlocks + y))
        (b.numBytes / 4), q) := by
  have hload : ∀ i < b.numBytes / 4, ∀ x,
      InRange (wordAddr work (y * (b.numBytes / 4) + i)) 4 x → q.Loadable x :=
    fun _ hi _ hx => hclear.word hb hy hi hx
  rw [plain_addWords 0 hload, zero_add]
  refine congrArg (fun v => some (v, q)) (wordsSum_congr fun i hi => ?_)
  rw [wordAddr_wordAddr]
  exact hholds.readWord32 hb hy hi

/-- The checksum of a block is stored. -/
theorem plain_stored (hb : b.Ok) (hclear : b.Clear iter work q)
    (hs : b.Streamed mem₀ iter (iter * b.numBlocks + y) work q.mem)
    (hi : iter < b.numIterations) (hy : y < b.numBlocks) :
    (if b.bAddToDst then
        (loadWord (wordAddr b.dst (iter * b.numBlocks + y))).bind fun d =>
          storeWord (wordAddr b.dst (iter * b.numBlocks + y))
            (d + wordsSum mem₀ (b.blockAddr (iter * b.numBlocks + y))
              (b.numBytes / 4))
      else storeWord (wordAddr b.dst (iter * b.numBlocks + y))
        (wordsSum mem₀ (b.blockAddr (iter * b.numBlocks + y))
          (b.numBytes / 4))).plain q =
      some ((), q.put (write q.mem (wordAddr b.dst (iter * b.numBlocks + y))
        (bytes32 (b.checksum mem₀ (iter * b.numBlocks + y))))) := by
  have hk := block_lt hy hi
  have hstore := hclear.dst y hy
  by_cases hadd : b.bAddToDst = true
  · have hword : readWord32 q.mem (wordAddr b.dst (iter * b.numBlocks + y)) =
        readWord32 mem₀ (wordAddr b.dst (iter * b.numBlocks + y)) := by
      refine Eq.trans ?_ (readWord32_out_of_le hb hk (le_refl _))
      exact readWord32_congr fun x hx => hs.outside x (hb.dst_scratch _ hk x hx)
    rw [if_pos hadd,
      Program.plain_bind_of_eq (plain_loadWord fun x hx => (hstore x hx).1),
      plain_storeWord _ hstore, hword, checksum, if_pos hadd]
  · rw [if_neg hadd, plain_storeWord _ hstore, checksum, if_neg hadd, zero_add]

/-- The blocks of an iteration that are left are worked on. -/
theorem plain_addBlocks (hb : b.Ok) (hi : iter < b.numIterations)
    (hwork : ∀ o < scratchSize, InScratch (work + BitVec.ofNat 32 o))
    (hclear : b.Clear iter work q) (hleft : y + left = b.numBlocks)
    (hs : b.Streamed mem₀ iter (iter * b.numBlocks + y) work q.mem) :
    ∃ mem, (addBlocks b.bAddToDst work b.dst (b.numBytes / 4) left
        (y * (b.numBytes / 4)) (iter * b.numBlocks + y)).plain q =
          some ((iter + 1) * b.numBlocks, q.put mem) ∧
      b.Streamed mem₀ iter ((iter + 1) * b.numBlocks) work mem ∧
      ∀ x, InScratch x → mem x = q.mem x := by
  induction left generalizing y q with
  | zero =>
      obtain rfl : y = b.numBlocks := hleft
      rw [← Nat.succ_mul] at hs
      refine ⟨q.mem, ?_, hs, fun _ _ => rfl⟩
      rw [addBlocks, Program.plain, ← Nat.succ_mul]
      rfl
  | succ left ih =>
      have hy : y < b.numBlocks := by omega
      obtain ⟨hnext, hkeep⟩ := hs.put hb hwork (block_lt hy hi)
      obtain ⟨mem, hrun, hstreamed, hsame⟩ :=
        ih (hclear.put _) (show y + 1 + left = b.numBlocks by omega) hnext
      refine ⟨mem, ?_, hstreamed, fun x hx => (hsame x hx).trans (hkeep x hx)⟩
      rw [addBlocks, Program.plain_bind_of_eq
        (plain_addWords_block hb hclear hs.holds hy)]
      refine (Program.plain_bind_of_eq (plain_stored hb hclear hs hi hy) _).trans ?_
      rw [← Nat.succ_mul]
      exact hrun

end Blocks

end C64Tools.DemoChecksum
