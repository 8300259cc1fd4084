import C64Tools.Qdma.Model
import Mathlib.Tactic.IntervalCases

/-!
# What is found in the words of an entry

The fields that the controller finds in the words are the arguments, within the
ranges documented for them.  So the rows that it copies are those of the
transfer, and the entry is done after one event.
-/

namespace C64Tools.Qdma

open Edma

variable {hi lo x : Word} {n : ℕ}

/-! ## Halves of words -/

theorem getLsbD_mask {i : ℕ} :
    (65535 : Word).getLsbD i = decide (i < 16) := by
  by_cases hi : i < 32
  · have hall : ∀ i : Fin 32,
        (65535 : Word).getLsbD i = decide (i.val < 16) := by decide
    exact hall ⟨i, hi⟩
  · rw [BitVec.getLsbD_of_ge _ _ (Nat.le_of_not_lt hi)]
    exact (decide_eq_false (by omega)).symm

/-- The bits of a word that is made of two halves. -/
theorem getLsbD_halves {i : ℕ} (h : i < 32) :
    (hi <<< 16 ||| lo &&& 65535).getLsbD i =
      if i < 16 then lo.getLsbD i else hi.getLsbD (i - 16) := by
  simp only [BitVec.getLsbD_or, BitVec.getLsbD_shiftLeft, BitVec.getLsbD_and,
    getLsbD_mask]
  split_ifs with hlow <;> simp [h, hlow]

/-- The lower half is the one that is masked. -/
theorem extractLsb'_low :
    (hi <<< 16 ||| lo &&& 65535).extractLsb' 0 16 = lo.setWidth 16 := by
  refine BitVec.eq_of_getLsbD_eq fun i hi => ?_
  rw [BitVec.getLsbD_extractLsb', getLsbD_halves (by omega),
    BitVec.getLsbD_setWidth, if_pos (by omega), Nat.zero_add]

/-- The upper half is the one that is shifted. -/
theorem extractLsb'_high :
    (hi <<< 16 ||| lo &&& 65535).extractLsb' 16 16 = hi.setWidth 16 := by
  refine BitVec.eq_of_getLsbD_eq fun i hi => ?_
  rw [BitVec.getLsbD_extractLsb', getLsbD_halves (by omega),
    BitVec.getLsbD_setWidth, if_neg (by omega), Nat.add_sub_cancel_left]

theorem setWidth_mask : (x &&& 65535).setWidth 16 = x.setWidth 16 := by
  rw [BitVec.setWidth_and]
  exact BitVec.and_allOnes

/-- A count that fits into a half. -/
theorem toNat_setWidth_half (hx : x.toNat ≤ 65535) :
    (x.setWidth 16).toNat = x.toNat := by
  rw [BitVec.toNat_setWidth, Nat.mod_eq_of_lt (by omega)]

/-- A pitch that fits into a half gets its sign back. -/
theorem toInt_setWidth_half (hlow : -32768 ≤ x.toInt)
    (hhigh : x.toInt ≤ 32767) : (x.setWidth 16).toInt = x.toInt := by
  rw [BitVec.toInt_eq_toNat_cond] at hlow hhigh ⊢
  rw [BitVec.toInt_eq_toNat_cond, BitVec.toNat_setWidth]
  split_ifs at * <;> omega

/-! ## Transfers -/

namespace Transfer

/-- The documented ranges of the arguments. -/
def InRange : Transfer → Prop
  | .oneD _ _ numBytes => 1 ≤ numBytes.toNat ∧ numBytes.toNat ≤ 65535
  | .twoD _ dstPitch _ srcPitch numBytesX numY =>
      (1 ≤ numBytesX.toNat ∧ numBytesX.toNat ≤ 65535) ∧
        (1 ≤ numY.toNat ∧ numY.toNat ≤ 65535) ∧
        (-32768 ≤ dstPitch.toInt ∧ dstPitch.toInt ≤ 32767) ∧
        (-32768 ≤ srcPitch.toInt ∧ srcPitch.toInt ≤ 32767)

instance : DecidablePred InRange := by
  intro x
  unfold InRange
  split <;> infer_instance

/-- The row copies that a transfer stands for. -/
def rows : Transfer → List Row
  | .oneD dst src numBytes =>
      [{ src := src, dst := dst, len := numBytes.toNat }]
  | .twoD dst dstPitch src srcPitch numBytesX numY =>
      (List.range numY.toNat).map fun i : ℕ =>
        { src := src + BitVec.ofInt 32 (i * srcPitch.toInt)
          dst := dst + BitVec.ofInt 32 (i * dstPitch.toInt)
          len := numBytesX.toNat }

def sync : Transfer → Word
  | .oneD .. => 0
  | .twoD .. => 1

/-- The words of an entry with this transfer, by its link. -/
def words (tcc : Word) (linkToParamNr : ℕ) (x : Transfer) : ParamSet :=
  let opt := if linkToParamNr ≤ 127 then optWord 0 0 0 x.sync
    else optWord 1 tcc 1 x.sync
  match x with
  | .oneD dst src numBytes =>
      paramWords opt src (abcntWord 1 numBytes) dst 0 (lnkWord linkToParamNr)
  | .twoD dst dstPitch src srcPitch numBytesX numY =>
      paramWords opt src (abcntWord numY numBytesX) dst
        (bidxWord dstPitch srcPitch) (lnkWord linkToParamNr)

end Transfer

variable {y : Transfer} {link tcc : ℕ}

theorem Transfer.sync_cases (y : Transfer) : y.sync = 0 ∨ y.sync = 1 := by
  cases y with
  | oneD => exact Or.inl rfl
  | twoD => exact Or.inr rfl

/-- The options of an entry that is linked to another one. -/
theorem optWord_linked (y : Transfer) :
    optWord 0 0 0 y.sync &&& ~~~0x0013F00C = 0 ∧
      (optWord 0 0 0 y.sync).getLsbD 2 = (y.sync == 1) ∧
      (optWord 0 0 0 y.sync).getLsbD 3 = false ∧
      (optWord 0 0 0 y.sync).getLsbD 20 = false := by
  obtain hsync | hsync := y.sync_cases <;> rw [hsync] <;> decide

/-- The options of the last entry. -/
theorem optWord_final (y : Transfer) (htcc : tcc < 8) :
    optWord 1 (BitVec.ofNat 32 tcc) 1 y.sync &&& ~~~0x0013F00C = 0 ∧
      (optWord 1 (BitVec.ofNat 32 tcc) 1 y.sync).getLsbD 2 = (y.sync == 1) ∧
      (optWord 1 (BitVec.ofNat 32 tcc) 1 y.sync).getLsbD 3 = true ∧
      (optWord 1 (BitVec.ofNat 32 tcc) 1 y.sync).getLsbD 20 = true ∧
      ((optWord 1 (BitVec.ofNat 32 tcc) 1 y.sync).extractLsb' 12 6).toNat =
        tcc := by
  obtain hsync | hsync := y.sync_cases <;> rw [hsync] <;>
    interval_cases tcc <;> decide

namespace Transfer

theorem words_zero (y : Transfer) (t : Word) :
    y.words t link 0 = if link ≤ 127 then optWord 0 0 0 y.sync
      else optWord 1 t 1 y.sync := by
  cases y <;> rfl

theorem words_option (y : Transfer) (link : ℕ) (htcc : tcc < 8) :
    y.words (BitVec.ofNat 32 tcc) link 0 &&& ~~~0x0013F00C = 0 ∧
      (y.words (BitVec.ofNat 32 tcc) link).syncdim = (y.sync == 1) ∧
      (y.words (BitVec.ofNat 32 tcc) link).static = decide (¬ link ≤ 127) ∧
      (y.words (BitVec.ofNat 32 tcc) link).tcinten =
        decide (¬ link ≤ 127) := by
  simp only [ParamSet.syncdim, ParamSet.static, ParamSet.tcinten, words_zero]
  by_cases hlink : link ≤ 127
  · obtain ⟨hmask, hsync, hstatic, hint⟩ := optWord_linked y
    rw [if_pos hlink, decide_eq_false (not_not.mpr hlink)]
    exact ⟨hmask, hsync, hstatic, hint⟩
  · obtain ⟨hmask, hsync, hstatic, hint, -⟩ := optWord_final y htcc
    rw [if_neg hlink, decide_eq_true hlink]
    exact ⟨hmask, hsync, hstatic, hint⟩

theorem words_tcc (htcc : tcc < 8) (hlink : ¬ link ≤ 127) :
    (y.words (BitVec.ofNat 32 tcc) link).tcc = tcc := by
  rw [ParamSet.tcc, words_zero, if_neg hlink]
  exact (optWord_final y htcc).2.2.2.2

/-- An entry that is linked to another one. -/
theorem words_link (t : Word) (hlink : link ≤ 127) :
    (y.words t link).link = 32 * link := by
  have hword : y.words t link 5 = BitVec.ofNat 32 (32 * link) := by
    cases y <;> exact if_pos hlink
  rw [ParamSet.link, hword, BitVec.extractLsb'_toNat, BitVec.toNat_ofNat,
    Nat.shiftRight_zero, Nat.mod_mod_of_dvd _ (by decide),
    Nat.mod_eq_of_lt (by omega)]

/-- The counts and increments of an entry. -/
theorem words_counts (link : ℕ) (t : Word) (hy : y.InRange) :
    0 < (y.words t link).acnt ∧ (y.words t link).ccnt = 1 ∧
      if y.sync == 1 then 0 < (y.words t link).bcnt
      else (y.words t link).bcnt = 1 := by
  cases y with
  | oneD dst src numBytes =>
      obtain ⟨hpos, hle⟩ := hy
      refine ⟨?_, rfl, ?_⟩
      · show 0 < ((abcntWord 1 numBytes).extractLsb' 0 16).toNat
        rw [abcntWord, extractLsb'_low, toNat_setWidth_half hle]
        exact hpos
      · show ((abcntWord 1 numBytes).extractLsb' 16 16).toNat = 1
        rw [abcntWord, extractLsb'_high]
        rfl
  | twoD dst dstPitch src srcPitch numBytesX numY =>
      obtain ⟨⟨hpos, hle⟩, ⟨hposY, hleY⟩, -, -⟩ := hy
      refine ⟨?_, rfl, ?_⟩
      · show 0 < ((abcntWord numY numBytesX).extractLsb' 0 16).toNat
        rw [abcntWord, extractLsb'_low, toNat_setWidth_half hle]
        exact hpos
      · show 0 < ((abcntWord numY numBytesX).extractLsb' 16 16).toNat
        rw [abcntWord, extractLsb'_high, toNat_setWidth_half hleY]
        exact hposY

theorem words_oneShot (htcc : tcc < 8) (hy : y.InRange) :
    (y.words (BitVec.ofNat 32 tcc) link).OneShot := by
  obtain ⟨hmask, hsync, -, -⟩ := words_option y link htcc
  obtain ⟨hacnt, hccnt, hbcnt⟩ :=
    words_counts link (BitVec.ofNat 32 tcc) hy
  refine ⟨hmask, hacnt, hccnt, ?_⟩
  rw [hsync]
  exact hbcnt

/-- The rows found in an entry are those of the transfer. -/
theorem words_rows (htcc : tcc < 8) (hy : y.InRange) :
    (y.words (BitVec.ofNat 32 tcc) link).rows = y.rows := by
  obtain ⟨-, hsync, -, -⟩ := words_option y link htcc
  rw [ParamSet.rows, hsync]
  cases y with
  | oneD dst src numBytes =>
      have hacnt : ((abcntWord 1 numBytes).extractLsb' 0 16).toNat =
          numBytes.toNat := by
        rw [abcntWord, extractLsb'_low, toNat_setWidth_half hy.2]
      have hzero : ∀ a : Word, ∀ b : ℤ,
          a + BitVec.ofInt 32 ((0 : ℕ) * b) = a := by simp
      show [Row.mk (src + _) (dst + _) _] = [Row.mk src dst _]
      rw [hzero, hzero]
      exact congrArg (fun n => [Row.mk src dst n]) hacnt
  | twoD dst dstPitch src srcPitch numBytesX numY =>
      obtain ⟨⟨-, hle⟩, ⟨-, hleY⟩, ⟨hdst, hdst'⟩, hsrc, hsrc'⟩ := hy
      have hacnt : ((abcntWord numY numBytesX).extractLsb' 0 16).toNat =
          numBytesX.toNat := by
        rw [abcntWord, extractLsb'_low, toNat_setWidth_half hle]
      have hbcnt : ((abcntWord numY numBytesX).extractLsb' 16 16).toNat =
          numY.toNat := by
        rw [abcntWord, extractLsb'_high, toNat_setWidth_half hleY]
      have hdstIdx : ((bidxWord dstPitch srcPitch).extractLsb' 16 16).toInt =
          dstPitch.toInt := by
        rw [bidxWord, BitVec.shiftLeft_zero, extractLsb'_high, setWidth_mask,
          toInt_setWidth_half hdst hdst']
      have hsrcIdx : ((bidxWord dstPitch srcPitch).extractLsb' 0 16).toInt =
          srcPitch.toInt := by
        rw [bidxWord, BitVec.shiftLeft_zero, extractLsb'_low,
          toInt_setWidth_half hsrc hsrc']
      show (List.range ((abcntWord numY numBytesX).extractLsb' 16 16).toNat).map
          (fun i : ℕ =>
            ({ src := src + BitVec.ofInt 32 (i *
                ((bidxWord dstPitch srcPitch).extractLsb' 0 16).toInt)
               dst := dst + BitVec.ofInt 32 (i *
                ((bidxWord dstPitch srcPitch).extractLsb' 16 16).toInt)
               len := ((abcntWord numY numBytesX).extractLsb' 0 16).toNat } :
              Row)) = _
      rw [hacnt, hbcnt, hdstIdx, hsrcIdx]
      rfl

/-- What is done for an entry. -/
theorem words_events (htcc : tcc < 8) (hy : y.InRange) :
    (y.words (BitVec.ofNat 32 tcc) link).events =
      y.rows.map .row ++ if link ≤ 127 then [] else [.complete tcc] := by
  obtain ⟨-, -, -, hint⟩ := words_option y link htcc
  rw [ParamSet.events, words_rows htcc hy, hint]
  by_cases hlink : link ≤ 127
  · rw [if_pos hlink, if_neg (by simpa using hlink)]
  · rw [if_neg hlink, if_pos (by simpa using hlink), words_tcc htcc hlink]

end Transfer

end C64Tools.Qdma
