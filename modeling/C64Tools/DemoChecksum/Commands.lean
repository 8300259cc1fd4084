import C64Tools.DemoChecksum.Streaming

/-!
# The streaming commands

The commands of the component that sum up blocks of memory by transfers.
-/

namespace C64Tools.DemoChecksum

open Edma ByteMemory Qdma Transfers

variable {tc : TransferControllers} {s : Sys} {mem : Memory 32} {q : Quiet}

/-! ## Arguments -/

/-- `demo_checksum_cmd_add32_dma_args_t`. -/
structure DemoChecksumCmdAdd32DmaArgs where
  physAddrSrc : Word
  numDwordsPerIteration : Word
  numIterations : Word
  physAddrDst : Word
  deriving DecidableEq, Repr

/-- `demo_checksum_cmd_addskip32_dma_args_t`. -/
structure DemoChecksumCmdAddskip32DmaArgs where
  physAddrSrc : Word
  numBytesPerBlock : Word
  advBytesPerBlock : Word
  numBlocksPerIteration : Word
  numIterations : Word
  physAddrDst : Word
  bAddToDst : Word
  deriving DecidableEq, Repr

/-- The argument block of `loc_add32_dma()`. -/
def add32DmaArgs (mem : Memory 32) (a : Word) : DemoChecksumCmdAdd32DmaArgs :=
  ⟨readWord32 mem (wordAddr a 0), readWord32 mem (wordAddr a 1),
    readWord32 mem (wordAddr a 2), readWord32 mem (wordAddr a 3)⟩

/-- The argument block of `loc_addskip32_dma()`. -/
def addskip32DmaArgs (mem : Memory 32) (a : Word) :
    DemoChecksumCmdAddskip32DmaArgs :=
  ⟨readWord32 mem (wordAddr a 0), readWord32 mem (wordAddr a 1),
    readWord32 mem (wordAddr a 2), readWord32 mem (wordAddr a 3),
    readWord32 mem (wordAddr a 4), readWord32 mem (wordAddr a 5),
    readWord32 mem (wordAddr a 6)⟩

/-- Before anything has been transferred, a word is what it is in the memory. -/
theorem plain_loadWord_start (mem : Memory 32) (a : Word) :
    (loadWord a).plain ⟨mem, false, none⟩ =
      some (readWord32 mem a, ⟨mem, false, none⟩) :=
  plain_loadWord fun x _ => loadable_of_busy rfl x

/-! ## One block for each iteration -/

theorem ofNat_mul_toNat (y : ℕ) (w : Word) :
    BitVec.ofNat 32 y * w = BitVec.ofNat 32 (y * w.toNat) := by
  rw [BitVec.ofNat_mul, BitVec.ofNat_toNat, BitVec.setWidth_eq]

namespace DemoChecksumCmdAdd32DmaArgs

variable {args : DemoChecksumCmdAdd32DmaArgs}

/-- The blocks that are summed up. -/
def blocks (args : DemoChecksumCmdAdd32DmaArgs) : Blocks where
  src := args.physAddrSrc
  adv := args.numDwordsPerIteration <<< 2
  dst := args.physAddrDst
  numBytes := 4 * args.numDwordsPerIteration.toNat
  numBlocks := 1
  numIterations := args.numIterations.toNat
  bAddToDst := false

/-- `w4` is the number of bytes of a block. -/
theorem toNat_w4 (hle : args.numDwordsPerIteration.toNat ≤ add32ScratchNumdwords) :
    (args.numDwordsPerIteration <<< 2).toNat = args.blocks.numBytes ∧
      args.blocks.numBytes ≤ scratchSize := by
  have hmax : add32ScratchNumdwords = 3064 := by decide
  have hsize := Blocks.scratchSize_eq
  rw [BitVec.toNat_shiftLeft, Nat.shiftLeft_eq, Nat.mod_eq_of_lt (by omega)]
  exact ⟨Nat.mul_comm _ _, by show 4 * _ ≤ _; omega⟩

theorem ok (hle : args.numDwordsPerIteration.toNat ≤ add32ScratchNumdwords)
    (hpos : 0 < args.numDwordsPerIteration.toNat)
    (hplaced : args.blocks.Placed) : args.blocks.Ok where
  toPlaced := hplaced
  words := ⟨_, rfl⟩
  numBytes_pos := Nat.mul_pos (by decide) hpos
  numBlocks_pos := Nat.one_pos
  fits := by
    show 1 * args.blocks.numBytes ≤ scratchSize
    rw [Nat.one_mul]
    exact (toNat_w4 hle).2

theorem carries (hb : args.blocks.Ok)
    (hle : args.numDwordsPerIteration.toNat ≤ add32ScratchNumdwords) :
    args.blocks.Carries fun dst src =>
      .twoD dst (args.numDwordsPerIteration <<< 2) src 0
        (args.numDwordsPerIteration <<< 2) 1 := by
  obtain ⟨hw4, hfits⟩ := toNat_w4 hle
  have hsize := Blocks.scratchSize_eq
  have hpos := hb.numBytes_pos
  generalize args.numDwordsPerIteration <<< 2 = w4 at hw4 ⊢
  have hint : w4.toInt = args.blocks.numBytes := by
    rw [BitVec.toInt_eq_toNat_of_lt (by omega), hw4]
  constructor
  · intro work a
    refine ⟨by omega, by decide, ?_, by decide⟩
    rw [hint]
    omega
  · intro work a
    refine nodup_moves_twoD ?_
    show 1 * w4.toNat ≤ 2 ^ 32
    omega
  · intro work k m
    rw [mem_moves_twoD, hw4]
    have hone : (1 : Word).toNat = args.blocks.numBlocks := rfl
    rw [hone]
    refine exists_congr fun y => and_congr_right fun hy => ?_
    obtain rfl : y = 0 := Nat.lt_one_iff.mp hy
    have hzero : (BitVec.ofNat 32 0 : Word) = 0 := rfl
    rw [hzero, zero_mul, zero_mul, add_zero, add_zero, Nat.zero_mul, Nat.add_zero]
    simp only [Nat.zero_add]

theorem summing {numDwords : Program Word} {mem₀ : Memory 32}
    (hb : args.blocks.Ok)
    (hnum : args.blocks.Fixed mem₀ numDwords args.numDwordsPerIteration) :
    args.blocks.Summing mem₀
      (fun workSrc iter (_ : Unit) =>
        (addWordsTo numDwords workSrc maxRounds 0 0).bind fun add =>
          storeWord (wordAddr args.physAddrDst iter) add) fun _ => () := by
  intro iter hi work q hwork hclear hstreamed
  have hbytes : args.blocks.numBytes / 4 = args.numDwordsPerIteration.toNat :=
    Nat.mul_div_cancel_left _ (by decide)
  have hidx : iter * args.blocks.numBlocks + 0 = iter := Nat.mul_one iter
  have hnext : (iter + 1) * args.blocks.numBlocks = iter + 1 := Nat.mul_one _
  have hadd := Blocks.plain_addWords_block hb hclear hstreamed.holds Nat.one_pos
  have hstored := Blocks.plain_stored hb hclear hstreamed hi Nat.one_pos
  obtain ⟨hdone, hkeep⟩ :=
    hstreamed.put hb hwork (Blocks.block_lt Nat.one_pos hi)
  have hfirst : iter * args.blocks.numBlocks = iter := Nat.mul_one iter
  rw [hbytes, Nat.zero_mul, hidx] at hadd
  rw [hbytes, hidx] at hstored
  rw [hnext]
  -- the words of the working set, whose number does not change
  have hwords : (addWordsTo numDwords work maxRounds 0 0).plain q =
      (addWords work 0 args.numDwordsPerIteration.toNat 0).plain q := by
    refine plain_addWordsTo 0
      (hnum _ (Nat.mul_le_mul_right _ hi.le) q hstreamed.outside hclear.outside)
      (Nat.zero_le _) args.numDwordsPerIteration.isLt fun j hj x hx => ?_
    refine hclear.word hb Nat.one_pos (hbytes ▸ hj) ?_
    rw [Nat.zero_mul, Nat.zero_add]
    exact hx
  refine ⟨write q.mem (wordAddr args.physAddrDst iter)
    (bytes32 (args.blocks.checksum mem₀ iter)), ?_, ?_, ?_⟩
  · exact (Program.plain_bind_of_eq (hwords.trans hadd) _).trans hstored
  · rw [hfirst] at hdone
    exact hdone
  · rw [hfirst] at hkeep
    exact hkeep

/-- The plain execution of `loc_add32_dma()`. -/
theorem plain_locAdd32Dma {a : Word} {mem₀ : Memory 32}
    (hargs : add32DmaArgs mem₀ a = args) (hapart : args.blocks.ArgsApart a 4)
    (hb : args.blocks.Ok)
    (hle : args.numDwordsPerIteration.toNat ≤ add32ScratchNumdwords)
    (hn : 0 < args.numIterations.toNat) :
    ∃ q, (locAdd32Dma a).plain ⟨mem₀, false, none⟩ = some (0, q) ∧
      q.busy = none ∧ ∀ x, ¬ Blocks.InScratch x →
        q.mem x = args.blocks.out mem₀ args.blocks.total x := by
  subst hargs
  have hadv : BitVec.ofNat 32 (add32DmaArgs mem₀ a).blocks.numBlocks *
      (add32DmaArgs mem₀ a).blocks.adv =
        (add32DmaArgs mem₀ a).numDwordsPerIteration <<< 2 := one_mul _
  have hrun := Blocks.plain_stream hb (carries hb hle)
    (summing hb (hapart.fixed (by decide : 1 < 4) mem₀))
    (hapart.fixed (by decide : 2 < 4) mem₀)
    (fun work src => Blocks.fixed_ret _ mem₀ _) rfl hn
  rw [hadv] at hrun
  have hstart := plain_loadWord_start mem₀
  have hguard : (readWord32 mem₀ (wordAddr a 1)).toNat ≤ add32ScratchNumdwords :=
    hle
  rw [locAdd32Dma, Add32DmaArgs.numDwordsPerIteration,
    Program.plain_bind_of_eq (hstart _), if_pos hguard, Add32DmaArgs.physAddrSrc,
    Program.plain_bind_of_eq (hstart _), Add32DmaArgs.physAddrDst,
    Program.plain_bind_of_eq (hstart _), Program.plain_bind_of_eq (hstart _)]
  exact hrun

/-- The sum of the words of an iteration. -/
theorem checksum_blocks (args : DemoChecksumCmdAdd32DmaArgs)
    (hle : args.numDwordsPerIteration.toNat ≤ add32ScratchNumdwords)
    (mem : Memory 32) (k : ℕ) :
    args.blocks.checksum mem k =
      wordsSum mem
        (wordAddr args.physAddrSrc (k * args.numDwordsPerIteration.toNat))
        args.numDwordsPerIteration.toNat := by
  have haddr : args.blocks.blockAddr k =
      wordAddr args.physAddrSrc (k * args.numDwordsPerIteration.toNat) := by
    show args.physAddrSrc +
      BitVec.ofNat 32 k * (args.numDwordsPerIteration <<< 2) = _
    rw [ofNat_mul_toNat, (toNat_w4 hle).1, wordAddr, Nat.mul_left_comm]
    rfl
  have hbytes : args.blocks.numBytes / 4 = args.numDwordsPerIteration.toNat :=
    Nat.mul_div_cancel_left _ (by decide)
  rw [Blocks.checksum, haddr, hbytes]
  exact zero_add _

end DemoChecksumCmdAdd32DmaArgs

/-! ## Blocks with gaps -/

namespace DemoChecksumCmdAddskip32DmaArgs

variable {args : DemoChecksumCmdAddskip32DmaArgs}

/-- The blocks that are summed up. -/
def blocks (args : DemoChecksumCmdAddskip32DmaArgs) : Blocks where
  src := args.physAddrSrc
  adv := args.advBytesPerBlock
  dst := args.physAddrDst
  numBytes := args.numBytesPerBlock.toNat
  numBlocks := args.numBlocksPerIteration.toNat
  numIterations := args.numIterations.toNat
  bAddToDst := args.bAddToDst != 0

theorem carries (hb : args.blocks.Ok)
    (hadv : -32768 ≤ args.advBytesPerBlock.toInt)
    (hadv' : args.advBytesPerBlock.toInt ≤ 32767) :
    args.blocks.Carries fun dst src =>
      .twoD dst args.numBytesPerBlock src args.advBytesPerBlock
        args.numBytesPerBlock args.numBlocksPerIteration := by
  have hsize := Blocks.scratchSize_eq
  have hpos : 0 < args.numBytesPerBlock.toNat := hb.numBytes_pos
  have hpos' : 0 < args.numBlocksPerIteration.toNat := hb.numBlocks_pos
  have hfits : args.numBlocksPerIteration.toNat * args.numBytesPerBlock.toNat ≤
      scratchSize := hb.fits
  have hbytes := (Nat.le_mul_of_pos_left args.numBytesPerBlock.toNat hpos').trans hfits
  have hblocks :=
    (Nat.le_mul_of_pos_right args.numBlocksPerIteration.toNat hpos).trans hfits
  have hint : args.numBytesPerBlock.toInt = args.numBytesPerBlock.toNat :=
    BitVec.toInt_eq_toNat_of_lt (by omega)
  constructor
  · intro work a
    refine ⟨by omega, by omega, ?_, hadv, hadv'⟩
    rw [hint]
    omega
  · intro work a
    exact nodup_moves_twoD (by omega)
  · intro work k m
    rw [mem_moves_twoD]
    refine exists_congr fun y => and_congr_right fun _ => exists_congr fun j =>
      and_congr_right fun _ => ?_
    rw [← Blocks.blockAddr_add, ofNat_mul_toNat y args.numBytesPerBlock,
      add_assoc work, ← BitVec.ofNat_add]
    rfl

theorem summing {numBytes numBlocks bAddToDst : Program Word} {mem₀ : Memory 32}
    (hb : args.blocks.Ok)
    (hbytes : args.blocks.Fixed mem₀ numBytes args.numBytesPerBlock)
    (hblocks : args.blocks.Fixed mem₀ numBlocks args.numBlocksPerIteration)
    (hadd : args.blocks.Fixed mem₀ bAddToDst args.bAddToDst) :
    args.blocks.Summing mem₀
      (fun workSrc (_ : ℕ) dstIdx =>
        numBytes.bind fun numBytes =>
        numBlocks.bind fun numBlocks =>
        bAddToDst.bind fun b =>
          addBlocks (b != 0) workSrc args.physAddrDst (numBytes.toNat / 4)
            numBlocks.toNat 0 dstIdx)
      fun iter => iter * args.blocks.numBlocks := by
  intro iter hi work q hwork hclear hstreamed
  have hfixed {p : Program Word} {w : Word} (h : args.blocks.Fixed mem₀ p w) :
      p.plain q = some (w, q) :=
    h _ (Nat.mul_le_mul_right _ hi.le) q hstreamed.outside hclear.outside
  have hrun := Blocks.plain_addBlocks (y := 0) hb hi hwork hclear
    (Nat.zero_add _) hstreamed
  rw [Nat.zero_mul] at hrun
  rw [Program.plain_bind_of_eq (hfixed hbytes),
    Program.plain_bind_of_eq (hfixed hblocks),
    Program.plain_bind_of_eq (hfixed hadd)]
  exact hrun

/-- The arguments of a transfer are always the same. -/
theorem fixed_copy2d {a : Word} {mem₀ : Memory 32}
    (hapart : (addskip32DmaArgs mem₀ a).blocks.ArgsApart a 7) (work src : Word) :
    (addskip32DmaArgs mem₀ a).blocks.Fixed mem₀
      (Addskip32DmaArgs.copy2d a work src)
      (.twoD work (addskip32DmaArgs mem₀ a).numBytesPerBlock src
        (addskip32DmaArgs mem₀ a).advBytesPerBlock
        (addskip32DmaArgs mem₀ a).numBytesPerBlock
        (addskip32DmaArgs mem₀ a).numBlocksPerIteration) :=
  (hapart.fixed (by decide) mem₀).bind <| (hapart.fixed (by decide) mem₀).bind <|
    (hapart.fixed (by decide) mem₀).bind <|
      (hapart.fixed (by decide) mem₀).bind <| Blocks.fixed_ret _ mem₀ _

/-- The plain execution of `loc_addskip32_dma()`. -/
theorem plain_locAddskip32Dma {a : Word} {mem₀ : Memory 32}
    (hargs : addskip32DmaArgs mem₀ a = args)
    (hapart : args.blocks.ArgsApart a 7) (hb : args.blocks.Ok)
    (hadv : -32768 ≤ args.advBytesPerBlock.toInt)
    (hadv' : args.advBytesPerBlock.toInt ≤ 32767)
    (hn : 0 < args.numIterations.toNat) :
    ∃ q, (locAddskip32Dma a).plain ⟨mem₀, false, none⟩ = some (0, q) ∧
      q.busy = none ∧ ∀ x, ¬ Blocks.InScratch x →
        q.mem x = args.blocks.out mem₀ args.blocks.total x := by
  have hiter : BitVec.ofNat 32 args.blocks.numBlocks * args.blocks.adv =
      args.numBlocksPerIteration * args.advBytesPerBlock := by
    show BitVec.ofNat 32 args.numBlocksPerIteration.toNat * _ = _
    rw [BitVec.ofNat_toNat, BitVec.setWidth_eq]
    rfl
  subst hargs
  have hrun := Blocks.plain_stream hb (carries hb hadv hadv')
    (summing hb (hapart.fixed (by decide : 1 < 7) mem₀)
      (hapart.fixed (by decide : 3 < 7) mem₀)
      (hapart.fixed (by decide : 6 < 7) mem₀))
    (hapart.fixed (by decide : 4 < 7) mem₀) (fixed_copy2d hapart) rfl hn
  rw [hiter, Nat.zero_mul] at hrun
  have hstart := plain_loadWord_start mem₀
  have hguard : (readWord32 mem₀ (wordAddr a 1) *
      readWord32 mem₀ (wordAddr a 3)).toNat ≤ scratchSize := by
    rw [BitVec.toNat_mul, Nat.mul_comm]
    exact (Nat.mod_le _ _).trans hb.fits
  rw [locAddskip32Dma, Addskip32DmaArgs.numBytesPerBlock,
    Program.plain_bind_of_eq (hstart _), Addskip32DmaArgs.numBlocksPerIteration,
    Program.plain_bind_of_eq (hstart _), if_pos hguard,
    Addskip32DmaArgs.physAddrSrc, Program.plain_bind_of_eq (hstart _),
    Addskip32DmaArgs.physAddrDst, Program.plain_bind_of_eq (hstart _),
    Program.plain_bind_of_eq (hstart _), Addskip32DmaArgs.advBytesPerBlock,
    Program.plain_bind_of_eq (hstart _)]
  exact hrun

end DemoChecksumCmdAddskip32DmaArgs

/-! ## Commands -/

/-- A command with a plain execution. -/
theorem yields_succeeds {p : Program Word} (seed : Word)
    (hpending : s.dma.tpcc.pending = []) (hqueue : s.queue = [])
    (hplain : p.plain ⟨s.mem, false, none⟩ = some (0, q)) (hbusy : q.busy = none) :
    Yields tc (succeeds seed p) s ⟨demoChecksumErrOk, some 0, seed⟩ q.mem :=
  Program.yields_of_plain hpending hqueue
    (Program.plain_bind_of_eq hplain _) hbusy

/-- `DEMO_CHECKSUM_CMD_ADD32_DMA`. -/
theorem locExec_add32Dma {args : DemoChecksumCmdAdd32DmaArgs}
    (arg1 arg2 seed : Word) (hpending : s.dma.tpcc.pending = []) (hqueue : s.queue = [])
    (hargs : add32DmaArgs s.mem arg1 = args)
    (hpos : 0 < args.numDwordsPerIteration.toNat)
    (hle : args.numDwordsPerIteration.toNat ≤ add32ScratchNumdwords)
    (hn : 0 < args.numIterations.toNat) (hplaced : args.blocks.Placed)
    (hapart : args.blocks.ArgsApart arg1 4) :
    ∃ mem, Yields tc (locExec 5 arg1 arg2 seed) s
        ⟨demoChecksumErrOk, some 0, seed⟩ mem ∧
      (∀ k < args.numIterations.toNat,
        readWord32 mem (wordAddr args.physAddrDst k) =
          wordsSum s.mem (wordAddr args.physAddrSrc
            (k * args.numDwordsPerIteration.toNat))
            args.numDwordsPerIteration.toNat) ∧
      ∀ x, ¬ Blocks.InScratch x →
        (∀ k < args.numIterations.toNat,
          ¬ InRange (wordAddr args.physAddrDst k) 4 x) → mem x = s.mem x := by
  have hb := DemoChecksumCmdAdd32DmaArgs.ok hle hpos hplaced
  obtain ⟨q, hplain, hbusy, hout⟩ :=
    DemoChecksumCmdAdd32DmaArgs.plain_locAdd32Dma hargs hapart hb hle hn
  have htotal : args.blocks.total = args.numIterations.toNat := Nat.mul_one _
  obtain ⟨hsums, hframe⟩ := hb.found hout
  rw [htotal] at hsums hframe
  refine ⟨q.mem, ?_, fun k hk => ?_, hframe⟩
  · exact yields_succeeds seed hpending hqueue hplain hbusy
  · exact (hsums k hk).trans (args.checksum_blocks hle s.mem k)

/-- Two iterations over two words each. -/
theorem locExec_add32Dma_two :
    let s := demoSys [(0x1000, [0x2000, 2, 2, 0x3000]), (0x2000, [1, 2, 3, 4])]
    ∃ mem, Yields anyOrder (locExec 5 0x1000 0 0) s
        ⟨demoChecksumErrOk, some 0, 0⟩ mem ∧
      readWord32 mem 0x3000 = 3 ∧ readWord32 mem 0x3004 = 7 := by
  intro s
  have hargs : add32DmaArgs s.mem 0x1000 = ⟨0x2000, 2, 2, 0x3000⟩ := by
    decide +kernel
  have hplaced :
      (DemoChecksumCmdAdd32DmaArgs.mk 0x2000 2 2 0x3000).blocks.Placed :=
    Blocks.placed_of_apart 0x2000 0x2010 (by decide) (by decide) (by decide)
      (by decide) (by decide) (by decide)
  have hapart : (DemoChecksumCmdAdd32DmaArgs.mk 0x2000 2 2
      0x3000).blocks.ArgsApart 0x1000 4 :=
    Blocks.argsApart_of_apart (by decide) (by decide) (by decide) (by decide)
  obtain ⟨mem, hyields, hsums, -⟩ := locExec_add32Dma 0x1000 0 0 rfl rfl hargs
    (by decide) (by decide) (by decide) hplaced hapart
  exact ⟨mem, hyields, (hsums 0 (by decide)).trans (by decide +kernel),
    (hsums 1 (by decide)).trans (by decide +kernel)⟩

/-- `DEMO_CHECKSUM_CMD_ADDSKIP32_DMA`. -/
theorem locExec_addskip32Dma {args : DemoChecksumCmdAddskip32DmaArgs}
    (arg1 arg2 seed : Word) (hpending : s.dma.tpcc.pending = [])
    (hqueue : s.queue = []) (hargs : addskip32DmaArgs s.mem arg1 = args)
    (hadv : -32768 ≤ args.advBytesPerBlock.toInt)
    (hadv' : args.advBytesPerBlock.toInt ≤ 32767)
    (hn : 0 < args.numIterations.toNat) (hb : args.blocks.Ok)
    (hapart : args.blocks.ArgsApart arg1 7) :
    ∃ mem, Yields tc (locExec 6 arg1 arg2 seed) s
        ⟨demoChecksumErrOk, some 0, seed⟩ mem ∧
      (∀ k < args.blocks.total,
        readWord32 mem (wordAddr args.physAddrDst k) =
          (if args.bAddToDst ≠ 0 then
            readWord32 s.mem (wordAddr args.physAddrDst k) else 0) +
          wordsSum s.mem
            (args.physAddrSrc + BitVec.ofNat 32 k * args.advBytesPerBlock)
            (args.numBytesPerBlock.toNat / 4)) ∧
      ∀ x, ¬ Blocks.InScratch x →
        (∀ k < args.blocks.total,
          ¬ InRange (wordAddr args.physAddrDst k) 4 x) → mem x = s.mem x := by
  obtain ⟨q, hplain, hbusy, hout⟩ :=
    DemoChecksumCmdAddskip32DmaArgs.plain_locAddskip32Dma hargs hapart hb hadv
      hadv' hn
  obtain ⟨hsums, hframe⟩ := hb.found hout
  refine ⟨q.mem, ?_, fun k hk => ?_, hframe⟩
  · exact yields_succeeds seed hpending hqueue hplain hbusy
  · refine (hsums k hk).trans (congrArg (· + _) ?_)
    exact if_congr bne_iff_ne rfl rfl

/-- Every other pair of words is added to what is in the destination, two blocks
at a time. -/
theorem locExec_addskip32Dma_four :
    let s := demoSys
      [(0x1000, [0x2000, 8, 16, 2, 2, 0x3000, 1]),
        (0x2000, [1, 2, 0, 0, 3, 4, 0, 0, 5, 6, 0, 0, 7, 8]), (0x3008, [100])]
    ∃ mem, Yields anyOrder (locExec 6 0x1000 0 0) s
        ⟨demoChecksumErrOk, some 0, 0⟩ mem ∧
      readWord32 mem 0x3000 = 3 ∧ readWord32 mem 0x3008 = 111 := by
  intro s
  let args : DemoChecksumCmdAddskip32DmaArgs :=
    ⟨0x2000, 8, 16, 2, 2, 0x3000, 1⟩
  have hargs : addskip32DmaArgs s.mem 0x1000 = args := by decide +kernel
  have hplaced : args.blocks.Placed :=
    Blocks.placed_of_apart 0x2000 0x2038 (by decide) (by decide) (by decide)
      (by decide) (by decide) (by decide)
  have hok : args.blocks.Ok :=
    ⟨hplaced, by decide, by decide, by decide, by decide⟩
  have hapart : args.blocks.ArgsApart 0x1000 7 :=
    Blocks.argsApart_of_apart (by decide) (by decide) (by decide) (by decide)
  obtain ⟨mem, hyields, hsums, -⟩ := locExec_addskip32Dma 0x1000 0 0 rfl rfl
    hargs (by decide) (by decide) (by decide) hok hapart
  exact ⟨mem, hyields, (hsums 0 (by decide)).trans (by decide +kernel),
    (hsums 2 (by decide)).trans (by decide +kernel)⟩

end C64Tools.DemoChecksum
