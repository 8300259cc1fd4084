import C64Tools.Qdma.Programs

/-!
# The component `demo_checksum`

Sums over memory.  Those over many blocks stream one working set into the one half
of the scratch buffer while the other half is summed up.  The arguments of these
commands stay in memory, and are read again where they are used.  Memory is the same
for the DSP and the transfers, so that its caches are not modelled.
-/

namespace C64Tools.DemoChecksum

open Edma ByteMemory Qdma

/-! ## The scratch buffer -/

/-- `DSP_L1DSRAM_SCRATCHBUFFER_BASE_DSP`. -/
def dspL1dsramScratchbufferBaseDsp : Word := 0x10F04000 + 64

/-- `DSP_L1DSRAM_SCRATCHBUFFER_SIZE_DSP`. -/
def dspL1dsramScratchbufferSizeDsp : ℕ := 0xC000 - 24 * 1024 - 64

/-- `ADD32_SCRATCH_SIZE` and `AS32_SCRATCH_SIZE`. -/
def scratchSize : ℕ := dspL1dsramScratchbufferSizeDsp / 2

/-- `ADD32_SCRATCH_NUMDWORDS`. -/
def add32ScratchNumdwords : ℕ := scratchSize / 4

/-- `ADD32_SCRATCH1_ADDR` and `AS32_SCRATCH1_ADDR`. -/
def scratch1Addr : Word := dspL1dsramScratchbufferBaseDsp + 0

/-- `ADD32_SCRATCH2_ADDR` and `AS32_SCRATCH2_ADDR`. -/
def scratch2Addr : Word :=
  dspL1dsramScratchbufferBaseDsp + BitVec.ofNat 32 scratchSize

/-- `QDMA_0`. -/
def qdma0 : ℕ := 0

/-- The register at `DSP_IPC_DEBUG_USR0_OFF`, in the memory before the scratch
buffer. -/
def dspIpcDebugUsr0 : Word := 0x10F04000 + 32

/-! ## Loops over words -/

/-- `add += workSrc[si++]`, some times. -/
def addWords (workSrc : Word) : ℕ → ℕ → Word → Program Word
  | _, 0, add => .ret add
  | si, n + 1, add =>
      (loadWord (wordAddr workSrc si)).bind fun w =>
        addWords workSrc (si + 1) n (add + w)

/-- `loc_add()`. -/
def locAdd (addr numBytes : Word) : Program Word :=
  addWords addr 0 (numBytes.toNat / 4) 0

/-- `ret = (ret >> 1) + (_addr[i] >> 1)`, some times. -/
def avgWords (addr : Word) : ℕ → ℕ → Word → Program Word
  | _, 0, ret => .ret ret
  | i, n + 1, ret =>
      (loadWord (wordAddr addr i)).bind fun w =>
        avgWords addr (i + 1) n ((ret >>> 1) + (w >>> 1))

/-- `loc_avg32()`. -/
def locAvg32 (addr numDWords : Word) : Program Word :=
  avgWords addr 0 numDWords.toNat 0

/-- `loc_rand_get()`, which returns the seed. -/
def locRandGet (seed : Word) : Word :=
  seed * 16807

/-- The loop of `loc_rand_write()`, with the seed. -/
def randWrite (addr : Word) : ℕ → ℕ → Word → Word → Program (Word × Word)
  | _, 0, seed, ret => .ret (ret, seed)
  | i, n + 1, seed, ret =>
      let c := locRandGet seed
      (storeWord (wordAddr addr i) c).bind fun _ =>
        randWrite addr (i + 1) n c (ret ^^^ c)

/-- `loc_rand_write()` and `loc_rand_write_nowb()`: the result and the next
seed. -/
def locRandWrite (addr numDWords seed : Word) : Program (Word × Word) :=
  randWrite addr 0 numDWords.toNat seed 0

/-- `ret = (ret ^ _addr[i])`, some times. -/
def xorWords (addr : Word) : ℕ → ℕ → Word → Program Word
  | _, 0, ret => .ret ret
  | i, n + 1, ret =>
      (loadWord (wordAddr addr i)).bind fun c =>
        xorWords addr (i + 1) n (ret ^^^ c)

/-- `mlb_debug_usr()`. -/
def mlbDebugUsr (idx : ℕ) (val : Word) : Program Unit :=
  storeWord (wordAddr dspIpcDebugUsr0 (idx &&& 3)) val

/-- `loc_rand_read_noinv()`. -/
def locRandReadNoinv (addr numDWords : Word) : Program Word :=
  xorWords addr 0 numDWords.toNat 0

/-- `loc_rand_read()`. -/
def locRandRead (addr numDWords : Word) : Program Word :=
  (xorWords addr 0 numDWords.toNat 0).bind fun ret =>
    (mlbDebugUsr 0 ret).bind fun _ => .ret ret

/-! ## Streaming -/

/-- A loop whose index is a `sUI` ends before it has taken this many rounds. -/
def maxRounds : ℕ := 2 ^ 32

/-- `add += workSrc[i]`, where the number of words is read in each round. -/
def addWordsTo (numDwords : Program Word) (workSrc : Word) :
    ℕ → ℕ → Word → Program Word
  | 0, _, add => .ret add
  | rounds + 1, i, add =>
      numDwords.bind fun n =>
        if i < n.toNat then
          (loadWord (wordAddr workSrc i)).bind fun w =>
            addWordsTo numDwords workSrc rounds (i + 1) (add + w)
        else .ret add

/-- The loop over the iterations, whose number is read each time it is looked at.
The next working set is streamed unless it is the last iteration, the one at hand is
worked on, and the buffers are swapped. -/
def pingPong {σ : Type} (numIterations : Program Word)
    (xfer : Word → Word → Program Transfer) (adv : Word)
    (sums : Word → ℕ → σ → Program σ) :
    ℕ → ℕ → Word → Word → Word → σ → Program σ
  | 0, _, _, _, _, st => .ret st
  | rounds + 1, iter, workSrc, workSrcNext, srcAddr, st =>
      numIterations.bind fun n =>
        if iter < n.toNat then
          .wait qdma0 <|
            let rest := (sums workSrc iter st).bind fun st =>
              pingPong numIterations xfer adv sums rounds (iter + 1) workSrcNext
                workSrc (srcAddr + adv) st
            numIterations.bind fun n =>
              if BitVec.ofNat 32 iter ≠ n - 1 then
                (xfer workSrcNext (srcAddr + adv)).bind fun x =>
                  .copy qdma0 x rest
              else rest
        else .ret st

/-- The first working set, and the loop over the iterations. -/
def stream {σ : Type} (numIterations : Program Word)
    (xfer : Word → Word → Program Transfer) (adv : Word)
    (sums : Word → ℕ → σ → Program σ) (srcAddr : Word) (st : σ) : Program Word :=
  .init <|
    (xfer scratch1Addr srcAddr).bind fun x =>
      .copy qdma0 x <|
        (pingPong numIterations xfer adv sums maxRounds 0 scratch1Addr
          scratch2Addr srcAddr st).bind fun _ => .ret 0

/-! The fields of `demo_checksum_cmd_add32_dma_args_t`. -/

namespace Add32DmaArgs

variable (args : Word)

def physAddrSrc : Program Word := loadWord (wordAddr args 0)
def numDwordsPerIteration : Program Word := loadWord (wordAddr args 1)
def numIterations : Program Word := loadWord (wordAddr args 2)
def physAddrDst : Program Word := loadWord (wordAddr args 3)

end Add32DmaArgs

open Add32DmaArgs in
/-- `loc_add32_dma()`. -/
def locAdd32Dma (args : Word) : Program Word :=
  (numDwordsPerIteration args).bind fun n =>
    if n.toNat ≤ add32ScratchNumdwords then
      (physAddrSrc args).bind fun srcAddr =>
      (physAddrDst args).bind fun dst =>
      (numDwordsPerIteration args).bind fun n =>
        let w4 := n <<< 2
        let sums := fun workSrc iter (_ : Unit) =>
          (addWordsTo (numDwordsPerIteration args) workSrc maxRounds 0 0).bind
            fun add => storeWord (wordAddr dst iter) add
        stream (numIterations args)
          (fun work src => .ret (.twoD work w4 src 0 w4 1)) w4 sums srcAddr ()
    else .ret 0

/-! The fields of `demo_checksum_cmd_addskip32_dma_args_t`. -/

namespace Addskip32DmaArgs

variable (args : Word)

def physAddrSrc : Program Word := loadWord (wordAddr args 0)
def numBytesPerBlock : Program Word := loadWord (wordAddr args 1)
def advBytesPerBlock : Program Word := loadWord (wordAddr args 2)
def numBlocksPerIteration : Program Word := loadWord (wordAddr args 3)
def numIterations : Program Word := loadWord (wordAddr args 4)
def physAddrDst : Program Word := loadWord (wordAddr args 5)
def bAddToDst : Program Word := loadWord (wordAddr args 6)

/-- The arguments of `qdma_copy2d()`. -/
def copy2d (work src : Word) : Program Transfer :=
  (numBytesPerBlock args).bind fun dstPitch =>
  (advBytesPerBlock args).bind fun srcPitch =>
  (numBytesPerBlock args).bind fun numBytesX =>
  (numBlocksPerIteration args).bind fun numY =>
    .ret (.twoD work dstPitch src srcPitch numBytesX numY)

end Addskip32DmaArgs

/-- The checksums of some blocks, which are added to the destination or stored
there; the next index of the destination is returned. -/
def addBlocks (bAddToDst : Bool) (workSrc dst : Word) (numDWordsPerBlock : ℕ) :
    ℕ → ℕ → ℕ → Program ℕ
  | 0, _, dstIdx => .ret dstIdx
  | y + 1, si, dstIdx =>
      (addWords workSrc si numDWordsPerBlock 0).bind fun add =>
        let stored :=
          if bAddToDst then
            (loadWord (wordAddr dst dstIdx)).bind fun d =>
              storeWord (wordAddr dst dstIdx) (d + add)
          else storeWord (wordAddr dst dstIdx) add
        stored.bind fun _ =>
          addBlocks bAddToDst workSrc dst numDWordsPerBlock y
            (si + numDWordsPerBlock) (dstIdx + 1)

open Addskip32DmaArgs in
/-- `loc_addskip32_dma()`. -/
def locAddskip32Dma (args : Word) : Program Word :=
  (numBytesPerBlock args).bind fun numBytes =>
  (numBlocksPerIteration args).bind fun numBlocks =>
    if (numBytes * numBlocks).toNat ≤ scratchSize then
      (physAddrSrc args).bind fun srcAddr =>
      (physAddrDst args).bind fun dst =>
      (numBlocksPerIteration args).bind fun numBlocks =>
      (advBytesPerBlock args).bind fun adv =>
        let sums := fun workSrc (_ : ℕ) dstIdx =>
          (numBytesPerBlock args).bind fun numBytes =>
          (numBlocksPerIteration args).bind fun numBlocks =>
          (bAddToDst args).bind fun b =>
            addBlocks (b != 0) workSrc dst (numBytes.toNat / 4) numBlocks.toNat 0
              dstIdx
        stream (numIterations args) (copy2d args) (numBlocks * adv) sums srcAddr 0
    else .ret 0

/-! ## Commands -/

/-- `DEMO_CHECKSUM_ERR_OK`. -/
def demoChecksumErrOk : Word := 0

/-- `DEMO_CHECKSUM_ERR_ILLCMD`. -/
def demoChecksumErrIllcmd : Word := 1

/-- What a command returns, what it has written to `_ret1`, and the seed. -/
structure ExecRet where
  ret : Word
  ret1 : Option Word
  seed : Word

/-- A command that succeeds. -/
def succeeds (seed : Word) (p : Program Word) : Program ExecRet :=
  p.bind fun ret1 => .ret ⟨demoChecksumErrOk, some ret1, seed⟩

/-- `loc_exec()`.  The last command initiates a fastcall sequence, which is not a
matter of the component. -/
def locExec (cmd arg1 arg2 seed : Word) : Program ExecRet :=
  if cmd = 1 then succeeds seed (locAdd arg1 arg2)
  else if cmd = 2 ∨ cmd = 7 then
    (locRandWrite arg1 arg2 seed).bind fun r =>
      .ret ⟨demoChecksumErrOk, some r.1, r.2⟩
  else if cmd = 3 then succeeds seed (locRandRead arg1 arg2)
  else if cmd = 4 then succeeds seed (locAvg32 arg1 arg2)
  else if cmd = 5 then succeeds seed (locAdd32Dma arg1)
  else if cmd = 6 then succeeds seed (locAddskip32Dma arg1)
  else if cmd = 8 then succeeds seed (locRandReadNoinv arg1 arg2)
  else if cmd = 9 then .ret ⟨demoChecksumErrOk, none, seed⟩
  else .ret ⟨demoChecksumErrIllcmd, none, seed⟩

end C64Tools.DemoChecksum
