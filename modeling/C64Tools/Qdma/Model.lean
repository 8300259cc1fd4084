import C64Tools.Core.Types
import C64Tools.Library.Edma
import Mathlib.Data.Fin.VecNotation

/-!
# Quick DMA transfers

`dma.c` gives each of the eight quick channels the parameter entry of its own
number, with the last word as its trigger.  A transfer of one row or of several
rows is set up in the entry of a channel, which starts it, or in another entry to
which it may be linked.
-/

namespace C64Tools.Qdma

open Edma

/-! ## Registers -/

/-- `IVA2_TPCC_BASE`. -/
def iva2TpccBase : ℕ := 0x01C00000

/-- `IVA2_TPCC_QCHMAP0`. -/
def iva2TpccQchmap0 : ℕ := iva2TpccBase + 0x200

/-- `IVA2_TPCC_QDMAQNUM`. -/
def iva2TpccQdmaqnum : ℕ := iva2TpccBase + 0x260

/-- `IVA2_TPCC_QUETCMAP`. -/
def iva2TpccQuetcmap : ℕ := iva2TpccBase + 0x280

/-- `IVA2_TPCC_QUEPRI`. -/
def iva2TpccQuepri : ℕ := iva2TpccBase + 0x284

/-- `IVA2_TPCC_ICR`. -/
def iva2TpccIcr : ℕ := iva2TpccBase + 0x1070

/-- `IVA2_TPCC_QEESR`. -/
def iva2TpccQeesr : ℕ := iva2TpccBase + 0x108C

/-- `IVA2_TPCC_PARAM_BASE`. -/
def iva2TpccParamBase : ℕ := iva2TpccBase + 0x4000

/-- `IVA2_TPTC0_RDRATE`. -/
def iva2Tptc0Rdrate : ℕ := 0x01C10000 + 0x140

/-- `IVA2_TPTC1_RDRATE`. -/
def iva2Tptc1Rdrate : ℕ := 0x01C10400 + 0x140

/-- Write a register.  Those which choose queues, priorities and rates, and the
one which clears interrupts that were signalled before, have no part in what is
transferred. -/
def dspReg (s : Controller) (addr : ℕ) (v : Word) : Controller :=
  if iva2TpccParamBase ≤ addr ∧ addr < iva2TpccParamBase + 32 * 128 then
    let off := addr - iva2TpccParamBase
    s.writeParam (off / 32) ⟨off % 32 / 4, by omega⟩ v
  else if iva2TpccQchmap0 ≤ addr ∧ addr < iva2TpccQchmap0 + 4 * 8 then
    { s with qchmap :=
        Function.update s.qchmap ((addr - iva2TpccQchmap0) / 4) v }
  else if addr = iva2TpccQeesr then
    { s with qeer := fun ch => s.qeer ch || v.getLsbD ch }
  else s

/-- Write registers one after the other. -/
def dspRegs (s : Controller) (writes : List (ℕ × Word)) : Controller :=
  writes.foldl (fun s w => dspReg s w.1 w.2) s

/-! ## Channels -/

/-- `NUM_QDMAS`. -/
def numQdmas : ℕ := 8

/-- `EVENT_QUEUE_NR`. -/
def eventQueueNr : Word := 1

/-- `qdma_t`. -/
structure QdmaT where
  eventQueueNr : Word
  paramNr : ℕ
  tccNr : Word
  bRunning : Bool

/-- The variables of `dma.c` and the controller. -/
structure DmaState where
  qdma : ℕ → QdmaT
  tpcc : Controller

/-- The body of the loop in `qdma_init()`. -/
def channelWrites (q : QdmaT) (qdmaNr : ℕ) : List (ℕ × Word) :=
  [(iva2TpccQchmap0 + 4 * qdmaNr,
      BitVec.ofNat 32 q.paramNr <<< 5 ||| (7 : Word) <<< 2),
    (iva2TpccQdmaqnum, q.eventQueueNr <<< (4 * qdmaNr)),
    (iva2TpccIcr, (1 : Word) <<< q.tccNr.toNat),
    (iva2TpccQeesr, (1 : Word) <<< qdmaNr)]

/-- What `qdma_init()` writes at the end. -/
def queueWrites : List (ℕ × Word) :=
  [(iva2TpccQuetcmap, (1 : Word) <<< 4 ||| (0 : Word) <<< 0),
    (iva2TpccQuepri, (0 : Word) <<< 0 ||| (0 : Word) <<< 4),
    (iva2Tptc0Rdrate, 0),
    (iva2Tptc1Rdrate, 0)]

/-- `qdma_init()`. -/
def qdmaInit (s : DmaState) : DmaState :=
  let qdma := fun nr =>
    if nr < numQdmas then
      { eventQueueNr := eventQueueNr, paramNr := nr,
        tccNr := BitVec.ofNat 32 nr, bRunning := false }
    else s.qdma nr
  { qdma := qdma
    tpcc := dspRegs s.tpcc
      ((List.range numQdmas).flatMap (fun nr => channelWrites (qdma nr) nr) ++
        queueWrites) }

/-! ## Parameter sets -/

/-- The word at `IVA2_TPCC_PARAM_OPT`. -/
def optWord (tcinten tcc static syncdim : Word) : Word :=
  tcinten <<< 20 ||| tcc <<< 12 ||| (0 : Word) <<< 8 ||| static <<< 3 |||
    syncdim <<< 2 ||| (0 : Word) <<< 1 ||| (0 : Word) <<< 0

/-- The word at `IVA2_TPCC_PARAM_ABCNT`. -/
def abcntWord (bcnt acnt : Word) : Word :=
  bcnt <<< 16 ||| acnt &&& 65535

/-- The word at `IVA2_TPCC_PARAM_BIDX`. -/
def bidxWord (dstPitch srcPitch : Word) : Word :=
  (dstPitch &&& 65535) <<< 16 ||| (srcPitch &&& 65535) <<< 0

/-- The word at `IVA2_TPCC_PARAM_LNK`. -/
def lnkWord (linkToParamNr : ℕ) : Word :=
  -- the condition of `?:` is the comparison with a zero or'ed to it
  if linkToParamNr ≤ 127 then BitVec.ofNat 32 (32 * linkToParamNr)
  else 0xFFFF

/-- The words of an entry.  There are no third dimension's increments, and
writing the count of one is what starts a transfer. -/
def paramWords (opt src abcnt dst bidx lnk : Word) : ParamSet :=
  ![opt, src, abcnt, dst, bidx, lnk, 0, 1]

/-- The writes of the words of an entry, in their order. -/
def paramWrites (paramNr : ℕ) (words : ParamSet) : List (ℕ × Word) :=
  (List.finRange 8).map fun i =>
    (u32 (iva2TpccParamBase + u32 (32 * paramNr)) + 4 * i.val, words i)

/-- `qdma[nr].b_running = S_TRUE`. -/
def running (qdma : ℕ → QdmaT) (nr : ℕ) : ℕ → QdmaT :=
  Function.update qdma nr { qdma nr with bRunning := true }

/-! ## Transfers -/

/-- `qdma_copy1d()`. -/
def qdmaCopy1d (s : DmaState) (qdmaNr : ℕ) (dst src numBytes : Word) :
    DmaState :=
  { tpcc := dspRegs s.tpcc (paramWrites (s.qdma qdmaNr).paramNr
      (paramWords (optWord 1 (s.qdma qdmaNr).tccNr 1 0) src
        (abcntWord 1 numBytes) dst 0 0xFFFF))
    qdma := running s.qdma qdmaNr }

/-- `qdma_copy2d()`. -/
def qdmaCopy2d (s : DmaState) (qdmaNr : ℕ) (dst dstPitch src srcPitch
    numBytesX numY : Word) : DmaState :=
  { tpcc := dspRegs s.tpcc (paramWrites (s.qdma qdmaNr).paramNr
      (paramWords (optWord 1 (s.qdma qdmaNr).tccNr 1 1) src
        (abcntWord numY numBytesX) dst (bidxWord dstPitch srcPitch) 0xFFFF))
    qdma := running s.qdma qdmaNr }

/-- `qdma_link1d()`. -/
def qdmaLink1d (s : DmaState) (qdmaNr paramNr linkToParamNr : ℕ)
    (dst src numBytes : Word) : DmaState :=
  let opt := if linkToParamNr ≤ 127 then optWord 0 0 0 0
    else optWord 1 (s.qdma qdmaNr).tccNr 1 0
  { tpcc := dspRegs s.tpcc (paramWrites paramNr
      (paramWords opt src (abcntWord 1 numBytes) dst 0
        (lnkWord linkToParamNr)))
    qdma := if paramNr = qdmaNr then running s.qdma qdmaNr else s.qdma }

/-- `qdma_link2d()`. -/
def qdmaLink2d (s : DmaState) (qdmaNr paramNr linkToParamNr : ℕ)
    (dst dstPitch src srcPitch numBytesX numY : Word) : DmaState :=
  let opt := if linkToParamNr ≤ 127 then optWord 0 0 0 1
    else optWord 1 (s.qdma qdmaNr).tccNr 1 1
  { tpcc := dspRegs s.tpcc (paramWrites paramNr
      (paramWords opt src (abcntWord numY numBytesX) dst
        (bidxWord dstPitch srcPitch) (lnkWord linkToParamNr)))
    qdma := if paramNr = qdmaNr then running s.qdma qdmaNr else s.qdma }

/-- A transfer with its arguments. -/
inductive Transfer where
  | oneD (dst src numBytes : Word)
  | twoD (dst dstPitch src srcPitch numBytesX numY : Word)

/-- A call of `qdma_link1d()` or `qdma_link2d()` for some channel. -/
structure LinkCall where
  paramNr : ℕ
  linkToParamNr : ℕ
  xfer : Transfer

def DmaState.link (s : DmaState) (qdmaNr : ℕ) (c : LinkCall) : DmaState :=
  match c.xfer with
  | .oneD dst src numBytes =>
      qdmaLink1d s qdmaNr c.paramNr c.linkToParamNr dst src numBytes
  | .twoD dst dstPitch src srcPitch numBytesX numY =>
      qdmaLink2d s qdmaNr c.paramNr c.linkToParamNr dst dstPitch src srcPitch
        numBytesX numY

def DmaState.copy (s : DmaState) (qdmaNr : ℕ) : Transfer → DmaState
  | .oneD dst src numBytes => qdmaCopy1d s qdmaNr dst src numBytes
  | .twoD dst dstPitch src srcPitch numBytesX numY =>
      qdmaCopy2d s qdmaNr dst dstPitch src srcPitch numBytesX numY

end C64Tools.Qdma
