import C64Tools.Qdma.Linked
import C64Tools.TestQdma.Model

/-!
# What the commands transfer

Linked transfers are performed in the order of their chain: the first one of the
array, and then the others from the last one on.
-/

namespace C64Tools.TestQdma

open Edma ByteMemory Qdma Transfers

variable {tc : TransferControllers} {s : Sys} {mem : Memory 32} {n : ℕ}
  {args : ℕ → Program Transfer}
  {xfer : ℕ → Transfer}

/-! ## Arguments -/

end C64Tools.TestQdma
