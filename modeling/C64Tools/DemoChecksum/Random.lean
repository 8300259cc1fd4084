import C64Tools.DemoChecksum.Commands

/-!
# Random words

What is returned when random words are written is returned again when they are
read, however the system has got there.
-/

namespace C64Tools.DemoChecksum

open Edma ByteMemory Qdma Transfers

variable {tc : TransferControllers} {s : Sys} {mem : Memory 32} {q : Quiet}
  {addr : Word} {n i : ℕ}

end C64Tools.DemoChecksum
