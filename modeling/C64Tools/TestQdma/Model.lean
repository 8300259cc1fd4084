import C64Tools.Qdma.Programs

/-!
# The component `test_qdma`

Copies of one row or of several rows, and chains of them.  The arguments lie in
memory, and are read before the transfers of a chain are started.
-/

namespace C64Tools.TestQdma

open Edma ByteMemory Qdma

/-- `QDMA_0`. -/
def qdma0 : ℕ := 0

/-- `QDMA_1`. -/
def qdma1 : ℕ := 1

/-- `test_qdma_cmd_copy1d_args_t`, from some word of an array on. -/
def copy1dArgs (a : Word) (i : ℕ) : Program Transfer :=
  (loadWords a i 3).bind fun ws =>
    .ret (.oneD (ws.getD 0 0) (ws.getD 1 0) (ws.getD 2 0))

/-- `test_qdma_cmd_copy2d_args_t`. -/
def copy2dArgs (a : Word) (i : ℕ) : Program Transfer :=
  (loadWords a i 6).bind fun ws =>
    .ret (.twoD (ws.getD 0 0) (ws.getD 1 0) (ws.getD 2 0) (ws.getD 3 0)
      (ws.getD 4 0) (ws.getD 5 0))

/-- One transfer with its arguments. -/
def locCopy (args : Program Transfer) : Program Unit :=
  .init <| args.bind fun x => .copy qdma0 x <| .wait qdma0 <| .ret ()

/-- `loc_copy1d()`. -/
def locCopy1d (args : Word) : Program Unit :=
  locCopy (copy1dArgs args 0)

/-- `loc_copy2d()`. -/
def locCopy2d (args : Word) : Program Unit :=
  locCopy (copy2dArgs args 0)

/-- The loop over the linked transfers, from the last one of the array down to
the second one. -/
def linkLoop (args : ℕ → Program Transfer) (k : Program Unit) :
    ℕ → Program Unit
  | 0 => k
  | i + 1 =>
      (args (i + 1)).bind fun xfer =>
        .link qdma1
          -- the last transfer is linked to none
          ⟨u32 (8 + (i + 1) - 1),
            if 1 = i + 1 then 0xFFFF else u32 (8 + (i + 1) - 2), xfer⟩
          (linkLoop args k i)

/-- A chain of transfers with their number and their arguments. -/
def locLink (numLinks : Program Word) (args : ℕ → Program Transfer) :
    Program Unit :=
  .init <| numLinks.bind fun numLinks =>
    linkLoop args first (numLinks - 1).toNat
where
  /-- The first transfer starts the chain. -/
  first : Program Unit :=
    numLinks.bind fun numLinks =>
      (args 0).bind fun xfer =>
        .link qdma1 ⟨qdma1, u32 (8 + (numLinks - 1).toNat - 1), xfer⟩ <|
          .wait qdma1 <| .ret ()

/-- `loc_link1d()`. -/
def locLink1d (args : Word) : Program Unit :=
  locLink (loadWord (wordAddr args 0)) fun i => copy1dArgs args (1 + 3 * i)

/-- `loc_link2d()`. -/
def locLink2d (args : Word) : Program Unit :=
  locLink (loadWord (wordAddr args 0)) fun i => copy2dArgs args (1 + 6 * i)

/-- `TEST_QDMA_ERR_OK`. -/
def testQdmaErrOk : Word := 0

/-- `TEST_QDMA_ERR_ILLCMD`. -/
def testQdmaErrIllcmd : Word := 1

/-- A command succeeds; both the error and the first result say so. -/
def succeeds (p : Program Unit) : Program (Word × Option Word) :=
  p.bind fun _ => .ret (testQdmaErrOk, some testQdmaErrOk)

/-- `loc_exec()`: what it returns, and what it has written to `_ret1`. -/
def locExec (cmd arg1 _arg2 : Word) : Program (Word × Option Word) :=
  if cmd = 1 then succeeds (locCopy1d arg1)
  else if cmd = 2 then succeeds (locCopy2d arg1)
  else if cmd = 3 then succeeds (locLink1d arg1)
  else if cmd = 4 then succeeds (locLink2d arg1)
  else .ret (testQdmaErrIllcmd, none)

end C64Tools.TestQdma
