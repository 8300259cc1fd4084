import C64Tools.Library.ByteMemory
import C64Tools.Library.Transfers
import C64Tools.Library.Transition
import C64Tools.Qdma.Chain

/-!
# Programs beside their transfers

A component of the DSP loads and stores, starts transfers and waits for them,
while the transfers go on.  The steps of the two sides are taken in any order: the
channel controller serves an event at some time after it was given, and the bytes
of a transfer are read and written one by one in between the program's own.

Each program has a plain execution, in which a transfer is done as soon as it is
started and nothing is waited for.  The plain execution notices if the program
meets the bytes of a transfer that it has not waited for.  If it does not, then
every order of steps comes to the end, with the result and the memory of the plain
execution.
-/

namespace C64Tools.Qdma

open Edma ByteMemory Transfers Transition

/-! ## Programs -/

/-- What is done one after the other; memory is accessed byte by byte. -/
inductive Program (α : Type) where
  | ret (a : α)
  | load (x : Word) (k : Byte → Program α)
  | store (x : Word) (v : Byte) (k : Program α)
  | init (k : Program α)
  | copy (nr : ℕ) (x : Transfer) (k : Program α)
  | link (nr : ℕ) (call : LinkCall) (k : Program α)
  | wait (nr : ℕ) (k : Program α)

namespace Program

variable {α β : Type}

def bind : Program α → (α → Program β) → Program β
  | ret a, f => f a
  | load x k, f => load x fun v => (k v).bind f
  | store x v k, f => store x v (k.bind f)
  | init k, f => init (k.bind f)
  | copy nr x k, f => copy nr x (k.bind f)
  | link nr call k, f => link nr call (k.bind f)
  | wait nr k, f => wait nr (k.bind f)

instance : Monad Program where
  pure := ret
  bind := bind

end Program

/-- Some bytes from an address on are loaded. -/
def loadBytes (x : Word) : ℕ → Program (List Byte)
  | 0 => .ret []
  | n + 1 => .load x fun v => (loadBytes (x + 1) n).bind fun vs => .ret (v :: vs)

/-- Some bytes are stored one after the other. -/
def storeBytes (x : Word) : List Byte → Program Unit
  | [] => .ret ()
  | v :: vs => .store x v (storeBytes (x + 1) vs)

def loadWord (x : Word) : Program Word :=
  (loadBytes x 4).bind fun vs => .ret (word32 vs 0)

def storeWord (x v : Word) : Program Unit :=
  storeBytes x (bytes32 v)

/-- The address of a word of an array. -/
def wordAddr (a : Word) (i : ℕ) : Word :=
  a + BitVec.ofNat 32 (4 * i)

/-- Some words of an array. -/
def loadWords (a : Word) : ℕ → ℕ → Program (List Word)
  | _, 0 => .ret []
  | i, n + 1 =>
      (loadWord (wordAddr a i)).bind fun w =>
        (loadWords a (i + 1) n).bind fun ws => .ret (w :: ws)

/-! ## Transfers going on -/

/-- The bytes of a row. -/
def rowMoves (r : Row) : List (Move Word Byte) :=
  (List.range r.len).map fun j =>
    .copy (r.src + BitVec.ofNat 32 j) (r.dst + BitVec.ofNat 32 j)

def rowsMoves (rs : List Row) : List (Move Word Byte) :=
  rs.flatMap rowMoves

def Transfer.moves (x : Transfer) : List (Move Word Byte) :=
  rowsMoves x.rows

/-- What the transfer controller has been given by the channel controller: the
bytes that are left, and the completion codes to be signalled after them. -/
structure Batch where
  moves : List (Move Word Byte)
  codes : List ℕ

def batch (events : List Event) : Batch where
  moves := events.flatMap fun e =>
    match e with
    | .row r => rowMoves r
    | .complete _ => []
  codes := events.filterMap fun e =>
    match e with
    | .row _ => none
    | .complete tcc => some tcc

/-- The memory, the controller with the variables of `dma.c`, the transfers which
are under way in their order, and the bits of `IVA2_TPCC_IPR`. -/
structure Sys where
  mem : Memory 32
  dma : DmaState
  queue : List Batch
  ipr : ℕ → Bool

/-- What is not known of the transfer controllers: with which requests ahead of it, in
the order in which they were submitted, a request may be worked on.  One with none
ahead of it always may. -/
structure TransferControllers where
  mayPass : List Batch → Prop
  mayPass_nil : mayPass []

/-- A request is worked on when those before it are done, as it is with requests that
are submitted to one event queue. -/
def TransferControllers.InOrder (tc : TransferControllers) : Prop :=
  ∀ ahead, tc.mayPass ahead → ahead = []

/-- The transfers go on: an event is served, a byte of some transfer is read or
written, or a transfer has come to its end. -/
inductive Sys.Engine (tc : TransferControllers) (s : Sys) : Sys → Prop
  | serve {t : Controller} (h : s.dma.tpcc.service = some t) :
      Engine tc s
        { s with
          dma := { s.dma with tpcc := t }
          queue := s.queue ++
            [batch (t.trace.drop s.dma.tpcc.trace.length)] }
  | move {ahead rest : List Batch} {b : Batch} {mem : Memory 32}
      {moves : List (Move Word Byte)} (hqueue : s.queue = ahead ++ b :: rest)
      (hpass : tc.mayPass ahead) (h : Advances (s.mem, b.moves) (mem, moves)) :
      Engine tc s
        { s with
          mem := mem
          queue := ahead ++ { b with moves := moves } :: rest }
  | finish {ahead rest : List Batch} {b : Batch}
      (hqueue : s.queue = ahead ++ b :: rest) (hpass : tc.mayPass ahead)
      (h : b.moves = []) :
      Engine tc s
        { s with
          queue := ahead ++ rest
          ipr := fun tcc => s.ipr tcc || decide (tcc ∈ b.codes) }

/-! ## The DSP -/

/-- `qdma_wait()`, with nothing as long as the loop in it goes on. -/
def qdmaWait (s : Sys) (qdmaNr : ℕ) : Option Sys :=
  let q := s.dma.qdma qdmaNr
  if q.bRunning then
    if s.ipr q.tccNr.toNat then
      some
        { s with
          ipr := Function.update s.ipr q.tccNr.toNat false
          dma := { s.dma with
            qdma := Function.update s.dma.qdma qdmaNr
              { q with bRunning := false } } }
    else none
  else some s

/-- The next step of a program, if there is one. -/
def Program.step {α : Type} : Program α → Sys → Option (Program α × Sys)
  | ret _, _ => none
  | load x k, s => some (k (s.mem x), s)
  | store x v k, s => some (k, { s with mem := Function.update s.mem x v })
  -- the completion codes of all channels are cleared along with the rest
  | init k, s =>
      some (k,
        { s with
          dma := qdmaInit s.dma
          ipr := fun tcc => s.ipr tcc && !decide (tcc < numQdmas) })
  | copy nr x k, s => some (k, { s with dma := s.dma.copy nr x })
  | link nr call k, s => some (k, { s with dma := s.dma.link nr call })
  | wait nr k, s => (qdmaWait s nr).map fun s' => (k, s')

/-- Whose step it is. -/
inductive Side where
  | dsp
  | dma
  deriving DecidableEq, Repr

/-- A program and the transfers, from where they begin. -/
def machine {α : Type} (tc : TransferControllers) (p : Program α) (s : Sys) :
    Machine (Program α × Sys) Side where
  init c := c = (p, s)
  step c side c' :=
    match side with
    | .dsp => c.1.step c.2 = some c'
    | .dma => c'.1 = c.1 ∧ c.2.Engine tc c'.2

/-- Every order of steps leads to this result and this memory, with nothing left
to be transferred. -/
structure Yields {α : Type} (tc : TransferControllers) (p : Program α) (s : Sys)
    (a : α) (mem : Memory 32) : Prop where
  result : ∀ a' s', (machine tc p s).Reachable (.ret a', s') →
    a' = a ∧ s'.mem = mem ∧ s'.dma.tpcc.pending = [] ∧ s'.queue = []
  progress : ∀ c, (machine tc p s).Reachable c →
    (∃ a', c.1 = .ret a') ∨ ∃ side c', (machine tc p s).step c side c'
  terminates : Acc (fun c' c => ∃ side, (machine tc p s).step c side c') (p, s)

/-! ## Plain execution -/

/-- A memory with all transfers done, whether `qdma_init()` has been called, and
the transfer which has not been waited for. -/
structure Quiet where
  mem : Memory 32
  ready : Bool
  busy : Option (ℕ × List (Move Word Byte))

namespace Quiet

/-- The moves that may be under way. -/
def moves (q : Quiet) : List (Move Word Byte) :=
  (q.busy.map Prod.snd).getD []

/-- A byte is not written meanwhile. -/
def Loadable (q : Quiet) (x : Word) : Prop :=
  x ∉ q.moves.map Move.dst

/-- A byte is neither read nor written meanwhile. -/
def Storable (q : Quiet) (x : Word) : Prop :=
  x ∉ q.moves.map Move.dst ∧ ∀ m ∈ q.moves, m.src ≠ some x

/-- A transfer may be started. -/
def Startable (q : Quiet) (nr : ℕ) (x : Transfer) : Prop :=
  q.ready = true ∧ nr < numQdmas ∧ q.busy.isNone ∧ x.InRange ∧ Apart x.moves

instance (q : Quiet) (x : Word) : Decidable (q.Loadable x) := by
  unfold Loadable
  infer_instance

instance (q : Quiet) (x : Word) : Decidable (q.Storable x) := by
  unfold Storable
  infer_instance

instance (q : Quiet) (nr : ℕ) (x : Transfer) :
    Decidable (q.Startable nr x) := by
  unfold Startable
  infer_instance

/-- A transfer is started and done. -/
def start (q : Quiet) (nr : ℕ) (x : Transfer) : Quiet :=
  { q with
    mem := settled q.mem x.moves
    busy := some (nr, x.moves) }

/-- A channel has been waited for. -/
def await (q : Quiet) (nr : ℕ) : Quiet :=
  if q.busy.map Prod.fst = some nr then { q with busy := none } else q

end Quiet

/-- The plain execution, unless it fails.  There is none with linked transfers. -/
def Program.plain {α : Type} : Program α → Quiet → Option (α × Quiet)
  | ret a, q => some (a, q)
  | load x k, q => if q.Loadable x then (k (q.mem x)).plain q else none
  | store x v k, q =>
      if q.Storable x then
        k.plain { q with mem := Function.update q.mem x v }
      else none
  | init k, q =>
      if q.busy.isNone then k.plain { q with ready := true } else none
  | copy nr x k, q =>
      if q.Startable nr x then k.plain (q.start nr x) else none
  | link _ _ _, _ => none
  | wait nr k, q =>
      if q.ready = true ∧ nr < numQdmas then k.plain (q.await nr) else none

end C64Tools.Qdma
