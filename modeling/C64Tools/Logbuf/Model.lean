import C64Tools.Core.Types
import C64Tools.Library.ByteMemory
import C64Tools.Library.RingBuffer
import C64Tools.Library.Transition

/-!
# The log ring buffer

The DSP writes log lines to a ring buffer in shared memory (`mlb.c`) and the
library prints what it finds there (`dsp.c`).  Lines are separated by a zero
byte, and a line that starts with a zero byte marks the end.  The two sides share
no count: the writer keeps its offset behind the ring and the reader keeps its
own offset to itself.
-/

namespace C64Tools.Logbuf

open Transition ByteMemory

/-- A string without its terminator. -/
abbrev CString := {str : List Byte // (0 : Byte) ∉ str}

/-- The shared ring with the writer's offset, and the reader's offset. -/
structure LogRing where
  mlbLogbuf : ℕ → Byte
  offsetWritep : ℕ
  offsetRead : ℕ

/-! ## The writer -/

/-- `memcpy()` to an offset of the ring. -/
def memcpy (ring : ℕ → Byte) (off : ℕ) (bytes : List Byte) : ℕ → Byte :=
  RingBuffer.store ring off bytes

/-- `loc_logbuf_addline()`, for the bytes of a string and its terminator. -/
def locLogbufAddline (str : List Byte) (numCharsIncASCIIZ : ℕ) (s : LogRing) :
    ℤ × LogRing :=
  if numCharsIncASCIIZ < dspLogbufSize then
    let copied :=
      if s.offsetWritep + numCharsIncASCIIZ > dspLogbufSize then
        memcpy
          (memcpy s.mlbLogbuf s.offsetWritep
            (str.take (dspLogbufSize - s.offsetWritep)))
          0
          ((str.drop (dspLogbufSize - s.offsetWritep)).take
            (numCharsIncASCIIZ - (dspLogbufSize - s.offsetWritep)))
      else memcpy s.mlbLogbuf s.offsetWritep (str.take numCharsIncASCIIZ)
    let offset := s.offsetWritep + numCharsIncASCIIZ
    let writep := if offset ≥ dspLogbufSize then offset - dspLogbufSize else offset
    (0, { s with
      mlbLogbuf := Function.update copied writep 0
      offsetWritep := writep })
  else (-1, s)

/-- `loc_puts()`. -/
def locPuts (str : CString) (s : LogRing) : ℤ × LogRing :=
  let len := str.1.length
  if len > 0 then locLogbufAddline (str.1 ++ [0]) (len + 1) s else (0, s)

/-! ## The reader -/

/-- What the reader puts out: its own label, a character of a log line, and
the newline with which it ends what it prints. -/
inductive LogOutput where
  | label (text : String)
  | char (c : Byte)
  | newline
  deriving DecidableEq, Repr

/-- The variables of the loop, and what has been put out so far. -/
structure PrintState where
  off : ℕ
  bLF : Bool
  bLZ : Bool
  bLS : Bool
  output : List LogOutput

/-- Two successive zero bytes mark the end. -/
def PrintState.atEnd (buf : ℕ → Byte) (r : PrintState) : Bool :=
  buf r.off == 0 && r.bLZ

/-- Pass over one byte. -/
def PrintState.next (buf : ℕ → Byte) (r : PrintState) : PrintState :=
  let c := buf r.off
  let off := if r.off + 1 ≥ dspLogbufSize then r.off + 1 - dspLogbufSize
    else r.off + 1
  if c ≠ 0 then
    let bLF := c == 0x0A
    { off := off
      bLF := bLF
      bLZ := false
      bLS := bLF
      output := r.output ++
        (if r.bLS then [.label "DSP: "] else []) ++ [.char c] }
  else { r with off := off, bLZ := true }

/-- The loop of `dsp_logbuf_print()`.  The counter goes down by one with the
offset and by one more before it is compared. -/
def printLoop (buf : ℕ → Byte) : ℕ → PrintState → PrintState
  | cntMax + 2, r =>
      if r.atEnd buf then r
      else if cntMax > 0 then printLoop buf cntMax (r.next buf)
      else r.next buf
  | _, r => if r.atEnd buf then r else r.next buf

/-- `dsp_logbuf_print()`. -/
def dspLogbufPrint (s : LogRing) : List LogOutput × LogRing :=
  if s.mlbLogbuf s.offsetRead ≠ 0 then
    let r := printLoop s.mlbLogbuf dspLogbufSize
      { off := s.offsetRead, bLF := false, bLZ := false, bLS := true,
        output := [] }
    (r.output ++ (if r.bLF then [] else [.newline]),
      { s with offsetRead := r.off })
  else ([], s)

/-! ## Runs of both sides -/

/-- The characters of log lines among what is put out. -/
def payload (output : List LogOutput) : List Byte :=
  output.filterMap fun
    | .char c => some c
    | _ => none

/-- The bytes, terminators included, that the reader has not passed yet. -/
def LogRing.pending (s : LogRing) : ℕ :=
  RingBuffer.distance dspLogbufSize s.offsetRead s.offsetWritep

/-- The buffer, the strings written and the characters printed so far. -/
structure LogRun where
  buf : LogRing
  written : List Byte
  printed : List Byte

/-- A zeroed ring. -/
def LogRun.initial : LogRun :=
  { buf := { mlbLogbuf := fun _ => 0, offsetWritep := 0, offsetRead := 0 }
    written := []
    printed := [] }

inductive LogEvent where
  | puts (str : CString)
  | print

/-- A string is written by a call which returns zero. -/
def LogRun.puts (s : LogRun) (str : CString) : LogRun :=
  let (ret, buf) := locPuts str s.buf
  { s with buf := buf, written := if ret = 0 then s.written ++ str.1 else s.written }

def LogRun.print (s : LogRun) : LogRun :=
  let (output, buf) := dspLogbufPrint s.buf
  { s with buf := buf, printed := s.printed ++ payload output }

def logNext (s : LogRun) : LogEvent → Option LogRun
  | .puts str => some (s.puts str)
  | .print => some s.print

/-- The string is shorter than the ring and leaves less pending than the
ring holds. -/
def FitsRing (s : LogRun) : LogEvent → Prop
  | .puts str => str.1.length < dspLogbufSize ∧
      (0 < str.1.length → s.buf.pending + (str.1.length + 1) < dspLogbufSize)
  | .print => True

instance (s : LogRun) (e : LogEvent) : Decidable (FitsRing s e) := by
  unfold FitsRing
  split <;> infer_instance

/-- Completed calls on both sides, in any order. -/
def logMachine : Machine LogRun LogEvent :=
  (Machine.ofNext LogRun.initial logNext).restrict FitsRing

end C64Tools.Logbuf
