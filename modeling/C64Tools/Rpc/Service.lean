import C64Tools.Kmod.Dev.Delivery
import C64Tools.Library.Service
import C64Tools.Rpc.Model

/-!
# The DSP as a service

The driver with all its clients, and a DSP that executes the message it finds in
the registers.  What the program of the DSP keeps in memory, and what its `exec`
functions make of a message, is left open: they may read what processes have put
into shared memory, and `mlb_task__entry` initialises the components only when
it was not resumed.

`mlb_send_to_dsp` publishes the serial number first and the words of the message
after it.  A DSP that takes the message before all words are there executes
something else, which is left open as well.

In runs in which this does not happen, every message that a client reads is the
reply which a server taking one request at a time gives to the client's own
request.
-/

namespace C64Tools.Rpc

open Transition Kmod

/-- What the DSP does: it runs `mlb_task__entry` up to its loop, or executes a
message.  `x` is what it meets with on its way, such as the content of shared
memory. -/
inductive Task (ξ : Type) where
  | boot (x : ξ)
  | message (id : ℕ) (m : DspMsg) (x : ξ)
  deriving DecidableEq

/-- The number of the message that is executed. -/
def Task.id? {ξ : Type} : Task ξ → Option ℕ
  | .boot _ => none
  | .message id _ _ => some id

/-- The program of the DSP.  There is no result when the component is not
found. -/
structure Firmware (σ ξ : Type) where
  boot : σ → ξ → σ
  exec : σ → DspMsg → ξ → σ × Option ExecResult

/-- Memory of the program, and the error number register. -/
structure DspState (σ : Type) where
  mem : σ
  errno : ℕ
  deriving DecidableEq

/-- The two words of a reply. -/
abbrev Reply := ℕ × ℕ

variable {σ ξ : Type}

/-- A message is executed.  Return values take the place of the arguments, and
so a message to no component is answered with its own arguments. -/
def Firmware.answer (fw : Firmware σ ξ) (s : DspState σ) (m : DspMsg) (x : ξ) :
    DspState σ × Reply :=
  match fw.exec s.mem m x with
  | (mem, some result) => (⟨mem, result.errno⟩, (result.ret1, result.ret2))
  | (mem, none) => ({ s with mem }, (m.data0, m.data1))

/-- A task is done. -/
def Firmware.serve (fw : Firmware σ ξ) (s : DspState σ) :
    Task ξ → DspState σ × Option Reply
  | .boot x => ({ s with mem := fw.boot s.mem x }, none)
  | .message _ m x => ((fw.answer s m x).1, some (fw.answer s m x).2)

/-- The driver, the words of the message that `mlb_send_to_dsp` has still to
write, the memory of the program, and what the DSP has done so far, each time
with its reply. -/
structure System (σ ξ : Type) where
  driver : Driver
  unwritten : ℕ
  mem : σ
  history : List (Task ξ × Option Reply)

namespace System

def initial (ram : DspMemRegion) (mem : σ) : System σ ξ where
  driver := Driver.initial ram
  unwritten := 0
  mem := mem
  history := []

/-- The DSP as it is. -/
def dsp (s : System σ ξ) : DspState σ :=
  ⟨s.mem, s.driver.regs.errno⟩

/-- The DSP when the module has been loaded. -/
def dspInitial (mem : σ) : DspState σ :=
  ⟨mem, 0⟩

/-- The message that the DSP finds in the registers.  As long as words are
missing it may be any. -/
def found (s : System σ ξ) (left : DspMsg) : DspMsg :=
  if s.unwritten = 0 then DspMsg.ofRegs s.driver.regs else left

end System

/-- A step of the driver, the write of the next word of a message, or the
execution of a message by the DSP. -/
inductive SystemEvent (ξ : Type) where
  | driver (e : Kmod.Event) (x : ξ)
  | word
  | execute (id : ℕ) (left : DspMsg) (x : ξ)

/-- The DSP begins to execute its program. -/
def restarts (p p' : Power) : Bool :=
  p'.executing && (!p.executing || p.resets != p'.resets)

/-- On whose behalf a step of the driver publishes a serial number. -/
def publishes (d : Driver) : Kmod.Event → Option Sender
  | .proc o =>
      match d.crit with
      | .sending who .kick => if o.fifoFull then none else some who
      | _ => none
  | _ => none

/-- The words that follow the serial number: component, and two arguments. -/
def payloadWords : Sender → ℕ
  | .test _ _ => 0
  | _ => 3

/-- The step takes `mtx_clients`, or is one of the process that holds it. -/
def locks : Kmod.Event → Bool
  | .openFile _ _ | .releaseFile _ | .writeFile _ _ | .proc _ => true
  | .ioctl _ cmd => cmd.locks
  | _ => false

/-- The words that are missing after a step of the driver. -/
def unwrittenAfter (d : Driver) (e : Kmod.Event) (unwritten : ℕ) : ℕ :=
  match publishes d e with
  | some who => payloadWords who
  | none => unwritten

def systemNext (fw : Firmware σ ξ) (s : System σ ξ) :
    SystemEvent ξ → Option (System σ ξ)
  -- the DSP answers with what it has executed
  | .driver (.answer _ _ _ _) _ => none
  | .driver e x =>
      if 0 < s.unwritten ∧ locks e then none
      else (driverNext s.driver e).map fun d =>
        let s' := { s with
          driver := d
          unwritten := unwrittenAfter s.driver e s.unwritten }
        if restarts s.driver.power d.power then
          { s' with
            mem := fw.boot s.mem x
            history := s.history ++ [(.boot x, none)] }
        else s'
  | .word =>
      if 0 < s.unwritten then some { s with unwritten := s.unwritten - 1 }
      else none
  | .execute id left x =>
      let m := s.found left
      let (dsp, ret) := fw.answer s.dsp m x
      (dspAnswer id ret.1 ret.2 dsp.errno s.driver).map fun d =>
        { s with
          driver := d
          mem := dsp.mem
          history := s.history ++ [(.message id m x, some ret)] }

def systemMachine (fw : Firmware σ ξ) (ram : DspMemRegion) (mem : σ) :
    Machine (System σ ξ) (SystemEvent ξ) :=
  Machine.ofNext (System.initial ram mem) (systemNext fw)

/-- The steps of the driver route replies, messages are written to a DSP that
runs, and the DSP takes a message when all its words have been written. -/
def SystemEvent.Orderly (s : System σ ξ) : SystemEvent ξ → Prop
  | .driver e _ =>
      RoutesReplies s.driver e ∧
        (publishes s.driver e ≠ none → s.driver.power.dspState = .running)
  | .word => True
  | .execute _ _ _ => s.unwritten = 0

/-! ## The dispatcher of the DSP -/

/-- The `components` array and the `exec` functions are found in memory, which
may be different after each message.  In `r1` and `r2` the dispatcher finds what
is left there. -/
def dispatcher (registry : σ → Components) (boot : σ → ξ → σ)
    (next : σ → DspMsg → ξ → σ) (left : ξ → ℕ × ℕ) : Firmware σ ξ where
  boot := boot
  exec s m x :=
    (next s m x, execute (registry s) (left x).1 (left x).2 m)

/-- Components that keep nothing in memory. -/
def fixedDispatcher (components : Components) : Firmware Unit (ℕ × ℕ) :=
  dispatcher (fun _ => components) (fun s _ => s) (fun s _ _ => s) fun r => r

variable {registry : σ → Components} {boot : σ → ξ → σ}
  {next : σ → DspMsg → ξ → σ} {left : ξ → ℕ × ℕ}

/-- The answer to the message in the registers is what `mlb_task__entry` leaves
there. -/
theorem mlbTaskEntry_eq_answer (t : σ) (x : ξ) (regs : IpcRegs) :
    let out := (dispatcher registry boot next left).answer ⟨t, regs.errno⟩
      (DspMsg.ofRegs regs) x
    mlbTaskEntry (registry t) (left x).1 (left x).2 regs =
      regs.setReply out.2.1 out.2.2 out.1.errno := by
  unfold mlbTaskEntry Firmware.answer dispatcher
  dsimp only
  cases execute (registry t) (left x).1 (left x).2 (DspMsg.ofRegs regs) with
  | none => rfl
  | some result => rfl

end C64Tools.Rpc
