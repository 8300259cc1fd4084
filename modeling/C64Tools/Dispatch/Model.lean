import C64Tools.Core.Registers
import C64Tools.Library.Transition

/-!
# Messages and the dispatch loop

`mlb_send_to_dsp` writes a message to the shared registers one word at a time.
The DSP sleeps until a mailbox interrupt, which may be a spurious one, and takes
a serial number that it has not seen for a new message.

Interrupts of the DSP may come at any time, so that the write to the mailbox
which raises a genuine one needs no state of its own.  Whether a component is
found, what its `exec` function returns, and whether the mailbox is still full
after its reset, is left open.
-/

namespace C64Tools.Dispatch

open Transition

/-- The words of a `dsp_msg_t`. -/
structure RpcMsg where
  comp : ℕ
  arg1 : ℕ
  arg2 : ℕ
  deriving DecidableEq, Repr

/-- What `mlb_send_to_dsp` is called for: without a client it sends a test
message, which has no payload. -/
inductive Payload where
  | rpc (m : RpcMsg)
  | testMsg
  deriving DecidableEq, Repr

/-- What the dispatcher has made of a message: the arguments are read if there
is such a component. -/
structure Dispatched where
  comp : ℕ
  args : Option (ℕ × ℕ)
  deriving DecidableEq, Repr

/-- Where `mlb_send_to_dsp` is. -/
inductive GppPc where
  | idle
  | check (p : Payload)
  | clear (p : Payload)
  | count (p : Payload)
  | fifo (p : Payload)
  | serial (p : Payload)
  | comp (m : RpcMsg)
  | arg1 (m : RpcMsg)
  | arg2 (m : RpcMsg)
  | kick
  deriving DecidableEq, Repr

/-- Where `mlb_task__entry` is. -/
inductive DspPc where
  | asleep
  | awake
  | noteIrq
  | readSerial
  | readComp
  | readArg1 (comp : ℕ)
  | readArg2 (comp arg1 : ℕ)
  | exec (m : RpcMsg)
  | ret1 (err r1 r2 : ℕ)
  | ret2 (err r2 : ℕ)
  | errno (err : ℕ)
  | reply
  deriving DecidableEq, Repr

/-- Both processors and the registers between them, with a record of the
messages that were accepted and dispatched.  `answered` counts the replies
written by the DSP and `handled` those that have reached the driver. -/
structure System where
  ready : Bool
  msgSerial : ℕ
  regs : IpcRegs
  replies : ℕ
  gpp : GppPc
  dsp : DspPc
  numIrqs : ℕ
  oldNumIrqs : ℕ
  oldMsgSerial : ℕ
  accepted : List RpcMsg
  dispatched : List Dispatched
  answered : ℕ
  handled : ℕ
  deriving DecidableEq

/-- The DSP has started up, and no message has been written yet. -/
def System.initial : System where
  ready := true
  msgSerial := 0
  regs := IpcRegs.zero.setBootmode dspBootflagRunning
  replies := 0
  gpp := .idle
  dsp := .asleep
  numIrqs := 0x20000000
  oldNumIrqs := 0x20000000
  oldMsgSerial := 0
  accepted := []
  dispatched := []
  answered := 0
  handled := 0

/-- What a step of the DSP depends on: whether there is such a component, and
what its `exec` function returns and stores. -/
structure DspOutcome where
  found : Bool
  err : ℕ
  r1 : ℕ
  r2 : ℕ
  deriving DecidableEq, Repr

/-- What happens next. -/
inductive Event where
  | send (p : Payload)
  | gpp (fifoFull : Bool)
  | gppIrq
  | dspIrq
  | dsp (o : DspOutcome)
  deriving DecidableEq, Repr

/-- The next access of `mlb_send_to_dsp`. -/
def mlbSendToDsp (fifoFull : Bool) (s : System) : System :=
  match s.gpp with
  | .idle => s
  | .check p =>
      if s.ready ∨ p = .testMsg then { s with gpp := .clear p }
      else { s with gpp := .idle }
  | .clear p => { s with ready := false, gpp := .count p }
  -- the mailbox is reset as well, with the replies that it holds
  | .count p =>
      { s with msgSerial := u32 (s.msgSerial + 1), replies := 0, gpp := .fifo p }
  | .fifo p =>
      if fifoFull then { s with ready := true, gpp := .idle }
      else { s with gpp := .serial p }
  | .serial (.rpc m) =>
      { s with
        regs := { s.regs with msgSerial := s.msgSerial }
        accepted := s.accepted ++ [m]
        gpp := .comp m }
  | .serial .testMsg =>
      { s with regs := { s.regs with msgSerial := s.msgSerial }, gpp := .kick }
  | .comp m => { s with regs := { s.regs with comp := m.comp }, gpp := .arg1 m }
  | .arg1 m => { s with regs := { s.regs with arg1 := m.arg1 }, gpp := .arg2 m }
  | .arg2 m => { s with regs := { s.regs with arg2 := m.arg2 }, gpp := .kick }
  | .kick => { s with gpp := .idle }

/-- `irq_handler__mlb`: the replies are read, and the next message may be
sent. -/
def irqHandlerMlb (s : System) : System :=
  { s with replies := 0, ready := true, handled := s.handled + s.replies }

/-- `mlb_irq_handler`: the interrupt is counted, and ends the `IDLE`. -/
def mlbIrqHandler (s : System) : System :=
  { s with
    numIrqs := u32 (s.numIrqs + 1)
    dsp := if s.dsp = .asleep then .awake else s.dsp }

/-- The next access of the loop of `mlb_task__entry`. -/
def mlbTaskEntry (o : DspOutcome) (s : System) : System :=
  match s.dsp with
  | .asleep => s
  | .awake =>
      { s with dsp := if s.numIrqs ≠ s.oldNumIrqs then .noteIrq else .asleep }
  | .noteIrq => { s with oldNumIrqs := s.numIrqs, dsp := .readSerial }
  | .readSerial =>
      if s.oldMsgSerial ≠ s.regs.msgSerial then
        { s with oldMsgSerial := s.regs.msgSerial, dsp := .readComp }
      else { s with dsp := .asleep }
  | .readComp =>
      if o.found then { s with dsp := .readArg1 s.regs.comp }
      -- component not found, no return value is written
      else { s with
        dispatched := s.dispatched ++ [⟨s.regs.comp, none⟩]
        dsp := .reply }
  | .readArg1 comp => { s with dsp := .readArg2 comp s.regs.arg1 }
  | .readArg2 comp arg1 => { s with dsp := .exec ⟨comp, arg1, s.regs.arg2⟩ }
  | .exec m =>
      { s with
        dispatched := s.dispatched ++ [⟨m.comp, some (m.arg1, m.arg2)⟩]
        dsp := .ret1 o.err o.r1 o.r2 }
  | .ret1 err r1 r2 => { s with regs := s.regs.setRet1 r1, dsp := .ret2 err r2 }
  | .ret2 err r2 => { s with regs := s.regs.setRet2 r2, dsp := .errno err }
  | .errno err => { s with regs := { s.regs with errno := err }, dsp := .reply }
  | .reply =>
      { s with
        replies := s.replies + 1
        answered := s.answered + 1
        dsp := .asleep }

/-- The next state.  One message is sent at a time. -/
def dispatchNext (s : System) : Event → Option System
  | .send p => if s.gpp = .idle then some { s with gpp := .check p } else none
  | .gpp fifoFull => some (mlbSendToDsp fifoFull s)
  | .gppIrq => if 0 < s.replies then some (irqHandlerMlb s) else none
  | .dspIrq => some (mlbIrqHandler s)
  | .dsp o => some (mlbTaskEntry o s)

end C64Tools.Dispatch
