import C64Tools.Library.Service
import C64Tools.Library.Transition

/-!
# Fastcalls

After a message has initiated a fastcall sequence, the GPP and the DSP exchange
calls through two blocks of shared registers.  Each side owns the control word
of one block, polls the other one, and takes one step per register that it
reads or writes.

The mailbox is left at one message and one reply: serial numbers and spurious
interrupts belong to the dispatch loop, and the return registers of a message
to the driver.  Polling loops end when their condition is met; nothing times
out.
-/

namespace C64Tools.Fastcall

open Transition

/-- `DSP_FSHM_FASTCALL_CTL_*`. -/
inductive FastcallCtl where
  | done
  | idle
  | req
  | ack
  deriving DecidableEq, Repr

/-- A command and its arguments, of a message as of a fastcall. -/
structure Call where
  cmd : ℕ
  arg1 : ℕ
  arg2 : ℕ
  deriving DecidableEq, Repr

/-- `DSP_COMPONENT_FC_CMD_DISPATCH`: a fastcall command has its number in the
upper half of the word. -/
def Call.dispatch (c : Call) : Call := { c with cmd := c.cmd >>> 16 }

/-- The values returned by `exec_fc`. -/
structure FcReturn where
  r1 : ℕ
  r2 : ℕ
  deriving DecidableEq, Repr

/-- A component that implements `exec_fc`.  Some of its commands call
`mlb_fastcall_initiate`, and these succeed. -/
structure Component (σ : Type*) where
  exec : σ → Call → σ × ℕ
  execFc : σ → Call → σ × FcReturn
  initiates : Call → Bool
  exec_of_initiates : ∀ s m, initiates m = true → (exec s m).2 = 0

/-- What the component is asked to do. -/
inductive Request where
  | message (m : Call)
  | fastcall (c : Call)
  deriving DecidableEq, Repr

/-- The request as the component sees it. -/
def Request.dispatch : Request → Request
  | .message m => .message m
  | .fastcall c => .fastcall c.dispatch

/-- Which of the two result pointers of `dsp_fastcall_rpc_recv` are given. -/
structure RetPtrs where
  r1FC : Bool
  r2FC : Bool
  deriving DecidableEq, Repr

/-- The value stored through a result pointer. -/
def store (given : Bool) (val : ℕ) : Option ℕ :=
  if given then some val else none

/-- A finished `dsp_fastcall_rpc_recv`. -/
structure Received where
  ptrs : RetPtrs
  r1 : Option ℕ
  r2 : Option ℕ
  deriving DecidableEq, Repr

/-- Where the client is. -/
inductive GppPc where
  | idle
  | rpcCheck (m : Call)
  | rpcCtl (m : Call)
  | rpcWrite (m : Call)
  | rpcRecv
  | sequence
  | sendPoll (c : Call)
  | sendCmd (c : Call)
  | sendArg1 (c : Call)
  | sendArg2 (c : Call)
  | sendCtl (c : Call)
  | sent
  | recvPoll (p : RetPtrs)
  | recvCtl (p : RetPtrs)
  | recvRet1 (p : RetPtrs)
  | recvRet2 (p : RetPtrs) (r1 : Option ℕ)
  | endPoll
  | endCtl
  | endRecv
  deriving DecidableEq, Repr

/-- Where `mlb_task__entry` is. -/
inductive DspPc where
  | mailbox
  | exec (m : Call)
  | initiate (err : ℕ)
  | check
  | poll
  | test
  | readCmd
  | readArg1 (cmd : ℕ)
  | readArg2 (cmd arg1 : ℕ)
  | execFc (c : Call)
  | ret1 (r : FcReturn)
  | ret2 (r : FcReturn)
  | ack
  | ackPoll
  | ackIdle
  | done
  | reply
  deriving DecidableEq, Repr

/-- Both processors and the registers between them, with a record of what was
requested, executed and received.  `todsp` stands for the registers
`DSP_FSHM_MSG_TODSP_CMD`, `_ARG1` and `_ARG2`, and `togpp` for
`DSP_FSHM_MSG_TOGPP_RET1` and `_RET2`. -/
structure System (σ : Type*) where
  todspCtl : FastcallCtl
  todsp : Call
  togppCtl : FastcallCtl
  togpp : FcReturn
  message : Option Call
  replied : Bool
  gpp : GppPc
  dsp : DspPc
  comp : σ
  requested : List Request
  executed : List Request
  received : List Received

/-- The DSP has started up. -/
def System.initial {σ : Type*} (start : σ) : System σ where
  todspCtl := .done
  todsp := ⟨0, 0, 0⟩
  togppCtl := .done
  togpp := ⟨0, 0⟩
  message := none
  replied := false
  gpp := .idle
  dsp := .mailbox
  comp := start
  requested := []
  executed := []
  received := []

section

variable {σ : Type*} (C : Component σ)

/-- One request served by the component. -/
def Component.serve (s : σ) : Request → σ × Option FcReturn
  | .message m => ((C.exec s m).1, none)
  | .fastcall c => ((C.execFc s c).1, some (C.execFc s c).2)

/-- The values returned by the fastcalls among some requests. -/
def Component.returns (start : σ) (reqs : List Request) : List FcReturn :=
  (Service.replies C.serve start reqs).filterMap id

/-- The client calls a function of the library. -/
inductive GppCall where
  | rpcSend (m : Call)
  | fastcallSend (c : Call)
  | fastcallRecv (p : RetPtrs)
  | fastcallEnd
  deriving DecidableEq, Repr

/-- A message is sent when no sequence is under way, fastcalls are sent and
received in pairs, and the sequence ends between two pairs. -/
def gppCall (s : System σ) : GppCall → Option (System σ)
  | .rpcSend m =>
      if s.gpp = .idle then some { s with gpp := .rpcCheck m } else none
  | .fastcallSend c =>
      if s.gpp = .sequence then some { s with gpp := .sendPoll c } else none
  | .fastcallRecv p =>
      if s.gpp = .sent then some { s with gpp := .recvPoll p } else none
  | .fastcallEnd =>
      if s.gpp = .sequence then some { s with gpp := .endPoll } else none

/-- The next access of the client to a shared register. -/
def gppStep (s : System σ) : System σ :=
  match s.gpp with
  | .idle | .sequence | .sent => s
  -- `dsp_rpc_send`
  | .rpcCheck m =>
      if s.togppCtl = .done then { s with gpp := .rpcCtl m } else s
  | .rpcCtl m => { s with todspCtl := .idle, gpp := .rpcWrite m }
  | .rpcWrite m =>
      { s with
        message := some m
        requested := s.requested ++ [.message m]
        gpp := if C.initiates m then .sequence else .rpcRecv }
  -- `dsp_rpc_recv`
  | .rpcRecv => if s.replied then { s with replied := false, gpp := .idle } else s
  -- `dsp_fastcall_rpc_send`
  | .sendPoll c =>
      if s.togppCtl = .idle then { s with gpp := .sendCmd c } else s
  | .sendCmd c => { s with todsp.cmd := c.cmd, gpp := .sendArg1 c }
  | .sendArg1 c => { s with todsp.arg1 := c.arg1, gpp := .sendArg2 c }
  | .sendArg2 c => { s with todsp.arg2 := c.arg2, gpp := .sendCtl c }
  | .sendCtl c =>
      { s with
        todspCtl := .req
        requested := s.requested ++ [.fastcall c]
        gpp := .sent }
  -- `dsp_fastcall_rpc_recv`
  | .recvPoll p =>
      if s.togppCtl = .ack then { s with gpp := .recvCtl p } else s
  | .recvCtl p => { s with todspCtl := .idle, gpp := .recvRet1 p }
  | .recvRet1 p => { s with gpp := .recvRet2 p (store p.r1FC s.togpp.r1) }
  | .recvRet2 p r1 =>
      { s with
        received := s.received ++ [⟨p, r1, store p.r2FC s.togpp.r2⟩]
        gpp := .sequence }
  -- `dsp_fastcall_end`
  | .endPoll => if s.togppCtl = .idle then { s with gpp := .endCtl } else s
  | .endCtl => { s with todspCtl := .done, gpp := .endRecv }
  | .endRecv => if s.replied then { s with replied := false, gpp := .idle } else s

/-- The next access of the DSP to a shared register, or a call of its
component. -/
def dspStep (s : System σ) : System σ :=
  match s.dsp with
  | .mailbox =>
      match s.message with
      | some m => { s with message := none, dsp := .exec m }
      | none => s
  | .exec m =>
      { s with
        comp := (C.exec s.comp m).1
        executed := s.executed ++ [.message m]
        dsp :=
          if C.initiates m then .initiate (C.exec s.comp m).2
          else if (C.exec s.comp m).2 = 0 then .check
          else .reply }
  | .initiate err =>
      { s with togppCtl := .idle, dsp := if err = 0 then .check else .reply }
  | .check => { s with dsp := if s.togppCtl = .idle then .poll else .reply }
  | .poll => if s.todspCtl = .idle then s else { s with dsp := .test }
  -- the control word is read once more to tell a request from the end
  | .test => { s with dsp := if s.todspCtl = .req then .readCmd else .done }
  | .readCmd => { s with dsp := .readArg1 (s.todsp.cmd >>> 16) }
  | .readArg1 cmd => { s with dsp := .readArg2 cmd s.todsp.arg1 }
  | .readArg2 cmd arg1 => { s with dsp := .execFc ⟨cmd, arg1, s.todsp.arg2⟩ }
  | .execFc c =>
      { s with
        comp := (C.execFc s.comp c).1
        executed := s.executed ++ [.fastcall c]
        dsp := .ret1 (C.execFc s.comp c).2 }
  | .ret1 r => { s with togpp.r1 := r.r1, dsp := .ret2 r }
  | .ret2 r => { s with togpp.r2 := r.r2, dsp := .ack }
  | .ack => { s with togppCtl := .ack, dsp := .ackPoll }
  | .ackPoll => if s.todspCtl = .idle then { s with dsp := .ackIdle } else s
  | .ackIdle => { s with togppCtl := .idle, dsp := .poll }
  | .done => { s with togppCtl := .done, dsp := .reply }
  | .reply => { s with replied := true, dsp := .mailbox }

/-- Whose turn it is. -/
inductive Turn where
  | call (c : GppCall)
  | gpp
  | dsp
  deriving DecidableEq, Repr

def fastcallNext (s : System σ) : Turn → Option (System σ)
  | .call c => gppCall s c
  | .gpp => some (gppStep C s)
  | .dsp => some (dspStep C s)

/-- One client and the DSP, taking turns in any order. -/
def fastcallMachine (start : σ) : Machine (System σ) Turn :=
  Machine.ofNext (System.initial start) (fastcallNext C)

end

end C64Tools.Fastcall
