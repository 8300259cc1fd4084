import C64Tools.Kmod.Dev.Model
import C64Tools.Library.Transition

/-!
# Runs of the driver

The driver takes a step when a process calls a file operation, when the
process that holds the mutex goes on, when the DSP answers a request, and when
the mailbox interrupt is handled.
-/

namespace C64Tools.Kmod

open Transition

/-- Outcomes that a step of the process holding the mutex may depend on. -/
structure ProcOutcome where
  power : PowerOutcome
  fifoFull : Bool
  timedOut : Bool
  pwroff : Bool

/-- Outcome of a step in which nothing times out. -/
def ProcOutcome.smooth : ProcOutcome where
  power := ⟨fun _ => true, true⟩
  fifoFull := false
  timedOut := false
  pwroff := true

/-- What can happen next. -/
inductive Event where
  | openFile (minor filep : ℕ)
  | releaseFile (filep : ℕ)
  | readFile (filep count : ℕ)
  | readCopy (i : Slot) (copied : Bool)
  | writeFile (filep : ℕ) (arg : WriteArg)
  | ioctl (filep : ℕ) (cmd : IoctlCmd)
  | proc (o : ProcOutcome)
  | answer (id ret0 ret1 errno : ℕ)
  | irq

/-- The process that holds the mutex takes its next step.  A loop that polls
the ready flag ends when the flag is set or when it times out. -/
def procStep (o : ProcOutcome) (d : Driver) : Option Driver :=
  match d.crit with
  | .idle => none
  | .writeCopied i =>
      some { d with currentClient := some i, crit := .writeCurrent i }
  | .writeCurrent i =>
      some { d.setState i .replyPending with
        crit := .sending (.client i) .check }
  | .sending who next => some (mlbSendToDsp who next o.fifoFull d)
  | .writeRefused i =>
      some { d with currentClient := none, crit := .writeReset i }
  | .writeReset i =>
      some ((d.setState i .idle).wrote (d.clients i).filep (.error .EAGAIN))
  | .testCopied filep val =>
      some { d with
        currentClient := none
        crit := .sending (.test filep val) .check }
  | .relCurrent i =>
      if d.currentClient = some i then some { d with crit := .relFastcall i }
      else some { d with crit := .relFree i }
  | .relFastcall i =>
      some { d with currentClient := none, crit := .relFree i }
  | .relFree i =>
      some { d.setClient i fun c => { c with filep := none } with
        crit := .relSection i 0 }
  | .relSection i k =>
      if h : k < mlbComNumSectionIndices then
        if (d.clients i).sectionFlags ⟨k, h⟩ then
          some { d.setDsp (dspResume o.power d.dsp).2 with
            crit := .relWait i ⟨k, h⟩ }
        else some { d with crit := .relSection i (k + 1) }
      else some { d with crit := .relReset i }
  | .relWait i s =>
      if d.ready then some { d with crit := .sending (.emergency i s) .check }
      else if o.timedOut then some { d with crit := .relSection i (s + 1) }
      else none
  | .relMark i s =>
      some { d with
        sectionFlags := Function.update d.sectionFlags s false
        crit := .relSection i (s + 1) }
  | .relReset i =>
      some { d.setClient i fun c => { c with
          sectionFlags := fun _ => false
          sectionMem := fun _ => DspMemRegion.zero } with
        crit := if d.powerMask = ∅ then .relSync else .idle }
  | .relSync =>
      if d.ready then
        some { d.setDsp (if o.pwroff then (dspPoweroff o.power d.dsp).2
            else d.dsp) with
          crit := .idle }
      else if o.timedOut then some { d with crit := .idle }
      else none

/-- The DSP answers a request that it received since its last reset. -/
def dspAnswer (id ret0 ret1 errno : ℕ) (d : Driver) : Option Driver :=
  match d.unanswered.find? fun r => r.id = id with
  | some r =>
      if d.power.executing ∧ r.boot = d.power.resets then
        some { d with
          regs := d.regs.setReply ret0 ret1 errno
          inbox := d.inbox ++ [r]
          unanswered := d.unanswered.filter fun r => r.id ≠ id
          log := .answered id ret0 ret1 :: d.log }
      else none
  | none => none

/-- The next state, unless the step has to wait.  Only an open file is
released, and only when no call on it is under way. -/
def driverNext (d : Driver) (e : Event) : Option Driver :=
  match e with
  | .openFile minor filep =>
      if d.crit = .idle then some (fopsOpen minor filep d).2 else none
  | .releaseFile filep =>
      if d.crit = .idle ∧ d.findClientByFilep filep ≠ none ∧
          ∀ i, (d.clients i).filep = some filep → d.reading i = 0 then
        some (fopsRelease filep d)
      else none
  | .readFile filep count => some (fopsRead filep count d)
  | .readCopy i copied =>
      if 0 < d.reading i then some (fopsReadCopy i copied d) else none
  | .writeFile filep arg =>
      if d.crit = .idle then some (fopsWrite filep arg d) else none
  | .ioctl filep cmd =>
      if d.crit = .idle ∨ cmd.locks = false then
        some (fopsUnlockedIoctl filep cmd d).2
      else none
  | .proc o => procStep o d
  | .answer id ret0 ret1 errno => dspAnswer id ret0 ret1 errno d
  | .irq =>
      if d.irqEnable = true ∧ d.inbox ≠ [] then some (irqHandlerMlb d)
      else none

/-- The driver, from the loading of the module on. -/
def driverMachine (ram : DspMemRegion) : Machine Driver Event :=
  Machine.ofNext (Driver.initial ram) driverNext

end C64Tools.Kmod
