import C64Tools.Core.Types

/-!
# The registers between the two processors

The words at the start of the L1D memory of the DSP through which the driver and
the program of the DSP talk to each other.  Return values take the place of the
arguments of a message, and the boot mode has the word of the component and
command id.
-/

namespace C64Tools

/-- `DSP_BOOTFLAG_REBOOT`. -/
def dspBootflagReboot : ℕ := 0

/-- `DSP_BOOTFLAG_RESUME`. -/
def dspBootflagResume : ℕ := 0xFFFFFFFF

/-- `DSP_BOOTFLAG_RUNNING`. -/
def dspBootflagRunning : ℕ := 0x44894489

theorem dspBootflagResume_ne_running :
    dspBootflagResume ≠ dspBootflagRunning := by
  decide

/-- The words at `DSP_IPC_MSG_SERIAL_OFF`, `DSP_IPC_MSG_COMP_OFF`,
`DSP_IPC_MSG_ARG1_OFF`, `DSP_IPC_MSG_ARG2_OFF` and `DSP_IPC_ERRNO_OFF`. -/
structure IpcRegs where
  msgSerial : ℕ
  comp : ℕ
  arg1 : ℕ
  arg2 : ℕ
  errno : ℕ
  deriving DecidableEq, Repr

namespace IpcRegs

/-- Nothing has been written yet. -/
def zero : IpcRegs := ⟨0, 0, 0, 0, 0⟩

/-- The word at `DSP_IPC_BOOTMODE_OFF`. -/
def bootmode (r : IpcRegs) : ℕ := r.comp

/-- The word at `DSP_IPC_MSG_RET1_OFF`. -/
def ret1 (r : IpcRegs) : ℕ := r.arg1

/-- The word at `DSP_IPC_MSG_RET2_OFF`. -/
def ret2 (r : IpcRegs) : ℕ := r.arg2

def setBootmode (r : IpcRegs) (mode : ℕ) : IpcRegs := { r with comp := mode }

def setRet1 (r : IpcRegs) (val : ℕ) : IpcRegs := { r with arg1 := val }

def setRet2 (r : IpcRegs) (val : ℕ) : IpcRegs := { r with arg2 := val }

/-- The return values and the error number of a message are written. -/
def setReply (r : IpcRegs) (ret1 ret2 errno : ℕ) : IpcRegs :=
  { (r.setRet1 ret1).setRet2 ret2 with errno }

/-- Both return values. -/
def rets (r : IpcRegs) : ℕ × ℕ := (r.ret1, r.ret2)

@[simp] theorem bootmode_setBootmode (r : IpcRegs) (mode : ℕ) :
    (r.setBootmode mode).bootmode = mode := rfl

@[simp] theorem rets_setBootmode (r : IpcRegs) (mode : ℕ) :
    (r.setBootmode mode).rets = r.rets := rfl

@[simp] theorem ret1_setReply (r : IpcRegs) (ret1 ret2 errno : ℕ) :
    (r.setReply ret1 ret2 errno).ret1 = ret1 := rfl

@[simp] theorem ret2_setReply (r : IpcRegs) (ret1 ret2 errno : ℕ) :
    (r.setReply ret1 ret2 errno).ret2 = ret2 := rfl

@[simp] theorem errno_setReply (r : IpcRegs) (ret1 ret2 errno : ℕ) :
    (r.setReply ret1 ret2 errno).errno = errno := rfl

end IpcRegs

end C64Tools
