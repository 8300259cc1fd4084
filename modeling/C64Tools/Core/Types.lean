import Mathlib.Algebra.Group.Nat.Defs
import Mathlib.Tactic.Common

/-!
# Common types

Unsigned 32-bit arithmetic as it is used on addresses and byte counts, the
memory region record shared by the kernel module, the library and the DSP, and
the error numbers returned by the driver.
-/

namespace C64Tools

/-- The value of a 32-bit unsigned expression (`sU32`, `sUI`). -/
def u32 (n : ℕ) : ℕ := n % 2 ^ 32

/-- 32-bit unsigned subtraction. -/
def u32Sub (a b : ℕ) : ℕ := u32 (a + (2 ^ 32 - u32 b))

theorem u32_of_lt {n : ℕ} (h : n < 2 ^ 32) : u32 n = n :=
  Nat.mod_eq_of_lt h

/-- `dsp_mem_region_t`. -/
structure DspMemRegion where
  physAddr : ℕ
  virtAddr : ℕ
  size : ℕ
  deriving DecidableEq, Repr

namespace DspMemRegion

/-- The all-zero region. -/
def zero : DspMemRegion := ⟨0, 0, 0⟩

end DspMemRegion

/-- `DSP_LOGBUF_BASE_GPP`. -/
def dspLogbufBaseGpp : ℕ := 0x86002000

/-- `DSP_LOGBUF_SIZE`. -/
def dspLogbufSize : ℕ := 16 * 1024

/-- Error numbers; the driver returns them negated. -/
inductive Errno where
  | EACCES
  | EAGAIN
  | EBADF
  | EBUSY
  | EFAULT
  | EINVAL
  | EIO
  | EMFILE
  | ENODEV
  | ENOMEM
  | EPERM
  deriving DecidableEq, Repr

/-- The result of a driver call: `0` or a negated error number. -/
abbrev Ret := Except Errno Unit

end C64Tools
