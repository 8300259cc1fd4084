import C64Tools.Rpc.Serving

/-!
# The `demo_calc` component

A component that calculates with signed numbers.  Its clients are served through
the driver and the dispatcher, together with all others.
-/

namespace C64Tools.Rpc

open Transition Kmod
open Overlay (mlbMaxCoreComponents)

/-- `DEMO_CALC_CMD_*`. -/
inductive DemoCalcCmd where
  | add
  | sub
  | mul
  | div
  deriving DecidableEq, Repr

/-- The number of a command. -/
def DemoCalcCmd.num : DemoCalcCmd → ℕ
  | .add => 1
  | .sub => 2
  | .mul => 3
  | .div => 4

/-- What a command calculates.  There is no quotient by zero, nor one that is
not a signed number of 32 bits. -/
def DemoCalcCmd.value : DemoCalcCmd → ℤ → ℤ → Option ℤ
  | .add, x, y => some (x + y)
  | .sub, x, y => some (x - y)
  | .mul, x, y => some (x * y)
  | .div, x, y => if y = 0 ∨ x.tdiv y = 2 ^ 31 then none else some (x.tdiv y)

end C64Tools.Rpc
