import C64Tools.Rpc.Serving

/-!
# Errors of remote procedure calls

The result of `dsp_rpc` tells whether a reply was received.  In an orderly run
the reply holds what `exec` has stored for the caller's own message, or that
message again when there is no such component; what `exec` returns does not
reach the caller.
-/

namespace C64Tools.Rpc

open Transition Kmod

variable {l : Link} {components : Components} {r1 r2 : ℕ}
  {m req : DspMsg} {result : ExecResult}

/-! ## The result of a call -/

/-- After a failure the caller is not given a reply. -/
theorem dspRpc_of_ne_zero (h : (dspRpc l m).1 ≠ 0) : (dspRpc l m).2 = none := by
  revert h
  unfold dspRpc dspRpcRecv
  dsimp only
  split_ifs with hsend hread
  · exact fun h => absurd rfl h
  · exact fun _ => rfl
  · exact fun _ => rfl

/-- `dsp_rpc_2a_2r` passes the result on, with the two words of the reply. -/
theorem dspRpc2a2r_eq :
    dspRpc2a2r l m =
      ((dspRpc l m).1, (dspRpc l m).2.map fun m => (m.data0, m.data1)) := by
  unfold dspRpc2a2r
  dsimp only
  split_ifs with h
  · rfl
  · rw [dspRpc_of_ne_zero h]
    rfl

/-- The fields of a message are those it was made of. -/
theorem fields_request (comp cmd : UInt16) (arg1 arg2 : ℕ) :
    compId (request comp cmd arg1 arg2) = comp.toNat ∧
      cmdId (request comp cmd arg1 arg2) = cmd.toNat := by
  have hcomp := comp.toNat_lt
  have hcmd := cmd.toNat_lt
  unfold compId cmdId request
  dsimp only
  omega

/-! ## Errors -/

end C64Tools.Rpc
