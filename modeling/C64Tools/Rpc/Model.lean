import C64Tools.Kmod.Dev.Model
import C64Tools.Overlay.Components

/-!
# Remote procedure calls

The two ends of a remote procedure call: what the dispatcher of the DSP makes of
the message in the registers, and how `dsp_rpc` sends a message and receives the
reply.

How often the library has to try until the driver takes a message, or has a
reply, is left open, and so is what the `exec` functions do.
-/

namespace C64Tools.Rpc

open Kmod (DspMsg)
open Overlay (mlbMaxCoreComponents mlbMaxOverlayComponents)

/-! ## The DSP -/

/-- What an `exec` function returns, the values of `r1` and `r2` after it, and
what the fastcalls return if it has initiated a fastcall sequence. -/
structure ExecResult where
  err : ℕ
  ret1 : ℕ
  ret2 : ℕ
  fastcalls : List ℕ
  deriving DecidableEq, Repr

/-- `dsp_component_exec_fxn`: a function of the command, its two arguments, and
the values of `r1` and `r2` before it. -/
abbrev ExecFxn := ℕ → ℕ → ℕ → ℕ → ℕ → ExecResult

/-- An entry of the `components` array, as far as it matters to a call. -/
structure Component where
  componentId : ℕ
  exec : Option ExecFxn

/-- `MLB_MAX_COMPONENTS`. -/
abbrev mlbMaxComponents : ℕ := mlbMaxCoreComponents + mlbMaxOverlayComponents

/-- The `components` array. -/
abbrev Components := Fin mlbMaxComponents → Component

/-- `loc_component_find_by_id`.  Of the component that is found only `exec`
matters. -/
def locComponentFindById (components : Components) (id : ℕ) :
    Option ExecFxn :=
  if h : id < mlbMaxComponents then (components ⟨id, h⟩).exec else none

/-- The component is registered.  The components of the core image are
registered once and for all. -/
def Registered (components : Components) (id : ℕ) : Prop :=
  ∃ h : id < mlbMaxComponents, (components ⟨id, h⟩).exec ≠ none ∧
    (id < mlbMaxCoreComponents ∨ (components ⟨id, h⟩).componentId ≠ 0)

/-- `req.fields.dsp_component_id`. -/
def compId (m : DspMsg) : ℕ := m.comp % 2 ^ 16

/-- `req.fields.dsp_cmd_id`. -/
def cmdId (m : DspMsg) : ℕ := m.comp / 2 ^ 16 % 2 ^ 16

/-- The call of `exec` for a message; `r1` and `r2` are not initialised. -/
def execute (components : Components) (r1 r2 : ℕ) (m : DspMsg) :
    Option ExecResult :=
  (locComponentFindById components (compId m)).map fun exec =>
    exec (cmdId m) m.data0 m.data1 r1 r2

/-- The error number after the call, and after the fastcall sequence that it
may have initiated. -/
def ExecResult.errno (result : ExecResult) : ℕ :=
  if result.err = 0 then result.fastcalls.getLast?.getD result.err
  else result.err

/-- What `mlb_task__entry` leaves in the registers for the message in them,
before it replies. -/
def mlbTaskEntry (components : Components) (r1 r2 : ℕ) (regs : IpcRegs) :
    IpcRegs :=
  match execute components r1 r2 (DspMsg.ofRegs regs) with
  | some result => regs.setReply result.ret1 result.ret2 result.errno
  -- component not found
  | none => regs

/-! ## The library -/

/-- `MAX_RPC_READ_RETRIES`. -/
def maxRpcReadRetries : ℕ := 100000

/-- `MAX_RPC_WRITE_RETRIES`. -/
def maxRpcWriteRetries : ℕ := 100000

/-- `MAX_RPC_FCBUSY_RETRIES`. -/
def maxRpcFcbusyRetries : ℕ := 1000

/-- A `read` or a `write` has moved a whole `dsp_msg_t`, or fails with
`EAGAIN`, or in another way. -/
inductive IoResult where
  | whole
  | again
  | failed
  deriving DecidableEq, Repr

/-- What the library meets with: whether a fastcall sequence is in progress and
what `write`, `select` and `read` return, each time they are tried, and the
polling mode. -/
structure Link where
  fcBusy : ℕ → Bool
  write : ℕ → IoResult
  bPoll : Bool
  select : ℤ
  read : ℕ → IoResult

/-- Try `k` more times, from try number `n` on: the last result, and the number
of tries. -/
def retry (io : ℕ → IoResult) (n : ℕ) : ℕ → IoResult × ℕ
  | 0 => (.again, n)
  | k + 1 =>
      match io n with
      | .again => retry io (n + 1) k
      | r => (r, n + 1)

/-- `dsp_rpc_send`. -/
def dspRpcSend (l : Link) : ℕ :=
  if (List.range maxRpcFcbusyRetries).any fun n => !l.fcBusy n then
    let (numWritten, retryCount) := retry l.write 0 maxRpcWriteRetries
    if retryCount ≠ maxRpcWriteRetries then
      if numWritten = .whole then 0 else 10
    else 10
  else 10

/-- The last result of `read` in `dsp_rpc_recv`. -/
def Link.numRead (l : Link) : IoResult :=
  if l.bPoll then (retry l.read 0 maxRpcReadRetries).1
  else if 0 < l.select then l.read 0
  else .failed

/-- `dsp_rpc_recv`, when the given message is what there is to read: the
result, and the message that the caller is given. -/
def dspRpcRecv (l : Link) (reply : DspMsg) : ℕ × Option DspMsg :=
  if l.numRead = .whole then (0, some reply) else (10, none)

/-- `dsp_rpc`, when the given message is what there is to read after its
request was sent. -/
def dspRpc (l : Link) (reply : DspMsg) : ℕ × Option DspMsg :=
  let ret := dspRpcSend l
  if ret = 0 then dspRpcRecv l reply else (ret, none)

/-- A message from its fields. -/
def request (comp cmd : UInt16) (arg1 arg2 : ℕ) : DspMsg where
  comp := comp.toNat + cmd.toNat * 2 ^ 16
  data0 := arg1
  data1 := arg2

/-- `dsp_rpc_2a_2r`, after its request was sent: the result, and the values
stored for the caller. -/
def dspRpc2a2r (l : Link) (reply : DspMsg) : ℕ × Option (ℕ × ℕ) :=
  let (ret, reply) := dspRpc l reply
  if ret = 0 then (ret, reply.map fun m => (m.data0, m.data1))
  else (ret, none)

/-! ## Sending and receiving -/

/-- A message is moved at one of the first `k` tries. -/
def Moves (io : ℕ → IoResult) (k : ℕ) : Prop :=
  ∃ n < k, io n = .whole ∧ ∀ j < n, io j = .again

/-- The driver takes the message while no fastcall sequence is in progress.
The last try comes too late. -/
def Link.Sends (l : Link) : Prop :=
  (∃ n < maxRpcFcbusyRetries, l.fcBusy n = false) ∧
    Moves l.write (maxRpcWriteRetries - 1)

theorem retry_eq_whole_iff {io : ℕ → IoResult} {n k c : ℕ} :
    retry io n k = (.whole, c) ↔
      ∃ j < k, c = n + j + 1 ∧ io (n + j) = .whole ∧
        ∀ i < j, io (n + i) = .again := by
  induction k generalizing n with
  | zero => simp [retry]
  | succ k ih =>
      cases hio : io n with
      | whole =>
          simp only [retry, hio, Prod.mk.injEq, true_and]
          constructor
          · rintro rfl
            exact ⟨0, by omega, rfl, hio, fun i hi => absurd hi (by omega)⟩
          · rintro ⟨j, -, rfl, -, hbefore⟩
            cases j with
            | zero => rfl
            | succ j =>
                have h0 := hbefore 0 (by omega)
                rw [Nat.add_zero, hio] at h0
                cases h0
      | again =>
          simp only [retry, hio]
          rw [ih]
          constructor
          · rintro ⟨j, hj, rfl, hwhole, hbefore⟩
            refine ⟨j + 1, by omega, by omega, ?_, ?_⟩
            · rwa [show n + (j + 1) = n + 1 + j by omega]
            · intro i hi
              cases i with
              | zero => exact hio
              | succ i =>
                  rw [show n + (i + 1) = n + 1 + i by omega]
                  exact hbefore i (by omega)
          · rintro ⟨j, hj, rfl, hwhole, hbefore⟩
            cases j with
            | zero =>
                rw [Nat.add_zero, hio] at hwhole
                cases hwhole
            | succ j =>
                refine ⟨j, by omega, by omega, ?_, fun i hi => ?_⟩
                · rwa [show n + 1 + j = n + (j + 1) by omega]
                · rw [show n + 1 + i = n + (i + 1) by omega]
                  exact hbefore (i + 1) (by omega)
      | failed =>
          simp only [retry, hio, Prod.mk.injEq, reduceCtorEq, false_and,
            false_iff]
          rintro ⟨j, -, -, hwhole, hbefore⟩
          cases j with
          | zero =>
              rw [Nat.add_zero, hio] at hwhole
              cases hwhole
          | succ j =>
              have h0 := hbefore 0 (by omega)
              rw [Nat.add_zero, hio] at h0
              cases h0

theorem Moves.mono {io : ℕ → IoResult} {k k' : ℕ} (h : Moves io k)
    (hle : k ≤ k') : Moves io k' := by
  obtain ⟨n, hn, hmoves⟩ := h
  exact ⟨n, Nat.lt_of_lt_of_le hn hle, hmoves⟩

theorem moves_of_retry {io : ℕ → IoResult} {k : ℕ}
    (h : (retry io 0 k).1 = .whole) :
    Moves io (retry io 0 k).2 ∧ (retry io 0 k).2 ≤ k := by
  have hretry : retry io 0 k = (.whole, (retry io 0 k).2) := Prod.ext h rfl
  obtain ⟨j, hj, hcount, hio, hbefore⟩ := retry_eq_whole_iff.mp hretry
  rw [hcount]
  simp only [Nat.zero_add] at hio hbefore ⊢
  exact ⟨⟨j, by omega, hio, hbefore⟩, by omega⟩

theorem retry_of_moves {io : ℕ → IoResult} {k : ℕ} (h : Moves io k) :
    ∃ c ≤ k, ∀ k' ≥ k, retry io 0 k' = (.whole, c) := by
  obtain ⟨n, hn, hio, hbefore⟩ := h
  refine ⟨n + 1, hn, fun k' hk => retry_eq_whole_iff.mpr ?_⟩
  simp only [Nat.zero_add]
  exact ⟨n, by omega, rfl, hio, hbefore⟩

/-- What was moved by an earlier try than the last of `k` was moved. -/
theorem retry_before_last_iff {io : ℕ → IoResult} {k : ℕ} :
    (retry io 0 k).2 ≠ k ∧ (retry io 0 k).1 = .whole ↔ Moves io (k - 1) := by
  constructor
  · rintro ⟨hcount, hwhole⟩
    obtain ⟨hmoves, hle⟩ := moves_of_retry hwhole
    exact hmoves.mono (by omega)
  · intro h
    have hk : 0 < k := by
      obtain ⟨n, hn, -⟩ := h
      omega
    obtain ⟨c, hc, hretry⟩ := retry_of_moves h
    rw [hretry k (by omega)]
    exact ⟨by show c ≠ k; omega, rfl⟩

theorem dspRpcSend_eq_zero_iff {l : Link} : dspRpcSend l = 0 ↔ l.Sends := by
  have hready : ((List.range maxRpcFcbusyRetries).any fun n => !l.fcBusy n) =
      true ↔ ∃ n < maxRpcFcbusyRetries, l.fcBusy n = false := by
    simp
  unfold dspRpcSend Link.Sends
  rw [← hready, ← retry_before_last_iff]
  dsimp only
  split_ifs with h1 h2 h3
  · exact iff_of_true rfl ⟨h1, h2, h3⟩
  · exact iff_of_false (by decide) fun h => h3 h.2.2
  · exact iff_of_false (by decide) fun h => h2 h.2.1
  · exact iff_of_false (by decide) fun h => h1 h.1

end C64Tools.Rpc
