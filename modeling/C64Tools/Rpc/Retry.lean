import C64Tools.Library.Retry
import C64Tools.Rpc.Model

/-!
# What the retry loops report

`dsp_rpc_send()` and `dsp_fastcall_rpc_recv()` go by their counters to find out
whether they gave up.  A counter that has reached its limit also counts a last
try which did not fail, so success on the last permitted try is reported as a
time-out.
-/

namespace C64Tools.Rpc

open Retry

/-- What `write()` returns, and `errno` after it. -/
structure WriteOutcome where
  numWritten : ℤ
  errno : ℕ
  deriving DecidableEq, Repr

/-- What `dsp_rpc_send()` meets with, each time it tries: the control register
of the DSP, and the outcome of `write()`. -/
structure SendOutcomes where
  togppCtl : ℕ → ℕ
  write : ℕ → WriteOutcome

/-- `EAGAIN`. -/
def eagain : ℕ := 11

/-- `sizeof(dsp_msg_t)`. -/
def sizeofDspMsg : ℤ := 12

/-- `DSP_FSHM_FASTCALL_CTL_DONE`. -/
def dspFshmFastcallCtlDone : ℕ := 0

/-- `DSP_FSHM_FASTCALL_CTL_ACK`. -/
def dspFshmFastcallCtlAck : ℕ := 3

/-- `DSP_FASTCALL_TIMEOUT`. -/
def dspFastcallTimeout : ℕ := 0x02000000

/-- The driver has taken the message. -/
def WriteOutcome.Accepted (w : WriteOutcome) : Prop :=
  w.numWritten = sizeofDspMsg

/-- The library tries to write once more. -/
def WriteOutcome.Again (w : WriteOutcome) : Prop :=
  w.numWritten ≠ sizeofDspMsg ∧ w.errno = eagain

instance : DecidablePred WriteOutcome.Accepted :=
  fun _ => inferInstanceAs (Decidable (_ = _))

instance : DecidablePred WriteOutcome.Again :=
  fun _ => inferInstanceAs (Decidable (_ ∧ _))

/-- Tries to find no fastcall sequence in progress. -/
def fcBusyLoop (togppCtl : ℕ → ℕ) : ℕ × ℕ :=
  doWhile (· ≠ dspFshmFastcallCtlDone) maxRpcFcbusyRetries togppCtl 0

/-- Tries to write the message. -/
def writeLoop (write : ℕ → WriteOutcome) : WriteOutcome × ℕ :=
  doWhile WriteOutcome.Again maxRpcWriteRetries write 0

/-- Tries to see the acknowledgement. -/
def ackLoop (togppCtl : ℕ → ℕ) : ℕ × ℕ :=
  doWhile (· ≠ dspFshmFastcallCtlAck) dspFastcallTimeout togppCtl 0

/-- `dsp_rpc_send()`, with how often it has called `write()`. -/
def dspRpcSendCalls (o : SendOutcomes) : ℕ × ℕ :=
  if (fcBusyLoop o.togppCtl).1 = dspFshmFastcallCtlDone then
    let (w, retryCount) := writeLoop o.write
    if maxRpcWriteRetries ≠ retryCount then
      if sizeofDspMsg = w.numWritten then (0, retryCount)
      else (10, retryCount)
    else (10, retryCount)
  else (10, 0)

/-- `dsp_fastcall_rpc_recv()`, with how often it has read the register. -/
def dspFastcallRpcRecv (togppCtl : ℕ → ℕ) : ℕ × ℕ :=
  let (_, timeout) := ackLoop togppCtl
  if timeout < dspFastcallTimeout then (0, timeout) else (10, timeout)

/-- Success is reported if and only if a call of `write()` was accepted. -/
def SendReports (o : SendOutcomes) : Prop :=
  (dspRpcSendCalls o).1 = 0 ↔
    ∃ i < (dspRpcSendCalls o).2, (o.write i).Accepted

/-- Success is reported if and only if the acknowledgement was seen. -/
def RecvReports (togppCtl : ℕ → ℕ) : Prop :=
  (dspFastcallRpcRecv togppCtl).1 = 0 ↔
    ∃ i < (dspFastcallRpcRecv togppCtl).2,
      togppCtl i = dspFshmFastcallCtlAck

/-- The driver takes the message at the last permitted try. -/
def AcceptedLast (o : SendOutcomes) : Prop :=
  (∃ n < maxRpcFcbusyRetries, o.togppCtl n = dspFshmFastcallCtlDone) ∧
    (∀ i < maxRpcWriteRetries - 1, (o.write i).Again) ∧
    (o.write (maxRpcWriteRetries - 1)).Accepted

/-- The DSP acknowledges at the last permitted try. -/
def AckedLast (togppCtl : ℕ → ℕ) : Prop :=
  (∀ i < dspFastcallTimeout - 1, togppCtl i ≠ dspFshmFastcallCtlAck) ∧
    togppCtl (dspFastcallTimeout - 1) = dspFshmFastcallCtlAck

variable {o : SendOutcomes} {togppCtl : ℕ → ℕ}

theorem WriteOutcome.Accepted.not_again {w : WriteOutcome}
    (h : w.Accepted) : ¬ w.Again :=
  fun hagain => hagain.1 h

theorem fcBusyLoop_done_iff :
    (fcBusyLoop togppCtl).1 = dspFshmFastcallCtlDone ↔
      ∃ n < maxRpcFcbusyRetries, togppCtl n = dspFshmFastcallCtlDone := by
  have h := @not_again_doWhile_iff ℕ (· ≠ dspFshmFastcallCtlDone) _
    maxRpcFcbusyRetries togppCtl (by decide)
  simp only [not_not] at h
  exact h

/-- A call of `write()` was accepted if and only if the last one was. -/
theorem exists_accepted_iff (write : ℕ → WriteOutcome) :
    (∃ i < (writeLoop write).2, (write i).Accepted) ↔
      (writeLoop write).1.Accepted :=
  exists_doWhile_iff WriteOutcome.Accepted fun _ h => h.not_again

theorem sendReports_iff : SendReports o ↔ ¬ AcceptedLast o := by
  have hlast : (writeLoop o.write).2 = maxRpcWriteRetries ∧
      (writeLoop o.write).1.Accepted ↔
        (∀ i < maxRpcWriteRetries - 1, (o.write i).Again) ∧
          (o.write (maxRpcWriteRetries - 1)).Accepted :=
    doWhile_eq_limit_iff WriteOutcome.Accepted (by decide)
  have hexists := exists_accepted_iff o.write
  unfold SendReports AcceptedLast dspRpcSendCalls
  rw [← fcBusyLoop_done_iff, ← hlast]
  by_cases hdone : (fcBusyLoop o.togppCtl).1 = dspFshmFastcallCtlDone
  · rw [if_pos hdone, and_iff_right hdone]
    dsimp only
    by_cases hcount : maxRpcWriteRetries = (writeLoop o.write).2
    · rw [if_neg (not_not.mpr hcount), hexists, and_iff_right hcount.symm]
      simp
    · rw [if_pos hcount]
      by_cases hacc : (writeLoop o.write).1.Accepted
      · rw [if_pos hacc.symm, hexists]
        simp [hacc, Ne.symm hcount]
      · rw [if_neg fun h => hacc h.symm, hexists]
        simp [hacc]
  · simp [hdone]

theorem recvReports_iff : RecvReports togppCtl ↔ ¬ AckedLast togppCtl := by
  have hlast : (ackLoop togppCtl).2 = dspFastcallTimeout ∧
      (ackLoop togppCtl).1 = dspFshmFastcallCtlAck ↔ AckedLast togppCtl :=
    doWhile_eq_limit_iff (· = dspFshmFastcallCtlAck) (by decide)
  have hexists : (∃ i < (ackLoop togppCtl).2,
      togppCtl i = dspFshmFastcallCtlAck) ↔
        (ackLoop togppCtl).1 = dspFshmFastcallCtlAck :=
    exists_doWhile_iff (· = dspFshmFastcallCtlAck) fun _ h => not_not.mpr h
  obtain ⟨-, -, -, hfinal⟩ := doWhile_spec (· ≠ dspFshmFastcallCtlAck)
    dspFastcallTimeout togppCtl 0
  have hle : (ackLoop togppCtl).2 ≤ dspFastcallTimeout :=
    doWhile_le (by decide)
  unfold RecvReports dspFastcallRpcRecv
  rw [← hlast]
  dsimp only
  obtain hlt | hcount := Nat.lt_or_eq_of_le hle
  · -- the loop was left with the acknowledgement
    have hack : (ackLoop togppCtl).1 = dspFshmFastcallCtlAck :=
      not_not.mp (hfinal hlt)
    rw [if_pos hlt, hexists]
    simp [hack, Nat.ne_of_lt hlt]
  · rw [if_neg (by omega), hexists]
    simp [hcount]

theorem exists_accepted_of_eq_zero (h : (dspRpcSendCalls o).1 = 0) :
    ∃ i < (dspRpcSendCalls o).2, (o.write i).Accepted := by
  unfold dspRpcSendCalls at h ⊢
  dsimp only at h ⊢
  split_ifs at h ⊢ with hdone hcount hacc
  exact (exists_accepted_iff o.write).mpr hacc.symm

/-- The message is taken at the last permitted try exactly if a failure is reported
although the driver has taken it. -/
theorem acceptedLast_iff :
    AcceptedLast o ↔ (dspRpcSendCalls o).1 ≠ 0 ∧
      ∃ i < (dspRpcSendCalls o).2, (o.write i).Accepted := by
  rw [← not_iff_not, ← sendReports_iff, SendReports, not_and']
  constructor
  · intro h hacc
    exact not_not.mpr (h.mpr hacc)
  · intro h
    exact ⟨exists_accepted_of_eq_zero, fun hacc => not_not.mp (h hacc)⟩

/-! ## The two loops -/

theorem retryLoops_report_iff (o : SendOutcomes) (togppCtl : ℕ → ℕ) :
    (SendReports o ↔ ¬ AcceptedLast o) ∧
      (RecvReports togppCtl ↔ ¬ AckedLast togppCtl) :=
  ⟨sendReports_iff, recvReports_iff⟩

/-- The message is taken, and the call acknowledged, at the last try. -/
theorem not_retryLoops_report :
    ¬ ∀ (o : SendOutcomes) (togppCtl : ℕ → ℕ),
      SendReports o ∧ RecvReports togppCtl := by
  intro h
  obtain ⟨hsend, hrecv⟩ := h
    { togppCtl := fun _ => 0
      write := fun n => if n < 99999 then ⟨-1, 11⟩ else ⟨12, 11⟩ }
    fun n => if n < 0x01FFFFFF then 2 else 3
  refine sendReports_iff.mp hsend ⟨⟨0, by decide, rfl⟩, ?_, ?_⟩
  · intro i hi
    have hlt : i < 99999 := hi
    simp only [if_pos hlt]
    exact ⟨by decide, rfl⟩
  · exact rfl

/-! ## The abstract loops -/

/-- How the abstract loop sees an outcome. -/
def WriteOutcome.result (w : WriteOutcome) : IoResult :=
  if w.Accepted then .whole else if w.errno = eagain then .again else .failed

/-- What the library meets with, as the abstract loop sees it. -/
def SendOutcomes.link (o : SendOutcomes) (bPoll : Bool) (select : ℤ)
    (read : ℕ → IoResult) : Link where
  fcBusy n := o.togppCtl n ≠ dspFshmFastcallCtlDone
  write n := (o.write n).result
  bPoll := bPoll
  select := select
  read := read

theorem WriteOutcome.result_eq_whole_iff {w : WriteOutcome} :
    w.result = .whole ↔ w.Accepted := by
  unfold result
  split_ifs <;> simp_all

theorem WriteOutcome.result_eq_again_iff {w : WriteOutcome} :
    w.result = .again ↔ w.Again := by
  unfold result Again Accepted
  split_ifs <;> simp_all

/-- `retry` is the loop, for what it makes of the outcomes. -/
theorem dspRpcSendCalls_eq_zero_iff (bPoll : Bool) (select : ℤ)
    (read : ℕ → IoResult) :
    (dspRpcSendCalls o).1 = 0 ↔ dspRpcSend (o.link bPoll select read) = 0 := by
  have hmoves : maxRpcWriteRetries ≠ (writeLoop o.write).2 ∧
      sizeofDspMsg = (writeLoop o.write).1.numWritten ↔
        Moves (o.link bPoll select read).write (maxRpcWriteRetries - 1) := by
    obtain ⟨hpos, hlast, hbefore, -⟩ := doWhile_spec WriteOutcome.Again
      maxRpcWriteRetries o.write 0
    constructor
    · rintro ⟨hne, hacc⟩
      have hle : (writeLoop o.write).2 ≤ maxRpcWriteRetries :=
        doWhile_le (by decide)
      have hlt := Nat.lt_of_le_of_ne hle (Ne.symm hne)
      refine ⟨(writeLoop o.write).2 - 1, ?_,
        WriteOutcome.result_eq_whole_iff.mpr (hlast ▸ hacc.symm),
        fun j hj => WriteOutcome.result_eq_again_iff.mpr
          (hbefore j (Nat.zero_le j) ?_).1⟩
      · have hpos : 0 < (writeLoop o.write).2 := hpos
        omega
      · exact Nat.add_lt_of_lt_sub hj
    · rintro ⟨n, hn, hwhole, hagain⟩
      have hacc := WriteOutcome.result_eq_whole_iff.mp hwhole
      have hloop : writeLoop o.write = (o.write n, n + 1) :=
        doWhile_of_first (by omega)
          (fun i hi => WriteOutcome.result_eq_again_iff.mp (hagain i hi))
          hacc.not_again
      rw [hloop]
      exact ⟨by show maxRpcWriteRetries ≠ n + 1; omega, hacc.symm⟩
  have hready : (∃ n < maxRpcFcbusyRetries,
      (o.link bPoll select read).fcBusy n = false) ↔
        ∃ n < maxRpcFcbusyRetries, o.togppCtl n = dspFshmFastcallCtlDone := by
    simp [SendOutcomes.link]
  rw [dspRpcSend_eq_zero_iff, Link.Sends, hready, ← fcBusyLoop_done_iff,
    ← hmoves]
  unfold dspRpcSendCalls
  dsimp only
  split_ifs with hdone hcount hacc
  · exact iff_of_true rfl ⟨hdone, hcount, hacc⟩
  · exact iff_of_false (by decide) fun h => hacc h.2.2
  · exact iff_of_false (by decide) fun h => hcount h.2.1
  · exact iff_of_false (by decide) fun h => hdone h.1

end C64Tools.Rpc
