import C64Tools.Fastcall.Handshake
import Mathlib.Algebra.Group.Nat.Defs

/-!
# Fastcalls are calls

What the handshake means to the client: the component serves its requests in
order and once each, what it receives are the values of the call that it made,
and it never waits for something that the DSP does not do.
-/

namespace C64Tools.Fastcall

open Transition

variable {σ : Type*} {C : Component σ} {start : σ} {s : System σ}

/-! ## Progress -/

/-- The client is not waiting, or finds what it is waiting for. -/
def System.GppGoesOn (s : System σ) : Prop :=
  match s.gpp with
  | .rpcCheck _ => s.togppCtl = .done
  | .sendPoll _ | .endPoll => s.togppCtl = .idle
  | .recvPoll _ => s.togppCtl = .ack
  | .rpcRecv | .endRecv => s.replied = true
  | _ => True

/-- How far the DSP is from where it can be waited for. -/
@[simp]
def DspPc.rank : DspPc → ℕ
  | .mailbox => 17
  | .exec _ => 16
  | .initiate _ => 15
  | .ackPoll => 14
  | .ackIdle => 13
  | .check => 12
  | .poll => 11
  | .test => 10
  | .readCmd => 9
  | .readArg1 _ => 8
  | .readArg2 _ _ => 7
  | .execFc _ => 6
  | .ret1 _ => 5
  | .ret2 _ => 4
  | .ack => 3
  | .done => 2
  | .reply => 1

namespace Handshake

/-- A client that waits while the DSP is in its mailbox loop has sent a
message. -/
theorem message_of_waiting (h : Handshake C start s)
    (hwait : ¬ s.GppGoesOn) (hd : s.dsp = .mailbox) :
    ∃ m, s.message = some m := by
  have hb := h.beside
  have hw := h.togppCtl
  cases hm : s.message with
  | some m => exact ⟨m, rfl⟩
  | none =>
      cases hr : s.replied <;> cases hg : s.gpp <;>
        simp_all [System.GppGoesOn, GppPc.phase]

theorem todspCtl_of_waiting_poll (h : Handshake C start s)
    (hwait : ¬ s.GppGoesOn) (hd : s.dsp = .poll) : s.todspCtl ≠ .idle := by
  have hb := h.beside
  have ht := h.todspCtl
  have hw := h.togppCtl
  cases hg : s.gpp <;> simp_all [System.GppGoesOn, GppPc.phase]

theorem todspCtl_of_waiting_ackPoll (h : Handshake C start s)
    (hwait : ¬ s.GppGoesOn) (hd : s.dsp = .ackPoll) : s.todspCtl = .idle := by
  have hb := h.beside
  have ht := h.todspCtl
  have hw := h.togppCtl
  cases hg : s.gpp <;> simp_all [System.GppGoesOn, GppPc.phase]

/-- While the client waits, every step of the DSP brings it nearer to what the
client waits for. -/
theorem dspStep_rank (h : Handshake C start s) (hwait : ¬ s.GppGoesOn) :
    (Fastcall.dspStep C s).GppGoesOn ∨
      (Fastcall.dspStep C s).dsp.rank < s.dsp.rank := by
  cases hd : s.dsp with
  | mailbox =>
      obtain ⟨m, hm⟩ := h.message_of_waiting hwait hd
      right
      simp [Fastcall.dspStep, hd, hm]
  | poll =>
      have hctl := h.todspCtl_of_waiting_poll hwait hd
      right
      simp [Fastcall.dspStep, hd, hctl]
  | ackPoll =>
      have hctl := h.todspCtl_of_waiting_ackPoll hwait hd
      right
      simp [Fastcall.dspStep, hd, hctl]
  | ack | reply =>
      -- the rank goes up again, but this is what the client waits for
      have hb := h.beside
      left
      cases hg : s.gpp <;>
        simp_all [System.GppGoesOn, Fastcall.dspStep, GppPc.phase]
  | exec m | initiate err | check | test =>
      right
      simp only [Fastcall.dspStep, hd]
      split_ifs <;> simp
  | _ =>
      right
      simp [Fastcall.dspStep, hd]

theorem exists_dspStep_goesOn (h : Handshake C start s) :
    ∃ n, ((Fastcall.dspStep C)^[n] s).GppGoesOn :=
  Machine.exists_iterate_of_rank (P := Handshake C start)
    (Q := System.GppGoesOn) (fun s => s.dsp.rank)
    (fun _ h _ => h.dspStep) (fun _ h hwait => h.dspStep_rank hwait) h

end Handshake

/-! ## The calls of the client -/

/-- What the client relies on in the course of its fastcalls. -/
structure Served (C : Component σ) (start : σ) (s : System σ) : Prop where
  /-- The component has executed the requests in order, all but at most the
  last. -/
  inOrder : ∃ owed, owed.length ≤ 1 ∧
    s.requested.map Request.dispatch = s.executed ++ owed
  /-- Each call received so far returned the values of its own request. -/
  received : ∃ read unread, unread.length ≤ 1 ∧
    C.returns start s.executed = read ++ unread ∧
    List.Forall₂ Received.Reports s.received read
  /-- An `ACK` is accepted when the request has been executed, and the registers
  hold its values until they have been read. -/
  accepted : s.gpp.phase = .acked ∨ s.gpp.phase = .reading →
    s.executed = s.requested.map Request.dispatch ∧
    ∃ read, C.returns start s.executed = read ++ [s.togpp] ∧
      read.length = s.received.length
  /-- Outside of a sequence everything is executed and received, and the DSP is
  in its mailbox loop. -/
  ended : s.gpp = .idle →
    s.togppCtl = .done ∧ s.dsp = .mailbox ∧ s.message = none ∧
    s.executed = s.requested.map Request.dispatch ∧
    List.Forall₂ Received.Reports s.received (C.returns start s.executed)
  /-- The client does not wait in vain. -/
  progress : ∃ n, ((dspStep C)^[n] s).GppGoesOn

theorem DspPc.owed_length_le_one (pc : DspPc) (phase : GppPhase)
    (message : Option Call) (todsp : Call) :
    (pc.owed phase message todsp).length ≤ 1 := by
  cases pc <;> cases message <;> simp <;> split_ifs <;> simp

theorem DspPc.unread_length_le_one (pc : DspPc) (phase : GppPhase)
    (togpp : FcReturn) : (pc.unread phase togpp).length ≤ 1 := by
  cases pc <;> simp <;> split_ifs <;> simp

theorem Handshake.unread_of_reading (h : Handshake C start s)
    (hg : s.gpp.phase = .acked ∨ s.gpp.phase = .reading) :
    s.dsp.owed s.gpp.phase s.message s.todsp = [] ∧
      s.dsp.unread s.gpp.phase s.togpp = [s.togpp] := by
  obtain hg | hg := hg
  · have hd := h.dsp_of_acked hg
    simp [hd, hg]
  · obtain hd | hd | hd := h.dsp_of_reading hg <;> simp [hd, hg]

/-- Fastcalls are executed exactly once, in order and with their arguments,
every `dsp_fastcall_rpc_recv` returns the values of the call it belongs to, and
after `dsp_fastcall_end` the DSP is back in its mailbox loop. -/
theorem fastcalls_served (hs : (fastcallMachine C start).Reachable s) :
    Served C start s := by
  have h := handshake_of_reachable hs
  obtain ⟨read, hread, hreports⟩ := h.fetched
  exact {
    inOrder := ⟨_, DspPc.owed_length_le_one _ _ _ _, h.served⟩
    received := ⟨read, _, DspPc.unread_length_le_one _ _ _, hread, hreports⟩
    accepted := fun hg => by
      obtain ⟨howed, hunread⟩ := h.unread_of_reading hg
      have hserved := h.served
      rw [howed, List.append_nil] at hserved
      rw [hunread] at hread
      exact ⟨hserved.symm, read, hread, hreports.length_eq.symm⟩
    ended := fun hg => by
      obtain ⟨hd, hm, -⟩ := h.dsp_of_outside (by rw [hg]; rfl)
      have hctl := h.togppCtl
      have hserved := h.served
      rw [hd] at hctl hserved hread
      rw [hm] at hserved
      simp only [DspPc.owed, DspPc.unread, Option.toList_none, List.map_nil,
        List.append_nil] at hserved hread
      exact ⟨hctl, hd, hm, hserved.symm, hread ▸ hreports⟩
    progress := h.exists_dspStep_goesOn }

/-- `DSP_COMPONENT_FC_CMD_DECLARE`. -/
def declareFcCmd (cmd : ℕ) : ℕ := cmd <<< 16

/-- The fastcalls of the `demo_calc_fastcall` component; a value that it does
not set is left `0` here. -/
def demoCalcExecFc (c : Call) : FcReturn :=
  let arg1 : BitVec 32 := BitVec.ofNat 32 c.arg1
  let arg2 : BitVec 32 := BitVec.ofNat 32 c.arg2
  match c.cmd with
  | 1 => ⟨(arg1 + arg2).toNat, 0⟩
  | 2 => ⟨(arg1 - arg2).toNat, 0⟩
  | 3 => ⟨(arg1 * arg2).toNat, 0⟩
  | 4 => if arg2 = 0 then ⟨0, 0⟩ else ⟨(arg1.sdiv arg2).toNat, 0⟩
  | _ => ⟨0, 0⟩

/-- The `demo_calc_fastcall` component: `DEMO_CALC_FASTCALL_INITIATE` is its
only command. -/
def demoCalcFastcall : Component Unit where
  exec s m := (s, if m.cmd = 1 then 0 else 1)
  execFc s c := (s, demoCalcExecFc c)
  initiates m := m.cmd == 1
  exec_of_initiates _ _ h := if_pos (beq_iff_eq.mp h)

/-- Two fastcalls, `3 + 4` and `3 - 4`, in one sequence. -/
def demoCalcRun : List Turn :=
  List.flatten
    [[.call (.rpcSend ⟨1, 0, 0⟩)], List.replicate 3 .gpp,
      List.replicate 4 .dsp,
      [.call (.fastcallSend ⟨declareFcCmd 1, 3, 4⟩)], List.replicate 5 .gpp,
      [.call (.fastcallRecv ⟨true, true⟩)], List.replicate 9 .dsp,
      List.replicate 4 .gpp,
      [.call (.fastcallSend ⟨declareFcCmd 2, 3, 4⟩)], List.replicate 3 .dsp,
      List.replicate 5 .gpp,
      [.call (.fastcallRecv ⟨true, false⟩)], List.replicate 9 .dsp,
      List.replicate 4 .gpp, List.replicate 2 .dsp,
      [.call .fastcallEnd], List.replicate 2 .gpp, List.replicate 4 .dsp,
      [.gpp]]

theorem demoCalcRun_served :
    ∃ s, Served demoCalcFastcall () s ∧ s.gpp = .idle ∧
      s.received = [⟨⟨true, true⟩, some 7, some 0⟩,
        ⟨⟨true, false⟩, some (2 ^ 32 - 1), none⟩] := by
  have hrun : ∃ s, (fastcallMachine demoCalcFastcall ()).Reachable s ∧
      (s.gpp = .idle ∧ s.received = [⟨⟨true, true⟩, some 7, some 0⟩,
        ⟨⟨true, false⟩, some (2 ^ 32 - 1), none⟩]) :=
    Machine.exists_reachable_of_run _ demoCalcRun (by decide)
  obtain ⟨s, hs, hidle, hreceived⟩ := hrun
  exact ⟨s, fastcalls_served hs, hidle, hreceived⟩

end C64Tools.Fastcall
