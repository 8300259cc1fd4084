import C64Tools.Fastcall.Model
import Mathlib.Data.List.Forall2

/-!
# The fastcall handshake

The position of each side fixes what it last wrote to its own control word, and
only some pairs of positions occur together.  A side that polls therefore knows
from the word of the other one how far that one has come.
-/

namespace C64Tools.Fastcall

open Transition

/-! ## Positions -/

/-- The part of its protocol in which the client is. -/
inductive GppPhase where
  | outside
  | messaging
  | opened
  | ready
  | asking
  | acked
  | reading
  | closing
  deriving DecidableEq, Repr

def GppPc.phase : GppPc → GppPhase
  | .idle | .rpcCheck _ | .rpcCtl _ | .rpcWrite _ => .outside
  | .rpcRecv => .messaging
  | .sequence | .sendPoll _ | .endPoll => .opened
  | .sendCmd _ | .sendArg1 _ | .sendArg2 _ | .sendCtl _ | .endCtl => .ready
  | .sent | .recvPoll _ => .asking
  | .recvCtl _ => .acked
  | .recvRet1 _ | .recvRet2 _ _ => .reading
  | .endRecv => .closing

/-- What the client has written to its control word. -/
@[simp]
def GppPc.Wrote (ctl : FastcallCtl) : GppPc → Prop
  | .idle | .rpcCheck _ | .rpcCtl _ => ctl = .done ∨ ctl = .idle
  | .sent | .recvPoll _ | .recvCtl _ => ctl = .req
  | .endRecv => ctl = .done
  | _ => ctl = .idle

/-- What the client has copied to and from the registers. -/
@[simp]
def GppPc.Copied (todsp : Call) (togpp : FcReturn) : GppPc → Prop
  | .sendArg1 c => todsp.cmd = c.cmd
  | .sendArg2 c => todsp.cmd = c.cmd ∧ todsp.arg1 = c.arg1
  | .sendCtl c => todsp = c
  | .recvRet2 p r1 => r1 = store p.r1FC togpp.r1
  | _ => True

theorem GppPc.copied_of_asking {pc : GppPc} (h : pc.phase = .asking)
    (todsp : Call) (togpp : FcReturn) : pc.Copied todsp togpp := by
  cases pc <;> simp_all [GppPc.phase]

/-- What the DSP has written to its control word. -/
@[simp]
def DspPc.wrote (phase : GppPhase) : DspPc → FastcallCtl
  | .mailbox | .exec _ | .initiate _ | .reply => .done
  | .check => if phase = .messaging then .done else .idle
  | .ackPoll | .ackIdle => .ack
  | _ => .idle

/-- What the DSP has copied from and to the registers. -/
@[simp]
def DspPc.Copied (todsp : Call) (togpp : FcReturn) : DspPc → Prop
  | .readArg1 cmd => cmd = todsp.dispatch.cmd
  | .readArg2 cmd arg1 => cmd = todsp.dispatch.cmd ∧ arg1 = todsp.arg1
  | .execFc c => c = todsp.dispatch
  | .ret2 r => togpp.r1 = r.r1
  | _ => True

/-- The request that the component has not served yet. -/
@[simp]
def DspPc.owed (phase : GppPhase) (message : Option Call) (todsp : Call) :
    DspPc → List Request
  | .mailbox => message.toList.map .message
  | .exec m => [.message m]
  | .check | .poll | .test | .readCmd | .readArg1 _ | .readArg2 _ _
  | .execFc _ =>
      if phase = .asking then [.fastcall todsp.dispatch] else []
  | _ => []

/-- The values that the client has not fetched yet. -/
@[simp]
def DspPc.unread (phase : GppPhase) (togpp : FcReturn) :
    DspPc → List FcReturn
  | .ret1 r | .ret2 r => [r]
  | .ack => [togpp]
  | .ackPoll => if phase = .opened then [] else [togpp]
  | .poll | .ackIdle => if phase = .reading then [togpp] else []
  | _ => []

section

variable {σ : Type*} (C : Component σ)

/-- After a message has been sent, the client is in a sequence or waits for
the reply. -/
def Component.phaseAfter (m : Call) : GppPhase :=
  if C.initiates m then .opened else .messaging

/-- The phases of the client beside each position of the DSP. -/
@[simp]
def DspPc.Beside (phase : GppPhase) (message : Option Call)
    (replied : Bool) : DspPc → Prop
  | .mailbox =>
      match message with
      | some m => phase = C.phaseAfter m ∧ replied = false
      | none =>
          if replied then phase = .messaging ∨ phase = .closing
          else phase = .outside
  | .exec m => phase = C.phaseAfter m
  | .initiate err => phase = .opened ∧ err = 0
  | .check =>
      phase = .messaging ∨ phase = .opened ∨ phase = .ready ∨
        phase = .asking ∨ phase = .closing
  | .poll =>
      phase = .opened ∨ phase = .ready ∨ phase = .asking ∨
        phase = .reading ∨ phase = .closing
  | .test => phase = .asking ∨ phase = .closing
  | .readCmd | .readArg1 _ | .readArg2 _ _ | .execFc _ | .ret1 _ | .ret2 _
  | .ack =>
      phase = .asking
  | .ackPoll =>
      phase = .asking ∨ phase = .acked ∨ phase = .reading ∨ phase = .opened
  | .ackIdle => phase = .reading ∨ phase = .opened
  | .done => phase = .closing
  | .reply => phase = .messaging ∨ phase = .closing

/-! ## The invariant -/

/-- A call of `dsp_fastcall_rpc_recv` stored these values. -/
def Received.Reports (x : Received) (r : FcReturn) : Prop :=
  x.r1 = store x.ptrs.r1FC r.r1 ∧ x.r2 = store x.ptrs.r2FC r.r2

structure Handshake (start : σ) (s : System σ) : Prop where
  beside : s.dsp.Beside C s.gpp.phase s.message s.replied
  quiet : s.dsp ≠ .mailbox → s.message = none ∧ s.replied = false
  todspCtl : s.gpp.Wrote s.todspCtl
  togppCtl : s.togppCtl = s.dsp.wrote s.gpp.phase
  gppCopied : s.gpp.Copied s.todsp s.togpp
  dspCopied : s.dsp.Copied s.todsp s.togpp
  served : s.requested.map Request.dispatch =
    s.executed ++ s.dsp.owed s.gpp.phase s.message s.todsp
  comp : s.comp = Service.after C.serve start s.executed
  fetched : ∃ read,
    C.returns start s.executed = read ++ s.dsp.unread s.gpp.phase s.togpp ∧
      List.Forall₂ Received.Reports s.received read

end

variable {σ : Type*} {C : Component σ} {start : σ} {s : System σ}

theorem initial_handshake : Handshake C start (System.initial start) where
  beside := rfl
  quiet h := absurd rfl h
  todspCtl := Or.inl rfl
  togppCtl := rfl
  gppCopied := trivial
  dspCopied := trivial
  served := rfl
  comp := rfl
  fetched := ⟨[], rfl, List.Forall₂.nil⟩

@[simp]
theorem returns_concat_message (reqs : List Request) (m : Call) :
    C.returns start (reqs ++ [.message m]) = C.returns start reqs := by
  simp [Component.returns, Component.serve]

@[simp]
theorem returns_concat_fastcall (reqs : List Request) (c : Call) :
    C.returns start (reqs ++ [.fastcall c]) = C.returns start reqs ++
      [(C.execFc (Service.after C.serve start reqs) c).2] := by
  simp [Component.returns, Component.serve]

namespace Handshake

/-! ## What the client knows about the DSP -/

theorem dsp_of_outside (h : Handshake C start s)
    (hg : s.gpp.phase = .outside) :
    s.dsp = .mailbox ∧ s.message = none ∧ s.replied = false := by
  have hb := h.beside
  unfold DspPc.Beside Component.phaseAfter at hb
  cases hd : s.dsp <;> grind

/-- A reply is there only when the DSP waits for the next message. -/
theorem dsp_of_replied (h : Handshake C start s) (hr : s.replied = true) :
    s.dsp = .mailbox ∧ s.message = none := by
  have hd : s.dsp = .mailbox := by
    by_contra hd
    simp [(h.quiet hd).2] at hr
  have hb := h.beside
  rw [hd] at hb
  cases hm : s.message with
  | none => exact ⟨hd, rfl⟩
  | some m => simp [hm, hr] at hb

/-- The client that finds `IDLE` passes when the DSP is ready for a request. -/
theorem dsp_of_opened (h : Handshake C start s)
    (hg : s.gpp.phase = .opened) (hctl : s.togppCtl = .idle) :
    s.dsp = .check ∨ s.dsp = .poll := by
  have hb := h.beside
  have hw := h.togppCtl
  cases hd : s.dsp <;> simp_all

theorem dsp_of_ready (h : Handshake C start s)
    (hg : s.gpp.phase = .ready) : s.dsp = .check ∨ s.dsp = .poll := by
  have hb := h.beside
  unfold DspPc.Beside Component.phaseAfter at hb
  cases hd : s.dsp <;> grind

/-- An `ACK` found after a request belongs to this request. -/
theorem dsp_of_asking (h : Handshake C start s)
    (hg : s.gpp.phase = .asking) (hctl : s.togppCtl = .ack) :
    s.dsp = .ackPoll := by
  have hb := h.beside
  have hw := h.togppCtl
  cases hd : s.dsp <;> simp_all

theorem dsp_of_acked (h : Handshake C start s)
    (hg : s.gpp.phase = .acked) : s.dsp = .ackPoll := by
  have hb := h.beside
  unfold DspPc.Beside Component.phaseAfter at hb
  cases hd : s.dsp <;> grind

/-- While the return values are read, the DSP does not serve a request. -/
theorem dsp_of_reading (h : Handshake C start s)
    (hg : s.gpp.phase = .reading) :
    s.dsp = .ackPoll ∨ s.dsp = .ackIdle ∨ s.dsp = .poll := by
  have hb := h.beside
  unfold DspPc.Beside Component.phaseAfter at hb
  cases hd : s.dsp <;> grind

/-! ## What the DSP knows about the client -/

theorem phase_of_poll (h : Handshake C start s) (hd : s.dsp = .poll)
    (hctl : s.todspCtl ≠ .idle) :
    s.gpp.phase = .asking ∨ s.gpp.phase = .closing := by
  have hw := h.todspCtl
  have hb := h.beside
  cases hg : s.gpp <;> simp_all [GppPc.phase]

theorem phase_of_test (h : Handshake C start s) (hd : s.dsp = .test) :
    s.todspCtl = .req ∧ s.gpp.phase = .asking ∨
      s.todspCtl = .done ∧ s.gpp.phase = .closing := by
  have hw := h.todspCtl
  have hb := h.beside
  cases hg : s.gpp <;> simp_all [GppPc.phase]

/-- The client sets its control word back before it reads the values. -/
theorem phase_of_ackPoll (h : Handshake C start s) (hd : s.dsp = .ackPoll)
    (hctl : s.todspCtl = .idle) :
    s.gpp.phase = .reading ∨ s.gpp.phase = .opened := by
  have hw := h.todspCtl
  have hb := h.beside
  cases hg : s.gpp <;> simp_all [GppPc.phase]

/-! ## Steps of the DSP -/

/-- The DSP goes on, and may write its control word, but neither serves a
request nor stores a value. -/
theorem dspMoves (h : Handshake C start s) (hd : s.dsp ≠ .mailbox)
    (ctl : FastcallCtl) (pc : DspPc)
    (hbeside : pc.Beside C s.gpp.phase s.message s.replied)
    (hctl : ctl = pc.wrote s.gpp.phase)
    (hcopied : pc.Copied s.todsp s.togpp)
    (howed : pc.owed s.gpp.phase s.message s.todsp =
      s.dsp.owed s.gpp.phase s.message s.todsp)
    (hunread : pc.unread s.gpp.phase s.togpp =
      s.dsp.unread s.gpp.phase s.togpp) :
    Handshake C start { s with togppCtl := ctl, dsp := pc } where
  beside := hbeside
  quiet _ := h.quiet hd
  todspCtl := h.todspCtl
  togppCtl := hctl
  gppCopied := h.gppCopied
  dspCopied := hcopied
  served := by
    rw [howed]
    exact h.served
  comp := h.comp
  fetched := by
    rw [hunread]
    exact h.fetched

/-- The DSP takes the message out of the mailbox. -/
theorem takesMessage (h : Handshake C start s) (hd : s.dsp = .mailbox)
    {m : Call} (hm : s.message = some m) :
    Handshake C start { s with message := none, dsp := .exec m } := by
  obtain ⟨hg, hr⟩ : s.gpp.phase = C.phaseAfter m ∧ s.replied = false := by
    simpa [hd, hm] using h.beside
  have hctl := h.togppCtl
  have hserved := h.served
  have hfetched := h.fetched
  rw [hd] at hctl hserved hfetched
  rw [hm] at hserved
  exact {
    beside := hg
    quiet := fun _ => ⟨rfl, hr⟩
    todspCtl := h.todspCtl
    togppCtl := hctl
    gppCopied := h.gppCopied
    dspCopied := trivial
    served := hserved
    comp := h.comp
    fetched := hfetched }

/-- The component executes the message, and the DSP goes on to where nothing
is owed. -/
theorem executesMessage (h : Handshake C start s) {m : Call}
    (hd : s.dsp = .exec m) (pc : DspPc)
    (hbeside : pc.Beside C s.gpp.phase s.message s.replied)
    (hctl : pc.wrote s.gpp.phase = .done)
    (hcopied : pc.Copied s.todsp s.togpp)
    (howed : pc.owed s.gpp.phase s.message s.todsp = [])
    (hunread : pc.unread s.gpp.phase s.togpp = []) :
    Handshake C start { s with
      comp := (C.exec s.comp m).1
      executed := s.executed ++ [.message m]
      dsp := pc } := by
  have htogpp := h.togppCtl
  have hserved := h.served
  obtain ⟨read, hread, hreports⟩ := h.fetched
  rw [hd] at htogpp hserved hread
  exact {
    beside := hbeside
    quiet := fun _ => h.quiet (by simp [hd])
    todspCtl := h.todspCtl
    togppCtl := htogpp.trans hctl.symm
    gppCopied := h.gppCopied
    dspCopied := hcopied
    served := by
      rw [howed]
      simpa using hserved
    comp := by simp [h.comp, Component.serve]
    fetched := ⟨read, by
      rw [hunread]
      simpa using hread, hreports⟩ }

/-- The component executes the fastcall that the request registers hold. -/
theorem executesFastcall (h : Handshake C start s) {c : Call}
    (hd : s.dsp = .execFc c) :
    Handshake C start { s with
      comp := (C.execFc s.comp c).1
      executed := s.executed ++ [.fastcall c]
      dsp := .ret1 (C.execFc s.comp c).2 } := by
  have hg : s.gpp.phase = .asking := by simpa [hd] using h.beside
  have hc : c = s.todsp.dispatch := by simpa [hd] using h.dspCopied
  have htogpp := h.togppCtl
  have hserved := h.served
  obtain ⟨read, hread, hreports⟩ := h.fetched
  rw [hd] at htogpp hserved hread
  exact {
    beside := hg
    quiet := fun _ => h.quiet (by simp [hd])
    todspCtl := h.todspCtl
    togppCtl := htogpp
    gppCopied := h.gppCopied
    dspCopied := trivial
    served := by simpa [hg, hc] using hserved
    comp := by simp [h.comp, Component.serve]
    fetched := ⟨read, by simpa [h.comp] using hread, hreports⟩ }

/-- The DSP stores values while the client waits for them. -/
theorem storesReturn (h : Handshake C start s) (hd : s.dsp ≠ .mailbox)
    (hg : s.gpp.phase = .asking) (togpp : FcReturn) (pc : DspPc)
    (hbeside : pc.Beside C s.gpp.phase s.message s.replied)
    (hctl : pc.wrote s.gpp.phase = s.dsp.wrote s.gpp.phase)
    (hcopied : pc.Copied s.todsp togpp)
    (howed : pc.owed s.gpp.phase s.message s.todsp =
      s.dsp.owed s.gpp.phase s.message s.todsp)
    (hunread : pc.unread s.gpp.phase togpp =
      s.dsp.unread s.gpp.phase s.togpp) :
    Handshake C start { s with togpp := togpp, dsp := pc } where
  beside := hbeside
  quiet _ := h.quiet hd
  todspCtl := h.todspCtl
  togppCtl := h.togppCtl.trans hctl.symm
  gppCopied := GppPc.copied_of_asking hg s.todsp togpp
  dspCopied := hcopied
  served := by
    rw [howed]
    exact h.served
  comp := h.comp
  fetched := by
    rw [hunread]
    exact h.fetched

/-- The DSP sends the reply. -/
theorem sendsReply (h : Handshake C start s) (hd : s.dsp = .reply) :
    Handshake C start { s with replied := true, dsp := .mailbox } := by
  obtain ⟨hm, -⟩ := h.quiet (by simp [hd])
  have hbeside := h.beside
  have htogpp := h.togppCtl
  have hserved := h.served
  have hfetched := h.fetched
  rw [hd] at hbeside htogpp hserved hfetched
  exact {
    beside := by simpa [hm] using hbeside
    quiet := fun hne => absurd rfl hne
    todspCtl := h.todspCtl
    togppCtl := htogpp
    gppCopied := h.gppCopied
    dspCopied := trivial
    served := by simpa [hm] using hserved
    comp := h.comp
    fetched := hfetched }

theorem dspStep (h : Handshake C start s) :
    Handshake C start (dspStep C s) := by
  have hbeside := h.beside
  have hctl := h.togppCtl
  have hcopied := h.dspCopied
  cases hd : s.dsp with
  | mailbox =>
      cases hm : s.message with
      | none => simpa only [Fastcall.dspStep, hd, hm] using h
      | some m =>
          simpa only [Fastcall.dspStep, hd, hm] using h.takesMessage hd hm
  | exec m =>
      have hg : s.gpp.phase = C.phaseAfter m := by simpa [hd] using hbeside
      simp only [Fastcall.dspStep, hd]
      by_cases hi : C.initiates m = true
      · have hok := C.exec_of_initiates s.comp m hi
        apply h.executesMessage hd <;> simp_all [Component.phaseAfter]
      · by_cases hok : (C.exec s.comp m).2 = 0
        all_goals
          apply h.executesMessage hd <;> simp_all [Component.phaseAfter]
  | initiate err =>
      obtain ⟨hg, rfl⟩ : s.gpp.phase = .opened ∧ err = 0 := by
        simpa [hd] using hbeside
      simp only [Fastcall.dspStep, hd, if_true]
      apply h.dspMoves <;> simp_all
  | check =>
      have hg : s.gpp.phase = .messaging ∨ s.gpp.phase = .opened ∨
          s.gpp.phase = .ready ∨ s.gpp.phase = .asking ∨
            s.gpp.phase = .closing := by
        simpa [hd] using hbeside
      simp only [Fastcall.dspStep, hd]
      -- only after an ordinary message is the control word still `DONE`
      obtain hg | hg | hg | hg | hg := hg
      all_goals
        apply h.dspMoves <;> simp_all
  | poll =>
      by_cases hidle : s.todspCtl = .idle
      · simpa only [Fastcall.dspStep, hd, if_pos hidle] using h
      · simp only [Fastcall.dspStep, hd, if_neg hidle]
        obtain hg | hg := h.phase_of_poll hd hidle
        all_goals
          apply h.dspMoves <;> simp_all
  | test =>
      simp only [Fastcall.dspStep, hd]
      obtain ⟨hreq, hg⟩ | ⟨hdone, hg⟩ := h.phase_of_test hd
      all_goals
        apply h.dspMoves <;> simp_all
  | readCmd =>
      simp only [Fastcall.dspStep, hd]
      apply h.dspMoves <;> simp_all [Call.dispatch]
  | readArg1 cmd =>
      simp only [Fastcall.dspStep, hd]
      apply h.dspMoves <;> simp_all
  | readArg2 cmd arg1 =>
      simp only [Fastcall.dspStep, hd]
      apply h.dspMoves <;> simp_all [Call.dispatch]
  | execFc c =>
      simpa only [Fastcall.dspStep, hd] using h.executesFastcall hd
  | ret1 r =>
      have hg : s.gpp.phase = .asking := by simpa [hd] using hbeside
      simp only [Fastcall.dspStep, hd]
      apply h.storesReturn <;> simp_all
  | ret2 r =>
      have hg : s.gpp.phase = .asking := by simpa [hd] using hbeside
      simp only [Fastcall.dspStep, hd]
      apply h.storesReturn <;> simp_all
  | ack =>
      simp only [Fastcall.dspStep, hd]
      apply h.dspMoves <;> simp_all
  | ackPoll =>
      by_cases hidle : s.todspCtl = .idle
      · simp only [Fastcall.dspStep, hd, if_pos hidle]
        obtain hg | hg := h.phase_of_ackPoll hd hidle
        all_goals
          apply h.dspMoves <;> simp_all
      · simpa only [Fastcall.dspStep, hd, if_neg hidle] using h
  | ackIdle =>
      have hg : s.gpp.phase = .reading ∨ s.gpp.phase = .opened := by
        simpa [hd] using hbeside
      simp only [Fastcall.dspStep, hd]
      obtain hg | hg := hg
      all_goals
        apply h.dspMoves <;> simp_all
  | done =>
      simp only [Fastcall.dspStep, hd]
      apply h.dspMoves <;> simp_all
  | reply => simpa only [Fastcall.dspStep, hd] using h.sendsReply hd

/-! ## Steps of the client -/

/-- The client goes on, and may write its control word and the request
registers, but makes no request and fetches no value. -/
theorem gppMoves (h : Handshake C start s) (ctl : FastcallCtl) (todsp : Call)
    (pc : GppPc) (hbeside : s.dsp.Beside C pc.phase s.message s.replied)
    (hwrote : pc.Wrote ctl)
    (hctl : s.dsp.wrote pc.phase = s.dsp.wrote s.gpp.phase)
    (hgpp : pc.Copied todsp s.togpp) (hdsp : s.dsp.Copied todsp s.togpp)
    (howed : s.dsp.owed pc.phase s.message todsp =
      s.dsp.owed s.gpp.phase s.message s.todsp)
    (hunread : s.dsp.unread pc.phase s.togpp =
      s.dsp.unread s.gpp.phase s.togpp) :
    Handshake C start
      { s with todspCtl := ctl, todsp := todsp, gpp := pc } where
  beside := hbeside
  quiet := h.quiet
  todspCtl := hwrote
  togppCtl := h.togppCtl.trans hctl.symm
  gppCopied := hgpp
  dspCopied := hdsp
  served := by
    rw [howed]
    exact h.served
  comp := h.comp
  fetched := by
    rw [hunread]
    exact h.fetched

/-- The client goes on in the same phase, and writes nothing. -/
theorem gppStays (h : Handshake C start s) (pc : GppPc)
    (hphase : pc.phase = s.gpp.phase) (hwrote : pc.Wrote s.todspCtl)
    (hgpp : pc.Copied s.todsp s.togpp) :
    Handshake C start { s with gpp := pc } := by
  refine h.gppMoves s.todspCtl s.todsp pc ?_ hwrote ?_ hgpp h.dspCopied ?_ ?_
  · rw [hphase]
    exact h.beside
  all_goals rw [hphase]

theorem gppCall (h : Handshake C start s) {c : GppCall} {t : System σ}
    (hc : gppCall s c = some t) : Handshake C start t := by
  have hw := h.todspCtl
  cases c with
  | rpcSend m =>
      obtain ⟨hg, hs⟩ := Option.ite_none_right_eq_some.mp hc
      obtain rfl := Option.some.inj hs
      rw [hg] at hw
      exact h.gppStays (.rpcCheck m) (by rw [hg]; rfl) hw trivial
  | fastcallSend c =>
      obtain ⟨hg, hs⟩ := Option.ite_none_right_eq_some.mp hc
      obtain rfl := Option.some.inj hs
      rw [hg] at hw
      exact h.gppStays (.sendPoll c) (by rw [hg]; rfl) hw trivial
  | fastcallRecv p =>
      obtain ⟨hg, hs⟩ := Option.ite_none_right_eq_some.mp hc
      obtain rfl := Option.some.inj hs
      rw [hg] at hw
      exact h.gppStays (.recvPoll p) (by rw [hg]; rfl) hw trivial
  | fastcallEnd =>
      obtain ⟨hg, hs⟩ := Option.ite_none_right_eq_some.mp hc
      obtain rfl := Option.some.inj hs
      rw [hg] at hw
      exact h.gppStays .endPoll (by rw [hg]; rfl) hw trivial

/-- The message is written into the mailbox. -/
theorem writesMessage (h : Handshake C start s) {m : Call}
    (hg : s.gpp = .rpcWrite m) (pc : GppPc) (hphase : pc.phase = C.phaseAfter m)
    (hwrote : pc.Wrote .idle) (hcopied : pc.Copied s.todsp s.togpp) :
    Handshake C start { s with
      message := some m
      requested := s.requested ++ [.message m]
      gpp := pc } := by
  obtain ⟨hd, hm, hr⟩ := h.dsp_of_outside (by rw [hg]; rfl)
  have htodsp := h.todspCtl
  have htogpp := h.togppCtl
  have hserved := h.served
  have hfetched := h.fetched
  rw [hg] at htodsp
  rw [hd] at htogpp hserved hfetched
  exact {
    beside := by simp [hd, hphase, hr]
    quiet := fun hne => absurd hd hne
    todspCtl := by simpa [show s.todspCtl = .idle from htodsp] using hwrote
    togppCtl := by simpa [hd] using htogpp
    gppCopied := hcopied
    dspCopied := by simp [hd]
    served := by simpa [hd, hm, Request.dispatch] using hserved
    comp := h.comp
    fetched := by simpa [hd] using hfetched }

/-- The control word is set to `REQ` when the registers hold the request. -/
theorem requestsCall (h : Handshake C start s) {c : Call}
    (hg : s.gpp = .sendCtl c) :
    Handshake C start { s with
      todspCtl := .req
      requested := s.requested ++ [.fastcall c]
      gpp := .sent } := by
  have hd := h.dsp_of_ready (by rw [hg]; rfl)
  have hc : s.todsp = c := by simpa [hg] using h.gppCopied
  have htogpp := h.togppCtl
  have hserved := h.served
  have hfetched := h.fetched
  have hcopied := h.dspCopied
  obtain hd | hd := hd
  all_goals
    rw [hd, hg] at htogpp hserved hfetched
    exact {
      beside := by simp [hd, GppPc.phase]
      quiet := fun _ => h.quiet (by simp [hd])
      todspCtl := rfl
      togppCtl := by simpa [hd, GppPc.phase] using htogpp
      gppCopied := trivial
      dspCopied := hcopied
      served := by simpa [hd, hc, GppPc.phase, Request.dispatch] using hserved
      comp := h.comp
      fetched := by simpa [hd, GppPc.phase] using hfetched }

/-- The second value is read, and both belong to the last fastcall. -/
theorem receivesReturn (h : Handshake C start s) {p : RetPtrs}
    {r1 : Option ℕ} (hg : s.gpp = .recvRet2 p r1) :
    Handshake C start { s with
      received := s.received ++ [⟨p, r1, store p.r2FC s.togpp.r2⟩]
      gpp := .sequence } := by
  have hr1 : r1 = store p.r1FC s.togpp.r1 := by simpa [hg] using h.gppCopied
  have htodsp := h.todspCtl
  have htogpp := h.togppCtl
  have hserved := h.served
  have hcopied := h.dspCopied
  obtain ⟨read, hread, hreports⟩ := h.fetched
  have hunread : s.dsp.unread s.gpp.phase s.togpp = [s.togpp] := by
    obtain hd | hd | hd := h.dsp_of_reading (by rw [hg]; rfl) <;>
      simp [hd, hg, GppPc.phase]
  rw [hunread] at hread
  have hfetched : ∃ read, C.returns start s.executed = read ++ [] ∧
      List.Forall₂ Received.Reports
        (s.received ++ [⟨p, r1, store p.r2FC s.togpp.r2⟩]) read :=
    ⟨read ++ [s.togpp], by rw [List.append_nil, hread],
      List.rel_append hreports
        (List.Forall₂.cons ⟨hr1, rfl⟩ List.Forall₂.nil)⟩
  obtain hd | hd | hd := h.dsp_of_reading (by rw [hg]; rfl)
  all_goals
    rw [hg] at htodsp
    rw [hd, hg] at htogpp hserved
    exact {
      beside := by simp [hd, GppPc.phase]
      quiet := fun _ => h.quiet (by simp [hd])
      todspCtl := htodsp
      togppCtl := by simpa [hd, GppPc.phase] using htogpp
      gppCopied := trivial
      dspCopied := hcopied
      served := by simpa [hd, GppPc.phase] using hserved
      comp := h.comp
      fetched := by simpa [hd, GppPc.phase] using hfetched }

/-- The client has received the reply to the message that it has sent. -/
theorem receivesReply (h : Handshake C start s) (hr : s.replied = true)
    (hwrote : s.todspCtl = .done ∨ s.todspCtl = .idle) :
    Handshake C start { s with replied := false, gpp := .idle } := by
  obtain ⟨hd, hm⟩ := h.dsp_of_replied hr
  have htogpp := h.togppCtl
  have hserved := h.served
  have hfetched := h.fetched
  rw [hd] at htogpp hserved hfetched
  exact {
    beside := by simp [hd, hm, GppPc.phase]
    quiet := fun hne => absurd hd hne
    todspCtl := hwrote
    togppCtl := by simpa [hd] using htogpp
    gppCopied := trivial
    dspCopied := by simp [hd]
    served := by simpa [hd] using hserved
    comp := h.comp
    fetched := by simpa [hd] using hfetched }

theorem gppStep (h : Handshake C start s) :
    Handshake C start (gppStep C s) := by
  have hbeside := h.beside
  have hwrote := h.todspCtl
  have hctl := h.togppCtl
  have hcopied := h.gppCopied
  cases hg : s.gpp with
  | idle | sequence | sent => simpa only [Fastcall.gppStep, hg] using h
  | rpcCheck m =>
      rw [hg] at hwrote
      by_cases hdone : s.togppCtl = .done
      · simp only [Fastcall.gppStep, hg, if_pos hdone]
        exact h.gppStays (.rpcCtl m) (by rw [hg]; rfl) hwrote trivial
      · simpa only [Fastcall.gppStep, hg, if_neg hdone] using h
  | rpcCtl m =>
      obtain ⟨hd, hm, hr⟩ := h.dsp_of_outside (by rw [hg]; rfl)
      simp only [Fastcall.gppStep, hg]
      apply h.gppMoves <;> simp_all [GppPc.phase]
  | rpcWrite m =>
      simp only [Fastcall.gppStep, hg]
      by_cases hi : C.initiates m = true
      all_goals
        apply h.writesMessage hg <;>
          simp [hi, GppPc.phase, Component.phaseAfter]
  | rpcRecv =>
      rw [hg] at hwrote
      by_cases hr : s.replied = true
      · simp only [Fastcall.gppStep, hg, if_pos hr]
        exact h.receivesReply hr (Or.inr hwrote)
      · simpa only [Fastcall.gppStep, hg, if_neg hr] using h
  | sendPoll _ | endPoll =>
      by_cases hidle : s.togppCtl = .idle
      · simp only [Fastcall.gppStep, hg, if_pos hidle]
        obtain hd | hd := h.dsp_of_opened (by rw [hg]; rfl) hidle
        all_goals
          apply h.gppMoves <;> simp_all [GppPc.phase]
      · simpa only [Fastcall.gppStep, hg, if_neg hidle] using h
  | sendCmd _ | sendArg1 _ | sendArg2 _ | endCtl =>
      simp only [Fastcall.gppStep, hg]
      obtain hd | hd := h.dsp_of_ready (by rw [hg]; rfl)
      all_goals
        apply h.gppMoves <;> simp_all [GppPc.phase]
  | sendCtl c => simpa only [Fastcall.gppStep, hg] using h.requestsCall hg
  | recvPoll p =>
      by_cases hack : s.togppCtl = .ack
      · have hd := h.dsp_of_asking (by rw [hg]; rfl) hack
        simp only [Fastcall.gppStep, hg, if_pos hack]
        apply h.gppMoves <;> simp_all [GppPc.phase]
      · simpa only [Fastcall.gppStep, hg, if_neg hack] using h
  | recvCtl p =>
      have hd := h.dsp_of_acked (by rw [hg]; rfl)
      simp only [Fastcall.gppStep, hg]
      apply h.gppMoves <;> simp_all [GppPc.phase]
  | recvRet1 p =>
      rw [hg] at hwrote
      simp only [Fastcall.gppStep, hg]
      exact h.gppStays (.recvRet2 p _) (by rw [hg]; rfl) hwrote rfl
  | recvRet2 p r1 =>
      simpa only [Fastcall.gppStep, hg] using h.receivesReturn hg
  | endRecv =>
      rw [hg] at hwrote
      by_cases hr : s.replied = true
      · simp only [Fastcall.gppStep, hg, if_pos hr]
        exact h.receivesReply hr (Or.inl hwrote)
      · simpa only [Fastcall.gppStep, hg, if_neg hr] using h

end Handshake

theorem handshake_of_reachable
    (hs : (fastcallMachine C start).Reachable s) : Handshake C start s := by
  refine hs.invariant ?_ ?_
  · rintro s rfl
    exact initial_handshake
  · intro s e t h ht
    cases e with
    | call c => exact h.gppCall ht
    | gpp =>
        obtain rfl := Option.some.inj ht
        exact h.gppStep
    | dsp =>
        obtain rfl := Option.some.inj ht
        exact h.dspStep

end C64Tools.Fastcall
