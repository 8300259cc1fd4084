import C64Tools.Fastcall.Calls

/-!
# When the client of a fastcall sequence dies

`fops__release` ends the sequence of the current client with
`mlb_fastcall_end`, which finds out from one register how far the DSP has come.
It knows neither whether the DSP has yet to enter the sequence nor whether a
request is still to be answered, and then leaves the DSP in its fastcall loop.
-/

namespace C64Tools.Fastcall

open Transition

/-- Where `mlb_fastcall_end` is. -/
inductive EndPc where
  | start
  | ackIdle
  | wait
  | done
  | finished
  deriving DecidableEq, Repr

/-- Both processors after the death of the client. -/
structure Recovery (σ : Type*) where
  sys : System σ
  pc : EndPc

section

variable {σ : Type*} (C : Component σ)

/-- The next access of `mlb_fastcall_end` to a shared register. -/
def mlbFastcallEnd (r : Recovery σ) : Recovery σ :=
  match r.pc with
  | .start =>
      { r with
        pc :=
          match r.sys.togppCtl with
          | .done => .finished
          | .ack => .ackIdle
          -- the waiting loop is not entered
          | .idle => .done
          | .req => .wait }
  | .ackIdle => { r with sys.todspCtl := .idle, pc := .wait }
  | .wait => if r.sys.togppCtl = .idle then { r with pc := .done } else r
  | .done => { r with sys.todspCtl := .done, pc := .finished }
  | .finished => r

/-- Whose turn it is. -/
inductive RecoveryTurn where
  | release
  | dsp
  deriving DecidableEq, Repr

def recoveryNext (r : Recovery σ) : RecoveryTurn → Option (Recovery σ)
  | .release => some (mlbFastcallEnd r)
  | .dsp => some { r with sys := dspStep C r.sys }

/-- The client has died in the state `s`. -/
def recoveryMachine (s : System σ) : Machine (Recovery σ) RecoveryTurn :=
  Machine.ofNext ⟨s, .start⟩ (recoveryNext C)

/-- Each side takes a turn. -/
def recoveryRound (r : Recovery σ) : Recovery σ :=
  mlbFastcallEnd { r with sys := dspStep C r.sys }

/-- The client is the current client of the driver: its message was accepted,
and the reply has not come. -/
def System.Current (s : System σ) : Prop :=
  s.gpp.phase ≠ .outside ∧ s.replied = false

instance (s : System σ) : Decidable s.Current :=
  inferInstanceAs (Decidable (_ ∧ _))

/-- The DSP waits for the control word of the GPP to change. -/
def System.Waits (s : System σ) : Prop :=
  s.dsp = .poll ∧ s.todspCtl = .idle ∨ s.dsp = .ackPoll ∧ s.todspCtl ≠ .idle

instance (s : System σ) : Decidable s.Waits :=
  inferInstanceAs (Decidable (_ ∨ _))

/-- The DSP leaves the sequence whatever the order of the turns is. -/
structure Recovers (s : System σ) : Prop where
  /-- `mlb_fastcall_end` comes to its end. -/
  ends : ∀ r, (recoveryMachine C s).Reachable r →
    ∃ n, ((recoveryRound C)^[n] r).pc = .finished
  /-- Then the DSP does not wait for what nobody writes, and goes back to its
  mailbox loop. -/
  leaves : ∀ r, (recoveryMachine C s).Reachable r → r.pc = .finished →
    ¬ r.sys.Waits ∧ ∃ n, ((dspStep C)^[n] r.sys).dsp = .mailbox

/-- The DSP has not entered the sequence that the message initiates. -/
def System.Entering (s : System σ) : Prop :=
  match s.dsp with
  | .mailbox => s.message.any C.initiates = true
  | .exec m => C.initiates m = true
  | .initiate _ => True
  | _ => False

/-- The DSP is not about to enter a sequence, and has no request to answer. -/
def System.Recoverable (s : System σ) : Prop :=
  ¬ s.Entering C ∧ ¬ (s.todspCtl = .req ∧ s.togppCtl = .idle)

/-! ## The way out of a sequence -/

/-- The control words beside each position of the DSP on its way out of a
sequence; it does not serve a request. -/
@[simp]
def DspPc.Orderly (todspCtl togppCtl : FastcallCtl) : DspPc → Prop
  | .mailbox | .reply => togppCtl = .done
  | .exec m => togppCtl = .done ∧ C.initiates m = false
  | .check => togppCtl = .done ∨
      togppCtl = .idle ∧ (todspCtl = .idle ∨ todspCtl = .done)
  | .poll => togppCtl = .idle ∧ (todspCtl = .idle ∨ todspCtl = .done)
  | .test | .done => togppCtl = .idle ∧ todspCtl = .done
  | .ackPoll => togppCtl = .ack ∧ (todspCtl = .idle ∨ todspCtl = .req)
  | .ackIdle => togppCtl = .ack ∧ todspCtl = .idle
  | _ => False

/-- What `mlb_fastcall_end` has achieved at each of its positions. -/
@[simp]
def EndPc.Achieved (todspCtl togppCtl : FastcallCtl) : EndPc → Prop
  | .start => True
  | .ackIdle => togppCtl = .ack ∨ togppCtl = .idle ∧ todspCtl = .idle
  | .wait => (togppCtl = .ack ∨ togppCtl = .idle) ∧ todspCtl = .idle
  | .done => togppCtl ≠ .ack
  | .finished => togppCtl = .done ∨ togppCtl = .idle ∧ todspCtl = .done

structure Recovering (r : Recovery σ) : Prop where
  message : r.sys.message.any C.initiates = false
  orderly : r.sys.dsp.Orderly C r.sys.todspCtl r.sys.togppCtl
  achieved : r.pc.Achieved r.sys.todspCtl r.sys.togppCtl

end

variable {σ : Type*} {C : Component σ} {start : σ} {s : System σ}
  {r : Recovery σ}

/-- The control word of a client that has sent a message. -/
@[simp]
def GppPhase.ctl : GppPhase → FastcallCtl
  | .asking | .acked => .req
  | .closing => .done
  | _ => .idle

theorem GppPc.Wrote.eq_ctl {pc : GppPc} {ctl : FastcallCtl}
    (h : pc.Wrote ctl) (hphase : pc.phase ≠ .outside) :
    ctl = pc.phase.ctl := by
  cases pc <;> simp_all [GppPc.phase]

theorem System.Recoverable.recovering (h : s.Recoverable C)
    (hs : Handshake C start s) (hcur : s.Current) :
    Recovering C ⟨s, .start⟩ := by
  obtain ⟨hentering, hreq⟩ := h
  obtain ⟨hphase, hreplied⟩ := hcur
  have hb := hs.beside
  have hw := hs.togppCtl
  have ht := hs.todspCtl.eq_ctl hphase
  unfold System.Entering at hentering
  refine ⟨?_, ?_, trivial⟩
  · cases hd : s.dsp with
    | mailbox => simpa [hd] using hentering
    | _ => simp [(hs.quiet (by simp [hd])).1]
  · -- Only the phase of the client matters, and it is known to be one of few.
    generalize s.gpp.phase = phase at *
    show s.dsp.Orderly C s.todspCtl s.togppCtl
    rw [ht, hw] at hreq ⊢
    cases hd : s.dsp <;> cases phase <;> simp_all

/-! ## Steps -/

/-- What has been achieved is kept while the DSP goes on. -/
theorem Recovering.dsp (h : Recovering C r) :
    Recovering C { r with sys := dspStep C r.sys } := by
  obtain ⟨hm, ho, ha⟩ := h
  unfold dspStep
  cases hd : r.sys.dsp with
  | mailbox =>
      rw [hd] at ho
      cases hmsg : r.sys.message with
      | none => exact ⟨hm, by simpa [hd] using ho, ha⟩
      | some m => exact ⟨rfl, ⟨ho, by simpa [hmsg] using hm⟩, ha⟩
  | exec m =>
      rw [hd] at ho
      obtain ⟨hctl, hinit⟩ := ho
      refine ⟨hm, ?_, ha⟩
      simp only [hinit, Bool.false_eq_true, if_false]
      split_ifs <;> simp [hctl]
  | check =>
      rw [hd] at ho
      refine ⟨hm, ?_, ha⟩
      dsimp only
      split_ifs with hctl
      · exact ho.resolve_left (by rw [hctl]; decide)
      · exact ho.resolve_right fun h => hctl h.1
  | poll =>
      rw [hd] at ho
      obtain ⟨hctl, htodsp⟩ := ho
      dsimp only
      split_ifs with hidle
      · exact ⟨hm, by rw [hd]; exact ⟨hctl, htodsp⟩, ha⟩
      · exact ⟨hm, ⟨hctl, htodsp.resolve_left hidle⟩, ha⟩
  | test =>
      rw [hd] at ho
      refine ⟨hm, ?_, ha⟩
      simpa [ho.2] using ho.1
  | done =>
      rw [hd] at ho
      refine ⟨hm, rfl, ?_⟩
      cases hpc : r.pc <;> rw [hpc] at ha <;> simp_all
  | reply =>
      rw [hd] at ho
      exact ⟨hm, ho, ha⟩
  | ackPoll =>
      rw [hd] at ho
      dsimp only
      split_ifs with hidle
      · exact ⟨hm, ⟨ho.1, hidle⟩, ha⟩
      · exact ⟨hm, by rw [hd]; exact ho, ha⟩
  | ackIdle =>
      rw [hd] at ho
      obtain ⟨hctl, htodsp⟩ := ho
      refine ⟨hm, ⟨rfl, Or.inl htodsp⟩, ?_⟩
      cases hpc : r.pc <;> rw [hpc] at ha <;> simp_all
  | _ =>
      rw [hd] at ho
      exact ho.elim

/-- `REQ` is never in the control word of the DSP. -/
theorem Recovering.togppCtl_cases (h : Recovering C r) :
    r.sys.togppCtl = .done ∨ r.sys.togppCtl = .idle ∨
      r.sys.togppCtl = .ack := by
  have ho := h.orderly
  cases hd : r.sys.dsp <;> rw [hd] at ho <;> simp_all
  tauto

theorem Recovering.release (h : Recovering C r) :
    Recovering C (mlbFastcallEnd r) := by
  have hcases := h.togppCtl_cases
  obtain ⟨hm, ho, ha⟩ := h
  unfold mlbFastcallEnd
  cases hpc : r.pc with
  | start =>
      refine ⟨hm, ho, ?_⟩
      obtain hctl | hctl | hctl := hcases <;> simp [hctl]
  | ackIdle =>
      rw [hpc] at ha
      refine ⟨hm, ?_, ?_⟩
      · cases hd : r.sys.dsp <;> rw [hd] at ho <;> simp_all
        tauto
      · simp_all
        tauto
  | wait =>
      rw [hpc] at ha
      dsimp only
      split_ifs with hidle
      · exact ⟨hm, ho, by simp [hidle]⟩
      · exact ⟨hm, ho, by rw [hpc]; exact ha⟩
  | done =>
      rw [hpc] at ha
      refine ⟨hm, ?_, ?_⟩
      · cases hd : r.sys.dsp <;> rw [hd] at ho <;> simp_all
      · obtain hctl | hctl | hctl := hcases
        · exact Or.inl hctl
        · exact Or.inr ⟨hctl, rfl⟩
        · exact absurd hctl ha
  | finished =>
      exact ⟨hm, ho, by rw [hpc] at ha ⊢; exact ha⟩

theorem Recovering.of_reachable (h : Recovering C ⟨s, .start⟩)
    (hr : (recoveryMachine C s).Reachable r) : Recovering C r := by
  refine hr.invariant (fun r heq => ?_) fun r e r' hr hstep => ?_
  · obtain rfl : r = ⟨s, .start⟩ := heq
    exact h
  · cases e with
    | release =>
        obtain rfl := Option.some.inj hstep
        exact hr.release
    | dsp =>
        obtain rfl := Option.some.inj hstep
        exact hr.dsp

/-! ## Getting out -/

/-- How far `mlb_fastcall_end` is from its end. -/
@[simp]
def EndPc.rank : EndPc → ℕ
  | .start => 4
  | .ackIdle => 3
  | .wait => 2
  | .done => 1
  | .finished => 0

/-- While it waits, the DSP comes nearer to the next request. -/
def Recovery.rank (r : Recovery σ) : ℕ :=
  20 * r.pc.rank + if r.pc = .wait then r.sys.dsp.rank else 0

theorem DspPc.rank_le (pc : DspPc) : pc.rank ≤ 17 := by
  cases pc <;> simp

/-- The DSP that `mlb_fastcall_end` waits for has seen the control word. -/
theorem Recovering.dspStep_of_wait (h : Recovering C r) (hpc : r.pc = .wait) :
    (dspStep C r.sys).togppCtl = .idle ∨
      (dspStep C r.sys).dsp.rank < r.sys.dsp.rank := by
  obtain ⟨-, ho, ha⟩ := h
  rw [hpc] at ha
  obtain ⟨hctl | hctl, htodsp⟩ := ha
  all_goals
    unfold dspStep
    cases hd : r.sys.dsp <;> rw [hd] at ho <;> simp_all

theorem Recovering.recoveryRound_rank (h : Recovering C r)
    (hpc : r.pc ≠ .finished) :
    (recoveryRound C r).pc = .finished ∨
      (recoveryRound C r).rank < r.rank := by
  have hcases := h.dsp.togppCtl_cases
  have hdsp := DspPc.rank_le (dspStep C r.sys).dsp
  unfold recoveryRound mlbFastcallEnd Recovery.rank
  cases hr : r.pc with
  | start =>
      obtain hctl | hctl | hctl := hcases <;> simp_all
  | ackIdle =>
      right
      simp only [EndPc.rank, if_true, reduceCtorEq, if_false]
      omega
  | wait =>
      right
      by_cases hidle : (dspStep C r.sys).togppCtl = .idle
      · simp only [hidle, EndPc.rank, reduceCtorEq, if_true, if_false]
        omega
      · have hlt := (h.dspStep_of_wait hr).resolve_left hidle
        simp only [hidle, EndPc.rank, if_true, if_false]
        omega
  | done => exact Or.inl rfl
  | finished => exact absurd hr hpc

theorem Recovering.ends (h : Recovering C r) :
    ∃ n, ((recoveryRound C)^[n] r).pc = .finished :=
  Machine.exists_iterate_of_rank (P := Recovering C)
    (Q := fun r => r.pc = .finished) Recovery.rank
    (fun _ h _ => h.dsp.release) (fun _ h hpc => h.recoveryRound_rank hpc) h

theorem Recovering.not_waits (h : Recovering C r) (hpc : r.pc = .finished) :
    ¬ r.sys.Waits := by
  obtain ⟨-, ho, ha⟩ := h
  rw [hpc] at ha
  rintro (⟨hd, hidle⟩ | ⟨hd, hidle⟩)
  · rw [hd] at ho
    simp_all
  · rw [hd] at ho
    simp_all

theorem Recovering.dspStep_rank (h : Recovering C r) (hpc : r.pc = .finished)
    (hd : r.sys.dsp ≠ .mailbox) :
    (dspStep C r.sys).dsp = .mailbox ∨
      (dspStep C r.sys).dsp.rank < r.sys.dsp.rank := by
  obtain ⟨-, ho, ha⟩ := h
  rw [hpc] at ha
  unfold dspStep
  cases hdsp : r.sys.dsp with
  | mailbox => exact absurd hdsp hd
  | reply => exact Or.inl rfl
  | exec m =>
      rw [hdsp] at ho
      right
      simp only [ho.2, Bool.false_eq_true, if_false]
      split_ifs <;> simp
  | check =>
      right
      dsimp only
      split_ifs <;> simp
  | poll | ackPoll =>
      rw [hdsp] at ho
      simp_all
  | test =>
      rw [hdsp] at ho
      simp [ho.2]
  | done | ackIdle =>
      rw [hdsp] at ho
      simp
  | _ =>
      rw [hdsp] at ho
      exact ho.elim

theorem Recovering.leaves (h : Recovering C r) (hpc : r.pc = .finished) :
    ∃ n, ((dspStep C)^[n] r.sys).dsp = .mailbox :=
  Machine.exists_iterate_of_rank
    (P := fun s => Recovering C ⟨s, .finished⟩)
    (Q := fun s => s.dsp = .mailbox) (fun s => s.dsp.rank)
    (fun _ h _ => h.dsp) (fun _ h hd => h.dspStep_rank rfl hd) (hpc ▸ h)

/-! ## Staying in -/

theorem reachable_dspSteps (hr : (recoveryMachine C s).Reachable r) (n : ℕ) :
    (recoveryMachine C s).Reachable
      { r with sys := (dspStep C)^[n] r.sys } := by
  induction n generalizing r with
  | zero => exact hr
  | succ n ih =>
      rw [Function.iterate_succ_apply]
      exact ih (r := { r with sys := dspStep C r.sys })
        (hr.step (e := .dsp) rfl)

theorem GppPc.Wrote.of_opened {ctl : FastcallCtl} {pc : GppPc}
    (h : pc.Wrote ctl) (hpc : pc.phase = .opened) : ctl = .idle := by
  cases pc <;> simp_all [GppPc.phase]

theorem System.Entering.opened (h : s.Entering C)
    (hs : Handshake C start s) :
    s.gpp.phase = .opened ∧ s.togppCtl = .done := by
  have hb := hs.beside
  have hw := hs.togppCtl
  unfold System.Entering at h
  cases hd : s.dsp <;> rw [hd] at h hb hw
  case mailbox =>
    cases hm : s.message <;> simp_all [Component.phaseAfter]
  all_goals simp_all [Component.phaseAfter]

/-- The DSP is on its way to the first request of the sequence. -/
structure System.Opening (C : Component σ) (s : System σ) : Prop where
  idle : s.todspCtl = .idle
  dsp : match s.dsp with
    | .mailbox => ∃ m, s.message = some m ∧ C.initiates m = true
    | .exec m => C.initiates m = true
    | .initiate err => err = 0
    | .check => s.togppCtl = .idle
    | .poll => True
    | _ => False

theorem System.Entering.opening (h : s.Entering C)
    (hs : Handshake C start s) : s.Opening C := by
  refine ⟨hs.todspCtl.of_opened (h.opened hs).1, ?_⟩
  have hb := hs.beside
  unfold System.Entering at h
  cases hd : s.dsp <;> rw [hd] at h hb
  case mailbox => exact (Option.any_eq_true _ _).mp h
  case exec m => exact h
  case initiate err => exact hb.2
  all_goals exact h.elim

theorem System.Opening.dspStep (h : s.Opening C) (hd : s.dsp ≠ .poll) :
    (dspStep C s).Opening C ∧
      (Fastcall.dspStep C s).dsp.rank < s.dsp.rank := by
  obtain ⟨hidle, hdsp⟩ := h
  cases hpc : s.dsp <;> rw [hpc] at hdsp
  case mailbox =>
    obtain ⟨m, hm, hinit⟩ := hdsp
    refine ⟨⟨?_, ?_⟩, ?_⟩ <;> simp [Fastcall.dspStep, hpc, hm, hidle, hinit]
  case exec m =>
    have herr := C.exec_of_initiates s.comp m hdsp
    refine ⟨⟨?_, ?_⟩, ?_⟩ <;>
      simp [Fastcall.dspStep, hpc, hdsp, herr, hidle]
  case initiate err =>
    refine ⟨⟨?_, ?_⟩, ?_⟩ <;> simp [Fastcall.dspStep, hpc, hdsp, hidle]
  case check =>
    refine ⟨⟨?_, ?_⟩, ?_⟩ <;> simp [Fastcall.dspStep, hpc, hdsp, hidle]
  case poll => exact absurd hpc hd
  all_goals exact hdsp.elim

theorem System.Opening.exists_poll (h : s.Opening C) :
    ∃ n, ((Fastcall.dspStep C)^[n] s).Opening C ∧
      ((Fastcall.dspStep C)^[n] s).dsp = .poll :=
  Machine.exists_iterate_of_rank (P := System.Opening C)
    (Q := fun s : System σ => s.Opening C ∧ s.dsp = .poll)
    (fun s => s.dsp.rank)
    (fun _ h hq => (h.dspStep fun hd => hq ⟨h, hd⟩).1)
    (fun _ h hq => Or.inr (h.dspStep fun hd => hq ⟨h, hd⟩).2) h

/-- The DSP enters the sequence after `mlb_fastcall_end` has found nothing to
end. -/
theorem System.Entering.exists_waits (h : s.Entering C)
    (hs : Handshake C start s) :
    ∃ r, (recoveryMachine C s).Reachable r ∧ r.pc = .finished ∧
      r.sys.Waits := by
  obtain ⟨n, hopening, hpoll⟩ := (h.opening hs).exists_poll
  have hfinished : (recoveryMachine C s).Reachable ⟨s, .finished⟩ := by
    refine (Machine.Reachable.init rfl).step (e := .release) ?_
    show some (mlbFastcallEnd ⟨s, .start⟩) = _
    simp [mlbFastcallEnd, (h.opened hs).2]
  exact ⟨_, reachable_dspSteps hfinished n, rfl,
    Or.inl ⟨hpoll, hopening.idle⟩⟩

/-- The DSP serves the request that is in its control word. -/
structure System.Serving (s : System σ) : Prop where
  req : s.todspCtl = .req
  idle : s.togppCtl = .idle
  dsp : match s.dsp with
    | .check | .poll | .test | .readCmd | .readArg1 _ | .readArg2 _ _
    | .execFc _ | .ret1 _ | .ret2 _ | .ack => True
    | _ => False

theorem Handshake.serving (hs : Handshake C start s)
    (hreq : s.todspCtl = .req) (hidle : s.togppCtl = .idle) : s.Serving := by
  refine ⟨hreq, hidle, ?_⟩
  have hb := hs.beside
  have hw := hs.togppCtl
  have ht := hs.todspCtl
  cases hd : s.dsp <;> simp_all
  all_goals
    cases hg : s.gpp <;> simp_all [GppPc.phase]

theorem System.Serving.dspStep (h : s.Serving) (hd : s.dsp ≠ .ack) :
    (dspStep C s).Serving ∧ (Fastcall.dspStep C s).dsp.rank < s.dsp.rank := by
  obtain ⟨hreq, hidle, hserving⟩ := h
  cases hdsp : s.dsp <;> rw [hdsp] at hserving
  case ack => exact absurd hdsp hd
  case check | poll | test =>
    refine ⟨⟨?_, ?_, ?_⟩, ?_⟩ <;>
      simp [Fastcall.dspStep, hdsp, hreq, hidle]
  case readCmd | readArg1 | readArg2 | execFc | ret1 | ret2 =>
    exact ⟨⟨by simpa [Fastcall.dspStep, hdsp], by simpa [Fastcall.dspStep, hdsp],
      by simp [Fastcall.dspStep, hdsp]⟩, by simp [Fastcall.dspStep, hdsp]⟩
  all_goals exact hserving.elim

theorem System.Serving.exists_ack (h : s.Serving) :
    ∃ n, ((Fastcall.dspStep C)^[n] s).Serving ∧
      ((Fastcall.dspStep C)^[n] s).dsp = .ack :=
  Machine.exists_iterate_of_rank (P := System.Serving)
    (Q := fun s : System σ => s.Serving ∧ s.dsp = .ack) (fun s => s.dsp.rank)
    (fun _ h hq => (h.dspStep fun hd => hq ⟨h, hd⟩).1)
    (fun _ h hq => Or.inr (h.dspStep fun hd => hq ⟨h, hd⟩).2) h

/-- The DSP acknowledges a request after `mlb_fastcall_end` has given up the
sequence, and waits for the control word to be `IDLE` again. -/
theorem System.Serving.exists_waits (h : s.Serving) :
    ∃ r, (recoveryMachine C s).Reachable r ∧ r.pc = .finished ∧
      r.sys.Waits := by
  obtain ⟨n, hserving, hack⟩ := h.exists_ack (C := C)
  have hstart : (recoveryMachine C s).Reachable
      ⟨(Fastcall.dspStep C)^[n] s, .start⟩ :=
    reachable_dspSteps (r := ⟨s, .start⟩) (Machine.Reachable.init rfl) n
  have hdone : (recoveryMachine C s).Reachable
      ⟨(Fastcall.dspStep C)^[n] s, .done⟩ := by
    refine hstart.step (e := .release) ?_
    show some (mlbFastcallEnd _) = _
    simp [mlbFastcallEnd, hserving.idle]
  have hfinished : (recoveryMachine C s).Reachable
      ⟨{ (Fastcall.dspStep C)^[n] s with todspCtl := .done }, .finished⟩ :=
    hdone.step (e := .release) rfl
  have hacked := reachable_dspSteps hfinished 1
  refine ⟨_, hacked, rfl, Or.inr ?_⟩
  simp [Fastcall.dspStep, hack]

/-- When the current client of the driver dies in a fastcall sequence, the DSP
leaves it if and only if it has entered the sequence, and answered the last
request. -/
theorem recovers_iff_recoverable (hs : (fastcallMachine C start).Reachable s)
    (hcur : s.Current) : Recovers C s ↔ s.Recoverable C := by
  have h := handshake_of_reachable hs
  constructor
  · intro hrec
    by_contra hnot
    have hstuck : ∃ r, (recoveryMachine C s).Reachable r ∧ r.pc = .finished ∧
        r.sys.Waits := by
      by_cases hentering : s.Entering C
      · exact hentering.exists_waits h
      · have hreq : s.todspCtl = .req ∧ s.togppCtl = .idle := by
          by_contra hne
          exact hnot ⟨hentering, hne⟩
        exact (h.serving hreq.1 hreq.2).exists_waits
    obtain ⟨r, hr, hpc, hwaits⟩ := hstuck
    exact (hrec.leaves r hr hpc).1 hwaits
  · intro hrec
    have hstart := hrec.recovering h hcur
    exact {
      ends := fun r hr => (hstart.of_reachable hr).ends
      leaves := fun r hr hpc =>
        ⟨(hstart.of_reachable hr).not_waits hpc,
          (hstart.of_reachable hr).leaves hpc⟩ }

/-- The client dies when the DSP has acknowledged its first call, and it has
not seen this. -/
theorem demoCalcRun_recovers :
    ∃ s, s.gpp.phase = .asking ∧ s.togppCtl = .ack ∧
      Recovers demoCalcFastcall s := by
  have hrun : ∃ s, (fastcallMachine demoCalcFastcall ()).Reachable s ∧
      s.Current ∧ s.gpp.phase = .asking ∧ s.togppCtl = .ack ∧
      s.dsp = .ackPoll :=
    Machine.exists_reachable_of_run _ (demoCalcRun.take 24) (by decide)
  obtain ⟨s, hs, hcur, hphase, hack, hd⟩ := hrun
  refine ⟨s, hphase, hack, (recovers_iff_recoverable hs hcur).mpr ⟨?_, ?_⟩⟩
  · rw [System.Entering, hd]
    exact id
  · rw [hack]
    exact fun h => by cases h.2

/-- The client dies right after its message, and `mlb_fastcall_end` does
nothing.  Then the DSP enters the sequence, and nobody ends it. -/
theorem death_before_sequence_not_recovers :
    ∃ s, (fastcallMachine demoCalcFastcall ()).Reachable s ∧ s.Current ∧
      ¬ Recovers demoCalcFastcall s := by
  have hrun : ∃ s, (fastcallMachine demoCalcFastcall ()).Reachable s ∧
      s.Current ∧ (Machine.follow (recoveryNext demoCalcFastcall) ⟨s, .start⟩
        (.release :: List.replicate 4 .dsp)).any
          (fun r => r.pc = .finished ∧ r.sys.Waits) = true :=
    Machine.exists_reachable_of_run _ (demoCalcRun.take 4) (by decide)
  obtain ⟨s, hs, hcur, hstuck⟩ := hrun
  obtain ⟨r, hr, hpc, hwaits⟩ := Machine.exists_reachable_of_run
    (fun r : Recovery Unit => r.pc = .finished ∧ r.sys.Waits) _ hstuck
  exact ⟨s, hs, hcur, fun h => (h.leaves r hr hpc).1 hwaits⟩

end C64Tools.Fastcall
