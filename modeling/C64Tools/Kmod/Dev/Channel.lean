import C64Tools.Kmod.Dev.Slots

/-!
# The message channel

The ready flag is cleared when a message is sent and set by the interrupt that
brings the answer.  As long as messages are sent to a running DSP and the DSP
is not switched off by `PWR_OFF` before it has answered, whoever finds the flag
cleared waits for the answer of one message, and the DSP will give it.
-/

namespace C64Tools.Kmod

open Transition

/-- Exactly one message is outstanding, the DSP that received it was not
stopped since, and the interrupt that brings the answer is enabled. -/
def Driver.Outstanding (d : Driver) : Prop :=
  ∃ r, d.unanswered ++ d.inbox = [r] ∧ d.power.executing = true ∧
    r.boot = d.power.resets ∧ d.irqEnable = true

/-- Unless a message is being sent, a cleared ready flag means that an answer
will come. -/
def Driver.Answerable (d : Driver) : Prop :=
  d.ready = false → (∀ who next, d.crit ≠ .sending who next) → d.Outstanding

/-- No test message is written. -/
def Event.NoTestMsg : Event → Prop
  | .writeFile _ (.testMsg _) => False
  | _ => True

/-- The message is about to be written. -/
def Crit.kicking : Crit → Bool
  | .sending _ .kick => true
  | _ => false

/-- Messages are written to a running DSP, and `PWR_OFF` does not switch off a
DSP that still has to answer. -/
def KeepsDspRunning (d : Driver) : Event → Prop
  | .ioctl filep (.pwrOff _ true) =>
      ∀ i ∈ d.findClientByFilep filep, d.powerMask.erase i = ∅ →
        d.power.dspState ≠ .off → d.ready = true
  | .proc o => d.crit.kicking = true → o.fifoFull = false →
      d.power.executing = true
  | _ => True

/-! ## The invariant -/

/-- The channel at each step of `mlb_send_to_dsp`. -/
def Driver.ChannelInPhase (d : Driver) : Prop :=
  match d.crit with
  | .testCopied _ _ => False
  | .sending who next =>
      who.isTest = false ∧
        match next with
        | .check => True
        | .clear => d.ready = true
        | .reset => d.ready = false ∧ d.unanswered = [] ∧ d.inbox = []
        | .kick =>
            d.ready = false ∧ d.unanswered = [] ∧ d.inbox = [] ∧
              d.irqEnable = true
  | _ => True

/-- The mailbox is being reset or the message written. -/
def Crit.publishing : Crit → Bool
  | .sending _ .reset | .sending _ .kick => true
  | _ => false

structure Channel (d : Driver) : Prop where
  offIdle : d.power.OffIdle
  ready_empty : d.ready = true → d.unanswered = [] ∧ d.inbox = []
  outstanding : d.ready = false → d.crit.publishing = false → d.Outstanding
  phase : d.ChannelInPhase

theorem initial_channel (ram : DspMemRegion) :
    Channel (Driver.initial ram) where
  offIdle := initial_offIdle ram
  ready_empty _ := ⟨rfl, rfl⟩
  outstanding h := by cases h
  phase := trivial

/-- The process goes on outside `mlb_send_to_dsp`, or begins to send. -/
def Crit.Quiet : Crit → Prop
  | .testCopied _ _ => False
  | .sending who next => who.isTest = false ∧ next = .check
  | _ => True

/-- Nothing that the channel consists of is different. -/
structure SameChannel (d d' : Driver) : Prop where
  ready : d'.ready = d.ready
  irqEnable : d'.irqEnable = d.irqEnable
  inbox : d'.inbox = d.inbox
  unanswered : d'.unanswered = d.unanswered

theorem channelInPhase_of_quiet {d : Driver} (h : d.crit.Quiet) :
    d.ChannelInPhase := by
  unfold Driver.ChannelInPhase
  cases hcrit : d.crit with
  | testCopied filep val =>
      rw [hcrit] at h
      exact h
  | sending who next =>
      rw [hcrit] at h
      obtain ⟨hwho, rfl⟩ := h
      exact ⟨hwho, trivial⟩
  | _ => trivial

theorem Channel.of_quiet {d d' : Driver} (h : Channel d)
    (hsame : SameChannel d d') (hpower : d'.power = d.power)
    (hcrit : d.crit.publishing = false) (hquiet : d'.crit.Quiet) :
    Channel d' where
  offIdle := by
    rw [hpower]
    exact h.offIdle
  ready_empty hready := by
    rw [hsame.unanswered, hsame.inbox]
    exact h.ready_empty (hsame.ready ▸ hready)
  outstanding hready _ := by
    unfold Driver.Outstanding
    rw [hsame.unanswered, hsame.inbox, hsame.irqEnable, hpower]
    exact h.outstanding (hsame.ready ▸ hready) hcrit
  phase := channelInPhase_of_quiet hquiet

/-- Unless the channel is ready, a DSP that executes its program goes on. -/
theorem Channel.of_power {d : Driver} (h : Channel d) {p : DspC64}
    (powerMask : Finset Slot) (hoff : p.OffIdle)
    (hkeep : d.ready = false → d.power.executing = true →
      p.executing = true ∧ p.resets = d.power.resets) :
    Channel { d.setDsp p with powerMask } where
  offIdle := hoff
  ready_empty := h.ready_empty
  outstanding hready hcrit := by
    obtain ⟨r, hr, hexec, hboot, henable⟩ := h.outstanding hready hcrit
    obtain ⟨hexec', hresets⟩ := hkeep hready hexec
    exact ⟨r, hr, hexec', hboot.trans hresets.symm, henable⟩
  phase := h.phase

/-- `dsp_resume` leaves a DSP alone that executes its program. -/
theorem dspResume_of_executing {p : DspC64} (h : p.OffIdle)
    (hexec : p.executing = true) (o : PowerOutcome) :
    (dspResume o p).2 = p :=
  dspResume_of_on (fun hoff => by simp [h hoff] at hexec) o

theorem dspPoweronAndReset_of_executing {p : DspC64} (h : p.OffIdle)
    (hexec : p.executing = true) (o : PowerOutcome) :
    (dspPoweronAndReset o p).2 = p :=
  dspPoweronAndReset_of_on (fun hoff => by simp [h hoff] at hexec) o

theorem PowerStep.offIdle {i : Slot} {d : Driver} {cmd : IoctlCmd}
    {p : DspC64} (hstep : PowerStep i d cmd p) (h : d.dsp.OffIdle) :
    p.OffIdle := by
  cases hstep with
  | keep => exact h
  | pwrOnRst => exact dspPoweronAndReset_offIdle h _
  | start => exact dspStart_offIdle h _ _
  | pwrOff _ => exact dspPoweroff_offIdle h _
  | resume => exact dspResume_offIdle h _

theorem Channel.ioctl {d d' : Driver} {filep : ℕ} {cmd : IoctlCmd} {i : Slot}
    (h : Channel d) (hok : KeepsDspRunning d (.ioctl filep cmd))
    (hfound : d.findClientByFilep filep = some i)
    (heff : IoctlEffect i d cmd d') : Channel d' := by
  have hoff : d.dsp.OffIdle := h.offIdle
  cases heff with
  | power hpower =>
      refine h.of_power _ (hpower.offIdle hoff) fun hready hexec => ?_
      have hexec : d.dsp.executing = true := hexec
      cases hpower with
      | keep => exact ⟨hexec, rfl⟩
      | pwrOnRst =>
          rw [dspPoweronAndReset_of_executing hoff hexec]
          exact ⟨hexec, rfl⟩
      | start => exact ⟨dspStart_executing _ _ hexec, dspStart_resets _ _ _⟩
      | pwrOff hmask =>
          have hon : d.power.dspState ≠ .off :=
            fun hstate => by simp [hoff hstate] at hexec
          simp [hok i hfound hmask hon] at hready
      | resume =>
          rw [dspResume_of_executing hoff hexec]
          exact ⟨hexec, rfl⟩
  | reserve _ => exact ⟨hoff, h.ready_empty, h.outstanding, h.phase⟩
  | giveBack _ => exact ⟨hoff, h.ready_empty, h.outstanding, h.phase⟩
  | ref => exact ⟨hoff, h.ready_empty, h.outstanding, h.phase⟩

/-- A refused message leaves the channel as it was. -/
theorem channel_sendFailed {d : Driver} (hoff : d.power.OffIdle)
    (hempty : d.ready = true → d.unanswered = [] ∧ d.inbox = [])
    (hout : d.ready = false → d.Outstanding) (who : Sender) :
    Channel (sendFailed who d) := by
  cases who <;> exact ⟨hoff, hempty, fun hready _ => hout hready, trivial⟩

/-- The message that was written is the only one that is outstanding. -/
theorem channel_sendSucceeded {d : Driver} (hoff : d.power.OffIdle)
    (hready : d.ready = false) (hun : d.unanswered = []) (hin : d.inbox = [])
    (henable : d.irqEnable = true) (hexec : d.power.executing = true)
    (who : Sender) : Channel (sendSucceeded who (publish who d)) := by
  have hout : (sendSucceeded who (publish who d)).Outstanding := by
    refine ⟨⟨d.nextId, who, writtenMsg who d, d.power.resets⟩, ?_⟩
    cases who <;>
      simp [sendSucceeded, publish, Driver.observe, Driver.wrote, hun, hin,
        hexec, henable]
  refine ⟨?_, fun h => ?_, fun _ _ => hout, ?_⟩
  · rw [(sendSucceeded_keeps who d).power]
    exact hoff
  · cases who <;>
      simp [sendSucceeded, publish, Driver.observe, Driver.wrote, hready] at h
  · cases who <;> trivial

theorem Channel.send {d : Driver} {who : Sender} {next : SendStep}
    {o : ProcOutcome} (h : Channel d) (hok : KeepsDspRunning d (.proc o))
    (hcrit : d.crit = .sending who next) :
    Channel (mlbSendToDsp who next o.fifoFull d) := by
  have hphase := h.phase
  simp only [Driver.ChannelInPhase, hcrit] at hphase
  obtain ⟨hwho, hphase⟩ := hphase
  have hout := h.outstanding
  rw [hcrit] at hout
  rcases mlbSendToDsp_cases who next o.fifoFull d with
    ⟨rfl, hready, heq⟩ | ⟨rfl, hready, -, heq⟩ | ⟨rfl, heq⟩ | ⟨rfl, heq⟩ |
    ⟨rfl, hfull, heq⟩ | ⟨rfl, hfull, heq⟩ <;> rw [heq]
  · have hready : d.ready = true := by simpa [hwho] using hready
    exact ⟨h.offIdle, h.ready_empty, fun hr _ => hout hr rfl, hwho, hready⟩
  · exact channel_sendFailed h.offIdle h.ready_empty
      (fun _ => hout hready rfl) who
  · obtain ⟨hun, hin⟩ := h.ready_empty hphase
    exact ⟨h.offIdle, nofun, nofun, hwho, rfl, hun, hin⟩
  · obtain ⟨hready, hun, -⟩ := hphase
    exact ⟨h.offIdle, fun _ => ⟨hun, rfl⟩, nofun, hwho, hready, hun, rfl, rfl⟩
  · obtain ⟨-, hun, hin, -⟩ := hphase
    exact @channel_sendFailed { d with ready := true } h.offIdle
      (fun _ => ⟨hun, hin⟩) nofun who
  · obtain ⟨hready, hun, hin, henable⟩ := hphase
    exact channel_sendSucceeded h.offIdle hready hun hin henable
      (hok (by rw [hcrit]; rfl) hfull) who

/-- An outstanding message is found only where the process is not sending, or
looks at the ready flag. -/
theorem Channel.quiet_of_outstanding {d : Driver} (h : Channel d)
    (hne : d.unanswered ≠ [] ∨ d.inbox ≠ []) :
    d.ready = false ∧ d.crit.publishing = false ∧ d.crit.Quiet := by
  have hready : d.ready = false := by
    by_contra hready
    obtain ⟨hun, hin⟩ := h.ready_empty (Bool.eq_true_of_not_eq_false hready)
    exact hne.elim (· hun) (· hin)
  have hphase := h.phase
  unfold Driver.ChannelInPhase at hphase
  refine ⟨hready, ?_⟩
  cases hcrit : d.crit with
  | testCopied filep val =>
      rw [hcrit] at hphase
      exact hphase.elim
  | sending who next =>
      simp only [hcrit] at hphase
      obtain ⟨hwho, hphase⟩ := hphase
      cases next with
      | check => exact ⟨rfl, hwho, rfl⟩
      | clear => simp [hready] at hphase
      | reset => exact absurd hne (by simp [hphase.2])
      | kick => exact absurd hne (by simp [hphase.2])
  | _ => exact ⟨rfl, trivial⟩

/-- The DSP answers the outstanding message. -/
theorem Channel.answered {d : Driver} {r : Request} (h : Channel d)
    (hr : r ∈ d.unanswered) (regs : IpcRegs) (log : List Obs) :
    Channel { d with
      regs
      inbox := d.inbox ++ [r]
      unanswered := d.unanswered.filter fun q => q.id ≠ r.id
      log } := by
  obtain ⟨hready, hcrit, hquiet⟩ :=
    h.quiet_of_outstanding (Or.inl (List.ne_nil_of_mem hr))
  obtain ⟨q, hq, hexec, hboot, henable⟩ := h.outstanding hready hcrit
  obtain ⟨hun, hin⟩ : d.unanswered = [q] ∧ d.inbox = [] := by
    rcases List.append_eq_singleton_iff.mp hq with ⟨hun, -⟩ | hboth
    · rw [hun] at hr
      cases hr
    · exact hboth
  obtain rfl : r = q := by simpa [hun] using hr
  refine ⟨h.offIdle, fun hset => ?_, fun _ _ => ?_,
    channelInPhase_of_quiet hquiet⟩
  · cases hready.symm.trans hset
  · exact ⟨r, by simp [hun, hin], hexec, hboot, henable⟩

/-- The interrupt handler takes the answer. -/
theorem Channel.irq {d d' : Driver} (h : Channel d) (hinbox : d.inbox ≠ [])
    (hready : d'.ready = true) (hin : d'.inbox = [])
    (hun : d'.unanswered = d.unanswered) (hpower : d'.power = d.power)
    (hcrit : d'.crit = d.crit) : Channel d' := by
  obtain ⟨hwaiting, hpublishing, hquiet⟩ :=
    h.quiet_of_outstanding (Or.inr hinbox)
  obtain ⟨q, hq, -⟩ := h.outstanding hwaiting hpublishing
  have hempty : d.unanswered = [] := by
    rcases List.append_eq_singleton_iff.mp hq with ⟨hempty, -⟩ | ⟨-, hboth⟩
    · exact hempty
    · exact absurd hboth hinbox
  refine ⟨?_, fun _ => ⟨hun.trans hempty, hin⟩, fun hclear => ?_,
    channelInPhase_of_quiet (hcrit ▸ hquiet)⟩
  · rw [hpower]
    exact h.offIdle
  · cases hready.symm.trans hclear

theorem Channel.step {d d' : Driver} {e : Event} (h : Channel d)
    (htest : e.NoTestMsg) (hok : KeepsDspRunning d e)
    (hstep : DriverStep d e d') : Channel d' := by
  have hphase := h.phase
  cases hstep with
  | nothingToRead | ioctlUnknown => exact h
  | openFailed | opened | readFound | readCopied | readFailed =>
      exact ⟨h.offIdle, h.ready_empty, h.outstanding, h.phase⟩
  | ioctl _ hfound heff => exact h.ioctl hok hfound heff
  | send hcrit => exact h.send hok hcrit
  | answered hr hid _ _ =>
      subst hid
      exact h.answered hr _ _
  | irqReply _ hinbox _ _ | irqIgnored _ hinbox _ =>
      exact h.irq hinbox rfl rfl rfl rfl rfl
  | writeTest => exact htest.elim
  | testCurrent hcrit =>
      simp only [Driver.ChannelInPhase, hcrit] at hphase
  | @relHeld o i s hcrit _ =>
      have hquiet : Channel { d with crit := .relWait i s } :=
        h.of_quiet ⟨rfl, rfl, rfl, rfl⟩ rfl (by rw [hcrit]; rfl) trivial
      have hoff : d.dsp.OffIdle := h.offIdle
      refine hquiet.of_power d.powerMask (dspResume_offIdle hoff _)
        fun _ hexec => ?_
      have hexec : d.dsp.executing = true := hexec
      rw [dspResume_of_executing hoff hexec]
      exact ⟨hexec, rfl⟩
  | @relSynced o hcrit hready =>
      have hquiet : Channel { d with crit := .idle } :=
        h.of_quiet ⟨rfl, rfl, rfl, rfl⟩ rfl (by rw [hcrit]; rfl) trivial
      have hoff : d.dsp.OffIdle := h.offIdle
      refine hquiet.of_power d.powerMask ?_ fun hclear => ?_
      · exact ite_dspPoweroff_offIdle _ _ _ hoff
      · cases hready.symm.trans hclear
  | relReset hcrit =>
      refine h.of_quiet ⟨rfl, rfl, rfl, rfl⟩ rfl (by rw [hcrit]; rfl) ?_
      simp only
      split_ifs <;> trivial
  | released hcrit | writeMsg hcrit | writeFault hcrit | writeError hcrit
  | setCurrent hcrit | setPending hcrit | resetCurrent hcrit
  | resetState hcrit | relNotCurrent hcrit | relIsCurrent hcrit
  | relFastcall hcrit | relFree hcrit | relNotHeld hcrit | relChecked hcrit
  | relReady hcrit | relTimeout hcrit | relMark hcrit | relBusy hcrit =>
      exact h.of_quiet ⟨rfl, rfl, rfl, rfl⟩ rfl (by rw [hcrit]; rfl)
        (by trivial)

theorem channel_of_reachable {ram : DspMemRegion} {d : Driver}
    (hd : ((driverMachine ram).restrict fun d e =>
      e.NoTestMsg ∧ KeepsDspRunning d e).Reachable d) : Channel d :=
  driver_invariant (initial_channel ram)
    (fun _ _ _ h hok => h.step hok.1 hok.2) hd

theorem Channel.answerable {d : Driver} (h : Channel d) : d.Answerable := by
  intro hready hcrit
  refine h.outstanding hready ?_
  unfold Crit.publishing
  split
  next who hsend => exact absurd hsend (hcrit who _)
  next who hsend => exact absurd hsend (hcrit who _)
  next => rfl

/-- After `PWR_OFF` stopped the DSP before it answered, or after a message was
written to a DSP that does not run, no answer will come. -/
theorem keepsDspRunning_of_answerable {d d' : Driver} {e : Event}
    (h : Channel d) (hstep : driverNext d e = some d') (hd' : d'.Answerable) :
    KeepsDspRunning d e := by
  unfold KeepsDspRunning
  split
  next filep o =>
    intro i hi hmask hon
    obtain ⟨hcrit, ⟨⟩⟩ := Option.ite_none_right_eq_some.mp hstep
    have hcrit : d.crit = .idle := hcrit.resolve_right nofun
    have heq : (fopsUnlockedIoctl filep (.pwrOff o true) d).2 =
        { d.setDsp (dspPoweroff o d.dsp).2 with
          powerMask := d.powerMask.erase i } := by
      rw [fopsUnlockedIoctl, Option.mem_def.mp hi]
      simp [ioctlClient, ioctlPwrOff, hmask, Driver.dsp, Driver.setDsp]
    rw [heq] at hd'
    by_contra hready
    obtain ⟨r, -, hexec, -⟩ := hd' (Bool.eq_false_of_not_eq_true hready)
      fun who next hsend => by simp [hcrit] at hsend
    have hon : d.dsp.dspState ≠ .off := hon
    simp [dspPoweroff_executing hon o] at hexec
  next o =>
    intro hkick hfull
    obtain ⟨who, hcrit⟩ : ∃ who, d.crit = .sending who .kick := by
      unfold Crit.kicking at hkick
      split at hkick
      next who hcrit => exact ⟨who, hcrit⟩
      next => cases hkick
    have heq : d' = sendSucceeded who (publish who d) := by
      simpa [driverNext, procStep, hcrit, mlbSendToDsp, hfull, eq_comm]
        using hstep
    have hphase := h.phase
    simp only [Driver.ChannelInPhase, hcrit] at hphase
    have hready : d'.ready = false := by
      rw [heq]
      cases who <;> exact hphase.2.1
    obtain ⟨r, -, hexec, -⟩ := hd' hready fun who' next hsend => by
      rw [heq] at hsend
      cases who <;> cases hsend
    rw [heq, (sendSucceeded_keeps who d).power] at hexec
    exact hexec
  next => trivial

/-! ## The channel over whole runs -/

/-- As long as messages go to a running DSP and `PWR_OFF` leaves it on until it
has answered, a cleared ready flag means that exactly one message is
outstanding and will be answered; and any other step breaks this at once. -/
theorem answerable_of_keepsDspRunning {ram : DspMemRegion} {d : Driver}
    (hd : ((driverMachine ram).restrict fun d e =>
      e.NoTestMsg ∧ KeepsDspRunning d e).Reachable d) :
    d.Answerable ∧
      ∀ e d', driverNext d e = some d' → e.NoTestMsg →
        (d'.Answerable ↔ KeepsDspRunning d e) := by
  have h := channel_of_reachable hd
  refine ⟨h.answerable, fun e d' hstep htest =>
    ⟨keepsDspRunning_of_answerable h hstep, fun hok => ?_⟩⟩
  exact (channel_of_reachable
    (Machine.Reachable.step hd ⟨⟨htest, hok⟩, hstep⟩)).answerable

instance (e : Event) : Decidable e.NoTestMsg := by
  unfold Event.NoTestMsg
  split <;> infer_instance

instance (d : Driver) (e : Event) : Decidable (KeepsDspRunning d e) := by
  unfold KeepsDspRunning
  split <;> infer_instance

/-- The memory of the DSP program in the runs below. -/
def runRam : DspMemRegion := ⟨0x87000000, 0, 0x1000⟩

/-- The DSP is started, and a client sends a message. -/
def startedRun : List Event :=
  [.openFile c64DevMinor 1, .ioctl 1 (.pwrOnRst ProcOutcome.smooth.power),
    .ioctl 1 (.start ProcOutcome.smooth.power 0x87000000),
    .ioctl 1 (.resume ProcOutcome.smooth.power),
    .writeFile 1 (.msg (.readable ⟨0x10001, 2, 3⟩))] ++
    List.replicate 6 (.proc .smooth)

theorem startedRun_answerable :
    ∃ d : Driver, (d.ready = false ∧ d.crit = .idle) ∧ d.Outstanding := by
  have hrun : ∃ d, ((driverMachine runRam).restrict fun d e =>
      e.NoTestMsg ∧ KeepsDspRunning d e).Reachable d ∧
      d.ready = false ∧ d.crit = .idle :=
    Machine.exists_restrict_reachable_of_run _ startedRun (by decide)
  obtain ⟨d, hd, hready, hidle⟩ := hrun
  exact ⟨d, ⟨hready, hidle⟩, (answerable_of_keepsDspRunning hd).1 hready
    fun who next hsend => by simp [hidle] at hsend⟩

/-- The client switches the DSP off before the answer came. -/
theorem pwrOff_wedges_channel :
    ∃ d, ((driverMachine runRam).restrict fun _ e => e.NoTestMsg).Reachable d ∧
      d.crit = .idle ∧ d.ready = false ∧ d.power.executing = false ∧
      ¬d.Answerable := by
  have hrun : ∃ d, ((driverMachine runRam).restrict fun _ e =>
      e.NoTestMsg).Reachable d ∧
      d.crit = .idle ∧ d.ready = false ∧ d.power.executing = false :=
    Machine.exists_restrict_reachable_of_run _
      (startedRun ++ [.ioctl 1 (.pwrOff ProcOutcome.smooth.power true)])
      (by decide)
  obtain ⟨d, hd, hidle, hready, hexec⟩ := hrun
  refine ⟨d, hd, hidle, hready, hexec, fun hans => ?_⟩
  obtain ⟨r, -, hrunning, -⟩ := hans hready fun who next hsend => by
    simp [hidle] at hsend
  cases hexec.symm.trans hrunning

end C64Tools.Kmod
