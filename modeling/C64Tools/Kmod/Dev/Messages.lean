import C64Tools.Kmod.Dev.Routing

/-!
# Steps that write or answer a message

All other steps leave the messages that the DSP has not answered and the history
of messages and answers alone.  The registers shared with the DSP keep the
message as long as the DSP runs: switching it on or starting it writes the boot
mode in its place.
-/

namespace C64Tools.Kmod

/-- A message is written or answered. -/
def Obs.Carries : Obs → Prop
  | .accepted _ _ _ | .answered _ _ _ => True
  | _ => False

/-- No message is written, and none is answered.  Unless it is reset, a DSP that
runs is left alone, with its registers. -/
structure NoMessage (d d' : Driver) : Prop where
  steady : d.power.dspState = .running → d'.power.resets = d.power.resets →
    d'.dsp = d.dsp
  errno : d'.regs.errno = d.regs.errno
  unanswered : d'.unanswered = d.unanswered
  resets : d.power.resets ≤ d'.power.resets
  log : d'.log = d.log ∨ ∃ o, ¬o.Carries ∧ d'.log = o :: d.log

theorem NoMessage.mem_log {d d' : Driver} (h : NoMessage d d') {o : Obs}
    (ho : o.Carries) : o ∈ d'.log ↔ o ∈ d.log := by
  rcases h.log with hlog | ⟨o', ho', hlog⟩ <;> rw [hlog]
  rw [List.mem_cons]
  refine or_iff_right ?_
  rintro rfl
  exact ho' ho

theorem NoMessage.mem_accepted {d d' : Driver} (h : NoMessage d d') {i : Slot}
    {id : ℕ} {q : DspMsg} :
    .accepted i id q ∈ d'.log ↔ .accepted i id q ∈ d.log :=
  h.mem_log (o := .accepted i id q) trivial

theorem NoMessage.mem_answered {d d' : Driver} (h : NoMessage d d')
    {id r₀ r₁ : ℕ} :
    .answered id r₀ r₁ ∈ d'.log ↔ .answered id r₀ r₁ ∈ d.log :=
  h.mem_log (o := .answered id r₀ r₁) trivial

/-- The DSP has not been reset since a message was written. -/
theorem NoMessage.resets_of_boot {d d' : Driver} (hno : NoMessage d d')
    (hflight : OneInFlight d) {r : Request} (hr : r ∈ d'.unanswered)
    (hboot : r.boot = d'.power.resets) : d'.power.resets = d.power.resets := by
  rw [hno.unanswered] at hr
  have hle := hflight.boot_le r hr
  rw [hboot] at hle
  exact Nat.le_antisymm hle hno.resets

theorem NoMessage.answeredIds {d d' : Driver} (h : NoMessage d d') :
    answeredIds d'.log = answeredIds d.log := by
  rcases h.log with hlog | ⟨o, ho, hlog⟩ <;> rw [hlog]
  cases o with
  | accepted i id m => exact absurd trivial ho
  | answered id r₀ r₁ => exact absurd trivial ho
  | _ => rfl

/-- A client waits for the reply to a message that was accepted. -/
theorem mem_of_awaited {i : Slot} {id : ℕ} {q : DspMsg} {log : List Obs}
    (h : awaited i log = some (id, q)) : .accepted i id q ∈ log := by
  induction log with
  | nil => cases h
  | cons o log ih =>
      cases o with
      | opened j =>
          have hlog := (Option.ite_none_left_eq_some.mp h).2
          exact List.mem_cons_of_mem _ (ih hlog)
      | delivered j m =>
          have hlog := (Option.ite_none_left_eq_some.mp h).2
          exact List.mem_cons_of_mem _ (ih hlog)
      | accepted j id' m =>
          by_cases hj : j = i
          · subst hj
            cases Option.some.inj ((if_pos rfl).symm.trans h)
            exact List.mem_cons_self
          · exact List.mem_cons_of_mem _ (ih ((if_neg hj).symm.trans h))
      | _ => exact List.mem_cons_of_mem _ (ih h)

theorem mem_acceptedIds {i : Slot} {id : ℕ} {q : DspMsg} {log : List Obs}
    (h : .accepted i id q ∈ log) : id ∈ acceptedIds log :=
  List.mem_filterMap.mpr ⟨_, h, rfl⟩

/-- Nothing but the history and what the processes keep is different. -/
theorem noMessage_of_same {d d' : Driver} (hdsp : d'.dsp = d.dsp)
    (hun : d'.unanswered = d.unanswered)
    (hlog : d'.log = d.log ∨ ∃ o, ¬o.Carries ∧ d'.log = o :: d.log) :
    NoMessage d d' where
  steady _ _ := hdsp
  errno := congrArg (fun p : DspC64 => p.regs.errno) hdsp
  unanswered := hun
  resets := (congrArg (fun p : DspC64 => p.resets) hdsp).ge
  log := hlog

theorem PowerStep.steady {i : Slot} {d : Driver} {cmd : IoctlCmd} {p : DspC64}
    (h : PowerStep i d cmd p) (hrun : d.dsp.dspState = .running)
    (hresets : p.resets = d.dsp.resets) : p = d.dsp := by
  have hon : d.dsp.dspState ≠ .off := by
    rw [hrun]
    decide
  cases h with
  | keep => rfl
  | pwrOnRst => exact dspPoweronAndReset_of_on hon _
  | start => exact dspStart_of_running hrun _ _
  | pwrOff _ => exact absurd hresets (Nat.ne_of_gt (dspPoweroff_resets_lt hon _))
  | resume => exact dspResume_of_on hon _

theorem IoctlEffect.noMessage {i : Slot} {d d' : Driver} {cmd : IoctlCmd}
    (h : IoctlEffect i d cmd d') : NoMessage d d' := by
  cases h with
  | power hpower =>
      exact ⟨hpower.steady, hpower.keepsMessage.errno, rfl, hpower.resets_le,
        Or.inl rfl⟩
  | reserve _ => exact noMessage_of_same rfl rfl (Or.inl rfl)
  | giveBack _ => exact noMessage_of_same rfl rfl (Or.inl rfl)
  | ref => exact noMessage_of_same rfl rfl (Or.inl rfl)

theorem sendFailed_noMessage (who : Sender) (d : Driver) :
    NoMessage d (sendFailed who d) := by
  cases who with
  | test filep val => exact noMessage_of_same rfl rfl (Or.inr ⟨_, id, rfl⟩)
  | _ => exact noMessage_of_same rfl rfl (Or.inl rfl)

theorem mlbSendToDsp_message_cases (who : Sender) (next : SendStep)
    (fifoFull : Bool) (d : Driver) :
    (next = .kick ∧ fifoFull = false ∧ mlbSendToDsp who next fifoFull d =
      sendSucceeded who (publish who d)) ∨
    NoMessage d (mlbSendToDsp who next fifoFull d) := by
  rcases mlbSendToDsp_cases who next fifoFull d with
    ⟨-, -, heq⟩ | ⟨-, -, -, heq⟩ | ⟨-, heq⟩ | ⟨-, heq⟩ | ⟨-, -, heq⟩ |
    ⟨hnext, hfull, heq⟩ <;> rw [heq]
  · exact Or.inr (noMessage_of_same rfl rfl (Or.inl rfl))
  · exact Or.inr (sendFailed_noMessage who d)
  · exact Or.inr (noMessage_of_same rfl rfl (Or.inl rfl))
  · exact Or.inr (noMessage_of_same rfl rfl (Or.inl rfl))
  · obtain ⟨h₁, h₂, h₃, h₄, h₅⟩ :=
      sendFailed_noMessage who { d with ready := true }
    exact Or.inr ⟨h₁, h₂, h₃, h₄, h₅⟩
  · exact Or.inl ⟨hnext, hfull, rfl⟩

/-- A message is written, under a new number. -/
structure Published (who : Sender) (d d' : Driver) : Prop where
  message : DspMsg.ofRegs d'.regs = writtenMsg who d
  errno : d'.regs.errno = d.regs.errno
  power : d'.power = d.power
  unanswered : d'.unanswered =
    d.unanswered ++ [⟨d.nextId, who, writtenMsg who d, d.power.resets⟩]
  accepted : ∀ i id q, .accepted i id q ∈ d'.log →
    .accepted i id q ∈ d.log ∨ id = d.nextId ∧ q = writtenMsg who d
  answered : ∀ id r₀ r₁, .answered id r₀ r₁ ∈ d'.log →
    .answered id r₀ r₁ ∈ d.log
  answeredIds : answeredIds d'.log = answeredIds d.log

theorem sendSucceeded_published (who : Sender) (d : Driver) :
    Published who d (sendSucceeded who (publish who d)) := by
  cases who with
  | client i =>
      refine ⟨rfl, rfl, rfl, rfl, fun j id q hmem => ?_,
        fun id r₀ r₁ hmem => ?_, rfl⟩
      · rcases List.mem_cons.mp ((List.mem_cons.mp hmem).resolve_left nofun)
          with heq | hold
        · cases heq
          exact Or.inr ⟨rfl, rfl⟩
        · exact Or.inl hold
      · have hmem := (List.mem_cons.mp hmem).resolve_left nofun
        exact (List.mem_cons.mp hmem).resolve_left nofun
  | test filep val =>
      refine ⟨rfl, rfl, rfl, rfl, fun j id q hmem => Or.inl ?_,
        fun id r₀ r₁ hmem => ?_, rfl⟩
      · exact (List.mem_cons.mp hmem).resolve_left nofun
      · exact (List.mem_cons.mp hmem).resolve_left nofun
  | emergency i s =>
      exact ⟨rfl, rfl, rfl, rfl, fun _ _ _ => Or.inl, fun _ _ _ => id, rfl⟩

/-- A step of the driver writes a message, or is the answer to one, or does
neither. -/
theorem DriverStep.message_cases {d d' : Driver} {e : Event}
    (h : DriverStep d e d') (he : ∀ id r₀ r₁ n, e ≠ .answer id r₀ r₁ n) :
    (∃ who o, e = .proc o ∧ d.crit = .sending who .kick ∧
      o.fifoFull = false ∧ Published who d d') ∨
    NoMessage d d' := by
  cases h with
  | answered => exact absurd rfl (he _ _ _ _)
  | @send o who next hcrit =>
      rcases mlbSendToDsp_message_cases who next o.fifoFull d with
        ⟨rfl, hfull, heq⟩ | hno
      · rw [heq]
        exact Or.inl ⟨who, o, rfl, hcrit, hfull, sendSucceeded_published who d⟩
      · exact Or.inr hno
  | ioctl _ _ heff => exact Or.inr heff.noMessage
  | opened | readCopied | writeFault | writeError | resetState =>
      exact Or.inr (noMessage_of_same rfl rfl (Or.inr ⟨_, id, rfl⟩))
  | relHeld =>
      refine Or.inr ⟨fun hrun _ => ?_, (dspResume_keepsMessage _ d.dsp).errno,
        rfl, dspResume_resets_le _ d.dsp, Or.inl rfl⟩
      have hrun : d.dsp.dspState = .running := hrun
      exact dspResume_of_on (by rw [hrun]; decide) _
  | relSynced =>
      refine Or.inr ⟨fun hrun hresets => ?_,
        congrArg IpcRegs.errno (ite_dspPoweroff_regs _ _ d.dsp), rfl,
        ite_dspPoweroff_resets_le _ _ d.dsp, Or.inl rfl⟩
      have hrun : d.dsp.dspState = .running := hrun
      exact ite_dspPoweroff_of_resets _ _ _ (by rw [hrun]; decide) hresets
  | _ => exact Or.inr (noMessage_of_same rfl rfl (Or.inl rfl))

end C64Tools.Kmod
