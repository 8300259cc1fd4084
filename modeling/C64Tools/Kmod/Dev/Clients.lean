import C64Tools.Kmod.Dev.Slots

/-!
# The current client and the pending client

`current_client` and the state of a client are written one after the other, by
several operations.  Between the critical sections the pending client is the
current one, unless a test message was sent, or a read of a second thread
returned, while a client waited for its reply.
-/

namespace C64Tools.Kmod

open Transition

/-- A test message is about to be sent. -/
def Crit.testing : Crit → Bool
  | .testCopied _ _ => true
  | _ => false

/-- A test message is sent only when no client waits for a reply, and a read
that returns a reply does not overwrite the state of a client that waits for
the next one. -/
def KeepsPending (d : Driver) : Event → Prop
  | .proc _ => d.crit.testing = true → d.currentClient = none
  | .readCopy i true => (d.clients i).state ≠ .replyPending ∨
      d.crit = .writeRefused i ∨ d.crit = .writeReset i
  | _ => True

/-- The client that `current_client` may point to although the client does not
wait for a reply. -/
def Crit.pointed : Crit → Option Slot
  | .writeCurrent i | .writeRefused i | .relCurrent i | .relFastcall i =>
      some i
  | _ => none

/-- What `current_client` can be inside the critical sections. -/
def Driver.CurrentInPhase (d : Driver) : Prop :=
  match d.crit with
  | .writeCopied _ | .writeReset _ => d.currentClient = none
  | .writeCurrent i =>
      d.currentClient = some i ∧ (d.clients i).state ≠ .replyPending
  | .sending (.client i) _ | .writeRefused i =>
      ∀ j, d.currentClient = some j → j = i
  | .relFastcall i => d.currentClient = some i
  | _ => True

/-- A client waits for a reply if and only if it is the current client, with
the exceptions inside the critical sections. -/
structure Attached (d : Driver) : Prop where
  pending_current : ∀ j, (d.clients j).state = .replyPending →
    d.currentClient = some j ∨ d.crit = .writeReset j
  current_pending : ∀ j, d.currentClient = some j →
    (d.clients j).state = .replyPending ∨ d.crit.pointed = some j
  phase : d.CurrentInPhase

theorem initial_attached (ram : DspMemRegion) :
    Attached (Driver.initial ram) where
  pending_current _ h := by cases h
  current_pending _ h := by cases h
  phase := trivial

/-- Where the invariant mentions nothing that is different. -/
theorem Attached.of_same {d d' : Driver} (h : Attached d)
    (hstate : ∀ i, (d'.clients i).state = (d.clients i).state)
    (hcurrent : d'.currentClient = d.currentClient) (hcrit : d'.crit = d.crit) :
    Attached d' where
  pending_current j hj := by
    rw [hcurrent, hcrit]
    exact h.pending_current j (hstate j ▸ hj)
  current_pending j hj := by
    rw [hstate, hcrit]
    exact h.current_pending j (hcurrent ▸ hj)
  phase := by
    have hphase := h.phase
    unfold Driver.CurrentInPhase at *
    rw [hcrit, hcurrent]
    split at hphase <;> simp_all

/-- Outside the exceptions, the pending client is the current one. -/
theorem Attached.pending_iff {d : Driver} {crit : Crit} (h : Attached d)
    (hcrit : d.crit = crit) (hreset : ∀ i, crit ≠ .writeReset i)
    (hpointed : crit.pointed = none) (j : Slot) :
    (d.clients j).state = .replyPending ↔ d.currentClient = some j := by
  subst hcrit
  refine ⟨fun hj => (h.pending_current j hj).resolve_right (hreset j),
    fun hj => (h.current_pending j hj).resolve_right ?_⟩
  rw [hpointed]
  nofun

/-- In a phase without exceptions. -/
theorem attached_of_pending_iff {d : Driver}
    (h : ∀ j, (d.clients j).state = .replyPending ↔ d.currentClient = some j)
    (hphase : d.CurrentInPhase) : Attached d where
  pending_current j hj := Or.inl ((h j).mp hj)
  current_pending j hj := Or.inl ((h j).mpr hj)
  phase := hphase

theorem Attached.send {d : Driver} {who : Sender} {next : SendStep}
    (h : Attached d) (hcrit : d.crit = .sending who next) (fifoFull : Bool) :
    Attached (mlbSendToDsp who next fifoFull d) := by
  have hiff := h.pending_iff hcrit nofun rfl
  have hkeep := mlbSendToDsp_keeps who next fifoFull d
  rw [← hkeep.clients, ← hkeep.currentClient] at hiff
  refine attached_of_pending_iff hiff ?_
  have hphase := h.phase
  simp only [Driver.CurrentInPhase, hcrit] at hphase
  rcases mlbSendToDsp_cases who next fifoFull d with
    ⟨-, -, heq⟩ | ⟨-, -, -, heq⟩ | ⟨-, heq⟩ | ⟨-, heq⟩ | ⟨-, -, heq⟩ |
    ⟨-, -, heq⟩ <;> rw [heq] <;> cases who <;>
    first
      | exact hphase
      | exact trivial

/-- The reply interrupt moves the current client from pending to available. -/
theorem Attached.irqReply {d : Driver} {i : Slot} (h : Attached d)
    (hslots : Slots d) (hcur : d.currentClient = some i)
    (hpending : (d.clients i).state = .replyPending) :
    Attached { d.setClient i (takeReply d) with
      currentClient := none
      inbox := []
      irqEnable := false
      ready := true } where
  pending_current j hj := by
    have hji : j ≠ i := by
      rintro rfl
      simp [takeReply] at hj
    simp only [Driver.setClient_state, hji, if_false] at hj
    rcases h.pending_current j hj with hj' | hj'
    · exact absurd (Option.some.inj (hj'.symm.trans hcur)) hji
    · exact Or.inr hj'
  current_pending := by simp
  phase := by
    have hphase := h.phase
    unfold Driver.CurrentInPhase at *
    simp only [Driver.setClient_crit]
    split at hphase
    next => trivial
    next => trivial
    next j _ =>
      -- the client that a write has just selected is not pending yet
      obtain rfl : i = j := Option.some.inj (hcur.symm.trans hphase.1)
      exact absurd hpending hphase.2
    next => simp
    next => simp
    next j hcrit =>
      obtain rfl : i = j := Option.some.inj (hcur.symm.trans hphase)
      have hunused := hslots.releasing_unused i (by rw [hcrit]; rfl)
      cases hpending.symm.trans hunused
    next => trivial

/-- A read of a client that does not wait for a reply. -/
theorem Attached.readCopied {d : Driver} {i : Slot} (h : Attached d)
    (hok : KeepsPending d (.readCopy i true)) (reading : Slot → ℕ) (o : Obs) :
    Attached ((({ d with reading } : Driver).setState i .idle).observe o) where
  pending_current j hj := by
    simp only [Driver.observe, Driver.setState, Driver.setClient_state] at hj
    split at hj
    next => cases hj
    next => exact h.pending_current j hj
  current_pending j hj := by
    have hcur := h.current_pending j hj
    have hphase := h.phase
    simp only [KeepsPending] at hok
    by_cases hji : j = i
    · subst hji
      rcases hok with hok | hok | hok
      · exact Or.inr (hcur.resolve_left hok)
      · exact Or.inr (congrArg Crit.pointed hok)
      · simp only [Driver.CurrentInPhase, hok] at hphase
        cases hphase.symm.trans hj
    · simpa [Driver.observe, Driver.setState, Driver.setClient_state, hji]
        using hcur
  phase := by
    have hphase := h.phase
    unfold Driver.CurrentInPhase at *
    simp only [Driver.observe, Driver.setState, Driver.setClient_crit,
      Driver.setClient_currentClient]
    split at hphase
    next => exact hphase
    next => exact hphase
    next j _ =>
      refine ⟨hphase.1, ?_⟩
      rw [Driver.setClient_state]
      split
      next => simp
      next => exact hphase.2
    next => exact hphase
    next => exact hphase
    next => exact hphase
    next => trivial

theorem Attached.step {d d' : Driver} {e : Event} (h : Attached d)
    (hslots : Slots d) (hok : KeepsPending d e) (hstep : DriverStep d e d') :
    Attached d' := by
  have hphase := h.phase
  cases hstep with
  | nothingToRead | ioctlUnknown => exact h
  | openFailed | readFound | readFailed | answered | irqIgnored =>
      exact ⟨h.pending_current, h.current_pending, h.phase⟩
  | irqReply _ _ hcur hpending => exact h.irqReply hslots hcur hpending
  | readCopied _ => exact h.readCopied hok _ _
  | send hcrit => exact h.send hcrit _
  | ioctl _ _ heff =>
      have hund := heff.undisturbed
      exact h.of_same hund.state hund.currentClient hund.crit
  | opened hcrit hunused =>
      have hiff := h.pending_iff hcrit (by simp) rfl
      refine attached_of_pending_iff (fun j => ?_)
        (by simp [Driver.CurrentInPhase, Driver.observe, hcrit])
      simp only [Driver.observe, Driver.setClient_state, connect,
        Driver.setClient_currentClient]
      grind
  | @released _ _ i hcrit _ _ _ =>
      have hiff := h.pending_iff hcrit (by simp) rfl
      refine ⟨fun j hj => ?_, fun j hj => ?_, trivial⟩
      · simp only [Driver.setState, Driver.setClient_state] at hj
        split at hj
        next => cases hj
        next => exact Or.inl ((hiff j).mp hj)
      · by_cases hji : j = i
        · exact Or.inr (by rw [hji]; rfl)
        · left
          simpa [Driver.setState, Driver.setClient_state, hji] using
            (hiff j).mpr hj
  | writeMsg hcrit hcur _ _ =>
      have hiff := h.pending_iff hcrit (by simp) rfl
      refine attached_of_pending_iff (fun j => ?_) hcur
      simp only [Driver.setClient_state, Driver.setClient_currentClient]
      grind
  | writeFault hcrit _ _ =>
      have hiff := h.pending_iff hcrit (by simp) rfl
      refine attached_of_pending_iff (fun j => ?_) trivial
      simp only [Driver.wrote, Driver.setClient_state,
        Driver.setClient_currentClient]
      grind
  | writeTest hcrit | writeError hcrit =>
      exact attached_of_pending_iff
        (h.pending_iff hcrit (by simp) rfl) trivial
  | @setCurrent _ i hcrit =>
      have hiff := h.pending_iff hcrit (by simp) rfl
      simp only [Driver.CurrentInPhase, hcrit] at hphase
      have hnone (j : Slot) : (d.clients j).state ≠ .replyPending := by
        rw [Ne, hiff, hphase]
        simp
      refine ⟨fun j hj => absurd hj (hnone j), fun j hj => Or.inr hj,
        rfl, hnone i⟩
  | @setPending _ i hcrit =>
      simp only [Driver.CurrentInPhase, hcrit] at hphase
      refine attached_of_pending_iff (fun j => ?_) fun j hj => ?_
      · have hiff := h.pending_current j
        simp only [Driver.setState, Driver.setClient_state,
          Driver.setClient_currentClient]
        grind
      · exact Option.some.inj (hj.symm.trans hphase.1)
  | @resetCurrent _ i hcrit =>
      simp only [Driver.CurrentInPhase, hcrit] at hphase
      refine ⟨fun j hj => Or.inr ?_, by simp, rfl⟩
      have hcur := (h.pending_current j hj).resolve_right (by simp [hcrit])
      rw [hphase j hcur]
  | @resetState _ i hcrit =>
      simp only [Driver.CurrentInPhase, hcrit] at hphase
      refine attached_of_pending_iff (fun j => ?_) trivial
      have hpending := h.pending_current j
      simp only [Driver.wrote, Driver.setState, Driver.setClient_state,
        Driver.setClient_currentClient]
      grind
  | testCurrent hcrit =>
      have hiff := h.pending_iff hcrit (by simp) rfl
      rw [hok (by rw [hcrit]; rfl)] at hiff
      exact attached_of_pending_iff hiff trivial
  | @relNotCurrent _ i hcrit hcur =>
      refine attached_of_pending_iff (fun j => ?_) trivial
      have hpending := h.pending_current j
      have hcurrent := h.current_pending j
      simp only [hcrit, Crit.pointed] at hpending hcurrent
      grind
  | relIsCurrent hcrit hcur =>
      refine ⟨fun j hj => ?_, fun j hj => ?_, hcur⟩
      · exact Or.inl ((h.pending_current j hj).resolve_right (by simp [hcrit]))
      · have hpointed := h.current_pending j hj
        rwa [hcrit] at hpointed
  | @relFastcall _ i hcrit =>
      simp only [Driver.CurrentInPhase, hcrit] at hphase
      have hunused := hslots.releasing_unused i (by rw [hcrit]; rfl)
      refine attached_of_pending_iff (fun j => ?_) trivial
      have hpending := h.pending_current j
      simp only [hcrit] at hpending
      grind
  | relFree hcrit =>
      have hiff := h.pending_iff hcrit (by simp) rfl
      refine attached_of_pending_iff (fun j => ?_) trivial
      simp only [Driver.setClient_state, Driver.setClient_currentClient]
      grind
  | relReset hcrit =>
      have hiff := h.pending_iff hcrit (by simp) rfl
      refine attached_of_pending_iff (fun j => ?_) ?_
      · simp only [Driver.setClient_state, Driver.setClient_currentClient]
        grind
      · simp only [Driver.CurrentInPhase]
        split_ifs <;> trivial
  | relHeld hcrit | relNotHeld hcrit | relChecked hcrit | relReady hcrit
  | relTimeout hcrit | relMark hcrit | relSynced hcrit | relBusy hcrit =>
      exact attached_of_pending_iff
        (h.pending_iff hcrit (by simp) rfl) trivial

theorem attached_of_reachable {ram : DspMemRegion} {d : Driver}
    (hd : ((driverMachine ram).restrict KeepsPending).Reachable d) :
    Attached d := by
  refine (driver_invariant (P := fun d => Slots d ∧ Attached d)
    ⟨initial_slots ram, initial_attached ram⟩ ?_ hd).2
  rintro d e d' ⟨hslots, h⟩ hok hstep
  exact ⟨hslots.step hstep, h.step hslots hok hstep⟩

/-! ## No client is stranded -/

/-- Between the critical sections a client waits for a reply if and only if
`current_client` points to it, and the next reply wakes it up. -/
theorem pending_iff_current_of_keepsPending {ram : DspMemRegion} {d : Driver}
    (hd : ((driverMachine ram).restrict KeepsPending).Reachable d)
    (hidle : d.crit = .idle) (i : Slot) :
    ((d.clients i).state = .replyPending ↔ d.currentClient = some i) ∧
      ((d.clients i).state = .replyPending →
        ((irqHandlerMlb d).clients i).state = .replyAvail) := by
  have hiff := (attached_of_reachable hd).pending_iff hidle nofun rfl i
  refine ⟨hiff, fun hpending => ?_⟩
  have hcur := hiff.mp hpending
  simp [irqHandlerMlb, devHandleReply, hcur, hpending]

/-- A client sends a message. -/
def writingRun : List Event :=
  [.openFile c64DevMinor 1, .writeFile 1 (.msg (.readable ⟨0x10001, 2, 3⟩))] ++
    List.replicate 6 (.proc .smooth)

instance (d : Driver) (e : Event) : Decidable (KeepsPending d e) := by
  unfold KeepsPending
  rcases e with _ | _ | _ | ⟨_, _ | _⟩ | _ | _ | _ | _ | _ <;> infer_instance

theorem writingRun_pending :
    ∃ d : Driver, (d.clients 0).state = .replyPending ∧
      d.currentClient = some 0 := by
  have hrun : ∃ d, ((driverMachine DspMemRegion.zero).restrict
      KeepsPending).Reachable d ∧ d.crit = .idle ∧
      (d.clients 0).state = .replyPending :=
    Machine.exists_restrict_reachable_of_run _ writingRun (by decide)
  obtain ⟨d, hd, hidle, hpending⟩ := hrun
  exact ⟨d, hpending,
    (pending_iff_current_of_keepsPending hd hidle 0).1.mp hpending⟩

/-- A test message strands the client whose message was accepted before. -/
theorem testMsg_strands_client :
    ∃ d, (driverMachine DspMemRegion.zero).Reachable d ∧ d.crit = .idle ∧
      (d.clients 0).state = .replyPending ∧ d.currentClient = none :=
  Machine.exists_reachable_of_run _
    (writingRun ++ .writeFile 1 (.testMsg (.readable 0)) ::
      List.replicate 5 (.proc .smooth)) (by decide)

end C64Tools.Kmod
