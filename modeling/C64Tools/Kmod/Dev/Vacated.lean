import C64Tools.Kmod.Dev.PowerOwner

/-!
# What the driver knows of clients that go

`fops__release` clears what the driver has recorded for a client step by step:
first the bit in the power mask, then `current_client`, and last the flags of
the overlay sections.  Nothing is recorded for a slot that is free.  A client
that waits for a reply while another one is released goes on to wait for it.
-/

namespace C64Tools.Kmod

open Transition

variable {d d' : Driver} {e : Event} {i j : Slot} {ram : DspMemRegion}

/-! ## The tables of the driver -/

/-- The overlay flags and the overlay memory of an entry are clear. -/
def DevClient.NoSections (c : DevClient) : Prop :=
  (∀ s, c.sectionFlags s = false) ∧ ∀ s, c.sectionMem s = DspMemRegion.zero

/-- What is left in the driver of a client that has gone, or is going. -/
structure Vacated (d : Driver) (i : Slot) : Prop where
  power : i ∉ d.powerMask
  current : d.currentClient = some i →
    d.crit = .relCurrent i ∨ d.crit = .relFastcall i
  sections : d.crit.releasing ≠ some i → (d.clients i).NoSections

theorem initial_vacated (i : Slot) : Vacated (Driver.initial ram) i where
  power := Finset.notMem_empty i
  current := nofun
  sections _ := ⟨fun _ => rfl, fun _ => rfl⟩

theorem noSections_update {clients : Slot → DevClient} {c : DevClient}
    {k : Slot} (h : (clients i).NoSections) (hc : i = k → c.NoSections) :
    (Function.update clients k c i).NoSections := by
  rw [Function.update_apply]
  split
  next hik => exact hc hik
  next => exact h

theorem Vacated.of_same (h : Vacated d i) (hmask : i ∉ d'.powerMask)
    (hcurrent : d'.currentClient = some i → d.currentClient = some i ∧
      (d.crit = .relCurrent i ∨ d.crit = .relFastcall i →
        d'.crit = .relCurrent i ∨ d'.crit = .relFastcall i))
    (hsections : (d.clients i).NoSections → (d'.clients i).NoSections)
    (hreleasing : d.crit.releasing = some i → d'.crit.releasing = some i) :
    Vacated d' i where
  power := hmask
  current hi := (hcurrent hi).2 (h.current (hcurrent hi).1)
  sections hi := hsections (h.sections fun hd => hi (hreleasing hd))

/-- A control command is for a connected client. -/
theorem IoctlEffect.noSections {k : Slot} {cmd : IoctlCmd} (hki : k ≠ i)
    (heff : IoctlEffect k d cmd d') (h : (d.clients i).NoSections) :
    (d'.clients i).NoSections := by
  cases heff with
  | power => exact h
  | reserve | giveBack | ref =>
      exact noSections_update h fun hik => absurd hik.symm hki

/-- Nothing is recorded for a slot that is not connected. -/
theorem Vacated.step (h : Vacated d i) (hslots : Slots d)
    (hunused : (d.clients i).state = .unused) (hmask : i ∉ d'.powerMask)
    (hunused' : (d'.clients i).state = .unused) (hstep : DriverStep d e d') :
    Vacated d' i := by
  have hwriting : d.crit.writing ≠ some i := fun hi =>
    hslots.writing_connected i hi hunused
  cases hstep with
  | nothingToRead | ioctlUnknown => exact h
  | openFailed | readFound | readFailed | answered | irqIgnored =>
      exact h.of_same hmask (fun hi => ⟨hi, id⟩) id id
  | @opened _ _ _ k =>
      refine h.of_same hmask (fun hi => ⟨hi, id⟩) (fun hs => ?_) id
      exact noSections_update hs (by rintro rfl; exact hs)
  | @released _ _ k hcrit _ hconn =>
      have hki : k ≠ i := by
        rintro rfl
        exact hconn hunused
      refine h.of_same hmask (fun hi => ⟨hi, by simp [hcrit]⟩) (fun hs => ?_)
        (by simp [hcrit, Crit.releasing])
      exact noSections_update hs fun hik => absurd hik.symm hki
  | @ioctl _ _ k _ _ hfound heff =>
      have hki : k ≠ i := by
        rintro rfl
        exact (Driver.findClientByFilep_some hfound).2 hunused
      have hund := heff.undisturbed
      refine h.of_same hmask (fun hi => ?_) (heff.noSections hki) ?_
      · rw [hund.currentClient] at hi
        rw [hund.crit]
        exact ⟨hi, id⟩
      · rw [hund.crit]
        exact id
  | @send o who next hcrit =>
      have hkeep := mlbSendToDsp_keeps who next o.fifoFull d
      have hgo := mlbSendToDsp_crit who next o.fifoFull d
      rw [← hcrit] at hgo
      refine h.of_same hmask (fun hi => ?_) ?_ (hgo.1 i).mpr
      · rw [hkeep.currentClient] at hi
        exact ⟨hi, by simp [hcrit]⟩
      · rw [hkeep.clients]
        exact id
  | readCopied =>
      refine h.of_same hmask (fun hi => ⟨hi, id⟩) (fun hs => ?_) id
      exact noSections_update hs (by rintro rfl; exact hs)
  | irqReply =>
      refine h.of_same hmask (by simp) (fun hs => ?_) id
      exact noSections_update hs (by rintro rfl; exact hs)
  | writeMsg hcrit | writeFault hcrit | setPending hcrit | resetState hcrit =>
      refine h.of_same hmask (fun hi => ⟨hi, by simp [hcrit]⟩) (fun hs => ?_)
        (by simp [hcrit, Crit.releasing])
      exact noSections_update hs (by rintro rfl; exact hs)
  | setCurrent hcrit =>
      refine h.of_same hmask (fun hi => ?_) id (by simp [hcrit, Crit.releasing])
      exact absurd (by rw [hcrit]; exact hi) hwriting
  | @relReset _ k hcrit =>
      refine ⟨hmask, fun hi => absurd (h.current hi) (by simp [hcrit]),
        fun _ => ?_⟩
      rw [Driver.setClient_clients]
      split
      next => exact ⟨fun _ => rfl, fun _ => rfl⟩
      next hik =>
        refine h.sections ?_
        rw [hcrit]
        exact fun hki => hik (Option.some.inj hki).symm
  | relFree hcrit =>
      refine h.of_same hmask (fun hi => ⟨hi, by simp [hcrit]⟩) (fun hs => ?_)
        (by simp [hcrit, Crit.releasing])
      exact noSections_update hs (by rintro rfl; exact hs)
  | resetCurrent hcrit | testCurrent hcrit | relFastcall hcrit =>
      exact h.of_same hmask (by simp) id (by simp [hcrit, Crit.releasing])
  | @relNotCurrent _ k hcrit hne =>
      refine h.of_same hmask (fun hi => ⟨hi, ?_⟩) id
        (by simp [hcrit, Crit.releasing])
      rw [hcrit]
      rintro (hk | hk)
      · exact absurd (Crit.relCurrent.inj hk ▸ hi) hne
      · cases hk
  | @relIsCurrent _ k hcrit hcur =>
      refine h.of_same hmask (fun hi => ⟨hi, fun _ => ?_⟩) id
        (by simp [hcrit, Crit.releasing])
      exact Or.inr (congrArg _ (Option.some.inj (hcur.symm.trans hi)))
  | writeTest hcrit | writeError hcrit | relHeld hcrit | relNotHeld hcrit
  | relChecked hcrit | relReady hcrit | relTimeout hcrit | relMark hcrit
  | relSynced hcrit | relBusy hcrit =>
      exact h.of_same hmask (fun hi => ⟨hi, by simp [hcrit]⟩) id
        (by simp [hcrit, Crit.releasing])

/-- The client of a slot that a step leaves unused was not connected before,
or its release has begun. -/
theorem unused_cases (hslots : Slots d) (hstep : DriverStep d e d')
    (hunused : (d'.clients i).state = .unused) :
    (d.clients i).state = .unused ∨
      d'.crit = .relCurrent i ∧ i ∉ d'.powerMask := by
  have hconn := hslots.unused_iff hstep
  cases hstep with
  | openFailed => exact Or.inl hunused
  | @opened _ _ _ k =>
      left
      simp only [Driver.observe, Driver.setClient_state, connect] at hunused
      split at hunused
      · cases hunused
      · exact hunused
  | @released _ _ k =>
      simp only [Driver.setState, Driver.setClient_state] at hunused
      split at hunused
      next hik =>
        subst hik
        exact Or.inr ⟨rfl, Finset.notMem_erase _ _⟩
      next => exact Or.inl hunused
  | _ => exact Or.inl ((hconn (by simp) (by simp) i).mp hunused)

theorem vacated_of_next (hslots : Slots d)
    (h : ∀ i, (d.clients i).state = .unused → Vacated d i)
    (hnext : driverNext d e = some d') (hunused : (d'.clients i).state = .unused) :
    Vacated d' i := by
  have hstep := driverNext_step hnext
  obtain hbefore | ⟨hcrit, hmask⟩ := unused_cases hslots hstep hunused
  · refine (h i hbefore).step hslots hbefore (fun hi => ?_) hunused hstep
    rw [powerMask_of_next hnext] at hi
    obtain hi | hi := mem_maskAfter hi
    · exact (h i hbefore).power hi
    · exact hi hbefore
  · exact ⟨hmask, fun _ => Or.inl hcrit, fun hne => absurd (by rw [hcrit]; rfl) hne⟩

/-! ## Clients that wait for a reply -/

/-- Client `j` waits for the reply to its message. -/
def Driver.Waits (d : Driver) (j : Slot) : Prop :=
  d.currentClient = some j ∧ (d.clients j).state = .replyPending

/-- While client `j` waits, the channel is not ready, unless the client is
still writing; and nobody else sends. -/
def Driver.WaitPhase (d : Driver) (j : Slot) : Prop :=
  match d.crit with
  | .writeCopied _ | .writeReset _ => False
  | .writeCurrent k | .writeRefused k => k = j
  | .sending (.client k) next =>
      k = j ∧ (next = .reset ∨ next = .kick → d.ready = false)
  | .sending (.test _ _) _ | .sending (.emergency _ _) _ => False
  | _ => d.ready = false

/-- Where neither who waits nor the channel is different. -/
theorem Driver.WaitPhase.of_same (h : d.WaitPhase j) (hcrit : d'.crit = d.crit)
    (hready : d'.ready = d.ready) : d'.WaitPhase j := by
  unfold Driver.WaitPhase at *
  rw [hcrit, hready]
  exact h

theorem waitPhase_send {who : Sender} {next : SendStep} (fifoFull : Bool)
    (hcrit : d.crit = .sending who next) (h : d.WaitPhase j) :
    (mlbSendToDsp who next fifoFull d).WaitPhase j := by
  simp only [Driver.WaitPhase, hcrit] at h
  cases who with
  | test | emergency => exact h.elim
  | client k =>
      obtain ⟨rfl, hready⟩ := h
      cases next with
      | check =>
          simp only [mlbSendToDsp]
          split
          · exact ⟨rfl, by simp⟩
          · exact rfl
      | clear => exact ⟨rfl, fun _ => rfl⟩
      | reset => exact ⟨rfl, fun _ => hready (Or.inl rfl)⟩
      | kick =>
          simp only [mlbSendToDsp]
          split
          · exact rfl
          · exact hready (Or.inr rfl)

/-- A client waits only as long as no interrupt has come. -/
theorem waitPhase_step (h : ∀ j, d.Waits j → d.WaitPhase j)
    (hstep : DriverStep d e d') (hwaits : d'.Waits j) : d'.WaitPhase j := by
  obtain ⟨hcur, hpending⟩ := hwaits
  -- while neither process nor interrupt have stepped in, nothing is different
  have hsame (hcur : d.currentClient = some j)
      (hpending : (d.clients j).state = .replyPending)
      (hcrit : d'.crit = d.crit) (hready : d'.ready = d.ready) :
      d'.WaitPhase j := (h j ⟨hcur, hpending⟩).of_same hcrit hready
  cases hstep with
  | nothingToRead | ioctlUnknown | openFailed | readFound | readFailed
  | answered => exact hsame hcur hpending rfl rfl
  | @opened _ _ _ k | @readCopied k =>
      simp only [Driver.observe, Driver.setState, Driver.setClient_state,
        connect] at hpending
      split at hpending
      · cases hpending
      · exact hsame hcur hpending rfl rfl
  | ioctl _ _ heff =>
      have hund := heff.undisturbed
      rw [hund.currentClient] at hcur
      rw [hund.state] at hpending
      exact hsame hcur hpending hund.crit hund.ready
  | writeMsg _ hnone | writeFault _ hnone => cases hnone.symm.trans hcur
  | resetCurrent | testCurrent | relFastcall | irqReply => cases hcur
  | irqIgnored _ _ hnot => exact absurd hpending (hnot j hcur)
  | setCurrent => exact Option.some.inj hcur
  | @setPending _ k hcrit =>
      refine ⟨?_, by simp⟩
      simp only [Driver.setState, Driver.setClient_state] at hpending
      split at hpending
      next hjk => exact hjk.symm
      next => simpa [Driver.WaitPhase, hcrit] using h j ⟨hcur, hpending⟩
  | @send o who next hcrit =>
      have hkeep := mlbSendToDsp_keeps who next o.fifoFull d
      rw [hkeep.currentClient] at hcur
      rw [hkeep.clients] at hpending
      exact waitPhase_send _ hcrit (h j ⟨hcur, hpending⟩)
  | resetState hcrit =>
      simp only [Driver.wrote, Driver.setState, Driver.setClient_state]
        at hpending
      split at hpending
      · cases hpending
      · exact (by simpa [Driver.WaitPhase, hcrit] using h j ⟨hcur, hpending⟩)
  | released hcrit | relFree hcrit =>
      have hbusy := h j ⟨hcur, by
        simp only [Driver.setState, Driver.setClient_state] at hpending
        grind⟩
      simp only [Driver.WaitPhase, hcrit] at hbusy
      exact hbusy
  | relReset hcrit =>
      have hbusy := h j ⟨hcur, by
        simp only [Driver.setClient_state] at hpending
        grind⟩
      simp only [Driver.WaitPhase, hcrit] at hbusy
      unfold Driver.WaitPhase
      simp only
      split_ifs <;> exact hbusy
  | relReady hcrit hready | relSynced hcrit hready =>
      have hbusy := h j ⟨hcur, hpending⟩
      simp only [Driver.WaitPhase, hcrit] at hbusy
      cases hready.symm.trans hbusy
  | writeTest hcrit | writeError hcrit | relNotCurrent hcrit
  | relIsCurrent hcrit | relHeld hcrit | relNotHeld hcrit | relChecked hcrit
  | relTimeout hcrit | relMark hcrit | relBusy hcrit =>
      have hbusy := h j ⟨hcur, hpending⟩
      simpa only [Driver.WaitPhase, Driver.wrote, Driver.setDsp_ready, hcrit]
        using hbusy

theorem offIdle_step (h : d.power.OffIdle) (hstep : DriverStep d e d') :
    d'.power.OffIdle := by
  cases hstep with
  | ioctl _ _ heff =>
      cases heff with
      | power hpower => exact hpower.offIdle h
      | reserve | giveBack | ref => exact h
  | send =>
      rw [(mlbSendToDsp_keeps _ _ _ d).power]
      exact h
  | relHeld => exact @dspResume_offIdle d.dsp h _
  | relSynced => exact ite_dspPoweroff_offIdle _ _ d.dsp h
  | _ => exact h

/-- The client whose fastcall sequence is ended is the current one. -/
theorem fastcall_step (hslots : Slots d)
    (h : ∀ i, d.crit = .relFastcall i → d.currentClient = some i)
    (hstep : DriverStep d e d') (hcrit : d'.crit = .relFastcall i) :
    d'.currentClient = some i := by
  cases hstep with
  | nothingToRead | ioctlUnknown | openFailed | opened | readFound | readCopied
  | readFailed | answered | irqIgnored => exact h i hcrit
  | ioctl _ _ heff =>
      rw [heff.undisturbed.crit] at hcrit
      rw [heff.undisturbed.currentClient]
      exact h i hcrit
  | relIsCurrent _ hcur =>
      obtain rfl := Crit.relFastcall.inj hcrit
      exact hcur
  | @irqReply k _ _ hcur hpending =>
      -- the client that goes waits for nothing
      obtain rfl : i = k := Option.some.inj ((h i hcrit).symm.trans hcur)
      have hrel : d.crit.releasing = some i := congrArg Crit.releasing hcrit
      rw [hslots.releasing_unused i hrel] at hpending
      cases hpending
  | @send o who next _ =>
      obtain ⟨-, -, heq⟩ | ⟨-, -, -, heq⟩ | ⟨-, heq⟩ | ⟨-, heq⟩ |
        ⟨-, -, heq⟩ | ⟨-, -, heq⟩ := mlbSendToDsp_cases who next o.fifoFull d
      all_goals
        rw [heq] at hcrit
        cases who <;> simp [sendFailed, sendSucceeded, Driver.wrote] at hcrit
  | relReset =>
      simp only at hcrit
      split_ifs at hcrit
  | _ => cases hcrit

/-- What holds of the driver in every run. -/
structure DriverSound (d : Driver) : Prop where
  slots : Slots d
  vacated : ∀ i, (d.clients i).state = .unused → Vacated d i
  fastcall : ∀ i, d.crit = .relFastcall i → d.currentClient = some i
  phase : ∀ j, d.Waits j → d.WaitPhase j
  offIdle : d.power.OffIdle

theorem initial_driverSound : DriverSound (Driver.initial ram) where
  slots := initial_slots ram
  vacated i _ := initial_vacated i
  fastcall _ h := by cases h
  phase _ h := absurd h.1 nofun
  offIdle := initial_offIdle ram

theorem DriverSound.next (h : DriverSound d) (hnext : driverNext d e = some d') :
    DriverSound d' where
  slots := h.slots.step (driverNext_step hnext)
  vacated _ := vacated_of_next h.slots h.vacated hnext
  fastcall _ := fastcall_step h.slots h.fastcall (driverNext_step hnext)
  phase _ := waitPhase_step h.phase (driverNext_step hnext)
  offIdle := offIdle_step h.offIdle (driverNext_step hnext)

end C64Tools.Kmod
