import C64Tools.Kmod.Dev.Routing

/-!
# Every step keeps the routing

One lemma for each kind of step, and the result about whole runs.
-/

namespace C64Tools.Kmod

open Transition

/-! ## Opening, closing and reading -/

theorem Routing.opened {d : Driver} {i : Slot} (h : Routing d)
    (hcrit : d.crit = .idle) (hunused : (d.clients i).state = .unused)
    (filep : ℕ) (n : ℤ) :
    Routing (({ d with numOpen := n } : Driver).setClient i
      (connect filep) |>.observe (.opened i)) where
  flight := h.flight.of_sublist h.flight.boot_le (List.Sublist.refl _) id
    (fun _ => id) rfl fun o ho => List.mem_cons_of_mem _ ho
  served j := by
    by_cases hji : j = i
    · subst hji
      refine served_of_idle (fun hcur => ?_)
        (by simp [Driver.observe, connect])
      rcases (h.served j).current_pending hcur with hpending | hpointed
      · cases hpending.symm.trans hunused
      · rw [hcrit] at hpointed
        cases hpointed
    · refine (h.served j).of_same ⟨?_, ?_, id, fun _ => id, id, fun _ => id,
        fun _ => id, awaited_opened_ne hji _,
        fun o ho => List.mem_cons_of_mem _ ho⟩
      · simp [Driver.observe, Driver.setClient_state, hji]
      · simp [Driver.observe, Driver.setClient_dspMsg, hji]
  phase := sendingPhase_of_plain (by
    rw [Driver.observe, Driver.setClient_crit, hcrit]
    exact ⟨rfl, rfl, rfl, by simp⟩)
  log := h.log.cons (by simp)

theorem Routing.released {d : Driver} {i : Slot} (h : Routing d)
    (hcrit : d.crit = .idle) (n : ℤ) (powerMask : Finset Slot) :
    Routing { ({ d with numOpen := n } : Driver).setState i .unused with
      powerMask
      crit := .relCurrent i } where
  flight := h.flight.of_sublist h.flight.boot_le (List.Sublist.refl _) id
    (fun _ => id) rfl fun _ => id
  served j := by
    by_cases hji : j = i
    · subst hji
      refine ⟨fun _ => Or.inr rfl, fun _ => Or.inr (Or.inl rfl),
        fun _ hpending => ?_, fun havail => ?_⟩
      · simp [Driver.setState] at hpending
      · simp [Driver.setState] at havail
    · refine (h.served j).of_same ⟨?_, ?_, id, fun _ => id, fun hw => ?_,
        fun _ hp => ?_, fun _ => id, rfl, fun _ => id⟩
      · simp [Driver.setState, Driver.setClient_state, hji]
      · simp [Driver.setState, Driver.setClient_dspMsg, hji]
      · rw [hcrit] at hw
        cases hw
      · rw [hcrit] at hp
        cases hp
  phase := sendingPhase_of_plain ⟨rfl, rfl, rfl, nofun⟩
  log := h.log

/-- The reply that a read returns is the one its client waits for. -/
theorem Routing.readCopied {d : Driver} {i : Slot} (h : Routing d)
    (hslots : Slots d) (hok : RoutesReplies d (.readCopy i true))
    (reading : Slot → ℕ) :
    Routing ((({ d with reading } : Driver).setState i .idle).observe
      (.delivered i (d.clients i).dspMsg)) where
  flight := h.flight.of_sublist h.flight.boot_le (List.Sublist.refl _) id
    (fun _ => id) rfl fun o ho => List.mem_cons_of_mem _ ho
  served j := by
    obtain ⟨havail, hwriting⟩ := hok
    by_cases hji : j = i
    · subst hji
      refine served_of_idle (fun hcur => ?_)
        (by simp [Driver.observe, Driver.setState])
      rcases (h.served j).current_pending hcur with hpending | hpointed
      · cases hpending.symm.trans havail
      · have hreleasing := (crit_pointed_cases hpointed).resolve_left hwriting
        cases havail.symm.trans (hslots.releasing_unused j hreleasing)
    · refine (h.served j).of_same ⟨?_, ?_, id, fun _ => id, id, fun _ => id,
        fun _ => id, awaited_delivered_ne hji _ _,
        fun o ho => List.mem_cons_of_mem _ ho⟩
      · simp [Driver.observe, Driver.setState, Driver.setClient_state, hji]
      · simp [Driver.observe, Driver.setState, Driver.setClient_dspMsg, hji]
  phase := by
    obtain ⟨h₁, h₂, h₃, h₄, h₅⟩ := h.phase
    refine ⟨h₁, h₂, fun j next hj => ?_, h₄, h₅⟩
    have hji : j ≠ i := by
      rintro rfl
      refine hok.2 ?_
      have hcrit : d.crit = .sending (.client j) next := hj
      rw [hcrit]
      rfl
    simpa [Driver.observe, Driver.setState, Driver.setClient_state, hji] using
      h₃ j next hj
  log := ⟨(h.served i).available hok.1 hok.2, h.log⟩

/-! ## Writing -/

theorem Routing.writeMsg {d : Driver} {i : Slot} (h : Routing d)
    (hcrit : d.crit = .idle) (hcur : d.currentClient = none) (m : DspMsg) :
    Routing { d.setClient i fun c => { c with dspMsg := m } with
      crit := .writeCopied i } where
  flight := h.flight.of_sublist h.flight.boot_le (List.Sublist.refl _) id
    (fun _ => id) rfl fun _ => id
  served j := by
    by_cases hji : j = i
    · subst hji
      refine served_of_not_current (fun hj => ?_) fun _ hw => absurd rfl hw
      cases hcur.symm.trans hj
    · refine (h.served j).of_same ⟨?_, ?_, id, fun _ => id, fun hw => ?_,
        fun _ hp => ?_, fun _ => id, rfl, fun _ => id⟩
      · simp [Driver.setClient_state, hji]
      · simp [Driver.setClient_dspMsg, hji]
      · rw [hcrit] at hw
        cases hw
      · rw [hcrit] at hp
        cases hp
  phase := ⟨fun _ _ _ hj => absurd (hcur.symm.trans hj) nofun, nofun, nofun,
    nofun, nofun⟩
  log := h.log

theorem Routing.writeFault {d : Driver} {filep : ℕ} {i : Slot}
    {left : DspMsg} (h : Routing d) (hcrit : d.crit = .idle)
    (hcur : d.currentClient = none) (hstate : (d.clients i).state ≠ .replyAvail)
    (ret : Except Errno ℕ) :
    Routing ((d.setClient i fun c => { c with dspMsg := left }).wrote
      (some filep) ret) where
  flight := h.flight.of_sublist h.flight.boot_le (List.Sublist.refl _) id
    (fun _ => id) rfl fun o ho => List.mem_cons_of_mem _ ho
  served j := by
    by_cases hji : j = i
    · subst hji
      refine served_of_idle (fun hj => ?_) (by simpa [Driver.wrote] using hstate)
      cases hcur.symm.trans hj
    · refine (h.served j).of_same ⟨?_, ?_, id, fun _ => id, fun hw => ?_,
        fun _ hp => ?_, fun _ => id, rfl,
        fun o ho => List.mem_cons_of_mem _ ho⟩
      · simp [Driver.wrote, Driver.setClient_state, hji]
      · simp [Driver.wrote, Driver.setClient_dspMsg, hji]
      · rw [hcrit] at hw
        cases hw
      · rw [hcrit] at hp
        cases hp
  phase := sendingPhase_of_plain ⟨rfl, rfl, rfl, nofun⟩
  log := h.log

theorem Routing.setCurrent {d : Driver} {i : Slot} (h : Routing d)
    (hcrit : d.crit = .writeCopied i) :
    Routing { d with currentClient := some i, crit := .writeCurrent i } where
  flight := h.flight.of_sublist h.flight.boot_le (List.Sublist.refl _) id
    (fun _ => id) rfl fun _ => id
  served j := by
    by_cases hji : j = i
    · subst hji
      exact ⟨fun _ => Or.inr rfl, fun _ => Or.inr (Or.inl rfl),
        fun _ _ hw => absurd rfl hw, fun _ hw => absurd rfl hw⟩
    · refine served_of_not_current (fun hj => hji (Option.some.inj hj).symm)
        fun havail _ => (h.served j).available havail fun hw => ?_
      rw [hcrit] at hw
      exact hji (Option.some.inj hw).symm
  phase := by
    refine ⟨fun j k hj hk => ?_, nofun, nofun, nofun, nofun⟩
    exact (Option.some.inj hk).symm.trans (Option.some.inj hj)
  log := h.log

theorem Routing.setPending {d : Driver} {i : Slot} (h : Routing d)
    (hcrit : d.crit = .writeCurrent i) :
    Routing { d.setState i .replyPending with
      crit := .sending (.client i) .check } where
  flight := h.flight.of_sublist h.flight.boot_le (List.Sublist.refl _) id
    (fun _ => id) rfl fun _ => id
  served j := by
    by_cases hji : j = i
    · subst hji
      exact ⟨fun _ => Or.inl (by simp [Driver.setState]),
        fun _ => Or.inr (Or.inr rfl), fun _ _ hw => absurd rfl hw,
        fun _ hw => absurd rfl hw⟩
    · refine (h.served j).of_same ⟨?_, ?_, id, fun _ => id, fun hw => ?_,
        fun _ hp => ?_, fun _ => id, rfl, fun _ => id⟩
      · simp [Driver.setState, Driver.setClient_state, hji]
      · simp [Driver.setState, Driver.setClient_dspMsg, hji]
      · rw [hcrit] at hw
        exact hw
      · rw [hcrit] at hp
        exact absurd (Option.some.inj hp).symm hji
  phase := by
    have hwriting := h.phase.writing_current
    rw [hcrit] at hwriting
    refine ⟨hwriting, ?_, ?_, ?_, ?_⟩
    · rintro ⟨⟩
    · rintro j next ⟨⟩
      simp [Driver.setState]
    · rintro who ⟨⟩
    · rintro ⟨⟩
  log := h.log

theorem Routing.resetCurrent {d : Driver} {i : Slot} (h : Routing d)
    (hcrit : d.crit = .writeRefused i) :
    Routing { d with currentClient := none, crit := .writeReset i } where
  flight := h.flight.of_sublist h.flight.boot_le (List.Sublist.refl _) id
    (fun _ => id) rfl fun _ => id
  served j := served_of_not_current nofun fun havail hw =>
    (h.served j).available havail (by rwa [hcrit])
  phase := ⟨fun _ _ _ => nofun, fun _ => rfl, nofun, nofun, nofun⟩
  log := h.log

theorem Routing.resetState {d : Driver} {i : Slot} (h : Routing d)
    (hcrit : d.crit = .writeReset i) (filep : Option ℕ)
    (ret : Except Errno ℕ) :
    Routing ((d.setState i .idle).wrote filep ret) where
  flight := h.flight.of_sublist h.flight.boot_le (List.Sublist.refl _) id
    (fun _ => id) rfl fun o ho => List.mem_cons_of_mem _ ho
  served j := by
    have hcur : d.currentClient = none :=
      h.phase.detached_none (by rw [hcrit]; rfl)
    by_cases hji : j = i
    · subst hji
      refine served_of_idle (fun hj => ?_)
        (by simp [Driver.wrote, Driver.setState])
      cases hcur.symm.trans hj
    · refine (h.served j).of_same ⟨?_, ?_, id, fun _ => id, fun hw => ?_,
        fun _ hp => ?_, fun _ => id, rfl,
        fun o ho => List.mem_cons_of_mem _ ho⟩
      · simp [Driver.wrote, Driver.setState, Driver.setClient_state, hji]
      · simp [Driver.wrote, Driver.setState, Driver.setClient_dspMsg, hji]
      · rw [hcrit] at hw
        exact absurd (Option.some.inj hw).symm hji
      · rw [hcrit] at hp
        cases hp
  phase := sendingPhase_of_plain ⟨rfl, rfl, rfl, nofun⟩
  log := h.log

/-- `current_client` is reset outside the writing of a client's message. -/
theorem Routing.resetNone {d : Driver} {c : Crit} (h : Routing d)
    (hcrit : d.crit.writing = none) (hplain : c.Plain) :
    Routing { d with currentClient := none, crit := c } where
  flight := h.flight.of_sublist h.flight.boot_le (List.Sublist.refl _) id
    (fun _ => id) rfl fun _ => id
  served j := served_of_not_current nofun fun havail _ =>
    (h.served j).available havail (by simp [hcrit])
  phase := sendingPhase_of_plain hplain
  log := h.log

/-! ## The answer of the DSP -/

theorem OneInFlight.eq_of_mem_unanswered {d : Driver} {r : Request}
    (h : OneInFlight d) (hr : r ∈ d.unanswered)
    (hboot : r.boot = d.power.resets) :
    d.unanswered.filter (fun q => q.boot = d.power.resets) = [r] ∧
      d.inbox = [] := by
  have hmem : r ∈ d.unanswered.filter fun q => q.boot = d.power.resets :=
    List.mem_filter.mpr ⟨hr, by simpa using hboot⟩
  have hlength := h.flight_length
  unfold Driver.flight at hlength
  rw [List.length_append] at hlength
  have hpos := List.length_pos_of_mem hmem
  have hinbox : d.inbox = [] := List.length_eq_zero_iff.mp (by omega)
  have hone :
      (d.unanswered.filter fun q => q.boot = d.power.resets).length = 1 := by
    omega
  obtain ⟨q, hq⟩ := List.length_eq_one_iff.mp hone
  rw [hq] at hmem
  rw [hq, List.mem_singleton.mp hmem]
  exact ⟨rfl, hinbox⟩

/-- The DSP answers the message that is in flight. -/
theorem Routing.answered {d : Driver} {r : Request} (h : Routing d)
    (hr : r ∈ d.unanswered) (hboot : r.boot = d.power.resets)
    (ret0 ret1 errno : ℕ) :
    Routing { d with
      regs := d.regs.setReply ret0 ret1 errno
      inbox := d.inbox ++ [r]
      unanswered := d.unanswered.filter fun q => q.id ≠ r.id
      log := .answered r.id ret0 ret1 :: d.log } := by
  obtain ⟨hlive, hinbox⟩ := h.flight.eq_of_mem_unanswered hr hboot
  have hflight : d.flight = [r] := by
    rw [Driver.flight, hlive, hinbox]
    rfl
  have hflight' : (d.unanswered.filter fun q => q.id ≠ r.id).filter
      (fun q => q.boot = d.power.resets) ++ (d.inbox ++ [r]) = [r] := by
    rw [List.filter_comm, hlive, hinbox]
    simp
  refine ⟨⟨?_, ?_, ?_, ?_⟩, fun i => ?_, ?_, ?_⟩
  · exact fun q hq => h.flight.boot_le q (List.mem_filter.mp hq).1
  · simp only [Driver.flight, hflight']
    exact Nat.le_refl 1
  · intro hready
    rw [h.flight.ready_flight hready] at hflight
    cases hflight
  · intro q hq
    rw [hinbox] at hq
    rw [List.mem_singleton.mp hq]
    exact List.mem_cons_self
  · refine (h.served i).of_same ⟨rfl, rfl, id, fun _ => id, id, fun _ => id,
      fun q hq => ?_, rfl, fun o ho => List.mem_cons_of_mem _ ho⟩
    simp only [Driver.flight, hflight'] at hq
    rw [hflight]
    exact hq
  · obtain ⟨h₁, h₂, h₃, h₄, h₅⟩ := h.phase
    refine ⟨h₁, h₂, h₃, h₄, fun hp => ?_⟩
    rw [(h₅ hp).2] at hflight
    cases hflight
  · exact h.log

/-- What the interrupt handler leaves of the messages in flight. -/
theorem OneInFlight.of_irq {d e : Driver} (h : OneInFlight d)
    (hinbox : d.inbox ≠ []) (hin : e.inbox = [])
    (hun : e.unanswered = d.unanswered) (hpower : e.power = d.power) :
    OneInFlight e ∧ e.flight = [] := by
  have hlength := h.flight_length
  unfold Driver.flight at hlength
  rw [List.length_append] at hlength
  have hpos := List.length_pos_iff.mpr hinbox
  have hempty : e.flight = [] := by
    rw [Driver.flight, hin, hun, hpower, List.append_nil]
    exact List.length_eq_zero_iff.mp (by omega)
  refine ⟨⟨?_, ?_, fun _ => hempty, ?_⟩, hempty⟩
  · rw [hun, hpower]
    exact h.boot_le
  · rw [hempty]
    exact Nat.zero_le 1
  · rw [hin]
    nofun

/-- The answer of the message in flight arrives only before the process tests
the ready flag. -/
theorem SendingPhase.before_clear {d : Driver} (h : SendingPhase d)
    (hflight : OneInFlight d) (hinbox : d.inbox ≠ []) {who : Sender}
    {next : SendStep} (hcrit : d.crit = .sending who next) :
    next = .check := by
  have hne : d.flight ≠ [] := by
    unfold Driver.flight
    exact List.append_ne_nil_of_right_ne_nil _ hinbox
  cases next with
  | check => rfl
  | clear =>
      exact absurd (hflight.ready_flight (h.clearing_ready who hcrit)) hne
  | reset => exact absurd (h.publishing_empty (by rw [hcrit]; rfl)).2 hne
  | kick => exact absurd (h.publishing_empty (by rw [hcrit]; rfl)).2 hne

/-- The interrupt handler makes the answer the reply of the current client. -/
theorem Routing.irqReply {d : Driver} {i : Slot} (h : Routing d)
    (hok : RoutesReplies d .irq) (hinbox : d.inbox ≠ [])
    (hcur : d.currentClient = some i)
    (hpending : (d.clients i).state = .replyPending) :
    Routing { d.setClient i (takeReply d) with
      currentClient := none
      inbox := []
      irqEnable := false
      ready := true } := by
  obtain ⟨hone, hempty⟩ := h.flight.of_irq
    (e := { d.setClient i (takeReply d) with
      currentClient := none
      inbox := []
      irqEnable := false
      ready := true }) hinbox rfl rfl rfl
  refine ⟨hone, fun j => ?_, ?_, h.log⟩
  · by_cases hji : j = i
    · subst hji
      refine served_of_not_current (by simp) fun _ hwriting => ?_
      obtain ⟨r, hr⟩ := List.exists_mem_of_ne_nil _ hinbox
      obtain ⟨hawaited, hmsg⟩ := (h.served j).in_flight hcur hpending hwriting r
        (List.mem_append_right _ hr)
      refine ⟨r.id, r.msg, d.regs.ret1, d.regs.ret2, hawaited,
        h.flight.inbox_answered r hr, ?_⟩
      simp [takeReply, hmsg]
    · refine (h.served j).of_same ⟨?_, ?_, by simp, fun hj => ?_, id,
        fun _ => id, fun q hq => ?_, rfl, fun _ => id⟩
      · simp [Driver.setClient_state, hji]
      · simp [Driver.setClient_dspMsg, hji]
      · exact absurd (Option.some.inj (hj.symm.trans hcur)) hji
      · rw [hempty] at hq
        cases hq
  · have hsending (k : Slot) (next : SendStep) :
        d.crit ≠ .sending (.client k) next := by
      intro hcrit
      obtain rfl := h.phase.before_clear h.flight hinbox hcrit
      have hnone : d.currentClient = none := hok (by rw [hcrit]; rfl)
      cases hnone.symm.trans hcur
    refine ⟨fun _ _ _ => by simp, fun _ => rfl,
      fun k next hcrit => absurd hcrit (hsending k next), fun _ _ => rfl,
      fun hp => ?_⟩
    have hflight := (h.phase.publishing_empty hp).2
    exact absurd (List.append_eq_nil_iff.mp hflight).2 hinbox

/-- The interrupt handler drops an answer that nobody waits for. -/
theorem Routing.irqIgnored {d : Driver} (h : Routing d)
    (hinbox : d.inbox ≠ [])
    (hcur : ∀ i, d.currentClient = some i →
      (d.clients i).state ≠ .replyPending) :
    Routing { d with inbox := [], irqEnable := false, ready := true } := by
  obtain ⟨hone, hempty⟩ := h.flight.of_irq
    (e := { d with inbox := [], irqEnable := false, ready := true })
    hinbox rfl rfl rfl
  refine ⟨hone, fun j => ⟨?_, fun hj => ?_, fun hj hp => ?_, ?_⟩, ?_, h.log⟩
  · exact (h.served j).current_pending
  · have hpointed := (h.served j).current_pending hj
    exact Or.inr (Or.inl (hpointed.resolve_left (hcur j hj)))
  · exact absurd hp (hcur j hj)
  · exact (h.served j).available
  · obtain ⟨h₁, h₂, h₃, -, h₅⟩ := h.phase
    refine ⟨h₁, h₂, h₃, fun _ _ => rfl, fun hp => ?_⟩
    exact absurd (List.append_eq_nil_iff.mp (h₅ hp).2).2 hinbox

/-! ## Sending -/

theorem Routing.check {d : Driver} {who : Sender} (h : Routing d)
    (hcrit : d.crit = .sending who .check) (hready : d.ready = true) :
    Routing { d with crit := .sending who .clear } := by
  refine ⟨h.flight.of_sublist h.flight.boot_le (List.Sublist.refl _) id
    (fun _ => id) rfl fun _ => id, fun j => ?_, ?_, h.log⟩
  · refine (h.served j).of_same ⟨rfl, rfl, id, fun _ => id, fun hw => ?_,
      fun _ hp => ?_, fun _ => id, rfl, fun _ => id⟩
    · rw [hcrit] at hw
      cases who <;> exact hw
    · rw [hcrit] at hp
      cases hp
  · obtain ⟨h₁, -, h₃, -, -⟩ := h.phase
    rw [hcrit] at h₁ h₃
    refine ⟨?_, ?_, ?_, fun _ _ => hready, nofun⟩
    · cases who <;> exact h₁
    · cases who <;> nofun
    · rintro j next ⟨⟩
      exact h₃ j .check rfl

/-- A message is refused. -/
theorem Routing.refused {d : Driver} {who : Sender} {next : SendStep}
    (h : Routing d) (hcrit : d.crit = .sending who next) (ready : Bool)
    (hready : ready = true → d.flight = [])
    (hbusy : ∀ j, d.currentClient = some j →
      ready = false ∨ d.crit.writing = some j) :
    Routing (sendFailed who { d with ready }) := by
  have hone : OneInFlight { d with ready } :=
    ⟨h.flight.boot_le, h.flight.flight_length, hready, h.flight.inbox_answered⟩
  have hpending (j : Slot) (hj : d.currentClient = some j) :
      (d.clients j).state = .replyPending := by
    refine ((h.served j).current_pending hj).resolve_right fun hp => ?_
    rw [hcrit] at hp
    cases hp
  have hwriting := h.phase.writing_current
  cases who with
  | client i =>
      rw [hcrit] at hbusy hwriting
      refine ⟨⟨hone.1, hone.2, hone.3, hone.4⟩, fun j => ⟨?_, ?_, ?_, ?_⟩,
        ⟨hwriting, nofun, nofun, nofun, nofun⟩, h.log⟩
      · exact fun hj => Or.inl (hpending j hj)
      · exact fun hj => (hbusy j hj).imp id Or.inl
      · exact fun hj hp hw => (h.served j).in_flight hj hp (by rwa [hcrit])
      · exact fun ha hw => (h.served j).available ha (by rwa [hcrit])
  | test filep val =>
      rw [hcrit] at hbusy
      refine ⟨⟨hone.1, hone.2, hone.3, fun r hr =>
          List.mem_cons_of_mem _ (hone.4 r hr)⟩, fun j => ⟨?_, ?_, ?_, ?_⟩,
        sendingPhase_of_plain ⟨rfl, rfl, rfl, nofun⟩, h.log⟩
      · exact fun hj => Or.inl (hpending j hj)
      · exact fun hj => Or.inl ((hbusy j hj).resolve_right nofun)
      · exact fun hj hp _ => (h.served j).in_flight hj hp
          (by rw [hcrit]; nofun)
      · exact fun ha _ => ((h.served j).available ha
          (by rw [hcrit]; nofun)).cons id
  | emergency i s =>
      rw [hcrit] at hbusy
      refine ⟨⟨hone.1, hone.2, hone.3, hone.4⟩, fun j => ⟨?_, ?_, ?_, ?_⟩,
        sendingPhase_of_plain ⟨rfl, rfl, rfl, nofun⟩, h.log⟩
      · exact fun hj => Or.inl (hpending j hj)
      · exact fun hj => Or.inl ((hbusy j hj).resolve_right nofun)
      · exact fun hj hp _ => (h.served j).in_flight hj hp
          (by rw [hcrit]; nofun)
      · exact fun ha _ => (h.served j).available ha (by rw [hcrit]; nofun)

theorem Routing.clear {d : Driver} {who : Sender} (h : Routing d)
    (hcrit : d.crit = .sending who .clear) :
    Routing { d with ready := false, crit := .sending who .reset } := by
  have hready := h.phase.clearing_ready who hcrit
  have hflight := h.flight.ready_flight hready
  refine ⟨h.flight.of_sublist h.flight.boot_le (List.Sublist.refl _)
    (fun _ => hready) (fun _ => id) rfl fun _ => id, fun j => ?_, ?_, h.log⟩
  · refine (h.served j).of_same ⟨rfl, rfl, id, fun _ _ => rfl, fun hw => ?_,
      fun _ hp => ?_, fun _ => id, rfl, fun _ => id⟩
    · rw [hcrit] at hw
      cases who <;> exact hw
    · rw [hcrit] at hp
      cases hp
  · obtain ⟨h₁, -, h₃, -, -⟩ := h.phase
    -- when the channel is ready, only a client that is writing is current
    have hnone (hw : d.crit.writing = none) : d.currentClient = none := by
      refine Option.eq_none_iff_forall_ne_some.mpr fun j hj => ?_
      rcases (h.served j).current_busy hj with hbusy | hbusy | hbusy
      · cases hready.symm.trans hbusy
      · rw [hcrit] at hbusy
        cases hbusy
      · cases hw.symm.trans hbusy
    rw [hcrit] at h₁ h₃ hnone
    refine ⟨?_, ?_, ?_, nofun, fun _ => ⟨rfl, hflight⟩⟩
    · cases who <;> exact h₁
    · cases who with
      | client i => nofun
      | test filep val => exact fun _ => hnone rfl
      | emergency i s => exact fun _ => hnone rfl
    · rintro j next ⟨⟩
      exact h₃ j .clear rfl

theorem Routing.reset {d : Driver} {who : Sender} (h : Routing d)
    (hcrit : d.crit = .sending who .reset) (msgSerial : ℕ) :
    Routing { d with
      msgSerial
      inbox := []
      irqEnable := true
      crit := .sending who .kick } := by
  obtain ⟨hready, hflight⟩ := h.phase.publishing_empty (by rw [hcrit]; rfl)
  have hflight' : (d.unanswered.filter fun r => r.boot = d.power.resets) ++
      [] = [] := by
    rw [(List.append_eq_nil_iff.mp hflight).1]
    rfl
  refine ⟨h.flight.of_sublist h.flight.boot_le ?_ id nofun rfl fun _ => id,
    fun j => ?_, ?_, h.log⟩
  · simp only [Driver.flight, hflight']
    exact List.nil_sublist _
  · refine (h.served j).of_same ⟨rfl, rfl, id, fun _ => id, fun hw => ?_,
      fun _ hp => ?_, fun r hr => ?_, rfl, fun _ => id⟩
    · rw [hcrit] at hw
      cases who <;> exact hw
    · rw [hcrit] at hp
      cases hp
    · simp only [Driver.flight, hflight'] at hr
      cases hr
  · obtain ⟨h₁, h₂, h₃, -, -⟩ := h.phase
    rw [hcrit] at h₁ h₂ h₃
    refine ⟨?_, ?_, ?_, nofun, fun _ => ⟨hready, hflight'⟩⟩
    · cases who <;> exact h₁
    · cases who <;> exact h₂
    · rintro j next ⟨⟩
      exact h₃ j .reset rfl

/-- A message that is written is the only one in flight. -/
theorem OneInFlight.publish {d e : Driver} {r : Request} (h : OneInFlight d)
    (hflight : d.flight = []) (hready : e.ready = false)
    (hun : e.unanswered = d.unanswered ++ [r])
    (hboot : r.boot = d.power.resets) (hin : e.inbox = d.inbox)
    (hpower : e.power = d.power) : OneInFlight e ∧ e.flight = [r] := by
  obtain ⟨hlive, hinbox⟩ := List.append_eq_nil_iff.mp hflight
  have hone : e.flight = [r] := by
    rw [Driver.flight, hun, hin, hpower, List.filter_append, hlive, hinbox]
    simp [hboot]
  refine ⟨⟨fun q hq => ?_, ?_, fun hr => ?_, fun q hq => ?_⟩, hone⟩
  · rw [hpower]
    rcases List.mem_append.mp (hun ▸ hq) with hq | hq
    · exact h.boot_le q hq
    · rw [List.mem_singleton.mp hq]
      exact hboot.le
  · rw [hone]
    exact Nat.le_refl 1
  · cases hready.symm.trans hr
  · rw [hin, hinbox] at hq
    cases hq

theorem Routing.kick {d : Driver} {who : Sender} (h : Routing d)
    (hcrit : d.crit = .sending who .kick) :
    Routing (sendSucceeded who (publish who d)) := by
  obtain ⟨hready, hflight⟩ := h.phase.publishing_empty (by rw [hcrit]; rfl)
  have hkept := h.flight.publish
    (e := sendSucceeded who (publish who d))
    (r := ⟨d.nextId, who, writtenMsg who d, d.power.resets⟩) hflight
    (by cases who <;> exact hready) (by cases who <;> rfl) rfl
    (by cases who <;> rfl) (sendSucceeded_keeps who d).power
  obtain ⟨hone, hnew⟩ := hkept
  obtain ⟨hwriting, hdetached, hsending, -, -⟩ := h.phase
  rw [hcrit] at hwriting hdetached hsending
  cases who with
  | client i =>
      refine ⟨hone, fun j => ?_, sendingPhase_of_plain ⟨rfl, rfl, rfl, nofun⟩,
        h.log⟩
      have hpending := hsending i .kick rfl
      by_cases hji : j = i
      · subst hji
        refine ⟨fun _ => Or.inl hpending, fun _ => Or.inl hready,
          fun _ _ _ r hr => ?_, fun havail => ?_⟩
        · rw [hnew] at hr
          rw [List.mem_singleton.mp hr]
          exact ⟨if_pos rfl, rfl⟩
        · cases hpending.symm.trans havail
      · refine served_of_not_current (fun hj => hji (hwriting i j rfl hj))
          fun havail _ => ?_
        have hreply := (h.served j).available havail (by
          rw [hcrit]
          exact fun hij => hji (Option.some.inj hij).symm)
        exact (hreply.cons (o := .accepted i d.nextId (d.clients i).dspMsg)
          fun hij => hji hij.symm).cons id
  | test filep val =>
      have hnone : d.currentClient = none := hdetached rfl
      refine ⟨hone, fun j => served_of_not_current (fun hj => ?_) fun ha _ =>
          ((h.served j).available ha (by rw [hcrit]; nofun)).cons id,
        sendingPhase_of_plain ⟨rfl, rfl, rfl, nofun⟩, h.log⟩
      cases hnone.symm.trans hj
  | emergency i s =>
      have hnone : d.currentClient = none := hdetached rfl
      refine ⟨hone, fun j => served_of_not_current (fun hj => ?_) fun ha _ =>
          (h.served j).available ha (by rw [hcrit]; nofun),
        sendingPhase_of_plain ⟨rfl, rfl, rfl, nofun⟩, h.log⟩
      cases hnone.symm.trans hj

theorem Routing.send {d : Driver} {who : Sender} {next : SendStep}
    {o : ProcOutcome} (h : Routing d) (hok : RoutesReplies d (.proc o))
    (hcrit : d.crit = .sending who next) :
    Routing (mlbSendToDsp who next o.fifoFull d) := by
  rcases mlbSendToDsp_cases who next o.fifoFull d with
    ⟨rfl, hready, heq⟩ | ⟨rfl, hready, -, heq⟩ | ⟨rfl, heq⟩ | ⟨rfl, heq⟩ |
    ⟨rfl, hfull, heq⟩ | ⟨rfl, hfull, heq⟩ <;> rw [heq]
  · refine h.check hcrit (hready.elim id fun htest => hok ?_)
    rw [hcrit]
    cases who <;> first | rfl | cases htest
  · exact h.refused hcrit d.ready h.flight.ready_flight
      fun _ _ => Or.inl hready
  · exact h.clear hcrit
  · exact h.reset hcrit _
  · obtain ⟨-, hflight⟩ := h.phase.publishing_empty (by rw [hcrit]; rfl)
    refine h.refused hcrit true (fun _ => hflight) fun j hj => Or.inr ?_
    obtain ⟨hwriting, hdetached, -, -, -⟩ := h.phase
    rw [hcrit] at hwriting hdetached ⊢
    cases who with
    | client i =>
        rw [hwriting i j rfl hj]
        rfl
    | test filep val => cases (hdetached rfl).symm.trans hj
    | emergency i s => cases (hdetached rfl).symm.trans hj
  · exact h.kick hcrit

theorem Routing.step {d d' : Driver} {e : Event} (h : Routing d)
    (hslots : Slots d) (hok : RoutesReplies d e) (hstep : DriverStep d e d') :
    Routing d' := by
  cases hstep with
  | nothingToRead | ioctlUnknown => exact h
  | openFailed | readFound | readFailed =>
      exact h.of_unchanged ⟨fun _ => rfl, fun _ => rfl, rfl, rfl, rfl, rfl, rfl,
        Nat.le_refl _, Or.inl rfl⟩ rfl
  | opened hcrit hunused => exact h.opened hcrit hunused _ _
  | released hcrit => exact h.released hcrit _ _
  | readCopied _ => exact h.readCopied hslots hok _
  | ioctl _ _ heff => exact h.of_unchanged heff.unchanged heff.undisturbed.crit
  | writeMsg hcrit hcur => exact h.writeMsg hcrit hcur _
  | writeFault hcrit hcur hfound =>
      exact h.writeFault hcrit hcur (hok _ hfound hcur) _
  | setCurrent hcrit => exact h.setCurrent hcrit
  | setPending hcrit => exact h.setPending hcrit
  | send hcrit => exact h.send hok hcrit
  | resetCurrent hcrit => exact h.resetCurrent hcrit
  | resetState hcrit => exact h.resetState hcrit _ _
  | testCurrent hcrit =>
      exact h.resetNone (by rw [hcrit]; rfl) ⟨rfl, rfl, rfl, nofun⟩
  | relFastcall hcrit =>
      exact h.resetNone (by rw [hcrit]; rfl) ⟨rfl, rfl, rfl, nofun⟩
  | answered hr hid _ hboot =>
      subst hid
      exact h.answered hr hboot _ _ _
  | irqReply _ hinbox hcur hpending => exact h.irqReply hok hinbox hcur hpending
  | irqIgnored _ hinbox hcur => exact h.irqIgnored hinbox hcur
  | relNotCurrent hcrit hcur =>
      refine h.of_plain ⟨fun _ => rfl, fun _ => rfl, rfl, rfl, rfl, rfl, rfl,
        Nat.le_refl _, Or.inl rfl⟩ (by rw [hcrit]; exact ⟨rfl, rfl, rfl, nofun⟩)
        ⟨rfl, rfl, rfl, nofun⟩ fun j hj hp => ?_
      rw [hcrit] at hp
      exact absurd (hj.trans hp.symm) hcur
  | relIsCurrent hcrit =>
      refine h.of_plain ⟨fun _ => rfl, fun _ => rfl, rfl, rfl, rfl, rfl, rfl,
        Nat.le_refl _, Or.inl rfl⟩ (by rw [hcrit]; exact ⟨rfl, rfl, rfl, nofun⟩)
        ⟨rfl, rfl, rfl, nofun⟩ fun j _ hp => ?_
      rw [hcrit] at hp
      exact hp
  | relHeld hcrit =>
      exact h.of_plain ⟨fun _ => rfl, fun _ => rfl, rfl, rfl,
        (dspResume_keepsMessage _ d.dsp).rets, rfl, rfl,
        dspResume_resets_le _ d.dsp, Or.inl rfl⟩
        (by rw [hcrit]; exact ⟨rfl, rfl, rfl, nofun⟩) ⟨rfl, rfl, rfl, nofun⟩
        (by rw [hcrit]; nofun)
  | relSynced hcrit =>
      exact h.of_plain ⟨fun _ => rfl, fun _ => rfl, rfl, rfl,
        congrArg IpcRegs.rets (ite_dspPoweroff_regs _ _ d.dsp), rfl, rfl,
        ite_dspPoweroff_resets_le _ _ d.dsp, Or.inl rfl⟩
        (by rw [hcrit]; exact ⟨rfl, rfl, rfl, nofun⟩)
        ⟨rfl, rfl, rfl, nofun⟩ (by rw [hcrit]; nofun)
  | relFree hcrit =>
      refine h.of_plain ⟨fun j => ?_, fun j => ?_, rfl, rfl, rfl, rfl, rfl,
        Nat.le_refl _, Or.inl rfl⟩ (by rw [hcrit]; exact ⟨rfl, rfl, rfl, nofun⟩)
        ⟨rfl, rfl, rfl, nofun⟩ (by rw [hcrit]; nofun)
      · simp only [Driver.setClient_state]
        grind
      · simp only [Driver.setClient_dspMsg]
        grind
  | relReset hcrit =>
      refine h.of_plain ⟨fun j => ?_, fun j => ?_, rfl, rfl, rfl, rfl, rfl,
        Nat.le_refl _, Or.inl rfl⟩ (by rw [hcrit]; exact ⟨rfl, rfl, rfl, nofun⟩)
        ?_ (by rw [hcrit]; nofun)
      · simp only [Driver.setClient_state]
        grind
      · simp only [Driver.setClient_dspMsg]
        grind
      · simp only
        split_ifs <;> exact ⟨rfl, rfl, rfl, nofun⟩
  | writeTest hcrit | relNotHeld hcrit | relChecked hcrit | relReady hcrit
  | relTimeout hcrit | relMark hcrit | relBusy hcrit =>
      exact h.of_plain ⟨fun _ => rfl, fun _ => rfl, rfl, rfl, rfl, rfl, rfl,
        Nat.le_refl _, Or.inl rfl⟩ (by rw [hcrit]; exact ⟨rfl, rfl, rfl, nofun⟩)
        ⟨rfl, rfl, rfl, nofun⟩ (by rw [hcrit]; nofun)
  | writeError hcrit =>
      exact h.of_plain ⟨fun _ => rfl, fun _ => rfl, rfl, rfl, rfl, rfl, rfl,
        Nat.le_refl _, Or.inr ⟨_, _, rfl⟩⟩
        (by rw [hcrit]; exact ⟨rfl, rfl, rfl, nofun⟩) ⟨rfl, rfl, rfl, nofun⟩
        (by rw [hcrit]; nofun)

theorem routing_of_reachable {ram : DspMemRegion} {d : Driver}
    (hd : ((driverMachine ram).restrict RoutesReplies).Reachable d) :
    Routing d := by
  refine (driver_invariant (P := fun d => Slots d ∧ Routing d)
    ⟨initial_slots ram, initial_routing ram⟩ ?_ hd).2
  rintro d e d' ⟨hslots, h⟩ hok hstep
  exact ⟨hslots.step hstep, h.step hslots hok hstep⟩

/-! ## Replies over whole runs -/

/-- Every message that a read returned is the answer of the DSP to the message
of that client that was accepted last and not answered to it before; messages
have numbers of their own, and each is answered at most once. -/
theorem delivered_isReply_of_routesReplies {ram : DspMemRegion} {d : Driver}
    (hd : ((driverMachine ram).restrict RoutesReplies).Reachable d) :
    (∀ newer i m older, d.log = newer ++ .delivered i m :: older →
      IsReply i m older) ∧
    (acceptedIds d.log).Nodup ∧ (answeredIds d.log).Nodup := by
  have hlog := (routing_of_reachable hd).log
  have hnumbered := numbered_of_reachable hd
  refine ⟨fun newer i m older heq => ?_, hnumbered.accepted_nodup,
    hnumbered.answered_nodup⟩
  rw [heq] at hlog
  exact hlog.isReply

instance (d : Driver) (e : Event) : Decidable (RoutesReplies d e) := by
  unfold RoutesReplies
  rcases e with _ | _ | _ | ⟨_, _ | _⟩ | ⟨_, ⟨_ | _⟩ | _ | _⟩ | _ | _ | _ | _ <;>
    infer_instance

/-- A client sends a message, the DSP answers, and the client reads. -/
def replyRun : List Event :=
  startedRun ++ [.answer 0 7 8 0, .irq, .readFile 1 12, .readCopy 0 true]

theorem replyRun_isReply :
    ∃ (d : Driver) (older : List Obs),
      d.log = .delivered 0 ⟨0x10001, 7, 8⟩ :: older ∧
      IsReply 0 ⟨0x10001, 7, 8⟩ older := by
  have hrun : ∃ d, ((driverMachine runRam).restrict RoutesReplies).Reachable d ∧
      lastDelivery d.log = some (0, ⟨0x10001, 7, 8⟩) :=
    Machine.exists_restrict_reachable_of_run _ replyRun (by decide)
  obtain ⟨d, hd, hlast⟩ := hrun
  have hlog := eq_cons_of_lastDelivery hlast
  exact ⟨d, _, hlog, (delivered_isReply_of_routesReplies hd).1 [] _ _ _ hlog⟩

/-- A client dies while its message is outstanding.  The answer arrives when
`fops__write` has made another client the current one. -/
def staleReplyRun : List Event :=
  startedRun ++
  [.openFile c64DevMinor 2, .ioctl 2 (.resume ProcOutcome.smooth.power),
    .releaseFile 1] ++ List.replicate 10 (.proc .smooth) ++
  [.writeFile 2 (.msg (.readable ⟨0x20002, 4, 5⟩)),
    .proc .smooth, .proc .smooth, .answer 0 7 8 0, .irq] ++
  List.replicate 4 (.proc .smooth) ++ [.readFile 2 12, .readCopy 1 true]

theorem stale_reply_delivered :
    ∃ d, (driverMachine runRam).Reachable d ∧ ∃ older,
      d.log = .delivered 1 ⟨0x20002, 7, 8⟩ :: older ∧
      ¬IsReply 1 ⟨0x20002, 7, 8⟩ older := by
  have hrun : ∃ d, (driverMachine runRam).Reachable d ∧
      lastDelivery d.log = some (1, ⟨0x20002, 7, 8⟩) ∧
      awaited 1 d.log.tail = some (1, ⟨0x20002, 7, 8⟩) ∧
      1 ∉ answeredIds d.log.tail :=
    Machine.exists_reachable_of_run _ staleReplyRun (by decide)
  obtain ⟨d, hd, hlast, hawaited, hanswered⟩ := hrun
  refine ⟨d, hd, _, eq_cons_of_lastDelivery hlast, ?_⟩
  rintro ⟨id, q, r₀, r₁, hid, hmem, -⟩
  obtain ⟨rfl, -⟩ := Prod.mk.inj (Option.some.inj (hawaited.symm.trans hid))
  exact hanswered (mem_answeredIds hmem)

end C64Tools.Kmod
