import C64Tools.Kmod.Dev.History
import C64Tools.Kmod.Dev.Clients
import C64Tools.Kmod.Dev.Channel

/-!
# Who gets the reply

The answer of the DSP does not say whose message it answers: the interrupt
handler gives it to `current_client`.  This goes to the right client as long as
no old answer comes in between the choice of the current client and the test
of the ready flag, no test message is sent while an answer is outstanding, and
the reply stays in place until the read that returns it is complete.
-/

namespace C64Tools.Kmod

open Transition

/-- `fops__write` has set the current client, and `mlb_send_to_dsp` looks at
the ready flag next. -/
def Crit.deciding : Crit → Bool
  | .sending (.client _) .check => true
  | _ => false

/-- A test message is sent next, whatever the ready flag says. -/
def Crit.forcing : Crit → Bool
  | .sending (.test _ _) .check => true
  | _ => false

/-- No answer arrives while `mlb_send_to_dsp` is about to look at the ready
flag for the current client; a test message is sent only when no answer is
outstanding; and the reply of a client is neither overwritten by a failing copy
nor returned by a read after it was returned or overwritten. -/
def RoutesReplies (d : Driver) : Event → Prop
  | .irq => d.crit.deciding = true → d.currentClient = none
  | .proc _ => d.crit.forcing = true → d.ready = true
  | .writeFile filep (.msg (.fault _)) =>
      ∀ i ∈ d.findClientByFilep filep, d.currentClient = none →
        (d.clients i).state ≠ .replyAvail
  | .readCopy i true =>
      (d.clients i).state = .replyAvail ∧ d.crit.writing ≠ some i
  | _ => True

/-! ## The invariant -/

/-- Messages that the DSP can still answer, and those whose answer waits. -/
def Driver.flight (d : Driver) : List Request :=
  d.unanswered.filter (fun r => r.boot = d.power.resets) ++ d.inbox

/-- At most one message is in flight, and none when the channel is ready. -/
structure OneInFlight (d : Driver) : Prop where
  boot_le : ∀ r ∈ d.unanswered, r.boot ≤ d.power.resets
  flight_length : d.flight.length ≤ 1
  ready_flight : d.ready = true → d.flight = []
  inbox_answered : ∀ r ∈ d.inbox,
    .answered r.id d.regs.ret1 d.regs.ret2 ∈ d.log

/-- What a client waits for, or has received, is its own reply. -/
structure Served (d : Driver) (i : Slot) : Prop where
  current_pending : d.currentClient = some i →
    (d.clients i).state = .replyPending ∨ d.crit.pointed = some i
  current_busy : d.currentClient = some i →
    d.ready = false ∨ d.crit.pointed = some i ∨ d.crit.writing = some i
  in_flight : d.currentClient = some i →
    (d.clients i).state = .replyPending → d.crit.writing ≠ some i →
    ∀ r ∈ d.flight, awaited i d.log = some (r.id, r.msg) ∧
      (d.clients i).dspMsg = r.msg
  available : (d.clients i).state = .replyAvail → d.crit.writing ≠ some i →
    IsReply i (d.clients i).dspMsg d.log

/-- `current_client` was reset and stays so until the process returns. -/
def Crit.detached : Crit → Bool
  | .writeReset _ => true
  | .sending (.client _) _ => false
  | .sending _ .reset | .sending _ .kick => true
  | _ => false

/-- What holds at the steps of `fops__write` and `mlb_send_to_dsp`. -/
structure SendingPhase (d : Driver) : Prop where
  writing_current : ∀ i j, d.crit.writing = some i →
    d.currentClient = some j → j = i
  detached_none : d.crit.detached = true → d.currentClient = none
  sending_pending : ∀ i next, d.crit = .sending (.client i) next →
    (d.clients i).state = .replyPending
  clearing_ready : ∀ who, d.crit = .sending who .clear → d.ready = true
  publishing_empty : d.crit.publishing = true →
    d.ready = false ∧ d.flight = []

structure Routing (d : Driver) : Prop where
  flight : OneInFlight d
  served : ∀ i, Served d i
  phase : SendingPhase d
  log : RoutedLog d.log

theorem initial_routing (ram : DspMemRegion) :
    Routing (Driver.initial ram) where
  flight := ⟨nofun, Nat.zero_le 1, fun _ => rfl, nofun⟩
  served _ := ⟨nofun, nofun, nofun, nofun⟩
  phase := ⟨nofun, nofun, nofun, nofun, nofun⟩
  log := trivial

/-! ## What steps leave alone -/

/-- The DSP can answer no more than before. -/
theorem OneInFlight.of_sublist {d d' : Driver} (h : OneInFlight d)
    (hboot : ∀ r ∈ d'.unanswered, r.boot ≤ d'.power.resets)
    (hflight : d'.flight.Sublist d.flight)
    (hready : d'.ready = true → d.ready = true)
    (hinbox : ∀ r ∈ d'.inbox, r ∈ d.inbox) (hret : d'.regs.rets = d.regs.rets)
    (hlog : ∀ o ∈ d.log, o ∈ d'.log) : OneInFlight d' where
  boot_le := hboot
  flight_length := hflight.length_le.trans h.flight_length
  ready_flight hr := by
    have hnil := h.ready_flight (hready hr)
    rw [hnil] at hflight
    exact List.sublist_nil.mp hflight
  inbox_answered r hr := by
    obtain ⟨hret1, hret2⟩ := Prod.mk.inj hret
    rw [hret1, hret2]
    exact hlog _ (h.inbox_answered r (hinbox r hr))

/-- Nothing that concerns a client is different. -/
structure SameFor (i : Slot) (d d' : Driver) : Prop where
  state : (d'.clients i).state = (d.clients i).state
  dspMsg : (d'.clients i).dspMsg = (d.clients i).dspMsg
  current : d'.currentClient = some i → d.currentClient = some i
  ready : d.currentClient = some i → d.ready = false → d'.ready = false
  writing : d.crit.writing = some i → d'.crit.writing = some i
  pointed : d.currentClient = some i → d.crit.pointed = some i →
    d'.crit.pointed = some i
  flight : ∀ r ∈ d'.flight, r ∈ d.flight
  awaited : awaited i d'.log = awaited i d.log
  log : ∀ o ∈ d.log, o ∈ d'.log

theorem Served.of_same {d d' : Driver} {i : Slot} (h : Served d i)
    (hsame : SameFor i d d') : Served d' i where
  current_pending hcur := by
    rw [hsame.state]
    have hcur := hsame.current hcur
    exact (h.current_pending hcur).imp_right (hsame.pointed hcur)
  current_busy hcur := by
    have hcur := hsame.current hcur
    exact (h.current_busy hcur).imp (hsame.ready hcur)
      (Or.imp (hsame.pointed hcur) hsame.writing)
  in_flight hcur hpending hwriting r hr := by
    rw [hsame.awaited, hsame.dspMsg]
    exact h.in_flight (hsame.current hcur) (hsame.state ▸ hpending)
      (fun hw => hwriting (hsame.writing hw)) r (hsame.flight r hr)
  available havail hwriting := by
    obtain ⟨id, q, r₀, r₁, hawaited, hanswered, hm⟩ :=
      h.available (hsame.state ▸ havail) fun hw => hwriting (hsame.writing hw)
    rw [hsame.dspMsg]
    exact ⟨id, q, r₀, r₁, hsame.awaited.trans hawaited,
      hsame.log _ hanswered, hm⟩

theorem served_of_not_current {d : Driver} {i : Slot}
    (hcur : d.currentClient ≠ some i)
    (havail : (d.clients i).state = .replyAvail → d.crit.writing ≠ some i →
      IsReply i (d.clients i).dspMsg d.log) : Served d i :=
  ⟨fun h => absurd h hcur, fun h => absurd h hcur, fun h => absurd h hcur,
    havail⟩

/-- A client that neither waits nor has a reply. -/
theorem served_of_idle {d : Driver} {i : Slot}
    (hcur : d.currentClient ≠ some i)
    (hstate : (d.clients i).state ≠ .replyAvail) : Served d i :=
  served_of_not_current hcur fun h => absurd h hstate

theorem crit_pointed_cases {c : Crit} {i : Slot} (h : c.pointed = some i) :
    c.writing = some i ∨ c.releasing = some i := by
  unfold Crit.pointed at h
  split at h
  · exact Or.inl h
  · exact Or.inl h
  · exact Or.inr h
  · exact Or.inr h
  · cases h

/-- The process is neither in `fops__write` nor past the test in
`mlb_send_to_dsp`. -/
def Crit.Plain (c : Crit) : Prop :=
  c.writing = none ∧ c.detached = false ∧ c.publishing = false ∧
    ∀ who, c ≠ .sending who .clear

theorem sendingPhase_of_plain {d : Driver} (h : d.crit.Plain) :
    SendingPhase d := by
  obtain ⟨hwriting, hdetached, hpublishing, hclear⟩ := h
  refine ⟨fun i j hi => ?_, fun hd => ?_, fun i next hi => ?_,
    fun who hwho => absurd hwho (hclear who), fun hp => ?_⟩
  · cases hwriting.symm.trans hi
  · cases hdetached.symm.trans hd
  · rw [hi] at hwriting
    cases hwriting
  · cases hpublishing.symm.trans hp

/-- Only `crit`, the resources of the clients, and the DSP are different, or a
write has returned. -/
structure Unchanged (d d' : Driver) : Prop where
  state : ∀ i, (d'.clients i).state = (d.clients i).state
  dspMsg : ∀ i, (d'.clients i).dspMsg = (d.clients i).dspMsg
  currentClient : d'.currentClient = d.currentClient
  ready : d'.ready = d.ready
  rets : d'.regs.rets = d.regs.rets
  inbox : d'.inbox = d.inbox
  unanswered : d'.unanswered = d.unanswered
  resets : d.power.resets ≤ d'.power.resets
  log : d'.log = d.log ∨ ∃ filep ret, d'.log = .wrote filep ret :: d.log

/-- A reset of the DSP leaves nothing to answer. -/
theorem Unchanged.flight_sublist {d d' : Driver} (h : Unchanged d d')
    (hboot : ∀ r ∈ d.unanswered, r.boot ≤ d.power.resets) :
    d'.flight.Sublist d.flight := by
  unfold Driver.flight
  rw [h.inbox, h.unanswered]
  refine List.Sublist.append ?_ (List.Sublist.refl _)
  rcases h.resets.eq_or_lt with heq | hlt
  · rw [heq]
  · have hnil : d.unanswered.filter (fun r => r.boot = d'.power.resets) = [] := by
      refine List.filter_eq_nil_iff.mpr fun r hr => ?_
      simpa using (lt_of_le_of_lt (hboot r hr) hlt).ne
    rw [hnil]
    exact List.nil_sublist _

theorem Unchanged.mem_log {d d' : Driver} (h : Unchanged d d') :
    ∀ o ∈ d.log, o ∈ d'.log := by
  rcases h.log with hlog | ⟨filep, ret, hlog⟩ <;> rw [hlog]
  · exact fun _ ho => ho
  · exact fun o ho => List.mem_cons_of_mem _ ho

theorem Unchanged.awaited {d d' : Driver} (h : Unchanged d d') (i : Slot) :
    awaited i d'.log = awaited i d.log := by
  rcases h.log with hlog | ⟨filep, ret, hlog⟩ <;> rw [hlog]
  rfl

theorem Unchanged.routedLog {d d' : Driver} (h : Unchanged d d')
    (hd : RoutedLog d.log) : RoutedLog d'.log := by
  rcases h.log with hlog | ⟨filep, ret, hlog⟩ <;> rw [hlog]
  · exact hd
  · exact hd

theorem Unchanged.oneInFlight {d d' : Driver} (h : Unchanged d d')
    (hd : OneInFlight d) : OneInFlight d' := by
  refine hd.of_sublist (fun r hr => ?_) (h.flight_sublist hd.boot_le)
    (fun hr => h.ready ▸ hr) (fun r hr => h.inbox ▸ hr) h.rets h.mem_log
  exact (hd.boot_le r (h.unanswered ▸ hr)).trans h.resets

theorem Unchanged.sameFor {d d' : Driver} (h : Unchanged d d')
    (hboot : ∀ r ∈ d.unanswered, r.boot ≤ d.power.resets) {i : Slot}
    (hwriting : d.crit.writing = some i → d'.crit.writing = some i)
    (hpointed : d.currentClient = some i → d.crit.pointed = some i →
      d'.crit.pointed = some i) : SameFor i d d' where
  state := h.state i
  dspMsg := h.dspMsg i
  current hcur := h.currentClient ▸ hcur
  ready _ hr := h.ready.trans hr
  writing := hwriting
  pointed := hpointed
  flight _ hr := (h.flight_sublist hboot).subset hr
  awaited := h.awaited i
  log := h.mem_log

/-- A step between two places outside the writing of a message. -/
theorem Routing.of_plain {d d' : Driver} (h : Routing d)
    (hsame : Unchanged d d') (hcrit : d.crit.Plain) (hcrit' : d'.crit.Plain)
    (hpointed : ∀ i, d.currentClient = some i → d.crit.pointed = some i →
      d'.crit.pointed = some i) : Routing d' where
  flight := hsame.oneInFlight h.flight
  served i := (h.served i).of_same (hsame.sameFor h.flight.boot_le
    (fun hw => absurd (hcrit.1.symm.trans hw) nofun) (hpointed i))
  phase := sendingPhase_of_plain hcrit'
  log := hsame.routedLog h.log

/-- The process does not move. -/
theorem Routing.of_unchanged {d d' : Driver} (h : Routing d)
    (hsame : Unchanged d d') (hcrit : d'.crit = d.crit) : Routing d' where
  flight := hsame.oneInFlight h.flight
  served i := (h.served i).of_same (hsame.sameFor h.flight.boot_le
    (fun hw => hcrit ▸ hw) (fun _ hp => hcrit ▸ hp))
  phase := by
    obtain ⟨h₁, h₂, h₃, h₄, h₅⟩ := h.phase
    refine ⟨?_, ?_, ?_, ?_, fun hp => ?_⟩
    · rwa [hcrit, hsame.currentClient]
    · rwa [hcrit, hsame.currentClient]
    · simpa only [hcrit, hsame.state] using h₃
    · simpa only [hcrit, hsame.ready] using h₄
    · rw [hcrit] at hp
      obtain ⟨hready, hflight⟩ := h₅ hp
      have hsub := hsame.flight_sublist h.flight.boot_le
      rw [hflight] at hsub
      exact ⟨hsame.ready.trans hready, List.sublist_nil.mp hsub⟩
  log := hsame.routedLog h.log

theorem PowerStep.resets_le {i : Slot} {d : Driver} {cmd : IoctlCmd}
    {p : DspC64} (h : PowerStep i d cmd p) :
    d.power.resets ≤ p.resets := by
  cases h with
  | keep => exact Nat.le_refl _
  | pwrOnRst => exact dspPoweronAndReset_resets_le _ d.dsp
  | start => exact (dspStart_resets _ _ d.dsp).ge
  | pwrOff _ => exact dspPoweroff_resets_le _ d.dsp
  | resume => exact dspResume_resets_le _ d.dsp

theorem IoctlEffect.unchanged {i : Slot} {d d' : Driver} {cmd : IoctlCmd}
    (h : IoctlEffect i d cmd d') : Unchanged d d' := by
  have hund := h.undisturbed
  refine ⟨hund.state, hund.dspMsg, hund.currentClient, hund.ready,
    hund.rets, hund.inbox, hund.unanswered, ?_, Or.inl hund.log⟩
  cases h with
  | power hpower => exact hpower.resets_le
  | reserve _ => exact Nat.le_refl _
  | giveBack _ => exact Nat.le_refl _
  | ref => exact Nat.le_refl _

end C64Tools.Kmod
