import C64Tools.Kmod.Dev.Channel

/-!
# Writes that fail

`fops__write` copies a message over the reply that the client may not have
read, and makes the client wait for an answer, before it knows whether the DSP
takes the message.  A call is observed from a state in which nobody holds the
mutex until it has returned, when nothing comes between its steps.
-/

namespace C64Tools.Kmod

open Transition

/-- The process that holds the mutex goes on until it gives it back. -/
inductive Finishes : Driver → Driver → Prop
  | done {d : Driver} : d.crit = .idle → Finishes d d
  | step {o : ProcOutcome} {d d' d'' : Driver} : procStep o d = some d' →
      Finishes d' d'' → Finishes d d''

/-- A call of `fops__write`, from the taking of the mutex to its return. -/
structure WriteReturns (filep : ℕ) (arg : WriteArg) (d : Driver)
    (ret : Except Errno ℕ) (d' : Driver) : Prop where
  called : d.crit = .idle
  finishes : Finishes (fopsWrite filep arg d) d'
  returned : ∃ log, d'.log = .wrote (some filep) ret :: log

/-- The clients are in the states that they were in, with the messages that
they had, and the same one of them is served. -/
structure ClientsKept (d d' : Driver) : Prop where
  state : ∀ i, (d'.clients i).state = (d.clients i).state
  dspMsg : ∀ i, (d'.clients i).dspMsg = (d.clients i).dspMsg
  currentClient : d'.currentClient = d.currentClient

/-- There is nothing to lose: the caller is idle and writes the message that
it has stored, and a test message finds no client that is being served. -/
def NothingToLose (filep : ℕ) (arg : WriteArg) (d : Driver) : Prop :=
  match arg with
  | .msg (.readable m) => d.currentClient = none →
      ∀ i, d.findClientByFilep filep = some i →
        (d.clients i).state = .idle ∧ (d.clients i).dspMsg = m
  | .msg (.fault left) => d.currentClient = none →
      ∀ i, d.findClientByFilep filep = some i → (d.clients i).dspMsg = left
  | .testMsg (.readable _) => d.currentClient = none
  | .testMsg (.fault _) => True
  | .other _ => True

variable {d d' d'' : Driver} {i : Slot} {filep : ℕ} {arg : WriteArg}

theorem ClientsKept.refl (d : Driver) : ClientsKept d d :=
  ⟨fun _ => rfl, fun _ => rfl, rfl⟩

namespace Driver

theorem setState_state (d : Driver) (i j : Slot) (st : ClientState) :
    ((d.setState i st).clients j).state =
      if j = i then st else (d.clients j).state :=
  d.setClient_state i j _

theorem setState_dspMsg (d : Driver) (i j : Slot) (st : ClientState) :
    ((d.setState i st).clients j).dspMsg = (d.clients j).dspMsg :=
  d.setClient_apply i j fun _ => rfl

theorem setState_filep (d : Driver) (i j : Slot) (st : ClientState) :
    ((d.setState i st).clients j).filep = (d.clients j).filep :=
  d.setClient_apply i j fun _ => rfl

theorem setMsg_state (d : Driver) (i j : Slot) (m : DspMsg) :
    ((d.setClient i fun c => { c with dspMsg := m }).clients j).state =
      (d.clients j).state :=
  d.setClient_apply (g := DevClient.state) i j fun _ => rfl

theorem setMsg_dspMsg (d : Driver) (i j : Slot) (m : DspMsg) :
    ((d.setClient i fun c => { c with dspMsg := m }).clients j).dspMsg =
      if j = i then m else (d.clients j).dspMsg :=
  d.setClient_dspMsg i j _

end Driver

/-! ## The steps of a call -/

theorem Finishes.eq_of_idle (h : Finishes d d') (hidle : d.crit = .idle) :
    d' = d := by
  cases h with
  | done => rfl
  | step hstep =>
      unfold procStep at hstep
      rw [hidle] at hstep
      cases hstep

theorem Finishes.next (h : Finishes d d'') (hbusy : d.crit ≠ .idle) :
    ∃ o d', procStep o d = some d' ∧ Finishes d' d'' := by
  cases h with
  | done hidle => exact absurd hidle hbusy
  | step hstep hrest => exact ⟨_, _, hstep, hrest⟩

/-- The next step of a call, if every outcome leads to the same state. -/
theorem Finishes.next_eq (h : Finishes d d'') (hbusy : d.crit ≠ .idle)
    (hnext : ∀ o, procStep o d = some d') : Finishes d' d'' := by
  obtain ⟨o, d₁, hstep, hrest⟩ := h.next hbusy
  obtain rfl := Option.some.inj ((hnext o).symm.trans hstep)
  exact hrest

/-- Sending ends with the refusal or the acceptance of the message. -/
theorem Finishes.sending {who : Sender} {next : SendStep}
    (h : Finishes d d') (hcrit : d.crit = .sending who next) :
    ∃ d₁, d₁.clients = d.clients ∧ d₁.currentClient = d.currentClient ∧
      (Finishes (sendFailed who d₁) d' ∨
        Finishes (sendSucceeded who (publish who d₁)) d') := by
  induction h generalizing next with
  | done hidle =>
      rw [hidle] at hcrit
      cases hcrit
  | @step o d d₂ d' hstep hrest ih =>
      have hd₂ : mlbSendToDsp who next o.fifoFull d = d₂ := by
        unfold procStep at hstep
        rw [hcrit] at hstep
        exact Option.some.inj hstep
      rcases mlbSendToDsp_cases who next o.fifoFull d with
        ⟨-, -, heq⟩ | ⟨-, -, -, heq⟩ | ⟨-, heq⟩ | ⟨-, heq⟩ | ⟨-, -, heq⟩ |
        ⟨-, -, heq⟩ <;> rw [heq] at hd₂ <;> subst hd₂
      · exact ih rfl
      · exact ⟨d, rfl, rfl, Or.inl hrest⟩
      · exact ih rfl
      · exact ih rfl
      · exact ⟨{ d with ready := true }, rfl, rfl, Or.inl hrest⟩
      · exact ⟨d, rfl, rfl, Or.inr hrest⟩

/-- What the refusal of a message leaves. -/
theorem Finishes.writeRefused (h : Finishes d d')
    (hcrit : d.crit = .writeRefused i) :
    d' = (({ d with currentClient := none, crit := .writeReset i }
      : Driver).setState i .idle).wrote (d.clients i).filep
        (.error .EAGAIN) := by
  have hreset : Finishes
      { d with currentClient := none, crit := .writeReset i } d' := by
    refine h.next_eq (by simp [hcrit]) fun o => ?_
    rw [procStep, hcrit]
  have hend := hreset.next_eq (by simp) fun _ => rfl
  exact hend.eq_of_idle rfl

/-- A message that the client has passed in: it has been taken, or the client
is idle, nobody is served and the message is stored. -/
theorem Finishes.writeCopied (h : Finishes d d')
    (hcrit : d.crit = .writeCopied i) :
    (∃ log, d'.log = .wrote (d.clients i).filep (.ok 12) :: log) ∨
      (∀ j, (d'.clients j).state =
        if j = i then .idle else (d.clients j).state) ∧
      (∀ j, (d'.clients j).dspMsg = (d.clients j).dspMsg) ∧
      d'.currentClient = none := by
  have hcurrent : Finishes
      { d with currentClient := some i, crit := .writeCurrent i } d' := by
    refine h.next_eq (by simp [hcrit]) fun o => ?_
    rw [procStep, hcrit]
  have hsending := hcurrent.next_eq (by simp) fun _ => rfl
  obtain ⟨d₃, hclients, hcur, hfailed | hsent⟩ := hsending.sending rfl
  · right
    have hend := hfailed.writeRefused rfl
    rw [hend]
    refine ⟨fun j => ?_, fun j => ?_, rfl⟩
    · show (((sendFailed (.client i) d₃).setState i .idle).clients j).state = _
      rw [Driver.setState_state]
      split_ifs with hj
      · rfl
      · show (d₃.clients j).state = _
        rw [hclients]
        exact (Driver.setState_state ..).trans (if_neg hj)
    · show (((sendFailed (.client i) d₃).setState i .idle).clients j).dspMsg = _
      rw [Driver.setState_dspMsg]
      show (d₃.clients j).dspMsg = _
      rw [hclients]
      exact Driver.setState_dspMsg ..
  · left
    have hend := hsent.eq_of_idle rfl
    have hfilep : (d₃.clients i).filep = (d.clients i).filep := by
      rw [hclients]
      exact Driver.setState_filep ..
    rw [hend, ← hfilep]
    exact ⟨_, rfl⟩

/-- A test message: it has been taken, or nothing but the current client has
changed. -/
theorem Finishes.testCopied {val : ℕ} (h : Finishes d d')
    (hcrit : d.crit = .testCopied filep val) :
    (∃ log, d'.log = .wrote (some filep) (.ok 4) :: log) ∨
      d'.clients = d.clients ∧ d'.currentClient = none := by
  obtain ⟨o, d₁, hstep, hrest⟩ := h.next (by rw [hcrit]; nofun)
  unfold procStep at hstep
  rw [hcrit] at hstep
  obtain rfl := Option.some.inj hstep
  obtain ⟨d₂, hclients, hcur, hfailed | hsent⟩ := hrest.sending rfl
  · right
    rw [hfailed.eq_of_idle rfl]
    exact ⟨hclients, hcur⟩
  · left
    rw [hsent.eq_of_idle rfl]
    exact ⟨_, rfl⟩

/-! ## When nothing is lost -/

theorem clientsKept_iff_of_message {m : DspMsg}
    (hnone : d.currentClient = none)
    (hstate : ∀ j, (d'.clients j).state =
      if j = i then .idle else (d.clients j).state)
    (hmsg : ∀ j, (d'.clients j).dspMsg =
      if j = i then m else (d.clients j).dspMsg)
    (hcur : d'.currentClient = none) :
    ClientsKept d d' ↔ (d.clients i).state = .idle ∧
      (d.clients i).dspMsg = m := by
  constructor
  · intro h
    have hs := h.state i
    have hm := h.dspMsg i
    rw [hstate, if_pos rfl] at hs
    rw [hmsg, if_pos rfl] at hm
    exact ⟨hs.symm, hm.symm⟩
  · rintro ⟨hs, hm⟩
    refine ⟨fun j => ?_, fun j => ?_, hcur.trans hnone.symm⟩
    · rw [hstate]
      split_ifs with hj
      · rw [hj, hs]
      · rfl
    · rw [hmsg]
      split_ifs with hj
      · rw [hj, hm]
      · rfl

theorem clientsKept_setMsg_iff {m : DspMsg} {filep : Option ℕ}
    {ret : Except Errno ℕ} :
    ClientsKept d ((d.setClient i fun c => { c with dspMsg := m }).wrote filep
      ret) ↔ (d.clients i).dspMsg = m := by
  constructor
  · intro h
    have hm := h.dspMsg i
    rw [← hm]
    exact ((d.setMsg_dspMsg i i m).trans (if_pos rfl))
  · intro hm
    refine ⟨fun j => d.setMsg_state i j m, fun j => ?_, rfl⟩
    refine (d.setMsg_dspMsg i j m).trans ?_
    split_ifs with hj
    · rw [hj, hm]
    · rfl

theorem nothingToLose_readable_iff {m : DspMsg}
    (hcur : d.currentClient = none)
    (hfind : d.findClientByFilep filep = some i) :
    NothingToLose filep (.msg (.readable m)) d ↔
      (d.clients i).state = .idle ∧ (d.clients i).dspMsg = m := by
  constructor
  · intro h
    exact h hcur i hfind
  · intro h _ j hj
    obtain rfl := Option.some.inj (hfind.symm.trans hj)
    exact h

theorem nothingToLose_fault_iff {left : DspMsg}
    (hcur : d.currentClient = none)
    (hfind : d.findClientByFilep filep = some i) :
    NothingToLose filep (.msg (.fault left)) d ↔
      (d.clients i).dspMsg = left := by
  constructor
  · intro h
    exact h hcur i hfind
  · intro h _ j hj
    obtain rfl := Option.some.inj (hfind.symm.trans hj)
    exact h

/-- A call that returns before it has passed its checks. -/
theorem ClientsKept.wrote (d : Driver) (filep : Option ℕ)
    (ret : Except Errno ℕ) : ClientsKept d (d.wrote filep ret) :=
  ⟨fun _ => rfl, fun _ => rfl, rfl⟩

/-- A write that fails leaves the clients as they were if and only if there was
nothing to lose. -/
theorem failedWrite_clientsKept_iff {d d' : Driver} {filep : ℕ}
    {arg : WriteArg} {e : Errno}
    (h : WriteReturns filep arg d (.error e) d') :
    ClientsKept d d' ↔ NothingToLose filep arg d := by
  obtain ⟨hidle, hfinishes, log, hlog⟩ := h
  cases arg with
  | msg buf =>
      cases hcur : d.currentClient with
      | some j =>
          have hcall : fopsWrite filep (.msg buf) d =
              d.wrote (some filep) (.error .EAGAIN) := by
            simp only [fopsWrite, hcur]
          rw [hcall] at hfinishes
          rw [hfinishes.eq_of_idle rfl]
          refine iff_of_true (.wrote d _ _) ?_
          cases buf <;> exact fun hnone => absurd (hcur.symm.trans hnone) nofun
      | none =>
          cases hfind : d.findClientByFilep filep with
          | none =>
              have hcall : fopsWrite filep (.msg buf) d =
                  d.wrote (some filep) (.error .EBADF) := by
                simp only [fopsWrite, hcur, hfind]
              rw [hcall] at hfinishes
              rw [hfinishes.eq_of_idle rfl]
              refine iff_of_true (.wrote d _ _) ?_
              cases buf <;>
                exact fun _ i hi => absurd (hfind.symm.trans hi) nofun
          | some i =>
              cases buf with
              | readable m =>
                  obtain ⟨d₁, hcall, hcrit, hclients⟩ : ∃ d₁,
                      fopsWrite filep (.msg (.readable m)) d = d₁ ∧
                      d₁.crit = .writeCopied i ∧ d₁.clients =
                        (d.setClient i fun c => { c with dspMsg := m
                          }).clients := by
                    simp only [fopsWrite, hcur, hfind]
                    exact ⟨_, rfl, rfl, rfl⟩
                  rw [hcall] at hfinishes
                  rw [nothingToLose_readable_iff hcur hfind]
                  rcases hfinishes.writeCopied hcrit with
                    ⟨log', hok⟩ | ⟨hstate, hmsg, hcur'⟩
                  · rw [hlog] at hok
                    simp at hok
                  · refine clientsKept_iff_of_message hcur (fun j => ?_)
                      (fun j => ?_) hcur'
                    · rw [hstate j, hclients, d.setMsg_state]
                    · rw [hmsg j, hclients, d.setMsg_dspMsg]
              | fault left =>
                  have hcall : fopsWrite filep (.msg (.fault left)) d =
                      (d.setClient i fun c => { c with dspMsg := left }).wrote
                        (some filep) (.error .EFAULT) := by
                    simp only [fopsWrite, hcur, hfind]
                  rw [hcall] at hfinishes
                  rw [nothingToLose_fault_iff hcur hfind,
                    hfinishes.eq_of_idle rfl]
                  exact clientsKept_setMsg_iff
  | testMsg buf =>
      cases buf with
      | fault left =>
          rw [hfinishes.eq_of_idle rfl]
          exact iff_of_true (.wrote d _ _) trivial
      | readable val =>
          rcases hfinishes.testCopied rfl with ⟨log', hok⟩ | ⟨hclients, hcur⟩
          · rw [hlog] at hok
            cases hok
          · constructor
            · intro hkept
              exact hkept.currentClient.symm.trans hcur
            · intro hnone
              have hsame : d'.clients = d.clients := hclients
              refine ⟨fun j => ?_, fun j => ?_, hcur.trans hnone.symm⟩
              · rw [hsame]
              · rw [hsame]
  | other count =>
      rw [hfinishes.eq_of_idle rfl]
      exact iff_of_true (.wrote d _ _) trivial

/-! ## Calls that are computed -/

theorem Finishes.of_follow {os : List ProcOutcome}
    (h : Machine.follow driverNext d (os.map .proc) = some d')
    (hidle : d'.crit = .idle) : Finishes d d' := by
  induction os generalizing d with
  | nil =>
      obtain rfl : d = d' := Option.some.inj h
      exact .done hidle
  | cons o os ih =>
      obtain ⟨d₁, hstep, hrest⟩ := Option.bind_eq_some_iff.mp h
      exact .step hstep (ih hrest)

/-- The error of the call that has returned last. -/
def lastRefusal : List Obs → Option (ℕ × Errno)
  | .wrote (some filep) (.error e) :: _ => some (filep, e)
  | _ => none

theorem eq_cons_of_lastRefusal {log : List Obs} {e : Errno}
    (h : lastRefusal log = some (filep, e)) :
    ∃ older, log = .wrote (some filep) (.error e) :: older := by
  unfold lastRefusal at h
  split at h
  · obtain ⟨rfl, rfl⟩ := Prod.mk.inj (Option.some.inj h)
    exact ⟨_, rfl⟩
  · cases h

/-- The mailbox FIFO is full. -/
def ProcOutcome.full : ProcOutcome := { ProcOutcome.smooth with fifoFull := true }

/-- The steps of a call that finds the FIFO full. -/
def refusedSteps : List ProcOutcome := List.replicate 8 .full

theorem writeReturns_of_refused {m : DspMsg} (hcalled : d.crit = .idle)
    (h : Machine.follow driverNext (fopsWrite filep (.msg (.readable m)) d)
      (refusedSteps.map .proc) = some d') (hidle : d'.crit = .idle)
    (hlog : lastRefusal d'.log = some (filep, .EAGAIN)) :
    WriteReturns filep (.msg (.readable m)) d (.error .EAGAIN) d' where
  called := hcalled
  finishes := .of_follow h hidle
  returned := eq_cons_of_lastRefusal hlog

/-- A client that has not written anything yet writes a zero message. -/
theorem failedWrite_clientsKept_new_client :
    ∃ d d', (driverMachine runRam).Reachable d ∧
      WriteReturns 1 (.msg (.readable ⟨0, 0, 0⟩)) d (.error .EAGAIN) d' ∧
      ClientsKept d d' := by
  have hrun : ∃ d, (driverMachine runRam).Reachable d ∧ d.crit = .idle ∧
      d.currentClient = none ∧ d.findClientByFilep 1 = some 0 ∧
      (d.clients 0).state = .idle ∧ (d.clients 0).dspMsg = ⟨0, 0, 0⟩ ∧
      (Machine.follow driverNext
        (fopsWrite 1 (.msg (.readable ⟨0, 0, 0⟩)) d)
        (refusedSteps.map .proc)).any (fun d' => decide (d'.crit = .idle ∧
          lastRefusal d'.log = some (1, .EAGAIN))) = true :=
    Machine.exists_reachable_of_run _ [.openFile c64DevMinor 1] (by decide)
  obtain ⟨d, hd, hidle, hcur, hfind, hstate, hmsg, hcall⟩ := hrun
  obtain ⟨d', hfollow, hend⟩ := (Option.any_eq_true _ _).mp hcall
  obtain ⟨hidle', hlog⟩ := of_decide_eq_true hend
  have hreturns := writeReturns_of_refused hidle hfollow hidle' hlog
  refine ⟨d, d', hd, hreturns, (failedWrite_clientsKept_iff hreturns).mpr ?_⟩
  exact (nothingToLose_readable_iff hcur hfind).mpr ⟨hstate, hmsg⟩

/-- A client has a reply that it has not read.  It writes the next message,
which the DSP refuses, and the reply is lost. -/
theorem failedWrite_loses_reply :
    ∃ d d', (driverMachine runRam).Reachable d ∧
      (d.clients 0).state = .replyAvail ∧
      (d.clients 0).dspMsg = ⟨0x10001, 7, 8⟩ ∧
      WriteReturns 1 (.msg (.readable ⟨0x20002, 1, 1⟩)) d (.error .EAGAIN) d' ∧
      (d'.clients 0).state = .idle ∧
      (d'.clients 0).dspMsg = ⟨0x20002, 1, 1⟩ ∧ ¬ ClientsKept d d' := by
  have hrun : ∃ d, (driverMachine runRam).Reachable d ∧ d.crit = .idle ∧
      (d.clients 0).state = .replyAvail ∧
      (d.clients 0).dspMsg = ⟨0x10001, 7, 8⟩ ∧
      (Machine.follow driverNext
        (fopsWrite 1 (.msg (.readable ⟨0x20002, 1, 1⟩)) d)
        (refusedSteps.map .proc)).any (fun d' => decide (d'.crit = .idle ∧
          lastRefusal d'.log = some (1, .EAGAIN) ∧
          (d'.clients 0).state = .idle ∧
          (d'.clients 0).dspMsg = ⟨0x20002, 1, 1⟩)) = true :=
    Machine.exists_reachable_of_run _
      (startedRun ++ [.answer 0 7 8 0, .irq]) (by decide)
  obtain ⟨d, hd, hidle, hstate, hmsg, hcall⟩ := hrun
  obtain ⟨d', hfollow, hend⟩ := (Option.any_eq_true _ _).mp hcall
  obtain ⟨hidle', hlog, hstate', hmsg'⟩ := of_decide_eq_true hend
  refine ⟨d, d', hd, hstate, hmsg,
    writeReturns_of_refused hidle hfollow hidle' hlog, hstate', hmsg', ?_⟩
  intro hkept
  have hsame := hkept.state 0
  rw [hstate, hstate'] at hsame
  cases hsame

end C64Tools.Kmod
