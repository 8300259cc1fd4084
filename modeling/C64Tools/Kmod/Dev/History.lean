import C64Tools.Kmod.Dev.Inversion

/-!
# What the clients and the DSP observe

The reply that a client waits for is the answer to the message of its that was
accepted last.  The history of a run is routed correctly when every message
that a read returned is the reply its client waited for at that point.
-/

namespace C64Tools.Kmod

open Transition

/-- The message whose reply a client waits for: the last one that was
accepted, unless a reply was delivered since, or the entry was taken by another
client. -/
def awaited (i : Slot) : List Obs → Option (ℕ × DspMsg)
  | [] => none
  | .opened j :: log => if j = i then none else awaited i log
  | .accepted j id m :: log => if j = i then some (id, m) else awaited i log
  | .delivered j _ :: log => if j = i then none else awaited i log
  | _ :: log => awaited i log

/-- A message is the answer of the DSP that a client waits for. -/
def IsReply (i : Slot) (m : DspMsg) (log : List Obs) : Prop :=
  ∃ id q r₀ r₁, awaited i log = some (id, q) ∧ .answered id r₀ r₁ ∈ log ∧
    m = ⟨q.comp, r₀, r₁⟩

/-- Every message that was delivered was the awaited reply. -/
def RoutedLog : List Obs → Prop
  | [] => True
  | .delivered i m :: log => IsReply i m log ∧ RoutedLog log
  | _ :: log => RoutedLog log

/-- The numbers of the accepted messages of clients. -/
def acceptedIds : List Obs → List ℕ :=
  List.filterMap fun
    | .accepted _ id _ => some id
    | _ => none

/-- The numbers of the messages that the DSP has answered. -/
def answeredIds : List Obs → List ℕ :=
  List.filterMap fun
    | .answered id _ _ => some id
    | _ => none

/-- The message that the last observation delivers. -/
def lastDelivery : List Obs → Option (Slot × DspMsg)
  | .delivered i m :: _ => some (i, m)
  | _ => none

theorem eq_cons_of_lastDelivery {log : List Obs} {i : Slot} {m : DspMsg}
    (h : lastDelivery log = some (i, m)) :
    log = .delivered i m :: log.tail := by
  unfold lastDelivery at h
  split at h <;> cases h
  rfl

theorem mem_answeredIds {log : List Obs} {id r₀ r₁ : ℕ}
    (h : .answered id r₀ r₁ ∈ log) : id ∈ answeredIds log :=
  List.mem_filterMap.mpr ⟨_, h, rfl⟩

/-! ## Observations that concern other clients -/

/-- The observation changes what a client waits for. -/
def Obs.Concerns (i : Slot) : Obs → Prop
  | .opened j | .accepted j _ _ | .delivered j _ => j = i
  | _ => False

theorem awaited_cons {i : Slot} {o : Obs} (h : ¬o.Concerns i)
    (log : List Obs) : awaited i (o :: log) = awaited i log := by
  cases o with
  | opened j => exact if_neg h
  | wrote filep ret => rfl
  | accepted j id m => exact if_neg h
  | answered id r₀ r₁ => rfl
  | delivered j m => exact if_neg h

theorem awaited_opened_ne {i j : Slot} (h : i ≠ j) (log : List Obs) :
    awaited i (.opened j :: log) = awaited i log :=
  awaited_cons (o := .opened j) (Ne.symm h) log

theorem awaited_delivered_ne {i j : Slot} (h : i ≠ j) (m : DspMsg)
    (log : List Obs) : awaited i (.delivered j m :: log) = awaited i log :=
  awaited_cons (o := .delivered j m) (Ne.symm h) log

theorem IsReply.cons {i : Slot} {m : DspMsg} {log : List Obs} {o : Obs}
    (h : IsReply i m log) (ho : ¬o.Concerns i) : IsReply i m (o :: log) := by
  obtain ⟨id, q, r₀, r₁, hawaited, hanswered, hm⟩ := h
  exact ⟨id, q, r₀, r₁, (awaited_cons ho log).trans hawaited,
    List.mem_cons_of_mem o hanswered, hm⟩

theorem RoutedLog.cons {log : List Obs} {o : Obs} (h : RoutedLog log)
    (ho : ∀ i m, o ≠ .delivered i m) : RoutedLog (o :: log) := by
  cases o with
  | delivered i m => exact absurd rfl (ho i m)
  | _ => exact h

/-- Each delivered message in a routed history, with what came before it. -/
theorem RoutedLog.isReply {newer older : List Obs} {i : Slot} {m : DspMsg}
    (h : RoutedLog (newer ++ .delivered i m :: older)) : IsReply i m older := by
  induction newer with
  | nil => exact h.1
  | cons o newer ih =>
      refine ih ?_
      cases o with
      | delivered j n => exact h.2
      | _ => exact h

/-! ## Message numbers -/

/-- Message numbers are used once, and a message is answered once. -/
structure Numbered (d : Driver) : Prop where
  accepted_lt : ∀ id ∈ acceptedIds d.log, id < d.nextId
  accepted_nodup : (acceptedIds d.log).Nodup
  unanswered_lt : ∀ r ∈ d.unanswered, r.id < d.nextId
  answered_lt : ∀ id ∈ answeredIds d.log, id < d.nextId
  answered_nodup : (answeredIds d.log).Nodup
  not_answered : ∀ r ∈ d.unanswered, r.id ∉ answeredIds d.log

theorem initial_numbered (ram : DspMemRegion) :
    Numbered (Driver.initial ram) where
  accepted_lt _ h := by cases h
  accepted_nodup := List.nodup_nil
  unanswered_lt _ h := by cases h
  answered_lt _ h := by cases h
  answered_nodup := List.nodup_nil
  not_answered _ h := by cases h

/-- Neither numbers nor requests are different. -/
theorem Numbered.of_same {d d' : Driver} (h : Numbered d)
    (hnext : d'.nextId = d.nextId) (hun : d'.unanswered = d.unanswered)
    (hacc : acceptedIds d'.log = acceptedIds d.log)
    (hans : answeredIds d'.log = answeredIds d.log) : Numbered d' := by
  obtain ⟨h₁, h₂, h₃, h₄, h₅, h₆⟩ := h
  constructor <;> simpa only [hnext, hun, hacc, hans]

theorem sendFailed_numbered {d : Driver} (h : Numbered d) (who : Sender) :
    Numbered (sendFailed who d) := by
  cases who <;> exact h.of_same rfl rfl rfl rfl

/-- A message that is written gets a number of its own. -/
theorem Numbered.publish {d d' : Driver} {r : Request} (h : Numbered d)
    (hid : r.id = d.nextId) (hun : d'.unanswered = d.unanswered ++ [r])
    (hnext : d'.nextId = d.nextId + 1)
    (hacc : acceptedIds d'.log = acceptedIds d.log ∨
      acceptedIds d'.log = d.nextId :: acceptedIds d.log)
    (hans : answeredIds d'.log = answeredIds d.log) : Numbered d' where
  accepted_lt id hmem := by
    rw [hnext]
    rcases hacc with hacc | hacc <;> rw [hacc] at hmem
    · exact Nat.lt_succ_of_lt (h.accepted_lt id hmem)
    · rcases List.mem_cons.mp hmem with rfl | hmem
      · exact Nat.lt_succ_self _
      · exact Nat.lt_succ_of_lt (h.accepted_lt id hmem)
  accepted_nodup := by
    rcases hacc with hacc | hacc <;> rw [hacc]
    · exact h.accepted_nodup
    · refine List.nodup_cons.mpr ⟨fun hmem => ?_, h.accepted_nodup⟩
      exact Nat.lt_irrefl _ (h.accepted_lt _ hmem)
  unanswered_lt q hq := by
    rw [hnext]
    rcases List.mem_append.mp (hun ▸ hq) with hq | hq
    · exact Nat.lt_succ_of_lt (h.unanswered_lt q hq)
    · rw [List.mem_singleton.mp hq, hid]
      exact Nat.lt_succ_self _
  answered_lt id hmem := by
    rw [hnext]
    exact Nat.lt_succ_of_lt (h.answered_lt id (hans ▸ hmem))
  answered_nodup := by
    rw [hans]
    exact h.answered_nodup
  not_answered q hq := by
    rw [hans]
    rcases List.mem_append.mp (hun ▸ hq) with hq | hq
    · exact h.not_answered q hq
    · rw [List.mem_singleton.mp hq, hid]
      exact fun hmem => Nat.lt_irrefl _ (h.answered_lt _ hmem)

theorem sendSucceeded_numbered {d : Driver} (h : Numbered d) (who : Sender) :
    Numbered (sendSucceeded who (publish who d)) := by
  cases who with
  | client i =>
      exact h.publish (r := ⟨d.nextId, _, _, _⟩) rfl rfl rfl (Or.inr rfl) rfl
  | test filep val =>
      exact h.publish (r := ⟨d.nextId, _, _, _⟩) rfl rfl rfl (Or.inl rfl) rfl
  | emergency i s =>
      exact h.publish (r := ⟨d.nextId, _, _, _⟩) rfl rfl rfl (Or.inl rfl) rfl

/-- The DSP answers a message once. -/
theorem Numbered.answered {d d' : Driver} {r : Request} {r₀ r₁ : ℕ}
    (h : Numbered d) (hr : r ∈ d.unanswered) (hnext : d'.nextId = d.nextId)
    (hun : d'.unanswered = d.unanswered.filter fun q => q.id ≠ r.id)
    (hlog : d'.log = .answered r.id r₀ r₁ :: d.log) : Numbered d' := by
  have hacc : acceptedIds d'.log = acceptedIds d.log := by rw [hlog]; rfl
  have hans : answeredIds d'.log = r.id :: answeredIds d.log := by
    rw [hlog]
    rfl
  refine ⟨?_, ?_, fun q hq => ?_, fun id hmem => ?_, ?_, fun q hq => ?_⟩
  · rw [hacc, hnext]
    exact h.accepted_lt
  · rw [hacc]
    exact h.accepted_nodup
  · rw [hun] at hq
    rw [hnext]
    exact h.unanswered_lt q (List.mem_filter.mp hq).1
  · rw [hnext]
    rcases List.mem_cons.mp (hans ▸ hmem) with rfl | hmem
    · exact h.unanswered_lt r hr
    · exact h.answered_lt id hmem
  · rw [hans]
    exact List.nodup_cons.mpr ⟨h.not_answered r hr, h.answered_nodup⟩
  · rw [hun] at hq
    obtain ⟨hq, hne⟩ := List.mem_filter.mp hq
    rw [hans, List.mem_cons, not_or]
    exact ⟨by simpa using hne, h.not_answered q hq⟩

theorem Numbered.send {d : Driver} (h : Numbered d) (who : Sender)
    (next : SendStep) (fifoFull : Bool) :
    Numbered (mlbSendToDsp who next fifoFull d) := by
  rcases mlbSendToDsp_cases who next fifoFull d with
    ⟨-, -, heq⟩ | ⟨-, -, -, heq⟩ | ⟨-, heq⟩ | ⟨-, heq⟩ | ⟨-, -, heq⟩ |
    ⟨-, -, heq⟩ <;> rw [heq]
  · exact h.of_same rfl rfl rfl rfl
  · exact sendFailed_numbered h who
  · exact h.of_same rfl rfl rfl rfl
  · exact h.of_same rfl rfl rfl rfl
  · exact sendFailed_numbered (d := { d with ready := true })
      (h.of_same rfl rfl rfl rfl) who
  · exact sendSucceeded_numbered h who

theorem Numbered.step {d d' : Driver} {e : Event} (h : Numbered d)
    (hstep : DriverStep d e d') : Numbered d' := by
  cases hstep with
  | send => exact h.send _ _ _
  | ioctl _ _ heff =>
      have hund := heff.undisturbed
      exact h.of_same hund.nextId hund.unanswered (by rw [hund.log])
        (by rw [hund.log])
  | answered hr hid _ _ =>
      subst hid
      exact h.answered hr rfl rfl rfl
  | _ => exact h.of_same rfl rfl rfl rfl

theorem numbered_of_reachable {ram : DspMemRegion}
    {ok : Driver → Event → Prop} {d : Driver}
    (hd : ((driverMachine ram).restrict ok).Reachable d) : Numbered d :=
  driver_invariant (initial_numbered ram) (fun _ _ _ h _ => h.step) hd

end C64Tools.Kmod
