import C64Tools.Kmod.Dev.Inversion

/-!
# Clients and open calls

While a file operation works for a client, the entry of the client stays what
it is: a read or a write is for a connected client, and the entry that
`fops__release` clears stays unused until the call returns.
-/

namespace C64Tools.Kmod

open Transition

/-- The client for which `fops__release` is under way. -/
def Crit.releasing : Crit → Option Slot
  | .relCurrent i | .relFastcall i | .relFree i | .relSection i _
  | .relWait i _ | .relMark i _ | .relReset i
  | .sending (.emergency i _) _ => some i
  | _ => none

/-- The client whose message `fops__write` is sending. -/
def Crit.writing : Crit → Option Slot
  | .writeCopied i | .writeCurrent i | .writeRefused i | .writeReset i
  | .sending (.client i) _ => some i
  | _ => none

/-- Calls under way have the client they started with. -/
structure Slots (d : Driver) : Prop where
  reading_connected : ∀ i, 0 < d.reading i → (d.clients i).state ≠ .unused
  releasing_unused : ∀ i, d.crit.releasing = some i →
    (d.clients i).state = .unused
  writing_connected : ∀ i, d.crit.writing = some i →
    (d.clients i).state ≠ .unused

theorem initial_slots (ram : DspMemRegion) : Slots (Driver.initial ram) where
  reading_connected _ h := absurd h (Nat.lt_irrefl 0)
  releasing_unused _ h := absurd h (by simp [Driver.initial, Crit.releasing])
  writing_connected _ h := absurd h (by simp [Driver.initial, Crit.writing])

/-- Who is connected changes only when the device is opened or released. -/
theorem Slots.unused_iff {d d' : Driver} {e : Event} (h : Slots d)
    (hstep : DriverStep d e d') (hopen : ∀ minor filep, e ≠ .openFile minor filep)
    (hrelease : ∀ filep, e ≠ .releaseFile filep) (j : Slot) :
    (d'.clients j).state = .unused ↔ (d.clients j).state = .unused := by
  cases hstep with
  | openFailed | opened => exact absurd rfl (hopen _ _)
  | released => exact absurd rfl (hrelease _)
  | ioctl _ _ heff => rw [heff.undisturbed.state]
  | send => rw [(mlbSendToDsp_keeps _ _ _ d).clients]
  | @readCopied i hpos =>
      have hi := h.reading_connected i hpos
      simp only [Driver.observe, Driver.setState, Driver.setClient_state]
      grind
  | writeMsg | writeFault | relFree | relReset =>
      simp only [Driver.wrote, Driver.setClient_state]
      grind
  | @setPending _ i hcrit | @resetState _ i hcrit =>
      have hi := h.writing_connected i (by rw [hcrit]; rfl)
      simp only [Driver.wrote, Driver.setState, Driver.setClient_state]
      grind
  | irqReply _ _ _ hpending =>
      simp only [takeReply, Driver.setClient_state]
      grind
  | _ => exact Iff.rfl

/-- The same clients are connected, and no call began for an unused entry. -/
theorem Slots.of_connected {d d' : Driver} (h : Slots d)
    (hstate : ∀ i, (d'.clients i).state = .unused ↔
      (d.clients i).state = .unused)
    (hreading : ∀ i, 0 < d'.reading i → 0 < d.reading i ∨
      (d.clients i).state ≠ .unused)
    (hreleasing : ∀ i, d'.crit.releasing = some i → d.crit.releasing = some i)
    (hwriting : ∀ i, d'.crit.writing = some i → d.crit.writing = some i ∨
      (d.clients i).state ≠ .unused) :
    Slots d' where
  reading_connected i hi := by
    rw [Ne, hstate]
    exact (hreading i hi).elim (h.reading_connected i) id
  releasing_unused i hi := by
    rw [hstate]
    exact h.releasing_unused i (hreleasing i hi)
  writing_connected i hi := by
    rw [Ne, hstate]
    exact (hwriting i hi).elim (h.writing_connected i) id

theorem reading_of_pred {d : Driver} {i j : Slot}
    (hj : 0 < Function.update d.reading i (d.reading i - 1) j) :
    0 < d.reading j := by
  rw [Function.update_apply] at hj
  split at hj
  next hji =>
    subst hji
    exact Nat.lt_of_lt_of_le hj (Nat.sub_le _ _)
  next => exact hj

/-- The process that sends goes on for the same client, or returns. -/
theorem mlbSendToDsp_crit (who : Sender) (next : SendStep) (fifoFull : Bool)
    (d : Driver) :
    (∀ i, (mlbSendToDsp who next fifoFull d).crit.releasing = some i ↔
      (Crit.sending who next).releasing = some i) ∧
    ∀ i, (mlbSendToDsp who next fifoFull d).crit.writing = some i →
      (Crit.sending who next).writing = some i := by
  rcases mlbSendToDsp_cases who next fifoFull d with
    ⟨-, -, heq⟩ | ⟨-, -, -, heq⟩ | ⟨-, heq⟩ | ⟨-, heq⟩ | ⟨-, -, heq⟩ |
    ⟨-, -, heq⟩ <;> rw [heq] <;> cases who <;>
    simp [sendFailed, sendSucceeded, Driver.wrote, Crit.releasing,
      Crit.writing]

theorem Slots.step {d d' : Driver} {e : Event} (h : Slots d)
    (hstep : DriverStep d e d') : Slots d' := by
  have hconn := h.unused_iff hstep
  have hsame (j : Slot) (hj : 0 < d.reading j) :
      0 < d.reading j ∨ (d.clients j).state ≠ .unused := Or.inl hj
  cases hstep with
  | nothingToRead | ioctlUnknown => exact h
  | openFailed =>
      exact h.of_connected (fun _ => Iff.rfl) hsame (fun _ => id)
        fun _ => Or.inl
  | @opened _ _ _ i hcrit hunused =>
      -- no call is under way for the entry that is taken
      refine ⟨fun j hj => ?_, fun j hj => ?_, fun j hj => ?_⟩
      · simp only [Driver.observe, Driver.setClient_state, connect]
        split
        · nofun
        · exact h.reading_connected j hj
      · exact absurd hj (by simp [Driver.observe, hcrit, Crit.releasing])
      · exact absurd hj (by simp [Driver.observe, hcrit, Crit.writing])
  | @released _ _ i hcrit _ _ hreading =>
      refine ⟨fun j hj => ?_, fun j hj => ?_, nofun⟩
      · have hji : j ≠ i := by
          rintro rfl
          exact absurd hj (by simp [Driver.setState, hreading])
        simpa [Driver.setState, Driver.setClient_state, hji] using
          h.reading_connected j hj
      · obtain rfl : i = j := Option.some.inj hj
        simp [Driver.setState]
  | @send o who next hcrit =>
      have hgo := mlbSendToDsp_crit who next o.fifoFull d
      rw [← hcrit] at hgo
      refine h.of_connected (hconn nofun nofun) (fun j => ?_)
        (fun j => (hgo.1 j).mp) fun j hj => Or.inl (hgo.2 j hj)
      rw [(mlbSendToDsp_keeps _ _ _ d).reading]
      exact hsame j
  | @readFound _ _ i havail =>
      refine h.of_connected (hconn nofun nofun) (fun j hj => ?_) (fun _ => id)
        fun _ => Or.inl
      by_cases hji : j = i
      · exact Or.inr (by simp [hji, havail])
      · exact Or.inl (by simpa [hji] using hj)
  | readCopied | readFailed =>
      exact h.of_connected (hconn nofun nofun)
        (fun j hj => Or.inl (reading_of_pred hj)) (fun _ => id) fun _ => Or.inl
  | @writeMsg _ i _ hcrit _ _ hstate =>
      refine h.of_connected (hconn nofun nofun) hsame nofun fun j hj => ?_
      obtain rfl : i = j := Option.some.inj hj
      exact Or.inr hstate
  | ioctl _ _ heff =>
      have hund := heff.undisturbed
      refine h.of_connected (hconn nofun nofun)
        (fun j => by rw [hund.reading]; exact hsame j) ?_ ?_ <;> rw [hund.crit]
      · exact fun _ => id
      · exact fun _ => Or.inl
  | answered | irqReply | irqIgnored =>
      exact h.of_connected (hconn nofun nofun) hsame (fun _ => id)
        fun _ => Or.inl
  | writeFault | writeTest | writeError | resetState | relSynced | relBusy =>
      exact h.of_connected (hconn nofun nofun) hsame nofun nofun
  | relReset hcrit =>
      refine h.of_connected (hconn nofun nofun) hsame ?_ ?_ <;>
        intro j hj <;> simp only at hj <;> split at hj <;> cases hj
  | setPending hcrit | setCurrent hcrit | resetCurrent hcrit
  | testCurrent hcrit | relNotCurrent hcrit | relIsCurrent hcrit
  | relFastcall hcrit | relFree hcrit | relHeld hcrit | relNotHeld hcrit
  | relChecked hcrit | relReady hcrit | relTimeout hcrit | relMark hcrit =>
      refine h.of_connected (hconn nofun nofun) hsame ?_ ?_ <;> rw [hcrit] <;>
        simp [Crit.releasing, Crit.writing, Or.inl]

/-- Calls keep their client in every run. -/
theorem slots_of_reachable {ram : DspMemRegion} {ok : Driver → Event → Prop}
    {d : Driver} (hd : ((driverMachine ram).restrict ok).Reachable d) :
    Slots d :=
  driver_invariant (initial_slots ram) (fun _ _ _ h _ => h.step) hd

end C64Tools.Kmod
