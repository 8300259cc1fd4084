import C64Tools.Kmod.Dev.Channel

/-!
# Waiting for a reply

`fops__poll`, and the process that waits in `select` for the reply to its
message, as `dsp_rpc_recv` does.

The process puts itself on the wait queue of its client before it looks at the
state of the client, and the interrupt handler changes the state before it wakes
up the queue.  Therefore nothing is lost when the reply comes between the two
steps of the process, or before it sleeps.
-/

namespace C64Tools.Kmod

open Transition

/-- Flags of the mask that `fops__poll` returns. -/
inductive PollFlag where
  | pollin
  | pollrdnorm
  | pollout
  | pollwrnorm
  | pollerr
  deriving DecidableEq, Repr

/-- The mask that `fops__poll` returns. -/
def fopsPoll (filep : ℕ) (d : Driver) : Finset PollFlag :=
  match d.findClientByFilep filep with
  | some i =>
      (if (d.clients i).state = .replyAvail then {.pollin, .pollrdnorm}
        else ∅) ∪ {.pollout, .pollwrnorm}
  | none => {.pollerr}

/-- `dev_handle_reply` wakes up the wait queue of client `i`. -/
def Driver.WakesUp (d : Driver) (i : Slot) : Event → Prop
  | .irq => d.currentClient = some i ∧ (d.clients i).state = .replyPending
  | _ => False

instance (d : Driver) (i : Slot) (e : Event) : Decidable (d.WakesUp i e) := by
  unfold Driver.WakesUp
  split <;> infer_instance

/-- A call on the file, which belongs to client `i`. -/
def Event.callsOn (filep : ℕ) (i : Slot) : Event → Bool
  | .openFile _ f | .releaseFile f | .readFile f _ | .writeFile f _
  | .ioctl f _ => decide (f = filep)
  | .readCopy j _ => decide (j = i)
  | _ => false

/-! ## The process -/

/-- Where the process stands. -/
inductive SelectStage where
  /-- It is not in `select`. -/
  | away
  /-- It is on the wait queue, and looks at the state next. -/
  | looking (i : Slot) (timedOut : Bool)
  /-- There was no reply, and it sleeps until it is woken up. -/
  | waiting (i : Slot)
  /-- There was a reply, and it reads next. -/
  | ready (i : Slot)
  deriving DecidableEq, Repr

/-- The client for which the process waits. -/
def SelectStage.client? : SelectStage → Option Slot
  | .away => none
  | .looking i _ | .waiting i | .ready i => some i

/-- The driver, and a process that waits for a reply.  `woken` says that it was
woken up since it last slept. -/
structure SelectSystem where
  driver : Driver
  stage : SelectStage
  woken : Bool

def SelectSystem.initial (ram : DspMemRegion) : SelectSystem where
  driver := Driver.initial ram
  stage := .away
  woken := false

/-- Steps of the driver, and of the process in `select`. -/
inductive SelectEvent where
  | driver (e : Event)
  | pollWait
  | pollState
  | schedule (timedOut : Bool)
  | read

/-- The process makes no other call on its file while it is in `select`. -/
def SelectSystem.allows (filep : ℕ) (s : SelectSystem) (e : Event) : Bool :=
  s.stage.client?.all fun i => !e.callsOn filep i

/-- The process is woken up. -/
def SelectSystem.wakes (s : SelectSystem) (e : Event) : Bool :=
  s.stage.client?.any fun i => decide (s.driver.WakesUp i e)

/-- The process waits for a reply to `filep`. -/
def selectNext (filep : ℕ) (s : SelectSystem) :
    SelectEvent → Option SelectSystem
  | .driver e =>
      if s.allows filep e then
        (driverNext s.driver e).map fun d =>
          { s with driver := d, woken := s.woken || s.wakes e }
      else none
  | .pollWait =>
      match s.stage, s.driver.findClientByFilep filep with
      | .away, some i =>
          if s.driver.crit.writing = some i then none
          else some { s with stage := .looking i false, woken := false }
      | _, _ => none
  | .pollState =>
      match s.stage with
      | .looking i timedOut =>
          let stage := if .pollin ∈ fopsPoll filep s.driver then .ready i
            else if timedOut then .away else .waiting i
          some { s with stage }
      | _ => none
  | .schedule timedOut =>
      match s.stage with
      | .waiting i =>
          if s.woken || timedOut then
            some { s with stage := .looking i timedOut, woken := false }
          else none
      | _ => none
  | .read =>
      match s.stage with
      | .ready _ =>
          some { s with driver := fopsRead filep 12 s.driver, stage := .away }
      | _ => none

def selectMachine (filep : ℕ) (ram : DspMemRegion) :
    Machine SelectSystem SelectEvent :=
  Machine.ofNext (SelectSystem.initial ram) (selectNext filep)

variable {d d' : Driver} {e : Event} {filep : ℕ} {i : Slot}

theorem mem_fopsPoll (hfound : d.findClientByFilep filep = some i) :
    .pollin ∈ fopsPoll filep d ↔ (d.clients i).state = .replyAvail := by
  unfold fopsPoll
  rw [hfound]
  dsimp only
  split
  next h => simp [h]
  next h => simp [h]

theorem fopsRead_of_avail (hfound : d.findClientByFilep filep = some i)
    (havail : (d.clients i).state = .replyAvail) :
    fopsRead filep 12 d =
      { d with reading := Function.update d.reading i (d.reading i + 1) } := by
  simp only [fopsRead, hfound, havail, if_true]

/-! ## What a step leaves to the client -/

/-- The file belongs to client `i`, for which no message is being written. -/
structure Held (filep : ℕ) (i : Slot) (d : Driver) : Prop where
  found : d.findClientByFilep filep = some i
  writing : d.crit.writing ≠ some i

theorem find_congr
    (h : ∀ j, (d'.clients j).filep = some filep ∧
        (d'.clients j).state ≠ .unused ↔
      (d.clients j).filep = some filep ∧ (d.clients j).state ≠ .unused) :
    d'.findClientByFilep filep = d.findClientByFilep filep := by
  unfold Driver.findClientByFilep
  congr 1
  funext j
  exact decide_eq_decide.mpr (h j)

/-- Who has the file is different only after it is opened or released. -/
theorem DriverStep.file_iff (hslots : Slots d) (hstep : DriverStep d e d')
    (hopen : ∀ minor, e ≠ .openFile minor filep)
    (hrelease : e ≠ .releaseFile filep) (j : Slot) :
    (d'.clients j).filep = some filep ∧ (d'.clients j).state ≠ .unused ↔
      (d.clients j).filep = some filep ∧ (d.clients j).state ≠ .unused := by
  have hconn := hslots.unused_iff hstep
  cases hstep with
  | openFailed => exact Iff.rfl
  | @opened minor f _ k _ hunused =>
      by_cases hj : j = k
      · subst hj
        have hf : f ≠ filep := by
          rintro rfl
          exact hopen minor rfl
        simp [Driver.observe, connect, hunused, hf]
      · simp only [Driver.observe, Driver.setClient_ne _ _ hj]
  | @released f _ k _ hfilep =>
      by_cases hj : j = k
      · subst hj
        have hf : f ≠ filep := by
          rintro rfl
          exact hrelease rfl
        simp [Driver.setState, hfilep, hf]
      · simp only [Driver.setState, Driver.setClient_ne _ _ hj]
  | @relFree _ k hcrit =>
      have hk := hslots.releasing_unused k (by rw [hcrit]; rfl)
      by_cases hj : j = k
      · subst hj
        simp [hk]
      · simp only [Driver.setClient_ne _ _ hj]
  | ioctl _ _ heff => rw [heff.undisturbed.filep, heff.undisturbed.state]
  | send => rw [(mlbSendToDsp_keeps _ _ _ d).clients]
  | @readCopied k | @writeMsg _ k | @writeFault _ k | @setPending _ k
  | @resetState _ k | @relReset _ k | @irqReply k =>
      refine and_congr (Eq.congr_left ?_) (hconn (by simp) (by simp) j).not
      by_cases hj : j = k
      · subst hj
        simp [Driver.observe, Driver.wrote, Driver.setState, takeReply]
      · simp only [Driver.observe, Driver.wrote, Driver.setState,
          Driver.setClient_ne _ _ hj]
  | _ => exact Iff.rfl

theorem keeps_of_update {k : Slot} {c : DevClient} (hik : i ≠ k)
    (h : d'.clients = Function.update d.clients k c) :
    (d'.clients i).state = (d.clients i).state ∧
      (d'.clients i).dspMsg = (d.clients i).dspMsg := by
  rw [h, Function.update_of_ne hik]
  exact ⟨rfl, rfl⟩

/-- A step leaves the reply to a client as it is, unless it is the interrupt
that brings it. -/
theorem DriverStep.keeps_or_wakes (hslots : Slots d) (hstep : DriverStep d e d')
    (hcalls : e.callsOn filep i = false) (h : Held filep i d) :
    ¬d.WakesUp i e ∧ (d'.clients i).state = (d.clients i).state ∧
      (d'.clients i).dspMsg = (d.clients i).dspMsg ∨
    d.WakesUp i e ∧ (d'.clients i).state = .replyAvail := by
  obtain ⟨hfilep, hused⟩ := Driver.findClientByFilep_some h.found
  cases hstep with
  | @opened _ _ _ k _ hunused =>
      have hik : i ≠ k := by
        rintro rfl
        exact hused hunused
      exact Or.inl ⟨id, keeps_of_update hik rfl⟩
  | @released f _ k _ hk | @writeMsg f k _ _ _ hk =>
      have hik : i ≠ k := by
        rintro rfl
        exact of_decide_eq_false hcalls (Option.some.inj (hk.symm.trans hfilep))
      exact Or.inl ⟨id, keeps_of_update hik rfl⟩
  | @writeFault f k _ _ _ hk =>
      have hik : i ≠ k := by
        rintro rfl
        have hk := (Driver.findClientByFilep_some hk).1
        exact of_decide_eq_false hcalls (Option.some.inj (hk.symm.trans hfilep))
      exact Or.inl ⟨id, keeps_of_update hik rfl⟩
  | @readCopied k =>
      have hik : i ≠ k := fun heq => of_decide_eq_false hcalls heq.symm
      exact Or.inl ⟨id, keeps_of_update hik rfl⟩
  | @setPending _ k hcrit | @resetState _ k hcrit =>
      have hik : i ≠ k := by
        rintro rfl
        exact h.writing (by rw [hcrit]; rfl)
      exact Or.inl ⟨id, keeps_of_update hik rfl⟩
  | @relFree _ k hcrit | @relReset _ k hcrit =>
      have hik : i ≠ k := by
        rintro rfl
        exact hused (hslots.releasing_unused i (by rw [hcrit]; rfl))
      exact Or.inl ⟨id, keeps_of_update hik rfl⟩
  | @irqReply k _ _ hcur hpending =>
      by_cases hik : i = k
      · subst hik
        refine Or.inr ⟨⟨hcur, hpending⟩, ?_⟩
        simp [takeReply]
      · refine Or.inl ⟨fun hw => hik ?_, keeps_of_update hik rfl⟩
        exact Option.some.inj (hw.1.symm.trans hcur)
  | irqIgnored _ _ hnot =>
      exact Or.inl ⟨fun hw => hnot i hw.1 hw.2, rfl, rfl⟩
  | ioctl _ _ heff =>
      exact Or.inl ⟨id, heff.undisturbed.state i, heff.undisturbed.dspMsg i⟩
  | send =>
      rw [(mlbSendToDsp_keeps _ _ _ d).clients]
      exact Or.inl ⟨id, rfl, rfl⟩
  | _ => exact Or.inl ⟨id, rfl, rfl⟩

/-- There is a reply after a step if there was one, or the step wakes up the
queue. -/
theorem DriverStep.avail_iff (hslots : Slots d) (hstep : DriverStep d e d')
    (hcalls : e.callsOn filep i = false) (h : Held filep i d) :
    (d'.clients i).state = .replyAvail ↔
      (d.clients i).state = .replyAvail ∨ d.WakesUp i e := by
  obtain ⟨hno, hstate, -⟩ | ⟨hw, havail⟩ := hstep.keeps_or_wakes hslots hcalls h
  · rw [hstate, or_iff_left hno]
  · exact iff_of_true havail (Or.inr hw)

/-- No message is written for the client unless the process calls `write`. -/
theorem DriverStep.keeps_writing (hstep : DriverStep d e d')
    (hcalls : e.callsOn filep i = false) (h : Held filep i d) :
    d'.crit.writing ≠ some i := by
  obtain ⟨hfilep, -⟩ := Driver.findClientByFilep_some h.found
  have hwriting := h.writing
  cases hstep with
  | @writeMsg f k _ _ _ hk =>
      intro hi
      obtain rfl : k = i := Option.some.inj hi
      exact of_decide_eq_false hcalls (Option.some.inj (hk.symm.trans hfilep))
  | @send o who next hcrit =>
      intro hi
      have hi := (mlbSendToDsp_crit who next o.fifoFull d).2 i hi
      exact hwriting (hcrit ▸ hi)
  | ioctl _ _ heff =>
      rw [heff.undisturbed.crit]
      exact hwriting
  | setCurrent hcrit | setPending hcrit | resetCurrent hcrit =>
      rw [hcrit] at hwriting
      exact hwriting
  | relReset =>
      dsimp only
      split <;> nofun
  | openFailed | opened | nothingToRead | readFound | readCopied | readFailed
  | ioctlUnknown | answered | irqReply | irqIgnored => exact hwriting
  | _ => nofun

/-- The client of a file stays the same until the file is released. -/
theorem DriverStep.find_eq (hslots : Slots d) (hstep : DriverStep d e d')
    (hopen : ∀ minor, e ≠ .openFile minor filep)
    (hrelease : e ≠ .releaseFile filep) :
    d'.findClientByFilep filep = d.findClientByFilep filep :=
  find_congr (hstep.file_iff hslots hopen hrelease)

theorem Held.step (hslots : Slots d) (h : Held filep i d)
    (hstep : DriverStep d e d') (hcalls : e.callsOn filep i = false) :
    Held filep i d' where
  found := by
    rw [hstep.find_eq hslots, h.found]
    · rintro minor rfl
      simp [Event.callsOn] at hcalls
    · rintro rfl
      simp [Event.callsOn] at hcalls
  writing := hstep.keeps_writing hcalls h

/-! ## The invariant -/

/-- What the process relies on where it stands. -/
def SelectSystem.InStage (filep : ℕ) (s : SelectSystem) : Prop :=
  match s.stage with
  | .away => True
  | .looking i _ => Held filep i s.driver ∧
      (s.woken = true → (s.driver.clients i).state = .replyAvail)
  | .waiting i => Held filep i s.driver ∧
      (s.woken = true ↔ (s.driver.clients i).state = .replyAvail)
  | .ready i => Held filep i s.driver ∧
      (s.driver.clients i).state = .replyAvail

/-- The process relies on the same things after a step of the driver. -/
theorem SelectSystem.InStage.driver {s : SelectSystem} (h : s.InStage filep)
    (hslots : Slots s.driver) (hstep : DriverStep s.driver e d')
    (hallows : s.allows filep e = true) :
    SelectSystem.InStage filep
      { s with driver := d', woken := s.woken || s.wakes e } := by
  obtain ⟨d, stage, woken⟩ := s
  have hcalls (j : Slot) (hj : stage.client? = some j) : e.callsOn filep j = false := by
    simpa [SelectSystem.allows, hj] using hallows
  have hwakes (j : Slot) (hj : stage.client? = some j) :
      (woken || SelectSystem.wakes ⟨d, stage, woken⟩ e) = true ↔
        woken = true ∨ d.WakesUp j e := by
    simp [SelectSystem.wakes, hj]
  cases stage with
  | away => trivial
  | looking j timedOut =>
      obtain ⟨hheld, hwoken⟩ := h
      refine ⟨hheld.step hslots hstep (hcalls j rfl), fun hnow => ?_⟩
      rw [hstep.avail_iff hslots (hcalls j rfl) hheld]
      exact ((hwakes j rfl).mp hnow).imp_left hwoken
  | waiting j =>
      obtain ⟨hheld, hwoken⟩ := h
      refine ⟨hheld.step hslots hstep (hcalls j rfl), ?_⟩
      rw [hstep.avail_iff hslots (hcalls j rfl) hheld, ← hwoken]
      exact hwakes j rfl
  | ready j =>
      obtain ⟨hheld, havail⟩ := h
      refine ⟨hheld.step hslots hstep (hcalls j rfl), ?_⟩
      exact (hstep.avail_iff hslots (hcalls j rfl) hheld).mpr (Or.inl havail)

theorem SelectSystem.InStage.next {s t : SelectSystem} {a : SelectEvent}
    (h : s.InStage filep) (hslots : Slots s.driver)
    (hnext : selectNext filep s a = some t) :
    t.InStage filep ∧ Slots t.driver := by
  cases a with
  | driver e =>
      obtain ⟨hallows, hmap⟩ := Option.ite_none_right_eq_some.mp hnext
      obtain ⟨d', hd', rfl⟩ := Option.map_eq_some_iff.mp hmap
      have hstep := driverNext_step hd'
      exact ⟨h.driver hslots hstep hallows, hslots.step hstep⟩
  | pollWait =>
      simp only [selectNext] at hnext
      split at hnext
      next i _ hfound =>
        obtain ⟨hwriting, ⟨⟩⟩ := Option.ite_none_left_eq_some.mp hnext
        exact ⟨⟨⟨hfound, hwriting⟩, nofun⟩, hslots⟩
      next => cases hnext
  | pollState =>
      simp only [selectNext] at hnext
      split at hnext
      next i timedOut hstage =>
        cases hnext
        refine ⟨?_, hslots⟩
        rw [SelectSystem.InStage, hstage] at h
        obtain ⟨hheld, hwoken⟩ := h
        have hmem := mem_fopsPoll hheld.found
        by_cases havail : .pollin ∈ fopsPoll filep s.driver
        · rw [if_pos havail]
          exact ⟨hheld, hmem.mp havail⟩
        · rw [if_neg havail]
          have hno := havail ∘ hmem.mpr
          cases timedOut with
          | false => exact ⟨hheld, iff_of_false (hno ∘ hwoken) hno⟩
          | true => trivial
      next => cases hnext
  | schedule timedOut =>
      simp only [selectNext] at hnext
      split at hnext
      next i hstage =>
        obtain ⟨-, ⟨⟩⟩ := Option.ite_none_right_eq_some.mp hnext
        rw [SelectSystem.InStage, hstage] at h
        exact ⟨⟨h.1, nofun⟩, hslots⟩
      next => cases hnext
  | read =>
      simp only [selectNext] at hnext
      split at hnext
      next =>
        cases hnext
        refine ⟨trivial, hslots.step (driverNext_step (e := .readFile filep 12) rfl)⟩
      next => cases hnext

theorem inStage_of_reachable {ram : DspMemRegion} {s : SelectSystem}
    (hs : (selectMachine filep ram).Reachable s) :
    s.InStage filep ∧ Slots s.driver := by
  refine Machine.Reachable.invariant
    (P := fun s => s.InStage filep ∧ Slots s.driver) ?_ ?_ hs
  · rintro s rfl
    exact ⟨trivial, initial_slots ram⟩
  · rintro s a t ⟨hstage, hslots⟩ hnext
    exact hstage.next hslots hnext

/-- In every run, a process that sleeps was woken up if and only if its reply is
there; and when it reads, it finds the reply of its own client. -/
theorem select_wakes {ram : DspMemRegion} {s : SelectSystem}
    (hs : (selectMachine filep ram).Reachable s) :
    (∀ i, s.stage = .waiting i →
      (s.woken = true ↔ .pollin ∈ fopsPoll filep s.driver)) ∧
    ∀ i, s.stage = .ready i →
      .pollin ∈ fopsPoll filep s.driver ∧
      (fopsRead filep 12 s.driver).reading i = s.driver.reading i + 1 ∧
      (fopsReadCopy i true (fopsRead filep 12 s.driver)).log =
        .delivered i (s.driver.clients i).dspMsg :: s.driver.log := by
  obtain ⟨hstage, -⟩ := inStage_of_reachable hs
  refine ⟨fun i hi => ?_, fun i hi => ?_⟩ <;>
    rw [SelectSystem.InStage, hi] at hstage
  · obtain ⟨hheld, hwoken⟩ := hstage
    rw [mem_fopsPoll hheld.found]
    exact hwoken
  · obtain ⟨hheld, havail⟩ := hstage
    rw [mem_fopsPoll hheld.found, fopsRead_of_avail hheld.found havail]
    exact ⟨havail, Function.update_self _ _ _, rfl⟩

/-- The process sleeps until the reply comes. -/
def selectRun : List SelectEvent :=
  startedRun.map .driver ++ [.pollWait, .pollState, .driver (.answer 0 5 6 0),
    .driver .irq, .schedule false, .pollState]

theorem select_wakes_selectRun :
    ∃ s : SelectSystem, s.stage = .ready 0 ∧
      (fopsReadCopy 0 true (fopsRead 1 12 s.driver)).log =
        .delivered 0 (s.driver.clients 0).dspMsg :: s.driver.log := by
  have hrun : ∃ s, (selectMachine 1 runRam).Reachable s ∧ s.stage = .ready 0 :=
    Machine.exists_reachable_of_run _ selectRun (by decide)
  obtain ⟨s, hs, hready⟩ := hrun
  exact ⟨s, hready, ((select_wakes hs).2 0 hready).2.2⟩

end C64Tools.Kmod
