import C64Tools.Kmod.Dev.Slots
import Mathlib.Data.Finset.Card

/-!
# Counting the open files

`at_num_open` is meant to be the number of connected clients, and two commands
are for a client that is alone.  An open call that finds no entry for its
client has counted itself all the same, and nothing takes that back.
-/

namespace C64Tools.Kmod

open Transition

/-- The clients that are connected. -/
def Driver.connected (d : Driver) : Finset Slot :=
  Finset.univ.filter fun i => (d.clients i).state ≠ .unused

theorem Driver.mem_connected {d : Driver} {i : Slot} :
    i ∈ d.connected ↔ (d.clients i).state ≠ .unused := by
  simp [Driver.connected]

/-- The device is opened while all entries are taken, or for a file that is a
client's already. -/
def RefusesOpen (d : Driver) : Event → Prop
  | .openFile minor filep => minor = c64DevMinor ∧
      (d.findUnused = none ∨ d.findClientByFilep filep ≠ none)
  | _ => False

instance (d : Driver) (e : Event) : Decidable (RefusesOpen d e) := by
  unfold RefusesOpen
  split <;> infer_instance

/-- The driver, and how many open calls it has refused so far. -/
structure Counted where
  driver : Driver
  refused : ℕ

def countedNext (s : Counted) (e : Event) : Option Counted :=
  (driverNext s.driver e).map fun d =>
    ⟨d, if RefusesOpen s.driver e then s.refused + 1 else s.refused⟩

/-- The driver, from the loading of the module on, when it has refused no
open call yet. -/
def countedMachine (ram : DspMemRegion) : Machine Counted Event :=
  Machine.ofNext ⟨Driver.initial ram, 0⟩ countedNext

/-- `at_num_open` is the number of connected clients, and the commands for a
single client are carried out exactly for one that is alone. -/
structure Driver.OpenCounted (d : Driver) : Prop where
  count : d.numOpen = d.connected.card
  pwrOnRst : ∀ filep i o, d.findClientByFilep filep = some i →
    fopsUnlockedIoctl filep (.pwrOnRst o) d =
      if d.connected = {i} then
        ((dspPoweronAndReset o d.dsp).1,
          d.setDsp (dspPoweronAndReset o d.dsp).2)
      else (.error .EBUSY, d)
  start : ∀ filep i o entryPoint, d.findClientByFilep filep = some i →
    fopsUnlockedIoctl filep (.start o entryPoint) d =
      if d.connected = {i} then
        ((dspStart o entryPoint d.dsp).1,
          d.setDsp (dspStart o entryPoint d.dsp).2)
      else (.error .EBUSY, d)

variable {d d' : Driver} {e : Event} {i : Slot} {s : Counted}
  {ram : DspMemRegion}

/-! ## What is counted without being connected -/

/-- By how much the counter exceeds the number of connected clients. -/
def Driver.excess (d : Driver) : ℤ :=
  d.numOpen - d.connected.card

/-- The counter is never compared with its value, so it never stops an open
call. -/
theorem atomicIncAndTest_lt (n : ℤ) : atomicIncAndTest n < c64DevMaxClients := by
  unfold atomicIncAndTest
  split <;> decide

/-- A client that was not connected before is counted. -/
theorem excess_of_connect (hi : (d.clients i).state = .unused)
    (hstate : ∀ j, (d'.clients j).state =
      if j = i then .idle else (d.clients j).state)
    (hnum : d'.numOpen = d.numOpen + 1) : d'.excess = d.excess := by
  have hconnected : d'.connected = insert i d.connected := by
    ext j
    rw [Finset.mem_insert, Driver.mem_connected, Driver.mem_connected, hstate]
    by_cases hji : j = i <;> simp [hji]
  have hnew : i ∉ d.connected := by simp [Driver.mem_connected, hi]
  simp only [Driver.excess, hconnected, Finset.card_insert_of_notMem hnew, hnum]
  omega

/-- A client that was connected before is no longer counted. -/
theorem excess_of_release (hi : (d.clients i).state ≠ .unused)
    (hstate : ∀ j, (d'.clients j).state =
      if j = i then .unused else (d.clients j).state)
    (hnum : d'.numOpen = d.numOpen - 1) : d'.excess = d.excess := by
  have hconnected : d'.connected = d.connected.erase i := by
    ext j
    rw [Finset.mem_erase, Driver.mem_connected, Driver.mem_connected, hstate]
    by_cases hji : j = i <;> simp [hji]
  have hold : i ∈ d.connected := Driver.mem_connected.mpr hi
  have hpos := Finset.card_pos.mpr ⟨i, hold⟩
  simp only [Driver.excess, hconnected, Finset.card_erase_of_mem hold, hnum]
  omega

theorem fopsOpen_excess (minor filep : ℕ) (d : Driver) :
    (fopsOpen minor filep d).2.excess =
      d.excess + if RefusesOpen d (.openFile minor filep) then 1 else 0 := by
  by_cases hminor : minor = c64DevMinor
  · have hcounted : ({ d with numOpen := d.numOpen + 1 } : Driver).excess =
        d.excess + 1 := by
      simp only [Driver.excess, Driver.connected]
      omega
    unfold fopsOpen
    rw [if_pos hminor]
    simp only [atomicIncAndTest_lt, if_true]
    split
    next hclient =>
      replace hclient : d.findClientByFilep filep = none := hclient
      split
      next i hi =>
        replace hi : d.findUnused = some i := hi
        rw [if_neg (by simp [RefusesOpen, hi, hclient]), add_zero]
        refine excess_of_connect (Driver.findUnused_some hi) (fun j => ?_) rfl
        simp only [Driver.observe, Driver.setClient_state]
      next hfull =>
        replace hfull : d.findUnused = none := hfull
        rw [if_pos (by simp [RefusesOpen, hminor, hfull])]
        exact hcounted
    next j hj =>
      replace hj : d.findClientByFilep filep = some j := hj
      rw [if_pos (by simp [RefusesOpen, hminor, hj])]
      exact hcounted
  · simp [fopsOpen, RefusesOpen, hminor]

theorem fopsRelease_excess {filep : ℕ}
    (h : d.findClientByFilep filep ≠ none) :
    (fopsRelease filep d).excess = d.excess := by
  obtain ⟨i, hi⟩ := Option.ne_none_iff_exists'.mp h
  have hfound : ({ d with numOpen := d.numOpen - 1 } : Driver).findClientByFilep
      filep = some i := hi
  refine excess_of_release (Driver.findClientByFilep_some hi).2 (fun j => ?_) ?_
  · simp only [fopsRelease, hfound, Driver.setState]
    exact Driver.setClient_state _ i j _
  · simp only [fopsRelease, hfound, Driver.setState, Driver.setClient_numOpen]

/-- Other steps count nobody. -/
theorem DriverStep.numOpen_eq (hstep : DriverStep d e d')
    (hopen : ∀ minor filep, e ≠ .openFile minor filep)
    (hrelease : ∀ filep, e ≠ .releaseFile filep) : d'.numOpen = d.numOpen := by
  cases hstep with
  | openFailed | opened => exact absurd rfl (hopen _ _)
  | released => exact absurd rfl (hrelease _)
  | ioctl _ _ heff => cases heff <;> rfl
  | @send o who next _ =>
      rcases mlbSendToDsp_cases who next o.fifoFull d with
        ⟨-, -, heq⟩ | ⟨-, -, -, heq⟩ | ⟨-, heq⟩ | ⟨-, heq⟩ | ⟨-, -, heq⟩ |
        ⟨-, -, heq⟩ <;> rw [heq] <;> cases who <;> rfl
  | _ => rfl

theorem driverNext_excess (hslots : Slots d) (hnext : driverNext d e = some d') :
    d'.excess = d.excess + if RefusesOpen d e then 1 else 0 := by
  have hstep := driverNext_step hnext
  cases e with
  | openFile minor filep =>
      obtain ⟨-, heq⟩ := Option.ite_none_right_eq_some.mp hnext
      obtain rfl := Option.some.inj heq
      exact fopsOpen_excess minor filep d
  | releaseFile filep =>
      obtain ⟨⟨-, hfound, -⟩, heq⟩ := Option.ite_none_right_eq_some.mp hnext
      obtain rfl := Option.some.inj heq
      rw [if_neg (by simp [RefusesOpen]), add_zero]
      exact fopsRelease_excess hfound
  | readFile | readCopy | writeFile | ioctl | proc | answer | irq =>
      rw [if_neg (by simp [RefusesOpen]), add_zero]
      have hconnected : d'.connected = d.connected := by
        ext j
        rw [Driver.mem_connected, Driver.mem_connected]
        exact not_congr (hslots.unused_iff hstep nofun nofun j)
      simp only [Driver.excess, hstep.numOpen_eq nofun nofun, hconnected]

/-! ## Runs -/

/-- In every run, the counter exceeds the number of connected clients by the
number of open calls that were refused. -/
theorem excess_of_reachable (hs : (countedMachine ram).Reachable s) :
    s.driver.excess = s.refused := by
  have h : Slots s.driver ∧ s.driver.excess = s.refused := by
    refine hs.invariant (P := fun s => Slots s.driver ∧
      s.driver.excess = s.refused) ?_ ?_
    · rintro s rfl
      refine ⟨initial_slots ram, ?_⟩
      simp [Driver.excess, Driver.connected, Driver.initial, DevClient.initial]
    · rintro s e s' ⟨hslots, hexcess⟩ hnext
      obtain ⟨d', hd', rfl⟩ := Option.map_eq_some_iff.mp hnext
      refine ⟨hslots.step (driverNext_step hd'), ?_⟩
      rw [driverNext_excess hslots hd', hexcess]
      split
      · exact (Int.natCast_succ _).symm
      · exact add_zero _
  exact h.2

/-- With one connected client and a right count, the client is alone. -/
theorem numOpen_eq_one_iff (hs : (countedMachine ram).Reachable s) {filep : ℕ}
    (hi : s.driver.findClientByFilep filep = some i) :
    s.driver.numOpen = 1 ↔ s.driver.connected = {i} ∧ s.refused = 0 := by
  have hexcess := excess_of_reachable hs
  have hmem : i ∈ s.driver.connected :=
    Driver.mem_connected.mpr (Driver.findClientByFilep_some hi).2
  have hpos := Finset.card_pos.mpr ⟨i, hmem⟩
  have halone : s.driver.connected = {i} ↔ s.driver.connected.card = 1 := by
    refine ⟨fun h => by rw [h, Finset.card_singleton], fun h => ?_⟩
    obtain ⟨j, hj⟩ := Finset.card_eq_one.mp h
    obtain rfl : i = j := by simpa [hj] using hmem
    exact hj
  rw [halone]
  unfold Driver.excess at hexcess
  omega

/-- The counter is right, and the commands for a single client are carried out
exactly for one that is alone, as long as no open call was refused, and never
again afterwards. -/
theorem openCounted_iff_refused_eq_zero
    (hs : (countedMachine ram).Reachable s) :
    s.driver.OpenCounted ↔ s.refused = 0 := by
  have hexcess := excess_of_reachable hs
  unfold Driver.excess at hexcess
  constructor
  · intro h
    have hcount := h.count
    omega
  · intro hrefused
    refine ⟨by omega, ?_, ?_⟩
    · intro filep i o hi
      have halone := numOpen_eq_one_iff hs hi
      simp only [fopsUnlockedIoctl, hi, ioctlClient, ioctlPwrOnRst, halone,
        hrefused, and_true]
    · intro filep i o entryPoint hi
      have halone := numOpen_eq_one_iff hs hi
      simp only [fopsUnlockedIoctl, hi, ioctlClient, ioctlStart, halone,
        hrefused, and_true]

/-- Two clients open the device, and the first one closes it. -/
def openingRun : List Event :=
  [.openFile c64DevMinor 1, .openFile c64DevMinor 2, .releaseFile 1] ++
    List.replicate 10 (.proc .smooth)

theorem openingRun_openCounted :
    ∃ s : Counted, s.driver.connected = {1} ∧ s.driver.OpenCounted := by
  have hrun : ∃ s, (countedMachine DspMemRegion.zero).Reachable s ∧
      s.driver.connected = {1} ∧ s.refused = 0 :=
    Machine.exists_reachable_of_run
      (fun s : Counted => s.driver.connected = {1} ∧ s.refused = 0)
      openingRun (by decide +kernel)
  obtain ⟨s, hs, hconnected, hrefused⟩ := hrun
  exact ⟨s, hconnected, (openCounted_iff_refused_eq_zero hs).mpr hrefused⟩

/-- A client is refused because all entries are taken, and all clients but
one leave. -/
def refusedRun : List Event :=
  (List.range 17).map (.openFile c64DevMinor) ++
    (List.range 15).flatMap fun filep =>
      .releaseFile filep :: List.replicate 10 (.proc .smooth)

/-- After an open call that is refused, a client that is alone is told that
it is not. -/
theorem refused_open_blocks_start :
    ∃ d, (driverMachine DspMemRegion.zero).Reachable d ∧ d.crit = .idle ∧
      d.connected = {15} ∧ d.numOpen = 2 ∧
      ∀ o entryPoint, fopsUnlockedIoctl 15 (.start o entryPoint) d =
        (.error .EBUSY, d) := by
  have hrun : ∃ d, (driverMachine DspMemRegion.zero).Reachable d ∧
      d.crit = .idle ∧ d.connected = {15} ∧ d.numOpen = 2 ∧
      d.findClientByFilep 15 = some 15 :=
    Machine.exists_reachable_of_run
      (fun d : Driver => d.crit = .idle ∧ d.connected = {15} ∧
        d.numOpen = 2 ∧ d.findClientByFilep 15 = some 15)
      refusedRun (by decide +kernel)
  obtain ⟨d, hd, hidle, hconnected, hnum, hfound⟩ := hrun
  refine ⟨d, hd, hidle, hconnected, hnum, fun o entryPoint => ?_⟩
  simp [fopsUnlockedIoctl, hfound, ioctlClient, ioctlStart, hnum]

end C64Tools.Kmod
