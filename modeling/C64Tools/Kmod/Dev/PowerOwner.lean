import C64Tools.Kmod.Dev.Channel

/-!
# Who keeps the DSP on

`client_powerstate_mask` has a bit for each client that has asked for the DSP,
and the DSP is switched off when the last bit is cleared.  The bit is set
before the DSP is resumed, and it stays when that fails.
-/

namespace C64Tools.Kmod

open Transition

/-- The clients for which the DSP was resumed, until they give it up. -/
structure Owned where
  driver : Driver
  kept : Finset Slot

/-- Who keeps the DSP on after a command of client `i`. -/
def IoctlCmd.keptAfter (i : Slot) (p : DspC64) (kept : Finset Slot) :
    IoctlCmd → Finset Slot
  | .resume o =>
      match (dspResume o p).1 with
      | .ok () => insert i kept
      | .error _ => kept
  | .pwrOff _ _ => kept.erase i
  | _ => kept

/-- Who keeps the DSP on after a step. -/
def Owned.keep (s : Owned) : Event → Finset Slot
  | .ioctl filep cmd =>
      match s.driver.findClientByFilep filep with
      | some i => cmd.keptAfter i s.driver.dsp s.kept
      | none => s.kept
  | .releaseFile filep =>
      match s.driver.findClientByFilep filep with
      | some i => s.kept.erase i
      | none => s.kept
  | _ => s.kept

/-- The next state of the driver, and who keeps the DSP on. -/
def ownedNext (s : Owned) (e : Event) : Option Owned :=
  (driverNext s.driver e).map fun d => ⟨d, s.keep e⟩

/-- The driver, from the loading of the module on, when no client keeps the DSP
on yet. -/
def ownedMachine (ram : DspMemRegion) : Machine Owned Event :=
  Machine.ofNext ⟨Driver.initial ram, ∅⟩ ownedNext

/-- The bits in the mask are those of the connected clients that keep the DSP
on.  With one of them the program runs, and as long as it goes on to keep the
DSP on, nothing is done to the DSP. -/
structure Owned.PowerOwned (s : Owned) : Prop where
  connected : ∀ i ∈ s.driver.powerMask, (s.driver.clients i).state ≠ .unused
  running : s.driver.powerMask ≠ ∅ → s.driver.power.dspState = .running
  keeps : s.kept ⊆ s.driver.powerMask
  unblocked : s.driver.powerMask ⊆ s.kept
  steady : ∀ e s', ownedNext s e = some s' → s.kept ∩ s'.kept ≠ ∅ →
    s'.driver.power = s.driver.power

/-- `dsp_resume` succeeds: the program runs, or the DSP is off, was started
before, and nothing times out. -/
def CanResume (o : PowerOutcome) (p : Power) : Prop :=
  p.dspState = .running ∨
    p.dspState = .off ∧ p.entryPoint ≠ 0 ∧
      (o.waits 0 = true ∧ o.waits 1 = true ∧ o.waits 2 = true) ∧
      (p.entryPoint ≥ p.ram.physAddr ∧
        p.entryPoint < u32 (p.ram.physAddr + p.ram.size)) ∧
      o.signals = true

/-- Clients resume the DSP only when it can be resumed. -/
def ResumesSucceed (d : Driver) : Event → Prop
  | .ioctl filep (.resume o) =>
      d.findClientByFilep filep ≠ none → CanResume o d.power
  | _ => True

instance (o : PowerOutcome) (p : Power) : Decidable (CanResume o p) := by
  unfold CanResume
  infer_instance

instance (d : Driver) (e : Event) : Decidable (ResumesSucceed d e) := by
  unfold ResumesSucceed
  split <;> infer_instance

variable {d d' : Driver} {s s' : Owned} {e : Event} {o : PowerOutcome}
  {p : DspC64} {ram : DspMemRegion}

/-! ## Resuming -/

theorem dspResume_of_canResume (h : CanResume o p.toPower) :
    (dspResume o p).1 = .ok () ∧ (dspResume o p).2.dspState = .running := by
  obtain hrun | ⟨hoff, hentry, ⟨h0, h1, h2⟩, hram, hsignals⟩ := h
  · simp [dspResume, hrun]
  · simp [dspResume, hoff, hentry, dspPoweronAndReset, h0, h1, h2, dspStart,
      DspC64.assertReset, DspC64.setRst2, DspC64.release, DspC64.setRst1,
      DspC64.mlbBootflagGet, hram, hsignals]

theorem canResume_of_dspResume (h : (dspResume o p).1 = .ok ()) :
    CanResume o p.toPower := by
  cases hstate : p.dspState with
  | running => exact Or.inl hstate
  | reset => simp [dspResume, hstate] at h
  | off =>
      right
      simp only [dspResume, hstate, dspPoweronAndReset] at h
      by_cases hentry : p.entryPoint = 0
      · simp [hentry] at h
      by_cases hwaits : o.waits 0 = true ∧ o.waits 1 = true ∧ o.waits 2 = true
      · obtain ⟨h0, h1, h2⟩ := hwaits
        simp only [hentry, h0, h1, h2, dspStart, DspC64.assertReset,
          DspC64.setRst2, DspC64.release, DspC64.setRst1, ne_eq, not_false_eq_true,
          if_true] at h
        by_cases hram : p.entryPoint ≥ p.ram.physAddr ∧
            p.entryPoint < u32 (p.ram.physAddr + p.ram.size)
        · refine ⟨hstate, hentry, ⟨h0, h1, h2⟩, hram, ?_⟩
          by_contra hsignals
          simp [hram, hsignals, DspC64.mlbBootflagGet,
            dspBootflagResume_ne_running] at h
        · simp [hram] at h
      · -- A wait that times out is reported.
        cases h0 : o.waits 0 <;> cases h1 : o.waits 1 <;>
          cases h2 : o.waits 2 <;> simp_all

/-! ## The mask -/

/-- The mask after a command of client `i`. -/
def IoctlCmd.maskAfter (i : Slot) (mask : Finset Slot) :
    IoctlCmd → Finset Slot
  | .resume _ => insert i mask
  | .pwrOff _ _ => mask.erase i
  | _ => mask

/-- The mask after a step. -/
def Driver.maskAfter (d : Driver) : Event → Finset Slot
  | .ioctl filep cmd =>
      match d.findClientByFilep filep with
      | some i => cmd.maskAfter i d.powerMask
      | none => d.powerMask
  | .releaseFile filep =>
      match d.findClientByFilep filep with
      | some i => d.powerMask.erase i
      | none => d.powerMask
  | _ => d.powerMask

theorem ioctlClient_powerMask (i : Slot) (cmd : IoctlCmd) (d : Driver) :
    (ioctlClient i cmd d).2.powerMask = cmd.maskAfter i d.powerMask := by
  cases cmd with
  | pwrOnRst o =>
      simp only [ioctlClient, ioctlPwrOnRst]
      split_ifs <;> rfl
  | start o entryPoint =>
      simp only [ioctlClient, ioctlStart]
      split_ifs <;> rfl
  | pwrOff o pwroff =>
      simp only [ioctlClient, ioctlPwrOff]
      split_ifs <;> rfl
  | resume o => rfl
  | overlayAlloc area copyBack =>
      show (locIoctlOverlayAlloc i area copyBack d).2.powerMask = d.powerMask
      obtain heq | ⟨s, -, heq⟩ := locIoctlOverlayAlloc_cases i area copyBack d
      all_goals rw [heq]
      rfl
  | overlayFree secIdx =>
      show (locIoctlOverlayFree i secIdx d).2.powerMask = d.powerMask
      obtain heq | ⟨s, -, -, heq⟩ := locIoctlOverlayFree_cases i secIdx d
      all_goals rw [heq]
      rfl
  | overlayRef secIdx =>
      show (ioctlOverlayRef i secIdx d).2.powerMask = d.powerMask
      obtain heq | ⟨s, -, heq⟩ := ioctlOverlayRef_cases i secIdx d
      all_goals rw [heq]
      rfl

theorem fopsUnlockedIoctl_powerMask (filep : ℕ) (cmd : IoctlCmd)
    (d : Driver) :
    (fopsUnlockedIoctl filep cmd d).2.powerMask =
      d.maskAfter (.ioctl filep cmd) := by
  unfold fopsUnlockedIoctl
  simp only [Driver.maskAfter]
  cases d.findClientByFilep filep with
  | none => rfl
  | some i => exact ioctlClient_powerMask i cmd d

theorem fopsRelease_powerMask (filep : ℕ) (d : Driver) :
    (fopsRelease filep d).powerMask = d.maskAfter (.releaseFile filep) := by
  have hfind : ({ d with numOpen := d.numOpen - 1 } : Driver).findClientByFilep
      filep = d.findClientByFilep filep := rfl
  unfold fopsRelease
  simp only [Driver.maskAfter, hfind]
  cases d.findClientByFilep filep <;> rfl

/-- Other steps do not touch the mask. -/
theorem DriverStep.powerMask (h : DriverStep d e d')
    (hioctl : ∀ filep cmd, e ≠ .ioctl filep cmd)
    (hrelease : ∀ filep, e ≠ .releaseFile filep) :
    d'.powerMask = d.powerMask := by
  cases h with
  | ioctl | ioctlUnknown => exact absurd rfl (hioctl _ _)
  | released => exact absurd rfl (hrelease _)
  | send => exact (mlbSendToDsp_keeps _ _ _ d).powerMask
  | _ => rfl

theorem powerMask_of_next (h : driverNext d e = some d') :
    d'.powerMask = d.maskAfter e := by
  cases e with
  | ioctl filep cmd =>
      obtain ⟨-, ht⟩ := Option.ite_none_right_eq_some.mp h
      obtain rfl := Option.some.inj ht
      exact fopsUnlockedIoctl_powerMask filep cmd d
  | releaseFile filep =>
      obtain ⟨-, ht⟩ := Option.ite_none_right_eq_some.mp h
      obtain rfl := Option.some.inj ht
      exact fopsRelease_powerMask filep d
  | _ => exact (driverNext_step h).powerMask (by simp) (by simp)

/-- A bit that is set after a step was set before, or is that of a connected
client. -/
theorem mem_maskAfter {i : Slot} (h : i ∈ d.maskAfter e) :
    i ∈ d.powerMask ∨ (d.clients i).state ≠ .unused := by
  unfold Driver.maskAfter at h
  split at h
  next filep cmd =>
    split at h
    next j hj =>
      cases cmd with
      | resume o =>
          obtain rfl | hi := Finset.mem_insert.mp h
          · exact Or.inr (Driver.findClientByFilep_some hj).2
          · exact Or.inl hi
      | pwrOff o pwroff => exact Or.inl (Finset.mem_of_mem_erase h)
      | _ => exact Or.inl h
    next => exact Or.inl h
  next filep =>
    split at h
    next j hj => exact Or.inl (Finset.mem_of_mem_erase h)
    next => exact Or.inl h
  next => exact Or.inl h

/-! ## Every run -/

/-- A bit in the mask is that of a connected client and means that the program
runs, and `fops__release` switches off the DSP only without one. -/
structure Powered (d : Driver) : Prop where
  connected : ∀ i ∈ d.powerMask, (d.clients i).state ≠ .unused
  running : d.powerMask ≠ ∅ → d.power.dspState = .running
  synced : d.crit = .relSync → d.powerMask = ∅

namespace Powered

theorem initial (ram : DspMemRegion) : Powered (Driver.initial ram) where
  connected i hi := absurd hi (Finset.notMem_empty i)
  running h := absurd rfl h
  synced h := by cases h

theorem connected_of_next (h : Powered d) (hslots : Slots d)
    (hnext : driverNext d e = some d') :
    ∀ i ∈ d'.powerMask, (d'.clients i).state ≠ .unused := by
  intro i hi
  have hstep := driverNext_step hnext
  have hmask := powerMask_of_next hnext
  have hunused := hslots.unused_iff hstep
  cases e with
  | openFile minor filep =>
      rw [hmask] at hi
      have hold := h.connected i hi
      cases hstep with
      | openFailed => exact hold
      | opened _ hj =>
          simp only [Driver.observe, Driver.setClient_state, connect]
          split
          · decide
          · exact hold
  | releaseFile filep =>
      cases hstep with
      | released =>
          obtain ⟨hne, hmem⟩ := Finset.mem_erase.mp hi
          simpa [Driver.setState, Driver.setClient_state, hne] using
            h.connected i hmem
  | _ =>
      rw [Ne, hunused (by simp) (by simp) i]
      obtain hold | hconn := mem_maskAfter (hmask ▸ hi)
      · exact h.connected i hold
      · exact hconn

/-- Nothing that keeps a bit in the mask touches a DSP that runs. -/
theorem power_of_next (h : Powered d) (hnext : driverNext d e = some d')
    (hbefore : d.powerMask ≠ ∅) (hafter : d'.powerMask ≠ ∅) :
    d'.power = d.power := by
  have hrun : d.dsp.dspState = .running := h.running hbefore
  have hon : d.dsp.dspState ≠ .off := by
    rw [hrun]
    decide
  have hmask := powerMask_of_next hnext
  cases driverNext_step hnext with
  | ioctl _ hi heff =>
      cases heff with
      | power hpower =>
          cases hpower with
          | keep => rfl
          | pwrOnRst =>
              exact congrArg DspC64.toPower (dspPoweronAndReset_of_on hon _)
          | start =>
              exact congrArg DspC64.toPower (dspStart_of_running hrun _ _)
          | pwrOff hlast =>
              simp only [Driver.maskAfter, hi, IoctlCmd.maskAfter] at hmask
              exact absurd (hmask.trans hlast) hafter
          | resume => exact congrArg DspC64.toPower (dspResume_of_on hon _)
      | _ => rfl
  | send => exact (mlbSendToDsp_keeps _ _ _ d).power
  | relHeld => exact congrArg DspC64.toPower (dspResume_of_on hon _)
  | relSynced hcrit => exact absurd (h.synced hcrit) hbefore
  | _ => rfl

/-- A step that sets the first bit has resumed the DSP. -/
theorem running_of_next (h : Powered d) (hok : ResumesSucceed d e)
    (hnext : driverNext d e = some d') :
    d'.powerMask ≠ ∅ → d'.power.dspState = .running := by
  intro hafter
  by_cases hbefore : d.powerMask = ∅
  · have hmask := powerMask_of_next hnext
    cases e with
    | ioctl filep cmd =>
        obtain ⟨-, ht⟩ := Option.ite_none_right_eq_some.mp hnext
        obtain rfl := Option.some.inj ht
        simp only [Driver.maskAfter] at hmask
        cases hi : d.findClientByFilep filep with
        | none =>
            rw [hi] at hmask
            exact absurd (hmask.trans hbefore) hafter
        | some i =>
            rw [hi] at hmask
            cases cmd with
            | resume o =>
                have hresume := dspResume_of_canResume (p := d.dsp)
                  (hok (by simp [hi]))
                simpa [fopsUnlockedIoctl, hi, ioctlClient, ioctlResume,
                  Driver.dsp] using hresume.2
            | pwrOff o pwroff =>
                simp only [IoctlCmd.maskAfter, hbefore, Finset.erase_empty]
                  at hmask
                exact absurd hmask hafter
            | _ => exact absurd (hmask.trans hbefore) hafter
    | releaseFile filep =>
        simp only [Driver.maskAfter, hbefore, Finset.erase_empty] at hmask
        cases hi : d.findClientByFilep filep with
        | none =>
            rw [hi] at hmask
            exact absurd hmask hafter
        | some i =>
            rw [hi] at hmask
            exact absurd hmask hafter
    | _ => exact absurd (hmask.trans hbefore) hafter
  · rw [h.power_of_next hnext hbefore hafter]
    exact h.running hbefore

/-- The mask does not change while `fops__release` waits for the DSP. -/
theorem synced_of_next (h : Powered d) (hnext : driverNext d e = some d') :
    d'.crit = .relSync → d'.powerMask = ∅ := by
  intro hafter
  have hmask := powerMask_of_next hnext
  cases driverNext_step hnext with
  | @ioctl filep cmd i _ hlocks hi heff =>
      have hcrit : d.crit = .relSync := heff.undisturbed.crit ▸ hafter
      have hfree : cmd.locks = false := hlocks.resolve_left (by simp [hcrit])
      rw [hmask]
      simp only [Driver.maskAfter, hi]
      cases cmd with
      | overlayRef secIdx => exact h.synced hcrit
      | _ => cases hfree
  | @send o who next hcrit =>
      obtain ⟨-, -, heq⟩ | ⟨-, -, -, heq⟩ | ⟨-, heq⟩ | ⟨-, heq⟩ |
        ⟨-, -, heq⟩ | ⟨-, -, heq⟩ := mlbSendToDsp_cases who next o.fifoFull d
      all_goals
        rw [heq] at hafter
        cases who <;>
          simp [sendFailed, sendSucceeded, Driver.wrote] at hafter
  | relReset hcrit =>
      simp only at hafter
      split_ifs at hafter with hempty
      exact hempty
  | openFailed | opened | nothingToRead | readFound | readCopied | readFailed
  | ioctlUnknown | answered | irqReply | irqIgnored => exact h.synced hafter
  | _ => cases hafter

theorem step (h : Powered d) (hslots : Slots d)
    (hok : ResumesSucceed d e) (hnext : driverNext d e = some d') :
    Powered d' where
  connected := h.connected_of_next hslots hnext
  running := h.running_of_next hok hnext
  synced := h.synced_of_next hnext

end Powered

/-- If the DSP can be resumed, the clients for which it is resumed are the ones
in the mask. -/
theorem IoctlCmd.keptAfter_eq {i : Slot} {cmd : IoctlCmd} {mask : Finset Slot}
    (h : ∀ o, cmd = .resume o → CanResume o p.toPower) :
    cmd.keptAfter i p mask = cmd.maskAfter i mask := by
  cases cmd with
  | resume o =>
      obtain ⟨hok, -⟩ := dspResume_of_canResume (h o rfl)
      simp only [keptAfter, maskAfter, hok]
  | _ => rfl

theorem keep_eq_maskAfter (hkept : s.kept = s.driver.powerMask)
    (hok : ResumesSucceed s.driver e) : s.keep e = s.driver.maskAfter e := by
  cases e with
  | ioctl filep cmd =>
      simp only [Owned.keep, Driver.maskAfter]
      cases hi : s.driver.findClientByFilep filep with
      | none => exact hkept
      | some i =>
          rw [hkept]
          refine IoctlCmd.keptAfter_eq ?_
          rintro o rfl
          exact hok (by simp [hi])
  | releaseFile filep => simp only [Owned.keep, Driver.maskAfter, hkept]
  | _ => exact hkept

/-- A client keeps the DSP on only with its bit set. -/
theorem IoctlCmd.keptAfter_subset {i : Slot} {cmd : IoctlCmd}
    {kept mask : Finset Slot} (h : kept ⊆ mask) :
    cmd.keptAfter i p kept ⊆ cmd.maskAfter i mask := by
  cases cmd with
  | resume o =>
      simp only [keptAfter, maskAfter]
      split
      · exact Finset.insert_subset_insert i h
      · exact h.trans (Finset.subset_insert i mask)
  | pwrOff o pwroff => exact Finset.erase_subset_erase i h
  | _ => exact h

theorem keep_subset_maskAfter (h : s.kept ⊆ s.driver.powerMask) :
    s.keep e ⊆ s.driver.maskAfter e := by
  cases e with
  | ioctl filep cmd =>
      simp only [Owned.keep, Driver.maskAfter]
      cases s.driver.findClientByFilep filep with
      | none => exact h
      | some i => exact IoctlCmd.keptAfter_subset h
  | releaseFile filep =>
      simp only [Owned.keep, Driver.maskAfter]
      cases s.driver.findClientByFilep filep with
      | none => exact h
      | some i => exact Finset.erase_subset_erase i h
  | _ => exact h

theorem powered_of_reachable (hs : ((ownedMachine ram).restrict
      fun s => ResumesSucceed s.driver).Reachable s) :
    Slots s.driver ∧ Powered s.driver ∧ s.kept = s.driver.powerMask := by
  refine Machine.Reachable.invariant
    (P := fun s => Slots s.driver ∧ Powered s.driver ∧
      s.kept = s.driver.powerMask) ?_ ?_ hs
  · rintro s rfl
    exact ⟨initial_slots ram, Powered.initial ram, rfl⟩
  · rintro s e s' ⟨hslots, hpowered, hkept⟩ ⟨hok, hnext⟩
    obtain ⟨d, hd, rfl⟩ := Option.map_eq_some_iff.mp hnext
    exact ⟨hslots.step (driverNext_step hd), hpowered.step hslots hok hd,
      (keep_eq_maskAfter hkept hok).trans (powerMask_of_next hd).symm⟩

/-- If every `RESUME` finds a DSP that it can resume, then in every state
reached the clients in the mask are connected and are those for which the DSP
was resumed, with one of them the program runs, and a step which leaves one of
them leaves the DSP alone. -/
theorem powerOwned_of_resumesSucceed (ram : DspMemRegion) (s : Owned)
    (hs : ((ownedMachine ram).restrict
      fun s => ResumesSucceed s.driver).Reachable s) : s.PowerOwned := by
  obtain ⟨-, hpowered, hkept⟩ := powered_of_reachable hs
  refine ⟨hpowered.connected, hpowered.running, hkept.subset, hkept.superset,
    ?_⟩
  intro e s' hnext hboth
  obtain ⟨d, hd, rfl⟩ := Option.map_eq_some_iff.mp hnext
  obtain ⟨i, hi⟩ := Finset.nonempty_iff_ne_empty.mpr hboth
  obtain ⟨hbefore, hafter⟩ := Finset.mem_inter.mp hi
  rw [hkept] at hbefore
  refine hpowered.power_of_next hd (Finset.ne_empty_of_mem hbefore) ?_
  -- A client that still keeps the DSP on has not lost its bit.
  rw [powerMask_of_next hd]
  exact Finset.ne_empty_of_mem (keep_subset_maskAfter hkept.subset hafter)

/-- The condition is exact: a `RESUME` that fails leaves a bit in the mask for
which the DSP was not resumed. -/
theorem not_powerOwned_of_resumeFails {s' : Owned} {filep : ℕ}
    (h : s.PowerOwned)
    (hnext : ownedNext s (.ioctl filep (.resume o)) = some s')
    (hfail : ¬ResumesSucceed s.driver (.ioctl filep (.resume o))) :
    ¬s'.PowerOwned := by
  obtain ⟨hi, hno⟩ := Classical.not_imp.mp hfail
  obtain ⟨i, hi⟩ := Option.ne_none_iff_exists'.mp hi
  obtain ⟨d, hd, rfl⟩ := Option.map_eq_some_iff.mp hnext
  have hempty : s.driver.powerMask = ∅ := by
    by_contra hne
    exact hno (Or.inl (h.running hne))
  intro howned
  have hmask : i ∈ d.powerMask := by
    rw [powerMask_of_next hd]
    simp [Driver.maskAfter, hi, IoctlCmd.maskAfter]
  have hkept : s.keep (.ioctl filep (.resume o)) = s.kept := by
    simp only [Owned.keep, hi, IoctlCmd.keptAfter]
    split
    next hok => exact absurd (canResume_of_dspResume hok) hno
    next => rfl
  have hmem : i ∈ s.kept := hkept ▸ howned.unblocked hmask
  have hold := h.keeps hmem
  rw [hempty] at hold
  exact Finset.notMem_empty i hold

/-- One client starts the DSP and keeps it on, another one resumes it too,
suspends it and leaves. -/
def sharedPowerRun : List Event :=
  [.openFile c64DevMinor 1, .ioctl 1 (.pwrOnRst ProcOutcome.smooth.power),
    .ioctl 1 (.start ProcOutcome.smooth.power 0x87000000),
    .ioctl 1 (.resume ProcOutcome.smooth.power), .openFile c64DevMinor 2,
    .ioctl 2 (.resume ProcOutcome.smooth.power),
    .ioctl 2 (.pwrOff ProcOutcome.smooth.power true), .releaseFile 2]

theorem sharedPowerRun_powerOwned :
    ∃ s : Owned, (s.kept = {0} ∧ s.driver.power.dspState = .running) ∧
      s.PowerOwned := by
  have hrun : ∃ s, ((ownedMachine runRam).restrict
      fun s => ResumesSucceed s.driver).Reachable s ∧
      s.kept = {0} ∧ s.driver.power.dspState = .running :=
    Machine.exists_restrict_reachable_of_run
      (fun s : Owned => s.kept = {0} ∧ s.driver.power.dspState = .running)
      sharedPowerRun (by decide +kernel)
  obtain ⟨s, hs, hlast⟩ := hrun
  exact ⟨s, hlast, powerOwned_of_resumesSucceed runRam s hs⟩

/-- A client resumes a DSP that was never started, which fails, and from then
on another one cannot switch the DSP off. -/
theorem failed_resume_not_powerOwned :
    ∃ s, (ownedMachine runRam).Reachable s ∧
      (fopsUnlockedIoctl 2 (.pwrOff ProcOutcome.smooth.power true)
        s.driver).1 = .error .EBUSY ∧ ¬s.PowerOwned := by
  have hrun : ∃ s, (ownedMachine runRam).Reachable s ∧
      (fopsUnlockedIoctl 2 (.pwrOff ProcOutcome.smooth.power true)
        s.driver).1 = .error .EBUSY ∧
      s.driver.powerMask = {0} ∧ s.driver.power.dspState = .off :=
    Machine.exists_reachable_of_run
      (fun s : Owned =>
        (fopsUnlockedIoctl 2 (.pwrOff ProcOutcome.smooth.power true)
          s.driver).1 = .error .EBUSY ∧
        s.driver.powerMask = {0} ∧ s.driver.power.dspState = .off)
      [.openFile c64DevMinor 1, .openFile c64DevMinor 2,
        .ioctl 1 (.resume ProcOutcome.smooth.power)] (by decide +kernel)
  obtain ⟨s, hs, hbusy, hmask, hoff⟩ := hrun
  refine ⟨s, hs, hbusy, fun howned => ?_⟩
  have hrunning := howned.running (by simp [hmask])
  cases hoff.symm.trans hrunning

end C64Tools.Kmod
