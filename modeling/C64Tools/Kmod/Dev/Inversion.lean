import C64Tools.Kmod.Dev.Cases

/-!
# What one step can do

All steps of the driver in one relation, with the condition under which each
is taken.  Every invariant of the driver is proved by cases on it.
-/

namespace C64Tools.Kmod

open Transition

/-- What can happen in one step of the driver, and under which condition. -/
inductive DriverStep (d : Driver) : Event → Driver → Prop
  | openFailed {minor filep : ℕ} {n : ℤ} : d.crit = .idle →
      DriverStep d (.openFile minor filep) { d with numOpen := n }
  | opened {minor filep : ℕ} {n : ℤ} {i : Slot} : d.crit = .idle →
      (d.clients i).state = .unused →
      DriverStep d (.openFile minor filep)
        ((({ d with numOpen := n } : Driver).setClient i
          (connect filep)).observe (.opened i))
  | released {filep : ℕ} {n : ℤ} {i : Slot} : d.crit = .idle →
      (d.clients i).filep = some filep → (d.clients i).state ≠ .unused →
      d.reading i = 0 →
      DriverStep d (.releaseFile filep)
        { ({ d with numOpen := n } : Driver).setState i .unused with
          powerMask := d.powerMask.erase i
          crit := .relCurrent i }
  | nothingToRead {filep count : ℕ} : DriverStep d (.readFile filep count) d
  | readFound {filep count : ℕ} {i : Slot} :
      (d.clients i).state = .replyAvail →
      DriverStep d (.readFile filep count)
        { d with reading := Function.update d.reading i (d.reading i + 1) }
  | readCopied {i : Slot} : 0 < d.reading i →
      DriverStep d (.readCopy i true)
        (({ d with
            reading := Function.update d.reading i (d.reading i - 1) }
          : Driver).setState i .idle |>.observe
            (.delivered i (d.clients i).dspMsg))
  | readFailed {i : Slot} : 0 < d.reading i →
      DriverStep d (.readCopy i false)
        { d with reading := Function.update d.reading i (d.reading i - 1) }
  | writeMsg {filep : ℕ} {i : Slot} {m : DspMsg} : d.crit = .idle →
      d.currentClient = none → (d.clients i).filep = some filep →
      (d.clients i).state ≠ .unused →
      DriverStep d (.writeFile filep (.msg (.readable m)))
        { d.setClient i fun c => { c with dspMsg := m } with
          crit := .writeCopied i }
  | writeFault {filep : ℕ} {i : Slot} {left : DspMsg} : d.crit = .idle →
      d.currentClient = none → d.findClientByFilep filep = some i →
      DriverStep d (.writeFile filep (.msg (.fault left)))
        ((d.setClient i fun c => { c with dspMsg := left }).wrote (some filep)
          (.error .EFAULT))
  | writeTest {filep val : ℕ} : d.crit = .idle →
      DriverStep d (.writeFile filep (.testMsg (.readable val)))
        { d with crit := .testCopied filep val }
  | writeError {filep : ℕ} {arg : WriteArg} {ret : Except Errno ℕ} :
      d.crit = .idle →
      DriverStep d (.writeFile filep arg) (d.wrote (some filep) ret)
  | ioctlUnknown {filep : ℕ} {cmd : IoctlCmd} :
      DriverStep d (.ioctl filep cmd) d
  | ioctl {filep : ℕ} {cmd : IoctlCmd} {i : Slot} {d' : Driver} :
      d.crit = .idle ∨ cmd.locks = false →
      d.findClientByFilep filep = some i → IoctlEffect i d cmd d' →
      DriverStep d (.ioctl filep cmd) d'
  | setCurrent {o : ProcOutcome} {i : Slot} : d.crit = .writeCopied i →
      DriverStep d (.proc o)
        { d with currentClient := some i, crit := .writeCurrent i }
  | setPending {o : ProcOutcome} {i : Slot} : d.crit = .writeCurrent i →
      DriverStep d (.proc o)
        { d.setState i .replyPending with
          crit := .sending (.client i) .check }
  | send {o : ProcOutcome} {who : Sender} {next : SendStep} :
      d.crit = .sending who next →
      DriverStep d (.proc o) (mlbSendToDsp who next o.fifoFull d)
  | resetCurrent {o : ProcOutcome} {i : Slot} : d.crit = .writeRefused i →
      DriverStep d (.proc o)
        { d with currentClient := none, crit := .writeReset i }
  | resetState {o : ProcOutcome} {i : Slot} : d.crit = .writeReset i →
      DriverStep d (.proc o)
        ((d.setState i .idle).wrote (d.clients i).filep (.error .EAGAIN))
  | testCurrent {o : ProcOutcome} {filep val : ℕ} :
      d.crit = .testCopied filep val →
      DriverStep d (.proc o)
        { d with
          currentClient := none
          crit := .sending (.test filep val) .check }
  | relNotCurrent {o : ProcOutcome} {i : Slot} : d.crit = .relCurrent i →
      d.currentClient ≠ some i →
      DriverStep d (.proc o) { d with crit := .relFree i }
  | relIsCurrent {o : ProcOutcome} {i : Slot} : d.crit = .relCurrent i →
      d.currentClient = some i →
      DriverStep d (.proc o) { d with crit := .relFastcall i }
  | relFastcall {o : ProcOutcome} {i : Slot} : d.crit = .relFastcall i →
      DriverStep d (.proc o)
        { d with currentClient := none, crit := .relFree i }
  | relFree {o : ProcOutcome} {i : Slot} : d.crit = .relFree i →
      DriverStep d (.proc o)
        { d.setClient i fun c => { c with filep := none } with
          crit := .relSection i 0 }
  | relHeld {o : ProcOutcome} {i : Slot} {s : Section} :
      d.crit = .relSection i s → (d.clients i).sectionFlags s = true →
      DriverStep d (.proc o)
        { d.setDsp (dspResume o.power d.dsp).2 with crit := .relWait i s }
  | relNotHeld {o : ProcOutcome} {i : Slot} {s : Section} :
      d.crit = .relSection i s → (d.clients i).sectionFlags s = false →
      DriverStep d (.proc o) { d with crit := .relSection i (s + 1) }
  | relChecked {o : ProcOutcome} {i : Slot} {k : ℕ} :
      d.crit = .relSection i k → mlbComNumSectionIndices ≤ k →
      DriverStep d (.proc o) { d with crit := .relReset i }
  | relReady {o : ProcOutcome} {i : Slot} {s : Section} :
      d.crit = .relWait i s → d.ready = true →
      DriverStep d (.proc o)
        { d with crit := .sending (.emergency i s) .check }
  | relTimeout {o : ProcOutcome} {i : Slot} {s : Section} :
      d.crit = .relWait i s → d.ready = false →
      DriverStep d (.proc o) { d with crit := .relSection i (s + 1) }
  | relMark {o : ProcOutcome} {i : Slot} {s : Section} :
      d.crit = .relMark i s →
      DriverStep d (.proc o)
        { d with
          sectionFlags := Function.update d.sectionFlags s false
          crit := .relSection i (s + 1) }
  | relReset {o : ProcOutcome} {i : Slot} : d.crit = .relReset i →
      DriverStep d (.proc o)
        { d.setClient i fun c => { c with
            sectionFlags := fun _ => false
            sectionMem := fun _ => DspMemRegion.zero } with
          crit := if d.powerMask = ∅ then .relSync else .idle }
  | relSynced {o : ProcOutcome} : d.crit = .relSync → d.ready = true →
      DriverStep d (.proc o)
        { d.setDsp (if o.pwroff then (dspPoweroff o.power d.dsp).2
            else d.dsp) with
          crit := .idle }
  | relBusy {o : ProcOutcome} : d.crit = .relSync → d.ready = false →
      DriverStep d (.proc o) { d with crit := .idle }
  | answered {id ret0 ret1 errno : ℕ} {r : Request} :
      r ∈ d.unanswered → r.id = id → d.power.executing = true →
      r.boot = d.power.resets →
      DriverStep d (.answer id ret0 ret1 errno)
        { d with
          regs := d.regs.setReply ret0 ret1 errno
          inbox := d.inbox ++ [r]
          unanswered := d.unanswered.filter fun r => r.id ≠ id
          log := .answered id ret0 ret1 :: d.log }
  | irqReply {i : Slot} : d.irqEnable = true → d.inbox ≠ [] →
      d.currentClient = some i → (d.clients i).state = .replyPending →
      DriverStep d .irq
        { d.setClient i (takeReply d) with
          currentClient := none
          inbox := []
          irqEnable := false
          ready := true }
  | irqIgnored : d.irqEnable = true → d.inbox ≠ [] →
      (∀ i, d.currentClient = some i →
        (d.clients i).state ≠ .replyPending) →
      DriverStep d .irq
        { d with inbox := [], irqEnable := false, ready := true }

theorem procStep_step {o : ProcOutcome} {d d' : Driver}
    (h : procStep o d = some d') : DriverStep d (.proc o) d' := by
  unfold procStep at h
  split at h
  next => cases h
  next i hcrit =>
      cases h
      exact DriverStep.setCurrent hcrit
  next i hcrit =>
      cases h
      exact DriverStep.setPending hcrit
  next who next hcrit =>
      cases h
      exact DriverStep.send hcrit
  next i hcrit =>
      cases h
      exact DriverStep.resetCurrent hcrit
  next i hcrit =>
      cases h
      exact DriverStep.resetState hcrit
  next filep val hcrit =>
      cases h
      exact DriverStep.testCurrent hcrit
  next i hcrit =>
      split at h <;> cases h
      next hcur => exact DriverStep.relIsCurrent hcrit hcur
      next hcur => exact DriverStep.relNotCurrent hcrit hcur
  next i hcrit =>
      cases h
      exact DriverStep.relFastcall hcrit
  next i hcrit =>
      cases h
      exact DriverStep.relFree hcrit
  next i k hcrit =>
      split at h
      next hk =>
        split at h <;> cases h
        next hheld =>
          exact @DriverStep.relHeld d o i ⟨k, hk⟩ hcrit hheld
        next hheld =>
          exact @DriverStep.relNotHeld d o i ⟨k, hk⟩ hcrit
            (Bool.eq_false_iff.mpr hheld)
      next hk =>
        cases h
        exact DriverStep.relChecked hcrit (Nat.le_of_not_lt hk)
  next i s hcrit =>
      split at h
      next hready =>
        cases h
        exact DriverStep.relReady hcrit hready
      next hready =>
        split at h <;> cases h
        exact DriverStep.relTimeout hcrit (Bool.eq_false_iff.mpr hready)
  next i s hcrit =>
      cases h
      exact DriverStep.relMark hcrit
  next i hcrit =>
      cases h
      exact DriverStep.relReset hcrit
  next hcrit =>
      split at h
      next hready =>
        cases h
        exact DriverStep.relSynced hcrit hready
      next hready =>
        split at h <;> cases h
        exact DriverStep.relBusy hcrit (Bool.eq_false_iff.mpr hready)

theorem dspAnswer_step {id ret0 ret1 errno : ℕ} {d d' : Driver}
    (h : dspAnswer id ret0 ret1 errno d = some d') :
    DriverStep d (.answer id ret0 ret1 errno) d' := by
  unfold dspAnswer at h
  split at h
  next r hr =>
    split at h <;> cases h
    next hcan =>
      have hid : r.id = id := by simpa using List.find?_some hr
      exact DriverStep.answered (List.mem_of_find?_eq_some hr) hid hcan.1
        hcan.2
  next => cases h

theorem driverNext_step {d d' : Driver} {e : Event}
    (h : driverNext d e = some d') : DriverStep d e d' := by
  cases e with
  | openFile minor filep =>
      obtain ⟨hcrit, ⟨⟩⟩ := Option.ite_none_right_eq_some.mp h
      rcases fopsOpen_cases minor filep d with ⟨n, heq⟩ | ⟨n, i, hi, heq⟩
      · rw [heq]
        exact DriverStep.openFailed hcrit
      · rw [heq]
        exact DriverStep.opened hcrit hi
  | releaseFile filep =>
      obtain ⟨⟨hcrit, hfound, hreading⟩, ⟨⟩⟩ :=
        Option.ite_none_right_eq_some.mp h
      obtain ⟨n, i, hfilep, hstate, heq⟩ := fopsRelease_of_found hfound
      rw [heq]
      exact DriverStep.released hcrit hfilep hstate (hreading i hfilep)
  | readFile filep count =>
      cases h
      rcases fopsRead_cases filep count d with heq | ⟨i, havail, heq⟩
      · rw [heq]
        exact DriverStep.nothingToRead
      · rw [heq]
        exact DriverStep.readFound havail
  | readCopy i copied =>
      obtain ⟨hreading, ⟨⟩⟩ := Option.ite_none_right_eq_some.mp h
      cases copied with
      | true => exact DriverStep.readCopied hreading
      | false => exact DriverStep.readFailed hreading
  | writeFile filep arg =>
      obtain ⟨hcrit, ⟨⟩⟩ := Option.ite_none_right_eq_some.mp h
      rcases fopsWrite_cases filep arg d with
        ⟨i, m, rfl, hcur, hfilep, hstate, heq⟩ | ⟨i, left, rfl, hcur, hi, heq⟩ |
        ⟨val, rfl, heq⟩ | ⟨ret, heq⟩
      · rw [heq]
        exact DriverStep.writeMsg hcrit hcur hfilep hstate
      · rw [heq]
        exact DriverStep.writeFault hcrit hcur hi
      · rw [heq]
        exact DriverStep.writeTest hcrit
      · rw [heq]
        exact DriverStep.writeError hcrit
  | ioctl filep cmd =>
      obtain ⟨hcrit, ⟨⟩⟩ := Option.ite_none_right_eq_some.mp h
      rcases fopsUnlockedIoctl_cases filep cmd d with heq | ⟨i, hi, heff⟩
      · rw [heq]
        exact DriverStep.ioctlUnknown
      · exact DriverStep.ioctl hcrit hi heff
  | proc o => exact procStep_step h
  | answer id ret0 ret1 errno => exact dspAnswer_step h
  | irq =>
      obtain ⟨⟨henable, hinbox⟩, ⟨⟩⟩ := Option.ite_none_right_eq_some.mp h
      rcases irqHandlerMlb_cases d with
        ⟨i, hcur, hpending, heq⟩ | ⟨hcur, heq⟩
      · rw [heq]
        exact DriverStep.irqReply henable hinbox hcur hpending
      · rw [heq]
        exact DriverStep.irqIgnored henable hinbox hcur

/-- What holds initially and is preserved by every step that meets `ok` holds
in every run whose steps all meet `ok`. -/
theorem driver_invariant {ram : DspMemRegion} {ok : Driver → Event → Prop}
    {P : Driver → Prop} (hinit : P (Driver.initial ram))
    (hstep : ∀ d e d', P d → ok d e → DriverStep d e d' → P d')
    {d : Driver} (hd : ((driverMachine ram).restrict ok).Reachable d) : P d := by
  refine Machine.Reachable.invariant (P := P) ?_ ?_ hd
  · rintro s rfl
    exact hinit
  · rintro s e t hs ⟨hok, hnext⟩
    exact hstep s e t hs hok (driverNext_step hnext)

end C64Tools.Kmod
