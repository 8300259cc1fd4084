import C64Tools.Kmod.Power
import C64Tools.Library.Transition

/-!
# The run state and the reset line

The driver keeps its own idea of whether the DSP is off, held in reset or
running, next to the reset bit of the DSP.  The runs are those of the four
power functions, called in any order, with any outcome of each wait loop and
of the polling for the boot flag; between two calls messages may be written to
the registers, one of which is the boot flag.  The two agree as long as no
released DSP stays silent and no call to switch the DSP off gives up on its way.
-/

namespace C64Tools.Kmod

open Transition

/-- A call of one of the power functions, or what messages leave in the
registers between two of them. -/
inductive PowerCall where
  | poweronAndReset
  | start (entryPoint : ℕ)
  | resume
  | poweroff
  | messages (regs : IpcRegs)
  deriving DecidableEq, Repr

/-- What a call returns and leaves behind, given how its loops end. -/
def PowerCall.run (o : PowerOutcome) (p : DspC64) : PowerCall → Ret × DspC64
  | .poweronAndReset => dspPoweronAndReset o p
  | .start entryPoint => dspStart o entryPoint p
  | .resume => dspResume o p
  | .poweroff => dspPoweroff o p
  | .messages regs => (.ok (), { p with regs })

def powerNext (p : DspC64) (e : PowerCall × PowerOutcome) : Option DspC64 :=
  some (e.1.run e.2 p).2

/-- Runs of the power functions from a given state. -/
def powerMachine (start : DspC64) :
    Machine DspC64 (PowerCall × PowerOutcome) :=
  Machine.ofNext start powerNext

namespace Power

/-- The DSP is switched off, with its reset bit set. -/
def OffHeld (p : Power) : Prop :=
  p.dspState = .off ∧ p.rstctrl.rst1 = true

instance (p : Power) : Decidable p.OffHeld := by
  unfold OffHeld
  infer_instance

/-- Bit 0 of `IVA2_PRM_RSTCTRL` is clear if the DSP is believed to run, and
set if it is believed to be off or held in reset. -/
structure RunStateAgrees (p : Power) : Prop where
  running : p.dspState = .running → p.rstctrl.rst1 = false
  reset : p.dspState = .reset → p.rstctrl.rst1 = true
  off : p.dspState = .off → p.rstctrl.rst1 = true

theorem runStateAgrees_iff (p : Power) :
    p.RunStateAgrees ↔ (p.rstctrl.rst1 = false ↔ p.dspState = .running) := by
  constructor
  · intro h
    refine ⟨fun hbit => ?_, h.running⟩
    cases hstate : p.dspState with
    | off => simp [h.off hstate] at hbit
    | reset => simp [h.reset hstate] at hbit
    | running => rfl
  · intro h
    refine ⟨h.mpr, fun hstate => ?_, fun hstate => ?_⟩
    · simpa [hstate] using h
    · simpa [hstate] using h

instance (p : Power) : Decidable p.RunStateAgrees :=
  decidable_of_iff _ (runStateAgrees_iff p).symm

theorem OffHeld.runStateAgrees {p : Power} (h : p.OffHeld) :
    p.RunStateAgrees := by
  rw [runStateAgrees_iff]
  simp [h.1, h.2]

/-- `dsp_start` accepts the entry point. -/
def InImage (p : Power) (entryPoint : ℕ) : Prop :=
  entryPoint ≥ p.ram.physAddr ∧
    entryPoint < u32 (p.ram.physAddr + p.ram.size)

instance (p : Power) (entryPoint : ℕ) : Decidable (p.InImage entryPoint) := by
  unfold InImage
  infer_instance

end Power

/-- None of the first `n` wait loops of the call times out. -/
def PowerOutcome.Passes (o : PowerOutcome) (n : ℕ) : Prop :=
  ∀ i < n, o.waits i = true

instance (o : PowerOutcome) (n : ℕ) : Decidable (o.Passes n) := by
  unfold PowerOutcome.Passes
  infer_instance

@[simp] theorem PowerOutcome.passes_zero (o : PowerOutcome) : o.Passes 0 :=
  fun _ h => absurd h (Nat.not_lt_zero _)

theorem PowerOutcome.passes_succ (o : PowerOutcome) (n : ℕ) :
    o.Passes (n + 1) ↔ o.Passes n ∧ o.waits n = true :=
  Nat.forall_lt_succ_right

theorem PowerOutcome.passes_three (o : PowerOutcome) :
    o.Passes 3 ↔
      o.waits 0 = true ∧ o.waits 1 = true ∧ o.waits 2 = true := by
  simp only [o.passes_succ 2, o.passes_succ 1, o.passes_succ 0, o.passes_zero,
    true_and, and_assoc]

theorem PowerOutcome.passes_eight (o : PowerOutcome) :
    o.Passes 8 ↔
      o.waits 0 = true ∧ o.waits 1 = true ∧ o.waits 2 = true ∧
        o.waits 3 = true ∧ o.waits 4 = true ∧ o.waits 5 = true ∧
        o.waits 6 = true ∧ o.waits 7 = true := by
  simp only [o.passes_succ 7, o.passes_succ 6, o.passes_succ 5,
    o.passes_succ 4, o.passes_succ 3, o.passes_three, and_assoc]

theorem PowerOutcome.passes_ten (o : PowerOutcome) :
    o.Passes 10 ↔ o.Passes 8 ∧ o.waits 8 = true ∧ o.waits 9 = true := by
  rw [o.passes_succ 9, o.passes_succ 8, and_assoc]

/-! ## What each function does to the run state and the reset bit -/

/-- The state as the driver believes it, and the reset bit of the DSP. -/
def Power.line (p : Power) : DspState × Bool :=
  (p.dspState, p.rstctrl.rst1)

theorem Power.runStateAgrees_iff_of_line {p : Power} {st : DspState}
    {b : Bool} (h : p.line = (st, b)) :
    p.RunStateAgrees ↔ (b = false ↔ st = .running) := by
  obtain ⟨hstate, hbit⟩ := Prod.mk.inj h
  rw [Power.runStateAgrees_iff, hstate, hbit]

/-- Switching the DSP on holds it in reset, whether it succeeds or not. -/
theorem dspPoweronAndReset_line {p : DspC64} (h : p.dspState = .off)
    (o : PowerOutcome) :
    (dspPoweronAndReset o p).2.line =
      (if o.Passes 3 then .reset else .off, true) := by
  unfold dspPoweronAndReset
  simp only [h, o.passes_three]
  split_ifs <;> simp_all [Power.line, DspC64.assertReset, DspC64.setRst2]

/-- A call of `dsp_start` that gets as far as releasing the DSP clears the
bit; the driver believes in a running DSP once the program has signalled. -/
theorem dspStart_line {p : DspC64} {entryPoint : ℕ} (h : p.dspState = .reset)
    (hentry : p.InImage entryPoint) (o : PowerOutcome) :
    (dspStart o entryPoint p).2.line =
      (if o.signals = true ∨ p.mlbBootflagGet = dspBootflagRunning then .running else .reset,
        false) := by
  have hflag : (p.release entryPoint o.signals).mlbBootflagGet =
      dspBootflagRunning ↔
        o.signals = true ∨ p.mlbBootflagGet = dspBootflagRunning := by
    cases hsig : o.signals <;> simp [DspC64.release, DspC64.mlbBootflagGet]
  unfold dspStart
  simp only [h, if_true, if_pos (show entryPoint ≥ p.ram.physAddr ∧
    entryPoint < u32 (p.ram.physAddr + p.ram.size) from hentry), hflag]
  split_ifs
  · rfl
  · rw [← h]
    rfl

theorem dspStart_of_not {p : DspC64} {entryPoint : ℕ}
    (h : ¬ (p.dspState = .reset ∧ p.InImage entryPoint)) (o : PowerOutcome) :
    (dspStart o entryPoint p).2 = p := by
  unfold dspStart
  split_ifs with hreset hentry
  · exact absurd ⟨hreset, hentry⟩ h
  · rfl
  · rfl

/-- Until its last loop has ended, switching the DSP off leaves the run state
alone; the DSP is held in reset in the first eight loops and released in the
last two. -/
theorem dspPoweroff_line {p : DspC64} (h : p.dspState ≠ .off)
    (o : PowerOutcome) :
    (dspPoweroff o p).2.line =
      if o.Passes 10 then (.off, true)
      else (p.dspState, !decide (o.Passes 8)) := by
  have hline : (dspPoweroff o p).2.line =
      if o.Passes 8 then
        if o.waits 8 = true ∧ o.waits 9 = true then (.off, true)
        else (p.dspState, false)
      else (p.dspState, true) := by
    unfold dspPoweroff
    simp only [if_pos h, o.passes_eight, ite_and, apply_ite Prod.snd,
      apply_ite DspC64.toPower, apply_ite Power.line]
    rfl
  rw [hline]
  by_cases hheld : o.Passes 8
  · simp only [o.passes_ten, hheld, true_and, if_true, decide_true,
      Bool.not_true]
  · simp only [o.passes_ten, hheld, false_and, if_false, decide_false,
      Bool.not_false]

/-- `dsp_resume` starts a DSP that is off, once it was switched on. -/
theorem dspResume_of_off {p : DspC64} (h : p.dspState = .off)
    (hentry : p.entryPoint ≠ 0) (o : PowerOutcome) :
    (dspResume o p).2 =
      if o.Passes 3 then
        (dspStart o p.entryPoint
          ((dspPoweronAndReset o p).2.mlbBootflagSet dspBootflagResume)).2
      else (dspPoweronAndReset o p).2 := by
  unfold dspResume dspPoweronAndReset
  simp only [h, o.passes_three]
  rw [if_pos hentry]
  split_ifs <;> simp_all [DspC64.assertReset, DspC64.setRst2]

theorem dspPoweronAndReset_ram (o : PowerOutcome) (p : DspC64) :
    (dspPoweronAndReset o p).2.ram = p.ram := by
  unfold dspPoweronAndReset
  cases p.dspState with
  | off => split_ifs <;> rfl
  | reset => rfl
  | running => rfl

/-! ## Calls that keep the two in agreement -/

/-- A released DSP signals that it runs, a running one is not left in reset by
an attempt to switch it off, and one in reset is not left released. -/
def PowerCall.Completes (o : PowerOutcome) (p : DspC64) : PowerCall → Prop
  | .poweronAndReset => True
  | .start entryPoint =>
      p.dspState = .reset → p.InImage entryPoint →
        o.signals = true ∨ p.mlbBootflagGet = dspBootflagRunning
  | .resume =>
      p.dspState = .off → p.entryPoint ≠ 0 → o.Passes 3 →
        p.InImage p.entryPoint → o.signals = true
  | .poweroff =>
      (p.dspState = .running → o.Passes 8) ∧
        (p.dspState = .reset → o.Passes 8 → o.Passes 10)
  | .messages _ => True

instance (o : PowerOutcome) (p : DspC64) (c : PowerCall) :
    Decidable (c.Completes o p) := by
  unfold PowerCall.Completes
  split <;> infer_instance

section Calls

variable {p : DspC64} (hp : p.RunStateAgrees) (o : PowerOutcome)
include hp

theorem dspPoweronAndReset_agrees :
    (dspPoweronAndReset o p).2.RunStateAgrees := by
  by_cases hoff : p.dspState = .off
  · rw [Power.runStateAgrees_iff_of_line (dspPoweronAndReset_line hoff o)]
    split <;> simp
  · rw [dspPoweronAndReset_of_on hoff]
    exact hp

theorem dspStart_agrees_iff (entryPoint : ℕ) :
    (dspStart o entryPoint p).2.RunStateAgrees ↔
      (PowerCall.start entryPoint).Completes o p := by
  by_cases h : p.dspState = .reset ∧ p.InImage entryPoint
  · obtain ⟨hreset, hentry⟩ := h
    rw [Power.runStateAgrees_iff_of_line (dspStart_line hreset hentry o)]
    have hcompletes : (PowerCall.start entryPoint).Completes o p ↔
        o.signals = true ∨ p.mlbBootflagGet = dspBootflagRunning :=
      ⟨fun h => h hreset hentry, fun h _ _ => h⟩
    rw [hcompletes]
    split
    next hsignal => simp [hsignal]
    next hsignal => simp [hsignal]
  · rw [dspStart_of_not h]
    exact iff_of_true hp fun hreset hentry => absurd ⟨hreset, hentry⟩ h

theorem dspResume_agrees_iff :
    (dspResume o p).2.RunStateAgrees ↔ PowerCall.resume.Completes o p := by
  by_cases hoff : p.dspState = .off
  · by_cases hentry : p.entryPoint ≠ 0
    · rw [dspResume_of_off hoff hentry]
      have hline := dspPoweronAndReset_line hoff o
      have hram := dspPoweronAndReset_ram o p
      have hagrees := dspPoweronAndReset_agrees hp o
      split
      next hpasses =>
        rw [if_pos hpasses] at hline
        have hresumed : ((dspPoweronAndReset o p).2.mlbBootflagSet
            dspBootflagResume).RunStateAgrees := hagrees
        rw [dspStart_agrees_iff hresumed]
        have hreset : (dspPoweronAndReset o p).2.dspState = .reset :=
          congrArg Prod.fst hline
        have hflag : ((dspPoweronAndReset o p).2.mlbBootflagSet
            dspBootflagResume).mlbBootflagGet ≠ dspBootflagRunning := by
          rw [DspC64.mlbBootflagGet_set]
          exact dspBootflagResume_ne_running
        simp [PowerCall.Completes, Power.InImage, hreset, hram, hoff, hentry,
          hpasses, hflag]
      next hpasses => exact iff_of_true hagrees fun _ _ h => absurd h hpasses
    · have hkeeps : (dspResume o p).2 = p := by
        simp only [dspResume, hoff, if_neg hentry]
      rw [hkeeps]
      exact iff_of_true hp fun _ h => absurd h hentry
  · rw [dspResume_of_on hoff]
    exact iff_of_true hp fun h => absurd h hoff

theorem dspPoweroff_agrees_iff :
    (dspPoweroff o p).2.RunStateAgrees ↔ PowerCall.poweroff.Completes o p := by
  by_cases hoff : p.dspState = .off
  · rw [dspPoweroff_of_off hoff]
    refine iff_of_true hp ⟨fun h => ?_, fun h => ?_⟩
    · simp [hoff] at h
    · simp [hoff] at h
  · have hline := dspPoweroff_line hoff o
    have hfewer : o.Passes 10 → o.Passes 8 :=
      fun h i hi => h i (Nat.lt_trans hi (by decide))
    have hcompletes : PowerCall.poweroff.Completes o p ↔
        (p.dspState = .running → o.Passes 8) ∧
          (p.dspState = .reset → o.Passes 8 → o.Passes 10) := Iff.rfl
    rw [hcompletes]
    split at hline
    next hten =>
      rw [Power.runStateAgrees_iff_of_line hline]
      simp [hten, hfewer hten]
    next hten =>
      rw [Power.runStateAgrees_iff_of_line hline]
      cases hstate : p.dspState with
      | off => exact absurd hstate hoff
      | reset => simp [hten]
      | running => simp

/-- From a state in which the two agree, exactly the calls that complete lead
to one in which they agree. -/
theorem PowerCall.run_agrees_iff (c : PowerCall) :
    (c.run o p).2.RunStateAgrees ↔ c.Completes o p := by
  cases c with
  | poweronAndReset => exact iff_of_true (dspPoweronAndReset_agrees hp o) trivial
  | start entryPoint => exact dspStart_agrees_iff hp o entryPoint
  | resume => exact dspResume_agrees_iff hp o
  | poweroff => exact dspPoweroff_agrees_iff hp o
  | messages regs => exact iff_of_true hp trivial

end Calls

/-! ## Runs -/

/-- The call of a step completes. -/
def CallCompletes (p : DspC64) (e : PowerCall × PowerOutcome) : Prop :=
  e.1.Completes e.2 p

instance (p : DspC64) (e : PowerCall × PowerOutcome) :
    Decidable (CallCompletes p e) := by
  unfold CallCompletes
  infer_instance

/-- Whatever calls are made of a DSP that was off and held in reset, as long
as they complete, the run state agrees with the reset bit, and the next call
keeps it so if and only if it completes. -/
theorem runStateAgrees_of_callsComplete {start p : DspC64} (h : start.OffHeld)
    (hp : ((powerMachine start).restrict CallCompletes).Reachable p) :
    p.RunStateAgrees ∧ ∀ (c : PowerCall) (o : PowerOutcome),
      (c.run o p).2.RunStateAgrees ↔ c.Completes o p := by
  have hagrees : p.RunStateAgrees := by
    refine Machine.Reachable.invariant
      (P := fun p : DspC64 => p.RunStateAgrees) ?_ ?_ hp
    · rintro s rfl
      exact h.runStateAgrees
    · rintro s ⟨c, o⟩ t hs ⟨hcompletes, hnext⟩
      obtain rfl : (c.run o s).2 = t := Option.some.inj hnext
      exact (c.run_agrees_iff hs o).mpr hcompletes
  exact ⟨hagrees, fun c o => c.run_agrees_iff hagrees o⟩

/-- A DSP with a megabyte of RAM, switched off. -/
def idleDsp : DspC64 :=
  DspC64.initial { physAddr := 0x10000, virtAddr := 0, size := 0x100000 }

/-- The DSP is started, switched off and resumed, with a first attempt to
switch it on that times out. -/
theorem idleDsp_runStateAgrees :
    ∃ p, p.RunStateAgrees ∧ p.dspState = .running ∧
      ∀ (c : PowerCall) (o : PowerOutcome),
        (c.run o p).2.RunStateAgrees ↔ c.Completes o p := by
  have hrun : ∃ p, ((powerMachine idleDsp).restrict CallCompletes).Reachable p ∧
      p.dspState = .running :=
    Machine.exists_restrict_reachable_of_run
      (fun p : DspC64 => p.dspState = .running)
      [(.poweronAndReset, ⟨fun i => i ≠ 1, true⟩),
        (.poweronAndReset, ⟨fun _ => true, true⟩),
        (.start 0x20000, ⟨fun _ => true, true⟩),
        (.poweroff, ⟨fun _ => true, true⟩),
        (.resume, ⟨fun _ => true, true⟩)] (by decide +kernel)
  obtain ⟨p, hp, hstate⟩ := hrun
  obtain ⟨hagrees, hiff⟩ := runStateAgrees_of_callsComplete (by decide) hp
  exact ⟨p, hagrees, hstate, hiff⟩

/-- A started DSP that stays silent is believed to be held in reset, and one
that was to be switched off while its power domain does not come up is
believed to run. -/
theorem timedOut_calls_not_agree :
    idleDsp.OffHeld ∧
      (∃ p, (powerMachine idleDsp).Reachable p ∧
        p.dspState = .reset ∧ p.rstctrl.rst1 = false) ∧
      ∃ p, (powerMachine idleDsp).Reachable p ∧
        p.dspState = .running ∧ p.rstctrl.rst1 = true := by
  refine ⟨by decide, ?_, ?_⟩
  · exact Machine.exists_reachable_of_run
      (fun p : DspC64 => p.dspState = .reset ∧ p.rstctrl.rst1 = false)
      [(.poweronAndReset, ⟨fun _ => true, true⟩),
        (.start 0x20000, ⟨fun _ => true, false⟩)] (by decide +kernel)
  · exact Machine.exists_reachable_of_run
      (fun p : DspC64 => p.dspState = .running ∧ p.rstctrl.rst1 = true)
      [(.poweronAndReset, ⟨fun _ => true, true⟩),
        (.start 0x20000, ⟨fun _ => true, true⟩),
        (.poweroff, ⟨fun _ => false, true⟩)] (by decide +kernel)

end C64Tools.Kmod
