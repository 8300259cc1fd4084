import C64Tools.Core.Registers

/-!
# Switching the DSP on and off

The power functions of `kmod/dsp_c64.c`.  Of the power and reset manager only
the reset control register is kept; the clock and power state registers are
written but decide nothing.  The boot mode is one of the registers that the
driver shares with the program of the DSP.  Whether a wait loop sees its
condition before `MAX_WAIT_COUNT` turns is an input, and so is whether the
program signals that it runs while `dsp_start` polls for it.
-/

namespace C64Tools.Kmod

/-- `ST_OFF`, `ST_RESET` and `ST_RUNNING`. -/
inductive DspState where
  | off
  | reset
  | running
  deriving DecidableEq, Repr

/-- Bits 0 to 2 of `IVA2_PRM_RSTCTRL`; a set bit holds the DSP, the MMU or
the sequencer in reset. -/
structure RstCtrl where
  rst1 : Bool
  rst2 : Bool
  rst3 : Bool
  deriving DecidableEq, Repr

/-- State of the DSP as the driver and the hardware know it.  `executing`
tells whether the DSP executes its program, and `resets` counts how often its
reset was asserted. -/
structure Power where
  dspState : DspState
  entryPoint : ℕ
  ram : DspMemRegion
  rstctrl : RstCtrl
  executing : Bool
  resets : ℕ
  deriving DecidableEq, Repr

/-- What the power functions work on: the DSP, and the registers that its
program and the driver share. -/
structure DspC64 extends Power where
  regs : IpcRegs
  deriving DecidableEq, Repr

/-- Outcomes of the wait loops of one call, in the order of the source, and
of the polling for the boot flag. -/
structure PowerOutcome where
  waits : ℕ → Bool
  signals : Bool

namespace Power

/-- State after the module was loaded. -/
def initial (ram : DspMemRegion) : Power where
  dspState := .off
  entryPoint := 0
  ram := ram
  rstctrl := ⟨true, true, true⟩
  executing := false
  resets := 0

end Power

namespace DspC64

/-- State after the module was loaded. -/
def initial (ram : DspMemRegion) : DspC64 where
  toPower := Power.initial ram
  regs := IpcRegs.zero

/-- `mlb_bootflag_set`. -/
def mlbBootflagSet (p : DspC64) (mode : ℕ) : DspC64 :=
  { p with regs := p.regs.setBootmode mode }

/-- `mlb_bootflag_get`. -/
def mlbBootflagGet (p : DspC64) : ℕ := p.regs.bootmode

/-- Write 5 to the reset control register, then set bit 1. -/
def assertReset (p : DspC64) : DspC64 :=
  { p with
    rstctrl := ⟨true, true, true⟩
    executing := false
    resets := p.resets + 1 }

def setRst1 (p : DspC64) (b : Bool) : DspC64 :=
  { p with rstctrl := { p.rstctrl with rst1 := b } }

def setRst2 (p : DspC64) (b : Bool) : DspC64 :=
  { p with rstctrl := { p.rstctrl with rst2 := b } }

/-- Clear the DSP reset bit; the program writes the boot flag as soon as it
can serve messages. -/
def release (p : DspC64) (entryPoint : ℕ) (signals : Bool) : DspC64 :=
  { p.setRst1 false with
    executing := true
    entryPoint := entryPoint
    regs := if signals then p.regs.setBootmode dspBootflagRunning else p.regs }

@[simp] theorem assertReset_executing (p : DspC64) :
    p.assertReset.executing = false := rfl

@[simp] theorem assertReset_resets (p : DspC64) :
    p.assertReset.resets = p.resets + 1 := rfl

@[simp] theorem setRst1_resets (p : DspC64) (b : Bool) :
    (p.setRst1 b).resets = p.resets := rfl

@[simp] theorem setRst2_resets (p : DspC64) (b : Bool) :
    (p.setRst2 b).resets = p.resets := rfl

@[simp] theorem setRst1_executing (p : DspC64) (b : Bool) :
    (p.setRst1 b).executing = p.executing := rfl

@[simp] theorem setRst2_executing (p : DspC64) (b : Bool) :
    (p.setRst2 b).executing = p.executing := rfl

@[simp] theorem mlbBootflagSet_toPower (p : DspC64) (mode : ℕ) :
    (p.mlbBootflagSet mode).toPower = p.toPower := rfl

@[simp] theorem mlbBootflagSet_regs (p : DspC64) (mode : ℕ) :
    (p.mlbBootflagSet mode).regs = p.regs.setBootmode mode := rfl

theorem mlbBootflagGet_set (p : DspC64) (mode : ℕ) :
    (p.mlbBootflagSet mode).mlbBootflagGet = mode := rfl

@[simp] theorem assertReset_regs (p : DspC64) : p.assertReset.regs = p.regs :=
  rfl

@[simp] theorem setRst1_regs (p : DspC64) (b : Bool) :
    (p.setRst1 b).regs = p.regs := rfl

@[simp] theorem setRst2_regs (p : DspC64) (b : Bool) :
    (p.setRst2 b).regs = p.regs := rfl

/-- Of the registers, only the boot mode may be different. -/
def KeepsMessage (p p' : DspC64) : Prop :=
  ∃ mode, p'.regs = p.regs.setBootmode mode

theorem KeepsMessage.rets {p p' : DspC64} (h : p.KeepsMessage p') :
    p'.regs.rets = p.regs.rets := by
  obtain ⟨mode, hmode⟩ := h
  rw [hmode, IpcRegs.rets_setBootmode]

theorem KeepsMessage.errno {p p' : DspC64} (h : p.KeepsMessage p') :
    p'.regs.errno = p.regs.errno := by
  obtain ⟨mode, hmode⟩ := h
  rw [hmode]
  rfl

theorem keepsMessage_of_regs {p p' : DspC64} (h : p'.regs = p.regs) :
    p.KeepsMessage p' :=
  ⟨p.regs.bootmode, h⟩

theorem KeepsMessage.trans {p p' p'' : DspC64} (h : p.KeepsMessage p')
    (h' : p'.KeepsMessage p'') : p.KeepsMessage p'' := by
  obtain ⟨mode, hmode⟩ := h
  obtain ⟨mode', hmode'⟩ := h'
  exact ⟨mode', by rw [hmode', hmode]; rfl⟩

end DspC64

/-! ## `dsp_poweron_and_reset` -/

def dspPoweronAndReset (o : PowerOutcome) (p : DspC64) : Ret × DspC64 :=
  match p.dspState with
  | .off =>
      let p := p.assertReset
      if o.waits 0 then
        let p := p.setRst2 false
        if o.waits 1 then
          if o.waits 2 then
            (.ok (),
              { p.mlbBootflagSet dspBootflagReboot with dspState := .reset })
          else (.error .EBUSY, p)
        else (.error .EBUSY, p)
      else (.error .EBUSY, p)
  | .reset => (.ok (), p)
  | .running => (.error .EACCES, p)

/-! ## `dsp_start` -/

def dspStart (o : PowerOutcome) (entryPoint : ℕ) (p : DspC64) : Ret × DspC64 :=
  if p.dspState = .reset then
    if entryPoint ≥ p.ram.physAddr ∧
        entryPoint < u32 (p.ram.physAddr + p.ram.size) then
      let p := p.release entryPoint o.signals
      if p.mlbBootflagGet = dspBootflagRunning then
        (.ok (), { p with dspState := .running })
      else (.error .EBUSY, p)
    else (.error .EINVAL, p)
  else (.error .EACCES, p)

/-! ## `dsp_resume` -/

def dspResume (o : PowerOutcome) (p : DspC64) : Ret × DspC64 :=
  match p.dspState with
  | .off =>
      if p.entryPoint ≠ 0 then
        match dspPoweronAndReset o p with
        | (.ok (), p) =>
            dspStart o p.entryPoint (p.mlbBootflagSet dspBootflagResume)
        | (.error e, p) => (.error e, p)
      else (.error .EACCES, p)
  | .running => (.ok (), p)
  | .reset => (.error .EACCES, p)

/-! ## `dsp_poweroff` -/

def dspPoweroff (o : PowerOutcome) (p : DspC64) : Ret × DspC64 :=
  if p.dspState ≠ .off then
    let p := p.assertReset
    if o.waits 0 then
      let p := p.setRst2 false
      if o.waits 1 then
        if o.waits 2 then
          let p := p.setRst2 true
          if o.waits 3 then
            if o.waits 4 then
              if o.waits 5 then
                let p := p.setRst2 false
                if o.waits 6 then
                  if o.waits 7 then
                    -- the DSP leaves reset in idle boot mode
                    let p := p.setRst1 false
                    if o.waits 8 then
                      if o.waits 9 then
                        (.ok (), { p.assertReset with dspState := .off })
                      else (.error .EBUSY, p)
                    else (.error .EBUSY, p)
                  else (.error .EBUSY, p)
                else (.error .EBUSY, p)
              else (.error .EBUSY, p)
            else (.error .EBUSY, p)
          else (.error .EBUSY, p)
        else (.error .EBUSY, p)
      else (.error .EBUSY, p)
    else (.error .EBUSY, p)
  else (.ok (), p)

/-! ## Which calls stop the program -/

/-- A DSP that is switched off executes no program. -/
def Power.OffIdle (p : Power) : Prop :=
  p.dspState = .off → p.executing = false

theorem initial_offIdle (ram : DspMemRegion) : (Power.initial ram).OffIdle :=
  fun _ => rfl

/-- Switching a DSP off stops its program, also when one of the wait loops
times out. -/
theorem dspPoweroff_executing {p : DspC64} (h : p.dspState ≠ .off)
    (o : PowerOutcome) : (dspPoweroff o p).2.executing = false := by
  simp [dspPoweroff, h, apply_ite Prod.snd, apply_ite DspC64.toPower,
    apply_ite Power.executing]

theorem dspPoweroff_of_off {p : DspC64} (h : p.dspState = .off)
    (o : PowerOutcome) : dspPoweroff o p = (.ok (), p) := by
  simp [dspPoweroff, h]

theorem dspPoweroff_offIdle {p : DspC64} (h : p.OffIdle) (o : PowerOutcome) :
    (dspPoweroff o p).2.OffIdle := by
  by_cases hoff : p.dspState = .off
  · rw [dspPoweroff_of_off hoff]
    exact h
  · exact fun _ => dspPoweroff_executing hoff o

/-- Only a DSP that is off is reset. -/
theorem dspPoweronAndReset_of_on {p : DspC64} (h : p.dspState ≠ .off)
    (o : PowerOutcome) : (dspPoweronAndReset o p).2 = p := by
  unfold dspPoweronAndReset
  cases hstate : p.dspState with
  | off => exact absurd hstate h
  | reset => rfl
  | running => rfl

theorem dspPoweronAndReset_executing {p : DspC64} (h : p.dspState = .off)
    (o : PowerOutcome) : (dspPoweronAndReset o p).2.executing = false := by
  simp [dspPoweronAndReset, h, apply_ite Prod.snd, apply_ite DspC64.toPower,
    apply_ite Power.executing]

theorem dspPoweronAndReset_offIdle {p : DspC64} (h : p.OffIdle)
    (o : PowerOutcome) : (dspPoweronAndReset o p).2.OffIdle := by
  by_cases hoff : p.dspState = .off
  · exact fun _ => dspPoweronAndReset_executing hoff o
  · rw [dspPoweronAndReset_of_on hoff]
    exact h

/-- `dsp_start` releases a DSP that is held in reset, or does nothing. -/
theorem dspStart_cases (o : PowerOutcome) (entryPoint : ℕ) (p : DspC64) :
    (dspStart o entryPoint p).2 = p ∨
      p.dspState = .reset ∧ ∃ st, st ≠ .off ∧
        (dspStart o entryPoint p).2 =
          { p.release entryPoint o.signals with dspState := st } := by
  unfold dspStart
  split
  next hreset =>
    split
    next =>
      refine Or.inr ⟨hreset, ?_⟩
      simp only
      split
      next => exact ⟨.running, by decide, rfl⟩
      next =>
        refine ⟨.reset, by decide, ?_⟩
        rw [← hreset]
        rfl
    next => exact Or.inl rfl
  next => exact Or.inl rfl

/-- A DSP that is not held in reset is not started. -/
theorem dspStart_of_running {p : DspC64} (h : p.dspState = .running)
    (o : PowerOutcome) (entryPoint : ℕ) : (dspStart o entryPoint p).2 = p := by
  obtain heq | ⟨hreset, -⟩ := dspStart_cases o entryPoint p
  · exact heq
  · rw [h] at hreset
    cases hreset

theorem dspStart_resets (o : PowerOutcome) (entryPoint : ℕ) (p : DspC64) :
    (dspStart o entryPoint p).2.resets = p.resets := by
  rcases dspStart_cases o entryPoint p with h | ⟨-, st, -, h⟩ <;> rw [h]
  rfl

theorem dspStart_executing (o : PowerOutcome) (entryPoint : ℕ) {p : DspC64}
    (hp : p.executing = true) :
    (dspStart o entryPoint p).2.executing = true := by
  rcases dspStart_cases o entryPoint p with h | ⟨-, st, -, h⟩ <;> rw [h]
  · exact hp
  · rfl

theorem dspStart_offIdle {p : DspC64} (h : p.OffIdle) (o : PowerOutcome)
    (entryPoint : ℕ) : (dspStart o entryPoint p).2.OffIdle := by
  rcases dspStart_cases o entryPoint p with heq | ⟨-, st, hst, heq⟩ <;>
    rw [heq]
  · exact h
  · exact fun hoff => absurd hoff hst

/-- `dsp_resume` does nothing to a DSP that is not off. -/
theorem dspResume_of_on {p : DspC64} (h : p.dspState ≠ .off)
    (o : PowerOutcome) : (dspResume o p).2 = p := by
  unfold dspResume
  cases hstate : p.dspState with
  | off => exact absurd hstate h
  | reset => rfl
  | running => rfl

theorem dspResume_offIdle {p : DspC64} (h : p.OffIdle) (o : PowerOutcome) :
    (dspResume o p).2.OffIdle := by
  by_cases hoff : p.dspState = .off
  · have hon := dspPoweronAndReset_offIdle h o
    unfold dspResume
    rw [hoff]
    simp only
    split
    · cases hreset : dspPoweronAndReset o p with
      | mk ret q =>
          rw [hreset] at hon
          cases ret with
          | ok u => exact @dspStart_offIdle (q.mlbBootflagSet dspBootflagResume) hon o _
          | error e => exact hon
    · exact h
  · rw [dspResume_of_on hoff]
    exact h

/-! ## Resets are counted -/

theorem resets_le_ite {c : Prop} [Decidable c] {n : ℕ} {r s : Ret × DspC64}
    (hr : n ≤ r.2.resets) (hs : n ≤ s.2.resets) :
    n ≤ (if c then r else s).2.resets := by
  split
  · exact hr
  · exact hs

/-- A DSP that is switched off is reset at once. -/
theorem dspPoweroff_resets_lt {p : DspC64} (h : p.dspState ≠ .off)
    (o : PowerOutcome) : p.resets < (dspPoweroff o p).2.resets := by
  unfold dspPoweroff
  rw [if_pos h]
  repeat' apply resets_le_ite
  all_goals simp

theorem dspPoweroff_resets_le (o : PowerOutcome) (p : DspC64) :
    p.resets ≤ (dspPoweroff o p).2.resets := by
  by_cases hoff : p.dspState = .off
  · exact Nat.le_of_eq (by rw [dspPoweroff_of_off hoff])
  · exact Nat.le_of_lt (dspPoweroff_resets_lt hoff o)

theorem dspPoweronAndReset_resets_le (o : PowerOutcome) (p : DspC64) :
    p.resets ≤ (dspPoweronAndReset o p).2.resets := by
  unfold dspPoweronAndReset
  cases p.dspState with
  | off =>
      repeat' apply resets_le_ite
      all_goals simp
  | reset => exact Nat.le_refl _
  | running => exact Nat.le_refl _

theorem dspResume_resets_le (o : PowerOutcome) (p : DspC64) :
    p.resets ≤ (dspResume o p).2.resets := by
  by_cases hoff : p.dspState = .off
  · have hon := dspPoweronAndReset_resets_le o p
    unfold dspResume
    rw [hoff]
    simp only
    split
    · cases hreset : dspPoweronAndReset o p with
      | mk ret q =>
          rw [hreset] at hon
          cases ret with
          | ok u =>
              rw [dspStart_resets]
              exact hon
          | error e => exact hon
    · exact Nat.le_refl _
  · exact Nat.le_of_eq (by rw [dspResume_of_on hoff])

/-! ## Registers -/

theorem dspPoweronAndReset_keepsMessage (o : PowerOutcome) (p : DspC64) :
    p.KeepsMessage (dspPoweronAndReset o p).2 := by
  unfold dspPoweronAndReset
  cases p.dspState with
  | off =>
      simp only
      split_ifs
      · exact ⟨dspBootflagReboot, rfl⟩
      all_goals exact DspC64.keepsMessage_of_regs rfl
  | reset => exact DspC64.keepsMessage_of_regs rfl
  | running => exact DspC64.keepsMessage_of_regs rfl

theorem dspStart_keepsMessage (o : PowerOutcome) (entryPoint : ℕ)
    (p : DspC64) : p.KeepsMessage (dspStart o entryPoint p).2 := by
  rcases dspStart_cases o entryPoint p with h | ⟨-, st, -, h⟩ <;> rw [h]
  · exact DspC64.keepsMessage_of_regs rfl
  · cases hsignals : o.signals with
    | true => exact ⟨dspBootflagRunning, rfl⟩
    | false => exact DspC64.keepsMessage_of_regs rfl

theorem dspResume_keepsMessage (o : PowerOutcome) (p : DspC64) :
    p.KeepsMessage (dspResume o p).2 := by
  have hon := dspPoweronAndReset_keepsMessage o p
  unfold dspResume
  cases p.dspState with
  | off =>
      simp only
      split_ifs
      · cases hreset : dspPoweronAndReset o p with
        | mk ret q =>
            rw [hreset] at hon
            cases ret with
            | ok u =>
                have hset : q.KeepsMessage (q.mlbBootflagSet dspBootflagResume) :=
                  ⟨_, rfl⟩
                exact (hon.trans hset).trans (dspStart_keepsMessage o _ _)
            | error e => exact hon
      · exact DspC64.keepsMessage_of_regs rfl
  | running => exact DspC64.keepsMessage_of_regs rfl
  | reset => exact DspC64.keepsMessage_of_regs rfl

/-- Switching the DSP off writes no register. -/
theorem dspPoweroff_regs (o : PowerOutcome) (p : DspC64) :
    (dspPoweroff o p).2.regs = p.regs := by
  unfold dspPoweroff
  simp [apply_ite Prod.snd, apply_ite DspC64.regs]

/-! ## A DSP that is switched off only if this is wanted -/

section PwrOff

variable (c : Bool) (o : PowerOutcome) (p : DspC64)

/-- A DSP that is not off is left alone unless it is reset. -/
theorem ite_dspPoweroff_of_resets (hon : p.dspState ≠ .off)
    (h : (if c then (dspPoweroff o p).2 else p).resets = p.resets) :
    (if c then (dspPoweroff o p).2 else p) = p := by
  cases c with
  | true => exact absurd h (Nat.ne_of_gt (dspPoweroff_resets_lt hon o))
  | false => rfl

theorem ite_dspPoweroff_resets_le :
    p.resets ≤ (if c then (dspPoweroff o p).2 else p).resets := by
  cases c with
  | true => exact dspPoweroff_resets_le o p
  | false => exact Nat.le_refl _

theorem ite_dspPoweroff_offIdle (h : p.OffIdle) :
    (if c then (dspPoweroff o p).2 else p).OffIdle := by
  cases c with
  | true => exact dspPoweroff_offIdle h o
  | false => exact h

theorem ite_dspPoweroff_regs :
    (if c then (dspPoweroff o p).2 else p).regs = p.regs := by
  cases c with
  | true => exact dspPoweroff_regs o p
  | false => rfl

end PwrOff

end C64Tools.Kmod
