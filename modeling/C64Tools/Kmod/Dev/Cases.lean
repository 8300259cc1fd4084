import C64Tools.Kmod.Dev.Step

/-!
# What the file operations can do

One lemma for each operation, listing the states it can lead to.  The
invariants of the driver are derived from these lemmas.
-/

namespace C64Tools.Kmod

namespace Driver

/-! ## Single clients -/

@[simp] theorem setClient_self (d : Driver) (i : Slot)
    (f : DevClient → DevClient) :
    (d.setClient i f).clients i = f (d.clients i) := by
  simp [setClient]

theorem setClient_clients (d : Driver) (i j : Slot)
    (f : DevClient → DevClient) :
    (d.setClient i f).clients j =
      if j = i then f (d.clients i) else d.clients j := by
  simp only [setClient, Function.update_apply]

theorem setClient_state (d : Driver) (i j : Slot)
    (f : DevClient → DevClient) :
    ((d.setClient i f).clients j).state =
      if j = i then (f (d.clients i)).state else (d.clients j).state := by
  rw [setClient_clients, apply_ite DevClient.state]

theorem setClient_dspMsg (d : Driver) (i j : Slot)
    (f : DevClient → DevClient) :
    ((d.setClient i f).clients j).dspMsg =
      if j = i then (f (d.clients i)).dspMsg else (d.clients j).dspMsg := by
  rw [setClient_clients, apply_ite DevClient.dspMsg]

theorem setClient_flags (d : Driver) (i j : Slot)
    (f : DevClient → DevClient) :
    ((d.setClient i f).clients j).sectionFlags =
      if j = i then (f (d.clients i)).sectionFlags
      else (d.clients j).sectionFlags := by
  rw [setClient_clients, apply_ite DevClient.sectionFlags]

theorem setClient_ne (d : Driver) {i j : Slot} (f : DevClient → DevClient)
    (h : j ≠ i) : (d.setClient i f).clients j = d.clients j := by
  simp [setClient, h]

/-- An update that keeps a part of the client keeps it for all clients. -/
theorem setClient_apply {α : Type*} (d : Driver) (i j : Slot)
    {f : DevClient → DevClient} {g : DevClient → α}
    (h : ∀ c, g (f c) = g c) :
    g ((d.setClient i f).clients j) = g (d.clients j) := by
  by_cases hj : j = i
  · subst hj
    rw [setClient_self, h]
  · rw [setClient_ne d f hj]

theorem findClientByFilep_some {d : Driver} {filep : ℕ} {i : Slot}
    (h : d.findClientByFilep filep = some i) :
    (d.clients i).filep = some filep ∧ (d.clients i).state ≠ .unused := by
  simpa [findClientByFilep] using List.find?_some h

theorem findUnused_some {d : Driver} {i : Slot}
    (h : d.findUnused = some i) : (d.clients i).state = .unused := by
  simpa [findUnused] using List.find?_some h

end Driver

/-- The entry that `fops__open` makes. -/
def connect (filep : ℕ) (c : DevClient) : DevClient :=
  { c with filep := some filep, state := .idle }

/-! ## Opening and closing -/

theorem fopsOpen_cases (minor filep : ℕ) (d : Driver) :
    (∃ n, (fopsOpen minor filep d).2 = { d with numOpen := n }) ∨
    ∃ n i, (d.clients i).state = .unused ∧ (fopsOpen minor filep d).2 =
      (({ d with numOpen := n } : Driver).setClient i
        (connect filep)).observe (.opened i) := by
  unfold fopsOpen
  split
  next =>
    simp only
    split
    next =>
      split
      next =>
        split
        next i hi =>
          exact Or.inr ⟨_, i, Driver.findUnused_some hi, rfl⟩
        next => exact Or.inl ⟨_, rfl⟩
      next => exact Or.inl ⟨_, rfl⟩
    next => exact Or.inl ⟨_, rfl⟩
  next => exact Or.inl ⟨d.numOpen, rfl⟩

theorem fopsRelease_of_found {filep : ℕ} {d : Driver}
    (h : d.findClientByFilep filep ≠ none) :
    ∃ n i, (d.clients i).filep = some filep ∧ (d.clients i).state ≠ .unused ∧
      fopsRelease filep d =
        { ({ d with numOpen := n } : Driver).setState i .unused with
          powerMask := d.powerMask.erase i
          crit := .relCurrent i } := by
  obtain ⟨i, hi⟩ := Option.ne_none_iff_exists'.mp h
  obtain ⟨hfilep, hstate⟩ := Driver.findClientByFilep_some hi
  have hfound : ({ d with numOpen := d.numOpen - 1 } : Driver).findClientByFilep
      filep = some i := hi
  refine ⟨d.numOpen - 1, i, hfilep, hstate, ?_⟩
  simp only [fopsRelease, hfound]

/-! ## Reading and writing -/

theorem fopsRead_cases (filep count : ℕ) (d : Driver) :
    fopsRead filep count d = d ∨
    ∃ i, (d.clients i).state = .replyAvail ∧ fopsRead filep count d =
      { d with reading := Function.update d.reading i (d.reading i + 1) } := by
  unfold fopsRead
  split
  next =>
    split
    next i hi =>
      split
      next havail => exact Or.inr ⟨i, havail, rfl⟩
      next => exact Or.inl rfl
    next => exact Or.inl rfl
  next => exact Or.inl rfl

theorem fopsWrite_cases (filep : ℕ) (arg : WriteArg) (d : Driver) :
    (∃ i m, arg = .msg (.readable m) ∧ d.currentClient = none ∧
      (d.clients i).filep = some filep ∧ (d.clients i).state ≠ .unused ∧
      fopsWrite filep arg d =
        { d.setClient i fun c => { c with dspMsg := m } with
          crit := .writeCopied i }) ∨
    (∃ i left, arg = .msg (.fault left) ∧ d.currentClient = none ∧
      d.findClientByFilep filep = some i ∧ fopsWrite filep arg d =
        (d.setClient i fun c => { c with dspMsg := left }).wrote (some filep)
          (.error .EFAULT)) ∨
    (∃ val, arg = .testMsg (.readable val) ∧
      fopsWrite filep arg d = { d with crit := .testCopied filep val }) ∨
    ∃ ret, fopsWrite filep arg d = d.wrote (some filep) ret := by
  unfold fopsWrite
  split
  next buf =>
    split
    next hnone =>
      split
      next i hi =>
        obtain ⟨hfilep, hstate⟩ := Driver.findClientByFilep_some hi
        split
        next m => exact Or.inl ⟨i, m, rfl, hnone, hfilep, hstate, rfl⟩
        next left => exact Or.inr (Or.inl ⟨i, left, rfl, hnone, hi, rfl⟩)
      next => exact Or.inr (Or.inr (Or.inr ⟨_, rfl⟩))
    next => exact Or.inr (Or.inr (Or.inr ⟨_, rfl⟩))
  next buf =>
    split
    next val => exact Or.inr (Or.inr (Or.inl ⟨val, rfl, rfl⟩))
    next => exact Or.inr (Or.inr (Or.inr ⟨_, rfl⟩))
  next => exact Or.inr (Or.inr (Or.inr ⟨_, rfl⟩))

/-! ## Sending -/

theorem mlbSendToDsp_cases (who : Sender) (next : SendStep) (fifoFull : Bool)
    (d : Driver) :
    (next = .check ∧ (d.ready = true ∨ who.isTest = true) ∧
      mlbSendToDsp who next fifoFull d =
        { d with crit := .sending who .clear }) ∨
    (next = .check ∧ d.ready = false ∧ who.isTest = false ∧
      mlbSendToDsp who next fifoFull d = sendFailed who d) ∨
    (next = .clear ∧ mlbSendToDsp who next fifoFull d =
      { d with ready := false, crit := .sending who .reset }) ∨
    (next = .reset ∧ mlbSendToDsp who next fifoFull d =
      { d with
        msgSerial := u32 (d.msgSerial + 1)
        inbox := []
        irqEnable := true
        crit := .sending who .kick }) ∨
    (next = .kick ∧ fifoFull = true ∧ mlbSendToDsp who next fifoFull d =
      sendFailed who { d with ready := true }) ∨
    (next = .kick ∧ fifoFull = false ∧ mlbSendToDsp who next fifoFull d =
      sendSucceeded who (publish who d)) := by
  unfold mlbSendToDsp
  cases next with
  | check => grind
  | clear => exact Or.inr (Or.inr (Or.inl ⟨rfl, rfl⟩))
  | reset => exact Or.inr (Or.inr (Or.inr (Or.inl ⟨rfl, rfl⟩)))
  | kick => cases fifoFull <;> simp

/-- What sending leaves alone. -/
structure KeptBySend (d d' : Driver) : Prop where
  clients : d'.clients = d.clients
  reading : d'.reading = d.reading
  sectionFlags : d'.sectionFlags = d.sectionFlags
  powerMask : d'.powerMask = d.powerMask
  power : d'.power = d.power
  currentClient : d'.currentClient = d.currentClient

theorem sendFailed_keeps (who : Sender) (d : Driver) :
    KeptBySend d (sendFailed who d) := by
  cases who <;> exact ⟨rfl, rfl, rfl, rfl, rfl, rfl⟩

theorem sendSucceeded_keeps (who : Sender) (d : Driver) :
    KeptBySend d (sendSucceeded who (publish who d)) := by
  cases who <;> exact ⟨rfl, rfl, rfl, rfl, rfl, rfl⟩

theorem mlbSendToDsp_keeps (who : Sender) (next : SendStep) (fifoFull : Bool)
    (d : Driver) : KeptBySend d (mlbSendToDsp who next fifoFull d) := by
  rcases mlbSendToDsp_cases who next fifoFull d with
    ⟨-, -, heq⟩ | ⟨-, -, -, heq⟩ | ⟨-, heq⟩ | ⟨-, heq⟩ | ⟨-, -, heq⟩ |
    ⟨-, -, heq⟩ <;> rw [heq]
  · exact ⟨rfl, rfl, rfl, rfl, rfl, rfl⟩
  · exact sendFailed_keeps who d
  · exact ⟨rfl, rfl, rfl, rfl, rfl, rfl⟩
  · exact ⟨rfl, rfl, rfl, rfl, rfl, rfl⟩
  · obtain ⟨h₁, h₂, h₃, h₄, h₅, h₆⟩ :=
      sendFailed_keeps who { d with ready := true }
    exact ⟨h₁, h₂, h₃, h₄, h₅, h₆⟩
  · exact sendSucceeded_keeps who d

/-! ## The interrupt handler -/

/-- The reply in the registers becomes the current client's. -/
def takeReply (d : Driver) (c : DevClient) : DevClient :=
  { c with
    dspMsg := { c.dspMsg with data0 := d.regs.ret1, data1 := d.regs.ret2 }
    dspErrno := d.regs.errno
    state := .replyAvail }

theorem irqHandlerMlb_cases (d : Driver) :
    (∃ i, d.currentClient = some i ∧ (d.clients i).state = .replyPending ∧
      irqHandlerMlb d =
        { d.setClient i (takeReply d) with
          currentClient := none
          inbox := []
          irqEnable := false
          ready := true }) ∨
    ((∀ i, d.currentClient = some i →
        (d.clients i).state ≠ .replyPending) ∧
      irqHandlerMlb d =
        { d with inbox := [], irqEnable := false, ready := true }) := by
  unfold irqHandlerMlb devHandleReply
  simp only
  split
  next i hi =>
    split
    next hpending => exact Or.inl ⟨i, hi, hpending, rfl⟩
    next hpending =>
      refine Or.inr ⟨fun j hj => ?_, rfl⟩
      obtain rfl : i = j := Option.some.inj (hi.symm.trans hj)
      exact hpending
  next hnone =>
    exact Or.inr ⟨fun j hj => absurd (hnone.symm.trans hj) nofun, rfl⟩

/-! ## Control commands -/

/-- What the control commands leave alone. -/
structure Undisturbed (d d' : Driver) : Prop where
  state : ∀ i, (d'.clients i).state = (d.clients i).state
  dspMsg : ∀ i, (d'.clients i).dspMsg = (d.clients i).dspMsg
  filep : ∀ i, (d'.clients i).filep = (d.clients i).filep
  currentClient : d'.currentClient = d.currentClient
  ready : d'.ready = d.ready
  crit : d'.crit = d.crit
  reading : d'.reading = d.reading
  rets : d'.regs.rets = d.regs.rets
  irqEnable : d'.irqEnable = d.irqEnable
  inbox : d'.inbox = d.inbox
  unanswered : d'.unanswered = d.unanswered
  nextId : d'.nextId = d.nextId
  log : d'.log = d.log

theorem Undisturbed.refl (d : Driver) : Undisturbed d d :=
  ⟨fun _ => rfl, fun _ => rfl, fun _ => rfl, rfl, rfl, rfl, rfl, rfl, rfl, rfl,
    rfl, rfl, rfl⟩

/-- Only flags are different. -/
theorem undisturbed_of_eq {d : Driver} {i : Slot} {sectionFlags : Section → Bool}
    {f : DevClient → DevClient}
    (hstate : ∀ c, (f c).state = c.state)
    (hmsg : ∀ c, (f c).dspMsg = c.dspMsg)
    (hfilep : ∀ c, (f c).filep = c.filep) :
    Undisturbed d { d.setClient i f with sectionFlags } where
  state j := d.setClient_apply i j hstate
  dspMsg j := d.setClient_apply i j hmsg
  filep j := d.setClient_apply i j hfilep
  currentClient := rfl
  ready := rfl
  crit := rfl
  reading := rfl
  rets := rfl
  irqEnable := rfl
  inbox := rfl
  unanswered := rfl
  nextId := rfl
  log := rfl

/-- Section `s` becomes reserved for a client. -/
def reserveSection (i : Slot) (s : Section) (d : Driver) : Driver :=
  { d.setClient i fun c => { c with
      sectionFlags := Function.update c.sectionFlags s true
      sectionMem := Function.update c.sectionMem s (overlaySections s) } with
    sectionFlags := Function.update d.sectionFlags s true }

/-- A client gives section `s` back. -/
def giveBackSection (i : Slot) (s : Section) (d : Driver) : Driver :=
  { d.setClient i fun c => { c with
      sectionFlags := Function.update c.sectionFlags s false
      sectionMem := Function.update c.sectionMem s DspMemRegion.zero } with
    sectionFlags := Function.update d.sectionFlags s false }

/-- A client adds a reference to section `s`. -/
def refSection (i : Slot) (s : Section) (d : Driver) : Driver :=
  d.setClient i fun c => { c with
    sectionFlags := Function.update c.sectionFlags s true }

theorem locIoctlOverlayAlloc_cases (i : Slot) (area : UserBuf ℕ)
    (copyBack : Bool) (d : Driver) :
    (locIoctlOverlayAlloc i area copyBack d).2 = d ∨
    ∃ s, d.sectionFlags s = false ∧
      (locIoctlOverlayAlloc i area copyBack d).2 = reserveSection i s d := by
  unfold locIoctlOverlayAlloc
  simp only
  split
  next =>
    split
    next s hs =>
      have hfree : d.sectionFlags s = false := by
        simpa using List.find?_some hs
      exact Or.inr ⟨s, hfree, by cases copyBack <;> rfl⟩
    next => exact Or.inl rfl
  next =>
    split
    next hfree =>
      exact Or.inr ⟨mlbComSectionidxArea3, by simpa using hfree,
        by cases copyBack <;> rfl⟩
    next => exact Or.inl rfl
  next => exact Or.inl rfl
  next => exact Or.inl rfl

theorem locIoctlOverlayFree_cases (i : Slot) (secIdx : ℕ) (d : Driver) :
    (locIoctlOverlayFree i secIdx d).2 = d ∨
    ∃ s : Section, secIdx = s ∧ (d.clients i).sectionFlags s = true ∧
      (locIoctlOverlayFree i secIdx d).2 = giveBackSection i s d := by
  unfold locIoctlOverlayFree
  split
  next h =>
    simp only
    split
    next hheld => exact Or.inr ⟨⟨secIdx, h⟩, rfl, hheld, rfl⟩
    next => exact Or.inl rfl
  next => exact Or.inl rfl

theorem ioctlOverlayRef_cases (i : Slot) (secIdx : ℕ) (d : Driver) :
    (ioctlOverlayRef i secIdx d).2 = d ∨
    ∃ s : Section, secIdx = s ∧
      (ioctlOverlayRef i secIdx d).2 = refSection i s d := by
  unfold ioctlOverlayRef
  split
  next h => exact Or.inr ⟨⟨secIdx, h⟩, rfl, rfl⟩
  next => exact Or.inl rfl

/-- What a command does to the state of the DSP. -/
inductive PowerStep (i : Slot) (d : Driver) : IoctlCmd → DspC64 → Prop
  | keep {cmd : IoctlCmd} : PowerStep i d cmd d.dsp
  | pwrOnRst {o : PowerOutcome} :
      PowerStep i d (.pwrOnRst o) (dspPoweronAndReset o d.dsp).2
  | start {o : PowerOutcome} {entryPoint : ℕ} :
      PowerStep i d (.start o entryPoint) (dspStart o entryPoint d.dsp).2
  | pwrOff {o : PowerOutcome} : d.powerMask.erase i = ∅ →
      PowerStep i d (.pwrOff o true) (dspPoweroff o d.dsp).2
  | resume {o : PowerOutcome} :
      PowerStep i d (.resume o) (dspResume o d.dsp).2

/-- The arguments of a message stay in the registers. -/
theorem PowerStep.keepsMessage {i : Slot} {d : Driver} {cmd : IoctlCmd}
    {p : DspC64} (h : PowerStep i d cmd p) : d.dsp.KeepsMessage p := by
  cases h with
  | keep => exact DspC64.keepsMessage_of_regs rfl
  | pwrOnRst => exact dspPoweronAndReset_keepsMessage _ _
  | start => exact dspStart_keepsMessage _ _ _
  | pwrOff _ => exact DspC64.keepsMessage_of_regs (dspPoweroff_regs _ _)
  | resume => exact dspResume_keepsMessage _ _

/-- Effect of a control command of client `i`. -/
inductive IoctlEffect (i : Slot) (d : Driver) : IoctlCmd → Driver → Prop
  | power {cmd : IoctlCmd} {powerMask : Finset Slot} {p : DspC64} :
      PowerStep i d cmd p →
      IoctlEffect i d cmd { d.setDsp p with powerMask }
  | reserve {area : UserBuf ℕ} {copyBack : Bool} {s : Section} :
      d.sectionFlags s = false →
      IoctlEffect i d (.overlayAlloc area copyBack) (reserveSection i s d)
  | giveBack {s : Section} : (d.clients i).sectionFlags s = true →
      IoctlEffect i d (.overlayFree s) (giveBackSection i s d)
  | ref {s : Section} : IoctlEffect i d (.overlayRef s) (refSection i s d)

theorem IoctlEffect.same (i : Slot) (d : Driver) (cmd : IoctlCmd) :
    IoctlEffect i d cmd d :=
  IoctlEffect.power PowerStep.keep

theorem ioctlClient_effect (i : Slot) (cmd : IoctlCmd) (d : Driver) :
    IoctlEffect i d cmd (ioctlClient i cmd d).2 := by
  cases cmd with
  | pwrOnRst o =>
      unfold ioctlClient ioctlPwrOnRst
      simp only
      split
      · exact IoctlEffect.power PowerStep.pwrOnRst
      · exact IoctlEffect.same i d _
  | start o entryPoint =>
      unfold ioctlClient ioctlStart
      simp only
      split
      · exact IoctlEffect.power PowerStep.start
      · exact IoctlEffect.same i d _
  | pwrOff o pwroff =>
      unfold ioctlClient ioctlPwrOff
      simp only
      split
      next hmask =>
        cases pwroff with
        | true => exact IoctlEffect.power (PowerStep.pwrOff hmask)
        | false => exact IoctlEffect.power PowerStep.keep
      next => exact IoctlEffect.power PowerStep.keep
  | resume o => exact IoctlEffect.power PowerStep.resume
  | overlayAlloc area copyBack =>
      have heq : (ioctlClient i (.overlayAlloc area copyBack) d).2 =
          (locIoctlOverlayAlloc i area copyBack d).2 := rfl
      rw [heq]
      rcases locIoctlOverlayAlloc_cases i area copyBack d with h | ⟨s, hs, h⟩
      · rw [h]
        exact IoctlEffect.same i d _
      · rw [h]
        exact IoctlEffect.reserve hs
  | overlayFree secIdx =>
      have heq : (ioctlClient i (.overlayFree secIdx) d).2 =
          (locIoctlOverlayFree i secIdx d).2 := rfl
      rw [heq]
      rcases locIoctlOverlayFree_cases i secIdx d with h | ⟨s, rfl, hs, h⟩
      · rw [h]
        exact IoctlEffect.same i d _
      · rw [h]
        exact IoctlEffect.giveBack hs
  | overlayRef secIdx =>
      have heq : (ioctlClient i (.overlayRef secIdx) d).2 =
          (ioctlOverlayRef i secIdx d).2 := rfl
      rw [heq]
      rcases ioctlOverlayRef_cases i secIdx d with h | ⟨s, rfl, h⟩
      · rw [h]
        exact IoctlEffect.same i d _
      · rw [h]
        exact IoctlEffect.ref

theorem fopsUnlockedIoctl_cases (filep : ℕ) (cmd : IoctlCmd) (d : Driver) :
    (fopsUnlockedIoctl filep cmd d).2 = d ∨
    ∃ i, d.findClientByFilep filep = some i ∧
      IoctlEffect i d cmd (fopsUnlockedIoctl filep cmd d).2 := by
  unfold fopsUnlockedIoctl
  split
  next i hi => exact Or.inr ⟨i, hi, ioctlClient_effect i cmd d⟩
  next => exact Or.inl rfl

theorem IoctlEffect.undisturbed {i : Slot} {d d' : Driver} {cmd : IoctlCmd}
    (h : IoctlEffect i d cmd d') : Undisturbed d d' := by
  cases h with
  | power hpower =>
      exact ⟨fun _ => rfl, fun _ => rfl, fun _ => rfl, rfl, rfl, rfl, rfl,
        hpower.keepsMessage.rets, rfl, rfl, rfl, rfl, rfl⟩
  | reserve _ =>
      exact undisturbed_of_eq (fun _ => rfl) (fun _ => rfl) fun _ => rfl
  | giveBack _ =>
      exact undisturbed_of_eq (fun _ => rfl) (fun _ => rfl) fun _ => rfl
  | @ref s =>
      have heq : refSection i s d =
          { d.setClient i fun c => { c with
              sectionFlags := Function.update c.sectionFlags s true } with
            sectionFlags := d.sectionFlags } := rfl
      rw [heq]
      exact undisturbed_of_eq (fun _ => rfl) (fun _ => rfl) fun _ => rfl

end C64Tools.Kmod
