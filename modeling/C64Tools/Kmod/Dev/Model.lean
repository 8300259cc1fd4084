import C64Tools.Kmod.Power
import Mathlib.Algebra.GroupWithZero.Nat
import Mathlib.Data.Fintype.Pi
import Mathlib.Data.Finset.Basic
import Mathlib.Logic.Function.Basic
import Mathlib.Tactic.Simps.Basic

/-!
# The device driver

The client interface of `kmod/dev.c` and the GPP side of the mailbox,
`kmod/mlb.c`, from the moment the device accepts clients.

The interrupt handler runs between any two of the steps in which the file
operations touch what it touches.  A file operation that holds `mtx_clients`
therefore proceeds in steps, and `Crit` says where it stands.  Other processes
wait for the mutex, except that `fops__read` and `OVERLAY_REF` take none.

The shared memory table and the SRAM heaps of a client are not part of this
state.
-/

namespace C64Tools.Kmod

/-- `C64_DEV_MINOR`. -/
def c64DevMinor : ℕ := 64

/-- `C64_DEV_MAX_CLIENTS`. -/
abbrev c64DevMaxClients : ℕ := 16

/-- An entry of the `clients` array. -/
abbrev Slot := Fin c64DevMaxClients

instance : NeZero c64DevMaxClients := ⟨by decide⟩

/-- `MLB_COM_NUM_SECTION_INDICES`. -/
abbrev mlbComNumSectionIndices : ℕ := 5

/-- An overlay section. -/
abbrev Section := Fin mlbComNumSectionIndices

instance : NeZero mlbComNumSectionIndices := ⟨by decide⟩

/-- `MLB_COM_SECTIONIDX_AREA2_1` to `MLB_COM_SECTIONIDX_AREA2_4`. -/
def area2Sections : List Section := [0, 1, 2, 3]

/-- `MLB_COM_SECTIONIDX_AREA3`. -/
def mlbComSectionidxArea3 : Section := 4

/-- The `overlay_sections` table. -/
def overlaySections : Section → DspMemRegion
  | 0 => ⟨0x86200000, 0, 0x00040000⟩
  | 1 => ⟨0x86240000, 0, 0x00040000⟩
  | 2 => ⟨0x86280000, 0, 0x00040000⟩
  | 3 => ⟨0x862c0000, 0, 0x00040000⟩
  | 4 => ⟨0x86300000, 0, 0x00100000⟩

/-- `dsp_msg_t`: component and command id, and two arguments or return
values. -/
structure DspMsg where
  comp : ℕ
  data0 : ℕ
  data1 : ℕ
  deriving DecidableEq, Repr

/-- `dev_client_state_t`. -/
inductive ClientState where
  | unused
  | idle
  | reqQueued
  | replyPending
  | replyAvail
  deriving DecidableEq, Repr

/-- `dev_client_t`, less its memory tables and its wait queue. -/
structure DevClient where
  state : ClientState
  filep : Option ℕ
  dspMsg : DspMsg
  sectionFlags : Section → Bool
  sectionMem : Section → DspMemRegion
  dspErrno : ℕ

/-- An entry of the `clients` array after `loc_init_clients`. -/
def DevClient.initial : DevClient where
  state := .unused
  filep := none
  dspMsg := ⟨0, 0, 0⟩
  sectionFlags := fun _ => false
  sectionMem := fun _ => DspMemRegion.zero
  dspErrno := 0

/-- On whose behalf `mlb_send_to_dsp` is called: a client's message, the word
of a test message, or the emergency unload of a section of a dying client. -/
inductive Sender where
  | client (i : Slot)
  | test (filep val : ℕ)
  | emergency (i : Slot) (s : Section)
  deriving DecidableEq, Repr

/-- The client passed to `mlb_send_to_dsp` is `NULL`. -/
def Sender.isTest : Sender → Bool
  | .test _ _ => true
  | _ => false

/-- Next step of `mlb_send_to_dsp`: read the ready flag, clear it, reset the
mailbox, or write the message. -/
inductive SendStep where
  | check
  | clear
  | reset
  | kick
  deriving DecidableEq, Repr

/-- Where the process that holds `mtx_clients` stands. -/
inductive Crit where
  /-- The mutex is free. -/
  | idle
  /-- `fops__write` has copied the message. -/
  | writeCopied (i : Slot)
  /-- It has set `current_client`. -/
  | writeCurrent (i : Slot)
  /-- Inside `mlb_send_to_dsp`. -/
  | sending (who : Sender) (next : SendStep)
  /-- `mlb_send_to_dsp` has refused the message. -/
  | writeRefused (i : Slot)
  /-- `current_client` has been reset. -/
  | writeReset (i : Slot)
  /-- `fops__write` has copied a test message. -/
  | testCopied (filep val : ℕ)
  /-- `fops__release` has marked the slot unused. -/
  | relCurrent (i : Slot)
  /-- It is ending the fastcall sequence of the current client. -/
  | relFastcall (i : Slot)
  /-- It frees the memory of the client. -/
  | relFree (i : Slot)
  /-- It is about to look at section number `k`. -/
  | relSection (i : Slot) (k : ℕ)
  /-- It polls the ready flag, to send an emergency unload. -/
  | relWait (i : Slot) (s : Section)
  /-- The emergency unload was sent. -/
  | relMark (i : Slot) (s : Section)
  /-- All sections were looked at. -/
  | relReset (i : Slot)
  /-- It polls the ready flag, to power off the DSP. -/
  | relSync
  deriving DecidableEq, Repr

/-- A message that was written to the DSP, and the number of resets of the
DSP before. -/
structure Request where
  id : ℕ
  sender : Sender
  msg : DspMsg
  boot : ℕ
  deriving DecidableEq, Repr

/-- What the clients and the DSP observe. -/
inductive Obs where
  | opened (i : Slot)
  | wrote (filep : Option ℕ) (ret : Except Errno ℕ)
  | accepted (i : Slot) (id : ℕ) (msg : DspMsg)
  | answered (id ret0 ret1 : ℕ)
  | delivered (i : Slot) (msg : DspMsg)

/-- The module variables, the registers shared with the DSP, and the observed
history, latest first. -/
structure Driver where
  clients : Slot → DevClient
  numOpen : ℤ
  sectionFlags : Section → Bool
  powerMask : Finset Slot
  currentClient : Option Slot
  ready : Bool
  msgSerial : ℕ
  power : Power
  crit : Crit
  /-- Calls of `fops__read` that have found a reply to copy. -/
  reading : Slot → ℕ
  /-- The registers shared with the DSP. -/
  regs : IpcRegs
  /-- The mailbox interrupt is enabled on the GPP side. -/
  irqEnable : Bool
  /-- Requests whose answer waits in the mailbox. -/
  inbox : List Request
  /-- Requests that the DSP has not answered. -/
  unanswered : List Request
  nextId : ℕ
  log : List Obs

namespace Driver

/-- The driver when the module has been loaded. -/
def initial (ram : DspMemRegion) : Driver where
  clients := fun _ => DevClient.initial
  numOpen := 0
  sectionFlags := fun _ => false
  powerMask := ∅
  currentClient := none
  ready := true
  msgSerial := 0
  power := Power.initial ram
  crit := .idle
  reading := fun _ => 0
  regs := IpcRegs.zero
  irqEnable := true
  inbox := []
  unanswered := []
  nextId := 0
  log := []

/-- Update one entry of the `clients` array. -/
@[simps numOpen sectionFlags powerMask currentClient ready msgSerial power crit
  reading regs irqEnable inbox unanswered nextId log]
def setClient (d : Driver) (i : Slot) (f : DevClient → DevClient) : Driver :=
  { d with clients := Function.update d.clients i (f (d.clients i)) }

def setState (d : Driver) (i : Slot) (st : ClientState) : Driver :=
  d.setClient i fun c => { c with state := st }

/-- What the power functions work on. -/
def dsp (d : Driver) : DspC64 := ⟨d.power, d.regs⟩

@[simps clients numOpen sectionFlags powerMask currentClient ready msgSerial
  power crit reading regs irqEnable inbox unanswered nextId log]
def setDsp (d : Driver) (p : DspC64) : Driver :=
  { d with power := p.toPower, regs := p.regs }

def observe (d : Driver) (o : Obs) : Driver := { d with log := o :: d.log }

/-- A call of `fops__write` returns. -/
def wrote (d : Driver) (filep : Option ℕ) (ret : Except Errno ℕ) : Driver :=
  { d with crit := .idle, log := .wrote filep ret :: d.log }

/-- `loc_find_client_by_filep`. -/
def findClientByFilep (d : Driver) (filep : ℕ) : Option Slot :=
  (List.finRange c64DevMaxClients).find? fun i =>
    (d.clients i).filep = some filep ∧ (d.clients i).state ≠ .unused

/-- The search of `fops__open` for a free entry. -/
def findUnused (d : Driver) : Option Slot :=
  (List.finRange c64DevMaxClients).find? fun i =>
    (d.clients i).state = .unused

end Driver

/-- A buffer in user space: its content, or what a failing `copy_from_user`
leaves behind. -/
inductive UserBuf (α : Type) where
  | readable (a : α)
  | fault (left : α)
  deriving DecidableEq, Repr

/-! ## `fops__open` -/

/-- Truth value of `atomic_inc_and_test` for a counter that now has value
`n`. -/
def atomicIncAndTest (n : ℤ) : ℕ := if n = 0 then 1 else 0

def fopsOpen (minor filep : ℕ) (d : Driver) : Ret × Driver :=
  if minor = c64DevMinor then
    let d := { d with numOpen := d.numOpen + 1 }
    if atomicIncAndTest d.numOpen < c64DevMaxClients then
      match d.findClientByFilep filep with
      | none =>
          match d.findUnused with
          | some i =>
              (.ok (), (d.setClient i fun c =>
                { c with filep := some filep, state := .idle }).observe
                  (.opened i))
          | none => (.error .EMFILE, d)
      | some _ => (.error Errno.EIO, d)
    else (.error .EMFILE, { d with numOpen := d.numOpen - 1 })
  else (.error .ENODEV, d)

/-! ## `fops__write` -/

/-- The buffer passed to `fops__write`, by its size. -/
inductive WriteArg where
  | msg (buf : UserBuf DspMsg)
  | testMsg (buf : UserBuf ℕ)
  | other (count : ℕ)
  deriving DecidableEq, Repr

/-- `fops__write` up to the copying of the message. -/
def fopsWrite (filep : ℕ) (arg : WriteArg) (d : Driver) : Driver :=
  match arg with
  | .msg buf =>
      match d.currentClient with
      | none =>
          match d.findClientByFilep filep with
          | some i =>
              match buf with
              | .readable m =>
                  { d.setClient i fun c => { c with dspMsg := m } with
                    crit := .writeCopied i }
              | .fault left =>
                  (d.setClient i fun c => { c with dspMsg := left }).wrote
                    (some filep) (.error .EFAULT)
          | none => d.wrote (some filep) (.error .EBADF)
      | some _ => d.wrote (some filep) (.error .EAGAIN)
  | .testMsg buf =>
      match buf with
      | .readable val => { d with crit := .testCopied filep val }
      | .fault _ => d.wrote (some filep) (.error .EFAULT)
  | .other _ => d.wrote (some filep) (.error .EINVAL)

/-! ## `mlb_send_to_dsp` -/

/-- `DSP_MSG_INIT_CORE(&msg, CORE, CMD_COM_EMERGENCY_UNLOAD, secIdx, 0)`. -/
def emergencyUnload (s : Section) : DspMsg := ⟨3 <<< 16, s, 0⟩

/-- The message in the registers. -/
def DspMsg.ofRegs (r : IpcRegs) : DspMsg := ⟨r.comp, r.arg1, r.arg2⟩

/-- Content of the message registers after a message was written.  A test
message does not touch them. -/
def writtenMsg (who : Sender) (d : Driver) : DspMsg :=
  match who with
  | .client i => (d.clients i).dspMsg
  | .test _ _ => DspMsg.ofRegs d.regs
  | .emergency _ s => emergencyUnload s

/-- `mlb_send_to_dsp` has sent the message. -/
def sendSucceeded (who : Sender) (d : Driver) : Driver :=
  match who with
  | .client i => d.wrote (d.clients i).filep (.ok 12)
  | .test filep _ => d.wrote (some filep) (.ok 4)
  | .emergency i s => { d with crit := .relMark i s }

/-- `mlb_send_to_dsp` returns `-EAGAIN`.  `fops__release` ignores this. -/
def sendFailed (who : Sender) (d : Driver) : Driver :=
  match who with
  | .client i => { d with crit := .writeRefused i }
  | .test filep _ => d.wrote (some filep) (.error .EAGAIN)
  | .emergency i s => { d with crit := .relMark i s }

/-- The serial number and the words of the message are written, here in one step;
`Dispatch.mlbSendToDsp` has the single writes. -/
def publish (who : Sender) (d : Driver) : Driver :=
  let msg := writtenMsg who d
  let d := { d with
    regs := { d.regs with
      msgSerial := d.msgSerial
      comp := msg.comp
      arg1 := msg.data0
      arg2 := msg.data1 }
    unanswered := d.unanswered ++ [⟨d.nextId, who, msg, d.power.resets⟩]
    nextId := d.nextId + 1 }
  match who with
  | .client i => d.observe (.accepted i (d.nextId - 1) msg)
  | _ => d

/-- One step of `mlb_send_to_dsp`. -/
def mlbSendToDsp (who : Sender) (next : SendStep) (fifoFull : Bool)
    (d : Driver) : Driver :=
  match next with
  | .check =>
      if d.ready || who.isTest then
        { d with crit := .sending who .clear }
      else sendFailed who d
  | .clear => { d with ready := false, crit := .sending who .reset }
  | .reset =>
      -- the soft reset empties the mailbox
      { d with
        msgSerial := u32 (d.msgSerial + 1)
        inbox := []
        irqEnable := true
        crit := .sending who .kick }
  | .kick =>
      if fifoFull then sendFailed who { d with ready := true }
      else sendSucceeded who (publish who d)

/-! ## `fops__release` -/

/-- `fops__release` up to the test for the current client. -/
def fopsRelease (filep : ℕ) (d : Driver) : Driver :=
  let d := { d with numOpen := d.numOpen - 1 }
  match d.findClientByFilep filep with
  | some i =>
      { d.setState i .unused with
        powerMask := d.powerMask.erase i
        crit := .relCurrent i }
  | none => d

/-! ## `fops__read` -/

/-- `fops__read` of `count` bytes, up to the copying of the reply. -/
def fopsRead (filep count : ℕ) (d : Driver) : Driver :=
  if count = 12 then
    match d.findClientByFilep filep with
    | some i =>
        if (d.clients i).state = .replyAvail then
          { d with
            reading := Function.update d.reading i (d.reading i + 1) }
        else d
    | none => d
  else d

/-- The copying of the reply, which may fail. -/
def fopsReadCopy (i : Slot) (copied : Bool) (d : Driver) : Driver :=
  let d := { d with
    reading := Function.update d.reading i (d.reading i - 1) }
  if copied then
    (d.setState i .idle).observe (.delivered i (d.clients i).dspMsg)
  else d

/-! ## `fops__unlocked_ioctl` -/

def locIoctlOverlayAlloc (i : Slot) (area : UserBuf ℕ) (copyBack : Bool)
    (d : Driver) : Except Errno (Section × DspMemRegion) × Driver :=
  let take (s : Section) (d : Driver) :=
    let d := { d.setClient i fun c => { c with
        sectionFlags := Function.update c.sectionFlags s true
        sectionMem := Function.update c.sectionMem s (overlaySections s) } with
      sectionFlags := Function.update d.sectionFlags s true }
    if copyBack then (.ok (s, overlaySections s), d) else (.error .EFAULT, d)
  match area with
  | .readable 2 =>
      match area2Sections.find? fun s => !d.sectionFlags s with
      | some s => take s d
      | none => (.error .ENOMEM, d)
  | .readable 3 =>
      if !d.sectionFlags mlbComSectionidxArea3 then
        take mlbComSectionidxArea3 d
      else (.error .ENOMEM, d)
  | .readable _ => (.error .EINVAL, d)
  | .fault _ => (.error .EFAULT, d)

def locIoctlOverlayFree (i : Slot) (secIdx : ℕ) (d : Driver) : Ret × Driver :=
  if h : secIdx < mlbComNumSectionIndices then
    let s : Section := ⟨secIdx, h⟩
    if (d.clients i).sectionFlags s then
      (.ok (), { d.setClient i fun c => { c with
          sectionFlags := Function.update c.sectionFlags s false
          sectionMem :=
            Function.update c.sectionMem s DspMemRegion.zero } with
        sectionFlags := Function.update d.sectionFlags s false })
    else (.error .EPERM, d)
  else (.error .EINVAL, d)

/-- The `OVERLAY_REF` case. -/
def ioctlOverlayRef (i : Slot) (secIdx : ℕ) (d : Driver) : Ret × Driver :=
  if h : secIdx < mlbComNumSectionIndices then
    (.ok (), d.setClient i fun c => { c with
      sectionFlags := Function.update c.sectionFlags ⟨secIdx, h⟩ true })
  else (.error .EINVAL, d)

/-- The `PWR_ON_RST` case. -/
def ioctlPwrOnRst (o : PowerOutcome) (d : Driver) : Ret × Driver :=
  if d.numOpen = 1 then
    let (ret, p) := dspPoweronAndReset o d.dsp
    (ret, d.setDsp p)
  else (.error .EBUSY, d)

/-- The `START` case. -/
def ioctlStart (o : PowerOutcome) (entryPoint : ℕ) (d : Driver) :
    Ret × Driver :=
  if d.numOpen = 1 then
    let (ret, p) := dspStart o entryPoint d.dsp
    (ret, d.setDsp p)
  else (.error .EBUSY, d)

/-- The `PWR_OFF` case; `pwroff` is the module parameter `c64_pwroff`. -/
def ioctlPwrOff (i : Slot) (o : PowerOutcome) (pwroff : Bool) (d : Driver) :
    Ret × Driver :=
  let d := { d with powerMask := d.powerMask.erase i }
  if d.powerMask = ∅ then
    if pwroff then
      let (ret, p) := dspPoweroff o d.dsp
      (ret, d.setDsp p)
    else (.ok (), d)
  else (.error .EBUSY, d)

/-- The `RESUME` case. -/
def ioctlResume (i : Slot) (o : PowerOutcome) (d : Driver) : Ret × Driver :=
  let d := { d with powerMask := insert i d.powerMask }
  let (ret, p) := dspResume o d.dsp
  (ret, d.setDsp p)

/-- Commands with their arguments and the outcomes they depend on. -/
inductive IoctlCmd where
  | pwrOnRst (o : PowerOutcome)
  | start (o : PowerOutcome) (entryPoint : ℕ)
  | pwrOff (o : PowerOutcome) (pwroff : Bool)
  | resume (o : PowerOutcome)
  | overlayAlloc (area : UserBuf ℕ) (copyBack : Bool)
  | overlayFree (secIdx : ℕ)
  | overlayRef (secIdx : ℕ)

/-- The command takes `mtx_clients`. -/
def IoctlCmd.locks : IoctlCmd → Bool
  | .overlayRef _ => false
  | _ => true

def ioctlClient (i : Slot) (cmd : IoctlCmd) (d : Driver) : Ret × Driver :=
  match cmd with
  | .pwrOnRst o => ioctlPwrOnRst o d
  | .start o entryPoint => ioctlStart o entryPoint d
  | .pwrOff o pwroff => ioctlPwrOff i o pwroff d
  | .resume o => ioctlResume i o d
  | .overlayAlloc area copyBack =>
      let (ret, d) := locIoctlOverlayAlloc i area copyBack d
      (ret.map fun _ => (), d)
  | .overlayFree secIdx => locIoctlOverlayFree i secIdx d
  | .overlayRef secIdx => ioctlOverlayRef i secIdx d

def fopsUnlockedIoctl (filep : ℕ) (cmd : IoctlCmd) (d : Driver) :
    Ret × Driver :=
  match d.findClientByFilep filep with
  | some i => ioctlClient i cmd d
  | none => (.error .EBADF, d)

/-! ## The interrupt handler -/

/-- `dev_handle_reply`. -/
def devHandleReply (ret1 ret2 : ℕ) (d : Driver) : Driver :=
  match d.currentClient with
  | some i =>
      if (d.clients i).state = .replyPending then
        { d.setClient i fun c => { c with
            dspMsg := { c.dspMsg with data0 := ret1, data1 := ret2 }
            dspErrno := d.regs.errno
            state := .replyAvail } with
          currentClient := none }
      else d
  | none => d

/-- `irq_handler__mlb`. -/
def irqHandlerMlb (d : Driver) : Driver :=
  let d := { d with inbox := [], irqEnable := false }
  let d := devHandleReply d.regs.ret1 d.regs.ret2 d
  { d with ready := true }

end C64Tools.Kmod
