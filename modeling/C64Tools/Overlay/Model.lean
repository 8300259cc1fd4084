import C64Tools.Overlay.Components
import C64Tools.Library.Transition

/-!
# Overlay sections between the library, the driver and the DSP

Processes load components with `dsp_component_load`, close the device with
`dsp_close` or die.  The library keeps a table of the sections that its process
uses, the driver flags the sections that are allocated and by whom, and the DSP
keeps the table of components.  A fastcall sequence ties the DSP up, so that
other messages wait for its end; between the calls of a sequence, and outside
of one, the requests to the driver of different processes interleave.

Only the call that unregisters a section and the message of the driver may
fail to come through.  A call of `OVERLAY_REF` takes no mutex and always
succeeds; the other requests wait while `fops__release` holds `mtx_clients`.
-/

namespace C64Tools.Overlay

open Kmod (Section mlbComNumSectionIndices area2Sections mlbComSectionidxArea3
  overlaySections)
open Transition

/-- `overlay_t`: what the library has recorded about a section. -/
structure Entry where
  secIdx : Section
  mem : DspMemRegion
  compid : ℕ
  deriving DecidableEq, Repr

/-- A zeroed entry. -/
def Entry.zero : Entry := ⟨0, DspMemRegion.zero, 0⟩

/-- `C64_OVERLAY_AREAx`. -/
inductive Area where
  | area2
  | area3
  deriving DecidableEq, Repr

/-- Where a process is.  The last two positions are those of `fops__release`,
in which the driver cleans up after it. -/
inductive Pc where
  | closed
  | idle
  | find (name : ℕ)
  | ref (s : Section)
  | alloc
  | image (s : Section)
  | register (s : Section)
  | freeFailed (s : Section)
  | loadEnd
  | closeSection (i : ℕ)
  | unregister (i : Section)
  | unregisterEnd (i : Section)
  | free (i : Section)
  | release (k : ℕ)
  | mark (k : Section)
  deriving DecidableEq, Repr

/-- A process: its position, the flags of its client in the driver, and the
`overlays` table of the library. -/
structure Proc where
  pc : Pc
  flags : Section → Bool
  overlays : Section → Entry

/-- `sectionFlags` are the flags of the driver that all clients share.  `owner`
is the process whose fastcall sequence ties up the DSP, `unloading` the section
of an `EMERGENCY_UNLOAD` message that the DSP has not executed yet, and
`mtxClients` the process for which `fops__release` holds the mutex. -/
structure State where
  sectionFlags : Section → Bool
  procs : ℕ → Proc
  components : Table
  owner : Option ℕ
  unloading : Option Section
  mtxClients : Option ℕ

/-- The driver has been loaded and the DSP started. -/
def State.initial : State where
  sectionFlags _ := false
  procs _ := ⟨.closed, fun _ => false, fun _ => Entry.zero⟩
  components _ := Component.unused
  owner := none
  unloading := none
  mtxClients := none

/-- What comes of `OVERLAY_UNREGISTER`: it is executed and answered, executed
without an answer in time, or not executed. -/
inductive Fastcall where
  | done
  | unanswered
  | lost
  deriving DecidableEq, Repr

/-- Outcomes that a step of a process may depend on. -/
structure Outcome where
  area : Option Area
  loaded : Bool
  image : Image
  sent : Bool
  fastcall : Fastcall
  timedOut : Bool

/-- What happens next. -/
inductive Event where
  | openDev (p : ℕ)
  | load (p : ℕ) (name : ℕ)
  | close (p : ℕ)
  | die (p : ℕ)
  | proc (p : ℕ) (o : Outcome)
  | unload

namespace State

variable (s : State)

def setProc (p : ℕ) (f : Proc → Proc) : State :=
  { s with procs := Function.update s.procs p (f (s.procs p)) }

def goto (p : ℕ) (pc : Pc) : State :=
  s.setProc p fun pr => { pr with pc := pc }

def setEntry (p : ℕ) (i : Section) (e : Entry) : State :=
  s.setProc p fun pr => { pr with overlays := Function.update pr.overlays i e }

/-- The flag of a section for a client, and the one that all clients share. -/
def setFlags (p : ℕ) (x : Section) (val : Bool) : State :=
  { s.setProc p fun pr =>
      { pr with flags := Function.update pr.flags x val } with
    sectionFlags := Function.update s.sectionFlags x val }

section

variable {s} {p q : ℕ}

@[simp]
theorem setProc_self (f : Proc → Proc) :
    (s.setProc p f).procs p = f (s.procs p) :=
  Function.update_self ..

@[simp]
theorem setProc_ne (f : Proc → Proc) (h : q ≠ p) :
    (s.setProc p f).procs q = s.procs q :=
  Function.update_of_ne h ..

@[simp]
theorem goto_self (pc : Pc) :
    (s.goto p pc).procs p = { s.procs p with pc := pc } :=
  setProc_self _

@[simp]
theorem goto_ne (pc : Pc) (h : q ≠ p) :
    (s.goto p pc).procs q = s.procs q :=
  setProc_ne _ h

@[simp]
theorem setEntry_self (i : Section) (e : Entry) :
    (s.setEntry p i e).procs p = { s.procs p with
      overlays := Function.update (s.procs p).overlays i e } :=
  setProc_self _

@[simp]
theorem setEntry_ne (i : Section) (e : Entry) (h : q ≠ p) :
    (s.setEntry p i e).procs q = s.procs q :=
  setProc_ne _ h

theorem setEntry_same (s : State) (p : ℕ) (i : Section) :
    s.setEntry p i ((s.procs p).overlays i) = s := by
  unfold setEntry setProc
  dsimp only
  rw [Function.update_eq_self, Function.update_eq_self]

@[simp]
theorem setFlags_self (x : Section) (val : Bool) :
    (s.setFlags p x val).procs p = { s.procs p with
      flags := Function.update (s.procs p).flags x val } :=
  Function.update_self ..

@[simp]
theorem setFlags_ne (x : Section) (val : Bool) (h : q ≠ p) :
    (s.setFlags p x val).procs q = s.procs q :=
  Function.update_of_ne h ..

end

/-- No process uses the DSP. -/
def DspFree : Prop := s.owner = none ∧ s.unloading = none

instance : Decidable s.DspFree := inferInstanceAs (Decidable (_ ∧ _))

/-- The section that `loc_ioctl_overlay_alloc` reserves. -/
def overlayAlloc : Area → Option Section
  | .area2 => area2Sections.find? fun x => !s.sectionFlags x
  | .area3 =>
      if s.sectionFlags mlbComSectionidxArea3 then none
      else some mlbComSectionidxArea3

/-- `loc_ioctl_overlay_free`. -/
def overlayFree (p : ℕ) (x : Section) : State :=
  if (s.procs p).flags x then s.setFlags p x false else s

end State

/-- The next step of a process. -/
def procStep (core : ℕ → Option ℕ) (p : ℕ) (o : Outcome) (s : State) :
    Option State :=
  let pr := s.procs p
  match pr.pc with
  | .closed | .idle => none
  -- `dsp_component_load`
  | .find name =>
      match locComponentFindByName core name s.components with
      | some (.core id) =>
          some ((s.setEntry p 0 ⟨0, overlaySections 0, id⟩).goto p (.ref 0))
      | some (.overlay i) =>
          let x := (s.components i).overlaySectionIdx
          some (({ s with components := incRef i s.components }.setEntry p x
            ⟨x, overlaySections x, (s.components i).componentId⟩).goto p
              (.ref x))
      | none => some (s.goto p .alloc)
  | .ref x =>
      some (s.setProc p fun pr =>
        { pr with flags := Function.update pr.flags x true, pc := .loadEnd })
  | .alloc =>
      match o.area with
      | none => some (s.goto p .loadEnd)
      | some area =>
          if s.mtxClients = none then
            match s.overlayAlloc area with
            | none => some (s.goto p .loadEnd)
            | some x =>
                some (((s.setFlags p x true).setEntry p x
                  ⟨x, overlaySections x, (pr.overlays x).compid⟩).goto p
                    (.image x))
          else none
  | .image x => some (s.goto p (if o.loaded then .register x else .freeFailed x))
  | .register x =>
      match locMlbOverlayRegister o.image x s.components with
      | (some id, t) =>
          some (({ s with components := t }.setEntry p x
            { pr.overlays x with compid := id }).goto p .loadEnd)
      | (none, t) => some ({ s with components := t }.goto p (.freeFailed x))
  | .freeFailed x =>
      if s.mtxClients = none then
        some (((s.overlayFree p x).setEntry p x
          { pr.overlays x with mem := DspMemRegion.zero }).goto p .loadEnd)
      else none
  | .loadEnd => some ({ s with owner := none }.goto p .idle)
  -- `loc_overlays_free`
  | .closeSection i =>
      if h : i < mlbComNumSectionIndices then
        if (pr.overlays ⟨i, h⟩).compid ≠ 0 then
          if o.sent then
            if s.DspFree then
              some ({ s with owner := some p }.goto p (.unregister ⟨i, h⟩))
            else none
          else some (s.goto p (.free ⟨i, h⟩))
        else some (s.goto p (.free ⟨i, h⟩))
      else if s.mtxClients = none then
        some ({ s with mtxClients := some p }.goto p (.release 0))
      else none
  | .unregister i =>
      let e := pr.overlays i
      match o.fastcall with
      | .done =>
          some (({ s with
            components := locMlbOverlayUnregister e.secIdx s.components
            }.setEntry p i { e with compid := 0 }).goto p (.unregisterEnd i))
      | .unanswered =>
          some ({ s with
            components := locMlbOverlayUnregister e.secIdx s.components
            }.goto p (.unregisterEnd i))
      | .lost => some (s.goto p (.unregisterEnd i))
  | .unregisterEnd i => some ({ s with owner := none }.goto p (.free i))
  | .free i =>
      let e := pr.overlays i
      if e.mem.physAddr ≠ 0 then
        if s.mtxClients = none then
          some (((s.overlayFree p e.secIdx).setEntry p i
            { e with
              secIdx := if pr.flags e.secIdx then 0 else e.secIdx
              mem.physAddr := 0 }).goto p (.closeSection (i + 1)))
        else none
      else some (s.goto p (.closeSection (i + 1)))
  -- `fops__release`
  | .release k =>
      if h : k < mlbComNumSectionIndices then
        if pr.flags ⟨k, h⟩ then
          if o.timedOut then some (s.goto p (.release (k + 1)))
          else if s.DspFree then
            some ({ s with
              unloading := if o.sent then some ⟨k, h⟩ else none
              }.goto p (.mark ⟨k, h⟩))
          else none
        else some (s.goto p (.release (k + 1)))
      else
        some ({ s with mtxClients := none }.setProc p fun pr =>
          { pr with pc := .closed, flags := fun _ => false })
  | .mark k =>
      some ({ s with sectionFlags := Function.update s.sectionFlags k false
        }.goto p (.release (k + 1)))

/-- The process is known to the driver, and not being cleaned up after. -/
def Pc.alive : Pc → Bool
  | .closed | .release _ | .mark _ => false
  | _ => true

/-- The next state, unless the step has to wait.  A process may die at any
point; `fops__release` ends the fastcall sequence that it was in. -/
def overlayNext (core : ℕ → Option ℕ) (s : State) : Event → Option State
  | .openDev p =>
      if (s.procs p).pc = .closed then
        some (s.setProc p fun pr =>
          { pr with pc := .idle, overlays := fun _ => Entry.zero })
      else none
  | .load p name =>
      if (s.procs p).pc = .idle ∧ s.DspFree then
        some ({ s with owner := some p }.goto p (.find name))
      else none
  | .close p =>
      if (s.procs p).pc = .idle then some (s.goto p (.closeSection 0)) else none
  | .die p =>
      if (s.procs p).pc.alive ∧ s.mtxClients = none then
        some ({ s with
          owner := if s.owner = some p then none else s.owner
          mtxClients := some p }.goto p (.release 0))
      else none
  | .proc p o => procStep core p o s
  | .unload =>
      match s.unloading with
      | some x =>
          some { s with
            components := locMlbOverlayUnregister x s.components
            unloading := none }
      | none => none

/-- The processes, the driver and the DSP.  `core` gives the ids of the
components of the core image by their names. -/
def overlayMachine (core : ℕ → Option ℕ) : Machine State Event :=
  Machine.ofNext State.initial (overlayNext core)

end C64Tools.Overlay
