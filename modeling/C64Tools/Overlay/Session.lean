import C64Tools.Overlay.Model

/-!
# The components of one process

`dsp_component_load` and `loc_overlays_free` as one process calls them while
no other one uses the DSP.  Here the calls return values and leave mappings
behind: the library maps the sections that it loads, and unmaps them again
when the device is closed.
-/

namespace C64Tools.Overlay

open Kmod (Section mlbComNumSectionIndices overlaySections)
open Transition

/-- The state, the `virt_addr` fields of the library's `overlays` table, and
what is mapped at an address. -/
structure Session where
  state : State
  virtAddr : Section → ℕ
  mapped : ℕ → Option Section

/-- Outcomes of a load: whether the sequence of fastcalls was begun, which
overlay image there is, where it would be mapped, whether its code could be
loaded, and what it registers. -/
structure LoadOutcome where
  begun : Bool
  area : Option Area
  mmapAddr : ℕ
  loaded : Bool
  image : Image

/-- Outcomes of closing: whether the message that begins the fastcall for a
section was sent, and what came of the fastcall. -/
structure CloseOutcome where
  sent : Section → Bool
  fastcall : Section → Fastcall

/-- Calls which the library makes to give something back. -/
inductive Call where
  | munmap (addr : ℕ)
  | overlayUnregister (secIdx : Section)
  | overlayFree (secIdx : Section)
  deriving DecidableEq, Repr

/-- `OVERLAY_REF`. -/
def State.overlayRef (s : State) (p : ℕ) (x : Section) : State :=
  s.setProc p fun pr => { pr with flags := Function.update pr.flags x true }

theorem State.overlays_overlayRef (s : State) (p : ℕ) (x : Section) :
    ((s.overlayRef p x).procs p).overlays = (s.procs p).overlays := by
  rw [overlayRef, setProc_self]

theorem State.overlays_setFlags (s : State) (p : ℕ) (x : Section)
    (val : Bool) :
    ((s.setFlags p x val).procs p).overlays = (s.procs p).overlays := by
  rw [setFlags_self]

theorem State.overlays_overlayFree (s : State) (p : ℕ) (x : Section) :
    ((s.overlayFree p x).procs p).overlays = (s.procs p).overlays := by
  unfold overlayFree
  split_ifs
  · exact s.overlays_setFlags p x false
  · rfl

theorem State.components_overlayFree (s : State) (p : ℕ) (x : Section) :
    (s.overlayFree p x).components = s.components := by
  unfold overlayFree
  split_ifs <;> rfl

namespace Session

/-- The process has opened the device. -/
def opened (p : ℕ) (s : State) : Session where
  state := s.setProc p fun _ => ⟨.idle, fun _ => false, fun _ => Entry.zero⟩
  virtAddr _ := 0
  mapped _ := none

/-- What the library of the process has recorded about a section. -/
def entry (p : ℕ) (c : Session) (x : Section) : Entry :=
  (c.state.procs p).overlays x

/-- The component table of the DSP. -/
def components (c : Session) : Table := c.state.components

def setComponents (t : Table) (c : Session) : Session :=
  { c with state := { c.state with components := t } }

def setEntry (p : ℕ) (x : Section) (e : Entry) (c : Session) : Session :=
  { c with state := c.state.setEntry p x e }

def setVirtAddr (x : Section) (addr : ℕ) (c : Session) : Session :=
  { c with virtAddr := Function.update c.virtAddr x addr }

def mmap (addr : ℕ) (x : Section) (c : Session) : Session :=
  { c with mapped := Function.update c.mapped addr (some x) }

def munmap (addr : ℕ) (c : Session) : Session :=
  { c with mapped := Function.update c.mapped addr none }

@[simp]
theorem entry_setEntry (p : ℕ) (x : Section) (e : Entry) (c : Session) :
    (c.setEntry p x e).entry p = Function.update (c.entry p) x e := by
  unfold entry setEntry
  rw [State.setEntry_self]

@[simp]
theorem entry_setComponents (p : ℕ) (t : Table) (c : Session) :
    (c.setComponents t).entry p = c.entry p := rfl

@[simp]
theorem entry_setVirtAddr (p : ℕ) (x : Section) (addr : ℕ) (c : Session) :
    (c.setVirtAddr x addr).entry p = c.entry p := rfl

@[simp]
theorem entry_mmap (p addr : ℕ) (x : Section) (c : Session) :
    (c.mmap addr x).entry p = c.entry p := rfl

end Session

/-! ## `dsp_component_load` -/

/-- The component was found.  The `mem` of its section is overwritten with that
of the `overlay_sections` table, which has no virtual address. -/
def componentFound (p : ℕ) (x : Section) (id : ℕ) (c : Session) : Session :=
  let c := (c.setEntry p x ⟨x, overlaySections x, id⟩).setVirtAddr x 0
  { c with state := c.state.overlayRef p x }

/-- `OVERLAY_ALLOC` has reserved a section. -/
def sectionAllocated (p : ℕ) (x : Section) (c : Session) : Session :=
  let c := { c with state := c.state.setFlags p x true }
  (c.setEntry p x
    { c.entry p x with secIdx := x, mem := overlaySections x }).setVirtAddr x 0

/-- A section is given back after a failure. -/
def freeFailed (p : ℕ) (x : Section) (c : Session) : Session :=
  let c := { c with state := c.state.overlayFree p x }
  (c.setEntry p x { c.entry p x with mem := DspMemRegion.zero }).setVirtAddr x 0

/-- The overlay image is mapped, loaded and registered. -/
def loadOverlay (p : ℕ) (x : Section) (o : LoadOutcome) (c : Session) :
    Option ℕ × Session :=
  -- An address that is zero or in use stands for `MAP_FAILED`.
  if o.mmapAddr ≠ 0 ∧ c.mapped o.mmapAddr = none then
    let c := (c.mmap o.mmapAddr x).setVirtAddr x o.mmapAddr
    if o.loaded then
      match locMlbOverlayRegister o.image x c.components with
      | (some id, t) =>
          (some id, (c.setComponents t).setEntry p x
            { c.entry p x with compid := id })
      | (none, t) =>
          (none, freeFailed p x ((c.setComponents t).munmap o.mmapAddr))
    else (none, freeFailed p x (c.munmap o.mmapAddr))
  else (none, freeFailed p x c)

/-- `dsp_component_load`: the id of the component, unless the load fails. -/
def dspComponentLoad (core : ℕ → Option ℕ) (p name : ℕ) (o : LoadOutcome)
    (c : Session) : Option ℕ × Session :=
  if o.begun then
    match locComponentFindByName core name c.components with
    | some (.core id) => (some id, componentFound p 0 id c)
    | some (.overlay i) =>
        let comp := c.components i
        (some comp.componentId,
          componentFound p comp.overlaySectionIdx comp.componentId
            (c.setComponents (incRef i c.components)))
    | none =>
        match o.area.bind c.state.overlayAlloc with
        | some x => loadOverlay p x o (sectionAllocated p x c)
        | none => (none, c)
  else (none, c)

theorem entry_componentFound (p : ℕ) (x : Section) (id : ℕ) (c : Session) :
    (componentFound p x id c).entry p =
      Function.update (c.entry p) x ⟨x, overlaySections x, id⟩ :=
  (State.overlays_overlayRef ..).trans (c.entry_setEntry p x _)

theorem entry_sectionAllocated (p : ℕ) (x : Section) (c : Session) :
    (sectionAllocated p x c).entry p = Function.update (c.entry p) x
      { c.entry p x with secIdx := x, mem := overlaySections x } := by
  have hflags : ({ c with state := c.state.setFlags p x true } : Session).entry
      p = c.entry p := State.overlays_setFlags ..
  refine (Session.entry_setEntry p x _ _).trans ?_
  rw [hflags]

/-! ## `loc_overlays_free` -/

/-- Unmap the code memory of a section. -/
def unmapSection (i : Section) (c : Session) : List Call × Session :=
  if c.virtAddr i ≠ 0 then
    ([.munmap (c.virtAddr i)], (c.munmap (c.virtAddr i)).setVirtAddr i 0)
  else ([], c)

/-- The answer to `OVERLAY_UNREGISTER` has come, or it has not. -/
def unregistered (p : ℕ) (i : Section) (c : Session) : Fastcall → Session
  | .done =>
      (c.setComponents
        (locMlbOverlayUnregister (c.entry p i).secIdx c.components)).setEntry
          p i { c.entry p i with compid := 0 }
  | .unanswered =>
      c.setComponents
        (locMlbOverlayUnregister (c.entry p i).secIdx c.components)
  | .lost => c

/-- Unregister the component that is recorded for a section. -/
def unregisterSection (p : ℕ) (o : CloseOutcome) (i : Section) (c : Session) :
    List Call × Session :=
  if (c.entry p i).compid ≠ 0 ∧ o.sent i = true then
    ([.overlayUnregister (c.entry p i).secIdx],
      unregistered p i c (o.fastcall i))
  else ([], c)

/-- The section was freed, or it was not held. -/
def freed (p : ℕ) (i : Section) (c : Session) : Session :=
  let e := c.entry p i
  { c with state := c.state.overlayFree p e.secIdx }.setEntry p i
    { e with
      secIdx := if (c.state.procs p).flags e.secIdx then 0 else e.secIdx
      mem.physAddr := 0 }

/-- Free a section. -/
def freeSection (p : ℕ) (i : Section) (c : Session) : List Call × Session :=
  if (c.entry p i).mem.physAddr ≠ 0 then
    ([.overlayFree (c.entry p i).secIdx], freed p i c)
  else ([], c)

/-- One turn of the loop in `loc_overlays_free`, and the calls that it makes. -/
def closeSection (p : ℕ) (o : CloseOutcome) (i : Section) (c : Session) :
    List Call × Session :=
  let unmapped := unmapSection i c
  let unregistered := unregisterSection p o i unmapped.2
  let freed := freeSection p i unregistered.2
  (unmapped.1 ++ unregistered.1 ++ freed.1, freed.2)

/-- The loop, for the given sections. -/
def closeSections (p : ℕ) (o : CloseOutcome) :
    List Section → Session → List Call × Session
  | [], c => ([], c)
  | i :: l, c =>
      let first := closeSection p o i c
      let rest := closeSections p o l first.2
      (first.1 ++ rest.1, rest.2)

/-- `loc_overlays_free`. -/
def locOverlaysFree (p : ℕ) (o : CloseOutcome) (c : Session) :
    List Call × Session :=
  closeSections p o (List.finRange mlbComNumSectionIndices) c

/-! ## Loads of a process -/

/-- One load after the other, as long as they succeed. -/
def loadAll (core : ℕ → Option ℕ) (p : ℕ) :
    List (ℕ × LoadOutcome) → Session → Option Session
  | [], c => some c
  | (name, o) :: loads, c =>
      match dspComponentLoad core p name o c with
      | (some _, c) => loadAll core p loads c
      | (none, _) => none

/-- What a load uses.  A reference to an overlay component is `whole` if it is
one to every component that is registered in its section then. -/
inductive Use where
  | resident (id : ℕ)
  | found (whole : Bool)
  | registered (whole : Bool)
  deriving DecidableEq, Repr

/-- The load takes a reference to a section. -/
def Use.takesRef : Use → Bool
  | .resident _ => false
  | .found _ | .registered _ => true

/-- The load maps a section. -/
def Use.maps : Use → Bool
  | .registered _ => true
  | _ => false

/-- The section for which a load is recorded, and what it uses there. -/
def useOf (core : ℕ → Option ℕ) (name : ℕ) (o : LoadOutcome) (c : Session) :
    Option (Section × Use) :=
  match locComponentFindByName core name c.components with
  | some (.core id) => some (0, .resident id)
  | some (.overlay i) =>
      let x := (c.components i).overlaySectionIdx
      some (x, .found (decide (∀ j, (c.components j).componentId ≠ 0 →
        (c.components j).overlaySectionIdx = x → j = i)))
  | none =>
      (o.area.bind c.state.overlayAlloc).map fun x =>
        (x, .registered (decide (Vacant x c.components)))

/-- The uses that are recorded for a section, in their order. -/
def usesIn (core : ℕ → Option ℕ) (p : ℕ) (x : Section) :
    List (ℕ × LoadOutcome) → Session → List Use
  | [], _ => []
  | (name, o) :: loads, c =>
      ((useOf core name o c).toList.filter (·.1 = x)).map Prod.snd ++
        usesIn core p x loads (dspComponentLoad core p name o c).2

end C64Tools.Overlay
