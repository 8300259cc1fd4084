import C64Tools.Overlay.Components
import C64Tools.Library.Transition

/-!
# Runs of the component registry

The registry from `loc_components_reset` on.  Registering an overlay calls the
`init` function of its main component, which may call back to register further
components; the `init` function of each of these is called as well.  The
registry therefore proceeds in steps, and `InitCall` says whose `init` function
is running.

The state also records which components were registered and neither rolled
back nor removed, and whose `exit` functions were called.
-/

namespace C64Tools.Overlay

open Kmod (Section mlbComNumSectionIndices)
open Transition

/-- The component whose `init` function is running: none, the main component
of a section, or another one, while the main component is waiting. -/
inductive InitCall where
  | none
  | main (i : Fin mlbMaxOverlayComponents) (s : Section)
  | extra (j i : Fin mlbMaxOverlayComponents) (s : Section)
  deriving DecidableEq, Repr

/-- A component that was registered: its number among all the components that
ever were, its name and section, and the references to it. -/
structure Registration where
  serial : ℕ
  name : ℕ
  sectionIdx : Section
  refs : ℕ
  deriving DecidableEq, Repr

/-- The registry of the DSP, and its history. -/
structure Dsp where
  table : Table
  init : InitCall
  registered : Fin mlbMaxOverlayComponents → Option Registration
  nextSerial : ℕ
  exits : List ℕ

/-- `loc_components_reset`. -/
def locComponentsReset : Dsp where
  table := fun _ => Component.unused
  init := .none
  registered := fun _ => none
  nextSerial := 0
  exits := []

/-- `loc_component_find_by_id`, on the overlay part of the array. -/
def locComponentFindById (id : ℕ) (t : Table) :
    Option (Fin mlbMaxOverlayComponents) :=
  if h : mlbMaxCoreComponents ≤ id ∧
      id < mlbMaxCoreComponents + mlbMaxOverlayComponents then
    let i := ⟨id - mlbMaxCoreComponents, by omega⟩
    if (t i).hasExec then some i else none
  else none

/-- What is left of a registration when its section is released. -/
def Registration.release (s : Section) (r : Registration) :
    Option Registration :=
  if r.sectionIdx = s then
    if r.refs - 1 = 0 then none else some { r with refs := r.refs - 1 }
  else some r

/-- The entries whose `exit` functions `loc_mlb_overlay_unregister` calls. -/
def exitCalls (s : Section) (t : Table) : List (Fin mlbMaxOverlayComponents) :=
  (List.finRange mlbMaxOverlayComponents).filter fun i =>
    (t i).componentId ≠ 0 ∧ s = (t i).overlaySectionIdx ∧
      (t i).refCount - 1 = 0

namespace Dsp

/-- A component takes an unused entry. -/
def enter (i : Fin mlbMaxOverlayComponents) (s : Section) (name : ℕ)
    (d : Dsp) : Dsp :=
  { d with
    table := Function.update d.table i
      { name := name
        componentId := idOf i
        overlaySectionIdx := s
        refCount := 1
        hasExec := true }
    registered := Function.update d.registered i
      (some ⟨d.nextSerial, name, s, 1⟩)
    nextSerial := d.nextSerial + 1 }

/-- A component is found with `_bIncRef` set. -/
def takeRef (i : Fin mlbMaxOverlayComponents) (d : Dsp) : Dsp :=
  { d with
    table := incRef i d.table
    registered := Function.update d.registered i
      ((d.registered i).map fun r => { r with refs := r.refs + 1 }) }

/-- `loc_mlb_overlay_unregister`. -/
def release (s : Section) (d : Dsp) : Dsp :=
  { d with
    table := locMlbOverlayUnregister s d.table
    registered := fun i => (d.registered i).bind (Registration.release s)
    exits := d.exits ++ (exitCalls s d.table).filterMap fun i =>
      (d.registered i).map Registration.serial }

/-- The main component is put back when its `init` function has failed. -/
def rollBack (i : Fin mlbMaxOverlayComponents) (d : Dsp) : Dsp :=
  { d with
    table := Overlay.putBack i d.table
    registered := Function.update d.registered i none }

/-- `mlb_syscall_component_register` when the `init` function has failed. -/
def rollBackExtra (j : Fin mlbMaxOverlayComponents) (d : Dsp) : Dsp :=
  { d with
    table := Function.update d.table j { d.table j with componentId := 0 }
    registered := Function.update d.registered j none }

end Dsp

/-- The component that is passed to `mlb_syscall_component_register`. -/
structure Source where
  name : ℕ
  hasExec : Bool
  deriving DecidableEq, Repr

/-- Requests to the registry.  A component without an `init` function behaves
as one whose `init` function succeeds. -/
inductive RegistryOp where
  | overlayRegister (sectionIdx name : ℕ)
  | componentRegister (component : Option Source) (sectionIdx : ℕ)
  | initReturns (ok : Bool)
  | overlayUnregister (sectionIdx : ℕ)
  | findByName (name : ℕ) (incRef : Bool)
  deriving DecidableEq, Repr

/-- `loc_mlb_overlay_register` up to the call of `init`.  The main component of
an overlay has an `exec` function. -/
def overlayRegister (sectionIdx name : ℕ) (d : Dsp) : Dsp :=
  if h : sectionIdx < mlbComNumSectionIndices then
    match firstUnused d.table with
    | some i =>
        { d.enter i ⟨sectionIdx, h⟩ name with init := .main i ⟨sectionIdx, h⟩ }
    | none => d
  else d

/-- `mlb_syscall_component_register` up to the call of `init`, on behalf of a
main component. -/
def componentRegister (component : Option Source) (sectionIdx : ℕ)
    (i : Fin mlbMaxOverlayComponents) (s : Section) (d : Dsp) : Dsp :=
  if h : sectionIdx < mlbComNumSectionIndices then
    match component with
    | some source =>
        if source.hasExec then
          match firstUnused d.table with
          | some j =>
              { d.enter j ⟨sectionIdx, h⟩ source.name with
                init := .extra j i s }
          | none => d
        else d
    | none => d
  else d

/-- The command that unregisters a section. -/
def overlayUnregister (sectionIdx : ℕ) (d : Dsp) : Dsp :=
  if h : sectionIdx < mlbComNumSectionIndices then d.release ⟨sectionIdx, h⟩
  else d

/-- `loc_component_find_by_name`. -/
def findByName (core : ℕ → Option ℕ) (name : ℕ) (incRef : Bool) (d : Dsp) :
    Dsp :=
  match locComponentFindByName core name d.table with
  | some (.overlay i) => if incRef then d.takeRef i else d
  | _ => d

/-- The next state of the registry.  Commands are executed one at a time. -/
def registryNext (core : ℕ → Option ℕ) (d : Dsp) : RegistryOp → Option Dsp
  | .overlayRegister sectionIdx name =>
      match d.init with
      | .none => some (overlayRegister sectionIdx name d)
      | _ => none
  | .componentRegister component sectionIdx =>
      match d.init with
      | .main i s => some (componentRegister component sectionIdx i s d)
      | _ => none
  | .initReturns ok =>
      match d.init with
      | .none => none
      | .main i s =>
          if ok then some { d with init := .none }
          else some { (d.rollBack i).release s with init := .none }
      | .extra j i s =>
          if ok then some { d with init := .main i s }
          else some { d.rollBackExtra j with init := .main i s }
  | .overlayUnregister sectionIdx =>
      match d.init with
      | .none => some (overlayUnregister sectionIdx d)
      | _ => none
  | .findByName name incRef => some (findByName core name incRef d)

/-- The registry, on a DSP with the given components in its core image. -/
def registryMachine (core : ℕ → Option ℕ) : Machine Dsp RegistryOp :=
  Machine.ofNext locComponentsReset (registryNext core)

/-! ## What a step does -/

/-- The steps of the registry, one by one. -/
inductive RegistryStep (core : ℕ → Option ℕ) (d : Dsp) :
    RegistryOp → Dsp → Prop
  | overlayRegister {sectionIdx name : ℕ} : d.init = .none →
      RegistryStep core d (.overlayRegister sectionIdx name)
        (overlayRegister sectionIdx name d)
  | componentRegister {component : Option Source} {sectionIdx : ℕ}
      {i : Fin mlbMaxOverlayComponents} {s : Section} : d.init = .main i s →
      RegistryStep core d (.componentRegister component sectionIdx)
        (componentRegister component sectionIdx i s d)
  | mainSucceeds {i : Fin mlbMaxOverlayComponents} {s : Section} :
      d.init = .main i s →
      RegistryStep core d (.initReturns true) { d with init := .none }
  | mainFails {i : Fin mlbMaxOverlayComponents} {s : Section} :
      d.init = .main i s →
      RegistryStep core d (.initReturns false)
        { (d.rollBack i).release s with init := .none }
  | extraSucceeds {j i : Fin mlbMaxOverlayComponents} {s : Section} :
      d.init = .extra j i s →
      RegistryStep core d (.initReturns true) { d with init := .main i s }
  | extraFails {j i : Fin mlbMaxOverlayComponents} {s : Section} :
      d.init = .extra j i s →
      RegistryStep core d (.initReturns false)
        { d.rollBackExtra j with init := .main i s }
  | overlayUnregister {sectionIdx : ℕ} : d.init = .none →
      RegistryStep core d (.overlayUnregister sectionIdx)
        (overlayUnregister sectionIdx d)
  | findByName {name : ℕ} {incRef : Bool} :
      RegistryStep core d (.findByName name incRef)
        (findByName core name incRef d)

theorem registryStep_of_next {core : ℕ → Option ℕ} {d d' : Dsp}
    {op : RegistryOp} (h : registryNext core d op = some d') :
    RegistryStep core d op d' := by
  unfold registryNext at h
  cases op with
  | overlayRegister sectionIdx name =>
      cases hinit : d.init <;> simp only [hinit, reduceCtorEq] at h
      obtain rfl := Option.some.inj h
      exact .overlayRegister hinit
  | componentRegister component sectionIdx =>
      cases hinit : d.init <;> simp only [hinit, reduceCtorEq] at h
      obtain rfl := Option.some.inj h
      exact .componentRegister hinit
  | initReturns ok =>
      cases hinit : d.init <;> cases ok <;>
        simp only [hinit, reduceCtorEq, if_true, if_false, Bool.false_eq_true]
          at h
      all_goals obtain rfl := Option.some.inj h
      · exact .mainFails hinit
      · exact .mainSucceeds hinit
      · exact .extraFails hinit
      · exact .extraSucceeds hinit
  | overlayUnregister sectionIdx =>
      cases hinit : d.init <;> simp only [hinit, reduceCtorEq] at h
      obtain rfl := Option.some.inj h
      exact .overlayUnregister hinit
  | findByName name incRef =>
      obtain rfl := Option.some.inj h
      exact .findByName

end C64Tools.Overlay
