import C64Tools.Overlay.Session

/-!
# Sessions as runs of the processes

What `dspComponentLoad` and `locOverlaysFree` do to the state is what the
steps of the process do one after the other, when no other process takes steps
in between.  Hence sessions are part of the runs in which the processes
interleave.
-/

namespace C64Tools.Overlay

open Kmod (Section mlbComNumSectionIndices overlaySections)
open Transition

/-- Steps of the processes lead from one state to the other. -/
def Leads (core : ℕ → Option ℕ) : State → State → Prop :=
  Relation.ReflTransGen fun s t => ∃ e, (overlayMachine core).step s e t

/-- The process owns the DSP and is at a position of a load. -/
def State.busy (s : State) (p : ℕ) (pc : Pc) : State :=
  { s with owner := some p }.goto p pc

/-- The process may load or close, and nobody uses the DSP or holds
`mtx_clients`. -/
structure Ready (p : ℕ) (s : State) : Prop where
  idle : (s.procs p).pc = .idle
  owner : s.owner = none
  unloading : s.unloading = none
  mtxClients : s.mtxClients = none

/-- The outcomes of the steps of a load. -/
def LoadOutcome.step (o : LoadOutcome) (c : Session) : Outcome where
  area := o.area
  loaded := o.loaded && decide (o.mmapAddr ≠ 0 ∧ c.mapped o.mmapAddr = none)
  image := o.image
  sent := true
  fastcall := .done
  timedOut := false

variable {core : ℕ → Option ℕ} {p name id : ℕ} {o : LoadOutcome}
  {c c' : Session} {s t u : State} {x : Section} {found : Found}

theorem Leads.of_next {e : Event} (h : overlayNext core s e = some t) :
    Leads core s t :=
  Relation.ReflTransGen.single ⟨e, h⟩

theorem Leads.trans (h : Leads core s t) (h' : Leads core t u) :
    Leads core s u :=
  Relation.ReflTransGen.trans h h'

theorem Leads.of_follow {l : List Event}
    (h : Machine.follow (overlayNext core) s l = some t) :
    Leads core s t := by
  induction l generalizing s with
  | nil =>
      obtain rfl : s = t := Option.some.inj h
      exact .refl
  | cons e l ih =>
      obtain ⟨u, hu, hrest⟩ := Option.bind_eq_some_iff.mp h
      exact (Leads.of_next hu).trans (ih hrest)

namespace Ready

variable {e : Entry} {val : Bool}

theorem setEntry (h : Ready p s) : Ready p (s.setEntry p x e) :=
  ⟨by simp [h.idle], h.owner, h.unloading, h.mtxClients⟩

theorem setFlags (h : Ready p s) : Ready p (s.setFlags p x val) :=
  ⟨by simp [h.idle], h.owner, h.unloading, h.mtxClients⟩

theorem overlayRef (h : Ready p s) : Ready p (s.overlayRef p x) :=
  ⟨by simp [State.overlayRef, h.idle], h.owner, h.unloading, h.mtxClients⟩

theorem overlayFree (h : Ready p s) : Ready p (s.overlayFree p x) := by
  unfold State.overlayFree
  split_ifs
  · exact h.setFlags
  · exact h

theorem setComponents {tab : Table} (h : Ready p c.state) :
    Ready p (c.setComponents tab).state :=
  ⟨h.idle, h.owner, h.unloading, h.mtxClients⟩

theorem freeFailed (h : Ready p c.state) :
    Ready p (freeFailed p x c).state :=
  h.overlayFree.setEntry

theorem loadOverlay (h : Ready p c.state) :
    Ready p (loadOverlay p x o c).2.state := by
  unfold Overlay.loadOverlay
  split_ifs
  · cases hreg : locMlbOverlayRegister o.image x c.components with
    | mk ret t =>
        have hmapped : locMlbOverlayRegister o.image x
            ((c.mmap o.mmapAddr x).setVirtAddr x o.mmapAddr).components =
            (ret, t) := hreg
        simp only [hmapped]
        cases ret with
        | some id => exact h.setComponents.setEntry
        | none => exact h.setComponents.freeFailed
  all_goals exact h.freeFailed

/-- After a load the process may go on. -/
theorem dspComponentLoad (h : Ready p c.state) :
    Ready p (dspComponentLoad core p name o c).2.state := by
  unfold Overlay.dspComponentLoad
  split_ifs
  · cases locComponentFindByName core name c.components with
    | some found =>
        cases found with
        | core id => exact h.setEntry.overlayRef
        | overlay i => exact h.setComponents.setEntry.overlayRef
    | none =>
        cases o.area.bind c.state.overlayAlloc with
        | some x => exact h.setFlags.setEntry.loadOverlay
        | none => exact h
  · exact h

end Ready

/-! ## The steps of a load -/

theorem leads_begin (h : Ready p s) : Leads core s (s.busy p (.find name)) :=
  .of_next (e := .load p name) (if_pos ⟨h.idle, h.owner, h.unloading⟩)

theorem leads_end (out : Outcome) (h : Ready p s) :
    Leads core (s.busy p .loadEnd) s := by
  refine .of_next (e := .proc p out) ?_
  simp [overlayNext, procStep, State.busy, State.goto, State.setProc, ← h.idle,
    ← h.owner]

theorem leads_found (out : Outcome) (hbegun : o.begun = true)
    (hfind : locComponentFindByName core name c.components = some found) :
    Leads core (c.state.busy p (.find name))
      ((dspComponentLoad core p name o c).2.state.busy p .loadEnd) := by
  have hfind' : locComponentFindByName core name c.state.components =
      some found := hfind
  refine .of_follow (l := [.proc p out, .proc p out]) ?_
  cases found with
  | core id =>
      simp [Machine.follow, overlayNext, procStep, State.busy, State.goto,
        State.setProc, hfind, hfind', dspComponentLoad, hbegun,
        componentFound, State.setEntry, Session.setVirtAddr,
        Session.setEntry, State.overlayRef]
  | overlay i =>
      simp [Machine.follow, overlayNext, procStep, State.busy, State.goto,
        State.setProc, hfind', dspComponentLoad, hbegun, componentFound,
        State.setEntry, Session.setVirtAddr, Session.setEntry,
        State.overlayRef, Session.setComponents, Session.components]

theorem leads_notFound (out : Outcome)
    (hfind : locComponentFindByName core name c.components = none) :
    Leads core (c.state.busy p (.find name)) (c.state.busy p .alloc) := by
  have hfind' : locComponentFindByName core name c.state.components =
      none := hfind
  refine .of_next (e := .proc p out) ?_
  simp [overlayNext, procStep, State.busy, State.goto, State.setProc, hfind']

theorem overlayAlloc_congr (h : s.sectionFlags = t.sectionFlags)
    (area : Area) : s.overlayAlloc area = t.overlayAlloc area := by
  cases area <;> simp only [State.overlayAlloc, h]

/-- A section is reserved, or the load fails. -/
theorem leads_alloc (out : Outcome) (harea : out.area = o.area)
    (hmtx : c.state.mtxClients = none) :
    Leads core (c.state.busy p .alloc)
      (match o.area.bind c.state.overlayAlloc with
        | some x => (sectionAllocated p x c).state.busy p (.image x)
        | none => c.state.busy p .loadEnd) := by
  refine .of_next (e := .proc p out) ?_
  have halloc : ∀ area, (c.state.busy p .alloc).overlayAlloc area =
      c.state.overlayAlloc area := overlayAlloc_congr rfl
  have hmtx' : (c.state.busy p .alloc).mtxClients = none := hmtx
  have hpc : ((c.state.busy p .alloc).procs p).pc = .alloc := by
    simp [State.busy]
  simp only [overlayNext, procStep, hpc, harea]
  cases o.area with
  | none => simp [State.busy, State.goto, State.setProc]
  | some area =>
      simp only [hmtx', if_true, halloc, Option.bind_some]
      cases c.state.overlayAlloc area with
      | none => simp [State.busy, State.goto, State.setProc]
      | some x =>
          simp [State.busy, State.goto, State.setProc, sectionAllocated,
            State.setFlags, State.setEntry, Session.setVirtAddr,
            Session.setEntry, Session.entry]

theorem leads_image (out : Outcome) :
    Leads core (c.state.busy p (.image x)) (c.state.busy p
      (if out.loaded then .register x else .freeFailed x)) := by
  refine .of_next (e := .proc p out) ?_
  simp [overlayNext, procStep, State.busy, State.goto, State.setProc]

theorem leads_register (out : Outcome) :
    Leads core (c.state.busy p (.register x))
      (match locMlbOverlayRegister out.image x c.components with
        | (some id, t) => ((c.setComponents t).setEntry p x
            { c.entry p x with compid := id }).state.busy p .loadEnd
        | (none, t) => (c.setComponents t).state.busy p (.freeFailed x)) := by
  refine .of_next (e := .proc p out) ?_
  have hpc : ((c.state.busy p (.register x)).procs p).pc = .register x := by
    simp [State.busy]
  have hcomponents : (c.state.busy p (.register x)).components =
      c.components := rfl
  simp only [overlayNext, procStep, hpc, hcomponents]
  cases locMlbOverlayRegister out.image x c.components with
  | mk ret t =>
      cases ret with
      | some id =>
          simp [State.busy, State.goto, State.setProc, State.setEntry,
            Session.setEntry, Session.setComponents, Session.entry]
      | none =>
          simp [State.busy, State.goto, State.setProc, Session.setComponents]

theorem leads_freeFailed (out : Outcome) (hmtx : c.state.mtxClients = none) :
    Leads core (c.state.busy p (.freeFailed x))
      ((freeFailed p x c).state.busy p .loadEnd) := by
  refine .of_next (e := .proc p out) ?_
  by_cases hheld : (c.state.procs p).flags x = true
  all_goals
    simp [overlayNext, procStep, State.busy, State.goto, State.setProc, hmtx,
      freeFailed, State.overlayFree, State.setEntry, Session.setEntry,
      Session.setVirtAddr, Session.entry, State.setFlags, hheld]

/-- An overlay is mapped, loaded and registered, or freed again. -/
theorem leads_loadOverlay (hmtx : c.state.mtxClients = none) :
    Leads core (c.state.busy p (.image x))
      ((loadOverlay p x o c).2.state.busy p .loadEnd) := by
  have himage : Leads core (c.state.busy p (.image x)) _ :=
    leads_image (o.step c)
  unfold loadOverlay
  split_ifs with haddr hloaded
  · have hout : (o.step c).loaded = true := by
      simp [LoadOutcome.step, haddr.1, haddr.2, hloaded]
    rw [if_pos hout] at himage
    refine himage.trans ((leads_register (o.step c)).trans ?_)
    cases hreg : locMlbOverlayRegister o.image x c.components with
    | mk ret t =>
        have hstep : locMlbOverlayRegister (o.step c).image x c.components =
            (ret, t) := hreg
        have hmapped : locMlbOverlayRegister o.image x
            ((c.mmap o.mmapAddr x).setVirtAddr x o.mmapAddr).components =
            (ret, t) := hreg
        simp only [hstep, hmapped]
        cases ret with
        | some id => exact .refl
        | none =>
            exact leads_freeFailed (c := c.setComponents t) (o.step c) hmtx
  all_goals
    have hout : (o.step c).loaded = false := by
      simp_all [LoadOutcome.step]
    rw [if_neg (by simp [hout])] at himage
    exact himage.trans (leads_freeFailed (c := c) (o.step c) hmtx)

/-- A load is a run of the process. -/
theorem leads_dspComponentLoad (h : Ready p c.state) :
    Leads core c.state (dspComponentLoad core p name o c).2.state := by
  by_cases hbegun : o.begun = true
  · have hbegin : Leads core c.state (c.state.busy p (.find name)) :=
      leads_begin h
    have hend : Leads core _ (dspComponentLoad core p name o c).2.state :=
      leads_end (o.step c) h.dspComponentLoad
    refine (hbegin.trans ?_).trans hend
    cases hfind : locComponentFindByName core name c.components with
    | some found => exact leads_found (o.step c) hbegun hfind
    | none =>
        refine (leads_notFound (o.step c) hfind).trans
          ((leads_alloc (o.step c) rfl h.mtxClients).trans ?_)
        unfold dspComponentLoad
        rw [if_pos hbegun, hfind]
        cases o.area.bind c.state.overlayAlloc with
        | none => exact .refl
        | some x =>
            exact leads_loadOverlay (c := sectionAllocated p x c) h.mtxClients
  · unfold dspComponentLoad
    rw [if_neg hbegun]
    exact .refl

theorem leads_loadAll {loads : List (ℕ × LoadOutcome)} (h : Ready p c.state)
    (hloads : loadAll core p loads c = some c') :
    Leads core c.state c'.state ∧ Ready p c'.state := by
  induction loads generalizing c with
  | nil =>
      obtain rfl := Option.some.inj hloads
      exact ⟨.refl, h⟩
  | cons load loads ih =>
      obtain ⟨name, o⟩ := load
      have hfirst : Leads core c.state
          (dspComponentLoad core p name o c).2.state :=
        leads_dspComponentLoad h
      have hready : Ready p (dspComponentLoad core p name o c).2.state :=
        h.dspComponentLoad
      unfold loadAll at hloads
      cases hload : dspComponentLoad core p name o c with
      | mk ret c₁ =>
          rw [hload] at hloads hfirst hready
          cases ret with
          | none => cases hloads
          | some id =>
              obtain ⟨hrest, hend⟩ := ih hready hloads
              exact ⟨hfirst.trans hrest, hend⟩

/-! ## The steps of closing -/

/-- The outcomes of the steps of a turn of the loop. -/
def CloseOutcome.step (o : CloseOutcome) (i : Section) : Outcome where
  area := none
  loaded := false
  image := ⟨0, [], false⟩
  sent := o.sent i
  fastcall := o.fastcall i
  timedOut := false

variable {i : Section} {r : CloseOutcome}

theorem leads_unregisterSection (h : Ready p c.state) :
    Leads core (c.state.goto p (.closeSection i))
      ((unregisterSection p r i c).2.state.goto p (.free i)) := by
  have hlt : (i : ℕ) < Kmod.mlbComNumSectionIndices := i.isLt
  unfold unregisterSection
  split_ifs with hun
  · refine .of_follow (l := List.replicate 3 (.proc p (r.step i))) ?_
    obtain ⟨hcompid, hsent⟩ := hun
    have hcompid' : ((c.state.procs p).overlays i).compid ≠ 0 := hcompid
    cases hcall : r.fastcall i <;>
      simp [Machine.follow, overlayNext, procStep, State.goto, State.setProc,
        hlt, hcompid', hsent, CloseOutcome.step, State.DspFree, h.owner,
        h.unloading, hcall, unregistered, Session.setEntry, State.setEntry,
        Session.setComponents, Session.entry, Session.components]
  · refine .of_next (e := .proc p (r.step i)) ?_
    by_cases hcompid : ((c.state.procs p).overlays i).compid = 0
    · simp [overlayNext, procStep, State.goto, State.setProc, hlt, hcompid]
    · have hsent : r.sent i = false := by
        simpa using fun hsent => hun ⟨hcompid, hsent⟩
      simp [overlayNext, procStep, State.goto, State.setProc, hlt, hcompid,
        hsent, CloseOutcome.step]

theorem leads_freeSection (out : Outcome) (h : Ready p c.state) :
    Leads core (c.state.goto p (.free i))
      ((freeSection p i c).2.state.goto p (.closeSection (i + 1))) := by
  refine .of_next (e := .proc p out) ?_
  unfold freeSection
  split_ifs with hphys
  · have hphys' : ((c.state.procs p).overlays i).mem.physAddr ≠ 0 := hphys
    by_cases hheld : (c.state.procs p).flags
        ((c.state.procs p).overlays i).secIdx = true
    all_goals
      simp [overlayNext, procStep, State.goto, State.setProc, h.mtxClients,
        hphys', hheld, freed, State.overlayFree, State.setFlags,
        Session.setEntry, State.setEntry, Session.entry]
  · have hphys' : ((c.state.procs p).overlays i).mem.physAddr = 0 :=
      not_not.mp hphys
    simp [overlayNext, procStep, State.goto, State.setProc, hphys']

theorem unmapSection_state : (unmapSection i c).2.state = c.state := by
  unfold unmapSection
  split_ifs <;> rfl

theorem Ready.unregisterSection (h : Ready p c.state) :
    Ready p (unregisterSection p r i c).2.state := by
  unfold Overlay.unregisterSection
  split_ifs
  · cases r.fastcall i with
    | done => exact h.setComponents.setEntry
    | unanswered => exact h.setComponents
    | lost => exact h
  · exact h

theorem Ready.freeSection (h : Ready p c.state) :
    Ready p (freeSection p i c).2.state := by
  unfold Overlay.freeSection
  split_ifs
  · exact h.overlayFree.setEntry
  · exact h

/-- A turn of the loop is a run of the process. -/
theorem leads_closeSection (h : Ready p c.state) :
    Leads core (c.state.goto p (.closeSection i))
        ((closeSection p r i c).2.state.goto p (.closeSection (i + 1))) ∧
      Ready p (closeSection p r i c).2.state := by
  have hunmapped : Ready p (unmapSection i c).2.state := by
    rwa [unmapSection_state]
  have hunregistered := hunmapped.unregisterSection (r := r) (i := i)
  have hfirst : Leads core _ _ := leads_unregisterSection (r := r) (i := i)
    hunmapped
  rw [unmapSection_state] at hfirst
  exact ⟨hfirst.trans (leads_freeSection (r.step i) hunregistered),
    hunregistered.freeSection⟩

/-- The remaining turns of the loop. -/
theorem leads_closeSections (h : Ready p c.state) (k : ℕ)
    (hk : k ≤ mlbComNumSectionIndices) :
    Leads core (c.state.goto p (.closeSection k))
      ((closeSections p r
        ((List.finRange mlbComNumSectionIndices).drop k) c).2.state.goto p
          (.closeSection mlbComNumSectionIndices)) := by
  induction hd : mlbComNumSectionIndices - k generalizing k c with
  | zero =>
      obtain rfl : k = mlbComNumSectionIndices := by omega
      rw [List.drop_eq_nil_of_le (by simp)]
      exact .refl
  | succ d ih =>
      have hlt : k < mlbComNumSectionIndices := by omega
      rw [List.drop_eq_getElem_cons (by simpa using hlt)]
      simp only [List.getElem_finRange, closeSections]
      have hfirst : Leads core (c.state.goto p (.closeSection k)) _ ∧ _ :=
        leads_closeSection (r := r) (i := ⟨k, hlt⟩) h
      exact hfirst.1.trans (ih hfirst.2 (k + 1) hlt (by omega))

/-- Closing the device is a run of the process, up to the call of
`fops__release`. -/
theorem leads_locOverlaysFree (h : Ready p c.state) :
    Leads core c.state ((locOverlaysFree p r c).2.state.goto p
      (.closeSection mlbComNumSectionIndices)) := by
  have hclose : overlayNext core c.state (.close p) =
      some (c.state.goto p (.closeSection 0)) := if_pos h.idle
  exact (Leads.of_next hclose).trans (leads_closeSections h 0 (Nat.zero_le _))

/-- The state of a session is reached when the processes interleave. -/
theorem reachable_session {loads : List (ℕ × LoadOutcome)}
    (hc : (overlayMachine core).Reachable c.state) (h : Ready p c.state)
    (hloads : loadAll core p loads c = some c') :
    (overlayMachine core).Reachable c'.state ∧
      (overlayMachine core).Reachable ((locOverlaysFree p r c').2.state.goto p
        (.closeSection mlbComNumSectionIndices)) := by
  obtain ⟨hleads, hready⟩ := leads_loadAll h hloads
  have hc' := hc.leads hleads
  exact ⟨hc', hc'.leads (leads_locOverlaysFree hready)⟩

end C64Tools.Overlay
