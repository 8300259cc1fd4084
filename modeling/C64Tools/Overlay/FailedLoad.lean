import C64Tools.Overlay.Agreement
import C64Tools.Overlay.References
import C64Tools.Overlay.Session
import C64Tools.Rpc.Retry

/-!
# Loads that fail

`dsp_component_load` takes a reference on the DSP, flags in the driver, a
mapping and an entry of the `overlays` table.  It gives a new section back on
each of its failure exits, but the entry of the section and the flag of the client
are cleared even if they were set before, and nothing is given back when
`OVERLAY_REF` fails for a component that was found.  A sequence that the DSP has
begun is not ended when `dsp_rpc_send` reports that the request was not sent.
-/

namespace C64Tools.Overlay

open Kmod (Section overlaySections)
open Transition

/-- The state of a process, the reference counts of the components of the core
image by their ids, and whether the DSP is inside of a fastcall sequence. -/
structure LoadState where
  session : Session
  coreRefCount : ℕ → ℤ
  inSequence : Bool

/-- Outcomes of a load in which more may fail: whether the DSP begins a sequence
although `dsp_rpc_send` reports a failure, whether the fastcalls that look for the
component and register it are sent, whether `OVERLAY_REF` succeeds, and whether
`OVERLAY_ALLOC` can copy its argument from and to the process. -/
structure LoadSteps extends LoadOutcome where
  unreported : Bool
  findSent : Bool
  refOk : Bool
  copiedFrom : Bool
  copiedTo : Bool
  registerSent : Bool

/-- With these outcomes of the calls in `dsp_rpc_send`. -/
def LoadSteps.withSend (o : LoadSteps) (out : Rpc.SendOutcomes) : LoadSteps :=
  { o with
    begun := (Rpc.dspRpcSendCalls out).1 = 0
    unreported := (Rpc.dspRpcSendCalls out).1 ≠ 0 ∧
      ∃ i < (Rpc.dspRpcSendCalls out).2, (out.write i).Accepted }

/-- A section that the DSP is not asked to register is unmapped and given back
like one whose code could not be loaded. -/
def LoadSteps.overlay (o : LoadSteps) : LoadOutcome :=
  { o.toLoadOutcome with loaded := o.loaded && o.registerSent }

/-! ## `dsp_component_load` with steps that may fail -/

/-- The component was found; its entry is made before `OVERLAY_REF` is called. -/
def referComponent (p : ℕ) (x : Section) (id : ℕ) (o : LoadSteps)
    (c : Session) : Option ℕ × Session :=
  if o.refOk then (some id, componentFound p x id c)
  else (none, (c.setEntry p x ⟨x, overlaySections x, id⟩).setVirtAddr x 0)

/-- The component was not found.  `OVERLAY_ALLOC` reserves a section before it
copies the answer. -/
def loadNew (p : ℕ) (o : LoadSteps) (c : Session) : Option ℕ × Session :=
  if o.copiedFrom then
    match o.area.bind c.state.overlayAlloc with
    | some x =>
        if o.copiedTo then loadOverlay p x o.overlay (sectionAllocated p x c)
        else (none, { c with state := c.state.setFlags p x true })
    | none => (none, c)
  else (none, c)

/-- The query, and what follows from its answer. -/
def queryAndLoad (core : ℕ → Option ℕ) (p name : ℕ) (o : LoadSteps)
    (c : LoadState) : Option ℕ × LoadState :=
  if o.findSent then
    match locComponentFindByName core name c.session.components with
    | some (.core id) =>
        let r := referComponent p 0 id o c.session
        (r.1, { c with
          session := r.2
          coreRefCount :=
            Function.update c.coreRefCount id (c.coreRefCount id + 1) })
    | some (.overlay i) =>
        let comp := c.session.components i
        let r := referComponent p comp.overlaySectionIdx comp.componentId o
          (c.session.setComponents (incRef i c.session.components))
        (r.1, { c with session := r.2 })
    | none =>
        let r := loadNew p o c.session
        (r.1, { c with session := r.2 })
  else (none, c)

/-- `dsp_component_load`, where a sequence can be begun only outside of one.  It is
ended only if `dsp_rpc_send` succeeds. -/
def componentLoad (core : ℕ → Option ℕ) (p name : ℕ) (o : LoadSteps)
    (c : LoadState) : Option ℕ × LoadState :=
  if o.begun = true ∧ c.inSequence = false then
    let r := queryAndLoad core p name o { c with inSequence := true }
    (r.1, { r.2 with inSequence := false })
  else (none, { c with inSequence := c.inSequence || o.unreported })

variable {core : ℕ → Option ℕ} {p name id : ℕ} {x : Section} {o : LoadSteps}
  {c c' : Session} {t : Table} {i : Fin mlbMaxOverlayComponents}

/-- With fastcalls that are sent and requests that succeed, this is the load of
a process that does not share the DSP. -/
theorem componentLoad_eq (s : LoadState) (hseq : s.inSequence = false)
    (hfind : o.findSent = true) (href : o.refOk = true)
    (hfrom : o.copiedFrom = true) (hto : o.copiedTo = true)
    (hsent : o.registerSent = true) :
    ((componentLoad core p name o s).1,
        (componentLoad core p name o s).2.session) =
      dspComponentLoad core p name o.toLoadOutcome s.session := by
  have hoverlay : o.overlay = o.toLoadOutcome := by
    rw [LoadSteps.overlay, hsent, Bool.and_true]
  unfold componentLoad dspComponentLoad
  by_cases hbegun : o.begun = true
  · rw [if_pos ⟨hbegun, hseq⟩, if_pos hbegun]
    unfold queryAndLoad
    rw [if_pos hfind]
    dsimp only
    cases locComponentFindByName core name s.session.components with
    | none =>
        unfold loadNew
        rw [if_pos hfrom, hoverlay]
        cases o.area.bind s.session.state.overlayAlloc with
        | none => rfl
        | some x =>
            exact congrArg (fun r : Option ℕ × Session => (r.1, r.2))
              (if_pos hto)
    | some found =>
        cases found with
        | core id => simp only [referComponent, href, if_true]
        | overlay i => simp only [referComponent, href, if_true]
  · rw [if_neg fun h => hbegun h.1, if_neg hbegun]

/-! ## What is left behind -/

/-- The same components are registered, with the same reference counts. -/
def SameRefs (t t' : Table) : Prop :=
  ∀ i, (t' i).componentId = (t i).componentId ∧
    ((t i).componentId ≠ 0 → (t' i).refCount = (t i).refCount)

/-- The flags, the references, the mappings and the entries that
`loc_overlays_free` acts on are as before. -/
structure Session.AsBefore (p : ℕ) (c c' : Session) : Prop where
  sectionFlags : c'.state.sectionFlags = c.state.sectionFlags
  flags : ∀ q, (c'.state.procs q).flags = (c.state.procs q).flags
  refs : SameRefs c.components c'.components
  mapped : c'.mapped = c.mapped
  entries : ∀ x, (c'.entry p x).compid = (c.entry p x).compid ∧
    (c'.entry p x).mem.physAddr = (c.entry p x).mem.physAddr ∧
    c'.virtAddr x = c.virtAddr x

/-- Nothing is left behind on any side, and the DSP is in a sequence only if it
was before. -/
structure LoadState.AsBefore (p : ℕ) (s s' : LoadState) : Prop where
  session : s.session.AsBefore p s'.session
  coreRefs : s'.coreRefCount = s.coreRefCount
  inSequence : s'.inSequence = s.inSequence

/-- The process has no flag for the section, and no entry that
`loc_overlays_free` would free or unmap. -/
def Session.Unheld (p : ℕ) (x : Section) (c : Session) : Prop :=
  (c.state.procs p).flags x = false ∧ (c.entry p x).mem.physAddr = 0 ∧
    c.virtAddr x = 0

/-- The code of the new section can be mapped and loaded, and the DSP is asked
to register it. -/
def Session.Loads (o : LoadSteps) (c : Session) : Prop :=
  o.mmapAddr ≠ 0 ∧ c.mapped o.mmapAddr = none ∧ o.overlay.loaded = true

/-- There is an entry for the main component of the image, and its `init`
succeeds. -/
def Session.Registers (o : LoadSteps) (c : Session) : Prop :=
  o.image.initOk = true ∧ firstUnused c.components ≠ none

/-- The code of the section is loaded and registered, or nobody used the section
before. -/
def Session.KeptOrUnused (p : ℕ) (o : LoadSteps) (x : Section) (c : Session) :
    Prop :=
  c.Loads o ∧ c.Registers o ∨
    c.Unheld p x ∧
      (c.Loads o → firstUnused c.components = none ∨ Vacant x c.components)

/-- The conditions for a section that the driver reserves: the process gets to
know of it, and keeps it if anybody used it before. -/
def Session.GivesBack (p : ℕ) (o : LoadSteps) (x : Section) (c : Session) :
    Prop :=
  o.copiedTo = true ∧ c.KeptOrUnused p o x

/-- The DSP does not begin a sequence of which `dsp_rpc_send` knows nothing.  If a
component is found, `OVERLAY_REF` succeeds; if not, and a section is reserved for
it, then that is given back in full unless it is kept. -/
def LoadState.FailsClean (core : ℕ → Option ℕ) (p name : ℕ) (o : LoadSteps)
    (s : LoadState) : Prop :=
  s.inSequence = false →
    if o.begun = true then
      o.findSent = true →
        if locComponentFindByName core name s.session.components ≠ none then
          o.refOk = true
        else
          o.copiedFrom = true →
            ∀ x ∈ o.area.bind s.session.state.overlayAlloc,
              s.session.GivesBack p o x
    else o.unreported = false

theorem SameRefs.refl (t : Table) : SameRefs t t :=
  fun _ => ⟨rfl, fun _ => rfl⟩

theorem Session.AsBefore.refl (p : ℕ) (c : Session) : c.AsBefore p c where
  sectionFlags := rfl
  flags _ := rfl
  refs := SameRefs.refl _
  mapped := rfl
  entries _ := ⟨rfl, rfl, rfl⟩

/-! ## A registration that fails -/

theorem Component.refCount_unregister {comp : Component}
    (hid : comp.componentId ≠ 0) (hs : comp.overlaySectionIdx = x) :
    (comp.unregister x).refCount = comp.refCount - 1 := by
  unfold Component.unregister
  rw [if_pos ⟨hid, hs.symm⟩]
  split_ifs <;> rfl

theorem locMlbOverlayRegister_ne_none_iff (image : Image) (x : Section)
    (t : Table) :
    (locMlbOverlayRegister image x t).1 ≠ none ↔
      image.initOk = true ∧ firstUnused t ≠ none := by
  unfold locMlbOverlayRegister
  cases hfree : firstUnused t with
  | none => simp
  | some i =>
      dsimp only
      split_ifs with hok
      · simp [hok]
      · simp [hok]

/-- What the `init` function of an overlay that fails leaves in the table. -/
theorem exists_entered_of_registerFailed {image : Image} {t₀ : Table}
    (h : locMlbOverlayRegister image x t₀ = (none, t)) :
    firstUnused t₀ = none ∧ t = t₀ ∨
      ∃ i t₁, (t₀ i).componentId = 0 ∧ Entered x t₀ t₁ ∧
        t = locMlbOverlayUnregister x (putBack i t₁) := by
  unfold locMlbOverlayRegister at h
  cases hfree : firstUnused t₀ with
  | none =>
      rw [hfree] at h
      exact Or.inl ⟨rfl, (Prod.mk.inj h).2.symm⟩
  | some i =>
      rw [hfree] at h
      dsimp only at h
      have hunused := componentId_of_firstUnused hfree
      have hmain : Entered x t₀ (Function.update t₀ i
          ⟨image.name, idOf i, x, 1, true⟩) := entered_update hunused rfl rfl
      have hextras := entered_extras x image.extras (Function.update t₀ i
        ⟨image.name, idOf i, x, 1, true⟩)
      split_ifs at h with hok
      · cases (Prod.mk.inj h).1
      · exact Or.inr ⟨i, _, hunused, hmain.trans hextras,
          (Prod.mk.inj h).2.symm⟩

/-- When the `init` function of an overlay fails, its section is unregistered,
with all the components that were in it before. -/
theorem sameRefs_registerFailed_iff {image : Image} {t₀ : Table}
    (h : locMlbOverlayRegister image x t₀ = (none, t)) :
    SameRefs t₀ t ↔ firstUnused t₀ = none ∨ Vacant x t₀ := by
  obtain ⟨hfull, rfl⟩ | ⟨i, t₁, hunused, hentered, rfl⟩ :=
    exists_entered_of_registerFailed h
  · exact iff_of_true (SameRefs.refl t) (Or.inl hfull)
  have hold : ∀ j, (t₀ j).componentId ≠ 0 → putBack i t₁ j = t₀ j := by
    intro j hj
    have hne : j ≠ i := by
      rintro rfl
      exact hj hunused
    rw [putBack, Function.update_of_ne hne, hentered.old hj]
  constructor
  · intro hsame
    right
    intro j hj hs
    have hcount := (hsame j).2 hj
    rw [locMlbOverlayUnregister, hold j hj,
      Component.refCount_unregister hj hs] at hcount
    omega
  · rintro (hfull | hvacant) j
    · exact absurd hunused (by
        have hnone := List.find?_eq_none.mp hfull i (List.mem_finRange i)
        simpa using hnone)
    by_cases hj : (t₀ j).componentId = 0
    · refine ⟨?_, fun hne => absurd hj hne⟩
      rw [hj]
      by_cases hid : (putBack i t₁ j).componentId = 0
      · by_contra hne
        exact Component.componentId_of_unregister hne hid
      · have hne : j ≠ i := by
          rintro rfl
          rw [putBack, Function.update_self] at hid
          exact hid rfl
        have heq : putBack i t₁ j = t₁ j := Function.update_of_ne hne ..
        rw [heq] at hid
        obtain hsame | ⟨-, hnew⟩ := hentered j
        · exact absurd (hsame ▸ hj) hid
        · obtain ⟨hs, hr⟩ := hnew hid
          rw [locMlbOverlayUnregister, heq]
          exact Component.unregister_of_single hs fun _ => hr
    · rw [locMlbOverlayUnregister, hold j hj,
        Component.unregister_of_ne (hvacant j hj)]
      exact ⟨rfl, fun _ => rfl⟩

/-! ## A section that is given back -/

/-- The section has been reserved, and only it has changed for the library. -/
structure Session.Reserved (p : ℕ) (x : Section) (c c' : Session) : Prop where
  sectionFlags : c'.state.sectionFlags =
    Function.update c.state.sectionFlags x true
  flags : (c'.state.procs p).flags =
    Function.update (c.state.procs p).flags x true
  flags_of_ne : ∀ q ≠ p, (c'.state.procs q).flags = (c.state.procs q).flags
  compid : ∀ y, (c'.entry p y).compid = (c.entry p y).compid
  entry_of_ne : ∀ y ≠ x, c'.entry p y = c.entry p y
  virtAddr_of_ne : ∀ y ≠ x, c'.virtAddr y = c.virtAddr y

theorem reserved_sectionAllocated (p : ℕ) (x : Section) (c : Session) :
    c.Reserved p x (sectionAllocated p x c) := by
  have hentry := entry_sectionAllocated p x c
  have hkept : ({ c with state := c.state.setFlags p x true } : Session).entry
      p = c.entry p := State.overlays_setFlags ..
  have hstate : (sectionAllocated p x c).state = (c.state.setFlags p x true).setEntry
      p x { c.entry p x with secIdx := x, mem := overlaySections x } :=
    congrArg (fun f : Section → Entry => (c.state.setFlags p x true).setEntry p x
      { f x with secIdx := x, mem := overlaySections x }) hkept
  refine ⟨rfl, ?_, fun q hq => ?_, fun y => ?_, fun y hy => ?_, fun y hy => ?_⟩
  · rw [hstate, State.setEntry_self, State.setFlags_self]
  · rw [hstate, State.setEntry_ne _ _ hq, State.setFlags_ne _ _ hq]
  · rw [hentry]
    by_cases hy : y = x
    · subst hy
      rw [Function.update_self]
    · rw [Function.update_of_ne hy]
  · rw [hentry, Function.update_of_ne hy]
  · exact Function.update_of_ne hy _ _

/-- What `freeFailed` does to a section that is held. -/
theorem freeFailed_of_held (hheld : (c.state.procs p).flags x = true) :
    freeFailed p x c =
      { c with
        state := (c.state.setFlags p x false).setEntry p x
          { c.entry p x with mem := DspMemRegion.zero }
        virtAddr := Function.update c.virtAddr x 0 } := by
  have hkept : ({ c with state := c.state.setFlags p x false } : Session).entry
      p = c.entry p := State.overlays_setFlags ..
  unfold freeFailed State.overlayFree
  rw [if_pos hheld]
  exact congrArg (fun f : Section → Entry => Session.setVirtAddr x 0
    { c with
      state := (c.state.setFlags p x false).setEntry p x
        { f x with mem := DspMemRegion.zero } }) hkept

section FreeFailed

variable (h : c.Reserved p x c')
include h

theorem Session.Reserved.held : (c'.state.procs p).flags x = true := by
  rw [h.flags, Function.update_self]

theorem sectionFlags_freeFailed (hx : c.state.sectionFlags x = false) :
    (freeFailed p x c').state.sectionFlags = c.state.sectionFlags := by
  rw [freeFailed_of_held h.held]
  show Function.update c'.state.sectionFlags x false = _
  rw [h.sectionFlags, Function.update_idem, ← hx, Function.update_eq_self]

theorem flags_freeFailed :
    ((freeFailed p x c').state.procs p).flags =
      Function.update (c.state.procs p).flags x false := by
  rw [freeFailed_of_held h.held]
  dsimp only
  rw [State.setEntry_self, State.setFlags_self, h.flags, Function.update_idem]

theorem flags_freeFailed_of_ne {q : ℕ} (hq : q ≠ p) :
    ((freeFailed p x c').state.procs q).flags = (c.state.procs q).flags := by
  rw [freeFailed_of_held h.held]
  dsimp only
  rw [State.setEntry_ne _ _ hq, State.setFlags_ne _ _ hq, h.flags_of_ne q hq]

theorem entry_freeFailed :
    (freeFailed p x c').entry p = Function.update (c'.entry p) x
      { c'.entry p x with mem := DspMemRegion.zero } := by
  rw [freeFailed_of_held h.held]
  unfold Session.entry
  rw [State.setEntry_self, State.setFlags_self]

theorem virtAddr_freeFailed :
    (freeFailed p x c').virtAddr = Function.update c'.virtAddr x 0 := by
  rw [freeFailed_of_held h.held]

theorem kept_freeFailed :
    (freeFailed p x c').components = c'.components ∧
      (freeFailed p x c').mapped = c'.mapped := by
  rw [freeFailed_of_held h.held]
  exact ⟨rfl, rfl⟩

/-- A section that nobody used before is given back in full. -/
theorem asBefore_freeFailed_iff (hx : c.state.sectionFlags x = false) :
    c.AsBefore p (freeFailed p x c') ↔
      c.Unheld p x ∧ SameRefs c.components c'.components ∧
        c'.mapped = c.mapped := by
  obtain ⟨hcomponents, hmappings⟩ := kept_freeFailed h
  have hself : (freeFailed p x c').entry p x =
      { c'.entry p x with mem := DspMemRegion.zero } := by
    rw [entry_freeFailed h, Function.update_self]
  have hunmapped : (freeFailed p x c').virtAddr x = 0 := by
    rw [virtAddr_freeFailed h, Function.update_self]
  constructor
  · rintro ⟨-, hsame, hrefs, hmapped, hentries⟩
    rw [hcomponents] at hrefs
    rw [hmappings] at hmapped
    obtain ⟨-, hphys, haddr⟩ := hentries x
    refine ⟨⟨?_, ?_, ?_⟩, hrefs, hmapped⟩
    · rw [← hsame p, flags_freeFailed h, Function.update_self]
    · rw [← hphys, hself]
      rfl
    · rw [← haddr, hunmapped]
  · rintro ⟨⟨hflag, hphys, haddr⟩, hrefs, hmapped⟩
    refine ⟨sectionFlags_freeFailed h hx, fun q => ?_, hcomponents ▸ hrefs,
      hmappings.trans hmapped, fun y => ?_⟩
    · by_cases hq : q = p
      · subst hq
        rw [flags_freeFailed h, ← hflag, Function.update_eq_self]
      · exact flags_freeFailed_of_ne h hq
    · by_cases hy : y = x
      · subst hy
        rw [hself, hunmapped, hphys, haddr]
        exact ⟨h.compid y, rfl, rfl⟩
      · rw [entry_freeFailed h, virtAddr_freeFailed h, Function.update_of_ne hy,
          Function.update_of_ne hy, h.entry_of_ne y hy, h.virtAddr_of_ne y hy]
        exact ⟨rfl, rfl, rfl⟩

end FreeFailed

theorem Session.Reserved.mmap (h : c.Reserved p x c') (addr : ℕ) :
    c.Reserved p x ((c'.mmap addr x).setVirtAddr x addr) where
  sectionFlags := h.sectionFlags
  flags := h.flags
  flags_of_ne := h.flags_of_ne
  compid := h.compid
  entry_of_ne := h.entry_of_ne
  virtAddr_of_ne y hy :=
    (Function.update_of_ne hy _ _).trans (h.virtAddr_of_ne y hy)

theorem Session.Reserved.munmap (h : c.Reserved p x c') (addr : ℕ) :
    c.Reserved p x (c'.munmap addr) where
  sectionFlags := h.sectionFlags
  flags := h.flags
  flags_of_ne := h.flags_of_ne
  compid := h.compid
  entry_of_ne := h.entry_of_ne
  virtAddr_of_ne := h.virtAddr_of_ne

theorem Session.Reserved.setComponents (h : c.Reserved p x c') (t : Table) :
    c.Reserved p x (c'.setComponents t) where
  sectionFlags := h.sectionFlags
  flags := h.flags
  flags_of_ne := h.flags_of_ne
  compid := h.compid
  entry_of_ne := h.entry_of_ne
  virtAddr_of_ne := h.virtAddr_of_ne

theorem mapped_munmap_mmap {addr : ℕ} (h : c.mapped addr = none) :
    ((c.mmap addr x).munmap addr).mapped = c.mapped := by
  show Function.update (Function.update c.mapped addr (some x)) addr none = _
  rw [Function.update_idem, ← h, Function.update_eq_self]

/-! ## The failure exits of a load -/

theorem loadOverlay_of_not_mapped {o : LoadOutcome}
    (h : ¬ (o.mmapAddr ≠ 0 ∧ c.mapped o.mmapAddr = none)) :
    loadOverlay p x o c = (none, freeFailed p x c) :=
  if_neg h

theorem loadOverlay_of_not_loaded {o : LoadOutcome}
    (h : o.mmapAddr ≠ 0 ∧ c.mapped o.mmapAddr = none)
    (hload : ¬ o.loaded = true) :
    loadOverlay p x o c =
      (none, freeFailed p x
        (((c.mmap o.mmapAddr x).setVirtAddr x o.mmapAddr).munmap
          o.mmapAddr)) := by
  unfold loadOverlay
  rw [if_pos h]
  exact if_neg hload

theorem loadOverlay_of_registerFailed {o : LoadOutcome}
    (h : o.mmapAddr ≠ 0 ∧ c.mapped o.mmapAddr = none) (hload : o.loaded = true)
    (hreg : locMlbOverlayRegister o.image x c.components = (none, t)) :
    loadOverlay p x o c =
      (none, freeFailed p x
        ((((c.mmap o.mmapAddr x).setVirtAddr x o.mmapAddr).setComponents
          t).munmap o.mmapAddr)) := by
  have hreg' : locMlbOverlayRegister o.image x
      ((c.mmap o.mmapAddr x).setVirtAddr x o.mmapAddr).components = (none, t) :=
    hreg
  unfold loadOverlay
  rw [if_pos h]
  simp only [hload, if_true, hreg']

theorem loadOverlay_of_registered {o : LoadOutcome}
    (h : o.mmapAddr ≠ 0 ∧ c.mapped o.mmapAddr = none) (hload : o.loaded = true)
    (hreg : locMlbOverlayRegister o.image x c.components = (some id, t)) :
    (loadOverlay p x o c).1 = some id := by
  have hreg' : locMlbOverlayRegister o.image x
      ((c.mmap o.mmapAddr x).setVirtAddr x o.mmapAddr).components =
        (some id, t) := hreg
  unfold loadOverlay
  rw [if_pos h]
  simp only [hload, if_true, hreg']

/-- A section is given back before its code is loaded. -/
theorem asBefore_freeFailed_of_not_loads (h : c.Reserved p x c')
    (hx : c.state.sectionFlags x = false)
    (hcomponents : c'.components = c.components)
    (hmapped : c'.mapped = c.mapped) (hnot : ¬ c.Loads o) :
    c.AsBefore p (freeFailed p x c') ↔ c.KeptOrUnused p o x := by
  rw [asBefore_freeFailed_iff h hx]
  constructor
  · rintro ⟨hunheld, -, -⟩
    exact Or.inr ⟨hunheld, fun hloads => absurd hloads hnot⟩
  · rintro (⟨hloads, -⟩ | ⟨hunheld, -⟩)
    · exact absurd hloads hnot
    · exact ⟨hunheld, hcomponents ▸ SameRefs.refl _, hmapped⟩

/-- A load of a new component that fails behind `OVERLAY_ALLOC`. -/
theorem asBefore_loadOverlay_iff (hx : c.state.sectionFlags x = false) :
    ((loadOverlay p x o.overlay (sectionAllocated p x c)).1 = none →
        c.AsBefore p
          (loadOverlay p x o.overlay (sectionAllocated p x c)).2) ↔
      c.KeptOrUnused p o x := by
  have hreserved := reserved_sectionAllocated p x c
  have hmapped := hreserved.mmap o.overlay.mmapAddr
  by_cases hmmap : o.mmapAddr ≠ 0 ∧ c.mapped o.mmapAddr = none
  swap
  · rw [loadOverlay_of_not_mapped (o := o.overlay)
        (c := sectionAllocated p x c) hmmap, forall_prop_of_true rfl]
    exact asBefore_freeFailed_of_not_loads hreserved hx rfl rfl
      fun h => hmmap ⟨h.1, h.2.1⟩
  have hunmap := mapped_munmap_mmap (x := x) hmmap.2
  by_cases hloaded : o.overlay.loaded = true
  swap
  · rw [loadOverlay_of_not_loaded (o := o.overlay)
        (c := sectionAllocated p x c) hmmap hloaded, forall_prop_of_true rfl]
    exact asBefore_freeFailed_of_not_loads (hmapped.munmap _) hx rfl
      hunmap fun h => hloaded h.2.2
  have hloads : c.Loads o := ⟨hmmap.1, hmmap.2, hloaded⟩
  have hregisters := locMlbOverlayRegister_ne_none_iff o.image x c.components
  rcases hreg : locMlbOverlayRegister o.image x c.components with ⟨_ | id, t⟩
  · rw [hreg] at hregisters
    have hnot : ¬ c.Registers o := fun h => hregisters.mpr h rfl
    rw [loadOverlay_of_registerFailed (o := o.overlay)
        (c := sectionAllocated p x c) hmmap hloaded hreg,
      forall_prop_of_true rfl,
      asBefore_freeFailed_iff ((hmapped.setComponents t).munmap _) hx]
    constructor
    · rintro ⟨hunheld, hsame, -⟩
      exact Or.inr ⟨hunheld, fun _ =>
        (sameRefs_registerFailed_iff hreg).mp hsame⟩
    · rintro (⟨-, h⟩ | ⟨hunheld, hback⟩)
      · exact absurd h hnot
      · exact ⟨hunheld, (sameRefs_registerFailed_iff hreg).mpr (hback hloads),
          hunmap⟩
  · rw [hreg] at hregisters
    have hyes : c.Registers o := hregisters.mp (Option.some_ne_none id)
    rw [loadOverlay_of_registered (o := o.overlay)
        (c := sectionAllocated p x c) hmmap hloaded hreg]
    exact iff_of_true (fun h => nomatch h) (Or.inl ⟨hloads, hyes⟩)

theorem asBefore_loadNew_iff :
    ((loadNew p o c).1 = none → c.AsBefore p (loadNew p o c).2) ↔
      (o.copiedFrom = true →
        ∀ x ∈ o.area.bind c.state.overlayAlloc, c.GivesBack p o x) := by
  unfold loadNew
  by_cases hfrom : o.copiedFrom = true
  swap
  · rw [if_neg hfrom]
    exact iff_of_true (fun _ => .refl p c) fun h => absurd h hfrom
  rw [if_pos hfrom, forall_prop_of_true hfrom]
  cases hx : o.area.bind c.state.overlayAlloc with
  | none => exact iff_of_true (fun _ => .refl p c) fun _ h => nomatch h
  | some x =>
      obtain ⟨area, -, halloc⟩ := Option.bind_eq_some_iff.mp hx
      have hflag := sectionFlags_of_overlayAlloc halloc
      have hmem : (∀ y ∈ some x, c.GivesBack p o y) ↔ c.GivesBack p o x :=
        ⟨fun h => h x rfl, fun h y hy => Option.some.inj hy ▸ h⟩
      dsimp only
      rw [hmem]
      by_cases hto : o.copiedTo = true
      · rw [if_pos hto, asBefore_loadOverlay_iff hflag]
        exact ⟨fun h => ⟨hto, h⟩, fun h => h.2⟩
      · rw [if_neg hto]
        refine iff_of_false (fun h => ?_) fun h => hto h.1
        have hkept := congrFun (h rfl).sectionFlags x
        have hset : (c.state.setFlags p x true).sectionFlags x = true :=
          Function.update_self ..
        rw [hset, hflag] at hkept
        cases hkept

/-- A component that was found has been given a reference to it. -/
theorem not_sameRefs_incRef {t' : Table} (hi : (t i).componentId ≠ 0)
    (h : t' = incRef i t) : ¬ SameRefs t t' := by
  intro hsame
  have hcount := (hsame i).2 hi
  rw [h, incRef, Function.update_self] at hcount
  dsimp only at hcount
  omega

theorem queryAndLoad_iff {s s' : LoadState} (hsession : s'.session = s.session)
    (hrefs : s'.coreRefCount = s.coreRefCount) :
    ((queryAndLoad core p name o s').1 = none →
        s.session.AsBefore p (queryAndLoad core p name o s').2.session ∧
          (queryAndLoad core p name o s').2.coreRefCount = s.coreRefCount) ↔
      (o.findSent = true →
        if locComponentFindByName core name s.session.components ≠ none then
          o.refOk = true
        else
          o.copiedFrom = true →
            ∀ x ∈ o.area.bind s.session.state.overlayAlloc,
              s.session.GivesBack p o x) := by
  unfold queryAndLoad
  by_cases hsent : o.findSent = true
  swap
  · rw [if_neg hsent, hsession, hrefs]
    exact iff_of_true (fun _ => ⟨.refl p _, rfl⟩) fun h => absurd h hsent
  rw [if_pos hsent, forall_prop_of_true hsent, hsession, hrefs]
  cases hfound : locComponentFindByName core name s.session.components with
  | none =>
      rw [if_neg (not_not.mpr rfl), ← asBefore_loadNew_iff]
      exact imp_congr_right fun _ => and_iff_left rfl
  | some found =>
      rw [if_pos (Option.some_ne_none found)]
      by_cases href : o.refOk = true
      · refine iff_of_true (fun h => ?_) href
        cases found with
        | core id =>
            simp only [referComponent, href, if_true] at h
            cases h
        | overlay i =>
            simp only [referComponent, href, if_true] at h
            cases h
      · refine iff_of_false (fun h => ?_) href
        cases found with
        | core id =>
            simp only [referComponent, href] at h
            have hcount := congrFun (h rfl).2 id
            rw [Function.update_self] at hcount
            omega
        | overlay i =>
            simp only [referComponent, href] at h
            exact not_sameRefs_incRef (componentId_of_found hfound) rfl
              (h rfl).1.refs

/-- A load that fails leaves nothing behind exactly if no sequence is begun without
being reported, `OVERLAY_REF` succeeds for a component that was found, and a section
that is reserved for one that was not is given back in full. -/
theorem componentLoad_failsClean_iff (core : ℕ → Option ℕ) (p name : ℕ)
    (o : LoadSteps) (s : LoadState) :
    ((componentLoad core p name o s).1 = none →
        s.AsBefore p (componentLoad core p name o s).2) ↔
      s.FailsClean core p name o := by
  unfold componentLoad LoadState.FailsClean
  cases hseq : s.inSequence with
  | true =>
      -- somebody else's sequence goes on
      rw [if_neg fun h => nomatch h.2]
      refine iff_of_true (fun _ => ⟨.refl p _, rfl, ?_⟩) fun h => nomatch h
      rw [hseq, Bool.true_or]
  | false =>
      rw [forall_prop_of_true rfl]
      by_cases hbegun : o.begun = true
      · have hquery := @queryAndLoad_iff core p name o s
          { s with inSequence := true } rfl rfl
        rw [if_pos ⟨hbegun, rfl⟩, if_pos hbegun, ← hquery]
        constructor
        · intro h hnone
          obtain ⟨hsession, hrefs, -⟩ := h hnone
          exact ⟨hsession, hrefs⟩
        · intro h hnone
          obtain ⟨hsession, hrefs⟩ := h hnone
          exact ⟨hsession, hrefs, hseq.symm⟩
      · rw [if_neg fun h => hbegun h.1, if_neg hbegun, Bool.false_or]
        constructor
        · intro h
          exact (h rfl).inSequence.trans hseq
        · intro h _
          exact ⟨.refl p _, rfl, h.trans hseq.symm⟩

/-- The sequence is begun without being reported when the last permitted write
succeeds. -/
theorem unreported_withSend_iff (out : Rpc.SendOutcomes) :
    (o.withSend out).unreported = true ↔ Rpc.AcceptedLast out := by
  rw [Rpc.acceptedLast_iff]
  exact decide_eq_true_iff

/-- A process that has mapped nothing, between sequences. -/
def State.unmapped (s : State) : LoadState where
  session := ⟨s, fun _ => 0, fun _ => none⟩
  coreRefCount _ := 0
  inSequence := false

/-- The file of the overlay is there, but its code cannot be loaded. -/
def imageBroken : LoadSteps where
  begun := true
  area := some .area2
  mmapAddr := 4096
  loaded := false
  image := ⟨2, [], true⟩
  unreported := false
  findSent := true
  refOk := true
  copiedFrom := true
  copiedTo := true
  registerSent := true

/-- `OVERLAY_REF` fails. -/
def refRefused : LoadSteps := { imageBroken with refOk := false }

/-- The DSP has taken the request at the last permitted try. -/
def sendUnreported : LoadSteps :=
  { imageBroken with begun := false, unreported := true }

/-- A process has found the component that another one loaded before it closed
the device.  If then it cannot load the image of a second component, it loses
its flag of the first section; and if `OVERLAY_REF` fails when it looks for the
first component once more, then that is left with one reference too many.  If the
request is taken at the last permitted try, the DSP is left in the sequence. -/
theorem failed_loads_not_asBefore :
    ∃ s : State, (overlayMachine fun _ => none).Reachable s ∧
      (s.procs 1).pc = .idle ∧ s.owner = none ∧
      ((componentLoad (fun _ => none) 1 2 imageBroken s.unmapped).1 = none ∧
        ¬ s.unmapped.AsBefore 1
          (componentLoad (fun _ => none) 1 2 imageBroken s.unmapped).2) ∧
      ((componentLoad (fun _ => none) 1 1 refRefused s.unmapped).1 = none ∧
        ¬ s.unmapped.AsBefore 1
          (componentLoad (fun _ => none) 1 1 refRefused s.unmapped).2) ∧
      (componentLoad (fun _ => none) 1 1 sendUnreported s.unmapped).1 = none ∧
        ¬ s.unmapped.AsBefore 1
          (componentLoad (fun _ => none) 1 1 sendUnreported s.unmapped).2 := by
  have hrun : ∃ s : State, (overlayMachine fun _ => none).Reachable s ∧
      (s.procs 1).pc = .idle ∧ s.owner = none ∧
      ((componentLoad (fun _ => none) 1 2 imageBroken s.unmapped).1 = none ∧
        (((componentLoad (fun _ => none) 1 2 imageBroken
          s.unmapped).2.session.state.procs 1).flags 0 ≠
            (s.procs 1).flags 0)) ∧
      (componentLoad (fun _ => none) 1 1 refRefused s.unmapped).1 = none ∧
        (s.components 0).componentId ≠ 0 ∧
        ((componentLoad (fun _ => none) 1 1 refRefused
          s.unmapped).2.session.components 0).refCount ≠
            (s.components 0).refCount :=
    Machine.exists_reachable_of_run _
      (demoLoad 0 ++ (demoLoad 1).take 5 ++ demoClose 0) (by decide +kernel)
  obtain ⟨s, hs, hpc, howner, ⟨hnone, hflag⟩, hnone', hid, hcount⟩ := hrun
  refine ⟨s, hs, hpc, howner, ⟨hnone, fun h => ?_⟩, ⟨hnone', fun h => ?_⟩, rfl,
    fun h => ?_⟩
  · exact hflag (congrFun (h.session.flags 1) 0)
  · exact hcount ((h.session.refs 0).2 hid)
  · exact absurd h.inSequence.symm Bool.false_ne_true

end C64Tools.Overlay
