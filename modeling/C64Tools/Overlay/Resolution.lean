import C64Tools.Overlay.Registry

/-!
# What the registry resolves

An entry of the component table is in use or unused in all of its fields at
once, so that lookups by id and by name find the registered components and no
others.  A component whose `init` function fails after it was registered by
another one is the exception: its `exec` function stays.
-/

namespace C64Tools.Overlay

open Kmod (Section mlbComNumSectionIndices)
open Transition

/-- An entry holds a registered component, or is unused. -/
def Represents (i : Fin mlbMaxOverlayComponents) (c : Component) :
    Option Registration → Prop
  | some r => c.componentId = idOf i ∧ c.hasExec = true ∧
      c.refCount = r.refs ∧ 0 < r.refs ∧ c.name = r.name ∧
      c.overlaySectionIdx = r.sectionIdx
  | none => c.componentId = 0 ∧ c.hasExec = false

/-- The table holds the registered components. -/
def Dsp.Exact (d : Dsp) : Prop :=
  ∀ i, Represents i (d.table i) (d.registered i)

variable {d d' : Dsp} {s : Section} {i j : Fin mlbMaxOverlayComponents}
  {c : Component} {r : Option Registration} {core : ℕ → Option ℕ}

theorem exact_locComponentsReset : locComponentsReset.Exact :=
  fun _ => ⟨rfl, rfl⟩

/-! ## Single entries -/

theorem Represents.componentId_ne_zero_iff (h : Represents i c r) :
    c.componentId ≠ 0 ↔ r.isSome := by
  cases r with
  | none => exact iff_of_false (fun hid => hid h.1) (by decide)
  | some r => exact iff_of_true (h.1 ▸ idOf_ne_zero i) rfl

theorem Represents.hasExec_iff (h : Represents i c r) :
    c.hasExec = true ↔ r.isSome := by
  cases r with
  | none => exact iff_of_false (by rw [h.2]; decide) (by decide)
  | some r => exact iff_of_true h.2.1 rfl

theorem Represents.takeRef (h : Represents i c r) :
    Represents i { c with refCount := c.refCount + 1 }
      (r.map fun r => { r with refs := r.refs + 1 }) := by
  cases r with
  | none => exact h
  | some r =>
      obtain ⟨hid, hexec, href, -, hname, hsec⟩ := h
      refine ⟨hid, hexec, ?_, Nat.succ_pos _, hname, hsec⟩
      show c.refCount + 1 = ((r.refs + 1 : ℕ) : ℤ)
      rw [href]
      rfl

theorem Represents.release (h : Represents i c r) (s : Section) :
    Represents i (c.unregister s) (r.bind (Registration.release s)) := by
  cases r with
  | none =>
      rw [Component.unregister, if_neg fun hc => hc.1 h.1]
      exact h
  | some r =>
      obtain ⟨hid, hexec, href, hpos, hname, hsec⟩ := h
      have hne : c.componentId ≠ 0 := hid ▸ idOf_ne_zero i
      show Represents i _ (r.release s)
      unfold Component.unregister Registration.release
      by_cases hs : r.sectionIdx = s
      · rw [if_pos ⟨hne, (hsec.trans hs).symm⟩, if_pos hs]
        by_cases h0 : r.refs - 1 = 0
        · rw [if_pos (by omega), if_pos h0]
          exact ⟨rfl, rfl⟩
        · rw [if_neg (by omega), if_neg h0]
          refine ⟨hid, hexec, ?_, by show 0 < r.refs - 1; omega, hname, hsec⟩
          show c.refCount - 1 = ((r.refs - 1 : ℕ) : ℤ)
          omega
      · rw [if_neg fun hc => hs (hsec.symm.trans hc.2.symm), if_neg hs]
        exact ⟨hid, hexec, href, hpos, hname, hsec⟩

/-! ## The operations -/

namespace Dsp.Exact

theorem enter (h : d.Exact) (i : Fin mlbMaxOverlayComponents) (s : Section)
    (name : ℕ) : (d.enter i s name).Exact := by
  intro j
  unfold Dsp.enter
  dsimp only
  by_cases hj : j = i
  · subst hj
    rw [Function.update_self, Function.update_self]
    exact ⟨rfl, rfl, rfl, Nat.one_pos, rfl, rfl⟩
  · rw [Function.update_of_ne hj, Function.update_of_ne hj]
    exact h j

theorem takeRef (h : d.Exact) (i : Fin mlbMaxOverlayComponents) :
    (d.takeRef i).Exact := by
  intro j
  unfold Dsp.takeRef incRef
  dsimp only
  by_cases hj : j = i
  · subst hj
    rw [Function.update_self, Function.update_self]
    exact (h j).takeRef
  · rw [Function.update_of_ne hj, Function.update_of_ne hj]
    exact h j

theorem release (h : d.Exact) (s : Section) : (d.release s).Exact :=
  fun j => (h j).release s

theorem rollBack (h : d.Exact) (i : Fin mlbMaxOverlayComponents) :
    (d.rollBack i).Exact := by
  intro j
  unfold Dsp.rollBack Overlay.putBack
  dsimp only
  by_cases hj : j = i
  · subst hj
    rw [Function.update_self, Function.update_self]
    exact ⟨rfl, rfl⟩
  · rw [Function.update_of_ne hj, Function.update_of_ne hj]
    exact h j

theorem findByName (h : d.Exact) (core : ℕ → Option ℕ) (name : ℕ)
    (incRef : Bool) : (findByName core name incRef d).Exact := by
  unfold Overlay.findByName
  split
  · split_ifs
    · exact h.takeRef _
    · exact h
  · exact h

theorem overlayRegister (h : d.Exact) (sectionIdx name : ℕ) :
    (overlayRegister sectionIdx name d).Exact := by
  unfold Overlay.overlayRegister
  split_ifs with hs
  · split
    · exact h.enter _ _ _
    · exact h
  · exact h

theorem componentRegister (h : d.Exact) (component : Option Source)
    (sectionIdx : ℕ) (i : Fin mlbMaxOverlayComponents) (s : Section) :
    (componentRegister component sectionIdx i s d).Exact := by
  unfold Overlay.componentRegister
  split_ifs with hs
  · split
    · split_ifs
      · split
        · exact h.enter _ _ _
        · exact h
      · exact h
    · exact h
  · exact h

theorem overlayUnregister (h : d.Exact) (sectionIdx : ℕ) :
    (overlayUnregister sectionIdx d).Exact := by
  unfold Overlay.overlayUnregister
  split_ifs
  · exact h.release _
  · exact h

end Dsp.Exact

/-- No `init` function fails that `mlb_syscall_component_register` has called;
the main component's may fail. -/
def ExtraInitSucceeds (d : Dsp) (op : RegistryOp) : Prop :=
  ∀ j i s, d.init = .extra j i s → op ≠ .initReturns false

theorem Dsp.Exact.step {op : RegistryOp} (h : d.Exact)
    (hok : ExtraInitSucceeds d op)
    (hnext : registryNext core d op = some d') : d'.Exact := by
  cases registryStep_of_next hnext with
  | overlayRegister _ => exact h.overlayRegister _ _
  | componentRegister _ => exact h.componentRegister _ _ _ _
  | mainSucceeds _ => exact h
  | mainFails _ => exact (h.rollBack _).release _
  | extraSucceeds _ => exact h
  | extraFails hinit => exact absurd rfl (hok _ _ _ hinit)
  | overlayUnregister _ => exact h.overlayUnregister _
  | findByName => exact h.findByName _ _ _

theorem exact_of_reachable
    (h : ((registryMachine core).restrict ExtraInitSucceeds).Reachable d) :
    d.Exact := by
  refine Machine.Reachable.invariant ?_ ?_ h
  · rintro d rfl
    exact exact_locComponentsReset
  · exact fun d op d' hd hstep => hd.step hstep.1 hstep.2

/-! ## Lookups -/

/-- Every entry is used or unused as a whole, and lookups find the registered
components. -/
structure Dsp.Resolves (d : Dsp) : Prop where
  id : ∀ i, (d.table i).componentId = 0 ∨ (d.table i).componentId = idOf i
  used : ∀ i, (d.table i).componentId ≠ 0 →
    (d.table i).hasExec = true ∧ 1 ≤ (d.table i).refCount
  unused : ∀ i, (d.table i).componentId = 0 → (d.table i).hasExec = false
  byId : ∀ id i, locComponentFindById id d.table = some i ↔
    id = idOf i ∧ (d.registered i).isSome
  byName : ∀ core name i,
    locComponentFindByName core name d.table = some (.overlay i) →
      ∃ r, d.registered i = some r ∧ r.name = name
  byName_none : ∀ core name,
    locComponentFindByName core name d.table = none →
      ∀ i r, d.registered i = some r → r.name ≠ name

theorem locComponentFindById_eq_some_iff {id : ℕ} {t : Table} :
    locComponentFindById id t = some i ↔
      id = idOf i ∧ (t i).hasExec = true := by
  have hi := i.isLt
  unfold locComponentFindById idOf
  constructor
  · intro h
    dsimp only at h
    split_ifs at h with hrange hexec
    obtain rfl := Option.some.inj h
    exact ⟨by show id = _ + (id - _); omega, hexec⟩
  · rintro ⟨rfl, hexec⟩
    have hidx : (⟨mlbMaxCoreComponents + i - mlbMaxCoreComponents, by omega⟩ :
        Fin mlbMaxOverlayComponents) = i := Fin.ext (by simp)
    rw [dif_pos ⟨by omega, by omega⟩]
    simp only [hidx]
    rw [if_pos hexec]

theorem Dsp.Exact.resolves (h : d.Exact) : d.Resolves where
  id i := by
    have hi := h i
    cases hr : d.registered i with
    | none => exact Or.inl (hr ▸ hi).1
    | some r => exact Or.inr (hr ▸ hi).1
  used i hid := by
    have hi := h i
    cases hr : d.registered i with
    | none => exact absurd (hr ▸ hi).1 hid
    | some r =>
        obtain ⟨-, hexec, href, hpos, -⟩ := hr ▸ hi
        exact ⟨hexec, by omega⟩
  unused i hid := by
    have hi := h i
    cases hr : d.registered i with
    | none => exact (hr ▸ hi).2
    | some r => exact absurd ((hr ▸ hi).1.symm.trans hid) (idOf_ne_zero i)
  byId id i := by
    rw [locComponentFindById_eq_some_iff, (h i).hasExec_iff]
  byName core name i hfound := by
    have hi := h i
    cases hr : d.registered i with
    | none => exact absurd (hr ▸ hi).1 (componentId_of_found hfound)
    | some r =>
        obtain ⟨-, -, -, -, hname, -⟩ := hr ▸ hi
        exact ⟨r, rfl, hname.symm.trans (name_of_found hfound)⟩
  byName_none core name hnone i r hr := by
    have hi := h i
    rw [hr] at hi
    obtain ⟨hid, -, -, -, hname, -⟩ := hi
    rw [← hname]
    exact name_ne_of_notFound hnone (hid ▸ idOf_ne_zero i)

/-- As long as the components that others register do not fail, the registry
resolves what is registered. -/
theorem resolves_of_extraInitSucceeds (core : ℕ → Option ℕ) (d : Dsp)
    (h : ((registryMachine core).restrict ExtraInitSucceeds).Reachable d) :
    d.Resolves :=
  (exact_of_reachable h).resolves

/-- An overlay with two components is registered, the second is looked up, and
an overlay whose `init` function fails is rolled back. -/
def registryRun : List RegistryOp :=
  [.overlayRegister 0 1, .componentRegister (some ⟨2, true⟩) 0,
    .initReturns true, .componentRegister none 0, .initReturns true,
    .findByName 2 true, .overlayRegister 4 3,
    .componentRegister (some ⟨5, true⟩) 4, .initReturns true,
    .initReturns false, .overlayUnregister 0]

instance (d : Dsp) (op : RegistryOp) : Decidable (ExtraInitSucceeds d op) :=
  match h : d.init with
  | .extra j i s =>
      if hop : op = .initReturns false then
        .isFalse fun hok => hok j i s h hop
      else .isTrue fun _ _ _ _ => hop
  | .none => .isTrue fun _ _ _ h' => by rw [h] at h'; cases h'
  | .main i s => .isTrue fun _ _ _ h' => by rw [h] at h'; cases h'

theorem registryRun_resolves :
    ∃ d, ((registryMachine fun _ => none).restrict
        ExtraInitSucceeds).Reachable d ∧
      (d.table 1).componentId = 17 ∧ d.Resolves := by
  have hrun : ∃ d, ((registryMachine fun _ => none).restrict
      ExtraInitSucceeds).Reachable d ∧ (d.table 1).componentId = 17 :=
    Machine.exists_restrict_reachable_of_run
      (fun d : Dsp => (d.table 1).componentId = 17) registryRun
      (by decide +kernel)
  obtain ⟨d, hd, hid⟩ := hrun
  exact ⟨d, hd, hid, resolves_of_extraInitSucceeds _ d hd⟩

/-- A component whose `init` function has failed is still called. -/
theorem failed_extra_not_resolves :
    ∃ d, (registryMachine fun _ => none).Reachable d ∧ ¬ d.Resolves := by
  have hrun : ∃ d, (registryMachine fun _ => none).Reachable d ∧
      (d.table 1).componentId = 0 ∧ (d.table 1).hasExec = true :=
    Machine.exists_reachable_of_run
      (fun d : Dsp => (d.table 1).componentId = 0 ∧
        (d.table 1).hasExec = true)
      [.overlayRegister 0 1, .componentRegister (some ⟨2, true⟩) 0,
        .initReturns false, .initReturns true] (by decide +kernel)
  obtain ⟨d, hd, hid, hexec⟩ := hrun
  refine ⟨d, hd, fun h => ?_⟩
  have := h.unused 1 hid
  rw [hexec] at this
  cases this

/-- Whenever such an `init` function fails, an entry is left behind that is
found by its id. -/
theorem Dsp.Exact.not_resolves_of_extraFails (h : d.Exact)
    (hinit : d.init = .extra j i s) (hj : (d.registered j).isSome)
    (hnext : registryNext core d (.initReturns false) = some d') :
    ¬ d'.Resolves := by
  have hexec := (h j).hasExec_iff.mpr hj
  intro hd'
  cases registryStep_of_next hnext with
  | mainFails hmain => rw [hinit] at hmain; cases hmain
  | extraFails hextra =>
      obtain ⟨rfl, rfl, rfl⟩ := InitCall.extra.inj (hinit.symm.trans hextra)
      have hunused := hd'.unused j (by
        show (Function.update d.table j _ j).componentId = 0
        rw [Function.update_self])
      have hkept : (Function.update d.table j
          { d.table j with componentId := 0 } j).hasExec = true := by
        rw [Function.update_self]
        exact hexec
      exact absurd (hkept.symm.trans hunused) (by decide)

/-! ## Registrations as a whole -/

theorem componentRegister_of_free {name : ℕ}
    (hfree : firstUnused d.table = some j) :
    componentRegister (some ⟨name, true⟩) s i s d =
      { d.enter j s name with init := .extra j i s } := by
  unfold componentRegister
  rw [dif_pos s.isLt]
  dsimp only
  rw [if_pos rfl, hfree]

theorem table_rollBackExtra_enter {name : ℕ} :
    ((d.enter j s name).rollBackExtra j).table =
      Function.update d.table j ⟨name, 0, s, 1, true⟩ := by
  simp only [Dsp.rollBackExtra, Dsp.enter, Function.update_idem,
    Function.update_self]

theorem reachable_extra (e : Extra)
    (hd : (registryMachine core).Reachable d) (hinit : d.init = .main i s) :
    ∃ d', (registryMachine core).Reachable d' ∧ d'.init = .main i s ∧
      d'.table = mlbSyscallComponentRegister s d.table e := by
  unfold mlbSyscallComponentRegister
  cases hfree : firstUnused d.table with
  | none => exact ⟨d, hd, hinit, rfl⟩
  | some j =>
      have hcall : (registryMachine core).Reachable
          { d.enter j s e.name with init := .extra j i s } := by
        refine Machine.Reachable.step hd (e := .componentRegister
          (some ⟨e.name, true⟩) s) ?_
        show registryNext core d _ = _
        simp only [registryNext, hinit, componentRegister_of_free hfree]
      cases he : e.initOk with
      | true =>
          exact ⟨_, Machine.Reachable.step hcall (e := .initReturns true) rfl,
            rfl, rfl⟩
      | false =>
          exact ⟨_, Machine.Reachable.step hcall (e := .initReturns false)
            rfl, rfl, table_rollBackExtra_enter⟩

theorem reachable_extras (extras : List Extra)
    (hd : (registryMachine core).Reachable d) (hinit : d.init = .main i s) :
    ∃ d', (registryMachine core).Reachable d' ∧ d'.init = .main i s ∧
      d'.table = extras.foldl (mlbSyscallComponentRegister s) d.table := by
  induction extras generalizing d with
  | nil => exact ⟨d, hd, hinit, rfl⟩
  | cons e extras ih =>
      obtain ⟨d₁, hd₁, hinit₁, ht₁⟩ := reachable_extra e hd hinit
      obtain ⟨d₂, hd₂, hinit₂, ht₂⟩ := ih hd₁ hinit₁
      exact ⟨d₂, hd₂, hinit₂, by rw [ht₂, ht₁, List.foldl_cons]⟩

/-- Registering an overlay all at once does what a run of the registry does. -/
theorem reachable_locMlbOverlayRegister (image : Image) (s : Section)
    (hd : (registryMachine core).Reachable d) (hinit : d.init = .none) :
    ∃ d', (registryMachine core).Reachable d' ∧ d'.init = .none ∧
      d'.table = (locMlbOverlayRegister image s d.table).2 := by
  unfold locMlbOverlayRegister
  cases hfree : firstUnused d.table with
  | none => exact ⟨d, hd, hinit, rfl⟩
  | some i =>
      have hcall : (registryMachine core).Reachable
          { d.enter i s image.name with init := .main i s } := by
        refine Machine.Reachable.step hd (e := .overlayRegister s image.name)
          ?_
        show registryNext core d _ = _
        simp only [registryNext, hinit, overlayRegister, dif_pos s.isLt,
          hfree, Fin.eta]
      obtain ⟨d₁, hd₁, hinit₁, ht₁⟩ :=
        reachable_extras (s := s) image.extras hcall rfl
      have hret : ∀ ok, registryNext core d₁ (.initReturns ok) =
          if ok then some { d₁ with init := .none }
          else some { (d₁.rollBack i).release s with init := .none } := by
        intro ok
        rw [registryNext, hinit₁]
      cases hok : image.initOk with
      | true =>
          exact ⟨_, Machine.Reachable.step hd₁ (hret true), rfl, ht₁⟩
      | false =>
          refine ⟨_, Machine.Reachable.step hd₁ (hret false), rfl, ?_⟩
          show locMlbOverlayUnregister s (Overlay.putBack i d₁.table) = _
          rw [ht₁]
          rfl

end C64Tools.Overlay
