import C64Tools.Overlay.Resolution

/-!
# The syscall that registers a component

`mlb_component_register` is called by the `init` functions of overlays.  Here
it is a function of the component table, with all that a component consists
of.  Its result is an error code, which is zero on success; its type says that
it is an `sBool`.
-/

namespace C64Tools.Overlay

open Kmod (Section mlbComNumSectionIndices)
open Transition

/-- `CORE_ERR_xxx`, as far as they come up when a component is registered. -/
inductive CoreErr where
  | ok
  | illSecIdx
  | comAllUsed
  | comInit
  | noExec
  | nullPtr
  deriving DecidableEq, Repr

def CoreErr.code : CoreErr → ℕ
  | .ok => 0
  | .illSecIdx => 4
  | .comAllUsed => 5
  | .comInit => 6
  | .noExec => 7
  | .nullPtr => 8

/-- The error code as an `sBool`: whether a caller takes it as true. -/
def CoreErr.sBool (e : CoreErr) : Bool := e.code ≠ 0

/-- The addresses of the functions of a component.  A null pointer is `0`. -/
structure Fxns where
  init : ℕ
  exec : ℕ
  execFc : ℕ
  exit : ℕ
  deriving DecidableEq, Repr

/-- `dsp_component_t`. -/
structure DspComponent where
  fxns : Fxns
  name : ℕ
  componentId : ℕ
  overlaySectionIdx : Section
  refCount : ℤ
  deriving DecidableEq, Repr

/-- The entry of the registry. -/
def DspComponent.entry (comp : DspComponent) : Component where
  name := comp.name
  componentId := comp.componentId
  overlaySectionIdx := comp.overlaySectionIdx
  refCount := comp.refCount
  hasExec := comp.fxns.exec ≠ 0

/-- The overlay part of the `components` array. -/
abbrev Slots := Fin mlbMaxOverlayComponents → DspComponent

/-- What the registry knows of the array. -/
def Slots.table (t : Slots) : Table := fun i => (t i).entry

/-- What an `init` function does that registers nothing: the components that it
looks up, with or without taking a reference, and what it returns. -/
structure InitRun where
  finds : List (ℕ × Bool)
  ok : Bool
  deriving DecidableEq, Repr

/-- `mlb_component_find_by_name`. -/
def mlbComponentFindByName (core : ℕ → Option ℕ) (t : Slots)
    (find : ℕ × Bool) : Slots :=
  match locComponentFindByName core find.1 t.table with
  | some (.overlay i) =>
      if find.2 then
        Function.update t i { t i with refCount := (t i).refCount + 1 }
      else t
  | _ => t

/-- The `init` function is called if there is one; `code` says what the
functions do. -/
def DspComponent.runInit (core : ℕ → Option ℕ) (code : ℕ → InitRun)
    (comp : DspComponent) (t : Slots) : Bool × Slots :=
  if comp.fxns.init ≠ 0 then
    ((code comp.fxns.init).ok,
      (code comp.fxns.init).finds.foldl (mlbComponentFindByName core) t)
  else (true, t)

namespace Slots

/-- A component is copied to an unused entry. -/
def enter (i : Fin mlbMaxOverlayComponents) (s : Section)
    (comp : DspComponent) (t : Slots) : Slots :=
  Function.update t i
    { comp with
      componentId := idOf i
      overlaySectionIdx := s
      refCount := 1 }

/-- The `init` function has failed. -/
def rollBack (i : Fin mlbMaxOverlayComponents) (t : Slots) : Slots :=
  Function.update t i { t i with componentId := 0 }

end Slots

/-- `mlb_syscall_component_register`. -/
def mlbComponentRegister (core : ℕ → Option ℕ) (code : ℕ → InitRun)
    (component : Option DspComponent) (sectionIdx : ℕ) (t : Slots) :
    CoreErr × Slots :=
  if h : sectionIdx < mlbComNumSectionIndices then
    match component with
    | some comp =>
        if comp.fxns.exec ≠ 0 then
          match firstUnused t.table with
          | some i =>
              let r := comp.runInit core code (t.enter i ⟨sectionIdx, h⟩ comp)
              if r.1 then (.ok, r.2) else (.comInit, r.2.rollBack i)
          | none => (.comAllUsed, t)
        else (.noExec, t)
    | none => (.nullPtr, t)
  else (.illSecIdx, t)

/-- `loc_component_find_by_id`, on the whole array; `coreExec` tells which
components of the core image have an `exec` function. -/
def findById (coreExec : ℕ → Bool) (id : ℕ) (t : Table) : Option Found :=
  if id < mlbMaxCoreComponents then
    if coreExec id then some (.core id) else none
  else (locComponentFindById id t).map .overlay

/-! ## What the syscall does -/

/-- The exits of the syscall, one by one. -/
inductive Registering (core : ℕ → Option ℕ) (code : ℕ → InitRun)
    (component : Option DspComponent) (sectionIdx : ℕ) (t : Slots) :
    CoreErr × Slots → Prop
  | illSecIdx : mlbComNumSectionIndices ≤ sectionIdx →
      Registering core code component sectionIdx t (.illSecIdx, t)
  | nullPtr : component = none →
      Registering core code component sectionIdx t (.nullPtr, t)
  | noExec {comp : DspComponent} : component = some comp →
      comp.fxns.exec = 0 →
      Registering core code component sectionIdx t (.noExec, t)
  | comAllUsed : firstUnused t.table = none →
      Registering core code component sectionIdx t (.comAllUsed, t)
  | comInit {comp : DspComponent} {s : Section}
      {i : Fin mlbMaxOverlayComponents} : component = some comp →
      sectionIdx = s → comp.fxns.exec ≠ 0 → firstUnused t.table = some i →
      (comp.runInit core code (t.enter i s comp)).1 = false →
      Registering core code component sectionIdx t
        (.comInit, (comp.runInit core code (t.enter i s comp)).2.rollBack i)
  | ok {comp : DspComponent} {s : Section}
      {i : Fin mlbMaxOverlayComponents} : component = some comp →
      sectionIdx = s → comp.fxns.exec ≠ 0 → firstUnused t.table = some i →
      (comp.runInit core code (t.enter i s comp)).1 = true →
      Registering core code component sectionIdx t
        (.ok, (comp.runInit core code (t.enter i s comp)).2)

theorem registering (core : ℕ → Option ℕ) (code : ℕ → InitRun)
    (component : Option DspComponent) (sectionIdx : ℕ) (t : Slots) :
    Registering core code component sectionIdx t
      (mlbComponentRegister core code component sectionIdx t) := by
  unfold mlbComponentRegister
  by_cases hs : sectionIdx < mlbComNumSectionIndices
  swap
  · rw [dif_neg hs]
    exact .illSecIdx (not_lt.mp hs)
  rw [dif_pos hs]
  cases component with
  | none => exact .nullPtr rfl
  | some comp =>
      dsimp only
      by_cases hexec : comp.fxns.exec ≠ 0
      swap
      · rw [if_neg hexec]
        exact .noExec rfl (not_not.mp hexec)
      rw [if_pos hexec]
      cases hfree : firstUnused t.table with
      | none => exact .comAllUsed hfree
      | some i =>
          dsimp only
          split_ifs with hok
          · exact .ok (s := ⟨sectionIdx, hs⟩) rfl rfl hexec hfree hok
          · exact .comInit (s := ⟨sectionIdx, hs⟩) rfl rfl hexec hfree
              (Bool.eq_false_of_not_eq_true hok)

/-! ## Result and lookups -/

/-- An entry is in use or unused in its id and its `exec` function at once. -/
def Slots.Conventional (t : Slots) : Prop :=
  ∀ i, (t i).componentId = 0 ∧ (t i).fxns.exec = 0 ∨
    (t i).componentId = idOf i ∧ (t i).fxns.exec ≠ 0

/-- The component is registered for the section. -/
def Registered (component : Option DspComponent) (sectionIdx : ℕ)
    (t : Slots) : Prop :=
  ∃ comp ∈ component, ∃ i, (t i).componentId ≠ 0 ∧
    (t i).fxns = comp.fxns ∧ (t i).name = comp.name ∧
    (t i).overlaySectionIdx = sectionIdx

/-- The component has an `init` function that fails. -/
def InitFails (code : ℕ → InitRun) (component : Option DspComponent) : Prop :=
  ∃ comp ∈ component, comp.fxns.init ≠ 0 ∧ (code comp.fxns.init).ok = false

/-- The lookups answer the same for every id and name. -/
structure SameAnswers (core : ℕ → Option ℕ) (coreExec : ℕ → Bool)
    (t t' : Slots) : Prop where
  byId : ∀ id, findById coreExec id t'.table = findById coreExec id t.table
  byName : ∀ name, locComponentFindByName core name t'.table =
    locComponentFindByName core name t.table

/-- The result is true if and only if the component is registered afterwards,
and if it reports failure, then the lookups answer as before. -/
structure Truthful (failure : CoreErr → Prop) (core : ℕ → Option ℕ)
    (coreExec : ℕ → Bool) (code : ℕ → InitRun)
    (component : Option DspComponent) (sectionIdx : ℕ) (t : Slots) : Prop where
  returns :
    (mlbComponentRegister core code component sectionIdx t).1.sBool = true ↔
      Registered component sectionIdx
        (mlbComponentRegister core code component sectionIdx t).2
  unchanged :
    failure (mlbComponentRegister core code component sectionIdx t).1 →
      SameAnswers core coreExec t
        (mlbComponentRegister core code component sectionIdx t).2

variable {core : ℕ → Option ℕ} {coreExec : ℕ → Bool} {code : ℕ → InitRun}
  {component : Option DspComponent} {comp : DspComponent} {sectionIdx : ℕ}
  {s : Section} {t t' t'' : Slots} {i j : Fin mlbMaxOverlayComponents}

theorem CoreErr.sBool_iff {e : CoreErr} : e.sBool = true ↔ e ≠ .ok := by
  cases e <;> decide

/-! ## What an `init` function leaves as it is -/

/-- Only references are taken. -/
def SameButRefs (t t' : Slots) : Prop :=
  ∀ i, ∃ n, t' i = { t i with refCount := n }

theorem SameButRefs.refl (t : Slots) : SameButRefs t t :=
  fun _ => ⟨_, rfl⟩

theorem SameButRefs.trans (h : SameButRefs t t') (h' : SameButRefs t' t'') :
    SameButRefs t t'' := by
  intro i
  obtain ⟨n, hn⟩ := h i
  obtain ⟨n', hn'⟩ := h' i
  exact ⟨n', by rw [hn', hn]⟩

theorem sameButRefs_find (core : ℕ → Option ℕ) (t : Slots)
    (find : ℕ × Bool) : SameButRefs t (mlbComponentFindByName core t find) := by
  unfold mlbComponentFindByName
  split
  · split_ifs
    · rename_i i _ _
      intro j
      by_cases hj : j = i
      · subst hj
        rw [Function.update_self]
        exact ⟨_, rfl⟩
      · rw [Function.update_of_ne hj]
        exact ⟨_, rfl⟩
    · exact .refl t
  · exact .refl t

theorem sameButRefs_finds (core : ℕ → Option ℕ) (finds : List (ℕ × Bool))
    (t : Slots) :
    SameButRefs t (finds.foldl (mlbComponentFindByName core) t) := by
  induction finds generalizing t with
  | nil => exact .refl t
  | cons find finds ih => exact (sameButRefs_find core t find).trans (ih _)

theorem sameButRefs_runInit (core : ℕ → Option ℕ) (code : ℕ → InitRun)
    (comp : DspComponent) (t : Slots) :
    SameButRefs t (comp.runInit core code t).2 := by
  unfold DspComponent.runInit
  split_ifs
  · exact sameButRefs_finds core _ t
  · exact .refl t

/-- The entry that the component was copied to, when `init` has returned. -/
theorem entered_runInit (core : ℕ → Option ℕ) (code : ℕ → InitRun)
    (comp : DspComponent) (i : Fin mlbMaxOverlayComponents) (s : Section)
    (t : Slots) : ∃ n, (comp.runInit core code (t.enter i s comp)).2 i =
      { comp with
        componentId := idOf i
        overlaySectionIdx := s
        refCount := n } := by
  obtain ⟨n, hn⟩ := sameButRefs_runInit core code comp (t.enter i s comp) i
  refine ⟨n, ?_⟩
  rw [hn, Slots.enter, Function.update_self]

theorem runInit_of_ne (core : ℕ → Option ℕ) (code : ℕ → InitRun)
    (comp : DspComponent) (s : Section) (t : Slots) (hj : j ≠ i) :
    ∃ n, (comp.runInit core code (t.enter i s comp)).2 j =
      { t j with refCount := n } := by
  obtain ⟨n, hn⟩ := sameButRefs_runInit core code comp (t.enter i s comp) j
  refine ⟨n, ?_⟩
  rw [hn, Slots.enter, Function.update_of_ne hj]

/-! ## A registration that fails -/

/-- The entries in use are the same, but for the references. -/
def SameUsed (t t' : Slots) : Prop :=
  ∀ j, (t' j).componentId = (t j).componentId ∧
    ((t j).componentId ≠ 0 → ∃ n, t' j = { t j with refCount := n })

theorem SameUsed.refl (t : Slots) : SameUsed t t :=
  fun _ => ⟨rfl, fun _ => ⟨_, rfl⟩⟩

theorem SameUsed.registered_iff (h : SameUsed t t') :
    Registered component sectionIdx t' ↔ Registered component sectionIdx t := by
  constructor
  · rintro ⟨comp, hcomp, i, hid, hrest⟩
    obtain ⟨hsame, hkept⟩ := h i
    rw [hsame] at hid
    obtain ⟨n, hn⟩ := hkept hid
    rw [hn] at hrest
    exact ⟨comp, hcomp, i, hid, hrest⟩
  · rintro ⟨comp, hcomp, i, hid, hrest⟩
    obtain ⟨hsame, hkept⟩ := h i
    obtain ⟨n, hn⟩ := hkept hid
    refine ⟨comp, hcomp, i, hsame ▸ hid, ?_⟩
    rw [hn]
    exact hrest

theorem SameUsed.findByName (h : SameUsed t t') (core : ℕ → Option ℕ)
    (name : ℕ) : locComponentFindByName core name t'.table =
      locComponentFindByName core name t.table := by
  have hmatch : ∀ i,
      ((t'.table i).componentId ≠ 0 ∧ (t'.table i).name = name) ↔
        ((t.table i).componentId ≠ 0 ∧ (t.table i).name = name) := by
    intro i
    obtain ⟨hsame, hkept⟩ := h i
    show ((t' i).componentId ≠ 0 ∧ (t' i).name = name) ↔
      ((t i).componentId ≠ 0 ∧ (t i).name = name)
    rw [hsame]
    refine and_congr_right fun hid => ?_
    obtain ⟨n, hn⟩ := hkept hid
    rw [hn]
  unfold locComponentFindByName
  simp only [hmatch]

theorem sameUsed_rollBack (core : ℕ → Option ℕ) (code : ℕ → InitRun)
    (comp : DspComponent) (s : Section)
    (hfree : firstUnused t.table = some i) :
    SameUsed t ((comp.runInit core code (t.enter i s comp)).2.rollBack i) := by
  have hunused : (t i).componentId = 0 := componentId_of_firstUnused hfree
  intro j
  unfold Slots.rollBack
  by_cases hj : j = i
  · subst hj
    rw [Function.update_self]
    exact ⟨hunused.symm, fun hid => absurd hunused hid⟩
  · obtain ⟨n, hn⟩ := runInit_of_ne core code comp s t hj
    rw [Function.update_of_ne hj, hn]
    exact ⟨rfl, fun _ => ⟨n, rfl⟩⟩

theorem findById_idOf (coreExec : ℕ → Bool) (i : Fin mlbMaxOverlayComponents)
    (t : Slots) : findById coreExec (idOf i) t.table = some (.overlay i) ↔
      (t i).fxns.exec ≠ 0 := by
  have hid : ¬ idOf i < mlbMaxCoreComponents := by
    unfold idOf
    omega
  unfold findById
  rw [if_neg hid, Option.map_eq_some_iff]
  constructor
  · rintro ⟨j, hj, hji⟩
    obtain rfl := Found.overlay.inj hji
    exact of_decide_eq_true (locComponentFindById_eq_some_iff.mp hj).2
  · intro hexec
    exact ⟨i, locComponentFindById_eq_some_iff.mpr
      ⟨rfl, decide_eq_true hexec⟩, rfl⟩

theorem Slots.Conventional.exec_eq_zero (h : t.Conventional)
    (hid : (t i).componentId = 0) : (t i).fxns.exec = 0 := by
  obtain ⟨-, hexec⟩ | ⟨hused, -⟩ := h i
  · exact hexec
  · exact absurd (hused.symm.trans hid) (idOf_ne_zero i)

theorem Slots.Conventional.exec_ne_zero (h : t.Conventional)
    (hid : (t i).componentId ≠ 0) : (t i).fxns.exec ≠ 0 := by
  obtain ⟨hunused, -⟩ | ⟨-, hexec⟩ := h i
  · exact absurd hunused hid
  · exact hexec

/-- The entry of a component whose `init` function has failed is found by its
id. -/
theorem not_sameAnswers_rollBack (h : t.Conventional)
    (hexec : comp.fxns.exec ≠ 0) (hfree : firstUnused t.table = some i) :
    ¬ SameAnswers core coreExec t
      ((comp.runInit core code (t.enter i s comp)).2.rollBack i) := by
  intro hsame
  have hunused : (t i).componentId = 0 := componentId_of_firstUnused hfree
  have hfound : findById coreExec (idOf i)
      ((comp.runInit core code (t.enter i s comp)).2.rollBack i).table =
        some (.overlay i) := by
    rw [findById_idOf]
    obtain ⟨n, hn⟩ := entered_runInit core code comp i s t
    rw [Slots.rollBack, Function.update_self, hn]
    exact hexec
  rw [hsame.byId, findById_idOf] at hfound
  exact hfound (h.exec_eq_zero hunused)

/-! ## The syscall in a run of the registry -/

theorem table_update (t : Slots) (i : Fin mlbMaxOverlayComponents)
    (comp : DspComponent) : Slots.table (Function.update t i comp) =
      Function.update t.table i comp.entry :=
  Function.comp_update ..

variable {d : Dsp} {k : Fin mlbMaxOverlayComponents} {s' : Section}

theorem conventional_of_exact (h : d.Exact) (ht : d.table = t.table) :
    t.Conventional := by
  intro i
  have hi := h i
  rw [ht] at hi
  cases hr : d.registered i with
  | none =>
      rw [hr] at hi
      exact Or.inl ⟨hi.1, not_not.mp (of_decide_eq_false hi.2)⟩
  | some r =>
      rw [hr] at hi
      exact Or.inr ⟨hi.1, of_decide_eq_true hi.2.1⟩

theorem table_find (find : ℕ × Bool) (ht : d.table = t.table) :
    (findByName core find.1 find.2 d).table =
      (mlbComponentFindByName core t find).table := by
  unfold findByName mlbComponentFindByName
  rw [ht]
  cases locComponentFindByName core find.1 t.table with
  | none => exact ht
  | some found =>
      cases found with
      | core id => exact ht
      | overlay i =>
          dsimp only
          split_ifs
          · rw [table_update]
            show incRef i d.table = _
            rw [ht]
            rfl
          · exact ht

theorem reachable_finds (finds : List (ℕ × Bool))
    (hd : (registryMachine core).Reachable d) (ht : d.table = t.table) :
    ∃ d', (registryMachine core).Reachable d' ∧ d'.init = d.init ∧
      d'.table = (finds.foldl (mlbComponentFindByName core) t).table := by
  induction finds generalizing d t with
  | nil => exact ⟨d, hd, rfl, ht⟩
  | cons find finds ih =>
      have hfind : (registryMachine core).Reachable
          (findByName core find.1 find.2 d) :=
        Machine.Reachable.step hd (e := .findByName find.1 find.2) rfl
      obtain ⟨d', hd', hinit, htable⟩ := ih hfind (table_find find ht)
      refine ⟨d', hd', hinit.trans ?_, htable⟩
      unfold findByName
      split
      · split_ifs <;> rfl
      · rfl

/-- The `init` function of a component that has been entered runs. -/
theorem reachable_runInit (code : ℕ → InitRun) (comp : DspComponent)
    (hd : (registryMachine core).Reachable d) (ht : d.table = t.table) :
    ∃ d', (registryMachine core).Reachable d' ∧ d'.init = d.init ∧
      d'.table = (comp.runInit core code t).2.table := by
  unfold DspComponent.runInit
  split_ifs
  · exact reachable_finds _ hd ht
  · exact ⟨d, hd, rfl, ht⟩

/-- When the `init` function of an overlay makes the syscall, the registry
takes these steps. -/
theorem reachable_mlbComponentRegister (code : ℕ → InitRun)
    (component : Option DspComponent) (sectionIdx : ℕ)
    (hd : (registryMachine core).Reachable d) (hinit : d.init = .main k s')
    (ht : d.table = t.table) :
    ∃ d', (registryMachine core).Reachable d' ∧ d'.init = .main k s' ∧
      d'.table =
        (mlbComponentRegister core code component sectionIdx t).2.table := by
  have hcases := registering core code component sectionIdx t
  generalize mlbComponentRegister core code component sectionIdx t = r
    at hcases
  have hentered : ∀ (comp : DspComponent) (s : Section)
      (i : Fin mlbMaxOverlayComponents), comp.fxns.exec ≠ 0 →
      firstUnused t.table = some i →
      ∃ d', (registryMachine core).Reachable d' ∧ d'.init = .extra i k s' ∧
        d'.table = (comp.runInit core code (t.enter i s comp)).2.table := by
    intro comp s i hexec hfree
    have hcall : (registryMachine core).Reachable
        { d.enter i s comp.name with init := .extra i k s' } := by
      refine Machine.Reachable.step hd (e := .componentRegister
        (some ⟨comp.name, true⟩) s) ?_
      show registryNext core d _ = _
      rw [← ht] at hfree
      simp only [registryNext, hinit, componentRegister, dif_pos s.isLt, hfree,
        if_true, Fin.eta]
    have htable : (d.enter i s comp.name).table = (t.enter i s comp).table := by
      rw [Slots.enter, table_update, Dsp.enter, ht]
      simp only [DspComponent.entry, hexec, ne_eq, not_false_eq_true,
        decide_true]
    exact reachable_runInit code comp hcall htable
  cases hcases with
  | illSecIdx | nullPtr | noExec | comAllUsed => exact ⟨d, hd, hinit, ht⟩
  | @comInit comp s i _ _ hexec hfree _ =>
      obtain ⟨d', hd', hinit', htable⟩ := hentered comp s i hexec hfree
      refine ⟨{ d'.rollBackExtra i with init := .main k s' },
        Machine.Reachable.step hd' (e := .initReturns false) ?_, rfl, ?_⟩
      · show registryNext core d' _ = _
        simp only [registryNext, hinit', Bool.false_eq_true, if_false]
      · show Function.update d'.table i { d'.table i with componentId := 0 } = _
        rw [Slots.rollBack, table_update, htable]
        rfl
  | @ok comp s i _ _ hexec hfree _ =>
      obtain ⟨d', hd', hinit', htable⟩ := hentered comp s i hexec hfree
      refine ⟨{ d' with init := .main k s' },
        Machine.Reachable.step hd' (e := .initReturns true) ?_, rfl, htable⟩
      show registryNext core d' _ = _
      simp only [registryNext, hinit', if_true]

/-! ## When the result is truthful -/

theorem runInit_eq_false_iff :
    (comp.runInit core code t).1 = false ↔ InitFails code (some comp) := by
  have hmem : InitFails code (some comp) ↔
      comp.fxns.init ≠ 0 ∧ (code comp.fxns.init).ok = false :=
    ⟨fun ⟨_, hcomp, h⟩ => Option.some.inj hcomp ▸ h, fun h => ⟨comp, rfl, h⟩⟩
  rw [hmem]
  unfold DspComponent.runInit
  split_ifs with hinit
  · exact (and_iff_right hinit).symm
  · exact iff_of_false not_false fun h => hinit h.1

/-- Only a component that could be called is registered. -/
theorem Registered.exec_ne_zero (h : Registered (some comp) sectionIdx t)
    (ht : t.Conventional) : comp.fxns.exec ≠ 0 := by
  obtain ⟨_, hcomp, i, hid, hfxns, -⟩ := h
  obtain rfl := Option.some.inj hcomp
  rw [← hfxns]
  exact ht.exec_ne_zero hid

theorem Registered.lt (h : Registered component sectionIdx t) :
    sectionIdx < mlbComNumSectionIndices := by
  obtain ⟨_, -, i, -, -, -, hs⟩ := h
  rw [← hs]
  exact (t i).overlaySectionIdx.isLt

theorem registered_of_runInit (hcomp : component = some comp)
    (hs : sectionIdx = s) : Registered component sectionIdx
      (comp.runInit core code (t.enter i s comp)).2 := by
  obtain ⟨n, hn⟩ := entered_runInit core code comp i s t
  refine ⟨comp, hcomp, i, ?_, ?_⟩
  · rw [hn]
    exact idOf_ne_zero i
  · rw [hn]
    exact ⟨rfl, rfl, hs.symm⟩

/-- An error is taken as true. -/
theorem not_truthful_of_not_registered {e : CoreErr} {same cannot : Prop}
    (he : e ≠ .ok) (hnot : ¬ Registered component sectionIdx t) :
    ((e ≠ .ok ↔ Registered component sectionIdx t) ∧ same) ↔
      Registered component sectionIdx t ∧ cannot :=
  iff_of_false (fun h => hnot (h.1.mp he)) fun h => hnot h.1

/-- What follows for each exit. -/
theorem Registering.truthful_iff {r : CoreErr × Slots}
    {failure : CoreErr → Prop}
    (h : Registering core code component sectionIdx t r)
    (ht : t.Conventional) :
    ((r.1 ≠ .ok ↔ Registered component sectionIdx r.2) ∧
        (failure r.1 → SameAnswers core coreExec t r.2)) ↔
      Registered component sectionIdx t ∧
        (firstUnused t.table = none ∨
          InitFails code component ∧ ¬ failure .comInit) := by
  cases h with
  | illSecIdx hs =>
      exact not_truthful_of_not_registered nofun fun h => hs.not_gt h.lt
  | nullPtr hnull =>
      refine not_truthful_of_not_registered nofun ?_
      rintro ⟨comp, hcomp, -⟩
      rw [hnull] at hcomp
      cases hcomp
  | noExec hcomp hexec =>
      refine not_truthful_of_not_registered nofun fun hreg => ?_
      rw [hcomp] at hreg
      exact hreg.exec_ne_zero ht hexec
  | comAllUsed hfree =>
      constructor
      · rintro ⟨hret, -⟩
        exact ⟨hret.mp nofun, Or.inl hfree⟩
      · rintro ⟨hreg, -⟩
        exact ⟨iff_of_true nofun hreg,
          fun _ => ⟨fun _ => rfl, fun _ => rfl⟩⟩
  | @comInit comp s i hcomp hs hexec hfree hinit =>
      have hused := sameUsed_rollBack core code comp s hfree
      have hfails : InitFails code component := by
        rw [hcomp]
        exact runInit_eq_false_iff.mp hinit
      rw [hused.registered_iff, hfree]
      constructor
      · rintro ⟨hret, hanswers⟩
        refine ⟨hret.mp nofun, Or.inr ⟨hfails, fun h => ?_⟩⟩
        exact not_sameAnswers_rollBack ht hexec hfree (hanswers h)
      · rintro ⟨hreg, hnone | ⟨-, hfailure⟩⟩
        · cases hnone
        · exact ⟨iff_of_true nofun hreg, fun h => absurd h hfailure⟩
  | @ok comp s i hcomp hs hexec hfree hinit =>
      have hreg : Registered component sectionIdx
          (comp.runInit core code (t.enter i s comp)).2 :=
        registered_of_runInit hcomp hs
      have hsucceeds : ¬ InitFails code component := by
        rw [hcomp, ← @runInit_eq_false_iff core code comp (t.enter i s comp),
          hinit]
        nofun
      rw [hfree]
      refine iff_of_false (fun h => h.1.mpr hreg rfl) ?_
      rintro ⟨-, hnone | ⟨hfails, -⟩⟩
      · cases hnone
      · exact hsucceeds hfails

/-- The result is truthful only if the component was registered before and now
cannot be: no entry is free, or its `init` function fails and one does not take
the error for a failure. -/
theorem mlbComponentRegister_truthful_iff (failure : CoreErr → Prop)
    (core : ℕ → Option ℕ) (coreExec : ℕ → Bool) (code : ℕ → InitRun)
    (component : Option DspComponent) (sectionIdx : ℕ) (t : Slots)
    (ht : t.Conventional) :
    Truthful failure core coreExec code component sectionIdx t ↔
      Registered component sectionIdx t ∧
        (firstUnused t.table = none ∨
          InitFails code component ∧ ¬ failure .comInit) := by
  rw [← (registering core code component sectionIdx t).truthful_iff ht,
    ← CoreErr.sBool_iff]
  exact ⟨fun h => ⟨h.returns, h.unchanged⟩, fun h => ⟨h.1, h.2⟩⟩

/-- No component is registered. -/
def Slots.unused : Slots := fun _ => ⟨⟨0, 0, 0, 0⟩, 0, 0, 0, 0⟩

/-- A component with an `exec` function at address `1`. -/
def oneComponent (init : ℕ) : DspComponent :=
  ⟨⟨init, 1, 0, 0⟩, 1, 0, 0, 0⟩

/-- It has been registered until no entry was free. -/
def Slots.full : Slots :=
  fun i => ⟨(oneComponent 0).fxns, 1, idOf i, 0, 1⟩

/-- Every `init` function fails. -/
def failingCode : ℕ → InitRun := fun _ => ⟨[], false⟩

theorem full_truthful :
    Truthful (· ≠ .ok) (fun _ => none) (fun _ => false) failingCode
      (some (oneComponent 0)) 0 Slots.full := by
  have hfull : Slots.full.Conventional :=
    fun _ => Or.inr ⟨rfl, Nat.one_ne_zero⟩
  have hregistered : Registered (some (oneComponent 0)) 0 Slots.full :=
    ⟨_, rfl, 0, by decide, rfl, rfl, rfl⟩
  exact (mlbComponentRegister_truthful_iff (· ≠ .ok) _ _ _ _ _ _ hfull).mpr
    ⟨hregistered, Or.inl (by decide)⟩

/-- A component that is registered is reported as `S_FALSE`.  One whose `init`
function fails is reported as true, and its entry is found by its id. -/
theorem register_not_truthful :
    Slots.unused.Conventional ∧
      (∀ failure, ¬ Truthful failure (fun _ => none) (fun _ => false)
        failingCode (some (oneComponent 0)) 0 Slots.unused) ∧
      (∀ failure, ¬ Truthful failure (fun _ => none) (fun _ => false)
        failingCode (some (oneComponent 1)) 0 Slots.unused) ∧
      findById (fun _ => false) 16 Slots.unused.table = none ∧
      findById (fun _ => false) 16 (mlbComponentRegister (fun _ => none)
        failingCode (some (oneComponent 1)) 0 Slots.unused).2.table =
          some (.overlay 0) := by
  refine ⟨fun i => Or.inl ⟨rfl, rfl⟩, fun failure h => ?_, fun failure h => ?_,
    by decide, by decide⟩
  · have hregistered : Registered (some (oneComponent 0)) 0
        (mlbComponentRegister (fun _ => none) failingCode
          (some (oneComponent 0)) 0 Slots.unused).2 :=
      ⟨_, rfl, 0, by decide, by decide, by decide, by decide⟩
    exact absurd (h.returns.mpr hregistered) (by decide)
  · obtain ⟨_, -, i, hid, -⟩ := h.returns.mp (by decide)
    revert hid i
    decide

end C64Tools.Overlay
