import C64Tools.Overlay.ComponentRegister

/-!
# Registering an overlay

`loc_mlb_overlay_register` copies the main component of an overlay to the
component table and calls its `init` function, which may register more
components of the overlay.  When `init` fails, the main component is put back
into the pool of free components, and the section is unregistered to remove the
others.
-/

namespace C64Tools.Overlay

open Kmod (Section mlbComNumSectionIndices)

/-- An overlay in memory: its main component, the calls that the `init`
function of this component makes of `mlb_component_register`, and what it
returns. -/
structure OverlayImage where
  main : DspComponent
  calls : List (Option DspComponent × ℕ)
  initOk : Bool
  deriving DecidableEq, Repr

/-- What `loc_mlb_overlay_unregister` does to an entry. -/
def DspComponent.unregister (sectionIdx : ℕ) (comp : DspComponent) :
    DspComponent :=
  if comp.componentId ≠ 0 ∧ sectionIdx = comp.overlaySectionIdx then
    if comp.refCount - 1 = 0 then
      { comp with
        refCount := comp.refCount - 1
        componentId := 0
        fxns := { comp.fxns with exec := 0 } }
    else { comp with refCount := comp.refCount - 1 }
  else comp

/-- The `exit` function, if there is one. -/
def Fxns.exitFunction (fxns : Fxns) : Option ℕ :=
  if fxns.exit ≠ 0 then some fxns.exit else none

/-- The function that `loc_mlb_overlay_unregister` calls for an entry. -/
def DspComponent.exitCalled (sectionIdx : ℕ) (comp : DspComponent) :
    Option ℕ :=
  if comp.componentId ≠ 0 ∧ sectionIdx = comp.overlaySectionIdx ∧
      comp.refCount - 1 = 0 then
    comp.fxns.exitFunction
  else none

/-- `loc_mlb_overlay_unregister`: its result, the `exit` functions that it
calls, and the table afterwards. -/
def mlbOverlayUnregister (sectionIdx : ℕ) (t : Slots) :
    CoreErr × List ℕ × Slots :=
  if sectionIdx < mlbComNumSectionIndices then
    (.ok,
      (List.finRange mlbMaxOverlayComponents).filterMap fun i =>
        (t i).exitCalled sectionIdx,
      fun i => (t i).unregister sectionIdx)
  else (.illSecIdx, [], t)

/-- Calls of `mlb_component_register`, one after the other. -/
def registerAll (core : ℕ → Option ℕ) (code : ℕ → InitRun) :
    List (Option DspComponent × ℕ) → Slots → List CoreErr × Slots
  | [], t => ([], t)
  | call :: calls, t =>
      let r := mlbComponentRegister core code call.1 call.2 t
      let rest := registerAll core code calls r.2
      (r.1 :: rest.1, rest.2)

/-- The `init` function of the main component is called if there is one. -/
def OverlayImage.runInit (core : ℕ → Option ℕ) (code : ℕ → InitRun)
    (image : OverlayImage) (t : Slots) : Bool × Slots :=
  if image.main.fxns.init ≠ 0 then
    (image.initOk, (registerAll core code image.calls t).2)
  else (true, t)

/-- An entry is put back into the pool of free components. -/
def Slots.putBack (i : Fin mlbMaxOverlayComponents) (t : Slots) : Slots :=
  Function.update t i
    { t i with componentId := 0, fxns := { (t i).fxns with exec := 0 } }

/-- What comes of `loc_mlb_overlay_register`. -/
structure OverlayRegistration where
  err : CoreErr
  mainComponentId : Option ℕ
  exits : List ℕ
  slots : Slots

/-- `loc_mlb_overlay_register`. -/
def mlbOverlayRegister (core : ℕ → Option ℕ) (code : ℕ → InitRun)
    (image : OverlayImage) (sectionIdx : ℕ) (t : Slots) :
    OverlayRegistration :=
  if h : sectionIdx < mlbComNumSectionIndices then
    match firstUnused t.table with
    | some i =>
        let r := image.runInit core code
          (t.enter i ⟨sectionIdx, h⟩ image.main)
        if r.1 then ⟨.ok, some (r.2 i).componentId, [], r.2⟩
        else
          let u := mlbOverlayUnregister sectionIdx (r.2.putBack i)
          ⟨.comInit, none, u.2.1, u.2.2⟩
    | none => ⟨.comAllUsed, none, [], t⟩
  else ⟨.illSecIdx, none, [], t⟩

/-! ## Failed registrations -/

/-- The unused entries, in the order in which they are taken. -/
def Slots.unusedEntries (t : Slots) : List (Fin mlbMaxOverlayComponents) :=
  (List.finRange mlbMaxOverlayComponents).filter fun i =>
    (t i).componentId = 0

/-- The `init` function of the main component registers components of the
section, all of them with success, and then it fails.  The `init` functions of
these components may look for components, but take no references. -/
structure RegistersThenFails (core : ℕ → Option ℕ) (code : ℕ → InitRun)
    (image : OverlayImage) (s : Section) (t : Slots) : Prop where
  hasInit : image.main.fxns.init ≠ 0
  fails : image.initOk = false
  forSection : ∀ call ∈ image.calls, call.2 = s
  noRefs : ∀ call ∈ image.calls, ∀ comp ∈ call.1,
    ∀ find ∈ (code comp.fxns.init).finds, find.2 = false
  succeed : ∀ i, firstUnused t.table = some i →
    ∀ e ∈ (registerAll core code image.calls (t.enter i s image.main)).1,
      e = .ok

/-- The components that `init` registers when it is called. -/
def OverlayImage.additional (image : OverlayImage) (t : Slots) :
    List DspComponent :=
  if firstUnused t.table = none then [] else image.calls.filterMap (·.1)

/-- The registration has failed and nothing of it is left. -/
structure Undone (core : ℕ → Option ℕ) (coreExec : ℕ → Bool) (s : Section)
    (additional : List DspComponent) (t : Slots) (r : OverlayRegistration) :
    Prop where
  error : r.err ≠ .ok
  answers : SameAnswers core coreExec t r.slots
  exits : r.exits.Perm (additional.filterMap (·.fxns.exitFunction))
  others : ∀ i, (t i).componentId ≠ 0 → (t i).overlaySectionIdx ≠ s →
    (r.slots i).refCount = (t i).refCount

variable {core : ℕ → Option ℕ} {coreExec : ℕ → Bool} {code : ℕ → InitRun}
  {image : OverlayImage} {comp : DspComponent} {comps : List DspComponent}
  {component : Option DspComponent} {calls : List (Option DspComponent × ℕ)}
  {s : Section} {t t' : Slots} {i j : Fin mlbMaxOverlayComponents}

/-! ## The entry of the registry -/

theorem entry_unregister (s : Section) (comp : DspComponent) :
    (comp.unregister s).entry = comp.entry.unregister s := by
  unfold DspComponent.unregister Component.unregister
  by_cases hs : comp.componentId ≠ 0 ∧ (s : ℕ) = comp.overlaySectionIdx
  · have hs' : comp.entry.componentId ≠ 0 ∧
        s = comp.entry.overlaySectionIdx := ⟨hs.1, Fin.ext hs.2⟩
    rw [if_pos hs, if_pos hs']
    by_cases hlast : comp.refCount - 1 = 0
    · have hlast' : comp.entry.refCount - 1 = 0 := hlast
      rw [if_pos hlast, if_pos hlast']
      rfl
    · have hlast' : ¬ comp.entry.refCount - 1 = 0 := hlast
      rw [if_neg hlast, if_neg hlast']
      rfl
  · have hs' : ¬ (comp.entry.componentId ≠ 0 ∧
        s = comp.entry.overlaySectionIdx) :=
      fun h => hs ⟨h.1, congrArg Fin.val h.2⟩
    rw [if_neg hs, if_neg hs']

/-- On the registry, this is `loc_mlb_overlay_unregister` as it was. -/
theorem table_unregister (s : Section) (t : Slots) :
    (mlbOverlayUnregister s t).2.2.table =
      locMlbOverlayUnregister s t.table := by
  unfold mlbOverlayUnregister
  rw [if_pos s.isLt]
  funext i
  exact entry_unregister s (t i)

/-! ## Unused entries -/

theorem mem_unusedEntries :
    i ∈ t.unusedEntries ↔ (t i).componentId = 0 := by
  unfold Slots.unusedEntries
  rw [List.mem_filter]
  exact ⟨fun h => of_decide_eq_true h.2,
    fun h => ⟨List.mem_finRange i, decide_eq_true h⟩⟩

theorem nodup_unusedEntries (t : Slots) : t.unusedEntries.Nodup :=
  (List.nodup_finRange _).filter _

theorem head_unusedEntries (t : Slots) :
    t.unusedEntries.head? = firstUnused t.table :=
  List.head?_filter

theorem unusedEntries_of_firstUnused (h : firstUnused t.table = some i) :
    ∃ rest, t.unusedEntries = i :: rest := by
  rw [← head_unusedEntries] at h
  exact List.head?_eq_some_iff.mp h

theorem unusedEntries_enter {rest : List (Fin mlbMaxOverlayComponents)}
    (h : t.unusedEntries = i :: rest) (s : Section) (comp : DspComponent) :
    (t.enter i s comp).unusedEntries = rest := by
  have hnodup := nodup_unusedEntries t
  rw [h, List.nodup_cons] at hnodup
  have hfilter : (t.enter i s comp).unusedEntries =
      t.unusedEntries.filter (· ≠ i) := by
    unfold Slots.unusedEntries Slots.enter
    rw [List.filter_filter]
    refine List.filter_congr fun j _ => ?_
    by_cases hj : j = i
    · subst hj
      rw [Function.update_self]
      simp [idOf_ne_zero]
    · rw [Function.update_of_ne hj]
      simp [hj]
  rw [hfilter, h, List.filter_cons_of_neg (by simp), List.filter_eq_self]
  intro j hj
  refine decide_eq_true fun hji => hnodup.1 ?_
  rwa [← hji]

/-! ## Components that are registered one after the other -/

/-- The components have been entered in the first unused entries. -/
structure Filled (s : Section) (comps : List DspComponent) (t t' : Slots) :
    Prop where
  fxns : (t.unusedEntries.take comps.length).map (fun i => (t' i).fxns) =
    comps.map (·.fxns)
  entered : ∀ i ∈ t.unusedEntries.take comps.length,
    (t' i).componentId ≠ 0 ∧ (t' i).overlaySectionIdx = s ∧
      (t' i).refCount = 1
  kept : ∀ i ∉ t.unusedEntries.take comps.length, t' i = t i

theorem Filled.nil (s : Section) (t : Slots) : Filled s [] t t where
  fxns := rfl
  entered := nofun
  kept _ _ := rfl

theorem Filled.cons (hfree : firstUnused t.table = some i)
    (h : Filled s comps (t.enter i s comp) t') :
    Filled s (comp :: comps) t t' := by
  obtain ⟨rest, hrest⟩ := unusedEntries_of_firstUnused hfree
  have hunused := unusedEntries_enter hrest s comp
  have hnodup := nodup_unusedEntries t
  rw [hrest, List.nodup_cons] at hnodup
  have hnot : i ∉ rest.take comps.length :=
    fun hi => hnodup.1 (List.mem_of_mem_take hi)
  have hentry : t' i = t.enter i s comp i := by
    refine h.kept i ?_
    rwa [hunused]
  have htake : t.unusedEntries.take (comp :: comps).length =
      i :: rest.take comps.length := by
    rw [hrest]
    rfl
  constructor
  · have hfxns := h.fxns
    rw [hunused] at hfxns
    rw [htake, List.map_cons, List.map_cons, hfxns, hentry, Slots.enter,
      Function.update_self]
  · intro j hj
    rw [htake] at hj
    rcases List.mem_cons.mp hj with rfl | hj
    · rw [hentry, Slots.enter, Function.update_self]
      exact ⟨idOf_ne_zero _, rfl, rfl⟩
    · refine h.entered j ?_
      rwa [hunused]
  · intro j hj
    rw [htake, List.mem_cons, not_or] at hj
    rw [h.kept j (hunused ▸ hj.2), Slots.enter, Function.update_of_ne hj.1]

/-- Lookups without a reference leave the table as it is. -/
theorem finds_of_noRefs (core : ℕ → Option ℕ) {finds : List (ℕ × Bool)}
    (h : ∀ find ∈ finds, find.2 = false) (t : Slots) :
    finds.foldl (mlbComponentFindByName core) t = t := by
  induction finds with
  | nil => rfl
  | cons find finds ih =>
      have hfind : mlbComponentFindByName core t find = t := by
        unfold mlbComponentFindByName
        rw [h find (List.mem_cons_self ..)]
        split <;> rfl
      rw [List.foldl_cons, hfind]
      exact ih fun f hf => h f (List.mem_cons_of_mem _ hf)

theorem runInit_of_noRefs
    (h : ∀ find ∈ (code comp.fxns.init).finds, find.2 = false) (t : Slots) :
    (comp.runInit core code t).2 = t := by
  unfold DspComponent.runInit
  split_ifs
  · exact finds_of_noRefs core h t
  · rfl

/-- A registration that succeeds. -/
theorem mlbComponentRegister_ok
    (hrefs : ∀ comp ∈ component, ∀ find ∈ (code comp.fxns.init).finds,
      find.2 = false)
    (hok : (mlbComponentRegister core code component s t).1 = .ok) :
    ∃ comp i, component = some comp ∧ firstUnused t.table = some i ∧
      (mlbComponentRegister core code component s t).2 = t.enter i s comp := by
  have hcases := registering core code component s t
  generalize mlbComponentRegister core code component s t = r at hok hcases
  cases hcases with
  | illSecIdx | nullPtr | noExec | comAllUsed | comInit => cases hok
  | @ok comp s' i hcomp hs _ hfree _ =>
      obtain rfl : s = s' := Fin.ext hs
      refine ⟨comp, i, hcomp, hfree, ?_⟩
      exact runInit_of_noRefs (hrefs comp hcomp) _

/-- Every call takes the next unused entry. -/
theorem filled_registerAll (hs : ∀ call ∈ calls, call.2 = s)
    (hrefs : ∀ call ∈ calls, ∀ comp ∈ call.1,
      ∀ find ∈ (code comp.fxns.init).finds, find.2 = false)
    (hok : ∀ e ∈ (registerAll core code calls t).1, e = .ok) :
    Filled s (calls.filterMap (·.1)) t (registerAll core code calls t).2 ∧
      (calls.filterMap (·.1)).length = calls.length := by
  induction calls generalizing t with
  | nil => exact ⟨.nil s t, rfl⟩
  | cons call calls ih =>
      have hcall : (mlbComponentRegister core code call.1 call.2 t).1 = .ok :=
        hok _ (List.mem_cons_self ..)
      have hsec := hs call (List.mem_cons_self ..)
      rw [hsec] at hcall
      obtain ⟨comp, i, hcomp, hfree, hresult⟩ := mlbComponentRegister_ok
        (hrefs call (List.mem_cons_self ..)) hcall
      have hrest : ∀ e ∈ (registerAll core code calls
          (t.enter i s comp)).1, e = .ok := by
        intro e he
        refine hok e (List.mem_cons_of_mem _ ?_)
        rw [hsec, hresult]
        exact he
      obtain ⟨hfilled, hlength⟩ :=
        ih (fun c hc => hs c (List.mem_cons_of_mem _ hc))
          (fun c hc => hrefs c (List.mem_cons_of_mem _ hc)) hrest
      have hcomps : (call :: calls).filterMap (·.1) =
          comp :: calls.filterMap (·.1) := List.filterMap_cons_some hcomp
      rw [hcomps]
      constructor
      · have hnext : (registerAll core code (call :: calls) t).2 =
            (registerAll core code calls (t.enter i s comp)).2 := by
          show (registerAll core code calls
            (mlbComponentRegister core code call.1 call.2 t).2).2 = _
          rw [hsec, hresult]
        rw [hnext]
        exact hfilled.cons hfree
      · rw [List.length_cons, List.length_cons, hlength]

/-! ## What is undone -/

theorem Filled.undone_of_mem (h : Filled s (comp :: comps) t t')
    (hj : j ∈ t.unusedEntries.take (comp :: comps).length) :
    ((t'.putBack i j).unregister s).componentId = 0 ∧
      ((t'.putBack i j).unregister s).fxns.exec = 0 := by
  unfold Slots.putBack
  by_cases hji : j = i
  · subst hji
    rw [Function.update_self, DspComponent.unregister, if_neg (by simp)]
    exact ⟨rfl, rfl⟩
  · obtain ⟨hid, hs, href⟩ := h.entered j hj
    rw [Function.update_of_ne hji, DspComponent.unregister,
      if_pos ⟨hid, congrArg Fin.val hs.symm⟩, if_pos (by omega)]
    exact ⟨rfl, rfl⟩

theorem unregister_of_vacant (h : Vacant s t.table) (j) :
    (t j).unregister s = t j := by
  unfold DspComponent.unregister
  rw [if_neg]
  rintro ⟨hid, hs⟩
  exact h j hid (Fin.ext hs.symm)

theorem Filled.undone_of_notMem (h : Filled s (comp :: comps) t t')
    (hvacant : Vacant s t.table) (hfree : firstUnused t.table = some i)
    (hj : j ∉ t.unusedEntries.take (comp :: comps).length) :
    (t'.putBack i j).unregister s = t j := by
  obtain ⟨rest, hrest⟩ := unusedEntries_of_firstUnused hfree
  have hji : j ≠ i := by
    rintro rfl
    apply hj
    rw [hrest]
    exact List.mem_cons_self ..
  rw [Slots.putBack, Function.update_of_ne hji, h.kept j hj]
  exact unregister_of_vacant hvacant j

/-- The lookups by id answer the same if the same entries have an `exec`
function. -/
theorem sameAnswers_iff (h : SameUsed t t') :
    SameAnswers core coreExec t t' ↔
      ∀ j, (t' j).fxns.exec ≠ 0 ↔ (t j).fxns.exec ≠ 0 := by
  constructor
  · intro hsame j
    rw [← findById_idOf coreExec j t', ← findById_idOf coreExec j t,
      hsame.byId]
  · intro hexec
    refine ⟨fun id => ?_, h.findByName core⟩
    have hfind : locComponentFindById id t'.table =
        locComponentFindById id t.table := by
      ext j
      rw [locComponentFindById_eq_some_iff, locComponentFindById_eq_some_iff]
      refine and_congr_right fun _ => ?_
      show decide _ = true ↔ decide _ = true
      rw [decide_eq_true_iff, decide_eq_true_iff]
      exact hexec j
    unfold findById
    rw [hfind]

/-- The `exit` functions that are called. -/
theorem Filled.exits_perm (h : Filled s (comp :: comps) t t')
    (hvacant : Vacant s t.table) (hfree : firstUnused t.table = some i) :
    (mlbOverlayUnregister s (t'.putBack i)).2.1.Perm
      (comps.filterMap (·.fxns.exitFunction)) := by
  obtain ⟨rest, hrest⟩ := unusedEntries_of_firstUnused hfree
  have hnodup := nodup_unusedEntries t
  rw [hrest, List.nodup_cons] at hnodup
  obtain ⟨added, hdef⟩ : ∃ added, rest.take comps.length = added := ⟨_, rfl⟩
  have htake : t.unusedEntries.take (comp :: comps).length = i :: added := by
    rw [hrest, ← hdef]
    rfl
  have hsub : List.Sublist added rest := hdef ▸ List.take_sublist ..
  have hne : ∀ j ∈ added, j ≠ i := by
    rintro j hj rfl
    exact hnodup.1 (hsub.subset hj)
  -- an entry has its `exit` function called only if it was added
  have hadded : ∀ j ∈ added, (t'.putBack i j).exitCalled s =
      (t' j).fxns.exitFunction := by
    intro j hj
    obtain ⟨hid, hs, href⟩ := h.entered j
      (htake ▸ List.mem_cons_of_mem _ hj)
    rw [Slots.putBack, Function.update_of_ne (hne j hj),
      DspComponent.exitCalled,
      if_pos ⟨hid, congrArg Fin.val hs.symm, by omega⟩]
  have hother : ∀ j ∉ added, (t'.putBack i j).exitCalled s = none := by
    intro j hj
    unfold Slots.putBack
    by_cases hji : j = i
    · subst hji
      rw [Function.update_self, DspComponent.exitCalled, if_neg (by simp)]
    · have hkept := h.kept j (htake ▸ List.not_mem_cons_of_ne_of_not_mem hji hj)
      rw [Function.update_of_ne hji, hkept, DspComponent.exitCalled, if_neg]
      rintro ⟨hid, hs, -⟩
      exact hvacant j hid (Fin.ext hs.symm)
  have hfxns : added.map (fun j => (t' j).fxns) = comps.map (·.fxns) := by
    have hmap := h.fxns
    rw [htake, List.map_cons, List.map_cons] at hmap
    exact (List.cons.inj hmap).2
  have hperm : ((List.finRange mlbMaxOverlayComponents).filter
      (· ∈ added)).Perm added := by
    rw [List.perm_ext_iff_of_nodup ((List.nodup_finRange _).filter _)
      (hnodup.2.sublist hsub)]
    intro j
    simp
  unfold mlbOverlayUnregister
  rw [if_pos s.isLt]
  calc (List.finRange mlbMaxOverlayComponents).filterMap
        (fun j => (t'.putBack i j).exitCalled s)
      = ((List.finRange mlbMaxOverlayComponents).filter (· ∈ added)).filterMap
          (fun j => (t'.putBack i j).exitCalled s) := by
        rw [List.filterMap_filter]
        refine List.filterMap_congr fun j _ => ?_
        by_cases hj : j ∈ added
        · rw [if_pos (decide_eq_true hj)]
        · rw [if_neg (by simpa using hj), hother j hj]
    List.Perm _ (added.filterMap fun j => (t'.putBack i j).exitCalled s) :=
        hperm.filterMap _
    _ = (added.map fun j => (t' j).fxns).filterMap Fxns.exitFunction := by
        rw [List.filterMap_map]
        exact List.filterMap_congr hadded
    _ = comps.filterMap (·.fxns.exitFunction) := by
        rw [hfxns, List.filterMap_map]
        rfl

/-! ## When nothing is left -/

/-- The first entries that are unused have no `exec` function. -/
def NoExecLeft (n : ℕ) (t : Slots) : Prop :=
  ∀ i ∈ t.unusedEntries.take n, (t i).fxns.exec = 0

/-- The registration has entered its components and removed them again. -/
theorem Filled.undone_iff (h : Filled s (comp :: comps) t t')
    (hvacant : Vacant s t.table) (hfree : firstUnused t.table = some i) :
    Undone core coreExec s comps t
        ⟨.comInit, none, (mlbOverlayUnregister s (t'.putBack i)).2.1,
          (mlbOverlayUnregister s (t'.putBack i)).2.2⟩ ↔
      NoExecLeft (comp :: comps).length t := by
  obtain ⟨u, hu⟩ : ∃ u, (mlbOverlayUnregister s (t'.putBack i)).2.2 = u :=
    ⟨_, rfl⟩
  have hentry : ∀ j, u j = (t'.putBack i j).unregister s := by
    intro j
    rw [← hu, mlbOverlayUnregister, if_pos s.isLt]
  have hin : ∀ j ∈ t.unusedEntries.take (comp :: comps).length,
      (u j).componentId = 0 ∧ (u j).fxns.exec = 0 := by
    intro j hj
    rw [hentry]
    exact h.undone_of_mem hj
  have hout : ∀ j ∉ t.unusedEntries.take (comp :: comps).length,
      u j = t j := by
    intro j hj
    rw [hentry]
    exact h.undone_of_notMem hvacant hfree hj
  have hunused : ∀ j ∈ t.unusedEntries.take (comp :: comps).length,
      (t j).componentId = 0 :=
    fun j hj => mem_unusedEntries.mp (List.mem_of_mem_take hj)
  have hsame : SameUsed t u := by
    intro j
    by_cases hj : j ∈ t.unusedEntries.take (comp :: comps).length
    · rw [hunused j hj]
      exact ⟨(hin j hj).1, fun hid => absurd rfl hid⟩
    · rw [hout j hj]
      exact ⟨rfl, fun _ => ⟨_, rfl⟩⟩
  rw [hu]
  constructor
  · intro hundone j hj
    have hexec := (sameAnswers_iff hsame).mp hundone.answers j
    exact not_not.mp (mt hexec.mpr (not_not.mpr (hin j hj).2))
  · intro hleft
    constructor
    · nofun
    · refine (sameAnswers_iff hsame).mpr fun j => ?_
      by_cases hj : j ∈ t.unusedEntries.take (comp :: comps).length
      · rw [(hin j hj).2, hleft j hj]
      · rw [hout j hj]
    · exact h.exits_perm hvacant hfree
    · intro j hid _
      have hj : j ∉ t.unusedEntries.take (comp :: comps).length :=
        fun hmem => hid (hunused j hmem)
      show (u j).refCount = _
      rw [hout j hj]

/-- A registration that finds no unused entry changes nothing. -/
theorem undone_of_full (core : ℕ → Option ℕ) (coreExec : ℕ → Bool)
    (code : ℕ → InitRun) (image : OverlayImage) (s : Section)
    (hfull : firstUnused t.table = none) :
    Undone core coreExec s (image.additional t) t
      (mlbOverlayRegister core code image s t) := by
  have hresult : mlbOverlayRegister core code image s t =
      ⟨.comAllUsed, none, [], t⟩ := by
    rw [mlbOverlayRegister, dif_pos s.isLt, hfull]
  have hnone : image.additional t = [] := if_pos hfull
  rw [hresult, hnone]
  exact ⟨nofun, ⟨fun _ => rfl, fun _ => rfl⟩, .refl _, fun _ _ _ => rfl⟩

/-- A failed registration leaves nothing behind if and only if the entries
that it uses had no `exec` function before.  An unused entry has one when the
`init` function of a component failed in it. -/
theorem mlbOverlayRegister_undone_iff (core : ℕ → Option ℕ)
    (coreExec : ℕ → Bool) (code : ℕ → InitRun) (image : OverlayImage)
    (s : Section) (t : Slots) (hvacant : Vacant s t.table)
    (h : RegistersThenFails core code image s t ∨
      firstUnused t.table = none) :
    Undone core coreExec s (image.additional t) t
        (mlbOverlayRegister core code image s t) ↔
      NoExecLeft (image.calls.length + 1) t := by
  cases hfree : firstUnused t.table with
  | none =>
      refine iff_of_true (undone_of_full core coreExec code image s hfree) ?_
      rw [← head_unusedEntries, List.head?_eq_none_iff] at hfree
      unfold NoExecLeft
      rw [hfree, List.take_nil]
      nofun
  | some i =>
      have h := h.resolve_right (by rw [hfree]; nofun)
      obtain ⟨hfilled, hlength⟩ :=
        filled_registerAll h.forSection h.noRefs (h.succeed i hfree)
      have hrun : image.runInit core code (t.enter i s image.main) =
          (false, (registerAll core code image.calls
            (t.enter i s image.main)).2) := by
        rw [OverlayImage.runInit, if_pos h.hasInit, h.fails]
      have hresult : mlbOverlayRegister core code image s t =
          ⟨.comInit, none,
            (mlbOverlayUnregister s ((registerAll core code image.calls
              (t.enter i s image.main)).2.putBack i)).2.1,
            (mlbOverlayUnregister s ((registerAll core code image.calls
              (t.enter i s image.main)).2.putBack i)).2.2⟩ := by
        rw [mlbOverlayRegister, dif_pos s.isLt, hfree]
        dsimp only
        rw [hrun, if_neg Bool.false_ne_true]
      have hadditional : image.additional t = image.calls.filterMap (·.1) := by
        rw [OverlayImage.additional, hfree, if_neg (by nofun)]
      rw [hresult, hadditional, (hfilled.cons hfree).undone_iff hvacant hfree,
        List.length_cons, hlength]

/-- The `init` function at address `2` fails. -/
def secondFails : ℕ → InitRun := fun init => ⟨[], init ≠ 2⟩

/-- The main component has an `init` function, which registers one component
with the `init` function at the given address. -/
def overlayWith (init : ℕ) (s : ℕ) (initOk : Bool) : OverlayImage where
  main := oneComponent 1
  calls := [(some (oneComponent init), s)]
  initOk := initOk

theorem overlayWith_undone :
    Undone (fun _ => none) (fun _ => false) 0 [oneComponent 0] Slots.unused
      (mlbOverlayRegister (fun _ => none) secondFails (overlayWith 0 0 false) 0
        Slots.unused) := by
  have hfails : RegistersThenFails (fun _ => none) secondFails
      (overlayWith 0 0 false) 0 Slots.unused := by
    refine ⟨by decide, rfl, by decide, by decide, ?_⟩
    intro i hi
    have h0 : firstUnused Slots.unused.table = some 0 := by decide
    obtain rfl := Option.some.inj (h0.symm.trans hi)
    decide
  exact (mlbOverlayRegister_undone_iff (fun _ => none) (fun _ => false)
    secondFails (overlayWith 0 0 false) 0 Slots.unused (by decide)
    (Or.inl hfails)).mpr fun _ _ => rfl

/-- The table when an overlay has been loaded whose additional component failed
in its `init` function. -/
def Slots.afterLoad : Slots :=
  (mlbOverlayRegister (fun _ => none) secondFails (overlayWith 2 0 true) 0
    Slots.unused).slots

/-- The next overlay fails, and an id that was found before is not found any
more. -/
theorem overlayRegister_changes_lookup :
    (mlbOverlayRegister (fun _ => none) secondFails (overlayWith 2 0 true) 0
        Slots.unused).err = .ok ∧
      Vacant 1 Slots.afterLoad.table ∧
      RegistersThenFails (fun _ => none) secondFails (overlayWith 0 1 false) 1
        Slots.afterLoad ∧
      findById (fun _ => false) 17 Slots.afterLoad.table =
        some (.overlay 1) ∧
      findById (fun _ => false) 17
        (mlbOverlayRegister (fun _ => none) secondFails (overlayWith 0 1 false)
          1 Slots.afterLoad).slots.table = none ∧
      ¬ Undone (fun _ => none) (fun _ => false) 1
        ((overlayWith 0 1 false).additional Slots.afterLoad) Slots.afterLoad
        (mlbOverlayRegister (fun _ => none) secondFails (overlayWith 0 1 false)
          1 Slots.afterLoad) := by
  have hbefore : findById (fun _ => false) 17 Slots.afterLoad.table =
      some (.overlay 1) := by decide
  have hafter : findById (fun _ => false) 17
      (mlbOverlayRegister (fun _ => none) secondFails (overlayWith 0 1 false)
        1 Slots.afterLoad).slots.table = none := by decide
  refine ⟨by decide, by decide, ⟨by decide, rfl, by decide, by decide, ?_⟩,
    hbefore, hafter, fun h => ?_⟩
  · intro i hi
    have h1 : firstUnused Slots.afterLoad.table = some 1 := by decide
    obtain rfl := Option.some.inj (h1.symm.trans hi)
    decide
  · rw [h.answers.byId, hbefore] at hafter
    cases hafter

end C64Tools.Overlay
