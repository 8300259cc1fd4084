import C64Tools.Overlay.ComponentRegister

/-!
# Registering the components of the core image

`mlb_component_register()` puts a component into the next entry of the
`components` array, whatever its id, and `loc_component_find_by_id()` takes the id
for the number of the entry.  The two agree if the components are registered in
the order of their ids, from one on and without a gap.
-/

namespace C64Tools.Overlay.CoreImage

/-- `MLB_MAX_COMPONENTS`. -/
def mlbMaxComponents : ℕ := mlbMaxCoreComponents + mlbMaxOverlayComponents

/-- An entry after `memset()`. -/
def zero : DspComponent where
  fxns := { init := 0, exec := 0, execFc := 0, exit := 0 }
  name := 0
  componentId := 0
  overlaySectionIdx := 0
  refCount := 0

/-- The `components` array and `num_core_components`. -/
structure CoreTable where
  components : ℕ → DspComponent
  numCoreComponents : ℕ

/-- `loc_components_reset()`. -/
def locComponentsReset (componentMlb : DspComponent) : CoreTable where
  components := Function.update (fun _ => zero) 0
    { componentMlb with componentId := 0 }
  numCoreComponents := 1

/-- `mlb_component_register()`. -/
def mlbComponentRegister (compId : ℕ) (comp : Option DspComponent)
    (t : CoreTable) : Bool × CoreTable :=
  if compId > 0 then
    match comp with
    | some comp =>
        if t.numCoreComponents < mlbMaxCoreComponents then
          if comp.fxns.exec ≠ 0 then
            (true,
              { components := Function.update t.components
                  t.numCoreComponents { comp with componentId := compId }
                numCoreComponents := t.numCoreComponents + 1 })
          else (false, t)
        else (false, t)
    | none => (false, t)
  else (false, t)

/-- `loc_component_find_by_id()`. -/
def locComponentFindById (t : CoreTable) (id : ℕ) : Option DspComponent :=
  if id < mlbMaxComponents then
    let ret := t.components id
    if ret.fxns.exec = 0 then none else some ret
  else none

/-! ## Registrations -/

/-- The arguments of a registration. -/
structure Registration where
  compId : ℕ
  comp : Option DspComponent
  deriving DecidableEq, Repr

namespace Registration

/-- There is an id and a component that can be executed. -/
def Usable (r : Registration) : Prop :=
  0 < r.compId ∧ ∃ comp ∈ r.comp, comp.fxns.exec ≠ 0

instance (r : Registration) : Decidable r.Usable := by
  unfold Usable
  cases r.comp <;> simp only [Option.mem_def] <;> infer_instance

/-- The component as it is registered. -/
def entry (r : Registration) : DspComponent :=
  { r.comp.getD zero with componentId := r.compId }

end Registration

/-- The array after some registrations. -/
def registerAll (t : CoreTable) : List Registration → CoreTable
  | [] => t
  | r :: rs => registerAll (mlbComponentRegister r.compId r.comp t).2 rs

/-- The registrations which have returned true. -/
def registered (t : CoreTable) : List Registration → List Registration
  | [] => []
  | r :: rs =>
      let (ret, t) := mlbComponentRegister r.compId r.comp t
      if ret then r :: registered t rs else registered t rs

/-- Every id which has been registered is resolved to its component, and every
other one to nothing; zero is the id of the core component. -/
def FindsRegistered (componentMlb : DspComponent)
    (regs : List Registration) : Prop :=
  let t := locComponentsReset componentMlb
  (∀ r ∈ registered t regs,
    locComponentFindById (registerAll t regs) r.compId = some r.entry) ∧
  ∀ id, id ≠ 0 → (∀ r ∈ registered t regs, r.compId ≠ id) →
    locComponentFindById (registerAll t regs) id = none

/-- The registrations for which there is an entry. -/
def entered (regs : List Registration) : List Registration :=
  (regs.filter fun r => r.Usable).take (mlbMaxCoreComponents - 1)

/-- The ids are those of the entries. -/
def InOrder (regs : List Registration) : Prop :=
  ∀ (k : ℕ) (hk : k < (entered regs).length),
    ((entered regs)[k]).compId = k + 1

/-- What is in the array after some registrations. -/
structure Holds (t : CoreTable) (done : List Registration) : Prop where
  num : t.numCoreComponents = done.length + 1
  le : done.length < mlbMaxCoreComponents
  usable : ∀ r ∈ done, r.Usable
  entry : ∀ k, t.components (k + 1) = (done[k]?.map (·.entry)).getD zero

variable {t : CoreTable} {r : Registration} {done regs : List Registration}
  {componentMlb : DspComponent}

theorem holds_reset : Holds (locComponentsReset componentMlb) [] where
  num := rfl
  le := by decide
  usable r hr := absurd hr List.not_mem_nil
  entry k := by simp [locComponentsReset]

/-- A registration succeeds if it can be used and there is room. -/
theorem mlbComponentRegister_eq (r : Registration) (t : CoreTable) :
    mlbComponentRegister r.compId r.comp t =
      if r.Usable ∧ t.numCoreComponents < mlbMaxCoreComponents then
        (true,
          { components := Function.update t.components t.numCoreComponents
              r.entry
            numCoreComponents := t.numCoreComponents + 1 })
      else (false, t) := by
  obtain ⟨compId, comp⟩ := r
  unfold mlbComponentRegister
  cases comp with
  | none => simp [Registration.Usable]
  | some comp =>
      by_cases hid : 0 < compId <;>
        by_cases hroom : t.numCoreComponents < mlbMaxCoreComponents <;>
        by_cases hexec : comp.fxns.exec = 0 <;>
        simp [Registration.Usable, Registration.entry, hid, hroom, hexec]

theorem Holds.register (h : Holds t done) (hr : r.Usable)
    (hroom : done.length + 1 < mlbMaxCoreComponents) :
    Holds (mlbComponentRegister r.compId r.comp t).2 (done ++ [r]) := by
  have hnum : t.numCoreComponents < mlbMaxCoreComponents := h.num ▸ hroom
  rw [mlbComponentRegister_eq, if_pos ⟨hr, hnum⟩]
  refine ⟨?_, ?_, ?_, ?_⟩
  · simp [h.num]
  · simpa using hroom
  · intro r' hr'
    obtain hr' | hr' := List.mem_append.mp hr'
    · exact h.usable r' hr'
    · rwa [List.mem_singleton.mp hr']
  · intro k
    by_cases hk : k = done.length
    · subst hk
      have hlast : (done ++ [r])[done.length]? = some r := by simp
      rw [hlast]
      exact h.num ▸ Function.update_self _ _ _
    · have hne : k + 1 ≠ t.numCoreComponents := by rw [h.num]; omega
      refine (Function.update_of_ne hne _ _).trans ?_
      rw [h.entry k]
      obtain hlt | hgt := Nat.lt_or_gt_of_ne hk
      · rw [List.getElem?_append_left hlt]
      · have hlen : (done ++ [r]).length ≤ k := by
          rw [List.length_append, List.length_singleton]
          exact hgt
        rw [List.getElem?_eq_none hgt.le, List.getElem?_eq_none hlen]

/-- The registrations that succeed are the first ones that can be used. -/
theorem Holds.registerAll (h : Holds t done) (regs : List Registration) :
    registered t regs = (regs.filter fun r => r.Usable).take
        (mlbMaxCoreComponents - 1 - done.length) ∧
      Holds (registerAll t regs) (done ++ registered t regs) := by
  induction regs generalizing t done with
  | nil =>
      rw [registered, List.append_nil, CoreImage.registerAll]
      exact ⟨List.take_nil.symm, h⟩
  | cons r regs ih =>
      by_cases hr : r.Usable ∧ done.length + 1 < mlbMaxCoreComponents
      · obtain ⟨huse, hroom⟩ := hr
        have hreg := mlbComponentRegister_eq r t
        rw [if_pos ⟨huse, h.num ▸ hroom⟩] at hreg
        obtain ⟨hnew, hall⟩ := ih (h.register huse hroom)
        have hleft : mlbMaxCoreComponents - 1 - done.length =
            mlbMaxCoreComponents - 1 - (done ++ [r]).length + 1 := by
          rw [List.length_append, List.length_singleton]
          omega
        have hcons : registered t (r :: regs) =
            r :: registered (mlbComponentRegister r.compId r.comp t).2 regs := by
          rw [registered, hreg]
          rfl
        rw [hcons, CoreImage.registerAll]
        refine ⟨?_, ?_⟩
        · rw [hnew, List.filter_cons_of_pos (by simpa using huse), hleft,
            List.take_succ_cons]
        · rw [List.append_cons]
          exact hall
      · have hreg := mlbComponentRegister_eq r t
        rw [if_neg (h.num ▸ hr)] at hreg
        obtain ⟨hnew, hall⟩ := ih h
        have hskip : registered t (r :: regs) = registered t regs := by
          rw [registered, hreg]
          rfl
        rw [hskip, CoreImage.registerAll, hreg]
        refine ⟨?_, hall⟩
        rw [hnew]
        by_cases huse : r.Usable
        · have hfull : mlbMaxCoreComponents - 1 - done.length = 0 := by
            have hge := not_and.mp hr huse
            omega
          rw [hfull, List.take_zero, List.take_zero]
        · rw [List.filter_cons_of_neg (by simpa using huse)]

/-! ## Registering and finding -/

theorem Registration.Usable.exec_ne (h : r.Usable) :
    r.entry.fxns.exec ≠ 0 := by
  obtain ⟨-, comp, hcomp, hexec⟩ := h
  have hget : r.comp.getD zero = comp := by
    rw [Option.mem_def.mp hcomp, Option.getD_some]
  rw [Registration.entry, hget]
  exact hexec

/-- What is found under the number of an entry. -/
theorem Holds.find (h : Holds t done) (k : ℕ) :
    locComponentFindById t (k + 1) = done[k]?.map (·.entry) := by
  by_cases hk : k < done.length
  · have hmax : k + 1 < mlbMaxComponents := by
      have hle := h.le
      unfold mlbMaxComponents
      omega
    have hentry : t.components (k + 1) = done[k].entry := by
      rw [h.entry k, List.getElem?_eq_getElem hk]
      rfl
    rw [List.getElem?_eq_getElem hk, Option.map_some, locComponentFindById,
      if_pos hmax, hentry]
    exact if_neg (h.usable _ (List.getElem_mem hk)).exec_ne
  · have hentry : t.components (k + 1) = zero := by
      rw [h.entry k, List.getElem?_eq_none (Nat.le_of_not_lt hk)]
      rfl
    rw [List.getElem?_eq_none (Nat.le_of_not_lt hk), Option.map_none,
      locComponentFindById, hentry]
    split_ifs <;> rfl

theorem findsRegistered_iff_inOrder (componentMlb : DspComponent)
    (regs : List Registration) :
    FindsRegistered componentMlb regs ↔ InOrder regs := by
  have hreset : Holds (locComponentsReset componentMlb) [] := holds_reset
  obtain ⟨hnew, hholds⟩ := hreset.registerAll regs
  have hentered : registered (locComponentsReset componentMlb) regs =
      entered regs := hnew
  rw [hentered, List.nil_append] at hholds
  constructor
  · rintro ⟨hfound, hnone⟩ k hk
    rw [hentered] at hfound hnone
    have hfind := hholds.find k
    rw [List.getElem?_eq_getElem hk, Option.map_some] at hfind
    -- the number of the entry must be one of the ids
    by_contra hne
    obtain ⟨r, hr, hid⟩ : ∃ r ∈ entered regs, r.compId = k + 1 := by
      by_contra hno
      rw [hnone (k + 1) (Nat.succ_ne_zero k)
        fun r hr hid => hno ⟨r, hr, hid⟩] at hfind
      cases hfind
    have hr' := hfound r hr
    rw [hid, hfind] at hr'
    have hids : (entered regs)[k].compId = r.compId :=
      congrArg DspComponent.componentId (Option.some.inj hr')
    exact hne (hids.trans hid)
  · intro horder
    refine ⟨?_, ?_⟩
    · intro r hr
      rw [hentered] at hr
      obtain ⟨k, hk, rfl⟩ := List.getElem_of_mem hr
      rw [horder k hk, hholds.find, List.getElem?_eq_getElem hk,
        Option.map_some]
    · intro id hid hother
      obtain ⟨k, rfl⟩ := Nat.exists_eq_succ_of_ne_zero hid
      rw [hentered] at hother
      have hout : (entered regs).length ≤ k := by
        by_contra hlt
        have hk := Nat.lt_of_not_le hlt
        exact hother _ (List.getElem_mem hk) (horder k hk)
      rw [hholds.find, List.getElem?_eq_none hout, Option.map_none]

/-- The component for id two is found under id one. -/
theorem not_findsRegistered_two :
    ¬ ∀ (componentMlb : DspComponent) (regs : List Registration),
      (regs.map Registration.compId).Nodup →
        FindsRegistered componentMlb regs := by
  intro h
  let comp : DspComponent := { zero with fxns := ⟨0, 0x86000000, 0, 0⟩ }
  have hfinds := h comp [⟨2, some comp⟩] (List.nodup_singleton _)
  have hfound := hfinds.1 ⟨2, some comp⟩ (by decide)
  revert hfound
  decide

end C64Tools.Overlay.CoreImage
