import C64Tools.Overlay.Resolution

/-!
# References to a section

Registering an overlay and finding one of its components with a reference
count as one reference to the section, and the command that unregisters the
section gives one back.  The DSP counts the references of each component.

The registrations considered here succeed, and all components of an overlay
belong to the section of its main component.
-/

namespace C64Tools.Overlay

open Kmod (Section mlbComNumSectionIndices)
open Transition

/-- The registry, the references to each section, the components registered in
it since there were none, and those from before. -/
structure Counted where
  dsp : Dsp
  balance : Section → ℤ
  members : Section → List ℕ
  past : Section → List ℕ

namespace Counted

/-- The registry after `loc_components_reset`. -/
def initial : Counted where
  dsp := locComponentsReset
  balance := fun _ => 0
  members := fun _ => []
  past := fun _ => []

/-- The next component is one of the section. -/
def join (s : Section) (c : Counted) : Counted :=
  { c with members :=
      Function.update c.members s (c.members s ++ [c.dsp.nextSerial]) }

/-- A reference is taken. -/
def ref (s : Section) (c : Counted) : Counted :=
  { c with balance := Function.update c.balance s (c.balance s + 1) }

/-- A reference is given back. -/
def unref (s : Section) (c : Counted) : Counted :=
  if c.balance s - 1 = 0 then
    { c with
      balance := Function.update c.balance s 0
      members := Function.update c.members s []
      past := Function.update c.past s (c.past s ++ c.members s) }
  else
    { c with balance := Function.update c.balance s (c.balance s - 1) }

/-- Count what a step to the given state of the registry has done. -/
def count (core : ℕ → Option ℕ) (op : RegistryOp) (d : Dsp) (c : Counted) :
    Counted :=
  match op with
  | .overlayRegister _ _ =>
      match d.init with
      | .main _ s => (c.join s).ref s
      | _ => c
  | .componentRegister _ _ =>
      match d.init with
      | .extra j _ _ => c.join (d.table j).overlaySectionIdx
      | _ => c
  | .initReturns _ => c
  | .overlayUnregister sectionIdx =>
      if h : sectionIdx < mlbComNumSectionIndices then c.unref ⟨sectionIdx, h⟩
      else c
  | .findByName name incRef =>
      match locComponentFindByName core name c.dsp.table with
      | some (.overlay i) =>
          if incRef then c.ref (c.dsp.table i).overlaySectionIdx else c
      | _ => c

end Counted

/-- The runs that are considered: no `init` function fails, it registers
components of its own section, and it takes no references. -/
def Successful (c : Counted) : RegistryOp → Prop
  | .initReturns ok => ok = true
  | .componentRegister _ sectionIdx =>
      match c.dsp.init with
      | .main _ s => sectionIdx = s
      | _ => True
  | .findByName _ incRef => incRef = true → c.dsp.init = .none
  | _ => True

instance (c : Counted) (op : RegistryOp) : Decidable (Successful c op) := by
  unfold Successful
  split
  · infer_instance
  · split <;> infer_instance
  · infer_instance
  · infer_instance

/-- The next state of a run that is considered. -/
def countedNext (core : ℕ → Option ℕ) (c : Counted) (op : RegistryOp) :
    Option Counted :=
  if Successful c op then
    (registryNext core c.dsp op).map fun d =>
      { c.count core op d with dsp := d }
  else none

/-- The registry with its references, on a DSP with the given components in
its core image. -/
def countedMachine (core : ℕ → Option ℕ) : Machine Counted RegistryOp :=
  Machine.ofNext Counted.initial (countedNext core)

/-! ## The law -/

/-- A component of the section is registered under the number, can be called,
and its `exit` function was not called. -/
def Counted.Callable (c : Counted) (s : Section) (k : ℕ) : Prop :=
  ∃ i r, c.dsp.registered i = some r ∧ r.serial = k ∧ r.sectionIdx = s ∧
    (c.dsp.table i).componentId = idOf i ∧
    (c.dsp.table i).hasExec = true ∧ k ∉ c.dsp.exits

/-- Components stay as long as there are references to their section, go
together with the last reference, and are told so once each. -/
structure Counted.Lawful (s : Section) (c : Counted) : Prop where
  accounted : ∀ k < c.dsp.nextSerial, ∃ s, k ∈ c.members s ∨ k ∈ c.past s
  stay : 0 < c.balance s → ∀ k ∈ c.members s, c.Callable s k
  gone : c.balance s = 0 → c.members s = [] ∧ Vacant s c.dsp.table
  exited : ∀ k ∈ c.past s, c.dsp.exits.count k = 1

/-- The section is registered when it is vacant, a reference is taken by name
to its only component, and only a reference that was taken is given back. -/
def RefsShared (core : ℕ → Option ℕ) (s : Section) (c : Counted) :
    RegistryOp → Prop
  | .overlayRegister sectionIdx _ => sectionIdx = s → Vacant s c.dsp.table
  | .findByName name incRef => incRef = true →
      ∀ i, locComponentFindByName core name c.dsp.table =
          some (.overlay i) →
        (c.dsp.table i).overlaySectionIdx = s →
        ∀ j, (c.dsp.table j).componentId ≠ 0 →
          (c.dsp.table j).overlaySectionIdx = s → j = i
  | .overlayUnregister sectionIdx => sectionIdx = s → 0 < c.balance s
  | _ => True

instance (core : ℕ → Option ℕ) (s : Section) (c : Counted)
    (op : RegistryOp) : Decidable (RefsShared core s c op) := by
  unfold RefsShared
  split <;> infer_instance

variable {core : ℕ → Option ℕ} {s s' : Section} {c c' : Counted} {d : Dsp}
  {i j : Fin mlbMaxOverlayComponents} {r r' : Registration} {k : ℕ}

/-! ## Steps -/

/-- The `init` function of the main component of the section is running. -/
def InitCall.In (s : Section) : InitCall → Prop
  | .none => False
  | .main _ t => t = s
  | .extra _ _ t => t = s

/-- What the steps do that are right about the section. -/
inductive CountedStep (s : Section) (c : Counted) : Counted → Prop
  | still (init : InitCall) : (init.In s → c.dsp.init.In s) →
      CountedStep s c { c with dsp := { c.dsp with init } }
  | enterMain (i : Fin mlbMaxOverlayComponents) (t : Section) (name : ℕ) :
      (c.dsp.table i).componentId = 0 → (t = s → Vacant s c.dsp.table) →
      CountedStep s c { (c.join t).ref t with
        dsp := { c.dsp.enter i t name with init := .main i t } }
  | enterExtra (j i : Fin mlbMaxOverlayComponents) (t : Section) (name : ℕ) :
      (c.dsp.table j).componentId = 0 → c.dsp.init = .main i t →
      CountedStep s c { c.join t with
        dsp := { c.dsp.enter j t name with init := .extra j i t } }
  | take (i : Fin mlbMaxOverlayComponents) :
      c.dsp.init = .none → (c.dsp.table i).componentId ≠ 0 →
      ((c.dsp.table i).overlaySectionIdx = s →
        ∀ j, (c.dsp.table j).componentId ≠ 0 →
          (c.dsp.table j).overlaySectionIdx = s → j = i) →
      CountedStep s c { c.ref (c.dsp.table i).overlaySectionIdx with
        dsp := c.dsp.takeRef i }
  | release (t : Section) : c.dsp.init = .none → (t = s → 0 < c.balance s) →
      CountedStep s c { c.unref t with dsp := c.dsp.release t }

theorem CountedStep.refl (s : Section) (c : Counted) : CountedStep s c c :=
  .still c.dsp.init id

theorem countedStep_overlayRegister {sectionIdx name : ℕ}
    (hok : RefsShared core s c (.overlayRegister sectionIdx name))
    (hinit : c.dsp.init = .none) :
    CountedStep s c { c.count core (.overlayRegister sectionIdx name)
      (overlayRegister sectionIdx name c.dsp) with
        dsp := overlayRegister sectionIdx name c.dsp } := by
  unfold overlayRegister
  split_ifs with hs
  · cases hfree : firstUnused c.dsp.table with
    | none =>
        simp only [Counted.count, hinit]
        exact .refl s c
    | some i =>
        exact .enterMain i ⟨sectionIdx, hs⟩ name
          (componentId_of_firstUnused hfree) fun ht => hok (ht ▸ rfl)
  · simp only [Counted.count, hinit]
    exact .refl s c

theorem countedStep_componentRegister {component : Option Source}
    {t : Section} (hinit : c.dsp.init = .main i t) :
    CountedStep s c { c.count core (.componentRegister component t)
      (componentRegister component t i t c.dsp) with
        dsp := componentRegister component t i t c.dsp } := by
  have hrefl : CountedStep s c { c.count core
      (.componentRegister component t) c.dsp with dsp := c.dsp } := by
    simp only [Counted.count, hinit]
    exact .refl s c
  unfold componentRegister
  rw [dif_pos t.isLt]
  cases component with
  | none => exact hrefl
  | some source =>
      dsimp only
      split_ifs
      · cases hfree : firstUnused c.dsp.table with
        | none => exact hrefl
        | some j =>
            have hstep := CountedStep.enterExtra (s := s) j i t source.name
              (componentId_of_firstUnused hfree) hinit
            simpa only [Counted.count, Dsp.enter, Function.update_self]
              using hstep
      · exact hrefl

theorem countedStep_findByName {name : ℕ} {incRef : Bool}
    (hsuccessful : Successful c (.findByName name incRef))
    (hok : RefsShared core s c (.findByName name incRef)) :
    CountedStep s c { c.count core (.findByName name incRef)
      (findByName core name incRef c.dsp) with
        dsp := findByName core name incRef c.dsp } := by
  cases hfound : locComponentFindByName core name c.dsp.table with
  | none =>
      simp only [findByName, Counted.count, hfound]
      exact .refl s c
  | some found =>
      cases found with
      | core id =>
          simp only [findByName, Counted.count, hfound]
          exact .refl s c
      | overlay i =>
          cases incRef with
          | true =>
              simp only [findByName, Counted.count, hfound, if_true]
              exact .take i (hsuccessful rfl) (componentId_of_found hfound)
                (hok rfl i hfound)
          | false =>
              simp only [findByName, Counted.count, hfound, if_false,
                Bool.false_eq_true]
              exact .refl s c

theorem countedStep_overlayUnregister {sectionIdx : ℕ}
    (hok : RefsShared core s c (.overlayUnregister sectionIdx))
    (hinit : c.dsp.init = .none) :
    CountedStep s c { c.count core (.overlayUnregister sectionIdx)
      (overlayUnregister sectionIdx c.dsp) with
        dsp := overlayUnregister sectionIdx c.dsp } := by
  unfold overlayUnregister Counted.count
  dsimp only
  split_ifs with hs
  · exact .release ⟨sectionIdx, hs⟩ hinit fun ht => hok (ht ▸ rfl)
  · exact .refl s c

theorem countedStep_of_next {op : RegistryOp} (hok : RefsShared core s c op)
    (h : countedNext core c op = some c') : CountedStep s c c' := by
  obtain ⟨hsuccessful, hnext⟩ := Option.ite_none_right_eq_some.mp h
  obtain ⟨d, hd, rfl⟩ := Option.map_eq_some_iff.mp hnext
  cases registryStep_of_next hd with
  | overlayRegister hinit => exact countedStep_overlayRegister hok hinit
  | componentRegister hinit =>
      unfold Successful at hsuccessful
      rw [hinit] at hsuccessful
      obtain rfl := hsuccessful
      exact countedStep_componentRegister hinit
  | mainSucceeds hinit => exact .still .none False.elim
  | mainFails _ => cases hsuccessful
  | extraSucceeds hinit =>
      refine .still (.main _ _) fun hin => ?_
      rw [hinit]
      exact hin
  | extraFails _ => cases hsuccessful
  | overlayUnregister hinit => exact countedStep_overlayUnregister hok hinit
  | findByName => exact countedStep_findByName hsuccessful hok

/-! ## The numbers of the components -/

theorem Registration.release_eq_none_iff :
    r.release s = none ↔ r.sectionIdx = s ∧ r.refs - 1 = 0 := by
  unfold Registration.release
  split_ifs with hs h0
  · exact iff_of_true rfl ⟨hs, h0⟩
  · exact iff_of_false (by simp) fun h => h0 h.2
  · exact iff_of_false (by simp) fun h => hs h.1

theorem Registration.release_eq_some (h : r.release s = some r') :
    r'.serial = r.serial ∧ r'.sectionIdx = r.sectionIdx ∧
      r'.refs = if r.sectionIdx = s then r.refs - 1 else r.refs := by
  unfold Registration.release at h
  split_ifs at h ⊢
  all_goals
    obtain rfl := Option.some.inj h
    exact ⟨rfl, rfl, rfl⟩

theorem Dsp.Exact.entry (h : d.Exact) (hr : d.registered i = some r) :
    (d.table i).componentId ≠ 0 ∧
      (d.table i).overlaySectionIdx = r.sectionIdx := by
  have hi := h i
  rw [hr] at hi
  exact ⟨hi.1 ▸ idOf_ne_zero i, hi.2.2.2.2.2⟩

theorem Dsp.Exact.registered (h : d.Exact)
    (hi : (d.table i).componentId ≠ 0) :
    ∃ r, d.registered i = some r ∧
      (d.table i).overlaySectionIdx = r.sectionIdx := by
  obtain ⟨r, hr⟩ := Option.isSome_iff_exists.mp
    ((h i).componentId_ne_zero_iff.mp hi)
  exact ⟨r, hr, (h.entry hr).2⟩

/-- The numbers of the registered components are different, and `exit` was
called for none of them. -/
structure Dsp.Numbered (d : Dsp) : Prop where
  exact : d.Exact
  distinct : ∀ i j r r', d.registered i = some r → d.registered j = some r' →
    r.serial = r'.serial → i = j
  fresh : ∀ i r, d.registered i = some r → r.serial < d.nextSerial
  exits_lt : ∀ k ∈ d.exits, k < d.nextSerial
  live : ∀ i r, d.registered i = some r → r.serial ∉ d.exits

theorem registered_enter {name : ℕ}
    (h : (d.enter i s name).registered j = some r) :
    j = i ∧ r = ⟨d.nextSerial, name, s, 1⟩ ∨
      j ≠ i ∧ d.registered j = some r := by
  simp only [Dsp.enter] at h
  by_cases hj : j = i
  · subst hj
    rw [Function.update_self] at h
    exact Or.inl ⟨rfl, (Option.some.inj h).symm⟩
  · rw [Function.update_of_ne hj] at h
    exact Or.inr ⟨hj, h⟩

theorem registered_enter_of_old {name : ℕ} (hi : d.registered i = none)
    (hr : d.registered j = some r) :
    (d.enter i s name).registered j = some r := by
  have hj : j ≠ i := by
    rintro rfl
    rw [hi] at hr
    cases hr
  exact (Function.update_of_ne hj ..).trans hr

theorem registered_takeRef (h : (d.takeRef i).registered j = some r) :
    ∃ r₀, d.registered j = some r₀ ∧ r.serial = r₀.serial ∧
      r.sectionIdx = r₀.sectionIdx ∧
      r.refs = if j = i then r₀.refs + 1 else r₀.refs := by
  simp only [Dsp.takeRef] at h
  by_cases hj : j = i
  · subst hj
    rw [Function.update_self] at h
    obtain ⟨r₀, hr₀, rfl⟩ := Option.map_eq_some_iff.mp h
    exact ⟨r₀, hr₀, rfl, rfl, (if_pos rfl).symm⟩
  · rw [Function.update_of_ne hj] at h
    exact ⟨r, h, rfl, rfl, (if_neg hj).symm⟩

theorem registered_release (h : (d.release s).registered j = some r) :
    ∃ r₀, d.registered j = some r₀ ∧ r₀.release s = some r :=
  Option.bind_eq_some_iff.mp h

theorem mem_exitCalls_iff (h : d.Exact) :
    i ∈ exitCalls s d.table ↔
      ∃ r, d.registered i = some r ∧ r.release s = none := by
  have hi := h i
  simp only [exitCalls, List.mem_filter, List.mem_finRange, true_and,
    decide_eq_true_eq]
  constructor
  · rintro ⟨hid, hs, h0⟩
    cases hr : d.registered i with
    | none =>
        rw [hr] at hi
        exact absurd hi.1 hid
    | some r =>
        rw [hr] at hi
        obtain ⟨-, -, href, hpos, -, hsec⟩ := hi
        exact ⟨r, rfl, Registration.release_eq_none_iff.mpr
          ⟨(hs.trans hsec).symm, by omega⟩⟩
  · rintro ⟨r, hr, hnone⟩
    rw [hr] at hi
    obtain ⟨hid, -, href, hpos, -, hsec⟩ := hi
    obtain ⟨hs, h0⟩ := Registration.release_eq_none_iff.mp hnone
    exact ⟨hid ▸ idOf_ne_zero i, (hsec.trans hs).symm, by omega⟩

namespace Dsp.Numbered

/-- `exit` is called once for each component that is removed. -/
theorem exits_release (h : d.Numbered) (s : Section) :
    ∃ l, (d.release s).exits = d.exits ++ l ∧ l.Nodup ∧ ∀ k, k ∈ l ↔
      ∃ i r, d.registered i = some r ∧ r.release s = none ∧
        r.serial = k := by
  refine ⟨_, rfl, ?_, fun k => ?_⟩
  · refine List.Nodup.filterMap ?_ ((List.nodup_finRange _).filter _)
    intro i j k hi hj
    obtain ⟨r, hr, hrk⟩ := Option.map_eq_some_iff.mp hi
    obtain ⟨r', hr', hrk'⟩ := Option.map_eq_some_iff.mp hj
    exact h.distinct i j r r' hr hr' (hrk.trans hrk'.symm)
  · rw [List.mem_filterMap]
    constructor
    · rintro ⟨i, hi, hk⟩
      obtain ⟨r, hr, hnone⟩ := (mem_exitCalls_iff h.exact).mp hi
      obtain ⟨r', hr', hrk⟩ := Option.map_eq_some_iff.mp hk
      obtain rfl := Option.some.inj (hr.symm.trans hr')
      exact ⟨i, r, hr, hnone, hrk⟩
    · rintro ⟨i, r, hr, hnone, rfl⟩
      exact ⟨i, (mem_exitCalls_iff h.exact).mpr ⟨r, hr, hnone⟩, by
        rw [hr]
        rfl⟩

theorem initial : locComponentsReset.Numbered where
  exact := exact_locComponentsReset
  distinct := fun _ _ _ _ h => by cases h
  fresh := fun _ _ h => by cases h
  exits_lt := fun _ h => by cases h
  live := fun _ _ h => by cases h

theorem setInit (h : d.Numbered) (init : InitCall) :
    Dsp.Numbered { d with init } :=
  ⟨h.exact, h.distinct, h.fresh, h.exits_lt, h.live⟩

theorem enter (h : d.Numbered) (i : Fin mlbMaxOverlayComponents)
    (s : Section) (name : ℕ) : (d.enter i s name).Numbered where
  exact := h.exact.enter i s name
  distinct i₁ i₂ r₁ r₂ h₁ h₂ heq := by
    obtain ⟨rfl, rfl⟩ | ⟨-, hold₁⟩ := registered_enter h₁
    all_goals obtain ⟨rfl, rfl⟩ | ⟨-, hold₂⟩ := registered_enter h₂
    · rfl
    · exact absurd heq (h.fresh _ _ hold₂).ne'
    · exact absurd heq (h.fresh _ _ hold₁).ne
    · exact h.distinct _ _ _ _ hold₁ hold₂ heq
  fresh j r hr := by
    show r.serial < d.nextSerial + 1
    obtain ⟨-, rfl⟩ | ⟨-, hold⟩ := registered_enter hr
    · exact Nat.lt_succ_self _
    · exact Nat.lt_succ_of_lt (h.fresh j r hold)
  exits_lt k hk := Nat.lt_succ_of_lt (h.exits_lt k hk)
  live j r hr := by
    show r.serial ∉ d.exits
    obtain ⟨-, rfl⟩ | ⟨-, hold⟩ := registered_enter hr
    · exact fun hmem => absurd (h.exits_lt _ hmem) (lt_irrefl _)
    · exact h.live j r hold

theorem takeRef (h : d.Numbered) (i : Fin mlbMaxOverlayComponents) :
    (d.takeRef i).Numbered where
  exact := h.exact.takeRef i
  distinct i₁ i₂ r₁ r₂ h₁ h₂ heq := by
    obtain ⟨r₁', hold₁, hs₁, -⟩ := registered_takeRef h₁
    obtain ⟨r₂', hold₂, hs₂, -⟩ := registered_takeRef h₂
    exact h.distinct _ _ _ _ hold₁ hold₂ (hs₁.symm.trans (heq.trans hs₂))
  fresh j r hr := by
    obtain ⟨r₀, hold, hs, -⟩ := registered_takeRef hr
    exact hs ▸ h.fresh j r₀ hold
  exits_lt := h.exits_lt
  live j r hr := by
    obtain ⟨r₀, hold, hs, -⟩ := registered_takeRef hr
    exact hs ▸ h.live j r₀ hold

theorem release (h : d.Numbered) (s : Section) : (d.release s).Numbered where
  exact := h.exact.release s
  distinct i₁ i₂ r₁ r₂ h₁ h₂ heq := by
    obtain ⟨r₁', hold₁, hrel₁⟩ := registered_release h₁
    obtain ⟨r₂', hold₂, hrel₂⟩ := registered_release h₂
    have hs₁ := (Registration.release_eq_some hrel₁).1
    have hs₂ := (Registration.release_eq_some hrel₂).1
    exact h.distinct _ _ _ _ hold₁ hold₂ (hs₁.symm.trans (heq.trans hs₂))
  fresh j r hr := by
    obtain ⟨r₀, hold, hrel⟩ := registered_release hr
    exact (Registration.release_eq_some hrel).1 ▸ h.fresh j r₀ hold
  exits_lt k hk := by
    obtain ⟨l, heq, -, hl⟩ := h.exits_release s
    rw [heq, List.mem_append] at hk
    obtain hk | hk := hk
    · exact h.exits_lt k hk
    · obtain ⟨i, r, hr, -, rfl⟩ := (hl k).mp hk
      exact h.fresh i r hr
  live j r hr := by
    obtain ⟨l, heq, -, hl⟩ := h.exits_release s
    obtain ⟨r₀, hold, hrel⟩ := registered_release hr
    rw [heq, List.mem_append, (Registration.release_eq_some hrel).1]
    rintro (hk | hk)
    · exact h.live j r₀ hold hk
    · obtain ⟨i, r', hr', hnone, hserial⟩ := (hl _).mp hk
      obtain rfl := h.distinct _ _ _ _ hr' hold hserial
      obtain rfl := Option.some.inj (hr'.symm.trans hold)
      rw [hnone] at hrel
      cases hrel

end Dsp.Numbered

/-! ## The references to a section -/

/-- Each component of the section is referred to as often as the section. -/
structure Counted.Balanced (s : Section) (c : Counted) : Prop where
  numbered : c.dsp.Numbered
  accounted : ∀ k < c.dsp.nextSerial, ∃ s, k ∈ c.members s ∨ k ∈ c.past s
  refs : ∀ i r, c.dsp.registered i = some r → r.sectionIdx = s →
    (r.refs : ℤ) = c.balance s
  held : c.balance s ≠ 0 →
    ∃ i r, c.dsp.registered i = some r ∧ r.sectionIdx = s
  member : ∀ k, k ∈ c.members s ↔
    ∃ i r, c.dsp.registered i = some r ∧ r.sectionIdx = s ∧ r.serial = k
  past : ∀ k ∈ c.past s, c.dsp.exits.count k = 1
  init : c.dsp.init.In s → c.balance s = 1

namespace Counted

theorem unref_of_ne {t : Section} (h : s ≠ t) :
    (c.unref t).balance s = c.balance s ∧
      (c.unref t).members s = c.members s ∧ (c.unref t).past s = c.past s := by
  unfold unref
  split_ifs
  · exact ⟨Function.update_of_ne h .., Function.update_of_ne h ..,
      Function.update_of_ne h ..⟩
  · exact ⟨Function.update_of_ne h .., rfl, rfl⟩

theorem unref_of_last (h : c.balance s = 1) :
    (c.unref s).balance s = 0 ∧ (c.unref s).members s = [] ∧
      (c.unref s).past s = c.past s ++ c.members s := by
  unfold unref
  rw [if_pos (by omega)]
  exact ⟨Function.update_self .., Function.update_self ..,
    Function.update_self ..⟩

theorem unref_of_more (h : c.balance s ≠ 1) :
    (c.unref s).balance s = c.balance s - 1 ∧
      (c.unref s).members s = c.members s ∧ (c.unref s).past s = c.past s := by
  unfold unref
  rw [if_neg (by omega)]
  exact ⟨Function.update_self .., rfl, rfl⟩

/-- Giving back a reference loses no component. -/
theorem mem_unref (t : Section) (h : k ∈ c.members s ∨ k ∈ c.past s) :
    k ∈ (c.unref t).members s ∨ k ∈ (c.unref t).past s := by
  by_cases hs : s = t
  · subst hs
    by_cases hlast : c.balance s = 1
    · rw [(unref_of_last hlast).2.2, List.mem_append]
      exact Or.inr h.symm
    · rwa [(unref_of_more hlast).2.1, (unref_of_more hlast).2.2]
  · rwa [(unref_of_ne hs).2.1, (unref_of_ne hs).2.2]

end Counted

namespace Counted.Balanced

theorem initial (s : Section) : Counted.initial.Balanced s where
  numbered := Dsp.Numbered.initial
  accounted := fun _ hk => absurd hk (Nat.not_lt_zero _)
  refs := fun _ _ h => by cases h
  held := fun h => absurd rfl h
  member := fun _ => iff_of_false List.not_mem_nil fun h => by
    obtain ⟨_, _, h, -⟩ := h
    cases h
  past := fun _ h => by cases h
  init := False.elim

theorem registered_eq_none (h : c.Balanced s)
    (hi : (c.dsp.table i).componentId = 0) : c.dsp.registered i = none := by
  cases hr : c.dsp.registered i with
  | none => rfl
  | some r => exact absurd hi (h.numbered.exact.entry hr).1

theorem still (h : c.Balanced s) {init : InitCall}
    (hin : init.In s → c.dsp.init.In s) :
    Counted.Balanced s { c with dsp := { c.dsp with init } } where
  numbered := h.numbered.setInit init
  accounted := h.accounted
  refs := h.refs
  held := h.held
  member := h.member
  past := h.past
  init := fun hi => h.init (hin hi)

/-- A component of some section enters, and the references to the section
are as many as the component's. -/
theorem enter (h : c.Balanced s) {t : Section} {name : ℕ} {init : InitCall}
    {balance : Section → ℤ} (hi : c.dsp.registered i = none)
    (hin : init.In s → t = s)
    (hself : t = s → balance s = 1 ∧ ∀ j r, c.dsp.registered j = some r →
      r.sectionIdx = s → r.refs = 1)
    (hother : t ≠ s → balance s = c.balance s) :
    Counted.Balanced s
      { c.join t with
        dsp := { c.dsp.enter i t name with init }
        balance } where
  numbered := (h.numbered.enter i t name).setInit init
  accounted k hk := by
    have hk : k < c.dsp.nextSerial + 1 := hk
    show ∃ s, k ∈ Function.update c.members t
      (c.members t ++ [c.dsp.nextSerial]) s ∨ k ∈ c.past s
    obtain hlt | rfl := Nat.lt_succ_iff_lt_or_eq.mp hk
    · obtain ⟨s', hmem | hpast⟩ := h.accounted k hlt
      · refine ⟨s', Or.inl ?_⟩
        by_cases hs : s' = t
        · subst hs
          rw [Function.update_self]
          exact List.mem_append_left _ hmem
        · rwa [Function.update_of_ne hs]
      · exact ⟨s', Or.inr hpast⟩
    · refine ⟨t, Or.inl ?_⟩
      rw [Function.update_self]
      exact List.mem_append_right _ (List.mem_singleton_self _)
  refs j r hr hs := by
    show (r.refs : ℤ) = balance s
    obtain ⟨-, rfl⟩ | ⟨-, hold⟩ := registered_enter hr
    · exact (hself hs).1.symm
    · by_cases ht : t = s
      · rw [(hself ht).1, (hself ht).2 j r hold hs]
        rfl
      · rw [hother ht]
        exact h.refs j r hold hs
  held hne := by
    by_cases ht : t = s
    · exact ⟨i, _, Function.update_self .., ht⟩
    · obtain ⟨j, r, hr, hs⟩ := h.held (hother ht ▸ hne)
      exact ⟨j, r, registered_enter_of_old hi hr, hs⟩
  member k := by
    show k ∈ Function.update c.members t
      (c.members t ++ [c.dsp.nextSerial]) s ↔ _
    have hold : k ∈ c.members s → ∃ j r,
        (c.dsp.enter i t name).registered j = some r ∧ r.sectionIdx = s ∧
          r.serial = k := by
      intro hk
      obtain ⟨j, r, hr, hs, hserial⟩ := (h.member k).mp hk
      exact ⟨j, r, registered_enter_of_old hi hr, hs, hserial⟩
    by_cases ht : s = t
    · subst ht
      rw [Function.update_self, List.mem_append, List.mem_singleton]
      constructor
      · rintro (hk | rfl)
        · exact hold hk
        · exact ⟨i, _, Function.update_self .., rfl, rfl⟩
      · rintro ⟨j, r, hr, hs, rfl⟩
        obtain ⟨-, rfl⟩ | ⟨-, hr⟩ := registered_enter hr
        · exact Or.inr rfl
        · exact Or.inl ((h.member _).mpr ⟨j, r, hr, hs, rfl⟩)
    · rw [Function.update_of_ne ht]
      refine ⟨hold, ?_⟩
      rintro ⟨j, r, hr, hs, rfl⟩
      obtain ⟨-, rfl⟩ | ⟨-, hr⟩ := registered_enter hr
      · exact absurd hs.symm ht
      · exact (h.member _).mpr ⟨j, r, hr, hs, rfl⟩
  past := h.past
  init hi := (hself (hin hi)).1

theorem not_in_of_none (hinit : c.dsp.init = .none) : ¬c.dsp.init.In s := by
  rw [hinit]
  exact id

/-- `exit` is not called again for a component that is gone. -/
theorem count_release_of_past (h : c.Balanced s) (t : Section)
    (hk : k ∈ c.past s) : (c.dsp.release t).exits.count k = 1 := by
  obtain ⟨l, hl, -, hlmem⟩ := h.numbered.exits_release t
  have hone := h.past k hk
  have hold : k ∈ c.dsp.exits := List.count_pos_iff.mp (by omega)
  have hnew : k ∉ l := by
    intro hkl
    obtain ⟨i, r, hr, -, rfl⟩ := (hlmem k).mp hkl
    exact h.numbered.live i r hr hold
  rw [hl, List.count_append, hone, List.count_eq_zero_of_not_mem hnew]

/-- A reference is taken to a component of another section, or to the only
component of the section. -/
theorem take (h : c.Balanced s) {t : Section}
    (hi : c.dsp.registered i = some r) (ht : r.sectionIdx = t)
    (hinit : c.dsp.init = .none)
    (honly : t = s → ∀ j r', c.dsp.registered j = some r' →
      r'.sectionIdx = s → j = i) :
    Counted.Balanced s { c.ref t with dsp := c.dsp.takeRef i } := by
  have hbalance : t ≠ s →
      Function.update c.balance t (c.balance t + 1) s = c.balance s :=
    fun hne => Function.update_of_ne hne.symm ..
  have hkept : ∀ j r', c.dsp.registered j = some r' → ∃ r'',
      (c.dsp.takeRef i).registered j = some r'' ∧
        r''.sectionIdx = r'.sectionIdx ∧ r''.serial = r'.serial := by
    intro j r' hr'
    by_cases hj : j = i
    · subst hj
      refine ⟨{ r' with refs := r'.refs + 1 }, ?_, rfl, rfl⟩
      exact (Function.update_self ..).trans (by rw [hr']; rfl)
    · exact ⟨r', (Function.update_of_ne hj ..).trans hr', rfl, rfl⟩
  refine ⟨h.numbered.takeRef i, h.accounted, ?_, ?_, fun k => ?_, h.past, ?_⟩
  · intro j r' hr' hs
    show (r'.refs : ℤ) = Function.update c.balance t (c.balance t + 1) s
    obtain ⟨r₀, hold, -, hsec, hrefs⟩ := registered_takeRef hr'
    have hr₀ := h.refs j r₀ hold (hsec.symm.trans hs)
    by_cases hts : t = s
    · obtain rfl := honly hts j r₀ hold (hsec.symm.trans hs)
      rw [hrefs, if_pos rfl, hts, Function.update_self, ← hr₀]
      rfl
    · have hj : j ≠ i := by
        rintro rfl
        obtain rfl := Option.some.inj (hi.symm.trans hold)
        exact hts (ht.symm.trans (hsec.symm.trans hs))
      rw [hrefs, if_neg hj, hbalance hts, hr₀]
  · intro hne
    by_cases hts : t = s
    · obtain ⟨r', hr', hsec, -⟩ := hkept i r hi
      exact ⟨i, r', hr', hsec.trans (ht.trans hts)⟩
    · obtain ⟨j, r', hr', hs⟩ := h.held fun h0 =>
        hne ((hbalance hts).trans h0)
      obtain ⟨r'', hr'', hsec, -⟩ := hkept j r' hr'
      exact ⟨j, r'', hr'', hsec.trans hs⟩
  · refine (h.member k).trans ⟨?_, ?_⟩
    · rintro ⟨j, r', hr', hs, hk⟩
      obtain ⟨r'', hr'', hsec, hserial⟩ := hkept j r' hr'
      exact ⟨j, r'', hr'', hsec.trans hs, hserial.trans hk⟩
    · rintro ⟨j, r', hr', hs, hk⟩
      obtain ⟨r₀, hold, hserial, hsec, -⟩ := registered_takeRef hr'
      exact ⟨j, r₀, hold, hsec.symm.trans hs, hserial.symm.trans hk⟩
  · exact fun hin => (not_in_of_none hinit hin).elim

/-- What is left of a registration when a reference to another section is given
back, or one of several references to its own. -/
theorem registered_release_iff (h : c.Balanced s) {t : Section}
    (hmore : t = s → 1 < c.balance s) (j : Fin mlbMaxOverlayComponents) :
    (∀ r', (c.dsp.release t).registered j = some r' → r'.sectionIdx = s →
      ∃ r, c.dsp.registered j = some r ∧ r.sectionIdx = s ∧
        r'.serial = r.serial ∧
        r'.refs = if t = s then r.refs - 1 else r.refs) ∧
    ∀ r, c.dsp.registered j = some r → r.sectionIdx = s →
      ∃ r', (c.dsp.release t).registered j = some r' ∧
        r'.sectionIdx = s ∧ r'.serial = r.serial := by
  constructor
  · intro r' hr' hs
    obtain ⟨r, hr, hrel⟩ := registered_release hr'
    obtain ⟨hserial, hsec, hrefs⟩ := Registration.release_eq_some hrel
    have hrs : r.sectionIdx = s := hsec.symm.trans hs
    refine ⟨r, hr, hrs, hserial, hrefs.trans ?_⟩
    simp only [hrs, eq_comm]
  · intro r hr hs
    have hrefs := h.refs j r hr hs
    cases hrel : r.release t with
    | none =>
        obtain ⟨hst, h0⟩ := Registration.release_eq_none_iff.mp hrel
        have := hmore (hst.symm.trans hs)
        omega
    | some r' =>
        obtain ⟨hserial, hsec, -⟩ := Registration.release_eq_some hrel
        exact ⟨r', Option.bind_eq_some_iff.mpr ⟨r, hr, hrel⟩, hsec.trans hs,
          hserial⟩

/-- A reference to another section is given back, or one of several. -/
theorem release_more (h : c.Balanced s) {t : Section}
    (hinit : c.dsp.init = .none) (hmore : t = s → 1 < c.balance s) :
    Counted.Balanced s { c.unref t with dsp := c.dsp.release t } := by
  have hreg := h.registered_release_iff hmore
  have hghost : (c.unref t).balance s =
      (if t = s then c.balance s - 1 else c.balance s) ∧
      (c.unref t).members s = c.members s ∧
      (c.unref t).past s = c.past s := by
    by_cases hts : t = s
    · subst hts
      have := unref_of_more (c := c) (s := t) (by have := hmore rfl; omega)
      rwa [if_pos rfl]
    · rw [if_neg hts]
      exact unref_of_ne fun hst => hts hst.symm
  obtain ⟨hbalance, hmembers, hpast⟩ := hghost
  refine ⟨h.numbered.release t, ?_, ?_, ?_, fun k => ?_, ?_, ?_⟩
  · intro k hk
    obtain ⟨s', hs'⟩ := h.accounted k hk
    exact ⟨s', mem_unref t hs'⟩
  · intro j r' hr' hs
    obtain ⟨r, hr, hrs, -, hrefs⟩ := (hreg j).1 r' hr' hs
    have := h.refs j r hr hrs
    show (r'.refs : ℤ) = (c.unref t).balance s
    rw [hbalance, hrefs]
    split_ifs with hts
    · have := hmore hts
      omega
    · exact this
  · intro hne
    have hne : c.balance s ≠ 0 := by
      intro h0
      apply hne
      show (c.unref t).balance s = 0
      rw [hbalance, if_neg (fun hts => by have := hmore hts; omega), h0]
    obtain ⟨j, r, hr, hs⟩ := h.held hne
    obtain ⟨r', hr', hs', -⟩ := (hreg j).2 r hr hs
    exact ⟨j, r', hr', hs'⟩
  · show k ∈ (c.unref t).members s ↔ _
    rw [hmembers, h.member k]
    constructor
    · rintro ⟨j, r, hr, hs, hk⟩
      obtain ⟨r', hr', hs', hserial⟩ := (hreg j).2 r hr hs
      exact ⟨j, r', hr', hs', hserial.trans hk⟩
    · rintro ⟨j, r', hr', hs, hk⟩
      obtain ⟨r, hr, hrs, hserial, -⟩ := (hreg j).1 r' hr' hs
      exact ⟨j, r, hr, hrs, hserial.symm.trans hk⟩
  · intro k hk
    have hk : k ∈ (c.unref t).past s := hk
    rw [hpast] at hk
    exact h.count_release_of_past t hk
  · exact fun hin => (not_in_of_none hinit hin).elim

/-- The last reference to the section is given back: its components are gone,
and `exit` was called once for each. -/
theorem release_last (h : c.Balanced s) (hinit : c.dsp.init = .none)
    (hlast : c.balance s = 1) :
    Counted.Balanced s { c.unref s with dsp := c.dsp.release s } := by
  obtain ⟨hbalance, hmembers, hpast⟩ := unref_of_last hlast
  obtain ⟨l, hl, hnodup, hlmem⟩ := h.numbered.exits_release s
  have hnone : ∀ j r, c.dsp.registered j = some r → r.sectionIdx = s →
      r.release s = none := by
    intro j r hr hs
    have := h.refs j r hr hs
    exact Registration.release_eq_none_iff.mpr ⟨hs, by omega⟩
  have hgone : ∀ j r', (c.dsp.release s).registered j = some r' →
      r'.sectionIdx ≠ s := by
    intro j r' hr' hs
    obtain ⟨r, hr, hrel⟩ := registered_release hr'
    have hsec := (Registration.release_eq_some hrel).2.1
    rw [hnone j r hr (hsec.symm.trans hs)] at hrel
    cases hrel
  refine ⟨h.numbered.release s, ?_, ?_, ?_, fun k => ?_, ?_, ?_⟩
  · intro k hk
    obtain ⟨s', hs'⟩ := h.accounted k hk
    exact ⟨s', mem_unref s hs'⟩
  · exact fun j r' hr' hs => absurd hs (hgone j r' hr')
  · exact fun hne => absurd hbalance hne
  · show k ∈ (c.unref s).members s ↔ _
    rw [hmembers]
    refine iff_of_false List.not_mem_nil ?_
    rintro ⟨j, r', hr', hs, -⟩
    exact hgone j r' hr' hs
  · intro k hk
    have hk : k ∈ (c.unref s).past s := hk
    show (c.dsp.release s).exits.count k = 1
    rw [hpast, List.mem_append] at hk
    obtain hk | hk := hk
    · exact h.count_release_of_past s hk
    · obtain ⟨i, r, hr, hs, rfl⟩ := (h.member k).mp hk
      rw [hl, List.count_append,
        List.count_eq_zero_of_not_mem (h.numbered.live i r hr),
        List.count_eq_one_of_mem hnodup
          ((hlmem _).mpr ⟨i, r, hr, hnone i r hr hs, rfl⟩)]
  · exact fun hin => (not_in_of_none hinit hin).elim

theorem step (h : c.Balanced s) (hstep : CountedStep s c c') :
    c'.Balanced s := by
  cases hstep with
  | still init hin => exact h.still hin
  | enterMain i t name hi hvacant =>
      refine h.enter (h.registered_eq_none hi) id ?_ fun hne =>
        Function.update_of_ne (fun hs => hne hs.symm) ..
      rintro rfl
      have hempty : ∀ j r, c.dsp.registered j = some r → r.sectionIdx ≠ t :=
        fun j r hr hs => by
          obtain ⟨hid, hsec⟩ := h.numbered.exact.entry hr
          exact hvacant rfl j hid (hsec.trans hs)
      have hzero : c.balance t = 0 := by
        by_contra hne
        obtain ⟨j, r, hr, hs⟩ := h.held hne
        exact hempty j r hr hs
      refine ⟨?_, fun j r hr hs => absurd hs (hempty j r hr)⟩
      show Function.update c.balance t (c.balance t + 1) t = 1
      rw [Function.update_self, hzero]
      rfl
  | enterExtra j i t name hj hinit =>
      refine h.enter (h.registered_eq_none hj) id ?_ fun _ => rfl
      rintro rfl
      have hone : c.balance t = 1 := h.init (by rw [hinit]; rfl)
      refine ⟨hone, fun j r hr hs => ?_⟩
      have := h.refs j r hr hs
      omega
  | take i hinit hi honly =>
      obtain ⟨r, hr, hsec⟩ := h.numbered.exact.registered hi
      refine h.take hr hsec.symm hinit fun hts j r' hr' hs => ?_
      obtain ⟨hid, hsec'⟩ := h.numbered.exact.entry hr'
      exact honly hts j hid (hsec'.trans hs)
  | release t hinit hpos =>
      by_cases hts : t = s
      · subst hts
        by_cases hlast : c.balance t = 1
        · exact h.release_last hinit hlast
        · have := hpos rfl
          exact h.release_more hinit fun _ => by omega
      · exact h.release_more hinit fun hst => absurd hst hts

end Counted.Balanced

/-! ## Every run -/

theorem balanced_of_reachable
    (h : ((countedMachine core).restrict (RefsShared core s)).Reachable c) :
    c.Balanced s := by
  refine Machine.Reachable.invariant ?_ ?_ h
  · rintro c rfl
    exact Counted.Balanced.initial s
  · exact fun c op c' hc hstep =>
      hc.step (countedStep_of_next hstep.1 hstep.2)

theorem Counted.Balanced.lawful (h : c.Balanced s) : c.Lawful s where
  accounted := h.accounted
  stay _ k hk := by
    obtain ⟨i, r, hr, hs, rfl⟩ := (h.member k).mp hk
    have hi := h.numbered.exact i
    rw [hr] at hi
    exact ⟨i, r, hr, rfl, hs, hi.1, hi.2.1, h.numbered.live i r hr⟩
  gone h0 := by
    have hempty : ∀ i r, c.dsp.registered i = some r → r.sectionIdx ≠ s := by
      intro i r hr hs
      have hi := h.numbered.exact i
      have hrefs := h.refs i r hr hs
      rw [hr] at hi
      have hpos := hi.2.2.2.1
      omega
    constructor
    · refine List.eq_nil_iff_forall_not_mem.mpr fun k hk => ?_
      obtain ⟨i, r, hr, hs, -⟩ := (h.member k).mp hk
      exact hempty i r hr hs
    · intro i hi hs
      obtain ⟨r, hr, hsec⟩ := h.numbered.exact.registered hi
      exact hempty i r hr (hsec.symm.trans hs)
  exited := h.past

/-- As long as the references to a section are references to each of its
components, the components come and go with them. -/
theorem lawful_of_refsShared (core : ℕ → Option ℕ) (s : Section)
    (c : Counted)
    (h : ((countedMachine core).restrict (RefsShared core s)).Reachable c) :
    c.Lawful s :=
  (balanced_of_reachable h).lawful

/-- A section with two components is used once, and one with a single
component is shared. -/
def countedRun : List RegistryOp :=
  [.overlayRegister 0 1, .componentRegister (some ⟨2, true⟩) 0,
    .initReturns true, .initReturns true, .overlayUnregister 0,
    .overlayRegister 0 1, .initReturns true, .findByName 1 true,
    .overlayUnregister 0]

theorem countedRun_lawful :
    ∃ c, ((countedMachine fun _ => none).restrict
        (RefsShared (fun _ => none) 0)).Reachable c ∧
      c.balance 0 = 1 ∧ c.past 0 = [0, 1] ∧ c.Lawful 0 := by
  have hrun : ∃ c, ((countedMachine fun _ => none).restrict
      (RefsShared (fun _ => none) 0)).Reachable c ∧
        c.balance 0 = 1 ∧ c.past 0 = [0, 1] :=
    Machine.exists_restrict_reachable_of_run
      (fun c : Counted => c.balance 0 = 1 ∧ c.past 0 = [0, 1]) countedRun
      (by decide +kernel)
  obtain ⟨c, hc, hbalance, hpast⟩ := hrun
  exact ⟨c, hc, hbalance, hpast, lawful_of_refsShared _ 0 c hc⟩

/-- One of two components is found, and the first reference that is given back
removes the other. -/
theorem found_one_of_two_not_lawful :
    ∃ c, (countedMachine fun _ => none).Reachable c ∧ ¬ c.Lawful 0 := by
  have hrun : ∃ c, (countedMachine fun _ => none).Reachable c ∧
      c.balance 0 = 1 ∧ c.members 0 = [0, 1] ∧ c.dsp.exits = [1] :=
    Machine.exists_reachable_of_run
      (fun c : Counted => c.balance 0 = 1 ∧ c.members 0 = [0, 1] ∧
        c.dsp.exits = [1])
      [.overlayRegister 0 1, .componentRegister (some ⟨2, true⟩) 0,
        .initReturns true, .initReturns true, .findByName 1 true,
        .overlayUnregister 0] (by decide +kernel)
  obtain ⟨c, hc, hbalance, hmembers, hexits⟩ := hrun
  refine ⟨c, hc, fun h => ?_⟩
  obtain ⟨i, r, -, -, -, -, -, hexit⟩ := h.stay (by omega) 1 (by
    rw [hmembers]
    decide)
  rw [hexits] at hexit
  exact hexit (List.mem_singleton_self 1)

end C64Tools.Overlay
