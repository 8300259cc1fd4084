import C64Tools.Kmod.Dev.Model
import Mathlib.Data.List.FinRange

/-!
# The component table of the DSP

The overlay part of the `components` array: components are found by their name,
registered in the first unused entry, and unregistered by the section that
holds their code.  The entries before it belong to the core image; they are
never unregistered, and only their names matter here.
-/

namespace C64Tools.Overlay

open Kmod (Section)

/-- `MLB_MAX_CORE_COMPONENTS`. -/
def mlbMaxCoreComponents : ℕ := 16

/-- `MLB_MAX_OVERLAY_COMPONENTS`. -/
abbrev mlbMaxOverlayComponents : ℕ := 32

/-- An entry of the `components` array.  Names are only compared, and a number
stands for each; `hasExec` tells whether `fxns.exec` is set. -/
structure Component where
  name : ℕ
  componentId : ℕ
  overlaySectionIdx : Section
  refCount : ℤ
  hasExec : Bool
  deriving DecidableEq, Repr

/-- A zeroed entry. -/
def Component.unused : Component where
  name := 0
  componentId := 0
  overlaySectionIdx := 0
  refCount := 0
  hasExec := false

/-- The overlay part of the `components` array. -/
abbrev Table := Fin mlbMaxOverlayComponents → Component

/-- The id of the component in an entry. -/
def idOf (i : Fin mlbMaxOverlayComponents) : ℕ := mlbMaxCoreComponents + i

/-- What `loc_component_find_by_name` finds: an entry of the core image, which
has an id and no section of its own, or an overlay component. -/
inductive Found where
  | core (id : ℕ)
  | overlay (i : Fin mlbMaxOverlayComponents)
  deriving DecidableEq, Repr

/-- `loc_component_find_by_name`, without the reference count. -/
def locComponentFindByName (core : ℕ → Option ℕ) (name : ℕ) (t : Table) :
    Option Found :=
  match core name with
  | some id => some (.core id)
  | none =>
      ((List.finRange mlbMaxOverlayComponents).find? fun i =>
        (t i).componentId ≠ 0 ∧ (t i).name = name).map .overlay

/-- The reference count of a component that was found goes up. -/
def incRef (i : Fin mlbMaxOverlayComponents) (t : Table) : Table :=
  Function.update t i { t i with refCount := (t i).refCount + 1 }

/-- What `loc_mlb_overlay_unregister` does to an entry. -/
def Component.unregister (s : Section) (c : Component) : Component :=
  if c.componentId ≠ 0 ∧ s = c.overlaySectionIdx then
    if c.refCount - 1 = 0 then
      { c with refCount := c.refCount - 1, componentId := 0, hasExec := false }
    else { c with refCount := c.refCount - 1 }
  else c

/-- `loc_mlb_overlay_unregister`. -/
def locMlbOverlayUnregister (s : Section) (t : Table) : Table :=
  fun i => (t i).unregister s

/-- The first unused entry. -/
def firstUnused (t : Table) : Option (Fin mlbMaxOverlayComponents) :=
  (List.finRange mlbMaxOverlayComponents).find? fun i =>
    (t i).componentId = 0

/-- A component that an overlay registers from its `init` function, and
whether the component's own `init` succeeds. -/
structure Extra where
  name : ℕ
  initOk : Bool
  deriving DecidableEq, Repr

/-- `mlb_syscall_component_register`. -/
def mlbSyscallComponentRegister (s : Section) (t : Table) (e : Extra) :
    Table :=
  match firstUnused t with
  | some i =>
      Function.update t i
        { name := e.name
          componentId := if e.initOk then idOf i else 0
          overlaySectionIdx := s
          refCount := 1
          hasExec := true }
  | none => t

/-- What an overlay image does when it is registered: the name of its main
component, the components which this one registers, and whether its `init`
succeeds. -/
structure Image where
  name : ℕ
  extras : List Extra
  initOk : Bool
  deriving DecidableEq, Repr

/-- An entry is put back into the pool of free components. -/
def putBack (i : Fin mlbMaxOverlayComponents) (t : Table) : Table :=
  Function.update t i { t i with componentId := 0, hasExec := false }

/-- `loc_mlb_overlay_register`: the id of the main component, and the table
afterwards. -/
def locMlbOverlayRegister (image : Image) (s : Section) (t : Table) :
    Option ℕ × Table :=
  match firstUnused t with
  | some i =>
      let main : Component :=
        { name := image.name
          componentId := idOf i
          overlaySectionIdx := s
          refCount := 1
          hasExec := true }
      let t := image.extras.foldl (mlbSyscallComponentRegister s)
        (Function.update t i main)
      if image.initOk then (some (idOf i), t)
      else
        (none, locMlbOverlayUnregister s (putBack i t))
  | none => (none, t)

/-! ## What is registered -/

/-- No component of the section is registered. -/
def Vacant (s : Section) (t : Table) : Prop :=
  ∀ i, (t i).componentId ≠ 0 → (t i).overlaySectionIdx ≠ s

/-- Every component of the section has been taken once. -/
def SingleUse (s : Section) (t : Table) : Prop :=
  ∀ i, (t i).componentId ≠ 0 → (t i).overlaySectionIdx = s →
    (t i).refCount = 1

/-- Some component of the section has been taken twice. -/
def Shared (s : Section) (t : Table) : Prop :=
  ∃ i, (t i).componentId ≠ 0 ∧ (t i).overlaySectionIdx = s ∧
    2 ≤ (t i).refCount

instance (s : Section) (t : Table) : Decidable (Vacant s t) :=
  inferInstanceAs (Decidable (∀ _, _ → _))

instance (s : Section) (t : Table) : Decidable (SingleUse s t) :=
  inferInstanceAs (Decidable (∀ _, _ → _ → _))

/-- Registered components have been taken, and the others are not called. -/
structure Table.Sound (t : Table) : Prop where
  taken : ∀ i, (t i).componentId ≠ 0 → 1 ≤ (t i).refCount
  exec : ∀ i, (t i).hasExec = true → (t i).componentId ≠ 0

variable {s s' : Section} {t : Table}

theorem idOf_ne_zero (i : Fin mlbMaxOverlayComponents) : idOf i ≠ 0 := by
  unfold idOf mlbMaxCoreComponents
  omega

theorem Shared.not_vacant (h : Shared s t) : ¬ Vacant s t := by
  obtain ⟨i, hi, hs, -⟩ := h
  exact fun hv => hv i hi hs

theorem Shared.not_singleUse (h : Shared s t) : ¬ SingleUse s t := by
  obtain ⟨i, hi, hs, hr⟩ := h
  intro h1
  have := h1 i hi hs
  omega

theorem Vacant.singleUse (h : Vacant s t) : SingleUse s t :=
  fun i hi hs => absurd hs (h i hi)

/-! ## Finding a component -/

/-- What is found is in use and has the name. -/
theorem entry_of_found {core : ℕ → Option ℕ} {name : ℕ}
    {i : Fin mlbMaxOverlayComponents}
    (h : locComponentFindByName core name t = some (.overlay i)) :
    (t i).componentId ≠ 0 ∧ (t i).name = name := by
  unfold locComponentFindByName at h
  cases hcore : core name with
  | some id => simp [hcore] at h
  | none =>
      rw [hcore] at h
      obtain ⟨j, hj, hji⟩ := Option.map_eq_some_iff.mp h
      obtain rfl := Found.overlay.inj hji
      have hused := List.find?_some hj
      simp only [decide_eq_true_eq] at hused
      exact hused

theorem componentId_of_found {core : ℕ → Option ℕ} {name : ℕ}
    {i : Fin mlbMaxOverlayComponents}
    (h : locComponentFindByName core name t = some (.overlay i)) :
    (t i).componentId ≠ 0 :=
  (entry_of_found h).1

theorem name_of_found {core : ℕ → Option ℕ} {name : ℕ}
    {i : Fin mlbMaxOverlayComponents}
    (h : locComponentFindByName core name t = some (.overlay i)) :
    (t i).name = name :=
  (entry_of_found h).2

theorem name_ne_of_notFound {core : ℕ → Option ℕ} {name : ℕ}
    {i : Fin mlbMaxOverlayComponents}
    (h : locComponentFindByName core name t = none)
    (hi : (t i).componentId ≠ 0) : (t i).name ≠ name := by
  unfold locComponentFindByName at h
  cases hcore : core name with
  | some id => simp [hcore] at h
  | none =>
      rw [hcore] at h
      have hnone := List.find?_eq_none.mp (Option.map_eq_none_iff.mp h) i
        (List.mem_finRange i)
      simp only [decide_eq_true_eq] at hnone
      exact fun hname => hnone ⟨hi, hname⟩

theorem core_of_found {core : ℕ → Option ℕ} {name id : ℕ}
    (h : locComponentFindByName core name t = some (.core id)) :
    core name = some id := by
  unfold locComponentFindByName at h
  cases hcore : core name with
  | some id' =>
      rw [hcore] at h
      obtain rfl := Found.core.inj (Option.some.inj h)
      rfl
  | none =>
      rw [hcore] at h
      obtain ⟨j, -, hj⟩ := Option.map_eq_some_iff.mp h
      cases hj

theorem incRef_entry (i j : Fin mlbMaxOverlayComponents) (t : Table) :
    incRef i t j = t j ∨
      incRef i t j = { t j with refCount := (t j).refCount + 1 } := by
  by_cases hj : j = i
  · subst hj
    exact Or.inr (Function.update_self ..)
  · exact Or.inl (Function.update_of_ne hj ..)

theorem Vacant.incRef (h : Vacant s t) (i : Fin mlbMaxOverlayComponents) :
    Vacant s (incRef i t) := by
  intro j hj
  obtain heq | heq := incRef_entry i j t
  all_goals
    rw [heq] at hj ⊢
    exact h j hj

theorem Shared.incRef (h : Shared s t) (i : Fin mlbMaxOverlayComponents) :
    Shared s (incRef i t) := by
  obtain ⟨j, hj, hs, hr⟩ := h
  refine ⟨j, ?_⟩
  obtain heq | heq := incRef_entry i j t
  · rw [heq]
    exact ⟨hj, hs, hr⟩
  · rw [heq]
    exact ⟨hj, hs, by show 2 ≤ (t j).refCount + 1; omega⟩

theorem Table.Sound.incRef (h : t.Sound)
    (i : Fin mlbMaxOverlayComponents) : (incRef i t).Sound where
  taken j hj := by
    obtain heq | heq := incRef_entry i j t
    · rw [heq] at hj ⊢
      exact h.taken j hj
    · rw [heq] at hj ⊢
      have := h.taken j hj
      show 1 ≤ (t j).refCount + 1
      omega
  exec j hj := by
    obtain heq | heq := incRef_entry i j t
    all_goals
      rw [heq] at hj ⊢
      exact h.exec j hj

/-- Whoever finds a registered component shares its section. -/
theorem Table.Sound.shared_incRef (h : t.Sound)
    {i : Fin mlbMaxOverlayComponents} (hi : (t i).componentId ≠ 0) :
    Shared (t i).overlaySectionIdx (Overlay.incRef i t) := by
  have := h.taken i hi
  refine ⟨i, ?_⟩
  rw [show Overlay.incRef i t i =
    { t i with refCount := (t i).refCount + 1 } from Function.update_self ..]
  exact ⟨hi, rfl, by show 2 ≤ (t i).refCount + 1; omega⟩

/-! ## Unregistering a section -/

theorem Component.unregister_section (c : Component) :
    (c.unregister s).overlaySectionIdx = c.overlaySectionIdx := by
  unfold Component.unregister
  split_ifs <;> rfl

theorem Component.unregister_of_ne {c : Component}
    (h : c.overlaySectionIdx ≠ s) : c.unregister s = c :=
  if_neg fun hc => h hc.2.symm

theorem Component.componentId_of_unregister {c : Component}
    (h : (c.unregister s).componentId ≠ 0) : c.componentId ≠ 0 := by
  unfold Component.unregister at h
  split_ifs at h with hc
  · exact absurd rfl h
  · exact h
  · exact h

theorem Component.unregister_of_single {c : Component}
    (hs : c.overlaySectionIdx = s) (hr : c.componentId ≠ 0 → c.refCount = 1) :
    (c.unregister s).componentId = 0 := by
  unfold Component.unregister
  split_ifs with hc h0
  · rfl
  · exact absurd (by rw [hr hc.1]; rfl) h0
  · by_contra hid
    exact hc ⟨hid, hs.symm⟩

theorem Vacant.unregister (h : Vacant s' t) (s : Section) :
    Vacant s' (locMlbOverlayUnregister s t) := by
  intro i hi
  rw [locMlbOverlayUnregister, Component.unregister_section]
  exact h i (Component.componentId_of_unregister hi)

theorem SingleUse.vacant_unregister (h : SingleUse s t) :
    Vacant s (locMlbOverlayUnregister s t) := by
  intro i hi hs
  rw [locMlbOverlayUnregister, Component.unregister_section] at hs
  exact hi (Component.unregister_of_single hs fun hid => h i hid hs)

theorem Shared.unregister_of_ne (h : Shared s' t) (hne : s' ≠ s) :
    Shared s' (locMlbOverlayUnregister s t) := by
  obtain ⟨i, hi, hs, hr⟩ := h
  refine ⟨i, ?_⟩
  rw [locMlbOverlayUnregister, Component.unregister_of_ne (hs ▸ hne)]
  exact ⟨hi, hs, hr⟩

theorem Table.Sound.unregister (h : t.Sound) (s : Section) :
    (locMlbOverlayUnregister s t).Sound where
  taken i hi := by
    have hid := Component.componentId_of_unregister hi
    have hr := h.taken i hid
    simp only [locMlbOverlayUnregister, Component.unregister] at hi ⊢
    split_ifs at hi ⊢ with hc h0
    · exact absurd rfl hi
    · show 1 ≤ (t i).refCount - 1
      omega
    · exact hr
  exec i hi := by
    simp only [locMlbOverlayUnregister, Component.unregister] at hi ⊢
    split_ifs at hi ⊢ with hc h0
    · exact hc.1
    · exact h.exec i hi

/-! ## Registering an overlay -/

/-- Entries are kept, unless they were unused and are now components of the
section that have been taken once. -/
def Added (s : Section) (t t' : Table) : Prop :=
  ∀ i, t' i = t i ∨ (t i).componentId = 0 ∧ (t' i).componentId ≠ 0 ∧
    (t' i).overlaySectionIdx = s ∧ (t' i).refCount = 1

theorem Added.refl (s : Section) (t : Table) : Added s t t :=
  fun _ => Or.inl rfl

theorem Added.old {t' : Table} (h : Added s t t')
    {i : Fin mlbMaxOverlayComponents} (hi : (t i).componentId ≠ 0) :
    t' i = t i :=
  (h i).resolve_right fun hn => hi hn.1

theorem Added.trans {t' t'' : Table} (h : Added s t t')
    (h' : Added s t' t'') : Added s t t'' := by
  intro i
  obtain heq' | ⟨hunused', hnew'⟩ := h' i
  · rw [heq']
    exact h i
  · obtain heq | ⟨hunused, hid, -⟩ := h i
    · rw [heq] at hunused'
      exact Or.inr ⟨hunused', hnew'⟩
    · exact absurd hunused' hid

theorem componentId_of_firstUnused {i : Fin mlbMaxOverlayComponents}
    (h : firstUnused t = some i) : (t i).componentId = 0 := by
  simpa using List.find?_some h

theorem added_update {i : Fin mlbMaxOverlayComponents} {c : Component}
    (hi : (t i).componentId = 0) (hid : c.componentId ≠ 0)
    (hs : c.overlaySectionIdx = s) (hr : c.refCount = 1) :
    Added s t (Function.update t i c) := by
  intro j
  by_cases hj : j = i
  · subst hj
    rw [Function.update_self]
    exact Or.inr ⟨hi, hid, hs, hr⟩
  · rw [Function.update_of_ne hj]
    exact Or.inl rfl

theorem added_mlbSyscallComponentRegister {e : Extra} (he : e.initOk = true) :
    Added s t (mlbSyscallComponentRegister s t e) := by
  unfold mlbSyscallComponentRegister
  cases hfree : firstUnused t with
  | none => exact Added.refl s t
  | some i =>
      refine added_update (componentId_of_firstUnused hfree) ?_ rfl rfl
      rw [if_pos he]
      exact idOf_ne_zero i

theorem added_extras {extras : List Extra}
    (h : ∀ e ∈ extras, e.initOk = true) (t : Table) :
    Added s t (extras.foldl (mlbSyscallComponentRegister s) t) := by
  induction extras generalizing t with
  | nil => exact Added.refl s t
  | cons e extras ih =>
      have he := h e (List.mem_cons_self ..)
      have hrest := fun e' he' => h e' (List.mem_cons_of_mem e he')
      exact (added_mlbSyscallComponentRegister he).trans (ih hrest _)

theorem Added.vacant {t' : Table} (h : Added s t t') (hne : s' ≠ s)
    (hv : Vacant s' t) : Vacant s' t' := by
  intro i hi
  obtain heq | ⟨-, -, hs, -⟩ := h i
  · rw [heq] at hi ⊢
    exact hv i hi
  · rw [hs]
    exact hne.symm

theorem Added.shared {t' : Table} (h : Added s t t') (hs : Shared s' t) :
    Shared s' t' := by
  obtain ⟨i, hi, hs, hr⟩ := hs
  refine ⟨i, ?_⟩
  rw [h.old hi]
  exact ⟨hi, hs, hr⟩

theorem Added.singleUse {t' : Table} (h : Added s t t') (hv : Vacant s t) :
    SingleUse s t' := by
  intro i hi hs
  obtain heq | ⟨-, -, -, hr⟩ := h i
  · rw [heq] at hi hs
    exact absurd hs (hv i hi)
  · exact hr

theorem Added.sound {t' : Table} (h : Added s t t') (hsound : t.Sound) :
    t'.Sound where
  taken i hi := by
    obtain heq | ⟨-, -, -, hr⟩ := h i
    · rw [heq] at hi ⊢
      exact hsound.taken i hi
    · omega
  exec i hi := by
    obtain heq | ⟨-, hid, -⟩ := h i
    · rw [heq] at hi ⊢
      exact hsound.exec i hi
    · exact hid

theorem putBack_entry (i j : Fin mlbMaxOverlayComponents) (t : Table) :
    putBack i t j = t j ∨ j = i ∧ (putBack i t j).componentId = 0 ∧
      (putBack i t j).hasExec = false := by
  by_cases hj : j = i
  · subst hj
    refine Or.inr ⟨rfl, ?_⟩
    unfold putBack
    rw [Function.update_self]
    exact ⟨rfl, rfl⟩
  · exact Or.inl (Function.update_of_ne hj ..)

theorem Vacant.putBack (h : Vacant s' t) (i : Fin mlbMaxOverlayComponents) :
    Vacant s' (putBack i t) := by
  intro j hj
  obtain heq | ⟨-, hid, -⟩ := putBack_entry i j t
  · rw [heq] at hj ⊢
    exact h j hj
  · exact absurd hid hj

theorem SingleUse.putBack (h : SingleUse s' t)
    (i : Fin mlbMaxOverlayComponents) : SingleUse s' (putBack i t) := by
  intro j hj hs
  obtain heq | ⟨-, hid, -⟩ := putBack_entry i j t
  · rw [heq] at hj hs ⊢
    exact h j hj hs
  · exact absurd hid hj

theorem Shared.putBack_of_ne (h : Shared s' t)
    {i : Fin mlbMaxOverlayComponents} (hi : (t i).overlaySectionIdx ≠ s') :
    Shared s' (putBack i t) := by
  obtain ⟨j, hj, hs, hr⟩ := h
  refine ⟨j, ?_⟩
  obtain heq | ⟨rfl, -⟩ := putBack_entry i j t
  · rw [heq]
    exact ⟨hj, hs, hr⟩
  · exact absurd hs hi

theorem Table.Sound.putBack (h : t.Sound) (i : Fin mlbMaxOverlayComponents) :
    (putBack i t).Sound where
  taken j hj := by
    obtain heq | ⟨-, hid, -⟩ := putBack_entry i j t
    · rw [heq] at hj ⊢
      exact h.taken j hj
    · exact absurd hid hj
  exec j hj := by
    obtain heq | ⟨-, -, hexec⟩ := putBack_entry i j t
    · rw [heq] at hj ⊢
      exact h.exec j hj
    · rw [hexec] at hj
      cases hj

/-- Registering an overlay changes nothing, or adds components of its section,
all of which are removed again when the `init` function fails. -/
theorem locMlbOverlayRegister_cases {image : Image}
    (h : ∀ e ∈ image.extras, e.initOk = true) (s : Section) (t : Table) :
    locMlbOverlayRegister image s t = (none, t) ∨
      ∃ i t', Added s t t' ∧ (t' i).overlaySectionIdx = s ∧
        (locMlbOverlayRegister image s t = (some (idOf i), t') ∨
          locMlbOverlayRegister image s t =
            (none, locMlbOverlayUnregister s (putBack i t'))) := by
  unfold locMlbOverlayRegister
  cases hfree : firstUnused t with
  | none => exact Or.inl rfl
  | some i =>
      right
      have hmain : Added s t (Function.update t i
          ⟨image.name, idOf i, s, 1, true⟩) :=
        added_update (componentId_of_firstUnused hfree) (idOf_ne_zero i) rfl rfl
      have hextras := added_extras (s := s) h (Function.update t i
        ⟨image.name, idOf i, s, 1, true⟩)
      refine ⟨i, _, hmain.trans hextras, ?_, ?_⟩
      · rw [hextras.old (by rw [Function.update_self]; exact idOf_ne_zero i),
          Function.update_self]
      · dsimp only
        split_ifs
        · exact Or.inl rfl
        · exact Or.inr rfl

section

variable {image : Image} (h : ∀ e ∈ image.extras, e.initOk = true)
include h

theorem locMlbOverlayRegister_sound (s : Section) (ht : t.Sound) :
    (locMlbOverlayRegister image s t).2.Sound := by
  obtain heq | ⟨i, t', hadd, -, heq | heq⟩ := locMlbOverlayRegister_cases h s t
  · rwa [heq]
  · rw [heq]
    exact hadd.sound ht
  · rw [heq]
    exact ((hadd.sound ht).putBack i).unregister s

theorem locMlbOverlayRegister_vacant (hne : s' ≠ s) (hv : Vacant s' t) :
    Vacant s' (locMlbOverlayRegister image s t).2 := by
  obtain heq | ⟨i, t', hadd, -, heq | heq⟩ := locMlbOverlayRegister_cases h s t
  · rwa [heq]
  · rw [heq]
    exact hadd.vacant hne hv
  · rw [heq]
    exact ((hadd.vacant hne hv).putBack i).unregister s

theorem locMlbOverlayRegister_shared (hne : s' ≠ s) (hs : Shared s' t) :
    Shared s' (locMlbOverlayRegister image s t).2 := by
  obtain heq | ⟨i, t', hadd, hi, heq | heq⟩ := locMlbOverlayRegister_cases h s t
  · rwa [heq]
  · rw [heq]
    exact hadd.shared hs
  · rw [heq]
    have hsec : (t' i).overlaySectionIdx ≠ s' := hi ▸ hne.symm
    exact ((hadd.shared hs).putBack_of_ne hsec).unregister_of_ne hne

/-- After a failure nothing is left of the overlay. -/
theorem locMlbOverlayRegister_vacant_of_failed (hv : Vacant s t)
    (hfail : (locMlbOverlayRegister image s t).1 = none) :
    Vacant s (locMlbOverlayRegister image s t).2 := by
  obtain heq | ⟨i, t', hadd, -, heq | heq⟩ := locMlbOverlayRegister_cases h s t
  · rwa [heq]
  · rw [heq] at hfail
    cases hfail
  · rw [heq]
    exact ((hadd.singleUse hv).putBack i).vacant_unregister

end

theorem ne_zero_of_locMlbOverlayRegister {image : Image} {id : ℕ}
    (hid : (locMlbOverlayRegister image s t).1 = some id) : id ≠ 0 := by
  unfold locMlbOverlayRegister at hid
  cases hfree : firstUnused t with
  | none =>
      rw [hfree] at hid
      cases hid
  | some i =>
      rw [hfree] at hid
      dsimp only at hid
      split_ifs at hid
      obtain rfl := Option.some.inj hid
      exact idOf_ne_zero i

end C64Tools.Overlay
