import C64Tools.Overlay.Components

/-!
# References to the components of a section

What the commands of the DSP do to the reference counts: finding a component
counts one reference to it, registering an overlay counts the first one to
each component that it registers, and unregistering the section gives back one
for each of its components.
-/

namespace C64Tools.Overlay

open Kmod (Section)

/-- The component is registered in the section. -/
def InSection (x : Section) (t : Table) (i : Fin mlbMaxOverlayComponents) :
    Prop :=
  (t i).componentId ≠ 0 ∧ (t i).overlaySectionIdx = x

instance (x : Section) (t : Table) (i : Fin mlbMaxOverlayComponents) :
    Decidable (InSection x t i) :=
  inferInstanceAs (Decidable (_ ∧ _))

/-- The reference count of a component that is registered in the section. -/
def refsIn (x : Section) (t : Table) (i : Fin mlbMaxOverlayComponents) : ℤ :=
  if InSection x t i then (t i).refCount else 0

variable {id : ℕ} {x y : Section} {t t' : Table}
  {i j : Fin mlbMaxOverlayComponents}

/-! ## Taking references -/

/-- References to the components `A` of the section are taken, some of which
may be new. -/
structure TakesIn (x : Section) (A : Finset (Fin mlbMaxOverlayComponents))
    (t t' : Table) : Prop where
  inSection : ∀ i, InSection x t' i ↔ InSection x t i ∨ i ∈ A
  refs : ∀ i, refsIn x t' i = refsIn x t i + if i ∈ A then 1 else 0

/-- Nothing else changes. -/
structure TakesRefs (x : Section) (A : Finset (Fin mlbMaxOverlayComponents))
    (t t' : Table) : Prop where
  here : TakesIn x A t t'
  elsewhere : ∀ y ≠ x, TakesIn y ∅ t t'

namespace TakesIn

variable {t'' : Table} {A : Finset (Fin mlbMaxOverlayComponents)}

/-- Nothing was taken if all components and their counts are the same. -/
theorem of_same (h : ∀ i, InSection x t' i ↔ InSection x t i)
    (hrefs : ∀ i, refsIn x t' i = refsIn x t i) : TakesIn x ∅ t t' where
  inSection i := by simp [h i]
  refs i := by simp [hrefs i]

theorem refl (x : Section) (t : Table) : TakesIn x ∅ t t :=
  .of_same (fun _ => Iff.rfl) fun _ => rfl

theorem same (h : TakesIn x ∅ t t') (i : Fin mlbMaxOverlayComponents) :
    (InSection x t' i ↔ InSection x t i) ∧ refsIn x t' i = refsIn x t i := by
  simpa using And.intro (h.inSection i) (h.refs i)

theorem after (h : TakesIn x ∅ t t') (h' : TakesIn x A t' t'') :
    TakesIn x A t t'' where
  inSection i := by rw [h'.inSection i, (h.same i).1]
  refs i := by rw [h'.refs i, (h.same i).2]

theorem before (h : TakesIn x A t t') (h' : TakesIn x ∅ t' t'') :
    TakesIn x A t t'' where
  inSection i := by rw [(h'.same i).1, h.inSection i]
  refs i := by rw [(h'.same i).2, h.refs i]

end TakesIn

theorem takesRefs_empty (x : Section) (t : Table) : TakesRefs x ∅ t t where
  here := .refl x t
  elsewhere y _ := .refl y t

theorem inSection_congr (h : t' i = t i) :
    InSection x t' i ↔ InSection x t i := by
  unfold InSection
  rw [h]

theorem refsIn_congr (h : t' i = t i) : refsIn x t' i = refsIn x t i := by
  simp only [refsIn, inSection_congr h, h]

theorem not_inSection_of_unused (h : (t i).componentId = 0) :
    ¬ InSection x t i :=
  fun hin => hin.1 h

theorem refsIn_of_unused (h : (t i).componentId = 0) : refsIn x t i = 0 :=
  if_neg (not_inSection_of_unused h)

theorem takesRefs_incRef (hi : InSection x t i) :
    TakesRefs x {i} t (incRef i t) := by
  have hsection : ∀ y j, InSection y (incRef i t) j ↔ InSection y t j := by
    intro y j
    unfold InSection
    obtain heq | heq := incRef_entry i j t
    all_goals rw [heq]
  have hself : (incRef i t i).refCount = (t i).refCount + 1 := by
    rw [incRef, Function.update_self]
  refine ⟨⟨fun j => ?_, fun j => ?_⟩,
    fun y hy => .of_same (hsection y) fun j => ?_⟩
  · rw [hsection, Finset.mem_singleton]
    refine ⟨Or.inl, ?_⟩
    rintro (hj | rfl)
    · exact hj
    · exact hi
  · by_cases hj : j = i
    · subst hj
      simp only [refsIn, hsection, hi, if_true, hself, Finset.mem_singleton]
    · have heq : incRef i t j = t j := Function.update_of_ne hj ..
      rw [refsIn_congr heq, if_neg (by simpa using hj), add_zero]
  · unfold refsIn
    rw [if_congr (hsection y j) rfl rfl]
    by_cases hj : j = i
    · subst hj
      have hne : ¬ InSection y t j := fun hin => hy (hin.2.symm.trans hi.2)
      rw [if_neg hne, if_neg hne]
    · rw [show incRef i t j = t j from Function.update_of_ne hj ..]

/-- Entries are kept, unless they were unused; those that are used now are
components of the section that have been taken once.  Other than with `Added`,
the entry of a component whose `init` function failed may stay unused. -/
def Entered (x : Section) (t t' : Table) : Prop :=
  ∀ i, t' i = t i ∨ (t i).componentId = 0 ∧ ((t' i).componentId ≠ 0 →
    (t' i).overlaySectionIdx = x ∧ (t' i).refCount = 1)

theorem Entered.refl (x : Section) (t : Table) : Entered x t t :=
  fun _ => Or.inl rfl

theorem Entered.trans {t'' : Table} (h : Entered x t t')
    (h' : Entered x t' t'') : Entered x t t'' := by
  intro i
  obtain heq' | ⟨hunused', hnew'⟩ := h' i
  · rw [heq']
    exact h i
  · obtain heq | ⟨hunused, -⟩ := h i
    · exact Or.inr ⟨heq ▸ hunused', hnew'⟩
    · exact Or.inr ⟨hunused, hnew'⟩

theorem entered_update {comp : Component} (hi : (t i).componentId = 0)
    (hs : comp.overlaySectionIdx = x) (hr : comp.refCount = 1) :
    Entered x t (Function.update t i comp) := by
  intro j
  by_cases hj : j = i
  · subst hj
    rw [Function.update_self]
    exact Or.inr ⟨hi, fun _ => ⟨hs, hr⟩⟩
  · exact Or.inl (Function.update_of_ne hj ..)

theorem entered_mlbSyscallComponentRegister (x : Section) (t : Table)
    (e : Extra) : Entered x t (mlbSyscallComponentRegister x t e) := by
  unfold mlbSyscallComponentRegister
  cases hfree : firstUnused t with
  | none => exact Entered.refl x t
  | some i => exact entered_update (componentId_of_firstUnused hfree) rfl rfl

theorem entered_extras (x : Section) (extras : List Extra) (t : Table) :
    Entered x t (extras.foldl (mlbSyscallComponentRegister x) t) := by
  induction extras generalizing t with
  | nil => exact Entered.refl x t
  | cons e extras ih =>
      exact (entered_mlbSyscallComponentRegister x t e).trans (ih _)

theorem Entered.old (h : Entered x t t') (hi : (t i).componentId ≠ 0) :
    t' i = t i :=
  (h i).resolve_right fun hn => hi hn.1

/-- The components that are used now. -/
def newComponents (t t' : Table) : Finset (Fin mlbMaxOverlayComponents) :=
  Finset.univ.filter fun i => (t i).componentId = 0 ∧ (t' i).componentId ≠ 0

theorem mem_newComponents :
    i ∈ newComponents t t' ↔
      (t i).componentId = 0 ∧ (t' i).componentId ≠ 0 := by
  simp [newComponents]

theorem Entered.takesRefs (h : Entered x t t') :
    TakesRefs x (newComponents t t') t t' := by
  have hcases : ∀ i, t' i = t i ∧ i ∉ newComponents t t' ∨
      (t i).componentId = 0 ∧ (t' i).componentId = 0 ∨
      i ∈ newComponents t t' ∧ (t i).componentId = 0 ∧
        InSection x t' i ∧ (t' i).refCount = 1 := by
    intro i
    by_cases hold : (t i).componentId = 0
    · by_cases hnew : (t' i).componentId = 0
      · exact Or.inr (Or.inl ⟨hold, hnew⟩)
      · obtain heq | ⟨-, hentry⟩ := h i
        · exact absurd (heq ▸ hold) hnew
        · obtain ⟨hs, hr⟩ := hentry hnew
          exact Or.inr (Or.inr ⟨mem_newComponents.mpr ⟨hold, hnew⟩, hold,
            ⟨hnew, hs⟩, hr⟩)
    · exact Or.inl ⟨h.old hold, fun hi => hold (mem_newComponents.mp hi).1⟩
  have hsection : ∀ i, InSection x t' i ↔
      InSection x t i ∨ i ∈ newComponents t t' := by
    intro i
    obtain ⟨heq, hi⟩ | ⟨hold, hnew⟩ | ⟨hi, -, hin, -⟩ := hcases i
    · rw [inSection_congr heq, or_iff_left hi]
    · refine iff_of_false (not_inSection_of_unused hnew) ?_
      rintro (hin | hi)
      · exact hin.1 hold
      · exact (mem_newComponents.mp hi).2 hnew
    · exact iff_of_true hin (Or.inr hi)
  refine ⟨⟨hsection, fun i => ?_⟩,
    fun y hy => .of_same (fun i => ?_) fun i => ?_⟩
  · obtain ⟨heq, hi⟩ | ⟨hold, hnew⟩ | ⟨hi, hold, hin, hr⟩ := hcases i
    · rw [refsIn_congr heq, if_neg hi, add_zero]
    · rw [refsIn_of_unused hold, refsIn_of_unused hnew,
        if_neg fun hi => (mem_newComponents.mp hi).2 hnew]
      rfl
    · rw [refsIn_of_unused hold, refsIn, if_pos hin, if_pos hi, hr]
      rfl
  · obtain ⟨heq, -⟩ | ⟨hold, hnew⟩ | ⟨-, hold, hin, -⟩ := hcases i
    · exact inSection_congr heq
    · exact iff_of_false (not_inSection_of_unused hnew)
        (not_inSection_of_unused hold)
    · exact iff_of_false (fun h => hy (h.2.symm.trans hin.2))
        (not_inSection_of_unused hold)
  · obtain ⟨heq, -⟩ | ⟨hold, hnew⟩ | ⟨-, hold, hin, -⟩ := hcases i
    · exact refsIn_congr heq
    · rw [refsIn_of_unused hold, refsIn_of_unused hnew]
    · rw [refsIn_of_unused hold,
        refsIn, if_neg fun h => hy (h.2.symm.trans hin.2)]

/-- A successful registration takes the first reference to each of the
components which it registers. -/
theorem takesRefs_locMlbOverlayRegister {image : Image}
    (h : locMlbOverlayRegister image x t = (some id, t')) :
    TakesRefs x (newComponents t t') t t' ∧ (newComponents t t').Nonempty := by
  unfold locMlbOverlayRegister at h
  cases hfree : firstUnused t with
  | none => simp [hfree] at h
  | some i =>
      rw [hfree] at h
      dsimp only at h
      have hok : image.initOk = true := by
        by_contra hfail
        rw [if_neg hfail] at h
        cases (Prod.mk.inj h).1
      rw [if_pos hok] at h
      obtain rfl := (Prod.mk.inj h).2
      have hunused := componentId_of_firstUnused hfree
      have hmain : Entered x t (Function.update t i
          ⟨image.name, idOf i, x, 1, true⟩) := entered_update hunused rfl rfl
      have hextras := entered_extras x image.extras (Function.update t i
        ⟨image.name, idOf i, x, 1, true⟩)
      have hself : (Function.update t i
          (⟨image.name, idOf i, x, 1, true⟩ : Component) i).componentId ≠ 0 := by
        rw [Function.update_self]
        exact idOf_ne_zero i
      refine ⟨(hmain.trans hextras).takesRefs, i, mem_newComponents.mpr
        ⟨hunused, ?_⟩⟩
      rwa [hextras.old hself]

/-! ## Giving references back -/

theorem inSection_of_unregister
    (h : InSection x (locMlbOverlayUnregister y t) i) : InSection x t i :=
  ⟨Component.componentId_of_unregister h.1,
    (Component.unregister_section (t i)).symm.trans h.2⟩

theorem refsIn_unregister_self (h : InSection x t i) :
    refsIn x (locMlbOverlayUnregister x t) i = refsIn x t i - 1 := by
  rw [refsIn, refsIn, if_pos h]
  by_cases hlast : (t i).refCount - 1 = 0
  · have hid : (locMlbOverlayUnregister x t i).componentId = 0 := by
      simp [locMlbOverlayUnregister, Component.unregister, h.1, h.2, hlast]
    rw [if_neg (not_inSection_of_unused hid), hlast]
  · have heq : locMlbOverlayUnregister x t i =
        { t i with refCount := (t i).refCount - 1 } := by
      simp [locMlbOverlayUnregister, Component.unregister, h.1, h.2, hlast]
    rw [if_pos (by rw [InSection, heq]; exact h), heq]

/-- Unregistering a section gives back a reference to each component in it. -/
theorem refsIn_unregister (x y : Section) (t : Table)
    (i : Fin mlbMaxOverlayComponents) :
    refsIn x (locMlbOverlayUnregister y t) i =
      if y = x ∧ InSection x t i then refsIn x t i - 1 else refsIn x t i := by
  by_cases hin : InSection x t i
  · by_cases hy : y = x
    · subst hy
      rw [if_pos ⟨rfl, hin⟩, refsIn_unregister_self hin]
    · rw [if_neg fun h => hy h.1]
      refine refsIn_congr (Component.unregister_of_ne ?_)
      exact fun hs => hy (hs.symm.trans hin.2)
  · rw [if_neg fun h => hin h.2, refsIn, refsIn, if_neg hin,
      if_neg fun h => hin (inSection_of_unregister h)]

theorem inSection_unregister_of_ne (hy : y ≠ x) :
    InSection y (locMlbOverlayUnregister x t) i ↔ InSection y t i := by
  by_cases hs : (t i).overlaySectionIdx = x
  · refine iff_of_false (fun h => ?_) fun h => hy (h.2.symm.trans hs)
    exact hy ((inSection_of_unregister h).2.symm.trans hs)
  · exact inSection_congr (Component.unregister_of_ne hs)

end C64Tools.Overlay
