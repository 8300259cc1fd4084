import C64Tools.Overlay.Model

/-!
# The tables of the library, the driver and the DSP in step

What relates the tables as long as the sections that are given back have been
taken once: two processes hold a section only if the DSP has counted both, and
the sections that the driver may hand out have no components.  A step of a
process preserves this if it respects what the others hold.
-/

namespace C64Tools.Overlay

open Kmod (Section)

/-! ## The invariant -/

/-- Sections that `fops__release` has dealt with are not held any more. -/
def Pc.keeps (x : Section) : Pc → Prop
  | .release k => k ≤ x
  | .mark k => k ≤ x
  | _ => True

/-- The process has been given the section, and has not given it back. -/
def State.Holds (s : State) (p : ℕ) (x : Section) : Prop :=
  (s.procs p).flags x = true ∧ (s.procs p).pc.keeps x

/-- The process is within a fastcall sequence. -/
def Pc.inSequence : Pc → Bool
  | .find _ | .ref _ | .alloc | .image _ | .register _ | .freeFailed _
  | .loadEnd | .unregister _ | .unregisterEnd _ => true
  | _ => false

/-- The process has the section, while its component is not registered. -/
def Pc.touches (i : Section) : Pc → Prop
  | .image j | .register j | .freeFailed j | .unregisterEnd j | .free j => j = i
  | _ => False

/-- `loc_overlays_free` has dealt with the section. -/
def Pc.past (i : Section) : Pc → Prop
  | .closeSection k => i < k
  | .unregister k | .unregisterEnd k | .free k => i < k
  | _ => False

/-- What the position of a process says about the DSP. -/
def State.Here (s : State) (pr : Proc) : Prop :=
  match pr.pc with
  | .ref x => Shared x s.components
  | .image x | .register x | .freeFailed x =>
      pr.flags x = true ∧ (pr.overlays x).secIdx = x ∧
        (pr.overlays x).compid = 0 ∧ Vacant x s.components
  | .unregister i => (pr.overlays i).compid ≠ 0
  | .unregisterEnd i | .free i => (pr.overlays i).mem.physAddr ≠ 0 →
      pr.flags i = true → Vacant i s.components
  | .mark k =>
      pr.flags k = true ∧ (Vacant k s.components ∨ s.unloading = some k)
  | _ => True

/-- The table of the library lists the sections that the process holds. -/
structure Proc.Listed (pr : Proc) : Prop where
  secIdx : ∀ i, (pr.overlays i).compid ≠ 0 ∨ (pr.overlays i).mem.physAddr ≠ 0 →
    (pr.overlays i).secIdx = i ∨ pr.pc.past i
  flags : ∀ i, (pr.overlays i).compid ≠ 0 →
    pr.flags i = true ∨ pr.pc = .ref i ∨ pr.pc.past i
  compid : ∀ i, (pr.overlays i).mem.physAddr ≠ 0 →
    (pr.overlays i).compid ≠ 0 ∨ pr.pc.touches i

structure ProcInStep (s : State) (p : ℕ) : Prop where
  owner : (s.procs p).pc.inSequence = true → s.owner = some p
  listed : (s.procs p).pc.alive = true → (s.procs p).Listed
  here : s.Here (s.procs p)

structure InStep (s : State) : Prop where
  sound : s.components.Sound
  unowned : s.unloading ≠ none → s.owner = none
  single : ∀ x, s.unloading = some x → SingleUse x s.components
  clear : ∀ x, s.sectionFlags x = false →
    Vacant x s.components ∨ s.unloading = some x
  held : ∀ p x, s.Holds p x → s.sectionFlags x = true
  shared : ∀ p q x, p ≠ q → s.Holds p x → s.Holds q x →
    Shared x s.components
  proc : ∀ p, ProcInStep s p

theorem initial_inStep : InStep State.initial where
  sound := ⟨fun _ h => absurd rfl h, fun _ h => by cases h⟩
  unowned h := absurd rfl h
  single _ h := by cases h
  clear _ _ := Or.inl fun _ h => absurd rfl h
  held _ _ h := by cases h.1
  shared _ _ _ _ h := by cases h.1
  proc _ := ⟨(by cases ·), (by cases ·), trivial⟩

variable {s t : State} {p : ℕ}

/-- Nobody else holds a section whose components were taken once at most. -/
theorem InStep.unheld (h : InStep s) {x : Section} (hp : s.Holds p x)
    (hx : ¬ Shared x s.components) {q : ℕ} (hq : q ≠ p) : ¬ s.Holds q x :=
  fun hq' => hx (h.shared q p x hq hq' hp)

/-- No message of the driver is pending within a fastcall sequence. -/
theorem InStep.unloading_of_owner (h : InStep s) (hp : s.owner = some p) :
    s.unloading = none := by
  by_contra hne
  rw [h.unowned hne] at hp
  cases hp

theorem InStep.vacant_of_clear (h : InStep s) (hs : s.unloading = none)
    {x : Section} (hx : s.sectionFlags x = false) : Vacant x s.components := by
  obtain hv | hu := h.clear x hx
  · exact hv
  · rw [hs] at hu
    cases hu

/-- What another process does leaves a process in step. -/
theorem ProcInStep.frame {q : ℕ} (h : ProcInStep s q)
    (hproc : t.procs q = s.procs q)
    (howner : s.owner = some q → t.owner = some q)
    (hshared : ∀ x, s.owner = some q → Shared x s.components →
      Shared x t.components)
    (hvacant : ∀ x, s.Holds q x → Vacant x s.components →
      Vacant x t.components)
    (hunloading : ∀ x, s.unloading = some x →
      Vacant x t.components ∨ t.unloading = some x) :
    ProcInStep t q where
  owner hseq := by
    rw [hproc] at hseq
    exact howner (h.owner hseq)
  listed halive := by
    rw [hproc] at halive ⊢
    exact h.listed halive
  here := by
    have hhere := h.here
    have hseq := h.owner
    unfold State.Here at hhere ⊢
    rw [hproc]
    cases hpc : (s.procs q).pc with
    | ref x =>
        rw [hpc] at hhere hseq
        exact hshared x (hseq rfl) hhere
    | image x | register x | freeFailed x =>
        rw [hpc] at hhere
        obtain ⟨hf, hi, hc, hv⟩ := hhere
        exact ⟨hf, hi, hc, hvacant x ⟨hf, by rw [hpc]; trivial⟩ hv⟩
    | unregister i =>
        rw [hpc] at hhere
        exact hhere
    | unregisterEnd i | free i =>
        rw [hpc] at hhere
        exact fun hm hf =>
          hvacant i ⟨hf, by rw [hpc]; trivial⟩ (hhere hm hf)
    | mark k =>
        rw [hpc] at hhere
        obtain ⟨hf, hv | hu⟩ := hhere
        · exact ⟨hf, Or.inl
            (hvacant k ⟨hf, by rw [hpc]; exact le_refl k.val⟩ hv)⟩
        · exact ⟨hf, hunloading k hu⟩
    | _ => trivial

/-! ## What one step preserves -/

/-- A step of one process: it leaves the others alone, adds no component to a
section that it does not hold, comes to hold a section only if nobody else does
or the section is shared, and gives back only what it alone holds. -/
structure ChangedBy (p : ℕ) (s t : State) : Prop where
  others : ∀ q, q ≠ p → t.procs q = s.procs q
  owner : ∀ q, q ≠ p → s.owner = some q → t.owner = some q
  shared : ∀ x, Shared x s.components → Shared x t.components
  vacant : ∀ x, ¬ s.Holds p x → Vacant x s.components → Vacant x t.components
  unloading : ∀ x, s.unloading = some x → t.unloading = some x
  taken : ∀ x, t.Holds p x → t.sectionFlags x = true ∧
    (s.Holds p x ∨ s.sectionFlags x = false ∨ Shared x t.components)
  given : ∀ x, s.sectionFlags x = true → t.sectionFlags x = true ∨
    s.Holds p x ∧ ¬ Shared x s.components

theorem ChangedBy.holds_iff (hc : ChangedBy p s t) {q : ℕ} (hq : q ≠ p)
    (x : Section) : t.Holds q x ↔ s.Holds q x := by
  unfold State.Holds
  rw [hc.others q hq]

theorem InStep.changed (h : InStep s) (hc : ChangedBy p s t)
    (hsound : t.components.Sound)
    (hunowned : t.unloading ≠ none → t.owner = none)
    (hsingle : ∀ x, t.unloading = some x → SingleUse x t.components)
    (hclear : ∀ x, t.sectionFlags x = false →
      Vacant x t.components ∨ t.unloading = some x)
    (hproc : ProcInStep t p) : InStep t where
  sound := hsound
  unowned := hunowned
  single := hsingle
  clear := hclear
  held q x hq := by
    by_cases hqp : q = p
    · subst hqp
      exact (hc.taken x hq).1
    · rw [hc.holds_iff hqp] at hq
      obtain hflag | ⟨hp, hx⟩ := hc.given x (h.held q x hq)
      · exact hflag
      · exact absurd hq (h.unheld hp hx hqp)
  shared q q' x hne hq hq' := by
    -- the step can only have made one of the two a holder
    have hother : ∀ q, q ≠ p → t.Holds q x → t.Holds p x →
        Shared x t.components := by
      intro q hqp hq hp
      rw [hc.holds_iff hqp] at hq
      obtain hp | hflag | hx := (hc.taken x hp).2
      · exact hc.shared x (h.shared q p x hqp hq hp)
      · exact absurd (h.held q x hq) (by rw [hflag]; exact Bool.false_ne_true)
      · exact hx
    by_cases hqp : q = p
    · subst hqp
      exact hother q' hne.symm hq' hq
    · by_cases hq'p : q' = p
      · subst hq'p
        exact hother q hqp hq hq'
      · rw [hc.holds_iff hqp] at hq
        rw [hc.holds_iff hq'p] at hq'
        exact hc.shared x (h.shared q q' x hne hq hq')
  proc q := by
    by_cases hqp : q = p
    · rw [hqp]
      exact hproc
    · refine (h.proc q).frame (hc.others q hqp) (hc.owner q hqp)
        (fun x _ => hc.shared x) (fun x hq hv => ?_)
        fun x hx => Or.inr (hc.unloading x hx)
      exact hc.vacant x
        (h.unheld hq (fun hs => hs.not_vacant hv) (Ne.symm hqp)) hv

/-- A step that leaves the tables of the driver and the DSP alone. -/
theorem InStep.moved (h : InStep s)
    (hothers : ∀ q, q ≠ p → t.procs q = s.procs q)
    (howner : ∀ q, q ≠ p → s.owner = some q → t.owner = some q)
    (hcomponents : t.components = s.components)
    (hflags : t.sectionFlags = s.sectionFlags)
    (hunloading : t.unloading = s.unloading)
    (hunowned : s.unloading ≠ none → t.owner = none)
    (hholds : ∀ x, t.Holds p x → s.Holds p x)
    (hproc : ProcInStep t p) : InStep t := by
  have hc : ChangedBy p s t :=
    { others := hothers
      owner := howner
      shared := fun x hx => hcomponents ▸ hx
      vacant := fun x _ hx => hcomponents ▸ hx
      unloading := fun x hx => hunloading.trans hx
      taken := fun x hx => by
        rw [hflags]
        exact ⟨h.held p x (hholds x hx), Or.inl (hholds x hx)⟩
      given := fun x hx => Or.inl (hflags ▸ hx) }
  refine h.changed hc ?_ ?_ ?_ ?_ hproc
  · rw [hcomponents]
    exact h.sound
  · rw [hunloading]
    exact hunowned
  · rw [hunloading, hcomponents]
    exact h.single
  · rw [hflags, hunloading, hcomponents]
    exact h.clear

/-- A step within a fastcall sequence that changes the table of the DSP. -/
theorem InStep.tabled (h : InStep s) (hs : s.owner = some p)
    (hothers : ∀ q, q ≠ p → t.procs q = s.procs q)
    (howner : t.owner = s.owner)
    (hflags : t.sectionFlags = s.sectionFlags)
    (hunloading : t.unloading = s.unloading)
    (hsound : t.components.Sound)
    (hshared : ∀ x, Shared x s.components → Shared x t.components)
    (hvacant : ∀ x, ¬ s.Holds p x → Vacant x s.components →
      Vacant x t.components)
    (hholds : ∀ x, t.Holds p x → s.Holds p x)
    (hproc : ProcInStep t p) : InStep t := by
  have hnone := h.unloading_of_owner hs
  rw [hnone] at hunloading
  have hc : ChangedBy p s t :=
    { others := hothers
      owner := fun q _ hq => howner.trans hq
      shared := hshared
      vacant := hvacant
      unloading := fun x hx => by
        rw [hnone] at hx
        cases hx
      taken := fun x hx => by
        rw [hflags]
        exact ⟨h.held p x (hholds x hx), Or.inl (hholds x hx)⟩
      given := fun x hx => Or.inl (hflags ▸ hx) }
  refine h.changed hc hsound (fun hx => absurd hunloading hx) ?_ ?_ hproc
  · intro x hx
    rw [hunloading] at hx
    cases hx
  · intro x hx
    rw [hflags] at hx
    have hheld : ¬ s.Holds p x := fun hp => by
      rw [h.held p x hp] at hx
      cases hx
    exact Or.inl (hvacant x hheld (h.vacant_of_clear hnone hx))

/-- A step that gives a section back, of which nothing is registered, or
nothing will be. -/
theorem InStep.gaveBack (h : InStep s) {x : Section} (hx : s.Holds p x)
    (hgone : Vacant x s.components ∨ s.unloading = some x)
    (hothers : ∀ q, q ≠ p → t.procs q = s.procs q)
    (howner : t.owner = s.owner)
    (hcomponents : t.components = s.components)
    (hflags : t.sectionFlags = Function.update s.sectionFlags x false)
    (hunloading : t.unloading = s.unloading)
    (hholds : ∀ y, t.Holds p y → y ≠ x ∧ s.Holds p y)
    (hproc : ProcInStep t p) : InStep t := by
  have hshared : ¬ Shared x s.components := by
    obtain hv | hu := hgone
    · exact fun hs => hs.not_vacant hv
    · exact fun hs => hs.not_singleUse (h.single x hu)
  have hkept : ∀ {y}, y ≠ x → t.sectionFlags y = s.sectionFlags y := by
    intro y hy
    rw [hflags, Function.update_of_ne hy]
  have hc : ChangedBy p s t :=
    { others := hothers
      owner := fun q _ hq => howner.trans hq
      shared := fun y hy => hcomponents ▸ hy
      vacant := fun y _ hy => hcomponents ▸ hy
      unloading := fun y hy => hunloading.trans hy
      taken := fun y hy => by
        obtain ⟨hne, hy⟩ := hholds y hy
        rw [hkept hne]
        exact ⟨h.held p y hy, Or.inl hy⟩
      given := fun y hy => by
        by_cases hne : y = x
        · subst hne
          exact Or.inr ⟨hx, hshared⟩
        · rw [hkept hne]
          exact Or.inl hy }
  refine h.changed hc ?_ ?_ ?_ ?_ hproc
  · rw [hcomponents]
    exact h.sound
  · rw [hunloading, howner]
    exact h.unowned
  · rw [hunloading, hcomponents]
    exact h.single
  · intro y hy
    rw [hunloading, hcomponents]
    by_cases hne : y = x
    · subst hne
      exact hgone
    · rw [hkept hne] at hy
      exact h.clear y hy

end C64Tools.Overlay
