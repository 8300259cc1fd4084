import C64Tools.Overlay.InStep

/-!
# Driver and DSP agree on overlay sections

A section goes back to the driver when its last user unregisters it, unless it
was used more than once: then the DSP only counts a reference down, and the
driver hands out a section whose components can still be called.  As long as
sections that were taken once are given back, and the calls which unregister
them come through, the two sides agree.
-/

namespace C64Tools.Overlay

open Kmod (Section mlbComNumSectionIndices area2Sections mlbComSectionidxArea3
  overlaySections)
open Transition

/-! ## The agreement, and when it is kept -/

/-- No section that is free has a component, and no image is loaded over code
that can still be called. -/
structure State.Agrees (s : State) : Prop where
  vacant : s.owner = none → s.unloading = none →
    ∀ x, s.sectionFlags x = false → Vacant x s.components
  image : ∀ p x, (s.procs p).pc = .image x →
    ∀ i, (s.components i).hasExec = true →
      (s.components i).overlaySectionIdx ≠ x

/-- Components of the core image are not loaded as overlays, and an overlay
registers no component whose `init` fails.  When a section is unregistered by a
process, or by the driver for one that is gone, its components have been taken
once; and when the request does not come through, it has none. -/
def Pc.GivesBack (core : ℕ → Option ℕ) (s : State) (pr : Proc) (o : Outcome) :
    Pc → Prop
  | .find name => core name = none
  | .register _ => ∀ e ∈ o.image.extras, e.initOk = true
  | .closeSection i => ∀ h : i < mlbComNumSectionIndices,
      (pr.overlays ⟨i, h⟩).compid ≠ 0 → o.sent = false →
        Vacant ⟨i, h⟩ s.components
  | .unregister i => SingleUse i s.components ∧
      (o.fastcall = .lost → Vacant i s.components)
  | .release k => ∀ h : k < mlbComNumSectionIndices,
      pr.flags ⟨k, h⟩ = true → o.timedOut = false →
        SingleUse ⟨k, h⟩ s.components ∧
          (o.sent = false → Vacant ⟨k, h⟩ s.components)
  | _ => True

instance (core : ℕ → Option ℕ) (s : State) (pr : Proc) (o : Outcome) :
    ∀ pc : Pc, Decidable (pc.GivesBack core s pr o)
  | .find _ => inferInstanceAs (Decidable (_ = _))
  | .register _ => inferInstanceAs (Decidable (∀ e ∈ _, _ = _))
  | .closeSection _ => inferInstanceAs (Decidable (∀ _ : _ < _, _ → _ → _))
  | .unregister _ => inferInstanceAs (Decidable (_ ∧ (_ → _)))
  | .release _ =>
      inferInstanceAs (Decidable (∀ _ : _ < _, _ → _ → _ ∧ (_ → _)))
  | .closed | .idle | .ref _ | .alloc | .image _ | .freeFailed _ | .loadEnd
  | .unregisterEnd _ | .free _ | .mark _ => inferInstanceAs (Decidable True)

/-- The condition on the steps of a run. -/
def GivesBackUnshared (core : ℕ → Option ℕ) (s : State) : Event → Prop
  | .proc p o => (s.procs p).pc.GivesBack core s (s.procs p) o
  | _ => True

instance (core : ℕ → Option ℕ) (s : State) :
    ∀ e, Decidable (GivesBackUnshared core s e)
  | .proc _ _ => inferInstanceAs (Decidable (Pc.GivesBack ..))
  | .openDev _ | .load .. | .close _ | .die _ | .unload =>
      inferInstanceAs (Decidable True)

/-! ## Moving on -/

variable {core : ℕ → Option ℕ} {s t : State} {p : ℕ} {o : Outcome}

theorem Proc.Listed.goto {pr : Proc} (h : pr.Listed) {pc : Pc}
    (href : ∀ i, pr.pc ≠ .ref i) (hpast : ∀ i, pr.pc.past i → pc.past i)
    (htouches : ∀ i, pr.pc.touches i → (pr.overlays i).mem.physAddr ≠ 0 →
      pc.touches i) :
    ({ pr with pc := pc } : Proc).Listed where
  secIdx i hi := (h.secIdx i hi).imp_right (hpast i)
  flags i hi := by
    obtain hflag | hr | hp := h.flags i hi
    · exact Or.inl hflag
    · exact absurd hr (href i)
    · exact Or.inr (Or.inr (hpast i hp))
  compid i hi := (h.compid i hi).imp_right fun ht => htouches i ht hi

/-- One entry of the table changes. -/
theorem Proc.Listed.update {pr : Proc} (h : pr.Listed) {pc : Pc}
    {flags : Section → Bool} {i : Section} {e : Entry}
    (href : ∀ j, pr.pc ≠ .ref j) (hpast : ∀ j, pr.pc.past j → pc.past j)
    (htouches : ∀ j, pr.pc.touches j → j = i)
    (hflags : ∀ j, j ≠ i → pr.flags j = true → flags j = true)
    (hsec : e.compid ≠ 0 ∨ e.mem.physAddr ≠ 0 → e.secIdx = i ∨ pc.past i)
    (hflag : e.compid ≠ 0 → flags i = true ∨ pc = .ref i ∨ pc.past i)
    (hcompid : e.mem.physAddr ≠ 0 → e.compid ≠ 0 ∨ pc.touches i) :
    (⟨pc, flags, Function.update pr.overlays i e⟩ : Proc).Listed where
  secIdx j := by
    dsimp only
    by_cases hj : j = i
    · subst hj
      rwa [Function.update_self]
    · rw [Function.update_of_ne hj]
      exact fun hid => (h.secIdx j hid).imp_right (hpast j)
  flags j := by
    dsimp only
    by_cases hj : j = i
    · subst hj
      rwa [Function.update_self]
    · rw [Function.update_of_ne hj]
      intro hid
      obtain hf | hr | hp := h.flags j hid
      · exact Or.inl (hflags j hj hf)
      · exact absurd hr (href j)
      · exact Or.inr (Or.inr (hpast j hp))
  compid j := by
    dsimp only
    by_cases hj : j = i
    · subst hj
      rwa [Function.update_self]
    · rw [Function.update_of_ne hj]
      exact fun hm =>
        Or.inl ((h.compid j hm).resolve_right fun ht => hj (htouches j ht))

theorem Pc.keeps_of_alive {pc : Pc} (h : pc.alive = true) (x : Section) :
    pc.keeps x := by
  cases pc <;> trivial

/-- A process moves on, and nothing else happens but that it takes or leaves
the DSP or the mutex. -/
theorem InStep.goto (h : InStep s) (owner mtx : Option ℕ) (pc : Pc)
    (howner : ∀ q, q ≠ p → s.owner = some q → owner = some q)
    (hunowned : s.unloading ≠ none → owner = none)
    (hkeeps : ∀ x, pc.keeps x → (s.procs p).pc.keeps x)
    (hseq : pc.inSequence = true → owner = some p)
    (hlisted : pc.alive = true → ({ s.procs p with pc := pc } : Proc).Listed)
    (hhere : s.Here { s.procs p with pc := pc }) :
    InStep ({ s with owner := owner, mtxClients := mtx }.goto p pc) := by
  refine h.moved (p := p) (fun q hq => State.goto_ne pc hq) howner rfl rfl rfl
    hunowned ?_ ⟨?_, ?_, ?_⟩
  · rintro x ⟨hflag, hx⟩
    rw [State.goto_self] at hflag hx
    exact ⟨hflag, hkeeps x hx⟩
  · rw [State.goto_self]
    exact hseq
  · rw [State.goto_self]
    exact hlisted
  · rw [State.goto_self]
    exact hhere

/-- The same within or outside of a fastcall sequence. -/
theorem InStep.goto_next (h : InStep s) (pc : Pc)
    (hkeeps : ∀ x, pc.keeps x → (s.procs p).pc.keeps x)
    (hseq : pc.inSequence = true → (s.procs p).pc.inSequence = true)
    (hlisted : pc.alive = true → ({ s.procs p with pc := pc } : Proc).Listed)
    (hhere : s.Here { s.procs p with pc := pc }) : InStep (s.goto p pc) :=
  h.goto s.owner s.mtxClients pc (fun _ _ hq => hq) h.unowned hkeeps
    (fun hpc => (h.proc p).owner (hseq hpc)) hlisted hhere

/-! ## Loading a component -/

theorem InStep.find (h : InStep s) {name : ℕ}
    (hpc : (s.procs p).pc = .find name)
    (hok : GivesBackUnshared core s (.proc p o))
    (ht : procStep core p o s = some t) : InStep t := by
  have howner : s.owner = some p := (h.proc p).owner (by rw [hpc]; rfl)
  have hlisted := (h.proc p).listed (by rw [hpc]; rfl)
  rw [GivesBackUnshared, hpc] at hok
  simp only [procStep, hpc] at ht
  cases hfound : locComponentFindByName core name s.components with
  | none =>
      rw [hfound] at ht
      obtain rfl := Option.some.inj ht
      exact h.goto_next .alloc (fun _ _ => by rw [hpc]; trivial)
        (fun _ => by rw [hpc]; rfl)
        (fun _ => hlisted.goto (by simp [hpc]) (by simp [hpc, Pc.past])
          (by simp [hpc, Pc.touches]))
        trivial
  | some found =>
      cases found with
      | core id =>
          cases (core_of_found hfound).symm.trans hok
      | overlay i =>
          rw [hfound] at ht
          obtain rfl := Option.some.inj ht
          have hid := componentId_of_found hfound
          refine h.tabled howner (fun q hq => ?_) rfl rfl rfl
            (h.sound.incRef i) (fun x hx => hx.incRef i)
            (fun x _ hx => hx.incRef i) ?_ ⟨fun _ => howner, fun _ => ?_, ?_⟩
          · rw [State.goto_ne _ hq, State.setEntry_ne _ _ hq]
          · rintro x ⟨hflag, -⟩
            rw [State.goto_self, State.setEntry_self] at hflag
            exact ⟨hflag, by rw [hpc]; trivial⟩
          · rw [State.goto_self, State.setEntry_self]
            exact hlisted.update (by simp [hpc]) (by simp [hpc, Pc.past])
              (by simp [hpc, Pc.touches]) (fun _ _ hj => hj)
              (fun _ => Or.inl rfl) (fun _ => Or.inr (Or.inl rfl))
              fun _ => Or.inl hid
          · rw [State.goto_self, State.setEntry_self]
            exact h.sound.shared_incRef hid

theorem InStep.ref (h : InStep s) {x : Section}
    (hpc : (s.procs p).pc = .ref x) (ht : procStep core p o s = some t) :
    InStep t := by
  have howner : s.owner = some p := (h.proc p).owner (by rw [hpc]; rfl)
  have hlisted := (h.proc p).listed (by rw [hpc]; rfl)
  have hx : Shared x s.components := by
    have hhere := (h.proc p).here
    rwa [State.Here, hpc] at hhere
  have hflag : s.sectionFlags x = true := by
    by_contra hne
    exact hx.not_vacant (h.vacant_of_clear (h.unloading_of_owner howner)
      (Bool.eq_false_of_not_eq_true hne))
  simp only [procStep, hpc] at ht
  obtain rfl := Option.some.inj ht
  have hc : ChangedBy p s (s.setProc p fun pr =>
      { pr with flags := Function.update pr.flags x true, pc := .loadEnd }) :=
    { others := fun q hq => State.setProc_ne _ hq
      owner := fun _ _ hq => hq
      shared := fun _ hy => hy
      vacant := fun _ _ hy => hy
      unloading := fun _ hy => hy
      taken := fun y hy => by
        by_cases hne : y = x
        · subst hne
          exact ⟨hflag, Or.inr (Or.inr hx)⟩
        · have hs : s.Holds p y := by
            obtain ⟨hfy, -⟩ := hy
            rw [State.setProc_self] at hfy
            dsimp only at hfy
            rw [Function.update_of_ne hne] at hfy
            exact ⟨hfy, by rw [hpc]; trivial⟩
          exact ⟨h.held p y hs, Or.inl hs⟩
      given := fun _ hy => Or.inl hy }
  refine h.changed hc h.sound h.unowned h.single h.clear
    ⟨fun _ => howner, fun _ => ?_, ?_⟩
  · rw [State.setProc_self]
    exact {
      secIdx := fun i hi => Or.inl ((hlisted.secIdx i hi).resolve_right (by
        rw [hpc]
        exact id))
      flags := fun i hi => by
        by_cases hne : i = x
        · subst hne
          exact Or.inl (Function.update_self ..)
        · refine Or.inl ?_
          have hfi := (hlisted.flags i hi).resolve_right (by
            rw [hpc]
            rintro (heq | hpast)
            · exact hne (Pc.ref.inj heq).symm
            · exact hpast)
          dsimp only
          rwa [Function.update_of_ne hne]
      compid := fun i hi => Or.inl ((hlisted.compid i hi).resolve_right (by
        rw [hpc]
        exact id)) }
  · rw [State.setProc_self]
    trivial

theorem sectionFlags_of_overlayAlloc {area : Area} {x : Section}
    (h : s.overlayAlloc area = some x) : s.sectionFlags x = false := by
  unfold State.overlayAlloc at h
  cases area with
  | area2 => simpa using List.find?_some h
  | area3 =>
      dsimp only at h
      split_ifs at h with hflag
      obtain rfl := Option.some.inj h
      exact Bool.eq_false_of_not_eq_true hflag

/-- A section that is not flagged is held by nobody, and has no component. -/
theorem InStep.allocated (h : InStep s) (hpc : (s.procs p).pc = .alloc)
    {x : Section} (hx : s.sectionFlags x = false) :
    InStep (((s.setFlags p x true).setEntry p x
      ⟨x, overlaySections x, ((s.procs p).overlays x).compid⟩).goto p
        (.image x)) := by
  have howner : s.owner = some p := (h.proc p).owner (by rw [hpc]; rfl)
  have hnone := h.unloading_of_owner howner
  have hlisted := (h.proc p).listed (by rw [hpc]; rfl)
  have hid : ((s.procs p).overlays x).compid = 0 := by
    by_contra hid
    have hflag := (hlisted.flags x hid).resolve_right (by
      simp [hpc, Pc.past])
    have := h.held p x ⟨hflag, by rw [hpc]; trivial⟩
    rw [hx] at this
    cases this
  have hself : (((s.setFlags p x true).setEntry p x
      ⟨x, overlaySections x, ((s.procs p).overlays x).compid⟩).goto p
        (.image x)).procs p = ⟨.image x,
      Function.update (s.procs p).flags x true,
      Function.update (s.procs p).overlays x
        ⟨x, overlaySections x, ((s.procs p).overlays x).compid⟩⟩ := by
    rw [State.goto_self, State.setEntry_self, State.setFlags_self]
  have hkept : ∀ {y}, y ≠ x →
      Function.update s.sectionFlags x true y = s.sectionFlags y :=
    fun hy => Function.update_of_ne hy ..
  have hc : ChangedBy p s (((s.setFlags p x true).setEntry p x
      ⟨x, overlaySections x, ((s.procs p).overlays x).compid⟩).goto p
        (.image x)) :=
    { others := fun q hq => by
        rw [State.goto_ne _ hq, State.setEntry_ne _ _ hq,
          State.setFlags_ne _ _ hq]
      owner := fun _ _ hq => hq
      shared := fun _ hy => hy
      vacant := fun _ _ hy => hy
      unloading := fun _ hy => hy
      taken := fun y hy => by
        by_cases hne : y = x
        · subst hne
          exact ⟨Function.update_self .., Or.inr (Or.inl hx)⟩
        · have hs : s.Holds p y := by
            obtain ⟨hfy, -⟩ := hy
            rw [hself] at hfy
            dsimp only at hfy
            rw [Function.update_of_ne hne] at hfy
            exact ⟨hfy, by rw [hpc]; trivial⟩
          exact ⟨(hkept hne).trans (h.held p y hs), Or.inl hs⟩
      given := fun y hy => by
        by_cases hne : y = x
        · subst hne
          exact Or.inl (Function.update_self ..)
        · exact Or.inl ((hkept hne).trans hy) }
  refine h.changed hc h.sound h.unowned h.single ?_
    ⟨fun _ => howner, fun _ => ?_, ?_⟩
  · intro y hy
    by_cases hne : y = x
    · subst hne
      exact Or.inl (h.vacant_of_clear hnone hx)
    · exact h.clear y ((hkept hne).symm.trans hy)
  · rw [hself]
    refine hlisted.update (by simp [hpc]) (by simp [hpc, Pc.past])
      (by simp [hpc, Pc.touches]) ?_ (fun _ => Or.inl rfl)
      (fun _ => Or.inl (Function.update_self ..))
      fun _ => Or.inr rfl
    intro j hj hf
    rwa [Function.update_of_ne hj]
  · rw [hself]
    refine ⟨Function.update_self .., ?_, ?_, h.vacant_of_clear hnone hx⟩
    all_goals
      dsimp only
      rw [Function.update_self]
    exact hid

theorem InStep.alloc (h : InStep s) (hpc : (s.procs p).pc = .alloc)
    (ht : procStep core p o s = some t) : InStep t := by
  have howner : s.owner = some p := (h.proc p).owner (by rw [hpc]; rfl)
  have hlisted := (h.proc p).listed (by rw [hpc]; rfl)
  have hmove : InStep (s.goto p .loadEnd) :=
    h.goto_next .loadEnd (fun _ _ => by rw [hpc]; trivial)
      (fun _ => by rw [hpc]; rfl)
      (fun _ => hlisted.goto (by simp [hpc]) (by simp [hpc, Pc.past])
          (by simp [hpc, Pc.touches]))
      trivial
  simp only [procStep, hpc] at ht
  cases harea : o.area with
  | none =>
      rw [harea] at ht
      obtain rfl := Option.some.inj ht
      exact hmove
  | some area =>
      rw [harea] at ht
      dsimp only at ht
      split_ifs at ht
      cases halloc : s.overlayAlloc area with
      | none =>
          rw [halloc] at ht
          obtain rfl := Option.some.inj ht
          exact hmove
      | some x =>
          rw [halloc] at ht
          obtain rfl := Option.some.inj ht
          exact h.allocated hpc (sectionFlags_of_overlayAlloc halloc)

/-- What is known while the image of a section is loaded and registered. -/
theorem InStep.loading (h : InStep s) {x : Section}
    (hpc : (s.procs p).pc = .image x ∨ (s.procs p).pc = .register x ∨
      (s.procs p).pc = .freeFailed x) :
    s.owner = some p ∧ (s.procs p).Listed ∧ (s.procs p).flags x = true ∧
      ((s.procs p).overlays x).secIdx = x ∧
      ((s.procs p).overlays x).compid = 0 ∧ Vacant x s.components := by
  have hhere := (h.proc p).here
  have howner := (h.proc p).owner
  have hlisted := (h.proc p).listed
  unfold State.Here at hhere
  obtain hpc | hpc | hpc := hpc
  all_goals
    rw [hpc] at hhere howner hlisted
    exact ⟨howner rfl, hlisted rfl, hhere⟩

theorem InStep.image (h : InStep s) {x : Section}
    (hpc : (s.procs p).pc = .image x) (ht : procStep core p o s = some t) :
    InStep t := by
  obtain ⟨-, hlisted, hhere⟩ := h.loading (Or.inl hpc)
  simp only [procStep, hpc] at ht
  obtain rfl := Option.some.inj ht
  split_ifs
  · exact h.goto_next (.register x) (fun _ _ => by rw [hpc]; trivial)
      (fun _ => by rw [hpc]; rfl)
      (fun _ => hlisted.goto (by simp [hpc]) (by simp [hpc, Pc.past])
          (by simp [hpc, Pc.touches])) hhere
  · exact h.goto_next (.freeFailed x) (fun _ _ => by rw [hpc]; trivial)
      (fun _ => by rw [hpc]; rfl)
      (fun _ => hlisted.goto (by simp [hpc]) (by simp [hpc, Pc.past])
          (by simp [hpc, Pc.touches])) hhere

theorem InStep.register (h : InStep s) {x : Section}
    (hpc : (s.procs p).pc = .register x)
    (hok : GivesBackUnshared core s (.proc p o))
    (ht : procStep core p o s = some t) : InStep t := by
  obtain ⟨howner, hlisted, hflag, hsec, hid, hx⟩ :=
    h.loading (Or.inr (Or.inl hpc))
  rw [GivesBackUnshared, hpc] at hok
  simp only [procStep, hpc] at ht
  have hsound := locMlbOverlayRegister_sound hok x h.sound
  have hshared : ∀ y, Shared y s.components →
      Shared y (locMlbOverlayRegister o.image x s.components).2 := by
    intro y hy
    refine locMlbOverlayRegister_shared hok ?_ hy
    rintro rfl
    exact hy.not_vacant hx
  have hvacant : ∀ y, ¬ s.Holds p y → Vacant y s.components →
      Vacant y (locMlbOverlayRegister o.image x s.components).2 := by
    intro y hy
    refine locMlbOverlayRegister_vacant hok ?_
    rintro rfl
    exact hy ⟨hflag, by rw [hpc]; trivial⟩
  have hfailed := locMlbOverlayRegister_vacant_of_failed hok hx
  have hregistered : ∀ id,
      (locMlbOverlayRegister o.image x s.components).1 = some id → id ≠ 0 :=
    fun _ => ne_zero_of_locMlbOverlayRegister
  generalize locMlbOverlayRegister o.image x s.components = result
    at ht hsound hshared hvacant hfailed hregistered
  obtain ⟨id | id, table⟩ := result
  · obtain rfl := Option.some.inj ht
    refine h.tabled howner (fun q hq => State.goto_ne _ hq) rfl rfl rfl hsound
      hshared hvacant ?_ ⟨fun _ => howner, fun _ => ?_, ?_⟩
    · rintro y ⟨hfy, -⟩
      rw [State.goto_self] at hfy
      exact ⟨hfy, by rw [hpc]; trivial⟩
    · rw [State.goto_self]
      exact hlisted.goto (by simp [hpc]) (by simp [hpc, Pc.past])
          (by simp [hpc, Pc.touches])
    · rw [State.goto_self]
      exact ⟨hflag, hsec, hid, hfailed rfl⟩
  · obtain rfl := Option.some.inj ht
    refine h.tabled howner (fun q hq => ?_) rfl rfl rfl hsound hshared hvacant
      ?_ ⟨fun _ => howner, fun _ => ?_, ?_⟩
    · rw [State.goto_ne _ hq, State.setEntry_ne _ _ hq]
    · rintro y ⟨hfy, -⟩
      rw [State.goto_self, State.setEntry_self] at hfy
      exact ⟨hfy, by rw [hpc]; trivial⟩
    · rw [State.goto_self, State.setEntry_self]
      exact hlisted.update (by simp [hpc]) (by simp [hpc, Pc.past])
        (by simp [hpc, Pc.touches, eq_comm]) (fun _ _ hj => hj)
        (fun _ => Or.inl hsec) (fun _ => Or.inl hflag)
        fun _ => Or.inl (hregistered id rfl)
    · rw [State.goto_self, State.setEntry_self]
      trivial

/-- `OVERLAY_FREE` for a section of which nothing is registered. -/
theorem InStep.freed (h : InStep s) {x : Section} {e : Entry} {pc : Pc}
    (hpc : (s.procs p).pc = .freeFailed x ∧ pc = .loadEnd ∨
      (s.procs p).pc = .free x ∧ pc = .closeSection (x + 1))
    (hx : (s.procs p).flags x = true → Vacant x s.components)
    (hid : e.compid ≠ 0 → pc.past x) (hmem : e.mem.physAddr = 0) :
    InStep (((s.overlayFree p x).setEntry p x e).goto p pc) := by
  have hlisted := (h.proc p).listed (by
    obtain ⟨hpc, -⟩ | ⟨hpc, -⟩ := hpc <;> rw [hpc] <;> rfl)
  have hkeeps : ∀ y, (s.procs p).pc.keeps y := by
    obtain ⟨hpc, -⟩ | ⟨hpc, -⟩ := hpc <;> rw [hpc] <;> exact fun _ => trivial
  have hothers : ∀ q, q ≠ p → (((s.overlayFree p x).setEntry p x e).goto p
      pc).procs q = s.procs q := by
    intro q hq
    rw [State.goto_ne _ hq, State.setEntry_ne _ _ hq, State.overlayFree]
    split_ifs
    · exact State.setFlags_ne _ _ hq
    · rfl
  have hself : ∃ flags, (((s.overlayFree p x).setEntry p x e).goto p pc).procs
      p = ⟨pc, flags, Function.update (s.procs p).overlays x e⟩ ∧
      flags x = false ∧ ∀ y, y ≠ x → flags y = (s.procs p).flags y := by
    rw [State.goto_self, State.setEntry_self, State.overlayFree]
    split_ifs with hflag
    · rw [State.setFlags_self]
      exact ⟨_, rfl, Function.update_self .., fun y hy =>
        Function.update_of_ne hy ..⟩
    · exact ⟨_, rfl, Bool.eq_false_of_not_eq_true hflag, fun _ _ => rfl⟩
  obtain ⟨flags, hself, hoff, hkept⟩ := hself
  have hholds : ∀ y, (((s.overlayFree p x).setEntry p x e).goto p
      pc).Holds p y → y ≠ x ∧ s.Holds p y := by
    rintro y ⟨hfy, -⟩
    rw [hself] at hfy
    have hne : y ≠ x := by
      rintro rfl
      exact absurd (hoff.symm.trans hfy) Bool.false_ne_true
    exact ⟨hne, (hkept y hne).symm.trans hfy, hkeeps y⟩
  have hproc : ProcInStep (((s.overlayFree p x).setEntry p x e).goto p pc) p :=
    { owner := by
        rw [hself]
        obtain ⟨hpc, rfl⟩ | ⟨-, rfl⟩ := hpc
        · intro _
          have howner := (h.proc p).owner (by rw [hpc]; rfl)
          rw [State.overlayFree]
          split_ifs <;> exact howner
        · exact (by cases ·)
      listed := fun _ => by
        rw [hself]
        refine hlisted.update ?_ ?_ ?_ (fun y hy => (hkept y hy).trans) ?_
          (fun hne => Or.inr (Or.inr (hid hne))) fun hne => absurd hmem hne
        · obtain ⟨hpc, -⟩ | ⟨hpc, -⟩ := hpc <;> simp [hpc]
        · obtain ⟨hpc, rfl⟩ | ⟨hpc, rfl⟩ := hpc
          · simp [hpc, Pc.past]
          · rw [hpc]
            exact fun _ hj => Nat.lt_succ_of_lt hj
        · obtain ⟨hpc, -⟩ | ⟨hpc, -⟩ := hpc <;>
            simp [hpc, Pc.touches, eq_comm]
        · exact fun hne => Or.inr (hid (hne.resolve_right (absurd hmem)))
      here := by
        rw [hself]
        obtain ⟨-, rfl⟩ | ⟨-, rfl⟩ := hpc <;> trivial }
  by_cases hflag : (s.procs p).flags x = true
  · refine h.gaveBack ⟨hflag, hkeeps x⟩ (Or.inl (hx hflag)) hothers ?_ ?_ ?_ ?_
      hholds hproc
    all_goals
      rw [State.overlayFree, if_pos hflag]
      rfl
  · have heq : s.overlayFree p x = s := if_neg hflag
    rw [heq] at hothers hholds hproc ⊢
    exact h.moved hothers (fun _ _ hq => hq) rfl rfl rfl h.unowned
      (fun y hy => (hholds y hy).2) hproc

theorem InStep.freeFailed (h : InStep s) {x : Section}
    (hpc : (s.procs p).pc = .freeFailed x)
    (ht : procStep core p o s = some t) : InStep t := by
  obtain ⟨-, -, -, -, hid, hx⟩ := h.loading (Or.inr (Or.inr hpc))
  simp only [procStep, hpc] at ht
  split_ifs at ht
  obtain rfl := Option.some.inj ht
  exact h.freed (Or.inl ⟨hpc, rfl⟩) (fun _ => hx) (absurd hid) rfl

theorem InStep.loadEnd (h : InStep s) (hpc : (s.procs p).pc = .loadEnd)
    (ht : procStep core p o s = some t) : InStep t := by
  have howner : s.owner = some p := (h.proc p).owner (by rw [hpc]; rfl)
  have hlisted := (h.proc p).listed (by rw [hpc]; rfl)
  simp only [procStep, hpc] at ht
  obtain rfl := Option.some.inj ht
  refine h.goto none s.mtxClients .idle (fun q hq hs => ?_) (fun _ => rfl)
    (fun _ _ => by rw [hpc]; trivial) (by cases ·)
    (fun _ => hlisted.goto (by simp [hpc]) (by simp [hpc, Pc.past])
          (by simp [hpc, Pc.touches])) trivial
  rw [howner] at hs
  exact absurd (Option.some.inj hs).symm hq

/-! ## Closing the device -/

theorem InStep.closeSection (h : InStep s) {i : ℕ}
    (hpc : (s.procs p).pc = .closeSection i)
    (hok : GivesBackUnshared core s (.proc p o))
    (ht : procStep core p o s = some t) : InStep t := by
  have hlisted := (h.proc p).listed (by rw [hpc]; rfl)
  have hgoto : ∀ {pc : Pc}, (∀ j, (Pc.closeSection i).past j → pc.past j) →
      ({ s.procs p with pc := pc } : Proc).Listed := fun hpast =>
    hlisted.goto (by simp [hpc]) (by rwa [hpc]) (by simp [hpc, Pc.touches])
  rw [GivesBackUnshared, hpc] at hok
  simp only [procStep, hpc] at ht
  split_ifs at ht with hi hid hsent hfree hmtx
  · obtain rfl := Option.some.inj ht
    exact h.goto (some p) s.mtxClients (.unregister ⟨i, hi⟩)
      (fun q hq hs => by rw [hfree.1] at hs; cases hs)
      (fun hne => absurd hfree.2 hne) (fun _ _ => by rw [hpc]; trivial)
      (fun _ => rfl) (fun _ => hgoto fun _ hj => hj) hid
  · -- the request is lost, but there is nothing to unregister
    have hx := hok hi hid (Bool.eq_false_of_not_eq_true hsent)
    obtain rfl := Option.some.inj ht
    exact h.goto_next (.free ⟨i, hi⟩) (fun _ _ => by rw [hpc]; trivial)
      (by cases ·) (fun _ => hgoto fun _ hj => hj) fun _ _ => hx
  · obtain rfl := Option.some.inj ht
    refine h.goto_next (.free ⟨i, hi⟩) (fun _ _ => by rw [hpc]; trivial)
      (by cases ·) (fun _ => hgoto fun _ hj => hj) fun hm _ => ?_
    obtain hid' | htouch := hlisted.compid ⟨i, hi⟩ hm
    · exact absurd hid' hid
    · rw [hpc] at htouch
      exact htouch.elim
  · obtain rfl := Option.some.inj ht
    exact h.goto s.owner (some p) (.release 0) (fun _ _ hq => hq) h.unowned
      (fun _ _ => by rw [hpc]; trivial) (by cases ·) (by cases ·) trivial

/-- The DSP executes `OVERLAY_UNREGISTER` for a section that was taken once,
and the table of the library may change with it. -/
theorem InStep.unregistered (h : InStep s) {i : Section} {e : Entry}
    (hpc : (s.procs p).pc = .unregister i) (hi : SingleUse i s.components)
    (he : e.secIdx = i)
    (hid : e.compid ≠ 0 → e.compid = ((s.procs p).overlays i).compid) :
    InStep (({ s with
      components := locMlbOverlayUnregister i s.components
      }.setEntry p i e).goto p (.unregisterEnd i)) := by
  have howner : s.owner = some p := (h.proc p).owner (by rw [hpc]; rfl)
  have hlisted := (h.proc p).listed (by rw [hpc]; rfl)
  refine h.tabled howner (fun q hq => ?_) rfl rfl rfl (h.sound.unregister i)
    (fun x hx => hx.unregister_of_ne ?_) (fun x _ hx => hx.unregister i) ?_
    ⟨fun _ => howner, fun _ => ?_, ?_⟩
  · rw [State.goto_ne _ hq, State.setEntry_ne _ _ hq]
  · rintro rfl
    exact hx.not_singleUse hi
  · rintro x ⟨hfx, -⟩
    rw [State.goto_self, State.setEntry_self] at hfx
    exact ⟨hfx, by rw [hpc]; trivial⟩
  · rw [State.goto_self, State.setEntry_self]
    refine hlisted.update (by simp [hpc]) (by simp [hpc, Pc.past])
      (by simp [hpc, Pc.touches]) (fun _ _ hj => hj) (fun _ => Or.inl he)
      (fun hne => ?_) fun _ => Or.inr rfl
    have hne' : ((s.procs p).overlays i).compid ≠ 0 := hid hne ▸ hne
    exact Or.inl ((hlisted.flags i hne').resolve_right (by simp [hpc, Pc.past]))
  · rw [State.goto_self, State.setEntry_self]
    exact fun _ _ => hi.vacant_unregister

theorem InStep.unregister (h : InStep s) {i : Section}
    (hpc : (s.procs p).pc = .unregister i)
    (hok : GivesBackUnshared core s (.proc p o))
    (ht : procStep core p o s = some t) : InStep t := by
  have hlisted := (h.proc p).listed (by rw [hpc]; rfl)
  have hid : ((s.procs p).overlays i).compid ≠ 0 := by
    have hhere := (h.proc p).here
    rwa [State.Here, hpc] at hhere
  have hsec : ((s.procs p).overlays i).secIdx = i :=
    (hlisted.secIdx i (Or.inl hid)).resolve_right (by simp [hpc, Pc.past])
  rw [GivesBackUnshared, hpc] at hok
  obtain ⟨hsingle, hlost⟩ := hok
  simp only [procStep, hpc, hsec] at ht
  cases hfc : o.fastcall with
  | done =>
      rw [hfc] at ht
      obtain rfl := Option.some.inj ht
      exact h.unregistered hpc hsingle rfl fun hne => absurd rfl hne
  | unanswered =>
      rw [hfc] at ht
      obtain rfl := Option.some.inj ht
      have := h.unregistered hpc hsingle hsec fun _ => rfl
      rwa [State.setEntry_same] at this
  | lost =>
      rw [hfc] at ht
      obtain rfl := Option.some.inj ht
      exact h.goto_next (.unregisterEnd i) (fun _ _ => by rw [hpc]; trivial)
        (fun _ => by rw [hpc]; rfl)
        (fun _ => hlisted.goto (by simp [hpc]) (by simp [hpc, Pc.past])
          (by simp [hpc, Pc.touches]))
        fun _ _ => hlost hfc

theorem InStep.unregisterEnd (h : InStep s) {i : Section}
    (hpc : (s.procs p).pc = .unregisterEnd i)
    (ht : procStep core p o s = some t) : InStep t := by
  have howner : s.owner = some p := (h.proc p).owner (by rw [hpc]; rfl)
  have hlisted := (h.proc p).listed (by rw [hpc]; rfl)
  have hhere := (h.proc p).here
  rw [State.Here, hpc] at hhere
  simp only [procStep, hpc] at ht
  obtain rfl := Option.some.inj ht
  refine h.goto none s.mtxClients (.free i) (fun q hq hs => ?_) (fun _ => rfl)
    (fun _ _ => by rw [hpc]; trivial) (by cases ·)
    (fun _ => hlisted.goto (by simp [hpc]) (by simp [hpc, Pc.past])
          (by simp [hpc, Pc.touches])) hhere
  rw [howner] at hs
  exact absurd (Option.some.inj hs).symm hq

theorem InStep.free (h : InStep s) {i : Section}
    (hpc : (s.procs p).pc = .free i) (ht : procStep core p o s = some t) :
    InStep t := by
  have hlisted := (h.proc p).listed (by rw [hpc]; rfl)
  have hhere := (h.proc p).here
  rw [State.Here, hpc] at hhere
  simp only [procStep, hpc] at ht
  by_cases hmem : ((s.procs p).overlays i).mem.physAddr ≠ 0
  · have hsec : ((s.procs p).overlays i).secIdx = i :=
      (hlisted.secIdx i (Or.inr hmem)).resolve_right (by simp [hpc, Pc.past])
    rw [if_pos hmem, hsec] at ht
    obtain ⟨-, ht⟩ := Option.ite_none_right_eq_some.mp ht
    obtain rfl := Option.some.inj ht
    exact h.freed (Or.inr ⟨hpc, rfl⟩) (hhere hmem)
      (fun _ => Nat.lt_succ_self i.val) rfl
  · rw [if_neg hmem] at ht
    obtain rfl := Option.some.inj ht
    refine h.goto_next (.closeSection (i + 1))
      (fun _ _ => by rw [hpc]; trivial) (by cases ·)
      (fun _ => hlisted.goto (by simp [hpc]) ?_ ?_) trivial
    all_goals rw [hpc]
    · exact fun _ hj => Nat.lt_succ_of_lt hj
    · rintro j rfl hm
      exact absurd hm hmem

/-! ## Cleaning up -/

/-- `EMERGENCY_UNLOAD` is sent for a section that was taken once. -/
theorem InStep.sentUnload (h : InStep s) {k : Section}
    (hpc : (s.procs p).pc = .release k) (hfree : s.DspFree)
    (hflag : (s.procs p).flags k = true) (hk : SingleUse k s.components) :
    InStep ({ s with unloading := some k }.goto p (.mark k)) := by
  have hself : ({ s with unloading := some k }.goto p (.mark k)).procs p =
      { s.procs p with pc := .mark k } := State.goto_self _
  have hc : ChangedBy p s ({ s with unloading := some k }.goto p (.mark k)) :=
    { others := fun q hq => State.goto_ne _ hq
      owner := fun _ _ hq => hq
      shared := fun _ hx => hx
      vacant := fun _ _ hx => hx
      unloading := fun x hx => by
        rw [hfree.2] at hx
        cases hx
      taken := fun x hx => by
        obtain ⟨hfx, hkx⟩ := hx
        rw [hself] at hfx hkx
        have hs : s.Holds p x := ⟨hfx, by rw [hpc]; exact hkx⟩
        exact ⟨h.held p x hs, Or.inl hs⟩
      given := fun _ hx => Or.inl hx }
  refine h.changed hc h.sound (fun _ => hfree.1) ?_ ?_ ⟨?_, ?_, ?_⟩
  · intro x hx
    obtain rfl := Option.some.inj hx
    exact hk
  · exact fun x hx => Or.inl (h.vacant_of_clear hfree.2 hx)
  · rw [hself]
    exact (by cases ·)
  · rw [hself]
    exact (by cases ·)
  · rw [hself]
    exact ⟨hflag, Or.inr rfl⟩

/-- The client is forgotten. -/
theorem InStep.released (h : InStep s) :
    InStep ({ s with mtxClients := none }.setProc p fun pr =>
      { pr with pc := .closed, flags := fun _ => false }) := by
  refine h.moved (p := p) (fun q hq => State.setProc_ne _ hq)
    (fun _ _ hq => hq) rfl rfl rfl h.unowned ?_ ⟨?_, ?_, ?_⟩
  · rintro x ⟨hfx, -⟩
    rw [State.setProc_self] at hfx
    cases hfx
  · rw [State.setProc_self]
    exact (by cases ·)
  · rw [State.setProc_self]
    exact (by cases ·)
  · rw [State.setProc_self]
    trivial

theorem InStep.release (h : InStep s) {k : ℕ}
    (hpc : (s.procs p).pc = .release k)
    (hok : GivesBackUnshared core s (.proc p o))
    (ht : procStep core p o s = some t) : InStep t := by
  have hnext : InStep (s.goto p (.release (k + 1))) :=
    h.goto_next (.release (k + 1))
      (fun x (hx : k + 1 ≤ x.val) => by
        rw [hpc]
        exact Nat.le_of_succ_le hx)
      (by cases ·) (by cases ·) trivial
  rw [GivesBackUnshared, hpc] at hok
  simp only [procStep, hpc] at ht
  split_ifs at ht with hk hflag htimed hfree hsent
  · obtain rfl := Option.some.inj ht
    exact hnext
  · obtain rfl := Option.some.inj ht
    have hsingle := (hok hk hflag (Bool.eq_false_of_not_eq_true htimed)).1
    exact h.sentUnload hpc hfree hflag hsingle
  · -- the message is not sent, but there is nothing to unload
    have hx := (hok hk hflag (Bool.eq_false_of_not_eq_true htimed)).2
      (Bool.eq_false_of_not_eq_true hsent)
    rw [← hfree.2] at ht
    obtain rfl := Option.some.inj ht
    exact h.goto_next (.mark ⟨k, hk⟩) (fun x hx => by rw [hpc]; exact hx)
      (by cases ·) (by cases ·) ⟨hflag, Or.inl hx⟩
  · obtain rfl := Option.some.inj ht
    exact hnext
  · obtain rfl := Option.some.inj ht
    exact h.released

theorem InStep.mark (h : InStep s) {k : Section}
    (hpc : (s.procs p).pc = .mark k) (ht : procStep core p o s = some t) :
    InStep t := by
  have hhere := (h.proc p).here
  rw [State.Here, hpc] at hhere
  obtain ⟨hflag, hgone⟩ := hhere
  simp only [procStep, hpc] at ht
  obtain rfl := Option.some.inj ht
  refine h.gaveBack ⟨hflag, by rw [hpc]; exact le_refl k.val⟩ hgone
    (fun q hq => State.goto_ne _ hq) rfl rfl rfl rfl ?_
    ⟨?_, ?_, ?_⟩
  · rintro y ⟨hfy, hky⟩
    rw [State.goto_self] at hfy hky
    have hlt : k.val < y.val := hky
    refine ⟨fun heq => ?_, hfy, ?_⟩
    · rw [heq] at hlt
      exact absurd hlt (lt_irrefl _)
    · rw [hpc]
      exact hlt.le
  · rw [State.goto_self]
    exact (by cases ·)
  · rw [State.goto_self]
    exact (by cases ·)
  · rw [State.goto_self]
    trivial

/-! ## Runs -/

theorem InStep.procStep (h : InStep s)
    (hok : GivesBackUnshared core s (.proc p o))
    (ht : procStep core p o s = some t) : InStep t := by
  cases hpc : (s.procs p).pc with
  | closed | idle =>
      rw [Overlay.procStep, hpc] at ht
      cases ht
  | find name => exact h.find hpc hok ht
  | ref x => exact h.ref hpc ht
  | alloc => exact h.alloc hpc ht
  | image x => exact h.image hpc ht
  | register x => exact h.register hpc hok ht
  | freeFailed x => exact h.freeFailed hpc ht
  | loadEnd => exact h.loadEnd hpc ht
  | closeSection i => exact h.closeSection hpc hok ht
  | unregister i => exact h.unregister hpc hok ht
  | unregisterEnd i => exact h.unregisterEnd hpc ht
  | free i => exact h.free hpc ht
  | release k => exact h.release hpc hok ht
  | mark k => exact h.mark hpc ht

/-- The DSP executes `EMERGENCY_UNLOAD`. -/
theorem InStep.unload (h : InStep s) {x : Section}
    (hx : s.unloading = some x) :
    InStep { s with
      components := locMlbOverlayUnregister x s.components
      unloading := none } where
  sound := h.sound.unregister x
  unowned hne := absurd rfl hne
  single _ hy := by cases hy
  clear y hy := by
    obtain hv | hu := h.clear y hy
    · exact Or.inl (hv.unregister x)
    · obtain rfl := Option.some.inj (hx.symm.trans hu)
      exact Or.inl (h.single x hx).vacant_unregister
  held := h.held
  shared p q y hne hp hq := by
    have hy := h.shared p q y hne hp hq
    refine hy.unregister_of_ne ?_
    rintro rfl
    exact hy.not_singleUse (h.single y hx)
  proc q := by
    refine (h.proc q).frame rfl (fun hq => hq) (fun y hq _ => ?_)
      (fun y _ hy => hy.unregister x) fun y hy => ?_
    · rw [h.unowned (by rw [hx]; exact Option.some_ne_none x)] at hq
      cases hq
    · obtain rfl := Option.some.inj (hx.symm.trans hy)
      exact Or.inl (h.single x hx).vacant_unregister

theorem InStep.openDev (h : InStep s) (hpc : (s.procs p).pc = .closed) :
    InStep (s.setProc p fun pr =>
      { pr with pc := .idle, overlays := fun _ => Entry.zero }) := by
  refine h.moved (p := p) (fun q hq => State.setProc_ne _ hq)
    (fun _ _ hq => hq) rfl rfl rfl h.unowned ?_ ⟨?_, fun _ => ?_, ?_⟩
  · rintro x ⟨hfx, -⟩
    rw [State.setProc_self] at hfx
    exact ⟨hfx, by rw [hpc]; trivial⟩
  · rw [State.setProc_self]
    exact (by cases ·)
  · rw [State.setProc_self]
    exact {
      secIdx := fun _ hne => hne.elim (absurd rfl) (absurd rfl)
      flags := fun _ hne => absurd rfl hne
      compid := fun _ hne => absurd rfl hne }
  · rw [State.setProc_self]
    trivial

theorem InStep.die (h : InStep s) (hpc : (s.procs p).pc.alive = true) :
    InStep ({ s with
      owner := if s.owner = some p then none else s.owner
      mtxClients := some p }.goto p (.release 0)) := by
  refine h.goto _ (some p) (.release 0) (fun q hq hs => ?_) (fun hne => ?_)
    (fun x _ => Pc.keeps_of_alive hpc x) (by cases ·) (by cases ·) trivial
  · rwa [if_neg]
    rw [hs]
    exact fun heq => hq (Option.some.inj heq)
  · rw [h.unowned hne]
    rfl

theorem InStep.next (h : InStep s) {e : Event}
    (hok : GivesBackUnshared core s e) (ht : overlayNext core s e = some t) :
    InStep t := by
  cases e with
  | openDev p =>
      obtain ⟨hpc, ht⟩ := Option.ite_none_right_eq_some.mp ht
      obtain rfl := Option.some.inj ht
      exact h.openDev hpc
  | load p name =>
      obtain ⟨⟨hpc, hfree⟩, ht⟩ := Option.ite_none_right_eq_some.mp ht
      obtain rfl := Option.some.inj ht
      have hlisted := (h.proc p).listed (by rw [hpc]; rfl)
      refine h.goto (some p) s.mtxClients (.find name) (fun q _ hs => ?_)
        (fun hne => absurd hfree.2 hne) (fun _ _ => by rw [hpc]; trivial)
        (fun _ => rfl)
        (fun _ => hlisted.goto (by simp [hpc]) (by simp [hpc, Pc.past])
          (by simp [hpc, Pc.touches]))
        trivial
      rw [hfree.1] at hs
      cases hs
  | close p =>
      obtain ⟨hpc, ht⟩ := Option.ite_none_right_eq_some.mp ht
      obtain rfl := Option.some.inj ht
      have hlisted := (h.proc p).listed (by rw [hpc]; rfl)
      exact h.goto_next (.closeSection 0) (fun _ _ => by rw [hpc]; trivial)
        (by cases ·)
        (fun _ => hlisted.goto (by simp [hpc]) (by simp [hpc, Pc.past])
          (by simp [hpc, Pc.touches]))
        trivial
  | die p =>
      obtain ⟨⟨hpc, -⟩, ht⟩ := Option.ite_none_right_eq_some.mp ht
      obtain rfl := Option.some.inj ht
      exact h.die hpc
  | proc p o => exact h.procStep hok ht
  | unload =>
      simp only [overlayNext] at ht
      cases hx : s.unloading with
      | none =>
          rw [hx] at ht
          cases ht
      | some x =>
          rw [hx] at ht
          obtain rfl := Option.some.inj ht
          exact h.unload hx

/-- The tables stay in step as long as what is given back was taken once. -/
theorem inStep_of_reachable
    (h : ((overlayMachine core).restrict (GivesBackUnshared core)).Reachable s) :
    InStep s :=
  h.invariant (fun s hs => by rw [show s = State.initial from hs]; exact initial_inStep)
    fun _ _ _ hs ht => hs.next ht.1 ht.2

theorem InStep.agrees (h : InStep s) : s.Agrees where
  vacant _ hnone _ hx := h.vacant_of_clear hnone hx
  image p x hpc i hexec := by
    obtain ⟨-, -, -, -, -, hx⟩ := h.loading (Or.inl hpc)
    exact hx i (h.sound.exec i hexec)

/-- Driver and DSP agree on overlay sections, in every run in which what is
given back was taken once and the DSP is told. -/
theorem agrees_of_givesBackUnshared
    (h : ((overlayMachine core).restrict (GivesBackUnshared core)).Reachable s) :
    s.Agrees :=
  (inStep_of_reachable h).agrees

/-- Everything succeeds, and the overlay has one component. -/
def demoOutcome : Outcome where
  area := some .area2
  loaded := true
  image := ⟨1, [], true⟩
  sent := true
  fastcall := .done
  timedOut := false

/-- A process opens the device and loads the component, from its image. -/
def demoLoad (p : ℕ) : List Event :=
  [.openDev p, .load p 1] ++ List.replicate 5 (.proc p demoOutcome)

/-- It closes the device, as far as the first section is concerned. -/
def demoClose (p : ℕ) : List Event :=
  .close p :: List.replicate 4 (.proc p demoOutcome)

/-- A section is given back, and the image of another overlay goes there. -/
theorem demoRun_agrees :
    ∃ s : State, (s.procs 1).pc = .image 0 ∧ s.Agrees := by
  have hrun : ∃ s : State, ((overlayMachine fun _ => none).restrict
      (GivesBackUnshared fun _ => none)).Reachable s ∧
      (s.procs 1).pc = .image 0 :=
    Machine.exists_restrict_reachable_of_run _
      (demoLoad 0 ++ demoClose 0 ++ (demoLoad 1).take 4) (by decide +kernel)
  obtain ⟨s, hs, hpc⟩ := hrun
  exact ⟨s, hpc, agrees_of_givesBackUnshared hs⟩

/-- The component is found by a second process.  When the first one closes the
device, the section is free, and its component is registered. -/
theorem shared_section_given_back :
    ∃ s : State, (overlayMachine fun _ => none).Reachable s ∧
      s.owner = none ∧ s.unloading = none ∧ ¬ s.Agrees := by
  have hrun : ∃ s : State, (overlayMachine fun _ => none).Reachable s ∧
      s.owner = none ∧ s.unloading = none ∧ s.sectionFlags 0 = false ∧
      ¬ Vacant 0 s.components :=
    Machine.exists_reachable_of_run _
      (demoLoad 0 ++ (demoLoad 1).take 5 ++ demoClose 0) (by decide +kernel)
  obtain ⟨s, hs, howner, hunloading, hflag, hx⟩ := hrun
  exact ⟨s, hs, howner, hunloading,
    fun h => hx (h.vacant howner hunloading 0 hflag)⟩

end C64Tools.Overlay
