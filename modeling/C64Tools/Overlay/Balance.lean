import C64Tools.Overlay.References
import C64Tools.Overlay.Session

/-!
# What a process takes and gives back

`loc_overlays_free` gives back one reference for each section that has an
entry with a component in the `overlays` table.  The loads that ended up in a
section are compared with what is given back for it.
-/

namespace C64Tools.Overlay

open Kmod (Section mlbComNumSectionIndices overlaySections)

/-- As many calls unregister the section as references to it were taken, the
reference counts are what they were, the section is freed if it was held, and
no mapping of it is left. -/
structure BalancedAt (x : Section) (taken : ℕ) (c₀ c : Session)
    (calls : List Call) : Prop where
  unregistered : calls.count (.overlayUnregister x) = taken
  returned : ∀ i, refsIn x c.components i = refsIn x c₀.components i
  freed : calls.count (.overlayFree x) = if taken = 0 then 0 else 1
  unmapped : ∀ addr, c.mapped addr ≠ some x

/-- Closing the device balances the loads which the process made since it was
opened. -/
def Balanced (core : ℕ → Option ℕ) (p : ℕ) (loads : List (ℕ × LoadOutcome))
    (o : CloseOutcome) (c₀ c : Session) : Prop :=
  ∀ x, BalancedAt x ((usesIn core p x loads c₀).countP Use.takesRef) c₀
    (locOverlaysFree p o c).2 (locOverlaysFree p o c).1

/-- A reference to all components of the section was taken, if any. -/
def Use.whole : Use → Bool
  | .resident _ => true
  | .found whole | .registered whole => whole

/-- Exactly one load that is recorded for the section takes a reference, to all
of its components.  The last one is not a hit on the core component with the
id 0, and maps the section if any does.  The reference is given back. -/
structure OneReference (x : Section) (uses : List Use) (o : CloseOutcome) :
    Prop where
  one : uses.countP Use.takesRef = 1
  whole : ∀ u ∈ uses, u.whole = true
  last : uses.getLast? ≠ some (.resident 0)
  maps_last : (∃ u ∈ uses, u.maps = true) →
    ∃ u ∈ uses.getLast?, u.maps = true
  sent : o.sent x = true
  executed : o.fastcall x ≠ .lost

/-- For each section, no load is recorded or one that takes a reference. -/
def EachOnce (core : ℕ → Option ℕ) (p : ℕ) (loads : List (ℕ × LoadOutcome))
    (o : CloseOutcome) (c₀ : Session) : Prop :=
  ∀ x, usesIn core p x loads c₀ = [] ∨
    OneReference x (usesIn core p x loads c₀) o

instance (x : Section) (uses : List Use) (o : CloseOutcome) :
    Decidable (OneReference x uses o) :=
  decidable_of_iff
    (uses.countP Use.takesRef = 1 ∧ (∀ u ∈ uses, u.whole = true) ∧
      uses.getLast? ≠ some (.resident 0) ∧
      ((∃ u ∈ uses, u.maps = true) → ∃ u ∈ uses.getLast?, u.maps = true) ∧
      o.sent x = true ∧ o.fastcall x ≠ .lost)
    ⟨fun ⟨h1, h2, h3, h4, h5, h6⟩ => ⟨h1, h2, h3, h4, h5, h6⟩,
      fun h => ⟨h.one, h.whole, h.last, h.maps_last, h.sent, h.executed⟩⟩

instance (core : ℕ → Option ℕ) (p : ℕ) (loads : List (ℕ × LoadOutcome))
    (o : CloseOutcome) (c₀ : Session) :
    Decidable (EachOnce core p loads o c₀) :=
  inferInstanceAs (Decidable (∀ _, _ ∨ _))

variable {core : ℕ → Option ℕ} {p name id addr : ℕ} {x y : Section}
  {c c₀ c' : Session} {t t' : Table} {i j : Fin mlbMaxOverlayComponents}
  {o : LoadOutcome} {uses : List Use} {u : Use}

/-! ## One load -/

/-- A load has been recorded for a section: it uses `u` there, and takes
references to the components `A`. -/
structure Records (p : ℕ) (x : Section) (u : Use)
    (A : Finset (Fin mlbMaxOverlayComponents)) (c c' : Session) : Prop where
  secIdx : (c'.entry p x).secIdx = x
  physAddr : (c'.entry p x).mem.physAddr ≠ 0
  compid : (c'.entry p x).compid = 0 ↔ u = .resident 0
  entry_of_ne : ∀ y ≠ x, c'.entry p y = c.entry p y
  virtAddr_of_ne : ∀ y ≠ x, c'.virtAddr y = c.virtAddr y
  mapping : u.maps = false ∧ c'.virtAddr x = 0 ∧ c'.mapped = c.mapped ∨
    u.maps = true ∧ ∃ addr, addr ≠ 0 ∧ c.mapped addr = none ∧
      c'.virtAddr x = addr ∧
      c'.mapped = Function.update c.mapped addr (some x)
  takes : TakesRefs x A c.components c'.components
  takesRef : u.takesRef = true ↔ A.Nonempty
  whole : u.whole = true ↔
    (u.takesRef = true → ∀ i, InSection x c.components i → i ∈ A)

theorem overlaySections_physAddr (x : Section) :
    (overlaySections x).physAddr ≠ 0 := by
  revert x
  decide

/-- What `componentFound` records, when references were taken before. -/
theorem records_componentFound
    {A : Finset (Fin mlbMaxOverlayComponents)} (hmaps : u.maps = false)
    (hid : id = 0 ↔ u = .resident 0)
    (htakes : TakesRefs x A c.components t)
    (hA : u.takesRef = true ↔ A.Nonempty)
    (hwhole : u.whole = true ↔
      (u.takesRef = true → ∀ i, InSection x c.components i → i ∈ A)) :
    Records p x u A c (componentFound p x id (c.setComponents t)) := by
  have hentry := entry_componentFound p x id (c.setComponents t)
  have hself : (componentFound p x id (c.setComponents t)).entry p x =
      ⟨x, overlaySections x, id⟩ := by
    rw [hentry, Function.update_self]
  refine ⟨?_, ?_, ?_, fun y hy => ?_, fun y hy => ?_, Or.inl ⟨hmaps, ?_, rfl⟩,
    htakes, hA, hwhole⟩
  · rw [hself]
  · rw [hself]
    exact overlaySections_physAddr x
  · rw [hself]
    exact hid
  · rw [hentry, Function.update_of_ne hy, Session.entry_setComponents]
  · exact Function.update_of_ne hy ..
  · exact Function.update_self ..

/-- What was recorded for the section before does not matter. -/
theorem Records.of_eq {c₁ : Session}
    {A : Finset (Fin mlbMaxOverlayComponents)} (h : Records p x u A c₁ c')
    (hentry : ∀ y ≠ x, c₁.entry p y = c.entry p y)
    (hvirtAddr : ∀ y ≠ x, c₁.virtAddr y = c.virtAddr y)
    (hmapped : c₁.mapped = c.mapped)
    (hcomponents : c₁.components = c.components) :
    Records p x u A c c' where
  secIdx := h.secIdx
  physAddr := h.physAddr
  compid := h.compid
  entry_of_ne y hy := (h.entry_of_ne y hy).trans (hentry y hy)
  virtAddr_of_ne y hy := (h.virtAddr_of_ne y hy).trans (hvirtAddr y hy)
  mapping := hmapped ▸ h.mapping
  takes := hcomponents ▸ h.takes
  takesRef := h.takesRef
  whole := hcomponents ▸ h.whole

/-- What `loadOverlay` records when it succeeds. -/
theorem records_loadOverlay (h : loadOverlay p x o c = (some id, c'))
    (hsecIdx : (c.entry p x).secIdx = x)
    (hphys : (c.entry p x).mem.physAddr ≠ 0) :
    ∃ A, Records p x (.registered (decide (Vacant x c.components))) A c c' := by
  unfold loadOverlay at h
  split_ifs at h with haddr hloaded
  · obtain ⟨hne, hfree⟩ := haddr
    cases hreg : locMlbOverlayRegister o.image x c.components with
    | mk ret t =>
        have hreg' : locMlbOverlayRegister o.image x
            ((c.mmap o.mmapAddr x).setVirtAddr x o.mmapAddr).components =
            (ret, t) := hreg
        simp only [hreg'] at h
        cases ret with
        | none => cases (Prod.mk.inj h).1
        | some cid =>
            obtain ⟨-, rfl⟩ := Prod.mk.inj h
            have hid : cid ≠ 0 :=
              ne_zero_of_locMlbOverlayRegister (by rw [hreg])
            obtain ⟨htakes, hnonempty⟩ := takesRefs_locMlbOverlayRegister hreg
            have hnew : ∀ i ∈ newComponents c.components t,
                (c.components i).componentId = 0 :=
              fun i hi => (mem_newComponents.mp hi).1
            refine ⟨newComponents c.components t, ?_, ?_, ?_, fun y hy => ?_,
              fun y hy => ?_, Or.inr ⟨rfl, o.mmapAddr, hne, hfree, ?_, rfl⟩,
              htakes, iff_of_true rfl hnonempty, ?_⟩
            · simpa using hsecIdx
            · simpa using hphys
            · simpa using hid
            · simp [hy]
            · exact Function.update_of_ne hy ..
            · exact Function.update_self ..
            · -- None of the new components was registered before.
              simp only [Use.whole, decide_eq_true_eq, Use.takesRef,
                forall_const]
              exact ⟨fun hv i hin => absurd hin.2 (hv i hin.1),
                fun hall i hid hs => hid (hnew i (hall i ⟨hid, hs⟩))⟩
  all_goals cases (Prod.mk.inj h).1

/-- A load that succeeds is recorded for the section that it uses. -/
theorem records_of_load
    (h : dspComponentLoad core p name o c = (some id, c')) :
    ∃ x u A, useOf core name o c = some (x, u) ∧ Records p x u A c c' := by
  unfold dspComponentLoad at h
  split_ifs at h with hbegun
  · cases hfind : locComponentFindByName core name c.components with
    | some found =>
        rw [hfind] at h
        cases found with
        | core cid =>
            obtain ⟨-, rfl⟩ := Prod.mk.inj h
            refine ⟨0, .resident cid, ∅, by rw [useOf, hfind], ?_⟩
            exact records_componentFound (t := c.components) rfl (by simp)
              (takesRefs_empty 0 _) (by simp [Use.takesRef])
              (by simp [Use.takesRef, Use.whole])
        | overlay i =>
            obtain ⟨-, rfl⟩ := Prod.mk.inj h
            have hid := componentId_of_found hfind
            refine ⟨_, _, {i}, by rw [useOf, hfind], ?_⟩
            exact records_componentFound rfl (by simpa using hid)
              (takesRefs_incRef ⟨hid, rfl⟩) (by simp [Use.takesRef])
              (by simp [Use.takesRef, Use.whole, InSection])
    | none =>
        rw [hfind] at h
        cases halloc : o.area.bind c.state.overlayAlloc with
        | none => simp [halloc] at h
        | some x =>
            rw [halloc] at h
            dsimp only at h
            have hentry := entry_sectionAllocated p x c
            obtain ⟨A, hA⟩ := records_loadOverlay h (by simp [hentry])
              (by simpa [hentry] using overlaySections_physAddr x)
            refine ⟨x, _, A, by rw [useOf, hfind, halloc]; rfl,
              hA.of_eq (fun y hy => ?_) (fun y hy => ?_) rfl rfl⟩
            · rw [hentry, Function.update_of_ne hy]
            · exact Function.update_of_ne hy ..
  · cases (Prod.mk.inj h).1

/-! ## Any number of loads -/

/-- What is recorded about a section after the given uses, counted from the
opening of the device on. -/
structure Recorded (p : ℕ) (x : Section) (uses : List Use) (c₀ c : Session) :
    Prop where
  secIdx : uses ≠ [] → (c.entry p x).secIdx = x
  physAddr : (c.entry p x).mem.physAddr ≠ 0 ↔ uses ≠ []
  compid : (c.entry p x).compid = 0 ↔
    uses = [] ∨ uses.getLast? = some (.resident 0)
  virtAddr : c.virtAddr x ≠ 0 ↔ ∃ u ∈ uses.getLast?, u.maps = true
  mapped_virtAddr : c.virtAddr x ≠ 0 → c.mapped (c.virtAddr x) = some x
  mapped : (∃ addr, c.mapped addr = some x) ↔ ∃ u ∈ uses, u.maps = true
  unique : uses.countP Use.maps ≤ 1 → ∀ a b, c.mapped a = some x →
    c.mapped b = some x → a = b
  untaken : uses.countP Use.takesRef = 0 →
    TakesIn x ∅ c₀.components c.components
  taken : uses.countP Use.takesRef = 1 → ∃ A : Finset _, A.Nonempty ∧
    TakesIn x A c₀.components c.components ∧
    ((∀ u ∈ uses, u.whole = true) ↔
      ∀ i, InSection x c₀.components i → i ∈ A)

namespace Records

variable {A : Finset (Fin mlbMaxOverlayComponents)}

theorem mapped_of_ne (h : Records p y u A c c') (hne : x ≠ y) (addr : ℕ) :
    c'.mapped addr = some x ↔ c.mapped addr = some x := by
  obtain ⟨-, -, heq⟩ | ⟨-, a, -, hfree, -, heq⟩ := h.mapping
  · rw [heq]
  · rw [heq]
    by_cases haddr : addr = a
    · subst haddr
      rw [Function.update_self, hfree]
      exact iff_of_false (fun h => hne (Option.some.inj h).symm) nofun
    · rw [Function.update_of_ne haddr]

theorem eq_empty (h : Records p x u A c c') (hu : u.takesRef = false) :
    A = ∅ := by
  by_contra hA
  have hu' := h.takesRef.mpr (Finset.nonempty_iff_ne_empty.mpr hA)
  rw [hu] at hu'
  cases hu'

end Records

namespace Recorded

theorem opened (p : ℕ) (x : Section) (s : State) :
    Recorded p x [] (Session.opened p s) (Session.opened p s) := by
  have hentry : (Session.opened p s).entry p x = Entry.zero := by
    simp [Session.opened, Session.entry]
  refine ⟨nofun, ?_, ?_, ?_, ?_, ?_, ?_, fun _ => .refl x _, nofun⟩
  · simp [hentry, Entry.zero, DspMemRegion.zero]
  · simp [hentry, Entry.zero]
  · simp [Session.opened]
  · exact fun h => absurd rfl h
  · simp [Session.opened]
  · exact fun _ a b ha => by cases ha

variable {A : Finset (Fin mlbMaxOverlayComponents)}

/-- A load that is recorded for another section. -/
theorem other (h : Recorded p x uses c₀ c) (hr : Records p y u A c c')
    (hne : x ≠ y) : Recorded p x uses c₀ c' := by
  have hmapped := hr.mapped_of_ne hne
  have htakes := hr.takes.elsewhere x hne
  refine ⟨?_, ?_, ?_, ?_, ?_, ?_, ?_, fun h0 => (h.untaken h0).before htakes,
    fun h1 => ?_⟩
  · rw [hr.entry_of_ne x hne]
    exact h.secIdx
  · rw [hr.entry_of_ne x hne]
    exact h.physAddr
  · rw [hr.entry_of_ne x hne]
    exact h.compid
  · rw [hr.virtAddr_of_ne x hne]
    exact h.virtAddr
  · rw [hr.virtAddr_of_ne x hne, hmapped]
    exact h.mapped_virtAddr
  · rw [exists_congr hmapped]
    exact h.mapped
  · intro hle a b ha hb
    exact h.unique hle a b ((hmapped a).mp ha) ((hmapped b).mp hb)
  · obtain ⟨B, hB, htaken, hwhole⟩ := h.taken h1
    exact ⟨B, hB, htaken.before htakes, hwhole⟩

theorem exists_maps_append :
    (∃ w ∈ uses ++ [u], w.maps = true) ↔
      (∃ w ∈ uses, w.maps = true) ∨ u.maps = true := by
  simp [or_and_right, exists_or]

/-- The first mapping of the section is the only one. -/
theorem unique_record (h : Recorded p x uses c₀ c)
    (hr : Records p x u A c c')
    (hle : (uses ++ [u]).countP Use.maps ≤ 1) {a b : ℕ}
    (ha : c'.mapped a = some x) (hb : c'.mapped b = some x) : a = b := by
  rw [List.countP_append, List.countP_singleton] at hle
  obtain ⟨hmaps, -, heq⟩ | ⟨hmaps, addr, -, -, -, heq⟩ := hr.mapping
  · rw [heq] at ha hb
    exact h.unique (by omega) a b ha hb
  · have hnone : ∀ a, c.mapped a ≠ some x := by
      intro a ha
      obtain ⟨w, hw, hwmaps⟩ := h.mapped.mp ⟨a, ha⟩
      have hpos := List.countP_pos_iff.mpr ⟨w, hw, hwmaps⟩
      rw [if_pos hmaps] at hle
      omega
    have hself : ∀ a, c'.mapped a = some x → a = addr := by
      intro a ha
      by_contra hne
      rw [heq, Function.update_of_ne hne] at ha
      exact hnone a ha
    rw [hself a ha, hself b hb]

/-- The references that were taken, after one more load. -/
theorem taken_record (h : Recorded p x uses c₀ c) (hr : Records p x u A c c')
    (hone : (uses ++ [u]).countP Use.takesRef = 1) :
    ∃ B : Finset _, B.Nonempty ∧ TakesIn x B c₀.components c'.components ∧
      ((∀ w ∈ uses ++ [u], w.whole = true) ↔
        ∀ i, InSection x c₀.components i → i ∈ B) := by
  rw [List.countP_append, List.countP_singleton] at hone
  by_cases hu : u.takesRef = true
  · -- The loads before found components of the core image.
    rw [if_pos hu] at hone
    have hzero : uses.countP Use.takesRef = 0 := by omega
    have hbefore := h.untaken hzero
    have hold : ∀ w ∈ uses, w.whole = true := by
      intro w hw
      have hnot := List.countP_eq_zero.mp hzero w hw
      cases w with
      | resident => rfl
      | _ => exact absurd rfl hnot
    refine ⟨A, hr.takesRef.mp hu, hbefore.after hr.takes.here, ?_⟩
    rw [List.forall_mem_append, and_iff_right hold, List.forall_mem_singleton,
      hr.whole, imp_iff_right hu]
    exact forall_congr' fun i => imp_congr (hbefore.same i).1 Iff.rfl
  · rw [if_neg hu] at hone
    obtain ⟨B, hB, htaken, hwhole⟩ := h.taken hone
    have hhere := hr.takes.here
    rw [hr.eq_empty (by simpa using hu)] at hhere
    refine ⟨B, hB, htaken.before hhere, ?_⟩
    rw [List.forall_mem_append, List.forall_mem_singleton, ← hwhole, hr.whole]
    exact and_iff_left fun h => absurd h hu

/-- A load that is recorded for the section. -/
theorem record (h : Recorded p x uses c₀ c) (hr : Records p x u A c c') :
    Recorded p x (uses ++ [u]) c₀ c' := by
  refine ⟨fun _ => hr.secIdx, iff_of_true hr.physAddr (by simp), ?_, ?_, ?_,
    ?_, fun hle a b => h.unique_record hr hle, ?_, h.taken_record hr⟩
  · rw [hr.compid]
    simp
  · obtain ⟨hmaps, hvirt, -⟩ | ⟨hmaps, addr, hne, -, hvirt, -⟩ := hr.mapping
    · simp [hvirt, hmaps]
    · simp [hvirt, hne, hmaps]
  · obtain ⟨-, hvirt, -⟩ | ⟨-, addr, -, -, hvirt, heq⟩ := hr.mapping
    · exact fun hne => absurd hvirt hne
    · rw [hvirt, heq, Function.update_self]
      exact fun _ => rfl
  · rw [exists_maps_append]
    obtain ⟨hmaps, -, heq⟩ | ⟨hmaps, addr, -, -, -, heq⟩ := hr.mapping
    · rw [heq, hmaps, h.mapped]
      simp
    · refine iff_of_true ⟨addr, ?_⟩ (Or.inr hmaps)
      rw [heq, Function.update_self]
  · intro hzero
    rw [List.countP_append, List.countP_singleton] at hzero
    have hu : u.takesRef = false := by
      by_contra hu
      rw [if_pos (by simpa using hu)] at hzero
      omega
    have hhere := hr.takes.here
    rw [hr.eq_empty hu] at hhere
    exact (h.untaken (by omega)).before hhere

/-- Whatever is loaded, the `overlays` table, the mappings and the reference
counts tell what was used. -/
theorem loadAll {loads : List (ℕ × LoadOutcome)}
    (h : Recorded p x uses c₀ c)
    (hloads : Overlay.loadAll core p loads c = some c') :
    Recorded p x (uses ++ usesIn core p x loads c) c₀ c' := by
  induction loads generalizing uses c with
  | nil =>
      obtain rfl := Option.some.inj hloads
      simpa [usesIn] using h
  | cons load loads ih =>
      obtain ⟨name, o⟩ := load
      unfold Overlay.loadAll at hloads
      cases hload : dspComponentLoad core p name o c with
      | mk ret c₁ =>
          rw [hload] at hloads
          cases ret with
          | none => cases hloads
          | some id =>
              obtain ⟨y, u, A, huse, hr⟩ := records_of_load hload
              rw [usesIn, hload, huse]
              by_cases hy : y = x
              · subst hy
                have hrest := ih (h.record hr) hloads
                simpa using hrest
              · have hrest := ih (h.other hr fun hx => hy hx.symm) hloads
                simpa [hy] using hrest

end Recorded

/-! ## Closing -/

/-- A used entry of the `overlays` table is about its own section. -/
def Placed (p : ℕ) (x : Section) (c : Session) : Prop :=
  (c.entry p x).compid ≠ 0 ∨ (c.entry p x).mem.physAddr ≠ 0 →
    (c.entry p x).secIdx = x

/-- Closing unregisters the section. -/
def Unregisters (p : ℕ) (o : CloseOutcome) (x : Section) (c : Session) :
    Prop :=
  (c.entry p x).compid ≠ 0 ∧ o.sent x = true

instance (p : ℕ) (o : CloseOutcome) (x : Section) (c : Session) :
    Decidable (Unregisters p o x c) :=
  inferInstanceAs (Decidable (_ ∧ _))

/-- What the turns of the loop for the given sections do. -/
structure Closes (p : ℕ) (o : CloseOutcome) (l : List Section)
    (c c' : Session) (calls : List Call) : Prop where
  unregistered : ∀ x, calls.count (.overlayUnregister x) =
    if x ∈ l ∧ Unregisters p o x c then 1 else 0
  freed : ∀ x, calls.count (.overlayFree x) =
    if x ∈ l ∧ (c.entry p x).mem.physAddr ≠ 0 then 1 else 0
  refs : ∀ x i, refsIn x c'.components i =
    if (x ∈ l ∧ Unregisters p o x c ∧ o.fastcall x ≠ .lost) ∧
        InSection x c.components i then refsIn x c.components i - 1
    else refsIn x c.components i
  mapped : ∀ addr, c'.mapped addr =
    if ∃ x ∈ l, c.virtAddr x ≠ 0 ∧ addr = c.virtAddr x then none
    else c.mapped addr

/-- The turn for another section does not matter to the section. -/
structure Apart (p : ℕ) (x : Section) (c c' : Session) : Prop where
  entry : c'.entry p x = c.entry p x
  virtAddr : c'.virtAddr x = c.virtAddr x
  inSection : ∀ i, InSection x c'.components i ↔ InSection x c.components i

variable {l : List Section} {calls calls' : List Call} {r : CloseOutcome}

theorem closes_nil (p : ℕ) (r : CloseOutcome) (c : Session) :
    Closes p r [] c c [] := by
  constructor <;> simp

theorem Closes.cons {c₁ : Session} (h : Closes p r [x] c c₁ calls)
    (hapart : ∀ y ≠ x, Apart p y c c₁) (hrest : Closes p r l c₁ c' calls')
    (hx : x ∉ l) : Closes p r (x :: l) c c' (calls ++ calls') where
  unregistered y := by
    rw [List.count_append, h.unregistered, hrest.unregistered]
    by_cases hy : y = x
    · subst hy
      simp [hx]
    · simp [hy, Unregisters, (hapart y hy).entry]
  freed y := by
    rw [List.count_append, h.freed, hrest.freed]
    by_cases hy : y = x
    · subst hy
      simp [hx]
    · simp [hy, (hapart y hy).entry]
  refs y i := by
    rw [hrest.refs, h.refs]
    by_cases hy : y = x
    · subst hy
      simp [hx]
    · simp [hy, Unregisters, (hapart y hy).entry, (hapart y hy).inSection]
  mapped addr := by
    have hsame : (∃ y ∈ l, c₁.virtAddr y ≠ 0 ∧ addr = c₁.virtAddr y) ↔
        ∃ y ∈ l, c.virtAddr y ≠ 0 ∧ addr = c.virtAddr y := by
      refine exists_congr fun y => and_congr_right fun hy => ?_
      rw [(hapart y (ne_of_mem_of_not_mem hy hx)).virtAddr]
    rw [hrest.mapped, h.mapped, if_congr hsame rfl rfl]
    have hcons : (∃ y ∈ x :: l, c.virtAddr y ≠ 0 ∧ addr = c.virtAddr y) ↔
        (∃ y ∈ l, c.virtAddr y ≠ 0 ∧ addr = c.virtAddr y) ∨
          ∃ y ∈ [x], c.virtAddr y ≠ 0 ∧ addr = c.virtAddr y := by
      simp [or_comm]
    rw [if_congr hcons rfl rfl, ite_or]

/-! ### One turn -/

section

variable (p : ℕ) (r : CloseOutcome) (x : Section) (c : Session)

theorem unmapSection_entry : (unmapSection x c).2.entry p = c.entry p := by
  unfold unmapSection
  split_ifs <;> rfl

theorem unmapSection_components :
    (unmapSection x c).2.components = c.components := by
  unfold unmapSection
  split_ifs <;> rfl

theorem unmapSection_virtAddr_of_ne (hy : y ≠ x) :
    (unmapSection x c).2.virtAddr y = c.virtAddr y := by
  unfold unmapSection
  split_ifs
  · exact Function.update_of_ne hy ..
  · rfl

theorem unmapSection_mapped (addr : ℕ) :
    (unmapSection x c).2.mapped addr =
      if c.virtAddr x ≠ 0 ∧ addr = c.virtAddr x then none
      else c.mapped addr := by
  unfold unmapSection
  by_cases hvirt : c.virtAddr x ≠ 0
  · rw [if_pos hvirt]
    by_cases haddr : addr = c.virtAddr x
    · rw [if_pos ⟨hvirt, haddr⟩, haddr]
      exact Function.update_self ..
    · rw [if_neg fun h => haddr h.2]
      exact Function.update_of_ne haddr ..
  · rw [if_neg hvirt, if_neg fun h => hvirt h.1]

theorem unmapSection_calls (y : Section) :
    (unmapSection x c).1.count (.overlayUnregister y) = 0 ∧
      (unmapSection x c).1.count (.overlayFree y) = 0 := by
  unfold unmapSection
  split_ifs <;> exact ⟨rfl, rfl⟩

theorem unregistered_entry_of_ne (f : Fastcall) (hy : y ≠ x) :
    (unregistered p x c f).entry p y = c.entry p y := by
  cases f with
  | done => simp [unregistered, hy]
  | unanswered | lost => rfl

theorem unregistered_entry (f : Fastcall) :
    ((unregistered p x c f).entry p x).secIdx = (c.entry p x).secIdx ∧
      ((unregistered p x c f).entry p x).mem = (c.entry p x).mem := by
  cases f with
  | done => simp [unregistered]
  | unanswered | lost => exact ⟨rfl, rfl⟩

theorem unregistered_components (f : Fastcall) :
    (unregistered p x c f).components = if f ≠ .lost then
      locMlbOverlayUnregister (c.entry p x).secIdx c.components
    else c.components := by
  cases f <;> rfl

theorem unregistered_mappings (f : Fastcall) :
    (unregistered p x c f).virtAddr = c.virtAddr ∧
      (unregistered p x c f).mapped = c.mapped := by
  cases f <;> exact ⟨rfl, rfl⟩

theorem freed_entry_of_ne (hy : y ≠ x) :
    (freed p x c).entry p y = c.entry p y := by
  unfold freed
  rw [Session.entry_setEntry, Function.update_of_ne hy]
  exact congrFun (State.overlays_overlayFree ..) y

/-- The state in which `unregisterSection` leaves the library, and its call. -/
theorem unregisterSection_cases :
    Unregisters p r x c ∧ unregisterSection p r x c =
        ([.overlayUnregister (c.entry p x).secIdx],
          unregistered p x c (r.fastcall x)) ∨
      ¬Unregisters p r x c ∧ unregisterSection p r x c = ([], c) := by
  by_cases h : Unregisters p r x c
  · exact Or.inl ⟨h, if_pos h⟩
  · exact Or.inr ⟨h, if_neg h⟩

theorem freeSection_cases :
    (c.entry p x).mem.physAddr ≠ 0 ∧ freeSection p x c =
        ([.overlayFree (c.entry p x).secIdx], freed p x c) ∨
      (c.entry p x).mem.physAddr = 0 ∧ freeSection p x c = ([], c) := by
  by_cases h : (c.entry p x).mem.physAddr ≠ 0
  · exact Or.inl ⟨h, if_pos h⟩
  · exact Or.inr ⟨not_not.mp h, if_neg h⟩

end

theorem unregisterSection_unregistered (hplaced : Placed p x c)
    (y : Section) :
    (unregisterSection p r x c).1.count (.overlayUnregister y) =
      if y = x ∧ Unregisters p r y c then 1 else 0 := by
  obtain ⟨hun, heq⟩ | ⟨hun, heq⟩ := unregisterSection_cases p r x c
  · rw [heq, hplaced (Or.inl hun.1), List.count_singleton]
    by_cases hy : y = x
    · subst hy
      simp [hun]
    · simp [hy, Ne.symm hy]
  · rw [heq, if_neg]
    · rfl
    · rintro ⟨rfl, h⟩
      exact hun h

theorem unregisterSection_freed (y : Section) :
    (unregisterSection p r x c).1.count (.overlayFree y) = 0 := by
  obtain ⟨-, heq⟩ | ⟨-, heq⟩ := unregisterSection_cases p r x c
  all_goals rw [heq]
  all_goals rfl

theorem unregisterSection_components (hplaced : Placed p x c) :
    (unregisterSection p r x c).2.components =
      if Unregisters p r x c ∧ r.fastcall x ≠ .lost then
        locMlbOverlayUnregister x c.components
      else c.components := by
  obtain ⟨hun, heq⟩ | ⟨hun, heq⟩ := unregisterSection_cases p r x c
  · rw [heq, unregistered_components, hplaced (Or.inl hun.1)]
    simp only [hun, true_and]
  · rw [heq, if_neg fun h => hun h.1]

theorem unregisterSection_entry :
    ((unregisterSection p r x c).2.entry p x).secIdx = (c.entry p x).secIdx ∧
      ((unregisterSection p r x c).2.entry p x).mem = (c.entry p x).mem := by
  obtain ⟨-, heq⟩ | ⟨-, heq⟩ := unregisterSection_cases p r x c
  all_goals rw [heq]
  · exact unregistered_entry p x c (r.fastcall x)
  · exact ⟨rfl, rfl⟩

theorem unregisterSection_entry_of_ne (hy : y ≠ x) :
    (unregisterSection p r x c).2.entry p y = c.entry p y := by
  obtain ⟨-, heq⟩ | ⟨-, heq⟩ := unregisterSection_cases p r x c
  all_goals rw [heq]
  exact unregistered_entry_of_ne p x c (r.fastcall x) hy

theorem unregisterSection_mappings :
    (unregisterSection p r x c).2.virtAddr = c.virtAddr ∧
      (unregisterSection p r x c).2.mapped = c.mapped := by
  obtain ⟨-, heq⟩ | ⟨-, heq⟩ := unregisterSection_cases p r x c
  all_goals rw [heq]
  · exact unregistered_mappings p x c (r.fastcall x)
  · exact ⟨rfl, rfl⟩

theorem freeSection_freed
    (hsecIdx : (c.entry p x).mem.physAddr ≠ 0 → (c.entry p x).secIdx = x)
    (y : Section) :
    (freeSection p x c).1.count (.overlayFree y) =
      if y = x ∧ (c.entry p y).mem.physAddr ≠ 0 then 1 else 0 := by
  obtain ⟨hphys, heq⟩ | ⟨hphys, heq⟩ := freeSection_cases p x c
  · rw [heq, hsecIdx hphys, List.count_singleton]
    by_cases hy : y = x
    · subst hy
      simp [hphys]
    · simp [hy, Ne.symm hy]
  · rw [heq, if_neg]
    · rfl
    · rintro ⟨rfl, h⟩
      exact h hphys

theorem freeSection_unregistered (y : Section) :
    (freeSection p x c).1.count (.overlayUnregister y) = 0 := by
  obtain ⟨-, heq⟩ | ⟨-, heq⟩ := freeSection_cases p x c
  all_goals rw [heq]
  all_goals rfl

theorem freeSection_keeps :
    (freeSection p x c).2.components = c.components ∧
      (freeSection p x c).2.virtAddr = c.virtAddr ∧
      (freeSection p x c).2.mapped = c.mapped := by
  obtain ⟨-, heq⟩ | ⟨-, heq⟩ := freeSection_cases p x c
  all_goals rw [heq]
  · exact ⟨State.components_overlayFree .., rfl, rfl⟩
  · exact ⟨rfl, rfl, rfl⟩

theorem freeSection_entry_of_ne (hy : y ≠ x) :
    (freeSection p x c).2.entry p y = c.entry p y := by
  obtain ⟨-, heq⟩ | ⟨-, heq⟩ := freeSection_cases p x c
  all_goals rw [heq]
  exact freed_entry_of_ne p x c hy

theorem Placed.unmapSection (h : Placed p x c) :
    Placed p x (unmapSection x c).2 := by
  unfold Placed
  rwa [unmapSection_entry]

theorem unregisters_unmapSection :
    Unregisters p r y (unmapSection x c).2 ↔ Unregisters p r y c := by
  unfold Unregisters
  rw [unmapSection_entry]

theorem closeSection_components (hplaced : Placed p x c) :
    (closeSection p r x c).2.components =
      if Unregisters p r x c ∧ r.fastcall x ≠ .lost then
        locMlbOverlayUnregister x c.components
      else c.components := by
  refine freeSection_keeps.1.trans ?_
  rw [unregisterSection_components hplaced.unmapSection,
    unmapSection_components]
  simp only [unregisters_unmapSection]

theorem closeSection_refs (hplaced : Placed p x c) (y : Section)
    (i : Fin mlbMaxOverlayComponents) :
    refsIn y (closeSection p r x c).2.components i =
      if (y ∈ [x] ∧ Unregisters p r y c ∧ r.fastcall y ≠ .lost) ∧
          InSection y c.components i then refsIn y c.components i - 1
      else refsIn y c.components i := by
  rw [closeSection_components hplaced]
  by_cases hy : y = x
  · subst hy
    split_ifs with hun hin hin
    · rw [refsIn_unregister, if_pos ⟨rfl, hin.2⟩]
    · rw [refsIn_unregister, if_neg fun h => hin ⟨⟨by simp, hun⟩, h.2⟩]
    · exact absurd hin.1.2 hun
    · rfl
  · have hsame : refsIn y (if Unregisters p r x c ∧ r.fastcall x ≠ .lost then
        locMlbOverlayUnregister x c.components else c.components) i =
        refsIn y c.components i := by
      split_ifs
      · rw [refsIn_unregister, if_neg fun h => hy h.1.symm]
      · rfl
    rw [hsame, if_neg]
    exact fun h => hy (List.mem_singleton.mp h.1.1)

/-- One turn of the loop. -/
theorem closes_closeSection (hplaced : Placed p x c) :
    Closes p r [x] c (closeSection p r x c).2 (closeSection p r x c).1 where
  unregistered y := by
    unfold closeSection
    dsimp only
    rw [List.count_append, List.count_append, (unmapSection_calls x c y).1,
      unregisterSection_unregistered hplaced.unmapSection,
      freeSection_unregistered]
    simp [unregisters_unmapSection]
  freed y := by
    obtain ⟨hsecIdx, hmem⟩ :=
      unregisterSection_entry (p := p) (r := r) (x := x)
        (c := (unmapSection x c).2)
    rw [unmapSection_entry] at hsecIdx hmem
    unfold closeSection
    dsimp only
    rw [List.count_append, List.count_append, (unmapSection_calls x c y).2,
      unregisterSection_freed, freeSection_freed]
    · by_cases hy : y = x
      · subst hy
        simp [hmem]
      · simp [hy]
    · rw [hsecIdx, hmem]
      exact fun hphys => hplaced (Or.inr hphys)
  refs := closeSection_refs hplaced
  mapped addr := by
    refine (congrFun freeSection_keeps.2.2 addr).trans ?_
    rw [unregisterSection_mappings.2, unmapSection_mapped]
    simp

theorem apart_closeSection (hy : y ≠ x) (hplaced : Placed p x c) :
    Apart p y c (closeSection p r x c).2 where
  entry := by
    refine (freeSection_entry_of_ne hy).trans ?_
    rw [unregisterSection_entry_of_ne hy, unmapSection_entry]
  virtAddr := by
    refine (congrFun freeSection_keeps.2.1 y).trans ?_
    rw [unregisterSection_mappings.1, unmapSection_virtAddr_of_ne x c hy]
  inSection i := by
    rw [closeSection_components hplaced]
    split_ifs
    · exact inSection_unregister_of_ne hy
    · exact Iff.rfl

/-- All turns of the loop. -/
theorem closes_closeSections (hnodup : l.Nodup)
    (hplaced : ∀ x ∈ l, Placed p x c) :
    Closes p r l c (closeSections p r l c).2 (closeSections p r l c).1 := by
  induction l generalizing c with
  | nil => exact closes_nil p r c
  | cons x l ih =>
      obtain ⟨hx, hnodup⟩ := List.nodup_cons.mp hnodup
      have hplacedx := hplaced x (List.mem_cons_self ..)
      have hapart : ∀ y ≠ x, Apart p y c (closeSection p r x c).2 :=
        fun y hy => apart_closeSection hy hplacedx
      refine (closes_closeSection hplacedx).cons hapart (ih hnodup ?_) hx
      intro y hy
      unfold Placed
      rw [(hapart y (ne_of_mem_of_not_mem hy hx)).entry]
      exact hplaced y (List.mem_cons_of_mem x hy)

/-! ## The balance -/

theorem countP_maps_le (uses : List Use) :
    uses.countP Use.maps ≤ uses.countP Use.takesRef := by
  refine List.countP_mono_left fun u _ hu => ?_
  cases u with
  | registered => rfl
  | _ => cases hu

section

variable (hrec : ∀ y, ∃ uses, Recorded p y uses c₀ c)
  (hx : Recorded p x uses c₀ c) (hcloses : Closes p r l c c' calls)
  (hl : x ∈ l)

include hx in
theorem unregisters_iff :
    Unregisters p r x c ↔ (uses ≠ [] ∧ uses.getLast? ≠ some (.resident 0)) ∧
      r.sent x = true := by
  rw [Unregisters, Ne, hx.compid, not_or]

include hx hcloses hl in
/-- A reference that was taken to all components is given back to each. -/
theorem returned_iff (hone : uses.countP Use.takesRef = 1)
    (hun : Unregisters p r x c) :
    (∀ i, refsIn x c'.components i = refsIn x c₀.components i) ↔
      (∀ u ∈ uses, u.whole = true) ∧ r.fastcall x ≠ .lost := by
  obtain ⟨A, ⟨j, hj⟩, htakes, hwhole⟩ := hx.taken hone
  rw [hwhole]
  constructor
  · intro hreturned
    have hexecuted : r.fastcall x ≠ .lost := by
      intro hlost
      have hreturnedj := hreturned j
      rw [hcloses.refs, if_neg fun h => h.1.2.2 hlost, htakes.refs, if_pos hj]
        at hreturnedj
      omega
    refine ⟨fun i hi => ?_, hexecuted⟩
    by_contra hnot
    have hreturnedi := hreturned i
    rw [hcloses.refs, if_pos ⟨⟨hl, hun, hexecuted⟩,
      (htakes.inSection i).mpr (Or.inl hi)⟩, htakes.refs, if_neg hnot]
      at hreturnedi
    omega
  · rintro ⟨hall, hexecuted⟩ i
    rw [hcloses.refs, htakes.refs]
    have hin : InSection x c.components i ↔ i ∈ A :=
      (htakes.inSection i).trans (or_iff_right_of_imp (hall i))
    by_cases hi : i ∈ A
    · rw [if_pos ⟨⟨hl, hun, hexecuted⟩, hin.mpr hi⟩, if_pos hi]
      omega
    · rw [if_neg fun h => hi (hin.mp h.2), if_neg hi, add_zero]

include hrec hx hcloses hl in
/-- No mapping of the section is left if the only one is still known. -/
theorem unmapped_iff (hone : uses.countP Use.maps ≤ 1) :
    (∀ addr, c'.mapped addr ≠ some x) ↔ ((∃ u ∈ uses, u.maps = true) →
      ∃ u ∈ uses.getLast?, u.maps = true) := by
  rw [← hx.mapped, ← hx.virtAddr]
  constructor
  · rintro hunmapped ⟨addr, haddr⟩
    have hnone := hunmapped addr
    rw [hcloses.mapped] at hnone
    split_ifs at hnone with hknown
    · obtain ⟨y, -, hvirt, rfl⟩ := hknown
      obtain ⟨usesy, hy⟩ := hrec y
      obtain rfl : y = x :=
        Option.some.inj ((hy.mapped_virtAddr hvirt).symm.trans haddr)
      exact hvirt
    · exact absurd haddr hnone
  · intro hknown addr haddr
    rw [hcloses.mapped] at haddr
    split_ifs at haddr with hclosed
    have hvirt := hknown ⟨addr, haddr⟩
    have heq := hx.unique hone addr _ haddr (hx.mapped_virtAddr hvirt)
    exact hclosed ⟨x, hl, hvirt, heq⟩

include hrec hcloses hl in
/-- Nothing is done about a section for which no load is recorded. -/
theorem balancedAt_nil (hx : Recorded p x [] c₀ c) :
    BalancedAt x 0 c₀ c' calls := by
  have hphys : (c.entry p x).mem.physAddr = 0 :=
    not_not.mp fun h => hx.physAddr.mp h rfl
  have hun : ¬Unregisters p r x c := fun h =>
    ((unregisters_iff hx).mp h).1.1 rfl
  refine ⟨?_, fun i => ?_, ?_, ?_⟩
  · rw [hcloses.unregistered, if_neg fun h => hun h.2]
  · rw [hcloses.refs, if_neg fun h => hun h.1.2.1, ((hx.untaken rfl).same i).2]
  · rw [hcloses.freed, if_neg fun h => h.2 hphys]
    rfl
  · exact (unmapped_iff hrec hx hcloses hl (by simp)).mpr (by simp)

include hrec hx hcloses hl in
/-- The loads that are recorded for a section are balanced exactly when there
are none, or they amount to one reference. -/
theorem balancedAt_iff :
    BalancedAt x (uses.countP Use.takesRef) c₀ c' calls ↔
      uses = [] ∨ OneReference x uses r := by
  constructor
  · intro h
    refine or_iff_not_imp_left.mpr fun huses => ?_
    have hfreed := h.freed
    rw [hcloses.freed, if_pos ⟨hl, hx.physAddr.mpr huses⟩] at hfreed
    have htaken : uses.countP Use.takesRef ≠ 0 := by
      intro hzero
      rw [if_pos hzero] at hfreed
      cases hfreed
    have hcount := h.unregistered
    rw [hcloses.unregistered] at hcount
    have hun : Unregisters p r x c := by
      by_contra hun
      rw [if_neg fun h => hun h.2] at hcount
      exact htaken hcount.symm
    have hone : uses.countP Use.takesRef = 1 := by
      rw [← hcount, if_pos ⟨hl, hun⟩]
    have hle : uses.countP Use.maps ≤ 1 := hone ▸ countP_maps_le uses
    obtain ⟨⟨-, hlast⟩, hsent⟩ := (unregisters_iff hx).mp hun
    obtain ⟨hwhole, hexecuted⟩ :=
      (returned_iff hx hcloses hl hone hun).mp h.returned
    exact ⟨hone, hwhole, hlast,
      (unmapped_iff hrec hx hcloses hl hle).mp h.unmapped, hsent, hexecuted⟩
  · rintro (rfl | h)
    · exact balancedAt_nil hrec hcloses hl hx
    · have huses : uses ≠ [] := by
        rintro rfl
        cases h.one
      have hle : uses.countP Use.maps ≤ 1 := h.one ▸ countP_maps_le uses
      have hun := (unregisters_iff hx).mpr ⟨⟨huses, h.last⟩, h.sent⟩
      refine ⟨?_, ?_, ?_, ?_⟩
      · rw [hcloses.unregistered, if_pos ⟨hl, hun⟩, h.one]
      · exact (returned_iff hx hcloses hl h.one hun).mpr ⟨h.whole, h.executed⟩
      · rw [hcloses.freed, if_pos ⟨hl, hx.physAddr.mpr huses⟩, h.one]
        rfl
      · exact (unmapped_iff hrec hx hcloses hl hle).mpr h.maps_last

end

/-- Closing the device gives back exactly what the loads of the process took
if and only if the loads that are recorded for each section amount to one
reference that is given back, or there are none. -/
theorem balanced_iff_eachOnce (core : ℕ → Option ℕ) (p : ℕ) (s : State)
    (loads : List (ℕ × LoadOutcome)) (o : CloseOutcome) (c : Session)
    (h : loadAll core p loads (Session.opened p s) = some c) :
    Balanced core p loads o (Session.opened p s) c ↔
      EachOnce core p loads o (Session.opened p s) := by
  have hrec : ∀ x, Recorded p x (usesIn core p x loads (Session.opened p s))
      (Session.opened p s) c := fun x => (Recorded.opened p x s).loadAll h
  have hplaced : ∀ x ∈ List.finRange mlbComNumSectionIndices,
      Placed p x c := by
    intro x _ hused
    refine (hrec x).secIdx ?_
    rcases hused with hcompid | hphys
    · exact fun hnil => hcompid ((hrec x).compid.mpr (Or.inl hnil))
    · exact (hrec x).physAddr.mp hphys
  have hcloses := closes_closeSections (r := o)
    (List.nodup_finRange mlbComNumSectionIndices) hplaced
  exact forall_congr' fun x => balancedAt_iff (fun y => ⟨_, hrec y⟩) (hrec x)
    hcloses (List.mem_finRange x)

/-- Another process has loaded the component 2. -/
def loadedByOther : State where
  sectionFlags x := decide (x = 1)
  procs _ := ⟨.closed, fun _ => false, fun _ => Entry.zero⟩
  components := (locMlbOverlayRegister ⟨2, [], true⟩ 1
    fun _ => Component.unused).2
  owner := none
  unloading := none
  mtxClients := none

/-- An overlay with the given component can be loaded into area 2. -/
def loadable (name : ℕ) : LoadOutcome where
  begun := true
  area := some .area2
  mmapAddr := 0x40000000 + name * 0x100000
  loaded := true
  image := ⟨name, [], true⟩

/-- Everything is answered when the device is closed. -/
def CloseOutcome.smooth : CloseOutcome := ⟨fun _ => true, fun _ => .done⟩

theorem differentLoads_balanced :
    ∃ c, loadAll (fun _ => none) 0 [(1, loadable 1), (2, loadable 2)]
        (Session.opened 0 loadedByOther) = some c ∧
      Balanced (fun _ => none) 0 [(1, loadable 1), (2, loadable 2)]
        CloseOutcome.smooth (Session.opened 0 loadedByOther) c := by
  have hsome : (loadAll (fun _ => none) 0 [(1, loadable 1), (2, loadable 2)]
      (Session.opened 0 loadedByOther)).isSome = true := by decide +kernel
  obtain ⟨c, hc⟩ := Option.isSome_iff_exists.mp hsome
  exact ⟨c, hc, (balanced_iff_eachOnce _ 0 _ _ _ c hc).mpr (by decide +kernel)⟩

/-- A component is loaded twice: the section is unregistered once, and stays
mapped. -/
theorem repeated_load_not_balanced :
    ∃ c, loadAll (fun _ => none) 0 [(1, loadable 1), (1, loadable 1)]
        (Session.opened 0 State.initial) = some c ∧
      (locOverlaysFree 0 CloseOutcome.smooth c).1 =
        [.overlayUnregister 0, .overlayFree 0] ∧
      ¬Balanced (fun _ => none) 0 [(1, loadable 1), (1, loadable 1)]
        CloseOutcome.smooth (Session.opened 0 State.initial) c := by
  have hrun : (loadAll (fun _ => none) 0 [(1, loadable 1), (1, loadable 1)]
      (Session.opened 0 State.initial)).any (fun c =>
        (locOverlaysFree 0 CloseOutcome.smooth c).1 =
          [.overlayUnregister 0, .overlayFree 0]) = true := by decide +kernel
  obtain ⟨c, hc, hcalls⟩ := (Option.any_eq_true _ _).mp hrun
  have hcalls := of_decide_eq_true hcalls
  refine ⟨c, hc, hcalls, fun h => ?_⟩
  have htaken : (usesIn (fun _ => none) 0 0 [(1, loadable 1), (1, loadable 1)]
      (Session.opened 0 State.initial)).countP Use.takesRef = 2 := by
    decide +kernel
  have hcount := (h 0).unregistered
  rw [hcalls, htaken] at hcount
  cases hcount

end C64Tools.Overlay
