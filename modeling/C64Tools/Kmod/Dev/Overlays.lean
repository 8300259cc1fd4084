import C64Tools.Kmod.Dev.Slots

/-!
# Who holds an overlay section

A section is reserved for the client that allocated it, and other clients add
references to it.  Both are flags: the driver does not count the references.
As long as a section is given back only by the last client that holds it, the
global flag of every held section is set, and no held section is allocated
again.
-/

namespace C64Tools.Kmod

open Transition

/-- A connected client holds the section. -/
def Driver.Holds (d : Driver) (i : Slot) (s : Section) : Prop :=
  (d.clients i).state ≠ .unused ∧ (d.clients i).sectionFlags s = true

instance (d : Driver) (i : Slot) (s : Section) : Decidable (d.Holds i s) :=
  inferInstanceAs (Decidable (_ ∧ _))

/-- The sections that clients hold are marked as allocated. -/
def Driver.HeldAllocated (d : Driver) : Prop :=
  ∀ i s, d.Holds i s → d.sectionFlags s = true

/-- `dsp_component_load` adds references to allocated sections only. -/
def RefsAllocated (d : Driver) : Event → Prop
  | .ioctl _ (.overlayRef secIdx) =>
      ∀ s : Section, secIdx = s → d.sectionFlags s = true
  | _ => True

/-- A section is given back, by its holder or by the clean-up of a client
that died, only when no other client holds it. -/
def GivesBackUnshared (d : Driver) : Event → Prop
  | .ioctl filep (.overlayFree secIdx) =>
      ∀ i ∈ d.findClientByFilep filep, ∀ s : Section, secIdx = s →
        (d.clients i).sectionFlags s = true → ∀ j, j ≠ i → ¬d.Holds j s
  | .proc _ => ∀ i s, d.crit = .relMark i s → ∀ j, ¬d.Holds j s
  | _ => True

instance (d : Driver) (e : Event) : Decidable (RefsAllocated d e) := by
  unfold RefsAllocated
  split <;> infer_instance

instance (d : Driver) (e : Event) : Decidable (GivesBackUnshared d e) := by
  unfold GivesBackUnshared
  rcases e with _ | _ | _ | _ | _ | ⟨_, _ | _ | _ | _ | _ | _ | _⟩ | _ | _ | _ <;>
    infer_instance

/-! ## The invariant -/

/-- Held sections are allocated, and an entry that nobody uses, or is about to
clear, holds none. -/
structure SectionsHeld (d : Driver) : Prop where
  allocated : d.HeldAllocated
  unused_empty : ∀ i, (d.clients i).state = .unused →
    d.crit.releasing ≠ some i → ∀ s, (d.clients i).sectionFlags s = false

theorem initial_sectionsHeld (ram : DspMemRegion) :
    SectionsHeld (Driver.initial ram) where
  allocated _ _ h := absurd rfl h.1
  unused_empty _ _ _ _ := rfl

/-- Neither flags nor connections are different. -/
theorem SectionsHeld.of_same {d d' : Driver} (h : SectionsHeld d)
    (hstate : ∀ i, (d'.clients i).state = .unused ↔
      (d.clients i).state = .unused)
    (hflags : ∀ i, (d'.clients i).sectionFlags = (d.clients i).sectionFlags)
    (hglobal : d'.sectionFlags = d.sectionFlags)
    (hreleasing : ∀ i, d.crit.releasing = some i →
      d'.crit.releasing = some i) :
    SectionsHeld d' where
  allocated i s hi := by
    rw [Driver.Holds, Ne, hstate, hflags] at hi
    rw [hglobal]
    exact h.allocated i s hi
  unused_empty i hi hrel s := by
    rw [hflags]
    exact h.unused_empty i ((hstate i).mp hi)
      (fun hd => hrel (hreleasing i hd)) s

theorem SectionsHeld.reserve {d : Driver} {i : Slot} (h : SectionsHeld d)
    (hi : (d.clients i).state ≠ .unused) (s : Section) :
    SectionsHeld (reserveSection i s d) where
  allocated j t hj := by
    simp only [Driver.Holds, reserveSection, Driver.setClient_state,
      Driver.setClient_flags, Function.update_apply] at hj ⊢
    have hheld := h.allocated j t
    rw [Driver.Holds] at hheld
    grind
  unused_empty j hj hrel t := by
    simp only [reserveSection, Driver.setClient_state, Driver.setClient_flags,
      Driver.setClient_crit] at hj hrel ⊢
    have hempty := h.unused_empty j
    grind

theorem SectionsHeld.giveBack {d : Driver} {i : Slot} {s : Section}
    (h : SectionsHeld d) (hi : (d.clients i).state ≠ .unused)
    (hothers : ∀ j, j ≠ i → ¬d.Holds j s) :
    SectionsHeld (giveBackSection i s d) where
  allocated j t hj := by
    simp only [Driver.Holds, giveBackSection, Driver.setClient_state,
      Driver.setClient_flags, Function.update_apply] at hj ⊢
    have hheld := h.allocated j t
    have hother := hothers j
    simp only [Driver.Holds] at hheld hother
    grind
  unused_empty j hj hrel t := by
    simp only [giveBackSection, Driver.setClient_state, Driver.setClient_flags,
      Driver.setClient_crit] at hj hrel ⊢
    have hempty := h.unused_empty j
    grind

theorem SectionsHeld.ref {d : Driver} {i : Slot} {s : Section}
    (h : SectionsHeld d) (hi : (d.clients i).state ≠ .unused)
    (hs : d.sectionFlags s = true) : SectionsHeld (refSection i s d) where
  allocated j t hj := by
    simp only [Driver.Holds, refSection, Driver.setClient_state,
      Driver.setClient_flags, Driver.setClient_sectionFlags] at hj ⊢
    have hheld := h.allocated j t
    rw [Driver.Holds] at hheld
    grind
  unused_empty j hj hrel t := by
    simp only [refSection, Driver.setClient_state, Driver.setClient_flags,
      Driver.setClient_crit] at hj hrel ⊢
    have hempty := h.unused_empty j
    grind

theorem SectionsHeld.ioctl {d d' : Driver} {filep : ℕ} {cmd : IoctlCmd}
    {i : Slot} (h : SectionsHeld d) (href : RefsAllocated d (.ioctl filep cmd))
    (hgive : GivesBackUnshared d (.ioctl filep cmd))
    (hfound : d.findClientByFilep filep = some i)
    (heff : IoctlEffect i d cmd d') : SectionsHeld d' := by
  have hi := (Driver.findClientByFilep_some hfound).2
  cases heff with
  | power _ =>
      exact h.of_same (fun _ => Iff.rfl) (fun _ => rfl) rfl fun _ => id
  | reserve _ => exact h.reserve hi _
  | giveBack hheld =>
      exact h.giveBack hi (hgive i hfound _ rfl hheld)
  | ref => exact h.ref hi (href _ rfl)

theorem SectionsHeld.opened {d : Driver} {i : Slot} (h : SectionsHeld d)
    (hempty : ∀ s, (d.clients i).sectionFlags s = false) (filep : ℕ) (n : ℤ) :
    SectionsHeld (({ d with numOpen := n } : Driver).setClient i
      (connect filep) |>.observe (.opened i)) where
  allocated j s hj := by
    simp only [Driver.Holds, Driver.observe, Driver.setClient_state,
      Driver.setClient_flags, Driver.setClient_sectionFlags, connect] at hj ⊢
    have hheld := h.allocated j s
    rw [Driver.Holds] at hheld
    grind
  unused_empty j hj hrel s := by
    simp only [Driver.observe, Driver.setClient_state, Driver.setClient_flags,
      Driver.setClient_crit, connect] at hj hrel ⊢
    have hold := h.unused_empty j
    grind

theorem SectionsHeld.step {d d' : Driver} {e : Event} (h : SectionsHeld d)
    (hslots : Slots d) (href : RefsAllocated d e)
    (hgive : GivesBackUnshared d e) (hstep : DriverStep d e d') :
    SectionsHeld d' := by
  have hconn := hslots.unused_iff hstep
  cases hstep with
  | nothingToRead | ioctlUnknown => exact h
  | openFailed =>
      exact h.of_same (fun _ => Iff.rfl) (fun _ => rfl) rfl fun _ => id
  | opened hcrit hunused =>
      exact h.opened (h.unused_empty _ hunused
        (by simp [hcrit, Crit.releasing])) _ _
  | ioctl _ hfound heff => exact h.ioctl href hgive hfound heff
  | @send o who next hcrit =>
      have hkeep := mlbSendToDsp_keeps who next o.fifoFull d
      have hgo := mlbSendToDsp_crit who next o.fifoFull d
      rw [← hcrit] at hgo
      exact h.of_same (hconn (by simp) (by simp)) (fun i => by rw [hkeep.clients])
        hkeep.sectionFlags fun i => (hgo.1 i).mpr
  | @released _ _ i hcrit _ _ _ =>
      refine ⟨fun j s hj => ?_, fun j hj hrel s => ?_⟩
      · simp only [Driver.Holds, Driver.setState, Driver.setClient_state,
          Driver.setClient_flags, Driver.setClient_sectionFlags] at hj ⊢
        have hheld := h.allocated j s
        rw [Driver.Holds] at hheld
        grind
      · have hji : j ≠ i := fun hji => hrel (by rw [hji]; rfl)
        simp only [Driver.setState, Driver.setClient_state,
          Driver.setClient_flags, hji, if_false] at hj ⊢
        exact h.unused_empty j hj (by simp [hcrit, Crit.releasing]) s
  | @relMark _ i s hcrit =>
      refine ⟨fun j t hj => ?_, fun j hj hrel => ?_⟩
      · have hts : t ≠ s := by
          rintro rfl
          exact hgive i t hcrit j hj
        simpa [hts] using h.allocated j t hj
      · exact h.unused_empty j hj (by simpa [hcrit, Crit.releasing] using hrel)
  | @relReset _ i hcrit =>
      refine ⟨fun j s hj => ?_, fun j hj _ s => ?_⟩
      · have hji : j ≠ i := by
          rintro rfl
          simp [Driver.Holds] at hj
        refine h.allocated j s ?_
        simpa [Driver.Holds, Driver.setClient_ne _ _ hji] using hj
      · simp only [Driver.setClient_state, Driver.setClient_flags] at hj ⊢
        split at hj <;> rename_i hji
        · simp [hji]
        · have hrel : d.crit.releasing ≠ some j := by
            rw [hcrit]
            exact fun hij => hji (Option.some.inj hij).symm
          simpa [hji] using h.unused_empty j hj hrel s
  | readFound | readFailed | answered | irqIgnored =>
      exact h.of_same (hconn (by simp) (by simp)) (fun _ => rfl) rfl fun _ => id
  | readCopied | irqReply =>
      refine h.of_same (hconn (by simp) (by simp)) (fun j => ?_) rfl fun _ => id
      simp only [Driver.observe, Driver.setState, Driver.setClient_flags,
        takeReply]
      grind
  | writeMsg hcrit | writeFault hcrit | setPending hcrit | resetState hcrit
  | relFree hcrit =>
      refine h.of_same (hconn (by simp) (by simp)) (fun j => ?_) rfl
        (by simp [hcrit, Crit.releasing])
      simp only [Driver.wrote, Driver.setState, Driver.setClient_flags]
      grind
  | writeTest hcrit | writeError hcrit | setCurrent hcrit | resetCurrent hcrit
  | testCurrent hcrit | relNotCurrent hcrit | relIsCurrent hcrit
  | relFastcall hcrit | relHeld hcrit | relNotHeld hcrit
  | relChecked hcrit | relReady hcrit | relTimeout hcrit | relSynced hcrit
  | relBusy hcrit =>
      exact h.of_same (hconn (by simp) (by simp)) (fun _ => rfl) rfl
        (by simp [hcrit, Driver.wrote, Crit.releasing])

theorem sectionsHeld_of_reachable {ram : DspMemRegion} {d : Driver}
    (hd : ((driverMachine ram).restrict fun d e =>
      RefsAllocated d e ∧ GivesBackUnshared d e).Reachable d) :
    SectionsHeld d := by
  refine (driver_invariant (P := fun d => Slots d ∧ SectionsHeld d)
    ⟨initial_slots ram, initial_sectionsHeld ram⟩ ?_ hd).2
  rintro d e d' ⟨hslots, h⟩ ⟨href, hgive⟩ hstep
  exact ⟨hslots.step hstep, h.step hslots href hgive hstep⟩

/-! ## The overlay sections over whole runs -/

/-- `OVERLAY_ALLOC` returns a section that was not marked as allocated. -/
theorem locIoctlOverlayAlloc_ok {i : Slot} {area : UserBuf ℕ}
    {copyBack : Bool} {d : Driver} {s : Section} {mem : DspMemRegion}
    (h : (locIoctlOverlayAlloc i area copyBack d).1 = .ok (s, mem)) :
    d.sectionFlags s = false := by
  unfold locIoctlOverlayAlloc at h
  simp only at h
  split at h
  next =>
    split at h
    next t ht =>
      have hfree : d.sectionFlags t = false := by
        simpa using List.find?_some ht
      split at h <;> cases h
      exact hfree
    next => cases h
  next =>
    split at h
    next hfree =>
      split at h <;> cases h
      simpa using hfree
    next => cases h
  next => cases h
  next => cases h

/-- After a step that gives back a section somebody else holds, a held section
is not marked. -/
theorem givesBackUnshared_of_heldAllocated {d d' : Driver} {e : Event}
    (hstep : driverNext d e = some d') (h : d'.HeldAllocated) :
    GivesBackUnshared d e := by
  unfold GivesBackUnshared
  split
  next filep secIdx =>
    rintro i hi s rfl hheld j hji hj
    obtain ⟨-, ⟨⟩⟩ := Option.ite_none_right_eq_some.mp hstep
    have heq : (fopsUnlockedIoctl filep (.overlayFree s) d).2 =
        giveBackSection i s d := by
      rw [fopsUnlockedIoctl, Option.mem_def.mp hi]
      simp [ioctlClient, locIoctlOverlayFree, hheld, giveBackSection]
    rw [heq] at h
    have hset := h j s
      (by simpa [giveBackSection, Driver.Holds, Driver.setClient_ne _ _ hji]
        using hj)
    simp [giveBackSection] at hset
  next o =>
    rintro i s hcrit j hj
    have heq : d' = { d with
        sectionFlags := Function.update d.sectionFlags s false
        crit := .relSection i (s + 1) } := by
      simpa [driverNext, procStep, hcrit, eq_comm] using hstep
    subst heq
    have hset := h j s hj
    simp at hset
  next => trivial

/-- As long as sections are given back by their last holder, a held section
is allocated and is not handed out again; and a step that gives back a section
somebody else holds breaks this at once. -/
theorem heldAllocated_of_givesBackUnshared {ram : DspMemRegion} {d : Driver}
    (hd : ((driverMachine ram).restrict fun d e =>
      RefsAllocated d e ∧ GivesBackUnshared d e).Reachable d) :
    d.HeldAllocated ∧
      (∀ i area copyBack s mem,
        (locIoctlOverlayAlloc i area copyBack d).1 = .ok (s, mem) →
        ∀ j, ¬d.Holds j s) ∧
      ∀ e d', driverNext d e = some d' → RefsAllocated d e →
        (d'.HeldAllocated ↔ GivesBackUnshared d e) := by
  have hheld := (sectionsHeld_of_reachable hd).allocated
  refine ⟨hheld, fun i area copyBack s mem hok j hj => ?_,
    fun e d' hstep href =>
      ⟨givesBackUnshared_of_heldAllocated hstep, fun hgive => ?_⟩⟩
  · have hset := hheld j s hj
    rw [locIoctlOverlayAlloc_ok hok] at hset
    cases hset
  · exact (sectionsHeld_of_reachable
      (Machine.Reachable.step hd ⟨⟨href, hgive⟩, hstep⟩)).allocated

/-- Two processes share a section. -/
def sharingRun : List Event :=
  [.openFile c64DevMinor 1, .ioctl 1 (.overlayAlloc (.readable 2) true),
    .openFile c64DevMinor 2, .ioctl 2 (.overlayRef 0)]

theorem sharingRun_heldAllocated :
    ∃ d : Driver, (d.Holds 0 0 ∧ d.Holds 1 0) ∧ d.HeldAllocated := by
  have hrun : ∃ d, ((driverMachine DspMemRegion.zero).restrict fun d e =>
      RefsAllocated d e ∧ GivesBackUnshared d e).Reachable d ∧
      d.Holds 0 0 ∧ d.Holds 1 0 :=
    Machine.exists_restrict_reachable_of_run _ sharingRun (by decide)
  obtain ⟨d, hd, hshared⟩ := hrun
  exact ⟨d, hshared, (heldAllocated_of_givesBackUnshared hd).1⟩

/-- The process that loaded the overlay frees the section while another one
uses it; the next `OVERLAY_ALLOC` returns the section. -/
theorem shared_section_allocated_again :
    ∃ d, ((driverMachine DspMemRegion.zero).restrict
        RefsAllocated).Reachable d ∧
      d.Holds 1 0 ∧ d.sectionFlags 0 = false ∧
      (locIoctlOverlayAlloc 0 (.readable 2) true d).1 =
        .ok (0, overlaySections 0) :=
  Machine.exists_restrict_reachable_of_run _
    (sharingRun ++ [.ioctl 1 (.overlayFree 0)]) (by decide)

end C64Tools.Kmod
