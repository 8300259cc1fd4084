import C64Tools.Client.Access

/-!
# What is left mapped

`dsp_exit_root()` unmaps the two windows.  All pages that are mapped before it are
those of the windows, or those that a call of `dsp_mmap()` has mapped for an
address which is still in use.
-/

namespace C64Tools.Client

open Paging Transition

/-- The loop of `dsp_exit_root()`, in which `b_dsp_mmap_force_real` is set; it
stops when a window cannot be unmapped. -/
def unmapWindows : List DspMemRegion → AddressSpace → AddressSpace
  | [], a => a
  | w :: ws, a =>
      if w.virtAddr ≠ 0 then
        let (err, a) := dspMunmap true [] w.virtAddr w.size a
        if err = dspErrOk then unmapWindows ws a else a
      else unmapWindows ws a

variable {k : Kernel} {a a' : AddressSpace} {ws : List DspMemRegion}
  {physAddr numBytes virtAddr id q : ℕ} {w w' : DspMemRegion} {f : Frame}
  {s t : MmapRun}

/-! ## Which pages there are -/

/-- A page that is there after `dsp_mmap()` is one of the new mapping, or was there
before. -/
theorem frame_of_dspMmap (hnumbered : Numbered a) {forceReal : Bool}
    {r : ℕ × ℕ × AddressSpace}
    (hr : dspMmap forceReal ws k physAddr numBytes a = r)
    (hf : r.2.2.table q = some f) :
    (r.2.2.fresh ≠ a.fresh ∧ f.mapping = a.fresh) ∨ a.table q = some f := by
  have hdrop := dspMmap_drop hnumbered _ _ _ _ _ hr
  rw [← hdrop, Table.drop_eq_some_iff]
  by_cases hmade : r.2.2.fresh = a.fresh
  · rw [if_pos hmade]
    exact .inr ⟨hf, (Option.some_ne_none _).symm⟩
  · rw [if_neg hmade]
    by_cases hmapping : f.mapping = a.fresh
    · exact .inl ⟨hmade, hmapping⟩
    · exact .inr ⟨hf, fun h => hmapping (Option.some.inj h).symm⟩

/-- Each page is one of a window or one of an address in use. -/
def Accounted (s : MmapRun) : Prop :=
  ∀ q f, s.space.table q = some f →
    (∃ w ∈ s.fastMmap, Placed s.space f.mapping w) ∨
      ∃ l ∈ s.live, l.made = some f.mapping

theorem mapWindows_accounted {ws' : List DspMemRegion}
    (hws : ∀ w ∈ ws, WholePages w) (hnumbered : Numbered a)
    (h : mapWindows k ws a = (dspErrOk, ws', a'))
    (hf : a'.table q = some f) :
    (∃ w ∈ ws', Placed a' f.mapping w) ∨ a.table q = some f := by
  induction ws generalizing a ws' with
  | nil =>
      obtain ⟨rfl, rfl⟩ : [] = ws' ∧ a = a' := by
        simpa [mapWindows] using h
      exact .inr hf
  | cons w ws ih =>
      obtain ⟨hmod, hphys, hround⟩ := hws w List.mem_cons_self
      have htail : ∀ w ∈ ws, WholePages w :=
        fun w' hw' => hws w' (List.mem_cons_of_mem w hw')
      obtain hfail | ⟨base, b, hok, hplaced, hnumbered', -, -⟩ :=
        dspMmap_pages true [] k w.size hnumbered hphys rfl
      · rw [mapWindows, hfail] at h
        have hret : dspErrMemMap = dspErrOk := congrArg Prod.fst h
        exact absurd hret (by decide)
      · rw [mapWindows_cons hok] at h
        obtain ⟨hret, rfl, hspace⟩ : (mapWindows k ws b).1 = dspErrOk ∧
            { w with virtAddr := base + w.physAddr % 4096 } ::
              (mapWindows k ws b).2.1 = ws' ∧
            (mapWindows k ws b).2.2 = a' := by
          simpa using h
        have hrest : mapWindows k ws b =
            (dspErrOk, (mapWindows k ws b).2.1, a') := by
          rw [← hret, ← hspace]
        obtain ⟨-, -, -, hkeep⟩ := mapWindows_ok htail hnumbered' hrest
        obtain ⟨w', hw', hplaced'⟩ | hold := ih htail hnumbered' hrest
        · exact .inl ⟨w', List.mem_cons_of_mem _ hw', hplaced'⟩
        · obtain ⟨-, hmapping⟩ | hold := frame_of_dspMmap hnumbered hok hold
          · have haligned : w.physAddr / 4096 * 4096 = w.physAddr :=
              Nat.div_mul_cancel (Nat.dvd_of_mod_eq_zero hmod)
            rw [hround, haligned] at hplaced
            refine .inl ⟨_, List.mem_cons_self, ?_⟩
            rw [hmod, Nat.add_zero, hmapping]
            exact hkeep _ _ hplaced
          · exact .inr hold

theorem accounted_of_init (h : mmapMachine.init s) : Accounted s := by
  obtain ⟨-, osalInit, dspOpen, k, hinit⟩ := h
  have hnumbered : Numbered ⟨fun _ => none, 0⟩ :=
    fun _ _ hf => absurd hf (Option.some_ne_none _).symm
  have hwindows : mapWindows k fastMmap ⟨fun _ => none, 0⟩ =
      (dspErrOk, s.fastMmap, s.space) := by
    rw [dspInitRoot] at hinit
    split_ifs at hinit with hosal hopen
    · exact hinit
    · exact absurd (congrArg Prod.fst hinit) hopen
    · exact absurd (congrArg Prod.fst hinit) hosal
  intro q f hf
  obtain hw | hnone :=
    mapWindows_accounted wholePages_fastMmap hnumbered hwindows hf
  · exact .inl hw
  · exact absurd hnone (Option.some_ne_none _).symm

theorem Accounted.mapped (h : Accounted s) (hkept : MmapKept s)
    (hphys : physAddr < 2 ^ 32) :
    Accounted (s.mapped physAddr numBytes
      (dspMmap false s.fastMmap k physAddr numBytes s.space)) := by
  cases hw : findWindow s.fastMmap physAddr with
  | some w =>
      rw [dspMmap_window hw, MmapRun.mapped, if_pos rfl, if_pos rfl]
      intro q f hf
      obtain hwindow | ⟨l, hl, hmade⟩ := h q f hf
      · exact .inl hwindow
      · exact .inr ⟨l, List.mem_cons_of_mem _ hl, hmade⟩
  | none =>
      obtain hfail | ⟨base, b, hok, -, -, hfresh, hkeep⟩ :=
        dspMmap_pages false s.fastMmap k numBytes hkept.numbered hphys hw
      · rw [hfail, MmapRun.mapped, if_pos rfl,
          if_neg (by decide : dspErrMemMap ≠ dspErrOk)]
        exact h
      · have hne : b.fresh ≠ s.space.fresh := by
          rw [hfresh]
          exact Nat.succ_ne_self _
        rw [hok, MmapRun.mapped, if_neg hne, if_pos rfl]
        intro q f hf
        obtain ⟨-, hmapping⟩ | hold := frame_of_dspMmap hkept.numbered hok hf
        · exact .inr ⟨_, List.mem_cons_self, congrArg some hmapping.symm⟩
        · obtain ⟨w, hw, hplaced⟩ | ⟨l, hl, hmade⟩ := h q f hold
          · exact .inl ⟨w, hw, hkeep _ _ hplaced⟩
          · exact .inr ⟨l, List.mem_cons_of_mem _ hl, hmade⟩

theorem Accounted.unmapped {l : LiveMap} (h : Accounted s) :
    Accounted { s with
      space := { s.space with table := s.space.table.drop l.made }
      live := s.live.erase l } := by
  intro q f hf
  obtain ⟨hold, hne⟩ := Table.drop_eq_some_iff.mp hf
  obtain ⟨w, hw, hplaced⟩ | ⟨m, hm, hmade⟩ := h q f hold
  · exact .inl ⟨w, hw, { hplaced with has := hplaced.has.drop hne }⟩
  · have hml : m ≠ l := by
      rintro rfl
      exact hne hmade
    exact .inr ⟨m, (List.mem_erase_of_ne hml).mpr hm, hmade⟩

theorem accounted_of_reachable (h : mmapMachine.Reachable s) :
    Accounted s := by
  have hboth : MmapKept s ∧ Accounted s := by
    refine Machine.Reachable.invariant
      (P := fun s => MmapKept s ∧ Accounted s) ?_ ?_ h
    · exact fun s hs => ⟨mmapKept_of_init hs, accounted_of_init hs⟩
    · rintro s e t ⟨hkept, hacc⟩ hstep
      refine ⟨hkept.step hstep, ?_⟩
      cases e with
      | dspMmap k physAddr numBytes =>
          obtain ⟨hphys, -, rfl⟩ := hstep
          exact hacc.mapped hkept hphys
      | dspMunmap l =>
          obtain ⟨hl, rfl⟩ := hstep
          rw [hkept.dspMunmap_eq hl]
          exact hacc.unmapped
  exact hboth.2

/-! ## Unmapping the windows -/

/-- A mapping has one region. -/
theorem Placed.unique (h : Placed a id w) (h' : Placed a id w') :
    w.physAddr = w'.physAddr := by
  have hpos := Nat.pos_of_ne_zero h.nonempty
  have hpos' := Nat.pos_of_ne_zero h'.nonempty
  have hvirt := h.virt_aligned
  have hvirt' := h'.virt_aligned
  have hphys := h.phys_aligned
  have hphys' := h'.phys_aligned
  have hsize := h.size_aligned
  have hsize' := h'.size_aligned
  have hpages : 0 < w.size / 4096 := by omega
  have hpages' : 0 < w'.size / 4096 := by omega
  -- the first page of each one is a page of the other one
  obtain ⟨hcovers, -⟩ := (h'.has _ _).mp
    ⟨h.has.apply ⟨Nat.le_refl _, Nat.lt_add_of_pos_right hpages⟩, rfl⟩
  obtain ⟨hcovers', hframe⟩ := (h.has _ _).mp
    ⟨h'.has.apply ⟨Nat.le_refl _, Nat.lt_add_of_pos_right hpages'⟩, rfl⟩
  have hpage := congrArg Frame.page hframe
  simp only [Area.Covers, Area.frame] at hcovers hcovers' hpage
  omega

/-- A region has one mapping. -/
theorem Placed.forall_ne_iff (h : Placed a id w) {m : ℕ} :
    (∀ id', Placed a id' w → id' ≠ m) ↔ id ≠ m := by
  constructor
  · exact fun hall => hall id h
  · intro hne id' h'
    have hpos := Nat.pos_of_ne_zero h.nonempty
    obtain ⟨page, hpage⟩ :=
      h.apply (Nat.le_refl _) (Nat.lt_add_of_pos_right hpos)
    obtain ⟨page', hpage'⟩ :=
      h'.apply (Nat.le_refl _) (Nat.lt_add_of_pos_right hpos)
    obtain rfl : id = id' := congrArg Frame.mapping
      (Option.some.inj (hpage.symm.trans hpage'))
    exact hne

theorem dspMunmap_placed (h : Placed a id w) :
    dspMunmap true [] w.virtAddr w.size a =
      (dspErrOk, { a with table := a.table.drop (some id) }) := by
  have hend := h.end_lt
  have hsize := h.size_aligned
  have hround : dspPagesizeRound w.size = w.size := by
    simp only [dspPagesizeRound, u32, Shm.dspPageshift, dspPagesize,
      Nat.shiftRight_eq_div_pow, Nat.shiftLeft_eq]
    omega
  have halign : dspPagesizeAlign w.virtAddr = w.virtAddr := by
    rw [dspPagesizeAlign_eq (by omega)]
    exact Nat.div_mul_cancel (Nat.dvd_of_mod_eq_zero h.virt_aligned)
  have hunmap : a.table.unmap (w.virtAddr / 4096) (w.size / 4096) =
      a.table.drop (some id) := h.has.unmap_eq_drop
  rw [← hunmap, ← pagesOf_eq hsize]
  simp only [dspMunmap, if_true, hround, halign, osalMunmap]
  rw [if_pos ⟨h.virt_aligned, h.nonempty⟩]
  rfl

/-- The pages of the windows go, and no others. -/
theorem unmapWindows_table (hws : ∀ w ∈ ws, w.virtAddr ≠ 0 ∧ ∃ id, Placed a id w)
    (hne : ws.Pairwise fun w w' => w.physAddr ≠ w'.physAddr) :
    (unmapWindows ws a).table q = some f ↔ a.table q = some f ∧
      ∀ w ∈ ws, ∀ id, Placed a id w → id ≠ f.mapping := by
  induction ws generalizing a with
  | nil => exact (and_iff_left fun w hw => absurd hw List.not_mem_nil).symm
  | cons w ws ih =>
      obtain ⟨hhead, htail⟩ := List.pairwise_cons.mp hne
      obtain ⟨hvirt, id, hplaced⟩ := hws w List.mem_cons_self
      let b : AddressSpace := { a with table := a.table.drop (some id) }
      -- the other windows have other mappings, which stay
      have hother {w' : DspMemRegion} (hw' : w' ∈ ws) {id' : ℕ}
          (h' : Placed a id' w') : Placed b id' w' := by
        refine { h' with has := h'.has.drop fun heq => ?_ }
        obtain rfl := Option.some.inj heq
        exact hhead w' hw' (hplaced.unique h')
      have hws' : ∀ w' ∈ ws, w'.virtAddr ≠ 0 ∧ ∃ id', Placed b id' w' := by
        intro w' hw'
        obtain ⟨hvirt', id', h'⟩ := hws w' (List.mem_cons_of_mem w hw')
        exact ⟨hvirt', id', hother hw' h'⟩
      have hrun : unmapWindows (w :: ws) a = unmapWindows ws b := by
        rw [unmapWindows, if_pos hvirt, dspMunmap_placed hplaced]
        exact if_pos rfl
      have hrest : (∀ w' ∈ ws, ∀ id, Placed b id w' → id ≠ f.mapping) ↔
          ∀ w' ∈ ws, ∀ id, Placed a id w' → id ≠ f.mapping := by
        refine forall₂_congr fun w' hw' => ?_
        obtain ⟨-, id', h'⟩ := hws w' (List.mem_cons_of_mem w hw')
        rw [h'.forall_ne_iff, (hother hw' h').forall_ne_iff]
      rw [hrun, ih hws' htail, hrest, List.forall_mem_cons,
        hplaced.forall_ne_iff, Table.drop_eq_some_iff, and_assoc]
      refine and_congr_right fun _ => and_congr_left fun _ => ?_
      exact not_congr (Option.some_inj)

/-- What is mapped at a page boundary does not begin at address zero. -/
theorem dspMmap_ne_zero (hphys : physAddr < 2 ^ 32) (hmod : physAddr % 4096 = 0)
    (hok : dspMmap true ws k physAddr numBytes a = (dspErrOk, virtAddr, a')) :
    virtAddr ≠ 0 := by
  have halign : dspPagesizeAlign physAddr = physAddr := by
    rw [dspPagesizeAlign_eq hphys]
    exact Nat.div_mul_cancel (Nat.dvd_of_mod_eq_zero hmod)
  rw [dspMmap, if_pos rfl, halign] at hok
  cases hbase : k.mmap a physAddr (dspPagesizeRound numBytes) with
  | none =>
      simp only [osalMmap, hbase, ne_eq, not_true, if_false] at hok
      have hret : dspErrMemMap = dspErrOk := congrArg Prod.fst hok
      exact absurd hret (by decide)
  | some base =>
      have hroom := k.room _ _ _ _ hbase
      have hlt : base < 2 ^ 32 :=
        Nat.lt_of_le_of_lt (Nat.le_add_right _ _) hroom.end_lt
      simp only [osalMmap, hbase, ne_eq, hroom.pos, not_false_iff, if_true,
        Prod.mk.injEq] at hok
      obtain ⟨-, rfl, -⟩ := hok
      rw [Shm.rebase, Shm.u32Sub_of_le (Nat.le_refl _) hphys, Nat.sub_self,
        Nat.zero_add, u32_of_lt hlt]
      exact hroom.pos

theorem mapWindows_virtAddr {ws' : List DspMemRegion}
    (hws : ∀ w ∈ ws, WholePages w)
    (h : mapWindows k ws a = (dspErrOk, ws', a')) :
    ∀ w ∈ ws', w.virtAddr ≠ 0 := by
  induction ws generalizing a ws' with
  | nil =>
      obtain ⟨rfl, -⟩ : [] = ws' ∧ a = a' := by
        simpa [mapWindows] using h
      exact fun w hw => absurd hw List.not_mem_nil
  | cons w ws ih =>
      obtain ⟨hmod, hphys, -⟩ := hws w List.mem_cons_self
      obtain ⟨ret, virtAddr, b, hr⟩ : ∃ ret virtAddr b,
          dspMmap true [] k w.physAddr w.size a = (ret, virtAddr, b) :=
        ⟨_, _, _, rfl⟩
      by_cases hret : ret = dspErrOk
      · subst hret
        rw [mapWindows_cons hr] at h
        obtain ⟨hret, rfl, hspace⟩ : (mapWindows k ws b).1 = dspErrOk ∧
            { w with virtAddr := virtAddr } :: (mapWindows k ws b).2.1 = ws' ∧
            (mapWindows k ws b).2.2 = a' := by
          simpa using h
        have hrest : mapWindows k ws b =
            (dspErrOk, (mapWindows k ws b).2.1, a') := by
          rw [← hret, ← hspace]
        refine List.forall_mem_cons.mpr ⟨dspMmap_ne_zero hphys hmod hr, ?_⟩
        exact ih (fun w' hw' => hws w' (List.mem_cons_of_mem w hw')) hrest
      · rw [mapWindows, hr] at h
        simp only [hret, if_false] at h
        exact absurd (congrArg Prod.fst h) hret

/-- The windows stay as `dsp_init_root()` has mapped them. -/
theorem virtAddr_ne_zero_of_reachable (h : mmapMachine.Reachable s) :
    ∀ w ∈ s.fastMmap, w.virtAddr ≠ 0 := by
  refine Machine.Reachable.invariant
    (P := fun s => ∀ w ∈ s.fastMmap, w.virtAddr ≠ 0) ?_ ?_ h
  · rintro s ⟨-, osalInit, dspOpen, k, hinit⟩
    rw [dspInitRoot] at hinit
    split_ifs at hinit with hosal hopen
    · exact mapWindows_virtAddr wholePages_fastMmap hinit
    · exact absurd (congrArg Prod.fst hinit) hopen
    · exact absurd (congrArg Prod.fst hinit) hosal
  · intro s e t hs hstep
    cases e with
    | dspMmap k physAddr numBytes =>
        obtain ⟨-, -, rfl⟩ := hstep
        exact hs
    | dspMunmap l =>
        obtain ⟨-, rfl⟩ := hstep
        exact hs

/-- In every run: `dsp_exit_root()` leaves the pages of the addresses in use, and
no others. -/
theorem dspExitRoot_leaves (h : mmapMachine.Reachable s) (q : ℕ) (f : Frame) :
    (unmapWindows s.fastMmap s.space).table q = some f ↔
      s.space.table q = some f ∧ ∃ l ∈ s.live, l.made = some f.mapping := by
  have hkept := mmapKept_of_reachable h
  have hwindows : ∀ w ∈ s.fastMmap,
      w.virtAddr ≠ 0 ∧ ∃ id, Placed s.space id w := by
    intro w hw
    obtain ⟨id, hplaced, -⟩ := hkept.windows w hw
    exact ⟨virtAddr_ne_zero_of_reachable h w hw, id, hplaced⟩
  have hne : s.fastMmap.Pairwise fun w w' => w.physAddr ≠ w'.physAddr := by
    have hfast : (s.fastMmap.map withoutAddress).Pairwise
        fun w w' => w.physAddr ≠ w'.physAddr := by
      rw [hkept.windows_eq]
      decide
    exact List.Pairwise.of_map withoutAddress (fun _ _ hne => hne) hfast
  rw [unmapWindows_table hwindows hne]
  refine and_congr_right fun hf => ⟨fun hall => ?_, ?_⟩
  · refine (accounted_of_reachable h q f hf).resolve_left ?_
    rintro ⟨w, hw, hplaced⟩
    exact hall w hw _ hplaced rfl
  · rintro ⟨l, hl, hmade⟩ w hw id hplaced rfl
    obtain ⟨id', hplaced', hnot⟩ := hkept.windows w hw
    have hid : id' = f.mapping := by
      by_contra hne
      exact hplaced'.forall_ne_iff.mpr hne _ hplaced rfl
    exact hnot l hl (hid ▸ hmade)

/-- With the address of the example in use its page stays mapped. -/
theorem dspExitRoot_leaves_acrossPages : ∃ s : MmapRun,
    s.live = [⟨0x80000ffc, 8, 0x40000ffc, some 2⟩] ∧ ∀ q f,
      (unmapWindows s.fastMmap s.space).table q = some f ↔
        s.space.table q = some f ∧ ∃ l ∈ s.live, l.made = some f.mapping := by
  obtain ⟨s, hs, hlive⟩ := exists_acrossPages
  exact ⟨s, hlive, fun q f => dspExitRoot_leaves hs q f⟩

end C64Tools.Client
