import C64Tools.Shm.Held
import Mathlib.Data.List.Find

/-!
# Address translation there and back

On tidy tables both directions of the address translation are searches for
the piece of a mapped region that holds the address, so that they are inverse
to each other wherever the pieces lie apart.
-/

namespace C64Tools.Shm

open C64Tools.Kmod Transition Translation

/-! ## The bounds tests -/

theorem u32Sub_of_le {a b : ℕ} (hle : b ≤ a) (ha : a < 2 ^ 32) :
    u32Sub a b = a - b := by
  unfold u32Sub u32
  omega

/-- Neither side of the span wraps around. -/
def NoWrap (m : Span) : Prop :=
  m.source + m.size < 2 ^ 32 ∧ m.target + m.size < 2 ^ 32

instance (m : Span) : Decidable (NoWrap m) := by
  unfold NoWrap
  infer_instance

theorem NoWrap.flip {m : Span} (h : NoWrap m) : NoWrap m.flip :=
  ⟨h.2, h.1⟩

theorem inBounds_iff_covers {m : Span} (h : NoWrap m) (a : ℕ) :
    InBounds a m.source m.size ↔ m.Covers a := by
  rw [InBounds, u32_of_lt h.1, Span.Covers]

theorem rebase_eq_image {m : Span} (h : NoWrap m) {a : ℕ}
    (hcovers : m.Covers a) : rebase a m.source m.target = m.image a := by
  obtain ⟨hsource, htarget⟩ := h
  obtain ⟨hle, hlt⟩ := hcovers
  rw [rebase, u32Sub_of_le hle (by omega), Span.image, u32_of_lt (by omega)]

/-- One table entry is one span. -/
theorem translate_singleton {m : Span} (h : NoWrap m) (a : ℕ) :
    translate [m] a =
      if InBounds a m.source m.size then some (rebase a m.source m.target)
      else none := by
  rw [translate_cons, translate_nil]
  by_cases hcovers : m.Covers a
  · rw [if_pos hcovers, if_pos ((inBounds_iff_covers h a).mpr hcovers),
      rebase_eq_image h hcovers]
  · rw [if_neg hcovers,
      if_neg (mt (inBounds_iff_covers h a).mp hcovers)]

theorem not_inBounds_empty (a base : ℕ) : ¬InBounds a base 0 := by
  unfold InBounds u32
  omega

theorem not_inBounds_mapFailed (a size : ℕ) : ¬InBounds a mapFailed size := by
  unfold InBounds u32 mapFailed
  omega

/-! ## The pages of a region -/

namespace Held

variable {h : Held}

theorem mem_spans_hugetlb {m : Span} :
    m ∈ h.spans .hugetlb ↔
      ∃ k < h.mem.size >>> dspHugetlbPageshift, h.pageSpan k = m := by
  simp [spans]

/-- A page covers the addresses that have its number. -/
theorem pageSpan_covers_iff {k v : ℕ} :
    (h.pageSpan k).Covers v ↔
      h.mem.virtAddr ≤ v ∧ (v - h.mem.virtAddr) >>> dspHugetlbPageshift = k := by
  simp only [pageSpan, Span.Covers, dspHugetlbPagesize, dspHugetlbPageshift,
    Nat.shiftLeft_eq, Nat.shiftRight_eq_div_pow]
  omega

/-- Together the pages are the whole region. -/
theorem mapped_spans_hugetlb
    (hsize : h.mem.size =
      (h.mem.size >>> dspHugetlbPageshift) <<< dspHugetlbPageshift) (v : ℕ) :
    Mapped (h.spans .hugetlb) v ↔
      h.mem.virtAddr ≤ v ∧ v < h.mem.virtAddr + h.mem.size := by
  have hpage : h.mem.virtAddr ≤ v →
      ((v - h.mem.virtAddr) >>> dspHugetlbPageshift <
          h.mem.size >>> dspHugetlbPageshift ↔
        v < h.mem.virtAddr + h.mem.size) := by
    simp only [dspHugetlbPageshift, Nat.shiftLeft_eq,
      Nat.shiftRight_eq_div_pow] at hsize ⊢
    omega
  constructor
  · rintro ⟨m, hmem, hcovers⟩
    obtain ⟨k, hk, rfl⟩ := mem_spans_hugetlb.mp hmem
    obtain ⟨hle, rfl⟩ := pageSpan_covers_iff.mp hcovers
    exact ⟨hle, (hpage hle).mp hk⟩
  · rintro ⟨hle, hlt⟩
    exact ⟨_, mem_spans_hugetlb.mpr ⟨_, (hpage hle).mpr hlt, rfl⟩,
      pageSpan_covers_iff.mpr ⟨hle, rfl⟩⟩

theorem translate_spans_hugetlb
    (hsize : h.mem.size =
      (h.mem.size >>> dspHugetlbPageshift) <<< dspHugetlbPageshift) {v : ℕ}
    (hin : h.mem.virtAddr ≤ v ∧ v < h.mem.virtAddr + h.mem.size) :
    ∃ k < h.mem.size >>> dspHugetlbPageshift, (h.pageSpan k).Covers v ∧
      translate (h.spans .hugetlb) v = some ((h.pageSpan k).image v) := by
  have hmapped := (mapped_spans_hugetlb hsize v).mpr hin
  obtain ⟨b, hb⟩ := Option.ne_none_iff_exists'.mp fun hnone =>
    translate_eq_none_iff.mp hnone hmapped
  obtain ⟨m, hmem, hcovers, rfl⟩ := exists_span_of_translate hb
  obtain ⟨k, hk, rfl⟩ := mem_spans_hugetlb.mp hmem
  exact ⟨k, hk, hcovers, hb⟩

theorem inBounds_hugetlb_iff
    (hsize : h.mem.size =
      (h.mem.size >>> dspHugetlbPageshift) <<< dspHugetlbPageshift)
    (hwrap : ∀ m ∈ h.spans .hugetlb, NoWrap m) (v : ℕ) :
    InBounds v h.mem.virtAddr h.mem.size ↔
      h.mem.virtAddr ≤ v ∧ v < h.mem.virtAddr + h.mem.size := by
  obtain hzero | hpos :=
    Nat.eq_zero_or_pos (h.mem.size >>> dspHugetlbPageshift)
  · rw [hzero, Nat.zero_shiftLeft] at hsize
    rw [hsize]
    have hnot := not_inBounds_empty v h.mem.virtAddr
    constructor
    · exact fun hin => absurd hin hnot
    · omega
  · -- the last page ends where the region does
    have hlast := (hwrap _ (mem_spans_hugetlb.mpr
      ⟨_, Nat.sub_lt hpos Nat.one_pos, rfl⟩)).1
    have hend : h.mem.virtAddr + h.mem.size < 2 ^ 32 := by
      simp only [pageSpan, dspHugetlbPagesize, dspHugetlbPageshift,
        Nat.shiftLeft_eq] at hlast hsize hpos
      omega
    rw [InBounds, u32_of_lt hend]

end Held

/-! ## Entries of the tables -/

section Entries

variable {s : ShmProcess} {t : DspCache}

theorem mem_spans_of_mem_spansOf {m : Span} (h : m ∈ s.spansOf t) :
    m ∈ s.spans := by
  have hall : t ∈ DspCache.all := by cases t <;> decide
  have hflat := List.mem_flatMap.mpr ⟨t, hall, h⟩
  exact List.mem_cons_of_mem _ (List.mem_cons_of_mem _ hflat)

/-- An entry of shared memory is the one span of its region, or is empty. -/
theorem spansOf_contig (htidy : Tidy s) (ht : t ≠ .hugetlb) :
    ((s.regions.sharedMem t).mem.size = 0 ∧ s.spansOf t = []) ∨
      s.spansOf t =
        [⟨(s.regions.sharedMem t).mem.virtAddr,
          (s.regions.sharedMem t).mem.physAddr,
          (s.regions.sharedMem t).mem.size⟩] := by
  have hentry := htidy t
  cases hheld : s.held t with
  | none =>
      rw [hheld, TidyAt, Silent, if_neg ht] at hentry
      exact Or.inl ⟨hentry, by simp [ShmProcess.spansOf, hheld]⟩
  | some h =>
      rw [hheld] at hentry
      refine Or.inr ?_
      rw [hentry.1]
      simp [ShmProcess.spansOf, hheld, Held.spans, ht]

/-- Shared memory, from the virtual to the physical side. -/
theorem translate_spansOf_contig (htidy : Tidy s)
    (hwrap : ∀ m ∈ s.spans, NoWrap m) (ht : t ≠ .hugetlb) (v : ℕ) :
    translate (s.spansOf t) v =
      if InBounds v (s.regions.sharedMem t).mem.virtAddr
          (s.regions.sharedMem t).mem.size then
        some (s.regions.entryToPhys t v)
      else none := by
  rw [Regions.entryToPhys, if_neg ht]
  obtain ⟨hsize, hspans⟩ | hspans := spansOf_contig htidy ht
  · rw [hsize, hspans, if_neg (not_inBounds_empty _ _), translate_nil]
  · have hmem : _ ∈ s.spansOf t := hspans ▸ List.mem_singleton_self _
    rw [hspans]
    exact translate_singleton (hwrap _ (mem_spans_of_mem_spansOf hmem)) v

/-- Shared memory, from the physical to the virtual side. -/
theorem translate_back_spansOf_contig (htidy : Tidy s)
    (hwrap : ∀ m ∈ s.spans, NoWrap m) (ht : t ≠ .hugetlb) (p : ℕ) :
    translate (back (s.spansOf t)) p =
      if InBounds p (s.regions.sharedMem t).mem.physAddr
          (s.regions.sharedMem t).mem.size then
        some (rebase p (s.regions.sharedMem t).mem.physAddr
          (s.regions.sharedMem t).mem.virtAddr)
      else none := by
  obtain ⟨hsize, hspans⟩ | hspans := spansOf_contig htidy ht
  · rw [hsize, hspans, if_neg (not_inBounds_empty _ _)]
    rfl
  · have hmem : _ ∈ s.spansOf t := hspans ▸ List.mem_singleton_self _
    rw [hspans]
    exact translate_singleton
      (hwrap _ (mem_spans_of_mem_spansOf hmem)).flip p

/-- The arithmetic on huge pages is the span of the page. -/
theorem entryToPhys_eq_image {r : Regions} {h : Held} {k v : ℕ}
    (hmem : r.sharedMem .hugetlb = ⟨.hugetlb, h.mem⟩)
    (hwrap : NoWrap (h.pageSpan k)) (hcovers : (h.pageSpan k).Covers v)
    (hkept : r.hugetlbPagePhysAddr k = h.pages k) :
    r.entryToPhys .hugetlb v = (h.pageSpan k).image v := by
  obtain ⟨hvirt, hphys⟩ := hwrap
  obtain ⟨hle, hnr⟩ := Held.pageSpan_covers_iff.mp hcovers
  obtain ⟨hlow, hhigh⟩ := hcovers
  simp only [Held.pageSpan] at hvirt hphys hlow hhigh
  simp only [Regions.entryToPhys, if_true, hmem, Held.pageSpan, Span.image]
  rw [u32Sub_of_le hle (by omega), hnr, hkept]
  generalize k <<< dspHugetlbPageshift = start at hvirt hlow hhigh ⊢
  rw [u32_of_lt (by omega : start < 2 ^ 32),
    u32Sub_of_le (by omega) (by omega), u32_of_lt (by omega)]
  omega

/-- Huge pages, from the virtual to the physical side. -/
theorem translate_spansOf_hugetlb (htidy : Tidy s)
    (hwrap : ∀ m ∈ s.spans, NoWrap m) (v : ℕ) :
    translate (s.spansOf .hugetlb) v =
      if InBounds v (s.regions.sharedMem .hugetlb).mem.virtAddr
          (s.regions.sharedMem .hugetlb).mem.size then
        some (s.regions.entryToPhys .hugetlb v)
      else none := by
  have hentry := htidy .hugetlb
  cases hheld : s.held .hugetlb with
  | none =>
      have hspans : s.spansOf .hugetlb = [] := by
        simp [ShmProcess.spansOf, hheld]
      rw [hheld, TidyAt, Silent, if_pos rfl] at hentry
      rw [hspans, translate_nil]
      obtain hvirt | hsize := hentry.2
      · rw [hvirt, if_neg (not_inBounds_mapFailed _ _)]
      · rw [hsize, if_neg (not_inBounds_empty _ _)]
  | some h =>
      have hspans : s.spansOf .hugetlb = h.spans .hugetlb := by
        simp [ShmProcess.spansOf, hheld]
      rw [hheld] at hentry
      obtain ⟨hmem, -, hpages⟩ := hentry
      have hwrap' : ∀ m ∈ h.spans .hugetlb, NoWrap m := fun m hm =>
        hwrap m (mem_spans_of_mem_spansOf (hspans ▸ hm))
      have hsize := (hpages rfl).size_eq
      have hbounds := Held.inBounds_hugetlb_iff hsize hwrap' v
      rw [hmem, hspans]
      by_cases hin : h.mem.virtAddr ≤ v ∧ v < h.mem.virtAddr + h.mem.size
      · obtain ⟨k, hk, hcovers, htranslate⟩ :=
          Held.translate_spans_hugetlb hsize hin
        rw [if_pos (hbounds.mpr hin), htranslate]
        have hpage := hwrap' _ (Held.mem_spans_hugetlb.mpr ⟨k, hk, rfl⟩)
        exact congrArg some
          (entryToPhys_eq_image hmem hpage hcovers ((hpages rfl).kept k hk)).symm
      · rw [if_neg (mt hbounds.mp hin)]
        exact translate_eq_none_iff.mpr
          (mt (Held.mapped_spans_hugetlb hsize v).mp hin)

/-- Cells behind the pages are not reached when each repeats one of them. -/
theorem find?_range_of_repeated {n size : ℕ} {test : ℕ → Bool}
    (hle : n ≤ size)
    (hrepeated : ∀ k < size, n ≤ k → ∃ j < n, test j = test k) :
    (List.range size).find? test = (List.range n).find? test := by
  obtain ⟨d, rfl⟩ := Nat.exists_eq_add_of_le hle
  rw [List.range_add, List.find?_append]
  cases hfound : (List.range n).find? test with
  | some i => rfl
  | none =>
      have hnone : ((List.range d).map (n + ·)).find? test = none := by
        rw [List.find?_eq_none] at hfound ⊢
        intro k hk
        obtain ⟨i, hi, rfl⟩ := List.mem_map.mp hk
        obtain ⟨j, hj, hsame⟩ := hrepeated (n + i)
          (Nat.add_lt_add_left (List.mem_range.mp hi) n) (Nat.le_add_right n i)
        rw [← hsame]
        exact hfound j (List.mem_range.mpr hj)
      rw [hnone]
      rfl

/-- Huge pages, from the physical to the virtual side. -/
theorem pageToVirt_eq (htidy : Tidy s) (hwrap : ∀ m ∈ s.spans, NoWrap m)
    {h : Held} (hheld : s.held .hugetlb = some h) (p : ℕ) :
    s.regions.pageToVirt p =
      (translate (back (s.spansOf .hugetlb)) p).getD 0 := by
  have hentry := htidy .hugetlb
  rw [hheld] at hentry
  obtain ⟨hmem, -, hpages⟩ := hentry
  obtain ⟨-, hfits, hkept, hbehind⟩ := hpages rfl
  have hspans : s.spansOf .hugetlb = h.spans .hugetlb := by
    simp [ShmProcess.spansOf, hheld]
  have hback : back (s.spansOf .hugetlb) =
      (List.range (h.mem.size >>> dspHugetlbPageshift)).flatMap fun k =>
        [(h.pageSpan k).flip] := by
    rw [hspans, Held.spans, if_pos rfl, back, List.map_map,
      ← List.map_eq_flatMap]
    rfl
  have hpage (k : ℕ) (hk : k < h.mem.size >>> dspHugetlbPageshift) :
      translate [(h.pageSpan k).flip] p =
        if InBounds p (s.regions.hugetlbPagePhysAddr k) dspHugetlbPagesize then
          some (u32 (h.mem.virtAddr + k <<< dspHugetlbPageshift +
            u32Sub p (s.regions.hugetlbPagePhysAddr k)))
        else none := by
    have hmem' : h.pageSpan k ∈ s.spansOf .hugetlb :=
      hspans ▸ Held.mem_spans_hugetlb.mpr ⟨k, hk, rfl⟩
    rw [hkept k hk, Nat.add_comm _ (u32Sub _ _)]
    exact translate_singleton
      (hwrap _ (mem_spans_of_mem_spansOf hmem')).flip p
  rw [hback, translate_flatMap fun k hk => hpage k (List.mem_range.mp hk),
    Regions.pageToVirt, hmem, find?_range_of_repeated hfits]
  · cases (List.range _).find? _ with
    | some i => rfl
    | none => rfl
  · intro k hk hle
    obtain ⟨j, hj, hsame⟩ := hbehind k hk hle
    exact ⟨j, hj, by rw [hsame]⟩

end Entries

/-! ## Both directions -/

section Directions

variable {s : ShmProcess}

/-- An SRAM area comes before everything after it. -/
theorem translate_cons_eq {m : Span} {ms : List Span} (h : NoWrap m) (a : ℕ) :
    (translate (m :: ms) a).getD 0 =
      if InBounds a m.source m.size then rebase a m.source m.target
      else (translate ms a).getD 0 := by
  rw [translate_cons]
  by_cases hcovers : m.Covers a
  · rw [if_pos hcovers, if_pos ((inBounds_iff_covers h a).mpr hcovers),
      rebase_eq_image h hcovers]
    rfl
  · rw [if_neg hcovers, if_neg (mt (inBounds_iff_covers h a).mp hcovers)]

theorem l1_noWrap (hwrap : ∀ m ∈ s.spans, NoWrap m) :
    NoWrap ⟨s.regions.l1sramFshm.virtAddr, s.regions.l1sramFshm.physAddr,
      s.regions.l1sramFshm.size⟩ :=
  hwrap _ List.mem_cons_self

theorem l2_noWrap (hwrap : ∀ m ∈ s.spans, NoWrap m) :
    NoWrap ⟨s.regions.l2sramFshm.virtAddr, s.regions.l2sramFshm.physAddr,
      s.regions.l2sramFshm.size⟩ :=
  hwrap _ (List.mem_cons_of_mem _ List.mem_cons_self)

/-- `dsp_virt_to_phys` finds the piece that holds the address. -/
theorem dspVirtToPhys_eq (htidy : Tidy s) (hwrap : ∀ m ∈ s.spans, NoWrap m)
    (v : ℕ) :
    dspVirtToPhys s.regions v = (translate s.spans v).getD 0 := by
  have hentries : translate (DspCache.all.flatMap s.spansOf) v =
      (DspCache.all.find? fun t =>
        decide (InBounds v (s.regions.sharedMem t).mem.virtAddr
          (s.regions.sharedMem t).mem.size)).map
        (s.regions.entryToPhys · v) := by
    refine translate_flatMap fun t _ => ?_
    by_cases ht : t = .hugetlb
    · subst ht
      exact translate_spansOf_hugetlb htidy hwrap v
    · exact translate_spansOf_contig htidy hwrap ht v
  rw [ShmProcess.spans, translate_cons_eq (l1_noWrap hwrap),
    translate_cons_eq (l2_noWrap hwrap), hentries, dspVirtToPhys]
  congr 2
  cases DspCache.all.find? _ with
  | some t => rfl
  | none => rfl

/-- The entries of shared memory, from the physical to the virtual side. -/
theorem entryToVirt_eq (htidy : Tidy s) (hwrap : ∀ m ∈ s.spans, NoWrap m)
    (p : ℕ) :
    s.regions.entryToVirt p =
      (translate (back (DspCache.contig.flatMap s.spansOf)) p).getD 0 := by
  have hentries : translate (back (DspCache.contig.flatMap s.spansOf)) p =
      (DspCache.contig.find? fun t =>
        decide (InBounds p (s.regions.sharedMem t).mem.physAddr
          (s.regions.sharedMem t).mem.size)).map fun t =>
        rebase p (s.regions.sharedMem t).mem.physAddr
          (s.regions.sharedMem t).mem.virtAddr := by
    rw [back, List.map_flatMap]
    refine translate_flatMap fun t ht => ?_
    have hcontig : DspCache.hugetlb ∉ DspCache.contig := by decide
    exact translate_back_spansOf_contig htidy hwrap
      (fun heq => hcontig (heq ▸ ht)) p
  rw [hentries, Regions.entryToVirt]
  cases DspCache.contig.find? _ with
  | some t => rfl
  | none => rfl

theorem back_spans_eq (s : ShmProcess) :
    back s.spans =
      ⟨s.regions.l1sramFshm.physAddr, s.regions.l1sramFshm.virtAddr,
          s.regions.l1sramFshm.size⟩ ::
        ⟨s.regions.l2sramFshm.physAddr, s.regions.l2sramFshm.virtAddr,
          s.regions.l2sramFshm.size⟩ ::
        (back (DspCache.contig.flatMap s.spansOf) ++
          back (s.spansOf .hugetlb)) := by
  have hall : DspCache.all = DspCache.contig ++ [.hugetlb] := rfl
  rw [ShmProcess.spans, hall, List.flatMap_append, List.flatMap_singleton]
  simp [back, Span.flip]

/-- Huge pages are searched only while some are allocated. -/
theorem hugetlbToVirt_eq (htidy : Tidy s) (hwrap : ∀ m ∈ s.spans, NoWrap m)
    (p : ℕ) :
    (if (s.regions.sharedMem .hugetlb).mem.physAddr ≠ 0 then
        s.regions.pageToVirt p
      else 0) =
      (translate (back (s.spansOf .hugetlb)) p).getD 0 := by
  have hentry := htidy .hugetlb
  cases hheld : s.held .hugetlb with
  | none =>
      rw [hheld, TidyAt, Silent, if_pos rfl] at hentry
      rw [if_neg (not_not.mpr hentry.1)]
      simp [ShmProcess.spansOf, hheld, back]
  | some h =>
      rw [hheld] at hentry
      obtain ⟨hmem, hne, -⟩ := hentry
      rw [if_pos (by rwa [hmem])]
      exact pageToVirt_eq htidy hwrap hheld p

/-- `dsp_phys_to_virt` finds the piece that holds the address.  The pieces
have to lie apart, since it goes on to the huge pages when the address `0` is
what it has found. -/
theorem dspPhysToVirt_eq (htidy : Tidy s) (hwrap : ∀ m ∈ s.spans, NoWrap m)
    (hsep : Separate (back s.spans)) (p : ℕ) :
    dspPhysToVirt s.regions p = (translate (back s.spans) p).getD 0 := by
  have hl1 : NoWrap ⟨s.regions.l1sramFshm.physAddr,
      s.regions.l1sramFshm.virtAddr, s.regions.l1sramFshm.size⟩ :=
    (l1_noWrap hwrap).flip
  have hl2 : NoWrap ⟨s.regions.l2sramFshm.physAddr,
      s.regions.l2sramFshm.virtAddr, s.regions.l2sramFshm.size⟩ :=
    (l2_noWrap hwrap).flip
  have hentry := entryToVirt_eq htidy hwrap p
  have hpages := hugetlbToVirt_eq htidy hwrap p
  rw [back_spans_eq] at hsep ⊢
  obtain ⟨-, -, hapart⟩ := List.pairwise_append.mp hsep.of_cons.of_cons
  rw [translate_cons_eq hl1, translate_cons_eq hl2, translate_append,
    dspPhysToVirt]
  refine if_congr Iff.rfl rfl (if_congr Iff.rfl rfl ?_)
  cases hfound : translate (back (DspCache.contig.flatMap s.spansOf)) p with
  | none =>
      rw [hfound, Option.getD_none] at hentry
      rw [if_pos hentry, hentry, hpages, Option.none_or]
  | some v =>
      rw [hfound, Option.getD_some] at hentry
      rw [hentry, Option.some_or, Option.getD_some]
      by_cases hv : v = 0
      · -- no huge page holds the address as well
        obtain ⟨m, hm, hcovers, -⟩ := exists_span_of_translate hfound
        have hnone : translate (back (s.spansOf .hugetlb)) p = none := by
          refine translate_eq_none_iff.mpr ?_
          rintro ⟨m', hm', hcovers'⟩
          exact Span.apart_iff.mp (hapart m hm m' hm') p hcovers hcovers'
        rw [hnone, Option.getD_none] at hpages
        rw [if_pos hv, hv, hpages]
      · exact if_neg hv

end Directions

/-! ## The round trip -/

/-- The mapped regions are pairwise disjoint on both sides, and none wraps. -/
structure WellPlaced (s : ShmProcess) : Prop where
  noWrap : ∀ m ∈ s.spans, NoWrap m
  virt_separate : Separate s.spans
  phys_separate : Separate (back s.spans)

instance (s : ShmProcess) : Decidable (WellPlaced s) :=
  decidable_of_iff
    ((∀ m ∈ s.spans, NoWrap m) ∧ Separate s.spans ∧ Separate (back s.spans))
    ⟨fun h => ⟨h.1, h.2.1, h.2.2⟩, fun h => ⟨h.1, h.2, h.3⟩⟩

/-- Addresses in mapped regions translate there and back, and all others to
nothing. -/
structure TranslatesBack (s : ShmProcess) : Prop where
  virt_to_phys : ∀ v, Mapped s.spans v →
    dspPhysToVirt s.regions (dspVirtToPhys s.regions v) = v
  phys_to_virt : ∀ p, dspPhysToVirt s.regions p ≠ 0 →
    Mapped (back s.spans) p ∧
      dspVirtToPhys s.regions (dspPhysToVirt s.regions p) = p
  virt_outside : ∀ v, ¬Mapped s.spans v → dspVirtToPhys s.regions v = 0
  phys_outside : ∀ p, ¬Mapped (back s.spans) p →
    dspPhysToVirt s.regions p = 0

theorem translatesBack_of_tidy {s : ShmProcess} (htidy : Tidy s)
    (hplaced : WellPlaced s) : TranslatesBack s := by
  have hphys := dspVirtToPhys_eq htidy hplaced.noWrap
  have hvirt := dspPhysToVirt_eq htidy hplaced.noWrap hplaced.phys_separate
  refine ⟨?_, ?_, ?_, ?_⟩
  · intro v hmapped
    obtain ⟨p, hp⟩ := Option.ne_none_iff_exists'.mp fun hnone =>
      translate_eq_none_iff.mp hnone hmapped
    rw [hphys, hp, Option.getD_some, hvirt,
      translate_back hplaced.phys_separate hp, Option.getD_some]
  · intro p hne
    rw [hvirt] at hne ⊢
    cases hp : translate (back s.spans) p with
    | none =>
        rw [hp] at hne
        exact absurd rfl hne
    | some v =>
        have hsep : Separate (back (back s.spans)) := by
          rw [back_back]
          exact hplaced.virt_separate
        have hv := translate_back hsep hp
        rw [back_back] at hv
        refine ⟨mapped_of_translate hp, ?_⟩
        rw [Option.getD_some, hphys, hv, Option.getD_some]
  · intro v hnot
    rw [hphys, translate_eq_none_iff.mpr hnot, Option.getD_none]
  · intro p hnot
    rw [hvirt, translate_eq_none_iff.mpr hnot, Option.getD_none]

/-- After every history whose allocations leave nothing behind. -/
theorem translatesBack_of_reachable (l1Virt l2Virt : ℕ) {s : ShmProcess}
    (hs : ((shmMachine l1Virt l2Virt).restrict LeavesNothing).Reachable s)
    (hplaced : WellPlaced s) : TranslatesBack s :=
  translatesBack_of_tidy (tidy_of_reachable hs) hplaced

/-- Huge pages at `0xa0000000`, whose physical addresses are consecutive. -/
def demoPages : ShmAnswers :=
  ⟨some 0xa0000000, some 0x90000000, fun v => some (v - 0x10000000)⟩

/-- A block of shared memory. -/
def demoBlock : ShmAnswers :=
  ⟨some 0xb0000000, some 0x87000000, fun _ => none⟩

/-- As many huge pages as fit into the table are allocated and freed beside a
block of shared memory. -/
theorem translatesBack_full_table :
    ∃ s, dspPhysToVirt s.regions 0x87000123 = 0xb0000123 ∧
      dspPhysToVirt s.regions 0x90212345 = 0 ∧ TranslatesBack s := by
  have hrun : ∃ s, ((shmMachine 0xb6f00000 0xb6e00000).restrict
      LeavesNothing).Reachable s ∧ WellPlaced s ∧
        dspPhysToVirt s.regions 0x87000123 = 0xb0000123 ∧
        dspPhysToVirt s.regions 0x90212345 = 0 :=
    Machine.exists_restrict_reachable_of_run
      (fun s : ShmProcess => WellPlaced s ∧
        dspPhysToVirt s.regions 0x87000123 = 0xb0000123 ∧
        dspPhysToVirt s.regions 0x90212345 = 0)
      [.alloc (some .hugetlb) 0x10000000 demoPages,
        .alloc (some .rw) 5000 demoBlock,
        .free ⟨0x90000000, 0xa0000000, 0x10000000⟩ 0]
      (by decide +kernel)
  obtain ⟨s, hs, hplaced, hblock, hfreed⟩ := hrun
  exact ⟨s, hblock, hfreed, translatesBack_of_reachable _ _ hs hplaced⟩

/-- One huge page is allocated after two have been freed: the second of them
still translates. -/
theorem freed_page_translates :
    ¬∀ (l1Virt l2Virt : ℕ) (s : ShmProcess),
      (shmMachine l1Virt l2Virt).Reachable s → WellPlaced s →
        TranslatesBack s := by
  intro hall
  have hrun : ∃ s, (shmMachine 0xb6f00000 0xb6e00000).Reachable s ∧
      WellPlaced s ∧ ¬Mapped (back s.spans) 0x90200000 ∧
        dspPhysToVirt s.regions 0x90200000 = 0xa0200000 :=
    Machine.exists_reachable_of_run
      (fun s : ShmProcess => WellPlaced s ∧
        ¬Mapped (back s.spans) 0x90200000 ∧
        dspPhysToVirt s.regions 0x90200000 = 0xa0200000)
      [.alloc (some .hugetlb) 0x400000 demoPages,
        .free ⟨0x90000000, 0xa0000000, 0x400000⟩ 0,
        .alloc (some .hugetlb) 0x200000 demoPages]
      (by decide +kernel)
  obtain ⟨s, hs, hplaced, hfreed, hvirt⟩ := hrun
  have hnull := (hall _ _ s hs hplaced).phys_outside _ hfreed
  rw [hvirt] at hnull
  exact absurd hnull (by decide)

end C64Tools.Shm
