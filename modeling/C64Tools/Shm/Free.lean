import C64Tools.Shm.Effects
import C64Tools.Shm.RoundTrip

/-!
# Which region a free releases

`dsp_shm_free()` searches the tables for the physical address of its argument, and
then releases the type that is noted in the entry it has found.  An entry that is
not in use has the address zero and the type zero, and one whose allocation has been
given up may have any address.  So the search may find an entry of which nothing
has been handed out, and what is released is then the region of another type, or of
none.
-/

namespace C64Tools.Shm

open C64Tools.Kmod Transition

/-- `mmap()` does not return a null pointer. -/
def MapsSomewhere (_ : ShmProcess) : ShmCall → Prop
  | .alloc _ _ o => o.mmapped ≠ 0
  | .free _ _ => True

instance (s : ShmProcess) (e : ShmCall) : Decidable (MapsSomewhere s e) := by
  unfold MapsSomewhere
  rcases e with _ | _ <;> infer_instance

/-- The call unmaps and frees a region with the address of its argument that is
handed out, or does nothing and returns an error if there is none. -/
def Releases (s : ShmProcess) (ret : ℤ) (mem : DspMemRegion) : Prop :=
  (∃ t h, s.held t = some h ∧ h.mem.physAddr = mem.physAddr ∧
    dspShmFreeTraced ret mem s.regions =
      ([.munmap h.mem.virtAddr h.mem.size, .shmFree t], ret,
        s.regions.setEntry t ShmEntry.zero)) ∨
  ((∀ t h, s.held t = some h → h.mem.physAddr ≠ mem.physAddr) ∧
    ∃ err, err ≠ 0 ∧
      dspShmFreeTraced ret mem s.regions = ([], err, s.regions))

/-- The first entry with an address. -/
def findEntry (mem : DspMemRegion) (r : Regions) : Option DspCache :=
  DspCache.all.find? fun t =>
    decide (mem.physAddr = (r.sharedMem t).mem.physAddr)

/-- The first entry with the address of the argument, if there is one, is that of
a region which is handed out. -/
def FindsHeld (s : ShmProcess) (mem : DspMemRegion) : Prop :=
  ∀ t, findEntry mem s.regions = some t → s.held t ≠ none

/-! ## What every run keeps -/

/-- An entry with an address has its own type, and is that of the region which is
handed out, if one is. -/
structure EntriesKept (s : ShmProcess) : Prop where
  type_eq : ∀ t, (s.regions.sharedMem t).mem.physAddr ≠ 0 →
    (s.regions.sharedMem t).type = t
  held : ∀ t h, s.held t = some h → (s.regions.sharedMem t).mem = h.mem ∧
    h.mem.physAddr ≠ 0 ∧ h.mem.virtAddr ≠ 0

variable {s s' : ShmProcess} {t : DspCache} {mem : DspMemRegion} {ret : ℤ}
  {h : Held}

theorem entriesKept_opened (l1Virt l2Virt : ℕ) :
    EntriesKept (ShmProcess.opened l1Virt l2Virt) where
  type_eq _ hphys := absurd rfl hphys
  held _ _ hheld := nomatch hheld

/-- An entry of a region that is handed out is refused to be allocated again. -/
theorem EntriesKept.held_eq_none (hs : EntriesKept s)
    (hphys : (s.regions.sharedMem t).mem.physAddr = 0) : s.held t = none := by
  cases hheld : s.held t with
  | none => rfl
  | some h =>
      obtain ⟨hmem, hne, -⟩ := hs.held t h hheld
      rw [hmem] at hphys
      exact absurd hphys hne

/-- One entry is written, and what is handed out of it is in there. -/
theorem EntriesKept.setEntry (hs : EntriesKept s) {e : ShmEntry}
    (cells : ℕ → ℕ) {held : DspCache → Option Held}
    (htype : e.mem.physAddr ≠ 0 → e.type = t)
    (hother : ∀ t', t' ≠ t → held t' = s.held t')
    (hheld : ∀ h, held t = some h → e.mem = h.mem ∧
      h.mem.physAddr ≠ 0 ∧ h.mem.virtAddr ≠ 0) :
    EntriesKept ⟨(s.regions.setEntry t e).setPages cells, held⟩ := by
  have hself : ((s.regions.setEntry t e).setPages cells).sharedMem t = e :=
    Function.update_self _ _ _
  have hne (t' : DspCache) (h : t' ≠ t) :
      ((s.regions.setEntry t e).setPages cells).sharedMem t' =
        s.regions.sharedMem t' := Function.update_of_ne h _ _
  constructor
  · intro t' hphys
    by_cases ht : t' = t
    · subst ht
      rw [hself] at hphys ⊢
      exact htype hphys
    · rw [hne t' ht] at hphys ⊢
      exact hs.type_eq t' hphys
  · intro t' h hh
    by_cases ht : t' = t
    · subst ht
      rw [hself]
      exact hheld h hh
    · rw [hne t' ht]
      exact hs.held t' h ((hother t' ht).symm.trans hh)

theorem EntriesKept.alloc (hs : EntriesKept s) {o : ShmAnswers}
    {type : Option DspCache} {numBytes : ℕ} (hvalid : o.Valid)
    (hmap : o.mmapped ≠ 0) :
    EntriesKept ⟨(dspShmAllocAt o type numBytes s.regions).2,
      handOut o type (dspShmAllocAt o type numBytes s.regions).1 s.held⟩ := by
  cases type with
  | none => exact hs
  | some t =>
      by_cases hphys : (s.regions.sharedMem t).mem.physAddr = 0
      · have hnone := hs.held_eq_none hphys
        obtain ⟨mem, cells, hregions, hmem⟩ :=
          exists_entry_dspShmAllocAt o numBytes hphys
        rw [hregions]
        obtain hzero | ⟨hret, hvirt, hgranted⟩ := hmem
        · rw [hzero, handOut_zero]
          refine hs.setEntry cells (fun _ => rfl) (fun _ _ => rfl) ?_
          intro h hh
          exact absurd (hnone.symm.trans hh) (Option.some_ne_none h).symm
        · have hne : mem.physAddr ≠ 0 := by
            intro hzero
            rw [hzero] at hgranted
            exact hvalid hgranted
          rw [hret, handOut_of_ne o t s.held hne]
          refine hs.setEntry cells (fun _ => rfl)
            (fun t' ht => Function.update_of_ne ht _ _) ?_
          intro h hh
          rw [Function.update_self] at hh
          obtain rfl := Option.some.inj hh
          exact ⟨rfl, hne, hvirt ▸ hmap⟩
      · rw [dspShmAllocAt_refused hphys, handOut_zero]
        exact hs

theorem EntriesKept.free (hs : EntriesKept s) :
    EntriesKept ⟨(dspShmFree ret mem s.regions).2,
      takeBack (locGetCacheTypeByMem mem s.regions) s.held⟩ := by
  rw [dspShmFree]
  cases locGetCacheTypeByMem mem s.regions with
  | none => exact hs
  | some t =>
      refine hs.setEntry s.regions.hugetlbPagePhysAddr
        (fun hphys => absurd rfl hphys)
        (fun t' ht => Function.update_of_ne ht _ _) ?_
      intro h hh
      rw [takeBack, Function.update_self] at hh
      exact absurd hh (Option.some_ne_none h).symm

theorem entriesKept_of_reachable {l1Virt l2Virt : ℕ}
    (hs : ((shmMachine l1Virt l2Virt).restrict MapsSomewhere).Reachable s) :
    EntriesKept s := by
  refine Machine.Reachable.invariant ?_ ?_ hs
  · rintro s rfl
    exact entriesKept_opened l1Virt l2Virt
  · rintro s e t hs ⟨hmap, hstep⟩
    cases e with
    | alloc type numBytes o =>
        obtain ⟨hvalid, hnext⟩ := Option.ite_none_right_eq_some.mp hstep
        obtain rfl := Option.some.inj hnext
        exact hs.alloc hvalid hmap
    | free mem ret =>
        obtain rfl := Option.some.inj hstep
        exact hs.free

/-! ## What is released -/

theorem locGetCacheTypeByMem_eq (mem : DspMemRegion) (r : Regions) :
    locGetCacheTypeByMem mem r =
      (findEntry mem r).map fun t => (r.sharedMem t).type := rfl

theorem physAddr_of_findEntry {r : Regions} (h : findEntry mem r = some t) :
    mem.physAddr = (r.sharedMem t).mem.physAddr := by
  have hfound := List.find?_some h
  exact of_decide_eq_true hfound

/-- The address of a region that is handed out is found. -/
theorem EntriesKept.findEntry_ne_none (hs : EntriesKept s)
    (hheld : s.held t = some h) (hphys : h.mem.physAddr = mem.physAddr) :
    findEntry mem s.regions ≠ none := by
  intro hnone
  have hall : t ∈ DspCache.all := by
    cases t <;> decide
  have hne := List.find?_eq_none.mp hnone t hall
  rw [(hs.held t h hheld).1] at hne
  exact hne (decide_eq_true hphys.symm)

/-- What is released is the type that is noted in the entry. -/
theorem dspShmFreeTraced_of_findEntry {r : Regions}
    (hfind : findEntry mem r = some t) :
    dspShmFreeTraced ret mem r =
      let old := (r.sharedMem (r.sharedMem t).type).mem
      ((if old.virtAddr ≠ 0 then [.munmap old.virtAddr old.size] else []) ++
        [.shmFree (r.sharedMem t).type], ret,
        r.setEntry (r.sharedMem t).type ShmEntry.zero) := by
  rw [dspShmFreeTraced, locGetCacheTypeByMem_eq, hfind]
  rfl

/-- An entry whose region is handed out. -/
theorem EntriesKept.releases_of_held (hs : EntriesKept s)
    (hfind : findEntry mem s.regions = some t) (hheld : s.held t = some h) :
    Releases s ret mem := by
  obtain ⟨hmem, hne, hvirt⟩ := hs.held t h hheld
  have hphys := physAddr_of_findEntry hfind
  rw [hmem] at hphys
  have htype : (s.regions.sharedMem t).type = t := by
    refine hs.type_eq t ?_
    rwa [hmem]
  refine .inl ⟨t, h, hheld, hphys.symm, ?_⟩
  rw [dspShmFreeTraced_of_findEntry hfind]
  simp only [htype, hmem, ne_eq, hvirt, not_false_iff, if_true]
  rfl

/-- An entry of which nothing is handed out is released all the same. -/
theorem EntriesKept.not_releases (hs : EntriesKept s)
    (hfind : findEntry mem s.regions = some t) (hnone : s.held t = none) :
    ¬ Releases s ret mem := by
  have hphys := physAddr_of_findEntry hfind
  have hfreed : .shmFree (s.regions.sharedMem t).type ∈
      (dspShmFreeTraced ret mem s.regions).1 := by
    rw [dspShmFreeTraced_of_findEntry hfind]
    exact List.mem_append_right _ List.mem_cons_self
  rintro (⟨t', h', hheld', hphys', heq⟩ | ⟨-, err, -, heq⟩)
  · -- the entry has an address, and so its own type is freed
    have htype : (s.regions.sharedMem t).type = t := by
      refine hs.type_eq t ?_
      rw [← hphys, ← hphys']
      exact (hs.held t' h' hheld').2.1
    rw [heq, htype] at hfreed
    obtain rfl : t = t' := by
      simpa using hfreed
    exact absurd (hnone.symm.trans hheld') (Option.some_ne_none h').symm
  · rw [heq] at hfreed
    exact List.not_mem_nil hfreed

theorem EntriesKept.releases_iff (hs : EntriesKept s) :
    Releases s ret mem ↔ FindsHeld s mem := by
  cases hfind : findEntry mem s.regions with
  | none =>
      refine iff_of_true (.inr ⟨?_, 10, by decide, ?_⟩) ?_
      · intro t h hheld hphys
        exact hs.findEntry_ne_none hheld hphys hfind
      · rw [dspShmFreeTraced, locGetCacheTypeByMem_eq, hfind]
        rfl
      · intro t ht
        exact absurd (hfind.symm.trans ht) (Option.some_ne_none t).symm
  | some t =>
      have hfinds : FindsHeld s mem ↔ s.held t ≠ none := by
        constructor
        · intro hall
          exact hall t hfind
        · intro hne t' ht'
          obtain rfl := Option.some.inj (hfind.symm.trans ht')
          exact hne
      rw [hfinds]
      cases hheld : s.held t with
      | none => exact iff_of_false (hs.not_releases hfind hheld) (absurd rfl)
      | some h =>
          exact iff_of_true (hs.releases_of_held hfind hheld)
            (Option.some_ne_none h)

/-- In every run: a call releases the region with the address of its argument, and
nothing if there is none, exactly if the first entry that is found has been handed
out. -/
theorem releases_iff_findsHeld (l1Virt l2Virt : ℕ)
    (hs : ((shmMachine l1Virt l2Virt).restrict MapsSomewhere).Reachable s)
    (ret : ℤ) (mem : DspMemRegion) :
    Releases s ret mem ↔ FindsHeld s mem :=
  (entriesKept_of_reachable hs).releases_iff

/-! ## Freeing a zeroed region -/

/-- The uncached type is allocated. -/
theorem exists_uncached : ∃ s, ((shmMachine 0xb6f00000 0xb6e00000).restrict
      MapsSomewhere).Reachable s ∧
    findEntry ⟨0x87000000, 0, 0⟩ s.regions = some .none ∧
      findEntry DspMemRegion.zero s.regions = some .rw ∧
      (s.held .rw).isNone :=
  Machine.exists_restrict_reachable_of_run
    (fun s : ShmProcess =>
      findEntry ⟨0x87000000, 0, 0⟩ s.regions = some .none ∧
        findEntry DspMemRegion.zero s.regions = some .rw ∧
        (s.held .rw).isNone)
    [.alloc (some .none) 4096 demoBlock] (by decide +kernel)

theorem releases_iff_findsHeld_uncached : ∃ s,
    findEntry ⟨0x87000000, 0, 0⟩ s.regions = some .none ∧
      ∀ ret mem, Releases s ret mem ↔ FindsHeld s mem := by
  obtain ⟨s, hs, hfind, -⟩ := exists_uncached
  exact ⟨s, hfind, releases_iff_findsHeld _ _ hs⟩

/-- The region of the uncached type is released by a zeroed argument. -/
theorem not_releases_zero :
    ¬ ∀ (l1Virt l2Virt : ℕ) (s : ShmProcess),
      ((shmMachine l1Virt l2Virt).restrict MapsSomewhere).Reachable s →
        ∀ ret mem, Releases s ret mem := by
  intro hall
  obtain ⟨s, hs, -, hfind, hnone⟩ := exists_uncached
  have hreleases := hall _ _ s hs 0 DspMemRegion.zero
  rw [(entriesKept_of_reachable hs).releases_iff] at hreleases
  exact hreleases .rw hfind (Option.isNone_iff_eq_none.mp hnone)

end C64Tools.Shm
