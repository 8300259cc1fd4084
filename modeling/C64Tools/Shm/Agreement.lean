import C64Tools.Shm.Owned

/-!
# The library and the driver agree

The library keeps a table of its shared memory, and so does the driver.  No call
writes to both: an allocation is recorded by the driver first, then by the
library, and the address of the mapping by both on their own; a call may fail
between these.  Nevertheless the tables agree between the calls, and each history
of calls is one of those of the table of the library alone.
-/

namespace C64Tools.Shm

open C64Tools.Kmod Transition Calls

/-- What the driver has recorded of a region in the table of the library, which
holds `mapFailed` where the mapping has failed. -/
def recorded (mem : DspMemRegion) : DspMemRegion :=
  if mem.virtAddr = mapFailed then { mem with virtAddr := 0 } else mem

/-- The entries of the library and of the driver for type `t`. -/
inductive EntryAgrees (t : DspCache) : ShmEntry → ClientShm → Prop
  | free {e : ShmEntry} : e.mem.physAddr = 0 →
      EntryAgrees t e ClientShm.empty
  | held {mem : DspMemRegion} (kvirtAddr : ℕ) : mem.physAddr ≠ 0 →
      EntryAgrees t ⟨t, mem⟩ ⟨kvirtAddr, recorded mem⟩

/-- All entries agree, and memory of the driver is not held twice. -/
structure Agrees (r : Regions) (tbl : ShmTable) : Prop where
  entry : ∀ t, EntryAgrees t (r.sharedMem t) (tbl t)
  apart : ∀ t ∈ DspCache.contig, ∀ t' ∈ DspCache.contig, t' ≠ t →
    (tbl t).dsp.physAddr ≠ 0 →
      (tbl t').dsp.physAddr ≠ (tbl t).dsp.physAddr

variable {filep : ℕ} {i : Slot} {tbl tbl' : ShmTable} {r : Regions}
  {ok : KernelOutcome → Prop} {t : DspCache} {numBytes : ℕ}

theorem EntryAgrees.physAddr {e : ShmEntry} {k : ClientShm}
    (h : EntryAgrees t e k) : k.dsp.physAddr = e.mem.physAddr := by
  cases h with
  | free hphys => exact hphys.symm
  | held =>
      simp only [recorded]
      split <;> rfl

theorem agrees_opened (l1Virt l2Virt : ℕ) :
    Agrees (Regions.opened l1Virt l2Virt) fun _ => ClientShm.empty where
  entry _ := .free rfl
  apart _ _ _ _ _ h := absurd rfl h

namespace Agrees

/-- The driver has nothing for a type without an address. -/
theorem eq_empty (h : Agrees r tbl)
    (hphys : (r.sharedMem t).mem.physAddr = 0) : tbl t = ClientShm.empty := by
  have hentry := h.entry t
  generalize r.sharedMem t = e at hentry hphys
  generalize tbl t = k at hentry
  cases hentry with
  | free => rfl
  | held _ hne => exact absurd hphys hne

theorem setEntry (h : Agrees r tbl) {e : ShmEntry} {k : ClientShm}
    (hentry : EntryAgrees t e k)
    (hfresh : t ∈ DspCache.contig → k.dsp.physAddr ≠ 0 →
      ∀ t' ∈ DspCache.contig, t' ≠ t →
        (tbl t').dsp.physAddr ≠ k.dsp.physAddr) :
    Agrees (r.setEntry t e) (Function.update tbl t k) where
  entry t' := by
    by_cases ht : t' = t
    · subst ht
      rw [sharedMem_setEntry, Function.update_self]
      exact hentry
    · rw [sharedMem_setEntry_of_ne r e ht, Function.update_of_ne ht]
      exact h.entry t'
  apart u hu u' hu' hne hphys := by
    by_cases hut : u = t
    · subst hut
      rw [Function.update_self] at hphys ⊢
      rw [Function.update_of_ne hne]
      exact hfresh hu hphys u' hu' hne
    · rw [Function.update_of_ne hut] at hphys ⊢
      by_cases hut' : u' = t
      · subst hut'
        rw [Function.update_self]
        intro heq
        exact hfresh hu' (heq ▸ hphys) u hu hut heq.symm
      · rw [Function.update_of_ne hut']
        exact h.apart u hu u' hu' hne hphys

/-- An entry without an address may be anything else. -/
theorem setEntry_free (h : Agrees r tbl) {e : ShmEntry}
    (hempty : tbl t = ClientShm.empty) (he : e.mem.physAddr = 0) :
    Agrees (r.setEntry t e) tbl := by
  have hset := h.setEntry (t := t) (.free he) fun _ hne => absurd rfl hne
  rwa [← hempty, Function.update_eq_self] at hset

theorem setPages (h : Agrees r tbl) (cells : ℕ → ℕ) :
    Agrees (r.setPages cells) tbl :=
  ⟨h.entry, h.apart⟩

end Agrees

/-! ## Freeing -/

/-- The table of the driver after `dsp_shm_free()`. -/
def freedTable (mem : DspMemRegion) (r : Regions) (tbl : ShmTable) :
    ShmTable :=
  match locGetCacheTypeByMem mem r with
  | some t => Function.update tbl t ClientShm.empty
  | none => tbl

/-- The driver frees what the library does. -/
theorem Agrees.freed (h : Agrees r tbl) (ret : ℤ) (mem : DspMemRegion) :
    Agrees (dspShmFree ret mem r).2 (freedTable mem r tbl) := by
  unfold dspShmFree freedTable
  cases locGetCacheTypeByMem mem r with
  | none => exact h
  | some t => exact h.setEntry (.free rfl) fun _ hne => absurd rfl hne

/-- `SHM_FREE` always succeeds. -/
theorem triple_dspShmFreeCalls (mem : DspMemRegion) (r : Regions) :
    (shmShared filep ok).Triple (Owns filep i tbl) (dspShmFreeCalls mem r)
      fun res s => res = dspShmFree 0 mem r ∧
        Owns filep i (freedTable mem r tbl) s := by
  unfold dspShmFreeCalls dspShmFree freedTable
  cases locGetCacheTypeByMem mem r with
  | none => exact Shared.triple_ret stable_owns fun s hs => ⟨rfl, hs⟩
  | some t =>
      have hfree : (shmShared filep ok).Triple (Owns filep i tbl)
          (.call (.shmFree t) fun ret => .ret (ret, r.setEntry t ShmEntry.zero))
          fun res s => res = (0, r.setEntry t ShmEntry.zero) ∧
            Owns filep i (Function.update tbl t ClientShm.empty) s := by
        refine triple_owns_call fun o sections c _ _ hc htbl => ?_
        rw [serveClient_shmFree hc]
        subst htbl
        exact Shared.triple_ret stable_owns fun s hs => ⟨rfl, hs⟩
      simp only
      split
      · refine triple_owns_call fun o sections c _ _ _ htbl => ?_
        subst htbl
        exact hfree
      · exact hfree

/-! ## Allocating -/

/-- The library has no address for the type, and the size is not rounded to
nothing. -/
def Available (r : Regions) (t : DspCache) (numBytes : ℕ) : Prop :=
  (r.sharedMem t).mem.physAddr = 0 ∧ shmRound t numBytes ≠ 0

/-- What `dsp_shm_alloc_at()` has done when it returns: it has gone one of the
ways of the table alone; the tables agree again; entries that cannot be allocated
are what they were; a region that is returned is the one that the driver has
recorded; and if the kernel refuses nothing, there is one. -/
structure AllocDone (ok : KernelOutcome → Prop) (type : Option DspCache)
    (numBytes : ℕ) (r : Regions) (tbl : ShmTable)
    (res : DspMemRegion × Regions) (tbl' : ShmTable) : Prop where
  answered : ∃ o : ShmAnswers, o.Valid ∧
    dspShmAllocAt o type numBytes r = res
  agrees : Agrees res.2 tbl'
  kept : ∀ t, (type = some t → (r.sharedMem t).mem.physAddr ≠ 0) →
    tbl' t = tbl t
  returned : res.1 ≠ DspMemRegion.zero → ∃ t, type = some t ∧
    Available r t numBytes ∧ (tbl' t).dsp = res.1 ∧ res.1.physAddr ≠ 0 ∧
    res.1.size = shmRound t numBytes
  granted : (∀ o, ok o → o.Grants) → ∀ t, type = some t →
    Available r t numBytes → res.1 ≠ DspMemRegion.zero

theorem mmapValue_start {o : KernelOutcome} {c : ClientMem}
    (ho : o.Valid c) {start : ℕ} (hstart : start ∈ o.vmStart) :
    mmapValue (some start) = start ∧ start ≠ mapFailed := by
  have hlt := ho.start_lt start hstart
  have hdvd := ho.start_dvd start hstart
  refine ⟨Nat.mod_eq_of_lt hlt, ?_⟩
  rintro rfl
  exact absurd hdvd (by decide)

theorem recorded_of_ne {mem : DspMemRegion} (h : mem.virtAddr ≠ mapFailed) :
    recorded mem = mem :=
  if_neg h

theorem shmRound_dvd (ht : t ≠ .hugetlb) (numBytes : ℕ) :
    4096 ∣ shmRound t numBytes := by
  cases t with
  | hugetlb => exact absurd rfl ht
  | none | rw | r | w =>
      simp only [shmRound, shmPageshift, dspPageshift, u32, Nat.shiftLeft_eq,
        Nat.shiftRight_eq_div_pow]
      omega

/-- An allocation that the driver does not grant. -/
theorem allocDone_asked (h : Agrees r tbl) {o : ShmAnswers} {e : ShmEntry}
    (hphys : (r.sharedMem t).mem.physAddr = 0) (he : e.mem.physAddr = 0)
    (ho : o.shmAlloc = none)
    (hres : dspShmAllocAt o (some t) numBytes r =
      (DspMemRegion.zero, r.setEntry t e))
    (hno : shmRound t numBytes ≠ 0 → ¬ ∀ o, ok o → o.Grants) :
    AllocDone ok (some t) numBytes r tbl
      (DspMemRegion.zero, r.setEntry t e) tbl where
  answered := ⟨o, by simp [ShmAnswers.Valid, ho], hres⟩
  agrees := h.setEntry_free (h.eq_empty hphys) he
  kept _ _ := rfl
  returned hne := absurd rfl hne
  granted hall t' ht' havail := by
    obtain rfl := Option.some.inj ht'
    exact absurd hall (hno havail.2)

/-- An allocation that the driver grants. -/
theorem allocDone_granted {o : ShmAnswers} {mem ret : DspMemRegion}
    {regions : Regions} {kvirtAddr : ℕ} (ho : o.Valid)
    (hphys : (r.sharedMem t).mem.physAddr = 0)
    (hres : dspShmAllocAt o (some t) numBytes r = (ret, regions))
    (hagrees : Agrees regions
      (Function.update tbl t ⟨kvirtAddr, recorded mem⟩))
    (hmem : mem.physAddr ≠ 0) (hsize : mem.size = shmRound t numBytes)
    (hret : ret = mem ∧ mem.virtAddr ≠ mapFailed ∧ shmRound t numBytes ≠ 0 ∨
      ret = DspMemRegion.zero ∧
        (shmRound t numBytes ≠ 0 → ¬ ∀ o, ok o → o.Grants)) :
    AllocDone ok (some t) numBytes r tbl (ret, regions)
      (Function.update tbl t ⟨kvirtAddr, recorded mem⟩) where
  answered := ⟨o, ho, hres⟩
  agrees := hagrees
  kept t' ht' := by
    refine Function.update_of_ne ?_ _ _
    rintro rfl
    exact ht' rfl hphys
  returned hne := by
    obtain ⟨rfl, hvirt, hpos⟩ | ⟨hzero, -⟩ := hret
    · refine ⟨t, rfl, ⟨hphys, hpos⟩, ?_, hmem, hsize⟩
      rw [Function.update_self]
      exact recorded_of_ne hvirt
    · exact absurd hzero hne
  granted hall t' ht' havail := by
    obtain rfl := Option.some.inj ht'
    obtain ⟨rfl, -⟩ | ⟨-, hno⟩ := hret
    · rintro rfl
      exact hmem rfl
    · exact absurd hall (hno havail.2)

theorem grantedShm_contig (ht : t ≠ .hugetlb) (o : ShmOutcome)
    (size virt : ℕ) :
    grantedShm o size virt t = ⟨o.kVirtAddr, ⟨o.dmaAddr, 0, size⟩⟩ := by
  cases t with
  | hugetlb => exact absurd rfl ht
  | none | rw | r | w => rfl

theorem kVirtAddr_of_granted (ht : t ≠ .hugetlb) {o : ShmOutcome}
    {c : ClientMem} (h : ShmGranted o t c) : o.kVirtAddr ≠ 0 := by
  cases t with
  | hugetlb => exact absurd rfl ht
  | none | rw | r | w => exact h.2

/-- Memory that the driver has granted is mapped, and recorded by the library
with or without an address. -/
theorem triple_mapContigCalls (h : Agrees r tbl) (ht : t ≠ .hugetlb)
    (hphys : (r.sharedMem t).mem.physAddr = 0) {kvirtAddr dma : ℕ}
    (hdma : dma ≠ 0) (hlt : dma < 2 ^ 32) (hdvd : 4096 ∣ dma)
    (hfresh : ∀ t' ∈ DspCache.contig, t' ≠ t → (tbl t').dsp.physAddr ≠ dma) :
    (shmShared filep ok).Triple
      (Owns filep i (Function.update tbl t
        ⟨kvirtAddr, ⟨dma, 0, shmRound t numBytes⟩⟩))
      (mapContigCalls t ⟨dma, 0, shmRound t numBytes⟩ r)
      fun res s => ∃ tbl', Owns filep i tbl' s ∧
        AllocDone ok (some t) numBytes r tbl res tbl' := by
  have hcontig : t ∈ DspCache.contig := by
    cases t <;> first | decide | exact absurd rfl ht
  have hvalid (answer : Option ℕ) :
      ShmAnswers.Valid ⟨answer, some dma, fun _ => none⟩ := by
    simp [ShmAnswers.Valid, u32_of_lt hlt, hdma]
  have hres (answer : Option ℕ) : dspShmAllocAt
      ⟨answer, some dma, fun _ => none⟩ (some t) numBytes r = _ :=
    dspShmAllocAt_contig ht hphys
  have hagrees (virt : ℕ) :
      let mem : DspMemRegion := ⟨dma, virt, shmRound t numBytes⟩
      Agrees (r.setEntry t ⟨t, mem⟩)
        (Function.update tbl t ⟨kvirtAddr, recorded mem⟩) := by
    intro mem
    have hheld : EntryAgrees t ⟨t, mem⟩ ⟨kvirtAddr, recorded mem⟩ :=
      .held _ hdma
    refine h.setEntry hheld fun _ _ t' ht' hne => ?_
    rw [hheld.physAddr]
    exact hfresh t' ht' hne
  refine triple_owns_call fun o sections c ho hok hc htbl => ?_
  have hentry : c.shm t = ⟨kvirtAddr, ⟨dma, 0, shmRound t numBytes⟩⟩ := by
    rw [htbl, Function.update_self]
  obtain ⟨hpos, start, hstart, hmap⟩ | ⟨hno, hmap⟩ :=
    serveClient_mmap o sections hcontig hentry rfl
      (shmRound_dvd ht numBytes) hlt hdvd (by
        intro t' ht' hne
        rw [htbl, Function.update_of_ne hne]
        exact hfresh t' ht' hne)
  · obtain ⟨hvalue, hne⟩ := mmapValue_start ho hstart
    rw [hmap]
    dsimp only
    rw [hvalue, if_pos hne]
    refine Shared.triple_ret stable_owns fun s hs => ⟨_, ?_,
      allocDone_granted (hvalid (some start)) hphys ?_ (hagrees start) hdma rfl
        (Or.inl ⟨rfl, hne, hpos.ne'⟩)⟩
    · rw [ClientMem.setShm, htbl, Function.update_idem] at hs
      rwa [recorded_of_ne hne]
    · have hmapped : ShmAnswers.mmapped ⟨some start, some dma,
          fun _ => none⟩ = start := hvalue
      rw [hres]
      simp only [hmapped, ne_eq, hne, not_false_iff, if_true, u32_of_lt hlt]
  · rw [hmap]
    dsimp only
    rw [mmapValue, if_neg (not_not.mpr rfl), htbl]
    refine Shared.triple_ret stable_owns fun s hs => ⟨_, hs,
      allocDone_granted (hvalid none) hphys ?_ (hagrees mapFailed) hdma rfl
        (Or.inr ⟨rfl, fun hpos hall => ?_⟩)⟩
    · rw [hres]
      simp only [ShmAnswers.mmapped, ne_eq, not_true, if_false, u32_of_lt hlt]
    · exact hno (Nat.pos_of_ne_zero hpos) (hall o hok)

/-- Memory of the driver is recorded by the driver first. -/
theorem triple_allocContigCalls (h : Agrees r tbl) (ht : t ≠ .hugetlb)
    (hphys : (r.sharedMem t).mem.physAddr = 0) :
    (shmShared filep ok).Triple (Owns filep i tbl)
      (allocContigCalls t (shmRound t numBytes) r)
      fun res s => ∃ tbl', Owns filep i tbl' s ∧
        AllocDone ok (some t) numBytes r tbl res tbl' := by
  have hempty := h.eq_empty hphys
  refine triple_owns_call fun o sections c ho hok hc htbl => ?_
  subst htbl
  obtain ⟨hgranted, hserve⟩ | ⟨hno, hnone, hsame⟩ :=
    serveClient_shmAlloc o sections (shmRound t numBytes)
      (r.sharedMem t).mem.virtAddr hempty
  · have hkvirt := kVirtAddr_of_granted ht hgranted
    rw [hserve, grantedShm_contig ht]
    exact triple_mapContigCalls h ht hphys (ho.handsOut hkvirt) ho.dma_lt
      ho.dma_dvd fun t' ht' _ => ho.dma_fresh hkvirt t' ht'
  · rw [hnone, hsame]
    refine Shared.triple_ret stable_owns fun s hs => ⟨_, hs, ?_⟩
    exact allocDone_asked (o := ⟨none, none, fun _ => none⟩) h hphys rfl rfl
      (dspShmAllocAt_contig ht hphys) fun _ hall => hno (hall o hok)

/-! ## Huge pages -/

theorem storePages_congr {pageAt pageAt' : ℕ → Option ℕ} (left pageNr : ℕ)
    (cells : ℕ → ℕ)
    (h : ∀ k, pageNr ≤ k → k < pageNr + left → pageAt k = pageAt' k) :
    storePages pageAt left pageNr cells =
      storePages pageAt' left pageNr cells := by
  induction left generalizing pageNr cells with
  | zero => rfl
  | succ left ih =>
      rw [storePages, storePages, h pageNr le_rfl (by omega)]
      cases pageAt' pageNr with
      | none => rfl
      | some addr => exact ih _ _ fun k hle hlt => h k (by omega) (by omega)

/-- The loop does with the answers of the driver what it does with answers for
the numbers of the pages. -/
theorem triple_storePagesCalls (virt left pageNr : ℕ) (cells : ℕ → ℕ) :
    (shmShared filep ok).Triple (Owns filep i tbl)
      (storePagesCalls virt left pageNr cells)
      fun res s => ((∃ pageAt : ℕ → Option ℕ,
          storePages (fun k => (pageAt k).map u32) left pageNr cells = res) ∧
        ((∀ o, ok o → o.Grants) → res.1 = true)) ∧ Owns filep i tbl s := by
  induction left generalizing pageNr cells with
  | zero =>
      refine Shared.triple_ret stable_owns fun s hs => ⟨⟨?_, fun _ => rfl⟩, hs⟩
      exact ⟨fun _ => none, rfl⟩
  | succ left ih =>
      refine triple_owns_call fun o sections c _ hok _ htbl => ?_
      subst htbl
      cases hpage : o.page with
      | none =>
          simp only [serveClient, hpage]
          refine Shared.triple_ret stable_owns fun s hs => ⟨⟨?_, ?_⟩, hs⟩
          · exact ⟨fun _ => none, rfl⟩
          · exact fun hall => absurd hpage (hall o hok).page
      | some addr =>
          simp only [serveClient, hpage]
          refine (ih (pageNr + 1) _).mono ?_
          rintro res s ⟨⟨⟨pageAt, hpages⟩, hall⟩, hs⟩
          refine ⟨⟨⟨Function.update pageAt pageNr (some addr), ?_⟩, hall⟩, hs⟩
          rw [storePages, Function.update_self, Option.map_some, ← hpages]
          refine storePages_congr _ _ _ fun k hk _ => ?_
          rw [Function.update_of_ne (by omega)]

/-- Answers by the numbers of the pages, as answers by their addresses. -/
theorem pageAt_of_number (o : ShmAnswers) (pageAt : ℕ → Option ℕ) {virt k : ℕ}
    (hk : k < 2048) (h : o.hugetlbV2p = fun addr =>
      pageAt (u32Sub addr virt >>> dspHugetlbPageshift)) :
    o.pageAt virt k = (pageAt k).map u32 := by
  have hnumber : u32Sub (u32 (virt + k <<< dspHugetlbPageshift)) virt >>>
      dspHugetlbPageshift = k := by
    simp only [u32Sub, u32, dspHugetlbPageshift, Nat.shiftLeft_eq,
      Nat.shiftRight_eq_div_pow]
    omega
  rw [ShmAnswers.pageAt, h]
  simp only [hnumber]

/-- Huge pages that the driver has registered are recorded by the library, with
or without all of their addresses. -/
theorem triple_locateHugetlbCalls (h : Agrees r tbl)
    (hphys : (r.sharedMem .hugetlb).mem.physAddr = 0) {answer : Option ℕ}
    {phys : ℕ} (hmap : mmapValue answer ≠ mapFailed) (hne : phys ≠ 0)
    (hlt : phys < 2 ^ 32) (hpos : shmRound .hugetlb numBytes ≠ 0) :
    let mem : DspMemRegion :=
      ⟨phys, mmapValue answer, shmRound .hugetlb numBytes⟩
    (shmShared filep ok).Triple
      (Owns filep i (Function.update tbl .hugetlb ⟨0, mem⟩))
      (locateHugetlbCalls (shmRound .hugetlb numBytes) mem r)
      fun res s => ∃ tbl', Owns filep i tbl' s ∧
        AllocDone ok (some .hugetlb) numBytes r tbl res tbl' := by
  intro mem
  obtain ⟨-, hpages⟩ := shmRound_hugetlb numBytes
  have hrecorded : recorded mem = mem := recorded_of_ne hmap
  have hagrees : Agrees (r.setEntry .hugetlb ⟨.hugetlb, mem⟩)
      (Function.update tbl .hugetlb ⟨0, recorded mem⟩) := by
    exact h.setEntry (.held 0 hne) fun hcontig => absurd hcontig (by decide)
  have hcount : shmRound .hugetlb numBytes >>> dspHugetlbPageshift ≤ 2048 := by
    simp only [shmRound, shmPageshift, u32, dspHugetlbPageshift,
      Nat.shiftRight_eq_div_pow]
    omega
  simp only [locateHugetlbCalls, mem, ne_eq, hmap, not_false_iff, if_true,
    hpages]
  refine Shared.triple_bind _ (triple_storePagesCalls _ _ _ _) fun res =>
    Shared.triple_of_imp ?_
  obtain ⟨done, cells⟩ := res
  rintro ⟨⟨pageAt, hstore⟩, hall⟩
  let o : ShmAnswers := ⟨answer, some phys, fun addr =>
    pageAt (u32Sub addr (mmapValue answer) >>> dspHugetlbPageshift)⟩
  have hvalid : o.Valid := by
    simp [ShmAnswers.Valid, o, u32_of_lt hlt, hne]
  have hmapped : o.mmapped = mmapValue answer := rfl
  have hstore' : storePages (o.pageAt o.mmapped)
      (shmRound .hugetlb numBytes >>> dspHugetlbPageshift) 0
      r.hugetlbPagePhysAddr = (done, cells) := by
    rw [← hstore]
    refine storePages_congr _ _ _ fun k _ hk => ?_
    exact pageAt_of_number o pageAt (by omega) rfl
  have hres : dspShmAllocAt o (some .hugetlb) numBytes r = _ :=
    dspShmAllocAt_pages hphys (hmapped ▸ hmap) rfl hstore'
  rw [u32_of_lt hlt, hmapped] at hres
  have hdone {ret : DspMemRegion} (hret : ret = mem ∧
        mem.virtAddr ≠ mapFailed ∧ shmRound .hugetlb numBytes ≠ 0 ∨
          ret = DspMemRegion.zero ∧
            (shmRound .hugetlb numBytes ≠ 0 → ¬ ∀ o, ok o → o.Grants))
      (hif : (if done then mem else DspMemRegion.zero) = ret) :
      AllocDone ok (some .hugetlb) numBytes r tbl
        (ret, (r.setEntry .hugetlb ⟨.hugetlb, mem⟩).setPages cells)
        (Function.update tbl .hugetlb ⟨0, recorded mem⟩) :=
    allocDone_granted hvalid hphys (hif ▸ hres) (hagrees.setPages cells) hne rfl
      hret
  rw [hrecorded] at hdone
  cases done with
  | true =>
      refine Shared.triple_ret stable_owns fun s hs => ⟨_, hs, ?_⟩
      exact hdone (Or.inl ⟨rfl, hmap, hpos⟩) rfl
  | false =>
      refine triple_owns_call fun _ _ c _ _ _ htbl => ?_
      refine Shared.triple_ret stable_owns fun s hs => ⟨_, htbl ▸ hs, ?_⟩
      refine hdone (Or.inr ⟨rfl, fun _ hgrants => ?_⟩) rfl
      exact Bool.false_ne_true (hall hgrants)

/-- Huge pages are mapped first, then registered by the driver. -/
theorem triple_allocHugetlbCalls (h : Agrees r tbl)
    (hphys : (r.sharedMem .hugetlb).mem.physAddr = 0) :
    (shmShared filep ok).Triple (Owns filep i tbl)
      (allocHugetlbCalls (shmRound .hugetlb numBytes) r)
      fun res s => ∃ tbl', Owns filep i tbl' s ∧
        AllocDone ok (some .hugetlb) numBytes r tbl res tbl' := by
  have hempty := h.eq_empty hphys
  refine triple_owns_call fun o sections c ho hok _ htbl => ?_
  subst htbl
  obtain ⟨answer, hserve, hzero, hroom⟩ :=
    serveClient_mmapHugetlb o sections c (shmRound .hugetlb numBytes)
  rw [hserve]
  dsimp only
  by_cases hmap : mmapValue answer = mapFailed
  · rw [if_pos hmap]
    refine Shared.triple_ret stable_owns fun s hs => ⟨_, hs, ?_⟩
    refine allocDone_asked (o := ⟨answer, none, fun _ => none⟩) h hphys rfl
      rfl ?_ fun hpos hall => ?_
    · rw [hmap]
      exact dspShmAllocAt_mmap_failed hphys hmap
    · obtain ⟨start, hstart⟩ :=
        Option.ne_none_iff_exists'.mp (hall o hok).start
      obtain ⟨hvalue, hne⟩ := mmapValue_start ho hstart
      rw [hroom hpos, hstart, hvalue] at hmap
      exact hne hmap
  · rw [if_neg hmap]
    have hpos : shmRound .hugetlb numBytes ≠ 0 := by
      intro hsize
      rw [hzero hsize] at hmap
      exact hmap rfl
    refine triple_owns_call fun o' sections' c' ho' hok' _ htbl => ?_
    obtain ⟨hgranted, hserve⟩ | ⟨hno, hnone, hsame⟩ :=
      serveClient_shmAlloc o' sections' (shmRound .hugetlb numBytes)
        (mmapValue answer) (htbl ▸ hempty)
    · rw [hserve, ClientMem.setShm, htbl]
      exact triple_locateHugetlbCalls h hphys hmap hgranted ho'.hugetlb_lt hpos
    · rw [hnone, hsame, htbl]
      refine Shared.triple_ret stable_owns fun s hs => ⟨_, hs, ?_⟩
      exact allocDone_asked (o := ⟨answer, none, fun _ => none⟩) h hphys rfl
        rfl (dspShmAllocAt_ioctl_failed hphys rfl) fun _ hall =>
          hno (hall o' hok')

/-- An allocation that is refused without a call. -/
theorem allocDone_refused (h : Agrees r tbl) {type : Option DspCache}
    (hres : ∀ o, dspShmAllocAt o type numBytes r = (DspMemRegion.zero, r))
    (hno : ∀ t, type = some t → (r.sharedMem t).mem.physAddr ≠ 0) :
    AllocDone ok type numBytes r tbl (DspMemRegion.zero, r) tbl where
  answered :=
    ⟨⟨none, none, fun _ => none⟩, by simp [ShmAnswers.Valid], hres _⟩
  agrees := h
  kept _ _ := rfl
  returned hne := absurd rfl hne
  granted _ t ht havail := absurd havail.1 (hno t ht)

/-- `dsp_shm_alloc_at()` against the driver. -/
theorem triple_dspShmAllocAtCalls (h : Agrees r tbl)
    (type : Option DspCache) (numBytes : ℕ) :
    (shmShared filep ok).Triple (Owns filep i tbl)
      (dspShmAllocAtCalls type numBytes r)
      fun res s => ∃ tbl', Owns filep i tbl' s ∧
        AllocDone ok type numBytes r tbl res tbl' := by
  unfold dspShmAllocAtCalls
  cases type with
  | none =>
      refine Shared.triple_ret stable_owns fun s hs => ⟨_, hs, ?_⟩
      exact allocDone_refused h (fun _ => rfl) nofun
  | some t =>
      simp only
      by_cases hphys : (r.sharedMem t).mem.physAddr = 0
      · rw [if_pos hphys]
        by_cases ht : t = .hugetlb
        · subst ht
          rw [if_pos rfl]
          exact triple_allocHugetlbCalls h hphys
        · rw [if_neg ht]
          exact triple_allocContigCalls h ht hphys
      · rw [if_neg hphys]
        refine Shared.triple_ret stable_owns fun s hs => ⟨_, hs, ?_⟩
        refine allocDone_refused h (fun _ => dspShmAllocAt_refused hphys) ?_
        rintro _ ⟨⟩
        exact hphys

end C64Tools.Shm
