import C64Tools.Kmod.Minim.Layout

/-!
# The allocator acts on rows of superblocks

One specification lemma for each operation of the allocator: on the heap of a
row it returns the heap of the row after a letting, or after a tenant has
left.  All later facts about the allocator use these lemmas and not the code.
-/

namespace C64Tools.Kmod

open Tiling

variable {κ : Type*}

/-! ## Initialization -/

theorem minimInit_represents {numBlocks : ℕ} (hpos : 0 < numBlocks)
    (blockSizeShift physAddrBase : ℕ) :
    Represents
      (minimInit numBlocks blockSizeShift physAddrBase : Minim κ)
      [⟨numBlocks, none, hpos⟩] where
  blocks_eq := by
    obtain ⟨n, rfl⟩ := Nat.exists_eq_succ_of_ne_zero hpos.ne'
    simp [minimInit, superblock, headBlock, List.replicate_succ,
      MinimBlock.blank]
  numBlocks_eq := by simp [minimInit]
  coalesced := List.isChain_singleton _

/-! ## The search for the best match -/

/-- What the search has found among the superblocks it has passed. -/
def Found (row : List (Plot κ)) (k : ℕ) : Option ℕ → Prop
  | none => NoFit row k
  | some fr => ∃ p, BestFit row k fr p

/-- From any superblock on the search ends, and what it returns is right for
the whole heap.  Induction on the superblocks that are still ahead. -/
theorem findBestMatch_found {mm : Minim κ} {k : ℕ} (after : List (Plot κ)) :
    ∀ (before : List (Plot κ)) (fuel : ℕ) (best : Option ℕ),
      Represents mm (before ++ after) → after.length < fuel →
      Found before k best →
      ∃ result, findBestMatch mm k fuel (span before) best = some result ∧
        Found (before ++ after) k result := by
  induction after with
  | nil =>
      intro before fuel best h hfuel hbest
      obtain ⟨fuel, rfl⟩ := Nat.exists_eq_succ_of_ne_zero (Nat.ne_zero_of_lt hfuel)
      refine ⟨best, ?_, by simpa using hbest⟩
      have hend : ¬span before < mm.numBlocks := by
        rw [h.numBlocks_eq]
        simp
      simp [findBestMatch, hend]
  | cons p after ih =>
      intro before fuel best h hfuel hbest
      obtain ⟨fuel, rfl⟩ := Nat.exists_eq_succ_of_ne_zero (Nat.ne_zero_of_lt hfuel)
      have hpos := p.size_pos
      have hlt : span before < mm.numBlocks := by
        rw [h.numBlocks_eq]
        simp
        omega
      have hhead : mm.block (span before) = headBlock p :=
        h.block_head (plotAt_middle before p after)
      have hnext : ∀ best', Found (before ++ [p]) k best' →
          ∃ result,
            findBestMatch mm k fuel (span before + p.size) best' =
              some result ∧ Found (before ++ p :: after) k result := by
        intro best' hbest'
        have hrow : Represents mm ((before ++ [p]) ++ after) := by
          simpa using h
        obtain ⟨result, hresult, hfound⟩ :=
          ih (before ++ [p]) fuel best' hrow (by simpa using hfuel) hbest'
        exact ⟨result, by simpa using hresult, by simpa using hfound⟩
      rw [findBestMatch, if_pos hlt]
      simp only [hhead]
      cases hp : p.tenant with
      | some c =>
          rw [freeCount_headBlock_of_held hp, allocCount_headBlock_of_held hp,
            if_neg (lt_irrefl 0)]
          apply hnext
          cases best with
          | none => exact NoFit.concat hbest (by simp [hp])
          | some fr =>
              obtain ⟨q, hq⟩ := hbest
              exact ⟨q, hq.concat (by simp [hp])⟩
      | none =>
          rw [freeCount_headBlock hp, if_pos hpos]
          apply hnext
          by_cases hfits : k ≤ p.size
          · rw [if_pos hfits]
            cases best with
            | none => exact ⟨p, NoFit.bestFit hbest hp hfits⟩
            | some fr =>
                obtain ⟨q, hq⟩ := hbest
                have hqhead : mm.block fr = headBlock q :=
                  h.block_head (plotAt_append.mpr (Or.inl hq.plotAt))
                simp only [hqhead, freeCount_headBlock hq.vacant]
                split
                next hless => exact ⟨p, hq.improve hp hfits hless⟩
                next hless =>
                  exact ⟨q, hq.concat fun _ _ => Nat.le_of_not_lt hless⟩
          · rw [if_neg hfits]
            cases best with
            | none => exact NoFit.concat hbest fun _ => Nat.lt_of_not_le hfits
            | some fr =>
                obtain ⟨q, hq⟩ := hbest
                exact ⟨q, hq.concat fun _ h => absurd h hfits⟩

theorem length_le_span (row : List (Plot κ)) : row.length ≤ span row := by
  induction row with
  | nil => simp
  | cons p row ih =>
      have hpos := p.size_pos
      simp
      omega

/-- The search of `minim_alloc` over the whole heap. -/
theorem findBestMatch_represents {mm : Minim κ} {row : List (Plot κ)}
    (h : Represents mm row) (k : ℕ) :
    ∃ result, findBestMatch mm k (mm.numBlocks + 1) 0 none = some result ∧
      Found row k result := by
  refine findBestMatch_found row [] _ none h ?_ ?_
  · rw [h.numBlocks_eq]
    exact Nat.lt_succ_of_le (length_le_span row)
  · intro off p hp
    exact absurd hp not_plotAt_nil

/-! ## Taking blocks -/

theorem clearFreeCounts_eq_self {mm : Minim κ} {fr k : ℕ}
    (h : ∀ i, 0 < i → i < k → (mm.block (fr + i)).freeCount = 0) :
    clearFreeCounts mm fr k = mm := by
  have hclear : ∀ is : List ℕ,
      (∀ i ∈ is, (mm.block (fr + i)).freeCount = 0) →
      is.foldl (fun mm i =>
        mm.update (fr + i) fun b => { b with freeCount := 0 }) mm = mm := by
    intro is
    induction is with
    | nil => exact fun _ => rfl
    | cons i is ih =>
        intro hzero
        rw [List.foldl_cons, update_eq_self]
        · exact ih fun j hj => hzero j (List.mem_cons_of_mem i hj)
        · rw [← hzero i List.mem_cons_self]
  apply hclear
  intro i hi
  rw [List.mem_range'_1] at hi
  exact h i (by omega) (by omega)

/-- The blank blocks of two neighbouring superblocks and the head between
them. -/
theorem replicate_append_cons {α : Type*} (x : α) {k m : ℕ} (hk : 0 < k)
    (hm : 0 < m) (rest : List α) :
    List.replicate (k - 1) x ++ x :: (List.replicate (m - 1) x ++ rest) =
      List.replicate (k + m - 1) x ++ rest := by
  rw [← List.cons_append, ← List.replicate_succ, ← List.append_assoc,
    List.replicate_append_replicate]
  congr 2
  omega

/-- Taking the front of a free superblock lets it to the client. -/
theorem takeBlocks_eq {mm : Minim κ} {before after : List (Plot κ)}
    {n k : ℕ} {hn : 0 < n} (hk : 0 < k) (hkn : k ≤ n) (cl : κ)
    (h : Represents mm (before ++ ⟨n, none, hn⟩ :: after)) :
    takeBlocks mm cl (span before) k =
      { mm with
        blocks := blocksOf (before ++
          ⟨k, some cl, hk⟩ :: (remainder (n - k) ++ after)) } := by
  have hblocks : mm.blocks = blocksOf before ++ ⟨0, n, none⟩ ::
      (List.replicate (n - 1) MinimBlock.blank ++ blocksOf after) := by
    simp [h.blocks_eq, superblock, headBlock]
  have hlen : span before = (blocksOf before).length := by simp
  have hclear : clearFreeCounts
      { mm with blocks := blocksOf before ++ ⟨k, n, none⟩ ::
        (List.replicate (n - 1) MinimBlock.blank ++ blocksOf after) }
      (span before) k =
      { mm with blocks := blocksOf before ++ ⟨k, n, none⟩ ::
        (List.replicate (n - 1) MinimBlock.blank ++ blocksOf after) } := by
    apply clearFreeCounts_eq_self
    intro i hpos hlt
    have hget : (List.replicate (n - 1) (MinimBlock.blank : MinimBlock κ) ++
        blocksOf after).getD (i - 1) MinimBlock.blank =
          MinimBlock.blank := by
      rw [List.getD_append _ _ _ _ (by simp; omega)]
      simp
    obtain ⟨j, rfl⟩ : ∃ j, i = j + 1 := ⟨i - 1, by omega⟩
    simp only [Minim.block]
    rw [List.getD_append_right _ _ _ _ (by simp), length_blocksOf,
      Nat.add_sub_cancel_left, List.getD_cons_succ]
    rw [Nat.add_sub_cancel] at hget
    rw [hget]
    rfl
  unfold takeBlocks
  simp only
  rw [update_at hblocks hlen, hclear, block_at rfl hlen]
  rcases Nat.lt_or_eq_of_le hkn with hlt | rfl
  · have hrest : 0 < n - k := by omega
    have hsplit : blocksOf before ++ (⟨k, n, none⟩ : MinimBlock κ) ::
        (List.replicate (n - 1) MinimBlock.blank ++ blocksOf after) =
        (blocksOf before ++ ⟨k, n, none⟩ ::
          List.replicate (k - 1) MinimBlock.blank) ++ MinimBlock.blank ::
            (List.replicate (n - k - 1) MinimBlock.blank ++
              blocksOf after) := by
      have hsum := replicate_append_cons (MinimBlock.blank : MinimBlock κ) hk
        hrest (blocksOf after)
      rw [Nat.add_sub_cancel' hkn] at hsum
      rw [← hsum]
      simp
    rw [if_pos hlt, hsplit, update_blocks mm _ _ _ _ _ (by simp; omega),
      List.append_assoc, List.cons_append, update_blocks mm _ _ _ _ _ hlen]
    simp [superblock, headBlock, remainder, hrest, MinimBlock.blank]
  · rw [if_neg (lt_irrefl k), update_blocks mm _ _ _ _ _ hlen]
    simp [superblock, headBlock, remainder]

/-- Number of blocks that `minim_alloc` takes for a request. -/
def Minim.blocksFor (mm : Minim κ) (numBytes : ℕ) : ℕ :=
  u32 (numBytes + (mm.blockSize - 1)) >>> mm.blockSizeShift

/-- The region of `k` blocks from block `fr` on. -/
def Minim.regionAt (mm : Minim κ) (fr k : ℕ) : DspMemRegion :=
  ⟨u32 (mm.physAddrBase + u32 (fr <<< mm.blockSizeShift)), 0,
    u32 (k <<< mm.blockSizeShift)⟩

/-- What `minim_alloc` returns when the search has ended with the index of a
block, or without one. -/
def allocated (mm : Minim κ) (cl : κ) (k : ℕ) :
    Option ℕ → DspMemRegion × Minim κ
  | some fr => (mm.regionAt fr k, takeBlocks mm cl fr k)
  | none => (DspMemRegion.zero, mm)

section Alloc

variable {mm : Minim κ} {row : List (Plot κ)}

/-- What `minim_alloc` does to a row: nothing, or it lets the front of the
best fit. -/
theorem minimAlloc_cases (h : Represents mm row) (uninit : DspMemRegion)
    (cl : κ) (numBytes : ℕ) :
    (mm.blocksFor numBytes = 0 ∧
      minimAlloc uninit mm cl numBytes = some (uninit, mm)) ∨
    (0 < mm.blocksFor numBytes ∧ NoFit row (mm.blocksFor numBytes) ∧
      minimAlloc uninit mm cl numBytes = some (DspMemRegion.zero, mm)) ∨
    ∃ before after n, ∃ hn : 0 < n, ∃ hk : 0 < mm.blocksFor numBytes,
      row = before ++ ⟨n, none, hn⟩ :: after ∧
      mm.blocksFor numBytes ≤ n ∧
      BestFit row (mm.blocksFor numBytes) (span before) ⟨n, none, hn⟩ ∧
      minimAlloc uninit mm cl numBytes =
        some (mm.regionAt (span before) (mm.blocksFor numBytes),
          { mm with blocks := blocksOf (before ++
              ⟨mm.blocksFor numBytes, some cl, hk⟩ ::
                (remainder (n - mm.blocksFor numBytes) ++ after)) }) := by
  obtain ⟨result, hresult, hfound⟩ :=
    findBestMatch_represents h (mm.blocksFor numBytes)
  rcases Nat.eq_zero_or_pos (mm.blocksFor numBytes) with hzero | hk
  · refine Or.inl ⟨hzero, ?_⟩
    unfold Minim.blocksFor at hzero
    simp [minimAlloc, hzero]
  · have halloc : minimAlloc uninit mm cl numBytes =
        (findBestMatch mm (mm.blocksFor numBytes) (mm.numBlocks + 1) 0
          none).map (allocated mm cl (mm.blocksFor numBytes)) :=
      if_pos hk
    rw [hresult] at halloc
    cases result with
    | none => exact Or.inr (Or.inl ⟨hk, hfound, halloc⟩)
    | some fr =>
        obtain ⟨⟨n, tenant, hn⟩, hbest⟩ := hfound
        obtain rfl : tenant = none := hbest.vacant
        obtain ⟨before, after, rfl, rfl⟩ := hbest.plotAt.split
        simp only [Option.map_some, allocated,
          takeBlocks_eq hk hbest.fits cl h] at halloc
        exact Or.inr (Or.inr
          ⟨before, after, n, hn, hk, rfl, hbest.fits, hbest, halloc⟩)

/-- A call that returns a region leaves the heap alone, or has let the front of
a vacant plot. -/
theorem minimAlloc_inversion (h : Represents mm row) {cl : κ}
    {uninit region : DspMemRegion} {numBytes : ℕ} {mm' : Minim κ}
    (halloc : minimAlloc uninit mm cl numBytes = some (region, mm')) :
    mm' = mm ∨
      ∃ before after n, ∃ hn : 0 < n, ∃ hk : 0 < mm.blocksFor numBytes,
        row = before ++ ⟨n, none, hn⟩ :: after ∧
        mm.blocksFor numBytes ≤ n ∧
        region = mm.regionAt (span before) (mm.blocksFor numBytes) ∧
        mm' = { mm with blocks := blocksOf (before ++
          ⟨mm.blocksFor numBytes, some cl, hk⟩ ::
            (remainder (n - mm.blocksFor numBytes) ++ after)) } := by
  rcases minimAlloc_cases h uninit cl numBytes with
    ⟨-, heq⟩ | ⟨-, -, heq⟩ | ⟨before, after, n, hn, hk, hrow, hkn, -, heq⟩
  · obtain ⟨-, hmm⟩ := Prod.mk.inj (Option.some.inj (halloc.symm.trans heq))
    exact Or.inl hmm
  · obtain ⟨-, hmm⟩ := Prod.mk.inj (Option.some.inj (halloc.symm.trans heq))
    exact Or.inl hmm
  · obtain ⟨hregion, hmm⟩ :=
      Prod.mk.inj (Option.some.inj (halloc.symm.trans heq))
    exact Or.inr ⟨before, after, n, hn, hk, hrow, hkn, hregion, hmm⟩

/-- The heap of a row after a letting. -/
theorem Represents.lease {before after : List (Plot κ)} {n k : ℕ}
    {hn : 0 < n} (h : Represents mm (before ++ ⟨n, none, hn⟩ :: after))
    (hk : 0 < k) (hkn : k ≤ n) (cl : κ) :
    Represents
      { mm with blocks := blocksOf (before ++
          ⟨k, some cl, hk⟩ :: (remainder (n - k) ++ after)) }
      (before ++ ⟨k, some cl, hk⟩ :: (remainder (n - k) ++ after)) where
  blocks_eq := rfl
  numBlocks_eq := by rw [span_lease hn hkn, ← h.numBlocks_eq]
  coalesced := h.coalesced.lease

end Alloc

/-! ## Freeing a superblock -/

/-- Walking down from anywhere inside a superblock finds its first block. -/
theorem findLhs_superblock {mm : Minim κ} {before : List (Plot κ)}
    {p : Plot κ} {rest : List (MinimBlock κ)}
    (h : mm.blocks = blocksOf before ++ (superblock p ++ rest)) {j : ℕ}
    (hj : j < p.size) : findLhs mm (span before + j) = some (span before) := by
  induction j with
  | zero =>
      have hhead : mm.block (span before) = headBlock p :=
        block_at h (length_blocksOf before).symm
      have hcounts := headBlock_counts p
      rw [← hhead] at hcounts
      rw [Nat.add_zero]
      cases hspan : span before with
      | zero =>
          rw [hspan] at hcounts
          rw [findLhs, if_pos hcounts]
      | succ i =>
          rw [hspan] at hcounts
          rw [findLhs, if_pos hcounts]
  | succ j ih =>
      have hblank : mm.block (span before + j + 1) = MinimBlock.blank := by
        rw [Minim.block, h,
          List.getD_append_right _ _ _ _ (by simp; omega), length_blocksOf,
          show span before + j + 1 - span before = j + 1 by omega,
          List.getD_append _ _ _ _ (by rw [length_superblock]; exact hj)]
        simp [superblock]
      rw [← Nat.add_assoc, findLhs, if_neg (by simp [hblank, MinimBlock.blank])]
      exact ih (by omega)

/-- Blocks of a superblock of `n` blocks that is being freed: its first block
carries both counts. -/
def freeingBlocks (n m : ℕ) (after : List (Plot κ)) : List (MinimBlock κ) :=
  ⟨n, m, none⟩ :: (List.replicate (m - 1) MinimBlock.blank ++ blocksOf after)

theorem joinRhs_eq {mm : Minim κ} {front : List (MinimBlock κ)}
    {after : List (Plot κ)} {n : ℕ} (hn : 0 < n)
    (hblocks : mm.blocks = front ++ freeingBlocks n n after)
    (hnum : mm.numBlocks = front.length + n + span after) :
    ∃ m, ∃ hm : 0 < m, ∃ after',
      join ⟨n, none, hn⟩ after = ⟨m, none, hm⟩ :: after' ∧
      joinRhs mm front.length =
        { mm with blocks := front ++ freeingBlocks n m after' } := by
  have hself : mm = { mm with blocks := front ++ freeingBlocks n n after } := by
    rw [← hblocks]
  have hhead : mm.block front.length = ⟨n, n, none⟩ :=
    block_at hblocks rfl
  unfold joinRhs
  simp only [hhead]
  cases after with
  | nil =>
      have hend : ¬front.length + n < mm.numBlocks := by
        rw [hnum]
        simp
      rw [if_neg hend]
      exact ⟨n, hn, [], rfl, hself⟩
  | cons q after =>
      have hpos := q.size_pos
      have hlt : front.length + n < mm.numBlocks := by
        rw [hnum, span_cons]
        omega
      have hsplit : mm.blocks =
          (front ++ ⟨n, n, none⟩ :: List.replicate (n - 1) MinimBlock.blank) ++
            headBlock q :: (List.replicate (q.size - 1) MinimBlock.blank ++
              blocksOf after) := by
        simp [hblocks, freeingBlocks, superblock]
      have hlen : front.length + n = (front ++ (⟨n, n, none⟩ : MinimBlock κ) ::
          List.replicate (n - 1) MinimBlock.blank).length := by
        simp
        omega
      rw [if_pos hlt, block_at hsplit hlen]
      cases hq : q.tenant with
      | some c =>
          rw [allocCount_headBlock_of_held hq, if_neg hpos.ne]
          exact ⟨n, hn, q :: after, join_of_apart (by simp [Apart, hq]), hself⟩
      | none =>
          refine ⟨n + q.size, by omega, after, join_of_vacant rfl hq, ?_⟩
          have hq' : headBlock q = ⟨0, q.size, none⟩ := by
            simp [headBlock, hq]
          have hfront : front ++ (⟨n, n + q.size, none⟩ : MinimBlock κ) ::
              (List.replicate (n - 1) MinimBlock.blank ++
                blocksOf (q :: after)) =
              (front ++ ⟨n, n + q.size, none⟩ ::
                List.replicate (n - 1) MinimBlock.blank) ++
                  headBlock q :: (List.replicate (q.size - 1)
                    MinimBlock.blank ++ blocksOf after) := by
            simp [superblock]
          rw [if_pos (allocCount_headBlock hq).symm, freeCount_headBlock hq,
            update_at hblocks rfl, hfront,
            update_blocks mm _ _ _ _ _ (by simpa using hlen)]
          rw [hq', List.append_assoc, freeingBlocks,
            ← replicate_append_cons _ hn hpos]
          rfl

/-- Joining to the left and clearing the allocation count leaves the heap of
the row in which the freed superblock is joined. -/
theorem joinLhs_eq {mm : Minim κ} {before after : List (Plot κ)} {n m : ℕ}
    (hm : 0 < m)
    (hblocks : mm.blocks = blocksOf before ++ freeingBlocks n m after)
    (hbefore : Coalesced before) :
    (joinLhs mm (span before)).update (span before)
        (fun b => { b with allocCount := 0 }) =
      { mm with blocks :=
          blocksOf (before.foldr join (⟨m, none, hm⟩ :: after)) } := by
  have hstay : mm.update (span before) (fun b => { b with allocCount := 0 }) =
      { mm with blocks := blocksOf (before ++ ⟨m, none, hm⟩ :: after) } := by
    rw [update_at hblocks (length_blocksOf before).symm]
    simp [superblock, headBlock]
  rcases List.eq_nil_or_concat before with rfl | ⟨front, q, rfl⟩
  · exact hstay
  · rw [List.concat_eq_append] at *
    have hpos := q.size_pos
    have hgt : span (front ++ [q]) > 0 := by
      simp
      omega
    have hsplit : mm.blocks = blocksOf front ++
        (superblock q ++ freeingBlocks n m after) := by
      simp [hblocks]
    have hlhs : findLhs mm (span (front ++ [q]) - 1) = some (span front) := by
      have hj := findLhs_superblock hsplit (j := q.size - 1) (by omega)
      rw [← hj]
      congr 1
      simp
      omega
    have hhead : mm.block (span front) = headBlock q :=
      block_at hsplit (length_blocksOf front).symm
    have hself : mm.block (span (front ++ [q])) = ⟨n, m, none⟩ :=
      block_at hblocks (length_blocksOf _).symm
    rw [joinLhs, if_pos hgt, hlhs]
    simp only [hhead]
    cases hq : q.tenant with
    | some c =>
        have hlast : ∀ p ∈ (front ++ [q]).getLast?, p.tenant ≠ none := by
          simp [hq]
        rw [freeCount_headBlock_of_held hq, if_neg (lt_irrefl 0),
          foldr_join_eq_append hbefore hlast]
        exact hstay
    | none =>
        have hneighbour : mm.blocks = blocksOf front ++ ⟨0, q.size, none⟩ ::
            (List.replicate (q.size - 1) MinimBlock.blank ++
              freeingBlocks n m after) := by
          simp [hsplit, superblock, headBlock, hq]
        have hmid : blocksOf front ++ (⟨0, q.size + m, none⟩ : MinimBlock κ) ::
            (List.replicate (q.size - 1) MinimBlock.blank ++
              freeingBlocks n m after) =
            (blocksOf front ++ ⟨0, q.size + m, none⟩ ::
              List.replicate (q.size - 1) MinimBlock.blank) ++ ⟨n, m, none⟩ ::
                (List.replicate (m - 1) MinimBlock.blank ++ blocksOf after) := by
          simp [freeingBlocks]
        have hlen : span (front ++ [q]) =
            (blocksOf front ++ (⟨0, q.size + m, none⟩ : MinimBlock κ) ::
              List.replicate (q.size - 1) MinimBlock.blank).length := by
          simp
          omega
        rw [freeCount_headBlock hq, if_pos hpos, hself,
          update_at hneighbour (length_blocksOf front).symm]
        simp only [hmid]
        rw [update_blocks mm _ _ _ _ _ hlen, update_blocks mm _ _ _ _ _ hlen,
          foldr_join_of_vacant hbefore hq]
        simp only [blocksOf_append, blocksOf_cons, superblock, headBlock,
          List.cons_append]
        rw [← replicate_append_cons _ hpos hm, List.append_assoc]
        rfl

/-- The heap of a row after a tenant has left. -/
theorem Represents.vacate {mm : Minim κ} {cl : κ}
    {before after : List (Plot κ)} {n : ℕ} {hn : 0 < n}
    (h : Represents mm (before ++ ⟨n, some cl, hn⟩ :: after)) :
    Represents { mm with blocks := blocksOf (vacate before n hn after) }
      (Tiling.vacate before n hn after) where
  blocks_eq := rfl
  numBlocks_eq := by rw [span_vacate (c := cl), ← h.numBlocks_eq]
  coalesced := h.coalesced.vacate

section Free

variable [DecidableEq κ] {mm : Minim κ} {row : List (Plot κ)}

/-- Freeing a superblock of the client makes its tenant leave the row. -/
theorem locMinimFreeByIdx_eq {before after : List (Plot κ)} {n : ℕ}
    {hn : 0 < n} {cl : κ}
    (h : Represents mm (before ++ ⟨n, some cl, hn⟩ :: after)) :
    locMinimFreeByIdx mm cl (span before) =
      (.ok (), { mm with blocks := blocksOf (vacate before n hn after) }) := by
  have hblocks : mm.blocks = blocksOf before ++ ⟨n, 0, some cl⟩ ::
      (List.replicate (n - 1) MinimBlock.blank ++ blocksOf after) := by
    simp [h.blocks_eq, superblock, headBlock]
  have hlen : span before = (blocksOf before).length := by simp
  have hbefore : Coalesced before := (List.isChain_append.mp h.coalesced).1
  have hnum : mm.numBlocks = (blocksOf before).length + n + span after := by
    rw [h.numBlocks_eq, length_blocksOf, span_append, span_cons,
      Nat.add_assoc]
  have hrhs := fun mm' h => @joinRhs_eq _ mm' (blocksOf before) after n hn h
  obtain ⟨m, hm, after', hjoin, hrhs⟩ :=
    hrhs { mm with blocks := blocksOf before ++ freeingBlocks n n after }
      rfl hnum
  have hmark : mm.update (span before)
      (fun b => { b with owner := none, freeCount := b.allocCount }) =
      { mm with blocks := blocksOf before ++ freeingBlocks n n after } :=
    update_at hblocks hlen
  rw [← hlen] at hrhs
  simp only [locMinimFreeByIdx, block_at hblocks hlen]
  rw [if_pos hn, if_pos trivial, hmark, hrhs, joinLhs_eq hm rfl hbefore,
    vacate, hjoin]

/-- A free either does nothing, because the block is not the first one of an
allocated superblock or is not owned by the client, or it succeeds. -/
theorem locMinimFreeByIdx_cases (h : Represents mm row) (cl : κ) (fr : ℕ) :
    ((∀ p, PlotAt row fr p → p.tenant = none) ∧
      locMinimFreeByIdx mm cl fr = (.error .EFAULT, mm)) ∨
    (∃ p c, PlotAt row fr p ∧ p.tenant = some c ∧ c ≠ cl ∧
      locMinimFreeByIdx mm cl fr = (.error .EACCES, mm)) ∨
    ∃ before after n, ∃ hn : 0 < n,
      row = before ++ ⟨n, some cl, hn⟩ :: after ∧ fr = span before ∧
      locMinimFreeByIdx mm cl fr =
        (.ok (), { mm with blocks := blocksOf (vacate before n hn after) }) := by
  by_cases halloc : (mm.block fr).allocCount > 0
  · obtain ⟨p, hp, c, hc⟩ := h.plotAt_of_allocCount halloc
    by_cases hcl : c = cl
    · subst hcl
      obtain ⟨before, after, rfl, rfl⟩ := hp.split
      obtain ⟨n, tenant, hn⟩ := p
      obtain rfl : tenant = some c := hc
      exact Or.inr (Or.inr
        ⟨before, after, n, hn, rfl, rfl, locMinimFreeByIdx_eq h⟩)
    · refine Or.inr (Or.inl ⟨p, c, hp, hc, hcl, ?_⟩)
      have hhead : mm.block fr = ⟨p.size, 0, some c⟩ := by
        rw [h.block_head hp]
        simp [headBlock, hc]
      rw [locMinimFreeByIdx, hhead]
      simp only
      rw [if_pos p.size_pos, if_neg (by simpa using hcl)]
  · refine Or.inl ⟨?_, ?_⟩
    · intro p hp
      rw [h.block_head hp] at halloc
      cases htenant : p.tenant with
      | none => rfl
      | some c =>
          rw [allocCount_headBlock_of_held htenant] at halloc
          exact absurd p.size_pos halloc
    · rw [locMinimFreeByIdx]
      simp only
      rw [if_neg halloc]

/-- Block index that `minim_free` computes from an address. -/
def Minim.blockIdx (mm : Minim κ) (mem : DspMemRegion) : ℕ :=
  u32Sub mem.physAddr mm.physAddrBase >>> mm.blockSizeShift

theorem minimFree_cases (h : Represents mm row) (cl : κ)
    (mem : DspMemRegion) :
    (∃ e, minimFree mm cl mem = (.error e, mm)) ∨
    ∃ before after n, ∃ hn : 0 < n,
      row = before ++ ⟨n, some cl, hn⟩ :: after ∧
      mm.blockIdx mem = span before ∧
      minimFree mm cl mem =
        (.ok (), { mm with blocks := blocksOf (vacate before n hn after) }) := by
  by_cases hlt : mm.blockIdx mem < mm.numBlocks
  · have hfree : minimFree mm cl mem =
        locMinimFreeByIdx mm cl (mm.blockIdx mem) := if_pos hlt
    rw [hfree]
    rcases locMinimFreeByIdx_cases h cl (mm.blockIdx mem) with
      h | ⟨p, c, -, -, -, h⟩ | h
    · exact Or.inl ⟨_, h.2⟩
    · exact Or.inl ⟨_, h⟩
    · exact Or.inr h
  · exact Or.inl ⟨.EFAULT, if_neg hlt⟩

end Free

end C64Tools.Kmod
