import C64Tools.Kmod.Minim.Invariant

/-!
# Freeing everything a client owns

`minim_free_by_client` walks over the superblocks and frees those of one
client on its way.  A superblock that is joined with a free left neighbour
takes the block from under the walk: both counts of that block become zero
and the walk stays on it forever.  The walk therefore comes back exactly when
every superblock of the client is the first one of the heap or lies directly
behind a superblock of another client; and when it comes back, everything it
has to do is done.
-/

namespace C64Tools.Kmod

open Tiling Transition

variable {κ : Type*}

/-! ## Superblocks that lie behind those of others -/

/-- If the second plot is held by `cl`, the first one is held by another
tenant. -/
def Shields (cl : κ) (p q : Plot κ) : Prop :=
  q.tenant = some cl → p.tenant ≠ none ∧ p.tenant ≠ some cl

/-- Every superblock of the client is the first one of the heap or lies
directly behind a superblock of another client. -/
def BehindOthers (mm : Minim κ) (cl : κ) : Prop :=
  ∀ i, IsHead mm i → (mm.block (i + (mm.block i).headCount)).owner = some cl →
    (mm.block i).owner ≠ none ∧ (mm.block i).owner ≠ some cl

theorem Represents.behindOthers_iff {mm : Minim κ} {row : List (Plot κ)}
    (h : Represents mm row) (cl : κ) :
    BehindOthers mm cl ↔ row.IsChain (Shields cl) := by
  rw [isChain_iff_plotAt]
  constructor
  · intro hbehind off p q hp hq howner
    have hnext := hbehind off (h.isHead_iff.mpr ⟨p, hp⟩)
    rw [h.block_head hp, headCount_headBlock, h.block_head hq,
      owner_headBlock, owner_headBlock] at hnext
    exact hnext howner
  · intro hchain i hi howner
    obtain ⟨p, hp⟩ := h.isHead_iff.mp hi
    rw [h.block_head hp, headCount_headBlock] at howner
    obtain ⟨q, hq, htenant⟩ := h.plotAt_of_owner howner
    rw [h.block_head hp, owner_headBlock]
    exact hchain i p q hp hq htenant

section Chain

variable {cl : κ} {p : Plot κ} {m : ℕ} {hm : 0 < m}
  {before after after' : List (Plot κ)}

theorem isChain_shields_cons (hp : p.tenant = none ∨ p.tenant = some cl) :
    (p :: after).IsChain (Shields cl) ↔
      (∀ q ∈ after.head?, q.tenant ≠ some cl) ∧
        after.IsChain (Shields cl) := by
  cases after with
  | nil => simp
  | cons q after =>
      have hshields : Shields cl p q ↔ q.tenant ≠ some cl := by
        rcases hp with hp | hp <;> simp [Shields, hp]
      rw [List.isChain_cons_cons, hshields]
      simp

/-- The superblocks behind a freed one lie behind those of others exactly
when they did so before it was freed. -/
theorem isChain_shields_freed (hp : p.tenant = some cl)
    (hafter : after = after' ∨ ∃ q, q.tenant = none ∧ after = q :: after') :
    (p :: after).IsChain (Shields cl) ↔
      ((⟨m, none, hm⟩ : Plot κ) :: after').IsChain (Shields cl) := by
  rw [isChain_shields_cons (Or.inr hp), isChain_shields_cons (Or.inl rfl)]
  rcases hafter with rfl | ⟨q, hq, rfl⟩
  · rfl
  · rw [isChain_shields_cons (Or.inl hq)]
    simp [hq]

theorem isChain_shields_of_none (h : ∀ p ∈ before, p.tenant ≠ some cl) :
    before.IsChain (Shields cl) :=
  isChain_iff_plotAt.mpr fun _ _ q _ hq howner => absurd howner (h q hq.mem)

end Chain

/-! ## One turn of the walk -/

theorem Represents.span_lt {mm : Minim κ} {before after : List (Plot κ)}
    {p : Plot κ} (h : Represents mm (before ++ p :: after)) :
    span before < mm.numBlocks := by
  have hpos := p.size_pos
  rw [h.numBlocks_eq, span_append, span_cons]
  omega

variable [DecidableEq κ] {cl : κ}

/-- On a block with two zero counts the walk makes no headway. -/
theorem freeByClientFrom_blank {mm : Minim κ} {fr : ℕ}
    (hlt : fr < mm.numBlocks) (hblank : mm.block fr = MinimBlock.blank)
    (fuel : ℕ) : freeByClientFrom cl fuel mm fr = none := by
  induction fuel with
  | zero => rfl
  | succ fuel ih =>
      rw [freeByClientFrom, if_pos hlt]
      simpa [hblank, MinimBlock.blank] using ih

/-- At the end of the array the walk comes back. -/
theorem freeByClientFrom_end {mm : Minim κ} {row : List (Plot κ)}
    (h : Represents mm row) (fuel : ℕ) :
    freeByClientFrom cl (fuel + 1) mm (span row) = some mm := by
  have hend : ¬span row < mm.numBlocks := by
    rw [h.numBlocks_eq]
    exact lt_irrefl _
  rw [freeByClientFrom, if_neg hend]

section Turn

variable {mm : Minim κ} {before after : List (Plot κ)} {p : Plot κ}

/-- A superblock which is not the client's is passed. -/
theorem freeByClientFrom_pass (h : Represents mm (before ++ p :: after))
    (hp : p.tenant ≠ some cl) (fuel : ℕ) :
    freeByClientFrom cl (fuel + 1) mm (span before) =
      freeByClientFrom cl fuel mm (span (before ++ [p])) := by
  have hhead := h.block_head (plotAt_middle before p after)
  have hspan : span (before ++ [p]) = span before + p.size := by simp
  rw [freeByClientFrom, if_pos h.span_lt, hspan]
  simp only [hhead]
  cases hc : p.tenant with
  | none =>
      rw [allocCount_headBlock hc, freeCount_headBlock hc,
        if_neg (lt_irrefl 0)]
  | some c =>
      rw [allocCount_headBlock_of_held hc, owner_headBlock,
        if_pos p.size_pos, if_neg hp]

/-- A superblock of the client is freed. -/
theorem freeByClientFrom_free {n : ℕ} {hn : 0 < n}
    (h : Represents mm (before ++ ⟨n, some cl, hn⟩ :: after)) (fuel : ℕ) :
    freeByClientFrom cl (fuel + 1) mm (span before) =
      freeByClientFrom cl fuel
        { mm with blocks := blocksOf (vacate before n hn after) }
        (span before) := by
  have hhead := h.block_head (plotAt_middle before _ after)
  rw [freeByClientFrom, if_pos h.span_lt]
  simp only [hhead, headBlock]
  rw [if_pos hn, if_pos trivial, locMinimFreeByIdx_eq h]

/-- Freeing a superblock behind a free one blocks the walk: the block it is on
is absorbed. -/
theorem freeByClientFrom_stuck {n : ℕ} {hn : 0 < n}
    (h : Represents mm (before ++ ⟨n, some cl, hn⟩ :: after))
    {q : Plot κ} (hq : q ∈ before.getLast?) (hvacant : q.tenant = none)
    (fuel : ℕ) : freeByClientFrom cl fuel mm (span before) = none := by
  obtain ⟨front, rfl⟩ := List.getLast?_eq_some_iff.mp hq
  cases fuel with
  | zero => rfl
  | succ fuel =>
      have hfront : Coalesced (front ++ [q]) :=
        (List.isChain_append.mp h.coalesced).1
      obtain ⟨m, hm, after', hjoin, -⟩ := join_vacant_cases hn after
      have hrow : vacate (front ++ [q]) n hn after =
          front ++ ⟨q.size + m, none, Nat.add_pos_left q.size_pos m⟩ ::
            after' := by
        rw [vacate, hjoin, foldr_join_of_vacant hfront hvacant]
      have hfreed := h.vacate
      rw [freeByClientFrom_free h]
      rw [hrow] at hfreed ⊢
      have hpos := q.size_pos
      have hblank := hfreed.block_interior (plotAt_middle front _ after')
        (j := span (front ++ [q])) (by simp; omega) (by simp; omega)
      refine freeByClientFrom_blank ?_ hblank fuel
      exact h.span_lt

/-- What one turn of the walk does at a superblock `p`: it passes it, it gets
stuck on it, or it frees it. -/
theorem freeByClientFrom_cases (h : Represents mm (before ++ p :: after))
    (cl : κ) :
    (p.tenant ≠ some cl ∧ ∀ fuel,
      freeByClientFrom cl (fuel + 1) mm (span before) =
        freeByClientFrom cl fuel mm (span (before ++ [p]))) ∨
    (p.tenant = some cl ∧ (∃ q ∈ before.getLast?, q.tenant = none) ∧
      ∀ fuel, freeByClientFrom cl fuel mm (span before) = none) ∨
    (p.tenant = some cl ∧ (∀ q ∈ before.getLast?, q.tenant ≠ none) ∧
      ∃ m, ∃ hm : 0 < m, ∃ after' mm',
        (after = after' ∨ ∃ q, q.tenant = none ∧ after = q :: after') ∧
        Represents mm' (before ++ ⟨m, none, hm⟩ :: after') ∧
        (∀ d i k, Holds (before ++ ⟨m, none, hm⟩ :: after') d i k ↔
          Holds (before ++ p :: after) d i k ∧ i ≠ span before) ∧
        ∀ fuel, freeByClientFrom cl (fuel + 1) mm (span before) =
          freeByClientFrom cl fuel mm' (span before)) := by
  by_cases hp : p.tenant = some cl
  · obtain ⟨n, tenant, hn⟩ := p
    obtain rfl : tenant = some cl := hp
    by_cases hlast : ∃ q ∈ before.getLast?, q.tenant = none
    · obtain ⟨q, hq, hvacant⟩ := hlast
      exact Or.inr (Or.inl
        ⟨rfl, ⟨q, hq, hvacant⟩, freeByClientFrom_stuck h hq hvacant⟩)
    · have hheld : ∀ q ∈ before.getLast?, q.tenant ≠ none :=
        fun q hq hnone => hlast ⟨q, hq, hnone⟩
      obtain ⟨m, hm, after', hjoin, hafter⟩ := join_vacant_cases hn after
      have hrow : vacate before n hn after =
          before ++ ⟨m, none, hm⟩ :: after' := by
        rw [vacate, hjoin, foldr_join_eq_append
          (List.isChain_append.mp h.coalesced).1 hheld]
      refine Or.inr (Or.inr ⟨rfl, hheld, m, hm, after', _, hafter, ?_, ?_,
        freeByClientFrom_free h⟩)
      · rw [← hrow]
        exact h.vacate
      · intro d i k
        rw [← hrow]
        exact holds_vacate
  · exact Or.inl ⟨hp, freeByClientFrom_pass h hp⟩

end Turn

/-! ## The whole walk -/

/-- If the walk comes back, all superblocks ahead of it lie behind those of
others, and the client's are the ones that are gone. -/
theorem freeByClientFrom_returned {mm mm' : Minim κ}
    {before rest : List (Plot κ)} {fuel : ℕ}
    (h : Represents mm (before ++ rest))
    (hbefore : ∀ p ∈ before, p.tenant ≠ some cl)
    (hfree : freeByClientFrom cl fuel mm (span before) = some mm') :
    (before ++ rest).IsChain (Shields cl) ∧
      ∃ row', Represents mm' row' ∧ ∀ d i k,
        Holds row' d i k ↔ Holds (before ++ rest) d i k ∧ d ≠ cl := by
  induction fuel generalizing mm before rest with
  | zero => simp [freeByClientFrom] at hfree
  | succ fuel ih =>
      cases rest with
      | nil =>
          rw [List.append_nil] at h ⊢
          rw [freeByClientFrom_end h, Option.some.injEq] at hfree
          subst hfree
          refine ⟨isChain_shields_of_none hbefore, before, h, ?_⟩
          intro d i k
          constructor
          · rintro ⟨p, hp, hd, hk⟩
            refine ⟨⟨p, hp, hd, hk⟩, ?_⟩
            rintro rfl
            exact hbefore p hp.mem hd
          · exact And.left
      | cons p after =>
          rcases freeByClientFrom_cases h cl with
            ⟨hp, hturn⟩ | ⟨-, -, hstuck⟩ |
            ⟨hp, hlast, m, hm, after', freed, hafter, hrow, hholds, hturn⟩
          · rw [hturn] at hfree
            have hpassed : ∀ q ∈ before ++ [p], q.tenant ≠ some cl := by
              intro q hq
              rcases List.mem_append.mp hq with hq | hq
              · exact hbefore q hq
              · rw [List.mem_singleton.mp hq]
                exact hp
            have hrow : Represents mm ((before ++ [p]) ++ after) := by
              simpa using h
            simpa using ih hrow hpassed hfree
          · rw [hstuck] at hfree
            exact absurd hfree (by simp)
          · rw [hturn] at hfree
            obtain ⟨hchain, row', hrow', hiff⟩ := ih hrow hbefore hfree
            obtain ⟨hfront, hback, -⟩ := List.isChain_append.mp hchain
            refine ⟨List.isChain_append.mpr ⟨hfront,
              (isChain_shields_freed hp hafter).mpr hback, ?_⟩,
              row', hrow', ?_⟩
            · intro q hq r hr _
              exact ⟨hlast q hq, hbefore q (List.mem_of_mem_getLast? hq)⟩
            · intro d i k
              rw [hiff, hholds]
              constructor
              · rintro ⟨⟨hd, -⟩, hne⟩
                exact ⟨hd, hne⟩
              · rintro ⟨hd, hne⟩
                refine ⟨⟨hd, ?_⟩, hne⟩
                rintro rfl
                obtain ⟨q, hq, hqd, -⟩ := hd
                rw [hq.unique (plotAt_middle before p after), hp] at hqd
                exact hne (Option.some.inj hqd).symm

/-- If all superblocks ahead of the walk lie behind those of others, the walk
comes back.  Induction on their number: a free does not add to it. -/
theorem freeByClientFrom_returns {mm : Minim κ} {before rest : List (Plot κ)}
    {k : ℕ} (hk : rest.length ≤ k) (h : Represents mm (before ++ rest))
    (hchain : (before ++ rest).IsChain (Shields cl)) :
    ∃ fuel mm', freeByClientFrom cl fuel mm (span before) = some mm' := by
  induction k generalizing mm before rest with
  | zero =>
      obtain rfl : rest = [] := List.length_eq_zero_iff.mp (by omega)
      rw [List.append_nil] at h
      exact ⟨1, mm, freeByClientFrom_end h 0⟩
  | succ k ih =>
      cases rest with
      | nil =>
          rw [List.append_nil] at h
          exact ⟨1, mm, freeByClientFrom_end h 0⟩
      | cons p after =>
          rw [List.length_cons, Nat.add_le_add_iff_right] at hk
          rcases freeByClientFrom_cases h cl with
            ⟨hp, hturn⟩ | ⟨hp, ⟨q, hq, hvacant⟩, -⟩ |
            ⟨hp, hlast, m, hm, after', freed, hafter, hrow, hholds, hturn⟩
          · rw [List.append_cons] at h hchain
            obtain ⟨fuel, mm', hfree⟩ := ih hk h hchain
            exact ⟨fuel + 1, mm', by rw [hturn, hfree]⟩
          · have hseam := (List.isChain_append.mp hchain).2.2 q hq p (by simp)
            exact absurd hvacant (hseam hp).1
          · obtain ⟨hfront, hback, -⟩ := List.isChain_append.mp hchain
            have hk' : after'.length ≤ k := by
              rcases hafter with rfl | ⟨q, -, rfl⟩
              · exact hk
              · rw [List.length_cons] at hk
                omega
            have hchain' : (before ++ (⟨m, none, hm⟩ : Plot κ) ::
                after').IsChain (Shields cl) :=
              List.isChain_append.mpr ⟨hfront,
                (isChain_shields_freed hp hafter).mp hback, by simp [Shields]⟩
            have hnone : (⟨m, none, hm⟩ : Plot κ).tenant ≠ some cl := by simp
            have hpass := freeByClientFrom_pass hrow hnone
            rw [List.append_cons] at hrow hchain'
            obtain ⟨fuel, mm', hfree⟩ := ih hk' hrow hchain'
            exact ⟨fuel + 1 + 1, mm', by rw [hturn, hpass, hfree]⟩

/-! ## The result of `minim_free_by_client` -/

/-- What a call for client `cl` has to achieve. -/
structure ReleasesAll (mm : Minim κ) (cl : κ) (mm' : Minim κ) : Prop where
  none_left : ∀ i, (mm'.block i).owner ≠ some cl
  others_kept : ∀ i d, d ≠ cl → (mm.block i).owner = some d →
    mm'.block i = mm.block i
  none_new : ∀ i d, (mm'.block i).owner = some d →
    (mm.block i).owner = some d
  wellFormed : WellFormed mm'

/-- Whenever a call comes back, it has achieved everything. -/
theorem releasesAll_of_returns {mm mm' : Minim κ} {row : List (Plot κ)}
    (h : Represents mm row) (hreturns : FreeByClientReturns mm cl mm') :
    ReleasesAll mm cl mm' := by
  obtain ⟨fuel, hfree⟩ := hreturns
  obtain ⟨-, row', hrow', hholds⟩ :=
    @freeByClientFrom_returned κ _ cl mm mm' [] row fuel h (by simp) hfree
  rw [List.nil_append] at hholds
  refine ⟨?_, ?_, ?_, hrow'.wellFormed⟩
  · intro i howner
    obtain ⟨n, hn⟩ := hrow'.exists_holds howner
    exact ((hholds cl i n).mp hn).2 rfl
  · intro i d hd howner
    obtain ⟨n, hn⟩ := h.exists_holds howner
    have hafter := (hholds d i n).mpr ⟨hn, hd⟩
    rw [(h.block_eq_iff_holds.mpr hn).2, (hrow'.block_eq_iff_holds.mpr hafter).2]
  · intro i d howner
    obtain ⟨n, hn⟩ := hrow'.exists_holds howner
    rw [(h.block_eq_iff_holds.mpr ((hholds d i n).mp hn).1).2]

section Run

variable {numBlocks blockSizeShift physAddrBase : ℕ} {mm : Minim κ}

/-- In a reachable heap the call comes back and achieves everything exactly
when all superblocks of the client lie behind those of others. -/
theorem minimFreeByClient_releasesAll_iff (hpos : 0 < numBlocks)
    (h : (heapMachine κ numBlocks blockSizeShift physAddrBase).Reachable mm)
    (cl : κ) :
    ((∃ mm', FreeByClientReturns mm cl mm') ∧
      ∀ mm', FreeByClientReturns mm cl mm' → ReleasesAll mm cl mm') ↔
    BehindOthers mm cl := by
  obtain ⟨row, hrow⟩ := represents_of_reachable hpos h
  rw [hrow.behindOthers_iff]
  constructor
  · rintro ⟨⟨mm', fuel, hfree⟩, -⟩
    exact (@freeByClientFrom_returned κ _ cl mm mm' [] row fuel hrow (by simp)
      hfree).1
  · intro hchain
    obtain ⟨fuel, mm', hfree⟩ :=
      @freeByClientFrom_returns κ _ cl mm [] row _ (le_refl _) hrow hchain
    exact ⟨⟨mm', fuel, hfree⟩, fun _ => releasesAll_of_returns hrow⟩

/-- Client 1 holds the block between a free superblock and one of client 2. -/
theorem minimFreeByClient_releasesAll_iff_behind_free :
    ((∃ mm', FreeByClientReturns (κ := ℕ) ⟨4, 64, 6, [⟨0, 1, none⟩,
        ⟨1, 0, some 1⟩, ⟨2, 0, some 2⟩, MinimBlock.blank], 4096⟩ 2 mm') ∧
      ∀ mm', FreeByClientReturns (κ := ℕ) ⟨4, 64, 6, [⟨0, 1, none⟩,
          ⟨1, 0, some 1⟩, ⟨2, 0, some 2⟩, MinimBlock.blank], 4096⟩ 2 mm' →
        ReleasesAll ⟨4, 64, 6, [⟨0, 1, none⟩, ⟨1, 0, some 1⟩,
          ⟨2, 0, some 2⟩, MinimBlock.blank], 4096⟩ 2 mm') ↔
    BehindOthers (κ := ℕ) ⟨4, 64, 6, [⟨0, 1, none⟩, ⟨1, 0, some 1⟩,
      ⟨2, 0, some 2⟩, MinimBlock.blank], 4096⟩ 2 := by
  have hrun : (heapMachine ℕ 4 6 4096).Reachable ⟨4, 64, 6,
      [⟨1, 0, some 2⟩, ⟨1, 0, some 1⟩, ⟨2, 0, some 2⟩, MinimBlock.blank],
      4096⟩ := by
    refine .step (.step (.step (.init rfl)
      (t := ⟨4, 64, 6, [⟨1, 0, some 2⟩, ⟨0, 3, none⟩, MinimBlock.blank,
        MinimBlock.blank], 4096⟩) (e := .alloc 2 64) ?_)
      (t := ⟨4, 64, 6, [⟨1, 0, some 2⟩, ⟨1, 0, some 1⟩, ⟨0, 2, none⟩,
        MinimBlock.blank], 4096⟩) (e := .alloc 1 40) ?_)
      (e := .alloc 2 128) ?_
    all_goals exact ⟨DspMemRegion.zero, _, rfl⟩
  exact minimFreeByClient_releasesAll_iff (by decide)
    (.step hrun (e := .free 2 ⟨4096, 0, 64⟩) rfl) 2

/-- The second of two neighbouring superblocks of client 1 is joined with the
first one, and the walk never ends. -/
theorem not_freeByClientReturns_of_neighbours :
    (heapMachine ℕ 4 6 4096).Reachable ⟨4, 64, 6,
      [⟨1, 0, some 1⟩, ⟨1, 0, some 1⟩, ⟨0, 2, none⟩, MinimBlock.blank],
      4096⟩ ∧
    ∀ mm', ¬FreeByClientReturns (κ := ℕ) ⟨4, 64, 6,
      [⟨1, 0, some 1⟩, ⟨1, 0, some 1⟩, ⟨0, 2, none⟩, MinimBlock.blank],
      4096⟩ 1 mm' := by
  constructor
  · refine .step (.step (.init rfl)
      (t := ⟨4, 64, 6, [⟨1, 0, some 1⟩, ⟨0, 3, none⟩, MinimBlock.blank,
        MinimBlock.blank], 4096⟩) (e := .alloc 1 64) ?_)
      (e := .alloc 1 64) ?_
    all_goals exact ⟨DspMemRegion.zero, _, rfl⟩
  · rintro mm' ⟨fuel, hfree⟩
    -- two frees and one move; then the walk is on a blank block
    have hstuck : ∀ fuel, minimFreeByClient (fuel + 3) (κ := ℕ) ⟨4, 64, 6,
        [⟨1, 0, some 1⟩, ⟨1, 0, some 1⟩, ⟨0, 2, none⟩, MinimBlock.blank],
        4096⟩ 1 = none := fun fuel =>
      @freeByClientFrom_blank ℕ _ 1 ⟨4, 64, 6, [⟨0, 4, none⟩,
        MinimBlock.blank, MinimBlock.blank, MinimBlock.blank], 4096⟩ 1
        (by decide) rfl fuel
    match fuel with
    | 0 | 1 | 2 => exact absurd (show none = some mm' from hfree) (by simp)
    | fuel + 3 => exact absurd hfree (by simp [hstuck fuel])

end Run

end C64Tools.Kmod
