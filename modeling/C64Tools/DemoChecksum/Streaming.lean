import C64Tools.DemoChecksum.Sums

/-!
# Double buffering

While the blocks of one iteration are summed up, those of the next one are
streamed into the other half of the scratch buffer.  At the end the checksums of
all blocks are found in the destination, whichever way the DSP and the transfers
take turns.
-/

namespace C64Tools.DemoChecksum

open Edma ByteMemory Qdma Transfers

namespace Blocks

variable {b : Blocks} {mem₀ mem : Memory 32} {iter left : ℕ} {q : Quiet}
  {work next x : Word} {xfer : Word → Word → Transfer}

/-! ## Transfers of working sets -/

/-- The transfers of the blocks of an iteration to some buffer. -/
structure Carries (b : Blocks) (xfer : Word → Word → Transfer) : Prop where
  inRange : ∀ work a, (xfer work a).InRange
  nodup : ∀ work a, ((xfer work a).moves.map Move.dst).Nodup
  mem_moves : ∀ work k m, m ∈ (xfer work (b.blockAddr k)).moves ↔
    ∃ y < b.numBlocks, ∃ j < b.numBytes,
      m = .copy (b.blockAddr (k + y) + BitVec.ofNat 32 j)
        (work + BitVec.ofNat 32 (y * b.numBytes + j))

theorem Carries.mem_dst (h : b.Carries xfer) (hb : b.Ok) {k : ℕ}
    (hx : x ∈ (xfer next (b.blockAddr k)).moves.map Move.dst) :
    ∃ o < scratchSize, x = next + BitVec.ofNat 32 o := by
  obtain ⟨m, hm, rfl⟩ := List.mem_map.mp hx
  obtain ⟨y, hy, j, hj, rfl⟩ := (h.mem_moves _ _ _).mp hm
  exact ⟨_, offset_lt hb hy hj, rfl⟩

/-- The blocks are read outside of the scratch buffer. -/
theorem Carries.startable (q : Quiet) (h : b.Carries xfer) (hb : b.Ok)
    (hnext : ∀ o < scratchSize, InScratch (next + BitVec.ofNat 32 o))
    (hi : iter < b.numIterations) (hready : q.ready = true)
    (hbusy : q.busy = none) :
    q.Startable qdma0 (xfer next (b.blockAddr (iter * b.numBlocks))) := by
  refine ⟨hready, by decide, Option.isNone_iff_eq_none.mpr hbusy, h.inRange _ _,
    h.nodup _ _, fun m hm m' hm' hsrc => ?_⟩
  obtain ⟨y, hy, j, hj, rfl⟩ := (h.mem_moves _ _ _).mp hm
  obtain ⟨o, ho, hdst⟩ := h.mem_dst hb (List.mem_map_of_mem hm')
  refine hb.src_scratch _ (block_lt hy hi) _ (inRange_add_ofNat hj) ?_
  rw [Option.some.inj hsrc, hdst]
  exact hnext o ho

/-- Blocks that are still to be streamed have not been written. -/
theorem out_block (hb : b.Ok) {y j : ℕ} (hi : iter < b.numIterations)
    (hy : y < b.numBlocks) (hj : j < b.numBytes) {k : ℕ}
    (hk : k ≤ iter * b.numBlocks) :
    b.out mem₀ k (b.blockAddr (iter * b.numBlocks + y) + BitVec.ofNat 32 j) =
      mem₀ (b.blockAddr (iter * b.numBlocks + y) + BitVec.ofNat 32 j) := by
  refine out_of_not_mem fun i hlt hin => ?_
  refine hb.dst_src i _ (block_lt hy hi) ?_ _ hin (inRange_add_ofNat hj)
  rw [Nat.mul_comm iter, Nat.mul_add_div hb.numBlocks_pos,
    Nat.div_eq_of_lt hy, Nat.add_zero]
  exact Nat.div_lt_of_lt_mul (by rw [Nat.mul_comm]; exact hlt.trans_le hk)

/-- The memory when the blocks of an iteration have been streamed. -/
theorem Carries.started (next : Word) (h : b.Carries xfer) (hb : b.Ok)
    (hi : iter < b.numIterations) {k : ℕ} (hk : k ≤ iter * b.numBlocks)
    (hout : ∀ x, ¬ InScratch x → mem x = b.out mem₀ k x) :
    b.Holds mem₀ iter next
        (settled mem (xfer next (b.blockAddr (iter * b.numBlocks))).moves) ∧
      ∀ x, (∀ o < scratchSize, x ≠ next + BitVec.ofNat 32 o) →
        settled mem (xfer next (b.blockAddr (iter * b.numBlocks))).moves x =
          mem x := by
  constructor
  · intro y hy j hj
    have hmove := (h.mem_moves next (iter * b.numBlocks) _).mpr
      ⟨y, hy, j, hj, rfl⟩
    refine (settled_of_mem (h.nodup _ _) hmove).trans ?_
    refine (hout _ ?_).trans (out_block hb hi hy hj hk)
    exact hb.src_scratch _ (block_lt hy hi) _ (inRange_add_ofNat hj)
  · intro x hx
    refine settled_of_not_mem fun hmem => ?_
    obtain ⟨o, ho, heq⟩ := h.mem_dst hb hmem
    exact hx o ho heq

/-- The next working set is streamed beside an iteration. -/
theorem Carries.clear (h : b.Carries xfer) (hb : b.Ok)
    (hbuf : Buffers work next) (hi : iter + 1 < b.numIterations) :
    b.Clear iter work
      (q.start qdma0 (xfer next (b.blockAddr ((iter + 1) * b.numBlocks)))) := by
  constructor
  · intro x hx hmem
    obtain ⟨o, ho, rfl⟩ := h.mem_dst hb hmem
    exact hx (hbuf.nextScratch o ho)
  · intro o ho hmem
    obtain ⟨o', ho', heq⟩ := h.mem_dst hb hmem
    exact hbuf.apart o ho o' ho' heq
  · intro y hy x hx
    have hk := block_lt hy (Nat.lt_of_succ_lt hi)
    refine ⟨fun hmem => ?_, fun m hm hsrc => ?_⟩
    · obtain ⟨o, ho, rfl⟩ := h.mem_dst hb hmem
      exact hb.dst_scratch _ hk _ hx (hbuf.nextScratch o ho)
    · obtain ⟨y', hy', j, hj, rfl⟩ := (h.mem_moves _ _ _).mp hm
      obtain rfl := Option.some.inj hsrc
      refine hb.dst_src _ _ (block_lt hy' hi) ?_ _ hx (inRange_add_ofNat hj)
      have hdiv : ∀ i r, r < b.numBlocks → (i * b.numBlocks + r) / b.numBlocks = i := by
        intro i r hr
        rw [Nat.mul_comm, Nat.mul_add_div hb.numBlocks_pos, Nat.div_eq_of_lt hr,
          Nat.add_zero]
      rw [hdiv _ _ hy, hdiv _ _ hy']
      exact Nat.lt_succ_self iter

/-! ## The loop -/

/-- What is to be done with a working set. -/
def Summing {σ : Type} (b : Blocks) (mem₀ : Memory 32)
    (sums : Word → ℕ → σ → Program σ) (st : ℕ → σ) : Prop :=
  ∀ iter < b.numIterations, ∀ work q,
    (∀ o < scratchSize, InScratch (work + BitVec.ofNat 32 o)) →
    b.Clear iter work q →
    b.Streamed mem₀ iter (iter * b.numBlocks) work q.mem →
    ∃ mem, (sums work iter (st iter)).plain q =
        some (st (iter + 1), q.put mem) ∧
      b.Streamed mem₀ iter ((iter + 1) * b.numBlocks) work mem ∧
      ∀ x, InScratch x → mem x = q.mem x

theorem blockAddr_add (b : Blocks) (k n : ℕ) :
    b.blockAddr k + BitVec.ofNat 32 n * b.adv = b.blockAddr (k + n) := by
  rw [blockAddr, blockAddr, BitVec.ofNat_add, add_assoc, add_mul]

theorem clear_of_busy_none (hbusy : q.busy = none) : b.Clear iter work q := by
  have hmoves : q.moves = [] := by
    rw [Quiet.moves, hbusy]
    rfl
  have hnot : ∀ x, x ∉ q.moves.map Move.dst := by
    intro x
    rw [hmoves]
    exact List.not_mem_nil
  refine ⟨fun x _ => hnot x, fun o _ => hnot _,
    fun y _ x _ => ⟨hnot x, fun m hm => ?_⟩⟩
  rw [hmoves] at hm
  exact absurd hm List.not_mem_nil

theorem await_busy {nr : ℕ} (h : q.busy = none ∨ q.busy.map Prod.fst = some nr) :
    q.await nr = { q with busy := none } := by
  obtain hnone | hsome := h
  · rw [Quiet.await, if_neg (by rw [hnone]; exact (Option.some_ne_none nr).symm),
      ← hnone]
  · rw [Quiet.await, if_pos hsome]

/-- The test for the last iteration. -/
theorem ne_last_iff {numIterations : Word} (h : iter < numIterations.toNat) :
    BitVec.ofNat 32 iter ≠ numIterations - 1 ↔
      iter + 1 < numIterations.toNat := by
  have hlt := numIterations.isLt
  have hone : (1 : Word).toNat = 1 := rfl
  have hsub : (numIterations - 1).toNat = numIterations.toNat - 1 := by
    rw [BitVec.toNat_sub_of_le, hone]
    rw [BitVec.le_def, hone]
    omega
  rw [Ne, ← BitVec.toNat_inj, hsub, BitVec.toNat_ofNat,
    Nat.mod_eq_of_lt (by omega)]
  omega

/-- The iterations that are left. -/
theorem plain_pingPong {σ : Type} {sums : Word → ℕ → σ → Program σ} {st : ℕ → σ}
    {numIterations : Program Word} {xfers : Word → Word → Program Transfer}
    {n : Word} {rounds : ℕ} (q : Quiet) (iter : ℕ) (hb : b.Ok)
    (hcarries : b.Carries xfer) (hsums : b.Summing mem₀ sums st)
    (hnum : b.Fixed mem₀ numIterations n)
    (hxfers : ∀ work a, b.Fixed mem₀ (xfers work a) (xfer work a))
    (hn : n.toNat = b.numIterations)
    (hleft : iter + left = b.numIterations) (hrounds : left < rounds)
    (hbuf : Buffers work next) (hready : q.ready = true)
    (hbusy : q.busy = none ∨ q.busy.map Prod.fst = some qdma0)
    (hlast : left = 0 → q.busy = none)
    (hfree : ∀ x, ¬ InScratch x → q.Loadable x)
    (hout : ∀ x, ¬ InScratch x → q.mem x = b.out mem₀ (iter * b.numBlocks) x)
    (hholds : left ≠ 0 → b.Holds mem₀ iter work q.mem) :
    ∃ q', (pingPong numIterations xfers (BitVec.ofNat 32 b.numBlocks * b.adv)
        sums rounds iter work next (b.blockAddr (iter * b.numBlocks))
        (st iter)).plain q = some (st b.numIterations, q') ∧
      q'.busy = none ∧ ∀ x, ¬ InScratch x → q'.mem x = b.out mem₀ b.total x := by
  induction left generalizing iter work next q rounds with
  | zero =>
      obtain ⟨rounds, rfl⟩ := Nat.exists_eq_add_one_of_ne_zero hrounds.ne'
      obtain rfl : iter = b.numIterations := hleft
      have hend : ¬ b.numIterations < n.toNat := by
        rw [hn]
        exact Nat.lt_irrefl _
      rw [pingPong, Program.plain_bind_of_eq (hnum _ (le_refl _) q hout hfree),
        if_neg hend]
      exact ⟨q, rfl, hlast rfl, hout⟩
  | succ left ih =>
      obtain ⟨rounds, rfl⟩ :=
        Nat.exists_eq_add_one_of_ne_zero (Nat.ne_zero_of_lt hrounds)
      have hi : iter < b.numIterations := by omega
      have hle : iter * b.numBlocks ≤ b.total := Nat.mul_le_mul_right _ hi.le
      have hnext : b.blockAddr (iter * b.numBlocks) +
          BitVec.ofNat 32 b.numBlocks * b.adv =
            b.blockAddr ((iter + 1) * b.numBlocks) := by
        rw [blockAddr_add, Nat.succ_mul]
      have hwaited : ∀ x, ¬ InScratch x → Quiet.Loadable { q with busy := none } x :=
        fun x _ => loadable_of_busy rfl x
      rw [pingPong, Program.plain_bind_of_eq (hnum _ hle q hout hfree),
        if_pos (hn ▸ hi), Program.plain, if_pos ⟨hready, by decide⟩,
        await_busy hbusy, hnext,
        Program.plain_bind_of_eq (hnum _ hle { q with busy := none } hout hwaited)]
      -- the iteration itself, after the next working set may have been started
      have hrest : ∀ q₁ : Quiet, q₁.ready = true →
          (q₁.busy = none ∨ q₁.busy.map Prod.fst = some qdma0) →
          (left = 0 → q₁.busy = none) → b.Clear iter work q₁ →
          b.Streamed mem₀ iter (iter * b.numBlocks) work q₁.mem →
          (left ≠ 0 → b.Holds mem₀ (iter + 1) next q₁.mem) →
          ∃ q', ((sums work iter (st iter)).bind fun st =>
              pingPong numIterations xfers
                (BitVec.ofNat 32 b.numBlocks * b.adv) sums rounds (iter + 1) next
                work (b.blockAddr ((iter + 1) * b.numBlocks)) st).plain q₁ =
              some (st b.numIterations, q') ∧ q'.busy = none ∧
            ∀ x, ¬ InScratch x → q'.mem x = b.out mem₀ b.total x := by
        intro q₁ hready₁ hbusy₁ hlast₁ hclear hstreamed hholds₁
        obtain ⟨mem, hrun, hdone, hsame⟩ :=
          hsums iter hi work q₁ hbuf.workScratch hclear hstreamed
        rw [Program.plain_bind_of_eq hrun]
        refine ih (q₁.put mem) (iter + 1) (by omega) (by omega) hbuf.swap hready₁
          hbusy₁ hlast₁ hclear.outside hdone.outside fun hne => ?_
        intro y hy j hj
        refine (hsame _ (hbuf.nextScratch _ (offset_lt hb hy hj))).trans ?_
        exact hholds₁ hne y hy j hj
      have hstreamed : b.Streamed mem₀ iter (iter * b.numBlocks) work q.mem :=
        ⟨hout, hholds (Nat.succ_ne_zero left)⟩
      by_cases hmore : iter + 1 < b.numIterations
      · have hne := (ne_last_iff (hn ▸ hi)).mpr (hn ▸ hmore)
        have hstart := hcarries.startable { q with busy := none } hb
          hbuf.nextScratch hmore hready rfl
        obtain ⟨hnew, hkeep⟩ := hcarries.started next hb hmore
          (Nat.mul_le_mul_right _ (Nat.le_succ iter)) hout
        have hxfer := hxfers next (b.blockAddr ((iter + 1) * b.numBlocks)) _ hle
          { q with busy := none } hout hwaited
        rw [if_pos hne, Program.plain_bind_of_eq hxfer, Program.plain,
          if_pos hstart]
        refine hrest _ hready (.inr rfl) (by omega) (hcarries.clear hb hbuf hmore)
          ⟨fun x hx => ?_, fun y hy j hj => ?_⟩ fun _ => hnew
        · refine (hkeep x fun o ho heq => hx ?_).trans (hout x hx)
          rw [heq]
          exact hbuf.nextScratch o ho
        · refine (hkeep _ fun o ho => ?_).trans (hstreamed.holds y hy j hj)
          exact hbuf.apart _ (offset_lt hb hy hj) o ho
      · have hend : ¬ BitVec.ofNat 32 iter ≠ n - 1 := by
          rw [ne_last_iff (hn ▸ hi), hn]
          exact hmore
        rw [if_neg hend]
        exact hrest { q with busy := none } hready (.inl rfl) (fun _ => rfl)
          (clear_of_busy_none rfl) hstreamed (by omega)

/-- The first working set, and all iterations. -/
theorem plain_stream {σ : Type} {sums : Word → ℕ → σ → Program σ} {st : ℕ → σ}
    {numIterations : Program Word} {xfers : Word → Word → Program Transfer}
    {n : Word} (hb : b.Ok) (hcarries : b.Carries xfer)
    (hsums : b.Summing mem₀ sums st) (hnum : b.Fixed mem₀ numIterations n)
    (hxfers : ∀ work a, b.Fixed mem₀ (xfers work a) (xfer work a))
    (hn : n.toNat = b.numIterations) (hpos : 0 < b.numIterations) :
    ∃ q', (stream numIterations xfers (BitVec.ofNat 32 b.numBlocks * b.adv) sums
        b.src (st 0)).plain ⟨mem₀, false, none⟩ = some (0, q') ∧
      q'.busy = none ∧ ∀ x, ¬ InScratch x → q'.mem x = b.out mem₀ b.total x := by
  have hsrc : b.src = b.blockAddr (0 * b.numBlocks) := by
    rw [Nat.zero_mul, blockAddr]
    show b.src = b.src + 0 * b.adv
    rw [zero_mul, add_zero]
  have hbuf := buffers_scratch
  have hstart := hcarries.startable ⟨mem₀, true, none⟩ hb hbuf.workScratch hpos rfl
    rfl
  obtain ⟨hnew, hkeep⟩ := hcarries.started scratch1Addr hb hpos (Nat.zero_le _)
    (fun x _ => (rfl : mem₀ x = b.out mem₀ 0 x))
  have hinit : (⟨mem₀, false, none⟩ : Quiet).busy.isNone = true := rfl
  have hfirst := hxfers scratch1Addr (b.blockAddr (0 * b.numBlocks)) 0
    (Nat.zero_le _) ⟨mem₀, true, none⟩ (fun _ _ => rfl)
    fun x _ => loadable_of_busy rfl x
  rw [stream, hsrc, Program.plain, if_pos hinit, Program.plain_bind_of_eq hfirst,
    Program.plain, if_pos hstart]
  have hout₀ : ∀ x, ¬ InScratch x →
      settled mem₀ (xfer scratch1Addr (b.blockAddr (0 * b.numBlocks))).moves x =
        b.out mem₀ (0 * b.numBlocks) x := by
    intro x hx
    have hzero : b.out mem₀ (0 * b.numBlocks) x = mem₀ x := by
      rw [Nat.zero_mul]
      rfl
    refine (hkeep x fun o ho heq => hx ?_).trans hzero.symm
    rw [heq]
    exact hbuf.workScratch o ho
  have hfree₀ : ∀ x, ¬ InScratch x → Quiet.Loadable (Quiet.start ⟨mem₀, true, none⟩
      qdma0 (xfer scratch1Addr (b.blockAddr (0 * b.numBlocks)))) x := by
    intro x hx hmem
    obtain ⟨o, ho, rfl⟩ := hcarries.mem_dst hb hmem
    exact hx (hbuf.workScratch o ho)
  obtain ⟨q', hrun, hbusy, hout⟩ := plain_pingPong
    (Quiet.start ⟨mem₀, true, none⟩ qdma0
      (xfer scratch1Addr (b.blockAddr (0 * b.numBlocks))))
    0 hb hcarries hsums hnum hxfers hn (Nat.zero_add _)
    (hn ▸ n.isLt : b.numIterations < maxRounds) hbuf rfl (.inr rfl)
    (fun h => absurd h hpos.ne') hfree₀ hout₀ fun _ => hnew
  exact ⟨q', (Program.plain_bind_of_eq hrun _).trans rfl, hbusy, hout⟩

/-- What is found when all checksums have been stored. -/
theorem Ok.found (hb : b.Ok)
    (hout : ∀ x, ¬ InScratch x → mem x = b.out mem₀ b.total x) :
    (∀ k < b.total, readWord32 mem (wordAddr b.dst k) = b.checksum mem₀ k) ∧
      ∀ x, ¬ InScratch x → (∀ k < b.total, ¬ InRange (wordAddr b.dst k) 4 x) →
        mem x = mem₀ x := by
  constructor
  · intro k hk
    rw [← readWord32_out hb (le_refl _) hk]
    exact readWord32_congr fun x hx => hout x (hb.dst_scratch k hk x hx)
  · intro x hx hnot
    rw [hout x hx, out_of_not_mem hnot]

end Blocks

end C64Tools.DemoChecksum
