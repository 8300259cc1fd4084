import C64Tools.Loader.Sections

/-!
# Whether the DSP has started

The DSP program writes the number of each word into the memory behind the boot
code, after the first sixteen, which are zeros.  `c64_load` reads these words one
by one after it has started the DSP, each through a mapping of its own, while the
DSP goes on.
-/

namespace C64Tools.Loader

open ByteMemory Client Coff

/-! ## The DSP -/

/-- The address of `resetBuf[i]`. -/
def resetBuf (i : ℕ) : Coff.Word :=
  BitVec.ofNat 32
    (dspConfig.resetVector.physAddr + dspResetVectorCodesize + 4 * i)

/-- A loop that writes a word for each `i` from `first` on. -/
def storeWords (f : ℕ → Coff.Word) (first n : ℕ) (mem : Memory 32) :
    Memory 32 :=
  (List.range' first n).foldl
    (fun mem i => write mem (resetBuf i) (bytes32 (f i))) mem

/-- `(DSP_RESET_VECTOR_MINSIZE - DSP_RESET_VECTOR_CODESIZE) / 4`. -/
def numResetWords : ℕ :=
  (dspResetVectorMinsize - dspResetVectorCodesize) / 4

/-- The loops of `loc_its_alive`. -/
def locItsAlive (mem : Memory 32) : Memory 32 :=
  storeWords (BitVec.ofNat 32) 16 (numResetWords - 16)
    (storeWords (fun _ => 0) 0 16 mem)

/-! ## `c64_load` -/

/-- `DSP_ERR_MEM_CHECK`. -/
def dspErrMemCheck : ℕ := 0x00031004

/-- The loop of `loc_check_dsp_activity`, from the word `j` on; `seen j` is the
memory while that word is read. -/
def checkWords (k : Kernel) (seen : ℕ → Memory 32) :
    ℕ → ℕ → Bool → Process → Option (Bool × Process)
  | _, 0, bRunning, p => some (bRunning, p)
  | j, n + 1, bRunning, p => do
      let (ret, val, p) ← dspRegRead32 k
        (dspConfig.resetVector.physAddr + dspResetVectorCodesize + 4 * j)
        { p with mem := seen j }
      let differs := ret = dspErrOk ∧ val ≠ some (BitVec.ofNat 32 j)
      checkWords k seen (j + 1) n (if differs then false else bRunning) p

/-- `loc_check_dsp_activity`. -/
def locCheckDspActivity (k : Kernel) (seen : ℕ → Memory 32) (p : Process) :
    Option (ℕ × Process) := do
  let (bRunning, p) ← checkWords k seen 16 (numResetWords - 16) true p
  return (if bRunning then dspErrOk else dspErrMemCheck, p)

variable {k : Kernel} {p : Process} {seen : ℕ → Memory 32}
  {mem mem' : Memory 32} {f : ℕ → Coff.Word} {i j n first : ℕ}

/-! ## The words -/

theorem numResetWords_eq : numResetWords = 992 := rfl

theorem resetBuf_toNat (hi : i < numResetWords) :
    (resetBuf i).toNat = 0x86000080 + 4 * i := by
  have haddr : dspConfig.resetVector.physAddr + dspResetVectorCodesize =
      0x86000080 := rfl
  rw [numResetWords_eq] at hi
  rw [resetBuf, haddr, BitVec.toNat_ofNat]
  omega

theorem inRange_resetBuf {x : Coff.Word} (hi : i < numResetWords) :
    InRange (resetBuf i) 4 x ↔
      0x86000080 + 4 * i ≤ x.toNat ∧ x.toNat < 0x86000080 + 4 * i + 4 := by
  have htoNat := resetBuf_toNat hi
  rw [numResetWords_eq] at hi
  rw [inRange_iff_toNat (by omega), htoNat]

theorem storeWords_succ (f : ℕ → Coff.Word) (first n : ℕ) (mem : Memory 32) :
    storeWords f first (n + 1) mem =
      write (storeWords f first n mem) (resetBuf (first + n))
        (bytes32 (f (first + n))) := by
  rw [storeWords, List.range'_concat, Nat.one_mul, List.foldl_append]
  rfl

/-- A word that the loop writes. -/
theorem readWord32_storeWords (hn : first + n ≤ numResetWords)
    (hlow : first ≤ i) (hhigh : i < first + n) :
    readWord32 (storeWords f first n mem) (resetBuf i) = f i := by
  induction n with
  | zero => exact absurd hhigh (Nat.not_lt.mpr hlow)
  | succ n ih =>
      rw [storeWords_succ]
      by_cases hlast : i = first + n
      · rw [hlast]
        exact readWord32_write_bytes32 (by decide) _
      · refine Eq.trans (readWord32_congr ?_) (ih (by omega) (by omega))
        · intro x hx
          refine write_of_not_inRange ?_
          rw [length_bytes32, inRange_resetBuf (by omega)]
          rw [inRange_resetBuf (by omega)] at hx
          omega

/-- The number of a word is found there, after the first sixteen. -/
theorem readWord32_locItsAlive (mem : Memory 32) (hj : 16 ≤ j)
    (hlt : j < numResetWords) :
    readWord32 (locItsAlive mem) (resetBuf j) = BitVec.ofNat 32 j := by
  have hle : 16 ≤ numResetWords := by decide
  refine readWord32_storeWords ?_ hj ?_
  · omega
  · omega

/-! ## Reading them -/

/-- A word is read as it is in the memory. -/
theorem dspRegRead32_resetBuf (hp : p.Ready) (k : Kernel) (mem : Memory 32)
    (hj : j < numResetWords) :
    ∃ p', dspRegRead32 k
        (dspConfig.resetVector.physAddr + dspResetVectorCodesize + 4 * j)
        { p with mem := mem } =
          some (dspErrOk, some (readWord32 mem (resetBuf j)), p') ∧
      p'.mem = mem ∧ p'.space.table = p.space.table ∧ p'.Ready := by
  have haddr : dspConfig.resetVector.physAddr + dspResetVectorCodesize +
      4 * j = 0x86000080 + 4 * j := rfl
  have hready : Process.Ready { p with mem := mem } := hp
  rw [numResetWords_eq] at hj
  have hends := hready.run_ends (c := .regRead32 (0x86000080 + 4 * j)) k rfl
    (by omega) (by omega)
  have hwindow : findWindow fastMmap (0x86000080 + 4 * j) =
      some ⟨0x86000000, 0, 0x400000⟩ :=
    findWindow_image (by omega) (by omega)
  have hrange : RangeOk (0x86000080 + 4 * j) 4 :=
    (rangeOk_image (by omega) (by omega)).mpr (by omega)
  rw [PhysCall.run] at hends
  rw [resetBuf, haddr]
  generalize dspRegRead32 k (0x86000080 + 4 * j) { p with mem := mem } = o
    at hends
  cases hends with
  | failed hnone =>
      exact absurd (hwindow.symm.trans hnone) (Option.some_ne_none _)
  | done _ htable hready' => exact ⟨_, rfl, rfl, htable, hready'⟩
  | left hnot => exact absurd hrange hnot

theorem checkWords_spec (k : Kernel) (seen : ℕ → Memory 32) (hp : p.Ready)
    (hn : j + n ≤ numResetWords) (b : Bool) :
    ∃ b' p', checkWords k seen j n b p = some (b', p') ∧
      p'.space.table = p.space.table ∧ p'.Ready ∧
      (b' = true ↔ b = true ∧ ∀ i, j ≤ i → i < j + n →
        readWord32 (seen i) (resetBuf i) = BitVec.ofNat 32 i) := by
  induction n generalizing j b p with
  | zero =>
      refine ⟨b, p, rfl, rfl, hp, (and_iff_left fun i hle hlt => ?_).symm⟩
      exact absurd hlt (Nat.not_lt.mpr hle)
  | succ n ih =>
      obtain ⟨q, hread, -, htable, hready⟩ :=
        dspRegRead32_resetBuf hp k (seen j) (show j < numResetWords by omega)
      have hrun : checkWords k seen j (n + 1) b p =
          checkWords k seen (j + 1) n
            (if readWord32 (seen j) (resetBuf j) ≠ BitVec.ofNat 32 j
              then false else b) q := by
        rw [checkWords, hread]
        simp
      obtain ⟨b', p', hrest, htable', hready', hiff⟩ :=
        ih hready (show j + 1 + n ≤ numResetWords by omega)
          (if readWord32 (seen j) (resetBuf j) ≠ BitVec.ofNat 32 j
            then false else b)
      refine ⟨b', p', hrun.trans hrest, htable'.trans htable, hready', ?_⟩
      by_cases hword : readWord32 (seen j) (resetBuf j) = BitVec.ofNat 32 j
      · rw [if_neg (not_not.mpr hword)] at hiff
        rw [hiff]
        refine and_congr_right fun _ => ⟨fun hall i hle hlt => ?_, ?_⟩
        · obtain rfl | hlt' := Nat.eq_or_lt_of_le hle
          · exact hword
          · exact hall i hlt' (by omega)
        · exact fun hall i hle hlt => hall i (by omega) (by omega)
      · rw [if_pos hword] at hiff
        refine iff_of_false (fun hb => ?_) fun hall => ?_
        · exact Bool.false_ne_true (hiff.mp hb).1
        · exact hword (hall.2 j (Nat.le_refl j) (by omega))

/-- The check succeeds exactly if each word is its number when it is read. -/
theorem locCheckDspActivity_spec (hp : p.Ready) (k : Kernel)
    (seen : ℕ → Memory 32) :
    ∃ ret p', locCheckDspActivity k seen p = some (ret, p') ∧
      p'.space.table = p.space.table ∧ p'.Ready ∧
      (ret = dspErrOk ∨ ret = dspErrMemCheck) ∧
      (ret = dspErrOk ↔ ∀ i, 16 ≤ i → i < numResetWords →
        readWord32 (seen i) (resetBuf i) = BitVec.ofNat 32 i) := by
  have hsum : 16 + (numResetWords - 16) = numResetWords := by decide
  obtain ⟨b, p', hrun, htable, hready, hiff⟩ :=
    checkWords_spec k seen hp hsum.le true
  rw [hsum] at hiff
  refine ⟨if b then dspErrOk else dspErrMemCheck, p', ?_, htable, hready, ?_⟩
  · rw [locCheckDspActivity, hrun]
    rfl
  · cases b with
    | true =>
        refine ⟨.inl rfl, iff_of_true rfl ?_⟩
        exact (hiff.mp rfl).2
    | false =>
        refine ⟨.inr rfl, iff_of_false (by decide) fun hall => ?_⟩
        exact absurd (hiff.mpr ⟨rfl, hall⟩) Bool.false_ne_true

/-! ## Agreement -/

/-- No word is its number while it is still filled. -/
theorem readWord32_fill (hlt : j < numResetWords)
    (h : ∀ x, InRange (resetBuf j) 4 x → mem x = 0xCC) :
    readWord32 mem (resetBuf j) ≠ BitVec.ofNat 32 j := by
  have hread : readWord32 mem (resetBuf j) = 0xCCCCCCCC := by
    refine (readWord32_congr h).trans ?_
    show word32 [0xCC, 0xCC, 0xCC, 0xCC] 0 = 0xCCCCCCCC
    decide
  rw [hread]
  intro heq
  have htoNat := congrArg BitVec.toNat heq
  rw [numResetWords_eq] at hlt
  rw [BitVec.toNat_ofNat, Nat.mod_eq_of_lt (by omega)] at htoNat
  have hlit : (0xCCCCCCCC : Coff.Word).toNat = 0xCCCCCCCC := rfl
  omega

/-- The two sides agree.  The check succeeds on a DSP that has executed
`loc_its_alive`, whatever this one does to the first sixteen words and to the
memory around; and it fails if the DSP has left one of the words as it was
filled. -/
theorem locCheckDspActivity_agrees (hp : p.Ready) (k : Kernel)
    (seen : ℕ → Memory 32) :
    ∃ ret p', locCheckDspActivity k seen p = some (ret, p') ∧
      p'.space.table = p.space.table ∧
      ((∃ mem, ∀ j x, 0x860000c0 ≤ x.toNat → x.toNat < 0x86001000 →
          seen j x = locItsAlive mem x) → ret = dspErrOk) ∧
      ∀ j, 16 ≤ j → j < numResetWords →
        (∀ x, InRange (resetBuf j) 4 x → seen j x = 0xCC) →
          ret = dspErrMemCheck := by
  obtain ⟨ret, p', hrun, htable, -, hret, hiff⟩ :=
    locCheckDspActivity_spec hp k seen
  refine ⟨ret, p', hrun, htable, ?_, ?_⟩
  · rintro ⟨mem, hmem⟩
    refine hiff.mpr fun i hle hlt => ?_
    rw [← readWord32_locItsAlive mem hle hlt]
    refine readWord32_congr fun x hx => hmem i x ?_ ?_
    · rw [inRange_resetBuf hlt] at hx
      omega
    · rw [inRange_resetBuf hlt] at hx
      rw [numResetWords_eq] at hlt
      omega
  · intro j hle hlt hfill
    refine hret.resolve_left fun hok => ?_
    exact readWord32_fill hlt hfill (hiff.mp hok j hle hlt)

/-- A DSP that has just executed it. -/
theorem locCheckDspActivity_agrees_locItsAlive : ∃ p : Process,
    ∃ ret p', locCheckDspActivity demoKernel
        (fun _ => locItsAlive fun _ => 0xCC) p = some (ret, p') ∧
      ret = dspErrOk := by
  obtain ⟨p, hp, -⟩ := exists_ready fun _ => 0xCC
  obtain ⟨ret, p', hrun, -, hok, -⟩ := locCheckDspActivity_agrees hp demoKernel
    fun _ => locItsAlive fun _ => 0xCC
  exact ⟨p, ret, p', hrun, hok ⟨fun _ => 0xCC, fun _ _ _ _ => rfl⟩⟩

end C64Tools.Loader
