import C64Tools.Client.FastMmap
import C64Tools.Library.MappedMemory

/-!
# Access to the physical memory

The functions that `c64_load` writes images and registers with.  Each one maps its
range with `dsp_mmap()`, goes to the address which it gets, and unmaps the range
again.  None of them looks at where the mapping ends.
-/

namespace C64Tools.Client

open Paging ByteMemory Shm

/-- `DSP_ERR_MEM`. -/
def dspErrMem : ℕ := 0x00031000

/-- A process after `dsp_init_root()`, and the physical memory. -/
structure Process where
  fastMmap : List DspMemRegion
  space : AddressSpace
  mem : Memory 32

/-! ## The functions -/

/-- What is done at an address, with the mapping that the address is in; undefined
if it leaves the mapping. -/
abbrev Use (α : Type) :=
  Table → ℕ → ℕ → Memory 32 → Option (α × Memory 32)

/-- Map a range, use its address and unmap it again.  After the result stands what
the use has come to, if there was one. -/
def withMapping {α : Type} (k : Kernel) (physAddr numBytes : ℕ) (f : Use α)
    (p : Process) : Option (ℕ × Option α × Process) :=
  let (ret, virtAddr, space) :=
    dspMmap false p.fastMmap k physAddr numBytes p.space
  if ret = dspErrOk then do
    let (mapping, _) ← space.table.byteAt dspPagesize virtAddr
    let (a, mem) ← f space.table mapping virtAddr p.mem
    let (ret, space) := dspMunmap false p.fastMmap virtAddr numBytes space
    return (ret, some a, { p with space := space, mem := mem })
  else return (ret, none, { p with space := space })

/-- `memcpy()` and `memset()`, and the assignment to a register. -/
def useStore (bs : List Byte) : Use Unit := fun T mapping addr mem =>
  (T.store dspPagesize mapping mem addr bs).map ((), ·)

def useLoadWord : Use (BitVec 32) := fun T mapping addr mem =>
  (T.load dspPagesize mapping mem addr 4).map fun bs => (word32 bs 0, mem)

def useUpdateWord (f : BitVec 32 → BitVec 32) : Use Unit :=
  fun T mapping addr mem => do
    let (val, mem) ← useLoadWord T mapping addr mem
    useStore (bytes32 (f val)) T mapping addr mem

/-- `dsp_copy_to()`.  The bytes at `_srcBuf` are as many as `_numBytes` says. -/
def dspCopyTo (k : Kernel) (physAddr : ℕ) (srcBuf : Option (List Byte))
    (p : Process) : Option (ℕ × Process) :=
  match srcBuf with
  | some bs =>
      (withMapping k physAddr bs.length (useStore bs) p).map fun r =>
        (r.1, r.2.2)
  | none => some (dspErrMem, p)

/-- `dsp_memset()`. -/
def dspMemset (k : Kernel) (physAddr : ℕ) (c : Byte) (numBytes : ℕ)
    (p : Process) : Option (ℕ × Process) :=
  (withMapping k physAddr numBytes (useStore (List.replicate numBytes c))
    p).map fun r => (r.1, r.2.2)

/-- `dsp_reg_write_32()`. -/
def dspRegWrite32 (k : Kernel) (physAddr : ℕ) (value : BitVec 32)
    (p : Process) : Option (ℕ × Process) :=
  (withMapping k physAddr 4 (useStore (bytes32 value)) p).map fun r =>
    (r.1, r.2.2)

/-- `dsp_reg_read_32()`, with what it stores in `_retValue` after the result. -/
def dspRegRead32 (k : Kernel) (physAddr : ℕ) (p : Process) :
    Option (ℕ × Option (BitVec 32) × Process) :=
  (withMapping k physAddr 4 useLoadWord p).map fun r =>
    (if r.2.1.isSome then r.1 else dspErrMem, r.2)

/-- `dsp_reg_bit_set()`. -/
def dspRegBitSet (k : Kernel) (physAddr bitNr : ℕ) (p : Process) :
    Option (ℕ × Process) :=
  (withMapping k physAddr 4 (useUpdateWord fun val => val ||| 1#32 <<< bitNr)
    p).map fun r => (r.1, r.2.2)

/-- `dsp_reg_bit_clear()`. -/
def dspRegBitClear (k : Kernel) (physAddr bitNr : ℕ) (p : Process) :
    Option (ℕ × Process) :=
  (withMapping k physAddr 4
    (useUpdateWord fun val => val &&& ~~~(1#32 <<< bitNr)) p).map fun r =>
      (r.1, r.2.2)

/-! ## What a use is for -/

/-- On a range that is all in the mapping the use does to the memory behind it what
`effect` says; it needs all of the range. -/
structure Use.Does {α : Type} (f : Use α) (numBytes : ℕ)
    (effect : BitVec 32 → Memory 32 → α × Memory 32) : Prop where
  inside : ∀ {T : Table} {mapping addr target : ℕ} {mem : Memory 32},
    T.Leads dspPagesize mapping addr target numBytes →
      f T mapping addr mem = some (effect (BitVec.ofNat 32 target) mem)
  within : ∀ {T : Table} {mapping addr : ℕ} {mem : Memory 32}
    {r : α × Memory 32}, f T mapping addr mem = some r → ∀ i < numBytes,
      ∃ target, T.byteAt dspPagesize (addr + i) = some (mapping, target)

variable {k : Kernel} {p : Process} {s : MmapRun} {l : LiveMap}
  {physAddr numBytes : ℕ}

theorem useStore_does (bs : List Byte) :
    (useStore bs).Does bs.length fun a mem => ((), write mem a bs) := by
  constructor
  · intro T mapping addr target mem hleads
    rw [useStore, hleads.store]
    rfl
  · intro T mapping addr mem r hr i hi
    obtain ⟨mem', hstore, -⟩ := Option.map_eq_some_iff.mp hr
    exact Table.mapping_of_store hstore hi

theorem useLoadWord_does :
    useLoadWord.Does 4 fun a mem => (readWord32 mem a, mem) := by
  constructor
  · intro T mapping addr target mem hleads
    rw [useLoadWord, hleads.load]
    rfl
  · intro T mapping addr mem r hr i hi
    obtain ⟨bs, hload, -⟩ := Option.map_eq_some_iff.mp hr
    exact Table.mapping_of_load hload hi

theorem useUpdateWord_does (f : BitVec 32 → BitVec 32) :
    (useUpdateWord f).Does 4 fun a mem =>
      ((), write mem a (bytes32 (f (readWord32 mem a)))) := by
  constructor
  · intro T mapping addr target mem hleads
    rw [useUpdateWord, useLoadWord_does.inside hleads]
    exact (useStore_does _).inside hleads
  · intro T mapping addr mem r hr i hi
    obtain ⟨q, hload, -⟩ := Option.bind_eq_some_iff.mp hr
    exact useLoadWord_does.within hload i hi

/-! ## Mapped for one use -/

/-- To unmap what `dsp_mmap()` has mapped leaves the pages as they were. -/
theorem dspMmap_drop {a : AddressSpace} (hnumbered : Numbered a)
    (forceReal : Bool) (ws : List DspMemRegion) (k : Kernel)
    (physAddr numBytes : ℕ) {r : ℕ × ℕ × AddressSpace}
    (hr : dspMmap forceReal ws k physAddr numBytes a = r) :
    r.2.2.table.drop (if r.2.2.fresh = a.fresh then none else some a.fresh) =
      a.table := by
  subst hr
  rw [dspMmap]
  cases if forceReal then none else findWindow ws physAddr with
  | some w =>
      rw [if_pos rfl]
      exact Table.drop_none
  | none =>
      cases hbase : k.mmap a (dspPagesizeAlign physAddr)
          (dspPagesizeRound numBytes) with
      | none =>
          simp only [osalMmap, hbase, ne_eq, not_true, if_false, if_true]
          exact Table.drop_none
      | some base =>
          have hroom := k.room _ _ _ _ hbase
          have hfresh : a.fresh + 1 ≠ a.fresh := Nat.succ_ne_self _
          simp only [osalMmap, hbase, ne_eq, hroom.pos, not_false_iff, if_true,
            hfresh, if_false]
          refine Table.drop_map (fun q f hf => ?_) hroom.free
          exact (hnumbered q f hf).ne

/-- The region that an address in use is in. -/
theorem MmapKept.placed (h : MmapKept s) (hl : l ∈ s.live) :
    ∃ id mem offset, Placed s.space id mem ∧ offset < mem.size ∧
      l.virtAddr = mem.virtAddr + offset ∧
      l.physAddr = mem.physAddr + offset := by
  obtain hwindow | ⟨-, hoffset, id, -, hplaced⟩ := h.live l hl
  · obtain ⟨w, hw, -, -, hle, hlt, hvirt⟩ := hwindow.virtAddr_eq h
    obtain ⟨id, hplaced, -⟩ := h.windows w hw
    exact ⟨id, w, l.physAddr - w.physAddr, hplaced, by omega, hvirt, by omega⟩
  · have hdvd := dspPagesizeRound_dvd l.numBytes
    have hround : dspPagesizeRound l.numBytes ≠ 0 := hplaced.nonempty
    refine ⟨id, l.area, l.physAddr % 4096, hplaced, ?_, ?_, ?_⟩
    · show l.physAddr % 4096 < dspPagesizeRound l.numBytes
      omega
    · show l.virtAddr = l.virtAddr / 4096 * 4096 + l.physAddr % 4096
      omega
    · show l.physAddr = l.physAddr / 4096 * 4096 + l.physAddr % 4096
      omega

/-- The addresses of a region that are all in its mapping lead on. -/
theorem Placed.leads {a : AddressSpace} {id offset n : ℕ} {mem : DspMemRegion}
    (h : Placed a id mem) (hoffset : offset < mem.size)
    (hall : ∀ i < n, ∃ target,
      a.table.byteAt dspPagesize (mem.virtAddr + offset + i) =
        some (id, target)) :
    a.table.Leads dspPagesize id (mem.virtAddr + offset)
      (mem.physAddr + offset) n := by
  have hvirt : mem.virtAddr / 4096 * 4096 = mem.virtAddr :=
    Nat.div_mul_cancel (Nat.dvd_of_mod_eq_zero h.virt_aligned)
  have hphys : mem.physAddr / 4096 * 4096 = mem.physAddr :=
    Nat.div_mul_cancel (Nat.dvd_of_mod_eq_zero h.phys_aligned)
  have hsize : mem.size / 4096 * 4096 = mem.size :=
    Nat.div_mul_cancel (Nat.dvd_of_mod_eq_zero h.size_aligned)
  have hpages : offset < mem.size / 4096 * 4096 := by rwa [hsize]
  rw [← hvirt] at hall
  have hleads := h.has.leads (by decide : 0 < dspPagesize) hpages hall
  rw [← hvirt, ← hphys]
  exact hleads

/-- What the address of a call leads to: its range if this is all right, and
otherwise out of the mapping. -/
structure Reaches (T : Table) (virtAddr physAddr numBytes mapping : ℕ) :
    Prop where
  first : T.byteAt dspPagesize virtAddr = some (mapping, physAddr)
  leads : RangeOk physAddr numBytes →
    T.Leads dspPagesize mapping virtAddr physAddr numBytes
  rangeOk : (∀ i < numBytes, ∃ target,
    T.byteAt dspPagesize (virtAddr + i) = some (mapping, target)) →
      RangeOk physAddr numBytes

theorem MmapKept.reaches (h : MmapKept s) (hl : l ∈ s.live) :
    ∃ mapping, Reaches s.space.table l.virtAddr l.physAddr l.numBytes
      mapping := by
  obtain ⟨id, mem, offset, hplaced, hoffset, hvirt, hphys⟩ := h.placed hl
  have hfirst : s.space.table.byteAt dspPagesize l.virtAddr =
      some (id, l.physAddr) := by
    rw [hvirt, hphys]
    exact hplaced.byteAt hoffset
  refine ⟨id, hfirst, ?_, ?_⟩
  · intro hok
    obtain ⟨id', hfirst', hall⟩ := (h.covered_iff hl).mpr hok
    obtain rfl : id = id' := congrArg Prod.fst
      (Option.some.inj (hfirst.symm.trans hfirst'))
    exact hall
  · intro hall
    rw [hvirt] at hall
    have hleads := hplaced.leads hoffset hall
    rw [← hvirt, ← hphys] at hleads
    exact (h.covered_iff hl).mp ⟨id, hfirst, hleads⟩

theorem reachable_mapped (h : mmapMachine.Reachable s) (k : Kernel)
    (hphys : physAddr < 2 ^ 32) (hnum : numBytes < 2 ^ 32) :
    mmapMachine.Reachable (s.mapped physAddr numBytes
      (dspMmap false s.fastMmap k physAddr numBytes s.space)) :=
  h.step (e := .dspMmap k physAddr numBytes) ⟨hphys, hnum, rfl⟩

theorem reachable_unmapped (h : mmapMachine.Reachable s) (hl : l ∈ s.live) :
    mmapMachine.Reachable { s with
      space := (dspMunmap false s.fastMmap l.virtAddr l.numBytes s.space).2
      live := s.live.erase l } :=
  h.step (e := .dspMunmap l) ⟨hl, rfl⟩

/-- The mappings are as the calls of `dsp_mmap()` have left them. -/
def Process.Ready (p : Process) : Prop :=
  ∃ live, mmapMachine.Reachable ⟨p.space, p.fastMmap, live⟩

/-- The call of `dsp_mmap()` at the beginning of a use: it fails, outside of the
windows, or the one of `dsp_munmap()` at the end will undo it. -/
theorem Process.Ready.mmap_cases (hp : p.Ready) (k : Kernel)
    (hphys : physAddr < 2 ^ 32) (hnum : numBytes < 2 ^ 32) :
    (findWindow Client.fastMmap physAddr = none ∧
      dspMmap false p.fastMmap k physAddr numBytes p.space =
        (dspErrMemMap, 0, p.space)) ∨
    ∃ virtAddr space space' mapping,
      dspMmap false p.fastMmap k physAddr numBytes p.space =
        (dspErrOk, virtAddr, space) ∧
      Reaches space.table virtAddr physAddr numBytes mapping ∧
      dspMunmap false p.fastMmap virtAddr numBytes space =
        (dspErrOk, space') ∧
      space'.table = p.space.table ∧
      ∀ mem, Process.Ready ⟨p.fastMmap, space', mem⟩ := by
  obtain ⟨live, hreach⟩ := hp
  have hkept := mmapKept_of_reachable hreach
  have hmapped := reachable_mapped hreach k hphys hnum
  obtain ⟨ret, virtAddr, space, hr⟩ : ∃ ret virtAddr space,
      dspMmap false p.fastMmap k physAddr numBytes p.space =
        (ret, virtAddr, space) := ⟨_, _, _, rfl⟩
  by_cases hret : ret = dspErrOk
  · subst hret
    right
    let made :=
      if space.fresh = p.space.fresh then none else some p.space.fresh
    let l : LiveMap := ⟨physAddr, numBytes, virtAddr, made⟩
    rw [hr, MmapRun.mapped, if_pos rfl] at hmapped
    have hkept' := mmapKept_of_reachable hmapped
    have hl : l ∈ l :: live := List.mem_cons_self
    obtain ⟨mapping, hreaches⟩ := hkept'.reaches hl
    have hunmap := hkept'.dspMunmap_eq hl
    have hdrop : space.table.drop made = p.space.table :=
      dspMmap_drop hkept.numbered _ _ _ _ _ hr
    refine ⟨virtAddr, space, _, mapping, hr, hreaches, hunmap, hdrop, ?_⟩
    intro mem
    have hback := reachable_unmapped hmapped hl
    rw [hunmap] at hback
    refine ⟨live, ?_⟩
    rw [← List.erase_cons_head (a := l) (l := live)]
    exact hback
  · left
    cases hw : findWindow p.fastMmap physAddr with
    | some w =>
        have hok := (dspMmap_window hw).symm.trans hr
        exact absurd (congrArg Prod.fst hok).symm hret
    | none =>
        have hnone : findWindow Client.fastMmap physAddr = none := by
          rw [hkept.findWindow_eq, hw]
          rfl
        obtain hfail | ⟨_, _, hok, -⟩ :=
          dspMmap_pages false p.fastMmap k numBytes hkept.numbered hphys hw
        · exact ⟨hnone, hfail⟩
        · exact absurd (congrArg Prod.fst (hok.symm.trans hr)).symm hret

/-! ## How a call ends -/

/-- The ends of a call: it fails and leaves everything as it is, which happens
outside of the windows only; it has its effect on the physical memory and leaves
the pages as they are; or it leaves its mapping. -/
inductive Ends (p : Process) (physAddr numBytes failure : ℕ)
    (effect : Memory 32 → Option (BitVec 32) × Memory 32) :
    Option (ℕ × Option (BitVec 32) × Process) → Prop
  | failed : findWindow fastMmap physAddr = none →
      Ends p physAddr numBytes failure effect (some (failure, none, p))
  | done {space : AddressSpace} : RangeOk physAddr numBytes →
      space.table = p.space.table →
      Process.Ready ⟨p.fastMmap, space, (effect p.mem).2⟩ →
      Ends p physAddr numBytes failure effect
        (some (dspErrOk, (effect p.mem).1,
          ⟨p.fastMmap, space, (effect p.mem).2⟩))
  | left : ¬ RangeOk physAddr numBytes →
      Ends p physAddr numBytes failure effect none

/-- Every function that uses a mapping so ends in one of these ways. -/
theorem Process.Ready.ends {α : Type} {f : Use α}
    {effect : BitVec 32 → Memory 32 → α × Memory 32} (hp : p.Ready)
    (hf : f.Does numBytes effect) (k : Kernel) (hphys : physAddr < 2 ^ 32)
    (hnum : numBytes < 2 ^ 32) (failure : ℕ)
    (effect' : Memory 32 → Option (BitVec 32) × Memory 32)
    (g : ℕ × Option α × Process → ℕ × Option (BitVec 32) × Process)
    (hfailed : g (dspErrMemMap, none, p) = (failure, none, p))
    (hdone : ∀ space,
      g (dspErrOk, some (effect (BitVec.ofNat 32 physAddr) p.mem).1,
          ⟨p.fastMmap, space,
            (effect (BitVec.ofNat 32 physAddr) p.mem).2⟩) =
        (dspErrOk, (effect' p.mem).1,
          ⟨p.fastMmap, space, (effect' p.mem).2⟩)) :
    Ends p physAddr numBytes failure effect'
      ((withMapping k physAddr numBytes f p).map g) := by
  obtain ⟨hnone, hfail⟩ |
    ⟨virtAddr, space, space', mapping, hok, hreaches, hunmap, htable, hready⟩ :=
      hp.mmap_cases k hphys hnum
  · have hne : dspErrMemMap ≠ dspErrOk := by decide
    have hmapping : withMapping k physAddr numBytes f p =
        some (dspErrMemMap, none, p) := by
      simp only [withMapping, hfail, hne, if_false]
      rfl
    rw [hmapping, Option.map_some, hfailed]
    exact .failed hnone
  · by_cases hrange : RangeOk physAddr numBytes
    · have huse : f space.table mapping virtAddr p.mem =
          some (effect (BitVec.ofNat 32 physAddr) p.mem) :=
        hf.inside (hreaches.leads hrange)
      have hmapping : withMapping k physAddr numBytes f p =
          some (dspErrOk,
            some (effect (BitVec.ofNat 32 physAddr) p.mem).1,
            ⟨p.fastMmap, space',
              (effect (BitVec.ofNat 32 physAddr) p.mem).2⟩) := by
        simp only [withMapping, hok, if_true, hreaches.first, huse, hunmap,
          Option.bind_eq_bind, Option.bind_some]
        rfl
      rw [hmapping, Option.map_some, hdone]
      exact .done hrange htable (hready _)
    · have huse : f space.table mapping virtAddr p.mem = none := by
        rw [Option.eq_none_iff_forall_ne_some]
        intro r hr
        exact hrange (hreaches.rangeOk (hf.within hr))
      have hmapping : withMapping k physAddr numBytes f p = none := by
        simp only [withMapping, hok, if_true, hreaches.first, huse,
          Option.bind_eq_bind, Option.bind_some, Option.bind_none]
      rw [hmapping, Option.map_none]
      exact .left hrange

/-! ## Sequences of calls -/

/-- The calls, with a null pointer or the bytes of the buffer for `_srcBuf`. -/
inductive PhysCall where
  | copyTo (physAddr : ℕ) (srcBuf : Option (List Byte))
  | memset (physAddr : ℕ) (c : Byte) (numBytes : ℕ)
  | regWrite32 (physAddr : ℕ) (value : BitVec 32)
  | regRead32 (physAddr : ℕ)
  | regBitSet (physAddr bitNr : ℕ)
  | regBitClear (physAddr bitNr : ℕ)

namespace PhysCall

def run (k : Kernel) (p : Process) :
    PhysCall → Option (ℕ × Option (BitVec 32) × Process)
  | copyTo physAddr srcBuf =>
      (dspCopyTo k physAddr srcBuf p).map fun r => (r.1, none, r.2)
  | memset physAddr c numBytes =>
      (dspMemset k physAddr c numBytes p).map fun r => (r.1, none, r.2)
  | regWrite32 physAddr value =>
      (dspRegWrite32 k physAddr value p).map fun r => (r.1, none, r.2)
  | regRead32 physAddr => dspRegRead32 k physAddr p
  | regBitSet physAddr bitNr =>
      (dspRegBitSet k physAddr bitNr p).map fun r => (r.1, none, r.2)
  | regBitClear physAddr bitNr =>
      (dspRegBitClear k physAddr bitNr p).map fun r => (r.1, none, r.2)

/-- The address and the number of bytes that a call maps, if it maps any. -/
def range : PhysCall → Option (ℕ × ℕ)
  | copyTo physAddr srcBuf => srcBuf.map fun bs => (physAddr, bs.length)
  | memset physAddr _ numBytes => some (physAddr, numBytes)
  | regWrite32 physAddr _ => some (physAddr, 4)
  | regRead32 physAddr => some (physAddr, 4)
  | regBitSet physAddr _ => some (physAddr, 4)
  | regBitClear physAddr _ => some (physAddr, 4)

/-- What a call is to read from the physical memory, and to make of it. -/
def effect (mem : Memory 32) : PhysCall → Option (BitVec 32) × Memory 32
  | copyTo physAddr srcBuf =>
      (none, write mem (BitVec.ofNat 32 physAddr) (srcBuf.getD []))
  | memset physAddr c numBytes =>
      (none, write mem (BitVec.ofNat 32 physAddr) (List.replicate numBytes c))
  | regWrite32 physAddr value =>
      (none, write mem (BitVec.ofNat 32 physAddr) (bytes32 value))
  | regRead32 physAddr =>
      (some (readWord32 mem (BitVec.ofNat 32 physAddr)), mem)
  | regBitSet physAddr bitNr =>
      (none, write mem (BitVec.ofNat 32 physAddr)
        (bytes32 (readWord32 mem (BitVec.ofNat 32 physAddr) |||
          1#32 <<< bitNr)))
  | regBitClear physAddr bitNr =>
      (none, write mem (BitVec.ofNat 32 physAddr)
        (bytes32 (readWord32 mem (BitVec.ofNat 32 physAddr) &&&
          ~~~(1#32 <<< bitNr))))

/-- What a call returns when it cannot map its range, or is given none. -/
def failure : PhysCall → ℕ
  | copyTo _ none => dspErrMem
  | regRead32 _ => dspErrMem
  | _ => dspErrMemMap

/-- The arguments are words. -/
def Sized (c : PhysCall) : Prop :=
  ∀ r ∈ c.range, r.1 < 2 ^ 32 ∧ r.2 < 2 ^ 32

def InRange (c : PhysCall) : Prop :=
  ∀ r ∈ c.range, RangeOk r.1 r.2

def InWindow (c : PhysCall) : Prop :=
  ∃ r ∈ c.range, (findWindow fastMmap r.1).isSome

end PhysCall

/-- Some calls one after the other, each with the system it meets. -/
def runPhysCalls : List (Kernel × PhysCall) → Process →
    Option (List (ℕ × Option (BitVec 32)) × Process)
  | [], p => some ([], p)
  | (k, c) :: cs, p => do
      let (ret, value, p) ← c.run k p
      let (outs, p) ← runPhysCalls cs p
      return ((ret, value) :: outs, p)

/-- The calls on the physical memory alone.  Each one has its effect and succeeds,
or has none and fails; which it may not if its address is in a window. -/
inductive Performed :
    List PhysCall → List (ℕ × Option (BitVec 32)) → Memory 32 → Memory 32 →
      Prop
  | nil {mem : Memory 32} : Performed [] [] mem mem
  | done {c : PhysCall} {cs : List PhysCall}
      {outs : List (ℕ × Option (BitVec 32))} {mem mem' : Memory 32} :
      Performed cs outs (c.effect mem).2 mem' →
      Performed (c :: cs) ((dspErrOk, (c.effect mem).1) :: outs) mem mem'
  | failed {c : PhysCall} {cs : List PhysCall}
      {outs : List (ℕ × Option (BitVec 32))} {mem mem' : Memory 32} :
      ¬ c.InWindow → Performed cs outs mem mem' →
      Performed (c :: cs) ((c.failure, none) :: outs) mem mem'

variable {c : PhysCall} {cs : List (Kernel × PhysCall)}

theorem Process.Ready.run_ends (hp : p.Ready) (k : Kernel)
    (hrange : c.range = some (physAddr, numBytes)) (hphys : physAddr < 2 ^ 32)
    (hnum : numBytes < 2 ^ 32) :
    Ends p physAddr numBytes c.failure (fun mem => c.effect mem)
      (c.run k p) := by
  cases c with
  | copyTo a srcBuf =>
      cases srcBuf with
      | none => exact absurd hrange (Option.some_ne_none _).symm
      | some bs =>
          obtain ⟨rfl, rfl⟩ := Prod.mk.inj (Option.some.inj hrange)
          have h := hp.ends (useStore_does bs) k hphys hnum dspErrMemMap
            (fun mem => (PhysCall.copyTo a (some bs)).effect mem)
            (fun r => (r.1, none, r.2.2)) rfl fun _ => rfl
          rw [PhysCall.run, dspCopyTo, Option.map_map]
          exact h
  | memset a v n =>
      obtain ⟨rfl, rfl⟩ := Prod.mk.inj (Option.some.inj hrange)
      have hdoes := useStore_does (List.replicate n v)
      rw [List.length_replicate] at hdoes
      have h := hp.ends hdoes k hphys hnum dspErrMemMap
        (fun mem => (PhysCall.memset a v n).effect mem)
        (fun r => (r.1, none, r.2.2)) rfl fun _ => rfl
      rw [PhysCall.run, dspMemset, Option.map_map]
      exact h
  | regWrite32 a value =>
      obtain ⟨rfl, rfl⟩ := Prod.mk.inj (Option.some.inj hrange)
      have h := hp.ends (useStore_does (bytes32 value)) k hphys hnum
        dspErrMemMap (fun mem => (PhysCall.regWrite32 a value).effect mem)
        (fun r => (r.1, none, r.2.2)) rfl fun _ => rfl
      rw [PhysCall.run, dspRegWrite32, Option.map_map]
      exact h
  | regRead32 a =>
      obtain ⟨rfl, rfl⟩ := Prod.mk.inj (Option.some.inj hrange)
      exact hp.ends useLoadWord_does k hphys hnum dspErrMem
        (fun mem => (PhysCall.regRead32 a).effect mem)
        (fun r => (if r.2.1.isSome then r.1 else dspErrMem, r.2)) rfl
        fun _ => rfl
  | regBitSet a bitNr =>
      obtain ⟨rfl, rfl⟩ := Prod.mk.inj (Option.some.inj hrange)
      have h := hp.ends (useUpdateWord_does fun val => val ||| 1#32 <<< bitNr)
        k hphys hnum dspErrMemMap
        (fun mem => (PhysCall.regBitSet a bitNr).effect mem)
        (fun r => (r.1, none, r.2.2)) rfl fun _ => rfl
      rw [PhysCall.run, dspRegBitSet, Option.map_map]
      exact h
  | regBitClear a bitNr =>
      obtain ⟨rfl, rfl⟩ := Prod.mk.inj (Option.some.inj hrange)
      have h := hp.ends
        (useUpdateWord_does fun val => val &&& ~~~(1#32 <<< bitNr))
        k hphys hnum dspErrMemMap
        (fun mem => (PhysCall.regBitClear a bitNr).effect mem)
        (fun r => (r.1, none, r.2.2)) rfl fun _ => rfl
      rw [PhysCall.run, dspRegBitClear, Option.map_map]
      exact h

/-- The ends of a call that returns its result only. -/
theorem Ends.of_map {failure : ℕ}
    {effect : Memory 32 → Option (BitVec 32) × Memory 32}
    {o : Option (ℕ × Process)}
    (h : Ends p physAddr numBytes failure effect
      (o.map fun r => (r.1, none, r.2))) :
    (o = some (failure, p) ∧ findWindow fastMmap physAddr = none) ∨
    (RangeOk physAddr numBytes ∧ ∃ space,
      o = some (dspErrOk, ⟨p.fastMmap, space, (effect p.mem).2⟩) ∧
      space.table = p.space.table ∧
      Process.Ready ⟨p.fastMmap, space, (effect p.mem).2⟩) ∨
    (¬ RangeOk physAddr numBytes ∧ o = none) := by
  cases o with
  | none =>
      cases h with
      | left hnot => exact .inr (.inr ⟨hnot, rfl⟩)
  | some r =>
      obtain ⟨ret, q⟩ := r
      generalize ho : (some (ret, q)).map
        (fun r => (r.1, (none : Option (BitVec 32)), r.2)) = o' at h
      cases h with
      | failed hnone =>
          obtain ⟨rfl, rfl⟩ : ret = failure ∧ q = p := by simpa using ho
          exact .inl ⟨rfl, hnone⟩
      | done hok htable hready =>
          obtain ⟨rfl, -, rfl⟩ := by simpa using ho
          exact .inr (.inl ⟨hok, _, rfl, htable, hready⟩)
      | left hnot => exact absurd ho (Option.some_ne_none _)

theorem Process.Ready.dspMemset_cases (hp : p.Ready) (k : Kernel) (v : Byte)
    (hphys : physAddr < 2 ^ 32) (hnum : numBytes < 2 ^ 32) :
    (dspMemset k physAddr v numBytes p = some (dspErrMemMap, p) ∧
      findWindow Client.fastMmap physAddr = none) ∨
    (RangeOk physAddr numBytes ∧ ∃ space,
      dspMemset k physAddr v numBytes p =
        some (dspErrOk, ⟨p.fastMmap, space,
          write p.mem (BitVec.ofNat 32 physAddr)
            (List.replicate numBytes v)⟩) ∧
      space.table = p.space.table ∧
      Process.Ready ⟨p.fastMmap, space,
        write p.mem (BitVec.ofNat 32 physAddr)
          (List.replicate numBytes v)⟩) ∨
    (¬ RangeOk physAddr numBytes ∧
      dspMemset k physAddr v numBytes p = none) :=
  (hp.run_ends (c := .memset physAddr v numBytes) k rfl hphys hnum).of_map

theorem Process.Ready.dspCopyTo_cases (hp : p.Ready) (k : Kernel)
    (bs : List Byte) (hphys : physAddr < 2 ^ 32)
    (hnum : bs.length < 2 ^ 32) :
    (dspCopyTo k physAddr (some bs) p = some (dspErrMemMap, p) ∧
      findWindow Client.fastMmap physAddr = none) ∨
    (RangeOk physAddr bs.length ∧ ∃ space,
      dspCopyTo k physAddr (some bs) p =
        some (dspErrOk, ⟨p.fastMmap, space,
          write p.mem (BitVec.ofNat 32 physAddr) bs⟩) ∧
      space.table = p.space.table ∧
      Process.Ready ⟨p.fastMmap, space,
        write p.mem (BitVec.ofNat 32 physAddr) bs⟩) ∨
    (¬ RangeOk physAddr bs.length ∧
      dspCopyTo k physAddr (some bs) p = none) :=
  (hp.run_ends (c := .copyTo physAddr (some bs)) k rfl hphys hnum).of_map

theorem PhysCall.range_eq_none_iff :
    c.range = none ↔ ∃ physAddr, c = .copyTo physAddr none := by
  constructor
  · intro hnone
    cases c with
    | copyTo a srcBuf =>
        obtain rfl := Option.map_eq_none_iff.mp hnone
        exact ⟨a, rfl⟩
    | _ => exact absurd hnone (Option.some_ne_none _)
  · rintro ⟨a, rfl⟩
    rfl

/-- What one call does. -/
theorem Process.Ready.run_cases (hp : p.Ready) (k : Kernel) (hc : c.Sized) :
    (c.run k p = some (c.failure, none, p) ∧ ¬ c.InWindow) ∨
    (c.InRange ∧ ∃ space, c.run k p =
        some (dspErrOk, (c.effect p.mem).1,
          ⟨p.fastMmap, space, (c.effect p.mem).2⟩) ∧
      space.table = p.space.table ∧
      Process.Ready ⟨p.fastMmap, space, (c.effect p.mem).2⟩) ∨
    (¬ c.InRange ∧ c.run k p = none) := by
  cases hrange : c.range with
  | none =>
      obtain ⟨a, rfl⟩ := PhysCall.range_eq_none_iff.mp hrange
      refine .inl ⟨rfl, ?_⟩
      rintro ⟨r, hr, -⟩
      exact absurd hr (Option.not_mem_none r)
  | some r =>
      obtain ⟨a, n⟩ := r
      have hiff : c.InRange ↔ RangeOk a n := by
        rw [PhysCall.InRange, hrange]
        exact ⟨fun h => h _ rfl, fun h r hr => Option.some.inj hr ▸ h⟩
      obtain ⟨hphys, hnum⟩ := hc (a, n) hrange
      have hends := hp.run_ends k hrange hphys hnum
      generalize c.run k p = o at hends ⊢
      cases hends with
      | failed hnone =>
          refine .inl ⟨rfl, ?_⟩
          rintro ⟨r, hr, hsome⟩
          rw [hrange] at hr
          obtain rfl := Option.some.inj hr
          rw [hnone] at hsome
          exact absurd hsome Bool.false_ne_true
      | done hok htable hready =>
          exact .inr (.inl ⟨hiff.mpr hok, _, rfl, htable, hready⟩)
      | left hnot => exact .inr (.inr ⟨mt hiff.mp hnot, rfl⟩)

/-- The calls refine those on the physical memory alone: a sequence that goes
through is one of these, and leaves the pages as they were. -/
theorem Process.Ready.performed (hp : p.Ready) (hcs : ∀ c ∈ cs, c.2.Sized)
    {outs : List (ℕ × Option (BitVec 32))} {p' : Process}
    (hrun : runPhysCalls cs p = some (outs, p')) :
    Performed (cs.map Prod.snd) outs p.mem p'.mem ∧
      p'.space.table = p.space.table ∧ p'.Ready := by
  induction cs generalizing p outs with
  | nil =>
      obtain ⟨rfl, rfl⟩ := Prod.mk.inj (Option.some.inj hrun)
      exact ⟨.nil, rfl, hp⟩
  | cons kc cs ih =>
      obtain ⟨k, c⟩ := kc
      obtain ⟨⟨ret, value, q⟩, hq, hrest⟩ := Option.bind_eq_some_iff.mp hrun
      obtain ⟨⟨rest, q'⟩, hq', hout⟩ := Option.bind_eq_some_iff.mp hrest
      obtain ⟨rfl, rfl⟩ := Prod.mk.inj (Option.some.inj hout)
      have hcs' : ∀ c ∈ cs, c.2.Sized :=
        fun c hc => hcs c (List.mem_cons_of_mem _ hc)
      obtain ⟨hfail, hwindow⟩ | ⟨-, space, hdone, htable, hready⟩ | ⟨-, hleft⟩ :=
        hp.run_cases k (hcs (k, c) List.mem_cons_self)
      · obtain ⟨rfl, rfl, rfl⟩ : c.failure = ret ∧ none = value ∧ p = q := by
          simpa using hfail.symm.trans hq
        obtain ⟨hperformed, htable, hready⟩ := ih hp hcs' hq'
        exact ⟨.failed hwindow hperformed, htable, hready⟩
      · obtain ⟨rfl, rfl, rfl⟩ : dspErrOk = ret ∧ (c.effect p.mem).1 = value ∧
            ⟨p.fastMmap, space, (c.effect p.mem).2⟩ = q := by
          simpa using hdone.symm.trans hq
        obtain ⟨hperformed, htable', hready'⟩ := ih hready hcs' hq'
        exact ⟨.done hperformed, htable'.trans htable, hready'⟩
      · exact absurd (hleft.symm.trans hq) (Option.some_ne_none _).symm

/-- A sequence goes through if all its ranges are all right, and does not if one in
a window is not. -/
theorem Process.Ready.isSome_runPhysCalls (hp : p.Ready)
    (hcs : ∀ c ∈ cs, c.2.Sized) :
    ((∀ c ∈ cs, c.2.InRange) → (runPhysCalls cs p).isSome) ∧
      ((runPhysCalls cs p).isSome →
        ∀ c ∈ cs, c.2.InWindow → c.2.InRange) := by
  induction cs generalizing p with
  | nil => exact ⟨fun _ => rfl, fun _ c hc => absurd hc List.not_mem_nil⟩
  | cons kc cs ih =>
      obtain ⟨k, c⟩ := kc
      have hcs' : ∀ c ∈ cs, c.2.Sized :=
        fun c hc => hcs c (List.mem_cons_of_mem _ hc)
      -- the rest is reached with the same pages, and answers in the same way
      have hgo {ret : ℕ} {value : Option (BitVec 32)} {q : Process}
          (hq : c.run k p = some (ret, value, q)) :
          (runPhysCalls ((k, c) :: cs) p).isSome = (runPhysCalls cs q).isSome := by
        rw [runPhysCalls, hq]
        cases hrest : runPhysCalls cs q with
        | none => simp [hrest]
        | some r => simp [hrest]
      obtain ⟨hfail, hwindow⟩ | ⟨hok, space, hdone, -, hready⟩ | ⟨hnot, hleft⟩ :=
        hp.run_cases k (hcs (k, c) List.mem_cons_self)
      · obtain ⟨hto, hof⟩ := ih hp hcs'
        rw [hgo hfail]
        refine ⟨fun h => hto fun c hc => h c (List.mem_cons_of_mem _ hc), ?_⟩
        intro hsome c' hc' hin
        obtain rfl | hc' := List.mem_cons.mp hc'
        · exact absurd hin hwindow
        · exact hof hsome c' hc' hin
      · obtain ⟨hto, hof⟩ := ih hready hcs'
        rw [hgo hdone]
        refine ⟨fun h => hto fun c hc => h c (List.mem_cons_of_mem _ hc), ?_⟩
        intro hsome c' hc' hin
        obtain rfl | hc' := List.mem_cons.mp hc'
        · exact hok
        · exact hof hsome c' hc' hin
      · refine ⟨fun h => absurd (h (k, c) List.mem_cons_self) hnot, ?_⟩
        intro hsome
        rw [runPhysCalls, hleft] at hsome
        exact absurd hsome Bool.false_ne_true

/-- What the functions make of the physical memory, whatever is mapped and wherever
the system maps pages. -/
theorem runPhysCalls_refines (hp : p.Ready) (hcs : ∀ c ∈ cs, c.2.Sized) :
    (∀ outs p', runPhysCalls cs p = some (outs, p') →
      Performed (cs.map Prod.snd) outs p.mem p'.mem ∧
        p'.space.table = p.space.table ∧ p'.Ready) ∧
    ((∀ c ∈ cs, c.2.InRange) → (runPhysCalls cs p).isSome) ∧
    ((runPhysCalls cs p).isSome →
      ∀ c ∈ cs, c.2.InWindow → c.2.InRange) :=
  ⟨fun _ _ hrun => hp.performed hcs hrun, hp.isSome_runPhysCalls hcs⟩

/-- Ranges of the first window. -/
theorem findWindow_image (hle : 0x86000000 ≤ physAddr)
    (hlt : physAddr < 0x86400000) :
    findWindow fastMmap physAddr = some ⟨0x86000000, 0, 0x400000⟩ := by
  have hin : InBounds physAddr 0x86000000 0x400000 := ⟨hle, hlt⟩
  have hfirst : fastMmap.head? = some ⟨0x86000000, 0, 0x400000⟩ := by decide
  obtain ⟨ws, hws⟩ := List.head?_eq_some_iff.mp hfirst
  rw [findWindow, hws]
  exact List.find?_cons_of_pos (decide_eq_true hin)

theorem rangeOk_image (hle : 0x86000000 ≤ physAddr)
    (hlt : physAddr < 0x86400000) :
    RangeOk physAddr numBytes ↔ physAddr + numBytes ≤ 0x86400000 := by
  rw [RangeOk, findWindow_image hle hlt]
  exact Iff.rfl

/-- A process with an address in use. -/
theorem exists_ready (mem : Memory 32) :
    ∃ p : Process, p.Ready ∧ p.mem = mem := by
  obtain ⟨s, hs, -⟩ := exists_acrossPages
  exact ⟨⟨s.fastMmap, s.space, mem⟩, ⟨s.live, hs⟩, rfl⟩

/-- The reset vector is filled and a register written and changed. -/
theorem runPhysCalls_refines_fill : ∃ p : Process,
    (∀ outs p', runPhysCalls
        [(demoKernel, .memset 0x86000080 0xCC 0xf80),
          (demoKernel, .regWrite32 0x48004000 1),
          (demoKernel, .regBitSet 0x48004000 4)] p = some (outs, p') →
      Performed
          [.memset 0x86000080 0xCC 0xf80, .regWrite32 0x48004000 1,
            .regBitSet 0x48004000 4] outs p.mem p'.mem ∧
        p'.space.table = p.space.table ∧ p'.Ready) ∧
    (runPhysCalls
        [(demoKernel, .memset 0x86000080 0xCC 0xf80),
          (demoKernel, .regWrite32 0x48004000 1),
          (demoKernel, .regBitSet 0x48004000 4)] p).isSome := by
  obtain ⟨p, hp, -⟩ := exists_ready fun _ => 0
  have hsized : ∀ c ∈ [(demoKernel, PhysCall.memset 0x86000080 0xCC 0xf80),
      (demoKernel, .regWrite32 0x48004000 1),
      (demoKernel, .regBitSet 0x48004000 4)], c.2.Sized := by
    simp [PhysCall.Sized, PhysCall.range]
  have hrange : ∀ c ∈ [(demoKernel, PhysCall.memset 0x86000080 0xCC 0xf80),
      (demoKernel, .regWrite32 0x48004000 1),
      (demoKernel, .regBitSet 0x48004000 4)], c.2.InRange := by
    have hfill : RangeOk 0x86000080 0xf80 :=
      (rangeOk_image (by decide) (by decide)).mpr (by decide)
    have hwindow : findWindow fastMmap 0x48004000 =
      some ⟨0x48000000, 0, 0x400000⟩ := by decide
    have hreg : RangeOk 0x48004000 4 := by
      rw [RangeOk, hwindow]
      decide
    simp [PhysCall.InRange, PhysCall.range, hfill, hreg]
  have h := runPhysCalls_refines hp hsized
  exact ⟨p, h.1, h.2.1 hrange⟩

end C64Tools.Client
