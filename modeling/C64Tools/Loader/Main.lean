import C64Tools.Loader.Activity

/-!
# The program `c64_load`

From the command line to the exit code, with what it does on its way.  What the
system answers is given: the image, the results of the calls of the driver, and what
the DSP makes of the memory once it has been started.

The result of `coff_open` is put into a variable that nothing looks at.  A file
which is not there is noticed when its header is read.
-/

namespace C64Tools.Loader

open ByteMemory Client Coff

/-- `loc_parse_args`: `log_debug_level` and `dsp_image_pathname`. -/
def locParseArgs (argv : List String) : Option (ℕ × String) :=
  match argv with
  | [] => none
  | [_] => none
  | [_, opt, path] =>
      if opt = "-v" then some (1, path)
      else if opt = "-vv" then some (10, path)
      else if opt = "-vvv" then some (20, path)
      else none
  | _ :: path :: _ => some (0, path)

/-- What `c64_load` meets with.  After `C64_IOCTL_START` word `j` is read from
`runs mem j`, if `mem` is the memory before. -/
structure System where
  fopen : String → Option (List Byte)
  osalAlloc : Coff.Word → Bool
  osalInit : ℕ
  dspOpen : ℕ
  kernel : Kernel
  pwrOnRst : ℕ
  start : Coff.Word → ℕ
  mem : Memory 32
  runs : Memory 32 → ℕ → Memory 32

/-- The calls that matter to others, with their results, and the memory at that
time. -/
inductive Effect where
  | initRoot (ret : ℕ)
  | pwrOnRst (ret : ℕ)
  | sections (err : Option Err) (mem : Memory 32)
  | start (entryPoint : Coff.Word) (mem : Memory 32) (ret : ℕ)
  | activity (ret : ℕ)
  | exitRoot
  | coffClose
  | coffExit

/-! ## The headers -/

/-- `.bios`. -/
def biosChars : List Byte :=
  [0x2E, 0x62, 0x69, 0x6F, 0x73]

/-- `b_coff_bios_5xx` after the section headers were parsed. -/
def coffBios5xx (c : CoffInfo) : Prop :=
  ∃ h ∈ c.secHeaders, h.ShortName ∧ h.name.take 5 = biosChars

instance (c : CoffInfo) : Decidable (coffBios5xx c) :=
  inferInstanceAs (Decidable (∃ h ∈ _, _))

/-- `coff_opt_header.entry_point`; the optional header follows the file header. -/
def coffEntryPoint (file : List Byte) : Coff.Word :=
  word32 (file.drop 22) 16

/-- From `coff_open` to the test for `b_coff_bios_5xx`. -/
def readHeaders (osalAlloc : Coff.Word → Bool) (file : Option (List Byte)) :
    Except Err (CoffInfo × Reader) :=
  match file with
  | none => .error .fileNotOpen
  | some file =>
      match coffOpen file with
      | .error _ => .error .fileNotOpen
      | .ok _ =>
          match coffReadHeaders osalAlloc file with
          | .error e => .error (.coff e)
          | .ok (c, r) =>
              if coffBios5xx c then .ok (c, r) else .error .genBios5xx

/-! ## The DSP -/

/-- Between `dsp_init_root` and `dsp_exit_root`: `err` at the end, and what was
done. -/
def loadAndStart (sys : System) (c : CoffInfo) (r : Reader) (p : Process) :
    Option (Option Err × List Effect) :=
  if sys.pwrOnRst = dspErrOk then
    match locReadSections sys.kernel sys.osalAlloc c r p with
    | none => none
    | some (some e, p) =>
        some (some e, [.pwrOnRst sys.pwrOnRst, .sections (some e) p.mem])
    | some (none, p) =>
        let entryPoint := coffEntryPoint r.file
        let before : List Effect :=
          [.pwrOnRst sys.pwrOnRst, .sections none p.mem,
            .start entryPoint p.mem (sys.start entryPoint)]
        if sys.start entryPoint = dspErrOk then
          match locCheckDspActivity sys.kernel (sys.runs p.mem) p with
          | none => none
          | some (ret, _) => some (ofDsp ret, before ++ [.activity ret])
        else some (ofDsp (sys.start entryPoint), before)
  else some (ofDsp sys.pwrOnRst, [.pwrOnRst sys.pwrOnRst])

/-- From `dsp_init_root` to `dsp_exit_root`, which is left out if the former has
failed. -/
def loadImage (sys : System) (c : CoffInfo) (r : Reader) :
    Option (Option Err × List Effect) :=
  let (ret, fastMmap, space) :=
    dspInitRoot sys.osalInit sys.dspOpen sys.kernel ⟨fun _ => none, 0⟩
  if ret = dspErrOk then
    (loadAndStart sys c r ⟨fastMmap, space, sys.mem⟩).map
      fun (err, effects) => (err, .initRoot ret :: effects ++ [.exitRoot])
  else some (ofDsp ret, [.initRoot ret])

/-- `main`: the exit code, and what was done. -/
def main (argv : List String) (sys : System) : Option (ℕ × List Effect) :=
  match locParseArgs argv with
  | none => some (10, [])
  | some (_, path) =>
      let run :=
        match readHeaders sys.osalAlloc (sys.fopen path) with
        | .error e => some (some e, [])
        | .ok (c, r) => loadImage sys c r
      run.map fun (err, effects) =>
        (if err = none then 0 else 10, effects ++ [.coffClose, .coffExit])

/-! ## What was done -/

/-- The words are their numbers when they are read after the DSP was started. -/
def ComesAlive (sys : System) (mem : Memory 32) : Prop :=
  ∀ j, 16 ≤ j → j < numResetWords →
    readWord32 (sys.runs mem j) (resetBuf j) = BitVec.ofNat 32 j

/-- What may be done between `dsp_init_root` and `dsp_exit_root`. -/
inductive Boots (sys : System) (c : CoffInfo) (file : List Byte) :
    Option Err → List Effect → Prop
  | notHeld : sys.pwrOnRst ≠ dspErrOk →
      Boots sys c file (ofDsp sys.pwrOnRst) [.pwrOnRst sys.pwrOnRst]
  | notLoaded {e : Err} {mem : Memory 32} : sys.pwrOnRst = dspErrOk →
      Boots sys c file (some e)
        [.pwrOnRst sys.pwrOnRst, .sections (some e) mem]
  | notStarted {mem : Memory 32} : sys.pwrOnRst = dspErrOk →
      Puts file c.secHeaders (fill sys.mem) none mem →
      sys.start (coffEntryPoint file) ≠ dspErrOk →
      Boots sys c file (ofDsp (sys.start (coffEntryPoint file)))
        [.pwrOnRst sys.pwrOnRst, .sections none mem,
          .start (coffEntryPoint file) mem (sys.start (coffEntryPoint file))]
  | checked {mem : Memory 32} {ret : ℕ} : sys.pwrOnRst = dspErrOk →
      Puts file c.secHeaders (fill sys.mem) none mem →
      sys.start (coffEntryPoint file) = dspErrOk →
      (ret = dspErrOk ↔ ComesAlive sys mem) →
      Boots sys c file (ofDsp ret)
        [.pwrOnRst sys.pwrOnRst, .sections none mem,
          .start (coffEntryPoint file) mem (sys.start (coffEntryPoint file)),
          .activity ret]

variable {sys : System} {c : CoffInfo} {r : Reader} {p : Process}
  {err : Option Err} {effects : List Effect} {argv : List String} {code : ℕ}

theorem loadAndStart_boots (hp : p.Ready) (hmem : p.mem = sys.mem)
    (hfile : r.file.length < 2 ^ 31)
    (h : loadAndStart sys c r p = some (err, effects)) :
    Boots sys c r.file err effects := by
  obtain ⟨hputs, -⟩ :=
    locReadSections_puts sys.kernel sys.osalAlloc c hp hfile
  rw [hmem] at hputs
  unfold loadAndStart at h
  by_cases hheld : sys.pwrOnRst = dspErrOk
  · rw [if_pos hheld] at h
    cases hrun : locReadSections sys.kernel sys.osalAlloc c r p with
    | none =>
        rw [hrun] at h
        exact absurd h (Option.some_ne_none _).symm
    | some o =>
        obtain ⟨err', p'⟩ := o
        obtain ⟨-, hready, hearly | hloaded⟩ := hputs err' p' hrun
        · obtain ⟨e, rfl⟩ := Option.ne_none_iff_exists'.mp hearly.1
          rw [hrun] at h
          obtain ⟨rfl, rfl⟩ := Prod.mk.inj (Option.some.inj h)
          exact .notLoaded hheld
        · cases err' with
          | some e =>
              rw [hrun] at h
              obtain ⟨rfl, rfl⟩ := Prod.mk.inj (Option.some.inj h)
              exact .notLoaded hheld
          | none =>
              rw [hrun] at h
              by_cases hstart : sys.start (coffEntryPoint r.file) = dspErrOk
              · obtain ⟨ret, q, hcheck, -, -, -, hiff⟩ :=
                  locCheckDspActivity_spec hready sys.kernel
                    (sys.runs p'.mem)
                simp only [hstart, if_true, hcheck] at h
                obtain ⟨rfl, rfl⟩ := Prod.mk.inj (Option.some.inj h)
                have hboots : Boots sys c r.file _ _ :=
                  .checked hheld hloaded hstart hiff
                rw [hstart] at hboots
                exact hboots
              · simp only [hstart, if_false] at h
                obtain ⟨rfl, rfl⟩ := Prod.mk.inj (Option.some.inj h)
                exact .notStarted hheld hloaded hstart
  · rw [if_neg hheld] at h
    obtain ⟨rfl, rfl⟩ := Prod.mk.inj (Option.some.inj h)
    exact .notHeld hheld

/-! ## Reading the headers -/

theorem coffSeekAbs_file {off : Coff.Word} {r' : Reader}
    (h : coffSeekAbs r off = .ok r') : r'.file = r.file := by
  unfold coffSeekAbs at h
  split_ifs at h
  rw [← Except.ok.inj h]

theorem coffStringTableRead_file {alloc : Coff.Word → Bool} {h : CoffFileHeader}
    {r' : Reader} (hread : coffStringTableRead alloc h r = .ok r') :
    r'.file = r.file := by
  unfold coffStringTableRead at hread
  dsimp only at hread
  split at hread
  · cases hread
  next r1 hseek =>
    split at hread
    · cases hread
    next bs r2 hsize =>
      split_ifs at hread
      split at hread
      · cases hread
      next bs' r3 hchars =>
        rw [coffSeekAbs_file hread, (length_of_coffRead hchars).2,
          (length_of_coffRead hsize).2, coffSeekAbs_file hseek]

theorem exists_of_bind_eq_ok {α β : Type} {x : Except CoffError α}
    {f : α → Except CoffError β} {b : β} (h : (x >>= f) = .ok b) :
    ∃ a, x = .ok a ∧ f a = .ok b := by
  cases x with
  | error e => exact absurd h (by rintro ⟨⟩)
  | ok a => exact ⟨a, rfl, h⟩

theorem locReadSectionHeaders_file {n : ℕ} {c c' : CoffInfo} {r' : Reader}
    (h : locReadSectionHeaders n c r = .ok (c', r')) : r'.file = r.file := by
  induction n generalizing c r with
  | zero =>
      obtain ⟨-, rfl⟩ := Prod.mk.inj (Except.ok.inj h)
      rfl
  | succ n ih =>
      obtain ⟨⟨c₁, r₁⟩, hparse, hrest⟩ := exists_of_bind_eq_ok h
      obtain ⟨⟨bs, r₂⟩, hread, hok⟩ := exists_of_bind_eq_ok hparse
      obtain ⟨-, rfl⟩ := Prod.mk.inj (Except.ok.inj hok)
      rw [ih hrest, (length_of_coffRead hread).2]

/-- Reading the headers does not change the file. -/
theorem coffReadHeaders_file {alloc : Coff.Word → Bool} {file : List Byte}
    (h : coffReadHeaders alloc file = .ok (c, r)) : r.file = file := by
  obtain ⟨r₀, hopen, h⟩ := exists_of_bind_eq_ok h
  obtain ⟨⟨header, r₁⟩, hbasic, hsections⟩ := exists_of_bind_eq_ok h
  obtain ⟨⟨header', r₂⟩, hfileHeader, hbasic⟩ := exists_of_bind_eq_ok hbasic
  obtain ⟨r₃, hoptHeader, hbasic⟩ := exists_of_bind_eq_ok hbasic
  obtain ⟨r₄, hstrTbl, hbasic⟩ := exists_of_bind_eq_ok hbasic
  obtain ⟨-, rfl⟩ := Prod.mk.inj (Except.ok.inj hbasic)
  obtain ⟨⟨bs, r₅⟩, hread, hcheck⟩ := exists_of_bind_eq_ok hfileHeader
  obtain ⟨⟨bs', r₆⟩, hread', hmagic⟩ := exists_of_bind_eq_ok hoptHeader
  have hfirst : r₅ = r₂ := by
    dsimp only at hcheck
    split_ifs at hcheck
    exact (Prod.mk.inj (Except.ok.inj hcheck)).2
  have hopt : r₆ = r₃ := by
    dsimp only at hmagic
    split_ifs at hmagic
    exact Except.ok.inj hmagic
  have hfile : r₀.file = file := by
    unfold coffOpen at hopen
    split_ifs at hopen
    rw [← Except.ok.inj hopen]
  rw [locReadSectionHeaders_file hsections, coffStringTableRead_file hstrTbl,
    ← hopt, (length_of_coffRead hread').2, ← hfirst,
    (length_of_coffRead hread).2, hfile]

/-! ## The program -/

theorem ofDsp_eq_none_iff {ret : ℕ} : ofDsp ret = none ↔ ret = dspErrOk := by
  rw [ofDsp, ite_eq_left_iff]
  exact ⟨fun h => by_contra fun hne => Option.some_ne_none _ (h hne),
    fun hok hne => absurd hok hne⟩

/-- The DSP is started, if at all, with the memory as the image has it, and it
counts as running if the words are their numbers. -/
structure Boots.Spec (sys : System) (c : CoffInfo) (file : List Byte)
    (err : Option Err) (effects : List Effect) : Prop where
  starts : ∀ e mem ret, .start e mem ret ∈ effects →
    sys.pwrOnRst = dspErrOk ∧ e = coffEntryPoint file ∧ ret = sys.start e ∧
      Puts file c.secHeaders (fill sys.mem) none mem
  ok_iff : err = none ↔
    ∃ e mem, .start e mem dspErrOk ∈ effects ∧ ComesAlive sys mem
  inside : ∀ ret, Effect.initRoot ret ∉ effects ∧ Effect.exitRoot ∉ effects

theorem Boots.spec {file : List Byte} (h : Boots sys c file err effects) :
    Boots.Spec sys c file err effects := by
  cases h with
  | notHeld hheld =>
      refine ⟨by simp, ?_, by simp⟩
      exact iff_of_false (mt ofDsp_eq_none_iff.mp hheld) (by simp)
  | notLoaded hheld =>
      exact ⟨by simp, by simp, by simp⟩
  | @notStarted mem hheld hputs hstart =>
      refine ⟨fun e mem' ret hmem => ?_, ?_, by simp⟩
      · obtain ⟨rfl, rfl, rfl⟩ : e = coffEntryPoint file ∧ mem' = mem ∧
          ret = sys.start (coffEntryPoint file) := by simpa using hmem
        exact ⟨hheld, rfl, rfl, hputs⟩
      · refine iff_of_false (mt ofDsp_eq_none_iff.mp hstart) ?_
        rintro ⟨e, mem', hmem, -⟩
        obtain ⟨-, -, hret⟩ : e = coffEntryPoint file ∧ mem' = mem ∧
          dspErrOk = sys.start (coffEntryPoint file) := by simpa using hmem
        exact hstart hret.symm
  | @checked mem ret hheld hputs hstart halive =>
      refine ⟨fun e mem' ret hmem => ?_, ?_, by simp⟩
      · obtain ⟨rfl, rfl, rfl⟩ : e = coffEntryPoint file ∧ mem' = mem ∧
          ret = sys.start (coffEntryPoint file) := by simpa using hmem
        exact ⟨hheld, rfl, rfl, hputs⟩
      · rw [ofDsp_eq_none_iff, halive, hstart]
        constructor
        · exact fun h => ⟨coffEntryPoint file, mem, by simp, h⟩
        · rintro ⟨e, mem', hmem, h⟩
          obtain ⟨-, rfl⟩ : e = coffEntryPoint file ∧ mem' = mem := by
            simpa using hmem
          exact h

/-- The headers are those of the image that is named on the command line. -/
theorem readHeaders_eq_ok {file : Option (List Byte)} {alloc : Coff.Word → Bool}
    (h : readHeaders alloc file = .ok (c, r)) :
    ∃ bs, file = some bs ∧ bs.length < 2 ^ 31 ∧ r.file = bs ∧
      coffReadHeaders alloc bs = .ok (c, r) ∧ coffBios5xx c := by
  unfold readHeaders at h
  split at h
  · cases h
  next bs =>
    split at h
    · cases h
    next hopen =>
      split at h
      · cases h
      next c' r' hread =>
        split_ifs at h with hbios
        obtain ⟨rfl, rfl⟩ := Prod.mk.inj (Except.ok.inj h)
        have hlt : bs.length < 2 ^ 31 := by
          by_contra hnot
          rw [coffOpen, if_neg hnot] at hopen
          cases hopen
        exact ⟨bs, rfl, hlt, coffReadHeaders_file hread, hread, hbios⟩

theorem ready_of_dspInitRoot {osalInit dspOpen : ℕ} {k : Kernel}
    {ws : List DspMemRegion} {space : AddressSpace} (mem : Memory 32)
    (h : dspInitRoot osalInit dspOpen k ⟨fun _ => none, 0⟩ =
      (dspErrOk, ws, space)) : Process.Ready ⟨ws, space, mem⟩ :=
  ⟨[], .init ⟨rfl, osalInit, dspOpen, k, h⟩⟩

/-- What the program has done when it ends: sections that do not overlap are all
there when the DSP is started. -/
theorem main_starts (h : main argv sys = some (code, effects)) :
    (∀ e mem ret, .start e mem ret ∈ effects →
      sys.pwrOnRst = dspErrOk ∧ ∃ level path file c r,
        locParseArgs argv = some (level, path) ∧
        sys.fopen path = some file ∧
        coffReadHeaders sys.osalAlloc file = .ok (c, r) ∧ coffBios5xx c ∧
        e = coffEntryPoint file ∧ ret = sys.start e ∧
        Puts file c.secHeaders (fill sys.mem) none mem ∧
        (c.secHeaders.Pairwise
            (fun g h => IsPut g → IsPut h → Apart file g h) →
          ImageLoaded file c.secHeaders sys.mem mem)) ∧
    (code = 0 ∨ code = 10) ∧
    (code = 0 ↔
      ∃ e mem, .start e mem dspErrOk ∈ effects ∧ ComesAlive sys mem) ∧
    (.exitRoot ∈ effects ↔ .initRoot dspErrOk ∈ effects) := by
  unfold main at h
  split at h
  next hargs =>
    obtain ⟨rfl, rfl⟩ := Prod.mk.inj (Option.some.inj h)
    refine ⟨by simp, .inr rfl, iff_of_false (by decide) (by simp), by simp⟩
  next level path hargs =>
    obtain ⟨⟨err, done⟩, hrun, hcode⟩ := Option.map_eq_some_iff.mp h
    obtain ⟨rfl, rfl⟩ := Prod.mk.inj hcode
    have hzero : (if err = none then 0 else 10) = 0 ↔ err = none := by
      split_ifs with herr
      · exact iff_of_true rfl herr
      · exact iff_of_false (by decide) herr
    have hcodes : err = none ∨ (if err = none then 0 else 10) = 10 :=
      or_iff_not_imp_left.mpr fun herr => if_neg herr
    rw [hzero]
    split at hrun
    next e hheaders =>
      obtain ⟨rfl, rfl⟩ := Prod.mk.inj (Option.some.inj hrun)
      exact ⟨by simp, hcodes, by simp, by simp⟩
    next c r hheaders =>
      obtain ⟨file, hopen, hlt, rfl, hread, hbios⟩ := readHeaders_eq_ok hheaders
      obtain ⟨ret, ws, space, hinit⟩ : ∃ ret ws space,
          dspInitRoot sys.osalInit sys.dspOpen sys.kernel
            ⟨fun _ => none, 0⟩ = (ret, ws, space) := ⟨_, _, _, rfl⟩
      rw [loadImage, hinit] at hrun
      by_cases hret : ret = dspErrOk
      · subst hret
        simp only [if_true] at hrun
        obtain ⟨⟨err', inner⟩, hinner, heq⟩ := Option.map_eq_some_iff.mp hrun
        obtain ⟨rfl, rfl⟩ := Prod.mk.inj heq
        have hspec := (loadAndStart_boots (ready_of_dspInitRoot sys.mem hinit)
          rfl hlt hinner).spec
        refine ⟨fun e mem ret hmem => ?_, hcodes, ?_, by simp⟩
        · have hin : .start e mem ret ∈ inner := by simpa using hmem
          obtain ⟨hheld, he, hstart, hputs⟩ := hspec.starts e mem ret hin
          exact ⟨hheld, level, path, r.file, c, r, hargs, hopen, hread, hbios,
            he, hstart, hputs, hputs.imageLoaded⟩
        · rw [hspec.ok_iff]
          simp
      · simp only [hret, if_false] at hrun
        obtain ⟨rfl, rfl⟩ := Prod.mk.inj (Option.some.inj hrun)
        refine ⟨by simp, hcodes, ?_, ?_⟩
        · exact iff_of_false (mt ofDsp_eq_none_iff.mp hret) (by simp)
        · simp [Ne.symm hret]

/-! ## A good image -/

/-- A file that the parsers accept, built for this core, whose sections fit, also
those with a long name into the buffer for raw data. -/
structure CoreImage (file : List Byte) (hs : List CoffSecHeader) : Prop where
  image : IsImage file hs
  fits : FitsCore file hs
  covered : ∀ h ∈ hs, h.IsRaw → h.Covered hs
  bios : ∃ h ∈ hs, h.ShortName ∧ h.name.take 5 = biosChars
  hasRaw : ∃ h ∈ hs, h.ShortName ∧ 0 < h.rawDataOff ∧ 0 < h.size

/-- Nothing fails, and the DSP executes what was loaded. -/
structure System.Good (sys : System) (file : List Byte)
    (hs : List CoffSecHeader) : Prop where
  alloc : ∀ n, sys.osalAlloc n = true
  init : (dspInitRoot sys.osalInit sys.dspOpen sys.kernel
    ⟨fun _ => none, 0⟩).1 = dspErrOk
  held : sys.pwrOnRst = dspErrOk
  start : sys.start (coffEntryPoint file) = dspErrOk
  alive : ∀ mem, ImageLoaded file hs sys.mem mem → ComesAlive sys mem

variable {file : List Byte} {hs : List CoffSecHeader}

theorem CoreImage.readHeaders_eq (h : CoreImage file hs)
    {alloc : Coff.Word → Bool} (halloc : ∀ n, alloc n = true) :
    ∃ c r, readHeaders alloc (some file) = .ok (c, r) ∧ r.file = file ∧
      c.secHeaders = hs ∧ 0 < c.maxRawDataSize ∧
      ∀ h ∈ hs, h.IsRaw → h.size ≤ c.maxRawDataSize := by
  have hread := h.image.readHeaders halloc
  have hopen : coffOpen file = .ok ⟨file, 0⟩ := if_pos h.image.length
  have hsec : (hs.foldl CoffInfo.addSecHeader CoffInfo.init).secHeaders = hs := by
    rw [secHeaders_foldl]
    rfl
  have hbios : coffBios5xx (hs.foldl CoffInfo.addSecHeader CoffInfo.init) := by
    rw [coffBios5xx, hsec]
    exact h.bios
  obtain ⟨g, hg, hshort, hraw, hsize⟩ := h.hasRaw
  have hmax := size_le_maxRawDataSize (c := CoffInfo.init) hg hshort hraw
  refine ⟨_, ⟨file, BitVec.ofNat 32 (50 + 48 * hs.length)⟩, ?_, rfl, hsec, ?_,
    fun g hg hraw => size_le_iff_covered.mpr (h.covered g hg hraw)⟩
  · simp only [readHeaders, hopen, hread, hbios, if_true]
  · rw [BitVec.lt_def] at hsize ⊢
    rw [BitVec.le_def] at hmax
    exact Nat.lt_of_lt_of_le hsize hmax

theorem loadAndStart_of_good (hgood : sys.Good r.file c.secHeaders)
    (hp : p.Ready) (hmem : p.mem = sys.mem) (hfile : r.file.length < 2 ^ 31)
    (hmax : 0 < c.maxRawDataSize) (hfits : FitsCore r.file c.secHeaders)
    (hbuf : ∀ h ∈ c.secHeaders, h.IsRaw → h.size ≤ c.maxRawDataSize) :
    ∃ mem, loadAndStart sys c r p = some (none,
        [.pwrOnRst dspErrOk, .sections none mem,
          .start (coffEntryPoint r.file) mem dspErrOk, .activity dspErrOk]) ∧
      ImageLoaded r.file c.secHeaders sys.mem mem := by
  obtain ⟨p', hrun, hloaded, -, hready⟩ :=
    locReadSections_of_fitsCore sys.kernel hp hfile hmax (hgood.alloc _) hfits
      hbuf
  rw [hmem] at hloaded
  obtain ⟨ret, q, hcheck, -, -, -, hiff⟩ :=
    locCheckDspActivity_spec hready sys.kernel (sys.runs p'.mem)
  obtain rfl : ret = dspErrOk := hiff.mpr (hgood.alive p'.mem hloaded)
  refine ⟨p'.mem, ?_, hloaded⟩
  rw [loadAndStart, if_pos hgood.held, hrun]
  simp only [hgood.start, if_true, hcheck, hgood.held]
  rfl

/-- From the command line to the end, for a good image. -/
theorem CoreImage.main_eq (himage : CoreImage file hs) (hgood : sys.Good file hs)
    {level : ℕ} {path : String}
    (hargs : locParseArgs argv = some (level, path))
    (hopen : sys.fopen path = some file) :
    ∃ mem, ImageLoaded file hs sys.mem mem ∧
      main argv sys = some (0,
        [.initRoot dspErrOk, .pwrOnRst dspErrOk, .sections none mem,
          .start (coffEntryPoint file) mem dspErrOk, .activity dspErrOk,
          .exitRoot, .coffClose, .coffExit]) := by
  obtain ⟨c, r, hread, rfl, rfl, hmax, hbuf⟩ :=
    himage.readHeaders_eq hgood.alloc
  obtain ⟨ret, ws, space, hinit⟩ : ∃ ret ws space,
      dspInitRoot sys.osalInit sys.dspOpen sys.kernel ⟨fun _ => none, 0⟩ =
        (ret, ws, space) := ⟨_, _, _, rfl⟩
  obtain rfl : ret = dspErrOk := by
    have hret := hgood.init
    rw [hinit] at hret
    exact hret
  obtain ⟨mem, hrun, hloaded⟩ := loadAndStart_of_good hgood
    (ready_of_dspInitRoot sys.mem hinit) rfl himage.image.length hmax
    himage.fits hbuf
  refine ⟨mem, hloaded, ?_⟩
  rw [main, hargs]
  simp only [hopen, hread, loadImage, hinit, if_true, hrun]
  rfl

/-- One section, `.bios`, with four bytes. -/
def coreHeaders : List CoffSecHeader :=
  [⟨biosChars ++ [0, 0, 0], 0x86010000, 4, 98, 0x20⟩]

def coreImage : List Byte :=
  imageBytes coreHeaders [1, 2, 3, 4]

/-- The DSP does nothing but what the check is for. -/
def coreSystem : System where
  fopen path := if path = "core.out" then some coreImage else none
  osalAlloc _ := true
  osalInit := 0
  dspOpen := 0
  kernel := demoKernel
  pwrOnRst := 0
  start _ := 0
  mem _ := 0
  runs mem _ := locItsAlive mem

theorem coreImage_coreImage : CoreImage coreImage coreHeaders where
  image := by decide +kernel
  fits :=
    { inFile := by unfold InFile; decide +kernel
      inArea := by decide +kernel
      apart := List.pairwise_singleton _ _ }
  covered h hh _ := by
    obtain rfl := List.mem_singleton.mp hh
    exact .inr ⟨_, hh, by decide, by decide, BitVec.le_refl _⟩
  bios := by decide
  hasRaw := by decide

theorem dspInitRoot_demoKernel :
    (dspInitRoot 0 0 demoKernel ⟨fun _ => none, 0⟩).1 = dspErrOk := by
  decide +kernel

theorem coreSystem_good : coreSystem.Good coreImage coreHeaders where
  alloc _ := rfl
  init := dspInitRoot_demoKernel
  held := rfl
  start := rfl
  alive := by
    intro mem _ j hle hlt
    simp only [coreSystem]
    exact readWord32_locItsAlive mem hle hlt

theorem coreArgs :
    locParseArgs ["c64_load", "core.out"] = some (0, "core.out") :=
  rfl

theorem coreSystem_fopen : coreSystem.fopen "core.out" = some coreImage := by
  simp only [coreSystem, if_true]

/-- The same run, of which nothing is known but that it has come to its end. -/
theorem main_starts_example : ∃ code effects,
    main ["c64_load", "core.out"] coreSystem = some (code, effects) ∧
      (.exitRoot ∈ effects ↔ .initRoot dspErrOk ∈ effects) ∧
      (code = 0 ↔ ∃ e mem, .start e mem dspErrOk ∈ effects ∧
        ComesAlive coreSystem mem) := by
  obtain ⟨mem, -, hrun⟩ := coreImage_coreImage.main_eq coreSystem_good
    coreArgs coreSystem_fopen
  obtain ⟨-, -, hcode, hexit⟩ := main_starts hrun
  exact ⟨_, _, hrun, hexit, hcode⟩

end C64Tools.Loader
