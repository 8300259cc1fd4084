import C64Tools.Shm.Regions

/-!
# Opening and closing the device

`dsp_open()` acquires a descriptor and three mappings, one after the other, and
then resumes the DSP if it is told to.  Its flag is set only if the DSP had to be
resumed, although it also succeeds if the DSP is running already or is not to be
resumed at all; and when it fails to resume the DSP, the log buffer stays mapped.

Nothing is allocated by these calls, and `osal_init()` without the rights of root
opens nothing.  So descriptors and mappings are all that there is to be given
back.
-/

namespace C64Tools.Client

open Kmod Shm

/-- `EBUSY`. -/
def ebusy : ℕ := 16

/-- The descriptors of a process, and its mappings with their sizes. -/
structure Os where
  fds : List ℕ
  maps : List (ℕ × ℕ)
  deriving DecidableEq, Repr

/-- What `mmap()` returns when it succeeds. -/
abbrev MapAddr := {addr : ℕ // addr ≠ 0 ∧ addr ≠ mapFailed}

/-- What a call of `dsp_open()` meets with: the results of `open()`, of `mmap()`
for each of the three regions, and of `dsp_resume()`, and the setting. -/
structure OpenOutcome where
  fd : Option ℕ
  l1sram : Option MapAddr
  l2sram : Option MapAddr
  logbuf : Option MapAddr
  bAutoresume : Bool
  resume : ℤ
  errno : ℕ
  deriving DecidableEq, Repr

/-- The variables of `dsp.c` that are involved; `c64Fd` is `none` for `-1`. -/
structure LibState where
  bOpen : Bool
  c64Fd : Option ℕ
  l1sramFshm : DspMemRegion
  l2sramFshm : DspMemRegion
  logbuf : DspMemRegion
  os : Os
  deriving DecidableEq, Repr

/-- Before the first call. -/
def LibState.initial : LibState where
  bOpen := false
  c64Fd := none
  l1sramFshm := DspMemRegion.zero
  l2sramFshm := DspMemRegion.zero
  logbuf := DspMemRegion.zero
  os := ⟨[], []⟩

/-! ## Mapping a region -/

/-- Map a region of the device: the result, the region and what is mapped. -/
def mapRegion (answer : Option MapAddr) (physAddr size : ℕ) (os : Os) :
    ℤ × DspMemRegion × Os :=
  match answer with
  | some addr =>
      (0, ⟨physAddr, addr, size⟩,
        { os with maps := (addr.1, size) :: os.maps })
  | none => (10, ⟨physAddr, mapFailed, size⟩, os)

/-- Unmap a region if there is an address; it is kept if `munmap()` fails. -/
def unmapRegion (mem : DspMemRegion) (os : Os) : DspMemRegion × Os :=
  if mem.virtAddr ≠ 0 then
    if mem.virtAddr = mapFailed then (mem, os)
    else
      ({ mem with virtAddr := 0 },
        { os with maps := os.maps.erase (mem.virtAddr, mem.size) })
  else (mem, os)

namespace LibState

/-- `loc_l1sram_fshm_map()`. -/
def locL1sramFshmMap (o : OpenOutcome) (s : LibState) : ℤ × LibState :=
  let (ret, mem, os) :=
    mapRegion o.l1sram dspL1sramFshmBaseGpp dspL1sramFshmSize s.os
  (ret, { s with l1sramFshm := mem, os := os })

/-- `loc_l2sram_fshm_map()`. -/
def locL2sramFshmMap (o : OpenOutcome) (s : LibState) : ℤ × LibState :=
  let (ret, mem, os) :=
    mapRegion o.l2sram dspL2sramFshmBaseGpp dspL2sramFshmSize s.os
  (ret, { s with l2sramFshm := mem, os := os })

/-- `loc_logbuf_map()`. -/
def locLogbufMap (o : OpenOutcome) (s : LibState) : ℤ × LibState :=
  let (ret, mem, os) :=
    mapRegion o.logbuf dspLogbufBaseGpp dspLogbufSize s.os
  (ret, { s with logbuf := mem, os := os })

/-- `loc_l1sram_fshm_unmap()`. -/
def locL1sramFshmUnmap (s : LibState) : LibState :=
  let (mem, os) := unmapRegion s.l1sramFshm s.os
  { s with l1sramFshm := mem, os := os }

/-- `loc_l2sram_fshm_unmap()`. -/
def locL2sramFshmUnmap (s : LibState) : LibState :=
  let (mem, os) := unmapRegion s.l2sramFshm s.os
  { s with l2sramFshm := mem, os := os }

/-- `loc_logbuf_unmap()`. -/
def locLogbufUnmap (s : LibState) : LibState :=
  let (mem, os) := unmapRegion s.logbuf s.os
  { s with logbuf := mem, os := os }

/-- `open()` of the device. -/
def openFd (fd : Option ℕ) (s : LibState) : LibState :=
  { s with
    c64Fd := fd
    os := { s.os with fds := fd.toList ++ s.os.fds } }

/-- `close(c64_fd)`, and `c64_fd = -1`. -/
def closeFd (s : LibState) : LibState :=
  { s with
    c64Fd := none
    os := { s.os with
      fds := match s.c64Fd with
        | some fd => s.os.fds.erase fd
        | none => s.os.fds } }

/-! ## The calls -/

/-- `dsp_open()`. -/
def dspOpen (o : OpenOutcome) (s : LibState) : ℤ × LibState :=
  if s.bOpen = false then
    let s := { s with
      l1sramFshm := DspMemRegion.zero
      l2sramFshm := DspMemRegion.zero }
    let s := s.openFd o.fd
    if s.c64Fd ≠ none then
      let (ret, s) := s.locL1sramFshmMap o
      if ret = 0 then
        let (ret, s) := s.locL2sramFshmMap o
        if ret = 0 then
          let (ret, s) := s.locLogbufMap o
          if ret = 0 then
            if o.bAutoresume then
              let ret := o.resume
              if ret = 0 then (ret, { s with bOpen := true })
              else if o.errno = ebusy then (0, s)
              else (ret, s.locL2sramFshmUnmap.locL1sramFshmUnmap.closeFd)
            else (ret, s)
          else (ret, s.locL2sramFshmUnmap.locL1sramFshmUnmap.closeFd)
        else (ret, s.locL1sramFshmUnmap.closeFd)
      else (ret, s.closeFd)
    else (10, s)
  else (0, s)

/-- `dsp_close()`. -/
def dspClose (s : LibState) : LibState :=
  let s := if s.c64Fd ≠ none then
      s.locLogbufUnmap.locL2sramFshmUnmap.locL1sramFshmUnmap.closeFd
    else s
  { s with bOpen := false }

end LibState

/-! ## Histories -/

inductive Call where
  | dspOpen (o : OpenOutcome)
  | dspClose

def Call.apply (s : LibState) : Call → LibState
  | .dspOpen o => (s.dspOpen o).2
  | .dspClose => s.dspClose

/-- The state after some calls. -/
def after (calls : List Call) : LibState :=
  calls.foldl Call.apply LibState.initial

/-- If the call fails, the descriptor is closed and nothing that it acquired is
left. -/
def Atomic (s : LibState) (o : OpenOutcome) : Prop :=
  (s.dspOpen o).1 ≠ 0 →
    (s.dspOpen o).2.c64Fd = none ∧ (s.dspOpen o).2.os = s.os

/-- If the call succeeds, every further one succeeds and acquires nothing. -/
def Idempotent (s : LibState) (o : OpenOutcome) : Prop :=
  (s.dspOpen o).1 = 0 →
    ∀ (more : List OpenOutcome) (o' : OpenOutcome),
      let t := more.foldl (fun t o => (t.dspOpen o).2) (s.dspOpen o).2
      (t.dspOpen o').1 = 0 ∧ (t.dspOpen o').2.os = (s.dspOpen o).2.os

/-- All calls of `dsp_open()` are atomic and idempotent, and nothing is left
after a call of `dsp_close()`. -/
structure Sound (calls : List Call) : Prop where
  opens : ∀ pre o post, calls = pre ++ .dspOpen o :: post →
    Atomic (after pre) o ∧ Idempotent (after pre) o
  closes : ∀ pre post, calls = pre ++ .dspClose :: post →
    (after (pre ++ [.dspClose])).os = ⟨[], []⟩

/-- The device cannot be opened or mapped, or the DSP is resumed. -/
def OpenOutcome.Plain (o : OpenOutcome) : Prop :=
  o.fd = none ∨ o.l1sram = none ∨ o.l2sram = none ∨ o.logbuf = none ∨
    o.bAutoresume = true ∧ o.resume = 0

/-- Every call of `dsp_open()` that is made while the flag is not set. -/
def PlainOpens (calls : List Call) : Prop :=
  ∀ pre o post, calls = pre ++ .dspOpen o :: post →
    (after pre).bOpen = false → o.Plain

variable {s : LibState} {o : OpenOutcome} {calls pre : List Call}

/-- What `dsp_open()` does if the flag is not set. -/
inductive Opening (o : OpenOutcome) (s : LibState) : ℤ × LibState → Prop
  | failed {ret : ℤ} {t : LibState} : o.Plain → ret ≠ 0 → t.bOpen = false →
      t.c64Fd = none → t.os = s.os → Opening o s (ret, t)
  | resumed {t : LibState} {fd : ℕ} {l1 l2 lb : MapAddr} : o.Plain →
      t.bOpen = true → t.c64Fd = some fd →
      t.l1sramFshm = ⟨dspL1sramFshmBaseGpp, l1, dspL1sramFshmSize⟩ →
      t.l2sramFshm = ⟨dspL2sramFshmBaseGpp, l2, dspL2sramFshmSize⟩ →
      t.logbuf = ⟨dspLogbufBaseGpp, lb, dspLogbufSize⟩ →
      t.os = ⟨fd :: s.os.fds, (lb.1, dspLogbufSize) ::
        (l2.1, dspL2sramFshmSize) :: (l1.1, dspL1sramFshmSize) :: s.os.maps⟩ →
      Opening o s (0, t)
  | notResumed {ret : ℤ} {t : LibState} : ¬ o.Plain → ret ≠ 0 →
      t.os.maps.length = s.os.maps.length + 1 → Opening o s (ret, t)
  | running {t : LibState} : ¬ o.Plain → t.bOpen = false →
      Opening o s (0, t)

theorem unmapRegion_os (addr : MapAddr) (physAddr size : ℕ) (os : Os) :
    (unmapRegion ⟨physAddr, addr, size⟩ os).2 =
      { os with maps := os.maps.erase (addr.1, size) } := by
  rw [unmapRegion, if_pos addr.2.1, if_neg addr.2.2]

/-- Mappings of different sizes are different. -/
theorem erase_cons_of_size_ne {a b : ℕ × ℕ} {l : List (ℕ × ℕ)}
    (h : a.2 ≠ b.2) : (b :: l).erase a = b :: l.erase a :=
  List.erase_cons_tail <| by
    rw [beq_iff_eq]
    rintro rfl
    exact h rfl

namespace LibState

theorem os_closeFd {fd : ℕ} (h : s.c64Fd = some fd) :
    s.closeFd.os = ⟨s.os.fds.erase fd, s.os.maps⟩ := by
  simp only [closeFd, h]

theorem os_locL1sramFshmUnmap {physAddr size : ℕ} {addr : MapAddr}
    (h : s.l1sramFshm = ⟨physAddr, addr, size⟩) :
    s.locL1sramFshmUnmap.os =
      ⟨s.os.fds, s.os.maps.erase (addr.1, size)⟩ := by
  rw [← unmapRegion_os addr physAddr size s.os, ← h]
  rfl

theorem os_locL2sramFshmUnmap {physAddr size : ℕ} {addr : MapAddr}
    (h : s.l2sramFshm = ⟨physAddr, addr, size⟩) :
    s.locL2sramFshmUnmap.os =
      ⟨s.os.fds, s.os.maps.erase (addr.1, size)⟩ := by
  rw [← unmapRegion_os addr physAddr size s.os, ← h]
  rfl

theorem os_locLogbufUnmap {physAddr size : ℕ} {addr : MapAddr}
    (h : s.logbuf = ⟨physAddr, addr, size⟩) :
    s.locLogbufUnmap.os =
      ⟨s.os.fds, s.os.maps.erase (addr.1, size)⟩ := by
  rw [← unmapRegion_os addr physAddr size s.os, ← h]
  rfl

/-- The last part of `dsp_open()`, with all that was asked for acquired. -/
theorem opening_mapped {t : LibState} {fd : ℕ} {l1 l2 lb : MapAddr}
    (bAutoresume : Bool) (resume : ℤ) (errno : ℕ) (hopen : t.bOpen = false)
    (hfd : t.c64Fd = some fd)
    (hl1 : t.l1sramFshm = ⟨dspL1sramFshmBaseGpp, l1, dspL1sramFshmSize⟩)
    (hl2 : t.l2sramFshm = ⟨dspL2sramFshmBaseGpp, l2, dspL2sramFshmSize⟩)
    (hlb : t.logbuf = ⟨dspLogbufBaseGpp, lb, dspLogbufSize⟩)
    (hos : t.os = ⟨fd :: s.os.fds, (lb.1, dspLogbufSize) ::
      (l2.1, dspL2sramFshmSize) :: (l1.1, dspL1sramFshmSize) :: s.os.maps⟩) :
    Opening ⟨some fd, some l1, some l2, some lb, bAutoresume, resume, errno⟩ s
      (if bAutoresume then
        if resume = 0 then (resume, { t with bOpen := true })
        else if errno = ebusy then (0, t)
        else (resume, t.locL2sramFshmUnmap.locL1sramFshmUnmap.closeFd)
      else (0, t)) := by
  by_cases hauto : bAutoresume = true
  · rw [if_pos hauto]
    by_cases hresume : resume = 0
    · rw [if_pos hresume, hresume]
      exact .resumed (.inr (.inr (.inr (.inr ⟨hauto, rfl⟩)))) rfl hfd hl1 hl2
        hlb hos
    · have hplain : ¬ OpenOutcome.Plain
          ⟨some fd, some l1, some l2, some lb, bAutoresume, resume, errno⟩ := by
        simp [OpenOutcome.Plain, hresume]
      rw [if_neg hresume]
      by_cases hbusy : errno = ebusy
      · rw [if_pos hbusy]
        exact .running hplain hopen
      · rw [if_neg hbusy]
        -- the log buffer stays mapped
        have hmaps : t.locL2sramFshmUnmap.locL1sramFshmUnmap.closeFd.os.maps =
            (lb.1, dspLogbufSize) :: s.os.maps := by
          show t.locL2sramFshmUnmap.locL1sramFshmUnmap.os.maps = _
          rw [@os_locL1sramFshmUnmap t.locL2sramFshmUnmap _ _ l1 hl1,
            os_locL2sramFshmUnmap hl2, hos]
          show ((_ :: _ :: _ :: s.os.maps).erase _).erase _ = _
          have hsize2 : dspL2sramFshmSize ≠ dspLogbufSize := by decide
          have hsize1 : dspL1sramFshmSize ≠ dspLogbufSize := by decide
          rw [erase_cons_of_size_ne hsize2, List.erase_cons_head,
            erase_cons_of_size_ne hsize1, List.erase_cons_head]
        refine .notResumed hplain hresume ?_
        rw [hmaps]
        rfl
  · rw [if_neg hauto]
    exact .running (by simp [OpenOutcome.Plain, hauto]) hopen

theorem opening (o : OpenOutcome) (hs : s.bOpen = false) :
    Opening o s (s.dspOpen o) := by
  obtain ⟨fd, l1, l2, lb, bAutoresume, resume, errno⟩ := o
  rw [dspOpen, if_pos hs]
  cases fd with
  | none => exact .failed (.inl rfl) (by decide) hs rfl rfl
  | some fd =>
      have hfds : (fd :: s.os.fds).erase fd = s.os.fds :=
        List.erase_cons_head fd s.os.fds
      cases l1 with
      | none =>
          refine .failed (.inr (.inl rfl)) (by decide) hs rfl ?_
          exact congrArg (fun fds => Os.mk fds s.os.maps) hfds
      | some l1 =>
          cases l2 with
          | none =>
              refine .failed (.inr (.inr (.inl rfl))) (by decide) hs rfl ?_
              refine (@os_closeFd _ fd rfl).trans ?_
              rw [@os_locL1sramFshmUnmap _ _ _ l1 rfl]
              exact congrArg₂ Os.mk hfds (List.erase_cons_head _ _)
          | some l2 =>
              cases lb with
              | none =>
                  refine .failed (.inr (.inr (.inr (.inl rfl)))) (by decide)
                    hs rfl ?_
                  refine (@os_closeFd _ fd rfl).trans ?_
                  rw [@os_locL1sramFshmUnmap _ _ _ l1 rfl,
                    @os_locL2sramFshmUnmap _ _ _ l2 rfl]
                  refine congrArg₂ Os.mk hfds ?_
                  show (((l2.1, dspL2sramFshmSize) ::
                    (l1.1, dspL1sramFshmSize) :: s.os.maps).erase _).erase _ = _
                  rw [List.erase_cons_head, List.erase_cons_head]
              | some lb =>
                  exact opening_mapped _ _ _ hs rfl rfl rfl rfl rfl

/-- A further call is ignored. -/
theorem dspOpen_of_open (hs : s.bOpen = true) : s.dspOpen o = (0, s) :=
  if_neg (by rw [hs]; decide)

end LibState

/-! ## Calls that keep the flag and the resources together -/

/-- Nothing is held, or the flag is set and everything is held once. -/
inductive Settled : LibState → Prop
  | closed {s : LibState} : s.bOpen = false → s.c64Fd = none →
      s.os = ⟨[], []⟩ → Settled s
  | opened {s : LibState} {fd : ℕ} {l1 l2 lb : MapAddr} : s.bOpen = true →
      s.c64Fd = some fd →
      s.l1sramFshm = ⟨dspL1sramFshmBaseGpp, l1, dspL1sramFshmSize⟩ →
      s.l2sramFshm = ⟨dspL2sramFshmBaseGpp, l2, dspL2sramFshmSize⟩ →
      s.logbuf = ⟨dspLogbufBaseGpp, lb, dspLogbufSize⟩ →
      s.os = ⟨[fd], [(lb.1, dspLogbufSize), (l2.1, dspL2sramFshmSize),
        (l1.1, dspL1sramFshmSize)]⟩ →
      Settled s

theorem Settled.dspOpen (h : Settled s)
    (hplain : s.bOpen = false → o.Plain) : Settled (s.dspOpen o).2 := by
  cases h with
  | opened hopen hfd hl1 hl2 hlb hos =>
      rw [LibState.dspOpen_of_open hopen]
      exact .opened hopen hfd hl1 hl2 hlb hos
  | closed hopen hfd hos =>
      have hopening := LibState.opening o hopen
      generalize s.dspOpen o = r at hopening
      cases hopening with
      | failed _ _ hopen' hfd' hos' =>
          exact .closed hopen' hfd' (hos'.trans hos)
      | resumed _ hopen' hfd' hl1 hl2 hlb hos' =>
          rw [hos] at hos'
          exact .opened hopen' hfd' hl1 hl2 hlb hos'
      | notResumed hnot => exact absurd (hplain hopen) hnot
      | running hnot => exact absurd (hplain hopen) hnot

/-- Closing gives everything back. -/
theorem Settled.dspClose (h : Settled s) :
    Settled s.dspClose ∧ s.dspClose.os = ⟨[], []⟩ := by
  cases h with
  | closed hopen hfd hos =>
      have hclose : s.dspClose = { s with bOpen := false } := by
        rw [LibState.dspClose, if_neg (not_not.mpr hfd)]
      rw [hclose]
      exact ⟨.closed rfl hfd hos, hos⟩
  | @opened fd l1 l2 lb hopen hfd hl1 hl2 hlb hos =>
      have hclose : s.dspClose =
          { s.locLogbufUnmap.locL2sramFshmUnmap.locL1sramFshmUnmap.closeFd with
            bOpen := false } := by
        rw [LibState.dspClose, if_pos (by rw [hfd]; exact Option.some_ne_none fd)]
      have hempty : s.dspClose.os = ⟨[], []⟩ := by
        let noLogbuf := s.locLogbufUnmap
        rw [hclose]
        show noLogbuf.locL2sramFshmUnmap.locL1sramFshmUnmap.closeFd.os = _
        rw [@LibState.os_closeFd noLogbuf.locL2sramFshmUnmap.locL1sramFshmUnmap
            fd hfd,
          @LibState.os_locL1sramFshmUnmap noLogbuf.locL2sramFshmUnmap
            _ _ l1 hl1,
          @LibState.os_locL2sramFshmUnmap noLogbuf _ _ l2 hl2,
          LibState.os_locLogbufUnmap hlb, hos]
        simp
      exact ⟨.closed rfl (by rw [hclose]; rfl) hempty, hempty⟩

theorem after_concat (calls : List Call) (c : Call) :
    after (calls ++ [c]) = c.apply (after calls) := by
  rw [after, List.foldl_append]
  rfl

theorem PlainOpens.of_append {post : List Call}
    (h : PlainOpens (calls ++ post)) : PlainOpens calls := by
  intro pre o rest hcalls
  exact h pre o (rest ++ post) (by rw [hcalls]; simp)

theorem PlainOpens.settled (h : PlainOpens calls) : Settled (after calls) := by
  induction calls using List.reverseRecOn with
  | nil => exact .closed rfl rfl rfl
  | append_singleton calls c ih =>
      have hprev := ih h.of_append
      rw [after_concat]
      cases c with
      | dspOpen o => exact hprev.dspOpen (h calls o [] rfl)
      | dspClose => exact hprev.dspClose.1

/-! ## Atomicity and idempotence -/

/-- Once the flag is set, nothing changes. -/
theorem idempotent_of_open (hopen : (s.dspOpen o).2.bOpen = true) :
    Idempotent s o := by
  intro _ more o'
  have hmore : more.foldl (fun t o => (t.dspOpen o).2) (s.dspOpen o).2 =
      (s.dspOpen o).2 := by
    induction more with
    | nil => rfl
    | cons o more ih =>
        rw [List.foldl_cons, LibState.dspOpen_of_open hopen]
        exact ih
  rw [hmore]
  intro t
  rw [LibState.dspOpen_of_open hopen]
  exact ⟨rfl, rfl⟩

/-- A call that succeeds without setting the flag is not idempotent, since the
next one may fail. -/
theorem not_idempotent_of_not_open (hret : (s.dspOpen o).1 = 0)
    (hopen : (s.dspOpen o).2.bOpen = false) : ¬ Idempotent s o := by
  intro h
  let noDevice : OpenOutcome := ⟨none, none, none, none, true, 0, 0⟩
  have hnext : ((s.dspOpen o).2.dspOpen noDevice).1 = 0 :=
    (h hret [] noDevice).1
  rw [LibState.dspOpen, if_pos hopen] at hnext
  exact absurd (show (10 : ℤ) = 0 from hnext) (by decide)

theorem atomic_and_idempotent_iff :
    Atomic s o ∧ Idempotent s o ↔ (s.bOpen = false → o.Plain) := by
  cases hopen : s.bOpen with
  | true =>
      refine iff_of_true ⟨?_, ?_⟩ fun h => by cases h
      · intro hret
        rw [LibState.dspOpen_of_open hopen] at hret
        exact absurd rfl hret
      · exact idempotent_of_open (by rwa [LibState.dspOpen_of_open hopen])
  | false =>
      have hopening := LibState.opening o hopen
      have hidem := @idempotent_of_open s o
      have hnot := @not_idempotent_of_not_open s o
      unfold Atomic at *
      unfold Idempotent at hidem hnot ⊢
      generalize s.dspOpen o = r at *
      cases hopening with
      | failed hplain hret _ hfd hos =>
          exact iff_of_true ⟨fun _ => ⟨hfd, hos⟩, fun h => absurd h hret⟩
            fun _ => hplain
      | resumed hplain hopen' =>
          exact iff_of_true ⟨fun h => absurd rfl h, hidem hopen'⟩
            fun _ => hplain
      | notResumed hplain hret hlen =>
          refine iff_of_false ?_ fun h => hplain (h rfl)
          rintro ⟨hatomic, -⟩
          rw [(hatomic hret).2] at hlen
          omega
      | running hplain hopen' =>
          exact iff_of_false (fun h => hnot rfl hopen' h.2)
            fun h => hplain (h rfl)

theorem sound_iff_plainOpens (calls : List Call) :
    Sound calls ↔ PlainOpens calls := by
  constructor
  · intro h pre o post hcalls
    exact atomic_and_idempotent_iff.mp (h.opens pre o post hcalls)
  · intro h
    constructor
    · intro pre o post hcalls
      exact atomic_and_idempotent_iff.mpr (h pre o post hcalls)
    · intro pre post hcalls
      rw [after_concat]
      subst hcalls
      exact h.of_append.settled.dspClose.2

/-- The DSP cannot be resumed, and the log buffer stays mapped. -/
theorem not_sound :
    ¬ ∀ calls, Sound calls := by
  intro h
  let addr : MapAddr := ⟨0x40000000, by decide⟩
  let o : OpenOutcome := ⟨some 3, some addr, some addr, some addr, true, -1, 5⟩
  have hatomic := ((h [.dspOpen o]).opens [] o [] rfl).1
  exact absurd (hatomic (by decide)).2 (by decide)

end C64Tools.Client
