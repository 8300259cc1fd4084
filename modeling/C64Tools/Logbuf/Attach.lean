import C64Tools.Logbuf.Runs

/-!
# A reader that attaches

`loc_logbuf_startup_sync()` looks for the end of the log from the start of the
ring on.  What the writer has written in its current lap are lines, with the
last terminator in front of the mark, so two successive zero bytes are found at
the mark and nowhere before it.  But the search is not made if the first byte is
zero, and it also is zero when a terminator has come to lie there.
-/

namespace C64Tools.Logbuf

open Transition ByteMemory

/-! ## The search for the end -/

/-- The loop of `loc_logbuf_startup_sync()`. -/
def syncLoop (buf : ℕ → Byte) : ℕ → ℕ → Bool → ℕ
  | 0, off, _ => off
  | cntMax + 1, off, bLZ =>
      if buf off = 0 ∧ bLZ then off
      else syncLoop buf cntMax (off + 1) (buf off == 0)

/-- `loc_logbuf_startup_sync()`. -/
def locLogbufStartupSync (s : LogRing) : LogRing :=
  let off := if s.mlbLogbuf 0 ≠ 0 then
      syncLoop s.mlbLogbuf dspLogbufSize 0 false
    else 0
  -- without a mark the reader starts at the front
  { s with offsetRead := if off = dspLogbufSize then 0 else off }

/-- The search passes over lines and stops at the mark behind them. -/
theorem syncLoop_spec {buf : ℕ → Byte} {n off m : ℕ} {z : Bool}
    (hn : m < n) (hm : off + m < dspLogbufSize)
    (hmark : buf (off + m) = 0)
    (hlines : Lines z (RingBuffer.window dspLogbufSize buf off m)) :
    syncLoop buf n off z = off + m := by
  induction m generalizing n off z with
  | zero =>
      obtain ⟨n, rfl⟩ := Nat.exists_eq_succ_of_ne_zero (Nat.ne_of_gt hn)
      have hz : z = true := hlines
      exact if_pos ⟨hmark, hz⟩
  | succ m ih =>
      obtain ⟨n, rfl⟩ := Nat.exists_eq_succ_of_ne_zero (Nat.ne_of_gt
        (Nat.zero_lt_of_lt hn))
      have hnext : RingBuffer.wrap dspLogbufSize (off + 1) = off + 1 :=
        RingBuffer.wrap_of_lt (by omega)
      rw [RingBuffer.window, hnext] at hlines
      have hgo : ¬ (buf off = 0 ∧ z = true) := by
        rintro ⟨hzero, rfl⟩
        cases hlines.1 hzero
      rw [syncLoop, if_neg hgo, ih (by omega) (by omega) _ hlines.2]
      · omega
      · rwa [Nat.add_assoc, Nat.add_comm 1 m]

/-! ## What the writer leaves in the ring -/

/-- The writer's offset is in the ring, the mark is there, and in front of it
lie the lines of the current lap, the first of which may have begun before. -/
structure LogRing.Lap (s : LogRing) : Prop where
  writep_lt : s.offsetWritep < dspLogbufSize
  mark : s.mlbLogbuf s.offsetWritep = 0
  lines : 0 < s.offsetWritep →
    Lines false (RingBuffer.window dspLogbufSize s.mlbLogbuf 0 s.offsetWritep)

theorem lap_initial : LogRun.initial.buf.Lap where
  writep_lt := by decide
  mark := rfl
  lines h := absurd h (Nat.lt_irrefl 0)

/-- The number of bytes that a string takes in the ring.  Empty strings are
ignored, and strings that are too long are refused. -/
def lineBytes (str : CString) : ℕ :=
  if 0 < str.1.length ∧ str.1.length + 1 < dspLogbufSize then str.1.length + 1
  else 0

theorem lineBytes_eq {str : CString} (hpos : 0 < str.1.length)
    (hlen : str.1.length + 1 < dspLogbufSize) :
    lineBytes str = str.1.length + 1 :=
  if_pos ⟨hpos, hlen⟩

/-- A string that takes no bytes leaves the ring as it is, and nothing is
written. -/
theorem LogRun.puts_of_lineBytes {str : CString} (h : lineBytes str = 0)
    (s : LogRun) : s.puts str = s := by
  by_cases hpos : 0 < str.1.length
  · have hlong : ¬ str.1.length + 1 < dspLogbufSize := by
      intro hlen
      rw [lineBytes_eq hpos hlen] at h
      cases h
    have hputs : locPuts str s.buf = (-1, s.buf) := by
      rw [locPuts, if_pos hpos, locLogbufAddline, if_neg hlong]
    simp only [LogRun.puts, hputs]
    rfl
  · exact LogRun.puts_eq_self (Nat.eq_zero_of_not_pos hpos)

/-- What is stored across the end of the ring goes on at its start. -/
theorem window_storeWrapped_start {cells : ℕ → Byte} {i : ℕ} {xs : List Byte}
    (hi : i < dspLogbufSize) (hxs : xs.length ≤ dspLogbufSize)
    (hwrap : dspLogbufSize ≤ i + xs.length) :
    RingBuffer.window dspLogbufSize
      (RingBuffer.storeWrapped dspLogbufSize cells i xs) 0
      (i + xs.length - dspLogbufSize) = xs.drop (dspLogbufSize - i) := by
  have hall := @RingBuffer.window_storeWrapped _ dspLogbufSize i 0 cells xs hi
    (by omega)
  have hstart : RingBuffer.wrap dspLogbufSize (i + (dspLogbufSize - i)) = 0 := by
    unfold RingBuffer.wrap
    split_ifs <;> omega
  have hsplit := @RingBuffer.window_add _ dspLogbufSize i
    (i + xs.length - dspLogbufSize) (dspLogbufSize - i)
    (RingBuffer.storeWrapped dspLogbufSize cells i xs) hi (by omega)
  rw [Nat.add_zero, RingBuffer.wrap_of_lt hi, Nat.zero_add] at hall
  rw [hstart, show dspLogbufSize - i + (i + xs.length - dspLogbufSize) =
    xs.length by omega, hall] at hsplit
  have hdrop := congrArg (List.drop (dspLogbufSize - i)) hsplit
  rw [List.drop_left' RingBuffer.length_window] at hdrop
  exact hdrop.symm

theorem LogRing.Lap.puts {s : LogRing} (h : s.Lap) {str : CString}
    (hpos : 0 < str.1.length) (hlen : str.1.length + 1 < dspLogbufSize) :
    (locPuts str s).2.Lap := by
  have hputs := locPuts_eq (b := s) hpos hlen
  have hwritep := RingBuffer.wrap_lt h.writep_lt hlen.le
  have htotal : (str.1 ++ [(0 : Byte)]).length = str.1.length + 1 := by simp
  have hline := lines_of_string str.2 hpos
  rw [hputs]
  refine ⟨hwritep, Function.update_self _ _ _, fun hnonzero => ?_⟩
  have hkeep := @RingBuffer.window_update _ dspLogbufSize 0 _ _
    (RingBuffer.storeWrapped dspLogbufSize s.mlbLogbuf s.offsetWritep
      (str.1 ++ [0])) (by decide) le_rfl hwritep 0
  rw [Nat.zero_add, RingBuffer.wrap_of_lt hwritep] at hkeep
  simp only at hnonzero ⊢
  rw [hkeep]
  by_cases hwrap : dspLogbufSize ≤ s.offsetWritep + (str.1.length + 1)
  · have hoff : RingBuffer.wrap dspLogbufSize
        (s.offsetWritep + (str.1.length + 1)) =
          s.offsetWritep + (str.1.length + 1) - dspLogbufSize := if_pos hwrap
    rw [hoff] at hnonzero ⊢
    rw [← htotal] at hwrap hnonzero ⊢
    have hstart := @window_storeWrapped_start s.mlbLogbuf _ _ h.writep_lt
      (by omega) hwrap
    rw [hstart]
    refine hline.drop _ fun hnil => ?_
    have hdropped := congrArg List.length (hstart.trans hnil)
    rw [RingBuffer.length_window, List.length_nil] at hdropped
    omega
  · have hoff : RingBuffer.wrap dspLogbufSize
        (s.offsetWritep + (str.1.length + 1)) =
          s.offsetWritep + (str.1.length + 1) := if_neg hwrap
    have hbehind := @RingBuffer.window_storeWrapped _ dspLogbufSize 0
      s.offsetWritep s.mlbLogbuf (str.1 ++ [0]) (by decide) (by omega)
    rw [Nat.zero_add, RingBuffer.wrap_of_lt h.writep_lt, htotal] at hbehind
    rw [hoff, hbehind]
    by_cases hstart : s.offsetWritep = 0
    · rw [hstart, RingBuffer.window, List.nil_append]
      exact hline.drop 0 (by simp)
    · exact (h.lines (Nat.pos_of_ne_zero hstart)).append hline

theorem LogRun.lap_puts {s : LogRun} (h : s.buf.Lap) (str : CString) :
    (s.puts str).buf.Lap := by
  by_cases hbytes : 0 < str.1.length ∧ str.1.length + 1 < dspLogbufSize
  · exact h.puts hbytes.1 hbytes.2
  · rw [LogRun.puts_of_lineBytes (if_neg hbytes)]
    exact h

/-- Some lines are written. -/
def LogRun.putsAll (s : LogRun) (strs : List CString) : LogRun :=
  strs.foldl LogRun.puts s

theorem LogRun.lap_putsAll {s : LogRun} (h : s.buf.Lap)
    (strs : List CString) : (s.putsAll strs).buf.Lap := by
  induction strs generalizing s with
  | nil => exact h
  | cons str strs ih => exact ih (s.lap_puts h str)

/-! ## Where the reader begins -/

/-- The writer is at the front of the ring, or the first byte of the ring is
not a terminator. -/
def LogRing.FrontIsLine (s : LogRing) : Prop :=
  s.offsetWritep = 0 ∨ s.mlbLogbuf 0 ≠ 0

theorem LogRing.Lap.sync_offsetRead {s : LogRing} (h : s.Lap) :
    (locLogbufStartupSync s).offsetRead =
      if s.mlbLogbuf 0 = 0 then 0 else s.offsetWritep := by
  unfold locLogbufStartupSync
  by_cases hzero : s.mlbLogbuf 0 = 0
  · rw [if_pos hzero, if_neg (not_not.mpr hzero)]
    rfl
  · have hpos : 0 < s.offsetWritep := by
      refine Nat.pos_of_ne_zero fun hstart => hzero ?_
      rw [← hstart]
      exact h.mark
    have hsearch : syncLoop s.mlbLogbuf dspLogbufSize 0 false =
        0 + s.offsetWritep := by
      refine syncLoop_spec h.writep_lt ?_ ?_ (h.lines hpos)
      · rw [Nat.zero_add]
        exact h.writep_lt
      · rw [Nat.zero_add]
        exact h.mark
    rw [Nat.zero_add] at hsearch
    rw [if_neg hzero, if_pos hzero, hsearch]
    exact if_neg (Nat.ne_of_lt h.writep_lt)

/-- The reader finds the writer unless a terminator lies at the front. -/
theorem LogRing.Lap.sync_iff {s : LogRing} (h : s.Lap) :
    (locLogbufStartupSync s).offsetRead = s.offsetWritep ↔ s.FrontIsLine := by
  rw [h.sync_offsetRead, LogRing.FrontIsLine]
  split_ifs with hzero
  · rw [or_iff_left (not_not.mpr hzero), eq_comm]
  · exact iff_of_true rfl (Or.inr hzero)

/-! ## The first print -/

/-- The number of bytes that some strings take in the ring. -/
def linesBytes (strs : List CString) : ℕ :=
  (strs.map lineBytes).sum

/-- A process attaches: it has seen nothing of what was written before. -/
def LogRing.attach (s : LogRing) : LogRun where
  buf := locLogbufStartupSync s
  written := []
  printed := []

/-- The reader begins where the next line is written, and the first call after
some lines prints these. -/
structure LogRing.AttachesInSync (s : LogRing) (strs : List CString) : Prop where
  offset : s.attach.buf.offsetRead = s.offsetWritep
  prints : (s.attach.putsAll strs).print.printed =
    (s.attach.putsAll strs).written

/-- Some bytes have been written, whether they fit in the ring or not. -/
structure Follows (s t : LogRun) (n : ℕ) : Prop where
  writep : t.buf.offsetWritep = (s.buf.offsetWritep + n) % dspLogbufSize
  read : t.buf.offsetRead = s.buf.offsetRead
  printed : t.printed = s.printed
  -- at least every other byte is a character
  written : 2 * s.written.length + n ≤ 2 * t.written.length

variable {s t u : LogRun} {strs : List CString}

theorem Follows.refl (h : s.buf.offsetWritep < dspLogbufSize) :
    Follows s s 0 where
  writep := (Nat.mod_eq_of_lt h).symm
  read := rfl
  printed := rfl
  written := le_rfl

theorem Follows.trans {m n : ℕ} (hst : Follows s t m) (htu : Follows t u n) :
    Follows s u (m + n) where
  writep := by
    rw [htu.writep, hst.writep, Nat.mod_add_mod, Nat.add_assoc]
  read := htu.read.trans hst.read
  printed := htu.printed.trans hst.printed
  written := by
    have hm := hst.written
    have hn := htu.written
    omega

theorem wrap_eq_mod {i : ℕ} (hi : i < 2 * dspLogbufSize) :
    RingBuffer.wrap dspLogbufSize i = i % dspLogbufSize := by
  unfold RingBuffer.wrap
  split_ifs with h
  · rw [Nat.mod_eq_sub_mod h, Nat.mod_eq_of_lt (by omega)]
  · rw [Nat.mod_eq_of_lt (by omega)]

theorem follows_puts (h : s.buf.offsetWritep < dspLogbufSize)
    (str : CString) : Follows s (s.puts str) (lineBytes str) := by
  by_cases hbytes : 0 < str.1.length ∧ str.1.length + 1 < dspLogbufSize
  · have hputs := locPuts_eq (b := s.buf) hbytes.1 hbytes.2
    rw [lineBytes_eq hbytes.1 hbytes.2]
    constructor
    · simp only [LogRun.puts, hputs]
      exact wrap_eq_mod (by omega)
    · simp only [LogRun.puts, hputs]
    · simp only [LogRun.puts]
    · simp only [LogRun.puts, hputs, if_true, List.length_append]
      omega
  · have hzero : lineBytes str = 0 := if_neg hbytes
    rw [LogRun.puts_of_lineBytes hzero, hzero]
    exact Follows.refl h

theorem follows_putsAll (h : s.buf.Lap) (strs : List CString) :
    Follows s (s.putsAll strs) (linesBytes strs) := by
  induction strs generalizing s with
  | nil => exact Follows.refl h.writep_lt
  | cons str strs ih =>
      have hrest := (follows_puts h.writep_lt str).trans (ih (s.lap_puts h str))
      rwa [linesBytes, List.map_cons, List.sum_cons]

/-- One call puts out no more characters than half of the ring has bytes. -/
theorem length_payload_printLoop {buf : ℕ → Byte} (n : ℕ) (r : PrintState) :
    (payload (printLoop buf (2 * n + 2) r).output).length ≤
      (payload r.output).length + (n + 1) := by
  have hturn (r : PrintState) : (payload (r.next buf).output).length ≤
      (payload r.output).length + 1 := by
    rw [PrintState.payload_next, List.length_append]
    exact Nat.add_le_add_left (List.length_filter_le _ _) _
  induction n generalizing r with
  | zero =>
      have hone := hturn r
      rw [Nat.mul_zero, Nat.zero_add, printLoop]
      split_ifs <;> omega
  | succ n ih =>
      have hone := hturn r
      have hrest := ih (r.next buf)
      rw [show 2 * (n + 1) + 2 = 2 * n + 2 + 2 by omega, printLoop]
      split_ifs <;> omega

theorem length_payload_print (b : LogRing) :
    (payload (dspLogbufPrint b).1).length ≤ dspLogbufSize / 2 := by
  have hsize : dspLogbufSize = 2 * 8191 + 2 := rfl
  have hempty : (payload []).length = 0 := rfl
  have hloop := @length_payload_printLoop b.mlbLogbuf 8191
    ⟨b.offsetRead, false, false, true, []⟩
  rw [hempty, Nat.zero_add] at hloop
  unfold dspLogbufPrint
  split_ifs with hc
  · rw [payload_append_newline, hsize]
    exact hloop
  · exact Nat.zero_le _

/-- What the reader has before it when it began at the mark. -/
structure InFront (t : LogRun) (n : ℕ) : Prop where
  sound : t.Sound
  lines : Lines true t.buf.unread
  pending : t.buf.pending = n

theorem InFront.puts {n : ℕ} (h : InFront s n) {str : CString}
    (hfits : n + lineBytes str < dspLogbufSize) :
    InFront (s.puts str) (n + lineBytes str) := by
  by_cases hbytes : 0 < str.1.length ∧ str.1.length + 1 < dspLogbufSize
  · rw [lineBytes_eq hbytes.1 hbytes.2] at hfits ⊢
    have hroom : s.buf.pending + (str.1.length + 1) < dspLogbufSize := by
      rwa [h.pending]
    obtain ⟨hpending, hunread⟩ := h.sound.puts_unread hbytes.1 hroom
    refine ⟨h.sound.puts ⟨by omega, fun _ => hroom⟩, ?_, ?_⟩
    · rw [hunread]
      exact h.lines.append (lines_of_string str.2 hbytes.1)
    · rw [hpending, h.pending]
  · have hzero : lineBytes str = 0 := if_neg hbytes
    rw [LogRun.puts_of_lineBytes hzero, hzero]
    exact h

theorem InFront.putsAll {n : ℕ} (h : InFront s n)
    (hfits : n + linesBytes strs < dspLogbufSize) :
    InFront (s.putsAll strs) (n + linesBytes strs) := by
  induction strs generalizing s n with
  | nil => exact h
  | cons str strs ih =>
      rw [linesBytes, List.map_cons, List.sum_cons] at hfits ⊢
      rw [← Nat.add_assoc] at hfits ⊢
      exact ih (h.puts (by omega)) hfits

/-- The first byte that is pending belongs to a line. -/
theorem InFront.printsAll_iff {n : ℕ} (h : InFront t n) :
    t.buf.PrintsAll ↔ n ≤ dspLogbufSize / 2 + 1 := by
  rw [LogRing.PrintsAll, h.pending]
  cases hunread : t.buf.unread with
  | nil =>
      have hzero : n = 0 := by
        rw [← h.pending, ← LogRing.length_unread, hunread, List.length_nil]
      subst hzero
      exact iff_of_true (Nat.zero_le _) (Nat.zero_le _)
  | cons c cs =>
      have hlines := h.lines
      rw [hunread] at hlines
      have hhead : t.buf.mlbLogbuf t.buf.offsetRead ≠ 0 := by
        rw [LogRing.head_of_unread hunread]
        intro hc
        cases hlines.1 hc
      rw [if_neg hhead]

theorem inFront_attach {b : LogRing} (h : b.Lap) (hfront : b.FrontIsLine) :
    InFront b.attach 0 := by
  have hread : b.attach.buf.offsetRead = b.offsetWritep := h.sync_iff.mpr hfront
  have hpending : b.attach.buf.pending = 0 := by
    rw [LogRing.pending, hread]
    exact (if_pos le_rfl).trans (Nat.sub_self _)
  have hunread : b.attach.buf.unread = [] := by
    rw [← List.length_eq_zero_iff, LogRing.length_unread, hpending]
  refine ⟨⟨h.writep_lt, ?_, h.mark, ?_, ?_⟩, ?_, hpending⟩
  · rw [hread]
    exact h.writep_lt
  · intro hne
    exact absurd hunread hne
  · rw [hunread]
    rfl
  · rw [hunread]
    rfl

/-- More than the ring holds is not printed by one call. -/
theorem not_prints_of_overrun {b : LogRing} (h : b.Lap)
    (hfront : b.FrontIsLine) (hover : dspLogbufSize ≤ linesBytes strs) :
    (b.attach.putsAll strs).print.printed ≠
      (b.attach.putsAll strs).written := by
  intro heq
  have hlap : b.attach.buf.Lap := ⟨h.writep_lt, h.mark, h.lines⟩
  have hfollows := follows_putsAll hlap strs
  have hread : b.attach.buf.offsetRead = b.offsetWritep := h.sync_iff.mpr hfront
  have hlen := length_payload_print (b.attach.putsAll strs).buf
  have hwritten : 0 + linesBytes strs ≤
      2 * (b.attach.putsAll strs).written.length := hfollows.written
  have hprinted : (b.attach.putsAll strs).print.printed =
      payload (dspLogbufPrint (b.attach.putsAll strs).buf).1 := by
    have hnone : (b.attach.putsAll strs).printed = [] := hfollows.printed
    simp only [LogRun.print, hnone, List.nil_append]
  rw [← heq, hprinted] at hwritten
  have hsize : dspLogbufSize = 16384 := rfl
  -- the lines have one character each and fill the ring once
  have hbytes : linesBytes strs = dspLogbufSize := by omega
  have hmark : (b.attach.putsAll strs).buf.mlbLogbuf
      (b.attach.putsAll strs).buf.offsetRead = 0 := by
    have hback : (b.attach.putsAll strs).buf.offsetWritep =
        (b.attach.putsAll strs).buf.offsetRead := by
      rw [hfollows.writep, hfollows.read, hbytes, Nat.add_mod_right, hread]
      exact Nat.mod_eq_of_lt h.writep_lt
    rw [← hback]
    exact (LogRun.lap_putsAll hlap strs).mark
  have hnone : (dspLogbufPrint (b.attach.putsAll strs).buf).1 = [] :=
    congrArg Prod.fst (if_neg (not_not.mpr hmark))
  have hempty : (payload []).length = 0 := rfl
  rw [hnone, hempty] at hwritten
  omega

/-- After whatever has been written before, the reader begins at the mark, and
its first call prints what is written in between, if and only if no terminator
lies at the front of the ring while the writer is elsewhere, and the new lines
come to no more than half of the ring and a terminator. -/
theorem attachesInSync_iff (before after : List CString) :
    (LogRun.initial.putsAll before).buf.AttachesInSync after ↔
      (LogRun.initial.putsAll before).buf.FrontIsLine ∧
        linesBytes after ≤ dspLogbufSize / 2 + 1 := by
  have hlap : (LogRun.initial.putsAll before).buf.Lap :=
    LogRun.lap_putsAll lap_initial before
  generalize (LogRun.initial.putsAll before).buf = b at hlap ⊢
  by_cases hfront : b.FrontIsLine
  · rw [and_iff_right hfront]
    have hoffset : b.attach.buf.offsetRead = b.offsetWritep :=
      hlap.sync_iff.mpr hfront
    by_cases hfits : linesBytes after < dspLogbufSize
    · have hstart := inFront_attach hlap hfront
      have hready := hstart.putsAll
        (by omega : 0 + linesBytes after < dspLogbufSize)
      rw [← Nat.zero_add (linesBytes after), ← hready.printsAll_iff,
        ← hready.sound.print_iff]
      exact ⟨fun h => h.prints, fun h => ⟨hoffset, h⟩⟩
    · have hover := Nat.le_of_not_lt hfits
      refine iff_of_false (fun h => ?_) (Nat.not_le_of_lt ?_)
      · exact not_prints_of_overrun hlap hfront hover h.prints
      · exact Nat.lt_of_lt_of_le (by decide) hover
  · refine iff_of_false (fun h => ?_) (fun h => hfront h.1)
    exact hfront (hlap.sync_iff.mp h.offset)

/-- Where the writer has gone one byte round, that byte is a terminator. -/
theorem LogRing.Lap.front_eq_zero {b : LogRing} (h : b.Lap)
    (hone : b.offsetWritep = 1) : b.mlbLogbuf 0 = 0 := by
  have hlines := h.lines (by omega)
  rw [hone] at hlines
  exact beq_iff_eq.mp hlines.2

/-- Two lines of which the second one ends at the front of the ring. -/
def roundLines : List CString := [letters 8191, letters 8192]

/-- The reader begins in front of the terminator of the second line.  There it
stays when another line is written, and prints nothing. -/
theorem attach_behind_terminator :
    (LogRun.initial.putsAll roundLines).buf.offsetWritep = 1 ∧
      (LogRun.initial.putsAll roundLines).buf.attach.buf.offsetRead = 0 ∧
      ((LogRun.initial.putsAll roundLines).buf.attach.putsAll
        [letters 1]).print.printed = [] ∧
      ¬ (LogRun.initial.putsAll roundLines).buf.AttachesInSync [letters 1] := by
  have hlap : (LogRun.initial.putsAll roundLines).buf.Lap :=
    LogRun.lap_putsAll lap_initial roundLines
  have hbytes : linesBytes roundLines = 16385 := by
    rw [roundLines, linesBytes, List.map_cons, List.map_cons, List.map_nil,
      lineBytes_eq (by rw [length_letters]; decide)
        (by rw [length_letters]; decide),
      lineBytes_eq (by rw [length_letters]; decide)
        (by rw [length_letters]; decide), length_letters, length_letters]
    rfl
  have hone : (LogRun.initial.putsAll roundLines).buf.offsetWritep = 1 := by
    rw [(follows_putsAll lap_initial roundLines).writep, hbytes]
    rfl
  generalize (LogRun.initial.putsAll roundLines).buf = b at hlap hone ⊢
  have hzero := hlap.front_eq_zero hone
  have hread : b.attach.buf.offsetRead = 0 := by
    have hsync := hlap.sync_offsetRead
    rwa [if_pos hzero] at hsync
  refine ⟨hone, hread, ?_, fun h => ?_⟩
  · have hputs := @locPuts_eq (letters 1) b.attach.buf
      (by rw [length_letters]; decide) (by rw [length_letters]; decide)
    have hwritep : b.attach.buf.offsetWritep = 1 := hone
    have hfront : (b.attach.puts (letters 1)).buf.mlbLogbuf
        (b.attach.puts (letters 1)).buf.offsetRead = 0 := by
      simp only [LogRun.puts, hputs, hread, hwritep, length_letters]
      rw [Function.update_of_ne (by decide), RingBuffer.storeWrapped,
        if_neg (by rw [List.length_append, length_letters]; decide),
        RingBuffer.store_apply, if_neg (by decide)]
      exact hzero
    have hstays := LogRun.print_eq_self hfront
    show (b.attach.puts (letters 1)).print.printed = []
    rw [hstays]
    rfl
  · have hoffset := h.offset
    rw [hread, hone] at hoffset
    cases hoffset

end C64Tools.Logbuf
