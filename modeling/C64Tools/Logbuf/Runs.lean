import C64Tools.Logbuf.Printed
import C64Tools.Logbuf.Writer

/-!
# Runs of writer and reader

In every run the characters printed come in the order in which they were
written.  A call prints all that is pending if that is no more than half of the
ring, and if the call before it did not stop in front of a terminator: the reader
takes a leftover terminator for the mark of the end.
-/

namespace C64Tools.Logbuf

open Transition ByteMemory

/-- The bytes that the reader has not passed yet. -/
def LogRing.unread (s : LogRing) : List Byte :=
  RingBuffer.window dspLogbufSize s.mlbLogbuf s.offsetRead s.pending

/-- No more is pending than one call passes over and a terminator, or only a
terminator that was left over. -/
def LogRing.PrintsAll (s : LogRing) : Prop :=
  s.pending ≤
    if s.mlbLogbuf s.offsetRead = 0 then 1 else dspLogbufSize / 2 + 1

instance (s : LogRing) : Decidable s.PrintsAll :=
  inferInstanceAs (Decidable (_ ≤ _))

/-- The offsets are in the ring, the reader is followed by lines and by the mark
of the end, and what these lines hold is what is missing in the output. -/
structure LogRun.Sound (s : LogRun) : Prop where
  writep_lt : s.buf.offsetWritep < dspLogbufSize
  read_lt : s.buf.offsetRead < dspLogbufSize
  mark : s.buf.mlbLogbuf s.buf.offsetWritep = 0
  lines : s.buf.unread ≠ [] → Lines false s.buf.unread
  written : s.written = s.printed ++ chars s.buf.unread

variable {s t : LogRun} {e : LogEvent} {str : CString}

@[simp]
theorem LogRing.length_unread (s : LogRing) : s.unread.length = s.pending :=
  RingBuffer.length_window

theorem LogRun.initial_sound : LogRun.initial.Sound where
  writep_lt := by decide
  read_lt := by decide
  mark := rfl
  lines h := absurd rfl h
  written := rfl

theorem LogRun.Sound.pending_lt (h : s.Sound) : s.buf.pending < dspLogbufSize :=
  RingBuffer.distance_lt h.read_lt h.writep_lt

theorem LogRun.Sound.wrap_pending (h : s.Sound) :
    RingBuffer.wrap dspLogbufSize (s.buf.offsetRead + s.buf.pending) =
      s.buf.offsetWritep :=
  RingBuffer.wrap_add_distance h.read_lt h.writep_lt

/-! ## Writing a line -/

/-- Both ways of copying a line store it behind the writer's offset. -/
theorem locPuts_eq {b : LogRing} (hpos : 0 < str.1.length)
    (hlen : str.1.length + 1 < dspLogbufSize) :
    locPuts str b =
      (0, { b with
        mlbLogbuf := Function.update
          (RingBuffer.storeWrapped dspLogbufSize b.mlbLogbuf b.offsetWritep
            (str.1 ++ [0]))
          (RingBuffer.wrap dspLogbufSize
            (b.offsetWritep + (str.1.length + 1))) 0
        offsetWritep := RingBuffer.wrap dspLogbufSize
          (b.offsetWritep + (str.1.length + 1)) }) := by
  have htotal : (str.1 ++ [(0 : Byte)]).length = str.1.length + 1 := by simp
  rw [locPuts, if_pos hpos, ← htotal]
  exact locLogbufAddline_eq (htotal ▸ hlen)

theorem LogRun.puts_eq_self (hnil : str.1.length = 0) : s.puts str = s := by
  have hstr : str.1 = [] := List.eq_nil_of_length_eq_zero hnil
  have hputs : locPuts str s.buf = (0, s.buf) := if_neg (by omega)
  simp only [LogRun.puts, hputs, if_true, hstr, List.append_nil]

/-- A line that fits comes behind what is unread. -/
theorem LogRun.Sound.puts_unread (h : s.Sound) (hpos : 0 < str.1.length)
    (hfits : s.buf.pending + (str.1.length + 1) < dspLogbufSize) :
    (s.puts str).buf.pending = s.buf.pending + (str.1.length + 1) ∧
      (s.puts str).buf.unread = s.buf.unread ++ (str.1 ++ [0]) := by
  have hputs := locPuts_eq (b := s.buf) hpos (by omega)
  have hend : RingBuffer.wrap dspLogbufSize
      (s.buf.offsetWritep + (str.1.length + 1)) =
        RingBuffer.wrap dspLogbufSize
          (s.buf.offsetRead + (s.buf.pending + (str.1.length + 1))) := by
    rw [← h.wrap_pending, RingBuffer.wrap_wrap_add h.read_lt hfits.le]
  have hpending : (s.puts str).buf.pending =
      s.buf.pending + (str.1.length + 1) := by
    simp only [LogRun.puts, hputs, LogRing.pending, hend]
    exact RingBuffer.distance_wrap_add h.read_lt hfits
  refine ⟨hpending, ?_⟩
  have htotal : str.1.length + 1 = (str.1 ++ [(0 : Byte)]).length := by simp
  rw [LogRing.unread, hpending]
  simp only [LogRun.puts, hputs, hend]
  rw [RingBuffer.window_update h.read_lt le_rfl hfits, htotal,
    ← h.wrap_pending, RingBuffer.window_storeWrapped h.read_lt
      (by rw [← htotal]; exact hfits.le)]
  rfl

theorem LogRun.Sound.puts (h : s.Sound) (hfits : FitsRing s (.puts str)) :
    (s.puts str).Sound := by
  obtain hnil | hpos := Nat.eq_zero_or_pos str.1.length
  · rw [LogRun.puts_eq_self hnil]
    exact h
  · have hlen := hfits.2 hpos
    have hputs := locPuts_eq (b := s.buf) hpos (by omega)
    obtain ⟨-, hunread⟩ := h.puts_unread hpos hlen
    have hline := lines_of_string str.2 hpos
    have hwritep : (s.puts str).buf.offsetWritep < dspLogbufSize := by
      simp only [LogRun.puts, hputs]
      exact RingBuffer.wrap_lt h.writep_lt (by omega)
    refine ⟨hwritep, ?_, ?_, ?_, ?_⟩
    · simp only [LogRun.puts, hputs]
      exact h.read_lt
    · simp only [LogRun.puts, hputs]
      exact Function.update_self _ _ _
    · intro _
      rw [hunread]
      by_cases hempty : s.buf.unread = []
      · obtain ⟨c, cs, hcs⟩ := List.exists_cons_of_length_pos (l := str.1) hpos
        rw [hempty, List.nil_append, hcs, List.cons_append]
        rw [hcs, List.cons_append] at hline
        exact hline.weaken
      · exact (h.lines hempty).append hline
    · rw [hunread, chars_append, chars_of_string]
      simp only [LogRun.puts, hputs, if_true]
      rw [h.written, List.append_assoc]

/-! ## Printing -/

/-- How many bytes a call passes over. -/
def LogRing.passed (s : LogRing) : ℕ :=
  if s.mlbLogbuf s.offsetRead = 0 then 0 else min s.pending (dspLogbufSize / 2)

theorem LogRing.passed_le (s : LogRing) : s.passed ≤ s.pending := by
  unfold LogRing.passed
  split_ifs
  · exact Nat.zero_le _
  · exact Nat.min_le_left _ _

theorem LogRun.print_eq_self (hc : s.buf.mlbLogbuf s.buf.offsetRead = 0) :
    s.print = s := by
  have hnone : dspLogbufPrint s.buf = ([], s.buf) := if_neg (not_not.mpr hc)
  simp only [LogRun.print, hnone]
  rw [show payload [] = [] from rfl, List.append_nil]

/-- A reader that is not in front of a zero byte has something to print. -/
theorem LogRun.Sound.unread_ne_nil (h : s.Sound)
    (hc : s.buf.mlbLogbuf s.buf.offsetRead ≠ 0) : s.buf.unread ≠ [] := by
  intro hnil
  have hpending : s.buf.pending = 0 := by
    rw [← LogRing.length_unread, hnil, List.length_nil]
  have hend := h.wrap_pending
  rw [hpending, Nat.add_zero, RingBuffer.wrap_of_lt h.read_lt] at hend
  exact hc (hend ▸ h.mark)

theorem LogRun.Sound.print_spec (h : s.Sound) :
    s.print.buf = { s.buf with
        offsetRead := RingBuffer.wrap dspLogbufSize
          (s.buf.offsetRead + s.buf.passed) } ∧
      s.print.printed =
        s.printed ++ chars (s.buf.unread.take s.buf.passed) := by
  by_cases hc : s.buf.mlbLogbuf s.buf.offsetRead = 0
  · have hnone : dspLogbufPrint s.buf = ([], s.buf) := if_neg (not_not.mpr hc)
    have hpassed : s.buf.passed = 0 := if_pos hc
    simp only [LogRun.print, hnone, hpassed, Nat.add_zero,
      RingBuffer.wrap_of_lt h.read_lt]
    exact ⟨trivial, rfl⟩
  · have hpassed : s.buf.passed = min s.buf.pending (8191 + 1) := if_neg hc
    have hmark := h.mark
    rw [← h.wrap_pending] at hmark
    obtain ⟨hoff, hout⟩ := printLoop_spec
      (r := ⟨s.buf.offsetRead, false, false, true, []⟩) (n := 8191) h.read_lt
      h.pending_lt hmark (h.lines (h.unread_ne_nil hc))
    have hloop : dspLogbufPrint s.buf = _ := if_pos hc
    simp only [LogRun.print, hloop, payload_append_newline]
    rw [hpassed]
    refine ⟨congrArg (fun off => { s.buf with offsetRead := off }) hoff, ?_⟩
    rw [← LogRing.length_unread, Nat.min_comm, ← List.take_eq_take_min]
    exact congrArg (s.printed ++ ·) hout

theorem LogRun.Sound.print_unread (h : s.Sound) :
    s.print.buf.unread = s.buf.unread.drop s.buf.passed := by
  obtain ⟨hbuf, -⟩ := h.print_spec
  have hpassed := s.buf.passed_le
  have hpending : s.print.buf.pending = s.buf.pending - s.buf.passed := by
    have hsplit : RingBuffer.wrap dspLogbufSize
        (s.print.buf.offsetRead + (s.buf.pending - s.buf.passed)) =
          s.buf.offsetWritep := by
      rw [hbuf, RingBuffer.wrap_wrap_add h.read_lt
        (by have := h.pending_lt; omega), Nat.add_sub_of_le hpassed,
        h.wrap_pending]
    have hread : s.print.buf.offsetRead < dspLogbufSize := by
      rw [hbuf]
      exact RingBuffer.wrap_lt h.read_lt (hpassed.trans h.pending_lt.le)
    have hlt : s.buf.pending - s.buf.passed < dspLogbufSize :=
      lt_of_le_of_lt (Nat.sub_le _ _) h.pending_lt
    have hwritep : s.print.buf.offsetWritep = s.buf.offsetWritep := by rw [hbuf]
    rw [LogRing.pending, hwritep, ← hsplit,
      RingBuffer.distance_wrap_add hread hlt]
  have hwindow := @RingBuffer.window_add _ dspLogbufSize s.buf.offsetRead
    (s.buf.pending - s.buf.passed) s.buf.passed s.buf.mlbLogbuf h.read_lt
    (by have := h.pending_lt; omega)
  rw [Nat.add_sub_of_le hpassed] at hwindow
  rw [LogRing.unread, LogRing.unread, hpending, hwindow,
    List.drop_left' RingBuffer.length_window, hbuf]

theorem LogRun.Sound.print (h : s.Sound) : s.print.Sound := by
  obtain ⟨hbuf, hprinted⟩ := h.print_spec
  have hunread := h.print_unread
  have hread : s.print.buf.offsetRead < dspLogbufSize := by
    rw [hbuf]
    exact RingBuffer.wrap_lt h.read_lt (s.buf.passed_le.trans h.pending_lt.le)
  refine ⟨?_, hread, ?_, ?_, ?_⟩
  · rw [hbuf]
    exact h.writep_lt
  · rw [hbuf]
    exact h.mark
  · rw [hunread]
    intro hrest
    refine (h.lines ?_).drop _ hrest
    intro hnil
    rw [hnil, List.drop_nil] at hrest
    exact hrest rfl
  · have hsame : s.print.written = s.written := rfl
    rw [hsame, hprinted, hunread, List.append_assoc, ← chars_append,
      List.take_append_drop, h.written]

/-- After a call nothing but a terminator may be left. -/
theorem LogRun.Sound.print_iff (h : s.Sound) :
    s.print.printed = s.print.written ↔ s.buf.PrintsAll := by
  have hrest : s.print.printed = s.print.written ↔
      chars s.print.buf.unread = [] := by
    rw [h.print.written, List.self_eq_append_right]
  rw [hrest, chars_eq_nil_iff h.print.lines, h.print_unread, List.length_drop,
    LogRing.length_unread, LogRing.PrintsAll, LogRing.passed]
  split_ifs <;> omega

/-! ## Runs -/

theorem sound_of_reachable (hs : logMachine.Reachable s) : s.Sound := by
  refine hs.invariant ?_ ?_
  · rintro s rfl
    exact LogRun.initial_sound
  · rintro s e t hs ⟨hfits, hnext⟩
    cases e with
    | puts str =>
        obtain rfl : s.puts str = t := Option.some.inj hnext
        exact hs.puts hfits
    | print =>
        obtain rfl : s.print = t := Option.some.inj hnext
        exact hs.print

/-- Whatever is written and printed in whichever order, as long as it fits in
the ring, the output is a prefix of what was written, and a call completes it
if and only if the pending bytes are few enough. -/
theorem print_completes_iff (hs : logMachine.Reachable s) :
    s.printed <+: s.written ∧
      (s.print.printed = s.print.written ↔ s.buf.PrintsAll) := by
  have hsound := sound_of_reachable hs
  exact ⟨⟨_, hsound.written.symm⟩, hsound.print_iff⟩

/-- Two lines are written and printed. -/
theorem twoLines_complete :
    ∃ s, logMachine.Reachable s ∧ s.written = [0x68, 0x69, 0x0A, 0x21] ∧
      s.printed = [0x68, 0x69, 0x0A] ∧ s.printed <+: s.written ∧
      (s.print.printed = s.print.written ↔ s.buf.PrintsAll) := by
  have hrun : ∃ s, logMachine.Reachable s ∧
      (s.written = [0x68, 0x69, 0x0A, 0x21] ∧ s.printed = [0x68, 0x69, 0x0A]) :=
    Machine.exists_restrict_reachable_of_run
      (fun s : LogRun => s.written = [0x68, 0x69, 0x0A, 0x21] ∧
        s.printed = [0x68, 0x69, 0x0A])
      [.puts ⟨[0x68, 0x69, 0x0A], by decide⟩, .print,
        .puts ⟨[0x21], by decide⟩] (by decide +kernel)
  obtain ⟨s, hs, hwritten, hprinted⟩ := hrun
  obtain ⟨hstart, hiff⟩ := print_completes_iff hs
  exact ⟨s, hs, hwritten, hprinted, hstart, hiff⟩

/-- A line of `n` times the same letter. -/
def letters (n : ℕ) : CString :=
  ⟨List.replicate n 0x41, by simp [List.mem_replicate]⟩

theorem length_letters (n : ℕ) : (letters n).1.length = n :=
  List.length_replicate

theorem LogRing.head_of_unread {b : LogRing} {c : Byte} {cs : List Byte}
    (h : b.unread = c :: cs) : b.mlbLogbuf b.offsetRead = c := by
  have hpending : b.pending = cs.length + 1 := by
    rw [← b.length_unread, h, List.length_cons]
  rw [LogRing.unread, hpending] at h
  exact (List.cons.inj h).1

theorem reachable_puts_letters {n : ℕ} (hn : 0 < n) (h : n + 1 < dspLogbufSize) :
    logMachine.Reachable (LogRun.initial.puts (letters n)) ∧
      (LogRun.initial.puts (letters n)).buf.unread = (letters n).1 ++ [0] := by
  have hlen := length_letters n
  have hfits : FitsRing LogRun.initial (.puts (letters n)) :=
    ⟨by omega, fun _ => by rw [hlen]; exact (Nat.zero_add _).trans_lt h⟩
  refine ⟨.step (.init rfl) ⟨hfits, rfl⟩, ?_⟩
  exact (LogRun.initial_sound.puts_unread (by omega) (hfits.2 (by omega))).2

/-- One call does not print a line of one character more than half the ring, and
after a line of exactly that half the reader stays in front of the terminator
while other lines are written. -/
theorem longLine_not_printed :
    (∃ s, logMachine.Reachable s ∧ s.print.printed ≠ s.print.written) ∧
      ∃ s, logMachine.Reachable s ∧ s.buf.pending = 3 ∧ s.print = s ∧
        s.printed ≠ s.written := by
  constructor
  · obtain ⟨hreach, hunread⟩ := reachable_puts_letters (n := 8193) (by decide)
      (by decide)
    refine ⟨_, hreach, ?_⟩
    rw [Ne, (sound_of_reachable hreach).print_iff, LogRing.PrintsAll,
      ← LogRing.length_unread, hunread, List.length_append, length_letters]
    split_ifs <;> decide
  · obtain ⟨hreach, hunread⟩ := reachable_puts_letters (n := 8192) (by decide)
      (by decide)
    have hsound := sound_of_reachable hreach
    have hpending := LogRing.length_unread (LogRun.initial.puts (letters 8192)).buf
    rw [hunread, List.length_append, length_letters] at hpending
    have hpassed : (LogRun.initial.puts (letters 8192)).buf.passed = 8192 := by
      have hhead := LogRing.head_of_unread
        (hunread.trans (congrArg (· ++ [0]) List.replicate_succ))
      rw [LogRing.passed, hhead, ← hpending]
      rfl
    have hleft := hsound.print_unread
    rw [hunread, hpassed, List.drop_left' (length_letters 8192)] at hleft
    have hprint := LogRun.Sound.print hsound
    have hshort := LogRing.length_unread (LogRun.initial.puts (letters 8192)).print.buf
    rw [hleft] at hshort
    have hfits : FitsRing (LogRun.initial.puts (letters 8192)).print
        (.puts (letters 1)) :=
      ⟨by decide, fun _ => by rw [← hshort, length_letters]; decide⟩
    obtain ⟨hthree, hstuck⟩ := @LogRun.Sound.puts_unread _ (letters 1) hprint
      (by decide) (hfits.2 (by decide))
    rw [hleft] at hstuck
    have hlast := hprint.puts hfits
    have hfree : FitsRing (LogRun.initial.puts (letters 8192)) .print := trivial
    have hreach' := hreach.step ⟨hfree, rfl⟩
    refine ⟨_, hreach'.step ⟨hfits, rfl⟩, ?_, ?_, ?_⟩
    · rw [hthree, ← hshort]
      rfl
    · exact LogRun.print_eq_self (LogRing.head_of_unread hstuck)
    · rw [hlast.written, hstuck, Ne, List.self_eq_append_right]
      decide

end C64Tools.Logbuf
