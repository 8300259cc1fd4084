import C64Tools.Logbuf.Model

/-!
# What is printed of the log

Behind the reader lie the lines that are still to be printed, with the mark of
the end after them.  The reader's counter goes down twice for each byte, so one
call passes over half the ring at most.
-/

namespace C64Tools.Logbuf

open Transition ByteMemory

/-! ## Lines -/

/-- The characters among some bytes. -/
def chars (bytes : List Byte) : List Byte :=
  bytes.filter (· ≠ 0)

/-- Bytes that end with a terminator and have no two of them in succession,
after a terminator if `z` is set. -/
def Lines : Bool → List Byte → Prop
  | z, [] => z = true
  | z, c :: cs => (c = 0 → z = false) ∧ Lines (c == 0) cs

theorem Lines.weaken {z : Bool} {c : Byte} {cs : List Byte}
    (h : Lines z (c :: cs)) : Lines false (c :: cs) :=
  ⟨fun _ => rfl, h.2⟩

theorem Lines.append {z : Bool} {xs ys : List Byte} (hxs : Lines z xs)
    (hys : Lines true ys) : Lines z (xs ++ ys) := by
  induction xs generalizing z with
  | nil =>
      obtain rfl : z = true := hxs
      exact hys
  | cons c cs ih => exact ⟨hxs.1, ih hxs.2⟩

/-- What is left of some lines after a few bytes. -/
theorem Lines.drop {z : Bool} {xs : List Byte} (h : Lines z xs) (k : ℕ)
    (hk : xs.drop k ≠ []) : Lines false (xs.drop k) := by
  induction k generalizing z xs with
  | zero =>
      cases xs with
      | nil => exact absurd rfl hk
      | cons c cs => exact h.weaken
  | succ k ih =>
      cases xs with
      | nil => exact absurd rfl hk
      | cons c cs => exact ih h.2 hk

/-- A line, after another one. -/
theorem lines_of_string {str : List Byte} (hnul : (0 : Byte) ∉ str)
    (hlen : 0 < str.length) : Lines true (str ++ [0]) := by
  have hrest : ∀ cs : List Byte, (0 : Byte) ∉ cs → Lines false (cs ++ [0]) := by
    intro cs hcs
    induction cs with
    | nil => exact ⟨fun _ => rfl, rfl⟩
    | cons c cs ih =>
        obtain ⟨hc, hcs⟩ := List.ne_and_not_mem_of_not_mem_cons hcs
        rw [List.cons_append, Lines, beq_eq_false_iff_ne.mpr hc.symm]
        exact ⟨fun _ => rfl, ih hcs⟩
  cases str with
  | nil => exact absurd hlen (Nat.lt_irrefl 0)
  | cons c cs =>
      obtain ⟨hc, hcs⟩ := List.ne_and_not_mem_of_not_mem_cons hnul
      rw [List.cons_append, Lines, beq_eq_false_iff_ne.mpr hc.symm]
      exact ⟨fun h => absurd h.symm hc, hrest cs hcs⟩

/-- Only a terminator can be left without a character. -/
theorem chars_eq_nil_iff {xs : List Byte} (h : xs ≠ [] → Lines false xs) :
    chars xs = [] ↔ xs.length ≤ 1 := by
  cases xs with
  | nil => exact iff_of_true rfl (Nat.zero_le 1)
  | cons c cs =>
      obtain ⟨-, hcs⟩ := h (List.cons_ne_nil c cs)
      cases cs with
      | nil =>
          have hc : c = 0 := beq_iff_eq.mp hcs
          simp [chars, hc]
      | cons d ds =>
          refine iff_of_false (fun hnil => ?_) (by simp)
          rw [chars, List.filter_eq_nil_iff] at hnil
          have hc : c = 0 := by simpa using hnil c (by simp)
          have hd : d = 0 := by simpa using hnil d (by simp)
          have hz := hcs.1 hd
          rw [hc] at hz
          cases hz

theorem chars_append (xs ys : List Byte) :
    chars (xs ++ ys) = chars xs ++ chars ys :=
  List.filter_append xs ys

theorem chars_of_string (str : CString) : chars (str.1 ++ [0]) = str.1 := by
  rw [chars_append]
  have hstr : chars str.1 = str.1 :=
    List.filter_eq_self.mpr fun c hc => by
      simpa using fun h : c = 0 => str.2 (h ▸ hc)
  rw [hstr]
  exact List.append_nil str.1

/-! ## The loop of the reader -/

section Loop

variable {buf : ℕ → Byte} {r : PrintState}

theorem PrintState.next_of_eq_zero (h : buf r.off = 0) :
    r.next buf = { r with
      off := RingBuffer.wrap dspLogbufSize (r.off + 1)
      bLZ := true } :=
  if_neg (not_not.mpr h)

theorem PrintState.next_of_ne_zero (h : buf r.off ≠ 0) :
    r.next buf =
      { off := RingBuffer.wrap dspLogbufSize (r.off + 1)
        bLF := buf r.off == 0x0A
        bLZ := false
        bLS := buf r.off == 0x0A
        output := r.output ++ (if r.bLS then [.label "DSP: "] else []) ++
          [.char (buf r.off)] } :=
  if_pos h

theorem PrintState.next_off :
    (r.next buf).off = RingBuffer.wrap dspLogbufSize (r.off + 1) := by
  by_cases h : buf r.off = 0
  · rw [next_of_eq_zero h]
  · rw [next_of_ne_zero h]

theorem PrintState.next_bLZ : (r.next buf).bLZ = (buf r.off == 0) := by
  by_cases h : buf r.off = 0
  · rw [next_of_eq_zero h, beq_iff_eq.mpr h]
  · rw [next_of_ne_zero h, beq_eq_false_iff_ne.mpr h]

theorem payload_append (xs ys : List LogOutput) :
    payload (xs ++ ys) = payload xs ++ payload ys :=
  List.filterMap_append

/-- The newline that closes an unfinished line is not part of the payload. -/
theorem payload_append_newline (xs : List LogOutput) (closed : Bool) :
    payload (xs ++ if closed then [] else [.newline]) = payload xs := by
  rw [payload_append]
  cases closed <;> exact List.append_nil _

theorem PrintState.payload_next :
    payload (r.next buf).output = payload r.output ++ chars [buf r.off] := by
  by_cases h : buf r.off = 0
  · rw [next_of_eq_zero h, h]
    exact (List.append_nil _).symm
  · have hlabel : payload (if r.bLS then [.label "DSP: "] else []) = [] := by
      split <;> rfl
    have hchar : chars [buf r.off] = [buf r.off] :=
      List.filter_cons_of_pos (decide_eq_true h)
    rw [next_of_ne_zero h, payload_append, payload_append, hlabel, hchar,
      List.append_nil]
    rfl

theorem PrintState.atEnd_eq_false (h : buf r.off = 0 → r.bLZ = false) :
    r.atEnd buf = false := by
  by_cases hc : buf r.off = 0
  · rw [atEnd, h hc, Bool.and_false]
  · rw [atEnd, beq_eq_false_iff_ne.mpr hc, Bool.false_and]

/-- Where a terminator came last and the mark follows, the loop stops. -/
theorem printLoop_of_end (n : ℕ) (hzero : buf r.off = 0)
    (hlast : r.bLZ = true) : printLoop buf (n + 2) r = r := by
  have hend : r.atEnd buf = true := by
    rw [PrintState.atEnd, hzero, hlast]
    rfl
  exact if_pos hend

theorem printLoop_of_nothing_pending (n k : ℕ) (hoff : r.off < dspLogbufSize)
    (hmark : buf (RingBuffer.wrap dspLogbufSize (r.off + 0)) = 0)
    (hlast : r.bLZ = true) :
    (printLoop buf (n + 2) r).off =
        RingBuffer.wrap dspLogbufSize (r.off + min 0 k) ∧
      payload (printLoop buf (n + 2) r).output = payload r.output ++
        chars ((RingBuffer.window dspLogbufSize buf r.off 0).take k) := by
  rw [Nat.add_zero, RingBuffer.wrap_of_lt hoff] at hmark
  rw [printLoop_of_end n hmark hlast, Nat.zero_min, Nat.add_zero,
    RingBuffer.wrap_of_lt hoff, RingBuffer.window, List.take_nil]
  exact ⟨rfl, (List.append_nil _).symm⟩

/-- The loop passes over what is pending, up to half of its counter. -/
theorem printLoop_spec {n m : ℕ} (hoff : r.off < dspLogbufSize)
    (hm : m < dspLogbufSize)
    (hmark : buf (RingBuffer.wrap dspLogbufSize (r.off + m)) = 0)
    (hlines : Lines r.bLZ (RingBuffer.window dspLogbufSize buf r.off m)) :
    (printLoop buf (2 * n + 2) r).off =
        RingBuffer.wrap dspLogbufSize (r.off + min m (n + 1)) ∧
      payload (printLoop buf (2 * n + 2) r).output = payload r.output ++
        chars ((RingBuffer.window dspLogbufSize buf r.off m).take (n + 1)) := by
  induction n generalizing r m with
  | zero =>
      cases m with
      | zero => exact printLoop_of_nothing_pending _ _ hoff hmark hlines
      | succ m =>
          have hlast : printLoop buf 2 r = r.next buf := by
            rw [printLoop, PrintState.atEnd_eq_false hlines.1]
            rfl
          rw [Nat.mul_zero, Nat.zero_add, Nat.zero_add, hlast,
            Nat.min_eq_right (by omega)]
          exact ⟨PrintState.next_off, PrintState.payload_next⟩
  | succ n ih =>
      cases m with
      | zero => exact printLoop_of_nothing_pending _ _ hoff hmark hlines
      | succ m =>
          have hgo : printLoop buf (2 * (n + 1) + 2) r =
              printLoop buf (2 * n + 2) (r.next buf) := by
            rw [printLoop, PrintState.atEnd_eq_false hlines.1]
            rfl
          have hnext : (r.next buf).off < dspLogbufSize := by
            rw [PrintState.next_off]
            exact RingBuffer.wrap_lt hoff (by decide)
          obtain ⟨hoff', hout'⟩ := ih (r := r.next buf) (m := m) hnext
            (by omega)
            (by rwa [PrintState.next_off, RingBuffer.wrap_wrap_add hoff (by omega),
              Nat.add_comm 1 m])
            (by rw [PrintState.next_off, PrintState.next_bLZ]; exact hlines.2)
          rw [hgo]
          constructor
          · rw [hoff', PrintState.next_off, RingBuffer.wrap_wrap_add hoff
              (by omega), Nat.succ_min_succ, Nat.add_comm 1]
          · rw [hout', PrintState.payload_next, PrintState.next_off,
              List.append_assoc, ← chars_append]
            rfl

end Loop

end C64Tools.Logbuf
