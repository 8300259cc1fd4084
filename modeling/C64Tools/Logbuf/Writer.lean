import C64Tools.Logbuf.Model

/-!
# The writer's side of the ring

`loc_logbuf_addline()` copies a line in one piece or in two, so that every byte
comes to lie at the next position modulo the size of the ring, and puts the mark
of the end behind it.  Nothing else is written, and nothing at all for a line
that is as long as the ring.
-/

namespace C64Tools.Logbuf

open Transition ByteMemory

/-- Calls with lines of any length, on a ring that holds anything at first. -/
def writerMachine : Machine LogRing (List Byte) where
  init s := s.offsetWritep = 0
  step s line t := t = (locLogbufAddline line line.length s).2

/-- A line is stored from the writer's offset on, with the mark behind it. -/
structure StoresLine (s : LogRing) (line : List Byte) (t : LogRing) : Prop where
  stored : ∀ (k : ℕ) (hk : k < line.length),
    t.mlbLogbuf ((s.offsetWritep + k) % dspLogbufSize) = line.get ⟨k, hk⟩
  writep : t.offsetWritep = (s.offsetWritep + line.length) % dspLogbufSize
  mark : t.mlbLogbuf t.offsetWritep = 0
  frame : ∀ j, (∀ k < line.length,
      j ≠ (s.offsetWritep + k) % dspLogbufSize) →
    j ≠ t.offsetWritep → t.mlbLogbuf j = s.mlbLogbuf j

variable {s t : LogRing} {line : List Byte}

/-- A line that is not too long is stored round the end of the ring. -/
theorem locLogbufAddline_eq (hlen : line.length < dspLogbufSize) :
    locLogbufAddline line line.length s =
      (0, { s with
        mlbLogbuf := Function.update
          (RingBuffer.storeWrapped dspLogbufSize s.mlbLogbuf s.offsetWritep
            line)
          (RingBuffer.wrap dspLogbufSize (s.offsetWritep + line.length)) 0
        offsetWritep := RingBuffer.wrap dspLogbufSize
          (s.offsetWritep + line.length) }) := by
  have hdrop : ∀ k, (line.drop k).take (line.length - k) = line.drop k :=
    fun k => List.take_of_length_le (by rw [List.length_drop])
  rw [locLogbufAddline, if_pos hlen, hdrop, List.take_length]
  rfl

theorem locLogbufAddline_rejected (hlen : ¬ line.length < dspLogbufSize) :
    locLogbufAddline line line.length s = (-1, s) :=
  if_neg hlen

theorem StoresLine.of_lt (hs : s.offsetWritep < dspLogbufSize)
    (hlen : line.length < dspLogbufSize) :
    StoresLine s line (locLogbufAddline line line.length s).2 := by
  have hpos : ∀ k < dspLogbufSize,
      (s.offsetWritep + k) % dspLogbufSize =
        RingBuffer.wrap dspLogbufSize (s.offsetWritep + k) :=
    fun k hk => (RingBuffer.wrap_eq_mod hs hk.le).symm
  rw [locLogbufAddline_eq hlen]
  constructor
  · intro k hk
    have hkn : k < dspLogbufSize := Nat.lt_trans hk hlen
    have hne : RingBuffer.wrap dspLogbufSize (s.offsetWritep + k) ≠
        RingBuffer.wrap dspLogbufSize (s.offsetWritep + line.length) := by
      rw [ne_eq, RingBuffer.wrap_add_inj hkn hlen]
      exact Nat.ne_of_lt hk
    rw [hpos k hkn]
    simp only [Function.update_of_ne hne]
    rw [RingBuffer.storeWrapped_apply hs hlen.le hkn,
      List.getElem?_eq_getElem hk, Option.getD_some, List.get_eq_getElem]
  · exact (hpos _ hlen).symm
  · exact Function.update_self _ _ _
  · intro j hline hmark
    refine (Function.update_of_ne hmark _ _).trans ?_
    by_cases hj : j < dspLogbufSize
    · let k := RingBuffer.distance dspLogbufSize s.offsetWritep j
      have hk : k < dspLogbufSize := RingBuffer.distance_lt hs hj
      have hjk : RingBuffer.wrap dspLogbufSize (s.offsetWritep + k) = j :=
        RingBuffer.wrap_add_distance hs hj
      have hout : line.length ≤ k := by
        by_contra hlt
        exact hline k (Nat.lt_of_not_le hlt) (by rw [hpos k hk, hjk])
      rw [← hjk, RingBuffer.storeWrapped_apply hs hlen.le hk,
        List.getElem?_eq_none hout, Option.getD_none]
    · exact RingBuffer.storeWrapped_of_le hs hlen.le (Nat.le_of_not_lt hj)

/-- The writer's offset stays in the ring. -/
theorem writerMachine_offsetWritep_lt (hs : writerMachine.Reachable s) :
    s.offsetWritep < dspLogbufSize := by
  refine hs.invariant (P := fun s => s.offsetWritep < dspLogbufSize) ?_ ?_
  · intro s hinit
    rw [show s.offsetWritep = 0 from hinit]
    decide
  · rintro s line t hlt rfl
    by_cases hlen : line.length < dspLogbufSize
    · rw [(StoresLine.of_lt hlt hlen).writep]
      exact Nat.mod_lt _ (by decide)
    · rw [locLogbufAddline_rejected hlen]
      exact hlt

theorem locLogbufAddline_writes (hs : writerMachine.Reachable s)
    (line : List Byte) :
    s.offsetWritep < dspLogbufSize ∧
      ((locLogbufAddline line line.length s).1 = 0 ↔
        line.length < dspLogbufSize) ∧
      ((locLogbufAddline line line.length s).1 = 0 →
        StoresLine s line (locLogbufAddline line line.length s).2) ∧
      ((locLogbufAddline line line.length s).1 ≠ 0 →
        (locLogbufAddline line line.length s).2 = s) := by
  have hwritep := writerMachine_offsetWritep_lt hs
  refine ⟨hwritep, ?_⟩
  by_cases hlen : line.length < dspLogbufSize
  · have hret : (locLogbufAddline line line.length s).1 = 0 := by
      rw [locLogbufAddline_eq hlen]
    exact ⟨iff_of_true hret hlen, fun _ => StoresLine.of_lt hwritep hlen,
      fun h => absurd hret h⟩
  · have hadd := locLogbufAddline_rejected (s := s) hlen
    have hret : (locLogbufAddline line line.length s).1 ≠ 0 := by
      rw [hadd]
      exact (by decide : (-1 : ℤ) ≠ 0)
    exact ⟨iff_of_false hret hlen, fun h => absurd h hret,
      fun _ => by rw [hadd]⟩

/-- A line that comes to lie on both sides of the end of the ring. -/
theorem locLogbufAddline_writes_wrapped :
    ∃ s, writerMachine.Reachable s ∧ s.offsetWritep = 16380 ∧
      StoresLine s [1, 2, 3, 4, 5, 6, 7, 0]
        (locLogbufAddline [1, 2, 3, 4, 5, 6, 7, 0] 8 s).2 := by
  let start : LogRing :=
    { mlbLogbuf := fun _ => 0, offsetWritep := 0, offsetRead := 0 }
  let s := (locLogbufAddline (List.replicate 16380 1)
    (List.replicate 16380 (1 : Byte)).length start).2
  have hs : writerMachine.Reachable s :=
    Machine.Reachable.step (e := List.replicate 16380 1)
      (Machine.Reachable.init (rfl : start.offsetWritep = 0)) rfl
  have hwritep : s.offsetWritep = 16380 := by
    have hlen : (List.replicate 16380 (1 : Byte)).length = 16380 :=
      List.length_replicate
    simp only [s, locLogbufAddline, hlen]
    decide
  obtain ⟨-, hret, hstored, -⟩ :=
    locLogbufAddline_writes hs [1, 2, 3, 4, 5, 6, 7, 0]
  exact ⟨s, hs, hwritep, hstored (hret.mpr (by decide))⟩

end C64Tools.Logbuf
