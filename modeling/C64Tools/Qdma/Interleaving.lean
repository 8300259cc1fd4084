import C64Tools.Qdma.Programs

/-!
# Every order of steps

What is found between two steps settles to the memory of the plain execution.
The steps of the transfers keep it so and come to an end; a step of the program
is a step of the plain execution.
-/

namespace C64Tools.Qdma

open Edma ByteMemory Transfers Transition

/-! ## How far a transfer has got -/

/-- The variables of `dma.c` after `qdma_init()`, while a channel may have been
started. -/
structure Ready (d : DmaState) (running : Option ℕ) : Prop where
  configured : Configured d.tpcc
  paramNr : ∀ nr < 8, (d.qdma nr).paramNr = nr
  tccNr : ∀ nr < 8, (d.qdma nr).tccNr = BitVec.ofNat 32 nr
  bRunning : ∀ nr < 8, (d.qdma nr).bRunning = decide (running = some nr)

/-- What is under way, with the moves that are left. -/
inductive Phase (s : Sys) :
    Bool → Option (ℕ × List (Move Word Byte)) → List (Move Word Byte) → Prop
  | fresh (hpending : s.dma.tpcc.pending = []) (hqueue : s.queue = []) :
      Phase s false none []
  | idle (hready : Ready s.dma none) (hpending : s.dma.tpcc.pending = [])
      (hqueue : s.queue = []) (hipr : ∀ tcc < 8, s.ipr tcc = false) :
      Phase s true none []
  | asked {ch : ℕ} {x : Transfer} (hch : ch < 8)
      (hready : Ready s.dma (some ch)) (hrange : x.InRange)
      (hpending : s.dma.tpcc.pending = [ch])
      (hparam : s.dma.tpcc.param ch = x.words (BitVec.ofNat 32 ch) 0xFFFF)
      (hqueue : s.queue = []) (hipr : ∀ tcc < 8, s.ipr tcc = false) :
      Phase s true (some (ch, x.moves)) x.moves
  | moving {ch : ℕ} {ms left : List (Move Word Byte)} (hch : ch < 8)
      (hready : Ready s.dma (some ch)) (hpending : s.dma.tpcc.pending = [])
      (hqueue : s.queue = [⟨left, [ch]⟩])
      (hipr : ∀ tcc < 8, s.ipr tcc = false) :
      Phase s true (some (ch, ms)) left
  | done {ch : ℕ} {ms : List (Move Word Byte)} (hch : ch < 8)
      (hready : Ready s.dma (some ch)) (hpending : s.dma.tpcc.pending = [])
      (hqueue : s.queue = []) (hipr : ∀ tcc < 8, s.ipr tcc = decide (tcc = ch)) :
      Phase s true (some (ch, ms)) []

/-- What is found settles to the memory of the plain execution. -/
structure Follows (s : Sys) (q : Quiet) (left : List (Move Word Byte)) :
    Prop where
  phase : Phase s q.ready q.busy left
  settles : settled s.mem left = q.mem
  apart : Apart left
  within : Within left q.moves

/-- The steps that the transfers have left. -/
def Sys.rank (s : Sys) : ℕ :=
  (s.queue.map fun b => weight b.moves + 1).sum +
    (s.dma.tpcc.pending.map fun ch =>
      weight (rowsMoves (s.dma.tpcc.param (s.dma.tpcc.paEntry ch)).rows) + 2).sum

variable {tc : TransferControllers} {s s' : Sys} {q : Quiet}
  {left : List (Move Word Byte)} {x : Transfer}
  {ch nr : ℕ} {a : Word}

theorem apart_nil : Apart ([] : List (Move Word Byte)) :=
  ⟨List.nodup_nil, fun _ h => absurd h List.not_mem_nil⟩

theorem within_nil (ms : List (Move Word Byte)) : Within [] ms :=
  fun _ h => absurd h List.not_mem_nil

/-! ## Steps of the transfers -/

/-- The last one of a chain signals its completion. -/
theorem batch_words (hch : ch < 8) (hrange : x.InRange) (link : ℕ) :
    batch (x.words (BitVec.ofNat 32 ch) link).events =
      ⟨x.moves, if link ≤ 127 then [] else [ch]⟩ := by
  rw [Transfer.words_events hch hrange]
  simp only [batch, List.flatMap_append, List.flatMap_map, List.filterMap_append,
    Transfer.moves, rowsMoves]
  by_cases hlink : link ≤ 127
  · rw [if_pos hlink, if_pos hlink]
    simp
  · rw [if_neg hlink, if_neg hlink]
    simp

/-- The event of a channel is served. -/
theorem service_of_asked (hch : ch < 8) (hready : Ready s.dma (some ch))
    (hrange : x.InRange) (hpending : s.dma.tpcc.pending = [ch])
    (hparam : s.dma.tpcc.param ch = x.words (BitVec.ofNat 32 ch) 0xFFFF) :
    s.dma.tpcc.service =
      some { s.dma.tpcc with
        pending := []
        trace := s.dma.tpcc.trace ++
          (x.words (BitVec.ofNat 32 ch) 0xFFFF).events } := by
  obtain ⟨-, -, hstatic, -⟩ := Transfer.words_option x 0xFFFF hch
  have hentry := hready.configured.paEntry ch hch
  simp only [Controller.service, hpending, hentry, hparam]
  rw [if_pos (Transfer.words_oneShot hch hrange),
    if_pos (hstatic.trans (by decide))]

theorem rank_of_asked (hch : ch < 8) (hready : Ready s.dma (some ch))
    (hrange : x.InRange) (hpending : s.dma.tpcc.pending = [ch])
    (hparam : s.dma.tpcc.param ch = x.words (BitVec.ofNat 32 ch) 0xFFFF)
    (hqueue : s.queue = []) : s.rank = weight x.moves + 2 := by
  rw [Sys.rank, hqueue, hpending, List.map_singleton, List.sum_singleton,
    hready.configured.paEntry ch hch, hparam, Transfer.words_rows hch hrange]
  exact Nat.zero_add _

theorem not_engine (hpending : s.dma.tpcc.pending = [])
    (hqueue : s.queue = []) : ¬ s.Engine tc s' := by
  intro hstep
  cases hstep with
  | serve h =>
      rw [Controller.service_of_pending_nil hpending] at h
      exact Option.some_ne_none _ h.symm
  | move hq | finish hq =>
      exact List.append_ne_nil_of_right_ne_nil _ (List.cons_ne_nil _ _)
        (hq.symm.trans hqueue)

/-- What has been started is handed on. -/
theorem Follows.serve (h : Follows s q x.moves) (hbusy : q.busy = some (ch, x.moves))
    (hq : q.ready = true) (hch : ch < 8) (hready : Ready s.dma (some ch))
    (hrange : x.InRange) (hpending : s.dma.tpcc.pending = [ch])
    (hparam : s.dma.tpcc.param ch = x.words (BitVec.ofNat 32 ch) 0xFFFF)
    (hqueue : s.queue = []) (hipr : ∀ tcc < 8, s.ipr tcc = false)
    (hstep : s.Engine tc s') :
    Follows s' q x.moves ∧ s'.rank < s.rank := by
  cases hstep with
  | serve hserve =>
      rw [service_of_asked hch hready hrange hpending hparam] at hserve
      obtain rfl := Option.some.inj hserve
      have hnew : batch
          ((s.dma.tpcc.trace ++
            (x.words (BitVec.ofNat 32 ch) 0xFFFF).events).drop
              s.dma.tpcc.trace.length) = ⟨x.moves, [ch]⟩ := by
        rw [List.drop_left, batch_words hch hrange, if_neg (by decide)]
      constructor
      · refine ⟨?_, h.settles, h.apart, h.within⟩
        rw [hq, hbusy]
        refine .moving hch ⟨?_, hready.paramNr, hready.tccNr, hready.bRunning⟩ rfl
          ?_ hipr
        · exact hready.configured.of_eq rfl rfl
        · rw [hqueue, List.nil_append, hnew]
      · rw [rank_of_asked hch hready hrange hpending hparam hqueue, Sys.rank]
        simp only [hqueue, List.nil_append, hnew, List.map_singleton,
          List.sum_singleton, List.map_nil, List.sum_nil, Nat.add_zero]
        exact Nat.lt_succ_self _
  | move hq | finish hq =>
      exact absurd (hq.symm.trans hqueue)
        (List.append_ne_nil_of_right_ne_nil _ (List.cons_ne_nil _ _))

theorem of_append_cons_eq_singleton {γ : Type} {l l' : List γ} {b c : γ}
    (h : l ++ b :: l' = [c]) : l = [] ∧ b = c ∧ l' = [] := by
  cases l with
  | nil =>
      obtain ⟨rfl, rfl⟩ := List.cons.inj h
      exact ⟨rfl, rfl, rfl⟩
  | cons d l =>
      have htail := (List.cons.inj h).2
      exact absurd htail
        (List.append_ne_nil_of_right_ne_nil _ (List.cons_ne_nil _ _))

/-- A transfer that was handed on goes on, or is finished. -/
theorem Follows.advance {ms : List (Move Word Byte)} (h : Follows s q left)
    (hbusy : q.busy = some (ch, ms)) (hq : q.ready = true) (hch : ch < 8)
    (hready : Ready s.dma (some ch)) (hpending : s.dma.tpcc.pending = [])
    (hqueue : s.queue = [⟨left, [ch]⟩]) (hipr : ∀ tcc < 8, s.ipr tcc = false)
    (hstep : s.Engine tc s') :
    (∃ left', Follows s' q left') ∧ s'.rank < s.rank := by
  have hrank : s.rank = weight left + 1 := by
    rw [Sys.rank, hqueue, hpending]
    rfl
  cases hstep with
  | serve hserve =>
      rw [Controller.service_of_pending_nil hpending] at hserve
      exact absurd hserve.symm (Option.some_ne_none _)
  | move hfirst _ hmove =>
      obtain ⟨rfl, rfl, rfl⟩ := of_append_cons_eq_singleton
        (hfirst.symm.trans hqueue)
      obtain ⟨hsettled, hapart, hless, hwithin⟩ := hmove.keeps h.apart
      constructor
      · refine ⟨_, ?_, hsettled.trans h.settles, hapart, hwithin _ h.within⟩
        rw [hq, hbusy]
        exact .moving hch hready hpending rfl hipr
      · rw [hrank, Sys.rank]
        simp only [hpending, List.nil_append, List.map_nil,
          List.sum_nil, Nat.add_zero]
        exact Nat.succ_lt_succ hless
  | finish hfirst _ hnil =>
      obtain ⟨rfl, rfl, rfl⟩ := of_append_cons_eq_singleton
        (hfirst.symm.trans hqueue)
      obtain rfl : left = [] := hnil
      constructor
      · refine ⟨[], ?_, h.settles, apart_nil, within_nil _⟩
        rw [hq, hbusy]
        refine .done hch hready hpending rfl fun tcc htcc => ?_
        show (s.ipr tcc || decide (tcc ∈ [ch])) = decide (tcc = ch)
        rw [hipr tcc htcc, Bool.false_or]
        exact decide_eq_decide.mpr List.mem_singleton
      · rw [hrank, Sys.rank]
        simp only [hpending, List.map_nil, List.sum_nil, Nat.add_zero]
        exact Nat.succ_pos _

/-- The transfers keep what is settled, and have less to do. -/
theorem Follows.engine (h : Follows s q left) (hstep : s.Engine tc s') :
    (∃ left', Follows s' q left') ∧ s'.rank < s.rank := by
  have hphase := h.phase
  generalize hr : q.ready = ready at hphase
  generalize hb : q.busy = busy at hphase
  cases hphase with
  | fresh hpending hqueue => exact absurd hstep (not_engine hpending hqueue)
  | idle hready hpending hqueue hipr =>
      exact absurd hstep (not_engine hpending hqueue)
  | asked hch hready hrange hpending hparam hqueue hipr =>
      obtain ⟨hfollows, hless⟩ := h.serve hb hr hch hready hrange hpending hparam
        hqueue hipr hstep
      exact ⟨⟨_, hfollows⟩, hless⟩
  | moving hch hready hpending hqueue hipr =>
      exact h.advance hb hr hch hready hpending hqueue hipr hstep
  | done hch hready hpending hqueue hipr =>
      exact absurd hstep (not_engine hpending hqueue)

/-! ## Steps of the program -/

variable {α : Type} {p p' : Program α} {r : α × Quiet} {v : Byte}

/-- How far a transfer has got is not a matter of the memory. -/
theorem Phase.store {ready : Bool} {busy : Option (ℕ × List (Move Word Byte))}
    (h : Phase s ready busy left) (mem : Memory 32) :
    Phase { s with mem := mem } ready busy left := by
  cases h with
  | fresh hpending hqueue => exact .fresh hpending hqueue
  | idle hready hpending hqueue hipr => exact .idle hready hpending hqueue hipr
  | asked hch hready hrange hpending hparam hqueue hipr =>
      exact .asked hch hready hrange hpending hparam hqueue hipr
  | moving hch hready hpending hqueue hipr =>
      exact .moving hch hready hpending hqueue hipr
  | done hch hready hpending hqueue hipr =>
      exact .done hch hready hpending hqueue hipr

theorem Follows.loaded (h : Follows s q left) (ha : q.Loadable a) :
    s.mem a = q.mem a := by
  rw [← h.settles, settled_of_not_mem (h.within.dst ha)]

theorem Follows.stored (h : Follows s q left) (ha : q.Storable a) (v : Byte) :
    Follows { s with mem := Function.update s.mem a v }
      { q with mem := Function.update q.mem a v } left where
  phase := h.phase.store _
  settles := by
    show settled (Function.update s.mem a v) left = Function.update q.mem a v
    rw [← h.settles]
    exact settled_update h.apart.nodup (h.within.dst ha.1) (h.within.src ha.2) v
  apart := h.apart
  within := h.within

theorem ready_qdmaInit (s : DmaState) : Ready (qdmaInit s) none where
  configured := qdmaInit_configured s
  paramNr nr hnr := by rw [qdmaInit_qdma hnr]
  tccNr nr hnr := by rw [qdmaInit_qdma hnr]
  bRunning nr hnr := by
    rw [qdmaInit_qdma hnr]
    exact (decide_eq_false (Option.some_ne_none nr).symm).symm

/-- With no transfer under way there is nothing left, and no event. -/
theorem Follows.of_busy_none (h : Follows s q left) (hbusy : q.busy = none) :
    s.mem = q.mem ∧ left = [] ∧ s.dma.tpcc.pending = [] ∧ s.queue = [] := by
  have hphase := h.phase
  have hsettles := h.settles
  rw [hbusy] at hphase
  generalize q.ready = ready at hphase
  cases hphase with
  | fresh hpending hqueue => exact ⟨hsettles, rfl, hpending, hqueue⟩
  | idle hready hpending hqueue hipr => exact ⟨hsettles, rfl, hpending, hqueue⟩

theorem Follows.init (h : Follows s q left) (hbusy : q.busy = none) :
    Follows
      { s with
        dma := qdmaInit s.dma
        ipr := fun tcc => s.ipr tcc && !decide (tcc < numQdmas) }
      { q with ready := true } [] where
  phase := by
    obtain ⟨-, -, hpending, hqueue⟩ := h.of_busy_none hbusy
    show Phase _ true q.busy []
    rw [hbusy]
    refine .idle (ready_qdmaInit _) ?_ hqueue fun tcc htcc => ?_
    · show (qdmaInit s.dma).tpcc.pending = []
      rw [qdmaInit_tpcc]
      exact hpending
    · show (s.ipr tcc && !decide (tcc < numQdmas)) = false
      rw [decide_eq_true (show tcc < numQdmas from htcc)]
      exact Bool.and_false _
  settles := by
    obtain ⟨hmem, -, -, -⟩ := h.of_busy_none hbusy
    exact hmem
  apart := apart_nil
  within := within_nil _

/-- A channel is running from now on. -/
theorem Ready.started {d d' : DmaState} (h : Ready d none)
    (hconf : Configured d'.tpcc) (hqdma : d'.qdma = running d.qdma nr) :
    Ready d' (some nr) := by
  have hother : ∀ k, (d'.qdma k).paramNr = (d.qdma k).paramNr ∧
      (d'.qdma k).tccNr = (d.qdma k).tccNr := by
    intro k
    rw [hqdma, running]
    obtain rfl | hne := eq_or_ne k nr
    · rw [Function.update_self]
      exact ⟨rfl, rfl⟩
    · rw [Function.update_of_ne hne]
      exact ⟨rfl, rfl⟩
  refine ⟨hconf, fun k hk => (hother k).1.trans (h.paramNr k hk),
    fun k hk => (hother k).2.trans (h.tccNr k hk), fun k hk => ?_⟩
  rw [hqdma, running]
  obtain rfl | hne := eq_or_ne k nr
  · rw [Function.update_self]
    exact (decide_eq_true rfl).symm
  · rw [Function.update_of_ne hne, h.bRunning k hk]
    have hne' : some nr ≠ some k := fun h => hne (Option.some.inj h).symm
    rw [decide_eq_false (Option.some_ne_none k).symm, decide_eq_false hne']

theorem Follows.copy (h : Follows s q left) (hstart : q.Startable nr x) :
    Follows { s with dma := s.dma.copy nr x } (q.start nr x) x.moves := by
  obtain ⟨hq, hnr, hnone, hrange, hapart⟩ := hstart
  have hbusy : q.busy = none := Option.isNone_iff_eq_none.mp hnone
  obtain ⟨hmem, rfl, hpending, hqueue⟩ := h.of_busy_none hbusy
  have hphase := h.phase
  rw [hq, hbusy] at hphase
  cases hphase with
  | idle hready _ _ hipr =>
      have htpcc := hready.configured.link_home (x := x) hnr hpending
        (hready.tccNr nr hnr) 0xFFFF
      have hqdma : (s.dma.copy nr x).qdma = running s.dma.qdma nr := by
        rw [DmaState.copy_eq (hready.paramNr nr hnr),
          DmaState.link_eq (by show nr < 128; exact hnr.trans (by decide))]
        exact if_pos rfl
      rw [← DmaState.copy_eq (hready.paramNr nr hnr)] at htpcc
      have hconf : Configured (s.dma.copy nr x).tpcc :=
        hready.configured.of_eq (by rw [htpcc]) (by rw [htpcc])
      refine ⟨?_, ?_, hapart, Within.refl _⟩
      · show Phase _ q.ready (some (nr, x.moves)) x.moves
        rw [hq]
        refine .asked hnr (hready.started hconf hqdma) hrange ?_ ?_ hqueue hipr
        · show (s.dma.copy nr x).tpcc.pending = [nr]
          rw [htpcc]
        · show (s.dma.copy nr x).tpcc.param nr = _
          rw [htpcc]
          exact Function.update_self _ _ _
      · show settled s.mem x.moves = settled q.mem x.moves
        rw [hmem]

/-- The channel that was started is no longer running. -/
theorem Ready.stopped {d : DmaState} (h : Ready d (some ch)) (hch : ch < 8) :
    Ready
      { d with
        qdma := Function.update d.qdma ch { d.qdma ch with bRunning := false } }
      none := by
  have hsame : ∀ k, Function.update d.qdma ch { d.qdma ch with bRunning := false } k =
      { d.qdma k with bRunning := (d.qdma k).bRunning && !decide (k = ch) } := by
    intro k
    obtain rfl | hne := eq_or_ne k ch
    · rw [Function.update_self, decide_eq_true rfl, Bool.not_true, Bool.and_false]
    · rw [Function.update_of_ne hne, decide_eq_false hne, Bool.not_false,
        Bool.and_true]
  refine ⟨h.configured, fun k hk => ?_, fun k hk => ?_, fun k hk => ?_⟩
  · exact (congrArg QdmaT.paramNr (hsame k)).trans (h.paramNr k hk)
  · exact (congrArg QdmaT.tccNr (hsame k)).trans (h.tccNr k hk)
  · refine (congrArg QdmaT.bRunning (hsame k)).trans ?_
    show ((d.qdma k).bRunning && !decide (k = ch)) = decide (none = some k)
    rw [h.bRunning k hk, decide_eq_false (Option.some_ne_none k).symm]
    obtain rfl | hne := eq_or_ne k ch
    · rw [decide_eq_true (rfl : k = k), Bool.not_true, Bool.and_false]
    · rw [decide_eq_false fun heq => hne (Option.some.inj heq).symm, Bool.false_and]

theorem update_of_decide {f : ℕ → Bool} {k n : ℕ} (h : f k = decide (k = n)) :
    Function.update f n false k = false := by
  obtain rfl | hne := eq_or_ne k n
  · exact Function.update_self _ _ _
  · rw [Function.update_of_ne hne, h, decide_eq_false hne]

/-- Whether a channel has been started is known. -/
theorem Follows.bRunning (h : Follows s q left) (hq : q.ready = true)
    (hnr : nr < 8) :
    (s.dma.qdma nr).bRunning = decide (q.busy.map Prod.fst = some nr) ∧
      (s.dma.qdma nr).tccNr.toNat = nr := by
  have htcc : (BitVec.ofNat 32 nr).toNat = nr := by
    rw [BitVec.toNat_ofNat, Nat.mod_eq_of_lt (by omega)]
  have hphase := h.phase
  rw [hq] at hphase
  generalize q.busy = busy at hphase
  cases hphase with
  | idle hready =>
      rw [hready.bRunning nr hnr, hready.tccNr nr hnr]
      exact ⟨rfl, htcc⟩
  | asked _ hready | moving _ hready | done _ hready =>
      rw [hready.bRunning nr hnr, hready.tccNr nr hnr]
      exact ⟨rfl, htcc⟩

theorem Follows.wait (h : Follows s q left) (hq : q.ready = true) (hnr : nr < 8)
    (hwait : qdmaWait s nr = some s') :
    ∃ left', Follows s' (q.await nr) left' := by
  obtain ⟨hrunning, htcc⟩ := h.bRunning hq hnr
  by_cases hbusy : q.busy.map Prod.fst = some nr
  · -- the channel that is waited for has been started, so its bit must be there
    rw [decide_eq_true hbusy] at hrunning
    simp only [qdmaWait, hrunning, if_true, htcc] at hwait
    by_cases hbit : s.ipr nr = true
    · rw [if_pos hbit] at hwait
      obtain rfl := Option.some.inj hwait
      have hphase := h.phase
      have hsettles := h.settles
      rw [hq] at hphase
      rw [Quiet.await, if_pos hbusy]
      generalize q.busy = busy at hphase hbusy
      cases hphase with
      | idle => cases hbusy
      | asked hch _ _ _ _ _ hipr | moving hch _ _ _ hipr =>
          rw [hipr nr hnr] at hbit
          cases hbit
      | done hch hready hpending hqueue hipr =>
          obtain rfl := Option.some.inj hbusy
          refine ⟨[], ?_, hsettles, apart_nil, within_nil _⟩
          show Phase _ q.ready none []
          rw [hq]
          exact .idle (hready.stopped hch) hpending hqueue
            fun tcc htcc => update_of_decide (hipr tcc htcc)
    · rw [if_neg hbit] at hwait
      cases hwait
  · rw [decide_eq_false hbusy] at hrunning
    simp only [qdmaWait, hrunning] at hwait
    obtain rfl := Option.some.inj hwait
    rw [Quiet.await, if_neg hbusy]
    exact ⟨left, h⟩

/-- A step of the program is a step of the plain execution. -/
theorem Follows.dsp (h : Follows s q left) (hplain : p.plain q = some r)
    (hstep : p.step s = some (p', s')) :
    ∃ q' left', Follows s' q' left' ∧ p'.plain q' = some r := by
  cases p with
  | ret b => cases hstep
  | load b k =>
      obtain ⟨hb, hrest⟩ := Option.ite_none_right_eq_some.mp hplain
      obtain ⟨rfl, rfl⟩ := Prod.mk.inj (Option.some.inj hstep)
      refine ⟨q, left, h, ?_⟩
      rw [h.loaded hb]
      exact hrest
  | store b v k =>
      obtain ⟨hb, hrest⟩ := Option.ite_none_right_eq_some.mp hplain
      obtain ⟨rfl, rfl⟩ := Prod.mk.inj (Option.some.inj hstep)
      exact ⟨_, left, h.stored hb v, hrest⟩
  | init k =>
      obtain ⟨hbusy, hrest⟩ := Option.ite_none_right_eq_some.mp hplain
      obtain ⟨rfl, rfl⟩ := Prod.mk.inj (Option.some.inj hstep)
      exact ⟨_, [], h.init (Option.isNone_iff_eq_none.mp hbusy), hrest⟩
  | copy nr x k =>
      obtain ⟨hstart, hrest⟩ := Option.ite_none_right_eq_some.mp hplain
      obtain ⟨rfl, rfl⟩ := Prod.mk.inj (Option.some.inj hstep)
      exact ⟨_, x.moves, h.copy hstart, hrest⟩
  | link nr call k => cases hplain
  | wait nr k =>
      obtain ⟨⟨hq, hnr⟩, hrest⟩ := Option.ite_none_right_eq_some.mp hplain
      obtain ⟨t, hwait, heq⟩ := Option.map_eq_some_iff.mp hstep
      obtain ⟨rfl, rfl⟩ := Prod.mk.inj heq
      obtain ⟨left', hfollows⟩ := h.wait hq hnr hwait
      exact ⟨_, left', hfollows, hrest⟩

/-- The first request of the queue can always go on. -/
theorem exists_engine_of_cons {b : Batch} {rest : List Batch}
    (tc : TransferControllers) (hqueue : s.queue = b :: rest) :
    ∃ s', s.Engine tc s' := by
  obtain hnil | hne := eq_or_ne b.moves []
  · exact ⟨_, @Sys.Engine.finish tc s [] rest b hqueue tc.mayPass_nil hnil⟩
  · obtain ⟨⟨mem, moves⟩, hmove⟩ := exists_advances s.mem hne
    exact ⟨_, @Sys.Engine.move tc s [] rest b mem moves hqueue tc.mayPass_nil
      hmove⟩

/-- While a program has to wait, the transfers can go on. -/
theorem Follows.exists_engine (h : Follows s q left) (hq : q.ready = true)
    (hnr : nr < 8) (hwait : qdmaWait s nr = none) (tc : TransferControllers) :
    ∃ s', s.Engine tc s' := by
  obtain ⟨hrunning, htcc⟩ := h.bRunning hq hnr
  have hbusy : q.busy.map Prod.fst = some nr := by
    by_contra hne
    rw [decide_eq_false hne] at hrunning
    simp only [qdmaWait, hrunning] at hwait
    cases hwait
  rw [decide_eq_true hbusy] at hrunning
  have hbit : s.ipr nr ≠ true := by
    intro hbit
    simp only [qdmaWait, hrunning, if_true, htcc, hbit] at hwait
    cases hwait
  have hphase := h.phase
  rw [hq] at hphase
  generalize q.busy = busy at hphase hbusy
  cases hphase with
  | idle => cases hbusy
  | asked hch hready hrange hpending hparam hqueue hipr =>
      exact ⟨_, .serve (service_of_asked hch hready hrange hpending hparam)⟩
  | moving hch hready hpending hqueue hipr =>
      exact exists_engine_of_cons tc hqueue
  | done hch hready hpending hqueue hipr =>
      obtain rfl := Option.some.inj hbusy
      exact absurd ((hipr _ hch).trans (decide_eq_true rfl)) hbit

/-- As long as there is something to be done, one side can go on. -/
theorem Follows.progress (h : Follows s q left) (hplain : p.plain q = some r)
    (tc : TransferControllers) :
    (∃ b, p = .ret b) ∨ (∃ c, p.step s = some c) ∨ ∃ s', s.Engine tc s' := by
  cases p with
  | ret b => exact .inl ⟨b, rfl⟩
  | load b k => exact .inr (.inl ⟨_, rfl⟩)
  | store b v k => exact .inr (.inl ⟨_, rfl⟩)
  | init k => exact .inr (.inl ⟨_, rfl⟩)
  | copy nr x k => exact .inr (.inl ⟨_, rfl⟩)
  | link nr call k => exact .inr (.inl ⟨_, rfl⟩)
  | wait nr k =>
      obtain ⟨⟨hq, hnr⟩, -⟩ := Option.ite_none_right_eq_some.mp hplain
      cases hwait : qdmaWait s nr with
      | some t =>
          refine .inr (.inl ⟨(k, t), ?_⟩)
          rw [Program.step, hwait]
          rfl
      | none =>
          exact .inr (.inr (h.exists_engine hq hnr hwait tc))

/-! ## Runs -/

/-- The transfers go on only so often before the program does. -/
theorem acc_of_dsp {p₀ : Program α} {s₀ : Sys}
    (hdsp : ∀ {s q left p' s'}, Follows s q left → p.plain q = some r →
      p.step s = some (p', s') →
        Acc (fun c' c => ∃ side, (machine tc p₀ s₀).step c side c') (p', s'))
    (h : Follows s q left) (hplain : p.plain q = some r) :
    Acc (fun c' c => ∃ side, (machine tc p₀ s₀).step c side c') (p, s) := by
  induction hn : s.rank using Nat.strongRecOn generalizing s left with
  | _ n ih =>
      refine ⟨_, ?_⟩
      rintro ⟨p', s'⟩ ⟨side, hstep⟩
      cases side with
      | dsp => exact hdsp h hplain hstep
      | dma =>
          obtain ⟨hp, hengine⟩ := hstep
          obtain rfl : p' = p := hp
          obtain ⟨⟨left', h'⟩, hless⟩ := h.engine hengine
          exact ih s'.rank (hn ▸ hless) h' rfl

/-- Neither side goes on forever. -/
theorem Follows.acc (h : Follows s q left) (hplain : p.plain q = some r)
    (p₀ : Program α) (s₀ : Sys) :
    Acc (fun c' c => ∃ side, (machine tc p₀ s₀).step c side c') (p, s) := by
  induction p generalizing s q left with
  | ret b => exact acc_of_dsp (fun _ _ hstep => absurd hstep.symm
      (Option.some_ne_none _)) h hplain
  | load b k ih =>
      refine acc_of_dsp (fun h hplain hstep => ?_) h hplain
      obtain ⟨q', left', h', hplain'⟩ := h.dsp hplain hstep
      obtain ⟨rfl, rfl⟩ := Prod.mk.inj (Option.some.inj hstep)
      exact ih _ h' hplain'
  | store b v k ih =>
      refine acc_of_dsp (fun h hplain hstep => ?_) h hplain
      obtain ⟨q', left', h', hplain'⟩ := h.dsp hplain hstep
      obtain ⟨rfl, rfl⟩ := Prod.mk.inj (Option.some.inj hstep)
      exact ih h' hplain'
  | init k ih =>
      refine acc_of_dsp (fun h hplain hstep => ?_) h hplain
      obtain ⟨q', left', h', hplain'⟩ := h.dsp hplain hstep
      obtain ⟨rfl, rfl⟩ := Prod.mk.inj (Option.some.inj hstep)
      exact ih h' hplain'
  | copy nr x k ih =>
      refine acc_of_dsp (fun h hplain hstep => ?_) h hplain
      obtain ⟨q', left', h', hplain'⟩ := h.dsp hplain hstep
      obtain ⟨rfl, rfl⟩ := Prod.mk.inj (Option.some.inj hstep)
      exact ih h' hplain'
  | link nr call k => cases hplain
  | wait nr k ih =>
      refine acc_of_dsp (fun h hplain hstep => ?_) h hplain
      obtain ⟨q', left', h', hplain'⟩ := h.dsp hplain hstep
      obtain ⟨t, -, heq⟩ := Option.map_eq_some_iff.mp hstep
      obtain ⟨rfl, rfl⟩ := Prod.mk.inj heq
      exact ih h' hplain'

/-- Every state of a run follows the plain execution. -/
theorem Follows.reachable (h : Follows s q left) (hplain : p.plain q = some r)
    {c : Program α × Sys} (hc : (machine tc p s).Reachable c) :
    ∃ q' left', Follows c.2 q' left' ∧ c.1.plain q' = some r := by
  refine Machine.Reachable.invariant
    (P := fun c => ∃ q' left', Follows c.2 q' left' ∧ c.1.plain q' = some r)
    ?_ ?_ hc
  · rintro c rfl
    exact ⟨q, left, h, hplain⟩
  · rintro ⟨p, s⟩ side ⟨p', s'⟩ ⟨q', left', h', hplain'⟩ hstep
    cases side with
    | dsp => exact h'.dsp hplain' hstep
    | dma =>
        obtain ⟨hp, hengine⟩ := hstep
        obtain rfl : p' = p := hp
        obtain ⟨⟨left'', h''⟩, -⟩ := h'.engine hengine
        exact ⟨q', left'', h'', hplain'⟩

/-- A plain execution which has waited for its transfers is what every order of
steps comes to, if nothing was under way before. -/
theorem Program.yields_of_plain {b : α} (hpending : s.dma.tpcc.pending = [])
    (hqueue : s.queue = []) (hplain : p.plain ⟨s.mem, false, none⟩ = some (b, q))
    (hbusy : q.busy = none) : Yields tc p s b q.mem := by
  have h : Follows s ⟨s.mem, false, none⟩ [] :=
    ⟨.fresh hpending hqueue, rfl, apart_nil, within_nil _⟩
  constructor
  · intro b' s' hc
    obtain ⟨q', left', h', hplain'⟩ := h.reachable hplain hc
    obtain ⟨rfl, rfl⟩ := Prod.mk.inj (Option.some.inj hplain')
    obtain ⟨hmem, -, hpending', hqueue'⟩ := h'.of_busy_none hbusy
    exact ⟨rfl, hmem, hpending', hqueue'⟩
  · rintro ⟨p', s'⟩ hc
    obtain ⟨q', left', h', hplain'⟩ := h.reachable hplain hc
    obtain hret | ⟨c, hstep⟩ | ⟨t, hengine⟩ := h'.progress hplain' tc
    · exact .inl hret
    · exact .inr ⟨.dsp, c, hstep⟩
    · exact .inr ⟨.dma, (p', t), rfl, hengine⟩
  · exact h.acc hplain p s

/-! ## A result that is worked on -/

/-- Every step of a program that goes on with its result is one of the program. -/
theorem step_bind_ret {β : Type} {f : α → β} {c : Program β × Sys}
    (hstep : (p.bind fun a => .ret (f a)).step s = some c) :
    ∃ p' s', p.step s = some (p', s') ∧ c = (p'.bind fun a => .ret (f a), s') := by
  cases p with
  | ret b => cases hstep
  | wait nr k =>
      obtain ⟨t, hwait, rfl⟩ := Option.map_eq_some_iff.mp hstep
      refine ⟨k, t, ?_, rfl⟩
      rw [Program.step, hwait]
      rfl
  | load b k | store b v k | init k | copy nr x k | link nr call k =>
      cases hstep
      exact ⟨_, _, rfl, rfl⟩

theorem step_bind {β : Type} {f : α → Program β}
    (hstep : p.step s = some (p', s')) :
    (p.bind f).step s = some (p'.bind f, s') := by
  cases p with
  | ret b => cases hstep
  | wait nr k =>
      obtain ⟨t, hwait, heq⟩ := Option.map_eq_some_iff.mp hstep
      obtain ⟨rfl, rfl⟩ := Prod.mk.inj heq
      rw [Program.bind, Program.step, hwait]
      rfl
  | load b k | store b v k | init k | copy nr x k | link nr call k =>
      cases hstep
      rfl

/-- A run of a program that goes on with its result is a run of the program. -/
theorem reachable_bind_ret {β : Type} {f : α → β} {c : Program β × Sys}
    (hc : (machine tc (p.bind fun a => .ret (f a)) s).Reachable c) :
    ∃ p', c.1 = p'.bind (fun a => .ret (f a)) ∧
      (machine tc p s).Reachable (p', c.2) := by
  induction hc with
  | init h =>
      obtain rfl := h
      exact ⟨p, rfl, Machine.Reachable.init rfl⟩
  | @step c c' side _ hstep ih =>
      obtain ⟨p', hp, hreach⟩ := ih
      cases side with
      | dsp =>
          have hstep' : (p'.bind fun a => .ret (f a)).step c.2 = some c' := by
            rw [← hp]
            exact hstep
          obtain ⟨p'', s'', hnext, rfl⟩ := step_bind_ret hstep'
          exact ⟨p'', rfl, hreach.step (e := .dsp) hnext⟩
      | dma =>
          obtain ⟨hsame, hengine⟩ := hstep
          exact ⟨p', hsame.trans hp, hreach.step (e := .dma) ⟨rfl, hengine⟩⟩

theorem acc_bind_ret {β : Type} {p₀ : Program α} {s₀ : Sys}
    {c : Program α × Sys}
    (h : Acc (fun c' c => ∃ side, (machine tc p₀ s₀).step c side c') c)
    (f : α → β) (p₁ : Program β) (s₁ : Sys) :
    Acc (fun c' c => ∃ side, (machine tc p₁ s₁).step c side c')
      (c.1.bind fun a => .ret (f a), c.2) := by
  induction h with
  | intro c _ ih =>
      refine ⟨_, ?_⟩
      rintro ⟨q', t⟩ ⟨side, hstep⟩
      cases side with
      | dsp =>
          obtain ⟨p', s', hnext, heq⟩ := step_bind_ret hstep
          obtain ⟨rfl, rfl⟩ := Prod.mk.inj heq
          exact ih (p', t) ⟨.dsp, hnext⟩
      | dma =>
          obtain ⟨hsame, hengine⟩ := hstep
          obtain rfl : q' = c.1.bind fun a => .ret (f a) := hsame
          exact ih (c.1, t) ⟨.dma, rfl, hengine⟩

theorem Yields.map {β : Type} {b : α} {mem : Memory 32} (h : Yields tc p s b mem)
    (f : α → β) : Yields tc (p.bind fun a => .ret (f a)) s (f b) mem where
  result b' s' hc := by
    obtain ⟨p', hp, hreach⟩ := reachable_bind_ret hc
    cases p' with
    | ret a =>
        obtain ⟨rfl, hrest⟩ := h.result a s' hreach
        exact ⟨Program.ret.inj hp, hrest⟩
    | _ => cases hp
  progress c hc := by
    obtain ⟨c₁, c₂⟩ := c
    obtain ⟨p', rfl, hreach⟩ := reachable_bind_ret hc
    obtain ⟨a, rfl⟩ | ⟨side, ⟨p'', s''⟩, hstep⟩ := h.progress _ hreach
    · exact .inl ⟨f a, rfl⟩
    · cases side with
      | dsp => exact .inr ⟨.dsp, _, step_bind hstep⟩
      | dma => exact .inr ⟨.dma, (_, s''), rfl, hstep.2⟩
  terminates := acc_bind_ret h.terminates f _ _

end C64Tools.Qdma
