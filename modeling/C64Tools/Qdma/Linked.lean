import C64Tools.Qdma.Plain

/-!
# Linked transfers beside a program

A program that has set up a chain waits for its last transfer.  However the bytes
are moved meanwhile, and however late the events of the linked entries are served,
memory is in the end what the transfers make of it one after the other.
-/

namespace C64Tools.Qdma

open Edma ByteMemory Transfers Transition

variable {tc : TransferControllers} {s s' : Sys} {c : Controller} {ch n : ℕ}
  {mem : Memory 32} {x : Transfer}
  {rest : List (ℕ × Transfer)} {mss : List (List (Move Word Byte))} {b : Batch}
  {bs : List Batch}

/-- The memory after transfers that are done one after the other. -/
def performed (mem : Memory 32) (xs : List Transfer) : Memory 32 :=
  xs.foldl (fun mem x => settled mem x.moves) mem

/-- The memory in which the moves of all transfers are done. -/
def settledAll (mem : Memory 32) (mss : List (List (Move Word Byte))) :
    Memory 32 :=
  mss.foldl settled mem

theorem service_of_last {p : ParamSet} (hconf : Configured c) (hch : ch < 8)
    (hpending : c.pending = [ch]) (hparam : c.param ch = p)
    (h : c.Chain ch p []) :
    c.service = some { c with pending := [], trace := c.trace ++ p.events } := by
  obtain ⟨hone, hstatic⟩ := h
  simp only [Controller.service, hpending, hconf.paEntry ch hch, hparam]
  rw [if_pos hone, if_pos hstatic]

/-- The next set takes the place of the one that is done. -/
theorem service_of_linked {p q : ParamSet} {e : ℕ} {sets : List (ℕ × ParamSet)}
    (hconf : Configured c) (hch : ch < 8) (hpending : c.pending = [ch])
    (hparam : c.param ch = p) (h : c.Chain ch p ((e, q) :: sets)) :
    c.service = some { c with
      param := Function.update c.param ch q
      pending := [ch]
      trace := c.trace ++ p.events } := by
  obtain ⟨hone, hstatic, hlink, -, hq, -⟩ := h
  have hlinked : c.linked p = q := by
    rw [Controller.linked, hlink, if_neg (by omega),
      Nat.mul_div_cancel_left _ (by decide), hq]
  have hevent : (List.finRange 8).flatMap (c.triggered ch) = [ch] := by
    have htrig := hconf.retriggers hch
    rwa [Controller.Retriggers, hconf.paEntry ch hch] at htrig
  simp only [Controller.service, hpending, hconf.paEntry ch hch, hparam]
  rw [if_pos hone, if_neg (by rw [hstatic]; decide), hlinked, Controller.load_eq]
  exact congrArg (fun l => some { c with
    param := Function.update c.param ch q
    pending := l
    trace := c.trace ++ p.events }) hevent

/-! ## How far a chain has got -/

/-- Transfers ahead of the last one signal nothing. -/
def silent (mss : List (List (Move Word Byte))) : List Batch :=
  mss.map fun ms => ⟨ms, []⟩

/-- The moves that are left of a chain, and the number of events to come. -/
inductive Linked (s : Sys) (ch : ℕ) :
    List (List (Move Word Byte)) → ℕ → Prop
  | linking (mss : List (List (Move Word Byte))) (x : Transfer)
      (rest : List (ℕ × Transfer)) (hready : Ready s.dma (some ch))
      (hpending : s.dma.tpcc.pending = [ch])
      (hparam : s.dma.tpcc.param ch =
        x.words (BitVec.ofNat 32 ch) (nextEntry rest))
      (hchain : s.dma.tpcc.Chain ch (x.words (BitVec.ofNat 32 ch)
        (nextEntry rest)) (chainSets (BitVec.ofNat 32 ch) rest))
      (hrange : ∀ y ∈ x :: rest.map Prod.snd, y.InRange)
      (hqueue : s.queue = silent mss) (hipr : ∀ tcc < 8, s.ipr tcc = false) :
      Linked s ch (mss ++ (x :: rest.map Prod.snd).map Transfer.moves)
        (rest.length + 1)
  | draining (mss : List (List (Move Word Byte))) (ms : List (Move Word Byte))
      (hready : Ready s.dma (some ch)) (hpending : s.dma.tpcc.pending = [])
      (hqueue : s.queue = silent mss ++ [⟨ms, [ch]⟩])
      (hipr : ∀ tcc < 8, s.ipr tcc = false) : Linked s ch (mss ++ [ms]) 0
  | done (hready : Ready s.dma (some ch)) (hpending : s.dma.tpcc.pending = [])
      (hqueue : s.queue = []) (hipr : ∀ tcc < 8, s.ipr tcc = decide (tcc = ch)) :
      Linked s ch [] 0

/-- An event of the chain is served. -/
theorem Linked.serve {t : Controller} (h : Linked s ch mss n) (hch : ch < 8)
    (ht : s.dma.tpcc.service = some t) :
    ∃ n', n = n' + 1 ∧ Linked
      { s with
        dma := { s.dma with tpcc := t }
        queue := s.queue ++ [batch (t.trace.drop s.dma.tpcc.trace.length)] }
      ch mss n' := by
  cases h with
  | draining _ _ _ hpending | done _ hpending =>
      rw [Controller.service_of_pending_nil hpending] at ht
      exact absurd ht.symm (Option.some_ne_none _)
  | linking mss x rest hready hpending hparam hchain hrange hqueue hipr =>
      have hconf := hready.configured
      have hx : x.InRange := hrange x List.mem_cons_self
      refine ⟨_, rfl, ?_⟩
      cases rest with
      | nil =>
          rw [service_of_last hconf hch hpending hparam hchain] at ht
          obtain rfl := Option.some.inj ht
          refine .draining mss x.moves ⟨hconf.of_eq rfl rfl, hready.paramNr,
            hready.tccNr, hready.bRunning⟩ rfl ?_ hipr
          rw [List.drop_left, batch_words hch hx, hqueue]
          rfl
      | cons ey rest =>
          obtain ⟨e, y⟩ := ey
          obtain ⟨-, hstatic, -, -, -, hrest⟩ := id hchain
          have hlink : e ≤ 127 := by
            obtain ⟨-, -, hwords, -⟩ := Transfer.words_option x e hch
            by_contra hgt
            rw [show (x.words _ (nextEntry ((e, y) :: rest))).static = _ from
              hwords, decide_eq_true hgt] at hstatic
            exact Bool.noConfusion hstatic
          rw [service_of_linked hconf hch hpending hparam hchain] at ht
          obtain rfl := Option.some.inj ht
          have hbatch := batch_words hch hx e
          rw [if_pos hlink] at hbatch
          let served : Sys :=
            { s with
              dma := { s.dma with tpcc := { s.dma.tpcc with
                param := Function.update s.dma.tpcc.param ch
                  (y.words (BitVec.ofNat 32 ch) (nextEntry rest))
                pending := [ch]
                trace := s.dma.tpcc.trace ++
                  (x.words (BitVec.ofNat 32 ch) e).events } }
              queue := s.queue ++ [⟨x.moves, []⟩] }
          have hgo : Linked served ch
              ((mss ++ [x.moves]) ++ (y :: rest.map Prod.snd).map Transfer.moves)
              (rest.length + 1) := by
            refine .linking _ y rest ⟨hconf.of_eq rfl rfl, hready.paramNr,
              hready.tccNr, hready.bRunning⟩ rfl (Function.update_self _ _ _)
              (hrest.congr fun e he => Function.update_of_ne he _ _)
              (fun z hz => hrange z (List.mem_cons_of_mem _ hz)) ?_ hipr
            show s.queue ++ _ = _
            rw [hqueue, silent, silent, List.map_append]
            rfl
          rw [List.append_assoc] at hgo
          rw [List.drop_left, show nextEntry ((e, y) :: rest) = e from rfl,
            hbatch]
          exact hgo

/-- The first transfer of the queue goes on. -/
theorem Linked.move (h : Linked s ch mss n) (hqueue : s.queue = b :: bs)
    (mem : Memory 32) (moves : List (Move Word Byte)) :
    ∃ left, mss = b.moves :: left ∧ Linked
      { s with mem := mem, queue := { b with moves := moves } :: bs }
      ch (moves :: left) n := by
  cases h with
  | linking mss x rest hready hpending hparam hchain hrange hq hipr =>
      cases mss with
      | nil => cases hqueue.symm.trans hq
      | cons ms mss =>
          obtain ⟨rfl, rfl⟩ := List.cons.inj (hqueue.symm.trans hq)
          exact ⟨_, rfl, .linking (moves :: mss) x rest hready hpending hparam
            hchain hrange rfl hipr⟩
  | draining mss ms hready hpending hq hipr =>
      cases mss with
      | nil =>
          obtain ⟨rfl, rfl⟩ := List.cons.inj (hqueue.symm.trans hq)
          exact ⟨_, rfl, .draining [] moves hready hpending rfl hipr⟩
      | cons ms' mss =>
          obtain ⟨rfl, rfl⟩ := List.cons.inj (hqueue.symm.trans hq)
          exact ⟨_, rfl, .draining (moves :: mss) ms hready hpending rfl hipr⟩
  | done _ _ hq => cases hqueue.symm.trans hq

/-- The first transfer of the queue is finished. -/
theorem Linked.finish (h : Linked s ch mss n) (hqueue : s.queue = b :: bs) :
    ∃ left, mss = b.moves :: left ∧ Linked
      { s with
        queue := bs
        ipr := fun tcc => s.ipr tcc || decide (tcc ∈ b.codes) }
      ch left n := by
  cases h with
  | linking mss x rest hready hpending hparam hchain hrange hq hipr =>
      cases mss with
      | nil => cases hqueue.symm.trans hq
      | cons ms mss =>
          obtain ⟨rfl, rfl⟩ := List.cons.inj (hqueue.symm.trans hq)
          refine ⟨_, rfl, .linking mss x rest hready hpending hparam hchain
            hrange rfl fun tcc htcc => ?_⟩
          exact (Bool.or_false _).trans (hipr tcc htcc)
  | draining mss ms hready hpending hq hipr =>
      cases mss with
      | nil =>
          obtain ⟨rfl, rfl⟩ := List.cons.inj (hqueue.symm.trans hq)
          refine ⟨_, rfl, .done hready hpending rfl fun tcc htcc => ?_⟩
          show (s.ipr tcc || decide (tcc ∈ [ch])) = decide (tcc = ch)
          rw [hipr tcc htcc, Bool.false_or]
          exact decide_eq_decide.mpr List.mem_singleton
      | cons ms' mss =>
          obtain ⟨rfl, rfl⟩ := List.cons.inj (hqueue.symm.trans hq)
          refine ⟨_, rfl, .draining mss ms hready hpending rfl fun tcc htcc => ?_⟩
          exact (Bool.or_false _).trans (hipr tcc htcc)
  | done _ _ hq => cases hqueue.symm.trans hq

/-- What is found settles to the memory after all transfers of the chain. -/
structure Chained (s : Sys) (ch : ℕ) (mem : Memory 32)
    (mss : List (List (Move Word Byte))) (n : ℕ) : Prop where
  linked : Linked s ch mss n
  settles : settledAll s.mem mss = mem
  apart : ∀ ms ∈ mss, Apart ms

/-- The steps that a chain has left. -/
def chainRank (mss : List (List (Move Word Byte))) (n : ℕ) : ℕ :=
  (mss.map fun ms => weight ms + 1).sum + n

theorem chainRank_cons (ms : List (Move Word Byte)) (mss : List (List (Move Word Byte)))
    (n : ℕ) : chainRank (ms :: mss) n = weight ms + 1 + chainRank mss n := by
  rw [chainRank, chainRank, List.map_cons, List.sum_cons, Nat.add_assoc]

/-- The transfers keep what is settled, and have less to do. -/
theorem Chained.engine (h : Chained s ch mem mss n) (hch : ch < 8)
    (horder : tc.InOrder) (hstep : s.Engine tc s') :
    ∃ mss' n', Chained s' ch mem mss' n' ∧
      chainRank mss' n' < chainRank mss n := by
  obtain ⟨hlinked, hsettles, hapart⟩ := h
  cases hstep with
  | serve ht =>
      obtain ⟨n', rfl, hgo⟩ := hlinked.serve hch ht
      exact ⟨mss, n', ⟨hgo, hsettles, hapart⟩, Nat.lt_succ_self _⟩
  | @move ahead bs b mem' moves hqueue hpass hmove =>
      obtain rfl := horder ahead hpass
      obtain ⟨left, rfl, hgo⟩ := hlinked.move hqueue mem' moves
      obtain ⟨hsettled, hapart', hless, -⟩ :=
        hmove.keeps (hapart b.moves List.mem_cons_self)
      refine ⟨moves :: left, n, ⟨hgo, ?_, ?_⟩, ?_⟩
      · rw [← hsettles]
        show left.foldl settled (settled mem' moves) = _
        rw [hsettled]
        rfl
      · intro ms hms
        obtain rfl | hms := List.mem_cons.mp hms
        · exact hapart'
        · exact hapart ms (List.mem_cons_of_mem _ hms)
      · rw [chainRank_cons, chainRank_cons]
        omega
  | @finish ahead bs b hqueue hpass hnil =>
      obtain rfl := horder ahead hpass
      obtain ⟨left, rfl, hgo⟩ := hlinked.finish hqueue
      refine ⟨left, n, ⟨hgo, ?_, fun ms hms => hapart ms
        (List.mem_cons_of_mem _ hms)⟩, ?_⟩
      · rw [← hsettles, hnil]
        rfl
      · rw [chainRank_cons]
        omega

/-! ## Waiting for a chain -/

theorem Linked.qdmaWait_eq (h : Linked s ch mss n) (hch : ch < 8) :
    qdmaWait s ch =
      if s.ipr ch then
        some
          { s with
            ipr := Function.update s.ipr ch false
            dma := { s.dma with
              qdma := Function.update s.dma.qdma ch
                { s.dma.qdma ch with bRunning := false } } }
      else none := by
  have hready : Ready s.dma (some ch) := by
    cases h with
    | linking _ _ _ hready | draining _ _ hready | done hready => exact hready
  have hrunning : (s.dma.qdma ch).bRunning = true := by
    rw [hready.bRunning ch hch]
    exact decide_eq_true rfl
  have htcc : (s.dma.qdma ch).tccNr.toNat = ch := by
    rw [hready.tccNr ch hch, BitVec.toNat_ofNat, Nat.mod_eq_of_lt (by omega)]
  simp only [qdmaWait, hrunning, if_true, htcc]

/-- The completion is signalled when nothing is left. -/
theorem Chained.waited (h : Chained s ch mem mss n) (hch : ch < 8)
    (hwait : qdmaWait s ch = some s') :
    s'.mem = mem ∧ s'.dma.tpcc.pending = [] ∧ s'.queue = [] := by
  rw [h.linked.qdmaWait_eq hch] at hwait
  obtain ⟨hbit, ⟨⟩⟩ := Option.ite_none_right_eq_some.mp hwait
  obtain ⟨hlinked, hsettles, -⟩ := h
  cases hlinked with
  | linking _ _ _ _ _ _ _ _ _ hipr | draining _ _ _ _ _ hipr =>
      rw [hipr ch hch] at hbit
      exact absurd hbit Bool.false_ne_true
  | done hready hpending hqueue hipr => exact ⟨hsettles, hpending, hqueue⟩

/-- While the completion is not signalled, the transfers can go on. -/
theorem Linked.exists_engine (h : Linked s ch mss n) (hch : ch < 8)
    (hwait : qdmaWait s ch = none) (tc : TransferControllers) :
    ∃ s', s.Engine tc s' := by
  rw [h.qdmaWait_eq hch] at hwait
  cases h with
  | linking mss x rest hready hpending hparam hchain =>
      cases rest with
      | nil => exact ⟨_, .serve (service_of_last hready.configured hch hpending
          hparam hchain)⟩
      | cons ey rest => exact ⟨_, .serve (service_of_linked hready.configured hch
          hpending hparam hchain)⟩
  | draining mss ms hready hpending hqueue =>
      cases mss with
      | nil => exact exists_engine_of_cons tc hqueue
      | cons ms' mss => exact exists_engine_of_cons tc hqueue
  | done hready hpending hqueue hipr =>
      rw [hipr ch hch, decide_eq_true rfl] at hwait
      cases hwait

variable {α β : Type} {a : α} {p p' : Program α}

/-- Every state of a program that waits for a chain. -/
theorem Chained.reachable (h : Chained s ch mem mss n) (hch : ch < 8)
    (horder : tc.InOrder)
    {c : Program α × Sys}
    (hc : (machine tc (.wait ch (.ret a)) s).Reachable c) :
    (c.1 = .wait ch (.ret a) ∧ ∃ mss n, Chained c.2 ch mem mss n) ∨
    (c.1 = .ret a ∧ c.2.mem = mem ∧ c.2.dma.tpcc.pending = [] ∧
      c.2.queue = []) := by
  refine Machine.Reachable.invariant (P := fun c : Program α × Sys =>
    (c.1 = .wait ch (.ret a) ∧ ∃ mss n, Chained c.2 ch mem mss n) ∨
    (c.1 = .ret a ∧ c.2.mem = mem ∧ c.2.dma.tpcc.pending = [] ∧
      c.2.queue = [])) ?_ ?_ hc
  · rintro c rfl
    exact Or.inl ⟨rfl, mss, n, h⟩
  · rintro ⟨p, s⟩ side ⟨p', s'⟩ hinv hstep
    cases side with
    | dsp =>
        obtain ⟨rfl, mss, n, h⟩ | ⟨rfl, -⟩ := hinv
        · obtain ⟨t, hwait, heq⟩ := Option.map_eq_some_iff.mp hstep
          obtain ⟨rfl, rfl⟩ := Prod.mk.inj heq
          exact Or.inr ⟨rfl, h.waited hch hwait⟩
        · cases hstep
    | dma =>
        obtain ⟨hp, hengine⟩ := hstep
        obtain rfl : p' = p := hp
        obtain ⟨hwait, mss, n, h⟩ | ⟨-, -, hpending, hqueue⟩ := hinv
        · obtain ⟨mss', n', h', -⟩ := h.engine hch horder hengine
          exact Or.inl ⟨hwait, mss', n', h'⟩
        · exact absurd hengine (not_engine hpending hqueue)

/-- The transfers go on only so often before the program does. -/
theorem Chained.acc (h : Chained s ch mem mss n) (hch : ch < 8)
    (horder : tc.InOrder) (p₀ : Program α) (s₀ : Sys) :
    Acc (fun c' c => ∃ side, (machine tc p₀ s₀).step c side c')
      (.wait ch (.ret a), s) := by
  induction hn : chainRank mss n using Nat.strongRecOn generalizing s mss n with
  | _ k ih =>
      refine ⟨_, ?_⟩
      rintro ⟨p', s'⟩ ⟨side, hstep⟩
      cases side with
      | dsp =>
          obtain ⟨t, hwait, heq⟩ := Option.map_eq_some_iff.mp hstep
          obtain ⟨rfl, rfl⟩ := Prod.mk.inj heq
          obtain ⟨-, hpending, hqueue⟩ := h.waited hch hwait
          -- nothing is left to be done by either side
          refine ⟨_, ?_⟩
          rintro ⟨p'', s''⟩ ⟨side, hstep⟩
          cases side with
          | dsp => cases hstep
          | dma => exact absurd hstep.2 (not_engine hpending hqueue)
      | dma =>
          obtain ⟨hp, hengine⟩ := hstep
          obtain rfl : p' = .wait ch (.ret a) := hp
          obtain ⟨mss', n', h', hless⟩ := h.engine hch horder hengine
          exact ih (chainRank mss' n') (hn ▸ hless) h' rfl

theorem Program.bind_assoc {γ : Type} (p : Program α) (f : α → Program β)
    (g : β → Program γ) : (p.bind f).bind g = p.bind fun a => (f a).bind g := by
  induction p with
  | ret a => rfl
  | load y k ih => exact congrArg (Program.load y) (funext ih)
  | store y v k ih => exact congrArg (Program.store y v) ih
  | init k ih => exact congrArg Program.init ih
  | copy nr y k ih => exact congrArg (Program.copy nr y) ih
  | link nr call k ih => exact congrArg (Program.link nr call) ih
  | wait nr k ih => exact congrArg (Program.wait nr) ih

/-- A part of a program that only loads, with what it returns. -/
def Reads (tc : TransferControllers) (p : Program α) (mem : Memory 32) (a : α) : Prop :=
  ∀ (β : Type) (f : α → Program β) (s : Sys) (b : β) (mem' : Memory 32),
    s.mem = mem → s.dma.tpcc.pending = [] → s.queue = [] →
    Yields tc (f a) s b mem' → Yields tc (p.bind f) s b mem'

theorem Reads.bind {f : α → Program β} {b : β} (hp : Reads tc p mem a)
    (hf : Reads tc (f a) mem b) : Reads tc (p.bind f) mem b := by
  intro γ g s c mem' hmem hpending hqueue h
  rw [Program.bind_assoc]
  exact hp _ _ s c mem' hmem hpending hqueue
    (hf _ g s c mem' hmem hpending hqueue h)

end C64Tools.Qdma
