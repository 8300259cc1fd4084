import C64Tools.Qdma.Fields

/-!
# Linked transfers

After `qdma_init()` writing the words of an entry sets it up, and gives an event
to the channel of the same number if there is one.  Entries that are set up with
a link to their successor are a chain of the controller, so that starting the
first one performs all transfers in their order.
-/

namespace C64Tools.Qdma

open Edma

variable {s : DmaState} {c : Controller} {ch e : ℕ}

/-! ## Registers of an entry -/

theorem dspReg_param (hnr : e < 128) (i : Fin 8) (v : Word) :
    dspReg c (u32 (iva2TpccParamBase + u32 (32 * e)) + 4 * i.val) v =
      c.writeParam e i v := by
  have hbase : iva2TpccParamBase = 0x01C04000 := rfl
  have hmul : u32 (32 * e) = 32 * e := u32_of_lt (by omega)
  have haddr : u32 (iva2TpccParamBase + u32 (32 * e)) =
      iva2TpccParamBase + 32 * e := by
    rw [hmul, u32_of_lt (by omega)]
  have hoff : iva2TpccParamBase + 32 * e + 4 * i.val - iva2TpccParamBase =
      32 * e + 4 * i.val := by omega
  rw [haddr, dspReg, if_pos (by omega)]
  simp only [hoff]
  have hentry : (32 * e + 4 * i.val) / 32 = e := by omega
  have hword : (⟨(32 * e + 4 * i.val) % 32 / 4, by omega⟩ : Fin 8) = i :=
    Fin.ext (by show (32 * e + 4 * i.val) % 32 / 4 = i.val; omega)
  rw [hentry, hword]

theorem dspRegs_paramWrites (hnr : e < 128) (words : ParamSet) :
    dspRegs c (paramWrites e words) = c.load e words := by
  rw [dspRegs, paramWrites, List.foldl_map, Controller.load]
  congr 1
  funext c i
  exact dspReg_param hnr i (words i)

/-! ## Initialisation -/

/-- Every channel is mapped to the entry of its number and has the last word as
its trigger. -/
structure Configured (c : Controller) : Prop where
  paEntry : ∀ ch < 8, c.paEntry ch = ch
  trWord : ∀ ch < 8, c.trWord ch = 7
  qeer : ∀ ch < 8, c.qeer ch = true

theorem dspReg_qchmap (hch : ch < 8) (v : Word) :
    dspReg c (iva2TpccQchmap0 + 4 * ch) v =
      { c with qchmap := Function.update c.qchmap ch v } := by
  have hbase : iva2TpccParamBase = 0x01C04000 := rfl
  have hmap : iva2TpccQchmap0 = 0x01C00200 := rfl
  have hidx : (iva2TpccQchmap0 + 4 * ch - iva2TpccQchmap0) / 4 = ch := by
    omega
  rw [dspReg, if_neg (by omega), if_pos (by omega), hidx]

theorem dspReg_qeesr (v : Word) :
    dspReg c iva2TpccQeesr v =
      { c with qeer := fun ch => c.qeer ch || v.getLsbD ch } := by
  rw [dspReg, if_neg (by decide), if_neg (by decide), if_pos rfl]

/-- The other registers of `qdma_init()`. -/
theorem dspReg_other {addr : ℕ} (v : Word)
    (haddr : addr ∈ [iva2TpccQdmaqnum, iva2TpccIcr, iva2TpccQuetcmap,
      iva2TpccQuepri, iva2Tptc0Rdrate, iva2Tptc1Rdrate]) :
    dspReg c addr v = c := by
  have hall : ∀ a ∈ [iva2TpccQdmaqnum, iva2TpccIcr, iva2TpccQuetcmap,
      iva2TpccQuepri, iva2Tptc0Rdrate, iva2Tptc1Rdrate],
      ¬ (iva2TpccParamBase ≤ a ∧ a < iva2TpccParamBase + 32 * 128) ∧
        ¬ (iva2TpccQchmap0 ≤ a ∧ a < iva2TpccQchmap0 + 4 * 8) ∧
        a ≠ iva2TpccQeesr := by decide
  obtain ⟨hparam, hmap, henable⟩ := hall _ haddr
  rw [dspReg, if_neg hparam, if_neg hmap, if_neg henable]

theorem dspRegs_append (l l' : List (ℕ × Word)) :
    dspRegs c (l ++ l') = dspRegs (dspRegs c l) l' :=
  List.foldl_append

theorem getLsbD_bit {n : ℕ} (hn : n < 8) :
    ((1 : Word) <<< n).getLsbD ch = decide (ch = n) := by
  have hbit : (1 : Word) <<< n = BitVec.twoPow 32 n := rfl
  rw [hbit, BitVec.getLsbD_twoPow, decide_eq_true (by omega : n < 32),
    Bool.true_and]
  exact decide_eq_decide.mpr eq_comm

theorem dspRegs_channelWrites (q : QdmaT) {n : ℕ} (hn : n < 8) :
    dspRegs c (channelWrites q n) =
      { c with
        qchmap := Function.update c.qchmap n
          (BitVec.ofNat 32 q.paramNr <<< 5 ||| (7 : Word) <<< 2)
        qeer := fun ch => c.qeer ch || decide (ch = n) } := by
  simp only [dspRegs, channelWrites, List.foldl_cons, List.foldl_nil]
  rw [dspReg_qeesr, dspReg_other _ (by decide), dspReg_other _ (by decide),
    dspReg_qchmap hn]
  simp only [getLsbD_bit hn]

/-- The loop of `qdma_init()` over the first channels. -/
theorem dspRegs_channels (q : ℕ → QdmaT) {n : ℕ} (hn : n ≤ 8) :
    dspRegs c ((List.range n).flatMap fun nr => channelWrites (q nr) nr) =
      { c with
        qchmap := fun ch =>
          if ch < n then
            BitVec.ofNat 32 (q ch).paramNr <<< 5 ||| (7 : Word) <<< 2
          else c.qchmap ch
        qeer := fun ch => c.qeer ch || decide (ch < n) } := by
  induction n with
  | zero => simp [dspRegs]
  | succ n ih =>
      rw [List.range_succ, List.flatMap_append, dspRegs_append,
        ih (Nat.le_of_succ_le hn), List.flatMap_singleton,
        dspRegs_channelWrites _ hn]
      congr 1
      · funext k
        obtain rfl | hne := eq_or_ne k n
        · rw [Function.update_self, if_pos (Nat.lt_succ_self k)]
        · rw [Function.update_of_ne hne]
          exact if_congr (by omega) rfl rfl
      · funext k
        rw [Bool.or_assoc, ← Bool.decide_or]
        congr 2
        exact propext (by omega)

theorem dspRegs_queueWrites : dspRegs c queueWrites = c := by
  simp only [dspRegs, queueWrites, List.foldl_cons, List.foldl_nil]
  iterate 4 rw [dspReg_other _ (by decide)]

theorem qdmaInit_tpcc (s : DmaState) :
    (qdmaInit s).tpcc =
      { s.tpcc with
        qchmap := fun ch =>
          if ch < 8 then
            BitVec.ofNat 32 ((qdmaInit s).qdma ch).paramNr <<< 5 |||
              (7 : Word) <<< 2
          else s.tpcc.qchmap ch
        qeer := fun ch => s.tpcc.qeer ch || decide (ch < 8) } := by
  rw [← dspRegs_channels (c := s.tpcc) (qdmaInit s).qdma (le_refl 8)]
  exact (dspRegs_append _ _).trans dspRegs_queueWrites

/-- The variables of a channel. -/
theorem qdmaInit_qdma (hch : ch < 8) :
    (qdmaInit s).qdma ch =
      { eventQueueNr := 1, paramNr := ch, tccNr := BitVec.ofNat 32 ch,
        bRunning := false } :=
  if_pos hch

theorem qdmaInit_configured (s : DmaState) :
    Configured (qdmaInit s).tpcc := by
  have hmap : ∀ ch < 8, (qdmaInit s).tpcc.qchmap ch =
      BitVec.ofNat 32 ch <<< 5 ||| (7 : Word) <<< 2 := by
    intro ch hch
    rw [qdmaInit_tpcc]
    refine (if_pos hch).trans ?_
    rw [qdmaInit_qdma hch]
  constructor
  · intro ch hch
    rw [Controller.paEntry, hmap ch hch]
    interval_cases ch <;> decide
  · intro ch hch
    rw [Controller.trWord, hmap ch hch]
    interval_cases ch <;> decide
  · intro ch hch
    rw [qdmaInit_tpcc]
    exact (Bool.or_eq_true _ _).mpr (Or.inr (decide_eq_true hch))

/-- Writing a word gives an event to the channel of the entry, if it is the
last word. -/
theorem Configured.triggered (hc : Configured c) (word : Fin 8) :
    c.triggered e word = if e < 8 ∧ word = 7 then [e] else [] := by
  have hiff : ∀ k ∈ List.range 8,
      (decide (c.qeer k ∧ c.paEntry k = e ∧ c.trWord k = word)) =
        decide (k = e ∧ word = 7) := by
    intro k hk
    have hk8 : k < 8 := List.mem_range.mp hk
    rw [hc.qeer k hk8, hc.paEntry k hk8, hc.trWord k hk8, decide_eq_decide,
      Fin.ext_iff]
    exact ⟨fun h => ⟨h.2.1, h.2.2.symm⟩, fun h => ⟨rfl, h.1, h.2.symm⟩⟩
  rw [Controller.triggered, List.filter_congr hiff]
  by_cases he : e < 8 ∧ word = 7
  · obtain ⟨he8, rfl⟩ := he
    rw [if_pos ⟨he8, rfl⟩]
    interval_cases e <;> rfl
  · rw [if_neg he, List.filter_eq_nil_iff]
    intro k hk
    rw [decide_eq_true_eq]
    rintro ⟨rfl, hword⟩
    exact he ⟨List.mem_range.mp hk, hword⟩

theorem Configured.retriggers (hc : Configured c) (hch : ch < 8) :
    c.Retriggers ch := by
  rw [Controller.Retriggers, hc.paEntry ch hch, funext hc.triggered]
  simp only [hch, true_and]
  rfl

/-- No channel has its trigger in the other entries. -/
theorem Configured.triggered_passive (hc : Configured c) (he : 8 ≤ e) :
    (List.finRange 8).flatMap (c.triggered e) = [] := by
  rw [List.flatMap_eq_nil_iff]
  intro word _
  rw [hc.triggered, if_neg (by omega)]

theorem Configured.of_eq {d : Controller} (hc : Configured c)
    (hmap : d.qchmap = c.qchmap) (hqeer : d.qeer = c.qeer) :
    Configured d := by
  constructor
  · intro ch hch
    rw [Controller.paEntry, hmap]
    exact hc.paEntry ch hch
  · intro ch hch
    rw [Controller.trWord, hmap]
    exact hc.trWord ch hch
  · intro ch hch
    rw [hqeer]
    exact hc.qeer ch hch

/-! ## Setting up entries -/

variable {x : Transfer} {call : LinkCall}

theorem DmaState.link_eq (hnr : call.paramNr < 128) :
    s.link ch call =
      { tpcc := s.tpcc.load call.paramNr
          (call.xfer.words (s.qdma ch).tccNr call.linkToParamNr)
        qdma := if call.paramNr = ch then running s.qdma ch else s.qdma } := by
  obtain ⟨paramNr, linkToParamNr, xfer⟩ := call
  rw [← dspRegs_paramWrites hnr]
  cases xfer <;> rfl

/-- A transfer that is linked to nothing is started like a copy. -/
theorem DmaState.copy_eq (hnr : (s.qdma ch).paramNr = ch) :
    s.copy ch x = s.link ch ⟨ch, 0xFFFF, x⟩ := by
  cases x with
  | oneD =>
      simp only [copy, link, qdmaCopy1d, qdmaLink1d, hnr, if_true]
      rfl
  | twoD =>
      simp only [copy, link, qdmaCopy2d, qdmaLink2d, hnr, if_true]
      rfl

/-- What has been set up in passive entries. -/
structure SetUp (s t : DmaState) (ch : ℕ) (calls : List LinkCall) : Prop where
  configured : Configured t.tpcc
  pending : t.tpcc.pending = s.tpcc.pending
  trace : t.tpcc.trace = s.tpcc.trace
  qdma : t.qdma = s.qdma
  param : ∀ call ∈ calls, t.tpcc.param call.paramNr =
    call.xfer.words (s.qdma ch).tccNr call.linkToParamNr
  frame : ∀ e ∉ calls.map LinkCall.paramNr, t.tpcc.param e = s.tpcc.param e

theorem SetUp.foldl (hs : Configured s.tpcc) (hch : ch < 8)
    (calls : List LinkCall)
    (hrange : ∀ call ∈ calls, 8 ≤ call.paramNr ∧ call.paramNr ≤ 127)
    (hnodup : (calls.map LinkCall.paramNr).Nodup) :
    SetUp s (calls.foldl (fun s call => s.link ch call) s) ch calls := by
  induction calls generalizing s with
  | nil =>
      exact ⟨hs, rfl, rfl, rfl, fun _ h => absurd h List.not_mem_nil,
        fun _ _ => rfl⟩
  | cons call calls ih =>
      obtain ⟨hlow, hhigh⟩ := hrange call List.mem_cons_self
      obtain ⟨hnew, hnodup⟩ := List.nodup_cons.mp hnodup
      have hlink : s.link ch call =
          { tpcc := { s.tpcc with
              param := Function.update s.tpcc.param call.paramNr
                (call.xfer.words (s.qdma ch).tccNr call.linkToParamNr) }
            qdma := s.qdma } := by
        rw [DmaState.link_eq (by omega), if_neg (by omega),
          Controller.load_eq, hs.triggered_passive hlow, List.append_nil]
      have hset := ih (s := s.link ch call)
        (hs.of_eq (by rw [hlink]) (by rw [hlink]))
        (fun call hcall => hrange call (List.mem_cons_of_mem _ hcall)) hnodup
      rw [List.foldl_cons]
      refine ⟨hset.configured, ?_, ?_, ?_, ?_, ?_⟩
      · rw [hset.pending, hlink]
      · rw [hset.trace, hlink]
      · rw [hset.qdma, hlink]
      · intro call' hmem
        obtain rfl | hmem := List.mem_cons.mp hmem
        · rw [hset.frame _ hnew, hlink]
          exact Function.update_self _ _ _
        · rw [hset.param call' hmem, hlink]
      · intro e he
        rw [List.map_cons, List.mem_cons, not_or] at he
        rw [hset.frame e he.2, hlink]
        exact Function.update_of_ne he.1 _ _

/-- The last write to the entry of a channel gives the channel its event. -/
theorem Configured.link_home (hs : Configured s.tpcc) (hch : ch < 8)
    (hpending : s.tpcc.pending = [])
    (htcc : (s.qdma ch).tccNr = BitVec.ofNat 32 ch) (link : ℕ) :
    (s.link ch ⟨ch, link, x⟩).tpcc =
      { s.tpcc with
        param := Function.update s.tpcc.param ch
          (x.words (BitVec.ofNat 32 ch) link)
        pending := [ch] } := by
  have hretrigger : (List.finRange 8).flatMap (s.tpcc.triggered ch) = [ch] := by
    have h := hs.retriggers hch
    rwa [Controller.Retriggers, hs.paEntry ch hch] at h
  rw [DmaState.link_eq (by show ch < 128; omega), Controller.load_eq, hpending,
    hretrigger, htcc]
  rfl

/-! ## Chains -/

/-- The entry to which the transfer before a list is linked. -/
def nextEntry : List (ℕ × Transfer) → ℕ
  | [] => 0xFFFF
  | (e, _) :: _ => e

/-- Set up every transfer in its entry, linked to its successor. -/
def linkCalls : List (ℕ × Transfer) → List LinkCall
  | [] => []
  | (e, x) :: rest => ⟨e, nextEntry rest, x⟩ :: linkCalls rest

/-- The entries of a list with their words. -/
def chainSets (tcc : Word) (rest : List (ℕ × Transfer)) :
    List (ℕ × ParamSet) :=
  (linkCalls rest).map fun call =>
    (call.paramNr, call.xfer.words tcc call.linkToParamNr)

variable {rest : List (ℕ × Transfer)} {tcc : ℕ}

theorem map_linkCalls (rest : List (ℕ × Transfer)) :
    (linkCalls rest).map LinkCall.paramNr = rest.map Prod.fst := by
  induction rest with
  | nil => rfl
  | cons ex rest ih => rw [linkCalls, List.map_cons, List.map_cons, ih]

theorem chain_of_linkCalls (htcc : tcc < 8)
    (hx : ∀ y ∈ x :: rest.map Prod.snd, y.InRange)
    (hrange : ∀ e ∈ rest.map Prod.fst, 8 ≤ e ∧ e ≤ 127)
    (hparam : ∀ call ∈ linkCalls rest, c.param call.paramNr =
      call.xfer.words (BitVec.ofNat 32 tcc) call.linkToParamNr) :
    c.Chain tcc (x.words (BitVec.ofNat 32 tcc) (nextEntry rest))
      (chainSets (BitVec.ofNat 32 tcc) rest) := by
  induction rest generalizing x with
  | nil =>
      obtain ⟨-, -, hstatic, -⟩ :=
        Transfer.words_option x 0xFFFF htcc
      exact ⟨Transfer.words_oneShot htcc (hx x List.mem_cons_self), hstatic⟩
  | cons ex rest ih =>
      obtain ⟨e, y⟩ := ex
      obtain ⟨hlow, hhigh⟩ := hrange e List.mem_cons_self
      obtain ⟨-, -, hstatic, -⟩ :=
        Transfer.words_option x e htcc
      refine ⟨Transfer.words_oneShot htcc (hx x List.mem_cons_self), ?_,
        Transfer.words_link _ hhigh,
        Nat.ne_of_gt (Nat.lt_of_lt_of_le htcc hlow),
        hparam _ List.mem_cons_self, ih ?_ ?_ ?_⟩
      · exact hstatic.trans (decide_eq_false (not_not.mpr hhigh))
      · exact fun y hy => hx y (List.mem_cons_of_mem _ hy)
      · exact fun e he => hrange e (List.mem_cons_of_mem _ he)
      · exact fun call hcall => hparam call (List.mem_cons_of_mem _ hcall)

/-- A chain copies the rows of its transfers and signals completion once. -/
theorem chain_events (htcc : tcc < 8)
    (hx : ∀ y ∈ x :: rest.map Prod.snd, y.InRange)
    (hrange : ∀ e ∈ rest.map Prod.fst, 8 ≤ e ∧ e ≤ 127) :
    (x.words (BitVec.ofNat 32 tcc) (nextEntry rest) ::
        (chainSets (BitVec.ofNat 32 tcc) rest).map Prod.snd).flatMap
          ParamSet.events =
      ((x :: rest.map Prod.snd).flatMap Transfer.rows).map .row ++
        [.complete tcc] := by
  induction rest generalizing x with
  | nil =>
      rw [List.flatMap_cons, Transfer.words_events htcc
        (hx x List.mem_cons_self)]
      simp [nextEntry, chainSets, linkCalls]
  | cons ex rest ih =>
      obtain ⟨e, y⟩ := ex
      obtain ⟨hlow, hhigh⟩ := hrange e List.mem_cons_self
      have hrest := ih (x := y)
        (fun y hy => hx y (List.mem_cons_of_mem _ hy))
        fun e he => hrange e (List.mem_cons_of_mem _ he)
      rw [List.flatMap_cons, Transfer.words_events htcc
        (hx x List.mem_cons_self)]
      show _ ++ (y.words _ (nextEntry rest) ::
        (chainSets _ rest).map Prod.snd).flatMap ParamSet.events = _
      rw [hrest, nextEntry, if_pos hhigh]
      simp

/-- Passive entries are set up in any order before the first transfer. -/
theorem qdma_link_chain (hidle : s.tpcc.pending = []) (hch : ch < 8)
    (hx : ∀ y ∈ x :: rest.map Prod.snd, y.InRange)
    (hrange : ∀ e ∈ rest.map Prod.fst, 8 ≤ e ∧ e ≤ 127)
    (hnodup : (rest.map Prod.fst).Nodup) {calls : List LinkCall}
    (hcalls : calls.Perm (linkCalls rest)) :
    let start := (calls.foldl (fun s call => s.link ch call)
      (qdmaInit s)).link ch ⟨ch, nextEntry rest, x⟩
    (∃ t, start.tpcc.Finishes t ∧ (∀ u, start.tpcc.Finishes u → u = t) ∧
      t.trace = s.tpcc.trace ++
        (((x :: rest.map Prod.snd).flatMap Transfer.rows).map .row ++
          [.complete ch]) ∧
      ∀ e, e ≠ ch → e ∉ rest.map Prod.fst →
        t.param e = s.tpcc.param e) ∧
      (rest = [] → start = (qdmaInit s).copy ch x) := by
  intro start
  have hnrs : (calls.map LinkCall.paramNr).Perm (rest.map Prod.fst) :=
    map_linkCalls rest ▸ hcalls.map _
  have hset := SetUp.foldl (qdmaInit_configured s) hch calls
    (fun call hcall => hrange _
      (hnrs.mem_iff.mp (List.mem_map_of_mem hcall)))
    (hnrs.nodup_iff.mpr hnodup)
  generalize hready : calls.foldl (fun s call => s.link ch call)
    (qdmaInit s) = ready at hset
  have htcc : (ready.qdma ch).tccNr = BitVec.ofNat 32 ch := by
    rw [hset.qdma, qdmaInit_qdma hch]
  have hpending : ready.tpcc.pending = [] := by
    rw [hset.pending, qdmaInit_tpcc]
    exact hidle
  have htrace : ready.tpcc.trace = s.tpcc.trace := by
    rw [hset.trace, qdmaInit_tpcc]
  have hstart : start.tpcc =
      { ready.tpcc with
        param := Function.update ready.tpcc.param ch
          (x.words (BitVec.ofNat 32 ch) (nextEntry rest))
        pending := [ch] } := by
    show ((calls.foldl (fun s call => s.link ch call)
      (qdmaInit s)).link ch ⟨ch, nextEntry rest, x⟩).tpcc = _
    rw [hready]
    exact hset.configured.link_home hch hpending htcc _
  have hconf : Configured start.tpcc :=
    hset.configured.of_eq (by rw [hstart]) (by rw [hstart])
  have hhome : start.tpcc.paEntry ch = ch := hconf.paEntry ch hch
  have hframe : ∀ e ≠ ch, start.tpcc.param e = ready.tpcc.param e := by
    intro e he
    rw [hstart]
    exact Function.update_of_ne he _ _
  have hchain : start.tpcc.Chain ch
      (x.words (BitVec.ofNat 32 ch) (nextEntry rest))
      (chainSets (BitVec.ofNat 32 ch) rest) := by
    refine chain_of_linkCalls hch hx hrange fun call hcall => ?_
    have hmem : call.paramNr ∈ rest.map Prod.fst :=
      map_linkCalls rest ▸ List.mem_map_of_mem hcall
    have hlow := (hrange _ hmem).1
    rw [hframe _ (by omega), hset.param call (hcalls.mem_iff.mpr hcall),
      qdmaInit_qdma hch]
  obtain ⟨t, hfin, hdone, hrest⟩ := hchain.finishes hhome
    (by rw [hstart]; exact Function.update_self ..) (by rw [hstart])
    (hconf.retriggers hch)
  refine ⟨⟨t, hfin, fun u hu => hu.unique hfin, ?_, ?_⟩, ?_⟩
  · rw [hdone, chain_events hch hx hrange, hstart]
    exact congrArg (· ++ _) htrace
  · intro e hne hmem
    rw [hrest e hne, hframe e hne,
      hset.frame e (fun h => hmem (hnrs.mem_iff.mp h)), qdmaInit_tpcc]
  · rintro rfl
    have hnil : calls = [] := hcalls.eq_nil
    subst hnil
    exact (DmaState.copy_eq (s := qdmaInit s)
      (by rw [qdmaInit_qdma hch])).symm

/-- Rows upwards in memory, then one row. -/
theorem qdma_link_chain_two :
    let s : DmaState :=
      { qdma := fun _ => ⟨0, 0, 0, false⟩
        tpcc :=
          { param := fun _ _ => 0, qchmap := fun _ => 0, qeer := fun _ => false
            pending := [], trace := [] } }
    let start := (qdmaLink1d (qdmaInit s) 1 9 0xFFFF 0x9000 0x8000 65535)
    let start := qdmaLink2d start 1 1 9 0x2000 (-32768) 0x1000 64 16 2
    ∃ t, start.tpcc.Finishes t ∧
      t.trace =
        [.row ⟨0x1000, 0x2000, 16⟩, .row ⟨0x1040, 0xFFFFA000, 16⟩,
          .row ⟨0x8000, 0x9000, 65535⟩, .complete 1] := by
  intro s start start'
  obtain ⟨⟨t, hfin, -, htrace, -⟩, -⟩ := @qdma_link_chain s 1
    (.twoD 0x2000 (-32768) 0x1000 64 16 2) [(9, .oneD 0x9000 0x8000 65535)]
    rfl (by decide) (by decide) (by decide) (by decide) _ (List.Perm.refl _)
  refine ⟨t, hfin, htrace.trans ?_⟩
  decide

end C64Tools.Qdma
