import C64Tools.Kmod.Dev.Messages
import C64Tools.Rpc.Service

/-!
# Replies are those of the service

The message in the registers is the one that is in flight, and so the DSP
executes the message whose number its answer bears.  Together with the routing
of the replies this makes the system a server of one request at a time.
-/

namespace C64Tools.Rpc

open Transition Kmod

variable {σ ξ : Type} {fw : Firmware σ ξ} {ram : DspMemRegion} {mem : σ}

/-- Numbers of the messages that were executed, in order. -/
def System.executedIds (s : System σ ξ) : List ℕ :=
  s.history.filterMap fun h => h.1.id?

/-- The DSP has done the tasks of the history, one after the other, and what it
executes under a number is the message that was accepted under it. -/
structure Serving (fw : Firmware σ ξ) (mem : σ) (s : System σ ξ) : Prop where
  dsp : s.dsp = Service.after fw.serve (System.dspInitial mem)
    (s.history.map Prod.fst)
  recorded : Service.Recorded fw.serve (System.dspInitial mem) s.history
  executed : s.executedIds = (answeredIds s.driver.log).reverse
  answered : ∀ id r₀ r₁, .answered id r₀ r₁ ∈ s.driver.log →
    ∃ m x, (.message id m x, some (r₀, r₁)) ∈ s.history
  running : ∀ r ∈ s.driver.unanswered, r.boot = s.driver.power.resets →
    s.driver.power.dspState = .running
  in_regs : ∀ r ∈ s.driver.unanswered, r.boot = s.driver.power.resets →
    r.msg = DspMsg.ofRegs s.driver.regs
  unanswered_accepted : ∀ r ∈ s.driver.unanswered, ∀ i q,
    .accepted i r.id q ∈ s.driver.log → r.msg = q
  executed_accepted : ∀ id m x ret, (.message id m x, ret) ∈ s.history →
    ∀ i q, .accepted i id q ∈ s.driver.log → m = q

theorem initial_serving (ram : DspMemRegion) :
    Serving fw mem (System.initial ram mem) where
  dsp := rfl
  recorded := Service.recorded_nil _ _
  executed := rfl
  answered _ _ _ h := by cases h
  running _ h := by cases h
  in_regs _ h := by cases h
  unanswered_accepted _ h := by cases h
  executed_accepted _ _ _ _ h := by cases h

/-- The words that are missing concern only what the DSP does next. -/
theorem Serving.of_unwritten {s : System σ ξ} (h : Serving fw mem s) (n : ℕ) :
    Serving fw mem { s with unwritten := n } where
  dsp := h.dsp
  recorded := h.recorded
  executed := h.executed
  answered := h.answered
  running := h.running
  in_regs := h.in_regs
  unanswered_accepted := h.unanswered_accepted
  executed_accepted := h.executed_accepted

theorem Serving.mem_answeredIds {s : System σ ξ} (h : Serving fw mem s) {id : ℕ}
    {m : DspMsg} {x : ξ} {ret : Option Reply}
    (hmem : (.message id m x, ret) ∈ s.history) :
    id ∈ answeredIds s.driver.log := by
  have hid : id ∈ s.executedIds := List.mem_filterMap.mpr ⟨_, hmem, rfl⟩
  rw [h.executed] at hid
  exact List.mem_reverse.mp hid

/-! ## Steps of the driver -/

theorem Serving.noMessage {s : System σ ξ} {d : Driver} (h : Serving fw mem s)
    (hflight : OneInFlight s.driver) (hno : NoMessage s.driver d) :
    Serving fw mem { s with driver := d } := by
  -- a message that can still be answered has kept the DSP as it was
  have hsteady : ∀ r ∈ d.unanswered, r.boot = d.power.resets →
      r ∈ s.driver.unanswered ∧ r.boot = s.driver.power.resets ∧
        s.driver.power.dspState = .running ∧ d.dsp = s.driver.dsp := by
    intro r hr hboot
    have hresets := hno.resets_of_boot hflight hr hboot
    rw [hno.unanswered] at hr
    rw [hresets] at hboot
    have hrun := h.running r hr hboot
    exact ⟨hr, hboot, hrun, hno.steady hrun hresets⟩
  exact {
    dsp := by
      rw [← h.dsp]
      unfold System.dsp
      rw [hno.errno]
    recorded := h.recorded
    executed := by
      rw [hno.answeredIds]
      exact h.executed
    answered := fun id r₀ r₁ hmem =>
      h.answered id r₀ r₁ (hno.mem_answered.mp hmem)
    running := fun r hr hboot => by
      obtain ⟨-, -, hrun, hdsp⟩ := hsteady r hr hboot
      exact (congrArg (fun p : DspC64 => p.dspState) hdsp).trans hrun
    in_regs := fun r hr hboot => by
      obtain ⟨hr, hboot, -, hdsp⟩ := hsteady r hr hboot
      rw [h.in_regs r hr hboot]
      exact (congrArg (fun p : DspC64 => DspMsg.ofRegs p.regs) hdsp).symm
    unanswered_accepted := fun r hr i q hmem => by
      rw [hno.unanswered] at hr
      exact h.unanswered_accepted r hr i q (hno.mem_accepted.mp hmem)
    executed_accepted := fun id m x ret hmem i q hacc =>
      h.executed_accepted id m x ret hmem i q (hno.mem_accepted.mp hacc) }

/-- A message is written to a DSP that runs while none is in flight. -/
theorem Serving.published {s : System σ ξ} {d : Driver} {who : Sender}
    (h : Serving fw mem s) (hnum : Numbered s.driver)
    (hflight : s.driver.flight = [])
    (hrun : s.driver.power.dspState = .running)
    (hpub : Published who s.driver d) :
    Serving fw mem { s with driver := d } where
  dsp := by
    rw [← h.dsp]
    unfold System.dsp
    rw [hpub.errno]
  recorded := h.recorded
  executed := by
    rw [hpub.answeredIds]
    exact h.executed
  answered id r₀ r₁ hmem := h.answered id r₀ r₁ (hpub.answered id r₀ r₁ hmem)
  running r _ _ := by
    rw [hpub.power]
    exact hrun
  in_regs r hr hboot := by
    rw [hpub.unanswered] at hr
    rw [hpub.power] at hboot
    rw [hpub.message]
    rcases List.mem_append.mp hr with hr | hr
    · have hmem : r ∈ s.driver.flight :=
        List.mem_append_left _ (List.mem_filter.mpr ⟨hr, by simpa using hboot⟩)
      rw [hflight] at hmem
      cases hmem
    · rw [List.mem_singleton.mp hr]
  unanswered_accepted r hr i q hmem := by
    rw [hpub.unanswered] at hr
    rcases List.mem_append.mp hr with hr | hr
    · rcases hpub.accepted i r.id q hmem with hmem | ⟨hid, -⟩
      · exact h.unanswered_accepted r hr i q hmem
      · exact absurd (hnum.unanswered_lt r hr) (by rw [hid]; exact Nat.lt_irrefl _)
    · rw [List.mem_singleton.mp hr] at hmem ⊢
      rcases hpub.accepted i _ q hmem with hmem | ⟨-, hq⟩
      · have hid := hnum.accepted_lt _ (mem_acceptedIds hmem)
        exact absurd hid (Nat.lt_irrefl _)
      · exact hq.symm
  executed_accepted id m x ret hmem i q hacc := by
    rcases hpub.accepted i id q hacc with hacc | ⟨hid, -⟩
    · exact h.executed_accepted id m x ret hmem i q hacc
    · have hlt := hnum.answered_lt id (h.mem_answeredIds hmem)
      exact absurd hlt (by rw [hid]; exact Nat.lt_irrefl _)

theorem Serving.driver {s : System σ ξ} {d : Driver} {e : Kmod.Event}
    (h : Serving fw mem s) (hrouting : Routing s.driver)
    (hnum : Numbered s.driver)
    (hrun : publishes s.driver e ≠ none → s.driver.power.dspState = .running)
    (hstep : DriverStep s.driver e d)
    (he : ∀ id r₀ r₁ n, e ≠ .answer id r₀ r₁ n) :
    Serving fw mem { s with driver := d } := by
  rcases hstep.message_cases he with ⟨who, o, rfl, hcrit, hfull, hpub⟩ | hno
  · refine h.published hnum ?_ (hrun ?_) hpub
    · exact (hrouting.phase.publishing_empty (by rw [hcrit]; rfl)).2
    · simp [publishes, hcrit, hfull]
  · exact h.noMessage hrouting.flight hno

/-! ## Steps of the DSP -/

/-- The program begins. -/
theorem Serving.boot {s : System σ ξ} (h : Serving fw mem s) (x : ξ) :
    Serving fw mem { s with
      mem := fw.boot s.mem x
      history := s.history ++ [(.boot x, none)] } where
  dsp := by
    rw [List.map_append, List.map_singleton, Service.after_concat, ← h.dsp]
    rfl
  recorded := h.recorded.concat h.dsp (.boot x)
  executed := by
    rw [← h.executed]
    unfold System.executedIds
    rw [List.filterMap_append]
    exact List.append_nil _
  answered id r₀ r₁ hmem := by
    obtain ⟨m, y, hmem⟩ := h.answered id r₀ r₁ hmem
    exact ⟨m, y, List.mem_append_left _ hmem⟩
  running := h.running
  in_regs := h.in_regs
  unanswered_accepted := h.unanswered_accepted
  executed_accepted id m y ret hmem := by
    refine h.executed_accepted id m y ret ((List.mem_append.mp hmem).resolve_right ?_)
    simp

/-- The DSP executes the message in the registers, and answers the message that
is in flight. -/
theorem Serving.execute {s : System σ ξ} {r : Request} (h : Serving fw mem s)
    (hflight : OneInFlight s.driver) (hr : r ∈ s.driver.unanswered)
    (hboot : r.boot = s.driver.power.resets) (x : ξ) :
    let m := DspMsg.ofRegs s.driver.regs
    let dsp := (fw.answer s.dsp m x).1
    let ret := (fw.answer s.dsp m x).2
    Serving fw mem { s with
      driver := { s.driver with
        regs := s.driver.regs.setReply ret.1 ret.2 dsp.errno
        inbox := s.driver.inbox ++ [r]
        unanswered := s.driver.unanswered.filter fun q => q.id ≠ r.id
        log := .answered r.id ret.1 ret.2 :: s.driver.log }
      mem := dsp.mem
      history := s.history ++ [(.message r.id m x, some ret)] } := by
  intro m dsp ret
  -- no other message can be answered
  have hnone : ∀ q ∈ s.driver.unanswered.filter fun q => q.id ≠ r.id,
      q.boot ≠ s.driver.power.resets := by
    intro q hq hqboot
    obtain ⟨hq, hid⟩ := List.mem_filter.mp hq
    have hlive : q ∈ s.driver.unanswered.filter
        fun q => q.boot = s.driver.power.resets :=
      List.mem_filter.mpr ⟨hq, by simpa using hqboot⟩
    rw [(hflight.eq_of_mem_unanswered hr hboot).1] at hlive
    simp [List.mem_singleton.mp hlive] at hid
  refine ⟨?_, ?_, ?_, fun id r₀ r₁ hmem => ?_,
    fun q hq hqboot => absurd hqboot (hnone q hq),
    fun q hq hqboot => absurd hqboot (hnone q hq),
    fun q hq i m hmem => ?_, fun id m y ret' hmem i q hacc => ?_⟩
  · rw [List.map_append, List.map_singleton, Service.after_concat, ← h.dsp]
    rfl
  · exact h.recorded.concat h.dsp (.message r.id m x)
  · have hexecuted := h.executed
    unfold System.executedIds at hexecuted ⊢
    rw [List.filterMap_append, hexecuted]
    exact List.reverse_cons.symm
  · rcases List.mem_cons.mp hmem with heq | hmem
    · cases heq
      exact ⟨_, x, List.mem_append_right _ (List.mem_singleton_self _)⟩
    · obtain ⟨m, y, hmem⟩ := h.answered id r₀ r₁ hmem
      exact ⟨m, y, List.mem_append_left _ hmem⟩
  · refine h.unanswered_accepted q (List.mem_filter.mp hq).1 i m ?_
    exact (List.mem_cons.mp hmem).resolve_left (by simp)
  · have hacc := (List.mem_cons.mp hacc).resolve_left (by simp)
    rcases List.mem_append.mp hmem with hmem | hmem
    · exact h.executed_accepted id m y ret' hmem i q hacc
    · obtain ⟨htask, -⟩ := Prod.mk.inj (List.mem_singleton.mp hmem)
      obtain ⟨rfl, hm, -⟩ := Task.message.inj htask
      calc
        _ = DspMsg.ofRegs s.driver.regs := hm
        _ = r.msg := (h.in_regs r hr hboot).symm
        _ = q := h.unanswered_accepted r hr i q hacc

/-! ## Whole runs -/

/-- A step of the system is one of the driver, after which the program of the
DSP may begin, or a word is written, or the message in flight is executed. -/
theorem systemNext_cases {s s' : System σ ξ} {e : SystemEvent ξ}
    (h : systemNext fw s e = some s') :
    (∃ e' x d n, e = .driver e' x ∧
      (∀ id r₀ r₁ k, e' ≠ .answer id r₀ r₁ k) ∧
      driverNext s.driver e' = some d ∧
      (s' = { s with driver := d, unwritten := n } ∨
        s' = { s with
          driver := d
          unwritten := n
          mem := fw.boot s.mem x
          history := s.history ++ [(.boot x, none)] })) ∨
    (∃ n, e = .word ∧ s' = { s with unwritten := n }) ∨
    ∃ id left x, e = .execute id left x ∧
      let m := s.found left
      let dsp := (fw.answer s.dsp m x).1
      let ret := (fw.answer s.dsp m x).2
      ∃ d, dspAnswer id ret.1 ret.2 dsp.errno s.driver = some d ∧
      s' = { s with
        driver := d
        mem := dsp.mem
        history := s.history ++ [(.message id m x, some ret)] } := by
  cases e with
  | driver e x =>
      have hno : ∀ id r₀ r₁ k, e ≠ .answer id r₀ r₁ k := by
        rintro id r₀ r₁ k rfl
        cases h
      let s₁ (d : Driver) : System σ ξ := { s with
        driver := d
        unwritten := unwrittenAfter s.driver e s.unwritten }
      have hstep : (if 0 < s.unwritten ∧ locks e then none
          else (driverNext s.driver e).map fun d =>
            if restarts s.driver.power d.power then
              { s₁ d with
                mem := fw.boot s.mem x
                history := s.history ++ [(.boot x, none)] }
            else s₁ d) = some s' := by
        cases e with
        | answer id r₀ r₁ k => cases h
        | _ => exact h
      obtain ⟨-, hmap⟩ := Option.ite_none_left_eq_some.mp hstep
      obtain ⟨d, hd, heq⟩ := Option.map_eq_some_iff.mp hmap
      refine Or.inl ⟨e, x, d, unwrittenAfter s.driver e s.unwritten, rfl, hno,
        hd, ?_⟩
      by_cases hrestarts : restarts s.driver.power d.power = true
      · rw [if_pos hrestarts] at heq
        exact Or.inr heq.symm
      · rw [if_neg hrestarts] at heq
        exact Or.inl heq.symm
  | word =>
      obtain ⟨-, heq⟩ := Option.ite_none_right_eq_some.mp h
      exact Or.inr (Or.inl ⟨_, rfl, (Option.some.inj heq).symm⟩)
  | execute id left x =>
      obtain ⟨d, hd, heq⟩ := Option.map_eq_some_iff.mp h
      exact Or.inr (Or.inr ⟨id, left, x, rfl, d, hd, heq.symm⟩)

theorem Serving.step {s s' : System σ ξ} {e : SystemEvent ξ}
    (h : Serving fw mem s) (hrouting : Routing s.driver)
    (hnum : Numbered s.driver) (hok : e.Orderly s)
    (hstep : systemNext fw s e = some s') : Serving fw mem s' := by
  rcases systemNext_cases hstep with
    ⟨e', x, d, n, rfl, hno, hd, rfl | rfl⟩ | ⟨n, rfl, rfl⟩ |
    ⟨id, left, x, rfl, d, hd, rfl⟩
  · exact (h.driver hrouting hnum hok.2 (driverNext_step hd) hno).of_unwritten n
  · exact ((h.driver hrouting hnum hok.2 (driverNext_step hd) hno).of_unwritten
      n).boot x
  · exact h.of_unwritten n
  · have hfound : s.found left = DspMsg.ofRegs s.driver.regs := if_pos hok
    rw [hfound] at hd ⊢
    cases dspAnswer_step hd with
    | answered hr hid _ hboot =>
        subst hid
        exact h.execute hrouting.flight hr hboot x

/-- The driver of the system takes the steps that the driver alone can take. -/
theorem driver_reachable {s : System σ ξ}
    (hs : ((systemMachine fw ram mem).restrict
      SystemEvent.Orderly).Reachable s) :
    ((driverMachine ram).restrict RoutesReplies).Reachable s.driver := by
  refine Machine.Reachable.invariant (P := fun s : System σ ξ =>
    ((driverMachine ram).restrict RoutesReplies).Reachable s.driver)
    ?_ ?_ hs
  · rintro s rfl
    exact Machine.Reachable.init rfl
  · rintro s e s' hd ⟨hok, hnext⟩
    rcases systemNext_cases hnext with
      ⟨e', x, d, n, rfl, -, hstep, rfl | rfl⟩ | ⟨n, rfl, rfl⟩ |
      ⟨id, left, x, rfl, d, hstep, rfl⟩
    · exact hd.step ⟨hok.1, hstep⟩
    · exact hd.step ⟨hok.1, hstep⟩
    · exact hd
    · exact hd.step (e := .answer _ _ _ _) ⟨trivial, hstep⟩

theorem serving_of_reachable {s : System σ ξ}
    (hs : ((systemMachine fw ram mem).restrict
      SystemEvent.Orderly).Reachable s) : Serving fw mem s := by
  induction hs with
  | init h =>
      obtain rfl := h
      exact initial_serving ram
  | step hs hstep ih =>
      have hd := driver_reachable hs
      exact ih.step (routing_of_reachable hd) (numbered_of_reachable hd) hstep.1
        hstep.2

/-! ## What the clients read -/

/-- The message is what the service replied to the message that the client had
accepted last. -/
def System.OwnReply (s : System σ ξ) (i : Slot) (m : DspMsg)
    (log : List Obs) : Prop :=
  ∃ id q x ret, awaited i log = some (id, q) ∧
    (.message id q x, some ret) ∈ s.history ∧
    .answered id ret.1 ret.2 ∈ log ∧ m = ⟨q.comp, ret.1, ret.2⟩

theorem Serving.ownReply {s : System σ ξ} {i : Slot} {m : DspMsg}
    {newer older : List Obs} (h : Serving fw mem s)
    (hlog : s.driver.log = newer ++ .delivered i m :: older)
    (hreply : IsReply i m older) : s.OwnReply i m older := by
  obtain ⟨id, q, r₀, r₁, hawaited, hanswered, hm⟩ := hreply
  have hold : ∀ o ∈ older, o ∈ s.driver.log := by
    intro o ho
    rw [hlog]
    exact List.mem_append_right _ (List.mem_cons_of_mem _ ho)
  obtain ⟨q', x, hmem⟩ := h.answered id r₀ r₁ (hold _ hanswered)
  have hq : q' = q := h.executed_accepted id q' x _ hmem i q
    (hold _ (mem_of_awaited hawaited))
  subst hq
  exact ⟨id, q', x, (r₀, r₁), hawaited, hmem, hanswered, hm⟩

/-- In an orderly run, all that was executed was executed as by a server of one
request at a time, every message at most once and in the order of the answers,
and every message that a client read is the reply of this server to its own
request. -/
theorem delivered_ownReply {s : System σ ξ}
    (hs : ((systemMachine fw ram mem).restrict
      SystemEvent.Orderly).Reachable s) :
    Service.Recorded fw.serve (System.dspInitial mem) s.history ∧
    s.executedIds = (answeredIds s.driver.log).reverse ∧
    s.executedIds.Nodup ∧
    ∀ newer i m older, s.driver.log = newer ++ .delivered i m :: older →
      s.OwnReply i m older := by
  have h := serving_of_reachable hs
  have hd := driver_reachable hs
  refine ⟨h.recorded, h.executed, ?_, fun newer i m older hlog => ?_⟩
  · rw [h.executed, List.nodup_reverse]
    exact (numbered_of_reachable hd).answered_nodup
  · have hrouted := (routing_of_reachable hd).log
    rw [hlog] at hrouted
    exact h.ownReply hlog hrouted.isReply

instance (s : System σ ξ) (e : SystemEvent ξ) : Decidable (e.Orderly s) := by
  unfold SystemEvent.Orderly
  cases e <;> infer_instance

/-- A component that adds and multiplies. -/
def sampleComponents : Components := fun n =>
  if n.val = 1 then ⟨1, some fun _ a b _ _ => ⟨0, a + b, a * b, []⟩⟩ else ⟨0, none⟩

/-- The DSP is started, and a client sends a message; the DSP executes it when
all of it is written, and the client reads the reply. -/
def callRun {ξ : Type} (req : DspMsg) (x : ξ) : List (SystemEvent ξ) :=
  [.openFile c64DevMinor 1, .ioctl 1 (.pwrOnRst ProcOutcome.smooth.power),
    .ioctl 1 (.start ProcOutcome.smooth.power 0x87000000),
    .ioctl 1 (.resume ProcOutcome.smooth.power),
    .writeFile 1 (.msg (.readable req))].map (.driver · x) ++
  List.replicate 6 (.driver (.proc .smooth) x) ++ List.replicate 3 .word ++
  [.execute 0 ⟨0, 0, 0⟩ x, .driver .irq x, .driver (.readFile 1 12) x,
    .driver (.readCopy 0 true) x]

theorem delivered_ownReply_callRun :
    ∃ (s : System Unit (ℕ × ℕ)) (older : List Obs),
      s.driver.log = .delivered 0 ⟨0x10001, 5, 6⟩ :: older ∧
      s.OwnReply 0 ⟨0x10001, 5, 6⟩ older := by
  have hrun : ∃ s, ((systemMachine (fixedDispatcher sampleComponents) runRam
      ()).restrict SystemEvent.Orderly).Reachable s ∧
      lastDelivery s.driver.log = some (0, ⟨0x10001, 5, 6⟩) :=
    Machine.exists_restrict_reachable_of_run _
      (callRun ⟨0x10001, 2, 3⟩ (0, 0)) (by decide)
  obtain ⟨s, hs, hlast⟩ := hrun
  have hlog := eq_cons_of_lastDelivery hlast
  exact ⟨s, _, hlog, (delivered_ownReply hs).2.2.2 [] _ _ _ hlog⟩

end C64Tools.Rpc
