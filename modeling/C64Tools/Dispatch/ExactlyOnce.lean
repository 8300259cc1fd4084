import C64Tools.Dispatch.Model
import Mathlib.Data.List.Forall2

/-!
# Exactly once

The serial number is published before the payload that it announces.  As long
as the DSP reads no word of the payload before it has been written, every
message is dispatched exactly once, in order, with its own words, and answered
exactly once; a spurious interrupt at the wrong time is enough to break this.
The return values of a message stand where its arguments were, and so the
arguments are in the registers only until the message has been dispatched.
-/

namespace C64Tools.Dispatch

open Transition

/-- The dispatcher has seen this message, as far as it has looked. -/
def Dispatched.Of (m : RpcMsg) (x : Dispatched) : Prop :=
  x.comp = m.comp ∧ ∀ args ∈ x.args, args = (m.arg1, m.arg2)

/-- The number of payload words that have not been written yet. -/
def GppPc.unwritten : GppPc → ℕ
  | .comp _ => 3
  | .arg1 _ => 2
  | .arg2 _ => 1
  | _ => 0

/-- No test message is sent, a new serial number differs from the one seen
last, and no word of the payload is read before it has been written. -/
def PayloadWritten (s : System) : Event → Prop
  | .send p => p ≠ .testMsg
  | .gpp _ =>
      match s.gpp with
      | .serial _ => s.msgSerial ≠ s.oldMsgSerial
      | _ => True
  | .dsp _ =>
      match s.dsp with
      | .readComp => s.gpp.unwritten ≤ 2
      | .readArg1 _ => s.gpp.unwritten ≤ 1
      | .readArg2 _ _ => s.gpp.unwritten = 0
      | _ => True
  | _ => True

/-! ## The invariant -/

/-- The client has been let through and has not published its serial number. -/
def GppPc.preparing : GppPc → Bool
  | .clear _ | .count _ | .fifo _ | .serial _ => true
  | _ => false

/-- The ready flag has been cleared and the serial number not published. -/
def GppPc.cleared : GppPc → Bool
  | .count _ | .fifo _ | .serial _ => true
  | _ => false

/-- A test message is being sent. -/
def GppPc.testing : GppPc → Bool
  | .check p | .clear p | .count p | .fifo p | .serial p => p == .testMsg
  | _ => false

/-- The message whose payload is being written. -/
def GppPc.writing : GppPc → Option RpcMsg
  | .comp m | .arg1 m | .arg2 m => some m
  | _ => none

/-- No message has been taken. -/
def DspPc.waiting : DspPc → Bool
  | .asleep | .awake | .noteIrq | .readSerial => true
  | _ => false

/-- The message has been dispatched, and its reply has not been sent. -/
def DspPc.replying : DspPc → Bool
  | .ret1 _ _ _ | .ret2 _ _ | .errno _ | .reply => true
  | _ => false

/-- What the dispatcher has copied of the message that it has taken. -/
def DspPc.Copied (m : RpcMsg) : DspPc → Prop
  | .readArg1 comp => comp = m.comp
  | .readArg2 comp arg1 => comp = m.comp ∧ arg1 = m.arg1
  | .exec m' => m' = m
  | _ => True

/-- Nothing is on its way from one side to the other. -/
structure System.Quiet (s : System) : Prop where
  waiting : s.dsp.waiting = true
  seen : s.regs.msgSerial = s.oldMsgSerial
  replies : s.replies = 0

/-- The last message is still to be dispatched. -/
def System.Owes (s : System) : Prop :=
  s.regs.msgSerial ≠ s.oldMsgSerial ∨
    s.dsp.waiting = false ∧ s.dsp.replying = false

instance (s : System) : Decidable s.Owes := by
  unfold System.Owes
  infer_instance

structure Dispatching (m : RpcMsg) (s : System) : Prop where
  quiet : s.ready = true ∨ s.gpp.preparing = true → s.Quiet
  cleared : s.gpp.cleared = true → s.ready = false
  rpc : s.gpp.testing = false
  unseen : s.regs.msgSerial ≠ s.oldMsgSerial →
    s.dsp.waiting = true ∧ s.replies = 0
  taken : s.dsp.waiting = false → s.replies = 0
  comp : s.gpp.unwritten ≤ 2 → s.regs.comp = m.comp
  arg1 : s.Owes → s.gpp.unwritten ≤ 1 → s.regs.arg1 = m.arg1
  arg2 : s.Owes → s.gpp.unwritten = 0 → s.regs.arg2 = m.arg2
  writing : ∀ m' ∈ s.gpp.writing, m' = m
  copied : s.dsp.Copied m
  owed : s.Owes → ∃ done, s.accepted = done ++ [m] ∧
    List.Forall₂ Dispatched.Of done s.dispatched
  settled : ¬ s.Owes → List.Forall₂ Dispatched.Of s.accepted s.dispatched
  answered : s.dispatched.length =
    s.answered + if s.dsp.replying then 1 else 0
  handled : s.answered = s.handled + s.replies
  replies : s.replies ≤ 1

variable {m : RpcMsg} {s : System}

namespace Dispatching

/-! ## Steps of the DSP -/

/-- The DSP goes on without taking a message, dispatching it or replying. -/
theorem dspMoves (h : Dispatching m s) (numIrqs oldNumIrqs : ℕ) (pc : DspPc)
    (hwaiting : pc.waiting = s.dsp.waiting)
    (hreplying : pc.replying = s.dsp.replying) (hcopied : pc.Copied m) :
    Dispatching m { s with
      numIrqs := numIrqs
      oldNumIrqs := oldNumIrqs
      dsp := pc } := by
  have howes : System.Owes { s with
      numIrqs := numIrqs
      oldNumIrqs := oldNumIrqs
      dsp := pc } ↔ s.Owes := by
    simp [System.Owes, hwaiting, hreplying]
  exact {
    quiet := fun hq => by
      obtain ⟨hw, hseen, hr⟩ := h.quiet hq
      exact ⟨hwaiting.trans hw, hseen, hr⟩
    cleared := h.cleared
    rpc := h.rpc
    unseen := fun hne => by
      obtain ⟨hw, hr⟩ := h.unseen hne
      exact ⟨hwaiting.trans hw, hr⟩
    taken := fun hw => h.taken (hwaiting.symm.trans hw)
    comp := h.comp
    arg1 := fun ho => h.arg1 (howes.mp ho)
    arg2 := fun ho => h.arg2 (howes.mp ho)
    writing := h.writing
    copied := hcopied
    owed := fun ho => h.owed (howes.mp ho)
    settled := fun ho => h.settled fun h' => ho (howes.mpr h')
    answered := by simpa [hreplying] using h.answered
    handled := h.handled
    replies := h.replies }

/-- A serial number that has not been seen is taken for a message. -/
theorem dspTakes (h : Dispatching m s) (hd : s.dsp = .readSerial)
    (hne : s.regs.msgSerial ≠ s.oldMsgSerial) :
    Dispatching m
      { s with oldMsgSerial := s.regs.msgSerial, dsp := .readComp } where
  quiet hq := absurd (h.quiet hq).seen hne
  cleared := h.cleared
  rpc := h.rpc
  unseen heq := absurd rfl heq
  taken _ := (h.unseen hne).2
  comp := h.comp
  arg1 _ := h.arg1 (Or.inl hne)
  arg2 _ := h.arg2 (Or.inl hne)
  writing := h.writing
  copied := trivial
  owed _ := h.owed (Or.inl hne)
  settled ho := absurd (Or.inr ⟨rfl, rfl⟩) ho
  answered := by simpa [hd, DspPc.replying] using h.answered
  handled := h.handled
  replies := h.replies

/-- Once a message is taken, its serial number has been seen. -/
theorem seen (h : Dispatching m s) (hw : s.dsp.waiting = false) :
    s.regs.msgSerial = s.oldMsgSerial := by
  by_contra hne
  have := (h.unseen hne).1
  simp [hw] at this

/-- A message that has been dispatched is not owed any more. -/
theorem not_owes (h : Dispatching m s) (hw : s.dsp.waiting = false)
    (hreplying : s.dsp.replying = true) : ¬ s.Owes := by
  simp [System.Owes, h.seen hw, hreplying]

/-- The message that was taken is dispatched. -/
theorem dspDispatches (h : Dispatching m s) (hw : s.dsp.waiting = false)
    (hnot : s.dsp.replying = false) {x : Dispatched} (hx : x.Of m) (pc : DspPc)
    (hreplying : pc.replying = true) (hcopied : pc.Copied m) :
    Dispatching m
      { s with dispatched := s.dispatched ++ [x], dsp := pc } := by
  have hseen := h.seen hw
  have howes : ¬ System.Owes
      { s with dispatched := s.dispatched ++ [x], dsp := pc } := by
    simp [System.Owes, hseen, hreplying]
  exact {
    quiet := fun hq => by
      have := (h.quiet hq).waiting
      simp [hw] at this
    cleared := h.cleared
    rpc := h.rpc
    unseen := fun hne => absurd hseen hne
    taken := fun _ => h.taken hw
    comp := h.comp
    arg1 := fun ho => absurd ho howes
    arg2 := fun ho => absurd ho howes
    writing := h.writing
    copied := hcopied
    owed := fun ho => absurd ho howes
    settled := fun _ => by
      obtain ⟨done, hdone, hof⟩ := h.owed (Or.inr ⟨hw, hnot⟩)
      rw [hdone]
      exact List.rel_append hof (List.Forall₂.cons hx List.Forall₂.nil)
    answered := by simpa [hnot, hreplying] using h.answered
    handled := h.handled
    replies := h.replies }

/-- The reply to a message that was dispatched takes the place of its
arguments. -/
theorem dspStores (h : Dispatching m s) (hw : s.dsp.waiting = false)
    (hreplying : s.dsp.replying = true) (regs : IpcRegs) (pc : DspPc)
    (hserial : regs.msgSerial = s.regs.msgSerial)
    (hcomp : regs.comp = s.regs.comp)
    (hreplying' : pc.replying = true) (hcopied : pc.Copied m) :
    Dispatching m { s with regs := regs, dsp := pc } := by
  have hseen : regs.msgSerial = s.oldMsgSerial := hserial.trans (h.seen hw)
  have howes : ¬ System.Owes { s with regs := regs, dsp := pc } := by
    simp [System.Owes, hseen, hreplying']
  exact {
    quiet := fun hq => by
      have := (h.quiet hq).waiting
      simp [hw] at this
    cleared := h.cleared
    rpc := h.rpc
    unseen := fun hne => absurd hseen hne
    taken := fun _ => h.taken hw
    comp := fun hle => hcomp.trans (h.comp hle)
    arg1 := fun ho => absurd ho howes
    arg2 := fun ho => absurd ho howes
    writing := h.writing
    copied := hcopied
    owed := fun ho => absurd ho howes
    settled := fun _ => h.settled (h.not_owes hw hreplying)
    answered := by simpa [hreplying, hreplying'] using h.answered
    handled := h.handled
    replies := h.replies }

/-- The reply is sent once the message has been dispatched. -/
theorem dspReplies (h : Dispatching m s) (hd : s.dsp = .reply) :
    Dispatching m { s with
      replies := s.replies + 1
      answered := s.answered + 1
      dsp := .asleep } := by
  have hw : s.dsp.waiting = false := by rw [hd]; rfl
  have hr : s.replies = 0 := h.taken hw
  have hseen := h.seen hw
  have howes : ¬ System.Owes { s with
      replies := s.replies + 1
      answered := s.answered + 1
      dsp := .asleep } := by
    simp [System.Owes, hseen, DspPc.waiting]
  exact {
    quiet := fun hq => by
      have := (h.quiet hq).waiting
      simp [hw] at this
    cleared := h.cleared
    rpc := h.rpc
    unseen := fun hne => absurd hseen hne
    taken := fun hw => by cases hw
    comp := h.comp
    arg1 := fun ho => absurd ho howes
    arg2 := fun ho => absurd ho howes
    writing := h.writing
    copied := trivial
    owed := fun ho => absurd ho howes
    settled := fun _ => h.settled (h.not_owes hw (by rw [hd]; rfl))
    answered := by simpa [hd, DspPc.replying] using h.answered
    handled := congrArg (· + 1) h.handled
    replies := by simp [hr] }

theorem mlbTaskEntry (h : Dispatching m s) (o : DspOutcome)
    (hok : PayloadWritten s (.dsp o)) :
    Dispatching m (mlbTaskEntry o s) := by
  have hcopied := h.copied
  cases hd : s.dsp with
  | asleep => simpa only [Dispatch.mlbTaskEntry, hd] using h
  | awake =>
      simp only [Dispatch.mlbTaskEntry, hd]
      split_ifs
      all_goals
        exact h.dspMoves s.numIrqs s.oldNumIrqs _ (by rw [hd]; rfl)
          (by rw [hd]; rfl) trivial
  | noteIrq =>
      simp only [Dispatch.mlbTaskEntry, hd]
      exact h.dspMoves s.numIrqs s.numIrqs _ (by rw [hd]; rfl)
        (by rw [hd]; rfl) trivial
  | readSerial =>
      simp only [Dispatch.mlbTaskEntry, hd]
      split_ifs with hne
      · exact h.dspTakes hd hne.symm
      · exact h.dspMoves s.numIrqs s.oldNumIrqs _ (by rw [hd]; rfl)
          (by rw [hd]; rfl) trivial
  | readComp =>
      have hcomp : s.regs.comp = m.comp := by
        simp only [PayloadWritten, hd] at hok
        exact h.comp hok
      simp only [Dispatch.mlbTaskEntry, hd]
      split_ifs
      · exact h.dspMoves s.numIrqs s.oldNumIrqs _ (by rw [hd]; rfl)
          (by rw [hd]; rfl) hcomp
      · refine h.dspDispatches (by rw [hd]; rfl) (by rw [hd]; rfl) ⟨hcomp, ?_⟩
          _ rfl trivial
        simp
  | readArg1 comp =>
      have harg1 : s.regs.arg1 = m.arg1 := by
        simp only [PayloadWritten, hd] at hok
        exact h.arg1 (Or.inr (by rw [hd]; exact ⟨rfl, rfl⟩)) hok
      rw [hd] at hcopied
      simp only [Dispatch.mlbTaskEntry, hd]
      exact h.dspMoves s.numIrqs s.oldNumIrqs _ (by rw [hd]; rfl)
        (by rw [hd]; rfl) ⟨hcopied, harg1⟩
  | readArg2 comp arg1 =>
      have harg2 : s.regs.arg2 = m.arg2 := by
        simp only [PayloadWritten, hd] at hok
        exact h.arg2 (Or.inr (by rw [hd]; exact ⟨rfl, rfl⟩)) hok
      rw [hd] at hcopied
      obtain ⟨rfl, rfl⟩ := hcopied
      have hm : RpcMsg.mk m.comp m.arg1 s.regs.arg2 = m := by rw [harg2]
      simp only [Dispatch.mlbTaskEntry, hd]
      exact h.dspMoves s.numIrqs s.oldNumIrqs _ (by rw [hd]; rfl)
        (by rw [hd]; rfl) hm
  | exec m' =>
      rw [hd] at hcopied
      obtain rfl : m' = m := hcopied
      simp only [Dispatch.mlbTaskEntry, hd]
      refine h.dspDispatches (by rw [hd]; rfl) (by rw [hd]; rfl) ⟨rfl, ?_⟩
        _ rfl trivial
      simp
  | ret1 err r1 r2 =>
      simp only [Dispatch.mlbTaskEntry, hd]
      exact h.dspStores (by rw [hd]; rfl) (by rw [hd]; rfl) _ _ rfl rfl
        rfl trivial
  | ret2 err r2 =>
      simp only [Dispatch.mlbTaskEntry, hd]
      exact h.dspStores (by rw [hd]; rfl) (by rw [hd]; rfl) _ _ rfl rfl
        rfl trivial
  | errno err =>
      simp only [Dispatch.mlbTaskEntry, hd]
      exact h.dspStores (by rw [hd]; rfl) (by rw [hd]; rfl) _ _ rfl rfl
        rfl trivial
  | reply =>
      simp only [Dispatch.mlbTaskEntry, hd]
      exact h.dspReplies hd

theorem mlbIrqHandler (h : Dispatching m s) :
    Dispatching m (mlbIrqHandler s) := by
  refine h.dspMoves (u32 (s.numIrqs + 1)) s.oldNumIrqs _ ?_ ?_ ?_
  all_goals split_ifs with hd
  · rw [hd]
    rfl
  · rfl
  · rw [hd]
    rfl
  · rfl
  · trivial
  · exact h.copied

/-! ## Steps of the driver -/

/-- Outside of the payload, the driver goes on as it likes when nothing is on
its way, and otherwise without preparing a message. -/
theorem gppMoves (h : Dispatching m s) (ready : Bool) (msgSerial replies : ℕ)
    (pc : GppPc)
    (hquiet : ready = true ∨ pc.preparing = true → s.Quiet)
    (hcleared : pc.cleared = true → ready = false)
    (hrpc : pc.testing = false)
    (hreplies : replies = s.replies)
    (hunwritten : pc.unwritten = s.gpp.unwritten)
    (hwriting : pc.writing = s.gpp.writing) :
    Dispatching m { s with
      ready := ready
      msgSerial := msgSerial
      replies := replies
      gpp := pc } := by
  subst hreplies
  exact {
    quiet := fun hq => by
      obtain ⟨hw, hseen, hr⟩ := hquiet hq
      exact ⟨hw, hseen, hr⟩
    cleared := hcleared
    rpc := hrpc
    unseen := h.unseen
    taken := h.taken
    comp := fun hle => h.comp (hunwritten ▸ hle)
    arg1 := fun ho hle => h.arg1 ho (hunwritten ▸ hle)
    arg2 := fun ho hz => h.arg2 ho (hunwritten ▸ hz)
    writing := fun m' hm => h.writing m' (hwriting ▸ hm)
    copied := h.copied
    owed := h.owed
    settled := h.settled
    answered := h.answered
    handled := h.handled
    replies := h.replies }

/-- The message is accepted when its serial number is published. -/
theorem gppPublishes (h : Dispatching m s) {m' : RpcMsg}
    (hg : s.gpp = .serial (.rpc m')) (hne : s.msgSerial ≠ s.oldMsgSerial) :
    Dispatching m' { s with
      regs := { s.regs with msgSerial := s.msgSerial }
      accepted := s.accepted ++ [m']
      gpp := .comp m' } := by
  obtain ⟨hw, hseen, hr⟩ := h.quiet (Or.inr (by rw [hg]; rfl))
  have hready : s.ready = false := h.cleared (by rw [hg]; rfl)
  have howes : ¬ s.Owes := by simp [System.Owes, hseen, hw]
  exact {
    quiet := fun hq => by simp [hready, GppPc.preparing] at hq
    cleared := fun hc => by cases hc
    rpc := rfl
    unseen := fun _ => ⟨hw, hr⟩
    taken := fun hw' => by simp [hw] at hw'
    comp := fun hle => by simp [GppPc.unwritten] at hle
    arg1 := fun _ hle => by simp [GppPc.unwritten] at hle
    arg2 := fun _ hz => by simp [GppPc.unwritten] at hz
    writing := fun m'' hm => (Option.some.inj hm).symm
    copied := by
      cases hd : s.dsp <;> simp_all [DspPc.waiting, DspPc.Copied]
    owed := fun _ => ⟨s.accepted, rfl, h.settled howes⟩
    settled := fun ho => absurd (Or.inl hne) ho
    answered := h.answered
    handled := h.handled
    replies := h.replies }

/-- A word of the payload is written. -/
theorem gppWrites (h : Dispatching m s) (comp arg1 arg2 : ℕ)
    (pc : GppPc) (hquiet : pc.preparing = false)
    (hcomp : pc.unwritten ≤ 2 → comp = m.comp)
    (harg1 : s.Owes → pc.unwritten ≤ 1 → arg1 = m.arg1)
    (harg2 : s.Owes → pc.unwritten = 0 → arg2 = m.arg2)
    (hcleared : pc.cleared = false) (hrpc : pc.testing = false)
    (hwriting : ∀ m' ∈ pc.writing, m' = m) :
    Dispatching m { s with
      regs := { s.regs with comp, arg1, arg2 }
      gpp := pc } where
  quiet hq := by
    obtain ⟨hw, hseen, hr⟩ := h.quiet (by simpa [hquiet] using Or.inl hq)
    exact ⟨hw, hseen, hr⟩
  cleared hc := by simp [hcleared] at hc
  rpc := hrpc
  unseen := h.unseen
  taken := h.taken
  comp := hcomp
  arg1 := harg1
  arg2 := harg2
  writing := hwriting
  copied := h.copied
  owed := h.owed
  settled := h.settled
  answered := h.answered
  handled := h.handled
  replies := h.replies

theorem mlbSendToDsp (h : Dispatching m s) (fifoFull : Bool)
    (hok : PayloadWritten s (.gpp fifoFull)) :
    ∃ m', Dispatching m' (mlbSendToDsp fifoFull s) := by
  have hrpc := h.rpc
  cases hg : s.gpp with
  | idle =>
      refine ⟨m, ?_⟩
      simpa only [Dispatch.mlbSendToDsp, hg] using h
  | check p =>
      rw [hg] at hrpc
      have hp : p ≠ .testMsg := by
        rintro rfl
        cases hrpc
      refine ⟨m, ?_⟩
      simp only [Dispatch.mlbSendToDsp, hg]
      split_ifs with hready
      · have hr := hready.resolve_right hp
        exact h.gppMoves s.ready s.msgSerial s.replies (.clear p)
          (fun _ => h.quiet (Or.inl hr)) (fun hc => by cases hc) hrpc rfl
          (by rw [hg]; rfl) (by rw [hg]; rfl)
      · exact h.gppMoves s.ready s.msgSerial s.replies .idle
          (fun hq => h.quiet (Or.inl (by simpa [GppPc.preparing] using hq)))
          (fun hc => by cases hc) rfl rfl (by rw [hg]; rfl) (by rw [hg]; rfl)
  | clear p =>
      rw [hg] at hrpc
      have hq := h.quiet (Or.inr (by rw [hg]; rfl))
      refine ⟨m, ?_⟩
      simp only [Dispatch.mlbSendToDsp, hg]
      exact h.gppMoves false s.msgSerial s.replies (.count p) (fun _ => hq)
        (fun _ => rfl) hrpc rfl (by rw [hg]; rfl) (by rw [hg]; rfl)
  | count p =>
      rw [hg] at hrpc
      have hq := h.quiet (Or.inr (by rw [hg]; rfl))
      have hready := h.cleared (by rw [hg]; rfl)
      refine ⟨m, ?_⟩
      simp only [Dispatch.mlbSendToDsp, hg]
      exact h.gppMoves s.ready (u32 (s.msgSerial + 1)) 0 (.fifo p)
        (fun _ => hq) (fun _ => hready) hrpc hq.replies.symm
        (by rw [hg]; rfl) (by rw [hg]; rfl)
  | fifo p =>
      rw [hg] at hrpc
      have hq := h.quiet (Or.inr (by rw [hg]; rfl))
      have hready := h.cleared (by rw [hg]; rfl)
      refine ⟨m, ?_⟩
      simp only [Dispatch.mlbSendToDsp, hg]
      split_ifs
      · exact h.gppMoves true s.msgSerial s.replies .idle (fun _ => hq)
          (fun hc => by cases hc) rfl rfl (by rw [hg]; rfl) (by rw [hg]; rfl)
      · exact h.gppMoves s.ready s.msgSerial s.replies (.serial p)
          (fun _ => hq) (fun _ => hready) hrpc rfl
          (by rw [hg]; rfl) (by rw [hg]; rfl)
  | serial p =>
      cases p with
      | testMsg =>
          rw [hg] at hrpc
          cases hrpc
      | rpc m' =>
          simp only [PayloadWritten, hg] at hok
          refine ⟨m', ?_⟩
          simp only [Dispatch.mlbSendToDsp, hg]
          exact h.gppPublishes hg hok
  | comp m' =>
      obtain rfl := h.writing m' (by rw [hg]; rfl)
      refine ⟨m', ?_⟩
      simp only [Dispatch.mlbSendToDsp, hg]
      apply h.gppWrites <;>
        simp [GppPc.preparing, GppPc.cleared, GppPc.testing,
          GppPc.unwritten, GppPc.writing]
  | arg1 m' =>
      obtain rfl := h.writing m' (by rw [hg]; rfl)
      have hcomp := h.comp (by simp [hg, GppPc.unwritten])
      refine ⟨m', ?_⟩
      simp only [Dispatch.mlbSendToDsp, hg]
      apply h.gppWrites <;>
        simp [hcomp, GppPc.preparing, GppPc.cleared, GppPc.testing,
          GppPc.unwritten, GppPc.writing]
  | arg2 m' =>
      obtain rfl := h.writing m' (by rw [hg]; rfl)
      have hcomp := h.comp (by simp [hg, GppPc.unwritten])
      have harg1 := fun ho => h.arg1 ho (by simp [hg, GppPc.unwritten])
      refine ⟨m', ?_⟩
      simp only [Dispatch.mlbSendToDsp, hg]
      refine h.gppWrites _ _ m'.arg2 .kick rfl (fun _ => hcomp)
        (fun ho _ => harg1 ho) (fun _ _ => rfl) rfl rfl ?_
      simp [GppPc.writing]
  | kick =>
      refine ⟨m, ?_⟩
      simp only [Dispatch.mlbSendToDsp, hg]
      exact h.gppMoves s.ready s.msgSerial s.replies .idle
        (fun hq => h.quiet (Or.inl (by simpa [GppPc.preparing] using hq)))
        (fun hc => by cases hc) rfl rfl (by rw [hg]; rfl) (by rw [hg]; rfl)

/-- The interrupt that brings a reply finds the DSP waiting. -/
theorem irqHandlerMlb (h : Dispatching m s) (hr : 0 < s.replies) :
    Dispatching m (irqHandlerMlb s) := by
  have hw : s.dsp.waiting = true := by
    by_contra hw
    have := h.taken (Bool.eq_false_iff.mpr hw)
    omega
  have hseen : s.regs.msgSerial = s.oldMsgSerial := by
    by_contra hne
    have := (h.unseen hne).2
    omega
  have hprep : s.gpp.cleared = true → s.Quiet := fun hc =>
    h.quiet (Or.inr (by cases hg : s.gpp <;> simp_all [GppPc.cleared, GppPc.preparing]))
  exact {
    quiet := fun _ => ⟨hw, hseen, rfl⟩
    cleared := fun hc => by
      have := (hprep hc).replies
      omega
    rpc := h.rpc
    unseen := fun hne => absurd hseen hne
    taken := fun _ => rfl
    comp := h.comp
    arg1 := h.arg1
    arg2 := h.arg2
    writing := h.writing
    copied := h.copied
    owed := h.owed
    settled := h.settled
    answered := h.answered
    handled := h.handled
    replies := Nat.zero_le 1 }

theorem send (h : Dispatching m s) {p : Payload} (hg : s.gpp = .idle)
    (hp : p ≠ .testMsg) : Dispatching m { s with gpp := .check p } :=
  h.gppMoves s.ready s.msgSerial s.replies (.check p)
    (fun hq => h.quiet (Or.inl (by simpa [GppPc.preparing] using hq)))
    (fun hc => by cases hc) (by simpa [GppPc.testing] using hp) rfl
    (by rw [hg]; rfl) (by rw [hg]; rfl)

theorem next (h : Dispatching m s) {e : Event} {t : System}
    (hok : PayloadWritten s e) (ht : dispatchNext s e = some t) :
    ∃ m', Dispatching m' t := by
  cases e with
  | send p =>
      obtain ⟨hg, hs⟩ := Option.ite_none_right_eq_some.mp ht
      obtain rfl := Option.some.inj hs
      exact ⟨m, h.send hg hok⟩
  | gpp fifoFull =>
      obtain rfl := Option.some.inj ht
      exact h.mlbSendToDsp fifoFull hok
  | gppIrq =>
      obtain ⟨hr, hs⟩ := Option.ite_none_right_eq_some.mp ht
      obtain rfl := Option.some.inj hs
      exact ⟨m, h.irqHandlerMlb hr⟩
  | dspIrq =>
      obtain rfl := Option.some.inj ht
      exact ⟨m, h.mlbIrqHandler⟩
  | dsp o =>
      obtain rfl := Option.some.inj ht
      exact ⟨m, h.mlbTaskEntry o hok⟩

end Dispatching

instance (s : System) (e : Event) : Decidable (PayloadWritten s e) := by
  unfold PayloadWritten
  split
  · infer_instance
  · split <;> infer_instance
  · split <;> infer_instance
  · infer_instance

end C64Tools.Dispatch
