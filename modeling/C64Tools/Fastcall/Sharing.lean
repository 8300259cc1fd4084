import C64Tools.Fastcall.Recovery

/-!
# Clients that share the fastcall registers

Every process maps the same registers.  `dsp_rpc_send` reads from the control
word of the DSP that no fastcall sequence is under way, and sets the control
word of the GPP to `IDLE`, before the driver has accepted its message.  In the
meantime another client may have begun a sequence.
-/

namespace C64Tools.Fastcall

open Transition

/-- The clients of the driver beside one DSP.  In `sys`, the position of the
client and its reply are those of the client that took the last turn. -/
structure Shared (ι σ : Type*) where
  sys : System σ
  clients : ι → GppPc
  replied : ι → Bool
  /-- The client whose message the driver has accepted last, until the reply
  comes. -/
  current : Option ι
  /-- The client whose `REQ` or `DONE` the DSP has not read yet. -/
  posted : Option ι
  /-- The clients whose `REQ` or `DONE` another client has overwritten before
  the DSP has read it. -/
  lost : List ι

def Shared.initial {ι σ : Type*} (start : σ) : Shared ι σ where
  sys := System.initial start
  clients _ := .idle
  replied _ := false
  current := none
  posted := none
  lost := []

/-- The client writes the control word of the GPP next. -/
def GppPc.writesCtl : GppPc → Bool
  | .rpcCtl _ | .sendCtl _ | .recvCtl _ | .endCtl => true
  | _ => false

/-- The client writes `REQ` or `DONE` next. -/
def GppPc.posts : GppPc → Bool
  | .sendCtl _ | .endCtl => true
  | _ => false

section

variable {ι σ : Type*} [DecidableEq ι] (C : Component σ)

/-- What one client sees. -/
def Shared.view (s : Shared ι σ) (q : ι) : System σ :=
  { s.sys with gpp := s.clients q, replied := s.replied q }

/-- What one client leaves. -/
def Shared.put (s : Shared ι σ) (q : ι) (t : System σ) : Shared ι σ :=
  { s with
    sys := t
    clients := Function.update s.clients q t.gpp
    replied := Function.update s.replied q t.replied }

/-- The next access of a client.  Its message is accepted when no other client
has a message under way, and written again later otherwise. -/
def Shared.gppTurn (s : Shared ι σ) (q : ι) : Shared ι σ :=
  match s.clients q with
  | .rpcWrite _ =>
      if s.current = none then
        { s.put q (gppStep C (s.view q)) with current := some q }
      else s
  | pc =>
      { s.put q (gppStep C (s.view q)) with
        posted :=
          if pc.posts then some q
          else if pc.writesCtl then none
          else s.posted
        lost :=
          if pc.writesCtl then s.lost ++ (s.posted.filter (· ≠ q)).toList
          else s.lost }

/-- `dsp_rpc_send` fails after too many retries. -/
def Shared.giveUp (s : Shared ι σ) (q : ι) : Option (Shared ι σ) :=
  match s.clients q with
  | .rpcCheck _ | .rpcWrite _ =>
      some { s with clients := Function.update s.clients q .idle }
  | _ => none

/-- The next access of the DSP.  Its reply goes to the current client, and
after that the driver accepts another message. -/
def Shared.dspTurn (s : Shared ι σ) : Shared ι σ :=
  match s.current with
  | some q =>
      { s.put q (dspStep C (s.view q)) with
        current := if s.sys.dsp = .reply then none else some q
        posted := if s.sys.dsp = .test then none else s.posted }
  | none => { s with sys := dspStep C s.sys }

/-- Whose turn it is. -/
inductive SharedTurn (ι : Type*) where
  | call (q : ι) (c : GppCall)
  | gpp (q : ι)
  | giveUp (q : ι)
  | dsp
  deriving DecidableEq, Repr

def sharedNext (s : Shared ι σ) : SharedTurn ι → Option (Shared ι σ)
  | .call q c => (gppCall (s.view q) c).map (s.put q)
  | .gpp q => some (s.gppTurn C q)
  | .giveUp q => s.giveUp q
  | .dsp => some (s.dspTurn C)

/-- The clients and the DSP, taking turns in any order. -/
def sharedMachine (start : σ) : Machine (Shared ι σ) (SharedTurn ι) :=
  Machine.ofNext (Shared.initial start) (sharedNext C)

/-- What `dsp_rpc_send` has found out is still true when it makes use of it:
the DSP is in no sequence when the control word is changed to `IDLE`, and the
word is `IDLE` when a message is accepted that initiates a sequence. -/
def TestStillHolds (s : Shared ι σ) : SharedTurn ι → Prop
  | .gpp q =>
      match s.clients q with
      | .rpcCtl _ => s.sys.togppCtl = .done ∨ s.sys.todspCtl = .idle
      | .rpcWrite m =>
          s.current = none → C.initiates m = true → s.sys.todspCtl = .idle
      | _ => True
  | _ => True

instance (s : Shared ι σ) (e : SharedTurn ι) :
    Decidable (TestStillHolds C s e) := by
  unfold TestStillHolds
  split
  · split <;> infer_instance
  · infer_instance

end

/-! ## The word of the current client -/

section

variable {σ : Type*} (C : Component σ)

/-- The control word of the GPP is changed. -/
def System.setTodspCtl (s : System σ) (ctl : FastcallCtl) : System σ :=
  { s with todspCtl := ctl }

/-- A client that is not the current client waits to be it, or has got its
reply. -/
def System.Apart (s : System σ) : Prop :=
  if s.replied then s.gpp.phase = .messaging ∨ s.gpp.phase = .closing
  else s.gpp.phase = .outside

/-- The handshake of the current client holds, but for a word that has been
changed to `IDLE` when the DSP does not look at it. -/
structure System.Owns (start : σ) (s : System σ) : Prop where
  current : s.Current
  handshake : ∃ ctl, Handshake C start (s.setTodspCtl ctl) ∧
    (s.todspCtl = ctl ∨ s.togppCtl = .done ∧
      (s.gpp.phase = .messaging ∨ s.gpp.phase = .closing))

end

variable {σ : Type*} {C : Component σ} {start : σ} {s : System σ}

theorem dspStep_gpp (s : System σ) : (dspStep C s).gpp = s.gpp := by
  unfold dspStep
  split <;> (try split) <;> rfl

theorem dspStep_replied (hd : s.dsp ≠ .reply) :
    (dspStep C s).replied = s.replied := by
  unfold dspStep
  split <;> (try split) <;> first | rfl | contradiction

/-- The DSP finds what has been posted. -/
theorem dspStep_posted (hword : s.todspCtl ≠ .idle)
    (hidle : s.togppCtl = .idle) (hd : s.dsp = .check ∨ s.dsp = .poll) :
    (dspStep C s).togppCtl = .idle ∧ ((dspStep C s).dsp = .check ∨
      (dspStep C s).dsp = .poll ∨ (dspStep C s).dsp = .test) := by
  obtain hd | hd := hd <;> simp [dspStep, hd, hidle, hword]

/-- The DSP reads the control word of the GPP next. -/
def DspPc.readsCtl : DspPc → Bool
  | .poll | .test | .ackPoll => true
  | _ => false

/-- Elsewhere the DSP does the same whatever the word is. -/
theorem dspStep_setTodspCtl (hd : s.dsp.readsCtl = false)
    (ctl : FastcallCtl) :
    dspStep C (s.setTodspCtl ctl) = (dspStep C s).setTodspCtl ctl := by
  obtain ⟨todspCtl, todsp, togppCtl, togpp, message, replied, gpp, dsp, comp,
    requested, executed, received⟩ := s
  cases dsp with
  | mailbox => cases message <;> rfl
  | poll | test | ackPoll => cases hd
  | _ => rfl

theorem dspStep_todspCtl : (dspStep C s).todspCtl = s.todspCtl := by
  unfold dspStep
  split <;> (try split) <;> rfl

namespace Handshake

/-- The phases in which the current client may find that the DSP is in no
sequence. -/
theorem phase_of_done (h : Handshake C start s)
    (hdone : s.togppCtl = .done) (hcur : s.Current) :
    s.gpp.phase = .messaging ∨ s.gpp.phase = .opened ∨
      s.gpp.phase = .closing := by
  obtain ⟨hphase, hreplied⟩ := hcur
  have hb := h.beside
  have hw := h.togppCtl
  rw [hdone] at hw
  unfold DspPc.Beside Component.phaseAfter at hb
  cases hd : s.dsp <;> grind [DspPc.wrote]

/-- Outside a sequence the DSP does not read the word, and enters none unless
a message initiates it. -/
theorem quiet_of_done (h : Handshake C start s)
    (hdone : s.togppCtl = .done)
    (hphase : s.gpp.phase = .messaging ∨ s.gpp.phase = .closing) :
    s.dsp.readsCtl = false ∧ (Fastcall.dspStep C s).togppCtl = .done := by
  have hb := h.beside
  have hw := h.togppCtl
  rw [hdone] at hw
  unfold Fastcall.dspStep
  cases hd : s.dsp <;> rw [hd] at hb hw
  case mailbox =>
    refine ⟨rfl, ?_⟩
    cases s.message <;> exact hdone
  case exec | check | reply => exact ⟨rfl, hdone⟩
  case done => exact ⟨rfl, rfl⟩
  case initiate err => 
    obtain hphase | hphase := hphase <;> simp [hphase] at hb
  all_goals cases hw

end Handshake

/-- A call only changes the position of the client, within its phase. -/
theorem gppCall_cases {c : GppCall} {t : System σ}
    (hc : gppCall s c = some t) :
    ∃ pc : GppPc, t = { s with gpp := pc } ∧ pc.phase = s.gpp.phase ∧
      ∀ ctl, gppCall (s.setTodspCtl ctl) c = some (t.setTodspCtl ctl) := by
  cases c
  all_goals
    obtain ⟨hg, ht⟩ := Option.ite_none_right_eq_some.mp hc
    obtain rfl := Option.some.inj ht
    exact ⟨_, rfl, by rw [hg]; rfl, fun ctl => if_pos hg⟩

/-- The current client stays the current client as long as there is no reply
that it could receive. -/
theorem gppStep_current (hcur : s.Current) : (gppStep C s).Current := by
  obtain ⟨hphase, hreplied⟩ := hcur
  unfold System.Current gppStep
  cases hg : s.gpp
  case idle | rpcCheck | rpcCtl | rpcWrite =>
    exact absurd (by rw [hg]; rfl) hphase
  all_goals
    dsimp only
    try split_ifs
    all_goals simp_all [GppPc.phase]

namespace System.Owns

theorem dspStep (h : s.Owns C start) (hd : s.dsp ≠ .reply) :
    (dspStep C s).Owns C start := by
  obtain ⟨hcur, ctl, hs, hctl⟩ := h
  refine ⟨?_, ctl, ?_⟩
  · unfold System.Current
    rw [dspStep_gpp, dspStep_replied hd]
    exact hcur
  · obtain rfl | ⟨hdone, hphase⟩ := hctl
    · refine ⟨?_, Or.inl dspStep_todspCtl⟩
      have hnext := hs.dspStep
      rwa [← dspStep_todspCtl (C := C) (s := s)]
    · have hreads : s.dsp.readsCtl = false :=
        (hs.quiet_of_done hdone hphase).1
      have hdone' := (hs.quiet_of_done hdone hphase).2
      have hnext := hs.dspStep
      rw [dspStep_setTodspCtl hreads] at hdone' hnext
      refine ⟨hnext, Or.inr ⟨hdone', ?_⟩⟩
      rwa [dspStep_gpp]

theorem phase_of_reply (h : s.Owns C start) (hd : s.dsp = .reply) :
    s.gpp.phase = .messaging ∨ s.gpp.phase = .closing := by
  obtain ⟨-, ctl, hs, -⟩ := h
  simpa [System.setTodspCtl, hd] using hs.beside

/-- After the reply nobody has a message under way. -/
theorem reply (h : s.Owns C start) (hd : s.dsp = .reply) :
    Handshake C start { Fastcall.dspStep C s with
      todspCtl := .idle, gpp := .idle, replied := false } := by
  have hphase := h.phase_of_reply hd
  obtain ⟨-, ctl, hs, -⟩ := h
  have hwrote : ctl = .done ∨ ctl = .idle := by
    have hw := hs.todspCtl
    cases hg : s.gpp <;> simp_all [System.setTodspCtl, GppPc.phase]
  have hreplied := (hs.sendsReply hd).receivesReply rfl hwrote
  have hidle := hreplied.gppMoves .idle s.todsp .idle hreplied.beside
    (Or.inr rfl) rfl trivial hreplied.dspCopied rfl rfl
  simp only [Fastcall.dspStep, hd]
  exact hidle

/-- The reply comes to a client that waits for it. -/
theorem reply_apart (h : s.Owns C start) (hd : s.dsp = .reply) :
    (Fastcall.dspStep C s).Apart := by
  have hphase := h.phase_of_reply hd
  simpa [System.Apart, Fastcall.dspStep, hd] using hphase

/-- While the current client waits, the DSP comes nearer to what it waits
for. -/
theorem dspStep_rank (h : s.Owns C start) (hwait : ¬ s.GppGoesOn) :
    (Fastcall.dspStep C s).GppGoesOn ∨
      (Fastcall.dspStep C s).dsp.rank < s.dsp.rank := by
  obtain ⟨-, ctl, hs, rfl | ⟨hdone, hphase⟩⟩ := h
  · exact hs.dspStep_rank hwait
  · have hreads : s.dsp.readsCtl = false :=
      (hs.quiet_of_done hdone hphase).1
    have hrank := hs.dspStep_rank hwait
    rw [dspStep_setTodspCtl hreads] at hrank
    exact hrank

theorem reply_goesOn (h : s.Owns C start) (hd : s.dsp = .reply) :
    (Fastcall.dspStep C s).GppGoesOn := by
  have hphase := h.phase_of_reply hd
  cases hg : s.gpp <;>
    simp_all [System.GppGoesOn, Fastcall.dspStep, GppPc.phase]

theorem gppStep (h : s.Owns C start) : (gppStep C s).Owns C start := by
  obtain ⟨hcur, ctl, hs, hctl⟩ := h
  refine ⟨gppStep_current hcur, ?_⟩
  have hreplied := hcur.2
  · obtain rfl | ⟨hdone, hphase⟩ := hctl
    · exact ⟨_, hs.gppStep, Or.inl rfl⟩
    · have hstays : Fastcall.gppStep C s = s := by
        unfold Fastcall.gppStep
        cases hg : s.gpp <;> simp_all [GppPc.phase]
      rw [hstays]
      exact ⟨ctl, hs, Or.inr ⟨hdone, hphase⟩⟩

theorem gppCall (h : s.Owns C start) {c : GppCall} {t : System σ}
    (hc : gppCall s c = some t) : t.Owns C start := by
  obtain ⟨pc, rfl, hpc, hctl⟩ := gppCall_cases hc
  obtain ⟨hcur, ctl, hs, hword⟩ := h
  refine ⟨⟨?_, hcur.2⟩, ctl, hs.gppCall (hctl ctl), ?_⟩
  · rw [hpc]
    exact hcur.1
  · rw [hpc]
    exact hword

/-- The word may be changed to `IDLE` when it is `IDLE`, or no sequence is
under way. -/
theorem overwrite (h : s.Owns C start)
    (hok : s.togppCtl = .done ∨ s.todspCtl = .idle) :
    (s.setTodspCtl .idle).Owns C start := by
  obtain ⟨hcur, ctl, hs, hctl⟩ := h
  refine ⟨hcur, ctl, hs, ?_⟩
  obtain hdone | hidle := hok
  · obtain hphase | hphase | hphase := hs.phase_of_done hdone hcur
    · exact Or.inr ⟨hdone, Or.inl hphase⟩
    · left
      exact (hs.todspCtl.of_opened hphase).symm
    · exact Or.inr ⟨hdone, Or.inr hphase⟩
  · rw [hidle] at hctl
    exact hctl

/-- The DSP is still to read what the current client posts. -/
theorem gppStep_posts (h : s.Owns C start) (hposts : s.gpp.posts = true) :
    ((Fastcall.gppStep C s).gpp.phase = .asking ∨
      (Fastcall.gppStep C s).gpp.phase = .closing) ∧
      (Fastcall.gppStep C s).todspCtl ≠ .idle ∧
      (Fastcall.gppStep C s).togppCtl = .idle ∧
      ((Fastcall.gppStep C s).dsp = .check ∨
        (Fastcall.gppStep C s).dsp = .poll ∨
        (Fastcall.gppStep C s).dsp = .test) := by
  obtain ⟨-, ctl, hs, -⟩ := h
  have hready : s.gpp.phase = .ready := by
    cases hg : s.gpp <;> rw [hg] at hposts <;> first | rfl | cases hposts
  have hd : s.dsp = .check ∨ s.dsp = .poll := hs.dsp_of_ready hready
  have hidle : s.togppCtl = .idle := by
    have hw : s.togppCtl = s.dsp.wrote s.gpp.phase := hs.togppCtl
    obtain hd | hd := hd <;> simp [hw, hd, hready]
  cases hg : s.gpp <;> rw [hg] at hposts
  case sendCtl c =>
    simp only [Fastcall.gppStep, hg]
    exact ⟨Or.inl rfl, by simp, hidle, hd.imp_right Or.inl⟩
  case endCtl =>
    simp only [Fastcall.gppStep, hg]
    exact ⟨Or.inr rfl, by simp, hidle, hd.imp_right Or.inl⟩
  all_goals cases hposts

/-- The client waits until the DSP has read what it has posted. -/
theorem gppStep_posted (h : s.Owns C start)
    (hphase : s.gpp.phase = .asking ∨ s.gpp.phase = .closing)
    (hidle : s.togppCtl = .idle) : Fastcall.gppStep C s = s := by
  have hreplied := h.current.2
  unfold Fastcall.gppStep
  cases hg : s.gpp <;> simp_all [GppPc.phase]

/-- The driver accepts a message. -/
theorem of_accepted (h : Handshake C start
      { s with todspCtl := .idle, gpp := .idle, replied := false })
    {m : Call} (hg : s.gpp = .rpcWrite m) (hreplied : s.replied = false)
    (hidle : C.initiates m = true → s.todspCtl = .idle) :
    (Fastcall.gppStep C s).Owns C start := by
  have hwrite := (h.gppStays (.rpcWrite m) rfl rfl trivial).gppStep
  obtain ⟨todspCtl, todsp, togppCtl, togpp, message, replied, gpp, dsp, comp,
    requested, executed, received⟩ := s
  obtain rfl : gpp = .rpcWrite m := hg
  obtain rfl : replied = false := hreplied
  refine ⟨⟨?_, rfl⟩, .idle, hwrite, ?_⟩
  · simp only [Fastcall.gppStep]
    split_ifs <;> simp [GppPc.phase]
  · have hdone : togppCtl = .done := by
      obtain ⟨rfl, -, -⟩ : dsp = .mailbox ∧ _ := h.dsp_of_outside rfl
      exact h.togppCtl
    simp only [Fastcall.gppStep]
    by_cases hi : C.initiates m = true
    · exact Or.inl (hidle hi)
    · rw [if_neg hi]
      exact Or.inr ⟨hdone, Or.inl rfl⟩

end System.Owns

/-! ## The other clients -/

/-- What the other clients do to the registers: one that has found the DSP in
no sequence sets the control word to `IDLE`. -/
theorem System.Apart.gppStep_cases (h : s.Apart)
    (hg : ∀ m, s.gpp ≠ .rpcWrite m) :
    ∃ (ctl : FastcallCtl) (pc : GppPc), gppStep C s =
        { s with todspCtl := ctl, gpp := pc, replied := false } ∧
      pc.phase = .outside ∧ s.gpp.posts = false ∧
      ((∃ m, s.gpp = .rpcCtl m) ∧ ctl = .idle ∨
        s.gpp.writesCtl = false ∧ ctl = s.todspCtl) := by
  obtain ⟨todspCtl, todsp, togppCtl, togpp, message, replied, gpp, dsp, comp,
    requested, executed, received⟩ := s
  unfold System.Apart at h
  cases replied with
  | false =>
      cases gpp with
      | idle => exact ⟨_, _, rfl, rfl, rfl, Or.inr ⟨rfl, rfl⟩⟩
      | rpcCheck m =>
          by_cases hdone : togppCtl = .done
          · exact ⟨_, _, if_pos hdone, rfl, rfl, Or.inr ⟨rfl, rfl⟩⟩
          · exact ⟨_, _, if_neg hdone, rfl, rfl, Or.inr ⟨rfl, rfl⟩⟩
      | rpcCtl m => exact ⟨_, _, rfl, rfl, rfl, Or.inl ⟨⟨m, rfl⟩, rfl⟩⟩
      | rpcWrite m => exact absurd rfl (hg m)
      | _ => cases h
  | true =>
      cases gpp with
      | rpcRecv | endRecv => exact ⟨_, _, rfl, rfl, rfl, Or.inr ⟨rfl, rfl⟩⟩
      | _ => simp [GppPc.phase] at h

/-! ## The invariant -/

variable {ι : Type*}

structure Alone (C : Component σ) (start : σ) (s : Shared ι σ) : Prop where
  owner : ∀ q, s.current = some q → (s.view q).Owns C start
  free : s.current = none → Handshake C start
    { s.sys with todspCtl := .idle, gpp := .idle, replied := false }
  others : ∀ p, s.current ≠ some p → (s.view p).Apart
  posted : ∀ q, s.posted = some q → s.current = some q ∧
    ((s.clients q).phase = .asking ∨ (s.clients q).phase = .closing) ∧
    s.sys.todspCtl ≠ .idle ∧ s.sys.togppCtl = .idle ∧
    (s.sys.dsp = .check ∨ s.sys.dsp = .poll ∨ s.sys.dsp = .test)
  lost : s.lost = []

variable {s : Shared ι σ} {p q : ι}

theorem initial_alone : Alone C start (Shared.initial start : Shared ι σ) where
  owner q hq := by cases hq
  free _ := initial_handshake.gppMoves .idle _ .idle rfl (Or.inr rfl) rfl
    trivial trivial rfl rfl
  others _ _ := rfl
  posted q hq := by cases hq
  lost := rfl

namespace Alone

theorem not_outside (h : Alone C start s) (hq : s.current = some q) :
    (s.clients q).phase ≠ .outside :=
  (h.owner q hq).current.1

theorem posted_none (h : Alone C start s) (hcur : s.current = some q)
    (hphase : (s.clients q).phase ≠ .asking ∧
      (s.clients q).phase ≠ .closing) : s.posted = none := by
  by_contra hne
  obtain ⟨p, hp⟩ := Option.ne_none_iff_exists'.mp hne
  obtain ⟨hcur', hphase', -⟩ := h.posted p hp
  obtain rfl : q = p := Option.some.inj (hcur.symm.trans hcur')
  exact hphase'.elim hphase.1 hphase.2

end Alone

variable [DecidableEq ι]

@[simp]
theorem view_put_self (t : System σ) : (s.put q t).view q = t := by
  simp [Shared.view, Shared.put]

theorem view_put_of_ne (hpq : p ≠ q) (t : System σ) :
    (s.put q t).view p =
      { t with gpp := s.clients p, replied := s.replied p } := by
  simp [Shared.view, Shared.put, hpq]

@[simp]
theorem clients_put_self (t : System σ) :
    (s.put q t).clients q = t.gpp := by
  simp [Shared.put]

theorem gppTurn_of_not_write (hm : ∀ m, s.clients q ≠ .rpcWrite m) :
    s.gppTurn C q = { s.put q (gppStep C (s.view q)) with
      posted :=
        if (s.clients q).posts then some q
        else if (s.clients q).writesCtl then none
        else s.posted
      lost :=
        if (s.clients q).writesCtl then
          s.lost ++ (s.posted.filter (· ≠ q)).toList
        else s.lost } := by
  unfold Shared.gppTurn
  split
  next m hg => exact absurd hg (hm m)
  next => rfl

/-- Nothing is posted and nothing lost. -/
theorem gppTurn_eq_put (hm : ∀ m, s.clients q ≠ .rpcWrite m)
    (hposts : (s.clients q).posts = false)
    (hnone : (s.clients q).writesCtl = true → s.posted = none) :
    s.gppTurn C q = s.put q (gppStep C (s.view q)) := by
  rw [gppTurn_of_not_write hm, hposts]
  cases hw : (s.clients q).writesCtl with
  | false => rfl
  | true =>
      simp only [hnone hw]
      simp [Shared.put, hnone hw]

namespace Alone

/-- The other clients stay apart while the current client or the DSP does
something. -/
theorem others_put (h : Alone C start s) (hq : s.current = some q)
    (t : System σ) (p : ι) (hp : some q ≠ some p) :
    ((s.put q t).view p).Apart := by
  have hne : p ≠ q := fun heq => hp (by rw [heq])
  rw [view_put_of_ne hne]
  exact h.others p (by rwa [hq])

theorem apart_of_phase {t : System σ} {pc : GppPc} (ht : t.Apart)
    (hpc : pc.phase = t.gpp.phase) : ({ t with gpp := pc } : System σ).Apart := by
  unfold System.Apart at *
  rw [hpc]
  exact ht

theorem call (h : Alone C start s) {c : GppCall} {t : System σ}
    (hc : gppCall (s.view q) c = some t) : Alone C start (s.put q t) := by
  obtain ⟨pc, rfl, hpc, -⟩ := gppCall_cases hc
  have hphase : ∀ p, ((s.put q { s.view q with gpp := pc }).clients p).phase =
      (s.clients p).phase := by
    intro p
    by_cases hp : p = q
    · subst hp
      rw [clients_put_self]
      exact hpc
    · simp [Shared.put, hp]
  exact {
    owner := fun p hp => by
      by_cases hpq : p = q
      · subst hpq
        rw [view_put_self]
        exact (h.owner p hp).gppCall hc
      · rw [view_put_of_ne hpq]
        exact h.owner p hp
    free := h.free
    others := fun p hp => by
      by_cases hpq : p = q
      · subst hpq
        rw [view_put_self]
        exact apart_of_phase (h.others p hp) hpc
      · rw [view_put_of_ne hpq]
        exact h.others p hp
    posted := fun p hp => by
      rw [hphase]
      exact h.posted p hp
    lost := h.lost }

theorem giveUp (h : Alone C start s) {t : Shared ι σ}
    (ht : s.giveUp q = some t) : Alone C start t := by
  obtain ⟨hphase, rfl⟩ : (s.clients q).phase = .outside ∧
      t = { s with clients := Function.update s.clients q .idle } := by
    unfold Shared.giveUp at ht
    cases hg : s.clients q <;> rw [hg] at ht
    case rpcCheck | rpcWrite => exact ⟨rfl, (Option.some.inj ht).symm⟩
    all_goals cases ht
  have hcur : s.current ≠ some q := fun hq => h.not_outside hq hphase
  have hview : ∀ p, p ≠ q → Shared.view
      { s with clients := Function.update s.clients q .idle } p =
        s.view p := by
    intro p hp
    simp [Shared.view, hp]
  exact {
    owner := fun p hp => by
      rw [hview p fun heq => hcur (heq ▸ hp)]
      exact h.owner p hp
    free := h.free
    others := fun p hp => by
      by_cases hpq : p = q
      · subst hpq
        have hidle : GppPc.idle.phase = _ := hphase.symm
        have happart := apart_of_phase (h.others p hp) hidle
        simpa [Shared.view] using happart
      · rw [hview p hpq]
        exact h.others p hp
    posted := fun p hp => by
      have hposted := h.posted p hp
      have hne : p ≠ q := fun heq => hcur (heq ▸ hposted.1)
      simpa [hne] using hposted
    lost := h.lost }

/-- The driver accepts the message of a client. -/
theorem accept (h : Alone C start s) {m : Call}
    (hm : s.clients q = .rpcWrite m) (hcur : s.current = none)
    (hok : C.initiates m = true → s.sys.todspCtl = .idle) :
    Alone C start
      { s.put q (gppStep C (s.view q)) with current := some q } := by
  have happart : (s.view q).Apart := h.others q (by simp [hcur])
  have hreplied : s.replied q = false := by
    unfold System.Apart at happart
    cases hr : s.replied q <;> simp_all [Shared.view, GppPc.phase]
  exact {
    owner := fun p hp => by
      obtain rfl := Option.some.inj hp
      show ((s.put q _).view q).Owns C start
      rw [view_put_self]
      exact System.Owns.of_accepted (s := s.view q) (h.free hcur) hm hreplied
        hok
    free := by simp
    others := fun p hp => by
      have hpq : p ≠ q := fun heq => hp (by rw [heq])
      show ((s.put q _).view p).Apart
      rw [view_put_of_ne hpq]
      exact h.others p (by simp [hcur])
    posted := fun p hp => by
      have hnone := (h.posted p hp).1
      rw [hcur] at hnone
      cases hnone
    lost := h.lost }

/-- Another client goes on, and changes the control word only to `IDLE`. -/
theorem other_put (h : Alone C start s) (hcur : s.current ≠ some q)
    {pc : GppPc} (hpc : pc.phase = .outside) {ctl : FastcallCtl}
    (hctl : ctl = s.sys.todspCtl ∨ ctl = .idle ∧ s.posted = none ∧
      (s.sys.togppCtl = .done ∨ s.sys.todspCtl = .idle)) :
    Alone C start (s.put q
      { s.view q with todspCtl := ctl, gpp := pc, replied := false }) where
  owner p hp := by
    have hpq : p ≠ q := fun heq => hcur (heq ▸ hp)
    rw [view_put_of_ne hpq]
    obtain rfl | ⟨rfl, -, hok⟩ := hctl
    · exact h.owner p hp
    · exact (h.owner p hp).overwrite hok
  free := h.free
  others p hp := by
    by_cases hpq : p = q
    · subst hpq
      rw [view_put_self]
      exact hpc
    · rw [view_put_of_ne hpq]
      exact h.others p hp
  posted p hp := by
    have hposted := h.posted p hp
    have hpq : p ≠ q := fun heq => hcur (heq ▸ hposted.1)
    obtain rfl | ⟨-, hnone, -⟩ := hctl
    · simpa [Shared.put, Shared.view, hpq] using hposted
    · have hp' : s.posted = some p := hp
      rw [hnone] at hp'
      cases hp'
  lost := h.lost

theorem other (h : Alone C start s) (hcur : s.current ≠ some q)
    (hm : ∀ m, s.clients q ≠ .rpcWrite m)
    (hok : TestStillHolds C s (.gpp q)) : Alone C start (s.gppTurn C q) := by
  obtain ⟨ctl, pc, hstep, hpc, hposts, hctl⟩ :=
    System.Apart.gppStep_cases (C := C) (h.others q hcur) hm
  obtain ⟨⟨m, hg⟩, rfl⟩ | ⟨hwrites, rfl⟩ := hctl
  · have hfound : s.sys.togppCtl = .done ∨ s.sys.todspCtl = .idle := by
      have hg' : s.clients q = .rpcCtl m := hg
      simpa only [TestStillHolds, hg'] using hok
    have hnone : s.posted = none := by
      by_contra hne
      obtain ⟨p, hp⟩ := Option.ne_none_iff_exists'.mp hne
      obtain ⟨-, -, hword, hidle, -⟩ := h.posted p hp
      obtain hdone | hidle' := hfound
      · rw [hidle] at hdone
        cases hdone
      · exact hword hidle'
    rw [gppTurn_eq_put hm hposts fun _ => hnone, hstep]
    exact h.other_put hcur hpc (Or.inr ⟨rfl, hnone, hfound⟩)
  · have hwrites' : (s.clients q).writesCtl = false := hwrites
    rw [gppTurn_eq_put hm hposts (by simp [hwrites']), hstep]
    exact h.other_put hcur hpc (Or.inl rfl)

/-- The current client takes a step. -/
theorem owner_turn (h : Alone C start s) (hcur : s.current = some q) :
    Alone C start (s.gppTurn C q) := by
  have howns := h.owner q hcur
  have hm : ∀ m, s.clients q ≠ .rpcWrite m := fun m hg =>
    h.not_outside hcur (by rw [hg]; rfl)
  have howner : ∀ p, s.current = some p →
      ((s.put q (gppStep C (s.view q))).view p).Owns C start := by
    intro p hp
    obtain rfl : q = p := Option.some.inj (hcur.symm.trans hp)
    rw [view_put_self]
    exact howns.gppStep
  have hfree : ∀ {P : Prop}, s.current = none → P := fun hnone => by
    rw [hcur] at hnone
    cases hnone
  have hothers : ∀ p, s.current ≠ some p →
      ((s.put q (gppStep C (s.view q))).view p).Apart :=
    fun p hp => h.others_put hcur _ p (by rwa [← hcur])
  cases hposts : (s.clients q).posts with
  | true =>
      have hnone : s.posted = none := h.posted_none hcur (by
        cases hg : s.clients q <;> simp_all [GppPc.posts, GppPc.phase])
      rw [gppTurn_of_not_write hm]
      exact {
        owner := howner
        free := hfree
        others := hothers
        posted := fun p hp => by
          simp only [hposts, if_true] at hp
          obtain rfl := Option.some.inj hp
          have hword := howns.gppStep_posts hposts
          rw [← clients_put_self (s := s)] at hword
          exact ⟨hcur, hword⟩
        lost := by simp [hnone, h.lost] }
  | false =>
      rw [gppTurn_eq_put hm hposts fun hw => h.posted_none hcur (by
        cases hg : s.clients q <;> simp_all [GppPc.writesCtl, GppPc.posts,
          GppPc.phase])]
      exact {
        owner := howner
        free := hfree
        others := hothers
        posted := fun p hp => by
          obtain ⟨hcur', hphase, hword, hidle, hd⟩ := h.posted p hp
          obtain rfl : q = p := Option.some.inj (hcur.symm.trans hcur')
          rw [howns.gppStep_posted hphase hidle]
          rw [clients_put_self]
          exact ⟨hcur, hphase, hword, hidle, hd⟩
        lost := h.lost }

theorem gpp (h : Alone C start s) (hok : TestStillHolds C s (.gpp q)) :
    Alone C start (s.gppTurn C q) := by
  by_cases hcur : s.current = some q
  · exact h.owner_turn hcur
  · by_cases hm : ∃ m, s.clients q = .rpcWrite m
    · obtain ⟨m, hm⟩ := hm
      unfold Shared.gppTurn
      simp only [hm]
      split_ifs with hfree
      · refine h.accept hm hfree ?_
        simpa only [TestStillHolds, hm, hfree, true_imp_iff] using hok
      · exact h
    · exact h.other hcur (not_exists.mp hm) hok

theorem dsp (h : Alone C start s) : Alone C start (s.dspTurn C) := by
  unfold Shared.dspTurn
  cases hcur : s.current with
  | none =>
      obtain ⟨hd, hm, -⟩ := (h.free hcur).dsp_of_outside rfl
      have hstays : dspStep C s.sys = s.sys := by
        have hd' : s.sys.dsp = .mailbox := hd
        have hm' : s.sys.message = none := hm
        simp only [dspStep, hd', hm']
      dsimp only
      rw [hstays, ← hcur]
      exact h
  | some q =>
    have howns := h.owner q hcur
    dsimp only
    by_cases hd : s.sys.dsp = .reply
    · rw [if_pos hd]
      exact {
        owner := by simp
        free := fun _ => howns.reply hd
        others := fun p hp => by
          by_cases hpq : p = q
          · subst hpq
            show ((s.put p _).view p).Apart
            rw [view_put_self]
            exact howns.reply_apart hd
          · exact h.others_put hcur _ p fun heq => hpq (Option.some.inj heq.symm)
        posted := fun p hp => by
          obtain ⟨-, hp⟩ := Option.ite_none_left_eq_some.mp hp
          obtain ⟨-, -, -, -, hdsp⟩ := h.posted p hp
          rw [hd] at hdsp
          simp at hdsp
        lost := h.lost }
    · rw [if_neg hd]
      exact {
        owner := fun p hp => by
          obtain rfl := Option.some.inj hp
          show ((s.put q _).view q).Owns C start
          rw [view_put_self]
          exact howns.dspStep hd
        free := by simp
        others := fun p hp => h.others_put hcur _ p hp
        posted := fun p hp => by
          obtain ⟨htest, hp⟩ := Option.ite_none_left_eq_some.mp hp
          obtain ⟨hcur', hphase, hword, hidle, hdsp⟩ := h.posted p hp
          obtain rfl : q = p := Option.some.inj (hcur.symm.trans hcur')
          have hdsp' : (s.view q).dsp = .check ∨ (s.view q).dsp = .poll := by
            tauto
          refine ⟨rfl, ?_, ?_, dspStep_posted hword hidle hdsp'⟩
          · show ((s.put q _).clients q).phase = _ ∨ _
            rw [clients_put_self, dspStep_gpp]
            exact hphase
          · show (dspStep C (s.view q)).todspCtl ≠ _
            rw [dspStep_todspCtl]
            exact hword
        lost := h.lost }

theorem next (h : Alone C start s) {e : SharedTurn ι} {t : Shared ι σ}
    (hok : TestStillHolds C s e) (ht : sharedNext C s e = some t) :
    Alone C start t := by
  cases e with
  | call q c =>
      obtain ⟨u, hu, rfl⟩ := Option.map_eq_some_iff.mp ht
      exact h.call hu
  | gpp q =>
      obtain rfl := Option.some.inj ht
      exact h.gpp hok
  | giveUp q => exact h.giveUp ht
  | dsp =>
      obtain rfl := Option.some.inj ht
      exact h.dsp

theorem view_dspTurn (hcur : s.current = some q) :
    (s.dspTurn C).view q = dspStep C (s.view q) := by
  unfold Shared.dspTurn
  simp only [hcur]
  exact view_put_self _

theorem exists_goesOn (h : Alone C start s) (hcur : s.current = some q) :
    ∃ n, (((Shared.dspTurn C)^[n] s).view q).GppGoesOn :=
  Machine.exists_iterate_of_rank
    (P := fun s : Shared ι σ => Alone C start s ∧
      (s.current = some q ∨ (s.view q).GppGoesOn))
    (Q := fun s => (s.view q).GppGoesOn) (fun s => (s.view q).dsp.rank)
    (fun s ⟨h, hq⟩ hwait => ⟨h.dsp, by
      have hcur := hq.resolve_right hwait
      rw [view_dspTurn hcur]
      by_cases hd : s.sys.dsp = .reply
      · exact Or.inr ((h.owner q hcur).reply_goesOn hd)
      · left
        unfold Shared.dspTurn
        simp [hcur, hd]⟩)
    (fun s ⟨h, hq⟩ hwait => by
      have hcur := hq.resolve_right hwait
      rw [view_dspTurn hcur]
      exact (h.owner q hcur).dspStep_rank hwait)
    ⟨h, Or.inl hcur⟩

end Alone

/-! ## Undisturbed sequences -/

/-- What the owner of a fastcall sequence relies on beside the other
clients. -/
structure Undisturbed (C : Component σ) (s : Shared ι σ) : Prop where
  /-- No `REQ` or `DONE` is overwritten before the DSP has read it. -/
  kept : s.lost = []
  /-- The component has executed the requests in order, all but at most the
  last. -/
  calls : ∃ owed, owed.length ≤ 1 ∧
    s.sys.requested.map Request.dispatch = s.sys.executed ++ owed
  /-- What the current client waits for comes. -/
  progress : ∀ q, s.current = some q →
    ∃ n, (((Shared.dspTurn C)^[n] s).view q).GppGoesOn
  /-- When there is no current client, every sequence has ended. -/
  ended : s.current = none →
    s.sys.togppCtl = .done ∧ s.sys.dsp = .mailbox ∧
    s.sys.executed = s.sys.requested.map Request.dispatch

theorem Alone.undisturbed (h : Alone C start s) : Undisturbed C s := by
  refine ⟨h.lost, ?_, fun q hcur => h.exists_goesOn hcur, fun hfree => ?_⟩
  · cases hcur : s.current with
    | none =>
        exact ⟨_, DspPc.owed_length_le_one _ _ _ _, (h.free hcur).served⟩
    | some q =>
        obtain ⟨-, ctl, hs, -⟩ := h.owner q hcur
        exact ⟨_, DspPc.owed_length_le_one _ _ _ _, hs.served⟩
  · have hs := h.free hfree
    obtain ⟨hd, hm, -⟩ := hs.dsp_of_outside rfl
    have hctl := hs.togppCtl
    have hserved := hs.served
    rw [hd] at hctl hserved
    rw [hm] at hserved
    exact ⟨hctl, hd, by simpa using hserved.symm⟩

/-- As long as what `dsp_rpc_send` has read of the control words is still true
when it writes, the clients do not disturb each other's fastcall sequences. -/
theorem undisturbed_of_testStillHolds
    (hs : ((sharedMachine C start).restrict (TestStillHolds C)).Reachable s) :
    Undisturbed C s := by
  have h : Alone C start s := by
    refine hs.invariant ?_ fun s e t h hstep => h.next hstep.1 hstep.2
    rintro s rfl
    exact initial_alone
  exact h.undisturbed

/-- The turn of the only client is a turn of one of the clients. -/
def Turn.of {ι : Type*} (q : ι) : Turn → SharedTurn ι
  | .call c => .call q c
  | .gpp => .gpp q
  | .dsp => .dsp

/-- A client sets the control word to `IDLE` before the sequence of another
one begins, and its message is accepted when that one has ended. -/
def sharedRun : List (SharedTurn (Fin 2)) :=
  List.flatten
    [[.call 1 (.rpcSend ⟨2, 0, 0⟩), .gpp 1, .gpp 1],
      demoCalcRun.map (Turn.of 0),
      [.gpp 1], List.replicate 3 .dsp, [.gpp 1]]

theorem sharedRun_undisturbed :
    ∃ s : Shared (Fin 2) Unit, Undisturbed demoCalcFastcall s ∧
      s.current = none ∧ s.sys.executed.length = 4 := by
  have hrun : ∃ s, ((sharedMachine demoCalcFastcall ()).restrict
      (TestStillHolds demoCalcFastcall)).Reachable s ∧
      (s.current = none ∧ s.sys.executed.length = 4) :=
    Machine.exists_restrict_reachable_of_run _ sharedRun (by decide +kernel)
  obtain ⟨s, hs, hend⟩ := hrun
  exact ⟨s, undisturbed_of_testStillHolds hs, hend⟩

/-- A client finds the DSP in no sequence, another one begins a sequence and
makes a call, and the first one overwrites its `REQ`. -/
theorem request_overwritten_not_undisturbed :
    ∃ s : Shared (Fin 2) Unit,
      (sharedMachine demoCalcFastcall ()).Reachable s ∧
      ¬ Undisturbed demoCalcFastcall s := by
  have hrun : ∃ s : Shared (Fin 2) Unit,
      (sharedMachine demoCalcFastcall ()).Reachable s ∧ s.lost = [0] :=
    Machine.exists_reachable_of_run (fun s : Shared (Fin 2) Unit => s.lost = [0])
      ([.call 1 (.rpcSend ⟨2, 0, 0⟩), .gpp 1] ++
        (demoCalcRun.take 14).map (Turn.of 0) ++ [.gpp 1]) (by decide)
  obtain ⟨s, hs, hlost⟩ := hrun
  refine ⟨s, hs, fun h => ?_⟩
  rw [h.kept] at hlost
  cases hlost

end C64Tools.Fastcall
