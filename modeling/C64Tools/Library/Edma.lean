import Mathlib.Data.BitVec
import Mathlib.Data.List.Basic
import Mathlib.Logic.Function.Basic
import Mathlib.Logic.Relation
import Mathlib.Tactic.FinCases

/-!
# Quick transfers of an EDMA3 channel controller

A parameter set of eight words describes some rows of bytes to be copied.  When
the trigger word of the set of an enabled quick channel is written, the channel
has an event.  Serving the event copies the rows, signals completion if the set
asks for it, and unless the set is static loads the linked set in its place.
Loading writes the trigger word as well, so that a chain of linked sets is worked
off from one event.

The rules are given for sets that one event exhausts, with increasing addresses
and without chaining.
-/

namespace Edma

abbrev Word := BitVec 32

/-- The words of a parameter set: `OPT`, `SRC`, `ABCNT`, `DST`, `BIDX`, `LNK`,
`CIDX` and `CCNT`. -/
abbrev ParamSet := Fin 8 → Word

/-- Copy some bytes from an address on to another one. -/
structure Row where
  src : Word
  dst : Word
  len : ℕ
  deriving DecidableEq, Repr

/-- What a controller does to the world. -/
inductive Event where
  | row (r : Row)
  | complete (tcc : ℕ)
  deriving DecidableEq, Repr

namespace ParamSet

/-! ## Fields -/

/-- Transfer all rows on one event, not the first one only. -/
def syncdim (p : ParamSet) : Bool := (p 0).getLsbD 2

/-- Do not link. -/
def static (p : ParamSet) : Bool := (p 0).getLsbD 3

/-- The transfer completion code. -/
def tcc (p : ParamSet) : ℕ := ((p 0).extractLsb' 12 6).toNat

/-- Signal completion. -/
def tcinten (p : ParamSet) : Bool := (p 0).getLsbD 20

def acnt (p : ParamSet) : ℕ := ((p 2).extractLsb' 0 16).toNat

def bcnt (p : ParamSet) : ℕ := ((p 2).extractLsb' 16 16).toNat

def srcBidx (p : ParamSet) : ℤ := ((p 4).extractLsb' 0 16).toInt

def dstBidx (p : ParamSet) : ℤ := ((p 4).extractLsb' 16 16).toInt

/-- The linked set, as a byte offset. -/
def link (p : ParamSet) : ℕ := ((p 5).extractLsb' 0 16).toNat

def ccnt (p : ParamSet) : ℕ := ((p 7).extractLsb' 0 16).toNat

/-! ## Transfers -/

/-- The rows copied on one event. -/
def rows (p : ParamSet) : List Row :=
  (List.range (if p.syncdim then p.bcnt else 1)).map fun i : ℕ =>
    { src := p 1 + BitVec.ofInt 32 (i * p.srcBidx)
      dst := p 3 + BitVec.ofInt 32 (i * p.dstBidx)
      len := p.acnt }

/-- No option but `SYNCDIM`, `STATIC`, `TCC` and `TCINTEN` is set, and there is
nothing left to be done after one event. -/
def OneShot (p : ParamSet) : Prop :=
  p 0 &&& ~~~0x0013F00C = 0 ∧ 0 < p.acnt ∧ p.ccnt = 1 ∧
    if p.syncdim then 0 < p.bcnt else p.bcnt = 1

instance (p : ParamSet) : Decidable p.OneShot := by
  unfold OneShot
  infer_instance

/-- What is done on one event. -/
def events (p : ParamSet) : List Event :=
  p.rows.map .row ++ if p.tcinten then [.complete p.tcc] else []

end ParamSet

/-! ## The controller -/

/-- Parameter sets, the registers of the quick channels, the channels which
have an event, and what has been done so far. -/
structure Controller where
  param : ℕ → ParamSet
  qchmap : ℕ → Word
  qeer : ℕ → Bool
  pending : List ℕ
  trace : List Event

namespace Controller

/-- The parameter set of a quick channel. -/
def paEntry (s : Controller) (ch : ℕ) : ℕ :=
  ((s.qchmap ch).extractLsb' 5 9).toNat

/-- The trigger word of a quick channel. -/
def trWord (s : Controller) (ch : ℕ) : ℕ :=
  ((s.qchmap ch).extractLsb' 2 3).toNat

/-- The channels which get an event when a word of a set is written. -/
def triggered (s : Controller) (entry : ℕ) (word : Fin 8) : List ℕ :=
  (List.range 8).filter fun ch =>
    s.qeer ch ∧ s.paEntry ch = entry ∧ s.trWord ch = word

def writeParam (s : Controller) (entry : ℕ) (word : Fin 8) (v : Word) :
    Controller :=
  { s with
    param := Function.update s.param entry
      (Function.update (s.param entry) word v)
    pending := s.pending ++ s.triggered entry word }

/-- Write all words of a set, the last one at the end. -/
def load (s : Controller) (entry : ℕ) (p : ParamSet) : Controller :=
  (List.finRange 8).foldl (fun s i => s.writeParam entry i (p i)) s

/-- The set to which a set is linked; there is an empty one at the end. -/
def linked (s : Controller) (p : ParamSet) : ParamSet :=
  if p.link = 0xFFFF then fun _ => 0 else s.param (p.link / 32)

/-- Serve the first event. -/
def service (s : Controller) : Option Controller :=
  match s.pending with
  | [] => none
  | ch :: rest =>
      let p := s.param (s.paEntry ch)
      if p.OneShot then
        let served : Controller :=
          { s with pending := rest, trace := s.trace ++ p.events }
        if p.static then some served
        else some (served.load (s.paEntry ch) (s.linked p))
      else none

/-- All events are served, one after the other. -/
def Finishes (s t : Controller) : Prop :=
  Relation.ReflTransGen (fun s t => s.service = some t) s t ∧ t.pending = []

variable {s t u : Controller} {entry ch e : ℕ} {p q : ParamSet}

theorem service_of_pending_nil (h : s.pending = []) : s.service = none := by
  unfold service
  rw [h]

theorem Finishes.unique (ht : s.Finishes t) (hu : s.Finishes u) : t = u := by
  have hfun : Relator.RightUnique
      (fun s t : Controller => s.service = some t) :=
    fun _ _ _ h h' => Option.some.inj (h.symm.trans h')
  have hstop : ∀ {a b : Controller}, a.pending = [] →
      Relation.ReflTransGen (fun s t => s.service = some t) a b → a = b := by
    intro a b ha hab
    obtain rfl | ⟨c, hc, -⟩ := hab.cases_head
    · rfl
    · rw [service_of_pending_nil ha] at hc
      cases hc
  obtain htu | hut := Relation.ReflTransGen.total_of_right_unique hfun ht.1 hu.1
  · exact hstop ht.2 htu
  · exact (hstop hu.2 hut).symm

/-! ## Loading a set -/

/-- Which events there are when some words of a set are written. -/
theorem foldl_writeParam (s : Controller) (entry : ℕ) (p : ParamSet)
    (words : List (Fin 8)) :
    words.foldl (fun s i => s.writeParam entry i (p i)) s =
      { s with
        param := Function.update s.param entry
          (words.foldl (fun q i => Function.update q i (p i)) (s.param entry))
        pending := s.pending ++ words.flatMap (s.triggered entry) } := by
  induction words generalizing s with
  | nil => simp
  | cons i words ih =>
      rw [List.foldl_cons, ih]
      have htrig : (s.writeParam entry i (p i)).triggered entry =
          s.triggered entry := rfl
      rw [htrig]
      simp only [writeParam, Function.update_self, Function.update_idem,
        List.foldl_cons, List.flatMap_cons, List.append_assoc]

theorem load_eq (s : Controller) (entry : ℕ) (p : ParamSet) :
    s.load entry p =
      { s with
        param := Function.update s.param entry p
        pending := s.pending ++
          (List.finRange 8).flatMap (s.triggered entry) } := by
  have hall : ∀ q : ParamSet, (List.finRange 8).foldl
      (fun q i => Function.update q i (p i)) q = p := by
    intro q
    funext i
    fin_cases i <;> rfl
  rw [load, foldl_writeParam, hall]

/-! ## Chains -/

/-- Sets that are linked one after the other, the last one being static.  All
but the first one lie outside of the channel's own entry. -/
def Chain (s : Controller) (home : ℕ) : ParamSet → List (ℕ × ParamSet) → Prop
  | p, [] => p.OneShot ∧ p.static = true
  | p, (e, q) :: rest =>
      p.OneShot ∧ p.static = false ∧ p.link = 32 * e ∧ e ≠ home ∧
        s.param e = q ∧ Chain s home q rest

/-- A chain does not depend on the channel's own entry. -/
theorem Chain.congr {home : ℕ} {rest : List (ℕ × ParamSet)}
    (h : s.Chain home p rest) (hst : ∀ e ≠ home, t.param e = s.param e) :
    t.Chain home p rest := by
  induction rest generalizing p with
  | nil => exact h
  | cons eq rest ih =>
      obtain ⟨hone, hstatic, hlink, hne, hparam, hrest⟩ := h
      exact ⟨hone, hstatic, hlink, hne, (hst _ hne).trans hparam, ih hrest⟩

/-- Loading the set of a channel gives it one event. -/
def Retriggers (s : Controller) (ch : ℕ) : Prop :=
  (List.finRange 8).flatMap (s.triggered (s.paEntry ch)) = [ch]

/-- A chain is worked off from one event of its channel. -/
theorem Chain.finishes {home : ℕ} {rest : List (ℕ × ParamSet)}
    (h : s.Chain home p rest) (hhome : s.paEntry ch = home)
    (hp : s.param home = p) (hpending : s.pending = [ch])
    (htrig : s.Retriggers ch) :
    ∃ t, s.Finishes t ∧
      t.trace = s.trace ++ (p :: rest.map Prod.snd).flatMap ParamSet.events ∧
      ∀ e ≠ home, t.param e = s.param e := by
  subst hhome
  induction rest generalizing s p with
  | nil =>
      obtain ⟨hone, hstatic⟩ := h
      refine ⟨{ s with pending := [], trace := s.trace ++ p.events },
        ⟨Relation.ReflTransGen.single ?_, rfl⟩, by simp, fun _ _ => rfl⟩
      simp only [service, hpending, hp]
      rw [if_pos hone, if_pos hstatic]
  | cons eq rest ih =>
      obtain ⟨e, q⟩ := eq
      obtain ⟨hone, hstatic, hlink, hne, hparam, hrest⟩ := h
      -- the linked set takes the place of the one that is done
      let next : Controller :=
        { s with
          param := Function.update s.param (s.paEntry ch) q
          pending := [ch]
          trace := s.trace ++ p.events }
      have hlinked : s.linked p = q := by
        rw [linked, hlink, if_neg (by omega),
          Nat.mul_div_cancel_left _ (by decide), hparam]
      have hserve : s.service = some next := by
        simp only [service, hpending, hp]
        rw [if_pos hone, if_neg (by rw [hstatic]; decide), hlinked, load_eq]
        exact congrArg (fun l => some { next with pending := l }) htrig
      have hframe : ∀ e ≠ s.paEntry ch, next.param e = s.param e :=
        fun e he => Function.update_of_ne he _ _
      obtain ⟨t, ⟨hrun, hidle⟩, htrace, hparam'⟩ :=
        ih (s := next) (p := q) rfl htrig (hrest.congr hframe)
          (Function.update_self _ _ _)
      refine ⟨t, ⟨.head hserve hrun, hidle⟩, ?_, ?_⟩
      · rw [htrace]
        simp [next, List.append_assoc]
      · intro e he
        rw [hparam' e he, hframe e he]

end Controller

end Edma
