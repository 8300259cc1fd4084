import C64Tools.Overlay.Components
import C64Tools.Library.Transition
import Mathlib.Data.List.TakeWhile
import Mathlib.Data.Nat.Digits.Defs
import Mathlib.Data.UInt

/-!
# Lookups of components by name

Every call of `dsp_component_id_find_by_name` writes the name to the start of
the scratch area in the L1SRAM, which all clients share, and then has the DSP
look for it.  A lookup with a reference belongs to a fastcall sequence of the
client; one without is a message of its own, for which the DSP has to be free
when it is sent.

The name is written byte by byte.  A lookup is one step of the DSP.
-/

namespace C64Tools.Overlay

open Transition

/-! ## Names -/

/-- `MLB_MAX_COMPONENT_NAME_LENGTH`. -/
abbrev mlbMaxComponentNameLength : ℕ := 24

/-- The start of the scratch area. -/
abbrev Buffer := Fin mlbMaxComponentNameLength → UInt8

/-- What `strncpy` writes: the name up to its end, and zeros. -/
def strncpy (name : List UInt8) : Buffer :=
  fun k => (name.takeWhile (· ≠ 0)).getD k 0

/-- `strncmp` finds no difference. -/
def strncmp : List UInt8 → List UInt8 → Bool
  | a :: as, b :: bs =>
      if a = b then if a = 0 then true else strncmp as bs else false
  | _, _ => true

/-- The number that stands for the name in a buffer: its bytes are the
digits. -/
def nameOf (b : Buffer) : ℕ :=
  Nat.ofDigits 256 (((List.ofFn b).takeWhile (· ≠ 0)).map UInt8.toNat)

theorem strncmp_iff {as bs : List UInt8} (h : as.length = bs.length) :
    strncmp as bs = true ↔
      as.takeWhile (· ≠ 0) = bs.takeWhile (· ≠ 0) := by
  induction as generalizing bs with
  | nil =>
      obtain rfl := List.length_eq_zero_iff.mp h.symm
      exact iff_of_true rfl rfl
  | cons a as ih =>
      cases bs with
      | nil => cases h
      | cons b bs =>
          have ih := ih (Nat.succ.inj h)
          by_cases hab : a = b
          · subst hab
            by_cases ha : a = 0
            · simp [strncmp, ha]
            · simpa [strncmp, ha] using ih
          · simp only [strncmp, hab, if_false, Bool.false_eq_true, false_iff]
            intro htake
            by_cases ha : a = 0
            · by_cases hb : b = 0
              · exact hab (ha.trans hb.symm)
              · simp [ha, hb] at htake
            · by_cases hb : b = 0
              · simp [ha, hb] at htake
              · simp [ha, hb] at htake
                exact hab htake.1

theorem digits_of_name (l : List UInt8) :
    Nat.digits 256 (Nat.ofDigits 256
      ((l.takeWhile (· ≠ 0)).map UInt8.toNat)) =
        (l.takeWhile (· ≠ 0)).map UInt8.toNat := by
  refine Nat.digits_ofDigits 256 (by decide) _ ?_ ?_
  · intro d hd
    obtain ⟨x, -, rfl⟩ := List.mem_map.mp hd
    exact x.toNat_lt
  · intro hne h0
    obtain ⟨x, hx, hx0⟩ := List.mem_map.mp
      (h0 ▸ List.getLast_mem hne)
    have hne0 := List.mem_takeWhile_imp hx
    simp only [decide_eq_true_eq] at hne0
    exact hne0 (UInt8.toNat_inj.mp hx0)

/-- Two names have the same number if `strncmp` takes them for the same. -/
theorem nameOf_eq_iff (a b : Buffer) :
    nameOf a = nameOf b ↔
      strncmp (List.ofFn a) (List.ofFn b) = true := by
  rw [strncmp_iff (by simp)]
  constructor
  · intro h
    have hdigits := congrArg (Nat.digits 256) h
    unfold nameOf at hdigits
    rw [digits_of_name, digits_of_name] at hdigits
    exact List.map_injective_iff.mpr
      (fun x y hxy => UInt8.toNat_inj.mp hxy) hdigits
  · intro h
    unfold nameOf
    rw [h]

/-! ## Clients -/

/-- A lookup that the DSP has made for a client: the name that was passed in,
the table then, the component that it took a reference to, and its answer. -/
structure Answer where
  name : List UInt8
  table : Table
  taken : Option Found
  result : Option ℕ

/-- Where a client is in `dsp_component_id_find_by_name`. -/
inductive LookupPc where
  | outside
  | copying (name : List UInt8) (incRef : Bool) (k : ℕ)
  | waiting (name : List UInt8) (incRef : Bool)
  | answered (incRef : Bool) (a : Answer)

/-- The shared memory and the registry, the client that the DSP is serving,
whether in a fastcall sequence, and the calls that have returned. -/
structure Lookups (ι : Type*) where
  buffer : Buffer
  table : Table
  pc : ι → LookupPc
  owner : Option ι
  sequence : Bool
  made : List Answer
  returned : List Answer

/-- What happens next.  `registry` stands for all other commands to the
registry. -/
inductive LookupEvent (ι : Type*) where
  | initiate (i : ι)
  | call (i : ι) (name : List UInt8) (incRef : Bool)
  | copy (i : ι)
  | send (i : ι)
  | giveUp (i : ι)
  | find (i : ι)
  | reply (i : ι)
  | finish (i : ι)
  | registry (t : Table)

/-- The answer to `CORE_CMD_COM_FIND`, and to `CORE_FC_CMD_COM_OVERLAY_FIND`:
the id and the section of the component that was found. -/
def comFind (t : Table) : Option Found → Option ℕ
  | some (.core id) => some id
  | some (.overlay i) =>
      some ((t i).componentId + (t i).overlaySectionIdx * 2 ^ 16)
  | none => none

/-- `loc_component_find_by_name`, with the reference count. -/
def findWithRef (found : Option Found) (incRef : Bool) (t : Table) : Table :=
  match found with
  | some (.overlay i) => if incRef then Overlay.incRef i t else t
  | _ => t

variable {ι : Type*} [DecidableEq ι]

namespace Lookups

/-- No client has called yet. -/
def initial (ι : Type*) : Lookups ι where
  buffer := fun _ => 0
  table := fun _ => Component.unused
  pc := fun _ => .outside
  owner := none
  sequence := false
  made := []
  returned := []

def goTo (i : ι) (pc : LookupPc) (s : Lookups ι) : Lookups ι :=
  { s with pc := Function.update s.pc i pc }

end Lookups

/-- The DSP looks for the name in the buffer, on behalf of a client. -/
def lookUp (core : ℕ → Option ℕ) (i : ι) (name : List UInt8) (incRef : Bool)
    (s : Lookups ι) : Lookups ι :=
  let found := locComponentFindByName core (nameOf s.buffer) s.table
  let a : Answer :=
    { name
      table := s.table
      taken := if incRef then found else none
      result := comFind s.table found }
  { s.goTo i (.answered incRef a) with
    table := findWithRef found incRef s.table
    made := s.made ++ [a] }

/-- The next state, unless the client has to wait. -/
def lookupNext (core : ℕ → Option ℕ) (s : Lookups ι) :
    LookupEvent ι → Option (Lookups ι)
  | .initiate i =>
      match s.pc i with
      | .outside =>
          if s.owner = none then
            some { s with owner := some i, sequence := true }
          else none
      | _ => none
  | .call i name incRef =>
      match s.pc i with
      | .outside =>
          if (s.owner = some i ∧ s.sequence = true) ↔ incRef = true then
            some (s.goTo i (.copying name incRef 0))
          else none
      | _ => none
  | .copy i =>
      match s.pc i with
      | .copying name incRef k =>
          if h : k < mlbMaxComponentNameLength then
            some { s.goTo i (.copying name incRef (k + 1)) with
              buffer := Function.update s.buffer ⟨k, h⟩
                (strncpy name ⟨k, h⟩) }
          else none
      | _ => none
  | .send i =>
      match s.pc i with
      | .copying name incRef k =>
          if k = mlbMaxComponentNameLength then
            if incRef then some (s.goTo i (.waiting name true))
            else if s.owner = none then
              some { s.goTo i (.waiting name false) with owner := some i }
            else none
          else none
      | _ => none
  | .giveUp i =>
      match s.pc i with
      | .copying _ _ k =>
          if k = mlbMaxComponentNameLength then some (s.goTo i .outside)
          else none
      | _ => none
  | .find i =>
      match s.pc i with
      | .waiting name incRef => some (lookUp core i name incRef s)
      | _ => none
  | .reply i =>
      match s.pc i with
      | .answered incRef a =>
          let s := { s.goTo i .outside with returned := s.returned ++ [a] }
          if incRef then some s else some { s with owner := none }
      | _ => none
  | .finish i =>
      match s.pc i with
      | .outside =>
          if s.owner = some i ∧ s.sequence = true then
            some { s with owner := none, sequence := false }
          else none
      | _ => none
  | .registry t => some { s with table := t }

/-- The clients and the DSP, in any order of their steps. -/
def lookupMachine (ι : Type*) [DecidableEq ι] (core : ℕ → Option ℕ) :
    Machine (Lookups ι) (LookupEvent ι) :=
  Machine.ofNext (Lookups.initial ι) (lookupNext core)

/-! ## Answers -/

/-- The answer is the DSP's for the name that was passed in, and a reference
was taken to a component of that name. -/
def Answer.IsFor (core : ℕ → Option ℕ) (a : Answer) : Prop :=
  a.result = comFind a.table
      (locComponentFindByName core (nameOf (strncpy a.name)) a.table) ∧
    ∀ found ∈ a.taken,
      match found with
      | .core id => core (nameOf (strncpy a.name)) = some id
      | .overlay i => (a.table i).componentId ≠ 0 ∧
          (a.table i).name = nameOf (strncpy a.name)

/-- Every call gets its own answer. -/
def Lookups.Answered (core : ℕ → Option ℕ) (s : Lookups ι) : Prop :=
  (∀ a ∈ s.made, a.IsFor core) ∧ ∀ a ∈ s.returned, a ∈ s.made

/-- The client relies on what it has written to the buffer. -/
def LookupPc.Relies : LookupPc → Prop
  | .copying _ _ k => 0 < k
  | .waiting _ _ => True
  | _ => False

/-- A name is written only while no other client relies on the buffer. -/
def BufferFree (s : Lookups ι) : LookupEvent ι → Prop
  | .copy i => ∀ j, j ≠ i → ¬ (s.pc j).Relies
  | _ => True

/-! ## Every run -/

/-- What a client has written to the buffer is there, and the answer that it
holds was made. -/
def LookupPc.Agrees (b : Buffer) (made : List Answer) : LookupPc → Prop
  | .outside => True
  | .copying name _ k => ∀ m : Fin mlbMaxComponentNameLength, m < k →
      b m = strncpy name m
  | .waiting name _ => b = strncpy name
  | .answered _ a => a ∈ made

/-- The clients agree with the buffer, and the answers are right. -/
structure Lookups.Faithful (core : ℕ → Option ℕ) (s : Lookups ι) : Prop where
  pcs : ∀ i, (s.pc i).Agrees s.buffer s.made
  made : ∀ a ∈ s.made, a.IsFor core
  returned : ∀ a ∈ s.returned, a ∈ s.made

variable {core : ℕ → Option ℕ} {s s' : Lookups ι} {i : ι} {pc : LookupPc}
  {b : Buffer} {made : List Answer}

theorem LookupPc.Agrees.mono {made' : List Answer}
    (h : pc.Agrees b made) (hsub : ∀ a ∈ made, a ∈ made') :
    pc.Agrees b made' := by
  cases pc with
  | answered incRef a => exact hsub a h
  | _ => exact h

/-- Who does not rely on the buffer does not mind its changes. -/
theorem LookupPc.Agrees.of_not_relies {b' : Buffer} (h : pc.Agrees b made)
    (hrelies : ¬ pc.Relies) : pc.Agrees b' made := by
  cases pc with
  | outside => trivial
  | copying name incRef k =>
      have hk : ¬ 0 < k := hrelies
      exact fun m hm => absurd hm (by omega)
  | waiting name incRef => exact absurd trivial hrelies
  | answered incRef a => exact h

theorem agrees_update {pcs : ι → LookupPc}
    (h : ∀ j, j ≠ i → (pcs j).Agrees b made) (hi : pc.Agrees b made) (j : ι) :
    (Function.update pcs i pc j).Agrees b made := by
  by_cases hj : j = i
  · subst hj
    rwa [Function.update_self]
  · rw [Function.update_of_ne hj]
    exact h j hj

/-- The DSP finds the name that is in the buffer. -/
theorem isFor_of_buffer {name : List UInt8} (hb : b = strncpy name)
    (t : Table) (incRef : Bool) :
    Answer.IsFor core
      { name
        table := t
        taken := if incRef then locComponentFindByName core (nameOf b) t
          else none
        result := comFind t (locComponentFindByName core (nameOf b) t) } := by
  subst hb
  refine ⟨rfl, fun found hfound => ?_⟩
  dsimp only at hfound
  split_ifs at hfound with hinc
  · have hfound : locComponentFindByName core (nameOf (strncpy name)) t =
        some found := hfound
    cases found with
    | core id => exact core_of_found hfound
    | overlay i =>
        exact ⟨componentId_of_found hfound, name_of_found hfound⟩
  · cases hfound

namespace Lookups.Faithful

omit [DecidableEq ι] in
theorem initial (core : ℕ → Option ℕ) :
    (Lookups.initial ι).Faithful core where
  pcs := fun _ => trivial
  made := fun _ h => by cases h
  returned := fun _ h => by cases h

/-- A client goes to where it agrees with the buffer. -/
theorem goTo (h : s.Faithful core) (hpc : pc.Agrees s.buffer s.made) :
    (s.goTo i pc).Faithful core where
  pcs := agrees_update (fun j _ => h.pcs j) hpc
  made := h.made
  returned := h.returned

omit [DecidableEq ι] in
/-- The fields that the invariant does not mention may change. -/
theorem frame (h : s.Faithful core) (table : Table) (owner : Option ι)
    (sequence : Bool) :
    Lookups.Faithful core { s with table, owner, sequence } :=
  ⟨h.pcs, h.made, h.returned⟩

theorem copy (h : s.Faithful core) {name : List UInt8} {incRef : Bool} {k : ℕ}
    (hi : s.pc i = .copying name incRef k)
    (hk : k < mlbMaxComponentNameLength)
    (hfree : ∀ j, j ≠ i → ¬ (s.pc j).Relies) :
    Lookups.Faithful core { s.goTo i (.copying name incRef (k + 1)) with
      buffer := Function.update s.buffer ⟨k, hk⟩
        (strncpy name ⟨k, hk⟩) } where
  pcs := by
    refine agrees_update (fun j hj => (h.pcs j).of_not_relies (hfree j hj)) ?_
    intro m hm
    have hold := h.pcs i
    rw [hi] at hold
    by_cases hmk : m = ⟨k, hk⟩
    · subst hmk
      exact Function.update_self ..
    · have hne : m.val ≠ k := fun heq => hmk (Fin.ext heq)
      exact (Function.update_of_ne hmk ..).trans (hold m (by omega))
  made := h.made
  returned := h.returned

theorem lookUp (h : s.Faithful core) {name : List UInt8} {incRef : Bool}
    (hi : s.pc i = .waiting name incRef) :
    (lookUp core i name incRef s).Faithful core := by
  have hbuffer := h.pcs i
  rw [hi] at hbuffer
  have hmono : ∀ a ∈ s.made, a ∈ (Overlay.lookUp core i name incRef s).made :=
    fun a ha => List.mem_append_left _ ha
  refine ⟨?_, ?_, fun a ha => hmono a (h.returned a ha)⟩
  · refine agrees_update (fun j _ => (h.pcs j).mono hmono) ?_
    exact List.mem_append_right _ (List.mem_singleton_self _)
  · intro a ha
    obtain ha | ha := List.mem_append.mp ha
    · exact h.made a ha
    · obtain rfl := List.mem_singleton.mp ha
      exact isFor_of_buffer hbuffer s.table incRef

theorem reply (h : s.Faithful core) {incRef : Bool} {a : Answer}
    (hi : s.pc i = .answered incRef a) :
    Lookups.Faithful core
      { s.goTo i .outside with returned := s.returned ++ [a] } where
  pcs := agrees_update (fun j _ => h.pcs j) trivial
  made := h.made
  returned := by
    have hmade := h.pcs i
    rw [hi] at hmade
    intro a' ha'
    obtain ha' | ha' := List.mem_append.mp ha'
    · exact h.returned a' ha'
    · obtain rfl := List.mem_singleton.mp ha'
      exact hmade

theorem step {e : LookupEvent ι} (h : s.Faithful core) (hok : BufferFree s e)
    (hnext : lookupNext core s e = some s') : s'.Faithful core := by
  cases e with
  | initiate i =>
      simp only [lookupNext] at hnext
      split at hnext
      · obtain ⟨-, ht⟩ := Option.ite_none_right_eq_some.mp hnext
        obtain rfl := Option.some.inj ht
        exact h.frame _ _ _
      · cases hnext
  | call i name incRef =>
      simp only [lookupNext] at hnext
      split at hnext
      · obtain ⟨-, ht⟩ := Option.ite_none_right_eq_some.mp hnext
        obtain rfl := Option.some.inj ht
        exact h.goTo fun m hm => absurd hm (Nat.not_lt_zero _)
      · cases hnext
  | copy i =>
      simp only [lookupNext] at hnext
      split at hnext
      next name incRef k hi =>
        split_ifs at hnext with hk
        obtain rfl := Option.some.inj hnext
        exact h.copy hi hk hok
      · cases hnext
  | send i =>
      simp only [lookupNext] at hnext
      split at hnext
      next name incRef k hi =>
        have hwritten := h.pcs i
        rw [hi] at hwritten
        split_ifs at hnext with hk hinc howner
        all_goals
          subst hk
          have hb : s.buffer = strncpy name :=
            funext fun m => hwritten m m.isLt
          obtain rfl := Option.some.inj hnext
        · exact h.goTo hb
        · have hgo : (s.goTo i (.waiting name false)).Faithful core :=
            h.goTo hb
          exact hgo.frame _ _ _
      · cases hnext
  | giveUp i =>
      simp only [lookupNext] at hnext
      split at hnext
      · obtain ⟨-, ht⟩ := Option.ite_none_right_eq_some.mp hnext
        obtain rfl := Option.some.inj ht
        exact h.goTo trivial
      · cases hnext
  | find i =>
      simp only [lookupNext] at hnext
      split at hnext
      next name incRef hi =>
        obtain rfl := Option.some.inj hnext
        exact h.lookUp hi
      · cases hnext
  | reply i =>
      simp only [lookupNext] at hnext
      split at hnext
      next incRef a hi =>
        have hreply := h.reply hi
        split_ifs at hnext
        all_goals obtain rfl := Option.some.inj hnext
        · exact hreply
        · exact hreply.frame _ _ _
      · cases hnext
  | finish i =>
      simp only [lookupNext] at hnext
      split at hnext
      · obtain ⟨-, ht⟩ := Option.ite_none_right_eq_some.mp hnext
        obtain rfl := Option.some.inj ht
        exact h.frame _ _ _
      · cases hnext
  | registry t =>
      obtain rfl := Option.some.inj hnext
      exact h.frame _ _ _

end Lookups.Faithful

theorem faithful_of_reachable
    (h : ((lookupMachine ι core).restrict BufferFree).Reachable s) :
    s.Faithful core := by
  refine Machine.Reachable.invariant ?_ ?_ h
  · rintro s rfl
    exact Lookups.Faithful.initial core
  · exact fun s e s' hs hstep => hs.step hstep.1 hstep.2

/-- If names are written only while the buffer is free, every call gets the
answer for its own name. -/
theorem answered_of_bufferFree (ι : Type*) [DecidableEq ι]
    (core : ℕ → Option ℕ) (s : Lookups ι)
    (h : ((lookupMachine ι core).restrict BufferFree).Reachable s) :
    s.Answered core :=
  ⟨(faithful_of_reachable h).made, (faithful_of_reachable h).returned⟩

/-! ## Two clients -/

/-- A table with the component "b". -/
def tableB : Table := fun i =>
  if i = 0 then ⟨nameOf (strncpy [98]), 16, 0, 1, true⟩ else Component.unused

/-- A client writes its name. -/
def writeName (i : Bool) : List (LookupEvent Bool) :=
  List.replicate mlbMaxComponentNameLength (.copy i)

instance (pc : LookupPc) : Decidable pc.Relies := by
  unfold LookupPc.Relies
  split <;> infer_instance

instance (s : Lookups Bool) (e : LookupEvent Bool) :
    Decidable (BufferFree s e) := by
  unfold BufferFree
  split <;> infer_instance

/-- One client looks for "b" with a reference, the other one for "a", one
after the other. -/
def separateRun : List (LookupEvent Bool) :=
  [.registry tableB, .initiate false, .call false [98] true,
    .call true [97] false] ++ writeName false ++
    [.send false, .find false, .reply false, .finish false] ++
    writeName true ++ [.send true, .find true, .reply true]

theorem separateRun_answered :
    ∃ s, ((lookupMachine Bool fun _ => none).restrict
        BufferFree).Reachable s ∧
      s.returned.map Answer.result = [some 16, none] ∧
      s.Answered fun _ => none := by
  have hrun : ∃ s, ((lookupMachine Bool fun _ => none).restrict
      BufferFree).Reachable s ∧
        s.returned.map Answer.result = [some 16, none] :=
    Machine.exists_restrict_reachable_of_run
      (fun s : Lookups Bool =>
        s.returned.map Answer.result = [some 16, none]) separateRun
      (by decide +kernel)
  obtain ⟨s, hs, hresults⟩ := hrun
  exact ⟨s, hs, hresults, answered_of_bufferFree Bool _ s hs⟩

/-- The name of a client is overwritten before the DSP looks for it, and the
client is told that "a" is the component "b". -/
theorem overwritten_name_not_answered :
    ∃ s, (lookupMachine Bool fun _ => none).Reachable s ∧
      ¬ s.Answered fun _ => none := by
  have hrun : ∃ s, (lookupMachine Bool fun _ => none).Reachable s ∧
      (s.returned.map fun a => (a.name, a.result,
        locComponentFindByName (fun _ => none) (nameOf (strncpy a.name))
          a.table)) = [([97], some 16, none)] :=
    Machine.exists_reachable_of_run
      (fun s : Lookups Bool => (s.returned.map fun a => (a.name, a.result,
        locComponentFindByName (fun _ => none) (nameOf (strncpy a.name))
          a.table)) = [([97], some 16, none)])
      ([.registry tableB, .call false [97] false, .call true [98] false] ++
        writeName false ++ writeName true ++
        [.send false, .find false, .reply false])
      (by decide +kernel)
  obtain ⟨s, hs, hreturned⟩ := hrun
  refine ⟨s, hs, fun h => ?_⟩
  obtain ⟨a, as, heq, ha, -⟩ := List.map_eq_cons_iff.mp hreturned
  simp only [Prod.mk.injEq] at ha
  obtain ⟨-, hresult, hfound⟩ := ha
  have hmade := h.2 a (heq ▸ List.mem_cons_self ..)
  have hfor := (h.1 a hmade).1
  rw [hfound, hresult] at hfor
  cases hfor

end C64Tools.Overlay
