import Mathlib.Logic.Function.Basic
import Mathlib.Logic.Relation

/-! # Coalesced store writes

`deduplicatingStoreWriter.Put` (`artifact/publish.go`): the first call for an object leads a
flight and makes the inner Put; a call that finds a flight waits for its outcome or for its
own context. A flight is named by the call that leads it. The critical sections of `mu`,
the return of the inner Put, the branches of `select` and the cancellation of a context
interleave in any order. -/
namespace Sandboxer.Artifact.Flights

open Function (update)

/-- `publishStoreObject` -/
structure StoreObject (γ π κ : Type) where
  generation : γ
  partition : π
  key : κ
  deriving DecidableEq

structure Result (ε : Type) where
  isNew : Bool
  err : Option ε

inductive Phase (ε : Type) where
  | idle
  | waiting
  | putting
  /-- The inner Put has returned. -/
  | put
  /-- The flight is out of the table and `done` is closed. -/
  | landed
  | returned (r : Result ε)

structure State (ι ο ε : Type) where
  phase : ι → Phase ε
  flights : ο → Option ι
  /-- The flight a call leads or waits for. -/
  flight : ι → Option ι
  /-- `flight.isNew` and `flight.err` -/
  result : ι → Option (Result ε)
  done : ι → Bool
  cancelled : ι → Bool
  /-- The context of the inner Put was cancelled when it returned. -/
  orphaned : ι → Bool
  /-- The inner Put of its flight had returned when the call began. -/
  late : ι → Bool

variable {ι ο ε : Type}

def State.start : State ι ο ε :=
  ⟨fun _ => .idle, fun _ => none, fun _ => none, fun _ => none, fun _ => false, fun _ => false,
    fun _ => false, fun _ => false⟩

section Step

variable [DecidableEq ι] [DecidableEq ο] (object : ι → ο) (ctxErr : ι → ε)

inductive Step (s : State ι ο ε) : State ι ο ε → Prop where
  | lead (c) (hc : s.phase c = .idle) (hf : s.flights (object c) = none) : Step s { s with
      phase := update s.phase c .putting
      flights := update s.flights (object c) (some c)
      flight := update s.flight c (some c) }
  | follow (c l) (hc : s.phase c = .idle) (hf : s.flights (object c) = some l) : Step s { s with
      phase := update s.phase c .waiting
      flight := update s.flight c (some l)
      late := update s.late c (s.result l).isSome }
  | inner (c r) (hc : s.phase c = .putting) : Step s { s with
      phase := update s.phase c .put
      result := update s.result c (some r)
      orphaned := update s.orphaned c (s.cancelled c) }
  | land (c) (hc : s.phase c = .put) : Step s { s with
      phase := update s.phase c .landed
      flights := update s.flights (object c) none
      done := update s.done c true }
  | lands (c r) (hc : s.phase c = .landed) (hr : s.result c = some r) :
      Step s { s with phase := update s.phase c (.returned r) }
  | joins (c l r) (hc : s.phase c = .waiting) (hl : s.flight c = some l) (hd : s.done l = true)
      (hr : s.result l = some r) :
        Step s { s with phase := update s.phase c (.returned ⟨false, r.err⟩) }
  | leaves (c) (hc : s.phase c = .waiting) (hx : s.cancelled c = true) :
      Step s { s with phase := update s.phase c (.returned ⟨false, some (ctxErr c)⟩) }
  | cancel (c) : Step s { s with cancelled := update s.cancelled c true }

/-- The states that calls reach in some order of their steps. -/
abbrev Run : State ι ο ε → Prop := Relation.ReflTransGen (Step object ctxErr) .start

end Step

/-! ## What every run keeps -/

structure Sound (object : ι → ο) (s : State ι ο ε) : Prop where
  table : ∀ o l, s.flights o = some l → object l = o ∧ (s.phase l = .putting ∨ s.phase l = .put)
  listed : ∀ c, s.phase c = .putting ∨ s.phase c = .put → s.flights (object c) = some c
  pending : ∀ c, s.phase c = .idle ∨ s.phase c = .putting → s.result c = none
  flight : ∀ c l, s.flight c = some l → object l = object c
  leads : ∀ c, s.phase c = .putting ∨ s.phase c = .put ∨ s.phase c = .landed → s.flight c = some c
  waits : ∀ c, s.phase c = .waiting → ∃ l, s.flight c = some l
  returned : ∀ c r, s.phase c = .returned r → ∃ l, s.flight c = some l ∧ (r.isNew = true → l = c) ∧
    ((∃ r', s.result l = some r' ∧ r'.err = r.err) ∨ r.err ≠ none ∧ s.cancelled c = true)

variable [DecidableEq ι] [DecidableEq ο] {object : ι → ο} {ctxErr : ι → ε} {s s' : State ι ο ε}

theorem Sound.step (h : Sound object s) (hs : Step object ctxErr s s') : Sound object s' where
  table := by
    have htable := h.table
    cases hs
    all_goals grind
  listed := by
    have hlisted := h.listed
    cases hs
    all_goals grind
  pending := by
    have hpending := h.pending
    cases hs
    all_goals grind
  flight := by
    have hflight := h.flight
    have htable := h.table
    cases hs
    all_goals grind
  leads := by
    have hleads := h.leads
    cases hs
    all_goals grind
  waits := by
    have hwaits := h.waits
    cases hs
    all_goals grind
  returned := by
    have hreturned := h.returned
    have hpending := h.pending
    have hleads := h.leads
    have hwaits := h.waits
    cases hs
    all_goals grind

theorem Run.sound (h : Run object ctxErr s) : Sound object s := by
  induction h with
  | refl =>
    unfold State.start
    constructor
    all_goals grind
  | tail _ hs ih => exact ih.step hs

/-! ## No call is stranded -/

/-- A call that waits does so for a leader that is still on its way, or can return. -/
structure Served (s : State ι ο ε) : Prop where
  put : ∀ l, s.phase l = .put → s.result l ≠ none
  waits : ∀ c, s.phase c = .waiting → ∃ l, s.flight c = some l ∧
    (s.phase l = .putting ∨ s.phase l = .put ∨ s.done l = true ∧ s.result l ≠ none)

theorem Served.step (h : Served s) (ho : Sound object s) (hs : Step object ctxErr s s') :
    Served s' where
  put := by
    have hput := h.put
    cases hs
    all_goals grind
  waits := by
    have hput := h.put
    have hwaits := h.waits
    have htable := ho.table
    cases hs
    all_goals grind

/-- No call waits for a flight that nobody leads any more. -/
theorem run_serves (h : Run object ctxErr s) : Served s := by
  induction h with
  | refl => exact ⟨nofun, nofun⟩
  | tail h hs ih => exact ih.step (Run.sound h) hs

/-! ## Serial behaviour -/

/-- Calls behave as if one followed another. -/
structure Serial (object : ι → ο) (s : State ι ο ε) : Prop where
  /-- One inner Put for an object at a time. -/
  single : ∀ c d, object c = object d → s.phase c = .putting → s.phase d = .putting → c = d
  /-- A call succeeds with an inner Put of its object that succeeded since the call began. -/
  succeeded : ∀ c r, s.phase c = .returned r → r.err = none →
    ∃ l r', object l = object c ∧ s.flight c = some l ∧ s.late c = false ∧ s.result l = some r' ∧
      r'.err = none
  one_new : ∀ c d r r', s.flight c = s.flight d → s.phase c = .returned r →
    s.phase d = .returned r' →
    r.isNew = true → r'.isNew = true → c = d
  /-- No flight outlives its leader. -/
  leads : ∀ o l r, s.flights o = some l → s.phase l ≠ .returned r
  /-- A call with a live context fails with an inner Put for a live context. -/
  failed : ∀ c r, s.phase c = .returned r → r.err ≠ none → s.cancelled c = false →
    ∃ l r', s.flight c = some l ∧ s.result l = some r' ∧ r'.err = r.err ∧ s.orphaned l = false

variable {γ π κ : Type} [DecidableEq γ] [DecidableEq π] [DecidableEq κ]

/-- Put calls are serial while no call joins a flight whose inner Put has returned, and no
inner Put fails with its own context cancelled. -/
theorem puts_serial {object : ι → StoreObject γ π κ} {s : State ι (StoreObject γ π κ) ε}
    (h : Run object ctxErr s)
    (hlate : ∀ c, s.late c = false) (hlive : ∀ l r, s.result l = some r → r.err ≠ none →
      s.orphaned l = false) :
    Serial object s where
  single := fun c d ho hc hd => by
    have hlisted := h.sound.listed c (.inl hc)
    rw [ho, h.sound.listed d (.inl hd)] at hlisted
    exact (Option.some.inj hlisted).symm
  succeeded := fun c r hc hr => by
    obtain ⟨l, hl, -, ⟨r', hr', he⟩ | ⟨he, -⟩⟩ := h.sound.returned c r hc
    · exact ⟨l, r', h.sound.flight c l hl, hl, hlate c, hr', he.trans hr⟩
    · exact absurd hr he
  one_new := fun c d r r' hf hc hd hr hr' => by
    obtain ⟨l, hl, hnew, -⟩ := h.sound.returned c r hc
    obtain ⟨l', hl', hnew', -⟩ := h.sound.returned d r' hd
    rw [hnew hr] at hl
    rw [hnew' hr', ← hf, hl] at hl'
    exact Option.some.inj hl'
  leads := fun o l r hf => by
    obtain ⟨-, hl | hl⟩ := h.sound.table o l hf
    all_goals rw [hl]; nofun
  failed := fun c r hc hr hx => by
    obtain ⟨l, hl, -, ⟨r', hr', he⟩ | ⟨-, hcancelled⟩⟩ := h.sound.returned c r hc
    · exact ⟨l, r', hl, hr', he, hlive l r' hr' (he ▸ hr)⟩
    · exact absurd (hcancelled.symm.trans hx) nofun

/-- Two calls for one object. -/
abbrev pair : Bool → StoreObject Unit Unit Unit := fun _ => ⟨(), (), ()⟩

theorem puts_serial_pair : ∃ s : State Bool _ Unit, s.phase false = .returned ⟨false, none⟩ ∧
    Serial pair s := by
  have h : Run pair (fun _ => ()) _ := .tail (.tail (.tail (.tail (.tail .refl (.lead true rfl rfl))
    (.follow false true rfl rfl)) (.inner true ⟨true, none⟩ rfl)) (.land true rfl))
      (.joins false true _ rfl rfl rfl rfl)
  exact ⟨_, rfl, puts_serial h (by decide) (by decide)⟩

theorem run_serves_pair :
    ∃ s : State Bool (StoreObject Unit Unit Unit) Unit, s.phase false = .waiting ∧ Served s :=
  have h : Run pair (fun _ => ()) _ := .tail (.tail .refl (.lead true rfl rfl))
    (.follow false true rfl rfl)
  ⟨_, rfl, run_serves h⟩

/-- A call with a live context fails because the leader was cancelled; and a call succeeds
with an inner Put that had returned before it began. -/
theorem live_call_fails :
    (∃ s : State Bool _ Unit, Run pair (fun _ => ()) s ∧
      s.phase false = .returned ⟨false, some ()⟩ ∧
      s.cancelled false = false ∧ ∀ l, s.result l ≠ none → s.orphaned l = true) ∧
    ∃ s : State Bool _ Unit, Run pair (fun _ => ()) s ∧ s.phase false = .returned ⟨false, none⟩ ∧
      s.late false = true := by
  constructor
  · refine ⟨_,
      .tail (.tail
      (.tail (.tail (.tail (.tail .refl (.lead true rfl rfl)) (.follow false true rfl rfl))
      (.cancel true)) (.inner true ⟨false, some ()⟩ rfl)) (.land true rfl))
        (.joins false true _ rfl rfl rfl rfl), rfl, rfl, ?_⟩
    decide
  · exact ⟨_,
      .tail (.tail (.tail (.tail (.tail .refl (.lead true rfl rfl)) (.inner true ⟨true, none⟩ rfl))
      (.follow false true rfl rfl)) (.land true rfl)) (.joins false true _ rfl rfl rfl rfl), rfl,
        rfl⟩

end Sandboxer.Artifact.Flights
