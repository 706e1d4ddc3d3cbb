import Sandboxer.Lib.Routines
import Sandboxer.Resctl.Budget

/-! # The balloon controller and its environment

`World` is what the memory controller shares with its surroundings: the VMM's
balloon, `memory.high`, the reservation, the report and pressure queues. A
`vm.resize` whose answer is lost stays outstanding in the VMM and may take
effect later, at most once and in issue order. The log and the journal are
histories that no modelled code reads: of what was done to the balloon, to
`memory.high` and to the reservation, and of what authorized it. -/
namespace Sandboxer.Resctl

open Lib.Threads

structure Config where
  capacity : Nat
  headroom : Nat
  overhead : Nat
  ratio : Nat
  /-- a cgroup path is set -/
  cgroup : Bool
  /-- the VM has a balloon device -/
  balloon : Bool
  /-- a node controller owns the reservation -/
  node : Bool
  deriving Repr, DecidableEq

/-! ## The world -/

structure BalloonState where
  desiredTarget : Nat
  acceptedTarget : Nat
  acceptedTargetKnown : Bool
  currentBudget : Nat
  balloonCurrent : Nat
  balloonCurrentKnown : Bool
  deriving Repr, DecidableEq

/-- `BalloonState.ObservedBudget`. -/
def BalloonState.observedBudget (s : BalloonState) (capacity : Nat) : Option Nat :=
  if !s.acceptedTargetKnown || !s.balloonCurrentKnown then none
  else
    let targetBudget := budgetFromTarget capacity s.acceptedTarget
    some (if s.currentBudget > targetBudget then s.currentBudget else targetBudget)

/-- `balloonObservation`. -/
structure Observation where
  acceptedTarget : Nat
  currentBudget : Nat
  balloonCurrent : Nat
  deriving Repr, DecidableEq

/-- The Budget an observation stands for: the larger of both sides. -/
def Observation.budget (o : Observation) (capacity : Nat) : Nat :=
  max (budgetFromTarget capacity o.acceptedTarget) o.currentBudget

structure Vmm where
  /-- `config.balloon.size` -/
  accepted : Nat
  /-- `memory_actual_size` -/
  actual : Nat
  /-- resizes without an answer that may still take effect, oldest first -/
  outstanding : List Nat
  deriving Repr, DecidableEq

/-- The content of `memory.high`. -/
inductive High where
  | max
  | bytes (n : Nat)
  deriving Repr, DecidableEq

/-- The limit is no tighter than `n`. -/
def High.atLeast : High → Nat → Bool
  | .max, _ => true
  | .bytes m, n => decide (n ≤ m)

inductive Urgency where
  | unset
  | low
  | normal
  | high
  deriving Repr, DecidableEq

/-- `proto.MemReport`, as far as the policy reads it. -/
structure MemReport where
  epoch : Nat
  seq : Nat
  memAvailableBytes : Nat
  deriving Repr, DecidableEq

structure PressureGrow where
  urgency : Urgency
  reason : String
  deriving Repr, DecidableEq

/-- What the history records. -/
inductive Event where
  /-- a valid `vm.info` answer -/
  | observed (o : Observation)
  /-- `memory.high` was enforced for a Budget, with the charge read then -/
  | high (grow : Bool) (budget demand host : Nat)
  /-- `vm.resize` was issued, with what held at that moment -/
  | resize (target accepted reservation : Nat) (high : High)
  /-- the reservation was set, with `memory.high` at that moment -/
  | reserved (old new : Nat) (high : High)
  deriving Repr, DecidableEq

/-- What authorizes an inflating resize, in the order it happened. -/
inductive Note where
  /-- a guest report passed the barrier -/
  | accepted (r : MemReport)
  /-- a report was evaluated, with the Budget it asks for and whether it serves a growth -/
  | decided (r : MemReport) (requested : Nat) (grows : Bool)
  /-- a pressure signal was processed, at full Capacity or below it, with or
  without a shrink that changes the target -/
  | pressure (full shrinks : Bool)
  /-- the pressure floor was set -/
  | floor (budget : Nat)
  /-- a report asked for the pressure floor or more, so no low report counts any longer -/
  | unmarked
  /-- the mutation gate was taken -/
  | gate
  | observed (o : Observation)
  | resize (target accepted : Nat)
  /-- the target change of a shrink ended -/
  | finished
  /-- the target change of a growth ended -/
  | grown
  deriving Repr, DecidableEq

structure World where
  ch : Vmm
  high : High
  reservation : Nat
  connected : Bool
  clock : Int
  balloon : BalloonState
  reportsOpen : Bool
  reportEpoch : Nat
  reportSeq : Nat
  reportEvents : List MemReport
  pressureEvents : List PressureGrow
  log : List Event
  journal : List Note
  deriving Repr, DecidableEq

def World.note (n : Note) (s : World) : World := { s with journal := n :: s.journal }

/-! ## Failures -/

inductive Failure where
  | memory (e : MemoryError)
  | cancelled
  | vmInfoUnavailable
  | configMemoryMissing
  | balloonSizeMissing
  | memoryActualSizeMissing
  | memoryZonesInvalid
  | capacityMismatch (total capacity : Nat)
  | vmInfoTarget (e : MemoryError)
  | actualExceedsCapacity (actual capacity : Nat)
  | vmInfoCurrent (e : MemoryError)
  | vmResize
  | shrinkObservationChanged
  | shrinkDeferred (e : Failure)
  | retryDeferred (e : Failure)
  | retryFailed (target : Nat)
  | targetMismatch (resize : Except Failure Unit) (accepted desired : Nat)
  | unconfirmed (resize : Except Failure Unit) (pre : Option Failure) (post : Failure)
  | growWithoutBalloon (target : Nat)
  | shrinkWithoutBalloon (target : Nat)
  | restoreWithoutBalloon (target : Nat)
  | normalization (e : Failure)
  | growObjectiveOutside (objective capacity : Nat)
  | incompleteObservation
  | retryDesired (accepted desired : Nat)
  | invalidSettlementObservation
  | settlementChanged (reservation : Nat) (repair : Except Failure Unit)
  | shrinkCommit (reservation want : Nat)
  | highLock
  | memoryCurrent
  | readMemoryHigh
  | writeMemoryHigh
  | disconnected
  | transport
  | invalidBudgetResponse (current requested granted new capacity : Nat)
  | baselineExceedsStatic (current reservation : Nat)

/-! ## vm.info and vm.resize -/

/-- The fields of a decoded `vm.info` answer. The total of the memory zones is
an error when their sizes do not add up. -/
structure VmInfo where
  memoryActualSize : Option Nat
  memoryTotal : Option (Except Unit Nat)
  balloonSize : Option Nat

/-- The VMM answers with its own values, may omit any, or does not answer. -/
def Vmm.Answers (ch : Vmm) : Option VmInfo → Prop
  | none => True
  | some i => (∀ t, i.balloonSize = some t → t = ch.accepted) ∧
      ∀ a, i.memoryActualSize = some a → a = ch.actual

def readMemoryObservation (capacity : Nat) : Option VmInfo → Except Failure Observation
  | none => .error .vmInfoUnavailable
  | some info =>
    match info.memoryTotal, info.balloonSize, info.memoryActualSize with
    | none, _, _ => .error .configMemoryMissing
    | _, none, _ => .error .balloonSizeMissing
    | _, _, none => .error .memoryActualSizeMissing
    | some (.error _), _, _ => .error .memoryZonesInvalid
    | some (.ok total), some target, some currentBudget =>
      if total ≠ capacity then .error (.capacityMismatch total capacity)
      else match validateBalloonSize total target with
        | .error e => .error (.vmInfoTarget e)
        | .ok () =>
          if currentBudget > total then .error (.actualExceedsCapacity currentBudget total)
          else
            let balloonCurrent := (saturatingSub total currentBudget).1
            match validateBalloonSize total balloonCurrent with
            | .error e => .error (.vmInfoCurrent e)
            | .ok () => .ok ⟨target, currentBudget, balloonCurrent⟩

def BalloonState.commitObservation (b : BalloonState) (o : Observation) : BalloonState :=
  { b with
    acceptedTarget := o.acceptedTarget, acceptedTargetKnown := true
    currentBudget := o.currentBudget, balloonCurrent := o.balloonCurrent
    balloonCurrentKnown := true }

def World.commitObservation (s : World) (o : Observation) : World :=
  { s with
    balloon := s.balloon.commitObservation o
    log := .observed o :: s.log, journal := .observed o :: s.journal }

variable (cfg : Config)

/-- `BalloonController.Observe`, one exchange under `apiMu`. -/
def observe : Section World (Except Failure BalloonState) := fun s r s' =>
  ∃ answer, s.ch.Answers answer ∧ match readMemoryObservation cfg.capacity answer with
    | .ok o => r = .ok (s.balloon.commitObservation o) ∧ s' = s.commitObservation o
    | .error e => r = .error e ∧ s' = s

/-- How a resize ends for its caller and in the VMM. -/
inductive ResizeOutcome where
  /-- answered: it has taken effect -/
  | accepted
  /-- it never takes effect -/
  | refused
  /-- no answer: it may still take effect -/
  | lost
  deriving Repr, DecidableEq

/-- Effects come in issue order, so a resize that takes effect ends every
earlier one. -/
def Vmm.resize (ch : Vmm) (target : Nat) : ResizeOutcome → Vmm
  | .accepted => { ch with accepted := target, outstanding := [] }
  | .refused => ch
  | .lost => { ch with outstanding := ch.outstanding ++ [target] }

def ResizeOutcome.result : ResizeOutcome → Except Failure Unit
  | .accepted => .ok ()
  | .refused | .lost => .error .vmResize

def World.issueResize (s : World) (target : Nat) (outcome : ResizeOutcome) : World :=
  { s with
    ch := s.ch.resize target outcome
    log := .resize target s.ch.accepted s.reservation s.high :: s.log
    journal := .resize target s.ch.accepted :: s.journal }

/-- `callResize`. The environment lets the request happen only if `may`
holds of the VMM. -/
def callResize (may : Vmm → Prop) (target : Nat) : Section World (Except Failure Unit) :=
  fun s r s' => may s.ch ∧ ∃ outcome : ResizeOutcome, r = outcome.result ∧
    s' = s.issueResize target outcome

def World.setDesired (s : World) (target : Nat) : World :=
  { s with balloon := { s.balloon with desiredTarget := target } }

def World.setAcceptedTarget (s : World) (target : Nat) : World :=
  { s with balloon := { s.balloon with acceptedTarget := target, acceptedTargetKnown := true } }

def setDesiredTarget (target : Nat) : Prog World (Except Failure Unit) :=
  match validateBalloonSize cfg.capacity target with
  | .error e => pure (.error (.memory e))
  | .ok () => do
    Prog.change (·.setDesired target)
    pure (.ok ())

/-! ## Applying a target -/

/-- The decision sample of a shrink is checked again right before the inflate. -/
def recheckShrink (shrinkObservation : Option BalloonState) (state : BalloonState)
    (desired : Nat) : Except Failure Unit :=
  match shrinkObservation with
  | none => .ok ()
  | some observed =>
    if !observed.acceptedTargetKnown || !observed.balloonCurrentKnown ||
        decide (state.acceptedTarget ≠ observed.acceptedTarget) ||
        decide (state.currentBudget > observed.currentBudget) then
      .error .shrinkObservationChanged
    else if desired ≤ state.acceptedTarget ∨
        desired > shrinkTargetLimit cfg.capacity state.acceptedTarget state.currentBudget then
      .error .shrinkObservationChanged
    else .ok ()

/-- The result of the confirming observation after a resize. -/
def confirmResize (desired : Nat) (pre : Option Failure)
    (resized : Except Failure Unit) : Prog World (BalloonState × Except Failure Unit) := do
  match ← Prog.atomic (observe cfg) with
  | .ok state =>
    if state.acceptedTarget = desired then pure (state, .ok ())
    else pure (state, .error (.targetMismatch resized state.acceptedTarget desired))
  | .error post =>
    let state ← Prog.look (·.balloon)
    pure (state, .error (.unconfirmed resized pre post))

def resizeAndConfirm (desired : Nat) (pre : Option Failure) :
    Prog World (BalloonState × Except Failure Unit) := do
  match ← Prog.atomic (callResize (fun _ => True) desired) with
  | .ok () =>
    Prog.change (·.setAcceptedTarget desired)
    confirmResize cfg desired pre (.ok ())
  | .error e => confirmResize cfg desired pre (.error e)

def applyDesiredHeldMode (shrinkObservation : Option BalloonState) :
    Prog World (BalloonState × Except Failure Unit) := do
  let start ← Prog.look (·.balloon)
  let desired := start.desiredTarget
  match validateBalloonSize cfg.capacity desired with
  | .error e => pure (start, .error (.memory e))
  | .ok () =>
    match ← Prog.atomic (observe cfg) with
    | .ok state =>
      if state.acceptedTarget = desired then pure (state, .ok ())
      else
        match recheckShrink cfg shrinkObservation state desired with
        | .error e => pure (state, .error e)
        | .ok () => resizeAndConfirm cfg desired none
    | .error e =>
      match shrinkObservation with
      | some _ =>
        let state ← Prog.look (·.balloon)
        pure (state, .error (.shrinkDeferred e))
      | none => resizeAndConfirm cfg desired (some e)

def applyDesiredHeld : Prog World (BalloonState × Except Failure Unit) :=
  applyDesiredHeldMode cfg none

def applyShrinkDesiredHeld (observed : BalloonState) :
    Prog World (BalloonState × Except Failure Unit) :=
  applyDesiredHeldMode cfg (some observed)

/-- When the environment lets a stalled target be notified again. -/
abbrev Renotify : Type := Vmm → Nat → Prop

def retryAcceptedTargetHeld (may : Renotify) (observed : BalloonState)
    (stillCurrent : World → Bool) : Prog World (BalloonState × Except Failure Unit) := do
  match ← Prog.atomic (observe cfg) with
  | .error e =>
    let state ← Prog.look (·.balloon)
    pure (state, .error (.retryDeferred e))
  | .ok state =>
    let current ← Prog.look stillCurrent
    if !observed.acceptedTargetKnown || !observed.balloonCurrentKnown ||
        decide (state.desiredTarget ≠ state.acceptedTarget) ||
        decide (state.acceptedTarget ≠ observed.acceptedTarget) ||
        decide (state.balloonCurrent ≠ observed.balloonCurrent) ||
        decide (state.balloonCurrent ≥ state.acceptedTarget) || !current then
      pure (state, .ok ())
    else
      match ← Prog.atomic (callResize (may · state.acceptedTarget) state.acceptedTarget) with
      | .error _ => pure (state, .error (.retryFailed state.acceptedTarget))
      | .ok () => pure (state, .ok ())

end Sandboxer.Resctl
