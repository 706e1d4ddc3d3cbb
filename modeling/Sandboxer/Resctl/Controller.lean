import Sandboxer.Resctl.Balloon

/-! # The memory controller

The reserve, `memory.high` and resize transactions of the sandbox-local memory
controller, resumed by guest reports, pressure signals and ticks. The fields
only the worker touches (under `controlMu`) are the private state of its
routines; an error leaves them as they were when it was raised. -/
namespace Sandboxer.Resctl

open Lib.Threads

inductive TransactionKind where
  | grow
  | shrink
  deriving Repr, DecidableEq

structure MemoryTransaction where
  kind : TransactionKind
  objectiveBudget : Nat
  targetBudget : Nat
  target : Nat
  demand : Nat
  urgency : Urgency
  reason : String
  reportSeq : Nat
  targetChange : Bool
  reservationRetryAt : Option Int
  resizeAccepted : Bool
  highApplied : Bool
  shrinkObservation : BalloonState
  highBudget : Nat
  repairCurrentBudget : Nat
  deriving Repr, DecidableEq

structure BalloonStall where
  epoch : Nat
  seq : Nat
  target : Nat
  actual : Nat
  deriving Repr, DecidableEq

/-- `MemoryController`, the fields of the worker. -/
structure Controller where
  txn : Option MemoryTransaction
  targetBudget : Nat
  balloonTarget : Nat
  balloonCurrent : Nat
  normalizationPending : Bool
  normalizationTarget : Nat
  initialObservationPending : Bool
  lastDemand : Nat
  lastDemandKnown : Bool
  shrinkReportFence : Nat
  pressureFloor : Nat
  pressureLowSeq : Nat
  balloonStall : Option BalloonStall
  deriving Repr, DecidableEq

abbrev Ctl (α : Type) : Type 1 := Routine World Controller Failure α

def BalloonState.zero : BalloonState := ⟨0, 0, false, 0, 0, false⟩

/-- A transaction with the zero value in every field that is not given. -/
def MemoryTransaction.new (kind : TransactionKind) (demand : Nat) : MemoryTransaction :=
  { kind, demand, objectiveBudget := 0, targetBudget := 0, target := 0, urgency := .unset
    reason := "", reportSeq := 0, targetChange := false, reservationRetryAt := none
    resizeAccepted := false, highApplied := false, shrinkObservation := .zero
    highBudget := 0, repairCurrentBudget := 0 }

namespace MemoryTransaction

def growObjective (t : MemoryTransaction) : Nat :=
  if t.objectiveBudget ≠ 0 then t.objectiveBudget else t.targetBudget

def upgradeGrowCause (t : MemoryTransaction) (urgency : Urgency) (reason : String) :
    MemoryTransaction :=
  if t.urgency = .unset ∨ urgency = .high ∨ (t.urgency = .low ∧ urgency = .normal) then
    { t with
      reservationRetryAt := if t.urgency ≠ urgency then none else t.reservationRetryAt
      urgency, reason := if reason ≠ "" then reason else t.reason }
  else t

/-- Actual growth beyond what is already charged is charged to demand. -/
def retainRepairDemand (t : MemoryTransaction) (sample confirmed repairBudget : Nat) :
    MemoryTransaction :=
  let baseline := max sample t.repairCurrentBudget
  let rebound := (saturatingSub confirmed baseline).1
  let demand := (saturatingAdd t.demand rebound).1
  { t with demand := min demand repairBudget, repairCurrentBudget := max baseline confirmed }

end MemoryTransaction

/-! ## Small operations -/

def modifyTxn (f : MemoryTransaction → MemoryTransaction) : Ctl Unit :=
  Routine.modify fun m => { m with txn := m.txn.map f }

def reservationNow : Ctl Nat := Routine.lift (Prog.look (·.reservation))

/-- The mutation gate, which a snapshot may hold until the worker is cancelled. -/
def acquireMutation : Ctl Unit := do
  if ← Routine.lift (Prog.choose fun _ : Bool => True) then
    Routine.lift (Prog.change (·.note .gate))
  else Routine.fail .cancelled

variable (cfg : Config)

/-- Without a device both sides of the balloon are known to be zero. -/
def syntheticBalloonState : Prog World BalloonState :=
  Prog.exec fun s =>
    (⟨0, 0, true, cfg.capacity, 0, true⟩, { s with
      log := .observed ⟨0, cfg.capacity, 0⟩ :: s.log
      journal := .observed ⟨0, cfg.capacity, 0⟩ :: s.journal })

def observeBalloon : Ctl BalloonState :=
  if cfg.balloon then do Routine.ofExcept (← Routine.lift (Prog.atomic (observe cfg)))
  else Routine.lift (syntheticBalloonState cfg)

def Controller.recordBalloonState (m : Controller) (state : BalloonState) : Controller :=
  { m with
    balloonTarget := state.acceptedTarget, balloonCurrent := state.balloonCurrent
    targetBudget := if state.acceptedTargetKnown then
      budgetFromTarget cfg.capacity state.acceptedTarget else m.targetBudget }

def recordBalloonState (state : BalloonState) : Ctl Unit :=
  Routine.modify (·.recordBalloonState cfg state)

def setDesired (target : Nat) : Ctl Unit := do
  Routine.ofExcept (← Routine.lift (setDesiredTarget cfg target))

/-- The Budget of the last known accepted target. -/
def targetBudgetNow : Ctl Nat := do
  let m ← Routine.get
  if cfg.balloon then do
    let state ← Routine.lift (Prog.look (·.balloon))
    if state.acceptedTargetKnown then pure (budgetFromTarget cfg.capacity state.acceptedTarget)
    else pure m.targetBudget
  else pure m.targetBudget

def shrinkReportSuperseded (seq : Nat) : Ctl Bool :=
  Routine.lift (Prog.look fun s => decide (s.reportSeq > seq))

/-! ## memory.high -/

/-- What the lifecycle lock and the cgroup files answer. -/
structure HighIo where
  lock : Bool
  memoryCurrent : Option Nat
  readable : Bool
  writable : Bool
  deriving Repr, DecidableEq

def World.applyMemoryHigh (io : HighIo) (budget demand : Nat) (grow : Bool)
    (s : World) : Except Failure Unit × World :=
  if !cfg.cgroup then (.ok (), s)
  else if !io.lock then (.error .highLock, s)
  else match io.memoryCurrent with
    | none => (.error .memoryCurrent, s)
    | some host =>
      match calculateMemoryHigh cfg.capacity cfg.overhead budget demand cfg.ratio host with
      | .error e => (.error (.memory e), s)
      | .ok result =>
        let want := High.bytes result.hostMemoryHigh
        let log := .high grow budget demand host :: s.log
        if !io.readable then (.error .readMemoryHigh, s)
        -- growth only ever raises the limit
        else if grow && s.high.atLeast result.hostMemoryHigh then (.ok (), { s with log })
        else if s.high ≠ want ∧ io.writable = false then (.error .writeMemoryHigh, s)
        else (.ok (), { s with high := want, log })

/-- `applyMemoryHigh`, one critical section of the lifecycle lock. -/
def applyMemoryHigh (budget demand : Nat) (grow : Bool) : Ctl Unit := do
  Routine.ofExcept (← Routine.lift (Prog.atomic fun s r s' =>
    ∃ io : HighIo, (r, s') = s.applyMemoryHigh cfg io budget demand grow))

/-! ## The reservation -/

structure BudgetRequest where
  currentAlloc : Nat
  requestedDelta : Nat
  urgency : Urgency
  reason : String
  deriving Repr, DecidableEq

structure BudgetGrant where
  granted : Nat
  newReservation : Nat
  cooldown : Int
  deriving Repr, DecidableEq

def World.setReservation (s : World) (reservation : Nat) : World :=
  { s with reservation, log := .reserved s.reservation reservation s.high :: s.log }

/-- A shrink whose answer is unusable leaves the smaller baseline. -/
def World.keepBaseline (s : World) (req : BudgetRequest) : World :=
  if req.requestedDelta = 0 ∧ req.currentAlloc < s.reservation then
    s.setReservation req.currentAlloc
  else s

def World.disconnect (s : World) : World := { s with connected := false }

/-- `ControllerHooks.RequestBudget`, for the node's answer. -/
def World.requestBudget (answer : Option BudgetGrant) (req : BudgetRequest)
    (s : World) : Except Failure BudgetGrant × World :=
  if s.connected = false then (.error .disconnected, s)
  else match answer with
    | none => (.error .transport, (s.keepBaseline req).disconnect)
    | some g =>
      let want := req.currentAlloc + g.granted
      if want > maxUint64 ∨ g.granted > req.requestedDelta ∨ g.newReservation ≠ want ∨
          g.newReservation > cfg.capacity then
        (.error (.invalidBudgetResponse req.currentAlloc req.requestedDelta g.granted
            g.newReservation cfg.capacity), (s.keepBaseline req).disconnect)
      else (.ok g, s.setReservation g.newReservation)

/-- The same transaction without a node. -/
def World.requestStatic (req : BudgetRequest) (s : World) : Except Failure BudgetGrant × World :=
  let next := req.currentAlloc + req.requestedDelta
  if next > maxUint64 ∨ next > cfg.capacity then (.error (.memory .overflow), s)
  else if req.currentAlloc > s.reservation then
    (.error (.baselineExceedsStatic req.currentAlloc s.reservation), s)
  else (.ok ⟨req.requestedDelta, next, 0⟩, s.setReservation next)

def requestReservation (req : BudgetRequest) : Ctl BudgetGrant :=
  if cfg.node then do
    Routine.ofExcept (← Routine.lift (Prog.atomic fun s r s' =>
      ∃ answer, (r, s') = s.requestBudget cfg answer req))
  else do Routine.ofExcept (← Routine.lift (Prog.exec (World.requestStatic cfg req)))

/-! ## Growth -/

variable (txn : MemoryTransaction)

def raiseHigh : Ctl Unit :=
  if txn.highApplied then pure ()
  else do
    applyMemoryHigh cfg txn.targetBudget txn.demand true
    modifyTxn fun t => { t with highApplied := true }

def deflate : Ctl Unit :=
  if cfg.balloon then do
    setDesired cfg txn.target
    let (state, result) ← Routine.lift (applyDesiredHeld cfg)
    recordBalloonState cfg state
    Routine.ofExcept result
  else if txn.target ≠ 0 then Routine.fail (.growWithoutBalloon txn.target)
  else pure ()

/-- `applyPreparedGrowLocked`. -/
def applyPreparedGrow (objective : Nat) : Ctl Unit := do
  acquireMutation
  raiseHigh cfg txn
  deflate cfg txn
  Routine.lift (Prog.change (·.note .grown))
  modifyTxn fun t => { t with targetChange := false }
  if txn.targetBudget ≥ objective then Routine.modify fun m => { m with txn := none }
  else pure ()

/-- The part of a grant that a target can represent is prepared and applied. -/
def prepareGrow (objective currentTargetBudget reservation : Nat) : Ctl Unit :=
  let executableBudget := alignedBudgetAtMostReservation cfg.capacity
    (if reservation > objective then objective else reservation)
  if executableBudget ≤ currentTargetBudget then pure ()
  else do
    let prepared := { txn with
      targetBudget := executableBudget, target := targetForBudget cfg.capacity executableBudget
      targetChange := true, highApplied := false }
    modifyTxn fun _ => prepared
    applyPreparedGrow cfg prepared objective

def reserveGrow (objective currentTargetBudget reservation : Nat) : Ctl Unit := do
  let now ← Routine.lift (Prog.look (·.clock))
  if txn.reservationRetryAt.any fun at_ => decide (now < at_) then pure ()
  else do
    let delta := (saturatingSub objective reservation).1
    let urgency := if txn.urgency = .unset then .normal else txn.urgency
    let grant ← requestReservation cfg ⟨reservation, delta, urgency, txn.reason⟩
    let now ← Routine.lift (Prog.look (·.clock))
    let txn := { txn with
      reservationRetryAt := if grant.cooldown > 0 then some (now + grant.cooldown) else none }
    modifyTxn fun _ => txn
    if grant.granted = 0 then pure ()
    else prepareGrow cfg txn objective currentTargetBudget grant.newReservation

/-- `advanceGrowLocked`. -/
def advanceGrow : Ctl Unit :=
  let objective := txn.growObjective
  if objective = 0 ∨ objective > cfg.capacity then
    Routine.fail (.growObjectiveOutside objective cfg.capacity)
  else if txn.targetChange then applyPreparedGrow cfg txn objective
  else do
    let currentTargetBudget ← targetBudgetNow cfg
    if currentTargetBudget ≥ objective then Routine.modify fun m => { m with txn := none }
    else do
      let reservation ← reservationNow
      if objective > reservation then reserveGrow cfg txn objective currentTargetBudget reservation
      else prepareGrow cfg txn objective currentTargetBudget reservation

/-! ## Shrink -/

/-- `finishShrinkLocked`. -/
def finishShrink : Ctl Unit := do
  if txn.targetChange then do
    let seq ← Routine.lift (Prog.exec fun s => (s.reportSeq, s.note .finished))
    let floor := if seq < txn.reportSeq then txn.reportSeq else seq
    Routine.modify fun m =>
      { m with txn := none, shrinkReportFence := max m.shrinkReportFence floor }
  else Routine.modify fun m => { m with txn := none }

/-- The inflate of a shrink. Without a state the candidate was discarded. -/
def issueShrink : Ctl (Option BalloonState) :=
  if cfg.balloon then do
    setDesired cfg txn.target
    let (state, result) ← Routine.lift (applyShrinkDesiredHeld cfg txn.shrinkObservation)
    recordBalloonState cfg state
    match result with
    | .error .shrinkObservationChanged =>
      setDesired cfg state.acceptedTarget
      finishShrink txn
      pure none
    | .error e => Routine.fail e
    | .ok () =>
      modifyTxn fun t => { t with resizeAccepted := true }
      pure (some state)
  else do
    let state ← Routine.lift (syntheticBalloonState cfg)
    recordBalloonState cfg state
    if txn.target ≠ 0 then Routine.fail (.shrinkWithoutBalloon txn.target)
    else do
      modifyTxn fun t => { t with resizeAccepted := true }
      pure (some state)

/-- An accepted target is observed again. -/
def observeShrink : Ctl (Option BalloonState) := do
  let state ← observeBalloon cfg
  recordBalloonState cfg state
  if txn.targetChange && (!state.acceptedTargetKnown ||
      decide (state.acceptedTarget ≠ txn.target)) then do
    modifyTxn fun t => { t with resizeAccepted := false }
    Routine.fail (.retryDesired state.acceptedTarget txn.target)
  else pure (some state)

/-- The changed observation made the smaller `memory.high` unsafe: raise it. -/
def repairHigh (state confirmed : BalloonState) (reservation : Nat) : Ctl Unit := do
  let repairBudget := match confirmed.observedBudget cfg.capacity with
    | some current =>
      if confirmed.acceptedTarget = state.acceptedTarget ∧ current ≤ reservation then current
      else reservation
    | none => reservation
  let txn := { txn with highApplied := false }
  let txn := if confirmed.balloonCurrentKnown then
    txn.retainRepairDemand state.currentBudget confirmed.currentBudget repairBudget else txn
  modifyTxn fun _ => txn
  let repair ← Routine.attempt (applyMemoryHigh cfg repairBudget txn.demand true)
  Routine.fail (.settlementChanged reservation repair)

/-- The reservation is lowered to a Budget that a second observation confirms. -/
def releaseReservation (state : BalloonState) (budget reservation : Nat) : Ctl Unit := do
  let confirmed ← observeBalloon cfg
  recordBalloonState cfg confirmed
  if (confirmed.observedBudget cfg.capacity).all (fun current => decide (current > budget)) ||
      decide (confirmed.acceptedTarget ≠ state.acceptedTarget) then
    repairHigh cfg txn state confirmed reservation
  else if ← shrinkReportSuperseded txn.reportSeq then pure ()
  else do
    let grant ← requestReservation cfg ⟨budget, 0, .low, "shrink_commit"⟩
    if grant.newReservation ≠ budget then
      Routine.fail (.shrinkCommit grant.newReservation budget)
    else finishShrink txn

/-- `memory.high` follows a settled Budget. -/
def lowerHigh (budget : Nat) : Ctl Unit :=
  if !txn.highApplied || decide (txn.highBudget ≠ budget) then do
    applyMemoryHigh cfg budget txn.demand false
    modifyTxn fun t => { t with highApplied := true, highBudget := budget }
  else pure ()

def settleShrink (state : BalloonState) : Ctl Unit := do
  let m ← Routine.get
  match m.txn, state.observedBudget cfg.capacity with
  | none, _ => pure ()
  | some _, none => Routine.fail .invalidSettlementObservation
  | some txn, some budget =>
    if budget = 0 then Routine.fail .invalidSettlementObservation
    else do
      let reservation ← reservationNow
      if budget > reservation then finishShrink txn
      else if ← shrinkReportSuperseded txn.reportSeq then pure ()
      else do
        lowerHigh cfg txn budget
        if reservation > budget then
          releaseReservation cfg { txn with highApplied := true, highBudget := budget } state budget
            reservation
        else finishShrink txn

/-- `advanceShrinkLocked`. -/
def advanceShrink : Ctl Unit := do
  if ← shrinkReportSuperseded txn.reportSeq then pure ()
  else do
    acquireMutation
    if ← shrinkReportSuperseded txn.reportSeq then pure ()
    else do
      match ← if txn.resizeAccepted then observeShrink cfg txn else issueShrink cfg txn with
      | none => pure ()
      | some state => settleShrink cfg state

/-- `advanceTransactionLocked`. -/
def advanceTransaction : Ctl Unit := do
  let m ← Routine.get
  match m.txn with
  | none => pure ()
  | some txn =>
    match txn.kind with
    | .grow => advanceGrow cfg txn
    | .shrink => advanceShrink cfg txn

end Sandboxer.Resctl
