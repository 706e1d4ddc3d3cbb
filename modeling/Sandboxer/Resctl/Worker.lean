import Sandboxer.Resctl.Controller

/-! # The worker of the memory controller

What one guest report, pressure signal or tick makes the controller do, the
worker loop over them, and the surroundings it runs in: the guest moves its
actual size, unanswered resizes take effect, reports and signals arrive. -/
namespace Sandboxer.Resctl

open Lib.Threads

/-! ## Starting growth -/

def MemoryTransaction.isGrow (t : MemoryTransaction) : Bool := t.kind == .grow

variable (cfg : Config)

/-- `startGrowLocked`. -/
def startGrow (requestedBudget demand : Nat) (urgency : Urgency) (reason : String) : Ctl Unit := do
  let requested := if requestedBudget > cfg.capacity then cfg.capacity else requestedBudget
  let m ← Routine.get
  match m.txn.filter (·.isGrow) with
  | some txn =>
    -- a retained growth is extended, never reversed
    let extended := { txn with
      objectiveBudget := max txn.growObjective requested, demand := max txn.demand demand }
    modifyTxn fun _ => extended.upgradeGrowCause urgency reason
    advanceTransaction cfg
  | none =>
    let currentTargetBudget ← targetBudgetNow cfg
    if requested ≤ currentTargetBudget then pure ()
    else do
      Routine.modify fun m => { m with
        txn := some { MemoryTransaction.new .grow demand with
          objectiveBudget := requested, urgency, reason } }
      advanceTransaction cfg

/-! ## Restore normalization -/

def World.openReportBarrier (s : World) : World :=
  { s with reportEpoch := 0, reportSeq := 0, reportsOpen := true }

def normalize (target : Nat) : Ctl Unit :=
  if cfg.balloon then do
    setDesired cfg target
    acquireMutation
    let (state, result) ← Routine.lift (applyDesiredHeld cfg)
    recordBalloonState cfg state
    Routine.ofExcept (result.mapError .normalization)
  else pure ()

/-- `advanceNormalizationLocked`. -/
def advanceNormalization : Ctl Unit := do
  let m ← Routine.get
  if m.normalizationPending then do
    normalize cfg m.normalizationTarget
    Routine.modify fun m => { m with normalizationPending := false }
    Routine.lift (Prog.change World.openReportBarrier)
  else pure ()

/-- `retryLocked`. -/
def retry : Ctl Unit := do
  let m ← Routine.get
  if m.normalizationPending then advanceNormalization cfg
  else advanceTransaction cfg

/-! ## Guest reports -/

/-- The conditions of a stalled-target retry besides the observation. -/
def stillCurrent (m : Controller) (report : MemReport) (targetBudget : Nat) (s : World) : Bool :=
  !(m.normalizationPending || m.txn.isSome || decide (m.pressureFloor ≠ 0) ||
      decide (s.pressureEvents ≠ []) || decide (targetBudget > s.reservation) ||
      decide (report.seq ≤ m.shrinkReportFence)) &&
    s.reportsOpen && decide (s.reportEpoch = report.epoch) && decide (s.reportSeq = report.seq)

def stallMatches (previous : Option BalloonStall) (report : MemReport) (state : BalloonState) :
    Bool :=
  previous.any fun p => decide (p.epoch = report.epoch) && decide (p.seq < report.seq) &&
    decide (p.target = state.acceptedTarget) && decide (p.actual = state.balloonCurrent)

variable (may : Renotify)

/-- `retryStalledBalloonLocked`. -/
def retryStalledBalloon (report : MemReport) (state : BalloonState)
    (budget : MemoryBudget) (previous : Option BalloonStall) : Ctl Unit := do
  let m ← Routine.get
  if !cfg.balloon || !state.acceptedTargetKnown || !state.balloonCurrentKnown ||
      decide (state.desiredTarget ≠ state.acceptedTarget) ||
      decide (state.balloonCurrent ≥ state.acceptedTarget) ||
      decide (budget.requestedBudget > budget.targetBudget) ||
      decide (m.balloonTarget ≠ state.acceptedTarget) ||
      decide (m.balloonCurrent ≠ state.balloonCurrent) then pure ()
  else if !(← Routine.lift (Prog.look (stillCurrent m report budget.targetBudget))) then pure ()
  else if !stallMatches previous report state then
    let sample : BalloonStall :=
      ⟨report.epoch, report.seq, state.acceptedTarget, state.balloonCurrent⟩
    Routine.modify fun m => { m with balloonStall := some sample }
  else do
    acquireMutation
    let (state, result) ← Routine.lift
      (retryAcceptedTargetHeld cfg may state (stillCurrent m report budget.targetBudget))
    recordBalloonState cfg state
    Routine.ofExcept result

/-- A newer report keeps the most conservative demand of a pending shrink. -/
def MemoryTransaction.refresh (t : MemoryTransaction) (report : MemReport) (state : BalloonState)
    (budget : MemoryBudget) : MemoryTransaction :=
  { t with
    demand := max t.demand budget.demandMemory
    highApplied := t.highApplied && !decide (budget.demandMemory > t.demand)
    reportSeq := report.seq
    repairCurrentBudget := state.currentBudget
    shrinkObservation := if t.resizeAccepted then t.shrinkObservation else state }

def reportDuringShrink (txn : MemoryTransaction) (report : MemReport)
    (state : BalloonState) (budget : MemoryBudget) : Ctl Unit :=
  if budget.requestedBudget > txn.targetBudget then do
    Routine.modify fun m => { m with txn := none }
    startGrow cfg budget.requestedBudget budget.demandMemory .normal "guest_report"
  else do
    let reservation ← reservationNow
    if budget.observedBudget > reservation then do
      if cfg.balloon then setDesired cfg state.acceptedTarget else pure ()
      finishShrink txn
    else do
      modifyTxn fun _ => txn.refresh report state budget
      -- the error of a pending shrink is logged only
      let _ ← Routine.attempt (advanceTransaction cfg)
      pure ()

/-- A newer report extends a pending growth. -/
def MemoryTransaction.extend (t : MemoryTransaction) (budget : MemoryBudget) : MemoryTransaction :=
  let t := if budget.requestedBudget > t.growObjective then
    { t with objectiveBudget := budget.requestedBudget } else t
  let t := t.upgradeGrowCause .normal "guest_report"
  if budget.demandMemory > t.demand then
    { t with
      demand := budget.demandMemory
      highApplied := t.highApplied && !t.targetChange }
  else t

def reportDuringGrow (txn : MemoryTransaction) (budget : MemoryBudget) : Ctl Unit := do
  modifyTxn fun _ => txn.extend budget
  advanceTransaction cfg

/-- Whether shrink may go on: below the pressure floor a second low report is awaited. -/
def passPressureFloor (report : MemReport) (budget : MemoryBudget) : Ctl Bool := do
  let m ← Routine.get
  if m.pressureFloor = 0 then pure true
  else if budget.requestedBudget < m.pressureFloor then
    if m.pressureLowSeq = 0 then do
      Routine.modify fun m => { m with pressureLowSeq := report.seq }
      pure false
    else do
      Routine.modify fun m => { m with pressureFloor := 0, pressureLowSeq := 0 }
      pure true
  else do
    Routine.modify fun m => { m with pressureLowSeq := 0 }
    Routine.lift (Prog.change (·.note .unmarked))
    pure true

/-- One step of shrink, or settlement of what is already observed. -/
def startShrink (report : MemReport) (state : BalloonState)
    (budget : MemoryBudget) (previous : Option BalloonStall) : Ctl Unit := do
  let m ← Routine.get
  match (nextShrinkTarget cfg.capacity state.acceptedTarget state.currentBudget
      budget.requestedBudget).filter fun _ => decide (report.seq > m.shrinkReportFence) with
  | some nextTarget => do
    Routine.modify fun m => { m with
      txn := some { MemoryTransaction.new .shrink budget.demandMemory with
        target := nextTarget, targetBudget := budgetFromTarget cfg.capacity nextTarget
        reportSeq := report.seq, targetChange := true, shrinkObservation := state } }
    advanceTransaction cfg
  | none => do
    Routine.modify fun m => { m with
      txn := some { MemoryTransaction.new .shrink budget.demandMemory with
        target := state.acceptedTarget, targetBudget := budget.targetBudget
        resizeAccepted := true, reportSeq := report.seq } }
    advanceTransaction cfg
    retryStalledBalloon cfg may report state budget previous

def reportIdle (report : MemReport) (state : BalloonState)
    (budget : MemoryBudget) (previous : Option BalloonStall) : Ctl Unit := do
  if budget.requestedBudget > budget.targetBudget then
    startGrow cfg budget.requestedBudget budget.demandMemory .normal "guest_report"
  else if ← Routine.lift (Prog.look fun s =>
      decide (s.reportEpoch = report.epoch ∧ s.reportSeq > report.seq)) then pure ()
  else if !(← passPressureFloor report budget) then pure ()
  else do
    let reservation ← reservationNow
    if budget.observedBudget > reservation then
      retryStalledBalloon cfg may report state budget previous
    else startShrink cfg may report state budget previous

/-- Whether a report starts or extends a growth. -/
def MemoryBudget.grows (budget : MemoryBudget) : Option MemoryTransaction → Bool
  | none => decide (budget.requestedBudget > budget.targetBudget)
  | some txn => txn.isGrow || decide (budget.requestedBudget > txn.targetBudget)

def reportObserved (report : MemReport) (state : BalloonState)
    (budget : MemoryBudget) (previous : Option BalloonStall) : Ctl Unit := do
  Routine.modify fun m => { m with
    lastDemand := budget.demandMemory, lastDemandKnown := true
    targetBudget := budget.targetBudget }
  let m ← Routine.get
  Routine.lift (Prog.change (·.note (.decided report budget.requestedBudget (budget.grows m.txn))))
  match m.txn with
  | none => reportIdle cfg may report state budget previous
  | some txn =>
    match txn.kind with
    | .shrink => reportDuringShrink cfg txn report state budget
    | .grow => reportDuringGrow cfg txn budget

/-- `processReportLocked`. -/
def processReport (report : MemReport) : Ctl Unit := do
  let m ← Routine.get
  Routine.modify fun m => { m with balloonStall := none }
  if m.normalizationPending then pure ()
  else do
    let state ← observeBalloon cfg
    recordBalloonState cfg state
    if (state.observedBudget cfg.capacity).isNone then Routine.fail .incompleteObservation
    else do
      Routine.modify fun m => { m with initialObservationPending := false }
      match calculateMemoryBudget cfg.capacity cfg.headroom state.acceptedTarget
          state.currentBudget report.memAvailableBytes with
      | .error e => Routine.fail (.memory e)
      | .ok (budget, _) => reportObserved cfg may report state budget m.balloonStall

/-! ## Pressure -/

/-- A shrink is retained that moves the target. -/
def Controller.shrinks (m : Controller) : Bool := m.txn.any fun t => !t.isGrow && t.targetChange

/-- `processPressureLocked`. -/
def processPressure (pressure : PressureGrow) : Ctl Unit := do
  Routine.modify fun m => { m with balloonStall := none, pressureLowSeq := 0 }
  let m ← Routine.get
  if m.normalizationPending then Routine.lift (Prog.change (·.note (.pressure false m.shrinks)))
  else do
    let accepted ← targetBudgetNow cfg
    let before := max accepted ((m.txn.filter (·.isGrow)).elim 0 (·.growObjective))
    let want :=
      if before + memoryStep > maxUint64 ∨ before + memoryStep > cfg.capacity then cfg.capacity
      else before + memoryStep
    Routine.lift (Prog.change (·.note (.pressure (decide (want ≤ before)) m.shrinks)))
    if want ≤ before then pure ()
    else do
      startGrow cfg want (if m.lastDemandKnown then m.lastDemand else want)
        pressure.urgency pressure.reason
      let after ← targetBudgetNow cfg
      if after > before then do
        Routine.modify fun m => { m with pressureFloor := max m.pressureFloor after }
        let m ← Routine.get
        Routine.lift (Prog.change (·.note (.floor m.pressureFloor)))
      else pure ()

/-! ## The worker -/

inductive Wakeup where
  | done
  | report (r : MemReport)
  | pressure (p : PressureGrow)
  | tick
  deriving Repr, DecidableEq

/-- The worker waits for any of its sources. -/
def awaitWakeup : Section World Wakeup := fun s w s' =>
  match w with
  | .done | .tick => s' = s
  | .report r => ∃ rest, s.reportEvents = r :: rest ∧ s' = { s with reportEvents := rest }
  | .pressure p => ∃ rest, s.pressureEvents = p :: rest ∧ s' = { s with pressureEvents := rest }

def handle : Wakeup → Ctl Unit
  | .done => pure ()
  | .report r => processReport cfg may r
  | .pressure p => processPressure cfg p
  | .tick => retry cfg

/-- `loop`, for a bounded number of wakeups. -/
def loop : Nat → Controller → Prog World Unit
  | 0, _ => pure ()
  | n + 1, m => do
    match ← Prog.atomic awaitWakeup with
    | .done => pure ()
    | w =>
      let (_, m) ← handle cfg may w m
      loop n m

/-- How the sandbox came up. -/
inductive Launch where
  | cold
  | restore (safeTarget : Nat)
  deriving Repr, DecidableEq

/-- `StartCold` and `StartRestore`. -/
def start (n : Nat) (m : Controller) : Launch → Prog World Unit
  | .cold => do
    Prog.change World.openReportBarrier
    loop cfg may n { m with initialObservationPending := true }
  | .restore safeTarget =>
    if !cfg.balloon && decide (safeTarget ≠ 0) then pure ()
    else if cfg.balloon && (validateBalloonSize cfg.capacity safeTarget).isOk = false then pure ()
    else do
      let (_, m) ← advanceNormalization cfg { m with
        normalizationPending := true, normalizationTarget := safeTarget
        initialObservationPending := true }
      loop cfg may n m

inductive NewError where
  | initialBudgetOutside (initialBudget capacity : Nat)
  | balloonRequired (initialBudget capacity : Nat)
  | reservationDiffers (reservation initialBudget : Nat)
  deriving Repr, DecidableEq

/-- `NewMemoryController`. Without a node the initial Budget is the reservation. -/
def newMemoryController (initialBudget : Nat) (s : World) : Except NewError (Controller × World) :=
  if initialBudget = 0 ∨ initialBudget > cfg.capacity then
    .error (.initialBudgetOutside initialBudget cfg.capacity)
  else if !cfg.balloon && decide (initialBudget ≠ cfg.capacity) then
    .error (.balloonRequired initialBudget cfg.capacity)
  else if cfg.node && decide (s.reservation ≠ initialBudget) then
    .error (.reservationDiffers s.reservation initialBudget)
  else
    let targetBudget :=
      if !cfg.balloon then cfg.capacity
      else if s.balloon.acceptedTargetKnown then
        budgetFromTarget cfg.capacity s.balloon.acceptedTarget
      else initialBudget
    .ok ({ txn := none, targetBudget
           balloonTarget := if cfg.balloon then s.balloon.acceptedTarget else 0
           balloonCurrent := if cfg.balloon then s.balloon.balloonCurrent else 0
           normalizationPending := false, normalizationTarget := 0
           initialObservationPending := false, lastDemand := 0, lastDemandKnown := false
           shrinkReportFence := 0, pressureFloor := 0, pressureLowSeq := 0
           balloonStall := none }, { s with reservation := initialBudget })

/-! ## The surroundings -/

def World.submitGuestReport (report : MemReport) (s : World) : World :=
  if s.reportsOpen = false ∨ report.epoch = 0 ∨ report.seq = 0 then s
  else if s.reportEpoch ≠ 0 ∧ report.epoch ≠ s.reportEpoch then s
  else
    let s := { s with reportEpoch := report.epoch }
    if report.seq ≤ s.reportSeq then s
    else { s with
      reportSeq := report.seq
      journal := .accepted report :: s.journal
      reportEvents := if s.reportEvents.length < 16 then s.reportEvents ++ [report]
        else s.reportEvents }

def World.requestPressureGrow (p : PressureGrow) (s : World) : World :=
  { s with pressureEvents := if s.pressureEvents.length < 16 then s.pressureEvents ++ [p]
      else s.pressureEvents }

inductive Surroundings : World → World → Prop where
  /-- the guest moves its actual size -/
  | guest (s : World) (actual : Nat) : Surroundings s { s with ch := { s.ch with actual } }
  /-- an unanswered resize takes effect, which ends the earlier ones -/
  | effect (s : World) (earlier later : List Nat) (target : Nat)
      (h : s.ch.outstanding = earlier ++ target :: later) :
      Surroundings s { s with ch := { s.ch with accepted := target, outstanding := later } }
  /-- an unanswered resize will never take effect -/
  | drop (s : World) (earlier later : List Nat) (target : Nat)
      (h : s.ch.outstanding = earlier ++ target :: later) :
      Surroundings s { s with ch := { s.ch with outstanding := earlier ++ later } }
  | report (s : World) (r : MemReport) : Surroundings s (s.submitGuestReport r)
  | pressure (s : World) (p : PressureGrow) : Surroundings s (s.requestPressureGrow p)
  /-- a snapshot or a diagnostic reads `vm.info` -/
  | observer (s : World) (answer : Option VmInfo) (o : Observation) (h : s.ch.Answers answer)
      (ho : readMemoryObservation cfg.capacity answer = .ok o) :
      Surroundings s { s with balloon := s.balloon.commitObservation o }
  /-- the node session breaks or is restored -/
  | session (s : World) (connected : Bool) : Surroundings s { s with connected }
  | clock (s : World) (now : Int) (h : s.clock ≤ now) : Surroundings s { s with clock := now }

end Sandboxer.Resctl
