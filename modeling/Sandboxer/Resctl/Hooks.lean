import Sandboxer.Lib.Threads
import Sandboxer.Resctl.Budget

/-! # The reservation session with the node

`ControllerHooks` of `controller.go` over the client of `resource/client.go`: one
sandbox's session with the node that charges it. A call holds `sessionMu` from
its first look at the session to its return; the node answers a request at any
time before the client gives up on it, or never, and the answer may be lost.
`syncStartMu` orders the write of a StateSync with the cancellation that
`Release` and the parent context bring. -/
namespace Sandboxer.Resctl.Hooks

open Lib.Threads

/-! ## The node -/

inductive Request where
  | typeAdmit
  | settled
  | heartbeat
  | requestBudget (currentAlloc requestedDelta : Nat)
  | stateSync (applied : Nat)
  | release
  deriving DecidableEq, Repr

inductive Response where
  | admitted (granted : Nat)
  | rejected
  | ack
  | heartbeat (newAllocatable : Nat)
  | budget (granted newAllocatable : Nat)
  | synced (newAllocatable : Nat)
  /-- an explicit error response -/
  | error
  deriving DecidableEq, Repr

/-- How the node answers a request and what it charges then; a release ends the
session with the charge it had. -/
inductive Answers : Nat → Request → Response → Nat → Prop where
  | admitted (charge granted : Nat) : Answers charge .typeAdmit (.admitted granted) granted
  | rejected (charge : Nat) : Answers charge .typeAdmit .rejected charge
  | settled (charge : Nat) : Answers charge .settled .ack charge
  | heartbeat (charge : Nat) : Answers charge .heartbeat (.heartbeat charge) charge
  | budget (charge currentAlloc requestedDelta granted : Nat) (h : granted ≤ requestedDelta) :
      Answers charge (.requestBudget currentAlloc requestedDelta)
        (.budget granted (currentAlloc + granted)) (currentAlloc + granted)
  | synced (charge applied : Nat) : Answers charge (.stateSync applied) (.synced applied) applied
  | released (charge : Nat) : Answers charge .release .ack charge
  | refused (charge : Nat) (r : Request) : Answers charge r .error charge

/-- A request on the connection, with the answer once the node has given it. -/
structure Call where
  request : Request
  response : Option Response

/-! ## The session -/

/-- What the callers of the session could observe. -/
inductive Event where
  /-- `RequestBudget` failed, after asking the node or on a session without a
  connection: the reservation before it, the baseline it returned, and the
  reservation and the charge at its return -/
  | budgetFailed (asked : Bool)
    (currentAlloc requestedDelta before baseline reservation charge : Nat)
  /-- a StateSync succeeded: the reservation and the charge then -/
  | restored (reservation charge : Nat)
  /-- the write of a StateSync request, with the released state then -/
  | syncWritten (released : Bool)
  deriving DecidableEq, Repr

/-- The hooks, the client's connection and the node, shared by the threads `ι`. -/
structure Session (ι : Type) where
  /-- what the node charges the sandbox -/
  charge : Nat
  call : Option Call
  /-- the arguments of the `RequestBudget` that has a request with the node -/
  budget : Option (Nat × Nat)
  /-- the client's connection is there -/
  conn : Bool
  /-- the client has a token -/
  token : Bool
  admitted : Bool
  settled : Bool
  connected : Bool
  released : Bool
  reservation : Nat
  /-- `reconnectWake` holds a wakeup -/
  wake : Bool
  /-- the context given to the constructor is done -/
  parentDone : Bool
  /-- `lifetimeCtx` is cancelled -/
  lifetimeDone : Bool
  sessionMu : Option ι
  syncStartMu : Option ι
  log : List Event

structure Config where
  enabled : Bool
  capacity : Nat
  /-- the exact reservation that `Admit` asks for -/
  initialBudget : Nat
  /-- a snapshot's Budget beyond Capacity is refused, and the startup Budget is within it -/
  initial_le : initialBudget ≤ capacity

variable {ι α : Type} [DecidableEq ι]

abbrev Code (ι α : Type) := Prog (Session ι) α

variable (t : ι)

def lockSession : Code ι Unit :=
  .atomic fun s _ s' => s.sessionMu = none ∧ s' = { s with sessionMu := some t }

def unlockSession : Code ι Unit := .change fun s => { s with sessionMu := none }

def lockSyncStart : Code ι Unit :=
  .atomic fun s _ s' => s.syncStartMu = none ∧ s' = { s with syncStartMu := some t }

def unlockSyncStart : Code ι Unit := .change fun s => { s with syncStartMu := none }

/-! ## The client -/

/-- Why a round trip failed. -/
inductive RpcError where
  | canceled
  | notConnected
  | transport
  | controller
  | noToken
  deriving DecidableEq, Repr

/-- The request goes out; a StateSync is recorded with its first byte. -/
def Session.send (r : Request) (s : Session ι) : Session ι :=
  { s with
    call := some ⟨r, none⟩
    budget := match r with
      | .requestBudget currentAlloc requestedDelta => some (currentAlloc, requestedDelta)
      | _ => s.budget
    log := match r with
      | .stateSync _ => .syncWritten s.released :: s.log
      | _ => s.log }

/-- The failed connection is closed, and the request is given up. -/
def Session.dropCall (s : Session ι) : Session ι := { s with call := none, conn := false }

/-- The error of a failed write or read: the end of the context, if that happened. -/
def failCall (cancelable : Bool) : Section (Session ι) (Except RpcError Response) := fun s r s' =>
  s' = s.dropCall ∧ r = .error (if cancelable && s.lifetimeDone then .canceled else .transport)

/-- The reply of the node, or a failure at any time. -/
def receive (cancelable : Bool) : Section (Session ι) (Except RpcError Response) := fun s r s' =>
  (∃ request response, s.call = some ⟨request, some response⟩ ∧ s' = { s with call := none } ∧
    r = if response = .error then .error .controller else .ok response) ∨
  failCall cancelable s r s'

/-- `roundTripContextLocked`. A StateSync is not cancelable once it was
started; its start is guarded by `lifetimeCtx`, and `onWrite` follows the write. -/
def roundTrip (cancelable guarded : Bool) (r : Request) (onWrite : Code ι Unit) :
    Code ι (Except RpcError Response) := do
  if cancelable && (← .look Session.lifetimeDone) then return .error .canceled
  else if !(← .look Session.conn) then return .error .notConnected
  else if guarded && (← .look Session.lifetimeDone) then return .error .canceled
  else do
    .change (Session.send r)
    -- a failed write may have reached the node all the same
    if ← .choose fun _ : Bool => True then
      onWrite
      .atomic (receive cancelable)
    else .atomic (failCall cancelable)

/-- A call that carries the session's token. -/
def tokenCall (r : Request) : Code ι (Except RpcError Response) := do
  if !(← .look Session.token) then return .error .noToken
  else roundTrip true false r (pure ())

/-- `Client.ConnectContext`; the dial may fail. -/
def connectContext : Code ι Bool :=
  .atomic fun s ok s' => s' = { s with conn := ok }

def ensureConnected : Code ι Bool := do
  if ← .look Session.conn then pure true else connectContext

def setToken (token : Bool) : Code ι Unit := .change fun s => { s with token }

def closeClient : Code ι Unit := .change fun s => { s with conn := false }

/-! ## The hooks -/

def notifyReconnect : Code ι Unit := .change fun s => { s with wake := true }

def setConnected (connected : Bool) : Code ι Unit := .change fun s => { s with connected }

def markDisconnectedLocked : Code ι Unit := do
  setConnected false
  closeClient
  notifyReconnect

/-- `waitRetry`: the timer, unless a context is done. -/
def waitRetry : Code ι Bool :=
  .atomic fun s ok s' => s' = s ∧ (ok = true ∨ s.parentDone = true ∨ s.lifetimeDone = true)

inductive AdmitOutcome where
  | ok (initialBudget : Nat)
  | failed
  deriving DecidableEq, Repr

variable (cfg : Config)

/-- One attempt of `Admit`; nothing after an error that is retried. -/
def admitOnce : Code ι (Option AdmitOutcome) := do
  if ← ensureConnected then
    match ← roundTrip true false .typeAdmit (pure ()) with
    | .error .transport => do
      setConnected false
      return none
    | .ok (.admitted granted) => do
      setToken true
      if granted ≠ cfg.initialBudget then return some .failed
      else do
        .change fun s => { s with
          admitted := true, connected := true, reservation := cfg.initialBudget }
        return some (.ok cfg.initialBudget)
    | _ => return some .failed
  else return none

/-- The loop of `Admit`, with `sessionMu` held. -/
def admitLoop : Nat → Code ι AdmitOutcome
  | 0 => .halt
  | fuel + 1 => do
    if ← .look fun s => s.parentDone || s.lifetimeDone then return .failed
    else match ← admitOnce cfg with
      | some outcome => return outcome
      | none => if ← waitRetry then admitLoop fuel else return .failed

/-- `Admit`, after the initial Budget was found within Capacity. -/
def hooksAdmit (t : ι) (fuel : Nat) : Code ι AdmitOutcome :=
  if !cfg.enabled then return .ok cfg.initialBudget
  else do
    lockSession t
    let r ← admitLoop cfg fuel
    unlockSession
    return r

def settled (cfg : Config) (t : ι) : Code ι Unit := do
  .change fun s => { s with settled := true }
  if !cfg.enabled then return ()
  else do
    lockSession t
    if !(← .look Session.connected) then notifyReconnect
    else match ← tokenCall .settled with
      | .ok .ack => pure ()
      | _ => markDisconnectedLocked
    unlockSession

/-- What `RequestBudget` returns: the grant and the new reservation, or the
baseline to go on with after an error. -/
inductive BudgetOutcome where
  | ok (granted newReservation : Nat)
  | failed (baseline : Nat)
  deriving DecidableEq, Repr

/-- A shrink without an answer is adopted, a grow is not. -/
def adoptBaseline (currentAlloc requestedDelta before : Nat) : Code ι Nat :=
  if requestedDelta = 0 ∧ currentAlloc < before then do
    .change fun s => { s with reservation := currentAlloc }
    return currentAlloc
  else return before

/-- The error return of `RequestBudget`. -/
def failBudget (asked : Bool) (currentAlloc requestedDelta before baseline : Nat) :
    Code ι BudgetOutcome := do
  .change fun s => { s with
    sessionMu := none, budget := none
    log := .budgetFailed asked currentAlloc requestedDelta before baseline s.reservation s.charge ::
      s.log }
  return .failed baseline

def requestBudget (t : ι) (currentAlloc requestedDelta : Nat) : Code ι BudgetOutcome :=
  if !cfg.enabled then
    return if currentAlloc + requestedDelta > maxUint64 then .failed currentAlloc
      else .ok requestedDelta (currentAlloc + requestedDelta)
  else do
    lockSession t
    let (connected, before) ← .look fun s => (s.connected, s.reservation)
    if !connected then do
      notifyReconnect
      failBudget false currentAlloc requestedDelta before before
    else
      let disconnect : Code ι BudgetOutcome := do
        let baseline ← adoptBaseline currentAlloc requestedDelta before
        markDisconnectedLocked
        failBudget true currentAlloc requestedDelta before baseline
      match ← tokenCall (.requestBudget currentAlloc requestedDelta) with
      | .ok (.budget granted newReservation) =>
        if currentAlloc + granted > maxUint64 ∨ granted > requestedDelta ∨
            newReservation ≠ currentAlloc + granted ∨ newReservation > cfg.capacity then disconnect
        else do
          .change fun s => { s with reservation := newReservation }
          .change fun s => { s with sessionMu := none, budget := none }
          return .ok granted newReservation
      | _ => disconnect

def heartbeatOnce : Code ι Unit := do
  lockSession t
  let (idle, connected, reservation) ←
    .look fun s => (s.released || !s.admitted, s.connected, s.reservation)
  if idle then pure ()
  else if !connected then notifyReconnect
  else match ← tokenCall .heartbeat with
    | .ok (.heartbeat newAllocatable) =>
      if newAllocatable ≠ reservation then markDisconnectedLocked else pure ()
    | _ => markDisconnectedLocked
  unlockSession

/-- The background loop of `StartHeartbeat`. -/
def heartbeats : Nat → Code ι Unit
  | 0 => .halt
  | fuel + 1 => do
    heartbeatOnce t
    heartbeats fuel

/-- How one attempt of the reconnect loop ended. -/
inductive Attempt where
  | restored
  | failed
  | stopped
  deriving DecidableEq, Repr

/-- The gate's holder brings the end of the parent context into effect. -/
def cancelIfParentDone : Code ι Unit := do
  if ← .look Session.parentDone then .change fun s => { s with lifetimeDone := true }
  else pure ()

/-- A StateSync that was not written still holds the gate. -/
def leaveSyncStart : Code ι Unit :=
  .change fun s => if s.syncStartMu = some t then { s with syncStartMu := none } else s

/-- A StateSync with the session's reservation, on a fresh connection. -/
def stateSyncLocked (reservation : Nat) : Code ι Attempt := do
  lockSyncStart t
  cancelIfParentDone
  if ← .look Session.lifetimeDone then
    unlockSyncStart
    unlockSession
    return .stopped
  else
    let reply ← roundTrip false true (.stateSync reservation) unlockSyncStart
    leaveSyncStart t
    match reply with
    | .ok (.synced newAllocatable) => do
      setToken true
      if newAllocatable ≠ reservation then return .failed
      else do
        .change fun s => { s with
          connected := true, sessionMu := none
          log := .restored s.reservation s.charge :: s.log }
        return .restored
    | _ => return .failed

/-- One turn of the inner reconnect loop: whether it goes on, leaves the loop or ends. -/
def reconnectOnce : Code ι Attempt := do
  let (released, idle) ← .look fun s => (s.released, !s.admitted || s.connected)
  if released then return .stopped
  else if idle then return .restored
  else do
    lockSession t
    let (idle, reservation) ← .look fun s =>
        (s.connected || s.released || !s.admitted, s.reservation)
    if idle then
      unlockSession
      return .restored
    else
      let attempt ← do
        if ← connectContext then stateSyncLocked t reservation else pure .failed
      if attempt = .failed then
        closeClient
        setConnected false
        unlockSession
        if ← waitRetry then return .failed else return .stopped
      else return attempt

/-- `reconnectLoop`; `waiting` is the outer loop's wait for a wakeup. -/
def reconnectLoop : Nat → Bool → Code ι Unit
  | 0, _ => .halt
  | fuel + 1, true => do
    let woken ← .atomic fun s woken s' =>
      (woken = false ∧ s.lifetimeDone = true ∧ s' = s) ∨
      (woken = true ∧ s.wake = true ∧ s' = { s with wake := false })
    if woken then reconnectLoop fuel false else return ()
  | fuel + 1, false => do
    match ← reconnectOnce t with
    | .restored => reconnectLoop fuel true
    | .failed => reconnectLoop fuel false
    | .stopped => return ()

/-- `Client.ReleaseContext`: at most `attempts` requests, each on a
connection, until one is answered. -/
def releaseContext : Nat → Code ι Unit
  | 0 => pure ()
  | attempts + 1 => do
    if ← ensureConnected then
      match ← roundTrip false false .release (pure ()) with
      | .error .transport => releaseContext attempts
      | .ok .ack => setToken false
      | _ => pure ()
    else pure ()

/-- `Release`. The waits for the background goroutines only delay it. -/
def release (t : ι) : Code ι Unit := do
  lockSyncStart t
  if ← .look Session.released then unlockSyncStart
  else do
    .change fun s => { s with released := true }
    .change fun s => { s with lifetimeDone := true }
    unlockSyncStart
    if cfg.enabled then
      lockSession t
      if ← .look Session.token then releaseContext 2
      closeClient
      unlockSession

/-- The callback on the parent context's end. -/
def parentCanceled : Code ι Unit := do
  .atomic fun s _ s' => s.parentDone = true ∧ s' = s
  lockSyncStart t
  .change fun s => { s with lifetimeDone := true }
  unlockSyncStart

/-! ## The system -/

/-- What the memory controller asks of the session: a grow from the reservation
it reads, or the commit of a shrink. -/
inductive Ask where
  | grow (delta : Nat)
  | shrink (budget : Nat)
  deriving DecidableEq, Repr

def budgetCalls (t : ι) : List Ask → Code ι Unit
  | [] => .halt
  | .grow delta :: asks => do
    let reservation ← .look Session.reservation
    let _ ← requestBudget cfg t reservation delta
    budgetCalls t asks
  | .shrink budget :: asks => do
    let _ ← requestBudget cfg t budget 0
    budgetCalls t asks

/-- The other threads: the reconnect goroutine, heartbeats, and callers of the rest. -/
inductive Role where
  | reconnect (fuel : Nat)
  | heartbeat (fuel : Nat)
  | settled
  | release
  | parentCanceled

def Role.code (t : ι) : Role → Code ι Unit
  | .reconnect fuel => reconnectLoop t fuel true
  | .heartbeat fuel => heartbeats t fuel
  | .settled => Hooks.settled cfg t
  | .release => Hooks.release cfg t
  | .parentCanceled => Hooks.parentCanceled t

/-- The launch of a sandbox, which admits it and then runs the memory controller. -/
def launch (t : ι) (fuel : Nat) (asks : List Ask) : Code ι Unit := do
  match ← hooksAdmit cfg t fuel with
  | .ok _ => budgetCalls cfg t asks
  | .failed => pure ()

/-- The launch beside any number of other threads. -/
def system {κ : Type} [DecidableEq κ] (cfg : Config) (fuel : Nat) (asks : List Ask)
    (role : κ → Role) :
    Option κ → Code (Option κ) Unit
  | none => launch cfg none fuel asks
  | some k => (role k).code cfg (some k)

/-- The node answers, or the parent context ends. -/
inductive Surroundings : Session ι → Session ι → Prop where
  | answer (s : Session ι) (request : Request) (response : Response) (charge : Nat)
      (hc : s.call = some ⟨request, none⟩) (ha : Answers s.charge request response charge) :
      Surroundings s { s with charge, call := some ⟨request, some response⟩ }
  | parentDone (s : Session ι) : Surroundings s { s with parentDone := true }

/-- A session that has not been admitted yet. -/
def Session.new (charge : Nat) : Session ι where
  charge := charge
  call := none
  budget := none
  conn := false
  token := false
  admitted := false
  settled := false
  connected := false
  released := false
  reservation := 0
  wake := false
  parentDone := false
  lifetimeDone := false
  sessionMu := none
  syncStartMu := none
  log := []

end Sandboxer.Resctl.Hooks
