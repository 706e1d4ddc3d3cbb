import Sandboxer.Lib.Defers

/-! # Capturing a running sandbox

`handleSnapshotRequest` with `snapshot.Take`: the gates of the host are closed,
the guest is quiesced, Cloud Hypervisor is paused and the backends with it, the
artifacts are written, and everything is undone again by deferred calls, unless
the capture succeeds in destroy mode. Each step of a run has its outcome in
`Outcomes`; the state is what the steps do to the sandbox, with the variables
that the deferred calls read. -/
namespace Sandboxer.Sandbox.Capture

open Lib.Defers

/-! ## Data -/

inductive Vm where
  | running
  | paused
deriving DecidableEq

/-- What the capture does to the backends, in order. -/
inductive Event where
  | quiesce (server : Nat)
  | resume (server : Nat)
  | chResume
deriving DecidableEq

/-- An error; `terminal` when a `terminalCaptureError` is among those joined. -/
structure Failure where
  texts : List String
  terminal : Bool
deriving DecidableEq

def Failure.of (text : String) : Failure := ⟨[text], false⟩

/-- `errors.Join` of two errors -/
def Failure.join (e e' : Failure) : Failure := ⟨e.texts ++ e'.texts, e.terminal || e'.terminal⟩

/-- `err = errors.Join(err, e)` -/
def joinError {α : Type} (r : Except Failure α) (e : Option String) : Except Failure α :=
  match r, e with
  | r, none => r
  | .ok _, some text => .error (.of text)
  | .error e, some text => .error (e.join (.of text))

/-- A request to Cloud Hypervisor: it may take effect although its reply is lost. -/
inductive Reply where
  | ok
  | lost
  | failed
deriving DecidableEq

/-- The steps of `Take` that only succeed or fail. -/
inductive CaptureStep where
  | sources
  | context
  | waitReady
  | diskCheck
  | captureSandbox
  | chSnapshot
  | readConfig
  | readState
  | buildConfig
  | memory
  | mergeBase
  | buildSource
  | absorb
  | diskCheckBeforeCommit
  | commit
  | committedRefs
  | closeSink
  | diskCheckAtEnd
deriving DecidableEq

def CaptureStep.text : CaptureStep → String → String
  | .sources, e => s!"snapshot: {e}"
  | .waitReady, e => s!"snapshot: disk initialization: {e}"
  | .chSnapshot, e => s!"CH snapshot: {e}"
  | .readConfig, e => s!"read config.json: {e}"
  | .readState, e => s!"read state.json: {e}"
  | .buildConfig, e => s!"build snapshot.cfg: {e}"
  | .mergeBase, e => s!"merge memory base: {e}"
  | .buildSource, e => s!"build Snapshot S: {e}"
  | .absorb, e => s!"absorb Snapshot S: {e}"
  | .commit, e => s!"commit Snapshot S: {e}"
  | .closeSink, e => s!"close artifact sink: {e}"
  | _, e => e

/-- The request, and what the handler was given. -/
structure Setup where
  resumeAfter : Bool
  servers : Nat
  /-- `reattachMUX`, `chProcess`, `chExited`, `forwarder` and `pinger` are not nil. -/
  reattach : Bool
  chProcess : Bool
  chExited : Bool
  forwarder : Bool
  pinger : Bool
  /-- The memory is merged with a parent snapshot. -/
  mergesMemory : Bool

/-- How the attempts to end the VMM come out. -/
structure Teardown where
  shutdownVMM : Reply
  sigterm : Option String
  sigkill : Option String
  /-- `chExited` is closed in the time given before and after SIGKILL. -/
  exitsInGrace : Bool
  exitsAfterKill : Bool

/-- How every step of a run comes out; `none` is success. -/
structure Outcomes where
  /-- The checks before the memory barrier. -/
  preflight : Option String
  beginSnapshot : Option String
  liftMemoryHigh : Option String
  drain : Option String
  pausePinger : Option String
  quiesce : Option String
  step : CaptureStep → Option String
  pause : Reply
  resume : Reply
  /-- The deferred resume of `Take`. -/
  resumeDeferred : Reply
  /-- The deferred closes of `Take`. -/
  closeMemoryBase : Option String
  closeOpenSink : Option String
  deleteCheckpoints : Option String
  /-- The guest answers an attach. -/
  attach : Bool
  /-- The teardown after a failed recovery. -/
  recovery : Teardown
  /-- `context.Cause` after the capture. -/
  cause : Option String
  restoreMemoryHigh : Option String
  closeMemoryHighLock : Option String
  closeHistory : Option String
  /-- The response to the client. -/
  writeDeadline : Option String
  write : Option String
  /-- The teardown after the response. -/
  destroy : Teardown

structure State where
  vm : Vm
  /-- The VMM has taken a request or a signal to end, or was seen to exit. -/
  shutdown : Bool
  quiesceSent : Bool
  /-- The guest was attached after the last quiesce. -/
  attached : Bool
  forwarderPaused : Bool
  pingerPaused : Bool
  events : List Event
  /-- Variables of the handler. -/
  guestRecoveryRequired : Bool
  recoveryTerminated : Bool
  forwarderNeedsAbort : Bool
  /-- Variables of `Take`. -/
  resumed : Bool
  backendsResumed : Bool
  succeeded : Bool
  sinkOpen : Bool
  retain : Bool
  memoryBaseOpen : Bool
  /-- The response was written. -/
  answered : Bool

structure Response where
  /-- The continuation that tears the VMM down. -/
  afterWrite : Bool
deriving DecidableEq

def Response.empty : Response := ⟨false⟩

/-- What a handler returns. -/
structure Returned where
  response : Response
  err : Option Failure

abbrev Code (α : Type) := Proc State Failure α

/-- A sandbox that runs, with open gates. -/
def State.initial : State where
  vm := .running
  shutdown := false
  quiesceSent := false
  attached := false
  forwarderPaused := false
  pingerPaused := false
  events := []
  guestRecoveryRequired := false
  recoveryTerminated := false
  forwarderNeedsAbort := false
  resumed := false
  backendsResumed := false
  succeeded := false
  sinkOpen := true
  retain := false
  memoryBaseOpen := false
  answered := false

/-! ## `snapshot.Take` -/

section Take

variable (s : Setup) (o : Outcomes)

/-- A step that only succeeds or fails. -/
def attempt (outcome : Option String) (text : String → String) : Code Unit :=
  match outcome with
  | none => pure ()
  | some e => Proc.fail (.of (text e))

def captureStep (step : CaptureStep) : Code Unit := attempt (o.step step) step.text

/-- `allQuiescer.Quiesce` -/
def quiesceBackends : Code Unit :=
  Proc.modify fun w => { w with events := w.events ++ (List.range s.servers).map .quiesce }

/-- `allQuiescer.Resume`, last server first -/
def resumeBackends : Code Unit :=
  Proc.modify fun w => { w with events := w.events ++ (List.range s.servers).reverse.map .resume }

def chPause : Code Unit :=
  match o.pause with
  | .ok => Proc.modify fun w => { w with vm := .paused }
  | .lost => do
    Proc.modify fun w => { w with vm := .paused }
    Proc.fail (.of "CH pause: no reply")
  | .failed => Proc.fail (.of "CH pause: refused")

def chResume (reply : Reply) : Code Unit :=
  match reply with
  | .ok => Proc.modify fun w => { w with vm := .running, events := w.events ++ [.chResume] }
  | .lost => do
    Proc.modify fun w => { w with vm := .running, events := w.events ++ [.chResume] }
    Proc.fail (.of "CH resume: no reply")
  | .failed => do
    Proc.modify fun w => { w with events := w.events ++ [.chResume] }
    Proc.fail (.of "CH resume: refused")

/-- A deferred call that does not look at the result, and whose own error is ignored. -/
def afterwards {α : Type} (x : Code Unit) (r : Except Failure α) : Code α := fun w => (r, (x w).2)

/-- A deferred `err = errors.Join(err, close())`, where `close` is called in some states only. -/
def joining {α : Type} (called : State → Bool) (outcome : Option String) (r : Except Failure α) :
    Code α :=
  fun w => (if called w then joinError r outcome else r, w)

def deferredResumeBackends : Code Unit := do
  let w ← Proc.get
  if w.backendsResumed then pure () else resumeBackends s

def deferredResumeCH : Code Unit := do
  let w ← Proc.get
  if w.resumed = false ∧
    (w.succeeded = false ∨ s.resumeAfter = true) then chResume o.resumeDeferred else pure ()

/-- T8: resume. -/
def resumeAfterCapture : Code Unit :=
  if s.resumeAfter then do
    resumeBackends s
    Proc.modify fun w => { w with backendsResumed := true }
    chResume o.resume
    Proc.modify fun w => { w with resumed := true }
  else pure ()

/-- T6 to T8: the memory, the commit and the resume. -/
def captureMemoryAndCommit : Code Unit := do
  captureStep o .mergeBase
  Proc.modify fun w => { w with memoryBaseOpen := s.mergesMemory }
  captureStep o .buildSource
  Proc.modify fun w => { w with memoryBaseOpen := false }
  captureStep o .absorb
  captureStep o .diskCheckBeforeCommit
  Proc.modify fun w => { w with retain := true }
  captureStep o .commit
  captureStep o .committedRefs
  Proc.modify fun w => { w with sinkOpen := false }
  captureStep o .closeSink
  resumeAfterCapture s o
  captureStep o .diskCheckAtEnd
  Proc.modify fun w => { w with succeeded := true }

/-- T2b to T8: from the quiesce of the backends to the end. -/
def captureAtFreeze : Code Unit := do
  quiesceBackends s
  captureStep o .diskCheck
  captureStep o .captureSandbox
  captureStep o .chSnapshot
  captureStep o .readConfig
  captureStep o .readState
  captureStep o .buildConfig
  captureStep o .memory
  Proc.deferred (joining State.memoryBaseOpen o.closeMemoryBase) (captureMemoryAndCommit s o)

def take : Code Unit :=
  Proc.deferred (joining (fun w => !w.retain) o.deleteCheckpoints) <|
  Proc.deferred (joining State.sinkOpen o.closeOpenSink) do
    captureStep o .sources
    captureStep o .context
    captureStep o .waitReady
    chPause o
    Proc.deferred (afterwards (deferredResumeCH s o)) <|
      Proc.deferred (afterwards (deferredResumeBackends s)) <| captureAtFreeze s o

end Take

/-! ## `handleSnapshotRequest` -/

section Handler

variable (s : Setup) (o : Outcomes)

/-- The guest answers an attach only while it runs. -/
def reattachMUX : Code Unit := do
  let w ← Proc.get
  if o.attach = true ∧ w.vm = .running then Proc.modify fun w => { w with attached := true }
  else Proc.fail (.of "attach failed")

def reattachRunningGuest (reason : String) : Code Unit := do
  let w ← Proc.get
  if w.guestRecoveryRequired = false then pure ()
  else if s.reattach = false then
    Proc.fail
      (.of s!"snapshot: cannot recover guest after {reason}: stdio MUX re-attach is unavailable")
  else do
    reattachMUX o
    Proc.modify fun w => { w with guestRecoveryRequired := false }

/-- `ShutdownVMM`, with SIGTERM if it fails: the errors, and whether one of them was taken. -/
def requestShutdown (d : Teardown) : List String × Bool :=
  match d.shutdownVMM with
  | .ok => ([], true)
  | reply =>
    if s.chProcess = false then
      (["capture recovery teardown cannot signal Cloud Hypervisor"], decide (reply = .lost))
    else (d.sigterm.toList, decide (reply = .lost) || d.sigterm.isNone)

/-- The wait for the exit, with SIGKILL if there is none: the errors, and whether the VMM took the
signal or has exited. -/
def awaitExit (d : Teardown) : List String × Bool :=
  if s.chExited = false then ([], false)
  else if d.exitsInGrace then ([], true)
  else if s.chProcess = false then
    (["Cloud Hypervisor did not exit and no process signaler is available"], false)
  else
    (d.sigkill.toList ++
      if d.exitsAfterKill then [] else ["Cloud Hypervisor did not exit after SIGKILL"],
      d.sigkill.isNone || d.exitsAfterKill)

/-- `terminateAfterCaptureRecoveryFailure`: the errors, whether the VMM was reached, and `terminal`.
-/
def terminateAfterCaptureRecoveryFailure (d : Teardown) : List String × Bool × Bool :=
  if s.chProcess = false ∧ s.chExited = false then
    (["capture recovery failed and no Cloud Hypervisor lifecycle handle is available"], false,
      false)
  else ((requestShutdown s d).1 ++ (awaitExit s d).1, (requestShutdown s d).2 || (awaitExit s d).2,
    true)

def failRecovery (recoveryErr : Failure) : Code Unit := do
  let (errs, reached, terminal) := terminateAfterCaptureRecoveryFailure s o.recovery
  Proc.modify fun w => { w with shutdown := w.shutdown || reached, recoveryTerminated := terminal }
  Proc.fail ⟨recoveryErr.texts ++ errs, recoveryErr.terminal || terminal⟩

/-- `failRecovery(reattachRunningGuest(reason))` -/
def recover (reason : String) : Code Unit := do
  match ← (reattachRunningGuest s o reason).result with
  | .ok () => pure ()
  | .error e => failRecovery s o e

/-- `return errors.Join(err, x)` -/
def failAfter {α : Type} (err : Failure) (x : Code Unit) : Code α := do
  match ← x.result with
  | .ok () => Proc.fail err
  | .error e => Proc.fail (err.join e)

/-- The error of the code goes through a recovery. -/
def recovering {α : Type} (reason : String) (x : Code α) : Code α := do
  match ← x.result with
  | .ok a => pure a
  | .error e => failAfter e (recover s o reason)

/-- A successful destroy keeps what the deferred calls would undo. -/
def destroyed {α : Type} (r : Except Failure α) : Bool := r.isOk && !s.resumeAfter

/-- The deferred call of a gate: it stays closed after a success in destroy mode and when the
VMM is being terminated. -/
def release {α : Type} (present : Bool) (reopen : State → State) (r : Except Failure α) : Code α :=
  fun w =>
  (r, if present = false ∨ w.recoveryTerminated = true ∨ destroyed s r = true then w else reopen w)

def releaseForwarder {α : Type} : Except Failure α → Code α :=
  release s s.forwarder fun w => { w with forwarderPaused := false }

def releasePinger {α : Type} : Except Failure α → Code α :=
  release s s.pinger fun w => { w with pingerPaused := false }

/-- The deferred restore of memory.high. -/
def restoreMemoryHigh {α : Type} (r : Except Failure α) : Code α := fun w =>
  (if destroyed s r then r else joinError (joinError r o.restoreMemoryHigh) o.closeMemoryHighLock,
    w)

def pauseForwarder : Code Unit :=
  if s.forwarder then Proc.modify fun w =>
    { w with forwarderPaused := true, forwarderNeedsAbort := true }
  else pure ()

def pausePinger : Code Unit :=
  if s.pinger then
    match o.pausePinger with
    | none => Proc.modify fun w => { w with pingerPaused := true }
    | some e => do
      Proc.modify fun w => { w with pingerPaused := false }
      Proc.fail (.of s!"snapshot: drain pinger before quiesce: {e}")
  else pure ()

/-- The guest may have been quiesced even if its reply is lost. -/
def sendQuiesce : Code Unit := do
  Proc.modify fun w =>
    { w with guestRecoveryRequired := true, quiesceSent := true, attached := false }
  attempt o.quiesce fun e => s!"quiesce: {e}"

/-- The forwards are drained, after a quiesce or to give it up. -/
def drainForwarder : Code Unit := Proc.modify fun w => { w with forwarderNeedsAbort := false }

/-- The guest of a resumed VM is attached before success is reported. -/
def reattachAfterCapture : Code Unit :=
  if s.resumeAfter then recover s o "snapshot" else pure ()

/-- From the quiesce to the response. -/
def captureQuiesced : Code Response := do
  recovering s o "failed quiesce" (sendQuiesce o)
  drainForwarder
  recovering s o "failed snapshot" (take s o)
  reattachAfterCapture s o
  attempt o.cause id
  return ⟨!s.resumeAfter⟩

def captureGated : Code Response := do
  attempt o.drain fun e => s!"snapshot: drain VMM memory.high throttles: {e}"
  pauseForwarder s
  Proc.deferred (releaseForwarder s) do
    pausePinger s o
    Proc.deferred (releasePinger s) (captureQuiesced s o)

/-- After the checks. -/
def captureUnderBarrier : Code Response := do
  attempt o.beginSnapshot fun e => s!"snapshot: begin memory Budget barrier: {e}"
  attempt o.liftMemoryHigh fun e => s!"snapshot: lift VMM memory.high: {e}"
  Proc.deferred (restoreMemoryHigh s o) (captureGated s o)

/-- The checks before anything is closed. -/
def preflight : Option Failure :=
  if s.reattach = false ∧ (s.resumeAfter = true ∨ s.chProcess = false) then
    some (.of
      "snapshot: stdio MUX re-attach is unavailable and capture recovery cannot be guaranteed")
  else o.preflight.map .of

/-- The named results of the handler: an error of the body leaves an empty response, and an
error of the deferred close of the memory history comes on top. -/
def returned (r : Except Failure Response) : Returned :=
  match r, o.closeHistory with
  | .ok resp, none => ⟨resp, none⟩
  | .ok resp, some e => ⟨resp, some (.of e)⟩
  | .error err, none => ⟨.empty, some err⟩
  | .error err, some e => ⟨.empty, some (err.join (.of e))⟩

def handleSnapshotRequest (w : State) : Returned × State :=
  match preflight s o with
  | some e => (⟨.empty, some e⟩, w)
  | none =>
    let (r, w') := captureUnderBarrier s o w
    (returned o r, w')

/-- `destroyAfterSnapshot`; its errors are only logged. -/
def destroyAfterSnapshot : Code Unit :=
  Proc.modify fun w => { w with
    shutdown := w.shutdown || (requestShutdown s o.destroy).2 || (awaitExit s o.destroy).2 }

def writeMessage : Code Unit := do
  attempt o.write id
  Proc.modify fun w => { w with answered := true }

/-- `writeCaptureResponse`: the continuation runs whatever comes of the write. -/
def writeCaptureResponse (resp : Response) : Code Unit :=
  if resp.afterWrite then
    Proc.deferred (afterwards (destroyAfterSnapshot s o)) do
      attempt o.writeDeadline id
      writeMessage o
  else writeMessage o

/-- `Server.handle`: an error keeps the continuation. -/
def serveSnapshot (w : State) : State :=
  let (ret, w') := handleSnapshotRequest s o w
  (writeCaptureResponse s o ret.response w').2

end Handler

end Sandboxer.Sandbox.Capture
