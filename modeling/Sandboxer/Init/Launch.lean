import Mathlib.Data.Finset.Basic
import Sandboxer.Lib.Threads

/-! # Launches, quiesce and resume in `sandbox-init`

The three ways a process enters the application cgroup (`restartApp`,
`pluginRegistry.launch`, `runExecSession`), each with its own gate, and the
reverse-channel requests that close and reopen the gates around a freeze
(`vsock.go`). Every connection, restart and backoff timer is a goroutine of its
own, so the code is that of a pool with any number of each. An exit of the app or
of a plugin, which starts a restart or a relaunch, may come at any time. -/
namespace Sandboxer.Init

open Lib.Threads

inductive Goroutine where
  /-- `restartApp` after an exit of the app -/
  | restart (n : Nat)
  /-- the first launch of every plugin -/
  | start
  /-- a backoff timer of a plugin -/
  | relaunch (plugin n : Nat)
  | exec (session : Nat)
  | quiesce (n : Nat)
  | restore (n : Nat)
  | attach (n : Nat)
  deriving DecidableEq, Repr

inductive Child where
  | app
  | plugin (p : Nat)
  | exec (session : Nat)
  deriving DecidableEq, Repr

/-! ## The exec registry -/

/-- `execRegistry`. A session stands for its connection and its wait channel. -/
structure ExecRegistry where
  waiters : Nat → Option Nat
  pending : Nat → Bool
  live : Finset Nat
  sessions : Finset Nat
  drained : Option Nat
  quiescing : Bool
  /-- the channels made for `drained`, and those that are closed -/
  made : Nat
  closed : Nat → Bool
  /-- the wait channel of the session holds a status -/
  status : Nat → Bool

namespace ExecRegistry

variable (r : ExecRegistry)

def beginSession (c : Nat) : Bool × ExecRegistry :=
  if r.quiescing then (false, r) else (true, { r with sessions := insert c r.sessions })

def endSession (c : Nat) : ExecRegistry :=
  let sessions := r.sessions.erase c
  match r.drained with
  | none => { r with sessions }
  | some ch =>
    if sessions = ∅ then { r with sessions, closed := Function.update r.closed ch true, drained :=
      none }
    else { r with sessions }

def register (c pid : Nat) : Bool × ExecRegistry :=
  if r.pending pid then
    (!r.quiescing, { r with
      pending := Function.update r.pending pid false
      status := Function.update r.status c true })
  else
    (!r.quiescing, { r with
      waiters := Function.update r.waiters pid (some c)
      live := insert pid r.live })

def deliver (pid : Nat) : ExecRegistry :=
  match r.waiters pid with
  | some c => { r with
      live := r.live.erase pid
      waiters := Function.update r.waiters pid none
      status := Function.update r.status c true }
  | none => { r with
      live := r.live.erase pid
      pending := Function.update r.pending pid true }

def done (pid : Nat) : ExecRegistry :=
  { r with
    waiters := Function.update r.waiters pid none
    live := r.live.erase pid
    pending := Function.update r.pending pid false }

/-- The channel that is closed when every admitted session has ended. -/
def beginQuiesce : Nat × ExecRegistry :=
  if r.sessions = ∅ then
    (r.made, { r with
      quiescing := true
      made := r.made + 1
      closed := Function.update r.closed r.made true })
  else
    match r.drained with
    | some ch => (ch, { r with quiescing := true })
    | none => (r.made, { r with
        quiescing := true
        made := r.made + 1
        closed := Function.update r.closed r.made false
        drained := some r.made })

def endQuiesce : ExecRegistry := { r with quiescing := false }

end ExecRegistry

/-! ## The guest -/

structure PluginRegistry where
  all : List Nat
  pending : Nat → Bool
  quiescing : Bool
  /-- looked at by every launch; nothing in the source sets it -/
  closed : Bool

/-- A process entered the application cgroup, in or outside the window between a
confirmed freeze and the next thaw. -/
structure Fork where
  child : Child
  quiesced : Bool
  deriving DecidableEq, Repr

structure Guest where
  shutdown : Bool
  /-- the gate of `restartApp` -/
  quiescing : Bool
  plugins : PluginRegistry
  exec : ExecRegistry
  /-- `cgroup.freeze` and the `frozen` key of `cgroup.events` -/
  freeze : Bool
  frozen : Bool
  /-- a freeze has been confirmed, and the cgroup has not been thawed since -/
  window : Bool
  /-- between the gate of a launch and its fork -/
  launching : Goroutine → Bool
  /-- a quiesce, restore or attach request that is being handled -/
  handling : Goroutine → Bool
  forks : List Fork
  /-- the admitted sessions at every confirmed freeze -/
  freezes : List (Finset Nat)

/-- What the timing of a run may be: a freeze may be confirmed while a launch is
between its gate and its fork, and requests may be handled at the same time. -/
structure Setting where
  plugins : List Nat
  overtakes : Prop
  overlaps : Prop

namespace Guest

variable (g : Guest)

def setLaunching (t : Goroutine) (b : Bool) : Guest :=
  { g with launching := Function.update g.launching t b }

def setHandling (t : Goroutine) (b : Bool) : Guest :=
  { g with handling := Function.update g.handling t b }

def setExec (r : ExecRegistry) : Guest := { g with exec := r }

def setPlugins (r : PluginRegistry) : Guest := { g with plugins := r }

def setPending (p : Nat) (b : Bool) : Guest :=
  g.setPlugins { g.plugins with pending := Function.update g.plugins.pending p b }

def record (child : Child) : Guest := { g with forks := ⟨child, g.window⟩ :: g.forks }

def confirm : Guest := { g with window := true, freezes := g.exec.sessions :: g.freezes }

def thaw : Guest := { g with freeze := false, frozen := false, window := false }

end Guest

/-- Moves of the kernel and of the reaper: the freezer completes what was written,
a signal asks for shutdown, and an exited child is delivered. -/
inductive Outside : Guest → Guest → Prop where
  | freezes {g : Guest} (h : g.freeze = true) : Outside g { g with frozen := true }
  | signals (g : Guest) : Outside g { g with shutdown := true }
  | reaps (g : Guest) (pid : Nat) : Outside g (g.setExec (g.exec.deliver pid))

/-! ## Launches -/

/-- A call that may succeed or fail. -/
def outcome : Prog Guest Bool := Prog.choose fun _ => True

variable (t : Goroutine)

/-- `clone3` into the application cgroup. -/
def fork (child : Child) : Prog Guest Nat :=
  Prog.atomic fun g _ g' => g' = (g.record child).setLaunching t false

/-- The launch ends before a child exists. -/
def giveUp : Prog Guest Unit := Prog.change (·.setLaunching t false)

/-- `phase2ForkApp` and what precedes it in `restartApp` once the gate is passed. -/
def forkApp : Prog Guest Unit := do
  -- `rewireApp`
  if !(← outcome) then giveUp t
  else if ← Prog.look (·.shutdown) then giveUp t
  else if ← outcome then
    let _ ← fork t .app
  else giveUp t

/-- `restartApp`. The loop waits out the snapshot window. -/
def restartApp : Nat → Prog Guest Unit
  | 0 => Prog.halt
  | fuel + 1 => do
    if ← Prog.look (·.shutdown) then pure ()
    else if ← Prog.exec fun g => if g.quiescing then (false, g) else
    (true, g.setLaunching t true) then
      forkApp t
    else restartApp fuel

/-- The critical section of `launch`: defer during a quiesce, or go on. -/
def launchGate (p : Nat) (g : Guest) : Bool × Guest :=
  if g.plugins.closed then (false, g)
  else if g.plugins.quiescing then (false, g.setPending p true)
  else (true, g.setLaunching t true)

/-- `pluginRegistry.launch`. A helper that could not be started is retried
by another timer. -/
def launch (p : Nat) : Prog Guest Unit := do
  if ← Prog.exec (launchGate t p) then
    if ← outcome then
      let _ ← fork t (.plugin p)
      Prog.change (·.setPending p false)
    else giveUp t
  else pure ()

/-- `pluginRegistry.start`. -/
def start : List Nat → Prog Guest Unit
  | [] => pure ()
  | p :: specs => do
    Prog.change fun g => g.setPlugins { g.plugins with all := g.plugins.all ++ [p] }
    launch t p
    start specs

def launchAll : List Nat → Prog Guest Unit
  | [] => pure ()
  | p :: ps => do
    launch t p
    launchAll ps

/-- `pluginRegistry.endQuiesce`. -/
def endQuiesce : Prog Guest Unit := do
  let pending ← Prog.exec fun g =>
    (g.plugins.all.filter g.plugins.pending, g.setPlugins { g.plugins with quiescing := false })
  launchAll t pending

/-- `forkExecChild` and the wait for the reaper. A child that registers during a
quiesce is killed, one that was admitted ends by itself or is killed: either way
the session goes on when its status has been delivered. -/
def forkExecChild (c : Nat) : Prog Guest Unit := do
  if ← outcome then
    let pid ← fork (.exec c) (.exec c)
    let _ ← Prog.exec fun g => ((g.exec.register c pid).1, g.setExec (g.exec.register c pid).2)
    Prog.atomic fun g (_ : Unit) g' => g.exec.status c = true ∧ g' = g
    Prog.change fun g => g.setExec (g.exec.done pid)
  else pure ()

/-- What an admitted session does; `setupAppStdio` may fail. -/
def serveExec (c : Nat) : Prog Guest Unit := do
  if ← outcome then forkExecChild c else pure ()

/-- `runExecSession`, from the decoded request to the deferred `endSession`. -/
def runExecSession (c : Nat) : Prog Guest Unit := do
  if ← Prog.exec fun g => ((g.exec.beginSession c).1, g.setExec (g.exec.beginSession c).2) then
    serveExec c
    Prog.change fun g => g.setExec (g.exec.endSession c)
  else pure ()

/-! ## Requests -/

section Requests

variable (S : Setting) (t : Goroutine)

def beginRequest : Prog Guest Unit :=
  Prog.atomic fun g _ g' => (S.overlaps ∨ ∀ u, g.handling u = false) ∧ g' = g.setHandling t true

def endRequest : Prog Guest Unit := Prog.change (·.setHandling t false)

/-- `quiesceExecSessions`. The timer may fire at any time. -/
def quiesceExecSessions : Prog Guest Bool := do
  let drained ← Prog.exec fun g => (g.exec.beginQuiesce.1, g.setExec g.exec.beginQuiesce.2)
  Prog.atomic fun g joined g' => (joined = true → g.exec.closed drained = true) ∧ g' = g

/-- `cgroupFrozen`; `none` is a failed read. -/
def cgroupFrozen : Prog Guest (Option Bool) :=
  Prog.atomic fun g r g' => (r = none ∨ r = some g.frozen) ∧ g' = g

/-- The poll of `cgroupFreeze`. The freeze is confirmed when it reads `frozen 1`. -/
def pollFrozen : Prog Guest (Option Bool) :=
  Prog.atomic fun g r g' =>
    (r = none ∧ g' = g) ∨ (r = some false ∧ g.frozen = false ∧ g' = g) ∨
      (r = some true ∧ g.frozen = true ∧ (S.overtakes ∨ ∀ u, g.launching u = false) ∧
        g' = g.confirm)

/-- The polls until the deadline. -/
def awaitFrozen : Nat → Prog Guest Bool
  | 0 => pure false
  | polls + 1 => do
    match ← pollFrozen S with
    | none => pure false
    | some true => pure true
    | some false => awaitFrozen polls

def cgroupFreeze (polls : Nat) : Prog Guest Bool := do
  if ← outcome then
    Prog.change fun g => { g with freeze := true }
    awaitFrozen S polls
  else pure false

def cgroupThaw : Prog Guest Bool :=
  Prog.atomic fun g ok g' => (ok = false ∧ g' = g) ∨ (ok = true ∧ g' = g.thaw)

/-- The thaw of an attach: only if the app is still frozen. -/
def thawIfFrozen : Prog Guest Bool := do
  match ← cgroupFrozen with
  | none => pure false
  | some true => cgroupThaw
  | some false => pure true

def resumeAfterThaw (thaw : Prog Guest Bool) : Prog Guest Unit := do
  if ← thaw then
    Prog.change fun g => g.setExec g.exec.endQuiesce
    endQuiesce t
    Prog.change fun g => { g with quiescing := false }
  else pure ()

/-- The gates are closed and the sessions joined before the freeze. -/
def closeAndFreeze (polls : Nat) : Prog Guest Unit := do
  Prog.change fun g => { g with quiescing := true }
  Prog.change fun g => g.setPlugins { g.plugins with quiescing := true }
  if ← quiesceExecSessions then
    let _ ← cgroupFreeze S polls
  else pure ()

/-- A request: its usage or epoch barrier may fail before it has an effect. -/
def request (body : Prog Guest Unit) : Prog Guest Unit := do
  beginRequest S t
  if ← outcome then
    body
    endRequest t
  else endRequest t

/-- The quiesce branch of `handleReverseConnShutdown`. -/
def handleQuiesce (polls : Nat) : Prog Guest Unit := request S t (closeAndFreeze S polls)

/-- The restore and attach branches, up to the reopened gates. -/
def handleResume (thaw : Prog Guest Bool) : Prog Guest Unit := request S t (resumeAfterThaw t thaw)

end Requests

/-! ## The supervisor -/

/-- The code of every goroutine; `fuel` bounds the loops that wait. -/
def goroutine (S : Setting) (fuel : Goroutine → Nat) : Goroutine → Prog Guest Unit
  | .restart n => restartApp (.restart n) (fuel (.restart n))
  | .start => start .start S.plugins
  | .relaunch p n => launch (.relaunch p n) p
  | .exec c => runExecSession c
  | .quiesce n => handleQuiesce S (.quiesce n) (fuel (.quiesce n))
  | .restore n => handleResume S (.restore n) cgroupThaw
  | .attach n => handleResume S (.attach n) thawIfFrozen

/-- The app has been started, and no request has come yet. -/
def launched : Guest where
  shutdown := false
  quiescing := false
  plugins := ⟨[], fun _ => false, false, false⟩
  exec := ⟨fun _ => none, fun _ => false, ∅, ∅, none, false, 0, fun _ => false, fun _ => false⟩
  freeze := false
  frozen := false
  window := false
  launching _ := false
  handling _ := false
  forks := []
  freezes := []

def supervisor (S : Setting) (fuel : Goroutine → Nat) : Pool Guest Goroutine :=
  ⟨launched, goroutine S fuel⟩

end Sandboxer.Init
