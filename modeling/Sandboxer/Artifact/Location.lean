import Sandboxer.Lib.Routines

/-! # Publication into a shared location

`location_target.go` and `location_bundle.go`: any number of publishers of one
content-addressed object create the final path exclusively and write into it,
or validate and reuse what is there. A file is an inode number, which is free
again when neither the path nor a descriptor holds it; `os.SameFile` compares
such numbers. Every system call is one action with its outcomes left open. -/
namespace Sandboxer.Artifact.Location

open Lib.Threads

/-- An inode: its creator, which creation it was, and what has been written. -/
structure File (ι : Type) where
  creator : ι
  birth : Nat
  bytes : List UInt8

/-- The descriptors of one publisher. -/
inductive Slot where
  | created
  | guard
  | verifier
  | existing
  deriving DecidableEq, Repr

inductive Failure where
  | exist
  | notExist
  | vanished
  | mismatch
  | io
  | canceled
  deriving DecidableEq, Repr

structure Directory (ι : Type) where
  path : Option Nat
  file : Nat → Option (File ι)
  opened : ι → Slot → Option Nat
  births : Nat
  /-- what the path has held, the last first -/
  views : List (Option (File ι))
  /-- what a publisher returned: the creation it published or reused -/
  result : ι → Option (Except Failure Nat)

/-- What the publishers write, what validation accepts, and who may fail after
its object is complete. -/
structure Setting (ι : Type) where
  encoding : ι → List UInt8
  valid : List UInt8 → Bool
  late : ι → Prop

variable {ι : Type} [DecidableEq ι]

namespace Directory

/-- The inode number can be given to a new file. -/
def Free (d : Directory ι) (i : Nat) : Prop := d.path ≠ some i ∧ ∀ u slot, d.opened u slot ≠ some i

def view (d : Directory ι) : Option (File ι) := d.path.bind d.file

def refresh (d : Directory ι) : Directory ι := { d with views := d.view :: d.views }

def setOpened (d : Directory ι) (t : ι) (slot : Slot) (i : Option Nat) : Directory ι :=
  { d with opened := Function.update d.opened t (Function.update (d.opened t) slot i) }

def create (d : Directory ι) (t : ι) (i : Nat) : Directory ι :=
  ({ d with
    path := some i
    file := Function.update d.file i (some ⟨t, d.births, []⟩)
    births := d.births + 1 }.setOpened t .created (some i)).refresh

def write (d : Directory ι) (i : Nat) (f : File ι) (bytes : List UInt8) : Directory ι :=
  { d with file := Function.update d.file i (some { f with bytes }) }.refresh

def unlink (d : Directory ι) : Directory ι := { d with path := none }.refresh

def setResult (d : Directory ι) (t : ι) (r : Except Failure Nat) : Directory ι :=
  { d with result := Function.update d.result t (some r) }

end Directory

/-! ## System calls -/

section Calls

variable (S : Setting ι) (t : ι)

/-- A step of the publisher may fail: its object is not complete, or it fails late. -/
def MayFail (d : Directory ι) : Prop :=
  S.late t ∨ ∀ i f, d.file i = some f → f.creator = t → f.bytes ≠ S.encoding t

/-- A call with no effect on the files. -/
def quiet (e : Failure) : Section (Directory ι) (Except Failure Unit) := fun d r d' =>
  d' = d ∧ (r = .ok () ∨ r = .error e ∧ MayFail S t d)

/-- `O_CREATE|O_EXCL` -/
def createExclusive : Section (Directory ι) (Except Failure Unit) := fun d r d' =>
  (d' = d ∧ d.path.isSome ∧ r = .error .exist) ∨ (d' = d ∧ MayFail S t d ∧ r = .error .io) ∨
    ∃ i, d.path = none ∧ d.Free i ∧ r = .ok () ∧ d' = d.create t i

/-- `O_RDONLY|O_NOFOLLOW` -/
def openNoFollow (slot : Slot) : Section (Directory ι) (Except Failure Unit) := fun d r d' =>
  (d' = d ∧ d.path = none ∧ r = .error .notExist) ∨ (d' = d ∧ MayFail S t d ∧ r = .error .io) ∨
    ∃ i, d.path = some i ∧ r = .ok () ∧ d' = d.setOpened t slot (some i)

def fstat (slot : Slot) : Section (Directory ι) (Except Failure Nat) := fun d r d' =>
  d' = d ∧ ((∃ i, d.opened t slot = some i ∧ r = .ok i) ∨ MayFail S t d ∧ r = .error .io)

def lstat : Section (Directory ι) (Except Failure Nat) := fun d r d' =>
  d' = d ∧ ((∃ i, d.path = some i ∧ r = .ok i) ∨ (d.path = none ∧ r = .error .notExist) ∨
    r = .error .io)

/-- One write of the encoder: `true` when all is written. An error can come after any part. -/
def writeSome : Section (Directory ι) (Except Failure Bool) := fun d r d' =>
  ∃ i f bytes, d.opened t .created = some i ∧ d.file i = some f ∧ f.bytes <+: bytes ∧
    bytes <+: S.encoding t ∧ d' = d.write i f bytes ∧
    ((r = .ok true ∧ bytes = S.encoding t) ∨ r = .ok false ∨ (∃ e, r = .error e ∧ MayFail S t d'))

/-- The content of a descriptor is read to its end and checked. -/
def validate (slot : Slot) : Section (Directory ι) (Except Failure Nat) := fun d r d' =>
  d' = d ∧ ∃ i f, d.opened t slot = some i ∧ d.file i = some f ∧
    ((r = .ok f.birth ∧ S.valid f.bytes = true) ∨
      ∃ e, r = .error e ∧ (MayFail S t d ∨ S.valid f.bytes = false))

/-- The descriptor is gone also when `Close` fails. -/
def close (slot : Slot) : Section (Directory ι) (Except Failure Unit) := fun d r d' =>
  d' = d.setOpened t slot none ∧ (r = .ok () ∨ r = .error .io ∧ MayFail S t d)

def remove : Section (Directory ι) (Except Failure Unit) := fun d r d' =>
  (d' = d ∧ r = .error .io) ∨ (d' = d.unlink ∧ r = .ok ())

end Calls

/-! ## Publishers

The private state of a publisher is `owned`: its failure path removes the final. -/

abbrev Publisher (ι α : Type) := Routine (Directory ι) Bool Failure α

def call {α : Type} (s : Section (Directory ι) (Except Failure α)) : Publisher ι α := do
  Routine.ofExcept (← Routine.lift (Prog.atomic s))

section Code

variable (S : Setting ι) (t : ι)

/-- Give up the final, and fail. -/
def disown {α : Type} (e : Failure) : Publisher ι α := do
  Routine.modify fun _ => false
  Routine.fail e

/-- The final path must still be the inode `owned`. -/
def checkPath (owned : Nat) : Publisher ι Unit := do
  match ← Routine.attempt (call lstat) with
  | .error e => disown e
  | .ok current => if current = owned then pure () else disown .vanished

/-- The descriptor must be of the inode `owned`. -/
def checkOpened (slot : Slot) (owned : Nat) : Publisher ι Unit := do
  let info ← call (fstat S t slot)
  if info = owned then pure () else disown .vanished

/-- The encoder writes until all is written. -/
def writeAll : Nat → Publisher ι Unit
  | 0 => Routine.lift Prog.halt
  | fuel + 1 => do
    if ← call (writeSome S t) then pure () else writeAll fuel

/-- `commitFreshLocationFile` between `Stat` and its deferred cleanup. -/
def commitBody (fuel owned : Nat) : Publisher ι Nat := do
  call (quiet S t .io)
  writeAll S t fuel
  checkPath owned
  call (openNoFollow S t .guard)
  checkOpened S t .guard owned
  call (close S t .created)
  call (openNoFollow S t .verifier)
  checkOpened S t .verifier owned
  let birth ← call (validate S t .verifier)
  checkPath owned
  Routine.modify fun _ => false
  call (close S t .verifier)
  call (close S t .guard)
  return birth

def removeOwned (owned : Nat) : Publisher ι Unit := do
  match ← Routine.attempt (call lstat) with
  | .error e => if e = .notExist then pure () else Routine.fail e
  | .ok current => if current = owned then call remove else pure ()

/-- A call whose error is only reported. -/
def tryTo (x : Publisher ι Unit) : Publisher ι Unit := do
  let _ ← Routine.attempt x
  pure ()

/-- The deferred cleanup: the removal comes before the descriptors are closed. -/
def cleanup (owned : Nat) : Publisher ι Unit := do
  tryTo (do if ← Routine.get then removeOwned owned else pure ())
  tryTo (call (close S t .verifier))
  tryTo (call (close S t .guard))
  tryTo (call (close S t .created))

def commitFreshLocationFile (fuel : Nat) : Publisher ι Nat := do
  match ← Routine.attempt (call (fstat S t .created)) with
  | .error e => do
    tryTo (call (close S t .created))
    Routine.fail e
  | .ok owned => do
    Routine.modify fun _ => true
    let r ← Routine.attempt (commitBody S t fuel owned)
    cleanup S t owned
    Routine.ofExcept r

/-- `validateFinal` and `validateBundleCopy` between the opening and its deferred close. -/
def validateBody : Publisher ι Nat := do
  let info ← call (fstat S t .existing)
  let birth ← call (validate S t .existing)
  match ← Routine.attempt (call lstat) with
  | .error e => Routine.fail (if e = .notExist then .vanished else e)
  | .ok current => if current = info then pure birth else Routine.fail .vanished

def validateFinal : Publisher ι Nat := do
  call (openNoFollow S t .existing)
  let r ← Routine.attempt (validateBody S t)
  call (close S t .existing)
  Routine.ofExcept r

/-- `reuseExisting`; a mismatch is looked at again until the window is over. -/
def reuseExisting : Nat → Publisher ι Nat
  | 0 => Routine.lift Prog.halt
  | fuel + 1 => do
    call (quiet S t .canceled)
    match ← Routine.attempt (validateFinal S t) with
    | .ok birth => pure birth
    | .error .notExist => Routine.fail .vanished
    | .error .mismatch => do
      if ← Routine.lift (Prog.choose fun _ : Bool => True) then Routine.fail .mismatch
      else reuseExisting fuel
    | .error e => Routine.fail e

/-- The loop that `Put` and `putBundleFile` share. -/
def publishLoop : Nat → Publisher ι Nat
  | 0 => Routine.lift Prog.halt
  | fuel + 1 => do
    call (quiet S t .canceled)
    match ← Routine.attempt (call (createExclusive S t)) with
    | .ok () => commitFreshLocationFile S t fuel
    | .error .exist => do
      match ← Routine.attempt (reuseExisting S t fuel) with
      | .ok birth => pure birth
      | .error .vanished => publishLoop fuel
      | .error e => Routine.fail e
    | .error e => Routine.fail e

def publisher (fuel : Nat) : Prog (Directory ι) Unit := do
  let r ← publishLoop S t fuel false
  Prog.change fun d => d.setResult t r.1

end Code

/-- Nothing is at the path, and nobody has started. -/
def emptyDirectory : Directory ι where
  path := none
  file _ := none
  opened _ _ := none
  births := 0
  views := [none]
  result _ := none

/-- Any number of publishers with any bounds on their loops. -/
def publishers (S : Setting ι) (fuel : ι → Nat) : Pool (Directory ι) ι :=
  ⟨emptyDirectory, fun t => publisher S t (fuel t)⟩

end Sandboxer.Artifact.Location
