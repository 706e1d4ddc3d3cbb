import Sandboxer.Lib.Slices

/-! # Guest memory as the vhost server sees it

`memtable.go` and what it works with: errors as Go values, the backend
interface, and the state a virtqueue worker acts on. A region's bytes are a
slice of the one memfd slab, so an address of the guest becomes a slice of
slab cells. Loading a page and recording it as dirty are callbacks whose
answers are arbitrary. -/
namespace Sandboxer.Vhost

open Lib.Slices

/-! ## Errors -/

/-- A Go error: a leaf, an error with one cause (`Unwrap() error`), one with
several (`Unwrap() []error`), or a terminal mark of `readretry`. -/
inductive GoError where
  | eof
  | eagain
  | unexpectedEOF
  | canceled
  | readOnly
  | text (message : String)
  | wrap (message : String) (cause : GoError)
  | join (causes : List GoError)
  | terminal (cause : GoError)

mutual

/-- `readretry.IsTerminal`. -/
def isTerminal : GoError → Bool
  | .terminal _ => true
  | .wrap _ e => isTerminal e
  | .join es => anyTerminal es
  | _ => false

def anyTerminal : List GoError → Bool
  | [] => false
  | e :: es => isTerminal e || anyTerminal es

end

mutual

/-- `errors.Is(err, ErrReadOnly)`. -/
def isReadOnly : GoError → Bool
  | .readOnly => true
  | .wrap _ e | .terminal e => isReadOnly e
  | .join es => anyReadOnly es
  | _ => false

def anyReadOnly : List GoError → Bool
  | [] => false
  | e :: es => isReadOnly e || anyReadOnly es

end

mutual

/-- `completeReadCompatible`; an empty join is not compatible. -/
def completeReadCompatible : GoError → Bool
  | .eof | .eagain => true
  | .wrap _ e | .terminal e => completeReadCompatible e
  | .join es => !es.isEmpty && allCompatible es
  | _ => false

def allCompatible : List GoError → Bool
  | [] => true
  | e :: es => completeReadCompatible e && allCompatible es

end

/-- `readretry.Terminal` on an error that is there. -/
def markTerminal (e : GoError) : GoError := if isTerminal e then e else .terminal e

/-! ## The backend -/

variable (β : Type)

/-- What `ReadAt` leaves: the buffer, the count, the error and the disk. -/
structure ReadResult where
  buf : List UInt8
  n : Int
  err : Option GoError
  disk : β

structure WriteResult where
  n : Int
  err : Option GoError
  disk : β

/-- `Backend`, over the states `β` of the disk behind it. -/
structure Backend where
  readAt : β → Int → List UInt8 → ReadResult β
  writeAt : β → Int → List UInt8 → WriteResult β
  flush : β → Option GoError × β
  discard : β → Int → Int → Option GoError × β
  supportsDiscard : Bool
  size : Int
  readOnly : Bool

/-! ## The state of a worker -/

/-- `MemRegion`; `mmap` is its `mmapBytes`, a slice of the slab. -/
structure MemRegion where
  guestPhysAddr : Nat
  memorySize : Nat
  userspaceAddr : Nat
  mmapOffset : Nat
  mmap : Slice

/-- What stays fixed while a request is served: the server, its memory table
with the two callbacks, and when the queue is stopped. Callbacks and the stop
may answer differently each time, by the number of times the queue was asked
whether it is stopped. -/
structure Host where
  backend : Backend β
  discardSupported : Bool
  /-- `features & bitVirtioBlkDiscard ≠ 0` -/
  discardNegotiated : Bool
  /-- requests are counted -/
  stats : Bool
  regions : List MemRegion
  ensureLoaded : Option (Nat → Nat → Nat → Option GoError)
  markDirty : Option (Nat → Nat → Nat → Option GoError)
  stopClosed : Nat → Bool
  ctxErr : Nat → Option GoError

/-- What the worker did with guest memory. -/
inductive Access where
  /-- the next request of the queue -/
  | request
  /-- `EnsureLoaded` returned nil for these bytes of the memfd -/
  | loaded (off len : Nat)
  /-- these bytes were passed to `MarkDirty` -/
  | marked (off len : Nat)
  | read (s : Slice)
  | write (s : Slice)
  deriving DecidableEq, Repr

structure Machine where
  mem : Nat → UInt8
  disk : β
  /-- how often the queue was asked whether it is stopped -/
  polls : Nat
  /-- the accesses so far, the last one first -/
  trace : List Access

/-- Code of the worker; an error keeps the state it was raised in. -/
abbrev Serve := EStateM GoError (Machine β)

variable {β : Type} (h : Host β)

/-- `ctx.Err()` of the queue's context. -/
def readContextErr : Serve β (Option GoError) := fun s =>
  .ok (h.ctxErr s.polls) { s with polls := s.polls + 1 }

/-- `virtq.stopped`. -/
def stopped : Serve β (Option GoError) := fun s =>
  .ok (if h.stopClosed s.polls then some (.terminal .canceled) else (h.ctxErr s.polls).map
    markTerminal)
    { s with polls := s.polls + 1 }

def note (a : Access) : Serve β Unit := fun m => .ok () { m with trace := a :: m.trace }

def bytesOf (s : Slice) : Serve β (List UInt8) := fun m =>
  .ok (load m.mem s.cells) { m with trace := .read s :: m.trace }

def copyTo (s : Slice) (xs : List UInt8) : Serve β Unit := fun m =>
  .ok () { m with mem := store m.mem s.cells xs, trace := .write s :: m.trace }

/-! ## Translation -/

def maxUint64 : Nat := 18446744073709551615

/-- The address the region starts at, in the guest or in the master. -/
def MemRegion.base (r : MemRegion) (uva : Bool) : Nat :=
  if uva then r.userspaceAddr else r.guestPhysAddr

def MemRegion.covers (uva : Bool) (addr length : Nat) (r : MemRegion) : Bool :=
  decide (r.base uva ≤ addr) && decide (addr - r.base uva ≤ r.memorySize) &&
    decide (length ≤ r.memorySize - (addr - r.base uva))

def MemRegion.invalid (off length : Nat) (r : MemRegion) : Bool :=
  decide (off > r.mmap.len) || decide (length > r.mmap.len - off) ||
    decide (off > maxUint64 - r.mmapOffset) || decide (length > maxUint64 - (r.mmapOffset + off))

def failOn (mark : GoError → GoError) : Option GoError → Serve β Unit
  | none => pure ()
  | some e => throw (markTerminal (mark e))

/-- Stop with `e` if the check finds something. -/
def failIf (c : Prop) [Decidable c] (e : GoError) : Serve β Unit :=
  if c then throw e else pure ()

/-- The call of `EnsureLoaded`. -/
def callLoaded (ensureLoaded : Nat → Nat → Nat → Option GoError) (off length : Nat) :
    Serve β Unit := do
  failOn (.wrap "vhost: prepare memory") (ensureLoaded (← get).polls off length)
  note (.loaded off length)

/-- The call of `MarkDirty` for a slice to write to, if it is bound. -/
def callMark (writable : Bool) (off length : Nat) : Serve β Unit :=
  match if writable then h.markDirty else none with
  | none => pure ()
  | some markDirty => do
    note (.marked off length)
    failOn id (markDirty (← get).polls off length)

/-- `MemTable.translate`. -/
def translate (addr length : Nat) (uva writable : Bool) : Serve β Slice := do
  failOn id (← readContextErr h)
  match h.ensureLoaded with
  | none => throw (.terminal (.text "vhost: memory population callback is not bound"))
  | some ensureLoaded =>
    failIf (length > maxUint64 - addr) (.terminal (.text "vhost: address range overflow"))
    match h.regions.find? (MemRegion.covers uva addr length) with
    | none => throw (.terminal (.text s!"vhost: address {addr} len {length} not in any region"))
    | some r =>
      let off := addr - r.base uva
      failIf (r.invalid off length) (.terminal (.text "vhost: invalid memory region coverage"))
      callLoaded ensureLoaded (r.mmapOffset + off) length
      failOn id (← readContextErr h)
      callMark h writable (r.mmapOffset + off) length
      return ⟨r.mmap.base + off, length, r.mmap.cap - off⟩

def translateGPA (gpa length : Nat) : Serve β Slice := translate h gpa length false false

def translateUVA (uva length : Nat) : Serve β Slice := translate h uva length true false

def writableGPA (gpa length : Nat) : Serve β Slice := translate h gpa length false true

def writableUVA (uva length : Nat) : Serve β Slice := translate h uva length true true

/-- `binary.LittleEndian`. -/
def littleEndian : List UInt8 → Nat
  | [] => 0
  | b :: bs => b.toNat + 256 * littleEndian bs

end Sandboxer.Vhost
