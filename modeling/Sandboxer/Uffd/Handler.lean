import Sandboxer.Lib.Threads
import Sandboxer.Uffd.Memory

/-! # The userfaultfd handler

The fault workers, the tail worker, the event reader, `EnsureLoaded` callers
and the admission of further regions, from `uffd/fault.go`, `uffd/load.go`,
`uffd/handler.go` and `uffd/dirty.go`. A section that holds `installMu` is one
atomic action; source reads, lookups and queue operations outside it are
actions of their own, so everything may happen between them. The kernel decides
the outcome of each fill ioctl, the source the boundaries and contents of its
runs. Statistics, logging, time and the waking of fault waiters are left out. Fields marked as ghost
record
history for the statements only; no branch reads them. -/
namespace Sandboxer.Uffd
open Lib.Threads

/-! ## Configuration and snapshot source -/

def ordinaryDataFaultFillBytes : Nat := 64 * 1024
def ordinaryDataNeighborTailBytes : Nat := ordinaryDataFaultFillBytes - pageSize
def zeroFaultFillBytes : Nat := 64 * 1024
def zeroNeighborTailBytes : Nat := zeroFaultFillBytes - pageSize
def chunkFaultFillBytes : Nat := 1024 * 1024
def chunkNeighborTailBytes : Nat := chunkFaultFillBytes - pageSize

/-- What the handler needs of `Config`: the RAM size, the bytes of the snapshot
source, and what kind of source it is. -/
structure Config where
  size : Nat
  source : Nat → Byte
  zeroSource : Bool
  chunkWindows : Bool
  size_pos : 0 < size
  size_aligned : pageSize ∣ size
  zero : zeroSource = true → ∀ off, source off = 0

/-- Page `i` of the source: the content an absent page must get. -/
def Config.page (cfg : Config) (i : Nat) : Page := pageOf cfg.source i

def Config.tailBufLen (cfg : Config) : Nat :=
  if cfg.zeroSource then 0
  else if cfg.chunkWindows then chunkFaultFillBytes
  else ordinaryDataFaultFillBytes

inductive RunKind where
  | hole
  | zero
  | data
  | other
  deriving DecidableEq, Repr

/-- `sparse.Run`, with `stop` for its `End` and whether it is a `fetch.ChunkRun`. -/
structure Run where
  offset : Nat
  stop : Nat
  kind : RunKind
  chunk : Bool
  deriving DecidableEq, Repr

/-- The contract of a source: a run without data is zero there. -/
def Config.Honest (cfg : Config) (run : Run) : Prop :=
  run.kind = .hole ∨ run.kind = .zero → ∀ off, run.offset ≤ off → off < run.stop →
    cfg.source off = 0

/-! ## Shared state -/

inductive Errno where
  | eexist
  | eagain
  | enoent
  | einval
  | eopnotsupp
  | other
  deriving DecidableEq, Repr

/-- What a fill ioctl reports: completed bytes and an error. -/
structure Completion where
  bytes : Nat
  err : Option Errno
  deriving DecidableEq, Repr

inductive UffdError where
  | canceled
  | registrationLost
  | invalidCompletion
  | shortCompletion
  | unmapped
  | errno (e : Errno)
  deriving DecidableEq, Repr

inductive TailKind where
  | bufferedData
  | deferredData
  | zero
  deriving DecidableEq, Repr

/-- `tailTask`; `stop` is the source's `end`. -/
structure TailTask where
  kind : TailKind
  run : Run
  uffdFD : Nat
  dstVA : Nat
  pageIdx : Nat
  start : Nat
  stop : Nat
  bufferStart : Nat
  prefixStart : Nat
  expected : PageState

/-- The goroutines. A caller is one call of `EnsureLoaded`. -/
inductive Thread where
  | worker (n : Nat)
  | tail
  | reader
  | caller (n : Nat)
  | admission (n : Nat)
  deriving DecidableEq, Repr

/-- The speculative tail slot; `owner` is ghost: who may use the buffer. -/
structure Tail where
  busy : Bool
  queue : Option TailTask
  buf : Nat → Byte
  owner : Option Thread

inductive CaptureError where
  | releaseRange
  | releaseGap
  | unmap
  | eventStream
  | seed
  | faultRegistration
  | unexpectedEvent
  deriving DecidableEq, Repr

/-- `loadRequest`, with the call it belongs to. -/
structure LoadRequest where
  call : Nat
  seq : Nat
  offset : Nat
  deriving DecidableEq, Repr

/-- A fill ioctl that was issued, with what it was issued on (ghost). -/
structure Ioctl where
  fd : Nat
  dst : Nat
  pages : Nat
  data : Nat → Byte
  expected : PageState
  result : Completion
  map : AddressMap
  states : PageStateMap
  acked : Nat → Prop

/-- First memfd page of an ioctl's destination. -/
def AddressMap.pageAt (m : AddressMap) (dst : Nat) : Nat := (m.locate dst).getD 0 / pageSize

def Ioctl.page (e : Ioctl) : Nat := e.map.pageAt e.dst

/-- Pages the ioctl reported as installed. -/
def Ioctl.done (e : Ioctl) : Nat := e.result.bytes / pageSize

/-- Registrations, page states and the memfd: what `installMu` protects. -/
structure Core where
  addrMap : AddressMap
  state : PageStateMap
  dirty : Dirty
  released : Dirty
  captureError : Option CaptureError
  /-- The memfd. -/
  mem : Memfd
  /-- Ghost: pages covered by an acknowledged release. -/
  acked : Nat → Prop
  /-- Ghost: pages written by a vCPU or a backend, and pages punched. -/
  written : Nat → Prop
  punched : Nat → Prop
  /-- Ghost: the fill ioctls issued, latest first. -/
  log : List Ioctl

structure Shared extends Core where
  ctxDone : Bool
  closing : Bool
  tail : Tail
  requests : List LoadRequest
  replies : LoadRequest → Option (Except UffdError Unit)
  /-- Ghost: pages a call saw `loaded` in one of its sections. -/
  seen : Nat → Nat → Prop
  /-- Ghost: calls that returned nil, with their range. -/
  returned : Nat → Option (Nat × Nat)

/-! ## Fill ioctls under `installMu` -/

/-- What the kernel may report for a fill of `n` pages from page `p` on: a
prefix of holes was filled, and `EEXIST` names a resident page. -/
def Completion.Allowed (mem : Memfd) (p n : Nat) (r : Completion) : Prop :=
  ∃ k ≤ n, r.bytes = pageSize * k ∧ (∀ j < k, mem (p + j) = none) ∧
    (r.err = some .eexist → k < n ∧ (mem (p + k)).isSome)

/-- The memfd after `k` pages from `p` on were filled. -/
def fill (mem : Memfd) (p k : Nat) (data : Nat → Byte) : Memfd := fun i =>
  if p ≤ i ∧ i < p + k then some (pageOf data (i - p)) else mem i

/-- An `UFFDIO_COPY` of `n` pages, and `UFFDIO_ZEROPAGE` when the data is zero.
The kernel fills the memfd pages mapped at `dst`. -/
def ioctlFill (fd dst n : Nat) (data : Nat → Byte) (expected : PageState) :
    Section Shared Completion := fun s r s' =>
  r.Allowed s.mem (s.addrMap.pageAt dst) n ∧ (s.addrMap.locate dst = none → r.bytes = 0) ∧ s' =
    { s with
      mem := fill s.mem (s.addrMap.pageAt dst) (r.bytes / pageSize) data
      log := ⟨fd, dst, n, data, expected, r, s.addrMap, s.state, s.acked⟩ :: s.log }

/-- `markInstall`; `false` is its error. -/
def markInstall (fd dst length : Nat) : Section Shared Bool := do
  let m ← Section.read (·.addrMap)
  let d ← Section.read (·.dirty)
  match m.locate dst with
  | none => pure false
  | some off =>
    if m.owns fd dst off length then
      match d.mark off length with
      | none => pure false
      | some d' => do
        Section.modify fun s => { s with dirty := d' }
        pure true
    else pure false

/-- An `EEXIST` marks the range dirty; a failed mark replaces the error. -/
def markExisting (fd dst n : Nat) (r : Completion) : Section Shared Completion :=
  if r.err = some .eexist then do
    let ok ← markInstall fd dst (n * pageSize)
    pure (if ok then r else { r with err := some .other })
  else pure r

def copyCleanLocked (fd dst n : Nat) (data : Nat → Byte) (expected : PageState) :
    Section Shared Completion := do
  let r ← ioctlFill fd dst n data expected
  markExisting fd dst n r

/-- `zeroCleanLocked`: a kernel without `UFFDIO_ZEROPAGE` for shmem gets a copy
of the zero scratch buffer. -/
def zeroCleanLocked (fd dst n : Nat) (expected : PageState) : Section Shared Completion := do
  let r ← ioctlFill fd dst n (fun _ => 0) expected
  if r.bytes = 0 ∧ (r.err = some .einval ∨ r.err = some .eopnotsupp) then
    copyCleanLocked fd dst n (fun _ => 0) expected
  else markExisting fd dst n r

def checkedCompletion (completed requested : Nat) : Option Nat :=
  if requested < completed then none
  else if completed % pageSize ≠ 0 then none
  else some completed

/-- The `SetRangeIf(.., expected, StateLoaded)` on the shared map. -/
def commitLoaded (startIdx endIdx : Nat) (expected : PageState) : Section Shared Nat := do
  let r ← Section.read fun s => s.state.setRangeIf startIdx endIdx expected .loaded
  Section.modify fun s => { s with state := r.1 }
  pure r.2

/-- A commit under a condition; otherwise no page changes. -/
def commitWhen (c : Bool) (startIdx endIdx : Nat) (expected : PageState) : Section Shared Nat :=
  if c then commitLoaded startIdx endIdx expected else pure 0

/-- `finishUrgent`; the value is `tailEligible`. -/
def finishUrgent (pageIdx : Nat) (expected : PageState) (r : Completion) :
    Section Shared (Except UffdError Bool) :=
  match checkedCompletion r.bytes pageSize with
  | none => pure (.error .invalidCompletion)
  | some done => do
    let committed ← commitWhen (0 < done / pageSize) pageIdx (pageIdx + done / pageSize) expected
    match r.err with
    | none =>
      if done ≠ pageSize then pure (.error .shortCompletion)
      else pure (.ok (committed == 1))
    | some .eexist => do
      -- another actor installed the folio
      let _ ← commitWhen (done = 0) pageIdx (pageIdx + 1) expected
      pure (.ok false)
    | some .eagain => pure (.ok false)
    | some .enoent => pure (.ok false)
    | some e => pure (.error (.errno e))

def urgentZeroLocked (fd dst pageIdx : Nat) (expected : PageState) :
    Section Shared (Except UffdError Bool) := do
  let r ← zeroCleanLocked fd dst 1 expected
  finishUrgent pageIdx expected r

/-- What `urgentCopy` and `urgentZero` do when the page is no longer in the
state the fault was classified with: a loaded page is only woken, any other is
filled with zeros, and no tail follows. -/
def urgentStale (fd dst pageIdx : Nat) (state : PageState) :
    Section Shared (Except UffdError Bool) :=
  if state = .loaded then pure (.ok false)
  else do
    let r ← urgentZeroLocked fd dst pageIdx state
    pure (r.map fun _ => false)

def urgentCopy (fd dst pageIdx : Nat) (expected : PageState) (page : Nat → Byte) :
    Section Shared (Except UffdError Bool) := do
  let s ← Section.read id
  if s.ctxDone then pure (.error .canceled)
  else if !s.addrMap.owns fd dst (pageIdx * pageSize) pageSize then
    pure (.error .registrationLost)
  else if s.state.get pageIdx ≠ expected then urgentStale fd dst pageIdx (s.state.get pageIdx)
  else do
    let r ← copyCleanLocked fd dst 1 page expected
    finishUrgent pageIdx expected r

def urgentZero (fd dst pageIdx : Nat) (expected : PageState) :
    Section Shared (Except UffdError Bool) := do
  let s ← Section.read id
  if s.ctxDone then pure (.error .canceled)
  else if !s.addrMap.owns fd dst (pageIdx * pageSize) pageSize then
    pure (.error .registrationLost)
  else if s.state.get pageIdx ≠ expected then urgentStale fd dst pageIdx (s.state.get pageIdx)
  else urgentZeroLocked fd dst pageIdx expected

def tailFill (task : TailTask) (data : Nat → Byte) (n : Nat) : Section Shared Completion :=
  if task.kind = .zero then zeroCleanLocked task.uffdFD task.dstVA n task.expected
  else copyCleanLocked task.uffdFD task.dstVA n data task.expected

/-- `executeTailIO`; the value says that the whole requested length was filled. -/
def executeTailIo (task : TailTask) (data : Nat → Byte) (length : Nat) : Section Shared Bool := do
  let s ← Section.read id
  if s.ctxDone || !s.addrMap.owns task.uffdFD task.dstVA (task.pageIdx * pageSize) length then
    pure false
  else
    let valid := s.state.runLength task.pageIdx (length / pageSize) task.expected * pageSize
    if valid = 0 then pure false
    else do
      let r ← tailFill task data (valid / pageSize)
      match checkedCompletion r.bytes valid with
      | none => pure false
      | some done => do
        let pages := done / pageSize
        let changed ← commitWhen (0 < pages) task.pageIdx (task.pageIdx + pages) task.expected
        pure (!(0 < pages && changed != pages) && r.err.isNone && done == valid && valid == length)

end Sandboxer.Uffd
