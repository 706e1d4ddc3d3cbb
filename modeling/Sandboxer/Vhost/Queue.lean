import Sandboxer.Lib.Wire
import Sandboxer.Vhost.Request

/-! # The service of one queue

`processQueue` of `worker.go`: the available ring is read once, then every new
chain is served and published in the used ring. The memory table comes from
`BindRegions` of `memtable.go`. -/
namespace Sandboxer.Vhost

open Lib.Slices
open Lib.Wire (le)

variable {β : Type}

/-! ## The memory table -/

/-- `vhostMemoryRegion`, as the master sends it. -/
structure WireRegion where
  guestPhysAddr : UInt64
  memorySize : UInt64
  userspaceAddr : UInt64
  mmapOffset : UInt64
  deriving DecidableEq, Repr

/-- One turn of `BindRegions`: the region's bytes are a part of the slab and end there. -/
def WireRegion.bind (slab : Nat) (r : WireRegion) : Except GoError MemRegion :=
  let off := r.mmapOffset.toNat
  let size := r.memorySize.toNat
  if off > slab ∨ size > slab - off ∨ size > maxUint64 - r.guestPhysAddr.toNat ∨
      size > maxUint64 - r.userspaceAddr.toNat then
    .error (.text s!"vhost: region mmap_offset={off} size={size} exceeds slab len={slab}")
  else .ok ⟨r.guestPhysAddr.toNat, size, r.userspaceAddr.toNat, off, ⟨off, size, size⟩⟩

/-- `BindRegions`; `inodes` is what `Fstat` says of the descriptors. -/
def bindRegions (regs : List WireRegion) (inodes : List (Except GoError Nat))
    (expectedInode slab : Nat) :
    Except GoError (List MemRegion) :=
  if inodes.length ≠ regs.length then .error (.text "vhost: region/fd count mismatch")
  else if slab = 0 then .error (.text "vhost: BindRegions called with empty memfd slab")
  else (regs.zip inodes).mapM fun (r, inode) => do
    let inode ← inode
    if inode ≠ expectedInode then
      .error (.text
        s!"vhost: region inode {inode} != expected {expectedInode} (unified-memfd invariant)")
    else r.bind slab

/-! ## Rings -/

/-- The addresses of a queue and the next entry of the available ring. -/
structure Vring extends Virtq where
  availAddr : Nat
  usedAddr : Nat
  baseIdx : Nat

/-- `validateVringHeader`; the slab is page aligned, so a cell is as aligned as its number. -/
def validateVringHeader (hdr : Slice) (addr alignment : Nat) : Serve β Unit := do
  failIf (hdr.len < 4) (.text s!"vhost: short vring header: {hdr.len}")
  failIf (addr % alignment ≠ 0 ∨ hdr.base % alignment ≠ 0)
    (.text s!"vhost: vring address {addr} or host mapping is not {alignment}-byte aligned")

/-- `loadAvailIdxAcquire`: the aligned word that holds the index. -/
def loadAvailIdxAcquire (hdr : Slice) (addr : Nat) : Serve β Nat := do
  validateVringHeader hdr addr 2
  if hdr.base % 4 = 0 then return littleEndian ((← bytesOf (hdr.take 4)).drop 2)
  else
    failIf (hdr.len < 6)
      (.text "vhost: available ring needs six mapped bytes for aligned index load")
    return littleEndian ((← bytesOf ((hdr.drop 2).take 4)).take 2)

/-- The entries of the available ring, from the `i`-th on. -/
def readRing (hdr : Slice) : Nat → Nat → Serve β (List Nat)
  | 0, _ => pure []
  | n + 1, i => do
    let entry := littleEndian (← bytesOf ((hdr.drop (4 + i * 2)).take 2))
    return entry :: (← readRing hdr n (i + 1))

structure AvailSnapshot where
  flags : Nat
  idx : Nat
  ring : List Nat

variable (h : Host β) (q : Vring)

def readAvailRing : Serve β AvailSnapshot := do
  let hdr ← translateUVA h q.availAddr (4 + q.num * 2)
  let idx ← loadAvailIdxAcquire hdr q.availAddr
  let flags := littleEndian (← bytesOf (hdr.take 2))
  return ⟨flags, idx, ← readRing hdr q.num 0⟩

/-- `publishUsed`: the entry is written, then the index after it. -/
def publishUsed (descIdx length : Nat) : Serve β Unit := do
  let usedHeader ← writableUVA h q.usedAddr 4
  validateVringHeader usedHeader q.usedAddr 4
  let header ← bytesOf usedHeader
  let usedIdx := littleEndian (header.drop 2)
  let entryOffset := 4 + usedIdx % q.num * 8
  failIf (entryOffset > maxUint64 - q.usedAddr) (.terminal (.text "vhost: used address overflow"))
  let entry ← writableUVA h (q.usedAddr + entryOffset) 8
  copyTo (entry.take 4) (le 4 descIdx)
  copyTo ((entry.drop 4).take 4) (le 4 length)
  copyTo usedHeader (header.take 2 ++ le 2 (usedIdx + 1))

/-! ## The loop -/

/-- A result or the error, with the state either left. -/
def attempt {α : Type} (x : Serve β α) : Serve β (Except GoError α) := fun s =>
  match x s with
  | .ok a s' => .ok (.ok a) s'
  | .error e s' => .ok (.error e) s'

/-- One turn of `processQueue`: a chain that fails without a terminal error is
published with no bytes written. -/
def serveEntry (descIdx : Nat) : Serve β Unit := do
  note .request
  unlessStopped h
  match ← attempt (processChain h q.toVirtq descIdx) with
  | .ok written => do
    unlessStopped h
    publishUsed h q descIdx written
  | .error e =>
    if isTerminal e then throw e
    else do
      unlessStopped h
      publishUsed h q descIdx 0

/-- The loop of `processQueue`: where the queue got to, and the error. Every other
16-bit index is less than `65536` turns away. -/
def serveEntries (avail : AvailSnapshot) : Nat → Nat → Serve β (Nat × Option GoError)
  | 0, baseIdx => pure (baseIdx, none)
  | fuel + 1, baseIdx =>
    if baseIdx = avail.idx then pure (baseIdx, none)
    else do
      match ← attempt (serveEntry h q (avail.ring.getD (baseIdx % q.num) 0)) with
      | .error e => return (baseIdx, some e)
      | .ok () => serveEntries avail fuel ((baseIdx + 1) % 65536)

/-- `processQueue`, up to the notification. -/
def processQueue : Serve β (Nat × Option GoError) := do
  match ← attempt (readAvailRing h q) with
  | .error e => return (q.baseIdx, some e)
  | .ok avail => serveEntries h q avail 65536 q.baseIdx

end Sandboxer.Vhost
