import Sandboxer.Vhost.Memory

/-! # Serving one descriptor chain

`walkChain` and `processChain` of `worker.go` with the reads of `read.go` and
the discard of `discard.go`. The four commands take header, payload and status
out of the same two lists of slices, each in its own way. -/
namespace Sandboxer.Vhost

open Lib.Slices

variable {β : Type}

/-! ## Descriptor chains -/

structure VringDesc where
  addr : Nat
  len : Nat
  flags : Nat
  next : Nat

namespace VringDesc

def hasNext (d : VringDesc) : Bool := d.flags.testBit 0

def isWrite (d : VringDesc) : Bool := d.flags.testBit 1

def isIndirect (d : VringDesc) : Bool := d.flags.testBit 2

end VringDesc

/-- The sixteen bytes of a descriptor. -/
def decodeDesc (b : List UInt8) : VringDesc :=
  ⟨littleEndian (b.take 8), littleEndian ((b.drop 8).take 4), littleEndian ((b.drop 12).take 2),
    littleEndian ((b.drop 14).take 2)⟩

/-- The part of `virtq` that finds a request. -/
structure Virtq where
  num : Nat
  descAddr : Nat

structure Chain where
  readSegs : List Slice
  writeSegs : List Slice

variable (h : Host β) (q : Virtq)

def readDesc (idx : Nat) : Serve β VringDesc := do
  failIf (idx * 16 > maxUint64 - q.descAddr)
    (.terminal (.text "vhost: descriptor address overflow"))
  let b ← translateUVA h (q.descAddr + idx * 16) 16
  return decodeDesc (← bytesOf b)

/-- `appendSeg`; a descriptor without bytes is skipped. -/
def appendSeg (c : Chain) (d : VringDesc) : Serve β Chain :=
  if d.len = 0 then pure c
  else if d.isWrite then do
    let hva ← writableGPA h d.addr d.len
    return { c with writeSegs := c.writeSegs ++ [hva] }
  else do
    let hva ← translateGPA h d.addr d.len
    return { c with readSegs := c.readSegs ++ [hva] }

/-- The descriptors of an indirect table, from the `i`-th on. -/
def appendIndirect (arr : Slice) : Nat → Nat → Chain → Serve β Chain
  | 0, _, c => pure c
  | n + 1, i, c => do
    let d := decodeDesc (← bytesOf ((arr.drop (i * 16)).take 16))
    appendIndirect arr n (i + 1) (← appendSeg h c d)

def invalidChain (idx : Nat) : GoError :=
  .text s!"vhost: invalid descriptor chain at index {idx} (ring size {q.num})"

/-- The loop of `walkChain`. Each turn raises `count`, so `q.num + 1` turns are
enough and the last of them fails. -/
def walkFrom : Nat → Nat → Nat → Chain → Serve β Chain
  | 0, _, idx, _ => throw (invalidChain q idx)
  | fuel + 1, count, idx, c => do
    failIf (count ≥ q.num ∨ idx ≥ q.num) (invalidChain q idx)
    let d ← readDesc h q idx
    if d.isIndirect then
      let n := d.len / 16
      failIf (n = 0 ∨ d.len % 16 ≠ 0 ∨ n > q.num - count)
        (.text s!"vhost: invalid indirect descriptor table length {d.len}")
      let arr ← translateGPA h d.addr (n * 16)
      let c ← appendIndirect h arr n 0 c
      if d.hasNext then walkFrom fuel (count + n) d.next c else pure c
    else
      let c ← appendSeg h c d
      if d.hasNext then walkFrom fuel (count + 1) d.next c else pure c

def walkChain (headIdx : Nat) : Serve β Chain :=
  walkFrom h q (q.num + 1) 0 headIdx ⟨[], []⟩

/-! ## Requests -/

inductive BlkType where
  | blkIn
  | out
  | flush
  | discard
  | other
  deriving DecidableEq, Repr

def BlkType.ofCode : Nat → BlkType
  | 0 => .blkIn
  | 1 => .out
  | 4 => .flush
  | 11 => .discard
  | _ => .other

def blkStatusOK : UInt8 := 0
def blkStatusIOErr : UInt8 := 1
def blkStatusUnsupp : UInt8 := 2

def sectorSize : Nat := 512

structure BlkReqHeader where
  type : BlkType
  sector : Nat

def parseBlkReqHeader (b : List UInt8) : Except GoError BlkReqHeader :=
  if b.length < 16 then .error (.text s!"vhost: blk req header too short: {b.length}")
  else .ok ⟨.ofCode (littleEndian (b.take 4)), littleEndian ((b.drop 8).take 8)⟩

/-- Two's complement: what an `int64` holds of a value. -/
def int64 (x : Int) : Int := x.bmod 18446744073709551616

/-! ## IN -/

def maxReadWindow : Nat := 1048576

def minDirectSpan : Nat := 262144

/-- `min(math.MaxUint32-1, math.MaxInt-1)` -/
def maxUsedLen : Nat := 4294967294

/-- The slices go on at `base + pos` until `length` cells are reached. -/
def continuesAt (base length : Nat) : Nat → List Slice → Bool
  | _, [] => false
  | pos, seg :: segs =>
    decide (base + pos = seg.base) &&
      (decide (seg.len ≥ length - pos) || continuesAt base length (pos + seg.len) segs)

def contiguousWindow (segs : List Slice) (length : Nat) : Option Slice :=
  match segs with
  | [] => none
  | first :: rest =>
    if first.len ≥ length then some ⟨first.base, length, length⟩
    else if first.cap < length then none
    else if continuesAt first.base length first.len rest then some ⟨first.base, length, length⟩
    else none

/-- The copy loop of a gathered window. -/
def gatherInto : List Slice → List UInt8 → Serve β (Option GoError)
  | [], _ => pure none
  | seg :: segs, front =>
    if front.isEmpty then pure none
    else do
      match ← stopped h with
      | some e => pure (some e)
      | none =>
        copyTo seg (front.take seg.len)
        gatherInto segs (front.drop seg.len)

/-- How a window is read: into guest memory directly, or through the scratch
buffer; a direct read of one large slice shortens the window. -/
def windowPlan (segs : List Slice) (length : Nat) : Option Slice × Nat :=
  match contiguousWindow segs length, segs with
  | some buf, _ => (some buf, length)
  | none, first :: _ =>
    if first.len ≥ minDirectSpan ∧ length - first.len ≥ minDirectSpan then
      (some ⟨first.base, first.len, first.len⟩, first.len)
    else (none, length)
  | none, [] => (none, length)

/-- `readBackendAt` into a buffer with the given bytes. -/
def readBackendAt (buf : List UInt8) (offset : Int) : Serve β (ReadResult β) := fun s =>
  .ok (h.backend.readAt s.disk offset buf)
    { s with disk := (h.backend.readAt s.disk offset buf).disk }

/-- The error of a window of which `n` bytes were read. -/
def windowErr (n length : Nat) (err : Option GoError) : Option GoError :=
  match err with
  | some e => if n = length ∧ completeReadCompatible e then none else some e
  | none => if n = length then none else some .unexpectedEOF

def readWindow (offset : Int) (segs : List Slice) (length : Nat) : Serve β (Nat × Option GoError) :=
  do
  let (direct, length) := windowPlan segs length
  let r ← match direct with
    | some buf => do
      let r ← readBackendAt h (← bytesOf buf) offset
      copyTo buf r.buf
      pure r
    | none => readBackendAt h (List.replicate length 0) offset
  if r.err.any isTerminal then return (0, r.err)
  if let some e ← stopped h then return (0, some e)
  if r.n < 0 ∨ r.n > length then
    return (0, some (.text s!"vhost: ReadAt returned {r.n} for a {length}-byte buffer"))
  if direct.isNone then
    if let some e ← gatherInto h segs (r.buf.take r.n.toNat) then return (0, some e)
  return (r.n.toNat, windowErr r.n.toNat length r.err)

/-- The slices after the first `n` cells. -/
def advance : Nat → List Slice → List Slice
  | _, [] => []
  | n, seg :: segs =>
    if n = 0 then seg :: segs
    else if n < seg.len then seg.drop n :: segs
    else advance (n - seg.len) segs

/-- The number of bytes of the slices, unless the used length cannot hold it. -/
def payloadLen : List Slice → Nat → Option Nat
  | [], total => some total
  | seg :: segs, total =>
    if seg.len > maxUsedLen - total then none else payloadLen segs (total + seg.len)

/-- The window loop of `readPayload`. A window that ends without an error is not
empty, so `total - done` turns are enough. -/
def readWindows (offset : Int) (total : Nat) :
    Nat → Nat → List Slice → Serve β (Nat × Option GoError)
  | 0, done, _ => pure (done, none)
  | fuel + 1, done, segs =>
    if done < total then do
      if let some e ← stopped h then return (done, some e)
      let (n, err) ← readWindow h (offset + done) segs (min (total - done) maxReadWindow)
      if err.isSome then return (done + n, err)
      readWindows offset total fuel (done + n) (advance n segs)
    else pure (done, none)

def readPayload (sector : Nat) (segs : List Slice) : Serve β (Nat × Option GoError) :=
  match payloadLen segs 0 with
  | none => pure (0, some (.text "vhost: read exceeds used length"))
  | some total =>
    if sector > 9223372036854775807 / sectorSize then
      pure (0, some (.text "vhost: sector offset overflow"))
    else if h.backend.size < 0 ∨
        (total : Int) > h.backend.size / sectorSize * sectorSize - (sector * sectorSize : Nat) then
      pure (0, some (.text "vhost: read exceeds disk capacity"))
    else readWindows h (sector * sectorSize : Nat) total total 0 segs

/-- The payload slices of an IN: the status byte is cut off the last one. -/
def withoutStatus (segs : List Slice) : List Slice :=
  match segs.getLast? with
  | none => []
  | some last =>
    if last.len - 1 = 0 then segs.dropLast else segs.dropLast ++ [last.take (last.len - 1)]

/-- The IN case of `processChain`: the status and the number of payload bytes. -/
def serveIn (sector : Nat) (c : Chain) : Serve β (UInt8 × Nat) := do
  let (n, err) ← readPayload h sector (withoutStatus c.writeSegs)
  match err with
  | none => return (blkStatusOK, n)
  | some e => if isTerminal e then throw e else return (blkStatusIOErr, n)

/-! ## OUT -/

def writeBackendAt (buf : List UInt8) (offset : Int) : Serve β (WriteResult β) := fun s =>
  .ok (h.backend.writeAt s.disk offset buf)
    { s with disk := (h.backend.writeAt s.disk offset buf).disk }

/-- The write loop of an OUT over the slices after the header. -/
def writeSegments : List Slice → Int → Serve β UInt8
  | [], _ => pure blkStatusOK
  | seg :: segs, offset => do
    let r ← writeBackendAt h (← bytesOf seg) offset
    if let some e := r.err then
      if isTerminal e then throw e
    if let some e ← stopped h then throw e
    match r.err with
    | some e => return if isReadOnly e then blkStatusUnsupp else blkStatusIOErr
    | none => writeSegments segs (int64 (offset + r.n))

/-- The OUT case: what shares a descriptor with the header is not looked at. -/
def serveOut (sector : Nat) (c : Chain) : Serve β UInt8 :=
  writeSegments h c.readSegs.tail (int64 (int64 sector * sectorSize))

/-! ## FLUSH and DISCARD -/

def serveFlush : Serve β UInt8 := fun s =>
  .ok (if (h.backend.flush s.disk).1.isSome then blkStatusIOErr else blkStatusOK)
    { s with disk := (h.backend.flush s.disk).2 }

def maxDiscardSectors : Nat := 8192

/-- The range bytes of a DISCARD, or nothing if there are more than sixteen. -/
def rangeBytes : List Slice → List UInt8 → Serve β (Option (List UInt8))
  | [], bytes => pure (some bytes)
  | seg :: segs, bytes => do
    if seg.len > 16 - bytes.length then return none
    rangeBytes segs (bytes ++ (← bytesOf seg))

/-- A DISCARD of the range that sixteen bytes spell. -/
def discardRange (b : Backend β) (d : β) (bytes : List UInt8) : UInt8 × β :=
  let sector := littleEndian (bytes.take 8)
  let count := littleEndian ((bytes.drop 8).take 4)
  let flags := littleEndian ((bytes.drop 12).take 4)
  if flags ≠ 0 then (blkStatusUnsupp, d)
  else if count > maxDiscardSectors ∨ b.size < 0 then (blkStatusIOErr, d)
  else
    let capacity := (b.size / sectorSize).toNat
    if sector > capacity ∨ count > capacity - sector then (blkStatusIOErr, d)
    else
      let r := b.discard d (sector * sectorSize : Nat) (count * sectorSize : Nat)
      (if r.1.isSome then blkStatusIOErr else blkStatusOK, r.2)

def discardChain (c : Chain) : Serve β UInt8 := do
  let segs := match c.readSegs with
    | [] => []
    | first :: rest => first.drop 16 :: rest
  match ← rangeBytes segs [] with
  | none => return blkStatusIOErr
  | some bytes =>
    if bytes.length ≠ 16 ∨ c.writeSegs.map Slice.len ≠ [1] then return blkStatusIOErr
    fun s =>
      let r := discardRange h.backend s.disk bytes
      .ok r.1 { s with disk := r.2 }

def serveDiscard (c : Chain) : Serve β UInt8 :=
  if !h.discardSupported || !h.discardNegotiated || h.backend.readOnly || !h.backend.supportsDiscard
    then
    pure blkStatusUnsupp
  else discardChain h c

/-! ## The request -/

/-- The command of a request: its status and the payload bytes it wrote. -/
def serveCommand (hdr : BlkReqHeader) (c : Chain) : Serve β (UInt8 × Nat) :=
  match hdr.type with
  | .blkIn => serveIn h hdr.sector c
  | .out => return (← serveOut h hdr.sector c, 0)
  | .flush => return (← serveFlush h, 0)
  | .discard => return (← serveDiscard h c, 0)
  | .other => pure (blkStatusUnsupp, 0)

/-- Stop with the error of a stopped queue. -/
def unlessStopped : Serve β Unit := do
  if let some e ← stopped h then throw e

/-- The counters of a request look at its status byte again. -/
def countStats (status : Slice) : Serve β Unit := do
  if h.stats then let _ ← bytesOf status

/-- A request after `walkChain`: the used length, with the status written last. -/
def serveChain (c : Chain) : Serve β Nat :=
  match c.readSegs, c.writeSegs.getLast? with
  | header :: _, some statusSeg => do
    let hdr ← match parseBlkReqHeader (← bytesOf header) with
      | .ok hdr => pure hdr
      | .error e => throw e
    let (statusValue, n) ← serveCommand h hdr c
    unlessStopped h
    copyTo (statusSeg.drop (statusSeg.len - 1)) [statusValue]
    countStats h (statusSeg.drop (statusSeg.len - 1))
    return n + 1
  | _, _ => throw (.text "vhost: chain missing header or status segment")

def processChain (headIdx : Nat) : Serve β Nat := do
  unlessStopped h
  serveChain h (← walkChain h q headIdx)

end Sandboxer.Vhost
