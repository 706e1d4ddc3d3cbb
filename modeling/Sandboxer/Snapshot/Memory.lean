import Sandboxer.Uffd.Capture

/-! # Memory sources

`CaptureMemory` turns a capture view into a three-state source: Data is read
from the memfd, Zero masks what lies below and a Hole lets it through. A
layered reader takes run after run of the source over a baseline. -/
namespace Sandboxer.Snapshot
open Uffd

/-! ## Runs -/

/-- `memoryRun`; its bytes are those of the memfd when it is Data. -/
structure MemoryRun where
  off : Nat
  stop : Nat
  kind : RunKind
  deriving DecidableEq, Repr

/-- `memorySource`, with the page kinds its `resolve` is made of. -/
structure MemorySource where
  size : Nat
  kindAt : Nat → RunKind

/-- The loop of `resolve`: pages of one kind are joined up to `stop`. -/
def extendRun (kindAt : Nat → RunKind) (kind : RunKind) (stop cursor : Nat) : Nat :=
  if cursor < stop ∧ kindAt (cursor / pageSize) = kind then
    extendRun kindAt kind stop (min stop (cursor + pageSize))
  else cursor
termination_by stop - cursor
decreasing_by
  have := pageSize_pos
  omega

variable (src : MemorySource)

def MemorySource.resolve (off limit : Nat) : MemoryRun :=
  let kind := src.kindAt (off / pageSize)
  let stop := min src.size (off + limit)
  ⟨off, extendRun src.kindAt kind stop (min stop ((off / pageSize + 1) * pageSize)), kind⟩

/-- `memorySource.RunAt`; `none` is the end of the source or the error of an
empty limit. -/
def MemorySource.runAt (off limit : Nat) : Option MemoryRun :=
  if src.size ≤ off then none
  else if limit = 0 then none
  else some (src.resolve off (min limit (src.size - off)))

def validMemoryRun (r : MemoryRun) (off stop : Nat) : Bool :=
  r.off = off ∧ off < r.stop ∧ r.stop ≤ stop ∧ r.kind ≠ .other

/-- A byte of the memfd; a hole of the file reads as zero. -/
def memfdByte (mem : Memfd) (x : Nat) : Byte :=
  match mem (x / pageSize) with
  | some p => p ⟨x % pageSize, Nat.mod_lt _ pageSize_pos⟩
  | none => 0

/-- A byte of a run over a baseline: Data and Zero mask it, a Hole inherits. -/
def layerByte (mem : Memfd) (base : Nat → Byte) (kind : RunKind) (x : Nat) : Byte :=
  match kind with
  | .data => memfdByte mem x
  | .zero => 0
  | _ => base x

/-- The bytes `[off, stop)` of a source over a baseline, run by run as
`memorySource.ReadAt` takes them. -/
def layeredRead (mem : Memfd) (base : Nat → Byte) (off stop : Nat) : Option (List Byte) :=
  if stop ≤ off then some []
  else match src.runAt off (stop - off) with
    | none => none
    | some run =>
      if validMemoryRun run off stop then
        (layeredRead mem base run.stop stop).map
          ((List.range' off (run.stop - off)).map (layerByte mem base run.kind) ++ ·)
      else none
termination_by stop - off
decreasing_by
  rename_i hvalid
  simp only [validMemoryRun, decide_eq_true_eq] at hvalid
  omega

/-- Bytes of a bitmap over a RAM of `size` bytes. -/
def bitmapLength (size : Nat) : Nat := (size / pageSize + 7) / 8

/-- The length of a bitmap, and its unused bits. -/
def validBitmap (size : Nat) (b : Bitmap) : Bool :=
  b.length == bitmapLength size &&
    (List.range (8 * b.length)).all fun i => decide (i < size / pageSize) || !b.bit i

def dirtyHeaderSize : Nat := 16

def maxDirtyBytes : Nat := 64 <<< 20

/-- `EncodeDirty`, without its header. -/
def encodeDirty (memorySize : Nat) (bitmap : Bitmap) : Option Bitmap :=
  if memorySize = 0 ∨ memorySize % pageSize ≠ 0 ∨ bitmap.length ≠ bitmapLength memorySize ∨
      maxDirtyBytes - dirtyHeaderSize < bitmap.length then none
  else if validBitmap memorySize bitmap then some bitmap
  else none

variable (v : CaptureView)

/-- The kind of a page in C, and in W for `workingSet`. -/
def kindAt (workingSet : Bool) (page : Nat) : RunKind :=
  if v.materialized.bit page then
    if v.workingSetOnly || workingSet || v.dirty.bit page then .data else .hole
  else if v.released.bit page then .zero
  else .hole

/-- The pages of W that are not clean copies. -/
def dirtyBits : Bitmap where
  length := bitmapLength v.size
  bit i := (v.materialized.bit i && v.dirty.bit i) || (v.released.bit i && !v.materialized.bit i)

/-- `CaptureMemory`: the source, and the labels of W when it has clean copies. -/
def captureMemory (workingSet : Bool) : Option (MemorySource × Option Bitmap) :=
  if v.size = 0 ∨ v.size % pageSize ≠ 0 then none
  else if ¬[v.materialized, v.dirty, v.released].all (validBitmap v.size) then none
  else
    let source : MemorySource := ⟨v.size, kindAt v workingSet⟩
    let clean := (List.range (8 * bitmapLength v.size)).any fun i =>
      v.materialized.bit i && !v.dirty.bit i
    if workingSet && !v.workingSetOnly && clean then
      (encodeDirty v.size (dirtyBits v)).map fun bits => (source, some bits)
    else some (source, none)

end Sandboxer.Snapshot
