import Sandboxer.Lib.Threads
import Sandboxer.Diffstore.Blocks

/-! # The block cache

`Cache` of `cow_cache.go` and what its functions do in one critical section of
`mu`. Page payloads are values here, so the buffer pool is gone: a payload
taken from it is cleared. Statistics, hooks and the waking of waiters are left
out; a wait is a retry. -/
namespace Sandboxer.Diffstore

inductive CacheState where
  | loading
  | constructing
  | clean
  | dirty
  | writeback
  | discarding
  deriving DecidableEq, Repr

/-- Frontend requests, the writeback worker, and the materializer of a disk. -/
inductive Thread where
  | front (n : Nat)
  | worker
  | material (disk : Nat)
  deriving DecidableEq, Repr

/-- `cachePage`. The owner is ghost: who may change the page while it
is being loaded, constructed, discarded or written back. -/
structure CachePage where
  data : Option Block
  state : CacheState
  chargedDirty : Bool
  fresh : Bool
  zero : Bool
  owner : Option Thread

/-- What a read of the page delivers. -/
def CachePage.content (p : CachePage) : Block := if p.zero then zeroBlock else p.data.getD zeroBlock

/-- One of the block locks of a disk, with who holds it. -/
structure Stripe where
  writer : Option Thread
  readers : Thread → Bool

structure Config where
  capacity : Nat
  maxDirty : Nat
  disk : Nat → DiskConfig

/-- Ghost: what a read delivered for the positions `[lo, hi)`, and the presence
it went by when it read a snapshot view. -/
structure ReadRecord where
  disk : Nat
  lo : Nat
  hi : Nat
  view : Option (Nat → Bool)
  bytes : Nat → Byte

/-- Ghost: a block the backend stored, and for whom. -/
structure Applied where
  key : CacheKey
  content : Block
  thread : Thread

/-- `Cache`: its map with the keys of the map, the dirty reservations in all and
of each disk, and both lists. -/
structure Cache where
  pages : CacheKey → Option CachePage
  keys : List CacheKey
  dirtyUsed : Nat
  clients : Nat → Nat
  clean : List CacheKey
  dirty : List CacheKey

structure Shared extends Cache where
  /-- Logical upper presence. -/
  bitmap : CacheKey → Bool
  backend : CacheKey → Block
  /-- The blocks the backend keeps payload of. -/
  mapped : CacheKey → Bool
  stripes : Nat → Nat → Stripe
  /-- Whether the template pointer of a disk is set, who borrows the template,
  and whether it was closed. -/
  materialTemplate : Nat → Bool
  materialReaders : Nat → Thread → Bool
  templateClosed : Nat → Bool
  /-- Ghost: contents when the disks were attached, accepted mutations (latest
  first), and blocks discarded in the backend but not yet marked present. -/
  origin : CacheKey → Block
  history : List Mutation
  pending : CacheKey → Option Thread
  reads : List ReadRecord
  applied : List Applied

variable (s : Shared)

/-- The logical contents of a block. -/
def Shared.logical (k : CacheKey) : Block := contents s.origin s.history k

def Shared.logicalByte (d x : Nat) : Byte := (s.logical ⟨d, x / blockSize⟩).at x

/-! ## Pages -/

variable (c : Cache) (cfg : Config) (me : Thread)

namespace Cache

def setPage (k : CacheKey) (p : CachePage) : Cache :=
  { c with pages := Function.update c.pages k (some p) }

/-- One more dirty reservation for the page of `k`. -/
def charge (k : CacheKey) : Cache :=
  { c with
    dirtyUsed := c.dirtyUsed + 1
    clients := Function.update c.clients k.disk (c.clients k.disk + 1) }

def uncharge (k : CacheKey) : Cache :=
  { c with
    dirtyUsed := c.dirtyUsed - 1
    clients := Function.update c.clients k.disk (c.clients k.disk - 1) }

/-- Take the page of `k` off the list of its state. -/
def unlink (k : CacheKey) : CacheState → Cache
  | .clean => { c with clean := c.clean.erase k }
  | .dirty => { c with dirty := c.dirty.erase k }
  | _ => c

/-- `releaseLocked`. -/
def release (k : CacheKey) : Cache :=
  match c.pages k with
  | none => c
  | some p =>
    let c := c.unlink k p.state
    let c := if p.chargedDirty then c.uncharge k else c
    { c with pages := Function.update c.pages k none, keys := c.keys.erase k }

/-- The page `reserveLocked` puts in the map. -/
def enroll (k : CacheKey) (dirty : Bool) : Cache :=
  let c := if dirty then c.charge k else c
  { c.setPage k
      ⟨none, if dirty then .constructing else .loading, dirty, false, false, some me⟩ with
    keys := k :: c.keys }

/-- `reserveLocked`: a full cache gives up its oldest clean page. -/
def reserve (me : Thread) (k : CacheKey) (dirty : Bool) : Option Cache :=
  if c.keys.length = cfg.capacity then
    match c.clean with
    | [] => none
    | first :: _ => some ((c.release first).enroll me k dirty)
  else some (c.enroll me k dirty)

/-- `acquireDataLocked`. -/
def acquireData (k : CacheKey) : Cache :=
  match c.pages k with
  | none => c
  | some p => c.setPage k { p with data := some (p.data.getD zeroBlock) }

/-! ## Reads -/

/-- The reservations of `readColdRunLocked`: which blocks of the cold run got a
page. -/
def reserveRun (d : Nat) : Nat → Nat → Cache → List Bool × Cache
  | 0, _, c => ([], c)
  | n + 1, b, c =>
    if (c.pages ⟨d, b⟩).isSome then ([], c)
    else match c.reserve cfg me ⟨d, b⟩ false with
      | none =>
        let r := reserveRun d n (b + 1) c
        (false :: r.1, r.2)
      | some c' =>
        let r := reserveRun d n (b + 1) (c'.acquireData ⟨d, b⟩)
        (true :: r.1, r.2)

/-- A page moves to the end of the clean list. -/
def touch (k : CacheKey) : Cache := { c with clean := c.clean.erase k ++ [k] }

/-- A loaded page becomes clean. -/
def publishPage (k : CacheKey) (blk : Block) : Cache :=
  match c.pages k with
  | none => c
  | some p =>
    { c.setPage k { p with data := some blk, state := .clean, owner := none } with
      clean := c.clean ++ [k] }

/-- The reserved pages of a cold run become clean. -/
def publishRun (d : Nat) (blocks : Nat → Block) : Nat → List Bool → Cache → Cache
  | _, [], c => c
  | b, true :: rs, c => publishRun d blocks (b + 1) rs (c.publishPage ⟨d, b⟩ (blocks b))
  | b, false :: rs, c => publishRun d blocks (b + 1) rs c

/-- The reserved pages of a cold run are given back. -/
def releaseRun (d : Nat) : Nat → List Bool → Cache → Cache
  | _, [], c => c
  | b, true :: rs, c => releaseRun d (b + 1) rs (c.release ⟨d, b⟩)
  | b, false :: rs, c => releaseRun d (b + 1) rs c

/-! ## Discards -/

/-- The same disk has an accepted Zero that can give its quota back. -/
def pendingZero (d : Nat) : Bool :=
  c.keys.any fun q => q.disk == d && match c.pages q with
    | none => false
    | some p => p.chargedDirty && p.zero

/-- The page is taken off its list for a synchronous discard. -/
def freezeDiscard (c : Cache) (k : CacheKey) : Cache :=
  match c.pages k with
  | none => c
  | some p => (c.unlink k p.state).setPage k { p with state := .discarding, owner := some me }

def discardWaits (k : CacheKey) : Bool :=
  match c.pages k with
  | none => false
  | some p => p.state != .clean && p.state != .dirty

/-- The first section of `discard`; `false` is a wait. -/
def discardStep (ks : List CacheKey) (c : Cache) : Bool × Cache :=
  if ks.any c.discardWaits then (false, c) else (true, ks.foldl (freezeDiscard me) c)

/-! ## Writeback -/

/-- The page of a block may join a batch of its kind. -/
def batchable (d : Nat) (zero : Bool) (b : Nat) : Bool :=
  match c.pages ⟨d, b⟩ with
  | none => false
  | some p => p.state == .dirty && p.zero == zero

/-- A dirty page is frozen for writeback. -/
def freeze (k : CacheKey) : Cache :=
  match c.pages k with
  | none => c
  | some p => (c.unlink k .dirty).setPage k { p with state := .writeback, owner := some .worker }

/-- The first block of the run around a candidate, at most `n` blocks before it. -/
def walkBack (c : Cache) (d : Nat) (zero : Bool) : Nat → Nat → Nat
  | 0, b => b
  | n + 1, b => if 0 < b && c.batchable d zero (b - 1) then c.walkBack d zero n (b - 1) else b

/-- Freeze the run that starts at block `b`, at most `n` blocks. -/
def takeRun (d : Nat) (zero : Bool) : Nat → Nat → Cache → List CacheKey × Cache
  | 0, _, c => ([], c)
  | n + 1, b, c =>
    if c.batchable d zero b then
      let r := takeRun d zero n (b + 1) (c.freeze ⟨d, b⟩)
      (⟨d, b⟩ :: r.1, r.2)
    else ([], c)

/-- `maxWritebackPages`, and `maxWritebackMutations` for Zero. -/
def batchLimit (zero : Bool) : Nat := if zero then 1024 else 256

/-- Freeze the runs around the candidates until the batch is full. -/
def fillBatch (d : Nat) (zero : Bool) :
    List CacheKey → List CacheKey → Cache → List CacheKey × Cache
  | [], batch, c => (batch, c)
  | q :: qs, batch, c =>
    if batch.length = batchLimit zero then (batch, c)
    else if !c.batchable d zero q.block then fillBatch d zero qs batch c
    else
      let first := c.walkBack d zero (batchLimit zero - batch.length - 1) q.block
      let r := takeRun d zero (batchLimit zero - batch.length) first c
      fillBatch d zero qs (batch ++ r.1) r.2

def zeroPage (k : CacheKey) : Bool :=
  match c.pages k with
  | none => false
  | some p => p.zero

/-- The selection of `run`: the oldest dirty page of a writable backend, and
pages of its disk and kind around those queued behind it. -/
def selectBatch (eligible : Nat → Bool) (c : Cache) : List CacheKey × Cache :=
  match c.dirty.find? fun k => eligible k.disk with
  | none => ([], c)
  | some anchor =>
    let zero := c.zeroPage anchor
    let queued := c.dirty.dropWhile (· ≠ anchor)
    let candidates :=
      (queued.filter fun k => k.disk == anchor.disk && c.zeroPage k == zero).take (batchLimit zero)
    fillBatch anchor.disk zero candidates [] c

/-- `completeWritebackLocked` for one page. -/
def complete (k : CacheKey) : Cache :=
  match c.pages k with
  | none => c
  | some p =>
    if p.zero then c.release k
    else
      { (c.uncharge k).setPage k
          { p with state := .clean, fresh := false, chargedDirty := false, owner := none } with
        clean := c.clean ++ [k] }

/-- The selection of `repairSpacePressure`: all queued Zeros of the disk. -/
def selectCohort (d : Nat) (c : Cache) : List CacheKey × Cache :=
  let cohort := c.dirty.filter fun k => k.disk == d && c.zeroPage k
  (cohort, cohort.foldl freeze c)

end Cache

/-- The blocks `first .. last` of a disk. -/
def blockRange (d first last : Nat) : List CacheKey :=
  (List.range' first (last + 1 - first)).map fun b => ⟨d, b⟩

/-! ## Sections that reach beyond the cache -/

def Shared.onCache {α : Type} (f : Cache → α × Cache) (s : Shared) : α × Shared :=
  ((f s.toCache).1, { s with toCache := (f s.toCache).2 })

@[irreducible] def maxDiffScratchSize : Nat := 1048576

/-- What `read` found for the block at its position. -/
inductive ReadStep where
  | wait
  | hit (content : Block)
  | cold (reserved : List Bool)
  | edge (reserved : Bool)

/-- The section of `read` at position `pos` of a range that ends at `stop`. -/
def readStep (d pos stop : Nat) (c : Cache) : ReadStep × Cache :=
  let k : CacheKey := ⟨d, pos / blockSize⟩
  match c.pages k with
  | some p =>
    match p.state with
    | .loading | .constructing | .discarding => (.wait, c)
    | .clean => (.hit p.content, c.touch k)
    | .dirty | .writeback => (.hit p.content, c)
  | none =>
    if pos % blockSize = 0 ∧ blockSize ≤ stop - pos then
      let r := Cache.reserveRun cfg me d
        (min (maxDiffScratchSize / blockSize) ((stop - pos) / blockSize)) (pos / blockSize) c
      (.cold r.1, r.2)
    else
      match c.reserve cfg me k false with
      | none => (.edge false, c)
      | some c' => (.edge true, c'.acquireData k)

/-- A mutation is accepted: its page is dirty and the block is present. -/
def accept (c : Cache) (m : Mutation) (p : CachePage) : Shared :=
  { s with
    toCache := c.setPage m.key
      { p with state := .dirty, chargedDirty := true, owner := none }
    bitmap := Function.update s.bitmap m.key true
    history := m :: s.history }

def acceptWrite (c : Cache) (k : CacheKey) (p : CachePage) (blk : Block) (lo hi : Nat)
    (buf : Nat → Byte) : Shared :=
  accept s c (.write k lo hi buf) { p with data := some (blk.merge k.block lo hi buf), zero :=
    false }

/-- An explicit Zero has no payload. -/
def acceptZero (c : Cache) (k : CacheKey) (p : CachePage) : Shared :=
  accept s c (.zero k) { p with data := none, zero := true, fresh := false }

/-- A clean page becomes dirty: it is charged and changes its list. -/
def Cache.dirtied (k : CacheKey) : Cache :=
  { (c.unlink k .clean).charge k with dirty := c.dirty ++ [k] }

def Cache.queued (k : CacheKey) : Cache := { c with dirty := c.dirty ++ [k] }

inductive WriteStep where
  | retry
  | accepted
  | construct

/-- The first section of `write`. A partial write of an explicit Zero merges
into a cleared payload. -/
def writeStep (k : CacheKey) (lo hi : Nat) (buf : Nat → Byte) (upper : Bool) (s : Shared) :
    WriteStep × Shared :=
  match s.pages k with
  | some p =>
    match p.state with
    | .dirty => (.accepted, acceptWrite s s.toCache k p p.content lo hi buf)
    | .clean =>
      if s.dirtyUsed = cfg.maxDirty then (.retry, s)
      else (.accepted, acceptWrite s (s.dirtied k) k p (p.data.getD zeroBlock) lo hi buf)
    | _ => (.retry, s)
  | none =>
    if s.dirtyUsed = cfg.maxDirty then (.retry, s)
    else match s.reserve cfg me k true with
      | none => (.retry, s)
      | some c =>
        match c.pages k with
        | none => (.construct, { s with toCache := c })
        | some p => (.construct,
            { s with toCache := c.setPage k { p with data := some zeroBlock, fresh := !upper } })

/-- The second section of `write`, with the payload its initialization left in
the page. -/
def publishWrite (k : CacheKey) (blk : Block) (lo hi : Nat) (buf : Nat → Byte) (s : Shared) :
    Shared :=
  match s.pages k with
  | none => s
  | some p => acceptWrite s (s.queued k) k p blk lo hi buf

inductive ZeroStep where
  | retry
  | accepted
  | fallback

/-- The section of `stageZero`. -/
def zeroStep (k : CacheKey) (s : Shared) : ZeroStep × Shared :=
  let refuse : ZeroStep := if s.pendingZero k.disk then .retry else .fallback
  match s.pages k with
  | some p =>
    match p.state with
    | .dirty => (.accepted, acceptZero s s.toCache k p)
    | .clean =>
      if s.dirtyUsed = cfg.maxDirty then (refuse, s)
      else (.accepted, acceptZero s (s.dirtied k) k p)
    | _ => (.retry, s)
  | none =>
    if s.dirtyUsed = cfg.maxDirty ∨ (s.keys.length = cfg.capacity ∧ s.clean = []) then (refuse, s)
    else match s.reserve cfg me k true with
      | none => (.retry, s)
      | some c =>
        match c.pages k with
        | none => (.retry, { s with toCache := c })
        | some p => (.accepted, acceptZero s (c.queued k) k p)

/-- The last section of `discard`: pages are given back, blocks are marked. -/
def publishDiscard (k : CacheKey) : Shared :=
  { s with
    toCache := s.release k
    bitmap := Function.update s.bitmap k true
    pending := Function.update s.pending k none }

/-- The backend stores the page of `k`. -/
def applyPage (k : CacheKey) (s : Shared) : Shared :=
  match s.pages k with
  | none => s
  | some p =>
    { s with
      backend := Function.update s.backend k p.content
      mapped := Function.update s.mapped k !p.zero
      applied := ⟨k, p.content, me⟩ :: s.applied }

end Sandboxer.Diffstore
