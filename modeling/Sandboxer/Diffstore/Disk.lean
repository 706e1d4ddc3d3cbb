import Sandboxer.Diffstore.Cache

/-! # Disks

The frontend operations of `Disk`, the writeback worker of the cache and the
materializer of a template, as programs over the shared state. A critical
section of `mu`, `bitmapMu` or `materialMu` is one action, a backend or
template transfer is one action for each block, and the block locks are taken
and given back one by one. Errors of the base, of the template, of a backend
read and of a canceled context end an operation; a loop stops for good when its
fuel is used up. -/
namespace Sandboxer.Diffstore
open Lib.Threads Prog

variable (cfg : Config) (me : Thread)

/-! ## Block locks -/

def cowLockStripes : Nat := 256

def Shared.setStripe (s : Shared) (d i : Nat) (st : Stripe) : Shared :=
  { s with stripes := Function.update s.stripes d (Function.update (s.stripes d) i st) }

/-- A read lock is granted while nobody writes. -/
def rlockStripe (d i : Nat) : Prog Shared Unit :=
  atomic fun s _ s' => (s.stripes d i).writer = none ∧ s' = s.setStripe d i { s.stripes d i with
      readers := Function.update (s.stripes d i).readers me true }

def runlockStripe (d i : Nat) : Prog Shared Unit :=
  change fun s => s.setStripe d i { s.stripes d i with
    readers := Function.update (s.stripes d i).readers me false }

/-- A write lock is granted while nobody reads or writes. -/
def lockStripe (d i : Nat) : Prog Shared Unit :=
  atomic fun s _ s' => (s.stripes d i).writer = none ∧ (∀ t, (s.stripes d i).readers t = false) ∧
    s' = s.setStripe d i { s.stripes d i with writer := some me }

def unlockStripe (d i : Nat) : Prog Shared Unit :=
  change fun s => s.setStripe d i { s.stripes d i with writer := none }

/-- One operation on each stripe of a list, in order. -/
def eachStripe (f : Nat → Prog Shared Unit) : List Nat → Prog Shared Unit
  | [] => pure ()
  | i :: is => do
    f i
    eachStripe f is

/-- The stripes `rlockBlockRange` takes, in its order. -/
def rlockBlockRange (first last : Nat) : List Nat :=
  let blockCount := last - first + 1
  let firstStripe := first % cowLockStripes
  if cowLockStripes ≤ blockCount then List.range cowLockStripes
  else
    let stop := firstStripe + blockCount
    if stop ≤ cowLockStripes then List.range' firstStripe blockCount
    else List.range (stop - cowLockStripes) ++ List.range' firstStripe
      (cowLockStripes - firstStripe)

/-- The stripes `runlockBlockRange` gives back, in its order. -/
def runlockBlockRange (first last : Nat) : List Nat :=
  let blockCount := last - first + 1
  let firstStripe := first % cowLockStripes
  if cowLockStripes ≤ blockCount then (List.range cowLockStripes).reverse
  else
    let stop := firstStripe + blockCount
    if stop ≤ cowLockStripes then (List.range' firstStripe blockCount).reverse
    else (List.range' firstStripe (cowLockStripes - firstStripe)).reverse ++
      (List.range (stop - cowLockStripes)).reverse

/-- The stripes `lockBlockRange` takes, in numeric order. -/
def lockBlockRange (first last : Nat) : List Nat :=
  (List.range cowLockStripes).filter fun stripe =>
    (stripe + cowLockStripes - first % cowLockStripes) % cowLockStripes ≤ last - first

/-- The stripes `unlockBlockRange` gives back, in its order. -/
def unlockBlockRange (first last : Nat) : List Nat :=
  (List.range cowLockStripes).reverse.filter fun stripe =>
    (stripe + cowLockStripes - first % cowLockStripes) % cowLockStripes ≤ last - first

/-- The stripes of a materializer window, in numeric order. -/
def lockedStripes (first last : Nat) : List Nat :=
  (List.range cowLockStripes).filter fun stripe =>
    (List.range' first (last + 1 - first)).any fun b => b % cowLockStripes == stripe

/-- The stripes a materializer window gives back, in its order. -/
def unlockedStripes (first last : Nat) : List Nat :=
  (List.range cowLockStripes).reverse.filter fun stripe =>
    (List.range' first (last + 1 - first)).any fun b => b % cowLockStripes == stripe

/-! ## The layers below the diff -/

def fails : Prog Shared Bool := choose fun _ => True

def Shared.setReader (s : Shared) (d : Nat) (t : Thread) (v : Bool) : Shared :=
  { s with materialReaders :=
      Function.update s.materialReaders d (Function.update (s.materialReaders d) t v) }

/-- Borrow the template: the value says whether the pointer was set. -/
def borrowTemplate (d : Nat) : Prog Shared Bool :=
  exec fun s => (s.materialTemplate d, if s.materialTemplate d then s.setReader d me true else s)

def returnTemplate (d : Nat) (template : Bool) : Prog Shared Unit :=
  change fun s => if template then s.setReader d me false else s

/-- A read of the template; a closed one delivers anything. -/
def readTemplate (d : Nat) : Prog Shared (Nat → Byte) :=
  atomic fun s buf s' =>
    (s.templateClosed d = false → buf = (cfg.disk d).templateByte) ∧ s' = s

/-- The bytes `readLower` takes for the run `[pos, stop)` of one block. -/
def readLowerRun (d pos : Nat) (template : Bool) : Prog Shared (Nat → Byte) :=
  match template, (cfg.disk d).templateKind (pos / blockSize) with
  | true, .data => readTemplate cfg d
  | true, .zero => pure fun _ => 0
  | _, _ => pure (cfg.disk d).baseByte

/-- The loop of `readLower`: a run of the template may end anywhere in the
block. -/
def readLowerLoop (d : Nat) (template : Bool) (stop : Nat) :
    Nat → Nat → (Nat → Byte) → Prog Shared (Option (Nat → Byte))
  | 0, _, _ => halt
  | fuel + 1, pos, buf =>
    if stop ≤ pos then pure (some buf)
    else do
      let e ← choose fun e => pos < e ∧ e ≤ stop ∧ e ≤ (pos / blockSize + 1) * blockSize
      if ← fails then pure none
      else do
        let bytes ← readLowerRun cfg d pos template
        readLowerLoop d template stop fuel e (paste buf pos e bytes)

def readLower (fuel d pos stop : Nat) (buf : Nat → Byte) : Prog Shared (Option (Nat → Byte)) := do
  let template ← borrowTemplate me d
  let r ← readLowerLoop cfg d template stop fuel pos buf
  returnTemplate me d template
  pure r

/-! ## Reads -/

/-- A transfer of `n` blocks from the backend. -/
def readBackend (d : Nat) : Nat → Nat → (Nat → Block) → Prog Shared (Option (Nat → Block))
  | 0, _, blocks => pure (some blocks)
  | n + 1, b, blocks => do
    if ← fails then pure none
    else do
      let blk ← look fun s => s.backend ⟨d, b⟩
      readBackend d n (b + 1) (Function.update blocks b blk)

/-- The positions of a run of blocks. -/
def runBytes (blocks : Nat → Block) : Nat → Byte := fun x => (blocks (x / blockSize)).at x

/-- The rest of `readColdRunLocked`. -/
def finishCold (d b : Nat) (reserved : List Bool) : Prog Shared (Option (Nat → Block)) := do
  match ← readBackend d reserved.length b fun _ => zeroBlock with
  | none => do
    change fun s => { s with toCache := s.releaseRun d b reserved }
    pure none
  | some blocks => do
    if ← fails then do
      change fun s => { s with toCache := s.releaseRun d b reserved }
      pure none
    else do
      change fun s => { s with toCache := s.publishRun d blocks b reserved }
      pure (some blocks)

/-- The rest of `read` for a partial block. -/
def finishEdge (d b : Nat) (reserved : Bool) : Prog Shared (Option (Nat → Block)) :=
  if reserved then finishCold d b [true]
  else readBackend d 1 b fun _ => zeroBlock

/-- `Cache.read`, for the positions `[pos, stop)`. -/
def cacheRead (d stop : Nat) : Nat → Nat → (Nat → Byte) → Prog Shared (Option (Nat → Byte))
  | 0, _, _ => halt
  | fuel + 1, pos, buf =>
    if stop ≤ pos then pure (some buf)
    else do
      let next := min stop ((pos / blockSize + 1) * blockSize)
      if ← fails then pure none
      else do
        match ← exec (Shared.onCache (readStep cfg me d pos stop)) with
        | .wait => cacheRead d stop fuel pos buf
        | .hit blk => cacheRead d stop fuel next (paste buf pos next fun x => blk.at x)
        | .cold reserved => do
          match ← finishCold d (pos / blockSize) reserved with
          | none => pure none
          | some blocks =>
            let next := pos + reserved.length * blockSize
            cacheRead d stop fuel next (paste buf pos next (runBytes blocks))
        | .edge reserved => do
          match ← finishEdge d (pos / blockSize) reserved with
          | none => pure none
          | some blocks => cacheRead d stop fuel next (paste buf pos next (runBytes blocks))

/-- Presence as a read sees it: live, or the copy of a snapshot view. -/
def presence (view : Option (Nat → Bool)) (s : Shared) (d b : Nat) : Bool :=
  match view with
  | none => s.bitmap ⟨d, b⟩
  | some v => v b

/-- The end of the run of equal presence from `runEnd` on. -/
def presenceRun (bits : Nat → Bool) (upper : Bool) (stop : Nat) : Nat → Nat → Nat
  | 0, runEnd => runEnd
  | n + 1, runEnd =>
    if runEnd < stop ∧ bits (runEnd / blockSize) = upper then
      presenceRun bits upper stop n (min (runEnd + blockSize) stop)
    else runEnd

/-- Presence at `pos`, and where its run ends. -/
def findRun (view : Option (Nat → Bool)) (d pos stop : Nat) (s : Shared) : Bool × Nat :=
  let bits := presence view s d
  let upper := bits (pos / blockSize)
  (upper, presenceRun bits upper stop stop (min ((pos / blockSize + 1) * blockSize) stop))

/-- A run without upper presence. -/
def readAbsent (fuel d pos stop : Nat) (view : Option (Nat → Bool)) (buf : Nat → Byte) :
    Prog Shared (Option (Nat → Byte)) :=
  match view with
  | some _ => pure (some (paste buf pos stop fun _ => 0))
  | none => do
    let materializing ← look fun s => s.materialTemplate d
    if materializing then readLower cfg me fuel d pos stop buf
    else do
      if ← fails then pure none
      else pure (some (paste buf pos stop (cfg.disk d).baseByte))

def readRun (fuel d pos stop : Nat) (view : Option (Nat → Bool)) (upper : Bool)
    (buf : Nat → Byte) : Prog Shared (Option (Nat → Byte)) :=
  if upper then cacheRead cfg me d stop fuel pos buf
  else readAbsent cfg me fuel d pos stop view buf

def readRangeLocked (fuel d : Nat) (view : Option (Nat → Bool)) (stop : Nat) :
    Nat → Nat → (Nat → Byte) → Prog Shared (Option (Nat → Byte))
  | 0, _, _ => halt
  | n + 1, pos, buf =>
    if stop ≤ pos then pure (some buf)
    else do
      let r ← look (findRun view d pos stop)
      match ← readRun cfg me fuel d pos r.2 view r.1 buf with
      | none => pure none
      | some buf => readRangeLocked fuel d view stop n r.2 buf

/-- The window is delivered while its stripes are still held. -/
def deliver (d lo hi : Nat) (view : Option (Nat → Bool)) (buf : Option (Nat → Byte)) :
    Prog Shared Unit :=
  match buf with
  | some bytes => change fun s => { s with reads := ⟨d, lo, hi, view, bytes⟩ :: s.reads }
  | none => pure ()

/-- `readRange`: one window of stripes after the other. -/
def readRange (fuel d : Nat) (view : Option (Nat → Bool)) (stop : Nat) :
    Nat → Nat → (Nat → Byte) → Prog Shared (Option (Nat → Byte))
  | 0, _, _ => halt
  | n + 1, pos, buf =>
    if stop ≤ pos then pure (some buf)
    else do
      let hi := pos + min (stop - pos) (maxDiffScratchSize - pos % blockSize)
      let first := pos / blockSize
      let last := (hi - 1) / blockSize
      eachStripe (rlockStripe me d) (rlockBlockRange first last)
      let r ← readRangeLocked cfg me fuel d view hi fuel pos buf
      deliver d pos hi view r
      eachStripe (runlockStripe me d) (runlockBlockRange first last)
      match r with
      | none => pure none
      | some buf => readRange fuel d view stop n hi buf

/-! ## Writes -/

/-- The payload `writeBlockLocked` starts from. -/
def initPage (fuel d b lo hi : Nat) (upper : Bool) : Prog Shared (Option Block) :=
  if lo = b * blockSize ∧ hi = (b + 1) * blockSize then pure (some zeroBlock)
  else if upper then do
    match ← readBackend d 1 b fun _ => zeroBlock with
    | none => pure none
    | some blocks => pure (some (blocks b))
  else do
    match ← readLower cfg me fuel d (b * blockSize) ((b + 1) * blockSize) fun _ => 0 with
    | none => pure none
    | some buf => pure (some (blockOf buf b))

/-- The construction of a page in `Cache.write`. -/
def constructPage (fuel d b lo hi : Nat) (buf : Nat → Byte) (upper : Bool) : Prog Shared Bool := do
  match ← initPage cfg me fuel d b lo hi upper with
  | none => do
    change fun s => { s with toCache := s.release ⟨d, b⟩ }
    pure false
  | some blk => do
    if ← fails then do
      change fun s => { s with toCache := s.release ⟨d, b⟩ }
      pure false
    else do
      change (publishWrite ⟨d, b⟩ blk lo hi buf)
      pure true

/-- `writeBlockLocked`: accepted, failed (`some false`), or to be retried. -/
def writeBlockLocked (fuel d b lo hi : Nat) (buf : Nat → Byte) : Prog Shared (Option Bool) := do
  let upper ← look fun s => s.bitmap ⟨d, b⟩
  match ← exec (writeStep cfg me ⟨d, b⟩ lo hi buf upper) with
  | .retry => pure none
  | .accepted => pure (some true)
  | .construct => do
    let ok ← constructPage cfg me fuel d b lo hi buf upper
    pure (some ok)

variable (fuel d stop : Nat)

/-- `WriteAtContext`, for the positions `[pos, stop)`. -/
def writeAt (buf : Nat → Byte) : Nat → Nat → Prog Shared Unit
  | 0, _ => halt
  | n + 1, pos =>
    if stop ≤ pos then pure ()
    else do
      let b := pos / blockSize
      let hi := min stop ((b + 1) * blockSize)
      if ← fails then pure ()
      else do
        lockStripe me d (b % cowLockStripes)
        let r ← writeBlockLocked cfg me fuel d b pos hi buf
        unlockStripe d (b % cowLockStripes)
        match r with
        | none => writeAt buf n pos
        | some true => writeAt buf n hi
        | some false => pure ()

/-! ## Discards -/

/-- The backend drops a block; a frontend discard is accepted here. -/
def applyDiscard (k : CacheKey) (front : Bool) (s : Shared) : Shared :=
  { s with
    backend := Function.update s.backend k zeroBlock
    mapped := Function.update s.mapped k false
    applied := ⟨k, zeroBlock, me⟩ :: s.applied
    history := if front then .zero k :: s.history else s.history
    pending := if front then Function.update s.pending k (some me) else s.pending }

def discardBackend (front : Bool) : List CacheKey → Prog Shared Unit
  | [] => pure ()
  | k :: ks => do
    change (applyDiscard me k front)
    discardBackend front ks

/-- `Cache.discard` of the blocks `ks`; the value is false on a canceled wait. -/
def discard (front : Bool) (ks : List CacheKey) : Nat → Prog Shared Bool
  | 0 => halt
  | fuel + 1 => do
    if ← fails then pure false
    else do
      if ← exec (Shared.onCache (Cache.discardStep me ks)) then do
        discardBackend me front ks
        change fun s => ks.foldl publishDiscard s
        pure true
      else discard front ks fuel

/-- `stageZero`, with its synchronous fallback. -/
def stageZero (k : CacheKey) : Prog Shared (Option Bool) := do
  match ← exec (zeroStep cfg me k) with
  | .retry => pure none
  | .accepted => pure (some true)
  | .fallback => do
    let ok ← discard me true [k] fuel
    pure (some ok)

/-- The loop of `Discard` on a checkpoint backend. -/
def discardStaged : Nat → Nat → Prog Shared Unit
  | 0, _ => halt
  | n + 1, b =>
    if stop ≤ b then pure ()
    else do
      if ← fails then pure ()
      else do
        lockStripe me d (b % cowLockStripes)
        let r ← stageZero cfg me fuel ⟨d, b⟩
        unlockStripe d (b % cowLockStripes)
        match r with
        | none => discardStaged n b
        | some true => discardStaged n (b + 1)
        | some false => pure ()

def maxDiscardPages : Nat := 64

/-- The loop of `Discard` on a single-layer backend. -/
def discardRanges : Nat → Nat → Prog Shared Unit
  | 0, _ => halt
  | n + 1, first =>
    if stop ≤ first then pure ()
    else do
      let last := min (first + maxDiscardPages) stop - 1
      eachStripe (lockStripe me d) (lockBlockRange first last)
      let ok ← discard me true (blockRange d first last) fuel
      eachStripe (unlockStripe d) (unlockBlockRange first last)
      if ok then discardRanges n (first + maxDiscardPages) else pure ()

/-- `Discard`: only whole blocks are dropped. -/
def discardAt (fuel d offset length : Nat) : Prog Shared Unit :=
  let startBlk := (offset + blockSize - 1) / blockSize
  let endBlk := (offset + length) / blockSize
  if (cfg.disk d).versions then discardStaged cfg me fuel d endBlk fuel startBlk
  else discardRanges me fuel d endBlk fuel startBlk

/-! ## Writeback -/

/-- A write of frozen pages. Space pressure, where it may be deferred, stops it
after any of them. -/
def writePages (mayDefer : Bool) : List CacheKey → Prog Shared Bool
  | [] => pure true
  | k :: ks => do
    let pressure ← choose fun p => p = true → mayDefer = true
    if pressure then pure false
    else do
      change (applyPage me k)
      writePages mayDefer ks

/-- The batches of `repairSpacePressure`. -/
def repairBatches : Nat → List CacheKey → Prog Shared Unit
  | 0, _ => pure ()
  | n + 1, cohort =>
    if cohort.isEmpty then pure ()
    else do
      let batch := cohort.take (Cache.batchLimit true)
      let _ ← writePages me false batch
      change fun s => { s with toCache := batch.foldl Cache.complete s.toCache }
      repairBatches n (cohort.drop (Cache.batchLimit true))

def repairSpacePressure : Prog Shared Unit := do
  let cohort ← exec (Shared.onCache (Cache.selectCohort d))
  repairBatches me cohort.length cohort

/-- The I/O of one batch: after space pressure one repair and one more try,
whose failure would be fatal. -/
def writeBatch (zero : Bool) (batch : List CacheKey) : Prog Shared Unit := do
  if ← writePages me (!zero && (cfg.disk d).versions) batch then pure ()
  else do
    repairSpacePressure me d
    let _ ← writePages me false batch
    pure ()

/-- `Cache.run`. -/
def runWorker : Nat → Prog Shared Unit
  | 0 => halt
  | fuel + 1 => do
    let eligible ← choose fun _ : Nat → Bool => True
    let batch ← exec (Shared.onCache (Cache.selectBatch eligible))
    match batch with
    | [] => runWorker fuel
    | first :: _ => do
      let zero ← look fun s => s.zeroPage first
      writeBatch cfg .worker first.disk zero batch
      change fun s => { s with toCache := batch.foldl Cache.complete s.toCache }
      runWorker fuel

/-! ## Materialization -/

/-- Staged template bytes go straight to the backend. -/
def applyDirect (k : CacheKey) (blk : Block) (s : Shared) : Shared :=
  { s with
    backend := Function.update s.backend k blk
    mapped := Function.update s.mapped k true
    applied := ⟨k, blk, me⟩ :: s.applied }

def writeDirect (staging : Nat → Byte) : List CacheKey → Prog Shared Unit
  | [] => pure ()
  | k :: ks => do
    change (applyDirect me k (blockOf staging k.block))
    writeDirect staging ks

def markDirty (k : CacheKey) (s : Shared) : Shared :=
  { s with bitmap := Function.update s.bitmap k true }

def markAll : List CacheKey → Prog Shared Unit
  | [] => pure ()
  | k :: ks => do
    change (markDirty k)
    markAll ks

/-- The blocks of a list without upper presence, looked up one by one. -/
def absentBlocks : List CacheKey → Prog Shared (List CacheKey)
  | [] => pure []
  | k :: ks => do
    let upper ← look fun s => s.bitmap k
    let rest ← absentBlocks ks
    pure (if upper then rest else k :: rest)

/-- `materializeRange` for the blocks `[first, stop)`, in windows of `window`
blocks. -/
def materializeRange (d window stop : Nat) : Nat → Nat → Prog Shared Bool
  | 0, _ => halt
  | n + 1, first =>
    if stop ≤ first then pure true
    else do
      let next := min stop (first + window)
      if ← fails then pure false
      else do
        let staging ← readTemplate cfg d
        eachStripe (lockStripe me d) (lockedStripes first (next - 1))
        let pages ← absentBlocks (blockRange d first (next - 1))
        writeDirect me staging pages
        markAll pages
        eachStripe (unlockStripe d) (unlockedStripes first (next - 1))
        materializeRange d window stop n next

/-- The blocks from the front of a list that have no upper presence. -/
def absentRun : List CacheKey → Prog Shared (List CacheKey × List CacheKey)
  | [] => pure ([], [])
  | k :: ks => do
    let upper ← look fun s => s.bitmap k
    if upper then pure ([], k :: ks)
    else do
      let r ← absentRun ks
      pure (k :: r.1, r.2)

/-- The inner loop of `materializeZero`: discard the runs without presence. -/
def zeroRuns : Nat → List CacheKey → Prog Shared Bool
  | 0, _ => halt
  | _ + 1, [] => pure true
  | n + 1, k :: ks => do
    let upper ← look fun s => s.bitmap k
    if upper then zeroRuns n ks
    else do
      let r ← absentRun ks
      if ← discard me false (k :: r.1) fuel then zeroRuns n r.2 else pure false

/-- `materializeZero` for the blocks `[first, stop)`. -/
def materializeZero : Nat → Nat → Prog Shared Bool
  | 0, _ => halt
  | n + 1, first =>
    if stop ≤ first then pure true
    else do
      let last := min (first + maxDiscardPages) stop - 1
      eachStripe (lockStripe me d) (lockBlockRange first last)
      let ok ← zeroRuns me fuel fuel (blockRange d first last)
      eachStripe (unlockStripe d) (unlockBlockRange first last)
      if ok then materializeZero n (first + maxDiscardPages) else pure false

/-- A block-aligned run of the template from block `b` on. -/
def Template.Run (t : Template) (b : Nat) (r : Nat × RunKind) : Prop :=
  b < r.1 ∧ r.1 ≤ t.blocks ∧ ∀ j, b ≤ j → j < r.1 → t.kind j = r.2

/-- One run of `materializeContents`. -/
def materializeRun (fuel d window b : Nat) (r : Nat × RunKind) : Prog Shared Bool :=
  match r.2 with
  | .hole => pure true
  | .zero => materializeZero me fuel d r.1 fuel b
  | .data => materializeRange cfg me d window r.1 fuel b

/-- `materializeContents`, run by run. -/
def materializeContents (fuel d window : Nat) (t : Template) : Nat → Nat → Prog Shared Bool
  | 0, _ => halt
  | n + 1, b =>
    if t.blocks ≤ b then pure true
    else do
      if ← fails then pure false
      else do
        let r ← choose (t.Run b)
        if ← materializeRun cfg me fuel d window b r then
          materializeContents fuel d window t n r.1
        else pure false

/-- The template is closed when nobody borrows it any more. -/
def closeTemplate : Prog Shared Unit :=
  atomic fun s _ s' => (∀ t, s.materialReaders d t = false) ∧
    s' = { s with templateClosed := Function.update s.templateClosed d true }

/-- `materializeTemplate`, without publication. -/
def runMaterializer (fuel d window : Nat) : Prog Shared Unit :=
  match (cfg.disk d).template with
  | none => pure ()
  | some t => do
    if ← materializeContents cfg me fuel d window t fuel 0 then do
      change fun s => { s with materialTemplate := Function.update s.materialTemplate d false }
      closeTemplate d
    else pure ()

/-! ## The system -/

inductive Op where
  | read (disk lo hi : Nat)
  | view (disk lo hi : Nat)
  | write (disk lo hi : Nat) (buf : Nat → Byte)
  | discard (disk offset length : Nat)

/-- A request; one outside the disk is refused, and a read is cut at its end. -/
def runOp : Op → Prog Shared Unit
  | .read d lo hi => do
    let _ ← readRange cfg me fuel d none (min hi (cfg.disk d).size) fuel lo fun _ => 0
    pure ()
  | .view d lo hi => do
    let view ← look fun s => fun b => s.bitmap ⟨d, b⟩
    let _ ← readRange cfg me fuel d (some view) (min hi (cfg.disk d).size) fuel lo fun _ => 0
    pure ()
  | .write d lo hi buf =>
    if (cfg.disk d).size < hi then pure () else writeAt cfg me fuel d hi buf fuel lo
  | .discard d offset length =>
    if (cfg.disk d).size < offset + length then pure () else discardAt cfg me fuel d offset length

def runOps : List Op → Prog Shared Unit
  | [] => halt
  | op :: ops => do
    runOp cfg me fuel op
    runOps ops

/-- The requests of every frontend thread, and the materializers' window. -/
structure Load where
  fuel : Nat
  ops : Nat → List Op
  materialPages : Nat

def code (ld : Load) : Thread → Prog Shared Unit
  | .front n => runOps cfg (.front n) ld.fuel (ld.ops n)
  | .worker => runWorker cfg ld.fuel
  | .material d => runMaterializer cfg (.material d) ld.fuel d ld.materialPages

/-- Disks as they are attached: nothing cached, and the contents are the upper
blocks of the diffs over the layers below. -/
def attached (bitmap : CacheKey → Bool) (backend : CacheKey → Block) (mapped : CacheKey → Bool) :
    Shared where
  pages _ := none
  keys := []
  dirtyUsed := 0
  clients _ := 0
  clean := []
  dirty := []
  bitmap := bitmap
  backend := backend
  mapped := mapped
  stripes _ _ := ⟨none, fun _ => false⟩
  materialTemplate d := (cfg.disk d).template.isSome
  materialReaders _ _ := false
  templateClosed _ := false
  origin k := if bitmap k then backend k else blockOf (cfg.disk k.disk).lowerByte k.block
  history := []
  pending _ := none
  reads := []
  applied := []

end Sandboxer.Diffstore
