import Sandboxer.Uffd.Capture

/-! # The handler's goroutines

Fault workers with their urgent page and tail reservation, the tail worker, the
mandatory loads behind `EnsureLoaded`, the event reader and `AddUffd`, as
programs over the shared state. A loop takes its number of rounds as an
argument and stops for good when it has used them up; statements quantify over
that number. -/
namespace Sandboxer.Uffd
open Lib.Threads Prog

variable (cfg : Config)

/-! ## Reading the source -/

/-- `Source.RunAt`: any run the contract allows, or an error. -/
def runAt : Prog Shared (Option Run) :=
  choose fun r => ∀ run, r = some run → cfg.Honest run

/-- `readRunContext`: a full read inside the run delivers the source's bytes. -/
def readRun (run : Run) (length inner : Nat) : Prog Shared (Option (Nat → Byte)) :=
  choose fun r => ∀ buf, r = some buf → inner + length ≤ run.stop - run.offset →
    ∀ k < length, buf k = cfg.source (run.offset + inner + k)

/-- `readretry.Do`: repeat a failed attempt until it succeeds or is given up. -/
def retry {α : Type} (attempt : Prog Shared (Option α)) : Nat → Prog Shared (Option α)
  | 0 => halt
  | fuel + 1 => do
    match ← attempt with
    | some a => pure (some a)
    | none => do
      let giveUp ← choose fun _ : Bool => True
      if giveUp then pure none else retry attempt fuel

/-- `failRead`: cancel the handler. -/
def failRead : Prog Shared Unit := change fun s => { s with ctxDone := true }

/-- `invalidateCapture`: the first error stays. -/
def invalidateCapture (e : CaptureError) : Prog Shared Unit :=
  change fun s => { s with captureError := s.captureError.or (some e) }

def validateFaultRun (run : Run) (offset hardEnd : Nat) : Bool :=
  run.offset = offset ∧ offset < run.stop ∧ run.stop ≤ hardEnd ∧ run.kind ≠ .other

def alignedRunEnd (start stop : Nat) : Nat :=
  if stop ≤ start then start else start + (stop - start) / pageSize * pageSize

def alignedPageStart (offset : Nat) : Nat :=
  if offset % pageSize ≠ 0 then offset + pageSize - offset % pageSize else offset

def alignedPageEnd (offset : Nat) : Nat := offset - offset % pageSize

/-! ## The tail slot -/

def releaseTail : Prog Shared Unit :=
  change fun s => { s with tail := { s.tail with busy := false, owner := none } }

variable (me : Thread)

/-- The compare-and-swap on `tailBusy`. -/
def takeTail : Prog Shared Bool :=
  atomic fun s b s' =>
    if s.tail.busy then b = false ∧ s' = s
    else b = true ∧ s' = { s with tail := { s.tail with busy := true, owner := some me } }

def tryReserveTail : Prog Shared Bool := do
  if ← look (·.closing) then pure false
  else if ← takeTail me then
    if ← look (·.closing) then do
      releaseTail
      pure false
    else pure true
  else pure false

variable (task : TailTask)

/-- The send on `tailQ`, a channel of one slot. -/
def sendTail : Prog Shared Unit :=
  change fun s =>
    if s.tail.queue.isSome then { s with tail := { s.tail with busy := false, owner := none } }
    else { s with tail := { s.tail with queue := some task, owner := some .tail } }

def enqueueReservedTail : Prog Shared Unit := do
  if ← look fun s => s.closing || s.ctxDone then releaseTail
  else sendTail task

def fillTailBuf (length : Nat) (data : Nat → Byte) : Prog Shared Unit :=
  change fun s => { s with
    tail := { s.tail with buf := fun k => if k < length then data k else s.tail.buf k } }

/-! ## Faults -/

def addressHardEnd (pageOffset maxFillBytes : Nat) : Prog Shared Nat := do
  if cfg.size ≤ pageOffset then pure pageOffset
  else do
    let length := min maxFillBytes (cfg.size - pageOffset)
    let (remaining, ok) ← look fun s => s.addrMap.chRegionRemaining pageOffset length
    let length := if ok && decide (remaining < length) then remaining else length
    pure (pageOffset + (length - length % pageSize))

def stateHardEnd (pageOffset pageIdx : Nat) (expected : PageState) (maxFillBytes : Nat) :
    Prog Shared Nat := do
  let hardEnd ← addressHardEnd cfg pageOffset maxFillBytes
  let pages ← look fun s => s.state.runLength pageIdx ((hardEnd - pageOffset) / pageSize) expected
  pure (pageOffset + pages * pageSize)

/-- The run of a task that reads nothing. -/
def noRun : Run := ⟨0, 0, .zero, false⟩

/-- The task for the pages after the faulting one, up to `stop`. -/
def forwardTail (kind : TailKind) (run : Run) (fd pageVA pageOffset pageIdx stop : Nat)
    (expected : PageState) : TailTask where
  kind := kind
  run := run
  uffdFD := fd
  dstVA := pageVA + pageSize
  pageIdx := pageIdx + 1
  start := pageOffset + pageSize
  stop := stop
  bufferStart := 0
  prefixStart := 0
  expected := expected

def handleResolvedZeroFault (fd pageVA pageOffset pageIdx : Nat)
    (expected : PageState) (runEnd : Nat) : Prog Shared Unit := do
  match ← atomic (urgentZero fd pageVA pageIdx expected) with
  | .ok true =>
    let tailEnd := alignedRunEnd pageOffset runEnd
    if tailEnd ≤ pageOffset + pageSize then pure ()
    else if ← tryReserveTail me then
      enqueueReservedTail (forwardTail .zero noRun fd pageVA pageOffset pageIdx tailEnd expected)
    else pure ()
  | _ => pure ()

def handleZeroFault (fd pageVA pageOffset pageIdx : Nat) (expected : PageState) :
    Prog Shared Unit := do
  let hardEnd ← stateHardEnd cfg pageOffset pageIdx expected zeroFaultFillBytes
  handleResolvedZeroFault me fd pageVA pageOffset pageIdx expected hardEnd

def handleOrdinaryDataFault (fuel fd pageVA pageOffset pageIdx : Nat) (run : Run)
    (fillEnd : Nat) : Prog Shared Unit := do
  match ← retry (readRun cfg run pageSize 0) fuel with
  | none => failRead
  | some page =>
    match ← atomic (urgentCopy fd pageVA pageIdx .absent page) with
    | .ok true =>
      let tailEnd := alignedRunEnd pageOffset fillEnd
      if tailEnd ≤ pageOffset + pageSize then pure ()
      else if ← tryReserveTail me then
        enqueueReservedTail
          (forwardTail .deferredData run fd pageVA pageOffset pageIdx tailEnd .absent)
      else pure ()
    | _ => pure ()

def handleChunkUrgentOnly (fuel fd pageVA pageIdx : Nat) (run : Run) : Prog Shared Unit := do
  match ← retry (readRun cfg run pageSize 0) fuel with
  | none => failRead
  | some page => do
    let _ ← atomic (urgentCopy fd pageVA pageIdx .absent page)
    pure ()

def validChunkWindow (window : Run) (pageOffset bufferBytes : Nat) : Bool :=
  window.kind = .data ∧ window.offset < window.stop ∧ window.offset ≤ pageOffset ∧
    pageOffset + pageSize ≤ window.stop ∧ window.stop - window.offset ≤ bufferBytes

/-- `chunkPopulationBounds`; `none` is its `ok == false`. -/
def chunkPopulationBounds (window : Run) (pageOffset pageIdx : Nat) :
    Prog Shared (Option (Nat × Nat)) := do
  let fillStart := alignedPageStart window.offset
  let fillEnd := min (alignedPageEnd window.stop) (alignedPageEnd cfg.size)
  match ← look fun s => s.addrMap.chRegionBounds pageOffset with
  | none => pure none
  | some (regionStart, regionEnd) =>
    let fillStart := max fillStart (alignedPageStart regionStart)
    let fillEnd := min fillEnd (alignedPageEnd regionEnd)
    if pageOffset < fillStart ∨ fillEnd < pageOffset + pageSize then pure none
    else do
      let (stateStart, stateEnd) ← look fun s =>
        s.state.runBounds pageIdx (fillStart / pageSize) (fillEnd / pageSize) .absent
      if stateStart = stateEnd then pure none
      else pure (some (stateStart * pageSize, stateEnd * pageSize))

/-- `resolveChunkWindow`, where the source has it: a run of the source, or an
error. -/
def resolveWindow (anchor : Run) (pageOffset : Nat) : Prog Shared Run := do
  if cfg.chunkWindows then
    match ← runAt cfg with
    | none => pure anchor
    | some resolved =>
      if validChunkWindow resolved pageOffset cfg.tailBufLen then pure resolved else pure anchor
  else pure anchor

def handleChunkFault (fuel fd pageVA pageOffset pageIdx : Nat) (anchor : Run) : Prog Shared Unit :=
  do
  if ← tryReserveTail me then do
    let window ← resolveWindow cfg anchor pageOffset
    match ← chunkPopulationBounds cfg window pageOffset pageIdx with
    | none => do
      releaseTail
      handleChunkUrgentOnly cfg fuel fd pageVA pageIdx anchor
    | some (fillStart, fillEnd) =>
      let runLength := window.stop - window.offset
      if (fillStart = pageOffset ∧ fillEnd = pageOffset + pageSize) ∨
        cfg.tailBufLen < runLength then do
        releaseTail
        handleChunkUrgentOnly cfg fuel fd pageVA pageIdx anchor
      else
        match ← retry (readRun cfg window runLength 0) fuel with
        | none => do
          releaseTail
          failRead
        | some data => do
          fillTailBuf runLength data
          let buf ← look (·.tail.buf)
          let urgentStart := pageOffset - window.offset
          match ← atomic (urgentCopy fd pageVA pageIdx .absent fun k => buf (urgentStart + k)) with
          | .ok true =>
            enqueueReservedTail
              { forwardTail .bufferedData noRun fd pageVA pageOffset pageIdx fillEnd .absent with
                bufferStart := window.offset, prefixStart := fillStart }
          | _ => releaseTail
  else handleChunkUrgentOnly cfg fuel fd pageVA pageIdx anchor

def handleAbsentFault (fuel fd pageVA pageOffset pageIdx : Nat) : Prog Shared Unit := do
  let commonHardEnd ← stateHardEnd cfg pageOffset pageIdx .absent ordinaryDataFaultFillBytes
  -- a stale event only wakes its waiters
  if commonHardEnd - pageOffset < pageSize then pure ()
  else if cfg.zeroSource then
    handleResolvedZeroFault me fd pageVA pageOffset pageIdx .absent commonHardEnd
  else
    match ← retry (runAt cfg) fuel with
    | none => failRead
    | some run =>
      if !validateFaultRun run pageOffset commonHardEnd then failRead
      else if run.stop - pageOffset < pageSize then failRead
      else
        let fillEnd := min run.stop commonHardEnd
        match run.kind with
        | .data =>
          if run.chunk then handleChunkFault cfg me fuel fd pageVA pageOffset pageIdx run
          else handleOrdinaryDataFault cfg me fuel fd pageVA pageOffset pageIdx run fillEnd
        | .hole | .zero => handleResolvedZeroFault me fd pageVA pageOffset pageIdx .absent fillEnd
        | .other => pure ()

/-- A page fault as the reader queued it. -/
structure FaultEvent where
  address : Nat
  missing : Bool
  uffdFD : Nat

/-- `handleFault`; `missing` is false for write-protect and minor faults. -/
def handleFault (fuel : Nat) (ev : FaultEvent) : Prog Shared Unit := do
  if !ev.missing then failRead
  else
    match ← look fun s => s.addrMap.locate ev.address with
    | none => invalidateCapture .faultRegistration
    | some memfdOffset =>
      let pageVA := ev.address - ev.address % pageSize
      let pageOffset := memfdOffset - memfdOffset % pageSize
      let pageIdx := pageOffset / pageSize
      match ← look fun s => s.state.get pageIdx with
      | .absent => handleAbsentFault cfg me fuel ev.uffdFD pageVA pageOffset pageIdx
      | .released => handleZeroFault cfg me ev.uffdFD pageVA pageOffset pageIdx .released
      | .loaded => do
        let _ ← atomic (urgentZero ev.uffdFD pageVA pageIdx .loaded)
        pure ()

/-! ## The tail worker -/

def bufferedTailData (buf : Nat → Byte) (bufLen bufferStart start stop : Nat) :
    Option (Nat → Byte) :=
  if start < bufferStart ∨ stop < start ∨ bufLen < stop - bufferStart then none
  else some fun k => buf (start - bufferStart + k)

def processBufferedSuffix : Prog Shared Bool := do
  let length := task.stop - task.start
  if length = 0 then pure true
  else do
    let requestedPages := length / pageSize
    let statePages ← look fun s => s.state.runLength task.pageIdx requestedPages task.expected
    if statePages = 0 then pure false
    else do
      let stateChanged := decide (statePages < requestedPages)
      let length := if stateChanged then statePages * pageSize else length
      let buf ← look (·.tail.buf)
      match bufferedTailData buf cfg.tailBufLen task.bufferStart task.start
        (task.start + length) with
      | none => pure false
      | some data => do
        let full ← atomic (executeTailIo task data length)
        pure (full && !stateChanged)

def processBufferedPrefix (faultOffset : Nat) : Prog Shared Unit := do
  if faultOffset = task.prefixStart then pure ()
  else do
    let faultPageIdx := faultOffset / pageSize
    let plannedStartIdx := task.prefixStart / pageSize
    let (startIdx, endIdx) ← look fun s =>
      s.state.runBounds (faultPageIdx - 1) plannedStartIdx faultPageIdx task.expected
    if startIdx = endIdx ∨ endIdx ≠ faultPageIdx then pure ()
    else do
      let start := startIdx * pageSize
      let length := faultOffset - start
      let buf ← look (·.tail.buf)
      match bufferedTailData buf cfg.tailBufLen task.bufferStart start faultOffset with
      | none => pure ()
      | some data =>
        if task.dstVA < pageSize then pure ()
        else
          let faultVA := task.dstVA - pageSize
          if faultVA < length then pure ()
          else do
            let _ ← atomic (executeTailIo
              { task with
                dstVA := faultVA - length, pageIdx := startIdx, start := start, stop :=
                  faultOffset }
              data length)
            pure ()

def processBufferedTail : Prog Shared Unit := do
  if task.start < pageSize ∨ task.stop < task.start then pure ()
  else
    let faultOffset := task.start - pageSize
    if task.prefixStart < task.bufferStart ∨ faultOffset < task.prefixStart then pure ()
    else
      let prefixLength := faultOffset - task.prefixStart
      let suffixLength := task.stop - task.start
      if chunkNeighborTailBytes < prefixLength ∨
          chunkNeighborTailBytes - prefixLength < suffixLength then pure ()
      else if ← processBufferedSuffix cfg task then processBufferedPrefix cfg task faultOffset
      else pure ()

/-- The source read of a deferred tail; the other kinds need none. -/
def readTail (length : Nat) : Prog Shared Bool :=
  if task.kind = .deferredData then do
    match ← readRun cfg task.run length (task.start - task.run.offset) with
    | none => pure false
    | some data => do
      fillTailBuf length data
      pure true
  else pure true

/-- The part of `processTail` after the buffered kind was handled: plan, read
for deferred data, plan again, fill. -/
def processForwardTail (maxTailBytes : Nat) : Prog Shared Unit := do
  let maxPages := min ((task.stop - task.start) / pageSize) (maxTailBytes / pageSize)
  let statePages ← look fun s => s.state.runLength task.pageIdx maxPages task.expected
  if statePages = 0 then pure ()
  else do
    let length := statePages * pageSize
    if ← readTail cfg task length then do
      let statePages ← look fun s =>
        s.state.runLength task.pageIdx (length / pageSize) task.expected
      if statePages = 0 then pure ()
      else do
        let length := min length (statePages * pageSize)
        let buf ← look (·.tail.buf)
        let _ ← atomic (executeTailIo task buf length)
        pure ()
    else pure ()

def processTail : Prog Shared Unit :=
  match task.kind with
  | .bufferedData => processBufferedTail cfg task
  | .deferredData => processForwardTail cfg task ordinaryDataNeighborTailBytes
  | .zero => processForwardTail cfg task zeroNeighborTailBytes

/-- The receive from `tailQ`. -/
def receiveTail : Prog Shared TailTask :=
  atomic fun s task s' => s.tail.queue = some task ∧ s' =
    { s with tail := { s.tail with queue := none } }

def serveTail : Prog Shared Unit := do
  let task ← receiveTail
  if ← look (·.ctxDone) then releaseTail
  else do
    processTail cfg task
    releaseTail

def runTailWorker : Nat → Prog Shared Unit
  | 0 => halt
  | fuel + 1 => do
    serveTail cfg
    runTailWorker fuel

/-! ## Mandatory loads -/

/-- Ghost: record the pages among `n` from `i` on that are loaded now. -/
def Shared.observe (s : Shared) (call i n : Nat) : Shared :=
  { s with seen := fun c j =>
      s.seen c j ∨ (c = call ∧ i ≤ j ∧ j < i + n ∧ s.state.get j = .loaded) }

/-- The first section of `loadPage`: registration and state of the page. -/
def loadLookup (call off : Nat) : Section Shared (Option AddressMap.Registration × PageState) := do
  let s ← Section.read id
  Section.modify fun s => s.observe call (off / pageSize) 1
  pure (s.addrMap.registration off pageSize, s.state.get (off / pageSize))

/-- How `loadPage` ends or starts over. -/
inductive LoadStep where
  | again
  | done (r : Except UffdError Unit)

/-- The last section of `loadPage`. -/
def loadInstall (call fd va off : Nat) (state : PageState) (page : Nat → Byte) (canceled : Bool) :
    Section Shared LoadStep := do
  let s ← Section.read id
  let idx := off / pageSize
  if canceled then pure (.done (.error .canceled))
  else if !s.addrMap.owns fd va off pageSize then pure (.done (.error .registrationLost))
  else if s.state.get idx ≠ state then pure .again
  else do
    let r ← copyCleanLocked fd va 1 page state
    match checkedCompletion r.bytes pageSize with
    | none => pure (.done (.error .invalidCompletion))
    | some done =>
      if (r.err = none ∧ done = pageSize) ∨ r.err = some .eexist then do
        Section.modify fun s => { s with state := s.state.set idx .loaded }
        Section.modify fun s => s.observe call idx 1
        pure (.done (.ok ()))
      else match r.err with
        | none => pure (.done (.error .shortCompletion))
        | some e => pure (.done (.error (.errno e)))

/-- The caller's context, canceled at any time. -/
def canceled : Prog Shared Bool := choose fun _ => True

/-- One attempt of the source read of `loadPage`: `none` failed, `some none`
is `errPageChanged`. -/
def loadRead (off : Nat) : Prog Shared (Option (Option (Nat → Byte))) := do
  if (← look fun s => s.state.get (off / pageSize)) ≠ .absent then pure (some none)
  else
    match ← runAt cfg with
    | none => pure none
    | some run =>
      if !validateFaultRun run off (off + pageSize) then pure none
      else if run.stop ≠ off + pageSize then pure none
      else if run.kind ≠ .data then pure (some (some fun _ => 0))
      else
        match ← readRun cfg run pageSize 0 with
        | none => pure none
        | some buf => pure (some (some buf))

/-- The content `loadPage` installs: the source's for an absent page. -/
def loadContent (off : Nat) (state : PageState) (fuel : Nat) :
    Prog Shared (Option (Option (Nat → Byte))) :=
  if state = .absent ∧ cfg.zeroSource = false then retry (loadRead cfg off) fuel
  else pure (some (some fun _ => 0))

def loadPage (call off : Nat) : Nat → Prog Shared (Except UffdError Unit)
  | 0 => halt
  | fuel + 1 => do
    if ← canceled then pure (.error .canceled)
    else
      match ← atomic (loadLookup call off) with
      | (none, _) => pure (.error .unmapped)
      | (some reg, state) =>
        if reg.fd = 0 ∨ reg.covered ≠ pageSize then pure (.error .registrationLost)
        else if state = .loaded then pure (.ok ())
        else do
          match ← loadContent cfg off state fuel with
          | none => pure (.error (.errno .other))
          | some none => loadPage call off fuel
          | some (some page) => do
            let stop ← canceled
            match ← atomic (loadInstall call reg.fd reg.va off state page stop) with
            | .again => loadPage call off fuel
            | .done r => pure r

/-- The section of `EnsureLoaded`: the registration at `off`, and how many
pages from there on are loaded. -/
def ensureLookup (call off stop : Nat) : Section Shared (Option AddressMap.Registration × Nat) := do
  let s ← Section.read id
  match s.addrMap.registration off (stop - off) with
  | none => pure (none, 0)
  | some reg =>
    let loaded := if 0 < reg.fd
      then s.state.runLength (off / pageSize) (reg.covered / pageSize) .loaded else 0
    Section.modify fun s => s.observe call (off / pageSize) loaded
    pure (some reg, loaded)

/-- Wait for the reply to a request, or leave it. -/
def awaitReply (req : LoadRequest) : Prog Shared (Option (Except UffdError Unit)) :=
  atomic fun s r s' => (r = none ∨ ∃ a, r = some a ∧ s.replies req = some a) ∧ s' = s

/-- The loop of `EnsureLoaded`. -/
def ensureLoop (call stop : Nat) : Nat → Nat → Prog Shared (Except UffdError Unit)
  | 0, _ => halt
  | fuel + 1, off => do
    if stop ≤ off then
      if ← canceled then pure (.error .canceled) else pure (.ok ())
    else
      match ← atomic (ensureLookup call off stop) with
      | (none, _) => pure (.error .unmapped)
      | (some reg, loaded) =>
        if ← canceled then pure (.error .canceled)
        else if reg.fd = 0 then
          -- wait for a registration
          if ← canceled then pure (.error .canceled) else ensureLoop call stop fuel off
        else if 0 < loaded then ensureLoop call stop fuel (off + loaded * pageSize)
        else do
          let req : LoadRequest := ⟨call, fuel, off⟩
          change fun s => { s with requests := s.requests ++ [req] }
          match ← awaitReply req with
          | none => pure (.error .canceled)
          | some (.error (.errno .eagain)) =>
            if ← canceled then pure (.error .canceled) else ensureLoop call stop fuel off
          | some (.error e) => pure (.error e)
          | some (.ok _) => ensureLoop call stop fuel (off + pageSize)

def ensureLoaded (call fuel offset length : Nat) : Prog Shared (Except UffdError Unit) := do
  if ← look fun s => s.closing || s.ctxDone then pure (.error .canceled)
  else if cfg.size < offset ∨ cfg.size - offset < length then pure (.error .registrationLost)
  else if ← canceled then pure (.error .canceled)
  else if length = 0 then pure (.ok ())
  else
    ensureLoop call ((offset + length + pageSize - 1) / pageSize * pageSize) fuel
      (offset - offset % pageSize)

/-- A call of `EnsureLoaded`; its return is recorded. -/
def runCaller (call fuel offset length : Nat) : Prog Shared Unit := do
  match ← ensureLoaded cfg call fuel offset length with
  | .ok _ => change fun s =>
      { s with returned := Function.update s.returned call (some (offset, length)) }
  | .error _ => pure ()

/-- Take a mandatory request off a queue. -/
def takeRequest : Prog Shared LoadRequest :=
  atomic fun s req s' => req ∈ s.requests ∧ s' = { s with requests := s.requests.erase req }

/-- One round of `runWorker`: any queued request or any fault event is next. -/
def serveWorker (fuel : Nat) : Prog Shared Unit := do
  if ← choose fun _ : Bool => True then do
    let req ← takeRequest
    let r ← loadPage cfg req.call req.offset fuel
    change fun s => { s with replies := Function.update s.replies req (some r) }
  else do
    let ev ← choose fun _ : FaultEvent => True
    handleFault cfg me fuel ev

def runWorker : Nat → Prog Shared Unit
  | 0 => halt
  | fuel + 1 => do
    serveWorker cfg me fuel
    runWorker fuel

/-! ## Events -/

inductive Event where
  | pagefault (ev : FaultEvent)
  | remove (start stop : Nat)
  | unmap (start stop : Nat)
  | other

/-- What the loop of `handleRemoveLocked` does with one piece. -/
def Shared.releasePiece (s : Shared) (p : AddressMap.Piece) : Shared :=
  { s with
    released := s.released.marked p.startOff p.length
    dirty := s.dirty.marked p.startOff p.length
    state := s.state.setRange (p.startOff / pageSize) ((p.startOff + p.length) / pageSize) .released
      }

/-- `handleRemoveLocked`. The pages the release covers are acknowledged by the
read of the event (ghost). The reclaim of the backend's own mapping does not
touch the memfd and is left out. -/
def handleRemoveLocked (startVA endVA fd : Nat) (s : Shared) : Shared :=
  if endVA ≤ startVA ∨ startVA % pageSize ≠ 0 ∨ endVA % pageSize ≠ 0 then
    { s with captureError := some .releaseRange }
  else
    let r := s.addrMap.releasePieces fd endVA (endVA - startVA) startVA
    let s' := r.1.foldl Shared.releasePiece s
    { s' with
      captureError := if r.2 then some .releaseGap else s.captureError
      acked := fun i => s.acked i ∨ s.addrMap.Reaches fd startVA endVA (pageSize * i) }

/-- `dispatchRelease` for the release events of a batch; the others wait until
the gate is open. -/
def dispatchRelease (fd : Nat) (s : Shared) : Event → Shared
  | .remove start stop => handleRemoveLocked start stop fd s
  | .unmap start stop =>
    let s' := handleRemoveLocked start stop fd s
    { s' with captureError := some .unmap, addrMap := s'.addrMap.invalidate fd start stop }
  | _ => s

/-- What the nonblocking read of an event descriptor may give. -/
inductive ReadResult where
  | batch (events : List Event)
  | retryLater
  | failed

/-- The section of `drain`: read a batch and publish its releases. -/
def readBatch (fd : Nat) : Section Shared ReadResult := do
  let r ← Section.any fun _ (_ : ReadResult) => True
  match r with
  | .batch events => do
    Section.modify fun s => events.foldl (dispatchRelease fd) s
    pure r
  | .retryLater => pure r
  | .failed => do
    Section.modify fun s => if s.closing then s else { s with captureError := some .eventStream }
    pure r

/-- The `dispatch` of what is not a release. Queueing a fault is left to the
workers, which take any event. -/
def dispatch : Event → Prog Shared Unit
  | .pagefault ev => do
    match ← look fun s => s.addrMap.locate ev.address with
    | none => invalidateCapture .faultRegistration
    | some _ => pure ()
  | .remove _ _ => pure ()
  | .unmap _ _ => pure ()
  | .other => invalidateCapture .unexpectedEvent

def dispatchAll : List Event → Prog Shared Unit
  | [] => pure ()
  | e :: es => do
    dispatch e
    dispatchAll es

/-- One round of `drain`, on any descriptor epoll reports. -/
def drain : Prog Shared Unit := do
  let fd ← choose fun _ : Nat => True
  match ← atomic (readBatch fd) with
  | .batch events => dispatchAll events
  | _ => pure ()

def runReader : Nat → Prog Shared Unit
  | 0 => halt
  | fuel + 1 => do
    drain
    runReader fuel

/-! ## Registrations -/

/-- `seedRegion`: mark what is resident in the ranges of `fd`; `none` is an
error of the scan. -/
def seedRegion (mem : Memfd) (size fd : Nat) (vmas : List Vma) (d : Dirty) : Option Dirty :=
  vmas.foldlM (fun d v =>
    if v.OwnedBy fd then
      seedScan mem (size / pageSize) v.memfdEnd (v.memfdEnd + 1) v.memfdOffset d
    else some d) d

/-- `AddUffd`: stage, adopt, seed. `setup` is false when the descriptor cannot
be prepared, `seek` when a seek of the scan fails. -/
def addUffd (fd va size offset : Nat) : Section Shared Unit := do
  let s ← Section.read id
  let setup ← Section.any fun _ (_ : Bool) => True
  let seek ← Section.any fun _ (_ : Bool) => True
  if fd = 0 || s.closing || s.ctxDone then pure ()
  else
    match s.addrMap.registerVMA .ch va size offset with
    | .error _ => pure ()
    | .ok m =>
      if !setup then Section.modify fun s => { s with addrMap := m.removeStaged va size offset }
      else
        let m' := m.bindStaged fd va offset
        let seeded := (seedRegion s.mem cfg.size fd m'.vmas s.dirty).filter fun _ => seek
        match seeded with
        | none => Section.modify fun s =>
            { s with captureError := some .seed, addrMap := m'.removeStaged va size offset }
        | some d => Section.modify fun s => { s with addrMap := m', dirty := d }

/-- A va_report for a further region. -/
def runAdmission (fd va size offset : Nat) : Prog Shared Unit :=
  atomic (addUffd cfg fd va size offset)

/-- `NewWithBackendUffd` and `Start`: adopt the staged region, seed its dirty
pages, everything else empty. -/
def newWithBackendUffd (m : AddressMap) (dirty : Dirty) (mem : Memfd) (fd : Nat) : Option Shared :=
  if fd = 0 ∨ m.memfdLen ≠ cfg.size ∨ dirty.size ≠ cfg.size then none
  else do
    let m' ← m.bindInitial fd
    let d ← seedRegion mem cfg.size fd m'.vmas dirty
    some {
      addrMap := m', state := PageStateMap.new (cfg.size / pageSize), dirty := d
      released := Dirty.new cfg.size, captureError := none, ctxDone := false, closing := false
      tail := ⟨false, none, fun _ => 0, none⟩, requests := [], replies := fun _ => none
      mem := mem, acked := fun _ => False, written := fun _ => False, punched := fun _ => False
      seen := fun _ _ => False, returned := fun _ => none, log := [] }

/-- What the rest of the machine does: vCPUs and backends write, Cloud
Hypervisor punches holes, dirty logs are merged, captures are taken, the
handler is canceled. -/
inductive Env : Shared → Shared → Prop where
  | write (s : Shared) (i : Nat) (p : Page) :
      Env s { s with
        mem := Function.update s.mem i (some p), written := fun j => s.written j ∨ j = i }
  | punch (s : Shared) (i : Nat) :
      Env s { s with mem := Function.update s.mem i none, punched := fun j => s.punched j ∨ j = i }
  | collect (s : Shared) (d : Dirty) (hs : d.size = s.dirty.size)
      (hd : ∀ i, s.dirty.pages i = true → d.pages i = true) : Env s { s with dirty := d }
  | capture {s s' : Shared} {v : CaptureView} (h : captureView cfg s = some (v, s')) : Env s s'
  | cancel (s : Shared) : Env s { s with ctxDone := true, closing := true }

/-- The arguments of the calls and reports a run may contain. -/
structure Load where
  fuel : Nat
  caller : Nat → Nat × Nat
  report : Nat → Nat × Nat × Nat × Nat

def code (ld : Load) : Thread → Prog Shared Unit
  | .worker n => runWorker cfg (.worker n) ld.fuel
  | .tail => runTailWorker cfg ld.fuel
  | .reader => runReader ld.fuel
  | .caller n => runCaller cfg n ld.fuel (ld.caller n).1 (ld.caller n).2
  | .admission n => let r := ld.report n; runAdmission cfg r.1 r.2.1 r.2.2.1 r.2.2.2

end Sandboxer.Uffd
