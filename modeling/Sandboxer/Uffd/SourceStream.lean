import Sandboxer.Uffd.Handler
import Sandboxer.Lib.Outcomes

/-! # Fault runs of a snapshot stream

`StreamSnapshotSource` answers the fault handler from the runs of a stream: data
runs as they are, neighbouring holes and zero runs as one zero run. A boundary
inside the first page makes that page a data run that is read through the stream,
so that a page with data is never installed as a zero page. -/
namespace Sandboxer.Uffd
open Lib.Outcomes

/-! ## The stream -/

/-- The errors of a stream: the two ends of a file, those that `readerr.IsPermanent` and
`readretry.IsTerminal` recognise, and any other. -/
inductive StreamErr where
  | eof
  | unexpectedEOF
  | permanent
  | terminal
  | other
  deriving DecidableEq, Repr

/-- `fetch.Stream`. Every call may answer differently: with a shorter run, with
fewer bytes, with an error. `readRun` is the `ReadAt` of a run the stream returned. -/
structure SnapshotStream where
  size : Nat
  kindOf : Nat → RunKind
  byte : Nat → Byte
  runAt : (call off limit : Nat) → Except StreamErr (Option Run)
  readAt : (call len off : Nat) → List Byte × Option StreamErr
  readRun : (call : Nat) → (run : Run) → (len inner : Nat) → List Byte × Option StreamErr

/-- The bytes of a content at `[off, off + n)`. -/
def bytesAt (content : Nat → Byte) (off n : Nat) : List Byte := (List.range' off n).map content

variable (s : SnapshotStream)

/-- The run a stream may answer with. -/
structure SnapshotStream.Fits (off limit : Nat) (run : Run) : Prop where
  start : run.offset = off
  nonempty : off < run.stop
  limit : run.stop ≤ off + limit
  kind : run.kind ≠ .other
  bytes : ∀ x, off ≤ x → x < run.stop → s.kindOf x = run.kind

/-- The contract of a stream: its runs fit, a byte outside the data is zero, and what a read
delivers, however short, are its bytes. -/
structure SnapshotStream.Valid : Prop where
  size : s.size < 2 ^ 64
  runs : ∀ call off limit answer, off < s.size → 0 < limit → s.runAt call off limit = .ok answer →
    ∃ run, answer = some run ∧ s.Fits off limit run
  blank : ∀ x, s.kindOf x ≠ .data → s.byte x = 0
  reads : ∀ call len off, (s.readAt call len off).1.length ≤ len ∧
    (s.readAt call len off).1 = bytesAt s.byte off (s.readAt call len off).1.length
  runReads : ∀ call run len inner, (s.readRun call run len inner).1.length ≤ len ∧
    (s.readRun call run len inner).1 = bytesAt s.byte (run.offset + inner)
      (s.readRun call run len inner).1.length
  runFull : ∀ call run len inner, (s.readRun call run len inner).2 = none →
    (s.readRun call run len inner).1.length = len

/-- A call at which all reads deliver all that was asked for. -/
structure SnapshotStream.Readable (call : Nat) : Prop where
  reads : ∀ len off, (s.readAt call len off).1.length = len ∧ (s.readAt call len off).2 = none
  runReads : ∀ run len inner, (s.readRun call run len inner).2 = none

/-- `StreamSnapshotSource`, as `NewStreamSnapshotSource` builds it. -/
structure StreamSnapshotSource where
  stream : SnapshotStream
  ramSize : Nat
  ramSize_pos : 0 < ramSize
  ramSize_le : ramSize ≤ stream.size

/-! ## RunAt -/

/-- The arithmetic the offsets are computed with. -/
structure Arith where
  add : Nat → Nat → Nat
  sub : Nat → Nat → Nat

/-- Integers. -/
def Arith.exact : Arith := ⟨(· + ·), (· - ·)⟩

/-- `uint64`, which wraps. -/
def Arith.uint64 : Arith := ⟨fun a b => (a + b) % 2 ^ 64, fun a b => (a + 2 ^ 64 - b) % 2 ^ 64⟩

inductive SourceErr where
  | eof
  | zeroLimit
  /-- The stream failed at an offset; the end of a file is marked as permanent. -/
  | stream (off : Nat) (marked : Bool) (err : StreamErr)
  | nilRun (off : Nat)
  | invalidRange (off start stop bound : Nat)
  | invalidKind (off : Nat)
  deriving DecidableEq, Repr

/-- The run the handler gets: the stream's own, `streamPageRun` or `snapshotZeroRun`. -/
inductive FaultRun where
  | own (run : Run)
  | page (offset stop : Nat)
  | zero (offset stop : Nat)
  deriving DecidableEq, Repr

def FaultRun.offset : FaultRun → Nat
  | .own run => run.offset
  | .page offset _ => offset
  | .zero offset _ => offset

def FaultRun.stop : FaultRun → Nat
  | .own run => run.stop
  | .page _ stop => stop
  | .zero _ stop => stop

def FaultRun.kind : FaultRun → RunKind
  | .own run => run.kind
  | .page .. => .data
  | .zero .. => .zero

def validateResolvedSnapshotRun (answer : Option Run) (off bound : Nat) : Except SourceErr Run :=
  match answer with
  | none => .error (.nilRun off)
  | some run =>
    if run.offset ≠ off ∨ run.stop ≤ off ∨
      bound < run.stop then .error (.invalidRange off run.offset run.stop bound)
    else if run.kind = .other then .error (.invalidKind off)
    else .ok run

variable (ar : Arith)

/-- One call of the stream at `off`, up to `bound`, with its checks. -/
def resolve (s : SnapshotStream) (call off bound : Nat) : Except SourceErr Run :=
  match s.runAt call off (ar.sub bound off) with
  | .error e => .error (.stream off (e == .eof || e == .unexpectedEOF) e)
  | .ok answer => validateResolvedSnapshotRun answer off bound

variable {run : Run}

theorem validateResolvedSnapshotRun_ok {answer : Option Run} {off bound : Nat}
    (h : validateResolvedSnapshotRun answer off bound = .ok run) :
    answer = some run ∧ run.offset = off ∧ off < run.stop ∧ run.stop ≤ bound ∧
      run.kind ≠ .other := by
  unfold validateResolvedSnapshotRun at h
  cases answer with
  | none => cases h
  | some r =>
    dsimp only at h
    split at h
    · cases h
    split at h
    · cases h
    next hrange hkind =>
      cases h
      exact ⟨rfl, by omega, by omega, by omega, hkind⟩

theorem resolve_ok {ar : Arith} {s : SnapshotStream} {call off bound : Nat}
    (h : resolve ar s call off bound = .ok run) :
    s.runAt call off (ar.sub bound off) = .ok (some run) ∧
      run.offset = off ∧ off < run.stop ∧ run.stop ≤ bound ∧ run.kind ≠ .other := by
  unfold resolve at h
  split at h
  · cases h
  next answer hanswer =>
    obtain ⟨rfl, hrest⟩ := validateResolvedSnapshotRun_ok h
    exact ⟨hanswer, hrest⟩

/-- The loop of `RunAt` over further runs without data. -/
def zeroSpan (s : SnapshotStream) (bound call zeroEnd : Nat) : Except SourceErr Nat :=
  if zeroEnd < bound then
    match _h : resolve ar s call zeroEnd bound with
    | .error e => .error e
    | .ok next => if next.kind = .data then .ok zeroEnd else zeroSpan s bound (call + 1) next.stop
  else .ok zeroEnd
termination_by bound - zeroEnd
decreasing_by
  have := resolve_ok _h
  omega

theorem zeroSpan_eq (s : SnapshotStream) (bound call zeroEnd : Nat) :
    zeroSpan ar s bound call zeroEnd =
      if zeroEnd < bound then
        match resolve ar s call zeroEnd bound with
        | .error e => .error e
        | .ok next =>
          if next.kind = .data then .ok zeroEnd else zeroSpan ar s bound (call + 1) next.stop
      else .ok zeroEnd := by
  rw [zeroSpan]
  split
  · split
    next h => rw [h]
    next h => rw [h]
  · rfl

/-- `bound` in `RunAt`. -/
def runBound (ramSize off limit : Nat) : Nat :=
  if limit < ar.sub ramSize off then ar.add off limit else ramSize

/-- `firstPageEnd` in `RunAt`. -/
def firstPageEnd (off bound : Nat) : Nat :=
  if pageSize < ar.sub bound off then ar.add off pageSize else bound

/-- `RunAt` once its bounds are known. -/
def resolveFault (s : SnapshotStream) (call off bound pageEnd : Nat) : Except SourceErr FaultRun :=
  match resolve ar s call off bound with
  | .error e => .error e
  | .ok run =>
    if run.kind = .data then if pageEnd ≤ run.stop then .ok (.own run) else .ok (.page off pageEnd)
    else
      match zeroSpan ar s bound (call + 1) run.stop with
      | .error e => .error e
      | .ok zeroEnd =>
        if pageEnd ≤ zeroEnd then .ok (.zero off zeroEnd) else .ok (.page off pageEnd)

/-- `StreamSnapshotSource.RunAt`, with the number of its first call of the stream. -/
def StreamSnapshotSource.runAt (src : StreamSnapshotSource) (call off limit : Nat) :
    Except SourceErr FaultRun :=
  if src.ramSize ≤ off then .error .eof
  else if limit = 0 then .error .zeroLimit
  else
    let bound := runBound ar src.ramSize off limit
    resolveFault ar src.stream call off bound (firstPageEnd ar off bound)

/-! ## ReadAt -/

inductive ReadAtErr where
  | invalidRun (offset stop : Nat)
  | outside (inner len runLength : Nat)
  | cancelled
  | stream (off : Nat) (marked : Bool) (err : StreamErr)
  | short (off n len : Nat)
  deriving DecidableEq, Repr

def validateSnapshotRunRead (offset stop inner len : Nat) : Except ReadAtErr Unit :=
  if stop ≤ offset then .error (.invalidRun offset stop)
  else if stop - offset < inner ∨ stop - offset - inner < len then .error
    (.outside inner len (stop - offset))
  else .ok ()

/-- `streamPageRun.ReadAt`. -/
def readPage (call offset stop inner len : Nat) : List Byte × Option ReadAtErr :=
  match validateSnapshotRunRead offset stop inner len with
  | .error e => ([], some e)
  | .ok () =>
    if len = 0 then ([], none)
    else
      let out := s.readAt call len (offset + inner)
      if out.1.length = len ∧ (out.2 = none ∨ out.2 = some .eof) then (out.1, none)
      else match out.2 with
        | some e => (out.1, some (.stream (offset + inner) (e == .eof || e == .unexpectedEOF) e))
        | none => (out.1, some (.short (offset + inner) out.1.length len))

/-- `snapshotZeroRun.ReadAt`. -/
def readZero (cancelled : Bool) (offset stop inner len : Nat) : List Byte × Option ReadAtErr :=
  match validateSnapshotRunRead offset stop inner len with
  | .error e => ([], some e)
  | .ok () =>
    if len = 0 then ([], none)
    else if cancelled then ([], some .cancelled)
    else (List.replicate len 0, none)

/-- The `ReadAt` of the run the handler got, into a buffer of `len` bytes. -/
def FaultRun.readAt (call : Nat) (cancelled : Bool) (run : FaultRun) (len inner : Nat) :
    List Byte × Option ReadAtErr :=
  match run with
  | .own run =>
    let out := s.readRun call run len inner
    (out.1, out.2.map (.stream (run.offset + inner) false))
  | .page offset stop => readPage s call offset stop inner len
  | .zero offset stop => readZero cancelled offset stop inner len

/-! ## No offset wraps -/

theorem Arith.uint64_sub {a b : Nat} (h : b ≤ a) (ha : a < 2 ^ 64) :
    Arith.uint64.sub a b = a - b := by
  show (a + 2 ^ 64 - b) % 2 ^ 64 = a - b
  omega

variable {s : SnapshotStream} {src : StreamSnapshotSource} {call off limit bound zeroEnd : Nat}

theorem resolve_uint64 (h : off ≤ bound) (hb : bound < 2 ^ 64) :
    resolve .uint64 s call off bound = resolve .exact s call off bound := by
  unfold resolve
  rw [Arith.uint64_sub h hb]
  rfl

theorem zeroSpan_uint64 (hb : bound < 2 ^ 64) (call zeroEnd : Nat) :
    zeroSpan .uint64 s bound call zeroEnd = zeroSpan .exact s bound call zeroEnd := by
  induction hn : bound - zeroEnd using Nat.strongRecOn generalizing call zeroEnd with
  | _ n ih =>
    rw [zeroSpan_eq .uint64, zeroSpan_eq .exact]
    split
    next hlt =>
      rw [resolve_uint64 (Nat.le_of_lt hlt) hb]
      cases hres : resolve .exact s call zeroEnd bound with
      | error e => rfl
      | ok next =>
        have hnext := (resolve_ok hres).2.2.1
        dsimp only
        rw [ih (bound - next.stop) (by omega) (call + 1) next.stop rfl]
    · rfl

theorem runBound_exact (ramSize off limit : Nat) (h : off < ramSize) :
    runBound .exact ramSize off limit = min (off + limit) ramSize := by
  show (if limit < ramSize - off then off + limit else ramSize) = _
  split <;> omega

theorem firstPageEnd_exact (h : off ≤ bound) :
    firstPageEnd .exact off bound = min (off + pageSize) bound := by
  show (if pageSize < bound - off then off + pageSize else bound) = _
  split <;> omega

/-- The limit is added only where the sum ends within the RAM. -/
theorem runBound_uint64 {ramSize : Nat} (h : off < ramSize) (hsize : ramSize < 2 ^ 64) :
    runBound .uint64 ramSize off limit = runBound .exact ramSize off limit := by
  unfold runBound
  rw [Arith.uint64_sub (Nat.le_of_lt h) hsize]
  change (if limit < ramSize - off then _ else _) = if limit < ramSize - off then _ else _
  split
  · exact Nat.mod_eq_of_lt (by omega)
  · rfl

theorem firstPageEnd_uint64 (h : off ≤ bound) (hb : bound < 2 ^ 64) :
    firstPageEnd .uint64 off bound = firstPageEnd .exact off bound := by
  unfold firstPageEnd
  rw [Arith.uint64_sub h hb]
  change (if pageSize < bound - off then _ else _) = if pageSize < bound - off then _ else _
  split
  · exact Nat.mod_eq_of_lt (by omega)
  · rfl

/-- `RunAt` in `uint64` is `RunAt` in integers, for every offset and limit. -/
theorem StreamSnapshotSource.runAt_uint64 (hv : src.stream.Valid) (call off limit : Nat) :
    src.runAt .uint64 call off limit = src.runAt .exact call off limit := by
  have hsize : src.ramSize < 2 ^ 64 := Nat.lt_of_le_of_lt src.ramSize_le hv.size
  unfold runAt
  split
  · rfl
  rename_i hoff
  split
  · rfl
  have hlt : off < src.ramSize := Nat.lt_of_not_le hoff
  dsimp only
  rw [runBound_uint64 hlt hsize]
  have hbound := runBound_exact src.ramSize off limit hlt
  have hle : off ≤ runBound .exact src.ramSize off limit := by omega
  have hlt64 : runBound .exact src.ramSize off limit < 2 ^ 64 := by omega
  rw [firstPageEnd_uint64 hle hlt64]
  unfold resolveFault
  rw [resolve_uint64 hle hlt64]
  simp only [zeroSpan_uint64 hlt64]

/-! ## Page safety -/

/-- What the fault handler may rely on in a run it got for `off` and `limit`. -/
structure PageSafe (src : StreamSnapshotSource) (off limit : Nat) (run : FaultRun) : Prop where
  start : run.offset = off
  nonempty : off < run.stop
  within : run.stop ≤ min (off + limit) src.ramSize
  firstPage : min (off + pageSize) (min (off + limit) src.ramSize) ≤ run.stop
  kind : run.kind = .zero ∨ run.kind = .data
  zero : run.kind = .zero → ∀ x, off ≤ x → x < run.stop →
    src.stream.kindOf x = .hole ∨ src.stream.kindOf x = .zero
  reads : ∀ call cancelled len inner, inner + len ≤ run.stop - off →
    (run.readAt src.stream call cancelled len inner).1 =
        bytesAt src.stream.byte (off + inner)
          (run.readAt src.stream call cancelled len inner).1.length ∧
      ((run.readAt src.stream call cancelled len inner).2 = none →
        (run.readAt src.stream call cancelled len inner).1.length = len) ∧
      (src.stream.Readable call → cancelled = false →
        (run.readAt src.stream call cancelled len inner).2 = none)

theorem resolve_fits (hv : s.Valid) (hoff : off < s.size) (hb : off < bound)
    (h : resolve .exact s call off bound = .ok run) : s.Fits off (bound - off) run := by
  obtain ⟨hrun, -⟩ := resolve_ok h
  obtain ⟨r, hr, hfits⟩ := hv.runs call off _ _ hoff (show 0 < bound - off by omega) hrun
  cases hr
  exact hfits

/-- A run of a valid stream that is not data is hole or zero at each of its bytes. -/
theorem SnapshotStream.Fits.blank (h : s.Fits off limit run) (hdata : run.kind ≠ .data) {x : Nat}
    (hx : off ≤ x) (hxs : x < run.stop) : s.kindOf x = .hole ∨ s.kindOf x = .zero := by
  rw [h.bytes x hx hxs]
  have hother := h.kind
  cases hk : run.kind with
  | hole => exact .inl rfl
  | zero => exact .inr rfl
  | data => exact absurd hk hdata
  | other => exact absurd hk hother

/-- The calls of the stream that `RunAt` makes from call `first` at `off`: the first one, and
one behind each run without data that ends below the bound. -/
inductive Asked (s : SnapshotStream) (bound first off : Nat) : Nat → Nat → Prop where
  | start : Asked s bound first off first off
  | next {n x : Nat} {run : Run} (h : Asked s bound first off n x)
      (hrun : s.runAt n x (bound - x) = .ok (some run)) (hkind : run.kind ≠ .data)
      (hlt : run.stop < bound) : Asked s bound first off (n + 1) run.stop

/-- One of these calls failed, with the error that is reported. -/
def Failed (s : SnapshotStream) (bound first off : Nat) (e : SourceErr) : Prop :=
  ∃ n x err, Asked s bound first off n x ∧ s.runAt n x (bound - x) = .error err ∧
    e = .stream x (err == .eof || err == .unexpectedEOF) err

/-- A failed step of `RunAt` on a valid stream is a failed call of the stream. -/
theorem resolve_error (hv : s.Valid) (hoff : off < s.size) (hb : off < bound) {e : SourceErr}
    (h : resolve .exact s call off bound = .error e) : ∃ err,
      s.runAt call off (bound - off) = .error err ∧
      e = .stream off (err == .eof || err == .unexpectedEOF) err := by
  unfold resolve at h
  split at h
  next err herr =>
    cases h
    exact ⟨err, herr, rfl⟩
  next answer hanswer =>
    obtain ⟨run, rfl, hfits⟩ := hv.runs call off _ _ hoff (show 0 < bound - off by omega) hanswer
    have := hfits.limit
    have := hfits.nonempty
    rw [validateResolvedSnapshotRun, if_neg (by rw [hfits.start]; omega), if_neg hfits.kind] at h
    cases h

variable {stop : Nat}

/-- The loop stays below the bound, and what it passed is hole or zero. -/
theorem zeroSpan_ok (hv : s.Valid) (hb : bound ≤ s.size) (call : Nat) (hle : zeroEnd ≤ bound)
    (h : zeroSpan .exact s bound call zeroEnd = .ok stop) : zeroEnd ≤ stop ∧ stop ≤ bound ∧
      ∀ x, zeroEnd ≤ x → x < stop → s.kindOf x = .hole ∨ s.kindOf x = .zero := by
  induction hn : bound - zeroEnd using Nat.strongRecOn generalizing call zeroEnd with
  | _ n ih =>
    have hnone : zeroEnd ≤ zeroEnd ∧ zeroEnd ≤ bound ∧
        ∀ x, zeroEnd ≤ x → x < zeroEnd → s.kindOf x = .hole ∨ s.kindOf x = .zero :=
          ⟨Nat.le_refl _, hle, by omega⟩
    rw [zeroSpan_eq] at h
    split at h
    next hlt =>
      cases hres : resolve .exact s call zeroEnd bound with
      | error e =>
        rw [hres] at h
        cases h
      | ok next =>
        have hfits := resolve_fits hv (by omega) hlt hres
        have hmore := hfits.nonempty
        have hlimit := hfits.limit
        rw [hres] at h
        dsimp only at h
        split at h
        · cases h
          exact hnone
        next hdata =>
          obtain ⟨hstart, hend, hkinds⟩ := ih (bound - next.stop) (by omega) (call + 1)
            (by omega) h rfl
          refine ⟨by omega, hend, fun x hx hxs => ?_⟩
          by_cases hin : x < next.stop
          · exact hfits.blank hdata hx hin
          · exact hkinds x (Nat.le_of_not_lt hin) hxs
    · cases h
      exact hnone

theorem zeroSpan_error (hv : s.Valid) (hb : bound ≤ s.size) {first call : Nat}
    (hasked : zeroEnd < bound → Asked s bound first off call zeroEnd) {e : SourceErr}
    (h : zeroSpan .exact s bound call zeroEnd = .error e) : Failed s bound first off e := by
  induction hn : bound - zeroEnd using Nat.strongRecOn generalizing call zeroEnd with
  | _ n ih =>
    rw [zeroSpan_eq] at h
    split at h
    next hlt =>
      cases hres : resolve .exact s call zeroEnd bound with
      | error e' =>
        rw [hres] at h
        cases h
        obtain ⟨err, herr, he⟩ := resolve_error hv (by omega) hlt hres
        exact ⟨call, zeroEnd, err, hasked hlt, herr, he⟩
      | ok next =>
        obtain ⟨hrun, -, hmore, -⟩ := resolve_ok hres
        rw [hres] at h
        dsimp only at h
        split at h
        · cases h
        next hkind =>
          exact ih (bound - next.stop) (by omega) ((hasked hlt).next hrun hkind) h rfl
    · cases h

/-! ### Reads -/

theorem length_bytesAt (content : Nat → Byte) (off n : Nat) :
    (bytesAt content off n).length = n := by
  rw [bytesAt, List.length_map, List.length_range']

variable {inner len : Nat}

theorem validateSnapshotRunRead_ok (h : off < stop) (hin : inner + len ≤ stop - off) :
    validateSnapshotRunRead off stop inner len = .ok () := by
  rw [validateSnapshotRunRead, if_neg (by omega), if_neg (by omega)]

/-- What a read of a run has to deliver. -/
def Exact (s : SnapshotStream) (call : Nat) (cancelled : Bool) (off len : Nat)
    (out : List Byte × Option ReadAtErr) :
    Prop :=
  out.1 = bytesAt s.byte off out.1.length ∧ (out.2 = none → out.1.length = len) ∧
    (s.Readable call → cancelled = false → out.2 = none)

theorem readPage_exact (hv : s.Valid) (h : off < stop) (hin : inner + len ≤ stop - off)
    (cancelled : Bool) :
    Exact s call cancelled (off + inner) len (readPage s call off stop inner len) := by
  rw [readPage, validateSnapshotRunRead_ok h hin]
  dsimp only
  split
  next hzero => exact ⟨rfl, fun _ => hzero.symm, fun _ _ => rfl⟩
  have hbytes := (hv.reads call len (off + inner)).2
  split
  next hok => exact ⟨hbytes, fun _ => hok.1, fun _ _ => rfl⟩
  next hshort =>
    have hnot : ¬ s.Readable call := fun hr => hshort ⟨(hr.reads _ _).1, .inl (hr.reads _ _).2⟩
    split
    all_goals exact ⟨hbytes, nofun, fun hr => absurd hr hnot⟩

theorem readZero_exact (h : off < stop) (hin : inner + len ≤ stop - off) (cancelled : Bool)
    (hzero : ∀ x, off ≤ x → x < stop → s.byte x = 0) :
    Exact s call cancelled (off + inner) len (readZero cancelled off stop inner len) := by
  rw [readZero, validateSnapshotRunRead_ok h hin]
  dsimp only
  split
  next hlen => exact ⟨rfl, fun _ => hlen.symm, fun _ _ => rfl⟩
  · split
    next hcancelled =>
      refine ⟨rfl, nofun, fun _ hc => ?_⟩
      rw [hcancelled] at hc
      cases hc
    · refine ⟨?_, fun _ => List.length_replicate, fun _ _ => rfl⟩
      have hblank : bytesAt s.byte (off + inner) len = List.replicate len 0 :=
        List.eq_replicate_iff.2 ⟨length_bytesAt .., fun b hb => by
          obtain ⟨x, hx, rfl⟩ := List.mem_map.1 hb
          rw [List.mem_range'_1] at hx
          exact hzero x (by omega) (by omega)⟩
      rw [List.length_replicate, hblank]

theorem own_exact (hv : s.Valid) (cancelled : Bool) :
    Exact s call cancelled (run.offset + inner) len
    ((FaultRun.own run).readAt s call cancelled len inner) := by
  refine ⟨(hv.runReads call run len inner).2, fun h => hv.runFull call run len inner ?_,
    fun hr _ => ?_⟩
  · exact Option.map_eq_none_iff.1 h
  · exact Option.map_eq_none_iff.2 (hr.runReads run len inner)

/-! ### The run of a fault -/

section Fault

variable {pageEnd : Nat}

section

variable (hv : src.stream.Valid) (hb : bound = min (off + limit) src.ramSize)
  (hp : pageEnd = min (off + pageSize) bound)

include hv hb hp

theorem safe_page (hlt : off < bound) : PageSafe src off limit (.page off pageEnd) := by
  have hpos := pageSize_pos
  have hnonempty : off < pageEnd := by omega
  refine ⟨rfl, hnonempty, show pageEnd ≤ _ by omega, show _ ≤ pageEnd by omega, .inr rfl, nofun, ?_⟩
  exact fun call cancelled len inner hin => readPage_exact hv hnonempty hin cancelled

theorem safe_own (hlt : off < bound) {run : Run}
    (hfits : src.stream.Fits off (bound - off) run) (hdata : run.kind = .data)
    (hcovers : pageEnd ≤ run.stop) :
    PageSafe src off limit (.own run) := by
  have hend := hfits.limit
  refine ⟨hfits.start, hfits.nonempty, show run.stop ≤ _ by omega, show _ ≤ run.stop by omega,
    .inr hdata, fun hz => ?_, ?_⟩
  · rw [FaultRun.kind, hdata] at hz
    cases hz
  · intro call cancelled len inner _
    rw [← hfits.start]
    exact own_exact hv cancelled

theorem safe_zero (hlt : off < zeroEnd) (hle : zeroEnd ≤ bound) (hcovers : pageEnd ≤ zeroEnd)
    (hblank : ∀ x, off ≤ x → x < zeroEnd → src.stream.kindOf x = .hole ∨
      src.stream.kindOf x = .zero) :
    PageSafe src off limit (.zero off zeroEnd) := by
  refine ⟨rfl, hlt, show zeroEnd ≤ _ by omega, show _ ≤ zeroEnd by omega, .inl rfl, fun _ => hblank,
    ?_⟩
  intro call cancelled len inner hin
  refine readZero_exact hlt hin cancelled fun x hx hxs => hv.blank x ?_
  rcases hblank x hx hxs with h | h <;> rw [h] <;> exact nofun

theorem resolveFault_safe (hlt : off < bound) :
    Meets (Failed src.stream bound call off) (PageSafe src off limit)
      (resolveFault .exact src.stream call off bound pageEnd) := by
  have hsize := src.ramSize_le
  rw [resolveFault]
  cases hres : resolve .exact src.stream call off bound with
  | error e =>
    obtain ⟨err, herr, he⟩ := resolve_error hv (by omega) hlt hres
    exact .error ⟨call, off, err, .start, herr, he⟩
  | ok run =>
    have hfits := resolve_fits hv (by omega) hlt hres
    have hmore := hfits.nonempty
    have hrunLimit := hfits.limit
    dsimp only
    by_cases hdata : run.kind = .data
    · rw [if_pos hdata]
      by_cases hcovers : pageEnd ≤ run.stop
      · rw [if_pos hcovers]
        exact .ok (safe_own hv hb hp hlt hfits hdata hcovers)
      · rw [if_neg hcovers]
        exact .ok (safe_page hv hb hp hlt)
    · rw [if_neg hdata]
      cases hspan : zeroSpan .exact src.stream bound (call + 1) run.stop with
      | error e =>
        have hasked := Asked.start.next (resolve_ok hres).1 hdata
        exact .error (zeroSpan_error hv (by omega) hasked hspan)
      | ok zeroEnd =>
        obtain ⟨hstart, hend, hkinds⟩ := zeroSpan_ok hv (by omega) (call + 1) (by omega) hspan
        dsimp only
        by_cases hcovers : pageEnd ≤ zeroEnd
        · rw [if_pos hcovers]
          refine .ok (safe_zero hv hb hp (by omega) hend hcovers fun x hx hxs => ?_)
          by_cases hin : x < run.stop
          · exact hfits.blank hdata hx hin
          · exact hkinds x (Nat.le_of_not_lt hin) hxs
        · rw [if_neg hcovers]
          exact .ok (safe_page hv hb hp hlt)

end

end Fault

/-- A stream of two pages with a boundary inside the first: a hole, then data. -/
def boundaryStream : SnapshotStream where
  size := 8192
  kindOf x := if x < 100 then .hole else .data
  byte x := if x < 100 then 0 else 7
  runAt _ off limit := .ok (some (if off < 100 then ⟨off, min 100 (off + limit), .hole, false⟩
    else ⟨off, off + limit, .data, false⟩))
  readAt _ len off := (bytesAt (fun x => if x < 100 then 0 else 7) off len, none)
  readRun _ run len inner :=
    (bytesAt (fun x => if x < 100 then 0 else 7) (run.offset + inner) len, none)

theorem boundaryStream_valid : boundaryStream.Valid where
  size := by decide
  runs := by
    rintro call off limit answer - hlimit ⟨⟩
    refine ⟨_, rfl, ?_⟩
    by_cases h : off < 100
    · rw [if_pos h]
      have hin : ∀ x, x < min 100 (off + limit) → x < 100 := by omega
      exact ⟨rfl, show off < min 100 (off + limit) by omega,
        show min 100 (off + limit) ≤ _ by omega, nofun, fun x _ hx => if_pos (hin x hx)⟩
    · rw [if_neg h]
      exact ⟨rfl, show off < off + limit by omega, Nat.le_refl _, nofun,
        fun x hx _ => if_neg (by omega)⟩
  blank := fun x hx => by
    have hlt : x < 100 := by
      by_contra hge
      exact hx (if_neg hge)
    exact if_pos hlt
  reads := fun call len off => by
    rw [boundaryStream, length_bytesAt]
    exact ⟨Nat.le_refl _, rfl⟩
  runReads := fun call run len inner => by
    rw [boundaryStream, length_bytesAt]
    exact ⟨Nat.le_refl _, rfl⟩
  runFull := fun call run len inner _ => length_bytesAt ..

def boundarySource : StreamSnapshotSource := ⟨boundaryStream, 8192, by decide, Nat.le_refl _⟩

/-- The run as the fault handler sees it. -/
def FaultRun.toRun (run : FaultRun) (chunk : Bool) : Run := ⟨run.offset, run.stop, run.kind, chunk⟩

/-- A stream source keeps the contract of the source that the handler is verified with: its
runs without data are zero there, and a read without an error delivers the bytes. -/
theorem StreamSnapshotSource.runAt_contract (src : StreamSnapshotSource) (hv : src.stream.Valid)
    (cfg : Config)
    (hcfg : cfg.source = src.stream.byte) {run : FaultRun}
    (h : src.runAt .uint64 call off limit = .ok run) : (∀ chunk, cfg.Honest (run.toRun chunk)) ∧
      ∀ call cancelled len inner, inner + len ≤ run.stop - run.offset →
        (run.readAt src.stream call cancelled len inner).2 = none →
        (run.readAt src.stream call cancelled len inner).1 = bytesAt cfg.source
        (run.offset + inner) len := by
  rw [runAt_uint64 hv, runAt] at h
  split at h
  · cases h
  split at h
  · cases h
  have hbound := runBound_exact src.ramSize off limit (by omega)
  have hsafe := (resolveFault_safe hv hbound (firstPageEnd_exact (by omega)) (by omega)).of_ok h
  rw [hcfg, hsafe.start]
  refine ⟨fun chunk hno x hx hxs => ?_, fun call cancelled len inner hin hnone => ?_⟩
  · rw [hcfg]
    refine hv.blank x fun hdata => ?_
    rcases hsafe.kind with hzero | hkind
    · rcases hsafe.zero hzero x (hsafe.start ▸ hx) hxs with hk | hk <;> simp [hk] at hdata
    · rcases hno with hno | hno <;> cases hkind.symm.trans hno
  · obtain ⟨hbytes, hfull, -⟩ := hsafe.reads call cancelled len inner hin
    rw [hbytes, hfull hnone]

theorem runAt_contract_data :
    ((FaultRun.own ⟨4096, 8192, .data, false⟩).readAt boundaryStream 0 false 1 0).1 = [7] :=
  (boundarySource.runAt_contract boundaryStream_valid ⟨8192, boundaryStream.byte, false, false,
    by decide, by decide +kernel, nofun⟩
    rfl (by decide +kernel : boundarySource.runAt .uint64 0 4096 4096 = .ok _)).2 0 false 1 0
      (by decide) rfl

end Sandboxer.Uffd
