import Sandboxer.Usage.Accumulate

/-! # The record format and its recovery

`format.go`: a record is a frame of a header with its length, a payload of
variable-length integers and counted texts, and a footer with a checksum, the
length again and a marker. Records are appended one after the other; `recover`
finds the last one from the end of the file. -/
namespace Sandboxer.Usage

open Lib.Wire

def formatVersion : Nat := 1
def algorithmVersion : Nat := 1
def maxRecordBytes : Nat := 524288
def frameHeader : Nat := 16
def frameFooter : Nat := 16
def maxString : Nat := 256
def fileMagic : Bytes := ascii "KUUSAGE1"
def tailMagic : Bytes := ascii "USAGEEND"

/-! ## Texts and checksums -/

def continuation (b : UInt8) : Bool := 0x80 ≤ b && b ≤ 0xBF

/-- Two bytes of one character. -/
def rune2 (a b : UInt8) : Bool := 0xC2 ≤ a && a ≤ 0xDF && continuation b

/-- Three bytes of one character, without overlong forms and surrogates. -/
def rune3 (a b c : UInt8) : Bool :=
  0xE0 ≤ a && a ≤ 0xEF && (if a = 0xE0 then 0xA0 else 0x80) ≤ b &&
    b ≤ (if a = 0xED then 0x9F else 0xBF) && continuation c

/-- Four bytes of one character, up to the last code point. -/
def rune4 (a b c d : UInt8) : Bool :=
  0xF0 ≤ a && a ≤ 0xF4 && (if a = 0xF0 then 0x90 else 0x80) ≤ b &&
    b ≤ (if a = 0xF4 then 0x8F else 0xBF) && continuation c && continuation d

def validString : Bytes → Bool
  | [] => true
  | a :: rest =>
    if a < 0x80 then validString rest
    else match rest with
      | [] => false
      | b :: rest =>
        if rune2 a b then validString rest
        else match rest with
          | [] => false
          | c :: rest =>
            if rune3 a b c then validString rest
            else match rest with
              | [] => false
              | d :: rest => rune4 a b c d && validString rest

def validText (s : Text) : Bool := s.length ≤ maxString && validString s

def crcBit (c : UInt32) : UInt32 := if c &&& 1 = 1 then (c >>> 1) ^^^ 0x82F63B78 else c >>> 1

def crcByte (c : UInt32) (b : UInt8) : UInt32 :=
  crcBit (crcBit (crcBit (crcBit (crcBit (crcBit (crcBit (crcBit (c ^^^ b.toUInt32))))))))

variable (b : Bytes)

def checksum : UInt32 := ~~~b.foldl crcByte 0xFFFFFFFF

/-! ## Encoding -/

def encodeU (v : UInt64) : Piece := ⟨uvarint v.toNat, true⟩

def encodeI (v : Int64) : Piece := encodeU (zigzag v)

def encodeFlag (v : Bool) : Piece := encodeU (if v then 1 else 0)

/-- A text that is not valid is an error of the encoder. -/
def encodeText (s : Text) : Piece := ⟨uvarint s.length ++ s, validText s⟩

def encodeWide (v : Uint128) : Piece := encodeU v.hi ++ encodeU v.lo

def encodeWindow (w : Window) : Piece :=
  encodeWide w.area ++ encodeU w.span ++ encodeU w.covered ++ encodeU w.peak ++ encodeI w.peakAt ++
    encodeFlag w.peakKnown ++ encodeU w.samples ++ encodeU w.maxReadWindow

def encodeCounter (c : Counter) : Piece :=
  encodeText c.name ++ encodeText c.source ++ encodeWide c.knownTotal ++ encodeU c.lastRaw ++
    encodeU c.hertz ++ encodeU c.remainder ++ encodeFlag c.sourceKnown ++ encodeFlag c.complete ++
    encodeText c.status

def encodeGauge (g : Gauge) : Piece :=
  encodeText g.name ++ encodeText g.source ++ encodeWide g.integralTotal ++ encodeU g.spanTotal ++
    encodeU g.coveredTotal ++ encodeU g.lastValue ++ encodeI g.lastValueAt ++ encodeI g.lastAt ++
    encodeU g.lastRequest ++ encodeFlag g.positionKnown ++ encodeFlag g.valueKnown ++
    encodeFlag g.continuous ++ encodeText g.status ++ encodeWindow g.window

/-- The values of a list, after their number. -/
def encodeList {α : Type} (f : α → Piece) (as : List α) : Piece :=
  encodeU (UInt64.ofNat as.length) ++ Piece.all f as

def encodePayload (r : Record) : Piece :=
  let s := r.snapshot
  encodeU r.sequence ++ encodeI r.savedUTC ++ encodeText s.sandboxID ++ encodeText s.runEpoch ++
    encodeI s.startedUTC ++ encodeI s.sampleInterval ++ encodeI s.flushInterval ++
      encodeFlag s.closed ++
    encodeList encodeCounter s.counters ++ encodeList encodeGauge s.gauges

def frame (payload : Bytes) : Bytes :=
  let length := frameHeader + payload.length + frameFooter
  let body := fileMagic ++ le 2 formatVersion ++ le 2 algorithmVersion ++ le 4 length ++ payload
  body ++ le 4 (checksum body).toNat ++ le 4 length ++ tailMagic

/-- The check of one counter; `names` are those before it. -/
def badCounter (names : List Text) (c : Counter) : Bool :=
  c.name = [] || names.contains c.name ||
    (c.sourceKnown && (c.source = [] || c.hertz = 0 || c.remainder ≥ c.hertz))

def badGauge (names : List Text) (g : Gauge) : Bool :=
  g.name = [] || names.contains g.name || g.coveredTotal > g.spanTotal ||
    g.window.covered > g.window.span || g.window.covered > g.coveredTotal || g.window.span >
      g.spanTotal

/-- The check of all values, each against the names before it. -/
def allNamed {α : Type} (name : α → Text) (bad : List Text → α → Bool) : List Text → List α → Bool
  | _, [] => true
  | names, a :: as => !bad names a && allNamed name bad (names ++ [name a]) as

def validateRecord (r : Record) : Bool :=
  let s := r.snapshot
  !(r.sequence = 0 || s.sandboxID = [] || s.runEpoch = [] || s.sampleInterval ≤ 0 ||
    s.sampleInterval > maxInterval || s.flushInterval < s.sampleInterval ||
    s.counters.length > maxCounters || s.gauges.length > maxGauges) &&
  allNamed Counter.name badCounter [] s.counters &&
  allNamed Gauge.name badGauge (s.counters.map Counter.name) s.gauges

def encodeRecord (r : Record) : Except UsageError Bytes :=
  if !validateRecord r then .error .corrupt
  else
    let e := encodePayload r
    if !e.ok then .error .invalidString
    else if frameHeader + e.bytes.length + frameFooter > maxRecordBytes then .error .recordTooLarge
    else .ok (frame e.bytes)

/-! ## Decoding -/

def decodeU : Reader UInt64 := do return UInt64.ofNat (← readUvarint)

def decodeI : Reader Int64 := do return unzigzag (← decodeU)

/-- The first error of the decoder is the only one: all are the same. -/
def failIf (c : Bool) : Reader Unit := if c then StateT.lift none else pure ()

def decodeFlag : Reader Bool := do
  let v ← decodeU
  failIf (v > 1)
  return v == 1

def takeBytes (n : Nat) : Reader Bytes := fun b =>
  if n ≤ b.length then some (b.take n, b.drop n) else none

def decodeText : Reader Text := do
  let n ← decodeU
  failIf (n.toNat > maxString)
  let s ← takeBytes n.toNat
  failIf (!validString s)
  return s

def decodeWide : Reader Uint128 := do
  let hi ← decodeU
  let lo ← decodeU
  return ⟨hi, lo⟩

def decodeWindow : Reader Window := do
  let area ← decodeWide
  let span ← decodeU
  let covered ← decodeU
  let peak ← decodeU
  let peakAt ← decodeI
  let peakKnown ← decodeFlag
  let samples ← decodeU
  let maxReadWindow ← decodeU
  return { area, span, covered, peak, peakAt, peakKnown, samples, maxReadWindow }

def decodeCounter : Reader Counter := do
  let name ← decodeText
  let source ← decodeText
  let knownTotal ← decodeWide
  let lastRaw ← decodeU
  let hertz ← decodeU
  let remainder ← decodeU
  let sourceKnown ← decodeFlag
  let complete ← decodeFlag
  let status ← decodeText
  return { name, source, knownTotal, lastRaw, hertz, remainder, sourceKnown, complete, status }

def decodeGauge : Reader Gauge := do
  let name ← decodeText
  let source ← decodeText
  let integralTotal ← decodeWide
  let spanTotal ← decodeU
  let coveredTotal ← decodeU
  let lastValue ← decodeU
  let lastValueAt ← decodeI
  let lastAt ← decodeI
  let lastRequest ← decodeU
  let positionKnown ← decodeFlag
  let valueKnown ← decodeFlag
  let continuous ← decodeFlag
  let status ← decodeText
  let window ← decodeWindow
  return { name, source, integralTotal, spanTotal, coveredTotal, lastValue, lastValueAt, lastAt,
           lastRequest, positionKnown, valueKnown, continuous, status, window }

def decodeList {α : Type} (d : Reader α) (most : Nat) : Reader (List α) := do
  let n ← decodeU
  failIf (n.toNat > most)
  Piece.count d n.toNat

def decodePayload : Reader Record := do
  let sequence ← decodeU
  let savedUTC ← decodeI
  let sandboxID ← decodeText
  let runEpoch ← decodeText
  let startedUTC ← decodeI
  let sampleInterval ← decodeI
  let flushInterval ← decodeI
  let closed ← decodeFlag
  let counters ← decodeList decodeCounter maxCounters
  let gauges ← decodeList decodeGauge maxGauges
  return ⟨sequence, savedUTC,
    { sandboxID, runEpoch, startedUTC, sampleInterval, flushInterval, counters, gauges, closed }⟩

/-- The bytes from `i` up to `j`. -/
def slice (i j : Nat) : Bytes := (b.take j).drop i

/-- The record that was decoded, if it used all bytes and is a valid one of the sandbox. -/
def checkRecord (sandboxID : Text) : Option (Record × Bytes) → Except UsageError Record
  | some (r, []) =>
    if r.snapshot.sandboxID ≠ sandboxID then .error .identityMismatch
    else if !validateRecord r then .error .corrupt
    else .ok r
  | _ => .error .corrupt

def decodeRecord (sandboxID : Text) : Except UsageError Record :=
  if b.length < frameHeader + frameFooter ∨ b.length > maxRecordBytes ∨ slice b 0 8 ≠ fileMagic ∨
      b.drop (b.length - 8) ≠ tailMagic then .error .corrupt
  else if ofLE (slice b 8 10) ≠ formatVersion ∨ ofLE (slice b 10 12) ≠ algorithmVersion then
    .error .unsupportedVersion
  else if ofLE (slice b 12 16) ≠ b.length ∨
    ofLE (slice b (b.length - 12) (b.length - 8)) ≠ b.length ∨
      (checksum (b.take (b.length - frameFooter))).toNat ≠
        ofLE (slice b (b.length - frameFooter) (b.length - 12)) then .error .corrupt
  else checkRecord sandboxID (decodePayload (slice b frameHeader (b.length - frameFooter)))

/-! ## Recovery -/

structure Recovery where
  record : Option Record
  finish : Nat
  incompleteTail : Bool
  deriving DecidableEq, Repr

/-- `checkIncomplete`: the bytes can be the start of a record. -/
def checkIncomplete : Bool :=
  if b.length < fileMagic.length then b = fileMagic.take b.length
  else if slice b 0 8 ≠ fileMagic then false
  else if b.length < frameHeader then true
  else if ofLE (slice b 8 10) ≠ formatVersion ∨ ofLE (slice b 10 12) ≠ algorithmVersion then false
  else
    let length := ofLE (slice b 12 16)
    !(length < frameHeader + frameFooter || length > maxRecordBytes || b.length ≥ length)

/-- No record was found in what was read from `start` on. -/
def noRecord (start : Nat) : Except UsageError Recovery :=
  if start ≠ 0 then .error .corrupt
  else if !checkIncomplete b then .error .corrupt
  else .ok ⟨none, 0, true⟩

/-- The search of `Recover` for a marker before `search`. -/
def searchRecord (start : Nat) (sandboxID : Text) (search : Nat) : Except UsageError Recovery :=
  if search < tailMagic.length then noRecord b start
  else match h : lastIndex (b.take search) tailMagic with
    | none => noRecord b start
    | some pos =>
      have : pos < search := by
        have hle := lastIndex_add_le h (by decide)
        have hlen : tailMagic.length = 8 := rfl
        have htake := List.length_take_le search b
        omega
      let finish := pos + tailMagic.length
      let n := ofLE (slice b (pos - 4) pos)
      if pos < 8 then searchRecord start sandboxID pos
      else if n < frameHeader + frameFooter ∨ n > maxRecordBytes ∨ n > finish then
        searchRecord start sandboxID pos
      else match decodeRecord (slice b (finish - n) finish) sandboxID with
        | .error e =>
          -- a complete frame at the end of the file is not an incomplete append
          if finish = b.length then .error e else searchRecord start sandboxID pos
        | .ok r =>
          if !checkIncomplete (b.drop finish) then .error .corrupt
          else .ok ⟨some r, start + finish, finish != b.length⟩
  termination_by search

/-- `Recover`, on a file with these bytes. -/
def recover (file : Bytes) (sandboxID : Text) : Except UsageError Recovery :=
  if file.length = 0 then .ok ⟨none, 0, false⟩
  else
    let start := file.length - 2 * maxRecordBytes
    let b := file.drop start
    searchRecord b start sandboxID b.length

end Sandboxer.Usage
