import Sandboxer.Lib.Wire

/-! # What a usage record holds

The gauges, the counters and the snapshot of `accumulate.go` and the 128-bit totals
of `number.go`, as far as a record of them is written and recovered. -/
namespace Sandboxer.Usage

open Lib.Wire

/-- Why an operation of the usage accounting fails. -/
inductive UsageError where
  | corrupt
  | unsupportedVersion
  | identityMismatch
  | invalidString
  | recordTooLarge
  deriving DecidableEq, Repr

structure Uint128 where
  hi : UInt64
  lo : UInt64
  deriving DecidableEq, Repr

def Uint128.zero : Uint128 := ⟨0, 0⟩

/-- A string of the source: any bytes. -/
abbrev Text := Bytes

def maxCounters : Nat := 1027
def maxGauges : Nat := 14

/-- The largest sample interval, in nanoseconds. -/
def maxInterval : Int64 := 4611686018427387903

/-! ## Windows -/

structure Window where
  area : Uint128 := .zero
  span : UInt64 := 0
  covered : UInt64 := 0
  peak : UInt64 := 0
  peakAt : Int64 := 0
  peakKnown : Bool := false
  samples : UInt64 := 0
  maxReadWindow : UInt64 := 0
  deriving DecidableEq, Repr

/-! ## Gauges -/

structure Gauge where
  name : Text
  source : Text := []
  integralTotal : Uint128 := .zero
  spanTotal : UInt64 := 0
  coveredTotal : UInt64 := 0
  lastValue : UInt64 := 0
  lastValueAt : Int64 := 0
  lastAt : Int64 := 0
  lastRequest : UInt64 := 0
  positionKnown : Bool := false
  valueKnown : Bool := false
  continuous : Bool := false
  status : Text := []
  window : Window := {}
  deriving DecidableEq, Repr

/-! ## Counters -/

structure Counter where
  name : Text
  source : Text := []
  knownTotal : Uint128 := .zero
  lastRaw : UInt64 := 0
  hertz : UInt64 := 0
  remainder : UInt64 := 0
  sourceKnown : Bool := false
  complete : Bool := false
  status : Text := []
  deriving DecidableEq, Repr

/-! ## Snapshots and records -/

structure Snapshot where
  sandboxID : Text
  runEpoch : Text := []
  startedUTC : Int64 := 0
  sampleInterval : Int64 := 0
  flushInterval : Int64 := 0
  counters : List Counter := []
  gauges : List Gauge := []
  closed : Bool := false
  deriving DecidableEq, Repr

structure Record where
  sequence : UInt64
  savedUTC : Int64
  snapshot : Snapshot
  deriving DecidableEq, Repr

end Sandboxer.Usage
