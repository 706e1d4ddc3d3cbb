import Mathlib.Data.Nat.Basic

/-! # Pages of the versioned store

`diffstore/internal/versioned/format.go`: the file is an array of 4 KiB pages.
Pages below `slotAreaPage` hold the header, the control record, the redo area and
the presence bitmap. Behind them come groups of one descriptor page and
`slotsPerGroup` slots; a slot holds a data page, a B+ index node, a checkpoint
record or a page of a checkpoint's presence copy.

A page is modelled by what its bytes decode to. Checksums and the layout inside
a page are left to the codecs: a page that does not decode is `Image.unreadable`. -/
namespace Sandboxer.Versioned

abbrev Byte := BitVec 8

def pageSize : Nat := 4096

theorem pageSize_pos : 0 < pageSize := by decide

def maxEntries : Nat := 255
def maxDepth : Nat := 8
def maxPresencePages : Nat := 256
def slotAreaPage : Nat := 2048
def slotsPerGroup : Nat := 128

/-! ## Errors -/

/-- Errors the callers tell apart; `corrupt` and `request` carry the source's text. -/
inductive Failure where
  /-- An out-of-range index or another run-time panic. -/
  | panic
  | corrupt (text : String)
  | request (text : String)
  | eof
  | unexpectedEOF
  | io
  deriving DecidableEq, Repr

/-! ## Index nodes -/

structure Entry where
  key : Nat
  slot : Nat
  deriving DecidableEq, Repr

structure Node where
  leaf : Bool
  entries : List Entry
  deriving DecidableEq, Repr

/-- The last key of a node, the separator its parent has for it. -/
def Node.lastKey? (n : Node) : Option Nat := n.entries.getLast?.map Entry.key

/-- What the bytes of a page decode to. -/
inductive Image where
  /-- Zeros of a hole, a page of another kind, or bytes no decoder accepts. -/
  | unreadable
  /-- A B+ page with its leaf byte; occupancy and order are still to be checked. -/
  | index (flag : Nat) (entries : List Entry)

/-! ## Addresses -/

/-- The page of a slot; slots count from 1. -/
def slotPage (slot : Nat) : Nat :=
  slotAreaPage + (slot - 1) / slotsPerGroup * (slotsPerGroup + 1) + 1 + (slot - 1) % slotsPerGroup

end Sandboxer.Versioned
