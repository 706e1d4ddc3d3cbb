import Mathlib.Data.Nat.Basic
import Mathlib.Logic.Function.Basic

/-! # Blocks and contents

A disk is an array of 4 KiB blocks. Buffers are functions of the disk position,
so a chunk of a request is the request's buffer at the chunk's positions. The
contents of a disk are its accepted mutations, replayed over what it held when
it was opened: the upper blocks of the diff, and below them the template over
the base over zeros. -/
namespace Sandboxer.Diffstore

abbrev Byte := UInt8

/-- `cowBlockSize`. -/
@[irreducible] def blockSize : Nat := 4096

theorem blockSize_pos : 0 < blockSize := by
  unfold blockSize
  omega

abbrev Block := Fin blockSize → Byte

def zeroBlock : Block := fun _ => 0

/-- The byte of a block at the disk position `x`. -/
def Block.at (blk : Block) (x : Nat) : Byte := blk ⟨x % blockSize, Nat.mod_lt _ blockSize_pos⟩

def blockOf (buf : Nat → Byte) (b : Nat) : Block := fun i => buf (b * blockSize + i)

@[simp] theorem blockOf_at (buf : Nat → Byte) (x : Nat) :
    (blockOf buf (x / blockSize)).at x = buf x := by
  simp only [blockOf, Block.at, Nat.div_add_mod']

@[simp] theorem zeroBlock_at (x : Nat) : zeroBlock.at x = 0 := rfl

/-- Positions `[lo, hi)` of a buffer taken from another one. -/
def paste (buf : Nat → Byte) (lo hi : Nat) (src : Nat → Byte) : Nat → Byte := fun x =>
  if lo ≤ x ∧ x < hi then src x else buf x

/-- Block `b` with the positions `[lo, hi)` taken from a buffer. -/
def Block.merge (blk : Block) (b lo hi : Nat) (buf : Nat → Byte) : Block :=
  blockOf (paste (fun x => blk.at x) lo hi buf) b

/-- A write that covers the block leaves nothing of what it held. -/
theorem Block.merge_full {blk blk' : Block} {b lo hi : Nat} {buf : Nat → Byte}
    (hlo : lo ≤ b * blockSize) (hhi : (b + 1) * blockSize ≤ hi) :
    blk.merge b lo hi buf = blk'.merge b lo hi buf := by
  funext i
  rw [Nat.add_mul, Nat.one_mul] at hhi
  simp only [merge, blockOf, paste]
  rw [if_pos (by omega), if_pos (by omega)]

/-! ## Mutations -/

structure CacheKey where
  disk : Nat
  block : Nat
  deriving DecidableEq, Repr

/-- What a frontend request may do to one block: write the positions `[lo, hi)`,
or discard it. -/
inductive Mutation where
  | write (key : CacheKey) (lo hi : Nat) (buf : Nat → Byte)
  | zero (key : CacheKey)

def Mutation.key : Mutation → CacheKey
  | .write key _ _ _ => key
  | .zero key => key

def Mutation.apply : Mutation → Block → Block
  | .write key lo hi buf, blk => blk.merge key.block lo hi buf
  | .zero _, _ => zeroBlock

/-- The contents after the accepted mutations, latest first. -/
def contents (origin : CacheKey → Block) : List Mutation → CacheKey → Block
  | [], k => origin k
  | m :: ms, k => if m.key = k then m.apply (contents origin ms k) else contents origin ms k

section Contents

variable {origin : CacheKey → Block} {ms : List Mutation} {m : Mutation} {k : CacheKey}

theorem contents_cons_self :
    contents origin (m :: ms) m.key = m.apply (contents origin ms m.key) := by
  simp [contents]

theorem contents_cons_of_ne (h : k ≠ m.key) :
    contents origin (m :: ms) k = contents origin ms k := by
  simp [contents, Ne.symm h]

end Contents

/-! ## Layers below the diff -/

/-- `sparse.RunKind`. -/
inductive RunKind where
  | hole
  | zero
  | data
  deriving DecidableEq, Repr

/-- A template whose sparse map has block-aligned runs: a kind for each of its
blocks. -/
structure Template where
  blocks : Nat
  kind : Nat → RunKind
  bytes : Nat → Byte

structure Base where
  size : Nat
  bytes : Nat → Byte

/-- What is fixed about a `Disk`; `versions` marks the checkpoint backend. -/
structure DiskConfig where
  size : Nat
  base : Option Base
  template : Option Template
  versions : Bool

namespace DiskConfig

variable (dc : DiskConfig)

/-- A byte of the base layer; zeros without one and past its end. -/
def baseByte (x : Nat) : Byte :=
  match dc.base with
  | none => 0
  | some b => if x < b.size then b.bytes x else 0

/-- The kind of a block in the template; a block past its end is a hole. -/
def templateKind (b : Nat) : RunKind :=
  match dc.template with
  | none => .hole
  | some t => if b < t.blocks then t.kind b else .hole

def templateByte (x : Nat) : Byte :=
  match dc.template with
  | none => 0
  | some t => t.bytes x

/-- A byte below the diff: Data and Zero of the template mask the base. -/
def lowerByte (x : Nat) : Byte :=
  match dc.templateKind (x / blockSize) with
  | .hole => dc.baseByte x
  | .zero => 0
  | .data => dc.templateByte x

end DiskConfig

end Sandboxer.Diffstore
