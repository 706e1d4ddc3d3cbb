import Sandboxer.Versioned.Format
import Mathlib.Data.List.Chain

/-! # Reading the B+ index

`tree.go` and `presence.go`, the readers: decoding and checking a node, point
lookup, and the range query with its two boundary descents.

Recursion follows the number of levels a descent may still go down,
`maxDepth - depth` in the source. A context's cancellation is left out: it only
adds failures. -/
namespace Sandboxer.Versioned

/-! ## Nodes -/

/-- `decodeNode`'s scan of the entries: ascending keys and no zero slot. -/
def ordered : List Entry → Bool
  | [] => true
  | [e] => e.slot ≠ 0
  | e :: f :: es => e.slot ≠ 0 && e.key < f.key && ordered (f :: es)

def decodeNode : Image → Except Failure Node
  | .index flag entries =>
    if entries.length = 0 ∨ maxEntries < entries.length ∨ 1 < flag then
      .error (.corrupt "diffstore: invalid B+ occupancy")
    else if ordered entries then .ok ⟨flag ≠ 0, entries⟩
    else .error (.corrupt "diffstore: invalid B+ ordering")
  | _ => .error (.corrupt "diffstore: invalid B+ page")

/-- What a `pageReader` offers the index: pages (`none` if the read fails), the
allocation limit of the control record, which starts at 1 and never falls, and the
number of logical blocks. -/
structure Source where
  page : Nat → Option Image
  next : Nat
  total : Nat
  allocated : 0 < next

/-- A node reader, `inspectNode` of some source. -/
abbrev Reader := Nat → Except Failure Node

def inspectNode (r : Source) : Reader := fun slot =>
  if slot = 0 ∨ r.next ≤ slot then .error (.corrupt "diffstore: B+ slot outside allocation")
  else match r.page (slotPage slot) with
    | none => .error .io
    | some b => do
      let n ← decodeNode b
      if n.entries.any (fun e => r.total ≤ e.key || r.next ≤ e.slot) then
        .error (.corrupt "diffstore: B+ entry outside capacity or allocation")
      else .ok n

/-- `sort.Search` over the ascending keys of a node: the first entry at or above a key. -/
def search (entries : List Entry) (key : Nat) : Nat := entries.findIdx fun e => key ≤ e.key

def depthExceeded : Failure := .corrupt "diffstore: B+ depth exceeded"

/-! ## Point lookup -/

variable (r : Reader)

def lookupFrom (key : Nat) : Nat → Nat → Except Failure Nat
  | _, 0 => .ok 0
  | 0, _ + 1 => .error depthExceeded
  | levels + 1, slot + 1 => do
    let n ← r (slot + 1)
    match n.entries[search n.entries key]? with
    | none => .ok 0
    | some e =>
      if n.leaf then if e.key = key then .ok e.slot else .ok 0
      else lookupFrom key levels e.slot

/-- The slot a key is mapped to, 0 if it is not mapped. -/
def lookup (root key : Nat) : Except Failure Nat := lookupFrom r key maxDepth root

/-! ## Range presence -/

def invalidChildRange : Failure := .corrupt "diffstore: invalid B+ child range"

/-- A node that keeps to the bounds its parent has for it. The root, which no
separator describes, may end below its upper bound. -/
def payloadRangeNode (slot lower upper : Nat) : Nat → Except Failure Node
  | 0 => .error depthExceeded
  | levels + 1 => do
    let n ← r slot
    match n.entries.head?, n.lastKey? with
    | some first, some last =>
      if first.key < lower ∨ upper < last ∨
        (levels + 1 < maxDepth ∧ last ≠ upper) then .error invalidChildRange
      else .ok n
    | _, _ => .error .panic

/-- The lower bound of a child: just above the separator before it. -/
def childLower (entries : List Entry) (lower index : Nat) : Nat :=
  if index = 0 then lower
  else match entries[index - 1]? with
    | some e => e.key + 1
    | none => lower

/-- The rightmost (or leftmost) path of an adjacent subtree, down to its leaf. -/
def presenceBoundary (right : Bool) : Nat → (parent : List Entry) →
    (index lower : Nat) → Except Failure Unit
  | 0, _, _, _ => .error depthExceeded
  | levels + 1, parent, index, lower =>
    match parent[index]? with
    | none => .error .panic
    | some e => do
      let n ← payloadRangeNode r e.slot (childLower parent lower index) e.key (levels + 1)
      if n.leaf then .ok ()
      else
        presenceBoundary right levels n.entries (if right then n.entries.length - 1 else 0)
          (childLower parent lower index)

/-- The result of a range query: `present` as the source has it, and the leaves it took
its answers from, in order. -/
structure Report where
  present : List Bool
  visited : List (List Entry)
  deriving DecidableEq, Repr

/-- The loop over the entries of a leaf. -/
def markLeaf (start stop : Nat) : List Entry → List Bool → Except Failure (List Bool)
  | [], present => .ok present
  | e :: es, present =>
    if stop ≤ e.key then .ok present
    else if start ≤ e.key ∧ e.key - start < present.length then
      markLeaf start stop es (present.set (e.key - start) true)
    else .error .panic

/-- The loop over the children of a node, from one whose lower bound is `lower`. It
returns the children it did not come to. -/
def rangeChildren (visit : (slot lower upper : Nat) → Report → Except Failure Report) (stop : Nat) :
    List Entry → Nat → Report → Except Failure (List Entry × Report)
  | [], _, rep => .ok ([], rep)
  | e :: es, lower, rep =>
    if stop ≤ lower then .ok (e :: es, rep)
    else do
      let rep ← visit e.slot lower e.key rep
      rangeChildren visit stop es (e.key + 1) rep

/-- A separator may understate its child's maximum: the child skipped before the range
is checked down to its rightmost leaf. -/
def checkBefore (levels : Nat) (entries : List Entry) (index lower : Nat) : Except Failure Unit :=
  if 0 < index then presenceBoundary r true levels entries (index - 1) lower else .ok ()

/-- Likewise the child behind the range must not hold keys below its lower bound. -/
def checkAfter (levels : Nat) (entries rest : List Entry) (lower : Nat) : Except Failure Unit :=
  if rest = [] then .ok () else presenceBoundary r false levels entries
    (entries.length - rest.length) lower

/-- The keys of a subtree in `[start, stop)`, entered in `present`. -/
def payloadRange (start stop : Nat) :
    Nat → (slot lower upper : Nat) → Report → Except Failure Report
  | 0, _, _, _, _ => .error depthExceeded
  | levels + 1, slot, lower, upper, rep => do
    let n ← payloadRangeNode r slot lower upper (levels + 1)
    let i := search n.entries start
    if n.leaf then do
      let present ← markLeaf start stop (n.entries.drop i) rep.present
      .ok ⟨present, rep.visited ++ [n.entries]⟩
    else do
      checkBefore r levels n.entries i lower
      let (rest, rep) ← rangeChildren (payloadRange start stop levels) stop (n.entries.drop i)
        (childLower n.entries lower i) rep
      checkAfter r levels n.entries rest lower
      .ok rep

/-- The query as its callers make it, with a cleared `present`. -/
def payloadPresence (r : Source) (root start stop : Nat) : Except Failure Report :=
  payloadRange (inspectNode r) start stop maxDepth root 0 (r.total - 1)
    ⟨List.replicate (stop - start) false, []⟩

end Sandboxer.Versioned
