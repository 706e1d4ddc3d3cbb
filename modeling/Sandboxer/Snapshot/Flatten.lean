import Mathlib.Algebra.Ring.Int.Defs
import Mathlib.Algebra.Ring.Nat
import Sandboxer.Lib.Search
import Sandboxer.Lib.Layers

/-! # Flattening two layers

`mergeSparse` joins the layer of this run with the local layer it was restored
from. The joined hole map is where both have a hole; the joined reader finds out
at every read which layer owns the position and how far. Restoring the joined
layer must give what restoring the two layers gives, over any layers below. -/
namespace Sandboxer.Snapshot
open Lib.Search Lib.Layers

/-! ## Hole maps -/

/-- `sparse.Extent`. -/
structure Extent where
  offset : Nat
  size : Nat
  deriving DecidableEq, Repr

def Extent.stop (h : Extent) : Nat := h.offset + h.size

def Extent.contains (h : Extent) (x : Nat) : Bool := decide (h.offset ≤ x) && decide (x < h.stop)

def inHole (holes : List Extent) (x : Nat) : Bool := holes.any (·.contains x)

/-- What a layer promises of its hole map; extents may touch and may be empty. -/
structure HoleMap (size : Nat) (holes : List Extent) : Prop where
  sorted : holes.Pairwise fun a b => a.stop ≤ b.offset
  inside : ∀ h ∈ holes, h.stop ≤ size

/-- A hole map in which no extent is empty and no two touch. -/
structure Coalesced (size : Nat) (holes : List Extent) : Prop where
  apart : holes.Pairwise fun a b => a.stop < b.offset
  nonempty : ∀ h ∈ holes, 0 < h.size
  inside : ∀ h ∈ holes, h.stop ≤ size

/-- The predicate `holeRun` searches with. -/
def endsAfter (holes : List Extent) (pos i : Nat) : Bool :=
  match holes[i]? with
  | some h => decide (pos < h.offset) || decide (pos - h.offset < h.size)
  | none => false

/-- `holeRun`; a position is never negative here. -/
def holeRun (pos : Nat) (holes : List Extent) (size : Nat) : Bool × Nat :=
  if size ≤ pos then (false, size)
  else match holes[search holes.length (endsAfter holes pos)]? with
    | none => (false, size)
    | some h => if pos < h.offset then (false, h.offset) else (true, h.stop)

variable {holes a b : List Extent} {size pos : Nat} {h : Extent}

theorem inHole_iff {x : Nat} : inHole holes x = true ↔ ∃ e ∈ holes, e.offset ≤ x ∧ x < e.stop := by
  simp only [inHole, List.any_eq_true, Extent.contains, Bool.and_eq_true, decide_eq_true_eq]

theorem inHole_eq_false_of_stop (h : ∀ e ∈ holes, e.stop ≤ pos) {x : Nat} (hx : pos ≤ x) :
    inHole holes x = false := by
  refine Bool.eq_false_iff.2 fun hin => ?_
  obtain ⟨e, he, -, hlt⟩ := inHole_iff.1 hin
  have := h e he
  omega

theorem endsAfter_iff {i : Nat} (pos : Nat) (hi : holes[i]? = some h) :
    endsAfter holes pos i = true ↔ pos < h.offset ∨ pos < h.stop := by
  rw [endsAfter, hi, Extent.stop]
  simp only [Bool.or_eq_true, decide_eq_true_eq]
  omega

/-- Every run is longer than nothing, whatever the hole map. -/
theorem holeRun_progress (holes : List Extent) (hpos : pos < size) :
    pos < (holeRun pos holes size).2 := by
  rw [holeRun, if_neg (by omega)]
  cases hi : holes[search holes.length (endsAfter holes pos)]? with
  | none => exact hpos
  | some h =>
    have := (endsAfter_iff pos hi).1 (search_true (List.getElem?_eq_some_iff.1 hi).1)
    dsimp only
    split
    · assumption
    next hge => exact this.resolve_left hge

theorem HoleMap.endsAfter_mono (hm : HoleMap size holes) (i j : Nat) (hij : i ≤ j)
    (hj : j < holes.length) (hi : endsAfter holes pos i = true) : endsAfter holes pos j = true := by
  rcases Nat.eq_or_lt_of_le hij with rfl | hlt
  · exact hi
  have hgi := List.getElem?_eq_getElem (Nat.lt_trans hlt hj)
  have hgj := List.getElem?_eq_getElem hj
  have hsorted := List.pairwise_iff_getElem.1 hm.sorted i j (Nat.lt_trans hlt hj) hj hlt
  rw [endsAfter_iff pos hgj]
  have := (endsAfter_iff pos hgi).1 hi
  unfold Extent.stop at *
  omega

/-- The extents before the found one end at the position, those after it start behind it. -/
theorem HoleMap.around (hm : HoleMap size holes) (pos : Nat) {e : Extent} (he : e ∈ holes) :
    e.stop ≤ pos ∨ holes[search holes.length (endsAfter holes pos)]? = some e ∨
      ∃ h, holes[search holes.length (endsAfter holes pos)]? = some h ∧ h.stop ≤ e.offset := by
  obtain ⟨k, hk⟩ := List.mem_iff_getElem?.mp he
  have hlen := (List.getElem?_eq_some_iff.1 hk).1
  rcases Nat.lt_trichotomy k (search holes.length (endsAfter holes pos)) with hlt | rfl | hgt
  · have :=
      (endsAfter_iff pos hk).not.1
      (by rw [search_false hm.endsAfter_mono hlt]; exact Bool.false_ne_true)
    omega
  · exact .inr (.inl hk)
  have hfound := Nat.lt_trans hgt hlen
  refine .inr (.inr ⟨_, List.getElem?_eq_getElem hfound, ?_⟩)
  have hsorted := List.pairwise_iff_getElem.1 hm.sorted _ _ hfound hlen hgt
  rwa [(List.getElem?_eq_some_iff.1 hk).2] at hsorted

/-- A run is within the layer and all of it is, or all of it is not, in holes. -/
theorem HoleMap.holeRun_spec (hm : HoleMap size holes) (hpos : pos < size) :
    (holeRun pos holes size).2 ≤ size ∧
      ∀ x, pos ≤ x → x < (holeRun pos holes size).2 → inHole holes x =
        (holeRun pos holes size).1 := by
  have hout : ∀ {x : Nat}, pos ≤ x →
      (∀ h, holes[search holes.length (endsAfter holes pos)]? = some h → x < h.offset) →
      inHole holes x = false := fun {x} hx hnext => by
    refine Bool.eq_false_iff.2 fun hin => ?_
    obtain ⟨e, he, hin⟩ := inHole_iff.1 hin
    rcases hm.around pos he with hbefore | hat | ⟨h, hat, hafter⟩
    · omega
    · have := hnext e hat
      omega
    · have := hnext h hat
      unfold Extent.stop at *
      omega
  rw [holeRun, if_neg (by omega)]
  cases hi : holes[search holes.length (endsAfter holes pos)]? with
  | none =>
    refine ⟨Nat.le_refl _, fun x hx _ => hout hx fun h hh => ?_⟩
    rw [hi] at hh
    cases hh
  | some h =>
    have hmem := List.mem_of_getElem? hi
    have hstop := hm.inside h hmem
    dsimp only
    split
    · refine ⟨by unfold Extent.stop at hstop; omega, fun x hx hlt => hout hx fun h' hh => ?_⟩
      rw [hi] at hh
      cases hh
      exact hlt
    · exact ⟨hstop, fun x hx hlt => inHole_iff.2 ⟨h, hmem, by omega, hlt⟩⟩

/-- The last extent of `out` grows, or a new one is put behind it; the list is kept
newest first. -/
def pushHole (out : List Extent) (pos stop : Nat) : List Extent :=
  match out with
  | last :: rest =>
    if last.stop = pos then ⟨last.offset, last.size + (stop - pos)⟩ :: rest else
      ⟨pos, stop - pos⟩ :: out
  | [] => [⟨pos, stop - pos⟩]

/-- The loop of `holeIntersection`. -/
def holeIntersectionFrom (a b : List Extent) (size pos : Nat) (out : List Extent) : List Extent :=
  if pos < size then
    let aRun := holeRun pos a size
    let bRun := holeRun pos b size
    let stop := min aRun.2 bRun.2
    holeIntersectionFrom a b size stop (if aRun.1 && bRun.1 then pushHole out pos stop else out)
  else out.reverse
termination_by size - pos
decreasing_by
  rename_i hpos
  have ha := holeRun_progress a hpos
  have hb := holeRun_progress b hpos
  omega

def holeIntersection (a b : List Extent) (size : Nat) : List Extent :=
  holeIntersectionFrom a b size 0 []

/-- The loop before it looks at `pos`: `out` is what both have as holes below it. -/
structure Scanned (a b : List Extent) (pos : Nat) (out : List Extent) : Prop where
  apart : out.Pairwise fun later earlier => earlier.stop < later.offset
  nonempty : ∀ h ∈ out, 0 < h.size
  below : ∀ h ∈ out, h.stop ≤ pos
  both : ∀ x < pos, inHole out x = (inHole a x && inHole b x)

section Scan

variable {out : List Extent} {stop : Nat} {last : Extent}

theorem inHole_cons_of_lt {x : Nat} (hx : x < h.offset) : inHole (h :: out) x = inHole out x := by
  rw [inHole, List.any_cons, Extent.contains, decide_eq_false (Nat.not_le.2 hx)]
  rfl

theorem Scanned.nil (a b : List Extent) : Scanned a b 0 [] where
  apart := .nil
  nonempty := nofun
  below := nofun
  both := nofun

/-- The positions up to `stop` are not holes of both. -/
theorem Scanned.skip (h : Scanned a b pos out) (hle : pos ≤ stop)
    (hboth : ∀ x, pos ≤ x → x < stop → (inHole a x && inHole b x) = false) :
    Scanned a b stop out where
  apart := h.apart
  nonempty := h.nonempty
  below := fun e he => Nat.le_trans (h.below e he) hle
  both := fun x hx => by
    by_cases hlt : x < pos
    · exact h.both x hlt
    · rw [hboth x (Nat.le_of_not_lt hlt) hx, inHole_eq_false_of_stop h.below (Nat.le_of_not_lt hlt)]

/-- A new extent behind a gap. -/
theorem Scanned.cons (h : Scanned a b pos out) (hlt : pos < stop) (hgap : ∀ e ∈ out, e.stop < pos)
    (hboth : ∀ x, pos ≤ x → x < stop → (inHole a x && inHole b x) = true) :
    Scanned a b stop (⟨pos, stop - pos⟩ :: out) := by
  have hstop : (⟨pos, stop - pos⟩ : Extent).stop = stop := Nat.add_sub_cancel' (Nat.le_of_lt hlt)
  refine ⟨List.pairwise_cons.2 ⟨hgap, h.apart⟩,
    List.forall_mem_cons.2 ⟨Nat.sub_pos_of_lt hlt, h.nonempty⟩, List.forall_mem_cons.2
      ⟨Nat.le_of_eq hstop, fun e he => by have := h.below e he; omega⟩, fun x hx => ?_⟩
  by_cases hin : pos ≤ x
  · rw [hboth x hin hx]
    exact inHole_iff.2 ⟨_, .head _, hin, by rwa [hstop]⟩
  · rw [inHole_cons_of_lt (Nat.lt_of_not_le hin), h.both x (Nat.lt_of_not_le hin)]

/-- The newest extent is all in holes of both, behind a gap. -/
theorem Scanned.uncons (h : Scanned a b pos (last :: out)) : Scanned a b last.offset out ∧
    (∀ e ∈ out, e.stop < last.offset) ∧ ∀ x, last.offset ≤ x → x < last.stop →
      (inHole a x && inHole b x) = true := by
  obtain ⟨hgap, hout⟩ := List.pairwise_cons.1 h.apart
  have hbelow : last.offset + last.size ≤ pos := h.below last (.head _)
  refine ⟨⟨hout, fun e he => h.nonempty e (.tail _ he), fun e he => Nat.le_of_lt (hgap e he),
    fun x hx => ?_⟩, hgap, fun x hx hlt => ?_⟩
  · rw [← h.both x (by omega), inHole_cons_of_lt hx]
  · rw [← h.both x (Nat.lt_of_lt_of_le hlt hbelow), inHole_iff]
    exact ⟨last, .head _, hx, hlt⟩

/-- The positions up to `stop` are holes of both. -/
theorem Scanned.push (h : Scanned a b pos out) (hlt : pos < stop)
    (hboth : ∀ x, pos ≤ x → x < stop → (inHole a x && inHole b x) = true) :
    Scanned a b stop (pushHole out pos stop) := by
  cases out with
  | nil => exact h.cons hlt nofun hboth
  | cons last rest =>
    obtain ⟨hrest, hgap, hlast⟩ := h.uncons
    have hbelow := h.below last (.head _)
    unfold pushHole
    dsimp only
    split
    next hstop =>
      -- the last extent grows: it is pushed again, with a later end
      have hsize : last.size + (stop - pos) = stop - last.offset := by
        unfold Extent.stop at hstop
        omega
      rw [hsize]
      refine hrest.cons (by omega) hgap fun x hx hxs => ?_
      by_cases hin : pos ≤ x
      · exact hboth x hin hxs
      · exact hlast x hx (by omega)
    next hne =>
      refine h.cons hlt (List.forall_mem_cons.2 ⟨Nat.lt_of_le_of_ne hbelow hne, fun e he => ?_⟩)
        hboth
      have := hgap e he
      unfold Extent.stop at *
      omega

theorem Scanned.finish (h : Scanned a b size out) : Coalesced size out.reverse where
  apart := List.pairwise_reverse.2 h.apart
  nonempty := fun e he => h.nonempty e (List.mem_reverse.1 he)
  inside := fun e he => h.below e (List.mem_reverse.1 he)

theorem holeIntersectionFrom_spec (ha : HoleMap size a) (hb : HoleMap size b) (hle : pos ≤ size)
    (h : Scanned a b pos out) : Coalesced size (holeIntersectionFrom a b size pos out) ∧
      ∀ x < size, inHole (holeIntersectionFrom a b size pos out) x =
        (inHole a x && inHole b x) := by
  fun_induction holeIntersectionFrom a b size pos out with
  | case1 pos out hpos aRun bRun stop ih =>
    obtain ⟨hastop, hain⟩ := ha.holeRun_spec hpos
    obtain ⟨hbstop, hbin⟩ := hb.holeRun_spec hpos
    have hlt : pos < stop := Nat.lt_min.2 ⟨holeRun_progress a hpos, holeRun_progress b hpos⟩
    have hboth : ∀ x, pos ≤ x → x < stop →
        (inHole a x && inHole b x) = (aRun.1 && bRun.1) := fun x hx hlt => by
      rw [hain x hx (Nat.lt_of_lt_of_le hlt (Nat.min_le_left ..)),
        hbin x hx (Nat.lt_of_lt_of_le hlt (Nat.min_le_right ..))]
    refine ih (Nat.le_trans (Nat.min_le_left ..) hastop) ?_
    split
    next htrue => exact h.push hlt fun x hx hxs => (hboth x hx hxs).trans htrue
    next hfalse => exact h.skip (Nat.le_of_lt hlt) fun x hx hxs =>
      (hboth x hx hxs).trans (Bool.eq_false_iff.2 hfalse)
  | case2 pos out hpos =>
    obtain rfl : pos = size := by omega
    refine ⟨h.finish, fun x hx => ?_⟩
    rw [inHole, List.any_reverse]
    exact h.both x hx

end Scan

/-- The joined holes are coalesced, and a position is in them when it is in a hole of both. -/
theorem holeIntersection_spec (ha : HoleMap size a) (hb : HoleMap size b) :
    Coalesced size (holeIntersection a b size) ∧
      ∀ x, inHole (holeIntersection a b size) x = (inHole a x && inHole b x) := by
  obtain ⟨hc, hin⟩ := holeIntersectionFrom_spec ha hb (Nat.zero_le size) (.nil a b)
  refine ⟨hc, fun x => ?_⟩
  by_cases hx : x < size
  · exact hin x hx
  · have hout := Nat.le_of_not_lt hx
    rw [holeIntersection, inHole_eq_false_of_stop hc.inside hout,
      inHole_eq_false_of_stop ha.inside hout, Bool.false_and]

/-! ## The joined reader -/

/-- The errors a layer's reader may return: the two ends of a file, those that
`readretry.IsTerminal` and `readerr.IsPermanent` recognise, and any other. -/
inductive ReadErr where
  | eof
  | unexpectedEOF
  | terminal
  | permanent
  | other
  deriving DecidableEq, Repr

/-- An `io.ReadSeeker`: `Seek(pos, io.SeekStart)`, and `Read` with the length of its buffer. -/
structure ReadSeeker (σ : Type) where
  seek : σ → Nat → Except ReadErr σ
  read : σ → Nat → List UInt8 × Option ReadErr × σ

variable (content : Nat → UInt8)

/-- The bytes of a content at `[pos, pos + n)`. -/
def window (pos n : Nat) : List UInt8 := (List.range' pos n).map content

variable {σ τ : Type} (r : ReadSeeker σ)

/-- A reader of a content: where it stands, and that what it delivers are the bytes from
there on, any number of them up to the length of the buffer. -/
structure Serves (place : σ → Nat) (content : Nat → UInt8) : Prop where
  seek : ∀ s pos s', r.seek s pos = .ok s' → place s' = pos
  bytes : ∀ s n, (r.read s n).1 = window content (place s) (r.read s n).1.length
  short : ∀ s n, (r.read s n).1.length ≤ n
  moves : ∀ s n, place (r.read s n).2.2 = place s + (r.read s n).1.length
  progress : ∀ s n, 0 < n → (r.read s n).2.1 = none → 0 < (r.read s n).1.length

/-- A reader that has all bytes below `size`: below it, the end of the file comes only with
the last bytes asked for, and there is no other error. -/
structure Whole (place : σ → Nat) (size : Nat) : Prop where
  seek : ∀ s pos, ∃ s', r.seek s pos = .ok s'
  read : ∀ s n err, place s + n ≤ size → 0 < n → (r.read s n).2.1 = some err →
    err = .eof ∧ (r.read s n).1.length = n

/-- `mergedReadSeeker`, with the states of its two readers. -/
structure MergedReadSeeker (σ τ : Type) where
  top : σ
  base : τ
  topHoles : List Extent
  baseHoles : List Extent
  size : Nat
  pos : Nat

inductive LayerKind where
  | fromTop
  | fromBase
  | fromHole
  deriving DecidableEq, Repr

def MergedReadSeeker.ownerAt (m : MergedReadSeeker σ τ) (pos : Nat) : LayerKind × Nat :=
  let (topHole, topEnd) := holeRun pos m.topHoles m.size
  if !topHole then (.fromTop, topEnd)
  else
    let (baseHole, baseEnd) := holeRun pos m.baseHoles m.size
    let stop := min topEnd baseEnd
    if !baseHole then (.fromBase, stop) else (.fromHole, stop)

/-- The loop of `readFrom`. `none`: the loop has not ended after `fuel` reads. -/
def readLoop (want : Nat) : (fuel : Nat) → σ → List UInt8 → Option (List UInt8 × Option ReadErr × σ)
  | fuel, s, got =>
    if got.length < want then
      match fuel with
      | 0 => none
      | fuel + 1 =>
        let out := r.read s (want - got.length)
        let got := got ++ out.1
        match out.2.1 with
        | some .terminal => some (got, some .terminal, out.2.2)
        | some .permanent => some (got, some .permanent, out.2.2)
        | some .unexpectedEOF => some (got, none, out.2.2)
        | some .eof =>
          if 0 < got.length then some (got, none, out.2.2) else some (got, some .eof, out.2.2)
        | some .other => some (got, some .other, out.2.2)
        | none => readLoop want fuel out.2.2 got
    else some (got, none, s)

/-- `readFrom`, for the reader of one layer. -/
def readFrom (fuel : Nat) (s : σ) (pos want : Nat) : Option (List UInt8 × Option ReadErr × σ) :=
  match r.seek s pos with
  | .error e => some ([], some e, s)
  | .ok s => readLoop r want fuel s []

/-- `mergedReadSeeker.Read` with a buffer of `n` bytes; the loop of `readFrom` gets
`fuel`. -/
def MergedReadSeeker.read (rt : ReadSeeker σ) (rb : ReadSeeker τ) (fuel : Nat)
    (m : MergedReadSeeker σ τ) (n : Nat) :
    Option (List UInt8 × Option ReadErr × MergedReadSeeker σ τ) :=
  if m.size ≤ m.pos then some ([], some .eof, m)
  else
    let (owner, stop) := m.ownerAt m.pos
    let n := min n (stop - m.pos)
    if n = 0 then some ([], some .eof, m)
    else match owner with
      | .fromTop => (readFrom rt fuel m.top m.pos n).map fun (got, err, s) =>
          (got, err, { m with top := s, pos := m.pos + got.length })
      | .fromBase => (readFrom rb fuel m.base m.pos n).map fun (got, err, s) =>
          (got, err, { m with base := s, pos := m.pos + got.length })
      | .fromHole => some (List.replicate n 0, none, { m with pos := m.pos + n })

inductive Whence where
  | start
  | current
  | fromEnd
  | other (whence : Int)
  deriving DecidableEq, Repr

/-- `mergedReadSeeker.Seek`, in 64-bit arithmetic. -/
def MergedReadSeeker.seek (m : MergedReadSeeker σ τ) (off : Int) (whence : Whence) :
    Except String (MergedReadSeeker σ τ) :=
  let moved (abs : Int) : Except String (MergedReadSeeker σ τ) :=
    if abs < 0 then .error s!"merge: negative position {abs}" else .ok { m with pos := abs.toNat }
  match whence with
  | .start => moved off
  | .current => moved (Int.bmod (m.pos + off) (2 ^ 64))
  | .fromEnd => moved (Int.bmod (m.size + off) (2 ^ 64))
  | .other w => .error s!"merge: invalid whence {w}"

def mergeSparse (top : σ) (topHoles : List Extent) (base : τ) (baseHoles : List Extent)
    (size : Nat) :
    MergedReadSeeker σ τ × List Extent :=
  (⟨top, base, topHoles, baseHoles, size, 0⟩, holeIntersection topHoles baseHoles size)

/-! ## Whose bytes are delivered -/

/-- Which layer a position belongs to. -/
def ownerOf (topHoles baseHoles : List Extent) (x : Nat) : LayerKind :=
  if inHole topHoles x then if inHole baseHoles x then .fromHole else .fromBase else .fromTop

/-- The bytes of the joined layer; its holes read as zero. -/
def mergedByte (topHoles baseHoles : List Extent) (top base : Nat → UInt8) (x : Nat) : UInt8 :=
  match ownerOf topHoles baseHoles x with
  | .fromTop => top x
  | .fromBase => base x
  | .fromHole => 0

theorem MergedReadSeeker.ownerAt_spec {m : MergedReadSeeker σ τ} (ht : HoleMap m.size m.topHoles)
    (hb : HoleMap m.size m.baseHoles) (hpos : pos < m.size) :
    pos < (m.ownerAt pos).2 ∧ (m.ownerAt pos).2 ≤ m.size ∧
      ∀ x, pos ≤ x → x < (m.ownerAt pos).2 → ownerOf m.topHoles m.baseHoles x =
        (m.ownerAt pos).1 := by
  have htpos := holeRun_progress m.topHoles hpos
  have hbpos := holeRun_progress m.baseHoles hpos
  obtain ⟨htstop, htin⟩ := ht.holeRun_spec hpos
  obtain ⟨hbstop, hbin⟩ := hb.holeRun_spec hpos
  unfold ownerAt
  cases htrun : holeRun pos m.topHoles m.size with
  | mk topHole topEnd =>
    cases hbrun : holeRun pos m.baseHoles m.size with
    | mk baseHole baseEnd =>
      rw [htrun] at htpos htstop htin
      rw [hbrun] at hbpos hbstop hbin
      cases topHole with
      | false =>
        refine ⟨htpos, htstop, fun x hx hlt => ?_⟩
        rw [ownerOf, htin x hx hlt]
        rfl
      | true =>
        have hin : ∀ x, pos ≤ x → x < min topEnd baseEnd → ownerOf m.topHoles m.baseHoles x =
            if baseHole then .fromHole else .fromBase := fun x hx hlt => by
          rw [ownerOf, htin x hx (by omega), hbin x hx (by omega)]
          rfl
        have hstop : pos < min topEnd baseEnd ∧ min topEnd baseEnd ≤ m.size := by omega
        cases baseHole with
        | false | true => exact ⟨hstop.1, hstop.2, hin⟩

theorem length_window (pos n : Nat) : (window content pos n).length = n := by
  rw [window, List.length_map, List.length_range']

theorem window_add (pos n k : Nat) :
    window content pos (n + k) = window content pos n ++ window content (pos + n) k := by
  rw [window, window, window, ← List.map_append, List.range'_append_1]

theorem window_congr {c d : Nat → UInt8} {n : Nat} (h : ∀ x, pos ≤ x → x < pos + n → c x = d x) :
    window c pos n = window d pos n :=
  List.map_congr_left fun x hx => by
    rw [List.mem_range'_1] at hx
    exact h x hx.1 hx.2

section Read

variable {r : ReadSeeker σ} {place : σ → Nat} {content : Nat → UInt8} {want fuel : Nat} {s : σ}

/-- The loop ends; it has read a front of what was asked for, and all of it when the layer
has it. -/
theorem Serves.readLoop_spec (hr : Serves r place content) {start : Nat} (got : List UInt8)
    (hfuel : want - got.length ≤ fuel)
    (hgot : got = window content start got.length) (hplace : place s = start + got.length)
    (hle : got.length ≤ want) :
    ∃ got' err s', readLoop r want fuel s got = some (got', err, s') ∧
      got' = window content start got'.length ∧
      got'.length ≤ want ∧
        (Whole r place size → start + want ≤ size → err = none ∧ got'.length = want) := by
  induction fuel generalizing s got with
  | zero =>
    rw [readLoop, if_neg (by omega)]
    exact ⟨got, none, s, rfl, hgot, hle, fun _ _ => ⟨rfl, by omega⟩⟩
  | succ fuel ih =>
    rw [readLoop]
    split
    next hlt =>
      have hshort := hr.short s (want - got.length)
      have hbytes := hr.bytes s (want - got.length)
      have hmoves := hr.moves s (want - got.length)
      have hprogress := hr.progress s (want - got.length) (by omega)
      have hwhole : ∀ err, (r.read s (want - got.length)).2.1 = some err → Whole r place size →
          start + want ≤ size →
          err = .eof ∧ (r.read s (want - got.length)).1.length = want - got.length :=
            fun err herr hw hsize =>
        hw.read s _ err (by omega) (by omega) herr
      dsimp only
      generalize r.read s (want - got.length) = out at hshort hbytes hmoves hprogress hwhole
      have hlen : (got ++ out.1).length = got.length + out.1.length := List.length_append
      have hnext : got ++ out.1 = window content start (got ++ out.1).length := by
        rw [hlen, window_add, ← hgot, ← hplace, ← hbytes]
      have hfront : (got ++ out.1).length ≤ want := by omega
      cases herr : out.2.1 with
      | none =>
        have := hprogress herr
        exact ih _ (by omega) hnext (by omega) hfront
      | some err =>
        cases err with
        -- an error other than the end of the file does not come from a layer that has the bytes
        | terminal | permanent | unexpectedEOF | other =>
          exact ⟨_, _, _, rfl, hnext, hfront, fun hw hs => absurd (hwhole _ herr hw hs).1 nofun⟩
        | eof =>
          dsimp only
          split
          · exact ⟨_, _, _, rfl, hnext, hfront,
              fun hw hs => ⟨rfl, by have := (hwhole _ herr hw hs).2; omega⟩⟩
          · refine ⟨_, _, _, rfl, hnext, hfront, fun hw hs => ?_⟩
            have := (hwhole _ herr hw hs).2
            omega
    · exact ⟨got, none, s, rfl, hgot, hle, fun _ _ => ⟨rfl, by omega⟩⟩

theorem Serves.readFrom_spec (hr : Serves r place content) (s : σ) (pos size : Nat)
    (hfuel : want ≤ fuel) :
    ∃ got err s', readFrom r fuel s pos want = some (got, err, s') ∧
      got = window content pos got.length ∧
      got.length ≤ want ∧
        (Whole r place size → pos + want ≤ size → err = none ∧ got.length = want) := by
  rw [readFrom]
  cases hseek : r.seek s pos with
  | error e =>
    refine ⟨[], some e, s, rfl, rfl, Nat.zero_le _, fun hw _ => ?_⟩
    obtain ⟨s', hs'⟩ := hw.seek s pos
    rw [hseek] at hs'
    cases hs'
  | ok s' => exact hr.readLoop_spec [] hfuel rfl (hr.seek s pos s' hseek) (Nat.zero_le _)

end Read

section Merged

variable {rt : ReadSeeker σ} {rb : ReadSeeker τ} {atTop : σ → Nat} {atBase : τ → Nat}
  {top base : Nat → UInt8}
  {m : MergedReadSeeker σ τ}

/-- What a read of a joined layer does: it delivers bytes of the content at the position and
moves by as many, in any state of the two readers. -/
structure Delivers (content : Nat → UInt8) (m : MergedReadSeeker σ τ) (n : Nat) (got : List UInt8)
    (m' : MergedReadSeeker σ τ) : Prop where
  bytes : got = window content m.pos got.length
  short : got.length ≤ n
  same : m'.topHoles = m.topHoles ∧ m'.baseHoles = m.baseHoles ∧ m'.size = m.size
  pos : m'.pos = m.pos + got.length
  inside : m'.pos ≤ max m.pos m.size

theorem MergedReadSeeker.read_spec (hrt : Serves rt atTop top) (hrb : Serves rb atBase base)
    (ht : HoleMap m.size m.topHoles) (hb : HoleMap m.size m.baseHoles) {n fuel : Nat}
    (hfuel : n ≤ fuel) :
    ∃ got err m', m.read rt rb fuel n = some (got, err, m') ∧
      Delivers (mergedByte m.topHoles m.baseHoles top base) m n got m' ∧
      (Whole rt atTop m.size → Whole rb atBase m.size → m.pos < m.size → 0 < n → err = none ∧
        0 < got.length) := by
  rw [read]
  have hnothing : Delivers (mergedByte m.topHoles m.baseHoles top base) m n [] m :=
    ⟨rfl, Nat.zero_le _, ⟨rfl, rfl, rfl⟩, rfl, Nat.le_max_left ..⟩
  split
  · exact ⟨[], _, m, rfl, hnothing, by omega⟩
  rename_i hpos
  obtain ⟨hlt, hstop, hown⟩ := MergedReadSeeker.ownerAt_spec ht hb (Nat.lt_of_not_le hpos)
  cases howner : m.ownerAt m.pos with
  | mk owner stop =>
    rw [howner] at hlt hstop hown
    dsimp only at hlt hstop hown ⊢
    split
    · exact ⟨[], _, m, rfl, hnothing, by omega⟩
    rename_i hzero
    -- within the run all bytes are those of its owner
    have hdelivers : ∀ {c : Nat → UInt8} {got : List UInt8} {m' : MergedReadSeeker σ τ}, got =
        window c m.pos got.length →
        got.length ≤ min n (stop - m.pos) →
        (∀ x, ownerOf m.topHoles m.baseHoles x = owner →
          c x = mergedByte m.topHoles m.baseHoles top base x) →
        m'.topHoles = m.topHoles ∧ m'.baseHoles = m.baseHoles ∧ m'.size = m.size →
          m'.pos = m.pos + got.length →
        Delivers (mergedByte m.topHoles m.baseHoles top base) m n got m' :=
          fun hgot hle hc hsame hmoved =>
      ⟨hgot.trans (window_congr fun x hx hxk => hc x (hown x hx (by omega))), by omega, hsame,
        hmoved, by omega⟩
    have hfuel : min n (stop - m.pos) ≤ fuel := by omega
    cases owner with
    | fromTop =>
      obtain ⟨got, err, s', hread, hgot, hle, hwhole⟩ := hrt.readFrom_spec m.top m.pos m.size hfuel
      rw [hread]
      refine ⟨got, err, _, rfl,
        hdelivers hgot hle (fun x hx => by rw [mergedByte, hx]) ⟨rfl, rfl, rfl⟩ rfl, fun hw _ _ _ =>
        ?_⟩
      obtain ⟨herr, hlen⟩ := hwhole hw (by omega)
      exact ⟨herr, by omega⟩
    | fromBase =>
      obtain ⟨got, err, s', hread, hgot, hle, hwhole⟩ := hrb.readFrom_spec m.base m.pos m.size hfuel
      rw [hread]
      refine ⟨got, err, _, rfl,
        hdelivers hgot hle (fun x hx => by rw [mergedByte, hx]) ⟨rfl, rfl, rfl⟩ rfl, fun _ hw _ _ =>
        ?_⟩
      obtain ⟨herr, hlen⟩ := hwhole hw (by omega)
      exact ⟨herr, by omega⟩
    | fromHole =>
      have hlen :
          (List.replicate (min n (stop - m.pos)) (0 : UInt8)).length = min n (stop - m.pos) :=
        List.length_replicate
      refine ⟨_, none, _, rfl,
        hdelivers (c := fun _ => 0) ?_ (Nat.le_of_eq hlen) (fun x hx => by rw [mergedByte, hx])
        ⟨rfl, rfl, rfl⟩ (by rw [hlen]), fun _ _ _ _ => ⟨rfl, by omega⟩⟩
      rw [hlen, window, List.map_const', List.length_range']

/-! ## Runs of reads and seeks -/

/-- What a user of the joined reader calls. -/
inductive Op where
  | read (n : Nat)
  | seek (off : Int) (whence : Whence)
  deriving DecidableEq, Repr

/-- A run of calls: where each read started and what it delivered. A seek that fails moves
nothing. -/
def MergedReadSeeker.run (rt : ReadSeeker σ) (rb : ReadSeeker τ) (fuel : Nat) :
    MergedReadSeeker σ τ → List Op → Option (List (Nat × List UInt8) × MergedReadSeeker σ τ)
  | m, [] => some ([], m)
  | m, .read n :: ops =>
    match m.read rt rb fuel n with
    | none => none
    | some (got, _, m') =>
    (run rt rb fuel m' ops).map fun (log, last) => ((m.pos, got) :: log, last)
  | m, .seek off whence :: ops =>
    match m.seek off whence with
    | .error _ => run rt rb fuel m ops
    | .ok m' => run rt rb fuel m' ops

/-- Where a seek goes from `pos`. One to a negative place, or to one that is no `int64`, fails. -/
def seekPlace (size pos : Nat) (off : Int) (whence : Whence) : Nat :=
  let moved (abs : Int) : Nat := if 0 ≤ abs ∧ abs < 2 ^ 63 then abs.toNat else pos
  match whence with
  | .start => moved off
  | .current => moved (pos + off)
  | .fromEnd => moved (size + off)
  | .other _ => pos

/-- Every read of the run started where the calls before it left the position. -/
def Placed (size : Nat) : Nat → List Op → List (Nat × List UInt8) → Prop
  | _, [], log => log = []
  | pos, .read _ :: ops, log =>
    ∃ got rest, log = (pos, got) :: rest ∧ Placed size (pos + got.length) ops rest
  | pos, .seek off whence :: ops, log => Placed size (seekPlace size pos off whence) ops log

/-- The offset of a seek is an `int64`. -/
def Op.Int64 : Op → Prop
  | .read _ => True
  | .seek off _ => -2 ^ 63 ≤ off ∧ off < 2 ^ 63

/-- The sum of a position and an offset in 64-bit arithmetic. -/
theorem bmod_sum {a : Nat} {off : Int} (ha : a < 2 ^ 63) (hoff : -2 ^ 63 ≤ off ∧ off < 2 ^ 63) :
    Int.bmod (a + off) (2 ^ 64) = if a + off < 2 ^ 63 then a + off else a + off - 2 ^ 64 := by
  have h64 : (2 : Nat) ^ 64 = 18446744073709551616 := rfl
  rw [h64, Int.bmod_def]
  split <;> split <;> omega

/-- A seek goes to its place, or stays where it was. -/
theorem MergedReadSeeker.seek_place {off : Int} (whence : Whence)
    (hoff : -2 ^ 63 ≤ off ∧ off < 2 ^ 63) (hpos : m.pos < 2 ^ 63) (hsize : m.size < 2 ^ 63) :
    match m.seek off whence with
    | .error _ => seekPlace m.size m.pos off whence = m.pos
    | .ok m' => m'.pos = seekPlace m.size m.pos off whence ∧ m'.pos < 2 ^ 63 := by
  have hmoved : ∀ {abs sum : Int}, sum = abs ∧ abs < 2 ^ 63 ∨ sum < 0 ∧ 2 ^ 63 ≤ abs →
      match (if sum < 0 then .error s!"merge: negative position {sum}" else
        .ok { m with pos := sum.toNat } : Except String (MergedReadSeeker σ τ)) with
      | .error _ => (if 0 ≤ abs ∧ abs < 2 ^ 63 then abs.toNat else m.pos) = m.pos
      | .ok m' => m'.pos = (if 0 ≤ abs ∧ abs < 2 ^ 63 then abs.toNat else m.pos) ∧
          m'.pos < 2 ^ 63 := by
    intro abs sum hsum
    by_cases hneg : sum < 0
    · rw [if_pos hneg]
      exact if_neg (by omega)
    · rw [if_neg hneg]
      dsimp only
      rw [if_pos (by omega)]
      omega
  have hsum {a : Nat} (ha : a < 2 ^ 63) : Int.bmod (a + off) (2 ^ 64) = a + off ∧ a + off < 2 ^ 63 ∨
      Int.bmod (a + off) (2 ^ 64) < 0 ∧ 2 ^ 63 ≤ a + off := by
    rw [bmod_sum ha hoff]
    split <;> omega
  cases whence with
  | start => exact hmoved (.inl ⟨rfl, hoff.2⟩)
  | current => exact hmoved (hsum hpos)
  | fromEnd => exact hmoved (hsum hsize)
  | other w => rfl

theorem MergedReadSeeker.seek_same {m' : MergedReadSeeker σ τ} {off : Int} {whence : Whence}
    (h : m.seek off whence = .ok m') : m' = { m with pos := m'.pos } := by
  have hmoved : ∀ {abs : Int}, (if abs < 0 then .error s!"merge: negative position {abs}" else
      .ok { m with pos := abs.toNat } : Except String (MergedReadSeeker σ τ)) = .ok m' →
      m' = { m with pos := m'.pos } := fun {abs} h => by
    split at h
    · cases h
    · cases h
      rfl
  cases whence with
  | start | current | fromEnd => exact hmoved h
  | other w => cases h

section Run

variable {topHoles baseHoles : List Extent} {fuel : Nat}

theorem MergedReadSeeker.run_read {m' last : MergedReadSeeker σ τ} {n : Nat} {ops : List Op}
    {got : List UInt8}
    {err : Option ReadErr} {log : List (Nat × List UInt8)}
    (hread : m.read rt rb fuel n = some (got, err, m'))
    (hrun : m'.run rt rb fuel ops = some (log, last)) :
    m.run rt rb fuel (.read n :: ops) = some ((m.pos, got) :: log, last) := by
  rw [run, hread]
  dsimp only
  rw [hrun]
  rfl

variable (hrt : Serves rt atTop top) (hrb : Serves rb atBase base) (ht : HoleMap size topHoles)
  (hb : HoleMap size baseHoles) (hm : m.topHoles = topHoles ∧ m.baseHoles = baseHoles ∧
  m.size = size)

include hrt hrb ht hb hm

/-- Every run comes to its end, and every read in it delivered the bytes of the joined layer
at the place it started, which is where the calls before it left the position. -/
theorem MergedReadSeeker.run_spec (ops : List Op) (hfuel : ∀ n, Op.read n ∈ ops → n ≤ fuel) :
    ∃ log last, m.run rt rb fuel ops = some (log, last) ∧
      (∀ entry ∈ log,
        entry.2 = window (mergedByte topHoles baseHoles top base) entry.1 entry.2.length) ∧
      (size < 2 ^ 63 → m.pos < 2 ^ 63 → (∀ op ∈ ops, op.Int64) → Placed size m.pos ops log) := by
  induction ops generalizing m with
  | nil => exact ⟨[], m, rfl, nofun, fun _ _ _ => rfl⟩
  | cons op ops ih =>
    have hfuel' : ∀ n, .read n ∈ ops → n ≤ fuel := fun n hn => hfuel n (.tail _ hn)
    cases op with
    | read n =>
      obtain ⟨rfl, rfl, rfl⟩ := hm
      obtain ⟨got, err, m', hread, hd, -⟩ := read_spec hrt hrb ht hb (hfuel n (.head _))
      obtain ⟨log, last, hrun, hlog, hplaced⟩ := ih hd.same hfuel'
      refine ⟨_, last, run_read hread hrun, List.forall_mem_cons.2 ⟨hd.bytes, hlog⟩, ?_⟩
      intro hsize hpos hops
      have hinside := hd.inside
      have hplaced := hplaced hsize (by omega) fun op hop => hops op (.tail _ hop)
      exact ⟨got, log, rfl, hd.pos ▸ hplaced⟩
    | seek off whence =>
      rw [run]
      have hgoes (hsize : size < 2 ^ 63) (hpos : m.pos < 2 ^ 63)
          (hops : ∀ op ∈ Op.seek off whence :: ops, op.Int64) :=
        m.seek_place whence (hops _ (.head _)) hpos (hm.2.2 ▸ hsize)
      rw [hm.2.2] at hgoes
      cases hseek : m.seek off whence with
      | error e =>
        rw [hseek] at hgoes
        obtain ⟨log, last, hrun, hlog, hplaced⟩ := ih hm hfuel'
        refine ⟨log, last, hrun, hlog, fun hsize hpos hops => ?_⟩
        have hplaced := hplaced hsize hpos fun op hop => hops op (.tail _ hop)
        rwa [Placed, hgoes hsize hpos hops]
      | ok m' =>
        rw [hseek] at hgoes
        have hsame := MergedReadSeeker.seek_same hseek
        obtain ⟨log, last, hrun, hlog, hplaced⟩ := ih (m := m') (by rw [hsame]; exact hm) hfuel'
        refine ⟨log, last, hrun, hlog, fun hsize hpos hops => ?_⟩
        obtain ⟨hplace, hlt⟩ := hgoes hsize hpos hops
        have hplaced := hplaced hsize hlt fun op hop => hops op (.tail _ hop)
        rwa [Placed, ← hplace]

/-- Reading on with buffers of any sizes, as many as bytes are left, delivers all that is left. -/
theorem MergedReadSeeker.run_reads (hwt : Whole rt atTop size) (hwb : Whole rb atBase size)
    (sizes : List Nat) (hsizes : ∀ n ∈ sizes, 0 < n ∧ n ≤ fuel) (hle : m.pos ≤ size)
    (henough : size - m.pos ≤ sizes.length) :
    ∃ log last, m.run rt rb fuel (sizes.map .read) = some (log, last) ∧
      (log.map (·.2)).flatten = window (mergedByte topHoles baseHoles top base) m.pos
      (size - m.pos) := by
  induction sizes generalizing m with
  | nil =>
    refine ⟨[], m, rfl, ?_⟩
    rw [Nat.le_zero.1 henough]
    rfl
  | cons n sizes ih =>
    obtain ⟨rfl, rfl, rfl⟩ := hm
    obtain ⟨⟨hpos, hfuel⟩, hsizes⟩ := List.forall_mem_cons.1 hsizes
    obtain ⟨got, err, m', hread, hd, hfull⟩ := read_spec hrt hrb ht hb hfuel
    have hmove := hd.pos
    have hinside : m'.pos ≤ m.size := (Nat.max_eq_right hle) ▸ hd.inside
    have hless : m.pos < m.size → 0 < got.length := fun hlt => (hfull hwt hwb hlt hpos).2
    rw [List.length_cons] at henough
    obtain ⟨log, last, hrun, hlog⟩ := ih hd.same hsizes hinside (by omega)
    refine ⟨_, last, run_read hread hrun, ?_⟩
    have hsplit : m.size - m.pos = got.length + (m.size - m'.pos) := by omega
    rw [List.map_cons, List.flatten_cons, hlog, hsplit, window_add, ← hmove, ← hd.bytes]

end Run

/-! ## Restore -/

/-- A layer of a checkpoint: its bytes outside its holes. -/
def sparseLayer (holes : List Extent) (content : Nat → UInt8) : Layer Nat UInt8 :=
  fun x => if inHole holes x then none else some (content x)

end Merged

/-- Flattening keeps what is restored. The holes of the joined layer are those of both,
coalesced; its bytes over anything below are those of the two layers over it; any calls of
its reader end and deliver those bytes, each from where the reads and seeks before it left the
position; and reading on from any place, with buffers of any sizes, delivers all of them to the
end. -/
theorem mergeSparse_preserves_restore (rt : ReadSeeker σ) (rb : ReadSeeker τ) (atTop : σ → Nat)
    (atBase : τ → Nat)
    (top base : Nat → UInt8) (hrt : Serves rt atTop top) (hrb : Serves rb atBase base)
    (s : σ) (t : τ) (topHoles baseHoles : List Extent) (size : Nat) (ht : HoleMap size topHoles)
    (hb : HoleMap size baseHoles) : let merged := mergeSparse s topHoles t baseHoles size
    let content := mergedByte topHoles baseHoles top base
    (Coalesced size merged.2 ∧ ∀ x, inHole merged.2 x = (inHole topHoles x && inHole baseHoles x)) ∧
      (∀ below : Layer Nat UInt8, (sparseLayer merged.2 content).over below =
        (sparseLayer topHoles top).over ((sparseLayer baseHoles base).over below)) ∧
      (∀ ops fuel, (∀ n, .read n ∈ ops → n ≤ fuel) → ∃ log last,
        merged.1.run rt rb fuel ops = some (log, last) ∧
        (∀ entry ∈ log, entry.2 = window content entry.1 entry.2.length) ∧
        (size < 2 ^ 63 → (∀ op ∈ ops, op.Int64) → Placed size 0 ops log)) ∧
      (Whole rt atTop size → Whole rb atBase size → ∀ pos ≤ size, ∀ s t (sizes : List Nat) fuel,
        (∀ n ∈ sizes, 0 < n ∧ n ≤ fuel) →
        size - pos ≤ sizes.length → ∃ log last,
          ({ merged.1 with top := s, base := t, pos := pos } : MergedReadSeeker σ τ).run rt rb fuel
            (sizes.map .read) = some (log, last) ∧
          (log.map (·.2)).flatten = window content pos (size - pos)) := by
  intro merged content
  obtain ⟨hcoalesced, hholes⟩ := holeIntersection_spec ht hb
  refine ⟨⟨hcoalesced, hholes⟩, fun below => ?_, fun ops fuel hfuel => ?_,
    fun hwt hwb pos hpos s t sizes fuel hs hlen => ?_⟩
  · have hlayer : sparseLayer merged.2 content =
        (sparseLayer topHoles top).over (sparseLayer baseHoles base) := by
      funext x
      unfold merged content mergeSparse sparseLayer Layer.over mergedByte ownerOf
      dsimp only
      rw [hholes x]
      cases inHole topHoles x <;> cases inHole baseHoles x <;> rfl
    rw [hlayer, over_assoc]
  · obtain ⟨log, last, hrun, hlog, hplaced⟩ :=
      MergedReadSeeker.run_spec (m := merged.1) hrt hrb ht hb ⟨rfl, rfl, rfl⟩ ops hfuel
    exact ⟨log, last, hrun, hlog, fun hsize hops => hplaced hsize (Nat.two_pow_pos 63) hops⟩
  · exact MergedReadSeeker.run_reads hrt hrb ht hb ⟨rfl, rfl, rfl⟩ hwt hwb sizes hs hpos hlen

/-- A reader that delivers one byte at a time. -/
def byteReader : ReadSeeker Nat where
  seek := fun _ pos => .ok pos
  read := fun s n => (window content s (min n 1), none, s + min n 1)

theorem byteReader_serves : Serves (byteReader content) id content where
  seek := fun _ _ _ h => (Except.ok.inj h).symm
  bytes := fun s n => by rw [byteReader, length_window]; rfl
  short := fun s n => Nat.le_trans (Nat.le_of_eq (length_window ..)) (Nat.min_le_left ..)
  moves := fun s n => by rw [byteReader, length_window]; rfl
  progress := fun s n hn _ => Nat.lt_of_lt_of_le (Nat.lt_min.2 ⟨hn, Nat.one_pos⟩)
    (Nat.le_of_eq (length_window ..).symm)

/-- Two extents that touch and an empty one over one extent. -/
theorem mergeSparse_preserves_restore_adjacent :
    HoleMap 8 [⟨0, 2⟩, ⟨2, 2⟩, ⟨5, 0⟩] ∧ HoleMap 8 [⟨1, 4⟩] ∧
      (∀ x, inHole (mergeSparse 0 [⟨0, 2⟩, ⟨2, 2⟩, ⟨5, 0⟩] 0 [⟨1, 4⟩] 8).2 x =
        (inHole [⟨0, 2⟩, ⟨2, 2⟩, ⟨5, 0⟩] x && inHole [⟨1, 4⟩] x)) ∧
      (mergeSparse 0 [⟨0, 2⟩, ⟨2, 2⟩, ⟨5, 0⟩] 0 [⟨1, 4⟩] 8).2 = [⟨1, 3⟩] :=
  have ht : HoleMap 8 [⟨0, 2⟩, ⟨2, 2⟩, ⟨5, 0⟩] := ⟨by decide, by decide⟩
  have hb : HoleMap 8 [⟨1, 4⟩] := ⟨by decide, by decide⟩
  ⟨ht, hb, (mergeSparse_preserves_restore (byteReader fun _ => 1) (byteReader fun _ => 2) id id
    (fun _ => 1) (fun _ => 2)
    (byteReader_serves _) (byteReader_serves _) 0 0 _ _ 8 ht hb).1.2, by decide +kernel⟩

end Sandboxer.Snapshot
