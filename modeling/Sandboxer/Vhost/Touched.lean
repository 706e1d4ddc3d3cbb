import Sandboxer.Vhost.Framing
import Sandboxer.Vhost.Scatter

/-! # Which bytes of the disk a request touches

`blk_cow.go` checks a range against the size of the disk and goes through it in
pieces; what lies below may fail at any of them. With the checks of `processChain`
a request stays within the sectors it names, except that an OUT multiplies its
sector without one. -/
namespace Sandboxer.Vhost

open Lib.Slices

/-! ## The disk -/

def maxDiffScratchSize : Nat := 1048576
def maxDiscardPages : Nat := 64
def maxInt64 : Nat := 9223372036854775807

structure DiskState where
  /-- how often something below the disk was asked -/
  asked : Nat
  /-- start and length of what was read, written or discarded -/
  touched : List (Nat × Nat)

def DiskState.touch (d : DiskState) (start length : Nat) : DiskState :=
  { d with touched := (start, length) :: d.touched }

/-- `Disk`; its size is a whole number of blocks. -/
structure Disk where
  size : Nat
  whole : cowBlockSize ∣ size
  size_le : size ≤ maxInt64
  /-- a store with versions discards page by page -/
  versions : Bool
  content : Nat → UInt8
  /-- the answers from below: nothing, or an error with the bytes before it -/
  answer : Nat → Option (Nat × GoError)

variable (c : Disk)

namespace Disk

def ask (d : DiskState) : Option (Nat × GoError) × DiskState :=
  (c.answer d.asked, { d with asked := d.asked + 1 })

/-- The loops of `readRange`, `WriteAtContext` and `Discard`: the range goes down in pieces, up to
the first that fails. -/
def pieces (c : Disk) (piece : Nat → Nat) (offset length : Nat) :
    (fuel done : Nat) → DiskState → (Nat × Option GoError) × DiskState
  | 0, done, d => ((done, none), d)
  | fuel + 1, done, d =>
    if done < length then
      let n := min (length - done) (piece (offset + done))
      match c.ask (d.touch (offset + done) n) with
      | (some (k, e), d) => ((done + min k n, some e), d)
      | (none, d) => c.pieces piece offset length fuel (done + n) d
    else ((done, none), d)

/-- `Disk.ReadAtContext`. -/
def readAt (d : DiskState) (offset : Int) (buf : List UInt8) : ReadResult DiskState :=
  match c.ask d with
  | (some (_, e), d) => ⟨buf, 0, some e, d⟩
  | (none, d) =>
    if buf.length = 0 then ⟨buf, 0, if offset < 0 ∨ offset > c.size then some .eof else none, d⟩
    else if offset < 0 ∨ offset ≥ c.size then ⟨buf, 0, some .eof, d⟩
    else
      let length := min buf.length (c.size - offset.toNat)
      let r := c.pieces (fun pos => maxDiffScratchSize - pos % cowBlockSize) offset.toNat length
        length 0 d
      ⟨(List.range r.1.1).map (fun k => c.content (offset.toNat + k)) ++ buf.drop r.1.1, r.1.1,
        r.1.2, r.2⟩

/-- `Disk.WriteAtContext`. -/
def writeAt (d : DiskState) (offset : Int) (buf : List UInt8) : WriteResult DiskState :=
  match c.ask d with
  | (some (_, e), d) => ⟨0, some e, d⟩
  | (none, d) =>
    if offset < 0 ∨ offset > c.size ∨ (buf.length : Int) > c.size - offset then
      ⟨0, some (.text
        s!"diffstore: write out of bounds: offset={offset} len={buf.length} size={c.size}"), d⟩
    else if buf.length = 0 then ⟨0, none, d⟩
    else match c.ask d with
      | (some (_, e), d) => ⟨0, some e, d⟩
      | (none, d) =>
        let r := c.pieces (fun pos => cowBlockSize - pos % cowBlockSize) offset.toNat buf.length
          buf.length 0 d
        ⟨r.1.1, r.1.2, r.2⟩

/-- The blocks that a range covers whole. -/
def discardBlocks (d : DiskState) (startBlk endBlk : Nat) : Option GoError × DiskState :=
  if startBlk ≥ endBlk then (none, d)
  else match c.ask d with
    | (some (_, e), d) => (some e, d)
    | (none, d) => match c.ask d with
      | (some (_, e), d) => (some e, d)
      | (none, d) =>
        let length := (endBlk - startBlk) * cowBlockSize
        let r := c.pieces
          (fun _ => if c.versions then cowBlockSize else maxDiscardPages * cowBlockSize)
          (startBlk * cowBlockSize) length length 0 d
        (r.1.2, r.2)

/-- `Disk.Discard`. -/
def discard (c : Disk) (d : DiskState) (offset length : Int) : Option GoError × DiskState :=
  match c.ask d with
  | (some (_, e), d) => (some e, d)
  | (none, d) =>
    if offset < 0 ∨ offset > c.size ∨ length < 0 ∨ length > c.size - offset then
      (some (.text s!"diffstore: discard out of bounds: off={offset} len={length} size={c.size}"),
        d)
    else if length = 0 then (none, d)
    else c.discardBlocks d ((offset.toNat + cowBlockSize - 1) / cowBlockSize)
      ((offset + length).toNat / cowBlockSize)

/-- `CowBackend`. -/
def backend : Backend DiskState where
  readAt := c.readAt
  writeAt := c.writeAt
  flush d := ((c.ask d).1.map Prod.snd, (c.ask d).2)
  discard := c.discard
  supportsDiscard := true
  size := c.size
  readOnly := false

end Disk

/-- `ReadOnlyBackend`, over a reader of any size that answers any count and error. -/
def readOnlyBackend (size : Int) (answer : Nat → Int → List UInt8 → Int × Option GoError) :
    Backend DiskState where
  readAt d offset buf :=
    ⟨buf, (answer d.asked offset buf).1, (answer d.asked offset buf).2,
      { d.touch offset.toNat buf.length with asked := d.asked + 1 }⟩
  writeAt d _ _ := ⟨0, some .readOnly, d⟩
  flush d := (none, d)
  discard d _ _ := (none, d)
  supportsDiscard := false
  size := size
  readOnly := true

/-! ## What the backends touch -/

/-- All that was touched since lies in `[lo, hi)`. -/
def Adds (d d' : DiskState) (lo hi : Nat) : Prop :=
  ∀ p ∈ d'.touched, p ∈ d.touched ∨ lo ≤ p.1 ∧ p.1 + p.2 ≤ hi

section Adds

variable {d d' d'' : DiskState} {lo hi lo' hi' : Nat}

theorem Adds.of_eq (h : d'.touched = d.touched) : Adds d d' lo hi := fun _ hp => .inl (h ▸ hp)

theorem Adds.trans (h : Adds d d' lo hi) (h' : Adds d' d'' lo hi) : Adds d d'' lo hi := fun p hp =>
  (h' p hp).elim (h p) .inr

theorem Adds.widen (h : Adds d d' lo hi) (hlo : lo' ≤ lo) (hhi : hi ≤ hi') : Adds d d' lo' hi' :=
  fun p hp =>
  (h p hp).imp_right fun ⟨h1, h2⟩ => ⟨le_trans hlo h1, le_trans h2 hhi⟩

theorem Adds.touch {start length : Nat} (hlo : lo ≤ start) (hhi : start + length ≤ hi) :
    Adds d (d.touch start length) lo hi := by
  intro p hp
  rcases List.mem_cons.1 hp with rfl | hp
  · exact .inr ⟨hlo, hhi⟩
  · exact .inl hp

end Adds

variable (b : Backend DiskState)

/-- The bytes of the sectors that GET_CONFIG publishes. -/
def Backend.capacity : Nat := (b.size / sectorSize).toNat * sectorSize

/-- What a request relies on: a range is all that is touched for it, a write stays on the disk,
and one that goes well was there. -/
structure Backend.Confined : Prop where
  size_le : b.size ≤ maxInt64
  length : ∀ d offset buf, (b.readAt d offset buf).buf.length = buf.length
  read : ∀ d (offset : Nat) buf, Adds d (b.readAt d offset buf).disk offset (offset + buf.length)
  write : ∀ d (offset : Nat) buf,
    Adds d (b.writeAt d offset buf).disk offset (min (offset + buf.length) b.capacity) ∧
    ((b.writeAt d offset buf).err = none → (b.writeAt d offset buf).n = buf.length ∧
      offset + buf.length ≤ b.capacity)
  discard : ∀ d (offset length : Nat), Adds d (b.discard d offset length).2 offset (offset + length)
  flush : ∀ d, (b.flush d).2.touched = d.touched

theorem Disk.pieces_adds (c : Disk) {piece : Nat → Nat} (hpiece : ∀ pos, 0 < piece pos)
    {offset length : Nat}
    (fuel done : Nat) (d : DiskState) (hd : done ≤ length) (hf : length - done ≤ fuel) :
    Adds d (c.pieces piece offset length fuel done d).2 offset (offset + length) ∧
      (c.pieces piece offset length fuel done d).1.1 ≤ length ∧
      ((c.pieces piece offset length fuel done d).1.2 = none →
        (c.pieces piece offset length fuel done d).1.1 = length) := by
  induction fuel generalizing done d with
  | zero =>
    exact ⟨.of_eq rfl, hd, fun _ => le_antisymm hd (Nat.sub_eq_zero_iff_le.1 (Nat.le_zero.1 hf))⟩
  | succ fuel ih =>
    unfold pieces
    split
    next hlt =>
      have hpos := hpiece (offset + done)
      have htouch :
          Adds d (c.ask (d.touch (offset + done) (min (length - done) (piece (offset + done))))).2
          offset
          (offset + length) := .touch (Nat.le_add_right ..) (by omega)
      dsimp only
      generalize c.ask (d.touch (offset + done) (min (length - done) (piece (offset + done)))) =
        r at htouch ⊢
      obtain ⟨_ | ⟨k, e⟩, d'⟩ := r
      · obtain ⟨hadds, hle, hnone⟩ := ih (done + min (length - done) (piece (offset + done))) d'
          (by omega) (by omega)
        exact ⟨htouch.trans hadds, hle, hnone⟩
      · refine ⟨htouch, ?_, nofun⟩
        dsimp only
        omega
    · exact ⟨.of_eq rfl, hd, fun _ => by dsimp only; omega⟩

theorem Disk.pieces_all (piece : Nat → Nat) (hpiece : ∀ pos, 0 < piece pos) (offset length : Nat)
    (d : DiskState) :
    Adds d (c.pieces piece offset length length 0 d).2 offset (offset + length) ∧
      (c.pieces piece offset length length 0 d).1.1 ≤ length ∧
      ((c.pieces piece offset length length 0 d).1.2 = none →
        (c.pieces piece offset length length 0 d).1.1 = length) :=
  c.pieces_adds hpiece length 0 d (Nat.zero_le _) le_rfl

theorem Disk.readAt_confined (d : DiskState) (offset : Int) (buf : List UInt8) :
    Adds d (c.readAt d offset buf).disk offset.toNat (offset.toNat + buf.length) ∧
      (c.readAt d offset buf).buf.length = buf.length := by
  unfold readAt ask
  rcases c.answer d.asked with _ | ⟨k, e⟩
  · dsimp only
    split
    · exact ⟨.of_eq rfl, rfl⟩
    split
    · exact ⟨.of_eq rfl, rfl⟩
    have hpiece : ∀ pos, 0 < maxDiffScratchSize - pos % cowBlockSize := fun pos =>
      Nat.sub_pos_of_lt (lt_trans (Nat.mod_lt _ (by decide)) (by decide))
    obtain ⟨hadds, hle, -⟩ := c.pieces_all _ hpiece offset.toNat
      (min buf.length (c.size - offset.toNat))
      ⟨d.asked + 1, d.touched⟩
    refine ⟨.widen hadds le_rfl (Nat.add_le_add_left (min_le_left ..) _), ?_⟩
    rw [List.length_append, List.length_map, List.length_range, List.length_drop]
    omega
  · exact ⟨.of_eq rfl, rfl⟩

theorem Disk.capacity : c.backend.capacity = c.size := by
  obtain ⟨k, hk⟩ := c.whole
  change ((c.size : Int) / sectorSize).toNat * sectorSize = c.size
  rw [hk]
  simp only [cowBlockSize, sectorSize]
  omega

theorem Disk.writeAt_confined (d : DiskState) (offset : Nat) (buf : List UInt8) :
    Adds d (c.writeAt d offset buf).disk offset (min (offset + buf.length) c.size) ∧
      ((c.writeAt d offset buf).err = none → (c.writeAt d offset buf).n = buf.length ∧
        offset + buf.length ≤ c.size) := by
  unfold writeAt ask
  rcases c.answer d.asked with _ | ⟨k, e⟩
  · dsimp only
    split
    · exact ⟨.of_eq rfl, nofun⟩
    next hin =>
      have hsize : offset + buf.length ≤ c.size := by omega
      split
      next hz => exact ⟨.of_eq rfl, fun _ => ⟨by rw [hz]; rfl, hsize⟩⟩
      · rcases c.answer (d.asked + 1) with _ | ⟨k, e⟩
        · obtain ⟨hadds, -, hall⟩ := c.pieces_all (fun pos => cowBlockSize - pos % cowBlockSize)
            (fun pos => Nat.sub_pos_of_lt (Nat.mod_lt _ (by decide))) offset buf.length
              ⟨d.asked + 1 + 1, d.touched⟩
          exact ⟨.widen hadds le_rfl (Nat.le_min.2 ⟨le_rfl, hsize⟩),
            fun hnone => ⟨congrArg _ (hall hnone), hsize⟩⟩
        · exact ⟨.of_eq rfl, nofun⟩
  · exact ⟨.of_eq rfl, nofun⟩

theorem Disk.discard_adds (d : DiskState) (offset length : Nat) :
    Adds d (c.discard d offset length).2 offset (offset + length) := by
  unfold discard ask
  rcases c.answer d.asked with _ | ⟨k, e⟩
  · dsimp only
    split
    · exact .of_eq rfl
    split
    · exact .of_eq rfl
    unfold discardBlocks ask
    split
    · exact .of_eq rfl
    next hlt =>
      rcases c.answer (d.asked + 1) with _ | ⟨k, e⟩
      · dsimp only
        rcases c.answer (d.asked + 1 + 1) with _ | ⟨k, e⟩
        · refine .widen (c.pieces_all _ (fun pos => ?_) _ _ _).1 ?_ ?_
          · split <;> decide
          · simp only [cowBlockSize, Int.toNat_natCast]
            omega
          · simp only [cowBlockSize, Int.toNat_natCast] at hlt ⊢
            omega
        · exact .of_eq rfl
      · exact .of_eq rfl
  · exact .of_eq rfl

theorem Disk.confined : c.backend.Confined where
  size_le := by have := c.size_le; change (c.size : Int) ≤ maxInt64; omega
  length d offset buf := (c.readAt_confined d offset buf).2
  read d offset buf := (c.readAt_confined d offset buf).1
  write d offset buf := c.capacity.symm ▸ c.writeAt_confined d offset buf
  discard := c.discard_adds
  flush _ := rfl

theorem readOnlyBackend_confined {size : Int} (hsize : size ≤ maxInt64)
    (answer : Nat → Int → List UInt8 → Int × Option GoError) :
    (readOnlyBackend size answer).Confined where
  size_le := hsize
  length _ _ _ := rfl
  read _ _ _ := .touch le_rfl le_rfl
  write _ _ _ := ⟨.of_eq rfl, nofun⟩
  discard _ _ _ := .of_eq rfl
  flush _ := rfl

theorem Backend.Confined.capacity_le {b : Backend DiskState} (hb : b.Confined) :
    b.capacity ≤ maxInt64 := by
  have := hb.size_le
  unfold capacity
  simp only [sectorSize, maxInt64] at *
  omega

/-! ## Requests -/

/-- All that is touched lies in the interval and in the capacity. -/
def Stays (start length : Nat) (d d' : DiskState) : Prop :=
  Adds d d' start (min (start + length) b.capacity)

/-- The interval lies in the capacity. -/
def Backend.Has (start length : Nat) : Prop := length = 0 ∨ start + length ≤ b.capacity

def discardSegs (c : Chain) : List Slice :=
  match c.readSegs with
  | [] => []
  | first :: rest => first.drop 16 :: rest

/-- Start and length of the range that it spells. -/
def discarded (c : Chain) (m : Nat → UInt8) : Nat × Nat :=
  let bytes := load m (cells (discardSegs c))
  (littleEndian (bytes.take 8) * sectorSize, littleEndian ((bytes.drop 8).take 4) * sectorSize)

section Requests

variable {h : Host DiskState} (hb : h.backend.Confined)

include hb

theorem readWindows_adds {start total : Nat} (fuel done : Nat) (segs : List Slice)
    (s : Machine DiskState) (ht : done + (cells segs).length = total) :
    Ends (readWindows h start total fuel done segs) s fun _ s' => Adds s.disk s'.disk start
    (start + total) := by
  induction fuel generalizing done segs s with
  | zero => exact .pure (.of_eq rfl)
  | succ fuel ih =>
    refine .ite (fun hlt => .step rfl ?_) fun _ => .pure (.of_eq rfl)
    split
    · exact .pure (.of_eq rfl)
    refine .bind
      ((readWindow_ends hb.length (Nat.lt_min.2 ⟨by omega, by decide⟩) (by omega)).mono
      fun r s' hs => ?_)
    obtain ⟨n, err⟩ := r
    obtain ⟨buf, hpos, hle, hw⟩ := hs
    have hread : Adds s.disk s'.disk start (start + total) := by
      rw [hw.disk, ← Int.natCast_add]
      exact (hb.read _ _ buf).widen (Nat.le_add_right ..) (by omega)
    cases err with
    | some e => exact .pure hread
    | none =>
      have hn : n ≤ buf.length := by
        rcases hw.outcome with ⟨hz, -⟩ | ⟨-, ⟨hz, -⟩ | ⟨hz, -⟩ | ⟨hn, rfl, -⟩⟩ <;> omega
      refine (ih (done + n) (advance n segs) s' ?_).mono fun r s'' hs => hread.trans hs
      rw [cells_advance, List.length_drop]
      omega

/-- An IN checks its range against the capacity before it reads. -/
theorem serveIn_stays (sector : Nat) (c : Chain) (s : Machine DiskState) :
    Runs (serveIn h sector c) s
      (fun r s' => Stays h.backend (sector * sectorSize) (cells (withoutStatus c.writeSegs)).length
        s.disk s'.disk ∧
        (r.1 = blkStatusOK →
          h.backend.Has (sector * sectorSize) (cells (withoutStatus c.writeSegs)).length))
      fun s' => Stays h.backend (sector * sectorSize) (cells (withoutStatus c.writeSegs)).length
        s.disk s'.disk := by
  unfold serveIn
  generalize withoutStatus c.writeSegs = segs
  rcases readPayload_cases h sector segs with ⟨-, e, heq, -⟩ | ⟨hfits, heq⟩ <;> rw [heq]
  · exact .step rfl (.ite (fun _ => .throw (.of_eq rfl)) fun _ => .pure ⟨.of_eq rfl, nofun⟩)
  have hin : sector * sectorSize + (cells segs).length ≤ h.backend.capacity := by
    simp only [Backend.Refuses, not_or, Int.not_lt] at hfits
    simp only [Backend.capacity, sectorSize] at *
    omega
  refine .bind ((readWindows_adds hb _ 0 segs s (Nat.zero_add _)).mono fun r s' hs => ?_)
  have hstays : Stays h.backend (sector * sectorSize) (cells segs).length s.disk s'.disk :=
    Adds.widen hs le_rfl (Nat.le_min.2 ⟨le_rfl, hin⟩)
  obtain ⟨n, err⟩ := r
  cases err with
  | none => exact .pure ⟨hstays, fun _ => .inr hin⟩
  | some e => exact .ite (fun _ => .throw hstays) fun _ => .pure ⟨hstays, nofun⟩

/-- The write loop, from an offset that fits an `int64`. -/
theorem writeSegments_stays (segs : List Slice) (start : Nat) (hstart : start ≤ maxInt64)
    (s : Machine DiskState) :
    Runs (writeSegments h segs start) s
      (fun r s' => Stays h.backend start (cells segs).length s.disk s'.disk ∧
        (r = blkStatusOK → h.backend.Has start (cells segs).length))
      fun s' => Stays h.backend start (cells segs).length s.disk s'.disk := by
  induction segs generalizing start s with
  | nil => exact .pure ⟨.of_eq rfl, fun _ => .inl rfl⟩
  | cons seg segs ih =>
    refine .step rfl (.step rfl ?_)
    obtain ⟨hadds, hok⟩ := hb.write s.disk start (load s.mem seg.cells)
    rw [length_load, seg.length_cells] at hadds hok
    rw [cells_cons, List.length_append, seg.length_cells]
    dsimp only
    generalize h.backend.writeAt s.disk start (load s.mem seg.cells) = r at hadds hok ⊢
    have hseg : Stays h.backend start (seg.len + (cells segs).length) s.disk r.disk :=
      Adds.widen hadds le_rfl (by omega)
    cases herr : r.err with
    | some e =>
      refine .ite (fun _ => .throw hseg) fun _ => .step rfl ?_
      split
      · exact .throw hseg
      · exact .pure ⟨hseg, by intro ho; split at ho <;> cases ho⟩
    | none =>
      obtain ⟨hn, hin⟩ := hok herr
      have hnext : start + seg.len ≤ maxInt64 := le_trans hin hb.capacity_le
      have hoff : int64 (start + r.n) = ((start + seg.len : Nat) : Int) := by
        rw [hn, ← Int.natCast_add]
        exact Int.bmod_eq_of_le (by omega) (by unfold maxInt64 at hnext; omega)
      have hrest : ∀ {d'}, Stays h.backend (start + seg.len) (cells segs).length r.disk d' →
          Stays h.backend start (seg.len + (cells segs).length) s.disk d' := fun hd =>
        hseg.trans (.widen hd (Nat.le_add_right ..) (by omega))
      refine .step rfl ?_
      split
      · exact .throw hseg
      dsimp only
      rw [hoff]
      refine (ih (start + seg.len) hnext _).mono
        (fun status s' hs => ⟨hrest hs.1, fun hstatus => ?_⟩) fun s' => hrest
      rcases hs.2 hstatus with hz | hle
      all_goals exact .inr (by omega)

omit hb in
theorem outOffset_eq {sector : Nat} (hsector : sector ≤ maxInt64 / sectorSize) :
    outOffset sector = ((sector * sectorSize : Nat) : Int) := by
  have hmul : sector * sectorSize ≤ maxInt64 :=
    le_trans (Nat.mul_le_mul_right _ hsector) (Nat.div_mul_le_self ..)
  simp only [outOffset, maxInt64, sectorSize] at *
  have hfit : int64 sector = sector := Int.bmod_eq_of_le (by omega) (by omega)
  rw [hfit]
  exact Int.bmod_eq_of_le (by omega) (by omega)

/-- An OUT multiplies its sector as it is; the product must not wrap. -/
theorem serveOut_stays (sector : Nat) (hsector : sector ≤ maxInt64 / sectorSize) (c : Chain)
    (s : Machine DiskState) :
    Runs (serveOut h sector c) s
      (fun r s' => Stays h.backend (sector * sectorSize) (cells c.readSegs.tail).length s.disk
        s'.disk ∧
        (r = blkStatusOK → h.backend.Has (sector * sectorSize) (cells c.readSegs.tail).length))
      fun s' => Stays h.backend (sector * sectorSize)
      (cells c.readSegs.tail).length s.disk s'.disk := by
  have hmul : sector * sectorSize ≤ maxInt64 :=
    le_trans (Nat.mul_le_mul_right _ hsector) (Nat.div_mul_le_self ..)
  unfold serveOut
  rw [← outOffset, outOffset_eq hsector]
  exact writeSegments_stays hb _ _ hmul s

theorem discardRange_stays (d : DiskState) (bytes : List UInt8) :
    Stays h.backend (littleEndian (bytes.take 8) * sectorSize)
    (littleEndian ((bytes.drop 8).take 4) * sectorSize) d
        (discardRange h.backend d bytes).2 ∧
      ((discardRange h.backend d bytes).1 = blkStatusOK →
        h.backend.Has (littleEndian (bytes.take 8) * sectorSize)
        (littleEndian ((bytes.drop 8).take 4) * sectorSize)) := by
  unfold discardRange
  generalize littleEndian (bytes.take 8) = sector
  generalize littleEndian ((bytes.drop 8).take 4) = count
  dsimp only
  split
  · exact ⟨.of_eq rfl, nofun⟩
  split
  · exact ⟨.of_eq rfl, nofun⟩
  split
  · exact ⟨.of_eq rfl, nofun⟩
  · have hin : sector * sectorSize + count * sectorSize ≤ h.backend.capacity := by
      rw [← Nat.add_mul]
      exact Nat.mul_le_mul_right _ (by omega)
    exact ⟨(hb.discard d _ _).widen le_rfl (Nat.le_min.2 ⟨le_rfl, hin⟩), fun _ => .inr hin⟩

theorem serveDiscard_stays (c : Chain) (s : Machine DiskState) : Runs (serveDiscard h c) s
      (fun r s' => Stays h.backend (discarded c s.mem).1 (discarded c s.mem).2 s.disk s'.disk ∧
        (r = blkStatusOK → h.backend.Has (discarded c s.mem).1 (discarded c s.mem).2))
      fun s' => Stays h.backend (discarded c s.mem).1 (discarded c s.mem).2 s.disk s'.disk := by
  refine .ite (fun _ => .pure ⟨.of_eq rfl, nofun⟩) fun _ => ?_
  unfold discardChain discarded
  obtain ⟨p, t, hrun⟩ := rangeBytes_yields (discardSegs c) [] (Nat.zero_le _) s.polls s.trace
  refine .step hrun ?_
  rw [List.nil_append]
  generalize load s.mem (cells (discardSegs c)) = bytes
  split
  · exact .pure ⟨.of_eq rfl, nofun⟩
  next heq =>
    split at heq <;> cases heq
    refine .ite (fun _ => .pure ⟨.of_eq rfl, nofun⟩) fun _ => ?_
    exact discardRange_stays hb s.disk bytes

end Requests

/-! ## Devices -/

/-- The two devices there are, by their size. -/
inductive Device where
  | disk (size : Nat) (whole : cowBlockSize ∣ size) (size_le : size ≤ maxInt64)
  | readOnly (size : Int) (size_le : size ≤ maxInt64)

namespace Device

/-- The backends of a device; anything may lie below them. -/
def Backs : Device → Backend DiskState → Prop
  | .disk size _ _, b => ∃ c : Disk, c.size = size ∧ b = c.backend
  | .readOnly size _, b => ∃ answer, b = readOnlyBackend size answer

/-- The bytes of the published sectors. -/
def capacity : Device → Nat
  | .disk size _ _ => size
  | .readOnly size _ => (size / sectorSize).toNat * sectorSize

variable {dev : Device} {b : Backend DiskState}

theorem Backs.confined (hb : dev.Backs b) : b.Confined := by
  cases dev with
  | disk size whole size_le =>
    obtain ⟨c, -, rfl⟩ := hb
    exact c.confined
  | readOnly size size_le =>
    obtain ⟨answer, rfl⟩ := hb
    exact readOnlyBackend_confined size_le answer

theorem Backs.capacity_eq (hb : dev.Backs b) : b.capacity = dev.capacity := by
  cases dev with
  | disk size whole size_le =>
    obtain ⟨c, rfl, rfl⟩ := hb
    exact c.capacity
  | readOnly size size_le =>
    obtain ⟨answer, rfl⟩ := hb
    rfl

end Device

/-- Start and length of the bytes a request names. The payload of an IN is the writable stream
without the status, that of an OUT the readable stream without the header. -/
def addressed (hdr : BlkReqHeader) (c : Chain) (m : Nat → UInt8) : Nat × Nat :=
  match hdr.type with
  | .blkIn => (hdr.sector * sectorSize, (cells c.writeSegs).length - 1)
  | .out => (hdr.sector * sectorSize, (cells c.readSegs).length - 16)
  | .discard => discarded c m
  | .flush | .other => (0, 0)

/-- The request touches nothing but the bytes that it names and the device has, and they are all
there if it is answered with OK. -/
def TouchesAddressed (h : Host DiskState) (hdr : BlkReqHeader) (c : Chain) (s : Machine DiskState) :
    Prop :=
  Runs (serveCommand h hdr c) s
    (fun r s' => Stays h.backend (addressed hdr c s.mem).1 (addressed hdr c s.mem).2 s.disk
      s'.disk ∧
      (r.1 = blkStatusOK →
        h.backend.Has (addressed hdr c s.mem).1 (addressed hdr c s.mem).2))
    fun s' => Stays h.backend (addressed hdr c s.mem).1 (addressed hdr c s.mem).2 s.disk s'.disk

/-- The OUTs that are served rightly. If the header's descriptor is the only one, nothing is written
and the answer is OK, so the payload must be there. If the product does not wrap, all that
follows that descriptor may lie on the disk only if the payload does. If it wraps, the first
write must fall off the disk. -/
def Device.OutAddressed (dev : Device) (sector : Nat) (c : Chain) : Prop :=
  let length := (cells c.readSegs).length - 16
  let named := length = 0 ∨ sector * sectorSize + length ≤ dev.capacity
  match c.readSegs.tail, dev with
  | [], _ => named
  | _ :: _, .readOnly .. => True
  | seg :: segs, .disk size .. =>
    if sector ≤ maxInt64 / sectorSize then
      sector * sectorSize + (cells (seg :: segs)).length ≤ size → named
    else outOffset sector < 0 ∨ size < outOffset sector + seg.len

/-- A write that is refused ends the OUT, and not with OK. -/
theorem writeSegments_refused {h : Host DiskState} {seg : Slice} {segs : List Slice} {offset : Int}
    {s : Machine DiskState} {r : WriteResult DiskState} {e : GoError} (start length : Nat)
    (hr : h.backend.writeAt s.disk offset (load s.mem seg.cells) = r) (he : r.err = some e)
    (ht : r.disk.touched = s.disk.touched) : Runs (writeSegments h (seg :: segs) offset) s
      (fun status s' => Stays h.backend start length s.disk s'.disk ∧
        (status = blkStatusOK → h.backend.Has start length))
      fun s' => Stays h.backend start length s.disk s'.disk := by
  refine .step rfl (.step rfl ?_)
  dsimp only
  rw [hr, he]
  refine .ite (fun _ => .throw (.of_eq ht)) fun _ => .step rfl ?_
  split
  · exact .throw (.of_eq ht)
  · refine .pure ⟨.of_eq ht, fun ho => ?_⟩
    split at ho <;> cases ho

theorem Disk.writeAt_off (c : Disk) (d : DiskState) {offset : Int} (buf : List UInt8)
    (hoff : offset < 0 ∨ c.size < offset + buf.length) :
    (∃ e, (c.writeAt d offset buf).err = some e) ∧
      (c.writeAt d offset buf).disk.touched = d.touched := by
  unfold writeAt ask
  rcases c.answer d.asked with _ | ⟨k, e⟩
  · have hout : offset < 0 ∨ offset > c.size ∨ (buf.length : Int) > c.size - offset := by omega
    dsimp only
    rw [if_pos hout]
    exact ⟨⟨_, rfl⟩, rfl⟩
  · exact ⟨⟨e, rfl⟩, rfl⟩

/-- What follows the header's descriptor is no more than the payload. -/
theorem length_tail_le {c : Chain} (hhdr : ∀ first ∈ c.readSegs.head?, 16 ≤ first.len) :
    (cells c.readSegs.tail).length ≤ (cells c.readSegs).length - 16 := by
  cases hreads : c.readSegs with
  | nil => exact Nat.zero_le _
  | cons first rest =>
    have h16 := hhdr first (by rw [hreads]; rfl)
    simp
    omega

theorem Device.OutAddressed.serveOut {dev : Device} {h : Host DiskState} (hb : dev.Backs h.backend)
    {sector : Nat} {c : Chain} (hc : c.Filled)
    (hhdr : ∀ first ∈ c.readSegs.head?, 16 ≤ first.len) (ha : dev.OutAddressed sector c)
    (s : Machine DiskState) : Runs (serveOut h sector c) s
      (fun r s' => Stays h.backend (sector * sectorSize) ((cells c.readSegs).length - 16) s.disk
          s'.disk ∧
        (r = blkStatusOK →
          h.backend.Has (sector * sectorSize) ((cells c.readSegs).length - 16)))
      fun s' => Stays h.backend (sector * sectorSize) ((cells c.readSegs).length - 16) s.disk
        s'.disk := by
  have hcap := hb.capacity_eq
  have htail := length_tail_le hhdr
  unfold Device.OutAddressed at ha
  dsimp only at ha
  split at ha
  next htl =>
    unfold Vhost.serveOut
    rw [htl]
    exact .pure ⟨.of_eq rfl, fun _ => by rwa [Backend.Has, hcap]⟩
  next seg segs size size_le htl =>
    obtain ⟨answer, hans⟩ := hb
    unfold Vhost.serveOut
    rw [htl]
    exact writeSegments_refused _ _ (by rw [hans]) rfl rfl
  next seg segs size whole size_le htl =>
    split at ha
    next hle =>
      refine (serveOut_stays hb.confined sector hle c s).mono (fun r s' hs => ⟨?_, fun ho => ?_⟩)
        fun s' hs => Adds.widen hs le_rfl (by omega)
      · exact Adds.widen hs.1 le_rfl (by omega)
      · have hpos : 0 < (cells c.readSegs.tail).length := by
          have := hc.reads seg (List.mem_of_mem_tail (by rw [htl]; exact .head _))
          rw [htl]
          simp
          omega
        rcases hs.2 ho with hz | hfit
        · omega
        · rw [Backend.Has, hcap]
          rw [hcap, htl] at hfit
          exact ha hfit
    next hgt =>
      obtain ⟨d, rfl, hd⟩ := hb
      obtain ⟨⟨e, he⟩, ht⟩ := d.writeAt_off s.disk (load s.mem seg.cells) (by simpa using ha)
      unfold Vhost.serveOut
      rw [htl]
      exact writeSegments_refused _ _ (by rw [hd]; rfl) he ht

/-! ### Devices with nothing wrong below them -/

theorem Disk.pieces_keeps (c : Disk) (piece : Nat → Nat) (offset length fuel done : Nat)
    {d : DiskState} {p : Nat × Nat} (hp : p ∈ d.touched) :
    p ∈ (c.pieces piece offset length fuel done d).2.touched := by
  induction fuel generalizing done d with
  | zero => exact hp
  | succ fuel ih =>
    unfold pieces ask
    split
    · dsimp only
      rcases c.answer _ with _ | ⟨k, e⟩
      · exact ih _ (.tail _ hp)
      · exact .tail _ hp
    · exact hp

section Sound

variable {c : Disk} (hc : ∀ k, c.answer k = none)

include hc

theorem Disk.pieces_sound (piece : Nat → Nat) (offset length fuel done : Nat) (d : DiskState) :
    (c.pieces piece offset length fuel done d).1.2 = none := by
  induction fuel generalizing done d with
  | zero => rfl
  | succ fuel ih =>
    unfold pieces ask
    split
    · simp only [hc]
      exact ih ..
    · rfl

/-- A write on a sound disk goes well, and touches its first byte. -/
theorem Disk.writeAt_sound (d : DiskState) (offset : Nat) (buf : List UInt8) (hpos : 0 < buf.length)
    (hin : offset + buf.length ≤ c.size) : (c.writeAt d offset buf).err = none ∧
      ∃ n, 0 < n ∧ (offset, n) ∈ (c.writeAt d offset buf).disk.touched := by
  have hlow : ¬((offset : Int) < 0 ∨ (offset : Int) > c.size ∨
      (buf.length : Int) > c.size - offset) := by omega
  have hpiece : 0 < cowBlockSize - offset % cowBlockSize :=
    Nat.sub_pos_of_lt (Nat.mod_lt _ (by decide))
  unfold writeAt ask
  simp only [hc, if_neg hlow, if_neg (Nat.pos_iff_ne_zero.1 hpos), Int.toNat_natCast]
  refine ⟨pieces_sound hc .., min buf.length (cowBlockSize - offset % cowBlockSize), by omega, ?_⟩
  obtain ⟨fuel, hfuel⟩ : ∃ fuel, buf.length = fuel + 1 := ⟨buf.length - 1, by omega⟩
  rw [hfuel]
  unfold pieces ask
  rw [if_pos (Nat.zero_lt_succ _)]
  simp only [hc]
  exact c.pieces_keeps _ _ _ _ _ (.head _)

variable {h : Host DiskState} (hb : h.backend = c.backend)

include hb

theorem writeSegments_sound (hq : h.Quiet) {m : Nat → UInt8} (segs : List Slice) (hf : Filled segs)
    (start : Nat) (d : DiskState) (hin : start + (cells segs).length ≤ c.size) :
    ∃ d', Yields (writeSegments h segs start) m d blkStatusOK m d' := by
  induction segs generalizing start d with
  | nil => exact ⟨d, .pure _⟩
  | cons seg segs ih =>
    have hseg : 0 < seg.len := hf seg (.head _)
    have hlen : (load m seg.cells).length = seg.len := by simp
    rw [cells_cons, List.length_append, seg.length_cells] at hin
    have hok := (Disk.writeAt_sound hc d start (load m seg.cells) (by omega) (by omega)).1
    have hn := ((c.writeAt_confined d start (load m seg.cells)).2 hok).1
    have hoff : int64 (start + (c.writeAt d start (load m seg.cells)).n) =
        ((start + seg.len : Nat) : Int) := by
      have hsize := c.size_le
      unfold maxInt64 at hsize
      rw [hn, hlen, ← Int.natCast_add]
      exact Int.bmod_eq_of_le (by omega) (by omega)
    obtain ⟨d', hd'⟩ := ih (filled_tail hf) (start + seg.len)
      (c.writeAt d start (load m seg.cells)).disk (by omega)
    refine ⟨d', writeSegments_cons (r := c.writeAt d start (load m seg.cells)) hq (by rw [hb]; rfl)
      (by rw [hok]; rfl) ?_⟩
    rw [hok, hoff]
    exact hd'

end Sound

/-- A host of the device with nothing wrong below, stopped or not. -/
def Device.host (dev : Device) (stop : Bool) : Host DiskState where
  backend := match dev with
    | .disk size whole size_le =>
      (⟨size, whole, size_le, false, fun _ => 0, fun _ => none⟩ : Disk).backend
    | .readOnly size _ => readOnlyBackend size fun _ _ buf => (buf.length, none)
  discardSupported := false
  discardNegotiated := false
  stats := false
  regions := []
  ensureLoaded := none
  markDirty := none
  stopClosed _ := stop
  ctxErr _ := none

theorem Device.host_backs (dev : Device) (stop : Bool) : dev.Backs (dev.host stop).backend := by
  cases dev with
  | disk size whole size_le => exact ⟨_, rfl, rfl⟩
  | readOnly size size_le => exact ⟨fun _ _ buf => (buf.length, none), rfl⟩

/-- The queue stops after the first write. -/
theorem writeSegments_stopped {h : Host DiskState} (hstop : ∀ k, h.stopClosed k = true)
    {seg : Slice} (segs : List Slice) {offset : Int} {s : Machine DiskState}
    (hok : (h.backend.writeAt s.disk offset (load s.mem seg.cells)).err = none) :
    ∃ e s', writeSegments h (seg :: segs) offset s = .error e s' ∧
      s'.disk = (h.backend.writeAt s.disk offset (load s.mem seg.cells)).disk := by
  have hs : ∀ s, stopped h s = .ok (some (.terminal .canceled)) { s with polls := s.polls + 1 } :=
    fun s => by rw [stopped, hstop]; rfl
  have hruns : Runs (writeSegments h (seg :: segs) offset) s (fun _ _ => False)
      fun s' => s'.disk = (h.backend.writeAt s.disk offset (load s.mem seg.cells)).disk := by
    refine .step rfl (.step rfl ?_)
    dsimp only
    rw [hok]
    exact .step (hs _) (.throw rfl)
  unfold Runs at hruns
  split at hruns
  · exact hruns.elim
  next e s' heq => exact ⟨e, s', heq, hruns⟩

/-- Where nothing is wrong below, an OUT shows what the device makes of it. -/
theorem Device.OutAddressed.of_touches {dev : Device} {sector : Nat} {c : Chain} (hc : c.Filled)
    (hall : ∀ h, dev.Backs h.backend → ∀ s, TouchesAddressed h ⟨.out, sector⟩ c s) :
    dev.OutAddressed sector c := by
  obtain ⟨s, hs⟩ : ∃ s : Machine DiskState, s.disk.touched = [] :=
    ⟨⟨fun _ => 0, ⟨0, []⟩, 0, []⟩, rfl⟩
  have hnamed : ∀ {s'}, writeSegments (dev.host false) c.readSegs.tail (outOffset sector) s =
      .ok blkStatusOK s' → (cells c.readSegs).length - 16 = 0 ∨
        sector * sectorSize + ((cells c.readSegs).length - 16) ≤ dev.capacity := by
    intro s' heq
    rw [← (dev.host_backs false).capacity_eq]
    exact ((Runs.of_map (hall _ (dev.host_backs false) s)).of_ok heq).2 rfl
  have hstays : ∀ {e s'}, writeSegments (dev.host true) c.readSegs.tail (outOffset sector) s =
      .error e s' → Stays (dev.host true).backend (sector * sectorSize)
        ((cells c.readSegs).length - 16) s.disk s'.disk :=
    fun heq => (Runs.of_map (hall _ (dev.host_backs true) s)).of_error heq
  have hrest : Filled c.readSegs.tail := fun seg hseg => hc.reads seg (List.mem_of_mem_tail hseg)
  unfold Device.OutAddressed
  dsimp only
  split
  next htl =>
    rw [htl] at hnamed
    exact hnamed rfl
  next => trivial
  next seg segs size whole size_le htl =>
    rw [htl] at hnamed hstays hrest
    split
    next hle =>
      intro hin
      obtain ⟨d', hd'⟩ := writeSegments_sound (h := Device.host (.disk size whole size_le) false)
        (fun _ => rfl) rfl ⟨fun _ => rfl, fun _ => rfl⟩ (m := s.mem) _ hrest _ s.disk hin
      obtain ⟨p, t, hp⟩ := hd' s.polls s.trace
      rw [outOffset_eq hle] at hnamed
      exact hnamed hp
    next hgt =>
      by_contra hland
      rw [not_or, Int.not_lt, Int.not_lt] at hland
      obtain ⟨start, hstart⟩ := Int.eq_ofNat_of_zero_le hland.1
      have hlen : (load s.mem seg.cells).length = seg.len := by simp
      obtain ⟨hok, n, hn, hmem⟩ := Disk.writeAt_sound
        (c := ⟨size, whole, size_le, false, fun _ => 0, fun _ => none⟩) (fun _ => rfl) s.disk start
        (load s.mem seg.cells) (by rw [hlen]; exact hrest seg (.head _))
        (by rw [hlen]; show start + seg.len ≤ size; omega)
      obtain ⟨e, s', heq, hdisk⟩ := writeSegments_stopped
        (h := Device.host (.disk size whole size_le) true) (fun _ => rfl) segs hok
      rw [hstart] at hstays
      have hin := (hstays heq (start, n) (hdisk ▸ hmem)).resolve_left (by simp [hs])
      have hcap : start + n ≤ size := le_trans hin.2 (le_trans (min_le_right ..)
        (Nat.le_of_eq (Device.host_backs (.disk size whole size_le) true).capacity_eq))
      have hsize : size ≤ 9223372036854775807 := size_le
      simp only [maxInt64, sectorSize] at hgt hin
      omega

/-- For every sector, payload and device: whatever lies below, a request touches nothing but the
bytes that it names and the device has, and they are all there if it is answered with OK, but for
the OUTs whose bytes beside the header or whose product take them elsewhere. -/
theorem request_touches_addressed (dev : Device) (hdr : BlkReqHeader) {c : Chain} (hc : c.Filled)
    (hhdr : ∀ first ∈ c.readSegs.head?, 16 ≤ first.len) :
    (∀ h, dev.Backs h.backend → ∀ s, TouchesAddressed h hdr c s) ↔
      (hdr.type = .out → dev.OutAddressed hdr.sector c) := by
  obtain ⟨type, sector⟩ := hdr
  constructor
  · rintro hall rfl
    exact .of_touches hc hall
  intro ha h hb s
  have hconf := hb.confined
  cases type with
  | out => exact .bind (((ha rfl).serveOut hb hc hhdr s).mono (fun _ _ hs => .pure hs) fun _ => id)
  | blkIn =>
    have hin := serveIn_stays hconf sector c s
    rw [cells_withoutStatus hc.writes, List.length_dropLast] at hin
    exact hin
  | discard =>
    exact .bind ((serveDiscard_stays hconf c s).mono (fun _ _ hs => .pure hs) fun _ => id)
  | flush => exact .step rfl (.pure ⟨.of_eq (hconf.flush _), fun _ => .inl rfl⟩)
  | other => exact .pure ⟨.of_eq rfl, nofun⟩

/-- A disk of one block, with nothing wrong below it. -/
def oneBlock : Disk := ⟨4096, by decide, by decide, false, fun _ => 0, fun _ => none⟩

def oneBlockHost : Host DiskState :=
  ⟨oneBlock.backend, false, false, false, [], none, none, fun _ => false, fun _ => none⟩

def byteOut : Chain := ⟨[⟨0, 16, 16⟩, ⟨16, 1, 1⟩], [⟨17, 1, 1⟩]⟩

def oneBlockDevice : Device := .disk 4096 (by decide) (by decide)

theorem byteOut_filled : byteOut.Filled := ⟨by unfold Filled; decide, by unfold Filled; decide⟩

theorem request_touches_last_sector : oneBlockDevice.OutAddressed 7 byteOut ∧
    TouchesAddressed oneBlockHost ⟨.out, 7⟩ byteOut ⟨fun _ => 0, ⟨0, []⟩, 0, []⟩ := by
  have ha : oneBlockDevice.OutAddressed 7 byteOut := fun _ => .inr (by decide)
  refine ⟨ha, ?_⟩
  exact (request_touches_addressed oneBlockDevice ⟨.out, 7⟩ byteOut_filled (by decide)).2
    (fun _ => ha)
    oneBlockHost ⟨oneBlock, rfl, rfl⟩ _

/-- `int64(hdr.Sector)*sectorSize` is 0 for the sector 2^55: the first byte of the disk is written,
and the answer is OK. -/
theorem out_wraps_to_first_sector :
    Runs (serveCommand oneBlockHost ⟨.out, 36028797018963968⟩ byteOut) ⟨fun _ => 0, ⟨0, []⟩, 0, []⟩
      (fun r s' => r.1 = blkStatusOK ∧ s'.disk.touched = [(0, 1)] ∧
        ¬Stays oneBlockHost.backend (36028797018963968 * sectorSize) 1 ⟨0, []⟩ s'.disk)
      fun _ => False := by
  refine ⟨by decide, by decide, fun hstays => ?_⟩
  have := hstays (0, 1) (by decide)
  simp [sectorSize] at this

end Sandboxer.Vhost
