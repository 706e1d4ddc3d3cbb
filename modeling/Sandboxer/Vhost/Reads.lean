import Sandboxer.Vhost.Request

/-! # A scattered read is one read of the stream

The windows of `readPayload` end where they like, go through the scratch buffer
or not, and may cover several descriptors at once. What they deliver does not
depend on it, as long as the backend answers a range as it answers its parts
one after the other. -/
namespace Sandboxer.Vhost

open Lib.Slices

variable {β α γ : Type}

/-! ## Running the worker undisturbed -/

/-- The queue is not stopped while the request is served. -/
structure Host.Quiet (h : Host β) : Prop where
  open_ : ∀ k, h.stopClosed k = false
  live : ∀ k, h.ctxErr k = none

/-- From memory `m` and disk `d` the code returns `a` and leaves `m'` and `d'`. -/
def Yields (x : Serve β α) (m : Nat → UInt8) (d : β) (a : α) (m' : Nat → UInt8) (d' : β) : Prop :=
  ∀ p t, ∃ p' t', x ⟨m, d, p, t⟩ = .ok a ⟨m', d', p', t'⟩

section Rules

variable {m m' m'' : Nat → UInt8} {d d' d'' : β} {h : Host β}

theorem Yields.pure (a : α) : Yields (Pure.pure a : Serve β α) m d a m d :=
  fun p t => ⟨p, t, rfl⟩

theorem Yields.bind {x : Serve β α} {f : α → Serve β γ} {a : α} {b : γ}
    (hx : Yields x m d a m' d') (hf : Yields (f a) m' d' b m'' d'') :
    Yields (x >>= f) m d b m'' d'' := by
  intro p t
  obtain ⟨p', t', hp⟩ := hx p t
  obtain ⟨p'', t'', hp'⟩ := hf p' t'
  refine ⟨p'', t'', ?_⟩
  show EStateM.bind x f ⟨m, d, p, t⟩ = _
  rw [EStateM.bind, hp]
  exact hp'

theorem Host.Quiet.stopped (hq : h.Quiet) : Yields (stopped h) m d none m d := by
  intro p t
  refine ⟨p + 1, t, ?_⟩
  simp [Vhost.stopped, hq.open_, hq.live]

theorem Host.Quiet.unlessStopped (hq : h.Quiet) : Yields (unlessStopped h) m d () m d :=
  Yields.bind hq.stopped (.pure ())

theorem bytesOf_yields (s : Slice) : Yields (bytesOf s) m d (load m s.cells) m d :=
  fun p t => ⟨p, .read s :: t, rfl⟩

theorem copyTo_yields (s : Slice) (xs : List UInt8) :
    Yields (copyTo s xs) m d () (store m s.cells xs) d := fun p t => ⟨p, .write s :: t, rfl⟩

theorem readBackendAt_yields (buf : List UInt8) (offset : Int) :
    Yields (readBackendAt h buf offset) m d (h.backend.readAt d offset buf) m
      (h.backend.readAt d offset buf).disk := fun p t => ⟨p, t, rfl⟩

theorem writeBackendAt_yields (buf : List UInt8) (offset : Int) :
    Yields (writeBackendAt h buf offset) m d (h.backend.writeAt d offset buf) m
      (h.backend.writeAt d offset buf).disk := fun p t => ⟨p, t, rfl⟩

end Rules

/-! ## Backends that answer a range as its parts -/

/-- The range lies on the disk. -/
structure Backend.Inside (b : Backend β) (offset : Int) (n : Nat) : Prop where
  start : 0 ≤ offset
  stop : offset + n ≤ b.size

variable {b : Backend β} {offset : Int}

theorem Backend.Inside.left {m n : Nat} (hi : b.Inside offset (m + n)) : b.Inside offset m :=
  ⟨hi.start, by have := hi.stop; omega⟩

theorem Backend.Inside.right {m n : Nat} (hi : b.Inside offset (m + n)) : b.Inside (offset + m) n :=
  ⟨by have := hi.start; omega, by have := hi.stop; omega⟩

/-- On the disk, a read delivers a front of the range, and a read of a range is
that of its parts in order, up to the first that falls short. `bytes` is what
reads deliver. No error is one that ends the sandbox. -/
structure Backend.Splits (b : Backend β) (bytes : β → Int → Nat → List UInt8) : Prop where
  read : ∀ d offset buf, b.Inside offset buf.length → ∃ err, b.readAt d offset buf =
      ⟨bytes d offset buf.length ++ buf.drop (bytes d offset buf.length).length,
        (bytes d offset buf.length).length, err, d⟩ ∧
    err.any isTerminal = false ∧
    ((bytes d offset buf.length).length = buf.length → err.all completeReadCompatible = true)
  read_le : ∀ d offset n, (bytes d offset n).length ≤ n
  read_add : ∀ d offset m n, b.Inside offset (m + n) → bytes d offset (m + n) =
    bytes d offset m ++ if (bytes d offset m).length = m then bytes d (offset + m) n else []

theorem Backend.Splits.read_zero {bytes : β → Int → Nat → List UInt8}
    (hs : b.Splits bytes) (d : β) (offset : Int) : bytes d offset 0 = [] :=
  List.length_eq_zero_iff.1 (Nat.le_zero.1 (hs.read_le ..))

/-! ## Windows -/

/-- Every slice has bytes. -/
def Filled (segs : List Slice) : Prop := ∀ seg ∈ segs, 0 < seg.len

variable {length : Nat} {segs : List Slice}

theorem continuesAt_cells {base pos : Nat} (hc : continuesAt base length pos segs = true) :
    List.range' (base + pos) (length - pos) = (cells segs).take (length - pos) ∧
      length - pos ≤ (cells segs).length := by
  induction segs generalizing pos with
  | nil => cases hc
  | cons seg segs ih =>
    simp only [continuesAt, Bool.and_eq_true, Bool.or_eq_true, decide_eq_true_eq] at hc
    obtain ⟨hbase, hlen | hrest⟩ := hc
    · have hcells := seg.cells_take hlen
      rw [cells_cons, List.take_append_of_le_length (by simpa using hlen), ← hcells, hbase]
      exact ⟨rfl, by simp; omega⟩
    obtain ⟨heq, hle⟩ := ih hrest
    by_cases hlen : seg.len ≤ length - pos
    · have hsplit : length - pos = seg.len + (length - (pos + seg.len)) := by omega
      rw [cells_cons, List.take_append, List.take_of_length_le (by simpa using hlen),
        Slice.length_cells, show length - pos - seg.len = length - (pos + seg.len) from by omega,
        ← heq, hsplit, ← List.range'_append_1, Slice.cells, ← hbase, Nat.add_assoc]
      exact ⟨rfl, by simp; omega⟩
    · have hcells := seg.cells_take (Nat.le_of_not_le hlen)
      rw [cells_cons, List.take_append_of_le_length (by simp; omega), ← hcells, hbase]
      exact ⟨rfl, by simp; omega⟩

/-- A contiguous window covers the front of the stream. -/
theorem contiguousWindow_cells {buf : Slice} (hb : contiguousWindow segs length = some buf) :
    buf.len = length ∧ buf.cells = (cells segs).take length ∧ length ≤ (cells segs).length := by
  cases segs with
  | nil => cases hb
  | cons first rest =>
    simp only [contiguousWindow] at hb
    split at hb
    next hlen =>
      cases hb
      refine ⟨rfl, ?_, by simp; omega⟩
      rw [cells_cons, List.take_append_of_le_length (by simpa using hlen), ← first.cells_take hlen]
      rfl
    next hlen =>
      split at hb
      · cases hb
      split at hb
      next hc =>
        cases hb
        obtain ⟨heq, hle⟩ := continuesAt_cells hc
        refine ⟨rfl, ?_, by simp; omega⟩
        have hsplit : length = first.len + (length - first.len) := by omega
        rw [cells_cons, List.take_append, List.take_of_length_le (by simp; omega),
          Slice.length_cells, ← heq, Slice.cells]
        conv_lhs => rw [hsplit]
        rw [← List.range'_append_1, Slice.cells]
      · cases hb

/-- The planned window is a front of what was asked for. -/
theorem windowPlan_cells (hl : 0 < length) (hc : length ≤ (cells segs).length) :
    0 < (windowPlan segs length).2 ∧ (windowPlan segs length).2 ≤ length ∧
      ∀ buf, (windowPlan segs length).1 = some buf →
        buf.len = (windowPlan segs length).2 ∧ buf.cells =
          (cells segs).take (windowPlan segs length).2 := by
  unfold windowPlan
  split
  next buf hw =>
    obtain ⟨hlen, hcells, -⟩ := contiguousWindow_cells hw
    exact ⟨hl, le_rfl, fun _ he => by cases he; exact ⟨hlen, hcells⟩⟩
  next first rest hw =>
    split
    next hspan =>
      have hpos : 0 < minDirectSpan := by decide
      refine ⟨by omega, by omega, fun _ he => ?_⟩
      cases he
      refine ⟨rfl, ?_⟩
      rw [cells_cons, List.take_left' (Slice.length_cells _)]
      rfl
    · exact ⟨hl, le_rfl, nofun⟩
  · exact ⟨hl, le_rfl, nofun⟩

/-- The copies of a gathered window are one store along the stream. -/
theorem gatherInto_yields {h : Host β} (hq : h.Quiet) {d : β} (segs : List Slice) (m : Nat → UInt8)
    (front : List UInt8) :
    Yields (gatherInto h segs front) m d none (store m (cells segs) front) d := by
  induction segs generalizing m front with
  | nil => rw [cells_nil, store_nil_left]; exact .pure none
  | cons seg segs ih =>
    unfold gatherInto
    split
    next he =>
      rw [List.isEmpty_iff.1 he, store_nil_right]
      exact .pure none
    · rw [cells_cons, store_split, seg.length_cells]
      exact hq.stopped.bind ((copyTo_yields seg _).bind (ih _ _))

theorem cells_advance (n : Nat) (segs : List Slice) :
    cells (advance n segs) = (cells segs).drop n := by
  induction segs generalizing n with
  | nil => simp [advance]
  | cons seg segs ih =>
    unfold advance
    split
    next hn => rw [hn, List.drop_zero]
    · split
      next hlt =>
        rw [cells_cons, cells_cons, seg.cells_drop, List.drop_append_of_le_length (by simp; omega)]
      next hge =>
        have hnil : seg.cells.drop n =
            [] := List.drop_of_length_le (by rw [seg.length_cells]; omega)
        rw [ih, cells_cons, List.drop_append, hnil, List.nil_append, seg.length_cells]

section Payload

variable {h : Host β} {bytes : β → Int → Nat → List UInt8} {m : Nat → UInt8} {d : β} {length : Nat}

theorem windowErr_eq_none {n : Nat} {err : Option GoError}
    (hc : n = length → err.all completeReadCompatible = true) :
    windowErr n length err = none ↔ n = length := by
  cases err with
  | none => simp [windowErr]
  | some e =>
    simp only [Option.all_some] at hc
    unfold windowErr
    constructor
    · intro hnone
      by_contra hne
      simp [hne] at hnone
    · intro heq
      simp [heq, hc heq]

theorem windowErr_live {n : Nat} {err : Option GoError} (ht : err.any isTerminal = false) :
    (windowErr n length err).any isTerminal = false := by
  cases err with
  | none => by_cases hn : n = length <;> simp [windowErr, hn, isTerminal]
  | some e =>
    simp only [windowErr]
    split
    · rfl
    · exact ht

section

variable (hq : h.Quiet) (hs : h.backend.Splits bytes)

include hq hs

/-- One window delivers the front of its range to the front of the stream. -/
theorem readWindow_yields (hl : 0 < length) (hc : length ≤ (cells segs).length)
    (hi : h.backend.Inside offset length) : ∃ len err, 0 < len ∧ len ≤ length ∧
      Yields (readWindow h offset segs length) m d ((bytes d offset len).length, err)
        (store m (cells segs) (bytes d offset len)) d ∧
      (err = none ↔ (bytes d offset len).length = len) ∧ err.any isTerminal = false := by
  obtain ⟨hpos, hle, hdirect⟩ := windowPlan_cells hl hc
  unfold readWindow
  generalize windowPlan segs length = plan at hpos hle hdirect ⊢
  obtain ⟨direct, len⟩ := plan
  have hin : h.backend.Inside offset len := by
    obtain ⟨k, hk⟩ := Nat.exists_eq_add_of_le hle
    rw [hk] at hi
    exact hi.left
  have hn : (bytes d offset len).length ≤ len := hs.read_le ..
  have hneg :
      ¬(((bytes d offset len).length : Int) < 0 ∨ ((bytes d offset len).length : Int) > len) := by
    omega
  cases direct with
  | some buf =>
    obtain ⟨rfl, hcells⟩ := hdirect buf rfl
    obtain ⟨err, hread, hlive, hfull⟩ := hs.read d offset (load m buf.cells) (by simpa using hin)
    simp only [length_load, Slice.length_cells] at hread hfull
    refine ⟨buf.len, windowErr (bytes d offset buf.len).length buf.len err, hpos, hle, ?_,
      windowErr_eq_none hfull, windowErr_live hlive⟩
    have hstore : store m buf.cells (bytes d offset buf.len ++
        (load m buf.cells).drop (bytes d offset buf.len).length) =
        store m (cells segs) (bytes d offset buf.len) := by
      rw [store_front m buf.nodup_cells _ (by simpa using hn), hcells,
        store_take _ _ _ hn (by omega)]
    refine (bytesOf_yields buf).bind ((readBackendAt_yields _ _).bind ?_)
    rw [hread]
    refine (copyTo_yields buf _).bind ((Yields.pure _).bind ?_)
    simp only [hlive, hstore, Bool.false_eq_true, if_false]
    refine hq.stopped.bind ?_
    simp only [hneg, if_false, Option.isNone_some, Bool.false_eq_true]
    exact .pure _
  | none =>
    obtain ⟨err, hread, hlive, hfull⟩ := hs.read d offset (List.replicate len 0)
      (by simpa using hin)
    simp only [List.length_replicate] at hread hfull
    refine ⟨len, windowErr (bytes d offset len).length len err, hpos, hle, ?_,
      windowErr_eq_none hfull, windowErr_live hlive⟩
    refine Yields.bind (readBackendAt_yields _ _) ?_
    rw [hread]
    simp only [hlive, Bool.false_eq_true, if_false]
    refine hq.stopped.bind ?_
    simp only [hneg, if_false, Option.isNone_none, if_true, Int.toNat_natCast, List.take_left' rfl]
    exact (gatherInto_yields hq segs m _).bind (.pure _)

/-- The window loop delivers what one read of the rest would. -/
theorem readWindows_yields {total : Nat} (fuel done : Nat) (segs : List Slice) (m : Nat → UInt8)
    (hf : (cells segs).length ≤ fuel)
    (ht : done + (cells segs).length = total)
    (hi : h.backend.Inside (offset + done) (cells segs).length) :
    ∃ err, Yields (readWindows h offset total fuel done segs) m d
        (done + (bytes d (offset + done) (cells segs).length).length, err)
        (store m (cells segs) (bytes d (offset + done) (cells segs).length)) d ∧
      (err = none ↔ (bytes d (offset + done) (cells segs).length).length = (cells segs).length) ∧
      err.any isTerminal = false := by
  induction fuel generalizing done segs m with
  | zero =>
    have hz : (cells segs).length = 0 := Nat.le_zero.1 hf
    rw [hz, hs.read_zero, store_nil_right]
    exact ⟨none, .pure _, by simp, rfl⟩
  | succ fuel ih =>
    by_cases hlt : done < total
    · have hwin : 0 < min (total - done) maxReadWindow := by
        have : 0 < maxReadWindow := by decide
        omega
      have hwle : min (total - done) maxReadWindow ≤ (cells segs).length := by omega
      obtain ⟨k, hk⟩ := Nat.exists_eq_add_of_le hwle
      have hiw : h.backend.Inside (offset + done) (min (total - done) maxReadWindow) := by
        rw [hk] at hi
        exact hi.left
      obtain ⟨len, err, hpos, hle, hy, herr, hlive⟩ :=
        readWindow_yields hq hs hwin hwle hiw
      obtain ⟨rest, hrest⟩ := Nat.exists_eq_add_of_le (le_trans hle hwle)
      have hadd := hs.read_add d (offset + done) len rest (hrest ▸ hi)
      unfold readWindows
      rw [if_pos hlt]
      cases err with
      | some e =>
        have hshort : (bytes d (offset + done) len).length ≠ len := fun heq => by
          cases herr.2 heq
        rw [if_neg hshort, List.append_nil] at hadd
        rw [hrest, hadd]
        refine ⟨some e, hq.stopped.bind (hy.bind (.pure _)), ?_, hlive⟩
        have := hs.read_le d (offset + done) len
        simp
        omega
      | none =>
        have hfull := herr.1 rfl
        rw [if_pos hfull] at hadd
        have hcells : cells (advance len segs) = (cells segs).drop len := cells_advance ..
        have hlen : (cells (advance len segs)).length = rest := by
          rw [hcells, List.length_drop, hrest, Nat.add_sub_cancel_left]
        have hoff : offset + ((done + len : Nat) : Int) = offset + done + len := by
          push_cast; omega
        obtain ⟨err, hy', herr', hlive'⟩ := ih (done + len) (advance len segs)
          (store m (cells segs) (bytes d (offset + done) len)) (by omega) (by omega)
          (by rw [hlen, hoff]; exact (hrest ▸ hi : h.backend.Inside _ (len + rest)).right)
        rw [hlen, hoff] at hy' herr'
        rw [hrest, hadd, List.length_append, hfull, ← Nat.add_assoc,
          store_append _ _ _ _ (by omega), hfull, ← hcells]
        refine ⟨err, ?_, herr'.trans (Nat.add_left_cancel_iff).symm, hlive'⟩
        refine hq.stopped.bind (hy.bind ?_)
        rw [hfull]
        exact hy'
    · have hz : (cells segs).length = 0 := by omega
      unfold readWindows
      rw [if_neg hlt, hz, hs.read_zero, store_nil_right]
      exact ⟨none, .pure _, by simp, rfl⟩

end

theorem payloadLen_eq (segs : List Slice) (total : Nat) (ht : total ≤ maxUsedLen) :
    payloadLen segs total =
      if total + (cells segs).length ≤ maxUsedLen then some
      (total + (cells segs).length) else none := by
  induction segs generalizing total with
  | nil => simp [payloadLen, ht]
  | cons seg segs ih =>
    unfold payloadLen
    split
    · rw [if_neg (by simp; omega)]
    · rw [ih _ (by omega)]
      simp [Nat.add_assoc]

/-- The checks of `readPayload` on a request for `total` bytes. -/
def Backend.Refuses (b : Backend β) (sector total : Nat) : Prop :=
  total > maxUsedLen ∨ sector > 9223372036854775807 / sectorSize ∨ b.size < 0 ∨
    (total : Int) > b.size / sectorSize * sectorSize - (sector * sectorSize : Nat)

instance (b : Backend β) (sector total : Nat) : Decidable (b.Refuses sector total) := by
  unfold Backend.Refuses
  infer_instance

/-- A request is refused, or its range is on the disk and the loop reads it. -/
theorem readPayload_cases (h : Host β) (sector : Nat) (segs : List Slice) :
    (h.backend.Refuses sector (cells segs).length ∧
      ∃ e, readPayload h sector segs = Pure.pure (0, some e) ∧ isTerminal e = false) ∨
    ¬h.backend.Refuses sector (cells segs).length ∧ readPayload h sector segs =
      readWindows h (sector * sectorSize : Nat) (cells segs).length (cells segs).length 0 segs := by
  unfold readPayload
  rw [payloadLen_eq segs 0 (Nat.zero_le _), Nat.zero_add]
  split
  next htotal =>
    split at htotal <;> cases htotal
    exact .inl ⟨.inl (not_le.1 ‹_›), _, rfl, rfl⟩
  next htotal =>
    split at htotal <;> cases htotal
    split
    · exact .inl ⟨.inr (.inl ‹_›), _, rfl, rfl⟩
    split
    · exact .inl ⟨.inr (.inr ‹_›), _, rfl, rfl⟩
    refine .inr ⟨fun hr => ?_, rfl⟩
    rcases hr with hr | hr | hr
    · omega
    · omega
    · exact absurd hr ‹_›

end Payload

end Sandboxer.Vhost
