import Sandboxer.Vhost.Reads

/-! # Requests as byte streams

A request is two streams: the bytes the device may read, which are a header and
a payload, and the space it may write, whose last byte is the status. Two
requests with the same streams are served alike, whatever descriptors they were
cut into, but for a header that is cut and for an OUT, which leaves out what
shares the header's descriptor and writes descriptor by descriptor up to the end
of the disk. -/
namespace Sandboxer.Vhost

open Lib.Slices

variable {β α γ : Type}

/-! ## Accepted chains -/

/-- Code that changes neither memory nor disk and whose results satisfy `Q`. -/
def Keeps (x : Serve β α) (Q : α → Prop) : Prop :=
  ∀ s a s', x s = .ok a s' → Q a ∧ s'.mem = s.mem ∧ s'.disk = s.disk

namespace Keeps

variable {Q : α → Prop} {R : γ → Prop}

theorem pure {a : α} (h : Q a) : Keeps (Pure.pure a : Serve β α) Q := by
  intro s b s' he
  cases he
  exact ⟨h, rfl, rfl⟩

theorem throw (e : GoError) : Keeps (throw e : Serve β α) Q := by
  intro s b s' he
  cases he

theorem bind {x : Serve β α} {f : α → Serve β γ} (hx : Keeps x Q) (hf : ∀ a, Q a → Keeps (f a) R) :
    Keeps (x >>= f) R := by
  intro s b s' he
  replace he : EStateM.bind x f s = .ok b s' := he
  unfold EStateM.bind at he
  split at he
  next a s₁ hx₁ =>
    obtain ⟨ha, hm, hd⟩ := hx _ _ _ hx₁
    obtain ⟨hb, hm', hd'⟩ := hf a ha _ _ _ he
    exact ⟨hb, hm'.trans hm, hd'.trans hd⟩
  · cases he

theorem ite {c : Prop} [Decidable c] {x y : Serve β α} (hx : c → Keeps x Q) (hy : ¬c → Keeps y Q) :
    Keeps (if c then x else y) Q := by
  split
  · exact hx ‹_›
  · exact hy ‹_›

theorem failOn (mark : GoError → GoError) (e : Option GoError) :
    Keeps (failOn mark e : Serve β Unit) fun _ => True := by
  cases e with
  | none => exact pure trivial
  | some e => exact throw _

theorem failIf (c : Prop) [Decidable c] (e : GoError) :
    Keeps (failIf c e : Serve β Unit) fun _ => True :=
  ite (fun _ => throw e) fun _ => pure trivial

theorem poll (h : Host β) : Keeps (readContextErr h) fun _ => True := by
  intro s a s' he
  cases he
  exact ⟨trivial, rfl, rfl⟩

theorem stopped (h : Host β) : Keeps (Vhost.stopped h) fun _ => True := by
  intro s a s' he
  cases he
  exact ⟨trivial, rfl, rfl⟩

theorem bytesOf (s : Slice) : Keeps (bytesOf s : Serve β (List UInt8)) fun _ => True := by
  intro s a s' he
  cases he
  exact ⟨trivial, rfl, rfl⟩

theorem note (a : Access) : Keeps (note a : Serve β Unit) fun _ => True := by
  intro s a s' he
  cases he
  exact ⟨trivial, rfl, rfl⟩

theorem get : Keeps (MonadState.get : Serve β (Machine β)) fun _ => True := by
  intro s a s' he
  cases he
  exact ⟨trivial, rfl, rfl⟩

theorem callLoaded (ensureLoaded : Nat → Nat → Nat → Option GoError) (off length : Nat) :
    Keeps (callLoaded ensureLoaded off length : Serve β Unit) fun _ => True :=
  get.bind fun _ _ => (failOn _ _).bind fun _ _ => note _

theorem callMark (h : Host β) (writable : Bool) (off length : Nat) :
    Keeps (callMark h writable off length) fun _ => True := by
  unfold Vhost.callMark
  split
  · exact pure trivial
  · exact (note _).bind fun _ _ => get.bind fun _ _ => failOn _ _

end Keeps

variable {segs : List Slice}

section Walk

variable (h : Host β)

theorem translate_keeps (addr length : Nat) (uva writable : Bool) :
    Keeps (translate h addr length uva writable) fun s => s.len = length := by
  refine (Keeps.poll h).bind fun _ _ => (Keeps.failOn _ _).bind fun _ _ => ?_
  split
  · exact .throw _
  refine (Keeps.failIf _ _).bind fun _ _ => ?_
  split
  · exact .throw _
  · refine (Keeps.failIf _ _).bind fun _ _ => (Keeps.callLoaded _ _ _).bind fun _ _ => ?_
    refine (Keeps.poll h).bind fun _ _ => (Keeps.failOn _ _).bind fun _ _ => ?_
    exact (Keeps.callMark h _ _ _).bind fun _ _ => .pure rfl

/-- Both lists hold only slices with bytes. -/
structure Chain.Filled (c : Chain) : Prop where
  reads : Vhost.Filled c.readSegs
  writes : Vhost.Filled c.writeSegs

theorem filled_append {s : Slice} (hf : Filled segs) (hs : 0 < s.len) : Filled (segs ++ [s]) := by
  intro seg hseg
  rcases List.mem_append.1 hseg with hm | hm
  · exact hf seg hm
  · rwa [List.mem_singleton.1 hm]

variable {c : Chain}

theorem appendSeg_keeps (d : VringDesc) (hc : c.Filled) : Keeps (appendSeg h c d) Chain.Filled := by
  refine .ite (fun _ => .pure hc) fun hlen => .ite (fun _ => ?_) fun _ => ?_
  · refine (translate_keeps h _ _ _ _).bind fun s hs => .pure ⟨hc.reads, filled_append hc.writes ?_⟩
    omega
  · refine (translate_keeps h _ _ _ _).bind fun s hs => .pure ⟨filled_append hc.reads ?_, hc.writes⟩
    omega

theorem appendIndirect_keeps (arr : Slice) (n i : Nat) (hc : c.Filled) :
    Keeps (appendIndirect h arr n i c) Chain.Filled := by
  induction n generalizing i c with
  | zero => exact .pure hc
  | succ n ih =>
    exact (Keeps.bytesOf _).bind fun _ _ => (appendSeg_keeps h _ hc).bind fun c hc => ih (i + 1) hc

theorem readDesc_keeps (q : Virtq) (idx : Nat) : Keeps (readDesc h q idx) fun _ => True :=
  (Keeps.failIf _ _).bind fun _ _ => (translate_keeps h _ _ _ _).bind fun _ _ =>
    (Keeps.bytesOf _).bind fun _ _ => .pure trivial

theorem walkFrom_keeps (q : Virtq) (fuel count idx : Nat) (hc : c.Filled) :
    Keeps (walkFrom h q fuel count idx c) Chain.Filled := by
  induction fuel generalizing count idx c with
  | zero => exact .throw _
  | succ fuel ih =>
    refine (Keeps.failIf _ _).bind fun _ _ => (readDesc_keeps h q idx).bind fun d _ => ?_
    refine .ite (fun _ => (Keeps.failIf _ _).bind fun _ _ => ?_) fun _ => ?_
    · refine (translate_keeps h _ _ _ _).bind fun arr _ =>
        (appendIndirect_keeps h arr _ 0 hc).bind fun c hc => ?_
      exact .ite (fun _ => ih _ _ hc) fun _ => .pure hc
    · refine (appendSeg_keeps h d hc).bind fun c hc => ?_
      exact .ite (fun _ => ih _ _ hc) fun _ => .pure hc

theorem walkChain_keeps (q : Virtq) (headIdx : Nat) : Keeps (walkChain h q headIdx) Chain.Filled :=
  walkFrom_keeps h q _ 0 headIdx ⟨by simp [Filled], by simp [Filled]⟩

/-- The chain that `walkChain` accepts when `processChain` calls it. -/
def Accepts (q : Virtq) (headIdx : Nat) (s : Machine β) (c : Chain) : Prop :=
  ∃ s', (unlessStopped h >>= fun _ => walkChain h q headIdx) s = .ok c s'

theorem Accepts.processChain {q : Virtq} {headIdx : Nat} {s : Machine β}
    (ha : Accepts h q headIdx s c) : c.Filled ∧ ∃ p t, processChain h q headIdx s =
      serveChain h c ⟨s.mem, s.disk, p, t⟩ := by
  obtain ⟨s', hs'⟩ := ha
  have hkeeps : Keeps (unlessStopped h >>= fun _ => walkChain h q headIdx) Chain.Filled :=
    Keeps.bind (Q := fun _ => True) ((Keeps.stopped h).bind fun e _ => by
      cases e with
      | none => exact .pure trivial
      | some e => exact .throw e) fun _ _ => walkChain_keeps h q headIdx
  obtain ⟨hc, hm, hd⟩ := hkeeps s c s' hs'
  refine ⟨hc, s'.polls, s'.trace, ?_⟩
  have heq : Vhost.processChain h q headIdx s =
      ((unlessStopped h >>= fun _ => walkChain h q headIdx) >>= serveChain h) s := by
    rw [bind_assoc]
    rfl
  rw [heq, ← hm, ← hd]
  show EStateM.bind _ _ s = _
  rw [EStateM.bind, hs']

end Walk

/-! ## The disk -/

def cowBlockSize : Nat := 4096

/-- What a device serves while nothing fails below it: a disk over the bytes `base`, or those
bytes alone. -/
structure Medium where
  size : Nat
  size_le : size ≤ 9223372036854775807
  base : Nat → UInt8
  readOnly : Bool

/-- The bytes that requests have put over the base. -/
abbrev Upper := Nat → Option UInt8

namespace Medium

variable (dev : Medium)

def bytes (d : Upper) (offset : Int) (n : Nat) : List UInt8 :=
  load (fun a => (d a).getD (dev.base a)) (List.range' offset.toNat n)

def readAt (d : Upper) (offset : Int) (buf : List UInt8) : ReadResult Upper :=
  if buf.length = 0 then ⟨buf, 0, if offset < 0 ∨ offset > dev.size then some .eof else none, d⟩
  else if offset < 0 ∨ offset ≥ dev.size then ⟨buf, 0, some .eof, d⟩
  else
    let n := min buf.length (dev.size - offset.toNat)
    ⟨dev.bytes d offset n ++ buf.drop n, n, none, d⟩

def writeAt (d : Upper) (offset : Int) (buf : List UInt8) : WriteResult Upper :=
  if dev.readOnly then ⟨0, some .readOnly, d⟩
  else if offset < 0 ∨ offset > dev.size ∨ (buf.length : Int) > dev.size - offset then
    ⟨0, some (.text
      s!"diffstore: write out of bounds: offset={offset} len={buf.length} size={dev.size}"), d⟩
  else ⟨buf.length, none, store d (List.range' offset.toNat buf.length) (buf.map some)⟩

/-- The blocks that the range covers whole become zero. -/
def discard (d : Upper) (offset length : Int) : Option GoError × Upper :=
  if dev.readOnly then (none, d)
  else if offset < 0 ∨ offset > dev.size ∨ length < 0 ∨ length > dev.size - offset then
    (some (.text s!"diffstore: discard out of bounds: off={offset} len={length} size={dev.size}"),
      d)
  else
    let startBlk := (offset.toNat + cowBlockSize - 1) / cowBlockSize
    let endBlk := (offset + length).toNat / cowBlockSize
    (none, fun a => if startBlk ≤ a / cowBlockSize ∧ a / cowBlockSize < endBlk then some 0 else d a)

/-- `CowBackend`, or `ReadOnlyBackend`. -/
def backend : Backend Upper where
  readAt := dev.readAt
  writeAt := dev.writeAt
  flush d := (none, d)
  discard := dev.discard
  supportsDiscard := !dev.readOnly
  size := dev.size
  readOnly := dev.readOnly

theorem backend_splits : dev.backend.Splits dev.bytes where
  read d offset buf hi := by
    refine ⟨none, ?_, rfl, fun _ => rfl⟩
    have hlow := hi.start
    have hhigh : offset + buf.length ≤ dev.size := hi.stop
    show dev.readAt d offset buf = _
    unfold readAt
    split
    next hz =>
      rw [if_neg (by omega)]
      simp [bytes, load, hz]
    next hz =>
      rw [if_neg (by omega), min_eq_left (by omega)]
      simp [bytes]
  read_le d offset n := by simp [bytes]
  read_add d offset m n hi := by
    have hpos := hi.start
    simp only [bytes, length_load, List.length_range', if_true]
    rw [← List.range'_append_1, load, List.map_append, Int.toNat_add hpos (Int.natCast_nonneg m),
      Int.toNat_natCast]
    rfl

/-- A write of `n` bytes is taken. -/
def Takes (offset : Int) (n : Nat) : Prop :=
  dev.readOnly = false ∧ 0 ≤ offset ∧ offset + n ≤ dev.size

instance (offset : Int) (n : Nat) : Decidable (dev.Takes offset n) := by
  unfold Takes
  infer_instance

theorem writeAt_takes (d : Upper) (offset : Int) (buf : List UInt8)
    (ht : dev.Takes offset buf.length) : dev.writeAt d offset buf =
      ⟨buf.length, none, store d (List.range' offset.toNat buf.length) (buf.map some)⟩ := by
  obtain ⟨hro, hlow, hhigh⟩ := ht
  unfold writeAt
  rw [hro, if_neg Bool.false_ne_true, if_neg (by omega)]

/-- What an OUT that is not taken is answered with. -/
def refusal : UInt8 := if dev.readOnly then blkStatusUnsupp else blkStatusIOErr

/-- The cells of the slices before the first that is not taken. -/
def taken (dev : Medium) (offset : Int) : List Slice → List Nat
  | [] => []
  | seg :: segs =>
    if dev.Takes offset seg.len then seg.cells ++ dev.taken (offset + seg.len) segs else []

theorem taken_prefix (offset : Int) (segs : List Slice) : dev.taken offset segs <+: cells segs := by
  induction segs generalizing offset with
  | nil => exact List.prefix_refl _
  | cons seg segs ih =>
    unfold taken
    split
    · exact (List.prefix_append_right_inj _).2 (ih _)
    · exact List.nil_prefix

end Medium

/-! ## What a request does to its streams -/

/-- What a request leaves: the status, the bytes at the front of the writable
stream, and the disk. -/
@[ext] structure Outcome (β : Type) where
  status : UInt8
  data : List UInt8
  disk : β

/-- The writable stream with the delivered bytes and the status in its last cell. -/
def Outcome.deliver (o : Outcome β) (cs : List Nat) (m : Nat → UInt8) : Nat → UInt8 :=
  store (store m cs o.data) (cs.drop (cs.length - 1)) [o.status]

section Outcomes

variable (h : Host β) (bytes : β → Int → Nat → List UInt8) (d : β)

/-- An IN of `total` bytes: all of them within the disk's whole sectors, or none. -/
def inOutcome (sector total : Nat) : Outcome β :=
  if total > maxUsedLen ∨ sector > 9223372036854775807 / sectorSize ∨ h.backend.size < 0 ∨
      (total : Int) > h.backend.size / sectorSize * sectorSize - (sector * sectorSize : Nat) then
    ⟨blkStatusIOErr, [], d⟩
  else
    let data := bytes d (sector * sectorSize : Nat) total
    ⟨if data.length = total then blkStatusOK else blkStatusIOErr, data, d⟩

def outOffset (sector : Nat) : Int := int64 (int64 sector * sectorSize)

def writeStatus : Option GoError → UInt8
  | none => blkStatusOK
  | some e => if isReadOnly e then blkStatusUnsupp else blkStatusIOErr

def flushOutcome : Outcome β :=
  ⟨if (h.backend.flush d).1.isSome then blkStatusIOErr else blkStatusOK, [], (h.backend.flush d).2⟩

def discardOutcome (payload : List UInt8) (space : Nat) : Outcome β :=
  if !h.discardSupported || !h.discardNegotiated || h.backend.readOnly || !h.backend.supportsDiscard
    then
    ⟨blkStatusUnsupp, [], d⟩
  else if payload.length ≠ 16 ∨ space ≠ 1 then ⟨blkStatusIOErr, [], d⟩
  else ⟨(discardRange h.backend d payload).1, [], (discardRange h.backend d payload).2⟩

/-- What the command of a header does with the payload and the writable space; `out` is what an
OUT does. -/
def commandOutcome (out : Outcome β) (hdr : BlkReqHeader) (payload : List UInt8) (space : Nat) :
    Outcome β :=
  match hdr.type with
  | .blkIn => inOutcome h bytes d hdr.sector (space - 1)
  | .out => out
  | .flush => flushOutcome h d
  | .discard => discardOutcome h d payload space
  | .other => ⟨blkStatusUnsupp, [], d⟩

end Outcomes

/-- An OUT writes the slices in turn, up to the first that is not taken. -/
def Medium.outOutcome (dev : Medium) (m : Nat → UInt8) (d : Upper) (offset : Int)
    (segs : List Slice) : Outcome Upper where
  status := if dev.taken offset segs = cells segs then blkStatusOK else dev.refusal
  data := []
  disk := store d (List.range' offset.toNat (dev.taken offset segs).length)
    ((load m (dev.taken offset segs)).map some)

/-- What a chain with the header does. -/
def Medium.chainOutcome (dev : Medium) (h : Host Upper) (m : Nat → UInt8) (d : Upper)
    (hdr : BlkReqHeader) (c : Chain) : Outcome Upper :=
  commandOutcome h dev.bytes d (dev.outOutcome m d (outOffset hdr.sector) c.readSegs.tail) hdr
    ((load m (cells c.readSegs)).drop 16) (cells c.writeSegs).length

/-! ## The commands -/

theorem cells_concat (init : List Slice) (last : Slice) :
    cells (init ++ [last]) = cells init ++ last.cells := by
  rw [cells_append]
  simp [cells]

theorem cells_withoutStatus (hf : Filled segs) :
    cells (withoutStatus segs) = (cells segs).dropLast := by
  rcases List.eq_nil_or_concat segs with rfl | ⟨init, last, rfl⟩
  · rfl
  have hlast : 0 < last.len := hf last (by simp)
  have hdrop : last.cells.dropLast = (last.take (last.len - 1)).cells := by
    rw [List.dropLast_eq_take, last.length_cells, last.cells_take (by omega)]
  have hne : last.cells ≠ [] := fun he => by
    have := congrArg List.length he
    simp at this
    omega
  simp only [withoutStatus, List.concat_eq_append, List.getLast?_concat, List.dropLast_concat]
  rw [cells_concat, List.dropLast_append_of_ne_nil hne, hdrop]
  split
  next hz => simp [Slice.cells, Slice.take, hz]
  · rw [cells_concat]

variable {rest : List Slice}

section Commands

variable {h : Host β} {bytes : β → Int → Nat → List UInt8} {m : Nat → UInt8} {d : β}

section Streams

variable (hq : h.Quiet) (hs : h.backend.Splits bytes)

include hq hs

/-- A read request delivers what the backend has, and fails in memory that it left short. -/
theorem readPayload_yields (sector : Nat) (segs : List Slice) :
    ∃ err, Yields (readPayload h sector segs) m d
        ((inOutcome h bytes d sector (cells segs).length).data.length, err)
        (store m (cells segs) (inOutcome h bytes d sector (cells segs).length).data) d ∧
      (inOutcome h bytes d sector (cells segs).length).status =
        (if err.isSome then blkStatusIOErr else blkStatusOK) ∧
      err.any isTerminal = false := by
  unfold inOutcome
  rcases readPayload_cases h sector segs with ⟨hbad, e, heq, hlive⟩ | ⟨hgood, heq⟩ <;>
    unfold Backend.Refuses at *
  · rw [heq, if_pos hbad, store_nil_right]
    exact ⟨_, .pure _, rfl, hlive⟩
  rw [heq, if_neg hgood]
  have hoff : ((sector * sectorSize : Nat) : Int) + (0 : Nat) = (sector * sectorSize : Nat) :=
    Int.add_zero _
  have hi : h.backend.Inside ((sector * sectorSize : Nat) + (0 : Nat)) (cells segs).length := by
    have hle : h.backend.size / (sectorSize : Int) * sectorSize ≤ h.backend.size :=
      Int.ediv_mul_le _ (by decide)
    rw [not_or, not_or, not_or] at hgood
    exact ⟨by omega, by omega⟩
  obtain ⟨err, hy, herr, hlive⟩ := readWindows_yields (m := m) hq hs
    (cells segs).length 0 segs le_rfl (Nat.zero_add (cells segs).length) hi
  rw [hoff, Nat.zero_add] at hy
  rw [hoff] at herr
  refine ⟨err, hy, ?_, hlive⟩
  cases err with
  | none => exact if_pos (herr.1 rfl)
  | some e => exact if_neg (mt herr.2 (by simp))

theorem serveIn_yields (sector : Nat) {c : Chain} (hf : Filled c.writeSegs) :
    let o := inOutcome h bytes d sector ((cells c.writeSegs).length - 1)
    Yields (serveIn h sector c) m d (o.status, o.data.length)
      (store m (cells c.writeSegs).dropLast o.data) d := by
  have hcells := cells_withoutStatus hf
  obtain ⟨err, hy, hstatus, hlive⟩ :=
    readPayload_yields hq hs sector (withoutStatus c.writeSegs)
  rw [hcells, List.length_dropLast] at hy hstatus
  intro o
  refine hy.bind ?_
  rw [hstatus]
  cases err with
  | none => exact .pure _
  | some e =>
    simp only [Option.any_some] at hlive
    simp only [hlive, Bool.false_eq_true, if_false, Option.isSome_some, if_true]
    exact .pure _

end Streams

variable {seg : Slice} {segs : List Slice}

theorem filled_tail (hf : Filled (seg :: segs)) : Filled segs :=
  fun s hs => hf s (.tail _ hs)

theorem writeSegments_cons (hq : h.Quiet) {offset : Int}
    {r : WriteResult β} (hr : h.backend.writeAt d offset (load m seg.cells) = r)
    (hlive : r.err.any isTerminal = false) {status : UInt8} {d' : β}
    (hrest : if r.err.isSome then writeStatus r.err = status ∧ r.disk = d'
      else Yields (writeSegments h segs (int64 (offset + r.n))) m r.disk status m d') :
    Yields (writeSegments h (seg :: segs) offset) m d status m d' := by
  refine (bytesOf_yields seg).bind ((writeBackendAt_yields _ _).bind ?_)
  rw [hr]
  obtain ⟨n, err, disk⟩ := r
  cases err with
  | some e =>
    obtain ⟨rfl, rfl⟩ := hrest
    simp only [Option.any_some] at hlive
    simp only [hlive, Bool.false_eq_true, if_false]
    exact hq.stopped.bind (.pure _)
  | none => exact hq.stopped.bind hrest

variable {first : Slice} {writes : List Slice}

/-- A DISCARD collects its range if the payload has no more than sixteen bytes. -/
theorem rangeBytes_yields (segs : List Slice) (bytes : List UInt8) (hb : bytes.length ≤ 16) :
    Yields (rangeBytes segs bytes) m d
      (if (bytes ++ load m (cells segs)).length ≤
        16 then some (bytes ++ load m (cells segs)) else none)
      m d := by
  induction segs generalizing bytes with
  | nil =>
    have hnil : bytes ++ load m (cells []) = bytes := List.append_nil _
    rw [hnil, if_pos hb]
    exact .pure _
  | cons seg segs ih =>
    have happ : bytes ++ load m (cells (seg :: segs)) =
        (bytes ++ load m seg.cells) ++ load m (cells segs) := by
      rw [cells_cons, load, List.map_append, ← List.append_assoc]
      rfl
    unfold rangeBytes
    by_cases hlen : seg.len > 16 - bytes.length
    · rw [if_pos hlen, if_neg (by simp; omega)]
      exact .pure _
    rw [if_neg hlen, happ]
    refine (bytesOf_yields seg).bind (ih _ ?_)
    simp
    omega

theorem discardChain_yields (rest : List Slice) (hfirst : 16 ≤ first.len) (hf : Filled writes) :
    let payload := (load m (cells (first :: rest))).drop 16
    Yields (discardChain h ⟨first :: rest, writes⟩) m d
      (if payload.length ≠ 16 ∨ (cells writes).length ≠ 1 then blkStatusIOErr
        else (discardRange h.backend d payload).1) m
      (if payload.length ≠ 16 ∨ (cells writes).length ≠ 1 then d
        else (discardRange h.backend d payload).2) := by
  intro payload
  have hpay : load m (cells (first.drop 16 :: rest)) = payload := by
    simp only [payload, load, cells_cons, first.cells_drop, List.map_append, List.map_drop]
    rw [List.drop_append_of_le_length (by simpa using hfirst)]
  have hone : writes.map Slice.len = [1] ↔ (cells writes).length = 1 := by
    rcases writes with _ | ⟨w, _ | ⟨v, rest⟩⟩
    · simp
    · simp
    have hw := hf w (by simp)
    have hv := hf v (by simp)
    simp
    omega
  have hrange := rangeBytes_yields (m := m) (d := d) (first.drop 16 :: rest) [] (by decide)
  rw [List.nil_append, hpay] at hrange
  refine hrange.bind ?_
  by_cases hle : payload.length ≤ 16
  · rw [if_pos hle]
    simp only [hone, Ne]
    by_cases hbad : ¬payload.length = 16 ∨ ¬(cells writes).length = 1
    · simp only [hbad, if_true]
      exact .pure _
    · simp only [hbad, if_false]
      exact fun p t => ⟨p, t, rfl⟩
  · rw [if_neg hle, if_pos (by omega), if_pos (by omega)]
    exact .pure _

theorem serveDiscard_yields (hfirst : 16 ≤ first.len) (hf : Filled writes) :
    let o := discardOutcome h d ((load m (cells (first :: rest))).drop 16) (cells writes).length
    Yields (serveDiscard h ⟨first :: rest, writes⟩) m d o.status m o.disk := by
  have hy := discardChain_yields (m := m) (d := d) (h := h) rest hfirst hf
  unfold serveDiscard discardOutcome
  split
  · exact .pure _
  · split
    next hbad => simpa only [hbad, if_true] using hy
    next hgood => simpa only [hgood, if_false] using hy

/-- A command without data leaves the writable stream to the status. -/
theorem Yields.withoutData {x : Serve β UInt8} {o : Outcome β} (cs : List Nat)
    (hx : Yields x m d o.status m o.disk) (ho : o.data = []) :
    Yields (do return (← x, 0)) m d (o.status, o.data.length) (store m cs o.data) o.disk := by
  rw [ho, store_nil_right]
  exact hx.bind (.pure _)

end Commands

section Out

variable {dev : Medium} {h : Host Upper} {m : Nat → UInt8}

/-- The write loop, from an offset that fits an `int64`. -/
theorem writeSegments_yields (hq : h.Quiet) (hb : h.backend = dev.backend) (offset : Int)
    (d : Upper) (hf : Filled segs) : Yields (writeSegments h segs offset) m d
      (dev.outOutcome m d offset segs).status m (dev.outOutcome m d offset segs).disk := by
  induction segs generalizing offset d with
  | nil => exact .pure _
  | cons seg segs ih =>
    have hlen : (load m seg.cells).length = seg.len := by simp
    have hseg : 0 < seg.len := hf seg (.head _)
    have hr : h.backend.writeAt d offset (load m seg.cells) =
        dev.writeAt d offset (load m seg.cells) := by
      rw [hb]
      rfl
    by_cases ht : dev.Takes offset seg.len
    · have hw := dev.writeAt_takes d offset (load m seg.cells) (by rwa [hlen])
      rw [hw, hlen] at hr
      have hnext : int64 (offset + seg.len) = offset + seg.len := by
        obtain ⟨-, hlow, hhigh⟩ := ht
        have hsize := dev.size_le
        exact Int.bmod_eq_of_le (by omega) (by omega)
      have hrest := ih (offset + seg.len)
        (store d (List.range' offset.toNat seg.len) ((load m seg.cells).map some)) (filled_tail hf)
      refine writeSegments_cons hq hr rfl ?_
      simp only [Option.isSome_none, Bool.false_eq_true, if_false]
      rw [hnext]
      have hto : (offset + seg.len).toNat = offset.toNat + seg.len :=
        Int.toNat_add_nat ht.2.1 _
      have hstatus : (dev.outOutcome m d offset (seg :: segs)).status = (dev.outOutcome m
          (store d (List.range' offset.toNat seg.len) ((load m seg.cells).map some))
          (offset + seg.len) segs).status := by
        simp only [Medium.outOutcome, Medium.taken, if_pos ht, cells_cons,
          List.append_cancel_left_eq]
      have hdisk : (dev.outOutcome m d offset (seg :: segs)).disk = (dev.outOutcome m
          (store d (List.range' offset.toNat seg.len) ((load m seg.cells).map some))
          (offset + seg.len) segs).disk := by
        simp only [Medium.outOutcome, Medium.taken, if_pos ht, List.length_append, seg.length_cells,
          hto, ← List.range'_append_1]
        rw [load, List.map_append, List.map_append, store_append _ _ _ _ (by simp),
          store_cut _ _ _ _ (by simp), List.drop_left' (by simp)]
        rfl
      rw [hstatus, hdisk]
      exact hrest
    · have hnil : dev.taken offset (seg :: segs) = [] := if_neg ht
      have hne : [] ≠ cells (seg :: segs) := fun he => by
        have := congrArg List.length he
        simp at this
        omega
      have hdisk : (dev.outOutcome m d offset (seg :: segs)).disk = d := by
        simp [Medium.outOutcome, hnil]
      have hstatus : (dev.outOutcome m d offset (seg :: segs)).status = dev.refusal := by
        simp only [Medium.outOutcome, hnil, if_neg hne]
      rw [hdisk, hstatus]
      unfold Medium.Takes at ht
      unfold Medium.writeAt at hr
      by_cases hro : dev.readOnly = true
      · rw [if_pos hro] at hr
        refine writeSegments_cons hq hr rfl ?_
        simp [writeStatus, Medium.refusal, hro, isReadOnly]
      · have hout : offset < 0 ∨ offset > dev.size ∨
            ((load m seg.cells).length : Int) > dev.size - offset := by
          rw [hlen]
          simp only [Bool.not_eq_true] at hro
          simp only [hro, true_and] at ht
          omega
        rw [if_neg hro, if_pos hout] at hr
        refine writeSegments_cons hq hr rfl ?_
        simp [writeStatus, Medium.refusal, hro, isReadOnly]

end Out

/-! ## Requests -/

/-- The length of the first readable slice. -/
def Chain.header (c : Chain) : Nat := (c.readSegs.head?.map Slice.len).getD 0

theorem parseBlkReqHeader_append {xs : List UInt8} (ys : List UInt8) (hx : 16 ≤ xs.length) :
    parseBlkReqHeader (xs ++ ys) = parseBlkReqHeader xs := by
  have h₄ : (xs ++ ys).take 4 = xs.take 4 := List.take_append_of_le_length (by omega)
  have h₈ : ((xs ++ ys).drop 8).take 8 = (xs.drop 8).take 8 := by
    rw [List.drop_append_of_le_length (by omega), List.take_append_of_le_length (by simp; omega)]
  simp only [parseBlkReqHeader, List.length_append, h₄, h₈]
  rw [if_neg (by omega), if_neg (by omega)]

/-- The last slice's last cell is the last of the stream. -/
theorem cells_status {last : Slice} (hf : Filled segs) (hl : segs.getLast? = some last) :
    (last.drop (last.len - 1)).cells = (cells segs).drop ((cells segs).length - 1) := by
  obtain ⟨init, rfl⟩ := List.getLast?_eq_some_iff.1 hl
  have hpos := hf last (by simp)
  rw [last.cells_drop, cells_concat, List.length_append, last.length_cells,
    show (cells init).length + last.len - 1 = (cells init).length + (last.len - 1) from by omega,
    List.drop_length_add_append]

section Requests

variable {h : Host β} {bytes : β → Int → Nat → List UInt8} {m : Nat → UInt8} {d : β}

theorem inOutcome_data (hs : h.backend.Splits bytes) (sector total : Nat) :
    (inOutcome h bytes d sector total).data.length ≤ total := by
  unfold inOutcome
  split
  · exact Nat.zero_le _
  · exact hs.read_le ..

theorem discardOutcome_data (payload : List UInt8) (space : Nat) :
    (discardOutcome h d payload space).data = [] := by
  unfold discardOutcome
  split
  · rfl
  · split <;> rfl

theorem inOutcome_disk (sector total : Nat) : (inOutcome h bytes d sector total).disk = d := by
  unfold inOutcome
  split <;> rfl

theorem cells_eq_nil (hf : Filled segs) (hz : (cells segs).length = 0) : segs = [] := by
  cases segs with
  | nil => rfl
  | cons seg segs =>
    have := hf seg (by simp)
    simp at hz
    omega

theorem countStats_yields (status : Slice) : Yields (countStats h status) m d () m d := by
  unfold countStats
  split
  · exact (bytesOf_yields status).bind (.pure ())
  · exact .pure ()

end Requests

section Requests

variable {h : Host Upper} {dev : Medium} {m : Nat → UInt8} {d : Upper} (hq : h.Quiet)
  (hb : h.backend = dev.backend)

include hq hb

/-- The command of a request, on the streams. -/
theorem serveCommand_yields {first : Slice} {writes : List Slice}
    (hc : Chain.Filled ⟨first :: rest, writes⟩) (hdr : BlkReqHeader) (hfirst : 16 ≤ first.len) :
    let o := dev.chainOutcome h m d hdr ⟨first :: rest, writes⟩
    Yields (serveCommand h hdr ⟨first :: rest, writes⟩) m d (o.status, o.data.length)
      (store m (cells writes) o.data) o.disk := by
  have hs : h.backend.Splits dev.bytes := hb ▸ dev.backend_splits
  unfold serveCommand Medium.chainOutcome commandOutcome
  cases htype : hdr.type with
  | blkIn =>
    have hle := inOutcome_data (d := d) hs hdr.sector ((cells writes).length - 1)
    have hcut : (cells writes).dropLast ++ (cells writes).drop ((cells writes).length - 1) =
        cells writes := by rw [List.dropLast_eq_take, List.take_append_drop]
    have hstore := store_cut m (cells writes).dropLast
      ((cells writes).drop ((cells writes).length - 1))
      (inOutcome h dev.bytes d hdr.sector ((cells writes).length - 1)).data (by simpa using hle)
    rw [hcut] at hstore
    simp only [inOutcome_disk, hstore]
    exact serveIn_yields hq hs hdr.sector hc.writes
  | out => exact (writeSegments_yields hq hb _ d (filled_tail hc.reads)).withoutData _ rfl
  | flush =>
    have hy : Yields (serveFlush h) m d (flushOutcome h d).status m (flushOutcome h d).disk :=
      fun p t => ⟨p, t, rfl⟩
    exact hy.withoutData _ rfl
  | discard => exact (serveDiscard_yields hfirst hc.writes).withoutData _ (discardOutcome_data ..)
  | other =>
    simp only [store_nil_right]
    exact .pure _

/-- A chain whose header is whole is served. -/
theorem serveChain_yields {c : Chain} (hc : c.Filled) (hheader : 16 ≤ c.header)
    (hspace : (cells c.writeSegs).length ≠ 0) :
    ∃ hdr, parseBlkReqHeader (load m (cells c.readSegs)) = .ok hdr ∧
      let o := dev.chainOutcome h m d hdr c
      Yields (serveChain h c) m d (o.data.length + 1) (o.deliver (cells c.writeSegs) m) o.disk := by
  obtain ⟨reads, writes⟩ := c
  cases reads with
  | nil => exact absurd hheader (Nat.not_succ_le_zero _)
  | cons first rest =>
    have hfirst : 16 ≤ first.len := hheader
    have happ : load m (cells (first :: rest)) = load m first.cells ++ load m (cells rest) :=
      List.map_append
    obtain ⟨hdr, hhdr⟩ : ∃ hdr, parseBlkReqHeader (load m first.cells) = .ok hdr :=
      ⟨_, if_neg (by simp; omega)⟩
    refine ⟨hdr, by rw [happ, parseBlkReqHeader_append _ (by simpa using hfirst), hhdr], ?_⟩
    cases hlast : writes.getLast? with
    | none =>
      obtain rfl := List.getLast?_eq_none_iff.1 hlast
      exact absurd rfl hspace
    | some last =>
      simp only [serveChain, hlast]
      refine (bytesOf_yields first).bind ?_
      rw [hhdr]
      refine (Yields.pure hdr).bind ((serveCommand_yields hq hb hc hdr hfirst).bind
        (hq.unlessStopped.bind ?_))
      rw [Outcome.deliver, ← cells_status hc.writes hlast]
      exact (copyTo_yields _ _).bind ((countStats_yields _).bind (.pure _))

omit hq hb in
/-- A chain without a whole header in its first slice, or without space, is refused. -/
theorem serveChain_refuses {c : Chain} (hc : c.Filled)
    (hbad : c.header < 16 ∨ (cells c.writeSegs).length = 0) (p : Nat) (t : List Access) :
    ∃ e t', isTerminal e = false ∧ serveChain h c ⟨m, d, p, t⟩ = .error e ⟨m, d, p, t'⟩ := by
  obtain ⟨reads, writes⟩ := c
  cases reads with
  | nil => exact ⟨_, t, rfl, rfl⟩
  | cons first rest =>
    cases hlast : writes.getLast? with
    | none =>
      obtain rfl := List.getLast?_eq_none_iff.1 hlast
      exact ⟨_, t, rfl, rfl⟩
    | some last =>
      have hspace : (cells writes).length ≠ 0 := fun hz => by
        have hnil : writes = [] := cells_eq_nil hc.writes hz
        rw [hnil] at hlast
        cases hlast
      have hfirst : first.len < 16 := hbad.resolve_right hspace
      refine ⟨.text s!"vhost: blk req header too short: {(load m first.cells).length}",
        .read first :: t, rfl, ?_⟩
      have hparse : parseBlkReqHeader (load m first.cells) = .error
          (.text s!"vhost: blk req header too short: {(load m first.cells).length}") :=
        if_pos (by simpa using hfirst)
      simp only [serveChain, hlast]
      show EStateM.bind _ _ _ = _
      simp only [EStateM.bind, bytesOf, hparse]
      rfl

end Requests

/-- The request completes with `o`: the used length, the writable stream and the disk. -/
def Completes (h : Host β) (q : Virtq) (headIdx : Nat) (s : Machine β) (c : Chain) (o : Outcome β) :
    Prop :=
  ∃ p t, processChain h q headIdx s =
    .ok (o.data.length + 1) ⟨o.deliver (cells c.writeSegs) s.mem, o.disk, p, t⟩

/-- The request is refused: nothing is written, and its used length is 0. -/
def Refused (h : Host β) (q : Virtq) (headIdx : Nat) (s : Machine β) : Prop :=
  ∃ e p t, isTerminal e = false ∧ processChain h q headIdx s = .error e ⟨s.mem, s.disk, p, t⟩

section Requests

variable {h : Host β} {q : Virtq} {headIdx : Nat} {s : Machine β} {c : Chain} {o o' : Outcome β}

theorem Completes.not_refused (hc : Completes h q headIdx s c o) : ¬Refused h q headIdx s := by
  obtain ⟨p, t, hp⟩ := hc
  rintro ⟨e, p', t', -, he⟩
  rw [hp] at he
  cases he

/-- A request that delivers nothing completes in one way. -/
theorem Completes.eq (hc : Completes h q headIdx s c o) (hc' : Completes h q headIdx s c o')
    (hspace : (cells c.writeSegs).length ≠ 0) (hdata : o'.data = []) : o = o' := by
  obtain ⟨p, t, hp⟩ := hc
  obtain ⟨p', t', hp'⟩ := hc'
  rw [hp] at hp'
  simp only [EStateM.Result.ok.injEq, Machine.mk.injEq, Nat.add_right_cancel_iff] at hp'
  obtain ⟨hlen, hmem, hdisk, -, -⟩ := hp'
  have hnil : o.data = [] := List.length_eq_zero_iff.1 (by rw [hlen, hdata]; rfl)
  obtain ⟨init, last, hlast⟩ : ∃ init last, cells c.writeSegs = init ++ [last] := by
    rcases List.eq_nil_or_concat (cells c.writeSegs) with hz | ⟨init, last, hl⟩
    · exact absurd (congrArg List.length hz) hspace
    · exact ⟨init, last, by rw [hl, List.concat_eq_append]⟩
  have hstatus := congrFun hmem last
  simp only [Outcome.deliver, hnil, hdata, store_nil_right, hlast, List.length_append,
    List.length_singleton, Nat.add_sub_cancel, List.drop_left, store_cons,
    Function.update_self] at hstatus
  cases o
  cases o'
  simp_all

end Requests

/-- What two requests with the same streams have in common: both complete with the same status and
data and leave the same on the disk, or both are refused; and an OUT that completes with OK has
written its payload. -/
def ServedAlike (h : Host Upper) (q₁ q₂ : Virtq) (head₁ head₂ : Nat) (s₁ s₂ : Machine Upper)
    (c₁ c₂ : Chain) : Prop :=
  (∃ o, Completes h q₁ head₁ s₁ c₁ o ∧ Completes h q₂ head₂ s₂ c₂ o ∧
    ∀ hdr, parseBlkReqHeader (load s₁.mem (cells c₁.readSegs)) = .ok hdr → hdr.type = .out →
      o.status = blkStatusOK →
      let payload := (load s₁.mem (cells c₁.readSegs)).drop 16
      load o.disk (List.range' (outOffset hdr.sector).toNat payload.length) = payload.map some) ∨
  Refused h q₁ head₁ s₁ ∧ Refused h q₂ head₂ s₂

/-- The framings that make no difference to an OUT at `offset`: as much of what follows the header's
descriptor lies on the disk before the first descriptor that does not, and if that is all of it
then the header has that descriptor for itself. -/
def Medium.OutAlike (dev : Medium) (offset : Int) (m₁ m₂ : Nat → UInt8) (c₁ c₂ : Chain) : Prop :=
  load m₁ (dev.taken offset c₁.readSegs.tail) = load m₂ (dev.taken offset c₂.readSegs.tail) ∧
    (dev.taken offset c₁.readSegs.tail = cells c₁.readSegs.tail ∨
        dev.taken offset c₂.readSegs.tail = cells c₂.readSegs.tail →
      c₁.header = 16 ∧ c₂.header = 16)

/-- The framings that make no difference: the header is whole in the first descriptor of both or
of none, and an OUT is `OutAlike`. Without space for a status there is no difference. -/
def Medium.FramedAlike (dev : Medium) (m₁ m₂ : Nat → UInt8) (c₁ c₂ : Chain) : Prop :=
  (cells c₁.writeSegs).length ≠ 0 → (16 ≤ c₁.header ↔ 16 ≤ c₂.header) ∧
    (16 ≤ c₁.header → ∀ hdr, parseBlkReqHeader (load m₁ (cells c₁.readSegs)) = .ok hdr →
      hdr.type = .out → dev.OutAlike (outOffset hdr.sector) m₁ m₂ c₁ c₂)

section Alike

/-- What a write leaves on an untouched disk. -/
def written (start : Nat) (xs : List UInt8) : Upper :=
  store (fun _ => none) (List.range' start xs.length) (xs.map some)

variable {start n : Nat} {xs ys : List UInt8}

theorem load_written (start : Nat) (xs : List UInt8) :
    load (written start xs) (List.range' start xs.length) = xs.map some := by
  have hload := load_store (fun _ => none) (List.nodup_range' (s := start) (n := xs.length))
    (xs.map some) (n := xs.length) (by simp) (by simp)
  rwa [List.take_of_length_le (by simp), List.take_of_length_le (by simp)] at hload

theorem le_of_load_written (heq : load (written start xs) (List.range' start n) = ys.map some) :
    n ≤ xs.length := by
  by_contra hlt
  have hnone : written start xs (start + xs.length) = none :=
    store_of_notMem _ _ _ (by simp)
  have hmem : written start xs (start + xs.length) ∈ ys.map some :=
    heq ▸ List.mem_map_of_mem (by simp; omega)
  rw [hnone] at hmem
  simp at hmem

theorem written_inj (heq : written start xs = written start ys) : xs = ys := by
  have hx := load_written start xs
  have hy := load_written start ys
  have hlen : xs.length = ys.length :=
    le_antisymm (le_of_load_written (heq ▸ hx)) (le_of_load_written (heq ▸ hy))
  rw [heq, hlen, hy] at hx
  exact (List.map_injective_iff.2 (fun _ _ => Option.some.inj) hx).symm

variable {dev : Medium} {offset : Int} {m m₁ m₂ : Nat → UInt8} {segs : List Slice}

theorem Medium.outOutcome_disk : (dev.outOutcome m (fun _ => none) offset segs).disk =
    written offset.toNat (load m (dev.taken offset segs)) := by
  rw [written, length_load]
  rfl

theorem Medium.outOutcome_ok : (dev.outOutcome m (fun _ => none) offset segs).status =
    blkStatusOK ↔ dev.taken offset segs = cells segs := by
  have hne : dev.refusal ≠ blkStatusOK := by
    unfold Medium.refusal
    split <;> decide
  simp [Medium.outOutcome, hne]

/-- The header's descriptor and the rest. -/
theorem Chain.length_reads {c : Chain} (hheader : 16 ≤ c.header) :
    (cells c.readSegs).length = c.header + (cells c.readSegs.tail).length := by
  obtain ⟨reads, writes⟩ := c
  cases reads with
  | nil => exact absurd hheader (Nat.not_succ_le_zero _)
  | cons first rest => simp [Chain.header]

/-- A header that has its descriptor for itself is followed by the payload. -/
theorem Chain.load_tail {c : Chain} (hheader : c.header = 16) :
    (load m (cells c.readSegs)).drop 16 = load m (cells c.readSegs.tail) := by
  obtain ⟨reads, writes⟩ := c
  cases reads with
  | nil => rfl
  | cons first rest =>
    have hlen : first.len = 16 := hheader
    rw [cells_cons, load, List.map_append]
    exact List.drop_left' (by simp [hlen])

variable {c₁ c₂ : Chain}
  (hread : load m₁ (cells c₁.readSegs) = load m₂ (cells c₂.readSegs))

include hread

/-- Two OUTs leave the same, with the payload written if that is OK, exactly if they are framed
alike. -/
theorem Medium.outAlike_iff (h₁ : 16 ≤ c₁.header) (h₂ : 16 ≤ c₂.header) (offset : Int) :
    let o := dev.outOutcome m₁ (fun _ => none) offset c₁.readSegs.tail
    let payload := (load m₁ (cells c₁.readSegs)).drop 16
    (o = dev.outOutcome m₂ (fun _ => none) offset c₂.readSegs.tail ∧
      (o.status = blkStatusOK →
        load o.disk (List.range' offset.toNat payload.length) = payload.map some)) ↔
    dev.OutAlike offset m₁ m₂ c₁ c₂ := by
  intro o payload
  have hlen := congrArg List.length hread
  rw [length_load, length_load, Chain.length_reads h₁, Chain.length_reads h₂] at hlen
  have hpay : payload.length = c₁.header + (cells c₁.readSegs.tail).length - 16 := by
    simp only [payload, List.length_drop, length_load, Chain.length_reads h₁]
  constructor
  · rintro ⟨heq, hwritten⟩
    have hload := congrArg Outcome.disk heq
    rw [Medium.outOutcome_disk, Medium.outOutcome_disk] at hload
    replace hload := written_inj hload
    refine ⟨hload, fun hall => ?_⟩
    have hok : o.status = blkStatusOK := hall.elim Medium.outOutcome_ok.2 fun h =>
      heq ▸ Medium.outOutcome_ok.2 h
    have hall₁ := Medium.outOutcome_ok.1 hok
    have hall₂ := Medium.outOutcome_ok.1 (heq ▸ hok)
    have hle := hwritten hok
    rw [Medium.outOutcome_disk] at hle
    replace hle := le_of_load_written hle
    rw [hall₁, hall₂] at hload
    have hlens := congrArg List.length hload
    rw [length_load, length_load] at hlens
    rw [hall₁, length_load] at hle
    omega
  · rintro ⟨hload, halone⟩
    have hboth : dev.taken offset c₁.readSegs.tail = cells c₁.readSegs.tail ↔
        dev.taken offset c₂.readSegs.tail = cells c₂.readSegs.tail := by
      have hlens := congrArg List.length hload
      rw [length_load, length_load] at hlens
      constructor
      · intro hall
        have halone := halone (.inl hall)
        refine (dev.taken_prefix _ _).eq_of_length ?_
        rw [← hlens, hall]
        omega
      · intro hall
        have halone := halone (.inr hall)
        refine (dev.taken_prefix _ _).eq_of_length ?_
        rw [hlens, hall]
        omega
    have hdisk : o.disk = (dev.outOutcome m₂ (fun _ => none) offset c₂.readSegs.tail).disk := by
      rw [Medium.outOutcome_disk, Medium.outOutcome_disk, hload]
    have hstatus : o.status =
        (dev.outOutcome m₂ (fun _ => none) offset c₂.readSegs.tail).status := by
      simp only [o, Medium.outOutcome, hboth]
    refine ⟨Outcome.ext hstatus rfl hdisk, fun hok => ?_⟩
    have hall := Medium.outOutcome_ok.1 hok
    have hpayload : payload = load m₁ (dev.taken offset c₁.readSegs.tail) := by
      rw [hall]
      exact Chain.load_tail (halone (.inl hall)).1
    rw [Medium.outOutcome_disk, hpayload]
    exact load_written ..

end Alike

section Framings

variable {h : Host Upper} {dev : Medium} {q₁ q₂ : Virtq} {head₁ head₂ : Nat} {s₁ s₂ : Machine Upper}
  {c₁ c₂ : Chain}

/-- Requests that both complete are served alike if they complete alike. -/
theorem servedAlike_iff {o₁ o₂ : Outcome Upper} (hc₁ : Completes h q₁ head₁ s₁ c₁ o₁)
    (hc₂ : Completes h q₂ head₂ s₂ c₂ o₂) (hspace : (cells c₁.writeSegs).length ≠ 0)
    (hwrite : (cells c₁.writeSegs).length = (cells c₂.writeSegs).length) (hdata₁ : o₁.data = [])
    (hdata₂ : o₂.data = []) {hdr : BlkReqHeader}
    (hhdr : parseBlkReqHeader (load s₁.mem (cells c₁.readSegs)) = .ok hdr)
    (htype : hdr.type = .out) :
    ServedAlike h q₁ q₂ head₁ head₂ s₁ s₂ c₁ c₂ ↔ o₁ = o₂ ∧ (o₁.status = blkStatusOK →
      let payload := (load s₁.mem (cells c₁.readSegs)).drop 16
      load o₁.disk (List.range' (outOffset hdr.sector).toNat payload.length) =
        payload.map some) := by
  constructor
  · rintro (⟨o, ho₁, ho₂, hpay⟩ | ⟨hr, -⟩)
    · obtain rfl := ho₁.eq hc₁ hspace hdata₁
      exact ⟨ho₂.eq hc₂ (hwrite ▸ hspace) hdata₂, hpay hdr hhdr htype⟩
    · exact absurd hr hc₁.not_refused
  · rintro ⟨rfl, hpay⟩
    refine .inl ⟨o₁, hc₁, hc₂, fun hdr' hhdr' _ => ?_⟩
    cases hhdr.symm.trans hhdr'
    exact hpay

theorem Accepts.completes {q : Virtq} {headIdx : Nat} {s : Machine Upper} {c : Chain}
    (hq : h.Quiet) (hb : h.backend = dev.backend) (ha : Accepts h q headIdx s c)
    (hheader : 16 ≤ c.header) (hspace : (cells c.writeSegs).length ≠ 0) :
    ∃ hdr, parseBlkReqHeader (load s.mem (cells c.readSegs)) = .ok hdr ∧
      Completes h q headIdx s c (dev.chainOutcome h s.mem s.disk hdr c) := by
  obtain ⟨hc, p, t, hp⟩ := ha.processChain
  obtain ⟨hdr, hhdr, hy⟩ := serveChain_yields (m := s.mem) (d := s.disk) hq hb hc hheader hspace
  obtain ⟨p', t', hp'⟩ := hy p t
  exact ⟨hdr, hhdr, p', t', hp.trans hp'⟩

theorem Accepts.refused {q : Virtq} {headIdx : Nat} {s : Machine Upper} {c : Chain}
    (ha : Accepts h q headIdx s c) (hbad : c.header < 16 ∨ (cells c.writeSegs).length = 0) :
    Refused h q headIdx s := by
  obtain ⟨hc, p, t, hp⟩ := ha.processChain
  obtain ⟨e, t', he, hp'⟩ := serveChain_refuses (h := h) (m := s.mem) (d := s.disk) hc hbad p t
  exact ⟨e, p, t', he, hp.trans hp'⟩

/-- Two chains with the same readable bytes and as much writable space are served alike exactly if
they are framed alike. -/
theorem request_framing_independent (hq : h.Quiet) (hb : h.backend = dev.backend)
    (ha₁ : Accepts h q₁ head₁ s₁ c₁) (ha₂ : Accepts h q₂ head₂ s₂ c₂)
    (hread : load s₁.mem (cells c₁.readSegs) = load s₂.mem (cells c₂.readSegs))
    (hwrite : (cells c₁.writeSegs).length = (cells c₂.writeSegs).length)
    (hd₁ : s₁.disk = fun _ => none) (hd₂ : s₂.disk = fun _ => none) :
    ServedAlike h q₁ q₂ head₁ head₂ s₁ s₂ c₁ c₂ ↔ dev.FramedAlike s₁.mem s₂.mem c₁ c₂ := by
  by_cases hspace : (cells c₁.writeSegs).length = 0
  · exact iff_of_true (.inr ⟨ha₁.refused (.inr hspace), ha₂.refused (.inr (hwrite ▸ hspace))⟩)
      fun hne => absurd hspace hne
  unfold Medium.FramedAlike
  rw [forall_prop_of_true hspace]
  by_cases h₁ : 16 ≤ c₁.header <;> by_cases h₂ : 16 ≤ c₂.header
  · obtain ⟨hdr, hhdr, hc₁⟩ := ha₁.completes hq hb h₁ hspace
    obtain ⟨hdr₂, hhdr₂, hc₂⟩ := ha₂.completes hq hb h₂ (hwrite ▸ hspace)
    rw [← hread, hhdr] at hhdr₂
    cases hhdr₂
    rw [hd₁] at hc₁
    rw [hd₂] at hc₂
    by_cases htype : hdr.type = .out
    · have hout : ∀ {c : Chain} {m}, dev.chainOutcome h m (fun _ => none) hdr c =
          dev.outOutcome m (fun _ => none) (outOffset hdr.sector) c.readSegs.tail := by
        intro c m
        simp only [Medium.chainOutcome, commandOutcome, htype]
      rw [hout] at hc₁ hc₂
      refine (servedAlike_iff hc₁ hc₂ hspace hwrite rfl rfl hhdr htype).trans
        ((dev.outAlike_iff hread h₁ h₂ _).trans ⟨fun ho => ⟨iff_of_true h₁ h₂, ?_⟩, fun ho => ?_⟩)
      · intro _ hdr' hhdr' _
        cases hhdr.symm.trans hhdr'
        exact ho
      · exact ho.2 h₁ hdr hhdr htype
    · refine iff_of_true (.inl ⟨_, hc₁, ?_, fun hdr' hhdr' ht => ?_⟩)
        ⟨iff_of_true h₁ h₂, fun _ hdr' hhdr' ht => ?_⟩
      · have hsame : dev.chainOutcome h s₁.mem (fun _ => none) hdr c₁ =
            dev.chainOutcome h s₂.mem (fun _ => none) hdr c₂ := by
          simp only [Medium.chainOutcome, hread, hwrite]
          unfold commandOutcome
          split
          · rfl
          next hto => exact absurd hto htype
          all_goals rfl
        rw [hsame]
        exact hc₂
      all_goals
        cases hhdr.symm.trans hhdr'
        exact absurd ht htype
  · obtain ⟨hdr, -, hc₁⟩ := ha₁.completes hq hb h₁ hspace
    refine iff_of_false (fun hs => ?_) fun hf => h₂ (hf.1.1 h₁)
    rcases hs with ⟨o, -, ho₂, -⟩ | hr
    · exact ho₂.not_refused (ha₂.refused (.inl (not_le.1 h₂)))
    · exact hc₁.not_refused hr.1
  · obtain ⟨hdr, -, hc₂⟩ := ha₂.completes hq hb h₂ (hwrite ▸ hspace)
    refine iff_of_false (fun hs => ?_) fun hf => h₁ (hf.1.2 h₂)
    rcases hs with ⟨o, ho₁, -, -⟩ | hr
    · exact ho₁.not_refused (ha₁.refused (.inl (not_le.1 h₁)))
    · exact hc₂.not_refused hr.2
  · exact iff_of_true (.inr ⟨ha₁.refused (.inl (not_le.1 h₁)), ha₂.refused (.inl (not_le.1 h₂))⟩)
      ⟨iff_of_false h₁ h₂, fun h => absurd h h₁⟩

end Framings

/-! ## Three framings of one OUT

One descriptor table holds three chains for the same write of 512 bytes: from 0
with the header and the payload in one descriptor, from 2 with one descriptor
each, and from 4 with the payload in two. They share the status descriptor 1. -/

def outTable : List UInt8 :=
  [0, 1, 0, 0, 0, 0, 0, 0, 16, 2, 0, 0, 1, 0, 1, 0, 0, 6, 0, 0, 0, 0, 0, 0, 1, 0, 0, 0, 2, 0, 0, 0,
   0, 1, 0, 0, 0, 0, 0, 0, 16, 0, 0, 0, 1, 0, 3, 0,
   16, 1, 0, 0, 0, 0, 0, 0, 0, 2, 0, 0, 1, 0, 1, 0,
   0, 1, 0, 0, 0, 0, 0, 0, 16, 0, 0, 0, 1, 0, 5, 0,
   16, 1, 0, 0, 0, 0, 0, 0, 0, 1, 0, 0, 1, 0, 6, 0,
   16, 2, 0, 0, 0, 0, 0, 0, 0, 1, 0, 0, 1, 0, 1, 0]

/-- The table, the header of an OUT to sector 0 at 256, its payload, and the status at 1536. -/
def outMachine : Machine Upper where
  mem a := if a < 112 then outTable.getD a 0 else if a = 256 then 1
    else if 272 ≤ a ∧ a < 784 then 165 else if a = 1536 then 255 else 0
  disk _ := none
  polls := 0
  trace := []

def outMedium : Medium := ⟨512, by decide, fun _ => 0, false⟩

def outHost : Host Upper where
  backend := outMedium.backend
  discardSupported := false
  discardNegotiated := false
  stats := true
  regions := [⟨0, 2048, 4096, 0, ⟨0, 2048, 2048⟩⟩]
  ensureLoaded := some fun _ _ _ => none
  markDirty := none
  stopClosed _ := false
  ctxErr _ := none

def outQueue : Virtq := ⟨8, 4096⟩

def outChain (reads : List Slice) : Chain := ⟨reads, [⟨1536, 1, 512⟩]⟩

theorem accepts_of_check {h : Host β} {q : Virtq} {headIdx : Nat} {s : Machine β} {c : Chain}
    (hx : (match (unlessStopped h >>= fun _ => walkChain h q headIdx) s with
      | .ok a _ => decide (a.readSegs = c.readSegs ∧ a.writeSegs = c.writeSegs)
      | .error .. => false) = true) : Accepts h q headIdx s c := by
  split at hx
  next a s' heq =>
    obtain ⟨hreads, hwrites⟩ := of_decide_eq_true hx
    refine ⟨s', heq.trans ?_⟩
    cases a
    cases c
    cases hreads
    cases hwrites
    rfl
  · cases hx

theorem outMachine_accepts_shared :
    Accepts outHost outQueue 0 outMachine (outChain [⟨256, 528, 1792⟩]) :=
  accepts_of_check (by decide +kernel)

theorem outMachine_accepts_separate :
    Accepts outHost outQueue 2 outMachine (outChain [⟨256, 16, 1792⟩, ⟨272, 512, 1776⟩]) :=
  accepts_of_check (by decide +kernel)

theorem outMachine_accepts_pieces : Accepts outHost outQueue 4 outMachine
    (outChain [⟨256, 16, 1792⟩, ⟨272, 256, 1776⟩, ⟨528, 256, 1520⟩]) :=
  accepts_of_check (by decide +kernel)

theorem completed_of_check {x : EStateM.Result GoError (Machine β) Nat}
    (check : Nat → Machine β → Bool)
    (hx : (match x with | .ok n s => check n s | .error .. => false) = true) :
    ∃ n s, x = .ok n s ∧ check n s = true := by
  cases x with
  | ok n s => exact ⟨n, s, rfl, hx⟩
  | error e s => cases hx

/-- A payload that begins in the header's descriptor is dropped, and the request
still reports OK; the same bytes in a descriptor of their own are written. -/
theorem out_beside_header_dropped :
    ∃ c₁ c₂ s₁ s₂, Accepts outHost outQueue 0 outMachine c₁ ∧
      Accepts outHost outQueue 2 outMachine c₂ ∧
      cells c₁.readSegs = cells c₂.readSegs ∧ cells c₁.writeSegs = cells c₂.writeSegs ∧
      processChain outHost outQueue 0 outMachine = .ok 1 s₁ ∧
      processChain outHost outQueue 2 outMachine = .ok 1 s₂ ∧
      s₁.mem 1536 = blkStatusOK ∧ s₂.mem 1536 = blkStatusOK ∧
      (∀ a < 512, s₁.disk a = outMachine.disk a) ∧ s₂.disk 0 ≠ outMachine.disk 0 := by
  obtain ⟨n₁, s₁, h₁, hc₁⟩ := completed_of_check (x := processChain outHost outQueue 0 outMachine)
    (fun n s => decide (n = 1 ∧ s.mem 1536 = blkStatusOK) &&
      (List.range 512).all fun a => decide (s.disk a = outMachine.disk a)) (by decide +kernel)
  obtain ⟨n₂, s₂, h₂, hc₂⟩ := completed_of_check (x := processChain outHost outQueue 2 outMachine)
    (fun n s => decide (n = 1 ∧ s.mem 1536 = blkStatusOK ∧ s.disk 0 ≠ outMachine.disk 0))
    (by decide +kernel)
  obtain ⟨hn₁, hd₁⟩ := Bool.and_eq_true_iff.1 hc₁
  obtain ⟨rfl, hm₁⟩ := of_decide_eq_true hn₁
  have hdisk : ∀ a < 512, s₁.disk a = outMachine.disk a := fun a ha =>
    of_decide_eq_true (List.all_eq_true.1 hd₁ a (List.mem_range.2 ha))
  obtain ⟨rfl, hm₂, hd₂⟩ := of_decide_eq_true hc₂
  exact ⟨_, _, s₁, s₂, outMachine_accepts_shared, outMachine_accepts_separate, by decide +kernel,
    rfl, h₁, h₂, hm₁, hm₂, hdisk, hd₂⟩

theorem request_framing_independent_pieces : ServedAlike outHost outQueue outQueue 2 4 outMachine
    outMachine (outChain [⟨256, 16, 1792⟩, ⟨272, 512, 1776⟩])
    (outChain [⟨256, 16, 1792⟩, ⟨272, 256, 1776⟩, ⟨528, 256, 1520⟩]) := by
  have hcells : cells (outChain [⟨256, 16, 1792⟩, ⟨272, 512, 1776⟩]).readSegs =
      cells (outChain [⟨256, 16, 1792⟩, ⟨272, 256, 1776⟩, ⟨528, 256, 1520⟩]).readSegs := by
    decide +kernel
  have hsector : (parseBlkReqHeader (load outMachine.mem
      (cells (outChain [⟨256, 16, 1792⟩, ⟨272, 512, 1776⟩]).readSegs))).toOption.map
      BlkReqHeader.sector = some 0 := by
    decide +kernel
  refine (request_framing_independent ⟨fun _ => rfl, fun _ => rfl⟩
    (show outHost.backend = outMedium.backend from rfl) outMachine_accepts_separate
    outMachine_accepts_pieces (congrArg _ hcells) rfl rfl rfl).2
    fun _ => ⟨by decide, fun _ hdr hhdr _ => ?_⟩
  rw [hhdr] at hsector
  have hzero : hdr.sector = 0 := Option.some.inj hsector
  rw [hzero]
  exact ⟨congrArg _ (by decide +kernel), fun _ => ⟨rfl, rfl⟩⟩

end Sandboxer.Vhost
