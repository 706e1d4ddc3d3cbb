import Mathlib.Algebra.Ring.Nat
import Sandboxer.Vhost.Reads

/-! # A scattered read, whatever the backend answers

A backend may read less than it was asked for, fail with or without bytes, and use
the rest of the buffer as scratch space; the queue may be stopped at any point.
`readPayload` then delivers a front of the disk's bytes, window by window. -/
namespace Sandboxer.Vhost

open Lib.Slices

variable {β α γ : Type}

/-! ## Backends that are asked -/

/-- A call of `ReadAt` and its answer. -/
structure ReadCall where
  offset : Int
  length : Nat
  n : Int
  err : Option GoError

/-- The backend with the reads it has answered, in order. -/
def Backend.recorded (b : Backend β) : Backend (β × List ReadCall) where
  readAt d offset buf :=
    let r := b.readAt d.1 offset buf
    ⟨r.buf, r.n, r.err, r.disk, d.2 ++ [⟨offset, buf.length, r.n, r.err⟩]⟩
  writeAt d offset buf := ⟨(b.writeAt d.1 offset buf).n, (b.writeAt d.1 offset buf).err,
    (b.writeAt d.1 offset buf).disk, d.2⟩
  flush d := ((b.flush d.1).1, (b.flush d.1).2, d.2)
  discard d offset length := ((b.discard d.1 offset length).1, (b.discard d.1 offset length).2, d.2)
  supportsDiscard := b.supportsDiscard
  size := b.size
  readOnly := b.readOnly

def diskBytes (content : Int → UInt8) (offset : Int) (n : Nat) : List UInt8 :=
  (List.range n).map fun k : Nat => content (offset + k)

theorem diskBytes_add (content : Int → UInt8) (offset : Int) (m n : Nat) :
    diskBytes content offset (m + n) = diskBytes content offset m ++
      diskBytes content (offset + m) n := by
  simp [diskBytes, List.range_add, Function.comp_def, Int.add_assoc]

/-- The first `n` bytes of the buffer are the disk's, where `n` is the count; the error and
the rest of the buffer may be anything. -/
structure Backend.Honest (b : Backend β) (content : Int → UInt8) : Prop where
  length : ∀ d offset buf, (b.readAt d offset buf).buf.length = buf.length
  bytes : ∀ d offset buf, (b.readAt d offset buf).n ≤ buf.length →
    (b.readAt d offset buf).buf.take (b.readAt d offset buf).n.toNat =
      diskBytes content offset (b.readAt d offset buf).n.toNat

/-! ## Running the worker -/

/-- A result and the state behind it satisfy `Q`, the state behind an error `E`. -/
def Runs (x : Serve β α) (s : Machine β) (Q : α → Machine β → Prop) (E : Machine β → Prop) : Prop :=
  match x s with
  | .ok a s' => Q a s'
  | .error _ s' => E s'

/-- The code returns a result. -/
abbrev Ends (x : Serve β α) (s : Machine β) (Q : α → Machine β → Prop) : Prop :=
  Runs x s Q fun _ => False

namespace Runs

variable {s : Machine β} {Q : α → Machine β → Prop} {E : Machine β → Prop}

theorem pure {a : α} (h : Q a s) : Runs (Pure.pure a : Serve β α) s Q E := h

theorem throw {e : GoError} (h : E s) : Runs (throw e : Serve β α) s Q E := h

theorem bind {x : Serve β γ} {f : γ → Serve β α} (h : Runs x s (fun c s' => Runs (f c) s' Q E) E) :
    Runs (x >>= f) s Q E := by
  change match EStateM.bind x f s with
    | .ok a s' => Q a s'
    | .error _ s' => E s'
  rw [EStateM.bind]
  unfold Runs at h
  split at h
  next heq =>
    rw [heq]
    exact h
  next heq =>
    rw [heq]
    exact h

theorem step {x : Serve β γ} {f : γ → Serve β α} {c : γ} {s' : Machine β} (hx : x s = .ok c s')
    (h : Runs (f c) s' Q E) : Runs (x >>= f) s Q E := by
  refine bind ?_
  unfold Runs
  rw [hx]
  exact h

theorem mono {x : Serve β α} {R : α → Machine β → Prop} {F : Machine β → Prop} (h : Runs x s R F)
    (hq : ∀ a s', R a s' → Q a s') (he : ∀ s', F s' → E s') : Runs x s Q E := by
  unfold Runs at *
  split at h
  · exact hq _ _ h
  · exact he _ h

theorem ite {c : Prop} [Decidable c] {x y : Serve β α} (hx : c → Runs x s Q E)
    (hy : ¬c → Runs y s Q E) :
    Runs (if c then x else y) s Q E := by
  split
  · exact hx ‹_›
  · exact hy ‹_›

/-- A result that is only put together at the end is the one of the code before. -/
theorem of_map {x : Serve β γ} {f : γ → α} (h : Runs (x >>= fun c => Pure.pure (f c)) s Q E) :
    Runs x s (fun c => Q (f c)) E := by
  replace h : match EStateM.bind x (fun c => Pure.pure (f c)) s with
    | .ok a s' => Q a s'
    | .error _ s' => E s' := h
  unfold EStateM.bind at h
  unfold Runs
  split
  next heq =>
    rw [heq] at h
    exact h
  next heq =>
    rw [heq] at h
    exact h

theorem of_ok {x : Serve β α} {a : α} {s' : Machine β} (h : Runs x s Q E) (hx : x s = .ok a s') :
    Q a s' := by
  unfold Runs at h
  rw [hx] at h
  exact h

theorem of_error {x : Serve β α} {e : GoError} {s' : Machine β} (h : Runs x s Q E)
    (hx : x s = .error e s') : E s' := by
  unfold Runs at h
  rw [hx] at h
  exact h

end Runs

theorem Ends.mono {s : Machine β} {x : Serve β α} {R Q : α → Machine β → Prop}
    {E : Machine β → Prop} (h : Ends x s R)
    (hq : ∀ a s', R a s' → Q a s') : Runs x s Q E := Runs.mono h hq fun _ => False.elim

/-! ## One window -/

section Windows

variable {h : Host β} {offset : Int} {segs : List Slice} {s : Machine β}

/-- The queue is stopped with the error at some time. -/
def Host.Stops (h : Host β) (e : GoError) : Prop :=
  ∃ k, (if h.stopClosed k then some (.terminal .canceled) else (h.ctxErr k).map markTerminal) =
    some e

theorem Host.Stops.terminal {e : GoError} (hs : h.Stops e) : isTerminal e = true := by
  obtain ⟨k, he⟩ := hs
  split at he
  · cases he
    rfl
  · obtain ⟨e', -, rfl⟩ := Option.map_eq_some_iff.1 he
    unfold markTerminal
    split
    · assumption
    · rfl

theorem gatherInto_ends (h : Host β) (segs : List Slice) (front : List UInt8) (s : Machine β) :
    Ends (gatherInto h segs front) s fun r s' => s'.disk = s.disk ∧
      (∀ c ∉ cells segs, s'.mem c = s.mem c) ∧
      (r = none → s'.mem = store s.mem (cells segs) front) ∧ ∀ e, r = some e → h.Stops e := by
  induction segs generalizing s front with
  | nil => exact .pure ⟨rfl, fun _ _ => rfl, fun _ => by simp, nofun⟩
  | cons seg segs ih =>
    refine .ite (fun he => .pure ⟨rfl, fun _ _ => rfl, fun _ => ?_, nofun⟩) fun _ => .step rfl ?_
    · rw [List.isEmpty_iff.1 he, store_nil_right]
    split
    next e hstop =>
      refine .pure ⟨rfl, fun _ _ => rfl, nofun, fun e' he => ?_⟩
      cases he
      exact ⟨_, hstop⟩
    refine .step rfl ((ih _ _).mono fun r s' hs => ⟨hs.1, fun c hc => ?_, fun hr => ?_, hs.2.2.2⟩)
    · rw [cells_cons, List.mem_append, not_or] at hc
      rw [hs.2.1 c hc.2]
      exact store_of_notMem _ _ _ hc.1
    · rw [hs.2.2.1 hr, cells_cons, store_split, seg.length_cells]

/-- What a window is: one read into a buffer of `len` bytes. Nothing is reported of it if a terminal
error or a stop ends it or if its count makes no sense; otherwise as many bytes as it says are in
the first cells. -/
structure Window (h : Host β) (cs : List Nat) (len : Nat) (answer : ReadResult β) (s s' : Machine β)
    (n : Nat) (err : Option GoError) : Prop where
  disk : s'.disk = answer.disk
  frame : ∀ c ∉ cs, s'.mem c = s.mem c
  outcome : (n = 0 ∧ answer.err.any isTerminal = true ∧ err = answer.err) ∨
    answer.err.any isTerminal = false ∧ ((n = 0 ∧ ∃ e, err = some e ∧ h.Stops e) ∨
      (n = 0 ∧ (answer.n < 0 ∨ answer.n > len) ∧ ∃ e, err = some e ∧ isTerminal e = false) ∨
      ¬(answer.n < 0 ∨ answer.n > len) ∧ n = answer.n.toNat ∧ err = windowErr n len answer.err ∧
        (cs.Nodup → load s'.mem (cs.take n) = answer.buf.take n))

theorem readWindow_ends
    (hlen : ∀ d offset buf, (h.backend.readAt d offset buf).buf.length = buf.length) {length : Nat}
    (hl : 0 < length) (hc : length ≤ (cells segs).length) :
    Ends (readWindow h offset segs length) s fun r s' => ∃ buf, 0 < buf.length ∧ buf.length ≤
      length ∧
      Window h (cells segs) buf.length (h.backend.readAt s.disk offset buf) s s' r.1 r.2 := by
  obtain ⟨hpos, hle, hdirect⟩ := windowPlan_cells hl hc
  unfold readWindow
  generalize windowPlan segs length = plan at hpos hle hdirect ⊢
  obtain ⟨direct, len⟩ := plan
  cases direct with
  | some buf =>
    obtain ⟨rfl, hcells⟩ := hdirect buf rfl
    have hload : (load s.mem buf.cells).length = buf.len := by rw [length_load, Slice.length_cells]
    have hlength := hlen s.disk offset (load s.mem buf.cells)
    refine .mono ?_ fun r s' hw =>
      ⟨load s.mem buf.cells, hload ▸ hpos, hload ▸ hle, hload.symm ▸ hw⟩
    -- the bytes are in the segments whatever is reported of them
    refine .step rfl (.step rfl (.step rfl (.step rfl ?_)))
    generalize h.backend.readAt s.disk offset (load s.mem buf.cells) = r at hlength ⊢
    have hframe : ∀ c ∉ cells segs, store s.mem buf.cells r.buf c = s.mem c := fun c hc =>
      store_of_notMem _ _ _ fun hm => hc (List.mem_of_mem_take (hcells ▸ hm))
    refine .ite (fun hterm => .pure ⟨rfl, hframe, .inl ⟨rfl, hterm, rfl⟩⟩) fun hlive => .step rfl ?_
    rw [Bool.not_eq_true] at hlive
    split
    next e hstop => exact .pure ⟨rfl, hframe, .inr ⟨hlive, .inl ⟨rfl, e, rfl, _, hstop⟩⟩⟩
    refine .ite (fun hn => .pure ⟨rfl, hframe, .inr ⟨hlive, .inr (.inl ⟨rfl, hn, _, rfl, rfl⟩)⟩⟩)
      fun hn => .pure ⟨rfl, hframe, .inr ⟨hlive, .inr (.inr ⟨hn, rfl, rfl, fun _ => ?_⟩)⟩⟩
    have htake : (cells segs).take r.n.toNat = buf.cells.take r.n.toNat := by
      rw [hcells, List.take_take, min_eq_left (by omega)]
    rw [htake, load_store _ buf.nodup_cells _ (by rw [Slice.length_cells]; omega) (by omega)]
  | none =>
    have hload : (List.replicate len (0 : UInt8)).length = len := List.length_replicate
    have hlength := hlen s.disk offset (List.replicate len 0)
    refine .mono ?_ fun r s' hw =>
      ⟨List.replicate len 0, hload.symm ▸ hpos, hload.symm ▸ hle, hload.symm ▸ hw⟩
    refine .step rfl ?_
    generalize h.backend.readAt s.disk offset (List.replicate len 0) = r at hlength ⊢
    refine .ite (fun hterm => .pure ⟨rfl, fun _ _ => rfl, .inl ⟨rfl, hterm, rfl⟩⟩) fun hlive =>
      .step rfl ?_
    rw [Bool.not_eq_true] at hlive
    split
    next e hstop => exact .pure ⟨rfl, fun _ _ => rfl, .inr ⟨hlive, .inl ⟨rfl, e, rfl, _, hstop⟩⟩⟩
    refine .ite
      (fun hn => .pure ⟨rfl, fun _ _ => rfl, .inr ⟨hlive, .inr (.inl ⟨rfl, hn, _, rfl, rfl⟩)⟩⟩)
      fun hn => .bind ((gatherInto_ends _ _ _ _).mono fun stop s' hs => ?_)
    obtain ⟨hdisk, hframe, hmem, hstop⟩ := hs
    cases stop with
    | some e => exact .pure ⟨hdisk, hframe, .inr ⟨hlive, .inl ⟨rfl, e, rfl, hstop e rfl⟩⟩⟩
    | none =>
      refine .pure ⟨hdisk, hframe, .inr ⟨hlive, .inr (.inr ⟨hn, rfl, rfl, fun hnodup => ?_⟩)⟩⟩
      rw [hmem rfl, load_store _ hnodup _ (by omega) (by rw [List.length_take]; omega),
        List.take_take, Nat.min_self]

end Windows

/-! ## What is delivered -/

section Delivered

variable {b : Backend β} {content : Int → UInt8} {h : Host (β × List ReadCall)} {offset : Int}
  {segs : List Slice}
  {s : Machine (β × List ReadCall)}

/-- What a window of at most `limit` bytes for the cells `cs` leaves: `n` bytes of the disk are
in the first of them. Without an error that is all the backend was asked for; with one it is
exactly if the backend read all and reported something besides the end of the data. Nothing is
reported of a window that a terminal error or a stop ends. An error comes from the backend, from
a count that is short or makes no sense, or from a stop. -/
structure Delivered (h : Host (β × List ReadCall)) (content : Int → UInt8) (offset : Int)
    (cs : List Nat) (limit : Nat) (call : ReadCall)
    (m m' : Nat → UInt8) (n : Nat) (err : Option GoError) : Prop where
  start : call.offset = offset
  pos : 0 < call.length
  le : call.length ≤ limit
  n_le : n ≤ call.length
  bytes : load m' (cs.take n) = diskBytes content offset n
  frame : ∀ c ∉ cs, m' c = m c
  whole : err = none → n = call.length ∧ call.n = call.length
  late : n = call.length → ∀ e, err = some e ↔
    call.n = call.length ∧ call.err = some e ∧ completeReadCompatible e = false
  cut : err.any isTerminal = true → n = 0
  terminal : call.err.any isTerminal = true → err = call.err ∧ n = 0
  counted : err.any isTerminal = false → 0 ≤ call.n → call.n ≤ call.length → (n : Int) = call.n
  cause : ∀ e, err = some e → call.err = some e ∨ call.n ≠ call.length ∨ h.Stops e

variable {cs : List Nat} {limit n : Nat}

theorem windowErr_late {length : Nat} {err : Option GoError} {e : GoError} :
    windowErr length length err = some e ↔ err = some e ∧ completeReadCompatible e = false := by
  cases err with
  | none => simp [windowErr]
  | some e' =>
    by_cases hc : completeReadCompatible e' = true
    · simp only [windowErr, hc, and_self, if_true, reduceCtorEq, false_iff, Option.some.injEq]
      rintro ⟨rfl, hbad⟩
      rw [hc] at hbad
      cases hbad
    · simp only [windowErr, hc, and_false, if_false, Option.some.injEq, Bool.false_eq_true]
      constructor
      · rintro rfl
        exact ⟨rfl, Bool.of_not_eq_true hc⟩
      · exact And.left

theorem Window.delivered (hh : b.Honest content) (hnodup : cs.Nodup) {buf : List UInt8}
    {s' : Machine (β × List ReadCall)} {err : Option GoError} (hpos : 0 < buf.length)
    (hle : buf.length ≤ limit)
    (hw : Window h cs buf.length (b.recorded.readAt s.disk offset buf) s s' n err) :
    Delivered h content offset cs limit ⟨offset, buf.length, (b.readAt s.disk.1 offset buf).n,
      (b.readAt s.disk.1 offset buf).err⟩ s.mem s'.mem n err := by
  have hbytes := hh.bytes s.disk.1 offset buf
  obtain ⟨-, hframe, hout⟩ := hw
  dsimp only [Backend.recorded] at hout
  generalize b.readAt s.disk.1 offset buf = r at hbytes hout ⊢
  have hnot : ∀ {P : Prop}, 0 = buf.length → P := fun h => absurd h (Nat.ne_of_lt hpos)
  rcases hout with ⟨rfl, hterm, rfl⟩ | ⟨hlive, ⟨rfl, e, rfl, hstop⟩ | ⟨rfl, hn, e, rfl, he⟩ |
    ⟨hn, rfl, rfl, hload⟩⟩
  · refine ⟨rfl, hpos, hle, Nat.zero_le _, rfl, hframe, fun hnone => ?_, fun h => hnot h,
      fun _ => rfl, fun _ => ⟨rfl, rfl⟩, fun hl => ?_, fun _ => .inl⟩
    · rw [hnone] at hterm
      cases hterm
    · rw [hterm] at hl
      cases hl
  · refine ⟨rfl, hpos, hle, Nat.zero_le _, rfl, hframe, nofun, fun h => hnot h, fun _ => rfl,
      fun ht => ?_, fun hl => ?_, fun e' he => ?_⟩
    · rw [hlive] at ht
      cases ht
    · rw [Option.any_some, hstop.terminal] at hl
      cases hl
    · cases he
      exact .inr (.inr hstop)
  · refine ⟨rfl, hpos, hle, Nat.zero_le _, rfl, hframe, nofun, fun h => hnot h, fun _ => rfl,
      fun ht => ?_, fun _ _ _ => ?_, fun _ _ => .inr (.inl ?_)⟩
    · rw [hlive] at ht
      cases ht
    all_goals
      dsimp only at *
      omega
  · have hcount : ((r.n.toNat : Nat) : Int) = r.n := Int.toNat_of_nonneg (by omega)
    refine ⟨rfl, hpos, hle, by dsimp only; omega, (hload hnodup).trans (hbytes (by omega)), hframe,
      fun hnone => ?_, fun hall e => ?_, fun ht => ?_, fun ht => ?_, fun _ _ _ => hcount,
        fun e he => ?_⟩
    · dsimp only
      unfold windowErr at hnone
      split at hnone <;> split at hnone <;> first | omega | cases hnone
    · dsimp only at hall ⊢
      rw [hall, windowErr_late]
      exact ⟨fun h => ⟨by omega, h⟩, And.right⟩
    · rw [windowErr_live hlive] at ht
      cases ht
    · rw [hlive] at ht
      cases ht
    · by_cases hall : r.n.toNat = buf.length
      · rw [hall, windowErr_late] at he
        exact .inl he.1
      · exact .inr (.inl (by dsimp only; omega))

/-! ## All windows -/

/-- The calls read `n` bytes from the offset on one after the other: all but the last were
answered in full. -/
inductive Tile : Int → List ReadCall → Nat → Prop where
  | none (offset : Int) : Tile offset [] 0
  | last {offset : Int} {call : ReadCall} {n : Nat} (hstart : call.offset = offset)
    (hn : n ≤ call.length) :
      Tile offset [call] n
  | cons {offset : Int} {call : ReadCall} {calls : List ReadCall} {n : Nat}
    (hstart : call.offset = offset)
      (hfull : call.n = call.length) (hrest : Tile (offset + call.length) calls n) :
      Tile offset (call :: calls) (call.length + n)

/-- The bytes that the calls were to read. -/
def asked (calls : List ReadCall) : Nat := (calls.map ReadCall.length).sum

/-- What the calls of a read leave in the cells `cs`: `n` bytes of the disk in the first of them. -/
structure Scattered (h : Host (β × List ReadCall)) (content : Int → UInt8) (offset : Int)
    (cs : List Nat) (calls : List ReadCall)
    (m m' : Nat → UInt8) (n : Nat) (err : Option GoError) : Prop where
  n_le : n ≤ cs.length
  bytes : load m' (cs.take n) = diskBytes content offset n
  frame : ∀ c ∉ cs, m' c = m c
  tile : Tile offset calls n
  bounded : ∀ call ∈ calls, 0 < call.length ∧ call.length ≤ maxReadWindow
  whole : err = none → n = cs.length
  /-- all was delivered, and there is an error -/
  late : n = cs.length → ∀ e, err = some e ↔ ∃ call ∈ calls.getLast?,
    call.n = call.length ∧ call.err = some e ∧ completeReadCompatible e = false
  /-- a terminal error or a stop, between two windows or in the last one -/
  cut : err.any isTerminal = true → n = asked calls ∨ n = asked calls.dropLast
  /-- a terminal error of the backend -/
  terminal : ∀ call ∈ calls.getLast?, call.err.any isTerminal = true →
    err = call.err ∧ n = asked calls.dropLast
  /-- otherwise the last call counts as far as it got -/
  counted : ∀ call ∈ calls.getLast?, err.any isTerminal = false → 0 ≤ call.n →
    call.n ≤ call.length → (n : Int) = asked calls.dropLast + call.n
  /-- where an error comes from -/
  cause : ∀ e, err = some e →
    (∃ call ∈ calls.getLast?, call.err = some e ∨ call.n ≠ call.length) ∨ h.Stops e

theorem asked_cons (call : ReadCall) (calls : List ReadCall) :
    asked (call :: calls) = call.length + asked calls := by simp [asked]

/-- The bytes of a window, then those of the rest. -/
theorem Delivered.scatters {k : Nat} {call : ReadCall} {calls : List ReadCall}
    {m m' m'' : Nat → UInt8} {err : Option GoError} (hnodup : cs.Nodup)
    (hlimit : limit ≤ maxReadWindow)
    (hd : Delivered h content offset cs limit call m m' n none) (hn : n ≤ cs.length)
    (hs : Scattered h content (offset + n) (cs.drop n) calls m' m'' k err) :
    Scattered h content offset cs (call :: calls) m m'' (n + k) err := by
  obtain ⟨hlen, hfull⟩ := hd.whole rfl
  have hrest : calls = [] ∧ k = 0 ∨ ∃ next rest, calls = next :: rest := by
    rcases calls with _ | ⟨next, rest⟩
    · have htile := hs.tile
      cases htile
      exact .inl ⟨rfl, rfl⟩
    · exact .inr ⟨next, rest, rfl⟩
  refine ⟨?_, ?_, fun c hc => ?_, ?_,
    List.forall_mem_cons.2 ⟨⟨hd.pos, le_trans hd.le hlimit⟩, hs.bounded⟩, fun he => ?_,
      fun hall e => ?_, fun ht => ?_, fun last hlast ht => ?_, fun last hlast ht h0 h1 => ?_,
    fun e he => ?_⟩
  · have := hs.n_le
    rw [List.length_drop] at this
    omega
  · have hkeep : load m'' (cs.take n) = load m' (cs.take n) := List.map_congr_left fun c hc =>
      hs.frame c (List.disjoint_take_drop hnodup le_rfl hc)
    rw [List.take_add, load, List.map_append, diskBytes_add]
    exact congrArg₂ _ (hkeep.trans hd.bytes) hs.bytes
  · exact (hs.frame c fun hm => hc (List.mem_of_mem_drop hm)).trans (hd.frame c hc)
  · have htile := hs.tile
    rw [hlen] at htile ⊢
    exact .cons hd.start hfull htile
  · have := hs.whole he
    rw [List.length_drop] at this
    omega
  · have hlate := hs.late (by rw [List.length_drop]; omega) e
    rcases hrest with ⟨rfl, rfl⟩ | ⟨next, rest, rfl⟩
    · rw [hlate]
      refine iff_of_false (by simp) ?_
      rintro ⟨last, hlast, hbad⟩
      cases hlast
      exact absurd ((hd.late hlen e).2 hbad).symm (Option.some_ne_none e)
    · rw [hlate, List.getLast?_cons_cons]
  · rcases hrest with ⟨rfl, rfl⟩ | ⟨next, rest, rfl⟩
    · left
      rw [asked_cons, hlen]
      rfl
    · rw [List.dropLast_cons_cons, asked_cons call, asked_cons call, hlen]
      exact (hs.cut ht).imp (by omega) (by omega)
  · rcases hrest with ⟨rfl, rfl⟩ | ⟨next, rest, rfl⟩
    · cases hlast
      have hzero := (hd.terminal ht).2
      have := hd.pos
      omega
    · rw [List.getLast?_cons_cons] at hlast
      obtain ⟨herr, hk⟩ := hs.terminal last hlast ht
      rw [List.dropLast_cons_cons, asked_cons]
      exact ⟨herr, by omega⟩
  · rcases hrest with ⟨rfl, rfl⟩ | ⟨next, rest, rfl⟩
    · cases hlast
      simp [asked]
      omega
    · rw [List.getLast?_cons_cons] at hlast
      have hk := hs.counted last hlast ht h0 h1
      rw [List.dropLast_cons_cons, asked_cons]
      omega
  · refine (hs.cause e he).imp_left ?_
    rintro ⟨last, hlast, hbad⟩
    exact ⟨last, by rw [List.getLast?_cons, hlast]; rfl, hbad⟩

/-- A window that ends the read. -/
theorem Delivered.scattered {call : ReadCall} {m m' : Nat → UInt8} {e : GoError}
    (hlimit : limit ≤ maxReadWindow) (hcs : limit ≤ cs.length)
    (hd : Delivered h content offset cs limit call m m' n (some e)) :
    Scattered h content offset cs [call] m m' n (some e) where
  n_le := le_trans hd.n_le (le_trans hd.le hcs)
  bytes := hd.bytes
  frame := hd.frame
  tile := .last hd.start hd.n_le
  bounded := List.forall_mem_singleton.2 ⟨hd.pos, le_trans hd.le hlimit⟩
  whole := nofun
  late hall e' := by
    have := hd.le
    have := hd.n_le
    rw [hd.late (by omega) e']
    simp
  cut ht := .inr (hd.cut ht)
  terminal last hlast ht := by
    cases hlast
    exact hd.terminal ht
  counted last hlast ht h0 h1 := by
    cases hlast
    simpa [asked] using hd.counted ht h0 h1
  cause e' he := by
    rcases hd.cause e' he with hbad | hbad | hstop
    · exact .inl ⟨call, rfl, .inl hbad⟩
    · exact .inl ⟨call, rfl, .inr hbad⟩
    · exact .inr hstop

/-- Nothing is left to read. -/
theorem Scattered.done (hz : cs.length = 0) (m : Nat → UInt8) :
    Scattered h content offset cs [] m m 0 none :=
  ⟨Nat.zero_le _, rfl, fun _ _ => rfl, .none _, nofun, fun _ => hz.symm, fun _ _ => ⟨nofun, nofun⟩,
    nofun, nofun, nofun, nofun⟩

/-- The queue is stopped between two windows. -/
theorem Scattered.stop (hpos : 0 < cs.length) {e : GoError} (he : h.Stops e) (m : Nat → UInt8) :
    Scattered h content offset cs [] m m 0 (some e) :=
  ⟨Nat.zero_le _, rfl, fun _ _ => rfl, .none _, nofun, nofun,
    fun hz => absurd hz (Nat.ne_of_lt hpos), fun _ => .inl rfl, nofun, nofun, fun e' he' =>
      .inr (by cases he'; exact he)⟩

/-- The loop from any point on. -/
theorem readWindows_ends (hb : h.backend = b.recorded) (hh : b.Honest content) {total : Nat}
    (fuel done : Nat)
    (segs : List Slice) (s : Machine (β × List ReadCall)) (hf : (cells segs).length ≤ fuel)
    (ht : done + (cells segs).length = total) (hnodup : (cells segs).Nodup) :
    Ends (readWindows h offset total fuel done segs) s fun r s' => ∃ n calls, r.1 = done + n ∧
      s'.disk.2 = s.disk.2 ++ calls ∧ Scattered h content (offset + done)
      (cells segs) calls s.mem s'.mem n r.2 := by
  induction fuel generalizing done segs s with
  | zero => exact .pure ⟨0, [], rfl, (List.append_nil _).symm, .done (Nat.le_zero.1 hf) _⟩
  | succ fuel ih =>
    refine .ite (fun hlt => .step rfl ?_) fun hge =>
      .pure ⟨0, [], rfl, (List.append_nil _).symm, .done (by omega) _⟩
    split
    next e hstop =>
      exact .pure ⟨0, [], rfl, (List.append_nil _).symm, .stop (by omega) ⟨_, hstop⟩ _⟩
    have hwin : 0 < min (total - done) maxReadWindow := Nat.lt_min.2 ⟨by omega, by decide⟩
    have hlimit := min_le_right (total - done) maxReadWindow
    have hcs : min (total - done) maxReadWindow ≤ (cells segs).length := by omega
    refine .bind
      ((readWindow_ends (fun d _ buf => hb ▸ hh.length d.1 _ buf) hwin hcs).mono fun r s' hs => ?_)
    obtain ⟨n, err⟩ := r
    obtain ⟨buf, hbuf, hle, hw⟩ := hs
    rw [hb] at hw
    have hcalls := congrArg Prod.snd hw.disk
    have hd := hw.delivered hh hnodup hbuf hle
    dsimp only [Backend.recorded] at hcalls
    cases err with
    | some e => exact .pure ⟨n, _, rfl, hcalls, hd.scattered hlimit hcs⟩
    | none =>
      have hpos := hd.pos
      have hn := (hd.whole rfl).1
      have hle : n ≤ (cells segs).length := le_trans hd.n_le (le_trans hd.le hcs)
      have hcells : cells (advance n segs) = (cells segs).drop n := cells_advance n segs
      have hlen :
          (cells (advance n segs)).length = (cells segs).length - n := by
          rw [hcells, List.length_drop]
      have hoff : offset + ((done + n : Nat) : Int) = offset + done + n := by push_cast; omega
      refine (ih (done + n) (advance n segs) s' (by omega) (by omega)
        (by rw [hcells]; exact hnodup.drop)).mono
        fun r s'' hs => ?_
      obtain ⟨k, calls, hr, hcalls', hrest⟩ := hs
      rw [hcells, hoff] at hrest
      refine ⟨n + k, _ :: calls, by omega, ?_, hd.scatters hnodup hlimit hle hrest⟩
      rw [hcalls', hcalls, List.append_assoc]
      rfl

/-- For any slices that do not overlap, any backend whose bytes are those of the disk and any
stop of the queue, `readPayload` returns. It reads and writes nothing if the checks refuse the
request. Otherwise it has put the first `n` bytes at the offset into the slices, with reads of at
most 1 MiB that follow one another, and nothing besides them. It reports no error only if that is
all; and an error for all of them exactly if the last read filled its buffer and reported an error
that is not just the end of the data. -/
theorem readPayload_scatters (hb : h.backend = b.recorded) (hh : b.Honest content) (sector : Nat)
    (hnodup : (cells segs).Nodup) (s : Machine (β × List ReadCall)) :
    Ends (readPayload h sector segs) s fun r s' =>
      if h.backend.Refuses sector (cells segs).length then s' = s ∧ r.1 = 0 ∧ r.2.isSome = true
      else ∃ calls, s'.disk.2 = s.disk.2 ++ calls ∧
        Scattered h content (sector * sectorSize : Nat)
        (cells segs) calls s.mem s'.mem r.1 r.2 := by
  rcases readPayload_cases h sector segs with ⟨hbad, e, heq, -⟩ | ⟨hgood, heq⟩
  · rw [heq]
    simp only [if_pos hbad]
    exact .pure ⟨rfl, rfl, rfl⟩
  rw [heq]
  simp only [if_neg hgood]
  refine (readWindows_ends hb hh _ 0 segs s le_rfl (Nat.zero_add _) hnodup).mono fun r s' hs => ?_
  obtain ⟨n, calls, hr, hcalls, hscattered⟩ := hs
  rw [hr, Nat.zero_add]
  rw [Int.natCast_zero, Int.add_zero] at hscattered
  exact ⟨calls, hcalls, hscattered⟩

end Delivered

/-- A disk of sevens that delivers all bytes and then reports an error. -/
def lateErrorDisk : Backend Unit where
  readAt _ _ buf := ⟨List.replicate buf.length 7, buf.length, some (.text "late"), ()⟩
  writeAt _ _ _ := ⟨0, some .readOnly, ()⟩
  flush _ := (none, ())
  discard _ _ _ := (some .readOnly, ())
  supportsDiscard := false
  size := 512
  readOnly := true

def lateErrorHost : Host (Unit × List ReadCall) :=
  ⟨lateErrorDisk.recorded, false, false, false, [], none, none, fun _ => false, fun _ => none⟩

theorem lateErrorDisk_honest : lateErrorDisk.Honest fun _ => 7 where
  length _ _ buf := List.length_replicate
  bytes _ _ buf _ := by simp [lateErrorDisk, diskBytes, List.map_const']

/-- Two slices, the second one before the first. -/
theorem readPayload_scatters_backwards :
    (cells [⟨4, 2, 2⟩, ⟨0, 3, 3⟩]).Nodup ∧ ¬lateErrorHost.backend.Refuses 0 5 ∧
      Ends (readPayload lateErrorHost 0 [⟨4, 2, 2⟩, ⟨0, 3, 3⟩])
        ⟨fun _ => 0, ((), []), 0, []⟩ fun r s' => ∃ calls, s'.disk.2 = [] ++ calls ∧
          Scattered lateErrorHost (fun _ => 7) (0 * sectorSize : Nat)
          (cells [⟨4, 2, 2⟩, ⟨0, 3, 3⟩]) calls
            (fun _ => 0) s'.mem r.1 r.2 := by
  have hgood : ¬lateErrorHost.backend.Refuses 0 5 := by decide
  refine ⟨by decide, hgood, ?_⟩
  have hscatters := readPayload_scatters (h := lateErrorHost) rfl lateErrorDisk_honest 0
    (show (cells [⟨4, 2, 2⟩, ⟨0, 3, 3⟩]).Nodup by decide) ⟨fun _ => 0, ((), []), 0, []⟩
  simp only [show (cells [⟨4, 2, 2⟩, ⟨0, 3, 3⟩]).length = 5 from rfl, if_neg hgood] at hscatters
  exact hscatters

/-- All that was asked for is delivered, and an error is returned. -/
theorem whole_read_reports_error : lateErrorDisk.Honest (fun _ => 7) ∧
    Ends (readPayload lateErrorHost 0 [⟨4, 2, 2⟩, ⟨0, 3, 3⟩])
      ⟨fun _ => 0, ((), []), 0, []⟩ fun r s' =>
      r = (5, some (.text "late")) ∧ load s'.mem (cells [⟨4, 2, 2⟩, ⟨0, 3, 3⟩]) = diskBytes
      (fun _ => 7) 0 5 :=
  ⟨lateErrorDisk_honest, rfl, by decide⟩

end Sandboxer.Vhost
