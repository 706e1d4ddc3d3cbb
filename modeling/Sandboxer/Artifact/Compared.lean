import Mathlib.Data.List.Basic

/-! # The comparison of sparse streams decides their equality

`compareSparseStreams` over the runs as they are opened and read: two streams
are walked in lockstep, a run is read from its own start in windows of 64 KiB,
and a read that fails for a while is tried again. Streams whose runs deliver
what they hold are found equal exactly when they are. -/
namespace Sandboxer.Artifact.Compared

/-- What a stream holds; `none` is a hole. -/
structure Content where
  size : Nat
  cell : Nat → Option UInt8
  outside : ∀ i, size ≤ i → cell i = none

inductive RunKind where
  | hole
  | zero
  | data
  | other
  deriving DecidableEq, Repr

/-- What the kind of a run says about a cell in it. -/
def RunKind.Allows : RunKind → Option UInt8 → Prop
  | .hole, cell => cell = none
  | .zero, cell => cell = some 0
  | .data, cell => cell ≠ none
  | .other, _ => True

/-- A call that fails with a text, or one that is still tried again. -/
inductive Failure where
  | error (text : String)
  | waits
  deriving DecidableEq, Repr

/-- The errors of a read: the two ends of a file, those that `readretry.IsTerminal` and
`readerr.IsPermanent` recognise, and any other. -/
inductive ReadErr where
  | eof
  | unexpectedEOF
  | terminal (text : String)
  | permanent (text : String)
  | other (text : String)
  deriving DecidableEq, Repr

/-- What one attempt of a read returns. -/
abbrev Answer : Type := List UInt8 × Option ReadErr

/-- `sparse.Run`. `readAt inner n` are the answers to the attempts of a read of `n` bytes,
`inner` bytes behind the start of the run. -/
structure Run where
  kind : RunKind
  offset : Nat
  stop : Nat
  readAt : Nat → Nat → List Answer

/-- `sparse.Source`: its runs by offset and limit, and the payload commitment if it has one. -/
structure Stream (δ : Type) where
  size : Nat
  runAt : Nat → Nat → Except Failure (Option Run)
  commitment : Option (Nat × δ)

/-! ## The comparison -/

def budget : Nat := 64 * 1024

def reject (c : Prop) [Decidable c] (text : String) : Except Failure Unit :=
  if c then .error (.error text) else .ok ()

/-- `readretry.ReadAt`, while the context is alive. A short read and `io.ErrUnexpectedEOF` are
marked as permanent there; only an error of another kind makes `Do` read again. -/
def readRetry (n : Nat) : List Answer → Except Failure (List UInt8)
  | [] => .error .waits
  | (_, some (.terminal text)) :: _ | (_, some (.permanent text)) :: _ => .error (.error text)
  | (got, none) :: _ | (got, some .eof) :: _ =>
    if got.length = n then .ok got
    else .error (.error s!"source read {got.length} of {n} bytes: unexpected EOF")
  | (got, some .unexpectedEOF) :: _ =>
    .error (.error s!"source read {got.length} of {n} bytes: unexpected EOF")
  | (_, some (.other _)) :: rest => readRetry n rest

/-- One window of a run that is not a hole. -/
def readWindow (r : Run) (inner n : Nat) : Except Failure (List UInt8) :=
  if r.kind = .zero then .ok (List.replicate n 0)
  else do
    let got ← readRetry n (r.readAt inner n)
    reject (got.length ≠ n) "unexpected EOF"
    pure got

/-- The inner loop: the windows of two runs that start at `offset`, up to their common end. -/
def compareBytes (l r : Run) (offset stop pos : Nat) : Except Failure Unit :=
  if pos < stop then do
    let n := min budget (stop - pos)
    let lbuf ← readWindow l (pos - offset) n
    let rbuf ← readWindow r (pos - offset) n
    reject (lbuf ≠ rbuf) s!"present bytes differ at {pos}"
    compareBytes l r offset stop (pos + n)
  else .ok ()
termination_by stop - pos
decreasing_by
  have : 0 < budget := by decide
  omega

/-- A pair of runs that start at `offset`, up to their common end. -/
def compareRuns (l r : Run) (offset : Nat) : Except Failure Unit := do
  reject ((l.kind = .hole) ≠ (r.kind = .hole)) s!"Hole/Present layout differs at {offset}"
  if l.kind = .hole then .ok () else compareBytes l r offset (min l.stop r.stop) offset

/-- A run that passed the checks of the loop. -/
structure CheckedRun (pos size : Nat) extends Run where
  start : offset = pos
  nonempty : pos < stop
  inside : stop ≤ size
  known : kind ≠ .other

def checkRun (pos size : Nat) : Option Run → Except Failure (CheckedRun pos size)
  | none => .error (.error "invalid sparse run")
  | some r =>
    if h : r.offset = pos ∧ pos < r.stop ∧ r.stop ≤ size then
      if hk : r.kind ≠ .other then .ok ⟨r, h.1, h.2.1, h.2.2, hk⟩
      else .error (.error "invalid sparse run kind")
    else .error (.error "invalid sparse run")

variable {δ : Type}

def compareFrom (left right : Stream δ) (offset : Nat) : Except Failure Unit :=
  if offset < left.size then do
    let lrun ← left.runAt offset (left.size - offset)
    let rrun ← right.runAt offset (right.size - offset)
    let l ← checkRun offset left.size lrun
    let r ← checkRun offset left.size rrun
    compareRuns l.toRun r.toRun offset
    compareFrom left right (min l.stop r.stop)
  else .ok ()
termination_by left.size - offset
decreasing_by
  have := l.nonempty
  have := r.nonempty
  omega

/-- Both commit to their own size and to one digest. -/
def sameCommitment [DecidableEq δ] (left right : Stream δ) : Bool :=
  match left.commitment, right.commitment with
  | some (n, a), some (m, b) => n = left.size ∧ m = right.size ∧ a = b
  | _, _ => false

def compareSparseStreams [DecidableEq δ] (left right : Stream δ) : Except Failure Unit := do
  reject (left.size ≠ right.size) s!"logical size differs: {left.size} != {right.size}"
  if sameCommitment left right then .ok () else compareFrom left right 0

/-! ## Streams that hold a content -/

/-- The bytes of a content, with zeros for its holes. -/
def bytesAt (c : Content) (off n : Nat) : List UInt8 :=
  (List.range' off n).map fun i => (c.cell i).getD 0

/-- After any number of attempts whose error may pass, one has all bytes, with or without the
end of the file. -/
inductive Delivers (bytes : List UInt8) : List Answer → Prop where
  | full (rest : List Answer) : Delivers bytes ((bytes, none) :: rest)
  | last (rest : List Answer) : Delivers bytes ((bytes, some .eof) :: rest)
  | again (got : List UInt8) (text : String) {rest : List Answer} (h : Delivers bytes rest) :
      Delivers bytes ((got, some (.other text)) :: rest)

/-- The run has a kind that its cells allow, and delivers their bytes. -/
structure Run.Of (r : Run) (c : Content) : Prop where
  known : r.kind ≠ .other
  cells : ∀ i, r.offset ≤ i → i < r.stop → r.kind.Allows (c.cell i)
  reads : r.kind = .data → ∀ inner n, r.offset + inner + n ≤ r.stop →
    Delivers (bytesAt c (r.offset + inner) n) (r.readAt inner n)

/-- The stream has the content: at every offset a run of it starts that is not empty. -/
structure Stream.Of (s : Stream δ) (c : Content) : Prop where
  size : s.size = c.size
  runs : ∀ off < s.size, ∃ r : Run, s.runAt off (s.size - off) = .ok (some r) ∧ r.offset = off ∧
    off < r.stop ∧ r.stop ≤ s.size ∧ r.Of c

/-! ## What the comparison decides -/

/-- The call returns, and without an error if and only if `p`. -/
structure Decides (x : Except Failure Unit) (p : Prop) : Prop where
  returns : x ≠ .error .waits
  ok : x = .ok () ↔ p

section Decides

variable {x y : Except Failure Unit} {p q : Prop}

theorem Decides.nil (h : p) : Decides (.ok ()) p := ⟨nofun, ⟨fun _ => h, fun _ => rfl⟩⟩

theorem Decides.reject [Decidable p] (text : String) : Decides (reject p text) ¬p := by
  by_cases h : p
  · rw [Compared.reject, if_pos h]
    exact ⟨nofun, ⟨nofun, fun hn => absurd h hn⟩⟩
  · rw [Compared.reject, if_neg h]
    exact .nil h

theorem Decides.congr (h : Decides x p) (hpq : p ↔ q) : Decides x q := ⟨h.returns, h.ok.trans hpq⟩

theorem Decides.seq (hx : Decides x p) (hy : p → Decides y q) :
    Decides (x >>= fun _ => y) (p ∧ q) := by
  cases x with
  | ok u =>
    have hp := hx.ok.1 rfl
    exact (hy hp).congr ⟨fun hq => ⟨hp, hq⟩, fun h => h.2⟩
  | error e =>
    refine ⟨fun h => hx.returns ?_, ⟨nofun, fun h => absurd (hx.ok.2 h.1) nofun⟩⟩
    cases h
    rfl

end Decides

theorem readRetry_delivers {bytes : List UInt8} {answers : List Answer}
    (h : Delivers bytes answers) : readRetry bytes.length answers = .ok bytes := by
  induction h with
  | full rest | last rest => rw [readRetry, if_pos rfl]
  | again got text h ih =>
    rw [readRetry]
    exact ih

variable {l r : Run} {c d : Content} {offset stop pos n : Nat}

theorem length_bytesAt : (bytesAt c pos n).length = n := by simp [bytesAt]

/-- A window of a run holds the bytes of its place in the stream. -/
theorem readWindow_bytes (hr : r.Of c) (hk : r.kind ≠ .hole) (ho : r.offset ≤ pos)
    (hn : pos + n ≤ r.stop) :
    readWindow r (pos - r.offset) n = .ok (bytesAt c pos n) := by
  have hpos : r.offset + (pos - r.offset) = pos := by omega
  rw [readWindow]
  split
  next hzero =>
    refine congrArg _ (List.ext_getElem (by simp [bytesAt]) fun i hi hi' => ?_)
    have hin : i < n := by simpa using hi
    have hcell := hr.cells (pos + i) (by omega) (by omega)
    rw [hzero] at hcell
    have hcell : c.cell (pos + i) = some 0 := hcell
    simp [bytesAt, hcell]
  next hzero =>
    have hdata : r.kind = .data := by
      cases h : r.kind with
      | data => rfl
      | hole => exact absurd h hk
      | zero => exact absurd h hzero
      | other => exact absurd h hr.known
    have hread := readRetry_delivers (hr.reads hdata (pos - r.offset) n (by omega))
    rw [hpos, length_bytesAt] at hread
    rw [hread]
    show (reject _ _ >>= fun _ => _) = _
    rw [reject, if_neg (not_not.2 length_bytesAt)]
    rfl

theorem Run.Of.hole_iff (hr : r.Of c) {i : Nat} (ho : r.offset ≤ i) (hi : i < r.stop) :
    r.kind = .hole ↔ c.cell i = none := by
  have hcell := hr.cells i ho hi
  cases h : r.kind with
  | hole | zero | data =>
    rw [h] at hcell
    simp_all [RunKind.Allows]
  | other => exact absurd h hr.known

/-- Equal bytes of cells that are present are equal cells. -/
theorem bytesAt_eq_iff (hc : ∀ i, pos ≤ i → i < pos + n → c.cell i ≠ none)
    (hd : ∀ i, pos ≤ i → i < pos + n → d.cell i ≠ none) :
    bytesAt c pos n = bytesAt d pos n ↔ ∀ i, pos ≤ i → i < pos + n → c.cell i = d.cell i := by
  rw [bytesAt, bytesAt, List.map_inj_left]
  refine forall_congr' fun i => ?_
  rw [List.mem_range'_1, and_imp]
  refine forall_congr' fun hi => forall_congr' fun hin => ?_
  obtain ⟨a, ha⟩ := Option.ne_none_iff_exists'.mp (hc i hi hin)
  obtain ⟨b, hb⟩ := Option.ne_none_iff_exists'.mp (hd i hi hin)
  rw [ha, hb, Option.getD_some, Option.getD_some, Option.some.injEq]

/-- The cells of two streams agree on a range. -/
def Agree (c d : Content) (lo hi : Nat) : Prop := ∀ i, lo ≤ i → i < hi → c.cell i = d.cell i

theorem Agree.split {lo mid hi : Nat} (h : lo ≤ mid) (h' : mid ≤ hi) :
    Agree c d lo mid ∧ Agree c d mid hi ↔ Agree c d lo hi := by
  refine ⟨fun hs i hl hh => ?_,
    fun hs => ⟨fun i hl hm => hs i hl (by omega), fun i hm hh => hs i (by omega) hh⟩⟩
  by_cases hm : i < mid
  · exact hs.1 i hl hm
  · exact hs.2 i (Nat.le_of_not_lt hm) hh

theorem compareBytes_decides (hl : l.Of c) (hr : r.Of d) (hlk : l.kind ≠ .hole)
    (hrk : r.kind ≠ .hole)
    (hlo : l.offset = offset) (hro : r.offset = offset) (hls : stop ≤ l.stop) (hrs : stop ≤ r.stop)
    (pos : Nat) (hpos : offset ≤ pos) :
    Decides (compareBytes l r offset stop pos) (Agree c d pos stop) := by
  by_cases hlt : pos < stop
  · have hbudget : 0 < budget := by decide
    generalize hn : min budget (stop - pos) = n
    have hin : pos + n ≤ stop := by omega
    have hleft : readWindow l (pos - offset) n = .ok (bytesAt c pos n) :=
      hlo ▸ readWindow_bytes hl hlk (by omega) (by omega)
    have hright : readWindow r (pos - offset) n = .ok (bytesAt d pos n) :=
      hro ▸ readWindow_bytes hr hrk (by omega) (by omega)
    have ih := compareBytes_decides hl hr hlk hrk hlo hro hls hrs (pos + n) (by omega)
    rw [compareBytes, if_pos hlt, hn]
    simp only [hleft, hright]
    refine ((Decides.reject _).seq fun _ => ih).congr
      (Iff.trans (and_congr_left' ?_) (Agree.split (by omega) hin))
    rw [not_not]
    exact bytesAt_eq_iff (fun i hi hi' hn => hlk ((hl.hole_iff (by omega) (by omega)).2 hn))
      fun i hi hi' hn => hrk ((hr.hole_iff (by omega) (by omega)).2 hn)
  · rw [compareBytes, if_neg hlt]
    exact .nil fun i hi hi' => absurd hi' (by omega)
termination_by stop - pos
decreasing_by
  have : 0 < budget := by decide
  omega

theorem checkRun_of (h : r.offset = offset ∧ offset < r.stop ∧ r.stop ≤ n) (hr : r.Of c) :
    checkRun offset n (some r) = .ok ⟨r, h.1, h.2.1, h.2.2, hr.known⟩ := by
  rw [checkRun, dif_pos h, dif_pos hr.known]

theorem compareRuns_decides (hl : l.Of c) (hr : r.Of d) (hlo : l.offset = offset)
    (hro : r.offset = offset) (hls : offset < l.stop) (hrs : offset < r.stop) :
    Decides (compareRuns l r offset) (Agree c d offset (min l.stop r.stop)) := by
  refine ((Decides.reject _).seq fun hkind => ?_).congr
    ⟨fun h => h.2, fun h => ⟨fun hkind => hkind ?_, h⟩⟩
  · have hkind : (l.kind = .hole) = (r.kind = .hole) := not_not.1 hkind
    split
    next hhole =>
      refine .nil fun i hi hi' => ?_
      rw [(hl.hole_iff (by omega) (by omega)).1 hhole,
        (hr.hole_iff (by omega) (by omega)).1 (hkind ▸ hhole)]
    next hhole =>
      have hhole' : ¬r.kind = .hole := hkind ▸ hhole
      exact compareBytes_decides hl hr hhole hhole' hlo hro (Nat.min_le_left ..)
        (Nat.min_le_right ..) offset
        (Nat.le_refl _)
  · rw [hl.hole_iff (by omega) hls, hr.hole_iff (i := offset) (by omega) hrs,
      h offset (Nat.le_refl _) (by omega)]

variable {s t : Stream δ}

theorem compareFrom_decides (hs : s.Of c) (ht : t.Of d) (hsize : s.size = t.size) (offset : Nat) :
    Decides (compareFrom s t offset) (Agree c d offset s.size) := by
  by_cases hlt : offset < s.size
  · obtain ⟨l, hlrun, hlo, hls, hlin, hl⟩ := hs.runs offset hlt
    obtain ⟨r, hrrun, hro, hrs, hrin, hr⟩ := ht.runs offset (hsize ▸ hlt)
    have ih := compareFrom_decides hs ht hsize (min l.stop r.stop)
    rw [compareFrom, if_pos hlt, hlrun, hrrun]
    show Decides (checkRun offset s.size (some l) >>= _) _
    rw [checkRun_of ⟨hlo, hls, hlin⟩ hl]
    rw [checkRun_of ⟨hro, hrs, hsize ▸ hrin⟩ hr]
    exact ((compareRuns_decides hl hr hlo hro hls hrs).seq fun _ => ih).congr
      (Agree.split (by omega) (by omega))
  · rw [compareFrom, if_neg hlt]
    exact .nil fun i hi hi' => absurd hi' (by omega)
termination_by s.size - offset

theorem compare_decides [DecidableEq δ] (hs : s.Of c) (ht : t.Of d)
    (hcommit : s.commitment = none ∨ t.commitment = none) :
    Decides (compareSparseStreams s t) (s.size = t.size ∧ Agree c d 0 s.size) := by
  have hsame : sameCommitment s t = false := by
    rcases hcommit with h | h <;> simp [sameCommitment, h]
  refine ((Decides.reject _).seq fun hsize => ?_).congr (by rw [not_not])
  rw [hsame]
  exact compareFrom_decides hs ht (not_not.1 hsize) 0

/-- Two streams with contents, not both with a payload commitment: the comparison returns,
and without an error if and only if the sizes, the holes and all other bytes are equal. -/
theorem compareSparseStreams_decides [DecidableEq δ] (hs : s.Of c) (ht : t.Of d)
    (hcommit : s.commitment = none ∨ t.commitment = none) :
    compareSparseStreams s t ≠ .error .waits ∧
    (compareSparseStreams s t = .ok () ↔ s.size = t.size ∧
      (∀ i < s.size, c.cell i = none ↔ d.cell i = none) ∧
      ∀ i < s.size, ∀ a b, c.cell i = some a → d.cell i = some b → a = b) := by
  have h := compare_decides hs ht hcommit
  refine ⟨h.returns,
    h.ok.trans
    (and_congr_right fun _ => ⟨fun heq => ⟨fun i hi => ?_, fun i hi a b ha hb => ?_⟩, ?_⟩)⟩
  · rw [heq i (Nat.zero_le i) hi]
  · rw [heq i (Nat.zero_le i) hi, hb] at ha
    exact (Option.some.inj ha).symm
  rintro ⟨hholes, hbytes⟩ i - hi
  cases hc : c.cell i with
  | none => exact ((hholes i hi).1 hc).symm
  | some a =>
    cases hd : d.cell i with
    | none => exact nomatch ((hholes i hi).2 hd).symm.trans hc
    | some b => rw [hbytes i hi a b hc hd]

/-- A content by runs of one cell, each read at the second attempt. -/
def cellStream (c : Content) : Stream Unit where
  size := c.size
  runAt off _ := .ok (some {
    kind := if c.cell off = none then .hole else .data
    offset := off
    stop := off + 1
    readAt := fun inner n =>
      [([], some (.other "timeout")), (bytesAt c (off + inner) n, some .eof)] })
  commitment := none

theorem cellStream_of (c : Content) : (cellStream c).Of c := by
  refine ⟨rfl, fun off hoff => ⟨_, rfl, rfl, Nat.lt_succ_self off, hoff, ?_, fun i hi hi' => ?_,
    fun _ inner n _ => ?_⟩⟩
  · dsimp only
    split <;> nofun
  · obtain rfl : off = i := Nat.le_antisymm hi (Nat.le_of_lt_succ hi')
    split
    next h => exact h
    next h => exact h
  · exact .again [] "timeout" (.last [])

theorem compareSparseStreams_decides_cells :
    let c : Content := ⟨2, fun i => if i = 0 then some 7 else none, fun i hi => if_neg (by omega)⟩
    compareSparseStreams (cellStream c) (cellStream c) = .ok () := by
  intro c
  refine (compareSparseStreams_decides (cellStream_of c) (cellStream_of c) (.inl rfl)).2.mpr
    ⟨rfl, fun i _ => .rfl, fun i _ a b ha hb => ?_⟩
  exact Option.some.inj (ha.symm.trans hb)

end Sandboxer.Artifact.Compared
