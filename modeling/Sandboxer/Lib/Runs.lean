import Sandboxer.Lib.Words
import Sandboxer.Lib.Outcomes

/-! # Sources of runs

A source is asked for the run at a position and answers with a run of cells of
one kind that starts there. Asking again at the end of each run visits every
position once. How such a run is found: by the end of a run of equal bits, and
by the first of a list of answers that differs from the one before. -/
namespace Sandboxer.Lib.Runs

open Outcomes

variable {κ ε : Type}

/-- The positions `[off, stop)`, all of one kind. -/
structure Run (κ : Type) where
  off : Nat
  stop : Nat
  kind : κ
  deriving DecidableEq, Repr

def Run.Contains (run : Run κ) (x : Nat) : Prop := run.off ≤ x ∧ x < run.stop

/-- What a source of `size` positions, in cells of `unit`, promises of the run at `off`
it returns for a limit. -/
structure Run.Fits (size unit : Nat) (kindOf : Nat → κ) (off limit : Nat) (run : Run κ) : Prop where
  start : run.off = off
  nonempty : off < run.stop
  size : run.stop ≤ size
  limit : run.stop ≤ off + limit
  kind : ∀ cell, off / unit ≤ cell → cell * unit < run.stop → kindOf cell = run.kind

section Walk

variable (runAt : (call off limit : Nat) → Except ε (Run κ)) (limit : Nat → Nat) (size : Nat)

/-- Asking for runs one after the other until `size` is reached; call number `call` is
made with the limit of that number, and the walk ends at the first error. -/
inductive Walk : (call off : Nat) → Except ε (List (Run κ)) → Prop where
  | done {call off : Nat} (h : size ≤ off) : Walk call off (.ok [])
  | next {call off : Nat} {run : Run κ} {runs : List (Run κ)} (h : off < size)
      (hrun : runAt call off (limit call) = .ok run) (hrest : Walk (call + 1) run.stop (.ok runs)) :
      Walk call off (.ok (run :: runs))
  | stop {call off : Nat} {e : ε} (h : off < size) (hrun : runAt call off (limit call) = .error e) :
      Walk call off (.error e)
  | later {call off : Nat} {run : Run κ} {e : ε} (h : off < size)
      (hrun : runAt call off (limit call) = .ok run) (hrest : Walk (call + 1) run.stop (.error e)) :
      Walk call off (.error e)

/-- Runs that lie in `[off, size)`, with every position in exactly one of them. -/
structure Tiles (off size : Nat) (runs : List (Run κ)) : Prop where
  within : ∀ run ∈ runs, off ≤ run.off ∧ run.stop ≤ size
  once : ∀ x, off ≤ x → x < size → ∃! i : Nat, ∃ run : Run κ, runs[i]? = some run ∧ run.Contains x

variable {runAt limit size} {unit : Nat} {kindOf : Nat → κ} {off : Nat}

theorem Tiles.nil (h : size ≤ off) : Tiles off size ([] : List (Run κ)) :=
  ⟨nofun, fun x hx hs => by omega⟩

theorem Tiles.cons {lim : Nat} {run : Run κ} {runs : List (Run κ)}
    (hfits : run.Fits size unit kindOf off lim)
    (h : Tiles run.stop size runs) : Tiles off size (run :: runs) := by
  obtain ⟨hstart, hne, hsize, -, -⟩ := hfits
  refine ⟨fun r hr => ?_, fun x hx hs => ?_⟩
  · rcases List.mem_cons.1 hr with rfl | hr
    · exact ⟨le_of_eq hstart.symm, hsize⟩
    · have := h.within r hr
      exact ⟨by omega, this.2⟩
  · have later : ∀ {i : Nat} {r : Run κ}, runs[i]? = some r → r.Contains x → run.stop ≤ x :=
      fun hr hc =>
      le_trans (h.within _ (List.mem_of_getElem? hr)).1 hc.1
    by_cases hlt : x < run.stop
    · refine ⟨0, ⟨run, rfl, by rw [hstart]; exact hx, hlt⟩, ?_⟩
      rintro (_ | i) ⟨r, hr, hc⟩
      · rfl
      · have := later hr hc
        omega
    · obtain ⟨i, hi, hunique⟩ := h.once x (not_lt.1 hlt) hs
      refine ⟨i + 1, hi, ?_⟩
      rintro (_ | j) ⟨r, hr, hc⟩
      · cases hr
        exact absurd hc.2 hlt
      · rw [hunique j ⟨r, hr, hc⟩]

section

variable {fails : (call off limit : Nat) → ε → Prop}
  (hruns : ∀ call off, off < size →
  Meets (fails call off (limit call)) (Run.Fits size unit kindOf off (limit call))
  (runAt call off (limit call)))

include hruns

/-- A walk visits every position once, in runs that fit, or ends with the failure of a call. -/
theorem Walk.tiles {call : Nat} {out : Except ε (List (Run κ))}
    (h : Walk runAt limit size call off out) :
    Meets (fun e => ∃ call off, off < size ∧ fails call off (limit call) e)
    (Tiles off size) out := by
  induction h with
  | done h => exact .ok (.nil h)
  | next hlt hrun _ ih => exact .ok (.cons ((hruns _ _ hlt).of_ok hrun) (ih.of_ok rfl))
  | stop hlt hrun => exact .error ⟨_, _, hlt, (hruns _ _ hlt).of_error hrun⟩
  | later _ _ _ ih => exact .error (ih.of_error rfl)

/-- Every walk comes to an end. -/
theorem Walk.total (call off : Nat) : ∃ out, Walk runAt limit size call off out := by
  induction hn : size - off using Nat.strongRecOn generalizing call off with
  | _ n ih =>
    by_cases hlt : off < size
    · cases hrun : runAt call off (limit call) with
      | error e => exact ⟨_, .stop hlt hrun⟩
      | ok run =>
        have hne := ((hruns call off hlt).of_ok hrun).nonempty
        obtain ⟨out, hout⟩ := ih (size - run.stop) (by omega) (call + 1) run.stop rfl
        cases out with
        | ok runs => exact ⟨_, .next hlt hrun hout⟩
        | error e => exact ⟨_, .later hlt hrun hout⟩
    · exact ⟨_, .done (not_lt.1 hlt)⟩

end

/-- What is said of a source whose calls fail only as `fails` has it: a call returns a run that
fits, and walks with positive limits end, having visited every position once unless a call
failed. -/
structure Exports (runAt : (call off limit : Nat) → Except ε (Run κ))
    (fails : (call off limit : Nat) → ε → Prop) (size unit : Nat) (kindOf : Nat → κ) : Prop where
  runs : ∀ call off limit, off < size → 0 < limit →
    Meets (fails call off limit) (Run.Fits size unit kindOf off limit) (runAt call off limit)
  ends : ∀ limit : Nat → Nat, (∀ call, 0 < limit call) → ∃ out, Walk runAt limit size 0 0 out
  tiles : ∀ limit : Nat → Nat, (∀ call, 0 < limit call) → ∀ out, Walk runAt limit size 0 0 out →
    Meets (fun e => ∃ call off, off < size ∧ fails call off (limit call) e) (Tiles 0 size) out

theorem Exports.of_runs {fails : (call off limit : Nat) → ε → Prop}
    (h : ∀ call off limit, off < size → 0 < limit →
      Meets (fails call off limit) (Run.Fits size unit kindOf off limit) (runAt call off limit)) :
    Exports runAt fails size unit kindOf where
  runs := h
  ends := fun _ hlimit => Walk.total (fun call off hoff => h call off _ hoff (hlimit call)) 0 0
  tiles := fun _ hlimit _ hwalk => hwalk.tiles fun call off hoff => h call off _ hoff (hlimit call)

end Walk

/-! ## Finding a run -/

section Cells

variable {unit : Nat}

/-- The number of cells the positions below `stop` are in. -/
def cellsBelow (unit stop : Nat) : Nat := (stop + unit - 1) / unit

theorem lt_cellsBelow (hu : 0 < unit) {cell stop : Nat} :
    cell < cellsBelow unit stop ↔ cell * unit < stop := by
  rw [cellsBelow, Nat.lt_iff_add_one_le, Nat.le_div_iff_mul_le hu, Nat.succ_mul]
  omega

theorem cellsBelow_le (hu : 0 < unit) {n stop : Nat} (h : stop ≤ n * unit) :
    cellsBelow unit stop ≤ n := by
  by_contra hlt
  have := (lt_cellsBelow hu).1 (not_le.1 hlt)
  omega

theorem div_mul_lt {off stop : Nat} (h : off < stop) : off / unit * unit < stop :=
  lt_of_le_of_lt (Nat.div_mul_le_self off unit) h

theorem lt_succ_div_mul (hu : 0 < unit) (off : Nat) : off < (off / unit + 1) * unit := by
  rw [Nat.mul_comm]
  exact Nat.lt_mul_div_succ off hu

variable {bits : Nat → Bool} {off before stop : Nat}

/-- The part `[off, stop)` of `[off, before)` that ends with the run of equal bits. -/
structure Framed (unit : Nat) (bits : Nat → Bool) (off before stop : Nat) : Prop where
  nonempty : off < stop
  le : stop ≤ before
  same : ∀ cell, off / unit ≤ cell → cell * unit < stop → bits cell = bits (off / unit)

theorem Framed.of_ends (hu : 0 < unit) {last : Nat} (hlt : off < before)
    (h : Words.Ends bits (bits (off / unit)) (off / unit) (cellsBelow unit before) last)
    (hlast : off / unit < last) :
    Framed unit bits off before (min before (last * unit)) where
  nonempty := by
    have hend := lt_succ_div_mul hu off
    have := Nat.mul_le_mul_right unit (Nat.succ_le_of_lt hlast)
    rw [Nat.succ_eq_add_one] at this
    omega
  le := min_le_left ..
  same := fun cell hcell hstop => by
    refine h.run cell hcell (Nat.lt_of_mul_lt_mul_right (a := unit) ?_)
    omega

theorem Framed.mono {before' : Nat} (h : Framed unit bits off before stop)
    (hle : before ≤ before') :
    Framed unit bits off before' stop := { h with le := le_trans h.le hle }

/-- The end of the run at `off`, at the latest at `before`: a run of cells whose bit is set
is cut to a window, and every run where the bit changes. -/
def frameStop (unit window : Nat) (present : Bool) (runEnd : Nat → Nat) (off before : Nat) : Nat :=
  let stop := if present then min before ((off / unit + window) * unit) else before
  min stop (runEnd (cellsBelow unit stop) * unit)

theorem frameStop_framed (hu : 0 < unit) {window : Nat} (hw : 0 < window) {runEnd : Nat → Nat}
    (hlt : off < before) (hends : ∀ cells, off / unit < cells →
      Words.Ends bits (bits (off / unit)) (off / unit) cells (runEnd cells) ∧
        off / unit < runEnd cells) :
    Framed unit bits off before (frameStop unit window (bits (off / unit)) runEnd off before) ∧
    (bits (off / unit) = true →
      cellsBelow unit (frameStop unit window (bits (off / unit)) runEnd off before) - off / unit ≤
        window) := by
  have framed : ∀ {stop : Nat}, off < stop → stop ≤ before →
      Framed unit bits off before (min stop (runEnd (cellsBelow unit stop) * unit)) :=
        fun hoff hle => by
    obtain ⟨hrun, hmore⟩ := hends _ ((lt_cellsBelow hu).2 (div_mul_lt hoff))
    exact (Framed.of_ends hu hoff hrun hmore).mono hle
  rw [frameStop]
  cases hbit : bits (off / unit) with
  | false => exact ⟨framed hlt le_rfl, nofun⟩
  | true =>
    have hwindow : off < (off / unit + window) * unit :=
      lt_of_lt_of_le (lt_succ_div_mul hu off) (Nat.mul_le_mul_right _ (by omega))
    refine ⟨framed (Nat.lt_min.2 ⟨hlt, hwindow⟩) (min_le_left ..), fun _ => ?_⟩
    refine Nat.sub_le_of_le_add ?_
    rw [Nat.add_comm]
    exact cellsBelow_le hu (le_trans (min_le_left ..) (min_le_right ..))

/-- Where the answers for the cells from `cell` on first differ. -/
def firstOther (answers : List Bool) : Option Nat :=
  match answers with
  | [] => none
  | a :: rest => (rest.findIdx? (· != a)).map (· + 1)

variable {answers : List Bool}

theorem firstOther_none (h : firstOther answers = none) :
    ∀ i < answers.length, answers[i]? = answers[0]? := by
  cases answers with
  | nil => exact nofun
  | cons a rest =>
    rw [firstOther, Option.map_eq_none_iff, List.findIdx?_eq_none_iff] at h
    intro i hi
    cases i with
    | zero => rfl
    | succ i =>
      obtain ⟨b, hat⟩ : ∃ b, rest[i]? = some b := ⟨_, List.getElem?_eq_getElem (by simpa using hi)⟩
      have := h b (List.mem_of_getElem? hat)
      rw [List.getElem?_cons_succ, hat, List.getElem?_cons_zero]
      simpa using this

theorem firstOther_some {n : Nat} (h : firstOther answers = some n) :
    0 < n ∧ n < answers.length ∧ ∀ i < n, answers[i]? = answers[0]? := by
  cases answers with
  | nil => cases h
  | cons a rest =>
    rw [firstOther, Option.map_eq_some_iff] at h
    obtain ⟨m, hm, rfl⟩ := h
    obtain ⟨hlt, -, hbefore⟩ := List.findIdx?_eq_some_iff_getElem.1 hm
    refine ⟨Nat.succ_pos m, Nat.succ_lt_succ hlt, fun i hi => ?_⟩
    cases i with
    | zero => rfl
    | succ i =>
      have hat := List.getElem?_eq_getElem (show i < rest.length by omega)
      have := hbefore i (by omega)
      rw [List.getElem?_cons_succ, hat, List.getElem?_cons_zero]
      simpa using this

/-- A run cut where the answers for its cells first differ. -/
def cutRun (unit : Nat) (off stop : Nat) (answers : List Bool) : Nat :=
  match firstOther answers with
  | none => stop
  | some i => min stop ((off / unit + i) * unit)

theorem cutRun_framed (hu : 0 < unit) (hlt : off < stop)
    (hlen : answers.length = cellsBelow unit stop - off / unit) :
    off < cutRun unit off stop answers ∧ cutRun unit off stop answers ≤ stop ∧
    ∀ cell, off / unit ≤ cell → cell * unit < cutRun unit off stop answers →
      answers[cell - off / unit]? = answers[0]? := by
  rw [cutRun]
  cases h : firstOther answers with
  | none =>
    dsimp only
    refine ⟨hlt, le_rfl, fun cell hcell hstop => firstOther_none h _ ?_⟩
    have := (lt_cellsBelow hu).2 hstop
    omega
  | some i =>
    obtain ⟨hpos, -, hsame⟩ := firstOther_some h
    dsimp only
    refine ⟨?_, min_le_left .., fun cell hcell hstop => hsame _ ?_⟩
    · have hend := lt_succ_div_mul hu off
      have := Nat.mul_le_mul_right unit (show off / unit + 1 ≤ off / unit + i by omega)
      omega
    · have hcut : cell * unit < (off / unit + i) * unit := lt_of_lt_of_le hstop (min_le_right ..)
      have := Nat.lt_of_mul_lt_mul_right hcut
      omega

/-- The first difference lies in the run. -/
theorem firstOther_lt (hu : 0 < unit) {i : Nat} (h : firstOther answers = some i)
    (hlen : answers.length = cellsBelow unit stop - off / unit) :
    (off / unit + i) * unit < stop := by
  have := (firstOther_some h).2.1
  exact (lt_cellsBelow hu).1 (by omega)

end Cells

end Sandboxer.Lib.Runs
