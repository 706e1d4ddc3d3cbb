import Mathlib.Data.List.Basic
import Sandboxer.Resctl.Worker

/-! # What authorizes an inflating resize

The journal lists accepted reports, decisions, pressure signals, the mutation
gate and resizes, newest first. `Authorized` reads off it what has to stand
behind a resize that raises the balloon target, `Backed` what the controller
sees to in every run. An `Orderly` journal has none of the orders of events in
which the two differ. -/
namespace Sandboxer.Resctl

/-! ## Reading the journal -/

/-- The accepted reports, newest first. -/
def reports : List Note → List MemReport :=
  List.filterMap fun n => match n with | .accepted r => some r | _ => none

/-- The journal as it was when the mutation gate was last taken. -/
def beforeGate : List Note → List Note
  | [] => []
  | .gate :: journal => journal
  | _ :: journal => beforeGate journal

/-- Some occurrence of `n` has nothing `bad` after it. -/
def Since (n : Note) (bad : Note → Bool) (journal : List Note) : Prop :=
  ∃ later earlier, journal = later ++ n :: earlier ∧ ∀ x ∈ later, bad x = false

/-- Only reports arrived since `o` was observed. -/
def JustObserved (o : Observation) (journal : List Note) : Prop :=
  ∃ arrivals earlier, journal = arrivals ++ .observed o :: earlier ∧
    ∀ n ∈ arrivals, ∃ r, n = .accepted r

/-- The pressure floor and whether the last report decided since it was set, or
since a pressure signal, asked for less: two consecutive such reports clear it. -/
def pressureFloorStep : Note → Nat × Bool → Nat × Bool
  | .floor budget, (_, low) => (budget, low)
  | .pressure .., (floor, _) => (floor, false)
  | .decided _ requested _, (floor, low) =>
    if requested < floor then (if low then (0, false) else (floor, true)) else (floor, false)
  | _, state => state

def pressureFloor (journal : List Note) : Nat × Bool := journal.foldr pressureFloorStep (0, false)

/-- The end of a target change. -/
def Note.ends : Note → Bool
  | .finished | .grown => true
  | _ => false

def Note.isPressure : Note → Bool
  | .pressure .. => true
  | _ => false

/-- What stands behind an inflating resize to `target`: the newest report at the
gate asks for no more than its Budget, and no target change ended and no pressure
signal was processed since that report was accepted; the target is a step above
what was just observed and within the pressure floor; and that report is behind
no other inflating target. -/
def Authorized (cfg : Config) (target : Nat) (journal : List Note) : Prop :=
  ∃ report requested o, (reports (beforeGate journal)).head? = some report ∧
    .decided report requested false ∈ beforeGate journal ∧
    requested ≤ budgetFromTarget cfg.capacity target ∧
    JustObserved o journal ∧
    target ≤ o.acceptedTarget + memoryStep ∧ target ≤ o.balloonCurrent + memoryStep ∧
    Since (.accepted report) (fun n => n.ends || n.isPressure) journal ∧
    (∀ later earlier t accepted, journal = later ++ .resize t accepted :: earlier → accepted < t →
      (reports (beforeGate earlier)).head? = some report → t = target) ∧
    (pressureFloor journal).1 ≤ budgetFromTarget cfg.capacity target

/-! ## What the controller sees to -/

/-- The pressure floor and its low mark as the controller keeps them: a report
that is not weighed against the floor leaves the mark. -/
def floorStep : Note → Nat × Bool → Nat × Bool
  | .floor budget, (_, low) => (budget, low)
  | .pressure .., (floor, _) | .unmarked, (floor, _) => (floor, false)
  | .decided _ requested _, (floor, low) =>
    if requested < floor then (if low then (0, false) else (floor, true)) else (floor, low)
  | _, state => state

def floorState (journal : List Note) : Nat × Bool := journal.foldr floorStep (0, false)

def Note.isFinished : Note → Bool
  | .finished => true
  | _ => false

/-- What ends the support of a retained shrink: a growth, or a pressure signal
other than one at full Capacity that finds the shrink. -/
def Note.voids : Note → Bool
  | .pressure full shrinks => !(full && shrinks)
  | .grown => true
  | _ => false

/-- What the controller has checked of an inflating resize to `target`. -/
def Backed (cfg : Config) (target : Nat) (journal : List Note) : Prop :=
  ∃ report requested o, (reports (beforeGate journal)).head? = some report ∧
    .decided report requested false ∈ beforeGate journal ∧
    requested ≤ budgetFromTarget cfg.capacity target ∧
    JustObserved o journal ∧
    target ≤ o.acceptedTarget + memoryStep ∧ target ≤ o.balloonCurrent + memoryStep ∧
    Since (.accepted report) Note.isFinished journal ∧
    (∀ later earlier t accepted, journal = later ++ .resize t accepted :: earlier → accepted < t →
      (reports (beforeGate earlier)).head? = some report → t = target) ∧
    (floorState journal).1 ≤ budgetFromTarget cfg.capacity target ∧
    Since (.decided report requested false) Note.voids journal

def NoteOk (cfg : Config) (earlier : List Note) : Note → Prop
  | .resize target accepted => accepted < target → Backed cfg target earlier
  | _ => True

/-- Every inflating resize was backed when it was issued. -/
def Journaled (cfg : Config) : List Note → Prop
  | [] => True
  | n :: earlier => NoteOk cfg earlier n ∧ Journaled cfg earlier

variable {n : Note}

theorem Journaled.note {cfg : Config} {later earlier : List Note}
    (h : Journaled cfg (later ++ n :: earlier)) : NoteOk cfg earlier n := by
  induction later with
  | nil => exact h.1
  | cons _ _ ih => exact ih h.2

/-! ## How the readings change with a note -/

@[simp] theorem reports_accepted (r : MemReport) (journal : List Note) :
    reports (.accepted r :: journal) = r :: reports journal := rfl

theorem reports_cons (journal : List Note) (h : ∀ r, n ≠ .accepted r) :
    reports (n :: journal) = reports journal := by
  cases n with
  | accepted r => exact absurd rfl (h r)
  | _ => rfl

variable {journal : List Note}

theorem mem_reports {r : MemReport} : r ∈ reports journal ↔ .accepted r ∈ journal := by
  induction journal with
  | nil => simp [reports]
  | cons n journal ih =>
    cases n with
    | accepted r' => simp [ih]
    | _ => rw [reports_cons _ (by simp), ih]; simp

theorem beforeGate_cons (journal : List Note) (h : n ≠ .gate) :
    beforeGate (n :: journal) = beforeGate journal := by
  cases n with
  | gate => exact absurd rfl h
  | _ => rfl

theorem beforeGate_suffix (journal : List Note) : beforeGate journal <:+ journal := by
  induction journal with
  | nil => exact List.suffix_refl _
  | cons n journal ih =>
    by_cases h : n = .gate
    · subst h
      exact List.suffix_cons ..
    · rw [beforeGate_cons _ h]
      exact ih.trans (List.suffix_cons ..)

theorem Since.here (n : Note) (bad : Note → Bool) (journal : List Note) :
    Since n bad (n :: journal) :=
  ⟨[], journal, rfl, by simp⟩

variable {bad : Note → Bool}

theorem Since.mem (h : Since n bad journal) : n ∈ journal := by
  obtain ⟨later, earlier, rfl, -⟩ := h
  exact List.mem_append_right _ (.head _)

theorem Since.cons {x : Note} (h : Since n bad journal) (hx : bad x = false) :
    Since n bad (x :: journal) := by
  obtain ⟨later, earlier, rfl, hb⟩ := h
  exact ⟨x :: later, earlier, rfl, by simpa [hx] using hb⟩

/-- What holds since `n` for two kinds of notes holds since its last occurrence for both. -/
theorem Since.or {bad' : Note → Bool} (h : Since n bad journal) (h' : Since n bad' journal) :
    Since n (fun x => bad x || bad' x) journal := by
  obtain ⟨l, e, rfl, hb⟩ := h
  obtain ⟨l', e', heq, hb'⟩ := h'
  have hp : l' <+: l ++ n :: e := ⟨n :: e', heq.symm⟩
  rcases List.prefix_or_prefix_of_prefix (List.prefix_append l (n :: e)) hp with hle | hle
  · exact ⟨l, e, rfl, fun x hx => by simp [hb x hx, hb' x (hle.subset hx)]⟩
  · exact ⟨l', e', heq, fun x hx => by simp [hb x (hle.subset hx), hb' x hx]⟩

theorem JustObserved.accepted {o : Observation} (h : JustObserved o journal)
    (r : MemReport) : JustObserved o (.accepted r :: journal) := by
  obtain ⟨arrivals, earlier, rfl, ha⟩ := h
  refine ⟨.accepted r :: arrivals, earlier, rfl, fun n hn => ?_⟩
  rcases List.mem_cons.1 hn with rfl | hn
  · exact ⟨r, rfl⟩
  · exact ha n hn

@[simp] theorem floorState_cons (n : Note) (journal : List Note) :
    floorState (n :: journal) = floorStep n (floorState journal) := rfl

/-- A note that neither the floor nor the low-demand memory depends on. -/
def Note.floorless : Note → Bool
  | .floor _ | .pressure .. | .decided .. | .unmarked => false
  | _ => true

theorem floorStep_floorless (h : n.floorless = true) (state : Nat × Bool) :
    floorStep n state = state := by
  cases n with
  | floor _ | pressure _ _ | decided _ _ _ | unmarked => cases h
  | _ => rfl

/-! ## Orders of events in which the two agree -/

/-- What makes a report that is still waiting one from before. -/
def Note.overtakes : Note → Bool
  | .pressure .. | .grown => true
  | _ => false

/-- No pressure signal finds a retained shrink at full Capacity; a report that
asks for no growth is decided before a pressure signal or the end of a growth
overtakes it; and one below the pressure floor finds no low mark from before a
report that was not below it. -/
def NoteOrderly (earlier : List Note) : Note → Prop
  | .pressure full shrinks => ¬(full = true ∧ shrinks = true)
  | .decided report requested grows =>
    (grows = false → Since (.accepted report) Note.overtakes earlier) ∧
    (requested < (floorState earlier).1 → (floorState earlier).2 = true →
      (pressureFloor earlier).2 = true)
  | _ => True

def Orderly : List Note → Prop
  | [] => True
  | n :: earlier => NoteOrderly earlier n ∧ Orderly earlier

theorem Orderly.note (later earlier : List Note) (h : Orderly (later ++ n :: earlier)) :
    NoteOrderly earlier n := by
  induction later with
  | nil => exact h.1
  | cons _ _ ih => exact ih h.2

theorem Orderly.suffix {later earlier : List Note} (h : Orderly (later ++ earlier)) :
    Orderly earlier := by
  induction later with
  | nil => exact h
  | cons _ _ ih => exact ih h.2

/-- In order, a floor that is not cleared is the one the controller keeps. -/
theorem Orderly.floor (h : Orderly journal) :
    (pressureFloor journal).1 = 0 ∨ (pressureFloor journal).1 = (floorState journal).1 := by
  induction journal with
  | nil => exact .inl rfl
  | cons n earlier ih =>
    have hcons : pressureFloor (n :: earlier) = pressureFloorStep n (pressureFloor earlier) := rfl
    have ih := ih h.2
    have hnote := h.1
    rw [hcons, floorState_cons]
    cases n with
    | decided r q g =>
      have hmark := hnote.2
      simp only [pressureFloorStep, floorStep]
      generalize pressureFloor earlier = spec at ih hmark ⊢
      generalize floorState earlier = code at ih hmark ⊢
      obtain ⟨F, low⟩ := spec
      obtain ⟨F', low'⟩ := code
      simp only at ih hmark ⊢
      rcases ih with rfl | rfl
      · simp
      by_cases hq : q < F
      · cases low <;> cases low' <;> simp_all
      · simp [hq]
    | floor b => exact .inr rfl
    | _ => exact ih

theorem Orderly.since {r : MemReport} {q : Nat} (h : Orderly journal)
    (hd : Since (.decided r q false) Note.voids journal) :
    Since (.accepted r) Note.overtakes journal := by
  obtain ⟨later, earlier, rfl, hv⟩ := hd
  obtain ⟨l, e, rfl, ho⟩ := h.note.1 rfl
  refine ⟨later ++ .decided r q false :: l, e, by simp, fun x hx => ?_⟩
  rcases List.mem_append.1 hx with hx | hx
  · -- a pressure signal that leaves the support is one that finds the shrink
    have hvoid := hv x hx
    cases x with
    | pressure full shrinks =>
      obtain ⟨l₁, l₂, rfl⟩ := List.append_of_mem hx
      have hno : ¬(full = true ∧ shrinks = true) := Orderly.note (n := .pressure full shrinks)
        l₁ (l₂ ++ .decided r q false :: (l ++ .accepted r :: e)) (by simpa using h)
      simp only [Note.voids, Bool.not_eq_false', Bool.and_eq_true] at hvoid
      exact absurd hvoid hno
    | grown => cases hvoid
    | _ => rfl
  · rcases List.mem_cons.1 hx with rfl | hx
    · rfl
    · exact ho x hx

/-- In order, what the controller has checked is all that has to stand behind a resize. -/
theorem Backed.authorized {cfg : Config} {target : Nat} (h : Backed cfg target journal)
    (ho : Orderly journal) : Authorized cfg target journal := by
  obtain ⟨r, q, o, hnew, hdec, hask, hobs, hacc, hcur, hfin, honce, hfloor, hsince⟩ := h
  refine ⟨r, q, o, hnew, hdec, hask, hobs, hacc, hcur, ?_, honce, ?_⟩
  · obtain ⟨later, earlier, heq, hb⟩ := hfin.or (ho.since hsince)
    refine ⟨later, earlier, heq, fun x hx => ?_⟩
    have := hb x hx
    cases x with
    | finished | grown | pressure _ _ => cases this
    | _ => rfl
  · rcases ho.floor with h0 | heq
    · rw [h0]
      exact Nat.zero_le _
    · exact heq.le.trans hfloor

end Sandboxer.Resctl
