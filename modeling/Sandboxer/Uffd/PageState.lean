import Mathlib.Algebra.Ring.Nat
import Mathlib.Tactic.Common

/-! # Page states of the userfaultfd handler

`PageStateMap` of `uffd/state.go`: one state per 4 KiB page of the memfd. Every
operation of the source holds the map's lock once, so each is one function
here. Reads past the end give `absent` and writes past the end are dropped, as
in the source. -/
namespace Sandboxer.Uffd

/-- `PageSize` of `uffd/handler.go`. -/
@[irreducible] def pageSize : Nat := 4096

theorem pageSize_pos : 0 < pageSize := by simp [pageSize]

inductive PageState where
  | absent
  | loaded
  | released
  deriving DecidableEq, Repr

open PageState

structure PageStateMap where
  len : Nat
  pages : Nat → PageState

namespace PageStateMap

/-- `NewPageStateMap`. -/
def new (n : Nat) : PageStateMap := ⟨n, fun _ => absent⟩

variable (m : PageStateMap)

def get (pageIdx : Nat) : PageState :=
  if m.len ≤ pageIdx then absent else m.pages pageIdx

def set (pageIdx : Nat) (s : PageState) : PageStateMap :=
  if m.len ≤ pageIdx then m
  else { m with pages := fun i => if i = pageIdx then s else m.pages i }

def setRange (startIdx endIdx : Nat) (s : PageState) : PageStateMap :=
  if m.len ≤ startIdx ∨ endIdx ≤ startIdx then m
  else { m with pages := fun i => if startIdx ≤ i ∧ i < min endIdx m.len then s else m.pages i }

/-- `SetRangeIf`: the map, and the number of pages it changed. -/
def setRangeIf (startIdx endIdx : Nat) (old new : PageState) : PageStateMap × Nat :=
  if m.len ≤ startIdx ∨ endIdx ≤ startIdx then (m, 0)
  else
    ({ m with
        pages := fun i =>
          if startIdx ≤ i ∧ i < min endIdx m.len ∧ m.pages i = old then new else m.pages i },
      ((List.range' startIdx (min endIdx m.len - startIdx)).filter fun i => m.pages i = old).length)

variable (pages : Nat → PageState) (want : PageState)

/-- Consecutive pages equal to `want` from `i` on, among the next `n`. -/
def runUp (i : Nat) : Nat → Nat
  | 0 => 0
  | n + 1 => if pages i = want then runUp (i + 1) n + 1 else 0

/-- Consecutive pages equal to `want` just below `i`, at most `n` of them. -/
def runDown (i : Nat) : Nat → Nat
  | 0 => 0
  | n + 1 => if pages (i - 1) = want then runDown (i - 1) n + 1 else 0

def runLength (startIdx max : Nat) (want : PageState) : Nat :=
  if max = 0 ∨ m.len ≤ startIdx then 0
  else runUp m.pages want startIdx (min max (m.len - startIdx))

def runBounds (anchorIdx minIdx maxIdx : Nat) (want : PageState) : Nat × Nat :=
  let maxIdx := min maxIdx m.len
  if anchorIdx < minIdx ∨ maxIdx ≤ anchorIdx ∨ m.len ≤ anchorIdx then (anchorIdx, anchorIdx)
  else if m.pages anchorIdx ≠ want then (anchorIdx, anchorIdx)
  else
    (anchorIdx - runDown m.pages want anchorIdx (anchorIdx - minIdx),
      anchorIdx + 1 + runUp m.pages want (anchorIdx + 1) (maxIdx - (anchorIdx + 1)))

/-! ## What the operations do to one page -/

variable {m : PageStateMap} {i a b n : Nat} {s old new : PageState}

theorem lt_len_of_get_ne (h : m.get i ≠ absent) : i < m.len := by
  by_contra hlt
  exact h (by simp [get, Nat.le_of_not_lt hlt])

@[simp] theorem new_get : (PageStateMap.new n).get i = absent := by
  unfold get PageStateMap.new; split <;> rfl

@[simp] theorem set_len : (m.set a s).len = m.len := by
  unfold set; split <;> rfl

@[simp] theorem setRange_len : (m.setRange a b s).len = m.len := by
  unfold setRange; split <;> rfl

@[simp] theorem setRangeIf_len : (m.setRangeIf a b old new).1.len = m.len := by
  unfold setRangeIf; split <;> rfl

theorem get_set : (m.set a s).get i = if i = a ∧ i < m.len then s else m.get i := by
  by_cases hi : m.len ≤ i
  · simp [get, hi, Nat.not_lt.2 hi]
  by_cases ha : m.len ≤ a
  · have : ¬(i = a ∧ i < m.len) := by omega
    simp [set, ha, this]
  · simp [set, get, ha, hi, Nat.lt_of_not_le hi]

theorem get_setRange :
    (m.setRange a b s).get i = if a ≤ i ∧ i < b ∧ i < m.len then s else m.get i := by
  unfold setRange
  split
  · have : ¬(a ≤ i ∧ i < b ∧ i < m.len) := by omega
    simp [this]
  · by_cases hi : m.len ≤ i
    · simp [get, hi, Nat.not_lt.2 hi]
    · simp only [get, hi, Nat.lt_of_not_le hi, Nat.lt_min, and_true, if_false]

theorem get_setRangeIf : (m.setRangeIf a b old new).1.get i =
    if a ≤ i ∧ i < b ∧ i < m.len ∧ m.get i = old then new else m.get i := by
  unfold setRangeIf
  split
  · have : ¬(a ≤ i ∧ i < b ∧ i < m.len ∧ m.get i = old) := by omega
    simp [this]
  · by_cases hi : m.len ≤ i
    · simp [get, hi, Nat.not_lt.2 hi]
    · simp only [get, hi, Nat.lt_of_not_le hi, Nat.lt_min, and_true, true_and, if_false]

/-! ## Runs -/

theorem runUp_le (i n : Nat) : runUp pages want i n ≤ n := by
  induction n generalizing i with
  | zero => simp [runUp]
  | succ n ih =>
    unfold runUp
    split
    · exact Nat.succ_le_succ (ih _)
    · exact Nat.zero_le _

theorem runUp_spec (i n j : Nat) (h : j < runUp pages want i n) : pages (i + j) = want := by
  induction n generalizing i j with
  | zero => simp [runUp] at h
  | succ n ih =>
    unfold runUp at h
    split at h
    next hi =>
      cases j with
      | zero => simpa using hi
      | succ j =>
        have := ih (i + 1) j (by omega)
        rwa [show i + (j + 1) = i + 1 + j by omega]
    · omega

theorem runDown_le (i n : Nat) : runDown pages want i n ≤ n := by
  induction n generalizing i with
  | zero => simp [runDown]
  | succ n ih =>
    unfold runDown
    split
    · exact Nat.succ_le_succ (ih _)
    · exact Nat.zero_le _

theorem runLength_le (startIdx max : Nat) (want : PageState) :
    m.runLength startIdx max want ≤ max := by
  unfold runLength
  split
  · exact Nat.zero_le _
  · exact Nat.le_trans (runUp_le _ _ _ _) (Nat.min_le_left _ _)

variable {want : PageState}

theorem add_runLength_le {startIdx max : Nat} (h : m.runLength startIdx max want ≠ 0) :
    startIdx + m.runLength startIdx max want ≤ m.len := by
  unfold runLength at h ⊢
  split at h
  · exact absurd rfl h
  next hc =>
    rw [if_neg hc]
    have := runUp_le m.pages want startIdx (min max (m.len - startIdx))
    omega

/-- Every page counted by `RunLength` had the state asked for. -/
theorem runLength_spec {startIdx max j : Nat}
    (h : j < m.runLength startIdx max want) : m.get (startIdx + j) = want := by
  have hne : m.runLength startIdx max want ≠ 0 := by omega
  have hle := add_runLength_le hne
  rw [get, if_neg (by omega)]
  unfold runLength at h
  split at h
  · omega
  · exact runUp_spec _ _ _ _ _ h

/-- The run of `RunBounds` stays between its bounds and around its anchor. -/
theorem runBounds_bounds {anchorIdx minIdx maxIdx lo hi : Nat}
    (h : m.runBounds anchorIdx minIdx maxIdx want = (lo, hi)) (hne : lo ≠ hi) :
    minIdx ≤ lo ∧ lo ≤ anchorIdx ∧ anchorIdx < hi ∧ hi ≤ maxIdx := by
  unfold runBounds at h
  simp only at h
  split at h
  · cases h; exact absurd rfl hne
  split at h
  · cases h; exact absurd rfl hne
  cases h
  have h1 := runDown_le m.pages want anchorIdx (anchorIdx - minIdx)
  have h2 := runUp_le m.pages want (anchorIdx + 1) (min maxIdx m.len - (anchorIdx + 1))
  omega

end PageStateMap

end Sandboxer.Uffd
