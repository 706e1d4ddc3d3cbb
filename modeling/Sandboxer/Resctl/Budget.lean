import Mathlib.Algebra.Ring.Nat
import Mathlib.Order.Lattice

/-! # Memory arithmetic

The integer arithmetic of the sandbox-local memory policy: balloon targets and
the guest Budgets they leave, the aligned shrink step, and `memory.high`.
Sizes are bytes. The machine's 64-bit operations are written out as saturating
operations on natural numbers. -/
namespace Sandboxer.Resctl

def maxUint64 : Nat := 2 ^ 64 - 1

/-- `resource.MemoryStep`. -/
def memoryStep : Nat := 64 * 2 ^ 20

/-- `resource.RatioScale`. -/
def ratioScale : Nat := 1000000

def balloonPageSize : Nat := 2 ^ 12

def maxUint32 : Nat := 2 ^ 32 - 1

inductive MemoryError where
  | overflow
  | capacityNotPositive
  | headroomOutside (headroom capacity : Nat)
  | targetExceedsCapacity (target capacity : Nat)
  | currentExceedsCapacity (current capacity : Nat)
  | ratioOutside (ratio : Nat)
  | capacityUnaligned (capacity : Nat)
  | balloonExceedsCapacity (balloon capacity : Nat)
  | balloonUnaligned (balloon : Nat)
  | balloonOutsidePfnRange (balloon : Nat)
  deriving Repr, DecidableEq

def saturatingAdd (a b : Nat) : Nat × Bool :=
  if a + b > maxUint64 then (maxUint64, true) else (a + b, false)

def saturatingSub (a b : Nat) : Nat × Bool :=
  if a < b then (0, true) else (a - b, false)

def clampMemory (value capacity : Nat) : Nat := if value > capacity then capacity else value

def alignDown (value step : Nat) : Nat := if step = 0 then 0 else value - value % step

/-- The guest Budget a balloon target leaves. -/
def budgetFromTarget (capacity target : Nat) : Nat :=
  (saturatingSub capacity (clampMemory target capacity)).1

/-- The balloon target for a Budget, rounded down to a step. -/
def targetForBudget (capacity budget : Nat) : Nat :=
  alignDown (saturatingSub capacity (clampMemory budget capacity)).1 memoryStep

def alignedBudget (capacity budget : Nat) : Nat :=
  budgetFromTarget capacity (targetForBudget capacity budget)

/-- The largest Budget a target can represent within a reservation. -/
def alignedBudgetAtMostReservation (capacity reservation : Nat) : Nat :=
  let reservation := clampMemory reservation capacity
  if reservation = capacity then capacity
  else
    let rawTarget := (saturatingSub capacity reservation).1
    let remainder := rawTarget % memoryStep
    if remainder ≠ 0 then
      let (target, overflow) := saturatingAdd rawTarget (memoryStep - remainder)
      if overflow = true ∨ target > capacity then 0 else budgetFromTarget capacity target
    else budgetFromTarget capacity rawTarget

/-! ## Budgets from a guest report -/

structure MemoryBudget where
  capacity : Nat
  headroom : Nat
  balloonTarget : Nat
  guestMemAvailable : Nat
  targetBudget : Nat
  currentBudget : Nat
  observedBudget : Nat
  demandMemory : Nat
  rawRequested : Nat
  desiredTarget : Nat
  requestedBudget : Nat
  deriving Repr, DecidableEq

/-- `CalculateMemoryBudget`. The flag says that `demand + headroom`
saturated, in which case the result is still the one to use. -/
def calculateMemoryBudget (capacity headroom balloonTarget currentBudget guestMemAvailable : Nat) :
    Except MemoryError (MemoryBudget × Bool) :=
  if capacity = 0 then .error .capacityNotPositive
  else if headroom = 0 ∨ headroom > capacity then .error (.headroomOutside headroom capacity)
  else if balloonTarget > capacity then .error (.targetExceedsCapacity balloonTarget capacity)
  else if currentBudget > capacity then .error (.currentExceedsCapacity currentBudget capacity)
  else
    let targetBudget := budgetFromTarget capacity balloonTarget
    let demand := (saturatingSub currentBudget guestMemAvailable).1
    let (sum, overflow) := saturatingAdd demand headroom
    let rawRequested := clampMemory sum capacity
    let desiredTarget := targetForBudget capacity rawRequested
    .ok ({ capacity, headroom, balloonTarget, guestMemAvailable, targetBudget, currentBudget,
           observedBudget := if currentBudget > targetBudget then currentBudget else targetBudget
           demandMemory := demand, rawRequested, desiredTarget
           requestedBudget := budgetFromTarget capacity desiredTarget }, overflow)

def shrinkTargetLimit (capacity acceptedTarget currentBudget : Nat) : Nat :=
  if acceptedTarget > capacity ∨ currentBudget > capacity then 0
  else
    let targetLimit := (saturatingAdd acceptedTarget memoryStep).1
    let actualLimit := (saturatingAdd (capacity - currentBudget) memoryStep).1
    min capacity (min targetLimit actualLimit)

/-- `NextShrinkTarget`. `none` is the answer without a step. -/
def nextShrinkTarget (capacity acceptedTarget currentBudget requestedBudget : Nat) : Option Nat :=
  if capacity = 0 ∨ acceptedTarget > capacity ∨ currentBudget > capacity then none
  else
    let desiredTarget := targetForBudget capacity requestedBudget
    if desiredTarget ≤ acceptedTarget ∨ desiredTarget - acceptedTarget ≤ memoryStep then none
    else
      let next := alignDown
        (min desiredTarget (shrinkTargetLimit capacity acceptedTarget currentBudget)) memoryStep
      if next ≤ acceptedTarget then none else some next

/-! ## memory.high -/

structure MemoryHighResult where
  memoryMax : Nat
  grantedHeadroom : Nat
  pressureReserve : Nat
  hostMemoryHigh : Nat
  deriving Repr, DecidableEq

/-- `mulDivCeil`, with the 128-bit product. -/
def mulDivCeil (a b divisor : Nat) : Nat :=
  let quotient := a * b / divisor
  if a * b % divisor ≠ 0 then quotient + 1 else quotient

def calculateMemoryHigh (capacity overhead budget demand ratio hostMemoryCurrent : Nat) :
    Except MemoryError MemoryHighResult :=
  if capacity = 0 then .error .capacityNotPositive
  else if ratio ≥ ratioScale then .error (.ratioOutside ratio)
  else
    let budget := clampMemory budget capacity
    let demand := clampMemory demand budget
    let grantedHeadroom := (saturatingSub budget demand).1
    let fraction := mulDivCeil grantedHeadroom (ratioScale - ratio) ratioScale
    let minimum := if grantedHeadroom > memoryStep then memoryStep else grantedHeadroom
    let reserve := if fraction < minimum then minimum else fraction
    let pressureReserve := if reserve > grantedHeadroom then grantedHeadroom else reserve
    let budgetAfterReserve := (saturatingSub budget pressureReserve).1
    let (memoryMax, maxOverflow) := saturatingAdd capacity overhead
    let (sum, highOverflow) := saturatingAdd overhead budgetAfterReserve
    let high := if sum > memoryMax then memoryMax else sum
    let high :=
      if hostMemoryCurrent > high then
        if hostMemoryCurrent > memoryMax then memoryMax else hostMemoryCurrent
      else high
    if maxOverflow = true ∨ highOverflow = true then .error .overflow
    else .ok { memoryMax, grantedHeadroom, pressureReserve, hostMemoryHigh := high }

def validateBalloonSize (capacity balloon : Nat) : Except MemoryError Unit :=
  if capacity = 0 ∨ capacity % balloonPageSize ≠ 0 then .error (.capacityUnaligned capacity)
  else if balloon > capacity then .error (.balloonExceedsCapacity balloon capacity)
  else if balloon % balloonPageSize ≠ 0 then .error (.balloonUnaligned balloon)
  else if balloon / balloonPageSize > maxUint32 then .error (.balloonOutsidePfnRange balloon)
  else .ok ()

/-! ## Targets and the Budgets they leave -/

theorem memoryStep_pos : 0 < memoryStep := by decide

theorem saturatingSub_fst (a b : Nat) : (saturatingSub a b).1 = a - b := by
  simp only [saturatingSub]
  split
  · exact (Nat.sub_eq_zero_of_le (le_of_lt ‹_›)).symm
  · rfl

theorem clampMemory_eq_min (value capacity : Nat) :
    clampMemory value capacity = min value capacity := by
  simp only [clampMemory]
  split <;> omega

theorem budgetFromTarget_eq (capacity target : Nat) :
    budgetFromTarget capacity target = capacity - target := by
  rw [budgetFromTarget, saturatingSub_fst, clampMemory_eq_min]
  omega

variable {capacity a b : Nat}

/-- A larger balloon leaves a smaller Budget. -/
theorem budgetFromTarget_anti (h : a ≤ b) :
    budgetFromTarget capacity b ≤ budgetFromTarget capacity a := by
  rw [budgetFromTarget_eq, budgetFromTarget_eq]
  exact Nat.sub_le_sub_left h capacity

theorem lt_of_budgetFromTarget_lt (h : budgetFromTarget capacity b < budgetFromTarget capacity a) :
    a < b := by
  rw [budgetFromTarget_eq, budgetFromTarget_eq] at h
  omega

theorem alignDown_eq (value : Nat) :
    alignDown value memoryStep = value / memoryStep * memoryStep := by
  have hpos := memoryStep_pos
  have hdiv := Nat.div_add_mod value memoryStep
  rw [Nat.mul_comm] at hdiv
  rw [alignDown, if_neg (Nat.ne_of_gt hpos)]
  omega

theorem memoryStep_dvd_alignDown (value : Nat) : memoryStep ∣ alignDown value memoryStep := by
  rw [alignDown_eq]
  exact Nat.dvd_mul_left ..

/-- A Budget of an aligned target is represented by that target. -/
theorem targetForBudget_budgetFromTarget {target : Nat} (ht : target ≤ capacity)
    (hd : memoryStep ∣ target) :
    targetForBudget capacity (budgetFromTarget capacity target) = target := by
  have h : (saturatingSub capacity (clampMemory (capacity - target) capacity)).1 = target := by
    rw [saturatingSub_fst, clampMemory_eq_min]
    omega
  rw [targetForBudget, budgetFromTarget_eq, h, alignDown_eq, Nat.div_mul_cancel hd]

/-- A grant is rounded to an aligned target whose Budget it covers, or to nothing. -/
theorem alignedBudgetAtMostReservation_cases (capacity reservation : Nat) :
    alignedBudgetAtMostReservation capacity reservation = 0 ∨
      ∃ target, target ≤ capacity ∧ memoryStep ∣ target ∧
        alignedBudgetAtMostReservation capacity reservation = budgetFromTarget capacity target ∧
        budgetFromTarget capacity target ≤ reservation := by
  have hclamp : clampMemory reservation capacity ≤ reservation ∧
      clampMemory reservation capacity ≤ capacity := by
    rw [clampMemory_eq_min]
    exact ⟨min_le_left .., min_le_right ..⟩
  simp only [alignedBudgetAtMostReservation, saturatingSub_fst]
  generalize clampMemory reservation capacity = r at hclamp ⊢
  split
  · refine .inr ⟨0, Nat.zero_le _, Nat.dvd_zero _, ?_, ?_⟩ <;> rw [budgetFromTarget_eq] <;> omega
  split
  · -- the raw target is rounded up to the next step
    rename_i hrem
    split
    · exact .inl rfl
    next hov =>
      have hlt := Nat.mod_lt (capacity - r) memoryStep_pos
      have hdiv := Nat.div_add_mod (capacity - r) memoryStep
      have hsum : (saturatingAdd (capacity - r) (memoryStep - (capacity - r) % memoryStep)).1 =
          memoryStep * ((capacity - r) / memoryStep + 1) := by
        simp only [saturatingAdd] at hov ⊢
        split at hov
        · simp at hov
        · rw [if_neg ‹_›, Nat.mul_succ]
          omega
      refine .inr ⟨_, ?_, ?_, rfl, ?_⟩
      · exact Nat.le_of_not_gt fun h => hov (.inr h)
      · rw [hsum]
        exact Nat.dvd_mul_right ..
      · rw [budgetFromTarget_eq, hsum, Nat.mul_succ]
        omega
  next hrem =>
    refine .inr ⟨capacity - r, Nat.sub_le .., Nat.dvd_of_mod_eq_zero (by omega), rfl, ?_⟩
    rw [budgetFromTarget_eq]
    omega

/-! ## The shrink step -/

/-- The first aligned target above a target. -/
def nextStep (target : Nat) : Nat := (target / memoryStep + 1) * memoryStep

theorem le_nextStep (target : Nat) : target ≤ nextStep target := by
  have hdiv := Nat.div_add_mod target memoryStep
  have hlt := Nat.mod_lt target memoryStep_pos
  rw [nextStep, Nat.succ_mul, Nat.mul_comm]
  omega

theorem nextStep_mono (h : a ≤ b) : nextStep a ≤ nextStep b :=
  Nat.mul_le_mul_right _ (Nat.succ_le_succ (Nat.div_le_div_right h))

/-- An aligned target at most one step above another is the next one. -/
theorem eq_nextStep {d : Nat} (hd : memoryStep ∣ d) (hlt : a < d) (hle : d ≤ a + memoryStep) :
    d = nextStep a := by
  obtain ⟨k, rfl⟩ := hd
  have hlow : a / memoryStep < k := Nat.div_lt_of_lt_mul hlt
  have hup : k ≤ a / memoryStep + 1 := by
    have := Nat.div_le_div_right (c := memoryStep) hle
    rwa [Nat.mul_div_cancel_left _ memoryStep_pos, Nat.add_div_right _ memoryStep_pos] at this
  have hk : k = a / memoryStep + 1 := by omega
  rw [hk, nextStep, Nat.mul_comm]

theorem shrinkTargetLimit_le (capacity acceptedTarget currentBudget : Nat) :
    shrinkTargetLimit capacity acceptedTarget currentBudget ≤ acceptedTarget + memoryStep := by
  have hadd : (saturatingAdd acceptedTarget memoryStep).1 ≤ acceptedTarget + memoryStep := by
    simp only [saturatingAdd]
    split <;> omega
  simp only [shrinkTargetLimit]
  split
  · exact Nat.zero_le _
  · exact (min_le_right ..).trans ((min_le_left ..).trans hadd)

theorem alignDown_le (value : Nat) : alignDown value memoryStep ≤ value := by
  rw [alignDown_eq]
  exact Nat.div_mul_le_self ..

theorem targetForBudget_le (capacity budget : Nat) :
    targetForBudget capacity budget ≤ capacity - min budget capacity := by
  rw [targetForBudget, saturatingSub_fst, clampMemory_eq_min]
  exact alignDown_le _

variable {accepted current requested next : Nat}
  (h : nextShrinkTarget capacity accepted current requested = some next)

include h

theorem nextShrinkTarget_some :
    0 < next ∧ next = alignDown (min (targetForBudget capacity requested)
      (shrinkTargetLimit capacity accepted current)) memoryStep := by
  simp only [nextShrinkTarget, Option.ite_none_left_eq_some, Option.some.injEq] at h
  obtain ⟨_, _, hnext, rfl⟩ := h
  exact ⟨Nat.zero_lt_of_lt (not_le.1 hnext), rfl⟩

theorem memoryStep_dvd_nextShrinkTarget : memoryStep ∣ next := by
  rw [(nextShrinkTarget_some h).2]
  exact memoryStep_dvd_alignDown _

theorem nextShrinkTarget_le : next ≤ targetForBudget capacity requested := by
  rw [(nextShrinkTarget_some h).2]
  exact (alignDown_le _).trans (min_le_left ..)

/-- A shrink step leaves what was asked for. -/
theorem requested_le_nextShrinkTarget : requested ≤ budgetFromTarget capacity next := by
  have hdesired := (nextShrinkTarget_le h).trans (targetForBudget_le capacity requested)
  have hpos := (nextShrinkTarget_some h).1
  rw [budgetFromTarget_eq]
  omega

end Sandboxer.Resctl
