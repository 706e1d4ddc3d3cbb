import Mathlib.Order.Bounds.Basic
import Sandboxer.Resctl.Budget

/-! # Roundings and limits

What the two roundings of a Budget choose, and what `memory.high` is over the
whole range of its inputs. The 128-bit multiplication and division are written
out with the panic of `bits.Div64`, and the result that the source returns next
to an overflow error is kept. -/
namespace Sandboxer.Resctl

/-! ## The roundings -/

/-- A Budget that some aligned balloon target leaves. -/
def Representable (capacity budget : Nat) : Prop :=
  ∃ k, k * memoryStep ≤ capacity ∧ budget = capacity - k * memoryStep

variable {capacity : Nat}

theorem Representable.of_target {target : Nat} (h : target ≤ capacity) (hd : memoryStep ∣ target) :
    Representable capacity (budgetFromTarget capacity target) := by
  obtain ⟨k, rfl⟩ := hd
  rw [Nat.mul_comm] at h ⊢
  exact ⟨k, h, budgetFromTarget_eq ..⟩

theorem Representable.le_atMostReservation {reservation budget : Nat} (hc : capacity ≤ maxUint64)
    (h : Representable capacity budget) (hle : budget ≤ reservation) :
    budget ≤ alignedBudgetAtMostReservation capacity reservation := by
  obtain ⟨k, hk, rfl⟩ := h
  simp only [alignedBudgetAtMostReservation, saturatingSub_fst, clampMemory_eq_min, saturatingAdd,
    budgetFromTarget_eq, memoryStep] at *
  split
  · exact Nat.sub_le ..
  -- a multiple of the step that covers the raw target covers it rounded up
  split
  · split <;> split <;> simp_all <;> omega
  · omega

theorem alignedBudgetAtMostReservation_greatest (hc : capacity ≤ maxUint64) (reservation : Nat) :
    let S := {b | Representable capacity b ∧ b ≤ reservation}
    IsGreatest S (alignedBudgetAtMostReservation capacity reservation) ∨
      S = ∅ ∧ alignedBudgetAtMostReservation capacity reservation = 0 := by
  intro S
  have hup : ∀ b ∈ S, b ≤ alignedBudgetAtMostReservation capacity reservation :=
    fun b hb => hb.1.le_atMostReservation hc hb.2
  rcases alignedBudgetAtMostReservation_cases capacity reservation with h0 | ⟨target, ht, hd, he,
    hle⟩
  · rcases S.eq_empty_or_nonempty with hempty | ⟨b, hb⟩
    · exact .inr ⟨hempty, h0⟩
    · have : b = 0 := Nat.le_zero.1 (h0 ▸ hup b hb)
      exact .inl ⟨by rw [h0, ← this]; exact hb, hup⟩
  · exact .inl ⟨by rw [he]; exact ⟨.of_target ht hd, hle⟩, hup⟩

theorem alignedBudget_least (capacity budget : Nat) :
    IsLeast {b | Representable capacity b ∧ min budget capacity ≤ b}
    (alignedBudget capacity budget) := by
  have htarget := targetForBudget_le capacity budget
  refine ⟨⟨.of_target (htarget.trans (Nat.sub_le ..)) (memoryStep_dvd_alignDown _), ?_⟩, ?_⟩
  · rw [alignedBudget, budgetFromTarget_eq]
    omega
  rintro b ⟨⟨k, hk, rfl⟩, hle⟩
  rw [alignedBudget, budgetFromTarget_eq, targetForBudget, saturatingSub_fst, clampMemory_eq_min,
    alignDown_eq]
  simp only [memoryStep] at *
  omega

/-! ## The shrink target -/

/-- The report that chose a shrink target asks for no more than that target leaves. -/
theorem nextShrinkTarget_no_grow {headroom target current available accepted next : Nat}
    {budget : MemoryBudget} {saturated : Bool}
    (h : calculateMemoryBudget capacity headroom target current available = .ok (budget, saturated))
    (hnext : nextShrinkTarget capacity accepted current budget.requestedBudget = some next) :
    ∃ budget',
      calculateMemoryBudget capacity headroom next current available = .ok (budget', saturated) ∧
      budget'.requestedBudget ≤ budget'.targetBudget := by
  have hle := requested_le_nextShrinkTarget hnext
  have hcap : ¬next > capacity := by
    have := (nextShrinkTarget_le hnext).trans (targetForBudget_le ..)
    omega
  simp only [calculateMemoryBudget] at h ⊢
  split_ifs at h ⊢
  all_goals
    cases h
    exact ⟨_, rfl, hle⟩

/-! ## `memory.high` -/

/-- `bits.Mul64`. -/
def mul64 (a b : Nat) : Nat × Nat := (a * b / 2 ^ 64, a * b % 2 ^ 64)

/-- `bits.Div64`. `none` is its panic: a zero divisor, or a quotient of more than 64 bits. -/
def div64 (hi lo y : Nat) : Option (Nat × Nat) :=
  if y ≤ hi then none else some ((hi * 2 ^ 64 + lo) / y, (hi * 2 ^ 64 + lo) % y)

/-- `mulDivCeil`, on the machine's words. -/
def mulDivCeil64 (a b divisor : Nat) : Option Nat := do
  let (hi, lo) := mul64 a b
  let (quotient, remainder) ← div64 hi lo divisor
  pure (if remainder ≠ 0 then (quotient + 1) % 2 ^ 64 else quotient)

/-- `CalculateMemoryHigh`. The flag says that a sum saturated: the
source then returns `ErrMemoryOverflow` next to the result. -/
def calculateMemoryHigh64 (capacity overhead budget demand ratio hostMemoryCurrent : Nat) :
    Option (Except MemoryError (MemoryHighResult × Bool)) :=
  if capacity = 0 then some (.error .capacityNotPositive)
  else if ratio ≥ ratioScale then some (.error (.ratioOutside ratio))
  else do
    let budget := clampMemory budget capacity
    let demand := clampMemory demand budget
    let grantedHeadroom := (saturatingSub budget demand).1
    let fraction ← mulDivCeil64 grantedHeadroom (ratioScale - ratio) ratioScale
    let minimum := if grantedHeadroom > memoryStep then memoryStep else grantedHeadroom
    let reserve := if fraction < minimum then minimum else fraction
    let pressureReserve := if reserve > grantedHeadroom then grantedHeadroom else reserve
    let budgetAfterReserve := (saturatingSub budget pressureReserve).1
    let (memoryMax, maxOverflow) := saturatingAdd capacity overhead
    let (sum, highOverflow) := saturatingAdd overhead budgetAfterReserve
    let high := if sum > memoryMax then memoryMax else sum
    let high :=
      if hostMemoryCurrent > high then
        if hostMemoryCurrent > memoryMax then memoryMax else hostMemoryCurrent
      else high
    pure (.ok ({ memoryMax, grantedHeadroom, pressureReserve, hostMemoryHigh := high },
      maxOverflow || highOverflow))

theorem mulDivCeil_eq (a b : Nat) {divisor : Nat} (hd : 0 < divisor) :
    mulDivCeil a b divisor = (a * b + (divisor - 1)) / divisor := by
  simp only [mulDivCeil]
  generalize a * b = n
  have hlt := Nat.mod_lt n hd
  conv_rhs => rw [← Nat.div_add_mod n divisor, Nat.add_assoc, Nat.mul_add_div hd]
  split
  · congr 1
    exact (Nat.div_eq_of_lt_le (by omega) (by omega)).symm
  · rw [Nat.div_eq_of_lt (a := n % divisor + (divisor - 1)) (by omega)]
    rfl

section

variable {f divisor : Nat} (hd : 0 < divisor) (hf : f ≤ divisor)
include hd

theorem mulDivCeil_mono {a b : Nat} (h : a ≤ b) :
    mulDivCeil a f divisor ≤ mulDivCeil b f divisor := by
  rw [mulDivCeil_eq _ _ hd, mulDivCeil_eq _ _ hd]
  exact Nat.div_le_div_right (Nat.add_le_add_right (Nat.mul_le_mul_right _ h) _)

include hf

/-- A fraction grows no faster than the whole. -/
theorem mulDivCeil_add_le (a k : Nat) :
    mulDivCeil (a + k) f divisor ≤ mulDivCeil a f divisor + k := by
  rw [mulDivCeil_eq _ _ hd, mulDivCeil_eq _ _ hd, ← Nat.add_mul_div_right _ _ hd]
  have := Nat.mul_le_mul_left k hf
  apply Nat.div_le_div_right
  rw [Nat.add_mul]
  omega

theorem mulDivCeil_le (a : Nat) : mulDivCeil a f divisor ≤ a := by
  have h := mulDivCeil_add_le hd hf 0 a
  have h0 : mulDivCeil 0 f divisor = 0 := by simp [mulDivCeil]
  rwa [h0, Nat.zero_add] at h

theorem mulDivCeil64_eq {a : Nat} (ha : a ≤ maxUint64) :
    mulDivCeil64 a f divisor = some (mulDivCeil a f divisor) := by
  have hle := mulDivCeil_le hd hf a
  have hhi : ¬divisor ≤ a * f / 2 ^ 64 := by
    have := Nat.mul_le_mul ha hf
    rw [not_le, Nat.div_lt_iff_lt_mul (by decide)]
    simp only [maxUint64] at this
    omega
  simp only [mulDivCeil64, mul64, div64, if_neg hhi, Nat.div_add_mod', Option.bind_eq_bind,
    Option.bind_some, Option.pure_def, Option.some.injEq]
  simp only [mulDivCeil] at hle ⊢
  split
  next h =>
    rw [if_pos h] at hle
    simp only [maxUint64] at ha
    exact Nat.mod_eq_of_lt (by omega)
  · rfl

end

/-- The pressure reserve of a granted headroom. -/
def pressure (ratio headroom : Nat) : Nat :=
  max (mulDivCeil headroom (ratioScale - ratio) ratioScale) (min headroom memoryStep)

theorem pressure_mono (ratio : Nat) {g g' : Nat} (h : g ≤ g') :
    pressure ratio g ≤ pressure ratio g' := by
  have h' := mulDivCeil_mono (f := ratioScale - ratio) (by decide : 0 < ratioScale) h
  simp only [pressure]
  omega

theorem pressure_add_le (ratio g k : Nat) : pressure ratio (g + k) ≤ pressure ratio g + k := by
  have h := mulDivCeil_add_le (f := ratioScale - ratio) (by decide : 0 < ratioScale)
    (Nat.sub_le ..) g k
  simp only [pressure]
  omega

theorem pressure_le (ratio g : Nat) : pressure ratio g ≤ g :=
  max_le (mulDivCeil_le (by decide) (Nat.sub_le ..) g) (min_le_left ..)

/-- What is left of a Budget after its reserve grows with the Budget and with the demand. -/
theorem sub_pressure_mono (ratio : Nat) {b b' d d' : Nat} (hb : b ≤ b') (hd : d ≤ d') :
    b - pressure ratio (b - d) ≤ b' - pressure ratio (b' - d') := by
  rcases Nat.le_total (b' - d') (b - d) with h | h
  · have := pressure_mono ratio h
    omega
  · have hadd := pressure_add_le ratio (b - d) (b' - d' - (b - d))
    rw [Nat.add_sub_cancel' h] at hadd
    omega

section

variable {capacity : Nat} (overhead budget demand : Nat) {ratio : Nat} (host : Nat)

/-- `memory.max` as the formula saturates it. -/
def memoryMax (capacity overhead : Nat) : Nat := min (capacity + overhead) maxUint64

theorem ite_lt_eq_max (a b : Nat) : (if a < b then b else a) = max a b := by
  split <;> omega

theorem saturatingAdd_fst (a b : Nat) : (saturatingAdd a b).1 = min (a + b) maxUint64 := by
  simp only [saturatingAdd]
  split <;> simp only <;> omega

theorem calculateMemoryHigh64_ok (hcap : capacity ≠ 0) (hr : ratio < ratioScale)
    (hc : capacity ≤ maxUint64) :
    ∃ saturated, calculateMemoryHigh64 capacity overhead budget demand ratio host =
      some (.ok ({ memoryMax := memoryMax capacity overhead
                   grantedHeadroom := min budget capacity - demand
                   pressureReserve := pressure ratio (min budget capacity - demand)
                   hostMemoryHigh := max (min host (memoryMax capacity overhead))
                     (min (overhead +
                       (min budget capacity - pressure ratio (min budget capacity - demand)))
                       (memoryMax capacity overhead)) }, saturated)) := by
  have hg : min budget capacity - min demand (min budget capacity) =
      min budget capacity - demand := by omega
  simp only [calculateMemoryHigh64, if_neg hcap, if_neg (not_le.2 hr), clampMemory_eq_min,
    saturatingSub_fst, hg]
  have hle := pressure_le ratio (min budget capacity - demand)
  rw [mulDivCeil64_eq (by decide) (Nat.sub_le ..) (by omega)]
  simp only [Option.bind_eq_bind, Option.bind_some, Option.pure_def, saturatingAdd_fst,
    Option.some.injEq, Except.ok.injEq, Prod.mk.injEq, MemoryHighResult.mk.injEq, exists_and_left,
      exists_eq', and_true, true_and,
    show ∀ a b : Nat, (if a > b then b else a) = min a b from clampMemory_eq_min, ite_lt_eq_max]
  simp only [pressure, memoryMax] at *
  generalize mulDivCeil _ _ _ = fraction at *
  refine ⟨trivial, min_eq_left hle, ?_⟩
  split <;> omega

/-- The formula with its overflow error, as the callers see it. -/
theorem calculateMemoryHigh_of_64 (hc : capacity ≤ maxUint64) :
    (calculateMemoryHigh64 capacity overhead budget demand ratio host).map (fun r =>
      r.bind fun (result, saturated) => if saturated then .error .overflow else .ok result) =
    some (calculateMemoryHigh capacity overhead budget demand ratio host) := by
  unfold calculateMemoryHigh64 calculateMemoryHigh
  split
  · rfl
  split
  · rfl
  · simp only [clampMemory_eq_min, saturatingSub_fst]
    rw [mulDivCeil64_eq (by decide) (Nat.sub_le ..) (by omega)]
    simp only [Option.bind_eq_bind, Option.bind_some, Option.pure_def, Option.map_some, Except.bind,
      Bool.or_eq_true]

end

/-- The arithmetic of Budgets and of `memory.high` over the whole range of the source's words. -/
theorem budget_arithmetic {capacity : Nat} (hc : capacity ≤ maxUint64) :
    (∀ reservation, let S := {b | Representable capacity b ∧ b ≤ reservation}
      IsGreatest S (alignedBudgetAtMostReservation capacity reservation) ∨
        S = ∅ ∧ alignedBudgetAtMostReservation capacity reservation = 0) ∧
    (∀ budget, IsLeast {b | Representable capacity b ∧ min budget capacity ≤ b}
      (alignedBudget capacity budget)) ∧
    (∀ accepted current requested next, nextShrinkTarget capacity accepted current requested =
      some next →
      requested ≤ budgetFromTarget capacity next ∧
      ∀ headroom target available budget saturated,
        calculateMemoryBudget capacity headroom target current available = .ok (budget, saturated) →
        budget.requestedBudget = requested →
        ∃ budget', calculateMemoryBudget capacity headroom next current available = .ok
          (budget', saturated) ∧
          ¬budget'.requestedBudget > budget'.targetBudget) ∧
    ∀ overhead budget demand ratio host, ∃ r,
      calculateMemoryHigh64 capacity overhead budget demand ratio host = some r ∧
      (capacity ≠ 0 → ratio < ratioScale → ∃ result saturated, r = .ok (result, saturated)) ∧
      ∀ result saturated, r = .ok (result, saturated) →
        (∀ budget' demand' host' result' saturated', budget ≤ budget' → demand ≤ demand' →
          host ≤ host' →
          calculateMemoryHigh64 capacity overhead budget' demand' ratio host' = some
            (.ok (result', saturated')) →
          result.hostMemoryHigh ≤ result'.hostMemoryHigh) ∧
        result.hostMemoryHigh ≤ min (capacity + overhead) maxUint64 ∧
        min host (min (capacity + overhead) maxUint64) ≤ result.hostMemoryHigh ∧
        min memoryStep (min budget capacity - demand) ≤ result.pressureReserve ∧
        ∀ unraised saturated₀,
          calculateMemoryHigh64 capacity overhead budget demand ratio 0 = some
            (.ok (unraised, saturated₀)) →
          result.hostMemoryHigh = unraised.hostMemoryHigh →
          result.hostMemoryHigh + min memoryStep (min budget capacity - demand) ≤
            overhead + min budget capacity := by
  refine ⟨alignedBudgetAtMostReservation_greatest hc, alignedBudget_least capacity, ?_, ?_⟩
  · intro accepted current requested next hnext
    refine ⟨requested_le_nextShrinkTarget hnext,
      fun headroom target available budget saturated h he => ?_⟩
    obtain ⟨budget', hb, hle⟩ := nextShrinkTarget_no_grow h (he ▸ hnext)
    exact ⟨budget', hb, not_lt.2 hle⟩
  · intro overhead budget demand ratio host
    by_cases hacc : capacity ≠ 0 ∧ ratio < ratioScale
    · obtain ⟨hcap, hr⟩ := hacc
      obtain ⟨_, h⟩ := calculateMemoryHigh64_ok overhead budget demand host hcap hr hc
      refine ⟨_, h, fun _ _ => ⟨_, _, rfl⟩, ?_⟩
      rintro _ _ ⟨⟩
      have hmin : min memoryStep (min budget capacity - demand) ≤
          pressure ratio (min budget capacity - demand) := by
        rw [Nat.min_comm]
        exact Nat.le_max_right ..
      refine ⟨?_, ?_, ?_, hmin, ?_⟩
      · intro budget' demand' host' result' saturated' hb hd hh h'
        obtain ⟨_, h''⟩ := calculateMemoryHigh64_ok overhead budget' demand' host' hcap hr hc
        cases h'.symm.trans h''
        have := sub_pressure_mono ratio (show min budget capacity ≤ min budget' capacity by omega)
          hd
        simp only
        omega
      · simp only [memoryMax]
        omega
      · exact Nat.le_max_left ..
      · intro unraised saturated₀ h' he
        obtain ⟨_, h''⟩ := calculateMemoryHigh64_ok overhead budget demand 0 hcap hr hc
        cases h'.symm.trans h''
        simp only at he ⊢
        omega
    · unfold calculateMemoryHigh64
      split
      · exact ⟨_, rfl, fun h => absurd ‹_› h, nofun⟩
      · rw [if_pos (by omega)]
        exact ⟨_, rfl, fun _ h => by omega, nofun⟩

theorem budget_arithmetic_largest :
    IsLeast {b | Representable maxUint64 b ∧ min 1 maxUint64 ≤ b} (alignedBudget maxUint64 1) ∧
      ∃ r, calculateMemoryHigh64 maxUint64 maxUint64 maxUint64 0 0 1 = some r := by
  have h := budget_arithmetic (Nat.le_refl maxUint64)
  obtain ⟨r, hr, _⟩ := h.2.2.2 maxUint64 maxUint64 0 0 1
  exact ⟨h.2.1 1, r, hr⟩

end Sandboxer.Resctl
