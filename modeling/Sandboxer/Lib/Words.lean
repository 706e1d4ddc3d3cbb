import Mathlib.Data.Nat.Basic
import Mathlib.Data.List.Basic
import Mathlib.Order.Bounds.Defs

/-! # Words and the bits in them

Words of any width, assembled from bytes in little-endian order, the number of
zero bits below the lowest bit that is set, the end of a run of equal bits found word
by word, and bits set in a list of words. -/
namespace Sandboxer.Lib.Words

variable {w : Nat} {i : Nat}

theorem and_one_shiftLeft_ne_zero (x : BitVec w) (hi : i < w) :
    x &&& 1#w <<< i ≠ 0#w ↔ x.getLsbD i = true := by
  have hone : ∀ j, j < w → (1#w <<< i).getLsbD j = decide (j = i) := fun j hj => by
    rw [BitVec.getLsbD_shiftLeft, BitVec.getLsbD_one, Bool.eq_iff_iff]
    simp only [Bool.and_eq_true, Bool.not_eq_eq_eq_not, Bool.not_true, decide_eq_true_eq,
      decide_eq_false_iff_not]
    omega
  constructor
  · intro hne
    by_contra hbit
    refine hne (BitVec.eq_of_getLsbD_eq fun j hj => ?_)
    rw [BitVec.getLsbD_and, hone j hj, BitVec.getLsbD_zero]
    by_cases hji : j = i
    · rw [hji, Bool.of_not_eq_true hbit, Bool.false_and]
    · rw [decide_eq_false hji, Bool.and_false]
  · intro hbit hzero
    have := congrArg (fun y => y.getLsbD i) hzero
    simp only [BitVec.getLsbD_and, hbit, hone i hi, BitVec.getLsbD_zero, decide_true, Bool.and_true,
      Bool.true_eq_false] at this

/-- The number of zero bits below the lowest set bit, the width if there is none. -/
def trailingZeros (x : BitVec w) : Nat := (List.range w).findIdx fun i => x.getLsbD i

theorem getLsbD_of_lt_trailingZeros {x : BitVec w} (h : i < trailingZeros x) :
    x.getLsbD i = false := by
  have := List.not_of_lt_findIdx h
  rwa [List.getElem_range] at this

theorem trailingZeros_lt {x : BitVec w} (h : x ≠ 0) : trailingZeros x < w := by
  by_contra hge
  refine h (BitVec.eq_of_getLsbD_eq fun i hi => ?_)
  rw [getLsbD_of_lt_trailingZeros (by omega)]
  exact BitVec.getLsbD_zero.symm

theorem getLsbD_trailingZeros {x : BitVec w} (h : x ≠ 0) : x.getLsbD (trailingZeros x) = true := by
  have hlt : trailingZeros x < (List.range w).length := by
    rw [List.length_range]
    exact trailingZeros_lt h
  have hat : x.getLsbD ((List.range w)[trailingZeros x]) = true := List.findIdx_getElem
  rwa [List.getElem_range] at hat

/-- The word whose bytes these are, least significant first. -/
def fromBytes (w : Nat) : List (BitVec 8) → BitVec w
  | [] => 0
  | b :: bs => b.setWidth w ||| fromBytes w bs <<< 8

theorem getLsbD_fromBytes (bs : List (BitVec 8)) (hi : i < w) :
    (fromBytes w bs).getLsbD i = (bs.getD (i / 8) 0).getLsbD (i % 8) := by
  induction bs generalizing i with
  | nil => simp [fromBytes]
  | cons b bs ih =>
    rw [fromBytes, BitVec.getLsbD_or, BitVec.getLsbD_setWidth, BitVec.getLsbD_shiftLeft]
    by_cases hlow : i < 8
    · rw [Nat.div_eq_of_lt hlow, Nat.mod_eq_of_lt hlow]
      simp [hi, hlow]
    have hdiv : i / 8 = (i - 8) / 8 + 1 := by omega
    have hmod : i % 8 = (i - 8) % 8 := by omega
    rw [hdiv, hmod, List.getD_cons_succ, ← ih (by omega), BitVec.getLsbD_of_ge b i (by omega)]
    simp [hi, hlow]

/-! ## Runs of equal bits -/

variable {bits : Nat → Bool} {value : Bool} {page pages n stop : Nat}

/-- From its bit `at_` on, a word tells which of the `n` bits from `page` on are not
`value`; it says nothing else. -/
structure Tells (bits : Nat → Bool) (value : Bool) (page n at_ : Nat) (x : BitVec w) : Prop where
  bit : ∀ j < n, x.getLsbD (at_ + j) = (bits (page + j) != value)
  below : ∀ i < at_, x.getLsbD i = false
  out : ∀ i, at_ + n ≤ i → x.getLsbD i = false

variable {x : BitVec w} {at_ : Nat}

section

variable (h : Tells bits value page n at_ x)

include h

theorem Tells.zero (hx : x = 0) : ∀ j < n, bits (page + j) = value := by
  intro j hj
  have := h.bit j hj
  rw [hx] at this
  simpa using this.symm

theorem Tells.at_le (hx : x ≠ 0) : at_ ≤ trailingZeros x := by
  by_contra hlt
  have := h.below _ (not_le.1 hlt)
  rw [getLsbD_trailingZeros hx] at this
  cases this

theorem Tells.nonzero (hx : x ≠ 0) :
    (∀ j < trailingZeros x - at_, bits (page + j) = value) ∧
      bits (page + (trailingZeros x - at_)) ≠ value := by
  have hle := h.at_le hx
  have hlt : trailingZeros x < at_ + n := by
    by_contra hge
    have := h.out _ (not_lt.1 hge)
    rw [getLsbD_trailingZeros hx] at this
    cases this
  constructor
  · intro j hj
    have := h.bit j (by omega)
    rw [getLsbD_of_lt_trailingZeros (by omega)] at this
    simpa using this.symm
  · have := h.bit (trailingZeros x - at_) (by omega)
    rw [Nat.add_sub_of_le hle, getLsbD_trailingZeros hx] at this
    simpa using this.symm

end

/-- The end of a run of bits of one value. -/
structure Ends (bits : Nat → Bool) (value : Bool) (page pages stop : Nat) : Prop where
  le : page ≤ stop
  cap : stop ≤ pages
  run : ∀ q, page ≤ q → q < stop → bits q = value
  next : stop < pages → bits stop ≠ value

theorem Ends.done (h : page = pages) : Ends bits value page pages pages where
  le := le_of_eq h
  cap := le_rfl
  run := fun q hq hqs => by omega
  next := fun hlt => absurd hlt (lt_irrefl _)

theorem Ends.found (hlt : page < pages)
    (h : (∀ j < n, bits (page + j) = value) ∧ bits (page + n) ≠ value) :
    Ends bits value page pages (min pages (page + n)) where
  le := by omega
  cap := min_le_left ..
  run := fun q hq hlt => by
    have := h.1 (q - page) (by omega)
    rwa [Nat.add_sub_of_le hq] at this
  next := fun hnext => by
    rw [min_eq_right (by omega)]
    exact h.2

theorem Ends.skip (hlt : page < pages) (h : ∀ j < n, bits (page + j) = value)
    (hrest : page + n ≤ pages → Ends bits value (page + n) pages stop)
    (hstop : pages < page + n → stop = pages) :
    Ends bits value page pages stop := by
  have hskip : ∀ q, page ≤ q → q < page + n → bits q = value := fun q hq hqn => by
    have := h (q - page) (by omega)
    rwa [Nat.add_sub_of_le hq] at this
  by_cases hn : page + n ≤ pages
  · obtain ⟨hle, hcap, hrun, hnext⟩ := hrest hn
    refine ⟨by omega, hcap, fun q hq hqs => ?_, hnext⟩
    by_cases hqn : q < page + n
    · exact hskip q hq hqn
    · exact hrun q (by omega) hqs
  · obtain rfl := hstop (by omega)
    exact ⟨by omega, le_rfl, fun q hq hqs => hskip q hq (by omega),
      fun hlt => absurd hlt (lt_irrefl _)⟩

/-- The end of a run is the least place where the bits change, the limit if there is none. -/
theorem Ends.isLeast (h : Ends bits (bits page) page pages stop ∧ page < stop) :
    IsLeast {j | page < j ∧ (j = pages ∨ j < pages ∧ bits j ≠ bits page)} stop := by
  obtain ⟨⟨_, hcap, hrun, hnext⟩, hlt⟩ := h
  refine ⟨⟨hlt, ?_⟩, ?_⟩
  · rcases Nat.eq_or_lt_of_le hcap with rfl | hlt
    · exact .inl rfl
    · exact .inr ⟨hlt, hnext hlt⟩
  rintro j ⟨hj, rfl | ⟨_, hne⟩⟩
  · exact hcap
  · by_contra hlt
    exact hne (hrun j (le_of_lt hj) (not_le.1 hlt))

/-! ## Bits of a list of words -/

variable {words : List (BitVec w)} {m : BitVec w} {b : Nat}

def bitAt (words : List (BitVec w)) (b : Nat) : Bool := (words.getD (b / w) 0).getLsbD (b % w)

/-- A mask or-ed into one word adds its bits there. -/
theorem bitAt_or (hi : i < words.length) :
    bitAt (words.modify i (· ||| m)) b ↔ bitAt words b ∨ b / w = i ∧ m.getLsbD (b % w) := by
  simp only [bitAt, List.getD_eq_getElem?_getD, List.getElem?_modify]
  by_cases hb : b / w = i
  · subst hb
    simp [hi]
  · simp [hb, Ne.symm hb]

/-- Words replaced by ones have all their bits. -/
theorem bitAt_fill (hw : 0 < w) {is : List Nat} (h : ∀ i ∈ is, i < words.length) :
    bitAt (is.foldl (fun ws i => ws.set i (BitVec.allOnes w)) words) b ↔ bitAt words b ∨
      b / w ∈ is := by
  induction is generalizing words with
  | nil => simp
  | cons i is ih =>
    have hi := h i (.head _)
    rw [List.foldl_cons, ih fun j hj => by rw [List.length_set]; exact h j (.tail _ hj)]
    by_cases hb : b / w = i
    · subst hb
      simp [bitAt, hi, Nat.mod_lt b hw]
    · simp [bitAt, hb, Ne.symm hb]

theorem length_fill (is : List Nat) :
    (is.foldl (fun ws i => ws.set i x) words).length = words.length := by
  induction is generalizing words with
  | nil => rfl
  | cons i is ih => rw [List.foldl_cons, ih, List.length_set]

theorem ones_shiftLeft {lo : Nat} (hi : i < w) : (BitVec.allOnes w <<< lo).getLsbD i ↔ lo ≤ i := by
  simp [hi]

theorem ones_shiftRight : (BitVec.allOnes w >>> n).getLsbD i ↔ n + i < w := by
  simp

end Sandboxer.Lib.Words
