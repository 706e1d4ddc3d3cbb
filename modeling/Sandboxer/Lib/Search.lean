import Mathlib.Order.Basic

/-! # Binary search

The search for the first index at which a predicate holds, by halving. What it
returns satisfies the predicate whatever the predicate is; it is the first such
index when the predicate, once true, stays true. -/
namespace Sandboxer.Lib.Search

variable {f : Nat → Bool} {i j n : Nat}

/-- The loop: everything below `i` is known to fail and `j` is known to hold, or is the end. -/
def searchFrom (f : Nat → Bool) (i j : Nat) : Nat :=
  if i < j then
    if f ((i + j) / 2) then searchFrom f i ((i + j) / 2) else searchFrom f ((i + j) / 2 + 1) j
  else i
termination_by j - i

def search (n : Nat) (f : Nat → Bool) : Nat := searchFrom f 0 n

theorem searchFrom_le (h : i ≤ j) : searchFrom f i j ≤ j := by
  fun_induction searchFrom f i j with
  | case1 i j hlt htrue ih => exact Nat.le_trans (ih (by omega)) (by omega)
  | case2 i j hlt hfalse ih => exact ih (by omega)
  | case3 i j hge => exact h

theorem searchFrom_true (h : i ≤ j) (hres : searchFrom f i j < j) :
    f (searchFrom f i j) = true := by
  fun_induction searchFrom f i j with
  | case1 i j hlt htrue ih =>
    -- either the middle itself is returned, or something below it
    rcases Nat.lt_or_eq_of_le (searchFrom_le (show i ≤ (i + j) / 2 by omega)) with hless | heq
    · exact ih (by omega) hless
    · rw [heq]
      exact htrue
  | case2 i j hlt hfalse ih => exact ih (by omega) hres
  | case3 i j hge => omega

theorem searchFrom_false (hmono : ∀ a b, a ≤ b → b < n → f a = true → f b = true) (hj : j ≤ n)
    {k : Nat} (hk : i ≤ k) (hres : k < searchFrom f i j) : f k = false := by
  fun_induction searchFrom f i j with
  | case1 i j hlt htrue ih => exact ih (by omega) hk hres
  | case2 i j hlt hfalse ih =>
    by_cases hin : (i + j) / 2 + 1 ≤ k
    · exact ih hj hin hres
    · by_contra htrue
      exact hfalse (hmono k _ (by omega) (by omega) (by simpa using htrue))
  | case3 i j hge => omega

theorem search_true (h : search n f < n) : f (search n f) = true :=
  searchFrom_true (Nat.zero_le n) h

theorem search_false (hmono : ∀ a b, a ≤ b → b < n → f a = true → f b = true) {k : Nat}
    (h : k < search n f) :
    f k = false := searchFrom_false hmono (Nat.le_refl n) (Nat.zero_le k) h

end Sandboxer.Lib.Search
