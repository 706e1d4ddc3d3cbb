import Mathlib.Data.List.Basic
import Mathlib.Data.Option.Basic

/-! # Layered contents

A layer gives a value at some positions and has holes at the others. In a stack
of layers, top first, a position has the value of the first layer without a hole
there. -/
namespace Sandboxer.Lib.Layers

variable {ι κ α : Type}

/-- `none` is a hole. -/
abbrev Layer (ι α : Type) := ι → Option α

def hole : Layer ι α := fun _ => none

def Layer.over (top bottom : Layer ι α) : Layer ι α := fun i => (top i).or (bottom i)

/-- A stack of layers, top first. -/
def stack : List (Layer ι α) → Layer ι α
  | [] => hole
  | l :: ls => l.over (stack ls)

@[simp] theorem stack_cons (l : Layer ι α) (ls : List (Layer ι α)) :
    stack (l :: ls) = l.over (stack ls) := rfl

@[simp] theorem over_hole (l : Layer ι α) : l.over hole = l :=
  funext fun _ => Option.or_none

theorem over_assoc (a b c : Layer ι α) : (a.over b).over c = a.over (b.over c) :=
  funext fun _ => Option.or_assoc

theorem over_self_over (a b : Layer ι α) : a.over (a.over b) = a.over b := by
  rw [← over_assoc]
  congr 1
  exact funext fun i => Option.or_self

/-- A layer has no effect below another that has a value wherever it has one. -/
theorem over_of_covered {a b c : Layer ι α} {i : ι} (h : a i = none → b i = none) :
    a.over (b.over c) i = a.over c i := by
  unfold Layer.over
  cases ha : a i with
  | some x => rfl
  | none => rw [h ha, Option.none_or]

/-- Layers that the top covers can be left out below it. -/
theorem over_stack_filter (top : Layer ι α) (content : κ → Layer ι α) (keep : κ → Bool)
    (ks : List κ) (i : ι) (h : ∀ k ∈ ks, keep k = false → top i = none → content k i = none) :
    top.over (stack ((ks.filter keep).map content)) i = top.over (stack (ks.map content)) i := by
  induction ks with
  | nil => rfl
  | cons k ks ih =>
    have ih := ih fun k' hk' => h k' (.tail _ hk')
    rw [List.map_cons, stack_cons, List.filter_cons]
    cases hk : keep k with
    | false => rw [if_neg Bool.false_ne_true, ih, over_of_covered (h k (.head _) hk)]
    | true =>
      rw [if_pos rfl, List.map_cons, stack_cons]
      unfold Layer.over at ih ⊢
      cases htop : top i with
      | some x => rfl
      | none =>
        rw [htop, Option.none_or, Option.none_or] at ih
        rw [ih]

/-- What is below a repeated layer is what is below its first occurrence. -/
theorem stack_cons_filter_ne [DecidableEq κ] (content : κ → Layer ι α) (k : κ) (ks : List κ) :
    stack ((k :: ks.filter (· ≠ k)).map content) = stack ((k :: ks).map content) := by
  funext i
  refine over_stack_filter (content k) content _ ks i fun k' _ hk' htop => ?_
  obtain rfl : k' = k := by simpa using hk'
  exact htop

end Sandboxer.Lib.Layers
