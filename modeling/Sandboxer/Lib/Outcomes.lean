import Mathlib.Logic.Basic

/-! # Results and errors

How a chain of computations that may fail is taken apart: a result of the chain
is a result of its first part and then one of the rest. `Meets` states a
postcondition for both ends: what results satisfy and which errors may come. -/
namespace Sandboxer.Lib.Outcomes

variable {ε α β : Type} {x : Except ε α}

theorem bind_eq_ok {f : α → Except ε β} {b : β} :
    (x >>= f) = .ok b ↔ ∃ a, x = .ok a ∧ f a = .ok b := by
  cases x with
  | error e => exact ⟨fun h => (by cases h), fun h => (by obtain ⟨_, h, -⟩ := h; cases h)⟩
  | ok a => exact ⟨fun h => ⟨a, rfl, h⟩, fun ⟨_, h, hf⟩ => by cases h; exact hf⟩

theorem mapError_eq_ok {ε' : Type} {f : ε → ε'} {a : α} (h : x.mapError f = .ok a) : x = .ok a := by
  cases x with
  | error e => cases h
  | ok b => cases h; rfl

/-- A result satisfies `Q`, an error satisfies `E`. -/
inductive Meets (E : ε → Prop) (Q : α → Prop) : Except ε α → Prop where
  | ok {a : α} : Q a → Meets E Q (.ok a)
  | error {e : ε} : E e → Meets E Q (.error e)

variable {E : ε → Prop} {Q : α → Prop}

theorem Meets.of_ok {a : α} (hx : Meets E Q x) (h : x = .ok a) : Q a := by
  subst h
  cases hx with
  | ok ha => exact ha

theorem Meets.of_error {e : ε} (hx : Meets E Q x) (h : x = .error e) : E e := by
  subst h
  cases hx with
  | error he => exact he

theorem Meets.bind {P : α → Prop} {Q : β → Prop} {f : α → Except ε β} (hx : Meets E P x)
    (hf : ∀ a, x = .ok a → P a → Meets E Q (f a)) : Meets E Q (x >>= f) := by
  cases hx with
  | error he => exact .error he
  | ok ha => exact hf _ rfl ha

theorem Meets.mono {P : α → Prop} (hx : Meets E P x) (h : ∀ a, x = .ok a → P a → Q a) :
    Meets E Q x := by
  cases hx with
  | error he => exact .error he
  | ok ha => exact .ok (h _ rfl ha)

theorem Meets.weaken {F : ε → Prop} (hx : Meets E Q x) (h : ∀ e, E e → F e) : Meets F Q x := by
  cases hx with
  | error he => exact .error (h _ he)
  | ok ha => exact .ok ha

end Sandboxer.Lib.Outcomes
