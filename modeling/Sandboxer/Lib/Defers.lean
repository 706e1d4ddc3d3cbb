import Mathlib.Logic.Basic

/-! # Sequential code with deferred calls

A computation runs on a state and returns a value or an error. A deferred call
runs when the code after it has returned, whatever it returned; it sees the
result and may change it. `Triple` says what holds of a computation from the
states of a precondition, with one postcondition for values and one for errors. -/
namespace Sandboxer.Lib.Defers

variable {σ ε α β : Type}

/-- A computation on a state that may fail. -/
def Proc (σ ε α : Type) := σ → Except ε α × σ

namespace Proc

def bind (x : Proc σ ε α) (f : α → Proc σ ε β) : Proc σ ε β := fun s =>
  match x s with
  | (.ok a, s') => f a s'
  | (.error e, s') => (.error e, s')

instance : Monad (Proc σ ε) where
  pure a := fun s => (.ok a, s)
  bind := bind

def fail (e : ε) : Proc σ ε α := fun s => (.error e, s)

def get : Proc σ ε σ := fun s => (.ok s, s)

def modify (f : σ → σ) : Proc σ ε Unit := fun s => (.ok (), f s)

/-- The cleanup is deferred: it gets the result of the body. -/
def deferred (cleanup : Except ε α → Proc σ ε α) (body : Proc σ ε α) : Proc σ ε α := fun s =>
  cleanup (body s).1 (body s).2

def result (x : Proc σ ε α) : Proc σ ε (Except ε α) := fun s => (.ok (x s).1, (x s).2)

/-- From `P` the computation returns a value in `Q` or an error in `E`. -/
def Triple (P : σ → Prop) (x : Proc σ ε α) (Q : α → σ → Prop) (E : ε → σ → Prop) : Prop :=
  ∀ s, P s → match x s with
    | (.ok a, s') => Q a s'
    | (.error e, s') => E e s'

variable {P P' : σ → Prop} {Q Q' : α → σ → Prop} {R : β → σ → Prop} {E E' : ε → σ → Prop}
  {x : Proc σ ε α} {f : α → Proc σ ε β} {a : α}

theorem Triple.pure (h : ∀ s, P s → Q a s) : Triple P (Pure.pure a : Proc σ ε α) Q E := h

theorem Triple.fail {e : ε} (h : ∀ s, P s → E e s) : Triple P (Proc.fail e) Q E := h

theorem Triple.modify {g : σ → σ} {Q : Unit → σ → Prop} (h : ∀ s, P s → Q () (g s)) :
    Triple P (Proc.modify g : Proc σ ε Unit) Q E := h

theorem Triple.bind (hx : Triple P x Q E) (hf : ∀ a, Triple (Q a) (f a) R E) :
    Triple P (x >>= f) R E := by
  intro s hs
  have hx := hx s hs
  show match Proc.bind x f s with
    | (.ok b, s') => R b s'
    | (.error e, s') => E e s'
  unfold Proc.bind
  revert hx
  cases x s with
  | mk r s' =>
    cases r with
    | ok a => exact hf a s'
    | error e => exact id

/-- The state is read, and is the same after. -/
theorem Triple.get {f : σ → Proc σ ε β} (h : ∀ s, P s → Triple (· = s) (f s) R E) :
    Triple P ((Proc.get : Proc σ ε σ) >>= f) R E := fun s hs => h s hs s rfl

theorem Triple.conseq (hx : Triple P x Q E) (hP : ∀ s, P' s → P s) (hQ : ∀ a s, Q a s → Q' a s)
    (hE : ∀ e s, E e s → E' e s) : Triple P' x Q' E' := by
  intro s hs
  have hx := hx s (hP s hs)
  revert hx
  cases x s with
  | mk r s' =>
    cases r with
    | ok a => exact hQ a s'
    | error e => exact hE e s'

theorem Triple.onError (hx : Triple P x Q E) (hE : ∀ e s, E e s → E' e s) : Triple P x Q E' :=
  hx.conseq (fun _ => id) (fun _ _ => id) hE

/-- A fact in the precondition that is not about the state. -/
theorem Triple.fact {F : Prop} (h : F → Triple P x Q E) : Triple (fun s => P s ∧ F) x Q E :=
  fun s hs => h hs.2 s hs.1

theorem Triple.deferred {cleanup : Except ε α → Proc σ ε α} (hx : Triple P x Q E)
    (hok : ∀ a, Triple (Q a) (cleanup (.ok a)) Q' E')
    (herr : ∀ e, Triple (E e) (cleanup (.error e)) Q' E') :
    Triple P (Proc.deferred cleanup x) Q' E' := by
  intro s hs
  have hx := hx s hs
  unfold Proc.deferred
  revert hx
  cases x s with
  | mk r s' =>
    cases r with
    | ok a => exact hok a s'
    | error e => exact herr e s'

theorem Triple.result_bind {f : Except ε α → Proc σ ε β} (hx : Triple P x Q E)
    (hok : ∀ a, Triple (Q a) (f (.ok a)) R E') (herr : ∀ e, Triple (E e) (f (.error e)) R E') :
    Triple P (x.result >>= f) R E' := by
  intro s hs
  have hx := hx s hs
  show match f (x s).1 (x s).2 with
    | (.ok b, s') => R b s'
    | (.error e, s') => E' e s'
  revert hx
  cases x s with
  | mk r s' =>
    cases r with
    | ok a => exact hok a s'
    | error e => exact herr e s'

theorem Triple.ite {c : Prop} [Decidable c] {y : Proc σ ε α} (hx : c → Triple P x Q E)
    (hy : ¬c → Triple P y Q E) :
    Triple P (if c then x else y) Q E := by
  split
  · exact hx ‹c›
  · exact hy ‹¬c›

end Proc

end Sandboxer.Lib.Defers
