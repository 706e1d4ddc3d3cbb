import Sandboxer.Lib.Threads

/-! # Routines: thread code with private state and errors

A routine is code of a thread that also has a state of its own, which no other
thread can touch, and may stop with an error. An error keeps the private state
as it was when the error was raised, as in a language with mutable objects and
error values. `Routine.Spec` is the triple for routines: what holds before,
what holds of a result, and what holds when the routine stops with an error. -/
namespace Sandboxer.Lib.Threads

/-- Code over shared state `σ` and private state `μ` that may fail with `ε`. -/
def Routine (σ μ ε α : Type) : Type 1 := μ → Prog σ (Except ε α × μ)

namespace Routine

variable {σ μ ε α β : Type} (f : α → Routine σ μ ε β)

/-- What follows a result; an error is passed on with the private state. -/
def next : Except ε α × μ → Prog σ (Except ε β × μ)
  | (.ok a, m) => f a m
  | (.error e, m) => .ret (.error e, m)

instance : Monad (Routine σ μ ε) where
  pure a := fun m => .ret (.ok a, m)
  bind x f := fun m => x m >>= next f

def fail (e : ε) : Routine σ μ ε α := fun m => .ret (.error e, m)

/-- An error or a value that is already there. -/
def ofExcept : Except ε α → Routine σ μ ε α
  | .ok a => pure a
  | .error e => fail e

/-- Read the private state. -/
def get : Routine σ μ ε μ := fun m => .ret (.ok m, m)

/-- Change the private state. -/
def modify (f : μ → μ) : Routine σ μ ε Unit := fun m => .ret (.ok (), f m)

/-- Code that does not touch the private state. -/
def lift (p : Prog σ α) : Routine σ μ ε α := fun m => p >>= fun a => .ret (.ok a, m)

/-- Go on after an error. -/
def attempt (x : Routine σ μ ε α) : Routine σ μ ε (Except ε α) :=
  fun m => x m >>= fun r => .ret (.ok r.1, r.2)

section Apply

variable (m : μ)

@[simp] theorem pure_apply (a : α) : (pure a : Routine σ μ ε α) m = .ret (.ok a, m) := (rfl)

@[simp] theorem bind_apply (x : Routine σ μ ε α) (f : α → Routine σ μ ε β) :
    (x >>= f) m = x m >>= next f := (rfl)

@[simp] theorem next_ok (a : α) : next f (.ok a, m) = f a m := (rfl)

@[simp] theorem next_error (e : ε) : next f (.error e, m) = .ret (.error e, m) := (rfl)

@[simp] theorem get_apply : (get : Routine σ μ ε μ) m = .ret (.ok m, m) := (rfl)

@[simp] theorem modify_apply (f : μ → μ) : (modify f : Routine σ μ ε Unit) m = .ret (.ok (), f m) :=
  (rfl)

@[simp] theorem fail_apply (e : ε) : (fail e : Routine σ μ ε α) m = .ret (.error e, m) := (rfl)

@[simp] theorem lift_apply (p : Prog σ α) :
    (lift p : Routine σ μ ε α) m = p >>= fun a => .ret (.ok a, m) := (rfl)

@[simp] theorem ofExcept_ok (a : α) : (ofExcept (.ok a) : Routine σ μ ε α) = pure a := (rfl)

@[simp] theorem ofExcept_error (e : ε) : (ofExcept (.error e) : Routine σ μ ε α) = fail e := (rfl)

end Apply

section Spec

variable (I : σ → Prop) (R G : σ → σ → Prop)

/-- What a routine leaves: `Q` of a result, `E` of the state at an error. -/
def After (Q : α → μ → σ → Prop) (E : μ → σ → Prop) : Except ε α × μ → σ → Prop
  | (.ok a, m), s => Q a m s
  | (.error _, m), s => E m s

/-- From `P` the routine is safe and leaves `Q`, or stops with an error in `E`. -/
def Spec (P : μ → σ → Prop) (x : Routine σ μ ε α) (Q : α → μ → σ → Prop) (E : μ → σ → Prop) :
    Prop :=
  ∀ m, Sat I R G (P m) (x m) (After Q E)

variable {I R G} {P : μ → σ → Prop} {Q : α → μ → σ → Prop} {E : μ → σ → Prop} {x : Routine σ μ ε α}

theorem Spec.pre {S : μ → σ → Prop} (h : Spec I R G S x Q E)
    (hp : ∀ m s, I s → P m s → S m s) : Spec I R G P x Q E :=
  fun m => (h m).pre (hp m)

variable {E' : μ → σ → Prop}

theorem Spec.post {Q' : α → μ → σ → Prop} (h : Spec I R G P x Q' E')
    (hq : ∀ a m s, I s → Q' a m s → Q a m s)
    (he : ∀ m s, I s → E' m s → E m s) : Spec I R G P x Q E := by
  intro m
  refine (h m).post fun r s hi hr => ?_
  match r with
  | (.ok a, m') => exact hq a m' s hi hr
  | (.error _, m') => exact he m' s hi hr

theorem Spec.map {Q' : α → μ → σ → Prop} (h : Spec I R G P x Q' E)
    (hq : ∀ a m s, I s → Q' a m s → Q a m s) : Spec I R G P x Q E :=
  h.post hq fun _ _ _ he => he

theorem Spec.bind {M : α → μ → σ → Prop} {Q : β → μ → σ → Prop} {f : α → Routine σ μ ε β}
    (h : Spec I R G P x M E)
    (hf : ∀ a, Spec I R G (M a) (f a) Q E) : Spec I R G P (x >>= f) Q E := by
  intro m
  refine .bind (h m) fun r => ?_
  match r with
  | (.ok a, m') => exact hf a m'
  | (.error _, _) => exact fun _ _ he => he

theorem Spec.pure {a : α} (h : ∀ m s, I s → P m s → Q a m s) :
    Spec I R G P (Pure.pure a : Routine σ μ ε α) Q E := h

theorem Spec.skip {Q : μ → σ → Prop} {a : α} :
    Spec I R G Q (Pure.pure a : Routine σ μ ε α) (fun _ => Q) E :=
  fun _ _ _ h => h

theorem Spec.fail {e : ε} (h : ∀ m s, I s → P m s → E m s) :
    Spec I R G P (Routine.fail e : Routine σ μ ε α) Q E := h

theorem Spec.abort {e : ε} : Spec I R G P (Routine.fail e : Routine σ μ ε α) Q fun _ _ => True :=
  fun _ _ _ _ => trivial

theorem Spec.ofExcept {r : Except ε α} (hq : ∀ a m s, r = .ok a → I s → P m s → Q a m s)
    (he : ∀ e m s, r = .error e → I s → P m s → E m s) :
    Spec I R G P (Routine.ofExcept r : Routine σ μ ε α) Q E := by
  cases r with
  | ok a => exact .pure fun m s hi hs => hq a m s rfl hi hs
  | error e => exact .fail fun m s hi hs => he e m s rfl hi hs

/-- The private state is read as a value. -/
theorem Spec.get {f : μ → Routine σ μ ε β} {Q : β → μ → σ → Prop}
    (h : ∀ m, Spec I R G (fun m' s => m' = m ∧ P m' s) (f m) Q E) :
    Spec I R G P (Routine.get >>= f) Q E :=
  fun m => (h m m).pre fun _ _ hs => ⟨rfl, hs⟩

theorem Spec.modify {f : μ → μ} {Q : Unit → μ → σ → Prop} (h : ∀ m s, I s → P m s → Q () (f m) s) :
    Spec I R G P (Routine.modify f : Routine σ μ ε Unit) Q E := h

theorem Spec.lift {p : Prog σ α} (h : ∀ m, Sat I R G (P m) p fun a => Q a m) :
    Spec I R G P (Routine.lift p : Routine σ μ ε α) Q E :=
  fun m => .bind (h m) fun _ _ _ hq => hq

/-- What went on after an error; nothing is left to fail. -/
theorem Spec.attempt {Q' : Except ε α → μ → σ → Prop}
    (h : Spec I R G P x Q E) (hq : ∀ a m s, I s → Q a m s → Q' (.ok a) m s)
    (he : ∀ e m s, I s → E m s → Q' (.error e) m s) : Spec I R G P (Routine.attempt x) Q' E' := by
  intro m
  refine .bind (h m) fun r => ?_
  match r with
  | (.ok a, m') => exact fun s hi hs => hq a m' s hi hs
  | (.error e, m') => exact fun s hi hs => he e m' s hi hs

/-- After an attempt only a result says something. -/
theorem Spec.attempt_ok (h : Spec I R G P x Q E) :
    Spec I R G P (Routine.attempt x) (fun r m s => ∀ a, r = .ok a → Q a m s) E' := by
  refine h.attempt (fun a m s _ hq b hb => ?_) fun e m s _ _ b hb => ?_
  · cases hb
    exact hq
  · cases hb

theorem Spec.ite {c : Prop} [Decidable c] {y : Routine σ μ ε α}
    (ht : c → Spec I R G P x Q E) (he : ¬c → Spec I R G P y Q E) :
    Spec I R G P (if c then x else y) Q E := by
  split
  · exact ht ‹_›
  · exact he ‹_›

/-- What is known of values only can be used as a hypothesis. -/
theorem Spec.fact {c : Prop} (h : c → Spec I R G P x Q E) :
    Spec I R G (fun m s => P m s ∧ c) x Q E :=
  fun m => .fact fun hc => h hc m

theorem Spec.exists {γ : Type} {P : γ → μ → σ → Prop}
    (h : ∀ c, Spec I R G (P c) x Q E) : Spec I R G (fun m s => ∃ c, P c m s) x Q E :=
  fun m => .exists fun c => h c m

end Spec

end Routine

end Sandboxer.Lib.Threads
