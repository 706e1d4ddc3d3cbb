import Mathlib.Logic.Relation
import Mathlib.Tactic.Choose

/-! # Threads over shared state, and rely/guarantee reasoning

The code of a thread is a tree of atomic actions. An action is a relation
between the shared state before it, the value it returns and the state after
it, so a system call with several outcomes is one action. A pool interleaves
any number of threads with environment moves. `Sat` is the proof system: the
assertions of one thread are stable under what the others may do (`R`), and
each of its actions keeps the shared invariant `I` and stays inside what the
others rely on (`G`). Unbounded loops are written with a fuel argument that a
theorem quantifies over; a finite execution never needs more than some fuel. -/
namespace Sandboxer.Lib.Threads

/-! ## Sections

A critical section is one action of its thread. `Section` is the monad such
actions are written in, with the outcomes of system calls left open. -/

def Section (σ α : Type) : Type := σ → α → σ → Prop

namespace Section

variable {σ α β : Type}

instance : Monad (Section σ) where
  pure a := fun s b s' => b = a ∧ s' = s
  bind m f := fun s b s'' => ∃ a s', m s a s' ∧ f a s' b s''

def read (f : σ → α) : Section σ α := fun s a s' => a = f s ∧ s' = s

def modify (f : σ → σ) : Section σ Unit := fun s _ s' => s' = f s

/-- A value chosen by the environment. -/
def any (p : σ → α → Prop) : Section σ α := fun s a s' => p s a ∧ s' = s

/-- Every outcome of the section from a state in `P` is in `Q`. -/
def Ensures (P : σ → Prop) (m : Section σ α) (Q : α → σ → Prop) : Prop :=
  ∀ s a s', P s → m s a s' → Q a s'

variable {P : σ → Prop} {Q : α → σ → Prop} {m : Section σ α}

theorem Ensures.pre {S : σ → Prop} (h : Ensures S m Q) (hp : ∀ s, P s → S s) : Ensures P m Q :=
  fun s a s' hs => h s a s' (hp s hs)

theorem Ensures.post {Q' : α → σ → Prop} (h : Ensures P m Q') (hq : ∀ a s, Q' a s → Q a s) :
    Ensures P m Q :=
  fun s a s' hs hm => hq a s' (h s a s' hs hm)

theorem Ensures.bind {f : α → Section σ β} {Q' : β → σ → Prop}
    (h : Ensures P m Q) (hf : ∀ a, Ensures (Q a) (f a) Q') : Ensures P (m >>= f) Q' := by
  rintro s b s'' hs ⟨a, s', hm, hk⟩
  exact hf a s' b s'' (h s a s' hs hm) hk

theorem Ensures.pure {a : α} (h : ∀ s, P s → Q a s) : Ensures P (Pure.pure a) Q := by
  rintro s b s' hs ⟨rfl, rfl⟩
  exact h _ hs

theorem Ensures.read {f : σ → α} (h : ∀ s, P s → Q (f s) s) : Ensures P (Section.read f) Q := by
  rintro s b s' hs ⟨rfl, rfl⟩
  exact h _ hs

theorem Ensures.modify {f : σ → σ} {Q : Unit → σ → Prop} (h : ∀ s, P s → Q () (f s)) :
    Ensures P (Section.modify f) Q := by
  rintro s b s' hs rfl
  exact h _ hs

theorem Ensures.any {p : σ → α → Prop} (h : ∀ s a, P s → p s a → Q a s) :
    Ensures P (Section.any p) Q := by
  rintro s b s' hs ⟨hp, rfl⟩
  exact h _ _ hs hp

/-- A section that starts by looking at the whole state. -/
theorem Ensures.start {s₀ : σ} {f : σ → Section σ α} (h : Ensures (· = s₀) (f s₀) Q) :
    Ensures (· = s₀) (Section.read id >>= f) Q := by
  rintro s a s' rfl ⟨_, _, ⟨rfl, rfl⟩, hf⟩
  exact h _ _ _ rfl hf

theorem Ensures.ite {c : Prop} [Decidable c] {m' : Section σ α}
    (ht : c → Ensures P m Q) (he : ¬c → Ensures P m' Q) : Ensures P (if c then m else m') Q := by
  split
  · exact ht ‹_›
  · exact he ‹_›

end Section

/-! ## Threads -/

/-- Code of one thread: a value, or an atomic action and what follows it. -/
inductive Prog (σ α : Type) : Type 1 where
  | ret (a : α)
  | act {β : Type} (step : Section σ β) (k : β → Prog σ α)

namespace Prog

variable {σ α β γ : Type}

def bind : Prog σ α → (α → Prog σ β) → Prog σ β
  | .ret a, f => f a
  | .act step k, f => .act step fun b => (k b).bind f

instance : Monad (Prog σ) where
  pure := .ret
  bind := bind

@[simp] theorem bind_ret (a : α) (f : α → Prog σ β) : (Prog.ret a >>= f) = f a := (rfl)

def atomic (step : Section σ α) : Prog σ α := .act step .ret

def look (f : σ → α) : Prog σ α := atomic fun s a s' => a = f s ∧ s' = s

def change (f : σ → σ) : Prog σ Unit := atomic fun s _ s' => s' = f s

/-- A critical section that computes a value and the next state. -/
def exec (f : σ → α × σ) : Prog σ α := atomic fun s a s' => (a, s') = f s

/-- A value chosen by the environment of the thread. -/
def choose (p : α → Prop) : Prog σ α := atomic fun s a s' => p a ∧ s' = s

/-- A thread that never moves again. -/
def halt : Prog σ α := .act (β := Empty) (fun _ _ _ => False) fun e => e.elim

end Prog

/-! ## Pools -/

/-- Shared state and the remaining code of every thread. -/
structure Pool (σ ι : Type) where
  shared : σ
  code : ι → Prog σ Unit

variable {σ ι α β : Type} [DecidableEq ι]

/-- One move: of a thread (its name is the label) or of the environment. -/
inductive Pool.Step (env : σ → σ → Prop) : Pool σ ι → Option ι → Pool σ ι → Prop where
  | thread {c : Pool σ ι} {t : ι} {γ : Type} {step : Section σ γ} {k : γ → Prog σ Unit}
      {b : γ} {s' : σ} (hc : c.code t = .act step k) (hs : step c.shared b s') :
      Pool.Step env c (some t) ⟨s', Function.update c.code t (k b)⟩
  | env {c : Pool σ ι} {s' : σ} (hs : env c.shared s') : Pool.Step env c none ⟨s', c.code⟩

inductive Pool.Reach (env : σ → σ → Prop) (c₀ : Pool σ ι) : Pool σ ι → Prop where
  | refl : Pool.Reach env c₀ c₀
  | step {c c' : Pool σ ι} {l : Option ι} (h : Pool.Reach env c₀ c)
      (hs : Pool.Step env c l c') : Pool.Reach env c₀ c'

/-! ## Executions -/

/-- Some execution of the code from a state, with no move of others in between,
ends with a value and a state in `Q`. -/
def Prog.may : Prog σ α → σ → (α → σ → Prop) → Prop
  | .ret a, s, Q => Q a s
  | .act step k, s, Q => ∃ b s', step s b s' ∧ (k b).may s' Q

section May

variable {s : σ} {Q : α → σ → Prop}

@[simp] theorem Prog.may_ret (a : α) : (Prog.ret a : Prog σ α).may s Q ↔ Q a s := ⟨id, id⟩

@[simp] theorem Prog.may_pure (a : α) : (pure a : Prog σ α).may s Q ↔ Q a s := ⟨id, id⟩

@[simp] theorem Prog.may_bind (p : Prog σ α) (f : α → Prog σ β) {Q : β → σ → Prop} :
    (p >>= f).may s Q ↔ p.may s fun a s => (f a).may s Q := by
  induction p generalizing s with
  | ret a => exact .rfl
  | act step k ih =>
    exact exists_congr fun b => exists_congr fun s' => and_congr_right fun _ => ih b

theorem Prog.may_atomic (step : Section σ α) :
    (Prog.atomic step).may s Q ↔ ∃ a s', step s a s' ∧ Q a s' := .rfl

@[simp] theorem Prog.may_look (f : σ → α) : (Prog.look f).may s Q ↔ Q (f s) s := by
  constructor
  · rintro ⟨a, s', ⟨rfl, rfl⟩, hq⟩
    exact hq
  · exact fun hq => ⟨_, _, ⟨rfl, rfl⟩, hq⟩

@[simp] theorem Prog.may_change (f : σ → σ) {Q : Unit → σ → Prop} :
    (Prog.change f).may s Q ↔ Q () (f s) := by
  constructor
  · rintro ⟨a, s', rfl, hq⟩
    exact hq
  · exact fun hq => ⟨(), _, rfl, hq⟩

@[simp] theorem Prog.may_exec (f : σ → α × σ) : (Prog.exec f).may s Q ↔ Q (f s).1 (f s).2 := by
  constructor
  · rintro ⟨a, s', heq, hq⟩
    rw [← heq]
    exact hq
  · exact fun hq => ⟨_, _, rfl, hq⟩

/-- Only the code is simplified, not what comes after it. -/
@[congr] theorem Prog.may_congr {p p' : Prog σ α} (h : p = p') : p.may s Q ↔ p'.may s Q := by rw [h]

theorem Prog.may_exists {p : Prog σ α} (h : p.may s Q) :
    ∃ a t, Q a t ∧ p.may s fun b u => b = a ∧ u = t := by
  induction p generalizing s with
  | ret a => exact ⟨a, s, h, rfl, rfl⟩
  | act step k ih =>
    obtain ⟨b, t, hs, hb⟩ := h
    obtain ⟨a, u, hq, hm⟩ := ih b hb
    exact ⟨a, u, hq, b, t, hs, hm⟩

end May

variable {env : σ → σ → Prop} {c₀ : Pool σ ι}

theorem Pool.Reach.act [Subsingleton ι] {s s' : σ} {step : Section σ β} {k : β → Prog σ Unit}
    {b : β} (t : ι) (h : Pool.Reach env c₀ ⟨s, fun _ => .act step k⟩) (hs : step s b s') :
    Pool.Reach env c₀ ⟨s', fun _ => k b⟩ := by
  have hcode : Function.update (fun _ : ι => Prog.act step k) t (k b) = fun _ => k b := by
    funext u
    rw [Subsingleton.elim u t, Function.update_self]
  have hstep : Pool.Step env (⟨s, fun _ => .act step k⟩ : Pool σ ι) (some t)
      ⟨s', Function.update (fun _ => .act step k) t (k b)⟩ := .thread rfl hs
  rw [hcode] at hstep
  exact h.step hstep

/-- An execution of the first part of a single thread is one of its pool. -/
theorem Prog.may_reach {p : Prog σ α} {k : α → Prog σ Unit} {s s' : σ} {a : α}
    {c₀ : Pool σ Unit} (h : p.may s fun b t => b = a ∧ t = s')
    (h₀ : Pool.Reach env c₀ ⟨s, fun _ => p >>= k⟩) : Pool.Reach env c₀ ⟨s', fun _ => k a⟩ := by
  induction p generalizing s with
  | ret b =>
    obtain ⟨rfl, rfl⟩ := h
    exact h₀
  | act step next ih =>
    obtain ⟨b, t, hs, hb⟩ := h
    exact ih b hb (h₀.act () hs)

/-- Some execution of the first `n` actions of the code, with no move of others
in between, leaves code and a state in `Q`. -/
def Prog.after : Nat → Prog σ α → σ → (Prog σ α → σ → Prop) → Prop
  | 0, p, s, Q => Q p s
  | _ + 1, .ret _, _, _ => False
  | n + 1, .act step k, s, Q => ∃ b s', step s b s' ∧ (k b).after n s' Q

/-- One thread of a pool makes some moves. -/
theorem Pool.Reach.after {c : Pool σ ι} {n : Nat} {t : ι}
    {Q : Prog σ Unit → σ → Prop} (h₀ : Pool.Reach env c₀ c) (h : (c.code t).after n c.shared Q) :
    ∃ p s, Pool.Reach env c₀ ⟨s, Function.update c.code t p⟩ ∧ Q p s := by
  induction n generalizing c with
  | zero =>
    refine ⟨c.code t, c.shared, ?_, h⟩
    rw [Function.update_eq_self]
    exact h₀
  | succ n ih =>
    cases hcode : c.code t with
    | ret a =>
      rw [hcode] at h
      exact h.elim
    | act step k =>
      rw [hcode] at h
      obtain ⟨b, s', hs, hrest⟩ := h
      have hstep := h₀.step (Pool.Step.thread hcode hs)
      have hcode' : Function.update c.code t (k b) t = k b := Function.update_self ..
      rw [← hcode'] at hrest
      obtain ⟨p, s, hreach, hq⟩ := ih hstep hrest
      refine ⟨p, s, ?_, hq⟩
      rwa [Function.update_idem] at hreach

/-- The next move of a thread whose code is known. -/
theorem Pool.Step.of_after {s : σ} {code : ι → Prog σ Unit} {t : ι} {p : Prog σ Unit}
    {Q : Prog σ Unit → σ → Prop} (h : p.after 1 s Q) :
    ∃ c', Pool.Step env ⟨s, Function.update code t p⟩ (some t) c' ∧ Q (c'.code t) c'.shared := by
  cases p with
  | ret a => exact h.elim
  | act step k =>
    obtain ⟨b, s', hs, hq⟩ := h
    refine ⟨_, .thread (Function.update_self ..) hs, ?_⟩
    dsimp only
    rwa [Function.update_self]

/-! ## Rely/guarantee -/

section Sat

variable (I : σ → Prop) (R G : σ → σ → Prop)

/-- An assertion the other threads cannot break. -/
def Stable (P : σ → Prop) : Prop := ∀ s s', I s → I s' → P s → R s s' → P s'

/-- From `P`, every action of the code keeps `I` and guarantees `G`, and a
value it ends with satisfies `Q`. -/
def Sat : (σ → Prop) → Prog σ α → (α → σ → Prop) → Prop
  | P, .ret a, Q => ∀ s, I s → P s → Q a s
  | P, .act (β := γ) step k, Q => ∃ M : γ → σ → Prop, (∀ b, Stable I R (M b)) ∧
      (∀ s b s', I s → P s → step s b s' → I s' ∧ G s s' ∧ M b s') ∧
      ∀ b, Sat (M b) (k b) Q

variable {I R G} {P : σ → Prop} {p : Prog σ α} {Q : α → σ → Prop}

/-- A stable assertion, found by its shape. -/
class Firm (I : σ → Prop) (R : σ → σ → Prop) (P : σ → Prop) : Prop where
  stable : Stable I R P

instance Firm.const (c : Prop) : Firm I R fun _ => c := ⟨fun _ _ _ _ h _ => h⟩

instance Firm.and {A B : σ → Prop} [hA : Firm I R A] [hB : Firm I R B] :
    Firm I R fun s => A s ∧ B s :=
  ⟨fun s s' hi hi' h hr => ⟨hA.stable s s' hi hi' h.1 hr, hB.stable s s' hi hi' h.2 hr⟩⟩

instance Firm.forall {γ : Sort*} {A : γ → σ → Prop} [h : ∀ x, Firm I R (A x)] :
    Firm I R fun s => ∀ x, A x s :=
  ⟨fun s s' hi hi' hs hr x => (h x).stable s s' hi hi' (hs x) hr⟩

instance Firm.exists {γ : Sort*} {A : γ → σ → Prop} [h : ∀ x, Firm I R (A x)] :
    Firm I R fun s => ∃ x, A x s :=
  ⟨fun s s' hi hi' ⟨x, hx⟩ hr => ⟨x, (h x).stable s s' hi hi' hx hr⟩⟩

theorem Sat.pre {S : σ → Prop} (h : Sat I R G S p Q) (hp : ∀ s, I s → P s → S s) :
    Sat I R G P p Q := by
  cases p with
  | ret a => exact fun s hi hs => h s hi (hp s hi hs)
  | act step k =>
    obtain ⟨M, hst, hstep, hk⟩ := h
    exact ⟨M, hst, fun s b s' hi hs => hstep s b s' hi (hp s hi hs), hk⟩

theorem Sat.post {T : α → σ → Prop} (h : Sat I R G P p Q) (hq : ∀ a s, I s → Q a s → T a s) :
    Sat I R G P p T := by
  induction p generalizing P with
  | ret a => exact fun s hi hs => hq a s hi (h s hi hs)
  | act step k ih =>
    obtain ⟨M, hst, hstep, hk⟩ := h
    exact ⟨M, hst, hstep, fun b => ih b (hk b)⟩

theorem Sat.of_false (h : ∀ s, ¬P s) : Sat I R G P p Q := by
  induction p generalizing P with
  | ret a => exact fun s _ hs => absurd hs (h s)
  | act step k ih =>
    exact ⟨fun _ _ => False, fun _ _ _ _ _ hs => hs.elim, fun s _ _ _ hs => absurd hs (h s),
      fun b => ih b fun _ hs => hs⟩

/-- What is known of local values only can be used as a hypothesis. -/
theorem Sat.fact {c : Prop} (h : c → Sat I R G P p Q) : Sat I R G (fun s => P s ∧ c) p Q := by
  by_cases hc : c
  · exact (h hc).pre fun _ _ hs => hs.1
  · exact .of_false fun _ hs => hc hs.2

/-- A value that is only known to exist can be used. -/
theorem Sat.exists {γ : Type} {P : γ → σ → Prop}
    (h : ∀ x, Sat I R G (P x) p Q) : Sat I R G (fun s => ∃ x, P x s) p Q := by
  induction p generalizing P with
  | ret a =>
    intro s hi hs
    obtain ⟨x, hx⟩ := hs
    exact h x s hi hx
  | act step k ih =>
    choose M hst hstep hk using h
    refine ⟨fun b s => ∃ x, M x b s, fun b s s' hi hi' hs hr => ?_, fun s b s' hi hs hb => ?_,
      fun b => ih b fun x => hk x b⟩
    · obtain ⟨x, hx⟩ := hs
      exact ⟨x, hst x b s s' hi hi' hx hr⟩
    · obtain ⟨x, hx⟩ := hs
      obtain ⟨hi', hg, hm⟩ := hstep x s b s' hi hx hb
      exact ⟨hi', hg, x, hm⟩

theorem Sat.bind {f : α → Prog σ β} {M : α → σ → Prop}
    {Q : β → σ → Prop} (h : Sat I R G P p M) (hf : ∀ a, Sat I R G (M a) (f a) Q) :
    Sat I R G P (p >>= f) Q := by
  induction p generalizing P with
  | ret a => exact (hf a).pre h
  | act step k ih =>
    obtain ⟨N, hst, hstep, hk⟩ := h
    exact ⟨N, hst, hstep, fun b => ih b (hk b)⟩

variable {a : α}

theorem Sat.pure (h : ∀ s, I s → P s → Q a s) : Sat I R G P (Pure.pure a) Q := h

theorem Sat.skip : Sat I R G P (Pure.pure a) fun _ => P := fun _ _ h => h

theorem Sat.stop : Sat I R G P (Pure.pure a) fun _ _ => True := fun _ _ _ => trivial

section Actions

variable {step : Section σ α} [hQ : ∀ a, Firm I R (Q a)]

/-- One action: the assertion after it is stable, and the action keeps the
invariant inside the guarantee. -/
theorem Sat.atomic (h : ∀ s a s', I s → P s → step s a s' → I s' ∧ G s s' ∧ Q a s') :
    Sat I R G P (Prog.atomic step) Q :=
  ⟨Q, fun a => (hQ a).stable, h, fun _ _ _ hq => hq⟩

/-- A look at the state: what is known of the value must be stable. -/
theorem Sat.look {f : σ → α} (hG : ∀ s, I s → G s s) (h : ∀ s, I s → P s → Q (f s) s) :
    Sat I R G P (Prog.look f) Q := by
  refine .atomic ?_
  rintro s a s' hi hs ⟨rfl, rfl⟩
  exact ⟨hi, hG _ hi, h _ hi hs⟩

theorem Sat.exec {f : σ → α × σ} (h : ∀ s, I s → P s → I (f s).2 ∧ G s (f s).2 ∧
      Q (f s).1 (f s).2) :
    Sat I R G P (Prog.exec f) Q := by
  refine .atomic ?_
  intro s a s' hi hs heq
  have := h s hi hs
  rwa [← heq] at this

theorem Sat.change {f : σ → σ} {Q : Unit → σ → Prop} [∀ a, Firm I R (Q a)]
    (h : ∀ s, I s → P s → I (f s) ∧ G s (f s) ∧ Q () (f s)) : Sat I R G P (Prog.change f) Q := by
  refine .atomic ?_
  rintro s a s' hi hs rfl
  exact h s hi hs

variable [hP : Firm I R P]

/-- An action that leaves the shared state alone and whose value only
satisfies a fact about itself keeps any stable assertion. -/
theorem Sat.atomic_keep {F : α → Prop} (hG : ∀ s, I s → G s s)
    (h : ∀ s a s', I s → P s → step s a s' → s' = s ∧ F a) :
    Sat I R G P (Prog.atomic step) (fun a s => P s ∧ F a) := by
  refine .atomic fun s a s' hi hs hstep => ?_
  obtain ⟨rfl, hf⟩ := h s a s' hi hs hstep
  exact ⟨hi, hG _ hi, hs, hf⟩

theorem Sat.watch {f : σ → α} (hG : ∀ s, I s → G s s) : Sat I R G P (Prog.look f) fun _ => P :=
  Sat.look hG fun _ _ h => h

theorem Sat.choose {p : α → Prop} (hG : ∀ s, I s → G s s) :
    Sat I R G P (Prog.choose p) (fun a s => P s ∧ p a) :=
  Sat.atomic_keep hG fun _ _ _ _ _ h => ⟨h.2, h.1⟩

end Actions

theorem Sat.ite {c : Prop} [Decidable c] {p' : Prog σ α} (ht : c → Sat I R G P p Q)
    (he : ¬c → Sat I R G P p' Q) :
    Sat I R G P (if c then p else p') Q := by
  split
  · exact ht ‹_›
  · exact he ‹_›

theorem Sat.weaken {H : σ → σ → Prop} (h : Sat I R G P p Q) (hG : ∀ s s', G s s' → H s s') :
    Sat I R H P p Q := by
  induction p generalizing P with
  | ret a => exact h
  | act step k ih =>
    obtain ⟨M, hst, hstep, hk⟩ := h
    refine ⟨M, hst, fun s b s' hi hs hb => ?_, fun b => ih b (hk b)⟩
    obtain ⟨hi', hg, hm⟩ := hstep s b s' hi hs hb
    exact ⟨hi', hG s s' hg, hm⟩

section Frame

variable {F : σ → Prop} [hF : Firm I R F]

/-- What neither the other threads nor the guarantee can break is kept. -/
theorem Sat.frame (h : Sat I R G P p Q) (hG : ∀ s s', I s → G s s' → F s → F s') :
    Sat I R G (fun s => P s ∧ F s) p fun a s => Q a s ∧ F s := by
  induction p generalizing P with
  | ret a => exact fun s hi hs => ⟨h s hi hs.1, hs.2⟩
  | act step k ih =>
    obtain ⟨M, hst, hstep, hk⟩ := h
    refine ⟨fun b s => M b s ∧ F s, fun b s s' hi hi' hs hr =>
      ⟨hst b s s' hi hi' hs.1 hr, hF.stable s s' hi hi' hs.2 hr⟩, fun s b s' hi hs hb => ?_,
      fun b => ih b (hk b)⟩
    obtain ⟨hi', hg, hm⟩ := hstep s b s' hi hs.1 hb
    exact ⟨hi', hg, hm, hG s s' hi hg hs.2⟩

/-- What the other threads cannot break is kept by one action that keeps it. -/
theorem Sat.atomic_frame {step : Section σ α} (h : Sat I R G P (Prog.atomic step) Q)
    (hkeep : ∀ s a s', step s a s' → F s → F s') :
    Sat I R G (fun s => P s ∧ F s) (Prog.atomic step) fun a s => Q a s ∧ F s := by
  obtain ⟨M, hst, hstep, hk⟩ := h
  refine ⟨fun b s => M b s ∧ F s, fun b s s' hi hi' hs hr =>
    ⟨hst b s s' hi hi' hs.1 hr, hF.stable s s' hi hi' hs.2 hr⟩, fun s b s' hi hs hb => ?_,
    fun b s hi hs => ⟨hk b s hi hs.1, hs.2⟩⟩
  obtain ⟨hi', hg, hm⟩ := hstep s b s' hi hs.1 hb
  exact ⟨hi', hg, hm, hkeep s b s' hb hs.2⟩

end Frame

theorem Sat.halt : Sat I R G P (Prog.halt : Prog σ α) Q :=
  ⟨fun e => e.elim, fun e => e.elim, fun _ _ _ _ _ h => h.elim, fun e => e.elim⟩

end Sat

/-! ## Soundness for pools -/

section Sound

variable {I : σ → Prop} {R G : ι → σ → σ → Prop} {env : σ → σ → Prop}

/-- What a thread still has to do is covered by an assertion that holds now. -/
def Covered (I : σ → Prop) (R G : σ → σ → Prop) (s : σ) (p : Prog σ Unit) : Prop :=
  ∃ P : σ → Prop, P s ∧ Stable I R P ∧ Sat I R G P p fun _ _ => True

structure Sound (I : σ → Prop) (R G : ι → σ → σ → Prop) (env : σ → σ → Prop) : Prop where
  compatible : ∀ t u, t ≠ u → ∀ s s', I s → I s' → G t s s' → R u s s'
  env_inv : ∀ s s', I s → env s s' → I s'
  env_rely : ∀ s s', I s → I s' → env s s' → ∀ u, R u s s'

variable {c : Pool σ ι}

theorem Pool.Step.covered (hS : Sound I R G env) {c' : Pool σ ι} {l : Option ι}
    (hi : I c.shared) (hc : ∀ t, Covered I (R t) (G t) c.shared (c.code t))
    (hs : Pool.Step env c l c') :
    I c'.shared ∧ (∀ t, l = some t → G t c.shared c'.shared) ∧
      ∀ t, Covered I (R t) (G t) c'.shared (c'.code t) := by
  cases hs with
  | @thread t γ step k b s' hcode hstep =>
    obtain ⟨P, hP, _, hsat⟩ := hc t
    rw [hcode] at hsat
    obtain ⟨M, hst, hrun, hk⟩ := hsat
    obtain ⟨hi', hg, hM⟩ := hrun _ _ _ hi hP hstep
    refine ⟨hi', fun u hu => by cases hu; exact hg, fun u => ?_⟩
    by_cases hut : u = t
    · subst hut
      refine ⟨M b, hM, hst b, ?_⟩
      simpa using hk b
    · obtain ⟨P₁, hP₁, hst', hsat'⟩ := hc u
      refine ⟨P₁, hst' _ _ hi hi' hP₁ (hS.compatible t u (Ne.symm hut) _ _ hi hi' hg), hst', ?_⟩
      simpa [Function.update_of_ne hut] using hsat'
  | env hstep =>
    have hi' := hS.env_inv _ _ hi hstep
    refine ⟨hi', fun u hu => (Option.some_ne_none u hu.symm).elim, fun u => ?_⟩
    obtain ⟨P₁, hP₁, hst', hsat'⟩ := hc u
    exact ⟨P₁, hst' _ _ hi hi' hP₁ (hS.env_rely _ _ hi hi' hstep u), hst', hsat'⟩

/-- In every reachable pool the invariant holds and every thread is covered. -/
theorem Pool.Reach.covered (hS : Sound I R G env) (h : Pool.Reach env c₀ c)
    (hi : I c₀.shared) (hc : ∀ t, Covered I (R t) (G t) c₀.shared (c₀.code t)) :
    I c.shared ∧ ∀ t, Covered I (R t) (G t) c.shared (c.code t) := by
  induction h with
  | refl => exact ⟨hi, hc⟩
  | step _ hs ih =>
    obtain ⟨hi', _, hc'⟩ := hs.covered hS ih.1 ih.2
    exact ⟨hi', hc'⟩

/-- Every move a thread makes from a reachable pool is within its guarantee. -/
theorem Pool.Reach.guarantee (hS : Sound I R G env) {c' : Pool σ ι} {t : ι}
    (h : Pool.Reach env c₀ c) (hs : Pool.Step env c (some t) c') (hi : I c₀.shared)
    (hc : ∀ t, Covered I (R t) (G t) c₀.shared (c₀.code t)) : G t c.shared c'.shared := by
  obtain ⟨hi', hc'⟩ := h.covered hS hi hc
  exact (hs.covered hS hi' hc').2.1 t rfl

end Sound

end Sandboxer.Lib.Threads
