import Mathlib.Data.Finset.Card
import Mathlib.Data.Nat.Bitwise
import Sandboxer.Lib.Threads

/-! # Memory reports of `sandbox-init`

`memReportStream` numbers the reports of one observation epoch and retries a
report until it is acknowledged. A mutex guards the numbering. A separate word,
changed by compare-and-swap only, holds the paused gate in its high bit and the
number of admitted attempts below it. Attempts, pauses, epoch advances and resumes
come from any number of goroutines. -/
namespace Sandboxer.Init.MemReport

open Lib.Threads

/-! ## The numbering -/

/-- The fields besides the numbers are one value. -/
structure Report (κ : Type) where
  epoch : Nat
  seq : Nat
  content : κ

inductive Event (κ : Type) where
  | sent (r : Report κ)
  | acked (r : Report κ)
  | advanced (epoch : Nat)

def maxUint64 : Nat := 2 ^ 64 - 1

/-- What the mutex guards, with whether an exchange is in flight and the events so
far, the newest first. -/
structure Guarded (κ : Type) where
  epoch : Nat
  seq : Nat
  pending : Option (Report κ)
  failures : Nat
  exchanging : Bool
  log : List (Event κ)

namespace Guarded

variable {κ : Type}

/-- The report that `attempt` sends: the pending one, or a new one from what was read. -/
def next (read : Option κ) (g : Guarded κ) : Option (Report κ) × Guarded κ :=
  match g.pending with
  | some r => (some r, g)
  | none =>
    match read with
    | none => (none, { g with failures := g.failures + 1 })
    | some content =>
      if g.seq = maxUint64 then (none, { g with failures := g.failures + 1 })
      else
        let r : Report κ := ⟨g.epoch, g.seq + 1, content⟩
        (some r, { g with seq := g.seq + 1, pending := some r })

def begin (g : Guarded κ) : Guarded κ := { g with exchanging := true }

def record (e : Event κ) (g : Guarded κ) : Guarded κ := { g with log := e :: g.log }

/-- The exchange is over; without an error the report is no longer pending. -/
def finish (ok : Bool) (g : Guarded κ) : Guarded κ :=
  if ok then { g with exchanging := false, pending := none, failures := 0 }
  else { g with exchanging := false, failures := g.failures + 1 }

/-- The critical section of `advanceEpochAndPause`. -/
def advance (g : Guarded κ) : Guarded κ :=
  if g.epoch = maxUint64 then g
  else { g with
    epoch := g.epoch + 1, seq := 0, pending := none, failures := 0
    log := .advanced (g.epoch + 1) :: g.log }

end Guarded

/-! ## The stream -/

def pausedBit : Nat := 2 ^ 63

def activeMask : Nat := pausedBit - 1

/-- What the callers see of the gate: a call of `pauseAndDrain` begins or has returned, and
`resumeEpoch` has cleared the gate. -/
inductive Gate (ι : Type) where
  | pausing (t : ι)
  | paused (t : ι)
  | resumed

structure Stream (ι κ : Type) where
  admission : Nat
  mu : Option ι
  guarded : Guarded κ
  /-- between `beginAttempt` and `endAttempt` -/
  admitted : Finset ι
  /-- the newest first -/
  history : List (Gate ι)
  panicked : Bool

variable {ι κ : Type}

/-- Load the word, decide, and swap if it is still the same. -/
def casLoop (next : Nat → Option Nat) (ghost : Stream ι κ → Stream ι κ) :
    Nat → Prog (Stream ι κ) Bool
  | 0 => Prog.halt
  | fuel + 1 => do
    let state ← Prog.look (·.admission)
    match next state with
    | none => pure false
    | some state' =>
      if ← Prog.exec fun s =>
          if s.admission = state then (true, ghost { s with admission := state' }) else
          (false, s) then
        pure true
      else casLoop next ghost fuel

def paused (state : Nat) : Bool := state &&& pausedBit != 0

def beginNext (state : Nat) : Option Nat :=
  if paused state then none else if state &&& activeMask = activeMask then none else some
    (state + 1)

def endNext (state : Nat) : Option Nat :=
  if state &&& activeMask = 0 then none else some (state - 1)

def pauseNext (state : Nat) : Option Nat :=
  if paused state then none else some (state ||| pausedBit)

def resumeNext (state : Nat) : Option Nat :=
  if paused state then some (state &&& (maxUint64 ^^^ pausedBit)) else none

def beginAttempt [DecidableEq ι] (t : ι) : Nat → Prog (Stream ι κ) Bool :=
  casLoop beginNext fun s => { s with admitted := insert t s.admitted }

/-- An underflow is a panic. -/
def endAttempt [DecidableEq ι] (t : ι) (fuel : Nat) : Prog (Stream ι κ) Unit := do
  if ← casLoop endNext (fun s => { s with admitted := s.admitted.erase t }) fuel then pure ()
  else Prog.change fun s => { s with panicked := true }

def drain : Nat → Prog (Stream ι κ) Unit
  | 0 => Prog.halt
  | fuel + 1 => do
    let state ← Prog.look (·.admission)
    if state = pausedBit then pure () else drain fuel

variable (fuel : Nat)

def pauseAndDrain : Prog (Stream ι κ) Unit := do
  let _ ← casLoop pauseNext (fun s => s) fuel
  drain fuel

variable (t : ι)

def note (e : Gate ι) : Prog (Stream ι κ) Unit :=
  Prog.change fun s => { s with history := e :: s.history }

/-- A call of `pauseAndDrain`, between the notes of its caller. -/
def callPause : Prog (Stream ι κ) Unit := do
  note (.pausing t)
  pauseAndDrain fuel
  note (.paused t)

def lock : Prog (Stream ι κ) Unit :=
  Prog.atomic fun s _ s' => s.mu = none ∧ s' = { s with mu := some t }

def unlock : Prog (Stream ι κ) Unit := Prog.change fun s => { s with mu := none }

def guard (f : Guarded κ → Guarded κ) : Prog (Stream ι κ) Unit :=
  Prog.change fun s => { s with guarded := f s.guarded }

def advanceEpochAndPause : Prog (Stream ι κ) Unit := do
  callPause fuel t
  lock t
  guard Guarded.advance
  unlock

def resumeEpoch : Prog (Stream ι κ) Unit := do
  let _ ← casLoop resumeNext (fun s => { s with history := .resumed :: s.history }) fuel
  pure ()

/-- A call that may succeed or fail. -/
def outcome : Prog (Stream ι κ) Bool := Prog.choose fun _ => True

/-- `notifyMemReport`. An exchange whose dial succeeded may have delivered
the report, whether or not the acknowledgement arrives. -/
def notify (r : Report κ) : Prog (Stream ι κ) Unit := do
  guard Guarded.begin
  if ← outcome then
    guard (Guarded.record (.sent r))
    if ← outcome then
      guard (Guarded.record (.acked r))
      guard (Guarded.finish true)
    else guard (Guarded.finish false)
  else guard (Guarded.finish false)

/-- Sampling and delivery, under the mutex. -/
def deliver : Prog (Stream ι κ) Unit := do
  let read ← Prog.choose fun _ : Option κ => True
  match ← Prog.exec fun s =>
    ((s.guarded.next read).1, { s with guarded := (s.guarded.next read).2 }) with
  | some r => notify r
  | none => pure ()

def attempt [DecidableEq ι] (t : ι) (fuel : Nat) : Prog (Stream ι κ) Unit := do
  if ← beginAttempt t fuel then
    lock t
    deliver
    unlock
    endAttempt t fuel
  else pure ()

inductive Op where
  | attempt
  | pause
  | advance
  | resume

def call [DecidableEq ι] (t : ι) (fuel : Nat) : Op → Prog (Stream ι κ) Unit
  | .attempt => attempt t fuel
  | .pause => callPause fuel t
  | .advance => advanceEpochAndPause fuel t
  | .resume => resumeEpoch fuel

/-- A goroutine makes any calls, one after the other. -/
def calls [DecidableEq ι] (t : ι) : List (Op × Nat) → Prog (Stream ι κ) Unit
  | [] => pure ()
  | (op, fuel) :: ops => do
    call t fuel op
    calls t ops

/-- The last report of the epoch that was sent. -/
def lastSent (epoch : Nat) : List (Event κ) → Option (Report κ)
  | [] => none
  | .sent r :: log => if r.epoch = epoch then some r else lastSent epoch log
  | .acked _ :: log => lastSent epoch log
  | .advanced _ :: log => lastSent epoch log

/-- What may be sent in the epoch of `r`: number 1 first, then the last report again,
or the next number once that report was acknowledged. -/
def Follows (log : List (Event κ)) (r : Report κ) : Prop :=
  match lastSent r.epoch log with
  | none => r.seq = 1
  | some last => r = last ∨ r.seq = last.seq + 1 ∧ .acked last ∈ log

/-- Every report follows the ones sent before it, is the same as those with its
number, and is not of an epoch that had ended. -/
def Gapless : List (Event κ) → Prop
  | [] => True
  | .sent r :: log =>
    Follows log r ∧ (∀ r', .sent r' ∈ log → r'.epoch = r.epoch → r'.seq = r.seq → r' = r) ∧
      (∀ e, .advanced e ∈ log → e ≤ r.epoch) ∧ Gapless log
  | .acked _ :: log => Gapless log
  | .advanced _ :: log => Gapless log

structure Ready (g : Guarded κ) (r : Report κ) : Prop where
  epoch : r.epoch = g.epoch
  seq : r.seq = g.seq
  follows : Follows g.log r
  same : ∀ r', .sent r' ∈ g.log → r'.epoch = r.epoch → r'.seq = r.seq → r' = r

/-- With nothing pending, the last number of the epoch was acknowledged. -/
def Settled (g : Guarded κ) : Prop :=
  match lastSent g.epoch g.log with
  | none => g.seq = 0
  | some last => last.seq = g.seq ∧ .acked last ∈ g.log

structure Numbered (g : Guarded κ) : Prop where
  gapless : Gapless g.log
  epochs : ∀ r, .sent r ∈ g.log → r.epoch ≤ g.epoch
  seqs : ∀ r, .sent r ∈ g.log → r.epoch = g.epoch → r.seq ≤ g.seq
  advanced : ∀ e, .advanced e ∈ g.log → e ≤ g.epoch
  pending : ∀ r, g.pending = some r → Ready g r
  settled : g.pending = none → Settled g

variable {g : Guarded κ} {r : Report κ} {log : List (Event κ)}

theorem lastSent_eq_none {epoch : Nat} (h : ∀ r, .sent r ∈ log → r.epoch ≠ epoch) :
    lastSent epoch log = none := by
  induction log with
  | nil => rfl
  | cons e log ih =>
    have hrest := ih fun r hr => h r (.tail _ hr)
    cases e with
    | sent r => rw [lastSent, if_neg (h r ((.head _) ..)), hrest]
    | acked r | advanced n => exact hrest

theorem Follows.cons (h : Follows log r) {r' : Report κ} : Follows (.acked r' :: log) r := by
  unfold Follows at h ⊢
  rw [lastSent]
  split at h
  · exact h
  · exact h.imp_right fun ⟨hseq, hm⟩ => ⟨hseq, .tail _ hm⟩

/-- The first send of a new number, whose number no earlier report has. -/
theorem Settled.follows (h : Settled g) (content : κ) :
    Follows g.log ⟨g.epoch, g.seq + 1, content⟩ := by
  unfold Settled at h
  unfold Follows
  split at h
  next hlast => rw [hlast, h]
  next last hlast =>
    rw [hlast]
    exact .inr ⟨by rw [h.1], h.2⟩

/-- Only the failures and the exchange change. -/
theorem Numbered.idle (h : Numbered g) (failures : Nat) (exchanging : Bool) :
    Numbered { g with failures := failures, exchanging := exchanging } :=
  { h with pending := fun r hp => { h.pending r hp with }, settled := h.settled }

theorem Numbered.next (h : Numbered g) (read : Option κ) : Numbered (g.next read).2 ∧
    (g.next read).2.exchanging = g.exchanging ∧ ∀ r, (g.next read).1 = some r →
      (g.next read).2.pending = some r := by
  have fails : Numbered { g with failures := g.failures + 1 } := h.idle ..
  unfold Guarded.next
  split
  next r hp => exact ⟨h, rfl, fun r' hr' => hp.trans hr'⟩
  next hp =>
    split
    · exact ⟨fails, rfl, nofun⟩
    next content =>
      split
      · exact ⟨fails, rfl, nofun⟩
      refine ⟨⟨h.gapless, h.epochs, fun r hr he => Nat.le_succ_of_le (h.seqs r hr he), h.advanced,
        ?_, nofun⟩, rfl, fun r hr => hr⟩
      rintro r ⟨⟩
      refine ⟨rfl, rfl, (h.settled hp).follows content, fun r' hr' he hs => ?_⟩
      have := h.seqs r' hr' he
      dsimp only at hs
      omega

theorem Numbered.sent (h : Numbered g) (hp : g.pending = some r) :
    Numbered (g.record (.sent r)) := by
  have hr := h.pending r hp
  have split : ∀ r', .sent r' ∈ Event.sent r :: g.log → r' = r ∨ .sent r' ∈ g.log := fun r' hm => by
    rcases List.mem_cons.1 hm with heq | hm
    · exact .inl (Event.sent.inj heq)
    · exact .inr hm
  refine ⟨⟨hr.follows, hr.same, fun e he => hr.epoch ▸ h.advanced e he, h.gapless⟩, fun r' hm => ?_,
    fun r' hm he => ?_, fun e hm => h.advanced e ((List.mem_cons.1 hm).resolve_left nofun),
      fun r' hp' => ?_, fun hn => nomatch hp.symm.trans hn⟩
  · rcases split r' hm with rfl | hm
    · exact le_of_eq hr.epoch
    · exact h.epochs r' hm
  · rcases split r' hm with rfl | hm
    · exact le_of_eq hr.seq
    · exact h.seqs r' hm he
  obtain rfl : r = r' := Option.some.inj (hp.symm.trans hp')
  refine ⟨hr.epoch, hr.seq, ?_, fun r' hm he hs => ?_⟩
  · show Follows (.sent r :: g.log) r
    unfold Follows
    rw [lastSent, if_pos rfl]
    exact .inl rfl
  · rcases split r' hm with rfl | hm
    · rfl
    · exact hr.same r' hm he hs

theorem Numbered.acked (h : Numbered g) (hp : g.pending = some r) :
    Numbered (g.record (.acked r)) := by
  have mem : ∀ {e : Event κ}, e ≠ .acked r → e ∈ Event.acked r :: g.log → e ∈ g.log := fun hne hm =>
    (List.mem_cons.1 hm).resolve_left hne
  refine ⟨h.gapless, fun r' hm => h.epochs r' (mem nofun hm), fun r' hm => h.seqs r' (mem nofun hm),
    fun e hm => h.advanced e (mem nofun hm), fun r' hp' => ?_, fun hn => nomatch hp.symm.trans hn⟩
  have hr := h.pending r' hp'
  exact ⟨hr.epoch, hr.seq, hr.follows.cons, fun q hm => hr.same q (mem nofun hm)⟩

/-- The report was sent and acknowledged, and nothing was sent since. -/
def Acknowledged (r : Report κ) (g : Guarded κ) : Prop :=
  g.pending = some r ∧ lastSent r.epoch g.log = some r ∧ .acked r ∈ g.log

theorem Numbered.finish (h : Numbered g) (ok : Bool) (hack : ok = true → Acknowledged r g) :
    Numbered (g.finish ok) ∧ (g.finish ok).exchanging = false := by
  cases ok with
  | false => exact ⟨h.idle .., rfl⟩
  | true =>
    obtain ⟨hp, hlast, hm⟩ := hack rfl
    have hr := h.pending r hp
    refine ⟨⟨h.gapless, h.epochs, h.seqs, h.advanced, nofun, fun _ => ?_⟩, rfl⟩
    show Settled { g with exchanging := false, pending := none, failures := 0 }
    unfold Settled
    rw [← hr.epoch, hlast]
    exact ⟨hr.seq, hm⟩

theorem Numbered.advance (h : Numbered g) :
    Numbered g.advance ∧ g.advance.exchanging = g.exchanging := by
  unfold Guarded.advance
  split
  · exact ⟨h, rfl⟩
  have mem : ∀ {r : Report κ}, .sent r ∈ Event.advanced (g.epoch + 1) :: g.log →
      r.epoch ≤ g.epoch := fun hm =>
    h.epochs _ ((List.mem_cons.1 hm).resolve_left nofun)
  refine ⟨⟨h.gapless, fun r hm => Nat.le_succ_of_le (mem hm), fun r hm he => ?_, fun e hm => ?_,
    nofun, fun _ => ?_⟩, rfl⟩
  · have := mem hm
    dsimp only at he
    omega
  · rcases List.mem_cons.1 hm with heq | hm
    · exact le_of_eq (Event.advanced.inj heq)
    · exact Nat.le_succ_of_le (h.advanced e hm)
  have hnone : lastSent (g.epoch + 1) (.advanced (g.epoch + 1) :: g.log) = none :=
    lastSent_eq_none fun r hm he => by
      have := mem hm
      omega
  unfold Settled
  rw [hnone]

/-! ## The word -/

variable {w : Nat}

section Gate

/-- The gate has not been cleared since the newest call of `pauseAndDrain` by `t` began. -/
def Unbroken (t : ι) : List (Gate ι) → Prop
  | [] => False
  | .resumed :: _ => False
  | .paused _ :: h => Unbroken t h
  | .pausing u :: h => u = t ∨ Unbroken t h

/-- Some call of `pauseAndDrain` has returned, and the gate has not been cleared since that
call began. -/
def Drained : List (Gate ι) → Prop
  | [] => False
  | .resumed :: _ => False
  | .paused t :: h => Unbroken t h ∨ Drained h
  | .pausing _ :: h => Drained h

/-- A word that is paused stays paused and does not grow. -/
def Shut (w w' : Nat) : Prop := pausedBit ≤ w → pausedBit ≤ w' ∧ w' ≤ w

theorem Shut.refl (w : Nat) : Shut w w := fun hw => ⟨hw, Nat.le_refl w⟩

end Gate

/-! ## Interference -/

structure Inv (s : Stream ι κ) : Prop where
  numbered : Numbered s.guarded
  width : s.admission < 2 ^ 64
  count : s.admission % pausedBit = s.admitted.card
  drained : Drained s.history → s.admission = pausedBit
  exchange : s.guarded.exchanging = true → ∃ t ∈ s.admitted, s.mu = some t
  calm : s.panicked = false

/-- What the other goroutines leave alone. -/
structure Rely (s s' : Stream ι κ) : Prop where
  admitted : t ∈ s'.admitted ↔ t ∈ s.admitted
  holds : s'.mu = some t ↔ s.mu = some t
  guarded : s.mu = some t → s'.guarded = s.guarded
  gate : Unbroken t s'.history → Unbroken t s.history ∧ Shut s.admission s'.admission

def Guar (s s' : Stream ι κ) : Prop := ∀ u, u ≠ t → Rely u s s'

abbrev Safe {α : Type} (t : ι) (P : Stream ι κ → Prop) (p : Prog (Stream ι κ) α)
    (Q : α → Stream ι κ → Prop) : Prop :=
  Sat Inv (Rely t) (Guar t) P p Q

/-- Whether the goroutine is admitted and holds the mutex, and what it then knows. -/
structure Local (a m : Prop) (F : Guarded κ → Prop) (s : Stream ι κ) : Prop where
  admitted : t ∈ s.admitted ↔ a
  holds : s.mu = some t ↔ m
  data : m → F s.guarded

abbrev Away (a : Prop) : Stream ι κ → Prop := Local t a False fun _ => True

abbrev Held (a : Prop) (F : Guarded κ → Prop) : Stream ι κ → Prop := Local t a True F

variable {t : ι} {a m : Prop} {F F' : Guarded κ → Prop} {s : Stream ι κ}

instance Local.firm : Firm Inv (Rely t) (Local t a m F) := ⟨fun _ _ _ _ h hr =>
  ⟨hr.admitted.trans h.admitted, hr.holds.trans h.holds, fun hm =>
    hr.guarded (h.holds.2 hm) ▸ h.data hm⟩⟩

/-- The gate has not been cleared since the goroutine called `pauseAndDrain`, and so it is shut. -/
def Gated (t : ι) (s : Stream ι κ) : Prop := Unbroken t s.history → pausedBit ≤ s.admission

/-- As `Gated`, with no attempt admitted. -/
def Quiet (t : ι) (s : Stream ι κ) : Prop := Unbroken t s.history → s.admission = pausedBit

instance Gated.firm : Firm (Inv (κ := κ)) (Rely t) (Gated t) := ⟨fun _ _ _ _ h hr hu =>
  ((hr.gate hu).2 (h (hr.gate hu).1)).1⟩

instance Quiet.firm : Firm (Inv (κ := κ)) (Rely t) (Quiet t) := ⟨fun s s' _ _ h hr hu => by
  obtain ⟨hu, hshut⟩ := hr.gate hu
  have hs : s.admission = pausedBit := h hu
  obtain ⟨hge, hle⟩ := hshut (Nat.le_of_eq hs.symm)
  exact Nat.le_antisymm (hs ▸ hle) hge⟩

/-- What the others know of the gate, when the history stays. -/
theorem Rely.kept {s' : Stream ι κ} (hh : s'.history = s.history)
    (hw : Shut s.admission s'.admission) :
    Unbroken t s'.history → Unbroken t s.history ∧ Shut s.admission s'.admission := fun hu =>
  ⟨hh ▸ hu, hw⟩

theorem Guar.refl (t : ι) (s : Stream ι κ) : Guar t s s := fun _ _ =>
  ⟨.rfl, .rfl, fun _ => rfl, Rely.kept rfl (.refl _)⟩

/-- An operation that neither attempts nor takes the mutex. -/
abbrev Passes (t : ι) (p : Prog (Stream ι κ) Unit) : Prop :=
  Safe t (Away t False) p fun _ => Away t False

/-- The data under the mutex changes. -/
theorem Local.guard {g' : Guarded κ} (h : Held t a F s) (hi : Inv s) (hn : Numbered g')
    (hx : g'.exchanging = true → s.guarded.exchanging = true ∨ a) (hF : F' g') :
    Inv { s with guarded := g' } ∧ Guar t s { s with guarded := g' } ∧
      Held t a F' { s with guarded := g' } := by
  have hmu : s.mu = some t := h.holds.2 trivial
  refine ⟨{ hi with numbered := hn, exchange := fun hex => ?_ },
    fun u hu => ⟨.rfl, .rfl, fun hmu' => ?_, Rely.kept rfl (.refl _)⟩, h.admitted, h.holds, fun _ =>
      hF⟩
  · rcases hx hex with hex | ha
    · exact hi.exchange hex
    · exact ⟨t, h.admitted.2 ha, hmu⟩
  · exact absurd (Option.some.inj (hmu'.symm.trans hmu)) hu

theorem outcome_sat {P : Stream ι κ → Prop} [Firm Inv (Rely t) P] : Safe t P outcome fun _ => P :=
  (Sat.choose fun s _ => .refl t s).post fun _ _ _ h => h.1

theorem sound : Sound (Inv (ι := ι) (κ := κ)) Rely Guar fun _ _ => False where
  compatible := fun _ u hu _ _ _ _ hg => hg u hu.symm
  env_inv := fun _ _ _ h => h.elim
  env_rely := fun _ _ _ _ h => h.elim

variable [DecidableEq ι]

end Sandboxer.Init.MemReport
