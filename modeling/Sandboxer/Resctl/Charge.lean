import Mathlib.Logic.Unique
import Sandboxer.Resctl.Hooks

/-! # The node charges at least the reservation

The invariant of the session and what each thread may do to it. `sessionMu`
protects the reservation, the request on the wire and the charge behind it;
`syncStartMu` protects the released state and the cancellation. Only the launch
thread changes the reservation. -/
namespace Sandboxer.Resctl.Hooks

open Lib.Threads

variable {κ α : Type} {cfg : Config}

/-- What is known of the session at a point of the code. -/
abbrev Assert (κ : Type) : Type := Session (Option κ) → Prop

/-! ## The invariant -/

/-- What the charge is at least: the reservation, or the baseline of a request
for less that is with the node. -/
def Session.floor (s : Session (Option κ)) : Nat :=
  match s.budget with
  | none => s.reservation
  | some (currentAlloc, _) => min s.reservation currentAlloc

/-- The request matches the reservation it is made with. -/
def Fits (reservation : Nat) : Request → Prop
  | .typeAdmit => reservation = 0
  | .requestBudget currentAlloc requestedDelta => requestedDelta = 0 ∨ reservation ≤ currentAlloc
  | .stateSync applied => applied = reservation
  | _ => True

/-- The mark that a request leaves while it is with the node. -/
def Request.mark : Request → Option (Nat × Nat)
  | .requestBudget currentAlloc requestedDelta => some (currentAlloc, requestedDelta)
  | _ => none

def EventOk : Event → Prop
  | .budgetFailed asked currentAlloc requestedDelta before baseline reservation charge =>
    baseline =
      (if asked ∧ requestedDelta = 0 ∧ currentAlloc < before then currentAlloc else before) ∧
      baseline = reservation ∧ reservation ≤ charge
  | .restored reservation charge => reservation = charge
  | .syncWritten released => released = false

structure Inv (cfg : Config) (s : Session (Option κ)) : Prop where
  floor : s.floor ≤ s.charge
  capacity : s.reservation ≤ cfg.capacity
  free : s.sessionMu = none → s.call = none ∧ s.budget = none
  call : ∀ request response, s.call = some ⟨request, response⟩ →
    s.budget = request.mark ∧ Fits s.reservation request
  gate : s.syncStartMu = none → s.released = true → s.lifetimeDone = true
  log : ∀ e ∈ s.log, EventOk e

/-- What the node may do while a request is with it. -/
def NodeMoves (s s' : Session (Option κ)) : Prop :=
  (s'.call = s.call ∧ s'.charge = s.charge) ∨
  ∃ request response, s.call = some ⟨request, none⟩ ∧ s'.call = some ⟨request, some response⟩ ∧
    Answers s.charge request response s'.charge

/-- What thread `u` can count on while others move. -/
structure Rely (u : Option κ) (s s' : Session (Option κ)) : Prop where
  session : s.sessionMu = some u → s'.sessionMu = some u ∧ s'.budget = s.budget ∧ NodeMoves s s'
  reservation : u = none ∨ s.sessionMu = some u → s'.reservation = s.reservation
  gate : s.syncStartMu = some u →
    s'.syncStartMu = some u ∧ s'.released = s.released ∧ s'.lifetimeDone = s.lifetimeDone
  gateFree : s.syncStartMu ≠ some u → s'.syncStartMu ≠ some u

variable (t : Option κ)

/-- A lock is taken when free and given back by its owner. -/
def LockStep (mu mu' : Option (Option κ)) : Prop :=
  mu' = mu ∨ (mu = none ∧ mu' = some t) ∨ (mu = some t ∧ mu' = none)

/-- What thread `t` does to the session. -/
structure Guar (s s' : Session (Option κ)) : Prop where
  session : LockStep t s.sessionMu s'.sessionMu
  idle : s.sessionMu ≠ some t → s'.budget = s.budget ∧ s'.call = s.call ∧ s'.charge = s.charge ∧
    s'.reservation = s.reservation
  reservation : t ≠ none → s'.reservation = s.reservation
  gate : LockStep t s.syncStartMu s'.syncStartMu
  gateIdle : s.syncStartMu ≠ some t → s'.released = s.released ∧ s'.lifetimeDone = s.lifetimeDone

theorem LockStep.other {t u : Option κ} (htu : t ≠ u) {mu mu' : Option (Option κ)}
    (h : LockStep t mu mu') : mu' = some u ↔ mu = some u := by
  rcases h with rfl | ⟨rfl, rfl⟩ | ⟨rfl, rfl⟩
  · exact .rfl
  · simp [htu]
  · simp [htu]

variable {s s' : Session (Option κ)}

theorem Guar.rely {t u : Option κ} (htu : t ≠ u) (h : Guar t s s') : Rely u s s' := by
  have hother : s.sessionMu = some u → s.sessionMu ≠ some t := fun hu ht =>
    htu (Option.some.inj (ht.symm.trans hu))
  have hgate : s.syncStartMu = some u → s.syncStartMu ≠ some t := fun hu ht =>
    htu (Option.some.inj (ht.symm.trans hu))
  refine ⟨fun hu => ?_, ?_, fun hu => ?_, fun hu hu' => hu ((h.gate.other htu).1 hu')⟩
  · obtain ⟨hb, hc, hch, -⟩ := h.idle (hother hu)
    exact ⟨(h.session.other htu).2 hu, hb, .inl ⟨hc, hch⟩⟩
  · rintro (rfl | hu)
    · exact h.reservation htu
    · exact (h.idle (hother hu)).2.2.2
  · exact ⟨(h.gate.other htu).2 hu, h.gateIdle (hgate hu)⟩

theorem Surroundings.rely (h : Surroundings s s') (u : Option κ) : Rely u s s' := by
  cases h with
  | answer request response charge hc ha =>
    exact ⟨fun hu => ⟨hu, rfl, .inr ⟨request, response, hc, rfl, ha⟩⟩, fun _ => rfl,
      fun hu => ⟨hu, rfl, rfl⟩, fun hu => hu⟩
  | parentDone =>
    exact ⟨fun hu => ⟨hu, rfl, .inl ⟨rfl, rfl⟩⟩, fun _ => rfl, fun hu => ⟨hu, rfl, rfl⟩,
      fun hu => hu⟩

/-- An answer leaves the charge at the floor or above. -/
theorem Answers.floor {request : Request} {response : Response} {charge : Nat}
    (ha : Answers s.charge request response charge) (hf : s.floor ≤ s.charge)
    (hm : s.budget = request.mark) (hfits : Fits s.reservation request) : s.floor ≤ charge := by
  unfold Session.floor at hf ⊢
  cases ha with
  | admitted =>
    rw [hm]
    rw [show s.reservation = 0 from hfits]
    exact Nat.zero_le _
  | budget currentAlloc requestedDelta granted h =>
    rw [hm]
    show min s.reservation currentAlloc ≤ currentAlloc + granted
    omega
  | synced =>
    rw [hm]
    show s.reservation ≤ charge
    exact Nat.le_of_eq (show charge = s.reservation from hfits).symm
  | rejected | settled | heartbeat | released | refused => exact hf

theorem Surroundings.inv (h : Surroundings s s') (hi : Inv cfg s) : Inv cfg s' := by
  cases h with
  | answer request response charge hc ha =>
    obtain ⟨hm, hfits⟩ := hi.call _ _ hc
    refine ⟨ha.floor hi.floor hm hfits, hi.capacity, fun hf => ?_, fun r x hx => ?_, hi.gate,
      hi.log⟩
    · rw [(hi.free hf).1] at hc
      cases hc
    · cases hx
      exact ⟨hm, hfits⟩
  | parentDone => exact { hi with }

/-- The two sessions agree on all that the invariant reads. -/
structure Same (s s' : Session (Option κ)) : Prop where
  charge : s'.charge = s.charge
  call : s'.call = s.call
  budget : s'.budget = s.budget
  reservation : s'.reservation = s.reservation
  released : s'.released = s.released
  lifetimeDone : s'.lifetimeDone = s.lifetimeDone
  sessionMu : s'.sessionMu = s.sessionMu
  syncStartMu : s'.syncStartMu = s.syncStartMu
  log : s'.log = s.log

theorem Same.inv (h : Same s s') (hi : Inv cfg s) : Inv cfg s' := by
  refine ⟨?_, ?_, ?_, ?_, ?_, ?_⟩
  · simpa only [Session.floor, h.budget, h.reservation, h.charge] using hi.floor
  · simpa only [h.reservation] using hi.capacity
  · simpa only [h.sessionMu, h.call, h.budget] using hi.free
  · simpa only [h.call, h.budget, h.reservation] using hi.call
  · simpa only [h.syncStartMu, h.released, h.lifetimeDone] using hi.gate
  · simpa only [h.log] using hi.log

theorem Same.guar (h : Same s s') (t : Option κ) : Guar t s s' :=
  ⟨.inl h.sessionMu, fun _ => ⟨h.budget, h.call, h.charge, h.reservation⟩, fun _ => h.reservation,
    .inl h.syncStartMu, fun _ => ⟨h.released, h.lifetimeDone⟩⟩

theorem Same.rely (h : Same s s') (u : Option κ) : Rely u s s' :=
  ⟨fun hu => ⟨h.sessionMu.trans hu, h.budget, .inl ⟨h.call, h.charge⟩⟩, fun _ => h.reservation,
    fun hu => ⟨h.syncStartMu.trans hu, h.released, h.lifetimeDone⟩, fun hu hu' =>
      hu (h.syncStartMu ▸ hu')⟩

/-! ## Assertions of one thread -/

/-- The code keeps the invariant and its guarantee, from `P` to `Q`. -/
abbrev Meets (cfg : Config) (t : Option κ) (P : Session (Option κ) → Prop) (p : Code (Option κ) α)
    (Q : α → Session (Option κ) → Prop) : Prop :=
  Sat (Inv cfg) (Rely t) (Guar t) P p Q

/-- The code keeps the invariant and its guarantee, and its caller needs no more. -/
abbrev Safe (cfg : Config) (t : Option κ) (P : Assert κ) (p : Code (Option κ) α) : Prop :=
  Meets cfg t P p fun _ _ => True

/-- An assertion that others keep. -/
abbrev Lasting (cfg : Config) (t : Option κ) (A : Assert κ) : Prop := Firm (Inv cfg) (Rely t) A

/-- The launch thread knows the reservation. -/
def Knows (r : Nat) (s : Session (Option κ)) : Prop := t = none → s.reservation = r

/-- The thread has the session to itself, with no request on the wire. -/
structure Held (r : Nat) (P : Option (Nat × Nat) → Nat → Prop) (s : Session (Option κ)) : Prop where
  mu : s.sessionMu = some t
  idle : s.call = none
  reservation : s.reservation = r
  known : P s.budget s.charge

/-- The thread has the session, and no request of its own is with the node. -/
abbrev Idle (r : Nat) : Assert κ := Held t r fun b _ => b = none

/-- The thread has the session and a request on the wire. -/
structure Sent (r : Nat) (request : Request) (s : Session (Option κ)) : Prop where
  mu : s.sessionMu = some t
  reservation : s.reservation = r
  call : ∃ response, s.call = some ⟨request, response⟩ ∧
    ∀ x, response = some x → ∃ charge, Answers charge request x s.charge

/-- While the thread holds the gate, a released session is a cancelled one. -/
def Gate (s : Session (Option κ)) : Prop :=
  s.syncStartMu = some t → s.released = true → s.lifetimeDone = true

section Assertions

variable {t : Option κ} {r : Nat} {P : Option (Nat × Nat) → Nat → Prop} {request : Request}

instance knows_lasting : Lasting cfg t (Knows t r) where
  stable _ _ _ _ hk hr ht := (hr.reservation (.inl ht)).trans (hk ht)

instance held_lasting : Lasting cfg t (Held t r P) where
  stable s s' _ _ hh hr := by
    obtain ⟨hmu, hb, hnode⟩ := hr.session hh.mu
    obtain ⟨hcall, hch⟩ : s'.call = s.call ∧ s'.charge = s.charge := by
      refine hnode.resolve_right fun ⟨request, response, hc, _⟩ => ?_
      rw [hh.idle] at hc
      cases hc
    exact ⟨hmu, hcall.trans hh.idle, (hr.reservation (.inr hh.mu)).trans hh.reservation,
      hb.symm ▸ hch.symm ▸ hh.known⟩

instance sent_lasting : Lasting cfg t (Sent t r request) where
  stable s s' _ _ hh hr := by
    obtain ⟨hmu, -, hnode⟩ := hr.session hh.mu
    refine ⟨hmu, (hr.reservation (.inr hh.mu)).trans hh.reservation, ?_⟩
    obtain ⟨response, hcall, hans⟩ := hh.call
    rcases hnode with ⟨hc, hch⟩ | ⟨request', response', hc, hc', ha⟩
    · exact ⟨response, hc.trans hcall, by rwa [hch]⟩
    · rw [hcall] at hc
      cases hc
      exact ⟨some response', hc', fun x hx => by cases hx; exact ⟨_, ha⟩⟩

instance gate_lasting : Lasting cfg t (Gate t) where
  stable s s' _ _ hg hr hmu hrel := by
    by_cases hheld : s.syncStartMu = some t
    · obtain ⟨-, hrel', hlt⟩ := hr.gate hheld
      exact hlt.trans (hg hheld (hrel'.symm.trans hrel))
    · exact absurd hmu (hr.gateFree hheld)

variable {A : Assert κ} [hA : Lasting cfg t A]

/-- An action on what the invariant does not read. -/
theorem Meets.quiet {step : Section (Session (Option κ)) α}
    (h : ∀ s a s', step s a s' → Same s s') :
    Meets cfg t A (.atomic step) fun _ => A :=
  Sat.atomic fun s a s' hi hs hstep =>
    have hsame := h s a s' hstep
    ⟨hsame.inv hi, hsame.guar t, hA.stable s s' hi (hsame.inv hi) hs (hsame.rely t)⟩

theorem same_refl (s : Session (Option κ)) : Same s s :=
  ⟨rfl, rfl, rfl, rfl, rfl, rfl, rfl, rfl, rfl⟩

theorem Guar.refl (s : Session (Option κ)) (_ : Inv cfg s) : Guar t s s := (same_refl s).guar t

theorem Meets.look (f : Session (Option κ) → α) : Meets cfg t A (.look f) fun _ => A :=
  .watch Guar.refl

theorem Meets.change {f : Session (Option κ) → Session (Option κ)} (h : ∀ s, Same s (f s)) :
    Meets cfg t A (.change f) fun _ => A :=
  Meets.quiet fun s _ s' hs => by
    obtain rfl := hs
    exact h s

/-- A look whose value is used. -/
theorem Meets.look_fact {f : Session (Option κ) → α} {c : α → Prop} (h : ∀ s, A s → c (f s)) :
    Meets cfg t A (.look f) fun v s => A s ∧ c v :=
  Sat.look Guar.refl fun s _ hs => ⟨hs, h s hs⟩

theorem connectContext_spec : Meets cfg t A connectContext fun _ => A :=
  Meets.quiet fun s _ s' hs => by
    obtain rfl := hs
    exact ⟨rfl, rfl, rfl, rfl, rfl, rfl, rfl, rfl, rfl⟩

theorem closeClient_spec : Meets cfg t A closeClient fun _ => A :=
  Meets.change fun _ => ⟨rfl, rfl, rfl, rfl, rfl, rfl, rfl, rfl, rfl⟩

theorem notifyReconnect_spec : Meets cfg t A notifyReconnect fun _ => A :=
  Meets.change fun _ => ⟨rfl, rfl, rfl, rfl, rfl, rfl, rfl, rfl, rfl⟩

theorem setConnected_spec (connected : Bool) : Meets cfg t A (setConnected connected) fun _ => A :=
  Meets.change fun _ => ⟨rfl, rfl, rfl, rfl, rfl, rfl, rfl, rfl, rfl⟩

theorem setToken_spec (token : Bool) : Meets cfg t A (setToken token) fun _ => A :=
  Meets.change fun _ => ⟨rfl, rfl, rfl, rfl, rfl, rfl, rfl, rfl, rfl⟩

theorem markDisconnectedLocked_spec : Meets cfg t A markDisconnectedLocked fun _ => A :=
  (setConnected_spec false).bind fun _ => closeClient_spec.bind fun _ => notifyReconnect_spec

theorem ensureConnected_spec : Meets cfg t A ensureConnected fun _ => A :=
  (Meets.look _).bind fun _ => .ite (fun _ => .skip) fun _ => connectContext_spec

theorem waitRetry_spec : Meets cfg t A waitRetry fun _ => A :=
  Meets.quiet fun s _ s' hs => by
    obtain ⟨rfl, -⟩ := hs
    exact same_refl _

end Assertions

/-! ## Locks -/

section Locks

variable {t : Option κ} {r : Nat} {P : Option (Nat × Nat) → Nat → Prop}

/-- The session is taken with no request on the wire. -/
theorem lockSession_spec : Meets cfg t (Knows t r) (lockSession t) fun _ s =>
    ∃ r', Idle t r' s ∧ (t = none → r' = r) := by
  refine .atomic fun s a s' hi hs hstep => ?_
  obtain ⟨hfree, rfl⟩ := hstep
  obtain ⟨hcall, hbudget⟩ := hi.free hfree
  refine ⟨{ hi with free := nofun }, ?_, s.reservation, ⟨rfl, hcall, rfl, hbudget⟩, hs⟩
  exact ⟨.inr (.inl ⟨hfree, rfl⟩), fun _ => ⟨rfl, rfl, rfl, rfl⟩, fun _ => rfl, .inl rfl,
    fun _ => ⟨rfl, rfl⟩⟩

/-- Code run with the session taken. -/
theorem lockSession_bind {p : Unit → Code (Option κ) α} {Q : α → Assert κ}
    (h : ∀ r', (t = none → r' = r) → Meets cfg t (Idle t r') (p ()) Q) :
    Meets cfg t (Knows t r) (lockSession t >>= p) Q :=
  lockSession_spec.bind fun _ => .exists fun r' => .fact fun hr => h r' hr

/-- The session is given back, with its mark wiped and events logged. -/
theorem Held.leave {log : List Event} (hi : Inv cfg s) (hh : Held t r P s)
    (hle : s.reservation ≤ s.charge) (hlog : ∀ e ∈ log, EventOk e)
    (hs' : Same { s with sessionMu := none, budget := none, log } s') :
    Inv cfg s' ∧ Guar t s s' ∧ True := by
  refine ⟨hs'.inv ⟨hle, hi.capacity, fun _ => ⟨hh.idle, rfl⟩, fun q x hx => ?_, hi.gate, hlog⟩,
    ⟨.inr (.inr ⟨hh.mu, hs'.sessionMu⟩), fun h => absurd hh.mu h, fun _ => hs'.reservation,
      .inl hs'.syncStartMu, fun _ => ⟨hs'.released, hs'.lifetimeDone⟩⟩, trivial⟩
  cases hh.idle.symm.trans hx

theorem Held.floor (hi : Inv cfg s) (hh : Idle t r s) : s.reservation ≤ s.charge := by
  have hfloor := hi.floor
  rwa [Session.floor, hh.known] at hfloor

theorem unlockSession_spec : Meets cfg t (Idle t r) unlockSession fun _ => Knows t r :=
  Sat.change fun s hi hs =>
    have h : Inv cfg { s with sessionMu := none } ∧ Guar t s { s with sessionMu := none } ∧ True :=
      hs.leave hi (hs.floor hi) hi.log ⟨rfl, rfl, hs.known, rfl, rfl, rfl, rfl, rfl, rfl⟩
    ⟨h.1, h.2.1, fun _ => hs.reservation⟩

def Gated (t : Option κ) (s : Session (Option κ)) : Prop := s.syncStartMu = some t ∧ Gate t s

instance gateHeld_lasting : Lasting cfg t fun s => s.syncStartMu = some t :=
  ⟨fun _ _ _ _ hs hr => (hr.gate hs).1⟩

instance gated_lasting : Lasting cfg t (Gated t) := .and

section

variable {A : Assert κ} [Lasting cfg t A]

/-- The gate is taken: a released session is a cancelled one. -/
theorem lockSyncStart_spec (hkeep : ∀ s, A s → A { s with syncStartMu := some t }) :
    Meets cfg t A (lockSyncStart t) fun _ s => A s ∧ Gated t s := by
  refine .atomic fun s a s' hi hs hstep => ?_
  obtain ⟨hfree, rfl⟩ := hstep
  refine ⟨{ hi with gate := nofun }, ?_, hkeep s hs, rfl, fun _ hrel => hi.gate hfree hrel⟩
  exact ⟨.inl rfl, fun _ => ⟨rfl, rfl, rfl, rfl⟩, fun _ => rfl, .inr (.inl ⟨hfree, rfl⟩),
    fun _ => ⟨rfl, rfl⟩⟩

theorem Gate.unlock (hi : Inv cfg s) (hg : Gate t s) (hmu : s.syncStartMu = some t) :
    Inv cfg { s with syncStartMu := none } ∧ Guar t s { s with syncStartMu := none } :=
  ⟨{ hi with gate := fun _ => hg hmu },
    ⟨.inl rfl, fun _ => ⟨rfl, rfl, rfl, rfl⟩, fun _ => rfl, .inr (.inr ⟨hmu, rfl⟩),
      fun _ => ⟨rfl, rfl⟩⟩⟩

theorem unlockSyncStart_spec (hkeep : ∀ s, A s → A { s with syncStartMu := none }) :
    Meets cfg t (fun s => A s ∧ Gated t s) unlockSyncStart fun _ => A :=
  Sat.change fun s hi hs =>
    ⟨(hs.2.2.unlock hi hs.2.1).1, (hs.2.2.unlock hi hs.2.1).2, hkeep s hs.1⟩

/-- The holder of the gate cancels the session. -/
theorem cancel_spec (hkeep : ∀ s, A s → A { s with lifetimeDone := true }) :
    Meets cfg t (fun s => A s ∧ s.syncStartMu = some t)
      (.change fun s => { s with lifetimeDone := true })
      fun _ s => A s ∧ Gated t s := by
  refine Sat.change fun s hi hs => ?_
  exact ⟨{ hi with gate := fun _ _ => rfl },
    ⟨.inl rfl, fun _ => ⟨rfl, rfl, rfl, rfl⟩, fun _ => rfl, .inl rfl, fun h => absurd hs.2 h⟩,
    hkeep s hs.1, hs.2, fun _ _ => rfl⟩

end

end Locks

/-! ## Round trips -/

section Calls

variable {t : Option κ} {r : Nat} {request : Request} {reply : Except RpcError Response}

/-- What a round trip leaves: the mark of a request that was sent, and the charge
of one that was answered. -/
def Replied (request : Request) (reply : Except RpcError Response) (b : Option (Nat × Nat))
    (charge : Nat) : Prop :=
  (b = none ∨ b = request.mark) ∧
    ∀ x, reply = .ok x → b = request.mark ∧ ∃ before, Answers before request x charge

theorem Held.unsent (hs : Idle t r s) (request : Request) (e : RpcError) :
    Held t r (Replied request (.error e)) s :=
  ⟨hs.mu, hs.idle, hs.reservation, .inl hs.known, nofun⟩

theorem Replied.unmarked (hm : request.mark = none) {b : Option (Nat × Nat)} {charge : Nat}
    (h : Replied request reply b charge) : b = none := by
  rcases h.1 with hb | hb
  · exact hb
  · exact hb.trans hm

theorem Held.imp {P Q : Option (Nat × Nat) → Nat → Prop} (h : Held t r P s)
    (hpq : ∀ b c, P b c → Q b c) : Held t r Q s :=
  { h with known := hpq _ _ h.known }

/-- The reply to a request that leaves no mark. -/
theorem held_unmarked (hm : request.mark = none) :
    ∀ s, Inv cfg s → Held t r (Replied request reply) s → Idle t r s :=
  fun _ _ hs => hs.imp fun _ _ h => h.unmarked hm

theorem Held.send (hi : Inv cfg s) (hfits : Fits r request)
    (hh : Idle t r s) (hlog : ∀ e ∈ (s.send request).log, EventOk e) :
    Inv cfg (s.send request) ∧ Guar t s (s.send request) ∧ Sent t r request (s.send request) := by
  have hmark : (s.send request).budget = request.mark := by
    cases request with
    | requestBudget => rfl
    | _ => exact hh.known
  have hle := hh.floor hi
  refine ⟨⟨?_, hi.capacity, fun h => ?_, fun q x hx => ?_, hi.gate, hlog⟩, ?_,
    hh.mu, hh.reservation, none, rfl, nofun⟩
  · show (s.send request).floor ≤ s.charge
    rw [Session.floor, hmark]
    cases request with
    | requestBudget currentAlloc _ => exact Nat.le_trans (Nat.min_le_left ..) hle
    | _ => exact hle
  · cases hh.mu.symm.trans h
  · cases hx
    exact ⟨hmark, hh.reservation ▸ hfits⟩
  · exact ⟨.inl rfl, fun h => absurd hh.mu h, fun _ => rfl, .inl rfl, fun _ => ⟨rfl, rfl⟩⟩

/-- The request is over, answered or not. -/
theorem Sent.endCall (hi : Inv cfg s) (hs : Sent t r request s)
    (hreply : ∀ x, reply = .ok x → ∃ before, Answers before request x s.charge)
    (hs' : Same { s with call := none } s') :
    Inv cfg s' ∧ Guar t s s' ∧ Held t r (Replied request reply) s' := by
  obtain ⟨response, hcall, -⟩ := hs.call
  have hmark := (hi.call _ _ hcall).1
  have hinv : Inv cfg { s with call := none } :=
    { hi with free := fun h => (by cases hs.mu.symm.trans h), call := nofun }
  refine ⟨hs'.inv hinv, ⟨.inl hs'.sessionMu, fun h => absurd hs.mu h, fun _ => hs'.reservation,
    .inl hs'.syncStartMu, fun _ => ⟨hs'.released, hs'.lifetimeDone⟩⟩, ?_⟩
  exact held_lasting.stable _ s' hinv (hs'.inv hinv)
    ⟨hs.mu, rfl, hs.reservation, .inr hmark, fun x hx => ⟨hmark, hreply x hx⟩⟩ (hs'.rely t)

theorem Sent.dropCall (hi : Inv cfg s) (hs : Sent t r request s) (e : RpcError) :
    Inv cfg s.dropCall ∧ Guar t s s.dropCall ∧ Held t r (Replied request (.error e)) s.dropCall :=
  hs.endCall hi (nofun) ⟨rfl, rfl, rfl, rfl, rfl, rfl, rfl, rfl, rfl⟩

theorem failCall_spec (cancelable : Bool) :
    Meets cfg t (Sent t r request) (.atomic (failCall cancelable)) fun reply =>
      Held t r (Replied request reply) := by
  refine .atomic fun s reply s' hi hs hstep => ?_
  obtain ⟨rfl, rfl⟩ := hstep
  exact hs.dropCall hi _

theorem receive_spec (cancelable : Bool) :
    Meets cfg t (Sent t r request) (.atomic (receive cancelable)) fun reply =>
      Held t r (Replied request reply) := by
  refine .atomic fun s reply s' hi hs hstep => ?_
  rcases hstep with ⟨q, x, hcall, rfl, rfl⟩ | ⟨rfl, rfl⟩
  · obtain ⟨response, hc, hans⟩ := hs.call
    cases hc.symm.trans hcall
    refine hs.endCall hi (fun y hy => ?_) (same_refl _)
    split at hy
    · cases hy
    · cases hy
      exact hans _ rfl
  · exact hs.dropCall hi _

/-- A round trip, from what holds before it is sent (`A`) and while it is (`B`). -/
theorem roundTrip_rule {A B : Assert κ} [Lasting cfg t A] [Lasting cfg t B]
    {Q : Except RpcError Response → Assert κ} {cancelable guarded : Bool}
    {onWrite : Code (Option κ) Unit}
    (hfail : ∀ e s, A s → Q (.error e) s) (hsend : ∀ s, Inv cfg s → A s →
      Inv cfg (s.send request) ∧ Guar t s (s.send request) ∧ B (s.send request))
    (hreceive : Meets cfg t B (do onWrite; .atomic (receive cancelable)) Q)
    (hlost : Meets cfg t B (.atomic (failCall cancelable)) Q) :
    Meets cfg t A (roundTrip cancelable guarded request onWrite) Q := by
  have hfail : ∀ e, Meets cfg t A (pure (.error e)) Q := fun e => .pure fun s _ hs => hfail e s hs
  refine (Meets.look _).bind fun _ => .ite (fun _ => hfail _) fun _ => ?_
  refine (Meets.look _).bind fun _ => .ite (fun _ => hfail _) fun _ => ?_
  refine (Meets.look _).bind fun _ => .ite (fun _ => hfail _) fun _ => ?_
  refine (Sat.change (Q := fun _ => B) hsend).bind fun _ => (Sat.choose Guar.refl).bind fun _ => ?_
  exact .fact fun _ => .ite (fun _ => hreceive) fun _ => hlost

theorem roundTrip_spec {cancelable : Bool} (request : Request) (hfits : Fits r request)
    (hsync : ∀ applied, request ≠ .stateSync applied) :
    Meets cfg t (Idle t r) (roundTrip cancelable false request (pure ()))
      fun reply => Held t r (Replied request reply) := by
  refine roundTrip_rule (fun e _ hs => hs.unsent request e) (fun s hi hs => hs.send hi hfits ?_)
    (receive_spec cancelable) (failCall_spec cancelable)
  have hlog : (s.send request).log = s.log := by
    cases request with
    | stateSync applied => exact absurd rfl (hsync applied)
    | _ => rfl
  rw [hlog]
  exact hi.log

theorem tokenCall_spec (request : Request) (hfits : Fits r request)
    (hsync : ∀ applied, request ≠ .stateSync applied) :
    Meets cfg t (Idle t r) (tokenCall request) fun reply => Held t r (Replied request reply) :=
  (Meets.look _).bind fun _ => .ite (fun _ => .pure fun _ _ hs => hs.unsent request _)
    fun _ => roundTrip_spec request hfits hsync

end Calls

/-! ## The launch -/

section Launch

variable {r : Nat} {P : Option (Nat × Nat) → Nat → Prop}

/-- The launch thread gives the reservation a value that the charge covers. -/
theorem Held.setReservation {n : Nat} (hi : Inv cfg s) (hh : Held none r P s)
    (hf : (match s.budget with | none => n | some (currentAlloc, _) => min n currentAlloc) ≤
      s.charge)
    (hcap : n ≤ cfg.capacity) (hs' : Same { s with reservation := n } s') :
    Inv cfg s' ∧ Guar none s s' ∧ Held none n P s' := by
  have hinv : Inv cfg { s with reservation := n } :=
    { hi with floor := hf, capacity := hcap, call :=
      fun q x hx => (by cases hh.idle.symm.trans hx) }
  refine ⟨hs'.inv hinv, ⟨.inl hs'.sessionMu, fun h => absurd hh.mu h, fun h => absurd rfl h,
    .inl hs'.syncStartMu, fun _ => ⟨hs'.released, hs'.lifetimeDone⟩⟩, ?_⟩
  exact held_lasting.stable _ s' hinv (hs'.inv hinv) { hh with reservation := rfl } (hs'.rely none)

/-- The session after an attempt to admit it: as before if it is to be retried. -/
def Admitted (outcome : Option AdmitOutcome) (s : Session (Option κ)) : Prop :=
  ∃ r, Held none r (fun b _ => b = none) s ∧ (outcome = none → r = 0)

theorem admitOnce_spec : Meets cfg none (Idle none 0) (admitOnce cfg) (Admitted (κ := κ)) := by
  have hkeep : ∀ outcome, Meets cfg none (Idle none 0)
      (pure outcome : Code (Option κ) (Option AdmitOutcome)) Admitted := fun outcome =>
    Sat.pure fun s _ hs => ⟨0, hs, fun _ => rfl⟩
  refine ensureConnected_spec.bind fun _ => .ite (fun _ => ?_) fun _ => hkeep none
  refine (roundTrip_spec .typeAdmit rfl (by simp)).bind fun reply => ?_
  match reply with
  | .error .transport =>
    exact (setConnected_spec false).bind fun _ => (hkeep none).pre (held_unmarked rfl)
  | .ok (.admitted granted) =>
    refine (setToken_spec true).bind fun _ => ?_
    refine .ite (fun _ => (hkeep _).pre (held_unmarked rfl)) fun hgrant => ?_
    refine .bind (.change (Q := fun _ => Idle none cfg.initialBudget) fun s hi hs => ?_) fun _ =>
      Sat.pure fun s _ hs => ⟨_, hs, nofun⟩
    obtain ⟨-, before, ha⟩ := hs.known.2 _ rfl
    have hcharge : s.charge = cfg.initialBudget := by
      generalize s.charge = charge at ha
      cases ha
      exact Decidable.not_not.1 hgrant
    have hidle : Idle none 0 s := held_unmarked rfl s hi hs
    refine hidle.setReservation hi ?_ cfg.initial_le ⟨rfl, rfl, rfl, rfl, rfl, rfl, rfl, rfl, rfl⟩
    rw [hidle.known]
    exact Nat.le_of_eq hcharge.symm
  | .error .canceled | .error .notConnected | .error .controller | .error .noToken
  | .ok .rejected | .ok .ack | .ok (.heartbeat _) | .ok (.budget _ _) | .ok
    (.synced _) | .ok .error =>
    exact (hkeep _).pre (held_unmarked rfl)

theorem admitLoop_spec (fuel : Nat) :
    Meets cfg none (Idle none 0) (admitLoop cfg fuel) fun _ s => ∃ r, Idle (κ := κ) none r s := by
  induction fuel with
  | zero => exact .halt
  | succ fuel ih =>
    refine (Meets.look _).bind fun _ => .ite (fun _ => .pure fun s _ hs => ⟨0, hs⟩) fun _ => ?_
    refine admitOnce_spec.bind fun outcome => ?_
    cases outcome with
    | some outcome => exact .pure fun s _ hs => ⟨_, hs.choose_spec.1⟩
    | none =>
      have hpre : ∀ s, Inv cfg s → Admitted none s → Idle (κ := κ) none 0 s := by
        intro s _ hs
        obtain ⟨r, hh, hr⟩ := hs
        exact hr rfl ▸ hh
      refine (waitRetry_spec.bind fun _ => ?_).pre hpre
      exact .ite (fun _ => ih) fun _ => .pure fun s _ hs => ⟨0, hs⟩

theorem hooksAdmit_spec (fuel : Nat) :
    Safe cfg none (Knows none 0) (hooksAdmit cfg (none : Option κ) fuel) := by
  refine .ite (fun _ => .stop) fun _ => lockSession_bind fun r hr => ?_
  rw [hr rfl]
  refine (admitLoop_spec fuel).bind fun _ => .exists fun r => ?_
  exact unlockSession_spec.bind fun _ => .stop

/-! ## Requests for a Budget -/

variable {currentAlloc requestedDelta : Nat}

def Marked (currentAlloc requestedDelta : Nat) (b : Option (Nat × Nat)) : Prop :=
  b = none ∨ b = some (currentAlloc, requestedDelta)

/-- The error return: the baseline is the reservation, and the charge covers it. -/
theorem failBudget_spec {asked : Bool} {before baseline : Nat} (hbase : baseline =
      if asked ∧ requestedDelta = 0 ∧ currentAlloc < before then currentAlloc else before) :
    Safe cfg none (Held none baseline fun b _ =>
        b = none ∨ b = some (currentAlloc, requestedDelta) ∧ baseline ≤ currentAlloc)
      (failBudget asked currentAlloc requestedDelta before baseline : Code (Option κ)
        BudgetOutcome) := by
  refine .bind (M := fun _ _ => True) (.change fun s hi hs => ?_)
    fun _ => .stop
  have hle : s.reservation ≤ s.charge := by
    have hfloor := hi.floor
    unfold Session.floor at hfloor
    rcases hs.known with hb | ⟨hb, hcur⟩
    · rwa [hb] at hfloor
    rw [hb] at hfloor
    have := hs.reservation
    dsimp only at hfloor
    omega
  refine hs.leave hi hle (fun e he => ?_) (same_refl _)
  rcases List.mem_cons.1 he with rfl | he
  · exact ⟨hbase, hs.reservation.symm, hle⟩
  · exact hi.log e he

/-- The reservation after a request without an answer: a shrink is adopted. -/
theorem adoptBaseline_spec (hfits : requestedDelta = 0 ∨ r ≤ currentAlloc) :
    Meets cfg none (Held none r fun b _ => Marked currentAlloc requestedDelta b)
      (adoptBaseline currentAlloc requestedDelta r : Code (Option κ) Nat)
      fun baseline s => Held none baseline (fun b _ =>
          b = none ∨ b = some (currentAlloc, requestedDelta) ∧ baseline ≤ currentAlloc) s ∧
        baseline = if requestedDelta = 0 ∧ currentAlloc < r then currentAlloc else r := by
  refine .ite (fun hadopt => ?_) fun hkeep => ?_
  · refine .bind (.change (Q := fun _ => Held none currentAlloc fun b _ =>
      Marked currentAlloc requestedDelta b) fun s hi hs => ?_) fun _ =>
      Sat.pure fun s _ hs => ⟨hs.imp fun b _ hb => ?_, (if_pos hadopt).symm⟩
    · have hfloor := hi.floor
      have hcap := hi.capacity
      have hr := hs.reservation
      unfold Session.floor at hfloor
      refine hs.setReservation hi ?_ (by omega) (same_refl _)
      rcases hs.known with hb | hb
      all_goals
        rw [hb] at hfloor ⊢
        dsimp only at hfloor ⊢
        omega
    · exact hb.imp_right fun hb => ⟨hb, Nat.le_refl _⟩
  · exact .pure fun s _ hs => ⟨hs.imp fun b _ hb => hb.imp_right fun hb => ⟨hb, by omega⟩,
      (if_neg hkeep).symm⟩

/-- A failed request: the baseline is adopted and the session given up. -/
theorem disconnect_spec (hfits : requestedDelta = 0 ∨ r ≤ currentAlloc) :
    Safe cfg none (Held none r fun b _ => Marked currentAlloc requestedDelta b)
      (do
        let baseline ← adoptBaseline currentAlloc requestedDelta r
        markDisconnectedLocked
        failBudget true currentAlloc requestedDelta r baseline : Code (Option κ) BudgetOutcome) :=
  (adoptBaseline_spec hfits).bind fun baseline => .fact fun hbase =>
    markDisconnectedLocked_spec.bind fun _ => failBudget_spec (by simpa using hbase)

/-- The accepted answer of the node is the new reservation. -/
theorem commitBudget_spec {granted n : Nat} (hn : n = currentAlloc + granted)
    (hcap : n ≤ cfg.capacity) :
    Safe cfg none
    (Held none r (Replied (.requestBudget currentAlloc requestedDelta) (.ok (.budget granted n))))
      (do
        .change fun s => { s with reservation := n }
        .change fun s => { s with sessionMu := none, budget := none }
        return .ok granted n : Code (Option κ) BudgetOutcome) := by
  have hcharge : ∀ {b charge}, Replied (.requestBudget currentAlloc requestedDelta)
      (.ok (.budget granted n)) b charge → charge = n := by
    intro b charge h
    obtain ⟨-, before, ha⟩ := h.2 _ rfl
    cases ha
    rfl
  refine .bind (.change (Q := fun _ => Held none n _) fun s hi hs =>
    hs.setReservation hi ?_ hcap (same_refl _)) fun _ => ?_
  · rw [(hs.known.2 _ rfl).1, hcharge hs.known]
    exact Nat.min_le_left ..
  refine .bind (M := fun _ _ => True) (.change fun s hi hs => ?_)
    fun _ => .stop
  have hle := Nat.le_of_eq (hs.reservation.trans (hcharge hs.known).symm)
  exact hs.leave hi hle hi.log (same_refl _)

theorem requestBudget_spec (hfits : requestedDelta = 0 ∨ r ≤ currentAlloc) :
    Safe cfg none (Knows none r)
    (requestBudget cfg (none : Option κ) currentAlloc requestedDelta) := by
  refine .ite (fun _ => .stop) fun _ => lockSession_bind fun r' hr => ?_
  obtain rfl := hr rfl
  refine (Meets.look_fact (c := fun v => v.2 = r') fun s hs => hs.reservation).bind fun v =>
    Sat.fact fun hv => ?_
  obtain ⟨connected, before⟩ := v
  obtain rfl : before = r' := hv
  refine .ite (fun _ => ?_) fun _ => ?_
  · refine notifyReconnect_spec.bind fun _ => (failBudget_spec (by simp)).pre fun s _ hs => ?_
    exact hs.imp fun b _ hb => .inl hb
  refine (tokenCall_spec (.requestBudget currentAlloc requestedDelta) hfits (by simp)).bind
    fun reply => ?_
  have hfail : Safe cfg none (Held none before
      (Replied (.requestBudget currentAlloc requestedDelta) reply)) _ :=
    (disconnect_spec (κ := κ) hfits).pre fun s _ hs => hs.imp fun b _ hb => hb.1
  match reply with
  | .ok (.budget granted n) =>
    refine .ite (fun _ => hfail) fun hok => ?_
    simp only [not_or, Nat.not_lt, Decidable.not_not] at hok
    exact commitBudget_spec hok.2.2.1 hok.2.2.2
  | .error _ | .ok (.admitted _) | .ok .rejected | .ok .ack | .ok (.heartbeat _) | .ok (.synced _)
  | .ok .error => exact hfail

theorem budgetCalls_spec (asks : List Ask) :
    Safe cfg none (fun _ => True) (budgetCalls cfg (none : Option κ) asks) := by
  induction asks with
  | nil => exact .halt
  | cons ask asks ih =>
    cases ask with
    | grow delta =>
      have hlook : Meets cfg none (fun _ => True) (.look Session.reservation)
          fun r => Knows (none : Option κ) r :=
        Sat.look Guar.refl fun s _ _ _ => rfl
      exact hlook.bind fun r => (requestBudget_spec (.inr (Nat.le_refl r))).bind fun _ => ih
    | shrink budget =>
      have hknow : ∀ r, Safe cfg none (Knows (none : Option κ) r)
          (budgetCalls cfg none (.shrink budget :: asks)) := fun r =>
        (requestBudget_spec (.inl rfl)).bind fun _ => ih
      exact (Sat.exists hknow).pre fun s _ _ => ⟨s.reservation, fun _ => rfl⟩

theorem launch_spec (fuel : Nat) (asks : List Ask) :
    Safe cfg none (Knows none 0) (launch cfg (none : Option κ) fuel asks) := by
  refine (hooksAdmit_spec fuel).bind fun outcome => ?_
  cases outcome with
  | ok _ => exact budgetCalls_spec asks
  | failed => exact .pure fun _ _ _ => trivial

end Launch

/-! ## The other threads -/

section Others

variable {k : κ} {r : Nat}

/-- Another thread takes the session, whatever the reservation is. -/
theorem lockSession_other {p : Unit → Code (Option κ) α} {Q : α → Assert κ}
    (h : ∀ r, Meets cfg (some k) (Idle (some k) r) (p ()) Q) :
    Meets cfg (some k) (fun _ => True) (lockSession (some k) >>= p) Q :=
  (lockSession_bind (r := 0) fun r _ => h r).pre fun _ _ _ hk => by cases hk

theorem unlockSession_other : Safe cfg (some k) (Idle (some k) r) unlockSession :=
  unlockSession_spec.post fun _ _ _ _ => trivial

theorem giveUp_spec :
    Safe cfg (some k) (Idle (some k) r) (do markDisconnectedLocked; unlockSession) :=
  markDisconnectedLocked_spec.bind fun _ => unlockSession_other

theorem wakeUp_spec : Safe cfg (some k) (Idle (some k) r) (do notifyReconnect; unlockSession) :=
  notifyReconnect_spec.bind fun _ => unlockSession_other

theorem settled_spec : Safe cfg (some k) (fun _ => True) (settled cfg (some k)) := by
  refine .bind (Meets.change fun _ => ⟨rfl, rfl, rfl, rfl, rfl, rfl, rfl, rfl, rfl⟩) fun _ =>
    Sat.ite (fun _ => .pure fun _ _ _ => trivial) fun _ => lockSession_other fun r => ?_
  refine (Meets.look _).bind fun _ => .ite (fun _ => wakeUp_spec) fun _ => ?_
  refine (tokenCall_spec .settled trivial (by simp)).bind fun reply => .pre ?_ (held_unmarked rfl)
  split
  · exact unlockSession_other
  · exact giveUp_spec

theorem heartbeatOnce_spec : Safe cfg (some k) (fun _ => True) (heartbeatOnce (some k)) := by
  refine lockSession_other fun r => (Meets.look _).bind fun v => ?_
  obtain ⟨idle, connected, reservation⟩ := v
  refine .ite (fun _ => unlockSession_other) fun _ => .ite (fun _ => wakeUp_spec) fun _ => ?_
  refine (tokenCall_spec .heartbeat trivial (by simp)).bind fun reply => .pre ?_ (held_unmarked rfl)
  split
  · exact .ite (fun _ => giveUp_spec) fun _ => unlockSession_other
  · exact giveUp_spec

theorem heartbeats_spec (fuel : Nat) :
    Safe cfg (some k) (fun _ => True) (heartbeats (some k) fuel) := by
  induction fuel with
  | zero => exact .halt
  | succ fuel ih => exact heartbeatOnce_spec.bind fun _ => ih

theorem releaseContext_spec (attempts : Nat) :
    Meets cfg (some k) (Idle (some k) r) (releaseContext attempts) fun _ => Idle (some k) r := by
  induction attempts with
  | zero => exact .skip
  | succ attempts ih =>
    refine ensureConnected_spec.bind fun _ => .ite (fun _ => ?_) fun _ =>
      Sat.skip
    refine (roundTrip_spec .release trivial (by simp)).bind fun reply => .pre ?_ (held_unmarked rfl)
    split
    · exact ih
    · exact setToken_spec false
    · exact .skip

/-! ## The gate -/

variable {t : Option κ} {reply : Except RpcError Response}

/-- The thread holds the gate of a session that is neither released nor cancelled. -/
def Open (t : Option κ) (s : Session (Option κ)) : Prop :=
  s.syncStartMu = some t ∧ s.released = false ∧ s.lifetimeDone = false

instance open_lasting : Lasting cfg t (Open t) where
  stable _ _ _ _ hs hr :=
    have hg := hr.gate hs.1
    ⟨hg.1, hg.2.1.trans hs.2.1, hg.2.2.trans hs.2.2⟩

theorem Open.gate (h : Open t s) : Gate t s := fun _ hrel => by
  rw [h.2.1] at hrel
  cases hrel

theorem release_spec : Safe cfg (some k) (fun _ => True) (release cfg (some k)) := by
  have hunlock : Safe cfg (some k) (fun s => True ∧ Gated (some k) s) unlockSyncStart :=
    unlockSyncStart_spec fun _ _ => trivial
  refine (lockSyncStart_spec fun _ _ => trivial).bind fun _ =>
    (Meets.look _).bind fun _ => .ite (fun _ => hunlock) fun _ => ?_
  have hrelease : Meets cfg (some k) (fun s => True ∧ Gated (some k) s)
      (.change fun s => { s with released := true }) fun _ s => True ∧
        s.syncStartMu = some (some k) := by
    refine Sat.change fun s hi hs => ?_
    have hmu := hs.2.1
    exact ⟨{ hi with gate := fun h => (by cases hmu.symm.trans h) },
      ⟨.inl rfl, fun _ => ⟨rfl, rfl, rfl, rfl⟩, fun _ => rfl, .inl rfl, fun h => absurd hmu h⟩,
        trivial, hmu⟩
  refine hrelease.bind fun _ => (cancel_spec fun _ _ => trivial).bind fun _ =>
    hunlock.bind fun _ => ?_
  refine .ite (fun _ => lockSession_other fun r => ?_) fun _ => .stop
  have hclose : Safe cfg (some k) (Idle (some k) r) (do closeClient; unlockSession) :=
    closeClient_spec.bind fun _ => unlockSession_other
  exact (Meets.look _).bind fun _ => .ite (fun _ => (releaseContext_spec 2).bind fun _ => hclose)
    fun _ => hclose

theorem parentCanceled_spec : Safe cfg (some k) (fun _ => True) (parentCanceled (some k)) := by
  have hwait : Safe cfg (some k) (fun _ => True)
      (.atomic fun s (_ : Unit) s' => s.parentDone = true ∧ s' = s) :=
    Meets.quiet fun s _ s' h => by
      obtain ⟨-, rfl⟩ := h
      exact same_refl _
  refine hwait.bind fun _ => (lockSyncStart_spec fun _ _ => trivial).bind fun _ => ?_
  refine .bind ((cancel_spec fun _ _ => trivial).pre
    fun s _ hs => ⟨trivial, hs.2.1⟩) fun _ => ?_
  exact unlockSyncStart_spec fun _ _ => trivial

/-! ## The reconnect loop -/

/-- The session with a StateSync that was answered, failed or not sent. -/
abbrev Synced (t : Option κ) (r : Nat) (reply : Except RpcError Response) (s : Session (Option κ)) :
    Prop :=
  Held t r (Replied (.stateSync r) reply) s ∧ Gate t s

/-- A StateSync is written while the gate is held, by a session that was not released. -/
theorem syncTrip_spec : Meets cfg (some k) (fun s => Idle (some k) r s ∧ Open (some k) s)
      (roundTrip false true (.stateSync r) unlockSyncStart) (Synced (some k) r) := by
  refine roundTrip_rule (B := fun s => Sent (some k) r (.stateSync r) s ∧ Open (some k) s)
    (fun e s hs => ⟨hs.1.unsent _ e, hs.2.gate⟩) (fun s hi hs => ?_) ?_ ?_
  · have hlog : ∀ e ∈ (s.send (.stateSync r)).log, EventOk e := fun e he => by
      rcases List.mem_cons.1 he with rfl | he
      · exact hs.2.2.1
      · exact hi.log e he
    obtain ⟨hinv, hguar, hpost⟩ := hs.1.send hi (show Fits r (.stateSync r) from rfl) hlog
    exact ⟨hinv, hguar, hpost, hs.2⟩
  · have hunlock : Meets cfg (some k) (fun s => Sent (some k) r (.stateSync r) s ∧ Open (some k) s)
        unlockSyncStart fun _ s => Sent (some k) r (.stateSync r) s ∧ Gate (some k) s := by
      refine .pre (unlockSyncStart_spec fun s hs => ⟨⟨hs.1.mu, hs.1.reservation, hs.1.call⟩, nofun⟩)
        fun s _ hs => ?_
      exact ⟨⟨hs.1, hs.2.gate⟩, hs.2.1, hs.2.gate⟩
    refine hunlock.bind fun _ => (receive_spec false).atomic_frame fun s reply s' hstep hg => ?_
    rcases hstep with ⟨_, _, _, rfl, _⟩ | ⟨rfl, _⟩
    · exact hg
    · exact hg
  · refine ((failCall_spec false).atomic_frame fun s reply s' hstep hg => ?_).pre fun s _ hs =>
      ⟨hs.1, hs.2.gate⟩
    obtain ⟨rfl, -⟩ := hstep
    exact hg

theorem cancelIfParentDone_spec : Meets cfg (some k) (fun s => Idle (some k) r s ∧ Gated (some k) s)
      cancelIfParentDone fun _ s => Idle (some k) r s ∧ Gated (some k) s := by
  refine (Meets.look _).bind fun _ => .ite (fun _ => ?_) fun _ => .skip
  exact (cancel_spec fun s hs => { hs with }).pre
    fun s _ hs => ⟨hs.1, hs.2.1⟩

theorem leaveSyncStart_spec [DecidableEq κ] :
    Meets cfg (some k) (Synced (some k) r reply) (leaveSyncStart (some k))
      fun _ => Held (some k) r (Replied (.stateSync r) reply) := by
  refine Sat.change fun s hi hs => ?_
  by_cases hmu : s.syncStartMu = some (some k)
  · rw [if_pos hmu]
    exact ⟨(hs.2.unlock hi hmu).1, (hs.2.unlock hi hmu).2,
      ⟨hs.1.mu, hs.1.idle, hs.1.reservation, hs.1.known⟩⟩
  · rw [if_neg hmu]
    exact ⟨hi, (same_refl s).guar _, hs.1⟩

/-- What an attempt to restore the session leaves: a failed one still has it. -/
abbrev Attempted (t : Option κ) (r : Nat) (attempt : Attempt) (s : Session (Option κ)) : Prop :=
  attempt = .failed → Held t r (fun b _ => b = none) s

/-- The node has the reservation: the session is restored. -/
theorem restore_spec (hreply : reply = .ok (.synced r)) :
    Meets cfg (some k) (Held (some k) r (Replied (.stateSync r) reply))
      (do
        .change fun s => { s with
          connected := true, sessionMu := none
          log := .restored s.reservation s.charge :: s.log }
        return .restored)
      (Attempted (some k) r) := by
  refine .bind (M := fun _ _ => True) (.change fun s hi hs => ?_) fun _ => .pure fun s _ _ h => by
    cases h
  have hcharge : s.reservation = s.charge := by
    obtain ⟨-, before, ha⟩ := hs.known.2 _ hreply
    rw [hs.reservation]
    generalize s.charge = charge at ha
    cases ha
    rfl
  refine hs.leave hi (Nat.le_of_eq hcharge) (fun e he => ?_)
    ⟨rfl, rfl, hs.known.unmarked rfl, rfl, rfl, rfl, rfl, rfl, rfl⟩
  rcases List.mem_cons.1 he with rfl | he
  · exact hcharge
  · exact hi.log e he

theorem stateSyncLocked_spec [DecidableEq κ] :
    Meets cfg (some k) (Idle (some k) r) (stateSyncLocked (some k) r) (Attempted (some k) r) := by
  refine (lockSyncStart_spec fun s hs => { hs with }).bind
    fun _ => cancelIfParentDone_spec.bind fun _ => ?_
  have hlook : Meets cfg (some k) (fun s => Idle (some k) r s ∧ Gated (some k) s)
      (.look Session.lifetimeDone)
      fun v s => (Idle (some k) r s ∧ Gated (some k) s) ∧ (v = false → Open (some k) s) := by
    refine Sat.look Guar.refl fun s hi hs => ⟨hs, fun hv => ?_⟩
    refine ⟨hs.2.1, Bool.eq_false_iff.2 fun hrel => ?_, hv⟩
    rw [hs.2.2 hs.2.1 hrel] at hv
    cases hv
  refine hlook.bind fun done => .ite (fun _ => ?_) fun hdone => ?_
  · refine .pre ?_ fun s _ hs => hs.1
    refine (unlockSyncStart_spec fun s hs => { hs with }).bind
      fun _ => unlockSession_other.bind fun _ => .pure fun s _ _ h => by cases h
  refine (syncTrip_spec.pre fun s _ hs => ⟨hs.1.1, hs.2 (Bool.eq_false_iff.2 hdone)⟩).bind
    fun reply => leaveSyncStart_spec.bind fun _ => ?_
  have hfail : Meets cfg (some k) (Held (some k) r (Replied (.stateSync r) reply))
      (pure .failed) (Attempted (some k) r) :=
    Sat.pure fun s hi hs _ => held_unmarked rfl s hi hs
  split
  next n =>
    refine (setToken_spec true).bind fun _ => .ite (fun _ => hfail) fun hn => restore_spec ?_
    rw [Decidable.not_not.1 hn]
  · exact hfail

theorem reconnectOnce_spec [DecidableEq κ] :
    Safe cfg (some k) (fun _ => True) (reconnectOnce (some k)) := by
  refine (Meets.look _).bind fun v => ?_
  refine .ite (fun _ => .stop) fun _ => .ite
    (fun _ => .stop) fun _ => lockSession_other fun r => ?_
  refine (Meets.look_fact (c := fun v => v.2 = r) fun s hs => hs.reservation).bind fun v =>
    Sat.fact fun hv => ?_
  obtain ⟨idle, reservation⟩ := v
  obtain rfl : reservation = r := hv
  refine .ite (fun _ => unlockSession_other.bind fun _ => .stop) fun _ => ?_
  have hrest : ∀ attempt, Safe cfg (some k) (Attempted (some k) reservation attempt)
      (if attempt = .failed then do
        closeClient
        setConnected false
        unlockSession
        if ← waitRetry then return .failed else return .stopped
      else return attempt) := fun attempt =>
    Sat.ite (fun hfail => (closeClient_spec.bind fun _ => (setConnected_spec false).bind
      fun _ => unlockSession_other.bind fun _ => waitRetry_spec.bind fun _ =>
        Sat.ite (fun _ => .stop) fun _ => .stop).pre
          fun s _ hs => hs hfail) fun _ => .stop
  refine connectContext_spec.bind fun _ => .ite (fun _ => stateSyncLocked_spec.bind hrest)
    fun _ => (hrest .failed).pre fun s _ hs _ => hs

theorem reconnectLoop_spec [DecidableEq κ] (fuel : Nat) (waiting : Bool) :
    Safe cfg (some k) (fun _ => True) (reconnectLoop (some k) fuel waiting) := by
  induction fuel generalizing waiting with
  | zero => exact .halt
  | succ fuel ih =>
    cases waiting with
    | true =>
      refine (Meets.quiet fun s woken s' h => ?_).bind fun woken =>
        Sat.ite (fun _ => ih false) fun _ => .stop
      rcases h with ⟨-, -, rfl⟩ | ⟨-, -, rfl⟩
      · exact same_refl _
      · exact ⟨rfl, rfl, rfl, rfl, rfl, rfl, rfl, rfl, rfl⟩
    | false =>
      refine reconnectOnce_spec.bind fun attempt => ?_
      cases attempt with
      | restored => exact ih true
      | failed => exact ih false
      | stopped => exact .stop

end Others

/-! ## All runs -/

section Runs

theorem session_sound : Sound (Inv (κ := κ) cfg) Rely Guar Surroundings where
  compatible _ _ htu _ _ _ _ hg := hg.rely htu
  env_inv _ _ hi h := h.inv hi
  env_rely _ _ _ _ h u := h.rely u

theorem role_spec [DecidableEq κ] (role : Role) (k : κ) :
    Safe cfg (some k) (fun _ => True) (role.code cfg (some k)) := by
  cases role with
  | reconnect fuel => exact reconnectLoop_spec fuel true
  | heartbeat fuel => exact heartbeats_spec fuel
  | settled => exact settled_spec
  | release => exact release_spec
  | parentCanceled => exact parentCanceled_spec

theorem system_covered [DecidableEq κ] (fuel : Nat) (asks : List Ask) (role : κ → Role)
    (charge : Nat) (t : Option κ) :
    Covered (Inv cfg) (Rely t) (Guar t) (Session.new charge) (system cfg fuel asks role t) := by
  cases t with
  | none => exact ⟨Knows none 0, fun _ => rfl, knows_lasting.stable, launch_spec fuel asks⟩
  | some k => exact ⟨fun _ => True, trivial, (Firm.const True).stable, role_spec (role k) k⟩

theorem new_inv (cfg : Config) (charge : Nat) : Inv (κ := κ) cfg (Session.new charge) where
  floor := Nat.zero_le _
  capacity := Nat.zero_le _
  free _ := ⟨rfl, rfl⟩
  call _ _ h := by cases h
  gate _ h := by cases h
  log _ h := by cases h

/-- In every run of the session, with any number of heartbeat, reconnect, release
and cancellation threads beside the launch: without a request for a Budget
outstanding the node charges at least the reservation, with a shrink to `B`
outstanding at least `B`; the reservation is within Capacity; and every error
return, restored session and written StateSync was as it should be. -/
theorem charge_dominates_reservation [DecidableEq κ] (cfg : Config) (fuel : Nat) (asks : List Ask)
    (role : κ → Role) (charge : Nat) {c : Pool (Session (Option κ)) (Option κ)}
    (h : Pool.Reach Surroundings ⟨Session.new charge, system cfg fuel asks role⟩ c) :
    (c.shared.budget = none → c.shared.reservation ≤ c.shared.charge) ∧
    (∀ B, c.shared.budget = some (B, 0) → B ≤ c.shared.reservation → B ≤ c.shared.charge) ∧
    c.shared.reservation ≤ cfg.capacity ∧ ∀ e ∈ c.shared.log, EventOk e := by
  have hi := (h.covered session_sound (new_inv cfg charge) (system_covered fuel asks role charge)).1
  have hfloor := hi.floor
  refine ⟨fun hb => ?_, fun B hb hB => ?_, hi.capacity, hi.log⟩
  · rwa [Session.floor, hb] at hfloor
  · rw [Session.floor, hb] at hfloor
    exact Nat.le_trans (Nat.le_min.2 ⟨hB, Nat.le_refl B⟩) hfloor

/-- In every run of the session a request is with the node only while the session is locked, and
it matches the reservation. -/
theorem requests_fit_reservation [DecidableEq κ] (cfg : Config) (fuel : Nat) (asks : List Ask)
    (role : κ → Role) (charge : Nat) {c : Pool (Session (Option κ)) (Option κ)}
    (h : Pool.Reach Surroundings ⟨Session.new charge, system cfg fuel asks role⟩ c) :
    (c.shared.sessionMu = none → c.shared.call = none) ∧
    ∀ request response, c.shared.call = some ⟨request, response⟩ →
      Fits c.shared.reservation request := by
  have hi := (h.covered session_sound (new_inv cfg charge) (system_covered fuel asks role charge)).1
  exact ⟨fun hmu => (hi.free hmu).1,
    fun request response hcall => (hi.call request response hcall).2⟩

def gibSession : Config := ⟨true, 1073741824, 1073741824, Nat.le_refl _⟩

/-- The launch alone: it is admitted, and the answer to a shrink to 512 MiB is lost. -/
theorem lostShrink_reached : ∃ sent c : Pool (Session (Option Empty)) (Option Empty),
    (Pool.Reach Surroundings
      ⟨Session.new 0, system gibSession 1 [.shrink 536870912] Empty.elim⟩ sent ∧
      sent.shared.call = some ⟨.requestBudget 536870912 0, none⟩) ∧
    Pool.Reach Surroundings ⟨Session.new 0, system gibSession 1 [.shrink 536870912] Empty.elim⟩ c ∧
      c.shared.log = [.budgetFailed true 536870912 0 1073741824 536870912 536870912 536870912] := by
  have hcode : system gibSession 1 [.shrink 536870912] Empty.elim =
      fun _ : Option Empty => launch gibSession none 1 [.shrink 536870912] := by
    funext t
    cases t with
    | none => rfl
    | some k => exact k.elim
  rw [hcode]
  let start : Pool (Session (Option Empty)) (Option Empty) :=
    ⟨.new 0, fun _ => launch gibSession none 1 [.shrink 536870912]⟩
  have h : Pool.Reach Surroundings start
      ⟨.new 0, fun _ => launch gibSession none 1 [.shrink 536870912]⟩ := .refl
  -- the session is taken, and a connection made
  have h := h.act none (b := ()) ⟨rfl, rfl⟩
  have h := h.act none ⟨rfl, rfl⟩
  have h := h.act none ⟨rfl, rfl⟩
  have h := h.act none (b := true) rfl
  -- the admission
  have h := h.act none ⟨rfl, rfl⟩
  have h := h.act none ⟨rfl, rfl⟩
  have h := h.act none ⟨rfl, rfl⟩
  have h := h.act none (b := ()) rfl
  have h :=
    h.step (.env
    (.answer _ .typeAdmit (.admitted 1073741824) 1073741824 rfl (.admitted 0 1073741824)))
  have h := h.act none (b := true) ⟨trivial, rfl⟩
  have h := h.act none (.inl ⟨_, _, rfl, rfl, rfl⟩)
  have h := h.act none (b := ()) rfl
  have h := h.act none (b := ()) rfl
  have h := h.act none (b := ()) rfl
  -- the shrink is charged, but its answer never arrives
  have h := h.act none (b := ()) ⟨rfl, rfl⟩
  have h := h.act none ⟨rfl, rfl⟩
  have h := h.act none ⟨rfl, rfl⟩
  have h := h.act none ⟨rfl, rfl⟩
  have h := h.act none ⟨rfl, rfl⟩
  have h := h.act none ⟨rfl, rfl⟩
  have h := h.act none (b := ()) rfl
  have hsent := h
  have h := h.step (.env (.answer _ _ _ _ rfl (.budget 1073741824 536870912 0 0 (Nat.le_refl _))))
  have h := h.act none (b := true) ⟨trivial, rfl⟩
  have h := h.act none (.inr ⟨rfl, rfl⟩)
  -- it is adopted all the same
  have h := h.act none (b := ()) rfl
  have h := h.act none (b := ()) rfl
  have h := h.act none (b := ()) rfl
  have h := h.act none (b := ()) rfl
  exact ⟨_, _, ⟨hsent, rfl⟩, h.act none (b := ()) rfl, rfl⟩

theorem charge_dominates_reservation_lostShrink :
      ∃ c : Pool (Session (Option Empty)) (Option Empty), c.shared.log =
        [.budgetFailed true 536870912 0 1073741824 536870912 536870912 536870912] ∧
      (c.shared.budget = none → c.shared.reservation ≤ c.shared.charge) ∧
      (∀ B, c.shared.budget = some (B, 0) → B ≤ c.shared.reservation → B ≤ c.shared.charge) ∧
      c.shared.reservation ≤ gibSession.capacity ∧
      ∀ e ∈ c.shared.log, EventOk e := by
  obtain ⟨-, c, -, h, hlog⟩ := lostShrink_reached
  exact ⟨c, hlog, charge_dominates_reservation gibSession 1 [.shrink 536870912] Empty.elim 0 h⟩

theorem requests_fit_reservation_lostShrink : ∃ c : Pool (Session (Option Empty)) (Option Empty),
    c.shared.call = some ⟨.requestBudget 536870912 0, none⟩ ∧
    (c.shared.sessionMu = none → c.shared.call = none) ∧
    Fits c.shared.reservation (.requestBudget 536870912 0) := by
  obtain ⟨c, -, ⟨h, hcall⟩, -⟩ := lostShrink_reached
  obtain ⟨hfree, hfits⟩ := requests_fit_reservation gibSession 1 [.shrink 536870912] Empty.elim 0 h
  exact ⟨c, hcall, hfree, hfits _ none hcall⟩

end Runs

end Sandboxer.Resctl.Hooks
