import Mathlib.Data.Finset.Card

/-! # The descriptor of a guest connection

`vsockConn` (`sandbox-init/vsock.go`): `Read` and `Write` are admitted under `fdMu` before
each system call and are joined by `Close`; the other operations keep `fdMu` while their
system calls run. Every call runs in its own thread, and the threads take their steps in
any order. A system call returns any result. -/
namespace Sandboxer.Init.Descriptor

open Function (update)

inductive Errno where
  | eintr
  | enomem
  | closed
  | other
  deriving DecidableEq

/-- The calls of the connection: `control` makes system calls under `fdMu`, one after the
other while they succeed. -/
inductive Op where
  | io
  | control (calls : Nat) (whenClosed : Option Errno)
  | close

def Op.setDeadline : Op := .control 2 (some .closed)

def Op.setLinger : Op := .control 1 (some .closed)

def Op.shutdown : Op := .control 1 none

/-- Where a call stands; `attempt` counts the waits for memory. -/
inductive Phase where
  | pinning (attempt : Nat)
  | calling (attempt : Nat)
  | called (attempt : Nat) (n : Int) (err : Option Errno)
  | retry (attempt : Nat)
  | sleeping (attempt : Nat)
  | control (calls : Nat) (whenClosed : Option Errno)
  | controlling (calls : Nat)
  | returned (n : Int) (err : Option Errno)
  | entering
  | marking
  | shutting
  | joining
  | closing
  | finished

def Op.first : Op → Phase
  | .io => .pinning 0
  | .control calls whenClosed => .control calls whenClosed
  | .close => .entering

/-- What `rawIO` returned to the loops of `retryInterruptedIO` and `retryMemoryIO`. -/
@[grind =] def afterCall (attempt : Nat) (n : Int) (err : Option Errno) : Phase :=
  if 0 < n ∨ err ≠ some .eintr then
    if 0 < n ∨ err ≠ some .enomem ∨ attempt = 7 then .returned n err else .retry attempt
  else .pinning attempt

structure State (ι : Type) where
  phase : ι → Phase
  fdMu : Option ι
  closed : Bool
  /-- `none` is nil, `some true` a closed channel. -/
  closedCh : Option Bool
  ioWG : Nat
  /-- `closeOnce`: the first call of `Close`, and whether it is done. -/
  once : Option ι
  onceDone : Bool
  /-- How often the descriptor was closed. -/
  closes : Nat
  /-- The calls that `ioWG` counts. -/
  admitted : Finset ι
  /-- A result with progress that a call got. -/
  progress : ι → Option (Int × Option Errno)

variable {ι : Type}

def State.start (op : ι → Op) : State ι :=
  ⟨fun t => (op t).first, none, false, none, 0, none, false, 0, ∅, fun _ => none⟩

variable [DecidableEq ι]

abbrev State.at (s : State ι) (t : ι) (p : Phase) : State ι :=
  { s with phase := update s.phase t p }

inductive Step (s : State ι) : State ι → Prop where
  | refuse (t a) (ht : s.phase t = .pinning a) (hmu : s.fdMu = none) (hc : s.closed = true) :
      Step s (s.at t (.returned 0 (some .closed)))
  | pin (t a) (ht : s.phase t = .pinning a) (hmu : s.fdMu = none) (hc : s.closed = false) :
      Step s { s.at t (.calling a) with ioWG := s.ioWG + 1, admitted := insert t s.admitted }
  | call (t a n err) (ht : s.phase t = .calling a) :
      Step s { s.at t (.called a n err) with
        progress := if 0 < n then update s.progress t (some (n, err)) else s.progress }
  | done (t a n err) (ht : s.phase t = .called a n err) :
      Step s { s.at t (afterCall a n err) with ioWG := s.ioWG - 1, admitted := s.admitted.erase t }
  | refuseRetry (t a) (ht : s.phase t = .retry a) (hmu : s.fdMu = none) (hc : s.closed = true) :
      Step s (s.at t (.returned 0 (some .closed)))
  | sleep (t a) (ht : s.phase t = .retry a) (hmu : s.fdMu = none) (hc : s.closed = false) :
      Step s { s.at t (.sleeping a) with closedCh := some (s.closedCh.getD false) }
  | wake (t a) (ht : s.phase t = .sleeping a) (hch : s.closedCh = some true) :
      Step s (s.at t (.returned 0 (some .closed)))
  | timer (t a) (ht : s.phase t = .sleeping a) : Step s (s.at t (.pinning (a + 1)))
  | refuseControl (t k err) (ht : s.phase t = .control k err) (hmu : s.fdMu = none)
      (hc : s.closed = true) : Step s (s.at t (.returned 0 err))
  | lock (t k err) (ht : s.phase t = .control k err) (hmu : s.fdMu = none)
      (hc : s.closed = false) : Step s { s.at t (.controlling k) with fdMu := some t }
  | next (t k) (ht : s.phase t = .controlling (k + 2)) : Step s (s.at t (.controlling (k + 1)))
  | unlock (t k err) (ht : s.phase t = .controlling k) (hlast : err ≠ none ∨ k ≤ 1) :
      Step s { s.at t (.returned 0 err) with fdMu := none }
  | enter (t) (ht : s.phase t = .entering) (ho : s.once = none) :
    Step s { s.at t .marking with once := some t }
  | again (t) (ht : s.phase t = .entering) (hd : s.onceDone = true) : Step s (s.at t .finished)
  | mark (t) (ht : s.phase t = .marking) (hmu : s.fdMu = none) : Step s { s.at t .shutting with
      fdMu := some t, closed := true, closedCh := s.closedCh.map fun _ => true }
  | shut (t) (ht : s.phase t = .shutting) : Step s { s.at t .joining with fdMu := none }
  | join (t) (ht : s.phase t = .joining) (hw : s.ioWG = 0) : Step s (s.at t .closing)
  | close (t) (ht : s.phase t = .closing) : Step s { s.at t .finished with
      closes := s.closes + 1, onceDone := true }

/-! ## What every run keeps -/

namespace Phase

/-- A call that `ioWG` counts. -/
@[grind =] def counted : Phase → Bool
  | .calling _ | .called .. => true
  | _ => false

/-- A system call runs under `fdMu`. -/
@[grind =] def locked : Phase → Bool
  | .controlling _ | .shutting => true
  | _ => false

/-- The first `Close` is on its way. -/
@[grind =] def first : Phase → Bool
  | .marking | .shutting | .joining | .closing => true
  | _ => false

end Phase

structure Sound (s : State ι) : Prop where
  counted : ∀ t, t ∈ s.admitted ↔ (s.phase t).counted = true
  count : s.ioWG = s.admitted.card
  locked : ∀ t, s.fdMu = some t ↔ (s.phase t).locked = true
  first : ∀ t, s.once = some t ∧ s.onceDone = false ↔ (s.phase t).first = true
  marked : ∀ t, (∀ k, s.phase t = .controlling k → s.closed = false) ∧
    (s.phase t = .shutting ∨ s.phase t = .joining ∨ s.phase t = .closing → s.closed = true) ∧
    (s.phase t = .closing → s.ioWG = 0) ∧ (s.phase t = .finished → s.onceDone = true)
  done : s.closes = s.onceDone.toNat ∧
    (s.onceDone = true → s.closed = true ∧ s.ioWG = 0 ∧ s.once ≠ none)
  progress : ∀ t n err, s.progress t = some (n, err) → 0 < n ∧
    ((∃ a, s.phase t = .called a n err) ∨ s.phase t = .returned n err)

variable {s s' : State ι}

theorem Sound.step (h : Sound s) (hs : Step s s') : Sound s' where
  counted := by
    have hcounted := h.counted
    cases hs
    all_goals grind -linarith
  count := by
    have hcounted := h.counted
    have hcount := h.count
    cases hs with
    | pin t a ht hmu hc =>
      have : t ∉ s.admitted := by grind
      exact (congrArg (· + 1) hcount).trans (Finset.card_insert_of_notMem this).symm
    | done t a n err ht =>
      have : t ∈ s.admitted := by grind
      exact (congrArg (· - 1) hcount).trans (Finset.card_erase_of_mem this).symm
    | _ => exact hcount
  locked := by
    have hlocked := h.locked
    cases hs
    all_goals grind -linarith
  first := by
    have hfirst := h.first
    have hdone := h.done
    cases hs
    all_goals grind -linarith
  -- `Close` takes `fdMu` before it marks the connection, so no other holder is left
  marked := by
    have hlocked := h.locked
    have hmarked := h.marked
    cases hs
    all_goals grind -linarith
  done := by
    have hmarked := h.marked
    have hdone := h.done
    have hfirst := h.first
    cases hs
    all_goals grind -linarith
  progress := by
    have hprogress := h.progress
    cases hs
    all_goals grind -linarith

variable {op : ι → Op}

theorem sound_of_run (h : Relation.ReflTransGen Step (.start op) s) : Sound s := by
  induction h with
  | refl =>
    have hop : ∀ t, (op t).first = .pinning 0 ∨ (∃ k err, (op t).first = .control k err) ∨
        (op t).first = .entering := by
      intro t
      cases op t
      all_goals simp [Op.first]
    unfold State.start
    constructor
    all_goals grind -linarith
  | tail _ hs ih => exact ih.step hs

/-! ## Raw calls and `Close` -/

namespace Phase

/-- A system call on the descriptor runs. -/
@[grind =] def running : Phase → Bool
  | .calling _ | .controlling _ | .shutting => true
  | _ => false

/-- In `Close`, or with a system call that `Close` waits for. -/
@[grind =] def busy (p : Phase) : Bool := p.counted || p.locked || p.first

end Phase

/-- `Close` waits for no call but those that are in a system call or in `Close` too. -/
theorem Sound.close_moves (h : Sound s) {t : ι}
    (ht : s.phase t = .entering ∨ (s.phase t).first = true)
    (hothers : ∀ u, u ≠ t → (s.phase u).busy = false) :
    ∃ s', Step s s' ∧ s'.phase t ≠ s.phase t := by
  have hcounted := h.counted
  have hcount := h.count
  have hlocked := h.locked
  have hfirst := h.first
  cases hp : s.phase t with
  | entering =>
    cases ho : s.once with
    | none => exact ⟨_, .enter t hp ho, by simp⟩
    | some u =>
      refine ⟨_, .again t hp ?_, by simp⟩
      grind
  | marking =>
    refine ⟨_, .mark t hp (Option.eq_none_iff_forall_ne_some.2 fun u hu => ?_), by simp⟩
    grind
  | shutting => exact ⟨_, .shut t hp, by simp⟩
  | joining =>
    have hnone : s.admitted = ∅ := by
      refine Finset.eq_empty_of_forall_notMem fun u hu => ?_
      grind
    exact ⟨_, .join t hp (by simp [hcount, hnone]), by simp⟩
  | closing => exact ⟨_, .close t hp, by simp⟩
  | _ => grind

/-- No system call on the descriptor runs once it was closed; the descriptor is closed once,
and that before `Close` returns; a call that waits for memory does not hold `Close` up; and
a call that got a positive result returns it, with no system call after that one. -/
theorem no_call_after_close (h : Relation.ReflTransGen Step (.start op) s) :
    (∀ t, (s.phase t).running = true → s.closes = 0) ∧
    (s.closes ≤ 1 ∧ ∀ t, s.phase t = .finished → s.closes = 1) ∧
    (∀ t, s.phase t = .entering ∨ (s.phase t).first = true →
      (∀ u, u ≠ t → (s.phase u).busy = false) →
      ∃ s', Step s s' ∧ s'.phase t ≠ s.phase t) ∧
    ∀ t n err, s.progress t = some (n, err) →
      (∃ a, s.phase t = .called a n err) ∨ s.phase t = .returned n err := by
  have hsound := sound_of_run h
  obtain ⟨hcloses, hdone⟩ := hsound.done
  refine ⟨fun t ht => ?_, ⟨?_, fun t ht => ?_⟩, fun t => hsound.close_moves,
    fun t n err hp => (hsound.progress t n err hp).2⟩
  · rw [hcloses]
    have hcounted := hsound.counted t
    have hcount := hsound.count
    have hfirst := hsound.first t
    have hmarked := hsound.marked t
    cases hp : s.phase t
    all_goals grind [Finset.card_eq_zero]
  · rw [hcloses]
    exact Bool.toNat_le _
  · rw [hcloses, (hsound.marked t).2.2.2 ht]
    rfl

/-- A `Read` waits for memory while the connection is closed. -/
theorem no_call_after_close_sleeping :
    ∃ s : State Bool, s.phase true = .sleeping 0 ∧ s.closes = 1 := by
  have h : Relation.ReflTransGen Step (.start fun t => if t then .io else .close)
      (_ : State Bool) :=
    .tail (.tail (.tail (.tail (.tail (.tail (.tail (.tail (.tail .refl (.pin true 0 rfl rfl rfl))
      (.call true 0 (-1) (some .enomem) rfl)) (.done true 0 _ _ rfl)) (.sleep true 0 rfl rfl rfl))
        (.enter false rfl rfl))
      (.mark false rfl rfl)) (.shut false rfl)) (.join false rfl rfl)) (.close false rfl)
  exact ⟨_, rfl, (no_call_after_close h).2.1.2 false rfl⟩

end Sandboxer.Init.Descriptor
