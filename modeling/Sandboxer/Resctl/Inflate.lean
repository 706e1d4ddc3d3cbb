import Sandboxer.Resctl.Targets

/-! # Inflating

The inflate of a shrink is one step above everything outstanding and stands on
a report (`Support`). A stalled target may be notified again when nothing else
is outstanding. -/
namespace Sandboxer.Resctl

open Lib.Threads

variable {cfg : Config} {given : Premises}

/-! ## What a shrink stands on -/

/-- The report a shrink to `target` stands on. -/
structure Support (cfg : Config) (given : Premises) (target : Nat) (report : MemReport)
    (requested : Nat) (journal : List Note) : Prop where
  mem : .decided report requested false ∈ journal
  decided : given.tracked → Since (.decided report requested false) Note.voids journal
  asks : requested ≤ budgetFromTarget cfg.capacity target
  floor : given.tracked → (floorState journal).1 ≤ budgetFromTarget cfg.capacity target
  once : given.lower → ∀ later earlier t accepted, journal = later ++
    .resize t accepted :: earlier →
    accepted < t → (reports (beforeGate earlier)).head? = some report → t = target

/-- The report was the newest one when the mutation gate was taken. -/
structure Gated (report : MemReport) (requested : Nat) (journal : List Note) : Prop where
  newest : (reports (beforeGate journal)).head? = some report
  decided : .decided report requested false ∈ beforeGate journal

/-- A state that was observed, with nothing below its target since. -/
def Seen (given : Premises) (b : BalloonState) (s : World) : Prop :=
  b.acceptedTargetKnown = true ∧ b.balloonCurrentKnown = true ∧
    Above given b.acceptedTarget s.ch ∧
      .observed ⟨b.acceptedTarget, b.currentBudget, b.balloonCurrent⟩ ∈ s.log

variable {t q : Nat} {r : MemReport} {journal : List Note} {n : Note}

theorem Support.cons
    (h : Support cfg given t r q journal)
    (hf : given.tracked → (floorStep n (floorState journal)).1 ≤ (floorState journal).1)
    (hp : given.tracked → n.voids = false) (hn : given.lower → ∀ t' a, n = .resize t' a → a < t' →
      (reports (beforeGate journal)).head? = some r → t' = t) :
    Support cfg given t r q (n :: journal) := by
  refine ⟨.tail _ h.mem, fun hg => (h.decided hg).cons (hp hg), h.asks,
    fun hg => (hf hg).trans (h.floor hg), fun hl later earlier t' a heq => ?_⟩
  cases later with
  | nil =>
    obtain ⟨rfl, rfl⟩ := List.cons.inj heq
    exact hn hl t' a rfl
  | cons x later => exact h.once hl later earlier t' a (List.cons.inj heq).2

/-- A note that leaves the support of a shrink alone. -/
def Note.passive : Note → Bool
  | .accepted _ | .gate | .observed _ | .finished | .unmarked | .pressure true true => true
  | _ => false

theorem Support.passive (h : Support cfg given t r q journal) (hn : n.passive = true) :
    Support cfg given t r q (n :: journal) := by
  refine h.cons (fun _ => ?_) (fun _ => ?_) ?_
  · cases n with
    | floor _ | decided _ _ _ | resize _ _ => cases hn
    | _ => exact le_rfl
  · cases n with
    | pressure full shrinks => cases full <;> cases shrinks <;> first | rfl | cases hn
    | grown => cases hn
    | _ => rfl
  · rintro _ t' a rfl
    cases hn

theorem Gated.cons (h : Gated r q journal) (hn : n ≠ .gate) : Gated r q (n :: journal) := by
  constructor
  · rw [beforeGate_cons _ hn]; exact h.newest
  · rw [beforeGate_cons _ hn]; exact h.decided

instance Support.heard : Heard (Support cfg given t r q) := ⟨fun _ _ h => h.passive rfl⟩

instance Gated.heard : Heard (Gated r q) := ⟨fun _ _ h => h.cons (by simp)⟩

instance Since.heard (n : Note) : Heard (Since n Note.isFinished) := ⟨fun _ _ h => h.cons rfl⟩

variable {s s' : World}

instance Seen.lasting {b : BalloonState} : Lasting cfg given (Seen given b) :=
  ⟨fun _ _ _ _ hs hr => ⟨hs.1, hs.2.1, hs.2.2.1.sublist hr.targets, hr.log ▸ hs.2.2.2⟩⟩

variable {o : Observation}

theorem Steady.seen (h : Steady cfg given s) (hacc : o.acceptedTarget = s.ch.accepted) :
    Seen given (s.balloon.commitObservation o) (s.commitObservation o) := by
  refine ⟨rfl, rfl, fun hg x hx => ?_, (.head _)⟩
  exact (le_of_eq hacc).trans (h.rising.above hg x hx)

theorem Steady.commitObservation (h : Steady cfg given s)
    (hacc : o.acceptedTarget = s.ch.accepted) : Steady cfg given (s.commitObservation o) :=
  ⟨h.rising, fun _ => ⟨rfl, fun hg x hx => (le_of_eq hacc).trans (h.rising.above hg x hx)⟩⟩

/-! ## The inflate -/

structure Shrinking (cfg : Config) (given : Premises) (target : Nat) (report : MemReport)
    (requested : Nat) (s : World) : Prop where
  steady : Steady cfg given s
  support : Support cfg given target report requested s.journal

/-- The moment before the resize: the mutation gate is held and `o` was just read. -/
structure Poised (cfg : Config) (given : Premises) (target : Nat) (report : MemReport)
    (requested : Nat) (o : Observation) (s : World) : Prop
    extends Shrinking cfg given target report requested s where
  gated : Gated report requested s.journal
  accepted : Since (.accepted report) Note.isFinished s.journal
  observed : JustObserved o s.journal
  above : Above given o.acceptedTarget s.ch
  near : Below given (nextStep o.acceptedTarget) s.ch

theorem Shrinking.rely (h : Rely s s') (hs : Shrinking cfg given t r q s) :
    Shrinking cfg given t r q s' :=
  ⟨hs.steady.rely h, h.reading Heard.arrival hs.support⟩

instance Shrinking.lasting : Lasting cfg given (Shrinking cfg given t r q) :=
  ⟨fun _ _ _ _ hs hr => hs.rely hr⟩

instance Poised.lasting : Lasting cfg given (Poised cfg given t r q o) := ⟨fun _ _ _ _ hs h =>
  ⟨hs.toShrinking.rely h, h.reading Heard.arrival hs.gated, h.reading Heard.arrival hs.accepted,
    h.reading (fun r _ hj => hj.accepted r) hs.observed, hs.above.sublist h.targets,
    hs.near.sublist h.targets⟩⟩

instance Above.lasting : Lasting cfg given fun s => Above given t s.ch :=
  ⟨fun _ _ _ _ hs hr => hs.sublist hr.targets⟩

theorem Shrinking.commitObservation (h : Shrinking cfg given t r q s)
    (hacc : o.acceptedTarget = s.ch.accepted) :
    Shrinking cfg given t r q (s.commitObservation o) :=
  ⟨h.steady.commitObservation hacc, h.support.passive rfl⟩

section Poised

variable {t : Nat} {r : MemReport} {q : Nat} {o : Observation} {s : World}
    (h : Poised cfg given t r q o s)
include h

theorem Poised.backed (ha : t ≤ o.acceptedTarget + memoryStep)
    (hc : t ≤ o.balloonCurrent + memoryStep) (hl : given.lower) : Backed cfg t s.journal :=
  ⟨r, q, o, h.gated.newest, h.gated.decided, h.support.asks, h.observed, ha, hc, h.accepted,
    h.support.once hl, h.support.floor (.inr hl), h.support.decided (.inr hl)⟩

variable (ht : t = nextStep o.acceptedTarget)
include ht

theorem Poised.below : Below given t s.ch := ht ▸ h.near

theorem Poised.issueResize (out : ResizeOutcome) :
    Shrinking cfg given t r q (s.issueResize t out) := by
  have hbelow := h.below ht
  refine ⟨⟨?_, fun hb => ?_⟩, ?_⟩
  · exact h.steady.rising.resize h.above (le_of_eq ht) hbelow out
  · obtain ⟨hk, hab⟩ := h.steady.known hb
    refine ⟨hk, fun hg x hx => ?_⟩
    rcases resize_targets hx with hx | rfl
    · exact hab hg x hx
    · have hmem := accepted_mem_targets s.ch
      exact (hab hg _ hmem).trans (hbelow hg _ hmem)
  · refine h.support.cons (fun _ => le_rfl) (fun _ => rfl) fun _ t' a heq _ _ => ?_
    cases heq
    rfl

end Poised

/-- What a shrink leaves: its support, and the observation that confirmed it. -/
theorem resizeAndConfirm_shrink (hb : cfg.balloon = true) (ht : t = nextStep o.acceptedTarget)
    (ha : t ≤ o.acceptedTarget + memoryStep) (hc : t ≤ o.balloonCurrent + memoryStep) :
    Calmly cfg given (Poised cfg given t r q o) (resizeAndConfirm cfg t none)
      fun res s => Shrinking cfg given t r q s ∧ (res.2 = .ok () → Seen given res.1 s) := by
  have hconfirm : ∀ resized, Calmly cfg given (Shrinking cfg given t r q)
      (confirmResize cfg t none resized)
      fun res s => Shrinking cfg given t r q s ∧ (res.2 = .ok () → Seen given res.1 s) :=
    fun resized => confirmResize_spec fun s o' _ hs hacc =>
      ⟨hs.commitObservation hacc, fun _ => hs.steady.seen hacc⟩
  refine .bind (M := fun res s => Shrinking cfg given t r q s ∧ (res = .ok () → Above given t s.ch))
    (Sat.resize hb ?_ ?_ ?_ ?_) fun res => ?_
  · intro s hi hs _ hg
    have hle := hs.below ht (.inl hg) _ (accepted_mem_targets s.ch)
    exact (budgetFromTarget_anti hle).trans (hi.covers hg _ (accepted_mem_targets s.ch))
  · intro s _ hs _ hg hlt
    exact absurd hlt (not_lt.2 (hs.below ht (.inl hg) _ (accepted_mem_targets s.ch)))
  · exact fun s _ hs _ hl _ => hs.backed ha hc hl
  · intro s out _ hs _
    refine ⟨hs.issueResize ht out, fun he _ x hx => ?_⟩
    cases out with
    | accepted =>
      have hxt : x = t := by simpa [World.issueResize, Vmm.resize, Vmm.targets] using hx
      exact le_of_eq hxt.symm
    | refused | lost => cases he
  · cases res with
    | ok u =>
      refine .bind (Sat.record (fun s => ⟨_, rfl⟩) ?_) fun _ => hconfirm _
      intro s _ hs
      exact ⟨⟨hs.1.steady.rising, fun _ => ⟨rfl, hs.2 rfl⟩⟩, hs.1.support⟩
    | error e => exact (hconfirm _).pre fun s _ hs => hs.1

variable {observed : BalloonState}

/-- A recheck that passes leaves one aligned step. -/
theorem recheckShrink_ok {state : BalloonState} {desired : Nat}
    (h : recheckShrink cfg (some observed) state desired = .ok ()) :
    state.acceptedTarget < desired ∧
      desired ≤ shrinkTargetLimit cfg.capacity state.acceptedTarget state.currentBudget := by
  simp only [recheckShrink] at h
  split at h
  · cases h
  · split at h
    · cases h
    next hnot => omega

theorem shrinkTargetLimit_actual (capacity accepted current : Nat) :
    shrinkTargetLimit capacity accepted current ≤ capacity - current + memoryStep := by
  have hadd :
      (saturatingAdd (capacity - current) memoryStep).1 ≤ capacity - current + memoryStep := by
    simp only [saturatingAdd]
    split <;> omega
  simp only [shrinkTargetLimit]
  split
  · exact Nat.zero_le _
  · exact (min_le_right ..).trans ((min_le_right ..).trans hadd)

/-- The inflate keeps the balloon steady and the shrink supported; when it
succeeds, the returned state was observed. -/
theorem applyShrinkDesiredHeld_spec (hb : cfg.balloon = true) (hd : memoryStep ∣ t) :
    Calmly cfg given
      (fun s => Shrinking cfg given t r q s ∧ Gated r q s.journal ∧
        Since (.accepted r) Note.isFinished s.journal ∧ s.balloon.desiredTarget = t)
      (applyShrinkDesiredHeld cfg observed)
      fun res s => Shrinking cfg given t r q s ∧ (res.2 = .ok () → Seen given res.1 s) := by
  refine .bind (M := fun b s => (Shrinking cfg given t r q s ∧ Gated r q s.journal ∧
      Since (.accepted r) Note.isFinished s.journal) ∧ b.desiredTarget = t)
    (Sat.look (fun s _ => Calm.refl s) fun s _ hs => ⟨⟨hs.1, hs.2.1, hs.2.2.1⟩, hs.2.2.2⟩)
    fun start => .fact fun ht => ?_
  subst ht
  simp only
  split
  · exact .pure fun s _ hs => ⟨hs.1, nofun⟩
  refine .bind (M := fun res s => Shrinking cfg given start.desiredTarget r q s ∧
      ∀ b, res = .ok b → Seen given b s ∧ Poised cfg given start.desiredTarget r q { b with } s ∧
        b.balloonCurrent = cfg.capacity - b.currentBudget)
    (Sat.observe ?_ ?_) fun res => ?_
  · intro s o hi hs hacc hcur
    obtain ⟨hs, hg, ha⟩ := hs
    refine ⟨hs.commitObservation hacc, fun b hb => ?_⟩
    cases hb
    refine ⟨hs.steady.seen hacc, ⟨hs.commitObservation hacc, hg.cons (by simp), ha.cons rfl,
      ⟨[], s.journal, rfl, by simp⟩, fun hg x hx => ?_, fun hg x hx => ?_⟩, hcur⟩
    · exact (le_of_eq hacc).trans (hs.steady.rising.above hg x hx)
    · exact (hs.steady.rising.near hg x hx).trans (le_of_eq (by rw [← hacc]; rfl))
  · exact fun s e _ hs => ⟨hs.1, nofun⟩
  · cases res with
    | ok b =>
      refine .ite (fun _ => .pure fun s _ hs => ⟨hs.1, fun _ => (hs.2 b rfl).1⟩) fun _ => ?_
      cases hre : recheckShrink cfg (some observed) b start.desiredTarget with
      | error e => exact .pure fun s _ hs => ⟨hs.1, nofun⟩
      | ok u =>
        obtain ⟨hlt, hlim⟩ := recheckShrink_ok hre
        have hstep :=
          hlim.trans (shrinkTargetLimit_le cfg.capacity b.acceptedTarget b.currentBudget)
        have hnext := eq_nextStep hd hlt hstep
        refine .pre (Sat.fact fun hcur => ?_)
          fun s _ hs => (hs.2 b rfl).2
        refine resizeAndConfirm_shrink hb hnext hstep ?_
        exact (hlim.trans (shrinkTargetLimit_actual ..)).trans (le_of_eq (by rw [← hcur]))
    | error e =>
      exact .bind (Calmly.look.pre fun _ _ hs => hs.1) fun b => .pure fun s _ hs => ⟨hs, nofun⟩

/-! ## Notifying a stalled target again -/

/-- Nothing but the target itself is accepted or outstanding. -/
def Undisputed : Renotify := fun ch t => ∀ x ∈ ch.targets, x = t

variable {may : Renotify}

/-- An undisputed target can be notified again without any effect. -/
theorem retryAcceptedTargetHeld_spec {still : World → Bool} (hb : cfg.balloon = true)
    (hmay : given.tracked → may ≤ Undisputed) :
    Calmly cfg given (Steady cfg given) (retryAcceptedTargetHeld cfg may observed still)
      fun _ => Steady cfg given := by
  refine .bind (M := fun _ => Steady cfg given)
    (Sat.observe (fun s o _ hs hacc _ => hs.commitObservation hacc) fun s e _ hs => hs) fun res =>
      ?_
  cases res with
  | error e => exact .bind Calmly.look fun b => .skip
  | ok b =>
    refine .bind Calmly.look fun still => ?_
    refine .ite (fun _ => .skip) fun _ => ?_
    refine .bind (M := fun _ => Steady cfg given) (Sat.resize hb ?_ ?_ ?_ ?_)
      fun res => ?_
    · intro s hi _ hm hg
      rw [← hmay (.inl hg) _ _ hm _ (accepted_mem_targets s.ch)]
      exact hi.covers hg _ (accepted_mem_targets s.ch)
    · intro s _ _ hm hg hlt
      exact absurd (hmay (.inl hg) _ _ hm _ (accepted_mem_targets s.ch)) (Nat.ne_of_gt hlt)
    · intro s _ _ hm hl hlt
      exact absurd (hmay (.inr hl) _ _ hm _ (accepted_mem_targets s.ch)) (Nat.ne_of_lt hlt)
    · intro s out _ hs hm
      have hconst : given.tracked → ∀ x ∈ (s.issueResize b.acceptedTarget out).ch.targets,
          x = b.acceptedTarget := by
        intro hg x hx
        rcases resize_targets hx with hx | rfl
        · exact hmay hg _ _ hm x hx
        · rfl
      refine ⟨Rising.of_constant fun hg x hx => ?_, fun hb => ?_⟩
      · exact (hconst hg x hx).trans (hconst hg _ (accepted_mem_targets _)).symm
      obtain ⟨hk, hab⟩ := hs.known hb
      refine ⟨hk, fun hg x hx => ?_⟩
      rw [hconst hg x hx, ← hmay hg _ _ hm _ (accepted_mem_targets s.ch)]
      exact hab hg _ (accepted_mem_targets s.ch)
    · cases res <;> exact .skip

end Sandboxer.Resctl
