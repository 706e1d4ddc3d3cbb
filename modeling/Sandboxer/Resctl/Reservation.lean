import Sandboxer.Resctl.Decisions

/-! # Runs of the memory controller

The worker keeps `Waiting` from wakeup to wakeup, whatever its surroundings do,
so in every reachable state the reservation covers the balloon, and every event
of the history was in order when it happened. -/
namespace Sandboxer.Resctl

open Lib.Threads Lib.Threads.Routine

variable {cfg : Config} {given : Premises} {low : Nat}

/-! ## Normalization -/

/-- The restore target `t` is still to be confirmed. -/
structure Restoring (low t : Nat) (P : World → Prop) (m : Controller) (s : World) : Prop where
  low : m.pressureLowSeq = low
  pending : m.normalizationPending = true
  target : m.normalizationTarget = t
  txn : m.txn = none
  kept : Kept m s.journal
  here : P s

variable {t : Nat} {P : World → Prop} {m : Controller} {s : World}

theorem Restoring.imp {Q : World → Prop} (h : Restoring low t P m s) (hp : P s → Q s) :
    Restoring low t Q m s :=
  { h with here := hp h.here }

theorem Restoring.ready
    (h : Restoring low t P m s) (hp : P s → Normalizing cfg given t s) :
    Ready cfg given low m s := by
  refine ⟨h.low, h.kept, fun _ => ⟨h.txn, ?_⟩, fun hn => ?_⟩
  · rw [h.target]
    exact hp h.here
  · rw [h.pending] at hn
    cases hn

instance Restoring.lasting [hP : Lasting cfg given P] : Lasting cfg given (Restoring low t P m) :=
  ⟨fun s s' hi hi' h hr =>
    { h with kept := hr.reading Heard.arrival h.kept, here := hP.stable s s' hi hi' h.here hr }⟩

theorem Normalizing.congr {s' : World} (h : Normalizing cfg given t s) (hc : s'.ch = s.ch)
    (hr : s'.reservation = s.reservation) (hh : s'.high = s.high)
    (ho : s'.reportsOpen = s.reportsOpen) : Normalizing cfg given t s' := by
  refine ⟨fun hb => ?_, hh.trans h.high, ho.trans h.closed⟩
  have hcl := h.cleared hb
  exact ⟨hc ▸ hcl.applying, fun hg => hr ▸ hcl.covered hg, hc ▸ hcl.above⟩

/-- The restore target is applied with `memory.high` unlimited. -/
theorem applyDesiredHeld_restoring (hb : cfg.balloon = true) : Meets cfg given low
      (Restoring low t fun s => Normalizing cfg given t s ∧ s.balloon.desiredTarget = t)
      (Routine.lift (applyDesiredHeld cfg))
      fun r => Restoring low t fun s => Normalizing cfg given t s ∧
        (r.2 = .ok () → Steady cfg given s) := by
  refine Spec.lift fun m => ?_
  have hsat : Calmly cfg given (fun s => Due cfg given t s ∧ s.balloon.desiredTarget = t)
      (applyDesiredHeld cfg)
      fun r s => Due cfg given t s ∧ (r.2 = .ok () → Steady cfg given s) := applyDesiredHeld_spec hb
  have hframe := hsat.frame (F := fun s => Kept m s.journal ∧ s.high = .max ∧ s.reportsOpen = false)
    fun s s' _ hc hs => ⟨hs.1.calm hc, hc.high.trans hs.2.1, hc.reportsOpen.trans hs.2.2⟩
  have hfact := Sat.fact (c := (m.pressureLowSeq = low ∧ m.normalizationPending = true) ∧
      m.normalizationTarget = t ∧ m.txn = none)
    fun hc => (hframe.weaken fun _ _ _ => trivial).post
      (T := fun r => Restoring low t
        (fun s => Normalizing cfg given t s ∧ (r.2 = .ok () → Steady cfg given s)) m)
      fun r s _ hs => ⟨hc.1.1, hc.1.2, hc.2.1, hc.2.2, hs.2.1,
        ⟨fun _ => hs.1.1.cleared, hs.2.2.1, hs.2.2.2⟩, hs.1.2⟩
  refine hfact.pre fun s _ hs => ⟨⟨⟨⟨hs.here.1.cleared hb, .inl hs.here.1.high⟩, hs.here.2⟩,
    hs.kept, hs.here.1.high, hs.here.1.closed⟩, ⟨hs.low, hs.pending⟩, hs.target, hs.txn⟩

theorem normalize_spec :
    Meets cfg given low (Restoring low t (Normalizing cfg given t)) (normalize cfg t)
      fun _ => Restoring low t fun s => Steady cfg given s ∧ s.reportsOpen = false := by
  refine .ite (fun hb => ?_) fun hb => .pure fun m s hi hs => hs.imp fun h => ⟨?_, h.closed⟩
  · refine .bind (setDesired_rule (fun m s hs => hs.ready fun h => h) fun m s hs => ?_) fun _ => ?_
    · exact { hs with here := hs.here.congr rfl rfl rfl rfl }
    refine .bind (acquireMutation_rule
      (Q := Restoring low t fun s => Normalizing cfg given t s ∧ s.balloon.desiredTarget = t)
      (fun m s hs => hs.1.ready fun h => h) fun m s hs => ?_) fun _ => ?_
    · exact ⟨hs.1.low, hs.1.pending, hs.1.target, hs.1.txn, hs.1.kept.note rfl rfl,
        hs.1.here.congr rfl rfl rfl rfl, hs.2⟩
    refine .bind (applyDesiredHeld_restoring hb) fun r => ?_
    refine .bind (M := fun _ => Restoring low t fun s => Normalizing cfg given t s ∧
      (r.2 = .ok () → Steady cfg given s)) (.modify fun m s _ hs => ?_) fun _ => ?_
    · exact { hs with kept := hs.kept.congr rfl rfl rfl }
    refine .ofExcept (fun a m s he _ hs => hs.imp fun h => ⟨h.2 ?_, h.1.closed⟩)
      fun e m s _ _ hs => hs.ready fun h => h.1
    cases hr : r.2 with
    | ok u => rfl
    | error e => rw [hr] at he; cases he
  · have hno := hi.noDevice (Bool.eq_false_iff.2 hb)
    exact ⟨.settled hno.2, fun hd => absurd hd hb⟩

/-- No report was accepted before the barrier opens, so sequences start over. -/
theorem Inv.openReportBarrier (hi : Inv cfg given s) (hc : s.reportsOpen = false) :
    Inv cfg given s.openReportBarrier := by
  have ho := hi.ordered
  have hnone := ho.closed hc
  refine ⟨hi.covers, hi.logged, hi.noDevice, hi.journaled, ho.sorted, ?_, fun h => ?_, ho.decided,
    ho.queue, ho.queued⟩
  · show 0 = ((reports s.journal).head?.map (·.seq)).getD 0
    rw [hnone]
    rfl
  · cases h

theorem advanceNormalization_spec :
    Meets cfg given low (Ready cfg given low) (advanceNormalization cfg) fun _ => Ready cfg given
      low := by
  refine Spec.get fun m => Spec.ite (fun hn => ?_) fun _ => Spec.pure fun _ _ _ hs => hs.2
  refine .bind (.pre normalize_spec fun m' s _ hs => ?_) fun _ => ?_
  · obtain ⟨rfl, hr⟩ := hs
    obtain ⟨ht, hnorm⟩ := hr.normalizing hn
    exact ⟨hr.low, hn, rfl, ht, hr.kept, hnorm⟩
  refine .bind (M := fun _ m' s => At low m'.shrinkReportFence none
    (fun s => Steady cfg given s ∧ s.reportsOpen = false) m' s) (.modify fun m' s _ hs => ?_)
    fun _ => ?_
  · exact ⟨hs.low, rfl, rfl, hs.txn, hs.kept.congr rfl rfl rfl, hs.here⟩
  refine .lift fun m' => .change fun s hi hs => ?_
  refine ⟨hi.openReportBarrier hs.here.2, trivial, ?_⟩
  exact At.ready
    { hs with fence := rfl, here := ⟨hs.here.1.rising, hs.here.1.known⟩ } fun h => h

/-! ## The worker -/

theorem retry_spec : Runs cfg given (Ready cfg given low) (retry cfg) := by
  refine .get fun m => .ite (fun _ => ?_) fun hn => ?_
  · exact Spec.pre (Meets.runs low advanceNormalization_spec) fun _ _ _ hs => hs.2
  refine Spec.pre (Meets.runs low (advanceTransaction_spec (f := m.shrinkReportFence) (t := m.txn)))
    fun m' s _ hs => ?_
  obtain ⟨rfl, hr⟩ := hs
  exact hr.at (Bool.eq_false_iff.2 hn)

variable {may : Renotify} (hmay : given.tracked → may ≤ Undisputed)

include hmay in
theorem handle_spec (w : Wakeup) :
    Runs cfg given (fun m s => Waiting cfg given m s ∧ ∀ r, w = .report r → Fresh r s)
      (handle cfg may w) := by
  cases w with
  | done => exact .pure fun _ _ _ hs => hs.1
  | report r =>
    refine .pre (S := fun m s => ∃ low, Ready cfg given low m s ∧ Fresh r s)
      (.exists fun low => processReport_spec hmay) fun m s _ hs => ?_
    obtain ⟨⟨low, hr⟩, hf⟩ := hs
    exact ⟨low, hr, hf r rfl⟩
  | pressure p => exact .pre processPressure_spec fun _ _ _ hs => hs.1
  | tick => exact .pre (.exists fun low => retry_spec) fun _ _ _ hs => hs.1

/-- What the worker takes from its queue is the oldest report, not decided yet. -/
theorem awaitWakeup_fresh {s' : World} {w : Wakeup} (hi : Inv cfg given s)
    (h : awaitWakeup s w s') :
    Inv cfg given s' ∧ Rely s s' ∧ ∀ r, w = .report r → Fresh r s' := by
  have ho := hi.ordered
  cases w with
  | done | tick =>
    cases h
    exact ⟨hi, .refl _, nofun⟩
  | pressure p =>
    obtain ⟨rest, -, rfl⟩ := h
    exact ⟨{ hi with ordered := { ho with } }, { Rely.refl s with }, nofun⟩
  | report r =>
    obtain ⟨rest, heq, rfl⟩ := h
    have hqueue := ho.queue
    have hqueued := ho.queued
    rw [heq] at hqueue hqueued
    obtain ⟨hfirst, hrest⟩ := List.pairwise_cons.1 hqueue
    obtain ⟨hacc, -, holder⟩ := hqueued r (.head _)
    refine ⟨{ hi with ordered := { ho with
      queue := hrest, queued := fun r' hm => hqueued r' (.tail _ hm) } }, ?_, fun r' hr => ?_⟩
    · refine { Rely.refl s with reportEvents := fun r' hm => .inl ?_ }
      rw [heq]
      exact .tail _ hm
    · cases hr
      exact ⟨hacc, holder, hfirst⟩

include hmay in
theorem loop_spec (n : Nat) (m : Controller) :
    Sat (Inv cfg given) Rely Any (Waiting cfg given m) (loop cfg may n m) fun _ _ => True := by
  induction n generalizing m with
  | zero => exact .stop
  | succ n ih =>
    have hturn : ∀ w, Sat (Inv cfg given) Rely Any
        (fun s => Waiting cfg given m s ∧ ∀ r, w = .report r → Fresh r s)
        (handle cfg may w m >>= fun r => loop cfg may n r.2) fun _ _ => True := by
      intro w
      refine .bind (handle_spec hmay w m) fun r => (ih r.2).pre fun s _ hs => ?_
      obtain ⟨res, m'⟩ := r
      cases res with
      | ok u | error e => exact hs
    refine .bind (M := fun w s => Waiting cfg given m s ∧ ∀ r, w = .report r → Fresh r s)
      (.atomic fun s w s' hi hs hstep => ?_) fun w => ?_
    · obtain ⟨hi', hrely, hfresh⟩ := awaitWakeup_fresh hi hstep
      exact ⟨hi', trivial, Waiting.lasting.stable s s' hi hi' hs hrely, hfresh⟩
    cases w with
    | done => exact .stop
    | report r => exact hturn (.report r)
    | pressure p => exact hturn (.pressure p)
    | tick => exact hturn .tick

/-! ## From the start of the controller -/

/-- A sandbox when its controller starts: nothing was reported or resized yet,
and the controller knows the target the VMM came up with. -/
structure Initial (cfg : Config) (s : World) : Prop where
  outstanding : s.ch.outstanding = []
  noDevice : cfg.balloon = false → s.ch.accepted = 0
  known : cfg.balloon = true → s.balloon.acceptedTargetKnown = true ∧
    s.balloon.acceptedTarget = s.ch.accepted
  high : s.high = .max
  reportsOpen : s.reportsOpen = false
  reportSeq : s.reportSeq = 0
  reportEvents : s.reportEvents = []
  log : s.log = []
  journal : s.journal = []

/-- The reservation covers the accepted target and the restore target. -/
structure Launch.Covered (cfg : Config) (launch : Launch) (s : World) : Prop where
  accepted : budgetFromTarget cfg.capacity s.ch.accepted ≤ s.reservation
  restore : ∀ t, launch = .restore t → budgetFromTarget cfg.capacity t ≤ s.reservation

variable {launch : Launch}

theorem Initial.target_eq {x : Nat} (h : Initial cfg s) (hx : x ∈ s.ch.targets) :
    x = s.ch.accepted := by
  simpa [Vmm.targets, h.outstanding] using hx

theorem Initial.inv (h : Initial cfg s) (hc : given.covered → launch.Covered cfg s) :
    Inv cfg given s := by
  refine ⟨fun hg t ht => ?_, fun _ => ?_, fun hb => ⟨h.noDevice hb, h.outstanding⟩, fun _ => ?_, ?_⟩
  · rw [h.target_eq ht]
    exact (hc hg).accepted
  · rw [h.log]
    trivial
  · rw [h.journal]
    trivial
  have hr : reports s.journal = [] := by rw [h.journal]; rfl
  refine ⟨by rw [hr]; exact .nil, by rw [hr, h.reportSeq]; rfl, fun _ => hr, fun r q g hd => ?_,
    by rw [h.reportEvents]; exact .nil, fun r hm => ?_⟩
  · rw [h.journal] at hd
    cases hd
  · rw [h.reportEvents] at hm
    cases hm

theorem Initial.steady (h : Initial cfg s) : Steady cfg given s := by
  refine ⟨.settled h.outstanding, fun hb => ?_⟩
  obtain ⟨hk, ha⟩ := h.known hb
  refine ⟨hk, fun _ x hx => ?_⟩
  rw [ha, h.target_eq hx]

variable {initialBudget : Nat} {s₀ : World}

theorem newMemoryController_ok (h : newMemoryController cfg initialBudget s₀ = .ok (m, s)) :
    m.txn = none ∧ m.normalizationPending = false ∧ m.pressureLowSeq = 0 := by
  simp only [newMemoryController] at h
  split at h
  · cases h
  split at h
  · cases h
  split at h
  · cases h
  · cases h
    exact ⟨rfl, rfl, rfl⟩

variable {n : Nat}

include hmay in
/-- The worker is covered from its start, cold or restored. -/
theorem start_covered (ht : m.txn = none) (hn : m.normalizationPending = false)
    (hl : m.pressureLowSeq = 0) (hs : Initial cfg s) (hc : given.covered → launch.Covered cfg s)
    (hlower : given.lower → ∀ t, launch = .restore t → t ≤ s.ch.accepted) :
    Covered (Inv cfg given) Rely Any s (start cfg may n m launch) := by
  have hkept : ∀ m, Kept m s.journal := fun m => by
    rw [hs.journal]; exact ⟨nofun, .inl rfl, fun h => absurd rfl h⟩
  cases launch with
  | cold =>
    refine ⟨At 0 m.shrinkReportFence none (fun s => Steady cfg given s ∧ s.reportsOpen = false) m,
      ⟨hl, hn, rfl, ht, hkept m, hs.steady, hs.reportsOpen⟩, At.lasting.stable, ?_⟩
    refine .bind (.change
      fun s hi h => ⟨hi.openReportBarrier h.here.2, trivial, 0, ?_⟩) fun _ => loop_spec hmay n _
    exact At.ready ⟨h.low, h.running, rfl, h.txn, h.kept.congr rfl rfl rfl,
      ⟨h.here.1.rising, h.here.1.known⟩⟩ fun h => h
  | restore t =>
    let m' : Controller := { m with
      normalizationPending := true, normalizationTarget := t, initialObservationPending := true }
    refine ⟨Restoring 0 t (Normalizing cfg given t) m', ⟨hl, rfl, rfl, ht, hkept m', fun _ => ?_,
      hs.high, hs.reportsOpen⟩, Restoring.lasting.stable, ?_⟩
    · refine ⟨.settled hs.outstanding, fun hg => (hc hg).restore t rfl, fun hl _ x hx => ?_⟩
      rw [hs.target_eq hx]
      exact hlower hl t rfl
    refine .ite (fun _ => .stop) fun _ =>
      Sat.ite (fun _ => .stop) fun _ => ?_
    refine .bind ((advanceNormalization_spec m').pre fun s _ h => h.ready fun h => h) fun r =>
      (loop_spec hmay n r.2).pre fun s _ h => ?_
    obtain ⟨res, m''⟩ := r
    cases res with
    | ok u | error e => exact ⟨0, h⟩

variable {c : Pool World Unit}

include hmay in
/-- What every reachable state keeps. -/
theorem reach_inv (hnew : newMemoryController cfg initialBudget s₀ = .ok (m, s))
    (hs : Initial cfg s) (hc : given.covered → launch.Covered cfg s)
    (hlower : given.lower → ∀ t, launch = .restore t → t ≤ s.ch.accepted)
    (h : Pool.Reach (Surroundings cfg) ⟨s, fun _ => start cfg may n m launch⟩ c) :
    Inv cfg given c.shared := by
  obtain ⟨ht, hn, hl⟩ := newMemoryController_ok hnew
  have hsound : Sound (Inv cfg given) (fun _ : Unit => Rely) (fun _ => Any) (Surroundings cfg) :=
    ⟨fun t u hne => absurd rfl hne, fun _ _ hi he => he.inv hi, fun _ _ _ _ he _ => he.rely⟩
  exact (h.covered hsound (hs.inv hc) fun _ => start_covered hmay ht hn hl hs hc hlower).1

/-! ## Runs of one sandbox

Two runs of the same worker: one in which a pressure signal at full Capacity
leaves a shrink to the next tick, and one in which a stalled target is notified
again while an unanswered resize is still to come. Capacity is 1 GiB. -/

/-- From the worker waiting in `s`, a state in `Q` can be reached. -/
def CanReach (cfg : Config) (may : Renotify) (Q : World → Prop) (n : Nat) (m : Controller)
    (s : World) : Prop :=
  ∀ c₀ : Pool World Unit, Pool.Reach (Surroundings cfg) c₀ ⟨s, fun _ => loop cfg may n m⟩ →
    ∃ c, Pool.Reach (Surroundings cfg) c₀ c ∧ Q c.shared

section Runs

variable {may : Renotify} {Q : World → Prop} {n : Nat} {m : Controller} {s s' : World}

theorem CanReach.here (h : Q s) : CanReach cfg may Q n m s := fun _ h₀ => ⟨_, h₀, h⟩

theorem CanReach.env (he : Surroundings cfg s s') (h : CanReach cfg may Q n m s') :
    CanReach cfg may Q n m s :=
  fun c₀ h₀ => h c₀ (h₀.step (.env he))

theorem CanReach.turn {w : Wakeup} (hne : w ≠ .done) (hw : awaitWakeup s w s')
    (h : (handle cfg may w m).may s' fun r t => CanReach cfg may Q n r.2 t) :
    CanReach cfg may Q (n + 1) m s := by
  intro c₀ h₀
  obtain ⟨r, t, hr, hm⟩ := Prog.may_exists h
  have hwait : (Prog.atomic awaitWakeup).may s fun b u => b = w ∧ u = s' := ⟨w, s', hw, rfl, rfl⟩
  have h₁ := Prog.may_reach hwait h₀
  refine hr c₀ (Prog.may_reach (k := fun r => loop cfg may n r.2) hm ?_)
  cases w with
  | done => exact absurd rfl hne
  | report r | pressure p | tick => exact h₁

theorem CanReach.cold
    (h : CanReach cfg may Q n { m with initialObservationPending := true } s.openReportBarrier) :
    ∃ c : Pool World Unit, Pool.Reach (Surroundings cfg) ⟨s, fun _ => start cfg may n m .cold⟩ c ∧
      Q c.shared :=
  h _ (Prog.may_reach (p := Prog.change World.openReportBarrier) ⟨(), _, rfl, rfl, rfl⟩ .refl)

/-- The VMM answers with what it holds. -/
theorem observe_ok {a c : Nat} (hch : s.ch.accepted = t ∧ s.ch.actual = a)
    (h : validateBalloonSize cfg.capacity t = .ok () ∧ a ≤ cfg.capacity ∧ cfg.capacity - a = c ∧
      validateBalloonSize cfg.capacity c = .ok ()) :
    observe cfg s (.ok (s.balloon.commitObservation ⟨t, a, c⟩))
    (s.commitObservation ⟨t, a, c⟩) := by
  obtain ⟨ht, ha, hc, hv⟩ := h
  refine ⟨some ⟨some a, some (.ok cfg.capacity), some t⟩, ⟨fun _ h => ?_, fun _ h => ?_⟩, ?_⟩
  · cases h
    exact hch.1.symm
  · cases h
    exact hch.2.symm
  · simp [readMemoryObservation, saturatingSub_fst, ht, hc, hv, not_lt.2 ha]

theorem observe_fails : observe cfg s (.error .vmInfoUnavailable) s := ⟨none, trivial, rfl, rfl⟩

/-- 1 GiB of Capacity, a static reservation and no cgroup. -/
def gib : Config := ⟨1073741824, 67108864, 0, 0, false, true, false⟩

def gibWorld (ch : Vmm) (reservation : Nat) (balloon : BalloonState) (seq : Nat) (log : List Event)
    (journal : List Note) : World :=
  { ch, high := .max, reservation, connected := true, clock := 0, balloon, reportsOpen := true
    reportEpoch := min seq 1, reportSeq := seq, reportEvents := [], pressureEvents :=
      [], log, journal }

def gibController (txn : Option MemoryTransaction) (targetBudget target current fence : Nat)
    (stall : Option BalloonStall) : Controller :=
  { txn, targetBudget, balloonTarget := target, balloonCurrent := current
    normalizationPending := false, normalizationTarget := 0, initialObservationPending := false
    lastDemand := 0, lastDemandKnown := true, shrinkReportFence := fence, pressureFloor := 0
    pressureLowSeq := 0, balloonStall := stall }

/-- The world and the controller of a sandbox that came up with a balloon of `target`. -/
def gibStart (target : Nat) : World :=
  { gibWorld ⟨target, 1073741824 - target, []⟩ (1073741824 - target) ⟨target, target, true, 0, 0,
    false⟩
      0 [] [] with reportsOpen := false, reportEpoch := 0 }

def gibNew (target : Nat) : Controller :=
  { gibController none (1073741824 - target) target 0 0 none with lastDemandKnown := false }

theorem gibStart_initial (target : Nat) : Initial gib (gibStart target) :=
  ⟨rfl, nofun, fun _ => ⟨rfl, rfl⟩, rfl, rfl, rfl, rfl, rfl, rfl⟩

theorem gibStart_covered (target : Nat) : Launch.Covered gib .cold (gibStart target) :=
  ⟨le_of_eq (budgetFromTarget_eq ..), nofun⟩

variable {log : List Event} {journal : List Note}

/-- The oldest report is decided with a fresh observation. -/
theorem CanReach.decided {outstanding : List Nat} {reservation seq a c : Nat}
    {balloon : BalloonState}
    {b : MemoryBudget} {queue : List MemReport} (r : MemReport)
    (hn : m.normalizationPending = false)
    (hv : validateBalloonSize gib.capacity t = .ok () ∧ a ≤ gib.capacity ∧ gib.capacity - a = c ∧
      validateBalloonSize gib.capacity c = .ok ())
    (hb : calculateMemoryBudget gib.capacity gib.headroom t a r.memAvailableBytes = .ok (b, false))
    (h : (reportObserved gib may r ⟨balloon.desiredTarget, t, true, a, c, true⟩ b
        m.balloonStall { m with
          normalizationPending := false, balloonTarget := t, balloonCurrent := c, targetBudget :=
  gib.capacity - t
          balloonStall := none, initialObservationPending := false }).may
      { gibWorld ⟨t, a, outstanding⟩ reservation ⟨balloon.desiredTarget, t, true, a, c, true⟩ seq
          (.observed ⟨t, a, c⟩ :: log) (.observed ⟨t, a, c⟩ :: journal) with reportEvents := queue }
      fun r t => CanReach gib may Q n r.2 t) :
    CanReach gib may Q (n + 1) m
      { gibWorld ⟨t, a, outstanding⟩ reservation balloon seq log journal with
      reportEvents := r :: queue } := by
  refine .turn (w := .report r) (by simp) ⟨queue, rfl, rfl⟩ ?_
  have hd : gib.balloon = true := rfl
  simp only [handle, processReport, observeBalloon, hd]
  simp [hn, Prog.may_atomic]
  refine ⟨_, _, observe_ok (t := t) (a := a) ⟨rfl, rfl⟩ hv, ?_⟩
  simp only [World.commitObservation, BalloonState.commitObservation]
  simp [recordBalloonState, Controller.recordBalloonState, BalloonState.observedBudget,
    budgetFromTarget_eq, hb]
  exact h

/-- A newer report of the guest's epoch is queued. -/
theorem CanReach.submit {ch : Vmm} {reservation seq : Nat} {balloon : BalloonState}
    (queue : List MemReport) (r : MemReport) (hr : r.epoch = 1 ∧ seq < r.seq ∧ queue.length < 16)
    (h : CanReach gib may Q n m
      { gibWorld ch reservation balloon r.seq log (.accepted r :: journal) with
      reportEvents := queue ++ [r] }) :
    CanReach gib may Q n m { gibWorld ch reservation balloon seq log journal with reportEvents :=
      queue } := by
  obtain ⟨he, hseq, hq⟩ := hr
  have hpos : 0 < r.seq := lt_of_le_of_lt (Nat.zero_le _) hseq
  have hepoch : min r.seq 1 = 1 := min_eq_right hpos
  have hsame : ¬(min seq 1 ≠ 0 ∧ 1 ≠ min seq 1) := by omega
  refine .env (.report _ r) ?_
  simp only [World.submitGuestReport, gibWorld, he, hsame, not_le.2 hseq, hq] at h ⊢
  simpa [Nat.ne_of_gt hpos, hepoch] using h

/-- A report that finds the worker waiting is decided with a fresh observation. -/
theorem CanReach.report {outstanding : List Nat} {reservation seq a c : Nat}
    {balloon : BalloonState} {b : MemoryBudget}
    (r : MemReport) (hm : (r.epoch = 1 ∧ seq < r.seq ∧ m.normalizationPending = false) ∧
      validateBalloonSize gib.capacity t = .ok () ∧ a ≤ gib.capacity ∧ gib.capacity - a = c ∧
      validateBalloonSize gib.capacity c = .ok ())
    (hb : calculateMemoryBudget gib.capacity gib.headroom t a r.memAvailableBytes = .ok (b, false))
    (h : ∀ log, (reportObserved gib may r ⟨balloon.desiredTarget, t, true, a, c, true⟩ b
        m.balloonStall { m with
          normalizationPending := false, balloonTarget := t, balloonCurrent := c, targetBudget :=
  gib.capacity - t
          balloonStall := none, initialObservationPending := false }).may
      (gibWorld ⟨t, a, outstanding⟩ reservation ⟨balloon.desiredTarget, t, true, a, c, true⟩ r.seq
        log
        (.observed ⟨t, a, c⟩ :: .accepted r :: journal))
      fun r t => CanReach gib may Q n r.2 t) :
    CanReach gib may Q (n + 1) m
      (gibWorld ⟨t, a, outstanding⟩ reservation balloon seq log journal) := by
  obtain ⟨⟨he, hseq, hn⟩, hv⟩ := hm
  exact .submit [] r ⟨he, hseq, by decide⟩ (.decided r hn hv hb (h _))

/-! What the worker does between the choices of its surroundings is computed by these. -/

attribute [local simp] handle reportObserved gibWorld gibNew gibController gib reportIdle
  passPressureFloor
  reservationNow World.note startShrink budgetFromTarget_eq advanceTransaction MemoryTransaction.new
  Option.filter_some advanceShrink shrinkReportSuperseded acquireMutation issueShrink setDesired
    setDesiredTarget
  World.setDesired applyShrinkDesiredHeld applyDesiredHeldMode recordBalloonState
    Controller.recordBalloonState
  World.commitObservation BalloonState.commitObservation resizeAndConfirm recheckShrink
    ResizeOutcome.result
  World.issueResize Vmm.resize confirmResize finishShrink retryStalledBalloon stillCurrent
    stallMatches

/-- After an unanswered pre-resize observation the shrink is kept. -/
def deferredShrink : MemoryTransaction :=
  { MemoryTransaction.new .shrink 0 with
    targetBudget := 1006632960, target := 67108864, reportSeq := 1, targetChange := true
    shrinkObservation := ⟨0, 0, true, 1073741824, 0, true⟩ }

theorem CanReach.deferred
    (h : ∀ log journal, CanReach gib may Q n
      (gibController (some deferredShrink) 1073741824 0 0 0 none)
      (gibWorld ⟨0, 1073741824, []⟩ 1073741824 ⟨67108864, 0, true, 1073741824, 0, true⟩ 1 log
        journal)) :
    CanReach gib may Q (n + 1) { gibNew 0 with initialObservationPending := true }
      (gibWorld ⟨0, 1073741824, []⟩ 1073741824 ⟨0, 0, true, 0, 0, false⟩ 0 log journal) := by
  have hv : validateBalloonSize 1073741824 67108864 = .ok () := by decide
  have hnext : nextShrinkTarget 1073741824 0 1073741824 67108864 = some 67108864 := by decide
  refine .report (c := 0) ⟨1, 1, 1073741824⟩ (by decide)
      (b := ⟨1073741824, 67108864, 0, 1073741824, 1073741824, 1073741824, 1073741824, 0, 67108864,
        1006632960, 67108864⟩) (by decide)
    fun log => ?_
  simp [hnext]
  refine ⟨true, _, ⟨trivial, rfl⟩, ?_⟩
  simp [hv]
  refine ⟨_, _, observe_fails, ?_⟩
  simp
  exact h _ _

/-- At full Capacity a pressure signal changes nothing, and the next tick inflates. -/
theorem CanReach.inflated (h : ∀ m log journal, CanReach gib may Q n m
      (gibWorld ⟨0, 1073741824, []⟩ 1073741824 ⟨67108864, 0, true, 1073741824, 0, true⟩ 1 log
        (.resize 67108864 0 :: .observed ⟨0, 1073741824, 0⟩ :: .gate :: .pressure true
          true :: journal))) :
    CanReach gib may Q (n + 2) (gibController (some deferredShrink) 1073741824 0 0 0 none)
      (gibWorld ⟨0, 1073741824, []⟩ 1073741824 ⟨67108864, 0, true, 1073741824, 0, true⟩ 1 log
        journal) := by
  have hv : validateBalloonSize 1073741824 67108864 = .ok () := by decide
  have hlimit : shrinkTargetLimit 1073741824 0 1073741824 = 67108864 := by decide
  refine .env (.pressure _ ⟨.high, ""⟩)
    (.turn (w := .pressure ⟨.high, ""⟩) (by simp) ⟨[], rfl, rfl⟩ ?_)
  simp [processPressure, targetBudgetNow, World.requestPressureGrow, deferredShrink,
    MemoryTransaction.isGrow, memoryStep, maxUint64]
  refine .turn (w := .tick) (by simp) rfl ?_
  simp [retry]
  refine ⟨true, _, ⟨trivial, rfl⟩, ?_⟩
  simp [hv]
  refine ⟨_, _, observe_ok (t := 0) (a := 1073741824) (c := 0) ⟨rfl, rfl⟩ (by decide), ?_⟩
  simp [hlimit]
  refine ⟨_, _, ⟨trivial, .refused, rfl, rfl⟩, ?_⟩
  simp
  refine ⟨_, _, observe_fails, ?_⟩
  simp
  exact h _ _ _

/-- The inflate was issued after a pressure signal, with no report accepted in between. -/
theorem gib_inflates (may : Renotify) : ∃ c : Pool World Unit,
      Pool.Reach (Surroundings gib) ⟨gibStart 0, fun _ => start gib may 3 (gibNew 0) .cold⟩ c ∧
      ∃ earlier, c.shared.journal = .resize 67108864 0 :: .observed ⟨0, 1073741824, 0⟩ :: .gate ::
        .pressure true true :: earlier :=
  CanReach.cold (Q := fun s => ∃ earlier, s.journal = .resize 67108864 0 ::
      .observed ⟨0, 1073741824, 0⟩ :: .gate :: .pressure true true :: earlier)
    (.deferred fun _ _ => .inflated fun _ _ _ => .here ⟨_, rfl⟩)

/-! ### Growing to full Capacity and shrinking again -/

/-- A guest of 960 MiB, with `queue` still to be decided. -/
def guest (target reservation : Nat) (balloon : BalloonState) (seq : Nat) (queue : List MemReport)
    (log : List Event) (journal : List Note) : World :=
  { gibWorld ⟨target, 1006632960, []⟩ reservation balloon seq log journal with reportEvents :=
    queue }

/-- What is observed at a target of 64 MiB and at full Capacity. -/
def partSeen : Observation := ⟨67108864, 1006632960, 67108864⟩

def fullSeen : Observation := ⟨0, 1006632960, 67108864⟩

def partBalloon : BalloonState := ⟨67108864, 67108864, true, 1006632960, 67108864, true⟩

def fullBalloon : BalloonState := ⟨0, 0, true, 1006632960, 67108864, true⟩

def fullIdle : Controller := gibController none 1073741824 0 67108864 0 none

/-- A report without available memory asks for full Capacity, one that has it all
for the headroom. -/
def hungry (seq : Nat) : MemReport := ⟨1, seq, 0⟩

def modest (seq : Nat) : MemReport := ⟨1, seq, 1073741824⟩

def hungryBudget (target observed : Nat) : MemoryBudget :=
  ⟨1073741824, 67108864, target, 0, observed, 1006632960, observed, 1006632960, 1073741824, 0,
    1073741824⟩

def modestBudget : MemoryBudget :=
  ⟨1073741824, 67108864, 0, 1073741824, 1073741824, 1006632960, 1073741824, 0, 67108864, 1006632960,
    67108864⟩

/-- The notes of the deflate and of the inflate. -/
def grew (journal : List Note) : List Note :=
  .grown :: .observed fullSeen :: .resize 0 67108864 :: .observed partSeen :: .gate :: journal

def shrank (journal : List Note) : List Note :=
  .finished :: .observed partSeen :: .observed partSeen :: .resize 67108864 0 ::
    .observed fullSeen :: .gate :: journal

attribute [local simp] guest partSeen fullSeen partBalloon fullBalloon fullIdle hungry modest
  hungryBudget
  modestBudget

section Growing

theorem World.requestStatic_ok {req : BudgetRequest} {next : Nat}
    (hsum : req.currentAlloc + req.requestedDelta = next)
    (hn : next ≤ maxUint64 ∧ next ≤ cfg.capacity) (hr : req.currentAlloc ≤ s.reservation) :
    World.requestStatic cfg req s = (.ok ⟨req.requestedDelta, next, 0⟩, s.setReservation next) := by
  rw [World.requestStatic, hsum, if_neg (by omega), if_neg (not_lt.2 hr)]

attribute [local simp] startGrow advanceGrow targetBudgetNow reserveGrow requestReservation
  World.setReservation modifyTxn prepareGrow applyPreparedGrow raiseHigh applyMemoryHigh
    World.applyMemoryHigh
  deflate applyDesiredHeld MemoryTransaction.isGrow MemoryTransaction.growObjective
  World.setAcceptedTarget

variable {seq : Nat} {queue : List MemReport} {balloon : BalloonState}

/-- A growth to full Capacity reserves, deflates and ends. -/
theorem startGrow_may {demand : Nat} {urgency : Urgency} {reason : String} (hm : m.txn = none)
    (hb : balloon.acceptedTarget = 67108864 ∧ balloon.acceptedTargetKnown = true)
    {Q : Except Failure Unit × Controller → World → Prop}
    (h : Q (.ok (), { m with
        txn := none, targetBudget := 1073741824, balloonTarget := 0, balloonCurrent := 67108864 })
      (guest 0 1073741824 fullBalloon seq queue
        (.observed fullSeen :: .resize 0 67108864 1073741824 .max :: .observed partSeen ::
          .reserved 1006632960 1073741824 .max :: log) (grew journal))) :
    (startGrow gib 1073741824 demand urgency reason m).may
      (guest 67108864 1006632960 balloon seq queue log journal) Q := by
  have hv : validateBalloonSize 1073741824 0 = .ok () := by decide
  have hal : alignedBudgetAtMostReservation 1073741824 1073741824 = 1073741824 := by decide
  have htf : targetForBudget 1073741824 1073741824 = 0 := by decide
  have hsub : (saturatingSub 1073741824 1006632960).1 = 67108864 := by decide
  have hsum : 1006632960 + 67108864 = 1073741824 := by decide
  have hmax : 1073741824 ≤ maxUint64 := by decide
  have hgrant : ∀ (u : Urgency) s, s.reservation = 1006632960 →
      World.requestStatic ⟨1073741824, 67108864, 0, 0, false, true, false⟩
        ⟨1006632960, 67108864, u, reason⟩ s =
        (.ok ⟨67108864, 1073741824, 0⟩, s.setReservation 1073741824) :=
    fun u s hs => World.requestStatic_ok hsum (And.intro hmax le_rfl) (le_of_eq hs.symm)
  obtain ⟨ha, hk⟩ := hb
  simp [hsub, hal, htf, hm, ha, hk, hgrant]
  refine ⟨true, _, ⟨trivial, rfl⟩, ?_⟩
  simp
  refine ⟨.ok (), _, ⟨rfl, ⟨⟨true, none, true, true⟩⟩, rfl⟩, ?_⟩
  simp [hv]
  refine ⟨_, _, observe_ok (t := 67108864) (a := 1006632960) (c := 67108864) ⟨rfl, rfl⟩ (by decide),
    ?_⟩
  simp
  refine ⟨_, _, ⟨trivial, .accepted, rfl, rfl⟩, ?_⟩
  simp
  refine ⟨_, _, observe_ok (t := 0) (a := 1006632960) (c := 67108864) ⟨rfl, rfl⟩ (by decide), ?_⟩
  simp
  exact h

end Growing

variable {seq : Nat} {queue : List MemReport}

/-- A modest report shrinks by one step and settles. -/
theorem startShrink_may {Q : Except Failure Unit × Controller → World → Prop}
    (h : ∀ m, Q (.ok (), m) (guest 67108864 1006632960 partBalloon (seq + 1) queue
      (.reserved 1073741824 1006632960 .max :: .observed partSeen :: .observed partSeen ::
        .resize 67108864 0 1073741824 .max :: .observed fullSeen :: log) (shrank journal))) :
    (startShrink gib may (modest (seq + 1)) fullBalloon modestBudget none fullIdle).may
      (guest 0 1073741824 fullBalloon (seq + 1) queue log journal) Q := by
  have hv : validateBalloonSize 1073741824 67108864 = .ok () := by decide
  have hnext : nextShrinkTarget 1073741824 0 1006632960 67108864 = some 67108864 := by decide
  have hlimit : shrinkTargetLimit 1073741824 0 1006632960 = 67108864 := by decide
  simp [hnext]
  refine ⟨true, _, ⟨trivial, rfl⟩, ?_⟩
  simp [hv]
  refine ⟨_, _, observe_ok (t := 0) (a := 1006632960) (c := 67108864) ⟨rfl, rfl⟩ (by decide), ?_⟩
  simp [hlimit]
  refine ⟨_, _, ⟨trivial, .accepted, rfl, rfl⟩, ?_⟩
  simp [World.setAcceptedTarget]
  refine ⟨_, _, observe_ok (t := 67108864) (a := 1006632960) (c := 67108864) ⟨rfl, rfl⟩ (by decide),
    ?_⟩
  simp [settleShrink, BalloonState.observedBudget, lowerHigh, applyMemoryHigh, modifyTxn]
  refine ⟨.ok (), _, ⟨⟨true, none, true, true⟩, rfl⟩, ?_⟩
  simp [releaseReservation, observeBalloon]
  refine ⟨_, _, observe_ok (t := 67108864) (a := 1006632960) (c := 67108864) ⟨rfl, rfl⟩ (by decide),
    ?_⟩
  simp [BalloonState.observedBudget, requestReservation, World.requestStatic, World.setReservation,
    maxUint64]
  simpa [shrank] using h _

/-- The first report asks for full Capacity. -/
theorem CanReach.grown (queue : List MemReport)
    (h : ∀ log, CanReach gib may Q n { fullIdle with lastDemand := 1006632960 }
      (guest 0 1073741824 fullBalloon seq queue
        (.observed fullSeen :: .resize 0 67108864 1073741824 .max :: log)
        (grew (.decided (hungry 1) 1073741824 true :: .observed partSeen :: journal)))) :
    CanReach gib may Q (n + 1) { gibNew 67108864 with initialObservationPending := true }
      (guest 67108864 1006632960 ⟨67108864, 67108864, true, 0, 0, false⟩ seq (hungry 1 :: queue) log
        journal) := by
  refine .decided (c := 67108864) (b := hungryBudget 67108864 1006632960) (hungry 1) rfl (by decide)
    (by decide) ?_
  simp [MemoryBudget.grows]
  refine startGrow_may rfl ⟨rfl, rfl⟩ ?_
  exact h _

/-- A modest report that is the newest shrinks. -/
theorem CanReach.shrunk
    (h : ∀ m, CanReach gib may Q n m (guest 67108864 1006632960 partBalloon 2 []
      (.reserved 1073741824 1006632960 .max :: .observed partSeen :: .observed partSeen ::
        .resize 67108864 0 1073741824 .max :: .observed fullSeen :: .observed fullSeen :: log)
      (shrank (.decided (modest 2) 67108864 false :: .observed fullSeen :: journal)))) :
    CanReach gib may Q (n + 1) { fullIdle with lastDemand := 1006632960 }
      (guest 0 1073741824 fullBalloon 2 [modest 2] log journal) := by
  refine .decided (c := 67108864) (b := modestBudget) (modest 2) rfl (by decide) (by decide) ?_
  simp [MemoryBudget.grows, -startShrink]
  exact startShrink_may h

/-- At full Capacity a pressure signal changes nothing. -/
theorem CanReach.pressed
    (h : CanReach gib may Q n { fullIdle with lastDemand := 1006632960 }
      (guest 0 1073741824 fullBalloon seq queue log (.pressure true false :: journal))) :
    CanReach gib may Q (n + 1) { fullIdle with lastDemand := 1006632960 }
      (guest 0 1073741824 fullBalloon seq queue log journal) := by
  refine .env (.pressure _ ⟨.high, ""⟩)
    (.turn (w := .pressure ⟨.high, ""⟩) (by simp) ⟨[], rfl, rfl⟩ ?_)
  simp [processPressure, targetBudgetNow, World.requestPressureGrow, MemoryTransaction.isGrow,
    memoryStep, maxUint64, Controller.shrinks]
  exact h

/-- The sandbox when its worker starts to wait. -/
def guestStart : World :=
  guest 67108864 1006632960 ⟨67108864, 67108864, true, 0, 0, false⟩ 0 [] [] []

theorem CanReach.started
    (h : CanReach gib may Q n { gibNew 67108864 with initialObservationPending := true }
    guestStart) :
    ∃ c : Pool World Unit, Pool.Reach (Surroundings gib)
      ⟨gibStart 67108864, fun _ => start gib may n (gibNew 67108864) .cold⟩ c ∧ Q c.shared :=
  CanReach.cold h

theorem CanReach.queued {target reservation : Nat} {balloon : BalloonState} (r : MemReport)
    (hr : r.epoch = 1 ∧ seq < r.seq ∧ queue.length < 16)
    (h : CanReach gib may Q n m
      (guest target reservation balloon r.seq (queue ++ [r]) log (.accepted r :: journal))) :
    CanReach gib may Q n m (guest target reservation balloon seq queue log journal) :=
  .submit queue r hr h

/-- The sandbox grows to full Capacity and shrinks again. -/
theorem gib_cycle (may : Renotify) : ∃ c : Pool World Unit,
      Pool.Reach (Surroundings gib)
        ⟨gibStart 67108864, fun _ => start gib may 2 (gibNew 67108864) .cold⟩ c ∧
      (∃ between earlier, c.shared.log = .reserved 1073741824 1006632960 .max ::
        between ++ .resize 0 67108864 1073741824 .max :: earlier) ∧
      c.shared.journal = shrank (.decided (modest 2) 67108864 false :: .observed fullSeen ::
        .accepted (modest 2) :: grew
        [.decided (hungry 1) 1073741824 true, .observed partSeen, .accepted (hungry 1)]) := by
  refine CanReach.started
    (Q := fun s => (∃ between earlier, s.log = .reserved 1073741824 1006632960 .max ::
      between ++ .resize 0 67108864 1073741824 .max :: earlier) ∧ s.journal = _)
        (.queued (hungry 1) (by decide) ?_)
  refine .grown [] fun _ => .queued (modest 2) (by decide) (.shrunk fun _ => .here ⟨?_, rfl⟩)
  exact ⟨[_, _, _, _, _, _], _, rfl⟩

/-! ### A low mark that a report leaves -/

/-- The floor of full Capacity, before and after a first low report. -/
def flooredIdle (low : Nat) : Controller :=
  { gibController none 1073741824 0 67108864 0 none with
    pressureFloor := 1073741824
    pressureLowSeq := low }

attribute [local simp] flooredIdle

/-- A pressure signal below full Capacity sets the floor. -/
theorem CanReach.floored
    (h : ∀ log, CanReach gib may Q n
      { flooredIdle 0 with initialObservationPending := true, lastDemandKnown := false }
      (guest 0 1073741824 fullBalloon 0 [] log
        (.floor 1073741824 :: grew [.pressure false false]))) :
    CanReach gib may Q (n + 1) { gibNew 67108864 with initialObservationPending := true }
      guestStart := by
  refine .env (.pressure _ ⟨.high, ""⟩)
    (.turn (w := .pressure ⟨.high, ""⟩) (by simp) ⟨[], rfl, rfl⟩ ?_)
  simp [processPressure, targetBudgetNow, World.requestPressureGrow, guestStart, memoryStep,
    maxUint64, Controller.shrinks]
  show Prog.may _ (guest 67108864 1006632960 ⟨67108864, 67108864, true, 0, 0, false⟩ 0 [] []
    [.pressure false false]) _
  refine startGrow_may rfl ⟨rfl, rfl⟩ ?_
  simp
  exact h _

/-- The first low report is only counted. -/
theorem CanReach.marked
    (h : ∀ log, CanReach gib may Q n (flooredIdle 1) (guest 0 1073741824 fullBalloon 1 [] log
      (.decided (modest 1) 67108864 false :: .observed fullSeen :: .accepted
        (modest 1) :: journal))) :
    CanReach gib may Q (n + 1)
    { flooredIdle 0 with initialObservationPending := true, lastDemandKnown := false }
      (guest 0 1073741824 fullBalloon 0 [] log journal) := by
  refine .queued (modest 1) (by decide)
    (.decided (c := 67108864) (b := modestBudget) (modest 1) rfl (by decide)
    (by decide) ?_)
  simp [MemoryBudget.grows]
  exact h _

/-- A report that asks for the floor is superseded. -/
theorem CanReach.superseded
    (h : ∀ log, CanReach gib may Q n { flooredIdle 1 with lastDemand := 1006632960 }
      (guest 0 1073741824 fullBalloon 3 [modest 3] log (.decided (hungry 2) 1073741824 false ::
        .observed fullSeen :: .accepted (modest 3) :: .accepted (hungry 2) :: journal))) :
    CanReach gib may Q (n + 1) (flooredIdle 1)
      (guest 0 1073741824 fullBalloon 1 [] log journal) := by
  refine .queued (hungry 2) (by decide) (.queued (modest 3) (by decide)
    (.decided (c := 67108864) (b := hungryBudget 0 1073741824) (hungry 2) rfl (by decide)
      (by decide) ?_))
  simp [MemoryBudget.grows]
  exact h _

/-- The second low report clears the floor and shrinks. -/
theorem CanReach.cleared
    (h : ∀ m log, CanReach gib may Q n m (guest 67108864 1006632960 partBalloon 3 [] log
      (shrank (.decided (modest 3) 67108864 false :: .observed fullSeen :: journal)))) :
    CanReach gib may Q (n + 1) { flooredIdle 1 with lastDemand := 1006632960 }
      (guest 0 1073741824 fullBalloon 3 [modest 3] log journal) := by
  refine .decided (c := 67108864) (b := modestBudget) (modest 3) rfl (by decide) (by decide) ?_
  simp [MemoryBudget.grows, -startShrink]
  exact startShrink_may fun m => h m _

/-! ### A late effect -/

/-- The shrink whose resize to 576 MiB stays unanswered. -/
def lostShrink : MemoryTransaction :=
  { MemoryTransaction.new .shrink 0 with
    targetBudget := 469762048, target := 603979776, reportSeq := 1, targetChange := true
    shrinkObservation := ⟨536870912, 536870912, true, 536870912, 536870912, true⟩ }

/-- A report that asks for little while the target is 512 MiB. -/
def lowBudget (current : Nat) : MemoryBudget :=
  ⟨1073741824, 67108864, 536870912, 1073741824, 536870912, current, current, 0, 67108864,
    1006632960, 67108864⟩

/-- The worker and its sandbox while the guest holds more than the reservation. -/
def stalled (ch : Vmm) (seq : Nat) (log : List Event) (journal : List Note) : World :=
  gibWorld ch 536870912 ⟨536870912, 536870912, true, 541065216, 532676608, true⟩ seq log journal

def gibIdle (stall : Option BalloonStall) : Controller :=
  gibController none 536870912 536870912 532676608 2 stall

attribute [local simp] lowBudget stalled gibIdle

theorem CanReach.lost (h : ∀ log journal, CanReach gib may Q n
      (gibController (some lostShrink) 536870912 536870912 536870912 0 none)
      (gibWorld ⟨536870912, 536870912, [603979776]⟩ 536870912
        ⟨603979776, 536870912, true, 536870912, 536870912, true⟩ 1 log journal)) :
    CanReach gib may Q (n + 1) { gibNew 536870912 with initialObservationPending := true }
      (gibWorld ⟨536870912, 536870912, []⟩ 536870912 ⟨536870912, 536870912, true, 0, 0, false⟩ 0 log
        journal) := by
  have hv : validateBalloonSize 1073741824 603979776 = .ok () := by decide
  have hnext : nextShrinkTarget 1073741824 536870912 536870912 67108864 = some 603979776 := by
    decide
  have hlimit : shrinkTargetLimit 1073741824 536870912 536870912 = 603979776 := by decide
  refine .report (c := 536870912) ⟨1, 1, 1073741824⟩ (by decide)
    (b := lowBudget 536870912) (by decide)
    fun log => ?_
  simp [hnext]
  refine ⟨true, _, ⟨trivial, rfl⟩, ?_⟩
  simp [hv]
  refine ⟨_, _, observe_ok (t := 536870912) (a := 536870912) (c := 536870912) ⟨rfl, rfl⟩
    (by decide), ?_⟩
  simp [hlimit]
  refine ⟨_, _, ⟨trivial, .lost, rfl, rfl⟩, ?_⟩
  simp
  refine ⟨_, _, observe_fails, ?_⟩
  simp only [Prog.may_ret, Prog.may_bind, Prog.may_look, Prog.may_pure, if_true]
  exact h _ _

/-- The guest grew beyond the reservation, so the shrink is discarded. -/
theorem CanReach.discarded
    (h : ∀ log journal, CanReach gib may Q n (gibIdle none)
      (stalled ⟨536870912, 541065216, [603979776]⟩ 2 log journal)) :
    CanReach gib may Q (n + 1)
    (gibController (some lostShrink) 536870912 536870912 536870912 0 none)
      (gibWorld ⟨536870912, 541065216, [603979776]⟩ 536870912
        ⟨603979776, 536870912, true, 536870912, 536870912, true⟩ 1 log journal) := by
  have hv : validateBalloonSize 1073741824 536870912 = .ok () := by decide
  refine .report (c := 532676608) ⟨1, 2, 1073741824⟩ (by decide)
    (b := lowBudget 541065216) (by decide)
    fun log => ?_
  simp [reportDuringShrink, lostShrink, hv]
  exact h _ _

/-- The next report samples the stall. -/
theorem CanReach.sampled
    (h : ∀ log journal, CanReach gib may Q n (gibIdle (some ⟨1, 3, 536870912, 532676608⟩))
      (stalled ⟨536870912, 541065216, [603979776]⟩ 3 log journal)) :
    CanReach gib may Q (n + 1) (gibIdle none)
      (stalled ⟨536870912, 541065216, [603979776]⟩ 2 log journal) := by
  refine .report (c := 532676608) ⟨1, 3, 1073741824⟩ (by decide)
    (b := lowBudget 541065216) (by decide)
    fun log => ?_
  simp
  exact h _ _

/-- The stalled target of 512 MiB is notified again, without an answer. -/
theorem CanReach.renotified (hmay : may ⟨536870912, 541065216, [603979776]⟩ 536870912)
    (h : ∀ log journal, CanReach gib may Q n (gibIdle none)
      (stalled ⟨536870912, 541065216, [603979776, 536870912]⟩ 4 log journal)) :
    CanReach gib may Q (n + 1) (gibIdle (some ⟨1, 3, 536870912, 532676608⟩))
      (stalled ⟨536870912, 541065216, [603979776]⟩ 3 log journal) := by
  refine .report (c := 532676608) ⟨1, 4, 1073741824⟩ (by decide)
    (b := lowBudget 541065216) (by decide)
    fun log => ?_
  simp
  refine ⟨true, _, ⟨trivial, rfl⟩, ?_⟩
  simp [retryAcceptedTargetHeld]
  refine ⟨_, _, observe_ok (t := 536870912) (a := 541065216) (c := 532676608) ⟨rfl, rfl⟩
    (by decide), ?_⟩
  simp
  refine ⟨_, _, ⟨hmay, .lost, rfl, rfl⟩, ?_⟩
  simp
  exact h _ _

/-- Once the resize to 576 MiB has taken effect, the reservation follows it. -/
theorem CanReach.released (h : ∀ m balloon log journal, CanReach gib may Q n m
      (gibWorld ⟨603979776, 469762048, [536870912]⟩ 469762048 balloon 5 log journal)) :
    CanReach gib may Q (n + 1) (gibIdle none)
      (stalled ⟨603979776, 469762048, [536870912]⟩ 4 log journal) := by
  have hnext : nextShrinkTarget 1073741824 603979776 469762048 469762048 = none := by decide
  refine .report (c := 603979776) ⟨1, 5, 67108864⟩ (by decide)
    (b := ⟨1073741824, 67108864, 603979776, 67108864,
      469762048, 469762048, 469762048, 402653184, 469762048, 603979776, 469762048⟩) (by decide)
    fun log => ?_
  simp [hnext]
  refine ⟨true, _, ⟨trivial, rfl⟩, ?_⟩
  simp [observeShrink, observeBalloon]
  refine ⟨_, _, observe_ok (t := 603979776) (a := 469762048) (c := 603979776) ⟨rfl, rfl⟩
    (by decide), ?_⟩
  simp [settleShrink, BalloonState.observedBudget, lowerHigh, applyMemoryHigh, modifyTxn]
  refine ⟨.ok (), _, ⟨⟨true, none, true, true⟩, rfl⟩, ?_⟩
  simp [releaseReservation, observeBalloon]
  refine ⟨_, _, observe_ok (t := 603979776) (a := 469762048) (c := 603979776) ⟨rfl, rfl⟩
    (by decide), ?_⟩
  simp [BalloonState.observedBudget, requestReservation, World.requestStatic, World.setReservation,
    maxUint64]
  exact h _ _ _ _

end Runs

/-! ## The reservation covers the balloon -/

/-- The reservation covers the balloon in every run in which a stalled target is
notified again only while nothing else is accepted or outstanding, and every
deflating resize and every smaller reservation was in order when it happened. -/
theorem reservation_covers_balloon {initialBudget n : Nat} {launch : Launch} {m : Controller}
    {s₀ s : World} {c : Pool World Unit}
    (hnew : newMemoryController cfg initialBudget s₀ = .ok (m, s)) (hs : Initial cfg s)
    (hc : launch.Covered cfg s)
    (h : Pool.Reach (Surroundings cfg) ⟨s, fun _ => start cfg Undisputed n m launch⟩ c) :
    budgetFromTarget cfg.capacity c.shared.ch.accepted ≤ c.shared.reservation ∧
      ∀ later e earlier, c.shared.log = later ++ e :: earlier → EventOk cfg earlier e := by
  have hi : Inv cfg ⟨True, False⟩ c.shared :=
    reach_inv (fun _ => le_rfl) hnew hs (fun _ => hc) False.elim h
  refine ⟨hi.covers trivial _ (accepted_mem_targets _), fun later e earlier heq => ?_⟩
  have hlog := hi.logged trivial
  rw [heq] at hlog
  exact hlog.event

theorem reservation_covers_balloon_inflates : ∃ c : Pool World Unit, Pool.Reach (Surroundings gib)
        ⟨gibStart 67108864, fun _ => start gib Undisputed 2 (gibNew 67108864) .cold⟩ c ∧
      budgetFromTarget gib.capacity c.shared.ch.accepted ≤ c.shared.reservation ∧
      ∃ between earlier, c.shared.log = .reserved 1073741824 1006632960 .max ::
          between ++ .resize 0 67108864 1073741824 .max :: earlier ∧
        EventOk gib (between ++ .resize 0 67108864 1073741824 .max :: earlier)
          (.reserved 1073741824 1006632960 .max) ∧
        EventOk gib earlier (.resize 0 67108864 1073741824 .max) := by
  obtain ⟨c, hc, ⟨between, earlier, heq⟩, -⟩ := gib_cycle Undisputed
  have hnew : newMemoryController gib 1006632960 { gibStart 67108864 with reservation := 0 } =
    .ok (gibNew 67108864, gibStart 67108864) := rfl
  obtain ⟨hcov, hlog⟩ := reservation_covers_balloon hnew (gibStart_initial _)
    (gibStart_covered _) hc
  exact ⟨c, hc, hcov, between, earlier, heq, hlog [] _ _ heq,
    hlog (.reserved 1073741824 1006632960 .max :: between) _ _ heq⟩

/-- Without a restriction on notifying a stalled target again, a late effect of
that notification leaves a Budget above the reservation. -/
theorem late_renotification_uncovers :
    newMemoryController gib 536870912 { gibStart 536870912 with reservation := 0 } =
      .ok (gibNew 536870912, gibStart 536870912) ∧
    Initial gib (gibStart 536870912) ∧ Launch.Covered gib .cold (gibStart 536870912) ∧
    ∃ c : Pool World Unit, Pool.Reach (Surroundings gib)
        ⟨gibStart 536870912, fun _ => start gib (fun _ _ => True) 5 (gibNew 536870912) .cold⟩ c ∧
      c.shared.reservation < budgetFromTarget gib.capacity c.shared.ch.accepted := by
  refine ⟨rfl, gibStart_initial _, gibStart_covered _, CanReach.cold (Q := fun s =>
    s.reservation < budgetFromTarget gib.capacity s.ch.accepted) (CanReach.lost fun _ _ => ?_)⟩
  refine .env (.guest _ 541065216) (.discarded fun _ _ => .sampled fun _ _ =>
    .renotified trivial fun _ _ => ?_)
  refine .env (.effect _ [] [536870912] 603979776 rfl) (.env (.guest _ 469762048) (.released
    fun _ _ _ _ => ?_))
  refine .env (.effect _ [] [] 536870912 rfl) (.here ?_)
  show 469762048 < budgetFromTarget gib.capacity 536870912
  decide

/-! ## Inflation is freshly authorized -/

/-- In every run in which a stalled target is notified again only while nothing
else is accepted or outstanding, and whose journal is orderly, every inflating
resize is freshly authorized. -/
theorem inflation_freshly_authorized {initialBudget n : Nat} {launch : Launch} {m : Controller}
    {s₀ s : World} {c : Pool World Unit}
    (hnew : newMemoryController cfg initialBudget s₀ = .ok (m, s)) (hs : Initial cfg s)
    (hsafe : ∀ t, launch = .restore t → t ≤ s.ch.accepted)
    (h : Pool.Reach (Surroundings cfg) ⟨s, fun _ => start cfg Undisputed n m launch⟩ c)
    (ho : Orderly c.shared.journal) :
    ∀ later target accepted earlier,
      c.shared.journal = later ++ .resize target accepted :: earlier → accepted < target →
      Authorized cfg target earlier := by
  have hi : Inv cfg ⟨False, True⟩ c.shared :=
    reach_inv (fun _ => le_rfl) hnew hs False.elim (fun _ => hsafe) h
  intro later target accepted earlier heq hlt
  have hj := hi.journaled trivial
  rw [heq] at hj ho
  exact Backed.authorized (hj.note hlt) (Orderly.suffix ho).2

theorem gib_cycle_orderly :
    Orderly (shrank (.decided (modest 2) 67108864 false :: .observed fullSeen ::
      .accepted (modest 2) :: grew [.decided (hungry 1) 1073741824 true, .observed partSeen,
        .accepted (hungry 1)])) := by
  refine ⟨trivial, trivial, trivial, trivial, trivial, trivial, ⟨fun _ => ?_, by decide⟩, trivial,
    trivial, trivial, trivial, trivial, trivial, trivial, ⟨nofun, by decide⟩, trivial, trivial,
    trivial⟩
  exact ⟨[.observed fullSeen], _, rfl, by decide⟩

theorem inflation_freshly_authorized_inflates : ∃ c : Pool World Unit, Pool.Reach (Surroundings gib)
        ⟨gibStart 67108864, fun _ => start gib Undisputed 2 (gibNew 67108864) .cold⟩ c ∧
      Orderly c.shared.journal ∧
      ∃ later earlier, c.shared.journal = later ++ .resize 67108864 0 :: earlier ∧
        Authorized gib 67108864 earlier := by
  obtain ⟨c, hc, -, heq⟩ := gib_cycle Undisputed
  have ho : Orderly c.shared.journal := by
    rw [heq]
    exact gib_cycle_orderly
  have hnew : newMemoryController gib 1006632960 { gibStart 67108864 with reservation := 0 } =
    .ok (gibNew 67108864, gibStart 67108864) := rfl
  exact ⟨c, hc, ho, [.finished, .observed partSeen, .observed partSeen], _, heq,
    inflation_freshly_authorized hnew
    (gibStart_initial _) (fun _ h => by cases h) hc ho
      [.finished, .observed partSeen, .observed partSeen] _ 0 _ heq (by decide)⟩

/-- An inflating resize was issued with no report accepted since a note in `p`. -/
def InflatesSince (p : Note → Bool) (journal : List Note) : Prop :=
  ∃ later target accepted earlier since n before, journal = later ++
    .resize target accepted :: earlier ∧
    accepted < target ∧ earlier = since ++ n :: before ∧ p n = true ∧ ∀ r, .accepted r ∉ since

/-- A pressure signal at full Capacity leaves a pending shrink, which a tick issues. -/
theorem full_pressure_keeps_shrink :
    newMemoryController gib 1073741824 { gibStart 0 with reservation := 0 } =
      .ok (gibNew 0, gibStart 0) ∧
    Initial gib (gibStart 0) ∧
    ∃ c : Pool World Unit, Pool.Reach (Surroundings gib)
        ⟨gibStart 0, fun _ => start gib Undisputed 3 (gibNew 0) .cold⟩ c ∧
      InflatesSince Note.isPressure c.shared.journal := by
  obtain ⟨c, hc, earlier, heq⟩ := gib_inflates Undisputed
  refine ⟨rfl, gibStart_initial 0, c, hc, [], _, _, _, [.observed ⟨0, 1073741824, 0⟩, .gate],
    .pressure true true, earlier, heq, ?_⟩
  exact ⟨by decide, rfl, rfl, by simp⟩

/-- A report that waits behind a pressure signal at full Capacity still shrinks. -/
theorem waiting_report_outlives_pressure : ∃ c : Pool World Unit, Pool.Reach (Surroundings gib)
        ⟨gibStart 67108864, fun _ => start gib Undisputed 3 (gibNew 67108864) .cold⟩ c ∧
      InflatesSince Note.isPressure c.shared.journal := by
  refine CanReach.started (Q := fun s => InflatesSince Note.isPressure s.journal)
    (.queued (hungry 1) (by decide)
    (.grown [] fun _ => .queued (modest 2) (by decide) (.pressed (.shrunk fun _ => .here ?_))))
  exact ⟨[.finished, .observed partSeen, .observed partSeen], _, _, _, [.observed fullSeen, .gate,
    .decided (modest 2) 67108864 false, .observed fullSeen], _, _, rfl, by decide, rfl, rfl, by
      simp⟩

/-- A report that waits behind a growth undoes it. -/
theorem waiting_report_outlives_growth : ∃ c : Pool World Unit, Pool.Reach (Surroundings gib)
        ⟨gibStart 67108864, fun _ => start gib Undisputed 2 (gibNew 67108864) .cold⟩ c ∧
      InflatesSince Note.ends c.shared.journal := by
  refine CanReach.started (Q := fun s => InflatesSince Note.ends s.journal)
    (.queued (hungry 1) (by decide)
    (.queued (modest 2) (by decide)
      (.grown [modest 2] fun _ => .shrunk fun _ => .here ?_)))
  exact ⟨[.finished, .observed partSeen, .observed partSeen], _, _, _, [.observed fullSeen, .gate,
    .decided (modest 2) 67108864 false, .observed fullSeen], _, _, rfl, by decide, rfl, rfl, by
      simp⟩

/-- A report that asks for the pressure floor but is superseded leaves the low
mark, and one more low report takes the balloon below the floor. -/
theorem superseded_report_leaves_mark : ∃ c : Pool World Unit, Pool.Reach (Surroundings gib)
        ⟨gibStart 67108864, fun _ => start gib Undisputed 4 (gibNew 67108864) .cold⟩ c ∧
      ∃ later target accepted earlier, c.shared.journal = later ++
        .resize target accepted :: earlier ∧
        accepted < target ∧ budgetFromTarget gib.capacity target < (pressureFloor earlier).1 := by
  refine CanReach.started (Q := fun s => ∃ later target accepted earlier,
      s.journal = later ++ .resize target accepted :: earlier ∧
        accepted < target ∧ budgetFromTarget gib.capacity target < (pressureFloor earlier).1)
    (.floored fun _ => .marked fun _ => .superseded fun _ => .cleared fun _ _ => .here ?_)
  exact ⟨[.finished, .observed partSeen, .observed partSeen], _, _, _, rfl, by decide, by decide⟩

/-! ## Reports are decided in order -/

/-- Reports are accepted by rising sequence, only they are decided, and what is queued is newer
than all that was decided. -/
theorem reports_in_order {may : Renotify} {initialBudget n : Nat} {launch : Launch}
    {m : Controller} {s₀ s : World} {c : Pool World Unit}
    (hnew : newMemoryController cfg initialBudget s₀ = .ok (m, s)) (hs : Initial cfg s)
    (h : Pool.Reach (Surroundings cfg) ⟨s, fun _ => start cfg may n m launch⟩ c) :
    Ordered c.shared := by
  have hi : Inv cfg ⟨False, False⟩ c.shared :=
    reach_inv (fun hg => hg.elim False.elim False.elim) hnew hs False.elim False.elim h
  exact hi.ordered

theorem reports_in_order_inflates : ∃ c : Pool World Unit,
      reports c.shared.journal = [modest 2, hungry 1] ∧ Ordered c.shared := by
  obtain ⟨c, hc, -, heq⟩ := gib_cycle fun _ _ => True
  have hnew : newMemoryController gib 1006632960 { gibStart 67108864 with reservation := 0 } =
    .ok (gibNew 67108864, gibStart 67108864) := rfl
  exact ⟨c, by rw [heq]; rfl, reports_in_order hnew (gibStart_initial _) hc⟩

end Sandboxer.Resctl
