import Sandboxer.Resctl.Growth

/-! # Shrink and settlement

A shrink issues its inflate, observes what the guest gave back, sets
`memory.high` for it, observes again and only then lowers the reservation. -/
namespace Sandboxer.Resctl

open Lib.Threads Lib.Threads.Routine

variable {cfg : Config} {given : Premises} {low : Nat} {f : Nat} {txn : MemoryTransaction}
    {s : World}

theorem Retained.txnOk (hk : txn.kind = .shrink)
    (h : Retained cfg given f txn s) : TxnOk cfg given f s (some txn) := by
  simpa only [TxnOk, hk] using h

/-- Changes of a transaction that a retained shrink survives. -/
theorem Retained.congr {txn' : MemoryTransaction}
    (h : Retained cfg given f txn s) (hc : txn'.targetChange = txn.targetChange)
    (ht : txn'.target = txn.target) (hb : txn'.targetBudget = txn.targetBudget)
    (hs : txn'.reportSeq = txn.reportSeq)
    (hr : txn'.targetChange = false → txn'.resizeAccepted = true)
    (hh : txn'.highApplied = true → Settled cfg s.log txn'.highBudget s.high) :
    Retained cfg given f txn' s := by
  refine ⟨h.steady, hh, hr, fun hc' => ?_, fun hc' => ?_⟩
  · rw [ht, hb, hs]
    exact h.aligned (hc.symm.trans hc')
  · rw [ht, hs]
    exact h.support (hc.symm.trans hc')

/-! ## Observing -/

/-- `s'` is `s` after `o` was observed as `b`. -/
structure Observes (cfg : Config) (o : Observation) (b : BalloonState) (s s' : World) : Prop where
  accepted : o.acceptedTarget = s.ch.accepted
  target : b.acceptedTarget = o.acceptedTarget
  current : b.currentBudget = o.currentBudget
  balloon : b.balloonCurrent = o.balloonCurrent
  targetKnown : b.acceptedTargetKnown = true
  currentKnown : b.balloonCurrentKnown = true
  ch : s'.ch = s.ch
  high : s'.high = s.high
  reservation : s'.reservation = s.reservation
  log : s'.log = .observed o :: s.log
  journal : s'.journal = .observed o :: s.journal
  reportEvents : s'.reportEvents = s.reportEvents
  known : cfg.balloon = true → s'.balloon.acceptedTargetKnown = true ∧
    s'.balloon.acceptedTarget = o.acceptedTarget

variable {t : Option MemoryTransaction}

section Observes

variable {o : Observation} {b : BalloonState} {s s' : World} (h : Observes cfg o b s s')
include h

theorem Observes.steady (hs : Steady cfg given s) : Steady cfg given s' := by
  have habove : Above given o.acceptedTarget s'.ch := by
    rw [h.ch, h.accepted]
    exact hs.rising.above
  refine ⟨h.ch ▸ hs.rising, fun hb => ?_⟩
  obtain ⟨hk, ha⟩ := h.known hb
  exact ⟨hk, ha ▸ habove⟩

theorem Observes.seen (hs : Steady cfg given s) : Seen given b s' := by
  refine ⟨h.targetKnown, h.currentKnown, ?_, ?_⟩
  · rw [h.target, h.ch, h.accepted]
    exact hs.rising.above
  · rw [h.target, h.current, h.balloon, h.log]
    exact (.head _)

theorem Observes.retained (hs : Retained cfg given f txn s) : Retained cfg given f txn s' := by
  refine ⟨h.steady hs.steady, fun ha => ?_, hs.accepted, hs.aligned, fun hc => ?_⟩
  · rw [h.log, h.high]
    exact (hs.high ha).congr rfl
  · obtain ⟨r, q, hseq, hsup⟩ := hs.support hc
    rw [h.journal]
    exact ⟨r, q, hseq, hsup.passive rfl⟩

theorem Observes.txnOk (hs : TxnOk cfg given f s t) : TxnOk cfg given f s' t := by
  cases t with
  | none => exact h.steady hs
  | some txn =>
    cases hk : txn.kind with
    | grow =>
      refine txnOk_grow hk (fun hc => ?_) fun hc => h.steady (hs.unprepared hk hc)
      have hp := hs.prepared hk hc
      refine ⟨fun hb => ?_, hp.budget, fun ha => ?_⟩
      · have hcl := hp.cleared hb
        exact ⟨h.ch ▸ hcl.applying, fun hg => h.reservation ▸ hcl.covered hg, h.ch ▸ hcl.above⟩
      · rw [h.log, h.high]
        exact (hp.raised ha).congr rfl
    | shrink =>
      simp only [TxnOk, hk] at hs ⊢
      exact h.retained hs

end Observes

variable {P : World → Prop}

theorem observeBalloon_spec
    {Q : BalloonState → World → Prop} [Lasting cfg given P] [∀ b, Lasting cfg given (Q b)]
    (hready : ∀ s, P s → TxnOk cfg given f s t)
    (h : ∀ s s' o b, Inv cfg given s → P s → Observes cfg o b s s' → Q b s') :
    Step cfg given low f t P (observeBalloon cfg) Q := by
  refine .ite (fun hb => ?_) fun hb => ?_
  · refine Spec.bind (M := fun r => At low f t fun s => (∀ b, r = .ok b → Q b s) ∧
        (∀ e, r = .error e → P s)) (Meets.calm (Sat.observe ?_ ?_)) fun r => ?_
    · intro s o hi hs hacc _
      refine ⟨fun b hb => ?_, nofun⟩
      cases hb
      exact h s _ o _ hi hs
        ⟨hacc, rfl, rfl, rfl, rfl, rfl, rfl, rfl, rfl, rfl, rfl, rfl, fun _ => ⟨rfl, rfl⟩⟩
    · exact fun s e _ hs => ⟨nofun, fun _ _ => hs⟩
    · exact Spec.ofExcept (fun b m s he _ hs => hs.imp fun h => h.1 b he)
        fun e m s he _ hs => hs.ready fun h => hready s (h.2 e he)
  · refine Meets.action fun m s b s' hi hs hk hstep => ?_
    cases hstep
    refine ⟨⟨hi.covers, fun hg => ⟨trivial, hi.logged hg⟩, hi.noDevice,
      fun hl => ⟨trivial, hi.journaled hl⟩, hi.ordered.note rfl rfl rfl rfl rfl⟩,
      hk.note rfl rfl, ?_⟩
    have hno := hi.noDevice (Bool.eq_false_iff.2 hb)
    exact h s _ _ _ hi hs
      ⟨hno.1.symm, rfl, rfl, rfl, rfl, rfl, rfl, rfl, rfl, rfl, rfl, rfl, fun hd => absurd hd hb⟩

/-! ## Finishing -/

/-- A shrink ends with the fence at the newest report. -/
theorem finishShrink_spec [Lasting cfg given P] (hnote : ∀ s, P s → P (s.note .finished)) :
    Meets cfg given low (At low f (some txn) P) (finishShrink txn) fun _ m s => ∃ f', At low f' none
      P m s := by
  refine .ite (fun _ => ?_) fun _ =>
    Meets.dropTxn.map fun _ m s _ hs => ⟨f, hs⟩
  refine .bind (M := fun q m s => (m.pressureLowSeq = low ∧ m.normalizationPending = false) ∧
      Kept { m with shrinkReportFence := q } s.journal ∧ P s)
    (.lift fun m => .exec ?_) fun q => .modify fun m s _ hs => ?_
  · intro s hi hs
    refine ⟨hi.note rfl trivial, trivial, ⟨hs.low, hs.running⟩,
      ⟨fun r hr hlt => ?_, hs.kept.floor, hs.kept.low⟩, hnote s hs.here⟩
    have hmem : .accepted r ∈ s.journal := by simpa [World.note] using hr
    exact absurd (hi.ordered.le_seq hmem) (not_le.2 hlt)
  · obtain ⟨hn, hkept, hp⟩ := hs
    refine ⟨_, hn.1, hn.2, rfl, rfl, ⟨fun r hr hlt => hkept.fence r hr ?_, hkept.floor, hkept.low⟩,
      hp⟩
    refine lt_of_le_of_lt ?_ (lt_of_le_of_lt (Nat.le_max_right ..) hlt)
    show q ≤ _
    split <;> omega

theorem finishShrink_ready (hP : ∀ s, P s → Steady cfg given s) :
    Meets cfg given low (At low f (some txn) P) (finishShrink txn) fun _ => Ready cfg given
      low := by
  refine .map (.pre (finishShrink_spec fun s hs => ?_) fun m s _ hs => hs.imp (hP s))
    fun _ m s _ hs => ?_
  · exact ⟨hs.rising, hs.known⟩
  · obtain ⟨f', hs⟩ := hs
    exact hs.ready fun h => h

/-! ## The inflate -/

variable {s' : World}

/-- A shrink with its report the newest one at the gate. -/
structure Issuing (cfg : Config) (given : Premises) (f : Nat) (txn : MemoryTransaction)
    (r : MemReport) (q : Nat) (s : World) : Prop where
  retained : Retained cfg given f txn s
  support : Support cfg given txn.target r q s.journal
  gated : Gated r q s.journal
  accepted : .accepted r ∈ s.journal

variable {r : MemReport} {q : Nat}

instance Issuing.lasting : Lasting cfg given (Issuing cfg given f txn r q) :=
  ⟨fun s s' hi hi' hs hr =>
  ⟨hs.retained.rely hr, hr.reading Heard.arrival hs.support, hr.reading Heard.arrival hs.gated,
    (mem_lasting _).stable s s' hi hi' hs.accepted hr⟩⟩

theorem Retained.setDesired (h : Retained cfg given f txn s) (target : Nat) :
    Retained cfg given f txn (s.setDesired target) :=
  { h with steady := ⟨h.steady.rising, h.steady.known⟩ }

theorem inflate_spec (hb : cfg.balloon = true) (hc : txn.targetChange = true)
    (hseq : r.seq = txn.reportSeq) :
    Step cfg given low f (some txn)
    (fun s => Issuing cfg given f txn r q s ∧ s.balloon.desiredTarget = txn.target)
      (Routine.lift (applyShrinkDesiredHeld cfg txn.shrinkObservation))
      fun res s => Retained cfg given f txn s ∧ (res.2 = .ok () → Seen given res.1 s) := by
  -- the fence puts the report after every finished target change
  refine Spec.pre (S := fun m s => At low f (some txn) (fun s =>
      (Shrinking cfg given txn.target r q s ∧ Gated r q s.journal ∧
        Since (.accepted r) Note.isFinished s.journal ∧ s.balloon.desiredTarget = txn.target) ∧
      (txn.highApplied = true → Settled cfg s.log txn.highBudget s.high)) m s ∧
      (memoryStep ∣ txn.target ∧ txn.targetBudget = budgetFromTarget cfg.capacity txn.target ∧
        f < txn.reportSeq)) (Spec.fact fun hal => ?_) fun m s _ hs => ?_
  · refine Spec.map
      (Meets.calm (Sat.frame (applyShrinkDesiredHeld_spec hb hal.1) fun s s' _ hcalm hs ha =>
        hcalm.high.symm ▸ (hs ha).congr hcalm.lastHigh))
      fun res m s _ hs => hs.imp fun h => ⟨?_, h.1.2⟩
    refine ⟨h.1.1.steady, h.2, fun hc' => ?_, fun _ => hal, fun _ => ⟨r, q, hseq, h.1.1.support⟩⟩
    rw [hc] at hc'
    cases hc'
  · obtain ⟨hi, hd⟩ := hs.here
    have hal := hi.retained.aligned hc
    have hsince := hs.kept.fence r hi.accepted (by rw [hs.fence, hseq]; exact hal.2.2)
    exact ⟨hs.imp fun _ => ⟨⟨⟨hi.retained.steady, hi.support⟩, hi.gated, hsince, hd⟩,
      hi.retained.high⟩, hal⟩

/-- What the first part of a shrink leaves: a discarded candidate, or a state observed. -/
def Observed (cfg : Config) (given : Premises) (low f : Nat) (res : Option BalloonState)
    (m : Controller) (s : World) : Prop :=
  match res with
  | none => ∃ f', At low f' none (Steady cfg given) m s
  | some b => ∃ txn, txn.kind = .shrink ∧
      At low f (some txn) (fun s => Retained cfg given f txn s ∧ Seen given b s) m s

theorem observed_spec (hk : txn.kind = .shrink) :
    Step cfg given low f (some txn) (Retained cfg given f txn) (observeBalloon cfg)
      fun b s => Retained cfg given f txn s ∧ Seen given b s :=
  observeBalloon_spec (fun _ hs => hs.txnOk hk) fun _ _ _ _ _ hs ho =>
    ⟨ho.retained hs, ho.seen hs.steady⟩

/-- The inflate of a shrink whose report was the newest at the gate. -/
theorem issueShrink_spec (hk : txn.kind = .shrink) (hc : txn.targetChange = true)
    (hseq : r.seq = txn.reportSeq) :
    Meets cfg given low (At low f (some txn) (Issuing cfg given f txn r q)) (issueShrink cfg txn)
      (Observed cfg given low f) := by
  -- the confirmed inflate, or the observation without a device, is recorded in the transaction
  have haccept : ∀ b, Meets cfg given low
      (At low f (some txn) fun s => Retained cfg given f txn s ∧ Seen given b s)
      (do modifyTxn fun t => { t with resizeAccepted := true }
          pure (some b)) (Observed cfg given low f) := by
    intro b
    refine Spec.bind (Meets.modifyTxn) fun _ =>
      Spec.pure fun m s _ hs => ⟨{ txn with resizeAccepted := true }, hk, hs.imp fun h => ⟨?_, h.2⟩⟩
    exact h.1.congr rfl rfl rfl rfl (fun _ => rfl) h.1.high
  refine Spec.ite (fun hb => ?_) fun hb => ?_
  · refine .bind (setDesired_spec (fun s hs => { hs with retained := hs.retained.setDesired _ })
      fun s hs => hs.retained.txnOk hk) fun _ => ?_
    refine .bind (inflate_spec hb hc hseq) fun res => ?_
    refine .bind Meets.record fun _ => ?_
    split
    · refine .pre ?_
        fun m s _ hs => hs.imp fun h => h.1
      refine .bind (setDesired_spec (fun s hs => hs.setDesired _) fun s hs => hs.txnOk hk) fun _ =>
        ?_
      refine .bind ?_ fun _ =>
        Spec.pure fun m s _ hs => hs
      exact .pre (finishShrink_spec fun s hs => ⟨hs.rising, hs.known⟩)
        fun m s _ hs => hs.imp fun h => h.1.steady
    · exact .fail fun m s _ hs => hs.ready fun h => h.1.txnOk hk
    next hres => exact .pre (haccept res.1) fun m s _ hs => hs.imp fun h => ⟨h.1, h.2 hres⟩
  · refine .bind (M := fun b => At low f (some txn) fun s =>
      Retained cfg given f txn s ∧ Seen given b s) ?_ fun b => ?_
    · have hsyn : Step cfg given low f (some txn) (Retained cfg given f txn)
          (observeBalloon cfg) _ := observed_spec hk
      rw [observeBalloon, if_neg hb] at hsyn
      exact .pre hsyn fun m s _ hs => hs.imp fun h => h.retained
    · refine .bind
        Meets.record fun _ => ?_
      exact .ite (fun _ => .fail fun m s _ hs => hs.ready fun h => h.1.txnOk hk)
        fun _ => haccept b

/-- An accepted target is observed again. -/
theorem observeShrink_spec (hk : txn.kind = .shrink) :
    Meets cfg given low (At low f (some txn) (Retained cfg given f txn)) (observeShrink cfg txn)
      (Observed cfg given low f) := by
  refine Spec.bind (observed_spec hk) fun b => ?_
  refine Spec.bind
    Meets.record fun _ => ?_
  refine .ite (fun hch => ?_) fun _ => .pure fun m s _ hs => ⟨txn, hk, hs⟩
  simp only [Bool.and_eq_true] at hch
  refine Spec.bind (Meets.modifyTxn) fun _ =>
    Spec.fail fun m s _ hs => hs.ready fun h => ?_
  refine Retained.txnOk hk (h.1.congr rfl rfl rfl rfl (fun hc => ?_) h.1.high)
  rw [show txn.targetChange = false from hc] at hch
  cases hch.1

/-! ## memory.high and the reservation -/

theorem Retained.enforce (h : Retained cfg given f txn s) (hh : txn.highApplied = false)
    (high : High) (log : List Event) : Retained cfg given f txn { s with high, log } :=
  { h with steady := ⟨h.steady.rising, h.steady.known⟩, high :=
    fun ha => (by rw [hh] at ha; cases ha) }

/-- A repair raises `memory.high` and keeps the shrink. -/
theorem repairHigh_spec {reservation : Nat} {state confirmed : BalloonState}
    (hk : txn.kind = .shrink) (Q : Unit → Controller → World → Prop) :
    Meets cfg given low (At low f (some txn) (Retained cfg given f txn))
      (repairHigh cfg txn state confirmed reservation) Q := by
  refine Spec.bind (Meets.modifyTxn) fun _ => ?_
  have hrepaired : ∀ txn' : MemoryTransaction, txn'.kind = .shrink → txn'.highApplied = false →
      ∀ b d (reason : Except Failure Unit → Failure), Meets cfg given low
        (At low f (some txn') (Retained cfg given f txn'))
        (do let repair ← Routine.attempt (applyMemoryHigh cfg b d true)
            Routine.fail (reason repair)) Q := by
    intro txn' hk' hh b d reason
    refine .bind (.attempt (applyMemoryHigh_spec
      (fun s hs => hs.txnOk hk') fun s high log _ hs => hs.enforce hh high log) ?_
      fun _ m s _ hs => hs) fun _ => .fail fun m s _ hs => hs
    exact fun _ m s _ hs => hs.ready fun h => h.1.txnOk hk'
  refine .pre (hrepaired _ ?_ ?_ _ _ _) fun m s _ hs => hs.imp fun h => ?_
  · split <;> exact hk
  · split <;> rfl
  · split
    all_goals exact h.congr rfl rfl rfl rfl h.accepted nofun

/-- The shrink without what its last enforcement of `memory.high` left. -/
theorem Retained.forget
    (h : Retained cfg given f txn s) : Retained cfg given f { txn with highApplied := false } s :=
  h.congr rfl rfl rfl rfl h.accepted nofun

variable {budget : Nat} {b : BalloonState}

theorem lowerHigh_spec {r : Nat} (hk : txn.kind = .shrink) : Meets cfg given low
      (At low f (some txn) fun s => Retained cfg given f txn s ∧ Seen given b s ∧ s.reservation = r)
      (lowerHigh cfg txn budget)
      fun _ => At low f (some { txn with highApplied := true, highBudget := budget }) fun s =>
        Retained cfg given f { txn with highApplied := true, highBudget := budget } s ∧
          Seen given b s ∧ s.reservation = r := by
  refine .ite (fun _ => ?_) fun hskip => .pure fun m s _ hs => ?_
  · refine .bind (applyMemoryHigh_spec
      (Q := fun s => Retained cfg given f { txn with highApplied := false } s ∧ Seen given b s ∧
        s.reservation = r)
      (fun s hs => hs.1.txnOk hk) fun s high log hsuf hs => ?_) fun _ => ?_
    · exact ⟨hs.1.forget.enforce rfl high log, ⟨hs.2.1.1, hs.2.1.2.1, hs.2.1.2.2.1,
        hsuf.subset hs.2.1.2.2.2⟩, hs.2.2⟩
    · refine Spec.map (Meets.modifyTxn)
        fun _ m s _ hs => hs.imp fun h => ⟨?_, h.1.2⟩
      exact h.1.1.congr rfl rfl rfl rfl h.1.1.accepted fun _ => h.2
  · have heq : { txn with highApplied := true, highBudget := budget } = txn := by
      cases txn
      simp_all
    rw [heq]
    exact hs

theorem BalloonState.observedBudget_eq (ht : b.acceptedTargetKnown = true)
    (hc : b.balloonCurrentKnown = true) (capacity : Nat) : b.observedBudget capacity = some
      (Observation.budget { b with } capacity) := by
  simp only [BalloonState.observedBudget, ht, hc, Observation.budget]
  simp only [Bool.not_true, Bool.or_self, Bool.false_eq_true, if_false]
  congr 1
  split <;> omega

/-- The reservation may be lowered to `budget`. -/
structure Lowerable (cfg : Config) (given : Premises) (budget : Nat) (s : World) : Prop where
  covered : given.covered → ∀ t ∈ s.ch.targets, budgetFromTarget cfg.capacity t ≤ budget
  reserved : ReservedOk cfg s.reservation budget s.high s.log

instance Lowerable.lasting : Lasting cfg given (Lowerable cfg given budget) := by
  refine ⟨fun _ _ _ _ h hr => ?_⟩
  refine ⟨fun hg t ht => h.covered hg t (hr.targets.subset ht), ?_⟩
  rw [hr.reservation, hr.high, hr.log]
  exact h.reserved

theorem Inv.setReservation (hi : Inv cfg given s)
    (h : Lowerable cfg given budget s) : Inv cfg given (s.setReservation budget) :=
  { hi with covers := h.covered, logged := fun hg => ⟨h.reserved, hi.logged hg⟩, ordered :=
    { hi.ordered with } }

theorem Retained.setReservation
    (h : Retained cfg given f txn s) (n : Nat) : Retained cfg given f txn (s.setReservation n) :=
  { h with steady := ⟨h.steady.rising, h.steady.known⟩, high := fun ha => (h.high ha).congr rfl }

theorem Retained.disconnect (h : Retained cfg given f txn s) :
    Retained cfg given f txn s.disconnect :=
  { h with steady := ⟨h.steady.rising, h.steady.known⟩ }

variable {req : BudgetRequest}

/-- Whatever the answer, a shrink commit only ever lowers to its own baseline. -/
theorem requestBudget_shrink (hdelta : req.requestedDelta = 0)
    {answer : Option BudgetGrant} {res : Except Failure BudgetGrant}
    (h : (res, s') = s.requestBudget cfg answer req) :
    s' = s ∨ s' = s.disconnect ∨ s' = s.setReservation req.currentAlloc ∨
      s' = (s.setReservation req.currentAlloc).disconnect := by
  have hbase : s.keepBaseline req = s ∨ s.keepBaseline req = s.setReservation req.currentAlloc := by
    simp only [World.keepBaseline]
    split
    · exact .inr rfl
    · exact .inl rfl
  have hdis : (s.keepBaseline req).disconnect = s.disconnect ∨
      (s.keepBaseline req).disconnect = (s.setReservation req.currentAlloc).disconnect :=
    hbase.imp (congrArg World.disconnect) (congrArg World.disconnect)
  simp only [World.requestBudget] at h
  split at h
  · cases h
    exact .inl rfl
  split at h
  · cases h
    exact .inr (hdis.imp id .inr)
  next g =>
    split at h
    · cases h
      exact .inr (hdis.imp id .inr)
    next hok =>
      cases h
      have hnew : g.newReservation = req.currentAlloc := by
        omega
      exact .inr (.inr (.inl (by rw [hnew])))

theorem requestStatic_shrink (hdelta : req.requestedDelta = 0) {res : Except Failure BudgetGrant}
    (h : (res, s') = s.requestStatic cfg req) :
    s' = s ∨ s' = s.setReservation req.currentAlloc := by
  simp only [World.requestStatic, hdelta, Nat.add_zero] at h
  split at h
  · cases h
    exact .inl rfl
  split at h
  · cases h
    exact .inl rfl
  · cases h
    exact .inr rfl

theorem requestReservation_shrink (hk : txn.kind = .shrink) (hdelta : req.requestedDelta = 0) :
    Step cfg given low f (some txn)
    (fun s => Retained cfg given f txn s ∧ Lowerable cfg given req.currentAlloc s)
      (requestReservation cfg req) fun _ => Retained cfg given f txn := by
  have hpost : ∀ res : Except Failure BudgetGrant, Step cfg given low f (some txn)
      (Retained cfg given f txn)
      (.ofExcept res) fun _ => Retained cfg given f txn := fun res =>
    Spec.ofExcept (fun g m s _ _ hs => hs) fun e m s _ _ hs => hs.ready fun h => h.txnOk hk
  refine Spec.ite (fun _ => ?_) fun _ => ?_
  · refine Spec.bind (Meets.action ?_) hpost
    intro m s res s' hi hs hkept hstep
    obtain ⟨answer, hans⟩ := hstep
    rcases requestBudget_shrink hdelta hans with rfl | rfl | rfl | rfl
    · exact ⟨hi, hkept, hs.1⟩
    · exact ⟨hi.disconnect, hkept, hs.1.disconnect⟩
    · exact ⟨hi.setReservation hs.2, hkept, hs.1.setReservation _⟩
    · exact ⟨(hi.setReservation hs.2).disconnect, hkept, (hs.1.setReservation _).disconnect⟩
  · refine Spec.bind (Meets.action ?_) hpost
    intro m s res s' hi hs hkept hstep
    rcases requestStatic_shrink hdelta hstep with rfl | rfl
    · exact ⟨hi, hkept, hs.1⟩
    · exact ⟨hi.setReservation hs.2, hkept, hs.1.setReservation _⟩

/-- What the observation `c` after `b` makes of the reservation. -/
abbrev Confirming (cfg : Config) (given : Premises) (f : Nat) (txn : MemoryTransaction)
    (budget : Nat) (b c : BalloonState) (s : World) : Prop :=
  Retained cfg given f txn s ∧ (c.acceptedTarget = b.acceptedTarget →
    (∀ n, c.observedBudget cfg.capacity = some n → n ≤ budget) →
      c.observedBudget cfg.capacity ≠ none →
    Lowerable cfg given budget s)

/-- The second observation confirms the Budget the reservation is lowered to. -/
theorem releaseReservation_spec {r : Nat}
    (hk : txn.kind = .shrink) (hh : txn.highApplied = true) (hhb : txn.highBudget = budget)
    (hb : b.observedBudget cfg.capacity = some budget) : Meets cfg given low
      (At low f (some txn) fun s => Retained cfg given f txn s ∧ Seen given b s ∧ s.reservation = r)
      (releaseReservation cfg txn b budget r) fun _ => Ready cfg given low := by
  -- the confirming observation is the latest event
  refine .bind
    (observeBalloon_spec (Q := Confirming cfg given f txn budget b) (fun s hs => hs.1.txnOk hk) ?_)
    fun c => ?_
  · intro s s' o c _ hs ho
    refine ⟨ho.retained hs.1, fun hacc hle _ => ?_⟩
    have hseen := hs.2.1
    rw [BalloonState.observedBudget_eq hseen.1 hseen.2.1] at hb
    have hbudget := Option.some.inj hb
    have hconf := hle _ (BalloonState.observedBudget_eq ho.targetKnown ho.currentKnown _)
    rw [ho.target, ho.current, ho.balloon] at hconf
    refine ⟨fun hg t ht => ?_,
      fun _ => ⟨_, o, s.log, ho.log, hseen.2.2.2, hbudget.symm, ?_, ?_, hconf⟩⟩
    · rw [ho.ch] at ht
      have hle : budgetFromTarget cfg.capacity t ≤ budgetFromTarget cfg.capacity b.acceptedTarget :=
        budgetFromTarget_anti (hseen.2.2.1 (.inl hg) t ht)
      exact (hle.trans (Nat.le_max_left ..)).trans (le_of_eq hbudget)
    · rw [ho.high, ← hhb]
      exact hs.1.high hh
    · exact ho.target.symm.trans hacc
  refine .bind Meets.record fun _ => ?_
  refine .ite (fun _ => ?_) fun hsame => ?_
  · exact .pre (repairHigh_spec hk _) fun m s _ hs => hs.imp fun h => h.1
  simp only [Bool.or_eq_true, decide_eq_true_eq, not_or, Decidable.not_not] at hsame
  refine .pre (S := At low f (some txn) fun s => Retained cfg given f txn s ∧
    Lowerable cfg given budget s) ?_ fun m s _ hs => hs.imp fun h => ⟨h.1, h.2 hsame.2 ?_ ?_⟩
  · refine .bind shrinkReportSuperseded_keeps fun late => ?_
    refine .ite (fun _ => .pure fun m s _ hs => hs.ready fun h => h.1.txnOk hk) fun _ => ?_
    refine .bind (.pre (requestReservation_shrink hk rfl) fun _ _ _ hs => hs) fun g => ?_
    refine .ite (fun _ => .fail fun m s _ hs => hs.ready fun h => h.txnOk hk) fun _ => ?_
    exact finishShrink_ready fun s hs => hs.steady
  · intro n hn
    have := hsame.1
    rw [hn] at this
    simpa using this
  · intro hn
    have := hsame.1
    rw [hn] at this
    exact this rfl

/-! ## A shrink from gate to settlement -/

theorem settleShrink_spec (hk : txn.kind = .shrink) :
    Meets cfg given low (At low f (some txn) fun s => Retained cfg given f txn s ∧ Seen given b s)
      (settleShrink cfg b) fun _ => Ready cfg given low := by
  refine .get fun m hm _ => ?_
  rw [hm]
  cases hb : b.observedBudget cfg.capacity with
  | none => exact .fail fun m s _ hs => hs.ready fun h => h.1.txnOk hk
  | some budget =>
    refine .ite (fun _ => .fail fun m s _ hs => hs.ready fun h => h.1.txnOk hk) fun _ => ?_
    refine .bind reservationNow_spec fun r => ?_
    refine .ite (fun _ => finishShrink_ready fun s hs => hs.1.1.steady) fun _ => ?_
    refine .bind shrinkReportSuperseded_keeps fun late => ?_
    refine .ite (fun _ => .pure fun m s _ hs => hs.ready fun h => h.1.1.txnOk hk) fun _ => ?_
    refine .bind (.pre (lowerHigh_spec hk)
      fun m s _ hs => hs.imp fun h => ⟨h.1.1, h.1.2, h.2⟩) fun _ => ?_
    refine .ite (fun _ => releaseReservation_spec hk rfl rfl hb) fun _ => ?_
    exact finishShrink_ready fun s hs => hs.1.steady

/-- At the gate, an unsuperseded report is the newest accepted one. -/
theorem gated_of_seq (ho : Ordered s)
    (ha : .accepted r ∈ beforeGate s.journal) (hd : .decided r q false ∈ beforeGate s.journal)
    (hle : s.reportSeq ≤ r.seq) : Gated r q s.journal := by
  refine ⟨?_, hd⟩
  have hsuf := beforeGate_suffix s.journal
  have hmem := mem_reports.2 ha
  cases hl : reports (beforeGate s.journal) with
  | nil => rw [hl] at hmem; cases hmem
  | cons a l =>
    have haj : .accepted a ∈ s.journal := hsuf.subset (mem_reports.1 (by rw [hl]; exact (.head _)))
    have hsorted : (reports (beforeGate s.journal)).Pairwise fun a b => b.seq < a.seq :=
      ho.sorted.sublist (hsuf.sublist.filterMap _)
    rw [hl] at hmem hsorted
    rcases List.mem_cons.1 hmem with rfl | hmem
    · rfl
    · have hlt := (List.pairwise_cons.1 hsorted).1 r hmem
      exact absurd (ho.le_seq haj) (by omega)

/-- A retained shrink with its report, before and after the gate is taken. -/
structure Standing (cfg : Config) (given : Premises) (f : Nat) (txn : MemoryTransaction)
    (r : MemReport) (q : Nat) (journal : World → List Note) (s : World) : Prop where
  retained : Retained cfg given f txn s
  support : Support cfg given txn.target r q s.journal
  accepted : .accepted r ∈ journal s
  decided : .decided r q false ∈ journal s

instance Standing.lasting : Lasting cfg given (Standing cfg given f txn r q (·.journal)) :=
  ⟨fun s s' hi hi' hs hr =>
  ⟨hs.retained.rely hr, hr.reading Heard.arrival hs.support,
    (mem_lasting _).stable s s' hi hi' hs.accepted hr,
      (mem_lasting _).stable s s' hi hi' hs.decided hr⟩⟩

instance Standing.gate_lasting :
    Lasting cfg given (Standing cfg given f txn r q (beforeGate ·.journal)) :=
  ⟨fun _ _ _ _ hs hr => ⟨hs.retained.rely hr, hr.reading Heard.arrival hs.support,
    hr.reading (p := fun j => .accepted r ∈ beforeGate j) (fun _ _ hj => hj) hs.accepted,
    hr.reading (p := fun j => .decided r q false ∈ beforeGate j) (fun _ _ hj => hj) hs.decided⟩⟩

theorem Retained.standing (h : Retained cfg given f txn s) (hc : txn.targetChange = true)
    (ho : Ordered s) :
    ∃ rq : MemReport × Nat, rq.1.seq = txn.reportSeq ∧ Standing cfg given f txn rq.1 rq.2
    (·.journal) s := by
  obtain ⟨r, q, hseq, hsup⟩ := h.support hc
  exact ⟨(r, q), hseq, h, hsup, ho.decided r q _ hsup.mem, hsup.mem⟩

theorem Retained.note {n : Note} (h : Retained cfg given f txn s)
    (hn : ∀ t r q, Support cfg given t r q s.journal → Support cfg given t r q (n :: s.journal)) :
    Retained cfg given f txn (s.note n) := by
  refine { h with steady := ⟨h.steady.rising, h.steady.known⟩, support := fun hc => ?_ }
  obtain ⟨r, q, hseq, hsup⟩ := h.support hc
  exact ⟨r, q, hseq, hn _ r q hsup⟩

/-- A shrink keeps what holds between two steps of a transaction. -/
theorem advanceShrink_spec (hk : txn.kind = .shrink) :
    Meets cfg given low (At low f (some txn) (Retained cfg given f txn)) (advanceShrink cfg txn)
      fun _ => Ready cfg given low := by
  have hsettle : ∀ res, Meets cfg given low (Observed cfg given low f res)
      (match res with
        | none => pure ()
        | some state => settleShrink cfg state) fun _ => Ready cfg given low := by
    intro res
    cases res with
    | none =>
      refine .pure fun m s _ hs => ?_
      obtain ⟨f', hs⟩ := hs
      exact hs.ready fun h => h
    | some b => exact .exists fun txn' => fun m =>
        (Sat.fact fun hk' => settleShrink_spec hk' m).pre fun s _ hs => ⟨hs.2, hs.1⟩
  have hret : ∀ s, Retained cfg given f txn s → TxnOk cfg given f s (some txn) :=
    fun s hs => hs.txnOk hk
  refine .bind shrinkReportSuperseded_keeps fun late => ?_
  refine .ite (fun _ => .pure fun m s _ hs => hs.ready (hret s)) fun _ => ?_
  by_cases hr : txn.resizeAccepted = true
  · -- settlement does not depend on the gate
    refine .bind (acquireMutation_spec hret
      fun s hs => hs.note fun _ _ _ h => h.passive rfl) fun _ => ?_
    refine .bind shrinkReportSuperseded_keeps fun late => ?_
    refine .ite (fun _ => .pure fun m s _ hs => hs.ready (hret s)) fun _ => ?_
    rw [if_pos hr]
    exact .bind (observeShrink_spec hk) hsettle
  by_cases hc : txn.targetChange = true
  · refine .pre (S := fun m s => ∃ rq : MemReport × Nat,
        At low f (some txn) (Standing cfg given f txn rq.1 rq.2 (·.journal)) m s ∧
          rq.1.seq = txn.reportSeq) (.exists fun rq => .fact fun hseq => ?_)
      fun m s hi hs => ?_
    · refine .bind (acquireMutation_spec
        (Q := Standing cfg given f txn rq.1 rq.2 (beforeGate ·.journal))
        (fun s hs => hret s hs.retained) fun s hs =>
          ⟨hs.retained.note fun _ _ _ h => h.passive rfl, hs.support.passive rfl, hs.accepted,
            hs.decided⟩) fun _ => ?_
      refine .bind (shrinkReportSuperseded_spec (Q := Issuing cfg given f txn rq.1 rq.2)
        fun s hi hs hle => ?_) fun late => ?_
      · exact { hs with
          gated := gated_of_seq hi.ordered hs.accepted hs.decided (hseq ▸ hle)
          accepted := (beforeGate_suffix s.journal).subset hs.accepted }
      refine .ite (fun _ => .pure fun m s _ hs => hs.ready fun h => hret s h.1.retained)
        fun hlate => ?_
      rw [if_neg hr]
      exact .bind (.pre (issueShrink_spec hk hc hseq) fun m s _ hs => hs.imp fun h =>
        h.2 (Bool.eq_false_iff.2 hlate)) hsettle
    · obtain ⟨rq, hseq, hst⟩ := hs.here.standing hc hi.ordered
      exact ⟨rq, hs.imp fun _ => hst, hseq⟩
  · intro m
    exact .of_false fun s hs => hr (hs.here.accepted (Bool.eq_false_iff.2 hc))

/-- Whatever the transaction, one step of it keeps what holds between steps. -/
theorem advanceTransaction_spec :
    Meets cfg given low (At low f t fun s => TxnOk cfg given f s t) (advanceTransaction cfg)
      fun _ => Ready cfg given low := by
  cases t with
  | none =>
    refine .get fun m hm _ => ?_
    simp only [hm]
    exact .pure fun m s _ hs => hs.ready fun h => h
  | some txn =>
    cases hk : txn.kind with
    | grow => exact (advanceTransaction_grow hk).map fun _ _ _ _ hs => hs.ready
    | shrink =>
      refine .get fun m hm _ => ?_
      simp only [hm, hk]
      refine .pre (advanceShrink_spec hk) fun m s _ hs => hs.imp fun h => ?_
      simpa only [TxnOk, hk] using h

end Sandboxer.Resctl
