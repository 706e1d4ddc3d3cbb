import Sandboxer.Resctl.Transactions

/-! # Growth

A growth reserves first, prepares the part of the grant that a target can
represent, raises `memory.high` for it and only then deflates. A prepared target
is kept until `vm.info` confirms it. -/
namespace Sandboxer.Resctl

open Lib.Threads Lib.Threads.Routine

variable {cfg : Config} {given : Premises} {low : Nat}

/-! ## Stability -/

variable {txn : MemoryTransaction} {s s' : World}

theorem Prepared.rely (h : Rely s s') (hp : Prepared cfg given txn s) :
    Prepared cfg given txn s' := by
  refine ⟨fun hb => (hp.cleared hb).rely h, hp.budget, fun ha => ?_⟩
  rw [h.log, h.high]
  exact hp.raised ha

variable {f : Nat}

theorem Retained.rely (h : Rely s s') (hp : Retained cfg given f txn s) :
    Retained cfg given f txn s' := by
  refine ⟨hp.steady.rely h, fun ha => ?_, hp.accepted, hp.aligned, fun hc => ?_⟩
  · rw [h.log, h.high]
    exact hp.high ha
  · obtain ⟨r, q, hseq, hsup⟩ := hp.support hc
    exact ⟨r, q, hseq, h.reading Heard.arrival hsup⟩

variable {t : Option MemoryTransaction}

theorem TxnOk.rely (h : Rely s s') (ht : TxnOk cfg given f s t) : TxnOk cfg given f s' t := by
  cases t with
  | none => exact .rely h ht
  | some txn =>
    simp only [TxnOk] at ht ⊢
    cases hk : txn.kind with
    | grow =>
      simp only [hk] at ht ⊢
      split
      next hc =>
        rw [if_pos hc] at ht
        exact ht.rely h
      next hc =>
        rw [if_neg hc] at ht
        exact ht.rely h
    | shrink =>
      simp only [hk] at ht ⊢
      exact ht.rely h

instance TxnOk.lasting : Lasting cfg given fun s => TxnOk cfg given f s t :=
  ⟨fun _ _ _ _ h hr => .rely hr h⟩

instance Prepared.lasting : Lasting cfg given (Prepared cfg given txn) :=
  ⟨fun _ _ _ _ h hr => h.rely hr⟩

instance Retained.lasting : Lasting cfg given (Retained cfg given f txn) :=
  ⟨fun _ _ _ _ h hr => h.rely hr⟩

variable {b : Nat}

theorem Raised.calm (h : Calm s s') (hr : Raised cfg s.log b s.high) :
    Raised cfg s'.log b s'.high := by
  rw [h.high]
  exact hr.congr h.lastHigh

section

variable (hk : txn.kind = .grow)

include hk

theorem txnOk_grow (h : txn.targetChange = true → Prepared cfg given txn s)
    (h' : txn.targetChange = false → Steady cfg given s) : TxnOk cfg given f s (some txn) := by
  simp only [TxnOk, hk]
  split
  · exact h ‹_›
  · exact h' (Bool.eq_false_iff.2 ‹_›)

theorem TxnOk.prepared (hc : txn.targetChange = true) (h : TxnOk cfg given f s (some txn)) :
    Prepared cfg given txn s := by
  simpa only [TxnOk, hk, hc, if_true] using h

theorem TxnOk.unprepared (hc : txn.targetChange = false) (h : TxnOk cfg given f s (some txn)) :
    Steady cfg given s := by
  simpa only [TxnOk, hk, hc, Bool.false_eq_true, if_false] using h

theorem Prepared.txnOk (hc : txn.targetChange = true) (h : Prepared cfg given txn s) :
    TxnOk cfg given f s (some txn) :=
  txnOk_grow hk (fun _ => h) fun hc' => nomatch hc.symm.trans hc'

theorem Steady.txnOk (hc : txn.targetChange = false) (h : Steady cfg given s) :
    TxnOk cfg given f s (some txn) :=
  txnOk_grow hk (fun hc' => nomatch hc.symm.trans hc') fun _ => h

end

/-- A growth, or nothing, is what is left of a growth. -/
structure Grown (cfg : Config) (given : Premises) (low : Nat) (m : Controller) (s : World) :
    Prop where
  ready : Ready cfg given low m s
  grow : given.tracked → ∀ txn, m.txn = some txn → txn.kind = .grow

variable {P : World → Prop}

theorem At.grown {m : Controller} (h : At low f t P m s) (hp : P s → TxnOk cfg given f s t)
    (hk : ∀ txn, t = some txn → txn.kind = .grow) : Grown cfg given low m s :=
  ⟨h.ready hp, fun _ txn ht => hk txn (h.txn.symm.trans ht)⟩

/-! ## The accepted target -/

/-- `b` is the Budget of a target below everything the VMM holds. -/
def TargetBudget (cfg : Config) (given : Premises) (b : Nat) (s : World) : Prop :=
  cfg.balloon = true → ∃ x, b = budgetFromTarget cfg.capacity x ∧ Above given x s.ch ∧
    (given.tracked → x ≤ s.balloon.acceptedTarget)

instance TargetBudget.lasting : Lasting cfg given (TargetBudget cfg given b) := by
  refine ⟨fun s _ _ _ hb h hd => ?_⟩
  obtain ⟨x, hx, habove, hle⟩ := hb hd
  refine ⟨x, hx, habove.sublist h.targets, fun hg => ?_⟩
  rcases h.accepted with ⟨-, ha⟩ | ⟨-, ha⟩
  · rw [ha]
    exact hle hg
  · rw [ha]
    exact habove hg _ (accepted_mem_targets s.ch)

/-- What the last known accepted target amounts to. -/
def Controller.knownBudget (cfg : Config) (m : Controller) (b : BalloonState) : Nat :=
  if cfg.balloon = true ∧ b.acceptedTargetKnown = true then
    budgetFromTarget cfg.capacity b.acceptedTarget
  else m.targetBudget

theorem targetBudgetNow_rule {P E : Controller → World → Prop} {Q : Nat → Controller → World → Prop}
    [∀ b m, Lasting cfg given (Q b m)] (h : ∀ m s, P m s → Q (m.knownBudget cfg s.balloon) m s) :
    Spec (Inv cfg given) Rely Any P (targetBudgetNow cfg) Q E := by
  refine .get fun m => .ite (fun hb => ?_) fun hb => ?_
  · refine .bind (M := fun b m' s => m' = m ∧ Q (m.knownBudget cfg b) m' s)
      (.lift fun m' => .look (fun _ _ => trivial) fun s _ hs => ⟨hs.1, ?_⟩) fun b => ?_
    · have := h m' s hs.2
      rw [hs.1] at this ⊢
      exact this
    · simp only [Controller.knownBudget, hb, true_and]
      split
      all_goals exact .pure fun _ _ _ hs => hs.2
  · refine .pure fun m' s _ hs => ?_
    have := h m' s hs.2
    rw [hs.1, Controller.knownBudget, if_neg fun hc => hb hc.1] at this
    rw [hs.1]
    exact this

theorem Steady.targetBudget {m : Controller} (h : Steady cfg given s) :
    TargetBudget cfg given (m.knownBudget cfg s.balloon) s := by
  intro hb
  obtain ⟨hk, hab⟩ := h.known hb
  exact ⟨_, if_pos ⟨hb, hk⟩, hab, fun _ => le_rfl⟩

/-! ## The prepared step -/

theorem raiseHigh_spec (hk : txn.kind = .grow) (hc : txn.targetChange = true) :
    Meets cfg given low (At low f (some txn) (Prepared cfg given txn)) (raiseHigh cfg txn)
      fun _ => At low f (some { txn with highApplied := true })
        (Prepared cfg given { txn with highApplied := true }) := by
  refine .ite (fun ha => .pure fun m s _ hs => ?_) fun _ => ?_
  · have heq : { txn with highApplied := true } = txn := by
      cases txn
      simp_all
    rw [heq]
    exact hs
  · refine .bind ?_ fun _ =>
      Meets.modifyTxn
    exact (applyMemoryHigh_spec
        (Q := fun s => (cfg.balloon = true → Cleared cfg given txn.target s) ∧
          budgetFromTarget cfg.capacity txn.target = txn.targetBudget)
        (fun _ => Prepared.txnOk hk hc)
        fun s high log _ hs => ⟨fun hb => { hs.cleared hb with }, hs.budget⟩).map
      fun _ m s _ hs => hs.imp fun h => ⟨h.1.1, h.1.2, fun _ => h.2⟩

/-- Deflating ends in a steady balloon, or the target stays prepared. -/
theorem deflate_spec {prepared : MemoryTransaction} (hk : prepared.kind = .grow)
    (hc : prepared.targetChange = true) (hh : prepared.highApplied = true)
    (ht : txn.target = prepared.target) :
    Step cfg given low f (some prepared) (Prepared cfg given prepared)
    (deflate cfg txn) fun _ => Steady cfg given := by
  have hready : ∀ s, Prepared cfg given prepared s → TxnOk cfg given f s (some prepared) :=
    fun _ => Prepared.txnOk hk hc
  refine .ite (fun hb => ?_) fun hb => ?_
  · refine .bind (setDesired_spec (fun s hs =>
      { hs with cleared := fun hb => { hs.cleared hb with } }) hready) fun _ => ?_
    · refine .bind (M := fun r => At low f (some prepared) fun s =>
          (Prepared cfg given prepared s ∧ (r.2 = .ok () → Steady cfg given s))) ?_ fun r => ?_
      · -- the raised limit is a frame of the balloon controller
        refine Spec.map (Meets.calm (Sat.pre (.frame
            (F := fun s => Raised cfg s.log prepared.targetBudget s.high ∧
              budgetFromTarget cfg.capacity prepared.target = prepared.targetBudget)
            (applyDesiredHeld_spec (t := prepared.target) hb) fun s s' _ hcalm hs =>
              ⟨hs.1.calm hcalm, hs.2⟩)
          fun s _ hs => ?_)) fun r m s _ hs => ?_
        · obtain ⟨hp, hd⟩ := hs
          have hr := hp.raised hh
          exact ⟨⟨⟨hp.cleared hb, .inr (by rw [hp.budget]; exact hr)⟩, hd.trans ht⟩, hr, hp.budget⟩
        · exact hs.imp fun h => ⟨⟨fun _ => h.1.1.cleared, h.2.2, fun _ => h.2.1⟩, h.1.2⟩
      · refine .bind Meets.record fun _ => ?_
        refine .ofExcept (fun a m s he _ hs => ?_) fun e m s _ _ hs => hs.ready fun h =>
          hready s h.1
        exact hs.imp fun h => h.2 he
  · refine .ite (fun _ => .fail fun m s _ hs => hs.ready (hready s)) fun _ =>
      Spec.pure fun m s hi hs => hs.imp fun _ => ?_
    have hno := hi.noDevice (Bool.eq_false_iff.2 hb)
    exact ⟨.settled hno.2, fun hd => absurd hd hb⟩

variable {objective : Nat}

theorem applyPreparedGrow_spec (hk : txn.kind = .grow) (hc : txn.targetChange = true) :
    Meets cfg given low (At low f (some txn) (Prepared cfg given txn))
    (applyPreparedGrow cfg txn objective)
      fun _ => Grown cfg given low := by
  refine Spec.bind
    (acquireMutation_spec (Q := Prepared cfg given txn) (fun _ => Prepared.txnOk hk hc)
    fun s hs => { hs with cleared := fun hb => { hs.cleared hb with } }) fun _ => ?_
  refine .bind (raiseHigh_spec hk hc) fun _ => ?_
  refine .bind (deflate_spec hk hc rfl rfl) fun _ => ?_
  refine .bind (M := fun _ => At low f (some { txn with highApplied := true }) (Steady cfg given))
    (.lift fun m => .change fun s hi hs => ⟨hi.note rfl trivial, trivial, ?_⟩) fun _ => ?_
  · exact { hs with kept := hs.kept.note rfl rfl, here := ⟨hs.here.rising, hs.here.known⟩ }
  refine Spec.bind (Meets.modifyTxn) fun _ => ?_
  refine .ite (fun _ => ?_) fun _ => .pure fun m s _ hs => hs.grown (fun h => ?_) ?_
  · exact Meets.dropTxn.map fun _ m s _ hs => hs.grown (fun h => h) nofun
  · exact h.txnOk hk rfl
  · intro txn ht
    cases ht
    exact hk

/-! ## Preparing and reserving -/

/-- A prepared target is below everything the VMM holds, within the reservation. -/
theorem prepared_of_executable {reservation executable : Nat}
    (hexec : executable = alignedBudgetAtMostReservation cfg.capacity reservation)
    (hlt : b < executable) (hle : reservation ≤ s.reservation) (hb : TargetBudget cfg given b s)
    (htb : txn.targetBudget = executable)
    (ht : txn.target = targetForBudget cfg.capacity executable)
    (hh : txn.highApplied = false) : Prepared cfg given txn s := by
  rcases alignedBudgetAtMostReservation_cases cfg.capacity reservation with h0 | ⟨t, htc, hdvd, heq,
    hcov⟩
  · omega
  rw [← hexec] at heq
  have htarget : txn.target = t := by
    rw [ht, heq, targetForBudget_budgetFromTarget htc hdvd]
  refine ⟨fun hd => ?_, by rw [htarget, htb, heq], fun h => by rw [hh] at h; cases h⟩
  obtain ⟨x, rfl, habove, -⟩ := hb hd
  have hx : t < x := lt_of_budgetFromTarget_lt (heq ▸ hlt)
  rw [htarget]
  refine ⟨.of_notMem fun hg hm => ?_, fun _ => hcov.trans hle,
    fun _ hg y hy => (le_of_lt hx).trans (habove hg y hy)⟩
  exact absurd (habove hg t hm) (not_le.2 hx)

theorem prepareGrow_spec {reservation : Nat} (hk : txn.kind = .grow)
    (hc : txn.targetChange = false) :
    Meets cfg given low
      (At low f (some txn) fun s => Steady cfg given s ∧ TargetBudget cfg given b s ∧ reservation ≤
        s.reservation)
      (prepareGrow cfg txn objective b reservation) fun _ => Grown cfg given low := by
  refine .ite (fun _ => .pure fun m s _ hs => hs.grown (fun h => ?_) ?_) fun hlt => ?_
  · exact h.1.txnOk hk hc
  · intro txn ht
    cases ht
    exact hk
  refine Spec.bind (Meets.modifyTxn) fun _ => ?_
  refine .pre (applyPreparedGrow_spec hk rfl) fun m s _ hs => hs.imp fun h => ?_
  refine prepared_of_executable rfl (not_le.1 hlt) ?_ h.2.1 rfl rfl rfl
  split <;> have := h.2.2 <;> omega

theorem Inv.disconnect (hi : Inv cfg given s) : Inv cfg given s.disconnect :=
  { hi with ordered := { hi.ordered with } }

/-- The reservation was raised, or nothing about it changed. -/
theorem requestReservation_grow {r : Nat}
    {req : BudgetRequest} [Lasting cfg given P] (hreq : req.currentAlloc = r)
    (hdelta : req.requestedDelta ≠ 0) (hready : ∀ s, P s → TxnOk cfg given f s t)
    (hset : ∀ s n log c, P s → P { s with reservation := n, log := log, connected := c }) :
    Step cfg given low f t (fun s => P s ∧ s.reservation = r) (requestReservation cfg req)
      fun g s => P s ∧ s.reservation = g.newReservation := by
  -- raising the reservation keeps it above every target
  have hraise : ∀ s n, Inv cfg given s → r ≤ n → s.reservation = r →
      Inv cfg given (s.setReservation n) := by
    intro s n hi hle heq
    refine { hi with
      covers := fun hg x hx => (hi.covers hg x hx).trans (heq ▸ hle)
      logged := fun hg => ⟨fun hlt => ?_, hi.logged hg⟩
      ordered := { hi.ordered with } }
    omega
  have hpost : ∀ (res : Except Failure BudgetGrant),
      Step cfg given low f t (fun s => P s ∧ ∀ g, res = .ok g → s.reservation = g.newReservation)
        (.ofExcept res) fun g s => P s ∧ s.reservation = g.newReservation :=
    fun res => .ofExcept (fun g m s he _ hs => hs.imp fun h => ⟨h.1, h.2 g he⟩)
      fun e m s _ _ hs => hs.ready fun h => hready s h.1
  refine Spec.ite (fun _ => ?_) fun _ => ?_
  · refine Spec.bind (Meets.action ?_) hpost
    intro m s res s' hi hs hk hstep
    obtain ⟨answer, hans⟩ := hstep
    simp only [World.requestBudget] at hans
    have hbase : s.keepBaseline req = s := by
      rw [World.keepBaseline, if_neg fun h => hdelta h.1]
    have hdis := hi.disconnect
    rw [hbase] at hans
    split at hans
    · cases hans
      exact ⟨hi, hk, hs.1, nofun⟩
    split at hans
    · cases hans
      exact ⟨hdis, hk, hset s _ _ _ hs.1, nofun⟩
    next g =>
      split at hans
      · cases hans
        exact ⟨hdis, hk, hset s _ _ _ hs.1, nofun⟩
      next hok =>
        cases hans
        exact ⟨hraise s _ hi (by omega) hs.2, hk, hset s _ _ _ hs.1, fun g' hg => by cases hg; rfl⟩
  · refine Spec.bind (Meets.action ?_) hpost
    intro m s res s' hi hs hk hstep
    simp only [World.requestStatic] at hstep
    split at hstep
    · cases hstep
      exact ⟨hi, hk, hs.1, nofun⟩
    split at hstep
    · cases hstep
      exact ⟨hi, hk, hs.1, nofun⟩
    · cases hstep
      exact ⟨hraise s _ hi (by omega) hs.2, hk, hset s _ _ _ hs.1, fun g' hg => by cases hg; rfl⟩

section

variable (hk : txn.kind = .grow)

include hk

theorem reserveGrow_spec {r : Nat} (hc : txn.targetChange = false) (hr : r < objective) :
    Meets cfg given low
      (At low f (some txn) fun s =>
        (Steady cfg given s ∧ TargetBudget cfg given b s) ∧ s.reservation = r)
      (reserveGrow cfg txn objective b r) fun _ => Grown cfg given low := by
  have hset : ∀ s n log c, Steady cfg given s ∧ TargetBudget cfg given b s →
      Steady cfg given { s with reservation := n, log := log, connected := c } ∧
        TargetBudget cfg given b { s with reservation := n, log := log, connected := c } :=
    fun s n log c hs => ⟨⟨hs.1.rising, hs.1.known⟩, hs.2⟩
  have hgrown : ∀ (t : MemoryTransaction) n m s,
      At low f (some t) (fun s =>
        (Steady cfg given s ∧ TargetBudget cfg given b s) ∧ s.reservation = n) m s →
      t.kind = .grow → t.targetChange = false → Grown cfg given low m s := by
    intro t n m s hs hk hc
    refine hs.grown (fun h => h.1.1.txnOk hk hc) fun txn ht => ?_
    cases ht
    exact hk
  refine Spec.bind (M := fun _ => At low f (some txn)
    fun s => (Steady cfg given s ∧ TargetBudget cfg given b s) ∧ s.reservation = r)
    (Meets.look fun s _ hs => hs) fun now => ?_
  refine Spec.ite (fun _ => Spec.pure fun m s _ hs => hgrown txn r m s hs hk hc) fun _ => ?_
  refine Spec.bind (requestReservation_grow rfl ?_ (fun s h => h.1.txnOk hk hc) hset) fun grant =>
    ?_
  · rw [saturatingSub_fst]
    exact Nat.sub_ne_zero_of_lt hr
  refine Spec.bind (M := fun _ => At low f (some txn) fun s =>
    (Steady cfg given s ∧ TargetBudget cfg given b s) ∧ s.reservation = grant.newReservation)
    (Meets.look fun s _ hs => hs) fun now => ?_
  refine Spec.bind (Meets.modifyTxn)
    fun _ => ?_
  refine Spec.ite (fun _ => Spec.pure fun m s _ hs => hgrown _ _ m s hs hk hc) fun _ => ?_
  refine Spec.pre (prepareGrow_spec hk hc) fun m s _ hs => hs.imp fun h => ?_
  exact ⟨h.1.1, h.1.2, le_of_eq h.2.symm⟩

/-- Growth keeps what holds between two steps of a transaction. -/
theorem advanceGrow_spec :
    Meets cfg given low (At low f (some txn) fun s => TxnOk cfg given f s (some txn))
    (advanceGrow cfg txn)
      fun _ => Grown cfg given low := by
  refine .ite (fun _ => .fail fun m s _ hs => hs.ready fun h => h) fun _ => ?_
  refine .ite (fun hc => ?_) fun hc => ?_
  · exact .pre (applyPreparedGrow_spec hk hc) fun m s _ hs => hs.imp fun h => h.prepared hk hc
  have hc := Bool.eq_false_iff.2 hc
  refine .pre ?_
    fun m s _ hs => hs.imp fun h => h.unprepared hk hc
  refine .bind (M := fun b => At low f (some txn) fun s =>
      Steady cfg given s ∧ TargetBudget cfg given b s)
    (targetBudgetNow_rule fun _ s hs => hs.imp fun h => ⟨h, h.targetBudget⟩) fun b => ?_
  refine .ite (fun _ => ?_) fun _ => ?_
  · exact Meets.dropTxn.map fun _ m s _ hs => hs.grown (fun h => h.1) nofun
  refine .bind reservationNow_spec fun r => ?_
  refine .ite (fun hlt => reserveGrow_spec hk hc hlt) fun _ => ?_
  refine .pre (prepareGrow_spec hk hc) fun m s _ hs => hs.imp fun h => ?_
  exact ⟨h.1.1, h.1.2, le_of_eq h.2.symm⟩

theorem advanceTransaction_grow :
    Meets cfg given low (At low f (some txn) fun s => TxnOk cfg given f s (some txn))
      (advanceTransaction cfg) fun _ => Grown cfg given low := by
  refine .get fun m hm _ => ?_
  simp only [hm, hk]
  exact advanceGrow_spec hk

end

end Sandboxer.Resctl
