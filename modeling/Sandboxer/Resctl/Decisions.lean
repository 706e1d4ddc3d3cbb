import Sandboxer.Resctl.Settlement

/-! # Reports and pressure signals

What one guest report or pressure signal makes the controller do. A report is
decided once, in the order of acceptance, and what it decides may stand behind
a shrink until a pressure signal replaces that shrink by a growth. -/
namespace Sandboxer.Resctl

open Lib.Threads Lib.Threads.Routine

variable {cfg : Config} {given : Premises} {low : Nat}

/-! ## Between wakeups -/

/-- What holds between two wakeups. -/
def Waiting (cfg : Config) (given : Premises) (m : Controller) (s : World) : Prop :=
  ∃ low, Ready cfg given low m s

/-- From `P` the routine stops with or without an error where the worker may wait. -/
abbrev Runs (cfg : Config) (given : Premises) (P : Controller → World → Prop) (x : Ctl Unit) :
    Prop :=
  Spec (Inv cfg given) Rely Any P x (fun _ => Waiting cfg given) (Waiting cfg given)

variable {P : Controller → World → Prop}

theorem Meets.runs (low : Nat) {x : Ctl Unit}
    (h : Meets cfg given low P x fun _ => Ready cfg given low) : Runs cfg given P x :=
  Spec.post h (fun _ _ _ _ hs => ⟨low, hs⟩) fun _ _ _ hs => ⟨low, hs⟩

theorem Meets.andThen (low : Nat) {α : Type} {x : Ctl α} {f : α → Ctl Unit}
    {M : α → Controller → World → Prop} (h : Meets cfg given low P x M)
    (hf : ∀ a, Runs cfg given (M a) (f a)) : Runs cfg given P (x >>= f) :=
  Spec.bind (.post h (fun _ _ _ _ hs => hs) fun _ _ _ hs => ⟨low, hs⟩) hf

variable {s s' : World}

theorem Normalizing.rely {t : Nat} (h : Rely s s') (hn : Normalizing cfg given t s) :
    Normalizing cfg given t s' :=
  ⟨fun hb => (hn.cleared hb).rely h, h.high.trans hn.high, h.reportsOpen.trans hn.closed⟩

variable {m : Controller}

theorem Ready.rely (h : Rely s s') (hr : Ready cfg given low m s) : Ready cfg given low m s' :=
  ⟨hr.low, h.reading Heard.arrival hr.kept,
    fun hn => ⟨(hr.normalizing hn).1, (hr.normalizing hn).2.rely h⟩, fun hn => (hr.txn hn).rely h⟩

instance Normalizing.lasting {t : Nat} : Lasting cfg given (Normalizing cfg given t) :=
  ⟨fun _ _ _ _ h hr => h.rely hr⟩

instance Ready.lasting : Lasting cfg given (Ready cfg given low m) :=
  ⟨fun _ _ _ _ h hr => h.rely hr⟩

instance Waiting.lasting : Lasting cfg given (Waiting cfg given m) :=
  ⟨fun _ _ _ _ h hr => h.imp fun _ h => h.rely hr⟩

instance Grown.lasting : Lasting cfg given (Grown cfg given low m) :=
  ⟨fun _ _ _ _ h hr => ⟨h.ready.rely hr, h.grow⟩⟩

theorem Ready.at (h : Ready cfg given low m s) (hn : m.normalizationPending = false) :
    At low m.shrinkReportFence m.txn (fun s => TxnOk cfg given m.shrinkReportFence s m.txn) m s :=
  ⟨h.low, hn, rfl, rfl, h.kept, h.txn hn⟩

/-! ## Starting growth -/

theorem MemoryTransaction.upgradeGrowCause_keeps (t : MemoryTransaction) (u : Urgency)
    (reason : String) : ∃ retry u' reason', t.upgradeGrowCause u reason =
      { t with reservationRetryAt := retry, urgency := u', reason := reason' } := by
  simp only [MemoryTransaction.upgradeGrowCause]
  split
  all_goals exact ⟨_, _, _, rfl⟩

variable {f : Nat} {txn : MemoryTransaction}

/-- Changes of a growth that keep its target. -/
theorem TxnOk.congr {txn' : MemoryTransaction} (hk : txn.kind = .grow)
    (hk' : txn'.kind = .grow) (hc : txn'.targetChange = txn.targetChange)
    (ht : txn'.target = txn.target) (hb : txn'.targetBudget = txn.targetBudget)
    (hh : txn'.highApplied = true → txn.highApplied = true)
    (h : TxnOk cfg given f s (some txn)) : TxnOk cfg given f s (some txn') := by
  refine txnOk_grow hk' (fun hc' => ?_) fun hc' => h.unprepared hk (hc.symm.trans hc')
  have hp := h.prepared hk (hc.symm.trans hc')
  refine ⟨fun hd => ?_, ?_, fun ha => ?_⟩
  · rw [ht]
    exact hp.cleared hd
  · rw [ht, hb]
    exact hp.budget
  · rw [hb]
    exact hp.raised (hh ha)

variable {requested demand : Nat} {urgency : Urgency} {reason : String}

theorem startGrow_extend (hk : txn.kind = .grow) :
    Meets cfg given low (At low f (some txn) fun s => TxnOk cfg given f s (some txn))
      (startGrow cfg requested demand urgency reason) fun _ => Grown cfg given low := by
  refine Meets.get fun m hm _ => ?_
  have hfilter : m.txn.filter (·.isGrow) = some txn := by
    simp [hm, MemoryTransaction.isGrow, hk]
  simp only [hfilter]
  obtain ⟨retry, u, why, hup⟩ := MemoryTransaction.upgradeGrowCause_keeps
    { txn with
      objectiveBudget :=
        max txn.growObjective (if requested > cfg.capacity then cfg.capacity else requested)
      demand := max txn.demand demand } urgency reason
  rw [hup]
  refine .bind Meets.modifyTxn fun _ => .pre (advanceTransaction_grow ?_)
    fun m s _ hs => hs.imp fun h => h.congr hk hk rfl rfl rfl id
  exact hk

variable {t : Option MemoryTransaction}

/-- A growth takes the place of a shrink or of nothing, or nothing happens. -/
theorem startGrow_new {P : World → Prop} {c : Controller → Prop}
    [Lasting cfg given P] (ht : t.filter (·.isGrow) = none)
    (hsteady : ∀ s, P s → Steady cfg given s)
    (hok : ∀ s, P s → ¬given.tracked → TxnOk cfg given f s t)
    (hskip : given.tracked → ∀ m s, P s → c m →
      (if requested > cfg.capacity then cfg.capacity else requested) ≤ m.knownBudget cfg s.balloon →
      t = none) :
    Meets cfg given low (fun m s => At low f t P m s ∧ c m)
      (startGrow cfg requested demand urgency reason) fun _ => Grown cfg given low := by
  refine Spec.get fun m => Spec.pre
    (Spec.fact fun hm => ?_) fun m' s _ hs => ⟨hs.2, by rw [← hs.1]; exact hs.2.1.txn⟩
  simp only [hm, ht]
  refine .bind (M := fun b m' s => At low f t P m' s ∧
      (given.tracked → (if requested > cfg.capacity then cfg.capacity else requested) ≤ b →
        t = none))
    (targetBudgetNow_rule ?_) fun b => ?_
  · exact fun m' s hs => ⟨hs.1, fun hg => hskip hg m' s hs.1.here hs.2⟩
  refine .ite (fun hle => .pure fun m' s _ hs => ?_) fun _ => ?_
  · by_cases hg : given.tracked
    · have hnone := hs.2 hg hle
      subst hnone
      exact hs.1.grown (hsteady s) nofun
    · exact ⟨hs.1.ready fun h => hok s h hg, fun hg' => absurd hg' hg⟩
  refine .bind (M := fun _ => At low f (some { MemoryTransaction.new .grow demand with
      objectiveBudget := if requested > cfg.capacity then cfg.capacity else requested
      urgency, reason }) P) (.modify fun m' s _ hs => ?_) fun _ => ?_
  · exact ⟨hs.1.low, hs.1.running, hs.1.fence, rfl, hs.1.kept.congr rfl rfl rfl, hs.1.here⟩
  · refine .pre (advanceTransaction_grow rfl) fun m' s _ hs => hs.imp fun h => ?_
    exact (hsteady s h).txnOk rfl rfl

theorem startGrow_idle :
    Meets cfg given low (At low f none (Steady cfg given))
      (startGrow cfg requested demand urgency reason) fun _ => Grown cfg given low :=
  Spec.pre (startGrow_new (t := none) rfl (fun _ h => h) (fun _ h _ => h) fun _ _ _ _ _ _ => rfl)
    fun _ _ _ hs => ⟨hs, trivial⟩

theorem Meets.grown (low : Nat) {x : Ctl Unit}
    (h : Meets cfg given low P x fun _ => Grown cfg given low) : Runs cfg given P x :=
  Meets.runs low (h.map fun _ _ _ _ hs => hs.ready)

/-! ## Notifying a stalled target -/

variable {report : MemReport} {state : BalloonState} {budget : MemoryBudget}
    {previous : Option BalloonStall}

variable {may : Renotify} (hmay : given.tracked → may ≤ Undisputed)

include hmay in
theorem retryStalledBalloon_spec : Meets cfg given low (Ready cfg given low)
      (retryStalledBalloon cfg may report state budget previous)
      fun _ => Ready cfg given low := by
  refine Spec.get fun m => Spec.ite (fun _ => Spec.pure fun _ _ _ hs => hs.2) fun hcond => ?_
  have hb : cfg.balloon = true := by
    by_contra hno
    simp [hno] at hcond
  refine .bind (M := fun still m' s => (m' = m ∧ Ready cfg given low m' s) ∧
      (still = true → m.normalizationPending = false ∧ m.txn = none))
    (.lift fun m' => .look (fun _ _ => trivial) fun s _ hs => ⟨hs, fun hst => ?_⟩)
    fun still => ?_
  · simp only [stillCurrent, Bool.and_eq_true, Bool.not_eq_true', Bool.or_eq_false_iff] at hst
    exact ⟨hst.1.1.1.1.1.1.1.1, by simpa using hst.1.1.1.1.1.1.1.2⟩
  refine .ite (fun _ => .pure fun _ _ _ hs => hs.1.2) fun hst => ?_
  simp only [Bool.not_eq_true', Bool.not_eq_false] at hst
  refine .pre (S := At low m.shrinkReportFence none (Steady cfg given)) ?_ fun m' s _ hs => ?_
  · refine .ite (fun _ => .modify fun m' s _ hs => ?_) fun _ => ?_
    · exact At.ready
        { hs with kept := hs.kept.congr rfl rfl rfl } fun h => h
    · refine .bind
        (acquireMutation_spec (Q := Steady cfg given) (fun s hs => hs)
          fun s hs => ⟨hs.rising, hs.known⟩) fun _ => ?_
      refine Spec.bind (Meets.calm (retryAcceptedTargetHeld_spec hb hmay)) fun r => ?_
      refine .bind Meets.record fun _ => ?_
      exact .ofExcept (fun _ m s _ _ hs => hs.ready fun h => h) fun _ m s _ _ hs =>
        hs.ready fun h => h
  · obtain ⟨⟨rfl, hr⟩, hst'⟩ := hs
    obtain ⟨hn, ht⟩ := hst' hst
    have hat := hr.at hn
    rw [ht] at hat
    exact hat

/-! ## A decided report -/

/-- A report taken from the queue, before it is decided. -/
structure Fresh (r : MemReport) (s : World) : Prop where
  accepted : .accepted r ∈ s.journal
  older : ∀ r' q g, .decided r' q g ∈ s.journal → r'.seq < r.seq
  queued : ∀ r' ∈ s.reportEvents, r.seq < r'.seq

/-- A report that was decided last. -/
structure Backing (given : Premises) (r : MemReport) (q : Nat) (grows : Bool)
    (journal : List Note) : Prop where
  decided : Since (.decided r q grows) Note.voids journal
  newest : ∀ r' q' g, .decided r' q' g ∈ journal → r'.seq ≤ r.seq
  once : given.lower → ∀ later earlier t accepted, journal = later ++
    .resize t accepted :: earlier →
    accepted < t → (reports (beforeGate earlier)).head? ≠ some r

/-- The floor and the low-demand memory after a decision that asks for `q`. -/
structure Weighed (m : Controller) (q : Nat) (journal : List Note) : Prop where
  low : (floorState journal).1 ≠ 0 → q < (floorState journal).1 → (floorState journal).2 = true
  cleared : m.pressureLowSeq ≠ 0 → q < m.pressureFloor → (floorState journal).1 = 0

instance Fresh.lasting (r : MemReport) : Lasting cfg given (Fresh r) := by
  refine ⟨fun
    s s' hi hi' h hr => ⟨(mem_lasting _).stable s s' hi hi' h.accepted hr, ?_, fun r' hm => ?_⟩⟩
  · refine hr.reading (p := fun j => ∀ r' q g, .decided r' q g ∈ j → r'.seq < r.seq)
      (fun a j hj r' q g hm => ?_)
      h.older
    rcases List.mem_cons.1 hm with hm | hm
    · cases hm
    · exact hj r' q g hm
  · rcases hr.reportEvents r' hm with hm | hlt
    · exact h.queued r' hm
    · exact lt_of_le_of_lt (hi.ordered.le_seq h.accepted) hlt

variable {r : MemReport} {q : Nat} {g : Bool} {journal : List Note}

theorem Backing.cons {n : Note} (h : Backing given r q g journal) (hv : n.voids = false)
    (hd : ∀ r' q' g', Note.decided r' q' g' ≠ n) (hr : ∀ t accepted, n ≠ .resize t accepted) :
    Backing given r q g (n :: journal) := by
  refine ⟨h.decided.cons hv, fun r' q' g' hm => ?_, fun hl later earlier t x heq => ?_⟩
  · rcases List.mem_cons.1 hm with hm | hm
    · exact absurd hm (hd r' q' g')
    · exact h.newest r' q' g' hm
  · cases later with
    | nil => exact absurd (List.cons.inj heq).1 (hr t x)
    | cons n later => exact h.once hl later earlier t x (List.cons.inj heq).2

instance Backing.heard : Heard (Backing given r q g) := ⟨fun _ _ h => h.cons rfl nofun nofun⟩

theorem Backing.support {t : Nat} (h : Backing given r q false journal)
    (hask : q ≤ budgetFromTarget cfg.capacity t)
    (hfloor : given.tracked → (floorState journal).1 ≤ budgetFromTarget cfg.capacity t) :
    Support cfg given t r q journal :=
  ⟨h.decided.mem, fun _ => h.decided, hask, hfloor, fun hl later earlier t' a heq hlt hhead =>
    absurd hhead (h.once hl later earlier t' a heq hlt)⟩

instance Weighed.heard : Heard (Weighed m q) := ⟨fun _ _ h => ⟨h.low, h.cleared⟩⟩

theorem Kept.weighed (h : Kept m journal) (r : MemReport) (q : Nat) (g : Bool) :
    Kept m (.decided r q g :: journal) ∧ Weighed m q (.decided r q g :: journal) := by
  have hfence : ∀ a, .accepted a ∈ Note.decided r q g :: journal → m.shrinkReportFence < a.seq →
      Since (.accepted a) Note.isFinished (.decided r q g :: journal) := by
    intro a ha hlt
    rcases List.mem_cons.1 ha with ha | ha
    · cases ha
    · exact (h.fence a ha hlt).cons rfl
  have hfloor := h.floor
  have hlow := h.low
  have hstep : floorState (.decided r q g :: journal) = floorStep (.decided r q g)
      (floorState journal) := rfl
  generalize floorState journal = state at hfloor hlow hstep
  obtain ⟨floor, low⟩ := state
  simp only [floorStep] at hfloor hlow hstep
  by_cases hq : q < floor
  · rw [if_pos hq] at hstep
    cases low with
    | true => refine ⟨⟨hfence, ?_, ?_⟩, ?_, ?_⟩ <;> rw [hstep] <;> simp
    | false =>
      simp only [Bool.false_eq_true, if_false] at hstep hlow
      refine ⟨⟨hfence, ?_, ?_⟩, ?_, ?_⟩ <;> rw [hstep]
      · exact hfloor
      · simp
      · simp
      · exact fun hl _ => Decidable.byContradiction fun h0 => hlow h0 hl
  · rw [if_neg hq] at hstep
    refine ⟨⟨hfence, ?_, ?_⟩, ?_, ?_⟩ <;> rw [hstep]
    · exact hfloor
    · exact hlow
    · exact fun _ hlt => absurd hlt hq
    · intro _ hlt
      exact hfloor.resolve_right fun he => hq (by simpa [he] using hlt)

/-- Without a low mark, a note that keeps the floor keeps the agreement. -/
theorem Kept.unmarked {n : Note} (h : Kept m journal) (h0 : m.pressureLowSeq = 0)
    (hn : n.isFinished = false)
    (hf : (floorStep n (floorState journal)).1 = (floorState journal).1) :
    Kept m (n :: journal) := by
  refine ⟨fun r hr hlt => ?_, by rw [floorState_cons, hf]; exact h.floor,
    fun _ hne => absurd h0 hne⟩
  rcases List.mem_cons.1 hr with rfl | hr
  · exact .here ..
  · exact (h.fence r hr hlt).cons hn

theorem Ordered.decide (h : Ordered s) (hf : Fresh r s) (q : Nat) (g : Bool) :
    Ordered (s.note (.decided r q g)) := by
  refine { h with decided := fun r' q' g' hm => ?_, queued := fun r' hm => ?_ }
  · rcases List.mem_cons.1 hm with hm | hm
    · cases hm
      exact .tail _ hf.accepted
    · exact .tail _ (h.decided r' q' g' hm)
  · obtain ⟨ha, hpos, hd⟩ := h.queued r' hm
    refine ⟨.tail _ ha, hpos, fun a q' g' hm' => ?_⟩
    rcases List.mem_cons.1 hm' with hm' | hm'
    · cases hm'
      exact hf.queued r' hm
    · exact hd a q' g' hm'

/-- No inflating resize stands on a report before it is decided. -/
theorem Fresh.backing (h : Fresh r s) (hi : Inv cfg given s) (q : Nat) (g : Bool) :
    Backing given r q g (.decided r q g :: s.journal) := by
  refine ⟨.here .., fun r' q' g' hm => ?_, fun hl later earlier t x heq hlt hhead => ?_⟩
  · rcases List.mem_cons.1 hm with hm | hm
    · cases hm
      exact le_rfl
    · exact le_of_lt (h.older r' q' g' hm)
  · cases later with
    | nil => cases heq
    | cons n later =>
      have heq := (List.cons.inj heq).2
      have hj := hi.journaled hl
      rw [heq] at hj
      obtain ⟨a, qa, o, hnew, hdec, -⟩ := hj.note hlt
      have hsame : a = r := Option.some.inj (hnew.symm.trans hhead)
      have hmem : .decided a qa false ∈ s.journal := by
        rw [heq]
        exact List.mem_append_right _ (.tail _ ((beforeGate_suffix earlier).subset hdec))
      have := h.older a qa _ hmem
      rw [hsame] at this
      exact lt_irrefl _ this

theorem Support.decide {t : Nat} (h : Support cfg given t r q journal) (r' : MemReport) (q' : Nat)
    (g : Bool) :
    Support cfg given t r q (.decided r' q' g :: journal) := by
  refine h.cons (fun _ => ?_) (fun _ => rfl) nofun
  simp only [floorStep]
  split
  · split
    · exact Nat.zero_le _
    · exact le_rfl
  · exact le_rfl

/-- A note leaves a transaction in order if it leaves the support of a shrink. -/
theorem TxnOk.note {n : Note} (h : TxnOk cfg given f s t)
    (hn : given.tracked → (∀ txn, t = some txn → txn.kind = .grow) ∨ ∀ target r q,
      Support cfg given target r q s.journal → Support cfg given target r q (n :: s.journal)) :
    TxnOk cfg given f (s.note n) t := by
  cases t with
  | none => exact ⟨h.rising, h.known⟩
  | some txn =>
    cases hk : txn.kind with
    | grow =>
      refine txnOk_grow hk (fun hc => ?_) fun hc => ?_
      · have hp := h.prepared hk hc
        exact { hp with cleared := fun hb => { hp.cleared hb with } }
      · have hs := h.unprepared hk hc
        exact ⟨hs.rising, hs.known⟩
    | shrink =>
      simp only [TxnOk, hk] at h
      refine (h.note fun target r q hsup => ?_).txnOk hk
      by_cases hg : given.tracked
      · rcases hn hg with hgrow | hn
        · rw [hgrow txn rfl] at hk
          cases hk
        · exact hn target r q hsup
      · exact hsup.cons (absurd · hg) (absurd · hg) fun hl => absurd (.inr hl) hg

/-- A pressure signal at full Capacity leaves a transaction in order. -/
theorem TxnOk.pressure {shrinks : Bool} (h : TxnOk cfg given f s t)
    (hs : shrinks = t.any fun txn => !txn.isGrow && txn.targetChange) :
    TxnOk cfg given f (s.note (.pressure true shrinks)) t := by
  cases t with
  | none => exact ⟨h.rising, h.known⟩
  | some txn =>
    cases hk : txn.kind with
    | grow =>
      refine h.note fun _ => .inl fun txn' ht => ?_
      cases ht
      exact hk
    | shrink =>
      have hgrow : txn.isGrow = false := by simp [MemoryTransaction.isGrow, hk]
      cases hc : txn.targetChange with
      | true =>
        have hs : shrinks = true := by simp [hs, hgrow, hc]
        subst hs
        exact h.note fun _ => .inr fun _ _ _ h => h.passive rfl
      | false =>
        -- a settlement stands on no report
        simp only [TxnOk, hk] at h
        refine Retained.txnOk hk { h with steady := ⟨h.steady.rising, h.steady.known⟩, support :=
          fun hc' => ?_ }
        rw [hc] at hc'
        cases hc'

/-! ## The pressure floor -/

/-- A reading of the floor that arriving reports do not change. -/
instance floorState_lasting (p : Nat × Bool → Prop) :
    Lasting cfg given fun s => p (floorState s.journal) :=
  ⟨fun _ _ _ _ hs hr => hr.reading (p := fun j => p (floorState j)) (fun _ _ hj => hj) hs⟩

instance floor_le_lasting (n : Nat) : Lasting cfg given fun s => (floorState s.journal).1 ≤ n :=
  floorState_lasting (·.1 ≤ n)

/-- Shrink goes on only with a floor that the report respects. -/
theorem passPressureFloor_spec {P : World → Prop} [Lasting cfg given P]
    (hnote : ∀ s, P s → P (s.note .unmarked)) : Spec (Inv cfg given) Rely Any
      (fun m s => At low f t P m s ∧ Weighed m budget.requestedBudget s.journal)
      (passPressureFloor report budget)
      (fun pass m s => ∃ low, At low f t (fun s => P s ∧
        (pass = true → (floorState s.journal).1 ≤ budget.requestedBudget)) m s)
      (Waiting cfg given) := by
  refine .get fun m => .ite (fun hz => .pure fun m' s _ hs => ?_) fun hnz => ?_
  · obtain ⟨rfl, hat, -⟩ := hs
    refine ⟨low, hat.imp fun h => ⟨h, fun _ => ?_⟩⟩
    rcases hat.kept.floor with h0 | h0 <;> omega
  refine .ite (fun hq => ?_) fun hq => ?_
  · refine .ite (fun hlow => ?_) fun hlow => ?_
    · refine .bind (M := fun _ m' s => At report.seq f t P m' s) (.modify fun m' s _ hs => ?_)
        fun _ => .pure fun m' s _ hs => ⟨_, hs.imp fun h => ⟨h, nofun⟩⟩
      obtain ⟨rfl, hat, hw⟩ := hs
      refine ⟨rfl, hat.running, hat.fence, hat.txn, { hat.kept with low := fun h0 _ => ?_ },
        hat.here⟩
      exact hw.low h0 ((hat.kept.floor.resolve_left h0).symm ▸ hq)
    · refine .bind (M := fun _ m' s => At 0 f t (fun s => P s ∧ (floorState s.journal).1 = 0) m' s)
        (.modify fun m' s _ hs => ?_) fun _ => .pure fun m' s _ hs =>
          ⟨0, hs.imp fun h => ⟨h.1, fun _ => h.2 ▸ Nat.zero_le _⟩⟩
      obtain ⟨rfl, hat, hw⟩ := hs
      have h0 := hw.cleared hlow hq
      exact ⟨rfl, hat.running, hat.fence, hat.txn,
        ⟨hat.kept.fence, .inl h0, fun h => absurd h0 h⟩, hat.here, h0⟩
  · refine .bind (M := fun _ m' s => At 0 f t (fun s => P s ∧
        (floorState s.journal).1 ≤ budget.requestedBudget) m' s) (.modify fun m' s _ hs => ?_)
      fun _ => .bind (M := fun _ m' s => At 0 f t (fun s => P s ∧
        (floorState s.journal).1 ≤ budget.requestedBudget) m' s)
          (.lift fun m' => .change fun s hi hs =>
          ⟨hi.note rfl trivial, trivial,
            { hs with kept := hs.kept.unmarked hs.low rfl rfl, here := ?_ }⟩)
      fun _ => .pure fun m' s _ hs => ⟨0, hs.imp fun h => ⟨h.1, fun _ => h.2⟩⟩
    swap
    · exact ⟨hnote s hs.here.1, hs.here.2⟩
    obtain ⟨rfl, hat, -⟩ := hs
    refine ⟨rfl, hat.running, hat.fence, hat.txn,
      { hat.kept with low := fun _ h => absurd rfl h }, hat.here, ?_⟩
    rcases hat.kept.floor with h0 | h0 <;> omega

/-! ## What a report makes of a transaction -/

/-- Away from growth, with the report that was decided last. -/
structure Deciding (cfg : Config) (given : Premises) (r : MemReport) (q : Nat) (g : Bool)
    (s : World) : Prop where
  steady : Steady cfg given s
  backing : Backing given r q g s.journal

instance Deciding.lasting : Lasting cfg given (Deciding cfg given r q g) :=
  ⟨fun _ _ _ _ hd hr => ⟨hd.steady.rely hr, hr.reading Heard.arrival hd.backing⟩⟩

theorem Deciding.unmarked (h : Deciding cfg given r q g s) :
    Deciding cfg given r q g (s.note .unmarked) := by
  exact ⟨⟨h.steady.rising, h.steady.known⟩, h.backing.cons rfl nofun nofun⟩

section

include hmay

/-- One step of shrink on a report newer than the fence, or settlement. -/
theorem startShrink_spec : Meets cfg given low
      (At low f none fun s => Deciding cfg given report budget.requestedBudget false s ∧
        (floorState s.journal).1 ≤ budget.requestedBudget)
      (startShrink cfg may report state budget previous) fun _ => Ready cfg given low := by
  refine .get fun m _ hf => ?_
  have hset : ∀ txn : MemoryTransaction, Meets cfg given low
      (At low f none fun s => Deciding cfg given report budget.requestedBudget false s ∧
        (floorState s.journal).1 ≤ budget.requestedBudget)
      (.modify fun m => { m with txn := some txn })
      fun _ => At low f (some txn) fun s =>
        Deciding cfg given report budget.requestedBudget false s ∧
        (floorState s.journal).1 ≤ budget.requestedBudget := by
    refine fun txn => .modify fun m s _ hs => ?_
    exact { hs with txn := rfl, kept := hs.kept.congr rfl rfl rfl }
  split
  next next hnext =>
    obtain ⟨hnext, hseq⟩ := Option.filter_eq_some_iff.1 hnext
    have hask := requested_le_nextShrinkTarget hnext
    refine .bind (hset _) fun _ => .pre advanceTransaction_spec fun m s _ hs => hs.imp fun h => ?_
    refine .txnOk rfl ⟨h.1.steady, nofun, nofun, fun _ => ?_,
      fun _ => ⟨report, budget.requestedBudget, rfl, ?_⟩⟩
    · exact ⟨memoryStep_dvd_nextShrinkTarget hnext, rfl, by simpa [hf] using hseq⟩
    · exact h.1.backing.support hask fun _ => h.2.trans hask
  · refine .bind (hset _) fun _ => .bind (.pre advanceTransaction_spec fun m s _ hs =>
      hs.imp fun h => ?_) fun _ => retryStalledBalloon_spec hmay
    exact .txnOk rfl ⟨h.1.steady, nofun, fun _ => rfl, nofun, nofun⟩

theorem reportIdle_spec : Runs cfg given
      (fun m s => At low f none
        (Deciding cfg given report budget.requestedBudget (budget.grows none)) m s ∧
        Weighed m budget.requestedBudget s.journal)
      (reportIdle cfg may report state budget previous) := by
  refine .ite (fun _ => ?_) fun hle => ?_
  · exact Spec.pre (Meets.grown low startGrow_idle) fun m s _ hs => hs.1.imp fun h => h.steady
  rw [show budget.grows none = false from decide_eq_false hle]
  refine .bind (M := fun _ m s => At low f none
      (Deciding cfg given report budget.requestedBudget false) m s ∧
      Weighed m budget.requestedBudget s.journal)
    (.lift fun m => .look (fun _ _ => trivial) fun _ _ hs => hs) fun late => ?_
  · refine .ite (fun _ => .pure fun m s _ hs => ⟨low, hs.1.ready fun h => h.steady⟩) fun _ => ?_
    refine .bind (passPressureFloor_spec fun s hs => hs.unmarked) fun pass => .exists fun low => ?_
    refine .ite (fun _ => .pure fun m s _ hs => ⟨low, hs.ready fun h => h.1.steady⟩)
      fun hpass => ?_
    simp only [Bool.not_eq_true', Bool.not_eq_false] at hpass
    refine Meets.runs low ?_
    refine Spec.bind reservationNow_spec fun r => ?_
    · refine .ite (fun _ => ?_) fun _ => ?_
      · exact .pre (retryStalledBalloon_spec hmay) fun m s _ hs => hs.ready fun h => h.1.1.steady
      · exact .pre (startShrink_spec hmay) fun m s _ hs =>
          hs.imp fun h => ⟨h.1.1, h.1.2 hpass⟩

end

theorem Retained.refresh
    (h : Retained cfg given f txn s)
    (hb : Backing given report budget.requestedBudget false s.journal)
    (hle : budget.requestedBudget ≤ txn.targetBudget) :
    Retained cfg given f (txn.refresh report state budget) s := by
  refine ⟨h.steady, fun ha => ?_, h.accepted, fun hc => ?_, fun hc => ?_⟩
  · simp only [MemoryTransaction.refresh, Bool.and_eq_true] at ha
    exact h.high ha.1
  · obtain ⟨hd, htb, hf⟩ := h.aligned hc
    obtain ⟨r, q, hseq, hsup⟩ := h.support hc
    have hnew := hb.newest r q _ hsup.mem
    exact ⟨hd, htb, lt_of_lt_of_le hf (hseq ▸ hnew)⟩
  · obtain ⟨-, htb, -⟩ := h.aligned hc
    obtain ⟨r, q, -, hsup⟩ := h.support hc
    exact ⟨report, budget.requestedBudget, rfl, hb.support (htb ▸ hle) hsup.floor⟩

theorem reportDuringShrink_spec (hk : txn.kind = .shrink) : Runs cfg given
      (At low f (some txn) fun s => Retained cfg given f txn s ∧
        Backing given report budget.requestedBudget (budget.grows (some txn)) s.journal)
      (reportDuringShrink cfg txn report state budget) := by
  refine .ite (fun _ => ?_) fun hle => ?_
  · refine Meets.andThen low Meets.dropTxn fun _ => ?_
    exact Spec.pre (Meets.grown low startGrow_idle) fun m s _ hs => hs.imp fun h => h.1.steady
  have hgrows : budget.grows (some txn) = false := by
    simp [MemoryBudget.grows, MemoryTransaction.isGrow, hk, not_lt.1 hle]
  rw [hgrows]
  refine Meets.runs low (Spec.bind reservationNow_spec fun r => ?_)
  refine Spec.ite (fun _ => ?_) fun _ => ?_
  · refine .pre ?_ fun m s _ hs =>
      hs.imp fun h => h.1.1
    refine .ite (fun _ => ?_) fun _ => finishShrink_ready fun s hs => hs.steady
    exact .bind (setDesired_spec (fun s hs => hs.setDesired _)
      fun s hs => hs.txnOk hk) fun _ => finishShrink_ready fun s hs => hs.1.steady
  · refine Spec.bind (Meets.modifyTxn) fun _ => ?_
    refine .bind (.attempt
      (.pre advanceTransaction_spec fun m s _ hs => hs.imp fun h => ?_)
      (fun _ _ _ _ hs => hs) fun _ _ _ _ hs => hs) fun _ => .skip
    exact Retained.txnOk hk (h.1.1.refresh h.1.2 (not_lt.1 hle))

theorem reportDuringGrow_spec (hk : txn.kind = .grow) :
    Runs cfg given (At low f (some txn) fun s => TxnOk cfg given f s (some txn))
      (reportDuringGrow cfg txn budget) := by
  have hkeeps : (txn.extend budget).kind = .grow ∧
      (txn.extend budget).targetChange = txn.targetChange ∧
      (txn.extend budget).target = txn.target ∧
      (txn.extend budget).targetBudget = txn.targetBudget ∧
      ((txn.extend budget).highApplied = true → txn.highApplied = true) := by
    simp only [MemoryTransaction.extend]
    obtain ⟨retry, u, why, hup⟩ := MemoryTransaction.upgradeGrowCause_keeps
      (if budget.requestedBudget > txn.growObjective then
        { txn with objectiveBudget := budget.requestedBudget } else txn) .normal "guest_report"
    rw [hup]
    split <;> split <;> simp_all
  obtain ⟨hk', hc, ht, hb, hh⟩ := hkeeps
  refine Meets.grown low (Spec.bind (Meets.modifyTxn)
    fun _ => ?_)
  exact Spec.pre (advanceTransaction_grow hk') fun m s _ hs => hs.imp fun h =>
    h.congr hk hk' hc ht hb hh

/-! ## A report from start to end -/

theorem Observes.fresh {o : Observation} {b : BalloonState}
    (h : Observes cfg o b s s') (hf : Fresh r s) : Fresh r s' := by
  refine ⟨?_, fun r' q g hm => ?_, ?_⟩
  · rw [h.journal]
    exact .tail _ hf.accepted
  · rw [h.journal] at hm
    rcases List.mem_cons.1 hm with hm | hm
    · cases hm
    · exact hf.older r' q g hm
  · rw [h.reportEvents]
    exact hf.queued

section

include hmay

theorem reportObserved_spec :
    Runs cfg given (At low f t fun s => TxnOk cfg given f s t ∧ Fresh report s)
      (reportObserved cfg may report state budget previous) := by
  refine .bind (M := fun _ => At low f t fun s => TxnOk cfg given f s t ∧ Fresh report s)
    (.modify fun m s _ hs => ?_) fun _ => ?_
  · exact { hs with kept := hs.kept.congr rfl rfl rfl }
  refine .get fun m => .pre (.fact fun hm => ?_) fun m' s _ hs =>
    ⟨hs.2, by rw [← hs.1]; exact hs.2.txn⟩
  rw [hm]
  refine .bind (M := fun _ m s => At low f t (fun s => TxnOk cfg given f s t ∧
      Backing given report budget.requestedBudget (budget.grows t) s.journal) m s ∧
      Weighed m budget.requestedBudget s.journal)
    (.lift fun m => .change fun s hi hs => ?_) fun _ => ?_
  · obtain ⟨hkept, hw⟩ := hs.kept.weighed report budget.requestedBudget (budget.grows t)
    refine ⟨{ hi with
      journaled := fun hl => ⟨trivial, hi.journaled hl⟩
      ordered := hi.ordered.decide hs.here.2 _ _ }, trivial, { hs with kept := hkept, here := ?_ },
        hw⟩
    exact ⟨hs.here.1.note fun _ => .inr fun _ _ _ h => h.decide _ _ _, hs.here.2.backing hi _ _⟩
  · cases t with
    | none =>
      exact .pre (reportIdle_spec hmay) fun m s _ hs =>
        ⟨hs.1.imp fun h => ⟨h.1, h.2⟩, hs.2⟩
    | some txn =>
      cases hk : txn.kind with
      | shrink =>
        simp only [hk]
        refine .pre (reportDuringShrink_spec hk) fun m s _ hs => hs.1.imp fun h => ⟨?_, h.2⟩
        simpa only [TxnOk, hk] using h.1
      | grow =>
        simp only [hk]
        exact .pre (reportDuringGrow_spec hk) fun m s _ hs => hs.1.imp fun h => h.1

/-- Whatever a report asks for, the controller ends where it may wait. -/
theorem processReport_spec : Runs cfg given (fun m s => Ready cfg given low m s ∧ Fresh report s)
      (processReport cfg may report) := by
  refine .get fun m => ?_
  refine .bind (M := fun _ m' s => (Ready cfg given low m' s ∧ Fresh report s) ∧
      m'.normalizationPending = m.normalizationPending) (.modify fun m' s _ hs => ?_) fun _ => ?_
  · obtain ⟨rfl, hr, hf⟩ := hs
    exact ⟨⟨{ hr with kept := hr.kept.congr rfl rfl rfl }, hf⟩, rfl⟩
  refine .ite (fun _ => .pure fun m' s _ hs => ⟨low, hs.1.1⟩) fun hn => ?_
  -- from here on the fence and the transaction are those of the controller
  refine .pre (S := fun m' s => ∃ ft : Nat × Option MemoryTransaction,
      At low ft.1 ft.2 (fun s => TxnOk cfg given ft.1 s ft.2 ∧ Fresh report s) m' s)
    (.exists fun ft => ?_) fun m' s _ hs => ?_
  · refine Meets.andThen low (observeBalloon_spec
      (Q := fun _ s => TxnOk cfg given ft.1 s ft.2 ∧ Fresh report s) (fun s hs => hs.1)
      fun s s' o b _ hs ho => ⟨ho.txnOk hs.1, ho.fresh hs.2⟩) fun state => ?_
    refine Meets.andThen low Meets.record fun _ => ?_
    refine .ite (fun _ => .fail fun m s _ hs => ⟨low, hs.ready fun h => h.1⟩) fun _ => ?_
    refine .bind (M := fun _ => At low ft.1 ft.2 fun s => TxnOk cfg given ft.1 s ft.2 ∧
      Fresh report s) (.modify fun m s _ hs => ?_) fun _ => ?_
    · exact { hs with kept := hs.kept.congr rfl rfl rfl }
    split
    · exact .fail fun m s _ hs => ⟨low, hs.ready fun h => h.1⟩
    · exact reportObserved_spec hmay
  · have hn' : m'.normalizationPending = false := by
      rw [hs.2]
      exact Bool.eq_false_iff.2 hn
    exact ⟨(_, _), (hs.1.1.at hn').imp fun h => ⟨h, hs.1.2⟩⟩

end

/-! ## Pressure -/

/-- Away from growth a transaction leaves the balloon steady. -/
theorem TxnOk.steady (h : TxnOk cfg given f s t) (ht : t.filter (·.isGrow) = none) :
    Steady cfg given s := by
  cases t with
  | none => exact h
  | some txn =>
    cases hk : txn.kind with
    | grow => simp [MemoryTransaction.isGrow, hk] at ht
    | shrink =>
      simp only [TxnOk, hk] at h
      exact h.steady

theorem filter_isGrow : t.filter (·.isGrow) = none ∨ ∃ txn, t = some txn ∧ txn.kind = .grow := by
  cases t with
  | none => exact .inl rfl
  | some txn =>
    cases hk : txn.kind with
    | grow => exact .inr ⟨txn, rfl, hk⟩
    | shrink => exact .inl (by simp [MemoryTransaction.isGrow, hk])

/-- A later reading of the accepted target is no larger a Budget. -/
theorem knownBudget_le {b : Nat} (hg : given.tracked) (hs : Steady cfg given s)
    (hb : TargetBudget cfg given b s) (hm : cfg.balloon = false → m.targetBudget = b) :
    m.knownBudget cfg s.balloon ≤ b := by
  cases hd : cfg.balloon with
  | true =>
    obtain ⟨x, rfl, -, hle⟩ := hb hd
    rw [Controller.knownBudget, if_pos ⟨hd, (hs.known hd).1⟩]
    exact budgetFromTarget_anti (hle hg)
  | false =>
    rw [Controller.knownBudget, if_neg (by simp [hd])]
    exact le_of_eq (hm hd)

/-- A growth of a pressure signal raises the floor. -/
theorem raiseFloor_spec {after : Nat} : Runs cfg given (Grown cfg given 0) (do
      Routine.modify fun m => { m with pressureFloor := max m.pressureFloor after }
      let m ← Routine.get
      Routine.lift (Prog.change (·.note (.floor m.pressureFloor)))) := by
  refine .bind (M := fun _ m s => ∃ floor, Grown cfg given 0 { m with pressureFloor := floor } s)
    (.modify fun m s _ hs => ⟨m.pressureFloor, hs⟩) fun _ => ?_
  refine .get fun m => .lift fun m' => .change fun s hi hs => ?_
  obtain ⟨rfl, floor, hg⟩ := hs
  refine ⟨hi.note rfl trivial, trivial, 0, hg.ready.low, ⟨fun r hr hlt => ?_, .inr rfl,
    fun _ hne => absurd hg.ready.low hne⟩, fun hn => ?_, fun hn => ?_⟩
  · rcases List.mem_cons.1 hr with hr | hr
    · cases hr
    · exact (hg.ready.kept.fence r hr hlt).cons rfl
  · obtain ⟨ht, hnorm⟩ := hg.ready.normalizing hn
    exact ⟨ht, fun hb => { hnorm.cleared hb with }, hnorm.high, hnorm.closed⟩
  · exact (hg.ready.txn hn).note fun htracked => .inl (hg.grow htracked)

/-- What a pressure signal does once the accepted target is read. -/
theorem pressureGrow_spec {accepted before want : Nat} {shrinks : Bool} {pressure : PressureGrow}
    (hshrinks : shrinks = t.any fun txn => !txn.isGrow && txn.targetChange)
    (hle : accepted ≤ before) (hcap : want ≤ cfg.capacity) : Runs cfg given
      (fun m s => At 0 f t (fun s => TxnOk cfg given f s t ∧
        (t.filter (·.isGrow) = none → TargetBudget cfg given accepted s)) m s ∧
        (cfg.balloon = false → m.targetBudget = accepted))
      (do
        Routine.lift (Prog.change (·.note (.pressure (decide (want ≤ before)) shrinks)))
        if want ≤ before then pure ()
        else do
          startGrow cfg want demand pressure.urgency pressure.reason
          let after ← targetBudgetNow cfg
          if after > before then do
            Routine.modify fun m => { m with pressureFloor := max m.pressureFloor after }
            let m ← Routine.get
            Routine.lift (Prog.change (·.note (.floor m.pressureFloor)))
          else pure ()) := by
  by_cases hfull : want ≤ before
  · -- at full Capacity a pending shrink is kept
    simp only [hfull, if_true, decide_true]
    refine .bind (.lift fun m => ?_) fun _ =>
      Spec.pure fun m s _ hs => ⟨0, hs⟩
    refine .change fun s hi hs => ⟨hi.note rfl trivial, trivial, ?_⟩
    refine At.ready (P := fun s => TxnOk cfg given f s t)
      ⟨hs.1.low, hs.1.running, hs.1.fence, hs.1.txn, hs.1.kept.unmarked hs.1.low rfl rfl, ?_⟩
        fun h => h
    exact hs.1.here.1.pressure hshrinks
  · simp only [hfull, if_false, decide_false]
    have htail : Runs cfg given (Grown cfg given 0) (do
        let after ← targetBudgetNow cfg
        if after > before then do
          Routine.modify fun m => { m with pressureFloor := max m.pressureFloor after }
          let m ← Routine.get
          Routine.lift (Prog.change (·.note (.floor m.pressureFloor)))
        else pure ()) := by
      refine .bind (M := fun _ => Grown cfg given 0)
        (targetBudgetNow_rule fun _ _ hs => hs) fun after => ?_
      exact .ite (fun _ => raiseFloor_spec) fun _ => .pure fun _ _ _ hs => ⟨0, hs.ready⟩
    rcases filter_isGrow (t := t) with hnone | ⟨txn, rfl, hk⟩
    · -- a pending shrink is replaced, so its support may go
      refine .bind
        (M := fun _ m s => At 0 f t (fun s => (Steady cfg given s ∧
          (¬given.tracked → TxnOk cfg given f s t)) ∧ TargetBudget cfg given accepted s) m s ∧
        (cfg.balloon = false → m.targetBudget = accepted)) (.lift fun m => ?_) fun _ => ?_
      · refine .change fun s hi hs =>
          ⟨hi.note rfl trivial, trivial,
            ⟨hs.1.low, hs.1.running, hs.1.fence, hs.1.txn, hs.1.kept.unmarked hs.1.low rfl rfl, ?_,
            hs.1.here.2 hnone⟩, hs.2⟩
        have hst := hs.1.here.1.steady hnone
        exact ⟨⟨hst.rising, hst.known⟩, fun hg => hs.1.here.1.note (absurd · hg)⟩
      · refine Meets.andThen 0 (startGrow_new (f := f) hnone (fun _ hs => hs.1.1)
          (fun _ hs => hs.1.2) ?_) fun _ => htail
        intro hg m s hs hm hskip
        have hknown := knownBudget_le hg hs.1.1 hs.2 hm
        rw [if_neg (by omega)] at hskip
        omega
    · refine .bind (M := fun _ => At 0 f (some txn) fun s => TxnOk cfg given f s (some txn))
        (.lift fun m => ?_) fun _ => ?_
      · refine .change fun s hi hs =>
            ⟨hi.note rfl trivial, trivial, hs.1.low, hs.1.running, hs.1.fence, hs.1.txn,
              hs.1.kept.unmarked hs.1.low rfl rfl, hs.1.here.1.note fun _ => .inl fun txn' ht => ?_⟩
        cases ht
        exact hk
      · exact Meets.andThen 0 (startGrow_extend hk) fun _ => htail

/-- A pressure signal below full Capacity leaves no shrink. -/
theorem processPressure_spec {pressure : PressureGrow} :
    Runs cfg given (Waiting cfg given) (processPressure cfg pressure) := by
  refine .bind (M := fun _ => Ready cfg given 0) (.modify fun m s _ hs => ?_) fun _ => ?_
  · obtain ⟨low, hr⟩ := hs
    exact ⟨rfl, { hr.kept with low := fun _ hne => absurd rfl hne }, hr.normalizing, hr.txn⟩
  refine .get fun m => .ite (fun hn => .lift fun m' => ?_) fun hn => ?_
  · refine .change fun s hi hs => ?_
    obtain ⟨rfl, hr⟩ := hs
    obtain ⟨ht, hnorm⟩ := hr.normalizing hn
    exact ⟨hi.note rfl trivial, trivial, 0, hr.low, hr.kept.unmarked hr.low rfl rfl,
      fun _ => ⟨ht, fun hb =>
      { hnorm.cleared hb with }, hnorm.high, hnorm.closed⟩, fun hn' => absurd hn' (by simp [hn])⟩
  · refine .bind (M := fun b m' s => At 0 m.shrinkReportFence m.txn (fun s =>
        TxnOk cfg given m.shrinkReportFence s m.txn ∧
        (m.txn.filter (·.isGrow) = none → TargetBudget cfg given b s)) m' s ∧
        (cfg.balloon = false → m'.targetBudget = b))
      (targetBudgetNow_rule fun m' s hs => ?_) fun b => ?_
    · obtain ⟨rfl, hr⟩ := hs
      refine ⟨(hr.at (Bool.eq_false_iff.2 hn)).imp fun h =>
        ⟨h, fun hf => (h.steady hf).targetBudget⟩, fun hb => ?_⟩
      rw [Controller.knownBudget, if_neg (by simp [hb])]
    · refine pressureGrow_spec rfl (Nat.le_max_left ..) ?_
      split <;> omega

end Sandboxer.Resctl
