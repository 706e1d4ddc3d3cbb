import Sandboxer.Resctl.Inflate

/-! # Growth and shrink transactions

What the private state of the controller has to do with the world between two
steps of a transaction (`TxnOk`), and that growing and shrinking keep it at every point where
they can stop. -/
namespace Sandboxer.Resctl

open Lib.Threads Lib.Threads.Routine

variable {cfg : Config} {given : Premises} {low : Nat}

/-! ## The private state -/

/-- The fence and the pressure floor agree with the journal. -/
structure Kept (m : Controller) (journal : List Note) : Prop where
  fence : ∀ r, .accepted r ∈ journal → m.shrinkReportFence < r.seq →
    Since (.accepted r) Note.isFinished journal
  floor : (floorState journal).1 = 0 ∨ (floorState journal).1 = m.pressureFloor
  low : (floorState journal).1 ≠ 0 → m.pressureLowSeq ≠ 0 → (floorState journal).2 = true

variable (cfg) (given)

/-- A growth whose target is prepared. -/
structure Prepared (txn : MemoryTransaction) (s : World) : Prop where
  cleared : cfg.balloon = true → Cleared cfg given txn.target s
  budget : budgetFromTarget cfg.capacity txn.target = txn.targetBudget
  raised : txn.highApplied = true → Raised cfg s.log txn.targetBudget s.high

structure Retained (fence : Nat) (txn : MemoryTransaction) (s : World) : Prop where
  steady : Steady cfg given s
  high : txn.highApplied = true → Settled cfg s.log txn.highBudget s.high
  accepted : txn.targetChange = false → txn.resizeAccepted = true
  aligned : txn.targetChange = true → memoryStep ∣ txn.target ∧
    txn.targetBudget = budgetFromTarget cfg.capacity txn.target ∧ fence < txn.reportSeq
  support : txn.targetChange = true → ∃ report requested, report.seq = txn.reportSeq ∧
    Support cfg given txn.target report requested s.journal

def TxnOk (fence : Nat) (s : World) : Option MemoryTransaction → Prop
  | none => Steady cfg given s
  | some txn =>
    match txn.kind with
    | .grow => if txn.targetChange then Prepared cfg given txn s else Steady cfg given s
    | .shrink => Retained cfg given fence txn s

/-- The restore target is still to be confirmed. -/
structure Normalizing (t : Nat) (s : World) : Prop where
  cleared : cfg.balloon = true → Cleared cfg given t s
  high : s.high = .max
  closed : s.reportsOpen = false

/-- What holds between two steps, with the low-demand memory as it was. -/
structure Ready (low : Nat) (m : Controller) (s : World) : Prop where
  low : m.pressureLowSeq = low
  kept : Kept m s.journal
  normalizing : m.normalizationPending = true → m.txn = none ∧
    Normalizing cfg given m.normalizationTarget s
  txn : m.normalizationPending = false → TxnOk cfg given m.shrinkReportFence s m.txn

/-- The controller is past normalization, with a fence and a transaction. -/
structure At (low fence : Nat) (txn : Option MemoryTransaction) (P : World → Prop)
    (m : Controller) (s : World) : Prop where
  low : m.pressureLowSeq = low
  running : m.normalizationPending = false
  fence : m.shrinkReportFence = fence
  txn : m.txn = txn
  kept : Kept m s.journal
  here : P s

/-- No restriction on what the worker may do. -/
def Any (_ _ : World) : Prop := True

abbrev Meets (low : Nat) {α : Type} (P : Controller → World → Prop) (x : Ctl α)
    (Q : α → Controller → World → Prop) : Prop :=
  Spec (Inv cfg given) Rely Any P x Q (Ready cfg given low)

/-- A part of a step: the fence and the transaction stay as they are. -/
abbrev Step (low f : Nat) (t : Option MemoryTransaction) {α : Type}
    (P : World → Prop) (x : Ctl α) (Q : α → World → Prop) : Prop :=
  Meets cfg given low (At low f t P) x fun a => At low f t (Q a)

variable {given} {cfg} {f : Nat} {t : Option MemoryTransaction} {P : World → Prop} {m : Controller}
    {s : World}

theorem At.ready (h : At low f t P m s) (hp : P s → TxnOk cfg given f s t) :
    Ready cfg given low m s := by
  refine ⟨h.low, h.kept, fun hn => ?_, fun _ => ?_⟩
  · rw [h.running] at hn
    cases hn
  · rw [h.fence, h.txn]
    exact hp h.here

variable {Q : World → Prop}

theorem At.imp (h : At low f t P m s) (hp : P s → Q s) : At low f t Q m s :=
  { h with here := hp h.here }

/-! ## The journal and the private state -/

theorem Kept.note {journal : List Note} {n : Note} (h : Kept m journal)
    (hf : n.floorless = true) (hn : n.isFinished = false) : Kept m (n :: journal) := by
  have hs : floorState (n :: journal) = floorState journal := by
    rw [floorState_cons, floorStep_floorless hf]
  refine ⟨fun r hr hlt => ?_, hs ▸ h.floor, hs ▸ h.low⟩
  rcases List.mem_cons.1 hr with rfl | hr
  · exact .here ..
  · exact (h.fence r hr hlt).cons hn

instance Kept.heard : Heard (Kept m) := ⟨fun _ _ hj => hj.note rfl rfl⟩

variable {s' : World}

theorem Kept.calm (h : Calm s s') (hk : Kept m s.journal) : Kept m s'.journal := by
  rcases h.journal with heq | ⟨n, hn, heq⟩
  · rw [heq]; exact hk
  rw [heq]
  cases n with
  | observed _ | resize _ _ => exact hk.note rfl rfl
  | _ => cases hn

/-- A change of other fields of the private state. -/
theorem Kept.congr {m' : Controller} {journal : List Note} (h : Kept m journal)
    (hf : m'.shrinkReportFence = m.shrinkReportFence) (hp : m'.pressureFloor = m.pressureFloor)
    (hl : m'.pressureLowSeq = m.pressureLowSeq) : Kept m' journal :=
  ⟨by rw [hf]; exact h.fence, by rw [hp]; exact h.floor, by rw [hl]; exact h.low⟩

/-! ## Rules for the controller's routines -/

instance At.lasting [hP : Lasting cfg given P] : Lasting cfg given (At low f t P m) :=
  ⟨fun s s' hi hi' h hr =>
    { h with kept := hr.reading Heard.arrival h.kept, here := hP.stable s s' hi hi' h.here hr }⟩

variable {α : Type}

section Rules

variable {Q : α → World → Prop} [hQ : ∀ a, Lasting cfg given (Q a)]

/-- An action of the world that keeps the agreement of the journal with the private state. -/
theorem Meets.action {step : Section World α}
    (h : ∀ m s a s', Inv cfg given s → P s → Kept m s.journal → step s a s' →
      Inv cfg given s' ∧ Kept m s'.journal ∧ Q a s') :
    Step cfg given low f t P (Routine.lift (Prog.atomic step)) Q := by
  refine .lift fun m => .atomic fun s a s' hi hs hstep => ?_
  obtain ⟨hi', hk, hq⟩ := h m s a s' hi hs.here hs.kept hstep
  exact ⟨hi', trivial, hs.low, hs.running, hs.fence, hs.txn, hk, hq⟩

theorem Meets.look {g : World → α} (h : ∀ s, Inv cfg given s → P s → Q (g s) s) :
    Step cfg given low f t P (Routine.lift (Prog.look g)) Q := by
  refine .action fun m s a s' hi hs hk hstep => ?_
  obtain ⟨rfl, rfl⟩ := hstep
  exact ⟨hi, hk, h _ hi hs⟩

end Rules

/-- Code of the balloon controller. -/
theorem Meets.calm {p : Prog World α} {Q : α → World → Prop} (h : Calmly cfg given P p Q) :
    Step cfg given low f t P (Routine.lift p) Q := by
  refine Spec.lift fun m => ?_
  have hframe := h.frame (F := fun s => Kept m s.journal) fun s s' _ hc hk => hk.calm hc
  have hfact := Sat.fact (c := (m.pressureLowSeq = low ∧ m.normalizationPending = false) ∧
      m.shrinkReportFence = f ∧ m.txn = t)
    fun hc => (hframe.weaken fun _ _ _ => trivial).post
      (T := fun a => At low f t (Q a) m)
      fun a s _ hs => ⟨hc.1.1, hc.1.2, hc.2.1, hc.2.2, hs.2, hs.1⟩
  exact hfact.pre fun s _ hs => ⟨⟨hs.here, hs.kept⟩, ⟨hs.low, hs.running⟩, hs.fence, hs.txn⟩

/-- The private state is read for its fence and transaction. -/
theorem Meets.get {k : Controller → Ctl α} {Q : α → Controller → World → Prop}
    (h : ∀ m, m.txn = t → m.shrinkReportFence = f → Meets cfg given low (At low f t P) (k m) Q) :
    Meets cfg given low (At low f t P) (Routine.get >>= k) Q := by
  refine Spec.get fun m => Spec.pre (S := fun m' s => At low f t P m' s ∧
    m.txn = t ∧ m.shrinkReportFence = f) (Spec.fact fun hm => h m hm.1 hm.2) fun m' s _ hs => ?_
  obtain ⟨rfl, hs⟩ := hs
  exact ⟨hs, hs.txn, hs.fence⟩

theorem Meets.modifyTxn {t : MemoryTransaction} {g : MemoryTransaction → MemoryTransaction} :
    Meets cfg given low (At low f (some t) P) (modifyTxn g) fun _ => At low f (some (g t)) P := by
  refine .modify fun m s _ hs => ?_
  exact { hs with txn := by simp [hs.txn], kept := hs.kept.congr rfl rfl rfl }

theorem Meets.dropTxn :
    Meets cfg given low (At low f t P) (Routine.modify fun m => { m with txn := none })
      fun _ => At low f none P :=
  Spec.modify fun _ _ _ hs => { hs with txn := rfl, kept := hs.kept.congr rfl rfl rfl }

theorem Meets.record {b : BalloonState} :
    Step cfg given low f t P (recordBalloonState cfg b) fun _ => P :=
  Spec.modify fun _ _ _ hs => { hs with kept := hs.kept.congr rfl rfl rfl }

/-- The mutation gate is taken, or the worker is cancelled. -/
theorem acquireMutation_rule {P Q E : Controller → World → Prop} [∀ m, Lasting cfg given (P m)]
    [∀ m, Lasting cfg given (Q m)] (herr : ∀ m s, P m s → E m s)
    (h : ∀ m s, P m s → Q m (s.note .gate)) :
    Spec (Inv cfg given) Rely Any P acquireMutation (fun _ => Q) E := by
  refine .bind (M := fun _ => P) (.lift fun m => ?_) fun got => ?_
  · exact (Sat.choose fun _ _ => trivial).post fun _ _ _ hs => hs.1
  · refine .ite (fun _ => .lift fun m => ?_) fun _ => .fail fun m s _ hs => herr m s hs
    exact .change fun s hi hs => ⟨hi.note rfl trivial, trivial, h m s hs⟩

theorem acquireMutation_spec [Lasting cfg given P] [Lasting cfg given Q]
    (hready : ∀ s, P s → TxnOk cfg given f s t) (h : ∀ s, P s → Q (s.note .gate)) :
    Step cfg given low f t P acquireMutation fun _ => Q :=
  acquireMutation_rule (fun _ s hs => hs.ready (hready s)) fun _ s hs =>
      { hs with kept := hs.kept.note rfl rfl, here := h s hs.here }

/-- The desired target is set, or refused as invalid. -/
theorem setDesired_rule {P E : Controller → World → Prop} {target : Nat}
    [∀ m, Lasting cfg given (P m)]
    (herr : ∀ m s, P m s → E m s) (hset : ∀ m s, P m s → P m (s.setDesired target)) :
    Spec (Inv cfg given) Rely Any P (setDesired cfg target)
      (fun _ m s => P m s ∧ s.balloon.desiredTarget = target) E := by
  refine .bind (M := fun r m s => P m s ∧ (r = .ok () → s.balloon.desiredTarget = target))
    (.lift fun m => .weaken (G := Calm) ?_ fun _ _ _ => trivial) fun r => ?_
  · simp only [setDesiredTarget]
    split
    · exact .pure fun s _ hs => ⟨hs, nofun⟩
    · refine .bind (Sat.record (Q := fun s => P m s ∧ s.balloon.desiredTarget = target)
        (fun s => ⟨_, rfl⟩) fun s _ hs => ⟨hset m s hs, rfl⟩) fun _ => .pure fun s _ hs =>
          ⟨hs.1, fun _ => hs.2⟩
  · refine Spec.ofExcept (fun a m s he _ hs => ⟨hs.1, hs.2 he⟩) fun _ m s _ _ hs => herr m s hs.1

theorem setDesired_spec [Lasting cfg given P] {target : Nat}
    (hset : ∀ s, P s → P (s.setDesired target)) (hready : ∀ s, P s → TxnOk cfg given f s t) :
    Step cfg given low f t P (setDesired cfg target) fun _ s => P s ∧
      s.balloon.desiredTarget = target :=
  (setDesired_rule (fun _ s hs => hs.ready (hready s)) fun _ s hs =>
    { hs with here := hset s hs.here }).map
    fun _ _ _ _ hs => hs.1.imp fun h => ⟨h, hs.2⟩

theorem reservationNow_spec [Lasting cfg given P] :
    Step cfg given low f t P reservationNow fun r s => P s ∧ s.reservation = r :=
  Meets.look fun _ _ hs => ⟨hs, rfl⟩

/-- A report that is not superseded tells how far the sequence has come. -/
theorem shrinkReportSuperseded_spec [Lasting cfg given P] [Lasting cfg given Q] {seq : Nat}
    (h : ∀ s, Inv cfg given s → P s → s.reportSeq ≤ seq → Q s) :
    Step cfg given low f t P (shrinkReportSuperseded seq) fun b s => P s ∧ (b = false → Q s) :=
  Meets.look fun s hi hs => ⟨hs, fun hb => h s hi hs (not_lt.1 (of_decide_eq_false hb))⟩

theorem shrinkReportSuperseded_keeps [Lasting cfg given P] {seq : Nat} :
    Step cfg given low f t P (shrinkReportSuperseded seq) fun _ => P :=
  Meets.look fun _ _ hs => hs

/-! ## memory.high -/

/-- What an enforcement of `memory.high` leaves. -/
def Enforced (cfg : Config) (grow : Bool) (budget : Nat) (s : World) : Prop :=
  if grow then Raised cfg s.log budget s.high else Settled cfg s.log budget s.high

instance Enforced.lasting {grow : Bool} {b : Nat} : Lasting cfg given (Enforced cfg grow b) :=
  ⟨fun _ _ _ _ he hr => by rw [Enforced, hr.log, hr.high]; exact he⟩

/-- Enforcement either changes nothing or leaves `memory.high` as computed. -/
theorem World.applyMemoryHigh_cases (cfg : Config) (io : HighIo) (b d : Nat) (grow : Bool)
    (s : World) : (∃ e, s.applyMemoryHigh cfg io b d grow = (.error e, s)) ∨
    ∃ high log, s.applyMemoryHigh cfg io b d grow = (.ok (), { s with high, log }) ∧
      Enforced cfg grow b { s with high, log } ∧ (Logged cfg s.log → Logged cfg log) ∧
      s.log <:+ log := by
  simp only [World.applyMemoryHigh]
  split
  next hcg =>
    refine .inr ⟨s.high, s.log, rfl, ?_, id, List.suffix_refl _⟩
    simp only [Bool.not_eq_true'] at hcg
    unfold Enforced
    split <;> intro hc <;> rw [hcg] at hc <;> cases hc
  · split
    · exact .inl ⟨_, rfl⟩
    · split
      · exact .inl ⟨_, rfl⟩
      next host _ =>
        split
        · exact .inl ⟨_, rfl⟩
        next result hres =>
          split
          · exact .inl ⟨_, rfl⟩
          split
          next hgrow =>
            simp only [Bool.and_eq_true] at hgrow
            refine .inr ⟨s.high, _, rfl, ?_, fun hl => ⟨trivial, hl⟩, List.suffix_cons ..⟩
            rw [Enforced, if_pos hgrow.1]
            exact fun _ => ⟨d, host, result, by rw [hgrow.1]; rfl, hres, hgrow.2⟩
          · split
            · exact .inl ⟨_, rfl⟩
            · refine .inr ⟨.bytes result.hostMemoryHigh, _, rfl, ?_, fun hl => ⟨trivial, hl⟩,
                List.suffix_cons ..⟩
              cases grow with
              | true => exact fun _ => ⟨d, host, result, rfl, hres, by simp [High.atLeast]⟩
              | false => exact fun _ => ⟨d, host, result, rfl, hres, rfl⟩

theorem applyMemoryHigh_spec [Lasting cfg given P] [Lasting cfg given Q]
    {b d : Nat} {grow : Bool} (hready : ∀ s, P s → TxnOk cfg given f s t)
    (h : ∀ s high log, s.log <:+ log → P s → Q { s with high, log }) :
    Step cfg given low f t P (applyMemoryHigh cfg b d grow) fun _ s => Q s ∧
      Enforced cfg grow b s := by
  refine Spec.bind (M := fun r => At low f t fun s => (∀ e, r = .error e → P s) ∧
      (r = .ok () → Q s ∧ Enforced cfg grow b s)) (Meets.action ?_) fun r => ?_
  · intro m s r s' hi hs hk hstep
    obtain ⟨io, hio⟩ := hstep
    rcases s.applyMemoryHigh_cases cfg io b d grow with ⟨e, he⟩ | ⟨high, log, he, henf, hlog, hsuf⟩
    · rw [he] at hio
      cases hio
      exact ⟨hi, hk, fun _ _ => hs, nofun⟩
    rw [he] at hio
    cases hio
    exact ⟨{ hi with logged := fun hg => hlog (hi.logged hg), ordered := { hi.ordered with } }, hk,
      nofun, fun _ => ⟨h s high log hsuf hs, henf⟩⟩
  · exact Spec.ofExcept (fun a m s he _ hs => hs.imp fun h => h.2 he)
      fun e m s he _ hs => hs.ready fun h => hready s (h.1 e he)

end Sandboxer.Resctl
