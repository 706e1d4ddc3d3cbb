import Sandboxer.Resctl.Coverage

/-! # Applying a target

What the balloon controller does to the assertions: an observation teaches the
accepted target, a cleared target may be applied in any state, and the inflate
of a shrink is one backed step above everything outstanding. -/
namespace Sandboxer.Resctl

open Lib.Threads

variable {cfg : Config} {given : Premises}

/-! ## What the balloon controller leaves alone -/

def Note.ofBalloon : Note → Bool
  | .observed _ | .resize .. => true
  | _ => false

/-- `memory.high`, the reservation and the report queue stay as they are. -/
structure Calm (s s' : World) : Prop where
  high : s'.high = s.high
  reservation : s'.reservation = s.reservation
  lastHigh : lastHigh s'.log = lastHigh s.log
  log : s.log <:+ s'.log
  journal : s'.journal = s.journal ∨ ∃ n, n.ofBalloon = true ∧ s'.journal = n :: s.journal
  reportsOpen : s'.reportsOpen = s.reportsOpen
  reportEvents : s'.reportEvents = s.reportEvents

theorem Calm.refl (s : World) : Calm s s :=
  ⟨rfl, rfl, rfl, List.suffix_refl _, .inl rfl, rfl, rfl⟩

theorem Raised.congr {log log' : List Event} {b : Nat} {high : High}
    (h : lastHigh log' = lastHigh log) (hr : Raised cfg log b high) : Raised cfg log' b high := by
  simpa only [Raised, HighFor, h] using hr

theorem Settled.congr {log log' : List Event} {b : Nat} {high : High}
    (h : lastHigh log' = lastHigh log) (hr : Settled cfg log b high) : Settled cfg log' b high := by
  simpa only [Settled, HighFor, h] using hr

/-! ## Actions -/

variable {s : World}

theorem Inv.commitObservation (hi : Inv cfg given s) (o : Observation) :
    Inv cfg given (s.commitObservation o) :=
  ⟨hi.covers, fun hg => ⟨trivial, hi.logged hg⟩, hi.noDevice, fun hl => ⟨trivial, hi.journaled hl⟩,
    hi.ordered.note rfl rfl rfl rfl rfl⟩

variable {t : Nat}

theorem Inv.issueResize (hi : Inv cfg given s) (hb : cfg.balloon = true)
    (hcov : given.covered → budgetFromTarget cfg.capacity t ≤ s.reservation)
    (hlog : given.covered → ResizeOk cfg t s.ch.accepted s.reservation s.high s.log)
    (hback : given.lower → s.ch.accepted < t → Backed cfg t s.journal) (o : ResizeOutcome) :
    Inv cfg given (s.issueResize t o) := by
  refine ⟨fun hg x hx => ?_, fun hg => ⟨hlog hg, hi.logged hg⟩, fun hn => ?_,
    fun hl => ⟨hback hl, hi.journaled hl⟩, hi.ordered.note rfl rfl rfl rfl rfl⟩
  · rcases resize_targets hx with hx | rfl
    · exact hi.covers hg x hx
    · exact hcov hg
  · rw [hb] at hn
    cases hn

/-- Code of the balloon controller. -/
abbrev Calmly (cfg : Config) (given : Premises) {α : Type} (P : World → Prop) (p : Prog World α)
    (Q : α → World → Prop) : Prop :=
  Sat (Inv cfg given) Rely Calm P p Q

variable {P : World → Prop}

theorem Calmly.look {α : Type} {g : World → α} [Lasting cfg given P] :
    Calmly cfg given P (Prog.look g) fun _ => P := .watch fun s _ => .refl s

/-- An observation, for what it teaches about the VMM. -/
theorem Sat.observe {Q : Except Failure BalloonState → World → Prop} [∀ r, Lasting cfg given (Q r)]
    (hok : ∀ s o, Inv cfg given s → P s → o.acceptedTarget = s.ch.accepted →
      o.balloonCurrent = cfg.capacity - o.currentBudget →
      Q (.ok (s.balloon.commitObservation o)) (s.commitObservation o))
    (herr : ∀ s e, Inv cfg given s → P s → Q (.error e) s) :
    Calmly cfg given P (Prog.atomic (observe cfg)) Q := by
  refine .atomic fun s r s' hi hs hstep => ?_
  obtain ⟨answer, ha, hr⟩ := hstep
  cases hread : readMemoryObservation cfg.capacity answer with
  | error e =>
    rw [hread] at hr
    obtain ⟨rfl, rfl⟩ := hr
    exact ⟨hi, .refl _, herr _ e hi hs⟩
  | ok o =>
    rw [hread] at hr
    obtain ⟨rfl, rfl⟩ := hr
    obtain ⟨hacc, hcur⟩ := readMemoryObservation_ok ha hread
    exact ⟨hi.commitObservation o,
      ⟨rfl, rfl, rfl, List.suffix_cons .., .inr ⟨_, rfl, rfl⟩, rfl, rfl⟩, hok s o hi hs hacc hcur⟩

/-- A resize that is covered, in order and backed. -/
theorem Sat.resize {Q : Except Failure Unit → World → Prop}
    {may : Vmm → Prop} [∀ r, Lasting cfg given (Q r)] (hb : cfg.balloon = true)
    (hcov : ∀ s, Inv cfg given s → P s → may s.ch → given.covered →
      budgetFromTarget cfg.capacity t ≤ s.reservation)
    (hlog : ∀ s, Inv cfg given s → P s → may s.ch → given.covered →
      ResizeOk cfg t s.ch.accepted s.reservation s.high s.log)
    (hback : ∀ s, Inv cfg given s → P s → may s.ch → given.lower → s.ch.accepted < t →
      Backed cfg t s.journal)
    (h : ∀ s o, Inv cfg given s → P s → may s.ch → Q o.result (s.issueResize t o)) :
    Calmly cfg given P (Prog.atomic (callResize may t)) Q := by
  refine .atomic fun s r s' hi hs hstep => ?_
  obtain ⟨hm, o, rfl, rfl⟩ := hstep
  exact ⟨hi.issueResize hb (hcov s hi hs hm) (hlog s hi hs hm) (hback s hi hs hm) o,
    ⟨rfl, rfl, rfl, List.suffix_cons .., .inr ⟨_, rfl, rfl⟩, rfl, rfl⟩, h s o hi hs hm⟩

/-- A change of the balloon controller's own record. -/
theorem Sat.record {Q : World → Prop} [Lasting cfg given Q] {f : World → World}
    (hf : ∀ s, ∃ b, f s = { s with balloon := b }) (h : ∀ s, Inv cfg given s → P s → Q (f s)) :
    Calmly cfg given P (Prog.change f) fun _ => Q := by
  refine .change fun s hi hs => ?_
  have hq := h s hi hs
  obtain ⟨b, hb⟩ := hf s
  rw [hb] at hq ⊢
  exact ⟨{ hi with ordered := { hi.ordered with } }, { Calm.refl s with }, hq⟩

/-! ## Confirming -/

/-- After a resize: `P` holds on, and a confirmed target is one observed then. -/
theorem confirmResize_spec {K : BalloonState → World → Prop} [Lasting cfg given P]
    [∀ b, Lasting cfg given (K b)] {pre : Option Failure} {resized : Except Failure Unit}
    (h : ∀ s o, Inv cfg given s → P s → o.acceptedTarget = s.ch.accepted →
      P (s.commitObservation o) ∧
        (o.acceptedTarget = t → K (s.balloon.commitObservation o) (s.commitObservation o))) :
    Calmly cfg given P (confirmResize cfg t pre resized)
      fun r s => P s ∧ (r.2 = .ok () → K r.1 s) := by
  refine .bind (M := fun r s => P s ∧ ∀ b, r = .ok b → b.acceptedTarget = t → K b s)
    (Sat.observe ?_ ?_) fun r => ?_
  · intro s o hi hs hacc _
    obtain ⟨hp, hk⟩ := h s o hi hs hacc
    exact ⟨hp, fun b hb ht => by cases hb; exact hk ht⟩
  · intro s e _ hs
    exact ⟨hs, nofun⟩
  cases r with
  | ok b =>
    refine .ite (fun ht => .pure fun s _ hs => ⟨hs.1, fun _ => hs.2 b rfl ht⟩) fun _ =>
      Sat.pure fun s _ hs => ⟨hs.1, nofun⟩
  | error e =>
    exact .bind (Calmly.look.pre fun _ _ hs => hs.1) fun b => .pure fun s _ hs => ⟨hs, nofun⟩

/-! ## A cleared target -/

/-- `memory.high` does not stand against deflating to `t`. -/
def MayDeflate (cfg : Config) (t : Nat) (s : World) : Prop :=
  s.high = .max ∨ Raised cfg s.log (budgetFromTarget cfg.capacity t) s.high

/-- `t` is cleared and `memory.high` is up. -/
structure Due (cfg : Config) (given : Premises) (t : Nat) (s : World) : Prop where
  cleared : Cleared cfg given t s
  high : MayDeflate cfg t s

theorem MayDeflate.congr {s' : World} (h : MayDeflate cfg t s) (hh : s'.high = s.high)
    (hl : lastHigh s'.log = lastHigh s.log) : MayDeflate cfg t s' :=
  h.imp (fun hm => hh.trans hm) fun hr => by rw [hh]; exact hr.congr hl

theorem Due.rely {s' : World} (h : Rely s s') (hd : Due cfg given t s) : Due cfg given t s' :=
  ⟨hd.cleared.rely h, hd.high.congr h.high (by rw [h.log])⟩

instance Due.lasting : Lasting cfg given (Due cfg given t) := ⟨fun _ _ _ _ hd hr => hd.rely hr⟩

section

variable (h : Due cfg given t s)

include h

theorem Due.commitObservation (o : Observation) : Due cfg given t (s.commitObservation o) :=
  ⟨{ h.cleared with }, h.high.congr rfl rfl⟩

theorem Due.issueResize (o : ResizeOutcome) : Due cfg given t (s.issueResize t o) := by
  refine ⟨⟨h.cleared.applying.resize o, h.cleared.covered, fun hl hg x hx => ?_⟩,
    h.high.congr rfl rfl⟩
  rcases resize_targets hx with hx | rfl
  · exact h.cleared.above hl hg x hx
  · exact le_rfl

/-- Once a cleared target is accepted, the balloon is steady again. -/
theorem Due.steady {o : Observation} (hacc : o.acceptedTarget = s.ch.accepted)
    (ht : o.acceptedTarget = t) :
    Steady cfg given (s.commitObservation o) := by
  have hconst := h.cleared.applying.constant (hacc.symm.trans ht)
  refine ⟨.of_constant fun hg x hx => ?_, fun _ => ⟨rfl, fun hg x hx => ?_⟩⟩
  · exact (hconst hg x hx).trans (ht.symm.trans hacc)
  · exact le_of_eq (ht.trans (hconst hg x hx).symm)

end

theorem resizeAndConfirm_due {pre : Option Failure} (hb : cfg.balloon = true) :
    Calmly cfg given (Due cfg given t) (resizeAndConfirm cfg t pre)
      fun r s => Due cfg given t s ∧ (r.2 = .ok () → Steady cfg given s) := by
  have hconfirm : ∀ resized, Calmly cfg given (Due cfg given t)
      (confirmResize cfg t pre resized)
      fun r s => Due cfg given t s ∧ (r.2 = .ok () → Steady cfg given s) := fun resized =>
    confirmResize_spec (K := fun _ => Steady cfg given) fun s o _ hs hacc =>
      ⟨hs.commitObservation o, hs.steady hacc⟩
  refine .bind (M := fun _ => Due cfg given t)
    (Sat.resize hb (fun s _ hs _ => hs.cleared.covered)
      (fun s _ hs _ hg _ => ⟨hs.cleared.covered hg, hs.high⟩) ?_ fun s o _ hs _ => hs.issueResize o)
        fun r => ?_
  · -- a cleared target is below whatever the VMM holds
    intro s _ hs _ hl hlt
    exact absurd hlt (not_lt.2 (hs.cleared.above hl (.inr hl) _ (accepted_mem_targets s.ch)))
  cases r with
  | ok u =>
    refine .bind (Sat.record (fun s => ⟨_, rfl⟩) ?_) fun _ => hconfirm _
    exact fun s _ hs => ⟨{ hs.cleared with }, hs.high⟩
  | error e => exact hconfirm _

/-- A cleared target stays cleared, and the balloon is steady once it is confirmed. -/
theorem applyDesiredHeld_spec (hb : cfg.balloon = true) :
    Calmly cfg given (fun s => Due cfg given t s ∧ s.balloon.desiredTarget = t)
      (applyDesiredHeld cfg)
      fun r s => Due cfg given t s ∧ (r.2 = .ok () → Steady cfg given s) := by
  refine .bind (M := fun b s => Due cfg given t s ∧ b.desiredTarget = t)
    (Sat.look (fun s _ => Calm.refl s) fun s _ hs => hs) fun start => .fact fun ht => ?_
  subst ht
  simp only
  split
  · exact .pure fun s _ hs => ⟨hs, nofun⟩
  refine .bind (M := fun r s => Due cfg given start.desiredTarget s ∧
      ∀ b, r = .ok b → b.acceptedTarget = start.desiredTarget → Steady cfg given s)
    (Sat.observe ?_ ?_) fun r => ?_
  · intro s o _ hs hacc _
    exact ⟨hs.commitObservation o, fun b hb ht => by cases hb; exact hs.steady hacc ht⟩
  · exact fun s e _ hs => ⟨hs, nofun⟩
  cases r with
  | ok b =>
    refine .ite (fun ht => .pure fun s _ hs => ⟨hs.1, fun _ => hs.2 b rfl ht⟩) fun _ => ?_
    exact (resizeAndConfirm_due hb).pre fun s _ hs => hs.1
  | error e => exact (resizeAndConfirm_due hb).pre fun s _ hs => hs.1

end Sandboxer.Resctl
