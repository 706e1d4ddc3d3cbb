import Mathlib.Data.List.Nodup
import Sandboxer.Resctl.Authorization

/-! # What the controller keeps about the balloon

The targets of the VMM are the accepted one and those of unanswered resizes, in
issue order. Away from growth they rise, within one step of the accepted one,
so whatever takes effect leaves no larger Budget than the last observation. While a
growth or a restore target is being applied, they end in copies of that target.
The history clauses say when a deflating resize and a smaller reservation are
in order. -/
namespace Sandboxer.Resctl

open Lib.Threads

/-- What is given when the controller starts. What is kept depends on it: only if
the reservation covers the targets then does it cover them later, and only if the
restore target is no larger than the accepted one is every inflating resize one of
a shrink. -/
structure Premises where
  /-- the reservation covers the accepted and the restore target -/
  covered : Prop
  /-- the restore target is no larger than the accepted one -/
  lower : Prop

/-- The order of the targets matters, and is kept. -/
def Premises.tracked (given : Premises) : Prop := given.covered ∨ given.lower

variable {cfg : Config} {given : Premises}

/-! ## Targets -/

/-- The accepted target and those that may still take effect. -/
def Vmm.targets (ch : Vmm) : List Nat := ch.accepted :: ch.outstanding

section

variable (given) (t : Nat) (ch : Vmm)

def Above : Prop := given.tracked → ∀ x ∈ ch.targets, t ≤ x

def Below : Prop := given.tracked → ∀ x ∈ ch.targets, x ≤ t

/-- Effects in issue order only ever raise the target, within one step. -/
structure Rising : Prop where
  sorted : given.tracked → ch.targets.Pairwise (· ≤ ·)
  near : Below given (nextStep ch.accepted) ch

/-- After the first copy of `t` come only copies of `t`. -/
def Applying : Prop :=
  given.tracked → ∃ before n, ch.targets = before ++ List.replicate n t ∧ t ∉ before

end

variable {ch : Vmm}

theorem Rising.above (h : Rising given ch) : Above given ch.accepted ch := by
  intro hg x hx
  rcases List.mem_cons.1 hx with rfl | hx
  · exact le_rfl
  · exact (List.pairwise_cons.1 (h.sorted hg)).1 x hx

/-- A single target, possibly issued several times. -/
theorem Rising.of_constant (h : given.tracked → ∀ x ∈ ch.targets, x = ch.accepted) :
    Rising given ch := by
  constructor
  · refine fun hg => List.pairwise_iff_forall_sublist.2 fun {a b} hab => ?_
    have ha := h hg a (hab.subset (by simp))
    have hb := h hg b (hab.subset (by simp))
    omega
  · intro hg x hx
    rw [h hg x hx]
    exact le_nextStep _

theorem Rising.settled (h : ch.outstanding = []) : Rising given ch :=
  .of_constant fun _ x hx => by simpa [Vmm.targets, h] using hx

variable {t : Nat}

/-- Once the applied target is accepted, only copies of it are left. -/
theorem Applying.constant (h : Applying given t ch) (ha : ch.accepted = t) (hg : given.tracked) :
    ∀ x ∈ ch.targets, x = t := by
  obtain ⟨before, n, heq, hnot⟩ := h hg
  cases before with
  | nil =>
    intro x hx
    rw [heq] at hx
    exact List.eq_of_mem_replicate hx
  | cons b bs =>
    have hb : ch.accepted = b := (List.cons.inj heq).1
    exact absurd (List.mem_cons.2 (.inl (ha.symm.trans hb))) hnot

theorem Applying.of_notMem (h : given.tracked → t ∉ ch.targets) : Applying given t ch :=
  fun hg => ⟨ch.targets, 0, by simp, h hg⟩

theorem Applying.settled (h : ch.outstanding = []) : Applying given t ch := by
  by_cases ht : ch.accepted = t
  · exact fun _ => ⟨[], 1, by simp [Vmm.targets, h, ht], by simp⟩
  · refine .of_notMem fun _ => ?_
    simpa [Vmm.targets, h] using fun e : t = ch.accepted => ht e.symm

theorem Applying.resize (h : Applying given t ch) (o : ResizeOutcome) :
    Applying given t (ch.resize t o) := by
  cases o with
  | accepted => exact .settled rfl
  | refused => exact h
  | lost =>
    intro hg
    obtain ⟨before, n, heq, hnot⟩ := h hg
    refine ⟨before, n + 1, ?_, hnot⟩
    have : (ch.resize t .lost).targets = ch.targets ++ [t] := rfl
    rw [this, heq, List.append_assoc, ← List.replicate_succ']

/-- A resize to an aligned step above everything before it keeps the targets rising. -/
theorem Rising.resize {a : Nat} (h : Rising given ch) (ha : Above given a ch)
    (ht : t ≤ nextStep a) (hb : Below given t ch) (o : ResizeOutcome) :
    Rising given (ch.resize t o) := by
  cases o with
  | accepted => exact .settled rfl
  | refused => exact h
  | lost =>
    have heq : (ch.resize t .lost).targets = ch.targets ++ [t] := rfl
    constructor
    · intro hg
      rw [heq, List.pairwise_append]
      refine ⟨h.sorted hg, List.pairwise_singleton .., fun x hx y hy => ?_⟩
      rw [List.mem_singleton.1 hy]
      exact hb hg x hx
    · intro hg x hx
      rw [heq] at hx
      rcases List.mem_append.1 hx with hx | hx
      · exact h.near hg x hx
      · rw [List.mem_singleton.1 hx]
        exact ht.trans (nextStep_mono (ha hg _ (.head _)))

theorem resize_targets {x : Nat} {o : ResizeOutcome}
    (h : x ∈ (ch.resize t o).targets) : x ∈ ch.targets ∨ x = t := by
  cases o with
  | accepted => exact .inr (by simpa [Vmm.resize, Vmm.targets] using h)
  | refused => exact .inl h
  | lost =>
    have heq : (ch.resize t .lost).targets = ch.targets ++ [t] := rfl
    rw [heq] at h
    exact (List.mem_append.1 h).imp id List.mem_singleton.mp

/-! ## The history -/

def Event.isHigh : Event → Bool
  | .high .. => true
  | _ => false

variable (log : List Event)

/-- The latest enforcement of `memory.high`. -/
def lastHigh : Option Event := log.find? (·.isHigh)

variable (cfg)

/-- `memory.high` was last enforced for `budget`, and `P` holds of the limit
computed then. -/
def HighFor (grow : Bool) (budget : Nat) (P : Nat → Prop) : Prop :=
  ∃ demand host result, lastHigh log = some (.high grow budget demand host) ∧
    calculateMemoryHigh cfg.capacity cfg.overhead budget demand cfg.ratio host = .ok result ∧
    P result.hostMemoryHigh

/-- `memory.high` was raised for `budget`. -/
def Raised (budget : Nat) (high : High) : Prop :=
  cfg.cgroup = true → HighFor cfg log true budget (high.atLeast ·)

/-- `memory.high` was set for `budget`. -/
def Settled (budget : Nat) (high : High) : Prop :=
  cfg.cgroup = true → HighFor cfg log false budget (high = .bytes ·)

/-- A deflating resize stays within the reservation and comes after `memory.high`
was raised for its Budget, or while it is unlimited. -/
def ResizeOk (target accepted reservation : Nat) (high : High) (earlier : List Event) : Prop :=
  target < accepted → budgetFromTarget cfg.capacity target ≤ reservation ∧
    (high = .max ∨ Raised cfg earlier (budgetFromTarget cfg.capacity target) high)

/-- A smaller reservation is an observed Budget, for which `memory.high` was set
and which a later observation with the same accepted target confirmed. -/
def ReservedOk (old new : Nat) (high : High) (earlier : List Event) : Prop :=
  new < old → ∃ observed confirmed rest, earlier = .observed confirmed :: rest ∧
      .observed observed ∈ rest ∧ new = observed.budget cfg.capacity ∧
      Settled cfg rest new high ∧
      confirmed.acceptedTarget = observed.acceptedTarget ∧
      confirmed.budget cfg.capacity ≤ new

def EventOk (earlier : List Event) : Event → Prop
  | .resize target accepted reservation high =>
    ResizeOk cfg target accepted reservation high earlier
  | .reserved old new high => ReservedOk cfg old new high earlier
  | .observed _ | .high .. => True

/-- Every event was in order when it happened. -/
def Logged : List Event → Prop
  | [] => True
  | e :: earlier => EventOk cfg earlier e ∧ Logged earlier

variable {cfg}

theorem Logged.event {later earlier : List Event} {e : Event}
    (h : Logged cfg (later ++ e :: earlier)) : EventOk cfg earlier e := by
  induction later with
  | nil => exact h.1
  | cons _ _ ih => exact ih h.2

/-! ## Assertions about the world -/

/-- The reservation covers whatever the VMM holds or may still take. -/
def Covers (cfg : Config) (s : World) : Prop :=
  ∀ t ∈ s.ch.targets, budgetFromTarget cfg.capacity t ≤ s.reservation

/-- Between growths: the targets rise from the last one known here. -/
structure Steady (cfg : Config) (given : Premises) (s : World) : Prop where
  rising : Rising given s.ch
  known : cfg.balloon = true → s.balloon.acceptedTargetKnown = true ∧
    Above given s.balloon.acceptedTarget s.ch

/-- `target` may be applied whatever the VMM holds. -/
structure Cleared (cfg : Config) (given : Premises) (target : Nat) (s : World) : Prop where
  applying : Applying given target s.ch
  covered : given.covered → budgetFromTarget cfg.capacity target ≤ s.reservation
  above : given.lower → Above given target s.ch

/-- Reports are accepted, queued and decided in the order of their sequence. -/
structure Ordered (s : World) : Prop where
  sorted : (reports s.journal).Pairwise fun a b => b.seq < a.seq
  newest : s.reportSeq = ((reports s.journal).head?.map (·.seq)).getD 0
  closed : s.reportsOpen = false → reports s.journal = []
  decided : ∀ r q g, .decided r q g ∈ s.journal → .accepted r ∈ s.journal
  queue : s.reportEvents.Pairwise fun a b => a.seq < b.seq
  queued : ∀ r ∈ s.reportEvents, .accepted r ∈ s.journal ∧ r.seq ≠ 0 ∧
    ∀ r' q g, .decided r' q g ∈ s.journal → r'.seq < r.seq

structure Inv (cfg : Config) (given : Premises) (s : World) : Prop where
  covers : given.covered → Covers cfg s
  logged : given.covered → Logged cfg s.log
  noDevice : cfg.balloon = false → s.ch.accepted = 0 ∧ s.ch.outstanding = []
  journaled : given.lower → Journaled cfg s.journal
  ordered : Ordered s

/-! ## Reports -/

variable {s : World}

theorem Ordered.le_seq (h : Ordered s) {r : MemReport} (hr : .accepted r ∈ s.journal) :
    r.seq ≤ s.reportSeq := by
  have hmem := mem_reports.2 hr
  rw [h.newest]
  cases hl : reports s.journal with
  | nil => rw [hl] at hmem; cases hmem
  | cons a l =>
    rw [hl] at hmem
    rcases List.mem_cons.1 hmem with rfl | hmem
    · exact le_rfl
    · have hs := h.sorted
      rw [hl] at hs
      exact le_of_lt ((List.pairwise_cons.1 hs).1 r hmem)

theorem Ordered.submit (h : Ordered s) (r : MemReport) : Ordered (s.submitGuestReport r) := by
  simp only [World.submitGuestReport]
  split
  · exact h
  next hopen =>
    split
    · exact h
    split
    · exact { h with }
    next hseq =>
      have hnew : ∀ r' : MemReport, .accepted r' ∈ s.journal → r'.seq < r.seq := fun r' hr' =>
        lt_of_le_of_lt (h.le_seq hr') (not_le.1 hseq)
      refine ⟨?_, rfl, fun hc => ?_, fun r' q g hd => ?_, ?_, fun r' hr' => ?_⟩
      · exact List.pairwise_cons.2 ⟨fun r' hr' => hnew r' (mem_reports.1 hr'), h.sorted⟩
      · exact absurd (.inl hc) hopen
      · rcases List.mem_cons.1 hd with hd | hd
        · cases hd
        · exact .tail _ (h.decided r' q g hd)
      · split
        · refine List.pairwise_append.2 ⟨h.queue, List.pairwise_singleton .., fun a ha b hb => ?_⟩
          rw [List.mem_singleton.1 hb]
          exact hnew a (h.queued a ha).1
        · exact h.queue
      · -- a queued report is an old one or the one that just came
        have hcase : r' ∈ s.reportEvents ∨ r' = r := by
          split at hr'
          · exact (List.mem_append.1 hr').imp id List.mem_singleton.mp
          · exact .inl hr'
        have hdrop : ∀ a q g, .decided a q g ∈ Note.accepted r :: s.journal →
            .decided a q g ∈ s.journal := by
          intro a q g hd
          rcases List.mem_cons.1 hd with hd | hd
          · cases hd
          · exact hd
        rcases hcase with hold | rfl
        · obtain ⟨ha, hpos, hd⟩ := h.queued r' hold
          exact ⟨.tail _ ha, hpos, fun a q g hm => hd a q g (hdrop a q g hm)⟩
        · refine ⟨(.head _), fun h0 => hopen (.inr (.inr h0)), fun a q g hm => ?_⟩
          exact hnew a (h.decided a q g (hdrop a q g hm))

/-- A note of the worker that is neither an acceptance nor a decision. -/
def Note.neutral : Note → Bool
  | .accepted _ | .decided .. => false
  | _ => true

variable {s' : World}

theorem Ordered.note {n : Note} (h : Ordered s) (hn : n.neutral = true)
    (hj : s'.journal = n :: s.journal) (hs : s'.reportSeq = s.reportSeq)
    (ho : s'.reportsOpen = s.reportsOpen) (hq : s'.reportEvents = s.reportEvents) : Ordered s' := by
  have hr : reports s'.journal = reports s.journal := by
    rw [hj, reports_cons _ (by rintro r rfl; cases hn)]
  have hd : ∀ r q g, .decided r q g ∈ s'.journal → .decided r q g ∈ s.journal := by
    intro r q g hm
    rw [hj] at hm
    rcases List.mem_cons.1 hm with rfl | hm
    · cases hn
    · exact hm
  have ha : ∀ r, .accepted r ∈ s.journal → .accepted r ∈ s'.journal := by
    intro r hm
    rw [hj]
    exact .tail _ hm
  refine ⟨hr ▸ h.sorted, by rw [hs, hr]; exact h.newest, fun hc => hr ▸ h.closed (ho ▸ hc),
    fun r q g hm => ha r (h.decided r q g (hd r q g hm)), hq ▸ h.queue, fun r hm => ?_⟩
  obtain ⟨hacc, hpos, hdec⟩ := h.queued r (hq ▸ hm)
  exact ⟨ha r hacc, hpos, fun r' q g hm' => hdec r' q g (hd r' q g hm')⟩

/-! ## Stability -/

/-- What the surroundings can do to the assertions. -/
structure Rely (s s' : World) : Prop where
  targets : s'.ch.targets.Sublist s.ch.targets
  reservation : s'.reservation = s.reservation
  high : s'.high = s.high
  log : s'.log = s.log
  desired : s'.balloon.desiredTarget = s.balloon.desiredTarget
  accepted : (s'.balloon.acceptedTargetKnown = s.balloon.acceptedTargetKnown ∧
      s'.balloon.acceptedTarget = s.balloon.acceptedTarget) ∨
    (s'.balloon.acceptedTargetKnown = true ∧ s'.balloon.acceptedTarget = s.ch.accepted)
  journal : s'.journal = s.journal ∨ ∃ r, s'.journal = .accepted r :: s.journal
  reportsOpen : s'.reportsOpen = s.reportsOpen
  reportSeq : s.reportSeq ≤ s'.reportSeq
  reportEvents : ∀ r ∈ s'.reportEvents, r ∈ s.reportEvents ∨ s.reportSeq < r.seq

/-- What a valid observation says about the VMM. -/
theorem readMemoryObservation_ok {capacity : Nat} {answer : Option VmInfo}
    {o : Observation} (ha : ch.Answers answer) (h : readMemoryObservation capacity answer = .ok o) :
    o.acceptedTarget = ch.accepted ∧ o.balloonCurrent = capacity - o.currentBudget := by
  cases answer with
  | none => cases h
  | some info =>
    simp only [readMemoryObservation, saturatingSub_fst] at h
    split at h <;> try cases h
    rename_i total target current _ htarget _
    split at h
    · cases h
    next htotal =>
      split at h
      · cases h
      split at h
      · cases h
      split at h
      · cases h
      · cases h
        exact ⟨ha.1 target htarget, by rw [Decidable.not_not.1 htotal]⟩

theorem Rely.refl (s : World) : Rely s s :=
  ⟨List.Sublist.refl _, rfl, rfl, rfl, rfl, .inl ⟨rfl, rfl⟩, .inl rfl, rfl, le_rfl, fun _ => .inl⟩

theorem submitGuestReport_rely (s : World) (r : MemReport) : Rely s (s.submitGuestReport r) := by
  simp only [World.submitGuestReport]
  split
  · exact .refl s
  split
  · exact .refl s
  split
  · exact { Rely.refl s with }
  next hseq =>
    have hlt := not_le.1 hseq
    refine { Rely.refl s with
      journal := .inr ⟨r, rfl⟩, reportSeq := le_of_lt hlt, reportEvents := fun r' hr' => ?_ }
    split at hr'
    · rcases List.mem_append.1 hr' with hm | hm
      · exact .inl hm
      · exact .inr (List.mem_singleton.1 hm ▸ hlt)
    · exact .inl hr'

theorem Surroundings.rely (h : Surroundings cfg s s') : Rely s s' := by
  cases h with
  | guest | pressure p | session b | clock now => exact { Rely.refl s with }
  | effect earlier later target heq =>
    refine { Rely.refl s with targets := ?_ }
    simp only [Vmm.targets, heq]
    exact (List.sublist_append_right earlier _).cons _
  | drop earlier later target heq =>
    refine { Rely.refl s with targets := ?_ }
    simp only [Vmm.targets, heq]
    exact ((List.sublist_cons_self target later).append_left earlier).cons_cons _
  | report r => exact submitGuestReport_rely s r
  | observer answer o ha ho =>
    exact { Rely.refl s with accepted := .inr ⟨rfl, (readMemoryObservation_ok ha ho).1⟩ }

/-- A reading of the journal that an arriving report does not change. -/
theorem Rely.reading (h : Rely s s') {p : List Note → Prop}
    (hp : ∀ r journal, p journal → p (.accepted r :: journal)) (hs : p s.journal) :
    p s'.journal := by
  rcases h.journal with heq | ⟨r, heq⟩
  · rw [heq]; exact hs
  · rw [heq]; exact hp r _ hs

theorem accepted_mem_targets (ch : Vmm) : ch.accepted ∈ ch.targets := (.head _)

section Sublist

variable {ch ch' : Vmm} (h : ch'.targets.Sublist ch.targets)
include h

variable {t : Nat}

theorem Above.sublist (ha : Above given t ch) : Above given t ch' :=
  fun hg x hx => ha hg x (h.subset hx)

theorem Below.sublist (ha : Below given t ch) : Below given t ch' :=
  fun hg x hx => ha hg x (h.subset hx)

theorem Rising.sublist (hr : Rising given ch) : Rising given ch' := by
  refine ⟨fun hg => (hr.sorted hg).sublist h, fun hg x hx => ?_⟩
  have hle : ch.accepted ≤ ch'.accepted :=
    hr.above hg _ (h.subset (accepted_mem_targets ch'))
  exact (hr.near hg x (h.subset hx)).trans (nextStep_mono hle)

theorem Applying.sublist (ha : Applying given t ch) : Applying given t ch' := by
  intro hg
  obtain ⟨before, n, heq, hnot⟩ := ha hg
  rw [heq] at h
  obtain ⟨l₁, l₂, hl, h₁, h₂⟩ := List.sublist_append_iff.1 h
  obtain ⟨k, -, rfl⟩ := List.sublist_replicate_iff.1 h₂
  exact ⟨l₁, k, hl, fun hm => hnot (h₁.subset hm)⟩

end Sublist

theorem outstanding_nil {ch' : Vmm} (h : ch'.targets.Sublist ch.targets)
    (hn : ch.outstanding = []) : ch'.outstanding = [] := by
  have hlen := h.length_le
  simp only [Vmm.targets, hn, List.length_cons, List.length_nil] at hlen
  exact List.eq_nil_of_length_eq_zero (by omega)

theorem Covers.rely (h : Rely s s') (hc : Covers cfg s) : Covers cfg s' := by
  intro t ht
  rw [h.reservation]
  exact hc t (h.targets.subset ht)

theorem Steady.rely (h : Rely s s') (hs : Steady cfg given s) : Steady cfg given s' := by
  refine ⟨hs.rising.sublist h.targets, fun hb => ?_⟩
  obtain ⟨hk, hab⟩ := hs.known hb
  rcases h.accepted with ⟨hkn, ha⟩ | ⟨hkn, ha⟩
  · rw [ha, hkn]
    exact ⟨hk, hab.sublist h.targets⟩
  · rw [ha]
    exact ⟨hkn, hs.rising.above.sublist h.targets⟩

theorem Cleared.rely (h : Rely s s') (hc : Cleared cfg given t s) : Cleared cfg given t s' :=
  ⟨hc.applying.sublist h.targets, fun hg => h.reservation ▸ hc.covered hg,
    fun hl => (hc.above hl).sublist h.targets⟩

theorem Surroundings.ordered (h : Surroundings cfg s s') (ho : Ordered s) : Ordered s' := by
  cases h with
  | report r => exact ho.submit r
  | _ => exact { ho with }

theorem Surroundings.inv (h : Surroundings cfg s s') (hi : Inv cfg given s) : Inv cfg given s' := by
  have hr := h.rely
  refine ⟨fun hg => (hi.covers hg).rely hr, fun hg => hr.log ▸ hi.logged hg, fun hb => ?_,
    fun hl => ?_, h.ordered hi.ordered⟩
  · obtain ⟨ha, ho⟩ := hi.noDevice hb
    refine ⟨?_, outstanding_nil hr.targets ho⟩
    have hmem := hr.targets.subset (accepted_mem_targets s'.ch)
    simpa [Vmm.targets, ho, ha] using hmem
  · exact hr.reading (fun _ _ hj => ⟨trivial, hj⟩) (hi.journaled hl)

theorem Inv.note {n : Note} (hi : Inv cfg given s) (hn : n.neutral = true)
    (hok : NoteOk cfg s.journal n) : Inv cfg given (s.note n) :=
  { hi with journaled := fun hl => ⟨hok, hi.journaled hl⟩, ordered :=
    hi.ordered.note hn rfl rfl rfl rfl }

/-! ## What lasts -/

/-- An assertion that the surroundings cannot break. -/
abbrev Lasting (cfg : Config) (given : Premises) (P : World → Prop) : Prop :=
  Firm (Inv cfg given) Rely P

/-- A reading of the journal that an arriving report does not change. -/
class Heard (p : List Note → Prop) : Prop where
  arrival : ∀ r journal, p journal → p (.accepted r :: journal)

instance Heard.lasting {p : List Note → Prop} [h : Heard p] :
    Lasting cfg given fun s => p s.journal :=
  ⟨fun _ _ _ _ hs hr => hr.reading h.arrival hs⟩

instance mem_lasting (n : Note) : Lasting cfg given fun s => n ∈ s.journal :=
  ⟨fun _ _ _ _ hs hr => hr.reading (fun _ _ => List.mem_cons_of_mem _) hs⟩

instance Steady.lasting : Lasting cfg given (Steady cfg given) := ⟨fun _ _ _ _ hs hr => hs.rely hr⟩

instance Cleared.lasting : Lasting cfg given (Cleared cfg given t) :=
  ⟨fun _ _ _ _ hs hr => hs.rely hr⟩

instance reservation_lasting (n : Nat) : Lasting cfg given fun s => s.reservation = n :=
  ⟨fun _ _ _ _ hs hr => hr.reservation.trans hs⟩

instance desired_lasting (n : Nat) : Lasting cfg given fun s => s.balloon.desiredTarget = n :=
  ⟨fun _ _ _ _ hs hr => hr.desired.trans hs⟩

instance reportsOpen_lasting (b : Bool) : Lasting cfg given fun s => s.reportsOpen = b :=
  ⟨fun _ _ _ _ hs hr => hr.reportsOpen.trans hs⟩

instance high_lasting (h : High) : Lasting cfg given fun s => s.high = h :=
  ⟨fun _ _ _ _ hs hr => hr.high.trans hs⟩

instance Raised.lasting (b : Nat) : Lasting cfg given fun s => Raised cfg s.log b s.high :=
  ⟨fun _ _ _ _ hs hr => by rw [hr.log, hr.high]; exact hs⟩

instance Settled.lasting (b : Nat) : Lasting cfg given fun s => Settled cfg s.log b s.high :=
  ⟨fun _ _ _ _ hs hr => by rw [hr.log, hr.high]; exact hs⟩

end Sandboxer.Resctl
