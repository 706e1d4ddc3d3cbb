import Sandboxer.Diffstore.Mutations

/-! # The worker and the materializers

The worker owns every page it froze; while a Data batch waits for space, the
queued Zeros of its disk are frozen, written and completed beside it. A
materializer stores template bytes only for blocks that are absent under their
stripe, so their logical contents are still those of the template. -/
namespace Sandboxer.Diffstore
open Lib.Threads

variable {cfg : Config}

/-! ## The worker -/

/-- Frozen pages of the worker; those in `D` are in the backend. -/
structure Batch (L : List CacheKey) (D : CacheKey → Prop) (s : Shared) : Prop where
  frozen : s.Frozen L
  stored : ∀ k ∈ L, D k → ∀ p, s.pages k = some p → Has s k p

section Worker

variable {L ks : List CacheKey} {D : CacheKey → Prop} {s : Shared}

instance Batch.firm : Firm (Inv cfg) (Rely .worker) (Batch L D) := by
  refine ⟨fun s s' _ _ h hr => ?_⟩
  have same : ∀ k ∈ L, ∃ p, s.pages k = some p ∧ s'.pages k = some p ∧
      p.owner = some .worker ∧ p.state = .writeback := by
    intro k hk
    obtain ⟨p, hp, ho, hs⟩ := h.frozen.page k hk
    exact ⟨p, hp, (hr.owned k p ho).2 hp, ho, hs⟩
  refine ⟨⟨h.frozen.nodup, fun k hk => ?_⟩, fun k hk hD q hq => ?_⟩
  · obtain ⟨p, -, hp, ho, hs⟩ := same k hk
    exact ⟨p, hp, ho, hs⟩
  obtain ⟨p, hp, hp', -, hs⟩ := same k hk
  obtain rfl : p = q := Option.some.inj (hp'.symm.trans hq)
  obtain ⟨hback, hmapped⟩ := hr.steady rfl k p hp hs
  exact (h.stored k hk hD p hp).frame hback hmapped

theorem Batch.mono {L' : List CacheKey} {E : CacheKey → Prop} (h : Batch L D s) (hL : L'.Sublist L)
    (hE : ∀ k ∈ L', E k → D k) : Batch L' E s :=
  ⟨⟨h.frozen.nodup.sublist hL, fun k hk => h.frozen.page k (hL.subset hk)⟩,
    fun k hk hE' => h.stored k (hL.subset hk) (hE k hk hE')⟩

theorem applyPage_safe {k : CacheKey} (hk : k ∈ L) :
    Safe cfg .worker (Batch L D) (Prog.change (applyPage .worker k))
      fun _ => Batch L fun q => D q ∨ q = k := by
  refine .change fun s hi hs => ?_
  obtain ⟨p, hp, -, hst⟩ := hs.frozen.page k hk
  have hkeep := applyPage_keeps hi hp hst
  refine ⟨hkeep.inv, hkeep.guar, ?_⟩
  simp only [applyPage, hp]
  refine ⟨hs.frozen, fun q hq hD r hr => ?_⟩
  by_cases hqk : q = k
  · subst hqk
    cases hp.symm.trans hr
    exact ⟨Function.update_self .., Function.update_self ..⟩
  · exact (hs.stored q hq (hD.resolve_right hqk) r hr).frame (Function.update_of_ne hqk ..)
      (Function.update_of_ne hqk ..)

theorem writePages_safe (mayDefer : Bool) (hk : ∀ k ∈ ks, k ∈ L) :
    Safe cfg .worker (Batch L D) (writePages .worker mayDefer ks) fun ok s =>
      (mayDefer = false → ok = true) ∧ (ok = true → Batch L (fun q => D q ∨ q ∈ ks) s) ∧
        Batch L D s := by
  induction ks generalizing D with
  | nil =>
    refine .pure fun s _ hs => ⟨fun _ => rfl, fun _ => hs.mono (List.Sublist.refl L) ?_, hs⟩
    rintro q - (h | h)
    · exact h
    · cases h
  | cons k ks ih =>
    refine (Sat.choose Guar.inert).bind fun pressure => .fact fun hp =>
      Sat.ite (fun hpr => ?_) fun _ => ?_
    · refine .pure fun s _ hs => ⟨fun hd => ?_, nofun, hs⟩
      rw [hp hpr] at hd
      cases hd
    refine (applyPage_safe (hk k (.head _))).bind fun _ =>
      (ih fun q hq => hk q (.tail _ hq)).post fun ok s _ hs => ?_
    refine ⟨hs.1, fun hok => (hs.2.1 hok).mono (List.Sublist.refl L) ?_,
      hs.2.2.mono (List.Sublist.refl L) fun q _ h => .inl h⟩
    rintro q - (h | h)
    · exact .inl (.inl h)
    · exact (List.mem_cons.1 h).imp (fun h => .inr h) id |>.elim .inl .inr

theorem complete_safe (L' : List CacheKey) (hn : ks.Nodup) (hk : ∀ k ∈ ks, k ∈ L)
    (hL : L'.Sublist L) (hd : ∀ k ∈ L', k ∉ ks) : Safe cfg .worker (Batch L fun q => D q ∨ q ∈ ks)
      (Prog.change fun s => { s with toCache := ks.foldl Cache.complete s.toCache })
      fun _ => Batch L' D := by
  refine .change fun s hi hs => ?_
  have hm := Cache.foldl_complete_spec hi.wf hi.key
    ⟨hn, fun k hkk => hs.frozen.page k (hk k hkk)⟩
    fun k hkk => hs.stored k (hk k hkk) (.inr hkk)
  refine ⟨hm.inv hi, hm.guar hi, ⟨hs.frozen.nodup.sublist hL, fun k hkk => ?_⟩,
    fun k hkk hD p hp => ?_⟩
  · rw [Cache.foldl_complete_other (hd k hkk)]
    exact hs.frozen.page k (hL.subset hkk)
  · rw [Cache.foldl_complete_other (hd k hkk)] at hp
    exact (hs.stored k (hL.subset hkk) (.inl hD) p hp).frame rfl rfl

/-- More pages are frozen beside a batch. -/
theorem Freezes.batch {c : Cache} (h : Freezes s s.toCache c ks) (hb : Batch L D s)
    (hD : ∀ k, D k → k ∈ L) : Batch (L ++ ks) D { s with toCache := c } := by
  have disjoint : ∀ k ∈ L, k ∉ ks := by
    intro k hk
    obtain ⟨p, hp, -, hs⟩ := hb.frozen.page k hk
    exact h.not_mem hp (by rw [hs]; nofun)
  have hkeep : ∀ k ∈ L, c.pages k = s.pages k := fun k hk => h.keep k (disjoint k hk)
  refine ⟨⟨List.Nodup.append hb.frozen.nodup h.nodup disjoint, fun k hk => ?_⟩,
    fun k _ hDk p hp => ?_⟩
  · rcases List.mem_append.1 hk with hk | hk
    · rw [hkeep k hk]
      exact hb.frozen.page k hk
    · exact h.frozen.page k hk
  · exact (hb.stored k (hD k hDk) hDk p ((hkeep k (hD k hDk)).symm.trans hp)).frame rfl rfl

theorem repairBatches_safe (n : Nat) (cohort : List CacheKey) :
    Safe cfg .worker (Batch (L ++ cohort) D) (repairBatches .worker n cohort)
      fun _ => Batch L D := by
  have done : ∀ cohort, Safe cfg .worker (Batch (L ++ cohort) D) (pure ()) fun _ => Batch L D :=
    fun cohort => .pure fun s _ hs => hs.mono (List.sublist_append_left L cohort) fun _ _ h => h
  induction n generalizing cohort with
  | zero => exact done cohort
  | succ n ih =>
    refine .ite (fun _ => done cohort) fun _ => ?_
    have htake : (cohort.take (Cache.batchLimit true)).Sublist cohort := List.take_sublist ..
    refine (writePages_safe false fun k hk =>
      List.mem_append_right L (htake.subset hk)).bind fun ok => ?_
    refine .pre (.fact fun hn => ?_)
      fun s _ hs => ⟨hs.2.1 (hs.1 rfl), hs.2.2.frozen.nodup⟩
    have hnc : cohort.Nodup := (List.nodup_append.1 hn).2.1
    refine (complete_safe (L ++ cohort.drop (Cache.batchLimit true)) (hnc.sublist htake)
      (fun k hk => List.mem_append_right L (htake.subset hk)) ?_ ?_).bind fun _ => ih _
    · exact List.Sublist.append (List.Sublist.refl L) (List.drop_sublist ..)
    intro k hk hkt
    rcases List.mem_append.1 hk with hk | hk
    · exact (List.nodup_append.1 hn).2.2 k hk k (htake.subset hkt) rfl
    · rw [← List.take_append_drop (Cache.batchLimit true) cohort] at hnc
      exact (List.nodup_append.1 hnc).2.2 k hkt k hk rfl

theorem repairSpacePressure_safe (d : Nat) (hD : ∀ k, D k → k ∈ L) :
    Safe cfg .worker (Batch L D) (repairSpacePressure .worker d) fun _ => Batch L D := by
  refine .bind ?_
    fun cohort => repairBatches_safe cohort.length cohort
  refine .exec fun s hi hs => ?_
  have hf := Cache.selectCohort_spec (s := s) d hi.wf
  exact ⟨hf.moves.inv hi, hf.moves.guar hi, hf.batch hs hD⟩

theorem writeBatch_safe (d : Nat) (zero : Bool) (batch : List CacheKey) :
    Safe cfg .worker (Batch batch fun _ => False) (writeBatch cfg .worker d zero batch)
      fun _ => Batch batch fun q => False ∨ q ∈ batch := by
  refine (writePages_safe _ fun k hk => hk).bind fun ok => .ite (fun hok => ?_) fun _ => ?_
  · exact .pure fun s _ hs => hs.2.1 hok
  · refine .pre ((repairSpacePressure_safe d nofun).bind fun _ => ?_) fun s _ hs => hs.2.2
    exact (writePages_safe false fun k hk => hk).bind fun ok => .pure fun s _ hs =>
      hs.2.1 (hs.1 rfl)

theorem runWorker_safe (fuel : Nat) :
    Safe cfg .worker (fun _ => True) (runWorker cfg fuel) fun _ _ => True := by
  induction fuel with
  | zero => exact .halt
  | succ fuel ih =>
    refine (Sat.choose Guar.inert).bind fun eligible => ?_
    refine .bind (M := fun batch => Batch batch fun _ => False) ?_ fun batch => ?_
    · refine .exec fun s hi _ => ?_
      have hf := Cache.selectBatch_spec (s := s) eligible hi.wf
      exact ⟨hf.moves.inv hi, hf.moves.guar hi, hf.frozen, nofun⟩
    cases batch with
    | nil => exact ih.pre fun _ _ _ => trivial
    | cons first rest =>
      refine (Sat.watch Guar.inert).bind fun zero => ?_
      refine (writeBatch_safe first.disk zero _).bind fun _ => ?_
      refine .pre (.fact fun hn => ?_)
        fun s _ hs => ⟨hs, hs.frozen.nodup⟩
      exact (complete_safe [] hn (fun k hk => hk) (List.nil_sublist _) nofun).bind
        fun _ => ih.pre fun _ _ _ => trivial

end Worker

/-! ## Template windows -/

section Windows

variable {me : Thread} {g : Grip} {P : Shared → Prop} {ks todo : List CacheKey} {k : CacheKey}
    {s : Shared}

/-- An absent block under the thread's write lock has no page. -/
theorem Ours.absent (hs : Rest me g P s) (hi : Inv cfg s) (hx : g.Excl k)
    (hb : s.bitmap k = false) : s.pages k = none := by
  cases hp : s.pages k with
  | none => rfl
  | some p =>
    have hkey := hi.key k
    rw [hp] at hkey
    have present : ¬s.bitmap k = true := by rw [hb]; nofun
    cases hst : p.state with
    | loading => exact absurd (PageOk.loading hkey hst).upper present
    | clean => exact absurd (PageOk.clean hkey hst).upper present
    | dirty => exact absurd (PageOk.dirty hkey hst).upper present
    | writeback => exact absurd (PageOk.writeback hkey hst).upper present
    | discarding => exact absurd (PageOk.discarding hkey hst).upper present
    | constructing =>
      obtain ⟨t, ht, hex⟩ := (PageOk.constructing hkey hst).owner
      have : t = me := Option.some.inj (hex.symm.trans (hs.at_.excl.2 hx))
      exact absurd (this ▸ ht) (hs.pages k p hp)

theorem absentBlocks_safe (hx : ∀ k ∈ ks, g.Excl k) [Lasting g P] :
    Safe cfg me (Rest me g P) (absentBlocks ks) fun r => Rest me g fun s => P s ∧
      (∀ k ∈ r, k ∈ ks ∧ s.bitmap k = false) ∧ ∀ k ∈ ks, k ∉ r → s.bitmap k = true := by
  induction ks generalizing P with
  | nil => exact .pure fun s _ hs => hs.knows ⟨hs.facts, nofun, nofun⟩
  | cons k ks ih =>
    have hk : g.Holds k := .inl (hx k (.head _))
    have := Lasting.bitmap hk
    refine (lookBit_safe hk).bind fun upper => ?_
    refine (ih fun q hq => hx q (.tail _ hq)).bind fun rest => ?_
    refine .pure fun s _ hs => ?_
    obtain ⟨⟨hp, hk⟩, hrest, hother⟩ := hs.facts
    have hrest' : ∀ q ∈ rest, q ∈ k :: ks ∧ s.bitmap q = false := fun q hq =>
      ⟨.tail _ (hrest q hq).1, (hrest q hq).2⟩
    cases upper with
    | true =>
      refine hs.knows ⟨hp, hrest', fun q hq hqr => ?_⟩
      rcases List.mem_cons.1 hq with rfl | hq
      · exact hk
      · exact hother q hq hqr
    | false =>
      refine hs.knows ⟨hp, fun q hq => ?_, fun q hq hqr => ?_⟩
      · rcases List.mem_cons.1 hq with rfl | hq
        · exact ⟨(.head _), hk⟩
        · exact hrest' q hq
      · have hqk : q ∉ k :: rest := hqr
        rw [List.mem_cons, not_or] at hqk
        exact hother q ((List.mem_cons.1 hq).resolve_left hqk.1) hqk.2

/-- The blocks `pages` of a window are absent, and stored unless in `todo`; its
other blocks are present. -/
structure Staged (window pages todo : List CacheKey) (s : Shared) : Prop where
  absent : ∀ k ∈ pages, s.bitmap k = false
  stored : ∀ k ∈ pages, k ∉ todo → Rests s k
  present : ∀ k ∈ window, k ∉ pages → s.bitmap k = true

variable {window pages : List CacheKey}

theorem Lasting.staged (hx : ∀ k ∈ pages, g.Excl k) : Lasting g (Staged window pages todo) := by
  refine ⟨fun s s' hc h => ?_⟩
  refine ⟨fun k hk => ?_, fun k hk ht => ?_, fun k hk hp => hc.upper k (h.present k hk hp)⟩
  · exact (hc.bitmap k (.inl (hx k hk))).trans (h.absent k hk)
  · exact (Lasting.rests (.inl (hx k hk))).calm s s' hc (h.stored k hk ht)

theorem applyDirect_safe {staging : Nat → Byte} (hx : ∀ k ∈ pages, g.Excl k) (hk : k ∈ pages)
    (hb : blockOf staging k.block = blockOf (cfg.disk k.disk).lowerByte k.block) :
    Safe cfg me (Rest me g (Staged window pages (k :: todo)))
      (Prog.change (applyDirect me k (blockOf staging k.block)))
      fun _ => Rest me g (Staged window pages todo) := by
  have : Lasting g (Staged window pages todo) := .staged hx
  refine .change fun s hi hs => ?_
  have habs := hs.facts.absent k hk
  have hlow := hs.lower hi (.inl (hx k hk)) habs
  have hnone := hs.absent hi (hx k hk) habs
  have hidle : Idle (s.pages k) := by
    rw [hnone]
    nofun
  have hkeep := store_keeps true nofun hi (hs.at_.excl.2 (hx k hk)) hidle
    (hb.trans hlow.symm) fun _ _ => hi.untouched habs (hs.settled hi (.inl (hx k hk)))
  refine ⟨hkeep.inv, hkeep.guar, hs.at_.frame rfl rfl, hs.pages, hs.facts.absent,
    fun q hq ht => ?_, hs.facts.present⟩
  by_cases hqk : q = k
  · subst hqk
    exact ⟨(Function.update_self ..).trans (hb.trans hlow.symm), hidle⟩
  · have hrest := hs.facts.stored q hq (by simp [hqk, ht])
    exact ⟨(Function.update_of_ne hqk ..).trans hrest.1, hrest.2⟩

theorem writeDirect_safe {staging : Nat → Byte} (hx : ∀ k ∈ pages, g.Excl k)
    (hb : ∀ k ∈ pages, blockOf staging k.block = blockOf (cfg.disk k.disk).lowerByte k.block)
    (todo : List CacheKey) (ht : ∀ k ∈ todo, k ∈ pages) :
    Safe cfg me (Rest me g (Staged window pages todo)) (writeDirect me staging todo)
      fun _ => Rest me g (Staged window pages []) := by
  induction todo with
  | nil => exact .skip
  | cons k todo ih =>
    have hk := ht k (.head _)
    exact (applyDirect_safe hx hk (hb k hk)).bind fun _ =>
      ih fun q hq => ht q (.tail _ hq)

/-- A stored block becomes present. -/
theorem markDirty_keeps (hi : Inv cfg s) (hx : Excl s me k) (hr : Stored s k)
    (hn : s.pages k = none) : Keeps cfg me s (markDirty k s) := by
  have up : ∀ q, s.bitmap q = true → (markDirty k s).bitmap q = true := by
    intro q hq
    by_cases hqk : q = k
    · exact (Function.update_apply ..).trans (if_pos hqk)
    · exact (Function.update_of_ne hqk ..).trans hq
  constructor
  · refine { hi with
      key := fun q => ?_
      lower := fun q hq => ?_
      mutated := fun m hm => (hi.mutated m hm).imp_left (up _)
      detached := fun d hd b hb => up _ (hi.detached d hd b hb) }
    · by_cases hqk : q = k
      · subst hqk
        change KeyOk (markDirty q s) q (s.pages q)
        rw [hn]
        exact fun _ => hr
      · exact (hi.key q).frame (Function.update_of_ne hqk ..) id rfl fun _ _ _ _ => ⟨id, id⟩
    · refine hi.lower q ?_
      by_contra hb
      rw [up q (by simpa using hb)] at hq
      cases hq
  · refine { Guar.refl me s with
      held := fun q hq => ⟨rfl, ?_, fun h => ⟨h, rfl⟩⟩
      bitmap := up
      applied := ⟨[], rfl, nofun, fun _ _ => rfl⟩ }
    refine Function.update_of_ne ?_ ..
    rintro rfl
    exact hq hx

def Present (window : List CacheKey) (s : Shared) : Prop := ∀ k ∈ window, s.bitmap k = true

instance Present.lasting : Lasting g (Present window) := ⟨fun _ _ hc h k hk => hc.upper k (h k hk)⟩

/-- Blocks of a window are stored, and present unless in `todo`. -/
def Marked (ks todo : List CacheKey) (s : Shared) : Prop :=
  ∀ k ∈ ks, s.bitmap k = true ∨ k ∈ todo ∧ Rests s k

theorem Lasting.marked (hx : ∀ k ∈ ks, g.Excl k) : Lasting g (Marked ks todo) :=
  ⟨fun s s' hc h k hk => (h k hk).imp (hc.upper k) fun ⟨ht, hr⟩ =>
    ⟨ht, (Lasting.rests (.inl (hx k hk))).calm s s' hc hr⟩⟩

theorem markAll_safe (hx : ∀ k ∈ ks, g.Excl k) (todo : List CacheKey) (ht : ∀ k ∈ todo, k ∈ ks) :
    Safe cfg me (Rest me g (Marked ks todo)) (markAll todo)
      fun _ => Rest me g (Marked ks []) := by
  induction todo with
  | nil => exact .skip
  | cons k todo ih =>
    refine .bind ?_
      fun _ => ih fun q hq => ht q (.tail _ hq)
    have : Lasting g (Marked ks todo) := .marked hx
    refine .change fun s hi hs => ?_
    have hk := ht k (.head _)
    have hmarked : Marked ks todo (markDirty k s) := by
      intro q hq
      by_cases hqk : q = k
      · exact .inl ((Function.update_apply ..).trans (if_pos hqk))
      · refine (hs.facts q hq).imp (fun h => (Function.update_of_ne hqk ..).trans h) ?_
        exact fun h => ⟨(List.mem_cons.1 h.1).resolve_left hqk, h.2⟩
    cases hb : s.bitmap k with
    | true =>
      have hsame : markDirty k s = s := by
        simp only [markDirty]
        rw [Function.update_eq_self_iff.2 hb.symm]
      rw [hsame] at hmarked ⊢
      exact ⟨hi, .refl me s, hs.at_, hs.pages, hmarked⟩
    | false =>
      have hrest := (hs.facts k hk).resolve_left (by rw [hb]; nofun)
      have hkeep := markDirty_keeps hi (hs.at_.excl.2 (hx k hk)) hrest.2.1
        (hs.absent hi (hx k hk) hb)
      exact ⟨hkeep.inv, hkeep.guar, hs.at_.frame rfl rfl, hs.pages, hmarked⟩

theorem Safe.present {α : Type} {p : Prog Shared α} {Q : α → Shared → Prop}
    (h : Safe cfg me P p Q) (window : List CacheKey) :
    Safe cfg me (fun s => P s ∧ Present window s) p fun a s => Q a s ∧ Present window s :=
  have : Firm (Inv cfg) (Rely me) (Present window) :=
    ⟨fun _ _ _ _ hf hr k hk => hr.bitmap k (hf k hk)⟩
  h.frame fun _ _ _ hg hf k hk => hg.bitmap k (hf k hk)

theorem absentRun_safe (hx : ∀ k ∈ ks, g.Excl k) [Lasting g P] :
    Safe cfg me (Rest me g P) (absentRun ks) fun r => Rest me g fun s =>
      P s ∧ ks = r.1 ++ r.2 ∧ ∀ k, k ∈ r.1 → s.bitmap k = false := by
  induction ks generalizing P with
  | nil => exact .pure fun s _ hs => hs.knows ⟨hs.facts, rfl, nofun⟩
  | cons k ks ih =>
    have hk : g.Holds k := .inl (hx k (.head _))
    have := Lasting.bitmap hk
    refine (lookBit_safe hk).bind fun upper => .ite (fun _ => ?_) fun hup => ?_
    · exact .pure fun s _ hs => hs.knows ⟨hs.facts.1, rfl, nofun⟩
    refine (ih fun q hq => hx q (.tail _ hq)).bind fun r =>
      Sat.pure fun s _ hs => ?_
    obtain ⟨⟨hp, hk⟩, heq, hall⟩ := hs.facts
    refine hs.knows ⟨hp, congrArg (k :: ·) heq, fun q hq => ?_⟩
    rcases List.mem_cons.1 hq with rfl | hq
    · rw [hk]
      simpa using hup
    · exact hall q hq

theorem zeroRuns_safe {d : Nat} (hme : me = .material d) (fuel n : Nat) (ks : List CacheKey)
    (hx : ∀ k ∈ ks, g.Excl k)
    (hz : ∀ k ∈ ks, blockOf (cfg.disk k.disk).lowerByte k.block = zeroBlock) :
    Safe cfg me (Rest me g fun _ => True) (zeroRuns me fuel n ks)
      fun ok => Rest me g fun s => ok = true → Present ks s := by
  induction n generalizing ks with
  | zero => exact .halt
  | succ n ih =>
    cases ks with
    | nil => exact .pure fun s _ hs => hs.knows fun _ => nofun
    | cons k ks =>
      have hk := hx k (.head _)
      have hbit : ∀ v, Lasting g fun s => s.bitmap k = v := .bitmap (.inl hk)
      refine (lookBit_safe (.inl hk)).bind fun upper => .ite (fun hup => ?_) fun hup => ?_
      · refine Sat.pre ((ih ks (fun q hq => hx q (.tail _ hq)) fun q hq =>
          hz q (.tail _ hq)).present [k]) ?_ |>.post ?_
        · intro s _ hs
          refine ⟨hs.knows trivial, fun q hq => ?_⟩
          rw [List.mem_singleton.1 hq]
          exact hs.facts.2.trans hup
        · intro ok s _ hs
          refine ⟨hs.1.at_, hs.1.pages, fun hok q hq => ?_⟩
          rcases List.mem_cons.1 hq with rfl | hq
          · exact hs.2 q (List.mem_singleton_self q)
          · exact hs.1.facts hok q hq
      · refine (absentRun_safe fun q hq => hx q (.tail _ hq)).bind fun r => ?_
        refine .pre (S := fun s => Rest me g (fun s => ∀ q, q ∈ k :: r.1 → s.bitmap q = false) s ∧
          ks = r.1 ++ r.2) (.fact fun heq => ?_) fun s _ hs =>
            ⟨hs.knows fun q hq => ?_, hs.facts.2.1⟩
        · have hrun : ∀ q ∈ k :: r.1, q ∈ k :: ks := by
            intro q hq
            rw [heq, List.mem_cons, List.mem_append]
            exact (List.mem_cons.1 hq).imp_right .inl
          have : Lasting g fun s => ∀ q, q ∈ k :: r.1 → s.bitmap q = false :=
            Lasting.on fun q hq => .bitmap (.inl (hx q (hrun q hq))) false
          refine (discard_safe false ⟨d, hme⟩ (fun q hq => hx q (hrun q hq)) fuel
            fun _ s hs q hq => ⟨hs q hq, hz q (hrun q hq)⟩).bind fun ok => ?_
          have hrest : ∀ q ∈ r.2, q ∈ k :: ks := fun q hq =>
            .tail _ (heq ▸ List.mem_append_right _ hq)
          refine .ite (fun hok => ?_) fun _ => ?_
          · refine Sat.pre ((ih r.2 (fun q hq => hx q (hrest q hq)) fun q hq =>
              hz q (hrest q hq)).present (k :: r.1)) ?_ |>.post ?_
            · exact fun s _ hs => ⟨hs.knows trivial, hs.facts hok⟩
            · intro ok s _ hs
              refine ⟨hs.1.at_, hs.1.pages, fun hok q hq => ?_⟩
              rw [heq, ← List.cons_append] at hq
              exact (List.mem_append.1 hq).elim (hs.2 q) (hs.1.facts hok q)
          · exact .pure fun s _ hs => hs.knows nofun
        · rcases List.mem_cons.1 hq with rfl | hq
          · rw [hs.facts.1.2]
            simpa using hup
          · exact hs.facts.2.2 q hq

end Windows

/-! ## The materializer -/

/-- The template is open, and its blocks before `b` are present. -/
structure Filled (cfg : Config) (d b : Nat) (s : Shared) : Prop where
  opened : s.templateClosed d = false
  present : ∀ j < b, (cfg.disk d).templateKind j ≠ .hole → s.bitmap ⟨d, j⟩ = true

section Materializer

variable {d b : Nat} {P : Shared → Prop}

instance Filled.firm : Firm (Inv cfg) (Rely (.material d)) (Filled cfg d b) :=
  ⟨fun _ _ _ _ h hr => ⟨(hr.template d rfl).2.trans h.opened,
    fun j hj hk => hr.bitmap _ (h.present j hj hk)⟩⟩

theorem Filled.mono {b' : Nat} {s : Shared} (h : Filled cfg d b s) (hb : b' ≤ b) :
    Filled cfg d b' s :=
  ⟨h.opened, fun j hj => h.present j (lt_of_lt_of_le hj hb)⟩

/-- More blocks are present, or they are holes. -/
theorem Filled.extend {b' : Nat} {s : Shared} (h : Filled cfg d b s)
    (hb : ∀ j, b ≤ j → j < b' → (cfg.disk d).templateKind j ≠ .hole → s.bitmap ⟨d, j⟩ = true) :
    Filled cfg d b' s := by
  refine ⟨h.opened, fun j hj hk => ?_⟩
  by_cases hjb : j < b
  · exact h.present j hjb hk
  · exact hb j (not_lt.1 hjb) hj hk

/-- Code of the materializer before it detaches the template. -/
theorem Safe.filled {α : Type} {p : Prog Shared α} {Q : α → Shared → Prop}
    (h : Safe cfg (.material d) P p Q) :
    Safe cfg (.material d) (fun s => P s ∧ Filled cfg d b s) p
      fun a s => Q a s ∧ Filled cfg d b s :=
  h.frame fun _ _ _ hg hf =>
    ⟨(hg.template d).2.trans hf.opened, fun j hj hk => hg.bitmap _ (hf.present j hj hk)⟩

/-- The materializer between two windows. -/
def Between (cfg : Config) (d b : Nat) (s : Shared) : Prop :=
  Rest (.material d) .none (fun _ => True) s ∧ Filled cfg d b s

instance Between.firm : Firm (Inv cfg) (Rely (.material d)) (Between cfg d b) := .and

theorem blockOf_template (h : (cfg.disk d).templateKind b = .data) :
    blockOf (cfg.disk d).templateByte b = blockOf (cfg.disk d).lowerByte b := by
  funext i
  rw [blockOf, blockOf, DiskConfig.lowerByte, block_div, h]

theorem blockOf_zero (h : (cfg.disk d).templateKind b = .zero) :
    blockOf (cfg.disk d).lowerByte b = zeroBlock := by
  funext i
  rw [blockOf, DiskConfig.lowerByte, block_div, h]
  rfl

variable {window : Nat}

theorem materializeRange_safe {stop : Nat} (n first : Nat)
    (hdata : ∀ j, first ≤ j → j < stop → (cfg.disk d).templateKind j = .data) :
    Safe cfg (.material d) (Between cfg d first)
      (materializeRange cfg (.material d) d window stop n first)
      fun ok s => Rest (.material d) .none (fun _ => True) s ∧
        (ok = true → Filled cfg d stop s) := by
  induction n generalizing first with
  | zero => exact .halt
  | succ n ih =>
    refine .ite (fun hend => ?_) fun hlt => ?_
    · exact .pure fun s _ hs => ⟨hs.1, fun _ => hs.2.mono hend⟩
    refine Safe.attempt (Sat.pure fun s _ hs => ⟨hs.1, nofun⟩) ?_
    refine (readTemplate_safe fun s _ hs => hs.2.opened).bind fun staging =>
      Sat.fact fun hst => ?_
    subst hst
    let blocks := blockRange d first (min stop (first + window) - 1)
    let g := Grip.writing d (lockedStripes first (min stop (first + window) - 1)).contains
    have hwin : ∀ k ∈ blocks, k.disk = d ∧ first ≤ k.block ∧ k.block < stop := by
      intro k hk
      obtain ⟨hd, hf, hl⟩ := mem_blockRange.1 hk
      exact ⟨hd, hf, by omega⟩
    have hx : ∀ k ∈ blocks, g.Excl k := by
      intro k hk
      obtain ⟨rfl, hf, hl⟩ := mem_blockRange.1 hk
      exact Grip.excl_writing (mem_lockedStripes_iff.2 ⟨_, hf, hl, rfl⟩)
    refine (lockAll_safe _).filled.bind fun _ => ?_
    refine (absentBlocks_safe hx).filled.bind fun pages => ?_
    refine .pre (S := fun s => (Rest (.material d) g (Staged blocks pages pages) s ∧
      Filled cfg d first s) ∧ ∀ k ∈ pages, k ∈ blocks) (.fact fun hpages => ?_)
      fun s _ hs => ⟨⟨⟨hs.1.at_, hs.1.pages, fun k hk => (hs.1.facts.2.1 k hk).2,
        fun k hk ht => absurd hk ht, hs.1.facts.2.2⟩, hs.2⟩, fun k hk => (hs.1.facts.2.1 k hk).1⟩
    refine (writeDirect_safe (fun k hk => hx k (hpages k hk)) (fun k hk => ?_) pages
      fun k hk => hk).filled.bind fun _ => ?_
    · obtain ⟨rfl, hf, hl⟩ := hwin k (hpages k hk)
      exact blockOf_template (hdata _ hf hl)
    refine .pre (S := fun s => Rest (.material d) g (Marked blocks pages) s ∧
      Filled cfg d first s) ?_ fun s _ hs => ⟨⟨hs.1.at_, hs.1.pages, fun k hk => ?_⟩, hs.2⟩
    · refine (markAll_safe hx pages hpages).filled.bind fun _ => ?_
      refine .pre (S := fun s => Rest (.material d) g (Present blocks) s ∧
        Filled cfg d first s) ?_ fun s _ hs =>
          ⟨⟨hs.1.at_, hs.1.pages, fun k hk => (hs.1.facts k hk).resolve_right nofun⟩, hs.2⟩
      rw [unlockedStripes_eq]
      refine (unlockAll_safe (List.nodup_range.filter _)).filled.bind fun _ => ?_
      refine .pre (ih (min stop (first + window)) fun j hj => hdata j (by omega)) fun s _ hs =>
        ⟨⟨hs.1.at_, hs.1.pages, trivial⟩, hs.2.extend fun j hf hj _ => ?_⟩
      exact hs.1.facts _ (mem_blockRange.2 ⟨rfl, hf, by dsimp only; omega⟩)
    · by_cases hkp : k ∈ pages
      · exact .inr ⟨hkp, hs.1.facts.stored k hkp List.not_mem_nil⟩
      · exact .inl (hs.1.facts.present k hk hkp)

theorem materializeZero_safe {stop : Nat} (fuel n first : Nat)
    (hzero : ∀ j, first ≤ j → j < stop → (cfg.disk d).templateKind j = .zero) :
    Safe cfg (.material d) (Between cfg d (min first stop))
      (materializeZero (.material d) fuel d stop n first)
      fun ok s => Rest (.material d) .none (fun _ => True) s ∧
        (ok = true → Filled cfg d stop s) := by
  induction n generalizing first with
  | zero => exact .halt
  | succ n ih =>
    refine .ite (fun hend => ?_) fun hlt => ?_
    · exact .pure fun s _ hs => ⟨hs.1, fun _ => hs.2.mono (by omega)⟩
    let blocks := blockRange d first (min (first + maxDiscardPages) stop - 1)
    let g := Grip.writing d (lockBlockRange first (min (first + maxDiscardPages) stop - 1)).contains
    have hx : ∀ k ∈ blocks, g.Excl k := by
      intro k hk
      obtain ⟨rfl, hf, hl⟩ := mem_blockRange.1 hk
      exact Grip.excl_writing (mem_lockBlockRange hf hl)
    refine (lockAll_safe _).filled.bind fun _ => ?_
    refine (zeroRuns_safe rfl fuel fuel blocks hx fun k hk => ?_).filled.bind fun ok => ?_
    · obtain ⟨rfl, hf, hl⟩ := mem_blockRange.1 hk
      exact blockOf_zero (hzero _ hf (by omega))
    have : ∀ g, Lasting g fun s => ok = true → Present blocks s := fun _ =>
      ⟨fun _ _ hc h hok k hk => hc.upper k (h hok k hk)⟩
    rw [unlockBlockRange_eq]
    refine (unlockAll_safe (List.nodup_range.filter _)).filled.bind fun _ =>
      .ite (fun hok => ?_) fun _ => ?_
    · refine .pre (ih (first + maxDiscardPages) fun j hj => hzero j (by omega)) fun s _ hs =>
        ⟨⟨hs.1.at_, hs.1.pages, trivial⟩, hs.2.extend fun j hf hj _ => ?_⟩
      exact hs.1.facts hok _ (mem_blockRange.2 ⟨rfl, by dsimp only; omega, by dsimp only; omega⟩)
    · exact .pure fun s _ hs => ⟨⟨hs.1.at_, hs.1.pages, trivial⟩, nofun⟩

theorem materializeRun_safe {t : Template} {r : Nat × RunKind} (fuel : Nat)
    (ht : (cfg.disk d).template = some t) (hr : t.Run b r) :
    Safe cfg (.material d) (Between cfg d b) (materializeRun cfg (.material d) fuel d window b r)
      fun ok s => Rest (.material d) .none (fun _ => True) s ∧
        (ok = true → Filled cfg d r.1 s) := by
  have hkind : ∀ j, b ≤ j → j < r.1 → (cfg.disk d).templateKind j = r.2 := by
    intro j hb hj
    simp only [DiskConfig.templateKind, ht]
    rw [if_pos (lt_of_lt_of_le hj hr.2.1)]
    exact hr.2.2 j hb hj
  unfold materializeRun
  split
  next hhole =>
    exact .pure fun s _ hs => ⟨hs.1, fun _ => hs.2.extend fun j hb hj hk =>
      absurd ((hkind j hb hj).trans hhole) hk⟩
  next hzero =>
    rw [show Between cfg d b =
      Between cfg d (min b r.1) by rw [min_eq_left (by have := hr.1; omega)]]
    exact materializeZero_safe fuel fuel b fun j hb hj => (hkind j hb hj).trans hzero
  next hdata => exact materializeRange_safe fuel b fun j hb hj => (hkind j hb hj).trans hdata

theorem materializeContents_safe {t : Template} (fuel n b : Nat)
    (ht : (cfg.disk d).template = some t) :
    Safe cfg (.material d) (Between cfg d b)
      (materializeContents cfg (.material d) fuel d window t n b)
      fun ok s => Rest (.material d) .none (fun _ => True) s ∧
        (ok = true → Filled cfg d t.blocks s) := by
  induction n generalizing b with
  | zero => exact .halt
  | succ n ih =>
    refine .ite (fun hend => ?_) fun _ => ?_
    · exact .pure fun s _ hs => ⟨hs.1, fun _ => hs.2.mono hend⟩
    refine Safe.attempt (Sat.pure fun s _ hs => ⟨hs.1, nofun⟩) ?_
    refine (Sat.choose Guar.inert).bind fun r => .fact fun hr => ?_
    refine (materializeRun_safe fuel ht hr).bind fun ok => .ite (fun hok => ?_) fun _ => ?_
    · exact (ih r.1).pre fun s _ hs => ⟨hs.1, hs.2 hok⟩
    · exact .pure fun s _ hs => ⟨hs.1, nofun⟩

end Materializer

end Sandboxer.Diffstore
