import Sandboxer.Diffstore.Reads

/-! # Writes and discards

A write merges into the page of its block, which holds the logical contents or
is constructed from them under the stripe. A discard is staged as a Zero page,
or applied to the backend while its pages are frozen. -/
namespace Sandboxer.Diffstore
open Lib.Threads

variable {cfg : Config} {me : Thread} {g : Grip} {P : Shared → Prop} {d b : Nat}

/-! ## Writes -/

theorem block_div (b : Nat) (i : Fin blockSize) : (b * blockSize + i) / blockSize = b := by
  rw [Nat.mul_comm, Nat.mul_add_div blockSize_pos, Nat.div_eq_of_lt i.2, Nat.add_zero]

/-- A buffer that holds the contents of a block. -/
theorem blockOf_logical {s : Shared} {buf : Nat → Byte}
    (h : ∀ x, b * blockSize ≤ x → x < (b + 1) * blockSize → buf x = s.logicalByte d x) :
    blockOf buf b = s.logical ⟨d, b⟩ := by
  funext i
  have hi := i.2
  have hmul : (b + 1) * blockSize = b * blockSize + blockSize := by rw [Nat.add_mul, Nat.one_mul]
  have hmod : (b * blockSize + i) % blockSize = i := by
    rw [Nat.mul_comm, Nat.mul_add_mod, Nat.mod_eq_of_lt hi]
  rw [blockOf, h _ (Nat.le_add_right ..) (by omega), Shared.logicalByte, block_div]
  exact congrArg (s.logical ⟨d, b⟩) (Fin.ext hmod)

variable {lo hi : Nat}

theorem initPage_safe {upper : Bool} (fuel : Nat) (buf : Nat → Byte)
    (hx : g.Excl ⟨d, b⟩) [Lasting g P] (hu : ∀ s, P s → s.bitmap ⟨d, b⟩ = upper) :
    Safe cfg me (Ours me g (fun c => c.Mine me .constructing [⟨d, b⟩]) P)
      (initPage cfg me fuel d b lo hi upper) fun r =>
        Ours me g (fun c => c.Mine me .constructing [⟨d, b⟩]) fun s => P s ∧
          ∀ blk, r = some blk → blk.merge b lo hi buf = (s.logical ⟨d, b⟩).merge b lo hi buf := by
  refine .ite (fun hfull => ?_) fun _ => .ite (fun hup => ?_) fun hup => ?_
  · refine .pure fun s _ hs => hs.knows ⟨hs.facts, fun blk hblk => ?_⟩
    exact Block.merge_full (le_of_eq hfull.1) (le_of_eq hfull.2.symm)
  · -- a constructed page of a present block: the backend has its contents
    refine (readBackend_safe 1 b _ ?_ ?_).bind fun r => ?_
    · intro i hi
      obtain rfl : i = 0 := by simpa using hi
      exact .inl hx
    · intro s hinv hs i hi
      obtain rfl : i = 0 := by simpa using hi
      obtain ⟨p, hp, -, hst⟩ := hs.pages.page ⟨d, b⟩ (List.mem_singleton_self _)
      have hkey := hinv.key ⟨d, b⟩
      rw [hp] at hkey
      exact (PageOk.constructing hkey hst).stored ((hu s hs.facts).trans hup)
    · cases r with
      | none => exact .pure fun s _ hs => hs.knows ⟨hs.facts.1, nofun⟩
      | some blocks =>
        refine .pure fun s _ hs => hs.knows ⟨hs.facts.1, fun blk hblk => ?_⟩
        cases hblk
        have hread : blocks b = s.logical ⟨d, b⟩ := (hs.facts.2 blocks rfl).1 0 Nat.zero_lt_one
        rw [hread]
  · have hspan : g.Spans d (b * blockSize) ((b + 1) * blockSize) := by
      intro x hlo hhi
      rw [show x / blockSize = b from Nat.div_eq_of_lt_le hlo hhi]
      exact .inl hx
    refine (readLower_safe fuel _ hspan fun s hs x hlo hhi => ?_).bind fun r => ?_
    · rw [show x / blockSize = b from Nat.div_eq_of_lt_le hlo hhi, hu s hs]
      simpa using hup
    cases r with
    | none => exact .pure fun s _ hs => hs.knows ⟨hs.facts.1, nofun⟩
    | some src =>
      refine .pure fun s _ hs => hs.knows ⟨hs.facts.1, fun blk hblk => ?_⟩
      cases hblk
      rw [blockOf_logical (hs.facts.2 src rfl).filled]

variable {n : Nat}

theorem constructPage_safe {upper : Bool} (hme : me = .front n) (fuel : Nat)
    (buf : Nat → Byte) (hx : g.Excl ⟨d, b⟩) :
    Safe cfg me (Ours me g (fun c => c.Mine me .constructing [⟨d, b⟩])
        fun s => s.bitmap ⟨d, b⟩ = upper)
      (constructPage cfg me fuel d b lo hi buf upper) fun _ => Rest me g fun _ => True := by
  have hup : Lasting g fun s => s.bitmap ⟨d, b⟩ = upper := .bitmap (.inl hx) upper
  have giveBack : ∀ {Q : Shared → Prop} [Lasting g Q],
      Safe cfg me (Ours me g (fun c => c.Mine me .constructing [⟨d, b⟩]) Q)
        (do Prog.change fun s => { s with toCache := s.release ⟨d, b⟩ }
            pure false) fun _ => Rest me g fun _ => True := by
    intro Q hQ
    refine (Safe.moves (f := fun c => c.release ⟨d, b⟩) fun s hi hs => ?_).bind fun _ =>
      .pure fun s _ hs => hs.knows trivial
    obtain ⟨p, hp, ho, hst⟩ := hs.pages.page ⟨d, b⟩ (List.mem_singleton_self _)
    exact ⟨Cache.release_moves hi.wf hp ho (.inr hst),
      (hs.pages.drop List.not_mem_nil (Cache.release_pages _) nofun).free⟩
  refine (initPage_safe fuel buf hx fun s hs => hs).bind fun r => ?_
  cases r with
  | none => exact giveBack.pre fun s _ hs => hs.knows hs.facts.1
  | some blk =>
    have hmerge : Lasting g fun s => blk.merge b lo hi buf = (s.logical ⟨d, b⟩).merge b lo hi buf :=
      Lasting.logical (.inl hx) fun x => blk.merge b lo hi buf = x.merge b lo hi buf
    refine .pre (S := Ours me g (fun c => c.Mine me .constructing [⟨d, b⟩]) fun s =>
      blk.merge b lo hi buf = (s.logical ⟨d, b⟩).merge b lo hi buf) ?_
      fun s _ hs => hs.knows (hs.facts.2 blk rfl)
    refine Safe.attempt giveBack ?_
    refine (Sat.change fun s hinv hs => ?_).bind fun _ => .skip
    obtain ⟨hk, hf⟩ := publishWrite_spec hme hinv (hs.at_.excl.2 hx) hs.pages hs.facts
    exact ⟨hk.inv, hk.guar, hs.at_.frame publishWrite_frame.1 publishWrite_frame.2, hf, trivial⟩

theorem writeBlockLocked_safe (hme : me = .front n) (fuel : Nat) (buf : Nat → Byte)
    (hx : g.Excl ⟨d, b⟩) :
    Safe cfg me (Rest me g fun _ => True) (writeBlockLocked cfg me fuel d b lo hi buf)
      fun _ => Rest me g fun _ => True := by
  have hup : ∀ v, Lasting g fun s => s.bitmap ⟨d, b⟩ = v := .bitmap (.inl hx)
  refine (lookBit_safe (.inl hx)).bind fun upper => ?_
  have hstep : Safe cfg me (Rest me g fun s => True ∧ s.bitmap ⟨d, b⟩ = upper)
      (Prog.exec (writeStep cfg me ⟨d, b⟩ lo hi buf upper))
      fun r s => At me g s ∧ r.Ok me ⟨d, b⟩ upper s := by
    have hfirm : ∀ r : WriteStep, Firm (Inv cfg) (Rely me) fun s => At me g s ∧
        r.Ok me ⟨d, b⟩ upper s := by
      refine fun r => ⟨fun s s' _ _ h hr => ⟨h.1.rely hr, ?_⟩⟩
      cases r with
      | retry | accepted => exact Owning.free.rely s s' h.1.toGrips hr h.2
      | construct =>
        exact ⟨Owning.mine.rely s s' h.1.toGrips hr h.2.1,
          (hup upper).calm s s' (hr.calm h.1.toGrips) h.2.2⟩
    refine .exec fun s hinv hs => ?_
    obtain ⟨hk, hok⟩ := writeStep_spec lo hi buf hme hinv (hs.at_.excl.2 hx) hs.pages hs.facts.2
    exact ⟨hk.inv, hk.guar, hs.at_.frame writeStep_frame.1 writeStep_frame.2, hok⟩
  refine hstep.bind fun r => ?_
  cases r with
  | retry | accepted => exact .pure fun s _ hs => ⟨hs.1, hs.2, trivial⟩
  | construct =>
    exact ((constructPage_safe hme fuel buf hx).pre fun s _ hs => ⟨hs.1, hs.2.1, hs.2.2⟩).bind
      fun _ => .skip

variable {stop : Nat}

theorem writeAt_safe (hme : me = .front n) (buf : Nat → Byte) (fuel m pos : Nat) :
    Safe cfg me (Rest me .none fun _ => True) (writeAt cfg me fuel d stop buf m pos)
      fun _ => Rest me .none fun _ => True := by
  induction m generalizing pos with
  | zero => exact .halt
  | succ m ih =>
    refine .ite (fun _ => .skip) fun _ => ?_
    refine Safe.attempt Sat.skip ?_
    refine lockOne_safe.bind fun _ =>
      (writeBlockLocked_safe hme fuel buf (Grip.excl_one rfl)).bind fun r =>
      unlockOne_safe.bind fun _ => ?_
    match r with
    | none => exact ih pos
    | some true => exact ih _
    | some false => exact .skip

/-! ## Synchronous discards -/

/-- A discard of `ks` between its sections, with `todo` not yet dropped in the
backend. A materializer's blocks are absent and zero below. -/
structure Dropped (cfg : Config) (me : Thread) (g : Grip) (front : Bool) (ks todo : List CacheKey)
    (s : Shared) : Prop where
  grips : Grips me g s
  pending : ∀ k, s.pending k = some me → front = true ∧ k ∈ ks
  pages : s.Dropping me ks
  rests : ∀ k ∈ ks, k ∉ todo → Rests s k
  clear : front = false → ∀ k ∈ ks, s.bitmap k = false ∧
    blockOf (cfg.disk k.disk).lowerByte k.block = zeroBlock

/-- Who discards: a frontend request, or a materializer. -/
def Discards (me : Thread) (front : Bool) : Prop :=
  if front then ∃ n, me = .front n else ∃ d, me = .material d

section Discard

variable {front : Bool} {ks todo : List CacheKey} {k : CacheKey} {s : Shared}

theorem Dropped.firm (hx : ∀ k ∈ ks, g.Excl k) :
    Firm (Inv cfg) (Rely me) (Dropped cfg me g front ks todo) := by
  refine ⟨fun s s' _ _ h hr => ?_⟩
  have hc := hr.calm h.grips
  refine ⟨h.grips.rely hr, fun k hk => h.pending k ((hr.pending k).1 hk),
    (Owning.dropping hx).rely s s' h.grips hr h.pages, fun k hk ht => ?_, fun hf k hk => ?_⟩
  · exact (Lasting.rests (.inl (hx k hk))).calm s s' hc (h.rests k hk ht)
  · exact ⟨(hc.bitmap k (.inl (hx k hk))).trans (h.clear hf k hk).1, (h.clear hf k hk).2⟩

/-- What the block looks like once the backend dropped it. -/
theorem applyDiscard_rests (h : Dropped cfg me g front ks (k :: todo) s) (hk : k ∈ ks)
    (hz : front = false → s.logical k = zeroBlock) :
    Dropped cfg me g front ks todo (applyDiscard me k front s) := by
  have hlog : ∀ q, q ≠ k → (applyDiscard me k front s).logical q = s.logical q := by
    intro q hq
    cases front with
    | true => exact contents_cons_of_ne hq
    | false => rfl
  have hself : (applyDiscard me k front s).logical k = zeroBlock := by
    cases front with
    | true => exact contents_cons_self (m := .zero k)
    | false => exact hz rfl
  refine ⟨h.grips.frame rfl, fun q hq => ?_, h.pages, fun q hq ht => ⟨?_, h.pages.idle hq⟩, h.clear⟩
  · cases front with
    | false => exact h.pending q hq
    | true =>
      by_cases hqk : q = k
      · exact ⟨rfl, hqk ▸ hk⟩
      · exact h.pending q ((Function.update_of_ne hqk ..).symm.trans hq)
  · by_cases hqk : q = k
    · subst hqk
      exact (Function.update_self ..).trans hself.symm
    · have hrest := (h.rests q hq (by simp [hqk, ht])).1
      exact (Function.update_of_ne hqk ..).trans (hrest.trans (hlog q hqk).symm)

theorem applyDiscard_safe (hd : Discards me front) (hx : ∀ k ∈ ks, g.Excl k) (hk : k ∈ ks) :
    Safe cfg me (Dropped cfg me g front ks (k :: todo)) (Prog.change (applyDiscard me k front))
      fun _ => Dropped cfg me g front ks todo := by
  have : Firm (Inv cfg) (Rely me) (Dropped cfg me g front ks todo) := Dropped.firm hx
  refine .change fun s hi hs => ?_
  have hex : Excl s me k := hs.grips.excl.2 (hx k hk)
  cases front with
  | true =>
    obtain ⟨n, hme⟩ := hd
    have hkeep := applyDiscard_keeps hme hi hex (hs.pages.page k hk)
    exact ⟨hkeep.inv, hkeep.guar, applyDiscard_rests hs hk nofun⟩
  | false =>
    obtain ⟨hb, hlow⟩ := hs.clear rfl k hk
    have hpend : s.pending k = none := by
      cases hp : s.pending k with
      | none => rfl
      | some t =>
        have : t = me := Option.some.inj ((hi.pending k t hp).symm.trans hex)
        exact absurd (hs.pending k (this ▸ hp)).1 nofun
    have hz : s.logical k = zeroBlock := (hi.lower k hb hpend).trans hlow
    have hkeep := store_keeps false (fun _ => rfl) hi hex (hs.pages.idle hk) hz.symm
      fun _ _ => hi.untouched hb hpend
    exact ⟨hkeep.inv, hkeep.guar, applyDiscard_rests hs hk fun _ => hz⟩

theorem discardBackend_safe (hd : Discards me front) (hx : ∀ k ∈ ks, g.Excl k)
    (todo : List CacheKey) (ht : ∀ k ∈ todo, k ∈ ks) :
    Safe cfg me (Dropped cfg me g front ks todo) (discardBackend me front todo)
      fun _ => Dropped cfg me g front ks [] := by
  induction todo with
  | nil => exact .skip
  | cons k todo ih =>
    exact (applyDiscard_safe hd hx (ht k (.head _))).bind fun _ =>
      ih fun q hq => ht q (.tail _ hq)

theorem publishDiscard_safe (hx : ∀ k ∈ ks, g.Excl k) :
    Safe cfg me (Dropped cfg me g front ks []) (Prog.change fun s => ks.foldl publishDiscard s)
      fun _ => Rest me g fun s => ∀ k, k ∈ ks → s.bitmap k = true := by
  have : Lasting g fun s => ∀ k, k ∈ ks → s.bitmap k = true := .on fun k _ =>
    ⟨fun _ _ hc => hc.upper k⟩
  refine .change fun s hi hs => ?_
  obtain ⟨hk, hf⟩ := publishDiscard_keeps hi (fun k hk => hs.grips.excl.2 (hx k hk)) hs.pages
    fun k hk => (hs.rests k hk List.not_mem_nil).1
  refine ⟨hk.inv, hk.guar, ?_⟩
  rw [foldl_publishDiscard] at hf ⊢
  refine ⟨⟨hs.grips.frame rfl, fun k => ?_⟩, hf, fun k hk => if_pos hk⟩
  dsimp only
  split
  · nofun
  · intro hp
    exact absurd (hs.pending k hp).2 ‹_›

/-- A synchronous discard under the stripes of its blocks. -/
theorem discard_safe (front : Bool) (hd : Discards me front) (hx : ∀ k ∈ ks, g.Excl k) (fuel : Nat)
    [Lasting g P] (hclear : front = false → ∀ s, P s → ∀ k ∈ ks, s.bitmap k = false ∧
      blockOf (cfg.disk k.disk).lowerByte k.block = zeroBlock) :
    Safe cfg me (Rest me g P) (discard me front ks fuel) fun r =>
      Rest me g fun s => r = true → ∀ k, k ∈ ks → s.bitmap k = true := by
  induction fuel with
  | zero => exact .halt
  | succ fuel ih =>
    refine .attempt (.pure fun s _ hs => hs.knows nofun) ?_
    have hstep : Safe cfg me (Rest me g P)
        (Prog.exec (Shared.onCache (Cache.discardStep me ks))) fun ok =>
          Ours me g (fun c => if ok then c.Dropping me ks else c.Free me) fun s => P s ∧ True := by
      have : ∀ ok : Bool, Owning me g fun c => if ok then c.Dropping me ks else c.Free me :=
        fun ok => by
        cases ok with
        | true => exact .dropping hx
        | false => exact .free
      refine .onCache fun s hi hs => ?_
      obtain ⟨hm, hv⟩ := Cache.discardStep_spec hi.wf hs.pages fun k hk => hs.at_.excl.2 (hx k hk)
      exact ⟨hm, hv, trivial⟩
    refine hstep.bind fun ok => ?_
    cases ok with
    | false => exact ih.pre fun s _ hs => hs.knows hs.facts.1
    | true =>
      refine .pre (S := Dropped cfg me g front ks ks) ?_ fun s _ hs =>
        ⟨hs.at_.toGrips, fun k hk => absurd hk (hs.at_.settled k), hs.pages,
          fun k hk ht => absurd hk ht, fun hf => hclear hf s hs.facts.1⟩
      refine (discardBackend_safe hd hx ks fun k hk => hk).bind fun _ =>
        (publishDiscard_safe hx).bind fun _ => .pure fun s _ hs => ?_
      exact hs.knows fun _ => hs.facts

end Discard

/-! ## Discard requests -/

theorem stageZero_safe (hme : me = .front n) (fuel : Nat) (hx : g.Excl ⟨d, b⟩) :
    Safe cfg me (Rest me g fun _ => True) (stageZero cfg me fuel ⟨d, b⟩)
      fun _ => Rest me g fun _ => True := by
  have hstep : Safe cfg me (Rest me g fun _ => True) (Prog.exec (zeroStep cfg me ⟨d, b⟩))
      fun _ => Rest me g fun _ => True := by
    refine .exec fun s hi hs => ?_
    obtain ⟨hk, hf⟩ := zeroStep_spec hme hi (hs.at_.excl.2 hx) hs.pages
    exact ⟨hk.inv, hk.guar, hs.at_.frame zeroStep_frame.1 zeroStep_frame.2, hf, trivial⟩
  refine hstep.bind fun r => ?_
  cases r with
  | retry | accepted => exact .skip
  | fallback =>
    refine (discard_safe true ⟨n, hme⟩ (fun k hk => ?_) fuel nofun).bind fun ok =>
      Sat.pure fun s _ hs => hs.knows trivial
    rw [List.mem_singleton.1 hk]
    exact hx

theorem discardStaged_safe (hme : me = .front n) (fuel m b : Nat) :
    Safe cfg me (Rest me .none fun _ => True) (discardStaged cfg me fuel d stop m b)
      fun _ => Rest me .none fun _ => True := by
  induction m generalizing b with
  | zero => exact .halt
  | succ m ih =>
    refine .ite (fun _ => .skip) fun _ => ?_
    refine Safe.attempt Sat.skip ?_
    refine lockOne_safe.bind fun _ =>
      (stageZero_safe hme fuel (Grip.excl_one rfl)).bind fun r =>
      unlockOne_safe.bind fun _ => ?_
    match r with
    | none => exact ih b
    | some true => exact ih _
    | some false => exact .skip

theorem mem_blockRange {first last : Nat} {k : CacheKey} :
    k ∈ blockRange d first last ↔ k.disk = d ∧ first ≤ k.block ∧ k.block ≤ last := by
  simp only [blockRange, List.mem_map, List.mem_range'_1]
  constructor
  · rintro ⟨b, hb, rfl⟩
    exact ⟨rfl, hb.1, by dsimp only; omega⟩
  · rintro ⟨rfl, hf, hl⟩
    exact ⟨k.block, ⟨hf, by omega⟩, rfl⟩

theorem discardRanges_safe (hme : me = .front n) (fuel m first : Nat) :
    Safe cfg me (Rest me .none fun _ => True) (discardRanges me fuel d stop m first)
      fun _ => Rest me .none fun _ => True := by
  induction m generalizing first with
  | zero => exact .halt
  | succ m ih =>
    refine .ite (fun _ => .skip) fun _ => ?_
    refine (lockAll_safe _).bind fun _ => ?_
    refine (discard_safe true ⟨n, hme⟩ (fun k hk => ?_) fuel nofun).bind fun ok => ?_
    · obtain ⟨rfl, hf, hl⟩ := mem_blockRange.1 hk
      exact Grip.excl_writing (mem_lockBlockRange hf hl)
    rw [unlockBlockRange_eq]
    refine .pre ((unlockAll_safe (List.nodup_range.filter _)).bind fun _ => ?_)
      fun s _ hs => hs.knows trivial
    exact .ite (fun _ => ih _) fun _ => .skip

theorem discardAt_safe (hme : me = .front n) (fuel offset length : Nat) :
    Safe cfg me (Rest me .none fun _ => True) (discardAt cfg me fuel d offset length)
      fun _ => Rest me .none fun _ => True :=
  Sat.ite (fun _ => discardStaged_safe hme fuel fuel _) fun _ => discardRanges_safe hme fuel fuel _

end Sandboxer.Diffstore
