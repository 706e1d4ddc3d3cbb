import Sandboxer.Diffstore.Sections

/-! # Writeback

The worker freezes dirty pages in batches, gives their payloads to the backend
and completes them. A frozen page belongs to the worker until the backend has
its contents, so what it writes is never older than the logical contents. -/
namespace Sandboxer.Diffstore

variable {cfg : Config} {s : Shared} {c c' c'' : Cache} {k : CacheKey} {ks ks' : List CacheKey}

/-! ## Frozen batches -/

/-- The pages of a batch are the worker's. -/
structure Cache.Frozen (c : Cache) (ks : List CacheKey) : Prop where
  nodup : ks.Nodup
  page : ∀ k ∈ ks, ∃ p, c.pages k = some p ∧ p.owner = some .worker ∧ p.state = .writeback

/-- Dirty pages are frozen, and nothing else is touched. -/
structure Freezes (s : Shared) (c c' : Cache) (ks : List CacheKey) : Prop where
  moves : Moves s .worker c c'
  nodup : ks.Nodup
  page : ∀ k ∈ ks, ∃ p, c.pages k = some p ∧ p.state = .dirty ∧
    c'.pages k = some { p with state := .writeback, owner := some .worker }
  keep : ∀ q, q ∉ ks → c'.pages q = c.pages q

theorem Freezes.nil (hwf : c.Wf) : Freezes s c c [] :=
  ⟨.refl hwf, List.nodup_nil, nofun, fun _ _ => rfl⟩

theorem Freezes.frozen (h : Freezes s c c' ks) : c'.Frozen ks :=
  ⟨h.nodup, fun k hk => by
    obtain ⟨p, -, -, hp⟩ := h.page k hk
    exact ⟨_, hp, rfl, rfl⟩⟩

variable {p : CachePage}

theorem Freezes.not_mem (h : Freezes s c c' ks) (hp : c.pages k = some p) (hs : p.state ≠ .dirty) :
    k ∉ ks := by
  intro hk
  obtain ⟨q, hq, hqs, -⟩ := h.page k hk
  cases hp.symm.trans hq
  exact hs hqs

theorem Freezes.append (h : Freezes s c c' ks) (h' : Freezes s c' c'' ks') :
    Freezes s c c'' (ks ++ ks') := by
  have disjoint : ∀ k ∈ ks, k ∉ ks' := by
    intro k hk
    obtain ⟨p, -, -, hp⟩ := h.page k hk
    exact h'.not_mem hp nofun
  refine ⟨h.moves.trans h'.moves, List.Nodup.append h.nodup h'.nodup disjoint, fun k hk => ?_,
    fun q hq => ?_⟩
  · rcases List.mem_append.1 hk with hk | hk
    · rw [h'.keep k (disjoint k hk)]
      exact h.page k hk
    · rw [← h.keep k fun hk' => disjoint k hk' hk]
      exact h'.page k hk
  · rw [List.mem_append, not_or] at hq
    exact (h'.keep q hq.2).trans (h.keep q hq.1)

theorem Cache.freeze_spec (hwf : c.Wf) (hp : c.pages k = some p)
    (hs : p.state = .dirty) : Freezes s c (c.freeze k) [k] := by
  have hpages := freeze_eq hp
  refine ⟨.single (hwf.freeze hp hs) hpages ?_, List.nodup_singleton k, fun q hq => ?_,
    fun q hq => ?_⟩
  · rw [hp]
    exact .freeze rfl hs
  · rw [List.mem_singleton.1 hq]
    exact ⟨p, hp, hs, by rw [hpages, Function.update_self]⟩
  · rw [hpages, Function.update_of_ne fun heq => hq (List.mem_singleton.2 heq)]

variable {d : Nat} {zero : Bool}

theorem Cache.batchable_dirty {b : Nat} (h : c.batchable d zero b = true) :
    ∃ p, c.pages ⟨d, b⟩ = some p ∧ p.state = .dirty := by
  unfold batchable at h
  split at h
  · cases h
  next p hp =>
    simp only [Bool.and_eq_true, beq_iff_eq] at h
    exact ⟨p, hp, h.1⟩

theorem Cache.takeRun_spec (n b : Nat) (c : Cache) (hwf : c.Wf) :
    Freezes s c (takeRun d zero n b c).2 (takeRun d zero n b c).1 := by
  induction n generalizing b c with
  | zero => exact .nil hwf
  | succ n ih =>
    unfold takeRun
    split
    next hb =>
      obtain ⟨p, hp, hs⟩ := batchable_dirty hb
      have hhead := freeze_spec (s := s) hwf hp hs
      exact hhead.append (ih (b + 1) _ hhead.moves.wf)
    · exact .nil hwf

theorem Cache.fillBatch_spec (qs batch : List CacheKey) (c' : Cache) (h : Freezes s c c' batch) :
    Freezes s c (fillBatch d zero qs batch c').2 (fillBatch d zero qs batch c').1 := by
  induction qs generalizing batch c' with
  | nil => exact h
  | cons q qs ih =>
    unfold fillBatch
    split
    · exact h
    · split
      · exact ih batch c' h
      · exact ih _ _ (h.append (takeRun_spec _ _ c' h.moves.wf))

theorem Cache.selectBatch_spec (eligible : Nat → Bool) (hwf : c.Wf) :
    Freezes s c (selectBatch eligible c).2 (selectBatch eligible c).1 := by
  unfold selectBatch
  split
  · exact .nil hwf
  · exact fillBatch_spec _ [] c (.nil hwf)

theorem Cache.foldl_freeze_spec (hwf : c.Wf) (hn : ks.Nodup)
    (hd : ∀ k ∈ ks, ∃ p, c.pages k = some p ∧ p.state = .dirty) :
    Freezes s c (ks.foldl freeze c) ks := by
  induction ks generalizing c with
  | nil => exact .nil hwf
  | cons k ks ih =>
    obtain ⟨hk, hn⟩ := List.nodup_cons.1 hn
    obtain ⟨p, hp, hs⟩ := hd k (.head _)
    have hhead := freeze_spec (s := s) hwf hp hs
    refine hhead.append (ih hhead.moves.wf hn fun q hq => ?_)
    obtain ⟨r, hr, hrs⟩ := hd q (.tail _ hq)
    have hqk : q ≠ k := fun heq => hk (heq ▸ hq)
    exact ⟨r, by rw [freeze_eq hp, Function.update_of_ne hqk]; exact hr, hrs⟩

theorem Cache.selectCohort_spec (d : Nat) (hwf : c.Wf) :
    Freezes s c (selectCohort d c).2 (selectCohort d c).1 :=
  foldl_freeze_spec hwf (hwf.dirty.nodup.filter _) fun k hk =>
    hwf.dirty.page k (List.mem_of_mem_filter hk)

/-! ## Completion -/

theorem Cache.foldl_complete_other {q : CacheKey} (hq : q ∉ ks) :
    (ks.foldl complete c).pages q = c.pages q := by
  induction ks generalizing c with
  | nil => rfl
  | cons k ks ih =>
    rw [List.mem_cons, not_or] at hq
    exact (ih hq.2).trans (complete_pages_of_ne hq.1)

/-- Frozen pages are completed once the backend has them. -/
theorem Cache.foldl_complete_spec (hwf : c.Wf) (hok : ∀ k, KeyOk s k (c.pages k))
    (hf : c.Frozen ks) (hb : ∀ k ∈ ks, ∀ p, c.pages k = some p → Has s k p) :
    Moves s .worker c (ks.foldl complete c) := by
  induction ks generalizing c with
  | nil => exact .refl hwf
  | cons k ks ih =>
    obtain ⟨hk, hn⟩ := List.nodup_cons.1 hf.nodup
    obtain ⟨p, hp, ho, hs⟩ := hf.page k (.head _)
    have hkey := hok k
    rw [hp] at hkey
    have hbk := hb k (.head _) p hp
    have hwf' := hwf.complete hp hs (PageOk.writeback hkey hs).charged
    have hmove : Moves s .worker c (c.complete k) := by
      cases hz : p.zero with
      | true =>
        refine .single hwf' (by rw [complete_zero hp hz, release_pages]) ?_
        rw [hp]
        exact .dropZero rfl hs hbk
      | false =>
        refine .single hwf' (complete_data hp hz) ?_
        rw [hp]
        exact .complete rfl hs hz hbk
    have hother : ∀ q ∈ ks, (c.complete k).pages q = c.pages q :=
      fun q hq => complete_pages_of_ne fun heq => hk (heq ▸ hq)
    exact hmove.trans (ih hwf' (hmove.ok hok)
      ⟨hn, fun q hq => by rw [hother q hq]; exact hf.page q (.tail _ hq)⟩
      fun q hq r hr => hb q (.tail _ hq) r (by rwa [hother q hq] at hr))

/-- The backend stores a frozen page. -/
theorem applyPage_keeps (hi : Inv cfg s) (hp : s.pages k = some p)
    (hs : p.state = .writeback) : Keeps cfg .worker s (applyPage .worker k s) := by
  have hkey := hi.key k
  rw [hp] at hkey
  have hc := (PageOk.writeback hkey hs).content
  simp only [applyPage, hp]
  constructor
  · refine { hi with key := fun q => ?_ }
    refine (hi.key q).frame rfl (fun h => ?_) rfl fun _ _ _ _ => ⟨id, id⟩
    by_cases hq : q = k
    · subst hq
      exact (Function.update_self ..).trans hc
    · exact (Function.update_of_ne hq ..).trans h
  · refine { Guar.refl .worker s with
      steady := fun h => absurd rfl h
      held := fun q hq => ⟨rfl, rfl, fun h => ⟨h, ?_⟩⟩
      payload := fun q _ => ?_
      blank := fun q h hm => ?_
      applied := ⟨[⟨k, p.content, .worker⟩], rfl, ?_, fun q hq =>
        Function.update_of_ne (hq _ (List.mem_singleton_self _)).symm ..⟩ }
    · refine Function.update_of_ne ?_ ..
      rintro rfl
      exact absurd hs (h p hp).2
    · simp only [Shared.payload]
      by_cases hq : q = k
      · subst hq
        rw [hp, waiting, if_pos (.inr hs)]
        rfl
      · rw [Function.update_of_ne hq]
    · dsimp only at hm ⊢
      by_cases hq : q = k
      · subst hq
        rw [Function.update_self, Bool.not_eq_false'] at hm
        rw [Function.update_self, CachePage.content, if_pos hm]
      · rw [Function.update_of_ne hq] at hm ⊢
        exact h hm
    · intro e he
      rw [List.mem_singleton.1 he]
      exact ⟨rfl, Function.update_self .., hc, fun _ h => by cases h⟩

end Sandboxer.Diffstore
