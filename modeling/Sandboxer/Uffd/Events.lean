import Sandboxer.Uffd.Safety

/-! # Releases, registrations and the rest of the machine

The invariants under the sections that do not install pages: a batch of
release events, the admission of a region, and the moves of the environment. -/
namespace Sandboxer.Uffd
open Lib.Threads PageState

variable {cfg : Config}

/-! ## Release events -/

/-- Page `i` lies in a piece of a release. -/
def AddressMap.Piece.Covers (p : AddressMap.Piece) (i : Nat) : Prop :=
  p.startOff ≤ pageSize * i ∧ pageSize * i < p.startOff + p.length

/-- The state `s'` is `s` with the pages in `C` released. -/
structure ReleasedBy (s s' : Shared) (C : Nat → Prop) : Prop where
  rest : s' = { s with released := s'.released, dirty := s'.dirty, state := s'.state }
  stateLen : s'.state.len = s.state.len
  dirtySize : s'.dirty.size = s.dirty.size
  releasedSize : s'.released.size = s.released.size
  released : ∀ i, s'.released.pages i = true ↔ s.released.pages i = true ∨ C i
  dirty : ∀ i, s'.dirty.pages i = true ↔ s.dirty.pages i = true ∨ C i
  inside : ∀ i, C i → s'.state.get i = .released
  outside : ∀ i, ¬C i → s'.state.get i = s.state.get i

theorem ReleasedBy.refl (s : Shared) : ReleasedBy s s fun _ => False :=
  ⟨rfl, rfl, rfl, rfl, by simp, by simp, by simp, by simp⟩

variable {s : Shared}

theorem ReleasedBy.trans {s₁ s₂ : Shared} {C D : Nat → Prop} (h₁ : ReleasedBy s s₁ C)
    (h₂ : ReleasedBy s₁ s₂ D) : ReleasedBy s s₂ fun i => C i ∨ D i where
  rest := by rw [h₂.rest, h₁.rest]
  stateLen := h₂.stateLen.trans h₁.stateLen
  dirtySize := h₂.dirtySize.trans h₁.dirtySize
  releasedSize := h₂.releasedSize.trans h₁.releasedSize
  released i := by rw [h₂.released, h₁.released, or_assoc]
  dirty i := by rw [h₂.dirty, h₁.dirty, or_assoc]
  inside i hi := by
    by_cases hD : D i
    · exact h₂.inside i hD
    · rw [h₂.outside i hD]
      exact h₁.inside i (hi.resolve_right hD)
  outside i hi := by
    rw [h₂.outside i fun h => hi (.inr h), h₁.outside i fun h => hi (.inl h)]

theorem releasePiece_releasedBy {p : AddressMap.Piece} {n : Nat}
    (hlen : s.state.len = n / pageSize) (hd : s.dirty.size = n) (hr : s.released.size = n)
    (hp : pageSize ∣ p.startOff ∧ pageSize ∣ p.length ∧ p.startOff + p.length ≤ n) :
    ReleasedBy s (s.releasePiece p) p.Covers := by
  obtain ⟨h1, h2, h3⟩ := hp
  have hin : ∀ i, (p.startOff / pageSize ≤ i ∧ i < (p.startOff + p.length) / pageSize ∧
      i < s.state.len) ↔ p.Covers i := by
    intro i
    rw [hlen]
    simp only [AddressMap.Piece.Covers, pageSize] at *
    omega
  refine ⟨rfl, PageStateMap.setRange_len, Dirty.marked_size _ _ _, Dirty.marked_size _ _ _,
    fun i => Dirty.marked_pages h1 h2 (by omega), fun i => Dirty.marked_pages h1 h2 (by omega),
    fun i hi => ?_, fun i hi => ?_⟩
  · simp only [Shared.releasePiece, PageStateMap.get_setRange, if_pos ((hin i).2 hi)]
  · simp only [Shared.releasePiece, PageStateMap.get_setRange, if_neg fun h => hi ((hin i).1 h)]

theorem releasePieces_releasedBy {ps : List AddressMap.Piece} {n : Nat}
    (hlen : s.state.len = n / pageSize) (hd : s.dirty.size = n) (hr : s.released.size = n)
    (hp : ∀ p ∈ ps, pageSize ∣ p.startOff ∧ pageSize ∣ p.length ∧ p.startOff + p.length ≤ n) :
    ReleasedBy s (ps.foldl Shared.releasePiece s) fun i => ∃ p ∈ ps, p.Covers i := by
  induction ps generalizing s with
  | nil => simpa using ReleasedBy.refl s
  | cons p ps ih =>
    have h₁ := releasePiece_releasedBy hlen hd hr (hp p (.head _))
    have h₂ := ih (h₁.stateLen.trans hlen) (h₁.dirtySize.trans hd)
      (h₁.releasedSize.trans hr) fun q hq => hp q (.tail _ hq)
    simpa [List.foldl_cons, exists_eq_or_imp] using h₁.trans h₂

/-- What a section that installs nothing keeps. -/
structure Passes (cfg : Config) (s s' : Shared) : Prop where
  inv : s'.toCore.Inv cfg
  grow : s.toCore.Grow s'.toCore
  mem : s'.mem = s.mem
  rest : s' = { s with toCore := s'.toCore }

theorem Passes.refl (h : s.toCore.Inv cfg) : Passes cfg s s := ⟨h, .refl _, rfl, rfl⟩

theorem Passes.trans {s₁ s₂ : Shared} (h₁ : Passes cfg s s₁) (h₂ : Passes cfg s₁ s₂) :
    Passes cfg s s₂ :=
  ⟨h₂.inv, h₁.grow.trans h₂.grow (fun _ _ h => by rw [h₂.mem]; exact h), h₂.mem.trans h₁.mem,
    by rw [h₂.rest, h₁.rest]⟩

theorem grow_of_state {c c' : Core} (hl : c'.log = c.log) (hm : c'.mem = c.mem)
    (ha : ∀ i, c.state.get i ≠ absent → c'.state.get i ≠ absent)
    (h : ∀ i, c'.state.get i = loaded → c.state.get i = loaded) : c.Grow c' :=
  ⟨ha, [], hl, fun i hi hi' => absurd (h i hi') hi, fun i hi => absurd (by rw [hm]) hi⟩

variable {s' : Shared}

theorem ReleasedBy.passes {C : Nat → Prop} (hi : s.toCore.Inv cfg)
    (h : ReleasedBy s s' C) (e : Option CaptureError) :
    Passes cfg s { s' with captureError := e, acked := fun i => s.acked i ∨ C i } := by
  have hmap : s'.addrMap = s.addrMap := by rw [h.rest]
  have hmem : s'.mem = s.mem := by rw [h.rest]
  have hlog : s'.log = s.log := by rw [h.rest]
  have hwr : s'.written = s.written := by rw [h.rest]
  have hpu : s'.punched = s.punched := by rw [h.rest]
  have hloaded : ∀ i, s'.state.get i = loaded → s.state.get i = loaded := by
    intro i hl
    by_cases hc : C i
    · rw [h.inside i hc] at hl; cases hl
    · rwa [h.outside i hc] at hl
  have habsent : ∀ i, s'.state.get i = absent → s.state.get i = absent ∧ ¬C i := by
    intro i ha
    by_cases hc : C i
    · rw [h.inside i hc] at ha; cases ha
    · exact ⟨h.outside i hc ▸ ha, hc⟩
  refine ⟨?_, grow_of_state hlog hmem (fun i hn ha => hn (habsent i ha).1) hloaded, hmem, by
    rw [h.rest]⟩
  refine {
    mapLen := by rw [← hi.mapLen, ← hmap]
    stateLen := h.stateLen.trans hi.stateLen
    dirtySize := h.dirtySize.trans hi.dirtySize
    releasedSize := h.releasedSize.trans hi.releasedSize
    bound := by have := hi.bound; rwa [← hmap] at this
    released_state := fun i hr ha => ?_
    released_dirty := fun i hr => ?_
    state_released := fun i hs => ?_
    acked_released := fun i ha => ?_
    loaded_hole := fun i hl hm => ?_
    content := fun i p hreg hm => ?_
    log := by have := hi.log; rwa [← hlog] at this }
  · obtain ⟨h1, h2⟩ := habsent i ha
    exact hi.released_state i (((h.released i).1 hr).resolve_right h2) h1
  · exact (h.dirty i).2 (((h.released i).1 hr).imp (hi.released_dirty i) id)
  · by_cases hc : C i
    · exact (h.released i).2 (.inr hc)
    · exact (h.released i).2 (.inl (hi.state_released i (h.outside i hc ▸ hs)))
  · exact (h.released i).2 (ha.imp (hi.acked_released i) id)
  · rw [hpu]
    exact hi.loaded_hole i (hloaded i hl) (hmem ▸ hm)
  · rw [hwr, hpu]
    exact (hi.content i p (hmap ▸ hreg) (hmem ▸ hm)).imp (fun hd => (h.dirty i).2 (.inl hd)) id

theorem handleRemoveLocked_passes (hi : s.toCore.Inv cfg) (startVA endVA fd : Nat) :
    Passes cfg s (handleRemoveLocked startVA endVA fd s) := by
  unfold handleRemoveLocked
  split
  · exact ⟨{ hi with }, grow_of_state rfl rfl (fun _ h => h) fun _ h => h, rfl, rfl⟩
  next hv =>
    have hstart : pageSize ∣ startVA := by simp only [pageSize] at *; omega
    have hend : pageSize ∣ endVA := by simp only [pageSize] at *; omega
    have hpieces := s.addrMap.releasePieces_aligned fd (endVA - startVA) hstart hend
    rw [hi.mapLen] at hpieces
    have hrel := releasePieces_releasedBy hi.stateLen hi.dirtySize hi.releasedSize hpieces
    -- the pages of the pieces are those the release covers
    have hC : ∀ i, (∃ p ∈ (s.addrMap.releasePieces fd endVA (endVA - startVA) startVA).1,
        p.Covers i) ↔ s.addrMap.Reaches fd startVA endVA (pageSize * i) :=
      fun i => s.addrMap.mem_releasePieces (Nat.le_refl _)
    simp only [hC] at hrel
    exact hrel.passes hi _

variable {m : AddressMap} {d : Dirty}

/-- The core with another address map and a larger dirty set. -/
theorem Core.Inv.remap {c : Core} (hc : c.Inv cfg)
    (hlen : m.memfdLen = c.addrMap.memfdLen) (hb : m.Bound) (hs : d.size = c.dirty.size)
    (hd : ∀ i, c.dirty.pages i = true → d.pages i = true)
    (hr : ∀ i, m.Registered i → c.addrMap.Registered i ∨ ((c.mem i).isSome → d.pages i = true))
    (e : Option CaptureError) :
    Core.Inv cfg { c with addrMap := m, dirty := d, captureError := e } := by
  refine { hc with
    mapLen := hlen.trans hc.mapLen, bound := hb, dirtySize := hs.trans hc.dirtySize
    released_dirty := fun i hi => hd i (hc.released_dirty i hi)
    content := fun i p hreg hm => ?_ }
  rcases hr i hreg with h | h
  · exact (hc.content i p h hm).imp (hd i) id
  · refine .inl (h ?_)
    rw [hm]
    rfl

variable {fd : Nat}

theorem invalidate_registered {start stop i : Nat}
    (h : (m.invalidate fd start stop).Registered i) : m.Registered i := by
  obtain ⟨w, hw, hp, hlo, hhi⟩ := h
  obtain ⟨v, hv, hpart, _⟩ := AddressMap.mem_invalidate hw
  have := hpart.memfd
  exact ⟨v, hv, hpart.process ▸ hp, by omega, by omega⟩

theorem invalidate_bound {start stop : Nat} (h : m.Bound) : (m.invalidate fd start stop).Bound := by
  intro w hw hp
  obtain ⟨v, hv, hpart, hfd⟩ := AddressMap.mem_invalidate hw
  rw [hfd]
  exact h v hv (hpart.process ▸ hp)

theorem Passes.remap (hi : s.toCore.Inv cfg)
    (hlen : m.memfdLen = s.addrMap.memfdLen) (hb : m.Bound) (hs : d.size = s.dirty.size)
    (hd : ∀ i, s.dirty.pages i = true → d.pages i = true)
    (hr : ∀ i, m.Registered i → s.addrMap.Registered i ∨ ((s.mem i).isSome → d.pages i = true))
    (e : Option CaptureError) :
    Passes cfg s { s with addrMap := m, dirty := d, captureError := e } :=
  ⟨hi.remap hlen hb hs hd hr e, grow_of_state rfl rfl (fun _ h => h) fun _ h => h, rfl, rfl⟩

theorem dispatchRelease_passes (hi : s.toCore.Inv cfg) (fd : Nat) (ev : Event) :
    Passes cfg s (dispatchRelease fd s ev) := by
  cases ev with
  | pagefault ev | other => exact .refl hi
  | remove start stop => exact handleRemoveLocked_passes hi start stop fd
  | unmap start stop =>
    have h := handleRemoveLocked_passes hi start stop fd
    exact h.trans (Passes.remap h.inv (AddressMap.invalidate_memfdLen _ _ _ _)
      (invalidate_bound h.inv.bound) rfl (fun _ hd => hd)
      (fun i hr => .inl (invalidate_registered hr)) (some .unmap))

theorem dispatchRelease_batch (hi : s.toCore.Inv cfg) (fd : Nat) (events : List Event) :
    Passes cfg s (events.foldl (dispatchRelease fd) s) := by
  induction events generalizing s with
  | nil => exact .refl hi
  | cons ev events ih =>
    have h := dispatchRelease_passes hi fd ev
    exact h.trans (ih h.inv)

theorem readBatch_passes {s₀ : Shared} (hi : s₀.toCore.Inv cfg) (fd : Nat) :
    Section.Ensures (· = s₀) (readBatch fd) fun _ s => Passes cfg s₀ s := by
  refine Section.Ensures.bind (Section.Ensures.any fun _ _ h _ => h)
    fun r => ?_
  rintro s a s' rfl h
  cases r with
  | batch events =>
    obtain ⟨_, _, rfl, _, rfl⟩ := h
    exact dispatchRelease_batch hi fd events
  | retryLater =>
    obtain ⟨_, rfl⟩ := h
    exact .refl hi
  | failed =>
    obtain ⟨_, _, rfl, _, rfl⟩ := h
    dsimp only
    split
    · exact .refl hi
    · exact ⟨{ hi with }, grow_of_state rfl rfl (fun _ h => h) fun _ h => h, rfl, rfl⟩

/-! ## Registrations -/

theorem seedRegion_spec {mem : Memfd} {vmas : List Vma} {d' : Dirty}
    (ha : ∀ v ∈ vmas, v.Aligned cfg.size) (h : seedRegion mem cfg.size fd vmas d = some d') :
    d'.size = d.size ∧ (∀ i, d.pages i = true → d'.pages i = true) ∧
      ∀ v ∈ vmas, v.OwnedBy fd → ∀ i, v.Holds (pageSize * i) →
        (mem i).isSome → d'.pages i = true := by
  unfold seedRegion at h
  induction vmas generalizing d with
  | nil =>
    cases h
    exact ⟨rfl, fun _ h => h, by simp⟩
  | cons v vs ih =>
    rw [List.foldlM_cons] at h
    obtain ⟨d₁, h₁, h₂⟩ := Option.bind_eq_some_iff.1 h
    obtain ⟨hs, hm, hcov⟩ := ih (fun w hw => ha w (.tail _ hw)) h₂
    have hv := ha v (.head _)
    have hstep : d₁.size = d.size ∧ (∀ i, d.pages i = true → d₁.pages i = true) ∧
        (v.OwnedBy fd → ∀ i, v.Holds (pageSize * i) → (mem i).isSome → d₁.pages i = true) := by
      split at h₁
      · refine ⟨(seedScan_mono (i := 0) h₁).1, fun i => (seedScan_mono h₁).2, fun _ i hi hr => ?_⟩
        have h1 := hv.start
        have h2 := hv.stop
        have h3 := hv.offset
        have h5 := hv.bounded
        obtain ⟨h6, h7⟩ := hi
        unfold Vma.memfdEnd at *
        simp only [pageSize] at *
        exact seedScan_covers (by simp only [pageSize]; omega) (by omega) h₁ (by omega) hr
          (by simp only [pageSize]; omega) (by simp only [pageSize]; omega)
      next ho =>
        cases h₁
        exact ⟨rfl, fun _ h => h, fun h => absurd h ho⟩
    refine ⟨hs.trans hstep.1, fun i hi => hm i (hstep.2.1 i hi), fun w hw => ?_⟩
    rcases List.mem_cons.1 hw with rfl | hw
    · exact fun ho i hi hr => hm i (hstep.2.2 ho i hi hr)
    · exact hcov w hw

section Admission

variable {s : Shared} {m : AddressMap} {fd va size offset : Nat}

/-- A dropped region leaves the map as it was. -/
theorem drop_passes (hi : s.toCore.Inv cfg)
    (hm : s.addrMap.registerVMA .ch va size offset = .ok m) {n : AddressMap} {f : Nat}
    (hlen : n.memfdLen = s.addrMap.memfdLen)
    (hn : n.vmas = s.addrMap.vmas ++ [⟨.ch, va, va + size, offset, f, false⟩])
    (e : Option CaptureError) :
    Passes cfg s { s with addrMap := n.removeStaged va size offset, captureError := e } := by
  have hv := AddressMap.removeStaged_vmas hm hn
  refine Passes.remap (m := n.removeStaged va size offset) hi hlen ?_ rfl (fun _ h => h)
    (fun i ⟨v, hv', hr⟩ => .inl ⟨v, hv ▸ hv', hr⟩) e
  intro v hv' hp
  exact hi.bound v (hv ▸ hv') hp

/-- An adopted region has its resident pages marked dirty. -/
theorem adopt_passes (hi : s.toCore.Inv cfg) (hfd : fd ≠ 0)
    (hm : s.addrMap.registerVMA .ch va size offset = .ok m) {d : Dirty}
    (hd : seedRegion s.mem cfg.size fd (m.bindStaged fd va offset).vmas s.dirty = some d) :
    Passes cfg s { s with addrMap := m.bindStaged fd va offset, dirty := d } := by
  obtain ⟨hlen, _⟩ := AddressMap.registerVMA_ok hm
  have hb := AddressMap.bindStaged_vmas hm fd
  obtain ⟨hs, hmono, hcov⟩ := seedRegion_spec
    (fun v hv => by rw [← hi.mapLen, ← hlen]; exact (m.bindStaged fd va offset).aligned v hv) hd
  refine .remap (m := m.bindStaged fd va offset) hi hlen ?_ hs hmono ?_ s.captureError
  · intro v hv hp
    rw [hb] at hv
    rcases List.mem_append.1 hv with hv | hv
    · exact hi.bound v hv hp
    · rw [List.mem_singleton.1 hv]; exact hfd
  · rintro i ⟨v, hv, hp, hh⟩
    have hv' := hv
    rw [hb] at hv'
    rcases List.mem_append.1 hv' with hv' | hv'
    · exact .inl ⟨v, hv', hp, hh⟩
    · refine .inr (hcov v hv ?_ i hh)
      rw [List.mem_singleton.1 hv']
      exact ⟨rfl, rfl, rfl⟩

theorem addUffd_passes {s₀ : Shared} (hi : s₀.toCore.Inv cfg) (fd va size offset : Nat) :
    Section.Ensures (· = s₀) (addUffd cfg fd va size offset) fun _ s => Passes cfg s₀ s := by
  refine Section.Ensures.start ?_
  refine Section.Ensures.bind (Section.Ensures.any fun _ _ h _ => h)
    fun setup => ?_
  refine Section.Ensures.bind (Section.Ensures.any (Q := fun _ s => s = s₀) fun _ _ h _ => h)
    fun seek => ?_
  have keep : Section.Ensures (· = s₀) (pure ()) fun _ s => Passes cfg s₀ s :=
    Section.Ensures.pure fun s hs => by subst hs; exact .refl hi
  refine Section.Ensures.ite (fun _ => keep) fun hopen => ?_
  have hfd : fd ≠ 0 := by rintro rfl; simp at hopen
  split
  · exact keep
  next m hm =>
    obtain ⟨hlen, hvmas, _⟩ := AddressMap.registerVMA_ok hm
    refine Section.Ensures.ite (fun _ => ?_) fun _ => ?_
    · refine Section.Ensures.modify fun s hs => ?_
      subst hs
      exact drop_passes hi hm hlen hvmas _
    dsimp only
    split
    · refine Section.Ensures.modify fun s hs => ?_
      subst hs
      exact drop_passes (n := m.bindStaged fd va offset) hi hm hlen
        (AddressMap.bindStaged_vmas hm fd) _
    next d hd =>
      refine Section.Ensures.modify fun s hs => ?_
      subst hs
      exact adopt_passes hi hfd hm (Option.filter_eq_some_iff.1 hd).1

end Admission

/-! ## The environment -/

theorem captureView_inv {v : CaptureView} (hi : s.toCore.Inv cfg)
    (h : captureView cfg s = some (v, s')) : s'.toCore.Inv cfg := by
  have hc := captureView_spec hi.stateLen hi.releasedSize hi.dirtySize h
  obtain ⟨hrs, hr⟩ := hc.released
  obtain ⟨hds, hd⟩ := hc.dirty
  have hgrown := hi.dirtied hds fun i hp => (hd i).2 (.inl hp)
  rw [captureView_frame cfg h]
  exact { hgrown with
    releasedSize := hrs.trans hi.releasedSize
    released_state := fun i hp => ((hr i).1 hp).elim (hi.released_state i) And.right
    released_dirty := fun i hp => (hd i).2 (((hr i).1 hp).imp (hi.released_dirty i) id)
    state_released := fun i hs => (hr i).2 (.inl (hi.state_released i hs))
    acked_released := fun i ha => (hr i).2 (.inl (hi.acked_released i ha)) }

theorem Env.core_inv (h : Env cfg s s') (hi : s.toCore.Inv cfg) : s'.toCore.Inv cfg := by
  cases h with
  | write i p =>
    refine { hi with loaded_hole := ?_, content := ?_ }
    · intro j hl (hm : Function.update s.mem i (some p) j = none)
      by_cases hj : j = i
      · subst hj; simp at hm
      · rw [Function.update_of_ne hj] at hm; exact hi.loaded_hole j hl hm
    · intro j q hr (hm : Function.update s.mem i (some p) j = some q)
      by_cases hj : j = i
      · exact .inr (.inl (.inr hj))
      · rw [Function.update_of_ne hj] at hm
        exact (hi.content j q hr hm).imp id (Or.imp .inl id)
  | punch i =>
    refine { hi with loaded_hole := ?_, content := ?_ }
    · intro j hl (hm : Function.update s.mem i none j = none)
      by_cases hj : j = i
      · exact .inr hj
      · rw [Function.update_of_ne hj] at hm; exact .inl (hi.loaded_hole j hl hm)
    · intro j q hr (hm : Function.update s.mem i none j = some q)
      by_cases hj : j = i
      · subst hj; simp at hm
      · rw [Function.update_of_ne hj] at hm
        exact (hi.content j q hr hm).imp id (Or.imp id (Or.imp .inl id))
  | collect d hs hd => exact hi.dirtied hs hd
  | capture hv => exact captureView_inv hi hv
  | cancel => exact hi

end Sandboxer.Uffd
