import Sandboxer.Uffd.Handler

/-! # The capture view

What `CaptureView` fixes under both locks of the handler: the residency of the
memfd as `SEEK_DATA`/`SEEK_HOLE` report it, and copies of the dirty and
released sets after every hole that is known to be zero was published in
them. -/
namespace Sandboxer.Uffd
open PageState

/-! ## Residency -/

/-- A page bitmap of `length` bytes. -/
structure Bitmap where
  length : Nat
  bit : Nat → Bool

/-- `Dirty.Snapshot`. -/
def Dirty.snapshot (d : Dirty) : Bitmap := ⟨(d.size / pageSize + 7) / 8, d.pages⟩

/-- `memory.CaptureView`. -/
structure CaptureView where
  workingSetOnly : Bool
  size : Nat
  materialized : Bitmap
  dirty : Bitmap
  released : Bitmap

/-- `sparse.Extent`. -/
structure Extent where
  offset : Nat
  size : Nat
  deriving DecidableEq, Repr

/-- `WalkHoles`, from `off` on. -/
def walkHoles (mem : Memfd) (size off : Nat) : Option (List Extent) :=
  if size ≤ off then some []
  else match seekData mem (size / pageSize) off with
    | none => some [⟨off, size - off⟩]
    | some d =>
      if d < off then none
      else
        let data := min d size
        let here : List Extent := if off < data then [⟨off, data - off⟩] else []
        if data = size then some here
        else
          let hole := seekHole mem (size / pageSize) data
          if hole ≤ data then none
          else (walkHoles mem size (min hole size)).map (here ++ ·)
termination_by size - off
decreasing_by
  rename_i hoff hd hdata hhole
  simp only [data, hole] at hdata hhole
  omega

/-- The loop of `CaptureView` over the holes: mark what lies between them. -/
def markResident (d : Dirty) : Nat → List Extent → Option Dirty
  | off, [] => d.mark off (d.size - off)
  | off, hole :: holes =>
    if hole.offset % pageSize ≠ 0 ∨ hole.size % pageSize ≠ 0 then none
    else match d.mark off (hole.offset - off) with
      | none => none
      | some d => markResident d (hole.offset + hole.size) holes

theorem Dirty.mark_some {d : Dirty} {o l : Nat} (h : o + l ≤ d.size) :
    d.mark o l = some (d.marked o l) := by
  have hm : (d.mark o l).isSome := by
    unfold mark
    rw [dif_neg (by omega)]
    split <;> rfl
  obtain ⟨d', hd⟩ := Option.isSome_iff_exists.1 hm
  rw [marked, hd, Option.getD_some]

section Residency

/-- The set `d'` is `d` with the resident pages of `[a, b)`. -/
structure Marks (mem : Memfd) (a b : Nat) (d d' : Dirty) : Prop where
  size : d'.size = d.size
  pages : ∀ i, d'.pages i = true ↔ d.pages i = true ∨
    (a ≤ pageSize * i ∧ pageSize * i < b ∧ (mem i).isSome)

variable {mem : Memfd} {a b c : Nat} {d d₁ d₂ : Dirty}

theorem Marks.empty (h : ∀ i, a ≤ pageSize * i → pageSize * i < b → (mem i).isSome → False) :
    Marks mem a b d d :=
  ⟨rfl, fun i => ⟨.inl, fun hi => hi.elim id fun ⟨h1, h2, h3⟩ => (h i h1 h2 h3).elim⟩⟩

theorem Marks.marked (ha : pageSize ∣ a) (hb : pageSize ∣ b) (hab : a ≤ b) (hd : b ≤ d.size)
    (h : ∀ i, a ≤ pageSize * i → pageSize * i < b → (mem i).isSome) :
    Marks mem a b d (d.marked a (b - a)) := by
  refine ⟨Dirty.marked_size _ _ _, fun i => ?_⟩
  rw [Dirty.marked_pages ha (Nat.dvd_sub hb ha) (by omega), Nat.add_sub_cancel' hab]
  exact or_congr .rfl ⟨fun hi => ⟨hi.1, hi.2, h i hi.1 hi.2⟩, fun hi => ⟨hi.1, hi.2.1⟩⟩

theorem Marks.trans (h₁ : Marks mem a b d d₁) (h₂ : Marks mem b c d₁ d₂) (hab : a ≤ b)
    (hbc : b ≤ c) : Marks mem a c d d₂ := by
  refine ⟨h₂.size.trans h₁.size, fun i => ?_⟩
  rw [h₂.pages, h₁.pages, or_assoc]
  refine or_congr .rfl ⟨?_, fun ⟨h1, h2, h3⟩ => ?_⟩
  · rintro (⟨h1, h2, h3⟩ | ⟨h1, h2, h3⟩)
    · exact ⟨h1, by omega, h3⟩
    · exact ⟨by omega, h2, h3⟩
  · rcases Nat.lt_or_ge (pageSize * i) b with h | h
    · exact .inl ⟨h1, h, h3⟩
    · exact .inr ⟨h, h2, h3⟩

/-- The walk finds the next resident pages `[p, e)` at or after `off`, or none
up to the end. -/
theorem walkHoles_next (mem : Memfd) {n off : Nat} (hoff : pageSize ∣ off)
    (hend : off < pageSize * n) :
    (walkHoles mem (pageSize * n) off = some [⟨off, pageSize * n - off⟩] ∧
      ∀ i, off ≤ pageSize * i → pageSize * i < pageSize * n → (mem i).isSome → False) ∨
    ∃ p e, off ≤ pageSize * p ∧ p < e ∧ e ≤ n ∧
      (∀ i, off ≤ pageSize * i → i < p → (mem i).isSome → False) ∧
      (∀ i, p ≤ i → i < e → (mem i).isSome) ∧
      walkHoles mem (pageSize * n) off = (walkHoles mem (pageSize * n) (pageSize * e)).map
          ((if off < pageSize * p then [⟨off, pageSize * p - off⟩] else []) ++ ·) := by
  rw [walkHoles, if_neg (Nat.not_le.2 hend), Nat.mul_div_cancel_left _ pageSize_pos]
  cases hs : seekData mem n off with
  | none =>
    refine .inl ⟨rfl, fun i h1 h2 h3 => ?_⟩
    have := seekData_none hs (Nat.lt_of_mul_lt_mul_left h2) h3
    simp only [pageSize] at *
    omega
  | some data =>
    obtain ⟨p, hp, hr, hlt, hdata, hbelow⟩ := seekData_some hs
    have hpoff : off ≤ pageSize * p := by simp only [pageSize] at *; omega
    have hdp : data = pageSize * p := by omega
    subst hdp
    obtain ⟨e, hpe, hen, hhole, hin, -⟩ := seekHole_spec hp hr
      (Nat.le_refl _) (by simp only [pageSize]; omega)
    have hpn : pageSize * p < pageSize * n := (Nat.mul_lt_mul_left pageSize_pos).2 hp
    have hpe' : pageSize * p < pageSize * e := (Nat.mul_lt_mul_left pageSize_pos).2 hpe
    refine .inr ⟨p, e, hpoff, hpe, hen, fun i h1 h2 h3 => ?_, hin, ?_⟩
    · have := hbelow i h2 h3
      simp only [pageSize] at *
      omega
    · simp only [Nat.min_eq_left (Nat.le_of_lt hpn), hhole,
        Nat.min_eq_left (Nat.mul_le_mul_left pageSize hen)]
      rw [if_neg (by omega), if_neg (by omega), if_neg (by omega)]

/-- The walk from `off` on and the marks behind it, at `o`: everything between
is resident, so together they mark the resident pages from `o` on. -/
theorem markResident_walkHoles (mem : Memfd) {n off o : Nat} (hoff : pageSize ∣ off)
    (ho : pageSize ∣ o) (hle : o ≤ off) (hend : off ≤ pageSize * n)
    (hbetween : ∀ i, o ≤ pageSize * i → pageSize * i < off → (mem i).isSome)
    (hd : d.size = pageSize * n) :
    ∃ holes d', walkHoles mem (pageSize * n) off = some holes ∧
      markResident d o holes = some d' ∧ Marks mem o (pageSize * n) d d' := by
  induction hk : pageSize * n - off using Nat.strongRecOn generalizing off o d with
  | _ k ih =>
    have hhead : Marks mem o off d (d.marked o (off - o)) :=
      .marked ho hoff hle (hd ▸ hend) hbetween
    have hsome : d.mark o (off - o) = some (d.marked o (off - o)) :=
      Dirty.mark_some (by omega)
    rcases Nat.eq_or_lt_of_le hend with heq | hlt
    · subst heq
      exact ⟨[], _, by rw [walkHoles, if_pos (Nat.le_refl _)], by rw [markResident, hd, hsome],
        hhead⟩
    rcases walkHoles_next mem hoff hlt with
      ⟨hw, hnone⟩ | ⟨p, e, hp, hpe, hen, hhole, hin, hw⟩
    · -- the rest of the file is one hole
      refine ⟨_, d.marked o (off - o), hw, ?_, hhead.trans (.empty hnone) hle hend⟩
      rw [markResident, if_neg (by simp only [pageSize] at *; omega), hsome]
      simp only [markResident, Nat.add_sub_cancel' hend, Dirty.marked_size, hd, Nat.sub_self]
      rw [Dirty.mark, dif_neg (by rw [Dirty.marked_size]; omega), if_pos rfl]
    have hpe' : pageSize * p < pageSize * e := (Nat.mul_lt_mul_left pageSize_pos).2 hpe
    have hen' : pageSize * e ≤ pageSize * n := Nat.mul_le_mul_left _ hen
    by_cases hgap : off < pageSize * p
    · -- a hole `[off, p)`, then resident pages up to `e`
      obtain ⟨holes, d', hw', hm, hmarks⟩ := ih (pageSize * n - pageSize * e) (by omega)
        (Nat.dvd_mul_right _ e) (Nat.dvd_mul_right _ p) (Nat.le_of_lt hpe') hen'
        (fun i h1 h2 => hin i (Nat.le_of_mul_le_mul_left h1 pageSize_pos)
          (Nat.lt_of_mul_lt_mul_left h2)) (hhead.size.trans hd) rfl
      refine ⟨_, d', by rw [hw, hw', if_pos hgap]; rfl, ?_, ?_⟩
      · show markResident d o (⟨off, pageSize * p - off⟩ :: holes) = some d'
        rw [markResident, if_neg (by simp only [pageSize] at *; omega), hsome]
        simpa only [Nat.add_sub_cancel' hp] using hm
      · have hskip : Marks mem off (pageSize * p) (d.marked o (off - o)) (d.marked o (off - o)) :=
          .empty fun i h1 h2 => hhole i h1 (Nat.lt_of_mul_lt_mul_left h2)
        exact (hhead.trans hskip hle hp).trans hmarks (by omega) (by omega)
    · have hpoff : off = pageSize * p := by omega
      have hbetween' : ∀ i, o ≤ pageSize * i → pageSize * i < pageSize * e → (mem i).isSome := by
        intro i h1 h2
        rcases Nat.lt_or_ge (pageSize * i) off with h | h
        · exact hbetween i h1 h
        · exact hin i (Nat.le_of_mul_le_mul_left (hpoff ▸ h) pageSize_pos)
            (Nat.lt_of_mul_lt_mul_left h2)
      obtain ⟨holes, d', hw', hm, hmarks⟩ := ih (pageSize * n - pageSize * e) (by omega)
        (Nat.dvd_mul_right _ e) ho (by omega) hen' hbetween' hd rfl
      exact ⟨holes, d', by rw [hw, hw', if_neg hgap]; rfl, hm, hmarks⟩

end Residency

/-! ## Registrations -/

/-- The first loop of `CaptureView`: from `off` on every byte has a bound
registration. -/
def AddressMap.covers (m : AddressMap) (size off : Nat) : Bool :=
  if size ≤ off then true
  else match m.registration off (size - off) with
    | none => false
    | some r => if r.fd = 0 ∨ r.covered = 0 then false else m.covers size (off + r.covered)
termination_by size - off

theorem AddressMap.covers_spec {m : AddressMap} {size off b : Nat} (h : m.covers size off = true)
    (hlo : off ≤ b) (hhi : b < size) : ∃ v ∈ m.vmas, v.process = .ch ∧ v.Holds b := by
  induction hk : size - off using Nat.strongRecOn generalizing off with
  | _ k ih =>
    rw [covers, if_neg (by omega)] at h
    cases hr : m.registration off (size - off) with
    | none => simp [hr] at h
    | some r =>
      simp only [hr] at h
      split at h
      · cases h
      next hne =>
        simp only [not_or] at hne
        by_cases hb : b < off + r.covered
        · unfold registration at hr
          cases hv : m.regionAt off with
          | none =>
            simp only [hv, Option.some.injEq] at hr
            exact absurd (hr ▸ rfl) hne.1
          | some v =>
            obtain ⟨hmem, hp, hlo', hhi'⟩ := regionAt_some hv
            simp only [hv] at hr
            split at hr
            · cases hr
            cases hr
            refine ⟨v, hmem, hp, by omega, ?_⟩
            simp only [Vma.memfdEnd] at *
            omega
        · exact ih (size - (off + r.covered)) (by omega) h (by omega) rfl

/-! ## The view -/

/-- The body of the second loop of `CaptureView`: a hole known to be loaded or
released is zero, and enters both lifetime sets. -/
def publishHole (state : PageStateMap) (resident : Dirty) (r : Dirty × Dirty) (i : Nat) :
    Dirty × Dirty :=
  if resident.pages i = false ∧ (state.get i = loaded ∨ state.get i = released) then
    (r.1.marked (pageSize * i) pageSize, r.2.marked (pageSize * i) pageSize)
  else r

theorem marked_page {d : Dirty} {k i : Nat} (hk : pageSize * k + pageSize ≤ d.size) :
    (d.marked (pageSize * k) pageSize).pages i = true ↔ d.pages i = true ∨ i = k := by
  rw [Dirty.marked_pages (Nat.dvd_mul_right _ _) (Nat.dvd_refl _) hk]
  refine or_congr .rfl ?_
  simp only [pageSize]
  omega

/-- What the loop adds to both sets: the holes among `indices` that are not
absent. -/
structure Published (state : PageStateMap) (resident : Dirty) (indices : List Nat) (d d' : Dirty) :
    Prop where
  size : d'.size = d.size
  pages : ∀ i, d'.pages i = true ↔
    d.pages i = true ∨ (i ∈ indices ∧ resident.pages i = false ∧ state.get i ≠ absent)

section Publish

variable {state : PageStateMap} {resident : Dirty} {indices : List Nat} {d d' : Dirty} {k : Nat}

theorem Published.skip (hk : ¬(resident.pages k = false ∧ state.get k ≠ absent))
    (h : Published state resident indices d d') : Published state resident (k :: indices) d d' := by
  refine ⟨h.size, fun i => ?_⟩
  rw [h.pages]
  grind

theorem Published.hole (hk : resident.pages k = false ∧ state.get k ≠ absent)
    (hsize : pageSize * k + pageSize ≤ d.size)
    (h : Published state resident indices (d.marked (pageSize * k) pageSize) d') :
    Published state resident (k :: indices) d d' := by
  refine ⟨h.size.trans (Dirty.marked_size _ _ _), fun i => ?_⟩
  rw [h.pages, marked_page hsize]
  grind

theorem publishHoles_spec (state : PageStateMap) (resident : Dirty) {r : Dirty × Dirty}
    (h1 : ∀ k ∈ indices, pageSize * k + pageSize ≤ r.1.size)
    (h2 : ∀ k ∈ indices, pageSize * k + pageSize ≤ r.2.size) :
    Published state resident indices r.1 (indices.foldl (publishHole state resident) r).1 ∧
      Published state resident indices r.2 (indices.foldl (publishHole state resident) r).2 := by
  induction indices generalizing r with
  | nil => exact ⟨⟨rfl, by simp⟩, ⟨rfl, by simp⟩⟩
  | cons k ks ih =>
    have hk1 := h1 k (.head _)
    have hk2 := h2 k (.head _)
    have h1' := fun j hj => h1 j (List.mem_cons_of_mem _ hj)
    have h2' := fun j hj => h2 j (List.mem_cons_of_mem _ hj)
    have hknown : (state.get k = loaded ∨ state.get k = released) ↔ state.get k ≠ absent := by
      cases state.get k <;> simp
    rw [List.foldl_cons]
    by_cases hc : resident.pages k = false ∧ state.get k ≠ absent
    · rw [publishHole, if_pos (by rwa [hknown])]
      obtain ⟨hp1, hp2⟩ := ih (r := (r.1.marked (pageSize * k) pageSize,
        r.2.marked (pageSize * k) pageSize)) (by simpa using h1') (by simpa using h2')
      exact ⟨hp1.hole hc hk1, hp2.hole hc hk2⟩
    · rw [publishHole, if_neg (by rwa [hknown])]
      obtain ⟨hp1, hp2⟩ := ih h1' h2'
      exact ⟨hp1.skip hc, hp2.skip hc⟩

end Publish

variable (cfg : Config)

/-- `Handler.CaptureView`; `none` is an error, which changes nothing. -/
def captureView (s : Shared) : Option (CaptureView × Shared) :=
  if s.captureError ≠ none then none
  else if s.closing || s.ctxDone then none
  else if !s.addrMap.covers cfg.size 0 then none
  else do
    let holes ← walkHoles s.mem cfg.size 0
    let resident ← markResident (Dirty.new cfg.size) 0 holes
    let sets := (List.range s.state.len).foldl (publishHole s.state resident) (s.released, s.dirty)
    some (⟨false, cfg.size, resident.snapshot, sets.2.snapshot, sets.1.snapshot⟩,
      { s with released := sets.1, dirty := sets.2 })

/-- A capture changes nothing but the two sets. -/
theorem captureView_frame {s s' : Shared} {v : CaptureView} (h : captureView cfg s = some (v, s')) :
    s' = { s with released := s'.released, dirty := s'.dirty } := by
  unfold captureView at h
  split at h
  · cases h
  split at h
  · cases h
  split at h
  · cases h
  simp only [bind, Option.bind_eq_some_iff] at h
  obtain ⟨holes, -, d, -, h⟩ := h
  cases h
  rfl

/-- What a view fixes of the state it was taken of. -/
structure Captured (s : Shared) (v : CaptureView) (s' : Shared) : Prop where
  registered : ∀ b < cfg.size, ∃ w ∈ s.addrMap.vmas, w.process = .ch ∧ w.Holds b
  size : v.workingSetOnly = false ∧ v.size = cfg.size
  resident : ∃ d : Dirty, v.materialized = d.snapshot ∧ d.size = cfg.size ∧
    ∀ i, d.pages i = true ↔ pageSize * i < cfg.size ∧ (s.mem i).isSome
  sets : v.released = s'.released.snapshot ∧ v.dirty = s'.dirty.snapshot
  released : s'.released.size = s.released.size ∧ ∀ i, s'.released.pages i = true ↔
    s.released.pages i = true ∨ (s.mem i = none ∧ s.state.get i ≠ absent)
  dirty : s'.dirty.size = s.dirty.size ∧ ∀ i, s'.dirty.pages i = true ↔
    s.dirty.pages i = true ∨ (s.mem i = none ∧ s.state.get i ≠ absent)

variable {cfg}

theorem captureView_spec {s s' : Shared} {v : CaptureView}
    (hstate : s.state.len = cfg.size / pageSize)
    (hr : s.released.size = cfg.size) (hd : s.dirty.size = cfg.size)
    (h : captureView cfg s = some (v, s')) : Captured cfg s v s' := by
  obtain ⟨n, hn⟩ := cfg.size_aligned
  have hlen : s.state.len = n := by rw [hstate, hn, Nat.mul_div_cancel_left _ pageSize_pos]
  unfold captureView at h
  split at h
  · cases h
  split at h
  · cases h
  split at h
  · cases h
  rename_i hcov
  obtain ⟨holes, d, hw, hm, hmarks⟩ := markResident_walkHoles s.mem
    (d := .new cfg.size) (Nat.dvd_zero _) (Nat.dvd_zero _) (Nat.le_refl _) (Nat.zero_le _)
    (fun i _ hi => absurd hi (Nat.not_lt_zero _)) hn
  rw [← hn] at hw hmarks
  simp only [bind, hw, hm, Option.bind_some, Option.some.injEq, Prod.mk.injEq] at h
  obtain ⟨rfl, rfl⟩ := h
  have hpages : ∀ i, d.pages i = true ↔ pageSize * i < cfg.size ∧ (s.mem i).isSome := by
    intro i
    rw [hmarks.pages]
    simp [Dirty.new]
  have hin : ∀ k ∈ List.range s.state.len, pageSize * k + pageSize ≤ cfg.size := by
    intro k hk
    rw [List.mem_range, hlen] at hk
    rw [hn, ← Nat.mul_succ]
    exact Nat.mul_le_mul_left _ hk
  obtain ⟨hp1, hp2⟩ := publishHoles_spec s.state d
    (r := (s.released, s.dirty)) (by simpa only [hr] using hin) (by simpa only [hd] using hin)
  -- the holes the loop publishes are those that are not absent
  have hnew : ∀ i, (i ∈ List.range s.state.len ∧ d.pages i = false ∧ s.state.get i ≠ absent) ↔
      (s.mem i = none ∧ s.state.get i ≠ absent) := by
    intro i
    rw [← Bool.not_eq_true, hpages, List.mem_range]
    constructor
    · rintro ⟨hi, hm, hs⟩
      refine ⟨?_, hs⟩
      have hsize : pageSize * i < cfg.size := by
        rw [hn]
        exact (Nat.mul_lt_mul_left pageSize_pos).2 (hlen ▸ hi)
      simpa [hsize] using hm
    · rintro ⟨hm, hs⟩
      exact ⟨PageStateMap.lt_len_of_get_ne hs, by simp [hm], hs⟩
  exact {
    registered := fun b hb =>
      AddressMap.covers_spec (by simpa using hcov) (Nat.zero_le _) hb
    size := ⟨rfl, rfl⟩
    resident := ⟨d, rfl, hmarks.size, hpages⟩
    sets := ⟨rfl, rfl⟩
    released := ⟨hp1.size, fun i => by rw [hp1.pages, hnew]⟩
    dirty := ⟨hp2.size, fun i => by rw [hp2.pages, hnew]⟩ }

end Sandboxer.Uffd
