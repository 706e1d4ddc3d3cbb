import Sandboxer.Uffd.Workers

/-! # Invariants of the handler

`visible` is what the guest sees of a page: its bytes if it is resident, else
the source's bytes while it is absent and zeros afterwards. The invariants tie
residency, page states, dirty and released sets and the ghost history together;
`Grow` and `Quiet` say what one section may change. -/
namespace Sandboxer.Uffd
open Lib.Threads PageState

variable (cfg : Config)

/-- What the guest sees of page `i`, given its residency and state. -/
def Config.view (i : Nat) : Option Page → PageState → Page
  | some p, _ => p
  | none, absent => cfg.page i
  | none, _ => zeroPage

def Core.visible (c : Core) (i : Nat) : Page := cfg.view i (c.mem i) (c.state.get i)

/-- A page of a region Cloud Hypervisor reported. -/
def AddressMap.Registered (m : AddressMap) (i : Nat) : Prop :=
  ∃ v ∈ m.vmas, v.process = .ch ∧ v.Holds (pageSize * i)

/-- The ioctl reported page `i` as filled, or as existing. -/
def Ioctl.Reports (e : Ioctl) (i : Nat) : Prop :=
  (e.page ≤ i ∧ i < e.page + e.done) ∨ (e.result.err = some .eexist ∧ i = e.page + e.done)

/-- The ioctl filled page `i` with `p`. -/
def Ioctl.Installs (e : Ioctl) (i : Nat) (p : Page) : Prop :=
  e.page ≤ i ∧ i < e.page + e.done ∧ p = pageOf e.data (i - e.page)

/-- An issued ioctl stayed inside one valid registration of its descriptor, and
filled in nothing but zeros and the source's bytes of pages that were absent,
which no acknowledged release covered. -/
structure Ioctl.Ok (e : Ioctl) : Prop where
  within : ∃ off, e.map.Within e.fd e.dst off (e.pages * pageSize)
  source : ∀ i p, e.Installs i p → p ≠ zeroPage →
    e.expected = absent ∧ e.states.get i = absent ∧ ¬e.acked i ∧ p = cfg.page i

/-- Registrations, page states, page sets and the memfd. -/
structure Core.Inv (c : Core) : Prop where
  mapLen : c.addrMap.memfdLen = cfg.size
  stateLen : c.state.len = cfg.size / pageSize
  dirtySize : c.dirty.size = cfg.size
  releasedSize : c.released.size = cfg.size
  bound : c.addrMap.Bound
  released_state : ∀ i, c.released.pages i = true → c.state.get i ≠ absent
  released_dirty : ∀ i, c.released.pages i = true → c.dirty.pages i = true
  state_released : ∀ i, c.state.get i = .released → c.released.pages i = true
  acked_released : ∀ i, c.acked i → c.released.pages i = true
  loaded_hole : ∀ i, c.state.get i = loaded → c.mem i = none → c.punched i
  content : ∀ i p, c.addrMap.Registered i → c.mem i = some p →
    c.dirty.pages i = true ∨ c.written i ∨ c.punched i ∨ p = cfg.page i
  log : ∀ e ∈ c.log, e.Ok cfg

/-- What a queued tail promises about its data. -/
structure TailTask.Ok (t : TailTask) (buf : Nat → Byte) : Prop where
  page : t.pageIdx * pageSize = t.start
  buffered : t.kind = .bufferedData → t.expected = absent ∧
    ∀ off, t.bufferStart ≤ off → off < t.stop → buf (off - t.bufferStart) = cfg.source off
  deferred : t.kind = .deferredData → t.expected = absent ∧ t.run.offset ≤ t.start ∧
    t.stop ≤ t.run.stop
  zero : t.kind = .zero → t.expected = absent → ∀ off, t.start ≤ off → off < t.stop →
    cfg.source off = 0

/-- The tail slot is busy exactly while it has an owner, and a queued task
belongs to the tail worker. -/
structure Tail.Inv (t : Tail) : Prop where
  busy : t.busy = true ↔ t.owner ≠ none
  queued : ∀ task, t.queue = some task → t.owner = some .tail ∧ task.Ok cfg t.buf

/-- Page `i` has a byte of the range. -/
def Touches (offset length i : Nat) : Prop :=
  ∃ b, offset ≤ b ∧ b < offset + length ∧ b / pageSize = i

structure Inv (s : Shared) : Prop where
  core : s.toCore.Inv cfg
  tail : s.tail.Inv cfg
  requests : ∀ req ∈ s.requests, pageSize ∣ req.offset
  replies : ∀ req, s.replies req = some (.ok ()) → s.seen req.call (req.offset / pageSize)
  returned : ∀ c off len, s.returned c = some (off, len) → ∀ i, Touches off len i → s.seen c i

/-- What every section does: no page becomes absent again, a page becomes
loaded only by a report of an ioctl of the section, and the memfd changes only
by what these ioctls installed. -/
structure Core.Grow (c c' : Core) : Prop where
  absent : ∀ i, c.state.get i ≠ .absent → c'.state.get i ≠ .absent
  log : ∃ new, c'.log = new ++ c.log ∧
    (∀ i, c.state.get i ≠ loaded → c'.state.get i = loaded → ∃ e ∈ new, e.Reports i) ∧
    (∀ i, c'.mem i ≠ c.mem i → ∃ e ∈ new, ∃ p, c'.mem i = some p ∧ e.Installs i p)

/-- What an installer leaves alone: the guest sees the same memory, and
resident pages stay. -/
structure Core.Quiet (c c' : Core) : Prop where
  visible : ∀ i, c'.visible cfg i = c.visible cfg i
  kept : ∀ i p, c.mem i = some p → c'.mem i = some p

/-! ## Composition -/

section Composition

variable {cfg} {c c₁ c₂ : Core}

theorem Core.Grow.refl (c : Core) : c.Grow c :=
  ⟨fun _ h => h, [], rfl, fun _ h h' => absurd h' h, fun _ h => absurd rfl h⟩

theorem Core.Grow.trans (h₁ : c.Grow c₁) (h₂ : c₁.Grow c₂)
    (hk : ∀ i p, c₁.mem i = some p → c₂.mem i = some p) : c.Grow c₂ := by
  obtain ⟨n₁, hl₁, hs₁, hm₁⟩ := h₁.log
  obtain ⟨n₂, hl₂, hs₂, hm₂⟩ := h₂.log
  refine ⟨fun i h => h₂.absent i (h₁.absent i h), n₂ ++ n₁, by rw [hl₂, hl₁, List.append_assoc],
    fun i h h' => ?_, fun i h => ?_⟩
  · by_cases hc : c₁.state.get i = loaded
    · obtain ⟨e, he, hr⟩ := hs₁ i h hc
      exact ⟨e, List.mem_append_right _ he, hr⟩
    · obtain ⟨e, he, hr⟩ := hs₂ i hc h'
      exact ⟨e, List.mem_append_left _ he, hr⟩
  · by_cases hc : c₁.mem i = c.mem i
    · rw [← hc] at h
      obtain ⟨e, he, hr⟩ := hm₂ i h
      exact ⟨e, List.mem_append_left _ he, hr⟩
    · obtain ⟨e, he, p, hp, hr⟩ := hm₁ i hc
      exact ⟨e, List.mem_append_right _ he, p, hk i p hp, hr⟩

theorem Core.Quiet.refl (c : Core) : c.Quiet cfg c := ⟨fun _ => rfl, fun _ _ h => h⟩

theorem Core.Quiet.trans (h₁ : c.Quiet cfg c₁) (h₂ : c₁.Quiet cfg c₂) : c.Quiet cfg c₂ :=
  ⟨fun i => (h₂.visible i).trans (h₁.visible i), fun i p h => h₂.kept i p (h₁.kept i p h)⟩

end Composition

/-! ## What one change does to the core -/

section Changes

variable {cfg} {c : Core} {i : Nat}

theorem fill_hole {mem : Memfd} {p k : Nat} {data : Nat → Byte} (h : ¬(p ≤ i ∧ i < p + k)) :
    fill mem p k data i = mem i := by simp [fill, h]

theorem fill_page {mem : Memfd} {p k : Nat} {data : Nat → Byte} (h : p ≤ i ∧ i < p + k) :
    fill mem p k data i = some (pageOf data (i - p)) := by simp [fill, h]

/-- The pages given to a fill: the source's where the page is expected absent,
zeros otherwise. -/
def DataOk (cfg : Config) (p n : Nat) (data : Nat → Byte) (expected : PageState) : Prop :=
  ∀ j < n, pageOf data j = if expected = absent then cfg.page (p + j) else zeroPage

/-- The first `k` of the `n` pages from `p` on are holes in the expected state. -/
structure Fits (cfg : Config) (c : Core) (p n k : Nat) (data : Nat → Byte) (expected : PageState) :
    Prop where
  le : k ≤ n
  hole : ∀ j < k, c.mem (p + j) = none
  state : ∀ j < n, c.state.get (p + j) = expected
  data : DataOk cfg p n data expected

variable {p n k : Nat} {data : Nat → Byte} {expected : PageState}

theorem Fits.page (h : Fits cfg c p n k data expected) (hi : p ≤ i ∧ i < p + k) :
    c.state.get i = expected ∧ c.mem i = none ∧
      pageOf data (i - p) = if expected = absent then cfg.page i else zeroPage := by
  have hip : p + (i - p) = i := by omega
  have hle := h.le
  have h1 := h.state (i - p) (by omega)
  have h2 := h.hole (i - p) (by omega)
  have h3 := h.data (i - p) (by omega)
  rw [hip] at h1 h2 h3
  exact ⟨h1, h2, h3⟩

def Core.filled (c : Core) (p k : Nat) (data : Nat → Byte) (e : Ioctl) : Core :=
  { c with mem := fill c.mem p k data, log := e :: c.log }

theorem Fits.inv (h : Fits cfg c p n k data expected) (hc : c.Inv cfg) {e : Ioctl}
    (he : e.Ok cfg) : (c.filled p k data e).Inv cfg := by
  refine { hc with loaded_hole := ?_, content := ?_, log := ?_ }
  · intro i hi (hm : fill c.mem p k data i = none)
    by_cases hin : p ≤ i ∧ i < p + k
    · rw [fill_page hin] at hm; cases hm
    · rw [fill_hole hin] at hm; exact hc.loaded_hole i hi hm
  · intro i q hreg (hq : fill c.mem p k data i = some q)
    by_cases hin : p ≤ i ∧ i < p + k
    · obtain ⟨h1, h2, h3⟩ := h.page hin
      rw [fill_page hin] at hq
      cases hq
      cases expected with
      | absent => exact .inr (.inr (.inr h3))
      | loaded => exact .inr (.inr (.inl (hc.loaded_hole i h1 h2)))
      | released => exact .inl (hc.released_dirty i (hc.state_released i h1))
    · rw [fill_hole hin] at hq; exact hc.content i q hreg hq
  · intro e' he'
    rcases List.mem_cons.1 he' with rfl | he'
    · exact he
    · exact hc.log e' he'

theorem Fits.quiet (h : Fits cfg c p n k data expected) (e : Ioctl) :
    c.Quiet cfg (c.filled p k data e) := by
  constructor
  · intro i
    simp only [Core.visible, Core.filled]
    by_cases hin : p ≤ i ∧ i < p + k
    · obtain ⟨h1, h2, h3⟩ := h.page hin
      rw [fill_page hin, h2, h1]
      cases expected <;> exact h3
    · rw [fill_hole hin]
  · intro i q hq
    simp only [Core.filled]
    by_cases hin : p ≤ i ∧ i < p + k
    · rw [(h.page hin).2.1] at hq; cases hq
    · rw [fill_hole hin]; exact hq

theorem filled_grow {e : Ioctl} (hp : e.page = p) (hd : e.done = k) (hdata : e.data = data) :
    c.Grow (c.filled p k data e) := by
  refine ⟨fun _ h => h, [e], rfl, fun _ h h' => absurd h' h, fun i hi => ?_⟩
  by_cases hin : p ≤ i ∧ i < p + k
  · refine ⟨e, List.mem_singleton.2 rfl, _, fill_page hin, ?_⟩
    rw [Ioctl.Installs, hp, hd, hdata]
    exact ⟨hin.1, hin.2, rfl⟩
  · exact absurd (fill_hole hin) hi

theorem Fits.ok (h : Fits cfg c p n k data expected) (hc : c.Inv cfg) {fd dst : Nat}
    {r : Completion} (hw : c.addrMap.Within fd dst (p * pageSize) (n * pageSize))
    (hp : c.addrMap.pageAt dst = p) (hb : r.bytes / pageSize = k) :
    Ioctl.Ok cfg ⟨fd, dst, n, data, expected, r, c.addrMap, c.state, c.acked⟩ := by
  refine ⟨⟨_, hw⟩, ?_⟩
  rintro i q ⟨h1, h2, rfl⟩ hne
  simp only [Ioctl.page, Ioctl.done, hp, hb] at h1 h2 hne ⊢
  obtain ⟨h3, h4, h5⟩ := h.page ⟨h1, h2⟩
  by_cases hx : expected = absent
  · rw [if_pos hx] at h5
    exact ⟨hx, h3.trans hx, fun ha => hc.released_state _ (hc.acked_released _ ha) (h3.trans hx),
      h5⟩
  · rw [if_neg hx] at h5
    exact absurd h5 hne

/-- The core with other page states. -/
theorem Core.Inv.load (hc : c.Inv cfg) {m : PageStateMap} (hlen : m.len = c.state.len)
    (h : ∀ i, m.get i = c.state.get i ∨ (m.get i = loaded ∧ (c.mem i).isSome)) :
    Core.Inv cfg { c with state := m } ∧ c.Quiet cfg { c with state := m } := by
  refine ⟨{ hc with
    stateLen := hlen.trans hc.stateLen, released_state := ?_, state_released := ?_
    loaded_hole := ?_ }, ⟨?_, fun _ _ hp => hp⟩⟩
  · intro i hr
    rcases h i with hi | hi
    · exact hi ▸ hc.released_state i hr
    · exact fun hx => nomatch hi.1.symm.trans hx
  · intro i (hr : m.get i = .released)
    rcases h i with hi | hi
    · exact hc.state_released i (hi ▸ hr)
    · exact nomatch hi.1.symm.trans hr
  · intro i (hl : m.get i = loaded) hm
    rcases h i with hi | hi
    · exact hc.loaded_hole i (hi ▸ hl) hm
    · rw [hm] at hi; exact nomatch hi.2
  · intro i
    simp only [Core.visible]
    rcases h i with hi | hi
    · rw [hi]
    · obtain ⟨p, hp⟩ := Option.isSome_iff_exists.1 hi.2
      rw [hp]
      rfl

theorem Core.Inv.dirtied (hc : c.Inv cfg) {d : Dirty} (hs : d.size = c.dirty.size)
    (hd : ∀ i, c.dirty.pages i = true → d.pages i = true) : Core.Inv cfg { c with dirty := d } := by
  refine { hc with dirtySize := hs.trans hc.dirtySize, released_dirty := ?_, content := ?_ }
  · exact fun i hr => hd i (hc.released_dirty i hr)
  intro i p hreg hp
  rcases hc.content i p hreg hp with h | h
  · exact .inl (hd i h)
  · exact .inr h

end Changes

/-! ## Sections -/

section Sections

variable {cfg} {s₀ s₁ s : Shared}

/-- Everything a fill of `n` pages from `p` on needs. -/
structure Ready (cfg : Config) (s : Shared) (fd dst p n : Nat) (data : Nat → Byte)
    (expected : PageState) : Prop where
  inv : s.toCore.Inv cfg
  within : s.addrMap.Within fd dst (p * pageSize) (n * pageSize)
  pos : 0 < n
  state : ∀ j < n, s.state.get (p + j) = expected
  data : DataOk cfg p n data expected

/-- The state `s` follows `s₀` by changes of the core that an installer may make. -/
structure Follows (cfg : Config) (s₀ s : Shared) : Prop where
  inv : s.toCore.Inv cfg
  quiet : s₀.toCore.Quiet cfg s.toCore
  grow : s₀.toCore.Grow s.toCore
  addrMap : s.addrMap = s₀.addrMap
  rest : s = { s₀ with toCore := s.toCore }

theorem Follows.refl (h : s.toCore.Inv cfg) : Follows cfg s s :=
  ⟨h, .refl _, .refl _, rfl, rfl⟩

theorem Follows.trans (h₁ : Follows cfg s₀ s₁) (h₂ : Follows cfg s₁ s) : Follows cfg s₀ s :=
  ⟨h₂.inv, h₁.quiet.trans h₂.quiet, h₁.grow.trans h₂.grow h₂.quiet.kept,
    h₂.addrMap.trans h₁.addrMap, by rw [h₂.rest, h₁.rest]⟩

/-- The ioctls of `s` since `s₀` reported page `i`, and it is resident. -/
def Reported (s₀ s : Shared) (i : Nat) : Prop :=
  (∃ new, s.log = new ++ s₀.log ∧ ∃ e ∈ new, e.Reports i) ∧ (s.mem i).isSome

theorem Reported.of_follows (h₁ : Reported s₀ s₁ i) (h₂ : Follows cfg s₁ s) : Reported s₀ s i := by
  obtain ⟨⟨n₁, hl₁, e, he, hr⟩, hm⟩ := h₁
  obtain ⟨n₂, hl₂, _⟩ := h₂.grow.log
  obtain ⟨p, hp⟩ := Option.isSome_iff_exists.1 hm
  refine ⟨⟨n₂ ++ n₁, by rw [hl₂, hl₁, List.append_assoc], e, List.mem_append_right _ he, hr⟩, ?_⟩
  rw [h₂.quiet.kept i p hp]
  rfl

theorem Reported.of_suffix (h : Reported s₁ s i) (h₁ : Follows cfg s₀ s₁) : Reported s₀ s i := by
  obtain ⟨⟨n₁, hl₁, e, he, hr⟩, hm⟩ := h
  obtain ⟨n₀, hl₀, _⟩ := h₁.grow.log
  exact ⟨⟨n₁ ++ n₀, by rw [hl₁, hl₀, List.append_assoc], e, List.mem_append_left _ he, hr⟩, hm⟩

/-- The outcome of a fill attempt: a reported prefix, and with `EEXIST` the
page after it. -/
structure Attempt (cfg : Config) (s₀ s : Shared) (p n : Nat) (r : Completion) : Prop where
  follows : Follows cfg s₀ s
  state : s.state = s₀.state
  report : ∃ k ≤ n, r.bytes = pageSize * k ∧ (∀ j < k, Reported s₀ s (p + j)) ∧
    (r.err = some .eexist → k < n ∧ Reported s₀ s (p + k))

variable {fd dst p n : Nat} {data : Nat → Byte} {expected : PageState}

theorem Ready.pageAt (h : Ready cfg s fd dst p n data expected) : s.addrMap.pageAt dst = p := by
  unfold AddressMap.pageAt
  rw [h.within.locate (Nat.mul_pos h.pos pageSize_pos)]
  simp [pageSize]

variable {r : Completion}

theorem Ready.of_attempt (h : Ready cfg s₀ fd dst p n data expected)
    (ha : Attempt cfg s₀ s p n r) : Ready cfg s fd dst p n data expected :=
  ⟨ha.follows.inv, ha.follows.addrMap ▸ h.within, h.pos, ha.state ▸ h.state, h.data⟩

theorem ioctlFill_attempt (h : Ready cfg s₀ fd dst p n data expected) :
    Section.Ensures (· = s₀) (ioctlFill fd dst n data expected)
      fun r s => Attempt cfg s₀ s p n r := by
  rintro s₀ r s rfl ⟨⟨k, hk, hb, hhole, hex⟩, _, rfl⟩
  rw [h.pageAt] at hhole hex
  have hdone : r.bytes / pageSize = k := by rw [hb]; simp [pageSize]
  have hfits : Fits cfg s₀.toCore p n k data expected := ⟨hk, hhole, h.state, h.data⟩
  have hgrow := filled_grow (c := s₀.toCore)
    (e := ⟨fd, dst, n, data, expected, r, s₀.addrMap, s₀.state, s₀.acked⟩) h.pageAt hdone rfl
  rw [h.pageAt, hdone]
  refine ⟨⟨hfits.inv h.inv (hfits.ok h.inv h.within h.pageAt hdone), hfits.quiet _, hgrow, rfl,
    rfl⟩, rfl, k, hk, hb, fun j hj => ⟨⟨[_], rfl, _, List.mem_singleton.2 rfl, .inl ?_⟩, ?_⟩,
    fun he => ⟨(hex he).1, ⟨[_], rfl, _, List.mem_singleton.2 rfl, .inr ⟨he, ?_⟩⟩, ?_⟩⟩
  · simp only [Ioctl.page, Ioctl.done, h.pageAt, hdone]
    omega
  · simp [fill_page (show p ≤ p + j ∧ p + j < p + k by omega)]
  · simp only [Ioctl.page, Ioctl.done, h.pageAt, hdone]
  · simp only [fill_hole (show ¬(p ≤ p + k ∧ p + k < p + k) by omega)]
    exact (hex he).2

theorem Follows.dirtied (h : s.toCore.Inv cfg) {d : Dirty} (hs : d.size = s.dirty.size)
    (hd : ∀ i, s.dirty.pages i = true → d.pages i = true) : Follows cfg s { s with dirty := d } :=
  ⟨h.dirtied hs hd, ⟨fun _ => rfl, fun _ _ hp => hp⟩,
    ⟨fun _ h => h, [], rfl, fun _ h h' => absurd h' h, fun _ h => absurd rfl h⟩, rfl, rfl⟩

theorem markInstall_follows (length : Nat) (hi : s₀.toCore.Inv cfg) :
    Section.Ensures (· = s₀) (markInstall fd dst length)
      fun _ s => Follows cfg s₀ s ∧ s.state = s₀.state := by
  have same : ∀ s, s = s₀ → Follows cfg s₀ s ∧ s.state = s₀.state := by
    rintro s rfl
    exact ⟨.refl hi, rfl⟩
  refine Section.Ensures.bind (Section.Ensures.read (Q := fun _ s => s = s₀) fun _ h => h)
    fun m => ?_
  refine Section.Ensures.bind
    (Section.Ensures.read (Q := fun d s => s = s₀ ∧ d = s₀.dirty) fun _ h => ⟨h, h ▸ rfl⟩)
    fun d => ?_
  split
  · exact Section.Ensures.pure fun s hs => same s hs.1
  refine Section.Ensures.ite (fun _ => ?_) fun _ => Section.Ensures.pure fun s hs => same s hs.1
  split
  · exact Section.Ensures.pure fun s hs => same s hs.1
  next d' hm =>
    rintro s b s' ⟨rfl, rfl⟩ ⟨_, _, rfl, _, rfl⟩
    exact ⟨.dirtied hi (Dirty.mark_size hm) fun i => Dirty.mark_mono hm, rfl⟩

theorem Attempt.mono {r' : Completion} (h : Attempt cfg s₀ s₁ p n r) (hf : Follows cfg s₁ s)
    (hs : s.state = s₁.state) (hb : r'.bytes = r.bytes)
    (he : r'.err = some .eexist → r.err = some .eexist) : Attempt cfg s₀ s p n r' := by
  obtain ⟨k, hk, hbytes, hdone, hex⟩ := h.report
  exact ⟨h.follows.trans hf, hs.trans h.state, k, hk, hb.trans hbytes,
    fun j hj => (hdone j hj).of_follows hf, fun h' =>
      ⟨(hex (he h')).1, (hex (he h')).2.of_follows hf⟩⟩

theorem markExisting_attempt (h : Attempt cfg s₀ s₁ p n r) :
    Section.Ensures (· = s₁) (markExisting fd dst n r) fun r' s => Attempt cfg s₀ s p n r' := by
  refine Section.Ensures.ite (fun he => ?_) fun _ => ?_
  · refine Section.Ensures.bind (markInstall_follows _ h.follows.inv) fun ok => ?_
    refine Section.Ensures.pure fun s hs => h.mono hs.1 hs.2 ?_ ?_
    · split <;> rfl
    · exact fun _ => he
  · exact Section.Ensures.pure fun s hs => hs ▸ h

theorem copyCleanLocked_attempt (h : Ready cfg s₀ fd dst p n data expected) :
    Section.Ensures (· = s₀) (copyCleanLocked fd dst n data expected)
      fun r s => Attempt cfg s₀ s p n r := by
  refine Section.Ensures.bind (ioctlFill_attempt h) fun r => ?_
  exact fun s a s' hs => markExisting_attempt hs s a s' rfl

theorem Attempt.after {r₁ : Completion} (h₁ : Attempt cfg s₀ s₁ p n r₁)
    (h : Attempt cfg s₁ s p n r) : Attempt cfg s₀ s p n r := by
  obtain ⟨k, hk, hbytes, hdone, hex⟩ := h.report
  exact ⟨h₁.follows.trans h.follows, h.state.trans h₁.state, k, hk, hbytes,
    fun j hj => (hdone j hj).of_suffix h₁.follows,
    fun he => ⟨(hex he).1, (hex he).2.of_suffix h₁.follows⟩⟩

theorem zeroCleanLocked_attempt (h : Ready cfg s₀ fd dst p n (fun _ => 0) expected) :
    Section.Ensures (· = s₀) (zeroCleanLocked fd dst n expected)
      fun r s => Attempt cfg s₀ s p n r := by
  refine Section.Ensures.bind (ioctlFill_attempt h) fun r => ?_
  refine Section.Ensures.ite (fun _ => ?_) fun _ => ?_
  · intro s a s' hs hstep
    exact hs.after (copyCleanLocked_attempt (h.of_attempt hs) s a s' rfl hstep)
  · exact fun s a s' hs => markExisting_attempt hs s a s' rfl

/-- Committing reported pages as loaded. -/
theorem Follows.commit (h : Follows cfg s₀ s₁) {m : PageStateMap} (hlen : m.len = s₁.state.len)
    (hm : ∀ i, m.get i = s₁.state.get i ∨ (m.get i = loaded ∧ Reported s₀ s₁ i)) :
    Follows cfg s₀ { s₁ with state := m } := by
  obtain ⟨hinv, hquiet⟩ := h.inv.load hlen fun i => (hm i).imp id fun hi => ⟨hi.1, hi.2.2⟩
  obtain ⟨new, hl, hs, hmem⟩ := h.grow.log
  refine ⟨hinv, h.quiet.trans hquiet, ⟨fun i hi => ?_, new, hl, fun i hi hi' => ?_, hmem⟩,
    h.addrMap, by rw [h.rest]⟩
  · rcases hm i with hx | hx
    · exact fun ha => h.grow.absent i hi (hx ▸ ha)
    · exact fun ha => nomatch hx.1.symm.trans ha
  rcases hm i with hx | hx
  · exact hs i hi (hx ▸ hi')
  · obtain ⟨⟨new', hl', e, he, hr⟩, _⟩ := hx.2
    have : new' = new := List.append_cancel_right (hl'.symm.trans hl)
    exact ⟨e, this ▸ he, hr⟩

theorem commitLoaded_follows (h : Follows cfg s₀ s₁) {a b : Nat}
    (hr : ∀ i, a ≤ i → i < b → Reported s₀ s₁ i) :
    Section.Ensures (· = s₁) (commitLoaded a b expected) fun _ s => Follows cfg s₀ s := by
  rintro s₁ n s rfl ⟨_, _, ⟨rfl, rfl⟩, _, _, rfl, _, rfl⟩
  refine h.commit PageStateMap.setRangeIf_len fun i => ?_
  rw [PageStateMap.get_setRangeIf]
  split
  next hi => exact .inr ⟨rfl, hr i hi.1 hi.2.1⟩
  · exact .inl rfl

theorem checkedCompletion_some {a b d : Nat} (h : checkedCompletion a b = some d) : d = a := by
  unfold checkedCompletion at h
  split at h
  · cases h
  · split at h <;> cases h
    rfl

theorem finishUrgent_follows (h : Attempt cfg s₀ s₁ p 1 r) :
    Section.Ensures (· = s₁) (finishUrgent p expected r) fun _ s => Follows cfg s₀ s := by
  obtain ⟨k, hk, hbytes, hdone, hex⟩ := h.report
  unfold finishUrgent
  split
  · exact Section.Ensures.pure fun s hs => hs ▸ h.follows
  next done hc =>
    have hd : done / pageSize = k := by
      rw [checkedCompletion_some hc, hbytes]; simp [pageSize]
    -- the second commit only follows an empty first one
    refine Section.Ensures.bind (Q := fun _ s => Follows cfg s₀ s ∧ (done = 0 → s = s₁)) ?_
      fun committed => ?_
    · refine Section.Ensures.ite (fun hpos => ?_) fun _ => ?_
      · refine (commitLoaded_follows h.follows fun i h1 h2 => ?_).post fun _ s hs =>
          ⟨hs, fun h0 => ?_⟩
        · have := hdone (i - p) (by omega)
          rwa [show p + (i - p) = i by omega] at this
        · simp [h0] at hpos
      · exact Section.Ensures.pure fun s hs => ⟨hs ▸ h.follows, fun _ => hs⟩
    · split
      · refine Section.Ensures.ite (fun _ => ?_) fun _ => ?_ <;>
          exact Section.Ensures.pure fun s hs => hs.1
      next herr =>
        refine Section.Ensures.bind (Q := fun _ s => Follows cfg s₀ s) ?_ fun _ => ?_
        · refine Section.Ensures.ite (fun h0 => ?_) fun _ => ?_
          · simp only [decide_eq_true_eq] at h0
            have hk0 : k = 0 := by rw [← hd, h0, Nat.zero_div]
            have hrep := (hex herr).2
            refine (commitLoaded_follows h.follows fun i h1 h2 => ?_).pre fun s hs => hs.2 h0
            rwa [show i = p + k by omega]
          · exact Section.Ensures.pure fun s hs => hs.1
        · exact Section.Ensures.pure fun s hs => hs
      all_goals exact Section.Ensures.pure fun s hs => hs.1

/-- A zero page is right for page `p`: its source is zero if the page is
expected absent, and otherwise it is absent no more. -/
structure ZeroOk (cfg : Config) (s : Shared) (p : Nat) (expected : PageState) : Prop where
  absent : expected = .absent → cfg.page p = zeroPage
  stale : expected ≠ .absent → s.state.get p ≠ .absent

theorem zeroDataOk (h : expected = absent → ∀ j < n, cfg.page (p + j) = zeroPage) :
    DataOk cfg p n (fun _ => 0) expected := by
  intro j hj
  split
  next hx => exact (h hx j hj).symm
  · rfl

theorem owns_ready (hi : s₀.toCore.Inv cfg)
    (ho : s₀.addrMap.owns fd dst (p * pageSize) pageSize = true)
    (hs : s₀.state.get p = expected) (hd : DataOk cfg p 1 data expected) :
    Ready cfg s₀ fd dst p 1 data expected := by
  refine ⟨hi, by simpa using AddressMap.owns_within ho, Nat.one_pos, fun j hj => ?_, hd⟩
  rwa [show p + j = p by omega]

theorem stay {α : Type} (hi : s₀.toCore.Inv cfg) (a : α) :
    Section.Ensures (· = s₀) (pure a) fun _ s => Follows cfg s₀ s :=
  Section.Ensures.pure fun s h => by subst h; exact .refl hi

theorem urgentZeroLocked_follows (h : Ready cfg s₀ fd dst p 1 (fun _ => 0) expected) :
    Section.Ensures (· = s₀) (urgentZeroLocked fd dst p expected) fun _ s => Follows cfg s₀ s := by
  refine Section.Ensures.bind (zeroCleanLocked_attempt h) fun r => ?_
  exact fun s a s' hs => finishUrgent_follows hs s a s' rfl

theorem urgentStale_follows (hi : s₀.toCore.Inv cfg)
    (ho : s₀.addrMap.owns fd dst (p * pageSize) pageSize = true)
    (hs : s₀.state.get p ≠ absent) :
    Section.Ensures (· = s₀) (urgentStale fd dst p (s₀.state.get p))
      fun _ s => Follows cfg s₀ s := by
  refine Section.Ensures.ite (fun _ => ?_) fun _ => ?_
  · exact stay hi _
  · refine Section.Ensures.bind (urgentZeroLocked_follows
      (owns_ready hi ho rfl (zeroDataOk fun h => absurd h hs))) fun r => ?_
    exact Section.Ensures.pure fun s h => h

theorem urgentCopy_follows (hi : s₀.toCore.Inv cfg) (hd : DataOk cfg p 1 data absent) :
    Section.Ensures (· = s₀) (urgentCopy fd dst p absent data) fun _ s => Follows cfg s₀ s := by
  refine Section.Ensures.start ?_
  refine Section.Ensures.ite (fun _ => stay hi _) fun _ => ?_
  refine Section.Ensures.ite (fun _ => stay hi _) fun ho => ?_
  have ho : s₀.addrMap.owns fd dst (p * pageSize) pageSize = true := by simpa using ho
  refine Section.Ensures.ite (fun hs => urgentStale_follows hi ho hs) fun hs => ?_
  refine Section.Ensures.bind
    (copyCleanLocked_attempt (owns_ready hi ho (not_not.1 hs) hd)) fun r => ?_
  exact fun s a s' hs => finishUrgent_follows hs s a s' rfl

theorem urgentZero_follows (hi : s₀.toCore.Inv cfg) (hz : ZeroOk cfg s₀ p expected) :
    Section.Ensures (· = s₀) (urgentZero fd dst p expected) fun _ s => Follows cfg s₀ s := by
  refine Section.Ensures.start ?_
  refine Section.Ensures.ite (fun _ => stay hi _) fun _ => ?_
  refine Section.Ensures.ite (fun _ => stay hi _) fun ho => ?_
  have ho : s₀.addrMap.owns fd dst (p * pageSize) pageSize = true := by simpa using ho
  refine Section.Ensures.ite (fun hs => ?_) fun hs => ?_
  · refine urgentStale_follows hi ho ?_
    by_cases hx : expected = absent
    · exact hx ▸ hs
    · exact hz.stale hx
  · refine urgentZeroLocked_follows (owns_ready hi ho (not_not.1 hs) (zeroDataOk ?_))
    intro hx j hj
    rw [show p + j = p by omega]
    exact hz.absent hx

/-- The data of a tail is right for its first `n` pages. -/
structure TailData (cfg : Config) (task : TailTask) (data : Nat → Byte) (n : Nat) : Prop where
  copy : task.kind ≠ .zero → DataOk cfg task.pageIdx n data task.expected
  zero : task.kind = .zero → DataOk cfg task.pageIdx n (fun _ => 0) task.expected

theorem tailFill_attempt {task : TailTask} (hi : s₀.toCore.Inv cfg) (hpos : 0 < n)
    (hw : s₀.addrMap.Within task.uffdFD task.dstVA (task.pageIdx * pageSize) (n * pageSize))
    (hs : ∀ j < n, s₀.state.get (task.pageIdx + j) = task.expected)
    (hd : TailData cfg task data n) :
    Section.Ensures (· = s₀) (tailFill task data n)
      fun r s => Attempt cfg s₀ s task.pageIdx n r := by
  refine Section.Ensures.ite (fun hk => ?_) fun hk => ?_
  · exact zeroCleanLocked_attempt ⟨hi, hw, hpos, hs, hd.zero hk⟩
  · exact copyCleanLocked_attempt ⟨hi, hw, hpos, hs, hd.copy hk⟩

theorem AddressMap.Within.shorten {m : AddressMap} {off l l' : Nat} (h : m.Within fd dst off l)
    (hl : l' ≤ l) : m.Within fd dst off l' := by
  obtain ⟨v, hv, ho, hf, h1, h2, h3⟩ := h
  exact ⟨v, hv, ho, hf, h1, by omega, h3⟩

theorem executeTailIo_follows {task : TailTask} {length : Nat} (hi : s₀.toCore.Inv cfg)
    (hd : TailData cfg task data (length / pageSize)) :
    Section.Ensures (· = s₀) (executeTailIo task data length) fun _ s => Follows cfg s₀ s := by
  refine Section.Ensures.start ?_
  refine Section.Ensures.ite (fun _ => stay hi _) fun ho => ?_
  have ho : s₀.addrMap.owns task.uffdFD task.dstVA (task.pageIdx * pageSize) length = true := by
    simp only [Bool.or_eq_true, not_or] at ho
    simpa using ho.2
  refine Section.Ensures.ite (fun _ => stay hi _) fun hv => ?_
  have hle := PageStateMap.runLength_le (m := s₀.state) task.pageIdx
    (length / pageSize) task.expected
  generalize hn : s₀.state.runLength task.pageIdx (length / pageSize) task.expected = n at *
  have hdiv : n * pageSize / pageSize = n := by simp [pageSize]
  rw [hdiv]
  have hlen : n * pageSize ≤ length := by
    simp only [pageSize] at *
    omega
  refine Section.Ensures.bind
    (tailFill_attempt hi ?_ ((AddressMap.owns_within ho).shorten hlen) ?_ ?_)
    fun r => ?_
  · exact Nat.pos_of_ne_zero fun h => hv (by simp [h])
  · intro j hj
    exact PageStateMap.runLength_spec (hn ▸ hj)
  · exact ⟨fun hk j hj => hd.copy hk j (by omega), fun hk j hj => hd.zero hk j (by omega)⟩
  intro s a s' hs
  obtain ⟨k, hk, hbytes, hdone, _⟩ := hs.report
  revert a s'
  refine fun a s' => (?_ : Section.Ensures (· = s) _ fun _ s => Follows cfg s₀ s) s a s' rfl
  split
  · exact Section.Ensures.pure fun t ht => ht ▸ hs.follows
  next done hc =>
    have hdk : done / pageSize = k := by rw [checkedCompletion_some hc, hbytes]; simp [pageSize]
    refine Section.Ensures.bind ?_ fun _ =>
      Section.Ensures.pure fun t ht => ht
    refine Section.Ensures.ite (fun _ => ?_) fun _ => Section.Ensures.pure fun t ht =>
      ht ▸ hs.follows
    refine commitLoaded_follows hs.follows fun i h1 h2 => ?_
    have := hdone (i - task.pageIdx) (by omega)
    rwa [show task.pageIdx + (i - task.pageIdx) = i by omega] at this

/-- The state `s` follows `s₀` by an installing section: only the core changed, and the
pages calls have seen. -/
structure Progress (cfg : Config) (s₀ s : Shared) : Prop where
  inv : s.toCore.Inv cfg
  quiet : s₀.toCore.Quiet cfg s.toCore
  grow : s₀.toCore.Grow s.toCore
  tail : s.tail = s₀.tail
  requests : s.requests = s₀.requests
  replies : s.replies = s₀.replies
  returned : s.returned = s₀.returned
  seen : ∀ c i, s₀.seen c i → s.seen c i
  sees : ∀ c i, ¬s₀.seen c i → s.seen c i → s.state.get i = loaded

theorem Follows.progress (h : Follows cfg s₀ s) : Progress cfg s₀ s := by
  obtain ⟨h1, h2, h3, h4, h5⟩ := h
  refine ⟨h1, h2, h3, ?_, ?_, ?_, ?_, fun c i hc => ?_, fun c i hc hc' => absurd ?_ hc⟩
  · rw [h5]
  · rw [h5]
  · rw [h5]
  · rw [h5]
  · rw [h5]; exact hc
  · rw [h5] at hc'; exact hc'

theorem Progress.refl (h : s.toCore.Inv cfg) : Progress cfg s s := (Follows.refl h).progress

theorem Progress.observe (h : Progress cfg s₀ s) (call i n : Nat) :
    Progress cfg s₀ (s.observe call i n) :=
  { h with seen := fun c j hc => .inl (h.seen c j hc), sees :=
    fun c j hc hc' => hc'.elim (h.sees c j hc) fun h => h.2.2.2 }

theorem loadLookup_progress (hi : s₀.toCore.Inv cfg) (call off : Nat) :
    Section.Ensures (· = s₀) (loadLookup call off) fun a s => Progress cfg s₀ s ∧
      (a.2 = loaded → s.seen call (off / pageSize)) ∧
        (a.2 ≠ absent → s.state.get (off / pageSize) ≠ absent) := by
  refine Section.Ensures.start ?_
  refine Section.Ensures.bind (Section.Ensures.modify
    (Q := fun _ s => s = s₀.observe call (off / pageSize) 1) fun s hs => by rw [hs]) fun _ => ?_
  refine Section.Ensures.pure fun s hs => ?_
  subst hs
  refine ⟨(Progress.refl hi).observe _ _ _, fun hl => .inr ⟨rfl, Nat.le_refl _, ?_, hl⟩, fun h => h⟩
  omega

theorem ensureLookup_progress (hi : s₀.toCore.Inv cfg) (call off stop : Nat) :
    Section.Ensures (· = s₀) (ensureLookup call off stop) fun a s => Progress cfg s₀ s ∧
      ∀ j, off / pageSize ≤ j → j < off / pageSize + a.2 → s.seen call j := by
  refine Section.Ensures.start ?_
  split
  · refine Section.Ensures.pure fun s hs => ?_
    subst hs
    exact ⟨.refl hi, fun j h1 h2 => by simp at h2; omega⟩
  next reg _ =>
    generalize hn : (if 0 < reg.fd
      then s₀.state.runLength (off / pageSize) (reg.covered / pageSize) .loaded else 0) = n
    refine Section.Ensures.bind (Section.Ensures.modify
      (Q := fun _ s => s = s₀.observe call (off / pageSize) n) fun s hs => by rw [hs]) fun _ => ?_
    refine Section.Ensures.pure fun s hs => ?_
    subst hs
    refine ⟨(Progress.refl hi).observe _ _ _, fun j h1 h2 => .inr ⟨rfl, h1, h2, ?_⟩⟩
    split at hn
    · have hj : j - off / pageSize <
          s₀.state.runLength (off / pageSize) (reg.covered / pageSize) .loaded := by
        omega
      have := PageStateMap.runLength_spec hj
      rwa [show off / pageSize + (j - off / pageSize) = j by omega] at this
    · simp only at h2; omega

theorem loadInstall_progress (hi : s₀.toCore.Inv cfg) (call off : Nat) {state : PageState}
    (hoff : p * pageSize = off) {stop : Bool} (hd : DataOk cfg p 1 data state) :
    Section.Ensures (· = s₀) (loadInstall call fd dst off state data stop)
      fun a s => Progress cfg s₀ s ∧ ∀ r, a = .done (.ok r) → s.seen call p := by
  have keep : ∀ a : LoadStep, (∀ r, a ≠ .done (.ok r)) → Section.Ensures (· = s₀) (pure a)
        fun a s => Progress cfg s₀ s ∧ ∀ r, a = .done (.ok r) → s.seen call p := by
    intro a ha
    refine Section.Ensures.pure fun s hs => ?_
    subst hs
    exact ⟨.refl hi, fun r hr => absurd hr (ha r)⟩
  have hidx : off / pageSize = p := by rw [← hoff]; simp [pageSize]
  refine Section.Ensures.start ?_
  simp only [hidx]
  refine Section.Ensures.ite (fun _ => keep _ (by simp)) fun _ => ?_
  refine Section.Ensures.ite (fun _ => keep _ (by simp)) fun ho => ?_
  have ho : s₀.addrMap.owns fd dst (p * pageSize) pageSize = true := by simpa [hoff] using ho
  refine Section.Ensures.ite (fun _ => keep _ (by simp)) fun hs => ?_
  refine Section.Ensures.bind
    (copyCleanLocked_attempt (owns_ready hi ho (not_not.1 hs) hd)) fun r => ?_
  intro s a s' ha
  obtain ⟨k, hk, hbytes, hdone, hex⟩ := ha.report
  revert a s'
  refine fun a s' => (?_ : Section.Ensures (· = s) _
    fun a s => Progress cfg s₀ s ∧ ∀ r, a = .done (.ok r) → s.seen call p) s a s' rfl
  have keep' : ∀ a : LoadStep, (∀ r, a ≠ .done (.ok r)) → Section.Ensures (· = s) (pure a)
        fun a s => Progress cfg s₀ s ∧ ∀ r, a = .done (.ok r) → s.seen call p := by
    intro a hne
    refine Section.Ensures.pure fun t ht => ?_
    subst ht
    exact ⟨ha.follows.progress, fun r hr => absurd hr (hne r)⟩
  split
  · exact keep' _ (by simp)
  next done hc =>
    refine Section.Ensures.ite (fun hok => ?_) fun _ => ?_
    · have hrep : Reported s₀ s p := by
        rcases hok with ⟨_, hfull⟩ | herr
        · have hk1 : 0 < k := by
            rw [checkedCompletion_some hc, hbytes] at hfull
            simp only [pageSize] at hfull
            omega
          exact hdone 0 hk1
        · obtain ⟨hlt, hr⟩ := hex herr
          rwa [show k = 0 by omega] at hr
      have hf := ha.follows.commit PageStateMap.set_len fun i => by
        rw [PageStateMap.get_set]
        split
        · rename_i hi; exact .inr ⟨rfl, hi.1 ▸ hrep⟩
        · exact .inl rfl
      have hlt : p < s.state.len := by
        obtain ⟨v, hv, _, _, h1, h2, h3⟩ := (owns_ready hi ho (not_not.1 hs) hd).within
        have hb := (s₀.addrMap.aligned v hv).bounded
        rw [hi.mapLen] at hb
        rw [ha.state, hi.stateLen]
        unfold Vma.memfdEnd at hb
        simp only [pageSize] at *
        omega
      refine Section.Ensures.bind (Section.Ensures.modify
        (Q := fun _ t => t = { s with state := s.state.set p .loaded }) fun t ht => by rw [ht])
        fun _ => ?_
      refine Section.Ensures.bind (Section.Ensures.modify
        (Q := fun _ t => t = ({ s with state := s.state.set p .loaded } : Shared).observe call p 1)
        fun t ht => by rw [ht]) fun _ => ?_
      refine Section.Ensures.pure fun t ht => ?_
      subst ht
      refine ⟨hf.progress.observe _ _ _, fun _ _ => .inr ⟨rfl, Nat.le_refl _, by omega, ?_⟩⟩
      rw [PageStateMap.get_set, if_pos ⟨rfl, hlt⟩]
    · split
      all_goals exact keep' _ (by simp)

end Sections

end Sandboxer.Uffd
