import Sandboxer.Diffstore.Pages
import Sandboxer.Diffstore.Disk

/-! # Invariants of the cache and its disks

What a cached page says about its block depends on its state (`PageOk`): a
clean page, the backend and the logical contents agree, a dirty or frozen page
holds the logical contents, and a page that is being loaded, constructed or
discarded belongs to a thread with the block's stripe. `PageStep` lists what a
section may do to one page; everything else is kept key by key. -/
namespace Sandboxer.Diffstore

/-! ## Stripes -/

def Shared.stripe (s : Shared) (k : CacheKey) : Stripe :=
  s.stripes k.disk (k.block % cowLockStripes)

/-- The thread holds the stripe of the block for writing. -/
def Excl (s : Shared) (t : Thread) (k : CacheKey) : Prop := (s.stripe k).writer = some t

/-- The thread holds the stripe of the block. -/
def Holds (s : Shared) (t : Thread) (k : CacheKey) : Prop :=
  Excl s t k ∨ (s.stripe k).readers t = true

/-! ## Pages -/

/-- No mutation of the block waits in the cache. -/
def Idle (o : Option CachePage) : Prop := ∀ p, o = some p → p.state ≠ .dirty ∧ p.state ≠ .writeback

/-- The accepted mutation of a block that waits in the cache: whether it is a Zero. -/
def waiting : Option CachePage → Option Bool
  | some p => if p.state = .dirty ∨ p.state = .writeback then some p.zero else none
  | none => none

/-- A waiting mutation overrides the older physical mapping. -/
def payloadOf (cached : Option Bool) (payload : Bool) : Bool :=
  match cached with
  | some zero => !zero
  | none => payload

/-- Payload of a block: accepted Data in the cache, or a payload mapping below it. -/
def Shared.payload (s : Shared) (k : CacheKey) : Bool :=
  payloadOf (waiting (s.pages k)) (s.mapped k)

theorem idle_iff {o : Option CachePage} : Idle o ↔ waiting o = none := by
  cases o with
  | none => simp [Idle, waiting]
  | some p => simp [Idle, waiting]

section PageOk

variable (s : Shared) (k : CacheKey) (p : CachePage)

/-- The backend has the page. -/
structure Has : Prop where
  content : s.backend k = p.content
  mapped : s.mapped k = !p.zero

/-- The backend has the logical contents. -/
def Stored : Prop := s.backend k = s.logical k

/-- The backend has the logical contents, and nothing waits in the cache. -/
def Rests : Prop := Stored s k ∧ Idle (s.pages k)

structure LoadingOk : Prop where
  charged : p.chargedDirty = false
  data : p.zero = false
  owner : ∃ t, p.owner = some t ∧ Holds s t k
  upper : s.bitmap k = true
  stored : Stored s k

structure ConstructingOk : Prop where
  charged : p.chargedDirty = true
  owner : ∃ t, p.owner = some t ∧ Excl s t k
  stored : s.bitmap k = true → Stored s k

structure CleanOk : Prop where
  charged : p.chargedDirty = false
  data : p.zero = false
  owner : p.owner = none
  upper : s.bitmap k = true
  content : p.content = s.logical k
  stored : Stored s k

structure MutatedOk (owner : Option Thread) : Prop where
  charged : p.chargedDirty = true
  owner : p.owner = owner
  upper : s.bitmap k = true
  content : p.content = s.logical k

structure DiscardingOk : Prop where
  owner : ∃ t, p.owner = some t ∧ Excl s t k
  upper : s.bitmap k = true
  stored : p.chargedDirty = false → Stored s k

def PageOk : Prop :=
  match p.state with
  | .loading => LoadingOk s k p
  | .constructing => ConstructingOk s k p
  | .clean => CleanOk s k p
  | .dirty => MutatedOk s k p none
  | .writeback => MutatedOk s k p (some .worker)
  | .discarding => DiscardingOk s k p

/-- What the map says about a block. -/
def KeyOk : Option CachePage → Prop
  | none => s.bitmap k = true → Stored s k
  | some p => PageOk s k p

end PageOk

/-! ## The invariant -/

structure Inv (cfg : Config) (s : Shared) : Prop where
  exclusive : ∀ d i t, (s.stripes d i).writer = some t → ∀ u, (s.stripes d i).readers u = false
  wf : s.toCache.Wf
  key : ∀ k, KeyOk s k (s.pages k)
  lower : ∀ k, s.bitmap k = false → s.pending k = none →
    s.logical k = blockOf (cfg.disk k.disk).lowerByte k.block
  pending : ∀ k t, s.pending k = some t → Excl s t k
  mutated : ∀ m ∈ s.history, s.bitmap m.key = true ∨ s.pending m.key ≠ none
  detached : ∀ d, s.materialTemplate d = false →
    ∀ b, (cfg.disk d).templateKind b ≠ .hole → s.bitmap ⟨d, b⟩ = true
  borrowed : ∀ d t, s.materialReaders d t = true → s.templateClosed d = false
  closed : ∀ d, s.templateClosed d = true → s.materialTemplate d = false

variable {cfg : Config} {s : Shared} {t u : Thread} {k : CacheKey}

theorem Inv.not_excl (hi : Inv cfg s) (h : Holds s u k) (htu : t ≠ u) : ¬Excl s t k := by
  intro ht
  rcases h with h | h
  · exact htu (Option.some.inj (ht.symm.trans h))
  · rw [Shared.stripe, hi.exclusive _ _ t ht u] at h
    cases h

/-- No frontend has touched an absent block, unless its discard is pending. -/
theorem Inv.untouched (hi : Inv cfg s)
    (hb : s.bitmap k = false) (hp : s.pending k = none) : ∀ m ∈ s.history, m.key ≠ k := by
  rintro m hm rfl
  rcases hi.mutated m hm with h | h
  · rw [hb] at h
    cases h
  · exact h hp

/-! ## What one section may do -/

/-- What a read must deliver: the logical contents, and zeros where a snapshot
view has no block. -/
def expected (view : Option (Nat → Bool)) (s : Shared) (d x : Nat) : Byte :=
  match view with
  | none => s.logicalByte d x
  | some v => if v (x / blockSize) then s.logicalByte d x else 0

def ReadRecord.Ok (s : Shared) (r : ReadRecord) : Prop :=
  ∀ x, r.lo ≤ x → x < r.hi → r.bytes x = expected r.view s r.disk x

/-- What the backend is given: the logical contents of the block, and by a
materializer only blocks no frontend has touched. -/
structure Applied.Ok (me : Thread) (s' : Shared) (e : Applied) : Prop where
  thread : e.thread = me
  backend : s'.backend e.key = e.content
  content : e.content = s'.logical e.key
  untouched : ∀ d, me = .material d → ∀ m ∈ s'.history, m.key ≠ e.key

structure Guar (me : Thread) (s s' : Shared) : Prop where
  stripes : ∀ d i u, u ≠ me → ((s'.stripes d i).writer = some u ↔ (s.stripes d i).writer = some u) ∧
    (s'.stripes d i).readers u = (s.stripes d i).readers u
  owned : ∀ k p u, u ≠ me → p.owner = some u → (s'.pages k = some p ↔ s.pages k = some p)
  frozen : ∀ k p, s.pages k = some p → p.state = .writeback →
    s'.pages k = some p ∨ me = .worker ∧ Has s k p ∧ Idle (s'.pages k)
  steady : me ≠ .worker → ∀ k p, s.pages k = some p → p.state = .writeback →
    s'.backend k = s.backend k ∧ s'.mapped k = s.mapped k
  held : ∀ k, ¬Excl s me k → s'.logical k = s.logical k ∧ s'.bitmap k = s.bitmap k ∧
    (Idle (s.pages k) → Idle (s'.pages k) ∧ s'.backend k = s.backend k)
  payload : ∀ k, ¬Excl s me k → s'.payload k = s.payload k
  blank : ∀ k, (s.mapped k = false → s.backend k = zeroBlock) → s'.mapped k = false →
    s'.backend k = zeroBlock
  absent : ∀ k, ¬Holds s me k → s.pages k = none → s'.pages k = none
  bitmap : ∀ k, s.bitmap k = true → s'.bitmap k = true
  pending : ∀ k u, u ≠ me → (s'.pending k = some u ↔ s.pending k = some u)
  template : ∀ d, s'.materialTemplate d = s.materialTemplate d ∧
    s'.templateClosed d = s.templateClosed d
  borrowed : ∀ d u, u ≠ me → s'.materialReaders d u = s.materialReaders d u
  origin : s'.origin = s.origin
  history : ∃ new, s'.history = new ++ s.history ∧ (new ≠ [] → ∃ n, me = .front n)
  reads : ∃ new, s'.reads = new ++ s.reads ∧ ∀ r ∈ new, r.Ok s
  applied : ∃ new, s'.applied = new ++ s.applied ∧ (∀ e ∈ new, e.Ok me s') ∧
    ∀ k, (∀ e ∈ new, e.key ≠ k) → s'.backend k = s.backend k

structure Rely (me : Thread) (s s' : Shared) : Prop where
  mine : ∀ d i, ((s'.stripes d i).writer = some me ↔ (s.stripes d i).writer = some me) ∧
    (s'.stripes d i).readers me = (s.stripes d i).readers me
  owned : ∀ k p, p.owner = some me → (s'.pages k = some p ↔ s.pages k = some p)
  steady : me = .worker → ∀ k p, s.pages k = some p → p.state = .writeback →
    s'.backend k = s.backend k ∧ s'.mapped k = s.mapped k
  held : ∀ k, Holds s me k → s'.logical k = s.logical k ∧ s'.bitmap k = s.bitmap k ∧
    (Idle (s.pages k) → Idle (s'.pages k) ∧ s'.backend k = s.backend k)
  absent : ∀ k, Excl s me k → s.pages k = none → s'.pages k = none
  bitmap : ∀ k, s.bitmap k = true → s'.bitmap k = true
  pending : ∀ k, s'.pending k = some me ↔ s.pending k = some me
  template : ∀ d, me = .material d → s'.materialTemplate d = s.materialTemplate d ∧
    s'.templateClosed d = s.templateClosed d
  borrowed : ∀ d, s'.materialReaders d me = s.materialReaders d me

theorem Guar.rely {s' : Shared} (hi : Inv cfg s) (htu : t ≠ u) (h : Guar t s s') : Rely u s s' where
  mine d i := h.stripes d i u (Ne.symm htu)
  owned k p := h.owned k p u (Ne.symm htu)
  steady hu := h.steady (hu ▸ htu)
  held k hk := h.held k (hi.not_excl hk htu)
  absent k hk := h.absent k fun ht => hi.not_excl ht (Ne.symm htu) hk
  bitmap := h.bitmap
  pending k := h.pending k u (Ne.symm htu)
  template d _ := h.template d
  borrowed d := h.borrowed d u (Ne.symm htu)

theorem Guar.refl (me : Thread) (s : Shared) : Guar me s s where
  stripes _ _ _ _ := ⟨.rfl, rfl⟩
  owned _ _ _ _ _ := .rfl
  frozen _ _ h _ := .inl h
  steady _ _ _ _ _ := ⟨rfl, rfl⟩
  held _ _ := ⟨rfl, rfl, fun h => ⟨h, rfl⟩⟩
  payload _ _ := rfl
  blank _ h := h
  absent _ _ h := h
  bitmap _ h := h
  pending _ _ _ := .rfl
  template _ := ⟨rfl, rfl⟩
  borrowed _ _ _ := rfl
  origin := rfl
  history := ⟨[], rfl, fun h => absurd rfl h⟩
  reads := ⟨[], rfl, nofun⟩
  applied := ⟨[], rfl, nofun, fun _ _ => rfl⟩

/-! ## Page moves -/

/-- What a section of `me` may do to the page of one block, beyond accepting a
mutation. -/
inductive PageStep (s : Shared) (me : Thread) (k : CacheKey) :
    Option CachePage → Option CachePage → Prop where
  | evict {p : CachePage} (h : p.state = .clean) : PageStep s me k (some p) none
  | load {p : CachePage} (hm : Holds s me k) (hu : s.bitmap k = true) (hs : p.state = .loading)
      (hc : p.chargedDirty = false) (hz : p.zero = false) (ho : p.owner = some me) :
      PageStep s me k none (some p)
  | construct {p : CachePage} (hm : Excl s me k) (hs : p.state = .constructing)
      (hc : p.chargedDirty = true) (ho : p.owner = some me) : PageStep s me k none (some p)
  | fill {p p' : CachePage} (ho : p.owner = some me)
      (hs : p.state = .loading ∨ p.state = .constructing) (hs' : p'.state = p.state)
      (hc : p'.chargedDirty = p.chargedDirty) (hz : p'.zero = p.zero) (ho' : p'.owner = p.owner) :
      PageStep s me k (some p) (some p')
  | publish {p : CachePage} (ho : p.owner = some me) (hs : p.state = .loading) :
      PageStep s me k (some p)
        (some { p with data := some (s.logical k), state := .clean, owner := none })
  | giveBack {p : CachePage} (ho : p.owner = some me)
      (hs : p.state = .loading ∨ p.state = .constructing) : PageStep s me k (some p) none
  | freeze {p : CachePage} (hme : me = .worker) (hs : p.state = .dirty) :
      PageStep s me k (some p) (some { p with state := .writeback, owner := some .worker })
  | complete {p : CachePage} (hme : me = .worker) (hs : p.state = .writeback)
      (hz : p.zero = false) (hb : Has s k p) :
      PageStep s me k (some p) (some { p with
        state := .clean, fresh := false, chargedDirty := false, owner := none })
  | dropZero {p : CachePage} (hme : me = .worker) (hs : p.state = .writeback)
      (hb : Has s k p) : PageStep s me k (some p) none
  | discard {p : CachePage} (hm : Excl s me k) (hs : p.state = .clean ∨ p.state = .dirty) :
      PageStep s me k (some p) (some { p with state := .discarding, owner := some me })

def PageSteps (s : Shared) (me : Thread) (k : CacheKey) :
    Option CachePage → Option CachePage → Prop :=
  Relation.ReflTransGen (PageStep s me k)

section PageStep

variable {s : Shared} {me : Thread} {k : CacheKey} {o o' : Option CachePage} {p : CachePage}

section

variable (h : PageOk s k p)

include h

theorem PageOk.clean (hs : p.state = .clean) : CleanOk s k p := by
  simpa only [PageOk, hs] using h

theorem PageOk.dirty (hs : p.state = .dirty) : MutatedOk s k p none := by
  simpa only [PageOk, hs] using h

theorem PageOk.writeback (hs : p.state = .writeback) : MutatedOk s k p (some .worker) := by
  simpa only [PageOk, hs] using h

theorem PageOk.loading (hs : p.state = .loading) : LoadingOk s k p := by
  simpa only [PageOk, hs] using h

theorem PageOk.constructing (hs : p.state = .constructing) : ConstructingOk s k p := by
  simpa only [PageOk, hs] using h

theorem PageOk.discarding (hs : p.state = .discarding) : DiscardingOk s k p := by
  simpa only [PageOk, hs] using h

end

theorem Has.frame {s' : Shared} (h : Has s k p) (hb : s'.backend k = s.backend k)
    (hm : s'.mapped k = s.mapped k) : Has s' k p :=
  ⟨hb.trans h.content, hm.trans h.mapped⟩

/-- What the map says about a block depends on the block, and on the stripe of
the thread that owns its page. -/
theorem KeyOk.frame {s' : Shared} (h : KeyOk s k o) (hb : s'.bitmap k = s.bitmap k)
    (stored : Stored s k → Stored s' k) (hl : s'.logical k = s.logical k)
    (ho : ∀ p t, o = some p → p.owner = some t →
      (Excl s t k → Excl s' t k) ∧ (Holds s t k → Holds s' t k)) : KeyOk s' k o := by
  cases o with
  | none => exact fun hu => stored (h (hb ▸ hu))
  | some p =>
    have excl : (∃ t, p.owner = some t ∧ Excl s t k) → ∃ t, p.owner = some t ∧ Excl s' t k :=
      fun ⟨t, ht, he⟩ => ⟨t, ht, (ho p t rfl ht).1 he⟩
    simp only [KeyOk, PageOk] at h ⊢
    cases hst : p.state with
    | loading =>
      rw [hst] at h
      obtain ⟨hc, hz, ⟨t, ht, hm⟩, hu, hst⟩ := h
      exact ⟨hc, hz, ⟨t, ht, (ho p t rfl ht).2 hm⟩, hb ▸ hu, stored hst⟩
    | constructing =>
      rw [hst] at h
      exact ⟨h.charged, excl h.owner, fun hu => stored (h.stored (hb ▸ hu))⟩
    | clean =>
      rw [hst] at h
      exact ⟨h.charged, h.data, h.owner, hb ▸ h.upper, h.content.trans hl.symm, stored h.stored⟩
    | dirty | writeback =>
      rw [hst] at h
      exact ⟨h.charged, h.owner, hb ▸ h.upper, h.content.trans hl.symm⟩
    | discarding =>
      rw [hst] at h
      exact ⟨excl h.owner, hb ▸ h.upper, fun hc => stored (h.stored hc)⟩

theorem PageStep.ok (h : PageStep s me k o o') (ho : KeyOk s k o) : KeyOk s k o' := by
  cases h with
  | evict hs => exact fun _ => (ho.clean hs).stored
  | load hm hu hs hc hz hown =>
    simp only [KeyOk, PageOk, hs]
    exact ⟨hc, hz, ⟨me, hown, hm⟩, hu, ho hu⟩
  | construct hm hs hc hown =>
    simp only [KeyOk, PageOk, hs]
    exact ⟨hc, ⟨me, hown, hm⟩, ho⟩
  | fill hown hs hs' hc hz hown' =>
    rcases hs with hs | hs
    · have hl := PageOk.loading ho hs
      simp only [KeyOk, PageOk, hs', hs]
      exact ⟨hc.trans hl.charged, hz.trans hl.data, hown' ▸ hl.owner, hl.upper, hl.stored⟩
    · have hl := PageOk.constructing ho hs
      simp only [KeyOk, PageOk, hs', hs]
      exact ⟨hc.trans hl.charged, hown' ▸ hl.owner, hl.stored⟩
  | @publish p hown hs =>
    have hl := PageOk.loading ho hs
    exact { hl with owner := rfl, content := by simp [CachePage.content, hl.data] }
  | giveBack hown hs =>
    rcases hs with hs | hs
    · exact fun _ => (PageOk.loading ho hs).stored
    · exact (PageOk.constructing ho hs).stored
  | freeze hme hs =>
    have hd := PageOk.dirty ho hs
    exact { hd with owner := rfl }
  | complete hme hs hz hb =>
    have hw := PageOk.writeback ho hs
    exact ⟨rfl, hz, rfl, hw.upper, hw.content, hb.content.trans hw.content⟩
  | dropZero hme hs hb => exact fun _ => hb.content.trans (PageOk.writeback ho hs).content
  | discard hm hs =>
    rcases hs with hs | hs
    · have hc := PageOk.clean ho hs
      exact ⟨⟨me, rfl, hm⟩, hc.upper, fun _ => hc.stored⟩
    have hd := PageOk.dirty ho hs
    refine ⟨⟨me, rfl, hm⟩, hd.upper, fun hc => ?_⟩
    simp only [hd.charged] at hc
    cases hc

/-- A page another thread owns is left alone. -/
theorem PageStep.owned (h : PageStep s me k o o') (ho : KeyOk s k o) (hu : u ≠ me)
    (hp : p.owner = some u) : o' = some p ↔ o = some p := by
  have mine : ∀ {q : CachePage}, q.owner = some me → q ≠ p := by
    rintro q hq rfl
    exact hu (Option.some.inj (hp.symm.trans hq))
  have nobody : ∀ {q : CachePage}, q.owner = none → q ≠ p := by
    rintro q hq rfl
    rw [hq] at hp
    cases hp
  cases h with
  | evict hs => simpa using nobody (ho.clean hs).owner
  | load _ _ _ _ _ hown | construct _ _ _ hown | giveBack hown _ => simpa using mine hown
  | fill hown _ _ _ _ hown' => simp [mine hown, mine (hown'.trans hown)]
  | publish hown _ => simp [mine hown, nobody]
  | freeze hme hs => simp [nobody (PageOk.dirty ho hs).owner, hme ▸ mine]
  | complete hme hs _ _ => simp [mine (hme ▸ (PageOk.writeback ho hs).owner), nobody]
  | dropZero hme hs _ => simpa using mine (hme ▸ (PageOk.writeback ho hs).owner)
  | discard _ hs =>
    rcases hs with hs | hs
    · simp [nobody (PageOk.clean ho hs).owner, mine]
    · simp [nobody (PageOk.dirty ho hs).owner, mine]

/-- Only the worker moves a frozen page, once the backend has it; nothing waits then. -/
theorem PageStep.frozen (h : PageStep s me k (some p) o') (hs : p.state = .writeback) :
    me = .worker ∧ Has s k p ∧ Idle o' := by
  cases h with
  | complete hme _ _ hb => exact ⟨hme, hb, by simp [Idle]⟩
  | dropZero hme _ hb => exact ⟨hme, hb, nofun⟩
  | _ => simp_all

/-- No mutation starts to wait. -/
theorem PageStep.idle (h : PageStep s me k o o') (ho : Idle o) : Idle o' := by
  intro q hq
  cases h with
  | fill _ hs hs' _ _ _ =>
    cases hq
    rw [hs']
    exact ho _ rfl
  | freeze _ hs => exact absurd hs (ho _ rfl).1
  | _ => cases hq <;> simp_all

/-- Without the stripe the payload of a block stays: the backend has what is completed. -/
theorem PageStep.payload (h : PageStep s me k o o') (hx : ¬Excl s me k) :
    payloadOf (waiting o') (s.mapped k) = payloadOf (waiting o) (s.mapped k) := by
  cases h with
  | evict hs | load _ _ hs | publish _ hs | freeze _ hs => simp [waiting, hs]
  | construct hm | discard hm => exact absurd hm hx
  | fill _ hs hs' _ _ _ => rcases hs with hs | hs <;> simp [waiting, hs, hs']
  | giveBack _ hs => rcases hs with hs | hs <;> simp [waiting, hs]
  | complete _ hs _ hb | dropZero _ hs hb => simp [waiting, hs, payloadOf, hb.mapped]

/-- Only a thread with the stripe adds a page. -/
theorem PageStep.absent (h : PageStep s me k none o') : Holds s me k := by
  cases h with
  | load hm => exact hm
  | construct hm => exact .inl hm

section

variable (h : PageSteps s me k o o')

include h

theorem PageSteps.ok (ho : KeyOk s k o) : KeyOk s k o' := by
  induction h with
  | refl => exact ho
  | tail _ h ih => exact h.ok ih

theorem PageSteps.owned (ho : KeyOk s k o) (hu : u ≠ me) (hp : p.owner = some u) :
    o' = some p ↔ o = some p := by
  induction h with
  | refl => exact .rfl
  | tail hs h ih => exact (h.owned (PageSteps.ok hs ho) hu hp).trans ih

theorem PageSteps.idle (ho : Idle o) : Idle o' := by
  induction h with
  | refl => exact ho
  | tail _ h ih => exact h.idle ih

end

theorem PageSteps.payload (h : PageSteps s me k o o') (hx : ¬Excl s me k) :
    payloadOf (waiting o') (s.mapped k) = payloadOf (waiting o) (s.mapped k) := by
  induction h with
  | refl => rfl
  | tail _ h ih => exact (h.payload hx).trans ih

theorem PageSteps.frozen (h : PageSteps s me k (some p) o') (hs : p.state = .writeback) :
    o' = some p ∨ me = .worker ∧ Has s k p ∧ Idle o' := by
  rcases Relation.ReflTransGen.cases_head h with h | ⟨_, h, hrest⟩
  · exact .inl h.symm
  · obtain ⟨hme, hb, hidle⟩ := h.frozen hs
    exact .inr ⟨hme, hb, PageSteps.idle hrest hidle⟩

theorem PageSteps.absent (h : PageSteps s me k none o') (hm : ¬Holds s me k) : o' = none := by
  rcases Relation.ReflTransGen.cases_head h with h | ⟨_, h, _⟩
  · exact h.symm
  · exact absurd h.absent hm

end PageStep

/-- A section of one thread that only moves pages. -/
structure Moves (s : Shared) (me : Thread) (c c' : Cache) : Prop where
  wf : c'.Wf
  steps : ∀ k, PageSteps s me k (c.pages k) (c'.pages k)

section Moves

variable {cfg : Config} {me : Thread} {s : Shared} {c c' c'' : Cache} {k : CacheKey}

theorem Moves.refl (h : c.Wf) : Moves s me c c := ⟨h, fun _ => .refl⟩

theorem Moves.trans (h : Moves s me c c') (h' : Moves s me c' c'') : Moves s me c c'' :=
  ⟨h'.wf, fun k => (h.steps k).trans (h'.steps k)⟩

theorem Moves.ok (h : Moves s me c c') (hc : ∀ k, KeyOk s k (c.pages k)) (k : CacheKey) :
    KeyOk s k (c'.pages k) :=
  (h.steps k).ok (hc k)

theorem Moves.single {o : Option CachePage} (hwf : c'.Wf)
    (hp : c'.pages = Function.update c.pages k o) (h : PageStep s me k (c.pages k) o) :
    Moves s me c c' := by
  refine ⟨hwf, fun q => ?_⟩
  rw [hp]
  by_cases hq : q = k
  · subst hq
    rw [Function.update_self]
    exact .single h
  · rw [Function.update_of_ne hq]
    exact .refl

theorem Moves.inv (h : Moves s me s.toCache c) (hi : Inv cfg s) :
    Inv cfg { s with toCache := c } where
  exclusive := hi.exclusive
  wf := h.wf
  key k := ((h.steps k).ok (hi.key k)).frame rfl id rfl fun _ _ _ _ => ⟨id, id⟩
  lower := hi.lower
  pending := hi.pending
  mutated := hi.mutated
  detached := hi.detached
  borrowed := hi.borrowed
  closed := hi.closed

theorem Moves.guar (h : Moves s me s.toCache c) (hi : Inv cfg s) :
    Guar me s { s with toCache := c } := {
  Guar.refl me s with
  owned := fun k p u hu hp => (h.steps k).owned (hi.key k) hu hp
  frozen := fun k p hp hs => by
    have hk := h.steps k
    rw [hp] at hk
    exact hk.frozen hs
  held := fun k _ => ⟨rfl, rfl, fun hid => ⟨(h.steps k).idle hid, rfl⟩⟩
  payload := fun k hx => (h.steps k).payload hx
  absent := fun k hm hp => by
    have hk := h.steps k
    rw [hp] at hk
    exact hk.absent hm
  applied := ⟨[], rfl, nofun, fun _ _ => rfl⟩ }

end Moves

end Sandboxer.Diffstore
