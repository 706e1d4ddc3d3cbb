import Sandboxer.Diffstore.Safety

/-! # Critical sections

Every section of the cache keeps the invariant and what the other threads rely
on, and leaves its own thread what it needs next. Sections that only reserve,
publish, give back, freeze or complete pages are page moves; an accepted
mutation, the backend transfers and the lock and template operations are
treated one by one. -/
namespace Sandboxer.Diffstore

/-! ## Pages of a thread -/

/-- The pages a thread owns: those of `ks`, all in one state. -/
structure Cache.Mine (c : Cache) (me : Thread) (st : CacheState) (ks : List CacheKey) : Prop where
  page : ∀ k ∈ ks, ∃ p, c.pages k = some p ∧ p.owner = some me ∧ p.state = st
  only : ∀ k p, c.pages k = some p → p.owner = some me → k ∈ ks

/-- The thread owns no page. -/
def Cache.Free (c : Cache) (me : Thread) : Prop := ∀ k p, c.pages k = some p → p.owner ≠ some me

section Mine

variable {s : Shared} {me : Thread} {st : CacheState} {c c' : Cache} {k : CacheKey}
  {ks : List CacheKey} {p : CachePage}

theorem Cache.Mine.free (h : c.Mine me st []) : c.Free me :=
  fun k p hp ho => nomatch h.only k p hp ho

theorem Cache.Free.mine (h : c.Free me) : c.Mine me st [] :=
  ⟨nofun, fun k p hp ho => absurd ho (h k p hp)⟩

/-- The thread lets go of one of its pages. -/
theorem Cache.Mine.drop {o : Option CachePage} (h : c.Mine me st (k :: ks)) (hk : k ∉ ks)
    (hp : c'.pages = Function.update c.pages k o) (ho : ∀ p, o = some p → p.owner ≠ some me) :
    c'.Mine me st ks := by
  constructor
  · intro q hq
    have hqk : q ≠ k := fun heq => hk (heq ▸ hq)
    rw [hp, Function.update_of_ne hqk]
    exact h.page q (.tail _ hq)
  · intro q p hqp hown
    rw [hp] at hqp
    by_cases hqk : q = k
    · subst hqk
      rw [Function.update_self] at hqp
      exact absurd hown (ho p hqp)
    · rw [Function.update_of_ne hqk] at hqp
      exact (List.mem_cons.1 (h.only q p hqp hown)).resolve_left hqk

theorem Cache.Mine.fill {p' : CachePage} (h : c.Mine me st ks) (hp : c.pages k = some p)
    (hc : c'.pages = Function.update c.pages k (some p')) (ho : p'.owner = p.owner)
    (hs : p'.state = p.state) : c'.Mine me st ks := by
  constructor
  · intro q hq
    obtain ⟨r, hr, hro, hrs⟩ := h.page q hq
    by_cases hqk : q = k
    · subst hqk
      cases hp.symm.trans hr
      exact ⟨p', by rw [hc, Function.update_self], ho.trans hro, hs.trans hrs⟩
    · exact ⟨r, by rw [hc, Function.update_of_ne hqk]; exact hr, hro, hrs⟩
  · intro q r hr hro
    rw [hc] at hr
    by_cases hqk : q = k
    · subst hqk
      rw [Function.update_self] at hr
      cases hr
      exact h.only q p hp (ho.symm.trans hro)
    · rw [Function.update_of_ne hqk] at hr
      exact h.only q r hr hro

variable {cfg : Config} {dirty : Bool} (h : c.Wf) (hk : c.pages k = none)
  (hr : c.reserve cfg me k dirty = some c')

include h hk hr

theorem Cache.reserve_moves (hm : PageStep s me k none (some (newPage me dirty))) :
    Moves s me c c' := by
  obtain ⟨hwf, hnew, hrest⟩ := reserve_some h hk hr
  refine ⟨hwf, fun q => ?_⟩
  by_cases hq : q = k
  · subst hq
    rw [hk, hnew]
    exact .single hm
  rcases hrest q hq with heq | ⟨p, hp, hps, hnone⟩
  · rw [heq]
    exact .refl
  · rw [hp, hnone]
    exact .single (.evict hps)

/-- A reservation leaves pages that are not clean. -/
theorem Cache.reserve_keeps {q : CacheKey} (hp : c.pages q = some p) (hs : p.state ≠ .clean) :
    c'.pages q = some p := by
  have hq : q ≠ k := by
    rintro rfl
    rw [hk] at hp
    cases hp
  rcases (reserve_some h hk hr).2.2 q hq with heq | ⟨r, hr, hrs, -⟩
  · rw [heq, hp]
  · rw [hp] at hr
    cases hr
    exact absurd hrs hs

/-- Other pages after a reservation were there before it. -/
theorem Cache.reserve_old {q : CacheKey} (hq : q ≠ k) (hp : c'.pages q = some p) :
    c.pages q = some p := by
  rcases (reserve_some h hk hr).2.2 q hq with heq | ⟨r, -, -, hnone⟩
  · rw [← heq, hp]
  · rw [hnone] at hp
    cases hp

end Mine

/-! ## Cold runs -/

/-- The blocks of a cold run that got a page. -/
def reservedKeys (d : Nat) : Nat → List Bool → List CacheKey
  | _, [] => []
  | b, true :: rs => ⟨d, b⟩ :: reservedKeys d (b + 1) rs
  | b, false :: rs => reservedKeys d (b + 1) rs

theorem mem_reservedKeys {d : Nat} {q : CacheKey} {rs : List Bool} {b : Nat}
    (h : q ∈ reservedKeys d b rs) : ∃ i < rs.length, q = ⟨d, b + i⟩ := by
  induction rs generalizing b with
  | nil => cases h
  | cons r rs ih =>
    have tail : q ∈ reservedKeys d (b + 1) rs → ∃ i < (r :: rs).length, q = ⟨d, b + i⟩ := by
      intro hq
      obtain ⟨i, hi, rfl⟩ := ih hq
      exact ⟨i + 1, Nat.succ_lt_succ hi, by rw [Nat.add_right_comm, Nat.add_assoc]⟩
    cases r with
    | false => exact tail h
    | true =>
      rcases List.mem_cons.1 h with rfl | h
      · exact ⟨0, Nat.zero_lt_succ _, rfl⟩
      · exact tail h

theorem head_not_mem_reservedKeys (d b : Nat) (rs : List Bool) :
    (⟨d, b⟩ : CacheKey) ∉ reservedKeys d (b + 1) rs := by
  intro h
  obtain ⟨i, -, heq⟩ := mem_reservedKeys h
  have := congrArg CacheKey.block heq
  dsimp only at this
  omega

/-- What the reservations of a cold run leave behind. -/
structure ColdRun (s : Shared) (me : Thread) (d b n : Nat) (c c' : Cache) (rs : List Bool) :
    Prop where
  moves : Moves s me c c'
  length : rs.length ≤ n
  stored : ∀ i < rs.length, Stored s ⟨d, b + i⟩ ∧ Idle (c'.pages ⟨d, b + i⟩)
  keep : ∀ q p, c.pages q = some p → p.state ≠ .clean → c'.pages q = some p
  loading : ∀ q ∈ reservedKeys d b rs, ∃ p, c'.pages q = some p ∧ p.owner = some me ∧
    p.state = .loading
  owned : ∀ q p, c'.pages q = some p → p.owner = some me → c.pages q = some p ∨
    q ∈ reservedKeys d b rs

theorem ColdRun.mine {s : Shared} {me : Thread} {d b n : Nat} {c c' : Cache} {rs : List Bool}
    (h : ColdRun s me d b n c c' rs) (hf : c.Free me) : c'.Mine me .loading (reservedKeys d b rs) :=
  ⟨h.loading, fun q p hq ho => (h.owned q p hq ho).resolve_left fun hp => hf q p hp ho⟩

section ColdRun

variable {cfg : Config} {s : Shared} {me : Thread} {c c' : Cache} {k : CacheKey} {p : CachePage}

/-- A block gets a page to load into. -/
theorem Cache.reserve_loading (hwf : c.Wf) (hok : ∀ k, KeyOk s k (c.pages k))
    (hk : c.pages k = none) (hm : Holds s me k) (hu : s.bitmap k = true)
    (hr : c.reserve cfg me k false = some c') :
    ColdRun s me k.disk k.block 1 c (c'.acquireData k) [true] := by
  have hmoves := reserve_moves hwf hk hr
    (.load hm hu rfl rfl rfl rfl)
  have hnew := (reserve_some hwf hk hr).2.1
  have hpages : (c'.acquireData k).pages =
      Function.update c'.pages k (some { newPage me false with data := some zeroBlock }) := by
    simp [acquireData, hnew, setPage, newPage]
  have hself :
      (c'.acquireData k).pages k = some { newPage me false with data := some zeroBlock } := by
    rw [hpages, Function.update_self]
  have hother : ∀ q, q ≠ k → (c'.acquireData k).pages q = c'.pages q := by
    intro q hq
    rw [hpages, Function.update_of_ne hq]
  have hfill : Moves s me c' (c'.acquireData k) := by
    refine .single ?_ hpages ?_
    · unfold acquireData
      rw [hnew]
      exact hmoves.wf.setPage hnew rfl rfl
    · rw [hnew]
      exact .fill rfl (.inl rfl) rfl rfl rfl rfl
  refine ⟨hmoves.trans hfill, Nat.le_refl 1, ?_, ?_, ?_, ?_⟩
  · intro i hi
    obtain rfl : i = 0 := by simpa using hi
    have hkey := hok k
    rw [hk] at hkey
    refine ⟨hkey hu, ?_⟩
    change Idle ((c'.acquireData k).pages k)
    rw [hself]
    rintro p hp
    cases hp
    constructor <;> rintro ⟨⟩
  · intro q p hp hs
    have hq : q ≠ k := by
      rintro rfl
      rw [hk] at hp
      cases hp
    rw [hother q hq]
    exact reserve_keeps hwf hk hr hp hs
  · intro q hq
    obtain rfl : q = k := by simpa [reservedKeys] using hq
    exact ⟨_, hself, rfl, rfl⟩
  · intro q p hp ho
    by_cases hq : q = k
    · subst hq
      exact .inr (List.mem_singleton_self q)
    · rw [hother q hq] at hp
      exact .inl (reserve_old hwf hk hr hq hp)

variable {d : Nat}

theorem ColdRun.nil {b n : Nat} (hwf : c.Wf) : ColdRun s me d b n c c [] :=
  ⟨.refl hwf, Nat.zero_le _, nofun, fun _ _ hp _ => hp, nofun, fun _ _ hp _ => .inl hp⟩

theorem reservedKeys_cons (d b : Nat) (r : Bool) (rs : List Bool) :
    reservedKeys d b (r :: rs) = reservedKeys d b [r] ++ reservedKeys d (b + 1) rs := by
  cases r <;> rfl

theorem ColdRun.cons {b n : Nat} {c'' : Cache} {r : Bool} {rs : List Bool}
    (h : ColdRun s me d b 1 c c' [r]) (h' : ColdRun s me d (b + 1) n c' c'' rs) :
    ColdRun s me d b (n + 1) c c'' (r :: rs) := by
  refine ⟨h.moves.trans h'.moves, Nat.succ_le_succ h'.length, ?_, ?_, ?_, ?_⟩
  · intro i hi
    cases i with
    | zero =>
      obtain ⟨hst, hid⟩ := h.stored 0 Nat.zero_lt_one
      exact ⟨hst, (h'.moves.steps _).idle hid⟩
    | succ i =>
      have := h'.stored i (Nat.lt_of_succ_lt_succ hi)
      rwa [Nat.add_right_comm, Nat.add_assoc] at this
  · intro q p hp hs
    exact h'.keep q p (h.keep q p hp hs) hs
  · intro q hq
    rw [reservedKeys_cons, List.mem_append] at hq
    rcases hq with hq | hq
    · obtain ⟨p, hp, ho, hs⟩ := h.loading q hq
      exact ⟨p, h'.keep q p hp (by rw [hs]; nofun), ho, hs⟩
    · exact h'.loading q hq
  · intro q p hp ho
    rw [reservedKeys_cons, List.mem_append]
    rcases h'.owned q p hp ho with hp | hq
    · rcases h.owned q p hp ho with hp | hq
      · exact .inl hp
      · exact .inr (.inl hq)
    · exact .inr (.inr hq)

/-- The reservations of a cold run of present blocks under their stripes. -/
theorem Cache.reserveRun_spec (cfg : Config) (n b : Nat) (c : Cache) (hwf : c.Wf)
    (hok : ∀ k, KeyOk s k (c.pages k))
    (hm : ∀ i < n, Holds s me ⟨d, b + i⟩ ∧ s.bitmap ⟨d, b + i⟩ = true) :
    ColdRun s me d b n c (reserveRun cfg me d n b c).2 (reserveRun cfg me d n b c).1 := by
  induction n generalizing b c with
  | zero => exact .nil hwf
  | succ n ih =>
    obtain ⟨hhold, hupper⟩ := hm 0 (Nat.zero_lt_succ n)
    have hm' : ∀ i < n, Holds s me ⟨d, b + 1 + i⟩ ∧ s.bitmap ⟨d, b + 1 + i⟩ = true := by
      intro i hi
      rw [Nat.add_right_comm, Nat.add_assoc]
      exact hm (i + 1) (Nat.succ_lt_succ hi)
    unfold reserveRun
    split
    · exact .nil hwf
    next hk =>
      have hk : c.pages ⟨d, b⟩ = none := by simpa using hk
      split
      · -- the block is read without a page
        have hkey := hok ⟨d, b⟩
        have hskip : ColdRun s me d b 1 c c [false] := by
          refine ⟨.refl hwf, Nat.le_refl 1, fun i hi => ?_, fun _ _ hp _ => hp, nofun,
            fun _ _ hp _ => .inl hp⟩
          obtain rfl : i = 0 := by simpa using hi
          rw [Nat.add_zero, hk]
          rw [hk] at hkey
          exact ⟨hkey hupper, nofun⟩
        exact hskip.cons (ih (b + 1) c hwf hok hm')
      next c' hr =>
        have hhead := reserve_loading hwf hok hk hhold hupper hr
        exact hhead.cons (ih (b + 1) _ hhead.moves.wf (hhead.moves.ok hok) hm')

theorem Cache.publishRun_spec {blocks : Nat → Block} (rs : List Bool) (b : Nat)
    (c : Cache) (hwf : c.Wf) (hm : c.Mine me .loading (reservedKeys d b rs))
    (hb : ∀ i < rs.length, blocks (b + i) = s.logical ⟨d, b + i⟩) :
    Moves s me c (publishRun d blocks b rs c) ∧ (publishRun d blocks b rs c).Free me := by
  induction rs generalizing b c with
  | nil => exact ⟨.refl hwf, hm.free⟩
  | cons r rs ih =>
    have hb' : ∀ i < rs.length, blocks (b + 1 + i) = s.logical ⟨d, b + 1 + i⟩ := by
      intro i hi
      rw [Nat.add_right_comm, Nat.add_assoc]
      exact hb (i + 1) (Nat.succ_lt_succ hi)
    cases r with
    | false => exact ih (b + 1) c hwf hm hb'
    | true =>
      obtain ⟨p, hp, ho, hs⟩ := hm.page ⟨d, b⟩ (.head _)
      have hpages := publishPage_eq hp (blocks b)
      have hmove : Moves s me c (c.publishPage ⟨d, b⟩ (blocks b)) := by
        refine .single (hwf.publishPage hp hs (blocks b)) hpages ?_
        rw [hp, show blocks b = s.logical ⟨d, b⟩ from hb 0 (Nat.zero_lt_succ _)]
        exact .publish ho hs
      have hmine := hm.drop (head_not_mem_reservedKeys d b rs) hpages
        (by rintro q hq; cases hq; nofun)
      obtain ⟨hmoves, hfree⟩ := ih (b + 1) _ hmove.wf hmine hb'
      exact ⟨hmove.trans hmoves, hfree⟩

/-- A page being loaded or constructed is given back. -/
theorem Cache.release_moves (hwf : c.Wf) (hp : c.pages k = some p)
    (ho : p.owner = some me) (hs : p.state = .loading ∨ p.state = .constructing) :
    Moves s me c (c.release k) := by
  refine .single (hwf.release k) (release_pages k) ?_
  rw [hp]
  exact .giveBack ho hs

theorem Cache.releaseRun_spec (rs : List Bool) (b : Nat) (c : Cache) (hwf : c.Wf)
    (hm : c.Mine me .loading (reservedKeys d b rs)) :
    Moves s me c (releaseRun d b rs c) ∧ (releaseRun d b rs c).Free me := by
  induction rs generalizing b c with
  | nil => exact ⟨.refl hwf, hm.free⟩
  | cons r rs ih =>
    cases r with
    | false => exact ih (b + 1) c hwf hm
    | true =>
      obtain ⟨p, hp, ho, hs⟩ := hm.page ⟨d, b⟩ (.head _)
      have hmove : Moves s me c (c.release ⟨d, b⟩) := release_moves hwf hp ho (.inl hs)
      have hmine := hm.drop (head_not_mem_reservedKeys d b rs) (release_pages _) nofun
      obtain ⟨hmoves, hfree⟩ := ih (b + 1) _ hmove.wf hmine
      exact ⟨hmove.trans hmoves, hfree⟩

/-- The pages the section of `read` leaves its thread. -/
def ReadStep.Owns (me : Thread) (d b : Nat) (c : Cache) : ReadStep → Prop
  | .wait | .hit _ => c.Free me
  | .cold rs => c.Mine me .loading (reservedKeys d b rs)
  | .edge reserved => c.Mine me .loading (reservedKeys d b [reserved])

/-- What the section of `read` found: a hit has the logical contents, and the
blocks of a miss can be taken from the backend. -/
def ReadStep.Found (d pos stop : Nat) (s : Shared) : ReadStep → Prop
  | .wait => True
  | .hit blk => blk = s.logical ⟨d, pos / blockSize⟩
  | .cold rs => pos % blockSize = 0 ∧ rs.length ≤ (stop - pos) / blockSize ∧
      ∀ i < rs.length, Rests s ⟨d, pos / blockSize + i⟩
  | .edge _ => Rests s ⟨d, pos / blockSize⟩

/-- What a page delivers that is neither loaded, constructed nor discarded. -/
theorem KeyOk.content (h : KeyOk s k (some p))
    (hs : p.state = .clean ∨ p.state = .dirty ∨ p.state = .writeback) :
    p.content = s.logical k := by
  rcases hs with hs | hs | hs
  · exact (PageOk.clean h hs).content
  · exact (PageOk.dirty h hs).content
  · exact (PageOk.writeback h hs).content

/-- Whole blocks of a range lie before its end. -/
theorem run_block_le {pos stop i : Nat} (h : i < (stop - pos) / blockSize) :
    pos / blockSize + i ≤ (stop - 1) / blockSize := by
  have hbs := blockSize_pos
  rw [Nat.le_div_iff_mul_le hbs, Nat.add_mul]
  have hpos := Nat.div_mul_le_self pos blockSize
  have hend := (Nat.le_div_iff_mul_le hbs).1 (Nat.succ_le_of_lt h)
  rw [Nat.succ_mul] at hend
  omega

theorem readStep_spec {pos stop : Nat} (hwf : c.Wf) (hok : ∀ k, KeyOk s k (c.pages k))
    (hf : c.Free me) (hps : pos < stop)
    (hm : ∀ b, pos / blockSize ≤ b → b ≤ (stop - 1) / blockSize →
      Holds s me ⟨d, b⟩ ∧ s.bitmap ⟨d, b⟩ = true) :
    Moves s me c (readStep cfg me d pos stop c).2 ∧
      (readStep cfg me d pos stop c).1.Owns me d (pos / blockSize)
      (readStep cfg me d pos stop c).2 ∧ (readStep cfg me d pos stop c).1.Found d pos stop
        { s with toCache := (readStep cfg me d pos stop c).2 } := by
  have hfirst := hm (pos / blockSize) le_rfl (Nat.div_le_div_right (by omega))
  cases hp : c.pages ⟨d, pos / blockSize⟩ with
  | some p =>
    have hkey := hok ⟨d, pos / blockSize⟩
    rw [hp] at hkey
    cases hs : p.state with
    | clean =>
      simp only [readStep, hp, hs]
      exact ⟨⟨hwf.touch hp hs, fun _ => .refl⟩, hf, hkey.content (.inl hs)⟩
    | dirty =>
      simp only [readStep, hp, hs]
      exact ⟨.refl hwf, hf, hkey.content (.inr (.inl hs))⟩
    | writeback =>
      simp only [readStep, hp, hs]
      exact ⟨.refl hwf, hf, hkey.content (.inr (.inr hs))⟩
    | _ =>
      simp only [readStep, hp, hs]
      exact ⟨.refl hwf, hf, trivial⟩
  | none =>
    simp only [readStep, hp]
    split
    next hwhole =>
      have hrun : ∀ i < min (maxDiffScratchSize / blockSize) ((stop - pos) / blockSize),
          Holds s me ⟨d, pos / blockSize + i⟩ ∧ s.bitmap ⟨d, pos / blockSize + i⟩ = true := by
        intro i hi
        refine hm _ (Nat.le_add_right _ _) ?_
        exact run_block_le (by omega)
      have hcold := Cache.reserveRun_spec cfg _ _ c hwf hok hrun
      exact ⟨hcold.moves, hcold.mine hf, hwhole.1, le_trans hcold.length (min_le_right _ _),
        hcold.stored⟩
    · have hkey := hok ⟨d, pos / blockSize⟩
      rw [hp] at hkey
      split
      · refine ⟨.refl hwf, hf.mine, hkey hfirst.2, ?_⟩
        rw [hp]
        nofun
      next c' hr =>
        have hcold := Cache.reserve_loading hwf hok hp hfirst.1 hfirst.2 hr
        exact ⟨hcold.moves, hcold.mine hf, hcold.stored 0 Nat.zero_lt_one⟩

end ColdRun

/-! ## Accepted mutations -/

section Accept

variable {cfg : Config} {s : Shared} {me : Thread} {c : Cache} {k : CacheKey} {p : CachePage}
    {m : Mutation}

/-- What a section did: the invariant holds and nobody else is disturbed. -/
structure Keeps (cfg : Config) (me : Thread) (s s' : Shared) : Prop where
  inv : Inv cfg s'
  guar : Guar me s s'

theorem Keeps.refl (hi : Inv cfg s) : Keeps cfg me s s := ⟨hi, .refl me s⟩

theorem Moves.keeps (h : Moves s me s.toCache c) (hi : Inv cfg s) :
    Keeps cfg me s { s with toCache := c } :=
  ⟨h.inv hi, h.guar hi⟩

variable {q : CacheKey}

theorem accept_logical_of_ne (h : q ≠ m.key) : (accept s c m p).logical q = s.logical q :=
  contents_cons_of_ne h

theorem accept_bitmap (h : s.bitmap q = true) : (accept s c m p).bitmap q = true := by
  by_cases hq : q = m.key
  · subst hq
    exact Function.update_self ..
  · exact (Function.update_of_ne hq ..).trans h

theorem accept_pages_of_ne (h : q ≠ m.key) : (accept s c m p).pages q = c.pages q :=
  Function.update_of_ne h ..

variable {n : Nat}

/-- A frontend mutation is accepted under its stripe, when no other thread has
the page and the new payload is the mutated contents. -/
theorem accept_keeps (hme : me = .front n) (hi : Inv cfg s) (hx : Excl s me m.key)
    (hwf : (accept s c m p).toCache.Wf)
    (hsteps : ∀ q, q ≠ m.key → PageSteps s me q (s.pages q) (c.pages q))
    (hc : p.content = m.apply (s.logical m.key))
    (hold : ∀ r, s.pages m.key = some r → r.state ≠ .writeback ∧ ∀ u, r.owner = some u → u = me) :
    Keeps cfg me s (accept s c m p) := by
  have hself : (accept s c m p).pages m.key =
      some { p with state := .dirty, chargedDirty := true, owner := none } :=
    Function.update_self ..
  have hupper : (accept s c m p).bitmap m.key = true := Function.update_self ..
  constructor
  · refine { hi with wf := hwf, key := fun q => ?_, lower := fun q hq hpend => ?_, mutated :=
      fun m' hm => ?_, detached := fun d hd b hb => accept_bitmap (hi.detached d hd b hb) }
    · by_cases hq : q = m.key
      · subst hq
        rw [hself]
        exact ⟨rfl, rfl, hupper, hc.trans contents_cons_self.symm⟩
      · rw [accept_pages_of_ne hq]
        exact ((hsteps q hq).ok (hi.key q)).frame (Function.update_of_ne hq ..)
          (fun h => h.trans (accept_logical_of_ne hq).symm) (accept_logical_of_ne hq) fun _ _ _ _ =>
            ⟨id, id⟩
    · have hne : q ≠ m.key := by
        rintro rfl
        rw [hupper] at hq
        cases hq
      rw [accept_logical_of_ne hne]
      refine hi.lower q ?_ hpend
      rwa [show (accept s c m p).bitmap q = s.bitmap q from Function.update_of_ne hne ..] at hq
    · rcases List.mem_cons.1 hm with rfl | hm
      · exact .inl hupper
      · exact (hi.mutated m' hm).imp_left accept_bitmap
  · refine { Guar.refl me s with
      owned := fun q r u hu hr => ?_
      frozen := fun q r hr hs => ?_
      steady := fun _ _ _ _ _ => ⟨rfl, rfl⟩
      held := fun q hq => ?_
      payload := fun q hq => ?_
      absent := fun q hq hn => ?_
      bitmap := fun q => accept_bitmap
      history := ⟨[m], rfl, fun _ => ⟨n, hme⟩⟩
      applied := ⟨[], rfl, nofun, fun _ _ => rfl⟩ }
    · by_cases hq : q = m.key
      · subst hq
        rw [hself]
        constructor
        · rintro h
          cases h
          cases hr
        · intro h
          exact absurd ((hold r h).2 u hr) hu
      · rw [accept_pages_of_ne hq]
        exact (hsteps q hq).owned (hi.key q) hu hr
    · by_cases hq : q = m.key
      · subst hq
        exact absurd hs (hold r hr).1
      · have := hsteps q hq
        rw [hr] at this
        rw [accept_pages_of_ne hq]
        exact this.frozen hs
    · have hne : q ≠ m.key := by
        rintro rfl
        exact hq hx
      refine ⟨accept_logical_of_ne hne, Function.update_of_ne hne .., fun hid => ⟨?_, rfl⟩⟩
      rw [accept_pages_of_ne hne]
      exact (hsteps q hne).idle hid
    · have hne : q ≠ m.key := by
        rintro rfl
        exact hq hx
      rw [Shared.payload, accept_pages_of_ne hne]
      exact (hsteps q hne).payload hq
    · have hne : q ≠ m.key := by
        rintro rfl
        exact hq (.inl hx)
      have := hsteps q hne
      rw [hn] at this
      rw [accept_pages_of_ne hne]
      exact this.absent hq

/-- The thread owns no page once its mutation is accepted. -/
theorem accept_free (h : ∀ q, q ≠ m.key → ∀ r, c.pages q = some r → r.owner ≠ some me) :
    (accept s c m p).toCache.Free me := by
  intro q r hr
  by_cases hq : q = m.key
  · subst hq
    cases (Function.update_self ..).symm.trans hr
    nofun
  · exact h q hq r ((Function.update_of_ne hq ..).symm.trans hr)

section

variable {n : Nat} (hme : me = .front n) (hi : Inv cfg s) (hx : Excl s me m.key) {r : CachePage}

include hme hi hx

/-- A mutation of a page that is already dirty. -/
theorem accept_dirty (hf : s.Free me) (hr : s.pages m.key = some r) (hs : r.state = .dirty)
    (hc : p.content = m.apply (s.logical m.key)) :
    Keeps cfg me s (accept s s.toCache m p) ∧ (accept s s.toCache m p).Free me := by
  have hkey := hi.key m.key
  rw [hr] at hkey
  have hd := PageOk.dirty hkey hs
  refine ⟨accept_keeps hme hi hx ?_ (fun q _ => .refl) hc ?_, accept_free fun q _ r hr => hf q r hr⟩
  · exact hi.wf.setPage hr hs.symm hd.charged.symm
  intro q hq
  cases hr.symm.trans hq
  rw [hs, hd.owner]
  exact ⟨nofun, nofun⟩

theorem accept_clean (hf : s.Free me) (hr : s.pages m.key = some r) (hs : r.state = .clean)
    (hc : p.content = m.apply (s.logical m.key)) : Keeps cfg me s (accept s (s.dirtied m.key) m p) ∧
      (accept s (s.dirtied m.key) m p).Free me := by
  have hkey := hi.key m.key
  rw [hr] at hkey
  have hcl := PageOk.clean hkey hs
  refine ⟨accept_keeps hme hi hx ?_ (fun q _ => .refl) hc ?_, accept_free fun q _ r hr => hf q r hr⟩
  · exact hi.wf.dirtied hr hs hcl.charged rfl rfl
  intro q hq
  cases hr.symm.trans hq
  rw [hs, hcl.owner]
  exact ⟨nofun, nofun⟩

/-- A mutation whose page was constructed. -/
theorem accept_constructed (hm : Moves s me s.toCache c) (hmine : c.Mine me .constructing [m.key])
    (hc : p.content = m.apply (s.logical m.key))
    (hold : ∀ r, s.pages m.key = some r → r.state ≠ .writeback ∧ ∀ u, r.owner = some u → u = me) :
    Keeps cfg me s (accept s (c.queued m.key) m p) ∧ (accept s (c.queued m.key) m p).Free me := by
  obtain ⟨r, hr, ho, hs⟩ := hmine.page m.key (List.mem_singleton_self _)
  have hkey := hm.ok hi.key m.key
  rw [hr] at hkey
  refine ⟨accept_keeps hme hi hx ?_ (fun q _ => hm.steps q) hc hold,
    accept_free fun q hq r hr ho => ?_⟩
  · exact hm.wf.queued hr hs (PageOk.constructing hkey hs).charged rfl rfl
  · exact hq (List.mem_singleton.1 (hmine.only q r hr ho))

end

/-- What the first section of `write` leaves its thread. -/
def WriteStep.Ok (me : Thread) (k : CacheKey) (upper : Bool) (s : Shared) : WriteStep → Prop
  | .retry | .accepted => s.Free me
  | .construct => s.Mine me .constructing [k] ∧ s.bitmap k = upper

theorem Cache.reserve_constructing {c' : Cache} (hwf : c.Wf) (hf : c.Free me)
    (hk : c.pages k = none) (hx : Excl s me k) (hr : c.reserve cfg me k true = some c') :
    Moves s me c c' ∧ c'.Mine me .constructing [k] := by
  have hnew := (reserve_some hwf hk hr).2.1
  refine ⟨reserve_moves hwf hk hr (.construct hx rfl rfl rfl), ?_, ?_⟩
  · intro q hq
    rw [List.mem_singleton.1 hq]
    exact ⟨_, hnew, rfl, rfl⟩
  intro q r hqr ho
  by_cases hq : q = k
  · exact List.mem_singleton.2 hq
  · exact absurd ho (hf q r (reserve_old hwf hk hr hq hqr))

theorem writeStep_spec (lo hi : Nat) (buf : Nat → Byte) {upper : Bool} (hme : me = .front n)
    (hinv : Inv cfg s) (hx : Excl s me k) (hf : s.Free me) (hu : s.bitmap k = upper) :
    Keeps cfg me s (writeStep cfg me k lo hi buf upper s).2 ∧
      (writeStep cfg me k lo hi buf upper s).1.Ok me k upper
        (writeStep cfg me k lo hi buf upper s).2 := by
  cases hp : s.pages k with
  | some p =>
    have hkey := hinv.key k
    rw [hp] at hkey
    cases hs : p.state with
    | dirty =>
      simp only [writeStep, hp, hs]
      refine accept_dirty hme hinv hx hf hp hs ?_
      rw [hkey.content (.inr (.inl hs))]
      rfl
    | clean =>
      simp only [writeStep, hp, hs]
      split
      · exact ⟨.refl hinv, hf⟩
      refine accept_clean (m := .write k lo hi buf) hme hinv hx hf hp hs ?_
      rw [Mutation.apply, show s.logical (Mutation.write k lo hi buf).key = p.content from
        (hkey.content (.inl hs)).symm]
      simp [CachePage.content, (PageOk.clean hkey hs).data]
    | _ =>
      simp only [writeStep, hp, hs]
      exact ⟨.refl hinv, hf⟩
  | none =>
    simp only [writeStep, hp]
    split
    · exact ⟨.refl hinv, hf⟩
    split
    · exact ⟨.refl hinv, hf⟩
    next c hr =>
      obtain ⟨hm, hmine⟩ := Cache.reserve_constructing hinv.wf hf hp hx hr
      obtain ⟨p, hcp, ho, hs⟩ := hmine.page k (List.mem_singleton_self k)
      simp only [hcp]
      have hfill : Moves s me c
          (c.setPage k { p with data := some zeroBlock, fresh := !upper }) := by
        refine .single (hm.wf.setPage hcp rfl rfl) rfl ?_
        rw [hcp]
        exact .fill ho (.inr hs) rfl rfl rfl rfl
      exact ⟨(hm.trans hfill).keeps hinv, hmine.fill hcp rfl rfl rfl, hu⟩

variable {lo hi : Nat} {buf : Nat → Byte}

theorem writeStep_frame {upper : Bool} :
    (writeStep cfg me k lo hi buf upper s).2.stripes = s.stripes ∧
      (writeStep cfg me k lo hi buf upper s).2.pending = s.pending := by
  unfold writeStep
  repeat' split
  all_goals exact ⟨rfl, rfl⟩

theorem zeroStep_frame : (zeroStep cfg me k s).2.stripes = s.stripes ∧
    (zeroStep cfg me k s).2.pending = s.pending := by
  unfold zeroStep
  repeat' split
  all_goals exact ⟨rfl, rfl⟩

theorem publishWrite_frame {blk : Block} : (publishWrite k blk lo hi buf s).stripes = s.stripes ∧
      (publishWrite k blk lo hi buf s).pending = s.pending := by
  unfold publishWrite
  split <;> exact ⟨rfl, rfl⟩

/-- The payload a write was merged into is the contents of the block, or the
write covers the block. -/
theorem publishWrite_spec {blk : Block} (hme : me = .front n)
    (hinv : Inv cfg s) (hx : Excl s me k) (hm : s.Mine me .constructing [k])
    (hb : blk.merge k.block lo hi buf = (s.logical k).merge k.block lo hi buf) :
    Keeps cfg me s (publishWrite k blk lo hi buf s) ∧ (publishWrite k blk lo hi buf s).Free me := by
  obtain ⟨p, hp, ho, hs⟩ := hm.page k (List.mem_singleton_self k)
  simp only [publishWrite, hp]
  refine accept_constructed hme hinv hx (.refl hinv.wf) hm hb ?_
  intro r hr
  cases hp.symm.trans hr
  rw [hs, ho]
  exact ⟨nofun, fun u hu => (Option.some.inj hu).symm⟩

theorem zeroStep_spec (hme : me = .front n) (hinv : Inv cfg s) (hx : Excl s me k) (hf : s.Free me) :
    Keeps cfg me s (zeroStep cfg me k s).2 ∧ (zeroStep cfg me k s).2.Free me := by
  cases hp : s.pages k with
  | some p =>
    cases hs : p.state with
    | dirty =>
      simp only [zeroStep, hp, hs]
      exact accept_dirty hme hinv hx hf hp hs rfl
    | clean =>
      simp only [zeroStep, hp, hs]
      split
      · exact ⟨.refl hinv, hf⟩
      · exact accept_clean (m := .zero k) hme hinv hx hf hp hs rfl
    | _ =>
      simp only [zeroStep, hp, hs]
      exact ⟨.refl hinv, hf⟩
  | none =>
    simp only [zeroStep, hp]
    split
    · exact ⟨.refl hinv, hf⟩
    split
    · exact ⟨.refl hinv, hf⟩
    next c hr =>
      obtain ⟨hm, hmine⟩ := Cache.reserve_constructing hinv.wf hf hp hx hr
      obtain ⟨p, hcp, -, -⟩ := hmine.page k (List.mem_singleton_self k)
      simp only [hcp]
      refine accept_constructed hme hinv hx hm hmine rfl fun r hr => ?_
      cases hp.symm.trans hr

end Accept

/-! ## Synchronous discards -/

/-- The pages of a thread are frozen for a discard of `ks`. -/
structure Cache.Dropping (c : Cache) (me : Thread) (ks : List CacheKey) : Prop where
  only : ∀ k p, c.pages k = some p → p.owner = some me → k ∈ ks
  page : ∀ k ∈ ks, ∀ p, c.pages k = some p → p.owner = some me ∧ p.state = .discarding

theorem Cache.Dropping.idle {c : Cache} {me : Thread} {ks : List CacheKey} {k : CacheKey}
    (h : c.Dropping me ks) (hk : k ∈ ks) : Idle (c.pages k) := by
  intro p hp
  rw [(h.page k hk p hp).2]
  exact ⟨nofun, nofun⟩

section Discard

variable {cfg : Config} {s : Shared} {me : Thread} {c : Cache} {k : CacheKey} {ks : List CacheKey}

theorem Cache.foldl_freezeDiscard_pages (ks : List CacheKey) (c : Cache) (q : CacheKey) :
    (ks.foldl (freezeDiscard me) c).pages q =
      if q ∈ ks then (c.pages q).map fun p => { p with state := .discarding, owner := some me }
      else c.pages q := by
  induction ks generalizing c with
  | nil => rfl
  | cons k ks ih =>
    have hhead : (freezeDiscard me c k).pages q = if q = k then (c.pages q).map fun p =>
        { p with state := .discarding, owner := some me } else c.pages q := by
      cases hp : c.pages k with
      | none =>
        by_cases hq : q = k
        · subst hq
          simp [freezeDiscard, hp]
        · simp [freezeDiscard, hp, hq]
      | some p =>
        rw [freezeDiscard_eq hp]
        by_cases hq : q = k
        · subst hq
          simp [hp]
        · simp [hq]
    rw [List.foldl_cons, ih, hhead]
    by_cases hq : q = k
    · simp [hq, Option.map_map, Function.comp_def]
    · simp [hq]

theorem Cache.Wf.foldl_freezeDiscard (hwf : c.Wf) (ks : List CacheKey) :
    (ks.foldl (Cache.freezeDiscard me) c).Wf := by
  induction ks generalizing c with
  | nil => exact hwf
  | cons k ks ih => exact ih (hwf.freezeDiscard me k)

theorem Cache.discardStep_spec (hwf : c.Wf) (hf : c.Free me) (hx : ∀ k ∈ ks, Excl s me k) :
    Moves s me c (discardStep me ks c).2 ∧
      if (discardStep me ks c).1 then (discardStep me ks c).2.Dropping me ks
      else (discardStep me ks c).2.Free me := by
  unfold discardStep
  split
  · exact ⟨.refl hwf, hf⟩
  next hw =>
    have hstate : ∀ k ∈ ks, ∀ p, c.pages k = some p → p.state = .clean ∨ p.state = .dirty := by
      intro k hk p hp
      simp only [List.any_eq_true, not_exists, not_and, Bool.not_eq_true] at hw
      have := hw k hk
      simp only [discardWaits, hp, Bool.and_eq_false_iff, bne_eq_false_iff_eq] at this
      exact this
    refine ⟨⟨hwf.foldl_freezeDiscard ks, fun q => ?_⟩, ?_, ?_⟩
    · rw [foldl_freezeDiscard_pages]
      split
      next hq =>
        cases hp : c.pages q with
        | none => exact .refl
        | some p => exact .single (.discard (hx q hq) (hstate q hq p hp))
      · exact .refl
    · intro q p hp ho
      rw [foldl_freezeDiscard_pages] at hp
      split at hp
      · assumption
      · exact absurd ho (hf q p hp)
    · intro q hq p hp
      rw [foldl_freezeDiscard_pages, if_pos hq, Option.map_eq_some_iff] at hp
      obtain ⟨r, -, rfl⟩ := hp
      exact ⟨rfl, rfl⟩

/-- The backend stores a block, or drops its payload. -/
def Shared.store (me : Thread) (k : CacheKey) (blk : Block) (data : Bool) (s : Shared) : Shared :=
  { s with
    backend := Function.update s.backend k blk
    mapped := Function.update s.mapped k data
    applied := ⟨k, blk, me⟩ :: s.applied }

/-- The backend stores the logical contents of a block, for a thread with its
stripe while no mutation waits in the cache. -/
theorem store_keeps {blk : Block} (data : Bool) (hdata : data = false → blk = zeroBlock)
    (hi : Inv cfg s) (hx : Excl s me k)
    (hid : Idle (s.pages k)) (hb : blk = s.logical k)
    (hu : ∀ d, me = .material d → ∀ m ∈ s.history, m.key ≠ k) :
    Keeps cfg me s (s.store me k blk data) := by
  have hself : (s.store me k blk data).backend k = blk := Function.update_self ..
  have hother : ∀ {q}, q ≠ k → (s.store me k blk data).backend q = s.backend q :=
    fun hq => Function.update_of_ne hq ..
  have hmapped : ∀ {q}, q ≠ k → (s.store me k blk data).mapped q = s.mapped q :=
    fun hq => Function.update_of_ne hq ..
  have hne : ∀ {q}, ¬Excl s me q → q ≠ k := by
    rintro q hq rfl
    exact hq hx
  constructor
  · refine { hi with key := fun q => ?_ }
    refine (hi.key q).frame rfl (fun h => ?_) rfl fun _ _ _ _ => ⟨id, id⟩
    by_cases hq : q = k
    · subst hq
      exact hself.trans hb
    · exact (hother hq).trans h
  · refine { Guar.refl me s with
      steady := fun _ q p hp hs => ?_
      held := fun q hq => ⟨rfl, rfl, fun h => ⟨h, hother (hne hq)⟩⟩
      payload := fun q hq => by rw [Shared.payload, hmapped (hne hq)]; rfl
      blank := fun q h hm => ?_
      applied :=
        ⟨[⟨k, blk, me⟩], rfl, ?_, fun q hq => hother (hq _ (List.mem_singleton_self _)).symm⟩ }
    · have hqk : q ≠ k := by
        rintro rfl
        exact absurd hs (hid p hp).2
      exact ⟨hother hqk, hmapped hqk⟩
    · by_cases hq : q = k
      · subst hq
        exact hself.trans (hdata ((Function.update_self ..).symm.trans hm))
      · rw [hother hq]
        exact h ((hmapped hq).symm.trans hm)
    · intro e he
      rw [List.mem_singleton.1 he]
      exact ⟨rfl, hself, hb, hu⟩

/-- A frontend discard is applied, and accepted with that. -/
theorem applyDiscard_keeps {n : Nat} (hme : me = .front n) (hi : Inv cfg s) (hx : Excl s me k)
    (hpage : ∀ p, s.pages k = some p → p.owner = some me ∧ p.state = .discarding) :
    Keeps cfg me s (applyDiscard me k true s) := by
  have hlog : ∀ {q}, q ≠ k → (applyDiscard me k true s).logical q = s.logical q := by
    intro q hq
    exact contents_cons_of_ne hq
  have hself : (applyDiscard me k true s).logical k = zeroBlock :=
    contents_cons_self (m := .zero k)
  have hstored : Stored (applyDiscard me k true s) k :=
    (Function.update_self ..).trans hself.symm
  have hback : ∀ {q}, q ≠ k → (applyDiscard me k true s).backend q = s.backend q :=
    fun hq => Function.update_of_ne hq ..
  have hmapped : ∀ {q}, q ≠ k → (applyDiscard me k true s).mapped q = s.mapped q :=
    fun hq => Function.update_of_ne hq ..
  have hne : ∀ {q}, ¬Excl s me q → q ≠ k := by
    rintro q hq rfl
    exact hq hx
  have hpend : ∀ {q}, q ≠ k → (applyDiscard me k true s).pending q = s.pending q :=
    fun hq => Function.update_of_ne hq ..
  have hpself : (applyDiscard me k true s).pending k = some me := Function.update_self ..
  constructor
  · refine { hi with
      key := fun q => ?_
      lower := fun q hq hn => ?_
      pending := fun q t ht => ?_
      mutated := fun m hm => ?_ }
    · by_cases hq : q = k
      · subst hq
        change KeyOk (applyDiscard me q true s) q (s.pages q)
        have hkey := hi.key q
        cases hp : s.pages q with
        | none => exact fun _ => hstored
        | some p =>
          obtain ⟨ho, hs⟩ := hpage p hp
          rw [hp] at hkey
          simp only [KeyOk, PageOk, hs]
          exact ⟨⟨me, ho, hx⟩, (PageOk.discarding hkey hs).upper, fun _ => hstored⟩
      · exact (hi.key q).frame rfl (fun h => (hback hq).trans (h.trans (hlog hq).symm)) (hlog hq)
          fun _ _ _ _ => ⟨id, id⟩
    · have hne : q ≠ k := by
        rintro rfl
        rw [hpself] at hn
        cases hn
      rw [hlog hne]
      exact hi.lower q hq ((hpend hne).symm.trans hn)
    · by_cases hq : q = k
      · subst hq
        rw [hpself] at ht
        cases ht
        exact hx
      · exact hi.pending q t ((hpend hq).symm.trans ht)
    · by_cases hq : m.key = k
      · right
        rw [hq, hpself]
        exact Option.some_ne_none me
      · rcases List.mem_cons.1 hm with rfl | hm
        · exact absurd rfl hq
        · rw [hpend hq]
          exact hi.mutated m hm
  · refine { Guar.refl me s with
      steady := fun _ q p hp hs => ?_
      held := fun q hq => ⟨hlog (hne hq), rfl, fun h => ⟨h, hback (hne hq)⟩⟩
      payload := fun q hq => by rw [Shared.payload, hmapped (hne hq)]; rfl
      blank := fun q h hm => ?_
      pending := fun q u hu => ?_
      history := ⟨[.zero k], rfl, fun _ => ⟨n, hme⟩⟩
      applied :=
        ⟨[⟨k, zeroBlock, me⟩], rfl, ?_, fun q hq => hback (hq _ (List.mem_singleton_self _)).symm⟩ }
    · have hqk : q ≠ k := by
        rintro rfl
        rw [(hpage p hp).2] at hs
        cases hs
      exact ⟨hback hqk, hmapped hqk⟩
    · by_cases hq : q = k
      · subst hq
        exact Function.update_self ..
      · rw [hback hq]
        exact h ((hmapped hq).symm.trans hm)
    · by_cases hq : q = k
      · subst hq
        rw [hpself]
        constructor
        · intro h
          exact absurd (Option.some.inj h).symm hu
        · intro h
          exact absurd (Option.some.inj ((hi.pending q u h).symm.trans hx)) hu
      · rw [hpend hq]
    · intro e he
      rw [List.mem_singleton.1 he]
      refine ⟨rfl, Function.update_self .., hself.symm, fun d hd => ?_⟩
      rw [hme] at hd
      cases hd

theorem foldl_publishDiscard (ks : List CacheKey) (s : Shared) :
    ks.foldl publishDiscard s = { s with
      toCache := ks.foldl Cache.release s.toCache
      bitmap := fun q => if q ∈ ks then true else s.bitmap q
      pending := fun q => if q ∈ ks then none else s.pending q } := by
  induction ks generalizing s with
  | nil => simp
  | cons k ks ih =>
    rw [List.foldl_cons, ih]
    simp only [publishDiscard, List.foldl_cons, List.mem_cons]
    congr 1
    all_goals
      funext q
      by_cases hq : q ∈ ks
      · simp [hq]
      by_cases hqk : q = k
      · subst hqk
        simp
      · simp [hq, hqk]

theorem Cache.foldl_release (hwf : c.Wf) (ks : List CacheKey) : (ks.foldl release c).Wf ∧
      ∀ q, (ks.foldl release c).pages q = if q ∈ ks then none else c.pages q := by
  induction ks generalizing c with
  | nil => exact ⟨hwf, fun _ => rfl⟩
  | cons k ks ih =>
    obtain ⟨hwf', hp⟩ := ih (hwf.release k)
    refine ⟨hwf', fun q => ?_⟩
    rw [List.foldl_cons, hp, release_pages]
    by_cases hq : q = k
    · simp [hq]
    · simp [hq]

/-- The last section of a discard, once the backend dropped every block. -/
theorem publishDiscard_keeps (hi : Inv cfg s) (hx : ∀ k ∈ ks, Excl s me k)
    (hd : s.Dropping me ks) (hst : ∀ k ∈ ks, Stored s k) :
    Keeps cfg me s (ks.foldl publishDiscard s) ∧ (ks.foldl publishDiscard s).Free me := by
  obtain ⟨hwf, hpages⟩ := Cache.foldl_release hi.wf ks
  rw [foldl_publishDiscard]
  have mine : ∀ {q u}, u ≠ me → Excl s u q → q ∉ ks := fun hu hq hk =>
    hu (Option.some.inj (hq.symm.trans (hx _ hk)))
  have up : ∀ {q}, s.bitmap q = true → (if q ∈ ks then true else s.bitmap q) = true := by
    intro q hq
    split
    · rfl
    · exact hq
  refine ⟨⟨⟨hi.exclusive, hwf, fun q => ?_, fun q hq hn => ?_, fun q t ht => ?_, fun m hm => ?_,
    fun d hd b hb => up (hi.detached d hd b hb), hi.borrowed, hi.closed⟩, ?_⟩, ?_⟩
  · rw [hpages]
    by_cases hq : q ∈ ks
    · rw [if_pos hq]
      exact fun _ => hst q hq
    · rw [if_neg hq]
      exact (hi.key q).frame (if_neg hq) id rfl fun _ _ _ _ => ⟨id, id⟩
  · dsimp only at hq hn
    split at hq
    · cases hq
    · rw [if_neg ‹_›] at hn
      exact hi.lower q hq hn
  · dsimp only at ht
    split at ht
    · cases ht
    · exact hi.pending q t ht
  · dsimp only
    by_cases hq : m.key ∈ ks
    · exact .inl (if_pos hq)
    · rw [if_neg hq, if_neg hq]
      exact hi.mutated m hm
  · refine { Guar.refl me s with
      owned := fun q p u hu hp => ?_
      frozen := fun q p hp hs => ?_
      held := fun q hq => ?_
      payload := fun q hq => ?_
      absent := fun q _ hn => ?_
      bitmap := fun q => up
      pending := fun q u hu => ?_
      applied := ⟨[], rfl, nofun, fun _ _ => rfl⟩ }
    · rw [hpages]
      split
      · refine ⟨nofun, fun hqp => ?_⟩
        have := (hd.page q ‹_› p hqp).1
        exact absurd (Option.some.inj (hp.symm.trans this)) hu
      · exact .rfl
    · left
      rw [hpages]
      split
      · have := (hd.page q ‹_› p hp).2
        rw [hs] at this
        cases this
      · exact hp
    · have hqk : q ∉ ks := fun hk => hq (hx q hk)
      refine ⟨rfl, if_neg hqk, fun hid => ⟨?_, rfl⟩⟩
      dsimp only
      rw [hpages, if_neg hqk]
      exact hid
    · rw [Shared.payload]
      dsimp only
      rw [hpages, if_neg fun hk => hq (hx q hk)]
      rfl
    · rw [hpages]
      split
      · rfl
      · exact hn
    · dsimp only
      split
      · refine ⟨nofun, fun h => ?_⟩
        exact absurd ‹_› (mine hu (hi.pending q u h))
      · exact .rfl
  · intro q p hp
    rw [hpages] at hp
    split at hp
    · cases hp
    · intro ho
      exact absurd (hd.only q p hp ho) ‹_›

end Discard

end Sandboxer.Diffstore
