import Sandboxer.Diffstore.Interleavings

/-! # Reads

A window is read under its stripes. Present blocks come from their pages or,
without one, from the backend, which then has their contents; absent blocks
come from the template or the base, whichever the template pointer says at
that moment. Either way the buffer holds the logical contents when the window
is delivered. -/
namespace Sandboxer.Diffstore
open Lib.Threads

variable {cfg : Config} {me : Thread} {g : Grip} {W : Cache → Prop} {P : Shared → Prop} {d : Nat}

/-! ## Transfers from the backend -/

/-- A value taken from the contents of a held block. -/
theorem Lasting.value {k : CacheKey} (hk : g.Holds k) (blk : Block) :
    Lasting g fun s => blk = s.logical k :=
  Lasting.logical hk fun x => blk = x

theorem readBackend_safe [Owning me g W] (n b : Nat) (blocks : Nat → Block) [Lasting g P]
    (hg : ∀ i < n, g.Holds ⟨d, b + i⟩)
    (hst : ∀ s, Inv cfg s → Ours me g W P s → ∀ i < n, Stored s ⟨d, b + i⟩) :
    Safe cfg me (Ours me g W P) (readBackend d n b blocks) fun r => Ours me g W fun s =>
      P s ∧ ∀ bl, r = some bl → (∀ i < n, bl (b + i) = s.logical ⟨d, b + i⟩) ∧
        ∀ j < b, bl j = blocks j := by
  induction n generalizing b blocks P with
  | zero =>
    refine .pure fun s _ hs => hs.knows ⟨hs.facts, ?_⟩
    intro bl hbl
    cases hbl
    exact ⟨nofun, fun _ _ => rfl⟩
  | succ n ih =>
    refine .attempt ?_ ?_
    · exact .pure fun s _ hs => hs.knows ⟨hs.facts, nofun⟩
    have hblk : ∀ blk : Block, Lasting g fun s => blk = s.logical ⟨d, b⟩ :=
      Lasting.value (hg 0 (Nat.zero_lt_succ n))
    refine (Sat.look (Q := fun blk => Ours me g W fun s => P s ∧ blk = s.logical ⟨d, b⟩) Guar.inert
      fun s hi hs => hs.knows ⟨hs.facts, hst s hi hs 0 (Nat.zero_lt_succ n)⟩).bind fun blk => ?_
    refine (ih (b + 1) _ ?_ ?_).post fun r s _ hs => ?_
    · intro i hi
      rw [Nat.add_right_comm, Nat.add_assoc]
      exact hg (i + 1) (Nat.succ_lt_succ hi)
    · intro s hi hs i hlt
      rw [Nat.add_right_comm, Nat.add_assoc]
      exact hst s hi (hs.knows hs.facts.1) (i + 1) (Nat.succ_lt_succ hlt)
    obtain ⟨⟨hp, hval⟩, hrest⟩ := hs.facts
    refine hs.knows ⟨hp, fun bl hbl => ?_⟩
    obtain ⟨hread, hkept⟩ := hrest bl hbl
    constructor
    · intro i hi
      cases i with
      | zero =>
        rw [Nat.add_zero, hkept b (Nat.lt_succ_self b), Function.update_self]
        exact hval
      | succ i =>
        have := hread i (Nat.lt_of_succ_lt_succ hi)
        rwa [Nat.add_right_comm, Nat.add_assoc] at this
    · intro j hj
      rw [hkept j (Nat.lt_succ_of_lt hj), Function.update_of_ne (Nat.ne_of_lt hj)]

variable {b : Nat}

/-- The thread's reserved pages are published, or given back after a failure. -/
theorem finishCold_safe (rs : List Bool) [Lasting g P] (hg : ∀ i < rs.length, g.Holds ⟨d, b + i⟩)
    (hst : ∀ s, P s → ∀ i < rs.length, Rests s ⟨d, b + i⟩) :
    Safe cfg me (Ours me g (fun c => c.Mine me .loading (reservedKeys d b rs)) P)
      (finishCold d b rs) fun r => Rest me g fun s =>
        P s ∧ ∀ bl, r = some bl → ∀ i < rs.length, bl (b + i) = s.logical ⟨d, b + i⟩ := by
  have giveBack : ∀ {Q : Shared → Prop} [Lasting g Q], (∀ s, Q s → P s) →
      Safe cfg me (Ours me g (fun c => c.Mine me .loading (reservedKeys d b rs)) Q)
        (do Prog.change fun s => { s with toCache := s.releaseRun d b rs }
            pure (none : Option (Nat → Block)))
        fun r => Rest me g fun s =>
          P s ∧ ∀ bl, r = some bl → ∀ i < rs.length, bl (b + i) = s.logical ⟨d, b + i⟩ := by
    intro Q hQ hQP
    refine (Safe.moves fun s hi hs => Cache.releaseRun_spec rs b s.toCache hi.wf hs.pages).bind
      fun _ => ?_
    exact .pure fun s _ hs => hs.knows ⟨hQP s hs.facts, nofun⟩
  refine (readBackend_safe rs.length b _ hg fun s _ hs i hi => (hst s hs.facts i hi).1).bind
    fun r => ?_
  cases r with
  | none => exact (giveBack fun _ h => h).pre fun s _ hs => hs.knows hs.facts.1
  | some bl =>
    have hread : Lasting g fun s => ∀ i, i < rs.length → bl (b + i) = s.logical ⟨d, b + i⟩ :=
      Lasting.on fun i hi => .value (hg i hi) _
    refine .pre (S := Ours me g (fun c => c.Mine me .loading (reservedKeys d b rs)) fun s =>
      P s ∧ ∀ i, i < rs.length → bl (b + i) = s.logical ⟨d, b + i⟩) ?_
      fun s _ hs => hs.knows ⟨hs.facts.1, (hs.facts.2 bl rfl).1⟩
    refine Safe.attempt (giveBack fun _ h => h.1) ?_
    refine (Safe.moves fun s hi hs => Cache.publishRun_spec rs b s.toCache hi.wf hs.pages
      hs.facts.2).bind fun _ => ?_
    refine .pure fun s _ hs => hs.knows ⟨hs.facts.1, fun bl' hbl => ?_⟩
    cases hbl
    exact hs.facts.2

theorem finishEdge_safe {reserved : Bool} [Lasting g P] (hg : g.Holds ⟨d, b⟩)
    (hst : ∀ s, P s → Rests s ⟨d, b⟩) :
    Safe cfg me (Ours me g (fun c => c.Mine me .loading (reservedKeys d b [reserved])) P)
      (finishEdge d b reserved) fun r => Rest me g fun s =>
        P s ∧ ∀ bl, r = some bl → bl b = s.logical ⟨d, b⟩ := by
  cases reserved with
  | true =>
    refine (finishCold_safe [true] ?_ ?_).post fun r s _ hs =>
      hs.knows ⟨hs.facts.1, fun bl hbl => hs.facts.2 bl hbl 0 Nat.zero_lt_one⟩
    · intro i hi
      obtain rfl : i = 0 := by simpa using hi
      exact hg
    · intro s hs i hi
      obtain rfl : i = 0 := by simpa using hi
      exact hst s hs
  | false =>
    have hfree : ∀ s, Ours me g (fun c => c.Mine me .loading (reservedKeys d b [false])) P s →
        Rest me g P s := fun s hs => ⟨hs.at_, hs.pages.free, hs.facts⟩
    refine ((readBackend_safe 1 b _ ?_ ?_).pre fun s _ hs => hfree s hs).post
      fun r s _ hs => hs.knows ⟨hs.facts.1, fun bl hbl => (hs.facts.2 bl hbl).1 0 Nat.zero_lt_one⟩
    · intro i hi
      obtain rfl : i = 0 := by simpa using hi
      exact hg
    · intro s _ hs i hi
      obtain rfl : i = 0 := by simpa using hi
      exact (hst s hs.facts).1

/-! ## Buffers -/

/-- The positions `[pos, stop)` of a buffer were filled with `F`, those before
them are as they were. -/
structure Fills (F : Nat → Byte) (pos stop : Nat) (buf buf' : Nat → Byte) : Prop where
  before : ∀ x < pos, buf' x = buf x
  filled : ∀ x, pos ≤ x → x < stop → buf' x = F x

variable {F buf : Nat → Byte} {pos stop : Nat}

theorem Fills.nil (h : stop ≤ pos) : Fills F pos stop buf buf :=
  ⟨fun _ _ => rfl, fun x hp hs => absurd hs (by omega)⟩

theorem Fills.trans {buf₁ buf₂ : Nat → Byte} {next : Nat} (hn : pos ≤ next)
    (h : Fills F pos next buf buf₁) (h' : Fills F next stop buf₁ buf₂) :
    Fills F pos stop buf buf₂ := by
  constructor
  · intro x hx
    rw [h'.before x (lt_of_lt_of_le hx hn), h.before x hx]
  intro x hp hs
  by_cases hx : x < next
  · rw [h'.before x hx, h.filled x hp hx]
  · exact h'.filled x (by omega) hs

theorem Fills.paste {src : Nat → Byte} (buf : Nat → Byte)
    (h : ∀ x, pos ≤ x → x < stop → src x = F x) :
    Fills F pos stop buf (Diffstore.paste buf pos stop src) := by
  constructor
  · intro x hx
    exact if_neg (by omega)
  · intro x hp hs
    rw [Diffstore.paste, if_pos ⟨hp, hs⟩, h x hp hs]

theorem div_eq_of_mem_block {x : Nat} (hp : pos ≤ x) (hx : x < (pos / blockSize + 1) * blockSize) :
    x / blockSize = pos / blockSize :=
  le_antisymm (Nat.le_of_lt_succ ((Nat.div_lt_iff_lt_mul blockSize_pos).2 hx))
    (Nat.div_le_div_right hp)

/-- The block of a position in a run of `n` whole blocks. -/
theorem run_position {x n : Nat} (ha : pos % blockSize = 0) (hp : pos ≤ x)
    (hx : x < pos + n * blockSize) : ∃ i < n, x / blockSize = pos / blockSize + i := by
  have hpos : pos / blockSize * blockSize = pos := Nat.div_mul_cancel (Nat.dvd_of_mod_eq_zero ha)
  have hlt : x / blockSize < pos / blockSize + n := by
    rw [Nat.div_lt_iff_lt_mul blockSize_pos, Nat.add_mul, hpos]
    exact hx
  have hle : pos / blockSize ≤ x / blockSize := Nat.div_le_div_right hp
  exact ⟨x / blockSize - pos / blockSize, by omega, by omega⟩

/-! ## Reads through the cache -/

/-- The thread has the stripes of the positions `[pos, stop)`. -/
def Grip.Spans (g : Grip) (d pos stop : Nat) : Prop :=
  ∀ x, pos ≤ x → x < stop → g.Holds ⟨d, x / blockSize⟩

theorem Grip.Spans.mono {pos' stop' : Nat} (h : g.Spans d pos stop) (hp : pos ≤ pos')
    (hs : stop' ≤ stop) : g.Spans d pos' stop' :=
  fun x hx hx' => h x (le_trans hp hx) (lt_of_lt_of_le hx' hs)

/-- The blocks of the positions `[pos, stop)` have upper presence `v`. -/
def Presence (v : Bool) (d pos stop : Nat) (s : Shared) : Prop :=
  ∀ x, pos ≤ x → x < stop → s.bitmap ⟨d, x / blockSize⟩ = v

/-- A block of the run `[pos, stop)` contains a position of it. -/
theorem block_mem (hps : pos < stop) (hf : pos / blockSize ≤ b)
    (hl : b ≤ (stop - 1) / blockSize) : ∃ x, pos ≤ x ∧ x < stop ∧ x / blockSize = b := by
  have hbs := blockSize_pos
  refine ⟨max pos (b * blockSize), Nat.le_max_left .., ?_, ?_⟩
  · have := (Nat.le_div_iff_mul_le hbs).1 hl
    omega
  apply Nat.div_eq_of_lt_le
  · exact Nat.le_max_right ..
  have hlt : pos < (b + 1) * blockSize := by
    rw [← Nat.div_lt_iff_lt_mul hbs]
    omega
  have : b * blockSize < (b + 1) * blockSize := by
    rw [Nat.add_mul]
    omega
  omega

theorem Grip.Spans.block (h : g.Spans d pos stop) (hps : pos < stop)
    (hf : pos / blockSize ≤ b) (hl : b ≤ (stop - 1) / blockSize) : g.Holds ⟨d, b⟩ := by
  obtain ⟨x, hp, hs, rfl⟩ := block_mem hps hf hl
  exact h x hp hs

theorem Lasting.found (hps : pos < stop) (hg : g.Spans d pos stop) (r : ReadStep) :
    Lasting g fun s => r.Found d pos stop s := by
  have hfirst : g.Holds ⟨d, pos / blockSize⟩ := hg pos le_rfl hps
  cases r with
  | wait => exact .const True
  | hit blk => exact .value hfirst blk
  | edge reserved => exact .rests hfirst
  | cold rs =>
    refine ⟨fun
      s s' hc ⟨ha, hlen, hst⟩ => ⟨ha, hlen, fun i hi => (Lasting.rests ?_).calm s s' hc (hst i hi)⟩⟩
    exact hg.block hps (Nat.le_add_right _ i) (run_block_le (lt_of_lt_of_le hi hlen))

theorem Presence.block {v : Bool} {s : Shared} (h : Presence v d pos stop s)
    (hps : pos < stop) (hf : pos / blockSize ≤ b) (hl : b ≤ (stop - 1) / blockSize) :
    s.bitmap ⟨d, b⟩ = v := by
  obtain ⟨x, hp, hs, rfl⟩ := block_mem hps hf hl
  exact h x hp hs

/-- Present blocks are read through the cache. -/
theorem cacheRead_safe (fuel pos : Nat) (buf : Nat → Byte) [Lasting g P]
    (hg : g.Spans d pos stop) (hup : ∀ s, P s → Presence true d pos stop s) :
    Safe cfg me (Rest me g P) (cacheRead cfg me d stop fuel pos buf) fun r => Rest me g fun s =>
      P s ∧ ∀ buf', r = some buf' → Fills (s.logicalByte d) pos stop buf buf' := by
  induction fuel generalizing pos buf P with
  | zero => exact .halt
  | succ fuel ih =>
    refine .ite (fun hend => ?_) fun hps => ?_
    · refine .pure fun s _ hs => hs.knows ⟨hs.facts, fun buf' hbuf => ?_⟩
      cases hbuf
      exact .nil hend
    have hps : pos < stop := not_le.1 hps
    have hfirst : g.Holds ⟨d, pos / blockSize⟩ := hg pos le_rfl hps
    -- what was pasted at `[pos, next)` and the rest of the loop
    have rest : ∀ {Q : Shared → Prop} {next : Nat} {src : Nat → Byte} [Lasting g Q],
        (∀ s, Q s → P s ∧ ∀ x, pos ≤ x → x < next → src x = s.logicalByte d x) → pos ≤ next →
        Safe cfg me (Rest me g Q) (cacheRead cfg me d stop fuel next (paste buf pos next src))
          fun r => Rest me g fun s =>
            P s ∧ ∀ buf', r = some buf' → Fills (s.logicalByte d) pos stop buf buf' := by
      intro Q next src hQ hQP hn
      refine (ih next _ (hg.mono hn le_rfl) fun s hs x hx => ?_).post fun r s _ hs => ?_
      · exact hup s (hQP s hs).1 x (le_trans hn hx)
      · obtain ⟨hp, hsrc⟩ := hQP s hs.facts.1
        exact hs.knows ⟨hp, fun buf' hb => .trans hn (.paste buf hsrc) (hs.facts.2 buf' hb)⟩
    refine Safe.attempt (Sat.pure fun s _ hs => hs.knows ⟨hs.facts, nofun⟩) ?_
    have hfound := Lasting.found hps hg
    have howns : ∀ r : ReadStep, Owning me g fun c => r.Owns me d (pos / blockSize) c := fun r => by
      cases r with
      | wait | hit => exact .free
      | cold | edge => exact .mine
    refine (Safe.onCache (V := fun r c => r.Owns me d (pos / blockSize) c)
      (F := fun r s => r.Found d pos stop s) fun s hi hs => ?_).bind fun r => ?_
    · refine readStep_spec hi.wf hi.key hs.pages hps fun b hf hl => ⟨?_, ?_⟩
      · exact hs.at_.holds.2 (hg.block hps hf hl)
      · exact (hup s hs.facts).block hps hf hl
    have hnext : pos ≤ min stop ((pos / blockSize + 1) * blockSize) := by
      have : pos < (pos / blockSize + 1) * blockSize :=
        (Nat.div_lt_iff_lt_mul blockSize_pos).1 (Nat.lt_succ_self _)
      omega
    have hblock : ∀ x, pos ≤ x → x < min stop ((pos / blockSize + 1) * blockSize) →
        x / blockSize = pos / blockSize := fun x hx hx' => div_eq_of_mem_block hx (by omega)
    cases r with
    | wait => exact (ih pos buf hg hup).pre fun s _ hs => hs.knows hs.facts.1
    | hit blk =>
      have := Lasting.value hfirst blk
      refine rest (fun s hs => ⟨hs.1, fun x hx hx' => ?_⟩) hnext
      rw [hs.2, Shared.logicalByte, hblock x hx hx']
    | cold rs =>
      refine .pre (.fact (c := pos % blockSize = 0 ∧ rs.length ≤ (stop - pos) / blockSize)
        fun hrun => ?_) fun s _ hs => ⟨hs, hs.facts.2.1, hs.facts.2.2.1⟩
      have hheld : ∀ i < rs.length, g.Holds ⟨d, pos / blockSize + i⟩ := fun i hi =>
        hg.block hps (Nat.le_add_right _ i) (run_block_le (lt_of_lt_of_le hi hrun.2))
      refine (finishCold_safe rs hheld fun s hs => hs.2.2.2).bind fun r => ?_
      cases r with
      | none => exact .pure fun s _ hs => hs.knows ⟨hs.facts.1.1, nofun⟩
      | some blocks =>
        have hread : Lasting g fun s =>
            ∀ i, i < rs.length → blocks (pos / blockSize + i) = s.logical
              ⟨d, pos / blockSize + i⟩ :=
          Lasting.on fun i hi => .value (hheld i hi) _
        refine .pre
          (rest (Q := fun s => P s ∧ ∀ i, i < rs.length → _)
          (fun s hs => ⟨hs.1, fun x hx hx' => ?_⟩) (Nat.le_add_right _ _))
          fun s _ hs => hs.knows ⟨hs.facts.1.1, hs.facts.2 blocks rfl⟩
        obtain ⟨i, hi, heq⟩ := run_position hrun.1 hx hx'
        rw [runBytes, heq, hs.2 i hi, Shared.logicalByte, heq]
    | edge reserved =>
      refine (finishEdge_safe hfirst fun s hs => hs.2).bind fun r => ?_
      cases r with
      | none => exact .pure fun s _ hs => hs.knows ⟨hs.facts.1.1, nofun⟩
      | some blocks =>
        have := Lasting.value hfirst (blocks (pos / blockSize))
        refine .pre (rest (Q := fun s => P s ∧ blocks (pos / blockSize) = s.logical _)
          (fun s hs => ⟨hs.1, fun x hx hx' => ?_⟩) hnext)
          fun s _ hs => hs.knows ⟨hs.facts.1.1, hs.facts.2 blocks rfl⟩
        rw [runBytes, hblock x hx hx', hs.2, Shared.logicalByte, hblock x hx hx']

/-! ## The layers below -/

section Lower

variable {s : Shared}

/-- Borrowing and returning the template disturbs nobody. -/
theorem setReader_keeps (me : Thread) (d : Nat) (v : Bool) (hi : Inv cfg s)
    (hv : v = true → s.templateClosed d = false) :
    Keeps cfg me s (s.setReader d me v) := by
  have hother : ∀ d' u, u ≠ me →
      (s.setReader d me v).materialReaders d' u = s.materialReaders d' u := by
    intro d' u hu
    by_cases hd : d' = d
    · subst hd
      simp [Shared.setReader, hu]
    · simp [Shared.setReader, hd]
  constructor
  · refine { hi with
      key := fun k => (hi.key k).frame rfl id rfl fun _ _ _ _ => ⟨id, id⟩
      borrowed := fun d' u hu => ?_ }
    by_cases hd : d' = d ∧ u = me
    · obtain ⟨rfl, rfl⟩ := hd
      refine hv ?_
      simpa [Shared.setReader] using hu
    refine hi.borrowed d' u ?_
    by_cases hd' : d' = d
    · have hum : u ≠ me := fun h => hd ⟨hd', h⟩
      rwa [hother d' u hum] at hu
    · simpa [Shared.setReader, hd'] using hu
  · exact { Guar.refl me s with
      borrowed := hother
      applied := ⟨[], rfl, nofun, fun _ _ => rfl⟩ }

theorem setReader_calm {v : Bool} : Calm g s (s.setReader d me v) :=
  ⟨fun _ _ => rfl, fun _ _ => rfl, fun _ _ h => ⟨h, rfl⟩, fun _ h => h⟩

/-- No discard of a block under a stripe of a settled thread is pending. -/
theorem Ours.settled {k : CacheKey} (hs : Ours me g W P s) (hi : Inv cfg s) (hk : g.Holds k) :
    s.pending k = none := by
  cases hp : s.pending k with
  | none => rfl
  | some t =>
    have : t = me := by
      by_contra hne
      exact hi.not_excl (hs.at_.holds.2 hk) hne (hi.pending k t hp)
    exact absurd (this ▸ hp) (hs.at_.settled k)

/-- An absent block under a stripe of a settled thread has the contents below. -/
theorem Ours.lower {k : CacheKey} (hs : Ours me g W P s) (hi : Inv cfg s) (hk : g.Holds k)
    (hb : s.bitmap k = false) : s.logical k = blockOf (cfg.disk k.disk).lowerByte k.block :=
  hi.lower k hb (hs.settled hi hk)

/-- The template pointer was set when the thread looked, or the blocks of the
range are holes of the template. -/
def Below (cfg : Config) (d pos stop : Nat) (template : Bool) : Prop :=
  template = false → ∀ x, pos ≤ x → x < stop → (cfg.disk d).templateKind (x / blockSize) = .hole

/-- Known while the template is borrowed. -/
def Borrowed (me : Thread) (d : Nat) (template : Bool) (A : Shared → Prop) (s : Shared) : Prop :=
  A s ∧ (template = true → s.materialReaders d me = true)

section Borrow

variable {A : Shared → Prop} {template : Bool} [hA : Firm (Inv cfg) (Rely me) A]

instance Borrowed.firm : Firm (Inv cfg) (Rely me) (Borrowed me d template A) :=
  ⟨fun s s' hi hi' h hr => ⟨hA.stable s s' hi hi' h.1 hr, fun ht => (hr.borrowed d).trans (h.2 ht)⟩⟩

theorem readTemplate_safe (hopen : ∀ s, Inv cfg s → A s → s.templateClosed d = false) :
    Safe cfg me A (readTemplate cfg d) fun bytes s => A s ∧ bytes = (cfg.disk d).templateByte := by
  refine .atomic_keep Guar.inert ?_
  rintro s bytes s' hi hs ⟨hb, rfl⟩
  exact ⟨rfl, hb (hopen s' hi hs)⟩

/-- One run of `readLower` delivers what is below the diff. -/
theorem readLowerRun_safe
    (hb : template = false → (cfg.disk d).templateKind (pos / blockSize) = .hole) :
    Safe cfg me (Borrowed me d template A) (readLowerRun cfg d pos template)
      fun bytes s => Borrowed me d template A s ∧
        ∀ x, x / blockSize = pos / blockSize → bytes x = (cfg.disk d).lowerByte x := by
  have base : (cfg.disk d).templateKind (pos / blockSize) = .hole →
      Safe cfg me (Borrowed me d template A) (pure (cfg.disk d).baseByte) fun bytes s =>
        Borrowed me d template A s ∧
          ∀ x, x / blockSize = pos / blockSize → bytes x = (cfg.disk d).lowerByte x := by
    intro hhole
    refine .pure fun s _ hs => ⟨hs, fun x hx => ?_⟩
    rw [DiskConfig.lowerByte, hx, hhole]
  cases template with
  | false => exact base (hb rfl)
  | true =>
    cases hkind : (cfg.disk d).templateKind (pos / blockSize) with
    | hole =>
      simp only [readLowerRun, hkind]
      exact base hkind
    | zero =>
      simp only [readLowerRun, hkind]
      refine .pure fun s _ hs => ⟨hs, fun x hx => ?_⟩
      rw [DiskConfig.lowerByte, hx, hkind]
    | data =>
      simp only [readLowerRun, hkind]
      refine (readTemplate_safe fun s hi hs =>
        hi.borrowed d me (hs.2 rfl)).post fun bytes s _ hs => ⟨hs.1, fun x hx => ?_⟩
      rw [hs.2, DiskConfig.lowerByte, hx, hkind]

theorem readLowerLoop_safe (fuel pos : Nat) (buf : Nat → Byte)
    (hb : Below cfg d pos stop template) :
    Safe cfg me (Borrowed me d template A) (readLowerLoop cfg d template stop fuel pos buf)
      fun r s => Borrowed me d template A s ∧
        ∀ buf', r = some buf' → Fills (cfg.disk d).lowerByte pos stop buf buf' := by
  induction fuel generalizing pos buf with
  | zero => exact .halt
  | succ fuel ih =>
    refine .ite (fun hend => ?_) fun hps => ?_
    · refine .pure fun s _ hs => ⟨hs, fun buf' hbuf => ?_⟩
      cases hbuf
      exact .nil hend
    refine (Sat.choose Guar.inert).bind fun e => .fact fun he => ?_
    refine Safe.attempt (Sat.pure fun s _ hs => ⟨hs, nofun⟩) ?_
    have hpe : pos ≤ e := le_of_lt he.1
    have hfirst := fun ht => hb ht pos le_rfl (not_le.1 hps)
    refine (readLowerRun_safe hfirst).bind fun bytes => .fact fun hbytes => ?_
    refine (ih e _ fun ht x hx => hb ht x (le_trans hpe hx)).post fun r s _ hs =>
      ⟨hs.1, fun buf' hr => .trans hpe (.paste buf fun x hx hxe => ?_) (hs.2 buf' hr)⟩
    exact hbytes x (div_eq_of_mem_block hx (by omega))

end Borrow

variable [Owning me g W] [hP : Lasting g P]

theorem borrowTemplate_safe (hdown : ∀ s, P s → Presence false d pos stop s) :
    Safe cfg me (Ours me g W P) (borrowTemplate me d) fun template s =>
      Borrowed me d template (Ours me g W P) s ∧ Below cfg d pos stop template := by
  refine .exec fun s hi hs => ?_
  cases ht : s.materialTemplate d with
  | true =>
    have hclosed : s.templateClosed d = false := by
      cases hc : s.templateClosed d with
      | false => rfl
      | true =>
        rw [hi.closed d hc] at ht
        cases ht
    have hk := setReader_keeps me d true hi fun _ => hclosed
    refine ⟨hk.inv, hk.guar,
      ⟨⟨hs.at_.frame rfl rfl, hs.pages, hP.calm _ _ setReader_calm hs.facts⟩, ?_⟩, nofun⟩
    intro _
    simp [Shared.setReader]
  | false =>
    refine ⟨hi, .refl me s, ⟨hs, nofun⟩, fun _ x hx hx' => ?_⟩
    by_contra hne
    have hup := hi.detached d ht (x / blockSize) hne
    rw [hdown s hs.facts x hx hx'] at hup
    cases hup

theorem returnTemplate_safe {template : Bool} :
    Safe cfg me (Ours me g W P) (returnTemplate me d template) fun _ => Ours me g W P := by
  refine .change fun s hi hs => ?_
  cases template with
  | true =>
    have hk := setReader_keeps me d false hi nofun
    exact ⟨hk.inv, hk.guar, hs.at_.frame rfl rfl, hs.pages, hP.calm _ _ setReader_calm hs.facts⟩
  | false => exact ⟨hi, .refl me s, hs⟩

/-- Absent blocks are read from the layers below. -/
theorem readLower_safe (fuel : Nat) (buf : Nat → Byte) (hg : g.Spans d pos stop)
    (hdown : ∀ s, P s → Presence false d pos stop s) :
    Safe cfg me (Ours me g W P) (readLower cfg me fuel d pos stop buf) fun r => Ours me g W fun s =>
      P s ∧ ∀ buf', r = some buf' → Fills (s.logicalByte d) pos stop buf buf' := by
  refine (borrowTemplate_safe hdown).bind fun template => .fact fun hb => ?_
  refine (readLowerLoop_safe fuel pos buf hb).bind fun r => ?_
  refine .pre (.fact fun hfill => ?_) fun s _ hs => ⟨hs.1.1, hs.2⟩
  refine returnTemplate_safe.bind fun _ => .pure fun s hi hs =>
    hs.knows ⟨hs.facts, fun buf' hr => ?_⟩
  refine ⟨(hfill buf' hr).before, fun x hx hx' => ?_⟩
  rw [(hfill buf' hr).filled x hx hx', Shared.logicalByte,
    hs.lower hi (hg x hx hx') (hdown s hs.facts x hx hx'), blockOf_at]

end Lower

/-! ## Runs of equal presence -/

theorem presenceRun_spec (bits : Nat → Bool) (upper : Bool) (pos stop n runEnd : Nat)
    (h : ∀ x, pos ≤ x → x < runEnd → bits (x / blockSize) = upper) (hle : runEnd ≤ stop)
    (ha : runEnd < stop → runEnd % blockSize = 0) :
    runEnd ≤ presenceRun bits upper stop n runEnd ∧ presenceRun bits upper stop n runEnd ≤ stop ∧
      ∀ x, pos ≤ x → x < presenceRun bits upper stop n runEnd → bits (x / blockSize) = upper := by
  induction n generalizing runEnd with
  | zero => exact ⟨le_rfl, hle, h⟩
  | succ n ih =>
    unfold presenceRun
    split
    next hc =>
      have hmul : runEnd / blockSize * blockSize = runEnd :=
        Nat.div_mul_cancel (Nat.dvd_of_mod_eq_zero (ha hc.1))
      have hnext : ∀ x, pos ≤ x → x < min (runEnd + blockSize) stop →
          bits (x / blockSize) = upper := by
        intro x hp hx
        by_cases hxe : x < runEnd
        · exact h x hp hxe
        · rw [div_eq_of_mem_block (not_lt.1 hxe) (by rw [Nat.add_mul, hmul]; omega)]
          exact hc.2
      have halign : min (runEnd + blockSize) stop < stop →
          min (runEnd + blockSize) stop % blockSize = 0 := by
        intro hlt
        rw [min_eq_left (by omega), Nat.add_mod_right, ha hc.1]
      obtain ⟨hge, hst, hall⟩ := ih _ hnext (min_le_right ..) halign
      exact ⟨by omega, hst, hall⟩
    · exact ⟨le_rfl, hle, h⟩

/-- The run found at a position: not empty, and of one presence. -/
structure RunOk (view : Option (Nat → Bool)) (d pos stop : Nat) (r : Bool × Nat) (s : Shared) :
    Prop where
  pos_lt : pos < r.2
  le_stop : r.2 ≤ stop
  presence : ∀ x, pos ≤ x → x < r.2 → presence view s d (x / blockSize) = r.1

variable {view : Option (Nat → Bool)}

theorem findRun_spec (hps : pos < stop) (s : Shared) :
    RunOk view d pos stop (findRun view d pos stop s) s := by
  have hpos : pos < (pos / blockSize + 1) * blockSize :=
    (Nat.div_lt_iff_lt_mul blockSize_pos).1 (Nat.lt_succ_self _)
  obtain ⟨hge, hst, hall⟩ := presenceRun_spec (presence view s d)
    (presence view s d (pos / blockSize)) pos stop stop
    (min ((pos / blockSize + 1) * blockSize) stop)
    (fun x hp hx => by rw [div_eq_of_mem_block hp (by omega)]) (min_le_right ..)
    (fun hlt => by rw [min_eq_left (by omega)]; exact Nat.mul_mod_left ..)
  exact ⟨by dsimp only [findRun]; omega, hst, hall⟩

theorem Lasting.runOk {r : Bool × Nat} (hg : g.Spans d pos stop) :
    Lasting g (RunOk view d pos stop r) := by
  refine ⟨fun s s' hc h => ⟨h.pos_lt, h.le_stop, fun x hp hx => ?_⟩⟩
  have := h.presence x hp hx
  cases view with
  | some v => exact this
  | none => exact (Lasting.bitmap (hg x hp (lt_of_lt_of_le hx h.le_stop)) r.1).calm s s' hc this

/-- Blocks of a snapshot view are still present. -/
def Viewed (view : Option (Nat → Bool)) (d : Nat) (s : Shared) : Prop :=
  ∀ v, view = some v → ∀ b, v b = true → s.bitmap ⟨d, b⟩ = true

instance Viewed.lasting : Lasting g (Viewed view d) :=
  ⟨fun _ _ hc h v hv b hb => hc.upper _ (h v hv b hb)⟩

theorem Lasting.fillsExpected {buf' : Nat → Byte}
    (hg : g.Spans d pos stop) : Lasting g fun s => Fills (expected view s d) pos stop buf buf' := by
  refine ⟨fun s s' hc h => ⟨h.before, fun x hp hs => ?_⟩⟩
  have := h.filled x hp hs
  have hl : s'.logicalByte d x = s.logicalByte d x := by
    rw [Shared.logicalByte, hc.logical _ (hg x hp hs), Shared.logicalByte]
  cases view with
  | none => exact this.trans hl.symm
  | some v =>
    simp only [expected, hl]
    exact this

/-! ## Windows -/

section

variable [Lasting g P]

theorem readAbsent_safe (fuel : Nat) (buf : Nat → Byte) (hg : g.Spans d pos stop)
    (hdown : ∀ s, P s → ∀ x, pos ≤ x → x < stop → presence view s d (x / blockSize) = false) :
    Safe cfg me (Rest me g P) (readAbsent cfg me fuel d pos stop view buf) fun r => Rest me g
      fun s =>
      P s ∧ ∀ buf', r = some buf' → Fills (expected view s d) pos stop buf buf' := by
  cases view with
  | some v =>
    refine .pure fun s _ hs => hs.knows ⟨hs.facts, fun buf' hb => ?_⟩
    cases hb
    refine .paste buf fun x hx hx' => ?_
    rw [expected, show v (x / blockSize) = false from hdown s hs.facts x hx hx']
    rfl
  | none =>
    have hlook : Safe cfg me (Rest me g P) (Prog.look fun s => s.materialTemplate d)
        fun m s => Rest me g P s ∧ Below cfg d pos stop m := by
      refine .look Guar.inert fun s hi hs => ⟨hs, fun hm x hx hx' => ?_⟩
      by_contra hne
      have hup := hi.detached d hm (x / blockSize) hne
      rw [show s.bitmap ⟨d, x / blockSize⟩ = false from hdown s hs.facts x hx hx'] at hup
      cases hup
    refine hlook.bind fun m => .fact fun hb => .ite (fun _ => ?_) fun hm => ?_
    · exact readLower_safe fuel buf hg hdown
    refine Safe.attempt ?_ ?_
    · exact .pure fun s _ hs => hs.knows ⟨hs.facts, nofun⟩
    refine .pure fun s hi hs => hs.knows ⟨hs.facts, fun buf' hbuf => ?_⟩
    cases hbuf
    refine .paste buf fun x hx hx' => ?_
    have hhole := hb (by simpa using hm) x hx hx'
    rw [expected, Shared.logicalByte, hs.lower hi (hg x hx hx') (hdown s hs.facts x hx hx'),
      blockOf_at, DiskConfig.lowerByte, hhole]

theorem readRun_safe {upper : Bool} (fuel : Nat) (buf : Nat → Byte) (hg : g.Spans d pos stop)
    (hview : ∀ s, P s → Viewed view d s)
    (hrun : ∀ s, P s → ∀ x, pos ≤ x → x < stop → presence view s d (x / blockSize) = upper) :
    Safe cfg me (Rest me g P) (readRun cfg me fuel d pos stop view upper buf)
      fun r => Rest me g fun s =>
        P s ∧ ∀ buf', r = some buf' → Fills (expected view s d) pos stop buf buf' := by
  refine .ite (fun hup => ?_) fun hup => ?_
  · subst hup
    refine (cacheRead_safe fuel pos buf hg fun s hs x hx hx' => ?_).post fun r s _ hs =>
      hs.knows ⟨hs.facts.1, fun buf' hr => ?_⟩
    · have := hrun s hs x hx hx'
      cases view with
      | none => exact this
      | some v => exact hview s hs v rfl _ this
    · have hfill := hs.facts.2 buf' hr
      refine ⟨hfill.before, fun x hx hx' => ?_⟩
      have := hrun s hs.facts.1 x hx hx'
      rw [hfill.filled x hx hx']
      cases view with
      | none => rfl
      | some v => exact (if_pos this).symm
  · have hup : upper = false := by simpa using hup
    subst hup
    exact readAbsent_safe fuel buf hg hrun

end

theorem readRangeLocked_safe (fuel n pos : Nat) (buf : Nat → Byte) [Lasting g P]
    (hg : g.Spans d pos stop) (hview : ∀ s, P s → Viewed view d s) :
    Safe cfg me (Rest me g P) (readRangeLocked cfg me fuel d view stop n pos buf)
      fun r => Rest me g fun s =>
        P s ∧ ∀ buf', r = some buf' → Fills (expected view s d) pos stop buf buf' := by
  induction n generalizing pos buf P with
  | zero => exact .halt
  | succ n ih =>
    refine .ite (fun hend => ?_) fun hps => ?_
    · refine .pure fun s _ hs => hs.knows ⟨hs.facts, fun buf' hb => ?_⟩
      cases hb
      exact .nil hend
    have hps : pos < stop := not_le.1 hps
    have hok : ∀ r, Lasting g (RunOk view d pos stop r) := fun _ => .runOk hg
    have hlook : Safe cfg me (Rest me g P) (Prog.look (findRun view d pos stop))
        fun r => Rest me g fun s => P s ∧ RunOk view d pos stop r s :=
      Sat.look Guar.inert fun s _ hs => hs.knows ⟨hs.facts, findRun_spec hps s⟩
    refine hlook.bind fun r => ?_
    refine .pre (.fact (c := pos < r.2 ∧ r.2 ≤ stop) fun hr => ?_)
      fun s _ hs => ⟨hs, hs.facts.2.pos_lt, hs.facts.2.le_stop⟩
    have hgr := hg.mono le_rfl hr.2
    refine (readRun_safe fuel buf hgr (fun s hs => hview s hs.1)
      fun s hs => hs.2.presence).bind fun res => ?_
    cases res with
    | none => exact .pure fun s _ hs => hs.knows ⟨hs.facts.1.1, nofun⟩
    | some buf₁ =>
      have hle : pos ≤ r.2 := le_of_lt hr.1
      have : Lasting g fun s => Fills (expected view s d) pos r.2 buf buf₁ := .fillsExpected hgr
      refine .pre ((ih (P := fun s => P s ∧ Fills _ pos r.2 buf buf₁) r.2 buf₁ (hg.mono hle le_rfl)
        fun s hs => hview s hs.1).post fun res s _ hs => hs.knows ⟨hs.facts.1.1, ?_⟩)
        fun s _ hs => hs.knows ⟨hs.facts.1.1, hs.facts.2 buf₁ rfl⟩
      exact fun buf' hb => .trans hle hs.facts.1.2 (hs.facts.2 buf' hb)

/-- The window is recorded while its stripes are held. -/
theorem deliver_safe {lo hi : Nat} {r : Option (Nat → Byte)} [hP : Lasting g P] :
    Safe cfg me (Rest me g fun s => P s ∧ ∀ buf', r = some buf' →
      Fills (expected view s d) lo hi buf buf') (deliver d lo hi view r) fun _ => Rest me g P := by
  cases r with
  | none => exact .pure fun s _ hs => hs.knows hs.facts.1
  | some bytes =>
    refine .change fun s hinv hs => ⟨?_, ?_, ?_⟩
    · exact { hinv with key := fun k => (hinv.key k).frame rfl id rfl fun _ _ _ _ => ⟨id, id⟩ }
    · exact { Guar.refl me s with
        reads := ⟨[⟨d, lo, hi, view, bytes⟩], rfl, fun rec hrec => by
          rw [List.mem_singleton.1 hrec]
          exact (hs.facts.2 bytes rfl).filled⟩
        applied := ⟨[], rfl, nofun, fun _ _ => rfl⟩ }
    · exact ⟨hs.at_.frame rfl rfl, hs.pages, hP.calm s _
        ⟨fun _ _ => rfl, fun _ _ => rfl, fun _ _ h => ⟨h, rfl⟩, fun _ h => h⟩ hs.facts.1⟩

/-- Every window of a read delivers the logical contents. -/
theorem readRange_safe (view : Option (Nat → Bool)) (fuel n pos : Nat) (buf : Nat → Byte) :
    Safe cfg me (Rest me .none (Viewed view d)) (readRange cfg me fuel d view stop n pos buf)
      fun _ => Rest me .none fun _ => True := by
  induction n generalizing pos buf with
  | zero => exact .halt
  | succ n ih =>
    refine .ite (fun _ => ?_) fun hps => ?_
    · exact .pure fun s _ hs => hs.knows trivial
    refine (rlockAll_safe _).bind fun _ => ?_
    refine (readRangeLocked_safe fuel fuel pos buf (fun x hx hx' => ?_) fun s hs => hs).bind
      fun r => ?_
    · have hstripe := (mem_rlockBlockRange_iff (Nat.div_le_div_right (by omega))).2
        ⟨x / blockSize, Nat.div_le_div_right hx, Nat.div_le_div_right (Nat.le_sub_one_of_lt hx'),
          rfl⟩
      exact .inr (by simpa [Grip.reading] using hstripe)
    rw [runlockBlockRange_eq]
    refine deliver_safe.bind fun _ => (runlockAll_safe _).bind fun _ => ?_
    cases r with
    | none => exact .pure fun s _ hs => hs.knows trivial
    | some buf₁ => exact ih _ buf₁

end Sandboxer.Diffstore
