import Sandboxer.Diffstore.Stripes
import Sandboxer.Diffstore.Writeback

/-! # Every interleaving of the cache

Requests, the worker and the materializers keep the invariant and what the
others rely on. The assertions of a thread name the stripes it has (`At`), the
pages it owns, and facts about blocks under its stripes, which last while it
has them (`Lasting`). -/
namespace Sandboxer.Diffstore
open Lib.Threads

/-! ## Stripes of a thread -/

/-- The stripes a thread has for reading and for writing. -/
structure Grip where
  reads : Nat → Nat → Bool
  writes : Nat → Nat → Bool

namespace Grip

def none : Grip := ⟨fun _ _ => false, fun _ _ => false⟩

/-- Read locks on some stripes of a disk. -/
def reading (d : Nat) (p : Nat → Bool) : Grip := ⟨fun d' i => d' == d && p i, fun _ _ => false⟩

def writing (d : Nat) (p : Nat → Bool) : Grip := ⟨fun _ _ => false, fun d' i => d' == d && p i⟩

def Excl (g : Grip) (k : CacheKey) : Prop := g.writes k.disk (k.block % cowLockStripes) = true

def Holds (g : Grip) (k : CacheKey) : Prop :=
  g.Excl k ∨ g.reads k.disk (k.block % cowLockStripes) = true

end Grip

structure Grips (me : Thread) (g : Grip) (s : Shared) : Prop where
  writes : ∀ d i, (s.stripes d i).writer = some me ↔ g.writes d i = true
  reads : ∀ d i, (s.stripes d i).readers me = g.reads d i

/-- The thread has the stripes of `g`, and no discard of its own is pending. -/
structure At (me : Thread) (g : Grip) (s : Shared) : Prop extends Grips me g s where
  settled : ∀ k, s.pending k ≠ some me

section At

variable {cfg : Config} {me : Thread} {g : Grip} {s s' : Shared} {k : CacheKey}

theorem Grips.excl (h : Grips me g s) : Diffstore.Excl s me k ↔ g.Excl k := h.writes _ _

theorem Grips.holds (h : Grips me g s) : Diffstore.Holds s me k ↔ g.Holds k :=
  or_congr h.excl (by rw [Shared.stripe, h.reads])

theorem Grips.rely (h : Grips me g s) (hr : Rely me s s') : Grips me g s' where
  writes d i := (hr.mine d i).1.trans (h.writes d i)
  reads d i := (hr.mine d i).2.trans (h.reads d i)

theorem At.rely (h : At me g s) (hr : Rely me s s') : At me g s' where
  toGrips := h.toGrips.rely hr
  settled k hk := h.settled k ((hr.pending k).1 hk)

theorem Grips.frame (h : Grips me g s) (hs : s'.stripes = s.stripes) : Grips me g s' :=
  ⟨fun d i => by rw [hs]; exact h.writes d i, fun d i => by rw [hs]; exact h.reads d i⟩

/-- Sections that leave the stripes and pending discards. -/
theorem At.frame (h : At me g s) (hs : s'.stripes = s.stripes) (hp : s'.pending = s.pending) :
    At me g s' :=
  ⟨h.toGrips.frame hs, fun k => by rw [hp]; exact h.settled k⟩

end At

/-! ## What lasts -/

/-- Blocks under the stripes of `g` keep their contents and presence, and once
nothing waits in the cache for them their backend contents too. -/
structure Calm (g : Grip) (s s' : Shared) : Prop where
  logical : ∀ k, g.Holds k → s'.logical k = s.logical k
  bitmap : ∀ k, g.Holds k → s'.bitmap k = s.bitmap k
  idle : ∀ k, g.Holds k → Idle (s.pages k) → Idle (s'.pages k) ∧ s'.backend k = s.backend k
  upper : ∀ k, s.bitmap k = true → s'.bitmap k = true

class Lasting (g : Grip) (P : Shared → Prop) : Prop where
  calm : ∀ s s', Calm g s s' → P s → P s'

section Lasting

variable {cfg : Config} {me : Thread} {g : Grip} {s s' : Shared} {k : CacheKey}
    {P Q : Shared → Prop}

theorem Rely.calm (hr : Rely me s s') (h : Grips me g s) : Calm g s s' where
  logical k hk := (hr.held k (h.holds.2 hk)).1
  bitmap k hk := (hr.held k (h.holds.2 hk)).2.1
  idle k hk := (hr.held k (h.holds.2 hk)).2.2
  upper := hr.bitmap

theorem Moves.calm {c : Cache} (h : Moves s me s.toCache c) : Calm g s { s with toCache := c } where
  logical _ _ := rfl
  bitmap _ _ := rfl
  idle k _ hid := ⟨(h.steps k).idle hid, rfl⟩
  upper _ h := h

instance Lasting.const (p : Prop) : Lasting g fun _ => p := ⟨fun _ _ _ h => h⟩

instance Lasting.and [hP : Lasting g P] [hQ : Lasting g Q] : Lasting g fun s => P s ∧ Q s :=
  ⟨fun s s' hc h => ⟨hP.calm s s' hc h.1, hQ.calm s s' hc h.2⟩⟩

theorem Lasting.on {ι : Sort*} {p : ι → Prop} {F : ι → Shared → Prop}
    (h : ∀ i, p i → Lasting g (F i)) :
    Lasting g fun s => ∀ i, p i → F i s :=
  ⟨fun s s' hc hp i hi => (h i hi).calm s s' hc (hp i hi)⟩

theorem Lasting.logical (hk : g.Holds k) (F : Block → Prop) :
    Lasting g fun s => F (s.logical k) := by
  refine ⟨fun s s' hc h => ?_⟩
  rw [hc.logical k hk]
  exact h

theorem Lasting.bitmap (hk : g.Holds k) (v : Bool) : Lasting g fun s => s.bitmap k = v :=
  ⟨fun _ _ hc h => (hc.bitmap k hk).trans h⟩

theorem Lasting.rests (hk : g.Holds k) : Lasting g fun s => Rests s k := by
  refine ⟨fun s s' hc ⟨hst, hid⟩ => ?_⟩
  obtain ⟨hid', hb⟩ := hc.idle k hk hid
  exact ⟨hb.trans (hst.trans (hc.logical k hk).symm), hid'⟩

end Lasting

/-! ## Assertions -/

/-- An assertion on the cache about pages of the thread. -/
class Owning (me : Thread) (g : Grip) (W : Cache → Prop) : Prop where
  rely : ∀ s s' : Shared, Grips me g s → Rely me s s' → W s.toCache → W s'.toCache

/-- What a thread knows: its stripes, its pages, and facts that last. -/
structure Ours (me : Thread) (g : Grip) (W : Cache → Prop) (P : Shared → Prop) (s : Shared) :
    Prop where
  at_ : At me g s
  pages : W s.toCache
  facts : P s

theorem Ours.knows {me : Thread} {g : Grip} {W : Cache → Prop} {P Q : Shared → Prop} {s : Shared}
    (hs : Ours me g W P s) (h : Q s) : Ours me g W Q s := ⟨hs.at_, hs.pages, h⟩

/-- The code keeps the invariant and what the other threads rely on. -/
abbrev Safe (cfg : Config) {α : Type} (me : Thread) (P : Shared → Prop) (p : Prog Shared α)
    (Q : α → Shared → Prop) : Prop :=
  Sat (Inv cfg) (Rely me) (Guar me) P p Q

section Ours

variable {cfg : Config} {me : Thread} {g : Grip} {W : Cache → Prop} {P Q : Shared → Prop}

instance Owning.mine {st : CacheState} {ks : List CacheKey} :
    Owning me g fun c => c.Mine me st ks := by
  refine ⟨fun s s' _ hr h => ?_⟩
  constructor
  · intro k hk
    obtain ⟨p, hp, ho, hs⟩ := h.page k hk
    exact ⟨p, (hr.owned k p ho).2 hp, ho, hs⟩
  · intro k p hp ho
    exact h.only k p ((hr.owned k p ho).1 hp) ho

instance Owning.free : Owning me g fun c => c.Free me :=
  ⟨fun _ _ _ hr h k p hp ho => h k p ((hr.owned k p ho).1 hp) ho⟩

theorem Owning.dropping {ks : List CacheKey} (hx : ∀ k ∈ ks, g.Excl k) :
    Owning me g fun c => c.Dropping me ks := by
  refine ⟨fun s s' ha hr h => ?_⟩
  constructor
  · intro k p hp ho
    exact h.only k p ((hr.owned k p ho).1 hp) ho
  intro k hk p hp
  cases hs : s.pages k with
  | none =>
    rw [hr.absent k (ha.excl.2 (hx k hk)) hs] at hp
    cases hp
  | some q =>
    obtain ⟨ho, hst⟩ := h.page k hk q hs
    rw [(hr.owned k q ho).2 hs] at hp
    cases hp
    exact ⟨ho, hst⟩

instance Ours.firm [hW : Owning me g W] [hP : Lasting g P] :
    Firm (Inv cfg) (Rely me) (Ours me g W P) :=
  ⟨fun s s' _ _ h hr =>
    ⟨h.at_.rely hr, hW.rely s s' h.at_.toGrips hr h.pages,
      hP.calm s s' (hr.calm h.at_.toGrips) h.facts⟩⟩

theorem Guar.inert (s : Shared) (_ : Inv cfg s) : Guar me s s := .refl me s

variable {α : Type} [hP : Lasting g P]

/-- A section of the cache that only moves pages. -/
theorem Safe.onCache {f : Cache → α × Cache} {V : α → Cache → Prop} {F : α → Shared → Prop}
    [∀ a, Owning me g (V a)] [∀ a, Lasting g (F a)]
    (h : ∀ s, Inv cfg s → Ours me g W P s → Moves s me s.toCache (f s.toCache).2 ∧
      V (f s.toCache).1 (f s.toCache).2 ∧ F (f s.toCache).1 { s with toCache := (f s.toCache).2 }) :
    Safe cfg me (Ours me g W P) (Prog.exec (Shared.onCache f))
      fun a => Ours me g (V a) fun s => P s ∧ F a s := by
  refine .exec fun s hi hs => ?_
  obtain ⟨hm, hv, hf⟩ := h s hi hs
  exact ⟨hm.inv hi, hm.guar hi, hs.at_.frame rfl rfl, hv, hP.calm _ _ hm.calm hs.facts, hf⟩

/-- The thread gives up its pages. -/
theorem Safe.moves {f : Cache → Cache}
    (h : ∀ s, Inv cfg s → Ours me g W P s → Moves s me s.toCache (f s.toCache) ∧
      (f s.toCache).Free me) :
    Safe cfg me (Ours me g W P) (Prog.change fun s => { s with toCache := f s.toCache })
      fun _ => Ours me g (fun c => c.Free me) P := by
  refine .change fun s hi hs => ?_
  obtain ⟨hm, hv⟩ := h s hi hs
  exact ⟨hm.inv hi, hm.guar hi, hs.at_.frame rfl rfl, hv, hP.calm _ _ hm.calm hs.facts⟩

/-- A transfer may fail: nothing is known either way. -/
theorem Safe.fails {A : Shared → Prop} [Firm (Inv cfg) (Rely me) A] :
    Safe cfg me A Diffstore.fails fun _ => A :=
  (Sat.choose Guar.inert).post fun _ _ _ h => h.1

theorem Safe.attempt {A : Shared → Prop} [Firm (Inv cfg) (Rely me) A] {p q : Prog Shared α}
    {Q : α → Shared → Prop} (hp : Safe cfg me A p Q) (hq : Safe cfg me A q Q) :
    Safe cfg me A (Diffstore.fails >>= fun failed => if failed then p else q) Q :=
  Safe.fails.bind fun _ => .ite (fun _ => hp) fun _ => hq

end Ours

/-! ## Block locks -/

section Locks

variable {cfg : Config} {me : Thread} {s : Shared} {d i : Nat} {st : Stripe}

theorem setStripe_self : (s.setStripe d i st).stripes d i = st := by
  simp [Shared.setStripe]

theorem setStripe_of_ne {d' i' : Nat} (h : ¬(d' = d ∧ i' = i)) :
    (s.setStripe d i st).stripes d' i' = s.stripes d' i' := by
  by_cases hd : d' = d
  · subst hd
    have hi : i' ≠ i := fun hi => h ⟨rfl, hi⟩
    simp [Shared.setStripe, hi]
  · simp [Shared.setStripe, hd]

/-- A thread without pages or pending discards changes what it has of a stripe. -/
theorem setStripe_keeps (d i : Nat) (st : Stripe) (hi : Inv cfg s) (hf : s.Free me)
    (hp : ∀ k, s.pending k ≠ some me) (hx : ∀ t, st.writer = some t → ∀ u, st.readers u = false)
    (ho : ∀ u, u ≠ me → (st.writer = some u ↔ (s.stripes d i).writer = some u) ∧
      st.readers u = (s.stripes d i).readers u) : Keeps cfg me s (s.setStripe d i st) := by
  have others : ∀ d' i' u, u ≠ me →
      (((s.setStripe d i st).stripes d' i').writer = some u ↔ (s.stripes d' i').writer = some u) ∧
        ((s.setStripe d i st).stripes d' i').readers u = (s.stripes d' i').readers u := by
    intro d' i' u hu
    by_cases h : d' = d ∧ i' = i
    · obtain ⟨rfl, rfl⟩ := h
      rw [setStripe_self]
      exact ho u hu
    · rw [setStripe_of_ne h]
      exact ⟨.rfl, rfl⟩
  have excl : ∀ {k u}, u ≠ me → (Excl (s.setStripe d i st) u k ↔ Excl s u k) :=
    fun hu => (others _ _ _ hu).1
  constructor
  · refine { hi with
      exclusive := fun d' i' t ht => ?_
      key := fun k => ?_
      pending := fun k t ht => ?_ }
    · by_cases h : d' = d ∧ i' = i
      · obtain ⟨rfl, rfl⟩ := h
        rw [setStripe_self] at ht ⊢
        exact hx t ht
      · rw [setStripe_of_ne h] at ht ⊢
        exact hi.exclusive d' i' t ht
    · refine (hi.key k).frame rfl id rfl fun p t hp ht => ?_
      have hu : t ≠ me := fun h => hf k p hp (h ▸ ht)
      exact ⟨(excl hu).2, Or.imp (excl hu).2 fun h => (others _ _ _ hu).2.trans h⟩
    · have hu : t ≠ me := fun h => hp k (h ▸ ht)
      exact (excl hu).2 (hi.pending k t ht)
  · exact { Guar.refl me s with
      stripes := others
      applied := ⟨[], rfl, nofun, fun _ _ => rfl⟩ }

variable {g : Grip}

theorem setStripe_calm : Calm g s (s.setStripe d i st) :=
  ⟨fun _ _ => rfl, fun _ _ => rfl, fun _ _ h => ⟨h, rfl⟩, fun _ h => h⟩

/-- A change to one stripe between two grips. -/
theorem At.setStripe {g' : Grip} (h : At me g s)
    (hw : st.writer = some me ↔ g'.writes d i = true) (hr : st.readers me = g'.reads d i)
    (ho : ∀ d' i', ¬(d' = d ∧ i' = i) → g'.writes d' i' = g.writes d' i' ∧
      g'.reads d' i' = g.reads d' i') :
    At me g' (s.setStripe d i st) := by
  refine ⟨⟨fun d' i' => ?_, fun d' i' => ?_⟩, h.settled⟩
  · by_cases hd : d' = d ∧ i' = i
    · obtain ⟨rfl, rfl⟩ := hd
      rw [setStripe_self]
      exact hw
    · rw [setStripe_of_ne hd, (ho d' i' hd).1]
      exact h.writes d' i'
  · by_cases hd : d' = d ∧ i' = i
    · obtain ⟨rfl, rfl⟩ := hd
      rw [setStripe_self]
      exact hr
    · rw [setStripe_of_ne hd, (ho d' i' hd).2]
      exact h.reads d' i'

variable {P : Shared → Prop}

/-- A thread at rest under some stripes: it owns no page. -/
abbrev Rest (me : Thread) (g : Grip) (P : Shared → Prop) : Shared → Prop :=
  Ours me g (fun c => c.Free me) P

/-- The presence of a block under the thread's stripes. -/
theorem lookBit_safe {k : CacheKey} [Lasting g P] (hk : g.Holds k) :
    Safe cfg me (Rest me g P) (Prog.look fun s => s.bitmap k) fun v => Rest me g fun s => P s ∧
      s.bitmap k = v :=
  have := Lasting.bitmap hk
  Sat.look Guar.inert fun _ _ hs => hs.knows ⟨hs.facts, rfl⟩

variable {p : Nat → Bool}

/-- Two grips on the stripes of a disk that agree off one stripe. -/
theorem Grip.off {d' i' : Nat} {q : Nat → Bool} (h : ¬(d' = d ∧ i' = i))
    (hq : ∀ j, j ≠ i → q j = p j) :
    (Grip.reading d q).reads d' i' = (Grip.reading d p).reads d' i' ∧
      (Grip.writing d q).writes d' i' = (Grip.writing d p).writes d' i' := by
  refine (fun heq => ⟨heq, heq⟩ : (d' == d && q i') = (d' == d && p i') → _) ?_
  by_cases hd : d' = d
  · rw [hq i' fun hi => h ⟨hd, hi⟩]
  · rw [beq_false_of_ne hd, Bool.false_and, Bool.false_and]

section

variable [hP : ∀ g, Lasting g P]

/-- What a thread has of one stripe changes, between two grips. -/
theorem Ours.setStripe {g' : Grip} (hi : Inv cfg s) (hs : Rest me g P s)
    (hx : ∀ t, st.writer = some t → ∀ u, st.readers u = false)
    (ho : ∀ u, u ≠ me → (st.writer = some u ↔ (s.stripes d i).writer = some u) ∧
      st.readers u = (s.stripes d i).readers u)
    (hw : st.writer = some me ↔ g'.writes d i = true) (hr : st.readers me = g'.reads d i)
    (hg : ∀ d' i', ¬(d' = d ∧ i' = i) → g'.writes d' i' = g.writes d' i' ∧
      g'.reads d' i' = g.reads d' i') :
    Inv cfg (s.setStripe d i st) ∧ Guar me s (s.setStripe d i st) ∧
      Rest me g' P (s.setStripe d i st) := by
  have hk := setStripe_keeps d i st hi hs.pages hs.at_.settled hx ho
  exact ⟨hk.inv, hk.guar, hs.at_.setStripe hw hr hg, hs.pages,
    (hP .none).calm _ _ setStripe_calm hs.facts⟩

theorem rlockStripe_safe : Safe cfg me (Rest me (.reading d p) P) (rlockStripe me d i)
      fun _ => Rest me (.reading d fun j => p j || j == i) P := by
  refine .atomic ?_
  rintro s _ _ hi hs ⟨hfree, rfl⟩
  refine hs.setStripe hi (fun t ht => nomatch hfree.symm.trans ht)
    (fun u hu => ⟨.rfl, Function.update_of_ne hu ..⟩) (hs.at_.writes d i)
      (by simp [Grip.reading]) ?_
  exact fun d' i' h => ⟨rfl, (Grip.off h fun j hj => by simp [hj]).1⟩

theorem runlockStripe_safe : Safe cfg me (Rest me (.reading d p) P) (runlockStripe me d i)
      fun _ => Rest me (.reading d fun j => p j && j != i) P := by
  refine .change fun s hi hs => hs.setStripe hi (fun t ht u => ?_)
    (fun u hu => ⟨.rfl, Function.update_of_ne hu ..⟩) (hs.at_.writes d i)
      (by simp [Grip.reading]) ?_
  · by_cases hu : u = me
    · subst hu
      exact Function.update_self ..
    · exact (Function.update_of_ne hu ..).trans (hi.exclusive d i t ht u)
  · exact fun d' i' h => ⟨rfl, (Grip.off h fun j hj => by simp [hj]).1⟩

theorem lockStripe_safe : Safe cfg me (Rest me (.writing d p) P) (lockStripe me d i)
      fun _ => Rest me (.writing d fun j => p j || j == i) P := by
  refine .atomic ?_
  rintro s _ _ hi hs ⟨hfree, hnone, rfl⟩
  refine hs.setStripe hi (fun _ _ => hnone) (fun u hu => ⟨?_, rfl⟩) (by simp [Grip.writing])
    (hs.at_.reads d i) ?_
  · rw [hfree]
    exact ⟨fun h => absurd (Option.some.inj h).symm hu, nofun⟩
  · exact fun d' i' h => ⟨(Grip.off h fun j hj => by simp [hj]).2, rfl⟩

theorem unlockStripe_safe (hp : p i = true) :
    Safe cfg me (Rest me (.writing d p) P) (unlockStripe d i)
      fun _ => Rest me (.writing d fun j => p j && j != i) P := by
  refine .change fun s hi hs => ?_
  have hmine : (s.stripes d i).writer = some me :=
    (hs.at_.writes d i).2 (by simp [Grip.writing, hp])
  refine hs.setStripe hi nofun (fun u hu => ⟨?_, rfl⟩) (by simp [Grip.writing])
    (hs.at_.reads d i) ?_
  · rw [hmine]
    exact ⟨nofun, fun h => absurd (Option.some.inj h).symm hu⟩
  · exact fun d' i' h => ⟨(Grip.off h fun j hj => by simp [hj]).2, rfl⟩

theorem Grip.reading_off (d : Nat) : Grip.reading d (fun _ => false) = Grip.none := by
  simp [Grip.reading, Grip.none]

theorem Grip.writing_off (d : Nat) : Grip.writing d (fun _ => false) = Grip.none := by
  simp [Grip.writing, Grip.none]

section

variable (L : List Nat)

include L

theorem rlockEach_safe : Safe cfg me (Rest me (.reading d p) P) (eachStripe (rlockStripe me d) L)
      fun _ => Rest me (.reading d fun j => p j || L.contains j) P := by
  induction L generalizing p with
  | nil => exact .pure fun s _ hs => by simpa using hs
  | cons i is ih =>
    refine rlockStripe_safe.bind fun _ => ih.post fun _ s _ hs => ?_
    simpa only [List.contains_cons, Bool.or_assoc] using hs

theorem runlockEach_safe :
    Safe cfg me (Rest me (.reading d p) P) (eachStripe (runlockStripe me d) L)
      fun _ => Rest me (.reading d fun j => p j && !L.contains j) P := by
  induction L generalizing p with
  | nil => exact .pure fun s _ hs => by simpa using hs
  | cons i is ih =>
    refine runlockStripe_safe.bind fun _ => ih.post fun _ s _ hs => ?_
    simpa only [List.contains_cons, Bool.not_or, Bool.and_assoc, bne] using hs

theorem lockEach_safe : Safe cfg me (Rest me (.writing d p) P) (eachStripe (lockStripe me d) L)
      fun _ => Rest me (.writing d fun j => p j || L.contains j) P := by
  induction L generalizing p with
  | nil => exact .pure fun s _ hs => by simpa using hs
  | cons i is ih =>
    refine lockStripe_safe.bind fun _ => ih.post fun _ s _ hs => ?_
    simpa only [List.contains_cons, Bool.or_assoc] using hs

theorem unlockEach_safe (hn : L.Nodup) (hp : ∀ i ∈ L, p i = true) :
    Safe cfg me (Rest me (.writing d p) P) (eachStripe (unlockStripe d) L)
      fun _ => Rest me (.writing d fun j => p j && !L.contains j) P := by
  induction L generalizing p with
  | nil => exact .pure fun s _ hs => by simpa using hs
  | cons i is ih =>
    obtain ⟨hni, hn⟩ := List.nodup_cons.1 hn
    refine (unlockStripe_safe (hp i (.head _))).bind fun _ => ?_
    refine (ih hn fun j hj => ?_).post fun _ s _ hs => ?_
    · have hji : j ≠ i := fun h => hni (h ▸ hj)
      simp [hp j (.tail _ hj), hji]
    · simpa only [List.contains_cons, Bool.not_or, Bool.and_assoc, bne] using hs

theorem rlockAll_safe : Safe cfg me (Rest me .none P) (eachStripe (rlockStripe me d) L)
      fun _ => Rest me (.reading d L.contains) P := by
  rw [← Grip.reading_off d]
  simpa only [Bool.false_or] using rlockEach_safe (p := fun _ => false) L

theorem runlockAll_safe : Safe cfg me (Rest me (.reading d L.contains) P)
    (eachStripe (runlockStripe me d) L.reverse) fun _ => Rest me .none P := by
  rw [← Grip.reading_off d]
  simpa only [List.contains_reverse, Bool.and_not_self] using
    runlockEach_safe (p := L.contains) L.reverse

theorem lockAll_safe : Safe cfg me (Rest me .none P) (eachStripe (lockStripe me d) L)
      fun _ => Rest me (.writing d L.contains) P := by
  rw [← Grip.writing_off d]
  simpa only [Bool.false_or] using lockEach_safe (p := fun _ => false) L

end

variable {L : List Nat}

theorem unlockAll_safe (hn : L.Nodup) :
    Safe cfg me (Rest me (.writing d L.contains) P) (eachStripe (unlockStripe d) L.reverse)
      fun _ => Rest me .none P := by
  rw [← Grip.writing_off d]
  simpa only [List.contains_reverse, Bool.and_not_self] using
    unlockEach_safe (p := L.contains) L.reverse (List.nodup_reverse.2 hn) fun i hi => by
      simpa using hi

theorem lockOne_safe : Safe cfg me (Rest me .none P) (lockStripe me d i)
      fun _ => Rest me (.writing d fun j => j == i) P := by
  rw [← Grip.writing_off d]
  simpa only [Bool.false_or] using lockStripe_safe (p := fun _ => false)

theorem unlockOne_safe : Safe cfg me (Rest me (.writing d fun j => j == i) P) (unlockStripe d i)
      fun _ => Rest me .none P := by
  rw [← Grip.writing_off d]
  simpa only [bne, Bool.and_not_self] using
    unlockStripe_safe (p := fun j => j == i) (beq_self_eq_true i)

end

variable {b : Nat} {L : List Nat}

theorem Grip.excl_writing (h : b % cowLockStripes ∈ L) :
    (Grip.writing d L.contains).Excl ⟨d, b⟩ := by
  simpa [Grip.Excl, Grip.writing] using h

theorem Grip.excl_one (h : b % cowLockStripes = i) :
    (Grip.writing d fun j => j == i).Excl ⟨d, b⟩ := by
  simpa [Grip.Excl, Grip.writing] using h

end Locks

end Sandboxer.Diffstore
