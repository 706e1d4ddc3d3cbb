import Sandboxer.Diffstore.Background

/-! # Linearizability of the disks

Every step of every interleaving of requests, the writeback worker and the
materializers, from freshly attached disks: reads deliver the accepted
mutations over what was there before, frozen pages keep their contents, and
the backend only ever receives the logical contents. -/
namespace Sandboxer.Diffstore
open Lib.Threads

variable {cfg : Config}

/-! ## All threads -/

/-- The state as it would be with the templates of `s`. -/
def Shared.withTemplates (s' s : Shared) : Shared :=
  { s' with materialTemplate := s.materialTemplate, templateClosed := s.templateClosed }

/-- The guarantee of every thread: a materializer may also detach and close its
own template. -/
structure Acts (me : Thread) (s s' : Shared) : Prop where
  guar : Guar me s (s'.withTemplates s)
  template : ∀ d, me ≠ .material d → s'.materialTemplate d = s.materialTemplate d ∧
    s'.templateClosed d = s.templateClosed d

theorem Guar.acts {me : Thread} {s s' : Shared} (h : Guar me s s') : Acts me s s' := by
  refine ⟨?_, fun d _ => h.template d⟩
  have hm : s.materialTemplate = s'.materialTemplate := funext fun d => (h.template d).1.symm
  have hc : s.templateClosed = s'.templateClosed := funext fun d => (h.template d).2.symm
  have hsame : s'.withTemplates s = s' := by
    simp only [Shared.withTemplates, hm, hc]
  rw [hsame]
  exact h

theorem Acts.rely {t u : Thread} {s s' : Shared} (hi : Inv cfg s) (htu : t ≠ u) (h : Acts t s s') :
    Rely u s s' :=
  { h.guar.rely hi htu with
    template := fun d hd => h.template d fun ht => htu (ht.trans hd.symm) }

theorem sound : Sound (Inv cfg) Rely Acts fun _ _ => False where
  compatible _ _ htu _ _ hi _ h := h.rely hi htu
  env_inv _ _ _ h := h.elim
  env_rely _ _ _ _ h := h.elim

/-! ## Detaching a template -/

section Detach

variable {d : Nat}

/-- Every template block is present when the pointer is cleared. -/
theorem detach_safe {t : Template} (ht : (cfg.disk d).template = some t) :
    Sat (Inv cfg) (Rely (.material d)) (Acts (.material d)) (Filled cfg d t.blocks)
      (Prog.change fun s => { s with
        materialTemplate := Function.update s.materialTemplate d false })
      fun _ s => s.materialTemplate d = false := by
  have : Firm (Inv cfg) (Rely (.material d)) fun s => s.materialTemplate d = false :=
    ⟨fun s s' _ _ h hr => (hr.template d rfl).1.trans h⟩
  refine .change fun s hi hs => ?_
  refine ⟨{ hi with
    key := fun k => (hi.key k).frame rfl id rfl fun _ _ _ _ => ⟨id, id⟩
    detached := fun d' hd b hb => ?_
    closed := fun d' hd => ?_ }, ⟨.refl _ s, fun d' hd => ⟨?_, rfl⟩⟩, Function.update_self ..⟩
  · by_cases hdd : d' = d
    · subst hdd
      refine hs.present b ?_ hb
      by_contra hge
      simp only [DiskConfig.templateKind, ht, if_neg hge, ne_eq, not_true] at hb
    · exact hi.detached d' ((Function.update_of_ne hdd ..).symm.trans hd) b hb
  · by_cases hdd : d' = d
    · subst hdd
      exact Function.update_self ..
    · exact (Function.update_of_ne hdd ..).trans (hi.closed d' hd)
  · refine Function.update_of_ne ?_ ..
    rintro rfl
    exact hd rfl

theorem closeTemplate_safe :
    Sat (Inv cfg) (Rely (.material d)) (Acts (.material d)) (fun s => s.materialTemplate d = false)
      (closeTemplate d) fun _ _ => True := by
  refine .atomic ?_
  rintro s _ _ hi hs ⟨hnone, rfl⟩
  refine ⟨{ hi with
    key := fun k => (hi.key k).frame rfl id rfl fun _ _ _ _ => ⟨id, id⟩
    borrowed := fun d' t ht => ?_
    closed := fun d' hd => ?_ }, ⟨.refl _ s, fun d' hd => ⟨rfl, ?_⟩⟩, trivial⟩
  · by_cases hdd : d' = d
    · subst hdd
      rw [show s.materialReaders d' t = false from hnone t] at ht
      cases ht
    · exact (Function.update_of_ne hdd ..).trans (hi.borrowed d' t ht)
  · by_cases hdd : d' = d
    · subst hdd
      exact hs
    · exact hi.closed d' ((Function.update_of_ne hdd ..).symm.trans hd)
  · refine Function.update_of_ne ?_ ..
    rintro rfl
    exact hd rfl

theorem runMaterializer_safe (fuel window : Nat) :
    Sat (Inv cfg) (Rely (.material d)) (Acts (.material d)) (Between cfg d 0)
      (runMaterializer cfg (.material d) fuel d window) fun _ _ => True := by
  unfold runMaterializer
  split
  · exact .stop
  next t ht =>
    refine ((materializeContents_safe fuel fuel 0 ht).weaken fun _ _ h => h.acts).bind fun ok =>
      Sat.ite (fun hok => ?_) fun _ => .stop
    exact ((detach_safe ht).pre fun s _ hs => hs.2 hok).bind fun _ => closeTemplate_safe

end Detach

/-! ## Requests -/

section Requests

variable {me : Thread} {n : Nat}

theorem runOp_safe (hme : me = .front n) (fuel : Nat) (op : Op) :
    Safe cfg me (Rest me .none fun _ => True) (runOp cfg me fuel op)
      fun _ => Rest me .none fun _ => True := by
  cases op with
  | read d lo hi =>
    refine .bind ((readRange_safe none fuel fuel lo _).pre fun s _ hs =>
      hs.knows nofun) fun _ => .skip
  | view d lo hi =>
    refine (Sat.look Guar.inert
      fun s _ hs => hs.knows (fun v hv b hb => ?_)).bind fun v =>
      (readRange_safe (some v) fuel fuel lo _).bind fun _ => .skip
    cases hv
    exact hb
  | write d lo hi buf => exact .ite (fun _ => .skip) fun _ => writeAt_safe hme buf fuel fuel lo
  | discard d offset length =>
    exact .ite (fun _ => .skip) fun _ => discardAt_safe hme fuel offset length

theorem runOps_safe (hme : me = .front n) (fuel : Nat) (ops : List Op) :
    Safe cfg me (Rest me .none fun _ => True) (runOps cfg me fuel ops) fun _ _ => True := by
  induction ops with
  | nil => exact .halt
  | cons op ops ih => exact (runOp_safe hme fuel op).bind fun _ => ih

end Requests

/-! ## Attached disks -/

section Attached

variable {bitmap mapped : CacheKey → Bool} {backend : CacheKey → Block}

theorem attached_inv : Inv cfg (attached cfg bitmap backend mapped) where
  exclusive _ _ _ h := nomatch h
  wf := {
    keys := List.nodup_nil
    mem := fun k => by simp [attached]
    clean := ⟨List.nodup_nil, nofun⟩
    dirty := ⟨List.nodup_nil, nofun⟩
    clients := fun _ => rfl }
  key k h := (if_pos h).symm
  lower k hb _ := if_neg (by rw [show bitmap k = false from hb]; nofun)
  pending _ _ h := nomatch h
  mutated _ h := nomatch h
  detached d hd b hb := by
    have hnone : (cfg.disk d).template = none := by simpa [attached] using hd
    simp [DiskConfig.templateKind, hnone] at hb
  borrowed _ _ h := nomatch h
  closed _ h := nomatch h

theorem attached_at (me : Thread) :
    Rest me .none (fun _ => True) (attached cfg bitmap backend mapped) :=
  ⟨⟨⟨fun _ _ => ⟨nofun, nofun⟩, fun _ _ => rfl⟩, nofun⟩, nofun, trivial⟩

/-- The pool of freshly attached disks. -/
def start (cfg : Config) (bitmap : CacheKey → Bool) (backend : CacheKey → Block)
    (mapped : CacheKey → Bool) (ld : Load) : Pool Shared Thread :=
  ⟨attached cfg bitmap backend mapped, code cfg ld⟩

theorem start_covered (ld : Load) (t : Thread) :
    Covered (Inv cfg) (Rely t) (Acts t) (start cfg bitmap backend mapped ld).shared
      ((start cfg bitmap backend mapped ld).code t) := by
  cases t with
  | front n =>
    exact ⟨_, attached_at _, Ours.firm.stable,
      (runOps_safe rfl ld.fuel (ld.ops n)).weaken fun _ _ h => h.acts⟩
  | worker =>
    exact ⟨_, trivial, fun _ _ _ _ _ _ => trivial,
      (runWorker_safe ld.fuel).weaken fun _ _ h => h.acts⟩
  | material d =>
    exact ⟨_, ⟨attached_at _, rfl, nofun⟩, Between.firm.stable, runMaterializer_safe ld.fuel _⟩

end Attached

/-! ## Results -/

section Results

variable {bitmap mapped : CacheKey → Bool} {backend : CacheKey → Block} {ld : Load}
  {c c' : Pool Shared Thread} {t : Thread}

/-- Nothing but the threads moves. -/
def NoEnv (_ _ : Shared) : Prop := False

variable (hr : Pool.Reach NoEnv (start cfg bitmap backend mapped ld) c)

include hr in
theorem reach_inv : Inv cfg c.shared :=
  (hr.covered sound attached_inv (start_covered ld)).1

include hr in
theorem reach_acts (hs : Pool.Step NoEnv c (some t) c') : Acts t c.shared c'.shared :=
  hr.guarantee sound hs attached_inv (start_covered ld)

/-- A drained disk: the backend has every present block. -/
theorem Inv.drained {s : Shared} (hi : Inv cfg s) {k : CacheKey} (hd : s.clients k.disk = 0)
    (hb : s.bitmap k = true) : s.backend k = s.logical k := by
  have hkey := hi.key k
  cases hp : s.pages k with
  | none =>
    rw [hp] at hkey
    exact hkey hb
  | some p =>
    rw [hp] at hkey
    have uncharged : p.chargedDirty = false := by
      by_contra hc
      have := hi.wf.clients_pos hp (by simpa using hc)
      omega
    have charged : ¬p.chargedDirty = true := by rw [uncharged]; nofun
    cases hs : p.state with
    | loading => exact (PageOk.loading hkey hs).stored
    | clean => exact (PageOk.clean hkey hs).stored
    | discarding => exact (PageOk.discarding hkey hs).stored uncharged
    | constructing => exact absurd (PageOk.constructing hkey hs).charged charged
    | dirty => exact absurd (PageOk.dirty hkey hs).charged charged
    | writeback => exact absurd (PageOk.writeback hkey hs).charged charged

section Sample

attribute [local semireducible] blockSize maxDiffScratchSize

/-- One disk over a template with one Data block. -/
def sampleConfig : Config where
  capacity := 4
  maxDirty := 2
  disk _ := ⟨8192, none, some ⟨1, fun _ => .data, fun _ => 7⟩, false⟩

/-- One request writes the block behind the template, the next reads the disk. -/
def sampleLoad : Load where
  fuel := 4
  ops n := if n = 0 then [.write 0 4096 8192 fun _ => 9, .read 0 0 8192] else []
  materialPages := 1

def sampleStart : Pool Shared Thread :=
  start sampleConfig (fun _ => false) (fun _ => zeroBlock) (fun _ => false) sampleLoad

/-- Nobody holds a block for writing, and both blocks are present and stored. -/
structure SampleQuiet (s : Shared) : Prop where
  unlocked : ∀ i, (s.stripes 0 i).writer = none
  bitmap : s.bitmap ⟨0, 0⟩ = true ∧ s.bitmap ⟨0, 1⟩ = true
  mapped : s.mapped ⟨0, 0⟩ = true ∧ s.mapped ⟨0, 1⟩ = true
  absent : s.pages ⟨0, 0⟩ = none

/-- The written page is frozen, and the backend has it. -/
structure SampleFrozen (s : Shared) : Prop extends SampleQuiet s where
  frozen : ∃ p, s.pages ⟨0, 1⟩ = some p ∧ p.state = .writeback ∧ p.zero = false

/-- The written page is clean. -/
structure SampleCompleted (s : Shared) : Prop extends SampleQuiet s where
  clean : ∃ p, s.pages ⟨0, 1⟩ = some p ∧ p.state = .clean

/-- The template and the written block are stored, and nothing was read yet. -/
def SampleStored (s : Shared) : Prop := s.history.length = 1 ∧ s.applied.length = 2 ∧ s.reads = []

/-- The read delivered the template and the write. -/
def SampleRead (s : Shared) : Prop := ∃ r, s.reads = [r] ∧ r.bytes 0 = 7 ∧ r.bytes 8191 = 9

theorem sample_run :
    (code sampleConfig sampleLoad (.material 0)).after 9 sampleStart.shared fun _ s =>
    (code sampleConfig sampleLoad (.front 0)).after 7 s fun q s =>
      (code sampleConfig sampleLoad .worker).after 5 s fun w s => SampleFrozen s ∧
        w.after 1 s fun _ s => SampleCompleted s ∧
          q.after 11 s fun q s => SampleStored s ∧ q.after 1 s fun _ s => SampleRead s := by
  -- the locks of both blocks were taken and given back
  have unlocked : ∀ i, ((Function.update (Function.update (Function.update (Function.update
      (fun _ => (⟨none, fun _ => false⟩ : Stripe)) 0 ⟨some (.material 0), fun _ => false⟩)
      0 ⟨none, fun _ => false⟩) 1 ⟨some (.front 0), fun _ => false⟩) 1 ⟨none, fun _ => false⟩ :
        Nat → Stripe) i).writer = none := fun i => by
    simp only [Function.update_apply]
    split_ifs <;> rfl
  -- the materializer stores and marks the block of the template
  refine ⟨false, _, ⟨trivial, rfl⟩, ?_⟩
  refine ⟨(1, .data), _, ⟨⟨by decide, by decide, fun _ _ _ => rfl⟩, rfl⟩, ?_⟩
  refine ⟨false, _, ⟨trivial, rfl⟩, ?_⟩
  refine ⟨_, _, ⟨fun _ => rfl, rfl⟩, ?_⟩
  refine ⟨(), _, ⟨rfl, fun _ => rfl, rfl⟩, ?_⟩
  refine ⟨false, _, ⟨rfl, rfl⟩, ?_⟩
  refine ⟨(), _, rfl, ?_⟩
  refine ⟨(), _, rfl, ?_⟩
  refine ⟨(), _, rfl, ?_⟩
  -- the write is accepted
  refine ⟨false, _, ⟨trivial, rfl⟩, ?_⟩
  refine ⟨(), _, ⟨rfl, fun _ => rfl, rfl⟩, ?_⟩
  refine ⟨false, _, ⟨rfl, rfl⟩, ?_⟩
  refine ⟨.construct, _, rfl, ?_⟩
  refine ⟨false, _, ⟨trivial, rfl⟩, ?_⟩
  refine ⟨(), _, rfl, ?_⟩
  refine ⟨(), _, rfl, ?_⟩
  -- the worker freezes, stores and completes its page
  refine ⟨fun _ => true, _, ⟨trivial, rfl⟩, ?_⟩
  refine ⟨[⟨0, 1⟩], _, rfl, ?_⟩
  refine ⟨false, _, ⟨rfl, rfl⟩, ?_⟩
  refine ⟨false, _, ⟨nofun, rfl⟩, ?_⟩
  refine ⟨(), _, rfl, ⟨⟨unlocked, ⟨rfl, rfl⟩, ⟨rfl, rfl⟩, rfl⟩, _, rfl, rfl, rfl⟩, ?_⟩
  refine ⟨(), _, rfl, ⟨⟨unlocked, ⟨rfl, rfl⟩, ⟨rfl, rfl⟩, rfl⟩, _, rfl, rfl⟩, ?_⟩
  -- the read loads the first block and hits the second
  refine ⟨(), _, ⟨rfl, rfl⟩, ?_⟩
  refine ⟨(), _, ⟨rfl, rfl⟩, ?_⟩
  refine ⟨(true, 8192), _, ⟨(by decide +kernel : (true, 8192) = findRun _ _ _ _ _), rfl⟩, ?_⟩
  refine ⟨false, _, ⟨trivial, rfl⟩, ?_⟩
  refine ⟨.cold [true], _, rfl, ?_⟩
  refine ⟨false, _, ⟨trivial, rfl⟩, ?_⟩
  refine ⟨_, _, ⟨rfl, rfl⟩, ?_⟩
  refine ⟨false, _, ⟨trivial, rfl⟩, ?_⟩
  refine ⟨(), _, rfl, ?_⟩
  refine ⟨false, _, ⟨trivial, rfl⟩, ?_⟩
  refine ⟨.hit _, _, rfl, ?_⟩
  exact ⟨⟨rfl, rfl, rfl⟩, (), _, rfl, _, rfl, rfl, rfl⟩

/-- The worker comes to complete its page, and the request to deliver its window. -/
theorem sample_reaches : (∃ c c', Pool.Reach NoEnv sampleStart c ∧ SampleFrozen c.shared ∧
      Pool.Step NoEnv c (some .worker) c' ∧ SampleCompleted c'.shared) ∧
    ∃ c c', Pool.Reach NoEnv sampleStart c ∧ SampleStored c.shared ∧
      Pool.Step NoEnv c (some (.front 0)) c' ∧ SampleRead c'.shared := by
  have start : Pool.Reach NoEnv sampleStart sampleStart := .refl
  obtain ⟨_, _, hfilled, h⟩ := start.after (t := .material 0) sample_run
  obtain ⟨_, _, hwritten, h⟩ := hfilled.after (t := .front 0) h
  obtain ⟨_, _, hfrozen, hpage, h⟩ := hwritten.after (t := .worker) h
  obtain ⟨_, hcompletes, hclean, -⟩ := Pool.Step.of_after (ι := Thread) (t := .worker) h
  obtain ⟨_, _, hcompleted, -, h⟩ := hfrozen.after (t := .worker) h
  obtain ⟨_, _, hloaded, hstored, h⟩ := hcompleted.after (t := .front 0) h
  obtain ⟨_, hdelivers, hread⟩ := Pool.Step.of_after (ι := Thread) (t := .front 0) h
  exact ⟨⟨_, _, hfrozen, hpage, hcompletes, hclean⟩, _, _, hloaded, hstored, hdelivers, hread⟩

end Sample

/-- The contents of a disk: accepted mutations over the blocks the diff had
when it was attached, over the template, over the base, over zeros. -/
def overlay (cfg : Config) (bitmap : CacheKey → Bool) (backend : CacheKey → Block)
    (history : List Mutation) (d x : Nat) : Byte :=
  (contents (fun k => if bitmap k then backend k else blockOf (cfg.disk k.disk).lowerByte k.block)
    history ⟨d, x / blockSize⟩).at x

include hr in
/-- In every reachable state the keys and dirty counters of the cache are those of its pages, its
lists hold pages of their state, and a page with a mutation the backend lacks is charged. -/
theorem cache_accounted : c.shared.toCache.Wf ∧ ∀ k p, c.shared.pages k = some p →
    p.state = .dirty ∨ p.state = .writeback → p.chargedDirty = true := by
  have hi := reach_inv hr
  refine ⟨hi.wf, fun k p hp hs => ?_⟩
  have hkey := hi.key k
  rw [hp] at hkey
  rcases hs with hs | hs
  · exact (PageOk.dirty hkey hs).charged
  · exact (PageOk.writeback hkey hs).charged

theorem cache_accounted_frozen : ∃ c p, Pool.Reach NoEnv sampleStart c ∧ c.shared.toCache.Wf ∧
    c.shared.pages ⟨0, 1⟩ = some p ∧ p.state = .writeback ∧ p.chargedDirty = true := by
  obtain ⟨⟨c, _, hr, ⟨-, p, hp, hs, -⟩, -⟩, -⟩ := sample_reaches
  obtain ⟨hwf, hcharged⟩ := cache_accounted hr
  exact ⟨c, p, hr, hwf, hp, hs, hcharged _ p hp (.inr hs)⟩

end Results

end Sandboxer.Diffstore
