import Sandboxer.Uffd.Events

/-! # Every interleaving of the handler

Each goroutine keeps the invariants and what the others rely on: page states
never go back to absent, what a call has seen stays seen, and only the owner of
the tail slot touches its buffer. The functions of the source are taken one
after the other; their assertions are facts about local values, facts that
last (`Lasting`), and ownership of the tail slot (`Own`). -/
namespace Sandboxer.Uffd
open Lib.Threads PageState

variable {cfg : Config}

/-- What lasts whoever moves. -/
structure Onward (s s' : Shared) : Prop where
  absent : ∀ i, s.state.get i ≠ .absent → s'.state.get i ≠ .absent
  seen : ∀ c i, s.seen c i → s'.seen c i

/-- What a thread relies on: the tail slot is left alone while it owns it. -/
structure Rely (me : Thread) (s s' : Shared) : Prop extends Onward s s' where
  tail : s.tail.owner = some me → s'.tail = s.tail

/-- Threads that only ever install pages. -/
def Thread.Installs : Thread → Prop
  | .worker _ | .tail | .caller _ => True
  | .reader | .admission _ => False

structure Guar (cfg : Config) (me : Thread) (s s' : Shared) : Prop extends Onward s s' where
  grow : s.toCore.Grow s'.toCore
  kept : ∀ i p, s.mem i = some p → s'.mem i = some p
  sees : ∀ c i, ¬s.seen c i → s'.seen c i → s'.state.get i = loaded
  tail : ∀ u ≠ me, s.tail.owner = some u → s'.tail = s.tail
  quiet : me.Installs → s.toCore.Quiet cfg s'.toCore

theorem Onward.refl (s : Shared) : Onward s s := ⟨fun _ h => h, fun _ _ h => h⟩

theorem Guar.refl (me : Thread) (s : Shared) : Guar cfg me s s :=
  ⟨.refl s, .refl _, fun _ _ h => h, fun _ _ h h' => absurd h' h, fun _ _ _ => rfl,
    fun _ => .refl _⟩

/-- A section that leaves the core alone. -/
theorem Guar.of_core {me : Thread} {s s' : Shared} (hc : s'.toCore = s.toCore)
    (hs : s'.seen = s.seen) (ht : ∀ u ≠ me, s.tail.owner = some u → s'.tail = s.tail) :
    Guar cfg me s s' where
  absent i h := by rw [hc]; exact h
  seen _ _ h := by rw [hs]; exact h
  grow := by rw [hc]; exact .refl _
  kept i p h := by rw [hc]; exact h
  sees _ _ h h' := absurd (hs ▸ h') h
  tail := ht
  quiet _ := by rw [hc]; exact .refl _

/-- The thread `me` owns the tail slot, and `B` holds of its buffer. -/
def Own (me : Thread) (B : (Nat → Byte) → Prop) (s : Shared) : Prop :=
  s.tail.owner = some me ∧ s.tail.queue = none ∧ B s.tail.buf

/-- An assertion that the other goroutines keep. -/
abbrev Lasting (cfg : Config) (me : Thread) (A : Shared → Prop) : Prop := Firm (Inv cfg) (Rely me) A

section

variable {me : Thread}

instance present_lasting (i : Nat) : Lasting cfg me fun s => s.state.get i ≠ absent :=
  ⟨fun _ _ _ _ h hr => hr.absent i h⟩

instance seen_lasting (c i : Nat) : Lasting cfg me fun s => s.seen c i :=
  ⟨fun _ _ _ _ h hr => hr.seen c i h⟩

variable {B : (Nat → Byte) → Prop} {s s' : Shared}

instance Own.lasting : Lasting cfg me (Own me B) :=
  ⟨fun _ _ _ _ ho hr => by rwa [Own, hr.tail ho.1]⟩

/-- The code keeps the invariants and what the other goroutines rely on. -/
abbrev Safe (cfg : Config) {α : Type} (me : Thread) (P : Shared → Prop) (p : Prog Shared α)
    (Q : α → Shared → Prop) : Prop :=
  Sat (Inv cfg) (Rely me) (Guar cfg me) P p Q

/-- Safe code that needs nothing and of which nothing needs to be known. -/
abbrev Runs (cfg : Config) {α : Type} (me : Thread) (p : Prog Shared α) : Prop :=
  Safe cfg me (fun _ => True) p fun _ _ => True

variable {α : Type} {A : Shared → Prop} [hA : Lasting cfg me A]

theorem Progress.onward (h : Progress cfg s s') : Onward s s' :=
  ⟨h.grow.absent, h.seen⟩

theorem Progress.full (h : Progress cfg s s') (hi : Inv cfg s) : Inv cfg s' where
  core := h.inv
  tail := h.tail ▸ hi.tail
  requests := h.requests ▸ hi.requests
  replies req hr := h.seen _ _ (hi.replies req (h.replies ▸ hr))
  returned c off len hr i ht := h.seen _ _ (hi.returned c off len (h.returned ▸ hr) i ht)

variable {sec : Section Shared α}

theorem Safe.install {F : α → Shared → Prop} [∀ a, Lasting cfg me (F a)]
    (h : ∀ s₀, Inv cfg s₀ → A s₀ →
      Section.Ensures (· = s₀) sec fun a s => Progress cfg s₀ s ∧ F a s) :
    Safe cfg me A (Prog.atomic sec) fun a s => A s ∧ F a s := by
  refine .atomic fun s a s' hi hs hstep => ?_
  obtain ⟨hp, hf⟩ := h s hi hs s a s' rfl hstep
  have hi' := hp.full hi
  refine ⟨hi',
    ⟨hp.onward, hp.grow, hp.quiet.kept, hp.sees, fun _ _ _ => hp.tail, fun _ => hp.quiet⟩, ?_, hf⟩
  exact hA.stable s s' hi hi' hs ⟨hp.onward, fun _ => hp.tail⟩

/-- An installing section of which nothing more needs to be known. -/
theorem Safe.follow
    (h : ∀ s₀, Inv cfg s₀ → A s₀ → Section.Ensures (· = s₀) sec fun _ s => Follows cfg s₀ s) :
    Safe cfg me A (Prog.atomic sec) fun _ => A :=
  (Safe.install fun s₀ hi hs =>
    (h s₀ hi hs).post fun _ _ hf => ⟨hf.progress, trivial⟩).post fun _ _ _ h => h.1

/-- A look at the state, of whose value something is known. -/
theorem Safe.look {f : Shared → α} {F : α → Prop} (h : ∀ s, A s → F (f s)) :
    Safe cfg me A (Prog.look f) fun a s => A s ∧ F a :=
  Sat.look (fun s _ => .refl me s) fun s _ hs => ⟨hs, h s hs⟩

theorem Safe.glance {f : Shared → α} : Safe cfg me A (Prog.look f) fun _ => A :=
  .watch fun s _ => .refl me s

theorem Safe.pick {p : α → Prop} : Safe cfg me A (Prog.choose p) fun a s => A s ∧ p a :=
  Sat.choose fun s _ => .refl me s

theorem Inv.of_core (hi : Inv cfg s) (hc : s'.toCore = s.toCore)
    (ht : s'.tail.Inv cfg) (hq : ∀ req ∈ s'.requests, pageSize ∣ req.offset)
    (hs : s'.seen = s.seen) (hr : s'.replies = s.replies) (hre : s'.returned = s.returned) :
    Inv cfg s' where
  core := by rw [hc]; exact hi.core
  tail := ht
  requests := hq
  replies req h := by rw [hs]; rw [hr] at h; exact hi.replies req h
  returned c off len h := by rw [hs]; rw [hre] at h; exact hi.returned c off len h

/-! ## The tail slot -/

theorem Own.change (hown : Own me B s) (slot : Tail) (hi : Inv cfg s) (ht : slot.Inv cfg) :
    Inv cfg { s with tail := slot } ∧ Guar cfg me s { s with tail := slot } :=
  ⟨hi.of_core rfl ht hi.requests rfl rfl rfl, .of_core rfl rfl fun _ hu ho =>
    absurd (Option.some.inj (ho.symm.trans hown.1)) hu⟩

theorem releaseTail_safe : Safe cfg me (Own me B) releaseTail fun _ _ => True := by
  refine .change fun s hi hs => ?_
  have h := hs.change { s.tail with busy := false, owner := none } hi
    ⟨by simp, fun task h => nomatch hs.2.1.symm.trans h⟩
  exact ⟨h.1, h.2, trivial⟩

theorem takeTail_safe :
    Safe cfg me (fun _ => True) (takeTail me) fun b s => b = true → Own me (fun _ => True) s := by
  refine .atomic fun s b s' hi _ hstep => ?_
  split at hstep
  · obtain ⟨rfl, rfl⟩ := hstep
    exact ⟨hi, .refl _ _, nofun⟩
  next hb =>
    obtain ⟨rfl, rfl⟩ := hstep
    have hfree : s.tail.owner = none := by
      by_contra hne
      exact hb (hi.tail.busy.2 hne)
    have hq : s.tail.queue = none := by
      cases hq : s.tail.queue with
      | none => rfl
      | some task => exact nomatch hfree.symm.trans (hi.tail.queued task hq).1
    refine ⟨hi.of_core rfl ⟨by simp, fun task h => nomatch hq.symm.trans h⟩ hi.requests rfl rfl rfl,
      ?_, fun _ => ⟨rfl, hq, trivial⟩⟩
    exact .of_core rfl rfl fun u _ ho => nomatch hfree.symm.trans ho

theorem tryReserveTail_safe :
    Safe cfg me (fun _ => True) (tryReserveTail me) fun b s => b = true →
      Own me (fun _ => True) s := by
  refine .bind Safe.glance fun closing => ?_
  refine .ite (fun _ => .pure fun s _ h => nofun) fun _ => ?_
  refine .bind takeTail_safe fun b => ?_
  refine .ite (fun hb => ?_) fun _ => .pure fun s _ h => nofun
  refine .bind (Safe.glance.pre fun s _ h => h hb) fun closing => ?_
  refine .ite (fun _ => ?_) fun _ => .pure fun s _ h _ => h
  exact .bind releaseTail_safe fun _ => .pure fun s _ h => nofun

theorem fillTailBuf_safe (length : Nat) (data : Nat → Byte) :
    Safe cfg me (Own me B) (fillTailBuf length data)
      fun _ => Own me fun buf => ∀ k < length, buf k = data k := by
  refine .change fun s hi hs => ?_
  have h := hs.change { s.tail with buf := fun k => if k < length then data k else s.tail.buf k } hi
    ⟨hi.tail.busy, fun task h => nomatch hs.2.1.symm.trans h⟩
  exact ⟨h.1, h.2, hs.1, hs.2.1, fun k hk => if_pos hk⟩

variable {task : TailTask}

theorem sendTail_safe : Safe cfg me (Own me (task.Ok cfg)) (sendTail task) fun _ _ => True := by
  refine .change fun s hi hs => ?_
  simp only [hs.2.1, Option.isSome_none, Bool.false_eq_true, if_false]
  have hbusy := hi.tail.busy
  simp only [hs.1] at hbusy
  have h := hs.change { s.tail with queue := some task, owner := some .tail } hi
    ⟨by simpa using hbusy, fun t h => by cases h; exact ⟨rfl, hs.2.2⟩⟩
  exact ⟨h.1, h.2, trivial⟩

theorem enqueueReservedTail_safe :
    Safe cfg me (Own me (task.Ok cfg)) (enqueueReservedTail task) fun _ _ => True := by
  refine .bind Safe.glance fun _ => ?_
  exact .ite (fun _ => releaseTail_safe) fun _ => sendTail_safe

/-- Reading the tail buffer while owning it. -/
theorem lookBuf_safe : Safe cfg me (Own me B) (Prog.look (·.tail.buf))
    fun buf s => Own me (fun b => b = buf) s ∧ B buf :=
  Sat.look (fun s _ => .refl me s) fun _ _ h => ⟨⟨h.1, h.2.1, rfl⟩, h.2.2⟩

/-! ## Faults -/

/-- A change of flags, queues and requests only. -/
theorem Safe.aside {f : Shared → Shared} (hc : ∀ s, (f s).toCore = s.toCore)
    (ht : ∀ s, (f s).tail = s.tail)
    (hq : ∀ s, Inv cfg s → A s → ∀ req ∈ (f s).requests, pageSize ∣ req.offset)
    (hs : ∀ s, (f s).seen = s.seen) (hr : ∀ s, (f s).replies = s.replies)
    (hre : ∀ s, (f s).returned = s.returned) : Safe cfg me A (Prog.change f) fun _ => A := by
  refine .change fun s hi hs' => ?_
  have hi' : Inv cfg (f s) := hi.of_core (hc s) (by rw [ht]; exact hi.tail)
    (hq s hi hs') (hs s) (hr s) (hre s)
  have hon : Onward s (f s) := ⟨fun i h => by rw [hc]; exact h, fun c i h => by rw [hs]; exact h⟩
  exact ⟨hi', .of_core (hc s) (hs s) fun _ _ _ => ht s,
    hA.stable s _ hi hi' hs' ⟨hon, fun _ => ht s⟩⟩

theorem failRead_safe : Safe cfg me A failRead fun _ => A :=
  Safe.aside (fun _ => rfl) (fun _ => rfl) (fun _ hi _ => hi.requests) (fun _ => rfl)
    (fun _ => rfl) fun _ => rfl

/-- A capture error changes nothing the others look at. -/
theorem invalidateCapture_safe (e : CaptureError) :
    Safe cfg me A (invalidateCapture e) fun _ => A := by
  refine .change fun s hi hs => ?_
  have hf : Follows cfg s { s with captureError := s.captureError.or (some e) } :=
    ⟨{ hi.core with }, ⟨fun _ => rfl, fun _ _ h => h⟩,
      grow_of_state rfl rfl (fun _ h => h) fun _ h => h, rfl, rfl⟩
  have hi' := hf.progress.full hi
  exact ⟨hi', ⟨hf.progress.onward, hf.grow, hf.quiet.kept, hf.progress.sees, fun _ _ _ => rfl,
    fun _ => hf.quiet⟩, hA.stable s _ hi hi' hs ⟨hf.progress.onward, fun _ => rfl⟩⟩

theorem retry_safe {attempt : Prog Shared (Option α)} {F : α → Prop}
    (h : Safe cfg me A attempt fun r s => A s ∧ ∀ a, r = some a → F a) (fuel : Nat) :
    Safe cfg me A (retry attempt fuel) fun r s => A s ∧ ∀ a, r = some a → F a := by
  induction fuel with
  | zero => exact .halt
  | succ fuel ih =>
    refine .bind h fun r => ?_
    cases r with
    | some a => exact .pure fun s _ hs => hs
    | none =>
      refine .bind ((Safe.pick).pre fun s _ hs => hs.1) fun b => ?_
      refine .ite (fun _ => .pure fun s _ hs => ⟨hs.1, nofun⟩) fun _ => ?_
      exact ih.pre fun s _ hs => hs.1

variable {run : Run} {p : Nat}

/-- A full read at the start of a run that begins with page `p` is that page. -/
theorem readPage_safe (fuel : Nat) (hoff : run.offset = p * pageSize)
    (hlen : pageSize ≤ run.stop - run.offset) :
    Safe cfg me A (retry (readRun cfg run pageSize 0) fuel)
      fun r s => A s ∧ ∀ page, r = some page → DataOk cfg p 1 page absent := by
  refine retry_safe (Safe.pick.post fun r s _ hs => ⟨hs.1, fun page hp j hj => ?_⟩) fuel
  obtain rfl : j = 0 := by omega
  funext k
  have := hs.2 page hp (by omega) k k.2
  simp only [pageOf, Config.page, if_true, Nat.mul_zero, Nat.zero_add, Nat.add_zero] at this ⊢
  rw [this, hoff, Nat.mul_comm]

theorem alignedRunEnd_le {a b : Nat} (h : a < alignedRunEnd a b) : alignedRunEnd a b ≤ b := by
  unfold alignedRunEnd at *
  split at h
  · omega
  next hb =>
    rw [if_neg hb]
    simp only [pageSize] at *
    omega

/-- The source has no data in `[a, b)`. -/
def Config.ZeroOn (cfg : Config) (a b : Nat) : Prop := ∀ off, a ≤ off → off < b → cfg.source off = 0

theorem Config.ZeroOn.page {a b : Nat} (h : cfg.ZeroOn a b) (h1 : a ≤ p * pageSize)
    (h2 : p * pageSize + pageSize ≤ b) : cfg.page p = zeroPage := by
  funext k
  rw [Nat.mul_comm] at h1 h2
  exact h _ (by omega) (by omega)

variable {fd pageVA stop : Nat} {expected : PageState} {buf : Nat → Byte}

theorem zeroTail_ok (h : expected = absent → cfg.ZeroOn (p * pageSize + pageSize) stop) :
    (forwardTail .zero run fd pageVA (p * pageSize) p stop expected).Ok cfg buf where
  page := Nat.succ_mul p pageSize
  buffered h := by simp [forwardTail] at h
  deferred h := by simp [forwardTail] at h
  zero _ := h

theorem deferredTail_ok (h1 : run.offset ≤ p * pageSize + pageSize) (h2 : stop ≤ run.stop) :
    (forwardTail .deferredData run fd pageVA (p * pageSize) p stop absent).Ok cfg buf where
  page := Nat.succ_mul p pageSize
  buffered h := by simp [forwardTail] at h
  deferred _ := ⟨rfl, h1, h2⟩
  zero h := by simp [forwardTail] at h

/-- The page has a state already, unless the fault found it absent. -/
def Present (p : Nat) (expected : PageState) (s : Shared) : Prop :=
  expected ≠ absent → s.state.get p ≠ absent

instance Present.lasting : Lasting cfg me (Present p expected) := .forall

theorem handleResolvedZeroFault_safe {runEnd : Nat}
    (hz : expected = absent → cfg.ZeroOn (p * pageSize) runEnd ∧ p * pageSize + pageSize ≤ runEnd) :
    Safe cfg me (Present p expected)
    (handleResolvedZeroFault me fd pageVA (p * pageSize) p expected runEnd)
      fun _ _ => True := by
  refine .bind (Safe.follow fun s₀ hi hp => urgentZero_follows hi.core
    ⟨fun hx => (hz hx).1.page (by omega) (by have := (hz hx).2; omega), hp⟩) fun r => ?_
  refine .pre ?_ fun _ _ _ => trivial
  split
  · refine .ite (fun _ => .stop) fun hlong => .bind tryReserveTail_safe fun b => ?_
    refine .ite (fun hb => enqueueReservedTail_safe.pre fun s _ h => ?_) fun _ => .stop
    obtain ⟨h1, h2, _⟩ := h hb
    refine ⟨h1, h2, ?_⟩
    have hle := alignedRunEnd_le (a := p * pageSize) (b := runEnd) (by omega)
    exact zeroTail_ok fun hx off h1 h2 => (hz hx).1 off
      (Nat.le_trans (Nat.le_add_right _ _) h1) (Nat.lt_of_lt_of_le h2 hle)
  · exact .stop

theorem addressHardEnd_safe (pageOffset maxFillBytes : Nat) :
    Safe cfg me A (addressHardEnd cfg pageOffset maxFillBytes) fun _ => A := by
  exact .ite (fun _ => .skip) fun _ => .bind Safe.glance fun _ => .skip

theorem stateHardEnd_safe (pageOffset pageIdx : Nat) (expected : PageState) (maxFillBytes : Nat) :
    Safe cfg me A (stateHardEnd cfg pageOffset pageIdx expected maxFillBytes) fun _ => A := by
  refine .bind (addressHardEnd_safe _ _) fun _ => ?_
  exact .bind Safe.glance fun _ => .skip

theorem handleZeroFault_safe (hx : expected ≠ absent) :
    Safe cfg me (Present p expected) (handleZeroFault cfg me fd pageVA (p * pageSize) p expected)
      fun _ _ => True := by
  refine .bind (stateHardEnd_safe _ _ _ _) fun hardEnd => ?_
  exact handleResolvedZeroFault_safe fun h => absurd h hx

variable {fuel : Nat}

theorem handleOrdinaryDataFault_safe {fillEnd : Nat}
    (hoff : run.offset = p * pageSize) (hlen : pageSize ≤ run.stop - run.offset)
    (hend : fillEnd ≤ run.stop) :
    Runs cfg me (handleOrdinaryDataFault cfg me fuel fd pageVA (p * pageSize) p run fillEnd) := by
  refine .bind (readPage_safe fuel hoff hlen) fun r => .fact fun hd => ?_
  cases r with
  | none => exact failRead_safe
  | some page =>
    refine .bind (Safe.follow fun s₀ hi _ => urgentCopy_follows hi.core (hd page rfl)) fun r => ?_
    split
    · refine .ite (fun _ => .stop) fun hlong => .bind tryReserveTail_safe fun b => ?_
      refine .ite (fun hb => ?_) fun _ => .stop
      have hle := alignedRunEnd_le (a := p * pageSize) (b := fillEnd) (by omega)
      refine enqueueReservedTail_safe.pre fun s _ h => ⟨(h hb).1, (h hb).2.1, ?_⟩
      exact deferredTail_ok (by rw [hoff]; exact Nat.le_add_right _ _) (Nat.le_trans hle hend)
    · exact .stop

theorem handleChunkUrgentOnly_safe (hoff : run.offset = p * pageSize)
    (hlen : pageSize ≤ run.stop - run.offset) :
    Runs cfg me (handleChunkUrgentOnly cfg fuel fd pageVA p run) := by
  refine .bind (readPage_safe fuel hoff hlen) fun r => .fact fun hd => ?_
  cases r with
  | none => exact failRead_safe
  | some page =>
    exact .bind (Safe.follow fun s₀ hi _ => urgentCopy_follows hi.core (hd page rfl)) fun _ => .stop

/-- A window that a buffered fill of page `p` may use. -/
def Run.Around (w : Run) (p : Nat) : Prop :=
  w.offset ≤ p * pageSize ∧ p * pageSize + pageSize ≤ w.stop

theorem resolveWindow_safe {anchor : Run} (ha : anchor.Around p) :
    Safe cfg me A (resolveWindow cfg anchor (p * pageSize)) fun w s => A s ∧ w.Around p := by
  refine .ite (fun _ => ?_) fun _ => .pure fun _ _ h => ⟨h, ha⟩
  refine .bind Safe.pick fun r => ?_
  cases r with
  | none => exact .pure fun _ _ h => ⟨h.1, ha⟩
  | some resolved =>
    refine .ite (fun hv => ?_) fun _ => .pure fun _ _ h => ⟨h.1, ha⟩
    simp only [validChunkWindow, decide_eq_true_eq] at hv
    exact .pure fun _ _ h => ⟨h.1, hv.2.2.1, hv.2.2.2.1⟩

theorem chunkPopulationBounds_safe (window : Run) (pageOffset p : Nat) :
    Safe cfg me A (chunkPopulationBounds cfg window pageOffset p)
      fun r s => A s ∧ ∀ lo hi, r = some (lo, hi) → hi ≤ window.stop := by
  refine .bind Safe.glance fun bounds => ?_
  split
  · exact .pure fun _ _ h => ⟨h, nofun⟩
  next regionStart regionEnd =>
    refine .ite (fun _ => .pure fun _ _ h => ⟨h, nofun⟩) fun _ => ?_
    generalize hfe : min (min (alignedPageEnd window.stop) (alignedPageEnd cfg.size))
      (alignedPageEnd regionEnd) = fillEnd
    refine .bind (Safe.look (F := fun r => r.1 ≠ r.2 → r.2 ≤ fillEnd / pageSize) fun s _ hne =>
      (PageStateMap.runBounds_bounds rfl hne).2.2.2) fun r => .fact fun hr => ?_
    obtain ⟨lo, hi⟩ := r
    refine .ite (fun _ => .pure fun _ _ h => ⟨h, nofun⟩) fun hne => ?_
    refine .pure fun s _ h => ⟨h, fun lo' hi' he => ?_⟩
    cases he
    have h2 : fillEnd ≤ window.stop := by
      rw [← hfe]
      unfold alignedPageEnd
      omega
    simp only [pageSize] at *
    omega

/-- The buffer holds the first `n` bytes of the source from `off` on. -/
def Config.Holds (cfg : Config) (off n : Nat) (buf : Nat → Byte) : Prop :=
  ∀ k < n, buf k = cfg.source (off + k)

theorem bufferedTail_ok {fillStart fillEnd : Nat} {window : Run}
    (hb : cfg.Holds window.offset (window.stop - window.offset) buf)
    (hend : fillEnd ≤ window.stop) :
    TailTask.Ok cfg { forwardTail .bufferedData noRun fd pageVA (p * pageSize) p fillEnd absent with
      bufferStart := window.offset, prefixStart := fillStart } buf where
  page := Nat.succ_mul p pageSize
  buffered _ := by
    refine ⟨rfl, fun off h1 h2 => ?_⟩
    simp only [forwardTail] at h1 h2
    rw [hb (off - window.offset) (by omega), show window.offset + (off - window.offset) =
      off by omega]
  deferred h := by simp [forwardTail] at h
  zero h := by simp [forwardTail] at h

/-- The page of the fault in a buffered window. -/
theorem window_dataOk {window : Run} (hw : window.Around p)
    (hb : cfg.Holds window.offset (window.stop - window.offset) buf) :
    DataOk cfg p 1 (fun k => buf (p * pageSize - window.offset + k)) absent := by
  intro j hj
  obtain rfl : j = 0 := by omega
  obtain ⟨h1, h2⟩ := hw
  funext k
  simp only [pageOf, Config.page, if_true, Nat.mul_zero, Nat.zero_add, Nat.add_zero]
  rw [hb _ (by omega)]
  congr 1
  rw [Nat.mul_comm pageSize p]
  omega

theorem readWindow_safe (window : Run) (fuel : Nat) :
    Safe cfg me A (retry (readRun cfg window (window.stop - window.offset) 0) fuel)
      fun r s => A s ∧
        ∀ data, r = some data → cfg.Holds window.offset (window.stop - window.offset) data := by
  refine retry_safe (Safe.pick.post fun r s _ hs => ⟨hs.1, fun data hd k hk => ?_⟩) fuel
  exact hs.2 data hd (by omega) k hk

theorem handleChunkFault_safe {anchor : Run}
    (hoff : anchor.offset = p * pageSize) (hlen : pageSize ≤ anchor.stop - anchor.offset) :
    Runs cfg me (handleChunkFault cfg me fuel fd pageVA (p * pageSize) p anchor) := by
  have urgent : Safe cfg me (Own me fun _ => True)
      (do releaseTail; handleChunkUrgentOnly cfg fuel fd pageVA p anchor) fun _ _ => True :=
    Sat.bind releaseTail_safe fun _ => handleChunkUrgentOnly_safe hoff hlen
  have hanchor : anchor.Around p :=
    ⟨Nat.le_of_eq hoff, by simp only [pageSize] at *; omega⟩
  refine .bind tryReserveTail_safe fun b => ?_
  refine .ite (fun hb => ?_) fun _ =>
    (handleChunkUrgentOnly_safe hoff hlen).pre fun _ _ _ => trivial
  refine .bind ((resolveWindow_safe hanchor).pre fun s _ h => h hb) fun window => .fact fun hw => ?_
  refine .bind (chunkPopulationBounds_safe window _ _) fun bounds => .fact fun hbounds => ?_
  split
  · exact urgent
  next fillStart fillEnd =>
    have hend := hbounds _ _ rfl
    refine .ite (fun _ => urgent) fun _ => ?_
    refine .bind (readWindow_safe window fuel) fun r => .fact fun hread => ?_
    cases r with
    | none => exact .bind releaseTail_safe fun _ => failRead_safe
    | some data =>
      have hdata := hread data rfl
      refine .bind (fillTailBuf_safe _ data) fun _ => ?_
      refine .bind lookBuf_safe fun buf => .fact fun hbuf => ?_
      have hholds : cfg.Holds window.offset (window.stop - window.offset) buf :=
        fun k hk => (hbuf k hk).trans (hdata k hk)
      refine .bind (Safe.follow fun s₀ hi _ =>
        urgentCopy_follows hi.core (window_dataOk hw hholds)) fun r => ?_
      split
      · refine enqueueReservedTail_safe.pre fun s _ h => ⟨h.1, h.2.1, ?_⟩
        rw [h.2.2]
        exact bufferedTail_ok hholds hend
      · exact releaseTail_safe

theorem handleAbsentFault_safe :
    Runs cfg me (handleAbsentFault cfg me fuel fd pageVA (p * pageSize) p) := by
  refine .bind (stateHardEnd_safe _ _ _ _) fun hardEnd => ?_
  refine .ite (fun _ => .stop) fun hfull => ?_
  have hhard : p * pageSize + pageSize ≤ hardEnd := by simp only [pageSize] at *; omega
  have zero : ∀ runEnd, cfg.ZeroOn (p * pageSize) runEnd → p * pageSize + pageSize ≤ runEnd →
      Runs cfg me (handleResolvedZeroFault me fd pageVA (p * pageSize) p absent runEnd) :=
    fun _ hz hend => (handleResolvedZeroFault_safe fun _ => ⟨hz, hend⟩).pre fun _ _ _ h =>
      absurd rfl h
  refine .ite (fun hz => zero _ (fun off _ _ => cfg.zero hz off) hhard) fun _ => ?_
  refine .bind (retry_safe Safe.pick fuel) fun r => .fact fun hhonest => ?_
  cases r with
  | none => exact failRead_safe
  | some run =>
    refine .ite (fun _ => failRead_safe) fun hv => .ite (fun _ => failRead_safe) fun hcov => ?_
    simp only [validateFaultRun, Bool.not_eq_true', decide_eq_false_iff_not, not_not] at hv
    obtain ⟨hoff, hlt, hend, _⟩ := hv
    have hlen : pageSize ≤ run.stop - run.offset := by rw [hoff]; exact Nat.le_of_not_lt hcov
    have hstop : p * pageSize + pageSize ≤ min run.stop hardEnd := by
      omega
    have zero := fun hk => zero _ (fun off h1 h2 => hhonest run rfl hk off (by omega) (by omega))
      hstop
    cases hk : run.kind with
    | data =>
      refine .ite (fun _ => ?_) fun _ => ?_
      · exact handleChunkFault_safe hoff hlen
      · exact handleOrdinaryDataFault_safe hoff hlen (Nat.min_le_left _ _)
    | hole => exact zero (.inl hk)
    | zero => exact zero (.inr hk)
    | other => exact .stop

/-- The page of a located address. -/
theorem handleFault_safe (fuel : Nat) (ev : FaultEvent) :
    Runs cfg me (handleFault cfg me fuel ev) := by
  refine .ite (fun _ => failRead_safe) fun _ => ?_
  refine .bind Safe.glance fun located => ?_
  cases located with
  | none => exact invalidateCapture_safe _
  | some off =>
    dsimp only
    have hoff : off - off % pageSize = (off / pageSize) * pageSize := by
      simp only [pageSize]
      omega
    rw [hoff, Nat.mul_div_cancel _ pageSize_pos]
    generalize off / pageSize = p
    refine .bind (M := fun st => Present p st) (.look (fun s _ => .refl me s) fun s _ _ h => h)
      fun st => ?_
    cases st with
    | absent => exact handleAbsentFault_safe.pre fun _ _ _ => trivial
    | released => exact handleZeroFault_safe (by decide)
    | loaded =>
      exact .bind
        (Safe.follow fun s₀ hi h => urgentZero_follows hi.core ⟨fun h => absurd h (by decide), h⟩)
        fun _ => .stop

/-! ## The tail worker -/

variable {data : Nat → Byte} {bufLen bufferStart : Nat}

theorem bufferedTailData_some {start : Nat}
    (h : bufferedTailData buf bufLen bufferStart start stop = some data) :
    bufferStart ≤ start ∧ data = fun k => buf (start - bufferStart + k) := by
  unfold bufferedTailData at h
  split at h
  · cases h
  · cases h
    exact ⟨by omega, rfl⟩

variable {q n : Nat}

theorem page_end_le {j : Nat} (hj : j < n) : j * pageSize + pageSize ≤ n * pageSize := by
  rw [← Nat.succ_mul]
  exact Nat.mul_le_mul_right _ hj

/-- Slices of the buffered window are the source's pages. -/
theorem buffered_dataOk {e : Nat}
    (hb : ∀ off, bufferStart ≤ off → off < stop → buf (off - bufferStart) = cfg.source off)
    (hd : bufferedTailData buf bufLen bufferStart (q * pageSize) e = some data)
    (hn : q * pageSize + n * pageSize ≤ stop) : DataOk cfg q n data absent := by
  obtain ⟨hlo, rfl⟩ := bufferedTailData_some hd
  intro j hj
  funext k
  simp only [pageOf, Config.page, if_true]
  have hjn := page_end_le hj
  have hidx : pageSize * (q + j) = q * pageSize + j * pageSize := by
    rw [Nat.mul_add, Nat.mul_comm, Nat.mul_comm pageSize j]
  have h := hb (q * pageSize + j * pageSize + k) (by omega) (by omega)
  rw [hidx, Nat.mul_comm pageSize j, ← h]
  congr 1
  omega

variable {length : Nat}

theorem executeBuffered_safe {io : TailTask} (hk : io.kind = .bufferedData)
    (hexp : io.expected = absent) {e : Nat}
    (hb : ∀ off, bufferStart ≤ off → off < stop → buf (off - bufferStart) = cfg.source off)
    (hd : bufferedTailData buf bufLen bufferStart (io.pageIdx * pageSize) e = some data)
    (hn : io.pageIdx * pageSize + length / pageSize * pageSize ≤ stop) :
    Safe cfg me A (Prog.atomic (executeTailIo io data length)) fun _ => A := by
  refine .follow fun s₀ hi _ => executeTailIo_follows hi.core
    ⟨fun _ => ?_, fun h => by rw [hk] at h; cases h⟩
  rw [hexp]
  exact buffered_dataOk hb hd hn

/-- The owner's buffer, read again, is what it knew of it. -/
theorem processBufferedSuffix_safe (hk : task.kind = .bufferedData) :
    Safe cfg me (Own me (task.Ok cfg)) (processBufferedSuffix cfg task) fun _ => Own me
    (task.Ok cfg) := by
  refine .ite (fun _ => .skip) fun _ => ?_
  refine .bind (Safe.look (F := (· ≤ (task.stop - task.start) / pageSize)) fun _ _ =>
    PageStateMap.runLength_le _ _ _) fun statePages => .fact fun hn => ?_
  refine .ite (fun _ => .skip) fun _ => ?_
  refine .bind (Safe.look fun _ h => h.2.2) fun buf => .fact fun hbuf => ?_
  obtain ⟨hexp, hsrc⟩ := hbuf.buffered hk
  split
  · exact .skip
  next data hd =>
    have hlen : (if decide (statePages < (task.stop - task.start) / pageSize) = true
        then statePages * pageSize else task.stop - task.start) ≤ task.stop - task.start := by
      split
      · simp only [pageSize] at *
        omega
      · exact Nat.le_refl _
    have hp := hbuf.page
    rw [← hp] at hd
    refine .bind (executeBuffered_safe hk hexp hsrc hd ?_) fun _ => .skip
    generalize (if decide (statePages < (task.stop - task.start) / pageSize) = true
        then statePages * pageSize else task.stop - task.start) = length at hlen
    simp only [pageSize] at *
    omega

theorem processBufferedPrefix_safe {faultOffset : Nat} (hk : task.kind = .bufferedData)
    (hf : faultOffset ≤ task.stop) (hal : pageSize ∣ faultOffset) :
    Safe cfg me (Own me (task.Ok cfg)) (processBufferedPrefix cfg task faultOffset)
      fun _ => Own me (task.Ok cfg) := by
  refine .ite (fun _ => .skip) fun _ => ?_
  refine .bind (Safe.look (F := fun r => r.1 ≠ r.2 → r.1 ≤ r.2) fun s _ hne => ?_)
    fun r => .fact fun hr => ?_
  · obtain ⟨_, h1, h2, _⟩ := PageStateMap.runBounds_bounds rfl hne
    exact Nat.le_trans h1 (Nat.le_of_lt h2)
  obtain ⟨startIdx, endIdx⟩ := r
  refine .ite (fun _ => .skip) fun hne => ?_
  refine .bind (Safe.look fun _ h => h.2.2) fun buf => .fact fun hbuf => ?_
  obtain ⟨hexp, hsrc⟩ := hbuf.buffered hk
  split
  · exact .skip
  next data hd =>
    refine .ite (fun _ => .skip) fun _ => .ite (fun _ => .skip) fun _ => ?_
    refine .bind (executeBuffered_safe hk hexp hsrc hd ?_) fun _ => .skip
    simp only [pageSize] at *
    omega

theorem processBufferedTail_safe (hk : task.kind = .bufferedData) :
    Safe cfg me (Own me (task.Ok cfg)) (processBufferedTail cfg task) fun _ => Own me
    (task.Ok cfg) := by
  unfold processBufferedTail
  refine .ite (fun _ => .skip) fun hs => ?_
  refine .ite (fun _ => .skip) fun _ => .ite (fun _ => .skip) fun _ => ?_
  refine .bind (processBufferedSuffix_safe hk) fun full => ?_
  refine .ite (fun _ => ?_) fun _ => .skip
  have hend : task.start - pageSize ≤ task.stop := by omega
  -- the buffer's content tells where the task starts
  refine .pre
    (.fact fun hp => ?_) fun s _ h => ⟨h, h.2.2.page⟩
  exact processBufferedPrefix_safe hk hend
    (hp ▸ Nat.dvd_sub (Nat.dvd_mul_left _ _) (Nat.dvd_refl _))

theorem readTail_safe (hd : task.kind = .deferredData → task.run.offset ≤ task.start ∧
      task.start - task.run.offset + length ≤ task.run.stop - task.run.offset) :
    Safe cfg me (Own me B) (readTail cfg task length)
      fun ok => Own me fun buf => ok = true → task.kind = .deferredData →
        cfg.Holds task.start length buf := by
  refine .ite (fun hk => ?_) fun hk => .pure fun _ _ h => ⟨h.1, h.2.1, fun _ h => absurd h hk⟩
  refine .bind Safe.pick fun r => .fact fun hr => ?_
  cases r with
  | none => exact .pure fun _ _ h => ⟨h.1, h.2.1, nofun⟩
  | some data =>
    refine .bind (fillTailBuf_safe length data) fun _ => ?_
    refine .pure fun s _ h => ⟨h.1, h.2.1, fun _ _ k hk' => ?_⟩
    rw [h.2.2 k hk', hr data rfl (hd hk).2 k hk']
    congr 1
    have := (hd hk).1
    omega

/-- Bytes read from the start of a forward tail are its pages. -/
theorem holds_dataOk {off : Nat} (hq : q * pageSize = off)
    (h : cfg.Holds off length buf) (hn : n * pageSize ≤ length) : DataOk cfg q n buf absent := by
  intro j hj
  funext k
  have hjn := page_end_le hj
  have hb := h (j * pageSize + k) (by omega)
  simp only [pageOf, Config.page, if_true]
  rw [Nat.mul_comm pageSize j, hb, ← hq, Nat.mul_comm pageSize (q + j), Nat.add_mul, Nat.add_assoc]

theorem ZeroOn.dataOk (stop : Nat) (h : expected = absent → cfg.ZeroOn (q * pageSize) stop)
    (hn : q * pageSize + n * pageSize ≤ stop) : DataOk cfg q n (fun _ => 0) expected := by
  refine zeroDataOk fun hx j hj => (h hx).page (Nat.mul_le_mul_right _ (Nat.le_add_right _ _)) ?_
  have hjn := page_end_le hj
  rw [Nat.add_mul]
  omega

theorem processForwardTail_safe (hk : task.kind ≠ .bufferedData) (maxTailBytes : Nat) :
    Safe cfg me (Own me (task.Ok cfg)) (processForwardTail cfg task maxTailBytes)
      fun _ => Own me fun _ => True := by
  have done : ∀ B, Safe cfg me (Own me B) (pure ()) fun _ => Own me fun _ => True :=
    fun B => .pure fun _ _ h => ⟨h.1, h.2.1, trivial⟩
  -- what the task promises does not depend on the buffer
  refine .pre (S := fun s => Own me (fun _ => True) s ∧ ∃ buf, task.Ok cfg buf)
    (Sat.fact ?_) fun s _ h => ⟨⟨h.1, h.2.1, trivial⟩, _, h.2.2⟩
  rintro ⟨buf₀, hok⟩
  refine .bind (Safe.look (F := (· ≤ (task.stop - task.start) / pageSize)) fun _ _ =>
    Nat.le_trans (PageStateMap.runLength_le _ _ _) (Nat.min_le_left _ _)) fun pages =>
      .fact fun hpages => ?_
  refine .ite (fun _ => done _) fun hne => ?_
  have hlen : task.start + pages * pageSize ≤ task.stop := by
    simp only [pageSize] at *
    omega
  refine .bind (readTail_safe fun hd => ?_) fun ok => ?_
  · have := (hok.deferred hd).2
    omega
  refine .ite (fun hready => ?_) fun _ => done _
  refine .bind (Safe.look (F := (· ≤ pages)) fun _ _ => ?_) fun again => .fact fun hagain => ?_
  · exact Nat.le_trans (PageStateMap.runLength_le _ _ _)
      (Nat.le_of_eq (Nat.mul_div_cancel _ pageSize_pos))
  refine .ite (fun _ => done _) fun _ => ?_
  refine .bind lookBuf_safe fun buf => .fact fun hbuf => ?_
  have hshort : min (pages * pageSize) (again * pageSize) / pageSize * pageSize ≤
      pages * pageSize := by
    simp only [pageSize] at *
    omega
  refine .bind (Safe.follow fun s₀ hi _ => executeTailIo_follows hi.core
    ⟨fun hnz => ?_, fun hz => ?_⟩) fun _ => done _
  · have hd : task.kind = .deferredData := by
      cases h : task.kind with
      | bufferedData => exact absurd h hk
      | deferredData => rfl
      | zero => exact absurd h hnz
    rw [(hok.deferred hd).1]
    exact holds_dataOk hok.page (hbuf hready hd) hshort
  · refine ZeroOn.dataOk task.stop (fun hx => ?_) ?_
    · rw [hok.page]
      exact hok.zero hz hx
    · have := hok.page
      omega

theorem processTail_safe (task : TailTask) :
    Safe cfg me (Own me (task.Ok cfg)) (processTail cfg task) fun _ => Own me fun _ => True := by
  unfold processTail
  split
  next hk => exact (processBufferedTail_safe hk).post fun _ _ _ h => ⟨h.1, h.2.1, trivial⟩
  next hk => exact processForwardTail_safe (by rw [hk]; nofun) _
  next hk => exact processForwardTail_safe (by rw [hk]; nofun) _

theorem receiveTail_safe :
    Safe cfg .tail (fun _ => True) receiveTail fun task => Own .tail (task.Ok cfg) := by
  refine .atomic ?_
  rintro s task s' hi - ⟨hq, rfl⟩
  obtain ⟨ho, hok⟩ := hi.tail.queued task hq
  refine ⟨hi.of_core rfl ⟨hi.tail.busy, nofun⟩ hi.requests rfl rfl rfl, ?_, ho, rfl, hok⟩
  refine .of_core rfl rfl fun u hu h => absurd ?_ hu
  exact Option.some.inj (h.symm.trans ho)

theorem runTailWorker_safe (fuel : Nat) : Runs cfg .tail (runTailWorker cfg fuel) := by
  induction fuel with
  | zero => exact .halt
  | succ fuel ih =>
    refine .bind (.bind receiveTail_safe fun task => ?_) fun _ => ih
    refine .bind Safe.glance fun _ => ?_
    refine .ite (fun _ => releaseTail_safe) fun _ => ?_
    exact .bind (processTail_safe task) fun _ => releaseTail_safe

/-! ## Mandatory loads -/

theorem loadRead_safe (p : Nat) : Safe cfg me A (loadRead cfg (p * pageSize)) fun r s => A s ∧
      ∀ o, r = some o → ∀ page, o = some page → DataOk cfg p 1 page absent := by
  have none_ok : Safe cfg me A (pure none) fun (r : Option (Option (Nat → Byte))) s => A s ∧
      ∀ o, r = some o → ∀ page, o = some page → DataOk cfg p 1 page absent :=
    Sat.pure fun _ _ h => ⟨h, nofun⟩
  refine .bind Safe.glance fun st => ?_
  refine .ite (fun _ => .pure fun _ _ h => ⟨h, ?_⟩) fun _ => ?_
  · rintro o ⟨⟩ page ⟨⟩
  refine .bind Safe.pick fun r => .fact fun hr => ?_
  cases r with
  | none => exact none_ok
  | some run =>
    refine .ite (fun _ => none_ok) fun hv => ?_
    refine .ite (fun _ => none_ok) fun hfull => ?_
    simp only [validateFaultRun, Bool.not_eq_true', decide_eq_false_iff_not, not_not] at hv
    obtain ⟨hoff, _, _, hkind⟩ := hv
    have hstop := not_not.1 hfull
    refine .ite (fun hnd => .pure fun _ _ h => ⟨h, ?_⟩) fun _ => ?_
    · rintro o ⟨⟩ page ⟨⟩
      have hk : run.kind = .hole ∨ run.kind = .zero := by
        cases h : run.kind with
        | hole => exact .inl rfl
        | zero => exact .inr rfl
        | data => exact absurd h hnd
        | other => exact absurd h hkind
      refine zeroDataOk fun _ j hj => ?_
      obtain rfl : j = 0 := by omega
      refine Config.ZeroOn.page (fun off h1 h2 => hr run rfl hk off h1 h2)
        (by simp [hoff]) (by simp [hstop])
    · refine .bind Safe.pick fun r => .fact fun hr => ?_
      cases r with
      | none => exact none_ok
      | some buf =>
        refine .pure fun _ _ h => ⟨h, ?_⟩
        rintro o ⟨⟩ page ⟨⟩
        refine holds_dataOk rfl (fun k hk => ?_) (Nat.le_of_eq (Nat.one_mul _))
        have := hr buf rfl (by rw [hstop, hoff]; omega) k hk
        rw [this, hoff, Nat.add_zero]

theorem loadContent_safe (p : Nat) (state : PageState) (fuel : Nat) :
    Safe cfg me A (loadContent cfg (p * pageSize) state fuel) fun r s => A s ∧
      ∀ o, r = some o → ∀ page, o = some page → DataOk cfg p 1 page state := by
  refine .ite (fun hs => ?_) fun hs => .pure fun _ _ h => ⟨h, ?_⟩
  · rw [hs.1]
    exact retry_safe (loadRead_safe p) fuel
  rintro o ⟨⟩ page ⟨⟩
  refine zeroDataOk fun hx j _ => ?_
  have hz : cfg.zeroSource = true := by simpa [hx] using hs
  funext k
  exact cfg.zero hz _

theorem loadPage_safe (call p fuel : Nat) :
    Safe cfg me (fun _ => True) (loadPage cfg call (p * pageSize) fuel)
      fun r s => r = .ok () → s.seen call p := by
  induction fuel with
  | zero => exact .halt
  | succ fuel ih =>
    have fail : ∀ e A, Safe cfg me A (pure (.error e)) fun (r : Except UffdError Unit) s =>
        r = .ok () → s.seen call p := fun e _ => .pure fun _ _ _ => nofun
    have hdiv : p * pageSize / pageSize = p := Nat.mul_div_cancel _ pageSize_pos
    refine .bind Safe.pick fun c => .fact fun _ => ?_
    refine .ite (fun _ => fail _ _) fun _ => ?_
    refine .bind (Safe.install (F := fun a s => a.2 = loaded → s.seen call p)
      fun s₀ hi _ => ?_) fun a => ?_
    · exact (loadLookup_progress hi.core call (p * pageSize)).post
        fun a s h => ⟨h.1, by rw [← hdiv]; exact h.2.1⟩
    obtain ⟨reg, state⟩ := a
    cases reg with
    | none => exact fail _ _
    | some reg =>
      refine .ite (fun _ => fail _ _) fun _ => ?_
      refine .ite (fun hl => .pure fun _ _ h _ => h.2 hl) fun _ => ?_
      refine .bind ((loadContent_safe p state fuel).pre fun _ _ h => h.1) fun page =>
        Sat.fact fun hd => ?_
      split
      · exact fail _ _
      · exact ih
      next page =>
        refine .bind Safe.pick fun stop => .fact fun _ => ?_
        refine .bind (Safe.install
          fun s₀ hi _ => loadInstall_progress hi.core call _ rfl (hd _ rfl _ rfl)) fun a => ?_
        cases a with
        | again => exact ih.pre fun _ _ h => h.1
        | done r =>
          refine .pure fun _ _ h => ?_
          rintro rfl
          exact h.2 () rfl

/-- The pages of a call from `first` on, up to the byte `off`, have been seen. -/
def SeenTo (call first off : Nat) (s : Shared) : Prop :=
  ∀ i, first ≤ i → i * pageSize < off → s.seen call i

instance SeenTo.lasting {call first off : Nat} : Lasting cfg me (SeenTo call first off) := .forall

theorem SeenTo.extend {call first : Nat} (h : SeenTo call first (q * pageSize) s)
    (hn : ∀ j, q ≤ j → j < q + n → s.seen call j) : SeenTo call first ((q + n) * pageSize) s := by
  intro i h1 h2
  by_cases hi : i < q
  · exact h i h1 (Nat.mul_lt_mul_of_pos_right hi pageSize_pos)
  · exact hn i (by omega) (Nat.lt_of_mul_lt_mul_right h2)

theorem awaitReply_safe (req : LoadRequest) : Safe cfg me A (awaitReply req) fun r s => A s ∧
      (r = some (.ok ()) → s.seen req.call (req.offset / pageSize)) := by
  refine .atomic ?_
  rintro s r s' hi hs ⟨hr, rfl⟩
  refine ⟨hi, .refl _ _, hs, ?_⟩
  rintro rfl
  rcases hr with hr | ⟨a, ha, hr⟩
  · cases hr
  · cases ha
    exact hi.replies req hr

theorem ensureLoop_safe (call first stop fuel q : Nat) :
    Safe cfg me (SeenTo call first (q * pageSize)) (ensureLoop call stop fuel (q * pageSize))
      fun r s => r = .ok () → SeenTo call first stop s := by
  induction fuel generalizing q with
  | zero => exact .halt
  | succ fuel ih =>
    have fail : ∀ e A, Safe cfg me A (pure (.error e)) fun (r : Except UffdError Unit) s =>
        r = .ok () → SeenTo call first stop s := fun e _ => .pure fun _ _ _ => nofun
    have wait : Safe cfg me (SeenTo call first (q * pageSize))
        (do if ← canceled then pure (.error .canceled)
            else ensureLoop call stop fuel (q * pageSize))
        fun r s => r = .ok () → SeenTo call first stop s :=
      Sat.bind Safe.pick fun c => .fact fun _ => .ite (fun _ => fail _ _) fun _ => ih q
    refine .ite (fun hend => ?_) fun _ => ?_
    · refine .bind Safe.pick fun c => .fact fun _ => ?_
      refine .ite (fun _ => fail _ _) fun _ => .pure fun s _ h _ i h1 h2 => ?_
      exact h i h1 (Nat.lt_of_lt_of_le h2 hend)
    refine .bind (Safe.install (F := fun a : _ × Nat => SeenTo call q ((q + a.2) * pageSize))
      fun s₀ hi _ => ?_) fun a => ?_
    · have := ensureLookup_progress hi.core call (q * pageSize) stop
      rw [Nat.mul_div_cancel _ pageSize_pos] at this
      exact this.post fun a s h => ⟨h.1, fun j h1 h2 => h.2 j h1 (Nat.lt_of_mul_lt_mul_right h2)⟩
    obtain ⟨reg, n⟩ := a
    cases reg with
    | none => exact fail _ _
    | some reg =>
      refine .bind Safe.pick fun c => .fact fun _ => ?_
      refine .ite (fun _ => fail _ _) fun _ => ?_
      refine .ite (fun _ => wait.pre fun _ _ h => h.1) fun _ => ?_
      refine .ite (fun _ => ?_) fun _ => ?_
      · rw [← Nat.add_mul]
        exact (ih (q + n)).pre fun s _ h => h.1.extend fun j h1 h2 =>
          h.2 j h1 (Nat.mul_lt_mul_of_pos_right h2 pageSize_pos)
      refine .pre ?_ fun _ _ h => h.1
      refine .bind (Safe.aside (fun _ => rfl) (fun _ => rfl) (fun s hi _ req hr => ?_)
        (fun _ => rfl) (fun _ => rfl) fun _ => rfl) fun _ => ?_
      · rcases List.mem_append.1 hr with hr | hr
        · exact hi.requests req hr
        · rw [List.mem_singleton.1 hr]
          exact Nat.dvd_mul_left _ _
      refine .bind (awaitReply_safe _) fun r => ?_
      split
      · exact fail _ _
      · exact wait.pre fun _ _ h => h.1
      · exact fail _ _
      have hstep : q * pageSize + pageSize = (q + 1) * pageSize := (Nat.succ_mul _ _).symm
      rw [hstep]
      refine (ih (q + 1)).pre fun s _ h => h.1.extend fun j h1 h2 => ?_
      have := h.2 rfl
      rw [Nat.mul_div_cancel _ pageSize_pos] at this
      rwa [show j = q by omega]

theorem ensureLoaded_safe (call fuel offset length : Nat) :
    Safe cfg me (fun _ => True) (ensureLoaded cfg call fuel offset length)
      fun r s => r = .ok () → ∀ i, Touches offset length i → s.seen call i := by
  have fail :
      ∀ e, Safe cfg me (fun _ => True) (pure (.error e)) fun (r : Except UffdError Unit) s =>
      r = .ok () → ∀ i, Touches offset length i → s.seen call i :=
    fun e => .pure fun _ _ _ => nofun
  refine .bind Safe.glance fun _ => ?_
  refine .ite (fun _ => fail _) fun _ => ?_
  refine .ite (fun _ => fail _) fun _ => ?_
  refine .bind Safe.pick fun c => .fact fun _ => ?_
  refine .ite (fun _ => fail _) fun _ => ?_
  refine .ite (fun h0 => .pure fun s _ _ _ i hi => ?_) fun hpos => ?_
  · obtain ⟨b, h1, h2, _⟩ := hi
    omega
  have hstart : offset - offset % pageSize = (offset / pageSize) * pageSize := by
    simp only [pageSize]
    omega
  rw [hstart]
  refine ((ensureLoop_safe call (offset / pageSize) _ fuel _).pre fun s _ _ i h1 h2 => ?_).post
    fun r s _ h hr i hi => ?_
  · simp only [pageSize] at *
    omega
  · obtain ⟨b, h1, h2, rfl⟩ := hi
    refine h hr _ ?_ ?_ <;> simp only [pageSize] at * <;> omega

theorem runCaller_safe (call fuel offset length : Nat) :
    Runs cfg me (runCaller cfg call fuel offset length) := by
  refine .bind (ensureLoaded_safe call fuel offset length) fun r => ?_
  cases r with
  | error e => exact .stop
  | ok u =>
    refine .change fun s hi hs => ⟨?_, ?_, trivial⟩
    · refine { hi with returned := fun c off len hr => ?_ }
      by_cases hc : c = call
      · subst hc
        simp only [Function.update_self, Option.some.injEq, Prod.mk.injEq] at hr
        obtain ⟨rfl, rfl⟩ := hr
        exact hs rfl
      · simp only [Function.update_of_ne hc] at hr
        exact hi.returned c off len hr
    · exact .of_core rfl rfl fun _ _ _ => rfl

theorem takeRequest_safe : Safe cfg me (fun _ => True) takeRequest fun req _ => True ∧
    pageSize ∣ req.offset := by
  refine .atomic ?_
  rintro s req s' hi - ⟨hmem, rfl⟩
  exact ⟨hi.of_core rfl hi.tail (fun r hr => hi.requests r (List.mem_of_mem_erase hr)) rfl rfl rfl,
    Guar.of_core rfl rfl fun _ _ _ => rfl, trivial, hi.requests req hmem⟩

theorem runWorker_safe (fuel : Nat) : Runs cfg me (runWorker cfg me fuel) := by
  induction fuel with
  | zero => exact .halt
  | succ fuel ih =>
    refine .bind ?_ fun _ => ih
    refine .bind Safe.pick fun b => .fact fun _ => ?_
    refine .ite (fun _ => ?_) fun _ => ?_
    · refine .bind takeRequest_safe fun req => .fact fun hal => ?_
      obtain ⟨q, hq⟩ := hal
      have hoff : req.offset = q * pageSize := hq.trans (Nat.mul_comm _ _)
      rw [hoff]
      refine .bind (loadPage_safe req.call q fuel) fun r => ?_
      refine .change fun s hi hs => ⟨?_, ?_, trivial⟩
      · refine { hi with replies := fun req' hr => ?_ }
        by_cases hc : req' = req
        · subst hc
          simp only [Function.update_self, Option.some.injEq] at hr
          rw [hoff, Nat.mul_div_cancel _ pageSize_pos]
          exact hs hr
        · simp only [Function.update_of_ne hc] at hr
          exact hi.replies req' hr
      · exact .of_core rfl rfl fun _ _ _ => rfl
    · refine .bind Safe.pick fun ev => .fact fun _ => ?_
      exact handleFault_safe fuel ev

/-! ## Events and registrations -/

/-- A section that installs nothing, of a thread that is no installer. -/
theorem Safe.pass (hme : ¬me.Installs)
    (h : ∀ s₀, Inv cfg s₀ → Section.Ensures (· = s₀) sec fun _ s => Passes cfg s₀ s) :
    Runs cfg me (Prog.atomic sec) := by
  refine .atomic fun s a s' hi _ hstep => ?_
  obtain ⟨hinv, hgrow, hmem, hrest⟩ := h s hi s a s' rfl hstep
  have hon : Onward s s' := ⟨hgrow.absent, fun c i h => by rw [hrest]; exact h⟩
  have ht : s'.tail = s.tail := by rw [hrest]
  have hsees : ∀ c i, ¬s.seen c i → s'.seen c i → s'.state.get i = loaded :=
    fun c i h h' => absurd (by rw [hrest] at h'; exact h') h
  refine ⟨⟨hinv, ht ▸ hi.tail, ?_, ?_, ?_⟩, ⟨hon, hgrow, ?_, hsees,
    fun _ _ _ => ht, fun h => absurd h hme⟩, trivial⟩
  · rw [hrest]; exact hi.requests
  · rw [hrest]; exact hi.replies
  · rw [hrest]; exact hi.returned
  · exact fun i p h => hmem ▸ h

theorem dispatchAll_safe (events : List Event) : Runs cfg me (dispatchAll events) := by
  induction events with
  | nil => exact .stop
  | cons ev events ih =>
    refine .bind ?_ fun _ => ih
    cases ev with
    | pagefault ev =>
      refine .bind Safe.glance fun located => ?_
      split
      · exact invalidateCapture_safe _
      · exact .stop
    | remove start stop | unmap start stop => exact .stop
    | other => exact invalidateCapture_safe _

theorem runReader_safe (fuel : Nat) : Runs cfg .reader (runReader fuel) := by
  induction fuel with
  | zero => exact .halt
  | succ fuel ih =>
    refine .bind ?_ fun _ => ih
    refine .bind Safe.pick fun fd => .fact fun _ => ?_
    refine .bind (Safe.pass nofun fun s₀ hi => readBatch_passes hi.core fd) fun r => ?_
    split
    · exact dispatchAll_safe _
    · exact .stop

end

theorem code_safe (ld : Load) (t : Thread) : Runs cfg t (code cfg ld t) := by
  cases t with
  | worker n => exact runWorker_safe _
  | tail => exact runTailWorker_safe _
  | reader => exact runReader_safe _
  | caller n => exact runCaller_safe _ _ _ _
  | admission n => exact .pass nofun fun s₀ hi => addUffd_passes hi.core _ _ _ _

end Sandboxer.Uffd
