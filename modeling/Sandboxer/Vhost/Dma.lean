import Sandboxer.Lib.Outcomes
import Sandboxer.Vhost.Framing
import Sandboxer.Vhost.Queue

/-! # Every access of the server is loaded and logged

Whatever the guest wrote into its rings and descriptors, the server reaches
guest memory only through slices that `translate` handed out in the same
request, or that were cut out of those. `Sound` says it of a trace: each access
has the load and the dirty mark for every byte of it before it. -/
namespace Sandboxer.Vhost

open Lib.Slices
open Lib.Outcomes (bind_eq_ok)

variable {β α γ : Type}

/-! ## Sound traces -/

/-- The accesses since the last request began. -/
def thisRequest (t : List Access) : List Access := t.takeWhile (· ≠ .request)

/-- The byte is in a range of one region that `EnsureLoaded` returned nil for. -/
def Loaded (regions : List MemRegion) (t : List Access) (c : Nat) : Prop :=
  ∃ r ∈ regions, ∃ off len, Access.loaded off len ∈ t ∧ r.mmapOffset ≤ off ∧
    off + len ≤ r.mmapOffset + r.memorySize ∧ off ≤ c ∧ c < off + len

/-- The byte is in a range that was passed to `MarkDirty`. -/
def Marked (t : List Access) (c : Nat) : Prop :=
  ∃ off len, Access.marked off len ∈ t ∧ off ≤ c ∧ c < off + len

variable (h : Host β)

def MayRead (t : List Access) (cs : List Nat) : Prop := ∀ c ∈ cs, Loaded h.regions t c

/-- These cells may be written. -/
def MayWrite (t : List Access) (cs : List Nat) : Prop :=
  ∀ c ∈ cs, Loaded h.regions t c ∧ (h.markDirty.isSome → Marked t c)

/-- What must come before an access in the same request. -/
def Access.Permitted (t : List Access) : Access → Prop
  | .read s => MayRead h t s.cells
  | .write s => MayWrite h t s.cells
  | _ => True

/-- Every access of a trace was permitted when it happened. -/
inductive Sound : List Access → Prop where
  | nil : Sound []
  | cons {a : Access} {t : List Access} : a.Permitted h (thisRequest t) → Sound t → Sound (a :: t)

/-- What stays true when more accesses follow. -/
def Lasting (P : List Access → Prop) : Prop := ∀ t t', t ⊆ t' → P t → P t'

variable {s : Slice}

section Facts

variable {h : Host β} {t : List Access} {cs cs' : List Nat} {P Q : List Access → Prop}

theorem Lasting.and (hP : Lasting P) (hQ : Lasting Q) : Lasting fun t => P t ∧ Q t :=
  fun t t' hsub h => ⟨hP t t' hsub h.1, hQ t t' hsub h.2⟩

theorem MayWrite.mayRead (hw : MayWrite h t cs) : MayRead h t cs := fun c hc => (hw c hc).1

theorem MayRead.sub (hr : MayRead h t cs) (hsub : cs' ⊆ cs) : MayRead h t cs' :=
  fun c hc => hr c (hsub hc)

theorem MayWrite.sub (hw : MayWrite h t cs) (hsub : cs' ⊆ cs) : MayWrite h t cs' :=
  fun c hc => hw c (hsub hc)

theorem lasting_mayRead (h : Host β) (cs : List Nat) : Lasting fun t => MayRead h t cs := by
  intro t t' hsub hr c hc
  obtain ⟨r, hr, off, len, hmem, hrest⟩ := hr c hc
  exact ⟨r, hr, off, len, hsub hmem, hrest⟩

theorem lasting_mayWrite (h : Host β) (cs : List Nat) : Lasting fun t => MayWrite h t cs := by
  intro t t' hsub hw c hc
  refine ⟨lasting_mayRead h cs t t' hsub hw.mayRead c hc, fun hsome => ?_⟩
  obtain ⟨off, len, hmem, hrest⟩ := (hw c hc).2 hsome
  exact ⟨off, len, hsub hmem, hrest⟩

theorem mem_cells {c : Nat} : c ∈ s.cells ↔ s.base ≤ c ∧ c < s.base + s.len := by
  rw [Slice.cells, List.mem_range'_1]

theorem cells_drop_subset (s : Slice) (n : Nat) : (s.drop n).cells ⊆ s.cells := by
  rw [Slice.cells_drop]
  exact List.drop_subset ..

theorem cells_take_subset {n : Nat} (hn : n ≤ s.len) : (s.take n).cells ⊆ s.cells := by
  rw [Slice.cells_take s hn]
  exact List.take_subset ..

theorem cells_window_subset {i n : Nat} (hn : i + n ≤ s.len) :
    ((s.drop i).take n).cells ⊆ s.cells :=
  List.Subset.trans (cells_take_subset (show n ≤ s.len - i by omega)) (cells_drop_subset s i)

end Facts

/-! ## Programs with sound traces -/

/-- The trace has grown within the request, and is still sound. -/
structure Grown (s s' : Machine β) : Prop where
  sound : Sound h s'.trace
  sub : thisRequest s.trace ⊆ thisRequest s'.trace

/-- From `P` of this request's accesses the code keeps the trace sound, and a
result satisfies `Q`. -/
def Logs (P : List Access → Prop) (x : Serve β α) (Q : α → List Access → Prop) : Prop :=
  ∀ s, Sound h s.trace → P (thisRequest s.trace) → match x s with
    | .ok a s' => Grown h s s' ∧ Q a (thisRequest s'.trace)
    | .error _ s' => Grown h s s'

namespace Logs

variable {h : Host β} {P P' F : List Access → Prop} {Q Q' : α → List Access → Prop}
  {R : γ → List Access → Prop} {x : Serve β α}

theorem pre (hx : Logs h P' x Q) (hp : ∀ t, P t → P' t) : Logs h P x Q :=
  fun s hs hP => hx s hs (hp _ hP)

theorem post (hx : Logs h P x Q') (hq : ∀ a t, Q' a t → Q a t) : Logs h P x Q := by
  intro s hs hP
  have hres := hx s hs hP
  split at hres
  · exact ⟨hres.1, hq _ _ hres.2⟩
  · exact hres

/-- What the precondition says of values only can be used as a hypothesis. -/
theorem fact {c : Prop} (hc : ∀ t, P t → c) (hx : c → Logs h P x Q) : Logs h P x Q :=
  fun s hs hP => hx (hc _ hP) s hs hP

theorem pure {a : α} (hq : ∀ t, P t → Q a t) : Logs h P (Pure.pure a : Serve β α) Q :=
  fun _ hs hP => ⟨⟨hs, List.Subset.refl _⟩, hq _ hP⟩

theorem same {a : α} : Logs h P (Pure.pure a : Serve β α) fun _ => P := pure fun _ hp => hp

theorem done {a : α} : Logs h P (Pure.pure a : Serve β α) fun _ _ => True := pure fun _ _ => trivial

theorem throw (e : GoError) : Logs h P (throw e : Serve β α) Q :=
  fun _ hs _ => ⟨hs, List.Subset.refl _⟩

theorem bind {f : α → Serve β γ} (hx : Logs h P x Q) (hf : ∀ a, Logs h (Q a) (f a) R) :
    Logs h P (x >>= f) R := by
  intro s hs hP
  have hres := hx s hs hP
  show match EStateM.bind x f s with
    | .ok b s' => Grown h s s' ∧ R b (thisRequest s'.trace)
    | .error _ s' => Grown h s s'
  rw [EStateM.bind]
  split at hres
  next a s₁ heq =>
    obtain ⟨hgrown, hQ⟩ := hres
    rw [heq]
    have hnext := hf a s₁ hgrown.sound hQ
    dsimp only
    split at hnext
    · exact ⟨⟨hnext.1.sound, fun _ hm => hnext.1.sub (hgrown.sub hm)⟩, hnext.2⟩
    · exact ⟨hnext.sound, fun _ hm => hnext.sub (hgrown.sub hm)⟩
  next e s₁ heq =>
    rw [heq]
    exact hres

/-- What lasts is still there after the code. -/
theorem keep (hx : Logs h P x Q) (hF : Lasting F) : Logs h (fun t => P t ∧ F t) x fun a t => Q a t ∧
    F t := by
  intro s hs hP
  have hres := hx s hs hP.1
  split at hres
  · exact ⟨hres.1, hres.2, hF _ _ hres.1.sub hP.2⟩
  · exact hres

theorem lasting (hx : Logs h P x fun _ _ => True) (hP : Lasting P) : Logs h P x fun _ => P :=
  ((hx.keep hP).pre fun _ ht => ⟨ht, ht⟩).post fun _ _ ht => ht.2

theorem ite {c : Prop} [Decidable c] {y : Serve β α} (hx : c → Logs h P x Q)
    (hy : ¬c → Logs h P y Q) :
    Logs h P (if c then x else y) Q := by
  split
  · exact hx ‹_›
  · exact hy ‹_›

theorem failOn (mark : GoError → GoError) (e : Option GoError) :
    Logs h P (failOn mark e) fun _ => P := by
  cases e with
  | none => exact same
  | some e => exact throw _

/-- Behind a check, its negation can be used. -/
theorem check {c : Prop} [Decidable c] {e : GoError} {f : Unit → Serve β α}
    (hf : ¬c → Logs h P (f ()) Q) :
    Logs h P (failIf c e >>= f) Q := by
  have hcheck : Logs h P (failIf c e) fun _ t => P t ∧ ¬c :=
    ite (fun _ => throw e) fun hc => pure fun _ hp => ⟨hp, hc⟩
  exact hcheck.bind fun _ => fact (fun _ ht => ht.2) fun hc => (hf hc).pre fun _ ht => ht.1

theorem poll : Logs h P (readContextErr h) fun _ => P :=
  fun _ hs hP => ⟨⟨hs, List.Subset.refl _⟩, hP⟩

theorem stopped {f : Option GoError → Serve β α} (hstop : ∀ e, Logs h P (f (some e)) Q)
    (hgo : Logs h P (f none) Q) :
    Logs h P (Vhost.stopped h >>= f) Q := by
  have hask : Logs h P (Vhost.stopped h) fun _ => P := fun _ hs hP => ⟨⟨hs, List.Subset.refl _⟩, hP⟩
  refine hask.bind fun e => ?_
  cases e with
  | none => exact hgo
  | some e => exact hstop e

theorem get : Logs h P (MonadState.get : Serve β (Machine β)) fun _ => P :=
  fun _ hs hP => ⟨⟨hs, List.Subset.refl _⟩, hP⟩

/-- An access that is permitted, within a request. -/
theorem note {a : Access} (hne : a ≠ .request) (hp : ∀ t, P t → a.Permitted h t) (hP : Lasting P) :
    Logs h P (Vhost.note a) fun _ t => P t ∧ a ∈ t := by
  intro s hs hPs
  have hcons : thisRequest (a :: s.trace) = a :: thisRequest s.trace :=
    List.takeWhile_cons_of_pos (by simpa using hne)
  have hsub : thisRequest s.trace ⊆ thisRequest (a :: s.trace) := by
    rw [hcons]
    exact List.subset_cons_self ..
  refine ⟨⟨.cons (hp _ hPs) hs, hsub⟩, hP _ _ hsub hPs, ?_⟩
  rw [hcons]
  exact (.head _)

theorem bytesOf (hP : Lasting P) (hs : ∀ t, P t → MayRead h t s.cells) :
    Logs h P (Vhost.bytesOf s) fun _ => P := by
  intro m hm hPm
  have hnote := note (a := .read s) (by simp) hs hP m hm hPm
  exact ⟨hnote.1, hnote.2.1⟩

theorem copyTo {xs : List UInt8} (hP : Lasting P) (hs : ∀ t, P t → MayWrite h t s.cells) :
    Logs h P (Vhost.copyTo s xs) fun _ => P := by
  intro m hm hPm
  have hnote := note (a := .write s) (by simp) hs hP m hm hPm
  exact ⟨⟨hnote.1.sound, hnote.1.sub⟩, hnote.2.1⟩

end Logs

/-! ## Translation -/

/-- The table as `BindRegions` leaves it: a region's bytes are its part of the slab. -/
def Bound (regions : List MemRegion) : Prop :=
  ∀ r ∈ regions, r.mmap = ⟨r.mmapOffset, r.memorySize, r.memorySize⟩

section Translation

variable {h : Host β} {F : List Access → Prop} {Q : α → List Access → Prop} {addr length : Nat}
  {uva : Bool}
  {f : Slice → Serve β α}

theorem callLoaded_logs (hF : Lasting F) (ensureLoaded : Nat → Nat → Nat → Option GoError)
    (off length : Nat) :
    Logs h F (callLoaded ensureLoaded off length) fun _ t => F t ∧ Access.loaded off length ∈ t :=
  Logs.get.bind fun _ => (Logs.failOn _ _).bind fun _ => .note (by simp) (fun _ _ => trivial) hF

theorem callMark_logs (hF : Lasting F) (writable : Bool) (off length : Nat) :
    Logs h F (callMark h writable off length) fun _ t =>
      F t ∧ (writable = true → h.markDirty.isSome → Access.marked off length ∈ t) := by
  unfold callMark
  split
  next hnone =>
    refine .pure fun t hF => ⟨hF, fun hw hsome => ?_⟩
    rw [hw, if_pos rfl] at hnone
    rw [hnone] at hsome
    cases hsome
  · have hnote : Logs h F (note (.marked off length)) fun _ t => F t ∧
        Access.marked off length ∈ t :=
      Logs.note (by simp) (fun _ _ => trivial) hF
    refine hnote.bind fun _ => Logs.get.bind fun _ => ?_
    exact (Logs.failOn _ _).post fun _ t ht => ⟨ht.1, fun _ _ => ht.2⟩

/-- The next code gets a slice of the length, loaded and marked. -/
theorem Logs.translate (hb : Bound h.regions) (hF : Lasting F) {writable : Bool}
    (hf : ∀ s : Slice, s.len = length → Logs h (fun t => F t ∧ MayRead h t s.cells ∧
      (writable = true → MayWrite h t s.cells)) (f s) Q) :
    Logs h F (Vhost.translate h addr length uva writable >>= f) Q := by
  have hgrant : Logs h F (Vhost.translate h addr length uva writable) fun s t =>
      (F t ∧ MayRead h t s.cells ∧ (writable = true → MayWrite h t s.cells)) ∧ s.len = length := by
    refine Logs.poll.bind fun _ => (Logs.failOn _ _).bind fun _ => ?_
    split
    · exact .throw _
    next ensureLoaded _ =>
      refine .check fun _ => ?_
      split
      · exact .throw _
      next r hr =>
        have hmem := List.mem_of_find?_eq_some hr
        have hcover := List.find?_some hr
        simp only [MemRegion.covers, Bool.and_eq_true, decide_eq_true_eq] at hcover
        refine .check fun _ => (callLoaded_logs hF ensureLoaded _ _).bind fun _ => ?_
        refine Logs.poll.bind fun _ => (Logs.failOn _ _).bind fun _ => ?_
        refine (callMark_logs (hF.and fun t t' hsub ht => hsub ht) writable _ _).bind fun _ =>
          .pure fun t ht => ?_
        obtain ⟨⟨hFt, hl⟩, hm⟩ := ht
        have hload : MayRead h t (⟨r.mmap.base + (addr - r.base uva), length,
            r.mmap.cap - (addr - r.base uva)⟩ : Slice).cells := by
          intro c hc
          rw [mem_cells, hb r hmem] at hc
          exact ⟨r, hmem, _, _, hl, by omega, by omega, hc.1, hc.2⟩
        refine ⟨⟨hFt, hload, fun hw c hc => ⟨hload c hc, fun hsome => ?_⟩⟩, rfl⟩
        rw [mem_cells, hb r hmem] at hc
        exact ⟨_, _, hm hw hsome, hc.1, hc.2⟩
  exact hgrant.bind fun s => .fact (fun _ ht => ht.2) fun hlen => (hf s hlen).pre fun _ ht => ht.1

theorem Logs.loads (hb : Bound h.regions) (hF : Lasting F)
    (hf : ∀ s : Slice, s.len = length → Logs h (fun t => F t ∧ MayRead h t s.cells) (f s) Q) :
    Logs h F (Vhost.translate h addr length uva false >>= f) Q :=
  .translate hb hF fun s hlen => (hf s hlen).pre fun _ ht => ⟨ht.1, ht.2.1⟩

theorem Logs.grants (hb : Bound h.regions) (hF : Lasting F)
    (hf : ∀ s : Slice, s.len = length → Logs h (fun t => F t ∧ MayWrite h t s.cells) (f s) Q) :
    Logs h F (Vhost.translate h addr length uva true >>= f) Q :=
  .translate hb hF fun s hlen => (hf s hlen).pre fun _ ht => ⟨ht.1, ht.2.2 rfl⟩

end Translation

/-! ## Chains -/

/-- All slices of a chain came from `translate`. -/
structure Chain.Granted (c : Chain) (t : List Access) : Prop where
  reads : MayRead h t (cells c.readSegs)
  writes : MayWrite h t (cells c.writeSegs)

section Chains

variable {h : Host β}

theorem lasting_granted (h : Host β) (c : Chain) : Lasting (c.Granted h) := fun t t' hsub hc =>
  ⟨lasting_mayRead h _ t t' hsub hc.reads, lasting_mayWrite h _ t t' hsub hc.writes⟩

variable (hb : Bound h.regions)

include hb

theorem appendSeg_logs (c : Chain) (d : VringDesc) :
    Logs h (c.Granted h) (appendSeg h c d) fun c' => c'.Granted h := by
  refine .ite (fun _ => .pure fun _ hc => hc) fun _ => .ite (fun _ => ?_) fun _ => ?_
  · refine .grants hb (lasting_granted h c) fun s _ => .pure fun t ht => ⟨ht.1.reads, ?_⟩
    rw [cells_concat]
    exact fun x hx => (List.mem_append.1 hx).elim (ht.1.writes x) (ht.2 x)
  · refine .loads hb (lasting_granted h c) fun s _ => .pure fun t ht => ⟨?_, ht.1.writes⟩
    rw [cells_concat]
    exact fun x hx => (List.mem_append.1 hx).elim (ht.1.reads x) (ht.2 x)

theorem appendIndirect_logs (arr : Slice) (n i : Nat) (c : Chain) (hlen : (i + n) * 16 ≤ arr.len) :
    Logs h (fun t => c.Granted h t ∧ MayRead h t arr.cells) (appendIndirect h arr n i c)
      fun c' => c'.Granted h := by
  induction n generalizing i c with
  | zero => exact .pure fun _ hc => hc.1
  | succ n ih =>
    have hcut : ((arr.drop (i * 16)).take 16).cells ⊆ arr.cells := cells_window_subset (by omega)
    refine (Logs.bytesOf ((lasting_granted h c).and (lasting_mayRead h _)) fun t ht =>
      ht.2.sub hcut).bind fun bytes => ?_
    refine ((appendSeg_logs hb c _).keep (lasting_mayRead h arr.cells)).bind fun c' => ?_
    exact ih (i + 1) c' (by omega)

theorem readDesc_logs {F : List Access → Prop} (hF : Lasting F) (q : Virtq) (idx : Nat) :
    Logs h F (readDesc h q idx) fun _ => F := by
  refine .check fun _ => .loads hb hF fun b _ => ?_
  exact (Logs.bytesOf (hF.and (lasting_mayRead h _)) fun t ht => ht.2).bind fun _ =>
    .pure fun t ht => ht.1

theorem walkFrom_logs (q : Virtq) (fuel count idx : Nat) (c : Chain) :
    Logs h (c.Granted h) (walkFrom h q fuel count idx c) fun c' => c'.Granted h := by
  induction fuel generalizing count idx c with
  | zero => exact .throw _
  | succ fuel ih =>
    refine .check fun _ => (readDesc_logs hb (lasting_granted h c) q idx).bind fun d => ?_
    refine .ite (fun _ => .check fun _ => ?_) fun _ => ?_
    · refine .loads hb (lasting_granted h c) fun arr hlen => ?_
      refine (appendIndirect_logs hb arr _ 0 c (by omega)).bind fun c' => ?_
      exact .ite (fun _ => ih _ _ c') fun _ => .pure fun _ hc => hc
    · refine (appendSeg_logs hb c d).bind fun c' => ?_
      exact .ite (fun _ => ih _ _ c') fun _ => .pure fun _ hc => hc

theorem walkChain_logs (q : Virtq) (headIdx : Nat) :
    Logs h (fun _ => True) (walkChain h q headIdx) fun c => c.Granted h :=
  (walkFrom_logs hb q _ 0 headIdx ⟨[], []⟩).pre fun _ _ =>
    ⟨fun _ hc => absurd hc List.not_mem_nil, fun _ hc => absurd hc List.not_mem_nil⟩

end Chains

/-! ## Commands -/

variable {x : Serve β α}

section Commands

variable {h : Host β} {F : List Access → Prop}

/-- Code that does not touch guest memory. -/
theorem Logs.disk (hx : ∀ s, ∃ a d, x s = .ok a { s with disk := d }) : Logs h F x fun _ => F := by
  intro s hs hF
  obtain ⟨a, d, heq⟩ := hx s
  rw [heq]
  exact ⟨⟨hs, List.Subset.refl _⟩, hF⟩

theorem readBackendAt_logs (buf : List UInt8) (offset : Int) :
    Logs h F (readBackendAt h buf offset) fun _ => F := .disk fun _ => ⟨_, _, rfl⟩

theorem unlessStopped_logs : Logs h F (unlessStopped h) fun _ => F := .stopped .throw .same

variable (segs : List Slice)

theorem gatherInto_logs (front : List UInt8) :
    Logs h (fun t => MayWrite h t (cells segs)) (gatherInto h segs front) fun _ _ => True := by
  induction segs generalizing front with
  | nil => exact .done
  | cons seg segs ih =>
    refine .ite (fun _ => .done) fun _ => .stopped (fun _ => .done) ?_
    refine (Logs.copyTo (lasting_mayWrite h _) fun t ht => ht.sub ?_).bind fun _ =>
      (ih _).pre fun t ht => ht.sub ?_
    · exact List.subset_append_left ..
    · exact List.subset_append_right ..

/-- A direct window lies in the slices it was planned for. -/
theorem windowPlan_subset {segs : List Slice} {length : Nat} {buf : Slice}
    (hplan : (windowPlan segs length).1 = some buf) : buf.cells ⊆ cells segs := by
  unfold windowPlan at hplan
  split at hplan
  next b hw =>
    cases hplan
    rw [(contiguousWindow_cells hw).2.1]
    exact List.take_subset ..
  · split at hplan
    · cases hplan
      exact List.subset_append_left ..
    · cases hplan
  · cases hplan

theorem readWindow_logs (offset : Int) (segs : List Slice) (length : Nat) :
    Logs h (fun t => MayWrite h t (cells segs))
    (readWindow h offset segs length) fun _ _ => True := by
  have hsub : ∀ buf, (windowPlan segs length).1 = some buf → buf.cells ⊆ cells segs :=
    fun _ => windowPlan_subset
  have hlast := lasting_mayWrite h (cells segs)
  unfold readWindow
  generalize windowPlan segs length = plan at hsub ⊢
  obtain ⟨direct, len⟩ := plan
  dsimp -zeta only
  extract_lets rest
  have hrest : ∀ r, Logs h (fun t => MayWrite h t (cells segs)) (rest r) fun _ _ => True := by
    intro r
    refine .ite (fun _ => .done) fun _ => .stopped (fun _ => .done) ?_
    refine .ite (fun _ => .done) fun _ => .ite (fun _ => ?_) fun _ => .done
    refine (gatherInto_logs segs (r.buf.take r.n.toNat)).bind fun e => ?_
    cases e with
    | none | some e => exact .done
  cases direct with
  | none => exact (readBackendAt_logs _ _).bind hrest
  | some buf =>
    have hbuf := hsub buf rfl
    refine (Logs.bytesOf hlast fun t ht => ht.mayRead.sub hbuf).bind fun bytes => ?_
    refine (readBackendAt_logs _ _).bind fun r => ?_
    exact (Logs.copyTo hlast fun t ht => ht.sub hbuf).bind fun _ => hrest r

theorem readWindows_logs (offset : Int) (total fuel done : Nat) (segs : List Slice) :
    Logs h (fun t => MayWrite h t (cells segs)) (readWindows h offset total fuel done segs)
      fun _ _ => True := by
  induction fuel generalizing done segs with
  | zero => exact .done
  | succ fuel ih =>
    refine .ite (fun _ => .stopped (fun _ => .done) ?_) fun _ => .done
    refine ((readWindow_logs _ segs _).lasting (lasting_mayWrite h _)).bind fun (n, err) => ?_
    refine .ite (fun _ => .done) fun _ => (ih (done + n) (advance n segs)).pre fun t ht => ht.sub ?_
    rw [cells_advance]
    exact List.drop_subset ..

theorem withoutStatus_subset : cells (withoutStatus segs) ⊆ cells segs := by
  unfold withoutStatus
  split
  · exact List.nil_subset _
  next last hlast =>
    obtain ⟨front, rfl⟩ := List.getLast?_eq_some_iff.1 hlast
    rw [List.dropLast_concat, cells_append]
    split
    · exact List.subset_append_left ..
    rw [cells_append]
    refine List.append_subset.2 ⟨List.subset_append_left .., ?_⟩
    refine List.Subset.trans ?_ (List.subset_append_right ..)
    rw [cells_cons, cells_cons, cells_nil, List.append_nil, List.append_nil]
    exact cells_take_subset (Nat.sub_le ..)

theorem serveIn_logs (sector : Nat) (c : Chain) :
    Logs h (c.Granted h) (serveIn h sector c) fun _ => c.Granted h := by
  have hpayload : Logs h (fun t => MayWrite h t (cells (withoutStatus c.writeSegs)))
      (readPayload h sector (withoutStatus c.writeSegs)) fun _ _ => True := by
    unfold readPayload
    split
    · exact .done
    · exact .ite (fun _ => .done) fun _ => .ite (fun _ => .done) fun _ => readWindows_logs _ _ _ _ _
  refine ((hpayload.keep (lasting_granted h c)).pre fun t ht =>
    ⟨ht.writes.sub (withoutStatus_subset _), ht⟩).bind ?_
  rintro ⟨n, err⟩
  cases err with
  | none => exact .pure fun _ ht => ht.2
  | some e => exact .ite (fun _ => .throw e) fun _ => .pure fun _ ht => ht.2

theorem writeSegments_logs (offset : Int) :
    Logs h (fun t => MayRead h t (cells segs)) (writeSegments h segs offset) fun _ _ => True := by
  induction segs generalizing offset with
  | nil => exact .done
  | cons seg segs ih =>
    refine (Logs.bytesOf (lasting_mayRead h _) fun t ht => ht.sub (List.subset_append_left ..)).bind
      fun bytes => ?_
    refine (Logs.disk fun _ => ⟨_, _, rfl⟩).bind fun r => ?_
    cases r.err with
    | some e => exact .ite (fun _ => .throw e) fun _ => .stopped .throw .done
    | none => exact .stopped .throw ((ih _).pre fun t ht => ht.sub (List.subset_append_right ..))

theorem rangeBytes_logs (bytes : List UInt8) :
    Logs h (fun t => MayRead h t (cells segs)) (rangeBytes segs bytes) fun _ _ => True := by
  induction segs generalizing bytes with
  | nil => exact .done
  | cons seg segs ih =>
    refine .ite (fun _ => .done) fun _ => ?_
    refine (Logs.bytesOf (lasting_mayRead h _) fun t ht => ht.sub (List.subset_append_left ..)).bind
      fun _ => ?_
    exact (ih _).pre fun t ht => ht.sub (List.subset_append_right ..)

theorem discardChain_logs (c : Chain) :
    Logs h (c.Granted h) (discardChain h c) fun _ _ => True := by
  refine ((rangeBytes_logs _ _).pre fun t ht => ht.reads.sub ?_).bind fun r => ?_
  · cases r with
    | none => exact .done
    | some bytes => exact .ite (fun _ => .done) fun _ => .disk fun _ => ⟨_, _, rfl⟩
  split
  · exact List.nil_subset _
  next first rest heq =>
    rw [heq, cells_cons, cells_cons]
    exact List.append_subset.2 ⟨List.Subset.trans (cells_drop_subset first 16)
      (List.subset_append_left ..), List.subset_append_right ..⟩

theorem serveCommand_logs (hdr : BlkReqHeader) (c : Chain) :
    Logs h (c.Granted h) (serveCommand h hdr c) fun _ => c.Granted h := by
  have hkeep : ∀ {x : Serve β UInt8}, Logs h (c.Granted h) x (fun _ _ => True) →
      Logs h (c.Granted h) (do return (← x, 0)) fun (_ : UInt8 × Nat) => c.Granted h := fun hx =>
    (hx.lasting (lasting_granted h c)).bind fun _ => .same
  unfold serveCommand
  split
  · exact serveIn_logs _ c
  · refine hkeep ((writeSegments_logs _ _).pre fun t ht => ht.reads.sub ?_)
    cases c.readSegs with
    | nil => exact List.nil_subset _
    | cons first rest => exact List.subset_append_right ..
  · exact hkeep ((Logs.disk fun _ => ⟨_, _, rfl⟩).post fun _ _ _ => trivial)
  · exact hkeep (.ite (fun _ => .done) fun _ => discardChain_logs c)
  · exact .same

theorem serveChain_logs (c : Chain) : Logs h (c.Granted h) (serveChain h c) fun _ _ => True := by
  have hlast := lasting_granted h c
  unfold serveChain
  split
  next header rest statusSeg hreads hstatus =>
    have hheader : header.cells ⊆ cells c.readSegs := by
      rw [hreads]
      exact List.subset_append_left ..
    have hcell : (statusSeg.drop (statusSeg.len - 1)).cells ⊆ cells c.writeSegs := by
      obtain ⟨front, hfront⟩ := List.getLast?_eq_some_iff.1 hstatus
      rw [hfront, cells_concat]
      exact List.Subset.trans (cells_drop_subset statusSeg _) (List.subset_append_right ..)
    refine (Logs.bytesOf hlast fun t ht => ht.reads.sub hheader).bind fun bytes => ?_
    cases parseBlkReqHeader bytes with
    | error e => exact .throw e
    | ok hdr =>
      refine (serveCommand_logs hdr c).bind fun (status, n) => unlessStopped_logs.bind fun _ => ?_
      refine (Logs.copyTo hlast fun t ht => ht.writes.sub hcell).bind fun _ => ?_
      refine .bind (Q := fun _ _ => True) ?_ fun _ => .done
      unfold countStats
      split
      · exact (Logs.bytesOf hlast fun t ht => ht.writes.mayRead.sub hcell).bind fun _ => .done
      · exact .done
  · exact .throw _

theorem processChain_logs (hb : Bound h.regions) (q : Virtq) (headIdx : Nat) :
    Logs h (fun _ => True) (processChain h q headIdx) fun _ _ => True :=
  unlessStopped_logs.bind fun _ => (walkChain_logs hb q headIdx).bind serveChain_logs

end Commands

/-! ## The queue -/

/-- The machine that a run leaves, with or without an error. -/
def left : EStateM.Result GoError (Machine β) α → Machine β
  | .ok _ s => s
  | .error _ s => s

/-- What a run from here does with guest memory. -/
def accesses (x : Serve β α) (s : Machine β) : List Access :=
  (left (x { s with trace := [] })).trace

/-- A sound trace is sound after the code, over any number of requests. -/
def KeepsSound (x : Serve β α) : Prop := ∀ s, Sound h s.trace → Sound h (left (x s)).trace

section Queue

variable {h : Host β}

theorem Logs.keepsSound {Q : α → List Access → Prop} (hx : Logs h (fun _ => True) x Q) :
    KeepsSound h x := by
  intro s hs
  have hres := hx s hs trivial
  cases hxs : x s with
  | ok a s' =>
    rw [hxs] at hres
    exact hres.1.sound
  | error e s' =>
    rw [hxs] at hres
    exact hres.sound

namespace KeepsSound

theorem pure (a : α) : KeepsSound h (Pure.pure a : Serve β α) := fun _ hs => hs

theorem bind {f : α → Serve β γ} (hx : KeepsSound h x) (hf : ∀ a, KeepsSound h (f a)) :
    KeepsSound h (x >>= f) := by
  intro s hs
  have hres := hx s hs
  show Sound h (left (EStateM.bind x f s)).trace
  rw [EStateM.bind]
  cases hxs : x s with
  | ok a s' =>
    rw [hxs] at hres
    exact hf a s' hres
  | error e s' =>
    rw [hxs] at hres
    exact hres

theorem attempt (hx : KeepsSound h x) : KeepsSound h (attempt x) := by
  intro s hs
  have hres := hx s hs
  unfold Vhost.attempt
  cases hxs : x s with
  | ok a s' | error e s' =>
    rw [hxs] at hres
    exact hres

end KeepsSound

theorem validateVringHeader_logs {F : List Access → Prop} (hdr : Slice) (addr alignment : Nat) :
    Logs h F (validateVringHeader hdr addr alignment) fun _ t => F t ∧ 4 ≤ hdr.len :=
  .check fun hlen => .ite (fun _ => .throw _) fun _ => .pure fun _ ht => ⟨ht, not_lt.1 hlen⟩

theorem loadAvailIdxAcquire_logs (hdr : Slice) (addr : Nat) :
    Logs h (fun t => MayRead h t hdr.cells) (loadAvailIdxAcquire hdr addr) fun _ t =>
      MayRead h t hdr.cells := by
  have hread : ∀ {s : Slice}, s.cells ⊆ hdr.cells → Logs h (fun t => MayRead h t hdr.cells)
      (bytesOf s) fun _ t => MayRead h t hdr.cells := fun hsub =>
    Logs.bytesOf (lasting_mayRead h _) fun t ht => ht.sub hsub
  refine (validateVringHeader_logs hdr addr 2).bind fun _ => .fact (fun t ht => ht.2) fun hlen => ?_
  refine .pre (.ite (fun _ => ?_) fun _ => .check fun hsix => ?_) fun t ht => ht.1
  · exact (hread (cells_take_subset hlen)).bind fun _ => .same
  · exact (hread (cells_window_subset (by omega))).bind fun _ => .same

theorem readRing_logs (hdr : Slice) (n i : Nat) (hlen : 4 + (i + n) * 2 ≤ hdr.len) :
    Logs h (fun t => MayRead h t hdr.cells) (readRing hdr n i) fun _ t => MayRead h t
      hdr.cells := by
  induction n generalizing i with
  | zero => exact .same
  | succ n ih =>
    have hsub : ((hdr.drop (4 + i * 2)).take 2).cells ⊆ hdr.cells := cells_window_subset (by omega)
    refine (Logs.bytesOf (lasting_mayRead h _) fun t ht => ht.sub hsub).bind fun _ => ?_
    exact (ih (i + 1) (by omega)).bind fun _ => .same

section

variable (hb : Bound h.regions)

include hb

theorem readAvailRing_logs (q : Vring) :
    Logs h (fun _ => True) (readAvailRing h q) fun _ _ => True := by
  refine .loads hb (fun _ _ _ ht => ht) fun hdr hlen => ?_
  have hflags : (hdr.take 2).cells ⊆ hdr.cells := cells_take_subset (by omega)
  refine ((loadAvailIdxAcquire_logs hdr _).pre fun t ht => ht.2).bind fun idx => ?_
  refine (Logs.bytesOf (lasting_mayRead h _) fun t ht => ht.sub hflags).bind fun _ => ?_
  exact (readRing_logs hdr q.num 0 (by omega)).bind fun _ => .done

theorem publishUsed_logs (q : Vring) (descIdx length : Nat) :
    Logs h (fun _ => True) (publishUsed h q descIdx length) fun _ _ => True := by
  refine .grants hb (fun _ _ _ ht => ht) fun usedHeader _ => ?_
  have hheader : Lasting fun t => MayWrite h t usedHeader.cells := lasting_mayWrite h _
  refine ((validateVringHeader_logs usedHeader _ 4).pre fun t ht => ht.2).bind fun _ => ?_
  refine ((Logs.bytesOf hheader fun t ht => ht.mayRead).pre fun t ht => ht.1).bind fun header => ?_
  refine .check fun _ => .grants hb hheader fun entry hlen => ?_
  have hboth : Lasting fun t => MayWrite h t usedHeader.cells ∧ MayWrite h t entry.cells :=
    hheader.and (lasting_mayWrite h _)
  have hlow : (entry.take 4).cells ⊆ entry.cells := cells_take_subset (by omega)
  have hhigh : ((entry.drop 4).take 4).cells ⊆ entry.cells := cells_window_subset (by omega)
  refine (Logs.copyTo hboth fun t ht => ht.2.sub hlow).bind fun _ => ?_
  refine (Logs.copyTo hboth fun t ht => ht.2.sub hhigh).bind fun _ => ?_
  exact (Logs.copyTo hboth fun t ht => ht.1).post fun _ _ _ => trivial

theorem serveEntry_keepsSound (q : Vring) (descIdx : Nat) :
    KeepsSound h (serveEntry h q descIdx) := by
  have hnote : KeepsSound h (note .request : Serve β Unit) := fun s hs => .cons trivial hs
  have hpublish :
      ∀ written, KeepsSound h (unlessStopped h >>= fun _ => publishUsed h q descIdx written) :=
    fun written =>
      (unlessStopped_logs.bind fun _ => publishUsed_logs hb q descIdx written).keepsSound
  refine hnote.bind fun _ => unlessStopped_logs.keepsSound.bind fun _ => ?_
  refine (processChain_logs hb q.toVirtq descIdx).keepsSound.attempt.bind fun r => ?_
  cases r with
  | ok written => exact hpublish written
  | error e =>
    show KeepsSound h (if isTerminal e then throw e else _)
    split
    · exact fun s hs => hs
    · exact hpublish 0

theorem serveEntries_keepsSound (q : Vring) (avail : AvailSnapshot) (fuel baseIdx : Nat) :
    KeepsSound h (serveEntries h q avail fuel baseIdx) := by
  induction fuel generalizing baseIdx with
  | zero => exact .pure _
  | succ fuel ih =>
    unfold serveEntries
    split
    · exact .pure _
    refine (serveEntry_keepsSound hb q _).attempt.bind fun r => ?_
    cases r with
    | error e => exact .pure _
    | ok u => exact ih _

theorem processQueue_keepsSound (q : Vring) : KeepsSound h (processQueue h q) := by
  refine (readAvailRing_logs hb q).keepsSound.attempt.bind fun r => ?_
  cases r with
  | error e => exact .pure _
  | ok avail => exact serveEntries_keepsSound hb q avail _ _

end

end Queue

/-- A table that `BindRegions` accepts is bound to the slab. -/
theorem bound_of_bindRegions {regs : List WireRegion} {inodes : List (Except GoError Nat)}
    {expectedInode slab : Nat} {regions : List MemRegion}
    (h : bindRegions regs inodes expectedInode slab = .ok regions) : Bound regions := by
  unfold bindRegions at h
  split at h
  · cases h
  split at h
  · cases h
  generalize regs.zip inodes = pairs at h
  induction pairs generalizing regions with
  | nil =>
    cases h
    exact fun r hr => absurd hr List.not_mem_nil
  | cons p pairs ih =>
    rw [List.mapM_cons] at h
    obtain ⟨r, hr, h⟩ := bind_eq_ok.1 h
    obtain ⟨rs, hrs, h⟩ := bind_eq_ok.1 h
    cases h
    refine List.forall_mem_cons.2 ⟨?_, ih hrs⟩
    obtain ⟨inode, -, hr⟩ := bind_eq_ok.1 hr
    split at hr
    · cases hr
    unfold WireRegion.bind at hr
    dsimp only at hr
    split at hr
    · cases hr
    · cases hr
      rfl

/-- Every byte of guest memory that serving a queue reads or writes is in a range
of one region that was loaded in the same request, and every byte it writes was
passed to `MarkDirty` before. -/
theorem dma_loaded_and_logged {h : Host β} {regs : List WireRegion}
    {inodes : List (Except GoError Nat)}
    {expectedInode slab : Nat} (hbind : bindRegions regs inodes expectedInode slab = .ok h.regions)
    (q : Vring) (s : Machine β) : Sound h (accesses (processQueue h q) s) :=
  processQueue_keepsSound (bound_of_bindRegions hbind) q _ .nil

/-- The host of the OUT above with a dirty tracker, and the same request in a ring at 1600. -/
def trackedHost : Host Upper := { outHost with markDirty := some fun _ _ _ => none }

def trackedMachine : Machine Upper :=
  { outMachine with mem := Function.update outMachine.mem 1602 1 }

def trackedRing : Vring := { outQueue with availAddr := 5696, usedAddr := 5796, baseIdx := 0 }

theorem dma_loaded_and_logged_out :
    Sound trackedHost (accesses (processQueue trackedHost trackedRing) trackedMachine) ∧
      (accesses (processQueue trackedHost trackedRing) trackedMachine).contains
      (.write ⟨1536, 1, 512⟩) = true :=
  ⟨dma_loaded_and_logged (rfl : bindRegions [⟨0, 2048, 4096, 0⟩] [.ok 7] 7 2048 = _) trackedRing
    trackedMachine, by decide +kernel⟩

end Sandboxer.Vhost
