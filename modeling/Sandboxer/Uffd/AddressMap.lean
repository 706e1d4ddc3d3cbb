import Sandboxer.Uffd.PageState
import Mathlib.Data.List.Pairwise

/-! # The address map

`AddressMap` of `uffd/addrmap.go`: which virtual ranges of Cloud Hypervisor and
of the backend map which bytes of the memfd, and which userfaultfd owns a
range. A map carries that its ranges are page aligned, inside the memfd, and
that two ranges of one process overlap neither in addresses nor in the memfd;
every operation of the source keeps it, so the lookups below have at most one
candidate. Descriptor 0 is a staged registration. -/
namespace Sandboxer.Uffd

inductive ProcessKind where
  | backend
  | ch
  deriving DecidableEq, Repr

/-- `vma`; `stop` is the source's `end`. -/
structure Vma where
  process : ProcessKind
  start : Nat
  stop : Nat
  memfdOffset : Nat
  uffdFD : Nat
  invalid : Bool
  deriving DecidableEq, Repr

namespace Vma

def memfdEnd (v : Vma) : Nat := v.memfdOffset + (v.stop - v.start)

/-- The memfd byte `off` is mapped by this range. -/
def Holds (v : Vma) (off : Nat) : Prop := v.memfdOffset ≤ off ∧ off < v.memfdEnd

instance (v : Vma) (off : Nat) : Decidable (v.Holds off) := by unfold Holds; infer_instance

/-- The address `va` is inside this range. -/
def Spans (v : Vma) (va : Nat) : Prop := v.start ≤ va ∧ va < v.stop

instance (v : Vma) (va : Nat) : Decidable (v.Spans va) := by unfold Spans; infer_instance

/-- A range a userfaultfd event or ioctl of `fd` may refer to. -/
def OwnedBy (v : Vma) (fd : Nat) : Prop := v.process = .ch ∧ v.uffdFD = fd ∧ v.invalid = false

instance (v : Vma) (fd : Nat) : Decidable (v.OwnedBy fd) := by unfold OwnedBy; infer_instance

structure Aligned (memfdLen : Nat) (v : Vma) : Prop where
  nonempty : v.start < v.stop
  start : pageSize ∣ v.start
  stop : pageSize ∣ v.stop
  offset : pageSize ∣ v.memfdOffset
  bounded : v.memfdEnd ≤ memfdLen

/-- Two ranges of one process share no address and no memfd byte. -/
def Apart (v w : Vma) : Prop := v.process = w.process → (v.stop ≤ w.start ∨ w.stop ≤ v.start) ∧
    (v.memfdEnd ≤ w.memfdOffset ∨ w.memfdEnd ≤ v.memfdOffset)

variable {v : Vma}

theorem Apart.symm {w : Vma} (h : v.Apart w) : w.Apart v :=
  fun hp => ⟨(h hp.symm).1.symm, (h hp.symm).2.symm⟩

instance : Std.Symm Apart := ⟨fun _ _ => .symm⟩

/-- The range `p` is a part of `v`: inside it, at the same distance between address and
memfd offset. -/
structure Part (p v : Vma) : Prop where
  process : p.process = v.process
  start : v.start ≤ p.start
  stop : p.stop ≤ v.stop
  offset : p.memfdOffset = v.memfdOffset + (p.start - v.start)
  nonempty : p.start < p.stop

theorem Part.memfd {p : Vma} (h : p.Part v) :
    v.memfdOffset ≤ p.memfdOffset ∧ p.memfdEnd ≤ v.memfdEnd := by
  have h1 := h.start
  have h2 := h.stop
  have h3 := h.offset
  have h4 := h.nonempty
  unfold memfdEnd
  omega

theorem Part.apart {p q w : Vma} (hp : p.Part v) (hq : q.Part w) (h : v.Apart w) : p.Apart q := by
  intro hproc
  obtain ⟨hva, hoff⟩ := h (by rw [← hp.process, hproc, hq.process])
  have h1 := hp.start
  have h2 := hp.stop
  have h3 := hq.start
  have h4 := hq.stop
  have h5 := hp.memfd
  have h6 := hq.memfd
  omega

end Vma

structure AddressMap where
  memfdLen : Nat
  vmas : List Vma
  aligned : ∀ v ∈ vmas, v.Aligned memfdLen
  apart : vmas.Pairwise Vma.Apart

inductive RegisterError where
  | invalidOrUnaligned
  | exceedsMemfd
  | overlappingAddresses
  | overlappingMemfd
  deriving DecidableEq, Repr

namespace AddressMap

/-- `NewAddressMap`. -/
def new (memfdLen : Nat) : AddressMap := ⟨memfdLen, [], by simp, .nil⟩

variable {v w : Vma}

variable {va : Nat}

/-- Two ranges of Cloud Hypervisor that contain one address are the same. -/
theorem eq_of_spans (m : AddressMap) (hv : v ∈ m.vmas) (hw : w ∈ m.vmas)
    (hp : v.process = w.process) (hsv : v.Spans va) (hsw : w.Spans va) : v = w := by
  by_contra hne
  have := (m.apart.forall hv hw hne hp).1
  have h1 := hsv.1
  have h2 := hsv.2
  have h3 := hsw.1
  have h4 := hsw.2
  omega

/-- The scan of `RegisterVMA` over the ranges of the same process. -/
def overlap (new : Vma) : List Vma → Option RegisterError
  | [] => none
  | v :: vs =>
    if v.process ≠ new.process then overlap new vs
    else if new.start < v.stop ∧ v.start < new.stop then some .overlappingAddresses
    else if new.memfdOffset < v.memfdEnd ∧ v.memfdOffset < new.memfdEnd then
      some .overlappingMemfd
    else overlap new vs

theorem overlap_none {n : Vma} {vs : List Vma} (h : overlap n vs = none) : ∀ v ∈ vs, n.Apart v := by
  induction vs with
  | nil => simp
  | cons v vs ih =>
    unfold overlap at h
    intro w hw
    rcases List.mem_cons.1 hw with rfl | hw
    · intro hp
      rw [if_neg (by simp [hp])] at h
      split at h
      · cases h
      · split at h
        · cases h
        · omega
    · refine ih ?_ w hw
      split at h
      · exact h
      split at h
      · cases h
      · split at h
        · cases h
        · exact h

variable {m : AddressMap}

theorem aligned_append (hv : v.Aligned m.memfdLen) : ∀ w ∈ m.vmas ++ [v], w.Aligned m.memfdLen := by
  intro w hw
  rcases List.mem_append.1 hw with hw | hw
  · exact m.aligned w hw
  · rwa [List.mem_singleton.1 hw]

theorem apart_append (hv : ∀ w ∈ m.vmas, v.Apart w) : (m.vmas ++ [v]).Pairwise Vma.Apart := by
  refine List.pairwise_append.2 ⟨m.apart, List.pairwise_singleton _ _, ?_⟩
  intro x hx y hy
  rw [List.mem_singleton.1 hy]
  exact (hv x hx).symm

variable {off : Nat}

theorem staged_aligned {p : ProcessKind} {vaStart size : Nat}
    (hr : ¬(size = 0 ∨ 2 ^ 64 - 1 - size < vaStart ∨ vaStart % pageSize ≠ 0 ∨
      size % pageSize ≠ 0 ∨ off % pageSize ≠ 0))
    (hb : ¬m.memfdLen < off + size) :
    Vma.Aligned m.memfdLen ⟨p, vaStart, vaStart + size, off, 0, false⟩ := by
  simp only [pageSize] at hr
  constructor <;> simp only [Vma.memfdEnd, pageSize] <;> omega

variable (m)

/-- `RegisterVMA`: stage a range with no descriptor. -/
def registerVMA (p : ProcessKind) (vaStart size memfdOffset : Nat) :
    Except RegisterError AddressMap :=
  let v : Vma := ⟨p, vaStart, vaStart + size, memfdOffset, 0, false⟩
  if hr : size = 0 ∨ 2 ^ 64 - 1 - size < vaStart ∨ vaStart % pageSize ≠ 0 ∨
      size % pageSize ≠ 0 ∨ memfdOffset % pageSize ≠ 0 then .error .invalidOrUnaligned
  else if hb : m.memfdLen < memfdOffset + size then .error .exceedsMemfd
  else match ho : overlap v m.vmas with
    | some e => .error e
    | none => .ok ⟨m.memfdLen, m.vmas ++ [v], aligned_append (staged_aligned hr hb),
        apart_append (overlap_none ho)⟩

/-- The first range of Cloud Hypervisor that maps the memfd byte `off`. -/
def regionAt (off : Nat) : Option Vma :=
  m.vmas.find? fun v => decide (v.process = .ch) && decide (v.Holds off)

/-- `Locate`: the memfd offset of an address of Cloud Hypervisor. -/
def locate (faultVA : Nat) : Option Nat :=
  (m.vmas.find? fun v => decide (v.process = .ch) && decide (v.Spans faultVA)).map fun v =>
    v.memfdOffset + (faultVA - v.start)

def chRegionRemaining (memfdOffset reqLen : Nat) : Nat × Bool :=
  match m.regionAt memfdOffset with
  | none => (reqLen, false)
  | some v =>
    let avail := v.memfdEnd - memfdOffset
    (if avail < reqLen then avail else reqLen, true)

def chRegionBounds (memfdOffset : Nat) : Option (Nat × Nat) :=
  (m.regionAt memfdOffset).map fun v => (v.memfdOffset, v.memfdEnd)

/-- What `registration` returns: a staged or missing range has descriptor 0. -/
structure Registration where
  va : Nat
  fd : Nat
  covered : Nat
  deriving DecidableEq, Repr

/-- `registration`; `none` is the error of an unmapped range. -/
def registration (off length : Nat) : Option Registration :=
  match m.regionAt off with
  | none => some ⟨0, 0, 0⟩
  | some v =>
    if v.invalid then none
    else some ⟨v.start + (off - v.memfdOffset), v.uffdFD,
      min length (v.stop - v.start - (off - v.memfdOffset))⟩

def owns (fd va off length : Nat) : Bool :=
  match m.registration off length with
  | none => false
  | some r => r.fd == fd && decide (0 < fd) && r.va == va && r.covered == length

variable {m}

theorem regionAt_some (h : m.regionAt off = some v) :
    v ∈ m.vmas ∧ v.process = .ch ∧ v.Holds off := by
  have hp := List.find?_some h
  simp only [Bool.and_eq_true, decide_eq_true_eq] at hp
  exact ⟨List.mem_of_find?_eq_some h, hp⟩

/-- The ioctl range `[va, va+length)` lies in one valid registration of `fd`
and starts at the memfd byte `off`. -/
def Within (m : AddressMap) (fd va off length : Nat) : Prop :=
  ∃ v ∈ m.vmas, v.OwnedBy fd ∧ 0 < fd ∧ v.start ≤ va ∧ va + length ≤ v.stop ∧
    off = v.memfdOffset + (va - v.start)

variable {fd : Nat}

theorem owns_within {length : Nat} (h : m.owns fd va off length = true) :
    m.Within fd va off length := by
  unfold owns registration at h
  cases hr : m.regionAt off with
  | none => simp [hr] at h; omega
  | some v =>
    obtain ⟨hv, hp, hlo, hhi⟩ := regionAt_some hr
    cases hi : v.invalid with
    | true => simp [hr, hi] at h
    | false =>
      simp only [hr, hi, Bool.false_eq_true, if_false, Bool.and_eq_true, beq_iff_eq,
        decide_eq_true_eq] at h
      obtain ⟨⟨⟨hfd, hpos⟩, hva⟩, hcov⟩ := h
      unfold Vma.memfdEnd at hhi
      exact ⟨v, hv, ⟨hp, hfd, hi⟩, hpos, by omega, by omega, by omega⟩

theorem locate_eq_some : m.locate va = some off ↔
    ∃ v ∈ m.vmas, v.process = .ch ∧ v.Spans va ∧ off = v.memfdOffset + (va - v.start) := by
  unfold locate
  rw [Option.map_eq_some_iff]
  constructor
  · rintro ⟨v, hf, rfl⟩
    have hv := List.find?_some hf
    simp only [Bool.and_eq_true, decide_eq_true_eq] at hv
    exact ⟨v, List.mem_of_find?_eq_some hf, hv.1, hv.2, rfl⟩
  · rintro ⟨v, hv, hp, hspan, rfl⟩
    cases hf : m.vmas.find? fun v => decide (v.process = .ch) && decide (v.Spans va) with
    | none =>
      have := List.find?_eq_none.1 hf v hv
      simp [hp, hspan] at this
    | some w =>
      have hw := List.find?_some hf
      simp only [Bool.and_eq_true, decide_eq_true_eq] at hw
      rw [m.eq_of_spans (List.mem_of_find?_eq_some hf) hv (hw.1.trans hp.symm) hw.2 hspan]
      exact ⟨v, rfl, rfl⟩

/-- An owned range of positive length is found again by `Locate`. -/
theorem Within.locate {length : Nat} (h : m.Within fd va off length)
    (hl : 0 < length) : m.locate va = some off := by
  obtain ⟨v, hv, ⟨hp, _, _⟩, _, hlo, hhi, hoff⟩ := h
  exact locate_eq_some.2 ⟨v, hv, hp, ⟨hlo, by omega⟩, hoff⟩

/-! ## Adopting and dropping registrations -/

variable (m)

/-- Give the ranges that `p` selects the descriptor `fd`. -/
def rebind (p : Vma → Bool) (fd : Nat) : AddressMap where
  memfdLen := m.memfdLen
  vmas := m.vmas.map fun v => if p v then { v with uffdFD := fd } else v
  aligned := by
    intro w hw
    obtain ⟨v, hv, rfl⟩ := List.mem_map.1 hw
    have h := m.aligned v hv
    split
    · exact ⟨h.nonempty, h.start, h.stop, h.offset, h.bounded⟩
    · exact h
  apart := by
    refine List.pairwise_map.2 (m.apart.imp ?_)
    intro v w h
    split <;> split <;> exact h

/-- `bindInitial`: the map must hold exactly one range of Cloud Hypervisor,
staged and valid, and that range is adopted. -/
def bindInitial (fd : Nat) : Option AddressMap :=
  match m.vmas.filter fun v => v.process = .ch with
  | [v] =>
    if v.uffdFD ≠ 0 ∨ v.invalid then none
    else some (m.rebind (fun w => w.process = .ch) fd)
  | _ => none

/-- The adoption step of `AddUffd`. Ranges of one process are apart, so at
most one is staged at `va`, the one the source's loop stops at. -/
def bindStaged (fd va off : Nat) : AddressMap :=
  m.rebind (fun v => v.process = .ch ∧ v.start = va ∧ v.memfdOffset = off ∧ v.uffdFD = 0) fd

def removeStaged (va size off : Nat) : AddressMap where
  memfdLen := m.memfdLen
  vmas := m.vmas.eraseP fun v =>
    v.process = .ch ∧ v.start = va ∧ v.stop - va = size ∧ v.memfdOffset = off
  aligned := fun v hv => m.aligned v (List.mem_of_mem_eraseP hv)
  apart := m.apart.sublist List.eraseP_sublist

variable {m}

theorem registerVMA_ok {m' : AddressMap} {p : ProcessKind} {size : Nat}
    (h : m.registerVMA p va size off = .ok m') :
    m'.memfdLen = m.memfdLen ∧ m'.vmas = m.vmas ++ [⟨p, va, va + size, off, 0, false⟩] ∧
      0 < size ∧ ∀ w ∈ m.vmas, Vma.Apart ⟨p, va, va + size, off, 0, false⟩ w := by
  unfold registerVMA at h
  simp only at h
  split at h
  · cases h
  split at h
  · cases h
  split at h
  · cases h
  next hr _ ho =>
    cases h
    exact ⟨rfl, rfl, by omega, overlap_none ho⟩

section Staged

variable {m m' : AddressMap} {va size off : Nat}

/-- Every range of Cloud Hypervisor has been adopted. -/
def Bound (m : AddressMap) : Prop := ∀ v ∈ m.vmas, v.process = .ch → v.uffdFD ≠ 0

/-- Adopting the staged range leaves the others alone. -/
theorem bindStaged_vmas (h : m.registerVMA .ch va size off = .ok m') (fd : Nat) :
    (m'.bindStaged fd va off).vmas = m.vmas ++ [⟨.ch, va, va + size, off, fd, false⟩] := by
  obtain ⟨_, hv, hpos, hap⟩ := registerVMA_ok h
  simp only [bindStaged, rebind, hv, List.map_append, List.map_cons, List.map_nil]
  congr 1
  refine (List.map_congr_left fun v hv => ?_).trans (List.map_id _)
  rw [if_neg]
  · rfl
  simp only [decide_eq_true_eq, not_and]
  intro hp hs
  have hva := (hap v hv hp.symm).1
  have hne := (m.aligned v hv).nonempty
  simp only at hva
  omega

/-- Dropping the staged range, adopted or not, leaves the others. -/
theorem removeStaged_vmas (h : m.registerVMA .ch va size off = .ok m') {n : AddressMap}
    (hn : n.vmas = m.vmas ++ [⟨.ch, va, va + size, off, fd, false⟩]) :
    (n.removeStaged va size off).vmas = m.vmas := by
  obtain ⟨_, _, hpos, hap⟩ := registerVMA_ok h
  simp only [removeStaged, hn]
  rw [List.eraseP_append_right]
  · simp
  intro v hv
  simp only [decide_eq_true_eq, not_and]
  intro hp hs ht _
  have hva := (hap v hv hp.symm).1
  simp only at hva
  omega

end Staged

/-! ## Tombstones of unmapped ranges -/

/-- The loop body of `invalidate`: what takes the place of one range, and what
is appended. -/
def invalidateOne (fd start stop : Nat) (v : Vma) : Vma × List Vma :=
  if v.process ≠ .ch ∨ v.uffdFD ≠ fd ∨ v.invalid ∨ v.stop ≤ start ∨ stop ≤ v.start then (v, [])
  else
    let lo := max start v.start
    let hi := min stop v.stop
    let pre := { v with stop := lo }
    let suffix := { v with start := hi, memfdOffset := v.memfdOffset + (hi - v.start) }
    ({ v with memfdOffset := v.memfdOffset + (lo - v.start), start := lo, stop := hi, invalid :=
      true }, (if v.start < lo then [pre] else []) ++ if hi < v.stop then [suffix] else [])

section InvalidateOne

variable {fd start stop : Nat} {v w : Vma}

theorem invalidateOne_fst_part (hv : v.start < v.stop) (h : start < stop) :
    (invalidateOne fd start stop v).1.Part v := by
  unfold invalidateOne
  split
  · exact ⟨rfl, Nat.le_refl _, Nat.le_refl _, by simp, hv⟩
  · constructor <;> simp <;> omega

theorem invalidateOne_snd_part (hw : w ∈ (invalidateOne fd start stop v).2) : w.Part v := by
  unfold invalidateOne at hw
  split at hw
  · cases hw
  rcases List.mem_append.1 hw with hw | hw
  all_goals
    split at hw
    · rw [List.mem_singleton.1 hw]
      constructor <;> simp <;> omega
    · cases hw

theorem invalidateOne_apart (h : start < stop) :
    ((invalidateOne fd start stop v).1 :: (invalidateOne fd start stop v).2).Pairwise
      Vma.Apart := by
  unfold invalidateOne
  split
  · exact List.pairwise_singleton _ _
  · dsimp only
    split <;> split <;> simp [Vma.Apart, Vma.memfdEnd] <;> omega

theorem invalidateOne_aligned {n : Nat} (hv : v.Aligned n) (hs : pageSize ∣ start)
    (ht : pageSize ∣ stop) (h : start < stop)
    (hw : w ∈ (invalidateOne fd start stop v).1 :: (invalidateOne fd start stop v).2) :
    w.Aligned n := by
  have hp : w.Part v := by
    rcases List.mem_cons.1 hw with rfl | hw
    · exact invalidateOne_fst_part hv.nonempty h
    · exact invalidateOne_snd_part hw
  -- every bound of a piece is a bound of the range or of the event
  have hb : (w.start = v.start ∨ w.start = start ∨ w.start = stop) ∧
      (w.stop = v.stop ∨ w.stop = start ∨ w.stop = stop) := by
    unfold invalidateOne at hw
    split at hw
    · simp only [List.mem_singleton] at hw
      subst hw
      exact ⟨.inl rfl, .inl rfl⟩
    · simp only [List.mem_cons, List.mem_append, List.mem_ite_nil_right, List.not_mem_nil,
        or_false] at hw
      rcases hw with rfl | ⟨_, rfl⟩ | ⟨_, rfl⟩ <;> simp <;> omega
  obtain ⟨h1, h2, h3, h4, h5⟩ := hv
  have h6 := hp.offset
  have h8 := hp.memfd.2
  simp only [pageSize] at *
  exact ⟨hp.nonempty, by simp only [pageSize]; omega, by simp only [pageSize]; omega,
    by simp only [pageSize]; omega, by omega⟩

end InvalidateOne

theorem invalidate_apart (m : AddressMap) (fd start stop : Nat) (h : start < stop) :
    (m.vmas.map (fun v => (invalidateOne fd start stop v).1) ++
      m.vmas.flatMap fun v => (invalidateOne fd start stop v).2).Pairwise Vma.Apart := by
  have hne : ∀ v ∈ m.vmas, v.start < v.stop := fun v hv => (m.aligned v hv).nonempty
  refine List.pairwise_append.2 ⟨?_, ?_, ?_⟩
  · refine List.pairwise_map.2 (m.apart.imp_of_mem ?_)
    intro v w hv hw hvw
    exact (invalidateOne_fst_part (hne v hv) h).apart (invalidateOne_fst_part (hne w hw) h) hvw
  · refine List.pairwise_flatMap.2 ⟨?_, ?_⟩
    · exact fun v _ => (List.pairwise_cons.1 (invalidateOne_apart h)).2
    · refine m.apart.imp ?_
      intro v w hvw x hx y hy
      exact (invalidateOne_snd_part hx).apart (invalidateOne_snd_part hy) hvw
  · intro x hx y hy
    obtain ⟨v, hv, rfl⟩ := List.mem_map.1 hx
    obtain ⟨w, hw, hy⟩ := List.mem_flatMap.1 hy
    by_cases hvw : v = w
    · subst hvw
      exact (List.pairwise_cons.1 (invalidateOne_apart h)).1 y hy
    · exact (invalidateOne_fst_part (hne v hv) h).apart (invalidateOne_snd_part hy)
        (m.apart.forall hv hw hvw)

/-- `invalidate`: the part of every range of `fd` inside the event becomes a
tombstone, and what is left of the range around it is kept. -/
def invalidate (m : AddressMap) (fd start stop : Nat) : AddressMap :=
  if h : start < stop ∧ pageSize ∣ start ∧ pageSize ∣ stop then
    { memfdLen := m.memfdLen
      vmas := m.vmas.map (fun v => (invalidateOne fd start stop v).1) ++
        m.vmas.flatMap fun v => (invalidateOne fd start stop v).2
      aligned := by
        intro w hw
        rcases List.mem_append.1 hw with hw | hw
        · obtain ⟨v, hv, rfl⟩ := List.mem_map.1 hw
          exact invalidateOne_aligned (m.aligned v hv) h.2.1 h.2.2 h.1 (List.mem_cons_self ..)
        · obtain ⟨v, hv, hw⟩ := List.mem_flatMap.1 hw
          exact invalidateOne_aligned (m.aligned v hv) h.2.1 h.2.2 h.1
            (List.mem_cons_of_mem _ hw)
      apart := m.invalidate_apart fd start stop h.1 }
  else m

theorem mem_invalidate {start stop : Nat} (hw : w ∈ (m.invalidate fd start stop).vmas) :
    ∃ v ∈ m.vmas, w.Part v ∧ w.uffdFD = v.uffdFD := by
  unfold invalidate at hw
  split at hw
  next h =>
    rcases List.mem_append.1 hw with hw | hw
    · obtain ⟨v, hv, rfl⟩ := List.mem_map.1 hw
      refine ⟨v, hv, invalidateOne_fst_part (m.aligned v hv).nonempty h.1, ?_⟩
      unfold invalidateOne
      split <;> rfl
    · obtain ⟨v, hv, hw⟩ := List.mem_flatMap.1 hw
      refine ⟨v, hv, invalidateOne_snd_part hw, ?_⟩
      unfold invalidateOne at hw
      split at hw
      · cases hw
      · simp only [List.mem_append, List.mem_ite_nil_right, List.mem_singleton] at hw
        rcases hw with ⟨_, rfl⟩ | ⟨_, rfl⟩ <;> rfl
  · exact ⟨w, hw, ⟨rfl, Nat.le_refl _, Nat.le_refl _, by simp, (m.aligned w hw).nonempty⟩, rfl⟩

@[simp] theorem invalidate_memfdLen (m : AddressMap) (fd start stop : Nat) :
    (m.invalidate fd start stop).memfdLen = m.memfdLen := by
  unfold invalidate
  split <;> rfl

/-! ## The pages of a release event -/

/-- A piece of a release: memfd bytes `[startOff, startOff + length)`, up to
the address `next`. -/
structure Piece where
  startOff : Nat
  length : Nat
  next : Nat
  deriving DecidableEq, Repr

/-- The part of the release `[cursor, stop)` in one range. -/
def Vma.piece (cursor stop : Nat) (v : Vma) : Piece :=
  let lo := max cursor v.start
  let hi := min stop v.stop
  ⟨v.memfdOffset + (lo - v.start), hi - lo, hi⟩

/-- The inner scan of `handleRemoveLocked`: the lowest piece of the release in
a range of `fd`; no piece has `next = 0`. -/
def nextPiece (fd cursor stop : Nat) (vs : List Vma) (acc : Piece) : Piece :=
  vs.foldl (fun acc v =>
    if v.process ≠ .ch ∨ v.uffdFD ≠ fd ∨ v.invalid ∨ v.stop ≤ cursor ∨ stop ≤ v.start then acc
    else if acc.next = 0 ∨ max cursor v.start < acc.next - acc.length then Vma.piece cursor stop v
    else acc) acc

/-- The outer loop of `handleRemoveLocked`: the pieces it releases in order,
and whether it stopped at a gap in the registrations. Every piece ends above
the cursor, so `stop - cursor` rounds are enough. -/
def releasePieces (m : AddressMap) (fd stop : Nat) : Nat → Nat → List Piece × Bool
  | 0, _ => ([], false)
  | fuel + 1, cursor =>
    if stop ≤ cursor then ([], false)
    else
      let p := nextPiece fd cursor stop m.vmas ⟨0, 0, 0⟩
      if p.next = 0 ∨ p.next - p.length ≠ cursor then ([], true)
      else
        let r := m.releasePieces fd stop fuel p.next
        (p :: r.1, r.2)

section Pieces

variable {fd cursor stop : Nat}

theorem nextPiece_mem (fd cursor stop : Nat) (vs : List Vma) (acc : Piece) :
    nextPiece fd cursor stop vs acc = acc ∨ ∃ v ∈ vs, v.OwnedBy fd ∧ cursor < v.stop ∧
      v.start < stop ∧
        nextPiece fd cursor stop vs acc = Vma.piece cursor stop v := by
  induction vs generalizing acc with
  | nil => exact .inl rfl
  | cons v vs ih =>
    unfold nextPiece
    rw [List.foldl_cons]
    split
    · rcases ih acc with h | ⟨w, hw, h⟩
      · exact .inl h
      · exact .inr ⟨w, .tail _ hw, h⟩
    split
    · rcases ih (Vma.piece cursor stop v) with h | ⟨w, hw, h⟩
      · refine .inr ⟨v, (.head _), ⟨?_, ?_, ?_⟩, ?_, ?_, h⟩ <;> grind
      · exact .inr ⟨w, .tail _ hw, h⟩
    · rcases ih acc with h | ⟨w, hw, h⟩
      · exact .inl h
      · exact .inr ⟨w, .tail _ hw, h⟩

def Piece.lo (p : Piece) : Nat := p.next - p.length

variable {v : Vma}

theorem piece_lo (hc : cursor < stop) (hv : v.start < v.stop) (h1 : cursor < v.stop)
    (h2 : v.start < stop) :
    (Vma.piece cursor stop v).next ≠ 0 ∧ (Vma.piece cursor stop v).lo = max cursor v.start := by
  simp only [Vma.piece, Piece.lo]
  omega

/-- The scan keeps the lowest piece it has seen. -/
theorem nextPiece_lo {vs : List Vma} (acc : Piece) (hc : cursor < stop)
    (hne : ∀ v ∈ vs, v.start < v.stop) (b : Nat) (h : (acc.next ≠ 0 ∧ acc.lo ≤ b) ∨
      ∃ v ∈ vs, v.OwnedBy fd ∧ cursor < v.stop ∧ v.start < stop ∧ max cursor v.start ≤ b) :
    (nextPiece fd cursor stop vs acc).next ≠ 0 ∧ (nextPiece fd cursor stop vs acc).lo ≤ b := by
  induction vs generalizing acc with
  | nil =>
    rcases h with h | ⟨v, hv, _⟩
    · exact h
    · cases hv
  | cons v vs ih =>
    have hne' : ∀ v ∈ vs, v.start < v.stop := fun w hw => hne w (.tail _ hw)
    unfold nextPiece
    rw [List.foldl_cons]
    refine ih _ hne' ?_
    split
    next hskip =>
      rcases h with h | ⟨w, hw, ho, h⟩
      · exact .inl h
      rcases List.mem_cons.1 hw with rfl | hw
      · obtain ⟨ho1, ho2, ho3⟩ := ho
        simp [ho1, ho2, ho3] at hskip
        omega
      · exact .inr ⟨w, hw, ho, h⟩
    · have hlo := piece_lo hc (hne v (.head _)) (by omega) (by omega)
      split
      · rcases h with h | ⟨w, hw, h⟩
        · left
          refine ⟨hlo.1, ?_⟩
          have := h.2
          unfold Piece.lo at this hlo ⊢
          omega
        · rcases List.mem_cons.1 hw with rfl | hw
          · exact .inl ⟨hlo.1, by omega⟩
          · exact .inr ⟨w, hw, h⟩
      · rcases h with h | ⟨w, hw, h⟩
        · exact .inl h
        · rcases List.mem_cons.1 hw with rfl | hw
          · left
            refine ⟨by omega, ?_⟩
            unfold Piece.lo
            omega
          · exact .inr ⟨w, hw, h⟩

variable (m)

/-- At an address inside a range of `fd` the next piece is what the release
shares with that range from there on. -/
theorem nextPiece_of_spans (hv : v ∈ m.vmas) (ho : v.OwnedBy fd) (hs : v.Spans cursor)
    (hc : cursor < stop) :
    nextPiece fd cursor stop m.vmas ⟨0, 0, 0⟩ = Vma.piece cursor stop v := by
  have hne : ∀ v ∈ m.vmas, v.start < v.stop := fun v hv => (m.aligned v hv).nonempty
  obtain ⟨hlo, hhi⟩ := hs
  obtain ⟨hnz, hle⟩ := nextPiece_lo ⟨0, 0, 0⟩ hc hne cursor
    (.inr ⟨v, hv, ho, hhi, by omega, by omega⟩)
  rcases nextPiece_mem fd cursor stop m.vmas ⟨0, 0, 0⟩ with h | ⟨w, hw, how, h1, h2, h⟩
  · rw [h] at hnz
    exact absurd rfl hnz
  · rw [h]
    rw [h, (piece_lo hc (hne w hw) h1 h2).2] at hle
    rw [m.eq_of_spans hw hv (how.1.trans ho.1.symm) ⟨by omega, h1⟩ ⟨hlo, hhi⟩]

/-- At any other address the scan finds no piece that starts there. -/
theorem nextPiece_gap (hc : cursor < stop) (hn : ∀ v ∈ m.vmas, v.OwnedBy fd → ¬v.Spans cursor) :
    (nextPiece fd cursor stop m.vmas ⟨0, 0, 0⟩).next = 0 ∨
      (nextPiece fd cursor stop m.vmas ⟨0, 0, 0⟩).next -
        (nextPiece fd cursor stop m.vmas ⟨0, 0, 0⟩).length ≠ cursor := by
  rcases nextPiece_mem fd cursor stop m.vmas ⟨0, 0, 0⟩ with h | ⟨w, hw, how, h1, h2, h⟩
  · exact .inl (by rw [h])
  right
  have hlo := (piece_lo hc (m.aligned w hw).nonempty h1 h2).2
  unfold Piece.lo at hlo
  rw [h, hlo]
  intro heq
  exact hn w hw how ⟨by omega, h1⟩

/-- The release `[cursor, stop)` of `fd` covers the memfd byte `off`: its
address is in the release, and every address up to it belongs to a valid
registration of `fd`. -/
def Reaches (fd cursor stop off : Nat) : Prop :=
  ∃ va, cursor ≤ va ∧ va < stop ∧
    (∀ b, cursor ≤ b → b ≤ va → ∃ w ∈ m.vmas, w.OwnedBy fd ∧ w.Spans b) ∧
    ∃ v ∈ m.vmas, v.OwnedBy fd ∧ v.Spans va ∧ off = v.memfdOffset + (va - v.start)

theorem reaches_of_spans (hv : v ∈ m.vmas) (ho : v.OwnedBy fd) (hs : v.Spans cursor)
    (hc : cursor < stop) :
    m.Reaches fd cursor stop off ↔ ((Vma.piece cursor stop v).startOff ≤ off ∧
        off < (Vma.piece cursor stop v).startOff + (Vma.piece cursor stop v).length) ∨
      m.Reaches fd (min stop v.stop) stop off := by
  obtain ⟨hlo, hhi⟩ := hs
  simp only [Vma.piece]
  constructor
  · rintro ⟨va, h1, h2, hall, w, hw, how, hsw, hoff⟩
    by_cases hva : va < v.stop
    · have : w = v := m.eq_of_spans hw hv (how.1.trans ho.1.symm) hsw ⟨by omega, hva⟩
      subst this
      left
      omega
    · right
      exact ⟨va, by omega, h2, fun b hb1 hb2 => hall b (by omega) hb2, w, hw, how, hsw, hoff⟩
  · rintro (⟨h1, h2⟩ | ⟨va, h1, h2, hall, w, hw, how, hsw, hoff⟩)
    · refine ⟨v.start + (off - v.memfdOffset), by omega, by omega, ?_, v, hv, ho,
        ⟨by omega, by omega⟩, by omega⟩
      exact fun b hb1 hb2 => ⟨v, hv, ho, by omega, by omega⟩
    · refine ⟨va, by omega, h2, fun b hb1 hb2 => ?_, w, hw, how, hsw, hoff⟩
      by_cases hb : b < v.stop
      · exact ⟨v, hv, ho, by omega, hb⟩
      · exact hall b (by omega) hb2

/-- One round at an address inside a range of `fd`. -/
theorem releasePieces_of_spans (hv : v ∈ m.vmas) (ho : v.OwnedBy fd)
    (hs : v.Spans cursor) (hc : cursor < stop) (fuel : Nat) :
    m.releasePieces fd stop (fuel + 1) cursor =
      (Vma.piece cursor stop v :: (m.releasePieces fd stop fuel (min stop v.stop)).1,
        (m.releasePieces fd stop fuel (min stop v.stop)).2) := by
  have hlo := piece_lo hc (m.aligned v hv).nonempty hs.2 (Nat.lt_of_le_of_lt hs.1 hc)
  rw [Nat.max_eq_left hs.1, Piece.lo] at hlo
  rw [releasePieces, if_neg (Nat.not_le.2 hc)]
  simp only [nextPiece_of_spans m hv ho hs hc]
  rw [if_neg (by omega)]
  rfl

theorem releasePieces_gap (hc : cursor < stop) (hn : ∀ v ∈ m.vmas, v.OwnedBy fd → ¬v.Spans cursor)
    (fuel : Nat) :
    m.releasePieces fd stop (fuel + 1) cursor = ([], true) := by
  rw [releasePieces, if_neg (Nat.not_le.2 hc)]
  exact if_pos (nextPiece_gap m hc hn)

theorem releasePieces_past (h : stop ≤ cursor) (fuel : Nat) :
    m.releasePieces fd stop fuel cursor = ([], false) := by
  cases fuel with
  | zero => rfl
  | succ fuel => exact if_pos h

/-- The pieces released are exactly the bytes the release covers. -/
theorem mem_releasePieces {fuel : Nat} (hf : stop - cursor ≤ fuel) :
    (∃ p ∈ (m.releasePieces fd stop fuel cursor).1, p.startOff ≤ off ∧
      off < p.startOff + p.length) ↔
      m.Reaches fd cursor stop off := by
  induction fuel generalizing cursor with
  | zero =>
    rw [releasePieces_past m (by omega)]
    simp only [List.not_mem_nil, false_and, exists_false, false_iff]
    rintro ⟨va, h1, h2, _⟩
    omega
  | succ fuel ih =>
    by_cases hc : cursor < stop
    · by_cases hs : ∃ v ∈ m.vmas, v.OwnedBy fd ∧ v.Spans cursor
      · obtain ⟨v, hv, ho, hsp⟩ := hs
        rw [releasePieces_of_spans m hv ho hsp hc, m.reaches_of_spans hv ho hsp hc]
        simp only [List.mem_cons, exists_eq_or_imp]
        have := hsp.2
        exact or_congr .rfl (ih (by omega))
      · simp only [not_exists, not_and] at hs
        rw [releasePieces_gap m hc hs]
        simp only [List.not_mem_nil, false_and, exists_false, false_iff]
        rintro ⟨va, h1, h2, hall, _⟩
        obtain ⟨w, hw, how, hsw⟩ := hall cursor (Nat.le_refl _) h1
        exact hs w hw how hsw
    · rw [releasePieces_past m (by omega)]
      simp only [List.not_mem_nil, false_and, exists_false, false_iff]
      rintro ⟨va, h1, h2, _⟩
      omega

/-- Pieces of a page-aligned release are page aligned and inside the memfd. -/
theorem releasePieces_aligned (fd fuel : Nat) (hc : pageSize ∣ cursor) (hs : pageSize ∣ stop) :
    ∀ p ∈ (m.releasePieces fd stop fuel cursor).1,
      pageSize ∣ p.startOff ∧ pageSize ∣ p.length ∧ p.startOff + p.length ≤ m.memfdLen := by
  induction fuel generalizing cursor with
  | zero => simp [releasePieces]
  | succ fuel ih =>
    unfold releasePieces
    split
    · simp
    rcases nextPiece_mem fd cursor stop m.vmas ⟨0, 0, 0⟩ with h | ⟨v, hv, _, h1, h2, h⟩
    · simp [h]
    simp only [h]
    split
    · simp
    obtain ⟨_, ha, hb, ho, hlen⟩ := m.aligned v hv
    intro p hp
    simp only [pageSize, Vma.memfdEnd] at *
    rcases List.mem_cons.1 hp with rfl | hp
    · simp only [Vma.piece]
      omega
    · refine ih ?_ p hp
      simp only [Vma.piece]
      omega

variable {m}

end Pieces

end AddressMap

end Sandboxer.Uffd
