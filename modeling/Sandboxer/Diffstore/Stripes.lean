import Sandboxer.Diffstore.Disk

/-! # Stripe order

Every call that locks blocks of a disk takes the stripes of its blocks once each, in
numeric order: the two range locks (`blk_cow.go`) by different arithmetic, the
materializer's window (`checkpoint_diff.go`) by marking. Calls that wait for each other
therefore never wait in a circle. -/
namespace Sandboxer.Diffstore

variable {first last b s : Nat}

/-! ## Which stripes a window takes -/

/-- The stripe is that of a block from `first` to `last`. -/
def Covers (first last stripe : Nat) : Prop :=
  ∃ b, first ≤ b ∧ b ≤ last ∧ b % cowLockStripes = stripe

theorem covers_iff (h : first ≤ last) : Covers first last s ↔
    s < cowLockStripes ∧ (s + cowLockStripes - first % cowLockStripes) % cowLockStripes ≤
      last - first := by
  simp only [Covers, cowLockStripes]
  constructor
  · rintro ⟨b, hf, hl, rfl⟩
    omega
  · intro hs
    exact ⟨first + (s + 256 - first % 256) % 256, by omega⟩

theorem mem_rlockBlockRange_iff (h : first ≤ last) :
    s ∈ rlockBlockRange first last ↔ Covers first last s := by
  rw [covers_iff h]
  simp only [rlockBlockRange]
  split
  · rw [List.mem_range]
    simp only [cowLockStripes] at *
    omega
  split
  · rw [List.mem_range'_1]
    simp only [cowLockStripes] at *
    omega
  · rw [List.mem_append, List.mem_range, List.mem_range'_1]
    simp only [cowLockStripes] at *
    omega

theorem mem_lockBlockRange_iff (h : first ≤ last) :
    s ∈ lockBlockRange first last ↔ Covers first last s := by
  rw [covers_iff h, lockBlockRange, List.mem_filter, List.mem_range, decide_eq_true_iff]

theorem mem_lockedStripes_iff : s ∈ lockedStripes first last ↔ Covers first last s := by
  simp only [lockedStripes, List.mem_filter, List.mem_range, List.any_eq_true, beq_iff_eq,
    List.mem_range'_1]
  constructor
  · rintro ⟨-, b, hb, hs⟩
    exact ⟨b, hb.1, by omega, hs⟩
  · rintro ⟨b, hf, hl, rfl⟩
    exact ⟨Nat.mod_lt _ (by decide), b, ⟨hf, by omega⟩, rfl⟩

theorem mem_lockBlockRange (hf : first ≤ b) (hl : b ≤ last) :
    b % cowLockStripes ∈ lockBlockRange first last :=
  (mem_lockBlockRange_iff (le_trans hf hl)).2 ⟨b, hf, hl, rfl⟩

/-! ## In numeric order -/

theorem rlockBlockRange_ascends (first last : Nat) :
    (rlockBlockRange first last).Pairwise (· < ·) := by
  simp only [rlockBlockRange]
  split
  · exact List.pairwise_lt_range
  split
  · exact List.pairwise_lt_range'
  next hc _ =>
    refine List.pairwise_append.2
      ⟨List.pairwise_lt_range, List.pairwise_lt_range', fun i hi j hj => ?_⟩
    rw [List.mem_range] at hi
    rw [List.mem_range'_1] at hj
    -- the part that wrapped around stops short of the first stripe
    omega

/-- Ascending lists of the stripes of one window are one list. -/
theorem eq_lockedStripes {l : List Nat} (hl : l.Pairwise (· < ·))
    (h : ∀ s, s ∈ l ↔ Covers first last s) :
    l = lockedStripes first last := by
  have hperm : l.Perm (lockedStripes first last) :=
    (List.perm_ext_iff_of_nodup (hl.imp Nat.ne_of_lt) (List.nodup_range.filter _)).2 fun s =>
      (h s).trans mem_lockedStripes_iff.symm
  exact hperm.eq_of_pairwise (fun i j _ _ hij hji => by omega) hl (List.pairwise_lt_range.filter _)

/-! ## What is given back -/

theorem runlockBlockRange_eq (first last : Nat) :
    runlockBlockRange first last = (rlockBlockRange first last).reverse := by
  simp only [runlockBlockRange, rlockBlockRange]
  split
  · rfl
  · split
    · rfl
    · rw [List.reverse_append]

theorem unlockBlockRange_eq (first last : Nat) :
    unlockBlockRange first last = (lockBlockRange first last).reverse :=
  List.filter_reverse ..

theorem unlockedStripes_eq (first last : Nat) :
    unlockedStripes first last = (lockedStripes first last).reverse :=
  List.filter_reverse ..

/-! ## Calls that wait for each other -/

/-- What takes block locks: one block, a read, a discard, a window of the materializer. -/
inductive Locking where
  | block (b : Nat)
  | read (first last : Nat) (h : first ≤ last)
  | discard (first last : Nat) (h : first ≤ last)
  | materialize (first last : Nat)

/-- The stripes a call takes, in its order. -/
def Locking.order : Locking → List Nat
  | .block b => [b % cowLockStripes]
  | .read first last _ => rlockBlockRange first last
  | .discard first last _ => lockBlockRange first last
  | .materialize first last => lockedStripes first last

theorem Locking.ascends (l : Locking) : l.order.Pairwise (· < ·) := by
  cases l with
  | block => exact List.pairwise_singleton ..
  | read => exact rlockBlockRange_ascends ..
  | discard | materialize => exact List.pairwise_lt_range.filter _

/-- A call that has some of its stripes and asks for the next one. -/
structure Asking where
  call : Locking
  held : List Nat
  next : Nat
  later : List Nat
  split : call.order = held ++ next :: later

theorem Asking.held_lt (a : Asking) (h : s ∈ a.held) : s < a.next := by
  have := a.call.ascends
  rw [a.split, List.pairwise_append] at this
  exact this.2.2 s h _ (.head _)

/-- The one waits for a stripe that the other has. -/
def Asking.Waits (a b : Asking) : Prop := a.next ∈ b.held

theorem Asking.lt_of_waits {a b : Asking} (h : Relation.TransGen Asking.Waits a b) :
    a.next < b.next := by
  induction h with
  | single h => exact Asking.held_lt _ h
  | tail _ h ih => exact lt_trans ih (Asking.held_lt _ h)

/-- The range locks and the materializer take the stripes of their blocks, each once and in
ascending order, and give the same ones back; calls never order two stripes differently, ask
for a stripe they have, or wait for each other in a circle. -/
theorem stripes_ordered : (∀ first last, first ≤ last →
      (∀ s, s ∈ rlockBlockRange first last ↔ ∃ b, first ≤ b ∧ b ≤ last ∧ b % 256 = s) ∧
      (rlockBlockRange first last).Pairwise (· < ·) ∧
      lockBlockRange first last = rlockBlockRange first last ∧
      lockedStripes first last = rlockBlockRange first last ∧
      runlockBlockRange first last = (rlockBlockRange first last).reverse ∧
      unlockBlockRange first last = (rlockBlockRange first last).reverse ∧
      unlockedStripes first last = (rlockBlockRange first last).reverse) ∧
    (∀ (a b : Locking) (i j : Nat), [i, j].Sublist a.order → ¬ [j, i].Sublist b.order) ∧
    (∀ a : Asking, a.next ∉ a.held) ∧
    ∀ a : Asking, ¬ Relation.TransGen Asking.Waits a a := by
  refine ⟨fun first last h => ?_, fun a b i j hij hji => ?_, fun a h => ?_, fun a h => ?_⟩
  · have hr := eq_lockedStripes (rlockBlockRange_ascends first last) fun _ =>
      mem_rlockBlockRange_iff h
    have hl : lockBlockRange first last = _ :=
      eq_lockedStripes (List.pairwise_lt_range.filter _) fun _ => mem_lockBlockRange_iff h
    refine ⟨fun s => mem_rlockBlockRange_iff h, rlockBlockRange_ascends .., hl.trans hr.symm,
      hr.symm, runlockBlockRange_eq .., ?_, ?_⟩
    · rw [unlockBlockRange_eq, hl, hr]
    · rw [unlockedStripes_eq, hr]
  · have hlt := List.pairwise_pair.1 (a.ascends.sublist hij)
    have hgt := List.pairwise_pair.1 (b.ascends.sublist hji)
    omega
  · exact lt_irrefl _ (a.held_lt h)
  · exact lt_irrefl _ (Asking.lt_of_waits h)

end Sandboxer.Diffstore
