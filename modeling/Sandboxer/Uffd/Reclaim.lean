import Mathlib.Data.List.GetD

/-! # Batched reclaim

The flusher of `handler.go` sorts the queued release requests by offset and merges
ranges that touch or overlap, so that one `madvise` covers a run. The merged ranges are
written into the array the loop is still reading from. -/
namespace Sandboxer.Uffd.Reclaim

/-- `removeReq`. The range lies in the memfd, so its end does not wrap. -/
structure RemoveReq where
  memfdOffset : Nat
  length : Nat
  deriving DecidableEq, Repr, Inhabited

def RemoveReq.stop (r : RemoveReq) : Nat := r.memfdOffset + r.length

/-- The run with a request that touches or overlaps it. -/
def RemoveReq.absorb (cur r : RemoveReq) : Option RemoveReq :=
  if r.memfdOffset = cur.stop then some { cur with length := cur.length + r.length }
  else if r.memfdOffset < cur.stop then
    if cur.stop < r.stop then some { cur with length := r.stop - cur.memfdOffset } else some cur
  else none

/-- The variables of the merging loop: the array that `pending` and `merged` share, how much
of it `merged` has filled, and the run being collected. -/
structure Merging where
  backing : List RemoveReq
  merged : Nat
  cur : RemoveReq

/-- `append(merged, cur)`, and the next run to collect. There is capacity, so the array is
overwritten in place. -/
def Merging.append (s : Merging) (next : RemoveReq) : Merging :=
  ⟨s.backing.set s.merged s.cur, s.merged + 1, next⟩

/-- The loop: `n` rounds from index `i` on. -/
def Merging.loop (s : Merging) (i : Nat) : Nat → Merging
  | 0 => s
  | n + 1 =>
    let r := s.backing.getD i default
    match s.cur.absorb r with
    | some cur => { s with cur }.loop (i + 1) n
    | none => (s.append r).loop (i + 1) n

/-- `flush`, after the sort: the ranges it gives to `madvise`. -/
def flush (pending : List RemoveReq) : List RemoveReq :=
  if pending.length = 0 then []
  else
    let s := (Merging.mk pending 0 (pending.getD 0 default)).loop 1 (pending.length - 1)
    (s.append s.cur).backing.take (s.append s.cur).merged

/-! ## The array is read before it is overwritten -/

/-- The merge without an array. -/
def coalesce (cur : RemoveReq) : List RemoveReq → List RemoveReq
  | [] => [cur]
  | r :: rs =>
    match cur.absorb r with
    | some cur => coalesce cur rs
    | none => cur :: coalesce r rs

variable {s : Merging} {cur r c : RemoveReq} {rs : List RemoveReq} {i x : Nat}

theorem Merging.append_take (h : s.merged < s.backing.length) :
    (s.append r).backing.take (s.append r).merged = s.backing.take s.merged ++ [s.cur] := by
  simp [append, List.take_add_one, h, List.take_set_of_le]

/-- Writing stays behind reading, so the requests still to be read are those of the sorted array. -/
theorem Merging.loop_eq (hm : s.merged < i) (hi : i ≤ s.backing.length)
    (hrs : s.backing.drop i = rs) :
    ((s.loop i rs.length).append r).backing.take ((s.loop i rs.length).append r).merged =
      s.backing.take s.merged ++ coalesce s.cur rs := by
  induction rs generalizing s i with
  | nil => exact append_take (Nat.lt_of_lt_of_le hm hi)
  | cons _ rs ih =>
    have hlt : i < s.backing.length := by
      have := congrArg List.length hrs
      rw [List.length_drop, List.length_cons] at this
      omega
    rw [List.drop_eq_getElem_cons hlt, List.cons.injEq] at hrs
    obtain ⟨rfl, hrest⟩ := hrs
    simp only [List.length_cons, loop, List.getD_eq_getElem _ _ hlt, coalesce]
    split
    · exact ih (Nat.lt_succ_of_lt hm) hlt hrest
    rw [ih (Nat.succ_lt_succ hm) ?_ ?_, append_take (Nat.lt_trans hm hlt), List.append_assoc]
    · rfl
    · exact Nat.le_of_lt_succ (by simpa [append] using hlt)
    · rwa [append, List.drop_set_of_lt (Nat.lt_succ_of_lt hm)]

/-! ## What the merge keeps -/

/-- Ordered by offset, as the sort leaves the queue. -/
def Sorted (reqs : List RemoveReq) : Prop := reqs.Pairwise fun a b => a.memfdOffset ≤ b.memfdOffset

def RemoveReq.Contains (r : RemoveReq) (x : Nat) : Prop := r.memfdOffset ≤ x ∧ x < r.stop

/-- The bytes of some ranges. -/
def Covered (reqs : List RemoveReq) (x : Nat) : Prop := ∃ r ∈ reqs, r.Contains x

theorem covered_cons : Covered (r :: rs) x ↔ r.Contains x ∨ Covered rs x := by
  simp [Covered]

theorem absorb_none (h : cur.absorb r = none) : cur.stop < r.memfdOffset := by
  unfold RemoveReq.absorb at h
  grind

theorem absorb_some (h : cur.absorb r = some c) : c.memfdOffset = cur.memfdOffset ∧
    (cur.memfdOffset ≤ r.memfdOffset → (c.Contains x ↔ cur.Contains x ∨ r.Contains x)) := by
  unfold RemoveReq.absorb at h
  unfold RemoveReq.Contains RemoveReq.stop at *
  grind

theorem Sorted.absorb (h : Sorted (cur :: r :: rs)) (hc : cur.absorb r = some c) :
    Sorted (c :: rs) := by
  obtain ⟨hcur, hrs⟩ := List.pairwise_cons.1 h
  refine List.pairwise_cons.2 ⟨fun q hq => ?_, hrs.tail⟩
  rw [(absorb_some (x := 0) hc).1]
  exact hcur q (.tail _ hq)

theorem coalesce_apart (h : Sorted (cur :: rs)) :
    (∀ r ∈ coalesce cur rs, cur.memfdOffset ≤ r.memfdOffset) ∧
    (coalesce cur rs).Pairwise fun a b => a.stop < b.memfdOffset := by
  induction rs generalizing cur with
  | nil => simp [coalesce]
  | cons r rs ih =>
    rw [coalesce]
    split
    next c hc =>
      rw [← (absorb_some (x := 0) hc).1]
      exact ih (h.absorb hc)
    next hc =>
      obtain ⟨hge, hapart⟩ := ih h.tail
      have hlt := absorb_none hc
      refine ⟨fun q hq => ?_,
        List.pairwise_cons.2 ⟨fun q hq => Nat.lt_of_lt_of_le hlt (hge q hq), hapart⟩⟩
      rcases List.mem_cons.1 hq with rfl | hq
      · exact Nat.le_refl _
      · exact Nat.le_trans (Nat.le_add_right _ _) (Nat.le_trans (Nat.le_of_lt hlt) (hge q hq))

theorem coalesce_covered (h : Sorted (cur :: rs)) :
    Covered (coalesce cur rs) x ↔ Covered (cur :: rs) x := by
  induction rs generalizing cur with
  | nil => rfl
  | cons r rs ih =>
    rw [coalesce]
    split
    next c hc =>
      rw [ih (h.absorb hc), covered_cons,
        (absorb_some hc).2 ((List.pairwise_cons.1 h).1 r (.head _)), or_assoc, ← covered_cons,
          ← covered_cons]
    · rw [covered_cons, ih h.tail, ← covered_cons]

/-- Whatever order the sort gives requests of one offset, the merged ranges are sorted, do
not touch, and cover the bytes of the requests and no others. -/
theorem flush_exact {pending sorted : List RemoveReq} (hperm : sorted.Perm pending)
    (hsorted : Sorted sorted) : (flush sorted).Pairwise (fun a b => a.stop < b.memfdOffset) ∧
    ∀ x, Covered (flush sorted) x ↔ Covered pending x := by
  simp only [Covered, ← hperm.mem_iff]
  cases sorted with
  | nil => exact ⟨.nil, fun x => .rfl⟩
  | cons r rs =>
    have hflush : flush (r :: rs) = coalesce r rs :=
      Merging.loop_eq (s := ⟨r :: rs, 0, r⟩) Nat.one_pos (Nat.succ_le_succ (Nat.zero_le _)) rfl
    rw [hflush]
    exact ⟨(coalesce_apart hsorted).2, fun x => coalesce_covered hsorted⟩

theorem flush_exact_queue : flush [⟨0, 8⟩, ⟨4, 2⟩, ⟨8, 4⟩, ⟨10, 6⟩, ⟨20, 1⟩] = [⟨0, 16⟩, ⟨20, 1⟩] ∧
    ∀ x, Covered (flush [⟨0, 8⟩, ⟨4, 2⟩, ⟨8, 4⟩, ⟨10, 6⟩, ⟨20, 1⟩]) x ↔
      Covered [⟨8, 4⟩, ⟨20, 1⟩, ⟨0, 8⟩, ⟨10, 6⟩, ⟨4, 2⟩] x :=
  ⟨by decide, (flush_exact (by decide) (by unfold Sorted; decide)).2⟩

end Sandboxer.Uffd.Reclaim
