import Sandboxer.Export.Bitmap
import Sandboxer.Versioned.Presence
import Sandboxer.Snapshot.Flatten
import Sandboxer.Diffstore.Blocks

/-! # Runs of a bitmap

A bitmap is scanned and marked by words: `End` over bytes (`presence/bitmap.go`),
`bitmapRunEnd` and `snapshotHoles` over 64-bit words (`blk_cow.go`), and
`setBitmapRange` (`diff_file.go`). -/
namespace Sandboxer.Export

open Lib.Words Versioned Snapshot
open Diffstore (blockSize)

variable {bitmap : List (BitVec 64)} {start stop b n : Nat}

/-! ## Marking a range -/

def setBitmapRange (bitmap : List (BitVec 64)) (start stop : Nat) : List (BitVec 64) :=
  if stop ≤ start then bitmap
  else
    let first := start / 64
    let last := (stop - 1) / 64
    let left := BitVec.allOnes 64 <<< (start % 64)
    let right := BitVec.allOnes 64 >>> (63 - (stop - 1) % 64)
    if first = last then bitmap.modify first (· ||| (left &&& right))
    else
      let middle :=
        (List.range' (first + 1) (last - (first + 1))).foldl
        (fun ws i => ws.set i (BitVec.allOnes 64))
        (bitmap.modify first (· ||| left))
      middle.modify last (· ||| right)

theorem bitmapBlockDirty_eq_bitAt : bitmapBlockDirty bitmap b = bitAt bitmap b :=
  bitmapBlockDirty_eq bitmap b

theorem setBitmapRange_spec (h : stop ≤ 64 * bitmap.length) :
    bitmapBlockDirty (setBitmapRange bitmap start stop) b ↔ bitmapBlockDirty bitmap b ∨ start ≤ b ∧
      b < stop := by
  have hmod := Nat.mod_lt b (show 0 < 64 by decide)
  simp only [bitmapBlockDirty_eq_bitAt, setBitmapRange]
  split
  · simp; omega
  split
  · rw [bitAt_or (by omega), BitVec.getLsbD_and, Bool.and_eq_true, ones_shiftLeft hmod,
      ones_shiftRight]
    refine or_congr_right ?_
    omega
  rw [bitAt_or (by rw [length_fill, List.length_modify]; omega), bitAt_fill (by decide),
    bitAt_or (by omega), ones_shiftLeft hmod, ones_shiftRight, List.mem_range'_1, or_assoc,
      or_assoc]
  · refine or_congr_right ?_
    omega
  · intro i hi
    rw [List.mem_range'_1] at hi
    rw [List.length_modify]
    omega

/-! ## The holes of a snapshot -/

/-- The blocks from `start` up to `stop`. -/
def blocks (start stop : Nat) : Extent := ⟨start * blockSize, (stop - start) * blockSize⟩

/-- The loop of `snapshotHoles`. -/
def holesFrom (bitmap : List (BitVec 64)) (block numBlocks : Nat) : List Extent :=
  if h : block < numBlocks then
    let stop := bitmapRunEnd bitmap block numBlocks
    have := (bitmapRunEnd_ends bitmap h).2
    if !bitmapBlockDirty bitmap block then blocks block stop :: holesFrom bitmap stop numBlocks
    else holesFrom bitmap stop numBlocks
  else []
termination_by numBlocks - block

def snapshotHoles (bitmap : List (BitVec 64)) (size : Nat) : List Extent :=
  holesFrom bitmap 0 (size / blockSize)

/-- A run of clear bits that no other one contains. -/
structure ClearRun (bits : Nat → Bool) (n start stop : Nat) : Prop where
  lt : start < stop
  le : stop ≤ n
  clear : ∀ q, start ≤ q → q < stop → bits q = false
  left : start = 0 ∨ bits (start - 1) = true
  right : stop = n ∨ bits stop = true

/-- A maximal run lies on one side of the end of a run. -/
theorem ClearRun.of_ends {bits : Nat → Bool} {block s t : Nat} (h : ClearRun bits n s t)
    (hends : Ends bits (bits block) block n stop) (hs : block ≤ s) (hlt : s < stop) :
    bits block = false ∧ s = block ∧ t = stop := by
  have hclear : bits block = false := (hends.run s hs hlt).symm.trans (h.clear s le_rfl h.lt)
  have hstart : s = block := by
    by_contra hne
    rcases h.left with h0 | hset
    · omega
    · rw [hends.run (s - 1) (by omega) (by omega), hclear] at hset
      cases hset
  refine ⟨hclear, hstart, le_antisymm ?_ ?_⟩
  · by_contra hgt
    have hle := h.le
    have := hends.next (by omega)
    rw [hclear] at this
    exact this (h.clear stop hlt.le (by omega))
  · by_contra hgt
    have hcap := hends.cap
    have hlt := h.lt
    rcases h.right with hn | hset
    · omega
    · rw [hends.run t (by omega) (by omega), hclear] at hset
      cases hset

theorem mem_holesFrom {block : Nat} {e : Extent}
    (hb : block < n → block = 0 ∨
      bitmapBlockDirty bitmap (block - 1) ≠ bitmapBlockDirty bitmap block) :
    e ∈ holesFrom bitmap block n ↔ ∃ s t, block ≤ s ∧ ClearRun (bitmapBlockDirty bitmap) n s t ∧
      e = blocks s t := by
  induction hk : n - block using Nat.strongRecOn generalizing block with
  | _ k ih =>
    by_cases hlt : block < n
    · obtain ⟨hends, hgt⟩ := bitmapRunEnd_ends bitmap hlt
      have hih := ih _ (by omega) (fun hnext => .inr fun heq => hends.next hnext ?_) rfl
      · rw [holesFrom, dif_pos hlt]
        dsimp only
        split
        next hclear =>
          rw [Bool.not_eq_true'] at hclear
          rw [List.mem_cons, hih]
          constructor
          · rintro (rfl | ⟨s, t, hs, hrun, rfl⟩)
            · refine ⟨block, _, le_rfl,
                ⟨hgt, hends.cap, fun q hq hqs => (hends.run q hq hqs).trans hclear, ?_, ?_⟩, rfl⟩
              · refine (hb hlt).imp_right fun hne => ?_
                rwa [hclear, Bool.ne_false_iff] at hne
              · refine (Nat.eq_or_lt_of_le hends.cap).imp_right fun hnext => ?_
                have := hends.next hnext
                rwa [hclear, Bool.ne_false_iff] at this
            · exact ⟨s, t, by omega, hrun, rfl⟩
          · rintro ⟨s, t, hs, hrun, rfl⟩
            by_cases hst : s < bitmapRunEnd bitmap block n
            · obtain ⟨_, rfl, rfl⟩ := hrun.of_ends hends hs hst
              exact .inl rfl
            · exact .inr ⟨s, t, by omega, hrun, rfl⟩
        next hset =>
          rw [hih]
          constructor
          · rintro ⟨s, t, hs, hrun, rfl⟩
            exact ⟨s, t, by omega, hrun, rfl⟩
          rintro ⟨s, t, hs, hrun, rfl⟩
          refine ⟨s, t, ?_, hrun, rfl⟩
          by_contra hst
          exact hset (by rw [(hrun.of_ends hends hs (by omega)).1]; rfl)
      · rw [← heq, hends.run _ (by omega) (by omega)]
    · rw [holesFrom, dif_neg hlt]
      refine iff_of_false (List.not_mem_nil) ?_
      rintro ⟨s, t, hs, hrun, _⟩
      have := hrun.lt
      have := hrun.le
      omega

theorem holesFrom_sorted (bitmap : List (BitVec 64)) (block n : Nat) :
    (∀ e ∈ holesFrom bitmap block n, block * blockSize ≤ e.offset) ∧
    (holesFrom bitmap block n).Pairwise fun a b => a.stop ≤ b.offset := by
  fun_induction holesFrom bitmap block n with
  | case1 block h stop hgt hclear ih =>
    obtain ⟨hge, hpair⟩ := ih
    have hle : block * blockSize ≤ stop * blockSize := Nat.mul_le_mul_right _ hgt.le
    refine ⟨fun e he => ?_, List.pairwise_cons.2 ⟨fun e he => ?_, hpair⟩⟩
    · rcases List.mem_cons.1 he with rfl | he
      · exact le_rfl
      · exact hle.trans (hge e he)
    · rw [Extent.stop, blocks, ← Nat.add_mul, Nat.add_sub_of_le hgt.le]
      exact hge e he
  | case2 block h stop hgt hset ih =>
    exact ⟨fun e he => (Nat.mul_le_mul_right _ hgt.le).trans (ih.1 e he), ih.2⟩
  | case3 => exact ⟨fun e he => absurd he List.not_mem_nil, .nil⟩

/-- Scanning by words finds what scanning bit by bit finds: both scans end a run at the next
bit that differs, marking a range sets its bits and no other, and the holes of a snapshot are
the maximal runs of clear bits, in order. -/
theorem scans_bit_by_bit : (∀ (p : Presence.Bitmap) (block limit : Nat), block < limit →
      IsLeast {j | block < j ∧ (j = limit ∨ j < limit ∧ Presence.has p j ≠ Presence.has p block)}
        (Presence.runEnd p block limit)) ∧
    (∀ (bitmap : List (BitVec 64)) (block limit : Nat), block < limit →
      IsLeast {j | block < j ∧
        (j = limit ∨ j < limit ∧ bitmapBlockDirty bitmap j ≠ bitmapBlockDirty bitmap block)}
        (bitmapRunEnd bitmap block limit)) ∧
    (∀ (bitmap : List (BitVec 64)) (start stop : Nat), stop ≤ 64 * bitmap.length →
      (setBitmapRange bitmap start stop).length = bitmap.length ∧
      ∀ b, bitmapBlockDirty (setBitmapRange bitmap start stop) b ↔ bitmapBlockDirty bitmap b ∨
        start ≤ b ∧ b < stop) ∧
    ∀ (bitmap : List (BitVec 64)) (size : Nat),
      (snapshotHoles bitmap size).Pairwise (fun a b => a.stop ≤ b.offset) ∧
      ∀ e, e ∈ snapshotHoles bitmap size ↔
        ∃ s t, ClearRun (bitmapBlockDirty bitmap) (size / blockSize) s t ∧ e = blocks s t := by
  refine ⟨fun p block limit h => Ends.isLeast (Presence.runEnd_ends p h),
    fun bitmap block limit h => Ends.isLeast (bitmapRunEnd_ends bitmap h),
    fun bitmap start stop h => ⟨?_, fun b => setBitmapRange_spec h⟩,
    fun bitmap size => ⟨(holesFrom_sorted ..).2, fun e => ?_⟩⟩
  · simp only [setBitmapRange]
    split
    · rfl
    · split
      · exact List.length_modify ..
      · rw [List.length_modify, length_fill, List.length_modify]
  · rw [snapshotHoles, mem_holesFrom fun _ => .inl rfl]
    simp

end Sandboxer.Export
