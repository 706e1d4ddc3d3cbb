import Sandboxer.Lib.Words

/-! # Presence in words

The copy-on-write device keeps one bit a block in 64-bit words (`blk_cow.go`). -/
namespace Sandboxer.Export

open Lib.Words

variable (bitmap : List (BitVec 64))

def bitmapBlockDirty (block : Nat) : Bool :=
  bitmap.getD (block / 64) 0 &&& (1#64 <<< (block % 64)) ≠ 0#64

theorem bitmapBlockDirty_eq (block : Nat) :
    bitmapBlockDirty bitmap block = (bitmap.getD (block / 64) 0).getLsbD (block % 64) := by
  rw [bitmapBlockDirty, Bool.eq_iff_iff, decide_eq_true_iff]
  exact and_one_shiftLeft_ne_zero _ (Nat.mod_lt _ (by decide))

/-- The bits of the block's word, from the block on, that differ from `invert`. -/
def changed (invert : BitVec 64) (block : Nat) : BitVec 64 :=
  (bitmap.getD (block / 64) 0 ^^^ invert) &&& BitVec.allOnes 64 <<< (block % 64)

/-- The loop of `bitmapRunEnd`. -/
def scanWords (invert : BitVec 64) (block limit : Nat) : Nat :=
  if block < limit then
    if changed bitmap invert block ≠ 0 then min limit
      (block / 64 * 64 + trailingZeros (changed bitmap invert block))
    else scanWords invert (block / 64 * 64 + 64) limit
  else limit
termination_by limit - block
decreasing_by omega

/-- The word whose bits all are `value`. -/
def inverting (value : Bool) : BitVec 64 := if value then BitVec.allOnes 64 else 0

def bitmapRunEnd (block limit : Nat) : Nat :=
  scanWords bitmap (inverting (bitmapBlockDirty bitmap block)) block limit

theorem getLsbD_inverting (value : Bool) {i : Nat} (hi : i < 64) :
    (inverting value).getLsbD i = value := by
  cases value with
  | false => exact BitVec.getLsbD_zero
  | true =>
    rw [inverting, if_pos rfl, BitVec.getLsbD_allOnes]
    exact decide_eq_true hi

theorem tells_changed (value : Bool) (block : Nat) :
    Tells (bitmapBlockDirty bitmap) value block (64 - block % 64) (block % 64)
    (changed bitmap (inverting value) block) := by
  refine ⟨fun j hj => ?_, fun i hi => ?_, fun i hi => BitVec.getLsbD_of_ge _ _ (by omega)⟩
  · have hword : (block + j) / 64 = block / 64 := by omega
    have hbit : (block + j) % 64 = block % 64 + j := by omega
    rw [changed, BitVec.getLsbD_and, BitVec.getLsbD_xor, BitVec.getLsbD_shiftLeft,
      bitmapBlockDirty_eq, hword, hbit, getLsbD_inverting _ (by omega), BitVec.getLsbD_allOnes,
        decide_eq_true (by omega), decide_eq_false (by omega),
      decide_eq_true (by omega)]
    simp
  · rw [changed, BitVec.getLsbD_and, BitVec.getLsbD_shiftLeft, decide_eq_true hi]
    simp

theorem scanWords_of_le {bitmap : List (BitVec 64)} {invert : BitVec 64} {block limit : Nat}
    (h : limit ≤ block) :
    scanWords bitmap invert block limit = limit := by
  rw [scanWords, if_neg (by omega)]

theorem scanWords_ends (value : Bool) (block limit : Nat) (h : block ≤ limit) :
    Ends (bitmapBlockDirty bitmap) value block limit
    (scanWords bitmap (inverting value) block limit) := by
  induction hn : limit - block using Nat.strongRecOn generalizing block with
  | _ n ih =>
    by_cases hlt : block < limit
    · have htells := tells_changed bitmap value block
      rw [scanWords, if_pos hlt]
      split
      next hne =>
        have hat := htells.at_le hne
        have hfound := Ends.found hlt (htells.nonzero hne)
        generalize trailingZeros (changed bitmap (inverting value) block) = n at hat hfound ⊢
        rwa [show block + (n - block % 64) = block / 64 * 64 + n by omega] at hfound
      next hzero =>
        rw [show block / 64 * 64 + 64 = block + (64 - block % 64) by omega]
        refine .skip hlt (htells.zero (not_not.1 hzero)) (fun hle => ?_) fun hgt =>
          scanWords_of_le (by omega)
        exact ih _ (by omega) _ hle rfl
    · rw [scanWords_of_le (by omega)]
      exact .done (by omega)

/-- The run at a block ends where the bit changes, at the latest at `limit`. -/
theorem bitmapRunEnd_ends {block limit : Nat} (h : block < limit) :
    Ends (bitmapBlockDirty bitmap) (bitmapBlockDirty bitmap block) block limit
    (bitmapRunEnd bitmap block limit) ∧
    block < bitmapRunEnd bitmap block limit := by
  have hends := scanWords_ends bitmap (bitmapBlockDirty bitmap block) block limit (le_of_lt h)
  rw [← bitmapRunEnd] at hends
  refine ⟨hends, lt_of_le_of_ne hends.le fun heq => ?_⟩
  exact hends.next (by omega) (congrArg (bitmapBlockDirty bitmap) heq.symm)

end Sandboxer.Export
