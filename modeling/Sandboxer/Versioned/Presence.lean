import Sandboxer.Versioned.Format
import Sandboxer.Lib.Words

/-! # The logical presence bitmap

`diffstore/internal/presence/bitmap.go`: one bit a block, kept as bytes. `runEnd`
scans for the end of a run of equal bits by words. -/
namespace Sandboxer.Versioned.Presence

open Lib.Words

abbrev Bitmap := List Byte

def has (bitmap : Bitmap) (block : Nat) : Bool :=
  bitmap.getD (block / 8) 0 &&& (1#8 <<< (block % 8)) ≠ 0#8

/-! ## Bits -/

theorem has_eq_getLsbD (bitmap : Bitmap) (block : Nat) :
    has bitmap block = (bitmap.getD (block / 8) 0).getLsbD (block % 8) := by
  rw [has, Bool.eq_iff_iff, decide_eq_true_iff]
  exact and_one_shiftLeft_ne_zero _ (Nat.mod_lt _ (by decide))

/-! ## Runs -/

/-- The bits of a word from `page` on that are not `value`. -/
def differing (value : Bool) {n : Nat} (w : BitVec n) (page : Nat) : BitVec n :=
  (if value then ~~~w else w) >>> (page % n)

variable (p : Bitmap)

/-- The little-endian word that holds the bit of `page`. -/
def wordAt (page : Nat) : BitVec 64 := fromBytes 64 ((p.drop (page / 64 * 8)).take 8)

/-- The scan of `End`, from `page` on, for a bit other than `value`: by words, and by
bytes where the bitmap has no whole word left. -/
def scan (value : Bool) (page pages : Nat) : Nat :=
  if page < pages then
    if page / 64 * 8 + 8 ≤ p.length then
      if differing value (wordAt p page) page ≠ 0 then
        min pages (page + trailingZeros (differing value (wordAt p page) page))
      else scan value (page + (64 - page % 64)) pages
    else if differing value (p.getD (page / 8) 0) page ≠ 0 then
      min pages (page + trailingZeros (differing value (p.getD (page / 8) 0) page))
    else scan value (page + (8 - page % 8)) pages
  else pages
termination_by pages - page
decreasing_by all_goals omega

/-- `End`. -/
def runEnd (page pages : Nat) : Nat := scan p (has p page) (page + 1) pages

theorem tells_of_word {p : Bitmap} {value : Bool} {page w : Nat} {x : BitVec w}
    (h : ∀ i < w, x.getLsbD i = has p (page - page % w + i)) (hw : 0 < w) :
    Tells (has p) value page (w - page % w) 0 (differing value x page) := by
  unfold differing
  have hlt := Nat.mod_lt page hw
  have hle := Nat.mod_le page w
  refine ⟨fun j hj => ?_, fun i hi => absurd hi (Nat.not_lt_zero i), fun i hi => ?_⟩
  · have hat : page - page % w + (page % w + j) = page + j := by omega
    rw [Nat.zero_add, BitVec.getLsbD_ushiftRight]
    cases value with
    | false =>
      rw [if_neg Bool.false_ne_true, h _ (by omega), hat]
      simp
    | true =>
      rw [if_pos rfl, BitVec.getLsbD_not, h _ (by omega), hat]
      simp
      omega
  · rw [BitVec.getLsbD_ushiftRight]
    exact BitVec.getLsbD_of_ge _ _ (by omega)

theorem tells_word (page : Nat) (value : Bool) :
    Tells (has p) value page (64 - page % 64) 0 (differing value (wordAt p page) page) := by
  refine tells_of_word (fun i hi => ?_) (by decide)
  have hbyte : page / 64 * 8 + i / 8 = (page - page % 64 + i) / 8 := by omega
  have hbit : i % 8 = (page - page % 64 + i) % 8 := by omega
  rw [wordAt, getLsbD_fromBytes _ hi, has_eq_getLsbD, hbit, List.getD_eq_getElem?_getD,
    List.getElem?_take_of_lt (by omega), List.getElem?_drop, hbyte, ← List.getD_eq_getElem?_getD]

theorem tells_byte (page : Nat) (value : Bool) :
    Tells (has p) value page (8 - page % 8) 0 (differing value (p.getD (page / 8) 0) page) := by
  refine tells_of_word (fun i hi => ?_) (by decide)
  have hbyte : (page - page % 8 + i) / 8 = page / 8 := by omega
  have hbit : (page - page % 8 + i) % 8 = i := by omega
  rw [has_eq_getLsbD, hbyte, hbit]

theorem scan_of_le {p : Bitmap} {value : Bool} {page pages : Nat} (h : pages ≤ page) :
    scan p value page pages = pages := by
  rw [scan, if_neg (by omega)]

theorem scan_ends (value : Bool) (page pages : Nat) (h : page ≤ pages) :
    Ends (has p) value page pages (scan p value page pages) := by
  induction hn : pages - page using Nat.strongRecOn generalizing page with
  | _ n ih =>
    by_cases hlt : page < pages
    · rw [scan, if_pos hlt]
      split
      · have htells := tells_word p page value
        split
        next hne => exact .found hlt (htells.nonzero hne)
        next hzero =>
          refine .skip hlt (htells.zero (Decidable.not_not.1 hzero)) (fun hle => ?_) fun hgt =>
            scan_of_le (by omega)
          exact ih _ (by omega) _ hle rfl
      · have htells := tells_byte p page value
        split
        next hne => exact .found hlt (htells.nonzero hne)
        next hzero =>
          refine .skip hlt (htells.zero (Decidable.not_not.1 hzero)) (fun hle => ?_) fun hgt =>
            scan_of_le (by omega)
          exact ih _ (by omega) _ hle rfl
    · rw [scan_of_le (by omega)]
      exact .done (by omega)

/-- The run that starts at a block ends where the bit changes, at the latest at `pages`. -/
theorem runEnd_ends {page pages : Nat} (h : page < pages) :
    Ends (has p) (has p page) page pages (runEnd p page pages) ∧ page < runEnd p page pages := by
  obtain ⟨hle, hcap, hrun, hnext⟩ := scan_ends p (has p page) (page + 1) pages h
  refine ⟨⟨Nat.le_of_succ_le hle, hcap, fun q hq hqs => ?_, hnext⟩, hle⟩
  rcases Nat.eq_or_lt_of_le hq with rfl | hq
  · rfl
  · exact hrun q hq hqs

end Sandboxer.Versioned.Presence
