import Mathlib.Tactic.Ring

/-! # Byte strings: writers, readers and round trips

Variable-length integers, zigzag signed integers, little-endian words and
readers of the front of a byte string. `Reads p bs a` says that the reader `p`
takes exactly `bs` from the front of any input and returns `a`. A `Piece` is
what a writer emits, with a flag that it may be emitted at all; `Writes` says
that a reader recovers a value from an emitted piece, and composes along the
reader's own `do` block. -/
namespace Sandboxer.Lib.Wire

abbrev Bytes := List UInt8

/-- A reader of the front of a byte string. -/
abbrev Reader (α : Type) := StateT Bytes Option α

def ascii (s : String) : Bytes := s.toList.map fun c => c.val.toUInt8

section Reads

variable {α β : Type}

/-- The reader takes `bs` from the front and returns `a`. -/
def Reads (p : Reader α) (bs : Bytes) (a : α) : Prop := ∀ rest, p (bs ++ rest) = some (a, rest)

theorem Reads.pure (a : α) : Reads (Pure.pure a) [] a := fun _ => rfl

theorem Reads.bind {p : Reader α} {f : α → Reader β} {bs cs : Bytes} {a : α} {b : β}
    (hp : Reads p bs a) (hf : Reads (f a) cs b) : Reads (p >>= f) (bs ++ cs) b := by
  intro rest
  show (p (bs ++ cs ++ rest)).bind (fun x => f x.1 x.2) = _
  rw [List.append_assoc, hp]
  exact hf rest

end Reads

/-! ## Searching -/

/-- The last position up to `i` where `pat` occurs in `b`. -/
def lastIndexTo (b pat : Bytes) : Nat → Option Nat
  | 0 => if pat.isPrefixOf b then some 0 else none
  | i + 1 => if pat.isPrefixOf (b.drop (i + 1)) then some (i + 1) else lastIndexTo b pat i

/-- The last position where `pat` occurs in `b`. -/
def lastIndex (b pat : Bytes) : Option Nat := lastIndexTo b pat b.length

variable {b pat : Bytes} {n : Nat}

theorem notPrefix_of_lastIndexTo (h : lastIndexTo b pat n = none) {j : Nat} (hj : j ≤ n) :
    ¬pat <+: b.drop j := by
  induction n with
  | zero =>
    rw [lastIndexTo] at h
    split at h
    · cases h
    next hp =>
      obtain rfl := Nat.le_zero.1 hj
      exact fun hpre => hp (List.isPrefixOf_iff_prefix.2 hpre)
  | succ n ih =>
    rw [lastIndexTo] at h
    split at h
    · cases h
    next hp =>
      rcases Nat.lt_or_eq_of_le hj with hlt | rfl
      · exact ih h (Nat.le_of_lt_succ hlt)
      · exact fun hpre => hp (List.isPrefixOf_iff_prefix.2 hpre)

variable {i : Nat}

/-- The position found is an occurrence, and there is none behind it. -/
theorem lastIndexTo_eq_some (h : lastIndexTo b pat n = some i) :
    pat <+: b.drop i ∧ ∀ j, i < j → j ≤ n → ¬pat <+: b.drop j := by
  induction n with
  | zero =>
    rw [lastIndexTo] at h
    split at h
    next hp =>
      cases h
      exact ⟨List.isPrefixOf_iff_prefix.1 hp, fun j hj hj0 => absurd hj (not_lt.2 hj0)⟩
    · cases h
  | succ n ih =>
    rw [lastIndexTo] at h
    split at h
    next hp =>
      cases h
      exact ⟨List.isPrefixOf_iff_prefix.1 hp, fun j hj hjn => absurd hj (not_lt.2 hjn)⟩
    next hp =>
      refine ⟨(ih h).1, fun j hj hjn => ?_⟩
      rcases Nat.lt_or_eq_of_le hjn with hlt | rfl
      · exact (ih h).2 j hj (Nat.le_of_lt_succ hlt)
      · exact fun hpre => hp (List.isPrefixOf_iff_prefix.2 hpre)

/-- An occurrence lies within the searched bytes. -/
theorem lastIndex_add_le (h : lastIndex b pat = some i) (hne : pat ≠ []) :
    i + pat.length ≤ b.length := by
  have hlen := (lastIndexTo_eq_some h).1.length_le
  have hpos := List.length_pos_iff.2 hne
  rw [List.length_drop] at hlen
  omega

/-! ## Little-endian words -/

/-- The `k` low bytes of `n`, the lowest first. -/
def le : Nat → Nat → Bytes
  | 0, _ => []
  | k + 1, n => UInt8.ofNat (n % 256) :: le k (n / 256)

/-- The number with these bytes, the lowest first. -/
def ofLE : Bytes → Nat
  | [] => 0
  | b :: bs => b.toNat + 256 * ofLE bs

@[simp] theorem length_le (k n : Nat) : (le k n).length = k := by
  induction k generalizing n with
  | zero => rfl
  | succ k ih => rw [le, List.length_cons, ih]

theorem ofLE_le {k : Nat} (h : n < 256 ^ k) : ofLE (le k n) = n := by
  induction k generalizing n with
  | zero =>
    rw [Nat.pow_zero] at h
    rw [le, ofLE]
    omega
  | succ k ih =>
    have hq : n / 256 < 256 ^ k := by
      rw [Nat.pow_succ] at h
      exact Nat.div_lt_of_lt_mul (by omega)
    rw [le, ofLE, ih hq, UInt8.toNat_ofNat', Nat.mod_mod]
    omega

theorem ofLE_lt (bs : Bytes) : ofLE bs < 256 ^ bs.length := by
  induction bs with
  | nil => exact Nat.one_pos
  | cons b bs ih =>
    have hb : b.toNat < 256 := b.toNat_lt
    rw [ofLE, List.length_cons, Nat.pow_succ]
    omega

theorem le_ofLE (bs : Bytes) : le bs.length (ofLE bs) = bs := by
  induction bs with
  | nil => rfl
  | cons b bs ih =>
    have hb : b.toNat < 256 := b.toNat_lt
    have hlow : (b.toNat + 256 * ofLE bs) % 256 = b.toNat := by omega
    have hhigh : (b.toNat + 256 * ofLE bs) / 256 = ofLE bs := by omega
    rw [ofLE, List.length_cons, le, hlow, hhigh, ih, UInt8.ofNat_toNat]

/-! ## Variable-length integers -/

/-- Seven bits a byte, the lowest first, for at most `k` more bytes after this one. -/
def uvarintLoop : Nat → Nat → Bytes
  | 0, n => [UInt8.ofNat n]
  | k + 1, n =>
    if n < 128 then [UInt8.ofNat n] else UInt8.ofNat (n % 128 + 128) :: uvarintLoop k (n / 128)

/-- The encoding of a 64-bit number takes at most ten bytes. -/
def uvarint (n : Nat) : Bytes := uvarintLoop 9 n

/-- Read on with `i` bytes taken that make up `x`. -/
def readUvarintLoop : Nat → Nat → Bytes → Option (Nat × Bytes)
  | _, _, [] => none
  | i, x, b :: rest =>
    if i = 10 then none
    else if b < 128 then
      if i = 9 ∧ b > 1 then none else some (x + b.toNat * 2 ^ (7 * i), rest)
    else readUvarintLoop (i + 1) (x + (b.toNat - 128) * 2 ^ (7 * i)) rest

def readUvarint : Reader Nat := readUvarintLoop 0 0

theorem readUvarintLoop_uvarintLoop (k i x n : Nat) (hk : i + k = 9) (hn : n < 2 ^ (64 - 7 * i))
    (rest : Bytes) :
    readUvarintLoop i x (uvarintLoop k n ++ rest) = some (x + n * 2 ^ (7 * i), rest) := by
  induction k generalizing i x n with
  | zero =>
    obtain rfl : i = 9 := by omega
    have hb : (UInt8.ofNat n).toNat = n := by
      rw [UInt8.toNat_ofNat']
      omega
    have hlt : UInt8.ofNat n < 128 := UInt8.lt_iff_toNat_lt.2 (by rw [hb]; show n < 128; omega)
    have hle : ¬UInt8.ofNat n > 1 := fun h => by
      have h' := UInt8.lt_iff_toNat_lt.1 h
      rw [hb] at h'
      have h1 : (1 : UInt8).toNat = 1 := rfl
      omega
    simp only [uvarintLoop, List.cons_append, List.nil_append, readUvarintLoop, hlt, hle, hb,
      and_false, if_true, if_false]
    rfl
  | succ k ih =>
    have hi : ¬i = 10 := by omega
    have hi' : ¬i = 9 := by omega
    rw [uvarintLoop]
    split
    next hsmall =>
      have hb : (UInt8.ofNat n).toNat = n := by
        rw [UInt8.toNat_ofNat']
        omega
      have hlt : UInt8.ofNat n < 128 := UInt8.lt_iff_toNat_lt.2 (by rw [hb]; exact hsmall)
      simp only [List.cons_append, List.nil_append, readUvarintLoop, hi, hi', hlt, hb, false_and,
        if_true, if_false]
    · have hb : (UInt8.ofNat (n % 128 + 128)).toNat = n % 128 + 128 := by
        rw [UInt8.toNat_ofNat']
        omega
      have hge : ¬UInt8.ofNat (n % 128 + 128) < 128 := fun h => by
        have h' := UInt8.lt_iff_toNat_lt.1 h
        rw [hb] at h'
        have h128 : (128 : UInt8).toNat = 128 := rfl
        omega
      have hq : n / 128 < 2 ^ (64 - 7 * (i + 1)) := by
        refine Nat.div_lt_of_lt_mul ?_
        rwa [show (128 : Nat) = 2 ^ 7 from rfl, ← Nat.pow_add, show 7 + (64 - 7 * (i + 1)) =
          64 - 7 * i by omega]
      have hsum : x + (n % 128 + 128 - 128) * 2 ^ (7 * i) + n / 128 * 2 ^ (7 * (i + 1)) =
          x + n * 2 ^ (7 * i) := by
        have hpow : 2 ^ (7 * (i + 1)) = 128 * 2 ^ (7 * i) := by rw [Nat.mul_add, Nat.pow_add]; ring
        have hdiv : n * 2 ^ (7 * i) = (128 * (n / 128) + n % 128) * 2 ^ (7 * i) := by
          rw [Nat.div_add_mod]
        rw [Nat.add_sub_cancel, hpow, hdiv]
        ring
      simp only [List.cons_append, readUvarintLoop, hi, hge, hb, if_false]
      rw [ih (i + 1) _ _ (by omega) hq, hsum]

theorem reads_uvarint (h : n < 2 ^ 64) : Reads readUvarint (uvarint n) n := by
  intro rest
  have hloop := readUvarintLoop_uvarintLoop 9 0 0 n rfl h rest
  rwa [Nat.zero_add, Nat.mul_zero, Nat.pow_zero, Nat.mul_one] at hloop

/-! ## Signed integers -/

/-- The sign in the lowest bit. -/
def zigzag (x : Int64) : UInt64 :=
  if x < 0 then ~~~(x.toUInt64 <<< 1) else x.toUInt64 <<< 1

def unzigzag (u : UInt64) : Int64 :=
  if u &&& 1 ≠ 0 then ~~~(u >>> 1).toInt64 else (u >>> 1).toInt64

theorem toNat_shl_one (w : UInt64) : (w <<< 1).toNat = 2 * w.toNat % 2 ^ 64 := by
  rw [UInt64.toNat_shiftLeft, Nat.shiftLeft_eq, Nat.mul_comm]
  rfl

theorem toNat_shr_one (w : UInt64) : (w >>> 1).toNat = w.toNat / 2 := by
  rw [UInt64.toNat_shiftRight, Nat.shiftRight_eq_div_pow]
  rfl

theorem and_one_ne_zero (w : UInt64) : w &&& 1 ≠ 0 ↔ w.toNat % 2 = 1 := by
  have h1 : (1 : UInt64).toNat = 1 := rfl
  have h0 : (0 : UInt64).toNat = 0 := rfl
  rw [ne_eq, ← UInt64.toNat_inj, UInt64.toNat_and, h1, Nat.and_one_is_mod]
  omega

theorem neg_iff_toNat (x : Int64) : x < 0 ↔ 2 ^ 63 ≤ x.toUInt64.toNat := by
  have h0 : (0 : Int64).toInt = 0 := rfl
  have hx : x.toInt = x.toBitVec.toInt := rfl
  have hn : x.toUInt64.toNat = x.toBitVec.toNat := rfl
  have h := x.toBitVec.toInt_eq_toNat_cond
  rw [Int64.lt_iff_toInt_lt, h0, hx, hn]
  split at h
  · omega
  · omega

theorem unzigzag_zigzag (x : Int64) : unzigzag (zigzag x) = x := by
  have hlt := x.toUInt64.toNat_lt
  have hback : x.toUInt64.toInt64 = x := by simp
  unfold zigzag unzigzag
  by_cases hneg : x < 0
  · have hbig := (neg_iff_toNat x).1 hneg
    have hnot : (~~~(x.toUInt64 <<< 1)).toNat = 2 ^ 64 - 1 - 2 * x.toUInt64.toNat % 2 ^ 64 := by
      rw [UInt64.toNat_not, toNat_shl_one]
      rfl
    have hhalf : ~~~(~~~(x.toUInt64 <<< 1) >>> 1) = x.toUInt64 := by
      rw [← UInt64.toNat_inj, UInt64.toNat_not, toNat_shr_one, hnot]
      show 2 ^ 64 - 1 - _ = _
      omega
    rw [if_pos hneg, if_pos ((and_one_ne_zero _).2 (by omega)), ← UInt64.toInt64_not, hhalf, hback]
  · have hsmall := not_le.1 (mt (neg_iff_toNat x).2 hneg)
    have hhalf : x.toUInt64 <<< 1 >>> 1 = x.toUInt64 := by
      rw [← UInt64.toNat_inj, toNat_shr_one, toNat_shl_one]
      omega
    rw [if_neg hneg, if_neg (mt (and_one_ne_zero _).1 (by rw [toNat_shl_one]; omega)), hhalf, hback]

/-! ## Pieces -/

/-- What a writer emits, and whether it may be emitted. -/
structure Piece where
  bytes : Bytes
  ok : Bool

namespace Piece

variable {α β : Type}

instance : Append Piece := ⟨fun p q => ⟨p.bytes ++ q.bytes, p.ok && q.ok⟩⟩

@[simp] theorem bytes_append (p q : Piece) : (p ++ q).bytes = p.bytes ++ q.bytes := rfl

@[simp] theorem ok_append (p q : Piece) : (p ++ q).ok = (p.ok && q.ok) := rfl

theorem append_assoc (p q r : Piece) : p ++ q ++ r = p ++ (q ++ r) := by
  show Piece.mk _ _ = Piece.mk _ _
  rw [bytes_append, bytes_append, ok_append, ok_append, List.append_assoc, Bool.and_assoc]

/-- The pieces of a list of values, one after the other. -/
def all (f : α → Piece) : List α → Piece
  | [] => ⟨[], true⟩
  | a :: as => f a ++ all f as

/-- A reader that recovers the value from the piece, if that may be emitted. -/
def Writes (p : Piece) (d : Reader α) (a : α) : Prop := p.ok = true → Reads d p.bytes a

variable {d : Reader α}

theorem Writes.bind {p q : Piece} {f : α → Reader β} {a : α} {b : β} (hp : Writes p d a)
    (hq : Writes q (f a) b) : Writes (p ++ q) (d >>= f) b := fun hok => by
  obtain ⟨hp', hq'⟩ := Bool.and_eq_true_iff.1 hok
  exact (hp hp').bind (hq hq')

/-- The last reader of a block, followed by the value built from its result. -/
theorem Writes.last {p : Piece} {f : α → β} {a : α} (hp : Writes p d a) :
    Writes p (d >>= fun x => Pure.pure (f x)) (f a) := fun hok => by
  have h : Reads (d >>= fun x => Pure.pure (f x)) (p.bytes ++ []) (f a) := (hp hok).bind (.pure _)
  rwa [List.append_nil] at h

/-- As many values as were written. -/
def count (d : Reader α) : Nat → Reader (List α)
  | 0 => Pure.pure []
  | n + 1 => do
    let a ← d
    let as ← count d n
    return a :: as

theorem Writes.count {f : α → Piece} (h : ∀ a, Writes (f a) d a) (as : List α) :
    Writes (all f as) (count d as.length) as := by
  induction as with
  | nil => exact fun _ => .pure []
  | cons a as ih => exact (h a).bind ih.last

end Piece

end Sandboxer.Lib.Wire
