import Sandboxer.Versioned.Reads

/-! # Coalesced reads are page-wise reads

A run of physically adjacent slots is read with one call. The bytes the device
delivers are cut at the first fault, and what is decrypted of them is, page for
page, what separate reads of the blocks deliver. -/
namespace Sandboxer.Versioned

open Presence (has)

/-! ## Runs of pages -/

theorem exists_block (pos : Nat) :
    ∃ block inner, inner < pageSize ∧ pos = block * pageSize + inner :=
  ⟨pos / pageSize, pos % pageSize, Nat.mod_lt _ pageSize_pos, (Nat.div_add_mod' pos pageSize).symm⟩

theorem block_div {block inner : Nat} (h : inner < pageSize) :
    (block * pageSize + inner) / pageSize = block := by
  rw [Nat.add_comm, Nat.add_mul_div_right _ _ pageSize_pos, Nat.div_eq_of_lt h, Nat.zero_add]

theorem block_mod {block inner : Nat} (h : inner < pageSize) :
    (block * pageSize + inner) % pageSize = inner := by
  rw [Nat.add_comm, Nat.add_mul_mod_self_right, Nat.mod_eq_of_lt h]

theorem transformSectors_append (c : Cipher) (n m number : Nat) (xs ys : List Byte)
    (h : xs.length = n * sectorSize) :
    transformSectors c (n + m) number (xs ++ ys) =
      transformSectors c n number xs ++ transformSectors c m (number + n) ys := by
  induction n generalizing number xs with
  | zero =>
    obtain rfl := List.length_eq_zero_iff.1 (by simpa using h)
    simp [transformSectors]
  | succ n ih =>
    have hle : sectorSize ≤ xs.length := by rw [h, Nat.succ_mul]; omega
    rw [Nat.succ_add, transformSectors, transformSectors, List.take_append_of_le_length hle,
      List.drop_append_of_le_length hle, ih _ _ (by rw [List.length_drop, h, Nat.succ_mul]; omega),
        List.append_assoc,
      Nat.add_right_comm, Nat.add_assoc]

/-- `n` pages that can be read whole. -/
def Device.Whole (d : Device) (page n : Nat) : Prop := ∀ i < n, d.fault (page + i) = none

variable {page : Nat} {d : Device}

theorem Device.Whole.head {n : Nat} (h : d.Whole page (n + 1)) : d.fault page = none :=
  h 0 (Nat.succ_pos n)

theorem Device.Whole.tail {n : Nat} (h : d.Whole page (n + 1)) : d.Whole (page + 1) n :=
  fun i hi => by
  have := h (i + 1) (Nat.succ_lt_succ hi)
  rwa [← Nat.add_assoc, Nat.add_right_comm] at this

theorem Device.transfer_succ (h : d.fault page = none) (n : Nat) :
    d.transfer page (n + 1) = d.page page ++ d.transfer (page + 1) n := by
  rw [Device.transfer, h]

/-- The length of a transfer: the whole pages before the first fault, and what was read of
the page with the fault. -/
theorem Device.length_transfer (d : Device) {c k : Nat} (hk : c ≤ k) (h : d.Whole page c)
    (hstop : c = k ∨ ∃ f, d.fault (page + c) = some f) :
    (d.transfer page k).length / pageSize = c ∧
      ((d.transfer page k).length = k * pageSize ↔ c = k) := by
  induction c generalizing k page with
  | zero =>
    cases k with
    | zero => simp [Device.transfer]
    | succ k =>
      obtain ⟨f, hf⟩ := hstop.resolve_left (Nat.succ_ne_zero k).symm
      have hshort := f.short
      have hlen : (d.transfer page (k + 1)).length = f.got := by
        rw [Device.transfer, show d.fault page = some f from hf, List.length_take, d.sized]
        omega
      rw [hlen, Nat.div_eq_of_lt hshort, Nat.succ_mul]
      exact ⟨rfl, ⟨fun h => by omega, fun h => by omega⟩⟩
  | succ c ih =>
    obtain ⟨k, rfl⟩ : ∃ m, k = m + 1 := ⟨k - 1, by omega⟩
    have hshift : page + 1 + c = page + (c + 1) := by omega
    obtain ⟨hdiv, hwhole⟩ := ih (Nat.le_of_succ_le_succ hk) h.tail
      (hstop.imp Nat.succ.inj fun h => by rwa [hshift])
    rw [transfer_succ h.head, List.length_append, d.sized, Nat.succ_mul, Nat.add_comm _ pageSize,
      Nat.add_left_cancel_iff, hwhole, Nat.add_div_left _ pageSize_pos, hdiv]
    exact ⟨rfl, ⟨fun h => by rw [h], Nat.succ.inj⟩⟩

theorem Device.exists_whole (d : Device) (page k : Nat) :
    ∃ c ≤ k, d.Whole page c ∧ (c = k ∨ ∃ f, d.fault (page + c) = some f) := by
  induction k with
  | zero => exact ⟨0, Nat.le_refl 0, fun i hi => absurd hi (Nat.not_lt_zero i), .inl rfl⟩
  | succ k ih =>
    obtain ⟨c, hc, hwhole, rfl | hf⟩ := ih
    · cases hf : d.fault (page + c) with
      | some f => exact ⟨c, Nat.le_succ c, hwhole, .inr ⟨f, hf⟩⟩
      | none =>
        refine ⟨c + 1, le_rfl, fun i hi => ?_, .inl rfl⟩
        rcases Nat.lt_succ_iff_lt_or_eq.1 hi with hi | rfl
        · exact hwhole i hi
        · exact hf
    · exact ⟨c, Nat.le_succ_of_le hc, hwhole, .inr hf⟩

namespace Version

variable (v : Version)

/-- What separate reads of the blocks from `block` on deliver, if their slots are the
pages from `page` on. -/
def plainRun : Nat → (block page : Nat) → List Byte
  | 0, _, _ => []
  | n + 1, block, page =>
    crypt v.cipher (v.device.page page) block ++ plainRun n (block + 1) (page + 1)

theorem length_plainRun (n block page : Nat) : (v.plainRun n block page).length = n * pageSize := by
  induction n generalizing block page with
  | zero => simp [plainRun]
  | succ n ih =>
    rw [plainRun, List.length_append, length_crypt _ (v.device.sized _), ih, Nat.succ_mul,
      Nat.add_comm]

variable {k page remaining block inner : Nat}

/-- The bytes of such a run that a read of `remaining` bytes wants, from `inner` on. -/
def runBytes (n block page inner remaining : Nat) : List Byte :=
  ((v.plainRun n block page).drop inner).take (min remaining (n * pageSize - inner))

theorem length_runBytes :
    (v.runBytes k block page inner remaining).length = min remaining (k * pageSize - inner) := by
  rw [runBytes, List.length_take, List.length_drop, length_plainRun]
  omega

/-- Decrypting page by page what the device delivered whole. -/
theorem cryptPages_transfer {n : Nat} (block : Nat) (hk : n ≤ k) (h : v.device.Whole page n) :
    cryptPages v.cipher n block (v.device.transfer page k) = v.plainRun n block page := by
  induction n generalizing block page k with
  | zero => rfl
  | succ n ih =>
    obtain ⟨k, rfl⟩ : ∃ m, k = m + 1 := ⟨k - 1, by omega⟩
    have hlen := v.device.sized page
    rw [cryptPages, Device.transfer_succ h.head, List.take_left' hlen, List.drop_left' hlen,
      plainRun, ih (block + 1) (Nat.le_of_succ_le_succ hk) h.tail]

/-- `View.ReadAt` decrypts the run with one call. -/
theorem transform_transfer {n : Nat} (block : Nat) (h : v.device.Whole page n) :
    transform v.cipher (v.device.transfer page n) (block * (pageSize / sectorSize)) =
      v.plainRun n block page := by
  cases hc : v.cipher with
  | none =>
    simp only [transform]
    induction n generalizing block page with
    | zero => rfl
    | succ n ih =>
      rw [Device.transfer_succ h.head, plainRun, hc, ih (block + 1) h.tail]
      rfl
  | some c =>
    have hlen := (v.device.length_transfer le_rfl h (.inl rfl)).2.2 rfl
    simp only [transform]
    rw [hlen, show n * pageSize / sectorSize = n * 8 by simp only [pageSize, sectorSize]; omega]
    clear hlen
    induction n generalizing block page with
    | zero => rfl
    | succ n ih =>
      have hpage := v.device.sized page
      have hblock : block * (pageSize / sectorSize) + 8 =
          (block + 1) * (pageSize / sectorSize) := by
        simp only [pageSize, sectorSize]
        omega
      rw [Device.transfer_succ h.head, plainRun, hc, crypt, transform, Nat.succ_mul,
        Nat.add_comm (n * 8), transformSectors_append _ _ _ _ _ _ (by rw [hpage]; rfl), hblock,
          ih (block + 1) h.tail, hpage]
      rfl

/-! ## The reference over a run -/

/-- The reference with the fuel it needs. -/
def pagewise (pos remaining : Nat) : Outcome := v.pagewiseLoop remaining pos remaining

theorem pagewiseLoop_fuel (fuel fuel' : Nat) {pos : Nat} (h : remaining ≤ fuel)
    (h' : remaining ≤ fuel') :
    v.pagewiseLoop fuel pos remaining = v.pagewiseLoop fuel' pos remaining := by
  induction fuel generalizing fuel' pos remaining with
  | zero =>
    obtain rfl := Nat.le_zero.1 h
    simp [pagewiseLoop]
  | succ fuel ih =>
    cases remaining with
    | zero => simp [pagewiseLoop]
    | succ remaining =>
      obtain ⟨fuel', rfl⟩ : ∃ m, fuel' = m + 1 := ⟨fuel' - 1, by omega⟩
      have hinner := Nat.mod_lt pos pageSize_pos
      rw [pagewiseLoop, pagewiseLoop]
      cases v.readBlock (pos / pageSize) with
      | error e => rfl
      | ok bytes => dsimp only; rw [ih fuel' (by omega) (by omega)]

theorem pagewise_zero (pos : Nat) : v.pagewise pos 0 = ([], none) := by
  simp [pagewise, pagewiseLoop]

/-- The reference behind the bytes of a run. -/
def pagewiseAfter (bytes : List Byte) (pos remaining : Nat) : Outcome :=
  Outcome.after bytes (v.pagewise (pos + bytes.length) (remaining - bytes.length))

section

variable (hinner : inner < pageSize) (hpos : 0 < remaining)

include hinner hpos

theorem pagewise_step :
    v.pagewise (block * pageSize + inner) remaining = match v.readBlock block with
      | .error e => ([], some e)
      | .ok bytes =>
        Outcome.after ((bytes.drop inner).take (min remaining (pageSize - inner)))
          (v.pagewise (block * pageSize + inner + min remaining (pageSize - inner))
            (remaining - min remaining (pageSize - inner))) := by
  obtain ⟨r, rfl⟩ : ∃ r, remaining = r + 1 := ⟨remaining - 1, by omega⟩
  rw [pagewise, pagewiseLoop, block_div hinner, block_mod hinner]
  cases v.readBlock block with
  | error e => rfl
  | ok bytes => rw [pagewise, v.pagewiseLoop_fuel r _ (by omega) le_rfl]

/-- The reference over blocks that are read from adjacent pages. -/
theorem pagewise_run (n : Nat)
    (h : ∀ i < n, v.readBlock (block + i) =
      .ok (crypt v.cipher (v.device.page (page + i)) (block + i))) :
    v.pagewise (block * pageSize + inner) remaining =
      v.pagewiseAfter (v.runBytes n block page inner remaining)
      (block * pageSize + inner) remaining := by
  rw [pagewiseAfter, length_runBytes, runBytes]
  induction n generalizing block inner remaining page with
  | zero => simp [plainRun, Outcome.after]
  | succ n ih =>
    have hlen := length_crypt v.cipher (v.device.sized page) block
    have hmul : (n + 1) * pageSize = n * pageSize + pageSize := Nat.succ_mul ..
    rw [v.pagewise_step hinner hpos, show v.readBlock block = _ from h 0 (Nat.succ_pos n)]
    dsimp only [Nat.add_zero]
    rw [plainRun, List.drop_append_of_le_length (by omega)]
    by_cases hlast : remaining ≤ pageSize - inner
    · rw [min_eq_left hlast, min_eq_left (by omega), Nat.sub_self, pagewise_zero,
        List.take_append_of_le_length (by rw [List.length_drop]; omega)]
    have hrest : ∀ i < n, v.readBlock (block + 1 + i) =
        .ok (crypt v.cipher (v.device.page (page + 1 + i)) (block + 1 + i)) := fun i hi => by
      have := h (i + 1) (Nat.succ_lt_succ hi)
      rwa [← Nat.add_assoc, ← Nat.add_assoc, Nat.add_right_comm block,
        Nat.add_right_comm page] at this
    have hnext : block * pageSize + inner + (pageSize - inner) = (block + 1) * pageSize + 0 := by
      rw [Nat.succ_mul]
      omega
    have hfull :
        ((crypt v.cipher (v.device.page page) block).drop inner).length = pageSize - inner := by
      rw [List.length_drop, hlen]
    have hmin : min remaining ((n + 1) * pageSize - inner) =
        (pageSize - inner) + min (remaining - (pageSize - inner)) (n * pageSize) := by omega
    have htake : ∀ m, ((crypt v.cipher (v.device.page page) block).drop inner).take
        (pageSize - inner + m) = (crypt v.cipher (v.device.page page) block).drop inner :=
      fun m => List.take_of_length_le (by rw [hfull]; exact Nat.le_add_right ..)
    rw [min_eq_right (by omega), hmin, hnext, ih pageSize_pos (by omega) hrest, Nat.sub_zero,
      List.drop_zero, show ∀ l : List Byte, l.take (pageSize - inner) = l.take
        (pageSize - inner + 0) from fun _ => rfl, htake,
      List.take_append, htake, hfull, Nat.add_sub_cancel_left, Nat.sub_add_eq]
    have hpos' :
        block * pageSize + inner +
        (pageSize - inner + min (remaining - (pageSize - inner)) (n * pageSize)) =
        (block + 1) * pageSize + 0 + min (remaining - (pageSize - inner)) (n * pageSize) := by
      rw [Nat.succ_mul]
      omega
    rw [hpos']
    simp [Outcome.after]

end

/-! ## Adjacent slots -/

/-- `k` blocks from `block` on have the pages from that of `slot` on, and all but the
first begin inside the range. -/
structure Adjacent (slot block inner remaining k : Nat) : Prop where
  mapped : ∀ i < k, has v.presence (block + i) = true ∧
    ∃ s, v.slotOf (block + i) = .ok s ∧ s ≠ 0 ∧ slotPage s = slotPage slot + i
  room : ∀ i, 0 < i → i < k → i * pageSize - inner < remaining

variable {slot : Nat}

theorem lookahead_adjacent (fuel : Nat) :
    ∀ pages, 0 < pages → v.Adjacent slot block inner remaining pages →
      let res := v.lookahead slot block inner remaining fuel pages
      0 < res.1 ∧ v.Adjacent slot block inner remaining res.1 ∧
        ∀ e, res.2 = some e → has v.presence (block + res.1) = true ∧
          v.slotOf (block + res.1) = .error e ∧
          res.1 * pageSize - inner < remaining := by
  induction fuel with
  | zero => exact fun pages hpos h => ⟨hpos, h, nofun⟩
  | succ fuel ih =>
    intro pages hpos h
    have hstop : 0 < pages ∧ v.Adjacent slot block inner remaining pages ∧
        ∀ e, (none : Option Failure) = some e →
        has v.presence (block + pages) = true ∧ v.slotOf (block + pages) = .error e ∧
          pages * pageSize - inner < remaining :=
      ⟨hpos, h, nofun⟩
    rw [lookahead]
    split
    next hroom =>
      split
      next hhas =>
        cases hslot : v.slotOf (block + pages) with
        | error e => exact ⟨hpos, h, fun e' he => by cases he; exact ⟨hhas, hslot, hroom⟩⟩
        | ok next =>
          dsimp only
          split
          · exact hstop
          next hadj =>
            obtain ⟨hne, hpage⟩ := not_or.1 hadj
            refine ih (pages + 1) (Nat.succ_pos _) ⟨fun i hi => ?_, fun i hi hlt => ?_⟩
            · rcases Nat.lt_succ_iff_lt_or_eq.1 hi with hi | rfl
              · exact h.mapped i hi
              · exact ⟨hhas, next, hslot, hne, Decidable.not_not.1 hpage⟩
            · rcases Nat.lt_succ_iff_lt_or_eq.1 hlt with hlt | rfl
              · exact h.room i hi hlt
              · exact hroom
      · exact hstop
    · exact hstop

variable {v} in
theorem Adjacent.one (hhas : has v.presence block = true)
    (hslot : v.slotOf block = .ok slot) (hne : slot ≠ 0) :
    v.Adjacent slot block inner remaining 1 where
  mapped := fun i hi => by
    obtain rfl := Nat.lt_one_iff.1 hi
    exact ⟨hhas, slot, hslot, hne, rfl⟩
  room := fun i hi hlt => by omega

variable {v} in
theorem Adjacent.readBlock_eq (h : v.Adjacent slot block inner remaining k) {i : Nat} (hi : i < k) :
    v.readBlock (block + i) = match v.device.fault (slotPage slot + i) with
      | some f => .error (f.errno.getD .unexpectedEOF)
      | none => .ok (crypt v.cipher (v.device.page (slotPage slot + i)) (block + i)) := by
  obtain ⟨hhas, s, hs, hne, hpage⟩ := h.mapped i hi
  rw [readBlock, if_pos hhas, hs]
  cases hf : v.device.fault (slotPage slot + i) <;> simp [bind, Except.bind, hne, hpage, hf]

variable {e : Failure}

theorem readBlock_of_slot_error (hhas : has v.presence block = true)
    (hslot : v.slotOf block = .error e) : v.readBlock block = .error e := by
  rw [readBlock, if_pos hhas, hslot]
  rfl

variable {c : Nat}

section

variable (hinner : inner < pageSize) (hpos : 0 < remaining)

include hinner hpos

/-- The reference over adjacent slots, up to the first fault. -/
theorem pagewise_adjacent (h : v.Adjacent slot block inner remaining k) (hc : c ≤ k)
    (hwhole : v.device.Whole (slotPage slot) c) : v.pagewise (block * pageSize + inner) remaining =
      v.pagewiseAfter (v.runBytes c block (slotPage slot) inner remaining)
      (block * pageSize + inner) remaining :=
  v.pagewise_run hinner hpos c fun i hi => by
    rw [h.readBlock_eq (lt_of_lt_of_le hi hc), hwhole i hi]

/-- The reference stops at a block of the range that cannot be read. -/
theorem pagewise_stops (h : v.Adjacent slot block inner remaining k) (hc : c ≤ k)
    (hwhole : v.device.Whole (slotPage slot) c) (hroom : c * pageSize - inner < remaining)
    (herr : v.readBlock (block + c) = .error e) :
    v.pagewise (block * pageSize + inner) remaining =
      (v.runBytes c block (slotPage slot) inner remaining, some e) := by
  rw [v.pagewise_adjacent hinner hpos h hc hwhole, pagewiseAfter, length_runBytes,
    min_eq_right (le_of_lt hroom)]
  have hstop : v.pagewise (block * pageSize + inner + (c * pageSize - inner))
      (remaining - (c * pageSize - inner)) = ([], some e) := by
    cases c with
    | zero =>
      rw [Nat.add_zero] at herr
      rw [Nat.zero_mul, Nat.zero_sub, Nat.add_zero, Nat.sub_zero, v.pagewise_step hinner hpos, herr]
    | succ c =>
      have hmul : (c + 1) * pageSize = c * pageSize + pageSize := Nat.succ_mul ..
      have hnext : block * pageSize + inner + ((c + 1) * pageSize - inner) =
          (block + (c + 1)) * pageSize + 0 := by
        have : (block + (c + 1)) * pageSize = block * pageSize + (c + 1) * pageSize :=
          Nat.add_mul ..
        omega
      rw [hnext, v.pagewise_step pageSize_pos (by omega), herr]
  rw [hstop, Outcome.after, List.append_nil]

/-- The reference over `k` slots a lookahead found, with the error that stopped it: the
whole run is read and the read goes on behind it, or it stops at the block whose lookup or
page failed. -/
inductive Ahead (slot block inner remaining k : Nat) : Option Failure → Prop where
  | whole : v.device.Whole (slotPage slot) k → v.pagewise (block * pageSize + inner) remaining =
        v.pagewiseAfter (v.runBytes k block (slotPage slot) inner remaining)
          (block * pageSize + inner) remaining →
      Ahead slot block inner remaining k none
  | lookup {e : Failure} : v.device.Whole (slotPage slot) k → v.readBlock (block + k) = .error e →
      k * pageSize - inner < remaining → v.pagewise (block * pageSize + inner) remaining =
        (v.runBytes k block (slotPage slot) inner remaining, some e) →
      Ahead slot block inner remaining k (some e)
  | fault {c : Nat} {f : Fault} {e : Failure} {lookupErr : Option Failure} :
    c < k → v.device.Whole (slotPage slot) c →
      v.device.fault (slotPage slot + c) = some f → v.readBlock (block + c) = .error e →
      c * pageSize - inner < remaining → v.pagewise (block * pageSize + inner) remaining =
        (v.runBytes c block (slotPage slot) inner remaining, some e) →
      Ahead slot block inner remaining k lookupErr

theorem pagewise_ahead (hhas : has v.presence block = true) (hslot : v.slotOf block = .ok slot)
    (hne : slot ≠ 0) :
    let res := v.lookahead slot block inner remaining 255 1
    0 < res.1 ∧ v.Ahead slot block inner remaining res.1 res.2 := by
  obtain ⟨hk, h, herr⟩ := v.lookahead_adjacent 255 1 Nat.one_pos
    (.one hhas hslot hne : v.Adjacent slot block inner remaining 1)
  refine ⟨hk, ?_⟩
  generalize v.lookahead slot block inner remaining 255 1 = ahead at h herr
  obtain ⟨k, lookupErr⟩ := ahead
  obtain ⟨c, hc, hwhole, hstop⟩ := v.device.exists_whole (slotPage slot) k
  by_cases hck : c = k
  · obtain rfl := hck
    cases lookupErr with
    | none => exact .whole hwhole (v.pagewise_adjacent hinner hpos h hc hwhole)
    | some e =>
      obtain ⟨hhas, hslot, hroom⟩ := herr e rfl
      have he := v.readBlock_of_slot_error hhas hslot
      exact .lookup hwhole he hroom (v.pagewise_stops hinner hpos h hc hwhole hroom he)
  · obtain ⟨f, hf⟩ := hstop.resolve_left hck
    have hlt : c < k := by omega
    have he := h.readBlock_eq hlt
    rw [hf] at he
    have hroom : c * pageSize - inner < remaining := by
      rcases Nat.eq_zero_or_pos c with rfl | hcpos
      · omega
      · exact h.room c hcpos hlt
    exact .fault hlt hwhole hf he hroom (v.pagewise_stops hinner hpos h hc hwhole hroom he)

end

/-! ## The loops -/

/-- The same bytes, and an error in both or in neither. -/
structure Agrees (o ref : Outcome) : Prop where
  bytes : o.1 = ref.1
  failed : o.2.isSome = ref.2.isSome

variable {o ref : Outcome}

theorem Agrees.after (h : Agrees o ref) (bytes : List Byte) :
    Agrees (Outcome.after bytes o) (Outcome.after bytes ref) :=
  ⟨congrArg (bytes ++ ·) h.bytes, h.failed⟩

/-- An error in both or in neither; no other bytes, and without an error the same. -/
structure Follows (o ref : Outcome) : Prop where
  bytes : o.1 <+: ref.1
  failed : o.2.isSome = ref.2.isSome
  same : ref.2 = none → o = ref

theorem Follows.refl (o : Outcome) : Follows o o := ⟨List.prefix_rfl, rfl, fun _ => rfl⟩

theorem Follows.after (h : Follows o ref) (bytes : List Byte) :
    Follows (Outcome.after bytes o) (Outcome.after bytes ref) :=
  ⟨List.prefix_append_right_inj bytes |>.mpr h.bytes, h.failed, fun hnone => by rw [h.same hnone]⟩

theorem Follows.failure {e' : Failure} (h : ref.2 = some e') : Follows ([], some e) ref :=
  ⟨List.nil_prefix, by rw [h]; rfl, fun hnone => by rw [h] at hnone; cases hnone⟩

/-- A block that is absent or not mapped. -/
theorem pagewise_zeros (hinner : inner < pageSize) (hpos : 0 < remaining)
    (h : v.readBlock block = .ok (List.replicate pageSize 0)) :
    v.pagewise (block * pageSize + inner) remaining =
      v.pagewiseAfter (List.replicate (min remaining (pageSize - inner)) 0)
      (block * pageSize + inner) remaining := by
  rw [v.pagewise_step hinner hpos, h, pagewiseAfter, List.length_replicate]
  simp only [List.drop_replicate, List.take_replicate, Nat.min_assoc, Nat.min_self]

theorem readError_short (readErr : Option Failure) {got want : Nat} (h : got ≠ want) :
    ∃ e, readError readErr got want = some e := by
  cases readErr with
  | some e => exact ⟨e, rfl⟩
  | none => exact ⟨_, if_neg h⟩

/-- Without a fault the whole run is delivered. -/
theorem pread_whole (hk : 0 < k) (h : v.device.Whole page k) :
    v.device.pread page k = (v.device.transfer page k, none) ∧
      (v.device.transfer page k).length = k * pageSize := by
  have hfull := (v.device.length_transfer le_rfl h (.inl rfl)).2.2 rfl
  have hne : v.device.transfer page k ≠ [] := fun hnil => by
    rw [hnil, List.length_nil] at hfull
    have := Nat.mul_pos hk pageSize_pos
    omega
  rw [Device.pread, if_neg hne]
  exact ⟨rfl, hfull⟩

theorem readData_whole {want : Nat} (hk : 0 < k) (h : v.device.Whole page k) :
    v.readData want page block k inner = (v.runBytes k block page inner want, none) := by
  obtain ⟨hread, hfull⟩ := v.pread_whole hk h
  rw [readData, hread]
  dsimp only
  rw [hfull, Nat.mul_div_cancel _ pageSize_pos, v.cryptPages_transfer block le_rfl h, readError,
    if_pos rfl, runBytes]

/-- With a fault the complete pages before it are delivered, and an error. -/
theorem readData_fault (want block inner : Nat) (hc : c < k) (h : v.device.Whole page c) {f : Fault}
    (hf : v.device.fault (page + c) = some f) :
    ∃ e, v.readData want page block k inner = (v.runBytes c block page inner want, some e) := by
  obtain ⟨hdiv, hlen⟩ := v.device.length_transfer (le_of_lt hc) h (.inr ⟨f, hf⟩)
  obtain ⟨e, he⟩ := readError_short (v.device.pread page k).2 (fun h => Nat.ne_of_lt hc (hlen.1 h))
  refine ⟨e, ?_⟩
  rw [← he, readData]
  dsimp only [Device.pread]
  rw [hdiv, v.cryptPages_transfer block (le_of_lt hc) h, runBytes]

theorem readBlock_unmapped (hhas : has v.presence block = true) (hslot : v.slotOf block = .ok 0) :
    v.readBlock block = (v.validateAbsent block).map fun _ => List.replicate pageSize 0 := by
  rw [readBlock, if_pos hhas, hslot]
  cases v.validateAbsent block <;> rfl

/-- What is asked of a run from `pos` on: the bytes it goes on with are those of the
reference, and if it stops the outcome is as `R` says. -/
inductive Delivered (R : Outcome → Outcome → Prop) (pos remaining : Nat) : Delivery → Prop where
  | next {bytes : List Byte} : 0 < bytes.length → bytes.length ≤ remaining →
    v.pagewise pos remaining =
        Outcome.after bytes (v.pagewise (pos + bytes.length) (remaining - bytes.length)) →
      Delivered R pos remaining (.next bytes)
  | stop {bytes : List Byte} {e : Failure} : R (bytes, some e) (v.pagewise pos remaining) →
      Delivered R pos remaining (.stop bytes e)

def Delivers (R : Outcome → Outcome → Prop) (run : (slot block inner remaining : Nat) → Delivery) :
    Prop :=
  ∀ {slot block inner remaining}, has v.presence block = true → v.slotOf block = .ok slot →
    slot ≠ 0 →
    inner < pageSize → 0 < remaining →
    v.Delivered R (block * pageSize + inner) remaining (run slot block inner remaining)

variable {R : Outcome → Outcome → Prop}

/-- The loop over any runs, against the reference. -/
theorem readLoop_rel (hrefl : ∀ o, R o o)
    (hafter : ∀ {o ref} bytes, R o ref → R (Outcome.after bytes o) (Outcome.after bytes ref))
    {run : (slot block inner remaining : Nat) → Delivery} (hrun : v.Delivers R run) (fuel : Nat) :
    ∀ pos remaining, remaining ≤ fuel → R (v.readLoop run fuel pos remaining)
    (v.pagewise pos remaining) := by
  induction fuel with
  | zero =>
    intro pos remaining hle
    obtain rfl := Nat.le_zero.1 hle
    rw [pagewise_zero]
    exact hrefl _
  | succ fuel ih =>
    intro pos remaining hle
    cases remaining with
    | zero =>
      rw [pagewise_zero]
      exact hrefl _
    | succ r =>
      obtain ⟨block, inner, hinner, rfl⟩ := exists_block pos
      have hpos : 0 < r + 1 := Nat.succ_pos r
      -- a block that reads as zeros
      have hzeros : v.readBlock block = .ok (List.replicate pageSize 0) →
          R (.after (List.replicate (min (r + 1) (pageSize - inner)) 0)
            (v.readLoop run fuel (block * pageSize + inner + min (r + 1) (pageSize - inner))
              (r + 1 - min (r + 1) (pageSize - inner))))
                (v.pagewise (block * pageSize + inner) (r + 1)) := fun h => by
        rw [v.pagewise_zeros hinner hpos h, pagewiseAfter, List.length_replicate]
        exact hafter _ (ih _ _ (by omega))
      rw [readLoop, block_div hinner, block_mod hinner]
      cases hhas : has v.presence block with
      | false => exact hzeros (by rw [readBlock, hhas]; rfl)
      | true =>
        cases hslot : v.slotOf block with
        | error e =>
          rw [v.pagewise_step hinner hpos, v.readBlock_of_slot_error hhas hslot]
          exact hrefl _
        | ok slot =>
          by_cases hzero : slot = 0
          · obtain rfl := hzero
            have hblock := v.readBlock_unmapped hhas hslot
            cases hvalid : v.validateAbsent block with
            | error e =>
              rw [v.pagewise_step hinner hpos, hblock, hvalid]
              exact hrefl _
            | ok _ => exact hzeros (by rw [hblock, hvalid]; rfl)
          · simp only [if_neg hzero]
            have hres := hrun hhas hslot hzero hinner hpos
            generalize run slot block inner (r + 1) = res at hres
            cases hres with
            | stop hR => exact hR
            | next hsome hle' href =>
              rw [href]
              exact hafter _ (ih _ _ (by omega))

theorem Delivered.whole (hinner : inner < pageSize) (hpos : 0 < remaining) (hk : 0 < k)
    (href : v.pagewise (block * pageSize + inner) remaining =
      v.pagewiseAfter (v.runBytes k block page inner remaining)
      (block * pageSize + inner) remaining) :
    v.Delivered R (block * pageSize + inner) remaining
    (.next (v.runBytes k block page inner remaining)) := by
  have hmul := Nat.mul_le_mul_right pageSize hk
  refine .next ?_ ?_ href
  all_goals
    rw [length_runBytes]
    omega

theorem storeRun_delivers : v.Delivers Agrees v.storeRun := by
  intro slot block inner remaining hhas hslot hne hinner hpos
  obtain ⟨hk, hahead⟩ := v.pagewise_ahead hinner hpos hhas hslot hne
  rw [storeRun]
  generalize v.lookahead slot block inner remaining 255 1 = ahead at hk hahead
  obtain ⟨k, lookupErr⟩ := ahead
  dsimp only at hk hahead ⊢
  cases hahead with
  | whole hwhole href =>
    rw [v.readData_whole hk hwhole]
    exact .whole v hinner hpos hk href
  | lookup hwhole _ _ href =>
    rw [v.readData_whole hk hwhole]
    exact .stop (by rw [href]; exact ⟨rfl, rfl⟩)
  | fault hlt hwhole hf _ _ href =>
    obtain ⟨e', he'⟩ := v.readData_fault remaining block inner hlt hwhole hf
    rw [he']
    exact .stop (by rw [href]; exact ⟨rfl, rfl⟩)

theorem viewRun_delivers : v.Delivers Follows v.viewRun := by
  intro slot block inner remaining hhas hslot hne hinner hpos
  obtain ⟨hk, hahead⟩ := v.pagewise_ahead hinner hpos hhas hslot hne
  rw [viewRun]
  generalize v.lookahead slot block inner remaining 255 1 = ahead at hk hahead
  obtain ⟨k, lookupErr⟩ := ahead
  cases hahead with
  | whole hwhole href =>
    obtain ⟨hread, hfull⟩ := v.pread_whole hk hwhole
    dsimp only
    rw [hread]
    rw [hfull, readError, if_pos rfl]
    dsimp only
    rw [v.transform_transfer block hwhole, v.length_plainRun]
    exact .whole v hinner hpos hk href
  | lookup hwhole _ _ href => exact .stop (.failure (by rw [href]))
  | fault hlt hwhole hf _ _ href =>
    cases lookupErr with
    | some e' => exact .stop (.failure (by rw [href]))
    | none =>
      obtain ⟨-, hlen⟩ := v.device.length_transfer (le_of_lt hlt) hwhole (.inr ⟨_, hf⟩)
      have hshort : (v.device.pread (slotPage slot) k).1.length ≠ k * pageSize :=
        fun h => Nat.ne_of_lt hlt (hlen.1 h)
      obtain ⟨e', he'⟩ := readError_short (v.device.pread (slotPage slot) k).2 hshort
      dsimp only
      rw [he']
      exact .stop (.failure (by rw [href]))

/-! ## Where a view stops -/

/-- The pages a view reads with one call from `pos` on, 0 if the block there has no slot. -/
def runPages (pos remaining : Nat) : Nat :=
  if has v.presence (pos / pageSize) then
    match v.slotOf (pos / pageSize) with
    | .error _ => 0
    | .ok slot =>
      if slot = 0 then 0 else (v.lookahead slot (pos / pageSize) (pos % pageSize) remaining 255 1).1
  else 0

/-- A block of the run at `pos`, or the one behind it, cannot be read. -/
def Blocked (pos remaining : Nat) : Prop :=
  ∃ c e, c ≤ v.runPages pos remaining ∧ (pos / pageSize + c) * pageSize < pos + remaining ∧
    v.readBlock (pos / pageSize + c) = .error e

theorem runPages_eq (remaining : Nat) (hinner : inner < pageSize)
    (hhas : has v.presence block = true) (hslot : v.slotOf block = .ok slot) (hne : slot ≠ 0) :
    v.runPages (block * pageSize + inner) remaining =
      (v.lookahead slot block inner remaining 255 1).1 := by
  rw [runPages, block_div hinner, block_mod hinner, if_pos hhas, hslot]
  dsimp only
  rw [if_neg hne]

theorem Blocked.here (hinner : inner < pageSize) (hpos : 0 < remaining)
    (h : v.readBlock block = .error e) :
    v.Blocked (block * pageSize + inner) remaining := by
  refine ⟨0, e, Nat.zero_le _, ?_, ?_⟩
  · rw [block_div hinner, Nat.add_zero]
    omega
  · rw [block_div hinner, Nat.add_zero]
    exact h

/-- A run that fails delivers nothing of it. -/
theorem viewRun_stop {bytes : List Byte} (hinner : inner < pageSize) (hpos : 0 < remaining)
    (hhas : has v.presence block = true) (hslot : v.slotOf block = .ok slot) (hne : slot ≠ 0)
    (h : v.viewRun slot block inner remaining = .stop bytes e) :
    bytes = [] ∧ v.Blocked (block * pageSize + inner) remaining := by
  obtain ⟨hk, hahead⟩ := v.pagewise_ahead hinner hpos hhas hslot hne
  have hpages := v.runPages_eq remaining hinner hhas hslot hne
  -- the block that cannot be read is at most one behind the run
  have blocked : ∀ {c : Nat} {e : Failure}, c ≤ (v.lookahead slot block inner remaining 255 1).1 →
      c * pageSize - inner < remaining → v.readBlock (block + c) = .error e →
      v.Blocked (block * pageSize + inner) remaining := fun {c e} hc hroom he => by
    refine ⟨c, e, hpages ▸ hc, ?_, ?_⟩
    · rw [block_div hinner, Nat.add_mul]
      omega
    · rwa [block_div hinner]
  rw [viewRun] at h
  generalize v.lookahead slot block inner remaining 255 1 = ahead at hk hahead h blocked
  obtain ⟨k, lookupErr⟩ := ahead
  cases hahead with
  | whole hwhole _ =>
    obtain ⟨hread, hfull⟩ := v.pread_whole hk hwhole
    dsimp only at h
    rw [hread, hfull, readError, if_pos rfl] at h
    cases h
  | lookup _ he hroom _ =>
    cases h
    exact ⟨rfl, blocked le_rfl hroom he⟩
  | fault hlt _ _ he hroom _ =>
    refine ⟨?_, blocked (le_of_lt hlt) hroom he⟩
    dsimp only at h
    split at h
    · cases h
      rfl
    · split at h <;> cases h
      rfl

/-- What a view leaves out begins with a run in which a block cannot be read. -/
theorem viewLoop_blocked (fuel : Nat) : ∀ pos remaining, remaining ≤ fuel →
    (v.readLoop v.viewRun fuel pos remaining).1.length < remaining →
    v.Blocked (pos + (v.readLoop v.viewRun fuel pos remaining).1.length)
      (remaining - (v.readLoop v.viewRun fuel pos remaining).1.length) := by
  induction fuel with
  | zero => exact fun pos remaining hle hlt => by omega
  | succ fuel ih =>
    intro pos remaining hle hlt
    cases remaining with
    | zero => cases hlt
    | succ r =>
      obtain ⟨block, inner, hinner, rfl⟩ := exists_block pos
      have hpos : 0 < r + 1 := Nat.succ_pos r
      have after : ∀ bytes : List Byte, 0 < bytes.length →
          let o := Outcome.after bytes
            (v.readLoop v.viewRun fuel (block * pageSize + inner + bytes.length)
            (r + 1 - bytes.length))
          o.1.length < r + 1 → v.Blocked (block * pageSize + inner + o.1.length)
            (r + 1 - o.1.length) := by
        intro bytes hsome
        dsimp only [Outcome.after]
        rw [List.length_append]
        intro hlt
        have := ih (block * pageSize + inner + bytes.length) (r + 1 - bytes.length) (by omega)
          (by omega)
        rwa [Nat.add_assoc, Nat.sub_sub] at this
      have hzeros := after (List.replicate (min (r + 1) (pageSize - inner)) 0)
        (by rw [List.length_replicate]; omega)
      rw [List.length_replicate] at hzeros
      rw [readLoop, block_div hinner, block_mod hinner] at hlt ⊢
      cases hhas : has v.presence block with
      | false =>
        simp only [hhas, Bool.false_eq_true, if_false] at hlt ⊢
        exact hzeros hlt
      | true =>
        simp only [hhas, if_true] at hlt ⊢
        cases hslot : v.slotOf block with
        | error e =>
          simp only [List.length_nil, Nat.add_zero, Nat.sub_zero]
          exact .here v hinner hpos (v.readBlock_of_slot_error hhas hslot)
        | ok slot =>
          simp only [hslot] at hlt ⊢
          by_cases hzero : slot = 0
          · obtain rfl := hzero
            simp only [if_true] at hlt ⊢
            have hblock := v.readBlock_unmapped hhas hslot
            cases hvalid : v.validateAbsent block with
            | error e =>
              simp only [List.length_nil, Nat.add_zero, Nat.sub_zero]
              exact .here v hinner hpos (by rw [hblock, hvalid]; rfl)
            | ok _ =>
              simp only [hvalid] at hlt ⊢
              exact hzeros hlt
          · simp only [if_neg hzero] at hlt ⊢
            have hres := v.viewRun_delivers hhas hslot hzero hinner hpos
            cases hrun : v.viewRun slot block inner (r + 1) with
            | stop bytes e =>
              obtain ⟨rfl, hblocked⟩ := v.viewRun_stop hinner hpos hhas hslot hzero hrun
              simp only [List.length_nil, Nat.add_zero, Nat.sub_zero]
              exact hblocked
            | next bytes =>
              rw [hrun] at hres
              cases hres with
              | next hsome _ _ =>
                simp only [hrun] at hlt ⊢
                exact after bytes hsome hlt

/-! ## The readers -/

/-- Every block the range touches can be read. -/
def Readable (len off : Nat) : Prop :=
  ∀ block, off / pageSize ≤ block → block * pageSize < min (off + len) v.size →
    ∃ bytes, v.readBlock block = .ok bytes

theorem pagewise_ok (remaining : Nat) :
    ∀ pos, (∀ block, pos / pageSize ≤ block → block * pageSize < pos + remaining →
      ∃ bytes, v.readBlock block = .ok bytes) → (v.pagewise pos remaining).2 = none := by
  induction remaining using Nat.strongRecOn with
  | _ remaining ih =>
    intro pos h
    rcases Nat.eq_zero_or_pos remaining with rfl | hpos
    · rw [pagewise_zero]
    obtain ⟨block, inner, hinner, rfl⟩ := exists_block pos
    obtain ⟨bytes, hbytes⟩ := h block (by rw [block_div hinner]) (by omega)
    rw [v.pagewise_step hinner hpos, hbytes]
    refine ih _ (by omega) _ fun b hb hlt => h b ?_ (by omega)
    exact le_trans (Nat.div_le_div_right (by omega)) hb

theorem Agrees.finish (h : Agrees o ref) (len : Nat) :
    Agrees (Outcome.finish len o) (Outcome.finish len ref) := by
  obtain ⟨bytes, err⟩ := o
  obtain ⟨bytes', err'⟩ := ref
  obtain ⟨rfl, hfailed⟩ := h
  cases err <;> cases err' <;> first | exact ⟨rfl, rfl⟩ | cases hfailed

theorem Follows.finish (h : Follows o ref) (len : Nat) :
    (Outcome.finish len o).1 <+: (Outcome.finish len ref).1 ∧
      (Outcome.finish len o).2.isSome = (Outcome.finish len ref).2.isSome := by
  obtain ⟨bytes, err⟩ := o
  obtain ⟨bytes', err'⟩ := ref
  obtain ⟨hbytes, hfailed, hsame⟩ := h
  cases err' with
  | none =>
    cases hsame rfl
    exact ⟨List.prefix_rfl, rfl⟩
  | some e' =>
    cases err with
    | none => cases hfailed
    | some e => exact ⟨hbytes, rfl⟩

/-- What holds of the loops holds of the readers. -/
theorem readAt_rel (hrefl : ∀ o, R o o) {loop ref : Nat → Nat → Nat → Outcome}
    (len off : Nat)
    (h : off < v.size →
    R (Outcome.finish len (loop (min len (v.size - off)) off (min len (v.size - off))))
      (Outcome.finish len (ref (min len (v.size - off)) off (min len (v.size - off))))) :
    R (v.readAt loop len off) (v.readAt ref len off) := by
  rw [readAt, readAt]
  cases v.refused with
  | some e => exact hrefl _
  | none =>
    by_cases hbeyond : v.size < off
    · simp only [if_pos hbeyond]
      exact hrefl _
    by_cases hlen : len = 0
    · simp only [if_neg hbeyond, if_pos hlen]
      exact hrefl _
    by_cases hend : off = v.size
    · simp only [if_neg hbeyond, if_neg hlen, if_pos hend]
      exact hrefl _
    · simp only [if_neg hbeyond, if_neg hlen, if_neg hend]
      exact h (by omega)

theorem storeReadAt_agrees (len off : Nat) :
    Agrees (v.storeReadAt len off) (v.pagewiseReadAt len off) :=
  v.readAt_rel (fun _ => ⟨rfl, rfl⟩) len off fun _ =>
    (v.readLoop_rel (fun _ => ⟨rfl, rfl⟩) (fun b h => h.after b) v.storeRun_delivers _ off _
      le_rfl).finish len

theorem viewLoop_follows (n pos : Nat) :
    Follows (v.readLoop v.viewRun n pos n) (v.pagewise pos n) :=
  v.readLoop_rel Follows.refl (fun b h => h.after b) v.viewRun_delivers n pos n le_rfl

theorem viewReadAt_follows (len off : Nat) :
    (v.viewReadAt len off).1 <+: (v.pagewiseReadAt len off).1 ∧
      (v.viewReadAt len off).2.isSome = (v.pagewiseReadAt len off).2.isSome :=
  v.readAt_rel (R := fun o ref => o.1 <+: ref.1 ∧ o.2.isSome = ref.2.isSome)
    (fun _ => ⟨List.prefix_rfl, rfl⟩) len off
    fun _ => (v.viewLoop_follows _ off).finish len

theorem viewReadAt_eq {len off : Nat} (h : v.Readable len off) :
    v.viewReadAt len off = v.pagewiseReadAt len off := by
  refine v.readAt_rel (fun _ => rfl) len off fun hoff => ?_
  have hok := v.pagewise_ok (min len (v.size - off)) off fun block hb hlt => h block hb (by omega)
  rw [(v.viewLoop_follows _ off).same hok, pagewise]

/-- The bytes a view leaves out, inside the device. -/
theorem viewReadAt_blocked {len off : Nat} (hrefused : v.refused = none) (hoff : off < v.size)
    (h : (v.viewReadAt len off).1.length < min len (v.size - off)) :
    v.Blocked (off + (v.viewReadAt len off).1.length)
      (min len (v.size - off) - (v.viewReadAt len off).1.length) := by
  have hlen : len ≠ 0 := by
    rintro rfl
    simp at h
  have hloop : (v.viewReadAt len off).1 =
      (v.readLoop v.viewRun (min len (v.size - off)) off (min len (v.size - off))).1 := by
    rw [viewReadAt, readAt, hrefused]
    dsimp only
    rw [if_neg (by omega), if_neg hlen, if_neg (by omega), Outcome.finish]
    split <;> rfl
  rw [hloop] at h ⊢
  exact v.viewLoop_blocked _ _ _ le_rfl h

/-- Both readers against reading every block on its own. The store's returns the same
bytes, also when a lookup or the device fails half way: of a short physical read it
delivers exactly the complete pages. The view's returns the same if every block of the
range can be read, and otherwise an error and a prefix: everything before a run in which, or
right behind which, a block cannot be read, and nothing of that run. -/
theorem readAt_pagewise (len off : Nat) :
    ((v.storeReadAt len off).1 = (v.pagewiseReadAt len off).1 ∧
      (v.storeReadAt len off).2.isSome = (v.pagewiseReadAt len off).2.isSome) ∧
    (∀ want block inner page k c f, c < k → v.device.Whole page c →
      v.device.fault (page + c) = some f →
      ∃ e, v.readData want page block k inner =
        (((v.plainRun c block page).drop inner).take (min want (c * pageSize - inner)), some e)) ∧
    ((v.viewReadAt len off).1 <+: (v.pagewiseReadAt len off).1 ∧
      (v.viewReadAt len off).2.isSome = (v.pagewiseReadAt len off).2.isSome) ∧
    (v.Readable len off → v.viewReadAt len off = v.pagewiseReadAt len off) ∧
    (v.refused = none → off < v.size → (v.viewReadAt len off).1.length < min len (v.size - off) →
      v.Blocked (off + (v.viewReadAt len off).1.length)
        (min len (v.size - off) - (v.viewReadAt len off).1.length)) :=
  ⟨⟨(v.storeReadAt_agrees len off).bytes, (v.storeReadAt_agrees len off).failed⟩,
    fun want block inner _ _ _ _ hc hwhole hf => v.readData_fault want block inner hc hwhole hf,
    v.viewReadAt_follows len off, v.viewReadAt_eq, v.viewReadAt_blocked⟩

/-- Blocks 0 and 1 at the adjacent slots 1 and 2, the root at slot 3; the device may have a
fault at the page of slot 2. -/
def twoBlocks (fault : Option Fault) : Version where
  size := 2 * pageSize
  presence := [3]
  index := {
    page := fun p => if p = slotPage 3 then some (.index 1 [⟨0, 1⟩, ⟨1, 2⟩]) else none
    next := 4
    total := 2
    allocated := by decide }
  root := 3
  device := {
    page := fun p => List.replicate pageSize (BitVec.ofNat 8 p)
    fault := fun p => if p = slotPage 2 then fault else none
    sized := fun p => List.length_replicate }
  cipher := none
  refused := none

theorem readAt_pagewise_two_blocks :
    (twoBlocks none).viewReadAt 5000 100 = (twoBlocks none).pagewiseReadAt 5000 100 := by
  refine (readAt_pagewise (twoBlocks none) 5000 100).2.2.2.1 fun block _ hlt => ?_
  have hlt : block < 2 := by
    have : block * 4096 < 5100 := hlt
    omega
  have hok : ∀ b < 2, ((twoBlocks none).readBlock b).isOk := by decide +kernel
  have := hok block hlt
  cases hb : (twoBlocks none).readBlock block with
  | ok bytes => exact ⟨bytes, rfl⟩
  | error e =>
    rw [hb] at this
    cases this

/-- A view drops the complete pages of a short physical read. -/
theorem viewReadAt_short_read :
    ∃ (v : Version) (len off : Nat), (v.viewReadAt len off).1 ≠ (v.pagewiseReadAt len off).1 := by
  refine ⟨twoBlocks (some ⟨0, none, by decide⟩), 8192, 0, fun h => ?_⟩
  have hview : ((twoBlocks (some ⟨0, none, by decide⟩)).viewReadAt 8192 0).1.length = 0 := by
    decide +kernel
  have hpage : ((twoBlocks (some ⟨0, none, by decide⟩)).pagewiseReadAt 8192 0).1.length = 4096 := by
    decide +kernel
  rw [h, hpage] at hview
  cases hview

end Version

end Sandboxer.Versioned
