import Mathlib.Data.List.Infix
import Sandboxer.Usage.Codec

/-! # Recovery after a torn append

`recover` searches backwards for the marker of a footer. The marker can also
occur inside a record: a text may contain it, and so may the integers of a
payload. The search passes over such a marker unless the bytes before it give a
length in range and either they decode as a record or the file ends there. Where
no marker of the torn bytes stops the search, recovery finds exactly the last
complete record, and otherwise it does not. -/
namespace Sandboxer.Usage

open Lib.Wire

/-! ## The search for a marker -/

/-- What the four bytes before a marker give as the length of a frame. -/
def footerSize (b : Bytes) (pos : Nat) : Nat := ofLE (slice b (pos - 4) pos)

/-- The frame of that length that ends with the marker. -/
def frameAt (b : Bytes) (pos : Nat) : Bytes := slice b (pos + 8 - footerSize b pos) (pos + 8)

def Decodes (f : Bytes) (id : Text) : Prop := ∃ r, decodeRecord f id = .ok r

/-- The search does not pass over the marker at `pos`. -/
structure StopsAt (b : Bytes) (id : Text) (pos : Nat) : Prop where
  marker : tailMagic <+: b.drop pos
  room : 8 ≤ pos
  size : 32 ≤ footerSize b pos ∧ footerSize b pos ≤ maxRecordBytes ∧ footerSize b pos ≤ pos + 8
  decided : pos + 8 = b.length ∨ Decodes (frameAt b pos) id

instance (f : Bytes) (id : Text) : Decidable (Decodes f id) :=
  match h : decodeRecord f id with
  | .ok r => isTrue ⟨r, h⟩
  | .error _ => isFalse fun hd => nomatch h.symm.trans hd.choose_spec

instance (b : Bytes) (id : Text) (pos : Nat) : Decidable (StopsAt b id pos) :=
  decidable_of_iff (tailMagic <+: b.drop pos ∧ 8 ≤ pos ∧ (32 ≤ footerSize b pos ∧
      footerSize b pos ≤ maxRecordBytes ∧ footerSize b pos ≤ pos + 8) ∧
      (pos + 8 = b.length ∨ Decodes (frameAt b pos) id))
    ⟨fun h => ⟨h.1, h.2.1, h.2.2.1, h.2.2.2⟩, fun h => ⟨h.marker, h.room, h.size, h.decided⟩⟩

/-- The last marker before `search` that stops it. -/
structure LastStop (b : Bytes) (id : Text) (search pos : Nat) : Prop extends StopsAt b id pos where
  before : pos + 8 ≤ search
  last : ∀ p, pos < p → p + 8 ≤ search → ¬StopsAt b id p

/-- What the search makes of the marker that stops it. -/
def verdict (b : Bytes) (start : Nat) (id : Text) (pos : Nat) : Except UsageError Recovery :=
  match decodeRecord (frameAt b pos) id with
  | .error e => .error e
  | .ok r =>
    if !checkIncomplete (b.drop (pos + 8)) then .error .corrupt
    else .ok ⟨some r, start + (pos + 8), pos + 8 != b.length⟩

section Search

variable {b : Bytes} {start search pos : Nat} {id : Text}

theorem length_tailMagic : tailMagic.length = 8 := rfl

/-- No other occurrence of the marker starts inside it. -/
theorem tailMagic_apart {k : Nat} (hk : 0 < k) (hk8 : k < 8) (tail : Bytes) :
    ¬tailMagic <+: (tailMagic ++ tail).drop k := by
  intro h
  obtain rfl | rfl | rfl | rfl | rfl | rfl | rfl :
      k = 1 ∨ k = 2 ∨ k = 3 ∨ k = 4 ∨ k = 5 ∨ k = 6 ∨ k = 7 := by omega
  all_goals
    have hhead := List.head_eq_of_cons_eq (List.prefix_iff_eq_append.1 h)
    exact absurd hhead (by decide)

theorem marker_apart {p : Nat} (hp : tailMagic <+: b.drop pos) (hq : tailMagic <+: b.drop p)
    (hlt : pos < p) :
    pos + 8 ≤ p := by
  by_contra hnear
  obtain ⟨tail, htail⟩ := hp
  obtain ⟨k, rfl⟩ := Nat.exists_eq_add_of_lt hlt
  refine tailMagic_apart (k := k + 1) (by omega) (by omega) tail ?_
  rw [htail, List.drop_drop]
  exact hq

theorem marker_le (h : tailMagic <+: b.drop pos) : pos + 8 ≤ b.length := by
  have hlen := h.length_le
  rw [length_tailMagic, List.length_drop] at hlen
  omega

/-- A marker that ends before `search` is in what is searched. -/
theorem marker_take (h : tailMagic <+: b.drop pos) (hs : pos + 8 ≤ search) :
    tailMagic <+: (b.take search).drop pos := by
  rw [List.drop_take]
  exact List.prefix_take_iff.2 ⟨h, by rw [length_tailMagic]; omega⟩

theorem marker_of_take (h : tailMagic <+: (b.take search).drop pos) : tailMagic <+: b.drop pos :=
  h.trans ((List.take_prefix search b).drop pos)

/-- The search goes on below a marker, or ends with its verdict. -/
theorem searchRecord_some (start : Nat) (id : Text)
    (h : lastIndex (b.take search) tailMagic = some pos) :
    (StopsAt b id pos → searchRecord b start id search = verdict b start id pos) ∧
      (¬StopsAt b id pos → searchRecord b start id search = searchRecord b start id pos) := by
  have hmark := marker_of_take (lastIndexTo_eq_some h).1
  have hlen : ¬search < tailMagic.length := by
    have hle := lastIndex_add_le h (by decide)
    have htake := List.length_take_le search b
    omega
  rw [searchRecord, if_neg hlen]
  split
  next hnone =>
    rw [h] at hnone
    cases hnone
  next pos' hpos =>
    rw [h] at hpos
    cases hpos
    simp only [length_tailMagic]
    show (_ → (if pos < 8 then _ else if footerSize b pos < 32 ∨ footerSize b pos > maxRecordBytes ∨
        footerSize b pos > pos + 8 then _ else match decodeRecord (frameAt b pos) id with
          | .error e => _
          | .ok r => _) = _) ∧ (_ → (if pos < 8 then _ else if footerSize b pos < 32 ∨
        footerSize b pos > maxRecordBytes ∨ footerSize b pos > pos + 8 then _ else
        match decodeRecord (frameAt b pos) id with
          | .error e => _
          | .ok r => _) = _)
    refine ⟨fun hs => ?_, fun hs => ?_⟩
    · have hroom := hs.room
      have hsize := hs.size
      rw [if_neg (by omega), if_neg (by omega), verdict]
      cases hd : decodeRecord (frameAt b pos) id with
      | ok r => rfl
      | error e =>
        rcases hs.decided with hend | ⟨r, hr⟩
        · exact if_pos hend
        · rw [hd] at hr
          cases hr
    · by_cases hroom : pos < 8
      · rw [if_pos hroom]
      rw [if_neg hroom]
      split
      · rfl
      next hsize =>
        cases hd : decodeRecord (frameAt b pos) id with
        | ok r => exact absurd ⟨hmark, by omega, by omega, .inr ⟨r, hd⟩⟩ hs
        | error e =>
          refine if_neg fun hend => hs ⟨hmark, by omega, by omega, .inl hend⟩

/-- The search ends with the verdict on the last marker that stops it, or finds none. -/
theorem searchRecord_cases (b : Bytes) (start : Nat) (id : Text) (search : Nat) :
    (∀ p, p + 8 ≤ search → ¬StopsAt b id p) ∧ searchRecord b start id search = noRecord b start ∨
      ∃ pos, LastStop b id search pos ∧ searchRecord b start id search =
        verdict b start id pos := by
  induction search using Nat.strong_induction_on with
  | _ search ih =>
    cases hlast : lastIndex (b.take search) tailMagic with
    | none =>
      refine .inl ⟨fun p hp hs => ?_, ?_⟩
      · have hin := marker_take hs.marker hp
        have hle := marker_le hin
        exact notPrefix_of_lastIndexTo hlast (by omega) hin
      · rw [searchRecord]
        split
        · rfl
        split
        · rfl
        next hsome =>
          rw [hlast] at hsome
          cases hsome
    | some pos =>
      obtain ⟨hin, hnone⟩ := lastIndexTo_eq_some hlast
      have hmark := marker_of_take hin
      have hle := lastIndex_add_le hlast (by decide)
      have htake := List.length_take_le search b
      rw [length_tailMagic] at hle
      -- no marker above `pos` ends before `search`
      have habove : ∀ p, pos < p → p + 8 ≤ search → ¬StopsAt b id p := by
        intro p hp hps hs
        have hmp := marker_take hs.marker hps
        have hlen := marker_le hmp
        exact hnone p hp (by omega) hmp
      obtain ⟨hstop, hpass⟩ := searchRecord_some start id hlast
      by_cases hs : StopsAt b id pos
      · exact .inr ⟨pos, ⟨hs, by omega, habove⟩, hstop hs⟩
      · rw [hpass hs]
        -- below `pos` the induction applies, and markers do not overlap
        have hlift : ∀ p, p + 8 ≤ search → StopsAt b id p → p + 8 ≤ pos := by
          intro p hps hp
          rcases Nat.lt_trichotomy p pos with hlt | rfl | hgt
          · exact marker_apart hp.marker hmark hlt
          · exact absurd hp hs
          · exact absurd hp (habove p hgt hps)
        rcases ih pos (by omega) with ⟨hno, heq⟩ | ⟨q, hq, heq⟩
        · exact .inl ⟨fun p hps hp => hno p (hlift p hps hp) hp, heq⟩
        · refine .inr ⟨q, ⟨hq.toStopsAt, hq.before.trans (by omega), fun p hp hps hp' => ?_⟩, heq⟩
          exact hq.last p hp (hlift p hps hp') hp'

end Search

/-! ## Complete frames -/

/-- The bytes end like a frame of their length. -/
structure Closes (f : Bytes) : Prop where
  long : 32 ≤ f.length
  short : f.length ≤ maxRecordBytes
  size : ofLE (slice f (f.length - 12) (f.length - 8)) = f.length
  marker : f.drop (f.length - 8) = tailMagic

/-- The bytes are an encoded record of the sandbox. -/
def Encodes (id : Text) (f : Bytes) (r : Record) : Prop :=
  encodeRecord r = .ok f ∧ r.snapshot.sandboxID = id

/-- A complete frame whose checksum does not match. -/
structure Damaged (f : Bytes) : Prop extends Closes f where
  headed : Headed f f.length
  sum : (checksum (f.take (f.length - 16))).toNat ≠ ofLE (slice f (f.length - 16) (f.length - 12))

section Frames

variable {b pre f tail rest : Bytes} {start search : Nat} {id : Text} {r : Record}

theorem Encodes.frame (h : Encodes id f r) :
    ∃ payload, f = Usage.frame payload ∧ 32 + payload.length ≤ maxRecordBytes := by
  obtain ⟨-, -, hmax, rfl⟩ := encodeRecord_eq_ok.1 h.1
  exact ⟨_, rfl, hmax⟩

theorem frame_closes {payload : Bytes} (hmax : 32 + payload.length ≤ maxRecordBytes) :
    Closes (Usage.frame payload) := by
  have hlt : 32 + payload.length < 2 ^ 32 := lt_of_le_of_lt hmax (by decide)
  have hf := footed_frame hlt
  have hlen := length_frame payload
  exact ⟨by omega, by omega, hf.size, hf.marker⟩

theorem Encodes.closes (h : Encodes id f r) : Closes f := by
  obtain ⟨payload, rfl, hmax⟩ := h.frame
  exact frame_closes hmax

theorem Encodes.headed (h : Encodes id f r) : Headed f f.length := by
  obtain ⟨payload, rfl, hmax⟩ := h.frame
  rw [length_frame]
  exact headed_frame (lt_of_le_of_lt hmax (by decide))

theorem Encodes.decode (h : Encodes id f r) : decodeRecord f id = .ok r := by
  rw [← h.2]
  exact decodeRecord_encodeRecord h.1

theorem Damaged.decode (h : Damaged f) (id : Text) : decodeRecord f id = .error .corrupt := by
  have hsize : ¬(f.length < 32 ∨ f.length > maxRecordBytes) := by
    have := h.long
    have := h.short
    omega
  unfold decodeRecord
  rw [if_neg, if_neg, if_pos]
  · exact .inr (.inr h.sum)
  · rw [h.headed.format, h.headed.algorithm]
    simp
  · rw [h.headed.magic, h.marker]
    show ¬(f.length < 32 ∨ _)
    simpa using hsize

/-- What the search reads at the marker of a complete frame. -/
theorem Closes.footer (hf : Closes f) (hb : b = pre ++ (f ++ rest)) :
    tailMagic <+: b.drop (pre.length + (f.length - 8)) ∧
      footerSize b (pre.length + (f.length - 8)) = f.length ∧
      frameAt b (pre.length + (f.length - 8)) = f ∧
      b.drop (pre.length + (f.length - 8) + 8) = rest := by
  have hlong := hf.long
  have hfinish : pre.length + (f.length - 8) + 8 = pre.length + f.length := by omega
  have hn : footerSize b (pre.length + (f.length - 8)) = f.length := by
    rw [footerSize, hb, show pre.length + (f.length - 8) - 4 =
      pre.length + (f.length - 12) by omega, slice_append_left, slice_of_le (by omega), hf.size]
  refine ⟨?_, hn, ?_, ?_⟩
  · rw [hb, List.drop_length_add_append, List.drop_append_of_le_length (by omega), hf.marker]
    exact List.prefix_append ..
  · rw [frameAt, hn, hfinish, hb, show pre.length + f.length - f.length = pre.length + 0 by omega,
      slice_append_left, slice_of_le le_rfl, slice, List.drop_zero, List.take_length]
  · rw [hfinish, hb, List.drop_length_add_append, List.drop_left]

theorem Closes.ends (hf : Closes f) (hb : b = pre ++ (f ++ [])) :
    pre.length + (f.length - 8) + 8 = b.length := by
  have hlong := hf.long
  rw [hb, List.append_nil, List.length_append]
  omega

/-- A complete frame stops the search if it decodes or ends the file. -/
theorem Closes.stopsAt (hf : Closes f) (hb : b = pre ++ (f ++ rest))
    (h : rest = [] ∨ Decodes f id) :
    StopsAt b id (pre.length + (f.length - 8)) := by
  have hlong := hf.long
  have hshort := hf.short
  obtain ⟨hmark, hn, hframe, -⟩ := hf.footer hb
  refine ⟨hmark, by omega, by omega, ?_⟩
  rcases h with rfl | hd
  · exact .inl (hf.ends hb)
  · rw [hframe]
    exact .inr hd

/-- What a torn append leaves can be the start of a record. -/
theorem checkIncomplete_torn (hf : Encodes id f r) (hp : tail <+: f)
    (hlt : tail.length < f.length) :
    checkIncomplete tail = true := by
  obtain ⟨rest, rfl⟩ := hp
  have hh := hf.headed
  have hlong := hf.closes.long
  have hshort := hf.closes.short
  have hm : fileMagic.length = 8 := rfl
  have hmagic : (tail ++ rest).take 8 = fileMagic := by simpa [slice] using hh.magic
  unfold checkIncomplete
  split
  next hsmall =>
    have htake : (tail ++ rest).take tail.length = fileMagic.take tail.length := by
      rw [← hmagic, List.take_take, min_eq_left (by omega)]
    rw [List.take_left] at htake
    exact decide_eq_true htake
  · rw [← slice_of_le (by omega), hh.magic, if_neg (by simp)]
    split
    · rfl
    next hge hge16 =>
      have h16 : 16 ≤ tail.length := not_lt.1 hge16
      rw [← slice_of_le (y := rest) (by omega), hh.format, ← slice_of_le (by omega), hh.algorithm,
        ← slice_of_le (y := rest) (by omega), hh.size, if_neg (by simp)]
      have h32 : frameHeader + frameFooter = 32 := rfl
      simp only [Bool.not_eq_true', Bool.or_eq_false_iff, decide_eq_false_iff_not, h32]
      omega

end Frames

/-! ## Files -/

def Record.bytes (r : Record) : Bytes := Usage.frame (encodePayload r).bytes

/-- The record can be appended to the file of the sandbox. -/
abbrev Valid (id : Text) (r : Record) : Prop := Encodes id r.bytes r

/-- The file that the records were appended to. -/
def fileOf (rs : List Record) : Bytes := rs.flatMap Record.bytes

/-- What an append leaves that did not finish. -/
def Torn (id : Text) (torn : Bytes) : Prop :=
  ∃ r, Valid id r ∧ torn <+: r.bytes ∧ torn.length < r.bytes.length

/-- What recovery reads of a file. -/
def window (file : Bytes) : Bytes := file.drop (file.length - 2 * maxRecordBytes)

section Files

variable {b file before f tail : Bytes} {id : Text} {r : Record} {rs : List Record}

theorem fileOf_append (rs : List Record) (r : Record) :
    fileOf (rs ++ [r]) = fileOf rs ++ r.bytes := by
  simp [fileOf]

theorem fileOf_eq_nil (hrs : ∀ r ∈ rs, Valid id r) (h : fileOf rs = []) : rs = [] := by
  cases rs with
  | nil => rfl
  | cons r rs =>
    have hlong := (hrs r (.head _)).closes.long
    have hnil : r.bytes ++ fileOf rs = [] := h
    rw [(List.append_eq_nil_iff.1 hnil).1] at hlong
    exact absurd hlong (by decide)

theorem recover_eq (hne : file ≠ []) : recover file id =
    searchRecord (window file) (file.length - 2 * maxRecordBytes) id (window file).length :=
  if_neg (List.length_pos_iff.2 hne).ne'

/-- The last frames of a file are within what recovery reads. -/
theorem window_append (before tail : Bytes) (hlen : tail.length ≤ 2 * maxRecordBytes) :
    window (before ++ tail) = before.drop ((before ++ tail).length - 2 * maxRecordBytes) ++ tail ∧
      (before ++ tail).length - 2 * maxRecordBytes ≤ before.length := by
  have hstart : (before ++ tail).length - 2 * maxRecordBytes ≤ before.length := by
    have hl : (before ++ tail).length = before.length + tail.length := List.length_append
    omega
  exact ⟨List.drop_append_of_le_length hstart, hstart⟩

theorem Torn.checks (h : Torn id tail) :
    checkIncomplete tail = true ∧ tail.length < maxRecordBytes := by
  obtain ⟨r, hr, hp, hlt⟩ := h
  have hshort := hr.closes.short
  exact ⟨checkIncomplete_torn hr hp hlt, by omega⟩

/-- Up to the last record nothing is in the way: the search ends at its marker. -/
theorem LastStop.eq_record {pre : Bytes} {pos : Nat} (hr : Valid id r)
    (hb : b = pre ++ (r.bytes ++ tail))
    (h : LastStop b id b.length pos) (hpos : pos + tail.length < b.length) :
    pos = pre.length + (r.bytes.length - 8) := by
  have hlong := hr.closes.long
  have hlen : b.length = pre.length + (r.bytes.length + tail.length) := by
    rw [hb, List.length_append, List.length_append]
  have hstop := hr.closes.stopsAt hb (.inr ⟨r, hr.decode⟩)
  have hle := marker_le hstop.marker
  rcases Nat.lt_trichotomy pos (pre.length + (r.bytes.length - 8)) with hlt | heq | hgt
  · exact absurd hstop (h.last _ hlt hle)
  · exact heq
  · have hapart := marker_apart hstop.marker h.marker hgt
    omega

/-- The verdict on the last record before a torn append. -/
theorem verdict_record {pre : Bytes} {start : Nat} (hr : Valid id r)
    (hb : b = pre ++ (r.bytes ++ tail))
    (hcheck : checkIncomplete tail = true) :
    verdict b start id (pre.length + (r.bytes.length - 8)) =
      .ok ⟨some r, start + (pre.length + r.bytes.length), tail != []⟩ := by
  have hlong := hr.closes.long
  obtain ⟨-, -, hframe, hrest⟩ := hr.closes.footer hb
  have hlen : b.length = pre.length + (r.bytes.length + tail.length) := by
    rw [hb, List.length_append, List.length_append]
  have hend : (pre.length + (r.bytes.length - 8) + 8 != b.length) = (tail != []) := by
    rw [Bool.eq_iff_iff, bne_iff_ne, bne_iff_ne, ne_eq, ne_eq, ← List.length_eq_zero_iff]
    omega
  rw [verdict, hframe, hr.decode, hrest, hend]
  simp only [hcheck, show pre.length + (r.bytes.length - 8) + 8 =
    pre.length + r.bytes.length by omega]
  rfl

/-- The search ends at no marker before one that stops it. -/
theorem StopsAt.le_finish {pos start : Nat} {v : Recovery} (hs : StopsAt b id pos)
    (h : searchRecord b start id b.length = .ok v) : start + pos + 8 ≤ v.finish := by
  have hle := marker_le hs.marker
  rcases searchRecord_cases b start id b.length with ⟨hno, -⟩ | ⟨last, hlast, heq⟩
  · exact absurd hs (hno pos hle)
  have hpos : pos ≤ last := by
    by_contra hlt
    exact hlast.last pos (by omega) hle hs
  rw [heq, verdict] at h
  split at h
  · cases h
  · split at h
    · cases h
    · have hfinish := congrArg Recovery.finish (Except.ok.inj h)
      simp only at hfinish
      omega

/-- Recovery after complete records and a torn append is exact where no marker of
the torn bytes stops the search. -/
theorem recover_torn_iff (hrs : ∀ r ∈ rs, Valid id r) (ht : Torn id tail) :
    recover (fileOf rs ++ tail) id = .ok ⟨rs.getLast?, (fileOf rs).length, tail != []⟩ ↔
      ∀ pos, StopsAt (window (fileOf rs ++ tail)) id pos →
        pos + tail.length < (window (fileOf rs ++ tail)).length := by
  obtain ⟨hcheck, hlen⟩ := ht.checks
  obtain ⟨hwin, hstart⟩ := window_append (fileOf rs) tail (by omega)
  by_cases hne : fileOf rs ++ tail = []
  · obtain ⟨hfile, rfl⟩ := List.append_eq_nil_iff.1 hne
    obtain rfl := fileOf_eq_nil hrs hfile
    refine ⟨fun _ pos hs => ?_, fun _ => rfl⟩
    exact absurd (marker_le hs.marker) (Nat.not_succ_le_zero _)
  rw [recover_eq hne]
  generalize hb : window (fileOf rs ++ tail) = b at hwin ⊢
  generalize hsdef : (fileOf rs ++ tail).length - 2 * maxRecordBytes = start at hwin hstart ⊢
  have hlenb : b.length = (fileOf rs).length - start + tail.length := by
    rw [hwin, List.length_append, List.length_drop]
  constructor
  · -- a marker of the torn bytes ends the search somewhere else
    intro hrec pos hs
    have hfinish := hs.le_finish hrec
    simp only at hfinish
    omega
  · intro hno
    rcases List.eq_nil_or_concat rs with rfl | ⟨init, r, rfl⟩
    · have hstart0 : start = 0 := Nat.le_zero.1 hstart
      have hbt : b = tail := by simpa [fileOf] using hwin
      subst hstart0 hbt
      rcases searchRecord_cases b 0 id b.length with ⟨-, heq⟩ | ⟨last, hlast, -⟩
      · rw [heq, noRecord, if_neg (by simp), hcheck]
        have hne' : b ≠ [] := fun h => hne (by rw [h]; rfl)
        simp [fileOf, hne']
      · have := hno last hlast.toStopsAt
        omega
    · rw [List.concat_eq_append] at hrs hwin hsdef ⊢
      have hr := hrs r (by simp)
      have hshort := hr.closes.short
      -- the last record is read as a whole
      have hin : start ≤ (fileOf init).length := by
        rw [fileOf_append, List.length_append, List.length_append] at hsdef
        omega
      have hb' : b = (fileOf init).drop start ++ (r.bytes ++ tail) := by
        rw [hwin, fileOf_append, List.drop_append_of_le_length hin, List.append_assoc]
      have hstop := hr.closes.stopsAt hb' (.inr ⟨r, hr.decode⟩)
      rcases searchRecord_cases b start id b.length with ⟨hnone, -⟩ | ⟨last, hlast, heq⟩
      · exact absurd hstop (hnone _ (marker_le hstop.marker))
      rw [heq, hlast.eq_record hr hb' (hno last hlast.toStopsAt), verdict_record hr hb' hcheck,
        fileOf_append, List.getLast?_append, List.length_drop, List.length_append]
      simp
      omega

theorem recover_clean (hrs : ∀ r ∈ rs, Valid id r) (ht : Torn id tail)
    (hclean : ¬tailMagic <:+: tail) :
    recover (fileOf rs ++ tail) id = .ok ⟨rs.getLast?, (fileOf rs).length, tail != []⟩ := by
  obtain ⟨-, hlen⟩ := ht.checks
  obtain ⟨hwin, -⟩ := window_append (fileOf rs) tail (by omega)
  refine (recover_torn_iff hrs ht).2 fun pos hs => ?_
  rw [hwin] at hs ⊢
  generalize (fileOf rs).drop _ = pre at hs
  by_contra hge
  rw [List.length_append] at hge
  obtain ⟨k, rfl⟩ := Nat.exists_eq_add_of_le (show pre.length ≤ pos by omega)
  have hmark := hs.marker
  rw [List.drop_length_add_append] at hmark
  exact hclean (hmark.isInfix.trans (List.drop_suffix k tail).isInfix)

end Files

/-! ## A tear behind the marker -/

end Sandboxer.Usage
