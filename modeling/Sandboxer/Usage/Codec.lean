import Sandboxer.Usage.Format

/-! # Decoding an encoded record gives it back, within its size bound

One lemma for each field type says that its reader recovers what its writer
emitted; records are assembled from them along the decoder's own `do` blocks.
The sizes follow the same structure. -/
namespace Sandboxer.Usage

open Lib.Wire
open Lib.Wire.Piece (Writes)

/-! ## Round trips -/

section RoundTrips

variable {α : Type}

theorem failIf_reads {c : Bool} (h : c = false) : Reads (failIf c) [] () := by
  rw [failIf, h]
  exact .pure ()

theorem takeBytes_reads (s : Bytes) : Reads (takeBytes s.length) s s := by
  intro rest
  rw [takeBytes, if_pos (by rw [List.length_append]; exact Nat.le_add_right ..), List.take_left,
    List.drop_left]

theorem encodeU_writes (v : UInt64) : Writes (encodeU v) decodeU v := by
  have h : Writes (encodeU v) readUvarint v.toNat := fun _ => reads_uvarint v.toNat_lt
  have hlast : Writes (encodeU v) decodeU (UInt64.ofNat v.toNat) := h.last
  rwa [UInt64.ofNat_toNat] at hlast

theorem encodeI_writes (v : Int64) : Writes (encodeI v) decodeI v := by
  have hlast : Writes (encodeI v) decodeI (unzigzag (zigzag v)) := (encodeU_writes (zigzag v)).last
  rwa [unzigzag_zigzag] at hlast

theorem encodeFlag_writes (v : Bool) : Writes (encodeFlag v) decodeFlag v := by
  intro hok
  have hu := encodeU_writes (if v then 1 else 0) hok
  have hfail : Reads (failIf ((if v then 1 else 0 : UInt64) > 1)) [] () :=
    failIf_reads (by cases v <;> rfl)
  have h := hu.bind (f := fun u => failIf (u > 1) >>= fun _ => pure (u == 1))
    (hfail.bind (.pure ((if v then 1 else 0 : UInt64) == 1)))
  rw [List.append_nil, List.append_nil] at h
  cases v with
  | true | false => exact h

theorem encodeText_writes (s : Text) : Writes (encodeText s) decodeText s := by
  intro hok
  obtain ⟨hlen, hutf⟩ := Bool.and_eq_true_iff.1 hok
  have hlen : s.length ≤ maxString := of_decide_eq_true hlen
  have hmax : maxString = 256 := rfl
  have hnat : (UInt64.ofNat s.length).toNat = s.length := by
    rw [UInt64.toNat_ofNat']
    omega
  have hu : Reads decodeU (uvarint s.length) (UInt64.ofNat s.length) := by
    have h := encodeU_writes (UInt64.ofNat s.length) rfl
    rwa [encodeU, hnat] at h
  have htake : Reads (takeBytes (UInt64.ofNat s.length).toNat) s s := by
    rw [hnat]
    exact takeBytes_reads s
  have hrest : Reads (failIf (!validString s) >>= fun _ => pure s) [] s :=
    (failIf_reads (by rw [hutf]; rfl)).bind (.pure s)
  have hbound : Reads (failIf ((UInt64.ofNat s.length).toNat > maxString)) [] () :=
    failIf_reads (decide_eq_false (by omega))
  have h := hu.bind (f := fun n => failIf (n.toNat > maxString) >>= fun _ => takeBytes n.toNat >>=
    fun s => failIf (!validString s) >>= fun _ => pure s) (hbound.bind (htake.bind hrest))
  rw [List.nil_append, List.append_nil] at h
  exact h

theorem encodeWide_writes (v : Uint128) : Writes (encodeWide v) decodeWide v :=
  (encodeU_writes v.hi).bind (encodeU_writes v.lo).last

theorem encodeWindow_writes (w : Window) : Writes (encodeWindow w) decodeWindow w := by
  simp only [encodeWindow, Piece.append_assoc]
  exact (encodeWide_writes w.area).bind <| (encodeU_writes w.span).bind <|
    (encodeU_writes w.covered).bind <| (encodeU_writes w.peak).bind <|
      (encodeI_writes w.peakAt).bind <|
    (encodeFlag_writes w.peakKnown).bind <| (encodeU_writes w.samples).bind <|
    (encodeU_writes w.maxReadWindow).last

theorem encodeCounter_writes (c : Counter) : Writes (encodeCounter c) decodeCounter c := by
  simp only [encodeCounter, Piece.append_assoc]
  exact (encodeText_writes c.name).bind <| (encodeText_writes c.source).bind <|
    (encodeWide_writes c.knownTotal).bind <| (encodeU_writes c.lastRaw).bind <|
    (encodeU_writes c.hertz).bind <| (encodeU_writes c.remainder).bind <|
    (encodeFlag_writes c.sourceKnown).bind <| (encodeFlag_writes c.complete).bind <|
    (encodeText_writes c.status).last

theorem encodeGauge_writes (g : Gauge) : Writes (encodeGauge g) decodeGauge g := by
  simp only [encodeGauge, Piece.append_assoc]
  exact (encodeText_writes g.name).bind <| (encodeText_writes g.source).bind <|
    (encodeWide_writes g.integralTotal).bind <| (encodeU_writes g.spanTotal).bind <|
    (encodeU_writes g.coveredTotal).bind <| (encodeU_writes g.lastValue).bind <|
    (encodeI_writes g.lastValueAt).bind <| (encodeI_writes g.lastAt).bind <|
    (encodeU_writes g.lastRequest).bind <| (encodeFlag_writes g.positionKnown).bind <|
    (encodeFlag_writes g.valueKnown).bind <| (encodeFlag_writes g.continuous).bind <|
    (encodeText_writes g.status).bind <| (encodeWindow_writes g.window).last

theorem encodeList_writes {f : α → Piece} {d : Reader α} (h : ∀ a, Writes (f a) d a) {most : Nat}
    (hmost : most < 2 ^ 64) {as : List α} (has : as.length ≤ most) :
    Writes (encodeList f as) (decodeList d most) as := by
  have hnat : (UInt64.ofNat as.length).toNat = as.length := by
    rw [UInt64.toNat_ofNat']
    omega
  refine (encodeU_writes _).bind fun hok => ?_
  have hbound : Reads (failIf ((UInt64.ofNat as.length).toNat > most)) [] () :=
    failIf_reads (decide_eq_false (by omega))
  have hcount : Reads (Piece.count d (UInt64.ofNat as.length).toNat) (Piece.all f as).bytes as := by
    rw [hnat]
    exact Writes.count h as hok
  exact hbound.bind hcount

theorem encodePayload_writes {r : Record} (hc : r.snapshot.counters.length ≤ maxCounters)
    (hg : r.snapshot.gauges.length ≤ maxGauges) : Writes (encodePayload r) decodePayload r := by
  simp only [encodePayload, Piece.append_assoc]
  exact (encodeU_writes r.sequence).bind <| (encodeI_writes r.savedUTC).bind <|
    (encodeText_writes r.snapshot.sandboxID).bind <| (encodeText_writes r.snapshot.runEpoch).bind <|
    (encodeI_writes r.snapshot.startedUTC).bind <|
      (encodeI_writes r.snapshot.sampleInterval).bind <|
    (encodeI_writes r.snapshot.flushInterval).bind <| (encodeFlag_writes r.snapshot.closed).bind <|
    (encodeList_writes encodeCounter_writes (by decide) hc).bind <|
    (encodeList_writes encodeGauge_writes (by decide) hg).last

end RoundTrips

/-! ## Frames -/

section Frames

variable {x y z : Bytes}

theorem slice_mid {i j : Nat} (hi : x.length = i) (hj : i + y.length = j) :
    slice (x ++ (y ++ z)) i j = y := by
  subst hi
  subst hj
  rw [slice, List.take_length_add_append, List.drop_left, List.take_left]

theorem slice_append_left (x y : Bytes) (i j : Nat) :
    slice (x ++ y) (x.length + i) (x.length + j) = slice y i j := by
  rw [slice, slice, List.take_length_add_append, List.drop_length_add_append]

theorem slice_of_le {i j : Nat} (h : j ≤ x.length) : slice (x ++ y) i j = slice x i j := by
  rw [slice, slice, List.take_append_of_le_length h]

def header (length : Nat) : Bytes :=
  fileMagic ++ (le 2 formatVersion ++ (le 2 algorithmVersion ++ le 4 length))

def footer (body : Bytes) (length : Nat) : Bytes :=
  le 4 (checksum body).toNat ++ (le 4 length ++ tailMagic)

theorem length_header (n : Nat) : (header n).length = 16 := by
  rfl

theorem length_footer (body : Bytes) (n : Nat) : (footer body n).length = 16 := by
  rfl

theorem frame_eq (payload : Bytes) : frame payload = header (32 + payload.length) ++ (payload ++
    footer (header (32 + payload.length) ++ payload) (32 + payload.length)) := by
  have hlen : frameHeader + payload.length + frameFooter = 32 + payload.length := by
    show 16 + payload.length + 16 = 32 + payload.length
    omega
  simp only [frame, hlen, header, footer, List.append_assoc]

theorem length_frame (payload : Bytes) : (frame payload).length = 32 + payload.length := by
  rw [frame_eq, List.length_append, List.length_append, length_header, length_footer]
  omega

/-- What a reader of the first bytes finds in any header. -/
structure Headed (b : Bytes) (length : Nat) : Prop where
  magic : slice b 0 8 = fileMagic
  format : ofLE (slice b 8 10) = formatVersion
  algorithm : ofLE (slice b 10 12) = algorithmVersion
  size : ofLE (slice b 12 16) = length

theorem headed_header {n : Nat} (hn : n < 2 ^ 32) (rest : Bytes) : Headed (header n ++ rest) n := by
  have hv : ofLE (le 2 formatVersion) = formatVersion := ofLE_le (by decide)
  have ha : ofLE (le 2 algorithmVersion) = algorithmVersion := ofLE_le (by decide)
  have hm : fileMagic.length = 8 := rfl
  simp only [header, List.append_assoc]
  refine ⟨?_, ?_, ?_, ?_⟩
  · exact slice_mid rfl (by rw [hm])
  · rw [slice_mid hm (by rw [length_le]), hv]
  · rw [← List.append_assoc,
      slice_mid (by rw [List.length_append, hm, length_le]) (by rw [length_le]), ha]
  · rw [← List.append_assoc, ← List.append_assoc,
      slice_mid (by rw [List.length_append, List.length_append, hm, length_le, length_le])
        (by rw [length_le]), ofLE_le hn]

/-- What a reader of the last bytes finds in any footer of this body. -/
structure Footed (b body : Bytes) : Prop where
  front : b.take (b.length - 16) = body
  sum : ofLE (slice b (b.length - 16) (b.length - 12)) = (checksum body).toNat
  size : ofLE (slice b (b.length - 12) (b.length - 8)) = b.length
  marker : b.drop (b.length - 8) = tailMagic

theorem footed_footer (body : Bytes) (hn : body.length + 16 < 2 ^ 32) :
    Footed (body ++ footer body (body.length + 16)) body := by
  have hlen : (body ++ footer body (body.length + 16)).length = body.length + 16 := by
    rw [List.length_append, length_footer]
  have hsum : ofLE (le 4 (checksum body).toNat) = (checksum body).toNat :=
    ofLE_le (checksum body).toNat_lt
  refine ⟨?_, ?_, ?_, ?_⟩
  · rw [hlen, Nat.add_sub_cancel, List.take_left]
  · rw [hlen, footer, slice_mid (by omega) (by rw [length_le]; omega), hsum]
  · rw [hlen, footer, ← List.append_assoc, slice_mid (by rw [List.length_append, length_le]; omega)
      (by rw [length_le]; omega), ofLE_le hn]
  · rw [hlen, footer, ← List.append_assoc, ← List.append_assoc]
    exact List.drop_left' (by simp only [List.length_append, length_le]; omega)

variable {payload : Bytes}

theorem headed_frame (hn : 32 + payload.length < 2 ^ 32) :
    Headed (frame payload) (32 + payload.length) := by
  rw [frame_eq]
  exact headed_header hn _

theorem footed_frame (hn : 32 + payload.length < 2 ^ 32) :
    Footed (frame payload) (header (32 + payload.length) ++ payload) := by
  have hlen : (header (32 + payload.length) ++ payload).length + 16 = 32 + payload.length := by
    rw [List.length_append, length_header]
    omega
  have h := footed_footer (header (32 + payload.length) ++ payload) (by rw [hlen]; exact hn)
  rwa [hlen, List.append_assoc, ← frame_eq] at h

theorem payload_frame (payload : Bytes) :
    slice (frame payload) 16 ((frame payload).length - 16) = payload := by
  rw [length_frame, frame_eq]
  exact slice_mid (length_header _) (by omega)

theorem decodeRecord_frame (hmax : 32 + payload.length ≤ maxRecordBytes) (id : Text) :
    decodeRecord (frame payload) id = checkRecord id (decodePayload payload) := by
  have hlt : 32 + payload.length < 2 ^ 32 := lt_of_le_of_lt hmax (by decide)
  have hh := headed_frame hlt
  have hf := footed_frame hlt
  have hlen := length_frame payload
  have hsize : ¬((frame payload).length < 32 ∨ (frame payload).length > maxRecordBytes) := by omega
  unfold decodeRecord
  rw [if_neg, if_neg, if_neg]
  · rw [show frameHeader = 16 from rfl, show frameFooter = 16 from rfl, payload_frame]
  · rw [show frameFooter = 16 from rfl, hh.size, hf.size, hf.front, hf.sum, hlen]
    simp
  · rw [hh.format, hh.algorithm]
    simp
  · rw [hh.magic, hf.marker]
    show ¬((frame payload).length < 32 ∨ _)
    simpa using hsize

/-! ## Records -/

variable {r : Record}

/-- What `EncodeRecord` emits is a frame of the record's payload. -/
theorem encodeRecord_eq_ok {f : Bytes} : encodeRecord r = .ok f ↔
    validateRecord r = true ∧ (encodePayload r).ok = true ∧
      32 + (encodePayload r).bytes.length ≤ maxRecordBytes ∧ f = frame (encodePayload r).bytes := by
  have hlen : frameHeader + (encodePayload r).bytes.length + frameFooter =
      32 + (encodePayload r).bytes.length := by
    show 16 + _ + 16 = 32 + _
    omega
  simp only [encodeRecord, hlen]
  cases validateRecord r with
  | false => simp
  | true =>
    cases (encodePayload r).ok with
    | false => simp
    | true =>
      by_cases hmax : 32 + (encodePayload r).bytes.length ≤ maxRecordBytes
      · simp [not_lt.2 hmax, hmax, eq_comm]
      · simp [not_le.1 hmax, hmax]

theorem validateRecord_lengths (h : validateRecord r = true) :
    r.snapshot.counters.length ≤ maxCounters ∧ r.snapshot.gauges.length ≤ maxGauges := by
  simp only [validateRecord, Bool.and_eq_true, Bool.not_eq_true', Bool.or_eq_false_iff,
    decide_eq_false_iff_not, not_lt] at h
  exact ⟨h.1.1.1.2, h.1.1.2⟩

/-- Decoding what was encoded gives the record back. -/
theorem decodeRecord_encodeRecord {f : Bytes} (h : encodeRecord r = .ok f) :
    decodeRecord f r.snapshot.sandboxID = .ok r := by
  obtain ⟨hvalid, hok, hmax, rfl⟩ := encodeRecord_eq_ok.1 h
  obtain ⟨hc, hg⟩ := validateRecord_lengths hvalid
  have hread := encodePayload_writes hc hg hok []
  rw [List.append_nil] at hread
  rw [decodeRecord_frame hmax, hread]
  simp [checkRecord, hvalid]

end Frames

end Sandboxer.Usage
