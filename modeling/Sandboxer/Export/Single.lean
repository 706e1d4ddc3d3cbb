import Sandboxer.Export.Bitmap
import Sandboxer.Versioned.Reads
import Sandboxer.Diffstore.Blocks
import Sandboxer.Lib.Outcomes
import Sandboxer.Lib.Runs

/-! # Export runs of a single-layer diff

`diffFile` keeps logical presence in one bitmap and payload existence in another
(`single_presence.go`); `classify` finds the run at an offset. Blocks without
presence or payload are cleared after a read, whatever the file holds there. -/
namespace Sandboxer.Export

open Lib.Outcomes Lib.Runs
open Diffstore (RunKind)
open Versioned
open Presence (Bitmap has runEnd runEnd_ends)

/-- `diffFile`. Page `b` of the body is block `b`. -/
structure DiffFile where
  size : Nat
  bitmap : Bitmap
  payload : List (BitVec 64)
  body : Device
  cipher : Option Cipher

namespace DiffFile

variable (d : DiffFile)

/-! ## Classification -/

def kindOf (block : Nat) : RunKind :=
  if has d.bitmap block then if bitmapBlockDirty d.payload block then .data else .zero else .hole

/-- The loop of `classify`: the first block that is absent or of the other kind. -/
def classifyLoop (data : Bool) (stop next : Nat) : Nat :=
  if next * pageSize < stop then
    if !has d.bitmap next || bitmapBlockDirty d.payload next != data then next * pageSize
    else classifyLoop data stop (next + 1)
  else stop
termination_by stop - next * pageSize
decreasing_by
  rw [Nat.succ_mul]
  have := pageSize_pos
  omega

def classify (offset limit : Nat) : RunKind × Nat :=
  let block := offset / pageSize
  let stop := min d.size (offset + min limit (d.size - offset))
  if has d.bitmap block then
    let data := bitmapBlockDirty d.payload block
    (if data then .data else .zero, d.classifyLoop data stop (block + 1))
  else (.hole, min stop (runEnd d.bitmap block (cellsBelow pageSize stop) * pageSize))

/-- `fileDiffTemplate.RunAt`. -/
def runAt (offset limit : Nat) : Except Failure (Run RunKind) :=
  if d.size ≤ offset then .error .eof
  else if limit = 0 then .error (.request "diffstore: diff template RunAt limit is zero")
  else .ok ⟨offset, (d.classify offset limit).2, (d.classify offset limit).1⟩

/-! ## Reads -/

/-- `readFullAt` of whole blocks of the body. -/
def readFull (block n : Nat) : Except Failure (List Byte) :=
  match readError (d.body.pread block n).2 (d.body.pread block n).1.length (n * pageSize) with
  | some e => .error e
  | none => .ok (d.body.pread block n).1

def decodeBlock (part : List Byte) (block : Nat) : List Byte :=
  if !has d.bitmap block || !bitmapBlockDirty d.payload block then List.replicate part.length 0
  else crypt d.cipher part block

def decodePayload : Nat → Nat → List Byte → List Byte
  | 0, _, _ => []
  | n + 1, block, buf =>
    d.decodeBlock (buf.take pageSize) block ++ decodePayload n (block + 1) (buf.drop pageSize)

/-- `maxDiffScratchSize`. -/
def maxScratch : Nat := 1048576

/-- `withDirectRead`, as `directReadAt` uses it. -/
def withDirectRead (length offset : Nat) : Except Failure (List Byte) :=
  let first := offset / pageSize
  let blocks := cellsBelow pageSize (offset + length) - first
  if length = 0 ∨ maxScratch < blocks * pageSize then
    .error (.request s!"diffstore: invalid bounded direct read length {length}")
  else do
    let scratch ← d.readFull first blocks
    .ok (((d.decodePayload blocks first scratch).drop (offset % pageSize)).take length)

def directReadAt : Nat → (pos remaining : Nat) → Outcome
  | _, _, 0 => ([], none)
  | 0, _, _ + 1 => ([], some .panic)
  | fuel + 1, pos, remaining + 1 =>
    let length := min (remaining + 1) (maxScratch - pos % pageSize)
    match d.withDirectRead length pos with
    | .error e => ([], some e)
    | .ok plain => Outcome.after plain (directReadAt fuel (pos + length) (remaining + 1 - length))

/-- `diffFile.ReadAt`. -/
def readAt (len offset : Nat) : Outcome :=
  if len = 0 then ([], if d.size < offset then some .eof else none)
  else if d.size ≤ offset then ([], some .eof)
  else
    let n := min len (d.size - offset)
    match d.directReadAt n offset n with
    | (bytes, some e) => (bytes, some e)
    | (bytes, none) => (bytes, if d.size - offset < len then some .eof else none)

/-- `fileDiffTemplateRun.ReadAt`. -/
def runReadAt (run : Run RunKind) (len inner : Nat) : Outcome :=
  let length := run.stop - run.off
  if length < inner ∨ length - inner < len then
    ([], some (.request s!"diffstore: diff template Run read outside [0,{length})"))
  else if len = 0 then ([], none)
  else if run.kind = .hole ∨ run.kind = .zero then (List.replicate len 0, none)
  else
    let (bytes, err) := d.readAt len (run.off + inner)
    if bytes.length = len ∧ (err = none ∨ err = some .eof) then (bytes, none)
    else match err with
      | some e => (bytes, some e)
      | none => (bytes, some .unexpectedEOF)

variable {d}

/-! ## The runs -/

/-- The loop ends behind the last of equal blocks. -/
theorem classifyLoop_spec (data : Bool) (stop next : Nat) : d.classifyLoop data stop next ≤ stop ∧
    (stop ≤ d.classifyLoop data stop next ∨ next * pageSize ≤ d.classifyLoop data stop next) ∧
    ∀ block, next ≤ block → block * pageSize < d.classifyLoop data stop next →
      has d.bitmap block = true ∧ bitmapBlockDirty d.payload block = data := by
  induction hn : stop - next * pageSize using Nat.strongRecOn generalizing next with
  | _ n ih =>
    have hpos := pageSize_pos
    have hsucc : (next + 1) * pageSize = next * pageSize + pageSize := Nat.succ_mul next pageSize
    rw [classifyLoop]
    by_cases hlt : next * pageSize < stop
    · rw [if_pos hlt]
      split
      · refine ⟨le_of_lt hlt, .inr le_rfl, fun block hfrom hbefore => ?_⟩
        have := Nat.lt_of_mul_lt_mul_right hbefore
        omega
      next hsame =>
        simp only [Bool.or_eq_true, Bool.not_eq_eq_eq_not, Bool.not_true, bne_iff_ne, ne_eq, not_or,
          Bool.not_eq_false, Decidable.not_not] at hsame
        obtain ⟨hle, hge, hrest⟩ := ih (stop - (next + 1) * pageSize) (by omega) (next + 1) rfl
        refine ⟨hle, hge.imp_right fun h => by omega, fun block hfrom hbefore => ?_⟩
        rcases Nat.eq_or_lt_of_le hfrom with rfl | hfrom
        · exact hsame
        · exact hrest block hfrom hbefore
    · rw [if_neg hlt]
      refine ⟨le_rfl, .inl le_rfl, fun block hfrom hbefore => ?_⟩
      have := Nat.mul_le_mul_right pageSize hfrom
      omega

variable {off limit : Nat}

theorem classify_fits (hoff : off < d.size) (hlimit : 0 < limit) :
    Run.Fits d.size pageSize d.kindOf off limit
      ⟨off, (d.classify off limit).2, (d.classify off limit).1⟩ := by
  have hcut : min d.size (off + min limit (d.size - off)) = min d.size (off + limit) := by omega
  have hlt : off < min d.size (off + limit) := by omega
  rw [classify, hcut]
  by_cases hhas : has d.bitmap (off / pageSize) = true
  · simp only [hhas, if_true]
    obtain ⟨hle, hge, hsame⟩ := classifyLoop_spec (bitmapBlockDirty d.payload (off / pageSize))
      (min d.size (off + limit)) (off / pageSize + 1)
    refine ⟨rfl, ?_, le_trans hle (min_le_left ..), le_trans hle (min_le_right ..),
      fun block hfrom hbefore => ?_⟩
    · have := lt_succ_div_mul pageSize_pos off
      dsimp only
      omega
    rcases Nat.eq_or_lt_of_le hfrom with rfl | hfrom
    · rw [kindOf, if_pos hhas]
    · obtain ⟨hpresent, hpayload⟩ := hsame block hfrom hbefore
      rw [kindOf, if_pos hpresent, hpayload]
  · simp only [hhas, Bool.false_eq_true, if_false]
    obtain ⟨hends, hmore⟩ := runEnd_ends d.bitmap ((lt_cellsBelow pageSize_pos).2 (div_mul_lt hlt))
    obtain ⟨hne, hle, hsame⟩ := Framed.of_ends pageSize_pos hlt hends hmore
    refine ⟨rfl, hne, le_trans hle (min_le_left ..), le_trans hle (min_le_right ..),
      fun block hfrom hbefore => ?_⟩
    rw [kindOf, if_neg]
    rw [hsame block hfrom hbefore]
    exact hhas

theorem runAt_eq (hoff : off < d.size) (hlimit : 0 < limit) :
    d.runAt off limit = .ok ⟨off, (d.classify off limit).2, (d.classify off limit).1⟩ := by
  rw [runAt, if_neg (by omega), if_neg (by omega)]

/-! ## Reading a run -/

/-- A block whose bytes are cleared. -/
def Cleared (d : DiffFile) (block : Nat) : Prop :=
  has d.bitmap block = false ∨ bitmapBlockDirty d.payload block = false

variable {block : Nat}

theorem cleared_of_kindOf (h : d.kindOf block ≠ .data) : d.Cleared block := by
  by_contra hnot
  simp only [Cleared, not_or, Bool.not_eq_false] at hnot
  refine h ?_
  rw [kindOf, if_pos hnot.1, if_pos hnot.2]

theorem decodeBlock_length {part : List Byte} (h : part.length = pageSize) (block : Nat) :
    (d.decodeBlock part block).length = pageSize := by
  rw [decodeBlock]
  split
  · rw [List.length_replicate, h]
  · exact length_crypt d.cipher h block

theorem decodeBlock_cleared (h : d.Cleared block) (part : List Byte) :
    d.decodeBlock part block = List.replicate part.length 0 := by
  rw [decodeBlock, if_pos]
  rcases h with h | h <;> simp [h]

theorem decodePayload_length (n block : Nat) {buf : List Byte} (h : buf.length = n * pageSize) :
    (d.decodePayload n block buf).length = n * pageSize := by
  induction n generalizing block buf with
  | zero => simp [decodePayload]
  | succ n ih =>
    rw [Nat.succ_mul] at h ⊢
    have htake : (buf.take pageSize).length = pageSize := by rw [List.length_take]; omega
    rw [decodePayload, List.length_append, decodeBlock_length htake,
      ih (block + 1) (by rw [List.length_drop]; omega)]
    omega

theorem decodePayload_cleared (n block : Nat) (buf : List Byte) (h : buf.length = n * pageSize)
    (hclear : ∀ i < n, d.Cleared (block + i)) :
    d.decodePayload n block buf = List.replicate (n * pageSize) 0 := by
  induction n generalizing block buf with
  | zero => simp [decodePayload]
  | succ n ih =>
    rw [Nat.succ_mul] at h ⊢
    have htake : (buf.take pageSize).length = pageSize := by rw [List.length_take]; omega
    have hclear' : ∀ i < n, d.Cleared (block + 1 + i) := by
      intro i hi
      rw [Nat.add_right_comm, Nat.add_assoc]
      exact hclear (i + 1) (by omega)
    have hrest := ih (block + 1) (buf.drop pageSize) (by rw [List.length_drop]; omega) hclear'
    have hfirst : d.Cleared block := hclear 0 (Nat.succ_pos n)
    rw [decodePayload, decodeBlock_cleared hfirst, htake, hrest, List.replicate_append_replicate,
      Nat.add_comm pageSize]

/-- What a read that succeeds delivers: all bytes asked for, zeros of cleared blocks. -/
structure Delivers (d : DiffFile) (pos n : Nat) (bytes : List Byte) : Prop where
  length : bytes.length = n
  zero : (∀ block, pos / pageSize ≤ block → block * pageSize < pos + n → d.Cleared block) →
    bytes = List.replicate n 0

theorem readFull_length {n : Nat} {bytes : List Byte} (h : d.readFull block n = .ok bytes) :
    bytes.length = n * pageSize := by
  rw [readFull] at h
  split at h
  · cases h
  next herr =>
    cases h
    cases herr₀ : (d.body.pread block n).2 with
    | some e => simp [readError, herr₀] at herr
    | none =>
      rw [herr₀, readError] at herr
      by_contra hne
      rw [if_neg hne] at herr
      cases herr

theorem withDirectRead_delivers {length pos : Nat} {bytes : List Byte}
    (h : d.withDirectRead length pos = .ok bytes) :
    d.Delivers pos length bytes := by
  rw [withDirectRead] at h
  split at h
  · cases h
  next hbound =>
    obtain ⟨scratch, hread, h⟩ := bind_eq_ok.1 h
    cases h
    have hlen := readFull_length hread
    have hpos := pageSize_pos
    have hmod := Nat.div_add_mod' pos pageSize
    -- the blocks read cover the range
    have hcover : pos % pageSize + length ≤
        (cellsBelow pageSize (pos + length) - pos / pageSize) * pageSize := by
      have hle : pos + length ≤ cellsBelow pageSize (pos + length) * pageSize := by
        by_contra hlt
        exact absurd ((lt_cellsBelow hpos).2 (not_le.1 hlt)) (lt_irrefl _)
      rw [Nat.sub_mul]
      omega
    constructor
    · rw [List.length_take, List.length_drop, decodePayload_length _ _ hlen]
      omega
    · intro hclear
      rw [decodePayload_cleared _ _ _ hlen fun i hi => ?_, List.drop_replicate, List.take_replicate,
        min_eq_left (by omega)]
      exact hclear _ (by omega) ((lt_cellsBelow hpos).1 (by omega))

theorem directReadAt_delivers (fuel : Nat) :
    ∀ {pos remaining : Nat} {bytes : List Byte}, d.directReadAt fuel pos remaining = (bytes, none) →
      d.Delivers pos remaining bytes := by
  induction fuel with
  | zero =>
    intro pos remaining bytes h
    cases remaining with
    | zero =>
      cases h
      exact ⟨rfl, fun _ => rfl⟩
    | succ remaining => cases h
  | succ fuel ih =>
    intro pos remaining bytes h
    cases remaining with
    | zero =>
      cases h
      exact ⟨rfl, fun _ => rfl⟩
    | succ remaining =>
      rw [directReadAt] at h
      generalize hn : min (remaining + 1) (maxScratch - pos % pageSize) = n at h
      split at h
      · cases h
      next plain hplain =>
        obtain ⟨hlen, hzero⟩ := withDirectRead_delivers hplain
        cases hrest : d.directReadAt fuel (pos + n) (remaining + 1 - n) with
        | mk rest err =>
          rw [hrest, Outcome.after] at h
          cases h
          obtain ⟨hlen', hzero'⟩ := ih hrest
          have hmono : pos / pageSize ≤ (pos + n) / pageSize := Nat.div_le_div_right (by omega)
          constructor
          · rw [List.length_append, hlen, hlen']
            omega
          intro hclear
          rw [hzero fun block hfrom hbefore => hclear block hfrom (by omega),
            hzero' fun block hfrom hbefore => hclear block (le_trans hmono hfrom) (by omega),
            List.replicate_append_replicate, Nat.add_sub_of_le (by omega)]

/-- Where a read of the file delivers a part of a run, reading through the run delivers the same. -/
theorem runReadAt_eq (hoff : off < d.size) (hlimit : 0 < limit) {run : Run RunKind}
    (hrun : d.runAt off limit = .ok run) {len inner : Nat} (hlen : inner + len ≤ run.stop - off)
    (hread : (d.readAt len (off + inner)).2 = none) :
    d.runReadAt run len inner = d.readAt len (off + inner) := by
  rw [runAt_eq hoff hlimit] at hrun
  obtain rfl := Except.ok.inj hrun
  obtain ⟨-, hne, hsize, -, hkind⟩ := classify_fits hoff hlimit
  dsimp only at hlen hsize hkind
  rw [runReadAt]
  dsimp only
  rw [if_neg (by omega)]
  by_cases h0 : len = 0
  · rw [if_pos h0, readAt, if_pos h0, if_neg (by omega)]
  rw [if_neg h0]
  have hdelivers : d.Delivers (off + inner) len (d.readAt len (off + inner)).1 := by
    rw [readAt, if_neg h0, if_neg (by omega), min_eq_left (by omega)] at hread ⊢
    dsimp only at hread ⊢
    cases hdirect : d.directReadAt len (off + inner) len with
    | mk bytes err =>
      rw [hdirect] at hread
      cases err with
      | some e => cases hread
      | none => exact directReadAt_delivers len hdirect
  by_cases hdata : (d.classify off limit).1 = .hole ∨ (d.classify off limit).1 = .zero
  · rw [if_pos hdata]
    refine Prod.ext (hdelivers.zero fun block hfrom hbefore => cleared_of_kindOf ?_).symm hread.symm
    have hmono : off / pageSize ≤ (off + inner) / pageSize := Nat.div_le_div_right (by omega)
    rw [hkind block (le_trans hmono hfrom) (by omega)]
    rcases hdata with h | h <;> rw [h] <;> nofun
  · rw [if_neg hdata, if_pos ⟨hdelivers.length, .inl hread⟩]
    exact Prod.ext rfl hread.symm

end DiffFile

end Sandboxer.Export
