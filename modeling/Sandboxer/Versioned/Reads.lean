import Sandboxer.Versioned.Index
import Sandboxer.Versioned.Presence

/-! # Reading blocks

`Store.ReadAt` (`tree.go`) and `View.ReadAt` (`view.go`) read blocks whose slots
are physically adjacent with one call. The reference, `pagewiseReadAt`, reads
every block on its own. -/
namespace Sandboxer.Versioned

open Presence (Bitmap has)

/-! ## The device -/

/-- How far a read of a page comes, and the error if nothing at all was read. -/
structure Fault where
  got : Nat
  errno : Option Failure
  short : got < pageSize

/-- The data file: what the pages hold, and the pages that cannot be read whole. -/
structure Device where
  page : Nat → List Byte
  fault : Nat → Option Fault
  sized : ∀ p, (page p).length = pageSize

/-- The bytes of `n` pages up to the first fault. -/
def Device.transfer (d : Device) (page : Nat) : Nat → List Byte
  | 0 => []
  | n + 1 =>
    match d.fault page with
    | some f => (d.page page).take f.got
    | none => d.page page ++ d.transfer (page + 1) n

/-- `pread(2)` of whole pages: an error is returned only if nothing was read. -/
def Device.pread (d : Device) (page n : Nat) : List Byte × Option Failure :=
  (d.transfer page n, if d.transfer page n = [] then (d.fault page).bind Fault.errno else none)

/-- The error of a read that wanted `want` bytes and got `got`. -/
def readError (readErr : Option Failure) (got want : Nat) : Option Failure :=
  match readErr with
  | some e => some e
  | none => if got = want then none else some .unexpectedEOF

/-! ## Encryption -/

def sectorSize : Nat := 512

/-- A sector cipher's decryption, by sector number. -/
structure Cipher where
  decrypt : Nat → List Byte → List Byte
  sized : ∀ number sector, (decrypt number sector).length = sector.length

def transformSectors (c : Cipher) : Nat → Nat → List Byte → List Byte
  | 0, _, _ => []
  | n + 1, number, data =>
    c.decrypt number (data.take sectorSize) ++ transformSectors c n (number + 1)
    (data.drop sectorSize)

variable (cipher : Option Cipher)

/-- `sectorcrypt.Transform`, decrypting complete sectors from number `first` on. -/
def transform (data : List Byte) (first : Nat) : List Byte :=
  match cipher with
  | none => data
  | some c => transformSectors c (data.length / sectorSize) first data

/-- `Store.crypt`: one page, with the sector numbers of its block. -/
def crypt (page : List Byte) (block : Nat) : List Byte :=
  transform cipher page (block * (pageSize / sectorSize))

@[simp] theorem length_transformSectors (c : Cipher) (n number : Nat) (data : List Byte)
    (h : n * sectorSize ≤ data.length) :
    (transformSectors c n number data).length = n * sectorSize := by
  induction n generalizing number data with
  | zero => simp [transformSectors]
  | succ n ih =>
    have hlen : n * sectorSize ≤ (data.drop sectorSize).length := by
      rw [List.length_drop]
      rw [Nat.succ_mul] at h
      omega
    rw [transformSectors, List.length_append, c.sized, List.length_take, ih _ _ hlen, Nat.succ_mul]
    rw [Nat.succ_mul] at h
    omega

theorem length_crypt {page : List Byte} (h : page.length = pageSize) (block : Nat) :
    (crypt cipher page block).length = pageSize := by
  cases cipher with
  | none => exact h
  | some c =>
    rw [crypt, transform, h, length_transformSectors _ _ _ _ (by rw [h]; decide)]
    decide

/-- The loop of `readData` over the complete pages it received. -/
def cryptPages : Nat → Nat → List Byte → List Byte
  | 0, _, _ => []
  | n + 1, block, data =>
    crypt cipher (data.take pageSize) block ++ cryptPages n (block + 1) (data.drop pageSize)

/-! ## Readers -/

/-- What a read works on: the store's active version or a view's fixed one. `refused` is
the answer of a handle that is closed, failed, retired or has no key. -/
structure Version where
  size : Nat
  presence : Bitmap
  index : Source
  root : Nat
  device : Device
  cipher : Option Cipher
  refused : Option Failure

/-- Bytes read and the error that stopped the read. -/
abbrev Outcome := List Byte × Option Failure

def Outcome.after (bytes : List Byte) (o : Outcome) : Outcome := (bytes ++ o.1, o.2)

/-- The end of a read into a buffer of `len` bytes: `io.EOF` if it was not filled. -/
def Outcome.finish (len : Nat) (o : Outcome) : Outcome :=
  match o.2 with
  | some e => (o.1, some e)
  | none => (o.1, if o.1.length < len then some .eof else none)

/-- What one call of the device contributes: bytes after which the loop goes on, or bytes
and the error that ends it. -/
inductive Delivery where
  | next (bytes : List Byte)
  | stop (bytes : List Byte) (e : Failure)

namespace Version

variable (v : Version)

def slotOf (block : Nat) : Except Failure Nat := lookup (inspectNode v.index) v.root block

/-- The neighbour checks behind an answer that a block has no slot. -/
def validateAbsent (block : Nat) : Except Failure Unit :=
  if v.root = 0 then .ok () else (payloadPresence v.index v.root block (block + 1)).map fun _ => ()

/-- The slots behind the first one that are physically adjacent to it: the number of
pages, and the error of a lookup that stopped the search. -/
def lookahead (slot block inner remaining : Nat) : Nat → Nat → Nat × Option Failure
  | 0, pages => (pages, none)
  | fuel + 1, pages =>
    if pages * pageSize - inner < remaining then
      if has v.presence (block + pages) then
        match v.slotOf (block + pages) with
        | .error e => (pages, some e)
        | .ok next =>
          if next = 0 ∨ slotPage next ≠ slotPage slot + pages then (pages, none)
          else lookahead slot block inner remaining fuel (pages + 1)
      else (pages, none)
    else (pages, none)

/-- `readData`: only complete pages are decrypted and delivered. -/
def readData (want page block pages inner : Nat) : Outcome :=
  let (got, readErr) := v.device.pread page pages
  let complete := got.length / pageSize
  let plain := cryptPages v.cipher complete block got
  let done := min want (complete * pageSize - inner)
  ((plain.drop inner).take done, readError readErr got.length (pages * pageSize))

/-- A mapped block in `Store.ReadAt`: a failed lookahead does not discard the prefix
collected before it. -/
def storeRun (slot block inner remaining : Nat) : Delivery :=
  let (pages, lookupErr) := v.lookahead slot block inner remaining 255 1
  let (bytes, err) := v.readData remaining (slotPage slot) block pages inner
  match err with
  | some e => .stop bytes e
  | none =>
    match lookupErr with
    | some e => .stop bytes e
    | none => .next bytes

/-- A mapped block in `View.ReadAt`: a failed lookahead or a short read delivers nothing of
the run, and the run is decrypted with one call. -/
def viewRun (slot block inner remaining : Nat) : Delivery :=
  let (pages, lookupErr) := v.lookahead slot block inner remaining 255 1
  match lookupErr with
  | some e => .stop [] e
  | none =>
    let (got, readErr) := v.device.pread (slotPage slot) pages
    match readError readErr got.length (pages * pageSize) with
    | some e => .stop [] e
    | none =>
      let plain := transform v.cipher got (block * (pageSize / sectorSize))
      .next ((plain.drop inner).take (min remaining (plain.length - inner)))

/-- The loop both readers have; an iteration delivers at least one byte or fails. -/
def readLoop (run : (slot block inner remaining : Nat) → Delivery) :
    Nat → (pos remaining : Nat) → Outcome
  | _, _, 0 => ([], none)
  | 0, _, _ + 1 => ([], some .panic)
  | fuel + 1, pos, remaining + 1 =>
    let block := pos / pageSize
    let inner := pos % pageSize
    let n := min (remaining + 1) (pageSize - inner)
    let zeros := Outcome.after (List.replicate n 0)
      (readLoop run fuel (pos + n) (remaining + 1 - n))
    if has v.presence block then
      match v.slotOf block with
      | .error e => ([], some e)
      | .ok slot =>
        if slot = 0 then
          match v.validateAbsent block with
          | .error e => ([], some e)
          | .ok () => zeros
        else
          match run slot block inner (remaining + 1) with
          | .stop bytes e => (bytes, some e)
          | .next bytes =>
            Outcome.after bytes
              (readLoop run fuel (pos + bytes.length) (remaining + 1 - bytes.length))
    else zeros

/-- One block on its own: zeros, or the page of its slot decrypted for the block. -/
def readBlock (block : Nat) : Except Failure (List Byte) :=
  if has v.presence block then do
    let slot ← v.slotOf block
    if slot = 0 then do
      v.validateAbsent block
      .ok (List.replicate pageSize 0)
    else
      match v.device.fault (slotPage slot) with
      | some f => .error (f.errno.getD .unexpectedEOF)
      | none => .ok (crypt v.cipher (v.device.page (slotPage slot)) block)
  else .ok (List.replicate pageSize 0)

/-- The reference: block by block. -/
def pagewiseLoop : Nat → (pos remaining : Nat) → Outcome
  | _, _, 0 => ([], none)
  | 0, _, _ + 1 => ([], some .panic)
  | fuel + 1, pos, remaining + 1 =>
    let inner := pos % pageSize
    let n := min (remaining + 1) (pageSize - inner)
    match v.readBlock (pos / pageSize) with
    | .error e => ([], some e)
    | .ok bytes =>
      Outcome.after ((bytes.drop inner).take n) (pagewiseLoop fuel (pos + n) (remaining + 1 - n))

/-- The frame the readers share: the range checks, and the loop over at most what is
there. -/
def readAt (loop : Nat → Nat → Nat → Outcome) (len off : Nat) : Outcome :=
  match v.refused with
  | some e => ([], some e)
  | none =>
    if v.size < off then ([], some .eof)
    else if len = 0 then ([], none)
    else if off = v.size then ([], some .eof)
    else Outcome.finish len (loop (min len (v.size - off)) off (min len (v.size - off)))

def storeReadAt (len off : Nat) : Outcome := v.readAt (v.readLoop v.storeRun) len off

def viewReadAt (len off : Nat) : Outcome := v.readAt (v.readLoop v.viewRun) len off

def pagewiseReadAt (len off : Nat) : Outcome := v.readAt v.pagewiseLoop len off

end Version

end Sandboxer.Versioned
