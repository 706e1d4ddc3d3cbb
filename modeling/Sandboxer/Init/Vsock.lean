import Mathlib.Data.List.Basic
import Sandboxer.Lib.Wire

/-! # Readers of a guest vsock connection

`cmd/sandbox-init/vsock.go` turns the raw reads of a socket into an `io.Reader`,
and `proto.ReadMessage`, `mux.ReadFrame` and `fwd.ReadFrame` read from it with
`io.ReadFull`. A run is given by what its raw reads come to, one after the other;
a reader that has not returned after them has no result. The connection is not
closed on the guest's side meanwhile. -/
namespace Sandboxer.Init.Vsock

open Lib.Wire

/-! ## The connection -/

inductive Errno where
  | eintr | enomem
deriving DecidableEq

/-- What one raw read comes to: up to `n + 1` bytes, or an error. -/
inductive Raw where
  | read (n : Nat)
  | fail (e : Errno)

/-- The raw reads to come, and the bytes that the peer delivered before it closed. -/
structure Conn where
  raw : List Raw
  data : Bytes

/-- At the end of the stream a raw read returns no bytes and no error. -/
def rawRead (k : Nat) : Raw → Bytes → (Bytes × Option Errno) × Bytes
  | .fail e, data => (([], some e), data)
  | .read n, data => ((data.take (min k (n + 1)), none), data.drop (min k (n + 1)))

def retryInterruptedIo (k : Nat) : List Raw → Bytes → Option ((Bytes × Option Errno) × Conn)
  | [], _ => none
  | r :: raw, data =>
    let (res, data) := rawRead k r data
    if res.1 ≠ [] ∨ res.2 ≠ some .eintr then some (res, ⟨raw, data⟩)
    else retryInterruptedIo k raw data

abbrev ConnM := StateT Conn Option

/-- `retryMemoryIO`, by the attempts that are left after this one. -/
def retryMemoryIo (op : ConnM (Bytes × Option Errno)) : Nat → ConnM (Bytes × Option Errno)
  | 0 => op
  | left + 1 => do
    let (b, err) ← op
    if b ≠ [] ∨ err ≠ some .enomem then return (b, err) else retryMemoryIo op left

/-- `vsockConn.Read` of up to `k` bytes. -/
def read (k : Nat) : ConnM (Bytes × Option Errno) :=
  retryMemoryIo (fun c => retryInterruptedIo k c.raw c.data) 7

/-! ## The readers -/

inductive ReadError where
  | errno (e : Errno)
  | wrapped (text : String) (e : ReadError)
  | text (text : String)

abbrev Reading := ExceptT ReadError ConnM

/-- `io.ReadFull` of `k` bytes, by the raw reads that are left. -/
def readAtLeast : Nat → Nat → Reading Bytes
  | _, 0 => pure []
  | 0, _ + 1 => fun _ => none
  | fuel + 1, k + 1 => do
    let (b, err) ← (read (k + 1) : ConnM _)
    match err with
    | some e => throw (.errno e)
    | none => return b ++ (← readAtLeast fuel (k + 1 - b.length))

def readFull (k : Nat) : Reading Bytes := fun c => readAtLeast c.raw.length k c

def uint16BE (b : Bytes) : Nat := ofLE b.reverse

/-- A payload of the length its header gives; nothing is read for an empty one. -/
def readPayload (text : String) (n : Nat) : Reading Bytes :=
  if n > 0 then ExceptT.adapt (.wrapped text) (readFull n) else pure []

structure Frame where
  stream : UInt8
  type : UInt8
  payload : Bytes

def muxReadFrame : Reading Frame := do
  let hdr ← readFull 4
  let payload ← readPayload "mux: read payload" (uint16BE (hdr.drop 2))
  return ⟨hdr.getD 0 0, hdr.getD 1 0, payload⟩

/-- A frame of a forwarded connection has no stream. -/
def fwdReadFrame : Reading (UInt8 × Bytes) := do
  let hdr ← readFull 3
  let payload ← readPayload "fwd: read payload" (uint16BE (hdr.drop 1))
  return (hdr.getD 0 0, payload)

def maxMessageBytes : Nat := 1048576

variable {M : Type}

def readMessage (unmarshal : Bytes → Except ReadError M) : Reading M := do
  let n := ofLE (← readFull 4)
  if n = 0 then throw (.text "proto: zero-length payload")
  else if n > maxMessageBytes then throw (.text s!"proto: payload {n} > max {maxMessageBytes}")
  else
    let payload ← readPayload "proto: read payload" n
    match unmarshal payload with
    | .error e => throw (.wrapped "proto: unmarshal" e)
    | .ok m => return m

def frameMuxClose : UInt8 := 5
def frameMuxCloseAck : UInt8 := 6

/-- A session as its read loop sees it: `dispatch` may fail, and the session may
have initiated the close. -/
structure Session (σ : Type) where
  dispatch : σ → Frame → Option σ
  closeInitiated : σ → Bool

variable {σ : Type}

/-- The loop goes on after a frame that was dispatched. -/
def Session.continues (S : Session σ) (s : σ) (f : Frame) : Bool :=
  f.type != frameMuxClose && !(f.type == frameMuxCloseAck && S.closeInitiated s)

/-- One turn of the loop once a frame was read. -/
def Session.turn (S : Session σ) (s : σ) (f : Frame) (next : σ → ConnM Unit) : ConnM Unit :=
  match S.dispatch s f with
  | none => pure ()
  | some s => if S.continues s f then next s else pure ()

/-- `readLoop`, by the raw reads that are left. -/
def Session.readLoopFrom (S : Session σ) : Nat → σ → ConnM Unit
  | 0, _ => fun _ => none
  | fuel + 1, s => do
    match ← muxReadFrame.run with
    | .error _ => return ()
    | .ok f => S.turn s f (S.readLoopFrom fuel)

def Session.readLoop (S : Session σ) (s : σ) : ConnM Unit :=
  fun c => S.readLoopFrom c.raw.length s c

/-! ## What a peer delivers -/

def putUint16BE (n : Nat) : Bytes := (le 2 n).reverse

/-- `mux.WriteFrame`. -/
def muxFrame (f : Frame) : Bytes :=
  f.stream :: f.type :: (putUint16BE f.payload.length ++ f.payload)

/-- `fwd.WriteFrame`. -/
def fwdFrame (type : UInt8) (payload : Bytes) : Bytes :=
  type :: (putUint16BE payload.length ++ payload)

/-- `proto.WriteMessage` of a payload. -/
def message (payload : Bytes) : Bytes := le 4 payload.length ++ payload

def MuxDelivers (data : Bytes) (fr : Frame) : Prop :=
  fr.payload.length ≤ 65535 ∧ muxFrame fr <+: data

def FwdDelivers (data : Bytes) (fr : UInt8 × Bytes) : Prop :=
  fr.2.length ≤ 65535 ∧ fwdFrame fr.1 fr.2 <+: data

def MessageDelivers (unmarshal : Bytes → Except ReadError M) (data : Bytes) (m : M) : Prop :=
  ∃ payload, 0 < payload.length ∧ payload.length ≤ maxMessageBytes ∧
    message payload <+: data ∧ unmarshal payload = .ok m

/-! ## What the raw reads come to -/

/-- The raw reads up to the last of `k` bytes that were delivered, with `left` more
attempts after an ENOMEM until one succeeds: the bytes are there (`true`), or the
attempts are used up. The attempts are counted anew after every success. -/
def need : Nat → Nat → List Raw → Option (Bool × List Raw)
  | 0, _, raw => some (true, raw)
  | _ + 1, _, [] => none
  | k + 1, _, .read n :: raw => need (k - n) 7 raw
  | k + 1, left, .fail .eintr :: raw => need (k + 1) left raw
  | _ + 1, 0, .fail .enomem :: raw => some (false, raw)
  | k + 1, left + 1, .fail .enomem :: raw => need (k + 1) left raw

/-- The same for one stretch of bytes after the other. -/
def needs : List Nat → List Raw → Option (Bool × List Raw)
  | [], raw => some (true, raw)
  | k :: ks, raw => match need k 7 raw with
    | some (true, raw) => needs ks raw
    | o => o

/-- The raw reads up to the first that uses up the attempts. -/
def starve : Nat → List Raw → Option (List Raw)
  | _, [] => none
  | _, .read _ :: raw => starve 7 raw
  | left, .fail .eintr :: raw => starve left raw
  | 0, .fail .enomem :: raw => some raw
  | left + 1, .fail .enomem :: raw => starve left raw

theorem needs_single (k : Nat) (raw : List Raw) : needs [k] raw = need k 7 raw := by
  rw [needs]
  rcases need k 7 raw with - | ⟨_ | _, _⟩ <;> rfl

theorem needs_append (ks ls : List Nat) (raw : List Raw) :
    needs (ks ++ ls) raw = match needs ks raw with
      | some (true, raw) => needs ls raw
      | o => o := by
  induction ks generalizing raw with
  | nil => rfl
  | cons k ks ih =>
    rw [List.cons_append, needs, needs]
    rcases need k 7 raw with - | ⟨_ | _, raw'⟩
    · rfl
    · rfl
    · exact ih raw'

/-- A reader that goes on after `k` bytes meets the eighth ENOMEM where it would
have met it from the start. -/
theorem starve_need (k left : Nat) (raw : List Raw) :
    starve left raw = match need (k + 1) left raw with
      | none => none
      | some (false, raw) => some raw
      | some (true, raw) => starve 7 raw := by
  induction raw generalizing k left with
  | nil => rfl
  | cons r raw ih =>
    rcases r with n | _ | _
    · rw [starve, need]
      cases k - n with
      | zero => rw [need]
      | succ k => exact ih k 7
    · exact ih k left
    · cases left with
      | zero => rfl
      | succ left => exact ih k left

theorem starve_needs (ks : List Nat) (raw : List Raw) :
    starve 7 raw = match needs ks raw with
      | none => none
      | some (false, raw) => some raw
      | some (true, raw) => starve 7 raw := by
  induction ks generalizing raw with
  | nil => rfl
  | cons k ks ih =>
    rw [needs]
    cases k with
    | zero =>
      rw [need]
      exact ih raw
    | succ k =>
      rw [starve_need k]
      rcases need (k + 1) 7 raw with - | ⟨_ | _, raw'⟩
      · rfl
      · rfl
      · exact ih raw'

theorem length_of_need {k left : Nat} {raw raw' : List Raw} {b : Bool}
    (h : need (k + 1) left raw = some (b, raw')) : raw'.length < raw.length := by
  induction raw generalizing k left with
  | nil => cases h
  | cons r raw ih =>
    rw [List.length_cons]
    rcases r with n | _ | _
    · rw [need] at h
      cases hk : k - n with
      | zero =>
        rw [hk, need] at h
        cases h
        exact Nat.lt_succ_self _
      | succ k =>
        rw [hk] at h
        exact Nat.lt_succ_of_lt (ih h)
    · rw [need] at h
      exact Nat.lt_succ_of_lt (ih h)
    · cases left with
      | zero =>
        cases h
        exact Nat.lt_succ_self _
      | succ left =>
        rw [need] at h
        exact Nat.lt_succ_of_lt (ih h)

/-! ## One reader -/

section Reader

variable {α β : Type}

/-- What a reader returned, by what its raw reads came to: `r`, or an error. -/
def Comes (o : Option (Bool × List Raw)) (res : Option (Except ReadError α × Conn))
    (r : Except ReadError α) (rest : Bytes) : Prop :=
  match o with
  | none => res = none
  | some (true, raw) => res = some (r, ⟨raw, rest⟩)
  | some (false, raw) => ∃ e data, res = some (.error e, ⟨raw, data⟩)

/-- The reader gives `r` and leaves `rest` of `data`, once the raw reads got it all it asks for. -/
def Sated (p : Reading α) (data : Bytes) (ks : List Nat) (r : Except ReadError α)
    (rest : Bytes) : Prop :=
  ∀ raw, Comes (needs ks raw) (p ⟨raw, data⟩) r rest

/-- The reader asks for more than was delivered. -/
def Short (p : Reading α) (data : Bytes) : Prop :=
  ∀ raw, match starve 7 raw with
    | none => p ⟨raw, data⟩ = none
    | some raw' => ∃ e data', p ⟨raw, data⟩ = some (.error e, ⟨raw', data'⟩)

/-- A reader that goes on with the result of another. -/
theorem bind_run (p : Reading α) (q : α → Reading β) (c : Conn) :
    (p >>= q : Reading β) c = match p c with
      | none => none
      | some (.error e, c) => some (.error e, c)
      | some (.ok a, c) => q a c := by
  show (p c).bind _ = _
  rcases p c with - | ⟨_ | _, _⟩ <;> rfl

theorem lift_run (p : ConnM α) (c : Conn) :
    (liftM p : Reading α) c = (p c).map fun x => (.ok x.1, x.2) := by
  show (p c).bind _ = _
  rcases p c with - | ⟨_, _⟩ <;> rfl

variable {p : Reading α} {q : α → Reading β} {data rest rest' : Bytes} {ks ls : List Nat} {a : α}
  {r : Except ReadError β}

theorem Sated.bind (hp : Sated p data ks (.ok a) rest) (hq : Sated (q a) rest ls r rest') :
    Sated (p >>= q) data (ks ++ ls) r rest' := by
  intro raw
  have hp := hp raw
  rw [needs_append, bind_run]
  rcases hn : needs ks raw with - | ⟨_ | _, raw'⟩ <;> rw [hn] at hp
  · rw [show p ⟨raw, data⟩ = none from hp]
    rfl
  · obtain ⟨e, data', he⟩ := hp
    rw [he]
    exact ⟨e, data', rfl⟩
  · rw [show p ⟨raw, data⟩ = _ from hp]
    exact hq raw'

/-- What follows the last read of a message. -/
theorem Sated.last (hp : Sated p data ks (.ok a) rest) (hq : ∀ c, q a c = some (r, c)) :
    Sated (p >>= q) data ks r rest := by
  rw [← List.append_nil ks]
  exact hp.bind fun raw => hq _

theorem Sated.short (hp : Sated p data ks (.ok a) rest) (hq : Short (q a) rest) :
    Short (p >>= q) data := by
  intro raw
  have hp := hp raw
  rw [starve_needs ks, bind_run]
  rcases hn : needs ks raw with - | ⟨_ | _, raw'⟩ <;> rw [hn] at hp
  · rw [show p ⟨raw, data⟩ = none from hp]
  · obtain ⟨e, data', he⟩ := hp
    rw [he]
    exact ⟨e, data', rfl⟩
  · rw [show p ⟨raw, data⟩ = _ from hp]
    exact hq raw'

theorem Short.bind (hp : Short p data) (q : α → Reading β) : Short (p >>= q) data := by
  intro raw
  have hp := hp raw
  rw [bind_run]
  cases hs : starve 7 raw with
  | none =>
    rw [hs] at hp
    rw [show p ⟨raw, data⟩ = none from hp]
  | some raw' =>
    rw [hs] at hp
    obtain ⟨e, data', he⟩ := hp
    exact ⟨e, data', by rw [he]⟩

/-- What a reader makes of a result, once it has it. -/
theorem Comes.map {o : Option (Bool × List Raw)} {c : Conn} (h : Comes o (p c) (.ok a) rest)
    (g : α → β) : Comes o ((do return g (← p) : Reading β) c) (.ok (g a)) rest := by
  rw [bind_run]
  rcases o with - | ⟨_ | _, raw⟩
  · rw [show p c = none from h]
    rfl
  · obtain ⟨e, data, he⟩ := h
    rw [he]
    exact ⟨e, data, rfl⟩
  · rw [show p c = _ from h]
    rfl

end Reader

/-! ## `io.ReadFull` -/

section ReadFull

variable {k : Nat}

/-- The operation that `vsockConn.Read` retries. -/
def attempt (k : Nat) : ConnM (Bytes × Option Errno) := fun c => retryInterruptedIo k c.raw c.data

theorem retryMemoryIo_nil (left : Nat) (data : Bytes) :
    retryMemoryIo (attempt k) left ⟨[], data⟩ = none := by
  cases left <;> rfl

theorem retryMemoryIo_read (left n : Nat) (raw : List Raw) (data : Bytes) :
    retryMemoryIo (attempt k) left ⟨.read n :: raw, data⟩ =
      some ((data.take (min k (n + 1)), none), ⟨raw, data.drop (min k (n + 1))⟩) := by
  have hop : attempt k ⟨.read n :: raw, data⟩ =
      some ((data.take (min k (n + 1)), none), ⟨raw, data.drop (min k (n + 1))⟩) := by
    simp [attempt, retryInterruptedIo, rawRead]
  cases left with
  | zero => exact hop
  | succ left => simp [retryMemoryIo, bind, StateT.bind, hop]; rfl

theorem retryMemoryIo_eintr (left : Nat) (raw : List Raw) (data : Bytes) :
    retryMemoryIo (attempt k) left ⟨.fail .eintr :: raw, data⟩ =
      retryMemoryIo (attempt k) left ⟨raw, data⟩ := by
  have hop : attempt k ⟨.fail .eintr :: raw, data⟩ = attempt k ⟨raw, data⟩ := by
    simp [attempt, retryInterruptedIo, rawRead]
  cases left with
  | zero => exact hop
  | succ left => simp only [retryMemoryIo, bind, StateT.bind, hop]

theorem attempt_enomem (raw : List Raw) (data : Bytes) :
    attempt k ⟨.fail .enomem :: raw, data⟩ = some (([], some .enomem), ⟨raw, data⟩) := by
  simp [attempt, retryInterruptedIo, rawRead]

theorem retryMemoryIo_enomem (left : Nat) (raw : List Raw) (data : Bytes) :
    retryMemoryIo (attempt k) (left + 1) ⟨.fail .enomem :: raw, data⟩ =
      retryMemoryIo (attempt k) left ⟨raw, data⟩ := by
  simp [retryMemoryIo, bind, StateT.bind, attempt_enomem]

/-- A turn of `io.ReadAtLeast` after its read. -/
def afterRead (fuel k : Nat) : Bytes × Option Errno → Reading Bytes
  | (_, some e) => throw (.errno e)
  | (b, none) => do return b ++ (← readAtLeast fuel (k - b.length))

/-- A turn of `io.ReadAtLeast`, by the attempts that are left of its read. -/
def turn (fuel k left : Nat) : Reading Bytes := fun c =>
  (retryMemoryIo (attempt k) left c).bind fun (res, c) => afterRead fuel k res c

theorem readAtLeast_succ (fuel : Nat) :
    readAtLeast (fuel + 1) (k + 1) = turn fuel (k + 1) 7 := by
  funext c
  have hread : read (k + 1) c = retryMemoryIo (attempt (k + 1)) 7 c := rfl
  rw [readAtLeast, bind_run, lift_run, turn, hread]
  rcases retryMemoryIo (attempt (k + 1)) 7 c with - | ⟨⟨b, - | e⟩, c'⟩ <;> rfl

theorem turn_read (fuel left n : Nat) (raw : List Raw) (data : Bytes) :
    turn fuel k left ⟨.read n :: raw, data⟩ =
      (do return data.take (min k (n + 1)) ++
          (← readAtLeast fuel (k - (data.take (min k (n + 1))).length)) : Reading Bytes)
        ⟨raw, data.drop (min k (n + 1))⟩ := by
  rw [turn, retryMemoryIo_read]
  rfl

theorem turn_eintr (fuel left : Nat) (raw : List Raw) (data : Bytes) :
    turn fuel k left ⟨.fail .eintr :: raw, data⟩ = turn fuel k left ⟨raw, data⟩ := by
  rw [turn, turn, retryMemoryIo_eintr]

theorem turn_enomem (fuel left : Nat) (raw : List Raw) (data : Bytes) :
    turn fuel k (left + 1) ⟨.fail .enomem :: raw, data⟩ = turn fuel k left ⟨raw, data⟩ := by
  rw [turn, turn, retryMemoryIo_enomem]

theorem turn_starved (fuel : Nat) (raw : List Raw) (data : Bytes) :
    turn fuel k 0 ⟨.fail .enomem :: raw, data⟩ =
      some (.error (.errno .enomem), ⟨raw, data⟩) := by
  rw [turn, show retryMemoryIo (attempt k) 0 = attempt k from rfl, attempt_enomem]
  rfl

/-- `io.ReadFull` with these raw reads gets bytes that were delivered. -/
def Fills (raw : List Raw) : Prop :=
  ∀ fuel k data, raw.length ≤ fuel → k ≤ data.length →
    Comes (need k 7 raw) (readAtLeast fuel k ⟨raw, data⟩) (.ok (data.take k)) (data.drop k)

/-- Bytes that were delivered are read, unless the attempts are used up before. -/
theorem turn_comes {raw : List Raw} (hfills : ∀ r raw', r :: raw' <:+ raw → Fills raw')
    (fuel left : Nat) (data : Bytes) (hfuel : raw.length ≤ fuel + 1) (hk : k + 1 ≤ data.length) :
    Comes (need (k + 1) left raw) (turn fuel (k + 1) left ⟨raw, data⟩)
      (.ok (data.take (k + 1))) (data.drop (k + 1)) := by
  induction raw generalizing left with
  | nil =>
    show turn _ _ _ _ = none
    rw [turn, retryMemoryIo_nil]
    rfl
  | cons r raw ih =>
    have ih := ih fun r' raw' h => hfills r' raw' (h.trans (List.suffix_cons ..))
    rw [List.length_cons] at hfuel
    rcases r with n | _ | _
    · have hm : (data.take (min (k + 1) (n + 1))).length = min (k + 1) (n + 1) := by
        rw [List.length_take]
        omega
      have hrest := hfills _ raw (List.suffix_refl _) fuel (k - n)
        (data.drop (min (k + 1) (n + 1))) (by omega) (by rw [List.length_drop]; omega)
      have hall : data.take (min (k + 1) (n + 1)) ++
          (data.drop (min (k + 1) (n + 1))).take (k - n) = data.take (k + 1) := by
        rw [← List.take_add]
        congr 1
        omega
      have hdrop : (data.drop (min (k + 1) (n + 1))).drop (k - n) = data.drop (k + 1) := by
        rw [List.drop_drop]
        congr 1
        omega
      rw [need, turn_read, hm, show k + 1 - min (k + 1) (n + 1) = k - n by omega, ← hall, ← hdrop]
      exact hrest.map _
    · rw [need, turn_eintr]
      exact ih left (by omega)
    · cases left with
      | zero => exact ⟨.errno .enomem, data, turn_starved fuel raw data⟩
      | succ left =>
        rw [need, turn_enomem]
        exact ih left (by omega)

theorem fills (raw : List Raw) : Fills raw := by
  induction h : raw.length using Nat.strongRecOn generalizing raw with
  | ind n ih =>
    subst h
    intro fuel k data hfuel hk
    cases k with
    | zero =>
      rw [need, readAtLeast]
      rfl
    | succ k =>
      have hsuffix : ∀ r raw', r :: raw' <:+ raw → Fills raw' := fun r raw' h =>
        ih raw'.length h.length_le raw' rfl
      cases fuel with
      | zero =>
        obtain rfl := List.length_eq_zero_iff.1 (Nat.le_zero.1 hfuel)
        rfl
      | succ fuel =>
        rw [readAtLeast_succ]
        exact turn_comes hsuffix fuel 7 data hfuel hk

/-- A reader that asks for more than was delivered reads on until its attempts are used up. -/
theorem turn_short (fuel left : Nat) (raw : List Raw) (data : Bytes) (hfuel : raw.length ≤ fuel + 1)
    (hk : data.length < k) : match starve left raw with
      | none => turn fuel k left ⟨raw, data⟩ = none
      | some raw' => ∃ e data', turn fuel k left ⟨raw, data⟩ = some (.error e, ⟨raw', data'⟩) := by
  induction raw generalizing fuel k left data with
  | nil =>
    show turn _ _ _ _ = none
    rw [turn, retryMemoryIo_nil]
    rfl
  | cons r raw ih =>
    rw [List.length_cons] at hfuel
    rcases r with n | _ | _
    · obtain ⟨k', hk'⟩ : ∃ k', k - (data.take (min k (n + 1))).length = k' + 1 :=
        ⟨k - (data.take (min k (n + 1))).length - 1, by rw [List.length_take]; omega⟩
      have hlt : (data.drop (min k (n + 1))).length < k' + 1 := by
        rw [← hk', List.length_take, List.length_drop]
        omega
      rw [starve, turn_read, hk', bind_run]
      cases fuel with
      | zero =>
        obtain rfl := List.length_eq_zero_iff.1 (Nat.le_zero.1 (Nat.le_of_succ_le_succ hfuel))
        rfl
      | succ fuel =>
        have ih := ih fuel 7 _ (by omega) hlt
        rw [readAtLeast_succ]
        cases hs : starve 7 raw with
        | none =>
          rw [hs] at ih
          rw [show turn _ _ _ _ = none from ih]
        | some raw' =>
          rw [hs] at ih
          obtain ⟨e, data', he⟩ := ih
          exact ⟨e, data', by rw [he]⟩
    · rw [starve, turn_eintr]
      exact ih fuel left data (by omega) hk
    · cases left with
      | zero => exact ⟨.errno .enomem, data, turn_starved fuel raw data⟩
      | succ left =>
        rw [starve, turn_enomem]
        exact ih fuel left data (by omega) hk

variable {data : Bytes}

theorem readFull_sated (hk : k ≤ data.length) :
    Sated (readFull k) data [k] (.ok (data.take k)) (data.drop k) := by
  intro raw
  rw [needs_single]
  exact fills raw raw.length k data le_rfl hk

theorem readFull_short (hk : data.length < k) : Short (readFull k) data := by
  intro raw
  rw [readFull]
  obtain ⟨k, rfl⟩ : ∃ l, k = l + 1 := ⟨k - 1, by omega⟩
  cases raw with
  | nil => rfl
  | cons r raw =>
    rw [List.length_cons, readAtLeast_succ]
    exact turn_short raw.length 7 (r :: raw) data le_rfl hk

theorem adapt_run {α : Type} (text : String) (p : Reading α) (c : Conn) :
    (ExceptT.adapt (.wrapped text) p : Reading α) c = match p c with
      | none => none
      | some (.error e, c) => some (.error (.wrapped text e), c)
      | some (.ok a, c) => some (.ok a, c) := by
  show (p c).bind _ = _
  rcases p c with - | ⟨_ | _, _⟩ <;> rfl

theorem readPayload_sated (text : String) (hk : k ≤ data.length) :
    Sated (readPayload text k) data [k] (.ok (data.take k)) (data.drop k) := by
  intro raw
  have h := readFull_sated hk raw
  rw [readPayload]
  by_cases hpos : k > 0
  · rw [if_pos hpos, adapt_run]
    rcases hn : needs [k] raw with - | ⟨_ | _, raw'⟩ <;> rw [hn] at h
    · rw [show readFull k _ = none from h]
      rfl
    · obtain ⟨e, data', he⟩ := h
      rw [he]
      exact ⟨_, data', rfl⟩
    · rw [show readFull k _ = _ from h]
      rfl
  · obtain rfl : k = 0 := by omega
    rw [if_neg hpos, needs_single, need]
    rfl

theorem readPayload_short (text : String) (hk : data.length < k) :
    Short (readPayload text k) data := by
  intro raw
  have h := readFull_short hk raw
  rw [readPayload, if_pos (by omega), adapt_run]
  cases hs : starve 7 raw with
  | none =>
    rw [hs] at h
    rw [show readFull k _ = none from h]
  | some raw' =>
    rw [hs] at h
    obtain ⟨e, data', he⟩ := h
    exact ⟨_, data', by rw [he]⟩

end ReadFull

/-! ## Frames and messages -/

section Frames

variable {α : Type} {data : Bytes}

theorem uint16BE_put {n : Nat} (h : n ≤ 65535) : uint16BE (putUint16BE n) = n := by
  rw [uint16BE, putUint16BE, List.reverse_reverse]
  exact ofLE_le (by omega)

theorem put_uint16BE {b : Bytes} (h : b.length = 2) : putUint16BE (uint16BE b) = b := by
  have hle := le_ofLE b.reverse
  rw [List.length_reverse, h] at hle
  rw [putUint16BE, uint16BE, hle, List.reverse_reverse]

theorem uint16BE_le {b : Bytes} (h : b.length = 2) : uint16BE b ≤ 65535 := by
  have hlt := ofLE_lt b.reverse
  rw [List.length_reverse, h] at hlt
  rw [uint16BE]
  omega

/-- A reader of `k` bytes, two bytes of length and a payload of that length. -/
def framed (k : Nat) (text : String) (make : Bytes → Bytes → α) : Reading α := do
  let hdr ← readFull (k + 2)
  let payload ← readPayload text (uint16BE (hdr.drop k))
  return make hdr payload

variable {k : Nat} (text : String) (make : Bytes → Bytes → α)

theorem framed_sated {first payload : Bytes} (hfirst : first.length = k)
    (hlen : payload.length ≤ 65535) (rest : Bytes) :
    Sated (framed k text make) (first ++ putUint16BE payload.length ++ payload ++ rest)
      [k + 2, payload.length] (.ok (make (first ++ putUint16BE payload.length) payload)) rest := by
  have hput : (putUint16BE payload.length).length = 2 := by simp [putUint16BE]
  have hhdr : (first ++ putUint16BE payload.length).length = k + 2 := by
    rw [List.length_append, hfirst, hput]
  rw [List.append_assoc]
  have hread : k + 2 ≤ (first ++ putUint16BE payload.length ++ (payload ++ rest)).length := by
    rw [List.length_append, hhdr]
    omega
  have hread := readFull_sated hread
  rw [List.take_left' hhdr, List.drop_left' hhdr] at hread
  have hpay : payload.length ≤ (payload ++ rest).length := by
    rw [List.length_append]
    omega
  have hpay := readPayload_sated text hpay
  rw [List.take_left, List.drop_left] at hpay
  refine hread.bind ?_
  rw [List.drop_left' hfirst, uint16BE_put hlen]
  exact hpay.last fun _ => rfl

theorem framed_short (h : ∀ first payload, first.length = k → payload.length ≤ 65535 →
    ¬first ++ putUint16BE payload.length ++ payload <+: data) :
      Short (framed k text make) data := by
  by_cases hlen : data.length < k + 2
  · exact (readFull_short hlen).bind _
  refine (readFull_sated (by omega)).short ?_
  have hhdr : (data.take (k + 2)).length = k + 2 := by
    rw [List.length_take]
    omega
  have htwo : ((data.take (k + 2)).drop k).length = 2 := by
    rw [List.length_drop, hhdr]
    omega
  by_cases hpay : (data.drop (k + 2)).length < uint16BE ((data.take (k + 2)).drop k)
  · exact (readPayload_short text hpay).bind _
  -- the frame is there
  have hput : ((data.drop (k + 2)).take (uint16BE ((data.take (k + 2)).drop k))).length =
      uint16BE ((data.take (k + 2)).drop k) := by
    rw [List.length_take]
    omega
  refine absurd ?_ (h ((data.take (k + 2)).take k)
    ((data.drop (k + 2)).take (uint16BE ((data.take (k + 2)).drop k)))
    (by rw [List.length_take, hhdr]; omega) (by rw [hput]; exact uint16BE_le htwo))
  rw [hput, put_uint16BE htwo, List.take_append_drop]
  refine ⟨(data.drop (k + 2)).drop (uint16BE ((data.take (k + 2)).drop k)), ?_⟩
  rw [List.append_assoc, List.take_append_drop, List.take_append_drop]

theorem muxReadFrame_sated {fr : Frame} (h : fr.payload.length ≤ 65535) (rest : Bytes) :
    Sated muxReadFrame (muxFrame fr ++ rest) [4, fr.payload.length] (.ok fr) rest :=
  framed_sated "mux: read payload"
    (fun hdr payload => Frame.mk (hdr.getD 0 0) (hdr.getD 1 0) payload)
    (show [fr.stream, fr.type].length = 2 from rfl) h rest

theorem muxReadFrame_short (h : ∀ fr, ¬MuxDelivers data fr) : Short muxReadFrame data := by
  refine framed_short _ _ fun first payload hfirst hlen hpre => ?_
  obtain ⟨stream, type, rfl⟩ := List.length_eq_two.1 hfirst
  exact h ⟨stream, type, payload⟩ ⟨hlen, hpre⟩

theorem fwdReadFrame_sated {type : UInt8} {payload : Bytes} (h : payload.length ≤ 65535)
    (rest : Bytes) : Sated fwdReadFrame (fwdFrame type payload ++ rest) [3, payload.length]
      (.ok (type, payload)) rest :=
  framed_sated "fwd: read payload" (fun hdr payload => (hdr.getD 0 0, payload))
    (show [type].length = 1 from rfl) h rest

theorem fwdReadFrame_short (h : ∀ fr, ¬FwdDelivers data fr) : Short fwdReadFrame data := by
  refine framed_short _ _ fun first payload hfirst hlen hpre => ?_
  obtain ⟨type, rfl⟩ := List.length_eq_one_iff.1 hfirst
  exact h (type, payload) ⟨hlen, hpre⟩

end Frames

/-- What the reader of a message asks for, if that was delivered: a length that it
refuses, or a whole message. -/
inductive MessageAsks (data : Bytes) : List Nat → Prop where
  | refused {n : Nat} (hn : n < 2 ^ 32) (h : n = 0 ∨ n > maxMessageBytes) (hpre : le 4 n <+: data) :
    MessageAsks data [4]
  | whole {payload : Bytes} (hpos : 0 < payload.length) (hmax : payload.length ≤ maxMessageBytes)
    (hpre : message payload <+: data) : MessageAsks data [4, payload.length]

section Messages

variable {data : Bytes} (unmarshal : Bytes → Except ReadError M)

/-- The result is a message that was delivered, or an error if none was. -/
def Fits {α : Type} (D : α → Prop) : Except ReadError α → Prop
  | .ok a => D a
  | .error _ => ∀ a, ¬D a

variable {unmarshal}

/-- The length and the payload of a delivered message are read off the bytes. -/
theorem message_parts {payload : Bytes} (hlen : payload.length ≤ maxMessageBytes)
    (h : message payload <+: data) : ofLE (data.take 4) = payload.length ∧
      (data.drop 4).take payload.length = payload := by
  obtain ⟨rest, rfl⟩ := h
  have hle : (le 4 payload.length).length = 4 := length_le ..
  rw [message, List.append_assoc, List.take_left' hle, List.drop_left' hle, List.take_left]
  exact ⟨ofLE_le (hlen.trans_lt (by decide)), rfl⟩

theorem not_delivers_of_refused (unmarshal : Bytes → Except ReadError M)
    (h : ofLE (data.take 4) = 0 ∨ ofLE (data.take 4) > maxMessageBytes) (m : M) :
    ¬MessageDelivers unmarshal data m := by
  rintro ⟨payload, hpos, hmax, hpre, -⟩
  rw [(message_parts hmax hpre).1] at h
  omega

theorem readMessage_refused (hlen : 4 ≤ data.length)
    (h : ofLE (data.take 4) = 0 ∨ ofLE (data.take 4) > maxMessageBytes) :
    ∃ r rest, Sated (readMessage unmarshal) data [4] r rest ∧
      Fits (MessageDelivers unmarshal data) r := by
  have hfits := not_delivers_of_refused unmarshal h
  by_cases h0 : ofLE (data.take 4) = 0
  · refine ⟨.error (.text "proto: zero-length payload"), data.drop 4,
      (readFull_sated hlen).last fun c => ?_, hfits⟩
    rw [if_pos h0]
    rfl
  · refine ⟨.error (.text s!"proto: payload {ofLE (data.take 4)} > max {maxMessageBytes}"),
      data.drop 4, (readFull_sated hlen).last fun c => ?_, hfits⟩
    rw [if_neg h0, if_pos (h.resolve_left h0)]
    rfl

theorem readMessage_whole {payload : Bytes} (hpos : 0 < payload.length)
    (hmax : payload.length ≤ maxMessageBytes) (hpre : message payload <+: data) :
    ∃ r rest, Sated (readMessage unmarshal) data [4, payload.length] r rest ∧
      Fits (MessageDelivers unmarshal data) r := by
  obtain ⟨hn, hpayload⟩ := message_parts hmax hpre
  have hlen := hpre.length_le
  rw [message, List.length_append, length_le] at hlen
  have hread : payload.length ≤ (data.drop 4).length := by
    rw [List.length_drop]
    omega
  have hread := readPayload_sated "proto: read payload" hread
  rw [hpayload] at hread
  have hall (r : Except ReadError M) (hr : ∀ c, (match unmarshal payload with
      | .error e => throw (.wrapped "proto: unmarshal" e)
      | .ok m => return m : Reading M) c = some (r, c)) :
      Sated (readMessage unmarshal) data [4, payload.length] r
        ((data.drop 4).drop payload.length) := by
    refine (readFull_sated (by omega)).bind ?_
    dsimp only
    rw [hn, if_neg (by omega), if_neg (by omega)]
    exact hread.last hr
  cases hu : unmarshal payload with
  | error e =>
    refine ⟨.error (.wrapped "proto: unmarshal" e), _, hall _ fun c => by rw [hu]; rfl, ?_⟩
    rintro m ⟨payload', hpos', hmax', hpre', hm⟩
    obtain ⟨hn', hpayload'⟩ := message_parts hmax' hpre'
    rw [← hn', hn, hpayload] at hpayload'
    rw [← hpayload', hu] at hm
    cases hm
  | ok m => exact ⟨.ok m, _, hall _ fun c => by rw [hu]; rfl, payload, hpos, hmax, hpre, hu⟩

theorem MessageAsks.sated {ks : List Nat} (h : MessageAsks data ks) :
    ∃ r rest, Sated (readMessage unmarshal) data ks r rest ∧
      Fits (MessageDelivers unmarshal data) r := by
  cases h with
  | refused hn hbad hpre =>
    have hlen := hpre.length_le
    rw [length_le] at hlen
    obtain ⟨rest, rfl⟩ := hpre
    refine readMessage_refused hlen ?_
    rwa [List.take_left' (length_le ..), ofLE_le hn]
  | whole hpos hmax hpre => exact readMessage_whole hpos hmax hpre

theorem MessageDelivers.asks {m : M} (h : MessageDelivers unmarshal data m) :
    ∃ ks, MessageAsks data ks :=
  h.elim fun _ ⟨hpos, hmax, hpre, _⟩ => ⟨_, .whole hpos hmax hpre⟩

theorem readMessage_short (h : ∀ ks, ¬MessageAsks data ks) :
    Short (readMessage unmarshal) data := by
  by_cases hlen : data.length < 4
  · exact (readFull_short hlen).bind _
  have hhdr : (data.take 4).length = 4 := by
    rw [List.length_take]
    omega
  have hle := le_ofLE (data.take 4)
  rw [hhdr] at hle
  have hlt := ofLE_lt (data.take 4)
  rw [hhdr] at hlt
  have hpre : le 4 (ofLE (data.take 4)) <+: data := by
    rw [hle]
    exact List.take_prefix ..
  have hbad : ¬(ofLE (data.take 4) = 0 ∨ ofLE (data.take 4) > maxMessageBytes) := fun hbad =>
    h _ (.refused hlt hbad hpre)
  obtain ⟨h0, hmax⟩ := not_or.1 hbad
  refine (readFull_sated (by omega)).short ?_
  dsimp only
  rw [if_neg h0, if_neg hmax]
  by_cases hpay : (data.drop 4).length < ofLE (data.take 4)
  · exact (readPayload_short _ hpay).bind _
  -- the message is there
  have hput : ((data.drop 4).take (ofLE (data.take 4))).length = ofLE (data.take 4) := by
    rw [List.length_take]
    omega
  have hwhole : message ((data.drop 4).take (ofLE (data.take 4))) <+: data := by
    refine ⟨(data.drop 4).drop (ofLE (data.take 4)), ?_⟩
    rw [message, hput, hle, List.append_assoc, List.take_append_drop, List.take_append_drop]
  exact absurd (.whole (by omega) (by omega) hwhole) (h _)

end Messages

/-! ## Runs of a reader -/

/-- The first `n` raw reads of a run. -/
def upTo (f : Nat → Raw) (n : Nat) : List Raw := (List.range n).map f

/-- The reader returns after finitely many raw reads, with a message that was
delivered, or with an error if none was. -/
def Answers {α : Type} (f : Nat → Raw) (p : Reading α) (data : Bytes) (D : α → Prop) : Prop :=
  ∃ n r c, p ⟨upTo f n, data⟩ = some (r, c) ∧ Fits D r

/-- The raw reads get these stretches of bytes, if they were delivered, with fewer than
eight ENOMEM before every one that succeeds. -/
def Serves (f : Nat → Raw) (ks : List Nat) : Prop := ∃ n raw, needs ks (upTo f n) = some (true, raw)

/-- Eight raw reads fail with ENOMEM, and none succeeds between them. -/
def Starves (f : Nat → Raw) : Prop := ∃ n raw, starve 7 (upTo f n) = some raw

example : Serves (fun i => if i % 8 = 7 then .read 0 else .fail .enomem) [3] := ⟨24, [], rfl⟩

example : Starves fun i => if i % 2 = 0 then .fail .eintr else .fail .enomem := ⟨16, [], rfl⟩

/-- The reader answers: the raw reads serve it with all it asks for, or no message was
delivered and they starve it. -/
def Answerable {α : Type} (f : Nat → Raw) (asks : List Nat → Prop) (D : α → Prop) : Prop :=
  (∃ ks, asks ks ∧ Serves f ks) ∨ (∀ a, ¬D a) ∧ Starves f

section Answers

variable {α : Type} {f : Nat → Raw} {p : Reading α} {data rest : Bytes} {D : α → Prop}
  {ks : List Nat} {r : Except ReadError α}

theorem Sated.answers (h : Sated p data ks r rest) (hr : Fits D r) :
    Answers f p data D ↔ Serves f ks ∨ (∀ a, ¬D a) ∧ Starves f := by
  constructor
  · rintro ⟨n, r', c, hp, hfits⟩
    have hn := h (upTo f n)
    have hs := starve_needs ks (upTo f n)
    rw [hp] at hn
    rcases ho : needs ks (upTo f n) with - | ⟨_ | _, raw⟩ <;> rw [ho] at hn hs
    · cases hn
    · obtain ⟨e, data', he⟩ := hn
      cases he
      exact .inr ⟨hfits, n, raw, hs⟩
    · exact .inl ⟨n, raw, ho⟩
  · rintro (⟨n, raw, hn⟩ | ⟨hD, n, raw, hstarve⟩)
    · have h := h (upTo f n)
      rw [hn] at h
      exact ⟨n, r, _, h, hr⟩
    · have h := h (upTo f n)
      rw [starve_needs ks] at hstarve
      rcases ho : needs ks (upTo f n) with - | ⟨_ | _, raw⟩ <;> rw [ho] at h hstarve
      · cases hstarve
      · obtain ⟨e, data', he⟩ := h
        exact ⟨n, .error e, _, he, hD⟩
      · exact ⟨n, r, _, h, hr⟩

theorem Short.answers (h : Short p data) (hD : ∀ a, ¬D a) : Answers f p data D ↔ Starves f := by
  constructor
  · rintro ⟨n, r', c, hp, -⟩
    have hn := h (upTo f n)
    cases hs : starve 7 (upTo f n) with
    | none =>
      rw [hs, hp] at hn
      cases hn
    | some raw => exact ⟨n, raw, hs⟩
  · rintro ⟨n, raw, hs⟩
    have hn := h (upTo f n)
    rw [hs] at hn
    obtain ⟨e, data', he⟩ := hn
    exact ⟨n, .error e, _, he, hD⟩

/-- A reader that is either sated or short answers exactly if it can. -/
theorem answers_iff {asks : List Nat → Prop}
    (hsated : ∀ ks, asks ks → ∃ r rest, Sated p data ks r rest ∧ Fits D r)
    (hshort : (∀ ks, ¬asks ks) → Short p data ∧ ∀ a, ¬D a) :
    Answers f p data D ↔ Answerable f asks D := by
  by_cases hasks : ∃ ks, asks ks
  · constructor
    · obtain ⟨ks, hks⟩ := hasks
      obtain ⟨r, rest, hp, hr⟩ := hsated ks hks
      exact fun h => ((hp.answers hr).1 h).imp_left fun hserves => ⟨ks, hks, hserves⟩
    · obtain ⟨ks₀, hks₀⟩ := hasks
      rintro (⟨ks, hks, hserves⟩ | hstarves)
      · obtain ⟨r, rest, hp, hr⟩ := hsated ks hks
        exact (hp.answers hr).2 (.inl hserves)
      · obtain ⟨r, rest, hp, hr⟩ := hsated ks₀ hks₀
        exact (hp.answers hr).2 (.inr hstarves)
  · have hasks := not_exists.1 hasks
    obtain ⟨hp, hD⟩ := hshort hasks
    rw [hp.answers hD]
    exact ⟨fun h => .inr ⟨hD, h⟩, fun h => h.elim (fun ⟨ks, hks, _⟩ => absurd hks (hasks ks))
      And.right⟩

end Answers

/-! ## The read loop of a session -/

/-- The bytes that the loop asks for up to a delivered frame that ends it. -/
inductive Session.Ends (S : Session σ) : σ → Bytes → List Nat → Prop where
  | failed {s : σ} {fr : Frame} {rest : Bytes} (hlen : fr.payload.length ≤ 65535)
    (hd : S.dispatch s fr = none) : S.Ends s (muxFrame fr ++ rest) [4, fr.payload.length]
  | closed {s s' : σ} {fr : Frame} {rest : Bytes} (hlen : fr.payload.length ≤ 65535)
    (hd : S.dispatch s fr = some s') (hc : S.continues s' fr = false) :
    S.Ends s (muxFrame fr ++ rest) [4, fr.payload.length]
  | next {s s' : σ} {fr : Frame} {rest : Bytes} {ks : List Nat} (hlen : fr.payload.length ≤ 65535)
    (hd : S.dispatch s fr = some s') (hc : S.continues s' fr = true) (h : S.Ends s' rest ks) :
    S.Ends s (muxFrame fr ++ rest) ([4, fr.payload.length] ++ ks)

section Loop

variable {S : Session σ} {s : σ} {raw : List Raw} {data : Bytes}

theorem Session.readLoopFrom_succ (fuel : Nat) (c : Conn) :
    S.readLoopFrom (fuel + 1) s c = match muxReadFrame c with
      | none => none
      | some (.error _, c) => some ((), c)
      | some (.ok fr, c) => S.turn s fr (S.readLoopFrom fuel) c := by
  show (muxReadFrame c).bind _ = _
  rcases muxReadFrame c with - | ⟨_ | _, _⟩ <;> rfl

/-- A loop that ended was served a frame that ends it, or starved. -/
theorem Session.readLoopFrom_ended {fuel : Nat} (h : S.readLoopFrom fuel s ⟨raw, data⟩ ≠ none) :
    (∃ ks raw', S.Ends s data ks ∧ needs ks raw = some (true, raw')) ∨ (starve 7 raw).isSome := by
  induction fuel generalizing s raw data with
  | zero => exact absurd rfl h
  | succ fuel ih =>
    rw [S.readLoopFrom_succ] at h
    by_cases hfr : ∃ fr, MuxDelivers data fr
    · obtain ⟨fr, hlen, rest, rfl⟩ := hfr
      have hread := muxReadFrame_sated hlen rest raw
      have hs := starve_needs [4, fr.payload.length] raw
      rcases ho : needs [4, fr.payload.length] raw with - | ⟨_ | _, raw'⟩ <;> rw [ho] at hread hs
      · rw [show muxReadFrame _ = none from hread] at h
        exact absurd rfl h
      · exact .inr (by rw [hs]; rfl)
      · rw [show muxReadFrame _ = _ from hread] at h
        dsimp only [Session.turn] at h
        cases hd : S.dispatch s fr with
        | none => exact .inl ⟨_, raw', .failed hlen hd, ho⟩
        | some s' =>
          rw [hd] at h
          cases hc : S.continues s' fr with
          | false => exact .inl ⟨_, raw', .closed hlen hd hc, ho⟩
          | true =>
            dsimp only at h
            rw [hc, if_pos rfl] at h
            refine (ih h).imp (fun ⟨ks, raw'', hends, hks⟩ => ?_) fun hstarve => by rwa [hs]
            refine ⟨_, raw'', .next hlen hd hc hends, ?_⟩
            rw [needs_append, ho]
            exact hks
    · have hread := muxReadFrame_short (not_exists.1 hfr) raw
      cases hs : starve 7 raw with
      | none =>
        rw [hs] at hread
        rw [show muxReadFrame _ = none from hread] at h
        exact absurd rfl h
      | some raw' => exact .inr rfl

theorem length_of_needs {k : Nat} {ks : List Nat} {raw' : List Raw}
    (h : needs ((k + 1) :: ks) raw = some (true, raw')) : raw'.length < raw.length := by
  have hle : ∀ (ks : List Nat) (raw : List Raw), needs ks raw = some (true, raw') →
      raw'.length ≤ raw.length := by
    intro ks
    induction ks with
    | nil =>
      intro raw h
      cases h
      exact le_rfl
    | cons k ks ih =>
      intro raw h
      rw [needs] at h
      cases k with
      | zero =>
        rw [need] at h
        exact ih raw h
      | succ k =>
        rcases hn : need (k + 1) 7 raw with - | ⟨_ | _, raw₁⟩ <;> rw [hn] at h
        · cases h
        · cases h
        · exact (ih raw₁ h).trans (length_of_need hn).le
  rw [needs] at h
  rcases hn : need (k + 1) 7 raw with - | ⟨_ | _, raw₁⟩ <;> rw [hn] at h
  · cases h
  · cases h
  · exact (hle ks raw₁ h).trans_lt (length_of_need hn)

/-- A turn of a loop that was served a frame. -/
theorem Session.readLoopFrom_served {fr : Frame} {rest : Bytes} {raw' : List Raw} {fuel : Nat}
    (hlen : fr.payload.length ≤ 65535) (hfuel : raw.length ≤ fuel)
    (hn : needs [4, fr.payload.length] raw = some (true, raw')) :
    ∃ fuel', raw'.length ≤ fuel' ∧ S.readLoopFrom fuel s ⟨raw, muxFrame fr ++ rest⟩ =
      S.turn s fr (S.readLoopFrom fuel') ⟨raw', rest⟩ := by
  have hlt := length_of_needs hn
  obtain ⟨fuel, rfl⟩ : ∃ l, fuel = l + 1 := ⟨fuel - 1, by omega⟩
  have hread := muxReadFrame_sated hlen rest raw
  rw [hn] at hread
  refine ⟨fuel, by omega, ?_⟩
  rw [S.readLoopFrom_succ, show muxReadFrame _ = _ from hread]

theorem Session.turn_stops {fr : Frame} (next : σ → ConnM Unit) (c : Conn)
    (h : ∀ s', S.dispatch s fr = some s' → S.continues s' fr = false) :
    S.turn s fr next c ≠ none := by
  rw [Session.turn]
  cases hd : S.dispatch s fr with
  | none => exact Option.some_ne_none _
  | some s' =>
    dsimp only
    rw [h s' hd]
    exact Option.some_ne_none _

/-- A loop that is served a frame that ends it, ends. -/
theorem Session.Ends.readLoopFrom {ks : List Nat} (h : S.Ends s data ks) {raw' : List Raw}
    {fuel : Nat} (hks : needs ks raw = some (true, raw')) (hfuel : raw.length ≤ fuel) :
    S.readLoopFrom fuel s ⟨raw, data⟩ ≠ none := by
  induction h generalizing raw fuel with
  | failed hlen hd =>
    obtain ⟨fuel', -, heq⟩ := S.readLoopFrom_served hlen hfuel hks
    rw [heq]
    exact S.turn_stops _ _ fun s' h => by rw [hd] at h; cases h
  | closed hlen hd hc =>
    obtain ⟨fuel', -, heq⟩ := S.readLoopFrom_served hlen hfuel hks
    rw [heq]
    exact S.turn_stops _ _ fun s' h => by rw [hd] at h; cases h; exact hc
  | @next s s' fr rest ks hlen hd hc h ih =>
    rw [needs_append] at hks
    rcases hn : needs [4, fr.payload.length] raw with - | ⟨_ | _, raw₁⟩ <;> rw [hn] at hks
    · cases hks
    · cases hks
    · obtain ⟨fuel', hfuel', heq⟩ := S.readLoopFrom_served hlen hfuel hn
      rw [heq, Session.turn, hd]
      dsimp only
      rw [hc]
      exact ih hks hfuel'

/-- A loop that is starved ends, at the latest then. -/
theorem Session.readLoopFrom_starved {fuel : Nat} (hfuel : raw.length ≤ fuel)
    (hs : (starve 7 raw).isSome) : S.readLoopFrom fuel s ⟨raw, data⟩ ≠ none := by
  induction fuel generalizing s raw data with
  | zero =>
    obtain rfl := List.length_eq_zero_iff.1 (Nat.le_zero.1 hfuel)
    cases hs
  | succ fuel ih =>
    rw [S.readLoopFrom_succ]
    by_cases hfr : ∃ fr, MuxDelivers data fr
    · obtain ⟨fr, hlen, rest, rfl⟩ := hfr
      have hread := muxReadFrame_sated hlen rest raw
      rw [starve_needs [4, fr.payload.length]] at hs
      rcases ho : needs [4, fr.payload.length] raw with - | ⟨_ | _, raw'⟩ <;> rw [ho] at hread hs
      · cases hs
      · obtain ⟨e, data', he⟩ := hread
        rw [he]
        exact Option.some_ne_none _
      · rw [show muxReadFrame _ = _ from hread]
        have hlt := length_of_needs ho
        dsimp only [Session.turn]
        cases hd : S.dispatch s fr with
        | none => exact Option.some_ne_none _
        | some s' =>
          dsimp only
          cases hc : S.continues s' fr with
          | false => exact Option.some_ne_none _
          | true => exact ih (by omega) hs
    · have hread := muxReadFrame_short (not_exists.1 hfr) raw
      cases ho : starve 7 raw with
      | none =>
        rw [ho] at hs
        cases hs
      | some raw' =>
        rw [ho] at hread
        obtain ⟨e, data', he⟩ := hread
        rw [he]
        exact Option.some_ne_none _

end Loop

/-- The loop of a session ends exactly if the raw reads serve it with a delivered frame
that ends it, or starve it. -/
theorem Session.readLoop_ends_iff {f : Nat → Raw} (S : Session σ) (s : σ) (data : Bytes) :
    (∃ n, S.readLoop s ⟨upTo f n, data⟩ ≠ none) ↔
      (∃ ks, S.Ends s data ks ∧ Serves f ks) ∨ Starves f := by
  constructor
  · rintro ⟨n, h⟩
    rcases S.readLoopFrom_ended h with ⟨ks, raw, hends, hks⟩ | hs
    · exact .inl ⟨ks, hends, n, raw, hks⟩
    · exact .inr ⟨n, Option.isSome_iff_exists.1 hs⟩
  · rintro (⟨ks, hends, n, raw, hks⟩ | ⟨n, raw, hs⟩)
    · exact ⟨n, hends.readLoopFrom hks le_rfl⟩
    · exact ⟨n, S.readLoopFrom_starved le_rfl (by rw [hs]; rfl)⟩

/-! ## The readers of the guest -/

def MuxAsks (data : Bytes) (ks : List Nat) : Prop :=
  ∃ fr, MuxDelivers data fr ∧ ks = [4, fr.payload.length]

def FwdAsks (data : Bytes) (ks : List Nat) : Prop :=
  ∃ fr, FwdDelivers data fr ∧ ks = [3, fr.2.length]

/-- The readers answer, and the loop of a session ends, exactly if the raw reads serve them
with all they ask for or, with nothing to answer with, starve them. -/
theorem guest_readers_return (f : Nat → Raw) (data : Bytes) (unmarshal : Bytes → Except ReadError M)
    (S : Session σ) (s : σ) :
    (Answers f muxReadFrame data (MuxDelivers data) ↔
      Answerable f (MuxAsks data) (MuxDelivers data)) ∧
    (Answers f fwdReadFrame data (FwdDelivers data) ↔
      Answerable f (FwdAsks data) (FwdDelivers data)) ∧
    (Answers f (readMessage unmarshal) data (MessageDelivers unmarshal data) ↔
      Answerable f (MessageAsks data) (MessageDelivers unmarshal data)) ∧
    ((∃ n, S.readLoop s ⟨upTo f n, data⟩ ≠ none) ↔
      (∃ ks, S.Ends s data ks ∧ Serves f ks) ∨ Starves f) := by
  refine ⟨answers_iff ?_ ?_, answers_iff ?_ ?_, answers_iff (fun _ h => h.sated) ?_,
    S.readLoop_ends_iff s data⟩
  · rintro _ ⟨fr, ⟨hlen, rest, rfl⟩, rfl⟩
    exact ⟨_, rest, muxReadFrame_sated hlen rest, hlen, List.prefix_append ..⟩
  · intro h
    have hnone : ∀ fr, ¬MuxDelivers data fr := fun fr hfr => h _ ⟨fr, hfr, rfl⟩
    exact ⟨muxReadFrame_short hnone, hnone⟩
  · rintro _ ⟨fr, ⟨hlen, rest, rfl⟩, rfl⟩
    exact ⟨_, rest, fwdReadFrame_sated hlen rest, hlen, List.prefix_append ..⟩
  · intro h
    have hnone : ∀ fr, ¬FwdDelivers data fr := fun fr hfr => h _ ⟨fr, hfr, rfl⟩
    exact ⟨fwdReadFrame_short hnone, hnone⟩
  · exact fun h => ⟨readMessage_short h, fun m hm => hm.asks.elim h⟩

/-- The reads of a connection whose peer closed it before it delivered anything. -/
def closedPeer (n : Nat) : Conn := ⟨List.replicate n (.read 0), []⟩

def idle : Session Unit := ⟨fun s _ => some s, fun _ => false⟩

theorem starve_replicate (n left : Nat) : starve left (List.replicate n (.read 0)) = none := by
  induction n generalizing left with
  | zero => rfl
  | succ n ih => exact ih 7

/-- At the end of the stream no number of raw reads lets a reader return. -/
theorem Short.at_eof {α : Type} {p : Reading α} (h : Short p []) (n : Nat) :
    p (closedPeer n) = none := by
  have h := h (List.replicate n (.read 0))
  rwa [starve_replicate] at h

theorem closed_peer_never_ends :
    (∀ n, muxReadFrame (closedPeer n) = none) ∧ (∀ n, fwdReadFrame (closedPeer n) = none) ∧
    (∀ n, readMessage (fun _ => .ok ()) (closedPeer n) = none) ∧
    ∀ n, idle.readLoop () (closedPeer n) = none := by
  have hfull (k : Nat) : Short (readFull (k + 1)) [] := readFull_short (Nat.succ_pos k)
  have hmux : ∀ n, muxReadFrame (closedPeer n) = none := ((hfull 3).bind _).at_eof
  refine ⟨hmux, ((hfull 2).bind _).at_eof, ((hfull 3).bind _).at_eof, fun n => ?_⟩
  rw [Session.readLoop]
  cases n with
  | zero => rfl
  | succ n =>
    rw [show (closedPeer (n + 1)).raw.length = n + 1 from List.length_replicate,
      Session.readLoopFrom_succ, hmux]

end Sandboxer.Init.Vsock
