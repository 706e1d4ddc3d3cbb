import Sandboxer.Export.Single
import Sandboxer.Versioned.ViewRuns
import Sandboxer.Diffstore.Linearizable

/-! # Export runs of an active disk

`activeSource.RunAt` (`active_source.go`) first observes the mutations that wait
in the cache and then asks the backend which blocks have payload. The frontend is
quiescent meanwhile, the writeback worker and readers of the cache are not: pages
are frozen, committed, completed, loaded and evicted between the observations. -/
namespace Sandboxer.Export

open Lib.Outcomes Lib.Runs Lib.Threads Diffstore
open Versioned (Failure Version)
open Relation (ReflTransGen)

/-! ## Backends -/

/-- `diffFile.payloadPresence`. -/
def DiffFile.payloadPresence (d : DiffFile) (start count : Nat) : Except Failure (List Bool) :=
  if d.size / Versioned.pageSize < start ∨
    d.size / Versioned.pageSize - start < count then .error .eof
  else .ok ((List.range' start count).map (bitmapBlockDirty d.payload))

/-- The range `Store.PayloadPresence` accepts. -/
def ValidRange (v : Version) (start count : Nat) : Prop :=
  count ≤ Versioned.maxPresencePages ∧ start ≤ v.size / Versioned.pageSize ∧
    count ≤ v.size / Versioned.pageSize - start

/-- `Store.PayloadPresence`. -/
def storePresence (v : Version) (start count : Nat) : Except Failure (List Bool) :=
  match v.refused with
  | some e => .error e
  | none =>
    let total := v.size / Versioned.pageSize
    if Versioned.maxPresencePages < count ∨ total < start ∨ total - start < count then
      .error (.request "diffstore: invalid presence range")
    else if count = 0 ∨ v.root = 0 then .ok (List.replicate count false)
    else (Versioned.payloadPresence v.index v.root start (start + count)).map
      Versioned.Report.present

/-- Why a query of the store fails. -/
inductive PresenceFails (v : Version) (start count : Nat) : Failure → Prop where
  | refused {e : Failure} (h : v.refused = some e) : PresenceFails v start count e
  | range (h : v.refused = none) (hrange : ¬ValidRange v start count) :
      PresenceFails v start count (.request "diffstore: invalid presence range")
  | index {e : Failure} (h : v.refused = none) (hrange : ValidRange v start count)
    (hcount : count ≠ 0)
      (hroot : v.root ≠ 0)
      (hindex : Versioned.payloadPresence v.index v.root start (start + count) = .error e) :
      PresenceFails v start count e

theorem storePresence_spec (v : Version) (start count : Nat) :
    Meets (PresenceFails v start count)
      (fun present => v.refused = none ∧ ValidRange v start count ∧ v.Answered start count present)
      (storePresence v start count) := by
  unfold storePresence
  split
  next e h => exact .error (.refused h)
  next hrefused =>
  dsimp only
  split
  next hrange =>
    refine .error (.range hrefused ?_)
    rintro ⟨hmax, hstart, hcount⟩
    omega
  next hrange =>
  have hvalid : ValidRange v start count := by
    refine ⟨?_, ?_, ?_⟩ <;> omega
  -- the query is the one a view makes for a run
  have hpages : Meets _ (v.Answered start count) _ := Version.mappedPages_meets hvalid.1
  rw [Version.mappedPages, if_neg (by omega)] at hpages
  by_cases hroot : v.root = 0
  · rw [if_pos hroot] at hpages
    rw [if_pos (.inr hroot)]
    exact .ok ⟨hrefused, hvalid, hpages.of_ok rfl⟩
  rw [if_neg hroot] at hpages
  by_cases h0 : count = 0
  · rw [if_pos (.inl h0), h0]
    exact .ok ⟨hrefused, h0 ▸ hvalid, rfl, by omega, by omega⟩
  · rw [if_neg (by simp [h0, hroot])]
    refine (hpages.weaken fun e he => ?_).mono fun present _ h => ⟨hrefused, hvalid, h⟩
    exact .index hrefused hvalid h0 hroot he.2

theorem PresenceFails.error {v : Version} {start count : Nat} {e : Failure}
    (h : PresenceFails v start count e) : storePresence v start count = .error e := by
  unfold storePresence
  cases h with
  | refused h => simp only [h]
  | range h hrange =>
    rw [h]
    refine if_pos ?_
    unfold ValidRange at hrange
    omega
  | index h hrange hcount hroot hindex =>
    obtain ⟨hmax, hstart, hlen⟩ := hrange
    simp only [h]
    rw [if_neg (by omega), if_neg (by simp [hcount, hroot]), hindex]
    rfl

/-- A store answers for each page of a valid range, and fails exactly where it is refused, the
range is not valid or the index query for it fails. -/
theorem storePresence_meets (v : Version) (start count : Nat) :
    Meets (PresenceFails v start count)
      (fun present => v.refused = none ∧ ValidRange v start count ∧ v.Answered start count present)
      (storePresence v start count) ∧
    ∀ e, storePresence v start count = .error e ↔ PresenceFails v start count e :=
  have hmeets := storePresence_spec v start count
  ⟨hmeets, fun _ => ⟨hmeets.of_error, PresenceFails.error⟩⟩

/-- `diffBackend`, as far as an export asks it. -/
inductive Backing where
  | single (d : DiffFile)
  | store (v : Version)

namespace Backing

/-- The blocks with payload. -/
def mapped : Backing → Nat → Bool
  | .single d => bitmapBlockDirty d.payload
  | .store v => v.mapped

/-- `payloadPresence`. -/
def payloadPresence : Backing → (start count : Nat) → Except Failure (List Bool)
  | .single d => d.payloadPresence
  | .store v => storePresence v

variable {b : Backing} {start count : Nat} {present : List Bool}

theorem answers (h : b.payloadPresence start count = .ok present) :
    present = (List.range' start count).map b.mapped := by
  cases b with
  | single d =>
    rw [payloadPresence, DiffFile.payloadPresence] at h
    split at h
    · cases h
    · exact (Except.ok.inj h).symm
  | store v =>
    obtain ⟨-, -, hanswered⟩ := (storePresence_spec v start count).of_ok h
    refine List.ext_getElem? fun i => ?_
    rw [List.getElem?_map]
    by_cases hi : i < count
    · rw [hanswered.agrees i hi, List.getElem?_range' hi, Nat.one_mul]
      rfl
    · rw [List.getElem?_eq_none (by rw [hanswered.length]; omega),
        List.getElem?_eq_none (by simp; omega)]
      rfl

end Backing

/-! ## The disk while it is exported -/

def kindOf (s : Shared) (d b : Nat) : RunKind :=
  if s.bitmap ⟨d, b⟩ then if s.payload ⟨d, b⟩ then .data else .zero else .hole

/-- `cowSnapshotReaderAt`: a disk and the copy of its presence. `refused` is the answer of
`begin` for a disk that is closed or has failed. -/
structure ActiveView where
  disk : Nat
  size : Nat
  bitmap : List (BitVec 64)
  refused : Option Failure

def maxWritebackPages : Nat := 256

namespace ActiveView

variable (a : ActiveView)

def runStop (off limit : Nat) : Nat :=
  frameStop blockSize maxWritebackPages (bitmapBlockDirty a.bitmap (off / blockSize))
    (bitmapRunEnd a.bitmap (off / blockSize)) off (off + min limit (a.size - off))

/-- The blocks of the run as the cache has them: `cached` and `zero`. -/
def observe (s : Shared) (first count : Nat) : List (Option Bool) :=
  (List.range' first count).map fun b => waiting (s.pages ⟨a.disk, b⟩)

/-- The end of a run whose answers differ from `first + i` on. -/
def cut (off stop : Nat) (payload : List Bool) : Nat :=
  match firstOther payload with
  | none => stop
  | some i => (off / blockSize + i) * blockSize

/-- `activeSource.RunAt`. The cache is observed in one state, the backend queried
in a later one. -/
def runAt (observed : Shared) (queried : Backing) (off limit : Nat) :
    Except Failure (Run RunKind) :=
  if a.size ≤ off then .error .eof
  else if limit = 0 then .error (.request "diffstore: zero export run limit")
  else
    match a.refused with
    | some e => .error e
    | none =>
      let first := off / blockSize
      let stop := a.runStop off limit
      if bitmapBlockDirty a.bitmap first then
        let count := cellsBelow blockSize stop - first
        if maxWritebackPages < count then .error .panic
        else do
          let cached := a.observe observed first count
          let payload ← queried.payloadPresence first count
          let payload := List.zipWith payloadOf cached payload
          .ok ⟨off, cut off stop payload, if payload[0]? = some true then .data else .zero⟩
      else .ok ⟨off, stop, .hole⟩

/-- How `activeSource.RunAt` fails: the disk is refused, or the backend fails to answer for the
blocks of the run. -/
def RunFails (queried : Backing) (off limit : Nat) (e : Failure) : Prop :=
  a.refused = some e ∨ a.refused = none ∧ bitmapBlockDirty a.bitmap (off / blockSize) = true ∧
    queried.payloadPresence (off / blockSize)
      (cellsBelow blockSize (a.runStop off limit) - off / blockSize) = .error e

/-- The block `Cache.read` delivers at a moment: a page that can be read, or what it loads. -/
def block (s : Shared) (k : CacheKey) : Block :=
  match s.pages k with
  | some p =>
    match p.state with
    | .clean | .dirty | .writeback => p.content
    | .loading | .constructing | .discarding => s.backend k
  | none => s.backend k

/-- What `activeSource.ReadAt` delivers for position `x` at a moment: blocks without
presence in the view are zeros. -/
def byteAt (s : Shared) (x : Nat) : Byte :=
  if bitmapBlockDirty a.bitmap (x / blockSize) then (block s ⟨a.disk, x / blockSize⟩).at x else 0

/-- What `activeSourceRun.ReadAt` delivers for position `x` of a run. -/
def runByteAt (run : Run RunKind) (s : Shared) (x : Nat) : Byte :=
  if run.kind ≠ .data then 0 else a.byteAt s x

end ActiveView

/-! ## What goes on meanwhile -/

/-- No thread holds a block of the disk for writing: the frontend is quiescent and the
template is materialized. -/
def Quiet (d : Nat) (s : Shared) : Prop := ∀ t k, k.disk = d → ¬Excl s t k

/-- A move of any thread, after which the disk is still quiet: the worker goes on, and so do
requests that read the disk and everything that goes on at other disks. -/
def Meanwhile (d : Nat) (c c' : Pool Shared Thread) : Prop :=
  (∃ t, Pool.Step NoEnv c (some t) c') ∧ Quiet d c'.shared

/-- A disk whose frontend is quiescent; blocks without payload read as zeros. -/
structure Quiescent (cfg : Config) (d : Nat) (s : Shared) : Prop where
  inv : Inv cfg s
  quiet : Quiet d s
  blank : ∀ b, s.mapped ⟨d, b⟩ = false → s.backend ⟨d, b⟩ = zeroBlock

/-- What the background leaves alone. -/
structure Steady (d : Nat) (s s' : Shared) : Prop where
  bitmap : ∀ b, s'.bitmap ⟨d, b⟩ = s.bitmap ⟨d, b⟩
  logical : ∀ b, s'.logical ⟨d, b⟩ = s.logical ⟨d, b⟩
  payload : ∀ b, s'.payload ⟨d, b⟩ = s.payload ⟨d, b⟩
  idle : ∀ b, waiting (s.pages ⟨d, b⟩) = none → waiting (s'.pages ⟨d, b⟩) = none

variable {cfg : Config} {d : Nat} {s s' s'' : Shared}

theorem Steady.refl (s : Shared) : Steady d s s :=
  ⟨fun _ => rfl, fun _ => rfl, fun _ => rfl, fun _ h => h⟩

theorem Steady.trans (h : Steady d s s') (h' : Steady d s' s'') : Steady d s s'' where
  bitmap b := (h'.bitmap b).trans (h.bitmap b)
  logical b := (h'.logical b).trans (h.logical b)
  payload b := (h'.payload b).trans (h.payload b)
  idle b hb := h'.idle b (h.idle b hb)

/-- A block of which nothing waits has the payload the backend has of it, then and later. -/
theorem Steady.mapped (h : Steady d s s') {b : Nat} (hb : waiting (s.pages ⟨d, b⟩) = none) :
    s'.mapped ⟨d, b⟩ = s.payload ⟨d, b⟩ := by
  rw [← h.payload b, Shared.payload, h.idle b hb]
  rfl

theorem Steady.kindOf (h : Steady d s s') (b : Nat) : kindOf s' d b = kindOf s d b := by
  rw [Export.kindOf, Export.kindOf, h.bitmap, h.payload]

/-- What every thread guarantees keeps a quiet disk steady. -/
theorem steady_of_guar {me : Thread} (h : Guar me s s') (hq : Quiet d s) : Steady d s s' where
  bitmap b := (h.held _ (hq me ⟨d, b⟩ rfl)).2.1
  logical b := (h.held _ (hq me ⟨d, b⟩ rfl)).1
  payload b := h.payload _ (hq me ⟨d, b⟩ rfl)
  idle b hb := idle_iff.1 ((h.held _ (hq me ⟨d, b⟩ rfl)).2.2 (idle_iff.2 hb)).1

section Pool

variable {bitmap mapped : CacheKey → Bool} {backend : CacheKey → Block} {ld : Load}
  {c c' : Pool Shared Thread}

/-- Blocks without payload read as zeros in every run, if they do to begin with. -/
theorem reach_blank (hr : Pool.Reach NoEnv (start cfg bitmap backend mapped ld) c)
    (hblank : ∀ k, mapped k = false → backend k = zeroBlock) (k : CacheKey) :
    c.shared.mapped k = false → c.shared.backend k = zeroBlock := by
  induction hr with
  | refl => exact hblank k
  | @step c c' l hr hs ih =>
    cases l with
    | none => cases hs with | env h => exact h.elim
    | some t => exact (reach_acts hr hs).guar.blank k ih

/-- However long the background goes on. -/
theorem meanwhile_keeps (h : ReflTransGen (Meanwhile d) c c')
    (hr : Pool.Reach NoEnv (start cfg bitmap backend mapped ld) c) (hq : Quiet d c.shared) :
    Pool.Reach NoEnv (start cfg bitmap backend mapped ld) c' ∧ Quiet d c'.shared ∧
      Steady d c.shared c'.shared := by
  induction h with
  | refl => exact ⟨hr, hq, .refl _⟩
  | tail _ hstep ih =>
    obtain ⟨hr', hq', hsteady⟩ := ih
    obtain ⟨⟨t, hs⟩, hquiet⟩ := hstep
    have hmove := steady_of_guar (reach_acts hr' hs).guar hq'
    exact ⟨hr'.step hs, hquiet,
      hsteady.trans ⟨hmove.bitmap, hmove.logical, hmove.payload, hmove.idle⟩⟩

end Pool

/-- The backend of the view, as the pool has it. -/
def ActiveView.Backs (a : ActiveView) (b : Backing) (s : Shared) : Prop :=
  ∀ x, x * blockSize < a.size → b.mapped x = s.mapped ⟨a.disk, x⟩

/-- The moments of an export: pools of one run of the disks that lead from each to the next while
the disk is quiet, each with the backend as it is then. -/
structure Moments (cfg : Config) (a : ActiveView) (c : Nat → Pool Shared Thread)
    (b : Nat → Backing) :
    Prop where
  reach : ∃ bitmap backend mapped ld, (∀ k, mapped k = false → backend k = zeroBlock) ∧
    Pool.Reach NoEnv (start cfg bitmap backend mapped ld) (c 0)
  quiet : Quiet a.disk (c 0).shared
  next : ∀ i, ReflTransGen (Meanwhile a.disk) (c i) (c (i + 1))
  backing : ∀ i, a.Backs (b i) (c i).shared

section Moments

variable {a : ActiveView} {c : Nat → Pool Shared Thread} {b : Nat → Backing} (h : Moments cfg a c b)

include h

theorem Moments.reach_at (i : Nat) : ∃ bitmap backend mapped ld,
    ((∀ k, mapped k = false → backend k = zeroBlock) ∧ Quiet a.disk (c i).shared) ∧
      Pool.Reach NoEnv (start cfg bitmap backend mapped ld) (c i) := by
  obtain ⟨⟨bitmap, backend, mapped, ld, hblank, hr⟩, hquiet, hnext, -⟩ := h
  have hrun : Pool.Reach NoEnv (start cfg bitmap backend mapped ld) (c i) ∧
      Quiet a.disk (c i).shared := by
    induction i with
    | zero => exact ⟨hr, hquiet⟩
    | succ i ih =>
      obtain ⟨hr', hquiet', -⟩ := meanwhile_keeps (hnext i) ih.1 ih.2
      exact ⟨hr', hquiet'⟩
  exact ⟨bitmap, backend, mapped, ld, ⟨hblank, hrun.2⟩, hrun.1⟩

theorem Moments.at (i : Nat) : Quiescent cfg a.disk (c i).shared ∧
    ∀ j, i ≤ j → Steady a.disk (c i).shared (c j).shared := by
  obtain ⟨bitmap, backend, mapped, ld, ⟨hblank, hquiet⟩, hr⟩ := h.reach_at i
  refine ⟨⟨reach_inv hr, hquiet, fun b => reach_blank hr hblank _⟩, fun j hij => ?_⟩
  induction hij with
  | refl => exact .refl _
  | @step j _ ih =>
    obtain ⟨_, _, _, _, ⟨-, hquiet'⟩, hr'⟩ := h.reach_at j
    exact ih.trans (meanwhile_keeps (h.next j) hr' hquiet').2.2

end Moments

end Sandboxer.Export
