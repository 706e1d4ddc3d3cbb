import Sandboxer.Export.Active
import Sandboxer.Versioned.Coalesced

/-! # Export runs tile the device

For the three sources of an export, a view of the versioned store, a single-layer
diff and an active disk: the runs they return fit, asking for one run after the
other visits every position once, and reading through the runs is reading the
source. -/
namespace Sandboxer.Export

open Lib.Outcomes Lib.Runs Lib.Threads Diffstore
open Versioned (Failure Version pageSize)

/-! ## The active disk -/

section Active

variable {cfg : Config} {a : ActiveView} {s s' : Shared}

/-- The presence a view copied is that of the quiescent disk. -/
def ActiveView.Copies (a : ActiveView) (s : Shared) : Prop :=
  ∀ b, b * blockSize < a.size → bitmapBlockDirty a.bitmap b = s.bitmap ⟨a.disk, b⟩

theorem ActiveView.Copies.steady (h : a.Copies s) (hsteady : Steady a.disk s s') : a.Copies s' :=
  fun b hb => (h b hb).trans (hsteady.bitmap b).symm

/-- The answers the two observations give together are those of the first moment. -/
theorem observed_payload (hsteady : Steady a.disk s s') {b : Backing} (hb : a.Backs b s')
    {first count : Nat} (hsize : ∀ x, first ≤ x → x < first + count → x * blockSize < a.size) :
    List.zipWith payloadOf (a.observe s first count) ((List.range' first count).map b.mapped) =
      (List.range' first count).map fun x => s.payload ⟨a.disk, x⟩ := by
  rw [ActiveView.observe, List.zipWith_map_left, List.zipWith_map_right, List.zipWith_self]
  refine List.map_congr_left fun x hx => ?_
  obtain ⟨hfrom, hbefore⟩ := List.mem_range'_1.1 hx
  cases hw : waiting (s.pages ⟨a.disk, x⟩) with
  | some zero => rw [Shared.payload, hw]; rfl
  | none =>
    rw [payloadOf, hb x (hsize x hfrom hbefore)]
    exact hsteady.mapped hw

variable {off : Nat}

theorem cut_eq_cutRun {stop : Nat} {payload : List Bool}
    (hlen : payload.length = cellsBelow blockSize stop - off / blockSize) :
    ActiveView.cut off stop payload = cutRun blockSize off stop payload := by
  rw [ActiveView.cut, cutRun]
  cases h : firstOther payload with
  | none => rfl
  | some i =>
    have := firstOther_lt blockSize_pos h hlen
    dsimp only
    omega

variable {limit : Nat}

theorem activeRunStop_framed (hoff : off < a.size) (hlimit : 0 < limit) :
    Framed blockSize (bitmapBlockDirty a.bitmap) off (min a.size (off + limit))
    (a.runStop off limit) ∧ (bitmapBlockDirty a.bitmap (off / blockSize) = true →
      cellsBelow blockSize (a.runStop off limit) - off / blockSize ≤ maxWritebackPages) := by
  rw [ActiveView.runStop, show off + min limit (a.size - off) = min a.size (off + limit) by omega]
  exact frameStop_framed blockSize_pos (by decide) (by omega) fun cells hcells =>
    bitmapRunEnd_ends a.bitmap hcells

/-- A run of the active disk, the cache observed in `s` and the backend queried in `s'`. -/
theorem activeRunAt_meets (hcopies : a.Copies s) (hsteady : Steady a.disk s s') {b : Backing}
    (hb : a.Backs b s') (hoff : off < a.size) (hlimit : 0 < limit) :
    Meets (a.RunFails b off limit) (Run.Fits a.size blockSize (kindOf s a.disk) off limit)
      (a.runAt s b off limit) := by
  rw [ActiveView.runAt, if_neg (by omega), if_neg (by omega)]
  cases hrefused : a.refused with
  | some e => exact .error (.inl hrefused)
  | none =>
  dsimp only
  obtain ⟨hframe, hwindow⟩ := activeRunStop_framed hoff hlimit
  have hsize := le_trans hframe.le (min_le_left ..)
  have hlim := le_trans hframe.le (min_le_right ..)
  have hkind : ∀ x, x * blockSize < a.runStop off limit → kindOf s a.disk x =
      if bitmapBlockDirty a.bitmap x then if s.payload
        ⟨a.disk, x⟩ then .data else .zero else .hole :=
    fun x hx => by rw [kindOf, hcopies x (lt_of_lt_of_le hx hsize)]
  by_cases hpresent : bitmapBlockDirty a.bitmap (off / blockSize) = true
  · simp only [hpresent, if_true]
    rw [if_neg (not_lt.2 (hwindow hpresent))]
    generalize hn : cellsBelow blockSize (a.runStop off limit) - off / blockSize = n
    cases hquery : b.payloadPresence (off / blockSize) n with
    | error e => exact .error (.inr ⟨hrefused, hpresent, hn ▸ hquery⟩)
    | ok present =>
      obtain rfl := Backing.answers hquery
      refine .ok ?_
      rw [observed_payload hsteady hb fun x hfrom hbefore =>
        lt_of_lt_of_le ((lt_cellsBelow blockSize_pos).1 (by omega)) hsize]
      generalize hp : (fun x => s.payload ⟨a.disk, x⟩) = payload
      have hlen : ((List.range' (off / blockSize) n).map payload).length =
          cellsBelow blockSize (a.runStop off limit) - off / blockSize := by simp [hn]
      have hat : ∀ i < n, ((List.range' (off / blockSize) n).map payload)[i]? =
          some (payload (off / blockSize + i)) := fun i hi => by
        rw [List.getElem?_map, List.getElem?_range' hi, Nat.one_mul]
        rfl
      rw [cut_eq_cutRun hlen]
      obtain ⟨hgt, hle, hsame⟩ := cutRun_framed blockSize_pos hframe.nonempty hlen
      refine ⟨rfl, hgt, le_trans hle hsize, le_trans hle hlim, fun x hfrom hbefore => ?_⟩
      have hcell := (lt_cellsBelow blockSize_pos).2 (lt_of_lt_of_le hbefore hle)
      have hanswer := hsame x hfrom hbefore
      rw [hat _ (by omega), hat 0 (by omega), Nat.add_sub_of_le hfrom, Nat.add_zero] at hanswer
      have hstop := lt_of_lt_of_le hbefore hle
      rw [hkind x hstop, hframe.same x hfrom hstop, if_pos hpresent, hat 0 (by omega), Nat.add_zero,
        show s.payload ⟨a.disk, x⟩ = payload x from congrFun hp x, Option.some.inj hanswer]
      simp only [Option.some.injEq]
  · simp only [hpresent, Bool.false_eq_true, if_false]
    refine .ok ⟨rfl, hframe.nonempty, hsize, hlim, fun x hfrom hbefore => ?_⟩
    rw [hkind x hbefore, hframe.same x hfrom hbefore, if_neg hpresent]

/-- A quiescent block that can be read has the logical contents. -/
theorem block_eq_logical (hq : Quiescent cfg a.disk s) {b : Nat}
    (hb : s.bitmap ⟨a.disk, b⟩ = true) :
    ActiveView.block s ⟨a.disk, b⟩ = s.logical ⟨a.disk, b⟩ := by
  have hkey := hq.inv.key ⟨a.disk, b⟩
  unfold ActiveView.block
  cases hp : s.pages ⟨a.disk, b⟩ with
  | none =>
    rw [hp] at hkey
    exact hkey hb
  | some p =>
    rw [hp] at hkey
    dsimp only
    cases hs : p.state with
    | clean => exact (PageOk.clean hkey hs).content
    | dirty => exact (PageOk.dirty hkey hs).content
    | writeback => exact (PageOk.writeback hkey hs).content
    | loading => exact (PageOk.loading hkey hs).stored
    | constructing =>
      obtain ⟨t, -, hx⟩ := (PageOk.constructing hkey hs).owner
      exact absurd hx (hq.quiet t _ rfl)
    | discarding =>
      obtain ⟨t, -, hx⟩ := (PageOk.discarding hkey hs).owner
      exact absurd hx (hq.quiet t _ rfl)

/-- A block without payload is zero. -/
theorem logical_zero (hq : Quiescent cfg a.disk s) {b : Nat} (hb : s.bitmap ⟨a.disk, b⟩ = true)
    (hpayload : s.payload ⟨a.disk, b⟩ = false) : s.logical ⟨a.disk, b⟩ = zeroBlock := by
  rw [← block_eq_logical hq hb]
  unfold ActiveView.block
  rw [Shared.payload] at hpayload
  cases hp : s.pages ⟨a.disk, b⟩ with
  | none =>
    rw [hp] at hpayload
    exact hq.blank b hpayload
  | some p =>
    rw [hp] at hpayload
    have hkey := hq.inv.key ⟨a.disk, b⟩
    rw [hp] at hkey
    -- a dirty or frozen page without payload is a Zero
    have hzero : p.state = .dirty ∨ p.state = .writeback → p.content = zeroBlock := fun hs => by
      rw [waiting, if_pos hs, payloadOf, Bool.not_eq_false'] at hpayload
      rw [CachePage.content, if_pos hpayload]
    have hbacking : ¬(p.state = .dirty ∨ p.state = .writeback) →
        s.backend ⟨a.disk, b⟩ = zeroBlock := fun hs => by
      rw [waiting, if_neg hs, payloadOf] at hpayload
      exact hq.blank b hpayload
    dsimp only
    cases hs : p.state with
    | dirty => exact hzero (.inl hs)
    | writeback => exact hzero (.inr hs)
    | clean =>
      have hclean := PageOk.clean hkey hs
      exact (hclean.content.trans hclean.stored.symm).trans (hbacking (by simp [hs]))
    | loading | constructing | discarding => exact hbacking (by simp [hs])

variable {x : Nat}

section

variable (hq : Quiescent cfg a.disk s)

include hq

theorem byteAt_eq (hcopies : a.Copies s) (hx : x < a.size) :
    a.byteAt s x =
      if s.bitmap ⟨a.disk, x / blockSize⟩ then (s.logical ⟨a.disk, x / blockSize⟩).at x else 0 := by
  rw [ActiveView.byteAt, hcopies _ (div_mul_lt hx)]
  split
  next hb => rw [block_eq_logical hq hb]
  · rfl

/-- Whatever went on meanwhile, reading delivers what it would have delivered before. -/
theorem byteAt_steady (hq' : Quiescent cfg a.disk s') (hsteady : Steady a.disk s s')
    (hcopies : a.Copies s) (hx : x < a.size) : a.byteAt s' x = a.byteAt s x := by
  rw [byteAt_eq hq' (hcopies.steady hsteady) hx, byteAt_eq hq hcopies hx, hsteady.bitmap,
    hsteady.logical]

theorem byteAt_zero (hcopies : a.Copies s) (hx : x < a.size)
    (h : kindOf s a.disk (x / blockSize) ≠ .data) : a.byteAt s x = 0 := by
  rw [byteAt_eq hq hcopies hx]
  split
  next hb =>
    have hpayload : s.payload ⟨a.disk, x / blockSize⟩ = false := by
      by_contra hp
      refine h ?_
      rw [kindOf, if_pos hb, if_pos (by simpa using hp)]
    rw [logical_zero hq hb hpayload, zeroBlock_at]
  · rfl

theorem runByteAt_eq (hcopies : a.Copies s) {run : Run RunKind}
    (hfits : run.Fits a.size blockSize (kindOf s a.disk) off limit) (hx : run.Contains x) :
    a.runByteAt run s x = a.byteAt s x := by
  rw [ActiveView.runByteAt]
  split
  next hkind =>
    refine (byteAt_zero hq hcopies (lt_of_lt_of_le hx.2 hfits.size) ?_).symm
    rw [hfits.kind (x / blockSize) (Nat.div_le_div_right (hfits.start ▸ hx.1)) (div_mul_lt hx.2)]
    exact hkind
  · rfl

end

end Active

/-! ## All sources -/

section Moments

variable {cfg : Config} {a : ActiveView} {c : Nat → Pool Shared Thread} {b : Nat → Backing}

theorem fits_of_kindOf_eq {κ : Type} {size unit off limit : Nat} {f g : Nat → κ} {run : Run κ}
    (h : ∀ b, f b = g b) (hfits : run.Fits size unit f off limit) :
    run.Fits size unit g off limit :=
  { hfits with kind := fun cell hfrom hbefore => (h cell).symm.trans (hfits.kind cell hfrom hbefore)
    }

/-- Call number `call` of an active export observes the cache at moment `2 * call` and queries the
backend at the next. -/
def activeRuns (a : ActiveView) (c : Nat → Pool Shared Thread) (b : Nat → Backing)
    (call off limit : Nat) :
    Except Failure (Run RunKind) :=
  a.runAt (c (2 * call)).shared (b (2 * call + 1)) off limit

variable (hm : Moments cfg a c b) (hcopies : a.Copies (c 0).shared)

include hm hcopies

theorem activeRuns_meets {call off limit : Nat} (hoff : off < a.size) (hlimit : 0 < limit) :
    Meets (a.RunFails (b (2 * call + 1)) off limit)
      (Run.Fits a.size blockSize (kindOf (c 0).shared a.disk) off limit)
      (activeRuns a c b call off limit) := by
  have hsteady := (hm.at 0).2 (2 * call) (Nat.zero_le _)
  have hmeets := activeRunAt_meets (hcopies.steady hsteady)
    ((hm.at (2 * call)).2 (2 * call + 1) (Nat.le_succ _)) (hm.backing (2 * call + 1)) hoff hlimit
  exact hmeets.mono fun run _ hfits => fits_of_kindOf_eq (fun b => hsteady.kindOf b) hfits

/-- Whatever a read of the view delivers at a moment is what it would have delivered at first. -/
theorem delivered_eq {i : Nat} {r : ReadRecord} {v : Nat → Bool} (hr : r.Ok (c i).shared)
    (hdisk : r.disk = a.disk) (hview : r.view = some v)
    (hv : ∀ b, b * blockSize < a.size → v b = bitmapBlockDirty a.bitmap b) {x : Nat}
    (hlo : r.lo ≤ x) (hhi : x < r.hi) (hx : x < a.size) : r.bytes x = a.byteAt (c 0).shared x := by
  have hsteady := (hm.at 0).2 i (Nat.zero_le _)
  rw [hr x hlo hhi, hview, hdisk, ← byteAt_steady (hm.at 0).1 (hm.at i).1 hsteady hcopies hx,
    byteAt_eq (hm.at i).1 (hcopies.steady hsteady) hx, expected, hv _ (div_mul_lt hx),
    hcopies.steady hsteady _ (div_mul_lt hx)]
  rfl

end Moments

/-- Export runs tile the device. For the active disk this holds of every run of its threads through
states in which nobody holds its blocks for writing. -/
theorem export_runs_tile :
    (∀ v : Version, Exports (fun _ => v.runAt) (fun _ => v.RunFails) v.size pageSize v.kindOf ∧
      ∀ off limit run, off < v.size → 0 < limit → v.runAt off limit = .ok run →
        ∀ len inner, inner + len ≤ run.stop - off →
          v.runReadAt run len inner = v.viewReadAt len (off + inner)) ∧
    (∀ d : DiffFile, Exports (fun _ => d.runAt) (fun _ _ _ _ => False) d.size pageSize d.kindOf ∧
      ∀ off limit, off < d.size → 0 < limit →
        ∃ run, d.runAt off limit = .ok run ∧ (run.kind, run.stop) = d.classify off limit ∧
          ∀ len inner, inner + len ≤ run.stop - off → (d.readAt len (off + inner)).2 = none →
            d.runReadAt run len inner = d.readAt len (off + inner)) ∧
    ∀ (cfg : Config) (a : ActiveView) (c : Nat → Pool Shared Thread) (b : Nat → Backing),
      Moments cfg a c b → a.Copies (c 0).shared →
      Exports (activeRuns a c b) (fun call => a.RunFails (b (2 * call + 1))) a.size blockSize
        (kindOf (c 0).shared a.disk) ∧
      (∀ call off limit run, off < a.size → 0 < limit → activeRuns a c b call off limit = .ok run →
        ∀ i x, run.Contains x → a.runByteAt run (c i).shared x = a.byteAt (c i).shared x ∧
          a.byteAt (c i).shared x = a.byteAt (c 0).shared x) ∧
      ∀ i t c', Pool.Step NoEnv (c i) (some t) c' →
        ∃ new, c'.shared.reads = new ++ (c i).shared.reads ∧
          ∀ r ∈ new, ∀ v, r.disk = a.disk → r.view = some v →
          (∀ b, b * blockSize < a.size → v b = bitmapBlockDirty a.bitmap b) →
          ∀ x, r.lo ≤ x → x < r.hi → x < a.size → r.bytes x = a.byteAt (c 0).shared x := by
  refine ⟨fun v => ⟨.of_runs fun _ off limit hoff hlimit => ?_,
      fun off limit run hoff hlimit hrun len inner hlen => ?_⟩,
    fun d => ⟨.of_runs fun _ off limit hoff hlimit => ?_, fun off limit hoff hlimit => ?_⟩,
    fun cfg a c b hm hcopies => ⟨.of_runs fun call off limit hoff hlimit => ?_,
      fun call off limit run hoff hlimit hrun i x hx => ?_, fun i t c' hs => ?_⟩⟩
  · exact (Version.runAt_meets hoff hlimit).mono fun _ _ h => h.2.1
  · exact Version.runReadAt_eq hoff hlimit hrun hlen
  · rw [DiffFile.runAt_eq hoff hlimit]
    exact .ok (DiffFile.classify_fits hoff hlimit)
  · exact ⟨_, DiffFile.runAt_eq hoff hlimit, rfl, fun len inner hlen hread =>
      DiffFile.runReadAt_eq hoff hlimit (DiffFile.runAt_eq hoff hlimit) hlen hread⟩
  · exact activeRuns_meets hm hcopies hoff hlimit
  · have hfits := (activeRuns_meets hm hcopies hoff hlimit).of_ok hrun
    have hsteady := (hm.at 0).2 i (Nat.zero_le _)
    refine ⟨runByteAt_eq (hm.at i).1 (hcopies.steady hsteady)
      (fits_of_kindOf_eq (fun b => (hsteady.kindOf b).symm) hfits) hx, ?_⟩
    exact byteAt_steady (hm.at 0).1 (hm.at i).1 hsteady hcopies (lt_of_lt_of_le hx.2 hfits.size)
  · obtain ⟨bitmap, backend, mapped, ld, -, hr⟩ := hm.reach_at i
    obtain ⟨new, hnew, hok⟩ := (reach_acts hr hs).guar.reads
    exact ⟨new, hnew, fun r hrec v hdisk hview hv x hlo hhi hx =>
      delivered_eq hm hcopies (hok r hrec) hdisk hview hv hlo hhi hx⟩

/-- Two present blocks, the first one with payload. -/
def sampleFile : DiffFile where
  size := 8192
  bitmap := [3#8]
  payload := [1#64]
  body := ⟨fun _ => List.replicate pageSize 7#8, fun _ => none, fun _ => List.length_replicate⟩
  cipher := none

/-- The disk of the sample run, both blocks of which are present. -/
def sampleView : ActiveView := ⟨0, 8192, [3#64], none⟩

theorem lt_two_of_sample {b : Nat} (hb : b * blockSize < sampleView.size) : b < 2 := by
  have : blockSize = 4096 := by unfold blockSize; rfl
  rw [this] at hb
  change b * 4096 < 8192 at hb
  omega

/-- The worker completes the written page between the two observations, and a store has both
blocks. -/
theorem sample_moments : ∃ c : Nat → Pool Shared Thread,
    Moments sampleConfig sampleView c (fun _ => .store (Version.twoBlocks none)) ∧
      sampleView.Copies (c 0).shared ∧
      activeRuns sampleView c (fun _ => .store (Version.twoBlocks none)) 0 0 8192 = .ok
        ⟨0, 8192, .data⟩ := by
  obtain ⟨⟨c, c', hr, hfrozen, hstep, hclean⟩, -⟩ := sample_reaches
  have quiet : ∀ {s : Shared}, SampleQuiet s → Quiet 0 s := fun h t k hk hx => by
    rw [Excl, Shared.stripe, hk, h.unlocked] at hx
    cases hx
  have hmapped : ∀ b < 2, (Version.twoBlocks none).mapped b = true := by decide +kernel
  have hbits : ∀ b < 2, bitmapBlockDirty sampleView.bitmap b = true := by decide
  have backs : ∀ {s : Shared}, SampleQuiet s →
      sampleView.Backs (.store (Version.twoBlocks none)) s := fun h b hb => by
    have hb := lt_two_of_sample hb
    refine (hmapped b hb).trans ?_
    rcases (by omega : b = 0 ∨ b = 1) with rfl | rfl
    · exact h.mapped.1.symm
    · exact h.mapped.2.symm
  refine ⟨fun i => if i = 0 then c else c',
    ⟨⟨_, _, _, _, fun _ _ => rfl, hr⟩, quiet hfrozen.toSampleQuiet, fun i => ?_, fun i => ?_⟩,
      fun b hb => ?_, ?_⟩
  · by_cases hi : i = 0
    · subst hi
      exact .single ⟨⟨_, hstep⟩, quiet hclean.toSampleQuiet⟩
    · rw [if_neg hi, if_neg (Nat.succ_ne_zero i)]
  · by_cases hi : i = 0
    · subst hi
      exact backs hfrozen.toSampleQuiet
    · rw [if_neg hi]
      exact backs hclean.toSampleQuiet
  · have hb := lt_two_of_sample hb
    refine (hbits b hb).trans ?_
    rcases (by omega : b = 0 ∨ b = 1) with rfl | rfl
    · exact hfrozen.bitmap.1.symm
    · exact hfrozen.bitmap.2.symm
  · obtain ⟨p, hp, hs, hz⟩ := hfrozen.frozen
    have hobserved : sampleView.observe c.shared 0 2 = [none, some false] := by
      simp [ActiveView.observe, sampleView, List.range', hfrozen.absent, hp, waiting, hs, hz]
    have hstop : sampleView.runStop 0 8192 = 8192 := by decide +kernel
    have hcells : cellsBelow blockSize 8192 = 2 := by decide +kernel
    have hquery :
        (Backing.store (Version.twoBlocks none)).payloadPresence 0 2 = .ok [true, true] := by
      decide +kernel
    rw [activeRuns, ActiveView.runAt, if_neg (by decide), if_neg (by decide)]
    simp only [Nat.mul_zero, if_true, Nat.zero_div, hstop, hcells, hobserved, hquery]
    decide +kernel

theorem export_runs_tile_sample :
    (Version.twoBlocks none).runAt 100 5000 = .ok ⟨100, 5100, .data⟩ ∧
      Run.Fits 8192 pageSize (Version.twoBlocks none).kindOf 100 5000 ⟨100, 5100, .data⟩ ∧
    sampleFile.runAt 0 8192 = .ok ⟨0, 4096, .data⟩ ∧
      Run.Fits 8192 pageSize sampleFile.kindOf 0 8192 ⟨0, 4096, .data⟩ ∧
    ∃ c, activeRuns sampleView c (fun _ => .store (Version.twoBlocks none)) 0 0 8192 = .ok
      ⟨0, 8192, .data⟩ ∧
      Run.Fits 8192 blockSize (kindOf (c 0).shared 0) 0 8192 ⟨0, 8192, .data⟩ := by
  have hview : (Version.twoBlocks none).runAt 100 5000 = .ok ⟨100, 5100, .data⟩ := by decide +kernel
  have hfile : sampleFile.runAt 0 8192 = .ok ⟨0, 4096, .data⟩ := by decide +kernel
  obtain ⟨c, hm, hcopies, hactive⟩ := sample_moments
  obtain ⟨htileView, htileFile, htileActive⟩ := export_runs_tile
  refine ⟨hview, ?_, hfile, ?_, c, hactive, ?_⟩
  · exact ((htileView (Version.twoBlocks none)).1.runs 0 100 5000 (by decide) (by decide)).of_ok
      hview
  · exact ((htileFile sampleFile).1.runs 0 0 8192 (by decide) (by decide)).of_ok hfile
  · exact ((htileActive _ _ c _ hm hcopies).1.runs 0 0 8192 (by decide) (by decide)).of_ok hactive

end Sandboxer.Export
