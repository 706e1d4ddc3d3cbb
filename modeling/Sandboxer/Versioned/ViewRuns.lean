import Sandboxer.Versioned.SubRange
import Sandboxer.Versioned.Reads
import Sandboxer.Diffstore.Blocks
import Sandboxer.Lib.Runs

/-! # Export runs of a view

`View.RunAt` and the reads of the runs it returns (`view.go`). A run ends with
its limit, after 256 pages of payload, where logical presence changes and where
blocks with a slot and blocks without one meet. -/
namespace Sandboxer.Versioned.Version

open Lib.Outcomes Lib.Runs
open Diffstore (RunKind)
open Presence (has runEnd runEnd_ends)

variable (v : Version)

def mapped (block : Nat) : Bool :=
  match v.slotOf block with
  | .ok slot => slot ≠ 0
  | .error _ => false

/-- What an export makes of a block. -/
def kindOf (block : Nat) : RunKind :=
  if has v.presence block then if v.mapped block then .data else .zero else .hole

/-- `mapped[:pages]`, an array of fixed size cut to the pages of the run. -/
def mappedPages (block pages : Nat) : Except Failure (List Bool) :=
  if maxPresencePages < pages then .error .panic
  else if v.root = 0 then .ok (List.replicate pages false)
  else (payloadPresence v.index v.root block (block + pages)).map Report.present

/-- The end of the run at `off` as limit, window and logical presence have it. -/
def runStop (off limit : Nat) : Nat :=
  frameStop pageSize maxPresencePages (has v.presence (off / pageSize))
    (runEnd v.presence (off / pageSize)) off
    (if limit < v.size - off then off + limit else v.size)

/-- `View.RunAt`. -/
def runAt (off limit : Nat) : Except Failure (Run RunKind) :=
  match v.refused with
  | some e => .error e
  | none =>
    if v.size ≤ off then .error .eof
    else if limit = 0 then .error (.request "diffstore: zero run limit")
    else
      let block := off / pageSize
      let stop := v.runStop off limit
      if has v.presence block then do
        let mapped ← v.mappedPages block (cellsBelow pageSize stop - block)
        .ok ⟨off, cutRun pageSize off stop mapped, if mapped[0]? = some true then .data else .zero⟩
      else .ok ⟨off, stop, .hole⟩

/-- `viewRun.ReadAt`. -/
def runReadAt (run : Run RunKind) (len inner : Nat) : Outcome :=
  if run.stop - run.off < inner ∨ run.stop - run.off - inner < len then
    ([], some (.request "diffstore: read outside export run"))
  else if run.kind ≠ .data then (List.replicate len 0, none)
  else v.viewReadAt len (run.off + inner)

variable {v}

/-! ## The runs -/

variable {off limit : Nat}

theorem runStop_framed (hoff : off < v.size) (hlimit : 0 < limit) :
    Framed pageSize (has v.presence) off (min v.size (off + limit)) (v.runStop off limit) ∧
    (has v.presence (off / pageSize) = true →
      cellsBelow pageSize (v.runStop off limit) - off / pageSize ≤ maxPresencePages) := by
  have hcut :
      (if limit < v.size - off then off + limit else v.size) = min v.size (off + limit) := by
    split <;> omega
  rw [runStop, hcut]
  exact frameStop_framed pageSize_pos (by decide) (by omega) fun cells hcells =>
    runEnd_ends v.presence hcells

theorem mapped_eq_true {block : Nat} :
    v.mapped block = true ↔ ∃ slot, slot ≠ 0 ∧ lookup (inspectNode v.index) v.root block =
      .ok slot := by
  unfold mapped slotOf
  split
  next slot h =>
    rw [h, decide_eq_true_iff]
    refine ⟨fun hne => ⟨slot, hne, rfl⟩, ?_⟩
    rintro ⟨_, hne, ⟨⟩⟩
    exact hne
  next e h =>
    rw [h]
    exact ⟨nofun, fun ⟨_, _, h⟩ => nomatch h⟩

/-- Why a block reads as zeros, and what that takes. -/
structure Blank (v : Version) (block : Nat) : Prop where
  slot : v.slotOf block = .ok 0
  neighbours : v.validateAbsent block = .ok ()

/-- The answers of a range query: one for each page, and what a read of a page without a
slot comes to. -/
structure Answered (v : Version) (block pages : Nat) (mapped : List Bool) : Prop where
  length : mapped.length = pages
  agrees : ∀ i < pages, mapped[i]? = some (v.mapped (block + i))
  blank : ∀ i < pages, v.mapped (block + i) = false → v.Blank (block + i)

theorem mappedPages_meets {block pages : Nat} (hpages : pages ≤ maxPresencePages) :
    Meets (fun e => v.root ≠ 0 ∧ payloadPresence v.index v.root block (block + pages) = .error e)
      (v.Answered block pages) (v.mappedPages block pages) := by
  rw [mappedPages, if_neg (by omega)]
  by_cases hroot : v.root = 0
  · rw [if_pos hroot]
    have hslot : ∀ b, v.slotOf b = .ok 0 := fun b => by rw [slotOf, hroot]; rfl
    have hmapped : ∀ b, v.mapped b = false := fun b => by simp [mapped, hslot]
    refine .ok
      ⟨List.length_replicate, fun i hi => ?_,
      fun i _ _ => ⟨hslot _, by rw [validateAbsent, if_pos hroot]⟩⟩
    rw [hmapped, List.getElem?_replicate_of_lt hi]
  · rw [if_neg hroot]
    cases hrep : payloadPresence v.index v.root block (block + pages) with
    | error e => exact .error ⟨hroot, rfl⟩
    | ok rep =>
      have htrust := (payloadPresence_meets v.index v.root block (block + pages)).of_ok hrep
      have hchecks := inspectNode_checks v.index
      have hentered : Entered (inspectNode v.index) block (block + pages) maxDepth v.root 0
          (v.index.total - 1) :=
        ⟨_, _, hrep⟩
      have hlen : rep.present.length = pages := by rw [htrust.length, Nat.add_sub_cancel_left]
      refine .ok ⟨hlen, fun i hi => ?_, fun i hi hmapped => ⟨?_, ?_⟩⟩
      · have hagrees := htrust.agrees (block + i) (by omega) (by omega)
        rw [Nat.add_sub_cancel_left, ← mapped_eq_true] at hagrees
        obtain ⟨b, hb⟩ : ∃ b, rep.present[i]? = some b := ⟨_, List.getElem?_eq_getElem (by omega)⟩
        rw [hb] at hagrees ⊢
        rw [Option.some.injEq, Bool.eq_iff_iff]
        rwa [Option.some.injEq] at hagrees
      · obtain ⟨found, hfound⟩ := hentered.lookup hchecks (k := block + i) (by omega)
          (by omega) _ _ _ _ (Nat.zero_le _)
        by_cases hzero : found = 0
        · rw [slotOf, lookup, hfound, hzero]
        · rw [mapped_eq_true.2 ⟨found, hzero, hfound⟩] at hmapped
          cases hmapped
      · obtain ⟨rep', hrep'⟩ := hentered.narrow hchecks (block + i) (block + i + 1) (by omega)
          (by omega) (by omega)
          maxDepth le_rfl v.root 0 (v.index.total - 1)
          ⟨List.replicate (block + i + 1 - (block + i)) false, []⟩ (by omega) List.length_replicate
        rw [validateAbsent, if_neg hroot, payloadPresence, hrep']
        rfl

/-- The blocks of a run that has no payload: absent, or without a slot. -/
def ReadsZero (v : Version) (block : Nat) : Prop := has v.presence block = false ∨ v.Blank block

/-- How `View.RunAt` fails: the view is refused, or the query for the blocks of the run fails. -/
def RunFails (v : Version) (off limit : Nat) (e : Failure) : Prop :=
  v.refused = some e ∨ v.refused = none ∧ has v.presence (off / pageSize) = true ∧ v.root ≠ 0 ∧
    payloadPresence v.index v.root (off / pageSize) (cellsBelow pageSize (v.runStop off limit)) =
      .error e

theorem runAt_meets (hoff : off < v.size) (hlimit : 0 < limit) :
    Meets (v.RunFails off limit)
      (fun run => v.refused = none ∧ run.Fits v.size pageSize v.kindOf off limit ∧
        (run.kind ≠ .data → ∀ block, off / pageSize ≤ block → block * pageSize < run.stop →
          v.ReadsZero block))
      (v.runAt off limit) := by
  rw [runAt]
  cases hrefused : v.refused with
  | some e => exact .error (.inl hrefused)
  | none =>
    rw [if_neg (by omega), if_neg (by omega)]
    obtain ⟨hframe, hwindow⟩ := runStop_framed hoff hlimit
    have hsize := le_trans hframe.le (min_le_left ..)
    have hlim := le_trans hframe.le (min_le_right ..)
    by_cases hhas : has v.presence (off / pageSize) = true
    · rw [if_pos hhas]
      have hlt := (lt_cellsBelow pageSize_pos).2 (div_mul_lt hframe.nonempty)
      refine .bind ((mappedPages_meets (hwindow hhas)).weaken fun e he => ?_)
        fun mapped _ hanswered => ?_
      · rw [Nat.add_sub_of_le (le_of_lt hlt)] at he
        exact .inr ⟨hrefused, hhas, he⟩
      obtain ⟨hgt, hle, hsame⟩ := cutRun_framed pageSize_pos hframe.nonempty hanswered.length
      have hzero := hanswered.agrees 0 (by omega)
      rw [Nat.add_zero] at hzero
      -- within the cut all blocks are present and answer alike
      have hblock : ∀ block, off / pageSize ≤ block → block * pageSize < cutRun pageSize off
          (v.runStop off limit) mapped →
          has v.presence block = true ∧ v.mapped block = v.mapped (off / pageSize) ∧
            (v.mapped block = false → v.Blank block) := fun block hfrom hbefore => by
        have hcell := (lt_cellsBelow pageSize_pos).2 (lt_of_lt_of_le hbefore hle)
        have hat := hanswered.agrees (block - off / pageSize) (by omega)
        have hblank := hanswered.blank (block - off / pageSize) (by omega)
        rw [Nat.add_sub_of_le hfrom] at hat hblank
        rw [hsame block hfrom hbefore, hzero] at hat
        exact ⟨(hframe.same block hfrom (by omega)).trans hhas, (Option.some.inj hat).symm, hblank⟩
      refine .ok
        ⟨rfl, ⟨rfl, hgt, le_trans hle hsize, le_trans hle hlim, fun block hfrom hbefore => ?_⟩,
        fun hkind block hfrom hbefore => ?_⟩
      · obtain ⟨hpresent, hmapped, -⟩ := hblock block hfrom hbefore
        rw [kindOf, if_pos hpresent, hmapped, hzero]
        simp only [Option.some.injEq]
      obtain ⟨-, hmapped, hblank⟩ := hblock block hfrom hbefore
      refine .inr (hblank ?_)
      rw [hmapped]
      by_contra htrue
      refine hkind (if_pos ?_)
      rw [hzero, Bool.not_eq_false _ |>.mp htrue]
    · rw [if_neg hhas]
      have habsent : ∀ block, off / pageSize ≤ block → block * pageSize < v.runStop off limit →
          has v.presence block = false := fun block hfrom hbefore =>
        (hframe.same block hfrom hbefore).trans (Bool.not_eq_true _ |>.mp hhas)
      refine .ok ⟨rfl, ⟨rfl, hframe.nonempty, hsize, hlim, fun block hfrom hbefore => ?_⟩,
        fun _ block hfrom hbefore => .inl (habsent block hfrom hbefore)⟩
      rw [kindOf, habsent block hfrom hbefore]
      rfl

/-! ## Reading a run -/

theorem readLoop_zero (run : (slot block inner remaining : Nat) → Delivery) (fuel : Nat) :
    ∀ pos remaining : Nat, remaining ≤ fuel →
      (∀ block, pos / pageSize ≤ block → block * pageSize < pos + remaining → v.ReadsZero block) →
      v.readLoop run fuel pos remaining = (List.replicate remaining 0, none) := by
  induction fuel with
  | zero =>
    intro pos remaining hfuel _
    obtain rfl := Nat.le_zero.1 hfuel
    rfl
  | succ fuel ih =>
    intro pos remaining hfuel hzero
    cases remaining with
    | zero => rfl
    | succ remaining =>
      have hmod : pos % pageSize < pageSize := Nat.mod_lt _ pageSize_pos
      generalize hn : min (remaining + 1) (pageSize - pos % pageSize) = n
      have hstep :
          Outcome.after (List.replicate n 0) (v.readLoop run fuel (pos + n) (remaining + 1 - n)) =
          (List.replicate (remaining + 1) 0, none) := by
        have hmono : pos / pageSize ≤ (pos + n) / pageSize := Nat.div_le_div_right (by omega)
        rw [ih (pos + n) (remaining + 1 - n) (by omega) fun block hfrom hbefore =>
          hzero block (le_trans hmono hfrom) (by omega)]
        rw [Outcome.after, List.replicate_append_replicate, Nat.add_sub_of_le (by omega)]
      have hblock := hzero (pos / pageSize) le_rfl (div_mul_lt (by omega))
      rw [readLoop]
      simp only [hn]
      rcases hblock with habsent | hblank
      · rw [habsent, if_neg Bool.false_ne_true, hstep]
      by_cases hhas : has v.presence (pos / pageSize) = true
      · rw [if_pos hhas, hblank.slot]
        dsimp only
        rw [if_pos rfl, hblank.neighbours]
        exact hstep
      · rw [if_neg hhas, hstep]

/-- Reading through a run is reading the view at the same place. -/
theorem runReadAt_eq (hoff : off < v.size) (hlimit : 0 < limit) {run : Run RunKind}
    (hrun : v.runAt off limit = .ok run) {len inner : Nat} (hlen : inner + len ≤ run.stop - off) :
    v.runReadAt run len inner = v.viewReadAt len (off + inner) := by
  obtain ⟨hrefused, hfits, hzero⟩ := (runAt_meets hoff hlimit).of_ok hrun
  obtain ⟨hstart, hne, hsize, -, -⟩ := hfits
  rw [runReadAt, hstart, if_neg (by omega)]
  by_cases hkind : run.kind = .data
  · rw [if_neg (not_not_intro hkind)]
  rw [if_pos hkind, viewReadAt, readAt, hrefused]
  rw [if_neg (by omega)]
  by_cases h0 : len = 0
  · rw [if_pos h0, h0]
    rfl
  rw [if_neg h0, if_neg (by omega), min_eq_left (by omega)]
  have hmono : off / pageSize ≤ (off + inner) / pageSize := Nat.div_le_div_right (by omega)
  rw [readLoop_zero _ _ _ _ le_rfl fun block hfrom hbefore =>
    hzero hkind block (le_trans hmono hfrom) (by omega), Outcome.finish]
  simp

end Sandboxer.Versioned.Version
