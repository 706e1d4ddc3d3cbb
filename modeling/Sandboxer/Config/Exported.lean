import Sandboxer.Config.Valid
import Sandboxer.Lib.Layers

/-! # An exported disk graph has the contents of the running disks

References name layers, and the layers of a chain resolve top-down with only
holes falling through. A capture of a disk is its active diff, or the diff merged
with the layer directly below. With the captures bound to the new references,
every disk of an exported graph has the bytes that the running disk had. -/
namespace Sandboxer.Config.Portable

open Lib.Outcomes
open Lib.Layers

/-! ## Contents -/

/-- The contents of a disk at one offset. -/
structure DiskView where
  /-- The read-only image below an overlay. -/
  image : Option (Option UInt8)
  /-- The writable device. -/
  device : Option UInt8
deriving DecidableEq

/-- The references a reader of a chain opens; none without a base. -/
def chain (base : String) (refs : List String) : List String :=
  if base = "" then [] else base :: refs

/-- The chain of the writable device: of the upper in an overlay. -/
def RootConfig.writable (root : RootConfig) : List String :=
  match root.overlay with
  | none => chain root.base root.baseFromRefs
  | some overlay => chain overlay.base overlay.baseFromRefs

abbrev Contents := String → Layer Nat UInt8

variable (store : Contents)

/-- A reference of a graph whose self is bound to a layer. -/
def content (self : Layer Nat UInt8) (ref : String) : Layer Nat UInt8 :=
  if ref = "self" then self else store ref

/-- A disk of a graph whose self is bound to a layer. -/
def view (self : Layer Nat UInt8) (root : RootConfig) (off : Nat) : DiskView where
  image := root.overlay.map fun _ => content store self root.base off
  device := stack (root.writable.map (content store self)) off

/-- A reference in a run: self is the parent Sandbox, and the position of the active
diff in a run without one. -/
def bound (parent ref : String) : Option String :=
  if ref = "self" then if parent = "" then none else some parent else some ref

/-- The references below the active diff of a run. -/
def oldChain (parent : String) (root : RootConfig) : List String :=
  root.writable.filterMap (bound parent)

def oldSelf (parent : String) : Layer Nat UInt8 :=
  if parent = "" then hole else store parent

/-- A disk of the run: the active diff over the old chain. -/
def running (parent : String) (diff : Layer Nat UInt8) (root : RootConfig) (off : Nat) :
    DiskView where
  image := root.overlay.map fun _ => content store (oldSelf store parent) root.base off
  device := diff.over (stack ((oldChain parent root).map store)) off

/-- The layer directly below the active diff. -/
def directParent (refs : List String) : Layer Nat UInt8 :=
  refs.head?.elim hole store

/-- The payload of a capture, over the chain `refs` of the run. -/
def payload (merged : Bool) (diff : Layer Nat UInt8) (refs : List String) : Layer Nat UInt8 :=
  if merged then diff.over (directParent store refs) else diff

/-! ## Payloads over their chains -/

section Payloads

variable {store : Contents} {merged : Bool} {diff top : Layer Nat UInt8} {refs : List String}
    {off : Nat}

/-- A captured payload can stay above the layer that it has absorbed. -/
theorem payload_over (h : top off = payload store merged diff refs off) :
    top.over (stack (refs.map store)) off = diff.over (stack (refs.map store)) off := by
  have hover : top.over (stack (refs.map store)) off =
      (payload store merged diff refs).over (stack (refs.map store)) off := by
    simp only [Layer.over, h]
  rw [hover]
  unfold payload
  split
  · cases refs with
    | nil => rw [directParent, List.head?_nil, Option.elim_none, over_hole]
    | cons ref refs =>
      rw [directParent, List.head?_cons, Option.elim_some, List.map_cons, stack_cons, over_assoc,
        over_self_over]
  · rfl

/-- A payload that has absorbed the layer below replaces it. -/
theorem merged_over_tail (h : top off = payload store true diff refs off) :
    top.over (stack (refs.tail.map store)) off = diff.over (stack (refs.map store)) off := by
  rw [← payload_over h]
  cases refs with
  | nil => rfl
  | cons ref refs =>
    refine (over_of_covered fun htop => ?_).symm
    rw [htop, payload, if_pos rfl, directParent, List.head?_cons, Option.elim_some, Layer.over] at h
    exact (Option.or_eq_none_iff.1 h.symm).2

end Payloads

/-! ## Chains -/

section Chains

variable {store : Contents} {self diff : Layer Nat UInt8} {merged rootDisk : Bool}
  {parent base top : String} {refs : List String} {off : Nat}

theorem filterMap_bound (h : ∀ ref ∈ refs, ref ≠ "self") :
    refs.filterMap (bound parent) = refs := by
  have hsome : ∀ ref ∈ refs, bound parent ref = some ref := fun ref hmem => if_neg (h ref hmem)
  rw [List.filterMap_congr hsome, List.filterMap_some]

/-- A chain without self is bound as it is. -/
theorem filterMap_bound_chain (h : ChainValid rootDisk base refs) (hbase : base ≠ "self") :
    (chain base refs).filterMap (bound parent) = chain base refs := by
  refine filterMap_bound fun ref hmem => ?_
  unfold chain at hmem
  split at hmem
  · exact absurd hmem List.not_mem_nil
  · rcases List.mem_cons.1 hmem with rfl | hmem
    · exact hbase
    · exact h.refs_ne ref hmem

/-- A chain below self is bound to the parent over it. -/
theorem filterMap_bound_self (h : ∀ ref ∈ refs, ref ≠ "self") :
    (chain "self" refs).filterMap (bound parent) = if parent =
      "" then refs else parent :: refs := by
  rw [chain, if_neg (by decide), List.filterMap_cons, filterMap_bound h, bound, if_pos rfl]
  by_cases hparent : parent = ""
  · rw [if_pos hparent, if_pos hparent]
  · rw [if_neg hparent, if_neg hparent]

/-- A chain of a graph: its top over the layers below. -/
theorem stack_chain (htop : top ≠ "") (h : ∀ ref ∈ refs, ref ≠ "self") :
    stack ((chain top refs).map (content store self)) =
      (content store self top).over (stack (refs.map store)) := by
  rw [chain, if_neg htop, List.map_cons, stack_cons,
    List.map_congr_left (f := content store self) fun ref hmem => if_neg (h ref hmem)]

/-- A base that comes first again. -/
theorem stack_prependUniqueRef (h : base = "" → refs = []) :
    stack ((prependUniqueRef base refs).map store) = stack ((chain base refs).map store) := by
  unfold prependUniqueRef chain
  split <;> rename_i hbase
  · rw [h hbase]
  · exact stack_cons_filter_ne store base refs

theorem stack_withoutPortableRef (top : String) (refs : List String) (off : Nat) :
    (store top).over (stack ((withoutPortableRef refs top).map store)) off =
      (store top).over (stack (refs.map store)) off := by
  refine over_stack_filter (store top) store _ refs off fun ref _ href htop => ?_
  obtain rfl : ref = top := by simpa using href
  exact htop

/-- The root: a new self over the parent, if it is not merged, and the old chain. -/
theorem self_resolves (hrefs : ∀ ref ∈ refs, ref ≠ "self")
    (hnew : ∀ ref ∈ (if parent ≠ "" ∧ merged = false then prependUniqueRef parent refs else refs),
      ref ≠ "self")
    (hself : self off = payload store merged diff ((chain "self" refs).filterMap (bound parent))
      off) :
    stack ((chain "self" (if parent ≠ "" ∧ merged = false then prependUniqueRef parent refs
        else refs)).map (content store self)) off =
      diff.over (stack (((chain "self" refs).filterMap (bound parent)).map store)) off := by
  rw [stack_chain (by decide) hnew, content, if_pos rfl]
  rw [filterMap_bound_self hrefs] at hself ⊢
  by_cases hparent : parent = ""
  · rw [if_pos hparent] at hself ⊢
    rw [if_neg fun h => h.1 hparent]
    exact payload_over hself
  rw [if_neg hparent] at hself ⊢
  cases merged with
  | false =>
    rw [if_pos ⟨hparent, rfl⟩, stack_prependUniqueRef fun h => absurd h hparent, chain,
      if_neg hparent]
    exact payload_over hself
  | true =>
    rw [if_neg fun h => Bool.false_ne_true h.2.symm]
    exact merged_over_tail hself

/-- A data disk: the captured reference over the base, if it is not merged, and the old chain. -/
theorem captured_resolves (h : ChainValid false base refs) (htop : top ≠ "" ∧ top ≠ "self")
    (hnew : ∀ ref ∈ exportedRefs top merged base refs, ref ≠ "self")
    (hself : store top off = payload store merged diff (chain base refs) off) :
    stack ((chain top (exportedRefs top merged base refs)).map (content store self)) off =
      diff.over (stack ((chain base refs).map store)) off := by
  rw [stack_chain htop.1 hnew, content, if_neg htop.2, exportedRefs, stack_withoutPortableRef]
  by_cases hbase : base = ""
  · rw [if_neg fun hc => hc.1 hbase, h.refs_nil hbase]
    rw [chain, if_pos hbase] at hself ⊢
    exact payload_over hself
  cases merged with
  | false =>
    rw [if_pos ⟨hbase, rfl⟩, stack_prependUniqueRef h.refs_nil]
    exact payload_over hself
  | true =>
    rw [if_neg fun hc => Bool.false_ne_true hc.2.symm]
    rw [chain, if_neg hbase] at hself ⊢
    exact merged_over_tail hself

/-- A Checkpoint disk: the new top over the whole old chain. -/
theorem materialized_resolves (h : ChainValid rootDisk base refs) (htop : top ≠ "")
    (hnew : ∀ ref ∈ prependUniqueRef base refs, ref ≠ "self")
    (hself : content store self top off = payload store merged diff (chain base refs) off) :
    stack ((chain top (prependUniqueRef base refs)).map (content store self)) off =
      diff.over (stack ((chain base refs).map store)) off := by
  rw [stack_chain htop hnew, stack_prependUniqueRef h.refs_nil]
  exact payload_over hself

end Chains

/-! ## Disks -/

section Disks

variable {store : Contents} {self diff : Layer Nat UInt8} {merged rootDisk : Bool}
  {parent top : String} {root root' : RootConfig} {off : Nat}

/-- An image that is not self is the same in the run and in the new graph. -/
theorem image_content {base : String} (h : base ≠ "self") :
    content store self base off = content store (oldSelf store parent) base off := by
  rw [content, content, if_neg h, if_neg h]

theorem exportRoot_view (h : exportRoot parent merged root = .ok root') (hroot : root.Valid true)
    (hroot' : root'.Valid true)
    (himage : ∀ overlay, root'.overlay = some overlay → overlay.base = "self" → root'.base ≠ "self")
    (hself : self off = payload store merged diff (oldChain parent root) off) :
    view store self root' off = running store parent diff root off := by
  obtain ⟨base, refs, overlay⟩ := root
  unfold exportRoot at h
  cases overlay with
  | none =>
    by_cases hbase : base = "self"
    · subst hbase
      cases h
      have hdevice := self_resolves hroot.lower.refs_ne hroot'.lower.refs_ne hself
      rw [view, running]
      exact congrArg (DiskView.mk none) hdevice
    · simp only [hbase, if_false] at h
      cases h
  | some overlay =>
    have hupper := hroot.upper overlay rfl
    by_cases hbase : base = "self"
    · -- self is the image, and the upper has no layers yet
      have hempty : overlay.base = "" := hroot.image overlay rfl rfl hbase
      have hrefs := hupper.refs_nil hempty
      subst hbase
      simp only [if_true, hempty] at h
      cases h
      have hne := himage _ rfl rfl
      have hstacked : parent ≠ "" ∧ merged = false := by
        by_contra hstacked
        rw [if_neg hstacked] at hne
        exact hne rfl
      simp only [if_pos hstacked] at hne
      have hwritable : RootConfig.writable ⟨"self", refs, some overlay⟩ = [] := if_pos hempty
      have hold : oldChain parent ⟨"self", refs, some overlay⟩ = [] := by
        rw [oldChain, hwritable, List.filterMap_nil]
      rw [hold] at hself
      rw [view, running, hold]
      congr 1
      · simp only [if_pos hstacked, Option.map_some]
        rw [content, if_neg hne, content, if_pos rfl, oldSelf, if_neg hstacked.1]
      · simp only [RootConfig.writable, hrefs]
        rw [stack_chain (by decide) fun _ hmem => absurd hmem List.not_mem_nil, content, if_pos rfl]
        exact payload_over hself
    · by_cases hup : overlay.base = "self"
      · simp only [hbase, hup, if_false, if_true] at h
        cases h
        obtain ⟨obase, orefs⟩ := overlay
        cases hup
        have hdevice := self_resolves hupper.refs_ne (hroot'.upper _ rfl).refs_ne hself
        rw [view, running]
        exact congrArg₂ DiskView.mk (congrArg some (image_content hbase)) hdevice
      · simp only [hbase, hup, if_false] at h
        cases h

theorem exportDisk_view (hdisk : root.Valid false)
    (hdisk' : (exportDisk top merged root).Valid false) (htop : top ≠ "" ∧ top ≠ "self")
    (hself : store top off = payload store merged diff (oldChain parent root) off) :
    view store self (exportDisk top merged root) off = running store parent diff root off := by
  obtain ⟨base, refs, overlay⟩ := root
  cases overlay with
  | none =>
    have hold : oldChain parent ⟨base, refs, none⟩ = chain base refs :=
      filterMap_bound_chain hdisk.lower (hdisk.lower.base_ne rfl)
    rw [hold] at hself
    rw [view, running, hold]
    exact congrArg (DiskView.mk none)
      (captured_resolves hdisk.lower htop hdisk'.lower.refs_ne hself)
  | some overlay =>
    have hupper := hdisk.upper overlay rfl
    have hold :
        oldChain parent ⟨base, refs, some overlay⟩ = chain overlay.base overlay.baseFromRefs :=
      filterMap_bound_chain hupper (hupper.base_ne rfl)
    rw [hold] at hself
    rw [view, running, hold]
    exact congrArg₂ DiskView.mk (congrArg some (image_content (hdisk.lower.base_ne rfl)))
      (captured_resolves hupper htop (hdisk'.upper _ rfl).refs_ne hself)

theorem setTop_view (hdisk : root.Valid rootDisk) (hdisk' : (setTop root top).Valid rootDisk)
    (hself : "self" ∉ root.positions) (htop : top ≠ "")
    (hpayload : content store self top off = payload store merged diff (oldChain parent root) off) :
    view store self (setTop root top) off = running store parent diff root off := by
  obtain ⟨base, refs, overlay⟩ := root
  have hbase : base ≠ "self" := fun h => hself (List.mem_append_left _ (h ▸ (.head _)))
  cases overlay with
  | none =>
    have hold : oldChain parent ⟨base, refs, none⟩ = chain base refs :=
      filterMap_bound_chain hdisk.lower hbase
    rw [hold] at hpayload
    rw [view, running, hold]
    exact congrArg (DiskView.mk none)
      (materialized_resolves hdisk.lower htop hdisk'.lower.refs_ne hpayload)
  | some overlay =>
    have hupper := hdisk.upper overlay rfl
    have hubase : overlay.base ≠ "self" := fun h => hself (List.mem_append_right _ (h ▸ (.head _)))
    have hold :
        oldChain parent ⟨base, refs, some overlay⟩ = chain overlay.base overlay.baseFromRefs :=
      filterMap_bound_chain hupper hubase
    rw [hold] at hpayload
    rw [view, running, hold]
    exact congrArg₂ DiskView.mk (congrArg some (image_content hbase))
      (materialized_resolves hupper htop (hdisk'.upper _ rfl).refs_ne hpayload)

end Disks

/-! ## Graphs -/

section Graphs

variable {ρ : Type} {lib : Library ρ} {store : Contents} {self : Layer Nat UInt8}
  {diffs : Nat → Layer Nat UInt8}
  {p c1 : SandboxConfig ρ} {parent : String} {dataRefs : List String} {merged : List Bool}
  {off : Nat}

def canonicalRef (lib : Library ρ) (raw : String) : String :=
  match portableArtifactRef lib raw with
  | .ok ref => ref
  | .error _ => ""

theorem canonicalRef_eq {raw ref : String} {wrap : String → String}
    (h : (portableArtifactRef lib raw).mapError wrap = .ok ref) : canonicalRef lib raw = ref := by
  rw [canonicalRef, mapError_eq_ok h]

/-- The new self is the captured payload of the root, and the data references are those
of the data disks. -/
structure Captures (lib : Library ρ) (store : Contents) (p : SandboxConfig ρ) (parent : String)
    (dataRefs : List String) (merged : List Bool) (diffs : Nat → Layer Nat UInt8)
    (newSelf : Layer Nat UInt8) (off : Nat) : Prop where
  root : newSelf off = payload store (merged.getD 0 false) (diffs 0) (oldChain parent p.root) off
  disks : ∀ i disk raw, p.disks[i]? = some disk → dataRefs[i]? = some raw →
    store (canonicalRef lib raw) off =
      payload store (merged.getD (i + 1) false) (diffs (i + 1))
        (oldChain parent disk.toRootConfig) off

/-- Every disk of the new graph has the contents of the running disk, and the rest is the same. -/
structure Resolves (store : Contents) (p c1 : SandboxConfig ρ) (parent : String)
    (diffs : Nat → Layer Nat UInt8) (newSelf : Layer Nat UInt8) (off : Nat) : Prop where
  root : view store newSelf c1.root off = running store parent (diffs 0) p.root off
  length : c1.disks.length = p.disks.length
  disks : ∀ i disk, p.disks[i]? = some disk → ∃ disk', c1.disks[i]? = some disk' ∧
    disk'.name = disk.name ∧
    view store newSelf disk'.toRootConfig off = running store parent
      (diffs (i + 1)) disk.toRootConfig off
  rest : c1.rest = p.rest

theorem exportDisks_ok {start : Nat} {disks disks' : List DiskConfig} {raws : List String}
    {mergeds : List Bool}
    (h : exportDisks lib start disks raws mergeds = .ok disks') (hraws : raws.length = disks.length)
    (hmergeds : mergeds.length = disks.length) :
    disks'.length = disks.length ∧ ∀ (i : Nat) (disk : DiskConfig), disks[i]? = some disk →
      ∃ raw, raws[i]? = some raw ∧
      (canonicalRef lib raw ≠ "" ∧ canonicalRef lib raw ≠ "self") ∧ disks'[i]? =
        some ⟨exportDisk (canonicalRef lib raw) (mergeds.getD i false) disk.toRootConfig,
          disk.name⟩ := by
  induction disks generalizing start disks' raws mergeds with
  | nil =>
    cases h
    exact ⟨rfl, nofun⟩
  | cons disk disks ih =>
    obtain ⟨raw, raws, rfl⟩ := List.exists_cons_of_length_eq_add_one hraws
    obtain ⟨m, mergeds, rfl⟩ := List.exists_cons_of_length_eq_add_one hmergeds
    obtain ⟨captured, hcaptured, h⟩ := bind_eq_ok.1 h
    obtain ⟨_, hne, h⟩ := bind_eq_ok.1 h
    obtain ⟨rest, hrest, h⟩ := bind_eq_ok.1 h
    cases h
    have hcanonical := canonicalRef_eq hcaptured
    obtain ⟨hlength, ih⟩ := ih hrest (Nat.succ_inj.1 hraws) (Nat.succ_inj.1 hmergeds)
    refine ⟨congrArg Nat.succ hlength, fun i d hi => ?_⟩
    cases i with
    | zero =>
      cases hi
      rw [← hcanonical] at hne ⊢
      exact ⟨raw, rfl, not_or.1 (reject_eq_ok.1 hne), rfl⟩
    | succ i => exact ih i d hi

theorem materializeDisks_ok {start : Nat} {disks disks' : List DiskConfig} {raws : List String}
    (h : materializeDisks lib start disks raws = .ok disks') (hraws : raws.length = disks.length) :
    disks'.length = disks.length ∧ ∀ (i : Nat) (disk : DiskConfig), disks[i]? = some disk →
      ∃ raw, raws[i]? = some raw ∧ (canonicalRef lib raw ≠ "" ∧ canonicalRef lib raw ≠ "self") ∧
      disks'[i]? = some ⟨setTop disk.toRootConfig (canonicalRef lib raw), disk.name⟩ := by
  induction disks generalizing start disks' raws with
  | nil =>
    cases h
    exact ⟨rfl, nofun⟩
  | cons disk disks ih =>
    obtain ⟨raw, raws, rfl⟩ := List.exists_cons_of_length_eq_add_one hraws
    obtain ⟨captured, hcaptured, h⟩ := bind_eq_ok.1 h
    obtain ⟨_, hne, h⟩ := bind_eq_ok.1 h
    obtain ⟨rest, hrest, h⟩ := bind_eq_ok.1 h
    cases h
    have hcanonical := canonicalRef_eq hcaptured
    obtain ⟨hlength, ih⟩ := ih hrest (Nat.succ_inj.1 hraws)
    refine ⟨congrArg Nat.succ hlength, fun i d hi => ?_⟩
    cases i with
    | zero =>
      cases hi
      rw [← hcanonical] at hne ⊢
      exact ⟨raw, rfl, not_or.1 (reject_eq_ok.1 hne), rfl⟩
    | succ i => exact ih i d hi

variable {parentRef : String}

theorem exportedLayout_resolves (hlib : lib.RoundTrip)
    (hlayout : p.checkpointLayout = false)
    (h : exportedLayout lib p parentRef dataRefs merged = .ok c1)
    (hc : Captures lib store p (canonicalRef lib parentRef) dataRefs merged diffs self off) :
    Resolves store p c1 (canonicalRef lib parentRef) diffs self off := by
  obtain ⟨_, hdata, h⟩ := bind_eq_ok.1 h
  obtain ⟨_, hmerged, h⟩ := bind_eq_ok.1 h
  obtain ⟨clone, hclone, h⟩ := bind_eq_ok.1 h
  obtain ⟨parent, hparent, h⟩ := bind_eq_ok.1 h
  obtain ⟨root', hroot', h⟩ := bind_eq_ok.1 h
  obtain ⟨disks', hdisks', h⟩ := bind_eq_ok.1 h
  obtain ⟨_, hvalid', h⟩ := bind_eq_ok.1 h
  cases h
  obtain ⟨rfl, hvalid⟩ := SandboxConfig.clone_ok hlib hclone
  have hvalid' := SandboxConfig.validate_ok hvalid'
  have hcanonical := canonicalRef_eq hparent
  rw [hcanonical] at hc ⊢
  obtain ⟨m, merged, rfl⟩ : ∃ m ms, merged = m :: ms :=
    List.exists_cons_of_length_eq_add_one
      ((not_not.1 (reject_eq_ok.1 hmerged)).trans (Nat.add_comm ..))
  have hlength : merged.length = clone.disks.length := by
    have := not_not.1 (reject_eq_ok.1 hmerged)
    rw [List.length_cons] at this
    omega
  obtain ⟨hcount, hdisks⟩ := exportDisks_ok hdisks' (not_not.1 (reject_eq_ok.1 hdata)) hlength
  refine ⟨?_, hcount, fun i disk hdisk => ?_, rfl⟩
  · exact exportRoot_view hroot' hvalid.root hvalid'.root
      (fun overlay hoverlay hself => hvalid'.image_ne_self hlayout hoverlay hself) hc.root
  obtain ⟨raw, hraw, hne, hdisk'⟩ := hdisks i disk hdisk
  refine ⟨_, hdisk', rfl, ?_⟩
  exact exportDisk_view (hvalid.disks disk (List.mem_of_getElem? hdisk))
    (hvalid'.disks _ (List.mem_of_getElem? hdisk')) hne (hc.disks i disk raw hdisk hraw)

theorem materializedCheckpoint_resolves (hlib : lib.RoundTrip)
    (h : materializedCheckpoint lib (some p) dataRefs = .ok c1)
    (hc : Captures lib store p parent dataRefs merged diffs self off) :
    Resolves store p c1 parent diffs self off := by
  obtain ⟨_, hlayout, h⟩ := bind_eq_ok.1 h
  obtain ⟨_, hdata, h⟩ := bind_eq_ok.1 h
  obtain ⟨clone, hclone, h⟩ := bind_eq_ok.1 h
  obtain ⟨disks', hdisks', h⟩ := bind_eq_ok.1 h
  obtain ⟨_, hvalid', h⟩ := bind_eq_ok.1 h
  cases h
  obtain ⟨rfl, hvalid⟩ := SandboxConfig.clone_ok hlib hclone
  have hvalid' := SandboxConfig.validate_ok hvalid'
  have hlayout : clone.checkpointLayout = true := Bool.not_eq_false _ ▸ reject_eq_ok.1 hlayout
  obtain ⟨hcount, hdisks⟩ := materializeDisks_ok hdisks' (not_not.1 (reject_eq_ok.1 hdata))
  refine ⟨?_, hcount, fun i disk hdisk => ?_, rfl⟩
  · exact setTop_view hvalid.root hvalid'.root (hvalid.self_notMem hlayout).1 (by decide) hc.root
  obtain ⟨raw, hraw, hne, hdisk'⟩ := hdisks i disk hdisk
  refine ⟨_, hdisk', rfl, ?_⟩
  have hmem := List.mem_of_getElem? hdisk
  have hcontent : content store self (canonicalRef lib raw) = store (canonicalRef lib raw) :=
    if_neg hne.2
  exact setTop_view (hvalid.disks disk hmem) (hvalid'.disks _ (List.mem_of_getElem? hdisk'))
    ((hvalid.self_notMem hlayout).2 disk hmem) hne.1
    ((congrFun hcontent off).trans (hc.disks i disk raw hdisk hraw))

/-- Every disk of an exported or materialized graph has, at every offset, the contents
that the running disk had: its active diff over the old chain. The images below overlays
and all other fields are unchanged. -/
theorem exported_graph_resolves {parentRef : String} (hlib : lib.RoundTrip)
    (h : exported lib (some p) parentRef dataRefs merged = .ok c1 ∨
      materializedCheckpoint lib (some p) dataRefs = .ok c1)
    (hc : Captures lib store p (canonicalRef lib parentRef) dataRefs merged diffs self off) :
    Resolves store p c1 (canonicalRef lib parentRef) diffs self off := by
  rcases h with h | h
  · cases hlayout : p.checkpointLayout with
    | false =>
      simp only [exported, hlayout, Bool.false_eq_true, if_false] at h
      exact exportedLayout_resolves hlib hlayout h hc
    | true =>
      simp only [exported, hlayout, if_true] at h
      exact materializedCheckpoint_resolves hlib h hc
  · exact materializedCheckpoint_resolves hlib h hc

end Graphs

/-! ## A graph with a stacked root and a merged data disk -/

def sampleGraph : SandboxConfig Unit where
  checkpointLayout := false
  root := ⟨"self", ["a"], none⟩
  disks := [⟨⟨"b", ["c"], none⟩, "data"⟩]
  rest := ()

/-- The graph of the next capture: the parent above the old chain of the root, and the
base of the data disk absorbed. -/
def sampleExport : SandboxConfig Unit where
  checkpointLayout := false
  root := ⟨"self", ["e", "a"], none⟩
  disks := [⟨⟨"d", ["c"], none⟩, "data"⟩]
  rest := ()

/-- References stand for themselves, and the sample is the only document. -/
def sampleLibrary : Library Unit where
  parseRef raw := .ok ⟨.manifest, "", raw, "", ""⟩
  validateRef _ := .ok ()
  renderRef ref := ref.path
  marshal p := if p.root = sampleGraph.root ∧ p.disks = sampleGraph.disks then .ok
    [0] else .error "unknown"
  unmarshal _ := .ok sampleGraph
  validateHead _ := .ok ()
  validateTail _ _ := .ok ()

theorem sampleLibrary_roundTrip : sampleLibrary.RoundTrip := by
  intro p raw q hmarshal hq
  cases hq
  unfold sampleLibrary at hmarshal
  dsimp only at hmarshal
  split at hmarshal
  next h => exact ⟨h.1.symm, h.2.symm, rfl⟩
  · cases hmarshal

/-- Each diff holds the first byte. -/
def sampleDiff : Layer Nat UInt8 := fun off => if off = 0 then some 9 else none

/-- The captured data disk is its diff over its base. -/
def sampleStore : Contents := fun ref off =>
  if ref = "d" then if off = 0 then some 9 else some 7 else if ref = "b" then some 7 else some 1

theorem sampleGraph_captures :
    Captures sampleLibrary sampleStore sampleGraph (canonicalRef sampleLibrary "e") ["d"]
    [false, true] (fun _ => sampleDiff) sampleDiff 1 where
  root := rfl
  disks := fun i disk raw hdisk hraw => by
    cases i with
    | zero => cases hdisk; cases hraw; rfl
    | succ i => cases hdisk

theorem exported_graph_resolves_sample :
    exported sampleLibrary (some sampleGraph) "e" ["d"] [false, true] = .ok sampleExport ∧
      Resolves sampleStore sampleGraph sampleExport "e" (fun _ => sampleDiff) sampleDiff 1 :=
  ⟨rfl, exported_graph_resolves sampleLibrary_roundTrip (.inl rfl) sampleGraph_captures⟩

end Sandboxer.Config.Portable
