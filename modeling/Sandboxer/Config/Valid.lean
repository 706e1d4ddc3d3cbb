import Mathlib.Data.List.Basic
import Sandboxer.Config.Portable

/-! # What the validation of a portable configuration accepts

The facts that `Validate` leaves about the disk graph, and that a configuration
survives its own encoding. -/
namespace Sandboxer.Config.Portable

open Lib.Outcomes

/-- A chain that validation accepts: no self below the base, and none without a base. -/
structure ChainValid (rootDisk : Bool) (base : String) (refs : List String) : Prop where
  refs_ne : ∀ ref ∈ refs, ref ≠ "self"
  refs_set : ∀ ref ∈ refs, ref ≠ ""
  refs_nil : base = "" → refs = []
  base_ne : rootDisk = false → base ≠ "self"

structure RootConfig.Valid (rootDisk : Bool) (root : RootConfig) : Prop where
  lower : ChainValid rootDisk root.base root.baseFromRefs
  upper : ∀ overlay, root.overlay = some overlay →
    ChainValid rootDisk overlay.base overlay.baseFromRefs
  single : ∀ overlay, root.overlay = some overlay → root.baseFromRefs = [] ∧ root.base ≠ ""
  image : ∀ overlay, root.overlay = some overlay → rootDisk = true → root.base = "self" →
    overlay.base = ""

section Validation

variable {ρ : Type} {lib : Library ρ} {field base : String} {refs : List String} {rootDisk : Bool}
    {u : Unit}

theorem validatePortableRef_ok {allowSelf : Bool}
    (h : validatePortableRef lib field base allowSelf = .ok u) :
    base ≠ "" ∧ (allowSelf = false → base ≠ "self") := by
  obtain ⟨_, hset, h⟩ := bind_eq_ok.1 h
  refine ⟨reject_eq_ok.1 hset, ?_⟩
  rintro hself rfl
  rw [if_pos rfl] at h
  exact reject_eq_ok.1 h hself

theorem validateRefsFrom_ok {seen : List String} {i : Nat}
    (h : validateRefsFrom lib field seen i refs = .ok u) :
    ∀ ref ∈ refs, ref ≠ "" ∧ ref ≠ "self" := by
  induction refs generalizing seen i with
  | nil => exact fun _ hmem => absurd hmem List.not_mem_nil
  | cons ref refs ih =>
    obtain ⟨_, href, h⟩ := bind_eq_ok.1 h
    obtain ⟨_, -, h⟩ := bind_eq_ok.1 h
    intro r hr
    rcases List.mem_cons.1 hr with rfl | hr
    · exact (validatePortableRef_ok href).imp_right fun h => h rfl
    · exact ih h r hr

theorem validateChain_ok (h : validateChain lib field rootDisk base refs = .ok u) :
    ChainValid rootDisk base refs := by
  obtain ⟨_, hbase, h⟩ := bind_eq_ok.1 h
  obtain ⟨_, hrefs, h⟩ := bind_eq_ok.1 h
  obtain ⟨_, -, h⟩ := bind_eq_ok.1 h
  obtain ⟨_, -, hrefs⟩ := bind_eq_ok.1 hrefs
  have hrefs := validateRefsFrom_ok hrefs
  refine ⟨fun ref hmem => (hrefs ref hmem).2, fun ref hmem => (hrefs ref hmem).1, fun hempty => ?_,
    fun hdisk => ?_⟩
  · by_contra hne
    exact reject_eq_ok.1 h ⟨hne, hempty⟩
  by_cases hempty : base = ""
  · rw [hempty]
    decide
  · rw [validateBase, if_pos hempty] at hbase
    exact (validatePortableRef_ok hbase).2 hdisk

theorem validatePortableRoot_ok {root : RootConfig}
    (h : validatePortableRoot lib field root rootDisk = .ok u) : root.Valid rootDisk := by
  obtain ⟨_, hlower, h⟩ := bind_eq_ok.1 h
  cases hoverlay : root.overlay with
  | none =>
    refine ⟨validateChain_ok hlower, fun o ho => ?_, fun o ho => ?_, fun o ho => ?_⟩
    all_goals rw [hoverlay] at ho; cases ho
  | some overlay =>
    rw [hoverlay] at h
    obtain ⟨_, hsingle, h⟩ := bind_eq_ok.1 h
    obtain ⟨_, hbase, h⟩ := bind_eq_ok.1 h
    obtain ⟨_, hupper, h⟩ := bind_eq_ok.1 h
    refine ⟨validateChain_ok hlower, fun o ho => ?_, fun o ho => ?_, fun o ho hdisk hself => ?_⟩
    · rw [hoverlay] at ho
      cases ho
      exact validateChain_ok hupper
    · exact ⟨not_not.1 (reject_eq_ok.1 hsingle), reject_eq_ok.1 hbase⟩
    rw [hoverlay] at ho
    cases ho
    by_contra hne
    exact reject_eq_ok.1 h ⟨hdisk, hself, .inl hne⟩

theorem validateDisksFrom_ok {names : List String} {i : Nat} {disks : List DiskConfig}
    (h : SandboxConfig.validateDisksFrom lib names i disks = .ok u) :
    ∀ disk ∈ disks, disk.toRootConfig.Valid false := by
  induction disks generalizing names i with
  | nil => exact fun _ hmem => absurd hmem List.not_mem_nil
  | cons disk disks ih =>
    obtain ⟨_, -, h⟩ := bind_eq_ok.1 h
    obtain ⟨_, -, h⟩ := bind_eq_ok.1 h
    obtain ⟨_, hdisk, h⟩ := bind_eq_ok.1 h
    intro d hd
    rcases List.mem_cons.1 hd with rfl | hd
    · exact validatePortableRoot_ok hdisk
    · exact ih h d hd

end Validation

structure SandboxConfig.Valid {ρ : Type} (p : SandboxConfig ρ) : Prop where
  root : p.root.Valid true
  disks : ∀ disk ∈ p.disks, disk.toRootConfig.Valid false
  self : p.portableSelfCount = if p.checkpointLayout then 0 else 1

namespace SandboxConfig

variable {ρ : Type} {lib : Library ρ} {p q : SandboxConfig ρ}

theorem validate_ok {u : Unit} (h : p.validate lib = .ok u) : p.Valid := by
  obtain ⟨_, -, h⟩ := bind_eq_ok.1 h
  obtain ⟨_, -, h⟩ := bind_eq_ok.1 h
  obtain ⟨_, hroot, h⟩ := bind_eq_ok.1 h
  obtain ⟨_, hdisks, h⟩ := bind_eq_ok.1 h
  obtain ⟨_, hself, h⟩ := bind_eq_ok.1 h
  refine ⟨validatePortableRoot_ok hroot, validateDisksFrom_ok hdisks, ?_⟩
  unfold validateSelfCount at hself
  split at hself <;> rename_i hlayout
  · rw [if_pos hlayout]
    exact not_not.1 (reject_eq_ok.1 hself)
  · rw [if_neg hlayout]
    exact not_not.1 (reject_eq_ok.1 hself)

/-- A configuration that is decoded from its own encoding is the same, and it was valid. -/
theorem parse_marshal (hlib : lib.RoundTrip) {raw : List UInt8} {layout : Bool}
    (hraw : p.marshal lib = .ok raw)
    (h : parse lib raw layout = .ok q) : q = { p with checkpointLayout := layout } ∧ p.Valid := by
  obtain ⟨_, hvalid, hraw⟩ := bind_eq_ok.1 hraw
  obtain ⟨raw', hmarshal, hraw⟩ := bind_eq_ok.1 hraw
  obtain ⟨_, -, hraw⟩ := bind_eq_ok.1 hraw
  obtain ⟨_, -, hraw⟩ := bind_eq_ok.1 hraw
  cases hraw
  obtain ⟨_, -, h⟩ := bind_eq_ok.1 h
  obtain ⟨_, -, h⟩ := bind_eq_ok.1 h
  obtain ⟨decoded, hdecoded, h⟩ := bind_eq_ok.1 h
  obtain ⟨_, -, h⟩ := bind_eq_ok.1 h
  cases h
  obtain ⟨hroot, hdisks, hrest⟩ := hlib p raw decoded (mapError_eq_ok hmarshal) hdecoded
  refine ⟨?_, validate_ok hvalid⟩
  cases p
  cases decoded
  cases hroot
  cases hdisks
  cases hrest
  rfl

/-- A clone is the configuration, and it is valid. -/
theorem clone_ok (hlib : lib.RoundTrip) (h : p.clone lib = .ok q) : q = p ∧ p.Valid := by
  obtain ⟨raw, hraw, h⟩ := bind_eq_ok.1 h
  exact parse_marshal hlib hraw h

/-- With one self, the image of the root is not self when its upper is. -/
theorem Valid.image_ne_self (hp : p.Valid) (hlayout : p.checkpointLayout = false)
    {overlay : OverlayConfig}
    (hoverlay : p.root.overlay = some overlay) (hself : overlay.base = "self") :
    p.root.base ≠ "self" := by
  intro hbase
  have hcount := hp.self
  rw [hlayout, if_neg Bool.false_ne_true, portableSelfCount, positions, RootConfig.positions,
    hoverlay, hbase] at hcount
  simp only [hself, List.cons_append, List.count_cons_self, List.count_append] at hcount
  omega

theorem Valid.self_notMem (hp : p.Valid) (hlayout : p.checkpointLayout = true) :
    "self" ∉ p.root.positions ∧ ∀ disk ∈ p.disks, "self" ∉ disk.toRootConfig.positions := by
  have hcount := hp.self
  rw [hlayout, if_pos rfl, portableSelfCount, List.count_eq_zero] at hcount
  exact ⟨fun hmem => hcount (List.mem_append_left _ hmem),
    fun disk hdisk hmem =>
      hcount (List.mem_append_right _ (List.mem_flatMap.2 ⟨disk, hdisk, hmem⟩))⟩

end SandboxConfig

end Sandboxer.Config.Portable
