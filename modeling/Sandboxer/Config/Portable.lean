import Mathlib.Algebra.Ring.Nat
import Sandboxer.Lib.Outcomes

/-! # The portable sandbox configuration

The disk graph of `sandbox.runtime.cfg`, its validation, and how an export makes
the next graph from it: `config/portable.go` and `config/portable_checkpoint.go`.
The fields besides the disk graph are one value of a type `ρ`, and the packages
outside of this repository (references, YAML) are the fields of a `Library`. -/
namespace Sandboxer.Config.Portable

/-! ## Data -/

inductive RefScheme where
  | file
  | manifest
deriving DecidableEq

/-- `manifest.Ref` -/
structure Ref where
  scheme : RefScheme
  location : String
  path : String
  digestScheme : String
  digest : String

structure OverlayConfig where
  base : String
  baseFromRefs : List String
deriving DecidableEq

structure RootConfig where
  base : String
  baseFromRefs : List String
  overlay : Option OverlayConfig
deriving DecidableEq

structure DiskConfig extends RootConfig where
  name : String
deriving DecidableEq

structure SandboxConfig (ρ : Type) where
  checkpointLayout : Bool
  root : RootConfig
  disks : List DiskConfig
  /-- Version, resources, network, kernel, runtime, launch, mounts, files, init, metadata. -/
  rest : ρ

/-- The packages and the checks of the other fields. -/
structure Library (ρ : Type) where
  parseRef : String → Except String Ref
  validateRef : Ref → Except String Unit
  renderRef : Ref → String
  /-- `yaml.Marshal` -/
  marshal : SandboxConfig ρ → Except String (List UInt8)
  /-- The strict decoding of one document. -/
  unmarshal : List UInt8 → Except String (SandboxConfig ρ)
  /-- The checks of `Validate` before the disk graph. -/
  validateHead : ρ → Except String Unit
  /-- The checks of `Validate` after the disk graph, with the names of the disks. -/
  validateTail : ρ → List String → Except String Unit

/-- A decoded document is the configuration that was encoded; the layout is not part of it. -/
def Library.RoundTrip {ρ : Type} (lib : Library ρ) : Prop :=
  ∀ p raw q, lib.marshal p = .ok raw → lib.unmarshal raw = .ok q →
    q.root = p.root ∧ q.disks = p.disks ∧ q.rest = p.rest

def maxPortableConfigBytes : Nat := 2 ^ 20

def maxPortableLayerRefs : Nat := 64

def maxPortableArtifactRefs : Nat := 256

def maxDataDisks : Nat := 8

/-- An error if the condition holds. -/
def reject (p : Prop) [Decidable p] (text : String) : Except String Unit :=
  if p then .error text else .ok ()

theorem reject_eq_ok {p : Prop} [Decidable p] {text : String} {u : Unit} :
    reject p text = .ok u ↔ ¬p := by
  unfold reject
  split
  · exact ⟨fun h => (by cases h), fun h => absurd ‹p› h⟩
  · exact ⟨fun _ => ‹¬p›, fun _ => rfl⟩

/-! ## References -/

/-- `filepath.Base` -/
def baseName (path : String) : String :=
  if path = "" then "." else
    match path.toList.reverse.dropWhile (· == '/') with
    | [] => "/"
    | cs => String.ofList (cs.takeWhile (· != '/')).reverse

section References

variable {ρ : Type} (lib : Library ρ)

/-- The basename and the identity of a local reference. -/
def localArtifactRef (ref : Ref) : Except String Ref := do
  reject (ref.digest = "" ∨ ref.digestScheme = "") "local immutable ref has no content identity"
  let path := baseName ref.path
  reject (path = "." ∨ path = "/" ∨ path = "") "local immutable ref has no basename"
  return { ref with path }

def portableArtifactRef (raw : String) : Except String String :=
  if raw = "" ∨ raw = "self" then .ok raw else do
    let parsed ← lib.parseRef raw
    let ref ← if parsed.scheme = .file then localArtifactRef parsed else .ok parsed
    lib.validateRef ref
    return lib.renderRef ref

/-- The local part of `validatePortableRef`. -/
def validateLocalRef (field : String) (ref : Ref) : Except String Unit := do
  reject (ref.path.startsWith "/" ∨ baseName ref.path ≠ ref.path ∨ '/' ∈ ref.path.toList ∨
    '\\' ∈ ref.path.toList)
    s!"portable {field} local ref must use a basename"
  reject (ref.digestScheme = "" ∨ ref.digest = "")
    s!"portable {field} local ref requires content identity"

def validatePortableRef (field raw : String) (allowSelf : Bool) : Except String Unit := do
  reject (raw = "") s!"portable {field} is required"
  if raw = "self" then reject (allowSelf = false) s!"portable {field} cannot be self"
  else
    let ref ← (lib.parseRef raw).mapError fun e => s!"portable {field}: {e}"
    if ref.scheme = .file then validateLocalRef field ref else .ok ()

/-- The loop of `validatePortableRefList`; `seen` are the references before index `i`. -/
def validateRefsFrom (field : String) (seen : List String) : Nat → List String → Except String Unit
  | _, [] => .ok ()
  | i, ref :: refs => do
    validatePortableRef lib s!"{field}[{i}]" ref false
    reject (ref ∈ seen) s!"portable {field}[{i}] duplicates {field}[{seen.idxOf ref}]"
    validateRefsFrom field (seen ++ [ref]) (i + 1) refs

def validatePortableRefList (field : String) (refs : List String) : Except String Unit := do
  reject (maxPortableLayerRefs < refs.length)
    s!"portable {field} exceeds {maxPortableLayerRefs} entries"
  validateRefsFrom lib field [] 0 refs

/-- A base may be left out. -/
def validateBase (field base : String) (rootDisk : Bool) : Except String Unit :=
  if base ≠ "" then validatePortableRef lib field base rootDisk else .ok ()

def validateChain (field : String) (rootDisk : Bool) (base : String) (refs : List String) :
    Except String Unit := do
  validateBase lib s!"{field}.base" base rootDisk
  validatePortableRefList lib s!"{field}.base_from_refs" refs
  reject (base ≠ "" ∧ base ∈ refs) s!"portable {field}.base duplicates {field}.base_from_refs"
  reject (refs ≠ [] ∧ base = "") s!"portable {field}.base is required with base_from_refs"

def validatePortableRoot (field : String) (root : RootConfig) (rootDisk : Bool) :
    Except String Unit := do
  validateChain lib field rootDisk root.base root.baseFromRefs
  match root.overlay with
  | none => .ok ()
  | some overlay => do
    reject (root.baseFromRefs ≠ []) s!"portable {field}.base_from_refs is single-disk only"
    reject (root.base = "") s!"portable {field}.base is required in overlay mode"
    validateChain lib s!"{field}.overlay" rootDisk overlay.base overlay.baseFromRefs
    reject (rootDisk = true ∧ root.base = "self" ∧ (overlay.base ≠ "" ∨ overlay.baseFromRefs ≠ []))
      s!"portable {field}.base=self requires an empty overlay graph"

end References

/-! ## Validation -/

/-- Every reference position of a disk, with the bases that are not set. -/
def RootConfig.positions (root : RootConfig) : List String :=
  root.base :: root.baseFromRefs ++ match root.overlay with
    | none => []
    | some overlay => overlay.base :: overlay.baseFromRefs

def chainRefCount (base : String) (refs : List String) : Nat :=
  refs.length + if base ≠ "" ∧ base ≠ "self" then 1 else 0

/-- `countRoot` of `portableArtifactRefCount`. -/
def RootConfig.artifactRefCount (root : RootConfig) : Nat :=
  chainRefCount root.base root.baseFromRefs + match root.overlay with
    | none => 0
    | some overlay => chainRefCount overlay.base overlay.baseFromRefs

namespace SandboxConfig

variable {ρ : Type} (lib : Library ρ)

def positions (p : SandboxConfig ρ) : List String :=
  p.root.positions ++ p.disks.flatMap fun disk => disk.positions

def portableSelfCount (p : SandboxConfig ρ) : Nat := p.positions.count "self"

def portableArtifactRefCount (p : SandboxConfig ρ) : Nat :=
  p.root.artifactRefCount + (p.disks.map fun disk => disk.artifactRefCount).sum

/-- The loop over `boot.disks`; `names` are those before index `i`. -/
def validateDisksFrom (names : List String) : Nat → List DiskConfig → Except String Unit
  | _, [] => .ok ()
  | i, disk :: disks => do
    reject (disk.name = "") s!"portable boot.disks[{i}].name is required"
    reject (disk.name ∈ names)
      s!"portable boot.disks[{i}].name duplicates boot.disks[{names.idxOf disk.name}]"
    validatePortableRoot lib s!"boot.disks[{i}]" disk.toRootConfig false
    validateDisksFrom (names ++ [disk.name]) (i + 1) disks

/-- The layout has one self, and a Checkpoint has none. -/
def validateSelfCount (p : SandboxConfig ρ) : Except String Unit :=
  if p.checkpointLayout then
    reject (p.portableSelfCount ≠ 0)
      s!"portable Checkpoint disk graph must contain no self references (got {p.portableSelfCount})"
  else
    reject (p.portableSelfCount ≠ 1)
      s!"portable disk graph must contain self exactly once (got {p.portableSelfCount})"

def validate (p : SandboxConfig ρ) : Except String Unit := do
  lib.validateHead p.rest
  reject (maxDataDisks < p.disks.length) s!"portable boot.disks exceeds {maxDataDisks}"
  validatePortableRoot lib "boot.root" p.root true
  validateDisksFrom lib [] 0 p.disks
  p.validateSelfCount
  reject (maxPortableArtifactRefs < p.portableArtifactRefCount)
    s!"portable disk graph exceeds {maxPortableArtifactRefs} artifact refs"
  lib.validateTail p.rest (p.disks.map DiskConfig.name)

/-- `parsePortableSandboxConfig`. -/
def parse (raw : List UInt8) (checkpoint : Bool) : Except String (SandboxConfig ρ) := do
  reject (raw = []) "portable config is empty"
  reject (maxPortableConfigBytes < raw.length)
    s!"portable config exceeds {maxPortableConfigBytes} bytes"
  let decoded ← lib.unmarshal raw
  let cfg := { decoded with checkpointLayout := checkpoint }
  cfg.validate lib
  return cfg

/-- `MarshalPortableSandboxConfig`. -/
def marshal (cfg : SandboxConfig ρ) : Except String (List UInt8) := do
  cfg.validate lib
  let raw ← (lib.marshal cfg).mapError fun e => s!"marshal portable config: {e}"
  reject (maxPortableConfigBytes < raw.length)
    s!"portable config exceeds {maxPortableConfigBytes} bytes"
  let _ ← (parse lib raw cfg.checkpointLayout).mapError fun e =>
      s!"validate canonical portable config: {e}"
  return raw

def clone (p : SandboxConfig ρ) : Except String (SandboxConfig ρ) := do
  let raw ← p.marshal lib
  parse lib raw p.checkpointLayout

end SandboxConfig

/-! ## Exports -/

def prependUniqueRef (ref : String) (refs : List String) : List String :=
  if ref = "" then refs else ref :: refs.filter (· ≠ ref)

def withoutPortableRef (refs : List String) (excluded : String) : List String :=
  refs.filter (· ≠ excluded)

/-- The root of `Exported`; its new payload is self. -/
def exportRoot (parent : String) (merged : Bool) (root : RootConfig) : Except String RootConfig :=
  let stacked := parent ≠ "" ∧ merged = false
  if root.base = "self" then
    match root.overlay with
    | some overlay =>
      -- a direct EROFS payload becomes the immutable image of the captured upper
      if overlay.base = "" then .ok { root with
        base := if stacked then parent else root.base
        overlay := some { overlay with base := "self" } }
      else .ok { root with
        baseFromRefs := if stacked then prependUniqueRef parent root.baseFromRefs else
          root.baseFromRefs }
    | none => .ok { root with
      baseFromRefs := if stacked then prependUniqueRef parent root.baseFromRefs else
        root.baseFromRefs }
  else
    match root.overlay with
    | some overlay =>
      if overlay.base = "self" then .ok { root with
        overlay := some { overlay with
          baseFromRefs := if stacked then prependUniqueRef parent overlay.baseFromRefs else
            overlay.baseFromRefs } }
      else .error "portable export: C0 has no legal root self binding"
    | none => .error "portable export: C0 has no legal root self binding"

/-- The chain below a captured data disk. -/
def exportedRefs (captured : String) (merged : Bool) (base : String) (refs : List String) :
    List String :=
  withoutPortableRef (if base ≠ "" ∧ merged = false then prependUniqueRef base refs else refs)
    captured

/-- A data disk of `Exported`. -/
def exportDisk (captured : String) (merged : Bool) (disk : RootConfig) : RootConfig :=
  match disk.overlay with
  | none =>
    { disk with base := captured, baseFromRefs :=
      exportedRefs captured merged disk.base disk.baseFromRefs }
  | some overlay => { disk with overlay := some {
      base := captured, baseFromRefs :=
        exportedRefs captured merged overlay.base overlay.baseFromRefs } }

section Exports

variable {ρ : Type} (lib : Library ρ)

/-- The loop over the data disks of `Exported`. -/
def exportDisks : Nat → List DiskConfig → List String → List Bool → Except String (List DiskConfig)
  | i, disk :: disks, raw :: raws, merged :: mergeds => do
    let captured ←
      (portableArtifactRef lib raw).mapError fun e => s!"portable export data disk {i}: {e}"
    reject (captured = "" ∨ captured = "self")
      s!"portable export data disk {i} has no captured artifact"
    let rest ← exportDisks (i + 1) disks raws mergeds
    return ⟨exportDisk captured merged disk.toRootConfig, disk.name⟩ :: rest
  | _, _, _, _ => .ok []

/-- `set` of `MaterializedCheckpoint`. -/
def setTop (root : RootConfig) (top : String) : RootConfig :=
  match root.overlay with
  | some overlay => { root with overlay := some {
      base := top, baseFromRefs := prependUniqueRef overlay.base overlay.baseFromRefs } }
  | none => { root with base := top, baseFromRefs := prependUniqueRef root.base root.baseFromRefs }

/-- The loop over the data disks of `MaterializedCheckpoint`. -/
def materializeDisks : Nat → List DiskConfig → List String → Except String (List DiskConfig)
  | i, disk :: disks, raw :: raws => do
    let ref ←
      (portableArtifactRef lib raw).mapError fun _ => s!"materialize: invalid disk {i} reference"
    reject (ref = "" ∨ ref = "self") s!"materialize: invalid disk {i} reference"
    let rest ← materializeDisks (i + 1) disks raws
    return ⟨setTop disk.toRootConfig ref, disk.name⟩ :: rest
  | _, _, _ => .ok []

def materializedCheckpoint (p : Option (SandboxConfig ρ)) (dataRefs : List String) :
    Except String (SandboxConfig ρ) :=
  match p with
  | none => .error "materialize: not a Checkpoint configuration"
  | some p => do
    reject (p.checkpointLayout = false) "materialize: not a Checkpoint configuration"
    reject (dataRefs.length ≠ p.disks.length) "materialize: data disk count mismatch"
    let clone ← p.clone lib
    let disks ← materializeDisks lib 0 clone.disks dataRefs
    let c1 := { clone with root := setTop clone.root "self", disks, checkpointLayout := false }
    c1.validate lib
    return c1

/-- `Exported` of a configuration that is not a Checkpoint. -/
def exportedLayout (p : SandboxConfig ρ) (parentSandboxRef : String) (dataRefs : List String)
    (merged : List Bool) : Except String (SandboxConfig ρ) := do
  reject (dataRefs.length ≠ p.disks.length)
    s!"portable export: got {dataRefs.length} data disk refs, want {p.disks.length}"
  reject (merged.length ≠ 1 + p.disks.length)
    s!"portable export: got {merged.length} merge decisions, want {1 + p.disks.length}"
  let clone ← p.clone lib
  let parent ← (portableArtifactRef lib parentSandboxRef).mapError fun e =>
    s!"portable export parent Sandbox: {e}"
  let root ← exportRoot parent (merged.headD false) clone.root
  let disks ← exportDisks lib 0 clone.disks dataRefs merged.tail
  let c1 := { clone with root, disks }
  c1.validate lib
  return c1

def exported (p : Option (SandboxConfig ρ)) (parentSandboxRef : String) (dataRefs : List String)
    (merged : List Bool) : Except String (SandboxConfig ρ) :=
  match p with
  | none => .error "portable export: nil C0"
  | some p =>
    if p.checkpointLayout then materializedCheckpoint lib (some p) dataRefs
    else exportedLayout lib p parentSandboxRef dataRefs merged

end Exports

end Sandboxer.Config.Portable
