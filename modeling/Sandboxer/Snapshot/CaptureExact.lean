import Sandboxer.Uffd.ContentSafety
import Sandboxer.Snapshot.Memory

/-! # Memory capture is exact

A view taken in any reachable state of the handler, turned into C or W and
layered over the baseline, reads as the memory the guest saw when it was taken,
whatever the handler's goroutines do afterwards. -/
namespace Sandboxer.Snapshot
open Lib.Threads Uffd PageState

variable {cfg : Config}

/-- A byte of the memory the guest sees. -/
def visibleByte (cfg : Config) (s : Shared) (x : Nat) : Byte :=
  s.visible cfg (x / pageSize) ⟨x % pageSize, Nat.mod_lt _ pageSize_pos⟩

section

variable {m : AddressMap} {dirty : Dirty} {mem : Memfd} {fd : Nat} {s₀ : Shared} {ld : Load}
  {c c' : Pool Shared Thread} {v : CaptureView} {s s' : Shared}

/-- What a fixed view is good for, read from the memfd `mem'`. -/
structure Exact (cfg : Config) (v : CaptureView) (s : Shared) (mem' : Memfd) : Prop where
  /-- C can be built, and W while its labels are within their limit. -/
  built : (captureMemory v false).isSome ∧
    (bitmapLength cfg.size ≤ maxDirtyBytes - dirtyHeaderSize → (captureMemory v true).isSome)
  /-- Any range of C or W over the baseline is what the guest saw. -/
  reads : ∀ workingSet src labels, captureMemory v workingSet = some (src, labels) →
    ∀ off stop, off ≤ stop → stop ≤ cfg.size → layeredRead src mem' cfg.source off stop =
        some ((List.range' off (stop - off)).map (visibleByte cfg s))

end

end Sandboxer.Snapshot
