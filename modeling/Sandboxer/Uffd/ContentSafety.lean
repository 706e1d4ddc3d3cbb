import Sandboxer.Uffd.Interleavings

/-! # Page content safety

The results over every interleaving of the handler's goroutines with the rest
of the machine, from a handler as it is constructed. -/
namespace Sandboxer.Uffd
open Lib.Threads PageState

variable {cfg : Config}

/-! ## The constructed handler -/

theorem bindInitial_some {m m' : AddressMap} {fd : Nat} (h : m.bindInitial fd = some m') :
    m'.memfdLen = m.memfdLen ∧ ∀ v ∈ m'.vmas, v.process = .ch → v.OwnedBy fd := by
  unfold AddressMap.bindInitial at h
  split at h
  next v hv =>
    split at h
    · cases h
    next hok =>
      cases h
      refine ⟨rfl, fun w hw hp => ?_⟩
      obtain ⟨u, hu, rfl⟩ := List.mem_map.1 hw
      by_cases hup : u.process = .ch
      · have huv : u ∈ m.vmas.filter fun v => v.process = .ch := List.mem_filter.2 ⟨hu, by simpa⟩
        rw [hv, List.mem_singleton] at huv
        subst huv
        simp only [hup, decide_true, if_true]
        simp only [ne_eq, not_or, Bool.not_eq_true] at hok
        exact ⟨rfl, rfl, hok.2⟩
      · simp [hup] at hp
  · cases h

theorem newWithBackendUffd_inv {m : AddressMap} {dirty : Dirty} {mem : Memfd} {fd : Nat}
    {s : Shared} (h : newWithBackendUffd cfg m dirty mem fd = some s) : Inv cfg s := by
  unfold newWithBackendUffd at h
  split at h
  · cases h
  next hc =>
    simp only [not_or, not_not] at hc
    obtain ⟨hfd, hlen, hds⟩ := hc
    simp only [bind, Option.bind_eq_some_iff] at h
    obtain ⟨m', hm', d, hd, h⟩ := h
    cases h
    obtain ⟨hlen', hown⟩ := bindInitial_some hm'
    obtain ⟨hs, _, hcov⟩ := seedRegion_spec
      (fun v hv => by rw [← hlen, ← hlen']; exact m'.aligned v hv) hd
    refine ⟨?_, ⟨by simp, nofun⟩, nofun, nofun, nofun⟩
    exact {
      mapLen := hlen'.trans hlen
      stateLen := rfl
      dirtySize := hs.trans hds
      releasedSize := rfl
      bound := fun v hv hp => (hown v hv hp).2.1 ▸ hfd
      released_state := nofun
      released_dirty := nofun
      state_released := fun i hi => by simp at hi
      acked_released := nofun
      loaded_hole := fun i hi => by simp at hi
      content := by
        rintro i p ⟨v, hv, hp, hh⟩ hm
        refine .inl (hcov v hv (hown v hv hp) i hh ?_)
        rw [show mem i = some p from hm]
        rfl
      log := nofun }

/-! ## All interleavings -/

theorem Env.inv {s s' : Shared} (hi : Inv cfg s) (h : Env cfg s s') : Inv cfg s' := by
  have hcore := h.core_inv hi.core
  cases h with
  | capture hv =>
    have hs := captureView_frame cfg hv
    exact ⟨hcore, hs ▸ hi.tail, hs ▸ hi.requests, hs ▸ hi.replies, hs ▸ hi.returned⟩
  | _ => exact { hi with core := hcore }

theorem Env.onward {s s' : Shared} (h : Env cfg s s') : Onward s s' ∧ s'.tail = s.tail := by
  cases h with
  | capture hv =>
    rw [captureView_frame cfg hv]
    exact ⟨⟨fun _ h => h, fun _ _ h => h⟩, rfl⟩
  | _ => exact ⟨⟨fun _ h => h, fun _ _ h => h⟩, rfl⟩

theorem sound : Sound (Inv cfg) Rely (Guar cfg) (Env cfg) where
  compatible _ u htu _ _ _ _ hg := ⟨hg.toOnward, hg.tail u (Ne.symm htu)⟩
  env_inv _ _ hi h := h.inv hi
  env_rely _ _ _ _ h _ := ⟨h.onward.1, fun _ => h.onward.2⟩

/-- The pool of a constructed handler. -/
def start (cfg : Config) (ld : Load) (s : Shared) : Pool Shared Thread := ⟨s, code cfg ld⟩

theorem start_covered (ld : Load) (s : Shared) (t : Thread) :
    Covered (Inv cfg) (Rely t) (Guar cfg t) (start cfg ld s).shared ((start cfg ld s).code t) :=
  ⟨fun _ => True, trivial, (Firm.const True).stable, code_safe ld t⟩

section

variable {m : AddressMap} {dirty : Dirty} {mem : Memfd} {fd : Nat} {s₀ : Shared} {ld : Load}
  {c c' : Pool Shared Thread}

/-- The invariants hold in every reachable state. -/
theorem reach_inv (h₀ : newWithBackendUffd cfg m dirty mem fd = some s₀)
    (hr : Pool.Reach (Env cfg) (start cfg ld s₀) c) : Inv cfg c.shared :=
  (hr.covered sound (newWithBackendUffd_inv h₀) (start_covered ld s₀)).1

theorem Env.log {s s' : Shared} (h : Env cfg s s') :
    s'.log = s.log ∧ s'.state = s.state ∧ s'.seen = s.seen := by
  cases h with
  | capture hv => rw [captureView_frame cfg hv]; exact ⟨rfl, rfl, rfl⟩
  | _ => exact ⟨rfl, rfl, rfl⟩

end

/-- A machine of two pages whose source starts with a page of ones. -/
def sampleConfig : Config where
  size := 2 * pageSize
  source off := if off < pageSize then 1 else 0
  zeroSource := false
  chunkWindows := true
  size_pos := Nat.mul_pos Nat.two_pos pageSize_pos
  size_aligned := Nat.dvd_mul_left _ _
  zero := nofun

section Fault

attribute [local semireducible] pageSize

def sampleLoad : Load := ⟨2, fun _ => (0, pageSize), fun _ => (0, 0, 0, 0)⟩

end Fault

end Sandboxer.Uffd
