import Sandboxer.Diffstore.Cache
import Mathlib.Data.List.Nodup
import Mathlib.Data.List.Count

/-! # The map of the cache

The keys of the map, the two lists and the dirty reservations agree with the
pages (`Wf`), whatever section runs. -/
namespace Sandboxer.Diffstore

namespace Cache

/-- The page of `k` is a dirty reservation of the disk `d`. -/
def chargedTo (c : Cache) (d : Nat) (k : CacheKey) : Bool :=
  k.disk == d && match c.pages k with
    | none => false
    | some p => p.chargedDirty

/-- The list holds pages in the state `st`, each once. -/
structure Listed (c : Cache) (st : CacheState) (l : List CacheKey) : Prop where
  nodup : l.Nodup
  page : ∀ k ∈ l, ∃ p, c.pages k = some p ∧ p.state = st

structure Wf (c : Cache) : Prop where
  keys : c.keys.Nodup
  mem : ∀ k, k ∈ c.keys ↔ (c.pages k).isSome
  clean : c.Listed .clean c.clean
  dirty : c.Listed .dirty c.dirty
  clients : ∀ d, c.clients d = c.keys.countP (c.chargedTo d)

variable {c c' : Cache} {k : CacheKey} {p p' : CachePage} {st : CacheState} {l : List CacheKey}

/-! ## The lists -/

theorem Listed.not_mem (h : c.Listed st l) (hk : ∀ p, c.pages k = some p → p.state ≠ st) :
    k ∉ l := by
  intro hkl
  obtain ⟨p, hp, hs⟩ := h.page k hkl
  exact hk p hp hs

/-- The list without `k` does not notice a change of its page. -/
theorem Listed.off (h : c.Listed st l) (hk : k ∉ l) {o : Option CachePage}
    (hpages : c'.pages = Function.update c.pages k o) : c'.Listed st l where
  nodup := h.nodup
  page q hq := by
    have hne : q ≠ k := fun hqk => hk (hqk ▸ hq)
    rw [hpages, Function.update_of_ne hne]
    exact h.page q hq

theorem Listed.erase (h : c.Listed st l) (k : CacheKey) : c.Listed st (l.erase k) :=
  ⟨h.nodup.erase k, fun q hq => h.page q (List.mem_of_mem_erase hq)⟩

/-- A page in the state of the list joins it. -/
theorem Listed.push (h : c.Listed st l) (hk : k ∉ l) (hp : c.pages k = some p)
    (hs : p.state = st) : c.Listed st (l ++ [k]) where
  nodup := List.nodup_append.2 ⟨h.nodup, List.nodup_singleton k, fun q hq r hr hqr =>
    hk (List.mem_singleton.1 hr ▸ hqr ▸ hq)⟩
  page q hq := by
    rcases List.mem_append.1 hq with hq | hq
    · exact h.page q hq
    · exact ⟨p, List.mem_singleton.1 hq ▸ hp, hs⟩

theorem Listed.not_mem_of_state (h : c.Listed st l) (hp : c.pages k = some p) (hs : p.state ≠ st) :
    k ∉ l :=
  h.not_mem fun q hq => by
    rw [hp] at hq
    cases hq
    exact hs

/-- Both lists without `k`, once its page was unlinked. -/
theorem Wf.unlink (h : c.Wf) (hp : c.pages k = some p) :
    (c.Listed .clean (c.unlink k p.state).clean ∧ k ∉ (c.unlink k p.state).clean) ∧
      c.Listed .dirty (c.unlink k p.state).dirty ∧ k ∉ (c.unlink k p.state).dirty := by
  have hclean := h.clean.not_mem_of_state hp
  have hdirty := h.dirty.not_mem_of_state hp
  cases hs : p.state with
  | clean =>
    exact ⟨⟨h.clean.erase k, h.clean.nodup.not_mem_erase⟩, h.dirty, hdirty (by rw [hs]; nofun)⟩
  | dirty =>
    exact ⟨⟨h.clean, hclean (by rw [hs]; nofun)⟩, h.dirty.erase k, h.dirty.nodup.not_mem_erase⟩
  | _ => exact ⟨⟨h.clean, hclean (by rw [hs]; nofun)⟩, h.dirty, hdirty (by rw [hs]; nofun)⟩

/-! ## One page -/

/-- Reservations of `d` the page of `k` stands for. -/
def due (k : CacheKey) (o : Option CachePage) (d : Nat) : Nat :=
  if (k.disk == d && o.any CachePage.chargedDirty) = true then 1 else 0

theorem chargedTo_page (d : Nat) : (if c.chargedTo d k then 1 else 0) = due k (c.pages k) d := by
  unfold chargedTo due
  cases c.pages k <;> rfl

/-- The map changes at one key, with its keys and reservations; the lists
follow. -/
theorem Wf.update (h : c.Wf) {o : Option CachePage}
    (hpages : c'.pages = Function.update c.pages k o)
    (hkeys : c'.keys.Perm (if o.isSome then k :: c.keys.erase k else c.keys.erase k))
    (hclean : c'.Listed .clean c'.clean) (hdirty : c'.Listed .dirty c'.dirty)
    (hclients : ∀ d, c'.clients d + due k (c.pages k) d = c.clients d + due k o d) : c'.Wf where
  keys := hkeys.nodup_iff.2 (by
    split
    · exact List.nodup_cons.2 ⟨h.keys.not_mem_erase, h.keys.erase k⟩
    · exact h.keys.erase k)
  mem q := by
    rw [hkeys.mem_iff, hpages]
    by_cases hq : q = k
    · subst hq
      rw [Function.update_self]
      cases o <;> simp [h.keys.not_mem_erase]
    · rw [Function.update_of_ne hq, ← h.mem]
      cases o <;> simp [hq, List.mem_erase_of_ne hq]
  clean := hclean
  dirty := hdirty
  clients d := by
    have hrest :
        (c.keys.erase k).countP (c'.chargedTo d) = (c.keys.erase k).countP (c.chargedTo d) :=
      List.countP_congr fun q hq => by
        have hne : q ≠ k := fun hqk => h.keys.not_mem_erase (hqk ▸ hq)
        simp only [chargedTo, hpages, Function.update_of_ne hne]
    have hold : c.keys.countP (c.chargedTo d) =
        (c.keys.erase k).countP (c.chargedTo d) + due k (c.pages k) d := by
      by_cases hk : k ∈ c.keys
      · rw [(List.perm_cons_erase hk).countP_eq, List.countP_cons, chargedTo_page]
      · have hnone : c.pages k = none := by simpa [h.mem] using hk
        rw [List.erase_of_not_mem hk, hnone]
        simp [due]
    have hnew := chargedTo_page (c := c') (k := k) d
    rw [hpages, Function.update_self] at hnew
    have := hclients d
    have := h.clients d
    rw [hkeys.countP_eq]
    cases o with
    | none =>
      have hnone : due k none d = 0 := by simp [due]
      simp only [Option.isSome_none, Bool.false_eq_true, if_false]
      omega
    | some p =>
      simp only [Option.isSome_some, if_true, List.countP_cons]
      omega

theorem Wf.replace (h : c.Wf) (hp : c.pages k = some p)
    (hpages : c'.pages = Function.update c.pages k (some p')) (hkeys : c'.keys = c.keys)
    (hclean : c'.Listed .clean c'.clean) (hdirty : c'.Listed .dirty c'.dirty)
    (hclients : ∀ d, c'.clients d + due k (some p) d = c.clients d + due k (some p') d) : c'.Wf :=
  h.update hpages
    (by rw [hkeys]; exact List.perm_cons_erase ((h.mem k).2 (by rw [hp]; rfl))) hclean hdirty
      (hp ▸ hclients)

@[simp] theorem unlink_pages (st : CacheState) : (c.unlink k st).pages = c.pages := by
  cases st <;> rfl

@[simp] theorem unlink_keys (st : CacheState) : (c.unlink k st).keys = c.keys := by
  cases st <;> rfl

@[simp] theorem unlink_clients (st : CacheState) : (c.unlink k st).clients = c.clients := by
  cases st <;> rfl

/-! ## Reservations -/

theorem due_charge (k : CacheKey) (cs : Nat → Nat) (d : Nat) :
    Function.update cs k.disk (cs k.disk + 1) d = cs d + if (k.disk == d) = true then 1 else 0 := by
  by_cases hd : k.disk = d
  · subst hd
    simp
  · simp [hd, Function.update_of_ne (Ne.symm hd)]

/-- A charged page has a reservation of its disk. -/
theorem Wf.clients_pos (h : c.Wf) (hp : c.pages k = some p) (hc : p.chargedDirty = true) :
    0 < c.clients k.disk := by
  rw [h.clients, List.countP_pos_iff]
  exact ⟨k, (h.mem k).2 (by rw [hp]; rfl), by simp [chargedTo, hp, hc]⟩

theorem due_uncharge (h : c.Wf) (hp : c.pages k = some p) (hc : p.chargedDirty = true) (d : Nat) :
    (c.uncharge k).clients d + (if (k.disk == d) = true then 1 else 0) = c.clients d := by
  have hpos := h.clients_pos hp hc
  by_cases hd : k.disk = d
  · subst hd
    simp [uncharge]
    omega
  · simp [uncharge, hd, Function.update_of_ne (Ne.symm hd)]

/-! ## The sections -/

theorem release_pages (k : CacheKey) : (c.release k).pages = Function.update c.pages k none := by
  unfold release
  cases hp : c.pages k with
  | none => exact (Function.update_eq_self_iff.2 hp.symm).symm
  | some p =>
    dsimp only
    split <;> simp [uncharge]

theorem Wf.release (h : c.Wf) (k : CacheKey) : (c.release k).Wf := by
  cases hp : c.pages k with
  | none =>
    unfold Cache.release
    rw [hp]
    exact h
  | some p =>
    obtain ⟨⟨hclean, hkc⟩, hdirty, hkd⟩ := h.unlink hp
    have hpages := release_pages (c := c) k
    have heqs : (c.release k).keys = c.keys.erase k ∧
        (c.release k).clean = (c.unlink k p.state).clean ∧
        (c.release k).dirty = (c.unlink k p.state).dirty := by
      simp only [Cache.release, hp]
      split <;> simp [uncharge]
    refine h.update hpages (by rw [heqs.1]; rfl) ?_ ?_ fun d => ?_
    · exact heqs.2.1 ▸ hclean.off hkc hpages
    · exact heqs.2.2 ▸ hdirty.off hkd hpages
    · cases hc : p.chargedDirty with
      | false => simp [Cache.release, hp, due, hc]
      | true => simpa [Cache.release, hp, due, hc, uncharge] using due_uncharge h hp hc d

def newPage (me : Thread) (dirty : Bool) : CachePage :=
  ⟨none, if dirty then .constructing else .loading, dirty, false, false, some me⟩

theorem enroll_pages (me : Thread) (k : CacheKey) (dirty : Bool) :
    (c.enroll me k dirty).pages = Function.update c.pages k (some (newPage me dirty)) := by
  cases dirty <;> rfl

theorem Wf.enroll (h : c.Wf) (hk : c.pages k = none) (me : Thread) (dirty : Bool) :
    (c.enroll me k dirty).Wf := by
  have hpages := enroll_pages (c := c) me k dirty
  have hlists : (c.enroll me k dirty).clean = c.clean ∧ (c.enroll me k dirty).dirty = c.dirty := by
    cases dirty <;> exact ⟨rfl, rfl⟩
  have absent : ∀ st p, c.pages k = some p → p.state ≠ st := by
    intro st p hp
    rw [hk] at hp
    cases hp
  have hnew : k ∉ c.keys := by rw [h.mem, hk]; nofun
  refine h.update hpages ?_ ?_ ?_ fun d => ?_
  · simp only [Option.isSome_some, if_true, List.erase_of_not_mem hnew]
    cases dirty <;> rfl
  · exact hlists.1 ▸ h.clean.off (h.clean.not_mem (absent _)) hpages
  · exact hlists.2 ▸ h.dirty.off (h.dirty.not_mem (absent _)) hpages
  · cases dirty with
    | false => simp [Cache.enroll, due, newPage, setPage, hk]
    | true => simpa [Cache.enroll, due, newPage, setPage, charge, hk] using due_charge k c.clients d

/-- A reservation puts a new page at a key without one, and may have evicted a
clean page of another key. -/
theorem reserve_some {cfg : Config} {me : Thread} {dirty : Bool} (h : c.Wf)
    (hk : c.pages k = none) (hr : c.reserve cfg me k dirty = some c') :
    c'.Wf ∧ c'.pages k = some (newPage me dirty) ∧ ∀ q, q ≠ k → c'.pages q = c.pages q ∨
        ∃ p, c.pages q = some p ∧ p.state = .clean ∧ c'.pages q = none := by
  unfold reserve at hr
  split at hr
  · split at hr
    · cases hr
    next first rest hclean =>
      cases hr
      obtain ⟨p, hp, hps⟩ := h.clean.page first (by rw [hclean]; exact (.head _))
      have hne : first ≠ k := by
        rintro rfl
        rw [hk] at hp
        cases hp
      have hk' : (c.release first).pages k = none := by
        rw [release_pages, Function.update_of_ne (Ne.symm hne)]
        exact hk
      refine ⟨(h.release first).enroll hk' me dirty, by rw [enroll_pages, Function.update_self], ?_⟩
      intro q hq
      rw [enroll_pages, Function.update_of_ne hq, release_pages]
      by_cases hqf : q = first
      · subst hqf
        exact .inr ⟨p, hp, hps, Function.update_self ..⟩
      · exact .inl (Function.update_of_ne hqf ..)
  · cases hr
    refine ⟨h.enroll hk me dirty, by rw [enroll_pages, Function.update_self], fun q hq => .inl ?_⟩
    rw [enroll_pages, Function.update_of_ne hq]

section Page

variable (h : c.Wf) (hp : c.pages k = some p)

include hp

theorem publishPage_eq (blk : Block) :
    (c.publishPage k blk).pages = Function.update c.pages k
      (some { p with data := some blk, state := .clean, owner := none }) := by
  simp [publishPage, hp, Cache.setPage]

theorem freezeDiscard_eq (me : Thread) :
    (c.freezeDiscard me k).pages = Function.update c.pages k
      (some { p with state := .discarding, owner := some me }) := by
  simp [freezeDiscard, hp, Cache.setPage]

theorem freeze_eq : (c.freeze k).pages = Function.update c.pages k
      (some { p with state := .writeback, owner := some .worker }) := by
  simp [freeze, hp, Cache.setPage]

theorem complete_zero (hz : p.zero = true) : c.complete k = c.release k := by
  simp [complete, hp, hz]

theorem complete_data (hz : p.zero = false) :
    (c.complete k).pages = Function.update c.pages k
      (some { p with state := .clean, fresh := false, chargedDirty := false, owner := none }) := by
  simp [complete, hp, hz, Cache.setPage, uncharge]

include h

/-- A page is replaced by one in the same lists and with the same charge. -/
theorem Wf.setPage (hs : p'.state = p.state) (hc : p'.chargedDirty = p.chargedDirty) :
    (c.setPage k p').Wf := by
  have listed : ∀ {st l}, c.Listed st l → (c.setPage k p').Listed st l := fun hl =>
    ⟨hl.nodup, fun q hq => by
      obtain ⟨r, hr, hrs⟩ := hl.page q hq
      by_cases hqk : q = k
      · subst hqk
        rw [hp] at hr
        cases hr
        exact ⟨p', Function.update_self .., hs.trans hrs⟩
      · exact ⟨r, (Function.update_of_ne hqk ..).trans hr, hrs⟩⟩
  exact h.replace hp rfl rfl (listed h.clean) (listed h.dirty) fun d => by
    simp [due, hc, Cache.setPage]

theorem Wf.touch (hs : p.state = .clean) : (c.touch k).Wf := by
  have hpushed := (h.clean.erase k).push h.clean.nodup.not_mem_erase hp hs
  exact { h with clean := ⟨hpushed.nodup, hpushed.page⟩, dirty := ⟨h.dirty.nodup, h.dirty.page⟩ }

/-- A page changes its state and its list. -/
theorem Wf.relink (hpages : c'.pages = Function.update c.pages k (some p'))
    (hkeys : c'.keys = c.keys)
    (hclean : c'.clean = (c.unlink k p.state).clean ++ if p'.state = .clean then [k] else [])
    (hdirty : c'.dirty = (c.unlink k p.state).dirty ++ if p'.state = .dirty then [k] else [])
    (hclients : ∀ d, c'.clients d + due k (some p) d = c.clients d + due k (some p') d) :
    c'.Wf := by
  obtain ⟨⟨hc, hkc⟩, hd, hkd⟩ := h.unlink hp
  have hk : c'.pages k = some p' := by rw [hpages, Function.update_self]
  have push : ∀ {st l}, c.Listed st l → k ∉ l →
      c'.Listed st (l ++ if p'.state = st then [k] else []) := by
    intro st l hl hkl
    split
    · exact (hl.off hkl hpages).push hkl hk ‹_›
    · rw [List.append_nil]
      exact hl.off hkl hpages
  exact h.replace hp hpages hkeys (hclean ▸ push hc hkc) (hdirty ▸ push hd hkd) hclients

theorem Wf.publishPage (hs : p.state = .loading) (blk : Block) : (c.publishPage k blk).Wf := by
  refine h.relink hp (publishPage_eq hp blk) ?_ ?_ ?_ fun d => ?_ <;>
    simp [Cache.publishPage, hp, hs, Cache.setPage, Cache.unlink, due]

theorem Wf.freeze (hs : p.state = .dirty) : (c.freeze k).Wf := by
  refine h.relink hp (freeze_eq hp) ?_ ?_ ?_ fun d => ?_ <;>
    simp [Cache.freeze, hp, hs, Cache.setPage, Cache.unlink, due]

theorem Wf.complete (hs : p.state = .writeback) (hc : p.chargedDirty = true) :
    (c.complete k).Wf := by
  cases hz : p.zero with
  | true =>
    rw [complete_zero hp hz]
    exact h.release k
  | false =>
    refine h.relink hp (complete_data hp hz) ?_ ?_ ?_ fun d => ?_
    · simp [Cache.complete, hp, hz, Cache.setPage, uncharge]
    · simp [Cache.complete, hp, hz, hs, Cache.setPage, uncharge, Cache.unlink]
    · simp [Cache.complete, hp, hz, hs, Cache.setPage, uncharge, Cache.unlink]
    · have := due_uncharge h hp hc d
      simpa [Cache.complete, hp, hz, Cache.setPage, due, hc] using this

/-- A clean page becomes dirty. -/
theorem Wf.dirtied (hs : p.state = .clean)
    (hc : p.chargedDirty = false) (hs' : p'.state = .dirty) (hc' : p'.chargedDirty = true) :
    ((c.dirtied k).setPage k p').Wf := by
  refine h.relink hp rfl rfl ?_ ?_ fun d => ?_
  · simp [Cache.dirtied, Cache.setPage, charge, Cache.unlink, hs, hs']
  · simp [Cache.dirtied, Cache.setPage, charge, Cache.unlink, hs, hs']
  · have := due_charge k c.clients d
    simpa [Cache.dirtied, Cache.setPage, charge, Cache.unlink, due, hc, hc'] using this

/-- A constructed page becomes dirty. -/
theorem Wf.queued (hs : p.state = .constructing)
    (hc : p.chargedDirty = true) (hs' : p'.state = .dirty) (hc' : p'.chargedDirty = true) :
    ((c.queued k).setPage k p').Wf := by
  refine h.relink hp rfl rfl ?_ ?_ fun d => ?_ <;>
    simp [Cache.queued, Cache.setPage, Cache.unlink, hs, hs', due, hc, hc']

end Page

theorem Wf.freezeDiscard (h : c.Wf) (me : Thread) (k : CacheKey) :
    (Cache.freezeDiscard me c k).Wf := by
  cases hp : c.pages k with
  | none =>
    unfold Cache.freezeDiscard
    rw [hp]
    exact h
  | some p =>
    refine h.relink hp (freezeDiscard_eq hp me) ?_ ?_ ?_ fun d => ?_ <;>
      simp [Cache.freezeDiscard, hp, Cache.setPage, due]

theorem complete_pages_of_ne {q : CacheKey} (hq : q ≠ k) : (c.complete k).pages q = c.pages q := by
  cases hp : c.pages k with
  | none => simp [complete, hp]
  | some p =>
    cases hz : p.zero with
    | true => rw [complete_zero hp hz, release_pages, Function.update_of_ne hq]
    | false => rw [complete_data hp hz, Function.update_of_ne hq]

end Cache

end Sandboxer.Diffstore
