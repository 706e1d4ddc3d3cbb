import Sandboxer.Versioned.RangePresence

/-! # Parts of a range

A range query that succeeds would also succeed on every part of its range, and
no point lookup in the range fails: the nodes they come to are among those the
query has checked, with the same bounds. -/
namespace Sandboxer.Versioned

open Lib.Outcomes

variable {r : Reader} {start stop : Nat}

/-- The query of a range goes through below a slot. -/
def Entered (r : Reader) (start stop levels slot lower upper : Nat) : Prop :=
  ∃ rep rep', payloadRange r start stop levels slot lower upper rep = .ok rep'

/-- The children of a node a query has gone through. -/
structure Visits (r : Reader) (start stop levels : Nat) (es : List Entry) (lower : Nat) : Prop where
  before : checkBefore r levels es (search es start) lower = .ok ()
  inside : ∀ j e, search es start ≤ j → es[j]? = some e → childLower es lower j < stop →
    Entered r start stop levels e.slot (childLower es lower j) e.key
  behind : ∀ j e, search es start ≤ j → es[j]? = some e → stop ≤ childLower es lower j →
    (j = search es start ∨ childLower es lower (j - 1) < stop) →
      presenceBoundary r false levels es j lower = .ok ()

variable {es : List Entry} {lower : Nat}

theorem childLower_mono (hasc : es.Pairwise fun e f => e.key < f.key) {i j : Nat}
    (hlower : ∀ e ∈ es, lower ≤ e.key) (hij : i ≤ j) (hj : j ≤ es.length) :
    childLower es lower i ≤ childLower es lower j := by
  rcases Nat.eq_or_lt_of_le hij with rfl | hlt
  · exact le_rfl
  obtain ⟨j, rfl⟩ := Nat.exists_eq_succ_of_ne_zero
    (Nat.ne_of_gt (lt_of_le_of_lt (Nat.zero_le i) hlt))
  have hat := List.getElem?_eq_getElem (show j < es.length by omega)
  rw [childLower_succ hat]
  exact Nat.le_succ_of_le
    (childLower_le_of_mem_drop hasc hlower (mem_drop_of_getElem? hat (by omega)))

theorem rangeChildren_ok {visit : (slot lower upper : Nat) → Report → Except Failure Report}
    (es : List Entry) :
    ∀ (lower : Nat) (rep : Report) {rest : List Entry} {rep' : Report},
      rangeChildren visit stop es lower rep = .ok (rest, rep') →
      ∃ done, es = done ++ rest ∧ (rest = [] ∨ stop ≤ childLower es lower done.length) ∧
        ∀ j e, done[j]? = some e → childLower es lower j < stop ∧
          ∃ a b, visit e.slot (childLower es lower j) e.key a = .ok b := by
  induction es with
  | nil =>
    rintro lower rep rest rep' ⟨⟩
    exact ⟨[], rfl, .inl rfl, nofun⟩
  | cons e es ih =>
    intro lower rep rest rep' h
    rw [rangeChildren] at h
    by_cases hstop : stop ≤ lower
    · rw [if_pos hstop] at h
      cases h
      exact ⟨[], rfl, .inr hstop, nofun⟩
    rw [if_neg hstop, bind_eq_ok] at h
    obtain ⟨rep₁, hvisit, h⟩ := h
    obtain ⟨done, rfl, hrest, hdone⟩ := ih _ _ h
    refine ⟨e :: done, rfl, ?_, fun j f hf => ?_⟩
    · rwa [List.length_cons, childLower_cons (by simp)]
    cases j with
    | zero =>
      cases hf
      exact ⟨not_le.1 hstop, rep, rep₁, hvisit⟩
    | succ j =>
      rw [List.getElem?_cons_succ] at hf
      have hj := (List.getElem?_eq_some_iff.1 hf).1
      rw [childLower_cons (by rw [List.length_append]; omega)]
      exact hdone j f hf

theorem rangeChildren_succeeds {n : Nat}
    {visit : (slot lower upper : Nat) → Report → Except Failure Report}
    (es : List Entry) : ∀ (lower : Nat) (rep : Report), rep.present.length = n →
      (∀ j e rep, es[j]? = some e → childLower es lower j < stop → rep.present.length = n →
        ∃ rep', visit e.slot (childLower es lower j) e.key rep = .ok rep' ∧
          rep'.present.length = n) →
      ∃ out, rangeChildren visit stop es lower rep = .ok out := by
  induction es with
  | nil => exact fun lower rep _ _ => ⟨_, rfl⟩
  | cons e es ih =>
    intro lower rep hlen hvisit
    rw [rangeChildren]
    by_cases hstop : stop ≤ lower
    · rw [if_pos hstop]
      exact ⟨_, rfl⟩
    rw [if_neg hstop]
    obtain ⟨rep₁, hrep, hlen₁⟩ := hvisit 0 e rep rfl (not_le.1 hstop) hlen
    obtain ⟨out, hout⟩ := ih (e.key + 1) rep₁ hlen₁ fun j f rep hf hj => by
      have := (List.getElem?_eq_some_iff.1 hf).1
      have hcons : childLower (e :: es) lower (j + 1) = childLower es (e.key + 1) j :=
        childLower_cons (by omega)
      rw [← hcons] at hj ⊢
      exact hvisit (j + 1) f rep hf hj
    refine ⟨out, ?_⟩
    rw [show visit e.slot lower e.key rep = .ok rep₁ from hrep]
    exact hout

theorem search_le_of_le_key {k i : Nat} {e : Entry} (he : es[i]? = some e) (h : k ≤ e.key) :
    search es k ≤ i := by
  by_contra hlt
  have := key_lt_of_mem_take (mem_take_of_getElem? he (not_le.1 hlt))
  omega

theorem search_mono {k l : Nat} (h : k ≤ l) : search es k ≤ search es l :=
  List.findIdx_le_findIdx fun e _ he => by
    rw [decide_eq_true_iff] at he ⊢
    exact le_trans h he

variable {levels slot upper : Nat}

theorem Entered.zero : ¬Entered r start stop 0 slot lower upper := fun ⟨_, _, h⟩ => by cases h

theorem Entered.node (hr : Checks r) (h : Entered r start stop (levels + 1) slot lower upper) :
    ∃ n, payloadRangeNode r slot lower upper (levels + 1) = .ok n ∧ r slot = .ok n ∧ Checked n ∧
      Bounded n lower upper (levels + 1) ∧
        (n.leaf = false → Visits r start stop levels n.entries lower) := by
  obtain ⟨rep, rep', h⟩ := h
  rw [payloadRange, bind_eq_ok] at h
  obtain ⟨n, hnode, h⟩ := h
  obtain ⟨-, -, hn, hchecked, hbounds⟩ := (payloadRangeNode_meets hr ..).of_ok hnode
  refine ⟨n, hnode, hn, hchecked, hbounds, fun hleaf => ?_⟩
  rw [hleaf, if_neg Bool.false_ne_true, bind_eq_ok] at h
  obtain ⟨⟨⟩, hbefore, h⟩ := h
  rw [bind_eq_ok] at h
  obtain ⟨⟨rest, rep₁⟩, hchildren, h⟩ := h
  rw [bind_eq_ok] at h
  obtain ⟨⟨⟩, hafter, -⟩ := h
  obtain ⟨done, hcut, hrest, hdone⟩ := rangeChildren_ok _ _ _ hchildren
  have hlen := length_of_cut hcut
  rw [childLower_drop (by omega)] at hrest
  have hmono : ∀ {a b : Nat}, a ≤ b → b ≤ n.entries.length →
      childLower n.entries lower a ≤ childLower n.entries lower b := fun hab hb =>
    childLower_mono hchecked.ascending hbounds.lower_le hab hb
  refine ⟨hbefore, fun j e hj he hstop => ?_, fun j e hj he hstop hprev => ?_⟩
  · have hjlt := (List.getElem?_eq_some_iff.1 he).1
    obtain ⟨k, rfl⟩ := Nat.exists_eq_add_of_le hj
    -- children behind the loop's end start behind the range
    have hk : k < done.length := by
      by_contra hge
      rcases hrest with hnil | hrest
      · rw [hnil, List.length_nil] at hlen
        omega
      · have := hmono (a := search n.entries start + done.length) (b := search n.entries start + k)
          (by omega) (by omega)
        omega
    have hat : done[k]? = some e := by
      rw [← he, ← List.getElem?_drop, hcut, List.getElem?_append_left hk]
    obtain ⟨-, a, b, hab⟩ := hdone k e hat
    rw [childLower_drop (by omega)] at hab
    exact ⟨a, b, hab⟩
  · have hjlt := (List.getElem?_eq_some_iff.1 he).1
    obtain ⟨k, rfl⟩ := Nat.exists_eq_add_of_le hj
    have hvisited :
        ∀ m < done.length, childLower n.entries lower (search n.entries start + m) < stop :=
        fun m hm => by
      obtain ⟨hlt, -⟩ := hdone m _ (List.getElem?_eq_getElem hm)
      rwa [childLower_drop (by omega)] at hlt
    have hk : k = done.length := by
      rcases Nat.lt_trichotomy k done.length with hlt | heq | hgt
      · have := hvisited k hlt
        omega
      · exact heq
      rcases hrest with hnil | hrest
      · rw [hnil, List.length_nil] at hlen
        omega
      rcases hprev with h0 | hprev
      · omega
      · have := hmono (a := search n.entries start + done.length)
          (b := search n.entries start + k - 1)
          (by omega) (by omega)
        omega
    have hne : rest ≠ [] := by
      rintro rfl
      rw [List.length_nil] at hlen
      omega
    rw [checkAfter, if_neg hne] at hafter
    rwa [show n.entries.length - rest.length = search n.entries start + k by omega] at hafter

/-! ## Boundary paths inside a range -/

theorem Entered.right (hr : Checks r) (levels : Nat) :
    ∀ (parent : List Entry) (index lower : Nat) (e : Entry), parent[index]? = some e →
      levels < maxDepth →
      Entered r start stop levels e.slot (childLower parent lower index) e.key → start ≤ e.key →
        e.key < stop →
      presenceBoundary r true levels parent index lower = .ok () := by
  induction levels with
  | zero => exact fun _ _ _ _ _ _ h => absurd h Entered.zero
  | succ levels ih =>
    intro parent index lower e he hlevels h hstart hstop
    obtain ⟨n, hnode, -, hchecked, hbounds, hvisits⟩ := h.node hr
    simp only [presenceBoundary, he]
    rw [hnode]
    change (if n.leaf then _ else _) = _
    cases hleaf : n.leaf with
    | true => rfl
    | false =>
      obtain ⟨last, hlast, hkey⟩ := hbounds.exact hlevels
      have hat : n.entries[n.entries.length - 1]? = some last := by
        rw [← List.getLast?_eq_getElem?, hlast]
      have hle := childLower_le_of_mem_drop hchecked.ascending hbounds.lower_le
        (mem_drop_of_getElem? hat le_rfl)
      refine ih n.entries (n.entries.length - 1) _ last hat (by omega) ?_ (by omega) (by omega)
      exact (hvisits hleaf).inside _ last (search_le_of_le_key hat (by omega)) hat (by omega)

theorem Entered.left (hr : Checks r) (levels : Nat) :
    ∀ (parent : List Entry) (index lower : Nat) (e : Entry), parent[index]? = some e →
      Entered r start stop levels e.slot (childLower parent lower index) e.key →
      start ≤ childLower parent lower index → childLower parent lower index < stop →
      presenceBoundary r false levels parent index lower = .ok () := by
  induction levels with
  | zero => exact fun _ _ _ _ _ h => absurd h Entered.zero
  | succ levels ih =>
    intro parent index lower e he h hstart hstop
    obtain ⟨n, hnode, -, hchecked, hbounds, hvisits⟩ := h.node hr
    simp only [presenceBoundary, he]
    rw [hnode]
    change (if n.leaf then _ else _) = _
    cases hleaf : n.leaf with
    | true => rfl
    | false =>
      obtain ⟨first, hfirst⟩ := hchecked.exists_first
      have hat : n.entries[0]? = some first := by rw [← List.head?_eq_getElem?, hfirst]
      have hkey := hbounds.lower_le first (List.mem_of_getElem? hat)
      refine ih n.entries 0 _ first hat ?_ hstart hstop
      exact (hvisits hleaf).inside 0 first (search_le_of_le_key hat (by omega)) hat hstop

/-! ## Narrowing -/

section Narrow

variable {first last : Nat}

theorem Visits.checkBefore {levels : Nat} (hr : Checks r) (hlevels : levels < maxDepth)
    (hasc : es.Pairwise fun e f => e.key < f.key) (hlower : ∀ e ∈ es, lower ≤ e.key)
    (h : Visits r start stop levels es lower) (hstart : start ≤ first) (hlast : first < stop) :
    checkBefore r levels es (search es first) lower = .ok () := by
  rw [Versioned.checkBefore]
  split
  next hpos =>
    have hlen := search_le es first
    obtain ⟨f, hat⟩ : ∃ f, es[search es first - 1]? = some f :=
      ⟨_, List.getElem?_eq_getElem (by omega)⟩
    have hkey := key_lt_of_mem_take (mem_take_of_getElem? hat (show _ < search es first by omega))
    by_cases hsame : search es start ≤ search es first - 1
    · -- the skipped child lies in the larger range
      have hle := childLower_le_of_mem_drop hasc hlower (mem_drop_of_getElem? hat le_rfl)
      have hge := le_key_of_mem_drop hasc (mem_drop_of_getElem? hat hsame)
      exact Entered.right hr levels es _ lower f hat hlevels (h.inside _ f hsame hat (by omega)) hge
        (by omega)
    · have heq : search es start = search es first := by
        have : search es start ≤ search es first := search_mono hstart
        omega
      have hbefore := h.before
      rwa [Versioned.checkBefore, heq, if_pos hpos] at hbefore
  · rfl

theorem Visits.checkAfter {levels : Nat} {done rest : List Entry} (hr : Checks r)
    (h : Visits r start stop levels es lower) (hstart : start ≤ first) (hlast : last ≤ stop)
    (hlow : lower < last) (hne : first < last) (hcut : es.drop (search es first) = done ++ rest)
    (hrest : rest = [] ∨ last ≤ childLower es lower (search es first + done.length))
    (hdone : ∀ j e, done[j]? = some e → childLower es lower (search es first + j) < last) :
    checkAfter r levels es rest lower = .ok () := by
  rw [Versioned.checkAfter]
  split
  · rfl
  next hnil =>
    have hbound := hrest.resolve_left hnil
    have hlen := length_of_cut hcut
    rw [show es.length - rest.length = search es first + done.length by omega]
    obtain ⟨f, hat⟩ : ∃ f, es[search es first + done.length]? = some f := by
      refine ⟨_, List.getElem?_eq_getElem ?_⟩
      have := List.length_pos_iff.2 hnil
      omega
    have hsearch : search es start ≤ search es first := search_mono hstart
    -- at least one child was entered: the first one begins before the range ends
    obtain ⟨m, hm⟩ : ∃ m, done.length = m + 1 := by
      refine Nat.exists_eq_succ_of_ne_zero fun h0 => ?_
      rw [h0, Nat.add_zero] at hbound
      have : childLower es lower (search es first) ≤ last - 1 := childLower_search_le (by omega)
        (by omega)
      omega
    have hprev := hdone m _ (List.getElem?_eq_getElem (by omega))
    by_cases hin : childLower es lower (search es first + done.length) < stop
    · refine Entered.left hr levels es _ lower f hat (h.inside _ f (by omega) hat hin)
        (by omega) hin
    · refine h.behind _ f (by omega) hat (by omega) (.inr ?_)
      rw [show search es first + done.length - 1 = search es first + m by omega]
      omega

/-- A query of a part of the range goes through where the query of the range did. -/
theorem Entered.narrow (hr : Checks r) (first last : Nat) (hstart : start ≤ first)
    (hne : first < last) (hlast : last ≤ stop) (levels : Nat) (hlevels : levels ≤ maxDepth) :
    ∀ (slot lower upper : Nat) (rep : Report), Entered r start stop levels slot lower upper →
      lower < last →
      rep.present.length = last - first →
        ∃ rep', payloadRange r first last levels slot lower upper rep = .ok rep' := by
  induction levels with
  | zero => exact fun _ _ _ _ h => absurd h Entered.zero
  | succ levels ih =>
    intro slot lower upper rep h hlow hlen
    obtain ⟨n, hnode, -, hchecked, hbounds, hvisits⟩ := h.node hr
    have hasc := hchecked.ascending
    rw [payloadRange, hnode]
    cases hleaf : n.leaf with
    | true =>
      have hmarks := @markLeaf_meets first last _
        (hasc.sublist (List.drop_sublist (search n.entries first) _)) rep.present
        (fun e he => le_key_of_mem_drop hasc he) hlen
      cases hmark : markLeaf first last (n.entries.drop (search n.entries first)) rep.present with
      | error e => exact (hmarks.of_error hmark).elim
      | ok present =>
        refine ⟨⟨present, rep.visited ++ [n.entries]⟩, ?_⟩
        simp only [bind, Except.bind, hleaf, if_true, hmark]
    | false =>
      have hvisits := hvisits hleaf
      have hbefore := hvisits.checkBefore hr (by omega) hasc hbounds.lower_le hstart
        (lt_of_lt_of_le hne hlast)
      have hi := search_le n.entries first
      have hchildren : ∃ out, rangeChildren (payloadRange r first last levels) last
          (n.entries.drop (search n.entries first))
            (childLower n.entries lower (search n.entries first)) rep = .ok out := by
        refine rangeChildren_succeeds _ _ _ hlen fun j e rep he hj hlen => ?_
        have hjlt := (List.getElem?_eq_some_iff.1 he).1
        rw [List.length_drop] at hjlt
        rw [List.getElem?_drop] at he
        rw [childLower_drop (by omega)] at hj ⊢
        have hsearch : search n.entries start ≤ search n.entries first := search_mono hstart
        have hchild := hvisits.inside _ e (by omega) he (by omega)
        obtain ⟨rep', hrep⟩ := ih (by omega) e.slot _ e.key rep hchild hj hlen
        obtain ⟨vs, -, hmarks, -⟩ :=
          (payloadRange_meets hr first last levels (by omega) _ _ _ rep hlen).of_ok hrep
        exact ⟨rep', hrep, hmarks.length.trans hlen⟩
      obtain ⟨⟨rest, rep₁⟩, hout⟩ := hchildren
      obtain ⟨done, hcut, hrest, hdone⟩ := rangeChildren_ok _ _ _ hout
      have hlen' := length_of_cut hcut
      rw [childLower_drop (by omega)] at hrest
      have hafter := hvisits.checkAfter hr hstart hlast hlow hne hcut hrest fun j e he => by
        have hj := (List.getElem?_eq_some_iff.1 he).1
        have := (hdone j e he).1
        rwa [childLower_drop (by omega)] at this
      refine ⟨rep₁, ?_⟩
      simp only [bind, Except.bind, hleaf, Bool.false_eq_true, if_false, hbefore, hout, hafter]

/-- No lookup of a key in the range fails. -/
theorem Entered.lookup {k : Nat} (hr : Checks r) (hstart : start ≤ k) (hstop : k < stop)
    (levels : Nat) :
    ∀ slot lower upper : Nat, Entered r start stop levels slot lower upper → lower ≤ k →
      ∃ found, lookupFrom r k levels slot = .ok found := by
  induction levels with
  | zero => exact fun _ _ _ h => absurd h Entered.zero
  | succ levels ih =>
    intro slot lower upper h hlow
    obtain ⟨n, -, hn, hchecked, hbounds, hvisits⟩ := h.node hr
    rw [lookupFrom_node hr hn]
    cases hat : n.entries[search n.entries k]? with
    | none => exact ⟨0, rfl⟩
    | some e =>
      cases hleaf : n.leaf with
      | true =>
        dsimp only
        rw [if_pos rfl]
        split
        all_goals exact ⟨_, rfl⟩
      | false =>
        have hle : childLower n.entries lower (search n.entries k) ≤ k :=
          childLower_search_le hlow le_rfl
        exact ih e.slot _ e.key ((hvisits hleaf).inside _ e (search_mono hstart) hat (by omega)) hle

end Narrow

end Sandboxer.Versioned
