import Sandboxer.Versioned.Index
import Sandboxer.Lib.Outcomes

/-! # Range presence on arbitrary index contents

`payloadRange` is given nodes that decode, nothing more: separators may lie about
their children, subtrees may be shared or cyclic. What it answers nevertheless
agrees with point lookup, because every child is entered with the bounds its
parent has for it and both neighbours of the visited leaves are checked. -/
namespace Sandboxer.Versioned

open Lib.Outcomes

/-! ## Decoded nodes -/

/-- What a reader guarantees of a node it returns. -/
structure Checked (n : Node) : Prop where
  nonempty : n.entries ≠ []
  ascending : n.entries.Pairwise fun e f => e.key < f.key
  allocated : ∀ e ∈ n.entries, e.slot ≠ 0

variable (r : Reader)

/-- A reader of checked nodes; it never panics and there is no node 0. -/
structure Checks : Prop where
  node : ∀ slot, Meets (· ≠ .panic) Checked (r slot)
  zero : ∀ n, r 0 ≠ .ok n

variable {e : Entry} {es : List Entry}

theorem ordered_cons (h : ordered (e :: es)) : e.slot ≠ 0 ∧
    (∀ f ∈ es, e.key < f.key) ∧ ordered es := by
  induction es generalizing e with
  | nil => simpa [ordered] using h
  | cons f es ih =>
    simp only [ordered, ne_eq, decide_not, Bool.and_eq_true, Bool.not_eq_eq_eq_not, Bool.not_true,
      decide_eq_false_iff_not, decide_eq_true_eq] at h
    obtain ⟨⟨hslot, hlt⟩, hrest⟩ := h
    obtain ⟨-, hf, -⟩ := ih hrest
    refine ⟨hslot, fun g hg => ?_, hrest⟩
    rcases List.mem_cons.1 hg with rfl | hg
    · exact hlt
    · exact lt_trans hlt (hf g hg)

theorem ordered_checked (h : ordered es) :
    es.Pairwise (fun e f => e.key < f.key) ∧ ∀ e ∈ es, e.slot ≠ 0 := by
  induction es with
  | nil => exact ⟨.nil, nofun⟩
  | cons e es ih =>
    obtain ⟨hslot, hlt, hrest⟩ := ordered_cons h
    obtain ⟨hasc, hall⟩ := ih hrest
    refine ⟨.cons hlt hasc, fun f hf => ?_⟩
    rcases List.mem_cons.1 hf with rfl | hf
    · exact hslot
    · exact hall f hf

theorem decodeNode_checked (b : Image) : Meets (· ≠ .panic) Checked (decodeNode b) := by
  cases b with
  | index flag entries =>
    rw [decodeNode]
    split
    · exact .error (by decide)
    next hocc =>
      split
      next hord =>
        obtain ⟨hasc, hall⟩ := ordered_checked hord
        exact .ok ⟨fun h => hocc (.inl (by simpa using congrArg List.length h)), hasc, hall⟩
      · exact .error (by decide)
  | _ => exact .error (by decide)

theorem inspectNode_checks (r : Source) : Checks (inspectNode r) := by
  refine ⟨fun slot => ?_, fun n h => by simp [inspectNode] at h⟩
  unfold inspectNode
  split
  · exact .error (by decide)
  split
  · exact .error (by decide)
  refine .bind (decodeNode_checked _) fun n _ hn => ?_
  split
  · exact .error (by decide)
  · exact .ok hn

/-! ## Searching ascending entries -/

theorem search_le (es : List Entry) (k : Nat) : search es k ≤ es.length := List.findIdx_le_length

variable {k : Nat}

theorem mem_take_of_getElem? {i j : Nat} (h : es[i]? = some e) (hij : i < j) : e ∈ es.take j :=
  List.mem_iff_getElem?.2 ⟨i, by rw [List.getElem?_take_of_lt hij, h]⟩

theorem mem_drop_of_getElem? {i j : Nat} (h : es[j]? = some e) (hij : i ≤ j) : e ∈ es.drop i :=
  List.mem_iff_getElem?.2 ⟨j - i, by rw [List.getElem?_drop, Nat.add_sub_of_le hij, h]⟩

/-- The children a query skips, those it visits and those behind it. -/
theorem length_of_cut {done rest : List Entry} (h : es.drop (search es k) = done ++ rest) :
    es.length = search es k + done.length + rest.length := by
  have := congrArg List.length h
  rw [List.length_drop, List.length_append] at this
  have := search_le es k
  omega

theorem key_lt_of_mem_take (h : e ∈ es.take (search es k)) : e.key < k := by
  obtain ⟨i, hi, rfl⟩ := List.mem_iff_getElem.1 h
  rw [List.length_take] at hi
  have hlt : i < search es k := by omega
  have := List.not_of_lt_findIdx hlt
  simpa using this

theorem le_key_of_mem_drop (hasc : es.Pairwise fun e f => e.key < f.key)
    (h : e ∈ es.drop (search es k)) : k ≤ e.key := by
  have hlt : search es k < es.length := by
    by_contra hge
    rw [List.drop_eq_nil_of_le (by omega)] at h
    cases h
  have hat : k ≤ es[search es k].key := of_decide_eq_true (List.findIdx_getElem (w := hlt))
  rw [List.drop_eq_getElem_cons hlt] at h
  rcases List.mem_cons.1 h with rfl | h
  · exact hat
  obtain ⟨i, hi, rfl⟩ := List.mem_iff_getElem.1 h
  rw [List.getElem_drop]
  have := List.pairwise_iff_getElem.1 hasc (search es k) (search es k + 1 + i) hlt
    (by rw [List.length_drop] at hi; omega) (by omega)
  omega

theorem search_cons_of_le (h : k ≤ e.key) : search (e :: es) k = 0 := by
  simp [search, List.findIdx_cons, h]

theorem search_cons_of_lt (h : e.key < k) : search (e :: es) k = search es k + 1 := by
  simp [search, List.findIdx_cons, not_le.2 h]

variable {start : Nat}

/-- Searching a later key passes over the entries below an earlier one. -/
theorem getElem?_search_drop (h : start ≤ k) :
    (es.drop (search es start))[search (es.drop (search es start)) k]? = es[search es k]? := by
  induction es with
  | nil => rfl
  | cons e es ih =>
    by_cases hs : start ≤ e.key
    · rw [search_cons_of_le hs, List.drop_zero]
    · rw [search_cons_of_lt (by omega), List.drop_succ_cons, ih,
        search_cons_of_lt (by omega : e.key < k)]
      rfl

/-- In ascending entries the search comes to the entry of a key that is there. -/
theorem exists_key_iff_search (hasc : es.Pairwise fun e f => e.key < f.key) (k : Nat) :
    (∃ e ∈ es, e.key = k) ↔ ∃ e, es[search es k]? = some e ∧ e.key = k := by
  constructor
  · rintro ⟨e, he, rfl⟩
    induction es with
    | nil => cases he
    | cons f es ih =>
      obtain ⟨hlt, hasc⟩ := List.pairwise_cons.1 hasc
      rcases List.mem_cons.1 he with rfl | he
      · exact ⟨e, by rw [search_cons_of_le le_rfl]; rfl, rfl⟩
      · rw [search_cons_of_lt (hlt e he)]
        exact ih hasc he
  · rintro ⟨e, he, hk⟩
    exact ⟨e, List.mem_of_getElem? he, hk⟩

/-! ## Leaves in tree order -/

/-- A leaf, or the place of a subtree that cannot be read. -/
abbrev Cell := Except Failure (List Entry)

/-- The leaves below a slot, left to right. -/
def leaves : Nat → Nat → List Cell
  | 0, _ => [.error depthExceeded]
  | levels + 1, slot =>
    match r slot with
    | .error e => [.error e]
    | .ok n => if n.leaf then [.ok n.entries] else n.entries.flatMap fun e => leaves levels e.slot

/-- The leaves below a run of children. -/
def cells (levels : Nat) (es : List Entry) : List Cell := es.flatMap fun e => leaves r levels e.slot

@[simp] theorem cells_nil (levels : Nat) : cells r levels [] = [] := rfl

@[simp] theorem cells_cons (levels : Nat) (e : Entry) (es : List Entry) :
    cells r levels (e :: es) = leaves r levels e.slot ++ cells r levels es := rfl

@[simp] theorem cells_append (levels : Nat) (es fs : List Entry) :
    cells r levels (es ++ fs) = cells r levels es ++ cells r levels fs := List.flatMap_append

/-- A leaf all of whose keys satisfy `P`. -/
def Holds (P : Nat → Prop) (c : Cell) : Prop := ∃ es, c = .ok es ∧ ∀ e ∈ es, P e.key

variable {r : Reader} {levels slot : Nat} {n : Node}

theorem leaves_leaf (h : r slot = .ok n) (hleaf : n.leaf = true) :
    leaves r (levels + 1) slot = [.ok n.entries] := by
  simp [leaves, h, hleaf]

theorem leaves_branch (h : r slot = .ok n) (hleaf : n.leaf = false) :
    leaves r (levels + 1) slot = cells r levels n.entries := by
  simp [leaves, h, hleaf, cells]

theorem getLast?_cells {c : Cell} (he : es.getLast? = some e)
    (hc : (leaves r levels e.slot).getLast? = some c) : (cells r levels es).getLast? = some c := by
  obtain ⟨front, rfl⟩ := List.getLast?_eq_some_iff.1 he
  rw [cells_append, cells_cons, cells_nil, List.append_nil, List.getLast?_append, hc]
  rfl

theorem head?_cells {c : Cell} (he : es.head? = some e)
    (hc : (leaves r levels e.slot).head? = some c) : (cells r levels es).head? = some c := by
  obtain ⟨rest, rfl⟩ := List.head?_eq_some_iff.1 he
  rw [cells_cons, List.head?_append, hc]
  rfl

/-! ## Bounds -/

/-- A node within the bounds given for it; `last` is exact below the root. -/
structure Bounded (n : Node) (lower upper levels : Nat) : Prop where
  keys : ∀ e ∈ n.entries, lower ≤ e.key ∧ e.key ≤ upper
  exact : levels < maxDepth → ∃ e, n.entries.getLast? = some e ∧ e.key = upper

theorem Bounded.lower_le {lower upper : Nat} (h : Bounded n lower upper levels) (e : Entry)
    (he : e ∈ n.entries) :
    lower ≤ e.key := (h.keys e he).1

theorem Checked.exists_last (h : Checked n) : ∃ last, n.entries.getLast? = some last :=
  Option.ne_none_iff_exists'.mp (mt List.getLast?_eq_none_iff.1 h.nonempty)

theorem Checked.exists_first (h : Checked n) : ∃ first, n.entries.head? = some first :=
  Option.ne_none_iff_exists'.mp (mt List.head?_eq_none_iff.1 h.nonempty)

theorem Checked.le_last {last : Entry} (h : Checked n) (he : e ∈ n.entries)
    (hlast : n.entries.getLast? = some last) : e.key ≤ last.key := by
  obtain ⟨front, hfront⟩ := List.getLast?_eq_some_iff.1 hlast
  have hasc := h.ascending
  rw [hfront] at he hasc
  rcases List.mem_append.1 he with he | he
  · exact le_of_lt ((List.pairwise_append.1 hasc).2.2 e he last (List.mem_singleton_self _))
  · rw [List.mem_singleton.1 he]

theorem Checked.first_le {first : Entry} (h : Checked n) (he : e ∈ n.entries)
    (hfirst : n.entries.head? = some first) : first.key ≤ e.key := by
  obtain ⟨rest, hrest⟩ := List.head?_eq_some_iff.1 hfirst
  have hasc := h.ascending
  rw [hrest] at he hasc
  rcases List.mem_cons.1 he with rfl | he
  · exact le_rfl
  · exact le_of_lt (List.rel_of_pairwise_cons hasc he)

theorem payloadRangeNode_meets (hr : Checks r) (slot lower upper levels : Nat) :
    Meets (· ≠ .panic) (fun n => ∃ d, levels = d + 1 ∧ r slot = .ok n ∧ Checked n ∧
      Bounded n lower upper levels) (payloadRangeNode r slot lower upper levels) := by
  cases levels with
  | zero => exact .error (by decide)
  | succ d =>
    refine .bind (hr.node slot) fun n hn hchecked => ?_
    obtain ⟨first, hfirst⟩ := hchecked.exists_first
    obtain ⟨last, hlast⟩ := hchecked.exists_last
    simp only [Node.lastKey?, hfirst, hlast, Option.map_some]
    split
    · exact .error (by decide)
    next hbounds =>
      simp only [not_or, not_lt, not_and, ne_eq, Decidable.not_not] at hbounds
      obtain ⟨hlo, hhi, hexact⟩ := hbounds
      refine .ok ⟨d, rfl, hn, hchecked, fun e he => ?_, fun hd => ⟨last, hlast, hexact hd⟩⟩
      exact ⟨le_trans hlo (hchecked.first_le he hfirst), le_trans (hchecked.le_last he hlast) hhi⟩

/-! ## The boundary descents -/

theorem presenceBoundary_right (hr : Checks r) (levels : Nat) :
    ∀ (parent : List Entry) (index lower : Nat) (e : Entry), parent[index]? = some e →
      Meets (· ≠ .panic) (fun _ => ∃ c, (leaves r levels e.slot).getLast? = some c ∧
        Holds (· ≤ e.key) c) (presenceBoundary r true levels parent index lower) := by
  induction levels with
  | zero => exact fun _ _ _ _ _ => .error (by decide)
  | succ levels ih =>
    intro parent index lower e he
    simp only [presenceBoundary, he]
    refine .bind (payloadRangeNode_meets hr ..) fun n _ ⟨_, _, hn, hchecked, hbounds⟩ => ?_
    cases hleaf : n.leaf with
    | true =>
      refine .ok ⟨.ok n.entries, by simp [leaves_leaf hn hleaf], n.entries, rfl, fun f hf => ?_⟩
      exact (hbounds.keys f hf).2
    | false =>
      obtain ⟨last, hlast⟩ := hchecked.exists_last
      have hat : n.entries[n.entries.length - 1]? = some last := by
        rw [← List.getLast?_eq_getElem?, hlast]
      refine .mono (ih n.entries _ _ last hat) fun _ _ ⟨c, hc, es, hes, hkeys⟩ => ?_
      refine ⟨c, ?_, es, hes, fun f hf =>
        le_trans (hkeys f hf) (hbounds.keys last (List.mem_of_getLast? hlast)).2⟩
      rw [leaves_branch hn hleaf, getLast?_cells hlast hc]

theorem presenceBoundary_left (hr : Checks r) (levels : Nat) :
    ∀ (parent : List Entry) (index lower : Nat) (e : Entry), parent[index]? = some e →
      Meets (· ≠ .panic)
        (fun _ => ∃ c, (leaves r levels e.slot).head? = some c ∧
          Holds (childLower parent lower index ≤ ·) c)
        (presenceBoundary r false levels parent index lower) := by
  induction levels with
  | zero => exact fun _ _ _ _ _ => .error (by decide)
  | succ levels ih =>
    intro parent index lower e he
    simp only [presenceBoundary, he]
    refine .bind (payloadRangeNode_meets hr ..) fun n _ ⟨_, _, hn, hchecked, hbounds⟩ => ?_
    cases hleaf : n.leaf with
    | true =>
      refine .ok ⟨.ok n.entries, by simp [leaves_leaf hn hleaf], n.entries, rfl, fun f hf => ?_⟩
      exact (hbounds.keys f hf).1
    | false =>
      obtain ⟨first, hfirst⟩ := hchecked.exists_first
      have hat : n.entries[0]? = some first := by rw [← List.head?_eq_getElem?, hfirst]
      refine .mono (ih n.entries 0 _ first hat) fun _ _ ⟨c, hc, es, hes, hkeys⟩ => ?_
      refine ⟨c, ?_, es, hes, fun f hf => by simpa [childLower] using hkeys f hf⟩
      rw [leaves_branch hn hleaf, head?_cells hfirst hc]

/-! ## Marks -/

/-- A key of some leaf in a list. -/
def Reported (vs : List (List Entry)) (k : Nat) : Prop := ∃ es ∈ vs, ∃ e ∈ es, e.key = k

variable {vs ws : List (List Entry)}

theorem reported_append : Reported (vs ++ ws) k ↔ Reported vs k ∨ Reported ws k := by
  simp only [Reported, List.mem_append, or_and_right, exists_or]

theorem reported_singleton : Reported [es] k ↔ ∃ e ∈ es, e.key = k := by
  simp only [Reported, List.mem_singleton, exists_eq_left]

/-- `present'` is `present` with the keys of the leaves `vs` in the range entered. -/
structure Marks (start stop : Nat) (vs : List (List Entry)) (present present' : List Bool) :
    Prop where
  length : present'.length = present.length
  mark : ∀ k, start ≤ k → k < stop →
    (present'[k - start]? = some true ↔ present[k - start]? = some true ∨ Reported vs k)

theorem Marks.refl (start stop : Nat) (present : List Bool) : Marks start stop [] present present :=
  ⟨rfl, fun k _ _ => ⟨.inl, fun h => h.elim id fun ⟨_, hes, _⟩ => by cases hes⟩⟩

variable {stop : Nat}

theorem Marks.trans {p q s : List Bool}
    (h : Marks start stop vs p q) (h' : Marks start stop ws q s) :
    Marks start stop (vs ++ ws) p s :=
  ⟨h'.length.trans h.length, fun k hlo hhi => by
    rw [h'.mark k hlo hhi, h.mark k hlo hhi, reported_append, or_assoc]⟩

theorem markLeaf_meets (es : List Entry) (hasc : es.Pairwise fun e f => e.key < f.key) :
    ∀ present : List Bool, (∀ e ∈ es, start ≤ e.key) → present.length = stop - start →
      Meets (fun _ => False) (Marks start stop [es] present) (markLeaf start stop es present) := by
  induction es with
  | nil => exact fun present _ _ => .ok ⟨rfl, fun k _ _ => by simp [reported_singleton]⟩
  | cons e es ih =>
    intro present hfrom hlen
    have hstart := hfrom e (.head _)
    obtain ⟨hlt, hasc⟩ := List.pairwise_cons.1 hasc
    rw [markLeaf]
    split
    next hstop =>
      -- every later key is beyond the range as well
      refine .ok ⟨rfl, fun k _ hk => ⟨.inl, fun h => h.resolve_right fun hrep => ?_⟩⟩
      obtain ⟨f, hf, rfl⟩ := reported_singleton.1 hrep
      rcases List.mem_cons.1 hf with rfl | hf
      · omega
      · have := hlt f hf
        omega
    next hstop =>
      rw [if_pos (by omega)]
      have hmeets := ih hasc (present.set (e.key - start) true) (fun f hf => hfrom f (.tail _ hf))
        (by rw [List.length_set, hlen])
      refine .mono hmeets fun present' _ h => ⟨h.length.trans List.length_set, fun k hlo hhi => ?_⟩
      have hset : (present.set (e.key - start) true)[k - start]? = some true ↔
          present[k - start]? = some true ∨ e.key = k := by
        by_cases hk : e.key = k
        · rw [hk, List.getElem?_set_self (by omega)]
          simp
        · rw [List.getElem?_set_ne (by omega)]
          simp [hk]
      rw [h.mark k hlo hhi, hset, or_assoc, reported_singleton, reported_singleton,
        List.exists_mem_cons_iff]

/-! ## What a visit sees -/

/-- Leaves in tree order, split around the visited ones: the neighbours hold no key of
the range. -/
structure Splits (start stop : Nat) (all : List Cell) (before : List Cell) (vs : List (List Entry))
    (after : List Cell) : Prop where
  eq : all = before ++ vs.map .ok ++ after
  below : ∀ c ∈ before.getLast?, Holds (· < start) c
  above : ∀ c ∈ after.head?, Holds (stop ≤ ·) c

/-- Point lookup below a slot finds a key. -/
def Finds (r : Reader) (levels slot k : Nat) : Prop :=
  ∃ found, found ≠ 0 ∧ lookupFrom r k levels slot = .ok found

/-- The visited leaves `vs` of a subtree that answers for the keys `[lower, upper]`. -/
structure Sees (r : Reader) (start stop levels slot lower upper : Nat) (vs : List (List Entry)) :
    Prop where
  within : ∀ k, Reported vs k → lower ≤ k ∧ k ≤ upper
  finds : ∀ k, start ≤ k → k < stop → lower ≤ k → (Reported vs k ↔ Finds r levels slot k)
  splits : ∃ before after, Splits start stop (leaves r levels slot) before vs after ∧
    (start ≤ lower → before = []) ∧ (levels < maxDepth → upper < stop → after = [])

/-- The same for the children `done` of a node, of which the first answers for the keys
from `lower` on, and the children `rest` that are not visited. -/
structure SeesRun (r : Reader) (start stop levels : Nat) (lower : Nat) (done rest : List Entry)
    (vs : List (List Entry)) : Prop where
  stopped : rest = [] ∨ stop ≤ childLower (done ++ rest) lower done.length
  entered : done ≠ [] → lower < stop
  within : ∀ k, Reported vs k → lower ≤ k ∧ ∃ e ∈ done, k ≤ e.key
  finds : ∀ k, start ≤ k → k < stop → lower ≤ k →
    (Reported vs k ↔ ∃ e, (done ++ rest)[search (done ++ rest) k]? = some e ∧
      Finds r levels e.slot k)
  splits : ∃ before after, Splits start stop (cells r levels done) before vs after ∧
    (start ≤ lower → before = []) ∧ ∀ e ∈ done.getLast?, e.key < stop → after = []

variable {lower : Nat} {rest : List Entry}

theorem SeesRun.nil (h : rest = [] ∨ stop ≤ lower) :
    SeesRun r start stop levels lower [] rest [] where
  stopped := by simpa [childLower] using h
  entered := fun h => absurd rfl h
  within := fun k ⟨_, hes, _⟩ => by cases hes
  finds := fun k _ hk hlo => by
    refine ⟨fun ⟨_, hes, _⟩ => (by cases hes), fun ⟨e, he, _⟩ => ?_⟩
    rcases h with rfl | h
    · cases he
    · omega
  splits := ⟨[], [], ⟨rfl, nofun, nofun⟩, fun _ => rfl, nofun⟩

variable {i : Nat}

theorem childLower_succ (h : es[i]? = some e) : childLower es lower (i + 1) = e.key + 1 := by
  rw [childLower, if_neg (Nat.succ_ne_zero _), Nat.add_sub_cancel, h]

theorem childLower_cons {n : Nat} (h : n ≤ es.length) :
    childLower (e :: es) lower (n + 1) = childLower es (e.key + 1) n := by
  cases n with
  | zero => rfl
  | succ n =>
    have hat := List.getElem?_eq_getElem h
    rw [childLower_succ hat, childLower_succ (List.getElem?_cons_succ.trans hat)]

theorem SeesRun.cons {done : List Entry} (hlevels : levels < maxDepth) (hlower : lower ≤ e.key)
    (hstart : start ≤ e.key)
    (hstop : lower < stop) (hsees : Sees r start stop levels e.slot lower e.key vs)
    (hrun : SeesRun r start stop levels (e.key + 1) done rest ws) :
    SeesRun r start stop levels lower (e :: done) rest (vs ++ ws) where
  stopped := by
    rw [List.cons_append, List.length_cons, childLower_cons (by simp)]
    exact hrun.stopped
  entered := fun _ => hstop
  within := fun k hk => by
    rcases reported_append.1 hk with hk | hk
    · exact ⟨(hsees.within k hk).1, e, (.head _), (hsees.within k hk).2⟩
    · obtain ⟨hlo, f, hf, hle⟩ := hrun.within k hk
      exact ⟨by omega, f, .tail _ hf, hle⟩
  finds := fun k hs hk hlo => by
    rw [List.cons_append, reported_append]
    by_cases hle : k ≤ e.key
    · have hws : ¬Reported ws k := fun h => by
        have := (hrun.within k h).1
        omega
      rw [search_cons_of_le hle, or_iff_left hws, hsees.finds k hs hk hlo]
      simp
    · have hvs : ¬Reported vs k := fun h => hle (hsees.within k h).2
      rw [search_cons_of_lt (by omega), or_iff_right hvs, hrun.finds k hs hk (by omega)]
      rfl
  splits := by
    obtain ⟨before, after, hsplit, hbefore, hafter⟩ := hsees.splits
    obtain ⟨before', after', hsplit', hbefore', hafter'⟩ := hrun.splits
    obtain rfl := hbefore' (by omega)
    have hnil : done = [] → ws = [] ∧ after' = [] := fun hdone => by
      have hcells := hsplit'.eq
      rw [hdone, cells_nil, eq_comm] at hcells
      simpa using hcells
    -- another child was visited only because the range goes on behind this one
    have hgoes : done ≠ [] → after =
        [] := fun hdone => hafter hlevels (by have := hrun.entered hdone; omega)
    refine ⟨before, after ++ after', ⟨?_, hsplit.below, ?_⟩, hbefore, fun f hf hfs => ?_⟩
    · rw [cells_cons, hsplit.eq, hsplit'.eq]
      by_cases hdone : done = []
      · simp [hnil hdone]
      · simp [hgoes hdone]
    · intro c hc
      cases hafter'' : after with
      | nil =>
        rw [hafter'', List.nil_append] at hc
        exact hsplit'.above c hc
      | cons d ds =>
        rw [hafter'', List.cons_append, List.head?_cons] at hc
        exact hsplit.above c (by rw [hafter'', List.head?_cons]; exact hc)
    · by_cases hdone : done = []
      · rw [hdone] at hf
        cases hf
        rw [hafter hlevels hfs, (hnil hdone).2]
        rfl
      · rw [List.getLast?_cons_of_ne_nil hdone] at hf
        rw [hgoes hdone, hafter' f hf hfs]
        rfl

theorem rangeChildren_meets (hlevels : levels < maxDepth)
    {visit : (slot lower upper : Nat) → Report → Except Failure Report}
    (hvisit : ∀ slot lower upper rep, rep.present.length = stop - start →
      Meets (· ≠ .panic) (fun rep' => ∃ vs, rep'.visited = rep.visited ++ vs ∧
        Marks start stop vs rep.present rep'.present ∧ Sees r start stop levels slot lower upper vs)
        (visit slot lower upper rep))
    (es : List Entry) (hasc : es.Pairwise fun e f => e.key < f.key) :
    ∀ (lower : Nat) (rep : Report), (∀ e ∈ es, start ≤ e.key ∧ lower ≤ e.key) →
      rep.present.length = stop - start →
      Meets (· ≠ .panic) (fun res => ∃ done vs, es = done ++ res.1 ∧ res.2.visited = rep.visited ++
        vs ∧
        Marks start stop vs rep.present res.2.present ∧
          SeesRun r start stop levels lower done res.1 vs)
        (rangeChildren visit stop es lower rep) := by
  induction es with
  | nil =>
    exact fun lower rep _ _ =>
      .ok ⟨[], [], rfl, (List.append_nil _).symm, .refl .., .nil (.inl rfl)⟩
  | cons e es ih =>
    intro lower rep hfrom hlen
    obtain ⟨hlt, hasc⟩ := List.pairwise_cons.1 hasc
    obtain ⟨hstart, hlower⟩ := hfrom e (.head _)
    rw [rangeChildren]
    split
    next hstop => exact .ok ⟨[], [], rfl, (List.append_nil _).symm, .refl .., .nil (.inr hstop)⟩
    next hstop =>
      refine .bind (hvisit _ _ _ _ hlen) fun rep₁ _ ⟨vs, hvs, hmarks, hsees⟩ => ?_
      have hrest := ih hasc (e.key + 1) rep₁
        (fun f hf => ⟨(hfrom f (.tail _ hf)).1, hlt f hf⟩) (hmarks.length.trans hlen)
      refine .mono hrest fun res _ ⟨done, ws, hes, hws, hmarks', hrun⟩ => ?_
      refine ⟨e :: done, vs ++ ws, by rw [hes]; rfl, by rw [hws, hvs, List.append_assoc],
        hmarks.trans hmarks', ?_⟩
      exact hrun.cons hlevels hlower hstart (by omega) hsees

theorem lookupFrom_node (hr : Checks r) (hn : r slot = .ok n) : lookupFrom r k (levels + 1) slot =
      match n.entries[search n.entries k]? with
      | none => .ok 0
      | some e =>
        if n.leaf then if e.key = k then .ok e.slot else .ok 0
        else lookupFrom r k levels e.slot := by
  cases slot with
  | zero => exact absurd hn (hr.zero n)
  | succ slot =>
    rw [lookupFrom, hn]
    rfl

theorem finds_leaf (hr : Checks r) (hn : r slot = .ok n) (hchecked : Checked n)
    (hleaf : n.leaf = true) :
    Finds r (levels + 1) slot k ↔ ∃ e ∈ n.entries, e.key = k := by
  rw [exists_key_iff_search hchecked.ascending, Finds, lookupFrom_node hr hn]
  cases he : n.entries[search n.entries k]? with
  | none => simp [eq_comm]
  | some e =>
    have hslot := hchecked.allocated e (List.mem_of_getElem? he)
    by_cases hk : e.key = k
    · simp only [hleaf, hk, if_true, Except.ok.injEq, Option.some.injEq, exists_eq_left', iff_true]
      exact ⟨e.slot, hslot, rfl⟩
    · simp only [hleaf, hk, if_true, if_false, Except.ok.injEq, Option.some.injEq, exists_eq_left',
        iff_false]
      rintro ⟨_, hne, rfl⟩
      exact hne rfl

theorem finds_branch (hr : Checks r) (hn : r slot = .ok n) (hleaf : n.leaf = false) :
    Finds r (levels + 1) slot k ↔ ∃ e, n.entries[search n.entries k]? = some e ∧
      Finds r levels e.slot k := by
  rw [Finds, lookupFrom_node hr hn]
  cases he : n.entries[search n.entries k]? with
  | none => simp [eq_comm]
  | some e =>
    simp only [hleaf, Bool.false_eq_true, if_false, Option.some.injEq, exists_eq_left', Finds]

/-! ## The range query -/

theorem Sees.leaf (hr : Checks r) {upper : Nat}
    (hn : r slot = .ok n) (hchecked : Checked n) (hbounds : Bounded n lower upper (levels + 1))
    (hleaf : n.leaf = true) : Sees r start stop (levels + 1) slot lower upper [n.entries] where
  within := by
    intro k hk
    obtain ⟨e, he, rfl⟩ := reported_singleton.1 hk
    exact hbounds.keys e he
  finds := fun k _ _ _ => by rw [finds_leaf hr hn hchecked hleaf, reported_singleton]
  splits := ⟨[], [], ⟨by simp [leaves_leaf hn hleaf], nofun, nofun⟩, fun _ => rfl, fun _ _ => rfl⟩

theorem childLower_le_of_mem_drop (hasc : es.Pairwise fun e f => e.key < f.key)
    (hlower : ∀ e ∈ es, lower ≤ e.key) (he : e ∈ es.drop i) : childLower es lower i ≤ e.key := by
  cases i with
  | zero => exact hlower e he
  | succ i =>
    have hi : i < es.length := by
      by_contra hge
      rw [List.drop_eq_nil_of_le (by omega)] at he
      cases he
    rw [childLower_succ (List.getElem?_eq_getElem hi)]
    rw [← List.take_append_drop (i + 1) es] at hasc
    refine (List.pairwise_append.1 hasc).2.2 _ ?_ e he
    exact List.mem_iff_getElem.2 ⟨i, by rw [List.length_take]; omega, List.getElem_take⟩

theorem le_childLower (hlower : ∀ e ∈ es, lower ≤ e.key) : lower ≤ childLower es lower i := by
  rw [childLower]
  split
  · exact le_rfl
  split
  next e he =>
    have := hlower e (List.mem_of_getElem? he)
    omega
  · exact le_rfl

/-- A key of the range that a node answers for is behind the children it skips. -/
theorem childLower_search_le (hlower : lower ≤ k) (hstart : start ≤ k) :
    childLower es lower (search es start) ≤ k := by
  rw [childLower]
  split
  · exact hlower
  next hne =>
    split
    next e he =>
      have := key_lt_of_mem_take (mem_take_of_getElem? he (show _ < search es start by omega))
      omega
    · exact hlower

theorem Sees.branch (hr : Checks r) {upper : Nat}
    (hn : r slot = .ok n) (hchecked : Checked n) (hbounds : Bounded n lower upper (levels + 1))
    (hleaf : n.leaf = false) {done : List Entry}
    (hcut : n.entries.drop (search n.entries start) = done ++ rest)
    (hrun : SeesRun r start stop levels (childLower n.entries lower (search n.entries start)) done
      rest vs)
    (hbefore : ∀ e ∈ (n.entries.take (search n.entries start)).getLast?,
      ∃ c, (leaves r levels e.slot).getLast? = some c ∧ Holds (· ≤ e.key) c)
    (hafter : ∀ e ∈ rest.head?, ∃ c, (leaves r levels e.slot).head? = some c ∧ Holds (stop ≤ ·) c) :
    Sees r start stop (levels + 1) slot lower upper vs := by
  have hlower := hbounds.lower_le
  have hmem : ∀ e ∈ done ++ rest, e ∈ n.entries := fun e he => List.mem_of_mem_drop (hcut ▸ he)
  have hparts : n.entries = n.entries.take (search n.entries start) ++ (done ++ rest) := by
    rw [← hcut, List.take_append_drop]
  refine ⟨fun k hk => ?_, fun k hs hk hlo => ?_, ?_⟩
  · obtain ⟨hlo, e, he, hle⟩ := hrun.within k hk
    exact ⟨le_trans (le_childLower hlower) hlo,
      le_trans hle (hbounds.keys e (hmem e (List.mem_append_left _ he))).2⟩
  · rw [finds_branch hr hn hleaf, hrun.finds k hs hk (childLower_search_le hlo hs), ← hcut,
      getElem?_search_drop hs]
  obtain ⟨before, after, hsplit, hnone, hend⟩ := hrun.splits
  refine ⟨cells r levels (n.entries.take (search n.entries start)) ++ before, after ++
    cells r levels rest, ⟨?_, fun c hc => ?_, fun c hc => ?_⟩, fun hle => ?_, fun _ hlt => ?_⟩
  · rw [leaves_branch hn hleaf]
    conv_lhs => rw [hparts, cells_append, cells_append, hsplit.eq]
    simp only [List.append_assoc]
  · -- the last leaf before the visited ones: of a visited child, or of the child skipped
    rw [List.getLast?_append, Option.mem_def, Option.or_eq_some_iff] at hc
    rcases hc with hc | ⟨-, hc⟩
    · exact hsplit.below c hc
    cases hlast : (n.entries.take (search n.entries start)).getLast? with
    | none =>
      rw [List.getLast?_eq_none_iff.1 hlast] at hc
      cases hc
    | some e =>
      obtain ⟨d, hd, es, hes, hkeys⟩ := hbefore e hlast
      cases (getLast?_cells hlast hd).symm.trans hc
      have hlt : e.key < start := key_lt_of_mem_take (List.mem_of_getLast? hlast)
      exact ⟨es, hes, fun f hf => lt_of_le_of_lt (hkeys f hf) hlt⟩
  · rw [List.head?_append, Option.mem_def, Option.or_eq_some_iff] at hc
    rcases hc with hc | ⟨-, hc⟩
    · exact hsplit.above c hc
    cases hfirst : rest.head? with
    | none =>
      rw [List.head?_eq_none_iff.1 hfirst] at hc
      cases hc
    | some e =>
      obtain ⟨d, hd, hholds⟩ := hafter e hfirst
      cases (head?_cells hfirst hd).symm.trans hc
      exact hholds
  · have hzero : search n.entries start = 0 := by
      by_contra hne
      obtain ⟨e, es, hes⟩ := List.exists_cons_of_ne_nil hchecked.nonempty
      have := hlower e (by rw [hes]; exact (.head _))
      exact hne (by rw [hes, search_cons_of_le (by omega)])
    rw [hnone (by rw [hzero]; exact hle), hzero]
    rfl
  · have hfrom : ∀ e ∈ done ++ rest, childLower n.entries lower (search n.entries start) ≤ e.key :=
      fun e he => childLower_le_of_mem_drop hchecked.ascending hlower (hcut ▸ he)
    have hasc : (done ++ rest).Pairwise fun e f => e.key < f.key :=
      hcut ▸ hchecked.ascending.sublist (List.drop_sublist _ _)
    have hrest : rest = [] := hrun.stopped.elim id fun hge => by
      refine List.eq_nil_iff_forall_not_mem.2 fun e he => ?_
      have hle := childLower_le_of_mem_drop hasc hfrom (by rwa [List.drop_left])
      have := (hbounds.keys e (hmem e (List.mem_append_right _ he))).2
      omega
    rw [hrest, cells_nil, List.append_nil]
    cases hlast : done.getLast? with
    | none =>
      have hnil := hsplit.eq
      rw [List.getLast?_eq_none_iff.1 hlast, cells_nil, eq_comm] at hnil
      exact (List.append_eq_nil_iff.1 hnil).2
    | some e =>
      obtain ⟨last, hlast', hkey⟩ := hbounds.exact (by assumption)
      rw [hparts, hrest, List.append_nil, List.getLast?_append, hlast] at hlast'
      cases hlast'
      exact hend e hlast (by omega)

theorem childLower_drop {j : Nat} (h : i + j ≤ es.length) :
    childLower (es.drop i) (childLower es lower i) j = childLower es lower (i + j) := by
  cases j with
  | zero => rfl
  | succ j =>
    have hat := List.getElem?_eq_getElem (show i + j < es.length by omega)
    rw [childLower_succ (List.getElem?_drop.trans hat), ← Nat.add_assoc, childLower_succ hat]

theorem reported_drop_search (h : start ≤ k) :
    Reported [es.drop (search es start)] k ↔ Reported [es] k := by
  rw [reported_singleton, reported_singleton]
  constructor
  · rintro ⟨e, he, hk⟩
    exact ⟨e, List.mem_of_mem_drop he, hk⟩
  rintro ⟨e, he, rfl⟩
  rw [← List.take_append_drop (search es start) es] at he
  rcases List.mem_append.1 he with he | he
  · have := key_lt_of_mem_take he
    omega
  · exact ⟨e, he, rfl⟩

theorem checkBefore_meets (hr : Checks r) (levels : Nat) (es : List Entry) (lower : Nat)
    (hi : i ≤ es.length) :
    Meets (· ≠ .panic) (fun _ => ∀ e ∈ (es.take i).getLast?,
      ∃ c, (leaves r levels e.slot).getLast? = some c ∧ Holds (· ≤ e.key) c)
        (checkBefore r levels es i lower) := by
  rw [checkBefore]
  split
  next hpos =>
    have hat := List.getElem?_eq_getElem (show i - 1 < es.length by omega)
    refine .mono (presenceBoundary_right hr levels es (i - 1) lower _ hat) fun _ _ h e he => ?_
    rw [Option.mem_def, List.getLast?_take, if_neg (by omega), hat] at he
    cases he
    exact h
  next hpos =>
    obtain rfl : i = 0 := by omega
    exact .ok nofun

theorem checkAfter_meets (hr : Checks r) (levels : Nat) {pre : List Entry} (lower : Nat)
    (hes : es = pre ++ rest) :
    Meets (· ≠ .panic) (fun _ => ∀ e ∈ rest.head?,
      ∃ c, (leaves r levels e.slot).head? = some c ∧ Holds (childLower es lower pre.length ≤ ·) c)
      (checkAfter r levels es rest lower) := by
  rw [checkAfter]
  split
  next hnil => exact .ok fun e he => by rw [hnil] at he; cases he
  · have hlen : es.length - rest.length = pre.length := by rw [hes, List.length_append]; omega
    obtain ⟨e, fs, hrest⟩ := List.exists_cons_of_ne_nil (by assumption)
    have hat : es[pre.length]? = some e := by rw [hes, hrest]; simp
    rw [hlen]
    refine .mono (presenceBoundary_left hr levels es pre.length lower e hat) fun _ _ h f hf => ?_
    rw [hrest] at hf
    cases hf
    exact h

/-- What a range query says of a subtree, from any node store. -/
theorem payloadRange_meets (hr : Checks r) (start stop : Nat) (levels : Nat)
    (hlevels : levels ≤ maxDepth) :
    ∀ (slot lower upper : Nat) (rep : Report), rep.present.length = stop - start →
      Meets (· ≠ .panic) (fun rep' => ∃ vs, rep'.visited = rep.visited ++ vs ∧
        Marks start stop vs rep.present rep'.present ∧ Sees r start stop levels slot lower upper vs)
        (payloadRange r start stop levels slot lower upper rep) := by
  induction levels with
  | zero => exact fun _ _ _ _ _ => .error (by decide)
  | succ levels ih =>
    intro slot lower upper rep hlen
    rw [payloadRange]
    refine .bind (payloadRangeNode_meets hr ..) fun n _ ⟨_, _, hn, hchecked, hbounds⟩ => ?_
    have hdrop : (n.entries.drop (search n.entries start)).Pairwise fun e f => e.key < f.key :=
      hchecked.ascending.sublist (List.drop_sublist _ _)
    have hfrom : ∀ e ∈ n.entries.drop (search n.entries start), start ≤ e.key :=
      fun e he => le_key_of_mem_drop hchecked.ascending he
    cases hleaf : n.leaf with
    | true =>
      refine .bind ((markLeaf_meets _ hdrop rep.present hfrom hlen).weaken nofun)
        fun present _ hmarks => ?_
      refine .ok
        ⟨[n.entries], rfl, ⟨hmarks.length, fun k hs hk => ?_⟩, .leaf hr hn hchecked hbounds hleaf⟩
      rw [hmarks.mark k hs hk, reported_drop_search hs]
    | false =>
      refine .bind (checkBefore_meets hr levels n.entries lower (search_le ..)) fun _ _ hbefore =>
        ?_
      have hchildren := rangeChildren_meets (by omega) (ih (by omega)) _ hdrop
        (childLower n.entries lower (search n.entries start)) rep
        (fun e he => ⟨hfrom e he, childLower_le_of_mem_drop hchecked.ascending hbounds.lower_le he⟩)
          hlen
      refine .bind hchildren fun (rest, rep') _ ⟨done, vs, hcut, hvisited, hmarks, hrun⟩ => ?_
      have hparts : n.entries = (n.entries.take (search n.entries start) ++ done) ++ rest := by
        rw [List.append_assoc, ← hcut, List.take_append_drop]
      refine .bind (checkAfter_meets hr levels lower hparts) fun _ _ hafter => ?_
      refine .ok
        ⟨vs, hvisited, hmarks, .branch hr hn hchecked hbounds hleaf hcut hrun hbefore fun e he =>
        ?_⟩
      obtain ⟨c, hc, es, hes, hkeys⟩ := hafter e he
      refine ⟨c, hc, es, hes, fun f hf => le_trans ?_ (hkeys f hf)⟩
      -- the loop stopped at this child because its lower bound is behind the range
      have hlow := hrun.stopped.resolve_left fun hnil => by rw [hnil] at he; cases he
      have hlen := length_of_cut hcut
      have htake : (n.entries.take (search n.entries start)).length = search n.entries start :=
        List.length_take_of_le (search_le ..)
      rwa [← hcut, childLower_drop (by omega), ← htake, ← List.length_append] at hlow

/-! ## The claim of the callers -/

/-- What a successful range query says about the block-to-slot map. -/
structure Trustworthy (r : Source) (root start stop : Nat) (rep : Report) : Prop where
  /-- `present` has one answer a block, and it is that of a point lookup. -/
  length : rep.present.length = stop - start
  agrees : ∀ k, start ≤ k → k < stop →
    (rep.present[k - start]? = some true ↔ ∃ slot, slot ≠ 0 ∧ lookup (inspectNode r) root k =
      .ok slot)
  /-- A reported key is a key of a visited leaf, in the range. -/
  reported : ∀ i, rep.present[i]? = some true → start + i < stop ∧
    ∃ es ∈ rep.visited, ∃ e ∈ es, e.key = start + i
  /-- The visited leaves are consecutive, and both neighbours hold no key of the range. -/
  neighbours : ∃ before after : List Cell,
    leaves (inspectNode r) maxDepth root = before ++ rep.visited.map .ok ++ after ∧
    (∀ c ∈ before.getLast?, ∃ es, c = .ok es ∧ ∀ e ∈ es, e.key < start) ∧
    ∀ c ∈ after.head?, ∃ es, c = .ok es ∧ ∀ e ∈ es, stop ≤ e.key

theorem payloadPresence_meets (r : Source) (root start stop : Nat) :
    Meets (· ≠ .panic) (Trustworthy r root start stop) (payloadPresence r root start stop) := by
  have hmeets := payloadRange_meets (inspectNode_checks r) start stop maxDepth le_rfl root 0
    (r.total - 1)
    ⟨List.replicate (stop - start) false, []⟩ List.length_replicate
  refine .mono hmeets fun rep _ ⟨vs, hvisited, hmarks, hsees⟩ => ?_
  obtain rfl : rep.visited = vs := by rw [hvisited, List.nil_append]
  have hlen : rep.present.length = stop - start := hmarks.length.trans List.length_replicate
  have hfalse : ∀ i, (List.replicate (stop - start) false)[i]? ≠ some true := fun i h => by
    have := List.eq_of_mem_replicate (List.mem_of_getElem? h)
    cases this
  refine ⟨hlen, fun k hs hk => ?_, fun i hi => ?_, ?_⟩
  · rw [hmarks.mark k hs hk, or_iff_right (hfalse _), hsees.finds k hs hk (Nat.zero_le _)]
    rfl
  · have hlt : i < stop - start := by
      rw [← hlen]
      exact (List.getElem?_eq_some_iff.1 hi).1
    have hmark := hmarks.mark (start + i) (by omega) (by omega)
    rw [Nat.add_sub_cancel_left] at hmark
    obtain ⟨es, hes, e, he, hkey⟩ := (hmark.1 hi).resolve_left (hfalse _)
    exact ⟨by omega, es, hes, e, he, hkey⟩
  · obtain ⟨before, after, hsplit, -, -⟩ := hsees.splits
    exact ⟨before, after, hsplit.eq, hsplit.below, hsplit.above⟩

/-- On any index contents a range query that succeeds agrees with point lookup; it goes
down at most `maxDepth` levels and never indexes outside `present`. -/
theorem payloadPresence_trustworthy (r : Source) (root start stop : Nat) :
    (∀ rep, payloadPresence r root start stop = .ok rep → Trustworthy r root start stop rep) ∧
    payloadPresence r root start stop ≠ .error .panic ∧
    ∀ slot lower upper rep, payloadRange (inspectNode r) start stop 0 slot lower upper rep =
      .error depthExceeded :=
  ⟨fun _ hrep => (payloadPresence_meets r root start stop).of_ok hrep,
    fun herr => (payloadPresence_meets r root start stop).of_error herr rfl, fun _ _ _ _ => rfl⟩

/-- A root at slot 3 over the leaves at slots 1 and 2; `separator` is the key the root has
for the first of them, whose last key is 4. -/
def twoLeaves (separator : Nat) : Source where
  page p :=
    if p = slotPage 1 then some (.index 1 [⟨1, 4⟩, ⟨4, 5⟩])
    else if p = slotPage 2 then some (.index 1 [⟨6, 6⟩, ⟨9, 7⟩])
    else if p = slotPage 3 then some (.index 0 [⟨separator, 1⟩, ⟨9, 2⟩])
    else none
  next := 8
  total := 16
  allocated := by decide

theorem payloadPresence_two_leaves :
    payloadPresence (twoLeaves 4) 3 3 8 = .ok
      ⟨[false, true, false, true, false], [[⟨1, 4⟩, ⟨4, 5⟩], [⟨6, 6⟩, ⟨9, 7⟩]]⟩ ∧
    Trustworthy (twoLeaves 4) 3 3 8
      ⟨[false, true, false, true, false], [[⟨1, 4⟩, ⟨4, 5⟩], [⟨6, 6⟩, ⟨9, 7⟩]]⟩ := by
  have hrun : payloadPresence (twoLeaves 4) 3 3 8 =
      .ok ⟨[false, true, false, true, false], [[⟨1, 4⟩, ⟨4, 5⟩], [⟨6, 6⟩, ⟨9, 7⟩]]⟩ := by decide
  exact ⟨hrun, (payloadPresence_trustworthy (twoLeaves 4) 3 3 8).1 _ hrun⟩

-- an understated separator hides key 4 from point lookup; the range query refuses to answer
example : lookup (inspectNode (twoLeaves 3)) 3 4 = .ok 0 ∧
    payloadPresence (twoLeaves 3) 3 4 5 = .error invalidChildRange := by decide

end Sandboxer.Versioned
