import Mathlib.Data.List.Range
import Mathlib.Data.List.Nodup

/-! # Slices of a memory

A slice is a run of cells with a length and a capacity, as in Go. A list of
slices names a stream of cells, and `load` and `store` move values along such
a stream; how the stream is cut into slices does not matter to them. -/
namespace Sandboxer.Lib.Slices

variable {α : Type}

/-- Values at the first cells of a stream, in order; the rest keeps its value. -/
def store (mem : Nat → α) : List Nat → List α → Nat → α
  | c :: cs, x :: xs => store (Function.update mem c x) cs xs
  | _, _ => mem

variable (mem : Nat → α)

/-- The values of a stream of cells. -/
def load (cs : List Nat) : List α := cs.map mem

@[simp] theorem store_nil_left (xs : List α) : store mem [] xs = mem := by
  cases xs <;> rfl

@[simp] theorem store_nil_right (cs : List Nat) : store mem cs [] = mem := by
  cases cs <;> rfl

@[simp] theorem store_cons (c : Nat) (cs : List Nat) (x : α) (xs : List α) :
    store mem (c :: cs) (x :: xs) = store (Function.update mem c x) cs xs := rfl

@[simp] theorem length_load (cs : List Nat) : (load mem cs).length = cs.length :=
  List.length_map ..

/-- Values are stored one after the other along the stream. -/
theorem store_append (cs : List Nat) (xs ys : List α) (h : xs.length ≤ cs.length) :
    store mem cs (xs ++ ys) = store (store mem cs xs) (cs.drop xs.length) ys := by
  induction cs generalizing mem xs with
  | nil =>
    obtain rfl := List.length_eq_zero_iff.1 (Nat.le_zero.1 h)
    simp
  | cons c cs ih =>
    cases xs with
    | nil => simp
    | cons x xs => exact ih _ xs (Nat.le_of_succ_le_succ h)

/-- A stream of two parts. -/
theorem store_split (cs ds : List Nat) (xs : List α) :
    store mem (cs ++ ds) xs = store (store mem cs (xs.take cs.length)) ds (xs.drop cs.length) := by
  induction cs generalizing mem xs with
  | nil => simp
  | cons c cs ih =>
    cases xs with
    | nil => simp
    | cons x xs => exact ih _ xs

/-- Only the cells that get a value matter. -/
theorem store_cut (cs ds : List Nat) (xs : List α) (h : xs.length ≤ cs.length) :
    store mem (cs ++ ds) xs = store mem cs xs := by
  rw [store_split, List.take_of_length_le h, List.drop_of_length_le h, store_nil_right]

theorem store_take (cs : List Nat) (xs : List α) {n : Nat} (h : xs.length ≤ n)
    (hn : n ≤ cs.length) : store mem (cs.take n) xs = store mem cs xs := by
  have hlen : xs.length ≤ (cs.take n).length := by rwa [List.length_take, min_eq_left hn]
  have hcut := store_cut mem (cs.take n) (cs.drop n) xs hlen
  rwa [List.take_append_drop, eq_comm] at hcut

theorem store_of_notMem (cs : List Nat) (xs : List α) {c : Nat} (h : c ∉ cs) :
    store mem cs xs c = mem c := by
  induction cs generalizing mem xs with
  | nil => simp
  | cons d cs ih =>
    cases xs with
    | nil => simp
    | cons x xs =>
      obtain ⟨hne, hc⟩ := not_or.1 (List.mem_cons.not.1 h)
      rw [store_cons, ih _ _ hc, Function.update_of_ne hne]

/-- What was stored is read back, as far as it goes. -/
theorem load_store {cs : List Nat} (hcs : cs.Nodup) (xs : List α) {n : Nat} (hn : n ≤ cs.length)
    (hx : n ≤ xs.length) : load (store mem cs xs) (cs.take n) = xs.take n := by
  induction cs generalizing mem xs n with
  | nil =>
    obtain rfl := Nat.le_zero.1 hn
    rfl
  | cons c cs ih =>
    obtain ⟨hc, hcs⟩ := List.nodup_cons.1 hcs
    cases n with
    | zero => rfl
    | succ n =>
      cases xs with
      | nil => exact absurd hx (Nat.not_succ_le_zero n)
      | cons x xs =>
        have hrest := ih (Function.update mem c x) hcs xs (Nat.le_of_succ_le_succ hn)
          (Nat.le_of_succ_le_succ hx)
        have hhead : store (Function.update mem c x) cs xs c = x := by
          rw [store_of_notMem _ _ _ hc, Function.update_self]
        exact List.cons_eq_cons.2 ⟨hhead, hrest⟩

/-- Storing what is there changes nothing. -/
theorem store_load (cs : List Nat) : store mem cs (load mem cs) = mem := by
  induction cs with
  | nil => rfl
  | cons c cs ih =>
    show store (Function.update mem c (mem c)) cs (load mem cs) = mem
    rw [Function.update_eq_self, ih]

/-- A buffer of which only the front changed, put back: only the front is stored. -/
theorem store_front {cs : List Nat} (hcs : cs.Nodup) (xs : List α) (h : xs.length ≤ cs.length) :
    store mem cs (xs ++ (load mem cs).drop xs.length) = store mem cs xs := by
  have hload : (load mem cs).drop xs.length = load (store mem cs xs) (cs.drop xs.length) := by
    rw [load, ← List.map_drop]
    refine List.map_congr_left fun c hc => ?_
    have hdisj := List.disjoint_take_drop hcs (Nat.le_refl xs.length)
    rw [← store_take mem cs xs le_rfl h, store_of_notMem _ _ _ fun ht => hdisj ht hc]
  rw [store_append mem cs xs _ h, hload, store_load]

/-- A slice: `len` cells from `base`, and `cap` cells up to the end of its memory. -/
structure Slice where
  base : Nat
  len : Nat
  cap : Nat
  deriving DecidableEq, Repr

variable (s : Slice)

namespace Slice

/-- The cells of a slice, in order. -/
def cells : List Nat := List.range' s.base s.len

/-- `s[n:]`. -/
def drop (n : Nat) : Slice := ⟨s.base + n, s.len - n, s.cap - n⟩

/-- `s[:n]`; the slice may grow up to its capacity. -/
def take (n : Nat) : Slice := ⟨s.base, n, s.cap⟩

@[simp] theorem length_cells : s.cells.length = s.len := List.length_range'

theorem nodup_cells : s.cells.Nodup := List.nodup_range'

theorem cells_drop (n : Nat) : (s.drop n).cells = s.cells.drop n := by
  simp [cells, drop, List.drop_range']

theorem cells_take {n : Nat} (h : n ≤ s.len) : (s.take n).cells = s.cells.take n := by
  obtain ⟨k, hk⟩ := Nat.exists_eq_add_of_le h
  rw [cells, cells, take, hk, ← List.range'_append_1, List.take_left' List.length_range']

end Slice

/-- The stream of cells that slices name together. -/
def cells (segs : List Slice) : List Nat := segs.flatMap Slice.cells

@[simp] theorem cells_nil : cells [] = [] := rfl

@[simp] theorem cells_cons (segs : List Slice) : cells (s :: segs) = s.cells ++ cells segs :=
  rfl

theorem cells_append (xs ys : List Slice) : cells (xs ++ ys) = cells xs ++ cells ys :=
  List.flatMap_append

end Sandboxer.Lib.Slices
