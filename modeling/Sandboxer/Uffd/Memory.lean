import Sandboxer.Uffd.AddressMap

/-! # Guest memory

The memfd shared by Cloud Hypervisor and the backend as a partial map from
pages to bytes (a page that is not resident is a hole of the file), the page
sets of `memory.Dirty`, and what the kernel reports: `SEEK_DATA`/`SEEK_HOLE` on
the memfd and the completion of a userfaultfd fill. -/
namespace Sandboxer.Uffd

abbrev Byte := UInt8

abbrev Page := Fin pageSize → Byte

def zeroPage : Page := fun _ => 0

def pageOf (data : Nat → Byte) (j : Nat) : Page := fun k => data (pageSize * j + k)

abbrev Memfd := Nat → Option Page

/-! ## Dirty page sets -/

/-- `memory.Dirty`: the marked pages of a RAM of `size` bytes. -/
structure Dirty where
  size : Nat
  pages : Nat → Bool
  inside : ∀ i, pages i = true → pageSize * i < size

namespace Dirty

/-- `NewDirty`. -/
def new (size : Nat) : Dirty := ⟨size, fun _ => false, nofun⟩

theorem touch_inside (d : Dirty) {offset length i : Nat} (h : offset + length ≤ d.size)
    (hi : (d.pages i ||
    decide (offset / pageSize ≤ i ∧ i < (offset + length + pageSize - 1) / pageSize)) = true) :
      pageSize * i < d.size := by
  simp only [Bool.or_eq_true, decide_eq_true_eq] at hi
  rcases hi with hi | hi
  · exact d.inside i hi
  · simp only [pageSize] at *
    omega

/-- The pages a range touches, added to a set. -/
def touch (d : Dirty) (offset length : Nat) (h : offset + length ≤ d.size) : Dirty where
  size := d.size
  pages i := d.pages i ||
    decide (offset / pageSize ≤ i ∧ i < (offset + length + pageSize - 1) / pageSize)
  inside _ := d.touch_inside h

/-- `Mark`: every page the range touches; `none` is the range error. -/
def mark (d : Dirty) (offset length : Nat) : Option Dirty :=
  if h : d.size < offset ∨ d.size - offset < length then none
  else if length = 0 then some d
  else some (d.touch offset length (by omega))

/-- A `Mark` where the caller drops the error. -/
def marked (d : Dirty) (offset length : Nat) : Dirty := (d.mark offset length).getD d

variable {d d' : Dirty} {o l : Nat}

theorem mark_size (h : d.mark o l = some d') : d'.size = d.size := by
  unfold mark at h
  split at h
  · cases h
  · split at h <;> cases h <;> rfl

variable {i : Nat}

theorem mark_mono (h : d.mark o l = some d') (hi : d.pages i = true) : d'.pages i = true := by
  unfold mark at h
  split at h
  · cases h
  · split at h <;> cases h
    · exact hi
    · simp [touch, hi]

/-- A `Mark` covers every page that has a byte of the range. -/
theorem mark_covers (h : d.mark o l = some d') (hl : 0 < l)
    (hlo : o < pageSize * (i + 1)) (hhi : pageSize * i < o + l) : d'.pages i = true := by
  unfold mark at h
  split at h
  · cases h
  split at h <;> cases h
  · omega
  · simp only [touch, Bool.or_eq_true, decide_eq_true_eq]
    simp only [pageSize] at *
    omega

@[simp] theorem marked_size (d : Dirty) (o l : Nat) : (d.marked o l).size = d.size := by
  unfold marked
  cases h : d.mark o l with
  | none => rfl
  | some d' => exact mark_size h

/-- A page-aligned range inside the RAM marks exactly its pages. -/
theorem marked_pages (ho : pageSize ∣ o) (hl : pageSize ∣ l) (hb : o + l ≤ d.size) :
    (d.marked o l).pages i = true ↔
      d.pages i = true ∨ (o ≤ pageSize * i ∧ pageSize * i < o + l) := by
  unfold marked mark
  rw [dif_neg (by omega)]
  split
  · constructor
    · exact .inl
    · rintro (h | h)
      · exact h
      · omega
  · simp only [Option.getD_some, touch, Bool.or_eq_true, decide_eq_true_eq]
    refine or_congr .rfl ?_
    simp only [pageSize] at *
    omega

end Dirty

/-! ## Residency as the kernel reports it -/

/-- An `lseek(SEEK_DATA)` on a memfd of `n` pages; `none` is `ENXIO`. -/
def seekData (mem : Memfd) (n off : Nat) : Option Nat :=
  ((List.range n).find? fun i => (mem i).isSome && decide (off < pageSize * (i + 1))).map fun i =>
    max off (pageSize * i)

/-- An `lseek(SEEK_HOLE)`: the end of the file is a hole. -/
def seekHole (mem : Memfd) (n off : Nat) : Nat :=
  match (List.range n).find? fun i => (mem i).isNone && decide (off < pageSize * (i + 1)) with
  | some i => max off (pageSize * i)
  | none => max off (pageSize * n)

variable {n i : Nat}

theorem find_range {p : Nat → Bool} (h : (List.range n).find? p = some i) :
    i < n ∧ p i = true ∧ ∀ j < i, p j = false := by
  rw [List.find?_range_eq_some] at h
  exact ⟨by simpa using h.2.1, h.1, fun j hj => by simpa using h.2.2 j hj⟩

theorem find_range_none {p : Nat → Bool} (h : (List.range n).find? p = none) {j : Nat}
    (hj : j < n) : p j = false := by
  simpa using List.find?_eq_none.1 h j (List.mem_range.2 hj)

section Seek

variable {mem : Memfd} {n off d : Nat}

theorem seekData_some (h : seekData mem n off = some d) :
    ∃ i < n, (mem i).isSome ∧ off < pageSize * (i + 1) ∧ d = max off (pageSize * i) ∧
      ∀ j < i, (mem j).isSome → pageSize * (j + 1) ≤ off := by
  obtain ⟨i, hf, rfl⟩ := Option.map_eq_some_iff.1 h
  obtain ⟨hi, hp, hlt⟩ := find_range hf
  simp only [Bool.and_eq_true, decide_eq_true_eq] at hp
  refine ⟨i, hi, hp.1, hp.2, rfl, fun j hj hr => ?_⟩
  have := hlt j hj
  simp only [hr, Bool.true_and, decide_eq_false_iff_not] at this
  omega

theorem seekData_none (h : seekData mem n off = none) {j : Nat} (hj : j < n)
    (hr : (mem j).isSome) : pageSize * (j + 1) ≤ off := by
  have := find_range_none (Option.map_eq_none_iff.1 h) hj
  simp only [hr, Bool.true_and, decide_eq_false_iff_not] at this
  omega

/-- From a resident byte on, everything up to `SEEK_HOLE` is resident, and
what follows is the end of the file or a page that is not. -/
theorem seekHole_spec {i : Nat} (hi : i < n) (hr : (mem i).isSome) (hlo : pageSize * i ≤ d)
    (hhi : d < pageSize * (i + 1)) :
    ∃ e, i < e ∧ e ≤ n ∧ seekHole mem n d = pageSize * e ∧ (∀ j, i ≤ j → j < e → (mem j).isSome) ∧
      (e < n → mem e = none) := by
  have above : ∀ j, (mem j).isNone = true → d < pageSize * (j + 1) → i < j := by
    intro j hj hd
    have hne : i ≠ j := by rintro rfl; rw [← Option.not_isSome, hr] at hj; cases hj
    simp only [pageSize] at *
    omega
  unfold seekHole
  cases hf : (List.range n).find? fun i => (mem i).isNone && decide (d < pageSize * (i + 1)) with
  | none =>
    refine ⟨n, hi, Nat.le_refl _, ?_, fun j hij hj => ?_, fun h => absurd h (Nat.lt_irrefl _)⟩
    · simp only [pageSize] at *
      omega
    · have := find_range_none hf hj
      have hd : d < pageSize * (j + 1) := by simp only [pageSize] at *; omega
      simpa [hd] using this
  | some e =>
    obtain ⟨he, hp, hlt⟩ := find_range hf
    simp only [Bool.and_eq_true, decide_eq_true_eq] at hp
    have hie := above e hp.1 hp.2
    refine ⟨e, hie, Nat.le_of_lt he, ?_, fun j hij hj => ?_, fun _ => by simpa using hp.1⟩
    · simp only [pageSize] at *
      omega
    · have := hlt j hj
      have hd : d < pageSize * (j + 1) := by simp only [pageSize] at *; omega
      simpa [hd] using this

end Seek

/-! ## Seeding the dirty set of a region -/

/-- The inner loop of `seedRegion`: mark every resident byte of `[off, stop)`. -/
def seedScan (mem : Memfd) (n stop : Nat) : Nat → Nat → Dirty → Option Dirty
  | 0, _, d => some d
  | fuel + 1, off, d =>
    if stop ≤ off then some d
    else match seekData mem n off with
      | none => some d
      | some data =>
        if stop ≤ data then some d
        else
          let hole := seekHole mem n data
          if hole ≤ data then none
          else match d.mark data (min hole stop - data) with
            | none => none
            | some d' => seedScan mem n stop fuel hole d'

/-- The scan keeps every mark. -/
theorem seedScan_mono {mem : Memfd} {stop fuel off : Nat} {d d' : Dirty}
    (h : seedScan mem n stop fuel off d = some d') :
    d'.size = d.size ∧ (d.pages i = true → d'.pages i = true) := by
  induction fuel generalizing off d with
  | zero => cases h; exact ⟨rfl, id⟩
  | succ fuel ih =>
    unfold seedScan at h
    split at h
    · cases h; exact ⟨rfl, id⟩
    split at h
    · cases h; exact ⟨rfl, id⟩
    split at h
    · cases h; exact ⟨rfl, id⟩
    · simp only at h
      split at h
      · cases h
      split at h
      · cases h
      next hm =>
        obtain ⟨h1, h2⟩ := ih h
        exact ⟨h1.trans (Dirty.mark_size hm), fun hi => h2 (Dirty.mark_mono hm hi)⟩

/-- The scan marks every resident page of the region. -/
theorem seedScan_covers {mem : Memfd} {stop fuel off : Nat} {d d' : Dirty}
    (hstop : pageSize ∣ stop) (hfuel : stop < off + fuel)
    (h : seedScan mem n stop fuel off d = some d') (hi : i < n) (hr : (mem i).isSome)
    (hlo : off < pageSize * (i + 1)) (hhi : pageSize * i < stop) : d'.pages i = true := by
  induction fuel generalizing off d with
  | zero => simp only [pageSize] at *; omega
  | succ fuel ih =>
    unfold seedScan at h
    rw [if_neg (by simp only [pageSize] at *; omega)] at h
    cases hd : seekData mem n off with
    | none => have := seekData_none hd hi hr; omega
    | some data =>
      obtain ⟨k, hk, hkr, hoff, hdata, hbelow⟩ := seekData_some hd
      have hki : k ≤ i := by
        by_contra hki
        have := hbelow i (by omega) hr
        omega
      obtain ⟨e, hke, hen, hhole, hin, hout⟩ :=
        seekHole_spec (d := data) hk hkr (by omega) (by simp only [pageSize] at *; omega)
      have hlt : data < pageSize * e := by simp only [pageSize] at *; omega
      simp only [hd, hhole] at h
      rw [if_neg (by simp only [pageSize] at *; omega), if_neg (by omega)] at h
      split at h
      · cases h
      next d₁ hm =>
        by_cases hie : i < e
        · have hmi := Dirty.mark_covers (i := i) hm (by simp only [pageSize] at *; omega)
            (by simp only [pageSize] at *; omega) (by simp only [pageSize] at *; omega)
          exact (seedScan_mono h).2 hmi
        · exact ih (by simp only [pageSize] at *; omega) h (by simp only [pageSize] at *; omega)

end Sandboxer.Uffd
