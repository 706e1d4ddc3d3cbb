import Sandboxer.Artifact.Location

/-! # A published object stays published

Only its creator writes to an inode or unlinks it, and a descriptor keeps the
number of an inode from being given away while it is compared. What a publisher
returns was complete and valid at the path; it stays there as long as no creator
fails after its object is complete. -/
namespace Sandboxer.Artifact.Location

open Lib.Threads Lib.Threads.Routine

variable {ι : Type} (S : Setting ι)

/-- A prefix of an encoding is valid when it is all of it. -/
structure Setting.Checks : Prop where
  accepts : ∀ t, S.valid (S.encoding t) = true
  only : ∀ t bytes, bytes <+: S.encoding t → S.valid bytes = true → bytes = S.encoding t

/-- No publisher fails after its object is complete. -/
def Setting.Steady : Prop := ∀ t, ¬S.late t

/-- The file is completely written and valid. -/
structure File.Whole (f : File ι) : Prop where
  bytes : f.bytes = S.encoding f.creator
  valid : S.valid f.bytes = true

/-- The path holds this creation, complete. -/
def Holds (birth : Nat) (d : Directory ι) : Prop :=
  ∃ i f, d.path = some i ∧ d.file i = some f ∧ f.birth = birth ∧ f.Whole S

/-- The path has held this creation, complete. -/
def Held (birth : Nat) (d : Directory ι) : Prop :=
  ∃ f, some f ∈ d.views ∧ f.birth = birth ∧ f.Whole S

/-- What a publisher knows that may return success. -/
structure Published (birth : Nat) (d : Directory ι) : Prop where
  held : Held S birth d
  stays : S.Steady → Holds S birth d

/-! ## Invariant, rely and guarantee -/

structure Inv (d : Directory ι) : Prop where
  linked : ∀ i, d.path = some i → ∃ f, d.file i = some f
  pinned : ∀ u slot i, d.opened u slot = some i → ∃ f, d.file i = some f
  part : ∀ i f, d.file i = some f → f.bytes <+: S.encoding f.creator
  seen : d.view ∈ d.views
  success : ∀ u birth, d.result u = some (.ok birth) → Published S birth d

/-- What publisher `t` can count on while others move. -/
structure Rely (t : ι) (d d' : Directory ι) : Prop where
  opened : d'.opened t = d.opened t
  result : d'.result t = d.result t
  pinned : ∀ slot i f, d.opened t slot = some i → d.file i = some f → ∃ bytes,
    d'.file i = some { f with bytes } ∧ f.bytes <+: bytes ∧ (f.creator = t → bytes = f.bytes)
  path : ∀ i f, d.path = some i → d.file i = some f → f.creator = t → d'.path = some i
  views : d.views ⊆ d'.views
  holds : S.Steady → ∀ birth, Holds S birth d → Holds S birth d'

/-- What publisher `t` does to the files. -/
structure Guar (t : ι) (d d' : Directory ι) : Prop where
  opened : ∀ u, u ≠ t → d'.opened u = d.opened u
  result : ∀ u, u ≠ t → d'.result u = d.result u
  file : ∀ i f, d.file i = some f → d'.file i = some f ∨ d.Free i ∨
    (f.creator = t ∧ ∃ bytes, f.bytes <+: bytes ∧ d'.file i = some { f with bytes })
  path : d'.path = d.path ∨ d.path = none ∨ ∃ i f, d.path = some i ∧ d.file i = some f ∧
    f.creator = t ∧
    d'.path = none ∧ (S.late t ∨ f.bytes ≠ S.encoding t)
  views : d.views ⊆ d'.views

variable {S} {bytes : List UInt8}

section Moves

variable {t u : ι} {d d' : Directory ι} {i birth : Nat} {f : File ι}

theorem Guar.refl (d : Directory ι) : Guar S t d d :=
  ⟨fun _ _ => rfl, fun _ _ => rfl, fun _ _ h => .inl h, .inl rfl, List.Subset.refl _⟩

theorem File.Whole.eq (hw : f.Whole S) (hpre : f.bytes <+: bytes)
    (hpart : bytes <+: S.encoding f.creator) : bytes = f.bytes := by
  rw [hw.bytes] at hpre ⊢
  exact hpart.eq_of_length_le hpre.length_le

section

variable (hg : Guar S t d d')

include hg

/-- A path is left alone unless it is the publisher's own and not one it must keep. -/
theorem Guar.stays (hpath : d.path = some i) (hf : d.file i = some f) :
    d'.path = some i ∨ f.creator = t ∧ (S.late t ∨ f.bytes ≠ S.encoding t) := by
  rcases hg.path with h | h | ⟨j, g, hj, hgf, hgt, -, hlate⟩
  · exact .inl (h.trans hpath)
  · cases hpath.symm.trans h
  · cases hpath.symm.trans hj
    cases hf.symm.trans hgf
    exact .inr ⟨hgt, hlate⟩

theorem Guar.holds (hpart' : ∀ i f, d'.file i = some f → f.bytes <+: S.encoding f.creator)
    (hsteady : S.Steady) (hh : Holds S birth d) : Holds S birth d' := by
  obtain ⟨i, f, hpath, hf, hbirth, hw⟩ := hh
  have hfile : d'.file i = some f := by
    rcases hg.file i f hf with h | h | ⟨-, bytes, hpre, h⟩
    · exact h
    · exact absurd hpath h.1
    · rw [h, hw.eq hpre (hpart' i _ h)]
  rcases hg.stays hpath hf with h | ⟨rfl, h | h⟩
  · exact ⟨i, f, h, hfile, hbirth, hw⟩
  · exact absurd h (hsteady _)
  · exact absurd hw.bytes h

theorem Guar.rely (hne : t ≠ u) (hi' : Inv S d') : Rely S u d d' where
  opened := hg.opened u (Ne.symm hne)
  result := hg.result u (Ne.symm hne)
  pinned := by
    intro slot i f hslot hf
    rcases hg.file i f hf with h | h | ⟨hcreator, bytes, hpre, h⟩
    · exact ⟨f.bytes, h, List.prefix_refl _, fun _ => rfl⟩
    · exact absurd hslot (h.2 u slot)
    · exact ⟨bytes, h, hpre, fun hu => absurd (hcreator.symm.trans hu) hne⟩
  path := fun _ _ hpath hf hcreator =>
    (hg.stays hpath hf).resolve_right fun h => hne (h.1.symm.trans hcreator)
  views := hg.views
  holds := fun hsteady _ hh => hg.holds hi'.part hsteady hh

/-- A move that keeps the files in order and reports nothing keeps the invariant. -/
theorem Guar.inv (hi : Inv S d) (hlinked : ∀ i, d'.path = some i → ∃ f, d'.file i = some f)
    (hpinned : ∀ u slot i, d'.opened u slot = some i → ∃ f, d'.file i = some f)
    (hpart : ∀ i f, d'.file i = some f → f.bytes <+: S.encoding f.creator)
    (hseen : d'.view ∈ d'.views) (hresult : d'.result = d.result) : Inv S d' := by
  refine ⟨hlinked, hpinned, hpart, hseen, fun u birth hu => ?_⟩
  rw [hresult] at hu
  obtain ⟨⟨f, hmem, hrest⟩, hstays⟩ := hi.success u birth hu
  exact ⟨⟨f, hg.views hmem, hrest⟩, fun hs => hg.holds hpart hs (hstays hs)⟩

end

theorem sound (S : Setting ι) : Sound (Inv S) (Rely S) (Guar S) fun _ _ => False where
  compatible := fun _ _ hne _ _ _ hi' hg => hg.rely hne hi'
  env_inv := fun _ _ _ h => h.elim
  env_rely := fun _ _ _ _ h => h.elim

end Moves

/-! ## Assertions -/

/-- The publisher has its own inode open. -/
structure Owns (t : ι) (slot : Slot) (i : Nat) (c : List UInt8 → Prop) (d : Directory ι) :
    Prop where
  opened : d.opened t slot = some i
  file : ∃ f, d.file i = some f ∧ f.creator = t ∧ c f.bytes

/-- The publisher has a complete file of this creation open. -/
structure Found (S : Setting ι) (t : ι) (slot : Slot) (i birth : Nat) (d : Directory ι) : Prop where
  opened : d.opened t slot = some i
  file : ∃ f, d.file i = some f ∧ f.birth = birth ∧ f.Whole S

section Stability

variable {t : ι} {slot : Slot} {i birth : Nat} {c : List UInt8 → Prop}

instance Owns.firm : Firm (Inv S) (Rely S t) (Owns t slot i c) := by
  refine ⟨fun d d' _ _ ho hr => ?_⟩
  obtain ⟨f, hf, hcreator, hc⟩ := ho.file
  obtain ⟨bytes, hfile, -, heq⟩ := hr.pinned slot i f ho.opened hf
  refine ⟨by rw [hr.opened, ho.opened], _, hfile, hcreator, ?_⟩
  rw [heq hcreator]
  exact hc

instance Found.firm : Firm (Inv S) (Rely S t) (Found S t slot i birth) := by
  refine ⟨fun d d' _ hi' hfound hr => ?_⟩
  obtain ⟨f, hf, hbirth, hw⟩ := hfound.file
  obtain ⟨bytes, hfile, hpre, -⟩ := hr.pinned slot i f hfound.opened hf
  rw [hw.eq hpre (hi'.part i _ hfile)] at hfile
  exact ⟨by rw [hr.opened, hfound.opened], f, hfile, hbirth, hw⟩

instance Published.firm : Firm (Inv S) (Rely S t) (Published S birth) := by
  refine ⟨fun d d' _ _ hp hr => ?_⟩
  obtain ⟨f, hmem, hrest⟩ := hp.held
  exact ⟨⟨f, hr.views hmem, hrest⟩, fun hs => hr.holds hs _ (hp.stays hs)⟩

/-- The publisher's own inode is at the path. -/
def AtPath (t : ι) (slot : Slot) (i : Nat) (c : List UInt8 → Prop) (d : Directory ι) : Prop :=
  Owns t slot i c d ∧ d.path = some i

instance AtPath.firm : Firm (Inv S) (Rely S t) (AtPath t slot i c) := by
  refine ⟨fun d d' hi hi' ha hr => ?_⟩
  obtain ⟨f, hf, hcreator, -⟩ := ha.1.file
  exact ⟨Owns.firm.stable d d' hi hi' ha.1 hr, hr.path i f ha.2 hf hcreator⟩

/-- The descriptor of the publisher is of this inode. -/
instance opened_firm (j : Nat) : Firm (Inv S) (Rely S t) fun d => d.opened t slot = some j :=
  ⟨fun _ _ _ _ ho hr => by rw [hr.opened, ho]⟩

end Stability

/-! ## What the calls do -/

section Effects

variable {t : ι} {d : Directory ι} {slot : Slot} {i : Nat} {f : File ι}

section Files

variable {file : Nat → Option (File ι)} {x : File ι}

theorem update_some {j : Nat} (h : (∃ g, file j = some g) ∨ j = i) :
    ∃ g, Function.update file i (some x) j = some g := by
  by_cases hj : j = i
  · exact ⟨x, by rw [hj, Function.update_self]⟩
  · rw [Function.update_of_ne hj]
    exact h.resolve_right hj

theorem update_part (h : ∀ j g, file j = some g → g.bytes <+: S.encoding g.creator)
    (hx : x.bytes <+: S.encoding x.creator) :
    ∀ j g, Function.update file i (some x) j = some g → g.bytes <+: S.encoding g.creator :=
  (Function.forall_update_iff file fun _ o => ∀ g, o = some g → g.bytes <+: S.encoding g.creator).2
    ⟨fun _ hg => Option.some.inj hg ▸ hx, fun j _ => h j⟩

end Files

theorem guar_write (hf : d.file i = some f) (hcreator : f.creator = t)
    (hpre : f.bytes <+: bytes) : Guar S t d (d.write i f bytes) where
  opened := fun _ _ => rfl
  result := fun _ _ => rfl
  file := fun j g hg => by
    by_cases hj : j = i
    · subst hj
      rw [hf] at hg
      cases hg
      exact .inr (.inr ⟨hcreator, bytes, hpre, Function.update_self ..⟩)
    · exact .inl ((Function.update_of_ne hj ..).trans hg)
  path := .inl rfl
  views := List.subset_cons_self ..

theorem Inv.write (hi : Inv S d) (hf : d.file i = some f)
    (hcreator : f.creator = t) (hpre : f.bytes <+: bytes) (hpart : bytes <+: S.encoding t) :
    Inv S (d.write i f bytes) :=
  (guar_write hf hcreator hpre).inv hi (fun j hj => update_some (.inl (hi.linked j hj)))
    (fun u slot j hj => update_some (.inl (hi.pinned u slot j hj)))
    (update_part hi.part (hcreator ▸ hpart)) (.head _) rfl

theorem guar_unlink (hpath : d.path = some i) (hf : d.file i = some f) (hcreator : f.creator = t)
    (hlate : S.late t ∨ f.bytes ≠ S.encoding t) : Guar S t d d.unlink where
  opened := fun _ _ => rfl
  result := fun _ _ => rfl
  file := fun _ _ h => .inl h
  path := .inr (.inr ⟨i, f, hpath, hf, hcreator, rfl, hlate⟩)
  views := List.subset_cons_self ..

variable [DecidableEq ι]

theorem opened_setOpened (d : Directory ι) (t : ι) (slot : Slot) (x : Option Nat) (u : ι)
    (slot' : Slot) :
    (d.setOpened t slot x).opened u slot' = if u = t ∧
      slot' = slot then x else d.opened u slot' := by
  unfold Directory.setOpened
  by_cases hu : u = t
  · subst hu
    by_cases hs : slot' = slot
    · simp [hs]
    · simp [hs]
  · simp [hu]

theorem guar_setOpened (d : Directory ι) (t : ι) (slot : Slot) (x : Option Nat) :
    Guar S t d (d.setOpened t slot x) :=
  { Guar.refl d with
    opened := fun u hu => by
      funext slot'
      rw [opened_setOpened, if_neg fun h => hu h.1] }

theorem Inv.setOpened (hi : Inv S d) {x : Option Nat}
    (hx : ∀ i, x = some i → ∃ f, d.file i = some f) :
    Inv S (d.setOpened t slot x) := by
  refine (guar_setOpened d t slot x).inv hi hi.linked (fun u slot' j hj => ?_) hi.part hi.seen rfl
  rw [opened_setOpened] at hj
  split at hj
  · exact hx j hj
  · exact hi.pinned u slot' j hj

theorem guar_create (hpath : d.path = none) (hfree : d.Free i) : Guar S t d (d.create t i) where
  opened := fun u hu => by
    funext slot
    exact (opened_setOpened ..).trans (if_neg fun h => hu h.1)
  result := fun _ _ => rfl
  file := fun j f hf => by
    by_cases hj : j = i
    · exact .inr (.inl (hj ▸ hfree))
    · exact .inl ((Function.update_of_ne hj ..).trans hf)
  path := .inr (.inl hpath)
  views := List.subset_cons_self ..

theorem Inv.create (hi : Inv S d) (hpath : d.path = none) (hfree : d.Free i) :
    Inv S (d.create t i) := by
  refine (guar_create hpath hfree).inv hi (fun j hj => update_some (.inr (Option.some.inj hj).symm))
    (fun u slot j hj => update_some ?_) (update_part hi.part List.nil_prefix) (.head _) rfl
  replace hj := (opened_setOpened ..).symm.trans hj
  split at hj
  · exact .inr (Option.some.inj hj).symm
  · exact .inl (hi.pinned u slot j hj)

theorem guar_setResult (d : Directory ι) (t : ι) (r : Except Failure Nat) :
    Guar S t d (d.setResult t r) :=
  { Guar.refl d with result := fun _ hu => Function.update_of_ne hu _ _ }

theorem Inv.setResult (hi : Inv S d) {r : Except Failure Nat}
    (hr : ∀ birth, r = .ok birth → Published S birth d) :
    Inv S (d.setResult t r) := by
  refine { hi with success := fun u birth hu => ?_ }
  have hp : Published S birth d := by
    replace hu : Function.update d.result t (some r) u = some (.ok birth) := hu
    by_cases hut : u = t
    · rw [hut, Function.update_self] at hu
      exact hr birth (Option.some.inj hu)
    · rw [Function.update_of_ne hut] at hu
      exact hi.success u birth hu
  exact ⟨hp.held, hp.stays⟩

end Effects

/-! ## Publishers meet their specifications -/

/-- What a publisher may leave behind when it fails as the owner of the final. -/
def Excused (S : Setting ι) (t : ι) (bytes : List UInt8) : Prop := S.late t ∨ bytes ≠ S.encoding t

/-- An error: the publisher may still own a final, but not one it must keep. -/
def Loose (S : Setting ι) (t : ι) (i : Nat) (owned : Bool) (d : Directory ι) : Prop :=
  owned = true → ∃ slot, Owns t slot i (Excused S t) d

abbrev Meets {α : Type} (S : Setting ι) (t : ι) (P : Bool → Directory ι → Prop) (x : Publisher ι α)
    (Q : α → Bool → Directory ι → Prop) (E : Bool → Directory ι → Prop) : Prop :=
  Routine.Spec (Inv S) (Rely S t) (Guar S t) P x Q E

/-- An error says nothing. -/
abbrev Tries {α : Type} (S : Setting ι) (t : ι) (P : Bool → Directory ι → Prop) (x : Publisher ι α)
    (Q : α → Bool → Directory ι → Prop) : Prop :=
  Meets S t P x Q fun _ _ => True

section Specs

variable {α : Type} {t : ι} {i birth : Nat} {slot : Slot} {c : List UInt8 → Prop} {d : Directory ι}

theorem Owns.loose {owned : Bool} (ho : Owns t slot i c d) (hm : MayFail S t d) :
    Loose S t i owned d := by
  obtain ⟨f, hf, hcreator, -⟩ := ho.file
  exact fun _ => ⟨slot, ho.opened, f, hf, hcreator, hm.imp id fun h => h i f hf hcreator⟩

instance Loose.firm (owned : Bool) : Firm (Inv S) (Rely S t) (Loose S t i owned) :=
  inferInstanceAs (Firm _ _ fun d => owned = true → ∃ slot, Owns t slot i (Excused S t) d)

/-- The assertion of an owner: the flag is set and its inode is open. -/
def Owner (t : ι) (slot : Slot) (i : Nat) (c : List UInt8 → Prop) (owned : Bool) (d : Directory ι) :
    Prop :=
  owned = true ∧ Owns t slot i c d

/-- The assertion of an owner that has found its inode at the path. -/
def Keeper (t : ι) (slot : Slot) (i : Nat) (c : List UInt8 → Prop) (owned : Bool)
    (d : Directory ι) : Prop :=
  owned = true ∧ AtPath t slot i c d

instance Owner.firm (owned : Bool) : Firm (Inv S) (Rely S t) (Owner t slot i c owned) :=
  inferInstanceAs (Firm _ _ fun d => owned = true ∧ Owns t slot i c d)

instance Keeper.firm (owned : Bool) : Firm (Inv S) (Rely S t) (Keeper t slot i c owned) :=
  inferInstanceAs (Firm _ _ fun d => owned = true ∧ AtPath t slot i c d)

section Calls

variable {P : Bool → Directory ι → Prop} {Q : α → Bool → Directory ι → Prop}
    {E : Bool → Directory ι → Prop}

section Section

variable {sec : Section (Directory ι) (Except Failure α)}
  [hQ : ∀ a m, Firm (Inv S) (Rely S t) (Q a m)]
  [hE : ∀ m, Firm (Inv S) (Rely S t) (E m)]

theorem call_meets (h : ∀ m d r d', Inv S d → P m d → sec d r d' →
    Inv S d' ∧ Guar S t d d' ∧ After Q E (r, m) d') : Meets S t P (call sec) Q E := by
  have hfirm : ∀ (r : Except Failure α) m, Firm (Inv S) (Rely S t) (After Q E (r, m)) := by
    intro r m
    cases r with
    | ok a => exact hQ a m
    | error e => exact hE m
  refine .bind (.lift fun m => .atomic (h m)) fun r => ?_
  cases r with
  | ok a => exact .pure fun _ _ _ h => h
  | error e => exact .fail fun _ _ _ h => h

/-- A system call that changes nothing. -/
theorem look_meets (hsame : ∀ d r d', sec d r d' → d' = d)
    (h : ∀ m d r, Inv S d → P m d → sec d r d → After Q E (r, m) d) :
    Meets S t P (call sec) Q E := by
  refine call_meets fun m d r d' hi hP hsec => ?_
  obtain rfl := hsame d r d' hsec
  exact ⟨hi, .refl _, h m _ r hi hP hsec⟩

end Section

theorem disown_meets (e : Failure) : Meets S t P (disown e : Publisher ι α) Q (Loose S t i) :=
  Spec.bind (M := fun _ m _ => m = false) (.modify fun _ _ _ _ => rfl)
    fun _ => .fail fun _ _ _ hm => hm ▸ nofun

variable [hP : ∀ m, Firm (Inv S) (Rely S t) (P m)]

/-- The path is compared with an inode; `R` is what that says. -/
theorem lstat_tries {R : Directory ι → Prop} [Firm (Inv S) (Rely S t) R]
    (h : ∀ m d, Inv S d → P m d → d.path = some i → R d) :
    Meets S t P (attempt (call lstat)) (fun r m d => P m d ∧ (r = .ok i → R d)) E := by
  have hlook : Meets S t P (call lstat) (fun current m d => P m d ∧ (current = i → R d)) P := by
    refine look_meets (fun d r d' h => h.1) fun m d r hi hs hsec => ?_
    obtain ⟨-, ⟨j, hj, rfl⟩ | ⟨-, rfl⟩ | rfl⟩ := hsec
    · exact ⟨hs, fun hc => h m d hi hs (hc ▸ hj)⟩
    · exact hs
    · exact hs
  exact hlook.attempt (fun _ _ _ _ hs => ⟨hs.1, fun hc => hs.2 (Except.ok.inj hc)⟩)
    fun _ _ _ _ hs => ⟨hs, nofun⟩

theorem checkPath_meets {R : Directory ι → Prop} [Firm (Inv S) (Rely S t) R]
    (h : ∀ m d, Inv S d → P m d → d.path = some i → R d) :
    Meets S t P (checkPath i) (fun _ m d => P m d ∧ R d) (Loose S t i) := by
  refine (lstat_tries h).bind fun r => ?_
  cases r with
  | error e => exact disown_meets e
  | ok current =>
    refine .ite (fun hc => .pure fun m d _ hs => ?_) fun _ => disown_meets _
    exact ⟨hs.1, hs.2 (hc ▸ rfl)⟩

variable [hE : ∀ m, Firm (Inv S) (Rely S t) (E m)]

theorem validate_meets (hS : S.Checks)
    (hfail : ∀ m d f, P m d → d.file i = some f → MayFail S t d ∨ S.valid f.bytes = false → E m d) :
    Meets S t (fun m d => P m d ∧ d.opened t slot = some i) (call (validate S t slot))
      (fun birth m d => P m d ∧ Found S t slot i birth d) E := by
  refine look_meets (fun d r d' h => h.1) fun m d r hi hs hsec => ?_
  obtain ⟨-, j, f, hj, hf, hr⟩ := hsec
  obtain rfl : i = j := Option.some.inj (hs.2.symm.trans hj)
  obtain ⟨rfl, hvalid⟩ | ⟨e, rfl, hm⟩ := hr
  · exact ⟨hs.1, hj, f, hf, rfl, hS.only _ _ (hi.part i f hf) hvalid, hvalid⟩
  · exact hfail m d f hs.1 hf hm

variable (hfail : ∀ m d, P m d → MayFail S t d → E m d)

include hfail

theorem fstat_meets : Meets S t P (call (fstat S t slot))
    (fun info m d => P m d ∧ d.opened t slot = some info) E := by
  refine look_meets (fun d r d' h => h.1) fun m d r _ hs hsec => ?_
  obtain ⟨-, ⟨j, hj, rfl⟩ | ⟨hm, rfl⟩⟩ := hsec
  · exact ⟨hs, hj⟩
  · exact hfail m d hs hm

theorem quiet_meets (e : Failure) : Meets S t P (call (quiet S t e)) (fun _ => P) E := by
  refine look_meets (fun d r d' h => h.1) fun m d r _ hs hsec => ?_
  obtain ⟨-, rfl | ⟨rfl, hm⟩⟩ := hsec
  · exact hs
  · exact hfail m d hs hm

variable [DecidableEq ι]

theorem close_meets (hkeep : ∀ m d, P m d → P m (d.setOpened t slot none)) :
    Meets S t P (call (close S t slot)) (fun _ => P) E := by
  refine call_meets fun m d r d' hi hs hsec => ?_
  obtain ⟨rfl, hr⟩ := hsec
  refine ⟨hi.setOpened nofun, guar_setOpened .., ?_⟩
  obtain rfl | ⟨rfl, hm⟩ := hr
  · exact hkeep m d hs
  · exact hfail m _ (hkeep m d hs) hm

theorem openNoFollow_meets (hkeep : ∀ m d x, P m d → P m (d.setOpened t slot x))
    (habsent : ∀ m d, P m d → d.path = none → E m d) :
    Meets S t P (call (openNoFollow S t slot)) (fun _ => P) E := by
  refine call_meets fun m d r d' hi hs hsec => ?_
  obtain ⟨rfl, hnone, rfl⟩ | ⟨rfl, hm, rfl⟩ | ⟨j, hj, rfl, rfl⟩ := hsec
  · exact ⟨hi, .refl _, habsent _ _ hs hnone⟩
  · exact ⟨hi, .refl _, hfail m _ hs hm⟩
  · exact ⟨hi.setOpened fun k hk => Option.some.inj hk ▸ hi.linked j hj, guar_setOpened ..,
      hkeep m d _ hs⟩

end Calls

theorem Keeper.loose {m : Bool} (h : Keeper t slot i c m d) (hm : MayFail S t d) :
    Loose S t i m d :=
  h.2.1.loose hm

theorem Keeper.setOpened [DecidableEq ι] {m : Bool} {slot' : Slot} (hne : slot ≠ slot')
    (x : Option Nat) (h : Keeper t slot i c m d) : Keeper t slot i c m (d.setOpened t slot' x) := by
  refine ⟨h.1, ⟨?_, h.2.1.file⟩, h.2.2⟩
  rw [opened_setOpened, if_neg fun h => hne h.2]
  exact h.2.1.opened

theorem writeAll_meets (fuel : Nat) :
    Meets S t (Owner t .created i fun _ => True) (writeAll S t fuel)
    (fun _ => Owner t .created i (· = S.encoding t)) (Loose S t i) := by
  have hwrite : Meets S t (Owner t .created i fun _ => True) (call (writeSome S t))
      (fun done => Owner t .created i fun bytes => done = true → bytes = S.encoding t)
        (Loose S t i) := by
    refine call_meets fun m d r d' hi ho hsec => ?_
    obtain ⟨j, f, bytes, hj, hf, hpre, hpart, rfl, hr⟩ := hsec
    obtain ⟨g, hg, hcreator, -⟩ := ho.2.file
    obtain rfl : i = j := Option.some.inj (ho.2.opened.symm.trans hj)
    obtain rfl : g = f := Option.some.inj (hg.symm.trans hf)
    have hown : ∀ c : List UInt8 → Prop, c bytes → Owns t .created i c (d.write i g bytes) :=
      fun c hc =>
      ⟨hj, { g with bytes }, Function.update_self .., hcreator, hc⟩
    refine ⟨hi.write hf hcreator hpre hpart, guar_write hf hcreator hpre, ?_⟩
    obtain ⟨rfl, hall⟩ | rfl | ⟨e, rfl, hm⟩ := hr
    · exact ⟨ho.1, hown _ fun _ => hall⟩
    · exact ⟨ho.1, hown _ nofun⟩
    · exact (hown (fun _ => True) trivial).loose hm
  induction fuel with
  | zero => exact .lift fun _ => .halt
  | succ fuel ih =>
    refine hwrite.bind fun done => ?_
    cases done with
    | true =>
      refine .pure fun m d _ ho => ⟨ho.1, ho.2.opened, ?_⟩
      obtain ⟨f, hf, hcreator, hc⟩ := ho.2.file
      exact ⟨f, hf, hcreator, hc rfl⟩
    | false =>
      refine ih.pre fun m d _ ho => ⟨ho.1, ho.2.opened, ?_⟩
      obtain ⟨f, hf, hcreator, -⟩ := ho.2.file
      exact ⟨f, hf, hcreator, trivial⟩

theorem checkOpened_meets (slot' : Slot) : Meets S t (Keeper t slot i c) (checkOpened S t slot' i)
    (fun _ m d => Keeper t slot i c m d ∧ d.opened t slot' = some i) (Loose S t i) :=
  (fstat_meets (P := Keeper t slot i c) fun _ _ => Keeper.loose).bind fun _ => Spec.ite
    (fun heq => .pure fun _ _ _ hs => heq ▸ hs) fun _ => disown_meets _

/-- A complete file that is at the path now is published. -/
theorem Found.published (hi : Inv S d) (hfound : Found S t slot i birth d)
    (hpath : d.path = some i) : Published S birth d := by
  obtain ⟨f, hf, hbirth, hw⟩ := hfound.file
  refine ⟨⟨f, ?_, hbirth, hw⟩, fun _ => ⟨i, f, hpath, hf, hbirth, hw⟩⟩
  have hview : d.view = some f := by rw [Directory.view, hpath, Option.bind_some, hf]
  rw [← hview]
  exact hi.seen

end Specs

/-! ## Whole publishers -/

abbrev Returned (S : Setting ι) (r : Except Failure Nat) (d : Directory ι) : Prop :=
  ∀ birth, r = .ok birth → Published S birth d

section Publishers

variable {t : ι} {i : Nat}

/-- The path is removed only while it holds the publisher's own inode. -/
theorem removeOwned_tries {slot : Slot} :
    Tries S t (fun _ => Owns t slot i (Excused S t)) (removeOwned i)
    fun _ _ _ => True := by
  have hremove : Tries S t (fun _ => AtPath t slot i (Excused S t)) (call remove) fun _ _ _ =>
      True := by
    refine call_meets fun m d r d' hi ho hsec => ?_
    obtain ⟨rfl, rfl⟩ | ⟨rfl, rfl⟩ := hsec
    · exact ⟨hi, .refl _, trivial⟩
    · obtain ⟨f, hf, hcreator, hlate⟩ := ho.1.file
      have hg := guar_unlink ho.2 hf hcreator hlate
      exact ⟨hg.inv hi nofun hi.pinned hi.part (.head _) rfl, hg, trivial⟩
  refine (lstat_tries (R := AtPath t slot i (Excused S t)) fun _ _ _ ho hpath => ⟨ho, hpath⟩).bind
    fun r => ?_
  cases r with
  | error e => exact .ite (fun _ => .pure fun _ _ _ _ => trivial) fun _ => .abort
  | ok current =>
    refine .ite (fun hc => ?_) fun _ => .pure fun _ _ _ _ => trivial
    exact hremove.pre fun m d _ hs => hs.2 (hc ▸ rfl)

theorem tryTo_meets {P F E : Bool → Directory ι → Prop} {x : Publisher ι Unit}
    (hx : Meets S t P x (fun _ => F) F) : Meets S t P (tryTo x) (fun _ => F) E :=
  Spec.bind (hx.attempt (fun _ _ _ _ hs => hs) fun _ _ _ _ hs => hs) fun _ => .skip

theorem validateBody_tries (hS : S.Checks) : Tries S t (fun _ _ => True) (validateBody S t)
    fun birth _ d => Published S birth d := by
  refine (fstat_meets fun _ _ _ _ => trivial).bind fun info => ?_
  refine (validate_meets hS fun _ _ _ _ _ _ => trivial).bind fun birth => ?_
  refine (lstat_tries fun _ _ hi hs => hs.2.published hi).bind fun r => ?_
  cases r with
  | error e => exact .abort
  | ok current => exact .ite (fun hc => .pure fun _ _ _ hs => hs.2 (hc ▸ rfl)) fun _ => .abort

variable [DecidableEq ι]

theorem commitBody_meets (hS : S.Checks) (fuel : Nat) : Meets S t (Owner t .created i fun _ => True)
    (commitBody S t fuel i) (fun birth m d => m = false ∧ Published S birth d) (Loose S t i) := by
  have hclose : ∀ slot birth, Meets S t (fun m d => m = false ∧ Published S birth d)
      (call (close S t slot))
      (fun _ m d => m = false ∧ Published S birth d) (Loose S t i) := fun slot birth =>
    close_meets (fun m d hs _ => hs.1 ▸ nofun) fun m d hs => ⟨hs.1, hs.2.held, hs.2.stays⟩
  have hreopen : ∀ slot slot', slot ≠ slot' → Meets S t (Keeper t slot i (· = S.encoding t))
      (call (openNoFollow S t slot')) (fun _ => Keeper t slot i (· = S.encoding t)) (Loose S t i) :=
    fun slot slot' hne => openNoFollow_meets (fun _ _ => Keeper.loose)
      (fun _ _ x hk => hk.setOpened hne x) fun m d hk hnone => nomatch hk.2.2.symm.trans hnone
  refine (quiet_meets (fun m d ho => ho.2.loose) .io).bind fun _ =>
    (writeAll_meets fuel).bind fun _ => ?_
  refine (checkPath_meets (R := AtPath t .created i (· = S.encoding t)) fun m d _ ho hpath =>
    ⟨ho.2, hpath⟩).bind fun _ => ?_
  refine ((hreopen .created .guard (by decide)).pre fun m d _ hs => ⟨hs.1.1, hs.2⟩).bind fun _ => ?_
  refine (checkOpened_meets .guard).bind fun _ => ?_
  -- from here on the guard pins the inode
  have hclosed : Meets S t (Keeper t .guard i (· = S.encoding t)) (call (close S t .created))
      (fun _ => Keeper t .guard i (· = S.encoding t)) (Loose S t i) :=
    close_meets (fun _ _ => Keeper.loose) fun _ _ hk => hk.setOpened (by decide) none
  refine (hclosed.pre fun m d _ hs => ⟨hs.1.1, ⟨hs.2, hs.1.2.1.file⟩, hs.1.2.2⟩).bind fun _ => ?_
  refine (hreopen .guard .verifier (by decide)).bind fun _ =>
    (checkOpened_meets .verifier).bind fun _ => ?_
  refine (validate_meets hS fun m d f hk hf hm => ?_).bind fun birth => ?_
  · obtain ⟨g, hg, -, hbytes⟩ := hk.2.1.file
    obtain rfl : g = f := Option.some.inj (hg.symm.trans hf)
    refine hk.loose (hm.resolve_right fun hinvalid => ?_)
    rw [hbytes, hS.accepts] at hinvalid
    cases hinvalid
  refine (checkPath_meets fun m d hi hs => hs.2.published hi).bind fun _ => ?_
  refine .bind (M := fun _ m d => m = false ∧ Published S birth d)
    (.modify fun m d _ hs => ⟨rfl, hs.2⟩) fun _ => ?_
  exact (hclose .verifier birth).bind fun _ =>
    (hclose .guard birth).bind fun _ => .pure fun _ _ _ hs => hs

theorem closeReturned_meets {E : Bool → Directory ι → Prop} [∀ m, Firm (Inv S) (Rely S t) (E m)]
    (slot : Slot) (r : Except Failure Nat) (hE : ∀ m d, Returned S r d → E m d) :
    Meets S t (fun _ => Returned S r) (call (close S t slot)) (fun _ _ => Returned S r) E :=
  close_meets (fun m d hs _ => hE m d hs) fun _ _ hs birth hb =>
    ⟨(hs birth hb).held, (hs birth hb).stays⟩

/-- The cleanup keeps what was published, and removes a final that nobody counts on. -/
theorem cleanup_tries (r : Except Failure Nat) : Tries S t
    (fun m d => (∀ birth, r = .ok birth → m = false ∧ Published S birth d) ∧ Loose S t i m d)
    (cleanup S t i) (fun _ _ => Returned S r) := by
  have hclose : ∀ slot, Tries S t (fun _ => Returned S r) (tryTo (call (close S t slot)))
      (fun _ _ => Returned S r) := fun slot =>
        tryTo_meets (closeReturned_meets slot r fun _ _ h => h)
  refine .bind (tryTo_meets ?_)
    fun _ => (hclose .verifier).bind fun _ => (hclose .guard).bind fun _ => hclose .created
  refine .get fun owned => ?_
  cases owned with
  | false => exact .pure fun m d _ hs birth hb => (hs.2.1 birth hb).2
  | true =>
    cases r with
    | ok birth => exact fun m => .of_false fun d hs => nomatch hs.1.symm.trans (hs.2.1 birth rfl).1
    | error e =>
      have hany : Tries S t (fun m d => ∃ slot, Owns t slot i (Excused S t) d) (removeOwned i)
          fun _ _ _ => True := .exists fun slot => removeOwned_tries
      exact (hany.pre fun m d _ hs => hs.2.2 hs.1).post (fun _ _ _ _ _ => nofun) fun _ _ _ _ =>
        nofun

section

variable (hS : S.Checks)

include hS

theorem commitFresh_tries (fuel : Nat) : Tries S t
    (fun _ d => ∃ i, Owns t .created i (fun _ => True) d) (commitFreshLocationFile S t fuel)
    fun birth _ d => Published S birth d := by
  refine ((fstat_meets fun _ _ _ _ => trivial).attempt_ok).bind fun r => ?_
  cases r with
  | error e =>
    refine .bind (M := fun _ _ _ => True) (tryTo_meets ?_) fun _ => .abort
    exact (close_meets (fun _ _ _ _ => trivial) fun _ _ _ => trivial).pre
      fun _ _ _ _ => trivial
  | ok owned =>
    refine .bind (M := fun _ => Owner t .created owned fun _ => True) (.modify fun _ _ _ hs => ?_)
      fun _ => ?_
    · obtain ⟨⟨j, hown⟩, hj⟩ := hs owned rfl
      obtain rfl : j = owned := Option.some.inj (hown.opened.symm.trans hj)
      exact ⟨rfl, hown⟩
    refine .bind ((commitBody_meets hS fuel).attempt (fun birth m d _ hs => ?_)
      fun e m d _ hs => ⟨nofun, hs⟩) fun r => (cleanup_tries r).bind fun _ => ?_
    · exact ⟨fun b hb => Except.ok.inj hb ▸ hs, hs.1 ▸ nofun⟩
    · exact .ofExcept (fun birth m d hr _ hs => hs birth hr) fun _ _ _ _ _ _ => trivial

theorem validateFinal_tries : Tries S t (fun _ _ => True) (validateFinal S t)
    fun birth _ d => Published S birth d := by
  refine (openNoFollow_meets (fun _ _ _ _ => trivial) (fun _ _ _ _ => trivial) fun _ _ _ _ =>
    trivial).bind
    fun _ => ?_
  refine (validateBody_tries hS).attempt_ok.bind fun r => ?_
  refine (closeReturned_meets .existing r fun _ _ _ => trivial).bind fun _ => ?_
  exact .ofExcept (fun birth m d hr _ hs => hs birth hr) fun _ _ _ _ _ _ => trivial

theorem reuseExisting_tries (fuel : Nat) : Tries S t (fun _ _ => True) (reuseExisting S t fuel)
    fun birth _ d => Published S birth d := by
  induction fuel with
  | zero => exact .lift fun _ => .halt
  | succ fuel ih =>
    refine (quiet_meets (fun _ _ _ _ => trivial) .canceled).bind fun _ =>
      (validateFinal_tries hS).attempt_ok.bind fun r => ?_
    split
    · exact .pure fun _ _ _ hs => hs _ rfl
    · exact .abort
    · refine .bind (M := fun _ _ _ => True) (.lift fun m => ?_) fun closed => ?_
      · exact ((Sat.choose fun d _ => .refl d).pre fun _ _ _ => trivial).post
          fun _ _ _ _ => trivial
      · exact .ite (fun _ => .abort) fun _ => ih
    · exact .abort

theorem publishLoop_tries (fuel : Nat) : Tries S t (fun _ _ => True) (publishLoop S t fuel)
    fun birth _ d => Published S birth d := by
  have hcreate : Tries S t (fun _ _ => True) (call (createExclusive S t))
      fun _ _ d => ∃ i, Owns t .created i (fun _ => True) d := by
    refine call_meets fun m d r d' hi _ hsec => ?_
    obtain ⟨rfl, -, rfl⟩ | ⟨rfl, -, rfl⟩ | ⟨i, hpath, hfree, rfl, rfl⟩ := hsec
    · exact ⟨hi, .refl _, trivial⟩
    · exact ⟨hi, .refl _, trivial⟩
    · refine ⟨hi.create hpath hfree, guar_create hpath hfree, i, ?_, ⟨t, d.births, []⟩,
        Function.update_self .., rfl, trivial⟩
      exact (opened_setOpened ..).trans (if_pos ⟨rfl, rfl⟩)
  induction fuel with
  | zero => exact .lift fun _ => .halt
  | succ fuel ih =>
    refine (quiet_meets (fun _ _ _ _ => trivial) .canceled).bind fun _ =>
      hcreate.attempt_ok.bind fun r => ?_
    split
    · exact (commitFresh_tries hS fuel).pre fun _ _ _ hs => hs () rfl
    · refine ((reuseExisting_tries hS fuel).pre fun _ _ _ _ => trivial).attempt_ok.bind fun r => ?_
      split
      · exact .pure fun _ _ _ hs => hs _ rfl
      · exact ih.pre fun _ _ _ _ => trivial
      · exact .abort
    · exact .abort

theorem publisher_sat (fuel : Nat) :
    Sat (Inv S) (Rely S t) (Guar S t) (fun _ => True) (publisher S t fuel) fun _ _ => True := by
  refine .bind (publishLoop_tries hS fuel false) fun r => ?_
  refine .change fun d hi hs =>
    ⟨hi.setResult fun birth hb => ?_, guar_setResult .., trivial⟩
  obtain ⟨r, m⟩ := r
  cases hb
  exact hs

end

end Publishers

/-! ## The location -/

theorem inv_empty (S : Setting ι) : Inv S emptyDirectory where
  linked := nofun
  pinned := nofun
  part := nofun
  seen := (.head _)
  success := nofun

section Location

variable [DecidableEq ι] {fuel : ι → Nat} {c c' : Pool (Directory ι) ι}

theorem publishers_covered (hS : S.Checks) (fuel : ι → Nat) (t : ι) :
    Covered (Inv S) (Rely S t) (Guar S t) (publishers S fuel).shared ((publishers S fuel).code t) :=
  ⟨fun _ => True, trivial, (Firm.const True).stable, publisher_sat hS (fuel t)⟩

/-- The final of any number of publishers, in every state of every interleaving:
the path is absent or holds a file that one publisher created and wrote, success
is returned only for an object that was complete and valid at the path, no step
of a publisher unlinks an inode that it did not create, and, if no publisher
fails after its object is complete, what was returned is still there. -/
theorem published_stays (hS : S.Checks) (h : Pool.Reach (fun _ _ => False) (publishers S fuel) c) :
    (c.shared.path = none ∨ ∃ i f, c.shared.path = some i ∧ c.shared.file i = some f ∧
      f.bytes <+: S.encoding f.creator) ∧
    (∀ t birth, c.shared.result t = some (.ok birth) → Held S birth c.shared) ∧
    (∀ t c' i, Pool.Step (fun _ _ => False) c (some t) c' → c.shared.path = some i →
      c'.shared.path ≠ some i → ∃ f, c.shared.file i = some f ∧ f.creator = t) ∧
    (S.Steady → ∀ t birth, c.shared.result t = some (.ok birth) → Holds S birth c.shared) := by
  obtain ⟨hi, -⟩ := h.covered (sound S) (inv_empty S) (publishers_covered hS fuel)
  refine ⟨?_, fun t birth ht => (hi.success t birth ht).held, fun t c' i hstep hpath hgone => ?_,
    fun hsteady t birth ht => (hi.success t birth ht).stays hsteady⟩
  · cases hpath : c.shared.path with
    | none => exact .inl rfl
    | some i =>
      obtain ⟨f, hf⟩ := hi.linked i hpath
      exact .inr ⟨i, f, rfl, hf, hi.part i f hf⟩
  · have hg := h.guarantee (sound S) hstep (inv_empty S) (publishers_covered hS fuel)
    obtain ⟨f, hf⟩ := hi.linked i hpath
    exact ⟨f, hf, ((hg.stays hpath hf).resolve_left hgone).1⟩

end Location

/-! ## Two publishers -/

/-- Two publishers of one byte. -/
def pair (late : Bool → Prop) : Setting Bool where
  encoding _ := [1]
  valid bytes := bytes == [1]
  late := late

theorem pair_checks (late : Bool → Prop) : (pair late).Checks where
  accepts := fun _ => rfl
  only := fun _ _ _ h => eq_of_beq h

/-- The first publisher writes its object, the second finds it complete and
returns it, and then the first is cancelled in its validation. -/
theorem reused_then_removed :
    (publisher (pair fun _ => True) false 3).after 5 emptyDirectory fun p d =>
    (publisher (pair fun _ => True) true 3).after 9 d fun _ d' =>
      p.after 9 d' fun _ d'' => d''.result true = some (.ok 0) ∧ d''.path = none := by
  -- create the final and write
  refine ⟨.ok (), _, ⟨rfl, .inl rfl⟩, ?_⟩
  refine ⟨.ok (), _, .inr (.inr ⟨0, rfl, ⟨nofun, fun _ _ => nofun⟩, rfl, rfl⟩), ?_⟩
  refine ⟨.ok 0, _, ⟨rfl, .inl ⟨0, rfl, rfl⟩⟩, ?_⟩
  refine ⟨.ok (), _, ⟨rfl, .inl rfl⟩, ?_⟩
  refine ⟨.ok true, _, ⟨0, ⟨false, 0, []⟩, [1], rfl, rfl, List.nil_prefix, List.prefix_refl _, rfl,
    .inl ⟨rfl, rfl⟩⟩, ?_⟩
  -- the second publisher: the final exists, is valid, and still at the path
  refine ⟨.ok (), _, ⟨rfl, .inl rfl⟩, ?_⟩
  refine ⟨.error .exist, _, .inl ⟨rfl, rfl, rfl⟩, ?_⟩
  refine ⟨.ok (), _, ⟨rfl, .inl rfl⟩, ?_⟩
  refine ⟨.ok (), _, .inr (.inr ⟨0, rfl, rfl, rfl⟩), ?_⟩
  refine ⟨.ok 0, _, ⟨rfl, .inl ⟨0, rfl, rfl⟩⟩, ?_⟩
  refine ⟨.ok 0, _, ⟨rfl, 0, ⟨false, 0, [1]⟩, rfl, rfl, .inl ⟨rfl, rfl⟩⟩, ?_⟩
  refine ⟨.ok 0, _, ⟨rfl, .inl ⟨0, rfl, rfl⟩⟩, ?_⟩
  refine ⟨.ok (), _, ⟨rfl, .inl rfl⟩, ?_⟩
  refine ⟨(), _, rfl, ?_⟩
  -- the first publisher goes on to its validation, and removes the final
  refine ⟨.ok 0, _, ⟨rfl, .inl ⟨0, rfl, rfl⟩⟩, ?_⟩
  refine ⟨.ok (), _, .inr (.inr ⟨0, rfl, rfl, rfl⟩), ?_⟩
  refine ⟨.ok 0, _, ⟨rfl, .inl ⟨0, rfl, rfl⟩⟩, ?_⟩
  refine ⟨.ok (), _, ⟨rfl, .inl rfl⟩, ?_⟩
  refine ⟨.ok (), _, .inr (.inr ⟨0, rfl, rfl, rfl⟩), ?_⟩
  refine ⟨.ok 0, _, ⟨rfl, .inl ⟨0, rfl, rfl⟩⟩, ?_⟩
  refine ⟨.error .canceled, _,
    ⟨rfl, 0, ⟨false, 0, [1]⟩, rfl, rfl, .inr ⟨_, rfl, .inl (.inl trivial)⟩⟩, ?_⟩
  refine ⟨.ok 0, _, ⟨rfl, .inl ⟨0, rfl, rfl⟩⟩, ?_⟩
  refine ⟨.ok (), _, .inr ⟨rfl, rfl⟩, ?_⟩
  exact ⟨rfl, rfl⟩

/-- A publisher has returned success, and its object is gone. -/
theorem published_object_removed : ∃ c, Pool.Reach (fun _ _ => False)
    (publishers (pair fun _ => True) fun _ => 3) c ∧ c.shared.result true = some (.ok 0) ∧
    c.shared.path = none := by
  have start : Pool.Reach (fun _ _ => False) (publishers (pair fun _ => True) fun _ => 3)
      (publishers (pair fun _ => True) fun _ => 3) := .refl
  obtain ⟨p, d, hreach, h⟩ := start.after reused_then_removed
  obtain ⟨q, d', hreach', h'⟩ := hreach.after (t := true) h
  obtain ⟨r, d'', hreach'', h''⟩ := hreach'.after (t := false) h'
  exact ⟨_, hreach'', h''⟩

/-- One publisher alone: it creates, writes, validates and returns. -/
theorem pair_publishes :
    (publisher (pair fun _ => False) false 3).after 19 emptyDirectory fun _ d =>
    d.result false = some (.ok 0) := by
  refine ⟨.ok (), _, ⟨rfl, .inl rfl⟩, ?_⟩
  refine ⟨.ok (), _, .inr (.inr ⟨0, rfl, ⟨nofun, fun _ _ => nofun⟩, rfl, rfl⟩), ?_⟩
  refine ⟨.ok 0, _, ⟨rfl, .inl ⟨0, rfl, rfl⟩⟩, ?_⟩
  refine ⟨.ok (), _, ⟨rfl, .inl rfl⟩, ?_⟩
  refine ⟨.ok true, _, ⟨0, ⟨false, 0, []⟩, [1], rfl, rfl, List.nil_prefix, List.prefix_refl _, rfl,
    .inl ⟨rfl, rfl⟩⟩, ?_⟩
  refine ⟨.ok 0, _, ⟨rfl, .inl ⟨0, rfl, rfl⟩⟩, ?_⟩
  refine ⟨.ok (), _, .inr (.inr ⟨0, rfl, rfl, rfl⟩), ?_⟩
  refine ⟨.ok 0, _, ⟨rfl, .inl ⟨0, rfl, rfl⟩⟩, ?_⟩
  refine ⟨.ok (), _, ⟨rfl, .inl rfl⟩, ?_⟩
  refine ⟨.ok (), _, .inr (.inr ⟨0, rfl, rfl, rfl⟩), ?_⟩
  refine ⟨.ok 0, _, ⟨rfl, .inl ⟨0, rfl, rfl⟩⟩, ?_⟩
  refine ⟨.ok 0, _, ⟨rfl, 0, ⟨false, 0, [1]⟩, rfl, rfl, .inl ⟨rfl, rfl⟩⟩, ?_⟩
  refine ⟨.ok 0, _, ⟨rfl, .inl ⟨0, rfl, rfl⟩⟩, ?_⟩
  refine ⟨.ok (), _, ⟨rfl, .inl rfl⟩, ?_⟩
  refine ⟨.ok (), _, ⟨rfl, .inl rfl⟩, ?_⟩
  refine ⟨.ok (), _, ⟨rfl, .inl rfl⟩, ?_⟩
  refine ⟨.ok (), _, ⟨rfl, .inl rfl⟩, ?_⟩
  refine ⟨.ok (), _, ⟨rfl, .inl rfl⟩, ?_⟩
  exact ⟨(), _, rfl, rfl⟩

/-- A run in which nobody fails: the object that was published is at the path. -/
theorem published_stays_pair : ∃ c, Pool.Reach (fun _ _ => False)
    (publishers (pair fun _ => False) fun _ => 3) c ∧ c.shared.result false = some (.ok 0) ∧
    Holds (pair fun _ => False) 0 c.shared := by
  have start : Pool.Reach (fun _ _ => False) (publishers (pair fun _ => False) fun _ => 3)
      (publishers (pair fun _ => False) fun _ => 3) := .refl
  obtain ⟨p, d, hreach, h⟩ := start.after pair_publishes
  exact ⟨_, hreach, h, (published_stays (pair_checks _) hreach).2.2.2 (fun _ => id) _ _ h⟩

end Sandboxer.Artifact.Location
