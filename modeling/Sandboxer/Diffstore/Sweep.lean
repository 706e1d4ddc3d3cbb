import Mathlib.Algebra.Ring.Nat
import Mathlib.Data.List.Perm.Basic
import Mathlib.Data.List.Nodup

/-! # The directory sweep

`DirectoryMaintenance.Sweep` collects the garbage of all files of a directory, a
finite batch a call, over at most two open metadata stores. The table of open
stores lives in the dispatcher and outlasts a call; the queue of pending files is
the sweep's own. What a call comes to is not decided here: call number `n` has the
outcome of that number. Neither is what the enumeration of the directory comes to. -/
namespace Sandboxer.Diffstore.Directory

/-! ## Calls -/

def directoryGCHandles : Nat := 2

inductive GCState where
  | more
  | complete
  | blockedByReaders
  deriving DecidableEq, Repr

inductive GCErr where
  | retired
  | failed (text : String)
  deriving DecidableEq, Repr

/-- What one call meets, whichever of it the call gets to: the call is refused because the
sweep was cancelled or the maintainer stopped, the owner does not validate, the metadata
store does not open, the outcome of `GC` and of closing the store; and whether afterwards
the sweep is found cancelled or the maintainer stopped. -/
structure Outcome where
  refused : Option String
  owner : Option String
  opening : Option String
  gcState : GCState
  freedSlots : Nat
  gcErr : Option GCErr
  closing : Option String
  interrupted : Option String
  deriving DecidableEq, Repr

inductive CallErr where
  | refused (text : String)
  | owner (text : String)
  | budgetExhausted
  | opening (text : String)
  | gc (texts : List String)
  deriving DecidableEq, Repr

inductive State where
  | unset
  | gc (state : GCState)
  | skippedRetired
  | error
  deriving DecidableEq, Repr

/-- A file name or a DiffID. -/
abbrev Name := List Char

/-- `DirectoryGCResult`. -/
structure Item where
  diffID : Name
  state : State := .unset
  freedSlots : Nat := 0
  error : Option CallErr := none
  deriving DecidableEq, Repr

/-- The item after `GC` returned. -/
def Item.collected (item : Item) (o : Outcome) : Item :=
  { item with
    freedSlots := (item.freedSlots + o.freedSlots) % 2 ^ 64
    state := if o.gcErr = some .retired then .skippedRetired else .gc o.gcState }

variable (o : Outcome)

/-- The errors of `GC` and of closing the store, joined; a retired file is no error. -/
def gcErrors (closed : Bool) : List String :=
  (match o.gcErr with
    | some (.failed text) => [text]
    | _ => []) ++ (if closed then o.closing.toList else [])

/-- The store stays open only for more. -/
def closes (item : Item) : Bool := !(gcErrors o false).isEmpty || item.state != .gc .more

/-- The request of `Sweep` from `store.GC` on. -/
def collect (handles : List Name) (item : Item) : Option CallErr × List Name × Item :=
  let item := item.collected o
  let errors := gcErrors o (closes o item)
  (if errors.isEmpty then none else some (.gc errors),
    if closes o item then handles.erase item.diffID else handles, item)

/-- The table once the item has its store open. -/
def openHandle (handles : List Name) (id : Name) : Except CallErr (List Name) :=
  if id ∈ handles then .ok handles
  else if directoryGCHandles ≤ handles.length then .error .budgetExhausted
  else match o.opening with
    | some text => .error (.opening text)
    | none => .ok (id :: handles)

/-- The call `Sweep` makes for an item: its error, the table after it, the item. -/
def callItem (handles : List Name) (item : Item) : Option CallErr × List Name × Item :=
  match o.refused with
  | some text => (some (.refused text), handles, item)
  | none =>
    match o.owner with
    | some text => (some (.owner text), handles, item)
    | none =>
      match openHandle o handles item.diffID with
      | .error e => (some e, handles, item)
      | .ok handles => collect o handles item

/-! ## The sweep -/

/-- `directoryIterator.next` on one name. -/
def diffID (name : Name) : Option Name :=
  if ['.', 'd', 'i', 'f', 'f'].isSuffixOf name &&
    !(['.', 'c', 'l', 'a', 'i', 'm', '-'].isPrefixOf name) then
    some (name.take (name.length - 5))
  else none

structure Sweep where
  names : List Name
  eof : Bool
  pending : List Item
  handles : List Name
  reports : List Item
  firstError : Option (Name × CallErr)
  call : Nat
  deriving DecidableEq, Repr

variable (active : List Name)

/-- The inner loop of `Sweep`; names that are no active DIFFs become pending. -/
def fill : List Name → List Item → List Name × Bool × List Item
  | names, pending =>
    if pending.length < directoryGCHandles then
      match names with
      | [] => ([], true, pending)
      | name :: rest =>
        match diffID name with
        | none => fill rest pending
        | some id =>
          if id ∈ active then fill rest pending else fill rest (pending ++ [{ diffID := id }])
    else (names, false, pending)

/-- How a pass of the outer loop ends. `returned` carries the error that joins `firstError`. -/
inductive Pass where
  | again (s : Sweep)
  | returned (interrupted : Option String) (s : Sweep)
  deriving DecidableEq, Repr

/-- What becomes of the item of a call: it is pending again, or reported. -/
def settle (err : Option CallErr) (item : Item) : Item :=
  if err.isSome then { item with state := .error, error := err } else item

def goesOn (err : Option CallErr) (item : Item) : Bool := err.isNone && item.state == .gc .more

/-- The sweep after a call for the first pending item. -/
def Sweep.after (s : Sweep) (rest : List Item) (err : Option CallErr) (handles : List Name)
    (item : Item) : Sweep :=
  { s with
    handles
    pending := if goesOn err item then rest ++ [item] else rest
    reports := if goesOn err item then s.reports else s.reports ++ [item]
    firstError := s.firstError.or (err.map (item.diffID, ·))
    call := s.call + 1 }

variable (broken : Option String) (oracle : Nat → Outcome)

/-- The outer loop's body once `pending` is filled. -/
def serveFirst (s : Sweep) : Pass :=
  match s.pending with
  | [] => .again s
  | item :: rest =>
    let out := callItem (oracle s.call) s.handles item
    let s' := s.after rest out.1 out.2.1 (settle out.1 out.2.2)
    match (oracle s.call).interrupted with
    | some text => .returned (some text) s'
    | none => .again s'

/-- The inner loop, which is over once the end was seen. -/
def filled (s : Sweep) : Sweep :=
  if s.eof then s
  else
    let out := fill active s.names s.pending
    { s with names := out.1, eof := out.2.1, pending := out.2.2 }

/-- The error of the iterator in place of the end of the directory. -/
def enumerationError (s : Sweep) : Option String :=
  if !s.eof && (filled active s).eof then broken else none

def pass (s : Sweep) : Pass :=
  if s.eof && s.pending.isEmpty then .returned none s
  else match enumerationError active broken s with
    | some text => .returned (some text) (filled active s)
    | none => serveFirst oracle (filled active s)

/-- Passes until the sweep returns; `none`: it has not after `fuel` passes. -/
def loop : Nat → Sweep → Option (Option String × Sweep)
  | 0, _ => none
  | fuel + 1, s =>
    match pass active broken oracle s with
    | .again s => loop fuel s
    | .returned interrupted s => some (interrupted, s)

def start (names : List Name) : Sweep := ⟨names, false, [], [], [], none, 0⟩

/-- What enumerating the directory comes to: the iterator is not opened, or it gives names
up to the end or to an error. -/
structure Listing where
  opening : Option String
  names : List Name
  broken : Option String

/-- `Sweep` of a directory, from an empty table; the deferred request closes what is left open. -/
def sweep (dir : Listing) (fuel : Nat) : Option (Option String × Sweep) :=
  match dir.opening with
  | some text => some (some text, start [])
  | none => (loop active dir.broken oracle fuel (start dir.names)).map fun (e, s) =>
      (e, { s with handles := [] })

/-- The states between passes. -/
inductive Reaches (names : List Name) : Sweep → Prop where
  | start : Reaches names (start names)
  | again {s s' : Sweep} (h : Reaches names s) (hpass : pass active broken oracle s = .again s') :
      Reaches names s'

/-- The DIFFs of a directory that no disk owns. -/
def enumerated (active names : List Name) : List Name :=
  (names.filterMap diffID).filter (· ∉ active)

/-! ## The table of open stores -/

variable {active names : List Name} {broken : Option String} {oracle : Nat → Outcome} {o : Outcome}
  {s s' : Sweep} {handles table : List Name}
  {item : Item} {rest pending : List Item}

/-- Every open store belongs to a pending item. -/
structure Table (pending : List Item) (handles : List Name) : Prop where
  nodup : handles.Nodup
  opened : ∀ id ∈ handles, id ∈ pending.map Item.diffID

/-- There is room for a store that is not open. -/
theorem Table.room (h : Table (item :: rest) handles) (hid : item.diffID ∉ handles) :
    handles.length ≤ rest.length := by
  have hsub : handles ⊆ rest.map Item.diffID := fun id hopen => by
    rcases List.mem_cons.1 (h.opened id hopen) with rfl | hmem
    · exact absurd hopen hid
    · exact hmem
  have := (List.subperm_of_subset h.nodup hsub).length_le
  rwa [List.length_map] at this

theorem openHandle_length (h : handles.length ≤ directoryGCHandles) {id : Name}
    (hopen : openHandle o handles id = .ok table) : table.length ≤ directoryGCHandles := by
  unfold openHandle at hopen
  split at hopen
  · cases hopen
    exact h
  split at hopen
  · cases hopen
  next hroom =>
    split at hopen
    · cases hopen
    · cases hopen
      exact Nat.lt_of_not_le hroom

section

variable (h : Table (item :: rest) handles)

include h

theorem Table.openHandle (hopen : openHandle o handles item.diffID = .ok table) :
    Table (item :: rest) table := by
  unfold Directory.openHandle at hopen
  split at hopen
  · cases hopen
    exact h
  next hid =>
    split at hopen
    · cases hopen
    split at hopen
    · cases hopen
    cases hopen
    refine ⟨List.nodup_cons.2 ⟨hid, h.nodup⟩, fun id hmem => ?_⟩
    rcases List.mem_cons.1 hmem with rfl | hmem
    · exact (.head _)
    · exact h.opened id hmem

theorem Table.openHandle_error (hrest : rest.length < directoryGCHandles) {e : CallErr}
    (hopen : Directory.openHandle o handles item.diffID = .error e) :
    e ≠ .budgetExhausted ∧ item.diffID ∉ handles := by
  unfold Directory.openHandle at hopen
  split at hopen
  · cases hopen
  next hid =>
    have hroom := h.room hid
    rw [if_neg (by omega)] at hopen
    refine ⟨?_, hid⟩
    split at hopen
    · cases hopen
      exact nofun
    · cases hopen

/-- Dropping an item whose store is not open, or is closed. -/
theorem Table.drop (hid : item.diffID ∉ handles) : Table rest handles where
  nodup := h.nodup
  opened := fun id hmem => by
    rcases List.mem_cons.1 (h.opened id hmem) with rfl | hmem'
    · exact absurd hmem hid
    · exact hmem'

theorem Table.close : Table rest (handles.erase item.diffID) :=
  Table.drop ⟨h.nodup.erase _, fun id hmem => h.opened id (List.mem_of_mem_erase hmem)⟩
    h.nodup.not_mem_erase

/-- An item of the same file goes to the end of the queue. -/
theorem Table.requeue {item' : Item} (hid : item'.diffID = item.diffID) :
    Table (rest ++ [item']) handles where
  nodup := h.nodup
  opened := fun id hmem => by
    rw [List.map_append, List.mem_append, List.map_singleton, List.mem_singleton, hid]
    exact (List.mem_cons.1 (h.opened id hmem)).symm

end

theorem settle_diffID (err : Option CallErr) (item : Item) :
    (settle err item).diffID = item.diffID := by
  unfold settle
  split <;> rfl

theorem gcErrors_isEmpty (h : (gcErrors o true).isEmpty = true) :
    (gcErrors o false).isEmpty = true := by
  unfold gcErrors at *
  rw [List.isEmpty_iff, List.append_eq_nil_iff] at h
  rw [List.isEmpty_iff, h.1]
  rfl

/-- A collection goes on with the store open, or ends and the store is closed. -/
theorem collect_cases (o : Outcome) (handles : List Name) (item : Item) :
    (∃ item', collect o handles item = (none, handles, item') ∧ goesOn none item' = true) ∨
    ∃ err item', collect o handles item = (err, handles.erase item.diffID, item') ∧
      err ≠ some .budgetExhausted ∧
      goesOn err (settle err item') = false := by
  unfold collect
  dsimp only
  cases hc : closes o (item.collected o) with
  | false =>
    obtain ⟨herrors, hmore⟩ := Bool.or_eq_false_iff.1 hc
    rw [Bool.not_eq_false'] at herrors
    rw [if_pos herrors]
    refine .inl ⟨_, rfl, ?_⟩
    rw [goesOn, Option.isNone_none, Bool.true_and, beq_iff_eq]
    exact bne_eq_false_iff_eq.1 hmore
  | true =>
    refine .inr ⟨_, _, rfl, ?_, ?_⟩
    · split <;> simp
    by_cases herrors : (gcErrors o true).isEmpty = true
    · rw [if_pos herrors, settle, if_neg (by simp), goesOn, Option.isNone_none, Bool.true_and,
        beq_eq_false_iff_ne]
      rw [closes, gcErrors_isEmpty herrors, Bool.not_true, Bool.false_or] at hc
      exact bne_iff_ne.1 hc
    · rw [if_neg herrors]
      rfl

/-- A call fails before the collection and leaves the table, or collects with the store open. -/
theorem callItem_cases (o : Outcome) (handles : List Name) (item : Item) :
    (∃ e, callItem o handles item = (some e, handles, item) ∧
      (o.refused = none → (∃ text, o.owner = some text ∧ e = .owner text) ∨
        openHandle o handles item.diffID = .error e)) ∨
    ∃ table, openHandle o handles item.diffID = .ok table ∧
      callItem o handles item = collect o table item := by
  unfold callItem
  cases hrefused : o.refused with
  | some text => exact .inl ⟨_, rfl, nofun⟩
  | none =>
    cases howner : o.owner with
    | some text => exact .inl ⟨_, rfl, fun _ => .inl ⟨text, rfl, rfl⟩⟩
    | none =>
      cases hopen : openHandle o handles item.diffID with
      | error e => exact .inl ⟨e, rfl, fun _ => .inr rfl⟩
      | ok table => exact .inr ⟨table, rfl, rfl⟩

section Call

variable {err : Option CallErr} {item' : Item}

section

variable (h : callItem o handles item = (err, table, item'))

include h

theorem callItem_item : item'.diffID = item.diffID ∧ item'.error = item.error := by
  rcases callItem_cases o handles item with ⟨e, hcall, -⟩ | ⟨opened, -, hcall⟩
  · rw [hcall] at h
    cases h
    exact ⟨rfl, rfl⟩
  · rw [hcall] at h
    have : (collect o opened item).2.2.diffID = item.diffID ∧
        (collect o opened item).2.2.error = item.error := ⟨rfl, rfl⟩
    rwa [h] at this

/-- Only a collection that has more to do goes on. -/
theorem callItem_more (hgo : goesOn err (settle err item') = true) : o.gcState = .more := by
  rcases callItem_cases o handles item with ⟨e, hcall, -⟩ | ⟨opened, -, hcall⟩
  · rw [hcall] at h
    cases h
    cases hgo
  rw [hcall] at h
  obtain ⟨hnone, hstate⟩ := Bool.and_eq_true_iff.1 hgo
  obtain rfl := Option.isNone_iff_eq_none.1 hnone
  have hitem : item' = item.collected o := by
    have : (collect o opened item).2.2 = item.collected o := rfl
    rwa [h] at this
  rw [hitem, beq_iff_eq] at hstate
  change (if o.gcErr = some .retired then State.skippedRetired else .gc o.gcState) =
    .gc .more at hstate
  split at hstate
  · cases hstate
  · exact State.gc.inj hstate

end

/-- A call never leaves more than the budget open. -/
theorem callItem_length (hlen : handles.length ≤ directoryGCHandles)
    (h : callItem o handles item = (err, table, item')) :
    table.length ≤ directoryGCHandles := by
  rcases callItem_cases o handles item with ⟨e, hcall, -⟩ | ⟨opened, hopen, hcall⟩
  · rw [hcall] at h
    cases h
    exact hlen
  have hle := openHandle_length hlen hopen
  rw [hcall] at h
  rcases collect_cases o opened item with ⟨item', hcol, -⟩ | ⟨err, item', hcol, -⟩
  · rw [hcol] at h
    cases h
    exact hle
  · rw [hcol] at h
    cases h
    exact Nat.le_trans (List.length_erase_le) hle

/-- What a call that is let through does to the table; the one place where a store stays open
without its item is an owner that does not validate. -/
theorem Table.call (h : Table (item :: rest) handles) (hrest : rest.length < directoryGCHandles)
    (hrefused : o.refused = none) (howner : item.diffID ∈ handles → o.owner = none)
    (hcall : callItem o handles item = (err, table, item')) : err ≠ some .budgetExhausted ∧
      Table (if goesOn err (settle err item') then rest ++ [settle err item'] else rest) table := by
  have hid := (settle_diffID err item').trans (callItem_item hcall).1
  rcases callItem_cases o handles item with ⟨e, hfail, hwhy⟩ | ⟨opened, hopen, hcol⟩
  · rw [hfail] at hcall
    cases hcall
    have hnot : e ≠ .budgetExhausted ∧ item.diffID ∉ handles := by
      rcases hwhy hrefused with ⟨text, hval, rfl⟩ | hopen
      · refine ⟨nofun, fun hmem => ?_⟩
        rw [howner hmem] at hval
        cases hval
      · exact h.openHandle_error hrest hopen
    exact ⟨fun heq => hnot.1 (Option.some.inj heq), h.drop hnot.2⟩
  · have ht := h.openHandle hopen
    rw [hcol] at hcall
    rcases collect_cases o opened item with ⟨item₁, hmore, hgo⟩ | ⟨err₁, item₁, hdone, hne, hstop⟩
    · rw [hmore] at hcall
      cases hcall
      exact ⟨nofun, (if_pos hgo).symm ▸ ht.requeue hid⟩
    rw [hdone] at hcall
    cases hcall
    rw [hstop]
    exact ⟨hne, ht.close⟩

end Call

/-! ## Passes -/

variable (active names)

theorem enumerated_cons (name : Name) : enumerated active (name :: names) = match diffID name with
    | none => enumerated active names
    | some id =>
      if id ∈ active then enumerated active names else id :: enumerated active names := by
  unfold enumerated
  cases h : diffID name with
  | none => rw [List.filterMap_cons_none h]
  | some id =>
    rw [List.filterMap_cons_some h, List.filter_cons]
    by_cases hid : id ∈ active
    · rw [if_neg (by simpa using hid)]
      exact (if_pos hid).symm
    · rw [if_pos (by simpa using hid)]
      exact (if_neg hid).symm

/-- What the inner loop does: names become new items at the end of the queue, in order. -/
structure Fills (pending : List Item) (names' : List Name) (eof : Bool) (pending' : List Item) :
    Prop where
  ids : pending'.map Item.diffID ++ enumerated active names' = pending.map Item.diffID ++
    enumerated active names
  queue : pending'.length ≤ directoryGCHandles
  nothing : pending' = [] → eof = true
  ended : eof = true → names' = []
  fewer : names'.length + pending'.length ≤ names.length + pending.length
  kept : pending ⊆ pending'
  fresh : ∀ item ∈ pending', item ∈ pending ∨ item.error = none

theorem fill_fills (pending : List Item) (h : pending.length ≤ directoryGCHandles) :
    Fills active names pending (fill active names pending).1 (fill active names pending).2.1
      (fill active names pending).2.2 := by
  induction names generalizing pending with
  | nil =>
    rw [fill]
    split
    · exact ⟨rfl, h, fun _ => rfl, fun _ => rfl, Nat.le_refl _, List.Subset.refl _, fun _ => .inl⟩
    next hfull =>
      refine ⟨rfl, h, fun hnil => ?_, nofun, Nat.le_refl _, List.Subset.refl _, fun _ => .inl⟩
      rw [show pending = [] from hnil] at hfull
      exact absurd (by decide) hfull
  | cons name names ih =>
    rw [fill]
    split
    next hroom =>
      have hcons := enumerated_cons active names name
      cases hid : diffID name with
      | none =>
        rw [hid] at hcons
        dsimp only at hcons ⊢
        obtain ⟨ids, queue, nothing, ended, fewer, kept, fresh⟩ := ih pending h
        exact ⟨by rw [ids, hcons], queue, nothing, ended, by rw [List.length_cons]; omega, kept,
          fresh⟩
      | some id =>
        rw [hid] at hcons
        dsimp only at hcons ⊢
        by_cases hactive : id ∈ active
        · rw [if_pos hactive] at hcons ⊢
          obtain ⟨ids, queue, nothing, ended, fewer, kept, fresh⟩ := ih pending h
          exact ⟨by rw [ids, hcons], queue, nothing, ended, by rw [List.length_cons]; omega, kept,
            fresh⟩
        rw [if_neg hactive] at hcons ⊢
        have hlen : (pending ++ [({ diffID := id } : Item)]).length = pending.length + 1 :=
          List.length_append
        obtain ⟨ids, queue, nothing, ended, fewer, kept, fresh⟩ :=
          ih (pending ++ [{ diffID := id }]) (by omega)
        refine ⟨?_, queue, nothing, ended, by rw [List.length_cons]; omega,
          fun x hx => kept (List.mem_append_left _ hx), fun item hitem => ?_⟩
        · rw [ids, hcons, List.map_append, List.append_assoc]
          rfl
        rcases fresh item hitem with hold | hnew
        · rcases List.mem_append.1 hold with hold | hnew
          · exact .inl hold
          · rw [List.mem_singleton.1 hnew]
            exact .inr rfl
        · exact .inr hnew
    next hfull =>
      refine ⟨rfl, h, fun hnil => ?_, nofun, Nat.le_refl _, List.Subset.refl _, fun _ => .inl⟩
      rw [show pending = [] from hnil] at hfull
      exact absurd (by decide) hfull

/-- What is reported, pending and not yet enumerated together is the directory; the queue and
the table are within the budget. -/
structure Accounts (s : Sweep) : Prop where
  ids : (s.reports.map Item.diffID ++ (s.pending.map Item.diffID ++ enumerated active s.names)).Perm
    (enumerated active names)
  queue : s.pending.length ≤ directoryGCHandles
  ended : s.eof = true → s.names = []
  table : s.handles.length ≤ directoryGCHandles

variable {active names}

/-- No file failed for want of a handle, and every open store is that of a pending item. -/
structure Sound (s : Sweep) : Prop where
  table : Table s.pending s.handles
  fresh : ∀ item ∈ s.pending, item.error = none
  reports : ∀ item ∈ s.reports, item.error ≠ some .budgetExhausted

theorem filled_cases (active : List Name) (s : Sweep) : filled active s = s ∧ s.eof = true ∨
    s.eof = false ∧ ∃ names eof pending, filled active s = { s with names, eof, pending } ∧
      (s.pending.length ≤ directoryGCHandles →
        Fills active s.names s.pending names eof pending) := by
  unfold filled
  cases heof : s.eof with
  | true => exact .inl ⟨rfl, rfl⟩
  | false => exact .inr ⟨rfl, _, _, _, rfl, fill_fills active s.names s.pending⟩

theorem Accounts.filled (h : Accounts active names s) :
    Accounts active names (filled active s) := by
  rcases filled_cases active s with ⟨heq, -⟩ | ⟨-, names', eof, pending, heq, hfills⟩
  · rwa [heq]
  · rw [heq]
    have f := hfills h.queue
    exact ⟨by rw [f.ids]; exact h.ids, f.queue, f.ended, h.table⟩

theorem Sound.filled (h : Sound s) (hq : s.pending.length ≤ directoryGCHandles) :
    Sound (filled active s) := by
  rcases filled_cases active s with ⟨heq, -⟩ | ⟨-, names', eof, pending, heq, hfills⟩
  · rwa [heq]
  rw [heq]
  have f := hfills hq
  refine ⟨⟨h.table.nodup, fun id hid => ?_⟩,
    fun item hitem => (f.fresh item hitem).elim (h.fresh item) id, h.reports⟩
  exact List.map_subset _ f.kept (h.table.opened id hid)

structure Calls (oracle : Nat → Outcome) (s : Sweep) (item : Item) (rest : List Item) (s' : Sweep) :
    Prop where
  pending : s.pending = item :: rest
  after : ∃ err table item', callItem (oracle s.call) s.handles item = (err, table, item') ∧
    s' = s.after rest err table (settle err item')

/-- A pass returns at the end or with an error of the iterator, finds nothing more to do, or
makes a call. -/
theorem pass_cases (active : List Name) (broken : Option String) (oracle : Nat → Outcome)
    (s : Sweep) :
    (∃ e s', pass active broken oracle s = .returned e s' ∧
      (broken = none → e = none ∧ s' = s ∧ s.eof = true ∧ s.pending = [])) ∨
    (pass active broken oracle s = .again (filled active s) ∧ (filled active s).pending = [] ∧
      ¬(s.eof = true ∧ s.pending = [])) ∨
    ∃ item rest s', Calls oracle (filled active s) item rest s' ∧
      (pass active broken oracle s = .again s' ∨
        ∃ text, pass active broken oracle s = .returned (some text) s' ∧
          (oracle (filled active s).call).interrupted = some text) := by
  unfold pass
  split
  next hend =>
    rw [Bool.and_eq_true, List.isEmpty_iff] at hend
    exact .inl ⟨none, s, rfl, fun _ => ⟨rfl, rfl, hend⟩⟩
  next hmore =>
    rw [Bool.and_eq_true, List.isEmpty_iff] at hmore
    cases herror : enumerationError active broken s with
    | some text =>
      refine .inl ⟨some text, _, rfl, fun hbroken => ?_⟩
      rw [enumerationError, hbroken, ite_self] at herror
      cases herror
    | none =>
      refine .inr ?_
      unfold serveFirst
      cases hpending : (filled active s).pending with
      | nil => exact .inl ⟨rfl, rfl, hmore⟩
      | cons item rest =>
        refine .inr ⟨item, rest, _, ⟨hpending, _, _, _, rfl, rfl⟩, ?_⟩
        cases hint : (oracle (filled active s).call).interrupted with
        | none => exact .inl rfl
        | some text => exact .inr ⟨text, rfl, rfl⟩

theorem Accounts.call (h : Accounts active names s) (hc : Calls oracle s item rest s') :
    Accounts active names s' := by
  obtain ⟨hpending, err, table, item', hcall, rfl⟩ := hc
  have hid := (settle_diffID err item').trans (callItem_item hcall).1
  have hlen : rest.length + 1 ≤ directoryGCHandles := by
    have := h.queue
    rwa [hpending, List.length_cons] at this
  have hids := h.ids
  rw [hpending, List.map_cons] at hids
  refine ⟨?_, ?_, h.ended, callItem_length h.table hcall⟩
  · refine .trans ?_ hids
    unfold Sweep.after
    cases goesOn err (settle err item') with
    | true =>
      -- the item moves to the end of the queue
      refine List.Perm.append_left _ (List.Perm.append_right _ ?_)
      rw [if_pos rfl, List.map_append, List.map_singleton, hid]
      exact List.perm_append_singleton ..
    | false =>
      -- the item moves to the reports
      rw [if_neg Bool.false_ne_true, if_neg Bool.false_ne_true, List.map_append, List.map_singleton,
        hid, List.append_assoc]
      exact .refl _
  · unfold Sweep.after
    split
    · rw [List.length_append, List.length_singleton]
      exact hlen
    · exact Nat.le_of_succ_le hlen

theorem Sound.call (h : Sound s) (hq : s.pending.length ≤ directoryGCHandles)
    (hrefused : (oracle s.call).refused = none)
    (howner : item.diffID ∈ s.handles → (oracle s.call).owner = none)
    (hc : Calls oracle s item rest s') : Sound s' := by
  obtain ⟨hpending, err, table, item', hcall, rfl⟩ := hc
  have hlen : rest.length < directoryGCHandles := by
    rwa [hpending, List.length_cons] at hq
  obtain ⟨hbudget, htable⟩ := (hpending ▸ h.table).call hlen hrefused howner hcall
  have hold : ∀ i ∈ rest, i.error = none := fun i hi => h.fresh i (hpending ▸ .tail _ hi)
  have herror : item'.error = none :=
    (callItem_item hcall).2.trans (h.fresh item (hpending ▸ (.head _)))
  refine ⟨htable, fun i hi => ?_, fun i hi => ?_⟩
  · unfold Sweep.after at hi
    split at hi
    next hgo =>
      rcases List.mem_append.1 hi with hi | hi
      · exact hold i hi
      · obtain ⟨hnone, -⟩ := Bool.and_eq_true_iff.1 hgo
        rw [List.mem_singleton.1 hi, Option.isNone_iff_eq_none.1 hnone]
        exact herror
    · exact hold i hi
  · unfold Sweep.after at hi
    dsimp only at hi
    split at hi
    · exact h.reports i hi
    rcases List.mem_append.1 hi with hi | hi
    · exact h.reports i hi
    rw [List.mem_singleton.1 hi, settle]
    split
    · exact hbudget
    · rw [herror]
      exact nofun

/-! ## Whole sweeps -/

/-- What is left to do when no call from number `last` on has more to do. -/
def Sweep.left (last : Nat) (s : Sweep) : Nat :=
  (last - s.call) + s.names.length + s.pending.length + (if s.eof then 0 else 1)

theorem filled_left (active : List Name) (last : Nat) (h : s.pending.length ≤ directoryGCHandles) :
    (filled active s).left last ≤ s.left last := by
  rcases filled_cases active s with ⟨heq, -⟩ | ⟨hnot, names', eof, pending, heq, hfills⟩
  · exact Nat.le_of_eq (by rw [heq])
  have := (hfills h).fewer
  rw [heq]
  unfold Sweep.left
  dsimp only
  rw [hnot, if_neg Bool.false_ne_true]
  split <;> omega

/-- A pass that does not return leaves less to do. -/
theorem pass_left {last : Nat} (hmore : ∀ n, last ≤ n → (oracle n).gcState ≠ .more)
    (hq : s.pending.length ≤ directoryGCHandles) (h : pass active broken oracle s = .again s') :
    s'.left last < s.left last := by
  have hfilled := filled_left active last hq
  rcases pass_cases active broken oracle s with ⟨e, s₀, hret, -⟩ | ⟨hagain, hnothing, hnot⟩ | ⟨item,
    rest, s₁, hc, hagain | ⟨text, hret, -⟩⟩
  · rw [hret] at h
    cases h
  · rw [hagain] at h
    cases h
    rcases filled_cases active s with ⟨heq, heof⟩ | ⟨hno, names', eof, pending, heq, hfills⟩
    · rw [heq] at hnothing
      exact absurd ⟨heof, hnothing⟩ hnot
    have f := hfills hq
    rw [heq] at hnothing ⊢
    have hend := f.nothing hnothing
    have hfewer := f.fewer
    unfold Sweep.left
    dsimp only at hnothing ⊢
    rw [hno, hend, if_pos rfl, if_neg Bool.false_ne_true]
    omega
  · rw [hagain] at h
    cases h
    obtain ⟨hpending, err, table, item', hcall, rfl⟩ := hc
    refine Nat.lt_of_lt_of_le ?_ hfilled
    unfold Sweep.left Sweep.after
    dsimp only
    rw [hpending, List.length_cons]
    split
    next hgo =>
      have hcallMore := callItem_more hcall hgo
      have hearly : (filled active s).call < last := by
        by_contra hlate
        exact hmore _ (Nat.le_of_not_lt hlate) hcallMore
      rw [List.length_append, List.length_singleton]
      omega
    · omega
  · rw [hret] at h
    cases h

theorem Accounts.start (active names : List Name) : Accounts active names (start names) where
  ids := .refl _
  queue := Nat.zero_le _
  ended := nofun
  table := Nat.zero_le _

theorem Accounts.pass (h : Accounts active names s)
    (hpass : pass active broken oracle s = .again s') :
    Accounts active names s' := by
  rcases pass_cases active broken oracle s with ⟨e, s₀, hret, -⟩ | ⟨hagain, -⟩ | ⟨item, rest, s₁,
    hc, hagain | ⟨text, hret, -⟩⟩
  · rw [hret] at hpass
    cases hpass
  · rw [hagain] at hpass
    cases hpass
    exact h.filled
  · rw [hagain] at hpass
    cases hpass
    exact h.filled.call hc
  · rw [hret] at hpass
    cases hpass

theorem Reaches.accounts (h : Reaches active broken oracle names s) : Accounts active names s := by
  induction h with
  | start => exact .start active names
  | again _ hpass ih => exact ih.pass hpass

/-- The condition on the owner: it validates in every call for a file whose store is open. -/
def OwnerValid (active : List Name) (oracle : Nat → Outcome) (names : List Name) : Prop :=
  ∀ s, Reaches active none oracle names s → ∀ item rest, (filled active s).pending = item :: rest →
    item.diffID ∈ s.handles → (oracle s.call).owner = none

theorem filled_same (active : List Name) (s : Sweep) :
    (filled active s).handles = s.handles ∧ (filled active s).call = s.call := by
  rcases filled_cases active s with ⟨heq, -⟩ | ⟨-, names', eof, pending, heq, -⟩ <;> rw [heq] <;>
    exact ⟨rfl, rfl⟩

theorem Reaches.sound (hquiet : ∀ n, (oracle n).refused = none)
    (howner : OwnerValid active oracle names)
    (h : Reaches active none oracle names s) : Sound s := by
  induction h with
  | start => exact ⟨⟨List.nodup_nil, nofun⟩, nofun, nofun⟩
  | @again s s' hs hpass ih =>
    have hq := hs.accounts.queue
    rcases pass_cases active none oracle s with
      ⟨e, s₀, hret, -⟩ | ⟨hagain, -⟩ | ⟨item, rest, s₁, hc, hagain | ⟨text, hret, -⟩⟩
    · rw [hret] at hpass
      cases hpass
    · rw [hagain] at hpass
      cases hpass
      exact ih.filled hq
    · rw [hagain] at hpass
      cases hpass
      obtain ⟨hhandles, hcall⟩ := filled_same active s
      refine (ih.filled hq).call hs.accounts.filled.queue (hquiet _) (fun hopen => ?_) hc
      rw [hhandles] at hopen
      rw [hcall]
      exact howner s hs item rest hc.pending hopen
    · rw [hret] at hpass
      cases hpass

/-- A sweep that is not interrupted comes to its end from every state. -/
theorem Reaches.loop (hquiet : ∀ n, (oracle n).interrupted = none) {last : Nat}
    (hmore : ∀ n, last ≤ n → (oracle n).gcState ≠ .more) (h : Reaches active none oracle names s)
    {fuel : Nat}
    (hfuel : s.left last < fuel) :
    ∃ s', Directory.loop active none oracle fuel s = some (none, s') ∧
      Reaches active none oracle names s' ∧ s'.eof = true ∧ s'.pending = [] := by
  induction fuel generalizing s with
  | zero => omega
  | succ fuel ih =>
    rw [Directory.loop]
    cases hpass : pass active none oracle s with
    | again s' =>
      have := pass_left hmore h.accounts.queue hpass
      exact ih (.again h hpass) (by omega)
    | returned interrupted s' =>
      rcases pass_cases active none oracle s with
        ⟨e, s₀, hret, hend⟩ | ⟨hagain, -⟩ | ⟨item, rest, s₁, hc, hagain | ⟨text, hret, hint⟩⟩
      · obtain ⟨rfl, rfl, hend⟩ := hend rfl
        rw [hret] at hpass
        cases hpass
        exact ⟨_, rfl, h, hend⟩
      · rw [hagain] at hpass
        cases hpass
      · rw [hagain] at hpass
        cases hpass
      · rw [hquiet] at hint
        cases hint

/-- A sweep that is neither cancelled nor stopped, in which no file has more to do for ever and
the owner validates in every call for a file whose store is open: it ends, every file of the
directory that is not active is reported exactly once, none for want of a handle, and never
are more than two stores open. -/
theorem sweep_reports_each_once (active names : List Name) (oracle : Nat → Outcome)
    (hquiet : ∀ n, (oracle n).refused = none ∧ (oracle n).interrupted = none)
    (hmore : ∃ last, ∀ n, last ≤ n → (oracle n).gcState ≠ .more)
    (howner : OwnerValid active oracle names) :
    (∀ broken s, Reaches active broken oracle names s → s.handles.length ≤ directoryGCHandles ∧
      ∀ id table, openHandle (oracle s.call) s.handles id = .ok table → table.length ≤
        directoryGCHandles) ∧
    ∃ fuel s, sweep active oracle ⟨none, names, none⟩ fuel = some (none, s) ∧
      (s.reports.map Item.diffID).Perm (enumerated active names) ∧
      (∀ item ∈ s.reports, item.error ≠ some .budgetExhausted) ∧ s.handles = [] := by
  refine ⟨fun
    broken s hs => ⟨hs.accounts.table, fun id table => openHandle_length hs.accounts.table⟩, ?_⟩
  obtain ⟨last, hlast⟩ := hmore
  have hstart : Reaches active none oracle names (start names) := .start
  obtain ⟨s, hloop, hs, heof, hpending⟩ := hstart.loop (fun n => (hquiet n).2) hlast
    (Nat.lt_succ_self _)
  refine ⟨_, { s with handles := [] }, by rw [sweep, hloop]; rfl, ?_, ?_, rfl⟩
  · have hids := hs.accounts.ids
    rw [hpending, hs.accounts.ended heof] at hids
    rwa [List.map_nil, List.nil_append, enumerated, List.filterMap_nil, List.filter_nil,
      List.append_nil] at hids
  · exact (hs.sound (fun n => (hquiet n).1) howner).reports

/-- A call that collects without errors. -/
def collecting (state : GCState) : Outcome := ⟨none, none, none, state, 1, none, none, none⟩

def threeFiles : List Name :=
  [['a', '.', 'd', 'i', 'f', 'f'], ['b', '.', 'd', 'i', 'f', 'f'], ['c', '.', 'd', 'i', 'f', 'f']]

/-- Three files, the first two of which have more to do once. -/
theorem sweep_reports_each_once_three_files : ∃ fuel s,
    sweep [] (fun n => collecting (if n < 2 then .more else .complete))
      ⟨none, threeFiles, none⟩ fuel = some (none, s) ∧
      (s.reports.map Item.diffID).Perm [['a'], ['b'], ['c']] := by
  have howner :
      OwnerValid [] (fun n => collecting (if n < 2 then .more else .complete)) threeFiles :=
    fun _ _ _ _ _ _ => rfl
  obtain ⟨-, fuel, s, hsweep, hids, -⟩ := sweep_reports_each_once [] threeFiles
    (fun n => collecting (if n < 2 then .more else .complete)) (fun n => ⟨rfl, rfl⟩)
    ⟨2, fun n hn => by simp [collecting, Nat.not_lt.2 hn]⟩ howner
  refine ⟨fuel, s, hsweep, hids.trans (List.Perm.of_eq ?_)⟩
  decide

/-- The owner does not validate in the second call for `a`, whose store is open by then. -/
def ownerFailsOnce (n : Nat) : Outcome :=
  if n = 2 then { collecting .complete with owner := some "input/output error" }
  else collecting (if n < 4 then .more else .complete)

/-- The store of `a` stays open though `a` has been reported, and `c` fails for want of a handle. -/
theorem sweep_exhausts_budget :
    (∀ n, (ownerFailsOnce n).refused = none ∧ (ownerFailsOnce n).interrupted = none) ∧
    (∀ n, 4 ≤ n → (ownerFailsOnce n).gcState ≠ .more) ∧
    ((sweep [] ownerFailsOnce ⟨none, threeFiles, none⟩ 10).map fun out => out.2.reports.map
      fun item => (item.diffID, item.error)) =
      some [(['a'], some (.owner "input/output error")), (['c'], some .budgetExhausted),
        (['b'], none)] := by
  refine ⟨fun n => ?_, fun n hn => ?_, by decide⟩
  · unfold ownerFailsOnce
    split <;> exact ⟨rfl, rfl⟩
  · unfold ownerFailsOnce
    rw [if_neg (by omega), if_neg (by omega)]
    exact nofun

end Sandboxer.Diffstore.Directory
