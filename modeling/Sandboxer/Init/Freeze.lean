import Sandboxer.Init.Launch

/-! # Nothing is forked while the guest is quiesced

While requests are handled one at a time, the gates stay closed from before a
freeze until after the next thaw. A session is joined before the freeze, so an exec
child is never forked in the window. An app restart or a plugin launch looks at its
gate once, some time before it forks: it stays out of the window if no such launch
is under way when the freeze is confirmed. -/
namespace Sandboxer.Init

open Lib.Threads

variable {S : Setting} {t u : Goroutine} {g g' : Guest}

/-! ## Invariant, rely and guarantee -/

/-- The channel is closed once no admitted session is left. -/
structure Draining (ch : Nat) (r : ExecRegistry) : Prop where
  joined : r.closed ch = true → r.sessions = ∅
  waiting : r.closed ch = false → r.drained = some ch

/-- Every channel that a quiesce was given to wait for is closed, or it is the one that the
last session closes, and some session is left. -/
structure Waited (r : ExecRegistry) : Prop where
  ends : ∀ ch < r.made, r.closed ch = false → r.drained = some ch ∧ r.sessions ≠ ∅
  drained : ∀ ch, r.drained = some ch → ch < r.made ∧ r.closed ch = false

/-- All three gates are closed and every session has ended. -/
structure Quiet (S : Setting) (g : Guest) : Prop where
  app : g.quiescing = true
  plugins : g.plugins.quiescing = true
  exec : g.exec.quiescing = true
  sessions : g.exec.sessions = ∅
  frozen : g.frozen = true
  launching : ¬S.overtakes → ∀ t, g.launching t = false

structure Inv (S : Setting) (g : Guest) : Prop where
  exclusive : ∀ t u, g.handling t = true → g.handling u = true → t = u
  quiet : g.window = true → Quiet S g
  waited : Waited g.exec
  forks : ∀ f ∈ g.forks, ((∃ c, f.child = .exec c) ∨ ¬S.overtakes) → f.quiesced = false
  freezes : ∀ m ∈ g.freezes, m = ∅

/-- What a request relies on while it is handled, and what only a request changes. -/
structure GatesKept (g g' : Guest) : Prop where
  app : g'.quiescing = g.quiescing
  plugins : g'.plugins.quiescing = g.plugins.quiescing
  exec : g'.exec.quiescing = g.exec.quiescing
  window : g'.window = g.window
  draining : g.exec.quiescing = true → ∀ ch, Draining ch g.exec → Draining ch g'.exec
  sessions : g.exec.quiescing = true → g'.exec.sessions ⊆ g.exec.sessions

variable (t)

structure Rely (g g' : Guest) : Prop where
  launching : g'.launching t = g.launching t
  handling : g'.handling t = g.handling t
  session : ∀ c, t = .exec c → (c ∈ g'.exec.sessions ↔ c ∈ g.exec.sessions)
  gates : g.handling t = true → GatesKept g g'

structure Guar (g g' : Guest) : Prop where
  launching : ∀ u, u ≠ t → g'.launching u = g.launching u
  handling : ∀ u, u ≠ t → g'.handling u = g.handling u
  session : ∀ c, t ≠ .exec c → (c ∈ g'.exec.sessions ↔ c ∈ g.exec.sessions)
  gates : g.handling t = false → GatesKept g g'

/-- What a launch guarantees besides: it is no request. -/
structure Launches (g g' : Guest) : Prop extends Guar t g g' where
  request : g'.handling t = g.handling t
  kept : GatesKept g g'

theorem GatesKept.of_eq (happ : g'.quiescing = g.quiescing) (hplugins : g'.plugins = g.plugins)
    (hexec : g'.exec = g.exec) (hwindow : g'.window = g.window) : GatesKept g g' :=
  ⟨happ, by rw [hplugins], by rw [hexec], hwindow, fun _ _ h => by rwa [hexec],
    fun _ => by rw [hexec]⟩

theorem GatesKept.refl (g : Guest) : GatesKept g g := .of_eq rfl rfl rfl rfl

theorem Guar.refl (g : Guest) : Guar t g g :=
  ⟨fun _ _ => rfl, fun _ _ => rfl, fun _ _ => .rfl, fun _ => .refl g⟩

theorem Launches.refl (g : Guest) : Launches t g g := ⟨.refl t g, rfl, .refl g⟩

variable {t}

theorem Guar.rely (hi : Inv S g) (hg : Guar t g g') (hne : t ≠ u) : Rely u g g' where
  launching := hg.launching u hne.symm
  handling := hg.handling u hne.symm
  session := fun c hc => hg.session c fun ht => hne (ht.trans hc.symm)
  gates := fun hu => hg.gates <| by
    cases ht : g.handling t with
    | false => rfl
    | true => exact absurd (hi.exclusive t u ht hu) hne

/-! ## Moves that touch no gate -/

/-- The states agree on all that the invariant reads; the cgroup does not thaw. -/
structure Same (g g' : Guest) : Prop where
  app : g'.quiescing = g.quiescing
  plugins : g'.plugins.quiescing = g.plugins.quiescing
  exec : g'.exec.quiescing = g.exec.quiescing
  sessions : g'.exec.sessions = g.exec.sessions
  drained : g'.exec.drained = g.exec.drained
  made : g'.exec.made = g.exec.made
  closed : g'.exec.closed = g.exec.closed
  frozen : g.frozen = true → g'.frozen = true
  window : g'.window = g.window
  launching : g'.launching = g.launching
  handling : g'.handling = g.handling
  forks : g'.forks = g.forks
  freezes : g'.freezes = g.freezes

theorem Same.gates (h : Same g g') : GatesKept g g' where
  app := h.app
  plugins := h.plugins
  exec := h.exec
  window := h.window
  draining := fun _ ch hd => ⟨fun hc => by rw [h.sessions]; exact hd.joined (h.closed ▸ hc),
    fun hc => by rw [h.drained]; exact hd.waiting (h.closed ▸ hc)⟩
  sessions := fun _ => by rw [h.sessions]

theorem Same.launches (h : Same g g') (t : Goroutine) : Launches t g g' where
  launching := fun u _ => by rw [h.launching]
  handling := fun u _ => by rw [h.handling]
  session := fun c _ => by rw [h.sessions]
  gates := fun _ => h.gates
  request := by rw [h.handling]
  kept := h.gates

theorem Waited.of_eq {r r' : ExecRegistry} (h : Waited r) (hs : r'.sessions = r.sessions)
    (hd : r'.drained = r.drained) (hm : r'.made = r.made) (hc : r'.closed = r.closed) :
    Waited r' := by
  refine ⟨?_, ?_⟩
  · rw [hs, hd, hm, hc]
    exact h.ends
  · rw [hd, hm, hc]
    exact h.drained

theorem Same.inv (h : Same g g') (hi : Inv S g) : Inv S g' where
  exclusive := by rw [h.handling]; exact hi.exclusive
  quiet := fun hw => by
    have hq := hi.quiet (h.window ▸ hw)
    exact ⟨h.app.trans hq.app, h.plugins.trans hq.plugins, h.exec.trans hq.exec,
      h.sessions.trans hq.sessions, h.frozen hq.frozen, by rw [h.launching]; exact hq.launching⟩
  waited := hi.waited.of_eq h.sessions h.drained h.made h.closed
  forks := by rw [h.forks]; exact hi.forks
  freezes := by rw [h.freezes]; exact hi.freezes

theorem same_refl (g : Guest) : Same g g :=
  ⟨rfl, rfl, rfl, rfl, rfl, rfl, rfl, id, rfl, rfl, rfl, rfl, rfl⟩

variable {r : ExecRegistry}

/-- A registry that agrees on the sessions and on who waits for them. -/
theorem same_setExec (hq : r.quiescing = g.exec.quiescing)
    (hs : r.sessions = g.exec.sessions) (hd : r.drained = g.exec.drained)
    (hm : r.made = g.exec.made) (hc : r.closed = g.exec.closed) : Same g (g.setExec r) :=
  { same_refl g with exec := hq, sessions := hs, drained := hd, made := hm, closed := hc }

theorem same_setPlugins {r : PluginRegistry} (hq : r.quiescing = g.plugins.quiescing) :
    Same g (g.setPlugins r) :=
  { same_refl g with plugins := hq }

theorem same_setPending (g : Guest) (p : Nat) (b : Bool) : Same g (g.setPending p b) :=
  same_setPlugins rfl

theorem same_deliver (g : Guest) (pid : Nat) : Same g (g.setExec (g.exec.deliver pid)) := by
  unfold ExecRegistry.deliver
  split <;> exact same_setExec rfl rfl rfl rfl rfl

theorem same_register (g : Guest) (c pid : Nat) : Same g (g.setExec (g.exec.register c pid).2) := by
  unfold ExecRegistry.register
  split <;> exact same_setExec rfl rfl rfl rfl rfl

theorem same_done (g : Guest) (pid : Nat) : Same g (g.setExec (g.exec.done pid)) :=
  same_setExec rfl rfl rfl rfl rfl

theorem Outside.same (h : Outside g g') : Same g g' := by
  cases h with
  | freezes _ => exact { same_refl g with frozen := fun _ => rfl }
  | signals => exact { same_refl g with }
  | reaps pid => exact same_deliver g pid

theorem sound (S : Setting) : Sound (Inv S) Rely Guar Outside where
  compatible := fun _ _ hne _ _ hi _ hg => hg.rely hi hne
  env_inv := fun _ _ hi h => h.same.inv hi
  env_rely := fun _ _ _ _ h u =>
    ⟨by rw [h.same.launching], by rw [h.same.handling], fun c _ => by rw [h.same.sessions],
      fun _ => h.same.gates⟩

/-! ## Launches -/

/-- A launch is under way, or not. -/
abbrev Launching (t : Goroutine) (b : Bool) (g : Guest) : Prop := g.launching t = b

instance Launching.firm (b : Bool) : Firm (Inv S) (Rely t) (Launching t b) :=
  ⟨fun _ _ _ _ hb hr => hr.launching.trans hb⟩

section Code

variable {α : Type} (S : Setting) (t : Goroutine) (P : Guest → Prop) (p : Prog Guest α)
    (Q : α → Guest → Prop)

abbrev Safe : Prop := Sat (Inv S) (Rely t) (Guar t) P p Q

abbrev Launcher : Prop := Sat (Inv S) (Rely t) (Launches t) P p Q

variable {S t P p Q}

theorem Launcher.safe (h : Launcher S t P p Q) : Safe S t P p Q := h.weaken fun _ _ h => h.toGuar

end Code

theorem launching_self (g : Guest) (t : Goroutine) (b : Bool) :
    (g.setLaunching t b).launching t = b :=
  Function.update_self ..

theorem launches_setLaunching (g : Guest) (t : Goroutine) (b : Bool) :
    Launches t g (g.setLaunching t b) where
  launching := fun _ hu => Function.update_of_ne hu ..
  handling := fun _ _ => rfl
  session := fun _ _ => .rfl
  gates := fun _ => .of_eq rfl rfl rfl rfl
  request := rfl
  kept := .of_eq rfl rfl rfl rfl

/-- A launch ends, or begins outside the window. -/
theorem Inv.setLaunching (hi : Inv S g) {b : Bool} (hb : b = true → g.window = false) :
    Inv S (g.setLaunching t b) where
  exclusive := hi.exclusive
  quiet := by
    intro (hw : g.window = true)
    have hq := hi.quiet hw
    refine { hq with launching := fun ho u => ?_ }
    change Function.update g.launching t b u = false
    rw [Function.update_apply]
    split
    · cases b with
      | false => rfl
      | true =>
        rw [hb rfl] at hw
        cases hw
    · exact hq.launching ho u
  waited := hi.waited
  forks := hi.forks
  freezes := hi.freezes

/-- A fork is recorded as it should be: outside the window, or of a launch that
was overtaken by the freeze. -/
theorem Inv.record (hi : Inv S g) {child : Child}
    (h : ((∃ c, child = .exec c) ∨ ¬S.overtakes) → g.window = false) : Inv S (g.record child) where
  exclusive := hi.exclusive
  quiet := fun hw => by
    have hq := hi.quiet hw
    exact { hq with }
  waited := hi.waited
  forks := by
    intro f hf hc
    rcases List.mem_cons.1 hf with rfl | hf
    · exact h hc
    · exact hi.forks f hf hc
  freezes := hi.freezes

theorem launches_forked (g : Guest) (t : Goroutine) (child : Child) :
    Launches t g ((g.record child).setLaunching t false) where
  launching := fun _ hu => Function.update_of_ne hu ..
  handling := fun _ _ => rfl
  session := fun _ _ => .rfl
  gates := fun _ => .of_eq rfl rfl rfl rfl
  request := rfl
  kept := .of_eq rfl rfl rfl rfl

variable {P : Guest → Prop}

theorem giveUp_sat : Launcher S t P (giveUp t) fun _ => Launching t false :=
  Sat.change fun g hi _ =>
    ⟨hi.setLaunching nofun, launches_setLaunching g t false, launching_self g t false⟩

theorem outcome_sat [Firm (Inv S) (Rely t) P] : Launcher S t P outcome fun _ => P :=
  (Sat.choose fun g _ => .refl t g).post fun _ _ _ h => h.1

/-- The fork of a launch that has passed its gate. -/
theorem fork_sat {child : Child} (hc : ∀ c, child ≠ .exec c) :
    Launcher S t (Launching t true) (fork t child)
      fun _ => Launching t false := by
  refine .atomic ?_
  rintro g pid _ hi hl rfl
  refine ⟨(hi.record fun h => ?_).setLaunching nofun, launches_forked g t child,
    launching_self _ t false⟩
  cases hw : g.window with
  | false => rfl
  | true =>
    obtain ⟨c, rfl⟩ | ho := h
    · exact absurd rfl (hc c)
    · exact nomatch ((hi.quiet hw).launching ho t).symm.trans hl

theorem same_sat {f : Guest → Guest} [Firm (Inv S) (Rely t) P] (hf : ∀ g, Same g (f g))
    (hkeep : ∀ g, P g → P (f g)) : Launcher S t P (Prog.change f) fun _ => P :=
  Sat.change fun g hi hs => ⟨(hf g).inv hi, (hf g).launches t, hkeep g hs⟩

theorem forkApp_sat : Launcher S t (Launching t true) (forkApp t) fun _ => Launching t false := by
  refine .bind outcome_sat fun wired => ?_
  refine .ite (fun _ => giveUp_sat) fun _ => ?_
  refine .bind (.watch fun g _ => .refl t g) fun down => ?_
  refine .ite (fun _ => giveUp_sat) fun _ => ?_
  refine .bind outcome_sat fun started => ?_
  refine .ite (fun _ => ?_) fun _ => giveUp_sat
  exact .bind (fork_sat nofun) fun _ => .skip

/-- The gate of a launch opens only outside the window. -/
theorem gate_sat {gate : Guest → Bool × Guest}
    (h : ∀ g, Inv S g → Same g (gate g).2 ∧ (gate g).1 = false ∨
      g.window = false ∧ gate g = (true, g.setLaunching t true)) :
    Launcher S t (Launching t false) (Prog.exec gate)
      fun passed => Launching t passed := by
  refine .exec fun g hi hl => ?_
  obtain ⟨hsame, hshut⟩ | ⟨hw, hgo⟩ := h g hi
  · exact ⟨hsame.inv hi, hsame.launches t,
      by rw [hshut]; exact (congrFun hsame.launching t).trans hl⟩
  · rw [hgo]
    exact ⟨hi.setLaunching fun _ => hw, launches_setLaunching g t true, launching_self g t true⟩

theorem window_of_gate (hi : Inv S g) (h : g.quiescing = false ∨ g.plugins.quiescing = false ∨
    g.exec.quiescing = false ∨ g.frozen = false) : g.window = false := by
  cases hw : g.window with
  | false => rfl
  | true =>
    have hq := hi.quiet hw
    rw [hq.app, hq.plugins, hq.exec, hq.frozen] at h
    simp at h

theorem restartApp_sat (fuel : Nat) :
    Launcher S t (Launching t false) (restartApp t fuel) fun _ _ => True := by
  induction fuel with
  | zero => exact .halt
  | succ fuel ih =>
    refine .bind (.watch fun g _ => .refl t g) fun down => ?_
    refine .ite (fun _ => .stop) fun _ => ?_
    refine .bind (gate_sat fun g hi => ?_) fun passed => ?_
    · cases hq : g.quiescing with
      | true => exact .inl ⟨same_refl g, rfl⟩
      | false => exact .inr ⟨window_of_gate hi (.inl hq), rfl⟩
    · cases passed with
      | true => exact forkApp_sat.post fun _ _ _ _ => trivial
      | false => exact ih

theorem launchGate_passes (p : Nat) (hi : Inv S g) : Same g (launchGate t p g).2 ∧
    (launchGate t p g).1 = false ∨
    g.window = false ∧ launchGate t p g = (true, g.setLaunching t true) := by
  unfold launchGate
  split
  · exact .inl ⟨same_refl g, rfl⟩
  · cases hq : g.plugins.quiescing with
    | true => exact .inl ⟨same_setPending g p true, rfl⟩
    | false => exact .inr ⟨window_of_gate hi (.inr (.inl hq)), rfl⟩

theorem launch_sat (p : Nat) :
    Launcher S t (Launching t false) (launch t p) fun _ => Launching t false := by
  refine .bind (gate_sat fun g hi => launchGate_passes p hi) fun passed => ?_
  cases passed with
  | false => exact .skip
  | true =>
    refine .bind outcome_sat fun started => ?_
    refine .ite (fun _ => ?_) fun _ => giveUp_sat
    refine .bind (fork_sat nofun) fun _ => ?_
    exact same_sat (fun g => same_setPending g p false) fun _ h => h

theorem start_sat (specs : List Nat) : Launcher S t (Launching t false)
    (start t specs) fun _ => Launching t false := by
  induction specs with
  | nil => exact .skip
  | cons p specs ih =>
    refine .bind (same_sat (fun g => same_setPlugins rfl) fun _ h => h) fun _ => ?_
    exact .bind (launch_sat p) fun _ => ih

theorem launchAll_sat (ps : List Nat) : Launcher S t (Launching t false)
    (launchAll t ps) fun _ => Launching t false := by
  induction ps with
  | nil => exact .skip
  | cons p ps ih => exact .bind (launch_sat p) fun _ => ih

/-! ## Exec sessions -/

abbrev Serving (c : Nat) (g : Guest) : Prop := c ∈ g.exec.sessions

instance Serving.firm (c : Nat) : Firm (Inv S) (Rely (.exec c)) (Serving c) :=
  ⟨fun _ _ _ _ hc hr => (hr.session c rfl).2 hc⟩

theorem endSession_cases (r : ExecRegistry) (c : Nat) :
    (r.endSession c = { r with sessions := r.sessions.erase c } ∧
      (r.drained ≠ none → r.sessions.erase c ≠ ∅)) ∨
      ∃ ch, r.drained = some ch ∧ r.sessions.erase c = ∅ ∧ r.endSession c = { r with
        sessions := r.sessions.erase c
        closed := Function.update r.closed ch true
        drained := none } := by
  unfold ExecRegistry.endSession
  cases hd : r.drained with
  | none => exact .inl ⟨rfl, fun h => absurd rfl h⟩
  | some ch =>
    by_cases hempty : r.sessions.erase c = ∅
    · exact .inr ⟨ch, rfl, hempty, if_pos hempty⟩
    · exact .inl ⟨if_neg hempty, fun _ => hempty⟩

theorem endSession_sessions (r : ExecRegistry) (c : Nat) :
    (r.endSession c).sessions = r.sessions.erase c := by
  obtain ⟨h, -⟩ | ⟨ch, -, -, h⟩ := endSession_cases r c <;> rw [h]

theorem endSession_quiescing (r : ExecRegistry) (c : Nat) :
    (r.endSession c).quiescing = r.quiescing := by
  obtain ⟨h, -⟩ | ⟨ch, -, -, h⟩ := endSession_cases r c <;> rw [h]

theorem Draining.endSession {ch c : Nat} (h : Draining ch r) : Draining ch (r.endSession c) := by
  obtain ⟨heq, -⟩ | ⟨other, hd, hempty, heq⟩ := endSession_cases r c
  · rw [heq]
    refine ⟨fun hc => ?_, h.waiting⟩
    rw [h.joined hc, Finset.erase_empty]
  rw [heq]
  refine ⟨fun _ => hempty, fun hc => ?_⟩
  -- the channel that is closed is the one that is waited for
  change Function.update r.closed other true ch = false at hc
  rw [Function.update_apply] at hc
  split at hc
  · cases hc
  next hne =>
    have hother := h.waiting hc
    rw [hd] at hother
    exact absurd (Option.some.inj hother).symm hne

theorem Waited.endSession {c : Nat} (h : Waited r) : Waited (r.endSession c) := by
  obtain ⟨heq, hleft⟩ | ⟨other, hd, -, heq⟩ := endSession_cases r c
  · rw [heq]
    refine ⟨fun ch hch hopen => ?_, h.drained⟩
    have hd := (h.ends ch hch hopen).1
    exact ⟨hd, hleft (Option.ne_none_iff_exists'.mpr ⟨ch, hd⟩)⟩
  · -- the last session has closed the only channel that was open
    rw [heq]
    refine ⟨fun ch hch hopen => ?_, nofun⟩
    change Function.update r.closed other true ch = false at hopen
    rw [Function.update_apply] at hopen
    split at hopen
    · cases hopen
    next hne =>
      have hch := (h.ends ch hch hopen).1
      rw [hd] at hch
      exact absurd (Option.some.inj hch).symm hne

theorem guar_endSession (g : Guest) (c : Nat) :
    Guar (.exec c) g (g.setExec (g.exec.endSession c)) where
  launching := fun _ _ => rfl
  handling := fun _ _ => rfl
  session := fun d hd => by
    change d ∈ (g.exec.endSession c).sessions ↔ d ∈ g.exec.sessions
    rw [endSession_sessions, Finset.mem_erase]
    exact ⟨fun h => h.2, fun h => ⟨fun hdc => hd (by rw [hdc]), h⟩⟩
  gates := fun _ => ⟨rfl, rfl, endSession_quiescing .., rfl, fun _ _ h => h.endSession, fun _ => by
    change (g.exec.endSession c).sessions ⊆ g.exec.sessions
    rw [endSession_sessions]
    exact Finset.erase_subset ..⟩

theorem Inv.endSession (hi : Inv S g) (c : Nat) : Inv S (g.setExec (g.exec.endSession c)) where
  exclusive := hi.exclusive
  quiet := fun hw => by
    have hq := hi.quiet hw
    refine { hq with exec := (endSession_quiescing ..).trans hq.exec, sessions := ?_ }
    change (g.exec.endSession c).sessions = ∅
    rw [endSession_sessions, hq.sessions, Finset.erase_empty]
  waited := hi.waited.endSession
  forks := hi.forks
  freezes := hi.freezes

/-- A session is admitted only while its gate is open. -/
theorem beginSession_sat (c : Nat) : Safe S (.exec c) (fun _ => True)
    (Prog.exec fun g => ((g.exec.beginSession c).1, g.setExec (g.exec.beginSession c).2))
    fun admitted g => admitted = true → Serving c g := by
  refine .exec fun g hi _ => ?_
  cases hq : g.exec.quiescing with
  | true =>
    have hrefused : g.exec.beginSession c = (false, g.exec) := if_pos hq
    rw [hrefused]
    exact ⟨hi, .refl _ g, nofun⟩
  | false =>
    have hopen : ¬g.exec.quiescing = true := by simp [hq]
    have hadmitted : g.exec.beginSession c =
        (true, { g.exec with sessions := insert c g.exec.sessions }) :=
      if_neg hopen
    rw [hadmitted]
    have hw := window_of_gate hi (.inr (.inr (.inl hq)))
    have hwaited : Waited { g.exec with sessions := insert c g.exec.sessions } :=
      ⟨fun ch hch hopen => ⟨(hi.waited.ends ch hch hopen).1, Finset.insert_ne_empty c _⟩,
        hi.waited.drained⟩
    refine ⟨{ hi with quiet := ?_, waited := hwaited }, ?_, fun _ => Finset.mem_insert_self ..⟩
    · intro (hw' : g.window = true)
      rw [hw] at hw'
      cases hw'
    refine ⟨fun _ _ => rfl, fun _ _ => rfl, fun d hd => ?_, fun _ => ⟨rfl, rfl, rfl, rfl, ?_, ?_⟩⟩
    · exact Finset.mem_insert.trans (or_iff_right fun hdc => hd (by rw [hdc]))
    · exact fun hq' => absurd hq' hopen
    · exact fun hq' => absurd hq' hopen

/-- The child of an admitted session is forked outside the window. -/
theorem fork_exec_sat (c : Nat) :
    Safe S (.exec c) (Serving c) (fork (.exec c) (.exec c)) fun _ => Serving c := by
  refine .atomic ?_
  rintro g pid _ hi hc rfl
  refine ⟨(hi.record fun _ => ?_).setLaunching nofun, (launches_forked g _ _).toGuar, hc⟩
  cases hw : g.window with
  | false => rfl
  | true =>
    rw [Serving, (hi.quiet hw).sessions] at hc
    exact absurd hc (Finset.notMem_empty c)

theorem forkExecChild_sat (c : Nat) :
    Safe S (.exec c) (Serving c) (forkExecChild c) fun _ => Serving c := by
  refine .bind (outcome_sat.safe) fun started => ?_
  refine .ite (fun _ => ?_) fun _ => .skip
  refine .bind (fork_exec_sat c) fun pid => ?_
  refine .bind (M := fun _ => Serving c) (.exec fun g hi hc => ?_)
    fun allowed => ?_
  · have hsame := same_register g c pid
    exact ⟨hsame.inv hi, (hsame.launches _).toGuar, by rw [Serving, hsame.sessions]; exact hc⟩
  refine .bind (M := fun _ => Serving c) (.atomic ?_) fun _ => ?_
  · rintro g _ _ hi hc ⟨-, rfl⟩
    exact ⟨hi, .refl .., hc⟩
  · exact (same_sat (fun g => same_done g pid) fun _ h => h).safe

theorem runExecSession_sat (c : Nat) :
    Safe S (.exec c) (fun _ => True) (runExecSession c) fun _ _ => True := by
  refine .bind (beginSession_sat c) fun admitted => ?_
  cases admitted with
  | false => exact .stop
  | true =>
    refine .bind (M := fun _ _ => True) ?_ fun _ => .change
      fun g hi _ => ⟨hi.endSession c, guar_endSession g c, trivial⟩
    have hserve : Safe S (.exec c) (Serving c) (serveExec c)
        fun _ _ => True := by
      refine .bind (outcome_sat.safe) fun ready => ?_
      exact .ite (fun _ => (forkExecChild_sat c).post fun _ _ _ _ => trivial)
        fun _ => .stop
    exact hserve.pre fun _ _ h => h rfl

/-! ## Requests -/

/-- The request is being handled, launches nothing, and knows `F` of the gates. -/
def During (t : Goroutine) (F : Guest → Prop) (g : Guest) : Prop :=
  g.handling t = true ∧ g.launching t = false ∧ F g

/-- Only a request changes it. -/
abbrev Fixed (F : Guest → Prop) : Prop := Firm (fun _ => True) GatesKept F

instance During.firm {F : Guest → Prop} [hF : Fixed F] : Firm (Inv S) (Rely t) (During t F) :=
  ⟨fun _ _ _ _ h hr =>
  ⟨hr.handling.trans h.1, hr.launching.trans h.2.1,
    hF.stable _ _ trivial trivial h.2.2 (hr.gates h.1)⟩⟩

/-- A request changes gates while it is handled. -/
theorem guar_request (hh : g.handling t = true) (hl : g'.launching = g.launching)
    (hh' : g'.handling = g.handling) (hs : g'.exec.sessions = g.exec.sessions) : Guar t g g' where
  launching := fun _ _ => by rw [hl]
  handling := fun _ _ => by rw [hh']
  session := fun _ _ => by rw [hs]
  gates := fun h => by
    rw [hh] at h
    cases h

/-- Outside the window the gates may be moved at will. -/
theorem Inv.awake (hi : Inv S g) (hw : g'.window = false) (hh : g'.handling = g.handling)
    (hd : Waited g'.exec) (hf : g'.forks = g.forks) (hm : g'.freezes = g.freezes) : Inv S g' where
  exclusive := by rw [hh]; exact hi.exclusive
  quiet := fun h => by
    rw [hw] at h
    cases h
  waited := hd
  forks := by rw [hf]; exact hi.forks
  freezes := by rw [hm]; exact hi.freezes

theorem beginRequest_sat (hS : ¬S.overlaps) : Safe S t (Launching t false)
    (beginRequest S t) fun _ => During t fun _ => True := by
  refine .atomic ?_
  rintro g _ _ hi hl ⟨hfree, rfl⟩
  have hfree : ∀ u, g.handling u = false := hfree.resolve_left hS
  refine ⟨{ hi with exclusive := fun u v hu hv => ?_, quiet := fun hw => ?_ }, ?_,
    Function.update_self .., hl, trivial⟩
  · have only : ∀ w, (g.setHandling t true).handling w = true → w = t := by
      intro w hw
      by_contra hne
      rw [show (g.setHandling t true).handling w = g.handling w from Function.update_of_ne hne ..,
        hfree w] at hw
      cases hw
    rw [only u hu, only v hv]
  · have hq := hi.quiet hw
    exact { hq with }
  · exact ⟨fun _ _ => rfl, fun _ hu => Function.update_of_ne hu .., fun _ _ => .rfl,
      fun _ => .of_eq rfl rfl rfl rfl⟩

theorem endRequest_sat : Safe S t P (endRequest t) fun _ _ => True := by
  refine .change fun g hi _ =>
    ⟨{ hi with exclusive := fun u v hu hv => ?_, quiet := fun hw => ?_ }, ?_, trivial⟩
  · have before : ∀ w, (g.setHandling t false).handling w = true → g.handling w = true := by
      intro w hw
      change Function.update g.handling t false w = true at hw
      rw [Function.update_apply] at hw
      split at hw
      · cases hw
      · exact hw
    exact hi.exclusive u v (before u hu) (before v hv)
  · have hq := hi.quiet hw
    exact { hq with }
  · exact ⟨fun _ _ => rfl, fun _ hu => Function.update_of_ne hu .., fun _ _ => .rfl,
      fun _ => .of_eq rfl rfl rfl rfl⟩

theorem request_sat (hS : ¬S.overlaps) {body : Prog Guest Unit}
    (hbody : Safe S t (During t fun _ => True) body fun _ _ => True) :
    Safe S t (Launching t false) (request S t body) fun _ _ => True := by
  refine .bind (beginRequest_sat hS) fun _ => ?_
  refine .bind (outcome_sat.safe) fun ready => ?_
  exact .ite (fun _ => .bind hbody fun _ => endRequest_sat) fun _ => endRequest_sat

/-! ## Quiesce -/

/-- The gates of the app and of the plugins. -/
def Gated (g : Guest) : Prop := g.quiescing = true ∧ g.plugins.quiescing = true

/-- All gates are closed, and the sessions drain into the channel. -/
def Drains (ch : Nat) (g : Guest) : Prop := Gated g ∧ g.exec.quiescing = true ∧ Draining ch g.exec

/-- All gates are closed, and the sessions have ended. -/
def Joined (g : Guest) : Prop := Gated g ∧ g.exec.quiescing = true ∧ g.exec.sessions = ∅

theorem Gated.kept (h : Gated g) (hk : GatesKept g g') : Gated g' :=
  ⟨hk.app.trans h.1, hk.plugins.trans h.2⟩

instance Gated.fixed : Fixed Gated := ⟨fun _ _ _ _ => .kept⟩

instance Drains.fixed (ch : Nat) : Fixed (Drains ch) := ⟨fun _ _ _ _ h hk =>
  ⟨h.1.kept hk, hk.exec.trans h.2.1, hk.draining h.2.1 ch h.2.2⟩⟩

instance Joined.fixed : Fixed Joined := ⟨fun _ _ _ _ h hk =>
  ⟨h.1.kept hk, hk.exec.trans h.2.1, Finset.subset_empty.1 (h.2.2 ▸ hk.sessions h.2.1)⟩⟩

theorem beginQuiesce_cases (r : ExecRegistry) : (r.sessions = ∅ ∧ r.beginQuiesce = (r.made, { r with
      quiescing := true
      made := r.made + 1
      closed := Function.update r.closed r.made true })) ∨
    (∃ ch, r.drained = some ch ∧ r.beginQuiesce = (ch, { r with quiescing := true })) ∨
    (r.sessions ≠ ∅ ∧ r.drained = none ∧ r.beginQuiesce = (r.made, { r with
      quiescing := true
      made := r.made + 1
      closed := Function.update r.closed r.made false
      drained := some r.made })) := by
  unfold ExecRegistry.beginQuiesce
  by_cases hempty : r.sessions = ∅
  · exact .inl ⟨hempty, if_pos hempty⟩
  rw [if_neg hempty]
  cases hd : r.drained with
  | some ch => exact .inr (.inl ⟨ch, rfl, rfl⟩)
  | none => exact .inr (.inr ⟨hempty, rfl, rfl⟩)

/-- The channel that `beginQuiesce` returns is closed when the sessions have ended. -/
theorem Waited.draining (h : Waited r) : Draining r.beginQuiesce.1 r.beginQuiesce.2 := by
  obtain ⟨hempty, heq⟩ | ⟨ch, hd, heq⟩ | ⟨-, -, heq⟩ := beginQuiesce_cases r
  · rw [heq]
    refine ⟨fun _ => hempty, fun hc => ?_⟩
    have hself : Function.update r.closed r.made true r.made = true := Function.update_self ..
    exact nomatch hself.symm.trans hc
  · rw [heq]
    refine ⟨fun hc => ?_, fun _ => hd⟩
    rw [(h.drained ch hd).2] at hc
    cases hc
  · rw [heq]
    refine ⟨fun hc => ?_, fun _ => rfl⟩
    have hself : Function.update r.closed r.made false r.made = false := Function.update_self ..
    exact nomatch hself.symm.trans hc

/-- The channels that were made before are as they were. -/
theorem Waited.made (h : Waited r) {b : Bool} {drained : Option Nat}
    (hb : b = false → drained = some r.made ∧ r.sessions ≠ ∅)
    (hd : ∀ ch, drained = some ch → ch = r.made ∧ b = false ∨ r.drained = some ch)
    (hkept : ∀ ch, r.drained = some ch → drained = some ch) :
    Waited { r with
      quiescing := true
      made := r.made + 1
      closed := Function.update r.closed r.made b
      drained := drained } := by
  refine ⟨fun ch hch hopen => ?_, fun ch hch => ?_⟩
  · change Function.update r.closed r.made b ch = false at hopen
    rw [Function.update_apply] at hopen
    split at hopen
    next heq =>
      rw [heq]
      exact hb hopen
    next hne =>
      have hlt : ch < r.made := lt_of_le_of_ne (Nat.le_of_lt_succ hch) hne
      obtain ⟨hd, hs⟩ := h.ends ch hlt hopen
      exact ⟨hkept ch hd, hs⟩
  · show ch < r.made + 1 ∧ Function.update r.closed r.made b ch = false
    rcases hd ch hch with ⟨rfl, hfalse⟩ | hold
    · exact ⟨Nat.lt_succ_self _, by rw [Function.update_self, hfalse]⟩
    · obtain ⟨hlt, hopen⟩ := h.drained ch hold
      exact ⟨Nat.lt_succ_of_lt hlt, by rw [Function.update_of_ne hlt.ne, hopen]⟩

theorem Waited.beginQuiesce (h : Waited r) : Waited r.beginQuiesce.2 := by
  obtain ⟨-, heq⟩ | ⟨ch, -, heq⟩ | ⟨hleft, hnone, heq⟩ := beginQuiesce_cases r
  · rw [heq]
    exact h.made nofun (fun ch hd => .inr hd) fun ch hd => hd
  · rw [heq]
    exact ⟨h.ends, h.drained⟩
  · rw [heq]
    exact h.made (fun _ => ⟨rfl, hleft⟩) (fun ch hch => .inl ⟨(Option.some.inj hch).symm, rfl⟩)
      fun ch hch => nomatch hnone.symm.trans hch

theorem beginQuiesce_gate (r : ExecRegistry) :
    r.beginQuiesce.2.quiescing = true ∧ r.beginQuiesce.2.sessions = r.sessions := by
  obtain ⟨-, heq⟩ | ⟨ch, -, heq⟩ | ⟨-, -, heq⟩ := beginQuiesce_cases r <;> rw [heq] <;>
    exact ⟨rfl, rfl⟩

/-- The gates of a request that closes them. -/
theorem Quiet.of_eq (hq : Quiet S g) (happ : g'.quiescing = true)
    (hplugins : g'.plugins.quiescing = true)
    (hexec : g'.exec.quiescing = true) (hs : g'.exec.sessions = g.exec.sessions)
    (hf : g'.frozen = g.frozen) (hl : g'.launching = g.launching) : Quiet S g' :=
  ⟨happ, hplugins, hexec, hs.trans hq.sessions, hf.trans hq.frozen, by rw [hl]; exact hq.launching⟩

theorem quiesceExecSessions_sat : Safe S t (During t Gated) quiesceExecSessions
    fun joined => During t fun g => joined = true → Joined g := by
  refine .bind (M := fun ch => During t (Drains ch)) (.exec ?_) fun ch => .atomic ?_
  · intro g hi ⟨hh, hl, hgated⟩
    obtain ⟨hclosed, hsessions⟩ := beginQuiesce_gate g.exec
    refine ⟨{ hi with quiet := fun hw => ?_, waited := hi.waited.beginQuiesce },
      guar_request hh rfl rfl hsessions, hh, hl, hgated, hclosed, hi.waited.draining⟩
    exact (hi.quiet hw).of_eq hgated.1 hgated.2 hclosed hsessions rfl rfl
  · rintro g joined _ hi ⟨hh, hl, hd⟩ ⟨hjoined, rfl⟩
    exact ⟨hi, .refl .., hh, hl, fun hj => ⟨hd.1, hd.2.1, hd.2.2.joined (hjoined hj)⟩⟩

theorem pollFrozen_sat : Safe S t (During t Joined) (pollFrozen S)
    fun r g => r = some false → During t Joined g := by
  refine .atomic ?_
  rintro g r g' hi hd (⟨rfl, rfl⟩ | ⟨rfl, -, rfl⟩ | ⟨rfl, hfrozen, hover, rfl⟩)
  · exact ⟨hi, .refl .., nofun⟩
  · exact ⟨hi, .refl .., fun _ => hd⟩
  obtain ⟨hh, -, ⟨happ, hplugins⟩, hexec, hsessions⟩ := hd
  refine ⟨{ hi with quiet := fun _ => ?_, freezes := fun m hm => ?_ }, guar_request hh rfl rfl rfl,
    nofun⟩
  · exact ⟨happ, hplugins, hexec, hsessions, hfrozen, fun ho => hover.resolve_left ho⟩
  · rcases List.mem_cons.1 hm with rfl | hm
    · exact hsessions
    · exact hi.freezes m hm

theorem awaitFrozen_sat (polls : Nat) :
    Safe S t (During t Joined) (awaitFrozen S polls) fun _ _ => True := by
  induction polls with
  | zero => exact .stop
  | succ polls ih =>
    refine .bind pollFrozen_sat fun r => ?_
    match r with
    | none => exact .stop
    | some true => exact .stop
    | some false => exact ih.pre fun _ _ h => h rfl

theorem cgroupFreeze_sat (polls : Nat) :
    Safe S t (During t Joined) (cgroupFreeze S polls) fun _ _ => True := by
  refine .bind outcome_sat.safe fun written => ?_
  refine .ite (fun _ => .bind (.change fun g hi hd => ?_)
    fun _ => awaitFrozen_sat polls) fun _ => .stop
  have hsame : Same g { g with freeze := true } := { same_refl g with }
  exact ⟨hsame.inv hi, (hsame.launches t).toGuar, hd⟩

theorem closeAndFreeze_sat (polls : Nat) : Safe S t (During t fun _ => True)
    (closeAndFreeze S polls) fun _ _ => True := by
  have : Fixed fun g => g.quiescing = true := ⟨fun _ _ _ _ h hk => hk.app.trans h⟩
  refine .bind (M := fun _ => During t fun g => g.quiescing = true)
    (.change fun g hi ⟨hh, hl, _⟩ => ?_) fun _ => ?_
  · refine ⟨{ hi with quiet := fun hw => ?_ }, guar_request hh rfl rfl rfl, hh, hl, rfl⟩
    have hq := hi.quiet hw
    exact hq.of_eq rfl hq.plugins hq.exec rfl rfl rfl
  refine .bind (M := fun _ => During t Gated)
    (.change fun g hi ⟨hh, hl, happ⟩ => ?_) fun _ => ?_
  · refine ⟨{ hi with quiet := fun hw => ?_ }, guar_request hh rfl rfl rfl, hh, hl, happ, rfl⟩
    have hq := hi.quiet hw
    exact hq.of_eq happ rfl hq.exec rfl rfl rfl
  refine .bind quiesceExecSessions_sat fun joined => ?_
  cases joined with
  | false => exact .stop
  | true =>
    refine .bind ((cgroupFreeze_sat polls).pre fun _ _ h => ?_) fun _ => .stop
    exact ⟨h.1, h.2.1, h.2.2 rfl⟩

/-! ## Resume -/

/-- The request has seen the cgroup thawed. -/
def Awake (g : Guest) : Prop := g.window = false

instance Awake.fixed : Fixed Awake := ⟨fun _ _ _ _ h hk => hk.window.trans h⟩

theorem cgroupThaw_sat : Safe S t (During t fun _ => True) cgroupThaw
    fun ok => During t fun g => ok = true → Awake g := by
  refine .atomic ?_
  rintro g ok g' hi ⟨hh, hl, -⟩ (⟨rfl, rfl⟩ | ⟨rfl, rfl⟩)
  · exact ⟨hi, .refl .., hh, hl, nofun⟩
  · exact ⟨hi.awake rfl rfl hi.waited rfl rfl, guar_request hh rfl rfl rfl, hh, hl, fun _ => rfl⟩

theorem thawIfFrozen_sat : Safe S t (During t fun _ => True) thawIfFrozen
    fun ok => During t fun g => ok = true → Awake g := by
  refine .bind (M := fun r => During t fun g => r = some false → Awake g)
    (.atomic ?_) fun r => ?_
  · rintro g r _ hi ⟨hh, hl, -⟩ ⟨hr, rfl⟩
    refine ⟨hi, .refl .., hh, hl, fun hfalse => window_of_gate hi ?_⟩
    rcases hr with rfl | rfl
    · cases hfalse
    · exact .inr (.inr (.inr (Option.some.inj hfalse)))
  · match r with
    | none => exact .pure fun _ _ h => ⟨h.1, h.2.1, nofun⟩
    | some true => exact cgroupThaw_sat.pre fun _ _ h => ⟨h.1, h.2.1, trivial⟩
    | some false => exact .pure fun _ _ h => ⟨h.1, h.2.1, fun _ => h.2.2 rfl⟩

structure Moved (g g' : Guest) : Prop where
  launching : g'.launching = g.launching
  handling : g'.handling = g.handling
  window : g'.window = g.window
  forks : g'.forks = g.forks
  freezes : g'.freezes = g.freezes
  sessions : g'.exec.sessions = g.exec.sessions
  drained : g'.exec.drained = g.exec.drained
  made : g'.exec.made = g.exec.made
  closed : g'.exec.closed = g.exec.closed

/-- A request moves the gates of a guest that is awake. -/
theorem Moved.awake (h : Moved g g') (hi : Inv S g) (hd : During t Awake g) :
    Inv S g' ∧ Guar t g g' ∧ During t Awake g' := by
  obtain ⟨hh, hl, hw⟩ := hd
  have hwaited := hi.waited.of_eq h.sessions h.drained h.made h.closed
  exact ⟨hi.awake (h.window.trans hw) h.handling hwaited h.forks h.freezes,
    guar_request hh h.launching h.handling h.sessions, by rw [h.handling]; exact hh,
    by rw [h.launching]; exact hl, h.window.trans hw⟩

/-- The deferred launches of a resume leave the request and the window as they are. -/
theorem endQuiesce_sat : Safe S t (During t Awake) (endQuiesce t) fun _ => During t Awake := by
  refine .bind (M := fun _ => During t Awake) (.exec fun g hi hd =>
    Moved.awake ⟨rfl, rfl, rfl, rfl, rfl, rfl, rfl, rfl, rfl⟩ hi hd) fun pending => ?_
  have : Firm (Inv S) (Rely t) fun g => g.handling t = true ∧ Awake g :=
    ⟨fun _ _ _ _ h hr => ⟨hr.handling.trans h.1, (hr.gates h.1).window.trans h.2⟩⟩
  have hframe :=
    (launchAll_sat (S := S) pending).frame (F := fun g => g.handling t = true ∧ Awake g)
    fun _ _ _ hg h => ⟨hg.request.trans h.1, hg.kept.window.trans h.2⟩
  exact ((Launcher.safe hframe).pre fun _ _ h => ⟨h.2.1, h.1, h.2.2⟩).post fun _ _ _ h =>
    ⟨h.2.1, h.1, h.2.2⟩

theorem resumeAfterThaw_sat {thaw : Prog Guest Bool} (hthaw : Safe S t (During t fun _ => True) thaw
      fun ok => During t fun g => ok = true → Awake g) :
    Safe S t (During t fun _ => True) (resumeAfterThaw t thaw) fun _ _ => True := by
  refine .bind hthaw fun ok => ?_
  cases ok with
  | false => exact .stop
  | true =>
    refine .bind (M := fun _ => During t Awake) (.change fun g hi hd =>
      Moved.awake ⟨rfl, rfl, rfl, rfl, rfl, rfl, rfl, rfl, rfl⟩ hi ⟨hd.1, hd.2.1, hd.2.2 rfl⟩)
        fun _ => ?_
    refine .bind endQuiesce_sat fun _ => ?_
    refine .post (.change (Q := fun _ => During t Awake) fun g hi hd =>
      Moved.awake ⟨rfl, rfl, rfl, rfl, rfl, rfl, rfl, rfl, rfl⟩ hi hd) fun _ _ _ _ => trivial

/-! ## The supervisor -/

theorem goroutine_sat (hS : ¬S.overlaps) (fuel : Goroutine → Nat) (t : Goroutine) :
    Safe S t (Launching t false) (goroutine S fuel t) fun _ _ => True := by
  cases t with
  | restart n => exact (restartApp_sat _).safe
  | start => exact ((start_sat _).safe).post fun _ _ _ _ => trivial
  | relaunch p n => exact ((launch_sat p).safe).post fun _ _ _ _ => trivial
  | exec c => exact (runExecSession_sat c).pre fun _ _ _ => trivial
  | quiesce n => exact request_sat hS (closeAndFreeze_sat _)
  | restore n => exact request_sat hS (resumeAfterThaw_sat cgroupThaw_sat)
  | attach n => exact request_sat hS (resumeAfterThaw_sat thawIfFrozen_sat)

theorem inv_launched (S : Setting) : Inv S launched where
  exclusive := nofun
  quiet := nofun
  waited := ⟨nofun, nofun⟩
  forks := nofun
  freezes := nofun

/-- Every interleaving in which requests are handled one at a time: every freeze
that is confirmed finds no admitted exec session left, no exec child is forked in
the window between a confirmed freeze and the next thaw, and neither is an app or
a plugin, if no freeze is confirmed while a launch is between its gate and its
fork. -/
theorem quiesced_forks_nothing (hS : ¬S.overlaps) {fuel : Goroutine → Nat}
    {c : Pool Guest Goroutine}
    (h : Pool.Reach Outside (supervisor S fuel) c) : (∀ m ∈ c.shared.freezes, m = ∅) ∧
    (∀ f ∈ c.shared.forks, f.quiesced = true → S.overtakes ∧ ∀ s, f.child ≠ .exec s) := by
  obtain ⟨hi, -⟩ := h.covered (sound S) (inv_launched S) fun t =>
    ⟨Launching t false, rfl, (Launching.firm false).stable, goroutine_sat hS fuel t⟩
  refine ⟨hi.freezes, fun f hf hq => ⟨?_, fun s hs => ?_⟩⟩
  · by_contra ho
    exact nomatch (hi.forks f hf (.inr ho)).symm.trans hq
  · exact nomatch (hi.forks f hf (.inl ⟨s, hs⟩)).symm.trans hq

/-- No plugins; a freeze may overtake a launch. -/
def overtaken : Setting := ⟨[], True, False⟩

/-- No plugins; requests and launches keep out of each other's way. -/
def orderly : Setting := ⟨[], False, False⟩

/-- The kernel has frozen the cgroup. -/
def settled (g : Guest) : Guest := { g with frozen := true }

/-- The app has exited. Its restart finds the gate open; a quiesce closes the gates,
freezes and is confirmed; then the restart forks. -/
theorem restart_after_freeze :
    (goroutine overtaken (fun _ => 1) (.restart 0)).after 2 launched fun p g =>
    (goroutine overtaken (fun _ => 1) (.quiesce 0)).after 8 g fun q g => g.freeze = true ∧
      q.after 1 (settled g) fun _ g => p.after 4 g fun _ g => g.forks = [⟨.app, true⟩] := by
  -- `shutdown` and `quiescing` are not set
  refine ⟨false, _, ⟨rfl, rfl⟩, ?_⟩
  refine ⟨true, _, rfl, ?_⟩
  -- the quiesce up to `cgroup.freeze`
  refine ⟨(), _, ⟨.inr fun _ => rfl, rfl⟩, ?_⟩
  refine ⟨true, _, ⟨trivial, rfl⟩, ?_⟩
  refine ⟨(), _, rfl, ?_⟩
  refine ⟨(), _, rfl, ?_⟩
  refine ⟨0, _, rfl, ?_⟩
  refine ⟨true, _, ⟨fun _ => rfl, rfl⟩, ?_⟩
  refine ⟨true, _, ⟨trivial, rfl⟩, ?_⟩
  refine ⟨(), _, rfl, rfl, ?_⟩
  -- the poll
  refine ⟨some true, _, .inr (.inr ⟨rfl, rfl, .inl trivial, rfl⟩), ?_⟩
  -- `rewireApp`, the second look at `shutdown`, and the fork
  refine ⟨true, _, ⟨trivial, rfl⟩, ?_⟩
  refine ⟨false, _, ⟨rfl, rfl⟩, ?_⟩
  refine ⟨true, _, ⟨trivial, rfl⟩, ?_⟩
  refine ⟨0, _, rfl, ?_⟩
  rfl

/-- The app is forked into the frozen cgroup, between the freeze and the thaw. -/
theorem app_forked_while_quiesced : ∃ c, Pool.Reach Outside (supervisor overtaken fun _ => 1) c ∧
    c.shared.forks = [⟨.app, true⟩] := by
  have start : Pool.Reach Outside (supervisor overtaken fun _ => 1)
      (supervisor overtaken fun _ => 1) := .refl
  obtain ⟨_, _, hpassed, h⟩ := start.after (t := .restart 0) restart_after_freeze
  obtain ⟨_, _, hwritten, hfreeze, h⟩ := hpassed.after (t := .quiesce 0) h
  have hsettled := hwritten.step (.env (.freezes hfreeze))
  obtain ⟨_, _, hconfirmed, h⟩ := hsettled.after (t := .quiesce 0) h
  obtain ⟨_, _, hforked, hforks⟩ := hconfirmed.after (t := .restart 0) h
  exact ⟨_, hforked, hforks⟩

/-- A session is admitted and ends, the guest is quiesced and attached again, and
then the app restarts. -/
theorem restart_after_attach :
    (goroutine orderly (fun _ => 1) (.exec 0)).after 3 launched fun _ g =>
    (goroutine orderly (fun _ => 1) (.quiesce 0)).after 8 g fun q g => g.freeze = true ∧
      q.after 2 (settled g) fun _ g => (goroutine orderly (fun _ => 1) (.attach 0)).after 8 g
        fun _ g => (goroutine orderly (fun _ => 1) (.restart 0)).after 6 g fun _ g =>
          g.forks = [⟨.app, false⟩] ∧ g.freezes = [∅] := by
  -- the session; its stdio cannot be set up
  refine ⟨true, _, rfl, ?_⟩
  refine ⟨false, _, ⟨trivial, rfl⟩, ?_⟩
  refine ⟨(), _, rfl, ?_⟩
  -- the quiesce
  refine ⟨(), _, ⟨.inr fun _ => rfl, rfl⟩, ?_⟩
  refine ⟨true, _, ⟨trivial, rfl⟩, ?_⟩
  refine ⟨(), _, rfl, ?_⟩
  refine ⟨(), _, rfl, ?_⟩
  refine ⟨0, _, rfl, ?_⟩
  refine ⟨true, _, ⟨fun _ => rfl, rfl⟩, ?_⟩
  refine ⟨true, _, ⟨trivial, rfl⟩, ?_⟩
  refine ⟨(), _, rfl, rfl, ?_⟩
  refine ⟨some true, _, .inr (.inr ⟨rfl, rfl, .inr fun _ => rfl, rfl⟩), ?_⟩
  refine ⟨(), _, rfl, ?_⟩
  -- the attach thaws and reopens the gates
  refine ⟨(), _, ⟨.inr fun u => ?_, rfl⟩, ?_⟩
  · cases u with
    | quiesce n => cases n <;> rfl
    | _ => rfl
  refine ⟨true, _, ⟨trivial, rfl⟩, ?_⟩
  refine ⟨some true, _, ⟨.inr rfl, rfl⟩, ?_⟩
  refine ⟨true, _, .inr ⟨rfl, rfl⟩, ?_⟩
  refine ⟨(), _, rfl, ?_⟩
  refine ⟨[], _, rfl, ?_⟩
  refine ⟨(), _, rfl, ?_⟩
  refine ⟨(), _, rfl, ?_⟩
  -- the restart
  refine ⟨false, _, ⟨rfl, rfl⟩, ?_⟩
  refine ⟨true, _, rfl, ?_⟩
  refine ⟨true, _, ⟨trivial, rfl⟩, ?_⟩
  refine ⟨false, _, ⟨rfl, rfl⟩, ?_⟩
  refine ⟨true, _, ⟨trivial, rfl⟩, ?_⟩
  refine ⟨0, _, rfl, ?_⟩
  exact ⟨rfl, rfl⟩

theorem quiesced_forks_nothing_attach : ∃ c, Pool.Reach Outside (supervisor orderly fun _ => 1) c ∧
    c.shared.forks = [⟨.app, false⟩] ∧ c.shared.freezes = [∅] ∧ (∀ m ∈ c.shared.freezes, m = ∅) ∧
    (∀ f ∈ c.shared.forks, f.quiesced = true → orderly.overtakes ∧ ∀ s, f.child ≠ .exec s) := by
  have start : Pool.Reach Outside (supervisor orderly fun _ => 1) (supervisor orderly fun _ => 1) :=
    .refl
  obtain ⟨_, _, hended, h⟩ := start.after (t := .exec 0) restart_after_attach
  obtain ⟨_, _, hwritten, hfreeze, h⟩ := hended.after (t := .quiesce 0) h
  have hsettled := hwritten.step (.env (.freezes hfreeze))
  obtain ⟨_, _, hquiesced, h⟩ := hsettled.after (t := .quiesce 0) h
  obtain ⟨_, _, hattached, h⟩ := hquiesced.after (t := .attach 0) h
  obtain ⟨_, _, hforked, hforks, hfreezes⟩ := hattached.after (t := .restart 0) h
  exact ⟨_, hforked, hforks, hfreezes, quiesced_forks_nothing id hforked⟩

end Sandboxer.Init
