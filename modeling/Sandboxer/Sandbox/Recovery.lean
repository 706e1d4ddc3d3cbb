import Sandboxer.Sandbox.Capture

/-! # A capture never strands the sandbox

The deferred calls of a capture leave the sandbox running with an attached
guest and open gates, or its VMM is being terminated behind closed gates, or the
capture has succeeded in destroy mode and the response carries the teardown.
There are two exceptions: a destroy that is cancelled after the commit, and a
VMM that cannot be reached when the guest cannot be attached. The backends are
resumed exactly once after they were quiesced, and before Cloud Hypervisor is. -/
namespace Sandboxer.Sandbox.Capture

open Lib.Defers
open Lib.Defers.Proc (Triple)

/-! ## Outcomes -/

/-- All that `Take` does before the resume succeeds. -/
structure Commits (o : Outcomes) : Prop where
  pause : o.pause = .ok
  step : ∀ step, step ≠ .diskCheckAtEnd → o.step step = none

variable (s : Setup) (o : Outcomes)

/-- `Take` succeeds. -/
structure Captures : Prop where
  commits : Commits o
  resume : s.resumeAfter = true → o.resume = .ok
  diskCheckAtEnd : o.step .diskCheckAtEnd = none

/-- The VM runs again before the deferred resume of `Take`. -/
def Resumes : Prop := Commits o ∧ s.resumeAfter = true ∧ o.resume ≠ .failed

/-- The VM runs when `Take` has failed: it was never paused, or a resume has taken effect. -/
def Thaws : Prop :=
  (o.step .sources ≠ none ∨ o.step .context ≠ none ∨ o.step .waitReady ≠ none) ∨ o.pause = .failed ∨
    o.pause = .ok ∧ (o.resumeDeferred ≠ .failed ∨ Resumes s o)

/-- A guest that runs is attached again. -/
def Reattaches : Prop := s.reattach = true ∧ o.attach = true

/-- The attempts to end the VMM reach it: the request or a signal is taken, or it exits. -/
def Reaches (d : Teardown) : Prop :=
  d.shutdownVMM ≠ .failed ∨ (s.chProcess = true ∧ d.sigterm = none) ∨
    (s.chExited = true ∧ (d.exitsInGrace = true ∨
      (s.chProcess = true ∧ (d.sigkill = none ∨ d.exitsAfterKill = true))))

/-- A failed recovery ends the VMM: there is a handle on it, and it is reached. -/
def Terminates : Prop := (s.chProcess = true ∨ s.chExited = true) ∧ Reaches s o.recovery

/-- The checks pass and the gates are closed, so that the guest is told to quiesce. -/
structure Quiesces : Prop where
  preflight : preflight s o = none
  beginSnapshot : o.beginSnapshot = none
  liftMemoryHigh : o.liftMemoryHigh = none
  drain : o.drain = none
  pausePinger : s.pinger = true → o.pausePinger = none

/-- What keeps a quiesced sandbox from being stranded. After a capture the guest is attached or the
VMM ends, and a destroy is not cancelled; after a failure a VM that runs is attached or the VMM
ends. -/
structure Settles : Prop where
  captured : o.quiesce = none → Captures s o →
    if s.resumeAfter then Reattaches s o ∨ Terminates s o else o.cause = none
  failed : ¬(o.quiesce = none ∧ Captures s o) →
    Reattaches s o ∧ (o.quiesce ≠ none ∨ Thaws s o) ∨ Terminates s o

/-! ## Steps -/

section Steps

variable {P : State → Prop} {α : Type}

theorem attempt_spec (outcome : Option String) (text : String → String) :
    Triple P (attempt outcome text) (fun _ w => P w ∧ outcome = none) fun _ w => P w ∧
      outcome ≠ none := by
  cases outcome with
  | none => exact .pure fun _ hw => ⟨hw, rfl⟩
  | some e => exact .fail fun _ hw => ⟨hw, nofun⟩

/-- A deferred close that is not called leaves a success. -/
theorem joining_ok {Q : α → State → Prop} {E : Failure → State → Prop} {called : State → Bool}
    {outcome : Option String} {a : α} (h : ∀ w, P w → called w = false ∧ Q a w) :
    Triple P (joining called outcome (.ok a)) Q E := by
  intro w hw
  obtain ⟨hcalled, hq⟩ := h w hw
  unfold joining
  rw [hcalled]
  exact hq

theorem joining_error {Q : α → State → Prop} {E : State → Prop} {called : State → Bool}
    {outcome : Option String} {e : Failure} (h : ∀ w, P w → E w) :
    Triple P (joining called outcome (.error e)) Q fun _ => E := by
  intro w hw
  have he := h w hw
  unfold joining joinError
  cases called w <;> cases outcome <;> exact he

/-- A step in a known state. -/
theorem attempt_bind {w : State} {outcome : Option String} {text : String → String}
    {x : Unit → Code α} {Q : α → State → Prop} {E : State → Prop} (hfail : outcome ≠ none → E w)
    (hx : outcome = none → Triple (· = w) (x ()) Q fun _ => E) :
    Triple (· = w) (attempt outcome text >>= x) Q fun _ => E := by
  rintro _ rfl
  cases outcome with
  | none => exact hx rfl _ rfl
  | some e => exact hfail nofun

theorem modify_bind {w : State} {f : State → State} {x : Unit → Code α} {Q : α → State → Prop}
    {E : State → Prop} (hx : Triple (· = f w) (x ()) Q fun _ => E) :
    Triple (· = w) (Proc.modify f >>= x) Q fun _ => E := by
  rintro _ rfl
  exact hx _ rfl

/-- A deferred call leaves the result. -/
theorem afterwards_keeps {Q : State → Prop} {x : Code Unit} {r : Except Failure α}
    {Q' : α → State → Prop} {E' : State → Prop} (hx : Triple P x (fun _ => Q) fun _ => Q)
    (hr : ∀ w, Q w → match r with | .ok a => Q' a w | .error _ => E' w) :
    Triple P (afterwards x r) Q' fun _ => E' := by
  intro w hw
  have hx := hx w hw
  have hq : Q (x w).2 := by
    revert hx
    cases x w with
    | mk r' w' => cases r' <;> exact id
  have hr := hr _ hq
  cases r with
  | ok a => exact hr
  | error e => exact hr

end Steps

/-! ## The backends -/

def quiesced : List Event := (List.range s.servers).map .quiesce

def resumedAll : List Event := (List.range s.servers).reverse.map .resume

/-- The backends were quiesced once and resumed once, and Cloud Hypervisor only after that. -/
def Thawed (events : List Event) : Prop :=
  ∃ n, events = quiesced s ++ resumedAll s ++ List.replicate n .chResume

/-- Every quiesce is followed by one resume, before Cloud Hypervisor is resumed. -/
def Balanced (events : List Event) : Prop := events = [] ∨ Thawed s events

theorem Thawed.chResume {s : Setup} {events : List Event} (h : Thawed s events) :
    Thawed s (events ++ [.chResume]) := by
  obtain ⟨n, rfl⟩ := h
  exact ⟨n + 1, by rw [List.append_assoc, ← List.replicate_succ']⟩

/-! ## `Take` -/

variable (w₀ w : State)

/-- What `Take` does not touch. -/
structure Kept : Prop where
  shutdown : w.shutdown = w₀.shutdown
  quiesceSent : w.quiesceSent = w₀.quiesceSent
  attached : w.attached = w₀.attached
  forwarderPaused : w.forwarderPaused = w₀.forwarderPaused
  pingerPaused : w.pingerPaused = w₀.pingerPaused
  guestRecoveryRequired : w.guestRecoveryRequired = w₀.guestRecoveryRequired
  recoveryTerminated : w.recoveryTerminated = w₀.recoveryTerminated

theorem Kept.refl (w : State) : Kept w w := ⟨rfl, rfl, rfl, rfl, rfl, rfl, rfl⟩

/-- The capture before the resume. -/
structure Frozen : Prop where
  kept : Kept w₀ w
  vm : w.vm = .paused
  events : w.events = quiesced s
  backendsResumed : w.backendsResumed = false
  resumed : w.resumed = false
  succeeded : w.succeeded = false

structure Done : Prop where
  kept : Kept w₀ w
  captures : Captures s o
  vm : w.vm = if s.resumeAfter then .running else .paused
  events : if s.resumeAfter then Thawed s w.events else w.events = quiesced s
  backendsResumed : w.backendsResumed = s.resumeAfter
  resumed : w.resumed = s.resumeAfter
  succeeded : w.succeeded = true
  memoryBaseOpen : w.memoryBaseOpen = false
  sinkOpen : w.sinkOpen = false
  retain : w.retain = true

/-- `Take` fails. The backends are resumed, or will be by the deferred call. -/
structure Undone : Prop where
  kept : Kept w₀ w
  fails : ¬Captures s o
  vm : w.vm = .running ↔ Resumes s o
  resumed : w.resumed = true → Resumes s o
  succeeded : w.succeeded = false
  events : if w.backendsResumed then Thawed s w.events else w.events = quiesced s

section Take

variable {s : Setup} {o : Outcomes} {w₀ : State} {w : State}

/-- A step before the resume fails. -/
theorem Frozen.undone {step : CaptureStep} (h : Frozen s w₀ w) (hstep : step ≠ .diskCheckAtEnd)
    (hfail : o.step step ≠ none) : Undone s o w₀ w where
  kept := h.kept
  fails hc := hfail (hc.commits.step step hstep)
  vm := iff_of_false (by rw [h.vm]; nofun) fun hr => hfail (hr.1.step step hstep)
  resumed hr := by rw [h.resumed] at hr; cases hr
  succeeded := h.succeeded
  events := by rw [h.backendsResumed]; exact h.events

/-- A request to resume goes to Cloud Hypervisor, whatever comes of it. -/
theorem chResume_spec (reply : Reply) : Triple (· = w) (chResume reply)
      (fun _ w' => w' = { w with vm := .running, events := w.events ++ [.chResume] } ∧ reply = .ok)
      fun _ w' => ∃ vm, w' = { w with vm, events := w.events ++ [.chResume] } ∧ reply ≠ .ok ∧
        (vm = .running ↔ reply ≠ .failed ∨ w.vm = .running) := by
  rintro _ rfl
  cases reply with
  | ok => exact ⟨rfl, rfl⟩
  | lost => exact ⟨.running, rfl, nofun, iff_of_true rfl (.inl nofun)⟩
  | failed => exact ⟨_, rfl, nofun, (or_iff_right fun h => h rfl).symm⟩

/-- What the resume at the end of a capture changes. -/
def afterResume (s : Setup) (w : State) : State := { w with
  vm := if s.resumeAfter then .running else w.vm
  events := if s.resumeAfter then w.events ++ resumedAll s ++ [.chResume] else w.events
  backendsResumed := s.resumeAfter || w.backendsResumed
  resumed := s.resumeAfter || w.resumed }

theorem resumeAfterCapture_spec (hw : Frozen s w₀ w) (hc : Commits o) :
    Triple (· = w) (resumeAfterCapture s o)
      (fun _ w' => w' = afterResume s w ∧ (s.resumeAfter = true → o.resume = .ok)) fun _ => Undone s
        o w₀ := by
  unfold resumeAfterCapture afterResume
  cases hresume : s.resumeAfter with
  | true =>
    refine modify_bind (modify_bind (.bind ((chResume_spec o.resume).onError ?_) fun _ => ?_))
    · rintro _ _ ⟨vm, rfl, hreply, hvm⟩
      refine ⟨{ hw.kept with }, fun h => hreply (h.resume hresume), ?_, fun hr => ?_, hw.succeeded,
        ?_⟩
      · refine hvm.trans ⟨fun h => ⟨hc, hresume, h.resolve_right ?_⟩, fun h => .inl h.2.2⟩
        rw [hw.vm]
        nofun
      · rw [hw.resumed] at hr
        cases hr
      · exact ⟨1, by rw [hw.events]; rfl⟩
    · rintro _ ⟨rfl, hreply⟩
      exact ⟨rfl, fun _ => hreply⟩
  | false =>
    refine .pure ?_
    rintro _ rfl
    exact ⟨rfl, nofun⟩

theorem afterResume_events (hw : Frozen s w₀ w) :
    if s.resumeAfter then Thawed s (afterResume s w).events
    else (afterResume s w).events = quiesced s := by
  unfold afterResume
  split
  · exact ⟨1, by rw [hw.events]; rfl⟩
  · exact hw.events

theorem afterResume_vm (hw : Frozen s w₀ w) :
    (afterResume s w).vm = if s.resumeAfter then .running else .paused := by
  rw [← hw.vm]
  rfl

theorem afterResume_resumed (hw : Frozen s w₀ w) : (afterResume s w).resumed = s.resumeAfter ∧
    (afterResume s w).backendsResumed = s.resumeAfter := by
  simp [afterResume, hw.resumed, hw.backendsResumed]

/-- The last check fails. -/
theorem Frozen.undone_atEnd (hw : Frozen s w₀ w) (hc : Commits o)
    (hresume : s.resumeAfter = true → o.resume = .ok)
    (hfail : o.step .diskCheckAtEnd ≠ none) : Undone s o w₀ (afterResume s w) := by
  have hruns : s.resumeAfter = true ↔ Resumes s o :=
    ⟨fun h => ⟨hc, h, by rw [hresume h]; nofun⟩, fun h => h.2.1⟩
  obtain ⟨hresumed, hbackends⟩ := afterResume_resumed hw
  refine ⟨{ hw.kept with }, fun h => hfail h.diskCheckAtEnd, ?_, fun hr => ?_, hw.succeeded, ?_⟩
  · rw [afterResume_vm hw, ← hruns]
    cases s.resumeAfter <;> decide
  · exact hruns.1 (hresumed.symm.trans hr)
  · rw [hbackends]
    exact afterResume_events hw

/-- A step of a frozen capture. -/
theorem Frozen.step_bind {x : Unit → Code Unit} {Q : Unit → State → Prop} (step : CaptureStep)
    (hw : Frozen s w₀ w) (hstep : step ≠ .diskCheckAtEnd)
    (hx : o.step step = none → Triple (· = w) (x ()) Q fun _ => Undone s o w₀) :
    Triple (· = w) (captureStep o step >>= x) Q fun _ => Undone s o w₀ :=
  attempt_bind (hw.undone hstep) hx

/-- A change of the closes that are deferred. -/
theorem Frozen.set (hw : Frozen s w₀ w) (memoryBaseOpen sinkOpen retain : Bool) :
    Frozen s w₀ { w with memoryBaseOpen, sinkOpen, retain } := { hw with kept := { hw.kept with } }

/-- The steps of `Take` before its memory is merged. -/
def early : List CaptureStep :=
  [.sources, .context, .waitReady, .diskCheck, .captureSandbox, .chSnapshot, .readConfig,
    .readState, .buildConfig, .memory]

theorem captureMemoryAndCommit_spec (hw : Frozen s w₀ w) (hpause : o.pause = .ok)
    (hearly : ∀ step ∈ early, o.step step = none) :
    Triple (· = w) (captureMemoryAndCommit s o) (fun _ => Done s o w₀) fun _ => Undone s o w₀ := by
  refine hw.step_bind .mergeBase nofun fun hmerge => modify_bind ?_
  replace hw := hw.set s.mergesMemory w.sinkOpen w.retain
  refine hw.step_bind .buildSource nofun fun hsource => modify_bind ?_
  replace hw := hw.set false w.sinkOpen w.retain
  refine hw.step_bind .absorb nofun fun habsorb => ?_
  refine hw.step_bind .diskCheckBeforeCommit nofun fun hcheck => modify_bind ?_
  replace hw := hw.set false w.sinkOpen true
  refine hw.step_bind .commit nofun fun hcommit => ?_
  refine hw.step_bind .committedRefs nofun fun hrefs => modify_bind ?_
  replace hw := hw.set false false true
  refine hw.step_bind .closeSink nofun fun hclose => ?_
  have hc : Commits o := ⟨hpause, fun step hstep => by
    cases step <;> first | assumption | exact absurd rfl hstep | exact hearly _ (by decide)⟩
  refine (resumeAfterCapture_spec hw hc).bind fun _ => ?_
  rintro _ ⟨rfl, hresume⟩
  refine attempt_bind (hw.undone_atEnd hc hresume) (fun hlast => .modify ?_) _ rfl
  rintro _ rfl
  obtain ⟨hresumed, hbackends⟩ := afterResume_resumed hw
  exact ⟨{ hw.kept with }, ⟨hc, hresume, hlast⟩, afterResume_vm hw, afterResume_events hw,
    hbackends, hresumed, rfl, rfl, rfl, rfl⟩

theorem captureAtFreeze_spec (hkept : Kept w₀ w) (hvm : w.vm = .paused) (hevents : w.events = [])
    (hflags : w.backendsResumed = false ∧ w.resumed = false ∧ w.succeeded = false)
    (hpause : o.pause = .ok)
    (hfirst : ∀ step ∈ [CaptureStep.sources, .context, .waitReady], o.step step = none) :
    Triple (· = w) (captureAtFreeze s o) (fun _ => Done s o w₀) fun _ => Undone s o w₀ := by
  refine modify_bind ?_
  have hw : Frozen s w₀ { w with events := w.events ++ (List.range s.servers).map .quiesce } :=
    ⟨{ hkept with }, hvm, congrArg (· ++ quiesced s) hevents, hflags.1, hflags.2.1, hflags.2.2⟩
  refine hw.step_bind .diskCheck nofun fun hdisk =>
    hw.step_bind .captureSandbox nofun fun hsandbox => ?_
  refine hw.step_bind .chSnapshot nofun fun hsnapshot =>
    hw.step_bind .readConfig nofun fun hconfig => ?_
  refine hw.step_bind .readState nofun fun hstate => hw.step_bind .buildConfig nofun fun hbuild =>
    ?_
  refine hw.step_bind .memory nofun fun hmemory => ?_
  have hearly : ∀ step ∈ early, o.step step = none := by
    intro step hstep
    simp only [early, List.mem_cons, List.not_mem_nil, or_false] at hstep
    rcases hstep with rfl | rfl | rfl | rfl | rfl | rfl | rfl | rfl | rfl | rfl <;>
      first | assumption | exact hfirst _ (by decide)
  refine (captureMemoryAndCommit_spec hw hpause hearly).deferred (fun _ => ?_) fun _ => ?_
  · exact joining_ok fun _ h => ⟨h.memoryBaseOpen, h⟩
  · exact joining_error fun _ => id

/-- What the deferred resume of the backends leaves. -/
structure Released (s : Setup) (w₀ w : State) : Prop where
  kept : Kept w₀ w
  events : Thawed s w.events

theorem deferredResumeBackends_spec {X : State → Prop}
    (hX : ∀ w events, X w → X { w with events }) :
    Triple (fun
      w => (Kept w₀ w ∧ if w.backendsResumed then Thawed s w.events else w.events = quiesced s) ∧
        X w) (deferredResumeBackends s) (fun _ w => Released s w₀ w ∧ X w)
      fun _ w => Released s w₀ w ∧ X w := by
  refine .get fun w ⟨⟨hkept, hevents⟩, hx⟩ => .ite (fun hresumed => ?_) fun hresumed => ?_
  · refine .pure ?_
    rintro _ rfl
    rw [if_pos hresumed] at hevents
    exact ⟨⟨hkept, hevents⟩, hx⟩
  · refine .modify ?_
    rintro _ rfl
    rw [if_neg hresumed] at hevents
    refine ⟨⟨{ hkept with }, 0, ?_⟩, hX _ _ hx⟩
    rw [List.replicate_zero, List.append_nil]
    exact congrArg (· ++ resumedAll s) hevents

/-- A failed capture before the deferred resume. -/
structure Failing (s : Setup) (o : Outcomes) (w : State) : Prop where
  fails : ¬Captures s o
  vm : w.vm = .running ↔ Resumes s o
  resumed : w.resumed = true → Resumes s o
  succeeded : w.succeeded = false

/-- A failed capture after it. -/
structure Failed (s : Setup) (o : Outcomes) (w : State) : Prop where
  fails : ¬Captures s o
  vm : w.vm = .running ↔ o.resumeDeferred ≠ .failed ∨ Resumes s o

theorem deferredResumeCH_spec :
    Triple (fun w => Released s w₀ w ∧ Failing s o w) (deferredResumeCH s o)
      (fun _ w => Released s w₀ w ∧ Failed s o w) fun _ w => Released s w₀ w ∧ Failed s o w := by
  refine .get fun w h => ?_
  obtain ⟨hw, hf⟩ := h
  refine .ite (fun _ => ?_) fun hno => ?_
  · refine (chResume_spec o.resumeDeferred).conseq (fun _ => id) ?_ ?_
    · rintro _ _ ⟨rfl, hreply⟩
      exact ⟨⟨{ hw.kept with }, hw.events.chResume⟩, hf.fails,
        iff_of_true rfl (.inl (by rw [hreply]; nofun))⟩
    · rintro _ _ ⟨vm, rfl, -, hvm⟩
      exact ⟨⟨{ hw.kept with }, hw.events.chResume⟩, hf.fails, hvm.trans (or_congr_right hf.vm)⟩
  · have hresumed : w.resumed = true :=
      Bool.of_not_eq_false fun h => hno ⟨h, .inl hf.succeeded⟩
    have hruns := hf.resumed hresumed
    refine .pure ?_
    rintro _ rfl
    exact ⟨hw, hf.fails, iff_of_true (hf.vm.2 hruns) (.inr hruns)⟩

structure Success (s : Setup) (o : Outcomes) (w : State) : Prop where
  captures : Captures s o
  vm : w.vm = if s.resumeAfter then .running else .paused
  resumed : w.resumed = s.resumeAfter
  succeeded : w.succeeded = true
  sinkOpen : w.sinkOpen = false
  retain : w.retain = true

/-- After a success there is nothing for the deferred resume to do. -/
theorem deferredResumeCH_success :
    Triple (fun w => Released s w₀ w ∧ Success s o w) (deferredResumeCH s o)
      (fun _ w => Released s w₀ w ∧ Success s o w) fun _ w => Released s w₀ w ∧ Success s o w := by
  refine .get fun w hw => .ite (fun ⟨hresumed, h⟩ => ?_) fun _ => ?_
  · rw [hw.2.resumed] at hresumed
    rw [hw.2.succeeded, hresumed] at h
    rcases h with h | h <;> cases h
  · refine .pure ?_
    rintro _ rfl
    exact hw

/-- A pause may take effect although it fails. -/
theorem chPause_spec :
    Triple (· = w) (chPause o) (fun _ w' => w' = { w with vm := .paused } ∧ o.pause = .ok)
      fun _ w' => ∃ vm, w' = { w with vm } ∧ o.pause ≠ .ok ∧
        (w.vm = .running → (vm = .running ↔ o.pause = .failed)) := by
  rintro _ rfl
  unfold chPause
  cases hreply : o.pause with
  | ok => exact ⟨rfl, rfl⟩
  | lost => exact ⟨.paused, rfl, nofun, fun _ => iff_of_false nofun nofun⟩
  | failed => exact ⟨_, rfl, nofun, fun h => iff_of_true h rfl⟩

/-- `Take` begins with a sandbox that nobody has touched. -/
structure Untouched (w : State) : Prop where
  events : w.events = []
  backendsResumed : w.backendsResumed = false
  resumed : w.resumed = false
  succeeded : w.succeeded = false

/-- What `Take` leaves in any case. -/
structure Taken (s : Setup) (w₀ w : State) : Prop where
  kept : Kept w₀ w
  balanced : Balanced s w.events

/-- From the pause to the deferred resumes. -/
theorem takePaused_spec (h : Untouched w₀) (hpause : o.pause = .ok)
    (hfirst : ∀ step ∈ [CaptureStep.sources, .context, .waitReady], o.step step = none) :
    Triple (· = { w₀ with vm := .paused })
      (.deferred (afterwards (deferredResumeCH s o)) <|
        .deferred (afterwards (deferredResumeBackends s)) <| captureAtFreeze s o)
      (fun _ w => Taken s w₀ w ∧ Success s o w) fun _ w => Taken s w₀ w ∧ Failed s o w := by
  have hfreeze : Triple (· = { w₀ with vm := .paused }) (captureAtFreeze s o) (fun _ => Done s o w₀)
      fun _ => Undone s o w₀ :=
    captureAtFreeze_spec { Kept.refl w₀ with } rfl h.events
      ⟨h.backendsResumed, h.resumed, h.succeeded⟩ hpause hfirst
  have hsuccess : ∀ w events, Success s o w → Success s o { w with events } :=
    fun _ _ h => ⟨h.captures, h.vm, h.resumed, h.succeeded, h.sinkOpen, h.retain⟩
  have hfailing : ∀ w events, Failing s o w → Failing s o { w with events } :=
    fun _ _ h => ⟨h.fails, h.vm, h.resumed, h.succeeded⟩
  refine .deferred (Q := fun _ w => Released s w₀ w ∧ Success s o w)
    (E := fun _ w => Released s w₀ w ∧ Failing s o w) ?_ (fun _ => ?_) fun _ => ?_
  · refine .deferred hfreeze (fun _ => ?_) fun _ => ?_
    · refine afterwards_keeps
        ((deferredResumeBackends_spec hsuccess).conseq ?_ (fun _ _ => id) fun _ _ => id)
        fun _ => id
      refine fun w hw =>
        ⟨⟨hw.kept, ?_⟩, hw.captures, hw.vm, hw.resumed, hw.succeeded, hw.sinkOpen, hw.retain⟩
      rw [hw.backendsResumed]
      exact hw.events
    · refine afterwards_keeps
        ((deferredResumeBackends_spec hfailing).conseq ?_ (fun _ _ => id) fun _ _ => id)
        fun _ => id
      exact fun w hw => ⟨⟨hw.kept, hw.events⟩, hw.fails, hw.vm, hw.resumed, hw.succeeded⟩
  · exact afterwards_keeps deferredResumeCH_success fun _ h => ⟨⟨h.1.kept, .inr h.1.events⟩, h.2⟩
  · exact afterwards_keeps deferredResumeCH_spec fun _ h => ⟨⟨h.1.kept, .inr h.1.events⟩, h.2⟩

/-- A successful `Take` leaves the VM running or, in destroy mode, paused; after a failure it may
run
or not. -/
theorem take_spec (h : Untouched w₀) (hvm : w₀.vm = .running) : Triple (· = w₀) (take s o)
      (fun _ w => Taken s w₀ w ∧ Success s o w)
      fun _ w => Taken s w₀ w ∧ ¬Captures s o ∧ (w.vm = .running ↔ Thaws s o) := by
  -- an error of a deferred close does not change the state
  have hclose : ∀ {called outcome} {x : Code Unit}, (∀ w, Success s o w → called w = false) →
      Triple (· = w₀) x (fun _ w => Taken s w₀ w ∧ Success s o w)
        (fun _ w => Taken s w₀ w ∧ ¬Captures s o ∧ (w.vm = .running ↔ Thaws s o)) →
      Triple (· = w₀) (.deferred (joining called outcome) x)
        (fun _ w => Taken s w₀ w ∧ Success s o w)
        fun _ w => Taken s w₀ w ∧ ¬Captures s o ∧ (w.vm = .running ↔ Thaws s o) :=
    fun hcalled hx => hx.deferred
      (fun _ => joining_ok fun w h => ⟨hcalled w h.2, h⟩) fun _ => joining_error fun _ => id
  refine hclose (fun w h => by rw [h.retain]; rfl) (hclose (fun w h => h.sinkOpen) ?_)
  have htaken : Taken s w₀ w₀ := ⟨.refl _, .inl h.events⟩
  refine attempt_bind (fun hfail => ?_) fun hsources => ?_
  · exact ⟨htaken, fun hc => hfail (hc.commits.step _ nofun), iff_of_true hvm (.inl (.inl hfail))⟩
  refine attempt_bind (fun hfail => ?_) fun hcontext => ?_
  · exact ⟨htaken, fun hc => hfail (hc.commits.step _ nofun),
      iff_of_true hvm (.inl (.inr (.inl hfail)))⟩
  refine attempt_bind (fun hfail => ?_) fun hready => ?_
  · exact ⟨htaken, fun hc => hfail (hc.commits.step _ nofun),
      iff_of_true hvm (.inl (.inr (.inr hfail)))⟩
  have hthaws : Thaws s o ↔ o.pause = .failed ∨
      o.pause = .ok ∧ (o.resumeDeferred ≠ .failed ∨ Resumes s o) := by
    unfold Thaws
    rw [hsources, hcontext, hready]
    exact or_iff_right (by rintro (h | h | h) <;> exact h rfl)
  refine .bind (chPause_spec.onError ?_) fun _ => ?_
  · rintro _ _ ⟨vm, rfl, hpause, hruns⟩
    refine ⟨⟨{ Kept.refl w₀ with }, .inl h.events⟩, fun hc => hpause hc.commits.pause, ?_⟩
    exact (hruns hvm).trans (hthaws.trans (or_iff_left fun h => hpause h.1)).symm
  rintro w ⟨hw, hpause⟩
  have hfirst : ∀ step ∈ [CaptureStep.sources, .context, .waitReady], o.step step = none := by
    intro step hstep
    simp only [List.mem_cons, List.not_mem_nil, or_false] at hstep
    rcases hstep with rfl | rfl | rfl <;> assumption
  refine (takePaused_spec h hpause hfirst).onError (fun _ w hf => ⟨hf.1, hf.2.fails, ?_⟩) w hw
  rw [hf.2.vm, hthaws, hpause]
  exact ((or_iff_right nofun).trans (and_iff_right rfl)).symm

end Take

/-! ## The handler -/

/-- The gates are closed, and the VMM has not been told to end. -/
structure Closed (w : State) : Prop where
  shutdown : w.shutdown = false
  terminated : w.recoveryTerminated = false
  forwarder : w.forwarderPaused = s.forwarder
  pinger : w.pingerPaused = s.pinger
  balanced : Balanced s w.events

/-- The guest runs and is attached, behind closed gates. -/
structure Recovered (w : State) : Prop extends Closed s w where
  vm : w.vm = .running
  attached : w.attached = true

/-- The VMM was reached and ends, behind closed gates. -/
structure Ended (w : State) : Prop where
  shutdown : w.shutdown = true
  terminated : w.recoveryTerminated = true
  forwarder : w.forwarderPaused = s.forwarder
  pinger : w.pingerPaused = s.pinger
  balanced : Balanced s w.events

/-- The guest may be quiesced, and has to be attached again. -/
structure Quiescing (w : State) : Prop extends Closed s w where
  required : w.guestRecoveryRequired = true
  sent : w.quiesceSent = true
  detached : w.attached = false

/-- The guest is quiesced, and nobody attaches it or ends the VMM. -/
structure Stranded (w : State) : Prop where
  sent : w.quiesceSent = true
  detached : w.attached = false
  shutdown : w.shutdown = false
  balanced : Balanced s w.events

section Handler

variable {s : Setup} {o : Outcomes} {w : State} {R F : Prop}

theorem Quiescing.stranded (h : Quiescing s w) : Stranded s w :=
  ⟨h.sent, h.detached, h.shutdown, h.balanced⟩

theorem reaches_iff (d : Teardown) :
    ((requestShutdown s d).2 || (awaitExit s d).2) = true ↔ Reaches s d := by
  obtain ⟨shutdownVMM, sigterm, sigkill, grace, kill⟩ := d
  unfold requestShutdown awaitExit Reaches
  cases shutdownVMM <;> cases s.chProcess <;> cases s.chExited <;> cases grace <;> simp

/-- The VMM is ended if there is a handle on it and it is reached. -/
theorem terminate_reached : (terminateAfterCaptureRecoveryFailure s o.recovery).2 = (true, true) ∧
      Terminates s o ∨
    (terminateAfterCaptureRecoveryFailure s o.recovery).2.1 = false ∧ ¬Terminates s o := by
  unfold terminateAfterCaptureRecoveryFailure Terminates
  split
  next hno =>
    refine .inr ⟨rfl, fun h => ?_⟩
    rw [hno.1, hno.2] at h
    rcases h.1 with h | h <;> cases h
  next hhandle =>
    have hsome : s.chProcess = true ∨ s.chExited = true := by
      rcases hp : s.chProcess with _ | _
      · exact .inr (Bool.of_not_eq_false fun h => hhandle ⟨hp, h⟩)
      · exact .inl rfl
    rw [← reaches_iff, and_iff_right hsome]
    cases (requestShutdown s o.recovery).2 || (awaitExit s o.recovery).2
    · exact .inr ⟨rfl, nofun⟩
    · exact .inl ⟨rfl, rfl⟩

/-- A failed recovery ends the VMM, or leaves the sandbox stranded. -/
theorem failRecovery_spec (e : Failure) :
    Triple (Quiescing s) (failRecovery s o e) (fun _ _ => False)
      fun _ w => Ended s w ∧ Terminates s o ∨ Stranded s w ∧ ¬Terminates s o := by
  have hreached := terminate_reached (s := s) (o := o)
  unfold failRecovery
  generalize terminateAfterCaptureRecoveryFailure s o.recovery = r at hreached
  obtain ⟨errs, reached, terminal⟩ := r
  refine .bind (.modify fun w hw => ?_) fun _ => .fail fun _ => id
  rcases hreached with ⟨heq, ht⟩ | ⟨heq, ht⟩ <;> cases heq
  · exact .inl ⟨{ hw with shutdown := Bool.or_true _, terminated := rfl }, ht⟩
  · exact .inr ⟨{ hw with shutdown := (Bool.or_false _).trans hw.shutdown }, ht⟩

/-- A guest that is quiesced is attached again if it runs and can be. -/
theorem reattachRunningGuest_spec (reason : String) :
    Triple (fun w => Quiescing s w ∧ (w.vm = .running ↔ R)) (reattachRunningGuest s o reason)
      (fun _ w => Recovered s w ∧ Reattaches s o ∧ R) fun _ w => Quiescing s w ∧
        ¬(Reattaches s o ∧ R) := by
  refine .get fun w hw => ?_
  obtain ⟨hw, hruns⟩ := hw
  refine .ite (fun hrequired => ?_) fun _ => .ite (fun hno => ?_) fun hreattach => ?_
  · rw [hw.required] at hrequired
    cases hrequired
  · refine .fail ?_
    rintro _ rfl
    exact ⟨hw, fun h => Bool.false_ne_true (hno.symm.trans h.1.1)⟩
  have hmux : s.reattach = true := Bool.of_not_eq_false hreattach
  refine .bind (Q := fun _ w => Recovered s w ∧ Reattaches s o ∧ R) ?_ fun _ => .modify fun w h =>
    ?_
  · refine .get ?_
    rintro _ rfl
    refine .ite (fun hattach => ?_) fun hattach => ?_
    · refine .modify ?_
      rintro _ rfl
      exact ⟨⟨{ hw with }, hattach.2, rfl⟩, ⟨hmux, hattach.1⟩, hruns.1 hattach.2⟩
    · refine .fail ?_
      rintro _ rfl
      exact ⟨hw, fun h => hattach ⟨h.1.2, hruns.2 h.2⟩⟩
  · exact ⟨⟨{ h.1 with }, h.1.vm, h.1.attached⟩, h.2⟩

/-- How a recovery ends when the VM runs exactly if `R`. -/
inductive Recovery (s : Setup) (o : Outcomes) (R : Prop) (w : State) : Prop where
  | attached (h : Recovered s w) (hr : Reattaches s o) (hR : R)
  | ended (h : Ended s w) (ht : Terminates s o)
  | stranded (h : Stranded s w) (ht : ¬Terminates s o) (hr : ¬(Reattaches s o ∧ R))

theorem recover_spec (reason : String) :
    Triple (fun w => Quiescing s w ∧ (w.vm = .running ↔ R)) (recover s o reason)
      (fun _ w => Recovered s w ∧ Reattaches s o ∧ R) fun _ => Recovery s o R := by
  refine (reattachRunningGuest_spec reason).result_bind (fun _ => .pure fun _ => id) fun e =>
    .fact fun hr => ?_
  refine (failRecovery_spec e).conseq (fun _ => id) (fun _ _ => False.elim) fun _ w h => ?_
  rcases h with ⟨h, ht⟩ | ⟨h, ht⟩
  · exact .ended h ht
  · exact .stranded h ht hr

/-- An error of the code is followed by a recovery. -/
theorem recovering_spec {α : Type} {P : State → Prop} {Q : α → State → Prop} {x : Code α}
    (reason : String) (hx : Triple P x Q fun _ w => (Quiescing s w ∧ (w.vm = .running ↔ R)) ∧ F) :
    Triple P (recovering s o reason x) Q fun _ w => Recovery s o R w ∧ F := by
  refine hx.result_bind (fun _ => .pure fun _ => id) fun e => .fact fun hf => ?_
  exact (recover_spec reason).result_bind
    (fun _ => .fail fun _ h => ⟨.attached h.1 h.2.1 h.2.2, hf⟩)
    fun _ => .fail fun _ h => ⟨h, hf⟩

/-- The gates are closed, and nothing has been sent to the guest. -/
structure Ready (s : Setup) (w : State) : Prop extends Closed s w, Untouched w where
  vm : w.vm = .running

theorem sendQuiesce_spec : Triple (Ready s) (sendQuiesce o)
      (fun _ w => (Quiescing s w ∧ Untouched w ∧ w.vm = .running) ∧ o.quiesce = none)
      fun _ w => (Quiescing s w ∧ (w.vm = .running ↔ True)) ∧ o.quiesce ≠ none := by
  intro w hw
  refine modify_bind
    (f := fun w => { w with guestRecoveryRequired := true, quiesceSent := true, attached := false })
    (w := w) ?_ w rfl
  have hq :
      Quiescing s { w with guestRecoveryRequired := true, quiesceSent := true, attached :=
      false } :=
    ⟨⟨hw.shutdown, hw.terminated, hw.forwarder, hw.pinger, hw.balanced⟩, rfl, rfl, rfl⟩
  rintro _ rfl
  cases hquiesce : o.quiesce with
  | none => exact ⟨⟨hq, ⟨hw.events, hw.backendsResumed, hw.resumed, hw.succeeded⟩, hw.vm⟩, rfl⟩
  | some e => exact ⟨⟨hq, iff_of_true hw.vm trivial⟩, nofun⟩

theorem Quiescing.taken {w' : State} (h : Quiescing s w) (ht : Taken s w w') : Quiescing s w' where
  shutdown := ht.kept.shutdown.trans h.shutdown
  terminated := ht.kept.recoveryTerminated.trans h.terminated
  forwarder := ht.kept.forwarderPaused.trans h.forwarder
  pinger := ht.kept.pingerPaused.trans h.pinger
  balanced := ht.balanced
  required := ht.kept.guestRecoveryRequired.trans h.required
  sent := ht.kept.quiesceSent.trans h.sent
  detached := ht.kept.attached.trans h.detached

theorem take_quiescing :
    Triple (fun w => (Quiescing s w ∧ Untouched w ∧ w.vm = .running) ∧ F) (take s o)
      (fun _ w => (Quiescing s w ∧ w.vm = if s.resumeAfter then .running else .paused) ∧ F ∧
        Captures s o)
      fun _ w => (Quiescing s w ∧ (w.vm = .running ↔ Thaws s o)) ∧ F ∧ ¬Captures s o := by
  intro w ⟨⟨hw, huntouched, hvm⟩, hf⟩
  exact (take_spec huntouched hvm).conseq (fun _ => id)
    (fun _ _ h => ⟨⟨hw.taken h.1, h.2.vm⟩, hf, h.2.captures⟩)
    (fun _ _ h => ⟨⟨hw.taken h.1, h.2.2⟩, hf, h.2.1⟩) w rfl

/-- How a part of the handler ends in success: with `X` in a capture that resumes, and paused
behind closed gates in destroy mode. -/
structure Succeeds (s : Setup) (X : State → Prop) (resp : Response) (w : State) : Prop where
  afterWrite : resp.afterWrite = !s.resumeAfter
  resumed : s.resumeAfter = true → X w
  paused : s.resumeAfter = false → Closed s w ∧ w.vm = .paused

theorem settles_captured (hq : o.quiesce = none) (hc : Captures s o) : Settles s o ↔
    if s.resumeAfter then Reattaches s o ∨ Terminates s o else o.cause = none :=
  ⟨fun h => h.captured hq hc, fun h => ⟨fun _ _ => h, fun hn => absurd ⟨hq, hc⟩ hn⟩⟩

theorem settles_failed (hn : ¬(o.quiesce = none ∧ Captures s o)) : Settles s o ↔
    Reattaches s o ∧ (o.quiesce ≠ none ∨ Thaws s o) ∨ Terminates s o :=
  ⟨fun h => h.failed hn, fun h => ⟨fun hq hc => absurd ⟨hq, hc⟩ hn, fun _ => h⟩⟩

/-- How the part behind the gates fails. -/
def Settled (s : Setup) (o : Outcomes) (w : State) : Prop :=
  (Recovered s w ∨ Ended s w) ∧ Settles s o ∨ Stranded s w ∧ ¬Settles s o

theorem Recovery.settled (h : Recovery s o R w)
    (hs : Settles s o ↔ Reattaches s o ∧ R ∨ Terminates s o) :
    Settled s o w := by
  rcases h with ⟨h, hr, hR⟩ | ⟨h, ht⟩ | ⟨h, ht, hr⟩
  · exact .inl ⟨.inl h, hs.2 (.inl ⟨hr, hR⟩)⟩
  · exact .inl ⟨.inr h, hs.2 (.inr ht)⟩
  · exact .inr ⟨h, fun hsettles => (hs.1 hsettles).elim hr ht⟩

/-- From the quiesce to the response. -/
theorem captureQuiesced_spec : Triple (Ready s) (captureQuiesced s o)
      (fun resp w => Succeeds s (Recovered s) resp w ∧ Settles s o) fun _ => Settled s o := by
  refine .bind ((recovering_spec _ sendQuiesce_spec).onError fun _ w h => ?_) fun _ => ?_
  · refine h.1.settled ((settles_failed fun hn => h.2 hn.1).trans ?_)
    rw [and_iff_left (.inl h.2), and_true]
  refine .bind (Q := fun _ w => (Quiescing s w ∧ Untouched w ∧ w.vm = .running) ∧ o.quiesce = none)
    (.modify fun w hw => ?_) fun _ => ?_
  · obtain ⟨⟨hq, hu, hvm⟩, hnone⟩ := hw
    exact ⟨⟨⟨⟨hq.shutdown, hq.terminated, hq.forwarder, hq.pinger, hq.balanced⟩, hq.required,
      hq.sent, hq.detached⟩, ⟨hu.events, hu.backendsResumed, hu.resumed, hu.succeeded⟩, hvm⟩, hnone⟩
  refine .bind ((recovering_spec _ take_quiescing).onError fun _ w h => ?_) fun _ => ?_
  · have hthaws : (o.quiesce ≠ none ∨ Thaws s o) ↔ Thaws s o := or_iff_right fun hn => hn h.2.1
    exact h.1.settled ((settles_failed fun hn => h.2.2 hn.2).trans (by rw [hthaws]))
  refine .fact fun hcaptured => ?_
  have hsettles := settles_captured hcaptured.1 hcaptured.2
  unfold reattachAfterCapture
  cases hresume : s.resumeAfter with
  | false =>
    -- nothing attaches the guest, so the check of the context must pass
    rw [hresume, if_neg Bool.false_ne_true] at hsettles
    refine .bind (Q := fun _ w => Quiescing s w ∧ w.vm = .paused) (.pure fun _ => id) fun _ =>
      .bind ((attempt_spec _ _).onError ?_) fun _ => .pure ?_
    · exact fun _ w h => .inr ⟨h.1.1.stranded, fun hs => h.2 (hsettles.1 hs)⟩
    · exact fun w h =>
        ⟨⟨by rw [hresume], fun hf => absurd (hresume.symm.trans hf) Bool.false_ne_true,
          fun _ => ⟨h.1.1.toClosed, h.1.2⟩⟩, hsettles.2 h.2⟩
  | true =>
    rw [hresume, if_pos rfl] at hsettles
    refine .bind (Q := fun _ w => Recovered s w ∧ Settles s o) ?_ fun _ =>
      .bind ((attempt_spec _ _).onError fun _ _ h => .inl ⟨.inl h.1.1, h.1.2⟩) fun _ => .pure ?_
    · refine (recover_spec (R := True) _).conseq (fun _ h => ⟨h.1, iff_of_true h.2 trivial⟩)
        (fun _ _ h => ⟨h.1, hsettles.2 (.inl h.2.1)⟩) fun _ _ h =>
          h.settled (by rw [hsettles, and_true])
    · exact fun w h => ⟨⟨by rw [hresume], fun _ => h.1.1,
        fun hf => absurd (hf.symm.trans hresume) Bool.false_ne_true⟩, h.1.2⟩

theorem captureQuiesced_settles (hs : Settles s o) : Triple (Ready s) (captureQuiesced s o)
    (Succeeds s (Recovered s)) fun _ w => Recovered s w ∨ Ended s w :=
  captureQuiesced_spec.conseq (fun _ => id) (fun _ _ h => h.1)
    fun _ _ h => h.elim And.left fun h => absurd hs h.2

theorem captureQuiesced_strands (hs : ¬Settles s o) :
    Triple (Ready s) (captureQuiesced s o) (fun _ _ => False) fun _ => Stranded s :=
  captureQuiesced_spec.conseq (fun _ => id) (fun _ _ h => hs h.2)
    fun _ _ h => h.elim (fun h => absurd h.2 hs) And.left

/-! ### The gates -/

/-- The sandbox runs, and everything is open. -/
structure Running (w : State) : Prop where
  vm : w.vm = .running
  shutdown : w.shutdown = false
  attached : w.quiesceSent = true → w.attached = true
  forwarder : w.forwarderPaused = false
  pinger : w.pingerPaused = false

/-- Termination of the VMM was initiated, and the gates stay closed. -/
structure Terminating (s : Setup) (w : State) : Prop where
  shutdown : w.shutdown = true
  forwarder : w.forwarderPaused = s.forwarder
  pinger : w.pingerPaused = s.pinger

/-- The VM waits for its teardown behind closed gates. -/
structure Destroying (s : Setup) (w : State) : Prop where
  resumeAfter : s.resumeAfter = false
  vm : w.vm = .paused
  shutdown : w.shutdown = false
  forwarder : w.forwarderPaused = s.forwarder
  pinger : w.pingerPaused = s.pinger

/-- The sandbox runs, and of the gates only the forwarder is closed. -/
structure HalfOpen (s : Setup) (w : State) : Prop where
  vm : w.vm = .running
  shutdown : w.shutdown = false
  terminated : w.recoveryTerminated = false
  attached : w.quiesceSent = true → w.attached = true
  forwarder : w.forwarderPaused = s.forwarder
  pinger : w.pingerPaused = false
  balanced : Balanced s w.events

theorem pausePinger_spec : Triple (fun w => HalfOpen s w ∧ Untouched w) (pausePinger s o)
      (fun _ w => Ready s w ∧ (s.pinger = true → o.pausePinger = none))
      fun _ w => HalfOpen s w ∧ ¬(s.pinger = true → o.pausePinger = none) := by
  refine .ite (fun hpinger => ?_) fun hpinger => ?_
  · generalize o.pausePinger = outcome
    cases outcome with
    | none =>
      refine .modify fun w hw => ⟨⟨⟨hw.1.shutdown, hw.1.terminated, hw.1.forwarder, hpinger.symm,
        hw.1.balanced⟩, ⟨hw.2.events, hw.2.backendsResumed, hw.2.resumed, hw.2.succeeded⟩, hw.1.vm⟩,
          fun _ => rfl⟩
    | some e =>
      refine .bind (.modify fun w hw => ?_) fun _ => .fail fun _ => id
      exact ⟨⟨hw.1.vm, hw.1.shutdown, hw.1.terminated, hw.1.attached, hw.1.forwarder, rfl,
        hw.1.balanced⟩, fun h => nomatch h hpinger⟩
  · refine .pure fun w hw => ⟨⟨⟨hw.1.shutdown, hw.1.terminated, hw.1.forwarder, ?_, hw.1.balanced⟩,
      hw.2, hw.1.vm⟩, fun h => absurd h hpinger⟩
    rw [hw.1.pinger, Bool.eq_false_iff.2 hpinger]

variable {present : Bool} {reopen : State → State}

/-- The gate of a sandbox that runs on is opened. -/
theorem release_open {r : Except Failure Response}
    (hterminated : w.recoveryTerminated = false) (hr : destroyed s r = false)
    (hopen : present = false → reopen w = w) : release s present reopen r w = (r, reopen w) := by
  unfold release
  by_cases hpresent : present = false
  · rw [if_pos (.inl hpresent), hopen hpresent]
  rw [if_neg]
  rw [hterminated, hr]
  rintro (h | h | h)
  · exact hpresent h
  · cases h
  · cases h

theorem release_kept {r : Except Failure Response}
    (h : w.recoveryTerminated = true ∨ destroyed s r = true) :
    release s present reopen r w = (r, w) := by
  unfold release
  rw [if_pos (.inr h)]

theorem destroyed_ok (resp : Response) : destroyed s (.ok resp) = !s.resumeAfter := rfl

/-- A gate after the code behind it: `X` with the gate open again, or as it was. -/
theorem release_spec {P X Y : State → Prop} {x : Code Response}
    (hx : Triple P x (Succeeds s X) fun _ w => X w ∨ Ended s w)
    (hterminated : ∀ w, X w → w.recoveryTerminated = false)
    (hopen : ∀ w, X w → present = false → reopen w = w) (hreopen : ∀ w, X w → Y (reopen w)) :
    Triple P (Proc.deferred (release s present reopen) x) (Succeeds s Y) fun _ w => Y w ∨
      Ended s w := by
  refine hx.deferred (fun resp w hw => ?_) fun e w hw => ?_
  · cases hresume : s.resumeAfter with
    | false =>
      rw [release_kept (.inr (by rw [destroyed_ok, hresume]; rfl))]
      exact { hw with resumed := fun h => absurd (hresume.symm.trans h) Bool.false_ne_true }
    | true =>
      have hX := hw.resumed hresume
      rw [release_open (hterminated w hX) (by rw [destroyed_ok, hresume]; rfl) (hopen w hX)]
      exact ⟨hw.afterWrite, fun _ => hreopen w hX,
        fun h => absurd (h.symm.trans hresume) Bool.false_ne_true⟩
  · rcases hw with hX | hw
    · rw [release_open (hterminated w hX) rfl (hopen w hX)]
      exact .inl (hreopen w hX)
    · rw [release_kept (.inl hw.terminated)]
      exact .inr hw

/-- The sandbox runs with open gates, and the backends are balanced. -/
structure Open (s : Setup) (w : State) : Prop extends Running w where
  balanced : Balanced s w.events

/-- A gate does not help a stranded sandbox. -/
theorem release_stranded {P : State → Prop} {x : Code Response}
    (hx : Triple P x (fun _ _ => False) fun _ => Stranded s)
    (hreopen : ∀ w, Stranded s w → Stranded s (reopen w)) :
    Triple P (Proc.deferred (release s present reopen) x)
    (fun _ _ => False) fun _ => Stranded s := by
  refine hx.deferred (fun _ _ => False.elim) fun e w hw => ?_
  have hkept : Stranded s (release (α := Response) s present reopen (.error e) w).2 := by
    unfold release
    dsimp only
    split
    · exact hw
    · exact hreopen w hw
  exact hkept

theorem open_initial : Open s State.initial := ⟨⟨rfl, rfl, nofun, rfl, rfl⟩, .inl rfl⟩

theorem pauseForwarder_spec {E : Failure → State → Prop} :
    Triple (· = State.initial) (pauseForwarder s) (fun _ w => HalfOpen s w ∧ Untouched w) E := by
  refine .ite (fun hforwarder => ?_) fun hforwarder => ?_
  · refine .modify ?_
    rintro _ rfl
    exact ⟨⟨rfl, rfl, rfl, nofun, hforwarder.symm, rfl, .inl rfl⟩, rfl, rfl, rfl, rfl⟩
  · refine .pure ?_
    rintro _ rfl
    exact ⟨⟨rfl, rfl, rfl, nofun, (Bool.eq_false_iff.2 hforwarder).symm, rfl, .inl rfl⟩, rfl, rfl,
      rfl, rfl⟩

theorem captureGated_spec (hs : o.drain = none → (s.pinger = true → o.pausePinger = none) →
      Settles s o) :
    Triple (· = State.initial) (captureGated s o) (Succeeds s (Open s)) fun _ w => Open s w ∨
      Ended s w := by
  refine attempt_bind (fun _ => .inl open_initial) fun hdrain => pauseForwarder_spec.bind fun _ =>
    ?_
  refine release_spec (X := HalfOpen s) ?_ (fun w h => h.terminated) (fun w h hp => ?_)
    fun w h => ⟨{ h with forwarder := rfl }, h.balanced⟩
  · refine .bind (pausePinger_spec.onError fun _ _ h => .inl h.1) fun _ => .fact fun hpinger => ?_
    refine release_spec (captureQuiesced_settles (hs hdrain hpinger)) (fun w h => h.terminated)
      (fun w h hp => ?_)
      fun w h => { h with attached := fun _ => h.attached, pinger := rfl }
    rw [← h.pinger.trans hp]
  · rw [← h.forwarder.trans hp]

theorem captureGated_strands (hdrain : o.drain = none)
    (hpinger : s.pinger = true → o.pausePinger = none) (hs : ¬Settles s o) :
    Triple (· = State.initial) (captureGated s o) (fun _ _ => False) fun _ => Stranded s := by
  refine attempt_bind (fun h => absurd hdrain h) fun _ => pauseForwarder_spec.bind fun _ => ?_
  refine release_stranded ?_ fun w h => ⟨h.sent, h.detached, h.shutdown, h.balanced⟩
  refine .bind (pausePinger_spec.onError fun _ _ h => absurd hpinger h.2) fun _ => .fact fun _ => ?_
  exact release_stranded (captureQuiesced_strands hs) fun w h =>
    ⟨h.sent, h.detached, h.shutdown, h.balanced⟩

theorem captureUnderBarrier_spec (hs : o.beginSnapshot = none → o.liftMemoryHigh = none →
      o.drain = none → (s.pinger = true → o.pausePinger = none) → Settles s o) :
    Triple (· = State.initial) (captureUnderBarrier s o) (Succeeds s (Open s)) fun _ w => Open s w ∨
      Ended s w := by
  refine attempt_bind (fun _ => .inl open_initial) fun hbegin =>
    attempt_bind (fun _ => .inl open_initial) fun hlift => ?_
  refine (captureGated_spec (hs hbegin hlift)).deferred (fun resp w hw => ?_) fun e w hw => ?_
  · unfold restoreMemoryHigh
    cases hresume : s.resumeAfter with
    | false =>
      rw [if_pos (by rw [destroyed_ok, hresume]; rfl)]
      exact hw
    | true =>
      rw [if_neg (by rw [destroyed_ok, hresume]; exact Bool.false_ne_true)]
      cases o.restoreMemoryHigh <;> cases o.closeMemoryHighLock <;>
        first | exact hw | exact .inl (hw.resumed hresume)
  · unfold restoreMemoryHigh joinError
    cases o.restoreMemoryHigh <;> cases o.closeMemoryHighLock <;> exact hw

theorem captureUnderBarrier_strands (hq : Quiesces s o) (hs : ¬Settles s o) :
    Triple (· = State.initial) (captureUnderBarrier s o)
    (fun _ _ => False) fun _ => Stranded s := by
  refine attempt_bind (fun h => absurd hq.beginSnapshot h) fun _ =>
    attempt_bind (fun h => absurd hq.liftMemoryHigh h) fun _ => ?_
  refine (captureGated_strands hq.drain hq.pausePinger hs).deferred
    (fun _ _ => False.elim) fun e w hw => ?_
  unfold restoreMemoryHigh joinError
  cases o.restoreMemoryHigh <;> cases o.closeMemoryHighLock <;> exact hw

/-- The three ways in which the handler returns. -/
inductive Ending (s : Setup) (ret : Returned) (w : State) : Prop where
  | running (h : Running w) (hresp : ret.response.afterWrite = false)
  | terminating (h : Terminating s w) (hresp : ret.response.afterWrite = false)
  | destroying (h : Destroying s w) (hresp : ret.response.afterWrite = true)

theorem returned_ok (resp : Response) : (returned o (.ok resp)).response = resp := by
  unfold returned
  cases o.closeHistory <;> rfl

theorem returned_error (e : Failure) : (returned o (.error e)).response = .empty := by
  unfold returned
  cases o.closeHistory <;> rfl

theorem handleSnapshotRequest_ends (hs : Quiesces s o → Settles s o) :
    Ending s (handleSnapshotRequest s o State.initial).1
    (handleSnapshotRequest s o State.initial).2 ∧
      Balanced s (handleSnapshotRequest s o State.initial).2.events := by
  unfold handleSnapshotRequest
  cases hpre : preflight s o with
  | some e => exact ⟨.running ⟨rfl, rfl, nofun, rfl, rfl⟩ rfl, .inl rfl⟩
  | none =>
    have hbarrier := captureUnderBarrier_spec (fun h₁ h₂ h₃ h₄ => hs ⟨hpre, h₁, h₂, h₃, h₄⟩)
      State.initial rfl
    revert hbarrier
    cases captureUnderBarrier s o State.initial with
    | mk r w =>
      cases r with
      | ok resp =>
        intro hw
        cases hresume : s.resumeAfter with
        | false =>
          obtain ⟨hclosed, hvm⟩ := hw.paused hresume
          refine ⟨.destroying { hclosed with resumeAfter := hresume, vm := hvm } ?_,
            hclosed.balanced⟩
          rw [returned_ok, hw.afterWrite, hresume]
          rfl
        | true =>
          refine ⟨.running (hw.resumed hresume).toRunning ?_, (hw.resumed hresume).balanced⟩
          rw [returned_ok, hw.afterWrite, hresume]
          rfl
      | error e =>
        intro hw
        rcases hw with hw | hw
        · exact ⟨.running hw.toRunning (by rw [returned_error]; rfl), hw.balanced⟩
        · exact ⟨.terminating { hw with } (by rw [returned_error]; rfl), hw.balanced⟩

theorem handleSnapshotRequest_strands (hq : Quiesces s o) (hs : ¬Settles s o) :
    Stranded s (handleSnapshotRequest s o State.initial).2 ∧
      (handleSnapshotRequest s o State.initial).1.response.afterWrite = false := by
  unfold handleSnapshotRequest
  rw [hq.preflight]
  have hbarrier := captureUnderBarrier_strands hq hs State.initial rfl
  revert hbarrier
  cases captureUnderBarrier s o State.initial with
  | mk r w =>
    cases r with
    | ok resp => exact False.elim
    | error e => exact fun hw => ⟨hw, by rw [returned_error]; rfl⟩

/-- When the server has written the response or has failed to, the sandbox runs on or its VMM ends:
if the handler does not strand it, and if the teardown of a destroy reaches the VMM. -/
theorem serveSnapshot_ends (hs : Quiesces s o → Settles s o)
    (hdestroy : s.resumeAfter = false → Reaches s o.destroy) :
    Running (serveSnapshot s o State.initial) ∨
      Terminating s (serveSnapshot s o State.initial) := by
  obtain ⟨hend, -⟩ := handleSnapshotRequest_ends hs
  unfold serveSnapshot
  revert hend
  cases handleSnapshotRequest s o State.initial with
  | mk ret w =>
    have hwrite : ∃ answered, (writeMessage o w).2 = { w with answered } := by
      unfold writeMessage attempt
      cases o.write with
      | none => exact ⟨true, rfl⟩
      | some e => exact ⟨w.answered, rfl⟩
    rintro (⟨h, hresp⟩ | ⟨h, hresp⟩ | ⟨h, hresp⟩)
    all_goals
      dsimp only at h hresp ⊢
      unfold writeCaptureResponse
      rw [hresp]
    · obtain ⟨answered, heq⟩ := hwrite
      left
      show Running (writeMessage o w).2
      rw [heq]
      exact { h with }
    · obtain ⟨answered, heq⟩ := hwrite
      right
      show Terminating s (writeMessage o w).2
      rw [heq]
      exact { h with }
    · have hreaches := (reaches_iff o.destroy).2 (hdestroy h.resumeAfter)
      have hwritten : ∃ answered, ((attempt o.writeDeadline id >>= fun _ => writeMessage o) w).2 =
          { w with answered } := by
        unfold attempt
        cases o.writeDeadline with
        | none => exact hwrite
        | some e => exact ⟨w.answered, rfl⟩
      obtain ⟨answered, heq⟩ := hwritten
      right
      show Terminating s
        (destroyAfterSnapshot s o ((attempt o.writeDeadline id >>= fun _ => writeMessage o) w).2).2
      rw [heq]
      refine { h with shutdown := ?_ }
      show (w.shutdown || (requestShutdown s o.destroy).2 || (awaitExit s o.destroy).2) = true
      rw [Bool.or_assoc, hreaches, Bool.or_true]

def ExactlyOne (p q r : Prop) : Prop := (p ∧ ¬q ∧ ¬r) ∨ (¬p ∧ q ∧ ¬r) ∨ (¬p ∧ ¬q ∧ r)

/-- The handler returns with a sandbox that runs with an attached guest and open gates, with a VMM
that ends behind closed gates, or, in destroy mode, with the teardown in its response, and every
quiesce of a backend has been followed by one resume before Cloud Hypervisor was resumed: exactly
if what comes after the quiesce settles. -/
theorem capture_never_strands (s : Setup) (o : Outcomes) :
    let ret := (handleSnapshotRequest s o State.initial).1
    let w := (handleSnapshotRequest s o State.initial).2
    (ExactlyOne (Running w ∧ ret.response.afterWrite = false) (Terminating s w ∧
      ret.response.afterWrite = false)
      (Destroying s w ∧ ret.response.afterWrite = true) ∧ Balanced s w.events) ↔
    (Quiesces s o → Settles s o) := by
  intro ret w
  constructor
  · rintro ⟨hone, -⟩ hq
    refine Classical.not_not.1 fun hs => ?_
    obtain ⟨hw, hresp⟩ := handleSnapshotRequest_strands hq hs
    rcases hone with ⟨h, -⟩ | ⟨-, h, -⟩ | ⟨-, -, h⟩
    · exact Bool.false_ne_true (hw.detached.symm.trans (h.1.attached hw.sent))
    · exact Bool.false_ne_true (hw.shutdown.symm.trans h.1.shutdown)
    · exact Bool.false_ne_true (hresp.symm.trans h.2)
  intro hs
  obtain ⟨hend, hbalanced⟩ := handleSnapshotRequest_ends hs
  refine ⟨?_, hbalanced⟩
  rcases hend with ⟨hw, hresp⟩ | ⟨hw, hresp⟩ | ⟨hw, hresp⟩
  · refine .inl ⟨⟨hw, hresp⟩, fun h' => ?_, fun h' => ?_⟩
    · exact Bool.false_ne_true (hw.shutdown.symm.trans h'.1.shutdown)
    · exact Bool.false_ne_true (hresp.symm.trans h'.2)
  · refine .inr (.inl ⟨fun h' => ?_, ⟨hw, hresp⟩, fun h' => ?_⟩)
    · exact Bool.false_ne_true (h'.1.shutdown.symm.trans hw.shutdown)
    · exact Bool.false_ne_true (hresp.symm.trans h'.2)
  · refine .inr (.inr ⟨fun h' => ?_, fun h' => ?_, hw, hresp⟩)
    all_goals exact Bool.false_ne_true (h'.2.symm.trans hresp)

end Handler

/-! ## Runs -/

/-- A sandbox with one backend, captured in destroy mode. -/
def destroySetup : Setup where
  resumeAfter := false
  servers := 1
  reattach := true
  chProcess := true
  chExited := true
  forwarder := true
  pinger := true
  mergesMemory := false

/-- The VMM takes the request and exits. -/
def promptTeardown : Teardown := ⟨.ok, none, none, true, true⟩

def allSucceed (cause : Option String) : Outcomes where
  preflight := none
  beginSnapshot := none
  liftMemoryHigh := none
  drain := none
  pausePinger := none
  quiesce := none
  step := fun _ => none
  pause := .ok
  resume := .ok
  resumeDeferred := .ok
  closeMemoryBase := none
  closeOpenSink := none
  deleteCheckpoints := none
  attach := true
  recovery := promptTeardown
  cause := cause
  restoreMemoryHigh := none
  closeMemoryHighLock := none
  closeHistory := none
  writeDeadline := none
  write := some "broken pipe"
  destroy := promptTeardown

theorem allSucceed_captures : Captures destroySetup (allSucceed none) :=
  ⟨⟨rfl, fun _ _ => rfl⟩, fun _ => rfl, rfl⟩

theorem allSucceed_settles : Settles destroySetup (allSucceed none) :=
  (settles_captured rfl allSucceed_captures).2 rfl

theorem capture_never_strands_destroy :
    Destroying destroySetup
    (handleSnapshotRequest destroySetup (allSucceed none) State.initial).2 := by
  obtain ⟨h, -⟩ := (capture_never_strands destroySetup (allSucceed none)).2 fun _ =>
    allSucceed_settles
  rcases h with ⟨h, -⟩ | ⟨-, h, -⟩ | ⟨-, -, h⟩
  · cases h.2
  · cases h.2
  · exact h.1

/-- The client is gone when the response is written. -/
theorem serveSnapshot_ends_destroy :
    (serveSnapshot destroySetup (allSucceed none) State.initial).shutdown = true ∧
    (serveSnapshot destroySetup (allSucceed none) State.initial).answered = false := by
  refine ⟨?_, rfl⟩
  rcases serveSnapshot_ends (s := destroySetup) (o := allSucceed none) (fun _ => allSucceed_settles)
    (fun _ => .inl nofun) with h | h
  · cases h.shutdown
  · exact h.shutdown

/-- The context is cancelled when the capture is committed, but before the handler returns: the
VM stays paused, nobody ends it, and the gates are open. -/
theorem cancelled_destroy_strands :
    ∃ ret w, handleSnapshotRequest destroySetup
    (allSucceed (some "context canceled")) State.initial = (ret, w) ∧
      w.vm = .paused ∧ w.shutdown = false ∧ ret.response.afterWrite = false ∧ w.quiesceSent = true ∧
      w.attached = false ∧ w.forwarderPaused = false ∧ w.pingerPaused = false :=
  ⟨_, _, rfl, rfl, rfl, rfl, rfl, rfl, rfl, rfl⟩

end Sandboxer.Sandbox.Capture
