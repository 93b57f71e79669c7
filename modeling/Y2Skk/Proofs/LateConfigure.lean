import Y2Skk.Ipc.CandidateWindow

/-!
# `Y2Skk.Proofs.LateConfigure`: what a late configure shows

Before its first configure event a layer-shell window folds every request into the slot
`pending`. After it the requests go to the surface, by the priority of the candidate list
over the indicator. `Display.step` states this priority once, on what a window shows. A
window that can be drawn on follows it (`Drawable.display_step`). A window that waits
follows it too, on what its slot would be drawn as (`Waiting.planned_step`), with one
exception: `showStatus` reads the state, which is still `empty`, and not the slot, so the
indicator takes the place of a candidate list that waits there.

## The result

`lateConfigure_iff`: the point at which the first configure arrives makes no difference in
the states of a run exactly when no `showStatus` comes before it between a `show` and the
next `hide`. An overlay is configured from the start, and there it never makes a
difference.

## The proof

Both kinds of window simulate the abstract display. For the converse a run is cut at the
first `showStatus` that comes too early: the late window then shows the indicator, and the
window that was configured first still shows the list, and the states of the two displays
differ.

Buffers may fail to be made; the theorem is about calls whose buffers can be made, since a
window without a buffer shows what it showed before.
-/

set_option autoImplicit false

namespace Y2Skk.Wayland.CandidateWindow

open Utf8 (Str)

/-- What a window shows: its state, and what is painted on its surface. -/
structure Display where
  state : DisplayState
  canvas : Canvas
  deriving DecidableEq, Repr

/-- The display of a window. -/
def display (self : CandidateWindow) : Display := ⟨self.state, self.shown⟩

namespace Display

/-- Nothing is shown. -/
def blank : Display := ⟨.empty, fillTransparent⟩

/-- A candidate list is shown. -/
def ofCandidates (candidates : List IpcCandidate) (focused : UInt32) (selKeys : Str) : Display :=
  ⟨.candidates, renderCandidates candidates focused selKeys⟩

/-- The indicator is shown. -/
def ofStatus (indicator : Str) : Display := ⟨.status, renderIndicatorLegacy indicator⟩

/-- What a call makes of the display. The candidate list has priority over the indicator. -/
def step (self : Display) : Call → Display
  | .showCandidates candidates focused selKeys _ => ofCandidates candidates focused selKeys
  | .hideCandidates => if self.state = .candidates then blank else self
  | .showStatus indicator _ => if self.state = .candidates then self else ofStatus indicator
  | .hideStatus => if self.state = .status then blank else self

/-- A run of calls. -/
def run (self : Display) (calls : List Call) : Display :=
  calls.foldl step self

/-- What the slot is drawn as when the first configure event arrives. -/
def planned : Option PendingDraw → Display
  | none => blank
  | some (.candidates candidates focused selKeys) => ofCandidates candidates focused selKeys
  | some (.status indicator) => ofStatus indicator

end Display

open Display (planned)

/-! ### A window that can be drawn on -/

/-- A configured layer-shell window. -/
structure Drawable (w : CandidateWindow) : Prop where
  backend : w.backend = .layerShell
  configured : w.configured = true
  /-- The indicator has no buffer of its own here. -/
  attached : w.attached ≠ some .ind

/-- The state is no part of what is painted. -/
@[simp] theorem shown_state (w : CandidateWindow) (state : DisplayState) :
    { w with state := state }.shown = w.shown := rfl

/-- The list is on the surface once it is drawn. -/
theorem shown_doDrawCandidates (w : CandidateWindow) (candidates : List IpcCandidate)
    (focused : UInt32) (selKeys : Str) :
    (w.doDrawCandidates candidates focused selKeys true).shown =
      renderCandidates candidates focused selKeys := by
  cases hbuf : w.candBuf <;>
    simp [doDrawCandidates, ensureBuf, ShmBuf.new, hbuf, attachAndCommit, shown]

/-- The indicator of a layer-shell window is drawn into the candidate buffer, or nothing is
drawn when no buffer can be made. -/
theorem doDrawStatus_eq {w : CandidateWindow} (hshell : w.backend = .layerShell)
    (indicator : Str) (shm : Bool) :
    w.doDrawStatus indicator shm =
      match ensureBuf w.candBuf shm candW candH with
      | none => w
      | some buf =>
          { w with candBuf := some { buf with canvas := renderIndicatorLegacy indicator }
            }.attachAndCommit true := by
  simp only [doDrawStatus, hshell, SurfaceBackend.isOverlay]
  rfl

/-- And so is the indicator. -/
theorem shown_doDrawStatus {w : CandidateWindow} (hshell : w.backend = .layerShell)
    (indicator : Str) :
    (w.doDrawStatus indicator true).shown = renderIndicatorLegacy indicator := by
  rw [doDrawStatus_eq hshell]
  cases hbuf : w.candBuf <;> simp [ensureBuf, ShmBuf.new, attachAndCommit, shown]

/-- Fading out leaves nothing on the surface, also when there was no buffer to paint: a surface
without one shows nothing. -/
theorem Drawable.shown_fadeOutCandBuf {w : CandidateWindow} (h : Drawable w) :
    w.fadeOutCandBuf.shown = fillTransparent := by
  cases hbuf : w.candBuf with
  | some buf => simp [fadeOutCandBuf, hbuf, attachAndCommit, shown]
  | none =>
      have hslot := h.attached
      cases hatt : w.attached with
      | none => simp [fadeOutCandBuf, hbuf, shown, hatt]
      | some slot =>
          cases slot with
          | cand => simp [fadeOutCandBuf, hbuf, shown, hatt]
          | ind => exact absurd hatt hslot

/-- The indicator of a layer-shell window is in the buffer of the candidates. -/
theorem fadeOutIndBuf_eq {w : CandidateWindow} (hshell : w.backend = .layerShell) :
    w.fadeOutIndBuf = w.fadeOutCandBuf := by
  simp [fadeOutIndBuf, fadeOutCandBuf, SurfaceBackend.isOverlay, hshell]

/-- The state does not matter to drawing. -/
theorem Drawable.withState {w : CandidateWindow} (h : Drawable w) (state : DisplayState) :
    Drawable { w with state := state } :=
  ⟨h.backend, h.configured, h.attached⟩

/-- The candidate buffer is painted and attached, which keeps the window drawable. -/
theorem Drawable.commitCandBuf {w : CandidateWindow} (h : Drawable w) (buf : ShmBuf) :
    Drawable ({ w with candBuf := some buf }.attachAndCommit true) := by
  refine ⟨h.backend, h.configured, ?_⟩
  show some BufSlot.cand ≠ some .ind
  decide

/-- A list may be drawn. -/
theorem Drawable.doDrawCandidates {w : CandidateWindow} (h : Drawable w)
    (candidates : List IpcCandidate) (focused : UInt32) (selKeys : Str) (shm : Bool) :
    Drawable (w.doDrawCandidates candidates focused selKeys shm) := by
  simp only [CandidateWindow.doDrawCandidates]
  split
  · exact h
  · exact h.commitCandBuf _

/-- And an indicator. -/
theorem Drawable.doDrawStatus {w : CandidateWindow} (h : Drawable w) (indicator : Str)
    (shm : Bool) : Drawable (w.doDrawStatus indicator shm) := by
  rw [doDrawStatus_eq h.backend]
  split
  · exact h
  · exact h.commitCandBuf _

/-- And nothing. -/
theorem Drawable.fadeOutCandBuf {w : CandidateWindow} (h : Drawable w) :
    Drawable w.fadeOutCandBuf := by
  simp only [CandidateWindow.fadeOutCandBuf]
  split
  · exact h
  · exact h.commitCandBuf _

/-- A call on a drawable window: what it draws and the state it leaves. The window is
configured, so no call waits in the slot, and a list of candidates wins over an indicator in
either order. -/
theorem Drawable.step_eq {w : CandidateWindow} (h : Drawable w) (call : Call) :
    w.step call =
      match call with
      | .showCandidates candidates focused selKeys shm =>
          { w.doDrawCandidates candidates focused selKeys shm with state := .candidates }
      | .hideCandidates =>
          if w.state = .candidates then { w.fadeOutCandBuf with state := .empty } else w
      | .showStatus indicator shm =>
          if w.state = .candidates then w
          else { w.doDrawStatus indicator shm with state := .status }
      | .hideStatus =>
          if w.state = .status then { w.fadeOutCandBuf with state := .empty } else w := by
  have hconf := h.configured
  cases call with
  | showCandidates candidates focused selKeys shm => simp [CandidateWindow.step, «show», hconf]
  | hideCandidates => simp [CandidateWindow.step, hide, hconf]
  | showStatus indicator shm => simp [CandidateWindow.step, showStatus, hconf]
  | hideStatus => simp [CandidateWindow.step, hideStatus, hconf, fadeOutIndBuf_eq h.backend]

/-- A call keeps the window drawable: the surface has the candidate buffer attached, or none. -/
theorem Drawable.step {w : CandidateWindow} (h : Drawable w) (call : Call) :
    Drawable (w.step call) := by
  rw [h.step_eq call]
  cases call with
  | showCandidates candidates focused selKeys shm =>
      exact (h.doDrawCandidates candidates focused selKeys shm).withState _
  | showStatus indicator shm =>
      show Drawable (if _ then _ else _)
      split
      · exact h
      · exact (h.doDrawStatus indicator shm).withState _
  | hideCandidates | hideStatus =>
      show Drawable (if _ then _ else _)
      split
      · exact h.fadeOutCandBuf.withState _
      · exact h

/-- A call whose buffers can be made does to the display what `Display.step` says. So a window
that is configured shows the run of its calls, and the display is the abstract state that both
windows are compared in. -/
theorem Drawable.display_step {w : CandidateWindow} (h : Drawable w) {call : Call}
    (hmade : call.buffersMade = true) : (w.step call).display = w.display.step call := by
  rw [h.step_eq call]
  cases call with
  | showCandidates candidates focused selKeys shm =>
      have hshm : shm = true := hmade
      simp [hshm, display, shown_doDrawCandidates, Display.step, Display.ofCandidates]
  | hideCandidates =>
      by_cases hstate : w.state = .candidates
      · simp [hstate, display, h.shown_fadeOutCandBuf, Display.step, Display.blank]
      · simp [hstate, display, Display.step]
  | showStatus indicator shm =>
      have hshm : shm = true := hmade
      by_cases hstate : w.state = .candidates
      · simp [hstate, display, Display.step]
      · simp [hstate, hshm, display, shown_doDrawStatus h.backend, Display.step,
          Display.ofStatus]
  | hideStatus =>
      by_cases hstate : w.state = .status
      · simp [hstate, display, h.shown_fadeOutCandBuf, Display.step, Display.blank]
      · simp [hstate, display, Display.step]

/-- A run is a run of the displays, by the step lemma at every call, as long as the buffers can
be made. -/
theorem Drawable.display_run {w : CandidateWindow} (h : Drawable w) {calls : List Call}
    (hmade : ∀ call ∈ calls, call.buffersMade = true) :
    (w.run calls).display = w.display.run calls := by
  induction calls generalizing w with
  | nil => rfl
  | cons call calls ih =>
      have hstep := h.display_step (hmade call List.mem_cons_self)
      have hrest := ih (h.step call) fun c hc => hmade c (List.mem_cons_of_mem _ hc)
      show ((w.step call).run calls).display = (w.display.step call).run calls
      rw [hrest, hstep]

/-! ### A window that waits -/

/-- A layer-shell window before its first configure event. Nothing was drawn yet. -/
structure Waiting (w : CandidateWindow) : Prop where
  backend : w.backend = .layerShell
  configured : w.configured = false
  attached : w.attached = none
  state : w.state = .empty

/-- The slot may hold anything. -/
theorem Waiting.withPending {w : CandidateWindow} (h : Waiting w) (pending : Option PendingDraw) :
    Waiting { w with pending := pending } :=
  ⟨h.backend, h.configured, h.attached, h.state⟩

/-- A call on a waiting window is a write to its slot, or nothing. No buffer is made before the
window is configured. -/
theorem Waiting.step_eq {w : CandidateWindow} (h : Waiting w) (call : Call) :
    w.step call = { w with
      pending := match call, w.pending with
        | .showCandidates candidates focused selKeys _, _ =>
            some (.candidates candidates focused selKeys)
        | .showStatus indicator _, _ => some (.status indicator)
        | .hideCandidates, some (.candidates _ _ _) => none
        | .hideStatus, some (.status _) => none
        | _, pending => pending } := by
  obtain ⟨backend, attached, candBuf, indBuf, configured, pending, state⟩ := w
  obtain ⟨rfl, rfl, rfl, rfl⟩ := h
  cases call with
  | showCandidates candidates focused selKeys shm => rfl
  | showStatus indicator shm => rfl
  | hideCandidates | hideStatus => rcases pending with _ | ⟨_ | _⟩ <;> rfl

/-- A call keeps the window waiting. -/
theorem Waiting.step {w : CandidateWindow} (h : Waiting w) (call : Call) :
    Waiting (w.step call) := by
  rw [h.step_eq call]
  exact h.withPending _

/-- So does a run. -/
theorem Waiting.run {w : CandidateWindow} (h : Waiting w) (calls : List Call) :
    Waiting (w.run calls) := by
  induction calls generalizing w with
  | nil => exact h
  | cons call calls ih => exact ih (h.step call)

/-- The call is `showStatus`. -/
def Call.isShowStatus : Call → Bool
  | .showStatus _ _ => true
  | _ => false

/-- The slot follows `Display.step`, but for an indicator that arrives at a list that waits: it
takes the list's place, where a configured window would keep the list. -/
theorem Waiting.planned_step {w : CandidateWindow} (h : Waiting w) {call : Call}
    (hkeeps : call.isShowStatus = true → (planned w.pending).state ≠ .candidates) :
    planned (w.step call).pending = (planned w.pending).step call := by
  rw [h.step_eq call]
  cases call with
  | showCandidates candidates focused selKeys shm => rfl
  | showStatus indicator shm =>
      -- The slot takes the indicator whatever it holds, the display only when it has no list.
      exact (if_neg (hkeeps rfl)).symm
  | hideCandidates => rcases w.pending with _ | ⟨_ | _⟩ <;> rfl
  | hideStatus => rcases w.pending with _ | ⟨_ | _⟩ <;> rfl

/-- The first configure event draws the slot. An empty slot leaves the window blank. From then
on the window is drawable, whatever was in the slot. -/
theorem Waiting.configure {w : CandidateWindow} (h : Waiting w) :
    Drawable (w.handleConfigure true) ∧
      (w.handleConfigure true).display = planned w.pending := by
  -- nothing has been attached while the window waited, the buffer of an indicator neither
  have hcleared : Drawable { w with configured := true, pending := none } := by
    refine ⟨h.backend, rfl, ?_⟩
    show w.attached ≠ some .ind
    rw [h.attached]
    decide
  cases hpending : w.pending with
  | none =>
      simp only [handleConfigure, h.configured, hpending]
      refine ⟨hcleared, ?_⟩
      simp [display, shown, h.attached, h.state, planned, Display.blank]
  | some draw =>
      cases draw with
      | candidates candidates focused selKeys =>
          simp only [handleConfigure, h.configured, hpending]
          refine ⟨(hcleared.doDrawCandidates _ _ _ _).withState _, ?_⟩
          simp [display, shown_doDrawCandidates, planned, Display.ofCandidates]
      | status indicator =>
          simp only [handleConfigure, h.configured, hpending]
          refine ⟨(hcleared.doDrawStatus _ _).withState _, ?_⟩
          simp [display, shown_doDrawStatus hcleared.backend, planned, Display.ofStatus]

/-! ### Runs -/

/-- A run in two parts. -/
theorem run_append (w : CandidateWindow) (before after : List Call) :
    w.run (before ++ after) = (w.run before).run after :=
  List.foldl_append

/-- The same for displays. -/
theorem Display.run_append (display : Display) (before after : List Call) :
    display.run (before ++ after) = (display.run before).run after :=
  List.foldl_append

/-- A list is to be shown after the call, when `awaits` says this of the calls before it. -/
def awaitsAfter (awaits : Bool) : Call → Bool
  | .showCandidates _ _ _ _ => true
  | .hideCandidates => false
  | _ => awaits

/-- The last `show` or `hide` among the calls is a `show`. -/
def awaitsCandidates (calls : List Call) : Bool :=
  calls.foldl awaitsAfter false

/-- Whether a list is shown is what `awaitsAfter` keeps track of: a list begins it, a `hide`
ends it, and an indicator does neither. -/
theorem Display.state_step_iff {display : Display} {awaits : Bool}
    (h : display.state = .candidates ↔ awaits = true) (call : Call) :
    (display.step call).state = .candidates ↔ awaitsAfter awaits call = true := by
  cases call with
  | showCandidates candidates focused selKeys shm => simp [Display.step, ofCandidates, awaitsAfter]
  | hideCandidates =>
      by_cases hstate : display.state = .candidates
      · simp [Display.step, hstate, blank, awaitsAfter]
      · simp [Display.step, hstate, awaitsAfter]
  | showStatus indicator shm =>
      by_cases hstate : display.state = .candidates
      · simpa [Display.step, hstate, awaitsAfter] using h
      · simpa [Display.step, hstate, ofStatus, awaitsAfter] using h
  | hideStatus =>
      by_cases hstate : display.state = .status
      · simpa [Display.step, hstate, blank, awaitsAfter] using h
      · simpa [Display.step, hstate, awaitsAfter] using h

/-- Over a run, from nothing: a list is shown when one has been sent and not been hidden
since. -/
theorem Display.state_run_iff (calls : List Call) :
    (Display.blank.run calls).state = .candidates ↔ awaitsCandidates calls = true := by
  -- by induction, for any display and any flag that tells whether it is a list
  have key : ∀ (calls : List Call) (display : Display) (awaits : Bool),
      (display.state = .candidates ↔ awaits = true) →
        ((display.run calls).state = .candidates ↔ calls.foldl awaitsAfter awaits = true) := by
    intro calls
    induction calls with
    | nil => intro display awaits h; exact h
    | cons call calls ih =>
        intro display awaits h
        exact ih (display.step call) (awaitsAfter awaits call) (Display.state_step_iff h call)
  exact key calls Display.blank false (by decide)

/-- No `showStatus` among the calls comes while a candidate list is to be shown. -/
def StatusWaitsForHide (calls : List Call) : Prop :=
  ∀ made indicator shm, made ++ [.showStatus indicator shm] <+: calls →
    awaitsCandidates made = false

/-- The slot follows the display over such calls. The induction takes the last call off: the
condition is about the calls before each `showStatus`. Each call overwrites the slot, as it does
the display, but for the one that the condition excludes. -/
theorem Waiting.planned_run {w : CandidateWindow} (h : Waiting w) (hpending : w.pending = none)
    {calls : List Call} (hwaits : StatusWaitsForHide calls) :
    planned (w.run calls).pending = Display.blank.run calls := by
  induction calls using List.reverseRecOn with
  | nil => exact congrArg planned hpending
  | append_singleton made call ih =>
      have hmade : planned (w.run made).pending = Display.blank.run made :=
        ih fun m indicator shm hm => hwaits m indicator shm (hm.trans (List.prefix_append _ _))
      -- an indicator is asked for, so by the condition no candidates are to be shown
      have hkeeps : call.isShowStatus = true →
          (planned (w.run made).pending).state ≠ .candidates := by
        intro hstatus hstate
        rw [hmade, Display.state_run_iff] at hstate
        cases call with
        | showStatus indicator shm =>
            have hfree := hwaits made indicator shm (List.prefix_refl _)
            exact absurd hstate (by simp [hfree])
        | showCandidates | hideCandidates | hideStatus => exact absurd hstatus Bool.false_ne_true
      rw [run_append, Display.run_append, ← hmade]
      exact (h.run made).planned_step hkeeps

/-! ### A configured window -/

/-- Drawing does not configure a window. -/
@[simp] theorem configured_doDrawCandidates (w : CandidateWindow)
    (candidates : List IpcCandidate) (focused : UInt32) (selKeys : Str) (shm : Bool) :
    (w.doDrawCandidates candidates focused selKeys shm).configured = w.configured := by
  simp only [doDrawCandidates, attachAndCommit]
  split <;> rfl

/-- Nor does drawing the indicator. -/
@[simp] theorem configured_doDrawStatus (w : CandidateWindow) (indicator : Str) (shm : Bool) :
    (w.doDrawStatus indicator shm).configured = w.configured := by
  simp only [doDrawStatus, attachAndCommit]
  repeat' split
  all_goals rfl

/-- Nor does hiding the list. -/
@[simp] theorem configured_fadeOutCandBuf (w : CandidateWindow) :
    w.fadeOutCandBuf.configured = w.configured := by
  simp only [fadeOutCandBuf, attachAndCommit]
  split <;> rfl

/-- Nor does hiding the indicator. -/
@[simp] theorem configured_fadeOutIndBuf (w : CandidateWindow) :
    w.fadeOutIndBuf.configured = w.configured := by
  simp only [fadeOutIndBuf, attachAndCommit]
  repeat' split
  all_goals rfl

/-- A configured window stays configured, whatever it is called with. -/
theorem step_configured {w : CandidateWindow} (h : w.configured = true) (call : Call) :
    (w.step call).configured = true := by
  cases call with
  | showCandidates candidates focused selKeys shm => simp [step, «show», h]
  | hideCandidates => by_cases hstate : w.state = .candidates <;> simp [step, hide, h, hstate]
  | showStatus indicator shm =>
      by_cases hstate : w.state = .candidates <;> simp [step, showStatus, h, hstate]
  | hideStatus => by_cases hstate : w.state = .status <;> simp [step, hideStatus, h, hstate]

/-- Over a run too. -/
theorem run_configured {w : CandidateWindow} (h : w.configured = true) (calls : List Call) :
    (w.run calls).configured = true := by
  induction calls generalizing w with
  | nil => exact h
  | cons call calls ih => exact ih (step_configured h call)

/-- A second configure event changes nothing. -/
theorem handleConfigure_of_configured {w : CandidateWindow} (h : w.configured = true)
    (shm : Bool) : w.handleConfigure shm = w := by
  obtain ⟨backend, attached, candBuf, indBuf, configured, pending, state⟩ := w
  obtain rfl : configured = true := h
  rfl

/-! ### The first configure event -/

/-- In every state of the run of `before` and then `after`, where the first configure event comes
between the two, or in the state itself while it is still to come, the display is that of a
window configured before the first call. -/
def ShowsAsConfiguredFirst (w : CandidateWindow) (before after : List Call) : Prop :=
  (∀ made, made <+: before →
    ((w.run made).handleConfigure true).display = ((w.handleConfigure true).run made).display) ∧
  ∀ made, made <+: after →
    (((w.run before).handleConfigure true).run made).display =
      ((w.handleConfigure true).run (before ++ made)).display

/-- For a configured window the event makes no difference, so it may come at any place of the
run. -/
theorem ShowsAsConfiguredFirst.of_configured {w : CandidateWindow} (h : w.configured = true)
    (before after : List Call) : ShowsAsConfiguredFirst w before after := by
  refine ⟨?_, ?_⟩
  · intro made _
    rw [handleConfigure_of_configured h, handleConfigure_of_configured (run_configured h made)]
  · intro made _
    rw [handleConfigure_of_configured h, handleConfigure_of_configured (run_configured h before),
      run_append]

/-- A layer-shell window as it is created. -/
theorem Waiting.of_new : Waiting ⟨.layerShell, none, none, none, false, none, .empty⟩ :=
  ⟨rfl, rfl, rfl, rfl⟩

section Fresh
variable {w : CandidateWindow} {before after : List Call}

/-- A fresh window configured first shows what `Display.step` makes of nothing. -/
theorem Waiting.display_configureFirst (h : Waiting w) (hpending : w.pending = none)
    (hmade : ∀ call ∈ before, call.buffersMade = true) :
    ((w.handleConfigure true).run before).display = Display.blank.run before := by
  rw [h.configure.1.display_run hmade, h.configure.2, hpending]
  rfl

/-- Nor does it for a window that waits, when no indicator comes too early. Before the configure
event nothing is drawn, and the slot is what will be. After it both windows are drawable and get
the same calls. -/
theorem Waiting.showsAsConfiguredFirst (h : Waiting w) (hpending : w.pending = none)
    (hmade : ∀ call ∈ before ++ after, call.buffersMade = true)
    (hwaits : StatusWaitsForHide before) : ShowsAsConfiguredFirst w before after := by
  refine ⟨?_, ?_⟩
  · intro made hinit
    have hcalls : ∀ call ∈ made, call.buffersMade = true := fun call hc =>
      hmade call (List.mem_append_left _ (hinit.subset hc))
    have hslot : planned (w.run made).pending = Display.blank.run made :=
      h.planned_run hpending fun m indicator shm hm =>
        hwaits m indicator shm (hm.trans hinit)
    rw [(h.run made).configure.2, hslot, h.display_configureFirst hpending hcalls]
  · intro made hinit
    have hcalls : ∀ call ∈ before ++ made, call.buffersMade = true := by
      intro call hc
      apply hmade call
      rcases List.mem_append.mp hc with hc | hc
      · exact List.mem_append_left _ hc
      · exact List.mem_append_right _ (hinit.subset hc)
    have hlate := (h.run before).configure
    rw [hlate.1.display_run fun call hc => hcalls call (List.mem_append_right _ hc), hlate.2,
      h.planned_run hpending hwaits, h.display_configureFirst hpending hcalls,
      Display.run_append]

/-- An indicator that arrives at a list that waits is shown in its place, where a window
configured first keeps the list. -/
theorem Waiting.statusWaitsForHide (h : Waiting w) (hpending : w.pending = none)
    (hmade : ∀ call ∈ before, call.buffersMade = true)
    (hshows : ShowsAsConfiguredFirst w before after) : StatusWaitsForHide before := by
  intro made indicator shm hinit
  have hcalls : ∀ call ∈ made ++ [.showStatus indicator shm], call.buffersMade = true :=
    fun call hc => hmade call (hinit.subset hc)
  -- what the late window shows after the indicator
  have hlate : planned (w.run (made ++ [.showStatus indicator shm])).pending =
      Display.ofStatus indicator := by
    rw [run_append]
    show planned ((w.run made).step (.showStatus indicator shm)).pending = _
    rw [(h.run made).step_eq]
    rfl
  have hshown := hshows.1 _ hinit
  rw [(h.run _).configure.2, hlate, h.display_configureFirst hpending hcalls,
    Display.run_append] at hshown
  by_contra hawaits
  have hlist : (Display.blank.run made).state = .candidates :=
    (Display.state_run_iff made).mpr (by simpa using hawaits)
  have hkept : (Display.blank.run made).run [.showStatus indicator shm] =
      Display.blank.run made := if_pos hlist
  rw [hkept] at hshown
  rw [← hshown] at hlist
  exact DisplayState.noConfusion hlist

end Fresh

/-- In every run of calls whose buffers can be made, the late configure shows what an early one
shows in every state, exactly when the window is an overlay or no `showStatus` comes before the
configure event while a candidate list is to be shown. The calls before and after the event are
any. -/
theorem lateConfigure_iff {layerShell inputPanel : Bool} {w : CandidateWindow}
    (hnew : new layerShell inputPanel = some w) {before after : List Call}
    (hmade : ∀ call ∈ before ++ after, call.buffersMade = true) :
    ShowsAsConfiguredFirst w before after ↔ inputPanel = true ∨ StatusWaitsForHide before := by
  cases inputPanel with
  | true =>
      have hw : w.configured = true := by
        obtain rfl := Option.some.inj hnew
        rfl
      exact iff_of_true (.of_configured hw before after) (.inl rfl)
  | false =>
      -- without an input panel a window is made on a layer shell only, and it waits at first
      have hfresh : Waiting w ∧ w.pending = none := by
        cases layerShell with
        | false => exact nomatch hnew
        | true =>
            obtain rfl := Option.some.inj hnew
            exact ⟨.of_new, rfl⟩
      obtain ⟨hwaiting, hpending⟩ := hfresh
      constructor
      · intro hshows
        exact .inr (hwaiting.statusWaitsForHide hpending
          (fun call hc => hmade call (List.mem_append_left _ hc)) hshows)
      · intro hcond
        rcases hcond with hpanel | hwaits
        · exact absurd hpanel Bool.false_ne_true
        · exact hwaiting.showsAsConfiguredFirst hpending hmade hwaits

/-- The condition holds of an indicator that comes after the `hide`: no list waits when it
arrives. -/
theorem lateConfigure_iff_afterHide :
    ∃ w, new true false = some w ∧
      ShowsAsConfiguredFirst w
        [.showCandidates [⟨['亜'], []⟩] 0 ['a'] true, .hideCandidates, .showStatus ['あ'] true]
        [.hideStatus] := by
  have hnew : new true false = some ⟨.layerShell, none, none, none, false, none, .empty⟩ := rfl
  refine ⟨_, hnew, (lateConfigure_iff hnew (List.all_eq_true.mp rfl)).2 (.inr ?_)⟩
  intro made indicator shm hinit
  obtain ⟨rest, hrest⟩ := hinit
  -- the only `showStatus` is the third call
  match made, hrest with
  | [], hrest => simp at hrest
  | [_], hrest => simp at hrest
  | [_, _], hrest =>
      simp only [List.cons_append, List.nil_append, List.cons.injEq] at hrest
      obtain ⟨rfl, rfl, -⟩ := hrest
      rfl
  | _ :: _ :: _ :: _, hrest => simp at hrest

/-- The same without the `hide`: the late window shows the indicator, the other one the list. -/
theorem list_replaced :
    ∃ w, new true false = some w ∧
      ((w.run [.showCandidates [⟨['亜'], []⟩] 0 ['a'] true, .showStatus ['あ'] true]
        ).handleConfigure true).display = .ofStatus ['あ'] ∧
      ((w.handleConfigure true).run
        [.showCandidates [⟨['亜'], []⟩] 0 ['a'] true, .showStatus ['あ'] true]).display =
          .ofCandidates [⟨['亜'], []⟩] 0 ['a'] ∧
      Display.ofStatus ['あ'] ≠ .ofCandidates [⟨['亜'], []⟩] 0 ['a'] :=
  ⟨_, rfl, by decide, by decide, by decide⟩

end Y2Skk.Wayland.CandidateWindow
