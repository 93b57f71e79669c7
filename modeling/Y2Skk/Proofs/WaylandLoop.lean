import Mathlib.Data.List.ReduceOption
import Y2Skk.Ipc.WaylandLoop
import Y2Skk.Proofs.KeyPairs
import Y2Skk.Proofs.LateConfigure

/-!
# `Y2Skk.Proofs.WaylandLoop`: the timers of the Wayland adapter

The adapter has an event loop and timer threads that write to a pipe: one for each key
that repeats, and one for each indicator that is to be hidden. A thread is cancelled by a
flag that it reads before it writes, so it may be cancelled too late. Two things are true
in whatever order they take their steps.

## The indicator

An indicator that a timer is to hide does not stay. `Promised` is the invariant: as long
as a window has an indicator with a timer, the hide is due. It may be with the thread, in
the pipe, or with the drain that is going on; the drain that has read it leaves no window
with an indicator. `Sound` says besides that the timer whose flag the adapter holds is the
only status timer that is not cancelled. `indicator_hides_of_run` has both.

## The repeat

The thread of a repeat that has ended writes at most once more: `owed` counts the ticks
that are still to come from such threads, and `owed_moves` bounds what a step plays of
them. `repeatTicks_of_run` is the bound for a run, and says that late ticks ask nothing of
the daemon while no key repeats.

## Which threads

`Sound` says which threads the flags of the adapter belong to. `WaylandState.starts` is
told apart from the repeats that go on by `repeatActive_of_starts` and
`repeatActive_of_not_starts`, handler by handler. `step_cases` says in which ways a step
changes the loop, and each invariant is a case analysis over them.
-/

set_option autoImplicit false

namespace Y2Skk.Wayland

open Timers Transition
open Utf8 (Str)

/-! ### Which repeat a handler leaves -/

namespace WaylandState
variable {ξ : Type}

/-- A key that starts a thread is the key that repeats. -/
theorem startRepeat_starts {s : WaylandState ξ} {consumed fdCloned : Bool}
    (h : s.startsThread consumed fdCloned = true) (keycode keysym : UInt32) :
    (s.startRepeat keycode keysym consumed fdCloned).1.repeatActive.isSome := by
  simp only [startsThread, Bool.and_eq_true, decide_eq_true_eq] at h
  obtain ⟨⟨hconsumed, hrate⟩, hcloned⟩ := h
  simp [startRepeat, hconsumed, hrate, hcloned]

/-- A key that starts no thread ends the repeat that was there. `start_repeat` stops every
repeat before it looks at the rate and at the pipe, so its early returns all leave the server
without one. -/
theorem startRepeat_not_starts {s : WaylandState ξ} {consumed fdCloned : Bool}
    (h : s.startsThread consumed fdCloned = false) (keycode keysym : UInt32) :
    (s.startRepeat keycode keysym consumed fdCloned).1.repeatActive = none := by
  unfold startRepeat
  dsimp only
  split
  · exact stopAllRepeat_repeatActive s
  · split
    · exact stopAllRepeat_repeatActive s
    · split
      · exact stopAllRepeat_repeatActive s
      · rename_i hconsumed hrate hcloned
        rw [stopAllRepeat_repeatRate] at hrate
        simp_all [startsThread]

/-- Without a thread of its own, a repeat is over or the one that was there before. -/
def Continues (s s' : WaylandState ξ) : Prop :=
  s'.repeatActive = none ∨ s'.repeatActive = s.repeatActive

/-- A repeat that is stopped is over. -/
theorem continues_stopAllRepeat (s : WaylandState ξ) : s.Continues s.stopAllRepeat.1 :=
  .inl (stopAllRepeat_repeatActive s)

/-- Ticks leave the repeat alone, or find that it is over. They are played one after the other,
and the first one the daemon does not consume stops the repeat; the induction is on the ticks
that are left. -/
theorem continues_ticks (s : WaylandState ξ) (daemons : List Daemon) :
    s.Continues (s.ticks daemons).1 := by
  induction daemons with
  | nil => exact .inr rfl
  | cons daemon daemons ih =>
      unfold ticks
      cases hrepeat : s.repeatActive with
      | none => exact .inl hrepeat
      | some repeating =>
          dsimp only
          split
          · split
            · exact ih
            · exact continues_stopAllRepeat s
          · exact continues_stopAllRepeat s

/-- Without a repeat, ticks do nothing. -/
theorem ticks_of_none {s : WaylandState ξ} (h : s.repeatActive = none) (daemons : List Daemon) :
    s.ticks daemons = (s, []) := by
  cases daemons with
  | nil => rfl
  | cons daemon daemons => simp [ticks, h]

variable [Xkb ξ]

/-- A key handed to the daemon that starts a thread repeats: the server has a repeat afterwards,
which is the one the new thread serves. -/
theorem handleKey_starts {s : WaylandState ξ} {event : WlKey} {daemon : Daemon} {fdCloned : Bool}
    (h : s.handleKeyStarts event daemon fdCloned = true) :
    (s.handleKey event daemon fdCloned).1.repeatActive.isSome := by
  unfold handleKeyStarts at h
  dsimp only at h
  split at h
  · rename_i hrepeats
    rw [handleKey_eq, if_pos hrepeats]
    exact startRepeat_starts h _ _
  · cases h

/-- Otherwise the repeat is over, or it is the one that was there before. A key that the keymap
lets repeat has gone through `start_repeat`, and any other leaves the field alone. -/
theorem handleKey_not_starts {s : WaylandState ξ} {event : WlKey} {daemon : Daemon}
    {fdCloned : Bool} (h : s.handleKeyStarts event daemon fdCloned = false) :
    s.Continues (s.handleKey event daemon fdCloned).1 := by
  unfold handleKeyStarts at h
  dsimp only at h
  rw [handleKey_eq]
  split at h
  · rename_i hrepeats
    rw [if_pos hrepeats]
    exact .inl (startRepeat_not_starts h _ _)
  · rename_i hrepeats
    rw [if_neg hrepeats]
    exact .inr rfl

/-- An input that starts a thread leaves a repeat. Only the press of a key starts one: of a key
that was up, or of one that is pressed again while its release is waited for. -/
theorem repeatActive_of_starts {s : WaylandState ξ} {input : Input ξ} (h : s.starts input = true) :
    (s.step input).1.repeatActive.isSome := by
  cases input with
  | key event daemon fdCloned now =>
      cases hstate : event.state with
      | released => simp [starts, hstate] at h
      | pressed =>
          have hstarts : s.keyPressedStarts event daemon fdCloned = true := by
            simpa [starts, hstate] using h
          have hstep : s.step (.key event daemon fdCloned now) =
              s.keyPressed event daemon fdCloned := by
            simp only [step, onKeyEvent, hstate]
          rw [hstep]
          unfold keyPressedStarts at hstarts
          unfold keyPressed
          split at hstarts
          · -- A key that was up is pressed; below, one that is pressed again while its release
            -- waits.
            rename_i hfresh
            rw [if_pos hfresh]
            exact handleKey_starts hstarts
          · rename_i hdown
            rw [if_neg hdown]
            split at hstarts
            · rename_i hretap
              rw [if_pos hretap]
              exact handleKey_starts hstarts
            · cases hstarts
  | _ => cases h

/-- An event that starts no thread leaves the repeat that was there, or none. So the thread in
the cancel flag of the loop is that of the server's repeat, or there is no repeat any more. -/
theorem repeatActive_of_not_starts {s : WaylandState ξ} {input : Input ξ}
    (h : s.starts input = false) : s.Continues (s.step input).1 := by
  cases input with
  | activate => exact .inr rfl
  | deactivate => exact continues_stopAllRepeat s
  | commitState serial => exact .inr rfl
  | reset =>
      right
      simp only [step]
      split <;> rfl
  | keymap xkb => cases xkb <;> exact .inr rfl
  | modifiers depressed latched locked group =>
      simp only [step, modifiers]
      split
      · exact .inl (stopAllRepeat_repeatActive _)
      · exact .inr rfl
  | repeatInfo rate delay =>
      right
      simp only [step]
      split <;> rfl
  | seatRepeatInfo rate delay => exact .inr rfl
  | graceCheck now =>
      simp only [step, graceCheck]
      split
      · split
        · exact continues_stopAllRepeat s
        · exact .inr rfl
      · exact .inr rfl
  | ticks daemons => exact continues_ticks s daemons
  | key event daemon fdCloned now =>
      cases hstate : event.state with
      | pressed =>
          have hstarts : s.keyPressedStarts event daemon fdCloned = false := by
            simpa [starts, hstate] using h
          have hstep : s.step (.key event daemon fdCloned now) =
              s.keyPressed event daemon fdCloned := by
            simp only [step, onKeyEvent, hstate]
          rw [hstep]
          unfold keyPressedStarts at hstarts
          unfold keyPressed
          split at hstarts
          · rename_i hfresh
            rw [if_pos hfresh]
            exact handleKey_not_starts hstarts
          · rename_i hdown
            rw [if_neg hdown]
            split at hstarts
            · rename_i hretap
              rw [if_pos hretap]
              -- The old repeat is stopped first.
              left
              rcases handleKey_not_starts hstarts with hnone | hsame
              · exact hnone
              · exact hsame.trans (stopAllRepeat_repeatActive s)
            · rename_i hstray
              rw [if_neg hstray]
              exact .inr rfl
      | released =>
          have hstep : s.step (.key event daemon fdCloned now) =
              s.keyReleased event daemon fdCloned now := by
            simp only [step, onKeyEvent, hstate]
          rw [hstep]
          unfold keyReleased
          split
          · exact .inr rfl
          · split
            · exact .inr rfl
            · -- A release is handled without a repeat.
              right
              rw [handleKey_eq, if_neg (by simp [hstate])]

end WaylandState

/-! ### Indicators on windows -/

namespace CandidateWindow
variable {w : CandidateWindow}

/-- The window shows the indicator, or will when it is configured. -/
def hasIndicator (w : CandidateWindow) : Bool :=
  if w.configured then w.state = .status
  else
    match w.pending with
    | some (.status _) => true
    | _ => false

/-- A window that is not configured shows nothing yet. -/
def Fresh (w : CandidateWindow) : Prop := w.configured = false → w.state = .empty

/-- A configured window may show anything. -/
theorem fresh_of_configured (h : w.configured = true) : w.Fresh := by
  intro hnot
  rw [h] at hnot
  cases hnot

/-- A new window shows nothing and has no indicator waiting, whichever of the two protocols it
is made with. -/
theorem fresh_new {layerShell inputPanel : Bool} (h : new layerShell inputPanel = some w) :
    w.Fresh ∧ w.hasIndicator = false := by
  unfold new at h
  split at h
  · cases h
    exact ⟨fun hnot => rfl, rfl⟩
  · split at h
    · cases h
      exact ⟨fun hnot => rfl, rfl⟩
    · cases h

/-- A list takes the place of the indicator. -/
theorem hasIndicator_show (w : CandidateWindow) (candidates : List IpcCandidate) (focused : UInt32)
    (selKeys : Str) (shm : Bool) :
    (w.show candidates focused selKeys shm).hasIndicator = false := by
  cases hc : w.configured with
  | true => simp [«show», hasIndicator, hc]
  | false => simp [«show», hasIndicator, hc]

/-- A list waits for the window to be configured: until then it is kept as what is pending, and
nothing is drawn. -/
theorem Fresh.show (h : w.Fresh) (candidates : List IpcCandidate) (focused : UInt32)
    (selKeys : Str) (shm : Bool) : (w.show candidates focused selKeys shm).Fresh := by
  cases hc : w.configured with
  | true =>
      exact fresh_of_configured
        (step_configured hc (.showCandidates candidates focused selKeys shm))
  | false =>
      intro _
      simp [CandidateWindow.show, hc, h hc]

/-- To hide a list leaves the indicator alone. -/
theorem hasIndicator_hide (w : CandidateWindow) : w.hide.hasIndicator = w.hasIndicator := by
  cases hc : w.configured with
  | true => by_cases hs : w.state = .candidates <;> simp [hide, hasIndicator, hc, hs]
  | false =>
      cases hp : w.pending with
      | none => simp [hide, hasIndicator, hc, hp]
      | some draw => cases draw <;> simp [hide, hasIndicator, hc, hp]

/-- A window that shows nothing shows nothing when it is hidden. -/
theorem Fresh.hide (h : w.Fresh) : w.hide.Fresh := by
  cases hc : w.configured with
  | true => exact fresh_of_configured (step_configured hc .hideCandidates)
  | false =>
      intro _
      simp only [CandidateWindow.hide, hc, Bool.not_false, if_true]
      split <;> exact h hc

/-- An indicator waits for the window to be configured. -/
theorem Fresh.showStatus (h : w.Fresh) (indicator : Str) (shm : Bool) :
    (w.showStatus indicator shm).Fresh := by
  cases hc : w.configured with
  | true => exact fresh_of_configured (step_configured hc (.showStatus indicator shm))
  | false =>
      intro _
      simp [CandidateWindow.showStatus, hc, h hc]

/-- The timer leaves no indicator, neither on the window nor waiting for it. -/
theorem hasIndicator_hideStatus (w : CandidateWindow) : w.hideStatus.hasIndicator = false := by
  cases hc : w.configured with
  | true => by_cases hs : w.state = .status <;> simp [hideStatus, hasIndicator, hc, hs]
  | false =>
      cases hp : w.pending with
      | none => simp [hideStatus, hasIndicator, hc, hp]
      | some draw => cases draw <;> simp [hideStatus, hasIndicator, hc, hp]

/-- A window that shows nothing shows nothing when its indicator is hidden. -/
theorem Fresh.hideStatus (h : w.Fresh) : w.hideStatus.Fresh := by
  cases hc : w.configured with
  | true => exact fresh_of_configured (step_configured hc .hideStatus)
  | false =>
      intro _
      simp only [CandidateWindow.hideStatus, hc, Bool.not_false, if_true]
      split <;> exact h hc

/-- A window is configured by its configure event, whether or not there was something waiting to
be drawn. -/
theorem configured_handleConfigure (w : CandidateWindow) (shm : Bool) :
    (w.handleConfigure shm).configured = true := by
  cases hc : w.configured with
  | true => rw [handleConfigure_of_configured hc, hc]
  | false =>
      cases hp : w.pending with
      | none => simp [handleConfigure, hc, hp]
      | some draw => cases draw <;> simp [handleConfigure, hc, hp]

/-- A configure event shows no other indicator than the one that was waiting, so whether the
window has an indicator does not change. -/
theorem Fresh.hasIndicator_handleConfigure (h : w.Fresh) (shm : Bool) :
    (w.handleConfigure shm).hasIndicator = w.hasIndicator := by
  cases hc : w.configured with
  | true => rw [handleConfigure_of_configured hc]
  | false =>
      cases hp : w.pending with
      | none => simp [handleConfigure, hasIndicator, hc, hp, h hc]
      | some draw => cases draw <;> simp [handleConfigure, hasIndicator, hc, hp]

end CandidateWindow

/-- The drain that is going on has read that the indicator is to be hidden. -/
def Phase.hides : Phase → Bool
  | .draining hideStatus _ => hideStatus
  | .sending _ => false

/-- The ticks that the drain which is going on has counted. -/
def Phase.counted : Phase → Nat
  | .draining _ repeatTicks => repeatTicks
  | .sending _ => 0

/-- What is left to send. -/
def Phase.requests : Phase → List Request
  | .sending requests => requests
  | .draining _ _ => []

namespace LoopOutput

/-- The ticks that are played. -/
def ticks : LoopOutput → Nat
  | .played repeatTicks => repeatTicks
  | _ => 0

/-- The thread of the repeat writes a tick. -/
def isTickOf (owner : Option Nat) : LoopOutput → Bool
  | .wrote i tag => owner = some i ∧ tag = .keyRepeat
  | _ => false

end LoopOutput

/-- The ticks that are played in a run. -/
def ticksPlayed (outs : List LoopOutput) : Nat := (outs.map LoopOutput.ticks).sum

/-- The ticks that the thread of a repeat writes in a run. -/
def ticksBy (owner : Option Nat) (outs : List LoopOutput) : Nat :=
  outs.countP (LoopOutput.isTickOf owner)

/-- The ticks of two runs add up. -/
@[simp] theorem ticksPlayed_append (outs outs' : List LoopOutput) :
    ticksPlayed (outs ++ outs') = ticksPlayed outs + ticksPlayed outs' := by
  simp [ticksPlayed]

/-- And so do those that a thread writes. -/
@[simp] theorem ticksBy_append (owner : Option Nat) (outs outs' : List LoopOutput) :
    ticksBy owner (outs ++ outs') = ticksBy owner outs + ticksBy owner outs' := by
  simp [ticksBy]

/-- Outputs that play nothing play nothing together. It is used for the steps that only send
requests or redraw windows. -/
theorem ticksPlayed_eq_zero {outs : List LoopOutput} (h : ∀ o ∈ outs, o.ticks = 0) :
    ticksPlayed outs = 0 := by
  induction outs with
  | nil => rfl
  | cons o outs ih =>
      have hhead := h o (by simp)
      have htail := ih fun o' ho' => h o' (by simp [ho'])
      show o.ticks + ticksPlayed outs = 0
      omega

/-- To write a tick is not to play it. -/
theorem ticksPlayed_wrote (i : Nat) (tags : List TimerTag) :
    ticksPlayed (tags.map (.wrote i)) = 0 := by
  refine ticksPlayed_eq_zero fun o ho => ?_
  obtain ⟨tag, _, rfl⟩ := List.mem_map.mp ho
  rfl

/-- What a thread writes counts when it is that of the repeat: all its repeat tags are then its
ticks, and for any other owner none is. -/
theorem ticksBy_wrote (owner : Option Nat) (i : Nat) (tags : List TimerTag) :
    ticksBy owner (tags.map (.wrote i)) =
      if owner = some i then tags.count .keyRepeat else 0 := by
  unfold ticksBy
  rw [List.countP_map]
  by_cases howner : owner = some i
  · rw [if_pos howner]
    refine List.countP_congr fun tag _ => ?_
    simp [LoopOutput.isTickOf, howner]
  · rw [if_neg howner]
    refine List.countP_eq_zero.mpr fun tag _ => ?_
    simp [LoopOutput.isTickOf, howner]

namespace EventLoop
variable {ξ : Type}

/-! ### The threads the flags belong to -/

/-- The flags the adapter holds are those of its threads, and no other thread goes uncancelled. -/
structure Sound (s : EventLoop ξ) : Prop where
  status : s.timers.OwnedBy .statusHide s.statusCancel
  repeats : s.timers.OwnedBy .keyRepeat s.repeatCancel
  repeating : s.repeatCancel.isSome = s.server.repeatActive.isSome
  fresh : ∀ w ∈ s.windows, w.Fresh

/-- The repeats after a handler, if `starts` says whether it has started one. A new thread takes
the place of the owner, whose flag is set. Without a new one the owner goes when the repeat has
ended, and stays otherwise. -/
theorem Sound.followRepeat {s : EventLoop ξ} (h : s.Sound) {server : WaylandState ξ}
    {starts : Bool} (hstarts : starts = true → server.repeatActive.isSome)
    (hnot : starts = false → s.server.Continues server) :
    (s.followRepeat server starts).Sound := by
  cases starts with
  -- A thread is started: the flag of the old owner is set first, and the new one is the owner.
  | true =>
      have hothers := h.repeats.cancel_owner
      have hstatus := h.status.cancel s.repeatCancel
      refine ⟨?_, ?_, ?_, h.fresh⟩
      · exact hstatus.spawn_other (by decide) true
      · exact hothers.spawn true
      · exact (hstarts rfl).symm
  | false =>
      -- None is started: without a repeating key the flag is set, and with one nothing changes.
      cases hserver : server.repeatActive with
      | none =>
          have heq : s.followRepeat server false =
              { s with
                  server := server
                  timers := s.timers.cancel s.repeatCancel
                  repeatCancel := none } := by
            simp [EventLoop.followRepeat, hserver]
          rw [heq]
          exact ⟨h.status.cancel _, h.repeats.cancel_owner, by simp [hserver], h.fresh⟩
      | some repeating =>
          have heq : s.followRepeat server false = { s with server := server } := by
            simp [EventLoop.followRepeat, hserver]
          have hsame : server.repeatActive = s.server.repeatActive := by
            rcases hnot rfl with hnone | hsame
            · rw [hserver] at hnone
              cases hnone
            · exact hsame
          rw [heq]
          exact ⟨h.status, h.repeats, by rw [h.repeating, hsame], h.fresh⟩

/-! ### What a step can do -/

/-- The windows were drawn anew, without a new indicator. -/
structure Redrawn (windows windows' : List CandidateWindow) : Prop where
  hasIndicator : (∃ w ∈ windows', w.hasIndicator = true) → ∃ w ∈ windows, w.hasIndicator = true
  fresh : (∀ w ∈ windows, w.Fresh) → ∀ w ∈ windows', w.Fresh

/-- The ways a step changes the loop, each with the guard under which it is taken. The phase
says which of them are possible: events are handled and the pipe is drained when the loop is
free, requests are sent one by one, and a thread can move at any time. -/
inductive Moves (capacity : Nat) (s : EventLoop ξ) :
    LoopInput ξ → EventLoop ξ → List LoopOutput → Prop
  | idle {input : LoopInput ξ} : Moves capacity s input s []
  | handled {input : Input ξ} {server : WaylandState ξ} {starts : Bool} {sent : List Request} :
      s.phase = .free → (starts = true → server.repeatActive.isSome) →
      (starts = false → s.server.Continues server) →
      Moves capacity s (.handle input)
        { s.followRepeat server starts with phase := .sending sent } []
  | redrawn {input : LoopInput ξ} {windows : List CandidateWindow}
      {before after : List Request} {outs : List LoopOutput} : s.phase = .sending before →
      (∀ o ∈ outs, o.ticks = 0) → Redrawn s.windows windows →
      Moves capacity s input { s with windows := windows, phase := .sending after } outs
  | status {indicator : Str} {timeoutMs : UInt32} {shm : Nat → Bool} {fdCloned : Bool}
      {requests : List Request} :
      s.phase = .sending (.showStatus indicator timeoutMs :: requests) →
      Moves capacity s (.send shm fdCloned)
        { s.updateStatus indicator timeoutMs shm fdCloned with phase := .sending requests }
        [.request (.showStatus indicator timeoutMs)]
  | drain : s.phase = .free → Moves capacity s .drain { s with phase := .draining false 0 } []
  | read {daemons : Nat → Daemon} {hideStatus : Bool} {repeatTicks : Nat} :
      s.phase = .draining hideStatus repeatTicks →
      Moves capacity s (.read daemons) (s.readTags hideStatus repeatTicks) []
  | played {daemons : Nat → Daemon} {hideStatus : Bool} {repeatTicks : Nat} :
      s.phase = .draining hideStatus repeatTicks → s.timers.pipe = [] →
      Moves capacity s (.read daemons) (s.play hideStatus repeatTicks daemons)
        [.played repeatTicks]
  | thread (i : Nat) :
      Moves capacity s (.thread i) { s with timers := s.timers.advance capacity i }
        ((s.timers.written capacity i).map (.wrote i))

/-- Windows that stay as they are have no new indicator. -/
theorem Redrawn.refl (windows : List CandidateWindow) : Redrawn windows windows := ⟨id, id⟩

/-- A list brings no indicator: it takes the place of the one that was drawn, so that an
indicator that is there afterwards was there before. -/
theorem redrawn_show (windows : List CandidateWindow) (candidates : List IpcCandidate)
    (focused : UInt32) (selKeys : Str) (shm : Nat → Bool) :
    Redrawn windows (windows.mapIdx fun i w => w.show candidates focused selKeys (shm i)) where
  hasIndicator := by
    rintro ⟨w, hw, hind⟩
    obtain ⟨i, hlt, rfl⟩ := List.mem_mapIdx.mp hw
    rw [CandidateWindow.hasIndicator_show] at hind
    cases hind
  fresh h w hw := by
    obtain ⟨i, hlt, rfl⟩ := List.mem_mapIdx.mp hw
    exact (h _ (List.getElem_mem hlt)).show candidates focused selKeys (shm i)

/-- Nor does hiding a window bring one: what it shows afterwards is nothing, or what it showed
before. -/
theorem redrawn_hide (windows : List CandidateWindow) :
    Redrawn windows (windows.map CandidateWindow.hide) where
  hasIndicator := by
    rintro ⟨w, hw, hind⟩
    obtain ⟨old, hold, rfl⟩ := List.mem_map.mp hw
    exact ⟨old, hold, by rwa [CandidateWindow.hasIndicator_hide] at hind⟩
  fresh h w hw := by
    obtain ⟨old, hold, rfl⟩ := List.mem_map.mp hw
    exact (h old hold).hide

/-- The windows are fresh before the one of them is configured. An indicator that the event
draws was waiting in the slot of the window, which counts as having one. So no window has an
indicator that had none before. -/
theorem redrawn_handleConfigure {windows : List CandidateWindow} (hfresh : ∀ w ∈ windows, w.Fresh)
    (i : Nat) (shm : Bool) :
    Redrawn windows (windows.modify i fun w => w.handleConfigure shm) where
  hasIndicator := by
    rintro ⟨w, hw, hind⟩
    obtain ⟨j, hj⟩ := List.mem_iff_getElem?.mp hw
    rw [List.getElem?_modify] at hj
    obtain ⟨old, hold, rfl⟩ := Option.map_eq_some_iff.mp hj
    have hmem := List.mem_iff_getElem?.mpr ⟨j, hold⟩
    refine ⟨old, hmem, ?_⟩
    split at hind
    · rwa [(hfresh old hmem).hasIndicator_handleConfigure] at hind
    · exact hind
  fresh h w hw := by
    obtain ⟨j, hj⟩ := List.mem_iff_getElem?.mp hw
    rw [List.getElem?_modify] at hj
    obtain ⟨old, hold, rfl⟩ := Option.map_eq_some_iff.mp hj
    split
    · exact CandidateWindow.fresh_of_configured (CandidateWindow.configured_handleConfigure old shm)
    · exact h old (List.mem_iff_getElem?.mpr ⟨j, hold⟩)

/-- A window is made without an indicator. The windows of the loop are made once, one for an
output, and those that no protocol is there for are left out. -/
theorem fresh_of_mem_init {globals layerShell inputPanel : Bool} {outputs : Nat}
    {w : CandidateWindow} (hw : w ∈ initCandidateWindows globals layerShell inputPanel outputs) :
    w.Fresh ∧ w.hasIndicator = false := by
  unfold initCandidateWindows at hw
  split at hw
  · cases hw
  · have hmem := List.reduceOption_mem_iff.mp hw
    exact CandidateWindow.fresh_new (List.eq_of_mem_replicate hmem).symm

/-- At the start there is no thread and no flag. -/
theorem sound_start (globals layerShell inputPanel : Bool) (outputs : Nat) :
    (start globals layerShell inputPanel outputs : EventLoop ξ).Sound where
  status := (Tickers.ownedBy_empty _).spawn_other (by decide) true
  repeats := (Tickers.ownedBy_empty _).spawn_other (by decide) true
  repeating := rfl
  fresh w hw := (fresh_of_mem_init hw).1

/-! ### The invariants are kept -/

section Moves
variable {capacity : Nat} {s s' : EventLoop ξ} {input : LoopInput ξ} {outs : List LoopOutput}

/-- The threads and flags after the indicator was shown: the old timer is cancelled and a new
one started in its place, and the repeat keeps the thread it had. -/
theorem Sound.updateStatus (h : s.Sound) (indicator : Str) (timeoutMs : UInt32)
    (shm : Nat → Bool) (fdCloned : Bool) :
    (s.updateStatus indicator timeoutMs shm fdCloned).Sound := by
  have hfresh : ∀ w ∈ s.windows.mapIdx (fun i w => w.showStatus indicator (shm i)), w.Fresh := by
    intro w hw
    obtain ⟨i, hlt, rfl⟩ := List.mem_mapIdx.mp hw
    exact (h.fresh _ (List.getElem_mem hlt)).showStatus indicator (shm i)
  have hothers := h.status.cancel_owner
  have hrepeats := h.repeats.cancel s.statusCancel
  unfold EventLoop.updateStatus
  dsimp only
  split
  · exact ⟨hothers.spawn false, hrepeats.spawn_other (by decide) false, h.repeating, hfresh⟩
  · exact ⟨hothers, hrepeats, h.repeating, hfresh⟩

/-- Every step keeps the flags with their threads. One case for each thing a step can be: a
handler, a redraw, a status update, the parts of a drain, or a step of a thread. -/
theorem Sound.moves (h : s.Sound) (hmoves : Moves capacity s input s' outs) : s'.Sound := by
  cases hmoves with
  | idle => exact h
  | handled _ hstarts hnot =>
      have hfollow := h.followRepeat hstarts hnot
      exact ⟨hfollow.status, hfollow.repeats, hfollow.repeating, hfollow.fresh⟩
  | redrawn _ _ hredrawn => exact ⟨h.status, h.repeats, h.repeating, hredrawn.fresh h.fresh⟩
  | @status indicator timeoutMs shm fdCloned _ _ =>
      have hupdate := h.updateStatus indicator timeoutMs shm fdCloned
      exact ⟨hupdate.status, hupdate.repeats, hupdate.repeating, hupdate.fresh⟩
  | drain _ => exact ⟨h.status, h.repeats, h.repeating, h.fresh⟩
  | read _ => exact ⟨h.status.drop 32, h.repeats.drop 32, h.repeating, h.fresh⟩
  | @played daemons hideStatus repeatTicks _ _ =>
      have hfollow := h.followRepeat (fun hstarts : false = true => by cases hstarts)
        (fun _ => s.server.continues_ticks ((List.range repeatTicks).map daemons))
      refine ⟨hfollow.status, hfollow.repeats, hfollow.repeating, ?_⟩
      -- A drain that has read a hide byte has hidden the indicator of every window, and one
      -- that is not configured still shows nothing.
      intro w hw
      change w ∈ (if hideStatus then _ else _) at hw
      split at hw
      · obtain ⟨old, hold, rfl⟩ := List.mem_map.mp hw
        exact (h.fresh old hold).hideStatus
      · exact h.fresh w hw
  | thread i => exact ⟨h.status.advance i, h.repeats.advance i, h.repeating, h.fresh⟩

/-! ### The indicator -/

/-- The indicator is to be hidden: the drain has read the byte, or it is due. -/
def HideDue (s : EventLoop ξ) : Prop := s.phase.hides = true ∨ s.timers.Due .statusHide

/-- An indicator for which there is a timer is to be hidden. -/
def Promised (s : EventLoop ξ) : Prop :=
  s.statusCancel.isSome → (∃ w ∈ s.windows, w.hasIndicator = true) → s.HideDue

/-- A status timer that writes finds room in the pipe. -/
def StatusFits (capacity : Nat) (s : EventLoop ξ) : LoopInput ξ → Prop
  | .thread i => ∀ t, s.timers.threads[i]? = some t → t.tag = .statusHide → t.stage = .firing →
      s.timers.pipe.length < capacity
  | _ => True

/-- A repeat that starts or ends leaves the indicator due. It cancels and starts threads of the
other tag, so the timer of the indicator is untouched. -/
theorem due_followRepeat (hs : s.Sound) (h : s.timers.Due .statusHide) (server : WaylandState ξ)
    (starts : Bool) : (s.followRepeat server starts).timers.Due .statusHide := by
  have hcancel := h.cancel_other hs.repeats (by decide)
  unfold followRepeat
  dsimp only
  split
  · rename_i hstarts
    rw [if_pos (by simp [hstarts])]
    exact hcancel.spawn .keyRepeat true
  · split
    · exact hcancel
    · exact h

/-- A repeat that starts or ends draws nothing. -/
@[simp] theorem followRepeat_windows (s : EventLoop ξ) (server : WaylandState ξ) (starts : Bool) :
    (s.followRepeat server starts).windows = s.windows := by
  cases starts <;> cases h : server.repeatActive <;> simp [followRepeat, h]

/-- It leaves the flag of the status timer alone. -/
@[simp] theorem followRepeat_statusCancel (s : EventLoop ξ) (server : WaylandState ξ)
    (starts : Bool) : (s.followRepeat server starts).statusCancel = s.statusCancel := by
  cases starts <;> cases h : server.repeatActive <;> simp [followRepeat, h]

/-- A loop that is not draining owes its indicator to the timers. -/
theorem HideDue.timers (h : s.HideDue) {requests : List Request}
    (hphase : s.phase = .sending requests) : s.timers.Due .statusHide := by
  rcases h with hhides | hdue
  · rw [hphase] at hhides
    cases hhides
  · exact hdue

/-- Every step keeps an indicator with a timer due, if the byte of the timer finds room in the
pipe. -/
theorem Promised.moves (h : s.Promised) (hs : s.Sound) (hfits : s.StatusFits capacity input)
    (hmoves : Moves capacity s input s' outs) : s'.Promised := by
  intro harmed hind
  cases hmoves with
  | idle => exact h harmed hind
  | @handled _ server starts _ hfree _ _ =>
      simp only [followRepeat_windows] at hind
      simp only [followRepeat_statusCancel] at harmed
      exact .inr (due_followRepeat hs ((h harmed hind).timers hfree) server starts)
  | redrawn hphase _ hredrawn =>
      exact .inr ((h harmed (hredrawn.hasIndicator hind)).timers hphase)
  | @status indicator timeoutMs shm fdCloned _ _ =>
      -- A flag is held only when a timer was started.
      unfold updateStatus at harmed ⊢
      dsimp only at harmed ⊢
      split at harmed
      · rename_i htimer
        rw [if_pos htimer]
        exact .inr (Tickers.due_spawn ..)
      · cases harmed
  | drain hfree => exact .inr ((h harmed hind).timers hfree)
  | @read _ hideStatus repeatTicks hphase =>
      rcases h harmed hind with hhides | hpipe | hlive
      · rw [hphase] at hhides
        exact .inl (by simp [readTags, Phase.hides, show hideStatus = true from hhides])
      · -- The byte is read now, or stays in the pipe.
        by_cases hnow : TimerTag.statusHide ∈ s.timers.pipe.take 32
        · exact .inl (by simp [readTags, Phase.hides, hnow])
        · right
          left
          rw [← List.take_append_drop 32 s.timers.pipe] at hpipe
          exact (List.mem_append.mp hpipe).resolve_left hnow
      · exact .inr (.inr hlive)
  | @played daemons hideStatus repeatTicks hphase hempty =>
      cases hideStatus with
      | true =>
          obtain ⟨w, hw, hindicator⟩ := hind
          obtain ⟨old, _, rfl⟩ := List.mem_map.mp (show w ∈ s.windows.map _ from hw)
          rw [CandidateWindow.hasIndicator_hideStatus] at hindicator
          cases hindicator
      | false =>
          have harmed' : s.statusCancel.isSome := by
            simpa only [play, followRepeat_statusCancel] using harmed
          have hdue : s.timers.Due .statusHide := by
            rcases h harmed' hind with hhides | hdue
            · rw [hphase] at hhides
              cases hhides
            · exact hdue
          exact .inr (due_followRepeat hs hdue _ false)
  | thread i =>
      rcases h harmed hind with hhides | hdue
      · exact .inl hhides
      · exact .inr (hdue.advance i hfits)

/-! ### The ticks of a repeat -/

/-- The ticks on their way: counted, in the pipe, or about to be written by a thread that was
cancelled too late. -/
def owed (s : EventLoop ξ) : Nat :=
  s.phase.counted + s.timers.pipe.count .keyRepeat + s.timers.late .keyRepeat

/-- A repeat that goes on, or stays over, leaves the timers as they are. A new thread would have
a number of its own, which no flag had before. -/
theorem timers_followRepeat (hs : s.Sound) {server : WaylandState ξ} {starts : Bool}
    (hsame : (s.followRepeat server starts).repeatCancel = s.repeatCancel) :
    (s.followRepeat server starts).timers = s.timers := by
  cases starts with
  | true =>
      -- The new thread comes after all others.
      have hnew : (s.followRepeat server true).repeatCancel = some s.timers.threads.length := by
        simp [followRepeat]
      rw [hnew] at hsame
      obtain ⟨t, ht, _⟩ := hs.repeats.own _ hsame.symm
      have hlt := (List.getElem?_eq_some_iff.mp ht).1
      omega
  | false =>
      cases hserver : server.repeatActive with
      | some repeating => simp [followRepeat, hserver]
      | none =>
          have hnone : s.repeatCancel = none := by
            simpa [followRepeat, hserver] using hsame.symm
          simp [followRepeat, hserver, hnone, Tickers.cancel]

/-- An indicator adds nothing to the ticks on their way: the pipe is the same, and what the
threads of the repeat have still to write is too. -/
theorem owed_updateStatus (hs : s.Sound) (indicator : Str) (timeoutMs : UInt32)
    (shm : Nat → Bool) (fdCloned : Bool) :
    (s.updateStatus indicator timeoutMs shm fdCloned).timers.pipe = s.timers.pipe ∧
      (s.updateStatus indicator timeoutMs shm fdCloned).timers.late .keyRepeat =
        s.timers.late .keyRepeat := by
  have hlate := hs.status.late_cancel (show TimerTag.statusHide ≠ .keyRepeat by decide)
  unfold updateStatus
  dsimp only
  split
  · exact ⟨by simp, by rw [Tickers.late_spawn, hlate]⟩
  · exact ⟨by simp, hlate⟩

/-- While the same key repeats, or none, a step plays what was owed, and what the thread of the
repeat writes. -/
theorem owed_moves (hs : s.Sound) (hsame : s'.repeatCancel = s.repeatCancel)
    (hmoves : Moves capacity s input s' outs) :
    ticksPlayed outs + s'.owed ≤ s.owed + ticksBy s.repeatCancel outs := by
  cases hmoves with
  | idle => simp [ticksPlayed]
  | @handled _ server starts _ hfree _ _ =>
      have htimers := timers_followRepeat hs hsame
      simp only [owed, htimers, hfree, Phase.free, Phase.counted, ticksPlayed, List.map_nil,
        List.sum_nil]
      omega
  | redrawn hphase houts _ =>
      rw [ticksPlayed_eq_zero houts]
      simp only [owed, hphase, Phase.counted]
      omega
  | @status indicator timeoutMs shm fdCloned _ hphase =>
      obtain ⟨hpipe, hlate⟩ := owed_updateStatus hs indicator timeoutMs shm fdCloned
      simp only [owed, hphase, hpipe, hlate, Phase.counted, ticksPlayed, List.map_cons,
        LoopOutput.ticks, List.map_nil, List.sum_cons, List.sum_nil]
      omega
  | drain hfree =>
      simp only [owed, hfree, Phase.free, Phase.counted, ticksPlayed, List.map_nil, List.sum_nil]
      omega
  | @read _ hideStatus repeatTicks hphase =>
      -- The tags go from the pipe to the count.
      have hsplit : (s.timers.pipe.take 32).count TimerTag.keyRepeat +
          (s.timers.pipe.drop 32).count .keyRepeat = s.timers.pipe.count .keyRepeat := by
        rw [← List.count_append, List.take_append_drop]
      simp only [owed, readTags, hphase, Phase.counted, ticksPlayed, Tickers.drop_pipe,
        Tickers.late_drop, List.map_nil, List.sum_nil]
      omega
  | @played daemons hideStatus repeatTicks hphase hempty =>
      have htimers : (s.followRepeat _ false).timers = s.timers := timers_followRepeat hs hsame
      simp only [owed, play, htimers, hphase, Phase.counted, ticksPlayed, List.map_cons,
        LoopOutput.ticks, List.map_nil, List.sum_cons, List.sum_nil]
      omega
  | thread i =>
      have hstep := hs.repeats.count_advance_le capacity i
      rw [ticksPlayed_wrote, ticksBy_wrote]
      simp only [owed, Tickers.advance_pipe, List.count_append]
      omega

end Moves

variable [Xkb ξ]

/-- Every step is one of the ways in which the loop changes. What follows about runs looks at
these cases and never at the step function again. -/
theorem step_cases (capacity : Nat) {s : EventLoop ξ} (hs : s.Sound) (input : LoopInput ξ) :
    Moves capacity s input (s.step capacity input).1 (s.step capacity input).2 := by
  cases input with
  | handle input =>
      have hhandled : s.phase = .free → Moves capacity s (.handle input) (s.handle input) [] := by
        intro hfree
        exact .handled hfree (fun hstarts => WaylandState.repeatActive_of_starts hstarts)
          (fun hnot => WaylandState.repeatActive_of_not_starts hnot)
      cases input with
      | ticks daemons => exact .idle
      | _ =>
          by_cases hfree : s.phase = .free
          · simp only [step, if_pos hfree]
            exact hhandled hfree
          · simp only [step, if_neg hfree]
            exact .idle
  | configure window shm =>
      by_cases hfree : s.phase = .free
      · have hredrawn := redrawn_handleConfigure hs.fresh window shm
        have hmoved : Moves capacity s (.configure window shm) { s with
            windows := s.windows.modify window fun w => w.handleConfigure shm
            phase := .sending [] } [] := .redrawn hfree (by simp) hredrawn
        simp only [step, if_pos hfree]
        rwa [← show s.phase = .sending [] from hfree] at hmoved
      · simp only [step, if_neg hfree]
        exact .idle
  | send shm fdCloned =>
      unfold step
      dsimp only
      split
      · rename_i request requests hphase
        have hsent : ∀ o ∈ [LoopOutput.request request], o.ticks = 0 := by simp [LoopOutput.ticks]
        -- Of the requests only an indicator starts a timer.
        cases request with
        | showCandidates candidates focused selKeys =>
            exact .redrawn hphase hsent (redrawn_show ..)
        | hideCandidates => exact .redrawn hphase hsent (redrawn_hide s.windows)
        | showStatus indicator timeoutMs => exact .status hphase
        | key event => exact .redrawn hphase hsent (.refl s.windows)
        | commitString serial text => exact .redrawn hphase hsent (.refl s.windows)
        | preeditCursor index => exact .redrawn hphase hsent (.refl s.windows)
        | preeditString serial text commit => exact .redrawn hphase hsent (.refl s.windows)
      · exact .idle
  | drain =>
      by_cases hfree : s.phase = .free
      · simp only [step, if_pos hfree]
        exact .drain hfree
      · simp only [step, if_neg hfree]
        exact .idle
  | read daemons =>
      unfold step
      dsimp only
      split
      · rename_i hideStatus repeatTicks hphase
        split
        · rename_i hempty
          exact .played hphase hempty
        · exact .read hphase
      · exact .idle
  | thread i => exact .thread i

/-! ### Runs -/

section Runs
variable {capacity outputs : Nat} {globals layerShell inputPanel : Bool}
  {h h' : List (Visit (EventLoop ξ) (LoopInput ξ) LoopOutput)} {s s' : EventLoop ξ}

/-- So the flags belong to their threads in every run. -/
theorem sound_of_run {init : EventLoop ξ} (hinit : init.Sound)
    (hrun : Run (ofFun (step capacity)) init h s) : s.Sound := by
  refine hrun.invariant Sound (fun _ _ => True) hinit ?_ (fun v _ => trivial)
  intro s input s' outs hs _ hstep
  have hmoves := step_cases capacity hs input
  rw [show s.step capacity input = (s', outs) from hstep] at hmoves
  exact hs.moves hmoves

/-- The steps of a run keep what is promised, when no status arrives while the pipe has no room
for its timer's tag. -/
theorem promised_of_run
    (hrun : Run (ofFun (step capacity)) (start globals layerShell inputPanel outputs) h s)
    (hfits : ∀ v ∈ h, v.pre.StatusFits capacity v.input) : s.Promised := by
  have hstart : (start globals layerShell inputPanel outputs : EventLoop ξ).Promised := by
    intro harmed
    cases harmed
  have hboth : s.Sound ∧ s.Promised := by
    refine hrun.invariant (fun s => s.Sound ∧ s.Promised)
      (fun s input => s.StatusFits capacity input) ⟨sound_start .., hstart⟩ ?_ hfits
    intro s input s' outs hs hfits hstep
    have hmoves := step_cases capacity hs.1 input
    rw [show s.step capacity input = (s', outs) from hstep] at hmoves
    exact ⟨hs.1.moves hmoves, hs.2.moves hs.1 hfits hmoves⟩
  exact hboth.2

/-- An indicator with a timer does not stay. The timer whose flag the adapter holds is the only
status timer that is not cancelled. While a window has an indicator, that timer is still to write,
or the hide byte is in the pipe, or the drain under way has read it; and the drain that has read
it leaves no window with an indicator. -/
theorem indicator_hides_of_run
    (hrun : Run (ofFun (step capacity)) (start globals layerShell inputPanel outputs) h s)
    (hfits : ∀ v ∈ h, v.pre.StatusFits capacity v.input) :
    (∀ i, s.statusCancel = some i →
      (∀ j t, s.timers.threads[j]? = some t → t.tag = .statusHide → j ≠ i → t.cancelled = true) ∧
      ((∃ w ∈ s.windows, w.hasIndicator = true) →
        s.phase.hides = true ∨ TimerTag.statusHide ∈ s.timers.pipe ∨
          ∃ t, s.timers.threads[i]? = some t ∧ t.tag = .statusHide ∧ t.Live)) ∧
    (s.phase.hides = true → s.timers.pipe = [] → ∀ daemons,
      ∀ w ∈ (s.step capacity (.read daemons)).1.windows, w.hasIndicator = false) := by
  constructor
  · intro i hi
    have hsound := sound_of_run (sound_start ..) hrun
    -- A status timer that is not cancelled is the one whose flag is held.
    have honly : ∀ j t, s.timers.threads[j]? = some t → t.tag = .statusHide →
        t.cancelled = false → j = i := by
      intro j t ht htag hnot
      have howner := hsound.status.only j t ht htag hnot
      rw [hi] at howner
      exact (Option.some.inj howner).symm
    refine ⟨fun j t ht htag hne => ?_, fun hind => ?_⟩
    · cases hcancelled : t.cancelled with
      | true => rfl
      | false => exact absurd (honly j t ht htag hcancelled) hne
    · rcases promised_of_run hrun hfits (by rw [hi]; rfl) hind with hhides | hpipe | hlive
      · exact .inl hhides
      · exact .inr (.inl hpipe)
      · obtain ⟨j, t, ht, htag, hlive⟩ := hlive
        obtain rfl := honly j t ht htag hlive.1
        exact .inr (.inr ⟨t, ht, htag, hlive⟩)
  · intro hhides hempty daemons w hw
    cases hphase : s.phase with
    | sending requests => rw [hphase] at hhides; cases hhides
    | draining hideStatus repeatTicks =>
        obtain rfl : hideStatus = true := by rwa [hphase] at hhides
        simp only [step, hphase, if_pos hempty] at hw
        obtain ⟨old, _, rfl⟩ := List.mem_map.mp (show w ∈ s.windows.map _ from hw)
        exact CandidateWindow.hasIndicator_hideStatus old

/-- The step leaves the flag of the repeat as it was, with this owner: the same key repeats, or
none. -/
def SameRepeat (capacity : Nat) (owner : Option Nat) (s : EventLoop ξ) (input : LoopInput ξ) :
    Prop :=
  (s.step capacity input).1.repeatCancel = owner

/-- Whether a step leaves the flag of the repeat can be computed. -/
instance (capacity : Nat) (owner : Option Nat) (s : EventLoop ξ) (input : LoopInput ξ) :
    Decidable (s.SameRepeat capacity owner input) := inferInstanceAs (Decidable (_ = _))

/-- What holds in a run from `init` while the same key repeats: the run plays what was owed, and
what the thread of the repeat writes. -/
structure Repeats (init : EventLoop ξ)
    (h : List (Visit (EventLoop ξ) (LoopInput ξ) LoopOutput)) (s : EventLoop ξ) : Prop where
  sound : s.Sound
  owner : s.repeatCancel = init.repeatCancel
  visited : ∀ v ∈ h, v.pre.Sound ∧ v.pre.repeatCancel = init.repeatCancel
  bound : ticksPlayed (Transition.outputs h) + s.owed ≤
    init.owed + ticksBy init.repeatCancel (Transition.outputs h)

/-- The bound for a step, summed up over a run in which the repeat stays the same. What was owed
at the start and what its own thread wrote since is all that can have been played. -/
theorem repeats_of_run {init : EventLoop ξ} (hinit : init.Sound)
    (hmore : Run (ofFun (step capacity)) init h s)
    (hsame : ∀ v ∈ h, v.pre.SameRepeat capacity init.repeatCancel v.input) :
    init.Repeats h s := by
  have hstart : init.Repeats [] init :=
    ⟨hinit, rfl, by simp, by simp [Transition.outputs, ticksPlayed]⟩
  -- The induction is on the run; what was owed before a step pays for what it plays.
  refine hmore.history init.Repeats (SameRepeat capacity init.repeatCancel) hstart ?_ hsame
  intro h pre input post outs _ hpre hkeeps hstep
  have hmoves := step_cases capacity hpre.sound input
  rw [SameRepeat, show pre.step capacity input = (post, outs) from hstep] at hkeeps
  rw [show pre.step capacity input = (post, outs) from hstep] at hmoves
  refine ⟨hpre.sound.moves hmoves, hkeeps, fun v hv => ?_, ?_⟩
  · rcases List.mem_append.mp hv with hold | hnew
    · exact hpre.visited v hold
    · rw [List.mem_singleton.mp hnew]
      exact ⟨hpre.sound, hpre.owner⟩
  · have howed := owed_moves hpre.sound (hkeeps.trans hpre.owner.symm) hmoves
    have hbound := hpre.bound
    rw [hpre.owner] at howed
    rw [outputs_snoc, ticksPlayed_append, ticksBy_append]
    dsimp only at howed ⊢
    omega

/-- Without a repeat, a read of the pipe asks nothing of the daemon and sends nothing. The ticks
that are in the pipe are those of a thread that was cancelled, and are dropped. -/
theorem Sound.read_of_none (hs : s.Sound) (hnone : s.repeatCancel = none)
    (daemons : Nat → Daemon) :
    (s.step capacity (.read daemons)).1.server = s.server ∧
      (s.step capacity (.read daemons)).1.phase.requests = s.phase.requests := by
  have hrepeat : s.server.repeatActive = none := by
    rw [← Option.isNone_iff_eq_none, ← Option.not_isSome, ← hs.repeating, hnone]
    rfl
  cases hphase : s.phase with
  | sending requests =>
      unfold step
      rw [hphase]
      exact ⟨rfl, by rw [hphase]⟩
  | draining hideStatus repeatTicks =>
      by_cases hempty : s.timers.pipe = []
      · have hticks := WaylandState.ticks_of_none hrepeat ((List.range repeatTicks).map daemons)
        simp only [step, hphase, if_pos hempty, play, hticks]
        exact ⟨by simp [EventLoop.followRepeat, hrepeat], rfl⟩
      · simp only [step, hphase, if_neg hempty]
        exact ⟨rfl, rfl⟩

/-- While the same key repeats, or none, the ticks that are played are at most those its thread
writes and those that were owed before. While no key repeats, they ask nothing of the daemon and
send nothing. Every thread of a repeat is cancelled, but that of the key that repeats. -/
theorem repeatTicks_of_run
    (hrun : Run (ofFun (step capacity)) (start globals layerShell inputPanel outputs) h s)
    (hmore : Run (ofFun (step capacity)) s h' s')
    (hsame : ∀ v ∈ h', v.pre.SameRepeat capacity s.repeatCancel v.input) :
    ticksPlayed (Transition.outputs h') ≤
      s.owed + ticksBy s.repeatCancel (Transition.outputs h') ∧
    (s.server.repeatActive = none → ∀ v ∈ h', ∀ daemons, v.input = .read daemons →
      (v.pre.step capacity v.input).1.server = v.pre.server ∧
        (v.pre.step capacity v.input).1.phase.requests = v.pre.phase.requests) ∧
    (∀ (i : Nat) (t : Ticker TimerTag), s'.timers.threads[i]? = some t → t.tag = .keyRepeat →
      t.cancelled = true ∨ s'.server.repeatActive.isSome ∧ s'.repeatCancel = some i) := by
  have hsound := sound_of_run (sound_start ..) hrun
  -- the run lemma; the three parts are read off its invariant
  have hrepeats := repeats_of_run hsound hmore hsame
  refine ⟨?_, ?_, ?_⟩
  · have hbound := hrepeats.bound
    omega
  · intro hnone v hv daemons hinput
    obtain ⟨hpre, howner⟩ := hrepeats.visited v hv
    have hfree : s.repeatCancel = none := by
      rw [← Option.isNone_iff_eq_none, ← Option.not_isSome, hsound.repeating, hnone]
      rfl
    rw [hinput]
    exact hpre.read_of_none (howner.trans hfree) daemons
  · intro i t ht htag
    cases hcancelled : t.cancelled with
    | true => exact .inl rfl
    | false =>
        have howner := hrepeats.sound.repeats.only i t ht htag hcancelled
        exact .inr ⟨by rw [← hrepeats.sound.repeating, howner]; rfl, howner⟩

end Runs

end EventLoop

/-! ### The key A -/

/-- A daemon that answers a press with the indicator, for a second. -/
def modeDaemon : Daemon := fun raw =>
  if raw.isPress then .ok [{ IpcAction.ofEngine (.updateStatus ['あ']) with cursor := 1000 }]
  else .ok passedOn

/-- The adapter with one overlay, once a context is active. -/
def activatedLoop : List (LoopInput UsLayout) :=
  [.handle .activate, .handle (.keymap (some ⟨.plain⟩))]

/-- The indicator is shown, and its timer has run when the pipe is drained. -/
def toggling : List (LoopInput UsLayout) :=
  activatedLoop ++ [.handle (.key pressA modeDaemon false 0), .send (fun _ => true) true,
    .thread 1, .thread 1, .drain, .read fun _ => modeDaemon]

/-- The drain that follows leaves no window with the indicator. A key has changed the mode, the
timer of its indicator has written the byte, and the byte is read. -/
theorem indicator_hides_of_run_toggling :
    let s := (trace (EventLoop.step 65536) (.start true true true 1) toggling).2
    (∃ i, s.statusCancel = some i ∧ ∀ j t, s.timers.threads[j]? = some t →
      t.tag = .statusHide → j ≠ i → t.cancelled = true) ∧
    s.phase.hides = true ∧ ∀ w ∈ (s.step 65536 (.read fun _ => modeDaemon)).1.windows,
      w.hasIndicator = false := by
  intro s
  have hides := EventLoop.indicator_hides_of_run
    (run_trace (EventLoop.step 65536) (.start true true true 1) toggling)
    (by
      intro v hv
      simp only [toggling, activatedLoop, List.cons_append, List.nil_append, trace, List.mem_cons,
        List.not_mem_nil, or_false] at hv
      rcases hv with rfl | rfl | rfl | rfl | rfl | rfl | rfl | rfl
      · trivial
      · trivial
      · trivial
      · trivial
      · intro _ _ _ _
        decide +kernel
      · intro _ _ _ _
        decide +kernel
      · trivial
      · trivial)
  have harmed : s.statusCancel.isSome = true := by decide +kernel
  obtain ⟨i, hi⟩ := Option.isSome_iff_exists.mp harmed
  exact ⟨⟨i, hi, (hides.1 i hi).1⟩, by decide +kernel,
    hides.2 (by decide +kernel) (by decide +kernel) _⟩

/-- The key A repeats. Its thread is about to tick when the key is let go. -/
def letGo : List (LoopInput UsLayout) :=
  activatedLoop ++ [.handle (.key pressA kanaDaemon true 0), .send (fun _ => true) true,
    .thread 1, .handle (.key releaseA kanaDaemon true 600), .handle (.graceCheck 1200)]

/-- The tick that comes too late is read. -/
def lateTick : List (LoopInput UsLayout) :=
  [.thread 1, .drain, .read fun _ => kanaDaemon, .read fun _ => kanaDaemon, .thread 1]

/-- One tick was owed when the key was let go, and one is played. -/
theorem repeatTicks_of_run_lateTick :
    let s := (trace (EventLoop.step 65536) (.start true true true 1) letGo).2
    let h := (trace (EventLoop.step 65536) s lateTick).1
    ticksPlayed (outputs h) ≤ s.owed + ticksBy s.repeatCancel (outputs h) :=
  (EventLoop.repeatTicks_of_run (run_trace (EventLoop.step 65536) (.start true true true 1) letGo)
    (run_trace (EventLoop.step 65536) _ lateTick)
    (by decide +kernel)).1

example :
    let s := (trace (EventLoop.step 65536) (.start true true true 1) letGo).2
    (s.owed, ticksPlayed (outputs (trace (EventLoop.step 65536) s lateTick).1)) = (1, 1) := by
  decide +kernel

end Y2Skk.Wayland
