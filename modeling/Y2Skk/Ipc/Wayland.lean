import Mathlib.Data.Finset.Basic
import Y2Skk.Ipc.Dispatch
import Y2Skk.Ipc.Reconnect

/-!
# `Y2Skk.Ipc.Wayland`: keys in the Wayland adapter

The adapter grabs the keyboard of the focused input context, so a key reaches the
application only when the adapter hands it back with `context.key`. Keys the input method
consumes are repeated by the adapter itself: a thread writes ticks into a pipe, and the
main loop plays them. Keys that go to the application are repeated by the application.

`WaylandState.step` reads one input, an event of the compositor or a part of a turn of the
main loop, and answers with the requests it sends. What the adapter finds while it handles
an input comes with the input: the daemon, whether the pipe could be duplicated for a
repeat thread, and the time.

## Presses and releases

The adapter keeps the set of keys that it believes to be pressed, and a release that
follows no press is dropped as stray. The compositor may synthesize releases of a
repeating key after each text that is committed, so the release of that key is held back
for a while (`pendingStopRelease`) and only the grace check of the main loop ends the
repeat. A press within that time is a fresh one.

## The keymap

The keymap library is a parameter, `Xkb`. A keymap is loaded for a context and lost with
it, and a context without a keymap has no keysyms: its keys go to nobody.

The threads of the timers and the pipe they write to are in `Ipc.WaylandLoop`, and the
window that draws the candidates is in `Ipc.CandidateWindow`.
-/

set_option autoImplicit false

namespace Y2Skk.Wayland

open Utf8 (Str)

/-! ### The keymap -/

/-- The keymap library, over its states: a keymap and what is held of its modifiers. -/
class Xkb (ξ : Type) where
  keyGetOneSym : ξ → UInt32 → UInt32
  keyRepeats : ξ → UInt32 → Bool
  /-- The new state from the modifiers depressed, latched and locked, and the group. -/
  updateMask : ξ → UInt32 → UInt32 → UInt32 → UInt32 → ξ

/-- `XkbState`: a keymap of the compositor with the state of its modifiers. -/
structure XkbState (ξ : Type) where
  state : ξ
  deriving DecidableEq

namespace XkbState
variable {ξ : Type} [Xkb ξ]

/-- `update_mask`: the compositor tells the modifiers, the adapter does not track them. -/
def updateMask (self : XkbState ξ) (depressed latched locked group : UInt32) : XkbState ξ :=
  ⟨Xkb.updateMask self.state depressed latched locked group⟩

/-- The keysym of an evdev keycode, 0 (`XKB_KEY_NoSymbol`) when there is none. XKB keycodes are
evdev keycodes + 8. -/
def keyGetOneSym (self : XkbState ξ) (evdevKeycode : UInt32) : UInt32 :=
  Xkb.keyGetOneSym self.state (evdevKeycode + 8)

/-- The keymap marks the key as one that repeats. -/
def keyRepeats (self : XkbState ξ) (evdevKeycode : UInt32) : Bool :=
  Xkb.keyRepeats self.state (evdevKeycode + 8)

end XkbState

/-- The modifier mask of the daemon, from the standard layout of XKB's. -/
def xkbModsToSkk (modsDepressed modsLatched : UInt32) : UInt32 :=
  let combined := modsDepressed ||| modsLatched
  let result := 0
  let result := if combined &&& 0x01 ≠ 0 then result ||| 0x01 else result -- Shift
  let result := if combined &&& 0x04 ≠ 0 then result ||| 0x04 else result -- Control
  let result := if combined &&& 0x08 ≠ 0 then result ||| 0x08 else result -- Alt (Mod1)
  if combined &&& 0x40 ≠ 0 then result ||| 0x40 else result -- Super (Mod4)

/-- The keysym takes part in auto-repeat: neither a modifier nor a lock key, nor no symbol. -/
def keysymRepeats (keysym : UInt32) : Bool :=
  if keysym = 0 then false
  else if 0xFFE1 ≤ keysym ∧ keysym ≤ 0xFFEE then false
  else if keysym = 0xFF7F ∨ keysym = 0xFF14 then false
  else true

/-! ### What the adapter sends -/

/-- `wl_keyboard::KeyState`. -/
inductive KeyState where
  | released
  | pressed
  deriving DecidableEq, Repr

/-- `wl_keyboard::Event::Key`. -/
structure WlKey where
  serial : UInt32
  time : UInt32
  key : UInt32
  state : KeyState
  deriving DecidableEq, Repr

/-- The requests of the adapter: to the input context, and to its own candidate windows. -/
inductive Request where
  /-- `context.key`: the application gets the key. -/
  | key (event : WlKey)
  | commitString (serial : UInt32) (text : Str)
  | preeditCursor (index : Int32)
  | preeditString (serial : UInt32) (text commit : Str)
  | showCandidates (candidates : List IpcCandidate) (focused : UInt32) (selKeys : Str)
  | hideCandidates
  | showStatus (indicator : Str) (timeoutMs : UInt32)
  deriving DecidableEq, Repr

/-- The sink of the actions: the serial of the context, and what was sent so far. -/
structure ContextSink where
  serial : UInt32
  sent : List Request := []

namespace ContextSink

/-- Appends to what was sent: the compositor sees requests in the order in which they are
made. -/
def send (self : ContextSink) (requests : List Request) : ContextSink :=
  { self with sent := self.sent ++ requests }

instance : ActionSink ContextSink where
  commit self text := self.send [.commitString self.serial text]
  updatePreedit self text cursor _ :=
    self.send [.preeditCursor cursor.toInt32, .preeditString self.serial text []]
  clearPreedit self := self.send [.preeditString self.serial [] []]
  showCandidates self candidates focused selKeys :=
    self.send [.showCandidates candidates focused selKeys]
  hideCandidates self := self.send [.hideCandidates]
  updateStatus self indicator timeoutMs := self.send [.showStatus indicator timeoutMs]

end ContextSink

/-! ### The state -/

/-- The key that is repeating. -/
structure RepeatActive where
  keycode : UInt32
  keysym : UInt32
  /-- The input method consumed the press. -/
  consumed : Bool
  deriving DecidableEq, Repr

/-- The input context that has the focus. -/
structure ActiveContext (ξ : Type) where
  serial : UInt32 := 0
  skkMods : UInt32 := 0
  xkbState : Option (XkbState ξ) := none
  deriving DecidableEq

/-- The state of the adapter, as far as keys and repeats touch it. -/
structure WaylandState (ξ : Type) where
  active : Option (ActiveContext ξ) := none
  /-- Repeats per second; 0 disables them. -/
  repeatRate : UInt32 := 25
  /-- In milliseconds. -/
  repeatDelay : UInt32 := 500
  repeatActive : Option RepeatActive := none
  /-- The keycodes believed to be pressed. They outlive the context. -/
  pressedKeys : Finset UInt32 := ∅
  /-- When the repeat stops, in milliseconds. A release of the repeating key may come from the
  compositor itself, so it only sets this deadline. -/
  pendingStopRelease : Option Nat := none
  /-- The keyboard of the seat has told its repeat rate. -/
  seatRepeatReceived : Bool := false
  deriving DecidableEq

/-- What `process_key` answers to a key, at the moment it is called. -/
abbrev Daemon := RawKey → Except ProcessKeyError (List IpcAction)

/-- What the adapter reads. -/
inductive Input (ξ : Type) where
  | activate
  | deactivate
  | commitState (serial : UInt32)
  | reset
  /-- `none`: the format is not supported, or the keymap could not be loaded. -/
  | keymap (xkb : Option (XkbState ξ))
  | key (event : WlKey) (daemon : Daemon) (fdCloned : Bool) (now : Nat)
  | modifiers (depressed latched locked group : UInt32)
  | repeatInfo (rate delay : Int32)
  /-- From the keyboard of the seat. -/
  | seatRepeatInfo (rate delay : Int32)
  /-- The main loop looks whether a repeat is to stop. -/
  | graceCheck (now : Nat)
  /-- The ticks read in one turn of the main loop, with the daemon each of them finds. -/
  | ticks (daemons : List Daemon)

namespace WaylandState

variable {ξ : Type}

/-- The state at startup. -/
def new : WaylandState ξ := {}

/-- `is_repeating`: this key is the one that repeats. -/
def isRepeating (self : WaylandState ξ) (keycode : UInt32) : Bool :=
  self.repeatActive.map RepeatActive.keycode = some keycode

/-- In milliseconds. Bursts of releases follow the ticks, so the grace scales with them. -/
def repeatStopGrace (self : WaylandState ξ) : Nat :=
  let intervalMs := 1000 / max self.repeatRate.toNat 1
  max 60 (min 500 (intervalMs * 2))

/-! ### Repeats -/

/-- `send_key_release_to_app`: the application is told that a key went up which it saw go down.
Nothing is sent without a context. -/
def sendKeyReleaseToApp (self : WaylandState ξ) (keycode : UInt32) : List Request :=
  match self.active with
  | some active => [.key ⟨active.serial, 0, keycode, .released⟩]
  | none => []

/-- Takes the repeating key out. If its press went to the application, so does a release. -/
def takeRepeat (self : WaylandState ξ) : WaylandState ξ × List Request :=
  match self.repeatActive with
  | none => (self, [])
  | some old =>
      let taken :=
        { self with repeatActive := none, pressedKeys := self.pressedKeys.erase old.keycode }
      (taken, if old.consumed then [] else self.sendKeyReleaseToApp old.keycode)

/-- `stop_all_repeat`: ends the repeat and forgets a release that was held back for it. -/
def stopAllRepeat (self : WaylandState ξ) : WaylandState ξ × List Request :=
  let (taken, released) := self.takeRepeat
  ({ taken with pendingStopRelease := none }, released)

/-- Begins to repeat the key, in place of any other. A key that the application gets is repeated
there, and a rate of 0 repeats nothing. -/
def startRepeat (self : WaylandState ξ) (keycode keysym : UInt32) (consumed fdCloned : Bool) :
    WaylandState ξ × List Request :=
  let (stopped, released) := self.stopAllRepeat
  -- The application repeats the keys it gets.
  if !consumed then (stopped, released)
  else if stopped.repeatRate = 0 then (stopped, released)
  else if !fdCloned then (stopped, released)
  else ({ stopped with repeatActive := some ⟨keycode, keysym, consumed⟩ }, released)

/-- The main loop ends a repeat whose grace has elapsed. -/
def graceCheck (self : WaylandState ξ) (now : Nat) : WaylandState ξ × List Request :=
  match self.pendingStopRelease with
  | some deadline => if deadline ≤ now then self.stopAllRepeat else (self, [])
  | none => (self, [])

/-! ### Keys -/

/-- Asks the daemon about a key and carries out its actions. Answers whether the input method
consumed the key, and what was sent. -/
def onKey (self : WaylandState ξ) (event : WlKey) (keysym : UInt32) (forwardPassthrough : Bool)
    (daemon : Daemon) : Bool × List Request :=
  match self.active with
  | none => (false, [])
  | some active =>
      match daemon ⟨keysym, active.skkMods, event.state = .pressed⟩ with
      | .error _ => (false, [])
      | .ok actions =>
          let (result, sink) := dispatch actions (⟨active.serial, []⟩ : ContextSink)
          let consumed := result.consumed && !result.forcePassthrough
          if !consumed && forwardPassthrough then (consumed, sink.sent ++ [.key event])
          else (consumed, sink.sent)

/-- Plays the ticks, until the repeat stops. Each tick is a press of the key that repeats,
handed to the daemon again. -/
def ticks (self : WaylandState ξ) : List Daemon → WaylandState ξ × List Request
  | [] => (self, [])
  | daemon :: daemons =>
      match self.repeatActive with
      | none => (self, [])
      | some repeating =>
          if repeating.consumed then
            -- No event of the keyboard stands behind a tick, so none is forwarded.
            let (stillConsumed, sent) :=
              self.onKey ⟨0, 0, repeating.keycode, .pressed⟩ repeating.keysym false daemon
            if stillConsumed then
              let (last, more) := self.ticks daemons
              (last, sent ++ more)
            else
              let (stopped, released) := self.stopAllRepeat
              (stopped, sent ++ released)
          else self.stopAllRepeat

variable [Xkb ξ]

/-- The keysym of a key in the active context, 0 without one. -/
def keysym (self : WaylandState ξ) (keycode : UInt32) : UInt32 :=
  match self.active.bind ActiveContext.xkbState with
  | some xkb => xkb.keyGetOneSym keycode
  | none => 0

/-- `repeat_eligible`: either the keymap lets the key repeat or its keysym is one that usually
does. -/
def repeatEligible (self : WaylandState ξ) (keycode : UInt32) : Bool :=
  let xkbAllowsRepeat :=
    match self.active.bind ActiveContext.xkbState with
    | some xkb => xkb.keyRepeats keycode
    | none => false
  xkbAllowsRepeat || keysymRepeats (self.keysym keycode)

/-- The `Key` handler, from where an event has passed its filter. A key without a keysym is not
handed to the daemon, and is not forwarded either. -/
def handleKey (self : WaylandState ξ) (event : WlKey) (daemon : Daemon) (fdCloned : Bool) :
    WaylandState ξ × List Request :=
  let keysym := self.keysym event.key
  let (consumed, sent) :=
    if keysym ≠ 0 then self.onKey event keysym true daemon else (false, [])
  if event.state = .pressed ∧ self.repeatEligible event.key then
    let (started, released) := self.startRepeat event.key keysym consumed fdCloned
    (started, sent ++ released)
  else (self, sent)

/-- The `Key` handler on a press. A key that is already down is stray, unless it repeats and its
release is held back. -/
def keyPressed (self : WaylandState ξ) (event : WlKey) (daemon : Daemon) (fdCloned : Bool) :
    WaylandState ξ × List Request :=
  if event.key ∉ self.pressedKeys then
    { self with pressedKeys := insert event.key self.pressedKeys }.handleKey event daemon fdCloned
  else if self.isRepeating event.key && self.pendingStopRelease.isSome then
    -- The key was tapped again while its release was held back: a fresh press.
    let (stopped, released) := self.stopAllRepeat
    let (handled, sent) :=
      { stopped with pressedKeys := insert event.key stopped.pressedKeys }.handleKey event daemon
        fdCloned
    (handled, released ++ sent)
  else (self, []) -- stray

/-- The `Key` handler on a release. The set of pressed keys keeps a repeating key until the
repeat ends. -/
def keyReleased (self : WaylandState ξ) (event : WlKey) (daemon : Daemon) (fdCloned : Bool)
    (now : Nat) : WaylandState ξ × List Request :=
  if self.isRepeating event.key then
    ({ self with pendingStopRelease := some (now + self.repeatStopGrace) }, [])
  else if event.key ∉ self.pressedKeys then (self, []) -- stray
  else
    { self with pressedKeys := self.pressedKeys.erase event.key }.handleKey event daemon fdCloned

/-- The `Key` handler. -/
def onKeyEvent (self : WaylandState ξ) (event : WlKey) (daemon : Daemon) (fdCloned : Bool)
    (now : Nat) : WaylandState ξ × List Request :=
  match event.state with
  | .pressed => self.keyPressed event daemon fdCloned
  | .released => self.keyReleased event daemon fdCloned now

/-- The `Modifiers` handler. A change of the modifiers ends a repeat, since the key would now
mean something else. -/
def modifiers (self : WaylandState ξ) (depressed latched locked group : UInt32) :
    WaylandState ξ × List Request :=
  let newSkkMods := xkbModsToSkk depressed latched
  let oldSkkMods := (self.active.map ActiveContext.skkMods).getD 0
  let update := fun active : ActiveContext ξ =>
    { active with
      skkMods := newSkkMods
      xkbState := active.xkbState.map fun xkb => xkb.updateMask depressed latched locked group }
  let updated : WaylandState ξ := { self with active := self.active.map update }
  -- Releasing Shift must not turn a repeated `!` into a repeated `1`.
  if newSkkMods ≠ oldSkkMods ∧ updated.repeatActive.isSome then updated.stopAllRepeat
  else (updated, [])

/-- `rate.max(0) as u32`, and the same for the delay. -/
def setRepeat (self : WaylandState ξ) (rate delay : Int32) : WaylandState ξ :=
  { self with repeatRate := (max rate 0).toUInt32, repeatDelay := (max delay 0).toUInt32 }

/-- Reads one input; answers with what is sent, to the application and to the windows. -/
def step (self : WaylandState ξ) : Input ξ → WaylandState ξ × List Request
  | .activate => ({ self with active := some {} }, [])
  | .deactivate =>
      let (stopped, released) := self.stopAllRepeat
      ({ stopped with active := none }, released)
  | .commitState serial =>
      ({ self with active := self.active.map fun active => { active with serial := serial } }, [])
  | .reset =>
      match self.active with
      | some active => (self, [.preeditString active.serial [] []])
      | none => (self, [])
  | .keymap (some xkb) =>
      let load := fun active : ActiveContext ξ => { active with xkbState := some xkb }
      ({ self with active := self.active.map load }, [])
  | .keymap none => (self, [])
  | .key event daemon fdCloned now => self.onKeyEvent event daemon fdCloned now
  | .modifiers depressed latched locked group => self.modifiers depressed latched locked group
  -- Once the seat has spoken, a zero from the grabbed keyboard is spurious.
  | .repeatInfo rate delay =>
      if rate > 0 ∨ !self.seatRepeatReceived then (self.setRepeat rate delay, []) else (self, [])
  | .seatRepeatInfo rate delay =>
      ({ self.setRepeat rate delay with seatRepeatReceived := true }, [])
  | .graceCheck now => self.graceCheck now
  | .ticks daemons => self.ticks daemons

end WaylandState

end Y2Skk.Wayland
