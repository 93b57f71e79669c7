import Y2Skk.Ipc.CandidateWindow
import Y2Skk.Ipc.Wayland
import Y2Skk.Lib.Ticker

/-!
# `Y2Skk.Ipc.WaylandLoop`: the event loop of the Wayland adapter and its timer threads

The main thread handles the events of the compositor. Beside it there are threads that
only sleep and write a byte into a pipe: one hides the indicator after its timeout, one
ticks for the key that repeats, one is the heartbeat. The main thread drains the pipe,
hides the indicator if a byte says so, and plays the ticks. A timer is called off through
a flag that its thread looks at.

## Interleavings

`EventLoop.step` is one step of some thread, so a run of it is an interleaving of them.
The main thread is in the middle of sending the requests of a handler, or of draining the
pipe; `Phase` says which. In which order the main thread takes events, looks at the grace
of a repeat and drains the pipe is left open, and so is when a thread wakes up.

## Which thread a flag belongs to

The flag of a repeat is set before the requests of the same handler are sent: the thread
of a repeat reads nothing else that they change. `followRepeat` compares the server before
and after a handler for that, and `starts` says whether the handler got as far as starting
a thread, which the state afterwards does not tell when the same key repeats again.

A new timer of the indicator takes the place of the old one, whose flag is raised first.
So of the timers of the indicator at most one is not called off, and it is the one whose
flag is held.

## What is left out

The heartbeat's bytes are read and dropped, as their log lines are not modelled, and so is
a read that a signal interrupts. The loop ends with an error of the connection; a run here
goes on for as long as its inputs do.
-/

set_option autoImplicit false

namespace Y2Skk.Wayland

open Timers
open Utf8 (Str)

/-- The bytes of the timer pipe. -/
inductive TimerTag where
  | statusHide
  | keyRepeat
  | heartbeat
  deriving DecidableEq, Repr

/-! ### When a repeat starts a thread -/

namespace WaylandState
variable {ξ : Type}

/-- `startRepeat` gets as far as its thread. -/
def startsThread (self : WaylandState ξ) (consumed fdCloned : Bool) : Bool :=
  consumed && self.repeatRate ≠ 0 && fdCloned

variable [Xkb ξ]

/-- `handleKey` starts a repeat thread: it is a press, the key may repeat, the input method
consumed it, and `startRepeat` did not give up. -/
def handleKeyStarts (self : WaylandState ξ) (event : WlKey) (daemon : Daemon) (fdCloned : Bool) :
    Bool :=
  let keysym := self.keysym event.key
  let (consumed, _) :=
    if keysym ≠ 0 then self.onKey event keysym true daemon else (false, [])
  if event.state = .pressed ∧ self.repeatEligible event.key then
    self.startsThread consumed fdCloned
  else false

/-- `keyPressed` starts a repeat thread, on a fresh press or on a second tap of the repeating
key. -/
def keyPressedStarts (self : WaylandState ξ) (event : WlKey) (daemon : Daemon) (fdCloned : Bool) :
    Bool :=
  if event.key ∉ self.pressedKeys then
    { self with pressedKeys := insert event.key self.pressedKeys }.handleKeyStarts event daemon
      fdCloned
  else if self.isRepeating event.key && self.pendingStopRelease.isSome then
    let (stopped, _) := self.stopAllRepeat
    { stopped with pressedKeys := insert event.key stopped.pressedKeys }.handleKeyStarts event
      daemon fdCloned
  else false

/-- The input starts the thread of a new repeat. A release never does. -/
def starts (self : WaylandState ξ) : Input ξ → Bool
  | .key event daemon fdCloned _ =>
    match event.state with
    | .pressed => self.keyPressedStarts event daemon fdCloned
    | .released => false
  | _ => false

end WaylandState

/-! ### The event loop -/

/-- What the main thread is in the middle of. -/
inductive Phase where
  /-- The requests of a handler that are still to be sent. -/
  | sending (requests : List Request)
  /-- Draining the pipe: what the bytes read so far ask for. -/
  | draining (hideStatus : Bool) (repeatTicks : Nat)
  deriving DecidableEq, Repr

/-- Nothing is left to send. -/
def Phase.free : Phase := .sending []

/-- The state of the process: the adapter, its windows, the timers with their pipe, and where
the main thread is. -/
structure EventLoop (ξ : Type) where
  server : WaylandState ξ
  windows : List CandidateWindow
  timers : Tickers TimerTag
  /-- The status timer whose flag the adapter holds. -/
  statusCancel : Option Nat := none
  /-- The same for the thread of the repeat. -/
  repeatCancel : Option Nat := none
  phase : Phase := .free
  deriving DecidableEq

/-- What takes a step, with what it finds. -/
inductive LoopInput (ξ : Type) where
  /-- The main thread handles an event, or looks at the grace of a repeat. -/
  | handle (input : Input ξ)
  /-- The first configure event of a window. -/
  | configure (window : Nat) (shm : Bool)
  /-- The main thread sends the next request. `shm` says which windows can make a buffer, and
  `fdCloned` that the pipe can be duplicated for a timer. -/
  | send (shm : Nat → Bool) (fdCloned : Bool)
  /-- The main thread begins to drain the pipe. -/
  | drain
  /-- It reads from the pipe once. The ticks find the daemons when the pipe was empty. -/
  | read (daemons : Nat → Daemon)
  /-- A timer thread takes a step. -/
  | thread (i : Nat)

/-- What can be seen of a step. -/
inductive LoopOutput where
  | request (r : Request)
  | wrote (thread : Nat) (tag : TimerTag)
  /-- A drain ended, having counted the ticks. -/
  | played (repeatTicks : Nat)
  deriving DecidableEq, Repr

namespace EventLoop

variable {ξ : Type}

/-- One overlay, or one window for each output. `globals`: the compositor has what a window needs,
and a font was found. -/
def initCandidateWindows (globals layerShell inputPanel : Bool) (outputs : Nat) :
    List CandidateWindow :=
  if !globals then []
  else
    let count := if inputPanel then 1 else if outputs = 0 then 1 else outputs
    (List.replicate count (CandidateWindow.new layerShell inputPanel)).reduceOption

/-- When the loop begins, the heartbeat is running. -/
def start (globals layerShell inputPanel : Bool) (outputs : Nat) : EventLoop ξ where
  server := .new
  windows := initCandidateWindows globals layerShell inputPanel outputs
  timers := ({} : Tickers TimerTag).spawn .heartbeat true

/-! ### Requests -/

/-- Shows the indicator, and starts a timer in place of the old one. With a timeout of 0, or
without a pipe for the timer, it stays until something else hides it. -/
def updateStatus (self : EventLoop ξ) (indicator : Str) (timeoutMs : UInt32) (shm : Nat → Bool)
    (fdCloned : Bool) : EventLoop ξ :=
  let shown : EventLoop ξ :=
    { self with
        timers := self.timers.cancel self.statusCancel
        statusCancel := none
        windows := self.windows.mapIdx fun i w => w.showStatus indicator (shm i) }
  if 0 < timeoutMs ∧ fdCloned then
    { shown with
        timers := shown.timers.spawn .statusHide false
        statusCancel := some shown.timers.threads.length }
  else shown

/-- The main thread sends one request. Those to the candidate windows are carried out in all of
them, one for each output. -/
def carryOut (self : EventLoop ξ) (request : Request) (shm : Nat → Bool) (fdCloned : Bool) :
    EventLoop ξ :=
  match request with
  | .showCandidates candidates focused selKeys =>
      { self with
          windows := self.windows.mapIdx fun i w => w.show candidates focused selKeys (shm i) }
  | .hideCandidates => { self with windows := self.windows.map CandidateWindow.hide }
  | .showStatus indicator timeoutMs => self.updateStatus indicator timeoutMs shm fdCloned
  -- The others go to the compositor.
  | .key _ | .commitString _ _ | .preeditCursor _ | .preeditString _ _ _ => self

/-! ### Repeats -/

/-- The flags and threads of repeats after a handler has run: a repeat that was taken out is
cancelled, and a new one has a thread. -/
def followRepeat (self : EventLoop ξ) (server : WaylandState ξ) (starts : Bool) : EventLoop ξ :=
  let stopped : EventLoop ξ :=
    if starts || server.repeatActive.isNone then
      { self with
          server := server
          timers := self.timers.cancel self.repeatCancel
          repeatCancel := none }
    else { self with server := server }
  if starts then
    { stopped with
        timers := stopped.timers.spawn .keyRepeat true
        repeatCancel := some stopped.timers.threads.length }
  else stopped

/-- A drain is over: the indicator is hidden, and the ticks are played. -/
def play (self : EventLoop ξ) (hideStatus : Bool) (repeatTicks : Nat) (daemons : Nat → Daemon) :
    EventLoop ξ :=
  let (server, sent) := self.server.ticks ((List.range repeatTicks).map daemons)
  { self.followRepeat server false with
      windows := if hideStatus then self.windows.map CandidateWindow.hideStatus else self.windows
      phase := .sending sent }

/-- Reads at most 32 bytes. -/
def readTags (self : EventLoop ξ) (hideStatus : Bool) (repeatTicks : Nat) : EventLoop ξ :=
  let buf := self.timers.pipe.take 32
  { self with
      timers := self.timers.drop 32
      phase := .draining (hideStatus || decide (.statusHide ∈ buf))
        (repeatTicks + buf.count .keyRepeat) }

variable [Xkb ξ]

/-- The main thread runs a handler: the state changes at once, and what it has to send is left
in the phase. -/
def handle (self : EventLoop ξ) (input : Input ξ) : EventLoop ξ :=
  let (server, sent) := self.server.step input
  { self.followRepeat server (self.server.starts input) with phase := .sending sent }

/-- One step of a thread; `capacity` is that of the pipe. Inputs that do not fit the phase of
the loop change nothing, so every sequence of inputs is a run. -/
def step (capacity : Nat) (self : EventLoop ξ) : LoopInput ξ → EventLoop ξ × List LoopOutput
  | .handle (.ticks _) => (self, []) -- the ticks of the pipe only
  | .handle input => if self.phase = .free then (self.handle input, []) else (self, [])
  | .configure window shm =>
      if self.phase = .free then
        ({ self with windows := self.windows.modify window fun w => w.handleConfigure shm }, [])
      else (self, [])
  | .send shm fdCloned =>
    match self.phase with
    | .sending (request :: requests) =>
        ({ self.carryOut request shm fdCloned with phase := .sending requests },
          [.request request])
    | _ => (self, [])
  | .drain =>
      if self.phase = .free then ({ self with phase := .draining false 0 }, []) else (self, [])
  | .read daemons =>
    match self.phase with
    | .draining hideStatus repeatTicks =>
        if self.timers.pipe = [] then
          (self.play hideStatus repeatTicks daemons, [.played repeatTicks])
        else (self.readTags hideStatus repeatTicks, [])
    | _ => (self, [])
  | .thread i =>
      ({ self with timers := self.timers.advance capacity i },
        (self.timers.written capacity i).map (.wrote i))

end EventLoop

end Y2Skk.Wayland
