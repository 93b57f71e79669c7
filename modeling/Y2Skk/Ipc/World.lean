import Y2Skk.Ipc.Reconnect

/-!
# `Y2Skk.Ipc.World`: clients and a daemon that may restart

A `World` is the daemon, the clients, and the time. `exec` says what an operation of a
client does to it; a call to the daemon may get lost on its way there or on its way back.
The daemon may restart at any moment, with new settings. `machine` puts this together: its
runs interleave any number of calls from any number of clients with restarts.

## What is assumed

Nothing about the order of things: which thread goes next, which call gets lost and when
the daemon restarts is chosen by the input of a step. A call that is lost on its way back
has been carried out, which is the case that makes "at most once" a question.

## What is recorded

`createdFor` is a record of the model: the handle each session of the running daemon was
created for. Whenever a key reaches an engine the run puts out an `Applied`, with the
handle that sent the key and the handle that the session was created for; that the two
agree is the isolation of the clients.

Times are in milliseconds. A thread that panics stops; it does not poison its locks, which
gives the other threads more to do than the program allows them.
-/

set_option autoImplicit false

namespace Y2Skk

open Outcome Concurrent

/-! ### Clients -/

/-- `INITIAL_COOLDOWN`: the first cooldown, in milliseconds. -/
def initialCooldown : Nat := 2000
/-- `MAX_COOLDOWN`: no cooldown is longer. -/
def maxCooldown : Nat := 30000

/-- The cooldown after a number of consecutive failures: 2s, 4s, 8s, 16s, 30s, 30s, … -/
def currentCooldown (failures : Nat) : Nat :=
  min (initialCooldown * 2 ^ min (failures - 1) 16) maxCooldown

/-- The failures since the last call that succeeded. -/
structure FailureState where
  lastFailure : Option Nat
  consecutiveFailures : Nat
  deriving DecidableEq, Repr

/-- The state of a `ReconnectingClient`. -/
structure Client where
  sessions : OrdMap LocalHandle SessionEntry
  failure : FailureState
  handleCounter : LocalHandle

namespace Client

/-- A client without handles. The first handle is 1. -/
def new : Client := ⟨.empty, ⟨none, 0⟩, 1⟩

/-- Whether the cooldown after the last failure has not run out yet. -/
def inCooldown (self : Client) (now : Nat) : Bool :=
  match self.failure.lastFailure with
  | some t => now - t < currentCooldown self.failure.consecutiveFailures
  | none => false

/-- Another failure; the count saturates. -/
def recordFailure (self : Client) (now : Nat) : Client :=
  { self with failure := ⟨some now, min (self.failure.consecutiveFailures + 1) (2 ^ 32 - 1)⟩ }

/-- Marks every session for a new creation. -/
def invalidateSessions (self : Client) : Client :=
  { self with sessions := self.sessions.mapValues fun e => { e with daemonSessionId := .unset } }

/-- The failures are forgotten. -/
def markRecovered (self : Client) : Client := { self with failure := ⟨none, 0⟩ }

/-- Replaces the session id of a handle that is there. -/
def setSession (self : Client) (handle : LocalHandle) (ticket : Ticket) : Client :=
  match self.sessions.get? handle with
  | some entry =>
      { self with sessions := self.sessions.insert handle { entry with daemonSessionId := ticket } }
  | none => self

end Client

/-! ### The world -/

/-- The daemon, the clients and the time. The clients are a function, so there are as many as
are asked for. -/
structure World (δ : Type) where
  daemon : SessionManager δ
  /-- How often the daemon has been restarted. -/
  boot : Nat
  createdFor : SessionId → Option (ClientId × LocalHandle)
  clients : ClientId → Client
  now : Nat

/-- A key of a handle reached the engine of a session that was created for `createdFor`. -/
structure Applied where
  client : ClientId
  handle : LocalHandle
  createdFor : Option (ClientId × LocalHandle)
  deriving DecidableEq, Repr

/-- What happens to a call to the daemon. -/
inductive Delivery where
  | replied
  | requestLost
  | replyLost
  deriving DecidableEq, Repr

/-- What happens without any client. -/
inductive Event (δ : Type) where
  | restart (settings : Settings δ)
  | tick (ms : Nat)

/-- A call of an adapter, or a round of a client's monitor. -/
inductive Request where
  | createHandle (client : ClientId) (appId : Utf8.Str)
  | destroyHandle (client : ClientId) (handle : LocalHandle)
  | processKey (client : ClientId) (handle : LocalHandle) (key : RawKey)
  | probe (client : ClientId)

namespace Delivery

/-- The reply, unless it got lost. -/
def reply {α : Type} (delivery : Delivery) (a : α) : Option α :=
  if delivery = .replied then some a else none

end Delivery

namespace World

variable {δ : Type} [DictionaryProvider δ]

/-- A daemon that has just started, and clients that have no handles. -/
def start (settings : Settings δ) : World δ where
  daemon := .new settings
  boot := 0
  createdFor _ := none
  clients _ := .new
  now := 0

/-- Edits the state of a client. -/
def edit (w : World δ) (client : ClientId) (f : Client → Client) : World δ :=
  { w with clients := Function.update w.clients client (f (w.clients client)) }

/-- The daemon creates a session, and the record says for which handle. -/
def createSession (w : World δ) (owner : Option (ClientId × LocalHandle)) (appId : Utf8.Str) :
    World δ × Ticket :=
  let (daemon, id) := w.daemon.createSession appId
  ({ w with daemon := daemon, createdFor := Function.update w.createdFor id owner }, ⟨id, w.boot⟩)

/-- The daemon knows the session. -/
def knows (w : World δ) (id : SessionId) : Bool := (w.daemon.sessions.get? id).isSome

/-- What an operation replies, does and puts out. The operations of a client work on its own
tables, and the calls to the daemon on the daemon that runs. -/
def exec [EucJp] (delivery : Delivery) (w : World δ) :
    (o : Op) → Reply o × World δ × List Applied
  | .nextHandle c =>
      ((w.clients c).handleCounter,
        w.edit c fun s => { s with handleCounter := s.handleCounter + 1 }, [])
  | .inCooldown c => ((w.clients c).inCooldown w.now, w, [])
  | .recordFailure c => ((), w.edit c fun s => s.recordFailure w.now, [])
  | .invalidateSessions c => ((), w.edit c Client.invalidateSessions, [])
  | .markRecovered c => ((), w.edit c Client.markRecovered, [])
  | .getEntry c handle => ((w.clients c).sessions.get? handle, w, [])
  | .insertEntry c handle entry =>
      ((), w.edit c fun s => { s with sessions := s.sessions.insert handle entry }, [])
  | .removeEntry c handle =>
      ((w.clients c).sessions.get? handle,
        w.edit c fun s => { s with sessions := s.sessions.erase handle }, [])
  | .setSession c handle ticket =>
      (((w.clients c).sessions.get? handle).isSome,
        w.edit c fun s => s.setSession handle ticket, [])
  | .createSession c owner appId =>
      if delivery = .requestLost then (none, w, [])
      else
        let (w', ticket) := w.createSession (owner.map fun handle => (c, handle)) appId
        (delivery.reply ticket, w', [])
  | .destroySession _ ticket =>
      if delivery = .requestLost then (none, w, [])
      else (delivery.reply (), { w with daemon := w.daemon.destroySession ticket.id }, [])
  | .processKey c handle ticket key =>
      if delivery = .requestLost then (none, w, [])
      else
        -- The key is applied even when its reply gets lost.
        let applied : List Applied :=
          if w.knows ticket.id then [⟨c, handle, w.createdFor ticket.id⟩] else []
        match w.daemon.processKey ticket.id key with
        | .ok (daemon, actions) =>
            (delivery.reply actions, { w with daemon := daemon }, applied)
        -- A panic answers nothing and leaves the session as it was.
        | .error _ => (none, w, applied)

/-- A restart forgets the sessions and starts counting them from 1; time passes for everyone
alike. -/
def happen : Event δ → World δ → World δ
  | .restart settings, w =>
      { w with daemon := .new settings, boot := w.boot + 1, createdFor := fun _ => none }
  | .tick ms, w => { w with now := w.now + ms }

/-- The program of a request, as the client of that request performs it. -/
def program : Request → Call PUnit
  | .createHandle c appId => do
      let _ ← ReconnectingClient.createHandle c appId
      pure ⟨⟩
  | .destroyHandle c handle => do
      let _ ← ReconnectingClient.destroyHandle c handle
      pure ⟨⟩
  | .processKey c handle key => do
      let _ ← ReconnectingClient.processKey c handle key
      pure ⟨⟩
  | .probe c => do
      let _ ← ReconnectingClient.probe c
      pure ⟨⟩

/-- Clients and daemon, as a machine whose programs are the calls of the adapters and the rounds
of the monitors. -/
def machine [EucJp] : Machine Op Reply (World δ) Request Delivery (Event δ) Applied where
  body := program
  exec := exec
  env := happen

end World

end Y2Skk
