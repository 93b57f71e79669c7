import Y2Skk.Ipc.Daemon
import Y2Skk.Lib.Program

/-!
# `Y2Skk.Ipc.Reconnect`: the reconnecting client

A `ReconnectingClient` gives its callers handles, and keeps the daemon session of each
handle to itself. `createHandle`, `destroyHandle`, `processKey` and a round of the
background monitor (`probe`) are programs over the atomic operations `Op`: what happens
under one lock, and the calls to the daemon. `Y2Skk.Ipc.World` says what the operations
do.

## Failures

A call that fails puts the client into a cooldown, during which no call is made, and drops
the session ids of all its handles (`markFailed`). These are two operations, under two
locks: another thread of the client may run between them. A handle without a session gets
one with its next key (`ensureDaemonSession`), and a session that the daemon does not know
is created anew, once for each key (`recreateDaemonSession`).

## Ids that outlive their daemon

Session ids carry the number of the daemon start they come from. No program looks at it;
it is there to speak about ids that have outlived their daemon. The id 0 is never issued,
and stands for a session that was not created yet.

A program reads like the function of the source that it models, with a `match` for each
early return. Where the source would panic the program aborts.
-/

set_option autoImplicit false

namespace Y2Skk

open Concurrent
open Utf8 (Str)

/-- A client process. -/
abbrev ClientId := Nat

/-- Opaque handle of an input context. -/
abbrev LocalHandle := UInt32

/-- A session id with the number of the daemon start that issued it; the id 0 stands for a
session that was not created yet. -/
structure Ticket where
  id : SessionId
  boot : Nat
  deriving DecidableEq, Repr

namespace Ticket

/-- The id of a handle whose session is still to be created. -/
def unset : Ticket := ⟨0, 0⟩

end Ticket

/-- The state of one handle. -/
structure SessionEntry where
  appId : Str
  daemonSessionId : Ticket
  deriving DecidableEq, Repr

/-- `zbus::Error`, as far as `process_key` tells its errors apart: one of them says that the
session is gone. -/
inductive ProcessKeyError where
  /-- The daemon is unreachable: treat the key as a passthrough. -/
  | unavailable
  | unknownHandle
  deriving DecidableEq, Repr

/-- The atomic operations of a client. A session is created for a handle, or by the monitor. -/
inductive Op where
  | nextHandle (client : ClientId)
  | inCooldown (client : ClientId)
  /-- The first lock of `mark_failed`. -/
  | recordFailure (client : ClientId)
  /-- The second lock of `mark_failed`. -/
  | invalidateSessions (client : ClientId)
  | markRecovered (client : ClientId)
  | getEntry (client : ClientId) (handle : LocalHandle)
  | insertEntry (client : ClientId) (handle : LocalHandle) (entry : SessionEntry)
  | removeEntry (client : ClientId) (handle : LocalHandle)
  /-- Replaces the session id of a handle; answers whether the handle is there. -/
  | setSession (client : ClientId) (handle : LocalHandle) (ticket : Ticket)
  | createSession (client : ClientId) (owner : Option LocalHandle) (appId : Str)
  | destroySession (client : ClientId) (ticket : Ticket)
  | processKey (client : ClientId) (handle : LocalHandle) (ticket : Ticket) (key : RawKey)

/-- The replies, each of the type its operation answers with. Calls to the daemon answer `none`
when they fail. -/
abbrev Reply : Op → Type
  | .nextHandle _ => LocalHandle
  | .inCooldown _ => Bool
  | .recordFailure _ | .invalidateSessions _ | .markRecovered _ => Unit
  | .getEntry _ _ | .removeEntry _ _ => Option SessionEntry
  | .insertEntry _ _ _ => Unit
  | .setSession _ _ _ => Bool
  | .createSession _ _ _ => Option Ticket
  | .destroySession _ _ => Option Unit
  | .processKey _ _ _ _ => Option (List IpcAction)

/-- A program of a client. -/
abbrev Call := Program Op Reply

namespace Op

/-- The program of one operation. -/
def run (o : Op) : Call (Reply o) := Program.call o

end Op

namespace ReconnectingClient

/-- `in_cooldown`: whether calls are held back at present. -/
def inCooldown (self : ClientId) : Call Bool := Op.run (.inCooldown self)

/-- The entry of a handle, as one look under the lock finds it. -/
def getEntry (self : ClientId) (handle : LocalHandle) : Call (Option SessionEntry) :=
  Op.run (.getEntry self handle)

/-- Removes the entry of a handle and answers with it. -/
def removeEntry (self : ClientId) (handle : LocalHandle) : Call (Option SessionEntry) :=
  Op.run (.removeEntry self handle)

/-- Replaces the session id of a handle, if the handle is still there. -/
def setSession (self : ClientId) (handle : LocalHandle) (ticket : Ticket) : Call Bool :=
  Op.run (.setSession self handle ticket)

/-- `mark_failed`: records a failure and invalidates all session ids. The two are done under two
locks, one after the other. -/
def markFailed (self : ClientId) : Call Unit := do
  Op.run (.recordFailure self)
  Op.run (.invalidateSessions self)

/-- `mark_recovered`: the failures are forgotten, and the cooldown ends. -/
def markRecovered (self : ClientId) : Call Unit := Op.run (.markRecovered self)

/-- `try_create_daemon_session`: asks the daemon for a session. -/
def tryCreateDaemonSession (self : ClientId) (owner : Option LocalHandle) (appId : Str) :
    Call (Option Ticket) :=
  Op.run (.createSession self owner appId)

/-- The call that destroys a session. -/
def callDestroySession (self : ClientId) (ticket : Ticket) : Call (Option Unit) :=
  Op.run (.destroySession self ticket)

/-- The call that sends a key. -/
def callProcessKey (self : ClientId) (handle : LocalHandle) (ticket : Ticket) (key : RawKey) :
    Call (Option (List IpcAction)) :=
  Op.run (.processKey self handle ticket key)

/-- `create_handle`: allocates a handle; during a cooldown, or when the daemon does not answer,
its session is left to the first key. -/
def createHandle (self : ClientId) (appId : Str) : Call LocalHandle := do
  let handle ← Op.run (.nextHandle self)
  let cooldown ← inCooldown self
  let ticket ←
    (if cooldown = true then pure Ticket.unset
    else do
      match ← tryCreateDaemonSession self (some handle) appId with
      | some ticket => pure ticket
      | none => do
          markFailed self
          pure Ticket.unset)
  Op.run (.insertEntry self handle ⟨appId, ticket⟩)
  pure handle

/-- `destroy_handle`: removes a handle and, outside a cooldown, its session. In a cooldown the
session stays with the daemon. -/
def destroyHandle (self : ClientId) (handle : LocalHandle) : Call Unit := do
  match ← removeEntry self handle with
  | some entry =>
      if entry.daemonSessionId.id ≠ 0 then do
        let cooldown ← inCooldown self
        if cooldown = true then pure ()
        else do
          let _ ← callDestroySession self entry.daemonSessionId
          pure ()
      else pure ()
  | none => pure ()

/-- `ensure_daemon_session`: the session of a handle, created when it is not there yet. The
handle may be destroyed between the two looks at it, and the source unwraps there. -/
def ensureDaemonSession (self : ClientId) (handle : LocalHandle) :
    Call (Except ProcessKeyError Ticket) := do
  match ← getEntry self handle with
  | none => pure (.error .unknownHandle)
  | some entry =>
      if entry.daemonSessionId.id ≠ 0 then pure (.ok entry.daemonSessionId)
      else do
        match ← tryCreateDaemonSession self (some handle) entry.appId with
        | some ticket => do
            let found ← setSession self handle ticket
            -- `get_mut(&handle).unwrap()`
            if found = true then pure (.ok ticket) else Program.abort
        | none => do
            markFailed self
            pure (.error .unavailable)

/-- `recreate_daemon_session`: a new session for a handle whose session the daemon does not know
any more. The handle may be gone in the meantime, and then nothing is created. -/
def recreateDaemonSession (self : ClientId) (handle : LocalHandle) : Call (Option Ticket) := do
  match ← getEntry self handle with
  | none => pure none
  | some entry => do
      match ← tryCreateDaemonSession self (some handle) entry.appId with
      | none => pure none
      | some ticket => do
          let _ ← setSession self handle ticket
          pure (some ticket)

/-- `process_key`: sends a key to the session of a handle. When the daemon does not know the
session, it is created anew and the key is sent once more, but not a third time. -/
def processKey (self : ClientId) (handle : LocalHandle) (key : RawKey) :
    Call (Except ProcessKeyError (List IpcAction)) := do
  let cooldown ← inCooldown self
  if cooldown = true then pure (.error .unavailable)
  else do
    match ← ensureDaemonSession self handle with
    | .error e => pure (.error e)
    | .ok ticket => do
        match ← callProcessKey self handle ticket key with
        | some actions =>
            -- The daemon runs but does not know the session, as after a restart.
            if actions.any (fun a => a.kind = actionSessionInvalid) = true then do
              match ← recreateDaemonSession self handle with
              | some ticket => do
                  match ← callProcessKey self handle ticket key with
                  | some actions => do
                      markRecovered self
                      pure (.ok actions)
                  | none => do
                      markFailed self
                      pure (.error .unavailable)
              | none => do
                  markFailed self
                  pure (.error .unavailable)
            else do
              markRecovered self
              pure (.ok actions)
        | none => do
            markFailed self
            pure (.error .unavailable)

/-- One round of `monitor_loop`, after its waits. It creates a session to see whether the daemon
is there, and destroys it again; a failure is recorded without touching the session ids. -/
def probe (self : ClientId) : Call Unit := do
  match ← tryCreateDaemonSession self none "y2skk-probe".toList with
  | some ticket => do
      let _ ← callDestroySession self ticket
      markRecovered self
  | none => Op.run (.recordFailure self)

end ReconnectingClient

end Y2Skk
