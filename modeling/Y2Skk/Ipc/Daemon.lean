import Y2Skk.Engine.Session
import Y2Skk.Ipc.Message

/-!
# `Y2Skk.Ipc.Daemon`: the sessions of the daemon

`SessionManager` keeps one engine for each session. Sessions have the ids 1, 2, 3, …, and
a restarted daemon counts from 1 again (`SessionManager.new`), so an id that a client has
kept may name another session by then. The ids are 32 bits wide and wrap around.

## Shared dictionaries

The engines share their dictionaries behind `Arc`s, so the stack is kept once, in the
manager: `processKey` lends it to the engine for the time of a key. What one session
learns the others see with their next key. The stack inside an engine that is not
processing a key is never read.

## What is sent

A key is answered with the actions of the engine, as flat records. When the indicator is
off its status updates are dropped, and otherwise they carry the timeout of the indicator.
For a session that does not exist the answer is a single action that says so, and no
engine is touched.
-/

set_option autoImplicit false

namespace Y2Skk

open Outcome
open Utf8 (Str)

/-- The id of a session, as it goes over D-Bus. -/
abbrev SessionId := UInt32

/-- What a configuration gives the engines, with its dictionaries loaded. The daemon keeps them
for the sessions that are created later. -/
structure Settings (δ : Type) where
  kanaTable : KanaTable
  keybindings : SkkKeybindings
  initialPhase : SkkPhase
  /-- The user dictionary, then the others. -/
  providers : List δ
  /-- 0 when the indicator is off. -/
  indicatorTimeoutMs : UInt32
  lispDirectives : Bool

/-- The state of the daemon that keys and reloads work on. -/
structure SessionManager (δ : Type) where
  sessions : OrdMap SessionId (SkkEngine δ)
  nextId : SessionId
  settings : Settings δ
  /-- The dictionary stack all engines share. -/
  dict : List δ

namespace SessionManager

variable {δ : Type} [DictionaryProvider δ]

/-- The engine of a new session, in its initial mode. -/
def newEngine (settings : Settings δ) : SkkEngine δ :=
  .fresh settings.kanaTable settings.keybindings settings.lispDirectives settings.initialPhase
    settings.providers

/-- A manager without sessions, as the daemon has it when it starts. -/
def new (settings : Settings δ) : SessionManager δ where
  sessions := .empty
  nextId := 1
  settings := settings
  dict := (newEngine settings).dict

/-- `create_session`: creates a session and returns its id; the application's name is not
used. -/
def createSession (self : SessionManager δ) (_appId : Str) : SessionManager δ × SessionId :=
  ({ self with
      sessions := self.sessions.insert self.nextId
        { newEngine self.settings with dict := self.dict }
      nextId := self.nextId + 1 }, self.nextId)

/-- `destroy_session`: an id that is not there changes nothing. -/
def destroySession (self : SessionManager δ) (sessionId : SessionId) : SessionManager δ :=
  { self with sessions := self.sessions.erase sessionId }

/-- The actions of a key as they are sent: without status updates when the indicator is off,
and with its timeout in `cursor`. -/
def ipcActions (self : SessionManager δ) (actions : List EngineAction) : List IpcAction :=
  ((actions.map IpcAction.ofEngine).filter fun a =>
    !(decide (a.kind = actionUpdateStatus) && decide (self.settings.indicatorTimeoutMs = 0))).map
      fun a => if a.kind = actionUpdateStatus then
        { a with cursor := self.settings.indicatorTimeoutMs } else a

/-- `process_key`: processes a key for a session. The dictionaries are the daemon's, not the
session's, and a session the daemon does not know gets a single `SessionInvalid`. -/
def processKey [EucJp] (self : SessionManager δ) (sessionId : SessionId) (key : RawKey) :
    Partial (SessionManager δ × List IpcAction) :=
  match self.sessions.get? sessionId with
  | none => .ok (self, [.sessionInvalid])
  | some engine => do
      -- The key sees what other sessions have learned, and they will see what it learns.
      let (engine, actions) ← { engine with dict := self.dict }.processKey (keyEventFromRaw key)
      .ok ({ self with sessions := self.sessions.insert sessionId engine, dict := engine.dict },
        self.ipcActions actions)

end SessionManager

end Y2Skk
