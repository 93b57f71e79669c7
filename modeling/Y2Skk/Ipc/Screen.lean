import Y2Skk.Ipc.Daemon
import Y2Skk.Ipc.Dispatch
import Y2Skk.Ipc.World

/-!
# `Y2Skk.Ipc.Screen`: adapters, and what they show

A `Screen` is an `ActionSink` of which one can tell what it shows: the preedit and the
window of candidates. `LawfulScreen` says what each action of the engine does to it, in
terms of what is seen before and after, and not of how the adapter keeps it. An
`InputContext` has besides the keys and the events of its toolkit, and
`LawfulInputContext` says that a key is handled by asking the daemon and dispatching what
it answers.

## A desk

A `Desk` is the daemon with one context for each of its sessions. A toolkit gives every
context a screen of its own, or one screen to all of them (`InputContext.shared`).
Contexts are opened and closed, get keys and events of the toolkit, in any order. The
model leaves out the handles between a context and its session: a context is known by the
id of its session. All contexts belong to one process, and the daemon neither restarts nor
reloads its configuration.

## Calls that get lost

A call to the daemon may get lost on its way there or on its way back. The client library
then drops the sessions of all contexts, and gives each of them a new one with its next
key. The desk does this at once (`renewed`): the engines of all sessions are new, and what
the screens show stays as it was, drawn by engines that are gone. The keys of the cooldown
after a lost call, which reach no daemon, are calls that are lost as well.

## What is recorded

`drawnBy`, `listedBy` and `closed` are records of the model: the session that last drew
the preedit of a screen, the one that last drew its candidates, and that the toolkit has
closed the window of candidates since. They say whose state a shared screen is to be
compared with.
-/

set_option autoImplicit false

namespace Y2Skk

open Outcome
open Utf8 (Str byteLen)

/-! ### Screens -/

/-- The typed part of a preedit, and the ghost after it. -/
def Preedit.parts (preedit : Preedit) : Str × Str :=
  (Utf8.splitAtByte preedit.text (preedit.ghostStart.getD (byteLen preedit.text))).getD
    (preedit.text, [])

/-- What the user sees of an adapter. -/
structure View (π : Type) where
  /-- The preedit up to its ghost, which is drawn apart. -/
  typed : Str
  ghost : Str
  /-- The window of candidates; `none` when it is closed. -/
  popup : Option π
  /-- The window of candidates can be opened. -/
  ready : Bool
  deriving DecidableEq, Repr

/-- An adapter of which one can tell what it shows. `list` and `carries` are what distinguishes
the adapters: how rows are turned into a window, and which texts get through to the toolkit. -/
class Screen (σ : Type) (π : outParam Type) extends ActionSink σ where
  /-- `none`: the adapter has panicked. -/
  view : σ → Option (View π)
  /-- The window for the rows, the focused one and the selection keys. -/
  list : List IpcCandidate → UInt32 → Str → Option π
  /-- A commit hides the preedit. -/
  hides : Bool
  /-- The text gets through to the toolkit. -/
  carries : Str → Bool

namespace View

variable {π : Type}

/-- The preedit on display, its two parts together. -/
def preedit (v : View π) : Str := v.typed ++ v.ghost

/-- What an action of the engine does to a view. This is the specification of an adapter: it is
written in terms of what is seen. -/
def see (σ : Type) [Screen σ π] (v : View π) : EngineAction → View π
  | .commit _ =>
      { v with
        typed := if Screen.hides σ then [] else v.typed
        ghost := if Screen.hides σ then [] else v.ghost }
  | .updatePreedit preedit =>
      { v with typed := preedit.parts.1, ghost := preedit.parts.2 }
  | .clearPreedit => { v with typed := [], ghost := [] }
  | .showCandidates page focused selKeys =>
      { v with popup := if v.ready then
          Screen.list σ (page.map fun c => ⟨c.word, c.annotation.getD []⟩) focused.toUInt32 selKeys
        else none }
  | .hideCandidates => { v with popup := none }
  | .updateStatus _ | .passthrough | .deleteBack => v

end View

/-- The preedit can be sent: its offsets fit into 32 bits, beside the mark for no ghost. -/
def Preedit.Fits (preedit : Preedit) : Prop := byteLen preedit.text < noGhost.toNat

/-- Whether a preedit can be sent is seen from its length. -/
instance (preedit : Preedit) : Decidable preedit.Fits := inferInstanceAs (Decidable (_ < _))

/-- The texts of the action get through to the toolkit. -/
def EngineAction.Carried (σ : Type) {π : Type} [Screen σ π] : EngineAction → Prop
  | .commit text => Screen.carries σ text
  | .updatePreedit preedit => Screen.carries σ preedit.text ∧ preedit.Fits
  | _ => True

/-- Whether an action gets through can be computed, as far as the adapter's own test can. -/
instance (σ : Type) {π : Type} [Screen σ π] (a : EngineAction) : Decidable (a.Carried σ) := by
  unfold EngineAction.Carried
  split <;> infer_instance

/-- The action changes the preedit on display. -/
def EngineAction.drawsOn (σ : Type) {π : Type} [Screen σ π] : EngineAction → Bool
  | .updatePreedit _ | .clearPreedit => true
  | .commit _ => Screen.hides σ
  | _ => false

/-- The action changes the window of candidates. -/
def EngineAction.lists : EngineAction → Bool
  | .showCandidates _ _ _ | .hideCandidates => true
  | _ => false

/-- What an adapter has to do with the actions, one law for each. The offsets of a preedit are
asked to be character boundaries, and to fit into 32 bits, since no adapter does anything
sensible with others. -/
class LawfulScreen (σ : Type) {π : outParam Type} [Screen σ π] : Prop where
  commit {s : σ} {v : View π} {text : Str} : Screen.view s = some v → Screen.carries σ text →
    Screen.view (ActionSink.commit s text) = some (v.see σ (.commit text))
  updatePreedit {s : σ} {v : View π} {preedit : Preedit} : Screen.view s = some v →
    Utf8.IsBoundary preedit.text preedit.cursor →
    (∀ g, preedit.ghostStart = some g → Utf8.IsBoundary preedit.text g) → preedit.Fits →
    Screen.carries σ preedit.text →
    Screen.view (ActionSink.updatePreedit s preedit.text preedit.cursor.toUInt32
      (preedit.ghostStart.map Nat.toUInt32)) = some (v.see σ (.updatePreedit preedit))
  clearPreedit {s : σ} {v : View π} : Screen.view s = some v →
    Screen.view (ActionSink.clearPreedit s) = some (v.see σ .clearPreedit)
  showCandidates {s : σ} {v : View π} (rows : List IpcCandidate) (focused : UInt32)
    (selKeys : Str) : Screen.view s = some v →
    Screen.view (ActionSink.showCandidates s rows focused selKeys) =
      some { v with popup := if v.ready then Screen.list σ rows focused selKeys else none }
  hideCandidates {s : σ} {v : View π} : Screen.view s = some v →
    Screen.view (ActionSink.hideCandidates s) = some (v.see σ .hideCandidates)
  updateStatus {s : σ} {v : View π} (indicator : Str) (timeoutMs : UInt32) :
    Screen.view s = some v → Screen.view (ActionSink.updateStatus s indicator timeoutMs) = some v

/-! ### Input contexts -/

/-- How an adapter asks for the actions of a key. -/
abbrev ProcessKey := RawKey → Except ProcessKeyError (List IpcAction)

/-- A screen with the keys `κ` and the events `ε` of its toolkit. -/
class InputContext (σ : Type) (π κ ε : outParam Type) extends Screen σ π where
  /-- A new context. -/
  new : σ
  /-- All contexts have the same screen. -/
  shared : Bool
  handle : σ → ε → σ
  /-- The event closes the window of candidates. -/
  closes : ε → Bool
  /-- The key as the daemon is asked about it; `none`: the daemon is not asked. -/
  rawKey : κ → Option RawKey
  /-- What the adapter does after the actions: it answers whether the key is taken. -/
  finish : κ → DispatchResult × σ → Bool × σ
  /-- Handles a key. -/
  filterKey : σ → κ → ProcessKey → Bool × σ

/-- What a context has to do with keys and events. A new context shows nothing; an event closes
the window of candidates or leaves everything as it is; what an adapter does after the actions
of a key is not seen; and a key is handled by asking the daemon and dispatching its answer. -/
class LawfulInputContext (σ : Type) {π κ ε : outParam Type} [InputContext σ π κ ε] : Prop extends
    LawfulScreen σ where
  view_new : ∃ ready, Screen.view (InputContext.new : σ) = some ⟨[], [], none, ready⟩
  view_handle {s : σ} {v : View π} (e : ε) : Screen.view s = some v → ∃ ready,
    Screen.view (InputContext.handle s e) = some
      { v with popup := if InputContext.closes σ e then none else v.popup, ready := ready }
  view_finish {s : σ} {v : View π} (k : κ) (result : DispatchResult) : Screen.view s = some v →
    Screen.view (InputContext.finish k (result, s)).2 = some v
  filterKey_eq (s : σ) (k : κ) (processKey : ProcessKey) :
    InputContext.filterKey s k processKey = match InputContext.rawKey σ k with
      | none => (false, s)
      | some raw =>
        match processKey raw with
        | .error _ => (false, s)
        | .ok actions => InputContext.finish k (dispatch actions s)

/-! ### A desk -/

/-- The daemon and the screens of its contexts. -/
structure Desk (σ δ : Type) where
  daemon : SessionManager δ
  screens : SessionId → σ
  drawnBy : SessionId → Option SessionId
  listedBy : SessionId → Option SessionId
  closed : SessionId → Bool

/-- What happens at a desk. Every interleaving of the contexts is a list of these. -/
inductive DeskInput (κ ε : Type) where
  | openContext (appId : Str)
  | closeContext (id : SessionId)
  /-- The toolkit has a key for the context. The call to the daemon may get lost, and with it the
  sessions of all contexts. -/
  | key (id : SessionId) (key : κ) (delivery : Delivery)
  | event (id : SessionId) (event : ε)
  deriving DecidableEq, Repr

namespace Desk

variable {σ π κ ε δ : Type} [InputContext σ π κ ε] [DictionaryProvider δ]

/-- A desk without contexts. -/
def start (settings : Settings δ) : Desk σ δ where
  daemon := .new settings
  screens _ := InputContext.new
  drawnBy _ := none
  listedBy _ := none
  closed _ := false

variable (σ) in
/-- The screen of a context. -/
def screenOf (id : SessionId) : SessionId := if InputContext.shared σ then 0 else id

/-- The sessions after a call that got lost. `mark_failed` drops the session of every context of the
process, and the next key of a context gets it a new one; the desk, which names a session after its
context, puts the new one in the place of the old one at once. -/
def renewed (daemon : SessionManager δ) : SessionManager δ :=
  { daemon with
    sessions := daemon.sessions.mapValues fun _ =>
      { SessionManager.newEngine daemon.settings with dict := daemon.dict } }

/-- The daemon serves a key, and the client library hands over what it answers. The error stands
for a call that was lost, and for one not made during the cooldown after it. -/
def serve [EucJp] (daemon : SessionManager δ) (id : SessionId) (delivery : Delivery)
    (key : RawKey) : SessionManager δ × Except ProcessKeyError (List IpcAction) :=
  if delivery = .requestLost then (renewed daemon, .error .unavailable)
  else
    match daemon.processKey id key with
    | .ok (served, actions) =>
        if delivery = .replied then (served, .ok actions)
        -- The old session has got the key all the same, and the dictionary what it learned.
        else (renewed served, .error .unavailable)
    -- A panic answers nothing, which the client cannot tell from a call that got lost.
    | .error _ => (renewed daemon, .error .unavailable)

/-- A new context has a screen that shows nothing, unless it shares that of the others. -/
def openContext (self : Desk σ δ) (appId : Str) : Desk σ δ :=
  let (daemon, id) := self.daemon.createSession appId
  let opened : Desk σ δ := { self with daemon := daemon }
  if InputContext.shared σ then opened
  else
    { opened with
      screens := Function.update self.screens id InputContext.new
      drawnBy := Function.update self.drawnBy id (some id)
      listedBy := Function.update self.listedBy id (some id)
      closed := Function.update self.closed id false }

/-- A closed context leaves nothing behind but what it drew. -/
def closeContext (self : Desk σ δ) (id : SessionId) : Desk σ δ :=
  let forget := fun (owner : SessionId → Option SessionId) screen =>
    if owner screen = some id then none else owner screen
  { self with
    daemon := self.daemon.destroySession id
    drawnBy := forget self.drawnBy
    listedBy := forget self.listedBy }

/-- The engine of a session, as a key finds it: with the shared dictionaries in their present
state. -/
def engine? (self : Desk σ δ) (id : SessionId) : Option (SkkEngine δ) :=
  (self.daemon.sessions.get? id).map fun engine => { engine with dict := self.daemon.dict }

/-- What the engine of a session does about a key. -/
def answer [EucJp] (self : Desk σ δ) (id : SessionId) (k : κ) : List EngineAction :=
  match self.engine? id, InputContext.rawKey σ k with
  | some engine, some raw =>
    match engine.processKey (keyEventFromRaw raw) with
    | .ok (_, actions) => actions
    | .error _ => []
  | _, _ => []

/-- The toolkit hands a key to the context. The daemon is asked when the key has a raw form, and
what it answers is shown on the screen of the context when the reply arrives. -/
def key [EucJp] (self : Desk σ δ) (id : SessionId) (k : κ) (delivery : Delivery) :
    Desk σ δ × Bool :=
  let screen := screenOf σ id
  let (taken, shown) :=
    InputContext.filterKey (self.screens screen) k fun raw => (serve self.daemon id delivery raw).2
  let daemon :=
    match InputContext.rawKey σ k with
    | some raw => (serve self.daemon id delivery raw).1
    | none => self.daemon
  let seen := if delivery = .replied then self.answer id k else []
  let drawn := seen.any (EngineAction.drawsOn σ)
  let listed := seen.any EngineAction.lists
  let ready := ((Screen.view (self.screens screen)).map View.ready).getD false
  ({ daemon := daemon
     screens := Function.update self.screens screen shown
     drawnBy := if drawn then Function.update self.drawnBy screen (some id) else self.drawnBy
     listedBy := if listed then Function.update self.listedBy screen (some id) else self.listedBy
     closed := if listed then Function.update self.closed screen !ready else self.closed },
   taken)

/-- The toolkit tells the context of an event. -/
def event (self : Desk σ δ) (id : SessionId) (e : ε) : Desk σ δ :=
  let screen := screenOf σ id
  { self with
    screens := Function.update self.screens screen
      (InputContext.handle (self.screens screen) e)
    closed := if InputContext.closes σ e then Function.update self.closed screen true
      else self.closed }

/-- One input. It answers with the keys that go on to the application, and ignores inputs for a
context that is not there. -/
def step [EucJp] (self : Desk σ δ) : DeskInput κ ε → Desk σ δ × List (SessionId × κ)
  | .openContext appId => (self.openContext appId, [])
  | .closeContext id => (self.closeContext id, [])
  | .key id k delivery =>
      -- Only a context that is there gets keys and events.
      if (self.daemon.sessions.get? id).isSome then
        let (desk, taken) := self.key id k delivery
        (desk, if taken then [] else [(id, k)])
      else (self, [])
  | .event id e =>
      if (self.daemon.sessions.get? id).isSome then (self.event id e, []) else (self, [])

end Desk

end Y2Skk
