import Y2Skk.Engine.Literal
import Y2Skk.Engine.Register
import Y2Skk.Engine.Selecting

/-!
# `Y2Skk.Engine.ProcessKey`: from a key event to actions

`handlePress` tries, in this order, raw mode, the keys the registration mode takes for
itself, the toggle keys, and the handler of the current phase. `processKey` adds the
status update when the mode indicator has changed.

## Raw mode

In raw mode the engine is frozen: every key goes to the application, and the state under
the empty display is kept for when the mode is left. The toggle keys of raw mode are
looked at first, so they work in every phase and during a registration.

## Registration

A registration takes some keys before the phase handler sees them, and which ones depends
on the phase: in the ready state, with nothing being composed, the keys that edit its
buffer and those that end it; in a composition only Return, which moves the reading into
the buffer, and Ctrl+g; in direct input all characters (`registrationKey`). What the phase
handler answers for any other key goes through `interceptForRegister`.

The function of the source is one long sequence of early returns. Each group of them is a
definition of its own here, which answers `none` where the source goes on.
-/

set_option autoImplicit false

namespace Y2Skk

open Outcome Utf8

namespace SkkEngine

variable {δ : Type} [DictionaryProvider δ] [EucJp]

/-- In a kana mode with no pending romaji, where a registration takes editing keys. -/
def inReadyState (self : SkkEngine δ) : Bool := self.phase.isKana && self.kanaState.isEmpty

/-- The key that aborts a registration, and nothing else. -/
def isCtrlG (event : KeyEvent) : Bool := event.key = .char 'g' && event.modifiers.ctrl

/-- Return finishes a registration, or drops it when nothing was typed. -/
def regReturn (self : SkkEngine δ) : Partial (SkkEngine δ × List EngineAction) :=
  match self.registerStack with
  | frame :: _ => if frame.committed.isEmpty then self.cancelRegister else self.finalizeRegister
  | [] => self.cancelRegister

/-- The cursor keys of the registration buffer. -/
def regEdit (self : SkkEngine δ) : Key → Option (Partial (SkkEngine δ))
  | .backSpace => some self.regBackspace
  | .delete => some self.regDelete
  | .left => some self.regMoveLeft
  | .right => some self.regMoveRight
  | _ => none

/-- A cursor key is followed by a redraw. -/
def regEditDrawn (self : SkkEngine δ) (key : Key) :
    Option (Partial (SkkEngine δ × List EngineAction)) :=
  (self.regEdit key).map fun edited => do
    let self ← edited
    self.redraw

/-- The text `Return` moves from a composition into the registration buffer. -/
def flushText : SkkPhase → Option Str
  | .abbrev buf => some buf
  | .midashi kanaBuf _ => some kanaBuf
  | .okuri headword _ _ => some headword
  | _ => none

/-- Puts `text` into the top frame and returns to the ready state. -/
def regFlush (self : SkkEngine δ) (text : Str) : Partial (SkkEngine δ × List EngineAction) := do
  let self := { self with phase := .hiragana, kanaState := [] }
  let self ← if !text.isEmpty then self.editTop (·.insert text) else .ok self
  self.redraw

/-- The keys a registration takes in direct input: they edit its buffer instead of
reaching the application. -/
def regAsciiKey (self : SkkEngine δ) (event : KeyEvent) :
    Option (Partial (SkkEngine δ × List EngineAction)) :=
  if event.key = .returnKey then some self.regReturn
  else if event.key = .escape then some self.cancelRegister
  else
    match self.regEditDrawn event.key with
    | some edited => some edited
    | none =>
      match event.printableChar with
      | some ch =>
          if event.modifiers.ctrl then none
          else some do
            let self ← self.editTop (·.insert [ch])
            self.redraw
      | none => none

/-- The keys a registration takes for itself in the ready state. -/
def regReadyKey (self : SkkEngine δ) (event : KeyEvent) :
    Option (Partial (SkkEngine δ × List EngineAction)) :=
  if event.key = .returnKey then some self.regReturn
  else if isCtrlG event ∨ event.key = .escape then some self.cancelRegister
  else self.regEditDrawn event.key

/-- The keys a registration takes before the phase handler sees them: in the ready state those
of its buffer, and during a composition C-g, which aborts it, and Return, which moves its text
into the buffer. -/
def registrationKey (self : SkkEngine δ) (event : KeyEvent) :
    Option (Partial (SkkEngine δ × List EngineAction)) :=
  if self.registerStack.isEmpty then none
  else if self.inReadyState then self.regReadyKey event
  else if isCtrlG event then
    -- Only the phase and the romaji are reset before the frame is dropped.
    some { self with phase := .hiragana, kanaState := [] }.cancelRegister
  else
    match flushText self.phase with
    | some text => if event.key = .returnKey then some (self.regFlush text) else none
    | none => if self.phase = .ascii then self.regAsciiKey event else none

/-- The handler of the current phase, with the buffers that the phase carries. The three kana
modes share one. -/
def dispatch (self : SkkEngine δ) (event : KeyEvent) : Partial (SkkEngine δ × List EngineAction) :=
  match self.phase with
  | .ascii => self.handleAscii event
  | .hiragana | .katakana | .halfWidthKatakana => self.handleKana event
  | .wideAscii => self.handleWideAscii event
  | .codeInput codePrefix buf => self.handleCodeInput event codePrefix buf
  | .abbrev buf => self.handleAbbrev event buf
  | .midashi kanaBuf romanBuf => self.handleMidashi redispatchFuel event kanaBuf romanBuf
  | .okuri midashi okuriPrefix kanaBuf => self.handleOkuri event midashi okuriPrefix kanaBuf
  | .selecting s => self.handleSelecting event s
  | .purgeConfirm _ buf _ => self.handlePurgeConfirm event buf

/-- A toggle key was pressed outside a registration. -/
def isToggle (self : SkkEngine δ) (event : KeyEvent) : Bool :=
  self.registerStack.isEmpty && isKeyOf event self.keybindings.toggleKeys

/-- The toggle keys switch between `Ascii` and Hiragana. -/
def toggle (self : SkkEngine δ) : SkkEngine δ × List EngineAction :=
  (if self.phase = .ascii then { self with phase := .hiragana }
   else { self with phase := .ascii, kanaState := [] }, [.clearPreedit])

/-- A key press with raw mode off, past its toggle keys: a registration may take the key, then
the toggle keys, then the phase. -/
def handleCooked (self : SkkEngine δ) (event : KeyEvent) :
    Partial (SkkEngine δ × List EngineAction) :=
  match self.registrationKey event with
  | some early => early
  | none =>
    if self.isToggle event then .ok self.toggle
    else do
      let (self, rawActions) ← self.dispatch event
      -- A registration takes what the handler commits.
      if !self.registerStack.isEmpty then self.interceptForRegister rawActions
      else .ok (self, rawActions)

/-- A key that enters or leaves raw mode. -/
def isRawToggle (self : SkkEngine δ) (event : KeyEvent) : Bool :=
  isKeyOf event self.keybindings.rawModeToggleKeys

/-- A key press: raw mode first, then everything else. The keys that toggle raw mode are tested
before any registration or phase can take them. -/
def handlePress (self : SkkEngine δ) (event : KeyEvent) :
    Partial (SkkEngine δ × List EngineAction) :=
  if self.rawMode then
    if self.isRawToggle event then do
      let self := { self with rawMode := false }
      return (self, ← self.renderCurrentPhase)
    -- In raw mode the engine is frozen.
    else .ok (self, [.passthrough])
  else if self.isRawToggle event then
    -- The state is kept under the empty display, and `renderCurrentPhase` draws it again.
    .ok ({ self with rawMode := true }, [.hideCandidates, .clearPreedit])
  else self.handleCooked event

/-- `process_key`: a release is passed on, and a press is answered with what its handler says,
and a status update when the indicator has changed. -/
def processKey (self : SkkEngine δ) (event : KeyEvent) :
    Partial (SkkEngine δ × List EngineAction) :=
  if !event.isPress then .ok (self, [.passthrough])
  else do
    let before := self.currentModeIndicator
    let (self, actions) ← self.handlePress event
    let after := self.currentModeIndicator
    .ok (self, if after ≠ before then actions ++ [.updateStatus after] else actions)

end SkkEngine

end Y2Skk
