import Y2Skk.Engine.Conversion

/-!
# `Y2Skk.Engine.Register`: the registration mode

Each frame of the registration stack is an edit buffer with a byte cursor.
`finalizeRegister` learns what the top frame holds and hands its word to the application
or to the frame below. `cancelRegister` drops the top frame. While a registration is
active, `interceptForRegister` redirects what the phase handlers commit into the top
frame.

## The buffer

The operations of a frame insert, delete and move by characters, at a cursor that is a
byte offset. Each of them is partial, since it slices at the cursor;
`Y2Skk.Proofs.Invariant` keeps the cursor on a character boundary. What is typed for a
word may end in an annotation, behind the last semicolon (`splitRegisterAnnotation`).

## Nesting

A registration opened while another one is active is pushed on top of it, and its word
goes into the buffer of the one below when it is finished, without the okurigana. The
frames below are not touched until then.

## Interception

`interceptStep` decides what becomes of each action of a phase handler: text goes into the
buffer, the preedit is drawn again with the prompt around it, the candidate window is let
through, and a key that was to reach the application is swallowed, but for BackSpace
behind a commit, which edits the buffer.
-/

set_option autoImplicit false

namespace Y2Skk

open Outcome Utf8

/-- `str::rfind(';')`, as the text before and after the last `;`. -/
def splitLastSemicolon (buf : Str) : Option (Str × Str) :=
  if ';' ∈ buf then
    some ((buf.reverse.dropWhile (· ≠ ';')).tail.reverse, (buf.reverse.takeWhile (· ≠ ';')).reverse)
  else none

/-- Splits a registration buffer into its word and annotation at the last `;`, unless
that `;` is the first character. An empty annotation counts as none. -/
def splitRegisterAnnotation (buf : Str) : Str × Option Str :=
  match splitLastSemicolon buf with
  | some (word, annotation) =>
      if word.isEmpty then (buf, none)
      else (word, if annotation.isEmpty then none else some annotation)
  | none => (buf, none)

namespace RegisterFrame

/-- Inserts `text` at the cursor and moves the cursor behind it. -/
def insert (frame : RegisterFrame) (text : Str) : Partial RegisterFrame := do
  let committed ← insertStr frame.committed frame.cursor text
  .ok { frame with committed := committed, cursor := frame.cursor + byteLen text }

/-- The offset of the character before the cursor. It is only called with such a character
there. -/
def previous (frame : RegisterFrame) : Partial Nat := do
  let before ← sliceTo frame.committed frame.cursor
  let last ← unwrap (lastCharIndex before)
  .ok last.1

/-- Deletes the character before the cursor; at the start of the buffer there is none. -/
def backspace (frame : RegisterFrame) : Partial RegisterFrame :=
  if 0 < frame.cursor then do
    let idx ← frame.previous
    let committed ← removeAt frame.committed idx
    .ok { frame with committed := committed, cursor := idx }
  else .ok frame

/-- Deletes the character after the cursor; at the end of the buffer there is none. -/
def delete (frame : RegisterFrame) : Partial RegisterFrame :=
  if frame.cursor < byteLen frame.committed then do
    let committed ← removeAt frame.committed frame.cursor
    .ok { frame with committed := committed }
  else .ok frame

/-- Moves the cursor over the character before it. -/
def moveLeft (frame : RegisterFrame) : Partial RegisterFrame :=
  if 0 < frame.cursor then do
    let idx ← frame.previous
    .ok { frame with cursor := idx }
  else .ok frame

/-- Moves the cursor over the character after it. -/
def moveRight (frame : RegisterFrame) : Partial RegisterFrame :=
  if frame.cursor < byteLen frame.committed then do
    let after ← sliceFrom frame.committed frame.cursor
    let ch ← unwrap after.head?
    .ok { frame with cursor := frame.cursor + ch.utf8Size }
  else .ok frame

end RegisterFrame

namespace SkkEngine

variable {δ : Type} [DictionaryProvider δ]

/-- Edits the top frame (`if let Some(frame) = self.register_stack.last_mut()`). -/
def editTop (self : SkkEngine δ) (edit : RegisterFrame → Partial RegisterFrame) :
    Partial (SkkEngine δ) :=
  match self.registerStack with
  | frame :: frames => do
      let frame ← edit frame
      .ok { self with registerStack := frame :: frames }
  | [] => .ok self

/-- `reg_backspace`, on the top frame. -/
def regBackspace (self : SkkEngine δ) : Partial (SkkEngine δ) :=
  self.editTop RegisterFrame.backspace

/-- `reg_delete`, on the top frame. -/
def regDelete (self : SkkEngine δ) : Partial (SkkEngine δ) := self.editTop RegisterFrame.delete

/-- `reg_move_left`, on the top frame. -/
def regMoveLeft (self : SkkEngine δ) : Partial (SkkEngine δ) := self.editTop RegisterFrame.moveLeft

/-- `reg_move_right`, on the top frame. -/
def regMoveRight (self : SkkEngine δ) : Partial (SkkEngine δ) :=
  self.editTop RegisterFrame.moveRight

/-- `finalize_register`: completes the top frame. The word is learned under the template of the
frame, and committed with the okurigana when no other registration is open. -/
def finalizeRegister (self : SkkEngine δ) : Partial (SkkEngine δ × List EngineAction) :=
  match self.registerStack with
  | [] => .error .unwrap
  | frame :: frames => do
      let (word, annotation) := splitRegisterAnnotation frame.committed
      let self := { self with registerStack := frames }
      let self := self.learnAll ⟨frame.midashi, frame.okuriKey, [⟨word, annotation, none⟩]⟩
      match frames with
      | [] =>
          let self := { self with phase := .hiragana, kanaState := [] }
          .ok (self, [.commit (word ++ frame.okuriKana.getD []), .clearPreedit])
      | _ :: _ => do
          -- Only the word goes to the enclosing frame, without the okurigana.
          let self ← self.editTop (·.insert word)
          { self with phase := .hiragana, kanaState := [] }.redraw

/-- `cancel_register`: drops the top frame; the outermost one returns to the composition it came
from, and an inner one to the buffer of the frame below. -/
def cancelRegister (self : SkkEngine δ) : Partial (SkkEngine δ × List EngineAction) :=
  match self.registerStack with
  | [] => .error .unwrap
  | frame :: frames => do
      let self := { self with registerStack := frames, phase := .hiragana, kanaState := [] }
      match frames with
      | [] =>
          let self :=
            -- An abbrev reading goes back to its own mode.
            if frame.isAbbrev then { self with phase := .abbrev frame.originalMidashi }
            else
              { self with phase := .midashi frame.originalMidashi [] }.updateCompletion
                frame.originalMidashi
          return (self, [.hideCandidates, ← self.preeditAction])
      | _ :: _ => self.redraw

/-- The loop of `intercept_for_register`: the engine, the actions kept so far, and
whether the preedit has to be drawn again. -/
def interceptStep (acc : SkkEngine δ × List EngineAction × Bool) (action : EngineAction) :
    Partial (SkkEngine δ × List EngineAction × Bool) :=
  let (self, result, needPreedit) := acc
  match action with
  | .commit text => do
      let self ← self.editTop (·.insert text)
      .ok (self, result, true)
  -- Preedits of the handler are drawn again, with the prompt around them.
  | .clearPreedit | .updatePreedit _ => .ok (self, result, true)
  | .showCandidates .. | .hideCandidates | .updateStatus _ =>
      .ok (self, result ++ [action], needPreedit)
  -- No key reaches the application during a registration.
  | .passthrough => .ok (self, result, needPreedit)
  | .deleteBack => do
      let self ← self.regBackspace
      .ok (self, result, true)

/-- `intercept_for_register`: redirects the actions of a phase handler into the registration
buffer. A handler that answers nothing is drawn nevertheless. -/
def interceptForRegister (self : SkkEngine δ) (rawActions : List EngineAction) :
    Partial (SkkEngine δ × List EngineAction) := do
  let (self, result, needPreedit) ← rawActions.foldlM interceptStep (self, [], false)
  if needPreedit ∨ result.isEmpty then return (self, result ++ [← self.preeditAction])
  else .ok (self, result)

end SkkEngine

end Y2Skk
