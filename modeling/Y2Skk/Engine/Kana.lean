import Y2Skk.Engine.Midashi

/-!
# `Y2Skk.Engine.Kana`: the kana modes

`feedKana` runs one character through the transition table and commits its output.
`handleKana` is the key handler of Hiragana, Katakana and HalfWidthKatakana: mode
switches, the start of a reading, and everything else to `feedKana`.

The commands of a kana mode are characters, and are looked for in the start state only:
with romaji pending, the same character belongs to the table (`kanaStart`). A control
character drops the pending romaji and goes on to the application, without a redraw.

The table may hand a character back, which is fed again from the start state. The
recursion takes fuel, and `redispatchFuel` is enough (`Y2Skk.Proofs.Termination`). What
becomes of the pending romaji differs between the two ways of handing back: a wildcard
writes its output first, and a refusal drops it, as the source does.
-/

set_option autoImplicit false

namespace Y2Skk

open Outcome Utf8

namespace SkkEngine

variable {δ : Type} [DictionaryProvider δ]

/-- `feed_kana`: feeds a character into the kana state machine; a character handed back is fed
again from the start state. -/
def feedKana : Nat → SkkEngine δ → Char → KanaMode → Partial (SkkEngine δ × List EngineAction)
  | 0, _, _, _ => .error .stackOverflow
  | fuel + 1, self, ch, mode =>
    match self.kanaTable.transition self.kanaState ch mode with
    | .ok output nextState => do
        let self := { self with kanaState := nextState }
        if output.isEmpty then self.redraw
        -- The kana is committed at once. What stays pending is drawn.
        else if nextState.isEmpty then .ok (self, [.commit output, .clearPreedit])
        else return (self, [.commit output, ← self.preeditAction])
    -- The output of the pending romaji, then the character from the start state.
    | .okRetry output retry => do
        let (self, actions) ← feedKana fuel { self with kanaState := [] } retry mode
        .ok (self, (if output.isEmpty then [] else [.commit output]) ++ actions)
    | .noMatch _ retry =>
        let self := { self with kanaState := [] }
        match retry with
        | some retryCh => feedKana fuel self retryCh mode
        -- A character the table does not know is committed as it is.
        | none => .ok (self, [.commit [ch], .clearPreedit])

/-- The script of a kana phase. -/
def kanaModeOf : SkkPhase → KanaMode
  | .katakana => .katakana
  | .halfWidthKatakana => .halfWidth
  | _ => .hiragana

/-- BackSpace removes the last pending roman character; without one it belongs to the
application. -/
def kanaBackSpace (self : SkkEngine δ) : Partial (SkkEngine δ × List EngineAction) :=
  if !self.kanaState.isEmpty then { self with kanaState := self.kanaState.dropLast }.redraw
  else .ok (self, [.passthrough])

/-- Mode switches and starts of a composition, tried in the start state only. Which of them a
character is depends on the keybindings, in the order of the source. -/
def kanaStart (self : SkkEngine δ) (event : KeyEvent) (ch : Char) (mode : KanaMode) :
    Partial (SkkEngine δ × List EngineAction) :=
  if ch ∈ self.keybindings.asciiMode then .ok ({ self with phase := .ascii }, [.clearPreedit])
  else if ch ∈ self.keybindings.wideAsciiMode then
    .ok ({ self with phase := .wideAscii }, [.clearPreedit])
  else if ch ∈ self.keybindings.abbrevMode then
    { self with midashiDisplayMode := mode, midashiIsAbbrev := true, phase := .abbrev [] }.redraw
  else if ch ∈ self.keybindings.katakanaMode then
    .ok ({ self with phase := if self.phase = .katakana ∨ self.phase = .halfWidthKatakana
                              then .hiragana else .katakana }, [.clearPreedit])
  -- The uppercase letter is also the first letter of the reading.
  else if ch.isUpper then
    let self := { self with
      midashiDisplayMode := mode, midashiIsAbbrev := false, phase := .midashi [] [] }
    self.handleMidashi redispatchFuel event [] []
  else if ch = '\\' then
    { self with midashiDisplayMode := mode, phase := .codeInput .jis [] }.redraw
  else self.feedKana redispatchFuel ch mode

/-- `handle_kana`: a key in one of the three kana modes. C-j and C-q change the mode, Escape and
BackSpace take pending romaji back, and a character goes to the table or starts something. -/
def handleKana (self : SkkEngine δ) (event : KeyEvent) :
    Partial (SkkEngine δ × List EngineAction) :=
  let mode := kanaModeOf self.phase
  if event.key = .char 'j' ∧ event.modifiers.ctrl then
    .ok ({ self with phase := .hiragana, kanaState := [] }, [.clearPreedit])
  else if event.key = .char 'q' ∧ event.modifiers.ctrl then
    .ok ({ self with
        phase := if self.phase = .halfWidthKatakana then .hiragana else .halfWidthKatakana
        kanaState := [] }, [.clearPreedit])
  else if event.key = .escape then
    .ok ({ self with
        phase := if self.keybindings.viEscape then .ascii else self.phase
        kanaState := [] }, [.clearPreedit, .passthrough])
  else if event.key = .backSpace then self.kanaBackSpace
  else
    match event.printableChar with
    | none => .ok (self, [.passthrough])
    | some ch =>
        -- The pending romaji is dropped without a redraw here.
        if event.modifiers.ctrl then .ok ({ self with kanaState := [] }, [.passthrough])
        else if self.kanaState.isEmpty then self.kanaStart event ch mode
        else self.feedKana redispatchFuel ch mode

end SkkEngine

end Y2Skk
