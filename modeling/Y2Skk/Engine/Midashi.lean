import Y2Skk.Engine.Conversion

/-!
# `Y2Skk.Engine.Midashi`: typing a reading and its okurigana

`handleMidashi` and `handleOkuri`, with their branches as functions of their own. A
reading is kana that has settled (`kanaBuf`) and romaji that has not (`romanBuf`, which is
also the `kanaState` of the engine). Ending the reading settles a pending `n`, and drops
any other romaji.

## The ways out of a reading

Space converts, Return commits the reading as it is, Tab accepts a completion, a trigger
character converts and is committed behind the candidate, an affix character converts the
reading as a prefix, an uppercase letter starts the okurigana, and `q` commits the reading
in the other script. Escape and BackSpace on an empty reading leave the mode, to Hiragana.
Which of these keeps the display mode and which returns to Hiragana is as in the source.

## Okurigana

An uppercase letter starts the okurigana and is its first character. With a consonant
pending that this letter doubles, the kana of the pair belongs to the reading
(`settlesConsonant`). The conversion starts as soon as the table settles a kana
(`convertOkuri`), under a key that the table derives from the romaji of that kana.

## Recursion

The transition table can hand a character back to be typed again from the start state, so
`handleMidashi` recurses. It takes fuel, and running out of fuel is a stack overflow.
`redispatchFuel` is enough, since the start state hands nothing back.
-/

set_option autoImplicit false

namespace Y2Skk

open Outcome Utf8

/-- Levels of re-dispatch: the key itself, and the character handed back. -/
def redispatchFuel : Nat := 2

/-- `char::is_ascii`. -/
def isAscii (c : Char) : Bool := c.toNat < 128

/-- A printable character is one of `'>'`, `'<'`, `'?'`, which mark a prefix or a suffix. -/
def isAffixChar (c : Char) : Bool := c = '>' || c = '<' || c = '?'

namespace SkkEngine

variable {δ : Type} [DictionaryProvider δ]

/-- BackSpace in the okurigana: pending romaji first, then the settled kana; when nothing
is left, back to the reading. -/
def okuriBackSpace (self : SkkEngine δ) (midashi : Str) (okuriPrefix : Char) (kanaBuf : Str) :
    Partial (SkkEngine δ × List EngineAction) :=
  let kanaState := self.kanaState.dropLast
  let kanaBuf := if self.kanaState.isEmpty then kanaBuf.dropLast else kanaBuf
  let self := { self with kanaState := kanaState }
  if kanaState.isEmpty ∧ kanaBuf.isEmpty then
    -- The reading may be completed again.
    { self.updateCompletion midashi with phase := .midashi midashi [] }.redraw
  else { self with phase := .okuri midashi okuriPrefix kanaBuf }.redraw

/-- The okurigana is complete: convert under its key. -/
def convertOkuri (self : SkkEngine δ) (midashi : Str) (preState : Str) (lower : Char)
    (kanaBuf : Str) : Partial (SkkEngine δ × List EngineAction) :=
  { self with phase := .hiragana }.startConversion midashi
    (some (self.kanaTable.okuriKey preState lower, kanaBuf))

/-- `handle_okuri`: a key in the okurigana. An uppercase letter counts as its lowercase form,
and the first kana that is complete, with no romaji left, looks the reading up. -/
def handleOkuri (self : SkkEngine δ) (event : KeyEvent) (midashi : Str) (okuriPrefix : Char)
    (kanaBuf : Str) : Partial (SkkEngine δ × List EngineAction) :=
  if event.key = .escape then
    .ok ({ self with phase := .hiragana, kanaState := [] }, [.clearPreedit])
  else if event.key = .backSpace then self.okuriBackSpace midashi okuriPrefix kanaBuf
  else
    match event.printableChar with
    | none => .ok (self, [.passthrough])
    | some ch =>
      let lower := ch.toLower
      let preState := self.kanaState
      match self.kanaTable.transition preState lower .hiragana with
      | .ok output nextState =>
          let self := { self with kanaState := nextState }
          if !output.isEmpty ∧ nextState.isEmpty then
            self.convertOkuri midashi preState lower (kanaBuf ++ output)
          else { self with phase := .okuri midashi okuriPrefix (kanaBuf ++ output) }.redraw
      | .okRetry output _ =>
          -- The character handed back is dropped.
          let self := { self with kanaState := [] }
          if !output.isEmpty then self.convertOkuri midashi preState lower (kanaBuf ++ output)
          else { self with phase := .okuri midashi okuriPrefix kanaBuf }.redraw
      | .noMatch _ _ =>
          { self with kanaState := [], phase := .okuri midashi okuriPrefix kanaBuf }.redraw

/-- A reading with a pending `n` settled to `ん`; other pending romaji is dropped. -/
def flushN (kanaBuf romanBuf : Str) : Str :=
  if romanBuf = ['n'] then kanaBuf ++ ['ん'] else kanaBuf

/-- BackSpace in a reading: pending romaji first, then the settled kana; on an empty reading it
leaves the mode, for Hiragana. -/
def midashiBackSpace (self : SkkEngine δ) (kanaBuf romanBuf : Str) :
    Partial (SkkEngine δ × List EngineAction) :=
  if !romanBuf.isEmpty then
    { self with kanaState := romanBuf.dropLast, phase := .midashi kanaBuf romanBuf.dropLast }.redraw
  else if !kanaBuf.isEmpty then
    let self := { self with kanaState := [] }.updateCompletion kanaBuf.dropLast
    { self with phase := .midashi kanaBuf.dropLast romanBuf }.redraw
  else
    .ok ({ self with completion := none, phase := .hiragana, kanaState := [] }, [.clearPreedit])

/-- Enter commits the reading as it is, in Hiragana whatever it was shown in, and goes on to the
application. -/
def midashiReturn (self : SkkEngine δ) (kanaBuf romanBuf : Str) :
    Partial (SkkEngine δ × List EngineAction) :=
  let kanaBuf := flushN kanaBuf romanBuf
  .ok ({ self with
      completion := none, phase := self.kanaPhaseFromDisplayMode, kanaState := [] },
    if kanaBuf.isEmpty then [.clearPreedit, .passthrough]
    else [.commit kanaBuf, .clearPreedit, .passthrough])

/-- Space converts the reading. -/
def midashiSpace (self : SkkEngine δ) (kanaBuf romanBuf : Str) :
    Partial (SkkEngine δ × List EngineAction) :=
  let kanaBuf := flushN kanaBuf romanBuf
  let self := { self with completion := none, kanaState := [] }
  -- No reading: Space only leaves the mode.
  if kanaBuf.isEmpty then .ok ({ self with phase := .hiragana }, [.clearPreedit])
  else self.startConversion kanaBuf none

/-- Tab accepts the ghost text and advances the completion cycle. With romaji pending it does
neither, and the reading is drawn as it is. -/
def midashiTab (self : SkkEngine δ) (kanaBuf romanBuf : Str) :
    Partial (SkkEngine δ × List EngineAction) :=
  if romanBuf.isEmpty then
    match self.completion with
    | some state =>
        -- The preview becomes the reading; the cycle goes on with the prefix it started from.
        let next := self.findCompletion state.cyclePrefix state.nextIndex
        { self with
          completion := next.map fun (preview, nextIndex) =>
            { cyclePrefix := state.cyclePrefix, nextIndex := nextIndex, preview := preview }
          kanaState := []
          phase := .midashi state.preview [] }.redraw
    | none => { self with phase := .midashi kanaBuf romanBuf }.redraw
  else { self with phase := .midashi kanaBuf romanBuf }.redraw

/-- Ctrl+q commits the reading in half-width katakana. Pending romaji is dropped, an `n` as
well. -/
def midashiHalfwidth (self : SkkEngine δ) (kanaBuf : Str) :
    Partial (SkkEngine δ × List EngineAction) :=
  .ok ({ self with
      completion := none, phase := self.midashiDisplayMode.toPhase, kanaState := [] },
    if kanaBuf.isEmpty then [.clearPreedit]
    else [.commit (hiraganaToHalfwidth kanaBuf), .clearPreedit])

/-- The output of an ASCII trigger character: its kana when the table maps it in a single
step, else the character itself. -/
def triggerOutput (self : SkkEngine δ) (ch : Char) : Str :=
  match self.kanaTable.transition [] ch .hiragana with
  | .ok output nextState => if !output.isEmpty ∧ nextState.isEmpty then output else [ch]
  | _ => [ch]

/-- A trigger character ends the reading: convert it and remember the trigger, or leave
the mode when there is no reading. -/
def convertOnTrigger (self : SkkEngine δ) (kanaBuf trigger : Str) :
    Partial (SkkEngine δ × List EngineAction) :=
  let self := { self with completion := none, kanaState := [] }
  if kanaBuf.isEmpty then
    .ok ({ self with phase := self.kanaPhaseFromDisplayMode }, [.commit trigger, .clearPreedit])
  -- The trigger is set before the lookup says whether there are candidates.
  else { self with conversionTrigger := some trigger }.startConversion kanaBuf none

/-- `>`, `<` and `?` convert the reading as a prefix. -/
def midashiAffix (self : SkkEngine δ) (kanaBuf romanBuf : Str) :
    Partial (SkkEngine δ × List EngineAction) :=
  let kanaBuf := kanaBuf ++ romanBuf
  let self := { self with completion := none, kanaState := [] }
  if kanaBuf.isEmpty then { self with phase := .midashi kanaBuf [] }.redraw
  else self.startConversion (kanaBuf ++ ['>']) none

/-- The kana and state of a pending consonant that the lower-case form of `ch` settles
with more to come (`"s" + "S"` gives `っ`): that kana belongs to the reading. -/
def settlesConsonant (self : SkkEngine δ) (lower : Char) : Option (Str × Str) :=
  if self.kanaState.isEmpty then none
  else
    match self.kanaTable.transition self.kanaState lower .hiragana with
    | .ok output nextState =>
        if !output.isEmpty ∧ !nextState.isEmpty then some (output, nextState) else none
    | _ => none

/-- An uppercase letter starts the okurigana. A consonant that is still pending may be settled
by it and become a kana of the reading; otherwise `handle_okuri` gets the same key at once. -/
def midashiOkuri (self : SkkEngine δ) (event : KeyEvent) (ch : Char) (kanaBuf : Str) :
    Partial (SkkEngine δ × List EngineAction) :=
  let lower := ch.toLower
  let self := { self with completion := none }
  match self.settlesConsonant lower with
  | some (output, nextState) =>
      { self with
        kanaState := nextState
        phase := .okuri (kanaBuf ++ output) (nextState.head?.getD lower) [] }.redraw
  | none =>
      let okuriPrefix := self.kanaState.head?.getD lower
      let self := { self with phase := .okuri kanaBuf okuriPrefix [] }
      self.handleOkuri event self.phase.cloneMidashi okuriPrefix []

/-- `conversion_trigger_chars` has the non-ASCII last character of the reading. -/
def endsInTrigger (self : SkkEngine δ) (kanaBuf : Str) : Option Char :=
  kanaBuf.getLast?.filter fun last =>
    !isAscii last && decide (last ∈ self.keybindings.conversionTriggerChars)

/-- The table took the character (`TransitionResult::Ok`): its output goes to the reading, and
what the table waits with is shown behind it. A complete kana that is a trigger ends the reading
instead. -/
def midashiFeed (self : SkkEngine δ) (kanaBuf : Str) (output nextState : Str) :
    Partial (SkkEngine δ × List EngineAction) :=
  let self := { self with kanaState := nextState }
  if output.isEmpty then
    { self with completion := none, phase := .midashi kanaBuf nextState }.redraw
  else
    let kanaBuf := kanaBuf ++ output
    if nextState.isEmpty then
      -- A kana can be a trigger too, such as `を`. It is cut off the reading again.
      match self.endsInTrigger kanaBuf with
      | some last => do
          let kanaBuf ← truncate kanaBuf (byteLen kanaBuf - last.utf8Size)
          self.convertOnTrigger kanaBuf [last]
      | none => { self.updateCompletion kanaBuf with phase := .midashi kanaBuf nextState }.redraw
    else { self with completion := none, phase := .midashi kanaBuf nextState }.redraw

/-- `q` commits the reading in the other kana script: a reading shown in Hiragana as Katakana,
and any other as it is stored, in Hiragana. -/
def midashiToggleKana (self : SkkEngine δ) (kanaBuf : Str) :
    Partial (SkkEngine δ × List EngineAction) :=
  let committed := match self.midashiDisplayMode with
    | .hiragana => hiraganaToKatakana kanaBuf
    | _ => kanaBuf
  .ok ({ self with
      completion := none, phase := self.midashiDisplayMode.toPhase, kanaState := [] },
    [.commit committed, .clearPreedit])

/-- `handle_midashi`: a key in a reading. The arguments after the event are the buffers of the
phase, which the source takes out of it before it calls the handler. -/
def handleMidashi : Nat → SkkEngine δ → KeyEvent → Str → Str →
    Partial (SkkEngine δ × List EngineAction)
  | 0, _, _, _, _ => .error .stackOverflow
  | fuel + 1, self, event, kanaBuf, romanBuf =>
    if event.key = .escape then
      .ok ({ self with completion := none, phase := .hiragana, kanaState := [] }, [.clearPreedit])
    else if event.key = .backSpace then self.midashiBackSpace kanaBuf romanBuf
    else if event.key = .returnKey then self.midashiReturn kanaBuf romanBuf
    else if event.key = .space then self.midashiSpace kanaBuf romanBuf
    else if event.key = .tab then self.midashiTab kanaBuf romanBuf
    else if event.key = .char 'q' ∧ event.modifiers.ctrl then self.midashiHalfwidth kanaBuf
    else
      match event.printableChar with
      | none => .ok (self, [.passthrough])
      | some ch =>
        if isAscii ch ∧ self.kanaState.isEmpty ∧ ch ∈ self.keybindings.conversionTriggerChars then
          self.convertOnTrigger (flushN kanaBuf romanBuf) (self.triggerOutput ch)
        else if isAffixChar ch then self.midashiAffix kanaBuf romanBuf
        -- Digits belong to the reading, whatever the table says of them.
        else if ch.isDigit ∧ !event.modifiers.ctrl then
          { self with
            kanaState := []
            completion := none
            phase := .midashi (kanaBuf ++ [ch]) [] }.redraw
        else if ch.isUpper ∧ !kanaBuf.isEmpty then self.midashiOkuri event ch kanaBuf
        else
          match self.kanaTable.transition self.kanaState ch.toLower .hiragana with
          | .ok output nextState => self.midashiFeed kanaBuf output nextState
          | .okRetry output retry =>
              let kanaBuf := kanaBuf ++ output
              let self := { self with kanaState := [], phase := .midashi kanaBuf [] }
              handleMidashi fuel self (.press (.char retry) {}) kanaBuf []
          | .noMatch _ retry =>
              let self := { self with kanaState := [], phase := .midashi kanaBuf [] }
              match retry with
              | some retryCh => handleMidashi fuel self (.press (.char retryCh) {}) kanaBuf []
              | none =>
                  -- `q` is a command where the table has no use for it.
                  if ch = 'q' ∧ !event.modifiers.ctrl ∧ !kanaBuf.isEmpty then
                    self.midashiToggleKana kanaBuf
                  else self.redraw

end SkkEngine

end Y2Skk
