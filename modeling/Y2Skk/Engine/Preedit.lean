import Y2Skk.Engine.State

/-!
# `Y2Skk.Engine.Preedit`: completion and the preedit

`buildPreedit` assembles the text shown in the application: the registration prompt and
the text around its cursor when a registration is active, and in between the preedit of
the current phase, with the completion ghost behind the reading.

## Two layers

`buildInnerPreedit` is the preedit of the phase alone, and `placePreedit` puts it at the
registration cursor. The source does this inside one function with several returns; the
two are separated here, so that a proof about a phase need not look at the registration
stack. The cursor and the start of the ghost are byte offsets into the assembled text.

## What can go wrong

The preedit of a selection indexes the candidate list, and the preedit of a registration
slices the buffer at its cursor. Both are partial operations, and so is everything that
redraws. That the engine never panics is proved in `Y2Skk.Proofs.NoPanic`, from an
invariant of the state.

The candidate window is described by `listingShowAction`, which is the only place where a
page is cut out of the candidates.
-/

set_option autoImplicit false

namespace Y2Skk

open Outcome Utf8

/-- `GHOST_SEPARATOR`: between the typed portion and the completion ghost. -/
def ghostSeparator : Str := ['|']

/-- A reading in the script of the display mode. -/
def displayReading (mode : KanaMode) (kanaBuf : Str) : Str :=
  match mode with
  | .katakana => hiraganaToKatakana kanaBuf
  | .halfWidth => hiraganaToHalfwidth kanaBuf
  | .hiragana => kanaBuf

namespace SkkEngine

variable {δ : Type}

/-- The list that `find_completion` collects: the completions of `pre` over all providers in
order, first occurrences only. -/
def allCompletions [DictionaryProvider δ] (self : SkkEngine δ) (pre : Str) : List Str :=
  (self.dict.flatMap fun d => DictionaryProvider.complete d pre).foldl
    (fun acc w => if w ∈ acc then acc else acc ++ [w]) []

/-- `find_completion`: the completion at `startIndex` and the index after it. The completions
are computed again for every step of a cycle. -/
def findCompletion [DictionaryProvider δ] (self : SkkEngine δ) (pre : Str)
    (startIndex : Nat) : Option (Str × Nat) :=
  ((self.allCompletions pre)[startIndex]?).map fun word => (word, startIndex + 1)

/-- `update_completion`: recomputes the completion for `kanaBuf` from scratch. An empty reading
has none. -/
def updateCompletion [DictionaryProvider δ] (self : SkkEngine δ) (kanaBuf : Str) :
    SkkEngine δ :=
  if kanaBuf.isEmpty then { self with completion := none }
  else
    { self with
        completion := (self.findCompletion kanaBuf 0).map fun found =>
          { cyclePrefix := kanaBuf, nextIndex := found.2, preview := found.1 } }

/-- `build_inner_preedit`: the preedit of the current phase, without the registration prompt. It
can only fail on a selection without its focused candidate. -/
def buildInnerPreedit (self : SkkEngine δ) : Partial Str :=
  match self.phase with
  | .hiragana | .katakana | .halfWidthKatakana => .ok self.kanaState
  | .wideAscii | .ascii => .ok []
  | .abbrev buf => .ok ('▽' :: buf)
  | .codeInput .jis buf => .ok ('\\' :: buf)
  | .codeInput .unicode buf => .ok ('\\' :: 'u' :: buf)
  | .midashi kanaBuf romanBuf =>
      .ok ('▽' :: displayReading self.midashiDisplayMode kanaBuf ++ romanBuf)
  | .okuri midashi _ kanaBuf => .ok ('▽' :: midashi ++ ['*'] ++ kanaBuf ++ self.kanaState)
  | .selecting s => do
      let cand ← indexList s.candidates s.index
      let shown := '▼' :: cand.word ++ s.okuri.getD [] ++ self.conversionTrigger.getD []
      match cand.annotation with
      | some ann => .ok (shown ++ [';'] ++ ann)
      | none => .ok shown
  | .purgeConfirm _ buf _ => .ok ("really purge? (yes/no): ".toList ++ buf)

/-- The prompt of a registration of depth `depth`: a bracket for each level, the template of
what is registered, and its okurigana. -/
def registerPrompt (frame : RegisterFrame) (depth : Nat) : Str :=
  List.replicate depth '[' ++ ['辞', '書', '登', '録'] ++ List.replicate depth ']' ++ [' ']
    ++ frame.midashi ++ frame.okuriKana.getD [] ++ [':', ' ']

/-- The inner preedit placed at the registration cursor, or alone when no registration
is active. `cursorPos` is the cursor inside `inner`, where the ghost starts when there
is one. -/
def placePreedit (self : SkkEngine δ) (inner : Str) (cursorPos : Nat) (ghost : Bool) :
    Partial Preedit :=
  match self.registerStack with
  | frame :: _ => do
      let before ← sliceTo frame.committed frame.cursor
      let after ← sliceFrom frame.committed frame.cursor
      let pre := registerPrompt frame self.registerStack.length
      let cursor := byteLen pre + byteLen before + cursorPos
      .ok { text := pre ++ before ++ inner ++ after, cursor := cursor,
            ghostStart := if ghost then some cursor else none }
  | [] =>
      .ok { text := inner, cursor := cursorPos,
            ghostStart := if ghost then some cursorPos else none }

/-- The preedit without a ghost: the cursor is at the end of the inner preedit. -/
def plainPreedit (self : SkkEngine δ) : Partial Preedit := do
  let inner ← self.buildInnerPreedit
  self.placePreedit inner (byteLen inner) false

/-- `build_preedit`: the preedit of the current state. The ghost is shown in `Midashi` with no
pending romaji, and only when the preview extends the reading. -/
def buildPreedit (self : SkkEngine δ) : Partial Preedit :=
  match self.phase, self.completion with
  | .midashi kanaBuf [], some state =>
      if kanaBuf.isPrefixOf state.preview then do
        let display := displayReading self.midashiDisplayMode kanaBuf
        let ghostSuffix ← sliceFrom state.preview (byteLen kanaBuf)
        -- "▽" is 3 bytes.
        let cursorPos := 3 + byteLen display
        let inner := '▽' :: display ++ ghostSeparator ++ ghostSuffix
        self.placePreedit inner cursorPos true
      else self.plainPreedit
  | _, _ => self.plainPreedit

/-- `preedit_action`: the preedit as an action. -/
def preeditAction (self : SkkEngine δ) : Partial EngineAction := do
  return .updatePreedit (← self.buildPreedit)

/-- A handler that ends with `vec![self.preedit_action()]`: the state is kept and drawn. -/
def redraw (self : SkkEngine δ) : Partial (SkkEngine δ × List EngineAction) := do
  return (self, [← self.preeditAction])

/-- `listing_show_action`: the candidate page at `index`, in listing mode. A page has one row
for each selection key, and fewer at the end of the list. Without selection keys nothing is ever
listed. -/
def listingShowAction (self : SkkEngine δ) (candidates : List Candidate) (index : Nat) :
    Partial (Option EngineAction) :=
  let inlineCount := self.keybindings.inlineCount
  let selLen := self.keybindings.selectionKeys.length
  if selLen = 0 ∨ index < inlineCount then .ok none
  else do
    let page := (← dropFrom candidates index).take selLen
    let selKeys ← takeTo self.keybindings.selectionKeys page.length
    .ok (some (.showCandidates page 0 selKeys))

/-- `render_current_phase`: the display actions of the current phase, emitted when raw mode is
left. It looks at the phase and its romaji alone, and so a registration prompt is drawn only
together with a text of the phase. -/
def renderCurrentPhase (self : SkkEngine δ) : Partial (List EngineAction) :=
  match self.phase with
  | .ascii | .wideAscii => .ok [.clearPreedit]
  | .hiragana | .katakana | .halfWidthKatakana =>
      if self.kanaState.isEmpty then .ok [.clearPreedit]
      else do return [← self.preeditAction]
  | .selecting s => do
      let preedit ← self.preeditAction
      match ← self.listingShowAction s.candidates s.index with
      | some «show» => return [preedit, «show»]
      | none => return [preedit]
  | _ => do return [← self.preeditAction]

end SkkEngine

end Y2Skk
