import Y2Skk.Dict.Entry
import Y2Skk.Kana.Table
import Y2Skk.Num.Template

/-!
# `Y2Skk.Engine.State`: keys, keybindings, phases and the engine state

The data model of `engine.rs`, `key.rs` and `config.rs`. The engine is generic in its
dictionary providers: `SkkEngine δ` holds a stack `List δ`, highest priority first.

## Phases

`SkkPhase` is the state machine: the direct modes, the three kana modes, and the phases of
a composition, which carry what has been typed so far. A composition always knows the kana
mode it started from, but not in its phase: that is `midashiDisplayMode`, which the phases
of a composition return to. The pending romaji of a kana mode is `kanaState`.

## Differences from the source

Two representations differ from the source. The fields that `Selecting` and `PurgeConfirm`
share are one structure, `Selection`. The registration stack is a list with its top frame
at the head, where the source pushes and pops at the end of a `Vec`.

The defaults of `SkkKeybindings` are those of the source. Positions in a text (`cursor`,
`ghostStart`) are byte offsets as in the source, and so partial to use.
-/

set_option autoImplicit false

namespace Y2Skk

open Utf8 (Str)

/-- Platform-independent key identifier. Characters have one constructor, function keys are
known by their number, and any other keysym is kept as it is. -/
inductive Key where
  | char (c : Char)
  | space
  | returnKey
  | backSpace
  | delete
  | escape
  | tab
  | up
  | down
  | left
  | right
  | pageUp
  | pageDown
  | f (n : UInt8)
  /-- Unknown keysym. -/
  | other (sym : UInt32)
  deriving DecidableEq, Repr

/-- The modifier keys that are held. Two sets of modifiers are equal when all four agree, which
is how a toggle key is recognised. -/
structure Modifiers where
  shift : Bool := false
  ctrl : Bool := false
  alt : Bool := false
  metaKey : Bool := false
  deriving DecidableEq, Repr

/-- A key with its modifiers, pressed or released. -/
structure KeyEvent where
  key : Key
  modifiers : Modifiers
  isPress : Bool
  deriving DecidableEq, Repr

namespace KeyEvent

/-- The press of a key, as tests and re-dispatched characters make it. -/
def press (key : Key) (modifiers : Modifiers) : KeyEvent := ⟨key, modifiers, true⟩

/-- The presses of plain characters. -/
def typed (chars : Str) : List KeyEvent := chars.map fun c => press (.char c) {}

/-- The printable character of the event, whatever its modifiers are. -/
def printableChar (event : KeyEvent) : Option Char :=
  match event.key with
  | .char c => some c
  | .space => some ' '
  | _ => none

end KeyEvent

/-- Keybinding configuration: the command characters of the modes, and the keys of a
selection. -/
structure SkkKeybindings where
  asciiMode : List Char := ['l']
  wideAsciiMode : List Char := ['L']
  katakanaMode : List Char := ['q']
  abbrevMode : List Char := ['/']
  cancel : List Char := ['x']
  /-- Candidates shown one by one before the list is shown. -/
  inlineCount : Nat := 3
  selectionKeys : List Char := ['a', 's', 'd', 'f', 'j', 'k', 'l', ';']
  conversionTriggerChars : List Char := [',', '.', 'を']
  toggleKeys : List (Key × Modifiers) := [(.space, { shift := true })]
  rawModeToggleKeys : List (Key × Modifiers) := []
  viEscape : Bool := false
  deriving DecidableEq, Repr

/-- Preedit text sent to the application; `cursor` and `ghostStart` are byte offsets. -/
structure Preedit where
  text : Str
  cursor : Nat
  ghostStart : Option Nat
  deriving DecidableEq, Repr

/-- Output actions of `processKey`. -/
inductive EngineAction where
  | commit (text : Str)
  | updatePreedit (preedit : Preedit)
  | clearPreedit
  /-- A candidate page, the focused row, and the selection keys. -/
  | showCandidates (page : List Candidate) (focused : Nat) (selKeys : Str)
  | hideCandidates
  | updateStatus (indicator : Str)
  | passthrough
  | deleteBack
  deriving DecidableEq, Repr

/-- What a code that is being typed will be read as. -/
inductive CodeInputPrefix where
  /-- `\` — JIS code input. -/
  | jis
  /-- `\u` — Unicode code point. -/
  | unicode
  deriving DecidableEq, Repr

/-- Where a candidate came from: a dictionary entry, under the template forms to write back, or
the digit run alone. Only the former is learned under what it was looked up by. -/
inductive CandidateOrigin where
  | dict (templateMidashi templateWord : Str)
  | synthetic
  deriving DecidableEq, Repr

/-- The fields `Selecting` and `PurgeConfirm` share. `candidates` and `origin` are parallel
lists, and `index` is a position in both. -/
structure Selection where
  midashi : Str
  /-- Okurigana kana appended to the committed word. -/
  okuri : Option Str
  /-- Okurigana consonant key of the lookup, kept for learning. -/
  okuriKey : Option Str
  candidates : List Candidate
  /-- Origin of each candidate. -/
  origin : List CandidateOrigin
  index : Nat
  deriving DecidableEq, Repr

/-- The phase of the state machine, with the buffers of the composition that is under way.
Pending romaji is a field of the engine, not of the phase. -/
inductive SkkPhase where
  | hiragana
  | katakana
  | halfWidthKatakana
  | wideAscii
  | ascii
  | codeInput (codePrefix : CodeInputPrefix) (buf : Str)
  | abbrev (buf : Str)
  | midashi (kanaBuf romanBuf : Str)
  | okuri (midashi : Str) (okuriPrefix : Char) (kanaBuf : Str)
  | selecting (s : Selection)
  | purgeConfirm (s : Selection) (buf : Str) (returnMode : KanaMode)
  deriving DecidableEq, Repr

/-- One level of the dictionary registration mode: what is being registered, and the text typed
for it so far, with a cursor. -/
structure RegisterFrame where
  /-- Template reading, with `#` for each digit run. -/
  midashi : Str
  /-- Reading as typed, with its digits. -/
  originalMidashi : Str
  digitRuns : List Str
  okuriKey : Option Str
  okuriKana : Option Str
  /-- Text typed so far. -/
  committed : Str
  /-- Byte offset of the editing cursor in `committed`. -/
  cursor : Nat
  isAbbrev : Bool
  deriving DecidableEq, Repr

/-- Tab-completion state. -/
structure CompletionState where
  /-- Prefix that started the cycle. -/
  cyclePrefix : Str
  /-- Index of the completion to offer after the current preview. -/
  nextIndex : Nat
  /-- Headword shown as ghost text. -/
  preview : Str
  deriving DecidableEq, Repr

/-- The engine state. Everything a key press may change is here, and the configuration
besides. -/
structure SkkEngine (δ : Type) where
  phase : SkkPhase
  kanaState : Str
  kanaTable : KanaTable
  keybindings : SkkKeybindings
  dict : List δ
  /-- Top frame first. -/
  registerStack : List RegisterFrame
  midashiDisplayMode : KanaMode
  midashiIsAbbrev : Bool
  completion : Option CompletionState
  conversionTrigger : Option Str
  lispDirectives : Bool
  rawMode : Bool

namespace KanaMode

/-- The kana phase of a display mode. -/
def toPhase : KanaMode → SkkPhase
  | .katakana => .katakana
  | .halfWidth => .halfWidthKatakana
  | .hiragana => .hiragana

end KanaMode

namespace SkkPhase

/-- `clone_midashi`: the headword of an `Okuri` phase, `[]` in every other phase. -/
def cloneMidashi : SkkPhase → Str
  | .okuri headword _ _ => headword
  | _ => []

/-- The phases `with_initial_phase` accepts. -/
def isInitial : SkkPhase → Bool
  | .hiragana | .katakana | .halfWidthKatakana | .wideAscii | .ascii => true
  | _ => false

/-- Hiragana, Katakana or HalfWidthKatakana. -/
def isKana : SkkPhase → Bool
  | .hiragana | .katakana | .halfWidthKatakana => true
  | _ => false

end SkkPhase

namespace SkkEngine

variable {δ : Type}

/-- `SkkEngine::new`: a Hiragana engine without dictionaries, with nothing pending and no
registration open. -/
def new (kanaTable : KanaTable) (keybindings : SkkKeybindings) : SkkEngine δ where
  phase := .hiragana
  kanaState := []
  kanaTable := kanaTable
  keybindings := keybindings
  dict := []
  registerStack := []
  midashiDisplayMode := .hiragana
  midashiIsAbbrev := false
  completion := none
  conversionTrigger := none
  lispDirectives := true
  rawMode := false

/-- `with_lisp_directives`: whether the directives in the dictionaries are obeyed. -/
def withLispDirectives (self : SkkEngine δ) (enabled : Bool) : SkkEngine δ :=
  { self with lispDirectives := enabled }

/-- Sets the initial phase; mid-conversion phases are ignored. -/
def withInitialPhase (self : SkkEngine δ) (phase : SkkPhase) : SkkEngine δ :=
  if phase.isInitial then { self with phase := phase } else self

/-- `add_dict`: appends a provider and sorts the stack by descending priority, keeping the order
of equals. -/
def addDict [DictionaryProvider δ] (self : SkkEngine δ) (provider : δ) : SkkEngine δ :=
  { self with
      dict := (self.dict ++ [provider]).mergeSort fun a b =>
        DictionaryProvider.priority b ≤ DictionaryProvider.priority a }

/-- One of the configured toggle keys was pressed, with exactly its modifiers. -/
def isKeyOf (event : KeyEvent) (keys : List (Key × Modifiers)) : Bool :=
  keys.any fun k => decide (event.key = k.1 ∧ event.modifiers = k.2)

/-- The kana mode that the composition started from, which it returns to. -/
def kanaPhaseFromDisplayMode (self : SkkEngine δ) : SkkPhase := self.midashiDisplayMode.toPhase

/-- `current_mode_indicator`: the mode indicator of the status popup. A composition shows the
kana mode it started from; code input and the purge confirmation show Hiragana. -/
def currentModeIndicator (self : SkkEngine δ) : Str :=
  if self.rawMode then ['-']
  else
    match self.phase with
    | .katakana => ['ア']
    | .halfWidthKatakana => ['ｱ']
    | .ascii => ['a']
    | .wideAscii => ['Ａ']
    | .abbrev _ | .midashi _ _ | .okuri _ _ _ | .selecting _ =>
        match self.midashiDisplayMode with
        | .katakana => ['ア']
        | .halfWidth => ['ｱ']
        | .hiragana => ['あ']
    | _ => ['あ']

end SkkEngine

end Y2Skk
