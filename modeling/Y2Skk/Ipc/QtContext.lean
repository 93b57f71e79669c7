import Y2Skk.Ipc.Gtk
import Y2Skk.Ipc.Qt
import Y2Skk.Lib.Measure

/-!
# `Y2Skk.Ipc.QtContext`: the Qt adapter

The Rust side is the one of the GTK adapters with the keys translated, and it never
commits a key itself. The C++ side tells the focused object of the preedit with a
`QInputMethodEvent`, whose positions count UTF-16 code units. The engine sends byte
offsets, so each is translated: it is the length of the text before it.

## Offsets

A byte offset inside a character, or behind the end, has no such text: then the event is
undefined (`none`). `Y2Skk.Lib.Measure` is used for both kinds of position, which address
the same prefix of the text. That the source casts the two offsets to signed integers
before it cuts the text has no part in the model: for the offsets that fit the casts
change nothing.

## The window

The candidates are in one window, made at the first call and hidden afterwards. It paints
at most `kMaxVisible` rows, whatever it is given: the selection keys of the configuration
are not checked against this bound, so with more of them the last rows of a page are not
painted. Without rows an empty window is shown, since the window is hidden for want of
rows before it is put on the screen.

What depends on the geometry of the screen is not modelled, and neither is the window of
the mode indicator, whose callback does nothing here.
-/

set_option autoImplicit false

namespace Y2Skk.Qt

open Measure
open Utf8 (Str byteLen)

/-! ### Strings -/

/-- The UTF-16 code units of a character. -/
def qcharSize (c : Char) : Nat := if c.toNat < 0x10000 then 1 else 2

/-- `QString::length`: the length in UTF-16 code units. -/
def qlength (s : Str) : Nat := measure qcharSize s

/-- The length of `QString::fromUtf8(text, size)`. -/
def lengthOfPrefix (text : Str) (size : Nat) : Option Nat :=
  (Utf8.splitAtByte text size).map fun p => qlength p.1

/-! ### Events -/

/-- An attribute of a preedit, over a start and a length. -/
inductive Attribute where
  | underline (start length : Nat)
  /-- In grey. -/
  | grey (start length : Nat)
  | cursor (position : Nat)
  deriving DecidableEq, Repr

/-- What the focused object is told: a preedit with its attributes, and a text to commit. -/
structure QInputMethodEvent where
  preedit : Str := []
  attributes : List Attribute := []
  commitString : Str := []
  deriving DecidableEq, Repr

/-- The ghost of an update, when it lies before the end of the text. A ghost at the end would be
empty. -/
def ghostOf (text : Str) (ghostStart : UInt32) : Option UInt32 :=
  if ghostStart ≠ noGhost ∧ ghostStart < (byteLen text).toUInt32 then some ghostStart else none

/-- The attributes of a preedit with a ghost: what is typed is underlined, and the rest is
grey. -/
def ghostAttributes (charGhost length : Nat) : List Attribute :=
  let ghostLen := length - charGhost
  (if charGhost > 0 then [.underline 0 charGhost] else []) ++
    if ghostLen > 0 then [.grey charGhost ghostLen] else []

/-- The event for a preedit. Without a ghost all of it is underlined; the cursor comes last. -/
def preeditEvent (text : Str) (cursor ghostStart : UInt32) : Option QInputMethodEvent := do
  let length := qlength text
  let attrs ← match ghostOf text ghostStart with
    | some ghost =>
        (lengthOfPrefix text ghost.toNat).map fun charGhost => ghostAttributes charGhost length
    | none => some [.underline 0 length]
  let charCursor ← lengthOfPrefix text cursor.toNat
  return { preedit := text, attributes := attrs ++ [.cursor charCursor] }

/-! ### The window of candidates -/

/-- `kMaxVisible`: the window has no more rows than this, however many it is given. -/
def kMaxVisible : Nat := 10

/-- The window of candidates. It keeps all rows it was given, and paints some of them. -/
structure CandidateWindow where
  words : List Str := []
  annotations : List Str := []
  keys : Str := []
  visible : Bool := false
  deriving DecidableEq, Repr

namespace CandidateWindow

/-- Replaces the rows. Hides the window when there are none. -/
def updateCandidates (self : CandidateWindow) (words annotations : List Str) : CandidateWindow :=
  let self := { self with
    words := words
    -- The two lists have the same length.
    annotations := annotations ++ List.replicate (words.length - annotations.length) [] }
  if words.isEmpty then { self with visible := false } else self

/-- The number of rows that `recalcSize` makes room for and `paintEvent` paints. -/
def visibleRows (self : CandidateWindow) : Nat := min self.words.length kMaxVisible

/-- What a visible window paints: its first rows, a word and an annotation each, and the keys that
label them. -/
def shown (self : CandidateWindow) : Option (Str × List (Str × Str)) :=
  if self.visible then
    some (self.keys, (self.words.zip self.annotations).take self.visibleRows)
  else none

end CandidateWindow

/-! ### The context -/

/-- The input context: the preedit it believes to be on display, and the last event it sent. -/
structure Y2skkInputContext where
  /-- `m_preedit`. -/
  preedit : Str := []
  /-- The last event sent, `none` when it was undefined. -/
  sent : Option QInputMethodEvent := some {}
  candidates : Option CandidateWindow := none
  hasFocus : Bool := false
  committed : List Str := []
  deriving DecidableEq, Repr

namespace Y2skkInputContext

/-- The focused object gets an event. -/
def sendImEvent (self : Y2skkInputContext) (event : Option QInputMethodEvent) :
    Y2skkInputContext := { self with sent := event }

/-- The preedit is cleared before the commit. -/
def cbCommit (self : Y2skkInputContext) (text : Str) : Y2skkInputContext :=
  let cleared :=
    if !self.preedit.isEmpty then { self with preedit := [] }.sendImEvent (some {}) else self
  { cleared with committed := cleared.committed ++ [text] }.sendImEvent
    (some { commitString := text })

/-- The callback of an update. -/
def cbUpdatePreedit (self : Y2skkInputContext) (text : Str) (cursor ghostStart : UInt32) :
    Y2skkInputContext :=
  { self with preedit := text }.sendImEvent (preeditEvent text cursor ghostStart)

/-- The callback that removes the preedit: an empty event. -/
def cbClearPreedit (self : Y2skkInputContext) : Y2skkInputContext :=
  { self with preedit := [] }.sendImEvent (some {})

/-- The window is made at the first call, and put on the screen when it is not visible. -/
def cbShowCandidates (self : Y2skkInputContext) (words annotations : List Str)
    (keys : Str) : Y2skkInputContext :=
  let window := self.candidates.getD {}
  let window := { window with keys := keys }.updateCandidates words annotations
  { self with candidates := some { window with visible := true } }

/-- The callback that hides the candidates. The window stays, and keeps its rows. -/
def cbHideCandidates (self : Y2skkInputContext) : Y2skkInputContext :=
  { self with candidates := self.candidates.map fun window => { window with visible := false } }

/-- The callbacks of the context. The indicator has a window and a timer of its own, which are
not modelled. -/
instance : Y2skkCallbacks Y2skkInputContext where
  commit := cbCommit
  updatePreedit := cbUpdatePreedit
  clearPreedit := cbClearPreedit
  showCandidates self words annotations _ keys := self.cbShowCandidates words annotations keys
  hideCandidates := cbHideCandidates
  updateStatus self _ _ := self

/-- A key event of Qt. -/
structure QKeyEvent where
  key : UInt32
  modifiers : UInt32
  isPress : Bool
  deriving DecidableEq, Repr

/-- The key as the daemon is asked about it, with the key and the modifiers of X11. -/
def rawOf (event : QKeyEvent) : RawKey :=
  ⟨qtKeyToKeysym event.key event.modifiers, qtModsToX11 event.modifiers, event.isPress⟩

/-- After the actions of a key: it is taken when it was consumed and not forced through. -/
def finishKey (dispatched : DispatchResult × Y2skkInputContext) : Bool × Y2skkInputContext :=
  (dispatched.1.consumed && !dispatched.1.forcePassthrough, dispatched.2)

/-- The entry point of the Rust side: asks the daemon about a key and carries its actions
out. -/
def y2skkProcessKey (self : Y2skkInputContext) (event : QKeyEvent) (processKey : ProcessKey) :
    Bool × Y2skkInputContext :=
  match processKey (rawOf event) with
  | .error _ => (false, self)
  | .ok actions =>
      letI : ActionSink Y2skkInputContext := callbackSink
      finishKey (dispatch actions self)

/-- What the toolkit tells a context. -/
inductive Event where
  | setFocusObject (isObject : Bool)
  | reset
  deriving DecidableEq, Repr

/-- The focus is remembered, and a reset does nothing. -/
def handle (self : Y2skkInputContext) : Event → Y2skkInputContext
  | .setFocusObject nowFocused => { self with hasFocus := nowFocused }
  | .reset => self

/-- The grey part of a preedit event, and what stands before. -/
def parts (event : QInputMethodEvent) : Option (Str × Str) :=
  let start := (event.attributes.findSome? fun
    | .grey start _ => some start
    | _ => none).getD (qlength event.preedit)
  splitAtMeasure qcharSize event.preedit start

/-- The window for a page: its first rows, since the window has a bound of its own that the number
of selection keys is not checked against. Without rows an empty window is shown. -/
def listRows (candidates : List IpcCandidate) (selKeys : Str) :
    Option (Str × List (Str × Str)) :=
  some (cStringLossy selKeys,
    (candidates.take kMaxVisible).map fun c => (cStringLossy c.word, cStringLossy c.annotation))

/-- The context as an adapter. What it shows is read back from the last event it sent. -/
instance : InputContext Y2skkInputContext (Str × List (Str × Str)) QKeyEvent Event where
  toActionSink := callbackSink
  view self := do
    let event ← self.sent
    let (typed, ghost) ← parts event
    return ⟨typed, ghost, self.candidates.bind CandidateWindow.shown, true⟩
  list candidates _ selKeys := listRows candidates selKeys
  hides := true
  carries text := (cString text).isSome
  new := {}
  shared := false
  handle := handle
  closes _ := false
  rawKey event := some (rawOf event)
  finish _ := finishKey
  filterKey := y2skkProcessKey

end Y2skkInputContext

end Y2Skk.Qt
