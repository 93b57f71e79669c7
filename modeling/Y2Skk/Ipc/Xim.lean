import Y2Skk.Ipc.Screen

/-!
# `Y2Skk.Ipc.Xim`: the XIM server

One server draws for all input contexts, and it has one preedit window and one window of
candidates. So what a context draws stays on the screen when another one takes over, until
that one draws.

## Keys

A client forwards key events of the X protocol. `KeyMap.lookup` finds the keysym of a
keycode with the rules for Shift and the Caps lock, and `resolve` takes the locks out of
the modifiers. A key without a keysym is not shown to the daemon.

## Characters

The X server draws characters of two bytes. In the preedit a character outside the basic
plane loses its upper bits, and in a candidate it becomes U+FFFD. The start of a ghost
inside a character makes the server panic (`preedit` is `none` then).

## What is left out

Requests to the X server are taken to succeed. Positions on the screen and the width of
the windows are not modelled, nor is the limit of 255 characters that a single request can
carry.
-/

set_option autoImplicit false

namespace Y2Skk.Xim

open Utf8 (Str byteLen)

/-! ### Keys -/

/-- The keyboard mapping: `keysymsPerKeycode` keysyms for each keycode from `minKeycode` on. -/
structure KeyMap where
  minKeycode : UInt8
  keysymsPerKeycode : UInt8
  keysyms : List UInt32
  deriving DecidableEq, Repr

/-- `KeyButMask::SHIFT`. -/
def shiftMask : UInt16 := (1 : UInt16) <<< 0

/-- `KeyButMask::LOCK`, the Caps lock. -/
def lockMask : UInt16 := (1 : UInt16) <<< 1

/-- Typically NumLock. -/
def mod2Mask : UInt16 := (1 : UInt16) <<< 4

/-- The lower and the upper case of a keysym. Only ASCII letters have two. -/
def keysymCase (sym : UInt32) : UInt32 × UInt32 :=
  if 0x41 ≤ sym ∧ sym ≤ 0x5A then (sym + 0x20, sym)
  else if 0x61 ≤ sym ∧ sym ≤ 0x7A then (sym, sym - 0x20)
  else (sym, sym)

/-- The Caps lock acts on these keysyms only. -/
def isAlphabeticKeysym (sym : UInt32) : Bool := (keysymCase sym).1 ≠ (keysymCase sym).2

namespace KeyMap

/-- The lower and the upper keysym of a row, 0 being `NoSymbol`. -/
def pair (self : KeyMap) (base : Nat) : UInt32 × UInt32 :=
  let sym := fun col => self.keysyms.getD (base + col) 0
  -- The upper one is inferred when there is none.
  if sym 1 = 0 then keysymCase (sym 0) else (sym 0, sym 1)

/-- The keysym of a keycode, 0 when the mapping has no row for it. On a letter the Caps lock
undoes Shift. -/
def lookup (self : KeyMap) (keycode : UInt8) (state : UInt16) : UInt32 :=
  if keycode < self.minKeycode then 0
  else
    let base := (keycode - self.minKeycode).toNat * self.keysymsPerKeycode.toNat
    if self.keysyms.length ≤ base then 0
    else
      let (lower, upper) := self.pair base
      let shifted := decide (state &&& shiftMask ≠ 0)
      let caps := decide (state &&& lockMask ≠ 0)
      match shifted, caps with
      | false, false => lower
      | false, true => if isAlphabeticKeysym lower then upper else lower
      | true, false => upper
      | true, true => if isAlphabeticKeysym lower then lower else upper

/-- The keysym of a key, and its modifiers without the locks. -/
def resolve (self : KeyMap) (keycode : UInt8) (state : UInt16) : UInt32 × UInt32 :=
  (self.lookup keycode state, (state &&& ~~~(lockMask ||| mod2Mask)).toUInt32)

end KeyMap

/-- The X server, as far as the handler asks it: its keyboard mapping. -/
class XServer where
  keymap : KeyMap

/-- A key event of the X protocol. -/
structure KeyPressEvent where
  responseType : UInt8
  detail : UInt8
  state : UInt16
  deriving DecidableEq, Repr

/-- The key as the daemon is asked about it. It is not asked about `NoSymbol`. -/
def rawOf [XServer] (xev : KeyPressEvent) : Option RawKey :=
  let isPress := decide (xev.responseType &&& ~~~0x80 = 2)
  let (keysym, modifiers) := XServer.keymap.resolve xev.detail xev.state
  if keysym = 0 then none else some ⟨keysym, modifiers, isPress⟩

/-! ### Characters -/

/-- A character in two bytes, as `ImageText16` takes it. -/
structure Char2b where
  byte1 : UInt8
  byte2 : UInt8
  deriving DecidableEq, Repr

namespace Char2b

/-- The lower two bytes. -/
def ofCodePoint (cp : UInt32) : Char2b := ⟨((cp >>> 8) &&& 0xFF).toUInt8, (cp &&& 0xFF).toUInt8⟩

/-- The character that the X server draws. -/
def toChar (c : Char2b) : Char := Char.ofNat (c.byte1.toNat * 256 + c.byte2.toNat)

end Char2b

/-- `str_to_char2b`. -/
def strToChar2b (s : Str) : List Char2b :=
  s.map fun c => Char2b.ofCodePoint (if c.val ≤ 0xFFFF then c.val else 0xFFFD)

/-! ### Windows -/

/-- The window of the preedit. What it drew last stays in it while it is not mapped. -/
structure PreeditWindow where
  mapped : Bool := false
  /-- What is drawn in the normal colour, and in grey. -/
  typed : List Char2b := []
  ghost : List Char2b := []
  deriving DecidableEq, Repr

namespace PreeditWindow

/-- `hide`: unmaps the window. -/
def hide (self : PreeditWindow) : PreeditWindow := { self with mapped := false }

/-- Redraws the preedit window: the typed part and the ghost part, in characters of 16 bits.
`none`: the start of the ghost is inside a character. -/
def update (self : PreeditWindow) (text : Str) (ghostStart : Option Nat) : Option PreeditWindow :=
  if text.isEmpty then some self.hide
  else
    let allChars := text.map fun c => Char2b.ofCodePoint c.val
    match ghostStart with
    | some byteOff =>
        -- The byte offset becomes a number of characters.
        (Utf8.splitAtByte text (min byteOff (byteLen text))).map fun p =>
          let (inputChars, ghostChars) := allChars.splitAt p.1.length
          ⟨true, inputChars, ghostChars⟩
    | none => some ⟨true, allChars, []⟩

/-- The window shows its two parts when it is mapped. -/
def shown (self : PreeditWindow) : Str × Str :=
  if self.mapped then (self.typed.map Char2b.toChar, self.ghost.map Char2b.toChar) else ([], [])

end PreeditWindow

/-- A row, and whether it is the focused one. -/
abbrev Row := List Char2b × Bool

/-- The window of the candidates. -/
structure CandidateWindow where
  mapped : Bool := false
  rows : List Row := []
  deriving DecidableEq, Repr

namespace CandidateWindow

/-- `hide`: unmaps the window. -/
def hide (self : CandidateWindow) : CandidateWindow := { self with mapped := false }

/-- The text of row `i`. -/
def label (selKeys : Str) (cand : IpcCandidate) (i : Nat) : Str :=
  let key := selKeys.getD i ' '
  if cand.hasAnnotation then
    [key, ':', ' '] ++ cand.word ++ [' ', ' ', ';'] ++ cand.annotation
  else [key, ':', ' '] ++ cand.word

/-- The rows of a list: the text of each, and whether it is the focused one. -/
def rowsOf (candidates : List IpcCandidate) (selKeys : Str) (focused : UInt32) : List Row :=
  candidates.zipIdx.map fun (cand, i) =>
    (strToChar2b (label selKeys cand i), decide (i.toUInt32 = focused))

/-- `show`: an empty list hides the window. -/
def «show» (self : CandidateWindow) (candidates : List IpcCandidate) (selKeys : Str)
    (focused : UInt32) : CandidateWindow :=
  if candidates.isEmpty then self.hide else ⟨true, rowsOf candidates selKeys focused⟩

/-- The rows, when the window is mapped. -/
def shown (self : CandidateWindow) : Option (List Row) :=
  if self.mapped then some self.rows else none

end CandidateWindow

/-! ### The handler -/

/-- The handler of the server, with the texts that it has committed. -/
structure Handler where
  /-- `none` after a panic. -/
  preedit : Option PreeditWindow := some {}
  candidates : CandidateWindow := {}
  committed : List Str := []
  deriving DecidableEq, Repr

namespace Handler

/-- The sink of the actions. The preedit is hidden before a commit, and the mode indicator is only
logged. -/
instance : ActionSink Handler where
  commit self text :=
    { self with
      preedit := self.preedit.map PreeditWindow.hide, committed := self.committed ++ [text] }
  updatePreedit self text _ ghostStart :=
    { self with
      preedit := self.preedit.bind fun window => window.update text (ghostStart.map UInt32.toNat) }
  clearPreedit self := { self with preedit := self.preedit.map PreeditWindow.hide }
  showCandidates self candidates focused selKeys :=
    { self with candidates := self.candidates.show candidates selKeys focused }
  hideCandidates self := { self with candidates := self.candidates.hide }
  updateStatus self _ _ := self

/-- What a client tells the server about a context. -/
inductive Event where
  | setFocus
  | unsetFocus
  | resetIc
  | setIcValues
  deriving DecidableEq, Repr

/-- `handle_forward_event`: asks the daemon and carries out its actions. Answers whether the
client is kept from the key. When the daemon cannot be asked the client gets it. -/
def handleForwardEvent [XServer] (self : Handler) (xev : KeyPressEvent) (processKey : ProcessKey) :
    Bool × Handler :=
  match rawOf xev with
  | none => (false, self)
  | some raw =>
    match processKey raw with
    | .error _ => (false, self)
    | .ok actions =>
        let (result, self) := dispatch actions self
        (result.consumed && !result.forcePassthrough, self)

/-- The window for the rows. -/
def listRows (candidates : List IpcCandidate) (focused : UInt32) (selKeys : Str) :
    Option (List Row) :=
  if candidates.isEmpty then none else some (CandidateWindow.rowsOf candidates selKeys focused)

instance [XServer] : InputContext Handler (List Row) KeyPressEvent Event where
  view self := self.preedit.map fun window =>
    ⟨window.shown.1, window.shown.2, self.candidates.shown, true⟩
  list := listRows
  hides := true
  carries text := text.all fun c => decide (c.val ≤ 0xFFFF)
  new := {}
  shared := true
  -- The server does nothing about these.
  handle self
    | .setFocus | .unsetFocus | .resetIc | .setIcValues => self
  closes _ := false
  rawKey := rawOf
  finish _ dispatched := (dispatched.1.consumed && !dispatched.1.forcePassthrough, dispatched.2)
  filterKey := handleForwardEvent

end Handler

end Y2Skk.Xim
