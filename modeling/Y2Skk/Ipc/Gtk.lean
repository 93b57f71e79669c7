import Y2Skk.Ipc.Screen

/-!
# `Y2Skk.Ipc.Gtk`: the GTK adapters

The Rust side of an adapter hands the actions to C callbacks (`CallbackSink`). C strings
hold no NUL: a text with one is dropped, and the rows of the candidates and their keys
lose theirs.

## The C side

The C side keeps the preedit for `getPreeditString`, and the windows. An application asks
for the preedit when it is told that it changed, and gets the text, attributes over ranges
of bytes, and the cursor. What is grey is the ghost, and `PreeditState.parts` reads the
two parts back from the attributes.

GTK 3 and GTK 4 have the same preedit and the same rows. In GTK 4 the candidates are in a
popover, which needs a widget of the application to be attached to: without one nothing is
shown, and when the widget changes the popover is torn down. That a popover has its widget
is a field of the context (`attached`). The mode indicator has a window and a timer of its
own in both.

## Keys that are passed on

The adapter itself commits the character of a key that is passed on, when the engine did
not consume it and neither Control nor Alt is held (`passthroughShouldCommit`). The
toolkit then sees the key as taken.

What depends on the geometry of the screen is not modelled, and a `commit` signal is
recorded in `committed`.
-/

set_option autoImplicit false

namespace Y2Skk

open Utf8 (Str byteLen)

/-! ### The Rust side -/

/-- The callbacks of the C side. -/
class Y2skkCallbacks (γ : Type) where
  commit : γ → Str → γ
  /-- The cursor and the start of the ghost are byte offsets. -/
  updatePreedit : γ → Str → UInt32 → UInt32 → γ
  clearPreedit : γ → γ
  /-- Words, annotations, the focused row and the selection keys. -/
  showCandidates : γ → List Str → List Str → UInt32 → Str → γ
  hideCandidates : γ → γ
  updateStatus : γ → Str → UInt32 → γ

/-- `CString::new`. -/
def cString (s : Str) : Option Str := if '\x00' ∈ s then none else some s

/-- A string without its NULs, for texts that are not worth losing whole. -/
def cStringLossy (s : Str) : Str := s.filter (· ≠ '\x00')

namespace CallbackSink

variable {γ : Type} [Y2skkCallbacks γ]

/-- A text with a NUL in it is not committed. -/
def commit (self : γ) (text : Str) : γ :=
  match cString text with
  | some cs => Y2skkCallbacks.commit self cs
  | none => self

/-- A preedit with a NUL in it is not drawn, and the old one stays. -/
def updatePreedit (self : γ) (text : Str) (cursor : UInt32) (ghostStart : Option UInt32) : γ :=
  match cString text with
  | some cs => Y2skkCallbacks.updatePreedit self cs cursor (ghostStart.getD noGhost)
  | none => self

/-- The rows as two lists of C strings, without their NULs. -/
def showCandidates (self : γ) (candidates : List IpcCandidate) (focused : UInt32)
    (selKeys : Str) : γ :=
  Y2skkCallbacks.showCandidates self (candidates.map fun c => cStringLossy c.word)
    (candidates.map fun c => cStringLossy c.annotation) focused (cStringLossy selKeys)

/-- An indicator with a NUL in it is not shown. -/
def updateStatus (self : γ) (indicator : Str) (timeoutMs : UInt32) : γ :=
  match cString indicator with
  | some cs => Y2skkCallbacks.updateStatus self cs timeoutMs
  | none => self

end CallbackSink

/-- The sink of the actions that calls the C side. -/
@[reducible]
def callbackSink {γ : Type} [Y2skkCallbacks γ] : ActionSink γ where
  commit := CallbackSink.commit
  updatePreedit := CallbackSink.updatePreedit
  clearPreedit := Y2skkCallbacks.clearPreedit
  showCandidates := CallbackSink.showCandidates
  hideCandidates := Y2skkCallbacks.hideCandidates
  updateStatus := CallbackSink.updateStatus

namespace Gtk

/-- The library of the toolkit: the character of a keyval, 0 when it has none. -/
class Gdk where
  keyvalToUnicode : UInt32 → UInt32

/-- Control and Alt. -/
def modMaskCtrlAlt : UInt32 := ((1 : UInt32) <<< 2) ||| ((1 : UInt32) <<< 3)

/-- The adapter itself commits the character of a key that is passed on: a press that the engine
did not consume, without Control and Alt. -/
def passthroughShouldCommit (isPress : Bool) (modifiers : UInt32) (result : DispatchResult) :
    Bool :=
  isPress && !result.consumed && decide (modifiers &&& modMaskCtrlAlt = 0)

/-- `char::is_control`. -/
def isControl (ch : Char) : Bool := decide (ch.toNat < 0x20 ∨ 0x7F ≤ ch.toNat ∧ ch.toNat ≤ 0x9F)

section ProcessKey
variable {γ : Type} [Y2skkCallbacks γ] [Gdk]

/-- After the actions of a key: answers whether the key is consumed. A key that is passed on and
stands for a character may be committed as that character instead. -/
def finishKey (key : RawKey) (dispatched : DispatchResult × γ) : Bool × γ :=
  let (result, self) := dispatched
  if result.consumed && !result.forcePassthrough then (true, self)
  else if passthroughShouldCommit key.isPress key.modifiers result then
    match charFromU32 (Gdk.keyvalToUnicode key.keySym).toNat with
    | some ch => if !isControl ch then (true, CallbackSink.commit self [ch]) else (false, self)
    | none => (false, self)
  else (false, self)

/-- `y2skk_process_key`: asks the daemon about a key and carries its actions out. When the
daemon does not answer, the key is not taken. -/
def y2skkProcessKey (self : γ) (key : RawKey) (processKey : ProcessKey) : Bool × γ :=
  match processKey key with
  | .error _ => (false, self)
  | .ok actions =>
      letI : ActionSink γ := callbackSink
      finishKey key (dispatch actions self)

end ProcessKey

/-! ### The preedit -/

/-- The preedit of a context. -/
structure PreeditState where
  text : Str := []
  cursor : Int32 := 0
  ghostStart : UInt32 := noGhost
  deriving DecidableEq, Repr

/-- An attribute of the preedit, over a range of bytes. -/
inductive PangoAttribute where
  | underline (startIndex endIndex : UInt32)
  /-- In grey. -/
  | foreground (startIndex endIndex : UInt32)
  deriving DecidableEq, Repr

namespace PreeditState

/-- The preedit that an update leaves. The cursor is a signed integer on the C side. -/
def update (text : Str) (cursor ghostStart : UInt32) : PreeditState :=
  ⟨text, cursor.toInt32, ghostStart⟩

/-- The preedit, its attributes and the cursor. The typed part is underlined and the ghost text
is grey; the offsets of the attributes are in bytes. -/
def getPreeditString (self : PreeditState) : Str × List PangoAttribute × Int32 :=
  let len := (byteLen self.text).toUInt32
  let attrs :=
    if len > 0 then
      let gs := if self.ghostStart > len then len else self.ghostStart
      -- The typed part is underlined, or everything when there is none.
      let underlined := if gs > 0 then .underline 0 gs else .underline 0 len
      underlined :: if gs < len then [.foreground gs len] else []
    else []
  (self.text, attrs, self.cursor)

/-- Where the grey begins. -/
def greyFrom (attrs : List PangoAttribute) (len : Nat) : Nat :=
  (attrs.findSome? fun
    | .foreground startIndex _ => some startIndex.toNat
    | .underline _ _ => none).getD len

/-- The preedit that an application draws: what is not grey, and what is. `none`: the grey begins
inside a character. -/
def parts (self : PreeditState) : Option (Str × Str) :=
  let (text, attrs, _) := self.getPreeditString
  Utf8.splitAtByte text (greyFrom attrs (byteLen text))

end PreeditState

/-! ### The window of candidates -/

/-- A row: the label of the key, when there is one, the word, and the annotation. -/
structure CandRow where
  key : Option UInt8
  word : Str
  annotation : Str
  focused : Bool
  deriving DecidableEq, Repr

/-- The bytes of a C string. -/
def bytes (s : Str) : List UInt8 := s.flatMap String.utf8EncodeChar

/-- Row `i`. Its key is the byte `i` of the selection keys. -/
def candRow (focused : UInt32) (selKeys : Str) (row : (Str × Str) × Nat) : CandRow :=
  let ((word, annotation), i) := row
  ⟨(bytes selKeys)[i]?, word, annotation, decide ((i : Int) = focused.toInt32.toInt)⟩

/-- The rows: a word and an annotation each, with their keys. -/
def candRows (words annotations : List Str) (focused : UInt32) (selKeys : Str) : List CandRow :=
  (words.zip annotations).zipIdx.map (candRow focused selKeys)

/-- No window without rows. -/
def candWindow (words annotations : List Str) (focused : UInt32) (selKeys : Str) :
    Option (List CandRow) :=
  if words.isEmpty then none else some (candRows words annotations focused selKeys)

/-- The window of the rows that the engine sends. -/
def listRows (candidates : List IpcCandidate) (focused : UInt32) (selKeys : Str) :
    Option (List CandRow) :=
  candWindow (candidates.map fun c => cStringLossy c.word)
    (candidates.map fun c => cStringLossy c.annotation) focused (cStringLossy selKeys)

/-- The mode indicator. -/
structure StatusWindow where
  label : Str
  visible : Bool
  deriving DecidableEq, Repr

end Gtk

/-! ### GTK 3 -/

namespace Gtk3

open Gtk

/-- The context of GTK 3. -/
structure IMContext where
  preedit : PreeditState := {}
  candWindow : Option (List CandRow) := none
  statusWindow : Option StatusWindow := none
  /-- The timeout of the timer that hides the indicator, while it runs. -/
  statusTimer : Option UInt32 := none
  committed : List Str := []
  deriving DecidableEq, Repr

namespace IMContext

/-- The callback of an update: the preedit is kept for when the application asks. -/
def cbUpdatePreedit (self : IMContext) (text : Str) (cursor ghostStart : UInt32) : IMContext :=
  { self with preedit := .update text cursor ghostStart }

/-- The callback of the indicator. A timeout of zero shows it until it is replaced. -/
def cbUpdateStatus (self : IMContext) (label : Str) (timeoutMs : UInt32) : IMContext :=
  { self with
    statusWindow := some ⟨label, true⟩
    -- A running timer is cancelled.
    statusTimer := if timeoutMs > 0 then some timeoutMs else none }

/-- The callbacks of the context. -/
instance : Y2skkCallbacks IMContext where
  commit self text := { self with committed := self.committed ++ [text] }
  updatePreedit := cbUpdatePreedit
  clearPreedit self := self.cbUpdatePreedit [] 0 noGhost
  showCandidates self words annotations focused selKeys :=
    { self with candWindow := Gtk.candWindow words annotations focused selKeys }
  hideCandidates self := { self with candWindow := none }
  updateStatus := cbUpdateStatus

/-- What the toolkit and the main loop tell a context. -/
inductive Event where
  | focusIn
  | focusOut
  | reset
  /-- The timer of the indicator fires. -/
  | statusTimeout
  deriving DecidableEq, Repr

/-- Losing the focus and a reset destroy the window of candidates, and the timer of the
indicator hides the indicator. -/
def handle (self : IMContext) : Event → IMContext
  | .focusIn => self
  | .focusOut | .reset => { self with candWindow := none }
  | .statusTimeout =>
      if self.statusTimer.isSome then
        { self with
          statusWindow := self.statusWindow.map fun w => { w with visible := false }
          statusTimer := none }
      else self

/-- The context as an adapter: what it shows is what the application draws of the preedit, and
the window. -/
instance [Gdk] : InputContext IMContext (List CandRow) RawKey Event where
  toActionSink := callbackSink
  view self := self.preedit.parts.map fun p => ⟨p.1, p.2, self.candWindow, true⟩
  list := listRows
  hides := false
  carries text := (cString text).isSome
  new := {}
  shared := false
  handle := handle
  closes e := e = .focusOut ∨ e = .reset
  rawKey := some
  finish := finishKey
  filterKey := y2skkProcessKey

end IMContext

end Gtk3

/-! ### GTK 4 -/

namespace Gtk4

open Gtk

/-- The context of GTK 4. That a popover has a widget is carried along by every operation. -/
structure IMContext where
  preedit : PreeditState := {}
  /-- There is a widget to attach the popovers to. -/
  clientWidget : Bool := false
  candPopover : Option (List CandRow) := none
  statusPopover : Option StatusWindow := none
  statusTimer : Option UInt32 := none
  committed : List Str := []
  /-- A popover has its widget. -/
  attached : candPopover.isSome → clientWidget := by simp

namespace IMContext

/-- The callback of an update: the preedit is kept for when the application asks. -/
def cbUpdatePreedit (self : IMContext) (text : Str) (cursor ghostStart : UInt32) : IMContext :=
  { self with preedit := .update text cursor ghostStart }

/-- The popover is closed. It stands in no relation to the widget any more. -/
def candPopoverDestroy (self : IMContext) : IMContext :=
  { self with candPopover := none, attached := by simp }

/-- The callback of the candidates: no rows close the popover, and without a widget nothing
happens. -/
def cbShowCandidates (self : IMContext) (words annotations : List Str) (focused : UInt32)
    (selKeys : Str) : IMContext :=
  if words.isEmpty then self.candPopoverDestroy
  else if h : self.clientWidget then
    { self with
      candPopover := some (candRows words annotations focused selKeys)
      attached := fun _ => h }
  else self

/-- The callback of the indicator. Without a widget there is nothing to attach it to. -/
def cbUpdateStatus (self : IMContext) (label : Str) (timeoutMs : UInt32) : IMContext :=
  if !self.clientWidget then self
  else
    { self with
      statusPopover := some ⟨label, true⟩
      statusTimer := if timeoutMs > 0 then some timeoutMs else none }

/-- The callbacks of the context. -/
instance : Y2skkCallbacks IMContext where
  commit self text := { self with committed := self.committed ++ [text] }
  updatePreedit := cbUpdatePreedit
  clearPreedit self := self.cbUpdatePreedit [] 0 noGhost
  showCandidates := cbShowCandidates
  hideCandidates := candPopoverDestroy
  updateStatus := cbUpdateStatus

/-- What the toolkit and the main loop tell a context. -/
inductive Event where
  | focusIn
  | focusOut
  | reset
  | statusTimeout
  /-- The context is attached to a widget, or to none. -/
  | setClientWidget (isWidget : Bool)
  deriving DecidableEq, Repr

/-- Losing the focus and a reset close the popover; another widget closes both popovers, since a
popover belongs to its widget. -/
def handle (self : IMContext) : Event → IMContext
  | .focusIn => self
  | .focusOut | .reset => self.candPopoverDestroy
  | .statusTimeout =>
      if self.statusTimer.isSome then
        { self with
          statusPopover := self.statusPopover.map fun w => { w with visible := false }
          statusTimer := none }
      else self
  -- The popovers of the old widget are torn down.
  | .setClientWidget isWidget =>
      { self with
        clientWidget := isWidget, candPopover := none, statusPopover := none, attached := by simp }

/-- The context as an adapter. The window can be opened when there is a widget. -/
instance [Gdk] : InputContext IMContext (List CandRow) RawKey Event where
  toActionSink := callbackSink
  view self :=
    self.preedit.parts.map fun p => ⟨p.1, p.2, self.candPopover, self.clientWidget⟩
  list := listRows
  hides := false
  carries text := (cString text).isSome
  new := {}
  shared := false
  handle := handle
  closes
    | .focusOut | .reset | .setClientWidget _ => true
    | _ => false
  rawKey := some
  finish := finishKey
  filterKey := y2skkProcessKey

end IMContext

end Gtk4

end Y2Skk
