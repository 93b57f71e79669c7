import Y2Skk.Engine.State

/-!
# `Y2Skk.Ipc.Message`: what adapters and the daemon send each other

A key arrives as an X11 keysym with a modifier mask, and `keyEventFromRaw` makes a key
event of it. The engine's actions go back as `IpcAction`s, flat records with a kind.

Neither direction is faithful, and what is lost matters elsewhere. Many keysyms make no
key that the engine knows (`Key.other`), and the bits of the mask that stand for locks are
ignored. On the way back the byte offsets of a preedit are cut to 32 bits, with one value
set aside for "no ghost", and the request to delete backwards is sent as the request to
pass the key on: the key is BackSpace, and so it deletes.

The numbers of the kinds and of the keysyms are those of the source.
-/

set_option autoImplicit false

namespace Y2Skk

open Utf8 (Str)

/-! ### Actions -/

/-- The key goes to the application. -/
def actionPassthrough : UInt8 := 0
/-- The text is committed. -/
def actionCommit : UInt8 := 1
/-- The preedit is drawn, with its cursor and ghost. -/
def actionUpdatePreedit : UInt8 := 2
/-- The preedit is removed. -/
def actionClearPreedit : UInt8 := 3
/-- The window of candidates is shown with these rows. -/
def actionShowCandidates : UInt8 := 4
/-- The window of candidates is hidden. -/
def actionHideCandidates : UInt8 := 5
/-- The mode indicator is shown. -/
def actionUpdateStatus : UInt8 := 6
/-- The daemon does not know the session, as after a restart. -/
def actionSessionInvalid : UInt8 := 7

/-- `u32::MAX`: the preedit has no ghost. An offset of this size would be mistaken for it. -/
def noGhost : UInt32 := 0xFFFFFFFF

/-- One row of a candidate list. An empty annotation stands for none. -/
structure IpcCandidate where
  word : Str
  annotation : Str
  deriving DecidableEq, Repr

/-- The row carries an annotation. -/
def IpcCandidate.hasAnnotation (self : IpcCandidate) : Bool :=
  !self.annotation.isEmpty

/-- An action for the adapter. Fields its kind does not use are zero or empty, as D-Bus has one
structure for all kinds. -/
structure IpcAction where
  kind : UInt8
  text : Str := []
  cursor : UInt32 := 0
  candidates : List IpcCandidate := []
  focused : UInt32 := 0
  ghostStart : UInt32 := noGhost
  deriving DecidableEq, Repr

namespace IpcAction

/-- `From<EngineAction>`: an engine action as it is sent. `ShowCandidates` carries the selection
keys in the text field, and offsets become numbers of 32 bits. -/
def ofEngine : EngineAction → IpcAction
  | .commit text => { kind := actionCommit, text := text }
  | .updatePreedit preedit =>
      { kind := actionUpdatePreedit, text := preedit.text, cursor := preedit.cursor.toUInt32,
        ghostStart := (preedit.ghostStart.map Nat.toUInt32).getD noGhost }
  | .clearPreedit => { kind := actionClearPreedit }
  | .showCandidates page focused selKeys =>
      { kind := actionShowCandidates, text := selKeys,
        candidates := page.map fun c => ⟨c.word, c.annotation.getD []⟩,
        focused := focused.toUInt32 }
  | .hideCandidates => { kind := actionHideCandidates }
  | .updateStatus indicator => { kind := actionUpdateStatus, text := indicator }
  -- To the adapter, deleting is passing the key on.
  | .passthrough | .deleteBack => { kind := actionPassthrough }

/-- What the daemon answers for a session it does not know. -/
def sessionInvalid : IpcAction := { kind := actionSessionInvalid }

end IpcAction

/-! ### Keys -/

/-- A key as adapters send it. -/
structure RawKey where
  keySym : UInt32
  modifiers : UInt32
  isPress : Bool
  deriving DecidableEq, Repr

/-- The keysyms of the special keys. All others are function keys, characters, or keys without a
name. -/
def specialKey : UInt32 → Option Key
  | 0x0020 => some .space
  | 0xFF0D => some .returnKey
  | 0xFF08 => some .backSpace
  | 0xFF09 => some .tab
  | 0xFF1B => some .escape
  | 0xFFFF => some .delete
  | 0xFF51 => some .left
  | 0xFF52 => some .up
  | 0xFF53 => some .right
  | 0xFF54 => some .down
  | 0xFF55 => some .pageUp
  | 0xFF56 => some .pageDown
  | _ => none

/-- F1 to F15 follow each other from here. -/
def f1Base : UInt32 := 0xFFBE

/-- `keysym_to_key`: the special keys first, then the function keys, then the two ranges in
which a keysym is a character. -/
def keysymToKey (sym : UInt32) : Key :=
  match specialKey sym with
  | some key => key
  | none =>
    if f1Base ≤ sym ∧ sym < f1Base + 15 then .f (sym - f1Base + 1).toUInt8
    else if sym &&& 0xFF000000 = 0x01000000 then
      -- X11 Unicode keysyms.
      match charFromU32 (sym &&& 0x00FFFFFF).toNat with
      | some ch => .char ch
      | none => .other sym
    else if (0x20 ≤ sym ∧ sym ≤ 0xFEFF) ∨ (0x10000 ≤ sym ∧ sym ≤ 0x10FFFF) then
      match charFromU32 sym.toNat with
      | some ch => .char ch
      | none => .other sym
    else .other sym

/-- `modifiers_from_raw`: the four bits that the engine looks at. -/
def modifiersFromRaw (raw : UInt32) : Modifiers where
  shift := raw &&& 0x01 ≠ 0
  ctrl := raw &&& 0x04 ≠ 0
  alt := raw &&& 0x08 ≠ 0
  metaKey := raw &&& 0x40 ≠ 0

/-- `key_event_from_raw`: a key as the engine reads it. -/
def keyEventFromRaw (raw : RawKey) : KeyEvent :=
  ⟨keysymToKey raw.keySym, modifiersFromRaw raw.modifiers, raw.isPress⟩

end Y2Skk
