import Y2Skk.Ipc.Message

/-!
# `Y2Skk.Ipc.Qt`: keys as the Qt adapter translates them

Qt reports a `Qt::Key` and a word of modifier flags. `qtKeyToKeysym` and `qtModsToX11`
make an X11 keysym and mask of them, which `keyEventFromRaw` reads at the other end.

From `0x01000000` on, a `Qt::Key` is a key without a character of its own. The same prefix
marks an X11 Unicode keysym, so such a key needs a translation: one that has none arrives
at the daemon as a character. A letter key is named by its uppercase letter whatever is
held, so the case of a letter is decided by the Shift flag here, and not by the character
that the key would type.
-/

set_option autoImplicit false

namespace Y2Skk

/-- `qt_mods_to_x11`: the four flags of Qt as bits of the mask. -/
def qtModsToX11 (qtMods : UInt32) : UInt32 :=
  let x11 := 0
  let x11 := if qtMods &&& 0x02000000 ≠ 0 then x11 ||| 0x01 else x11
  let x11 := if qtMods &&& 0x04000000 ≠ 0 then x11 ||| 0x04 else x11
  let x11 := if qtMods &&& 0x08000000 ≠ 0 then x11 ||| 0x08 else x11
  if qtMods &&& 0x10000000 ≠ 0 then x11 ||| 0x40 else x11

/-- The keys with a keysym of their own, by Qt's number for them. -/
def qtSpecialKeysym : UInt32 → Option UInt32
  | 0x01000000 => some 0xFF1B -- Escape
  | 0x01000001 => some 0xFF09 -- Tab
  | 0x01000004 => some 0xFF0D -- Return
  | 0x01000005 => some 0xFF0D -- Enter
  | 0x01000003 => some 0xFF08 -- Backspace
  | 0x01000007 => some 0xFFFF -- Delete
  | 0x01000012 => some 0xFF51 -- Left
  | 0x01000013 => some 0xFF52 -- Up
  | 0x01000014 => some 0xFF53 -- Right
  | 0x01000015 => some 0xFF54 -- Down
  | 0x01000016 => some 0xFF55 -- PageUp
  | 0x01000017 => some 0xFF56 -- PageDown
  | 0x01000020 => some 0xFFE1 -- Shift
  | 0x01000021 => some 0xFFE3 -- Control
  | 0x01000022 => some 0xFFE7 -- Meta
  | 0x01000023 => some 0xFFE9 -- Alt
  | 0x01000024 => some 0xFFE5 -- CapsLock
  | 0x01000025 => some 0xFF7F -- NumLock
  | 0x01000026 => some 0xFF14 -- ScrollLock
  | 0x01000053 => some 0xFFEB -- Super_L
  | 0x01000054 => some 0xFFEC -- Super_R
  | 0x01001103 => some 0xFE03 -- AltGr
  | _ => none

/-- F1 to F12. -/
def isQtFunctionKey (qtKey : UInt32) : Bool := decide (0x01000030 ≤ qtKey ∧ qtKey ≤ 0x0100003B)

/-- `qt_key_to_keysym`: the keys with a keysym of their own, the function keys, and then the
keys that are named by their character. -/
def qtKeyToKeysym (qtKey qtMods : UInt32) : UInt32 :=
  match qtSpecialKeysym qtKey with
  | some sym => sym
  | none =>
    if isQtFunctionKey qtKey then f1Base + (qtKey - 0x01000030)
    else if qtKey = 0x20 then 0x20
    -- Qt names a letter key by its uppercase letter, whether Shift is held or not.
    else if (0x41 ≤ qtKey ∧ qtKey ≤ 0x5A) ∧ qtMods &&& 0x02000000 = 0 then qtKey + 0x20
    else qtKey

/-- The press of a Qt key, as the daemon reads it. -/
def qtKeyPress (qtKey qtMods : UInt32) : KeyEvent :=
  keyEventFromRaw ⟨qtKeyToKeysym qtKey qtMods, qtModsToX11 qtMods, true⟩

end Y2Skk
