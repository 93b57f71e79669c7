import Y2Skk.Engine.Conversion

/-!
# `Y2Skk.Engine.Literal`: the modes that bypass the kana table

Direct input (`Ascii`, `WideAscii`), code input and abbrev mode. In direct input the keys
go to the application, in full width in one of the two modes. Code input collects
hexadecimal digits and commits the character they stand for, as a JIS or a Unicode code.
Abbrev mode collects any characters as a reading, which is converted as it stands.

The EUC-JP decoder of code input is a library outside the repository, so it is the
parameter `EucJp`: a function of the two bytes, about which nothing is assumed. The parser
for numbers is that of the standard library, with the sign it accepts (`fromStrRadix16`).
-/

set_option autoImplicit false

namespace Y2Skk

open Outcome Utf8

/-- `encoding_rs::EUC_JP`: the text of a two-byte sequence, `none` when it has errors. -/
class EucJp where
  decode : Nat → Nat → Option Str

/-- The decoder that knows no character, to evaluate the engine with. -/
@[reducible] def EucJp.empty : EucJp := ⟨fun _ _ => none⟩

/-- The full-width form of an ASCII character. -/
def toWideAscii (c : Char) : Option Char :=
  if c = ' ' then some '　'
  else if '!' ≤ c ∧ c ≤ '~' then some (Char.ofNat (c.toNat + 0xFEE0))
  else none

/-- The value of a hexadecimal digit, in either case. -/
def hexDigit (c : Char) : Option Nat :=
  if '0' ≤ c ∧ c ≤ '9' then some (c.toNat - '0'.toNat)
  else if 'a' ≤ c ∧ c ≤ 'f' then some (c.toNat - 'a'.toNat + 10)
  else if 'A' ≤ c ∧ c ≤ 'F' then some (c.toNat - 'A'.toNat + 10)
  else none

/-- `from_str_radix(hex, 16)` of an unsigned type whose values are below `bound`. A sign `+` may
stand in front, an empty text is no number, and neither is one that overflows. -/
def fromStrRadix16 (bound : Nat) (hex : Str) : Option Nat :=
  let digits := match hex with
    | '+' :: rest => rest
    | _ => hex
  if digits.isEmpty then none
  else do
    let value ← digits.foldlM (fun acc c => (hexDigit c).map (16 * acc + ·)) 0
    if value < bound then some value else none

/-- `decode_jis_code`: decodes a JIS X 0208 code of four hex digits. Both bytes have to be in
the range of the code. -/
def decodeJisCode [EucJp] (hex : Str) : Option Str :=
  if byteLen hex ≠ 4 then none
  else do
    let code ← fromStrRadix16 (2 ^ 16) hex
    let b1 := code / 256
    let b2 := code % 256
    if (0x21 ≤ b1 ∧ b1 ≤ 0x7E) ∧ (0x21 ≤ b2 ∧ b2 ≤ 0x7E) then
      EucJp.decode (b1 + 0x80) (b2 + 0x80)
    else none

/-- `decode_unicode_code`: decodes a Unicode code point of one to six hex digits. A surrogate
has no character. -/
def decodeUnicodeCode (hex : Str) : Option Str :=
  if hex.isEmpty ∨ byteLen hex > 6 then none
  else do
    let code ← fromStrRadix16 (2 ^ 32) hex
    if code.isValidChar then some [Char.ofNat code] else none

/-- `char::is_ascii_hexdigit`. -/
def isAsciiHexdigit (c : Char) : Bool := (hexDigit c).isSome

namespace SkkEngine

variable {δ : Type} [DictionaryProvider δ]

/-- `handle_ascii`: every key goes to the application, but for the two that return to
Hiragana. -/
def handleAscii (self : SkkEngine δ) (event : KeyEvent) :
    Partial (SkkEngine δ × List EngineAction) :=
  if event.modifiers.ctrl ∧ (event.key = .char 'j' ∨ event.key = .char 'q') then
    .ok ({ self with phase := .hiragana }, [.clearPreedit])
  else .ok (self, [.passthrough])

/-- `handle_wide_ascii`: a printable ASCII character is committed in full width, and any other
key goes to the application. -/
def handleWideAscii (self : SkkEngine δ) (event : KeyEvent) :
    Partial (SkkEngine δ × List EngineAction) :=
  if event.modifiers.ctrl ∧ (event.key = .char 'j' ∨ event.key = .char 'q') then
    .ok ({ self with phase := .hiragana }, [.clearPreedit])
  else if event.key = .escape then
    .ok ({ self with phase := if self.keybindings.viEscape then .ascii else self.phase },
      [.clearPreedit, .passthrough])
  else
    match event.printableChar.bind toWideAscii with
    | some wide => .ok (self, [.commit [wide]])
    | none => .ok (self, [.passthrough])

/-- BackSpace in code input: one digit back, then one prefix back, then out. -/
def codeInputBackSpace (self : SkkEngine δ) (codePrefix : CodeInputPrefix) (buf : Str) :
    Partial (SkkEngine δ × List EngineAction) :=
  if !buf.isEmpty then { self with phase := .codeInput codePrefix buf.dropLast }.redraw
  else if codePrefix = .unicode then { self with phase := .codeInput .jis [] }.redraw
  else
    .ok ({ self with phase := self.kanaPhaseFromDisplayMode, kanaState := [] }, [.clearPreedit])

/-- `handle_code_input`: a key while a code is typed. Digits are collected without a limit, and
a code that is too long does not decode. -/
def handleCodeInput [EucJp] (self : SkkEngine δ) (event : KeyEvent)
    (codePrefix : CodeInputPrefix) (buf : Str) : Partial (SkkEngine δ × List EngineAction) :=
  if event.key = .escape then
    .ok ({ self with phase := self.kanaPhaseFromDisplayMode, kanaState := [] }, [.clearPreedit])
  else if event.key = .backSpace then self.codeInputBackSpace codePrefix buf
  -- `u` as the first character asks for a Unicode code point.
  else if codePrefix = .jis ∧ buf.isEmpty ∧ event.printableChar = some 'u' then
    { self with phase := .codeInput .unicode [] }.redraw
  else if event.key = .returnKey ∨ (event.key = .char 'j' ∧ event.modifiers.ctrl) then
    let result := match codePrefix with
      | .jis => decodeJisCode buf
      | .unicode => decodeUnicodeCode buf
    .ok ({ self with phase := self.kanaPhaseFromDisplayMode, kanaState := [] },
      -- A code that does not decode leaves the mode without a commit.
      (result.map EngineAction.commit).toList ++ [.clearPreedit])
  else
    match event.printableChar with
    | some ch =>
        if isAsciiHexdigit ch ∧ !event.modifiers.ctrl then
          { self with phase := .codeInput codePrefix (buf ++ [ch.toLower]) }.redraw
        else self.redraw
    | none => self.redraw

/-- `handle_abbrev`: a key while an abbreviation is typed. Space looks it up, Return commits it,
Escape drops it, and characters are collected as they are. -/
def handleAbbrev (self : SkkEngine δ) (event : KeyEvent) (buf : Str) :
    Partial (SkkEngine δ × List EngineAction) :=
  if event.key = .escape then
    .ok ({ self with phase := self.kanaPhaseFromDisplayMode }, [.clearPreedit])
  else if event.key = .backSpace then
    if buf.isEmpty then
      .ok ({ self with phase := self.kanaPhaseFromDisplayMode }, [.clearPreedit])
    else { self with phase := .abbrev buf.dropLast }.redraw
  else if event.key = .space then
    -- Nothing to convert yet.
    if buf.isEmpty then { self with phase := .abbrev buf }.redraw
    else self.startConversion buf none
  else if event.key = .char 'j' ∧ event.modifiers.ctrl then
    .ok ({ self with phase := self.kanaPhaseFromDisplayMode },
      if buf.isEmpty then [.clearPreedit] else [.commit buf, .clearPreedit])
  else if event.key = .returnKey then
    .ok ({ self with phase := self.kanaPhaseFromDisplayMode },
      if buf.isEmpty then [.clearPreedit, .passthrough]
      else [.commit buf, .clearPreedit, .passthrough])
  else
    match event.printableChar with
    | none => self.redraw
    | some ch =>
        if event.modifiers.ctrl then self.redraw
        else { self with phase := .abbrev (buf ++ [ch]) }.redraw

end SkkEngine

end Y2Skk
