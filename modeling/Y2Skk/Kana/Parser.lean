import Y2Skk.Kana.Table
import Y2Skk.Lib.Layers
import Y2Skk.Lib.Lines

/-!
# `Y2Skk.Kana.Parser`: reading a kana table

A table is read line by line: the comment is cut off, then the white space at the end,
then a line that starts with `[` is taken for a section header, and any other one is read
by the rules of its section. A field is unescaped after the line was split at its tabs, so
an escape cannot hide a tab.

## Where the order of these steps shows

The comment goes first, so a `#` in a field must be escaped, and what stands in front of a
comment is trimmed as if it ended the line. The trimming takes tabs as well (`isLineEnd`):
an empty field at the end of a line goes with the tab in front of it. A rule that starts
with `[` is taken for a header before its section is looked at.

## Errors

Every error carries the number of its line, counted from one, and a message with the text
it quotes (`TableMessage`). The first error ends the reading. The metadata section is
accepted and not read. A later alias for a key replaces an earlier one, and the rules are
kept in the order of the file, doubles included.
-/

set_option autoImplicit false

namespace Y2Skk

open Utf8

/-- The messages of a parse error, with the text they quote. -/
inductive TableMessage where
  /-- `unknown section: {other}` -/
  | unknownSection (line : Str)
  /-- `content before any section header` -/
  | noSection
  /-- `unknown escape sequence: \{other}` -/
  | unknownEscape (c : Char)
  /-- `trailing backslash in field` -/
  | trailingBackslash
  /-- `input field is empty` -/
  | emptyInput
  /-- `input field must be a single character, got: {s:?}` -/
  | longInput (field : Str)
  /-- `expected 3 or 4 tab-separated fields, got {}` -/
  | fieldCount (count : Nat)
  /-- `expected 2 tab-separated fields in okuri_alias` -/
  | aliasFieldCount
  /-- `okuri_alias key must not be empty` -/
  | emptyAliasKey
  /-- `okuri_alias value must not be empty` -/
  | emptyAliasValue
  deriving DecidableEq, Repr

/-- `KanaTableError::Parse`: the line, counted from one, and what is wrong with it. The other
variant is that of a file that cannot be read. -/
structure KanaTableError where
  line : Nat
  message : TableMessage
  deriving DecidableEq, Repr

/-- The section a line belongs to: none before the first header. -/
inductive TableSection where
  | none
  | metadata
  | trans
  | transKatakana
  | okuriAlias
  deriving DecidableEq, Repr

/-! ### Comments -/

/-- The loop of `find_comment_start`, from the position `pos` on. A backslash takes the next
character with it, whatever that is. -/
def commentLoop (escaped : Bool) (pos : Nat) : Str → Option Nat
  | [] => none
  | c :: raw =>
      if escaped then commentLoop false (pos + 1) raw
      else if c = '\\' then commentLoop true (pos + 1) raw
      else if c = '#' then some pos
      else commentLoop false (pos + 1) raw

/-- `find_comment_start`: the position of the first unescaped `#`, counted in characters. -/
def findCommentStart (raw : Str) : Option Nat := commentLoop false 0 raw

/-- The line without its comment, and without the `#` that starts it. -/
def stripComment (raw : Str) : Str :=
  match findCommentStart raw with
  | some pos => raw.take pos
  | none => raw

/-! ### Fields -/

/-- `unescape`: resolves the escapes of a field. Three characters can be escaped; any other
escape is an error, and so is a backslash at the end. -/
def unescape : Str → Nat → Except KanaTableError Str
  | [], _ => .ok []
  | [c], lineNum =>
      if c = '\\' then .error ⟨lineNum, .trailingBackslash⟩ else .ok [c]
  | c :: e :: s, lineNum =>
      if c = '\\' then
        if e = '#' ∨ e = '*' ∨ e = '\\' then do return e :: (← unescape s lineNum)
        else .error ⟨lineNum, .unknownEscape e⟩
      else do return c :: (← unescape (e :: s) lineNum)

/-- `parse_input_spec`: a bare `*` is the wildcard, anything else a single character after its
escapes are resolved. The star itself is written with an escape. -/
def parseInputSpec (s : Str) (lineNum : Nat) : Except KanaTableError KanaInput :=
  if s = ['*'] then .ok .wildcard
  else do
    match ← unescape s lineNum with
    | [] => .error ⟨lineNum, .emptyInput⟩
    | [c] => .ok (.char c)
    | _ => .error ⟨lineNum, .longInput s⟩

/-- `parse_trans_line`: `from TAB input TAB to`, and a fourth field for the output. Everything
behind the third tab is the output, with the tabs in it. -/
def parseTransLine (line : Str) (lineNum : Nat) : Except KanaTableError KanaTransition :=
  match splitN '\t' 4 line with
  | fromField :: inputField :: toField :: rest => do
      let fromState ← unescape fromField lineNum
      let input ← parseInputSpec inputField lineNum
      let toState ← unescape toField lineNum
      -- Without the fourth field there is no output.
      let output ← unescape (rest.headD []) lineNum
      return ⟨fromState, input, toState, output⟩
  | fields => .error ⟨lineNum, .fieldCount fields.length⟩

/-- `parse_okuri_alias_line`: a state and the key it is looked up by. Both fields are unescaped
before either is tested for being empty, so the escape error comes first. -/
def parseOkuriAliasLine (line : Str) (lineNum : Nat) (map : List (Str × Str)) :
    Except KanaTableError (List (Str × Str)) :=
  match splitN '\t' 2 line with
  | [keyField, valueField] => do
      let key ← unescape keyField lineNum
      let value ← unescape valueField lineNum
      if key.isEmpty then .error ⟨lineNum, .emptyAliasKey⟩
      else if value.isEmpty then .error ⟨lineNum, .emptyAliasValue⟩
      else return Layers.insert map key value
  | _ => .error ⟨lineNum, .aliasFieldCount⟩

/-! ### Lines -/

/-- What is cut off at the end of a line, tabs as well. -/
def isLineEnd (c : Char) : Bool := c = ' ' || c = '\t' || c = '\r' || c = '\n'

/-- The line as it is parsed: without its comment, and without what stood before it at the
end. -/
def tableLine (raw : Str) : Str := (stripComment raw).rdropWhile isLineEnd

/-- The variables of the loop of `parse_table`: the section, and the parts of the table read so
far. -/
structure TableState where
  current : TableSection
  transitions : List KanaTransition
  kataOverrides : List KanaTransition
  okuriAliases : List (Str × Str)
  deriving DecidableEq, Repr

/-- The body of the loop of `parse_table`, on a line and its index. Empty lines are skipped in
every section. -/
def parseTableLine (st : TableState) (raw : Str × Nat) : Except KanaTableError TableState :=
  let lineNum := raw.2 + 1
  let line := tableLine raw.1
  if line.isEmpty then .ok st
  else if line.head? = some '[' then
    if line = "[meta]".toList then .ok { st with current := .metadata }
    else if line = "[trans]".toList then .ok { st with current := .trans }
    else if line = "[trans.katakana]".toList then .ok { st with current := .transKatakana }
    else if line = "[okuri_alias]".toList then .ok { st with current := .okuriAlias }
    else .error ⟨lineNum, .unknownSection line⟩
  else
    match st.current with
    | .none => .error ⟨lineNum, .noSection⟩
    -- The metadata is not read.
    | .metadata => .ok st
    | .trans => do
        let t ← parseTransLine line lineNum
        return { st with transitions := st.transitions ++ [t] }
    | .transKatakana => do
        let t ← parseTransLine line lineNum
        return { st with kataOverrides := st.kataOverrides ++ [t] }
    | .okuriAlias => do
        let aliases ← parseOkuriAliasLine line lineNum st.okuriAliases
        return { st with okuriAliases := aliases }

/-- `parse_table`: reads a table, up to the first error. -/
def parseTable (src : Str) : Except KanaTableError KanaTable := do
  let st ← (lines src).zipIdx.foldlM parseTableLine ⟨.none, [], [], []⟩
  return ⟨st.transitions, st.kataOverrides, st.okuriAliases⟩

end Y2Skk
