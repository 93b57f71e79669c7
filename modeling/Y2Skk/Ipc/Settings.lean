import Y2Skk.Ipc.Config
import Y2Skk.Lib.Toml

/-!
# `Y2Skk.Ipc.Settings`: the settings tool writes the configuration

`Config.read` is how serde reads a document as a `Config`: the structs of `skk-config`,
their fields by name in a table and by position in an array, with the defaults for fields
that are not there. `writeConfigPreserving` is how the settings tool stores a
configuration: it edits the document that is there, and only where the two configurations
differ, so that comments and keys it does not know survive.

## Fields as data

The fifteen fields of a configuration are the constructors of `ConfigField`, each with its
section, its key, its place in the declaration of the struct and its type.
`Config.readField` reads any of them. The writing side keeps the shape of the source
instead, a function for each section with one test for each field: the two sides can so
disagree, and that they do not is a theorem.

## Files

A file is known by what becomes of it when it is read, `ConfigFile`. A document stands for
its text: `toml_edit` prints it, and reads the same document back. The replacement of the
file is atomic: a temporary file is written beside it and renamed, and each of the three
steps may fail.

## Integers

TOML has signed integers of 64 bits. A field of another type accepts those within its own
bounds, and the number of inline candidates is written with `as i64`, which wraps.
-/

set_option autoImplicit false

namespace Y2Skk

open Utf8 (Str)
open Toml
open OrdMap (getEntry insertEntry)

/-! ### Values -/

namespace DictEncoding

/-- `Display`. -/
def toStr : DictEncoding → Str
  | utf8 => "utf-8".toList
  | eucJp => "euc-jp".toList

/-- `FromStr`, in any case of ASCII letters. -/
def fromStr (s : Str) : Option DictEncoding :=
  let lower := s.map Char.toLower
  if lower = "euc-jp".toList ∨ lower = "eucjp".toList ∨ lower = "euc_jp".toList then some .eucJp
  else if lower = "utf-8".toList ∨ lower = "utf8".toList ∨ lower = "utf_8".toList then some .utf8
  else none

end DictEncoding

/-- An integer within bounds. -/
def readInteger (least greatest : Int) (item : Item) : Option Int :=
  item.asInteger.bind fun i => if least ≤ i ∧ i ≤ greatest then some i else none

/-- `i32`: the priority of a source. -/
def readI32 (item : Item) : Option Int := readInteger (-2147483648) 2147483647 item

/-- `u32`: the timeout of the indicator. -/
def readU32 (item : Item) : Option UInt32 :=
  (readInteger 0 4294967295 item).map fun i => i.toNat.toUInt32

/-- `usize`, of 64 bits: the number of inline candidates. -/
def readUsize (item : Item) : Option Nat :=
  (readInteger 0 18446744073709551615 item).map Int.toNat

/-- `Deserialize` of a source: only the path has no default. As a struct it is read from a table
by key, or from an array by position. -/
def DictSource.read (item : Item) : Option DictSource :=
  let record := some item
  if isRecord record then do
    let path ← (fieldItem record "path".toList 0).bind Item.asStr
    let readEncoding := fun item : Item => item.asStr.bind DictEncoding.fromStr
    let encoding ← readField readEncoding .utf8 record "encoding".toList 1
    let priority ← readField readI32 0 record "priority".toList 2
    return ⟨⟨path⟩, encoding, priority⟩
  else none

/-- The types of the fields. A field is written, compared and read by its kind, and not by its
name. -/
inductive FieldKind where
  | text
  | path
  | texts
  | flag
  | u32
  | usize
  | sources
  deriving DecidableEq

namespace FieldKind

/-- The Rust type of a field of this kind. An optional path is optional only in the
configuration: in the document it is there or the key is missing. -/
def Value : FieldKind → Type
  | text => Str
  | path => Option Path
  | texts => List Str
  | flag => Bool
  | u32 => UInt32
  | usize => Nat
  | sources => List DictSource

/-- `==` of the type, by which the settings tool decides whether a field has changed. -/
def same : (kind : FieldKind) → kind.Value → kind.Value → Bool
  | text, (a : Str), (b : Str) => decide (a = b)
  | path, (a : Option Path), (b : Option Path) => a == b
  | texts, (a : List Str), (b : List Str) => decide (a = b)
  | flag, (a : Bool), (b : Bool) => decide (a = b)
  | u32, (a : UInt32), (b : UInt32) => decide (a = b)
  | usize, (a : Nat), (b : Nat) => decide (a = b)
  | sources, (a : List DictSource), (b : List DictSource) => a == b

/-- `Deserialize` of the type. An item of another type is an error, and the whole document is
then not read. -/
def read : (kind : FieldKind) → Item → Option kind.Value
  | text, item => item.asStr
  | path, item => item.asStr.map fun s => some (Path.mk s)
  | texts, item => item.asSeq.bind fun items => items.mapM Item.asStr
  | flag, item => item.asBool
  | u32, item => readU32 item
  | usize, item => readUsize item
  | sources, item => item.asSeq.bind fun items => items.mapM DictSource.read

end FieldKind

/-! ### Fields -/

/-- The fields of a configuration, in the order they are written: section by section, and in a
section from the first to the last. -/
inductive ConfigField where
  | kanaLayout
  | kanaTable
  | defaultMode
  | toggleKeys
  | rawModeToggleKeys
  | conversionTriggerChars
  | viEscape
  | userDictPath
  | lispDirectives
  | sources
  | enabled
  | timeoutMs
  | inlineCount
  | selectionKeys
  | logLevel
  deriving DecidableEq

namespace ConfigField

/-- The fields, each of them once. -/
def all : List ConfigField :=
  [kanaLayout, kanaTable, defaultMode, toggleKeys, rawModeToggleKeys, conversionTriggerChars,
    viEscape, userDictPath, lispDirectives, sources, enabled, timeoutMs, inlineCount,
    selectionKeys, logLevel]

/-- The key of the section in the document. The user dictionary is the only one whose name in
TOML differs from that in Rust. -/
def sectionKey : ConfigField → Str
  | kanaLayout | kanaTable | defaultMode | toggleKeys | rawModeToggleKeys
  | conversionTriggerChars | viEscape => "input".toList
  | userDictPath => "user-dict".toList
  | lispDirectives | sources => "dict".toList
  | enabled | timeoutMs => "indicator".toList
  | inlineCount | selectionKeys => "candidates".toList
  | logLevel => "daemon".toList

/-- The key within the section, in the spelling of TOML. The writing side repeats these texts,
and the reading side takes them from here. -/
def key : ConfigField → Str
  | kanaLayout => "kana_layout".toList
  | kanaTable => "kana_table".toList
  | defaultMode => "default_mode".toList
  | toggleKeys => "toggle_keys".toList
  | rawModeToggleKeys => "raw_mode_toggle_keys".toList
  | conversionTriggerChars => "conversion_trigger_chars".toList
  | viEscape => "vi_escape".toList
  | userDictPath => "path".toList
  | lispDirectives => "lisp_directives".toList
  | sources => "sources".toList
  | enabled => "enabled".toList
  | timeoutMs => "timeout_ms".toList
  | inlineCount => "inline_count".toList
  | selectionKeys => "selection_keys".toList
  | logLevel => "log_level".toList

/-- The position in the declaration of the struct, by which a field is read when the section is
an array. -/
def index : ConfigField → Nat
  | kanaLayout | userDictPath | sources | enabled | inlineCount | logLevel => 0
  | kanaTable | lispDirectives | timeoutMs | selectionKeys => 1
  | defaultMode => 2
  | toggleKeys => 3
  | rawModeToggleKeys => 4
  | conversionTriggerChars => 5
  | viEscape => 6

/-- The type of the field, which decides how it is read, compared and written. -/
def kind : ConfigField → FieldKind
  | kanaLayout | defaultMode | selectionKeys | logLevel => .text
  | kanaTable | userDictPath => .path
  | toggleKeys | rawModeToggleKeys | conversionTriggerChars => .texts
  | viEscape | lispDirectives | enabled => .flag
  | timeoutMs => .u32
  | inlineCount => .usize
  | sources => .sources

end ConfigField

namespace Config

/-- The value of a field in a configuration, at the type of its kind. -/
def get (config : Config) : (f : ConfigField) → f.kind.Value
  | .kanaLayout => config.input.kanaLayout
  | .kanaTable => config.input.kanaTable
  | .defaultMode => config.input.defaultMode
  | .toggleKeys => config.input.toggleKeys
  | .rawModeToggleKeys => config.input.rawModeToggleKeys
  | .conversionTriggerChars => config.input.conversionTriggerChars
  | .viEscape => config.input.viEscape
  | .userDictPath => config.userDict.path
  | .lispDirectives => config.dict.lispDirectives
  | .sources => config.dict.sources
  | .enabled => config.indicator.enabled
  | .timeoutMs => config.indicator.timeoutMs
  | .inlineCount => config.candidates.inlineCount
  | .selectionKeys => config.candidates.selectionKeys
  | .logLevel => config.daemon.logLevel

/-- What serde reads for a field. -/
def readField (doc : Document) (f : ConfigField) : Option f.kind.Value :=
  Toml.readField f.kind.read (Config.get {} f) (getEntry f.sectionKey doc) f.key f.index

/-- The keys of the sections. -/
def sectionKeys : List Str :=
  ["input".toList, "user-dict".toList, "dict".toList, "indicator".toList, "candidates".toList,
    "daemon".toList]

/-- `toml::from_str`, on the document. Every section has to be a record or missing, and then the
fields are read in turn. -/
def read (doc : Document) : Option Config :=
  if sectionKeys.all fun key => isRecord (getEntry key doc) then do
    let kanaLayout ← readField doc .kanaLayout
    let kanaTable ← readField doc .kanaTable
    let defaultMode ← readField doc .defaultMode
    let toggleKeys ← readField doc .toggleKeys
    let rawModeToggleKeys ← readField doc .rawModeToggleKeys
    let conversionTriggerChars ← readField doc .conversionTriggerChars
    let viEscape ← readField doc .viEscape
    let path ← readField doc .userDictPath
    let sources ← readField doc .sources
    let lispDirectives ← readField doc .lispDirectives
    let enabled ← readField doc .enabled
    let timeoutMs ← readField doc .timeoutMs
    let inlineCount ← readField doc .inlineCount
    let selectionKeys ← readField doc .selectionKeys
    let logLevel ← readField doc .logLevel
    return {
      input := ⟨kanaLayout, kanaTable, defaultMode, toggleKeys, rawModeToggleKeys,
        conversionTriggerChars, viEscape⟩
      userDict := ⟨path⟩
      dict := ⟨sources, lispDirectives⟩
      indicator := ⟨enabled, timeoutMs⟩
      candidates := ⟨inlineCount, selectionKeys⟩
      daemon := ⟨logLevel⟩ }
  else none

end Config

/-! ### Writing -/

section Write
variable (doc : Document) (name key : Str)

/-- The entries of a top-level table. What is not a table is replaced by a new one. -/
def sectionMut : List (Str × Item) := tableEntries (getEntry name doc)

/-- `section_mut(doc, name).insert(key, item)`. -/
def sectionInsert (item : Item) : Document :=
  insertEntry name (.table (insertEntry key item (sectionMut doc name))) doc

/-- `set_str`: a field of type `String`. -/
def setStr (v : Str) : Document := sectionInsert doc name key (.value (.string v))

/-- `set_str_array`: a field of type `Vec<String>`. -/
def setStrArray (vals : List Str) : Document :=
  sectionInsert doc name key (.value (.array (vals.map .string)))

/-- Removes a key from a top-level table; from anything else, nothing is removed. -/
def sectionRemove : Document :=
  match getEntry name doc with
  | some (.table entries) => insertEntry name (.table (entries.filter (·.1 ≠ key))) doc
  | _ => doc

/-- `set_opt_path`: a path that is gone is removed from the document. Paths are compared by
their components, so a change of their spelling alone is not written. -/
def setOptPath (new old : Option Path) : Document :=
  if new == old then doc
  else
    match new with
    | some p => sectionInsert doc name key (.value (.string p.text))
    | none => sectionRemove doc name key

end Write

/-- `usize as i64`. -/
def asI64 (n : Nat) : Int := Int.bmod n 18446744073709551616

/-- The table of a source, with all three of its fields, defaults or not. -/
def sourceTable (s : DictSource) : List (Str × Item) :=
  [("path".toList, .value (.string s.path.text)),
    ("encoding".toList, .value (.string s.encoding.toStr)),
    ("priority".toList, .value (.integer s.priority))]

/-- `[input]`: seven fields, each written only when it changed. The section is created, if it is
needed at all, by the first field that is written. -/
def writeInput (doc : Document) (i oi : InputConfig) : Document :=
  let input := "input".toList
  let doc := if i.kanaLayout ≠ oi.kanaLayout then
      setStr doc input "kana_layout".toList i.kanaLayout else doc
  let doc := setOptPath doc input "kana_table".toList i.kanaTable oi.kanaTable
  let doc := if i.defaultMode ≠ oi.defaultMode then
      setStr doc input "default_mode".toList i.defaultMode else doc
  let doc := if i.toggleKeys ≠ oi.toggleKeys then
      setStrArray doc input "toggle_keys".toList i.toggleKeys else doc
  let doc := if i.rawModeToggleKeys ≠ oi.rawModeToggleKeys then
      setStrArray doc input "raw_mode_toggle_keys".toList i.rawModeToggleKeys else doc
  let doc := if i.conversionTriggerChars ≠ oi.conversionTriggerChars then
      setStrArray doc input "conversion_trigger_chars".toList i.conversionTriggerChars else doc
  if i.viEscape ≠ oi.viEscape then
    sectionInsert doc input "vi_escape".toList (.value (.boolean i.viEscape)) else doc

/-- `[user-dict]`. -/
def writeUserDict (doc : Document) (new old : UserDictConfig) : Document :=
  setOptPath doc "user-dict".toList "path".toList new.path old.path

/-- `[dict]`. -/
def writeDict (doc : Document) (new old : DictConfig) : Document :=
  let doc := if new.lispDirectives ≠ old.lispDirectives then
      sectionInsert doc "dict".toList "lisp_directives".toList
        (.value (.boolean new.lispDirectives)) else doc
  if new.sources != old.sources then
    sectionInsert doc "dict".toList "sources".toList (.arrayOfTables (new.sources.map sourceTable))
  else doc

/-- `[indicator]`. -/
def writeIndicator (doc : Document) (new old : IndicatorConfig) : Document :=
  let doc := if new.enabled ≠ old.enabled then
      sectionInsert doc "indicator".toList "enabled".toList (.value (.boolean new.enabled)) else doc
  if new.timeoutMs ≠ old.timeoutMs then
    sectionInsert doc "indicator".toList "timeout_ms".toList
      (.value (.integer new.timeoutMs.toNat)) else doc

/-- `[candidates]`. -/
def writeCandidates (doc : Document) (new old : CandidatesConfig) : Document :=
  let doc := if new.inlineCount ≠ old.inlineCount then
      sectionInsert doc "candidates".toList "inline_count".toList
        (.value (.integer (asI64 new.inlineCount))) else doc
  if new.selectionKeys ≠ old.selectionKeys then
    setStr doc "candidates".toList "selection_keys".toList new.selectionKeys else doc

/-- `[daemon]`. -/
def writeDaemon (doc : Document) (new old : DaemonConfig) : Document :=
  if new.logLevel ≠ old.logLevel then
    setStr doc "daemon".toList "log_level".toList new.logLevel else doc

/-- The document with every field written that differs from the old configuration. -/
def writeConfig (doc : Document) (new old : Config) : Document :=
  let doc := writeInput doc new.input old.input
  let doc := writeUserDict doc new.userDict old.userDict
  let doc := writeDict doc new.dict old.dict
  let doc := writeIndicator doc new.indicator old.indicator
  let doc := writeCandidates doc new.candidates old.candidates
  writeDaemon doc new.daemon old.daemon

/-! ### The file -/

/-- The configuration file. -/
inductive ConfigFile where
  | missing
  | unreadable (error : Str)
  | notToml (text error : Str)
  | toml (doc : Document)

/-- How the steps of replacing the file end. -/
structure Disk where
  createDirAll : Except Str Unit
  /-- Of the temporary file. -/
  write : Except Str Unit
  rename : Except Str Unit

/-- The errors of `write_config_preserving`, all of the type `std::io::Error` in the source.
Nothing was written in any of these cases. -/
inductive WriteError where
  /-- The existing configuration is not valid TOML. -/
  | invalidToml (source : Str)
  /-- The existing configuration is not valid. -/
  | invalidConfig
  | io (source : Str)

namespace ConfigFile

/-- The document to edit and the configuration it holds. Only a missing file starts from
scratch. -/
def load : ConfigFile → Except WriteError (Document × Config)
  | missing => .ok ([], {})
  | unreadable error => .error (.io error)
  | notToml _ error => .error (.invalidToml error)
  | toml doc =>
      match Config.read doc with
      | some old => .ok (doc, old)
      | none => .error .invalidConfig

end ConfigFile

/-- Puts a text in place of the file at `path`, by way of a temporary file. -/
def Disk.replace (disk : Disk) (path : Path) : Except Str Unit := do
  match path.parent with
  | some parent => if parent ≠ [] then disk.createDirAll else .ok ()
  | none => .ok ()
  disk.write
  disk.rename

/-- Writes the configuration; answers how that ended, with the file afterwards. A file that
cannot be read as a configuration is left as it is: there is no telling what to preserve. -/
def writeConfigPreserving (disk : Disk) (path : Path) (file : ConfigFile) (new : Config) :
    Except WriteError Unit × ConfigFile :=
  match file.load with
  | .error e => (.error e, file)
  | .ok (doc, old) =>
      match disk.replace path with
      | .error e => (.error (.io e), file)
      | .ok () => (.ok (), .toml (writeConfig doc new old))

end Y2Skk
