import Mathlib.Data.List.DropRight
import Y2Skk.Engine.State

/-!
# `Y2Skk.Ipc.Config`: the configuration file

`Config` is the content of `config.toml` (crate `skk-config`). `Config.load` reads it, and
`validate` checks it and builds its kana table.

## The environment

`Platform` is what these functions take from their environment: the `toml` crate, the
directories of the user, the files other than the configuration, and the Unicode tables of
the standard library. Nothing is assumed about it: a theorem about loading holds for every
environment.

## Paths

A path is its text, and two paths are compared by their components, as `Path` does:
repeated slashes and single dots do not count, except for a dot at the start. `Path.join`
and `Path.parent` are the two operations on paths that the configuration needs.

## Errors

The errors are the variants of the source with the values they quote: the path that was
not found, the directories that were searched, the name that was not recognised.
`validate` reports the first one, in the order in which the source looks: the mode, the
two lists of toggle keys, the trigger characters, the kana table, the dictionaries, and
the directory of the user dictionary.
-/

set_option autoImplicit false

namespace Y2Skk

open Utf8 (Str)

/-! ### Paths -/

/-- A path, as it is written. -/
structure Path where
  text : Str
  deriving Repr

/-- `std::path::Component`, without the prefixes of Windows. -/
inductive PathComponent where
  | rootDir
  | curDir
  | parentDir
  | normal (name : Str)
  deriving DecidableEq, Repr

namespace Path

/-- Empty parts and dots are no components, except for a dot at the start. -/
def isSkipped (part : Str) : Bool := decide (part = [] ∨ part = ['.'])

/-- `Path::components`: the root or a leading dot, and then the names. -/
def components (path : Path) : List PathComponent :=
  let parts := path.text.splitOn '/'
  let start := if path.text.head? = some '/' then [.rootDir]
    else if parts.head? = some ['.'] then [.curDir] else []
  start ++ (parts.filter fun part => !isSkipped part).map fun part =>
    if part = ['.', '.'] then .parentDir else .normal part

/-- Paths are compared by their components. -/
instance : BEq Path := ⟨fun a b => decide (a.components = b.components)⟩

/-- `Path::join`: an absolute path replaces what it is joined to. -/
def join (path sub : Path) : Path :=
  if sub.text.head? = some '/' then sub
  else if path.text.getLast?.all (· = '/') then ⟨path.text ++ sub.text⟩
  else ⟨path.text ++ '/' :: sub.text⟩

/-- The components of `Path::parent`. -/
def parent (path : Path) : Option (List PathComponent) :=
  match path.components.getLast? with
  | none | some .rootDir => none
  | some _ => some path.components.dropLast

end Path

/-! ### The configuration -/

/-- Character encoding of a dictionary file. -/
inductive DictEncoding where
  | utf8
  | eucJp
  deriving DecidableEq, Repr

/-- The section `[input]`, with the defaults of the source. -/
structure InputConfig where
  /-- Built-in layout name or user-defined table name. -/
  kanaLayout : Str := "romaji".toList
  /-- A user-defined kana table file. -/
  kanaTable : Option Path := none
  defaultMode : Str := "ascii".toList
  toggleKeys : List Str := ["shift+space".toList]
  rawModeToggleKeys : List Str := []
  conversionTriggerChars : List Str := [[','], ['.'], ['を']]
  viEscape : Bool := false

/-- The section `[user-dict]`. -/
structure UserDictConfig where
  path : Option Path := none
  deriving BEq

/-- One dictionary of the system: where it is, how it is encoded, and its priority. -/
structure DictSource where
  path : Path
  encoding : DictEncoding := .utf8
  priority : Int := 0
  deriving BEq

/-- The section `[dict]`. -/
structure DictConfig where
  sources : List DictSource := []
  /-- Whether `skk-ignore-dic-word` directives are interpreted. -/
  lispDirectives : Bool := true

/-- The section `[indicator]`. -/
structure IndicatorConfig where
  enabled : Bool := true
  /-- Milliseconds before the indicator hides (0 = always visible). -/
  timeoutMs : UInt32 := 2000

/-- The section `[candidates]`. -/
structure CandidatesConfig where
  inlineCount : Nat := 3
  selectionKeys : Str := "asdfjkl;".toList

/-- The section `[daemon]`. -/
structure DaemonConfig where
  logLevel : Str := "info".toList

/-- The whole configuration. A document without a section has its defaults. -/
structure Config where
  input : InputConfig := {}
  userDict : UserDictConfig := {}
  dict : DictConfig := {}
  indicator : IndicatorConfig := {}
  candidates : CandidatesConfig := {}
  daemon : DaemonConfig := {}

/-- The environment of the daemon. Errors of other crates are their texts, since only their
texts are passed on. -/
class Platform where
  /-- `toml::from_str`, with serde's reading of `Config`. -/
  fromToml : Str → Except Str Config
  /-- An environment variable. -/
  env : Str → Option Str
  homeDir : Option Path
  configDir : Option Path
  dataDir : Option Path
  pathExists : List PathComponent → Bool
  /-- Reads and parses a kana table file. -/
  loadTable : Path → Except Str KanaTable
  /-- `str::to_lowercase`. -/
  toLowercase : Str → Str
  /-- A string as `{:?}` writes it. -/
  debug : Str → Str

open Platform

/-! ### Loading -/

/-- Why a configuration could not be loaded: its file could not be read, or is not valid. -/
inductive ConfigError where
  | io (path : Path) (source : Str)
  | toml (path : Path) (source : Str)

section Platform
variable [Platform]

/-- `expand_tilde`: expands a leading `~` to the user's home directory. The tilde has to be a
component of its own, so `~user` stays as it is. -/
def expandTilde (path : Path) : Path :=
  match path.text.splitOn '/' with
  | ['~'] :: rest =>
      match homeDir with
      | some home =>
          home.join ⟨['/'].intercalate ((rest.dropWhile Path.isSkipped).rdropWhile Path.isSkipped)⟩
      | none => path
  | _ => path

namespace UserDictConfig

/-- `effective_path`: the user dictionary path, falling back to the data directory. -/
def effectivePath (config : UserDictConfig) : Path :=
  config.path.getD (((dataDir.getD ⟨['.']⟩).join ⟨"y2skk".toList⟩).join ⟨"user.dict".toList⟩)

end UserDictConfig

namespace Config

/-- `normalize`: expands `~` in all path fields. -/
def normalize (config : Config) : Config :=
  { config with
    input := { config.input with kanaTable := config.input.kanaTable.map expandTilde }
    userDict := { config.userDict with path := config.userDict.path.map expandTilde }
    dict := { config.dict with
      sources := config.dict.sources.map fun source =>
        { source with path := expandTilde source.path } } }

/-- `Config::load`: loads the configuration; `src` is what reading the file gives. -/
def load (path : Path) (src : Except Str Str) : Except ConfigError Config :=
  match src with
  | .error source => .error (.io path source)
  | .ok src =>
      match fromToml src with
      | .error source => .error (.toml path source)
      | .ok config => .ok config.normalize

end Config

/-! ### The kana table -/

/-- Why there is no kana table: no file of the name was found, the file that was named does not
exist, or it could not be read as a table. -/
inductive KanaTableResolveError where
  | notFound (layout searched : Str)
  | explicitPathNotFound (path : Path)
  | parse (path : Path) (source : Str)

/-- `kana_table_search_dirs`: the directories in which kana tables are searched, highest
priority first: the user's configuration, the user's data, and then the data of the system. -/
def kanaTableSearchDirs : List Path :=
  let tables : Path := ⟨"y2skk/tables".toList⟩
  let configHome := ((env "XDG_CONFIG_HOME".toList).map Path.mk).getD
    (configDir.getD ⟨".config".toList⟩)
  let dataHome := ((env "XDG_DATA_HOME".toList).map Path.mk).getD
    (dataDir.getD ⟨".local/share".toList⟩)
  let dataDirs := (env "XDG_DATA_DIRS".toList).getD "/usr/local/share:/usr/share".toList
  [configHome.join tables, dataHome.join tables]
    ++ (dataDirs.splitOn ':').map fun part => Path.join ⟨part⟩ tables

/-- `load_kana_table`: finds the kana table of the configuration and loads it. A path in the
configuration is not searched for. -/
def loadKanaTable (input : InputConfig) : Except KanaTableResolveError KanaTable := do
  let path ← match input.kanaTable with
    | some explicit =>
        if pathExists explicit.components then .ok explicit
        else .error (.explicitPathNotFound explicit)
    | none =>
        let filename : Path := ⟨input.kanaLayout ++ ".txt".toList⟩
        let files := kanaTableSearchDirs.map fun dir => dir.join filename
        match files.find? fun p => pathExists p.components with
        | some path => .ok path
        | none =>
            .error (.notFound input.kanaLayout (", ".toList.intercalate (files.map Path.text)))
  match loadTable path with
  | .ok table => .ok table
  | .error source => .error (.parse path source)

/-! ### Validation -/

/-- What is wrong with a configuration that could be read. -/
inductive ConfigValidationError where
  | invalidDefaultMode (value : Str)
  | invalidToggleKey (value reason : Str)
  | invalidConversionTriggerChar (value : Str)
  | kanaTable (error : KanaTableResolveError)
  | dictPathNotFound (path : Path)
  | userDictParentNotFound (path : List PathComponent)

omit [Platform] in
/-- `parse_default_mode`: the phase a session starts in, by its name. Some modes have more than
one spelling. -/
def parseDefaultMode (name : Str) : Except ConfigValidationError SkkPhase :=
  if name = "hiragana".toList then .ok .hiragana
  else if name = "katakana".toList then .ok .katakana
  else if name = "half-width-katakana".toList ∨ name = "halfwidth-katakana".toList then
    .ok .halfWidthKatakana
  else if name = "wide-ascii".toList ∨ name = "wideascii".toList ∨ name = "zenkaku".toList then
    .ok .wideAscii
  else if name = "ascii".toList ∨ name = "latin".toList then .ok .ascii
  else .error (.invalidDefaultMode name)

/-- The key of a toggle key string. Names are compared in lower case, and any single character
names itself. -/
def parseKeyName (s keyStr : Str) : Except ConfigValidationError Key :=
  let k := toLowercase keyStr
  if k = "space".toList then .ok .space
  else if k = "return".toList ∨ k = "enter".toList then .ok .returnKey
  else if k = "tab".toList then .ok .tab
  else if k = "escape".toList ∨ k = "esc".toList then .ok .escape
  else
    match k with
    | [c] => .ok (.char c)
    | _ => .error (.invalidToggleKey s ("unrecognised key name ".toList ++ debug keyStr))

/-- Adds a modifier of a toggle key string. Control and Super have two names each, in any case
of letters, and an unknown name is reported with the string it stands in. -/
def addModifier (s : Str) (mods : Modifiers) (modStr : Str) :
    Except ConfigValidationError Modifiers :=
  let m := toLowercase modStr
  if m = "shift".toList then .ok { mods with shift := true }
  else if m = "ctrl".toList ∨ m = "control".toList then .ok { mods with ctrl := true }
  else if m = "alt".toList then .ok { mods with alt := true }
  else if m = "meta".toList ∨ m = "super".toList then .ok { mods with metaKey := true }
  else .error (.invalidToggleKey s ("unrecognised modifier ".toList ++ debug m))

/-- `parse_toggle_key`: the key is the part behind the last plus sign, and the others are
modifiers. The key is looked at first, so its error comes first. -/
def parseToggleKey (s : Str) : Except ConfigValidationError (Key × Modifiers) := do
  let parts := s.splitOn '+'
  match parts.getLast? with
  | none => .error (.invalidToggleKey s "empty string".toList)
  | some keyStr => do
      let key ← parseKeyName s keyStr
      let mods ← parts.dropLast.foldlM (addModifier s) {}
      return (key, mods)

/-- `validate`: checks a configuration, and returns its kana table. The first check that fails
is the error that is reported. -/
def validate (config : Config) : Except ConfigValidationError KanaTable := do
  let _ ← parseDefaultMode config.input.defaultMode
  let _ ← config.input.toggleKeys.mapM parseToggleKey
  let _ ← config.input.rawModeToggleKeys.mapM parseToggleKey
  match config.input.conversionTriggerChars.find? fun entry => entry.length ≠ 1 with
  | some entry => .error (.invalidConversionTriggerChar entry)
  | none => do
      let kanaTable ← (loadKanaTable config.input).mapError .kanaTable
      match config.dict.sources.find? fun source => !pathExists source.path.components with
      | some source => .error (.dictPathNotFound source.path)
      | none =>
          -- The file itself is created on demand.
          match config.userDict.effectivePath.parent with
          | some parent =>
              if parent ≠ [] ∧ !pathExists parent then .error (.userDictParentNotFound parent)
              else .ok kanaTable
          | none => .ok kanaTable

end Platform

end Y2Skk
