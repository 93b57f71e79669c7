import Y2Skk.Ipc.Config
import Y2Skk.Ipc.Daemon
import Y2Skk.Lib.Program

/-!
# `Y2Skk.Ipc.Reload`: the D-Bus interface and reloads of the configuration

`SessionManager.reload` rebuilds the engines of a running daemon with a new configuration:
every engine is new, and keeps nothing but its base input mode. The dictionaries are
loaded again when their part of the configuration has changed, and kept otherwise.

## Programs and locks

`DaemonInterface` has the methods of the D-Bus object as programs over atomic operations:
an operation is what happens under one lock. The lock of the configuration is held over
several operations of `reloadConfig`, so taking and releasing it are operations of their
own; `waits` says when the first has to wait. The lock of the sessions is held for one
operation only. The file is read and checked before the lock is taken, as in the source,
so a call may apply contents that have been replaced in the meantime.

## Versions

Between the operations of a method the others run, and the configuration file is
rewritten. Its contents have the numbers 0, 1, 2, …. The number a call has read, and that
of the last call that took the lock, are records of the model: no program looks at them.
They are what the theorems about the order of concurrent reloads speak of.
-/

set_option autoImplicit false

namespace Y2Skk

open Outcome Concurrent
open Utf8 (Str)

/-! ### Reloading the sessions -/

/-- The dictionary files as they are read at some moment. -/
structure DictFiles (δ : Type) where
  /-- `UserDict::load`. -/
  loadUser : Path → Except DictError δ
  /-- `UserDict::empty`. -/
  emptyUser : Path → δ
  /-- `FileDict::load`. -/
  loadFile : DictSource → Except DictError δ

/-- `load_dicts`: the user dictionary, then the other dictionaries; what cannot be read is left
out. A user dictionary that cannot be read is replaced by an empty one, by way of
`/dev/null`. -/
def loadDicts {δ : Type} (files : DictFiles δ) (config : Config) [Platform] : List δ :=
  let userDictPath := config.userDict.effectivePath
  let userDict := match files.loadUser userDictPath with
    | .ok userDict => userDict
    | .error _ =>
        match files.loadUser ⟨"/dev/null".toList⟩ with
        | .ok userDict => userDict
        | .error _ => files.emptyUser userDictPath
  userDict :: config.dict.sources.filterMap fun source => (files.loadFile source).toOption

/-- `keybindings_from_config`: the keybindings of a valid configuration; invalid entries are
left out. -/
def keybindingsFromConfig [Platform] (config : Config) : SkkKeybindings where
  inlineCount := config.candidates.inlineCount
  selectionKeys := config.candidates.selectionKeys
  conversionTriggerChars := config.input.conversionTriggerChars.filterMap List.head?
  toggleKeys := config.input.toggleKeys.filterMap fun s => (parseToggleKey s).toOption
  rawModeToggleKeys := config.input.rawModeToggleKeys.filterMap fun s => (parseToggleKey s).toOption
  viEscape := config.input.viEscape

/-- What a configuration gives the engines. The indicator is switched off by a timeout of 0,
whichever of its two settings asks for that. -/
def settingsFromConfig {δ : Type} [Platform] (config : Config) (kanaTable : KanaTable)
    (providers : List δ) : Settings δ where
  kanaTable := kanaTable
  keybindings := keybindingsFromConfig config
  initialPhase := (parseDefaultMode config.input.defaultMode).toOption.getD .hiragana
  providers := providers
  indicatorTimeoutMs := if config.indicator.enabled then config.indicator.timeoutMs else 0
  lispDirectives := config.dict.lispDirectives

/-- The dictionaries have to be loaded again: the sources or the user dictionary have changed.
The switch for directives is no reason. -/
def dictsChanged (old new : Config) : Bool :=
  old.dict.sources != new.dict.sources || old.userDict != new.userDict

namespace SessionManager

variable {δ : Type} [DictionaryProvider δ]

/-- Applies a validated configuration. Every engine is rebuilt, and keeps its base input mode
only; the dictionaries are loaded again only when their settings changed. -/
def reload [Platform] (self : SessionManager δ) (config : Config) (dictsChanged : Bool)
    (kanaTable : KanaTable) (files : DictFiles δ) : SessionManager δ :=
  let providers := if dictsChanged then loadDicts files config else self.settings.providers
  let settings := settingsFromConfig config kanaTable providers
  let dict := if dictsChanged then (newEngine settings).dict else self.dict
  { self with
    settings := settings
    dict := dict
    sessions := self.sessions.mapValues fun engine =>
      { newEngine { settings with initialPhase := engine.baseInputMode } with dict := dict } }

end SessionManager

/-! ### The D-Bus interface -/

namespace DaemonInterface

/-- What a call of `reload_config` has loaded; `version` numbers the contents of the file. -/
structure Loaded where
  version : Nat
  config : Config
  kanaTable : KanaTable

/-- Why a reload was refused. -/
inductive ReloadError where
  | load (error : ConfigError)
  | validation (error : ConfigValidationError)

/-- The atomic operations of the methods. -/
inductive Op where
  /-- Reads the configuration file. -/
  | readFile
  /-- Takes the configuration lock, for a call that has read this version. -/
  | lockConfig (version : Nat)
  | appliedConfig
  /-- Locks the sessions and reloads them. -/
  | reload (loaded : Loaded) (dictsChanged : Bool)
  | storeConfig (loaded : Loaded)
  | unlockConfig
  | createSession (appId : Str)
  | destroySession (sessionId : SessionId)
  | processKey (sessionId : SessionId) (key : RawKey)

/-- The replies of the operations. -/
abbrev Reply : Op → Type
  /- The version, and what reading it gives. -/
  | .readFile => Nat × Except Str Str
  | .appliedConfig => Config
  | .createSession _ => SessionId
  | .processKey _ _ => Option (List IpcAction)
  | _ => Unit

/-- A method of the interface. -/
abbrev Call := Program Op Reply

namespace Op

/-- The program of one operation. -/
def run (o : Op) : Call (Reply o) := Program.call o

end Op

variable [Platform]

/-- `Config::load`, then `validate`: what a reload does before it takes the lock. -/
def loadConfig (configPath : Path) (file : Except Str Str) :
    Except ReloadError (Config × KanaTable) := do
  let config ← (Config.load configPath file).mapError .load
  let kanaTable ← (validate config).mapError .validation
  return (config, kanaTable)

/-- Reloads the configuration file and applies it to all live sessions. The file is read and
checked before the lock is taken. -/
def reloadConfig (configPath : Path) : Call (Except ReloadError Unit) := do
  let (version, file) ← Op.run .readFile
  match loadConfig configPath file with
  | .error e => pure (.error e)
  | .ok (newCfg, kanaTable) => do
      let loaded : Loaded := ⟨version, newCfg, kanaTable⟩
      Op.run (.lockConfig version)
      let applied ← Op.run .appliedConfig
      Op.run (.reload loaded (dictsChanged applied newCfg))
      Op.run (.storeConfig loaded)
      Op.run .unlockConfig
      pure (.ok ())

omit [Platform] in
/-- `create_session` of the interface: one look under the lock of the sessions. -/
def createSession (appId : Str) : Call SessionId := Op.run (.createSession appId)

omit [Platform] in
/-- `destroy_session` of the interface. -/
def destroySession (sessionId : SessionId) : Call Unit := Op.run (.destroySession sessionId)

omit [Platform] in
/-- `process_key` of the interface. -/
def processKey (sessionId : SessionId) (key : RawKey) : Call (Option (List IpcAction)) :=
  Op.run (.processKey sessionId key)

/-- A call of a client. -/
inductive Request where
  | createSession (appId : Str)
  | destroySession (sessionId : SessionId)
  | processKey (sessionId : SessionId) (key : RawKey)
  | reloadConfig
  deriving DecidableEq

/-- The program of a request. What it answers to its caller is left out. -/
def program (configPath : Path) : Request → Call PUnit
  | .createSession appId => do
      let _ ← createSession appId
      pure ⟨⟩
  | .destroySession sessionId => do
      let _ ← destroySession sessionId
      pure ⟨⟩
  | .processKey sessionId key => do
      let _ ← processKey sessionId key
      pure ⟨⟩
  | .reloadConfig => do
      let _ ← reloadConfig configPath
      pure ⟨⟩

/-! ### The daemon and its configuration file -/

/-- The state the calls share. -/
structure State (δ : Type) where
  sessions : SessionManager δ
  config : Config
  configLocked : Bool
  /-- The contents the configuration file has had before. -/
  past : List (Except Str Str)
  /-- The contents it has now. -/
  file : Except Str Str
  /-- The version read by the call that took the lock last. -/
  lastTaken : Nat
  /-- The versions that were applied, to the sessions and as the stored configuration. -/
  applied : List Nat

namespace State

variable {δ : Type}

/-- All contents of the file so far. -/
def contents (s : State δ) : List (Except Str Str) := s.past ++ [s.file]

/-- The number of the present contents. -/
def version (s : State δ) : Nat := s.past.length

end State

variable {δ : Type} [DictionaryProvider δ]

/-- The daemon after its start with the contents `file`, which gave `config`. Its lock is free,
and nothing has been applied since. -/
def start (file : Except Str Str) (config : Config) (kanaTable : KanaTable)
    (files : DictFiles δ) : State δ where
  sessions := .new (settingsFromConfig config kanaTable (loadDicts files config))
  config := config
  configLocked := false
  past := []
  file := file
  lastTaken := 0
  applied := []

/-- What an operation replies and does, with the dictionary files as they are now. A `reload`
and a `storeConfig` are recorded with the version they apply. -/
def exec [EucJp] (files : DictFiles δ) (s : State δ) : (o : Op) → Reply o × State δ × List Empty
  | .readFile => ((s.version, s.file), s, [])
  | .lockConfig version => ((), { s with configLocked := true, lastTaken := version }, [])
  | .appliedConfig => (s.config, s, [])
  | .reload loaded changed =>
      ((), { s with
        sessions := s.sessions.reload loaded.config changed loaded.kanaTable files
        applied := s.applied ++ [loaded.version] }, [])
  | .storeConfig loaded =>
      ((), { s with config := loaded.config, applied := s.applied ++ [loaded.version] }, [])
  | .unlockConfig => ((), { s with configLocked := false }, [])
  | .createSession appId =>
      let (sessions, id) := s.sessions.createSession appId
      (id, { s with sessions := sessions }, [])
  | .destroySession id => ((), { s with sessions := s.sessions.destroySession id }, [])
  | .processKey id key =>
      match s.sessions.processKey id key with
      | .ok (sessions, actions) => (some actions, { s with sessions := sessions }, [])
      -- A panic answers nothing and leaves the session as it was.
      | .error _ => (none, s, [])

/-- The configuration file gets new contents. -/
def rewrite (file : Except Str Str) (s : State δ) : State δ :=
  { s with past := s.contents, file := file }

/-- The calls and the file: the programs are the methods, and the environment rewrites the
file. -/
def machine [EucJp] (configPath : Path) :
    Machine Op Reply (State δ) Request (DictFiles δ) (Except Str Str) Empty where
  body := program configPath
  exec := exec
  env := rewrite

/-- An operation is performed only when the lock it takes is free. -/
def waits (s : State δ) : Op → Prop
  | .lockConfig _ => s.configLocked = false
  | _ => True

/-- Whether an operation has to wait is seen from the lock. -/
instance (s : State δ) (o : Op) : Decidable (waits s o) := by
  unfold waits
  split <;> infer_instance

end DaemonInterface

end Y2Skk
