import Y2Skk.Dict.File
import Y2Skk.Ipc.Reload
import Y2Skk.Lib.Outline
import Y2Skk.Proofs.NoPanic

/-!
# `Y2Skk.Proofs.Reload`: overlapping reloads of the configuration

A call of `reload_config` reads the file before it takes the configuration lock. When the
file is rewritten in between, and a call that has read the new contents takes the lock
first, the older contents are applied last (`update_lost`).

`reload_of_run` says that this is all that goes wrong: as long as no call takes the lock
with an older version than the call that took it before, versions are applied in their
order, and when all calls have finished, the configuration applied is one that the file
had after the last of them began.

## Engines in step

Every engine of the daemon is well-formed and runs on the settings of the manager
(`InStep`). New engines do, a key changes nothing of it, and a reload brings the old ones
into step. That is what makes `RunsOn` a statement about the daemon as a whole.

## Versions

The contents that the file has had are numbered. `Loaded.IsOf` says of a configuration
that was read that it comes from the contents of its number, and `InOrder` of the record
of what was applied that the numbers never go down.

## The outline

The proof is an `Outline` of the calls. From `compare` to `unlock` a call holds the lock.
The resource of the lock is the configuration, with everything that was built from it
(`Settled`). The other methods of the daemon may run in between; they are `Quiet`.
`outline_discipline` checks each step of each point once, and the induction over the
interleaving is that of the library.
-/

set_option autoImplicit false

namespace Y2Skk

open Outcome Concurrent Transition
open Utf8 (Str)

/-! ### Engines in step with the settings -/

namespace SessionManager

variable {δ : Type}

/-- The engine is well-formed, and runs on the settings. -/
structure RunsOn (settings : Settings δ) (engine : SkkEngine δ) : Prop where
  wf : engine.Wf
  kanaTable : engine.kanaTable = settings.kanaTable
  keybindings : engine.keybindings = settings.keybindings
  lispDirectives : engine.lispDirectives = settings.lispDirectives

/-- All engines run on the settings of the manager. -/
def InStep (self : SessionManager δ) : Prop :=
  ∀ id engine, self.sessions.get? id = some engine → RunsOn self.settings engine

/-- The dictionary stack is no setting. -/
theorem RunsOn.setDict {settings : Settings δ} {engine : SkkEngine δ}
    (h : RunsOn settings engine) (dict : List δ) :
    RunsOn settings { engine with dict := dict } where
  wf := ⟨h.wf.frames, h.wf.phase⟩
  kanaTable := h.kanaTable
  keybindings := h.keybindings
  lispDirectives := h.lispDirectives

variable [DictionaryProvider δ]

/-- A new engine is well-formed and runs on the settings. -/
theorem runsOn_newEngine (settings : Settings δ) : RunsOn settings (newEngine settings) := by
  have hwf : (newEngine settings).Wf := SkkEngine.fresh_wf ..
  obtain ⟨dict, phase, -, heq⟩ := SkkEngine.fresh_eq settings.kanaTable settings.keybindings
    settings.lispDirectives settings.initialPhase settings.providers
  rw [show newEngine settings = _ from heq] at hwf ⊢
  exact ⟨hwf, rfl, rfl, rfl⟩

/-- A daemon that was just started has no engine to be out of step. -/
theorem inStep_new (settings : Settings δ) : (new settings).InStep := by
  intro id engine hengine
  cases hengine

/-- A reload brings every engine into step. Each session gets a new engine on the new settings;
of the old one it keeps the base mode. -/
theorem inStep_reload [Platform] (self : SessionManager δ) (config : Config) (changed : Bool)
    (kanaTable : KanaTable) (files : DictFiles δ) :
    (self.reload config changed kanaTable files).InStep := by
  intro id engine hengine
  unfold reload at hengine ⊢
  dsimp only at hengine ⊢
  rw [OrdMap.get?_mapValues] at hengine
  obtain ⟨old, -, rfl⟩ := Option.map_eq_some_iff.mp hengine
  -- The initial mode of the new engine is the old one's, which is no setting to run on.
  have hnew := (runsOn_newEngine { settingsFromConfig config kanaTable
    (if changed then loadDicts files config else self.settings.providers) with
      initialPhase := old.baseInputMode }).setDict (if changed then (newEngine
        (settingsFromConfig config kanaTable
          (if changed then loadDicts files config else self.settings.providers))).dict
      else self.dict)
  exact ⟨hnew.wf, hnew.kanaTable, hnew.keybindings, hnew.lispDirectives⟩

/-- A new session gets an engine that is in step, made from the settings the manager has at that
time. -/
theorem InStep.createSession {self : SessionManager δ} (h : self.InStep) (appId : Str) :
    (self.createSession appId).1.InStep := by
  intro id engine hengine
  show RunsOn self.settings engine
  unfold SessionManager.createSession at hengine
  dsimp only at hengine
  rw [OrdMap.get?_insert] at hengine
  split at hengine
  · cases hengine
    exact (runsOn_newEngine self.settings).setDict self.dict
  · exact h id engine hengine

omit [DictionaryProvider δ] in
/-- A session that goes takes its engine along, and the other engines are not touched. -/
theorem InStep.destroySession {self : SessionManager δ} (h : self.InStep) (id : SessionId) :
    (self.destroySession id).InStep := by
  intro id' engine hengine
  show RunsOn self.settings engine
  unfold SessionManager.destroySession at hengine
  dsimp only at hengine
  rw [OrdMap.get?_erase] at hengine
  split at hengine
  · cases hengine
  · exact h id' engine hengine

/-- No key changes what the engine runs on: the table, the bindings and the directive setting
come from the configuration alone. -/
theorem RunsOn.processKey [EucJp] {settings : Settings δ} {engine engine' : SkkEngine δ}
    {event : KeyEvent} {actions : List EngineAction} (h : RunsOn settings engine)
    (hkey : engine.processKey event = .ok (engine', actions)) : RunsOn settings engine' := by
  obtain ⟨r, status, hstep, -, heq⟩ := (SkkEngine.processKey_runs h.wf event).of_ok hkey
  have hwf := (hstep.wf h.wf).1
  obtain rfl : engine' = r.1 := (Prod.mk.inj heq).1
  cases hstep with
  | ignored _ => exact h
  | enterRaw _ _ _ => exact ⟨hwf, h.kanaTable, h.keybindings, h.lispDirectives⟩
  | leaveRaw _ _ _ => exact ⟨hwf, h.kanaTable, h.keybindings, h.lispDirectives⟩
  | cooked _ _ _ hcooked =>
      have hconfig := hcooked.config
      exact ⟨hwf, hconfig.kanaTable.trans h.kanaTable, hconfig.keybindings.trans h.keybindings,
        hconfig.lispDirectives.trans h.lispDirectives⟩

/-- What a key does to the manager. Without a session nothing happens. Otherwise the engine of
the session is stepped in the dictionaries of the manager, and both are stored. -/
theorem processKey_cases [EucJp] {self self' : SessionManager δ} {id : SessionId} {key : RawKey}
    {actions : List IpcAction} (hkey : self.processKey id key = .ok (self', actions)) :
    self' = self ∨ ∃ engine engine' more, self.sessions.get? id = some engine ∧
      { engine with dict := self.dict }.processKey (keyEventFromRaw key) = .ok (engine', more) ∧
      self' = { self with sessions := self.sessions.insert id engine', dict := engine'.dict } := by
  unfold SessionManager.processKey at hkey
  cases hengine : self.sessions.get? id with
  | none =>
      rw [hengine] at hkey
      cases hkey
      exact .inl rfl
  | some engine =>
      rw [hengine] at hkey
      dsimp only at hkey
      cases hstep : { engine with dict := self.dict }.processKey (keyEventFromRaw key) with
      | error e => rw [hstep] at hkey; cases hkey
      | ok r =>
          rw [hstep] at hkey
          cases hkey
          exact .inr ⟨engine, r.1, r.2, rfl, hstep, rfl⟩

/-- No key changes the settings of the manager. -/
theorem settings_processKey [EucJp] {self self' : SessionManager δ} {id : SessionId} {key : RawKey}
    {actions : List IpcAction} (hkey : self.processKey id key = .ok (self', actions)) :
    self'.settings = self.settings := by
  rcases processKey_cases hkey with rfl | ⟨engine, engine', more, -, -, rfl⟩ <;> rfl

/-- A key keeps the engines in step. It changes the engine of its own session, and the
dictionaries, which every engine shares. -/
theorem InStep.processKey [EucJp] {self self' : SessionManager δ} (h : self.InStep)
    {id : SessionId} {key : RawKey} {actions : List IpcAction}
    (hkey : self.processKey id key = .ok (self', actions)) : self'.InStep := by
  rcases processKey_cases hkey with rfl | ⟨engine, engine', more, hengine, hstep, rfl⟩
  · exact h
  intro id' other hother
  show RunsOn self.settings other
  dsimp only at hother
  rw [OrdMap.get?_insert] at hother
  split at hother
  · cases hother
    exact ((h id engine hengine).setDict self.dict).processKey hstep
  · exact h id' other hother

end SessionManager

namespace DaemonInterface

section Calls
variable {δ : Type} [Platform] (configPath : Path)

/-! ### Versions -/

/-- The call has loaded the contents that the file had under this version. -/
def Loaded.IsOf (loaded : Loaded) (s : State δ) : Prop :=
  ∃ file, s.contents[loaded.version]? = some file ∧
    loadConfig configPath file = .ok (loaded.config, loaded.kanaTable)

/-- The sessions run on the configuration. -/
structure RunsOn (loaded : Loaded) (sessions : SessionManager δ) : Prop where
  settings : sessions.settings =
    settingsFromConfig loaded.config loaded.kanaTable sessions.settings.providers
  engines : sessions.InStep

/-- The configuration is the one that is stored, and that the sessions run on. -/
structure IsApplied (loaded : Loaded) (s : State δ) : Prop where
  config : s.config = loaded.config
  sessions : RunsOn loaded s.sessions

/-- No older version was applied after a newer one, or is newer than the last that a call
took the lock with. -/
structure InOrder (s : State δ) : Prop where
  sorted : s.applied.Pairwise (· ≤ ·)
  le_lastTaken : ∀ version ∈ s.applied, version ≤ s.lastTaken

/-- The call that takes the lock has read no older version than the one that took it
before. -/
def takesInOrder (s : State δ) : Op → Prop
  | .lockConfig version => s.lastTaken ≤ version
  | _ => True

/-- Only the operation that takes the lock is compared with the last version. -/
instance (s : State δ) : ∀ o : Op, Decidable (takesInOrder s o)
  | .lockConfig version => Nat.decLe s.lastTaken version
  | .readFile | .appliedConfig | .reload .. | .storeConfig _ | .unlockConfig
  | .createSession _ | .destroySession _ | .processKey .. => .isTrue trivial

/-- An operation that is performed when its lock is free, and in the order of versions. -/
def mayPerform (s : State δ) (o : Op) : Prop := waits s o ∧ takesInOrder s o

/-- What every step keeps. -/
structure Guar (s s' : State δ) : Prop where
  contents : s.contents <+: s'.contents
  lastTaken : s.lastTaken ≤ s'.lastTaken

/-- What the steps of calls keep that do not hold the lock. -/
structure Quiet (s s' : State δ) : Prop where
  config : s'.config = s.config
  configLocked : s'.configLocked = s.configLocked
  lastTaken : s'.lastTaken = s.lastTaken
  applied : s'.applied = s.applied
  settings : s'.sessions.settings = s.sessions.settings
  inStep : s.sessions.InStep → s'.sessions.InStep

omit [Platform] in
/-- A step that does nothing keeps all of it. -/
theorem Guar.refl (s : State δ) : Guar s s := ⟨List.prefix_refl _, Nat.le_refl _⟩

omit [Platform] in
/-- The file never goes back to a smaller number. -/
theorem Guar.version {s s' : State δ} (h : Guar s s') : s.version ≤ s'.version := by
  have hlength := h.contents.length_le
  simp only [State.contents, List.length_append, List.length_singleton] at hlength
  exact Nat.le_of_add_le_add_right hlength

omit [Platform] in
/-- A step that does nothing is quiet. -/
theorem Quiet.refl (s : State δ) : Quiet s s := ⟨rfl, rfl, rfl, rfl, rfl, id⟩

/-- Contents keep their number. -/
theorem Loaded.IsOf.keep {loaded : Loaded} {s s' : State δ} (h : loaded.IsOf configPath s)
    (hguar : Guar s s') : loaded.IsOf configPath s' := by
  obtain ⟨file, hfile, hload⟩ := h
  obtain ⟨rest, hrest⟩ := hguar.contents
  refine ⟨file, ?_, hload⟩
  have hlt : loaded.version < s.contents.length := (List.getElem?_eq_some_iff.mp hfile).1
  rw [← hrest, List.getElem?_append_left hlt, hfile]

/-- A quiet step leaves the sessions on their configuration. -/
theorem RunsOn.keep {loaded : Loaded} {s s' : State δ} (h : RunsOn loaded s.sessions)
    (hquiet : Quiet s s') : RunsOn loaded s'.sessions where
  settings := by rw [hquiet.settings]; exact h.settings
  engines := hquiet.inStep h.engines

omit [Platform] in
/-- It leaves the record as it is. -/
theorem InOrder.keep {s s' : State δ} (h : InOrder s) (hquiet : Quiet s s') : InOrder s' := by
  constructor
  · rw [hquiet.applied]
    exact h.sorted
  · rw [hquiet.applied, hquiet.lastTaken]
    exact h.le_lastTaken

omit [Platform] in
/-- The version taken last is applied after all others, so the record of what was applied stays
sorted. -/
theorem InOrder.apply {s s' : State δ} (h : InOrder s)
    (happlied : s'.applied = s.applied ++ [s.lastTaken]) (htaken : s'.lastTaken = s.lastTaken) :
    InOrder s' := by
  constructor
  · rw [happlied, List.pairwise_append]
    refine ⟨h.sorted, List.pairwise_singleton .., fun older holder newer hnewer => ?_⟩
    rw [List.mem_singleton.mp hnewer]
    exact h.le_lastTaken older holder
  · intro version hversion
    rw [happlied, List.mem_append] at hversion
    rw [htaken]
    rcases hversion with hversion | hversion
    · exact h.le_lastTaken version hversion
    · exact Nat.le_of_eq (List.mem_singleton.mp hversion)

/-! ### The outline of the calls -/

/-- Where a call is. -/
inductive Point where
  /-- `reload_config`, before it reads the file. -/
  | load
  | lock (loaded : Loaded)
  /-- The lock is taken; the two configurations are compared next. -/
  | compare (loaded : Loaded)
  | apply (loaded : Loaded) (dictsChanged : Bool)
  | store (loaded : Loaded)
  | unlock (loaded : Loaded)
  /-- The file was invalid. -/
  | rejected
  /-- Another method, before its operation. -/
  | session (o : Op)
  | done

namespace Point

/-- What a call still has to do at a point. It is the program of the source from there on, so
the points are the places between two operations. -/
def rest : Point → Call PUnit
  | .load => program configPath .reloadConfig
  | .lock loaded => do
      Op.run (.lockConfig loaded.version)
      let applied ← Op.run .appliedConfig
      Op.run (.reload loaded (dictsChanged applied loaded.config))
      Op.run (.storeConfig loaded)
      Op.run .unlockConfig
  | .compare loaded => do
      let applied ← Op.run .appliedConfig
      Op.run (.reload loaded (dictsChanged applied loaded.config))
      Op.run (.storeConfig loaded)
      Op.run .unlockConfig
  | .apply loaded changed => do
      Op.run (.reload loaded changed)
      Op.run (.storeConfig loaded)
      Op.run .unlockConfig
  | .store loaded => do
      Op.run (.storeConfig loaded)
      Op.run .unlockConfig
  | .unlock _ => Op.run .unlockConfig
  | .session o => do
      let _ ← Op.run o
      pure ⟨⟩
  | .rejected | .done => pure ⟨⟩

/-- The point behind an operation, as the reply decides it. A file that is not valid ends the
call. -/
def next : Point → (o : Op) → Reply o → Point
  | .load, .readFile, read =>
      match loadConfig configPath read.2 with
      | .ok (config, kanaTable) => .lock ⟨read.1, config, kanaTable⟩
      | .error _ => .rejected
  | .lock loaded, .lockConfig _, _ => .compare loaded
  | .compare loaded, .appliedConfig, applied =>
      .apply loaded (dictsChanged applied loaded.config)
  | .apply loaded _, .reload _ _, _ => .store loaded
  | .store loaded, .storeConfig _, _ => .unlock loaded
  | _, _, _ => .done

/-- The points at which a call holds the lock. -/
def holds : Point → Bool
  | .compare _ | .apply _ _ | .store _ | .unlock _ => true
  | _ => false

end Point

/-- The point a request starts at. -/
def Request.point : Request → Point
  | .createSession appId => .session (.createSession appId)
  | .destroySession id => .session (.destroySession id)
  | .processKey id key => .session (.processKey id key)
  | .reloadConfig => .load

/-- A method that has nothing to do with the configuration. -/
def Op.isSession : Op → Bool
  | .createSession _ | .destroySession _ | .processKey _ _ => true
  | _ => false

variable [DictionaryProvider δ] [EucJp]

/-- The outline: where a call starts, where it is after each operation, and where it holds the
lock. A call of `reload_config` remembers the version the file had when it began. -/
def outline : Outline (machine (δ := δ) configPath) Point (Option Nat) where
  rest := Point.rest configPath
  start := Request.point
  next := Point.next configPath
  tag s request := if request = .reloadConfig then some s.version else none
  holds := Point.holds
  rest_start request := by cases request <;> rfl
  rest_next l o k r hrest := by
    cases l with
    | load =>
        cases hrest
        obtain ⟨version, file⟩ := r
        unfold Point.next
        dsimp only
        cases hload : loadConfig configPath file with
        | error e => simp only [Program.bind, hload]; rfl
        | ok loaded => simp only [Program.bind, hload]; rfl
    | rejected => cases hrest
    | done => cases hrest
    | _ => cases hrest; rfl

/-! ### What is true at the points -/

section Assertions

omit [DictionaryProvider δ] [EucJp]

/-- The call has taken the lock last. -/
structure Taken (began : Option Nat) (loaded : Loaded) (s : State δ) : Prop where
  isOf : loaded.IsOf configPath s
  began_le : ∀ version ∈ began, version ≤ loaded.version
  last : s.lastTaken = loaded.version
  inOrder : InOrder s

/-- The assertion at a point, for a call that began when the file had the version `began`. -/
def Point.here (began : Option Nat) (l : Point) (s : State δ) : Prop :=
  match l with
  | .load => ∀ version ∈ began, version ≤ s.version
  | .lock loaded => loaded.IsOf configPath s ∧ ∀ version ∈ began, version ≤ loaded.version
  | .compare loaded | .apply loaded _ => Taken configPath began loaded s
  | .store loaded => Taken configPath began loaded s ∧ RunsOn loaded s.sessions
  | .unlock loaded => Taken configPath began loaded s ∧ IsApplied loaded s
  | .rejected => ∃ file ∈ s.contents, ∃ e, loadConfig configPath file = .error e
  | .session o => o.isSession ∧ began = none
  | .done => ∀ version ∈ began, version ≤ s.lastTaken

/-- The resource of the lock: the version taken last is applied. -/
structure Settled (s : State δ) : Prop where
  inOrder : InOrder s
  applied : ∃ loaded : Loaded, loaded.IsOf configPath s ∧ loaded.version = s.lastTaken ∧
    IsApplied loaded s

variable {configPath} {began : Option Nat} {loaded : Loaded} {s s' : State δ}

/-- A call that has taken the lock last has still done so after a quiet step of another
thread. -/
theorem Taken.keep (h : Taken configPath began loaded s) (hguar : Guar s s')
    (hquiet : Quiet s s') : Taken configPath began loaded s' where
  isOf := h.isOf.keep configPath hguar
  began_le := h.began_le
  last := hquiet.lastTaken.trans h.last
  inOrder := h.inOrder.keep hquiet

/-- What is applied stays applied. -/
theorem IsApplied.keep (h : IsApplied loaded s) (hquiet : Quiet s s') : IsApplied loaded s' where
  config := hquiet.config.trans h.config
  sessions := h.sessions.keep hquiet

/-- A lock that nobody holds keeps its resource. -/
theorem Settled.keep (h : Settled configPath s) (hguar : Guar s s') (hquiet : Quiet s s') :
    Settled configPath s' := by
  obtain ⟨loaded, hisOf, hlast, happlied⟩ := h.applied
  refine ⟨h.inOrder.keep hquiet, loaded, hisOf.keep configPath hguar, ?_, happlied.keep hquiet⟩
  rw [hquiet.lastTaken, hlast]

/-- While a call holds the lock the record is in order, whatever the call has done of its
work. -/
theorem Point.here_inOrder {l : Point} (hholds : l.holds = true)
    (h : l.here configPath began s) : InOrder s := by
  cases l with
  | compare loaded => exact Taken.inOrder h
  | apply loaded changed => exact Taken.inOrder h
  | store loaded => exact h.1.inOrder
  | unlock loaded => exact h.1.inOrder
  | _ => cases hholds

/-- The assertions survive the steps of the other threads. What is asserted outside the lock
only grows with the history of the file. What is asserted inside it is about the configuration,
which the others leave alone while the lock is held. -/
theorem Point.here_keep {l : Point} (hguar : Guar s s') (hquiet : l.holds = true → Quiet s s')
    (h : l.here configPath began s) : l.here configPath began s' := by
  cases l with
  | load =>
      intro version hversion
      exact Nat.le_trans (h version hversion) hguar.version
  | lock loaded => exact ⟨h.1.keep configPath hguar, h.2⟩
  | compare loaded => exact Taken.keep h hguar (hquiet rfl)
  | apply loaded changed => exact Taken.keep h hguar (hquiet rfl)
  | store loaded => exact ⟨h.1.keep hguar (hquiet rfl), h.2.keep (hquiet rfl)⟩
  | unlock loaded => exact ⟨h.1.keep hguar (hquiet rfl), h.2.keep (hquiet rfl)⟩
  | rejected =>
      obtain ⟨file, hfile, hload⟩ := h
      exact ⟨file, hguar.contents.subset hfile, hload⟩
  | session o => exact h
  | done =>
      intro version hversion
      exact Nat.le_trans (h version hversion) hguar.lastTaken

end Assertions

/-! ### The steps -/

section Steps
variable {configPath} {began : Option Nat} {loaded : Loaded} {s : State δ}

omit [DictionaryProvider δ] [EucJp] in
/-- The contents that the file has now. -/
theorem isOf_version {config : Config} {kanaTable : KanaTable}
    (hload : loadConfig configPath s.file = .ok (config, kanaTable)) :
    Loaded.IsOf configPath ⟨s.version, config, kanaTable⟩ s := by
  refine ⟨s.file, ?_, hload⟩
  show (s.past ++ [s.file])[s.past.length]? = some s.file
  rw [List.getElem?_concat_length]

/-- The other methods leave the configuration alone. They open and close sessions and step the
engines, and the settings of the manager are the same before and after. -/
theorem exec_session {o : Op} (ho : o.isSession) (files : DictFiles δ) (s : State δ) :
    Guar s (exec files s o).2.1 ∧ Quiet s (exec files s o).2.1 := by
  cases o with
  | createSession appId =>
      exact ⟨⟨List.prefix_refl _, Nat.le_refl _⟩, rfl, rfl, rfl, rfl, rfl,
        fun h => h.createSession appId⟩
  | destroySession id =>
      exact ⟨⟨List.prefix_refl _, Nat.le_refl _⟩, rfl, rfl, rfl, rfl, rfl,
        fun h => h.destroySession id⟩
  | processKey id key =>
      cases hkey : s.sessions.processKey id key with
      | error e =>
          have hexec : exec files s (.processKey id key) = (none, s, []) := by
            simp only [exec, hkey]
          rw [hexec]
          exact ⟨.refl s, .refl s⟩
      | ok r =>
          have hexec : exec files s (.processKey id key) =
              (some r.2, { s with sessions := r.1 }, []) := by simp only [exec, hkey]
          rw [hexec]
          exact ⟨⟨List.prefix_refl _, Nat.le_refl _⟩, rfl, rfl, rfl, rfl,
            SessionManager.settings_processKey hkey, fun h => h.processKey hkey⟩
  | _ => cases ho

omit [DictionaryProvider δ] [EucJp] in
/-- The file is read outside the lock. -/
theorem holds_readFile (read : Reply .readFile) :
    (Point.next configPath .load .readFile read).holds = false := by
  unfold Point.next
  dsimp only
  split <;> rfl

omit [DictionaryProvider δ] [EucJp] in
/-- Reading the file, and what is true of the contents that were read: they are one of the
contents the file has had, under its version. -/
theorem here_readFile {version : Nat} {file : Except Str Str} (hversion : version = s.version)
    (hfile : file = s.file) (h : Point.load.here configPath began s) :
    (Point.next configPath .load .readFile (version, file)).here configPath began s := by
  subst hversion hfile
  unfold Point.next
  dsimp only
  cases hload : loadConfig configPath s.file with
  | error e =>
      exact ⟨s.file, List.mem_append_right _ (List.mem_singleton_self _), e, hload⟩
  | ok loaded =>
      exact ⟨isOf_version hload, h⟩

omit [DictionaryProvider δ] [EucJp] in
/-- Taking the lock in the order of the versions: what was taken before is not newer than what
the call has read. -/
theorem Settled.take (h : Settled configPath s) (hisOf : loaded.IsOf configPath s)
    (hbegan : ∀ version ∈ began, version ≤ loaded.version)
    (horder : s.lastTaken ≤ loaded.version) :
    Taken configPath began loaded
      { s with configLocked := true, lastTaken := loaded.version } where
  isOf := hisOf
  began_le := hbegan
  last := rfl
  inOrder := ⟨h.inOrder.sorted, fun version hversion =>
    Nat.le_trans (h.inOrder.le_lastTaken version hversion) horder⟩

omit [EucJp] in
/-- The sessions are reloaded with the version that was taken last, so every engine runs on it
and the record stays in order. -/
theorem Taken.reload (h : Taken configPath began loaded s) (changed : Bool)
    (files : DictFiles δ) :
    let s' := { s with
      sessions := s.sessions.reload loaded.config changed loaded.kanaTable files
      applied := s.applied ++ [loaded.version] }
    Taken configPath began loaded s' ∧ RunsOn loaded s'.sessions := by
  refine ⟨⟨h.isOf, h.began_le, h.last, h.inOrder.apply ?_ rfl⟩, rfl, ?_⟩
  · show s.applied ++ [loaded.version] = s.applied ++ [s.lastTaken]
    rw [h.last]
  · exact s.sessions.inStep_reload loaded.config changed loaded.kanaTable files

omit [DictionaryProvider δ] [EucJp] in
/-- Then it becomes the stored configuration. -/
theorem Taken.store (h : Taken configPath began loaded s) (hruns : RunsOn loaded s.sessions) :
    let s' := { s with config := loaded.config, applied := s.applied ++ [loaded.version] }
    Taken configPath began loaded s' ∧ IsApplied loaded s' := by
  refine ⟨⟨h.isOf, h.began_le, h.last, h.inOrder.apply ?_ rfl⟩, rfl, hruns⟩
  show s.applied ++ [loaded.version] = s.applied ++ [s.lastTaken]
  rw [h.last]

omit [DictionaryProvider δ] [EucJp] in
/-- The lock is given back with the version applied. -/
theorem Taken.settled (h : Taken configPath began loaded s) (happlied : IsApplied loaded s) :
    Settled configPath { s with configLocked := false } where
  inOrder := ⟨h.inOrder.sorted, h.inOrder.le_lastTaken⟩
  applied := ⟨loaded, h.isOf, h.last.symm, happlied.config, happlied.sessions⟩

/-- The calls keep the discipline of the configuration lock: there is one obligation for a
start, one for a change of the file and one for each operation. -/
theorem outline_discipline :
    (outline (δ := δ) configPath).Discipline mayPerform State.configLocked (Settled configPath)
      (fun began l s => l.here configPath began s) Guar Quiet where
  start s request := by
    cases request with
    | reloadConfig =>
        refine ⟨rfl, ?_⟩
        intro version hversion
        exact Nat.le_of_eq (Option.some.inj hversion).symm
    | _ => exact ⟨rfl, rfl, rfl⟩
  env file s := by
    refine ⟨⟨?_, Nat.le_refl _⟩, rfl, rfl, rfl, rfl, rfl, id⟩
    exact List.prefix_append _ _
  locked_quiet hquiet := hquiet.configLocked
  free_keep hguar hquiet h := h.keep hguar hquiet
  here_keep hguar hquiet h := Point.here_keep hguar hquiet h
  outside {files s began l o k} hrest hok hhere hl hl' := by
    cases l with
    | load =>
        cases hrest
        exact ⟨.refl s, .refl s, here_readFile rfl rfl hhere⟩
    | session o =>
        cases hrest
        obtain ⟨ho, rfl⟩ := hhere
        obtain ⟨hguar, hquiet⟩ := exec_session ho files s
        have hdone : Point.next configPath (.session o) o (exec files s o).1 = .done := by
          cases o <;> rfl
        refine ⟨hguar, hquiet, ?_⟩
        show (Point.next configPath (.session o) o (exec files s o).1).here configPath none _
        rw [hdone]
        intro version hversion
        cases hversion
    | lock loaded => cases hrest; cases hl'
    | rejected => cases hrest
    | done => cases hrest
    | _ => cases hl
  -- the lock is taken in the order of the versions read, by the condition on the run
  acquire {files s began l o k} hrest hok hhere hl hl' := by
    cases l with
    | lock loaded =>
        cases hrest
        obtain ⟨hfree, horder⟩ := hok
        refine ⟨hfree, fun hsettled => ?_⟩
        exact ⟨⟨List.prefix_refl _, horder⟩, rfl, hsettled.take hhere.1 hhere.2 horder⟩
    | load =>
        cases hrest
        have htrue : (Point.next configPath .load .readFile (s.version, s.file)).holds = true := hl'
        rw [holds_readFile] at htrue
        cases htrue
    | session o =>
        cases hrest
        cases o <;> cases hl'
    | rejected => cases hrest
    | done => cases hrest
    | _ => cases hl
  inside {files s began l o k} hrest hok hhere hl hl' := by
    cases l with
    | compare loaded =>
        cases hrest
        exact ⟨.refl s, rfl, hhere⟩
    | apply loaded changed =>
        cases hrest
        exact ⟨⟨List.prefix_refl _, Nat.le_refl _⟩, rfl, Taken.reload hhere changed files⟩
    | store loaded =>
        cases hrest
        exact ⟨⟨List.prefix_refl _, Nat.le_refl _⟩, rfl, hhere.1.store hhere.2⟩
    | unlock loaded => cases hrest; cases hl'
    | _ => cases hl
  -- the version that was taken last is applied and stored, so the lock can be given back
  release {files s began l o k} hrest hok hhere hl hl' := by
    cases l with
    | unlock loaded =>
        cases hrest
        refine ⟨⟨List.prefix_refl _, Nat.le_refl _⟩, rfl, hhere.1.settled hhere.2, ?_⟩
        intro version hversion
        show version ≤ s.lastTaken
        rw [hhere.1.last]
        exact hhere.1.began_le version hversion
    | compare loaded => cases hrest; cases hl'
    | apply loaded changed => cases hrest; cases hl'
    | store loaded => cases hrest; cases hl'
    | _ => cases hl

end Steps

/-! ### Runs -/

section Runs
variable {configPath}

omit [DictionaryProvider δ] [EucJp] [Platform] in
/-- Every call has finished. -/
def Finished (pool : Pool Op Reply (State δ)) : Prop := ∀ p ∈ pool.threads, p.next?.isNone

/-- Whether every call has finished can be read off the threads. -/
instance (pool : Pool Op Reply (State δ)) : Decidable (Finished pool) :=
  inferInstanceAs (Decidable (∀ p ∈ pool.threads, p.next?.isNone))

omit [EucJp] in
/-- The daemon starts with the contents it was given. -/
theorem settled_start {file : Except Str Str} {config : Config} {kanaTable : KanaTable}
    (hload : loadConfig configPath file = .ok (config, kanaTable)) (files : DictFiles δ) :
    Settled configPath (start file config kanaTable files) where
  inOrder := ⟨List.Pairwise.nil, fun version hversion => by cases hversion⟩
  applied := ⟨⟨0, config, kanaTable⟩, ⟨file, rfl, hload⟩, rfl, rfl, rfl,
    SessionManager.inStep_new _⟩

omit [DictionaryProvider δ] [EucJp] in
/-- A call that has finished has applied its version, or has found the file invalid. -/
theorem point_of_finished {l : Point} (h : (l.rest configPath).next?.isNone) :
    l = .done ∨ l = .rejected := by
  cases l with
  | done => exact .inl rfl
  | rejected => exact .inr rfl
  | _ => cases h

omit [DictionaryProvider δ] [EucJp] [Platform] in
/-- Both conditions on an operation are one condition. -/
theorem allows_mayPerform {pool : Pool Op Reply (State δ)}
    {input : Input Request (DictFiles δ) (Except Str Str)} (hwait : pool.Allows waits input)
    (horder : pool.Allows takesInOrder input) : pool.Allows mayPerform input := by
  cases input with
  | perform thread choice => exact fun o ho => ⟨hwait o ho, horder o ho⟩
  | spawn request => trivial
  | env file => trivial

/-- In every run that starts from a valid configuration, in which the file stays valid and no
call takes the configuration lock with an older version than the call that took it before:
no older version is applied after a newer one, and when all calls have finished, the version
applied is one that the file had after the last of them began. -/
theorem reload_of_run {file : Except Str Str} {config : Config} {kanaTable : KanaTable}
    {files : DictFiles δ} (hload : loadConfig configPath file = .ok (config, kanaTable))
    {history : List (Visit (Pool Op Reply (State δ)) (Input Request (DictFiles δ) (Except Str Str))
      Empty)}
    {pool : Pool Op Reply (State δ)}
    (hrun : (machine configPath).Interleaving (start file config kanaTable files) history pool)
    (hwaits : ∀ v ∈ history, v.pre.Allows waits v.input)
    (hvalid : ∀ file ∈ pool.shared.contents, ∃ r, loadConfig configPath file = .ok r)
    (horder : ∀ v ∈ history, v.pre.Allows takesInOrder v.input) :
    pool.shared.applied.Pairwise (· ≤ ·) ∧
    (Finished pool → ∀ v ∈ history, v.input = .spawn .reloadConfig → ∃ loaded : Loaded,
      v.pre.shared.version ≤ loaded.version ∧ loaded.IsOf configPath pool.shared ∧
      IsApplied loaded pool.shared) := by
  -- The library's rule applies once every operation of the run is one that the outline allows.
  have hok : ∀ v ∈ history, v.pre.Allows mayPerform v.input :=
    fun v hv => allows_mayPerform (hwaits v hv) (horder v hv)
  obtain ⟨places, holder, hpool, htags⟩ :=
    outline_discipline.followed rfl (settled_start hload files) hrun hok
  constructor
  · -- The record is in order for the holder of the lock, or for its resource.
    cases holder with
    | none => exact (hpool.resource rfl).inOrder.sorted
    | some i =>
        obtain ⟨⟨began, l⟩, hi⟩ : ∃ p, places[i]? = some p :=
          ⟨_, List.getElem?_eq_getElem (hpool.isThread i rfl)⟩
        have hholds : l.holds = true := (hpool.exclusive i (began, l) hi).mpr rfl
        have hhere : l.here configPath began pool.shared := hpool.asserted i (began, l) hi
        exact (Point.here_inOrder hholds hhere).sorted
  · intro hfinished v hv hspawn
    have hpoint : ∀ (i : Nat) (p : Option Nat × Point), places[i]? = some p →
        p.2 = .done ∨ p.2 = .rejected := by
      intro i p hi
      have hmem : p.2.rest configPath ∈ pool.threads := by
        rw [hpool.threads]
        exact List.mem_map.mpr ⟨p, List.mem_of_getElem? hi, rfl⟩
      exact point_of_finished (hfinished _ hmem)
    have hfree : holder = none := by
      cases holder with
      | none => rfl
      | some i =>
          obtain ⟨p, hi⟩ : ∃ p, places[i]? = some p :=
            ⟨_, List.getElem?_eq_getElem (hpool.isThread i rfl)⟩
          have hholds : p.2.holds = true := (hpool.exclusive i p hi).mpr rfl
          rcases hpoint i p hi with hdone | hrejected
          · rw [hdone] at hholds
            cases hholds
          · rw [hrejected] at hholds
            cases hholds
    obtain ⟨loaded, hisOf, hlast, happlied⟩ := (hpool.resource hfree).applied
    obtain ⟨⟨began, l⟩, hmem, htag⟩ := List.mem_map.mp (htags v hv .reloadConfig hspawn)
    obtain ⟨i, hi⟩ := List.getElem?_of_mem hmem
    obtain rfl : began = some v.pre.shared.version := htag
    have hhere : l.here configPath (some v.pre.shared.version) pool.shared :=
      hpool.asserted i _ hi
    refine ⟨loaded, ?_, hisOf, happlied⟩
    rw [hlast]
    rcases hpoint i _ hi with rfl | rfl
    · exact hhere _ rfl
    · obtain ⟨file, hfile, e, herror⟩ := hhere
      obtain ⟨r, hvalid⟩ := hvalid file hfile
      rw [hvalid] at herror
      cases herror

end Runs

end Calls

/-! ### A reload that is overtaken -/

/-- The file that sets the default mode. -/
def modeToml (mode : Str) : Str :=
  "[input]\ndefault_mode = \"".toList ++ mode ++ "\"\n".toList

/-- What the file stands for. -/
def modeConfig (mode : Str) : Config := { input := { defaultMode := mode } }

/-- A platform with an empty kana table, on which the two files of this run are read and no
other text is TOML. -/
@[reducible] def modePlatform : Platform where
  fromToml src :=
    if src = modeToml "katakana".toList then .ok (modeConfig "katakana".toList)
    else if src = modeToml "hiragana".toList then .ok (modeConfig "hiragana".toList)
    else .error []
  env _ := none
  homeDir := none
  configDir := none
  dataDir := none
  pathExists _ := true
  loadTable _ := .ok ⟨[], [], []⟩
  toLowercase s := s.map Char.toLower
  debug s := s

/-- No dictionaries. -/
def noDicts : DictFiles UserDict where
  loadUser _ := .ok .empty
  emptyUser _ := .empty
  loadFile _ := .error .readOnly

/-- The configuration file. -/
def configToml : Path := ⟨"config.toml".toList⟩

/-- A thread performs `n` operations. -/
def performs (thread n : Nat) : List (Input Request (DictFiles UserDict) (Except Str Str)) :=
  List.replicate n (.perform thread noDicts)

/-- A call reads the file, which is rewritten before a second call begins. The calls finish
one after the other. -/
def overlap (first second : List (Input Request (DictFiles UserDict) (Except Str Str))) :
    List (Input Request (DictFiles UserDict) (Except Str Str)) :=
  .spawn .reloadConfig :: performs 0 1
    ++ .env (.ok (modeToml "katakana".toList)) :: .spawn .reloadConfig :: first ++ second

/-- The daemon was started in the mode `hiragana`. -/
abbrev modeStart : State UserDict :=
  letI := modePlatform
  start (.ok (modeToml "hiragana".toList)) (modeConfig "hiragana".toList) ⟨[], [], []⟩ noDicts

/-- The calls of a daemon with this configuration file, over user dictionaries alone. -/
abbrev modeMachine [EucJp] :
    Machine Op Reply (State UserDict) Request (DictFiles UserDict) (Except Str Str) Empty :=
  letI := modePlatform
  machine configToml

/-- The file with the mode `hiragana` is valid, and stands for its configuration. -/
theorem loadConfig_hiragana :
    letI := modePlatform
    loadConfig configToml (.ok (modeToml "hiragana".toList)) =
      .ok (modeConfig "hiragana".toList, ⟨[], [], []⟩) := rfl

/-- So is the file with the mode `katakana`. -/
theorem loadConfig_katakana :
    letI := modePlatform
    loadConfig configToml (.ok (modeToml "katakana".toList)) =
      .ok (modeConfig "katakana".toList, ⟨[], [], []⟩) := rfl

/-- The file has been rewritten once. -/
def Rewritten (s : State UserDict) : Prop :=
  s.contents = [.ok (modeToml "hiragana".toList), .ok (modeToml "katakana".toList)]

/-- Whatever the file has had in this run is valid, so neither call fails to load it. -/
theorem Rewritten.valid {s : State UserDict} (h : Rewritten s) :
    letI := modePlatform
    ∀ file ∈ s.contents, ∃ r, loadConfig configToml file = .ok r := by
  let _ := modePlatform
  intro file hfile
  rw [h] at hfile
  rcases List.mem_cons.mp hfile with rfl | hfile
  · exact ⟨_, loadConfig_hiragana⟩
  · rw [List.mem_singleton.mp hfile]
    exact ⟨_, loadConfig_katakana⟩

/-- The second call begins after the file was rewritten, which the version of the state before
its start shows. -/
theorem spawned_rewritten
    {first second : List (Input Request (DictFiles UserDict) (Except Str Str))}
    {history : List (Visit (Pool Op Reply (State UserDict))
      (Input Request (DictFiles UserDict) (Except Str Str)) Empty)}
    (hinputs : history.map Visit.input = overlap first second)
    (hversion : (history.map fun v => v.pre.shared.version)[3]? = some 1) :
    ∃ v ∈ history, v.input = .spawn .reloadConfig ∧ v.pre.shared.version = 1 := by
  rw [List.getElem?_map] at hversion
  obtain ⟨v, hv, hpre⟩ := Option.map_eq_some_iff.mp hversion
  have hinput : (history.map Visit.input)[3]? = some v.input := by
    rw [List.getElem?_map, hv]
    rfl
  rw [hinputs] at hinput
  exact ⟨v, List.mem_of_getElem? hv, (Option.some.inj hinput).symm, hpre⟩

/-- The second call applies the new contents, and then the first call applies the old ones,
which stay. -/
theorem update_lost :
    letI := EucJp.empty
    letI := modePlatform
    ∃ history pool, modeMachine.Interleaving modeStart history pool ∧
      history.map Visit.input = overlap (performs 1 6) (performs 0 5) ∧
      (∀ v ∈ history, v.pre.Allows waits v.input) ∧
      (∀ file ∈ pool.shared.contents, ∃ r, loadConfig configToml file = .ok r) ∧
      Finished pool ∧ pool.shared.applied = [1, 1, 0, 0] ∧
      ∃ v ∈ history, v.input = .spawn .reloadConfig ∧ ¬ ∃ loaded : Loaded,
        v.pre.shared.version ≤ loaded.version ∧ loaded.IsOf configToml pool.shared ∧
        IsApplied loaded pool.shared := by
  let _ := EucJp.empty
  let _ := modePlatform
  have hrun := run_trace modeMachine.step ⟨modeStart, []⟩ (overlap (performs 1 6) (performs 0 5))
  have hcontents : Rewritten (trace modeMachine.step ⟨modeStart, []⟩
      (overlap (performs 1 6) (performs 0 5))).2.shared := by
    unfold Rewritten
    decide +kernel
  obtain ⟨v, hv, hspawn, hversion⟩ := spawned_rewritten (map_input_trace modeMachine.step _ _)
    (by decide +kernel : ((trace modeMachine.step ⟨modeStart, []⟩
      (overlap (performs 1 6) (performs 0 5))).1.map fun v => v.pre.shared.version)[3]? = some 1)
  have hmode : (trace modeMachine.step ⟨modeStart, []⟩
      (overlap (performs 1 6) (performs 0 5))).2.shared.config.input.defaultMode =
        "hiragana".toList := by
    decide +kernel
  refine ⟨_, _, hrun, map_input_trace _ _ _, by decide +kernel, hcontents.valid, by decide +kernel,
    by decide +kernel, v, hv, hspawn, ?_⟩
  rintro ⟨loaded, hle, ⟨file, hfile, hload⟩, happlied⟩
  -- Only the new contents have a number from 1 on, and they set another mode.
  rw [hversion] at hle
  rw [hcontents] at hfile
  obtain ⟨n, hn⟩ := Nat.exists_eq_add_of_le hle
  rw [hn, Nat.add_comm, List.getElem?_cons_succ] at hfile
  obtain rfl := List.mem_singleton.mp (List.mem_of_getElem? hfile)
  rw [loadConfig_katakana] at hload
  have hconfig : modeConfig "katakana".toList = loaded.config :=
    (Prod.mk.inj (Except.ok.inj hload)).1
  rw [happlied.config, ← hconfig] at hmode
  revert hmode
  decide

/-- When the first call finishes first, the new contents stay. The file is rewritten between the
two calls, so the second one has read the newer version. -/
theorem reload_of_run_in_order :
    letI := EucJp.empty
    letI := modePlatform
    ∃ history pool, modeMachine.Interleaving modeStart history pool ∧
      history.map Visit.input = overlap (performs 0 5) (performs 1 6) ∧
      pool.shared.applied.Pairwise (· ≤ ·) ∧ ∃ v ∈ history, v.input = .spawn .reloadConfig ∧
        v.pre.shared.version = 1 ∧ ∃ loaded : Loaded, v.pre.shared.version ≤ loaded.version ∧
          loaded.IsOf configToml pool.shared ∧ IsApplied loaded pool.shared := by
  let _ := EucJp.empty
  let _ := modePlatform
  have hrun := run_trace modeMachine.step ⟨modeStart, []⟩ (overlap (performs 0 5) (performs 1 6))
  have hcontents : Rewritten (trace modeMachine.step ⟨modeStart, []⟩
      (overlap (performs 0 5) (performs 1 6))).2.shared := by
    unfold Rewritten
    decide +kernel
  obtain ⟨v, hv, hspawn, hversion⟩ := spawned_rewritten (map_input_trace modeMachine.step _ _)
    (by decide +kernel : ((trace modeMachine.step ⟨modeStart, []⟩
      (overlap (performs 0 5) (performs 1 6))).1.map fun v => v.pre.shared.version)[3]? = some 1)
  have hreload := reload_of_run loadConfig_hiragana hrun (by decide +kernel) hcontents.valid
    (by decide +kernel)
  exact ⟨_, _, hrun, map_input_trace _ _ _, hreload.1, v, hv, hspawn, hversion,
    hreload.2 (by decide +kernel) v hv hspawn⟩

end DaemonInterface

end Y2Skk
