import Y2Skk.Ipc.Flush
import Y2Skk.Proofs.Reload
import Y2Skk.Proofs.Stack

/-!
# `Y2Skk.Proofs.Flush`: what a reload leaves of the learned words

A reload flushes the user dictionary and loads it again, and does not look at how the two
end. When the file cannot be written the words that were learned are in no file, and when
it cannot be read the engines get an empty dictionary.

* `contents_save`: what the file holds after the flush, from what it held before, the
  dictionary, and the way the flush ends.
* `loadedUserDict_cases`: what the reload loads: the entries of the file when it can be
  read and parsed, and otherwise nothing, from `/dev/null`.
* `stillAnswers_iff`: the dictionary after the reload answers what the one before it
  answered exactly when there was nothing to answer, or the file can be read and
  `KeepsWords` holds.

## The condition

`KeepsWords` speaks of the dictionary and the file as they are before the reload, and of
the way the flush ends. A flush that writes the file keeps the words. One that leaves the
file alone (nothing to write, another path, no directory, a file that cannot be opened)
keeps them when the file already answers the same. One that breaks off keeps them when the
part that was written does.

## The file system

A file system is its contents and the way every operation on a path ends. Writing
truncates the file first, so a write that breaks off leaves a beginning of the new text,
possibly cut inside a character. `/dev/null` is one of the paths: nothing is read from it,
and what is written there is gone (`NullDevice`). It is the only property of the system
that is assumed.

## The failing case

* `learned_word_forgotten`: on a full disk a learned word is answered by nothing after the
  reload.
-/

set_option autoImplicit false

namespace Y2Skk

open Outcome
open Utf8 (Str)

/-- What `before` answers, `after` answers with the same words. -/
def UserDict.StillAnswers (before after : UserDict) : Prop :=
  ∀ midashi okuri entry, before.lookup midashi okuri = some entry →
    ∃ entry', after.lookup midashi okuri = some entry' ∧
      entry'.candidates.map Candidate.word = entry.candidates.map Candidate.word

/-- The dictionary answers nothing. -/
def UserDict.AnswersNothing (dict : UserDict) : Prop :=
  ∀ midashi okuri, dict.lookup midashi okuri = none

/-- Where nothing was answered nothing can be lost. -/
theorem UserDict.AnswersNothing.stillAnswers {before : UserDict} (h : before.AnswersNothing)
    (after : UserDict) : before.StillAnswers after := by
  intro midashi okuri entry hentry
  rw [h] at hentry
  cases hentry

/-- A dictionary that answers nothing has lost all there was, so it keeps the words only of one
that had none. -/
theorem UserDict.StillAnswers.answersNothing {before after : UserDict}
    (h : before.StillAnswers after) (hafter : after.AnswersNothing) : before.AnswersNothing := by
  intro midashi okuri
  cases hbefore : before.lookup midashi okuri with
  | none => rfl
  | some entry =>
      obtain ⟨entry', hentry', -⟩ := h midashi okuri entry hbefore
      rw [hafter] at hentry'
      cases hentry'

/-- The empty dictionary answers nothing. -/
theorem UserDict.answersNothing_empty : UserDict.empty.AnswersNothing := fun _ _ => rfl

namespace StoredUserDict

variable {iter : BucketOrder} {fs : FileSystem} {self : StoredUserDict} {path : Path}

/-- The file at `path` is there and can be read, as `text`. -/
def Holds (fs : FileSystem) (path : Path) (text : Str) : Prop :=
  fs.fileExists path.components ∧ fs.readToString path.components = .ok text

/-- A file has one text. -/
theorem Holds.unique {text text' : Str} (h : Holds fs path text) (h' : Holds fs path text') :
    text = text' := Except.ok.inj (h.2.symm.trans h'.2)

/-- The file at `path` can be read, if it is there. -/
def CanRead (fs : FileSystem) (path : Path) : Prop :=
  fs.stat path.components = true ∧ fs.reading path.components = .ok ()

/-- A file that is there and can be read holds a text: the contents the file system has for it,
when they are valid UTF-8. -/
theorem holds_iff {text : Str} :
    Holds fs path text ↔ CanRead fs path ∧ fs.contents path.components = some ⟨text, true⟩ := by
  unfold Holds CanRead FileSystem.fileExists FileSystem.readToString
  cases hreading : fs.reading path.components with
  | error e => simp [error_bind]
  | ok _ =>
      rw [ok_bind]
      cases hcontents : fs.contents path.components with
      | none => simp
      | some found =>
          obtain ⟨held, valid⟩ := found
          cases valid <;> simp

/-! ### The flush -/

/-- How the flush deals with the file at `path`: `none` when it does not come to writing it,
because there is nothing to write, the dictionary is stored elsewhere, or the directory cannot
be made. -/
def flushOf (fs : FileSystem) (self : StoredUserDict) (path : Path) : Option WriteOutcome :=
  if self.dict.dirty ∧ self.path.components = path.components ∧ self.makeParent fs = .ok () then
    some (fs.writing path.components)
  else none

/-- What the flush leaves in the file at `path`. -/
def leftAt (iter : BucketOrder) (fs : FileSystem) (self : StoredUserDict) (path : Path) :
    Option Contents :=
  match self.flushOf fs path with
  | some .written => some ⟨serializeUserDict iter self.dict.entries, true⟩
  | some (.cut chars inside _) =>
      some ⟨(serializeUserDict iter self.dict.entries).take chars, !inside⟩
  | some .discarded | some (.notOpened _) | none => fs.contents path.components

/-- Writing changes no other file, and this one as its outcome says. A write that is cut short
leaves the beginning of the text, which may end inside a character. -/
theorem contents_write (fs : FileSystem) (target : List PathComponent) (text : Str)
    (path : List PathComponent) : (fs.write target text).1.contents path =
      if path = target then
        match fs.writing target with
        | .written => some ⟨text, true⟩
        | .cut chars inside _ => some ⟨text.take chars, !inside⟩
        | .discarded | .notOpened _ => fs.contents path
      else fs.contents path := by
  unfold FileSystem.write
  by_cases hpath : path = target
  · subst hpath
    rw [if_pos rfl]
    cases fs.writing path <;> simp [FileSystem.put]
  · rw [if_neg hpath]
    cases fs.writing target <;> simp [FileSystem.put, hpath]

/-- The file system after the flush: written to, when there is something to write and the
directory is there. -/
theorem save_fs (iter : BucketOrder) (fs : FileSystem) (self : StoredUserDict) :
    (self.save iter fs).2.1 =
      if self.dict.dirty ∧ self.makeParent fs = .ok () then
        (fs.write self.path.components (serializeUserDict iter self.dict.entries)).1
      else fs := by
  unfold save
  by_cases hdirty : self.dict.dirty
  · rw [if_neg (by simp [hdirty])]
    cases hparent : self.makeParent fs with
    | error e => rw [if_neg (by rintro ⟨-, h⟩; cases h)]
    | ok _ =>
        rw [if_pos ⟨hdirty, rfl⟩]
        dsimp only
        cases (fs.write self.path.components (serializeUserDict iter self.dict.entries)).2 <;> rfl
  · rw [if_pos (by simpa using hdirty), if_neg (fun h => hdirty h.1)]

/-- Whatever the flush does, the file at `path` holds what `leftAt` says, also when the
dictionary is stored somewhere else. -/
theorem contents_save (iter : BucketOrder) (fs : FileSystem) (self : StoredUserDict)
    (path : Path) :
    (self.save iter fs).2.1.contents path.components = self.leftAt iter fs path := by
  rw [save_fs, leftAt, flushOf]
  by_cases hwrites : self.dict.dirty ∧ self.makeParent fs = .ok ()
  · rw [if_pos hwrites, contents_write]
    by_cases hpath : path.components = self.path.components
    · rw [if_pos hpath, if_pos ⟨hwrites.1, hpath.symm, hwrites.2⟩, hpath]
      cases fs.writing self.path.components <;> rfl
    · rw [if_neg hpath, if_neg fun h => hpath h.2.1.symm]
  · rw [if_neg hwrites, if_neg fun h => hwrites ⟨h.1, h.2.2⟩]

/-- The flush changes neither what can be read nor how. -/
theorem canRead_save : CanRead (self.save iter fs).2.1 path ↔ CanRead fs path := by
  rw [save_fs]
  split
  · unfold CanRead FileSystem.write
    cases fs.writing self.path.components <;> rfl
  · rfl

/-- The words the dictionary answers, a file with this text answers too. -/
def AnsweredBy (self : StoredUserDict) (text : Str) : Prop :=
  ∃ loaded, UserDict.load (some text) = .ok loaded ∧ self.dict.StillAnswers loaded

/-- The file at `path` has the words after the flush: they are written, or what the flush leaves
there, of the old file or of the new one, answers the same. All of it is about the file system
and the dictionary before the reload. -/
def KeepsWords (iter : BucketOrder) (fs : FileSystem) (self : StoredUserDict) (path : Path) :
    Prop :=
  match self.flushOf fs path with
  | some .written => True
  | some (.cut chars inside _) => inside = false ∧
      self.AnsweredBy ((serializeUserDict iter self.dict.entries).take chars)
  | some .discarded | some (.notOpened _) | none =>
      ∃ text, fs.contents path.components = some ⟨text, true⟩ ∧ self.AnsweredBy text

/-- What a reload from `path` leaves the learned words to. -/
def KeptBy (iter : BucketOrder) (fs : FileSystem) (self : StoredUserDict) (path : Path) : Prop :=
  self.dict.AnswersNothing ∨ CanRead fs path ∧ self.KeepsWords iter fs path

/-- The entries, when they are written, are read as the same entries. -/
def ReadsBack (iter : BucketOrder) (self : StoredUserDict) : Prop :=
  ∃ loaded, UserDict.load (some (serializeUserDict iter self.dict.entries)) = .ok loaded ∧
    ∀ midashi okuri, loaded.lookup midashi okuri = self.dict.lookup midashi okuri

/-- Then the file that is written answers the words. -/
theorem ReadsBack.answeredBy (h : self.ReadsBack iter) :
    self.AnsweredBy (serializeUserDict iter self.dict.entries) := by
  obtain ⟨loaded, hload, hlookup⟩ := h
  refine ⟨loaded, hload, fun midashi okuri entry hentry => ⟨entry, ?_, rfl⟩⟩
  rw [hlookup, hentry]

/-- The words are kept exactly when the text that is in the file after the flush answers them. A
flush that was written leaves the whole dictionary there, one that was cut off a beginning of
it, and one that was not made leaves the file alone. -/
theorem keepsWords_iff (hback : self.flushOf fs path = some .written → self.ReadsBack iter) :
    self.KeepsWords iter fs path ↔
      ∃ text, self.leftAt iter fs path = some ⟨text, true⟩ ∧ self.AnsweredBy text := by
  unfold KeepsWords leftAt
  cases hflush : self.flushOf fs path with
  | none => rfl
  | some outcome =>
      cases outcome with
      | written =>
          exact iff_of_true trivial ⟨_, rfl, (hback hflush).answeredBy⟩
      -- a cut inside a character leaves bytes that are no text, so the file cannot be read
      | cut chars inside e =>
          dsimp only
          constructor
          · rintro ⟨rfl, hanswered⟩
            exact ⟨_, rfl, hanswered⟩
          · rintro ⟨text, htext, hanswered⟩
            obtain ⟨rfl, hvalid⟩ := Contents.mk.inj (Option.some.inj htext)
            exact ⟨by simpa using hvalid, hanswered⟩
      | discarded => rfl
      | notOpened e => rfl

/-! ### The load -/

/-- How loading ends: without a file, with the contents of the file, or with an error. -/
theorem load_cases (fs : FileSystem) (path : Path) :
    StoredUserDict.load fs path = .ok (.empty path) ∧ fs.fileExists path.components = false ∨
    (∃ text, Holds fs path text ∧
      StoredUserDict.load fs path = (UserDict.load (some text)).map (⟨path, ·⟩)) ∨
    (∃ e, StoredUserDict.load fs path = .error e ∧ ∀ text, ¬ Holds fs path text) := by
  unfold StoredUserDict.load Holds
  by_cases hexists : fs.fileExists path.components
  · simp only [hexists, if_true, true_and]
    cases hread : fs.readToString path.components with
    | error e => exact .inr (.inr ⟨.io e, rfl, by simp⟩)
    | ok text => exact .inr (.inl ⟨text, rfl, rfl⟩)
  · simp only [hexists]
    exact .inl ⟨rfl, trivial⟩

/-- `/dev/null`. -/
def devNull : Path := ⟨"/dev/null".toList⟩

/-- Nothing is read from `/dev/null`, and what is written there is gone. -/
structure NullDevice (fs : FileSystem) : Prop where
  empty : ∀ found, fs.contents devNull.components = some found → found.text = []
  discards : fs.writing devNull.components = .discarded

/-- So it is still empty after the flush, wherever the dictionary is stored: nothing else writes
to it, and what is written to it is discarded. -/
theorem NullDevice.save (h : NullDevice fs) (iter : BucketOrder) (self : StoredUserDict)
    {text : Str} (hholds : Holds (self.save iter fs).2.1 devNull text) : text = [] := by
  have hcontents := (holds_iff.mp hholds).2
  rw [contents_save, leftAt] at hcontents
  have hflush : self.flushOf fs devNull = none ∨ self.flushOf fs devNull = some .discarded := by
    unfold flushOf
    rw [h.discards]
    split
    · exact .inr rfl
    · exact .inl rfl
  rcases hflush with hflush | hflush <;> rw [hflush] at hcontents <;>
    exact h.empty _ hcontents

/-- What is loaded from an empty device answers nothing, whether it is missing or read as an
empty file. -/
theorem load_devNull (hnull : ∀ text, Holds fs devNull text → text = []) {loaded : StoredUserDict}
    (h : StoredUserDict.load fs devNull = .ok loaded) : loaded.dict.AnswersNothing := by
  rcases load_cases fs devNull with ⟨hload, -⟩ | ⟨text, hholds, hload⟩ | ⟨e, hload, -⟩
  · rw [hload] at h
    cases h
    exact UserDict.answersNothing_empty
  · rw [hnull text hholds] at hload
    rw [hload] at h
    cases h
    exact UserDict.answersNothing_empty
  · rw [hload] at h
    cases h

end StoredUserDict

/-! ### The dictionary after a reload -/

namespace SessionManager

open StoredUserDict

variable {iter : BucketOrder} {fs : FileSystem}
  {before : StoredUserDict} {path : Path}

/-- The user dictionary `load_dicts` ends with: the one at the path, or the fallback on
`/dev/null`, or an empty one when that fails as well. -/
def loadedUserDict (fs : FileSystem) (path : Path) : StoredUserDict :=
  match StoredUserDict.load fs path with
  | .ok dict => dict
  | .error _ =>
      match StoredUserDict.load fs devNull with
      | .ok dict => dict
      | .error _ => .empty path

/-- It is what the file holds, or it answers nothing: a file that is not there, cannot be read
or does not parse ends in an empty dictionary. -/
theorem loadedUserDict_cases (hnull : ∀ text, Holds fs devNull text → text = []) (path : Path) :
    (∃ text loaded, Holds fs path text ∧ UserDict.load (some text) = .ok loaded ∧
      (loadedUserDict fs path).dict = loaded) ∨
    (loadedUserDict fs path).dict.AnswersNothing ∧
      ∀ text, Holds fs path text → ∀ loaded, UserDict.load (some text) ≠ .ok loaded := by
  -- A file that cannot be read or parsed is given up for `/dev/null`.
  have hfallback : ∀ e, StoredUserDict.load fs path = .error e →
      (loadedUserDict fs path).dict.AnswersNothing := by
    intro e he
    unfold loadedUserDict
    rw [he]
    cases hload : StoredUserDict.load fs devNull with
    | error e => exact UserDict.answersNothing_empty
    | ok loaded => exact load_devNull hnull hload
  rcases load_cases fs path with ⟨hload, hmissing⟩ | ⟨text, hholds, hload⟩ | ⟨e, hload, hnone⟩
  · refine .inr ⟨?_, fun text hholds => ?_⟩
    · unfold loadedUserDict
      rw [hload]
      exact UserDict.answersNothing_empty
    · rw [hholds.1] at hmissing
      cases hmissing
  · cases hparse : UserDict.load (some text) with
    | ok loaded =>
        refine .inl ⟨text, loaded, hholds, hparse, ?_⟩
        unfold loadedUserDict
        rw [hload, hparse]
        rfl
    | error e =>
        rw [hparse] at hload
        refine .inr ⟨hfallback e hload, fun text' hholds' loaded hloaded => ?_⟩
        rw [hholds'.unique hholds, hparse] at hloaded
        cases hloaded
  · exact .inr ⟨hfallback e hload, fun text hholds => (hnone text hholds).elim⟩

/-- What was answered is still answered exactly when the file answers it, or there was
nothing to answer: whatever else is loaded answers nothing. -/
theorem stillAnswers_loadedUserDict_iff (hnull : ∀ text, Holds fs devNull text → text = [])
    (path : Path) : before.dict.StillAnswers (loadedUserDict fs path).dict ↔
      before.dict.AnswersNothing ∨ ∃ text, Holds fs path text ∧ before.AnsweredBy text := by
  rcases loadedUserDict_cases hnull path with ⟨text, loaded, hholds, hload, heq⟩ | ⟨hnothing, hnot⟩
  · rw [heq]
    constructor
    · exact fun hstill => .inr ⟨text, hholds, loaded, hload, hstill⟩
    · rintro (hempty | ⟨text', hholds', loaded', hload', hstill⟩)
      · exact hempty.stillAnswers _
      · rw [hholds'.unique hholds, hload] at hload'
        rw [Except.ok.inj hload']
        exact hstill
  · constructor
    · exact fun hstill => .inl (hstill.answersNothing hnothing)
    · rintro (hempty | ⟨text, hholds, loaded, hload, -⟩)
      · exact hempty.stillAnswers _
      · exact (hnot text hholds loaded hload).elim

/-- After a flush, the words are still answered exactly when they are kept, which is said of the
file and the dictionary before the flush. -/
theorem stillAnswers_saved_iff
    (hback : before.flushOf fs path = some .written → before.ReadsBack iter)
    (hnull : NullDevice fs) :
    before.dict.StillAnswers (loadedUserDict (before.save iter fs).2.1 path).dict ↔
      before.KeptBy iter fs path := by
  rw [stillAnswers_loadedUserDict_iff (fun text => hnull.save iter before), KeptBy,
    keepsWords_iff hback]
  simp only [holds_iff, canRead_save, contents_save]
  constructor
  · rintro (hnothing | ⟨text, ⟨hread, hleft⟩, hanswered⟩)
    · exact .inl hnothing
    · exact .inr ⟨hread, text, hleft, hanswered⟩
  · rintro (hnothing | ⟨hread, text, hleft, hanswered⟩)
    · exact .inl hnothing
    · exact .inr ⟨text, ⟨hread, hleft⟩, hanswered⟩

/-- The user dictionary is loaded first, and every other provider is a file. When its own file
cannot be read, `/dev/null` is loaded in its place. So the user dictionary after a reload
depends on the file system and the configured path alone. -/
theorem loadDicts_dictFiles [Platform] (fs : FileSystem) (config : Config) :
    ∃ others : List SharedDict, loadDicts fs.dictFiles config =
      .user (loadedUserDict fs config.userDict.effectivePath) :: others ∧
      ∀ provider ∈ others, provider.user? = none := by
  have hfile : ∀ source, Yields (fs.dictFiles.loadFile source) fun provider =>
      provider.user? = none := by
    intro source
    refine Yields.bind (Yields.of_forall fun _ => trivial) fun src _ => ?_
    exact Yields.bind (Yields.of_forall fun _ => trivial) fun dict _ => yields_pure.mpr rfl
  have hnull : (⟨"/dev/null".toList⟩ : Path) = devNull := rfl
  unfold loadDicts
  refine ⟨_, congrArg (· :: _) ?_, fun provider hprovider => ?_⟩
  · -- both definitions try the path and fall back to the empty file
    unfold loadedUserDict FileSystem.dictFiles
    rw [hnull]
    dsimp only
    cases StoredUserDict.load fs config.userDict.effectivePath with
    | ok dict => rfl
    | error e =>
        dsimp only [Except.map]
        cases StoredUserDict.load fs devNull with
        | ok dict => rfl
        | error e => rfl
  · obtain ⟨source, -, hsource⟩ := List.mem_filterMap.mp hprovider
    exact hfile source provider (ok_of_mem_toOption hsource)

/-- The flush saves the user dictionary of the stack: the file system is the one `save` leaves
behind, and the dictionary in the stack the one it returns. -/
theorem flushUserDict_eq {self : SessionManager SharedDict}
    (hbefore : self.userDict? = some before) :
    (self.flushUserDict iter fs).2 = (before.save iter fs).2.1 ∧
      (self.flushUserDict iter fs).1.userDict? = some (before.save iter fs).1 := by
  have hcomp : ∀ dicts : List SharedDict, dicts.findSome? SharedDict.user? = some before →
      (dicts.map (SharedDict.setUser (before.save iter fs).1)).findSome? SharedDict.user? =
        some (before.save iter fs).1 := by
    intro dicts
    -- The first user dictionary stays the first: the flush maps the stack.
    induction dicts with
    | nil => exact fun h => by cases h
    | cons dict dicts ih =>
        intro h
        cases dict with
        | user dict => rfl
        | file dict => exact ih h
  unfold flushUserDict
  rw [hbefore]
  exact ⟨rfl, hcomp self.dict hbefore⟩

/-- A reload that loads the dictionaries ends with the user dictionary that it loads after the
flush. -/
theorem userDict?_flushAndReload [Platform] {self : SessionManager SharedDict}
    (hbefore : self.userDict? = some before) (config : Config) (kanaTable : KanaTable) :
    (self.flushAndReload iter config true kanaTable fs).userDict? =
      some (loadedUserDict (before.save iter fs).2.1 config.userDict.effectivePath) := by
  rw [← (flushUserDict_eq hbefore).1]
  generalize hflushed : (self.flushUserDict iter fs).2 = fs'
  obtain ⟨others, hloaded, hothers⟩ := loadDicts_dictFiles fs' config
  have hdict : (self.flushAndReload iter config true kanaTable fs).dict =
      (newEngine (settingsFromConfig config kanaTable (loadDicts fs'.dictFiles config))).dict := by
    rw [← hflushed]
    rfl
  have hmem : ∀ provider, provider ∈ (self.flushAndReload iter config true kanaTable fs).dict ↔
      provider = .user (loadedUserDict fs' config.userDict.effectivePath) ∨ provider ∈ others := by
    intro provider
    rw [hdict, newEngine, SkkEngine.mem_dict_fresh, settingsFromConfig, hloaded, List.mem_cons]
  -- The stack is sorted by priority, so the dictionary is found by its kind, not by its place.
  unfold userDict?
  cases hfound : (self.flushAndReload iter config true kanaTable fs).dict.findSome?
      SharedDict.user? with
  | none =>
      have hnone := List.findSome?_eq_none_iff.mp hfound _ ((hmem _).mpr (.inl rfl))
      cases hnone
  | some dict =>
      obtain ⟨provider, hprovider, huser⟩ := List.exists_of_findSome?_eq_some hfound
      rcases (hmem provider).mp hprovider with rfl | hother
      · exact huser.symm
      · rw [hothers provider hother] at huser
        cases huser

/-- In every state of the manager, a reload that loads the dictionaries leaves every lookup that
the user dictionary answered with the same words, exactly when the dictionary answers nothing,
or its file can be read and has the words after the flush. The assumption `hback` is about
a flush that writes the file: the entries are then read as they were. -/
theorem stillAnswers_iff [Platform] {self : SessionManager SharedDict} {before : StoredUserDict}
    (hbefore : self.userDict? = some before) (config : Config) (kanaTable : KanaTable)
    (hback : before.flushOf fs config.userDict.effectivePath = some .written →
      before.ReadsBack iter)
    (hnull : NullDevice fs) :
    (self.flushUserDict iter fs).1.userDict? = some (before.save iter fs).1 ∧
    ∃ after, (self.flushAndReload iter config true kanaTable fs).userDict? = some after ∧
      (before.dict.StillAnswers after.dict ↔
        before.KeptBy iter fs config.userDict.effectivePath) :=
  ⟨(flushUserDict_eq hbefore).2, _, userDict?_flushAndReload hbefore config kanaTable,
    stillAnswers_saved_iff hback hnull⟩

/-! ### A word that is forgotten -/

open DaemonInterface (modePlatform)
open SkkEngine (vowelTable)

/-- The word `愛` was learned for `あい`, and is not written yet. -/
def learnedDict : StoredUserDict where
  path := ⟨"/user.dict".toList⟩
  dict := (UserDict.empty.learn ⟨['あ', 'い'], none, [.new ['愛']]⟩).1

/-- A configuration with this dictionary. -/
def learnedConfig : Config := { userDict := { path := some ⟨"/user.dict".toList⟩ } }

/-- A daemon that has learned the word, with its user dictionary as the only provider. -/
def learnedManager : SessionManager SharedDict :=
  .new {
    kanaTable := vowelTable
    keybindings := {}
    initialPhase := .hiragana
    providers := [.user learnedDict]
    indicatorTimeoutMs := 0
    lispDirectives := true }

/-- A file system where every file is empty and can be read, and writing ends as given. -/
def emptyFiles (outcome : WriteOutcome) : FileSystem where
  contents _ := some ⟨[], true⟩
  createDirAll _ := .ok ()
  writing path := if path = devNull.components then .discarded else outcome
  stat _ := true
  reading _ := .ok ()
  readDecoded _ := .error (.io [])

/-- Its `/dev/null` is one. -/
theorem nullDevice_emptyFiles (outcome : WriteOutcome) : NullDevice (emptyFiles outcome) where
  empty found hfound := by
    cases hfound
    rfl
  discards := by
    show (if devNull.components = devNull.components then .discarded else outcome) = _
    rw [if_pos rfl]

/-- The stack of the daemon is sorted when it is made, and has this one dictionary. -/
theorem userDict?_learnedManager : learnedManager.userDict? = some learnedDict := by
  have hdict : learnedManager.dict = [.user learnedDict] := List.mergeSort_singleton _
  rw [userDict?, hdict]
  rfl

/-- The disk is full: the file is emptied, the flush fails, and the word is gone after a reload,
from the file and from the dictionary alike. -/
theorem learned_word_forgotten :
    letI := modePlatform
    ∃ after, learnedManager.userDict? = some learnedDict ∧
      learnedDict.path == learnedConfig.userDict.effectivePath ∧
      (learnedManager.flushAndReload .stored learnedConfig true vowelTable
        (emptyFiles (.cut 0 false "disk full".toList))).userDict? = some after ∧
      learnedDict.dict.lookup ['あ', 'い'] none = some ⟨['あ', 'い'], none, [.new ['愛']]⟩ ∧
      after.dict.lookup ['あ', 'い'] none = none ∧
      ¬ learnedDict.dict.StillAnswers after.dict := by
  let _ := modePlatform
  have hlookup : learnedDict.dict.lookup ['あ', 'い'] none =
      some ⟨['あ', 'い'], none, [.new ['愛']]⟩ := by decide +kernel
  -- the file that is loaded has no character left in it
  have hafter : (loadedUserDict (learnedDict.save .stored
      (emptyFiles (.cut 0 false "disk full".toList))).2.1
        learnedConfig.userDict.effectivePath).dict.lookup ['あ', 'い'] none = none := by
    decide +kernel
  refine ⟨_, userDict?_learnedManager, by decide +kernel,
    userDict?_flushAndReload userDict?_learnedManager learnedConfig vowelTable, hlookup, hafter, ?_⟩
  intro hstill
  obtain ⟨entry, hentry, -⟩ := hstill _ _ _ hlookup
  rw [hafter] at hentry
  cases hentry

/-- When the file is written and can be read, the word stays. The file holds what the dictionary
was saved as, and it is loaded as the dictionary it was. -/
theorem stillAnswers_iff_written :
    letI := modePlatform
    ∃ after, (learnedManager.flushAndReload .stored learnedConfig true vowelTable
        (emptyFiles .written)).userDict? = some after ∧
      learnedDict.dict.StillAnswers after.dict := by
  let _ := modePlatform
  have hload : UserDict.load (some (serializeUserDict .stored learnedDict.dict.entries)) =
      .ok { learnedDict.dict with dirty := false } := by
    decide +kernel
  have hflush : learnedDict.flushOf (emptyFiles .written) learnedConfig.userDict.effectivePath =
      some .written := by decide +kernel
  obtain ⟨-, after, huser, hiff⟩ := stillAnswers_iff userDict?_learnedManager learnedConfig
    vowelTable (fun _ => ⟨_, hload, fun _ _ => rfl⟩) (nullDevice_emptyFiles .written)
  have hkeeps : learnedDict.KeepsWords .stored (emptyFiles .written)
      learnedConfig.userDict.effectivePath := by
    rw [KeepsWords, hflush]
    exact trivial
  exact ⟨after, huser, hiff.mpr (.inr ⟨⟨rfl, rfl⟩, hkeeps⟩)⟩

end SessionManager

end Y2Skk
