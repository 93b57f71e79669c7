import Y2Skk.Dict.File
import Y2Skk.Ipc.Reload

/-!
# `Y2Skk.Ipc.Flush`: the user dictionary and its file

`StoredUserDict` is the user dictionary with the path of its file. `save` writes it when
it was changed, and `load` reads it again. `SessionManager.flushAndReload` is a reload as
the daemon performs it: the user dictionary is flushed, and then the dictionaries are
loaded anew.

## The file system

The file system is a value, `FileSystem`: what every file holds, and how the operations on
it will end. Writing returns the file system with the new contents. `std::fs::write`
empties a file when it opens it and then writes the text, so there are three ways it can
fail to leave the text behind (`WriteOutcome`):

* the file cannot be opened, and holds what it held;
* the text is cut off, and the file holds what was written until then, in the end perhaps
  the first bytes of a character, which makes the whole file unreadable as text;
* the file is a device like `/dev/null`, and the text is gone although the call succeeds.

Reading can fail by itself, after a write that succeeded too. What other programs do to
the files between the two is not part of the model.

## What a reload loses

A failed save is only logged, and the dictionary in memory is then replaced by what the
file holds. Which learned words survive is therefore a question about the file, and the
theorems about it are in `Y2Skk.Proofs.Flush`.
-/

set_option autoImplicit false

namespace Y2Skk

open Utf8 (Str)

/-- What a file holds: the characters in front of the first byte that belongs to none, and
whether that is the whole file. -/
structure Contents where
  text : Str
  valid : Bool
  deriving DecidableEq, Repr

/-- How `std::fs::write` of a file ends. -/
inductive WriteOutcome where
  /-- The file holds the text. -/
  | written
  /-- The call succeeds, and the file holds what it held: it is a device. -/
  | discarded
  /-- The file cannot be opened, and holds what it held. -/
  | notOpened (error : Str)
  /-- Writing breaks off after some characters, or `inside` the next one. -/
  | cut (chars : Nat) (inside : Bool) (error : Str)
  deriving DecidableEq, Repr

/-- The file system as a reload meets it. A file is known by the components of its path. -/
structure FileSystem where
  /-- What a file holds, `none` when there is no file. -/
  contents : List PathComponent → Option Contents
  createDirAll : List PathComponent → Except Str Unit
  writing : List PathComponent → WriteOutcome
  /-- Whether the metadata of a path can be read. -/
  stat : List PathComponent → Bool
  /-- Whether a file can be opened and read. -/
  reading : List PathComponent → Except Str Unit
  /-- `read_to_utf8` of a system dictionary. -/
  readDecoded : DictSource → Except DictError Str

namespace FileSystem

/-- `Path::exists`, which also is false when the question cannot be answered. -/
def fileExists (fs : FileSystem) (path : List PathComponent) : Bool :=
  fs.stat path && (fs.contents path).isSome

/-- The error of the standard library for a file that is missing. -/
def notFound : Str := "No such file or directory".toList
/-- The error of the standard library for a file that is no text. -/
def notUtf8 : Str := "stream did not contain valid UTF-8".toList

/-- `std::fs::read_to_string`. -/
def readToString (fs : FileSystem) (path : List PathComponent) : Except Str Str := do
  fs.reading path
  match fs.contents path with
  | none => .error notFound
  | some found => if found.valid then .ok found.text else .error notUtf8

/-- The file at `path` holds something else. -/
def put (fs : FileSystem) (path : List PathComponent) (found : Contents) : FileSystem :=
  { fs with contents := fun p => if p = path then some found else fs.contents p }

/-- `std::fs::write`: the file system afterwards, and how the call ended. The outcome is a
parameter of the file system, so that every way to fail can be considered. -/
def write (fs : FileSystem) (path : List PathComponent) (text : Str) :
    FileSystem × Except Str Unit :=
  match fs.writing path with
  | .written => (fs.put path ⟨text, true⟩, .ok ())
  | .discarded => (fs, .ok ())
  | .notOpened e => (fs, .error e)
  -- The file was emptied before the text was written.
  | .cut chars inside e => (fs.put path ⟨text.take chars, !inside⟩, .error e)

end FileSystem

/-- The user dictionary and where it is stored. The source has one structure for both; the
dictionary alone is in `Y2Skk.Dict.File`. -/
structure StoredUserDict where
  path : Path
  dict : UserDict

namespace StoredUserDict

/-- An empty dictionary that will be stored at `path`. -/
def empty (path : Path) : StoredUserDict := ⟨path, .empty⟩

/-- `UserDict::load`: loads the dictionary; a file that does not exist holds nothing. -/
def load (fs : FileSystem) (path : Path) : Except DictError StoredUserDict := do
  let src ← if fs.fileExists path.components then
      ((fs.readToString path.components).map some).mapError .io
    else .ok none
  let dict ← UserDict.load src
  return ⟨path, dict⟩

variable (iter : BucketOrder)

/-- The directory of the file is there, or is made. -/
def makeParent (fs : FileSystem) (self : StoredUserDict) : Except Str Unit :=
  match self.path.parent with
  | some parent => fs.createDirAll parent
  | none => .ok ()

/-- `UserDict::save`: persists any changes. A dictionary that was not changed is not written,
and one that could not be written stays marked as changed. -/
def save (fs : FileSystem) (self : StoredUserDict) :
    StoredUserDict × FileSystem × Except DictError Unit :=
  if !self.dict.dirty then (self, fs, .ok ())
  else
    match self.makeParent fs with
    | .error e => (self, fs, .error (.io e))
    | .ok () =>
        let (fs, result) := fs.write self.path.components (serializeUserDict iter self.dict.entries)
        match result with
        | .ok () => ({ self with dict := { self.dict with dirty := false } }, fs, .ok ())
        | .error e => (self, fs, .error (.io e))

/-- The path is carried along, and has no part in any operation. -/
instance : DictionaryProvider StoredUserDict where
  lookup self := self.dict.lookup
  learn self entry := (self.dict.learn entry).map (fun dict => { self with dict := dict }) id
  purge self midashi okuri word :=
    (self.dict.purge midashi okuri word).map (fun dict => { self with dict := dict }) id
  priority self := DictionaryProvider.priority self.dict
  complete self := self.dict.complete

end StoredUserDict

/-- The dictionaries the engines of the daemon share: the user dictionary, and those of the
system. -/
inductive SharedDict where
  | user (dict : StoredUserDict)
  | file (dict : FileDict)

namespace SharedDict

/-- The user dictionary a provider is. -/
def user? : SharedDict → Option StoredUserDict
  | user dict => some dict
  | file _ => none

/-- The provider with another user dictionary, if it is one. -/
def setUser (saved : StoredUserDict) : SharedDict → SharedDict
  | user _ => user saved
  | file dict => file dict

/-- Every operation is passed on to the dictionary inside. -/
instance : DictionaryProvider SharedDict where
  lookup
    | user dict => DictionaryProvider.lookup dict
    | file dict => DictionaryProvider.lookup dict
  learn
    | user dict, entry => (DictionaryProvider.learn dict entry).map user id
    | file dict, entry => (DictionaryProvider.learn dict entry).map file id
  purge
    | user dict, midashi, okuri, word =>
        (DictionaryProvider.purge dict midashi okuri word).map user id
    | file dict, midashi, okuri, word =>
        (DictionaryProvider.purge dict midashi okuri word).map file id
  priority
    | user dict => DictionaryProvider.priority dict
    | file dict => DictionaryProvider.priority dict
  complete
    | user dict => DictionaryProvider.complete dict
    | file dict => DictionaryProvider.complete dict

end SharedDict

/-- The dictionaries as they are loaded from the file system. -/
def FileSystem.dictFiles (fs : FileSystem) : DictFiles SharedDict where
  loadUser path := (StoredUserDict.load fs path).map .user
  emptyUser path := .user (.empty path)
  loadFile source := do
    let src ← fs.readDecoded source
    let dict ← FileDict.load src source.priority
    return .file dict

namespace SessionManager

variable (iter : BucketOrder)

/-- The user dictionary of the stack. -/
def userDict? (self : SessionManager SharedDict) : Option StoredUserDict :=
  self.dict.findSome? SharedDict.user?

/-- Saves the user dictionary, which is one object however often the stack refers to it. An
error is only logged. -/
def flushUserDict (fs : FileSystem) (self : SessionManager SharedDict) :
    SessionManager SharedDict × FileSystem :=
  match self.userDict? with
  | none => (self, fs)
  | some dict =>
      let (saved, fs, _) := dict.save iter fs
      ({ self with dict := self.dict.map (SharedDict.setUser saved) }, fs)

/-- A reload: before the dictionaries are loaded anew the user dictionary is flushed. -/
def flushAndReload [Platform] (self : SessionManager SharedDict) (config : Config)
    (dictsChanged : Bool) (kanaTable : KanaTable) (fs : FileSystem) : SessionManager SharedDict :=
  let (self, fs) := if dictsChanged then self.flushUserDict iter fs else (self, fs)
  self.reload config dictsChanged kanaTable fs.dictFiles

end SessionManager

end Y2Skk
