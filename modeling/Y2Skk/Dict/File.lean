import Y2Skk.Dict.Lisp

/-!
# `Y2Skk.Dict.File`: the user dictionary and its file format

`UserDict` is the writable dictionary. Its headwords are in the order of their last use,
oldest first. Under a headword, each okurigana key has its own bucket of candidates.
`FileDict` is a dictionary that is only read, and a `Provider` is one of the two, or of a
kind that the model does not look into.

## Learning and purging

`UserDict.learn` moves the learned candidates to the front of their bucket, takes their
words off the directives of the bucket, and makes the headword the last used one.
`UserDict.purge` removes a word from a bucket, and the bucket and the headword when they
are left empty. Only `learn` always marks the dictionary as changed.

## The file

`serializeUserDict` writes the entries, one bucket a line, and `parseSkkDictOrdered` reads
such a text. The lines with an okurigana key come first, as the format prescribes, so the
order of the headwords is not kept by a round trip: a headword with both kinds of bucket
stands in both groups. The buckets of a headword come in the iteration order of a
`HashMap`, which is the parameter `iter`. Every entry has a map of its own, so the order
may depend on the headword.

Candidates are quoted when they have to be (`serializeCandidate`), and a field is
evaluated when it is read (`parseCandidateField`). A form that is not interpreted is kept
as it was read.
-/

set_option autoImplicit false

namespace Y2Skk

open Utf8

/-- The buckets of a headword: okurigana key → candidates. -/
abbrev OkuriMap := OrdMap (Option Str) (List Candidate)

/-- Headword → okurigana key → candidates, the headwords in the order of their last use. -/
abbrev UserEntryMap := OrdMap Str OkuriMap

/-- The writable dictionary: its entries, and whether they have changed since they were read or
written. -/
structure UserDict where
  entries : UserEntryMap
  dirty : Bool
  deriving DecidableEq

/-- A read-only dictionary file. Nothing reads the order of its entries: its completions are
sorted. -/
structure FileDict where
  entries : UserEntryMap
  priority : Int
  deriving DecidableEq

/-! ### The providers -/

namespace FileDict

/-- `FileDict::lookup`: the bucket of a headword and an okurigana key. -/
def lookup (dict : FileDict) (midashi : Str) (okuri : Option Str) : Option DictEntry := do
  let okuriMap ← dict.entries.get? midashi
  let candidates ← okuriMap.get? okuri
  return ⟨midashi, okuri, candidates⟩

/-- `FileDict::complete`: the headwords without okurigana that continue `pre`, sorted. The
prefix itself is no completion. -/
def complete (dict : FileDict) (pre : Str) : List Str :=
  ((dict.entries.entries.filter fun e =>
    pre.isPrefixOf e.1 && decide (e.1 ≠ pre) && (e.2.get? none).isSome).map Prod.fst).mergeSort
      fun a b => !decide (b < a)

/-- A dictionary file is not learned into, and `purge` has its default body, which removes
nothing. -/
instance : DictionaryProvider FileDict where
  lookup := lookup
  learn dict _ := (dict, .error .readOnly)
  priority := priority
  complete := complete

end FileDict

namespace UserDict

/-- A user dictionary with no entries. -/
def empty : UserDict := ⟨.empty, false⟩

/-- `UserDict::lookup`: the bucket of a headword and an okurigana key. The entry has the
candidates as they are stored, directives among them. -/
def lookup (dict : UserDict) (midashi : Str) (okuri : Option Str) : Option DictEntry := do
  let okuriMap ← dict.entries.get? midashi
  let candidates ← okuriMap.get? okuri
  return ⟨midashi, okuri, candidates⟩

/-- Moves the new candidates to the front of the list, each in place of its old occurrence. They
are inserted from the last to the first, so they end up in their own order. -/
def promote (list newCands : List Candidate) : List Candidate :=
  newCands.reverse.foldl (fun list newCand =>
    newCand :: list.filter fun c => c.word ≠ newCand.word) list

/-- Takes the learned words off a directive. The source text of the form is written anew, and
any other candidate is left alone. -/
def unignoreIn (learnedWords : List Str) (cand : Candidate) : Candidate :=
  match cand.lispForm with
  | some (.ignoreDicWord words) =>
      let words := words.filter fun w => w ∉ learnedWords
      { cand with word := renderIgnoreDicWord words, lispForm := some (.ignoreDicWord words) }
  | _ => cand

/-- Takes the learned words off every directive, and drops the directives left empty. -/
def unignore (learnedWords : List Str) (list : List Candidate) : List Candidate :=
  (list.map (unignoreIn learnedWords)).filter fun c => c.lispForm ≠ some (.ignoreDicWord [])

/-- `UserDict::learn`: learns the candidates of an entry, and makes its headword the last used
one. Directives among the candidates are promoted too, but their words are not learned words. -/
def learn (dict : UserDict) (entry : DictEntry) : UserDict × Except DictError Unit :=
  let okuriMap := (dict.entries.get? entry.midashi).getD .empty
  let learnedWords := (entry.candidates.filter Candidate.isDisplayable).map Candidate.word
  let okuriMap := okuriMap.upsert entry.okuri fun list =>
    unignore learnedWords (promote list entry.candidates)
  -- Erasing first moves the headword to the end, for `complete`.
  ({ entries := (dict.entries.erase entry.midashi).insert entry.midashi okuriMap, dirty := true },
    .ok ())

/-- `UserDict::purge`: removes a word from a bucket, and the bucket and the headword when they
are left empty. The answer says whether a candidate was removed. -/
def purge (dict : UserDict) (midashi : Str) (okuri : Option Str) (word : Str) :
    UserDict × Except DictError Bool :=
  match dict.entries.get? midashi with
  | none => (dict, .ok false)
  | some okuriMap =>
    match okuriMap.get? okuri with
    | none => (dict, .ok false)
    | some candidates =>
      let kept := candidates.filter fun c => c.word ≠ word
      let removed := kept.length ≠ candidates.length
      let okuriMap := if kept.isEmpty then okuriMap.erase okuri else okuriMap.insert okuri kept
      let entries := if okuriMap.entries.isEmpty then dict.entries.erase midashi
        else dict.entries.insert midashi okuriMap
      -- The map is rebuilt even when the word was not there.
      ({ entries := entries, dirty := dict.dirty || removed }, .ok removed)

/-- `UserDict::complete`: the headwords without okurigana that continue `pre`, last used
first. -/
def complete (dict : UserDict) (pre : Str) : List Str :=
  (dict.entries.entries.reverse.filter fun e =>
    pre.isPrefixOf e.1 && decide (e.1 ≠ pre) && (e.2.get? none).isSome).map Prod.fst

/-- The user dictionary overrides every operation, and has the highest priority there is. -/
instance : DictionaryProvider UserDict where
  lookup := lookup
  learn := learn
  purge := purge
  priority _ := 2 ^ 31 - 1
  complete := complete

end UserDict

/-- A provider of a stack: the user dictionary, or one of another kind. The engine asks the
stack in order, and only the user dictionary is written to disk. -/
inductive Provider (ρ : Type) where
  | user (dict : UserDict)
  | other (provider : ρ)
  deriving DecidableEq

namespace Provider

/-- The user dictionary a provider is, if it is one. -/
def user? {ρ : Type} : Provider ρ → Option UserDict
  | user dict => some dict
  | other _ => none

/-- A provider that is a user dictionary is that one. -/
theorem user?_eq_some {ρ : Type} {provider : Provider ρ} {dict : UserDict}
    (h : provider.user? = some dict) : provider = user dict := by
  cases provider with
  | user dict' => cases h; rfl
  | other _ => cases h

variable {ρ : Type} [DictionaryProvider ρ]

/-- Every operation is passed on to the provider inside. -/
instance : DictionaryProvider (Provider ρ) where
  lookup
    | user dict => DictionaryProvider.lookup dict
    | other provider => DictionaryProvider.lookup provider
  learn
    | user dict, entry => (DictionaryProvider.learn dict entry).map user id
    | other provider, entry => (DictionaryProvider.learn provider entry).map other id
  purge
    | user dict, midashi, okuri, word =>
        (DictionaryProvider.purge dict midashi okuri word).map user id
    | other provider, midashi, okuri, word =>
        (DictionaryProvider.purge provider midashi okuri word).map other id
  priority
    | user dict => DictionaryProvider.priority dict
    | other provider => DictionaryProvider.priority provider
  complete
    | user dict => DictionaryProvider.complete dict
    | other provider => DictionaryProvider.complete provider

end Provider

/-! ### Reading the file -/

/-- `split_midashi_okuri`: splits a trailing ASCII letter off as the okurigana key, unless the
whole headword is ASCII. So a headword of an abbreviation keeps its last letter. -/
def splitMidashiOkuri (raw : Str) : Str × Option Str :=
  match raw.getLast? with
  | some last =>
      -- An abbrev headword ends in a letter of its own.
      if last.isAlpha ∧ !raw.all (fun c => decide (c.toNat < 0x80)) then
        (raw.dropLast, some [last])
      else (raw, none)
  | none => (raw, none)

/-- `decode_annotation`: evaluates a `concat` form; any other text is kept. -/
def decodeAnnotation (raw : Str) : Str := (parseConcat raw).getD raw

/-- The form a Lisp field starts with, and what follows it. A field with anything but an
annotation after the form is kept as a whole, and so is one whose form is not closed. -/
def splitForm (field : Str) : Str × Str :=
  match sexpEnd field with
  | some (sexp, rest) => if rest.isEmpty ∨ rest.head? = some ';' then (sexp, rest) else (field, [])
  | none => (field, [])

/-- `parse_candidate_field`: a Lisp form with an annotation, or a word with one. A `concat` form
is evaluated and gives a plain word; any other form stays a form. -/
def parseCandidateField (field : Str) : Candidate :=
  if field.head? = some '(' then
    let (sexp, rest) := splitForm field
    let annotation := ([';'].isPrefixOf? rest).map decodeAnnotation
    match parseConcat sexp with
    | some word => ⟨word, annotation, none⟩
    -- Forms that are not evaluated are kept for writing them back.
    | none => { Candidate.lisp sexp ((classify sexp).getD .unknown) with annotation := annotation }
  else
    match splitOnce [';'] field with
    | some (word, text) => Candidate.withAnnotation word <| decodeAnnotation text
    | none => .new field

/-- The body of the loop of `parse_candidates`. Empty fields are skipped; a field whose word is
empty is an error. -/
def addField (lineNum : Nat) (candidates : List Candidate) (field : Str) :
    Except DictError (List Candidate) :=
  if field.isEmpty then .ok candidates
  else
    let cand := parseCandidateField field
    if cand.word.isEmpty then .error (.parse lineNum (.emptyWord field))
    else .ok (candidates ++ [cand])

/-- `parse_candidates`: the candidates between the slashes. -/
def parseCandidates (s : Str) (lineNum : Nat) : Except DictError (List Candidate) :=
  (s.splitOn '/').foldlM (addField lineNum) []

/-- One line of a dictionary: a headword, an okurigana key and candidates. The source has no
type for it; it is what `parse_line` returns as a triple. -/
structure Row where
  midashi : Str
  okuri : Option Str
  candidates : List Candidate
  deriving DecidableEq, Repr

/-- The reading of one line; comments and empty lines have no row. The candidates begin at the
first space that is followed by a slash. -/
def parseLine (line : Str) (lineNum : Nat) : Except DictError (Option Row) :=
  if line.head? = some ';' then .ok none
  else
    let line := trim line
    if line.isEmpty then .ok none
    else
      match splitOnce [' ', '/'] line with
      | none => .error (.parse lineNum (.missingSeparator line))
      | some (midashiRaw, candsRaw) => do
          let (midashi, okuri) := splitMidashiOkuri midashiRaw
          let candidates ← parseCandidates candsRaw lineNum
          return some ⟨midashi, okuri, candidates⟩

/-- Adds the candidates of a row to its bucket. A headword that occurs again keeps its first
place, and its candidates are appended. -/
def addRow (map : UserEntryMap) (row : Row) : UserEntryMap :=
  map.upsert row.midashi fun okuriMap => okuriMap.upsert row.okuri (· ++ row.candidates)

/-- The body of the loop of `parse_skk_dict` and `parse_skk_dict_ordered`, on a line and its
index. -/
def addLine (map : UserEntryMap) (line : Str × Nat) : Except DictError UserEntryMap := do
  match ← parseLine line.1 (line.2 + 1) with
  | some row => .ok (addRow map row)
  | none => .ok map

/-- `parse_skk_dict_ordered`: reads a dictionary, in the order of its lines, up to the first
error. -/
def parseSkkDictOrdered (src : Str) : Except DictError UserEntryMap :=
  (lines src).zipIdx.foldlM addLine .empty

/-- `UserDict::load` on the contents of the file, `none` when it does not exist: there is an
empty dictionary then. -/
def UserDict.load (src : Option Str) : Except DictError UserDict := do
  let entries ← match src with
    | some src => parseSkkDictOrdered src
    | none => .ok .empty
  return ⟨entries, false⟩

/-- `FileDict::load` on the decoded contents of the file. -/
def FileDict.load (src : Str) (priority : Int) : Except DictError FileDict := do
  let entries ← parseSkkDictOrdered src
  return ⟨entries, priority⟩

/-! ### Writing the file -/

/-- A candidate as a field: Lisp forms as they are, plain words and annotations quoted when they
have to be. A directive is written from its words, not from its source text. -/
def serializeCandidate (c : Candidate) : Str :=
  let word := match c.lispForm with
    | some (.ignoreDicWord words) => renderIgnoreDicWord words
    -- A form is written as it was read.
    | some .unknown => c.word
    | none => quoteIfNeeded c.word
  match c.annotation with
  | some ann => word ++ ';' :: quoteIfNeeded ann
  | none => word

/-- What is written in front of the candidates: the headword, with the okurigana key behind
it. -/
def Row.header (row : Row) : Str := row.midashi ++ row.okuri.getD []

/-- One bucket as a line, without its newline. -/
def serializeRow (row : Row) : Str :=
  row.header ++ [' ', '/'] ++ ['/'].intercalate (row.candidates.map serializeCandidate) ++ ['/']

/-- The order in which the `HashMap` under a headword yields its buckets. Every map has an
order of its own, so it may depend on the headword and on the map. -/
abbrev BucketOrder := Str → OkuriMap → List (Option Str × List Candidate)

/-- The order yields every bucket of a map, and each of them once. -/
def BucketOrder.YieldsAll (iter : BucketOrder) : Prop :=
  ∀ midashi okuriMap, (iter midashi okuriMap).Perm okuriMap.entries

/-- The buckets in the order they are stored: one of the orders a `HashMap` may have. -/
def BucketOrder.stored : BucketOrder := fun _ okuriMap => okuriMap.entries

/-- The stored order is one of the orders a map may have. -/
theorem BucketOrder.yieldsAll_stored : BucketOrder.stored.YieldsAll := fun _ _ => .refl _

/-- The buckets of a map as rows, in the order they are written in before they are grouped. -/
def rows (iter : BucketOrder) (map : UserEntryMap) : List Row :=
  map.entries.flatMap fun (midashi, okuriMap) =>
    (iter midashi okuriMap).map fun (okuri, candidates) => ⟨midashi, okuri, candidates⟩

/-- `serialize_user_dict`: the text of the file. The rows with an okurigana key come first, then
the others, each group under its comment line. -/
def serializeUserDict (iter : BucketOrder) (map : UserEntryMap) : Str :=
  let okuriAri := ((rows iter map).filter fun row => row.okuri.isSome).map serializeRow
  let okuriNasi := ((rows iter map).filter fun row => row.okuri.isNone).map serializeRow
  ";; y2skk user dictionary\n".toList ++ ";;; okuri-ari entries.\n".toList
    ++ ['\n'].intercalate okuriAri ++ ['\n']
    ++ ";;; okuri-nasi entries.\n".toList
    ++ ['\n'].intercalate okuriNasi ++ ['\n']

end Y2Skk
