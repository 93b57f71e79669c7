import Y2Skk.Lib.OrdMap
import Y2Skk.Lib.Text

/-!
# `Y2Skk.Dict.Entry`: candidates, entries and dictionary providers

The values that dictionaries and the engine exchange. A `Candidate` is a word with an
annotation, or a Lisp form that the engine interprets or hides. A `DictEntry` is what a
lookup returns and what is learned: a headword, an okurigana key, and candidates with the
highest priority first.

`DictionaryProvider δ` is the interface the engine sees: the values of `δ` are the states
of a provider, and a stack of providers is a `List δ`. `learn` and `purge` return the
provider after the call next to their result, whether or not they succeed: a provider may
change before it fails. The defaults of the class are the default bodies of the trait, so
an instance says only what its provider overrides.
-/

set_option autoImplicit false

namespace Y2Skk

open Utf8 (Str)

/-- Parsed form of a Lisp-form candidate. -/
inductive LispForm where
  /-- `(skk-ignore-dic-word "w1" "w2" ...)`: words to exclude from candidates. -/
  | ignoreDicWord (words : List Str)
  /-- An S-expression that is not interpreted. -/
  | unknown
  deriving DecidableEq, Repr

/-- A conversion candidate. For a Lisp form, `word` holds the raw S-expression, which is what is
written back to the file. -/
structure Candidate where
  word : Str
  annotation : Option Str
  lispForm : Option LispForm
  deriving DecidableEq, Repr

namespace Candidate

/-- `Candidate::new`: a plain word. -/
def new (word : Str) : Candidate := ⟨word, none, none⟩

/-- `Candidate::with_annotation`: a plain word with an annotation. -/
def withAnnotation (word annotation : Str) : Candidate := ⟨word, some annotation, none⟩

/-- `Candidate::lisp`: a form, with its source text as the word. -/
def lisp (raw : Str) (form : LispForm) : Candidate := ⟨raw, none, some form⟩

/-- Lisp-form candidates are hidden: they are directives, and never text to be committed. -/
def isDisplayable (c : Candidate) : Bool := c.lispForm.isNone

/-- The words a candidate tells the engine to hide; `[]` for everything but an `ignoreDicWord`
directive. -/
def ignoredWords (c : Candidate) : List Str :=
  match c.lispForm with
  | some (.ignoreDicWord ws) => ws
  | _ => []

end Candidate

/-- A dictionary entry: one headword with its candidates, highest priority first. -/
structure DictEntry where
  midashi : Str
  okuri : Option Str
  candidates : List Candidate
  deriving DecidableEq, Repr

/-- The two messages of a parse error, with the text they quote. -/
inductive ParseMessage where
  /-- ``missing ` /` separator: {line:?}`` -/
  | missingSeparator (line : Str)
  /-- `empty candidate word in field: {field:?}` -/
  | emptyWord (field : Str)
  deriving DecidableEq, Repr

/-- The errors of a dictionary operation that the modelled code distinguishes. A parse error has
the number of its line, counted from one. -/
inductive DictError where
  | io (error : Str)
  | parse (line : Nat) (message : ParseMessage)
  | readOnly
  deriving DecidableEq, Repr

/-- Synchronous dictionary provider. `purge`, `priority` and `complete` have the default bodies
of the trait: nothing is removed, the priority is zero, and nothing is completed. -/
class DictionaryProvider (δ : Type) where
  lookup : δ → Str → Option Str → Option DictEntry
  learn : δ → DictEntry → δ × Except DictError Unit
  purge : δ → Str → Option Str → Str → δ × Except DictError Bool :=
    fun d _ _ _ => (d, .ok false)
  priority : δ → Int := fun _ => 0
  complete : δ → Str → List Str := fun _ _ => []

/-- The provider type of an engine without dictionaries: there is no provider to ask. -/
instance : DictionaryProvider Empty where
  lookup d := d.elim
  learn d := d.elim

end Y2Skk
