import Y2Skk.Dict.Entry
import Y2Skk.Lib.Lines

/-!
# `Y2Skk.Dict.Lisp`: Lisp-form dictionary candidates

A candidate or annotation with a character the dictionary syntax reserves is stored as a
`(concat "...")` form. `quoteConcat` writes the form and `parseConcat` evaluates it;
`sexpEnd` finds where it ends in a candidate field. The directive `(skk-ignore-dic-word
"..." ...)` is the other form that is interpreted: its words are hidden from the
candidates. Any other form is kept as it stands, and hidden.

## Reading and writing are inverse

* `readStringLiteral_literalText`: a string literal is read back.
* `parseConcat_quoteConcat`: so is a `concat` form.
* `classify_renderIgnoreDicWord`: and a directive.
* `sexpEnd_form`: a form ends where it was written to end, whatever follows it in the
  field. The quotes and parentheses inside its literals do not count.

All of them rest on `escapeChar_cases`: a character is written as itself, or as an escape
that is read back as the character. An octal escape reads up to three digits, and is
written with three, so a digit that follows it is not swallowed.

## What a written form does not contain

The last section says that neither a quoted word nor a directive has a slash, a semicolon
or a newline in it (`not_isStructural_of_mem_quoteIfNeeded`). This is what the escapes are
for: the field can be put on a dictionary line, and the line can be cut at its slashes
again.
-/

set_option autoImplicit false

namespace Y2Skk

open Utf8

/-! ### Reading -/

/-- The value of an octal digit; none for any other character. -/
def octalDigit (c : Char) : Option Nat :=
  if '0' ≤ c ∧ c ≤ '7' then some (c.toNat - '0'.toNat) else none

/-- Reads up to `n` more octal digits of the character code `code`, and stops at the first
character that is none. -/
def octalDigits : Nat → Nat → Str → Nat × Str
  | n + 1, code, c :: cs =>
      match octalDigit c with
      | some d => octalDigits n (code * 8 + d) cs
      | none => (code, c :: cs)
  | _, code, cs => (code, cs)

/-- Reading digits does not lengthen the rest, by which the reader of a literal ends. -/
theorem octalDigits_length (n code : Nat) (cs : Str) :
    (octalDigits n code cs).2.length ≤ cs.length := by
  induction n generalizing code cs with
  | zero => simp [octalDigits]
  | succ n ih =>
      cases cs with
      | nil => simp [octalDigits]
      | cons c cs =>
          rw [octalDigits]
          split
          · exact (ih _ cs).trans (Nat.le_succ _)
          · exact Nat.le_refl _

/-- The character an escape stands for, read from behind its `\`, and what follows it. A code
that is no character is an error, as is any letter but the three that are supported. -/
def readEscape : Str → Option (Char × Str)
  | [] => none
  | e :: cs =>
      if e = '"' then some ('"', cs)
      else if e = '\\' then some ('\\', cs)
      else if e = 'n' then some ('\n', cs)
      else if e = 't' then some ('\t', cs)
      else if e = 'r' then some ('\r', cs)
      else
        match octalDigit e with
        | some d =>
            -- At most three octal digits.
            let (code, cs) := octalDigits 2 d cs
            if code.isValidChar then some (Char.ofNat code, cs) else none
        | none => none

/-- An escape takes at least one character, so a reader that goes on after it ends. The escapes
with a letter and an escaped character take exactly one. An octal escape takes its digits as
well. The recursion of `readStringLiteral` goes down by this lemma. -/
theorem readEscape_length {cs rest : Str} {c : Char} (h : readEscape cs = some (c, rest)) :
    rest.length < cs.length := by
  cases cs with
  | nil => cases h
  | cons e cs =>
      rw [List.length_cons, Nat.lt_succ_iff]
      -- one split for each kind of escape; only the octal one reads on after its first character
      unfold readEscape at h
      dsimp only at h
      split at h
      · cases h; exact Nat.le_refl _
      split at h
      · cases h; exact Nat.le_refl _
      split at h
      · cases h; exact Nat.le_refl _
      split at h
      · cases h; exact Nat.le_refl _
      split at h
      · cases h; exact Nat.le_refl _
      split at h
      · split at h
        · cases h
          exact octalDigits_length ..
        · cases h
      · cases h

/-- `read_string_literal`: reads a string literal from behind its opening `"`, and returns its
text and what follows its closing `"`. `none` stands for an unterminated literal or an
unsupported escape. The recursion is on the length of the rest, since an escape takes several
characters. -/
def readStringLiteral (out : Str) : Str → Option (Str × Str)
  | [] => none
  | c :: cs =>
      if c = '"' then some (out, cs)
      else if c = '\\' then
        match _h : readEscape cs with
        | some (e, rest) => readStringLiteral (out ++ [e]) rest
        | none => none
      else readStringLiteral (out ++ [c]) cs
termination_by cs => cs.length
decreasing_by
  · exact Nat.lt_succ_of_lt (readEscape_length _h)
  · exact Nat.lt_succ_self _

/-- A literal takes at least its closing quote. So the loop of `parseStringList`, which reads
one literal after another, works on a shorter text each time. -/
theorem readStringLiteral_length {out cs word rest : Str}
    (h : readStringLiteral out cs = some (word, rest)) : rest.length < cs.length := by
  induction out, cs using readStringLiteral.induct with
  | case1 out => rw [readStringLiteral] at h; cases h
  | case2 out cs =>
      rw [readStringLiteral, if_pos rfl] at h
      cases h
      exact Nat.lt_succ_self _
  -- an escape was read: the text after it is shorter, and the literal ends in there
  | case3 out cs e rest hescape _ ih =>
      rw [readStringLiteral, if_neg (by decide), if_pos rfl] at h
      split at h
      · rename_i heq
        rw [hescape] at heq
        cases heq
        exact (ih h).trans (Nat.lt_succ_of_lt (readEscape_length hescape))
      · cases h
  | case4 out cs hescape _ =>
      rw [readStringLiteral, if_neg (by decide), if_pos rfl] at h
      split at h
      · rename_i heq
        rw [hescape] at heq
        cases heq
      · cases h
  | case5 out c cs hquote hslash ih =>
      rw [readStringLiteral, if_neg hquote, if_neg hslash] at h
      exact Nat.lt_succ_of_lt (ih h)

/-- `split_head`: splits a form at its head symbol, and returns what follows `head` inside the
parentheses. White space around the form and around its inside does not matter. -/
def splitHead (s head : Str) : Option Str := do
  let inner ← ['('].isPrefixOf? (trim s)
  let inner ← [')'].isSuffixOf? inner
  let rest ← head.isPrefixOf? (trim inner)
  -- White space, or the end of the form, has to follow the symbol.
  if rest.head?.all isAsciiWhitespace then some (trimStart rest) else none

/-- `parse_string_list`: string literals with white space between them, up to the end of the
text. Anything else between them makes the whole list unreadable. -/
def parseStringList (rest : Str) : Option (List Str) :=
  match _h : rest.dropWhile isAsciiWhitespace with
  | [] => some []
  | c :: cs =>
      if c = '"' then
        match _h' : readStringLiteral [] cs with
        | some (word, rest') => (parseStringList rest').map (word :: ·)
        | none => none
      else none
termination_by rest.length
decreasing_by
  have hdrop := (List.dropWhile_sublist (l := rest) isAsciiWhitespace).length_le
  rw [_h, List.length_cons] at hdrop
  have := readStringLiteral_length _h'
  omega

/-- `parse_ignore_dic_word`: the words of a `(skk-ignore-dic-word "w1" "w2" ...)` form. -/
def parseIgnoreDicWord (s : Str) : Option (List Str) := do
  parseStringList (← splitHead s "skk-ignore-dic-word".toList)

/-- `parse_concat`: the text a `(concat "s1" "s2" ...)` form evaluates to, its literals
joined. -/
def parseConcat (s : Str) : Option Str := do
  return (← parseStringList (← splitHead s "concat".toList)).flatten

/-- `classify`: the Lisp form of a candidate word, `none` for a plain word. A word that starts
with a parenthesis is a form, whether or not it is one that is understood. -/
def classify (word : Str) : Option LispForm :=
  if word.head? ≠ some '(' then none
  else
    match parseIgnoreDicWord word with
    | some words => some (.ignoreDicWord words)
    | none => some .unknown

/-- The loop of `sexp_end`. It returns the two sides of the end instead of its offset.
Parentheses count outside literals only, and a quote counts unless it is escaped. -/
def sexpScan (depth : Nat) (inString escaped : Bool) : Str → Option (Str × Str)
  | [] => none
  | c :: cs =>
      let next := fun depth inString escaped =>
        (sexpScan depth inString escaped cs).map fun p => (c :: p.1, p.2)
      if inString then
        if escaped then next depth true false
        else if c = '\\' then next depth true true
        else if c = '"' then next depth false false
        else next depth true false
      else if c = '"' then next depth true false
      else if c = '(' then next (depth + 1) false false
      else if c = ')' then
        -- The parenthesis that closes the first one ends the form.
        if depth - 1 = 0 then some ([c], cs) else next (depth - 1) false false
      else next depth false false

/-- `sexp_end`: the S-expression a field starts with, and what follows it; none when it is not
closed. -/
def sexpEnd (s : Str) : Option (Str × Str) :=
  if s.head? ≠ some '(' then none else sexpScan 0 false false s

/-! ### Writing -/

/-- `needs_quoting`: the word cannot be written verbatim. It has a reserved character, or would
be read back as a Lisp form. -/
def needsQuoting (s : Str) : Bool :=
  s.head? = some '(' || s.any fun c => c ∈ ['/', ';', '"', '\\', '\n', '\r']

/-- What is written for a character of a literal. The two separators of a dictionary line are
written in octal, so that they do not occur in the text. -/
def escapeChar (c : Char) : Str :=
  if c = '/' then ['\\', '0', '5', '7']
  else if c = ';' then ['\\', '0', '7', '3']
  else if c = '"' then ['\\', '"']
  else if c = '\\' then ['\\', '\\']
  else if c = '\n' then ['\\', 'n']
  else if c = '\r' then ['\\', 'r']
  else [c]

/-- The text of a literal behind its opening `"`, its closing quote included. -/
def literalText (s : Str) : Str := s.flatMap escapeChar ++ ['"']

/-- `write_string_literal`: a literal with both its quotes. -/
def writeStringLiteral (s : Str) : Str := '"' :: literalText s

/-- `quote_concat`: a text as a form of one literal. -/
def quoteConcat (s : Str) : Str := "(concat ".toList ++ writeStringLiteral s ++ [')']

/-- `quote_if_needed`: a text as it is, or as a form when it could not be read back
otherwise. -/
def quoteIfNeeded (s : Str) : Str := if needsQuoting s then quoteConcat s else s

/-- `render_ignore_dic_word`: a directive with its words, each a literal behind a space. -/
def renderIgnoreDicWord (words : List Str) : Str :=
  "(skk-ignore-dic-word".toList ++ words.flatMap (fun w => ' ' :: writeStringLiteral w) ++ [')']

/-! ### Reading back what was written -/

/-- The characters that structure a dictionary line: `/`, `;` and the newline. -/
def isStructural (c : Char) : Bool := c = '/' || c = ';' || c = '\n'

/-- A character is written as itself, or as an escape that is read back as the character,
whatever follows. Neither has a structural character, and an escape ends in digits, so the scan
for the end of a form passes over it. -/
theorem escapeChar_cases (c : Char) :
    (escapeChar c = [c] ∧ c ≠ '"' ∧ c ≠ '\\' ∧ isStructural c = false) ∨
    ∃ e more, escapeChar c = '\\' :: e :: more ∧ isStructural e = false ∧ more.all Char.isDigit ∧
      ∀ rest, readEscape (e :: (more ++ rest)) = some (c, rest) := by
  -- the six characters that are escaped; for each of them the escape is a closed text
  unfold escapeChar
  by_cases h1 : c = '/'
  · subst h1
    exact .inr ⟨_, _, rfl, rfl, rfl, fun _ => rfl⟩
  by_cases h2 : c = ';'
  · subst h2
    exact .inr ⟨_, _, rfl, rfl, rfl, fun _ => rfl⟩
  by_cases h3 : c = '"'
  · subst h3
    exact .inr ⟨_, _, rfl, rfl, rfl, fun _ => rfl⟩
  by_cases h4 : c = '\\'
  · subst h4
    exact .inr ⟨_, _, rfl, rfl, rfl, fun _ => rfl⟩
  by_cases h5 : c = '\n'
  · subst h5
    exact .inr ⟨_, _, rfl, rfl, rfl, fun _ => rfl⟩
  by_cases h6 : c = '\r'
  · subst h6
    exact .inr ⟨_, _, rfl, rfl, rfl, fun _ => rfl⟩
  · rw [if_neg h1, if_neg h2, if_neg h3, if_neg h4, if_neg h5, if_neg h6]
    exact .inl ⟨rfl, h3, h4, by simp [isStructural, h1, h2, h5]⟩

/-- A digit is neither structural nor special in a literal. -/
theorem isDigit_ne {d : Char} (h : d.isDigit) : d ≠ '"' ∧ d ≠ '\\' ∧ isStructural d = false := by
  refine ⟨(by rintro rfl; cases h), (by rintro rfl; cases h), ?_⟩
  have hslash : d ≠ '/' := by rintro rfl; cases h
  have hsemi : d ≠ ';' := by rintro rfl; cases h
  have hnewline : d ≠ '\n' := by rintro rfl; cases h
  simp [isStructural, hslash, hsemi, hnewline]

/-- A string literal is read back, with what follows it left over. The text read so far is
generalised over, since the reader collects it on the way. The induction is on the text that was
written, one character with its escape at a time. -/
theorem readStringLiteral_literalText (s rest : Str) : ∀ out : Str,
    readStringLiteral out (literalText s ++ rest) = some (out ++ s, rest) := by
  induction s with
  | nil => intro out; simp [literalText, readStringLiteral]
  | cons c s ih =>
      intro out
      have hcons : literalText (c :: s) ++ rest = escapeChar c ++ (literalText s ++ rest) := by
        simp [literalText]
      rw [hcons]
      -- a plain character is read as itself, an escape by the reader of escapes
      rcases escapeChar_cases c with ⟨hplain, hquote, hslash, -⟩ | ⟨e, more, hescape, -, -, hread⟩
      · rw [hplain, List.singleton_append, readStringLiteral, if_neg hquote, if_neg hslash, ih]
        simp
      · rw [hescape, List.cons_append, List.cons_append, readStringLiteral, if_neg (by decide),
          if_pos rfl]
        split
        · rename_i heq
          rw [hread] at heq
          cases heq
          rw [ih]
          simp
        · rename_i heq
          rw [hread] at heq
          cases heq

/-- The form, with its parentheses at the two ends. -/
theorem quoteConcat_eq (s : Str) :
    quoteConcat s = '(' :: ("concat".toList ++ ' ' :: '"' :: literalText s ++ [')']) := rfl

/-- The characters at the ends of a form and of its inside are no white space, so `trim` leaves
it alone. -/
theorem isWhitespace_paren : isWhitespace '(' = false ∧ isWhitespace ')' = false ∧
    isWhitespace 'c' = false ∧ isWhitespace '"' = false := by decide

/-- A text between two characters that are not white space has nothing to trim. Forms are such
texts, between their brackets. -/
theorem trim_cons_append {a b : Char} (ha : isWhitespace a = false) (hb : isWhitespace b = false)
    (s : Str) : trim (a :: s ++ [b]) = a :: s ++ [b] := by
  apply trim_eq_self
  · intro c hc
    cases hc
    exact ha
  · intro c hc
    rw [List.getLast?_concat] at hc
    cases hc
    exact hb

/-- The head is split off a form whose arguments are set off by white space. The text inside
must not end in white space, which a closing quote ensures. -/
theorem splitHead_form {head body : Str} (hne : head ≠ [])
    (hhead : ∀ c, head.head? = some c → isWhitespace c = false)
    (hlast : ∀ c, (head ++ body).getLast? = some c → isWhitespace c = false)
    (hbody : body.head?.all isAsciiWhitespace) :
    splitHead ('(' :: (head ++ body) ++ [')']) head = some (trimStart body) := by
  obtain ⟨hopen, hclose, -, -⟩ := isWhitespace_paren
  have hinner : trim (head ++ body) = head ++ body := by
    refine trim_eq_self (fun c hc => hhead c ?_) hlast
    rwa [List.head?_append_of_ne_nil _ hne] at hc
  have hsuffix : [')'].isSuffixOf? (head ++ body ++ [')']) = some (head ++ body) :=
    List.isSuffixOf?_eq_some_iff_append_eq.mpr rfl
  unfold splitHead
  rw [trim_cons_append hopen hclose, List.cons_append]
  simp only [List.isPrefixOf?, beq_self_eq_true, if_true, hsuffix, hinner, isPrefixOf?_append,
    Option.bind_eq_bind, Option.bind_some]
  exact if_pos hbody

/-- The space in front of a literal is all there is to trim. -/
theorem trimStart_space_literal (s : Str) : trimStart (' ' :: '"' :: s) = '"' :: s := by
  obtain ⟨-, -, -, hquote⟩ := isWhitespace_paren
  rw [trimStart, List.dropWhile_cons_of_pos (by decide),
    List.dropWhile_cons_of_neg (by rw [hquote]; decide)]

/-- The head of a written `concat` form is split off, and its literal is left. A written form
has no blank around its parts, so the trims of the reader cut nothing off. -/
theorem splitHead_quoteConcat (s : Str) :
    splitHead (quoteConcat s) "concat".toList = some (writeStringLiteral s) := by
  obtain ⟨-, -, hc, hquote⟩ := isWhitespace_paren
  have hhead : ∀ c, "concat".toList.head? = some c → isWhitespace c = false := by
    intro c hfirst
    cases hfirst
    exact hc
  have hlast : ∀ c, ("concat".toList ++ ' ' :: '"' :: literalText s).getLast? = some c →
      isWhitespace c = false := by
    intro c hend
    have htext : "concat".toList ++ ' ' :: '"' :: literalText s =
        ("concat".toList ++ ' ' :: '"' :: s.flatMap escapeChar) ++ ['"'] := by
      simp [literalText]
    rw [htext, List.getLast?_concat] at hend
    cases hend
    exact hquote
  rw [quoteConcat_eq, ← List.cons_append, splitHead_form (by decide) hhead hlast rfl,
    trimStart_space_literal, writeStringLiteral]

/-- A text that splits at a head symbol is a form that starts with it. Either the text is no
form with this head, and the split fails, or its body is the head and a rest. Then the split
still asks for a blank, or for nothing, behind the head. The two cases are all there are, so a
proof about a reader of forms needs no further look at the parentheses. -/
theorem splitHead_cases (s head : Str) :
    (splitHead s head = none ∧ ∀ body, trim s = '(' :: body ++ [')'] → ¬ head <+: trim body) ∨
    ∃ body rest, trim s = '(' :: body ++ [')'] ∧ trim body = head ++ rest ∧
      splitHead s head =
        if rest.head?.all isAsciiWhitespace then some (trimStart rest) else none := by
  unfold splitHead
  -- the three tests of the reader, in its order: the opening parenthesis, the closing one, the
  -- head
  cases hopen : ['('].isPrefixOf? (trim s) with
  | none =>
      refine .inl ⟨rfl, ?_⟩
      intro body htrim
      rw [htrim] at hopen
      cases hopen
  | some inner =>
  have htrim : trim s = '(' :: inner := (List.isPrefixOf?_eq_some_iff_append_eq.mp hopen).symm
  dsimp only [Option.bind_eq_bind, Option.bind_some]
  cases hclose : [')'].isSuffixOf? inner with
  | none =>
      refine .inl ⟨rfl, ?_⟩
      intro body htrim'
      rw [htrim, List.cons_append, List.cons.injEq] at htrim'
      rw [htrim'.2, List.isSuffixOf?_eq_some_iff_append_eq.mpr rfl] at hclose
      cases hclose
  | some body =>
  have hinner : inner = body ++ [')'] :=
    (List.isSuffixOf?_eq_some_iff_append_eq.mp hclose).symm
  subst hinner
  dsimp only [Option.bind_some]
  cases hhead : head.isPrefixOf? (trim body) with
  | none =>
      refine .inl ⟨rfl, ?_⟩
      rintro body' htrim' ⟨rest, hrest⟩
      rw [htrim, List.cons_append, List.cons.injEq] at htrim'
      rw [List.append_cancel_right htrim'.2,
        List.isPrefixOf?_eq_some_iff_append_eq.mpr hrest] at hhead
      cases hhead
  | some rest =>
      exact .inr ⟨body, rest, htrim, (List.isPrefixOf?_eq_some_iff_append_eq.mp hhead).symm, rfl⟩

/-- One round of the loop: white space is skipped, then comes the end of the text or a literal.
The definition has to match on the result of the reader for its recursion to go down, so this
equation with `Option.bind` is the one the proofs use. -/
theorem parseStringList_eq (rest : Str) :
    parseStringList rest =
      match rest.dropWhile isAsciiWhitespace with
      | [] => some []
      | c :: cs =>
          if c = '"' then
            (readStringLiteral [] cs).bind fun p => (parseStringList p.2).map (p.1 :: ·)
          else none := by
  rw [parseStringList]
  split
  · rename_i heq
    rw [heq]
  · rename_i c cs heq
    rw [heq]
    dsimp only
    split
    · split
      · rename_i hread
        rw [hread]
        rfl
      · rename_i hread
        rw [hread]
        rfl
    · rfl

/-- The empty text is a list of no literals. -/
theorem parseStringList_nil : parseStringList [] = some [] := by
  rw [parseStringList_eq]
  rfl

/-- White space in front of a list does not matter. -/
theorem parseStringList_space (s : Str) : parseStringList (' ' :: s) = parseStringList s := by
  rw [parseStringList_eq, parseStringList_eq s]
  rfl

/-- A literal is the first word of the list, and the rest of the text is the rest of the
list. -/
theorem parseStringList_writeStringLiteral (s rest : Str) :
    parseStringList (writeStringLiteral s ++ rest) = (parseStringList rest).map (s :: ·) := by
  have hread := readStringLiteral_literalText s rest []
  rw [List.nil_append] at hread
  rw [parseStringList_eq, writeStringLiteral, List.cons_append,
    List.dropWhile_cons_of_neg (by decide)]
  dsimp only
  rw [if_pos rfl, hread]
  rfl

/-- A `concat` form evaluates to the text it was written for. -/
theorem parseConcat_quoteConcat (s : Str) : parseConcat (quoteConcat s) = some s := by
  unfold parseConcat
  have hwords := parseStringList_writeStringLiteral s []
  rw [List.append_nil, parseStringList_nil] at hwords
  rw [splitHead_quoteConcat, Option.bind_eq_bind, Option.bind_some, hwords, Option.map_some,
    Option.bind_eq_bind, Option.bind_some]
  simp

/-- Inside a literal the scan passes over plain characters, and brackets are plain there. -/
theorem sexpScan_plain (depth : Nat) {s : Str} (h : ∀ c ∈ s, c ≠ '"' ∧ c ≠ '\\') (rest : Str) :
    sexpScan depth true false (s ++ rest)
      = (sexpScan depth true false rest).map fun p => (s ++ p.1, p.2) := by
  induction s with
  | nil => simp
  | cons c s ih =>
      obtain ⟨hquote, hslash⟩ := h c List.mem_cons_self
      rw [List.cons_append, sexpScan]
      simp only [if_true, Bool.false_eq_true, if_false, hslash, hquote,
        ih fun d hd => h d (List.mem_cons_of_mem _ hd), Option.map_map]
      rfl

/-- Inside a literal the scan passes over the escapes of a text. The backslash takes the next
character with it, and what an escape has behind that are digits. -/
theorem sexpScan_flatMap_escapeChar (depth : Nat) (s rest : Str) :
    sexpScan depth true false (s.flatMap escapeChar ++ rest)
      = (sexpScan depth true false rest).map fun p => (s.flatMap escapeChar ++ p.1, p.2) := by
  induction s with
  | nil => simp
  | cons c s ih =>
      rw [List.flatMap_cons, List.append_assoc]
      rcases escapeChar_cases c with ⟨hplain, hquote, hslash, -⟩ | ⟨e, more, hescape, -, hdigits, -⟩
      · rw [hplain, sexpScan_plain depth (by simp [hquote, hslash]), ih, Option.map_map]
        simp [Function.comp_def]
      · -- digits are neither a quote nor a backslash, so the scan passes over them as plain text
        have hmore : ∀ d ∈ more, d ≠ '"' ∧ d ≠ '\\' := fun d hd =>
          have hne := isDigit_ne (List.all_eq_true.mp hdigits d hd)
          ⟨hne.1, hne.2.1⟩
        have hstep : sexpScan depth true false (escapeChar c ++ (s.flatMap escapeChar ++ rest))
            = (sexpScan depth true false (more ++ (s.flatMap escapeChar ++ rest))).map
                fun p => ('\\' :: e :: p.1, p.2) := by
          rw [hescape]
          simp [sexpScan, Function.comp_def]
        rw [hstep, sexpScan_plain depth hmore, ih, hescape]
        simp [Function.comp_def]

/-- Behind its opening quote a literal is passed over as a whole, and the scan is outside
again. -/
theorem sexpScan_literalText (depth : Nat) (s rest : Str) :
    sexpScan depth true false (literalText s ++ rest)
      = (sexpScan depth false false rest).map fun p => (literalText s ++ p.1, p.2) := by
  have hclose : sexpScan depth true false ('"' :: rest)
      = (sexpScan depth false false rest).map fun p => ('"' :: p.1, p.2) := rfl
  rw [literalText, List.append_assoc, List.singleton_append, sexpScan_flatMap_escapeChar, hclose,
    Option.map_map]
  simp [Function.comp_def]

/-- Outside of the literals the scan passes over symbols and white space; only brackets and
quotes change its state. -/
theorem sexpScan_symbol (depth : Nat) {s : Str}
    (h : s.all fun c => c ≠ '"' ∧ c ≠ '(' ∧ c ≠ ')') (rest : Str) :
    sexpScan depth false false (s ++ rest)
      = (sexpScan depth false false rest).map fun p => (s ++ p.1, p.2) := by
  induction s with
  | nil => simp
  | cons c s ih =>
      rw [List.all_cons, Bool.and_eq_true, decide_eq_true_eq] at h
      obtain ⟨⟨hquote, hopen, hclose⟩, hs⟩ := h
      rw [List.cons_append, sexpScan]
      simp only [Bool.false_eq_true, if_false, hquote, hopen, hclose, ih hs, Option.map_map]
      rfl

/-- A form of a symbol and string literals ends where it was written to end, whatever follows
it. The symbol must not have a quote or a parenthesis in it. A parenthesis inside a literal does
not count, which is why the scan keeps track of being in a string. -/
theorem sexpEnd_form {head : Str} (hhead : head.all fun c => c ≠ '"' ∧ c ≠ '(' ∧ c ≠ ')')
    (words : List Str) (rest : Str) :
    sexpEnd ('(' :: (head ++ (words.flatMap fun w => ' ' :: writeStringLiteral w) ++ [')']) ++ rest)
      = some ('(' :: (head ++ (words.flatMap fun w => ' ' :: writeStringLiteral w) ++ [')']),
          rest) := by
  -- at depth one the scan reads the literals one by one, then the parenthesis that closes
  have hwords : sexpScan 1 false false
      ((words.flatMap fun w => ' ' :: writeStringLiteral w) ++ ')' :: rest) =
        some ((words.flatMap fun w => ' ' :: writeStringLiteral w) ++ [')'], rest) := by
    induction words with
    | nil => rfl
    | cons w words ih =>
        have hliteral : ∀ text, sexpScan 1 false false (' ' :: '"' :: text) =
            (sexpScan 1 true false text).map fun p => (' ' :: '"' :: p.1, p.2) := by
          intro text
          simp [sexpScan, Function.comp_def]
        rw [List.flatMap_cons, List.append_assoc, writeStringLiteral, List.cons_append,
          List.cons_append, hliteral, sexpScan_literalText, ih]
        simp
  have hopen : ∀ text, sexpScan 0 false false ('(' :: text) =
      (sexpScan 1 false false text).map fun p => ('(' :: p.1, p.2) := by
    intro text
    simp [sexpScan]
  rw [sexpEnd, List.cons_append, if_neg (by simp), hopen, List.append_assoc, List.append_assoc,
    List.singleton_append, sexpScan_symbol 1 hhead, hwords]
  simp

/-- A `concat` form ends where it was written to end. -/
theorem sexpEnd_quoteConcat (s rest : Str) :
    sexpEnd (quoteConcat s ++ rest) = some (quoteConcat s, rest) := by
  have hhead : "concat".toList.all fun c => c ≠ '"' ∧ c ≠ '(' ∧ c ≠ ')' := by decide
  have hform := sexpEnd_form hhead [s] rest
  rw [List.flatMap_singleton] at hform
  exact hform

/-! ### Directives -/

/-- The words of a directive as they are written, each behind a space, are read back as a
list. -/
theorem parseStringList_words (words : List Str) :
    parseStringList (words.flatMap fun w => ' ' :: writeStringLiteral w) = some words := by
  induction words with
  | nil => exact parseStringList_nil
  | cons w words ih =>
      rw [List.flatMap_cons, List.cons_append, parseStringList_space,
        parseStringList_writeStringLiteral, ih]
      rfl

/-- The text of a non-empty list of words ends in a quote. -/
theorem getLast?_words (words : List Str) (w : Str) :
    ((words ++ [w]).flatMap fun w => ' ' :: writeStringLiteral w).getLast? = some '"' := by
  have hlast : ' ' :: writeStringLiteral w = (' ' :: '"' :: w.flatMap escapeChar) ++ ['"'] := rfl
  rw [List.flatMap_append, List.flatMap_singleton, hlast, ← List.append_assoc,
    List.getLast?_concat]

/-- The head of a written directive is split off, and its words are left. As with `concat`, the
text starts with the head and ends with a quote, or with the head when there are no words. -/
theorem splitHead_renderIgnoreDicWord (words : List Str) :
    splitHead (renderIgnoreDicWord words) "skk-ignore-dic-word".toList =
      some (trimStart (words.flatMap fun w => ' ' :: writeStringLiteral w)) := by
  have hhead : ∀ c, "skk-ignore-dic-word".toList.head? = some c → isWhitespace c = false := by
    intro c hfirst
    cases hfirst
    decide
  have hlast : ∀ c, ("skk-ignore-dic-word".toList ++
      words.flatMap fun w => ' ' :: writeStringLiteral w).getLast? = some c →
      isWhitespace c = false := by
    intro c hend
    rcases words.eq_nil_or_concat with rfl | ⟨init, w, rfl⟩
    · cases hend
      decide
    · rw [List.concat_eq_append, List.getLast?_append, getLast?_words] at hend
      cases hend
      decide
  have hbody : (words.flatMap fun w => ' ' :: writeStringLiteral w).head?.all
      isAsciiWhitespace := by
    cases words with
    | nil => rfl
    | cons w words => rfl
  rw [← splitHead_form (by decide) hhead hlast hbody]
  rfl

/-- A directive is read back with its words, also when it has none. -/
theorem classify_renderIgnoreDicWord (words : List Str) :
    classify (renderIgnoreDicWord words) = some (.ignoreDicWord words) := by
  have hwords : parseIgnoreDicWord (renderIgnoreDicWord words) = some words := by
    unfold parseIgnoreDicWord
    rw [splitHead_renderIgnoreDicWord, Option.bind_eq_bind, Option.bind_some]
    cases words with
    | nil => exact parseStringList_nil
    | cons w words =>
        rw [← parseStringList_words (w :: words), List.flatMap_cons, List.cons_append,
          parseStringList_space, writeStringLiteral, List.cons_append, trimStart_space_literal]
  have hhead : (renderIgnoreDicWord words).head? = some '(' := rfl
  rw [classify, if_neg (by simp [hhead]), hwords]

/-- A directive ends where it was written to end. -/
theorem sexpEnd_renderIgnoreDicWord (words : List Str) (rest : Str) :
    sexpEnd (renderIgnoreDicWord words ++ rest) = some (renderIgnoreDicWord words, rest) := by
  have hhead : "skk-ignore-dic-word".toList.all fun c => c ≠ '"' ∧ c ≠ '(' ∧ c ≠ ')' := by
    decide
  exact sexpEnd_form hhead words rest

/-! ### What a written word does not contain -/

/-- No escape has a structural character in it, so a quoted text cannot end a field or a line of
the file. -/
theorem not_isStructural_of_mem_escapeChar {r c : Char} (h : r ∈ escapeChar c) :
    isStructural r = false := by
  rcases escapeChar_cases c with ⟨hplain, -, -, hc⟩ | ⟨e, more, hescape, he, hdigits, -⟩
  · rw [hplain, List.mem_singleton] at h
    rwa [h]
  · rw [hescape, List.mem_cons, List.mem_cons] at h
    rcases h with rfl | rfl | hmore
    · rfl
    · exact he
    · exact (isDigit_ne (List.all_eq_true.mp hdigits r hmore)).2.2

/-- No escape has a carriage return in it, so a line that ends in one is not mistaken for one
with a Windows line end. -/
theorem carriageReturn_not_mem_escapeChar (c : Char) : '\r' ∉ escapeChar c := by
  by_cases hcr : c = '\r'
  · subst hcr
    decide
  · have hcr' : ¬ '\r' = c := fun h => hcr h.symm
    unfold escapeChar
    split_ifs <;> simp [hcr']

/-- What is written for a string literal: its quotes, and its characters as they are escaped. -/
theorem mem_writeStringLiteral {r : Char} {s : Str} (h : r ∈ writeStringLiteral s) :
    r = '"' ∨ ∃ c, r ∈ escapeChar c := by
  rcases List.mem_cons.mp h with rfl | h
  · exact .inl rfl
  rcases List.mem_append.mp h with hescaped | hclose
  · obtain ⟨c, -, hc⟩ := List.mem_flatMap.mp hescaped
    exact .inr ⟨c, hc⟩
  · exact .inl (List.mem_singleton.mp hclose)

/-- What is written for a `concat` form: the characters of the form itself, and escapes. -/
theorem mem_quoteConcat {r : Char} {s : Str} (h : r ∈ quoteConcat s) :
    r ∈ "(concat )\"".toList ∨ ∃ c, r ∈ escapeChar c := by
  rcases List.mem_append.mp h with h | hclose
  · rcases List.mem_append.mp h with hopen | hword
    · exact .inl (List.mem_append_left [')', '"'] hopen)
    · rcases mem_writeStringLiteral hword with rfl | hescaped
      · exact .inl (by decide)
      · exact .inr hescaped
  · rw [List.mem_singleton.mp hclose]
    exact .inl (by decide)

/-- What is written for a word or an annotation. A text that is not quoted is its own escape,
since none of its characters is reserved. -/
theorem mem_quoteIfNeeded {r : Char} {s : Str} (h : r ∈ quoteIfNeeded s) :
    r ∈ "(concat )\"".toList ∨ ∃ c, r ∈ escapeChar c := by
  unfold quoteIfNeeded at h
  split at h
  · exact mem_quoteConcat h
  · rename_i hplain
    have hreserved : r ∉ ['/', ';', '"', '\\', '\n', '\r'] := fun hr =>
      hplain (by
        rw [needsQuoting, Bool.or_eq_true]
        exact .inr (List.any_eq_true.mpr ⟨r, h, decide_eq_true hr⟩))
    simp only [List.mem_cons, List.not_mem_nil, or_false, not_or] at hreserved
    obtain ⟨h1, h2, h3, h4, h5, h6⟩ := hreserved
    exact .inr ⟨r, by simp [escapeChar, h1, h2, h3, h4, h5, h6]⟩

/-- What is written for a directive: the characters of the form itself, and escapes. -/
theorem mem_renderIgnoreDicWord {r : Char} {words : List Str} (h : r ∈ renderIgnoreDicWord words) :
    r ∈ "(skk-ignore-dic-word )\"".toList ∨ ∃ c, r ∈ escapeChar c := by
  rcases List.mem_append.mp h with h | hclose
  · rcases List.mem_append.mp h with hopen | hwords
    · exact .inl (List.mem_append_left [' ', ')', '"'] hopen)
    · obtain ⟨word, -, hword⟩ := List.mem_flatMap.mp hwords
      rcases List.mem_cons.mp hword with rfl | hword
      · exact .inl (by decide)
      · rcases mem_writeStringLiteral hword with rfl | hescaped
        · exact .inl (by decide)
        · exact .inr hescaped
  · rw [List.mem_singleton.mp hclose]
    exact .inl (by decide)

/-- What is written for a word or an annotation does not structure its line. -/
theorem not_isStructural_of_mem_quoteIfNeeded {r : Char} {s : Str} (h : r ∈ quoteIfNeeded s) :
    isStructural r = false := by
  rcases mem_quoteIfNeeded h with hconst | ⟨c, hc⟩
  · have hnone : "(concat )\"".toList.any isStructural = false := rfl
    simpa using List.any_eq_false.mp hnone r hconst
  · exact not_isStructural_of_mem_escapeChar hc

/-- A directive does not structure its line: its words are escaped. -/
theorem not_isStructural_of_mem_renderIgnoreDicWord {r : Char} {words : List Str}
    (h : r ∈ renderIgnoreDicWord words) : isStructural r = false := by
  rcases mem_renderIgnoreDicWord h with hconst | ⟨c, hc⟩
  · have hnone : "(skk-ignore-dic-word )\"".toList.any isStructural = false := rfl
    simpa using List.any_eq_false.mp hnone r hconst
  · exact not_isStructural_of_mem_escapeChar hc

end Y2Skk
