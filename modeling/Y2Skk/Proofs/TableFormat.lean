import Y2Skk.Kana.Parser

/-!
# `Y2Skk.Proofs.TableFormat`: rules as lines of a kana table

`tableText` writes one line for each rule, with `#`, `*` and `\` escaped. The reader cuts
the comment off first (`findCommentStart_iff` says which `#` starts one), then the white
space at the end, and looks for a section header before it splits and unescapes the
fields.

## Comments

A `#` starts a comment when an even number of backslashes stands in front of it. The loop
of the reader carries one flag, and `commentLoop_iff` is its invariant: the flag is set
when an odd number of backslashes ends what has been read.

## Fields and lines

`unescape_escapeField` reads an escaped field back. `tableLine_ruleLine` follows a line
through the steps of the reader, and `splitN_three` and `splitN_four` split it again.

## What is lost

`parseTable_tableText` reads the rules back. Two things are lost by the order of the
steps: spaces at the end of the output are cut off, and a state that starts with `[` makes
its line a section header. Lines that end in an empty field are left out of the statement:
the reader cuts tabs off as well, which its comment denies.
-/

set_option autoImplicit false

namespace Y2Skk

open Utf8

/-! ### Comments -/

/-- The number of backslashes a text ends in. -/
def trailingBackslashes (s : Str) : Nat := (s.reverse.takeWhile (· = '\\')).length

/-- A backslash at the end adds one, and any other character ends the row. A character is
escaped when the number in front of it is odd. -/
theorem trailingBackslashes_concat (s : Str) (c : Char) :
    trailingBackslashes (s ++ [c]) = if c = '\\' then trailingBackslashes s + 1 else 0 := by
  unfold trailingBackslashes
  rw [List.reverse_append, List.reverse_singleton, List.singleton_append]
  by_cases hc : c = '\\'
  · rw [if_pos hc, List.takeWhile_cons_of_pos (by simpa using hc), List.length_cons]
  · rw [if_neg hc, List.takeWhile_cons_of_neg (by simpa using hc)]
    rfl

/-- An unescaped `#` at a position: the number of backslashes in front of it is even. -/
def startsComment (raw : Str) (pos : Nat) : Prop :=
  raw[pos]? = some '#' ∧ trailingBackslashes (raw.take pos) % 2 = 0

/-- What is the first comment from a position on is the first from the next position, when no
comment starts at this one. -/
theorem startsComment_skip {raw : Str} {start pos : Nat} (hnot : ¬ startsComment raw start) :
    (start + 1 ≤ pos ∧ startsComment raw pos ∧
      ∀ q, start + 1 ≤ q → q < pos → ¬ startsComment raw q) ↔
    (start ≤ pos ∧ startsComment raw pos ∧ ∀ q, start ≤ q → q < pos → ¬ startsComment raw q) := by
  constructor
  · rintro ⟨hle, hpos, hfirst⟩
    refine ⟨by omega, hpos, fun q hq hlt => ?_⟩
    rcases Nat.eq_or_lt_of_le hq with rfl | hq
    · exact hnot
    · exact hfirst q hq hlt
  · rintro ⟨hle, hpos, hfirst⟩
    refine ⟨?_, hpos, fun q hq hlt => hfirst q (by omega) hlt⟩
    rcases Nat.eq_or_lt_of_le hle with rfl | hlt
    · exact (hnot hpos).elim
    · exact hlt

/-- A character escapes the next one when it is a backslash that is not escaped itself. -/
theorem escaped_concat (before : Str) (c : Char) :
    decide (trailingBackslashes (before ++ [c]) % 2 = 1) =
      (!decide (trailingBackslashes before % 2 = 1) && decide (c = '\\')) := by
  rw [trailingBackslashes_concat]
  by_cases hback : c = '\\'
  · have hparity : (trailingBackslashes before + 1) % 2 = 1 ↔
        ¬ trailingBackslashes before % 2 = 1 := by omega
    rw [if_pos hback, decide_eq_decide.mpr hparity, decide_not, decide_eq_true hback,
      Bool.and_true]
  · simp [hback]

/-- A character that starts no comment is passed, and the flag says whether the next one is
escaped. -/
theorem commentLoop_cons {escaped : Bool} {c : Char} (h : ¬ (c = '#' ∧ escaped = false))
    (pos : Nat) (raw : Str) :
    commentLoop escaped pos (c :: raw) =
      commentLoop (!escaped && decide (c = '\\')) (pos + 1) raw := by
  rw [commentLoop]
  cases escaped with
  | true => rfl
  | false =>
      have hhash : c ≠ '#' := fun hc => h ⟨hc, rfl⟩
      by_cases hback : c = '\\'
      · simp [hback]
      · simp [hback, hhash]

/-- The loop stands behind `before`, escaped when an odd number of backslashes ends it. It finds
the first place at which a comment starts. -/
theorem commentLoop_iff (raw : Str) : ∀ (before : Str) (pos : Nat),
    commentLoop (decide (trailingBackslashes before % 2 = 1)) before.length raw = some pos ↔
      before.length ≤ pos ∧ startsComment (before ++ raw) pos ∧
        ∀ q, before.length ≤ q → q < pos → ¬ startsComment (before ++ raw) q := by
  induction raw with
  | nil =>
      intro before pos
      rw [commentLoop, List.append_nil]
      refine iff_of_false (by simp) ?_
      rintro ⟨hle, ⟨hhash, -⟩, -⟩
      rw [List.getElem?_eq_none hle] at hhash
      cases hhash
  | cons c raw ih =>
      intro before pos
      have hhere : startsComment (before ++ c :: raw) before.length ↔
          c = '#' ∧ decide (trailingBackslashes before % 2 = 1) = false := by
        simp [startsComment]
      by_cases hstarts : startsComment (before ++ c :: raw) before.length
      · -- The comment starts here, and nothing stands between.
        obtain ⟨rfl, heven⟩ := hhere.mp hstarts
        rw [heven, show commentLoop false before.length ('#' :: raw) = some before.length from rfl,
          Option.some.injEq]
        constructor
        · rintro rfl
          exact ⟨Nat.le_refl _, hstarts, fun q hq hlt => by omega⟩
        · rintro ⟨hle, -, hfirst⟩
          by_contra hne
          exact hfirst before.length (Nat.le_refl _) (by omega) hstarts
      · -- The loop goes on behind the character.
        have hnext := ih (before ++ [c]) pos
        rw [List.append_assoc, List.singleton_append, List.length_append, List.length_singleton,
          escaped_concat] at hnext
        rw [commentLoop_cons fun h => hstarts (hhere.mpr h), hnext]
        exact startsComment_skip hstarts

/-- A comment starts at the first `#` that is not escaped. -/
theorem findCommentStart_iff (raw : Str) (pos : Nat) :
    findCommentStart raw = some pos ↔
      startsComment raw pos ∧ ∀ q < pos, ¬ startsComment raw q := by
  have hloop := commentLoop_iff raw [] pos
  rw [findCommentStart]
  simpa [trailingBackslashes] using hloop

/-! ### Writing -/

/-- A field with `#`, `*` and `\` escaped. -/
def escapeField (s : Str) : Str :=
  s.flatMap fun c => if c = '#' ∨ c = '*' ∨ c = '\\' then ['\\', c] else [c]

/-- The input field: a bare `*` for the wildcard. -/
def inputField : KanaInput → Str
  | .char c => escapeField [c]
  | .wildcard => ['*']

/-- What is written in front of the output. -/
def ruleHead (t : KanaTransition) : Str :=
  escapeField t.fromState ++ '\t' :: (inputField t.input ++ '\t' :: escapeField t.toState)

/-- The line of a rule: its head, and its output behind a tab. -/
def ruleLine (t : KanaTransition) : Str := ruleHead t ++ '\t' :: escapeField t.output

/-- A table of the given rules. -/
def tableText (rules : List KanaTransition) : Str :=
  "[trans]\n".toList ++ rules.flatMap fun t => ruleLine t ++ ['\n']

/-- A character that ends a field or a line. -/
def isBreak (c : Char) : Bool := c = '\t' || c = '\r' || c = '\n'

/-- The strings of a rule have no tab, carriage return or newline in them. -/
structure KanaTransition.Plain (t : KanaTransition) : Prop where
  fromState : ∀ c ∈ t.fromState, isBreak c = false
  input : ∀ c, t.input = .char c → isBreak c = false
  toState : ∀ c ∈ t.toState, isBreak c = false
  output : ∀ c ∈ t.output, isBreak c = false

/-- A text without the spaces at its end. -/
def dropSpaces (s : Str) : Str := s.rdropWhile (· = ' ')

/-- The rule as it is read back. -/
def KanaTransition.withoutTrailingSpaces (t : KanaTransition) : KanaTransition :=
  { t with output := dropSpaces t.output }

/-- The line of the rule does not end in a tab, but for spaces, or the field in front of that
tab is the last one that matters and ends in no space. -/
def KanaTransition.EndsInField (t : KanaTransition) : Prop :=
  dropSpaces t.output ≠ [] ∨ t.toState ≠ [] ∧ t.toState.getLast? ≠ some ' '

/-! ### Fields -/

/-- A field is escaped character by character. -/
theorem escapeField_cons (c : Char) (s : Str) : escapeField (c :: s) =
    (if c = '#' ∨ c = '*' ∨ c = '\\' then ['\\', c] else [c]) ++ escapeField s := rfl

/-- Two texts are escaped one after the other. -/
theorem escapeField_append (s s' : Str) :
    escapeField (s ++ s') = escapeField s ++ escapeField s' := List.flatMap_append

/-- Only the empty text is escaped to nothing. -/
theorem escapeField_eq_nil {s : Str} : escapeField s = [] ↔ s = [] := by
  cases s with
  | nil => exact iff_of_true rfl rfl
  | cons c s =>
      rw [escapeField_cons]
      split <;> simp

/-- Escaping adds backslashes and nothing else. -/
theorem mem_escapeField {r : Char} {s : Str} (h : r ∈ escapeField s) : r = '\\' ∨ r ∈ s := by
  obtain ⟨c, hc, hr⟩ := List.mem_flatMap.mp h
  split at hr
  · rcases List.mem_cons.mp hr with rfl | hr
    · exact .inl rfl
    · exact .inr (List.mem_singleton.mp hr ▸ hc)
  · exact .inr (List.mem_singleton.mp hr ▸ hc)

/-- So a text without a tab has none when it is escaped. -/
theorem tab_not_mem_escapeField {s : Str} (h : ∀ c ∈ s, isBreak c = false) :
    '\t' ∉ escapeField s := by
  intro hmem
  rcases mem_escapeField hmem with heq | hmem
  · cases heq
  · have hbreak := h '\t' hmem
    cases hbreak

/-- An escaped field is read back. The three characters that mean something in a table are
written with a backslash, and the reader takes the character behind a backslash as it is. -/
theorem unescape_escapeField (s : Str) (lineNum : Nat) :
    unescape (escapeField s) lineNum = .ok s := by
  induction s with
  | nil => rfl
  | cons c s ih =>
      rw [escapeField_cons]
      by_cases hc : c = '#' ∨ c = '*' ∨ c = '\\'
      · rw [if_pos hc, List.cons_append, List.cons_append, List.nil_append, unescape, if_pos rfl,
          if_pos hc, ih]
        rfl
      · rw [if_neg hc, List.singleton_append]
        have hback : c ≠ '\\' := fun h => hc (.inr (.inr h))
        cases hrest : escapeField s with
        | nil =>
            rw [unescape, if_neg hback]
            rw [escapeField_eq_nil.mp hrest]
        | cons e rest =>
            rw [unescape, if_neg hback, ← hrest, ih]
            rfl

/-- An input field is read back: a bare `*` is the wildcard, and an escaped one the
character. -/
theorem parseInputSpec_inputField (input : KanaInput) (lineNum : Nat) :
    parseInputSpec (inputField input) lineNum = .ok input := by
  cases input with
  | wildcard => rfl
  | char c =>
      have hne : escapeField [c] ≠ ['*'] := by
        rw [escapeField_cons]
        split
        · simp [escapeField]
        · rename_i hc
          intro heq
          rw [escapeField, List.flatMap_nil, List.append_nil, List.cons.injEq] at heq
          exact hc (.inr (.inl heq.1))
      rw [parseInputSpec, inputField, if_neg hne, unescape_escapeField]
      rfl

/-- No comment starts in an escaped field: each `#` in it has a backslash in front, and each
backslash one of its own. -/
theorem commentLoop_escapeField {rest : Str} (h : ∀ pos, commentLoop false pos rest = none)
    (s : Str) : ∀ pos, commentLoop false pos (escapeField s ++ rest) = none := by
  induction s with
  | nil => exact h
  | cons c s ih =>
      intro pos
      rw [escapeField_cons, List.append_assoc]
      by_cases hc : c = '#' ∨ c = '*' ∨ c = '\\'
      · rw [if_pos hc]
        exact ih (pos + 2)
      · rw [if_neg hc, List.singleton_append, commentLoop, if_neg (by simp),
          if_neg fun h => hc (.inr (.inr h)), if_neg fun h => hc (.inl h)]
        exact ih (pos + 1)

/-- Nothing of the line of a rule is taken for a comment, since all its fields are escaped and
only tabs stand between them. -/
theorem stripComment_ruleLine (t : KanaTransition) : stripComment (ruleLine t) = ruleLine t := by
  have htab : ∀ {rest : Str}, (∀ pos, commentLoop false pos rest = none) →
      ∀ pos, commentLoop false pos ('\t' :: rest) = none := fun h pos => h (pos + 1)
  have hnil : ∀ pos, commentLoop false pos [] = none := fun _ => rfl
  have hinput : ∀ {rest : Str}, (∀ pos, commentLoop false pos rest = none) →
      ∀ pos, commentLoop false pos (inputField t.input ++ rest) = none := by
    intro rest h pos
    cases t.input with
    | char c => exact commentLoop_escapeField h [c] pos
    | wildcard => exact h (pos + 1)
  have houtput := htab (commentLoop_escapeField hnil t.output)
  have hline := commentLoop_escapeField (htab (hinput (htab
    (commentLoop_escapeField houtput t.toState)))) t.fromState 0
  have hnone : findCommentStart (ruleLine t) = none := by
    rw [← hline, findCommentStart, ruleLine, ruleHead]
    simp
  rw [stripComment, hnone]

/-! ### The end of a line -/

/-- What is cut off at the end of two texts reaches into the first one only when the second one
goes. -/
theorem rdropWhile_append {p : Char → Bool} (a b : Str) :
    (a ++ b).rdropWhile p =
      if b.rdropWhile p = [] then a.rdropWhile p else a ++ b.rdropWhile p := by
  rw [List.rdropWhile, List.rdropWhile, List.rdropWhile, List.reverse_append, List.dropWhile_append]
  by_cases hb : b.reverse.dropWhile p = []
  · simp [hb]
  · simp [hb]

/-- Of an escaped field only spaces are cut off: tabs and line breaks are not among the
characters of a plain one. -/
theorem rdropWhile_escapeField {s : Str} (h : ∀ c ∈ s, isBreak c = false) :
    (escapeField s).rdropWhile isLineEnd = escapeField (dropSpaces s) := by
  induction s using List.reverseRecOn with
  | nil => rfl
  | append_singleton s c ih =>
      have hc := h c (by simp)
      rw [dropSpaces, escapeField_append, rdropWhile_append, rdropWhile_append]
      by_cases hspace : c = ' '
      · subst hspace
        rw [if_pos (by decide), if_pos (by decide), ih fun d hd => h d (by simp [hd])]
        rfl
      · -- The last character stays, and everything in front of it.
        have hend : isLineEnd c = false := by
          have hne : ¬ c = ' ' := hspace
          rw [isBreak] at hc
          rw [isLineEnd]
          simpa [hne] using hc
        have hfield : (escapeField [c]).rdropWhile isLineEnd = escapeField [c] := by
          rw [escapeField_cons]
          split <;> simp [escapeField, List.rdropWhile, hend]
        have hchar : [c].rdropWhile (· = ' ') = [c] := by
          simp [List.rdropWhile, hspace]
        have hne : escapeField [c] ≠ [] := fun h => by cases escapeField_eq_nil.mp h
        rw [hfield, if_neg hne, hchar, if_neg (List.cons_ne_nil _ _), escapeField_append]

/-- The line of a rule as it is parsed. The reader cuts spaces and tabs off the end of a line,
so an output of blanks is cut off with the tab before it, and three fields are left. -/
theorem tableLine_ruleLine {t : KanaTransition} (hplain : t.Plain) (hends : t.EndsInField) :
    tableLine (ruleLine t) =
      if dropSpaces t.output = [] then ruleHead t else ruleLine t.withoutTrailingSpaces := by
  have houtput := rdropWhile_escapeField hplain.output
  rw [tableLine, stripComment_ruleLine, ruleLine]
  have htab : '\t' :: escapeField t.output = ['\t'] ++ escapeField t.output := rfl
  rw [htab, ← List.append_assoc, rdropWhile_append, houtput]
  by_cases hblank : dropSpaces t.output = []
  · -- the cut must not reach the state, which ends the line when the output is gone
    obtain ⟨hne, hlast⟩ := hends.resolve_left fun h => h hblank
    have hkeep : dropSpaces t.toState = t.toState := by
      rw [dropSpaces, List.rdropWhile_eq_self_iff]
      intro hne' hspace
      rw [List.getLast?_eq_some_getLast hne'] at hlast
      exact hlast (congrArg some (by simpa using hspace))
    have hto : (escapeField t.toState).rdropWhile isLineEnd = escapeField t.toState := by
      rw [rdropWhile_escapeField hplain.toState, hkeep]
    have htab' : ∀ s : Str, '\t' :: s = ['\t'] ++ s := fun _ => rfl
    rw [if_pos (escapeField_eq_nil.mpr hblank), if_pos hblank,
      List.rdropWhile_concat_pos _ _ _ (by decide), ruleHead,
      htab', htab' (escapeField t.toState), ← List.append_assoc, ← List.append_assoc,
      ← List.append_assoc, rdropWhile_append, hto, if_neg fun h => hne (escapeField_eq_nil.mp h)]
  · rw [if_neg fun h => hblank (escapeField_eq_nil.mp h), if_neg hblank, List.append_assoc]
    rfl

/-- Three fields, split at their tabs. -/
theorem splitN_three {a b c : Str} (ha : '\t' ∉ a) (hb : '\t' ∉ b) (hc : '\t' ∉ c) :
    splitN '\t' 4 (a ++ '\t' :: (b ++ '\t' :: c)) = [a, b, c] := by
  rw [splitN_cons ha, splitN_cons hb, splitN_last hc]

/-- Four fields; the last one may have tabs in it. -/
theorem splitN_four {a b c : Str} (ha : '\t' ∉ a) (hb : '\t' ∉ b) (hc : '\t' ∉ c) (d : Str) :
    splitN '\t' 4 (a ++ '\t' :: (b ++ '\t' :: c) ++ '\t' :: d) = [a, b, c, d] := by
  rw [List.append_assoc, List.cons_append, List.append_assoc, List.cons_append, splitN_cons ha,
    splitN_cons hb, splitN_cons hc]
  rfl

/-- A rule is read back from its line, less the blanks at the end of its output. No field has a
tab in it, so the line splits at the tabs the writer has put there. -/
theorem parseTransLine_tableLine {t : KanaTransition} (hplain : t.Plain) (hends : t.EndsInField)
    (lineNum : Nat) : parseTransLine (tableLine (ruleLine t)) lineNum =
      .ok t.withoutTrailingSpaces := by
  have hfrom := tab_not_mem_escapeField hplain.fromState
  have hto := tab_not_mem_escapeField hplain.toState
  have hinput : '\t' ∉ inputField t.input := by
    cases hinput : t.input with
    | wildcard => decide
    | char c =>
        refine tab_not_mem_escapeField fun d hd => ?_
        rw [List.mem_singleton.mp hd]
        exact hplain.input c hinput
  rw [tableLine_ruleLine hplain hends]
  -- An output of spaces only is cut off with its tab, so that the line has three fields instead
  -- of four.
  by_cases hblank : dropSpaces t.output = []
  · rw [if_pos hblank, parseTransLine, ruleHead, splitN_three hfrom hinput hto]
    dsimp only
    rw [unescape_escapeField, parseInputSpec_inputField, unescape_escapeField,
      KanaTransition.withoutTrailingSpaces, hblank]
    rfl
  · rw [if_neg hblank, parseTransLine, ruleLine, ruleHead, KanaTransition.withoutTrailingSpaces]
    dsimp only
    rw [splitN_four hfrom hinput hto]
    dsimp only
    rw [unescape_escapeField, parseInputSpec_inputField, unescape_escapeField, List.headD_cons,
      unescape_escapeField]
    rfl

/-! ### Lines -/

/-- The line of a rule has a tab in it, and starts as its state does. So it is no section
header, and it is taken for one just when the state starts with a bracket. -/
theorem head?_tableLine {t : KanaTransition} (hplain : t.Plain) (hends : t.EndsInField) :
    '\t' ∈ tableLine (ruleLine t) ∧
      ((tableLine (ruleLine t)).head? = some '[' ↔ t.fromState.head? = some '[') := by
  have hhead : ∀ rest : Str, (escapeField t.fromState ++ '\t' :: rest).head? = some '[' ↔
      t.fromState.head? = some '[' := by
    intro rest
    cases t.fromState with
    | nil => exact iff_of_false (by simp [escapeField]) (by simp)
    | cons c s =>
        rw [escapeField_cons]
        split
        · rename_i hc
          refine iff_of_false (by simp) ?_
          rintro heq
          cases heq
          revert hc
          decide
        · rfl
  rw [tableLine_ruleLine hplain hends]
  split
  · exact ⟨by simp [ruleHead], hhead _⟩
  · refine ⟨by simp [ruleLine], ?_⟩
    rw [ruleLine, ruleHead, List.append_assoc, List.cons_append]
    exact hhead _

/-- One line of the rules section. It adds its rule to those read so far, or it is reported as
an unknown section with its number. -/
theorem parseTableLine_ruleLine {t : KanaTransition} (hplain : t.Plain) (hends : t.EndsInField)
    {st : TableState} (hst : st.current = .trans) (index : Nat) :
    parseTableLine st (ruleLine t, index) =
      if t.fromState.head? = some '[' then
        .error ⟨index + 1, .unknownSection (tableLine (ruleLine t))⟩
      else .ok { st with transitions := st.transitions ++ [t.withoutTrailingSpaces] } := by
  obtain ⟨htab, hhead⟩ := head?_tableLine hplain hends
  have hne : ¬ (tableLine (ruleLine t)).isEmpty := by
    intro hnil
    rw [List.isEmpty_iff.mp hnil] at htab
    cases htab
  -- The header of a section has no tab, and the line of a rule has one at least.
  have hheader : ∀ header : Str, '\t' ∉ header → tableLine (ruleLine t) ≠ header := by
    intro header hnot heq
    exact hnot (heq ▸ htab)
  rw [parseTableLine]
  dsimp only
  rw [if_neg hne]
  by_cases hbracket : t.fromState.head? = some '['
  · rw [if_pos (hhead.mpr hbracket), if_pos hbracket, if_neg (hheader _ (by decide)),
      if_neg (hheader _ (by decide)), if_neg (hheader _ (by decide)),
      if_neg (hheader _ (by decide))]
  · rw [if_neg fun h => hbracket (hhead.mp h), if_neg hbracket, hst]
    dsimp only
    rw [parseTransLine_tableLine hplain hends]
    rfl

/-- The lines of the rules up to a state that starts with `[`. Each adds its rule to those that
have been read, without the spaces at the end of its output. -/
theorem foldlM_ruleLines {rules : List KanaTransition} (hplain : ∀ t ∈ rules, t.Plain)
    (hends : ∀ t ∈ rules, t.EndsInField) (hbracket : ∀ t ∈ rules, t.fromState.head? ≠ some '[')
    (rest : List (Str × Nat)) :
    ∀ (start : Nat) (st : TableState), st.current = .trans →
      ((rules.map ruleLine).zipIdx start ++ rest).foldlM parseTableLine st =
        rest.foldlM parseTableLine { st with
          transitions := st.transitions ++ (rules.map KanaTransition.withoutTrailingSpaces) } := by
  -- The induction is on the rules; each adds itself to those that have been read.
  induction rules with
  | nil => intro start st _; simp
  | cons t rules ih =>
      intro start st hst
      have hrest := ih (fun u hu => hplain u (List.mem_cons_of_mem _ hu))
        (fun u hu => hends u (List.mem_cons_of_mem _ hu))
        (fun u hu => hbracket u (List.mem_cons_of_mem _ hu)) (start + 1)
        { st with transitions := st.transitions ++ [t.withoutTrailingSpaces] } hst
      have hline := parseTableLine_ruleLine (hplain t List.mem_cons_self)
        (hends t List.mem_cons_self) hst start
      rw [if_neg (hbracket t List.mem_cons_self)] at hline
      rw [List.map_cons, List.zipIdx_cons, List.cons_append, List.foldlM_cons, hline]
      refine hrest.trans ?_
      simp

/-- The only breaks in the line of a rule are the tabs between its fields. So no rule ends its
line early, and the lines of the table are those that were written. -/
theorem isBreak_of_mem_ruleLine {t : KanaTransition} (hplain : t.Plain) {c : Char}
    (hc : c ∈ ruleLine t) : c = '\t' ∨ isBreak c = false := by
  have hfield : ∀ s : Str, (∀ c ∈ s, isBreak c = false) → c ∈ escapeField s →
      isBreak c = false := by
    intro s hs hmem
    rcases mem_escapeField hmem with rfl | hmem
    · rfl
    · exact hs c hmem
  have hinput : c ∈ inputField t.input → isBreak c = false := by
    cases hinput : t.input with
    | wildcard =>
        intro hmem
        rw [List.mem_singleton.mp hmem]
        rfl
    | char d =>
        refine hfield [d] fun e he => ?_
        rw [List.mem_singleton.mp he]
        exact hplain.input d hinput
  rw [ruleLine, ruleHead] at hc
  simp only [List.mem_append, List.mem_cons] at hc
  -- The fields and the tabs between them, from left to right.
  rcases hc with (hc | hc | hc | hc | hc) | hc | hc
  · exact .inr (hfield _ hplain.fromState hc)
  · exact .inl hc
  · exact .inr (hinput hc)
  · exact .inl hc
  · exact .inr (hfield _ hplain.toState hc)
  · exact .inl hc
  · exact .inr (hfield _ hplain.output hc)

/-- The lines of a table: its header and one line for each rule. Every line ends with a newline,
so there is no last line without one. -/
theorem lines_tableText {rules : List KanaTransition} (hplain : ∀ t ∈ rules, t.Plain) :
    lines (tableText rules) = "[trans]".toList :: rules.map ruleLine := by
  have htext : tableText rules =
      ("[trans]".toList :: rules.map ruleLine).flatMap (· ++ ['\n']) := by
    rw [List.flatMap_cons, List.flatMap_map]
    rfl
  have hrule : ∀ t ∈ rules, lines (ruleLine t ++ ['\n']) = [ruleLine t] := by
    intro t ht
    have hbreak := fun c => isBreak_of_mem_ruleLine (hplain t ht) (c := c)
    refine lines_newline (fun hmem => ?_) (fun hlast => ?_)
    · rcases hbreak '\n' hmem with heq | heq <;> cases heq
    · rcases hbreak '\r' (List.mem_of_getLast? hlast) with heq | heq <;> cases heq
  rw [htext, lines_flatMap, List.flatMap_cons, List.flatMap_map]
  have hrules : (rules.flatMap fun t => lines (ruleLine t ++ ['\n'])) = rules.map ruleLine := by
    rw [List.map_eq_flatMap]
    exact List.flatMap_congr hrule
  rw [hrules]
  rfl

/-- The lines of the rules are read in the rules section. -/
theorem parseTable_eq {rules : List KanaTransition} (hplain : ∀ t ∈ rules, t.Plain) :
    parseTable (tableText rules) = do
      let st ← ((rules.map ruleLine).zipIdx 1).foldlM parseTableLine ⟨.trans, [], [], []⟩
      return ⟨st.transitions, st.kataOverrides, st.okuriAliases⟩ := by
  rw [parseTable, lines_tableText hplain, List.zipIdx_cons, List.foldlM_cons]
  rfl

/-- The rules written as a table are read back in their order, less the spaces at the end of
an output, unless a state starts with `[`: the first such line is an unknown section. A `#`
starts a comment if and only if it is not escaped. -/
theorem parseTable_tableText {rules : List KanaTransition} (hplain : ∀ t ∈ rules, t.Plain)
    (hends : ∀ t ∈ rules, t.EndsInField) :
    ((∀ t ∈ rules, t.fromState.head? ≠ some '[') →
      parseTable (tableText rules) =
        .ok ⟨rules.map KanaTransition.withoutTrailingSpaces, [], []⟩) ∧
    ((∀ t ∈ rules, t.fromState.head? ≠ some '[' ∧ t.output.getLast? ≠ some ' ') →
      parseTable (tableText rules) = .ok ⟨rules, [], []⟩) ∧
    (∀ before t after, rules = before ++ t :: after →
      (∀ u ∈ before, u.fromState.head? ≠ some '[') → t.fromState.head? = some '[' →
        parseTable (tableText rules) =
          .error ⟨before.length + 2, .unknownSection (tableLine (ruleLine t))⟩) ∧
    ∀ raw pos, findCommentStart raw = some pos ↔
      startsComment raw pos ∧ ∀ q < pos, ¬ startsComment raw q := by
  have hread : (∀ t ∈ rules, t.fromState.head? ≠ some '[') →
      parseTable (tableText rules) =
        .ok ⟨rules.map KanaTransition.withoutTrailingSpaces, [], []⟩ := by
    intro hbracket
    -- the fold over the lines adds one rule after the other
    have hloop := foldlM_ruleLines hplain hends hbracket [] 1 ⟨.trans, [], [], []⟩ rfl
    rw [List.append_nil] at hloop
    rw [parseTable_eq hplain, hloop]
    rfl
  refine ⟨hread, ?_, ?_, findCommentStart_iff⟩
  · intro hkept
    rw [hread fun t ht => (hkept t ht).1]
    have hsame : rules.map KanaTransition.withoutTrailingSpaces = rules := by
      conv_rhs => rw [← List.map_id rules]
      refine List.map_congr_left fun t ht => ?_
      have houtput : dropSpaces t.output = t.output := by
        rw [dropSpaces, List.rdropWhile_eq_self_iff]
        intro hne hspace
        refine (hkept t ht).2 ?_
        rw [List.getLast?_eq_some_getLast hne]
        exact congrArg some (by simpa using hspace)
      rw [KanaTransition.withoutTrailingSpaces, houtput]
      rfl
    rw [hsame]
  · rintro before t after rfl hbefore hbracket
    have ht : t ∈ before ++ t :: after := by simp
    have hloop := foldlM_ruleLines (fun u hu => hplain u (List.mem_append_left _ hu))
      (fun u hu => hends u (List.mem_append_left _ hu)) hbefore
      (((t :: after).map ruleLine).zipIdx (before.length + 1)) 1 ⟨.trans, [], [], []⟩ rfl
    have hlines : ((before ++ t :: after).map ruleLine).zipIdx 1 =
        (before.map ruleLine).zipIdx 1 ++
          ((t :: after).map ruleLine).zipIdx (before.length + 1) := by
      rw [List.map_append, List.zipIdx_append, List.length_map, Nat.add_comm]
    rw [parseTable_eq hplain, hlines, hloop, List.map_cons, List.zipIdx_cons, List.foldlM_cons,
      parseTableLine_ruleLine (hplain t ht) (hends t ht) rfl, if_pos hbracket]
    rfl

/-- A rule whose state starts with `[`. -/
def bracketRule : KanaTransition := ⟨['['], .char 'a', [], ['x']⟩

/-- A rule whose output ends in a space. -/
def spaceRule : KanaTransition := ⟨[], .char 'a', [], ['x', ' ']⟩

/-- The line of the state `[` is an unknown section, and the space behind `x` is cut off. -/
theorem bracketRule_rejected :
    bracketRule.Plain ∧ spaceRule.Plain ∧
      parseTable (tableText [bracketRule]) =
        .error ⟨2, .unknownSection ['[', '\t', 'a', '\t', '\t', 'x']⟩ ∧
      parseTable (tableText [spaceRule]) = .ok ⟨[⟨[], .char 'a', [], ['x']⟩], [], []⟩ ∧
      spaceRule ≠ ⟨[], .char 'a', [], ['x']⟩ := by
  refine ⟨⟨?_, ?_, ?_, ?_⟩, ⟨?_, ?_, ?_, ?_⟩, rfl, rfl, by decide⟩
  all_goals simp [bracketRule, spaceRule, isBreak]

/-- Two rules, an exact one and a wildcard, and a rule without an output. The third one has an
escaped character in it, and its state is not empty. -/
theorem parseTable_tableText_three :
    parseTable (tableText [⟨['k'], .char 'a', [], ['か']⟩, ⟨['n'], .wildcard, [], ['ん']⟩,
        ⟨[], .char '#', ['k'], []⟩]) =
      .ok ⟨[⟨['k'], .char 'a', [], ['か']⟩, ⟨['n'], .wildcard, [], ['ん']⟩,
        ⟨[], .char '#', ['k'], []⟩], [], []⟩ := by
  have hplain : ∀ t ∈ [(⟨['k'], .char 'a', [], ['か']⟩ : KanaTransition),
      ⟨['n'], .wildcard, [], ['ん']⟩, ⟨[], .char '#', ['k'], []⟩], t.Plain := by
    simp only [List.mem_cons, List.not_mem_nil, or_false]
    rintro t (rfl | rfl | rfl)
    all_goals
      refine ⟨?_, ?_, ?_, ?_⟩
      all_goals simp [isBreak]
  have hends : ∀ t ∈ [(⟨['k'], .char 'a', [], ['か']⟩ : KanaTransition),
      ⟨['n'], .wildcard, [], ['ん']⟩, ⟨[], .char '#', ['k'], []⟩], t.EndsInField := by
    simp only [List.mem_cons, List.not_mem_nil, or_false]
    rintro t (rfl | rfl | rfl)
    · exact .inl (by decide)
    · exact .inl (by decide)
    · exact .inr (by decide)
  refine (parseTable_tableText hplain hends).2.1 ?_
  simp only [List.mem_cons, List.not_mem_nil, or_false]
  rintro t (rfl | rfl | rfl)
  all_goals simp

end Y2Skk
