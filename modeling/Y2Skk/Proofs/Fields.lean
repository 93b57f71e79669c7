import Y2Skk.Proofs.LispFields
import Y2Skk.Proofs.Purge

/-!
# `Y2Skk.Proofs.Fields`: what survives the slash format

A dictionary line is split at every `/`, a field at its first `;` or behind its form.
Words and annotations go through the same writer, `quoteIfNeeded`, but not through the
same reader. A word is evaluated only when its field starts with `(`, which is what
`needsQuoting` looks at, so `fields_readBack` holds for every word and every directive. An
annotation is always offered to `parseConcat`, which trims its text first:
`annotation_kept_iff` says which annotations are evaluated although nothing quoted them.

## Words and directives

A `FieldItem` is what the engine writes into a field of its own. Quoting escapes the
characters that end a field or a line (`not_mem_text`), and the form that it makes is read
back as the word it was made from.

## Annotations

An annotation that needs no quotes is written as it is. It is read back unless it is a
`concat` form without words, with white space around it allowed: such a text evaluates to
nothing (`isEmptyConcat`). That no other text without a quote is evaluated is
`parseConcat_of_noQuote`: a form with words has quotes in it, and those are what
`needsQuoting` looks for.

The candidates a session keeps are formed (`formed_of_session`), so the fact about texts
is one about every candidate of every run.
-/

set_option autoImplicit false

namespace Y2Skk

open Outcome Utf8 Transition

/-! ### Words and directives -/

/-- What the engine writes into a field of its own: a word, or the words to ignore. -/
inductive FieldItem where
  | word (w : Str) (hne : w ≠ [])
  | ignoreDicWord (words : List Str)

namespace FieldItem

/-- How the item is written. -/
def text : FieldItem → Str
  | word w _ => quoteIfNeeded w
  | ignoreDicWord words => renderIgnoreDicWord words

/-- What it is read back as. -/
def candidate : FieldItem → Candidate
  | word w _ => .new w
  | ignoreDicWord words => .lisp (renderIgnoreDicWord words) (.ignoreDicWord words)

/-- The characters of a field are those of its form and escaped ones, so no slash and no line
break is among them. -/
theorem not_mem_text (item : FieldItem) :
    '/' ∉ item.text ∧ '\n' ∉ item.text ∧ '\r' ∉ item.text := by
  cases item with
  | word w _ =>
      refine ⟨fun h => ?_, fun h => ?_, fun h => ?_⟩
      · cases not_isStructural_of_mem_quoteIfNeeded h
      · cases not_isStructural_of_mem_quoteIfNeeded h
      · rcases mem_quoteIfNeeded h with hconst | ⟨c, hc⟩
        · exact absurd hconst (by decide)
        · exact carriageReturn_not_mem_escapeChar c hc
  | ignoreDicWord words =>
      refine ⟨fun h => ?_, fun h => ?_, fun h => ?_⟩
      · cases not_isStructural_of_mem_renderIgnoreDicWord h
      · cases not_isStructural_of_mem_renderIgnoreDicWord h
      · rcases mem_renderIgnoreDicWord h with hconst | ⟨c, hc⟩
        · exact absurd hconst (by decide)
        · exact carriageReturn_not_mem_escapeChar c hc

end FieldItem

/-- The form of a directive ends where it was written to end. -/
theorem splitForm_renderIgnoreDicWord (words : List Str) {rest : Str}
    (h : rest.isEmpty ∨ rest.head? = some ';') :
    splitForm (renderIgnoreDicWord words ++ rest) = (renderIgnoreDicWord words, rest) := by
  rw [splitForm, sexpEnd_renderIgnoreDicWord]
  exact if_pos h

/-- A directive is read back from its field, with the annotation that follows it, as long as
nothing else comes behind the form. -/
theorem parseCandidateField_renderIgnoreDicWord (words : List Str) {rest : Str}
    (h : rest.isEmpty ∨ rest.head? = some ';') :
    parseCandidateField (renderIgnoreDicWord words ++ rest) =
      { Candidate.lisp (renderIgnoreDicWord words) (.ignoreDicWord words) with
        annotation := ([';'].isPrefixOf? rest).map decodeAnnotation } := by
  obtain ⟨t, ht⟩ := renderIgnoreDicWord_eq words
  have hparen : (renderIgnoreDicWord words ++ rest).head? = some '(' := by rw [ht]; rfl
  have hconcat : parseConcat (renderIgnoreDicWord words) = none := by
    refine parseConcat_of_initial (t := t) ?_
    rw [ht]
  rw [parseCandidateField, if_pos hparen, splitForm_renderIgnoreDicWord words h]
  dsimp only
  rw [hconcat, classify_renderIgnoreDicWord]
  rfl

namespace FieldItem

/-- An item is read back from its field: a word as a word, quoted or not, and a directive as a
directive. -/
theorem parseCandidateField_text (item : FieldItem) :
    parseCandidateField item.text = item.candidate := by
  cases item with
  | word w hne =>
      have hread := parseCandidateField_quoteIfNeeded w (.inl List.isEmpty_nil)
      rw [List.append_nil] at hread
      exact hread
  | ignoreDicWord words =>
      have hread := parseCandidateField_renderIgnoreDicWord words (.inl List.isEmpty_nil)
      rw [List.append_nil] at hread
      exact hread

/-- What is read back is no empty word, which the reader would reject. The word of a directive
is its form. -/
theorem word_candidate_ne_nil (item : FieldItem) : item.candidate.word ≠ [] := by
  cases item with
  | word w hne => exact hne
  | ignoreDicWord words =>
      obtain ⟨t, ht⟩ := renderIgnoreDicWord_eq words
      show renderIgnoreDicWord words ≠ []
      rw [ht]
      exact List.cons_ne_nil _ _

/-- Nor is the field empty, which the reader would skip. -/
theorem text_ne_nil (item : FieldItem) : item.text ≠ [] := by
  intro hnil
  have hread := item.parseCandidateField_text
  rw [hnil] at hread
  exact item.word_candidate_ne_nil (hread ▸ rfl)

end FieldItem

/-- Words and directives survive the slash format: their fields neither end early nor break the
line, and the line tail is read back item by item. The list of items is any. -/
theorem fields_readBack (items : List FieldItem) (lineNum : Nat) :
    (∀ item ∈ items, '/' ∉ item.text ∧ '\n' ∉ item.text ∧ '\r' ∉ item.text) ∧
      parseCandidates (['/'].intercalate (items.map FieldItem.text)) lineNum =
        .ok (items.map FieldItem.candidate) := by
  refine ⟨fun item _ => item.not_mem_text, parseCandidates_eq_ok.mpr ?_⟩
  -- no items give an empty tail, whose one field is skipped
  by_cases hitems : items = []
  · subst hitems
    exact ⟨by simp, rfl⟩
  have hslash : ∀ field ∈ items.map FieldItem.text, '/' ∉ field := by
    intro field hfield
    obtain ⟨item, -, rfl⟩ := List.mem_map.mp hfield
    exact item.not_mem_text.1
  rw [List.splitOn_intercalate '/' hslash (by simpa using hitems)]
  constructor
  · intro field hfield _
    obtain ⟨item, -, rfl⟩ := List.mem_map.mp hfield
    rw [item.parseCandidateField_text]
    exact item.word_candidate_ne_nil
  · have hkeep : (items.map FieldItem.text).filter (fun f => !f.isEmpty)
        = items.map FieldItem.text := by
      rw [List.filter_eq_self]
      intro field hfield
      obtain ⟨item, -, rfl⟩ := List.mem_map.mp hfield
      simpa using item.text_ne_nil
    rw [hkeep, List.map_map]
    exact List.map_congr_left fun item _ => item.parseCandidateField_text.symm

/-! ### Annotations -/

/-- A `concat` form without words: what is left between the parentheses is the symbol. Such
a text evaluates to nothing. -/
def isEmptyConcat (s : Str) : Prop :=
  ∃ body, trim s = '(' :: body ++ [')'] ∧ trim body = "concat".toList

/-- The two notions of white space that the reader uses: one is part of the other. -/
theorem isWhitespace_of_isAsciiWhitespace {c : Char} (h : isAsciiWhitespace c) :
    isWhitespace c := by
  simp only [isAsciiWhitespace, Bool.or_eq_true, decide_eq_true_eq] at h
  rcases h with (((rfl | rfl) | rfl) | rfl) | rfl <;> decide

/-- A text without a quote is no list of words once it has more than white space. -/
theorem parseStringList_of_noQuote {s : Str} (h : '"' ∉ s) {c : Char} (hc : c ∈ s)
    (hblack : isAsciiWhitespace c = false) : parseStringList s = none := by
  rw [parseStringList_eq]
  cases hdrop : s.dropWhile isAsciiWhitespace with
  | nil =>
      have hspace := List.dropWhile_eq_nil_iff.mp hdrop c hc
      rw [hblack] at hspace
      cases hspace
  | cons d rest =>
      have hd : d ≠ '"' := by
        intro heq
        have hmem : d ∈ s.dropWhile isAsciiWhitespace := by rw [hdrop]; exact List.mem_cons_self
        exact h (heq ▸ (List.dropWhile_sublist _).subset hmem)
      simp [hd]

/-- A trimmed text does not end in white space, so nothing more of a line can be cut off at its
end. -/
theorem getLast?_trim {s : Str} {c : Char} (h : (trim s).getLast? = some c) :
    isWhitespace c = false := by
  have hne : trim s ≠ [] := by
    intro hnil
    rw [hnil] at h
    cases h
  have hlast : (trim s).getLast hne = c := by
    rw [List.getLast?_eq_some_getLast hne] at h
    exact Option.some.inj h
  rw [← hlast]
  exact Bool.eq_false_iff.mpr (List.rdropWhile_last_not isWhitespace (trimStart s) hne)

/-- Trimming the start drops nothing but white space. -/
theorem mem_trimStart {s : Str} {c : Char} (h : c ∈ s) (hc : isWhitespace c = false) :
    c ∈ trimStart s := by
  rw [← List.takeWhile_append_dropWhile (p := isWhitespace) (l := s), List.mem_append] at h
  rcases h with htaken | hleft
  · rw [List.mem_takeWhile_imp htaken] at hc
    cases hc
  · exact hleft

/-- Without a quote only the empty form is evaluated: every other `concat` form has a literal,
or is none. -/
theorem parseConcat_of_noQuote {s : Str} (h : '"' ∉ s) :
    (parseConcat s = some [] ∧ isEmptyConcat s) ∨ (parseConcat s = none ∧ ¬ isEmptyConcat s) := by
  unfold parseConcat
  rcases splitHead_cases s "concat".toList with ⟨hnone, hhead⟩ | ⟨body, rest, htrim, hrest, hsplit⟩
  · rw [hnone]
    refine .inr ⟨rfl, ?_⟩
    rintro ⟨body, htrim, hconcat⟩
    exact hhead body htrim (hconcat ▸ List.prefix_refl _)
  rw [hsplit]
  by_cases hnil : rest = []
  · subst hnil
    rw [List.append_nil] at hrest
    refine .inl ⟨?_, body, htrim, hrest⟩
    have hspace : ([] : Str).head?.all isAsciiWhitespace := rfl
    rw [if_pos hspace, Option.bind_eq_bind, Option.bind_some, trimStart, List.dropWhile_nil,
      parseStringList_nil]
    rfl
  -- The form does not end in white space, so there is a token that is no literal.
  have hlast : (trim body).getLast? = some (rest.getLast hnil) := by
    rw [hrest, List.getLast?_append, List.getLast?_eq_some_getLast hnil]
    rfl
  have hquote : '"' ∉ trimStart rest := by
    intro hmem
    refine h (mem_trim ?_)
    have hbody : '"' ∈ trim body := by
      rw [hrest]
      exact List.mem_append_right _ ((List.dropWhile_sublist _).subset hmem)
    rw [htrim]
    exact List.mem_append_left _ (List.mem_cons_of_mem _ (mem_trim hbody))
  have hblack := getLast?_trim hlast
  have hnone : parseStringList (trimStart rest) = none := by
    refine parseStringList_of_noQuote hquote (mem_trimStart (List.getLast_mem hnil) hblack) ?_
    refine Bool.eq_false_iff.mpr fun hspace => ?_
    rw [isWhitespace_of_isAsciiWhitespace hspace] at hblack
    cases hblack
  refine .inr ⟨?_, ?_⟩
  · split
    · rw [Option.bind_eq_bind, Option.bind_some, hnone]
      rfl
    · rfl
  · rintro ⟨body', htrim', hconcat⟩
    rw [htrim, List.cons_append, List.cons_append, List.cons.injEq] at htrim'
    rw [← List.append_cancel_right htrim'.2, hrest] at hconcat
    exact hnil (List.append_right_eq_self.mp hconcat)

/-- When an annotation is written so that it is read back: it is quoted, or it is not the empty
form. -/
def annotationKept (note : Str) : Prop :=
  needsQuoting note ∨ ¬ isEmptyConcat note

/-- Exactly then it is read back: a quoted annotation always, and one that is written as it is
when the reader does not evaluate it. -/
theorem decodeAnnotation_quoteIfNeeded_iff (note : Str) :
    decodeAnnotation (quoteIfNeeded note) = note ↔ annotationKept note := by
  unfold quoteIfNeeded annotationKept
  by_cases hquote : needsQuoting note
  · rw [if_pos hquote, decodeAnnotation, parseConcat_quoteConcat]
    simp [hquote]
  · have hplain : '"' ∉ note := by
      intro hmem
      refine hquote ?_
      rw [needsQuoting, Bool.or_eq_true]
      exact .inr (List.any_eq_true.mpr ⟨_, hmem, rfl⟩)
    rw [if_neg hquote, decodeAnnotation]
    rcases parseConcat_of_noQuote hplain with ⟨hsome, hempty⟩ | ⟨hnone, hempty⟩
    · -- The form is not the empty text it evaluates to.
      have hne : note ≠ [] := by
        rintro rfl
        obtain ⟨body, htrim, -⟩ := hempty
        cases htrim
      rw [hsome]
      simp [hquote, hempty, hne.symm]
    · rw [hnone]
      simp [hempty]

/-- The annotation of a candidate after its field was written and read again. -/
def annotationReread (c : Candidate) : Option Str :=
  Candidate.annotation <| parseCandidateField <| serializeCandidate c

/-- The annotation of a formed candidate is read back through `decodeAnnotation`, behind a
word as behind a form. -/
theorem Candidate.Formed.annotation_reread {c : Candidate} (h : c.Formed) {note : Str}
    (hann : c.annotation = some note) :
    annotationReread c = some (quoteIfNeeded note |> decodeAnnotation) := by
  have htext : c.annotationText = ';' :: quoteIfNeeded note := by
    rw [annotationText, hann]
    rfl
  have hread : ([';'].isPrefixOf? c.annotationText).map decodeAnnotation =
      some (quoteIfNeeded note |> decodeAnnotation) := by
    rw [htext]
    rfl
  cases hlisp : c.lispForm with
  | none =>
      rw [annotationReread, serializeCandidate_plain hlisp,
        parseCandidateField_quoteIfNeeded c.word c.annotationText_start]
      exact hread
  | some form =>
  cases form with
  | ignoreDicWord words =>
      rw [annotationReread, serializeCandidate_ignore hlisp,
        parseCandidateField_renderIgnoreDicWord words c.annotationText_start]
      exact hread
  | unknown =>
      obtain ⟨field, rest, -, -, hparen, hsplit, hconcat, hfield⟩ := (h hlisp).form hlisp
      obtain ⟨hne, ⟨more, hmore⟩, hcases⟩ := splitForm_cases hparen hsplit
      rcases hcases with ⟨rfl, -⟩ | hsame
      · -- A field that was kept as a whole has no annotation.
        rw [hann] at hfield
        cases hfield
      · have hparen' : (c.word ++ c.annotationText).head? = some '(' := by
          rw [head?_append_eq hne _ more, hmore, hparen]
        rw [annotationReread, serializeCandidate_unknown hlisp, parseCandidateField,
          if_pos hparen', hsame _ c.annotationText_start]
        dsimp only
        rw [hconcat]
        exact hread

namespace SkkEngine

/-- An annotation survives the slash format unless it is an unquoted empty form, as a text, and
in the field of every candidate a session keeps. The user dictionaries of the session are ones
that were loaded from a file. -/
theorem annotation_kept_iff [EucJp] {ρ : Type} [DictionaryProvider ρ] {kanaTable : KanaTable}
    {keybindings : SkkKeybindings} {lispDirectives : Bool} {initialPhase : SkkPhase}
    {providers : List (Provider ρ)} {history : History (Provider ρ)}
    {self : SkkEngine (Provider ρ)}
    (hrun : Session (fresh kanaTable keybindings lispDirectives initialPhase providers)
      history self)
    (hloaded : ∀ dict, .user dict ∈ providers → ∃ src, UserDict.load src = .ok dict) :
    (∀ text, decodeAnnotation (quoteIfNeeded text) = text ↔ annotationKept text) ∧
    ∀ dict midashi okuri candidates c text, .user dict ∈ self.dict →
      dict.bucket? midashi okuri = some candidates → c ∈ candidates → c.annotation = some text →
        (annotationReread c = some text ↔ annotationKept text) := by
  refine ⟨decodeAnnotation_quoteIfNeeded_iff, ?_⟩
  intro dict midashi okuri candidates c text hdict hbucket hc htext
  -- A candidate of a session is formed, so its field is split where its annotation begins.
  have hformed := formed_of_session hrun hloaded hdict midashi okuri candidates hbucket c hc
  rw [hformed.annotation_reread htext, Option.some.injEq]
  exact decodeAnnotation_quoteIfNeeded_iff text

/-- The keys that register `x` for `あ` with the annotation ` (concat)`, in direct input. -/
def spacedFormKeys : List KeyEvent :=
  KeyEvent.typed ['A'] ++ [.press .space {}] ++ KeyEvent.typed ['l', 'x', ';'] ++
    [.press .space {}] ++ KeyEvent.typed "(concat)".toList ++ [.press .returnKey {}]

/-- The candidate those keys register. -/
def spacedForm : Candidate := ⟨['x'], some " (concat)".toList, none⟩

/-- The dictionary in which they have registered it. -/
def spacedFormDict : UserDict := (UserDict.empty.learn ⟨['あ'], none, [spacedForm]⟩).1

/-- A session in which the candidate is registered, by typing it into the buffer of a
registration. -/
theorem exists_session_spacedForm :
    letI := EucJp.empty
    ∃ (history : History (Provider Empty)) (self : SkkEngine (Provider Empty)),
      Session (fresh vowelTable {} true .hiragana [.user .empty]) history self ∧
      history.map Visit.input = spacedFormKeys ∧ .user spacedFormDict ∈ self.dict := by
  let _ := EucJp.empty
  have hrecord := exists_session (fresh vowelTable {} true .hiragana [.user .empty])
    spacedFormKeys
    (fun _ (self : SkkEngine (Provider Empty)) => .user spacedFormDict ∈ self.dict)
    (by decide +kernel)
  exact hrecord

/-- Its annotation is the empty form, behind a space. -/
theorem isEmptyConcat_spacedForm : isEmptyConcat " (concat)".toList :=
  ⟨"concat".toList, by decide, by decide⟩

/-- The registered annotation ` (concat)` is read back empty. It begins with a blank, so it is
not taken for a form when it is written and goes unquoted. The reader trims it, and finds the
form of an empty text. -/
theorem spacedForm_lost :
    letI := EucJp.empty
    ∃ (history : History (Provider Empty)) (self : SkkEngine (Provider Empty)),
      Session (fresh vowelTable {} true .hiragana [.user .empty]) history self ∧
      history.map Visit.input = spacedFormKeys ∧ .user spacedFormDict ∈ self.dict ∧
      spacedFormDict.bucket? ['あ'] none = some [spacedForm] ∧
      spacedForm.annotation = some " (concat)".toList ∧
      decodeAnnotation (quoteIfNeeded " (concat)".toList) = [] ∧
      annotationReread spacedForm = some [] := by
  obtain ⟨history, self, hrun, hinputs, hdict⟩ := exists_session_spacedForm
  -- the text has no quote in it, so it is a form for the reader exactly when it is an empty one
  have hlost : decodeAnnotation (quoteIfNeeded " (concat)".toList) = [] := by
    have hquote : quoteIfNeeded " (concat)".toList = " (concat)".toList := by decide
    rw [hquote, decodeAnnotation]
    rcases parseConcat_of_noQuote (s := " (concat)".toList) (by decide) with ⟨hsome, -⟩ | ⟨-, hnot⟩
    · rw [hsome]
      rfl
    · exact (hnot isEmptyConcat_spacedForm).elim
  have hformed : spacedForm.Formed := fun h => by cases h
  refine ⟨history, self, hrun, hinputs, hdict, by decide +kernel, rfl, hlost, ?_⟩
  rw [hformed.annotation_reread rfl, hlost]

/-- In the same session the annotation of every candidate is described by its text. The one
registered there is not kept, as a text and in its field. -/
theorem annotation_kept_iff_spacedForm :
    letI := EucJp.empty
    ¬ annotationKept " (concat)".toList ∧
      ((quoteIfNeeded " (concat)".toList |> decodeAnnotation) = " (concat)".toList ↔
        annotationKept " (concat)".toList) ∧
      (annotationReread spacedForm = some " (concat)".toList ↔
        annotationKept " (concat)".toList) := by
  let _ := EucJp.empty
  obtain ⟨history, self, hrun, -, hdict⟩ := exists_session_spacedForm
  have hloaded : ∀ dict, .user dict ∈ [(.user .empty : Provider Empty)] →
      ∃ src, UserDict.load src = .ok dict := by
    intro dict hmem
    cases List.mem_singleton.mp hmem
    exact ⟨none, rfl⟩
  obtain ⟨htext, hcandidate⟩ := annotation_kept_iff hrun hloaded
  refine ⟨?_, htext _, ?_⟩
  · rintro (hquote | hempty)
    · exact absurd hquote (by decide)
    · exact hempty isEmptyConcat_spacedForm
  · exact hcandidate spacedFormDict ['あ'] none [spacedForm] spacedForm _ hdict
      (by decide +kernel) List.mem_cons_self rfl

end SkkEngine

end Y2Skk
