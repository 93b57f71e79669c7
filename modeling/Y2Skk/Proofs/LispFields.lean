import Y2Skk.Proofs.Persistence

/-!
# `Y2Skk.Proofs.LispFields`: the fields of Lisp-form candidates

A candidate that is not a plain word is written back as its form: a directive is rendered
from its words, any other form is the text it was read from. Such a text is cut out of a
line by the reader (`IsRead`), so neither form structures its line
(`Candidate.Formed.staysInField`), and it is read back as a form again.

`readsBack_iff` says which candidates the reader rejects: those whose field is an
annotation without a word. `formed_of_load`, `Formed.learn` and `Formed.purge` show that
the reader and the engine make no other candidates than the formed ones.

## Where a form ends

The reader scans for the parenthesis that closes the first one, past strings and escapes.
The scan looks at no character behind the form (`sexpScan_some`), so a form ends where it
ended when it was read, whatever is written behind it. A field with no such end is kept as
a whole, and then it has no annotation.

## Runs

The last theorem is about sessions: the user dictionaries of an engine that started with
loaded ones stay formed, as an engine changes them by learning and purging only.
-/

set_option autoImplicit false

namespace Y2Skk

open Outcome Utf8

/-! ### The end of a form -/

/-- A character either continues the form or ends it, whatever follows. It ends the form just
when it is the parenthesis that closes the outermost one, outside of a string. -/
theorem sexpScan_cons (depth : Nat) (inString escaped : Bool) (c : Char) :
    (∃ depth' inString' escaped', ∀ s, sexpScan depth inString escaped (c :: s) =
      (sexpScan depth' inString' escaped' s).map fun p => (c :: p.1, p.2)) ∨
    ∀ s, sexpScan depth inString escaped (c :: s) = some ([c], s) := by
  cases inString with
  | true =>
      refine .inl ?_
      simp only [sexpScan, if_true]
      split_ifs <;> exact ⟨_, _, _, fun s => rfl⟩
  | false =>
      -- outside a string only the last parenthesis ends the scan
      by_cases hlast : c = ')' ∧ depth - 1 = 0
      · obtain ⟨rfl, hdepth⟩ := hlast
        exact .inr fun s => by simp [sexpScan, hdepth]
      · refine .inl ?_
        simp only [sexpScan, Bool.false_eq_true, if_false]
        split_ifs with hquote hopen hclose hdepth
        · exact ⟨_, _, _, fun s => rfl⟩
        · exact ⟨_, _, _, fun s => rfl⟩
        · exact (hlast ⟨hclose, hdepth⟩).elim
        · exact ⟨_, _, _, fun s => rfl⟩
        · exact ⟨_, _, _, fun s => rfl⟩

/-- The scan splits the text, and what follows the form does not matter. The form is not empty,
as it has the character that ended it. -/
theorem sexpScan_some (s : Str) : ∀ {depth : Nat} {inString escaped : Bool} {sexp rest : Str},
    sexpScan depth inString escaped s = some (sexp, rest) →
    sexp ≠ [] ∧ s = sexp ++ rest ∧
      ∀ rest', sexpScan depth inString escaped (sexp ++ rest') = some (sexp, rest') := by
  induction s with
  | nil =>
      intro depth inString escaped sexp rest h
      cases h
  | cons c s ih =>
      intro depth inString escaped sexp rest h
      rcases sexpScan_cons depth inString escaped c with
        ⟨depth', inString', escaped', hgoes⟩ | hends
      · rw [hgoes] at h
        obtain ⟨⟨sexp', rest'⟩, hscan, heq⟩ := Option.map_eq_some_iff.mp h
        cases heq
        obtain ⟨-, hsplit, hsame⟩ := ih hscan
        refine ⟨by simp, by rw [hsplit]; rfl, fun rest' => ?_⟩
        rw [List.cons_append, hgoes, hsame]
        rfl
      · rw [hends] at h
        cases h
        exact ⟨by simp, rfl, hends⟩

/-- The first character of a text that is not empty. -/
theorem head?_append_eq {s : Str} (hs : s ≠ []) (t t' : Str) :
    (s ++ t).head? = (s ++ t').head? := by
  rw [List.head?_append_of_ne_nil _ hs, List.head?_append_of_ne_nil _ hs]

/-- The form a Lisp field starts with: its text up to the end of the form, or the field as a
whole. In the first case the form ends at the same place whatever annotation follows it. -/
theorem splitForm_cases {field sexp rest : Str} (hparen : field.head? = some '(')
    (h : splitForm field = (sexp, rest)) :
    sexp ≠ [] ∧ sexp <+: field ∧ (rest = [] ∧ sexp = field ∨
      ∀ rest', rest'.isEmpty ∨ rest'.head? = some ';' →
        splitForm (sexp ++ rest') = (sexp, rest')) := by
  have hwhole : field ≠ [] := by
    rintro rfl
    cases hparen
  unfold splitForm at h
  -- a form that does not end takes all of the field
  cases hend : sexpEnd field with
  | none =>
      rw [hend] at h
      cases h
      exact ⟨hwhole, List.prefix_refl _, .inl ⟨rfl, rfl⟩⟩
  | some p =>
      obtain ⟨sexp', rest'⟩ := p
      rw [hend] at h
      dsimp only at h
      split at h
      · cases h
        unfold sexpEnd at hend
        rw [if_neg (by simp [hparen])] at hend
        obtain ⟨hne, hsplit, hsame⟩ := sexpScan_some field hend
        refine ⟨hne, ⟨rest, hsplit.symm⟩, .inr fun rest' hrest' => ?_⟩
        have hhead : (sexp ++ rest').head? = some '(' := by
          rw [head?_append_eq hne rest' rest, ← hsplit, hparen]
        have hend' : sexpEnd (sexp ++ rest') = some (sexp, rest') := by
          rw [sexpEnd, if_neg (by simp [hhead]), hsame]
        rw [splitForm, hend']
        exact if_pos hrest'
      · cases h
        exact ⟨hwhole, List.prefix_refl _, .inl ⟨rfl, rfl⟩⟩

/-! ### Directives -/

/-- A text that does not start with white space is only trimmed at its end, so what is left is a
beginning of it. -/
theorem trim_initial {s : Str} (h : ∀ c, s.head? = some c → isWhitespace c = false) :
    trim s <+: s := by
  have hstart : trimStart s = s := by
    cases s with
    | nil => rfl
    | cons c s => rw [trimStart, List.dropWhile_cons_of_neg (by simp [h c rfl])]
  rw [trim, hstart]
  exact List.rdropWhile_prefix _ _

/-- The first character of a beginning of a text is that of the text. -/
theorem head?_of_initial {s t : Str} {a : Char} (h : s <+: a :: t) {c : Char}
    (hc : s.head? = some c) : c = a := by
  obtain ⟨rest, hrest⟩ := h
  cases s with
  | nil => cases hc
  | cons d s =>
      cases hc
      exact (List.cons.inj hrest).1

/-- What begins like a directive is no `concat` form: the symbol would start with another
letter. -/
theorem parseConcat_of_initial {s t : Str} (h : s <+: '(' :: 's' :: t) : parseConcat s = none := by
  have houter : trim s <+: '(' :: 's' :: t := by
    refine (trim_initial fun c hc => ?_).trans h
    rw [head?_of_initial h hc]
    decide
  unfold parseConcat
  rcases splitHead_cases s "concat".toList with ⟨hnone, -⟩ | ⟨body, rest, htrim, hrest, -⟩
  · rw [hnone]
    rfl
  · -- The symbol would start with the `s` of the directive.
    rw [htrim] at houter
    have hbody : body <+: 's' :: t :=
      (List.prefix_append body _).trans ((List.prefix_cons_inj '(').mp houter)
    have htrimmed : trim body <+: 's' :: t := by
      refine (trim_initial fun c hc => ?_).trans hbody
      rw [head?_of_initial hbody hc]
      decide
    rw [hrest] at htrimmed
    have hfirst := head?_of_initial htrimmed (c := 'c') rfl
    cases hfirst

/-- A directive begins with its parenthesis and an `s`. -/
theorem renderIgnoreDicWord_eq (words : List Str) : ∃ t,
    renderIgnoreDicWord words = '(' :: 's' :: t := ⟨_, rfl⟩

/-! ### Candidates -/

namespace Candidate

/-- The reader cut the candidate out of a line. -/
def IsRead (c : Candidate) : Prop :=
  ∃ field, '/' ∉ field ∧ '\n' ∉ field ∧ parseCandidateField field = c ∧ c.word ≠ []

/-- A form that is kept as a text is one that was read. -/
def Formed (c : Candidate) : Prop := c.lispForm = some .unknown → c.IsRead

/-- An annotation without a word. -/
def IsBare (c : Candidate) : Prop := c.lispForm = none ∧ c.word = [] ∧ c.annotation.isSome

/-- What is written for a candidate, behind its word or form. -/
def annotationText (c : Candidate) : Str :=
  (c.annotation.map fun ann => ';' :: quoteIfNeeded ann).getD []

/-- The annotation is empty or begins with its semicolon. -/
theorem annotationText_start (c : Candidate) :
    c.annotationText.isEmpty ∨ c.annotationText.head? = some ';' := by
  unfold annotationText
  cases c.annotation with
  | none => exact .inl rfl
  | some ann => exact .inr rfl

/-- It is quoted, so it ends neither the field nor the line, whatever the annotation is. -/
theorem not_mem_annotationText (c : Candidate) :
    '/' ∉ c.annotationText ∧ '\n' ∉ c.annotationText := by
  unfold annotationText
  cases c.annotation with
  | none => exact ⟨List.not_mem_nil, List.not_mem_nil⟩
  | some ann =>
      constructor
      all_goals
        intro hmem
        rcases List.mem_cons.mp hmem with heq | hmem
        · cases heq
        · cases not_isStructural_of_mem_quoteIfNeeded hmem

/-- How a candidate that was read as a form came about: from a field that starts with a bracket,
whose form is no `concat`, with the text behind the form as its annotation. -/
theorem IsRead.form {c : Candidate} (h : c.IsRead) (hform : c.lispForm = some .unknown) :
    ∃ field rest, '/' ∉ field ∧ '\n' ∉ field ∧ field.head? = some '(' ∧
      splitForm field = (c.word, rest) ∧ parseConcat c.word = none ∧
      c.annotation = ([';'].isPrefixOf? rest).map decodeAnnotation := by
  obtain ⟨field, hslash, hnewline, rfl, -⟩ := h
  refine ⟨field, (splitForm field).2, hslash, hnewline, ?_⟩
  unfold parseCandidateField at hform ⊢
  by_cases hparen : field.head? = some '('
  · rw [if_pos hparen] at hform ⊢
    dsimp only at hform ⊢
    cases hconcat : parseConcat (splitForm field).1 with
    | some word => rw [hconcat] at hform; cases hform
    | none => exact ⟨hparen, rfl, hconcat, rfl⟩
  · rw [if_neg hparen] at hform
    split at hform <;> cases hform

/-- A plain word, with its annotation. -/
theorem serializeCandidate_plain {c : Candidate} (hform : c.lispForm = none) :
    serializeCandidate c = quoteIfNeeded c.word ++ c.annotationText := by
  unfold serializeCandidate annotationText
  rw [hform]
  cases c.annotation <;> simp

/-- A form that is kept as a text. -/
theorem serializeCandidate_unknown {c : Candidate} (hform : c.lispForm = some .unknown) :
    serializeCandidate c = c.word ++ c.annotationText := by
  unfold serializeCandidate annotationText
  rw [hform]
  cases c.annotation <;> simp

/-- A directive, rendered from its words. -/
theorem serializeCandidate_ignore {c : Candidate} {words : List Str}
    (hform : c.lispForm = some (.ignoreDicWord words)) :
    serializeCandidate c = renderIgnoreDicWord words ++ c.annotationText := by
  unfold serializeCandidate annotationText
  rw [hform]
  cases c.annotation <;> simp

/-- No field of a formed candidate structures its line. A directive is written with its words
escaped. An unknown form is written as it was read, from a field that had neither a slash nor a
newline in it. -/
theorem Formed.staysInField {c : Candidate} (h : c.Formed) : c.StaysInField := by
  unfold StaysInField
  obtain ⟨hslash, hnewline⟩ := c.not_mem_annotationText
  cases hlisp : c.lispForm with
  | none => exact staysInField_of_plain hlisp
  | some form =>
  cases form with
  | ignoreDicWord words =>
      rw [serializeCandidate_ignore hlisp, List.mem_append, List.mem_append]
      constructor
      · rintro (hmem | hmem)
        · cases not_isStructural_of_mem_renderIgnoreDicWord hmem
        · exact hslash hmem
      · rintro (hmem | hmem)
        · cases not_isStructural_of_mem_renderIgnoreDicWord hmem
        · exact hnewline hmem
  | unknown =>
      have hform : c.lispForm = some .unknown := hlisp
      obtain ⟨field, rest, hslash', hnewline', hparen, hsplit, -, -⟩ := (h hform).form hform
      -- the form is a beginning of the field it came from
      have hword : c.word <+: field := (splitForm_cases hparen hsplit).2.1
      rw [serializeCandidate_unknown hform, List.mem_append, List.mem_append]
      constructor
      · rintro (hmem | hmem)
        · exact hslash' (hword.subset hmem)
        · exact hslash hmem
      · rintro (hmem | hmem)
        · exact hnewline' (hword.subset hmem)
        · exact hnewline hmem

/-- A Lisp field is read with a word as soon as its form is not evaluated. -/
theorem word_of_splitForm {field sexp rest : Str} (hparen : field.head? = some '(')
    (hsplit : splitForm field = (sexp, rest)) (hconcat : parseConcat sexp = none) :
    (parseCandidateField field).word = sexp := by
  rw [parseCandidateField, if_pos hparen, hsplit]
  dsimp only
  rw [hconcat]
  rfl

/-- The reader rejects no field but an annotation without a word. An empty field is not
rejected; it is skipped. -/
theorem readsBack_iff {c : Candidate} (h : c.Formed) :
    (serializeCandidate c ≠ [] → (parseCandidateField (serializeCandidate c)).word ≠ []) ↔
      ¬ c.IsBare := by
  cases hlisp : c.lispForm with
  | none =>
      rw [(parseCandidateField_serializeCandidate hlisp).1]
      have hempty : c.word = [] → (serializeCandidate c ≠ [] ↔ c.annotation.isSome) := by
        intro hword
        unfold serializeCandidate
        rw [hlisp, hword]
        cases c.annotation <;> simp [quoteIfNeeded, needsQuoting]
      constructor
      · rintro hreads ⟨-, hword, hann⟩
        exact hreads ((hempty hword).mpr hann) hword
      · intro hbare hne hword
        exact hbare ⟨hlisp, hword, (hempty hword).mp hne⟩
  | some form =>
  have hnot : ¬ c.IsBare := by
    rintro ⟨hplain, -⟩
    rw [hlisp] at hplain
    cases hplain
  refine iff_of_true (fun _ => ?_) hnot
  cases form with
  | ignoreDicWord words =>
      obtain ⟨t, hrender⟩ := renderIgnoreDicWord_eq words
      rw [serializeCandidate_ignore hlisp, hrender]
      obtain ⟨sexp, rest, hsplit⟩ : ∃ sexp rest,
          splitForm ('(' :: 's' :: t ++ c.annotationText) = (sexp, rest) := ⟨_, _, rfl⟩
      obtain ⟨hne, hprefix, -⟩ := splitForm_cases rfl hsplit
      rw [word_of_splitForm rfl hsplit (parseConcat_of_initial hprefix)]
      exact hne
  | unknown =>
      obtain ⟨field, rest, -, -, hparen, hsplit, hconcat, hann⟩ := (h hlisp).form hlisp
      obtain ⟨hne, ⟨more, hmore⟩, hcases⟩ := splitForm_cases hparen hsplit
      rw [serializeCandidate_unknown hlisp]
      rcases hcases with ⟨rfl, hwhole⟩ | hsame
      · -- The field was kept as a whole, and is written as a whole.
        have hnone : c.annotationText = [] := by
          rw [annotationText, hann]
          rfl
        rw [hnone, List.append_nil, hwhole, word_of_splitForm hparen hsplit hconcat]
        exact hne
      · have hparen' : (c.word ++ c.annotationText).head? = some '(' := by
          rw [head?_append_eq hne _ more, hmore, hparen]
        rw [word_of_splitForm hparen' (hsame _ c.annotationText_start) hconcat]
        exact hne

end Candidate

/-! ### Dictionaries -/

namespace UserDict

/-- Every form that is kept as a text is one that was read. -/
def Formed (dict : UserDict) : Prop := ∀ midashi okuri candidates,
  dict.bucket? midashi okuri = some candidates → ∀ c ∈ candidates, c.Formed

/-- What the reader takes from a line is formed: it was read from a field that has neither a
slash nor a newline. -/
theorem formed_of_parseLine {line : Str} {lineNum : Nat} {row : Row} (hline : '\n' ∉ line)
    (h : parseLine line lineNum = .ok (some row)) : ∀ c ∈ row.candidates, c.Formed := by
  obtain ⟨raw, cands, hsplit, -, hcands⟩ := parseLine_eq_some h
  obtain ⟨hwords, heq⟩ := parseCandidates_eq_ok.mp hcands
  have htrim : trim line = raw ++ [' ', '/'] ++ cands := splitOnce_eq_some hsplit
  intro c hc _
  rw [heq] at hc
  obtain ⟨field, hfield, rfl⟩ := List.mem_map.mp hc
  obtain ⟨hmem, hne⟩ := List.mem_filter.mp hfield
  obtain ⟨hslash, hsub⟩ := mem_splitOn cands field hmem
  refine ⟨field, hslash, fun hnewline => hline ?_, rfl, hwords field hmem (by simpa using hne)⟩
  refine mem_trim ?_
  rw [htrim]
  exact List.mem_append_right _ (hsub hnewline)

/-- Adding a row of formed candidates to a formed dictionary. The row goes behind the candidates
that the bucket has. -/
theorem Formed.addRow {map : UserEntryMap} {dirty : Bool} (h : Formed ⟨map, dirty⟩) {row : Row}
    (hrow : ∀ c ∈ row.candidates, c.Formed) : Formed ⟨Y2Skk.addRow map row, dirty⟩ := by
  intro midashi okuri candidates hbucket c hc
  rw [bucket?_addRow] at hbucket
  split at hbucket
  · obtain rfl := Option.some.inj hbucket
    rcases List.mem_append.mp hc with hc | hc
    · cases hold : bucket? ⟨map, dirty⟩ midashi okuri with
      | none => rw [hold] at hc; cases hc
      | some old =>
          rw [hold] at hc
          exact h midashi okuri old hold c hc
    · exact hrow c hc
  · exact h midashi okuri candidates hbucket c hc

/-- A loaded dictionary is formed. Every candidate comes from a field of a line of the file, so
the induction is over the rows that were read. -/
theorem formed_of_load {src : Option Str} {dict : UserDict} (h : load src = .ok dict) :
    dict.Formed := by
  have hempty : Formed ⟨.empty, false⟩ := by
    intro midashi okuri candidates hbucket
    cases hbucket
  cases src with
  | none =>
      cases h
      exact hempty
  | some src =>
      cases hparse : parseSkkDictOrdered src with
      | error e => simp [load, hparse] at h
      | ok map =>
          obtain rfl : _ = dict := by simpa [load, hparse, pure, Except.pure] using h
          obtain ⟨-, rfl⟩ := parseSkkDictOrdered_eq_ok.mp hparse
          have hrows : ∀ row ∈ (lines src).filterMap readRow, ∀ c ∈ row.candidates, c.Formed := by
            intro row hrow
            obtain ⟨line, hline, hread⟩ := List.mem_filterMap.mp hrow
            exact formed_of_parseLine (mem_lines hline) (parseLine_of_readRow hread)
          -- The rows are added one after the other; the induction takes the last one off.
          generalize (lines src).filterMap readRow = rows at hrows ⊢
          induction rows using List.reverseRecOn with
          | nil => exact hempty
          | append_singleton rows row ih =>
              rw [List.foldl_append]
              refine Formed.addRow (ih fun r hr => hrows r (by simp [hr])) ?_
              exact hrows row (by simp)

/-- Learning a plain word keeps the forms as they are, but for the directives, which may lose
the word. -/
theorem Formed.learn {dict : UserDict} (h : dict.Formed) (midashi : Str) (okuri : Option Str)
    (word : Str) (note : Option Str) :
    (dict.learn ⟨midashi, okuri, [⟨word, note, none⟩]⟩).1.Formed := by
  intro midashi' okuri' candidates hbucket c hc hform
  rw [bucket?_learn] at hbucket
  split at hbucket
  · cases hbucket
    obtain ⟨old, hold, rfl⟩ := List.mem_map.mp (List.mem_filter.mp hc).1
    -- Directives may change, the other forms do not.
    have hkept : unignoreIn (([⟨word, note, none⟩] : List Candidate).filter
        Candidate.isDisplayable |>.map Candidate.word) old = old := by
      unfold unignoreIn at hform ⊢
      split at hform
      · cases hform
      · rfl
    rw [hkept] at hform ⊢
    rw [promote_singleton] at hold
    rcases List.mem_cons.mp hold with rfl | hold
    · cases hform
    · have hmem := (List.mem_filter.mp hold).1
      cases hbefore : dict.bucket? midashi' okuri' with
      | none => rw [hbefore] at hmem; cases hmem
      | some before =>
          rw [hbefore] at hmem
          exact h midashi' okuri' before hbefore old hmem hform
  · exact h midashi' okuri' candidates hbucket c hc hform

/-- A purge keeps a part of the candidates, and the other buckets as they are. -/
theorem Formed.purge {dict : UserDict} (h : dict.Formed) (midashi : Str) (okuri : Option Str)
    (word : Str) : (dict.purge midashi okuri word).1.Formed := by
  intro midashi' okuri' candidates hbucket c hc
  rw [bucket?_purge] at hbucket
  split at hbucket
  · obtain ⟨before, hbefore, hpurged⟩ := Option.bind_eq_some_iff.mp hbucket
    unfold purged at hpurged
    dsimp only at hpurged
    split at hpurged
    · cases hpurged
    · cases hpurged
      exact h midashi okuri before hbefore c (List.mem_filter.mp hc).1
  · exact h midashi' okuri' candidates hbucket c hc

end UserDict

namespace SkkEngine

variable {ρ : Type} [DictionaryProvider ρ]

/-- The user dictionaries of an engine that started with loaded ones stay formed, over every
run. -/
theorem formed_of_session [EucJp] {kanaTable : KanaTable} {keybindings : SkkKeybindings}
    {lispDirectives : Bool} {initialPhase : SkkPhase} {providers : List (Provider ρ)}
    {history : History (Provider ρ)} {self : SkkEngine (Provider ρ)}
    (hrun : Session (fresh kanaTable keybindings lispDirectives initialPhase providers)
      history self)
    (hloaded : ∀ dict, .user dict ∈ providers → ∃ src, UserDict.load src = .ok dict)
    {dict : UserDict} (hdict : .user dict ∈ self.dict) : dict.Formed := by
  refine userDict_of_session
    (fun _ midashi okuri word annotation h => h.learn midashi okuri word annotation)
    (fun _ midashi okuri word h => h.purge midashi okuri word) hrun ?_ hdict
  intro dict hmem
  obtain ⟨src, hsrc⟩ := hloaded dict hmem
  exact UserDict.formed_of_load hsrc

end SkkEngine

end Y2Skk
