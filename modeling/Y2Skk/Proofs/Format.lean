import Y2Skk.Proofs.UserDict

/-!
# `Y2Skk.Proofs.Format`: the lines of a dictionary file

The candidates of a row survive the file: words and annotations are quoted where the
syntax reserves a character. The headword does not, it is written verbatim. A line is read
back as the row it was written for under two conditions on its header, the headword
followed by the okurigana key:

* `Readable`: the header is what the line is split at;
* `WritesBack`: it is also no comment, and splits into the headword and the key again.

## From fields to texts

* A field: `parseCandidateField_quoteIfNeeded` reads a quoted or a bare word back, with
  its annotation.
* A line: `parseCandidates_eq_ok` reads the tail field by field, and
  `parseLine_serializeRow` is the line of a readable header. `parseLine_readable` is the
  converse: what is read from a line has a readable header.
* A text: `parseSkkDictOrdered_eq_ok` reads it line by line, and all of it or nothing.

The line number is in the errors only, so a line can be read at any number
(`parseLine_eq_ok`).
-/

set_option autoImplicit false

namespace Y2Skk

open Outcome Utf8

/-- The plain words among candidates. -/
def plainWords (candidates : List Candidate) : List Str :=
  (candidates.filter Candidate.isDisplayable).map Candidate.word

/-! ### Candidate fields -/

/-- A quoted word ends with its closing parenthesis. -/
theorem splitForm_quoteConcat (word : Str) {rest : Str}
    (h : rest.isEmpty ∨ rest.head? = some ';') :
    splitForm (quoteConcat word ++ rest) = (quoteConcat word, rest) := by
  rw [splitForm, sexpEnd_quoteConcat]
  exact if_pos h

/-- A plain word is read back from its field, with the annotation that follows. What may follow
is nothing or a `;`, so that the reader finds the end of the word. -/
theorem parseCandidateField_quoteIfNeeded (word : Str) {rest : Str}
    (hrest : rest.isEmpty ∨ rest.head? = some ';') :
    parseCandidateField (quoteIfNeeded word ++ rest) =
      ⟨word, ([';'].isPrefixOf? rest).map decodeAnnotation, none⟩ := by
  unfold quoteIfNeeded
  -- A quoted word ends with its closing parenthesis, a bare one at the first `;`.
  by_cases hquote : needsQuoting word
  · rw [if_pos hquote]
    have hhead : (quoteConcat word ++ rest).head? = some '(' := rfl
    rw [parseCandidateField, if_pos hhead, splitForm_quoteConcat word hrest]
    dsimp only
    rw [parseConcat_quoteConcat]
  · rw [if_neg hquote]
    rw [needsQuoting, Bool.or_eq_true, not_or] at hquote
    obtain ⟨hparen, hreserved⟩ := hquote
    have hsemi : ';' ∉ word := fun hmem =>
      hreserved (List.any_eq_true.mpr ⟨_, hmem, rfl⟩)
    have hhead : (word ++ rest).head? ≠ some '(' := by
      cases word with
      | nil =>
          rcases hrest with hnil | hsome
          · rw [List.isEmpty_iff.mp hnil]
            simp
          · rw [List.nil_append, hsome]
            simp
      | cons c word => simpa using hparen
    rw [parseCandidateField, if_neg hhead]
    rcases hrest with hnil | hsome
    · rw [List.isEmpty_iff.mp hnil, List.append_nil, splitOnce_eq_none hsemi]
      rfl
    · obtain ⟨note, rfl⟩ : ∃ note, rest = ';' :: note := by
        cases rest with
        | nil => cases hsome
        | cons c note => cases hsome; exact ⟨note, rfl⟩
      rw [splitOnce_singleton note hsemi]
      rfl

/-- A plain candidate as the text of its word and of its annotation. The second is empty or
starts with a `;`, and holds neither the separator of fields nor that of lines. -/
theorem serializeCandidate_eq {c : Candidate} (h : c.lispForm = none) : ∃ rest,
    serializeCandidate c = quoteIfNeeded c.word ++ rest ∧
      (rest.isEmpty ∨ rest.head? = some ';') ∧ '/' ∉ rest ∧ '\n' ∉ rest := by
  unfold serializeCandidate
  rw [h]
  cases c.annotation with
  | none => exact ⟨[], by simp⟩
  | some ann =>
      refine ⟨';' :: quoteIfNeeded ann, rfl, .inr rfl, ?_, ?_⟩
      · intro hmem
        rcases List.mem_cons.mp hmem with heq | hmem
        · cases heq
        · cases not_isStructural_of_mem_quoteIfNeeded hmem
      · intro hmem
        rcases List.mem_cons.mp hmem with heq | hmem
        · cases heq
        · cases not_isStructural_of_mem_quoteIfNeeded hmem

/-- A plain candidate keeps its word, and stays plain. -/
theorem parseCandidateField_serializeCandidate {c : Candidate} (h : c.lispForm = none) :
    (parseCandidateField (serializeCandidate c)).word = c.word ∧
      (parseCandidateField (serializeCandidate c)).lispForm = none := by
  obtain ⟨rest, heq, hrest, -⟩ := serializeCandidate_eq h
  rw [heq, parseCandidateField_quoteIfNeeded c.word hrest]
  exact ⟨rfl, rfl⟩

/-- The field of the candidate neither ends early nor breaks its line. -/
def Candidate.StaysInField (c : Candidate) : Prop :=
  '/' ∉ serializeCandidate c ∧ '\n' ∉ serializeCandidate c

/-- The characters that would end a field are reserved, so a plain candidate has none of them
bare. -/
theorem staysInField_of_plain {c : Candidate} (h : c.lispForm = none) : c.StaysInField := by
  unfold Candidate.StaysInField
  obtain ⟨rest, heq, -, hslash, hnewline⟩ := serializeCandidate_eq h
  rw [heq, List.mem_append, List.mem_append]
  refine ⟨fun hmem => ?_, fun hmem => ?_⟩
  · rcases hmem with hmem | hmem
    · cases not_isStructural_of_mem_quoteIfNeeded hmem
    · exact hslash hmem
  · rcases hmem with hmem | hmem
    · cases not_isStructural_of_mem_quoteIfNeeded hmem
    · exact hnewline hmem

/-! ### The candidates of a line -/

/-- The loop over the fields of a line: the empty ones are skipped, and one with an empty word
ends it. -/
theorem foldlM_addField (lineNum : Nat) (fields : List Str) :
    ∀ acc candidates : List Candidate,
    fields.foldlM (addField lineNum) acc = .ok candidates ↔
      (∀ field ∈ fields, field ≠ [] → (parseCandidateField field).word ≠ []) ∧
        candidates = acc ++ (fields.filter fun f => !f.isEmpty).map parseCandidateField := by
  induction fields with
  | nil =>
      intro acc candidates
      show Except.ok acc = Except.ok candidates ↔ _
      rw [Except.ok.injEq, List.filter_nil, List.map_nil, List.append_nil, eq_comm]
      exact ⟨fun h => ⟨fun _ hmem => (by cases hmem), h⟩, And.right⟩
  | cons field fields ih =>
      intro acc candidates
      rw [List.foldlM_cons]
      -- `addField` skips an empty field, and fails at one whose word is empty.
      by_cases hfield : field = []
      · subst hfield
        have hskip : addField lineNum acc [] = .ok acc := rfl
        rw [hskip, ok_bind, ih]
        simp
      · have hne : field.isEmpty = false := by simpa using hfield
        by_cases hword : (parseCandidateField field).word = []
        · have hfail : addField lineNum acc field = .error (.parse lineNum (.emptyWord field)) := by
            simp [addField, hfield, hword]
          rw [hfail, error_bind]
          simp [hfield, hword]
        · have hadd : addField lineNum acc field = .ok (acc ++ [parseCandidateField field]) := by
            simp [addField, hfield, hword]
          rw [hadd, ok_bind, ih]
          simp [hne, hword]

/-- The candidates of a line are its non-empty fields, and none has an empty word. -/
theorem parseCandidates_eq_ok {s : Str} {lineNum : Nat} {candidates : List Candidate} :
    parseCandidates s lineNum = .ok candidates ↔
      (∀ field ∈ s.splitOn '/', field ≠ [] → (parseCandidateField field).word ≠ []) ∧
        candidates = ((s.splitOn '/').filter fun f => !f.isEmpty).map parseCandidateField :=
  foldlM_addField lineNum _ [] candidates

/-- No candidate of a line has an empty word. -/
theorem word_ne_nil_of_parseCandidates {s : Str} {lineNum : Nat} {candidates : List Candidate}
    (h : parseCandidates s lineNum = .ok candidates) : ∀ c ∈ candidates, c.word ≠ [] := by
  obtain ⟨hwords, rfl⟩ := parseCandidates_eq_ok.mp h
  intro c hc
  obtain ⟨field, hfield, rfl⟩ := List.mem_map.mp hc
  obtain ⟨hmem, hne⟩ := List.mem_filter.mp hfield
  exact hwords field hmem (by simpa using hne)

/-- What is written behind the header of a row. -/
def candsText (candidates : List Candidate) : Str :=
  ['/'].intercalate (candidates.map serializeCandidate) ++ ['/']

/-- The text of the candidates splits into their fields, and an empty one at the end. -/
theorem splitOn_candsText {candidates : List Candidate} (hne : candidates ≠ [])
    (hstays : ∀ c ∈ candidates, c.StaysInField) :
    (candsText candidates).splitOn '/' = candidates.map serializeCandidate ++ [[]] := by
  have hfields : ∀ field ∈ candidates.map serializeCandidate ++ [[]], '/' ∉ field := by
    intro field hfield
    rcases List.mem_append.mp hfield with hfield | hfield
    · obtain ⟨c, hc, rfl⟩ := List.mem_map.mp hfield
      exact (hstays c hc).1
    · rw [List.mem_singleton.mp hfield]
      exact List.not_mem_nil
  -- The slash behind the last candidate gives one more field, which is empty.
  rw [candsText, intercalate_append_self _ (by simpa using hne), ← intercalate_append_nil,
    List.splitOn_intercalate '/' hfields (by simp)]

/-- The candidates of a row are read back with their words. An annotation may come back changed,
so only the words are compared. No candidate is a form or has an empty word, so none of the
fields is skipped or rejected. -/
theorem parseCandidates_candsText {candidates : List Candidate} (hne : candidates ≠ [])
    (hplain : ∀ c ∈ candidates, c.lispForm = none) (hwords : ∀ c ∈ candidates, c.word ≠ [])
    (lineNum : Nat) :
    ∃ candidates', parseCandidates (candsText candidates) lineNum = .ok candidates' ∧
      plainWords candidates' = candidates.map Candidate.word := by
  have hstays : ∀ c ∈ candidates, c.StaysInField := fun c hc => staysInField_of_plain (hplain c hc)
  -- No field is empty, and each is read with the word it was written for.
  have hfield : ∀ c ∈ candidates, serializeCandidate c ≠ [] ∧
      (parseCandidateField (serializeCandidate c)).word = c.word := by
    intro c hc
    have hword := (parseCandidateField_serializeCandidate (hplain c hc)).1
    refine ⟨fun hnil => hwords c hc ?_, hword⟩
    rw [← hword, hnil]
    rfl
  refine ⟨_, parseCandidates_eq_ok.mpr ⟨?_, rfl⟩, ?_⟩
  · rw [splitOn_candsText hne hstays]
    intro field hmem hfield'
    rcases List.mem_append.mp hmem with hmem | hmem
    · obtain ⟨c, hc, rfl⟩ := List.mem_map.mp hmem
      rw [(hfield c hc).2]
      exact hwords c hc
    · exact (hfield' (List.mem_singleton.mp hmem)).elim
  · -- The text ends with a separator, so that the split has one empty field at its end, which is
    -- skipped.
    have hkeep : (candidates.map serializeCandidate ++ [[]]).filter (fun f => !f.isEmpty)
        = candidates.map serializeCandidate := by
      rw [List.filter_append, List.filter_eq_self.mpr]
      · simp
      · intro f hf
        obtain ⟨c, hc, rfl⟩ := List.mem_map.mp hf
        simpa using (hfield c hc).1
    -- What is read back has no Lisp form, so every field is displayable.
    have hdisplay : ((candidates.map serializeCandidate).map parseCandidateField).filter
        Candidate.isDisplayable = (candidates.map serializeCandidate).map parseCandidateField := by
      rw [List.filter_eq_self]
      intro c' hc'
      obtain ⟨f, hf, rfl⟩ := List.mem_map.mp hc'
      obtain ⟨c, hc, rfl⟩ := List.mem_map.mp hf
      rw [Candidate.isDisplayable, (parseCandidateField_serializeCandidate (hplain c hc)).2]
      rfl
    rw [splitOn_candsText hne hstays, hkeep, plainWords, hdisplay, List.map_map, List.map_map]
    exact List.map_congr_left fun c hc => (hfield c hc).2

/-! ### Headers -/

/-- The headword and the key together are the header: the key, if there is one, is the last
character that was cut off. -/
theorem splitMidashiOkuri_append (raw : Str) :
    (splitMidashiOkuri raw).1 ++ (splitMidashiOkuri raw).2.getD [] = raw := by
  unfold splitMidashiOkuri
  cases hlast : raw.getLast? with
  | none => exact List.append_nil raw
  | some last =>
      dsimp only
      split
      · exact (List.dropLast_append_getLast? last hlast)
      · exact List.append_nil raw

/-- The reader splits the line of this header where the header ends. -/
structure Readable (header : Str) : Prop where
  ne_nil : header ≠ []
  newline : '\n' ∉ header
  start : ∀ c, header.head? = some c → isWhitespace c = false
  separator : ¬ [' ', '/'] <:+: header

/-- A row of this headword and okurigana key is read back under them. -/
structure WritesBack (midashi : Str) (okuri : Option Str) : Prop where
  readable : Readable (midashi ++ okuri.getD [])
  comment : (midashi ++ okuri.getD []).head? ≠ some ';'
  split : splitMidashiOkuri (midashi ++ okuri.getD []) = (midashi, okuri)

/-- A line is a header, the separator and the candidates. -/
theorem serializeRow_eq (row : Row) :
    serializeRow row = row.header ++ [' ', '/'] ++ candsText row.candidates := by
  simp [serializeRow, candsText]

/-- The line is split at the end of a readable header: the separator does not occur before it,
not even across its end. -/
theorem splitOnce_header {header : Str} (h : Readable header) (rest : Str) :
    splitOnce [' ', '/'] (header ++ [' ', '/'] ++ rest) = some (header, rest) := by
  refine splitOnce_append (List.cons_ne_nil _ _) rest fun hinside => ?_
  rcases List.infix_concat_iff.mp hinside with hsuffix | hinside
  · obtain ⟨front, hfront⟩ := hsuffix
    have hlast := congrArg List.getLast? hfront
    simp at hlast
  · exact h.separator hinside

/-- A line ends with a slash. -/
theorem getLast?_serializeRow (row : Row) : (serializeRow row).getLast? = some '/' := by
  rw [serializeRow_eq, candsText, ← List.append_assoc, List.getLast?_concat]

/-- The line of a readable header: a comment, or a row under what the header splits into. The
header neither starts with a blank nor holds ` /`, so the reader cuts the line at the place
where the writer has put the two together. -/
theorem parseLine_serializeRow {row : Row} (h : Readable row.header) (lineNum : Nat) :
    parseLine (serializeRow row) lineNum =
      if row.header.head? = some ';' then .ok none
      else do
        let candidates ← parseCandidates (candsText row.candidates) lineNum
        return some ⟨(splitMidashiOkuri row.header).1, (splitMidashiOkuri row.header).2,
          candidates⟩ := by
  have hhead : (serializeRow row).head? = row.header.head? := by
    obtain ⟨c, header, hheader⟩ := List.exists_cons_of_ne_nil h.ne_nil
    rw [serializeRow_eq, hheader]
    rfl
  -- the line starts with the header and ends with a slash, so there is nothing to trim
  have htrim : trim (serializeRow row) = serializeRow row := by
    apply trim_eq_self
    · intro c hc
      exact h.start c (hhead ▸ hc)
    · intro c hc
      rw [getLast?_serializeRow] at hc
      cases hc
      decide
  have hne : (serializeRow row).isEmpty = false := by
    rw [List.isEmpty_eq_false_iff]
    intro hnil
    have hlast := getLast?_serializeRow row
    rw [hnil] at hlast
    cases hlast
  unfold parseLine
  rw [hhead]
  split
  · rfl
  · dsimp only
    rw [htrim, hne, serializeRow_eq, splitOnce_header h]
    rfl

/-- A readable header keeps its row on one line, since a candidate that stays in its field
writes no newline either. -/
theorem newline_not_mem_serializeRow {row : Row} (h : Readable row.header)
    (hstays : ∀ c ∈ row.candidates, c.StaysInField) : '\n' ∉ serializeRow row := by
  have hcands : '\n' ∉ candsText row.candidates := by
    by_cases hnil : row.candidates = []
    · rw [hnil]
      decide
    · rw [candsText, intercalate_append_self _ (by simpa using hnil), List.mem_flatMap]
      rintro ⟨field, hfield, hmem⟩
      obtain ⟨c, hc, rfl⟩ := List.mem_map.mp hfield
      rcases List.mem_append.mp hmem with hmem | hmem
      · exact (hstays c hc).2 hmem
      · cases List.mem_singleton.mp hmem
  rw [serializeRow_eq, List.mem_append, List.mem_append]
  rintro ((hmem | hmem) | hmem)
  · exact h.newline hmem
  · simp at hmem
  · exact hcands hmem

/-- A row is read from the two sides of the first ` /` of the trimmed line: the headword with
its key on the left, and the candidates on the right. A comment or an empty line is no row. -/
theorem parseLine_eq_some {line : Str} {lineNum : Nat} {row : Row}
    (h : parseLine line lineNum = .ok (some row)) : ∃ raw cands,
      splitOnce [' ', '/'] (trim line) = some (raw, cands) ∧
      splitMidashiOkuri raw = (row.midashi, row.okuri) ∧
      parseCandidates cands lineNum = .ok row.candidates := by
  unfold parseLine at h
  split at h
  · cases h
  dsimp only at h
  split at h
  · cases h
  split at h
  · cases h
  rename_i raw cands hsplit
  cases hcands : parseCandidates cands lineNum with
  | error e => rw [hcands] at h; cases h
  | ok candidates =>
      rw [hcands] at h
      cases h
      exact ⟨raw, cands, hsplit, rfl, hcands⟩

/-- What is read from a line has a readable header, which splits into its own headword and
key, and no empty word. -/
theorem parseLine_readable {line : Str} {lineNum : Nat} {row : Row} (hline : '\n' ∉ line)
    (h : parseLine line lineNum = .ok (some row)) : Readable row.header ∧
      splitMidashiOkuri row.header = (row.midashi, row.okuri) ∧
      ∀ c ∈ row.candidates, c.word ≠ [] := by
  obtain ⟨raw, cands, hsplit, hokuri, hcands⟩ := parseLine_eq_some h
  have hheader : row.header = raw := by
    have happend := splitMidashiOkuri_append raw
    rwa [hokuri] at happend
  rw [hheader]
  have htrim : trim line = raw ++ [' ', '/'] ++ cands := splitOnce_eq_some hsplit
  have hhead : ∀ c, (raw ++ [' ', '/'] ++ cands).head? = some c → isWhitespace c = false :=
    fun c hc => head?_trim (htrim ▸ hc)
  -- An empty header would leave the trimmed line starting with the space of ` /`.
  refine ⟨⟨?_, ?_, ?_, ?_⟩, hokuri, word_ne_nil_of_parseCandidates hcands⟩
  · rintro rfl
    cases hhead ' ' rfl
  · intro hmem
    refine hline (mem_trim ?_)
    rw [htrim, List.append_assoc]
    exact List.mem_append_left _ hmem
  · intro c hc
    apply hhead
    rw [List.append_assoc, List.head?_append, hc]
    rfl
  · exact not_infix_of_splitOnce (List.cons_ne_nil _ _) hsplit

/-! ### Texts -/

/-- The row of a line that can be read. -/
def readRow (line : Str) : Option Row :=
  match parseLine line 0 with
  | .ok row => row
  | .error _ => none

/-- The line number is in the errors only. So a line that is read under one number is read as
the same row under any other, and the proofs can leave the numbers out. -/
theorem parseLine_eq_ok {line : Str} {row : Option Row} {n : Nat}
    (h : parseLine line n = .ok row) (m : Nat) : parseLine line m = .ok row := by
  unfold parseLine at h ⊢
  split at h
  · rwa [if_pos (by assumption)]
  · rw [if_neg (by assumption)]
    dsimp only at h ⊢
    split at h
    · rwa [if_pos (by assumption)]
    · rw [if_neg (by assumption)]
      cases hsplit : splitOnce [' ', '/'] (trim line) with
      | none => rw [hsplit] at h; cases h
      | some p =>
          rw [hsplit] at h
          dsimp only at h ⊢
          -- The line number is passed on to the candidates, and shows up only in their error.
          cases hcands : parseCandidates p.2 n with
          | error e => rw [hcands] at h; cases h
          | ok candidates =>
              rw [hcands] at h
              have hcands' : parseCandidates p.2 m = .ok candidates :=
                parseCandidates_eq_ok.mpr (parseCandidates_eq_ok.mp hcands)
              rw [hcands']
              exact h

/-- The loop over the lines of a text: it ends at the first one that cannot be read, and else
the rows are added in order. -/
theorem foldlM_addLine (ls : List Str) : ∀ (n : Nat) (init map : UserEntryMap),
    (ls.zipIdx n).foldlM addLine init = .ok map ↔
      (∀ line ∈ ls, ∃ row, parseLine line 0 = .ok row) ∧
        map = (ls.filterMap readRow).foldl addRow init := by
  induction ls with
  | nil =>
      intro n init map
      show Except.ok init = Except.ok map ↔ _
      rw [Except.ok.injEq, List.filterMap_nil, List.foldl_nil, eq_comm]
      exact ⟨fun h => ⟨fun _ hmem => (by cases hmem), h⟩, And.right⟩
  | cons line ls ih =>
      intro n init map
      rw [List.zipIdx_cons, List.foldlM_cons]
      cases hline : parseLine line (n + 1) with
      | error e =>
          have hfail : addLine init (line, n) = .error e := by simp [addLine, hline]
          have hnone : ¬ ∃ row, parseLine line 0 = .ok row := by
            rintro ⟨row, hrow⟩
            rw [parseLine_eq_ok hrow] at hline
            cases hline
          -- The line number is in the error only, so the line fails at number 0 too.
          rw [hfail, error_bind]
          exact ⟨fun h => (by cases h), fun h => (hnone (h.1 line List.mem_cons_self)).elim⟩
      | ok row =>
          have hread : readRow line = row := by rw [readRow, parseLine_eq_ok hline]
          have hadd : addLine init (line, n) = .ok (row.elim init (addRow init)) := by
            cases row <;> simp [addLine, hline]
          have hfold : ((line :: ls).filterMap readRow).foldl addRow init
              = (ls.filterMap readRow).foldl addRow (row.elim init (addRow init)) := by
            cases row <;> simp [hread]
          rw [hadd, ok_bind, ih, hfold, List.forall_mem_cons]
          exact and_congr_left fun _ => (and_iff_right ⟨row, parseLine_eq_ok hline 0⟩).symm

/-- A text is read when each of its lines is, and the map has the rows of the lines, in the
order of the text. -/
theorem parseSkkDictOrdered_eq_ok {src : Str} {map : UserEntryMap} :
    parseSkkDictOrdered src = .ok map ↔
      (∀ line ∈ lines src, ∃ row, parseLine line 0 = .ok row) ∧
        map = ((lines src).filterMap readRow).foldl addRow .empty :=
  foldlM_addLine (lines src) 0 .empty map

end Y2Skk
