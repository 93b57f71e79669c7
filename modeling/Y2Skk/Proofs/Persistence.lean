import Y2Skk.Proofs.Format
import Y2Skk.Proofs.Stack

/-!
# `Y2Skk.Proofs.Persistence`: saving and loading the user dictionary

`Faithful` says that a user dictionary that is saved and loaded again returns the same
plain words. The words themselves always survive, but the headwords are written verbatim:
`faithful_iff` says that a dictionary of plain candidates is faithful exactly when each of
its headwords writes back with its okurigana key, and it has no empty word.

## Rows

A file is written row by row, one for each bucket of the dictionary, in an order that the
hash map chooses and that stays a parameter (`BucketOrder`). `wordsOf` reads the words of
a bucket from a list of rows; `words_foldl_addRow` and `wordsOf_writtenRows` say that it
agrees with the loaded map and with the map that was saved.

## Lines

`fileLines` is the text before a newline in a headword breaks it. Where every header is
readable the file is split into just these lines (`lines_serializeUserDict`), and
`readRow_serializeRow` reads each of them.

## The two directions

* `faithful_of_writesBack`: when each headword writes back, each bucket is read from its
  own line.
* `Faithful.readable`, `Faithful.writesBack`, `Faithful.word_ne_nil`: the other way round,
  every word of a faithful dictionary is read back from some line, and the header of that
  line is the header written.

`faithful_of_session` is the equivalence for the user dictionary of a run of the engine.
-/

set_option autoImplicit false

namespace Y2Skk

open Outcome Utf8 Transition

/-- The plain words `lookup` returns. -/
def UserDict.words (dict : UserDict) (midashi : Str) (okuri : Option Str) : List Str :=
  plainWords ((dict.lookup midashi okuri).elim [] DictEntry.candidates)

/-- Saved and loaded again, the dictionary returns the same plain words in the same order,
for every headword and okurigana key. -/
def Faithful (iter : BucketOrder) (dict : UserDict) : Prop :=
  ∃ dict', UserDict.load (some (serializeUserDict iter dict.entries)) = .ok dict' ∧
    ∀ midashi okuri, dict'.words midashi okuri = dict.words midashi okuri

/-- The words of a lookup are those of the bucket, if there is one. -/
theorem UserDict.words_eq (dict : UserDict) (midashi : Str) (okuri : Option Str) :
    dict.words midashi okuri = plainWords ((dict.bucket? midashi okuri).getD []) := by
  rw [words, lookup_eq]
  cases dict.bucket? midashi okuri <;> rfl

/-! ### Rows of a map -/

/-- The row belongs to the bucket. -/
def Row.isOf (midashi : Str) (okuri : Option Str) (row : Row) : Bool :=
  decide (row.midashi = midashi ∧ row.okuri = okuri)

/-- A row belongs to the bucket of its own headword and okurigana key, and to no other. -/
theorem Row.isOf_iff {midashi : Str} {okuri : Option Str} {row : Row} :
    row.isOf midashi okuri ↔ (row.midashi, row.okuri) = (midashi, okuri) := by
  simp [Row.isOf]

/-- The plain words the rows have for a bucket. -/
def wordsOf (midashi : Str) (okuri : Option Str) (rows : List Row) : List Str :=
  (rows.filter (Row.isOf midashi okuri)).flatMap fun row => plainWords row.candidates

/-- The plain words of two lists of candidates, one behind the other. -/
theorem plainWords_append (xs ys : List Candidate) :
    plainWords (xs ++ ys) = plainWords xs ++ plainWords ys := by
  simp [plainWords]

/-- A row that is added goes behind what its bucket has, and leaves the others alone. The map is
one of headwords to maps of okurigana keys, so the row is for a bucket when both agree. -/
theorem bucket?_addRow (map : UserEntryMap) (dirty : Bool) (row : Row) (midashi : Str)
    (okuri : Option Str) :
    UserDict.bucket? ⟨addRow map row, dirty⟩ midashi okuri =
      if row.isOf midashi okuri then
        some ((UserDict.bucket? ⟨map, dirty⟩ midashi okuri).getD [] ++ row.candidates)
      else UserDict.bucket? ⟨map, dirty⟩ midashi okuri := by
  unfold UserDict.bucket? addRow Row.isOf
  dsimp only
  rw [OrdMap.get?_upsert]
  -- another headword has its own map, and another key its own list in the same map
  by_cases hmidashi : midashi = row.midashi
  · subst hmidashi
    rw [if_pos rfl, Option.bind_some, OrdMap.get?_upsert]
    by_cases hokuri : okuri = row.okuri
    · subst hokuri
      cases map.get? row.midashi <;> simp [default, OrdMap.get?_empty]
    · have hne : ¬ row.okuri = okuri := fun h => hokuri h.symm
      cases map.get? row.midashi <;> simp [hokuri, hne, default, OrdMap.get?_empty]
  · have hne : ¬ row.midashi = midashi := fun h => hmidashi h.symm
    simp [hmidashi, hne]

/-- The words of a map built from rows: those it had, and behind them the words of the rows of
that headword, in the order of the rows. -/
theorem words_foldl_addRow (rows : List Row) (dirty : Bool) (midashi : Str)
    (okuri : Option Str) : ∀ map : UserEntryMap,
    UserDict.words ⟨rows.foldl addRow map, dirty⟩ midashi okuri =
      UserDict.words ⟨map, dirty⟩ midashi okuri ++ wordsOf midashi okuri rows := by
  induction rows with
  | nil => intro map; simp [wordsOf]
  | cons row rows ih =>
      intro map
      rw [List.foldl_cons, ih, UserDict.words_eq, UserDict.words_eq, bucket?_addRow]
      by_cases hrow : row.isOf midashi okuri
      · simp [hrow, wordsOf, plainWords_append]
      · simp [hrow, wordsOf]

section Rows
variable {iter : BucketOrder}

/-- The rows of a map are its buckets, in whatever order the hash maps are gone through. -/
theorem mem_rows (hiter : iter.YieldsAll) (dict : UserDict) (row : Row) :
    row ∈ rows iter dict.entries ↔
      dict.bucket? row.midashi row.okuri = some row.candidates := by
  unfold rows UserDict.bucket?
  simp only [List.mem_flatMap, List.mem_map, Option.bind_eq_some_iff, OrdMap.get?_eq_some_iff]
  constructor
  · rintro ⟨⟨midashi, okuriMap⟩, hmap, ⟨okuri, candidates⟩, hbucket, rfl⟩
    exact ⟨okuriMap, hmap, (hiter midashi okuriMap).mem_iff.mp hbucket⟩
  · rintro ⟨okuriMap, hmap, hbucket⟩
    exact ⟨_, hmap, _, (hiter _ okuriMap).mem_iff.mpr hbucket, rfl⟩

/-- Every bucket has one row. Within a headword the okurigana keys are distinct, in whatever
order they are listed, and rows of different headwords differ in the headword. -/
theorem nodup_rows (hiter : iter.YieldsAll) (map : UserEntryMap) :
    ((rows iter map).map fun row => (row.midashi, row.okuri)).Nodup := by
  unfold rows
  rw [List.map_flatMap, List.nodup_flatMap]
  constructor
  · rintro ⟨midashi, okuriMap⟩ -
    have hkeys : (((iter midashi okuriMap).map fun e => (⟨midashi, e.1, e.2⟩ : Row)).map
        fun row => (row.midashi, row.okuri)) = ((iter midashi okuriMap).map Prod.fst).map
          fun okuri => (midashi, okuri) := by simp
    refine hkeys ▸ List.Nodup.map (fun _ _ h => (Prod.mk.inj h).2) ?_
    exact (((hiter midashi okuriMap).map Prod.fst).nodup_iff).mpr okuriMap.nodup
  · have hpairwise := List.pairwise_map.mp map.nodup
    refine hpairwise.imp ?_
    rintro ⟨midashi, okuriMap⟩ ⟨midashi', okuriMap'⟩ hne key hmem hmem'
    simp only [List.map_map, List.mem_map, Function.comp_apply] at hmem hmem'
    obtain ⟨e, -, rfl⟩ := hmem
    obtain ⟨e', -, heq⟩ := hmem'
    exact hne (Prod.mk.inj heq).1.symm

/-- The rows in the order they are written in: those with okurigana first. -/
def writtenRows (iter : BucketOrder) (map : UserEntryMap) :
    List Row :=
  (rows iter map).filter (fun row => row.okuri.isSome)
    ++ (rows iter map).filter fun row => row.okuri.isNone

/-- The written rows are the rows of the map in another order. -/
theorem writtenRows_perm (map : UserEntryMap) : (writtenRows iter map).Perm (rows iter map) := by
  have hnot : (fun row : Row => row.okuri.isNone) = fun row => !row.okuri.isSome := by
    funext row
    cases row.okuri <;> rfl
  rw [writtenRows, hnot]
  exact List.filter_append_perm _ _

/-- So each of them is a bucket of the dictionary with all its candidates. -/
theorem mem_writtenRows (hiter : iter.YieldsAll)
    (dict : UserDict) (row : Row) : row ∈ writtenRows iter dict.entries ↔
      dict.bucket? row.midashi row.okuri = some row.candidates :=
  (writtenRows_perm dict.entries).mem_iff.trans (mem_rows hiter dict row)

/-- Among rows of pairwise distinct buckets, one row belongs to its bucket. So the words that
are read back for a bucket are those of a single line. -/
theorem filter_isOf_of_nodup {midashi : Str} {okuri : Option Str} {written : List Row}
    (hnodup : (written.map fun row => (row.midashi, row.okuri)).Nodup) {row : Row}
    (hrow : row ∈ written) (hof : row.isOf midashi okuri) :
    written.filter (Row.isOf midashi okuri) = [row] := by
  induction written with
  | nil => cases hrow
  | cons r written ih =>
      rw [List.map_cons, List.nodup_cons] at hnodup
      -- Two rows of one bucket would have the same key.
      have hother : ∀ row ∈ written, r.isOf midashi okuri → row.isOf midashi okuri = false := by
        intro row hmem hr
        rw [Bool.eq_false_iff]
        intro hrow
        refine hnodup.1 (List.mem_map.mpr ⟨row, hmem, ?_⟩)
        rw [Row.isOf_iff.mp hrow, Row.isOf_iff.mp hr]
      rcases List.mem_cons.mp hrow with rfl | hmem
      · rw [List.filter_cons_of_pos hof, List.filter_eq_nil_iff.mpr]
        intro r' hr'
        rw [hother r' hr' hof]
        exact Bool.false_ne_true
      · have hr : ¬ r.isOf midashi okuri := fun hr => by
          rw [hother row hmem hr] at hof
          cases hof
        rw [List.filter_cons_of_neg hr, ih hnodup.2 hmem]

/-- The words of the written rows are those of the dictionary. A bucket without a row has no
words, and in the dictionary it is not there. -/
theorem wordsOf_writtenRows (hiter : iter.YieldsAll)
    (dict : UserDict) (midashi : Str) (okuri : Option Str) :
    wordsOf midashi okuri (writtenRows iter dict.entries) = dict.words midashi okuri := by
  rw [UserDict.words_eq, wordsOf]
  have hnodup : ((writtenRows iter dict.entries).map fun row => (row.midashi, row.okuri)).Nodup :=
    (((writtenRows_perm dict.entries).map _).nodup_iff).mpr (nodup_rows hiter dict.entries)
  cases hbucket : dict.bucket? midashi okuri with
  | some candidates =>
      have hrow : (⟨midashi, okuri, candidates⟩ : Row) ∈ writtenRows iter dict.entries :=
        (mem_writtenRows hiter dict _).mpr hbucket
      rw [filter_isOf_of_nodup hnodup hrow (by simp [Row.isOf])]
      simp
  | none =>
      rw [List.filter_eq_nil_iff.mpr]
      · rfl
      · intro row hrow hof
        obtain ⟨rfl, rfl⟩ := of_decide_eq_true hof
        rw [(mem_writtenRows hiter dict row).mp hrow] at hbucket
        cases hbucket

end Rows

/-! ### The text of a dictionary -/

/-- The lines joined by newlines: an empty block is an empty line. -/
def blockLines (ls : List Str) : List Str := if ls = [] then [[]] else ls

/-- A block joined by newlines, with one at its end, has a newline behind each of its lines. -/
theorem intercalate_blockLines (ls : List Str) :
    ['\n'].intercalate ls ++ ['\n'] = (blockLines ls).flatMap (· ++ ['\n']) := by
  unfold blockLines
  split
  · rename_i hnil
    rw [hnil]
    rfl
  · exact intercalate_append_self _ (by assumption)

/-- The lines that are written, before any newline in a headword breaks them. -/
def fileLines (iter : BucketOrder) (map : UserEntryMap) :
    List Str :=
  [";; y2skk user dictionary".toList, ";;; okuri-ari entries.".toList]
    ++ blockLines (((rows iter map).filter fun row => row.okuri.isSome).map serializeRow)
    ++ [";;; okuri-nasi entries.".toList]
    ++ blockLines (((rows iter map).filter fun row => row.okuri.isNone).map serializeRow)

/-- The file is its lines with a newline behind each of them. The three comment lines of the
source contain their own. -/
theorem serializeUserDict_eq (iter : BucketOrder)
    (map : UserEntryMap) :
    serializeUserDict iter map = (fileLines iter map).flatMap (· ++ ['\n']) := by
  have htitle : ";; y2skk user dictionary\n".toList
      = ";; y2skk user dictionary".toList ++ ['\n'] := by decide
  have hari : ";;; okuri-ari entries.\n".toList = ";;; okuri-ari entries.".toList ++ ['\n'] := by
    decide
  have hnasi : ";;; okuri-nasi entries.\n".toList
      = ";;; okuri-nasi entries.".toList ++ ['\n'] := by decide
  unfold serializeUserDict fileLines
  dsimp only
  rw [htitle, hari, hnasi]
  simp only [List.flatMap_append, List.flatMap_cons, List.flatMap_nil, List.append_nil,
    ← intercalate_blockLines, List.append_assoc]

/-- The lines of the file apart from the rows. -/
def isFrameLine (line : Str) : Prop := line = [] ∨ line.head? = some ';'

/-- A line of the file is a part of its frame, or the line of a row. -/
theorem mem_fileLines {iter : BucketOrder} {map : UserEntryMap}
    {line : Str} (h : line ∈ fileLines iter map) :
    (isFrameLine line ∧ '\n' ∉ line ∧ line.getLast? ≠ some '\r') ∨
      ∃ row ∈ writtenRows iter map, line = serializeRow row := by
  -- a block without rows is written as one empty line
  have hblock : ∀ {p : Row → Bool},
      line ∈ blockLines (((rows iter map).filter p).map serializeRow) →
      line = [] ∨ ∃ row ∈ (rows iter map).filter p, line = serializeRow row := by
    intro p hmem
    unfold blockLines at hmem
    split at hmem
    · exact .inl (List.mem_singleton.mp hmem)
    · obtain ⟨row, hrow, rfl⟩ := List.mem_map.mp hmem
      exact .inr ⟨row, hrow, rfl⟩
  unfold fileLines at h
  simp only [List.mem_append, List.mem_cons, List.not_mem_nil, or_false] at h
  rcases h with (((rfl | rfl) | hari) | rfl) | hnasi
  · exact .inl ⟨.inr rfl, by decide, by decide⟩
  · exact .inl ⟨.inr rfl, by decide, by decide⟩
  · rcases hblock hari with rfl | ⟨row, hrow, rfl⟩
    · exact .inl ⟨.inl rfl, by decide, by decide⟩
    · exact .inr ⟨row, List.mem_append_left _ hrow, rfl⟩
  · exact .inl ⟨.inr rfl, by decide, by decide⟩
  · rcases hblock hnasi with rfl | ⟨row, hrow, rfl⟩
    · exact .inl ⟨.inl rfl, by decide, by decide⟩
    · exact .inr ⟨row, List.mem_append_right _ hrow, rfl⟩

/-- The parser takes a line of the frame for a comment or an empty line. -/
theorem parseLine_of_isFrameLine {line : Str} (h : isFrameLine line) :
    parseLine line 0 = .ok none := by
  rcases h with rfl | hcomment
  · rfl
  · rw [parseLine, if_pos hcomment]

/-- So no row is read from it. -/
theorem readRow_of_isFrameLine {line : Str} (h : isFrameLine line) : readRow line = none := by
  rw [readRow, parseLine_of_isFrameLine h]

/-- An empty block has an empty line, from which nothing is read. -/
theorem filterMap_blockLines (ls : List Str) :
    (blockLines ls).filterMap readRow = ls.filterMap readRow := by
  unfold blockLines
  split
  · rename_i hnil
    rw [hnil]
    rfl
  · rfl

/-- The rows read from the written lines: the title and the two section comments give none, and
every other line is that of a row. -/
theorem filterMap_fileLines (iter : BucketOrder)
    (map : UserEntryMap) : (fileLines iter map).filterMap readRow =
      (writtenRows iter map).filterMap fun row => readRow (serializeRow row) := by
  have htitle : readRow ";; y2skk user dictionary".toList = none :=
    readRow_of_isFrameLine (.inr rfl)
  have hari : readRow ";;; okuri-ari entries.".toList = none := readRow_of_isFrameLine (.inr rfl)
  have hnasi : readRow ";;; okuri-nasi entries.".toList = none := readRow_of_isFrameLine (.inr rfl)
  unfold fileLines writtenRows
  simp only [List.filterMap_append, filterMap_blockLines, List.filterMap_map, Function.comp_def,
    List.filterMap_cons, List.filterMap_nil, htitle, hari, hnasi, List.nil_append, List.append_nil]

section Faithful
variable {iter : BucketOrder} {dict : UserDict}

/-- With readable headers the file is read line by line as it was written: no line has a newline
in it, and none ends in a carriage return. -/
theorem lines_serializeUserDict (hreadable : ∀ row ∈ writtenRows iter dict.entries,
      Readable row.header ∧ ∀ c ∈ row.candidates, c.StaysInField) :
    lines (serializeUserDict iter dict.entries) = fileLines iter dict.entries := by
  have hline : ∀ line ∈ fileLines iter dict.entries, lines (line ++ ['\n']) = [line] := by
    intro line hmem
    rcases mem_fileLines hmem with ⟨-, hnewline, hcr⟩ | ⟨row, hrow, rfl⟩
    · exact lines_newline hnewline hcr
    · obtain ⟨hheader, hstays⟩ := hreadable row hrow
      refine lines_newline (newline_not_mem_serializeRow hheader hstays) ?_
      rw [getLast?_serializeRow]
      decide
  rw [serializeUserDict_eq, lines_flatMap, List.flatMap_congr hline]
  exact List.flatMap_singleton' _

/-- A row that writes back is read as a row of the same bucket with the same words. -/
theorem readRow_serializeRow {row : Row} (hne : row.candidates ≠ [])
    (hplain : ∀ c ∈ row.candidates, c.lispForm = none)
    (hback : WritesBack row.midashi row.okuri) (hwords : ∀ c ∈ row.candidates, c.word ≠ []) :
    ∃ row', parseLine (serializeRow row) 0 = .ok (some row') ∧ row'.midashi = row.midashi ∧
      row'.okuri = row.okuri ∧ plainWords row'.candidates = plainWords row.candidates := by
  obtain ⟨candidates', hparse, hwords'⟩ := parseCandidates_candsText hne hplain hwords 0
  have hsplit : splitMidashiOkuri row.header = (row.midashi, row.okuri) := hback.split
  have hcomment : row.header.head? ≠ some ';' := hback.comment
  refine ⟨⟨row.midashi, row.okuri, candidates'⟩, ?_, rfl, rfl, ?_⟩
  · rw [parseLine_serializeRow hback.readable, if_neg hcomment, hparse, hsplit]
    rfl
  · rw [hwords', plainWords, List.filter_eq_self.mpr]
    intro c hc
    rw [Candidate.isDisplayable, hplain c hc]
    rfl

/-- Rows that are read as rows of the same buckets with the same words have the same
words for every bucket. -/
theorem wordsOf_filterMap {read : Row → Option Row} {written : List Row} (midashi : Str)
    (okuri : Option Str) (h : ∀ row ∈ written, ∃ row', read row = some row' ∧
      row'.midashi = row.midashi ∧ row'.okuri = row.okuri ∧
      plainWords row'.candidates = plainWords row.candidates) :
    wordsOf midashi okuri (written.filterMap read) = wordsOf midashi okuri written := by
  induction written with
  | nil => rfl
  | cons row written ih =>
      obtain ⟨row', hread, hmidashi, hokuri, hwords⟩ := h row List.mem_cons_self
      have hrest := ih fun r hr => h r (List.mem_cons_of_mem _ hr)
      have hof : row'.isOf midashi okuri = row.isOf midashi okuri := by
        rw [Row.isOf, Row.isOf, hmidashi, hokuri]
      rw [List.filterMap_cons, hread]
      unfold wordsOf at hrest ⊢
      by_cases hrow : row.isOf midashi okuri
      · simp [hof, hrow, hwords, hrest]
      · simp [hof, hrow, hrest]

/-- The dictionary is faithful when its text can be read and the rows have its words. So what is
left to show is about the lines of the text, one by one, and not about maps. -/
theorem faithful_iff_rows (hiter : iter.YieldsAll) :
    Faithful iter dict ↔
      (∀ line ∈ lines (serializeUserDict iter dict.entries), ∃ row, parseLine line 0 = .ok row) ∧
      ∀ midashi okuri, wordsOf midashi okuri
        ((lines (serializeUserDict iter dict.entries)).filterMap readRow) =
          wordsOf midashi okuri (writtenRows iter dict.entries) := by
  have hwords : ∀ (rows : List Row) (midashi : Str) (okuri : Option Str),
      UserDict.words ⟨rows.foldl addRow .empty, false⟩ midashi okuri
        = wordsOf midashi okuri rows := by
    intro rows midashi okuri
    rw [words_foldl_addRow]
    rfl
  unfold Faithful
  constructor
  · rintro ⟨dict', hload, hsame⟩
    cases hparse : parseSkkDictOrdered (serializeUserDict iter dict.entries) with
    | error e => simp [UserDict.load, hparse] at hload
    | ok map =>
        -- a file that was read is the fold of its rows
        obtain ⟨hlines, rfl⟩ := parseSkkDictOrdered_eq_ok.mp hparse
        obtain rfl : _ = dict' := by simpa [UserDict.load, hparse, pure, Except.pure] using hload
        refine ⟨hlines, fun midashi okuri => ?_⟩
        rw [← hwords, hsame, wordsOf_writtenRows hiter]
  · rintro ⟨hlines, hsame⟩
    have hparse := parseSkkDictOrdered_eq_ok.mpr ⟨hlines, rfl⟩
    refine ⟨⟨_, false⟩, by rw [UserDict.load, hparse]; rfl, fun midashi okuri => ?_⟩
    rw [hwords, hsame, wordsOf_writtenRows hiter]

/-- Every bucket is read back from its own line. The headword writes back and no word is empty,
so the line has the headword and the words again. The other lines of the file are comments or
empty. -/
theorem faithful_of_writesBack (hiter : iter.YieldsAll)
    (hdict : dict.Learned) (h : ∀ midashi okuri candidates,
      dict.bucket? midashi okuri = some candidates →
      WritesBack midashi okuri ∧ ∀ c ∈ candidates, c.word ≠ []) : Faithful iter dict := by
  have hrow : ∀ row ∈ writtenRows iter dict.entries, ∃ row',
      parseLine (serializeRow row) 0 = .ok (some row') ∧ row'.midashi = row.midashi ∧
        row'.okuri = row.okuri ∧ plainWords row'.candidates = plainWords row.candidates := by
    intro row hrow
    have hbucket := (mem_writtenRows hiter dict row).mp hrow
    obtain ⟨hback, hwords⟩ := h _ _ _ hbucket
    exact readRow_serializeRow (hdict.ne_nil hbucket) (hdict.plain hbucket) hback hwords
  have hlines : lines (serializeUserDict iter dict.entries) = fileLines iter dict.entries := by
    refine lines_serializeUserDict fun row hrow => ?_
    have hbucket := (mem_writtenRows hiter dict row).mp hrow
    exact ⟨(h _ _ _ hbucket).1.readable,
      fun c hc => staysInField_of_plain (hdict.plain hbucket c hc)⟩
  rw [faithful_iff_rows hiter, hlines]
  constructor
  · intro line hline
    -- A line of the file is a comment of the frame or the line of a bucket.
    rcases mem_fileLines hline with ⟨hframe, -⟩ | ⟨row, hmem, rfl⟩
    · exact ⟨none, parseLine_of_isFrameLine hframe⟩
    · obtain ⟨row', hparse, -⟩ := hrow row hmem
      exact ⟨_, hparse⟩
  · intro midashi okuri
    rw [filterMap_fileLines]
    refine wordsOf_filterMap midashi okuri fun row hmem => ?_
    obtain ⟨row', hparse, hsame⟩ := hrow row hmem
    exact ⟨row', by rw [readRow, hparse], hsame⟩

/-- What was read back for a bucket was read from some line, with the headword and the okurigana
of that bucket. -/
theorem exists_line_of_mem_wordsOf {midashi : Str} {okuri : Option Str} {ls : List Str}
    {word : Str} (h : word ∈ wordsOf midashi okuri (ls.filterMap readRow)) :
    ∃ line ∈ ls, ∃ row, readRow line = some row ∧ row.midashi = midashi ∧ row.okuri = okuri ∧
      word ∈ plainWords row.candidates := by
  obtain ⟨row, hrow, hword⟩ := List.mem_flatMap.mp h
  obtain ⟨hread, hof⟩ := List.mem_filter.mp hrow
  obtain ⟨line, hline, hread⟩ := List.mem_filterMap.mp hread
  obtain ⟨hmidashi, hokuri⟩ := of_decide_eq_true hof
  exact ⟨line, hline, row, hread, hmidashi, hokuri, hword⟩

/-- A row that is read was parsed, so its line is no comment. -/
theorem parseLine_of_readRow {line : Str} {row : Row} (h : readRow line = some row) :
    parseLine line 0 = .ok (some row) := by
  unfold readRow at h
  cases hparse : parseLine line 0 with
  | error e => rw [hparse] at h; cases h
  | ok row' => rw [hparse] at h; exact congrArg Except.ok h

/-- A row that is read back from the line of another row has its header, which is not taken
for a comment. -/
theorem header_not_comment {source row : Row} (hsource : Readable source.header)
    (hparse : parseLine (serializeRow source) 0 = .ok (some row)) :
    row.header.head? ≠ some ';' := by
  rw [parseLine_serializeRow hsource] at hparse
  split at hparse
  · cases hparse
  · rename_i hcomment
    have hsame : row.header = source.header := by
      cases hcands : parseCandidates (candsText source.candidates) 0 with
      | error e => rw [hcands] at hparse; cases hparse
      | ok cands =>
          rw [hcands, ok_bind] at hparse
          obtain rfl := Option.some.inj (Except.ok.inj hparse)
          exact splitMidashiOkuri_append source.header
    exact hsame ▸ hcomment

/-- Every word of a faithful dictionary is read back from some line of its file, as the word of
a row of the same bucket. -/
theorem Faithful.exists_line (hiter : iter.YieldsAll)
    (hdict : dict.Learned) (hfaithful : Faithful iter dict) {row : Row}
    (hrow : row ∈ writtenRows iter dict.entries) {c : Candidate} (hc : c ∈ row.candidates) :
    ∃ line ∈ lines (serializeUserDict iter dict.entries), ∃ row', readRow line = some row' ∧
      row'.midashi = row.midashi ∧ row'.okuri = row.okuri ∧
      c.word ∈ plainWords row'.candidates := by
  obtain ⟨-, hwords⟩ := (faithful_iff_rows hiter).mp hfaithful
  refine exists_line_of_mem_wordsOf ?_
  rw [hwords]
  refine List.mem_flatMap.mpr ⟨row, List.mem_filter.mpr ⟨hrow, by simp [Row.isOf]⟩, ?_⟩
  have hplain := hdict.plain ((mem_writtenRows hiter dict row).mp hrow) c hc
  exact List.mem_map.mpr ⟨c, List.mem_filter.mpr ⟨hc, by simp [Candidate.isDisplayable, hplain]⟩,
    rfl⟩

/-- Whatever is read back comes from a readable header, so all headers of a faithful
dictionary are readable. -/
theorem Faithful.readable (hiter : iter.YieldsAll)
    (hdict : dict.Learned) (hfaithful : Faithful iter dict) :
    ∀ row ∈ writtenRows iter dict.entries,
      Readable row.header ∧ ∀ c ∈ row.candidates, c.StaysInField := by
  intro row hrow
  have hbucket := (mem_writtenRows hiter dict row).mp hrow
  obtain ⟨c, hc⟩ := List.exists_mem_of_ne_nil _ (hdict.ne_nil hbucket)
  -- Its first word is read back from some line, and the header of that line is this one.
  obtain ⟨line, hline, row', hread, hmidashi, hokuri, -⟩ :=
    hfaithful.exists_line hiter hdict hrow hc
  have hheader := (parseLine_readable (mem_lines hline) (parseLine_of_readRow hread)).1
  rw [Row.header, hmidashi, hokuri] at hheader
  exact ⟨hheader, fun c hc => staysInField_of_plain (hdict.plain hbucket c hc)⟩

/-- In a faithful dictionary the line that gives a bucket back has its very header: a bucket has
a word, that word was read back from a line, and a line tells its headword and okurigana by the
header. -/
theorem Faithful.writesBack (hiter : iter.YieldsAll)
    (hdict : dict.Learned) (hfaithful : Faithful iter dict) {row : Row}
    (hrow : row ∈ writtenRows iter dict.entries) : WritesBack row.midashi row.okuri := by
  have hreadable := hfaithful.readable hiter hdict
  have hbucket := (mem_writtenRows hiter dict row).mp hrow
  obtain ⟨c, hc⟩ := List.exists_mem_of_ne_nil _ (hdict.ne_nil hbucket)
  obtain ⟨line, hline, row', hread, hmidashi, hokuri, -⟩ :=
    hfaithful.exists_line hiter hdict hrow hc
  have hparse := parseLine_of_readRow hread
  obtain ⟨-, hsplit, -⟩ := parseLine_readable (mem_lines hline) hparse
  have hheader : row'.header = row.midashi ++ row.okuri.getD [] := by
    rw [Row.header, hmidashi, hokuri]
  rw [hheader, hmidashi, hokuri] at hsplit
  refine ⟨(hreadable row hrow).1, ?_, hsplit⟩
  -- The line may be that of another row, but one with the same header.
  rw [lines_serializeUserDict hreadable] at hline
  rcases mem_fileLines hline with ⟨hframe, -⟩ | ⟨source, hmem, rfl⟩
  · rw [readRow_of_isFrameLine hframe] at hread
    cases hread
  · have hcomment := header_not_comment (hreadable source hmem).1 hparse
    rwa [hheader] at hcomment

/-- No word of a faithful dictionary is empty: the parser drops an empty candidate, so it would
not be read back. -/
theorem Faithful.word_ne_nil (hiter : iter.YieldsAll)
    (hdict : dict.Learned) (hfaithful : Faithful iter dict) {row : Row}
    (hrow : row ∈ writtenRows iter dict.entries) : ∀ c ∈ row.candidates, c.word ≠ [] := by
  intro c hc
  obtain ⟨line, hline, row', hread, -, -, hmem⟩ := hfaithful.exists_line hiter hdict hrow hc
  obtain ⟨-, -, hne⟩ := parseLine_readable (mem_lines hline) (parseLine_of_readRow hread)
  obtain ⟨c', hc', heq⟩ := List.mem_map.mp hmem
  rw [← heq]
  exact hne c' (List.mem_filter.mp hc').1

/-- A dictionary of plain candidates is faithful exactly when every headword writes back
with its okurigana key, and no word is empty. -/
theorem faithful_iff (hiter : iter.YieldsAll)
    (hdict : dict.Learned) : Faithful iter dict ↔ ∀ midashi okuri entry,
      dict.lookup midashi okuri = some entry →
        WritesBack midashi okuri ∧ ∀ c ∈ entry.candidates, c.word ≠ [] := by
  constructor
  · intro hfaithful midashi okuri entry hlookup
    rw [UserDict.lookup_eq] at hlookup
    obtain ⟨candidates, hbucket, rfl⟩ := Option.map_eq_some_iff.mp hlookup
    have hrow : (⟨midashi, okuri, candidates⟩ : Row) ∈ writtenRows iter dict.entries :=
      (mem_writtenRows hiter dict _).mpr hbucket
    exact ⟨hfaithful.writesBack hiter hdict hrow, hfaithful.word_ne_nil hiter hdict hrow⟩
  · intro h
    refine faithful_of_writesBack hiter hdict fun midashi okuri candidates hbucket => ?_
    exact h midashi okuri ⟨midashi, okuri, candidates⟩ (by rw [UserDict.lookup_eq, hbucket]; rfl)

end Faithful

namespace SkkEngine

variable {ρ : Type} [DictionaryProvider ρ]

/-- Over every run of an engine whose user dictionaries start without entries, saving and
loading a user dictionary is faithful exactly when each of its headwords writes back with
its okurigana key, and no provider has had it learn an empty word. -/
theorem faithful_of_session [EucJp] {kanaTable : KanaTable} {keybindings : SkkKeybindings}
    {lispDirectives : Bool} {initialPhase : SkkPhase} {providers : List (Provider ρ)}
    {history : History (Provider ρ)} {self : SkkEngine (Provider ρ)}
    (hrun : Session (fresh kanaTable keybindings lispDirectives initialPhase providers)
      history self)
    (hempty : ∀ dict, .user dict ∈ providers → dict.entries = .empty)
    {dict : UserDict} (hdict : .user dict ∈ self.dict)
    {iter : BucketOrder}
    (hiter : iter.YieldsAll) :
    Faithful iter dict ↔ ∀ midashi okuri entry, dict.lookup midashi okuri = some entry →
      WritesBack midashi okuri ∧ ∀ c ∈ entry.candidates, c.word ≠ [] :=
  faithful_iff hiter (learned_of_session hrun hempty hdict)

/-! ### A headword that is read as a comment -/

/-- The keys that register the word `x` for an abbrev headword. -/
def registerKeys (headword : Str) : List KeyEvent :=
  KeyEvent.typed ('/' :: headword) ++ [.press .space {}, .press (.char 'x') {},
    .press .returnKey {}]

/-- The headword `;f` starts a comment line, and its word is lost when the dictionary is loaded
again. It is a headword that can be typed, as an abbreviation. -/
theorem words_lost_in_comment :
    letI := EucJp.empty
    ∃ (history : History (Provider Empty)) (self : SkkEngine (Provider Empty)) (dict : UserDict),
      Session (fresh ⟨[], [], []⟩ {} true .hiragana [.user .empty]) history self ∧
      history.map Visit.input = registerKeys [';', 'f'] ∧ .user dict ∈ self.dict ∧
      dict.words [';', 'f'] none = [['x']] ∧
      (UserDict.load (some (serializeUserDict .stored dict.entries))).map
        (fun dict' => dict'.words [';', 'f'] none) = .ok [] := by
  let _ := EucJp.empty
  have hrecord := exists_session (fresh ⟨[], [], []⟩ {} true .hiragana [.user .empty])
    (registerKeys [';', 'f'])
    (fun _ (self : SkkEngine (Provider Empty)) => ∃ d ∈ self.dict, ∃ dict ∈ d.user?,
      dict.words [';', 'f'] none = [['x']] ∧
      (UserDict.load (some (serializeUserDict .stored dict.entries))).map
        (fun dict' => dict'.words [';', 'f'] none) = .ok [])
    (by decide +kernel)
  obtain ⟨history, self, hrun, hinputs, d, hd, dict, hdict, hwords⟩ := hrecord
  exact ⟨history, self, dict, hrun, hinputs, Provider.user?_eq_some hdict ▸ hd, hwords⟩

/-- The headword `f` writes back, so its dictionary is faithful. It has one bucket with one
word, and neither of them has a separator in it. -/
theorem faithful_of_session_abbrev :
    letI := EucJp.empty
    ∃ (history : History (Provider Empty)) (self : SkkEngine (Provider Empty)) (dict : UserDict),
      Session (fresh ⟨[], [], []⟩ {} true .hiragana [.user .empty]) history self ∧
      .user dict ∈ self.dict ∧ dict.words ['f'] none = [['x']] ∧
      Faithful .stored dict := by
  let _ := EucJp.empty
  have hrecord := exists_session (fresh ⟨[], [], []⟩ {} true .hiragana [.user .empty])
    (registerKeys ['f'])
    (fun _ (self : SkkEngine (Provider Empty)) => ∃ d ∈ self.dict, ∃ dict ∈ d.user?,
      dict.words ['f'] none = [['x']] ∧
      rows .stored dict.entries = [⟨['f'], none, [⟨['x'], none, none⟩]⟩])
    (by decide +kernel)
  obtain ⟨history, self, hrun, -, d, hd, dict, hdict, hwords, hrows⟩ := hrecord
  have hmem : .user dict ∈ self.dict := Provider.user?_eq_some hdict ▸ hd
  have hiter := BucketOrder.yieldsAll_stored
  refine ⟨history, self, dict, hrun, hmem, hwords, (faithful_of_session hrun ?_ hmem hiter).mpr ?_⟩
  · intro dict' hdict'
    cases List.mem_singleton.mp hdict'
    rfl
  · intro midashi okuri entry hlookup
    rw [UserDict.lookup_eq] at hlookup
    obtain ⟨candidates, hbucket, rfl⟩ := Option.map_eq_some_iff.mp hlookup
    have hrow := (mem_rows hiter dict ⟨midashi, okuri, candidates⟩).mpr hbucket
    rw [hrows, List.mem_singleton] at hrow
    cases hrow
    refine ⟨⟨⟨by decide, by decide, fun c hc => ?_, by decide⟩, by decide, rfl⟩, by decide⟩
    cases hc
    decide

end SkkEngine

end Y2Skk
