import Y2Skk.Lib.Regroup
import Y2Skk.Proofs.LispFields
import Y2Skk.Proofs.Recency

/-!
# `Y2Skk.Proofs.CompletionOrder`: recency through the file

The file keeps the order of the headwords, oldest first, in two groups: the rows with
okurigana, then the others. `keys_parsed` is the order that is read back. A headword with
rows in both groups is read with the first one, so it counts as older than every headword
without okurigana.

`complete_parse_iff` says when `complete` answers alike before and after: when no row is
an annotation without a word, which the reader rejects, and the headwords with okurigana
are the oldest completions anyway.

## Clear headwords

The file is text, and not every headword can be read back from it: one that begins with
`;` is a comment, one that ends in a Latin letter looks like a headword with an okurigana
key. `ClearHeadword` asks for what the readings of an input method have: no separators, a
character that is not ASCII, and no letter at the end. Readings in hiragana are clear
(`of_hiragana`).

## The proof

* The lines of the file are its rows between the section titles (`lines_of_clear`), and
  each is read as a row of the same bucket or rejected (`parseLine_writesBack`).
* The buckets that are read are therefore those that were written
  (`isSome_bucket?_foldl`), in the order of the first line of each headword
  (`keys_foldl_addRow`).
* Over the completions this order is `regrouped`, from `Lib.Regroup`, which changes
  nothing exactly when the first group came first already.

The order of the inner maps is any that yields all their entries, as that of a `HashMap`.
-/

set_option autoImplicit false

namespace Y2Skk

open Outcome Utf8 Regroup

/-! ### Headwords that are written unambiguously -/

/-- The headword is written unambiguously: it is read back as it is, whether a key follows it or
not. -/
structure ClearHeadword (midashi : Str) : Prop where
  ne_nil : midashi ≠ []
  plain : ∀ c ∈ midashi, isWhitespace c = false ∧ c ≠ '/' ∧ c ≠ ';'
  /-- A kana, or any other character that is not ASCII. -/
  kana : ∃ c ∈ midashi, 0x80 ≤ c.toNat
  last : ∀ c, midashi.getLast? = some c → c.isAlpha = false

/-- Headwords and okurigana keys are written unambiguously. -/
structure UserDict.Clear (dict : UserDict) : Prop where
  headword : ∀ midashi okuri candidates, dict.bucket? midashi okuri = some candidates →
    ClearHeadword midashi
  okuri : ∀ midashi okuri candidates, dict.bucket? midashi (some okuri) = some candidates →
    ∃ c, okuri = [c] ∧ c.isAlpha

/-- The ASCII letters by their codes. -/
theorem isAlpha_range {c : Char} (h : c.isAlpha) :
    (65 ≤ c.toNat ∧ c.toNat ≤ 90) ∨ (97 ≤ c.toNat ∧ c.toNat ≤ 122) := by
  have hcase : (decide (c.val ≥ 'A'.val ∧ c.val ≤ 'Z'.val) ||
      (decide (c.val ≥ 'a'.val) && decide (c.val ≤ 'z'.val))) = true := h
  simpa [UInt32.le_iff_toNat_le] using hcase

/-- A letter is no separator of a line, so an okurigana key can follow a headword. -/
theorem isAlpha_plain {c : Char} (h : c.isAlpha) :
    isWhitespace c = false ∧ c ≠ '/' ∧ c ≠ ';' := by
  have hrange := isAlpha_range h
  refine ⟨?_, (by rintro rfl; cases h), (by rintro rfl; cases h)⟩
  simp only [isWhitespace, decide_eq_false_iff_not]
  omega

/-- A reading in hiragana is a clear headword. The characters from U+3041 to U+3096 are neither
blank nor ASCII, so none of them is a separator of the file or an okurigana key. -/
theorem ClearHeadword.of_hiragana {midashi : Str} (hne : midashi ≠ [])
    (h : ∀ c ∈ midashi, 0x3041 ≤ c.toNat ∧ c.toNat ≤ 0x3096) : ClearHeadword midashi where
  ne_nil := hne
  plain c hc := by
    have hrange := h c hc
    refine ⟨?_, ?_, ?_⟩
    · simp only [isWhitespace, decide_eq_false_iff_not]
      omega
    · rintro rfl
      exact absurd hrange.1 (by decide)
    · rintro rfl
      exact absurd hrange.1 (by decide)
  kana := by
    obtain ⟨c, hc⟩ := List.exists_mem_of_ne_nil _ hne
    exact ⟨c, hc, Nat.le_trans (by decide) (h c hc).1⟩
  last c hc := by
    have hrange := h c (List.mem_of_getLast? hc)
    refine Bool.eq_false_iff.mpr fun halpha => ?_
    have := isAlpha_range halpha
    omega

/-- A clear headword writes back, with a key and without. No separator is in it, no comment
starts with it, and the reader of the file finds the key again: the last character is a letter
just when a key was written. -/
theorem ClearHeadword.writesBack {midashi : Str} (h : ClearHeadword midashi) {okuri : Option Str}
    (hokuri : ∀ key, okuri = some key → ∃ c, key = [c] ∧ c.isAlpha) :
    WritesBack midashi okuri := by
  have hplain : ∀ c ∈ midashi ++ okuri.getD [], isWhitespace c = false ∧ c ≠ '/' ∧ c ≠ ';' := by
    intro c hc
    rcases List.mem_append.mp hc with hc | hc
    · exact h.plain c hc
    · cases okuri with
      | none => cases hc
      | some key =>
          obtain ⟨d, rfl, hd⟩ := hokuri key rfl
          rw [List.mem_singleton.mp hc]
          exact isAlpha_plain hd
  have hmem : ∀ c, (midashi ++ okuri.getD []).head? = some c → c ∈ midashi ++ okuri.getD [] :=
    fun c hc => List.mem_of_head? hc
  refine ⟨⟨by simp [h.ne_nil], fun hnewline => ?_, fun c hc => (hplain c (hmem c hc)).1, ?_⟩,
    ?_, ?_⟩
  · have hwhite := (hplain _ hnewline).1
    revert hwhite
    decide
  · intro hinside
    exact (hplain '/' (hinside.subset (by simp))).2.1 rfl
  · intro hcomment
    exact (hplain ';' (hmem _ hcomment)).2.2 rfl
  · -- a character beyond ASCII makes a trailing letter an okurigana key
    obtain ⟨k, hk, hkana⟩ := h.kana
    cases okuri with
    | none =>
        obtain ⟨last, hlast⟩ : ∃ last, midashi.getLast? = some last :=
          ⟨_, List.getLast?_eq_some_getLast h.ne_nil⟩
        rw [Option.getD_none, List.append_nil, splitMidashiOkuri, hlast]
        exact if_neg (by simp [h.last last hlast])
    | some key =>
        obtain ⟨d, rfl, hd⟩ := hokuri key rfl
        have hall : (midashi ++ [d]).all (fun c => decide (c.toNat < 0x80)) = false := by
          rw [List.all_eq_false]
          exact ⟨k, by simp [hk], by simpa using hkana⟩
        rw [Option.getD_some, splitMidashiOkuri, List.getLast?_concat]
        dsimp only
        rw [if_pos (by simp [hd, hall]), List.dropLast_concat]

/-! ### The order that is read back -/

/-- Rows are read into the map in the order of their headwords: a new headword comes last, and
one that is there stays in its place. -/
theorem keys_foldl_addRow (rows : List Row) : ∀ map : UserEntryMap,
    (rows.foldl addRow map).keys = collect map.keys (rows.map Row.midashi) := by
  induction rows with
  | nil => intro map; rfl
  | cons row rows ih =>
      intro map
      rw [List.foldl_cons, ih, addRow, OrdMap.upsert, OrdMap.keys_insert]
      rfl

/-- Reading a row makes its bucket and no other; a bucket that was there stays. -/
theorem isSome_bucket?_addRow (map : UserEntryMap) (dirty : Bool) (row : Row) (midashi : Str)
    (okuri : Option Str) : (UserDict.bucket? ⟨addRow map row, dirty⟩ midashi okuri).isSome ↔
      (UserDict.bucket? ⟨map, dirty⟩ midashi okuri).isSome ∨
        (row.midashi, row.okuri) = (midashi, okuri) := by
  rw [bucket?_addRow]
  split
  · rename_i hrow
    simp [Row.isOf_iff.mp hrow]
  · rename_i hrow
    simp [mt Row.isOf_iff.mpr hrow]

/-- The buckets that are read are those of the rows, in whatever order the rows come. -/
theorem isSome_bucket?_foldl (rows : List Row) (dirty : Bool) (midashi : Str)
    (okuri : Option Str) : ∀ map : UserEntryMap,
    (UserDict.bucket? ⟨rows.foldl addRow map, dirty⟩ midashi okuri).isSome ↔
      (UserDict.bucket? ⟨map, dirty⟩ midashi okuri).isSome ∨
        (midashi, okuri) ∈ rows.map fun row => (row.midashi, row.okuri) := by
  induction rows with
  | nil => intro map; simp
  | cons row rows ih =>
      intro map
      rw [List.foldl_cons, ih, isSome_bucket?_addRow, List.map_cons, List.mem_cons, or_assoc,
        eq_comm (a := (row.midashi, row.okuri))]

section Order
variable {iter : BucketOrder} {dict : UserDict}

/-- The headword has a bucket with an okurigana key. -/
def UserDict.hasOkuri (dict : UserDict) (midashi : Str) : Bool :=
  (dict.entries.get? midashi).any fun okuriMap => okuriMap.entries.any fun e => e.1.isSome

/-- The rows of a headword in one of the groups. -/
def groupSize (iter : BucketOrder) (map : UserEntryMap)
    (inGroup : Option Str → Bool) (midashi : Str) : Nat :=
  ((iter midashi ((map.get? midashi).getD .empty)).filter fun e => inGroup e.1).length

/-- The headwords of a group, in the order of the map: each as often as it has buckets in the
group. -/
theorem midashi_filter_rows (map : UserEntryMap) (inGroup : Option Str → Bool) :
    ((rows iter map).filter fun row => inGroup row.okuri).map Row.midashi =
      map.keys.flatMap fun midashi =>
        List.replicate (groupSize iter map inGroup midashi) midashi := by
  have hrun : ∀ e ∈ map.entries, (((iter e.1 e.2).map fun b => (⟨e.1, b.1, b.2⟩ : Row)).filter
      fun row => inGroup row.okuri).map Row.midashi =
        List.replicate (groupSize iter map inGroup e.1) e.1 := by
    intro e he
    have hget : map.get? e.1 = some e.2 := (OrdMap.get?_eq_some_iff ..).mpr he
    rw [groupSize, hget, Option.getD_some, List.filter_map, List.map_map]
    exact List.map_const' ..
  unfold rows OrdMap.keys
  rw [List.filter_flatMap, List.map_flatMap, List.flatMap_map]
  exact List.flatMap_congr hrun

/-- A bucket is an entry of the inner map of its headword, under the okurigana key or under
none. -/
theorem UserDict.isSome_bucket?_iff_mem (dict : UserDict) (midashi : Str) (okuri : Option Str) :
    (dict.bucket? midashi okuri).isSome ↔
      ∃ e ∈ ((dict.entries.get? midashi).getD .empty).entries, e.1 = okuri := by
  unfold bucket?
  cases dict.entries.get? midashi with
  | none => simp [OrdMap.empty]
  | some okuriMap =>
      rw [Option.bind_some, Option.getD_some, Option.isSome_iff_exists]
      simp [OrdMap.get?_eq_some_iff]

/-- A headword has rows in a group exactly when it has a bucket there, in whatever order its
buckets come. -/
theorem groupSize_ne_zero (hiter : iter.YieldsAll)
    (dict : UserDict) (inGroup : Option Str → Bool) (midashi : Str) :
    groupSize iter dict.entries inGroup midashi ≠ 0 ↔
      ∃ okuri, inGroup okuri ∧ (dict.bucket? midashi okuri).isSome := by
  unfold groupSize
  rw [← Nat.pos_iff_ne_zero, List.length_pos_iff_exists_mem]
  constructor
  · rintro ⟨e, he⟩
    obtain ⟨hmem, hgroup⟩ := List.mem_filter.mp he
    exact ⟨e.1, hgroup, (dict.isSome_bucket?_iff_mem midashi e.1).mpr
      ⟨e, (hiter _ _).mem_iff.mp hmem, rfl⟩⟩
  · rintro ⟨okuri, hgroup, hsome⟩
    obtain ⟨e, hmem, rfl⟩ := (dict.isSome_bucket?_iff_mem midashi okuri).mp hsome
    exact ⟨e, List.mem_filter.mpr ⟨(hiter _ _).mem_iff.mpr hmem, hgroup⟩⟩

/-- The same for the okurigana of a headword. -/
theorem UserDict.hasOkuri_iff (dict : UserDict) (midashi : Str) :
    dict.hasOkuri midashi ↔ ∃ okuri, okuri.isSome ∧ (dict.bucket? midashi okuri).isSome := by
  simp only [isSome_bucket?_iff_mem]
  unfold hasOkuri
  cases dict.entries.get? midashi with
  | none => simp [OrdMap.empty]
  | some okuriMap => simp [and_comm]

/-- The headwords in the order they are read back: those with okurigana first, and within either
group as they were written. One that has both kinds of rows stands in the first group only,
since a headword keeps the place of its first row. -/
theorem keys_parsed (hiter : iter.YieldsAll)
    (dict : UserDict) : collect [] ((writtenRows iter dict.entries).map Row.midashi) =
      dict.entries.keys.filter (fun midashi => dict.hasOkuri midashi) ++
      dict.entries.keys.filter fun midashi =>
        (dict.bucket? midashi none).isSome && !dict.hasOkuri midashi := by
  -- whether a headword has rows of a kind is seen from its buckets
  have hokuri : ∀ midashi, decide (groupSize iter dict.entries Option.isSome midashi ≠ 0)
      = dict.hasOkuri midashi := by
    intro midashi
    rw [Bool.eq_iff_iff, decide_eq_true_iff, groupSize_ne_zero hiter, dict.hasOkuri_iff]
  have hplain : ∀ midashi, decide (groupSize iter dict.entries Option.isNone midashi ≠ 0)
      = (dict.bucket? midashi none).isSome := by
    intro midashi
    rw [Bool.eq_iff_iff, decide_eq_true_iff, groupSize_ne_zero hiter]
    simp
  have hnone : ∀ midashi, decide (groupSize iter dict.entries Option.isSome midashi = 0)
      = !dict.hasOkuri midashi := by
    intro midashi
    rw [← hokuri, decide_not, Bool.not_not]
  rw [writtenRows, List.map_append, midashi_filter_rows, midashi_filter_rows,
    collect_groups _ _ (show dict.entries.keys.Nodup from dict.entries.nodup)]
  simp only [hokuri, hplain, hnone]

/-! ### Reading the file back -/

/-- The candidates are read back unless one of them is a bare annotation, whose field begins
with `;`: the reader takes its word to be empty and rejects the line. -/
theorem parseCandidates_candsText_iff {candidates : List Candidate}
    (hformed : ∀ c ∈ candidates, c.Formed) (lineNum : Nat) :
    (∃ candidates', parseCandidates (candsText candidates) lineNum = .ok candidates') ↔
      ∀ c ∈ candidates, ¬ c.IsBare := by
  simp only [parseCandidates_eq_ok, exists_and_left, exists_eq, and_true]
  by_cases hnil : candidates = []
  · subst hnil
    have hsplit : (candsText []).splitOn '/' = [[], []] := by decide
    rw [hsplit]
    simp
  · -- the fields of the line are those of the candidates and an empty one at the end, which is
    -- skipped
    rw [splitOn_candsText hnil fun c hc => (hformed c hc).staysInField]
    constructor
    · intro hreads c hc
      rw [← Candidate.readsBack_iff (hformed c hc)]
      exact hreads _ (List.mem_append_left _ (List.mem_map_of_mem hc))
    · intro hbare field hfield
      rcases List.mem_append.mp hfield with hfield | hend
      · obtain ⟨c, hc, rfl⟩ := List.mem_map.mp hfield
        exact (Candidate.readsBack_iff (hformed c hc)).mpr (hbare c hc)
      · intro hne
        exact (hne (List.mem_singleton.mp hend)).elim

/-- The line of a row that writes back is read as a row of the same bucket, or not at all. The
candidates of the row that is read may differ from those written; the order of the headwords
does not look at them. -/
theorem parseLine_writesBack {row : Row} (hback : WritesBack row.midashi row.okuri) :
    parseLine (serializeRow row) 0 = do
      let candidates ← parseCandidates (candsText row.candidates) 0
      return some ⟨row.midashi, row.okuri, candidates⟩ := by
  have hsplit : splitMidashiOkuri row.header = (row.midashi, row.okuri) := hback.split
  have hcomment : row.header.head? ≠ some ';' := hback.comment
  rw [parseLine_serializeRow hback.readable, if_neg hcomment, hsplit]

/-- No bucket has a candidate that is an annotation without a word. -/
def UserDict.NoBare (dict : UserDict) : Prop := ∀ midashi okuri candidates,
  dict.bucket? midashi okuri = some candidates → ∀ c ∈ candidates, ¬ c.IsBare

/-- The rows that are written write back: in a clear dictionary the header of a line tells the
headword from the okurigana. -/
theorem UserDict.Clear.writesBack (hiter : iter.YieldsAll)
    (hclear : dict.Clear) {row : Row} (hrow : row ∈ writtenRows iter dict.entries) :
    WritesBack row.midashi row.okuri := by
  have hbucket := (mem_writtenRows hiter dict row).mp hrow
  refine (hclear.headword _ _ _ hbucket).writesBack ?_
  intro key hkey
  rw [hkey] at hbucket
  exact hclear.okuri _ _ _ hbucket

/-- The lines of a clear dictionary are its rows, between the section titles. -/
theorem lines_of_clear (hiter : iter.YieldsAll)
    (hclear : dict.Clear) (hformed : dict.Formed) :
    lines (serializeUserDict iter dict.entries) = fileLines iter dict.entries := by
  refine lines_serializeUserDict fun row hrow => ⟨(hclear.writesBack hiter hrow).readable, ?_⟩
  intro c hc
  exact (hformed _ _ _ ((mem_writtenRows hiter dict row).mp hrow) c hc).staysInField

/-- Every row is a line of the file, in the block of its kind. -/
theorem serializeRow_mem_fileLines {map : UserEntryMap} {row : Row}
    (hrow : row ∈ writtenRows iter map) : serializeRow row ∈ fileLines iter map := by
  have hblock : ∀ {written : List Row}, row ∈ written →
      serializeRow row ∈ blockLines (written.map serializeRow) := by
    intro written hmem
    rw [blockLines, if_neg (List.ne_nil_of_mem (List.mem_map_of_mem hmem))]
    exact List.mem_map_of_mem hmem
  unfold fileLines
  rcases List.mem_append.mp hrow with hari | hnasi
  · have hline := hblock hari
    simp [hline]
  · exact List.mem_append_right _ (hblock hnasi)

/-- The file of a clear dictionary is read unless a candidate is a bare annotation. One such
candidate makes the whole file unreadable, since the reader stops at the first error. -/
theorem parse_iff_noBare (hiter : iter.YieldsAll)
    (hclear : dict.Clear) (hformed : dict.Formed) :
    (∃ map, parseSkkDictOrdered (serializeUserDict iter dict.entries) = .ok map) ↔
      dict.NoBare := by
  have hline : ∀ row ∈ writtenRows iter dict.entries,
      (∃ row', parseLine (serializeRow row) 0 = .ok row') ↔
        ∀ c ∈ row.candidates, ¬ c.IsBare := by
    intro row hrow
    have hbucket := (mem_writtenRows hiter dict row).mp hrow
    rw [parseLine_writesBack (hclear.writesBack hiter hrow),
      ← parseCandidates_candsText_iff (hformed _ _ _ hbucket) 0]
    cases parseCandidates (candsText row.candidates) 0 with
    | error e =>
        constructor
        · rintro ⟨row', heq⟩
          cases heq
        · rintro ⟨candidates, heq⟩
          cases heq
    | ok candidates => exact iff_of_true ⟨_, rfl⟩ ⟨_, rfl⟩
  simp only [parseSkkDictOrdered_eq_ok, exists_and_left, exists_eq, and_true,
    lines_of_clear hiter hclear hformed]
  constructor
  · intro hlines midashi okuri candidates hbucket
    have hrow : (⟨midashi, okuri, candidates⟩ : Row) ∈ writtenRows iter dict.entries :=
      (mem_writtenRows hiter dict _).mpr hbucket
    exact (hline _ hrow).mp (hlines _ (serializeRow_mem_fileLines hrow))
  · intro hbare line hmem
    -- a line of the file is a heading, which is a comment, or the line of a row
    rcases mem_fileLines hmem with ⟨hframe, -⟩ | ⟨row, hrow, rfl⟩
    · exact ⟨none, parseLine_of_isFrameLine hframe⟩
    · exact (hline row hrow).mpr (hbare _ _ _ ((mem_writtenRows hiter dict row).mp hrow))

/-- Reading rows keeps what all of them keep, in their order, when none of them is dropped. -/
theorem map_filterMap_eq {α β γ : Type} {read : α → Option β} {key : α → γ} {key' : β → γ}
    {l : List α} (h : ∀ a ∈ l, ∃ b, read a = some b ∧ key' b = key a) :
    (l.filterMap read).map key' = l.map key := by
  induction l with
  | nil => rfl
  | cons a l ih =>
      obtain ⟨b, hread, hkey⟩ := h a List.mem_cons_self
      rw [List.filterMap_cons, hread]
      simp [hkey, ih fun a' ha' => h a' (List.mem_cons_of_mem _ ha')]

/-- What is read back: the buckets of the dictionary, with the headwords that have okurigana in
front. The file was read, so every row is; only the order of the headwords is new, and it is the
one in which the rows were written. -/
theorem reloaded (hiter : iter.YieldsAll)
    (hclear : dict.Clear) (hformed : dict.Formed) {map : UserEntryMap}
    (hparse : parseSkkDictOrdered (serializeUserDict iter dict.entries) = .ok map) :
    map.keys = dict.entries.keys.filter (fun midashi => dict.hasOkuri midashi) ++
        dict.entries.keys.filter (fun midashi =>
          (dict.bucket? midashi none).isSome && !dict.hasOkuri midashi) ∧
      ∀ midashi okuri, (UserDict.bucket? ⟨map, false⟩ midashi okuri).isSome ↔
        (dict.bucket? midashi okuri).isSome := by
  obtain ⟨hlines, rfl⟩ := parseSkkDictOrdered_eq_ok.mp hparse
  rw [lines_of_clear hiter hclear hformed] at hlines ⊢
  -- each row comes back under its own headword and key
  have hread : ∀ row ∈ writtenRows iter dict.entries, ∃ row',
      readRow (serializeRow row) = some row' ∧
        (row'.midashi, row'.okuri) = (row.midashi, row.okuri) := by
    intro row hrow
    obtain ⟨read, hline⟩ := hlines _ (serializeRow_mem_fileLines hrow)
    have hback := parseLine_writesBack (hclear.writesBack hiter hrow)
    cases hcands : parseCandidates (candsText row.candidates) 0 with
    | error e =>
        rw [hback, hcands] at hline
        cases hline
    | ok candidates =>
        refine ⟨⟨row.midashi, row.okuri, candidates⟩, ?_, rfl⟩
        rw [readRow, hback, hcands]
        rfl
  have hkeys := map_filterMap_eq hread
  rw [filterMap_fileLines]
  constructor
  · have hmidashi := congrArg (List.map Prod.fst) hkeys
    rw [List.map_map, List.map_map] at hmidashi
    rw [keys_foldl_addRow, ← keys_parsed hiter]
    exact congrArg (collect []) hmidashi
  · intro midashi okuri
    have hempty : UserDict.bucket? ⟨.empty, false⟩ midashi okuri = none := rfl
    rw [isSome_bucket?_foldl, hempty, hkeys, List.mem_map]
    simp only [Option.isSome_none, Bool.false_eq_true, false_or]
    constructor
    · rintro ⟨row, hrow, heq⟩
      obtain ⟨rfl, rfl⟩ := Prod.mk.inj heq
      rw [(mem_writtenRows hiter dict row).mp hrow]
      rfl
    · intro hsome
      obtain ⟨candidates, hbucket⟩ := Option.isSome_iff_exists.mp hsome
      exact ⟨⟨midashi, okuri, candidates⟩, (mem_writtenRows hiter dict _).mpr hbucket, rfl⟩

/-! ### Completions after a restart -/

namespace UserDict

/-- The headword is a completion: it continues `pre`, and has a bucket without okurigana. -/
def continues (dict : UserDict) (pre midashi : Str) : Bool :=
  pre.isPrefixOf midashi && decide (midashi ≠ pre) && (dict.bucket? midashi none).isSome

/-- Among the completions, those that have okurigana too were used before the others. The file
puts them first, so under this condition it keeps the order of the completions. -/
def OkuriFirst (dict : UserDict) (pre : Str) : Prop :=
  ∀ older newer, [older, newer].Sublist dict.entries.keys → dict.continues pre older →
    dict.continues pre newer → dict.hasOkuri newer → dict.hasOkuri older

/-- The condition as it is found in the list of completions: no one without okurigana stands
before one with okurigana. -/
theorem okuriFirst_iff (dict : UserDict) (pre : Str) : dict.OkuriFirst pre ↔
    (dict.entries.keys.filter (dict.continues pre)).Pairwise
      fun older newer => dict.hasOkuri newer → dict.hasOkuri older := by
  rw [List.pairwise_filter, List.pairwise_iff_forall_sublist]
  constructor
  · intro h older newer hsub holder hnewer
    exact h older newer hsub holder hnewer
  · intro h older newer hsub holder hnewer
    exact h hsub holder hnewer

end UserDict

/-- After a restart the completions with okurigana count as the older ones, and `complete` lists
them last. Before the restart the headwords stand in the order of their last use, so the two
orders differ by this regrouping alone. -/
theorem complete_reloaded (hiter : iter.YieldsAll)
    (hclear : dict.Clear) (hformed : dict.Formed) {map : UserEntryMap}
    (hparse : parseSkkDictOrdered (serializeUserDict iter dict.entries) = .ok map) (pre : Str) :
    UserDict.complete ⟨map, false⟩ pre =
      (regrouped dict.hasOkuri (dict.entries.keys.filter (dict.continues pre))).reverse := by
  obtain ⟨hkeys, hbuckets⟩ := reloaded hiter hclear hformed hparse
  have hsame : ∀ midashi, (UserDict.bucket? ⟨map, false⟩ midashi none).isSome =
      (dict.bucket? midashi none).isSome :=
    fun midashi => Bool.eq_iff_iff.mpr (hbuckets midashi none)
  rw [UserDict.complete_eq, hkeys]
  simp only [hsame]
  rw [List.filter_reverse, List.filter_append, regrouped, List.filter_filter, List.filter_filter,
    List.filter_filter, List.filter_filter]
  congr 2
  · refine List.filter_congr fun midashi _ => ?_
    exact Bool.and_comm ..
  · refine List.filter_congr fun midashi _ => ?_
    unfold UserDict.continues
    cases (dict.bucket? midashi none).isSome <;> simp [Bool.and_comm]

/-- A clear dictionary completes alike after a restart, for every order of its inner maps,
exactly when no candidate is an annotation without a word, and the completions with okurigana
were used before those without. -/
theorem complete_parse_iff (hiter : iter.YieldsAll)
    (hclear : dict.Clear) (hformed : dict.Formed) (pre : Str) :
    (∃ map, parseSkkDictOrdered (serializeUserDict iter dict.entries) = .ok map ∧
        UserDict.complete ⟨map, false⟩ pre = dict.complete pre) ↔
      dict.NoBare ∧ dict.OkuriFirst pre := by
  have hbefore : dict.complete pre =
      (dict.entries.keys.filter (dict.continues pre)).reverse := by
    rw [UserDict.complete_eq, List.filter_reverse]
    rfl
  rw [← parse_iff_noBare hiter hclear hformed, dict.okuriFirst_iff, ← regrouped_eq_self_iff,
    hbefore]
  constructor
  · -- The file is read, so no candidate is bare, and two equal reversed lists of completions are
    -- equal lists.
    rintro ⟨map, hparse, hsame⟩
    rw [complete_reloaded hiter hclear hformed hparse] at hsame
    exact ⟨⟨map, hparse⟩, List.reverse_inj.mp hsame⟩
  · rintro ⟨⟨map, hparse⟩, hsame⟩
    refine ⟨map, hparse, ?_⟩
    rw [complete_reloaded hiter hclear hformed hparse, hsame]

end Order

namespace UserDict

/-- A dictionary of plain candidates is formed. -/
theorem Learned.formed {dict : UserDict} (h : dict.Learned) : dict.Formed := by
  intro midashi okuri candidates hbucket c hc hform
  rw [h.plain hbucket c hc] at hform
  cases hform

/-- The headwords and keys of a dictionary were learned: a bucket was made by some change of the
history. -/
theorem learns_of_bucket? {changes : List Change} {midashi : Str} {okuri : Option Str}
    {candidates : List Candidate}
    (h : (after changes).bucket? midashi okuri = some candidates) :
    ∃ word, ∃ change ∈ changes, Learns midashi okuri word change := by
  have hsome : ((after changes).bucket? midashi okuri).isSome := by rw [h]; rfl
  obtain ⟨word, before, change, later, heq, hlearns, -⟩ :=
    (isSome_bucket?_iff changes midashi okuri).mp hsome
  exact ⟨word, change, by simp [heq], hlearns⟩

/-- A dictionary is clear when everything it learned is, since purges make no bucket. -/
theorem clear_after {changes : List Change} (h : ∀ midashi okuri word ann,
    .learn midashi okuri word ann ∈ changes →
      ClearHeadword midashi ∧ ∀ key, okuri = some key → ∃ c, key = [c] ∧ c.isAlpha) :
    (after changes).Clear := by
  constructor
  · intro midashi okuri candidates hbucket
    obtain ⟨word, _, hmem, ann, rfl⟩ := learns_of_bucket? hbucket
    exact (h midashi okuri word ann hmem).1
  · intro midashi okuri candidates hbucket
    obtain ⟨word, _, hmem, ann, rfl⟩ := learns_of_bucket? hbucket
    exact (h midashi (some okuri) word ann hmem).2 okuri rfl

/-- A dictionary that learned no empty word has no bare annotation. -/
theorem noBare_after {changes : List Change} (h : ∀ midashi okuri word ann,
    .learn midashi okuri word ann ∈ changes → word ≠ []) : (after changes).NoBare := by
  intro midashi okuri candidates hbucket c hc hbare
  have hholds := holds_bucket changes midashi okuri
  rw [bucket, hbucket] at hholds
  obtain ⟨before, change, later, heq, rfl, -⟩ := (hholds.learned c hc).2
  exact h midashi okuri c.word c.annotation (by simp [heq]) hbare.2.1

/-- The headword `あう`, and the headword `あい` with okurigana and without. -/
def au : Change := .learn ['あ', 'う'] none ['会'] none
/-- The headword `あい`, learned first without okurigana and then with it. -/
def ai : List Change :=
  [.learn ['あ', 'い'] none ['愛'] none, .learn ['あ', 'い'] (some ['t']) ['会'] none]

/-- The changes of the example are of clear headwords, all in Hiragana and with a letter as the
key of an okurigana. -/
theorem clear_ai {midashi : Str} {okuri : Option Str} {word : Str} {ann : Option Str}
    (h : Change.learn midashi okuri word ann ∈ au :: ai) :
    ClearHeadword midashi ∧ ∀ key, okuri = some key → ∃ c, key = [c] ∧ c.isAlpha := by
  have hau : ClearHeadword ['あ', 'う'] := .of_hiragana (by simp) (by simp)
  have hai : ClearHeadword ['あ', 'い'] := .of_hiragana (by simp) (by simp)
  rcases List.mem_cons.mp h with heq | h
  · cases heq
    exact ⟨hau, fun key hkey => by cases hkey⟩
  rcases List.mem_cons.mp h with heq | h
  · cases heq
    exact ⟨hai, fun key hkey => by cases hkey⟩
  · cases List.mem_singleton.mp h
    exact ⟨hai, fun key hkey => ⟨'t', (Option.some.inj hkey).symm, rfl⟩⟩

/-- Used after `あう`, the headword `あい` comes first among the completions, and last after a
restart: its row with okurigana is written first. -/
theorem recency_lost :
    (after (au :: ai)).Clear ∧ (after (au :: ai)).Formed ∧
    (after (au :: ai)).complete ['あ'] = [['あ', 'い'], ['あ', 'う']] ∧
    (parseSkkDictOrdered (serializeUserDict .stored (after (au :: ai)).entries)).map
      (fun map => complete ⟨map, false⟩ ['あ']) = .ok [['あ', 'う'], ['あ', 'い']] :=
  ⟨clear_after fun _ _ _ _ h => clear_ai h, (learned_after _).formed, by decide,
    by decide +kernel⟩

/-- Used before `あう`, it comes last, and stays there when the file is read back. -/
theorem complete_parse_ai : ∃ map,
    parseSkkDictOrdered (serializeUserDict .stored (after (ai ++ [au])).entries) = .ok map ∧
      complete ⟨map, false⟩ ['あ'] = (after (ai ++ [au])).complete ['あ'] := by
  have hmem : ∀ {change}, change ∈ ai ++ [au] → change ∈ au :: ai := by
    intro change h
    simpa [or_comm] using h
  have hclear : (after (ai ++ [au])).Clear := clear_after fun _ _ _ _ h => clear_ai (hmem h)
  refine (complete_parse_iff BucketOrder.yieldsAll_stored hclear (learned_after _).formed
    ['あ']).mpr ⟨?_, ?_⟩
  · refine noBare_after fun midashi okuri word ann h => ?_
    simp only [ai, au, List.cons_append, List.nil_append, List.mem_cons, Change.learn.injEq,
      List.not_mem_nil, or_false] at h
    rcases h with ⟨-, -, rfl, -⟩ | ⟨-, -, rfl, -⟩ | ⟨-, -, rfl, -⟩ <;> simp
  · rw [okuriFirst_iff]
    decide

end UserDict

end Y2Skk
