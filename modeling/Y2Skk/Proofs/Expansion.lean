import Y2Skk.Lib.Choices
import Y2Skk.Proofs.Directives

/-!
# `Y2Skk.Proofs.Expansion`: templates and their expansions

`scan` takes the digit runs out of a reading and `expand` puts runs into a word. The two
are inverse to each other (`scan_expand`): with a raw marker in place of every `#` of the
template, the expansion over the runs is the reading. `ScanInv` is what the loop of `scan`
keeps for the text it has read.

## The expander with lookups

The other expander, `expandWithRecursiveLookup`, is compared with `expand` where no `#4`
asks for a lookup (`expand_agrees`), and with the full product elsewhere. `Segment` says
what a word is made of when the runs are put in, a text or one of several alternatives,
and `IsFullExpansion` what all its expansions are: one for each choice of alternatives, in
the order of their positions.

## The cap

The loop cuts the product off after each marker, at `maxRecursiveExpansions`. That this
loses nothing but what a cut at the end would lose is `expandWithRecursiveLookup_capped`.
The reason is `take_spread_take`: every result that is kept has at least one continuation,
so the first elements of the whole product come from the first results. The condition
`.choice [] ∉ segs` says that, and the loop provides it, as it gives up at a lookup that
finds nothing.

The invariant of the induction is `SpreadsOver`: what the loop returns from here is the
spread of its results over the segments that are left, cut off.
-/

set_option autoImplicit false

namespace Y2Skk

open Outcome
open Utf8 (Str)

/-! ### Templates -/

/-- A template with its runs put back for the `#` characters. -/
def fill : Str → List Str → Str
  | [], _ => []
  | c :: template, runs =>
      if c = '#' then runs.headD [] ++ fill template runs.tail else c :: fill template runs

/-- A template with a raw marker for every `#`. -/
def rawMarkers (template : Str) : Str :=
  template.flatMap fun c => if c = '#' then ['#', '0'] else [c]

/-- A template in two parts takes the runs in two parts, when the first part has a `#` for each
of its runs. With fewer `#` the second part would begin with runs of the first. -/
theorem fill_append {template : Str} {runs : List Str} (h : template.count '#' = runs.length)
    (template' : Str) (runs' : List Str) :
    fill (template ++ template') (runs ++ runs') = fill template runs ++ fill template' runs' := by
  induction template generalizing runs with
  | nil =>
      have hruns : runs = [] := List.length_eq_zero_iff.mp h.symm
      subst hruns
      rfl
  | cons c template ih =>
      by_cases hc : c = '#'
      · subst hc
        rw [List.count_cons_self] at h
        cases runs with
        | nil => cases h
        | cons run runs =>
            have htail := ih (Nat.succ.inj h)
            simp [fill, htail]
      · rw [List.count_cons_of_ne hc] at h
        simp [fill, hc, ih h]

/-- What the loop of `scan` has made of the text `read`: no digits in the template, only digits
in the runs, and, if the text has no `#` of its own, all of the text in the two together. -/
structure ScanInv (read : Str) (st : ScanState) : Prop where
  template : ∀ c ∈ st.template, c.isDigit = false
  runs : ∀ run ∈ st.runs, run ≠ [] ∧ ∀ c ∈ run, c.isDigit
  runBuf : (∀ c ∈ st.runBuf, c.isDigit) ∧ (st.runBuf ≠ [] ↔ st.inRun)
  fill : '#' ∉ read → st.template.count '#' = st.runs.length ∧
    Y2Skk.fill st.template st.runs ++ st.runBuf = read

/-- A run ends behind the text. It is written as a `#` and joins the runs, so the template has
one `#` for each run again, and the template with its runs is still the text read so far. -/
theorem ScanInv.flush {read : Str} {st : ScanState} (h : ScanInv read st) (hin : st.inRun) :
    ScanInv read ⟨st.template ++ ['#'], st.runs ++ [st.runBuf], false, []⟩ where
  template := by
    intro c hc
    rcases List.mem_append.mp hc with hc | hc
    · exact h.template c hc
    · rw [List.mem_singleton.mp hc]
      rfl
  runs := by
    intro run hrun
    rcases List.mem_append.mp hrun with hrun | hrun
    · exact h.runs run hrun
    · rw [List.mem_singleton.mp hrun]
      exact ⟨h.runBuf.2.mpr hin, h.runBuf.1⟩
  runBuf := by simp
  fill := by
    intro hread
    obtain ⟨hcount, hfill⟩ := h.fill hread
    constructor
    · simp [hcount]
    · rw [fill_append hcount, ← hfill]
      simp [Y2Skk.fill]

/-- A character that is no digit is copied. No run is open then, so the template with its runs
is the text read so far, and the character extends both. A `#` in the reading would be taken for
a run, which is why the invariant is about readings without one. -/
theorem ScanInv.push {read : Str} {st : ScanState} (h : ScanInv read st) (hin : st.inRun = false)
    {c : Char} (hc : c.isDigit = false) :
    ScanInv (read ++ [c]) { st with template := st.template ++ [c] } where
  template := by
    intro d hd
    rcases List.mem_append.mp hd with hd | hd
    · exact h.template d hd
    · rwa [List.mem_singleton.mp hd]
  runs := h.runs
  runBuf := h.runBuf
  fill := by
    intro hread
    rw [List.mem_append, not_or, List.mem_singleton] at hread
    obtain ⟨hcount, hfill⟩ := h.fill hread.1
    -- outside a run the buffer is empty, so the template has all of the text
    have hbuf : st.runBuf = [] := by
      by_contra hne
      rw [h.runBuf.2.mp hne] at hin
      cases hin
    rw [hbuf, List.append_nil] at hfill
    constructor
    · rw [List.count_append, hcount, List.count_singleton,
        beq_eq_false_iff_ne.mpr (Ne.symm hread.2)]
      rfl
    · have hlast := fill_append hcount [c] []
      rw [List.append_nil] at hlast
      rw [hlast, hbuf, hfill]
      simp [Y2Skk.fill, Ne.symm hread.2]

/-- One character of the reading: a digit joins the run that is open or opens one, and any other
character closes it. -/
theorem ScanInv.step {read : Str} {st : ScanState} (h : ScanInv read st) (c : Char) :
    ScanInv (read ++ [c]) (scanStep st c) := by
  unfold scanStep
  by_cases hc : c.isDigit
  · rw [if_pos hc]
    refine ⟨h.template, h.runs, ?_, ?_⟩
    · constructor
      · intro d hd
        rcases List.mem_append.mp hd with hd | hd
        · exact h.runBuf.1 d hd
        · rwa [List.mem_singleton.mp hd]
      · simp
    · intro hread
      obtain ⟨hcount, hfill⟩ := h.fill fun hmem => hread (List.mem_append_left _ hmem)
      exact ⟨hcount, by rw [← hfill, List.append_assoc]⟩
  · -- no digit: a run that is open is closed first, then the character is copied
    rw [if_neg hc]
    have hc' : c.isDigit = false := by simpa using hc
    by_cases hin : st.inRun
    · rw [if_pos hin]
      exact (h.flush hin).push rfl hc'
    · rw [if_neg hin]
      exact h.push (by simpa using hin) hc'

/-- The whole loop. -/
theorem ScanInv.foldl {read : Str} {st : ScanState} (h : ScanInv read st) (s : Str) :
    ScanInv (read ++ s) (s.foldl scanStep st) := by
  induction s generalizing read st with
  | nil => rwa [List.append_nil]
  | cons c s ih =>
      have hstep := ih (h.step c)
      rwa [List.append_assoc] at hstep

/-- What a scan makes of a reading: the last run is closed behind the loop, and the invariant of
the loop is then about the whole reading. -/
theorem scan_inv (midashi : Str) :
    ScanInv midashi ⟨(scan midashi).1, (scan midashi).2, false, []⟩ := by
  have hinit : ScanInv [] ⟨[], [], false, []⟩ :=
    ⟨by simp, by simp, by simp, fun _ => ⟨rfl, rfl⟩⟩
  have hloop := hinit.foldl midashi
  rw [List.nil_append] at hloop
  unfold scan
  dsimp only
  by_cases hin : (midashi.foldl scanStep ⟨[], [], false, []⟩).inRun
  · rw [if_pos hin]
    exact hloop.flush hin
  · rw [if_neg hin]
    have hbuf : (midashi.foldl scanStep ⟨[], [], false, []⟩).runBuf = [] := by
      by_contra hne
      exact hin (hloop.runBuf.2.mp hne)
    exact ⟨hloop.template, hloop.runs, by simp, by simpa [hbuf] using hloop.fill⟩

/-- Each raw marker takes the next run as it is. The number of runs taken so far is generalised
over, and there are enough of them left for the markers of the template. -/
theorem expandText_rawMarkers (runs : List Str) (template : Str) :
    ∀ (i : Nat) (result : Str), i + template.count '#' ≤ runs.length →
      expandText runs (rawMarkers template) i result =
        .ok (some (result ++ fill template (runs.drop i))) := by
  induction template with
  | nil => intro i result _; simp [rawMarkers, expandText, fill]
  | cons c template ih =>
      intro i result h
      by_cases hc : c = '#'
      · subst hc
        rw [List.count_cons_self] at h
        have hi : i < runs.length := by omega
        have hmarkers : rawMarkers ('#' :: template) = '#' :: '0' :: rawMarkers template := rfl
        rw [hmarkers, expandText]
        simp only [if_true, NumType.fromMarker, List.getElem?_eq_getElem hi, convert, ok_bind]
        rw [ih (i + 1) (result ++ runs[i]) (by omega), fill, if_pos rfl,
          List.drop_eq_getElem_cons hi]
        simp [List.getElem?_eq_getElem hi]
      · rw [List.count_cons_of_ne hc] at h
        have hmarkers : rawMarkers (c :: template) = c :: rawMarkers template := by
          simp [rawMarkers, hc]
        rw [hmarkers, expandText_cons_of_ne hc, ih i (result ++ [c]) h, fill, if_neg hc]
        simp

/-- Scanning takes the digits out of a reading, and nothing else, and the expansion of the
template with raw markers puts them back. -/
theorem scan_expand (midashi : Str) :
    (∀ c ∈ (scan midashi).1, c.isDigit = false) ∧
      (∀ run ∈ (scan midashi).2, run ≠ [] ∧ ∀ c ∈ run, c.isDigit) ∧
      scan (scan midashi).1 = ((scan midashi).1, []) ∧
      ('#' ∉ midashi → (scan midashi).1.count '#' = (scan midashi).2.length ∧
        expand (rawMarkers (scan midashi).1) (scan midashi).2 = .ok (some midashi)) := by
  have hinv := scan_inv midashi
  refine ⟨hinv.template, hinv.runs, scan_of_no_digits hinv.template, ?_⟩
  intro hmidashi
  obtain ⟨hcount, hfill⟩ : (scan midashi).1.count '#' = (scan midashi).2.length ∧
      fill (scan midashi).1 (scan midashi).2 ++ [] = midashi := hinv.fill hmidashi
  refine ⟨hcount, ?_⟩
  rw [expand, expandText_rawMarkers _ _ 0 [] (by omega), List.nil_append, List.drop_zero]
  rw [List.append_nil] at hfill
  rw [hfill]

/-- The reading `1x23` is put back together. -/
theorem scan_expand_two_runs :
    '#' ∉ ['1', 'x', '2', '3'] ∧
      scan ['1', 'x', '2', '3'] = (['#', 'x', '#'], [['1'], ['2', '3']]) ∧
      expand ['#', '0', 'x', '#', '0'] [['1'], ['2', '3']] = .ok (some ['1', 'x', '2', '3']) :=
  ⟨by decide, by decide, ((scan_expand ['1', 'x', '2', '3']).2.2.2 (by decide)).2⟩

/-! ### One expansion -/

/-- Without `#4` the two loops stay in step, whatever the lookup. The loop with lookups has one
result all along, which is the text of the other one, and it visits no key. -/
theorem expandText_agrees (runs : List Str) (word : Str) :
    ∀ (i : Nat) (result : Str), NoRecursive word →
      Runs (expandText runs word i result) fun expansion => ∀ lookup,
        expandLoop runs lookup word i [result] = .ok expansion.toList ∧
          expandKeys runs lookup word i = [] := by
  induction word using List.twoStepInduction with
  | nil =>
      intro i result _
      rw [expandText, runs_ok]
      exact fun lookup => ⟨rfl, rfl⟩
  | singleton c =>
      intro i result _
      by_cases hc : c = '#'
      · simp [expandText, expandLoop, expandKeys, hc]
      · simp [expandText, expandLoop, expandKeys, hc]
  | cons_cons c d word ih₂ ih₁ =>
      intro i result hno
      by_cases hc : c = '#'
      · subst hc
        have hd : d ≠ '4' := by
          rintro rfl
          exact hno ⟨[], word, rfl⟩
        simp only [expandText, expandLoop, expandKeys, if_true, if_neg hd]
        -- a marker of a conversion: both loops take the next run, and both stop without one
        cases NumType.fromMarker d with
        | none => exact ih₁ d i _ hno.tail
        | some ty =>
            cases runs[i]? with
            | none => exact runs_ok.mpr fun lookup => ⟨rfl, rfl⟩
            | some digits =>
                obtain ⟨converted, hconv, -⟩ := convert_runs digits ty
                simp only [hconv, ok_bind]
                cases converted with
                | none => exact runs_ok.mpr fun lookup => ⟨rfl, rfl⟩
                | some part => exact ih₂ (i + 1) _ hno.tail.tail
      · simp only [expandText, expandLoop, expandKeys, if_neg hc]
        exact ih₁ d i _ hno.tail

/-- On a word without `#4` the expander with lookups has the one expansion of `expand`, if
there is one. It makes no lookup. -/
theorem expand_agrees {word : Str} (hno : NoRecursive word) (runs : List Str) :
    Runs (expand word runs) fun expansion => ∀ lookup,
      expandWithRecursiveLookup word runs lookup = .ok expansion.toList ∧
        expandKeys runs lookup word 0 = [] :=
  expandText_agrees runs word 0 [] hno

/-- The word `##1#z` has one expansion over the run `5`. -/
theorem expand_agrees_edges :
    NoRecursive "##1#z".toList ∧
      Runs (expand "##1#z".toList [['5']]) fun expansion => ∀ lookup,
        expandWithRecursiveLookup "##1#z".toList [['5']] lookup = .ok expansion.toList ∧
          expandKeys [['5']] lookup "##1#z".toList 0 = [] :=
  ⟨by decide, expand_agrees (by decide) [['5']]⟩

/-! ### The full product -/

/-- What a word is made of: plain characters, and markers. -/
inductive Piece where
  | char (c : Char)
  | marker (ty : NumType)
  | recursive
  deriving DecidableEq, Repr

/-- The pieces of a word: characters, markers of a number type, and recursive lookups. A `#`
that starts no marker is a character. -/
def pieces : Str → List Piece
  | [] => []
  | [c] => [.char c]
  | c :: d :: word =>
      if c = '#' then
        if d = '4' then .recursive :: pieces word
        else
          match NumType.fromMarker d with
          | some ty => .marker ty :: pieces word
          | none => .char '#' :: pieces (d :: word)
      else .char c :: pieces (d :: word)

/-- What a piece expands to: a text, or one of several. -/
inductive Segment where
  | fixed (text : Str)
  | choice (alternatives : List Str)
  deriving DecidableEq, Repr

/-- The pieces with the runs put in, one run for each marker in turn. `none` when a marker
has no run, its run has no form of the type, or the lookup of the run finds nothing. -/
def segments (runs : List Str) (lookup : Str → List Str) :
    List Piece → Nat → Partial (Option (List Segment))
  | [], _ => .ok (some [])
  | .char c :: rest, i => do
      return (← segments runs lookup rest i).map (.fixed [c] :: ·)
  | .marker ty :: rest, i => do
      match runs[i]? with
      | none => return none
      | some digits =>
          match ← convert digits ty with
          | none => return none
          | some converted =>
              return (← segments runs lookup rest (i + 1)).map (.fixed converted :: ·)
  | .recursive :: rest, i => do
      match runs[i]? with
      | none => return none
      | some run =>
          if (lookup run).isEmpty then return none
          else return (← segments runs lookup rest (i + 1)).map (.choice (lookup run) :: ·)

namespace Segment

/-- How many alternatives there are, for each choice in turn. -/
def counts : List Segment → List Nat
  | [] => []
  | .fixed _ :: rest => counts rest
  | .choice alternatives :: rest => alternatives.length :: counts rest

/-- The text in which each choice takes the alternative at the position given for it. -/
def pick : List Segment → List Nat → Str
  | [], _ => []
  | .fixed text :: rest, v => text ++ pick rest v
  | .choice alternatives :: rest, i :: v => alternatives.getD i [] ++ pick rest v
  | .choice _ :: _, [] => []

end Segment

/-- All the expansions of a word, without a cap: none when a marker fails, else one for each
combination of alternatives, in the lexicographic order of their positions. -/
def IsFullExpansion : Option (List Segment) → List Str → Prop
  | none, full => full = []
  | some segs, full => ∃ vs : List (List Nat),
      (∀ v, v ∈ vs ↔ List.Forall₂ (· < ·) v (Segment.counts segs)) ∧
        vs.Pairwise (List.Lex (· < ·)) ∧ full = vs.map (Segment.pick segs)

namespace Segment

/-- The expansions of the segments, listed. -/
def full (segs : List Segment) : List Str := (Choices.positions (counts segs)).map (pick segs)

/-- A fixed text comes in front of every expansion. -/
theorem full_fixed (text : Str) (segs : List Segment) :
    full (.fixed text :: segs) = (full segs).map (text ++ ·) := by
  rw [full, full, List.map_map]
  rfl

/-- A choice repeats the expansions behind it, once for each alternative, in the order of the
alternatives. -/
theorem full_choice (alternatives : List Str) (segs : List Segment) :
    full (.choice alternatives :: segs) =
      alternatives.flatMap fun a => (full segs).map (a ++ ·) := by
  rw [Choices.flatMap_eq_flatMap_range alternatives [], full, counts, Choices.positions,
    List.map_flatMap]
  refine List.flatMap_congr fun i _ => ?_
  rw [full, List.map_map, List.map_map]
  refine List.map_congr_left fun v _ => ?_
  simp [pick]

/-- There is an expansion when every choice has an alternative. A single empty choice leaves
none. -/
theorem full_ne_nil {segs : List Segment} (h : .choice [] ∉ segs) : full segs ≠ [] := by
  induction segs with
  | nil => simp [full, counts, Choices.positions]
  | cons seg segs ih =>
      rw [List.mem_cons, not_or] at h
      have hrest := ih h.2
      cases seg with
      | fixed text => simpa [full_fixed] using hrest
      | choice alternatives =>
          cases alternatives with
          | nil => exact (h.1 rfl).elim
          | cons a alternatives => simp [full_choice, hrest]

/-- Only `full` is a full expansion. -/
theorem isFullExpansion_iff {segs : List Segment} {strings : List Str} :
    IsFullExpansion (some segs) strings ↔ strings = full segs := by
  constructor
  · rintro ⟨vs, hmem, hsorted, rfl⟩
    rw [Choices.eq_positions hmem hsorted, full]
  · rintro rfl
    exact ⟨_, fun v => Choices.mem_positions, Choices.pairwise_positions _, rfl⟩

/-- The expansions of the segments behind each of the results. -/
def spread (results : List Str) (segs : List Segment) : List Str :=
  results.flatMap fun r => (full segs).map (r ++ ·)

/-- Without segments the results are complete. -/
theorem spread_nil (results : List Str) : spread results [] = results := by
  simp [spread, full, counts, Choices.positions, pick]

/-- A fixed text can be put behind the results at once. -/
theorem spread_fixed (results : List Str) (text : Str) (segs : List Segment) :
    spread results (.fixed text :: segs) = spread (results.map (· ++ text)) segs := by
  rw [spread, spread, List.flatMap_map]
  refine List.flatMap_congr fun r _ => ?_
  rw [full_fixed, List.map_map]
  exact List.map_congr_left fun s _ => (List.append_assoc r text s).symm

/-- And so can a choice: what it makes of the results so far goes to the segments behind it. -/
theorem spread_choice (results alternatives : List Str) (segs : List Segment) :
    spread results (.choice alternatives :: segs) =
      spread (results.flatMap fun r => alternatives.map (r ++ ·)) segs := by
  rw [spread, spread, List.flatMap_assoc]
  refine List.flatMap_congr fun r _ => ?_
  rw [full_choice, List.map_flatMap, List.flatMap_map]
  refine List.flatMap_congr fun a _ => ?_
  rw [List.map_map]
  exact List.map_congr_left fun s _ => (List.append_assoc r a s).symm

/-- Behind a cut only what is cut off anyway is lost. -/
theorem take_spread_take (n : Nat) (results : List Str) {segs : List Segment}
    (h : .choice [] ∉ segs) :
    (spread (results.take n) segs).take n = (spread results segs).take n :=
  Choices.take_flatMap_take n results fun r _ => by simpa using full_ne_nil h

end Segment

/-- The outcome of a loop that has `results` and goes on to the segments `o`. -/
def SpreadsOver (results : List Str) (out : Partial (List Str)) (o : Option (List Segment)) :
    Prop :=
  (∀ segs, o = some segs → .choice [] ∉ segs) ∧
    out = .ok ((o.elim [] (Segment.spread results)).take maxRecursiveExpansions)

/-- A segment in front is read first: the results are made ready for the others. The segment is
a text to append or a choice that is not empty, and `hspread` says what it makes of the results,
cut off at the cap. -/
theorem SpreadsOver.cons {x : Partial (Option (List Segment))} {results results' : List Str}
    {out : Partial (List Str)} {seg : Segment} (hseg : seg ≠ .choice [])
    (hspread : ∀ segs, .choice [] ∉ segs →
      (Segment.spread results' segs).take maxRecursiveExpansions =
        (Segment.spread results (seg :: segs)).take maxRecursiveExpansions)
    (h : Runs x (SpreadsOver results' out)) :
    Runs (do return (← x).map (seg :: ·)) (SpreadsOver results out) := by
  refine h.bind fun o ho => runs_pure.mpr ?_
  obtain ⟨hchoices, hout⟩ := ho
  cases o with
  | none => exact ⟨fun _ hsegs => (by cases hsegs), hout⟩
  | some segs =>
      refine ⟨?_, ?_⟩
      · intro segs' hsegs'
        cases hsegs'
        rw [List.mem_cons, not_or]
        exact ⟨Ne.symm hseg, hchoices segs rfl⟩
      · rw [hout, Option.elim_some, hspread segs (hchoices segs rfl)]
        rfl

/-- The loop puts a converted run behind the results. -/
theorem SpreadsOver.fixed {x : Partial (Option (List Segment))} {results : List Str}
    {out : Partial (List Str)} (text : Str)
    (h : Runs x (SpreadsOver (results.map (· ++ text)) out)) :
    Runs (do return (← x).map (.fixed text :: ·)) (SpreadsOver results out) := by
  refine SpreadsOver.cons (by simp) (fun segs _ => ?_) h
  rw [Segment.spread_fixed]

/-- The loop cuts the results off behind a lookup. To cut them there changes nothing in the
first expansions, which are all that is kept in the end. -/
theorem SpreadsOver.choice {x : Partial (Option (List Segment))} {results alternatives : List Str}
    {out : Partial (List Str)} (hne : alternatives ≠ [])
    (h : Runs x (SpreadsOver ((results.flatMap fun r => alternatives.map (r ++ ·)).take
      maxRecursiveExpansions) out)) :
    Runs (do return (← x).map (.choice alternatives :: ·)) (SpreadsOver results out) := by
  refine SpreadsOver.cons ?_ (fun segs hsegs => ?_) h
  · intro heq
    rw [Segment.choice.injEq] at heq
    exact hne heq
  · rw [Segment.take_spread_take _ _ hsegs, Segment.spread_choice]

/-- A marker that fails leaves no result. -/
theorem SpreadsOver.fail (results : List Str) : SpreadsOver results (.ok []) none :=
  ⟨fun _ hsegs => (by cases hsegs), rfl⟩

/-- The loop cuts the product off after each marker, and has the first elements of the product
of all of them. The induction is over the characters of the word, two at a time. -/
theorem expandLoop_capped (runs : List Str) (lookup : Str → List Str) (word : Str) :
    ∀ (i : Nat) (results : List Str), results.length ≤ maxRecursiveExpansions →
      Runs (segments runs lookup (pieces word) i)
        (SpreadsOver results (expandLoop runs lookup word i results)) := by
  induction word using List.twoStepInduction with
  | nil =>
      intro i results hlen
      rw [pieces, segments, runs_ok]
      refine ⟨fun segs hsegs => by cases hsegs; simp, ?_⟩
      rw [Option.elim_some, Segment.spread_nil, List.take_of_length_le hlen, expandLoop]
  | singleton c =>
      intro i results hlen
      have hloop : expandLoop runs lookup [c] i results = .ok (results.map (· ++ [c])) := by
        by_cases hc : c = '#'
        · simp [expandLoop, hc]
        · simp [expandLoop, hc]
      rw [pieces, segments, hloop]
      refine SpreadsOver.fixed [c] ?_
      rw [segments, runs_ok]
      refine ⟨fun segs hsegs => by cases hsegs; simp, ?_⟩
      rw [Option.elim_some, Segment.spread_nil, List.take_of_length_le (by simpa using hlen)]
  | cons_cons c d word ih₂ ih₁ =>
      intro i results hlen
      have hmap : ∀ text : Str, (results.map (· ++ text)).length ≤ maxRecursiveExpansions := by
        intro text
        rwa [List.length_map]
      rw [pieces, expandLoop]
      by_cases hc : c = '#'
      · rw [if_pos hc, if_pos hc]
        dsimp only
        -- `#4` spreads the results over what its run is looked up as, and the loop cuts off there
        by_cases hd : d = '4'
        · rw [if_pos hd, if_pos hd, segments]
          cases runs[i]? with
          | none => exact runs_pure.mpr (SpreadsOver.fail results)
          | some run =>
              dsimp only
              by_cases hempty : (lookup run).isEmpty
              · rw [if_pos hempty, if_pos hempty]
                exact runs_pure.mpr (SpreadsOver.fail results)
              · rw [if_neg hempty, if_neg hempty]
                have hne : lookup run ≠ [] := fun h => hempty (List.isEmpty_iff.mpr h)
                exact SpreadsOver.choice hne (ih₂ (i + 1) _ (List.length_take_le _ _))
        · rw [if_neg hd, if_neg hd]
          cases NumType.fromMarker d with
          | none => exact SpreadsOver.fixed ['#'] (ih₁ d i _ (hmap _))
          | some ty =>
              dsimp only
              rw [segments]
              cases runs[i]? with
              | none => exact runs_pure.mpr (SpreadsOver.fail results)
              | some digits =>
                  obtain ⟨converted, hconv, -⟩ := convert_runs digits ty
                  simp only [hconv, ok_bind]
                  cases converted with
                  | none => exact runs_pure.mpr (SpreadsOver.fail results)
                  | some text =>
                      exact SpreadsOver.fixed text (ih₂ (i + 1) _ (hmap _))
      · rw [if_neg hc, if_neg hc, segments]
        exact SpreadsOver.fixed [c] (ih₁ d i _ (hmap _))

/-- The expansion of a word is the beginning of its full expansion, up to the cap. There always
is a full expansion, and it is unique. -/
theorem expandWithRecursiveLookup_capped (word : Str) (runs : List Str)
    (lookup : Str → List Str) :
    Runs (segments runs lookup (pieces word) 0) fun segs =>
      (∃ full, IsFullExpansion segs full) ∧ ∀ full, IsFullExpansion segs full →
        expandWithRecursiveLookup word runs lookup = .ok (full.take maxRecursiveExpansions) := by
  refine (expandLoop_capped runs lookup word 0 [[]] (by decide)).mono fun o ho => ?_
  obtain ⟨-, hout⟩ := ho
  cases o with
  -- a marker without an expansion: the full expansion is empty
  | none =>
      refine ⟨⟨[], rfl⟩, ?_⟩
      rintro full rfl
      exact hout
  | some segs =>
      refine ⟨⟨_, Segment.isFullExpansion_iff.mpr rfl⟩, ?_⟩
      intro full hfull
      have hspread : Segment.spread [[]] segs = Segment.full segs := by simp [Segment.spread]
      rw [Segment.isFullExpansion_iff.mp hfull, ← hspread]
      exact hout

end Y2Skk
