import Mathlib.Data.List.Induction
import Y2Skk.Num.Convert

/-!
# `Y2Skk.Num.Template`: digit runs and `#n` templates

`scan` replaces each maximal run of ASCII digits of a reading by `#` and collects the
runs. `expand` goes the other way for a dictionary word: a marker `#n` takes the next run.
In `expandWithRecursiveLookup` a marker `#4` also looks its run up and fans out over the
answers, with at most `maxRecursiveExpansions` results. `synthesize` builds candidates
from the runs alone.

## The loops

Each loop of the source is a structural recursion over the text that is left, with its
variables as arguments. A `#` is followed by one character of lookahead: it is a marker,
or the `#` is copied and the character is read again on its own. The inductions below
therefore go two characters at a time (`List.twoStepInduction`).

## What the engine needs to know

* `scan_of_no_runs`: a reading without digits is its own template.
* `expandWithRecursiveLookup_runs`: the expansion always returns.
* `expandWithRecursiveLookup_of_no_recursive`: without `#4` the lookup is never called and
  there is at most one expansion.
* `expandWithRecursiveLookup_of_markerFree`: a word without markers expands to itself.

The second of these is what a proof about the candidate list uses for most words: it may
put any lookup it likes in the place of the engine's.
-/

set_option autoImplicit false

namespace Y2Skk

open Outcome
open Utf8 (Str)

/-- `MAX_RECURSIVE_EXPANSIONS`: cap on the expansions one candidate may produce. -/
def maxRecursiveExpansions : Nat := 256

/-- The variables of the loop of `scan`: the template and the runs so far, and the run that is
being read. -/
structure ScanState where
  template : Str
  runs : List Str
  inRun : Bool
  runBuf : Str
  deriving DecidableEq, Repr

/-- The body of the loop of `scan`. A run is collected when a character ends it, and `#` is
written for it then. -/
def scanStep (st : ScanState) (ch : Char) : ScanState :=
  if ch.isDigit then { st with inRun := true, runBuf := st.runBuf ++ [ch] }
  else if st.inRun then
    { template := st.template ++ ['#'] ++ [ch], runs := st.runs ++ [st.runBuf],
      inRun := false, runBuf := [] }
  else { st with template := st.template ++ [ch] }

/-- `scan`: the template of a reading and its digit runs. -/
def scan (midashi : Str) : Str × List Str :=
  let st := midashi.foldl scanStep ⟨[], [], false, []⟩
  -- A run at the end of the reading.
  if st.inRun then (st.template ++ ['#'], st.runs ++ [st.runBuf]) else (st.template, st.runs)

/-- The loop of `expand_with_recursive_lookup`: `results` holds the expansions of the text read
so far. A marker whose run is missing, or which has no form, ends the loop with no expansions at
all. -/
def expandLoop (runs : List Str) (lookup : Str → List Str) :
    Str → Nat → List Str → Partial (List Str)
  | [], _, results => .ok results
  | ch :: chars, runIndex, results =>
      if ch = '#' then
        match chars with
        -- A trailing `#` stays.
        | [] => expandLoop runs lookup [] runIndex (results.map (· ++ ['#']))
        | next :: rest =>
            if next = '4' then
              match runs[runIndex]? with
              | none => .ok []
              | some run =>
                  let alternatives := lookup run
                  if alternatives.isEmpty then .ok []
                  else
                    -- The nested loop stops at the cap (`break 'outer`).
                    expandLoop runs lookup rest (runIndex + 1)
                      ((results.flatMap fun r => alternatives.map (r ++ ·)).take
                        maxRecursiveExpansions)
            else
              match NumType.fromMarker next with
              | some ty =>
                  match runs[runIndex]? with
                  | none => .ok []
                  | some digits => do
                      match ← convert digits ty with
                      | none => .ok []
                      | some converted =>
                          expandLoop runs lookup rest (runIndex + 1)
                            (results.map (· ++ converted))
              -- A `#` that starts no marker stays, and `next` is read again.
              | none => expandLoop runs lookup (next :: rest) runIndex (results.map (· ++ ['#']))
      else expandLoop runs lookup chars runIndex (results.map (· ++ [ch]))

/-- The expansions of a dictionary word over the digit runs of a reading; `[]` when a
marker cannot be resolved. -/
def expandWithRecursiveLookup (candidateWord : Str) (runs : List Str)
    (lookup : Str → List Str) : Partial (List Str) :=
  expandLoop runs lookup candidateWord 0 [[]]

/-- The loop of `expand`: `result` is the expansion of the text read so far. There is no
fan-out, so it is one text. -/
def expandText (runs : List Str) : Str → Nat → Str → Partial (Option Str)
  | [], _, result => .ok (some result)
  | ch :: chars, runIndex, result =>
      if ch = '#' then
        match chars with
        -- A trailing `#` stays.
        | [] => expandText runs [] runIndex (result ++ ['#'])
        | next :: rest =>
            match NumType.fromMarker next with
            | some ty =>
                match runs[runIndex]? with
                | none => .ok none
                | some digits => do
                    match ← convert digits ty with
                    | none => .ok none
                    | some converted => expandText runs rest (runIndex + 1) (result ++ converted)
            -- A `#` that starts no marker stays, and `next` is read again.
            | none => expandText runs (next :: rest) runIndex (result ++ ['#'])
      else expandText runs chars runIndex (result ++ [ch])

/-- The expansion of a dictionary word without `#4` markers, `none` when a marker has no run
or its run no form of the marker's type. -/
def expand (candidateWord : Str) (runs : List Str) : Partial (Option Str) :=
  expandText runs candidateWord 0 []

/-- The runs written in the type `ty` one after the other, or `none` when one of them has no
form in it. What stood between the runs in the reading is lost. -/
def synthesizeOne (ty : NumType) : List Str → Str → Partial (Option Str)
  | [], combined => .ok (some combined)
  | run :: runs, combined => do
      match ← convert run ty with
      | none => .ok none
      | some part => synthesizeOne ty runs (combined ++ part)

/-- `synthesize`: one candidate for each type that can write every run, in the order of the
types. -/
def synthesize (runs : List Str) (types : List NumType) : Partial (List Str) :=
  if runs.isEmpty then .ok []
  else
    types.foldlM (fun acc ty => do
      match ← synthesizeOne ty runs [] with
      | none => .ok acc
      | some combined => .ok (acc ++ [combined])) []

/-! ### Readings without digits -/

/-- The scan never drops a collected run. One step either leaves the runs alone or appends the
run that has just ended, so a nonempty list stays one. -/
theorem foldl_scanStep_runs_ne_nil (s : Str) :
    ∀ st : ScanState, st.runs ≠ [] → (s.foldl scanStep st).runs ≠ [] := by
  induction s with
  | nil => intro st h; exact h
  | cons c s ih =>
      intro st h
      refine ih _ ?_
      unfold scanStep
      split
      · exact h
      · split
        · simp
        · exact h

/-- When the scan ends outside a run and has collected none, it has read no digit, and
the template it built is the text it read. -/
theorem foldl_scanStep_of_runs_eq_nil (s : Str) :
    ∀ st : ScanState, (s.foldl scanStep st).runs = [] →
      (s.foldl scanStep st).inRun = false →
      st.inRun = false ∧ (s.foldl scanStep st).template = st.template ++ s := by
  induction s with
  | nil => intro st _ h; exact ⟨h, by simp⟩
  | cons c s ih =>
      intro st hruns hin
      rw [List.foldl_cons] at hruns hin ⊢
      obtain ⟨hstep, htemplate⟩ := ih _ hruns hin
      rw [htemplate]
      by_cases hd : c.isDigit
      · simp [scanStep, hd] at hstep
      · by_cases hr : st.inRun
        · -- A run ends at `c`, so it has been collected.
          have hne : (scanStep st c).runs ≠ [] := by simp [scanStep, hd, hr]
          exact absurd hruns (foldl_scanStep_runs_ne_nil s _ hne)
        · exact ⟨by simpa using hr, by simp [scanStep, hd, hr]⟩

/-- A reading without digit runs is its own template. If the loop ends outside a run with
nothing collected, no digit was seen, and every character was copied. -/
theorem scan_of_no_runs {midashi : Str} (h : (scan midashi).2 = []) :
    (scan midashi).1 = midashi := by
  unfold scan at h ⊢
  dsimp only at h ⊢
  by_cases hin : (midashi.foldl scanStep ⟨[], [], false, []⟩).inRun = true
  · simp [hin] at h
  · simp only [hin, Bool.false_eq_true, if_false] at h ⊢
    have := (foldl_scanStep_of_runs_eq_nil midashi ⟨[], [], false, []⟩ h (by simpa using hin)).2
    simpa using this

/-- A reading without digits is scanned as it is. Each step copies its character, and no run is
open when the loop ends. -/
theorem scan_of_no_digits {midashi : Str} (h : ∀ c ∈ midashi, c.isDigit = false) :
    scan midashi = (midashi, []) := by
  have hloop : ∀ s : Str, (∀ c ∈ s, c.isDigit = false) → ∀ st : ScanState, st.inRun = false →
      s.foldl scanStep st = { st with template := st.template ++ s } := by
    intro s
    induction s with
    | nil => intro _ st _; simp
    | cons c s ih =>
        intro hs st hst
        have hstep : scanStep st c = { st with template := st.template ++ [c] } := by
          simp [scanStep, hs c List.mem_cons_self, hst]
        have hrest := ih (fun d hd => hs d (List.mem_cons_of_mem _ hd)) (scanStep st c)
          (by rw [hstep]; exact hst)
        rw [List.foldl_cons, hrest, hstep]
        simp
  rw [scan, hloop midashi h ⟨[], [], false, []⟩ rfl]
  rfl

/-! ### Expansion -/

/-- No `#` of the word is followed by `4`: the expansion needs no dictionary. -/
def NoRecursive (word : Str) : Prop := ¬ ['#', '4'] <:+: word

/-- Whether a word needs the dictionary can be computed. -/
instance (word : Str) : Decidable (NoRecursive word) :=
  inferInstanceAs (Decidable (¬ ['#', '4'] <:+: word))

/-- No `#` of the word starts a marker: neither `#4` nor a conversion. -/
def markerFree : Str → Bool
  | [] => true
  | [_] => true
  | a :: b :: rest =>
      !(a = '#' ∧ (b = '4' ∨ (NumType.fromMarker b).isSome)) && markerFree (b :: rest)

/-- The rest of a word that needs no dictionary needs none. -/
theorem NoRecursive.tail {c : Char} {word : Str} (h : NoRecursive (c :: word)) :
    NoRecursive word := fun hin => h (hin.trans (List.suffix_cons c word).isInfix)

/-- The expansion always returns: the conversions it calls do. The induction takes one character
off for plain text, and two for a marker. -/
theorem expandLoop_runs (runs : List Str) (lookup : Str → List Str) (word : Str) :
    ∀ (i : Nat) (results : List Str),
      Runs (expandLoop runs lookup word i results) fun _ => True := by
  induction word using List.twoStepInduction with
  | nil => intro i results; simp [expandLoop]
  | singleton c =>
      intro i results
      simp only [expandLoop]
      split <;> simp
  | cons_cons c d word ih₂ ih₁ =>
      intro i results
      unfold expandLoop
      -- `#4` is looked up, every other marker is converted; without a run there is no expansion
      refine Runs.ite (fun _ => Runs.ite (fun _ => ?_) (fun _ => ?_)) (fun _ => ih₁ d _ _)
      · cases runs[i]? with
        | none => simp
        | some run => exact Runs.ite (fun _ => by simp) (fun _ => ih₂ _ _)
      · cases NumType.fromMarker d with
        | none => exact ih₁ d _ _
        | some ty =>
            cases runs[i]? with
            | none => simp
            | some digits =>
                refine (convert_runs digits ty).bind fun converted _ => ?_
                cases converted with
                | none => simp
                | some s => exact ih₂ _ _

/-- The expansion always returns, whatever the lookup answers. -/
theorem expandWithRecursiveLookup_runs (word : Str) (runs : List Str)
    (lookup : Str → List Str) :
    Runs (expandWithRecursiveLookup word runs lookup) fun _ => True :=
  expandLoop_runs runs lookup word 0 [[]]

/-- Without `#4` the loop keeps at most one result and never looks at `lookup`: any other one
gives the same result. -/
theorem expandLoop_of_no_recursive (runs : List Str) (lookup lookup' : Str → List Str)
    (word : Str) :
    ∀ (i : Nat) (results : List Str), NoRecursive word → results.length ≤ 1 →
      Runs (expandLoop runs lookup word i results) fun out =>
        out.length ≤ 1 ∧ expandLoop runs lookup' word i results = .ok out := by
  induction word using List.twoStepInduction with
  | nil => intro i results _ hlen; simpa [expandLoop] using hlen
  | singleton c =>
      intro i results _ hlen
      simp only [expandLoop]
      split <;> simpa using hlen
  | cons_cons c d word ih₂ ih₁ =>
      intro i results hno hlen
      have hmap : ∀ f : Str → Str, (results.map f).length ≤ 1 := fun f => by simpa using hlen
      unfold expandLoop
      by_cases hc : c = '#'
      · rw [if_pos hc, if_pos hc]
        -- A `#4` is excluded by hypothesis; every other marker is a conversion, which keeps the
        -- number of results.
        by_cases hd : d = '4'
        · exact absurd ⟨[], word, by rw [hc, hd]; rfl⟩ hno
        · dsimp only
          rw [if_neg hd, if_neg hd]
          cases NumType.fromMarker d with
          | none => exact ih₁ d _ _ hno.tail (hmap _)
          | some ty =>
              cases runs[i]? with
              | none => simp
              | some digits =>
                  obtain ⟨converted, hconv, -⟩ := convert_runs digits ty
                  simp only [hconv, ok_bind]
                  cases converted with
                  | none => simp
                  | some s => exact ih₂ _ _ hno.tail.tail (hmap _)
      · rw [if_neg hc, if_neg hc]
        exact ih₁ d _ _ hno.tail (hmap _)

/-- Without `#4` there is at most one expansion, the same one for every `lookup`. -/
theorem expandWithRecursiveLookup_of_no_recursive {word : Str} (hno : NoRecursive word)
    (runs : List Str) (lookup lookup' : Str → List Str) :
    Runs (expandWithRecursiveLookup word runs lookup) fun out =>
      out.length ≤ 1 ∧ expandWithRecursiveLookup word runs lookup' = .ok out :=
  expandLoop_of_no_recursive runs lookup lookup' word 0 [[]] hno (by simp)

/-- Without markers the loop copies the text to every result. A `#` that starts no marker is
plain text, so it is copied as well. -/
theorem expandLoop_of_markerFree (runs : List Str) (lookup : Str → List Str) (word : Str) :
    ∀ (i : Nat) (results : List Str), markerFree word →
      expandLoop runs lookup word i results = .ok (results.map (· ++ word)) := by
  induction word using List.twoStepInduction with
  | nil => intro i results _; simp [expandLoop]
  | singleton c =>
      intro i results _
      by_cases hc : c = '#'
      · simp [expandLoop, hc]
      · simp [expandLoop, hc]
  | cons_cons c d word ih₂ ih₁ =>
      intro i results hfree
      simp only [markerFree, Bool.and_eq_true, Bool.not_eq_true', decide_eq_false_iff_not,
        not_and, not_or, Option.not_isSome_iff_eq_none] at hfree
      obtain ⟨hhead, htail⟩ := hfree
      unfold expandLoop
      by_cases hc : c = '#'
      · -- A `#` in front of something that is neither `#` nor a type is copied.
        obtain ⟨hd, hmarker⟩ := hhead hc
        rw [if_pos hc]
        dsimp only
        rw [if_neg hd, hmarker]
        dsimp only
        rw [ih₁ d _ _ htail]
        simp [hc]
      · rw [if_neg hc, ih₁ d _ _ htail]
        simp

/-- A word without markers expands to itself. -/
theorem expandWithRecursiveLookup_of_markerFree {word : Str} (h : markerFree word)
    (runs : List Str) (lookup : Str → List Str) :
    expandWithRecursiveLookup word runs lookup = .ok [word] := by
  have hloop := expandLoop_of_markerFree runs lookup word 0 [[]] h
  rwa [List.map_singleton, List.nil_append] at hloop

/-- A character that starts no marker is copied. -/
theorem expandText_cons_of_ne {c : Char} (hc : c ≠ '#') (runs : List Str) (word : Str) (i : Nat)
    (result : Str) : expandText runs (c :: word) i result =
      expandText runs word i (result ++ [c]) := by
  cases word <;> simp [expandText, hc]

/-- Writing the runs in one type always returns: each conversion does, and a run that has no
such form ends the loop without a text. -/
theorem synthesizeOne_runs (ty : NumType) (runs : List Str) :
    ∀ combined : Str, Runs (synthesizeOne ty runs combined) fun _ => True := by
  induction runs with
  | nil => intro combined; simp [synthesizeOne]
  | cons run runs ih =>
      intro combined
      refine (convert_runs run ty).bind fun part _ => ?_
      cases part with
      | none => simp
      | some part => exact ih _

/-- The synthesis always returns. -/
theorem synthesize_runs (runs : List Str) (types : List NumType) :
    Runs (synthesize runs types) fun _ => True := by
  refine Runs.ite (fun _ => by simp) (fun _ => ?_)
  refine Runs.foldlM (fun _ => True) types [] trivial fun acc ty _ _ => ?_
  refine (synthesizeOne_runs ty runs []).bind fun combined _ => ?_
  cases combined <;> simp

end Y2Skk
