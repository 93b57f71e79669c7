import Y2Skk.Proofs.Offers

/-!
# `Y2Skk.Proofs.Directives`: conversions without directives

With directives enabled the lookup of a `#4` marker collects the entries, then filters;
with directives disabled it streams them and stops at the cap. Where no entry has a
directive the two give the same words, and so does everything built from them.

* `expandLoop_congr`: an expansion depends on the lookups it makes, and `expandKeys` says
  which these are.
* `recursiveLookup_eq_stream`: both lookups are the stream that stops at the cap.
* `gatherCandidates_directives`: the candidates of a conversion are the same.
* `startConversion_directives`: the setting makes no difference to a conversion.

## The hypothesis

`FreeOfDirectives` is about the entries the conversion really looks up: those of the
reading, and those of the digit runs that a `#4` marker of a plain entry reaches. A
directive elsewhere in the dictionaries does not matter. Other Lisp forms than the
directive may occur: they are not displayed under either setting.

## Why a list of keys

To know which lookups matter, the expansion is followed symbolically. `expandKeys`
recurses as `expandLoop` does and records the keys in order; a marker that cannot be
expanded ends the record, as it ends the expansion.
-/

set_option autoImplicit false

namespace Y2Skk

open Outcome Utf8 Distinct

/-! ### The lookups of an expansion -/

/-- The keys an expansion looks up, in order: the digit runs of its `#4` markers, up to the
first run that has no words. -/
def expandKeys (runs : List Str) (lookup : Str → List Str) : Str → Nat → List Str
  | [], _ => []
  | ch :: chars, runIndex =>
      if ch = '#' then
        match chars with
        | [] => []
        | next :: rest =>
            if next = '4' then
              match runs[runIndex]? with
              | none => []
              -- A run without words ends the expansion.
              | some run => run ::
                  if (lookup run).isEmpty then [] else expandKeys runs lookup rest (runIndex + 1)
            else
              match NumType.fromMarker next with
              | some ty =>
                  match runs[runIndex]? with
                  | none => []
                  | some digits =>
                      match convert digits ty with
                      | .ok (some _) => expandKeys runs lookup rest (runIndex + 1)
                      | _ => []
              | none => expandKeys runs lookup (next :: rest) runIndex
      else expandKeys runs lookup chars runIndex

/-- An expansion depends only on the lookups it makes. The induction is over the characters of
the word, two at a time, as the loop reads them. -/
theorem expandLoop_congr (runs : List Str) (lookup lookup' : Str → List Str) (word : Str) :
    ∀ (i : Nat) (results : List Str),
      (∀ key ∈ expandKeys runs lookup word i, lookup' key = lookup key) →
      expandLoop runs lookup' word i results = expandLoop runs lookup word i results := by
  induction word using List.twoStepInduction with
  | nil => exact fun _ _ _ => by rw [expandLoop, expandLoop]
  | singleton c =>
      intro i results _
      simp only [expandLoop]
  | cons_cons c d word ih₂ ih₁ =>
      intro i results hagree
      unfold expandKeys at hagree
      unfold expandLoop
      by_cases hc : c = '#'
      · rw [if_pos hc] at hagree ⊢
        rw [if_pos hc]
        dsimp only at hagree ⊢
        -- `#4` is the one marker that looks its run up; the key is the first that is visited
        by_cases hd : d = '4'
        · rw [if_pos hd] at hagree ⊢
          rw [if_pos hd]
          cases hrun : runs[i]? with
          | none => rfl
          | some run =>
              rw [hrun] at hagree
              dsimp only at hagree ⊢
              rw [hagree run (List.mem_cons_self ..)]
              by_cases hempty : (lookup run).isEmpty
              · rw [if_pos hempty, if_pos hempty]
              · rw [if_neg hempty] at hagree ⊢
                rw [if_neg hempty]
                exact ih₂ _ _ fun key hkey => hagree key (List.mem_cons_of_mem _ hkey)
        · rw [if_neg hd] at hagree ⊢
          rw [if_neg hd]
          cases hmarker : NumType.fromMarker d with
          | none =>
              rw [hmarker] at hagree
              exact ih₁ d _ _ hagree
          | some ty =>
              rw [hmarker] at hagree
              dsimp only at hagree ⊢
              cases hrun : runs[i]? with
              | none => rfl
              | some digits =>
                  rw [hrun] at hagree
                  dsimp only at hagree ⊢
                  obtain ⟨converted, hconv, -⟩ := convert_runs digits ty
                  rw [hconv] at hagree ⊢
                  rw [ok_bind, ok_bind]
                  cases converted with
                  | none => rfl
                  | some part => exact ih₂ _ _ hagree
      · rw [if_neg hc] at hagree ⊢
        rw [if_neg hc]
        exact ih₁ d _ _ hagree

/-! ### Without directives -/

/-- No candidate is an `skk-ignore-dic-word` directive. -/
def NoDirective (candidates : List Candidate) : Prop :=
  ∀ c ∈ candidates, ∀ words, c.lispForm ≠ some (.ignoreDicWord words)

/-- Without a directive nothing is ignored, so the setting makes no difference for such
entries. -/
theorem NoDirective.ignoreSet_eq {candidates : List Candidate} (h : NoDirective candidates) :
    SkkEngine.ignoreSet candidates = [] := by
  unfold SkkEngine.ignoreSet
  rw [List.flatMap_eq_nil_iff]
  intro c hc
  unfold Candidate.ignoredWords
  split
  · rename_i words hform
    exact absurd hform (h c hc words)
  · rfl

namespace SkkEngine

variable {δ : Type} [DictionaryProvider δ] {self : SkkEngine δ}

/-- The keys the `#4` markers of a conversion look up, for all the entries of the reading that
are templates. -/
def recursiveKeys (self : SkkEngine δ) (midashi : Str) (okuriKey : Option Str) : List Str :=
  ((self.lookupAll (lookupKeyOf midashi) okuriKey).filter fun c => c.lispForm.isNone).flatMap
    fun c => expandKeys (scan midashi).2 self.recursiveLookup c.word 0

/-- No entry that the conversion looks up has a directive. -/
structure FreeOfDirectives (engine : SkkEngine δ) (midashi : Str) (okuriKey : Option Str) :
    Prop where
  primary : NoDirective (engine.lookupAll (lookupKeyOf midashi) okuriKey)
  recursive : ∀ key ∈ engine.recursiveKeys midashi okuriKey,
    NoDirective (engine.lookupAll key none)

/-- The displayable words of the entries under `key`, streamed until the cap. -/
def streamedWords (self : SkkEngine δ) (key : Str) : List Str :=
  takeDistinct id maxRecursiveExpansions []
    (((self.lookupAll key none).filter Candidate.isDisplayable).map Candidate.word)

omit [DictionaryProvider δ] in
/-- To collect the distinct words and cut the list gives what a stream gives that stops at the
cap. -/
theorem dedupWords_take (words : List Str) :
    (dedupWords words).take maxRecursiveExpansions =
      takeDistinct id maxRecursiveExpansions [] words := by
  rw [dedupWords, foldl_insert, takeDistinct_eq]
  simp

/-- The fast path is the stream; without a directive so is the other one. Which of the two is
taken is decided by the setting alone. -/
theorem recursiveLookup_eq_stream (key : Str)
    (h : self.lispDirectives = true → NoDirective (self.lookupAll key none)) :
    self.recursiveLookup key = self.streamedWords key := by
  unfold recursiveLookup streamedWords
  dsimp only
  cases hlisp : self.lispDirectives with
  | false => exact dedupWords_take _
  | true =>
      rw [if_pos rfl, (h hlisp).ignoreSet_eq, dedupWords_take]
      simp

/-- The setting makes no difference to a round of the candidate loop, when the lookups of the
round agree. -/
theorem gatherCandidate_directives {enabled : Bool} {hidden : Str → Bool} {lookupKey : Str}
    {digitRuns : List Str} {c : Candidate}
    (hagree : c.lispForm = none → ∀ key ∈ expandKeys digitRuns self.recursiveLookup c.word 0,
      (self.withLispDirectives enabled).recursiveLookup key = self.recursiveLookup key)
    (g : Gathered) :
    (self.withLispDirectives enabled).gatherCandidate hidden lookupKey digitRuns g c =
      self.gatherCandidate hidden lookupKey digitRuns g c := by
  unfold gatherCandidate
  cases hlisp : c.lispForm with
  | some form => rfl
  | none =>
      rw [expandWithRecursiveLookup, expandWithRecursiveLookup,
        expandLoop_congr digitRuns self.recursiveLookup _ c.word 0 [[]] (hagree hlisp)]

/-- Two loops agree when their bodies agree on the elements of the list, whatever they have
gathered so far. -/
theorem foldlM_congr_mem {α β ε : Type} {f f' : β → α → Except ε β} (xs : List α) :
    (∀ x ∈ xs, ∀ b, f' b x = f b x) → ∀ b, xs.foldlM f' b = xs.foldlM f b := by
  induction xs with
  | nil => exact fun _ _ => rfl
  | cons x xs ih =>
      intro hagree b
      rw [List.foldlM_cons, List.foldlM_cons, hagree x List.mem_cons_self]
      congr 1
      funext b'
      exact ih (fun y hy => hagree y (List.mem_cons_of_mem _ hy)) b'

/-- The setting makes no difference to the candidates. No directive hides a word of the reading,
and no lookup of a `#4` marker meets one either. So every entry is expanded and offered alike,
with the directives evaluated or not. -/
theorem gatherCandidates_directives {midashi : Str} {okuriKey : Option Str}
    (h : self.FreeOfDirectives midashi okuriKey) (enabled : Bool) :
    (self.withLispDirectives enabled).gatherCandidates midashi okuriKey =
      self.gatherCandidates midashi okuriKey := by
  have hkey : lookupKeyOf midashi = (scan midashi).1 := lookupKeyOf_eq midashi
  have hprimary : ignoreSet (self.lookupAll (scan midashi).1 okuriKey) = [] :=
    hkey ▸ h.primary.ignoreSet_eq
  have hnothing : ∀ flag, (self.withLispDirectives flag).hides (scan midashi).1 okuriKey =
      fun _ => false := by
    intro flag
    funext word
    unfold hides
    have hlookup : (self.withLispDirectives flag).lookupAll (scan midashi).1 okuriKey =
        self.lookupAll (scan midashi).1 okuriKey := rfl
    rw [hlookup, hprimary]
    simp
  have hsame : self.withLispDirectives self.lispDirectives = self := rfl
  rw [gatherCandidates_eq, gatherCandidates_eq, hnothing enabled, ← hsame,
    hnothing self.lispDirectives, hsame]
  congr 1
  refine foldlM_congr_mem _ (fun c hc g => ?_) _
  refine gatherCandidate_directives (fun hplain key hexpands => ?_) g
  -- a key that the expansion of an entry looks up is among those the hypothesis is about
  have hvisited : key ∈ self.recursiveKeys midashi okuriKey := by
    refine List.mem_flatMap.mpr ⟨c, List.mem_filter.mpr ⟨hkey ▸ hc, by simp [hplain]⟩, ?_⟩
    exact hexpands
  have hfree : NoDirective (self.lookupAll key none) := h.recursive key hvisited
  rw [recursiveLookup_eq_stream key fun _ => hfree]
  exact recursiveLookup_eq_stream key fun _ => hfree

/-- A result with the setting changed. -/
def withDirectives (enabled : Bool) (r : SkkEngine δ × List EngineAction) :
    SkkEngine δ × List EngineAction := (r.1.withLispDirectives enabled, r.2)

omit [DictionaryProvider δ] in
/-- The preedit is drawn from the phase, so the setting stays out of it and is only handed
through. -/
theorem redraw_directives (self : SkkEngine δ) (enabled : Bool) :
    (self.withLispDirectives enabled).redraw = (do
      let r ← self.redraw
      .ok (withDirectives enabled r)) := by
  unfold redraw
  -- The preedit does not look at the setting.
  have hpreedit : (self.withLispDirectives enabled).preeditAction = self.preeditAction := rfl
  rw [hpreedit]
  cases self.preeditAction with
  | error e => rfl
  | ok action => rfl

/-- The preedit of a new selection, with its first page when that is listed. -/
def drawSelection (self : SkkEngine δ) (candidates : List Candidate) :
    Partial (SkkEngine δ × List EngineAction) := do
  let preedit ← self.preeditAction
  match ← self.listingShowAction candidates 0 with
  | some «show» => .ok (self, [«show», preedit])
  | none => .ok (self, [preedit])

omit [DictionaryProvider δ] in
/-- The preedit and the page of a new selection do not depend on the setting. -/
theorem drawSelection_directives (self : SkkEngine δ) (candidates : List Candidate)
    (enabled : Bool) :
    (self.withLispDirectives enabled).drawSelection candidates = (do
      let r ← self.drawSelection candidates
      .ok (withDirectives enabled r)) := by
  have hpreedit : (self.withLispDirectives enabled).preeditAction = self.preeditAction := rfl
  have hpage : (self.withLispDirectives enabled).listingShowAction candidates 0 =
      self.listingShowAction candidates 0 := rfl
  unfold drawSelection
  rw [hpreedit, hpage]
  cases self.preeditAction with
  | error e => rfl
  | ok preedit =>
      rw [ok_bind, ok_bind]
      cases self.listingShowAction candidates 0 with
      | error e => rfl
      | ok page => cases page <;> rfl

/-- What a conversion makes of the candidates it has gathered. -/
def openGathered (self : SkkEngine δ) (midashi : Str) (okuri : Option (Str × Str))
    (g : Gathered) : Partial (SkkEngine δ × List EngineAction) :=
  if g.candidates.isEmpty then
    (self.pushFrame (self.newFrame midashi (okuri.map Prod.fst) (okuri.map Prod.snd))).redraw
  else
    SkkEngine.drawSelection { self with phase := .selecting (openSelection midashi okuri g) }
      g.candidates

/-- A conversion gathers its candidates and then opens a selection or a registration. The
completion is dropped in between, which no lookup sees. -/
theorem startConversion_eq (self : SkkEngine δ) (midashi : Str) (okuri : Option (Str × Str)) :
    self.startConversion midashi okuri = (do
      let g ← self.gatherCandidates midashi (okuri.map Prod.fst)
      SkkEngine.openGathered { self with completion := none } midashi okuri g) := by
  have hgather : { self with completion := none }.gatherCandidates midashi (okuri.map Prod.fst) =
      self.gatherCandidates midashi (okuri.map Prod.fst) := gatherCandidates_congr rfl rfl _ _
  rw [← hgather]
  rfl

omit [DictionaryProvider δ] in
/-- From the same candidates the two settings go on alike, to a selection or to a
registration. -/
theorem openGathered_directives (self : SkkEngine δ) (midashi : Str) (okuri : Option (Str × Str))
    (g : Gathered) (enabled : Bool) :
    (self.withLispDirectives enabled).openGathered midashi okuri g = (do
      let r ← self.openGathered midashi okuri g
      .ok (withDirectives enabled r)) := by
  unfold openGathered
  by_cases hempty : g.candidates.isEmpty
  · rw [if_pos hempty, if_pos hempty]
    exact redraw_directives
      (self.pushFrame (self.newFrame midashi (okuri.map Prod.fst) (okuri.map Prod.snd))) enabled
  · rw [if_neg hempty, if_neg hempty]
    exact drawSelection_directives
      { self with phase := .selecting (openSelection midashi okuri g) } g.candidates enabled

/-- Where the entries have no directive, a conversion with directives enabled and one with
directives disabled end in the same state and the same actions; and every lookup of a `#4`
marker gives the stream of the words, cut off at the cap. -/
theorem startConversion_directives {midashi : Str} {okuri : Option (Str × Str)}
    (h : self.FreeOfDirectives midashi (okuri.map Prod.fst)) (enabled : Bool) :
    (self.withLispDirectives enabled).startConversion midashi okuri = (do
        let r ← self.startConversion midashi okuri
        .ok (withDirectives enabled r)) ∧
      ∀ key ∈ self.recursiveKeys midashi (okuri.map Prod.fst),
        (self.withLispDirectives enabled).recursiveLookup key = self.streamedWords key := by
  constructor
  · rw [startConversion_eq, startConversion_eq, gatherCandidates_directives h enabled]
    cases self.gatherCandidates midashi (okuri.map Prod.fst) with
    | error e => rfl
    | ok g =>
        rw [ok_bind, ok_bind]
        exact openGathered_directives { self with completion := none } midashi okuri g enabled
  · intro key hkey
    exact recursiveLookup_eq_stream key fun _ => h.recursive key hkey

/-- A `#4` template, and two words with a Lisp form between them under the digit. -/
def fourDict : FileDict where
  entries := (OrdMap.empty.insert ['#'] (OrdMap.empty.insert none [.new ['#', '4']])).insert ['3']
    (OrdMap.empty.insert none
      [.new ['三', '月'], .lisp "(current-time-string)".toList .unknown, .new ['三', '日'],
       .new ['三', '月']])
  priority := 0

/-- A conversion through a `#4` marker is the same in both settings. The entries of the key hold
an unknown form and a word twice, so the lookup has something to drop. -/
theorem startConversion_directives_recursive :
    let self := fresh vowelTable {} true .hiragana [fourDict]
    (self.offers ['3'] none).take 2 =
        [(.new ['三', '月'], .dict ['#'] ['#', '4']), (.new ['三', '日'], .dict ['#'] ['#', '4'])] ∧
      (self.withLispDirectives false).startConversion ['3'] none = (do
        let r ← self.startConversion ['3'] none
        .ok (withDirectives false r)) := by
  have hprimary : (fresh vowelTable {} true .hiragana [fourDict]).lookupAll (lookupKeyOf ['3'])
      none = [.new ['#', '4']] := by decide +kernel
  have hkeys : (fresh vowelTable {} true .hiragana [fourDict]).recursiveKeys ['3'] none =
      [['3']] := by decide +kernel
  have hrecursive : (fresh vowelTable {} true .hiragana [fourDict]).lookupAll ['3'] none =
      [.new ['三', '月'], .lisp "(current-time-string)".toList .unknown, .new ['三', '日'],
       .new ['三', '月']] := by decide +kernel
  -- Neither the entries of the reading nor those behind its marker have a directive; the Lisp
  -- form among them is none.
  have hfree : (fresh vowelTable {} true .hiragana [fourDict]).FreeOfDirectives ['3'] none := by
    constructor
    · show NoDirective (SkkEngine.lookupAll _ _ none)
      rw [hprimary]
      simp [NoDirective, Candidate.new]
    · show ∀ key ∈ SkkEngine.recursiveKeys _ _ none, _
      rw [hkeys]
      intro key hkey
      obtain rfl := List.mem_singleton.mp hkey
      rw [hrecursive]
      simp [NoDirective, Candidate.new, Candidate.lisp]
  exact ⟨by decide +kernel, (startConversion_directives hfree false).1⟩

end SkkEngine

end Y2Skk
