import Y2Skk.Engine.Preedit

/-!
# `Y2Skk.Engine.Conversion`: from a reading to candidates, and back to kana

`startConversion` looks a reading up and enters `Selecting`, or the registration mode when
there is no candidate. `commitCandidate` sends a candidate to the application and has it
learned. `enterRegisterFromSelecting` and `executePurge` are the two other ways a
selection ends.

## Gathering the candidates

A reading with digits is looked up as its template, with `#` for each run of digits. The
words found are expanded over the runs (`gatherCandidate`), hidden when a directive says
so, and offered once each, under what they were looked up by: this origin is what is
learned later. Conversions of the digits themselves are appended when nothing else was
found, and for a purely numeric reading always; these are not checked against the
directives.

## The state a failed lookup leaves

Nothing found means a registration: the reading becomes a frame on the registration stack,
and the phase is Hiragana, whatever the mode was. The frame has the template, the reading
as typed and the runs, since the word typed for it may itself be a template.

The dictionaries are called through `learnAll` and `purgeAll`, which ignore their results
as the source does.
-/

set_option autoImplicit false

namespace Y2Skk

open Outcome Utf8

/-- What the candidate loop of `start_conversion` has gathered: the words already offered,
the candidates, and their origins. -/
structure Gathered where
  seen : List Str
  candidates : List Candidate
  origin : List CandidateOrigin
  deriving DecidableEq, Repr

namespace Gathered

/-- Adds a candidate, and remembers its word. -/
def push (g : Gathered) (word : Str) (note : Option Str) (origin : CandidateOrigin) :
    Gathered where
  seen := g.seen ++ [word]
  candidates := g.candidates ++ [⟨word, note, none⟩]
  origin := g.origin ++ [origin]

/-- Offers a word unless it is hidden or was offered before. -/
def offer (g : Gathered) (hidden : Str → Bool) (word : Str) (note : Option Str)
    (origin : CandidateOrigin) : Gathered :=
  if hidden word then g
  else if word ∈ g.seen then g
  else g.push word note origin

end Gathered

namespace SkkEngine

variable {δ : Type} [DictionaryProvider δ]

/-- The candidates all providers return for a key, in provider order, as each lookup of
`start_conversion` collects them. Directives are among them. -/
def lookupAll (self : SkkEngine δ) (key : Str) (okuriKey : Option Str) : List Candidate :=
  (self.dict.filterMap fun d => DictionaryProvider.lookup d key okuriKey).flatMap
    DictEntry.candidates

/-- The words the directives among `candidates` hide. -/
def ignoreSet (candidates : List Candidate) : List Str :=
  candidates.flatMap Candidate.ignoredWords

/-- First occurrences only (`filter(|w| seen.insert(w.clone()))`). -/
def dedupWords (words : List Str) : List Str :=
  words.foldl (fun acc w => if w ∈ acc then acc else acc ++ [w]) []

/-- The closure that `start_conversion` passes on as the lookup of a `#4` marker. With
directives enabled the secondary entries' own directives apply; without, the candidates are
streamed, and the stream is cut off at the cap. -/
def recursiveLookup (self : SkkEngine δ) (key : Str) : List Str :=
  let secondary := self.lookupAll key none
  let displayable := (secondary.filter Candidate.isDisplayable).map Candidate.word
  if self.lispDirectives then
    (dedupWords (displayable.filter fun w => w ∉ ignoreSet secondary)).take
      maxRecursiveExpansions
  else (dedupWords displayable).take maxRecursiveExpansions

/-- One round of the candidate loop of `start_conversion`. A word of one expansion and a word of
several are treated alike, in two branches as in the source. -/
def gatherCandidate (self : SkkEngine δ) (hidden : Str → Bool) (lookupKey : Str)
    (digitRuns : List Str) (g : Gathered) (c : Candidate) : Partial Gathered :=
  -- Directives and other Lisp forms are never offered.
  if c.lispForm.isSome then .ok g
  else if digitRuns.isEmpty then
    .ok (g.offer hidden c.word c.annotation (.dict lookupKey c.word))
  else do
    let alts ← expandWithRecursiveLookup c.word digitRuns self.recursiveLookup
    -- A template that does not fit the runs offers nothing.
    if alts.isEmpty then .ok g
    else if alts.length = 1 then do
      let expandedWord ← unwrap alts.getLast?
      .ok (g.offer hidden expandedWord c.annotation (.dict lookupKey c.word))
    else
      .ok (alts.foldl (fun g expandedWord =>
        g.offer hidden expandedWord c.annotation (.dict lookupKey c.word)) g)

/-- Appends the synthetic candidates that are not present yet. They are compared with the
candidates and not with the words seen, which is the same: a word is in both or in neither. -/
def appendSynthetic (words : List Str) (g : Gathered) : Gathered :=
  words.foldl (fun g w =>
    if g.candidates.any fun c => c.word = w then g
    else { g with candidates := g.candidates ++ [⟨w, none, none⟩],
                  origin := g.origin ++ [.synthetic] }) g

/-- The candidates of a reading and their origins, as `start_conversion` builds them: the loop
over what the dictionaries have, and the bare conversions of the digits behind it. -/
def gatherCandidates (self : SkkEngine δ) (midashi : Str) (okuriKey : Option Str) :
    Partial Gathered := do
  let (template, digitRuns) := scan midashi
  let hasDigits := !digitRuns.isEmpty
  -- A reading with digits is looked up as its template, `だい3かい` as `だい#かい`.
  let lookupKey := if hasDigits then template else midashi
  let dictCandidates := self.lookupAll lookupKey okuriKey
  let hidden := fun w => self.lispDirectives && decide (w ∈ ignoreSet dictCandidates)
  let gathered ← dictCandidates.foldlM
    (self.gatherCandidate hidden lookupKey digitRuns) ⟨[], [], []⟩
  -- Bare conversions of the digits: as a fallback, and always for a purely numeric reading.
  if hasDigits ∧ (gathered.candidates.isEmpty ∨ template = ['#']) then do
    let words ← synthesize digitRuns NumType.synthTypes
    .ok (appendSynthetic words gathered)
  else .ok gathered

/-- The frame a registration for `midashi` starts with: an empty buffer, and what the registered
word will be learned for. A conversion and the end of a selection open the same one. -/
def newFrame (self : SkkEngine δ) (midashi : Str) (okuriKey okuriKana : Option Str) :
    RegisterFrame where
  midashi := (scan midashi).1
  originalMidashi := midashi
  digitRuns := (scan midashi).2
  okuriKey := okuriKey
  okuriKana := okuriKana
  committed := []
  cursor := 0
  isAbbrev := self.midashiIsAbbrev

/-- The registration mode is entered with a fresh frame. The phase is Hiragana, so that the word
can be typed. -/
def pushFrame (self : SkkEngine δ) (frame : RegisterFrame) : SkkEngine δ :=
  { self with registerStack := frame :: self.registerStack, phase := .hiragana, kanaState := [] }

/-- `start_conversion`: looks `midashi` up, with the okurigana key and kana when there are any.
What it finds is opened as a selection on its first candidate; a reading without candidates is
registered. -/
def startConversion (self : SkkEngine δ) (midashi : Str) (okuri : Option (Str × Str)) :
    Partial (SkkEngine δ × List EngineAction) := do
  let self := { self with completion := none }
  let gathered ← self.gatherCandidates midashi (okuri.map Prod.fst)
  -- Nothing found: the reading is registered, inside the registration already open if any.
  -- A pending conversion trigger stays.
  if gathered.candidates.isEmpty then
    (self.pushFrame (self.newFrame midashi (okuri.map Prod.fst) (okuri.map Prod.snd))).redraw
  else do
    let self := { self with
      phase := .selecting {
        midashi := midashi, okuri := okuri.map Prod.snd, okuriKey := okuri.map Prod.fst,
        candidates := gathered.candidates, origin := gathered.origin, index := 0 } }
    let preedit ← self.preeditAction
    match ← self.listingShowAction gathered.candidates 0 with
    | some «show» => .ok (self, [«show», preedit])
    | none => .ok (self, [preedit])

/-- `learn` on every provider; the results are ignored. -/
def learnAll (self : SkkEngine δ) (entry : DictEntry) : SkkEngine δ :=
  { self with dict := self.dict.map fun d => (DictionaryProvider.learn d entry).1 }

/-- `purge` on every provider; the results are ignored. -/
def purgeAll (self : SkkEngine δ) (midashi : Str) (okuri : Option Str) (word : Str) :
    SkkEngine δ :=
  { self with dict := self.dict.map fun d => (DictionaryProvider.purge d midashi okuri word).1 }

/-- The entry to learn for the candidate at `index`; synthetic candidates have none. It holds
one candidate, the one that was chosen. -/
def learnEntry (s : Selection) (index : Nat) (chosen : Candidate) : Option DictEntry :=
  match s.origin[index]? with
  -- What was looked up is learned: the template, not its expansion.
  | some (.dict templateMidashi templateWord) =>
      some ⟨templateMidashi, s.okuriKey, [⟨templateWord, chosen.annotation, none⟩]⟩
  | some .synthetic => none
  | none => some ⟨s.midashi, s.okuriKey, [chosen]⟩

/-- `commit_candidate`: commits the candidate at `index` of a selection and returns to the kana
mode. A conversion trigger is committed behind it. -/
def commitCandidate (self : SkkEngine δ) (s : Selection) (index : Nat) :
    Partial (SkkEngine δ × List EngineAction) := do
  let chosen ← indexList s.candidates index
  -- Only the text is committed; what is learned may be another word.
  let text := chosen.word ++ s.okuri.getD []
  let self := match learnEntry s index chosen with
    | some entry => self.learnAll entry
    | none => self
  let trigger := self.conversionTrigger
  let self := { self with
    phase := self.midashiDisplayMode.toPhase, kanaState := [], conversionTrigger := none }
  .ok (self, [.hideCandidates, .commit text, .clearPreedit]
    ++ (trigger.map EngineAction.commit).toList)

/-- `enter_register_from_selecting`: enters the registration mode when the candidates of a
selection are exhausted. A conversion trigger is forgotten here, unlike when a lookup finds
nothing. -/
def enterRegisterFromSelecting (self : SkkEngine δ) (s : Selection) :
    Partial (SkkEngine δ × List EngineAction) := do
  let self := self.pushFrame (self.newFrame s.midashi s.okuriKey s.okuri)
  let self := { self with conversionTrigger := none }
  return (self, [.hideCandidates, ← self.preeditAction])

/-- Removes the focused candidate from the dictionaries. The okurigana argument of the
purge is the kana, `okuri`. -/
def executePurge (self : SkkEngine δ) : Partial (SkkEngine δ × List EngineAction) :=
  match self.phase with
  | .purgeConfirm s _ returnMode => do
      let word := (← indexList s.candidates s.index).word
      let self := self.purgeAll s.midashi s.okuri word
      let self := { self with
        phase := returnMode.toPhase, kanaState := [], conversionTrigger := none }
      .ok (self, [.hideCandidates, .clearPreedit])
  | _ => .ok ({ self with phase := .hiragana }, [])

/-- `cancel_purge`: returns from the purge confirmation to the selection, which the phase has
kept. Called in another phase, which does not happen, it only leaves for Hiragana. -/
def cancelPurge (self : SkkEngine δ) : Partial (SkkEngine δ × List EngineAction) :=
  match self.phase with
  | .purgeConfirm s _ _ => do
      -- The page is taken while the phase is `Hiragana`, the preedit afterwards.
      let «show» ← self.listingShowAction s.candidates s.index
      let self := { self with phase := .selecting s }
      return (self, «show».toList ++ [← self.preeditAction])
  | _ => .ok ({ self with phase := .hiragana }, [])

/-- Replaces the yes/no buffer, and draws it. -/
def updatePurgeBuf (self : SkkEngine δ) (buf : Str) : Partial (SkkEngine δ × List EngineAction) :=
  match self.phase with
  | .purgeConfirm s _ returnMode => { self with phase := .purgeConfirm s buf returnMode }.redraw
  | _ => { self with phase := .hiragana }.redraw

end SkkEngine

end Y2Skk
