import Y2Skk.Engine.Kana

/-!
# `Y2Skk.Engine.Selecting`: choosing a candidate, and the purge confirmation

The first `inlineCount` candidates are offered one at a time; from there on the candidates
are listed in pages, one row per selection key. Space goes forward and the cancel key
back, by one candidate or by one page; past the last candidate a registration is opened.

## The other keys

The keys that end a selection all commit the candidate at `index`, and differ in what they
do besides: Return and BackSpace go on to the application, an affix character starts
another reading, and any other character starts the next input. A selection key commits
the candidate of its row, if the page has that row. `X` asks for a confirmation before the
candidate is purged, and only where no list is shown, since the selection keys may be
letters.

The order of the tests is that of the source, and it matters: a selection key that is also
the cancel key goes back, and one that is an affix character selects.

In the purge confirmation only letters, BackSpace and Return do anything, and Return only
after one of the two answers. Every other key is answered with no action at all.
-/

set_option autoImplicit false

namespace Y2Skk

open Outcome Utf8

namespace SkkEngine

variable {δ : Type} [DictionaryProvider δ]

/-- The candidate at `index` is shown in a page. -/
def inListing (self : SkkEngine δ) (index : Nat) : Bool :=
  decide (0 < self.keybindings.selectionKeys.length ∧ self.keybindings.inlineCount ≤ index)

/-- The conversion is cancelled: back to the reading. -/
def backToMidashi (self : SkkEngine δ) (s : Selection) :
    Partial (SkkEngine δ × List EngineAction) := do
  let self := { self with
    phase := .midashi s.midashi [], kanaState := [], conversionTrigger := none }
  let self := self.updateCompletion s.midashi
  return (self, [.hideCandidates, ← self.preeditAction])

/-- The index one candidate, or one page, before `index`. -/
def previousIndex (self : SkkEngine δ) (index : Nat) : Nat :=
  if self.inListing index then
    let prevRaw := index - self.keybindings.selectionKeys.length
    -- From the first page, back to the last inline candidate.
    if prevRaw < self.keybindings.inlineCount then self.keybindings.inlineCount - 1 else prevRaw
  else index - 1

/-- The cancel key: one candidate or page back, or back to the reading from the first. -/
def selectPrevious (self : SkkEngine δ) (s : Selection) :
    Partial (SkkEngine δ × List EngineAction) :=
  if s.index = 0 then self.backToMidashi s
  else do
    let prev := self.previousIndex s.index
    let wasListing := self.inListing s.index
    let self := { self with phase := .selecting { s with index := prev } }
    let preedit ← self.preeditAction
    match ← self.listingShowAction s.candidates prev with
    | some «show» => .ok (self, [«show», preedit])
    -- Only leaving the listing has a window to hide.
    | none => .ok (self, if wasListing then [.hideCandidates, preedit] else [preedit])

/-- Space: the next candidate or page; past the last one, the registration mode. The page is
drawn before the preedit. -/
def selectNext (self : SkkEngine δ) (s : Selection) : Partial (SkkEngine δ × List EngineAction) :=
  let next := if self.inListing s.index then s.index + self.keybindings.selectionKeys.length
    else s.index + 1
  if s.candidates.length ≤ next then self.enterRegisterFromSelecting s
  else do
    let self := { self with phase := .selecting { s with index := next } }
    let preedit ← self.preeditAction
    match ← self.listingShowAction s.candidates next with
    | some «show» => .ok (self, [«show», preedit])
    | none => .ok (self, [preedit])

/-- The candidate a selection key picks from the current page; none outside the listing. -/
def selectedByKey (self : SkkEngine δ) (s : Selection) (event : KeyEvent) : Option Nat := do
  if self.inListing s.index then
    let ch ← event.printableChar
    let selIdx ← self.keybindings.selectionKeys.findIdx? (· = ch)
    -- A key beyond the last row of the page selects nothing.
    if s.index + selIdx < s.candidates.length then some (s.index + selIdx) else none
  else none

/-- `>`, `<` and `?` commit the candidate and start the reading of a suffix. The three
characters start the same reading. -/
def selectAffix (self : SkkEngine δ) (s : Selection) :
    Partial (SkkEngine δ × List EngineAction) := do
  let (self, actions) ← self.commitCandidate s s.index
  let self := { self with phase := .midashi ['>'] [], kanaState := [] }
  return (self, actions ++ [← self.preeditAction])

/-- `handle_selecting`: a key during a selection. The tests come in the order of the source:
Escape, the cancel keys, the keys that commit, and a selection key only after those. -/
def handleSelecting (self : SkkEngine δ) (event : KeyEvent) (s : Selection) :
    Partial (SkkEngine δ × List EngineAction) :=
  if event.key = .escape then self.backToMidashi s
  else if event.printableChar.any fun c => decide (c ∈ self.keybindings.cancel) then
    self.selectPrevious s
  else if event.key = .backSpace then do
    let (self, actions) ← self.commitCandidate s s.index
    -- The key still deletes, in what has just been committed.
    .ok (self, actions ++ [.deleteBack])
  else if event.key = .returnKey then do
    let (self, actions) ← self.commitCandidate s s.index
    .ok (self, actions ++ [.passthrough])
  else if event.key = .char 'j' ∧ event.modifiers.ctrl then self.commitCandidate s s.index
  else if event.key = .space then self.selectNext s
  else
    match self.selectedByKey s event with
    | some candIdx => self.commitCandidate s candIdx
    | none =>
      if event.key = .char 'X' ∧ !event.modifiers.ctrl ∧ !self.inListing s.index then do
        let self := { self with phase := .purgeConfirm s [] self.midashiDisplayMode }
        return (self, [.hideCandidates, ← self.preeditAction])
      else if event.printableChar.any isAffixChar then self.selectAffix s
      else if event.printableChar.isSome ∧ !event.modifiers.ctrl then do
        let (self, actions) ← self.commitCandidate s s.index
        -- Any other character commits and starts the next input.
        let (self, more) ← self.handleKana event
        .ok (self, actions ++ more)
      else .ok (self, [.passthrough])

/-- `handle_purge_confirm`: a key during the confirmation. `char::is_ascii_alphabetic` is
`Char.isAlpha`. The branches that return no action are the ones `dispatch` later reports as not
consumed. -/
def handlePurgeConfirm (self : SkkEngine δ) (event : KeyEvent) (buf : Str) :
    Partial (SkkEngine δ × List EngineAction) :=
  if event.key = .returnKey then
    if buf = ['y', 'e', 's'] then self.executePurge
    -- Any other answer waits.
    else if buf = ['n', 'o'] then self.cancelPurge
    else .ok (self, [])
  else if event.key = .backSpace then self.updatePurgeBuf buf.dropLast
  else
    match event.printableChar with
    | some ch =>
        if ch.isAlpha ∧ !event.modifiers.ctrl then self.updatePurgeBuf (buf ++ [ch])
        else .ok (self, [])
    | none => .ok (self, [])

end SkkEngine

end Y2Skk
