import Y2Skk.Lib.Fuel
import Y2Skk.Proofs.Invariant

/-!
# `Y2Skk.Proofs.Termination`: feeding a character comes to an end

The transition table can hand a character back, and then `feed_kana` and `handle_midashi`
are called again with it. The start state hands nothing back
(`KanaTable.transition_nil_retry`), whatever the table is, and a character is only ever
handed back to the start state. So two calls are enough with romaji pending, and one
without.

## The two recursions

* `feedKana_cases`, `handleMidashi_cases`: a call does without another one, or there is
  romaji pending and the next call has none.
* `feedKana_settles`, `handleMidashi_settles`: two calls end, and more make no difference.
  The handlers are defined by recursion on fuel, and this is why `redispatchFuel` is
  enough.

## Everything else

The other handlers do not recurse. Their lemmas say so, one for each, in the order of the
modules of the engine; `Ends` says of a computation that it does not run out of fuel,
though it may still panic. `processKey_ends`: a key press ends, in every state of the
engine, also one that no run reaches.
-/

set_option autoImplicit false

namespace Y2Skk

open Outcome Utf8

/-! ### The edit buffer of a registration -/

namespace RegisterFrame

variable (frame : RegisterFrame)

/-- Inserting looks at the buffer once. -/
theorem insert_ends (text : Str) : Ends (frame.insert text) :=
  (insertStr_ends _ _ _).bind fun _ => ends_ok _

/-- The character before the cursor is found in the buffer. -/
theorem previous_ends : Ends frame.previous :=
  (sliceTo_ends _ _).bind fun _ => (unwrap_ends _).bind fun _ => ends_ok _

/-- BackSpace in the buffer deletes one character. -/
theorem backspace_ends : Ends frame.backspace :=
  Ends.ite (fun _ => frame.previous_ends.bind fun _ => (removeAt_ends _ _).bind fun _ => ends_ok _)
    fun _ => ends_ok _

/-- Delete in the buffer deletes one character. -/
theorem delete_ends : Ends frame.delete :=
  Ends.ite (fun _ => (removeAt_ends _ _).bind fun _ => ends_ok _) fun _ => ends_ok _

/-- A move to the left is by one character. -/
theorem moveLeft_ends : Ends frame.moveLeft :=
  Ends.ite (fun _ => frame.previous_ends.bind fun _ => ends_ok _) fun _ => ends_ok _

/-- A move to the right is by one character. -/
theorem moveRight_ends : Ends frame.moveRight :=
  Ends.ite (fun _ => (sliceFrom_ends _ _).bind fun _ => (unwrap_ends _).bind fun _ => ends_ok _)
    fun _ => ends_ok _

end RegisterFrame

namespace SkkEngine

/-! ### The preedit -/

section Preedit
variable {δ : Type} (self : SkkEngine δ)

/-- What is drawn of a phase is put together from its texts. Only the focused candidate has to
be looked up, and that is one index into the list. -/
theorem buildInnerPreedit_ends : Ends self.buildInnerPreedit := by
  unfold buildInnerPreedit
  cases self.phase with
  | codeInput codePrefix buf => cases codePrefix <;> simp
  | selecting s =>
      refine (indexList_ends s.candidates s.index).bind fun cand => ?_
      cases cand.annotation <;> simp
  | _ => simp

/-- A text is placed inside the prompts of the registrations. The buffer of the top frame is cut
at its cursor, which either succeeds or panics. -/
theorem placePreedit_ends (inner : Str) (cursorPos : Nat) (ghost : Bool) :
    Ends (self.placePreedit inner cursorPos ghost) := by
  unfold placePreedit
  cases self.registerStack with
  | nil => simp
  | cons frame frames =>
      refine (sliceTo_ends frame.committed frame.cursor).bind fun before => ?_
      exact (sliceFrom_ends frame.committed frame.cursor).bind fun _ => ends_ok _

/-- A preedit without a ghost is such a text. -/
theorem plainPreedit_ends : Ends self.plainPreedit :=
  self.buildInnerPreedit_ends.bind fun inner => self.placePreedit_ends inner _ false

/-- So is a preedit with one. -/
theorem buildPreedit_ends : Ends self.buildPreedit := by
  unfold buildPreedit
  split
  · refine Ends.ite (fun _ => ?_) fun _ => self.plainPreedit_ends
    exact (sliceFrom_ends _ _).bind fun _ => self.placePreedit_ends _ _ true
  · exact self.plainPreedit_ends

/-- The action that draws the preedit is built from it. -/
theorem preeditAction_ends : Ends self.preeditAction :=
  self.buildPreedit_ends.bind fun _ => ends_pure _

/-- A redraw is that action and no more. -/
@[simp] theorem redraw_ends : Ends self.redraw :=
  self.preeditAction_ends.bind fun _ => ends_pure _

/-- A page is cut out of the candidates. -/
theorem listingShowAction_ends (candidates : List Candidate) (index : Nat) :
    Ends (self.listingShowAction candidates index) := by
  refine Ends.ite (fun _ => ends_ok _) fun _ => ?_
  refine (dropFrom_ends candidates index).bind fun rows => ?_
  exact (takeTo_ends _ _).bind fun _ => ends_ok _

/-- The renderer clears the preedit, or draws it; in a selection the page comes with it. Nothing
it calls changes the state. -/
theorem renderCurrentPhase_ends : Ends self.renderCurrentPhase := by
  have hdrawn : Ends (do return [← self.preeditAction]) :=
    self.preeditAction_ends.bind fun _ => ends_pure _
  unfold renderCurrentPhase
  split
  · simp
  · simp
  · exact Ends.ite (fun _ => ends_ok _) fun _ => hdrawn
  · exact Ends.ite (fun _ => ends_ok _) fun _ => hdrawn
  · exact Ends.ite (fun _ => ends_ok _) fun _ => hdrawn
  · rename_i s _
    refine self.preeditAction_ends.bind fun preedit => ?_
    refine (self.listingShowAction_ends s.candidates s.index).bind fun page => ?_
    cases page <;> simp
  · exact hdrawn

end Preedit

variable {δ : Type} [DictionaryProvider δ] (self : SkkEngine δ)

/-! ### Conversions and selections -/

/-- A conversion gathers its candidates in one pass, and then draws. Nothing here calls the
engine again: the recursive lookup of a `#4` marker goes one level deep. -/
@[simp] theorem startConversion_ends (midashi : Str) (okuri : Option (Str × Str)) :
    Ends (self.startConversion midashi okuri) := by
  unfold startConversion
  refine (gatherCandidates_runs _ midashi _).ends.bind fun g => ?_
  refine Ends.ite (fun _ => redraw_ends _) fun _ => ?_
  refine (preeditAction_ends _).bind fun preedit => ?_
  refine (listingShowAction_ends _ g.candidates 0).bind fun page => ?_
  cases page <;> simp

/-- A commit looks its candidate up and learns it. -/
theorem commitCandidate_ends (s : Selection) (index : Nat) :
    Ends (self.commitCandidate s index) :=
  (indexList_ends s.candidates index).bind fun _ => ends_ok _

omit [DictionaryProvider δ] in
/-- A registration is opened and drawn. -/
theorem enterRegisterFromSelecting_ends (s : Selection) :
    Ends (self.enterRegisterFromSelecting s) :=
  (preeditAction_ends _).bind fun _ => ends_pure _

/-- A purge looks its candidate up. -/
theorem executePurge_ends : Ends self.executePurge := by
  unfold executePurge
  split
  · exact (indexList_ends _ _).bind fun _ => ends_ok _
  · simp

omit [DictionaryProvider δ] in
/-- The selection is drawn again. -/
theorem cancelPurge_ends : Ends self.cancelPurge := by
  unfold cancelPurge
  split
  · refine (self.listingShowAction_ends _ _).bind fun page => ?_
    exact (preeditAction_ends _).bind fun _ => ends_pure _
  · simp

omit [DictionaryProvider δ] in
/-- The answer to the confirmation is drawn. -/
theorem updatePurgeBuf_ends (buf : Str) : Ends (self.updatePurgeBuf buf) := by
  unfold updatePurgeBuf
  split <;> simp

/-! ### Okurigana -/

/-- BackSpace in the okurigana redraws it, or the reading. -/
theorem okuriBackSpace_ends (midashi : Str) (okuriPrefix : Char) (kanaBuf : Str) :
    Ends (self.okuriBackSpace midashi okuriPrefix kanaBuf) :=
  Ends.ite (fun _ => redraw_ends _) fun _ => redraw_ends _

/-- `handle_okuri` is not called again by anything it calls. The table is asked once, and its
answer is a conversion or a redraw. -/
theorem handleOkuri_ends (event : KeyEvent) (midashi : Str) (okuriPrefix : Char)
    (kanaBuf : Str) : Ends (self.handleOkuri event midashi okuriPrefix kanaBuf) := by
  unfold handleOkuri
  refine Ends.ite (fun _ => ends_ok _) fun _ => ?_
  refine Ends.ite (fun _ => self.okuriBackSpace_ends midashi okuriPrefix kanaBuf) fun _ => ?_
  cases event.printableChar with
  | none => simp
  | some ch =>
      dsimp only
      cases self.kanaTable.transition self.kanaState ch.toLower .hiragana with
      | ok output nextState =>
          exact Ends.ite (fun _ => startConversion_ends _ _ _) fun _ => redraw_ends _
      | okRetry output retry =>
          exact Ends.ite (fun _ => startConversion_ends _ _ _) fun _ => redraw_ends _
      | noMatch flush retry => exact redraw_ends _

/-! ### The reading -/

/-- BackSpace in a reading redraws it. -/
theorem midashiBackSpace_ends (kanaBuf romanBuf : Str) :
    Ends (self.midashiBackSpace kanaBuf romanBuf) :=
  Ends.ite (fun _ => redraw_ends _) fun _ => Ends.ite (fun _ => redraw_ends _) fun _ => ends_ok _

/-- Tab takes the preview and looks for the next one. -/
theorem midashiTab_ends (kanaBuf romanBuf : Str) : Ends (self.midashiTab kanaBuf romanBuf) := by
  refine Ends.ite (fun _ => ?_) fun _ => redraw_ends _
  cases self.completion <;> simp

/-- A trigger starts a conversion. -/
theorem convertOnTrigger_ends (kanaBuf trigger : Str) :
    Ends (self.convertOnTrigger kanaBuf trigger) :=
  Ends.ite (fun _ => ends_ok _) fun _ => startConversion_ends _ _ _

/-- The first letter of an okurigana is given to `handle_okuri` once. -/
theorem midashiOkuri_ends (event : KeyEvent) (ch : Char) (kanaBuf : Str) :
    Ends (self.midashiOkuri event ch kanaBuf) := by
  unfold midashiOkuri
  dsimp only
  split
  · exact redraw_ends _
  · exact handleOkuri_ends _ event _ _ []

/-- A kana that the table writes is added to the reading, or ends it. In the second case the
trigger is cut off and a conversion takes place. -/
theorem midashiFeed_ends (kanaBuf output nextState : Str) :
    Ends (self.midashiFeed kanaBuf output nextState) := by
  unfold midashiFeed
  refine Ends.ite (fun _ => redraw_ends _) fun _ => ?_
  refine Ends.ite (fun _ => ?_) fun _ => redraw_ends _
  split
  · exact (truncate_ends _ _).bind fun _ => convertOnTrigger_ends _ _ _
  · exact redraw_ends _

/-- A call of `handle_midashi` does without another one, or there is romaji pending and the
character is typed once more, with none. -/
theorem handleMidashi_cases (event : KeyEvent) (kanaBuf romanBuf : Str) :
    (∃ x, Ends x ∧ ∀ n, handleMidashi (n + 1) self event kanaBuf romanBuf = x) ∨
    (self.kanaState ≠ [] ∧ ∃ (retry : Char) (reading : Str), ∀ n,
      handleMidashi (n + 1) self event kanaBuf romanBuf =
        handleMidashi n { self with kanaState := [], phase := .midashi reading [] }
          (.press (.char retry) {}) reading []) := by
  by_cases hescape : event.key = .escape
  · exact .inl ⟨_, ends_ok _, fun n => by rw [handleMidashi, if_pos hescape]⟩
  by_cases hback : event.key = .backSpace
  · exact .inl ⟨_, self.midashiBackSpace_ends kanaBuf romanBuf, fun n => by
      rw [handleMidashi, if_neg hescape, if_pos hback]⟩
  by_cases hreturn : event.key = .returnKey
  · exact .inl ⟨self.midashiReturn kanaBuf romanBuf, ends_ok _, fun n => by
      rw [handleMidashi, if_neg hescape, if_neg hback, if_pos hreturn]⟩
  by_cases hspace : event.key = .space
  · refine .inl ⟨self.midashiSpace kanaBuf romanBuf, ?_, fun n => by
      rw [handleMidashi, if_neg hescape, if_neg hback, if_neg hreturn, if_pos hspace]⟩
    exact Ends.ite (fun _ => ends_ok _) fun _ => startConversion_ends _ _ _
  by_cases htab : event.key = .tab
  · exact .inl ⟨_, self.midashiTab_ends kanaBuf romanBuf, fun n => by
      rw [handleMidashi, if_neg hescape, if_neg hback, if_neg hreturn, if_neg hspace,
        if_pos htab]⟩
  by_cases hhalf : event.key = .char 'q' ∧ event.modifiers.ctrl
  · exact .inl ⟨self.midashiHalfwidth kanaBuf, ends_ok _, fun n => by
      rw [handleMidashi, if_neg hescape, if_neg hback, if_neg hreturn, if_neg hspace,
        if_neg htab, if_pos hhalf]⟩
  -- What is left are the characters.
  have hkeys : ∀ n, handleMidashi (n + 1) self event kanaBuf romanBuf = _ := fun n => by
    rw [handleMidashi, if_neg hescape, if_neg hback, if_neg hreturn, if_neg hspace,
      if_neg htab, if_neg hhalf]
  cases hch : event.printableChar with
  | none => exact .inl ⟨_, ends_ok _, fun n => by rw [hkeys n, hch]⟩
  | some ch =>
      simp only [hch] at hkeys
      by_cases htrigger : isAscii ch ∧ self.kanaState.isEmpty ∧
          ch ∈ self.keybindings.conversionTriggerChars
      · exact .inl ⟨_, self.convertOnTrigger_ends _ _, fun n => by
          rw [hkeys n, if_pos htrigger]⟩
      by_cases haffix : isAffixChar ch
      · refine .inl ⟨self.midashiAffix kanaBuf romanBuf, ?_, fun n => by
          rw [hkeys n, if_neg htrigger, if_pos haffix]⟩
        exact Ends.ite (fun _ => redraw_ends _) fun _ => startConversion_ends _ _ _
      by_cases hdigit : ch.isDigit ∧ !event.modifiers.ctrl
      · exact .inl ⟨_, redraw_ends _, fun n => by
          rw [hkeys n, if_neg htrigger, if_neg haffix, if_pos hdigit]⟩
      by_cases hupper : ch.isUpper ∧ !kanaBuf.isEmpty
      · exact .inl ⟨_, self.midashiOkuri_ends event ch kanaBuf, fun n => by
          rw [hkeys n, if_neg htrigger, if_neg haffix, if_neg hdigit, if_pos hupper]⟩
      have hfed : ∀ n, handleMidashi (n + 1) self event kanaBuf romanBuf = _ := fun n => by
        rw [hkeys n, if_neg htrigger, if_neg haffix, if_neg hdigit, if_neg hupper]
      -- A retry comes from a state that is not the start state.
      cases htable : self.kanaTable.transition self.kanaState ch.toLower .hiragana with
      | ok output nextState =>
          simp only [htable] at hfed
          exact .inl ⟨_, self.midashiFeed_ends kanaBuf output nextState, hfed⟩
      | okRetry output retry =>
          simp only [htable] at hfed
          exact .inr ⟨KanaTable.transition_okRetry_ne_nil htable, retry, kanaBuf ++ output, hfed⟩
      | noMatch flush retry =>
          simp only [htable] at hfed
          cases retry with
          | some retry =>
              exact .inr ⟨KanaTable.transition_noMatch_ne_nil htable, retry, kanaBuf, hfed⟩
          | none =>
              refine .inl ⟨_, ?_, hfed⟩
              exact Ends.ite (fun _ => ends_ok _) fun _ => redraw_ends _

/-- With nothing pending one call is enough. -/
theorem handleMidashi_start (hstart : self.kanaState = []) (event : KeyEvent)
    (kanaBuf romanBuf : Str) :
    ∃ x, Ends x ∧ ∀ n, handleMidashi (n + 1) self event kanaBuf romanBuf = x := by
  rcases self.handleMidashi_cases event kanaBuf romanBuf with hdone | ⟨hpending, -⟩
  · exact hdone
  · exact absurd hstart hpending

/-- Two calls are always enough, and more make no difference. The first call may feed the
pending romaji and hand the character on with an empty buffer, and with an empty buffer
`handle_midashi` does not call itself. -/
theorem handleMidashi_settles (event : KeyEvent) (kanaBuf romanBuf : Str) :
    ∃ x, Ends x ∧ ∀ n, handleMidashi (n + 2) self event kanaBuf romanBuf = x := by
  rcases self.handleMidashi_cases event kanaBuf romanBuf with
    ⟨x, hends, hdone⟩ | ⟨-, retry, reading, hagain⟩
  · exact ⟨x, hends, fun n => hdone (n + 1)⟩
  · obtain ⟨x, hends, hdone⟩ := handleMidashi_start
      { self with kanaState := [], phase := .midashi reading [] } rfl
      (.press (.char retry) {}) reading []
    exact ⟨x, hends, fun n => by rw [hagain (n + 1), hdone n]⟩

/-! ### The kana modes -/

omit [DictionaryProvider δ] in
/-- A call of `feed_kana` does without another one, or there is romaji pending and the character
is fed once more, with none. So the depth of the recursion is two, for any table. -/
theorem feedKana_cases (c : Char) (mode : KanaMode) :
    (∃ x, Ends x ∧ ∀ n, feedKana (n + 1) self c mode = x) ∨
    (self.kanaState ≠ [] ∧ ∃ (retry : Char) (before : List EngineAction), ∀ n,
      feedKana (n + 1) self c mode = (do
        let r ← feedKana n { self with kanaState := [] } retry mode
        .ok (r.1, before ++ r.2))) := by
  cases htable : self.kanaTable.transition self.kanaState c mode with
  | ok output nextState =>
      refine .inl ⟨feedKana 1 self c mode, ?_, fun n => ?_⟩
      · rw [feedKana, htable]
        refine Ends.ite (fun _ => redraw_ends _) fun _ => ?_
        refine Ends.ite (fun _ => ends_ok _) fun _ => ?_
        exact (preeditAction_ends _).bind fun _ => ends_pure _
      · rw [feedKana, feedKana, htable]
  | okRetry output retry =>
      refine .inr ⟨KanaTable.transition_okRetry_ne_nil htable, retry,
        if output.isEmpty then [] else [.commit output], fun n => ?_⟩
      rw [feedKana, htable]
  | noMatch flush retry =>
      cases retry with
      | some retry =>
          refine .inr ⟨KanaTable.transition_noMatch_ne_nil htable, retry, [], fun n => ?_⟩
          rw [feedKana, htable]
          dsimp only
          cases feedKana n { self with kanaState := [] } retry mode <;> rfl
      | none => exact .inl ⟨_, ends_ok _, fun n => by rw [feedKana, htable]⟩

omit [DictionaryProvider δ] in
/-- With nothing pending one call is enough. -/
theorem feedKana_start (hstart : self.kanaState = []) (c : Char) (mode : KanaMode) :
    ∃ x, Ends x ∧ ∀ n, feedKana (n + 1) self c mode = x := by
  rcases self.feedKana_cases c mode with hdone | ⟨hpending, -⟩
  · exact hdone
  · exact absurd hstart hpending

omit [DictionaryProvider δ] in
/-- Two calls are always enough, and more make no difference. -/
theorem feedKana_settles (c : Char) (mode : KanaMode) :
    ∃ x, Ends x ∧ ∀ n, feedKana (n + 2) self c mode = x := by
  rcases self.feedKana_cases c mode with ⟨x, hends, hdone⟩ | ⟨-, retry, before, hagain⟩
  · exact ⟨x, hends, fun n => hdone (n + 1)⟩
  · obtain ⟨x, hends, hdone⟩ := feedKana_start { self with kanaState := [] } rfl retry mode
    refine ⟨_, hends.bind fun r => ends_ok (r.1, before ++ r.2), fun n => ?_⟩
    rw [hagain (n + 1), hdone n]

omit [DictionaryProvider δ] in
/-- So feeding a character ends with the fuel it is given. -/
theorem feedKana_ends (c : Char) (mode : KanaMode) :
    Ends (self.feedKana redispatchFuel c mode) := by
  obtain ⟨x, hends, hdone⟩ := self.feedKana_settles c mode
  rw [redispatchFuel, hdone 0]
  exact hends

/-- And so does a key in a reading. -/
theorem handleMidashi_ends (event : KeyEvent) (kanaBuf romanBuf : Str) :
    Ends (self.handleMidashi redispatchFuel event kanaBuf romanBuf) := by
  obtain ⟨x, hends, hdone⟩ := self.handleMidashi_settles event kanaBuf romanBuf
  rw [redispatchFuel, hdone 0]
  exact hends

/-- A key of the start state starts something, or goes to the table. Only a capital calls
another handler, `handle_midashi`, which settles. -/
theorem kanaStart_ends (event : KeyEvent) (ch : Char) (mode : KanaMode) :
    Ends (self.kanaStart event ch mode) := by
  unfold kanaStart
  refine Ends.ite (fun _ => ends_ok _) fun _ => ?_
  refine Ends.ite (fun _ => ends_ok _) fun _ => ?_
  refine Ends.ite (fun _ => redraw_ends _) fun _ => ?_
  refine Ends.ite (fun _ => ends_ok _) fun _ => ?_
  refine Ends.ite (fun _ => handleMidashi_ends _ event [] []) fun _ => ?_
  exact Ends.ite (fun _ => redraw_ends _) fun _ => self.feedKana_ends ch mode

/-- The kana modes hand a character to `feed_kana` at most once, and what the table gives back
is read there. All other keys change the mode or are passed on. -/
theorem handleKana_ends (event : KeyEvent) : Ends (self.handleKana event) := by
  unfold handleKana
  refine Ends.ite (fun _ => ends_ok _) fun _ => ?_
  refine Ends.ite (fun _ => ends_ok _) fun _ => ?_
  refine Ends.ite (fun _ => ends_ok _) fun _ => ?_
  refine Ends.ite (fun _ => Ends.ite (fun _ => redraw_ends _) fun _ => ends_ok _) fun _ => ?_
  cases event.printableChar with
  | none => simp
  | some ch =>
      refine Ends.ite (fun _ => ends_ok _) fun _ => ?_
      exact Ends.ite (fun _ => self.kanaStart_ends event ch _) fun _ => self.feedKana_ends ch _

/-! ### The other phases -/

omit [DictionaryProvider δ] in
/-- Full-width input commits or passes on. -/
theorem handleWideAscii_ends (event : KeyEvent) : Ends (self.handleWideAscii event) := by
  unfold handleWideAscii
  refine Ends.ite (fun _ => ends_ok _) fun _ => Ends.ite (fun _ => ends_ok _) fun _ => ?_
  cases event.printableChar.bind toWideAscii <;> simp

/-- An abbreviation is redrawn, looked up or left. No branch asks the kana table. -/
theorem handleAbbrev_ends (event : KeyEvent) (buf : Str) : Ends (self.handleAbbrev event buf) := by
  unfold handleAbbrev
  refine Ends.ite (fun _ => ends_ok _) fun _ => ?_
  refine Ends.ite (fun _ => Ends.ite (fun _ => ends_ok _) fun _ => redraw_ends _) fun _ => ?_
  refine Ends.ite (fun _ => Ends.ite (fun _ => redraw_ends _) fun _ =>
    startConversion_ends _ _ _) fun _ => ?_
  refine Ends.ite (fun _ => ends_ok _) fun _ => Ends.ite (fun _ => ends_ok _) fun _ => ?_
  cases event.printableChar with
  | none => exact redraw_ends _
  | some ch => exact Ends.ite (fun _ => redraw_ends _) fun _ => redraw_ends _

omit [DictionaryProvider δ] in
/-- A code is redrawn, or its character committed. The digits are collected one key at a time,
and only decoding reads them all. -/
theorem handleCodeInput_ends [EucJp] (event : KeyEvent) (codePrefix : CodeInputPrefix)
    (buf : Str) : Ends (self.handleCodeInput event codePrefix buf) := by
  unfold handleCodeInput
  refine Ends.ite (fun _ => ends_ok _) fun _ => Ends.ite (fun _ => ?_) fun _ => ?_
  · exact Ends.ite (fun _ => redraw_ends _) fun _ =>
      Ends.ite (fun _ => redraw_ends _) fun _ => ends_ok _
  refine Ends.ite (fun _ => redraw_ends _) fun _ => Ends.ite (fun _ => ends_ok _) fun _ => ?_
  cases event.printableChar with
  | none => exact redraw_ends _
  | some ch => exact Ends.ite (fun _ => redraw_ends _) fun _ => redraw_ends _

/-- The reading is drawn again. -/
theorem backToMidashi_ends (s : Selection) : Ends (self.backToMidashi s) :=
  (preeditAction_ends _).bind fun _ => ends_pure _

/-- The selection is drawn at another focus, or the reading is. -/
theorem selectPrevious_ends (s : Selection) : Ends (self.selectPrevious s) := by
  refine Ends.ite (fun _ => self.backToMidashi_ends s) fun _ => ?_
  refine (preeditAction_ends _).bind fun preedit => ?_
  refine (listingShowAction_ends _ _ _).bind fun page => ?_
  cases page <;> simp

omit [DictionaryProvider δ] in
/-- The selection is drawn at another focus, or a registration is opened. -/
theorem selectNext_ends (s : Selection) : Ends (self.selectNext s) := by
  refine Ends.ite (fun _ => self.enterRegisterFromSelecting_ends s) fun _ => ?_
  refine (preeditAction_ends _).bind fun preedit => ?_
  refine (listingShowAction_ends _ _ _).bind fun page => ?_
  cases page <;> simp

/-- A key that no branch takes is handled once more, in the kana mode, and not again as a
selection. -/
theorem handleSelecting_ends (event : KeyEvent) (s : Selection) :
    Ends (self.handleSelecting event s) := by
  have hcommit : ∀ index, Ends (self.commitCandidate s index) := self.commitCandidate_ends s
  unfold handleSelecting
  refine Ends.ite (fun _ => self.backToMidashi_ends s) fun _ => ?_
  refine Ends.ite (fun _ => self.selectPrevious_ends s) fun _ => ?_
  refine Ends.ite (fun _ => (hcommit _).bind fun _ => ends_ok _) fun _ => ?_
  refine Ends.ite (fun _ => (hcommit _).bind fun _ => ends_ok _) fun _ => ?_
  refine Ends.ite (fun _ => hcommit _) fun _ => ?_
  refine Ends.ite (fun _ => self.selectNext_ends s) fun _ => ?_
  cases self.selectedByKey s event with
  | some candIdx => exact hcommit candIdx
  | none =>
      refine Ends.ite (fun _ => (preeditAction_ends _).bind fun _ => ends_pure _) fun _ => ?_
      refine Ends.ite (fun _ => (hcommit _).bind fun _ =>
        (preeditAction_ends _).bind fun _ => ends_pure _) fun _ => ?_
      -- The key goes on to the kana mode, which ends too.
      exact Ends.ite (fun _ => (hcommit _).bind fun r =>
        (r.1.handleKana_ends event).bind fun _ => ends_ok _) fun _ => ends_ok _

/-- The purge confirmation asks once: an answer carries the purge out or takes it back, a letter
edits the answer, and all else is ignored. -/
theorem handlePurgeConfirm_ends (event : KeyEvent) (buf : Str) :
    Ends (self.handlePurgeConfirm event buf) := by
  unfold handlePurgeConfirm
  refine Ends.ite (fun _ => ?_) fun _ => Ends.ite (fun _ => self.updatePurgeBuf_ends _) fun _ => ?_
  · exact Ends.ite (fun _ => self.executePurge_ends) fun _ =>
      Ends.ite (fun _ => self.cancelPurge_ends) fun _ => ends_ok _
  · cases event.printableChar with
    | none => simp
    | some ch => exact Ends.ite (fun _ => self.updatePurgeBuf_ends _) fun _ => ends_ok _

/-! ### The registration -/

omit [DictionaryProvider δ] in
/-- An edit of the top frame ends when the edit of its buffer does. -/
theorem editTop_ends {edit : RegisterFrame → Partial RegisterFrame}
    (hedit : ∀ frame, Ends (edit frame)) : Ends (self.editTop edit) := by
  unfold editTop
  cases self.registerStack with
  | nil => simp
  | cons frame frames => exact (hedit frame).bind fun _ => ends_ok _

/-- A registration is closed and its word delivered, to the application or to the frame below,
whose buffer is edited at its cursor. -/
theorem finalizeRegister_ends : Ends self.finalizeRegister := by
  unfold finalizeRegister
  cases self.registerStack with
  | nil => simp
  | cons frame frames =>
      cases frames with
      | nil => exact ends_ok _
      | cons below frames =>
          exact (editTop_ends _ fun frame => frame.insert_ends _).bind fun _ => redraw_ends _

/-- A registration is dropped, and what it was opened from comes back: the reading, or the
buffer of the frame below. -/
theorem cancelRegister_ends : Ends self.cancelRegister := by
  unfold cancelRegister
  cases self.registerStack with
  | nil => simp
  | cons frame frames =>
      cases frames with
      | nil => exact (preeditAction_ends _).bind fun _ => ends_pure _
      | cons below frames => exact redraw_ends _

omit [DictionaryProvider δ] in
/-- One action is redirected into the buffer. -/
theorem interceptStep_ends (acc : SkkEngine δ × List EngineAction × Bool)
    (action : EngineAction) : Ends (interceptStep acc action) := by
  obtain ⟨engine, result, needPreedit⟩ := acc
  cases action with
  | commit text => exact (editTop_ends _ fun frame => frame.insert_ends _).bind fun _ => ends_ok _
  | deleteBack => exact (editTop_ends _ fun frame => frame.backspace_ends).bind fun _ => ends_ok _
  | _ => exact ends_ok _

omit [DictionaryProvider δ] in
/-- And so are all actions of a handler: the loop is over the list of them. -/
theorem interceptForRegister_ends (rawActions : List EngineAction) :
    Ends (self.interceptForRegister rawActions) := by
  refine (Ends.foldlM interceptStep_ends rawActions _).bind fun acc => ?_
  exact Ends.ite (fun _ => (preeditAction_ends _).bind fun _ => ends_pure _) fun _ => ends_ok _

/-- Return closes a registration or drops it. -/
theorem regReturn_ends : Ends self.regReturn := by
  unfold regReturn
  cases self.registerStack with
  | nil => exact self.cancelRegister_ends
  | cons frame frames =>
      exact Ends.ite (fun _ => self.cancelRegister_ends) fun _ => self.finalizeRegister_ends

omit [DictionaryProvider δ] in
/-- The editing keys of a registration edit the buffer and draw it. Each of them moves over one
character at most. -/
theorem regEditDrawn_ends {key : Key} {early : Partial (SkkEngine δ × List EngineAction)}
    (hearly : self.regEditDrawn key = some early) : Ends early := by
  obtain ⟨edited, hedited, rfl⟩ := Option.map_eq_some_iff.mp hearly
  refine Ends.bind ?_ fun _ => redraw_ends _
  cases key with
  | backSpace => cases hedited; exact self.editTop_ends RegisterFrame.backspace_ends
  | delete => cases hedited; exact self.editTop_ends RegisterFrame.delete_ends
  | left => cases hedited; exact self.editTop_ends RegisterFrame.moveLeft_ends
  | right => cases hedited; exact self.editTop_ends RegisterFrame.moveRight_ends
  | _ => cases hedited

/-- The keys that a registration takes with nothing pending: Return, C-g, and the editing
keys. -/
theorem regReadyKey_ends {event : KeyEvent} {early : Partial (SkkEngine δ × List EngineAction)}
    (hearly : self.regReadyKey event = some early) : Ends early := by
  unfold regReadyKey at hearly
  split at hearly
  · cases hearly
    exact self.regReturn_ends
  split at hearly
  · cases hearly
    exact self.cancelRegister_ends
  · exact self.regEditDrawn_ends hearly

/-- The keys that a registration takes in direct input. Each of them is one operation on the
frame or on the stack, and a redraw. -/
theorem regAsciiKey_ends {event : KeyEvent} {early : Partial (SkkEngine δ × List EngineAction)}
    (hearly : self.regAsciiKey event = some early) : Ends early := by
  unfold regAsciiKey at hearly
  split at hearly
  · cases hearly
    exact self.regReturn_ends
  split at hearly
  · cases hearly
    exact self.cancelRegister_ends
  split at hearly
  · cases hearly
    exact self.regEditDrawn_ends ‹_›
  split at hearly
  · split at hearly
    · cases hearly
    · cases hearly
      exact (editTop_ends _ fun frame => frame.insert_ends _).bind fun _ => redraw_ends _
  · cases hearly

omit [DictionaryProvider δ] in
/-- Return in a composition moves its text into the buffer. -/
theorem regFlush_ends (text : Str) : Ends (self.regFlush text) := by
  unfold regFlush
  refine Ends.ite (fun _ => ?_) fun _ => (ends_ok _).bind fun _ => redraw_ends _
  exact (editTop_ends _ fun frame => frame.insert_ends _).bind fun _ => redraw_ends _

/-- Whatever key a registration takes for itself, handling it ends. The cases are those of the
source, the ready state, `C-g`, a text to flush and direct input. -/
theorem registrationKey_ends {event : KeyEvent}
    {early : Partial (SkkEngine δ × List EngineAction)}
    (hearly : self.registrationKey event = some early) : Ends early := by
  unfold registrationKey at hearly
  split at hearly
  · cases hearly
  split at hearly
  · exact self.regReadyKey_ends hearly
  split at hearly
  · cases hearly
    exact cancelRegister_ends _
  split at hearly
  · split at hearly
    · cases hearly
      exact self.regFlush_ends _
    · cases hearly
  · split at hearly
    · exact self.regAsciiKey_ends hearly
    · cases hearly

/-! ### A key press -/

variable [EucJp]

/-- The handler of every phase ends. There is one case for each phase, and each is the lemma on
its handler. -/
theorem dispatch_ends (event : KeyEvent) : Ends (self.dispatch event) := by
  unfold dispatch
  cases self.phase with
  | ascii => exact Ends.ite (fun _ => ends_ok _) fun _ => ends_ok _
  | hiragana => exact self.handleKana_ends event
  | katakana => exact self.handleKana_ends event
  | halfWidthKatakana => exact self.handleKana_ends event
  | wideAscii => exact self.handleWideAscii_ends event
  | codeInput codePrefix buf => exact self.handleCodeInput_ends event codePrefix buf
  | «abbrev» buf => exact self.handleAbbrev_ends event buf
  | midashi kanaBuf romanBuf => exact self.handleMidashi_ends event kanaBuf romanBuf
  | okuri midashi okuriPrefix kanaBuf =>
      exact self.handleOkuri_ends event midashi okuriPrefix kanaBuf
  | selecting s => exact self.handleSelecting_ends event s
  | purgeConfirm s buf error => exact self.handlePurgeConfirm_ends event buf

/-- A key with raw mode off is taken by a registration, by a toggle or by the handler. -/
theorem handleCooked_ends (event : KeyEvent) : Ends (self.handleCooked event) := by
  unfold handleCooked
  cases hearly : self.registrationKey event with
  | some early => exact self.registrationKey_ends hearly
  | none =>
      refine Ends.ite (fun _ => ends_ok _) fun _ => (self.dispatch_ends event).bind fun r => ?_
      exact Ends.ite (fun _ => r.1.interceptForRegister_ends r.2) fun _ => ends_ok _

/-- A press, with raw mode on or off. -/
theorem handlePress_ends (event : KeyEvent) : Ends (self.handlePress event) := by
  unfold handlePress
  refine Ends.ite (fun _ => ?_) fun _ => ?_
  · exact Ends.ite (fun _ => (renderCurrentPhase_ends _).bind fun _ => ends_pure _)
      fun _ => ends_ok _
  · exact Ends.ite (fun _ => ends_ok _) fun _ => self.handleCooked_ends event

/-- A key press ends in every state of the engine, and a release does nothing. -/
theorem processKey_ends (event : KeyEvent) : Ends (self.processKey event) :=
  Ends.ite (fun _ => ends_ok _) fun _ => (self.handlePress_ends event).bind fun _ => ends_ok _

/-- Feeding a character comes to an end, for every table. The start state hands nothing back,
so one call is enough there, two are enough in any state, and more make no difference.
`handle_okuri` is not called again, and a key press ends in every state of the engine. -/
theorem processKey_terminates :
    (∀ (table : KanaTable) (c : Char) (mode : KanaMode),
      (∀ output retry, table.transition [] c mode ≠ .okRetry output retry) ∧
      ∀ flush retry, table.transition [] c mode ≠ .noMatch flush (some retry)) ∧
    (∀ (self : SkkEngine δ) (c : Char) (mode : KanaMode) (n : Nat),
      Ends (feedKana 1 { self with kanaState := [] } c mode) ∧
      feedKana (n + 1) { self with kanaState := [] } c mode =
        feedKana 1 { self with kanaState := [] } c mode ∧
      Ends (feedKana 2 self c mode) ∧ feedKana (n + 2) self c mode = feedKana 2 self c mode) ∧
    (∀ (self : SkkEngine δ) (event : KeyEvent) (kanaBuf romanBuf : Str) (n : Nat),
      Ends (handleMidashi 1 { self with kanaState := [] } event kanaBuf romanBuf) ∧
      handleMidashi (n + 1) { self with kanaState := [] } event kanaBuf romanBuf =
        handleMidashi 1 { self with kanaState := [] } event kanaBuf romanBuf ∧
      Ends (handleMidashi 2 self event kanaBuf romanBuf) ∧
      handleMidashi (n + 2) self event kanaBuf romanBuf =
        handleMidashi 2 self event kanaBuf romanBuf) ∧
    (∀ (self : SkkEngine δ) (event : KeyEvent) (midashi : Str) (okuriPrefix : Char)
      (kanaBuf : Str), Ends (self.handleOkuri event midashi okuriPrefix kanaBuf)) ∧
    ∀ (self : SkkEngine δ) (event : KeyEvent), Ends (self.processKey event) := by
  refine ⟨fun table c mode => ?_, fun self c mode n => ?_, fun self event kanaBuf romanBuf n => ?_,
    fun self => self.handleOkuri_ends, fun self => self.processKey_ends⟩
  · constructor
    · intro output retry h
      exact KanaTable.transition_okRetry_ne_nil h rfl
    · intro flush retry h
      exact KanaTable.transition_noMatch_ne_nil h rfl
  · -- From the start state the result does not depend on the fuel above one, and in any state not
    -- on that above two.
    obtain ⟨x, hends, hstart⟩ := feedKana_start { self with kanaState := [] } rfl c mode
    obtain ⟨y, hends', hsettles⟩ := self.feedKana_settles c mode
    rw [hstart n, hstart 0, hsettles n, hsettles 0]
    exact ⟨hends, rfl, hends', rfl⟩
  · obtain ⟨x, hends, hstart⟩ :=
      handleMidashi_start { self with kanaState := [] } rfl event kanaBuf romanBuf
    obtain ⟨y, hends', hsettles⟩ := self.handleMidashi_settles event kanaBuf romanBuf
    rw [hstart n, hstart 0, hsettles n, hsettles 0]
    exact ⟨hends, rfl, hends', rfl⟩

end SkkEngine

end Y2Skk
