import Y2Skk.Proofs.Conclude
import Y2Skk.Proofs.Pending

/-!
# `Y2Skk.Proofs.Retype`: a character that the pending romaji does not take

Such a character is handed back by the table. In the kana modes it is fed to the table
again, while a key typed in the start state is first tried as a mode switch and as the
start of a composition.

## The two presses

* `processKey_handedBack`: the press is the kana that was pending, then the character fed
  from the start state.
* `processKey_fresh`: the press with nothing pending is the character typed from the start
  state.
* `asRetyped_iff_of_session`: when typing on equals sending the kana and typing anew.

So the question is when feeding a character is the same as typing it, in one and the same
state.

## Feeding and typing

`conclude_start_iff` answers it. A character that starts nothing goes to the table in
either case. A mode key, a key that starts an abbreviation and most uppercase letters lead
out of the kana mode, which feeding never does (`LeavesKana`, `Fed`). What is left are
uppercase letters whose reading is over at once: a conversion trigger, or a letter whose
kana is one. They come back to the kana mode, and the two agree where they commit the same
text and leave nothing behind (`endsAlike`).

## Inside a registration

The committed texts go into the buffer of the top frame. `emit_conclude` says that the
kana and the character, sent one after the other, come to the same there as both sent
together.
-/

set_option autoImplicit false

namespace Y2Skk

open Outcome Utf8 Transition

/-- The uppercase letters are those of ASCII. -/
theorem isUpper_range {c : Char} (h : c.isUpper) : 65 ≤ c.toNat ∧ c.toNat ≤ 90 := by
  have hcase : decide (c.val ≥ 'A'.val ∧ c.val ≤ 'Z'.val) = true := h
  simpa [UInt32.le_iff_toNat_le] using hcase

/-- And so are the digits. -/
theorem isDigit_range {c : Char} (h : c.isDigit) : 48 ≤ c.toNat ∧ c.toNat ≤ 57 := by
  have hcase : (decide (c.val ≥ '0'.val) && decide (c.val ≤ '9'.val)) = true := h
  simpa [UInt32.le_iff_toNat_le] using hcase

/-- An uppercase letter is ASCII, and neither a digit nor one of `'>'`, `'<'`, `'?'`. The
branches of `handle_midashi` that test for these are so passed. -/
theorem isUpper_plain {c : Char} (h : c.isUpper) :
    isAscii c ∧ isAffixChar c = false ∧ c.isDigit = false ∧ c ≠ 'q' := by
  have hrange := isUpper_range h
  refine ⟨decide_eq_true (by omega), ?_, ?_, by rintro rfl; cases h⟩
  · have hne : c ≠ '>' ∧ c ≠ '<' ∧ c ≠ '?' := by
      refine ⟨?_, ?_, ?_⟩
      all_goals
        rintro rfl
        cases h
    simp [isAffixChar, hne]
  · cases hdigit : c.isDigit with
    | false => rfl
    | true =>
        have := isDigit_range hdigit
        omega

namespace SkkEngine

variable {δ : Type}

section Retype
variable [DictionaryProvider δ]

/-- What the table makes of a character typed in the start state: the text it commits, and the
romaji it leaves pending. A character without a rule is committed as it is. -/
def fed (self : SkkEngine δ) (c : Char) (mode : KanaMode) : Str × Str :=
  match self.kanaTable.transition [] c mode with
  | .ok output nextState => (output, nextState)
  | .okRetry output _ => (output, [])
  | .noMatch _ _ => ([c], [])

/-- The kana the pending romaji settles to when `c` does not continue it. -/
def settled (self : SkkEngine δ) (c : Char) : Str :=
  match self.kanaTable.transition self.kanaState c (kanaModeOf self.phase) with
  | .okRetry output _ => output
  | _ => []

/-- The commit of a text, if there is any. -/
def commits (text : Str) : List EngineAction := if text.isEmpty then [] else [.commit text]

/-- A text sent on its own: the application gets it as one commit, or the top frame of a
registration. -/
def emit (self : SkkEngine δ) (text : Str) : Partial (SkkEngine δ × List EngineAction) :=
  if self.registerStack.isEmpty then .ok (self, commits text)
  else do
    let self ← self.editTop (·.insert text)
    .ok (self, [])

/-- The kana that was pending is sent, and then `c` is pressed with nothing pending. -/
def retype [EucJp] (self : SkkEngine δ) (c : Char) : Partial (SkkEngine δ × List EngineAction) := do
  let (self, emitted) ← { self with kanaState := [] }.emit (self.settled c)
  let (self, actions) ← self.processKey (.press (.char c) {})
  .ok (self, emitted ++ actions)

/-- One of the keys that switch the mode or start an abbreviation. -/
def switches (self : SkkEngine δ) (c : Char) : Bool :=
  decide (c ∈ self.keybindings.asciiMode) || decide (c ∈ self.keybindings.wideAsciiMode) ||
    decide (c ∈ self.keybindings.abbrevMode) || decide (c ∈ self.keybindings.katakanaMode)

/-- In the start state the key does something else than to go to the table. -/
def startsAnew (self : SkkEngine δ) (c : Char) : Bool := self.switches c || c.isUpper || c = '\\'

/-- The trigger text with which a letter typed in the start state ends the reading in front of
it: the letter is a trigger, or its kana is one. -/
def endingText (self : SkkEngine δ) (c : Char) : Option Str :=
  if c ∈ self.keybindings.conversionTriggerChars then some (self.triggerOutput c)
  else
    match self.kanaTable.transition [] c.toLower .hiragana with
    | .ok [last] [] => (self.endsInTrigger [last]).map fun _ => [last]
    | _ => none

/-- The trigger text of an uppercase letter that starts a reading and ends it at once. -/
def closingText (self : SkkEngine δ) (c : Char) : Option Str :=
  if self.switches c ∨ !c.isUpper then none else self.endingText c

/-- The reading that an uppercase letter starts is over at once, and leaves no more behind
than the table does. -/
def endsAlike (self : SkkEngine δ) (c : Char) : Prop :=
  (self.closingText c).map (·, []) = some (self.fed c (kanaModeOf self.phase)) ∧
    self.completion = none ∧ self.midashiDisplayMode = kanaModeOf self.phase ∧
    self.midashiIsAbbrev = false

/-! ### Through the table -/

/-- What the table does with a character of the start state. -/
structure Fed (start : SkkEngine δ) (text pending : Str) (r : SkkEngine δ × List EngineAction) :
    Prop where
  state : r.1 = { start with kanaState := pending }
  committed : committedText r.2 = text
  redraws : RedrawsText r.2
  kept : r.2.filter EngineAction.isKept = []
  settled : text ≠ [] → pending = [] → r.2 = [.commit text, .clearPreedit]

variable {self : SkkEngine δ} {c : Char} {mode : KanaMode}

omit [DictionaryProvider δ] in
/-- In a kana mode any romaji may be pending. -/
theorem Wf.withRomaji (hself : self.Wf) (hkana : self.phase.isKana) (kanaState : Str) :
    SkkEngine.Wf { self with kanaState := kanaState } :=
  ⟨hself.frames, phaseWf_of_isKana hkana kanaState⟩

omit [DictionaryProvider δ] in
/-- A character of the start state is not handed back. The table takes it, or it has no rule and
is committed as it is. One level of fuel is enough for this. -/
theorem feedKana_fed (hself : self.Wf) (hkana : self.phase.isKana) (hpending : self.kanaState = [])
    (fuel : Nat) (c : Char) (mode : KanaMode) :
    Runs (self.feedKana (fuel + 1) c mode)
      (Fed self (self.fed c mode).1 (self.fed c mode).2) := by
  have hredraws : ∀ text preedit,
      RedrawsText [.commit text, .updatePreedit preedit] ∧ RedrawsText [.updatePreedit preedit] ∧
        RedrawsText [.commit text, .clearPreedit] := by
    intro text preedit
    simp [RedrawsText, EngineAction.isRedrawn]
  unfold feedKana fed
  rw [hpending]
  -- From the start state a character is taken or committed as it is, never handed back.
  obtain ⟨output, nextState, hcase⟩ | ⟨flush, hcase⟩ :=
    self.kanaTable.transition_nil_cases c mode
  · rw [hcase]
    obtain ⟨preedit, -, -, haction⟩ := preeditAction_eq (hself.withRomaji hkana nextState)
    dsimp only
    refine Runs.ite (fun hempty => ?_) fun hsome => ?_
    · unfold redraw
      rw [haction, ok_bind]
      have hnil : output = [] := by simpa using hempty
      exact runs_pure.mpr ⟨rfl, by rw [hnil]; rfl, (hredraws [] preedit).2.1, rfl,
        fun h => (h hnil).elim⟩
    refine Runs.ite (fun hdone => ?_) fun hmore => ?_
    · have hnil : nextState = [] := by simpa using hdone
      exact runs_ok.mpr ⟨rfl, by simp [committedText], (hredraws output preedit).2.2, rfl,
        fun _ _ => rfl⟩
    · rw [haction, ok_bind]
      exact runs_pure.mpr ⟨rfl, by simp [committedText], (hredraws output preedit).1, rfl,
        fun _ h => (hmore (by simp [h])).elim⟩
  · rw [hcase]
    exact runs_ok.mpr ⟨rfl, rfl, by simp [RedrawsText, EngineAction.isRedrawn], rfl,
      fun _ _ => rfl⟩

omit [DictionaryProvider δ] in
/-- A character handed back goes to the table again, after the kana. The kana is committed in
front of whatever the retry does, and with no kana nothing is put there. -/
theorem feedKana_retry
    (hretry : KanaTable.retryOf (self.kanaTable.transition self.kanaState c
      (kanaModeOf self.phase)) = some c) (fuel : Nat) :
    self.feedKana (fuel + 1) c (kanaModeOf self.phase) = (do
      let r ← SkkEngine.feedKana fuel { self with kanaState := [] } c (kanaModeOf self.phase)
      .ok (r.1, commits (self.settled c) ++ r.2)) := by
  conv_lhs => unfold feedKana
  unfold settled
  cases hcase : self.kanaTable.transition self.kanaState c (kanaModeOf self.phase) with
  | ok output nextState =>
      rw [hcase] at hretry
      cases hretry
  | okRetry output retry =>
      rw [hcase] at hretry
      cases hretry
      rfl
  | noMatch flush retry =>
      rw [hcase] at hretry
      cases hretry
      dsimp only
      cases SkkEngine.feedKana fuel { self with kanaState := [] } c (kanaModeOf self.phase) with
      | error e => rfl
      | ok r => rfl

/-! ### Through the start of a composition -/

/-- The state after a reading that was over at once: the script it was started in, and no
completion. -/
def closed (self : SkkEngine δ) (mode : KanaMode) : SkkEngine δ :=
  { self with
    midashiDisplayMode := mode
    midashiIsAbbrev := false
    completion := none
    kanaState := []
    phase := mode.toPhase }

/-- Past the mode switches, an uppercase letter starts a reading and is its first letter: the
handler of the reading gets the same event, with both buffers empty. -/
theorem kanaStart_upper (hswitches : self.switches c = false) (hupper : c.isUpper) :
    self.kanaStart (.press (.char c) {}) c mode =
      SkkEngine.handleMidashi redispatchFuel { self with
        midashiDisplayMode := mode, midashiIsAbbrev := false, phase := .midashi [] [] }
        (.press (.char c) {}) [] [] := by
  simp only [switches, Bool.or_eq_false_iff, decide_eq_false_iff_not] at hswitches
  obtain ⟨⟨⟨hascii, hwide⟩, habbrev⟩, hkatakana⟩ := hswitches
  unfold kanaStart
  rw [if_neg hascii, if_neg hwide, if_neg habbrev, if_neg hkatakana, if_pos hupper]

/-- The first letter of a reading, once the keys that do not take letters are ruled out. It may
be a trigger, and else it is fed to the table in its lower-case form. -/
theorem handleMidashi_upper (hpending : self.kanaState = []) (hupper : c.isUpper) (fuel : Nat) :
    self.handleMidashi (fuel + 1) (.press (.char c) {}) [] [] =
      if c ∈ self.keybindings.conversionTriggerChars then
        self.convertOnTrigger [] (self.triggerOutput c)
      else
        match self.kanaTable.transition [] c.toLower .hiragana with
        | .ok output nextState => self.midashiFeed [] output nextState
        | _ => SkkEngine.redraw { self with kanaState := [], phase := .midashi [] [] } := by
  obtain ⟨hascii, haffix, hdigit, hq⟩ := isUpper_plain hupper
  have hprintable : (KeyEvent.press (.char c) {}).printableChar = some c := rfl
  unfold handleMidashi
  rw [hprintable, hpending]
  simp only [KeyEvent.press, reduceCtorEq, false_and, if_false, Bool.false_eq_true, and_false,
    hascii, haffix, hdigit, hq, true_and, List.isEmpty_nil, Bool.not_true, List.nil_append]
  obtain ⟨output, nextState, hcase⟩ | ⟨flush, hcase⟩ :=
    self.kanaTable.transition_nil_cases c.toLower .hiragana
  · rw [hcase]
    rfl
  · rw [hcase]
    rfl

/-- A kana that is a trigger is cut off the reading again, and the conversion takes place on
what was there before it. -/
theorem midashiFeed_trigger {kanaBuf output : Str} {last : Char} (hout : output ≠ [])
    (h : self.endsInTrigger (kanaBuf ++ output) = some last) :
    self.midashiFeed kanaBuf output [] =
      SkkEngine.convertOnTrigger { self with kanaState := [] } (kanaBuf ++ output).dropLast
        [last] := by
  obtain ⟨found, -, -, hends, hfed⟩ | ⟨hnone, -⟩ := self.midashiFeed_cases kanaBuf output []
  · rw [h] at hends
    cases hends
    exact hfed
  · rw [h] at hnone
    cases hnone hout rfl

/-- The reading is over at once with its trigger text. There is no reading to look up yet, so
the text is committed and the engine is back in its kana mode. -/
theorem kanaStart_closing (hpending : self.kanaState = []) {text : Str}
    (h : self.closingText c = some text) :
    self.kanaStart (.press (.char c) {}) c mode =
      .ok (self.closed mode, [.commit text, .clearPreedit]) := by
  unfold closingText at h
  split at h
  · cases h
  rename_i hguard
  obtain ⟨hswitches, hupper⟩ : self.switches c = false ∧ c.isUpper := by simpa using hguard
  unfold endingText at h
  rw [kanaStart_upper hswitches hupper, redispatchFuel,
    handleMidashi_upper (by exact hpending) hupper]
  dsimp only
  split at h
  · -- The letter itself is the trigger.
    rename_i htrigger
    cases h
    rw [if_pos htrigger]
    rfl
  rename_i htrigger
  rw [if_neg htrigger]
  split at h
  · -- Or the kana that the table makes of it ends in one.
    rename_i last hcase
    obtain ⟨found, hends, rfl⟩ := Option.map_eq_some_iff.mp h
    have hlast : last = found := by simpa using endsInTrigger_eq_some hends
    subst hlast
    rw [hcase]
    dsimp only
    rw [midashiFeed_trigger (by simp) (by exact hends)]
    rfl
  · cases h

omit [DictionaryProvider δ] in
/-- The last character of a text is that of what is put at its end. -/
theorem endsInTrigger_append {kanaBuf output : Str} (hout : output ≠ []) :
    self.endsInTrigger (kanaBuf ++ output) = self.endsInTrigger output := by
  unfold endsInTrigger
  rw [List.getLast?_append_of_ne_nil kanaBuf hout]

omit [DictionaryProvider δ] in
/-- A kana that does not end a reading on its own, and ends in a trigger, has more in front of
it. -/
theorem dropLast_ne_nil_of_endingText {output : Str} {last : Char}
    (h : self.endingText c = none)
    (htrans : self.kanaTable.transition [] c.toLower .hiragana = .ok output [])
    (hends : self.endsInTrigger output = some last) : output.dropLast ≠ [] := by
  intro hnil
  obtain ⟨before, rfl⟩ := List.getLast?_eq_some_iff.mp (endsInTrigger_eq_some hends)
  rw [List.dropLast_concat] at hnil
  subst hnil
  unfold endingText at h
  split at h
  · cases h
  rw [htrans] at h
  have hnone : self.endsInTrigger [last] = none := by simpa using h
  rw [List.nil_append, hnone] at hends
  cases hends

/-- The result is in another phase than `self`, or at another depth of registration. -/
def LeavesKana (self : SkkEngine δ) (r : SkkEngine δ × List EngineAction) : Prop :=
  r.1.phase ≠ self.phase ∨ r.1.registerStack.length ≠ self.registerStack.length

omit [DictionaryProvider δ] in
/-- A result outside the kana modes has left them. -/
theorem LeavesKana.of_not_kana (hkana : self.phase.isKana)
    {r : SkkEngine δ × List EngineAction} (h : r.1.phase.isKana = false) : self.LeavesKana r := by
  refine .inl fun hsame => ?_
  rw [hsame, hkana] at h
  cases h

omit [DictionaryProvider δ] in
/-- A redraw in another mode does. -/
theorem redraw_leavesKana (hkana : self.phase.isKana) {mid : SkkEngine δ}
    (hmid : mid.phase.isKana = false) : Yields mid.redraw self.LeavesKana := by
  refine (redraw_yields mid).mono ?_
  rintro _ ⟨preedit, rfl⟩
  exact .of_not_kana hkana hmid

/-- So does a conversion: it opens a selection or a registration. A selection is another phase,
and a registration is one frame more. -/
theorem startConversion_leavesKana (hkana : self.phase.isKana) {mid : SkkEngine δ}
    (hmid : mid.registerStack = self.registerStack) (midashi : Str) :
    Yields (mid.startConversion midashi none) self.LeavesKana := by
  refine (startConversion_yields mid midashi none).mono ?_
  rintro _ (⟨preedit, rfl⟩ | ⟨s, actions, -, -, -, -, rfl⟩)
  · -- Nothing is found, and a frame is opened.
    refine .inr ?_
    simp [pushFrame, hmid]
  · exact .of_not_kana hkana rfl

/-- A mode key, and the key that starts an abbreviation, lead out of the kana mode. -/
theorem kanaStart_switches (hkana : self.phase.isKana) (hswitches : self.switches c) :
    Yields (self.kanaStart (.press (.char c) {}) c (kanaModeOf self.phase)) self.LeavesKana := by
  unfold kanaStart
  refine Yields.ite (fun _ => ?_) fun hascii => ?_
  · exact yields_ok.mpr (.of_not_kana hkana rfl)
  refine Yields.ite (fun _ => ?_) fun hwide => ?_
  · exact yields_ok.mpr (.of_not_kana hkana rfl)
  refine Yields.ite (fun _ => redraw_leavesKana hkana rfl) fun habbrev => ?_
  refine Yields.ite (fun _ => ?_) fun hkatakana => ?_
  · -- The key goes to another kana mode.
    refine yields_ok.mpr (.inl ?_)
    dsimp only
    cases hcase : self.phase with
    | hiragana | katakana | halfWidthKatakana => simp
    | _ =>
        rw [hcase] at hkana
        cases hkana
  · simp [switches, hascii, hwide, habbrev, hkatakana] at hswitches

/-- An uppercase letter starts a reading, as long as it does not end it in the same stroke with
a trigger. -/
theorem kanaStart_reading (hkana : self.phase.isKana) (hpending : self.kanaState = [])
    (hswitches : self.switches c = false) (hupper : c.isUpper)
    (hopen : self.endingText c = none) :
    Yields (self.kanaStart (.press (.char c) {}) c (kanaModeOf self.phase)) self.LeavesKana := by
  have htrigger : c ∉ self.keybindings.conversionTriggerChars := by
    intro htrigger
    rw [endingText, if_pos htrigger] at hopen
    cases hopen
  rw [kanaStart_upper hswitches hupper, redispatchFuel,
    handleMidashi_upper (by exact hpending) hupper, if_neg htrigger]
  dsimp only
  cases hcase : self.kanaTable.transition [] c.toLower .hiragana with
  | okRetry output retry | noMatch flush retry => exact redraw_leavesKana hkana rfl
  | ok output nextState =>
      dsimp only
      obtain ⟨last, hout, rfl, hends, hfed⟩ | ⟨-, completion, hfed⟩ :=
        midashiFeed_cases { self with
          midashiDisplayMode := kanaModeOf self.phase
          midashiIsAbbrev := false
          phase := .midashi [] [] } [] output nextState
      · -- The trigger is not the whole reading, so something is looked up.
        have hbefore : output.dropLast ≠ [] := dropLast_ne_nil_of_endingText hopen hcase hends
        rw [hfed, convertOnTrigger, if_neg (by simpa using hbefore)]
        exact startConversion_leavesKana hkana (by rfl) _
      · rw [hfed]
        exact redraw_leavesKana hkana rfl

/-- Otherwise the key leaves the kana mode, or opens a registration. It is a mode switch, an
uppercase letter or the backslash, and each has its own way out. -/
theorem kanaStart_leaves (hkana : self.phase.isKana) (hpending : self.kanaState = [])
    (hstarts : self.startsAnew c) (hopen : self.closingText c = none) :
    Yields (self.kanaStart (.press (.char c) {}) c (kanaModeOf self.phase)) self.LeavesKana := by
  by_cases hswitches : self.switches c
  · exact kanaStart_switches hkana hswitches
  by_cases hupper : c.isUpper
  · have hending : self.endingText c = none := by
      simpa [closingText, hswitches, hupper] using hopen
    exact kanaStart_reading hkana hpending (by simpa using hswitches) hupper hending
  · have hcode : c = '\\' := by simpa [startsAnew, hswitches, hupper] using hstarts
    simp only [switches, Bool.or_eq_true, decide_eq_true_eq, not_or] at hswitches
    obtain ⟨⟨⟨hascii, hwide⟩, habbrev⟩, hkatakana⟩ := hswitches
    unfold kanaStart
    rw [if_neg hascii, if_neg hwide, if_neg habbrev, if_neg hkatakana, if_neg hupper, if_pos hcode]
    exact redraw_leavesKana hkana rfl

omit [DictionaryProvider δ] in
/-- A trigger text is not empty: it is the output of the table or the character itself. -/
theorem closingText_ne_nil {text : Str} (h : self.closingText c = some text) : text ≠ [] := by
  unfold closingText at h
  split at h
  · cases h
  unfold endingText at h
  split at h
  · cases h
    unfold triggerOutput
    split
    · split
      · rename_i hout
        simpa using hout.1
      · simp
    · simp
  · split at h
    · obtain ⟨found, -, rfl⟩ := Option.map_eq_some_iff.mp h
      simp
    · cases h

/-- Past the keys that start something, the start state feeds the table as well. With nothing
pending one call is enough, since the table has nothing to hand back. -/
theorem kanaStart_fed (hpending : self.kanaState = []) (hstarts : self.startsAnew c = false) :
    self.kanaStart (.press (.char c) {}) c mode = self.feedKana 1 c mode := by
  have hfuel : self.feedKana redispatchFuel c mode = self.feedKana 1 c mode := by
    unfold redispatchFuel feedKana
    rw [hpending]
    obtain ⟨output, nextState, hcase⟩ | ⟨flush, hcase⟩ :=
      self.kanaTable.transition_nil_cases c mode
    · rw [hcase]
    · rw [hcase]
  simp only [startsAnew, switches, Bool.or_eq_false_iff, decide_eq_false_iff_not] at hstarts
  obtain ⟨⟨⟨⟨⟨hascii, hwide⟩, habbrev⟩, hkatakana⟩, hupper⟩, hcode⟩ := hstarts
  unfold kanaStart
  rw [if_neg hascii, if_neg hwide, if_neg habbrev, if_neg hkatakana, if_neg (by simp [hupper]),
    if_neg hcode, hfuel]

/-! ### The two presses compared -/

section Press
variable [EucJp]

omit [EucJp] in
/-- A registration does not take a plain character of a kana mode for itself: it takes Return,
C-g, Escape and the editing keys. -/
theorem registrationKey_kana (hkana : self.phase.isKana) :
    self.registrationKey (.press (.char c) {}) = none := by
  have hctrlG : isCtrlG (.press (.char c) {}) = false := by simp [isCtrlG, KeyEvent.press]
  unfold registrationKey
  split
  · rfl
  split
  · simp [regReadyKey, KeyEvent.press, isCtrlG, regEditDrawn, regEdit]
  rw [if_neg (by simp [hctrlG])]
  cases hcase : self.phase with
  | hiragana | katakana | halfWidthKatakana => rfl
  | _ =>
      rw [hcase] at hkana
      cases hkana

/-- In a kana mode the key starts something when nothing is pending, and is fed to the table
otherwise. -/
theorem dispatch_kana (hkana : self.phase.isKana) :
    self.dispatch (.press (.char c) {}) =
      if self.kanaState.isEmpty
      then self.kanaStart (.press (.char c) {}) c (kanaModeOf self.phase)
      else self.feedKana redispatchFuel c (kanaModeOf self.phase) := by
  unfold dispatch
  cases hcase : self.phase with
  | hiragana | katakana | halfWidthKatakana =>
      simp [handleKana, KeyEvent.press, KeyEvent.printableChar, hcase]
  | _ =>
      rw [hcase] at hkana
      cases hkana

omit [DictionaryProvider δ] [EucJp] in
/-- The commit of a text commits that text, also when there is none. -/
theorem committedText_commits (text : Str) : committedText (commits text) = text := by
  cases text with
  | nil => rfl
  | cons c text => exact List.append_nil _

omit [DictionaryProvider δ] [EucJp] in
/-- A registration keeps no commit. -/
theorem filter_isKept_commits (text : Str) (actions : List EngineAction) :
    (commits text ++ actions).filter EngineAction.isKept = actions.filter EngineAction.isKept := by
  cases text with
  | nil => rfl
  | cons c text => rfl

omit [DictionaryProvider δ] [EucJp] in
/-- A commit in front redraws no less, and an empty text is no commit at all. -/
theorem redrawsText_commits {actions : List EngineAction} (h : RedrawsText actions) (text : Str) :
    RedrawsText (commits text ++ actions) := by
  cases text with
  | nil => exact h
  | cons c text =>
      refine ⟨by simp [h.1], fun hmem => ?_⟩
      rcases List.mem_append.mp hmem with hmem | hmem
      · cases List.mem_singleton.mp hmem
      · exact h.2 hmem

omit [DictionaryProvider δ] [EucJp] in
/-- The kana that was pending is sent first, and then the character is fed. Outside a
registration both go to the application; inside one the first is inserted at the cursor, and the
second behind it. -/
theorem emit_conclude {fed : SkkEngine δ × List EngineAction} {text pending : Str}
    (hself : self.Wf) (hkana : self.phase.isKana) (out : Str) (hfed : Fed self text pending fed) :
    ∃ stack emitted, self.emit out = .ok ({ self with registerStack := stack }, emitted) ∧
      stack.length = self.registerStack.length ∧
      SkkEngine.Wf { self with registerStack := stack } ∧
      ∀ fed', Fed { self with registerStack := stack } text pending fed' →
        (self.registerStack = [] → fed' = fed) →
        conclude (fed.1, commits out ++ fed.2) = (do
          let r ← conclude fed'
          .ok (r.1, emitted ++ r.2)) := by
  have hnil : committedText (commits out ++ fed.2) = out ++ text := by
    rw [committedText_append, committedText_commits, hfed.committed]
  cases hstack : self.registerStack with
  | nil =>
      refine ⟨[], commits out, ?_, rfl, ⟨fun _ h => (by cases h), hself.phase⟩, ?_⟩
      · rw [emit, if_pos (by simp [hstack]), ← hstack]
      · intro fed' _ hsame
        obtain rfl := hsame rfl
        have hfedStack : fed'.1.registerStack = [] := by rw [hfed.state]; exact hstack
        rw [conclude_nil hfedStack, conclude_nil (by exact hfedStack)]
        rfl
  | cons frame frames =>
      have hframe : frame.Wf := hself.frames frame (by simp [hstack])
      -- Inserting the two texts one after the other is inserting them together.
      obtain ⟨frame', hinsert, hframe'⟩ := insert_ok hself hstack out
      have hmid := hself.withTop hstack hframe'
      refine ⟨frame' :: frames, [], ?_, by simp, hmid, ?_⟩
      · rw [emit, if_neg (by simp [hstack]), editTop_cons hstack, hinsert]
        rfl
      · intro fed' hfed' _
        obtain ⟨frame'', hinsert', -⟩ := insert_ok hmid rfl text
        have hboth : frame.insert (out ++ text) = .ok frame'' := by
          rw [RegisterFrame.insert_append hframe hinsert, hinsert']
        have hwf := hself.withRomaji hkana pending
        have hwf' := hmid.withRomaji hkana pending
        have hstate : fed.1.registerStack = frame :: frames := by rw [hfed.state]; exact hstack
        have hstate' : fed'.1.registerStack = frame' :: frames := by rw [hfed'.state]
        rw [conclude_cons (by simp [hstate]), conclude_cons (by simp [hstate']),
          interceptForRegister_eq (by rw [hfed.state]; exact hwf) hstate
            (redrawsText_commits hfed.redraws out) (by rw [hnil]; exact hboth),
          interceptForRegister_eq (by rw [hfed'.state]; exact hwf') hstate' hfed'.redraws
            (by rw [hfed'.committed]; exact hinsert')]
        rw [filter_isKept_commits, hfed.kept, hfed'.kept, hfed.state, hfed'.state]
        cases SkkEngine.preeditAction { self with
            kanaState := pending, registerStack := frame'' :: frames } with
        | error e => rfl
        | ok preedit => rfl

/-- A character handed back: the kana is sent, and the character is fed from the start
state. -/
theorem processKey_handedBack (hself : self.Wf) (hkana : self.phase.isKana)
    (hcooks : self.cooks (.press (.char c) {}))
    (htoggle : self.isToggle (.press (.char c) {}) = false)
    (hretry : KanaTable.retryOf (self.kanaTable.transition self.kanaState c
      (kanaModeOf self.phase)) = some c) :
    ∃ stack emitted,
      SkkEngine.emit { self with kanaState := [] } (self.settled c) =
        .ok ({ self with kanaState := [], registerStack := stack }, emitted) ∧
      stack.length = self.registerStack.length ∧
      SkkEngine.Wf { self with kanaState := [], registerStack := stack } ∧
      self.processKey (.press (.char c) {}) = (do
        let r ← SkkEngine.feedKana 1 { self with kanaState := [], registerStack := stack } c
          (kanaModeOf self.phase)
        let r ← conclude r
        .ok (r.1, emitted ++ (withStatus self.currentModeIndicator r).2)) := by
  have hstart := hself.withRomaji hkana []
  obtain ⟨fed, hfeed, hfed⟩ := feedKana_fed hstart hkana rfl 0 c (kanaModeOf self.phase)
  obtain ⟨stack, emitted, hemit, hlength, hmid, hconclude⟩ :=
    emit_conclude hstart hkana (self.settled c) hfed
  refine ⟨stack, emitted, hemit, hlength, hmid, ?_⟩
  obtain ⟨fed', hfeed', hfed'⟩ := feedKana_fed hmid hkana rfl 0 c (kanaModeOf self.phase)
  -- Outside a registration the two states fed are the same.
  have hsame : self.registerStack = [] → fed' = fed := by
    intro hnil
    have hstack : stack = self.registerStack := by
      rw [hnil] at hlength ⊢
      exact List.length_eq_zero_iff.mp hlength
    rw [hstack] at hfeed'
    exact Except.ok.inj (hfeed'.symm.trans hfeed)
  have hempty : ¬ self.kanaState.isEmpty := by simpa using KanaTable.ne_nil_of_retry hretry
  rw [processKey_eq hcooks, handleCooked_eq (registrationKey_kana hkana) htoggle,
    dispatch_kana hkana, if_neg hempty, redispatchFuel, feedKana_retry hretry, hfeed, hfeed']
  simp only [ok_bind]
  rw [hconclude fed' hfed' hsame]
  cases conclude fed' with
  | error e => rfl
  | ok r =>
      simp only [ok_bind]
      rw [withStatus_append]

/-- A character typed with nothing pending: the start state handles it, and the registration
takes what that commits. -/
theorem processKey_fresh (hkana : self.phase.isKana) (hcooks : self.cooks (.press (.char c) {}))
    (htoggle : self.isToggle (.press (.char c) {}) = false) (hpending : self.kanaState = []) :
    self.processKey (.press (.char c) {}) = (do
      let r ← self.kanaStart (.press (.char c) {}) c (kanaModeOf self.phase)
      let r ← conclude r
      .ok (withStatus self.currentModeIndicator r)) := by
  rw [processKey_eq hcooks, handleCooked_eq (registrationKey_kana hkana) htoggle,
    dispatch_kana hkana, if_pos (by simp [hpending])]
  cases self.kanaStart (.press (.char c) {}) c (kanaModeOf self.phase) with
  | error e => rfl
  | ok r => rfl

omit [DictionaryProvider δ] [EucJp] in
/-- A kana mode is the phase of its script. -/
theorem toPhase_kanaModeOf {phase : SkkPhase} (h : phase.isKana) :
    (kanaModeOf phase).toPhase = phase := by
  cases phase <;> first | rfl | cases h

omit [DictionaryProvider δ] [EucJp] in
/-- Where the two leave the same behind, they have sent the same text. Outside a registration
the actions are the same. Inside one the frame is the same, and inserting at a cursor is
injective in the text. -/
theorem committed_eq_of_conclude {r r' : SkkEngine δ × List EngineAction} (hwf : r.1.Wf)
    (hwf' : r'.1.Wf) (hstack : r.1.registerStack = r'.1.registerStack)
    (hredraws : RedrawsText r.2) (hredraws' : RedrawsText r'.2)
    (h : conclude r = conclude r') : committedText r.2 = committedText r'.2 := by
  cases hframes : r.1.registerStack with
  | nil =>
      rw [conclude_nil hframes, conclude_nil (hstack ▸ hframes)] at h
      rw [Except.ok.inj h]
  | cons frame frames =>
      have hframes' : r'.1.registerStack = frame :: frames := hstack ▸ hframes
      have hframe : frame.Wf := hwf.frames frame (by simp [hframes])
      obtain ⟨after, hinsert, hafter⟩ := insert_ok hwf hframes (committedText r.2)
      obtain ⟨after', hinsert', hafter'⟩ := insert_ok hwf' hframes' (committedText r'.2)
      obtain ⟨preedit, -, -, haction⟩ := preeditAction_eq (hwf.withTop hframes hafter)
      obtain ⟨preedit', -, -, haction'⟩ := preeditAction_eq (hwf'.withTop hframes' hafter')
      rw [conclude_cons (by simp [hframes]), conclude_cons (by simp [hframes']),
        interceptForRegister_eq hwf hframes hredraws hinsert,
        interceptForRegister_eq hwf' hframes' hredraws' hinsert', haction, haction'] at h
      have hstate := congrArg (fun r => SkkEngine.registerStack r.1) (Except.ok.inj h)
      have htop : after = after' := (List.cons.inj hstate).1
      rw [← htop] at hinsert'
      exact RegisterFrame.insert_injective hframe hinsert hinsert'

omit [DictionaryProvider δ] [EucJp] in
/-- What goes back to the start state and what leaves it are told apart, by the phase or by the
number of frames. -/
theorem Fed.conclude_ne {fed key : SkkEngine δ × List EngineAction} {text pending : Str}
    (hfed : Fed self text pending fed) (hwf : fed.1.Wf) (hkey : self.LeavesKana key) :
    conclude fed ≠ conclude key := by
  intro h
  obtain ⟨r, hr, -⟩ := conclude_runs hwf
  obtain ⟨stack, htargets, hstate⟩ := conclude_yields fed r hr
  obtain ⟨stack', htargets', hstate'⟩ := conclude_yields key r (h ▸ hr)
  have hlength : stack.length = self.registerStack.length := by
    rw [← htargets.length_eq, hfed.state]
  rw [hstate, hfed.state] at hstate'
  rcases hkey with hphase | hframes
  · exact hphase (congrArg SkkEngine.phase hstate').symm
  · have hstack : stack = stack' := congrArg SkkEngine.registerStack hstate'
    rw [htargets'.length_eq, ← hstack] at hframes
    exact hframes hlength

omit [DictionaryProvider δ] [EucJp] in
/-- A reading that was over at once and a character fed to the table leave the same behind just
when the text is the same, nothing is pending, and there is no trace of the reading. -/
theorem Fed.conclude_closed_iff {fed : SkkEngine δ × List EngineAction} {text pending ending : Str}
    (hself : self.Wf) (hkana : self.phase.isKana) (hfed : Fed self text pending fed)
    (hending : ending ≠ []) :
    conclude fed =
        conclude (self.closed (kanaModeOf self.phase), [.commit ending, .clearPreedit]) ↔
      (ending, []) = (text, pending) ∧ self.completion = none ∧
        self.midashiDisplayMode = kanaModeOf self.phase ∧ self.midashiIsAbbrev = false := by
  have hwf : fed.1.Wf := by
    rw [hfed.state]
    exact hself.withRomaji hkana _
  constructor
  · intro h
    obtain ⟨r, hr, -⟩ := conclude_runs hwf
    obtain ⟨stack, -, hstate⟩ := conclude_yields fed r hr
    obtain ⟨stack', -, hstate'⟩ := conclude_yields _ r (h ▸ hr)
    rw [hstate, hfed.state] at hstate'
    have hpending : pending = [] := congrArg SkkEngine.kanaState hstate'
    have hclosed : SkkEngine.Wf (self.closed (kanaModeOf self.phase)) :=
      ⟨hself.frames, phaseWf_of_isPlain (KanaMode.isPlain_toPhase _)⟩
    have htext : text = ending := by
      calc text = committedText fed.2 := hfed.committed.symm
        _ = committedText [.commit ending, .clearPreedit] :=
            committed_eq_of_conclude hwf (by exact hclosed) (by rw [hfed.state]; rfl)
              hfed.redraws (by simp [RedrawsText, EngineAction.isRedrawn]) h
        _ = ending := List.append_nil _
    -- The rest of the state is compared field by field.
    exact ⟨by rw [htext, hpending], congrArg SkkEngine.completion hstate',
      congrArg SkkEngine.midashiDisplayMode hstate', congrArg SkkEngine.midashiIsAbbrev hstate'⟩
  · rintro ⟨hpair, hcompletion, hmode, hisAbbrev⟩
    obtain ⟨rfl, rfl⟩ := Prod.mk.inj hpair
    have hactions := hfed.settled hending rfl
    have hstate : fed.1 = self.closed (kanaModeOf self.phase) := by
      rw [hfed.state, closed, toPhase_kanaModeOf hkana, ← hmode, ← hisAbbrev, ← hcompletion]
    rw [← hstate, ← hactions]

omit [EucJp] in
/-- The key does the same as the table exactly when it starts nothing, or starts what is over
at once and leaves nothing else behind. -/
theorem conclude_start_iff (hself : self.Wf) (hkana : self.phase.isKana)
    (hpending : self.kanaState = []) :
    ((do
      let r ← self.feedKana 1 c (kanaModeOf self.phase)
      conclude r) = do
      let r ← self.kanaStart (.press (.char c) {}) c (kanaModeOf self.phase)
      conclude r) ↔ self.startsAnew c = false ∨ self.endsAlike c := by
  obtain ⟨fed, hfeed, hfed⟩ := feedKana_fed hself hkana hpending 0 c (kanaModeOf self.phase)
  -- the key starts something of its own, which may be over at once with a trigger text
  by_cases hstarts : self.startsAnew c
  · rw [hfeed, ok_bind]
    simp only [hstarts, Bool.true_eq_false, false_or, endsAlike]
    cases hclosing : self.closingText c with
    -- nothing closes what was started, so the phases differ
    | none =>
        have hwf : fed.1.Wf := by
          rw [hfed.state]
          exact hself.withRomaji hkana _
        simp only [Option.map_none, reduceCtorEq, false_and, iff_false]
        intro h
        have hleaves := kanaStart_leaves hkana hpending hstarts hclosing
        cases hkey : self.kanaStart (.press (.char c) {}) c (kanaModeOf self.phase) with
        | error e =>
            obtain ⟨r, hr, -⟩ := conclude_runs hwf
            rw [hkey, hr] at h
            cases h
        | ok key =>
            rw [hkey] at h
            exact hfed.conclude_ne hwf (hleaves key hkey) h
    | some ending =>
        rw [kanaStart_closing hpending hclosing, ok_bind,
          hfed.conclude_closed_iff hself hkana (closingText_ne_nil hclosing), Option.map_some,
          Option.some.injEq]
  · have hnot : self.startsAnew c = false := by simpa using hstarts
    rw [kanaStart_fed hpending hnot]
    simp only [hnot, true_or]

/-! ### In every run -/

/-- The press is a key the kana mode sees, and it starts nothing that the table does not do as
well. A toggle key comes before the pending kana, so there is none. -/
def AsRetyped (self : SkkEngine δ) (c : Char) : Prop :=
  self.cooks (.press (.char c) {}) ∧
    if self.isToggle (.press (.char c) {}) then self.settled c = []
    else self.startsAnew c = false ∨ self.endsAlike c

/-- A toggle key leaves the pending kana out. It switches the mode in either order, so the two
differ in the actions that commit the kana, unless there is none. -/
theorem toggled_iff (hkana : self.phase.isKana) (hcooks : self.cooks (.press (.char c) {}))
    (htoggle : self.isToggle (.press (.char c) {})) :
    self.processKey (.press (.char c) {}) = self.retype c ↔ self.settled c = [] := by
  have hstack : self.registerStack = [] := by
    simp only [isToggle, Bool.and_eq_true, List.isEmpty_iff] at htoggle
    exact htoggle.1
  have hascii : self.phase ≠ .ascii := by
    intro h
    rw [h] at hkana
    cases hkana
  have hsame : SkkEngine.toggle { self with kanaState := [] } = self.toggle := by
    unfold toggle
    rw [if_neg hascii, if_neg hascii]
  -- Both orders end in the same toggle, with the same status behind it.
  have hold : self.processKey (.press (.char c) {})
      = .ok (withStatus self.currentModeIndicator self.toggle) := by
    rw [processKey_eq hcooks, handleCooked_toggle hstack htoggle, ok_bind]
  have hnew : SkkEngine.processKey { self with kanaState := [] } (.press (.char c) {})
      = .ok (withStatus self.currentModeIndicator self.toggle) := by
    rw [processKey_eq (by exact hcooks), handleCooked_toggle (by exact hstack) (by exact htoggle),
      ok_bind, hsame]
    rfl
  have hemit : SkkEngine.emit { self with kanaState := [] } (self.settled c)
      = .ok ({ self with kanaState := [] }, commits (self.settled c)) := by
    rw [emit, if_pos (by simp [hstack])]
  unfold retype
  rw [hold, hemit, ok_bind]
  dsimp only
  rw [hnew, ok_bind]
  constructor
  · intro h
    -- The commit in front makes the list longer, unless there is nothing to commit.
    have hactions := congrArg (fun r => List.length r.2) (Except.ok.inj h)
    cases hsettled : self.settled c with
    | nil => rfl
    | cons x rest =>
        rw [hsettled] at hactions
        simp [commits] at hactions
  · intro hsettled
    rw [hsettled]
    rfl

omit [DictionaryProvider δ] [EucJp] in
/-- Sending a text changes the buffers at most, and no other field of the engine. -/
theorem emit_yields (self : SkkEngine δ) (text : Str) :
    Yields (self.emit text) fun r => ∃ stack, r.1 = { self with registerStack := stack } := by
  unfold emit
  refine Yields.ite (fun _ => yields_ok.mpr ⟨self.registerStack, rfl⟩) fun _ => ?_
  cases hstack : self.registerStack with
  | nil =>
      rw [editTop, hstack]
      exact yields_ok.mpr ⟨[], by rw [← hstack]⟩
  | cons frame frames =>
      rw [editTop_cons hstack]
      cases frame.insert text with
      | error e => exact yields_error
      | ok frame' => exact yields_ok.mpr ⟨frame' :: frames, rfl⟩

/-- In raw mode the romaji is gone once the kana was sent, since the key itself does nothing. -/
theorem retype_frozen (hfrozen : self.cooks (.press (.char c) {}) = false) :
    Yields (self.retype c) fun r => r.1.kanaState = [] := by
  unfold retype
  refine (emit_yields _ _).bind fun sent hsent => ?_
  obtain ⟨stack, hmid⟩ := hsent
  have hfrozen' : sent.1.cooks (.press (.char c) {}) = false := by
    rw [hmid]
    exact hfrozen
  refine (processKey_frozen hfrozen').bind ?_
  rintro pressed ⟨rawMode, hstate⟩
  rw [yields_ok, hstate, hmid]

/-- Typing on equals sending the kana and typing anew, when the key is no toggle key. -/
theorem handedBack_iff (hself : self.Wf) (hkana : self.phase.isKana)
    (hcooks : self.cooks (.press (.char c) {}))
    (htoggle : self.isToggle (.press (.char c) {}) = false)
    (hretry : KanaTable.retryOf (self.kanaTable.transition self.kanaState c
      (kanaModeOf self.phase)) = some c) :
    self.processKey (.press (.char c) {}) = self.retype c ↔
      self.startsAnew c = false ∨ self.endsAlike c := by
  obtain ⟨stack, emitted, hemit, hlength, hmid, hold⟩ :=
    processKey_handedBack hself hkana hcooks htoggle hretry
  -- The kana goes into the top frame, so there are as many frames as before.
  have htoggle' : SkkEngine.isToggle { self with kanaState := [], registerStack := stack }
      (.press (.char c) {}) = false := by
    unfold isToggle at htoggle ⊢
    cases stack with
    | nil =>
        rw [List.length_eq_zero_iff.mp hlength.symm] at htoggle
        exact htoggle
    | cons frame frames => rfl
  have hnew := processKey_fresh (by exact hkana) (by exact hcooks) htoggle' rfl
  have hiff := conclude_start_iff (c := c) hmid hkana rfl
  unfold retype
  rw [hold, hemit, ok_bind]
  dsimp only
  rw [hnew]
  refine Iff.trans ?_ hiff
  refine Iff.trans ?_ (sent_injective self.currentModeIndicator emitted)
  simp only [bind_assoc, ok_bind]
  rfl

/-- In every run: in a kana mode, a character that the pending romaji does not take acts as it
does after the kana, exactly in these cases. -/
theorem asRetyped_iff_of_session {kanaTable : KanaTable} {keybindings : SkkKeybindings}
    {lispDirectives : Bool} {initialPhase : SkkPhase} {providers : List δ} {history : History δ}
    (hrun : Session (fresh kanaTable keybindings lispDirectives initialPhase providers)
      history self)
    (hkana : self.phase.isKana)
    (hretry : KanaTable.retryOf (self.kanaTable.transition self.kanaState c
      (kanaModeOf self.phase)) = some c) :
    self.processKey (.press (.char c) {}) = self.retype c ↔ self.AsRetyped c := by
  have hself : self.Wf := Session.wf (fresh_wf ..) hrun
  unfold AsRetyped
  by_cases hcooks : self.cooks (.press (.char c) {})
  · by_cases htoggle : self.isToggle (.press (.char c) {})
    · rw [toggled_iff hkana hcooks htoggle]
      simp [hcooks, htoggle]
    · rw [handedBack_iff hself hkana hcooks (by simpa using htoggle) hretry]
      simp [hcooks, htoggle]
  · -- In raw mode the romaji stays pending.
    refine iff_of_false (fun h => ?_) fun h => hcooks h.1
    have hfrozen : self.cooks (.press (.char c) {}) = false := by simpa using hcooks
    obtain ⟨r, hr, -⟩ := processKey_wf hself (.press (.char c) {})
    obtain ⟨rawMode, hold⟩ := processKey_frozen hfrozen r hr
    have hnew : r.1.kanaState = [] := retype_frozen hfrozen r (h ▸ hr)
    rw [hold] at hnew
    exact KanaTable.ne_nil_of_retry hretry hnew

end Press

end Retype

/-- After a pending `n` the key `q` is committed, where it switches to Katakana after `ん`. The
character is handed back, and the table has no rule for it. -/
theorem mode_key_committed :
    letI := EucJp.empty
    ∃ (history : History Empty) (self : SkkEngine Empty),
      Session (fresh nasalTable {} true .hiragana []) history self ∧
      history.map Visit.input = KeyEvent.typed ['n'] ∧ self.phase = .hiragana ∧
      self.kanaTable.transition self.kanaState 'q' .hiragana = .okRetry ['ん'] 'q' ∧
      (∃ self', self.processKey (.press (.char 'q') {}) =
        .ok (self', [.commit ['ん'], .commit ['q'], .clearPreedit]) ∧ self'.phase = .hiragana) ∧
      (∃ self' actions, self.retype 'q' = .ok (self', actions) ∧ self'.phase = .katakana) ∧
      self.processKey (.press (.char 'q') {}) ≠ self.retype 'q' := by
  let _ := EucJp.empty
  have hrecord := exists_session (fresh nasalTable {} true .hiragana []) (KeyEvent.typed ['n'])
    (fun _ (self : SkkEngine Empty) => self.phase = .hiragana ∧
      self.kanaTable.transition self.kanaState 'q' .hiragana = .okRetry ['ん'] 'q' ∧
      (∃ r ∈ (self.processKey (.press (.char 'q') {})).toOption,
        r.2 = [.commit ['ん'], .commit ['q'], .clearPreedit] ∧ r.1.phase = .hiragana) ∧
      ∃ r ∈ (self.retype 'q').toOption, r.1.phase = .katakana)
    (by decide +kernel)
  obtain ⟨history, self, hrun, hinputs, hphase, hretry, ⟨r, hr, hactions, hhiragana⟩, r', hr',
    hkatakana⟩ := hrecord
  have hold := ok_of_mem_toOption hr
  have hnew := ok_of_mem_toOption hr'
  refine ⟨history, self, hrun, hinputs, hphase, hretry, ⟨r.1, by rw [hold, ← hactions], hhiragana⟩,
    ⟨r'.1, r'.2, hnew, hkatakana⟩, fun hsame => ?_⟩
  rw [hold, hnew] at hsame
  rw [Except.ok.inj hsame, hkatakana] at hhiragana
  cases hhiragana

/-- After a pending `n` the key `n` is the first romaji of the next kana, as it is after `ん`. It
is no command of the kana mode. -/
theorem asRetyped_iff_of_session_consonant :
    letI := EucJp.empty
    ∃ (history : History Empty) (self : SkkEngine Empty),
      Session (fresh nasalTable {} true .hiragana []) history self ∧
      self.kanaState = ['n'] ∧ self.processKey (.press (.char 'n') {}) = self.retype 'n' := by
  let _ := EucJp.empty
  have hrecord := exists_session (fresh nasalTable {} true .hiragana []) (KeyEvent.typed ['n'])
    (fun _ (self : SkkEngine Empty) => self.phase = .hiragana ∧ self.kanaState = ['n'] ∧
      KanaTable.retryOf (self.kanaTable.transition self.kanaState 'n' .hiragana) = some 'n' ∧
      self.cooks (.press (.char 'n') {}) ∧ self.isToggle (.press (.char 'n') {}) = false ∧
      self.startsAnew 'n' = false)
    (by decide +kernel)
  obtain ⟨history, self, hrun, -, hphase, hpending, hretry, hcooks, htoggle, hstarts⟩ := hrecord
  have hmode : kanaModeOf self.phase = .hiragana := by rw [hphase]; rfl
  refine ⟨history, self, hrun, hpending,
    (asRetyped_iff_of_session hrun (by rw [hphase]; rfl) (by rw [hmode]; exact hretry)).mpr
      ⟨hcooks, ?_⟩⟩
  rw [if_neg (by simp [htoggle])]
  exact .inl hstarts

end SkkEngine

end Y2Skk
