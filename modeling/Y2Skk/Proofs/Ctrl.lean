import Y2Skk.Proofs.Cancel

/-!
# `Y2Skk.Proofs.Ctrl`: Ctrl combinations that act as text

`printable_char` gives the character of a key whatever its modifiers are, so each phase
handler tests Ctrl on its own, and not all of them do so before they look at the
character. `ignoresCtrl` says, phase by phase, which Ctrl combinations are left alone.

A handler `Settles` it: either it leaves everything alone (`LeavesAlone`), or it visibly
acts (`Acts`): it changes the phase or the pending romaji, or commits text and does
nothing else. `inert_iff_of_session` carries this over to a key press, in or outside a
registration.

## The phases

* The kana modes, direct input, abbreviations and the purge confirmation test Ctrl first.
* Full-width input commits the character.
* The code input takes `u`, which asks for a Unicode code.
* A reading and its okurigana feed the character to the kana table. They leave it alone
  when the table's result is the state there was: no output, and the same pending romaji.
* A selection takes the cancel key, the selection keys and the affix keys.

## A character that is handed back

The table may hand a character back to be fed again in its start state (`OkRetry`, and
`NoMatch` with a retry). In a reading the second round can restore the pending romaji of
the first, and then nothing has changed after all: `refeeds` follows that round, and
`handleMidashi_refeed` proves it right.
-/

set_option autoImplicit false

namespace Y2Skk

open Outcome Utf8 Transition

/-- A press of the character `c` with Ctrl that is no command of its own. -/
structure KeyEvent.CtrlChar (event : KeyEvent) (c : Char) : Prop where
  isPress : event.isPress
  key : event.key = .char c
  ctrl : event.modifiers.ctrl
  command : c ≠ 'j' ∧ c ≠ 'q' ∧ c ≠ 'g'

/-- Ctrl does not take the character away, which is what the handlers have to test for. -/
theorem KeyEvent.CtrlChar.printableChar {event : KeyEvent} {c : Char} (h : event.CtrlChar c) :
    event.printableChar = some c := by
  simp [KeyEvent.printableChar, h.key]

namespace SkkEngine

variable {δ : Type}

/-! ### The keys that are left alone -/

/-- Typed after the reading `kanaBuf` with nothing pending, `c` leaves `romanBuf` pending and
the reading as it is. The keys that end a reading are no such characters. -/
def refeeds (self : SkkEngine δ) (kanaBuf romanBuf : Str) (c : Char) : Bool :=
  !(isAscii c && decide (c ∈ self.keybindings.conversionTriggerChars)) && !isAffixChar c &&
    !c.isDigit && !(c.isUpper && !kanaBuf.isEmpty) &&
    decide (self.kanaTable.transition [] c.toLower .hiragana = .ok [] romanBuf)

/-- The table takes a Ctrl combination in a reading without a change. -/
def tableKeeps (self : SkkEngine δ) (kanaBuf romanBuf : Str) (c : Char) : Bool :=
  match self.kanaTable.transition self.kanaState c.toLower .hiragana with
  | .ok output nextState => output.isEmpty && decide (nextState = romanBuf)
  | .okRetry output retry => output.isEmpty && self.refeeds kanaBuf romanBuf retry
  | .noMatch _ (some retry) => self.refeeds kanaBuf romanBuf retry
  | .noMatch _ none => true

/-- A reading is left alone. The tests are in the order of the handler: a trigger and an affix key
convert, a capital starts an okurigana, and any other character goes to the table. -/
def midashiIgnores (self : SkkEngine δ) (kanaBuf romanBuf : Str) (c : Char) : Bool :=
  if isAscii c ∧ self.kanaState.isEmpty ∧ c ∈ self.keybindings.conversionTriggerChars then false
  else if isAffixChar c then kanaBuf.isEmpty && romanBuf.isEmpty
  else if c.isUpper ∧ !kanaBuf.isEmpty then false
  else self.tableKeeps kanaBuf romanBuf c

/-- An okurigana is left alone. -/
def okuriIgnores (self : SkkEngine δ) (c : Char) : Bool :=
  match self.kanaTable.transition self.kanaState c.toLower .hiragana with
  | .ok output nextState => output.isEmpty && decide (nextState = self.kanaState)
  | .okRetry _ _ => false
  | .noMatch _ retry => retry.isNone

/-- The Ctrl combinations each phase leaves alone, read off the state and the key. It uses what
the table says of a character, and not what the handler does with it. -/
def ignoresCtrl (self : SkkEngine δ) (event : KeyEvent) (c : Char) : Bool :=
  match self.phase with
  | .hiragana | .katakana | .halfWidthKatakana | .ascii | .abbrev _ | .purgeConfirm _ _ _ => true
  | .wideAscii => (toWideAscii c).isNone
  | .codeInput codePrefix buf => !(decide (codePrefix = .jis) && buf.isEmpty && decide (c = 'u'))
  | .midashi kanaBuf romanBuf => self.midashiIgnores kanaBuf romanBuf c
  | .okuri _ _ _ => self.okuriIgnores c
  | .selecting s =>
      decide (c ∉ self.keybindings.cancel) && (self.selectedByKey s event).isNone &&
        !isAffixChar c

/-! ### What a handler does with them -/

/-- The pending romaji stays, or is cleared in a kana mode. -/
def KeepsRomaji (start : SkkEngine δ) (self : SkkEngine δ) : Prop :=
  self.kanaState = start.kanaState ∨ start.phase.isKana ∧ self.kanaState = []

/-- The handler leaves the state alone and commits nothing. -/
structure LeavesAlone (start : SkkEngine δ) (r : SkkEngine δ × List EngineAction) : Prop where
  base : r.1.base = start.base
  phase : r.1.phase = start.phase
  romaji : start.KeepsRomaji r.1
  quiet : ∀ a ∈ r.2, a ≠ .deleteBack ∧ ∀ text, a ≠ .commit text

/-- The handler changes the phase or the pending romaji, or does nothing but commit text. -/
def Acts (start : SkkEngine δ) (r : SkkEngine δ × List EngineAction) : Prop :=
  r.1.phase ≠ start.phase ∨ ¬ start.KeepsRomaji r.1 ∨
    ∃ text, text ≠ [] ∧ r = (start, [.commit text])

/-- The handler leaves the state alone, or acts, as `inert` says. Both halves are proved
together, since the cases of a handler are the same for both. -/
def Settles (inert : Bool) (start : SkkEngine δ) (r : SkkEngine δ × List EngineAction) : Prop :=
  if inert then LeavesAlone start r else Acts start r

section Handlers
variable {self : SkkEngine δ} {event : KeyEvent} {c : Char}

/-- A result in another phase. -/
theorem Settles.of_phase_ne {start : SkkEngine δ} {inert : Bool} (hinert : inert = false)
    {r : SkkEngine δ × List EngineAction} (h : r.1.phase ≠ start.phase) :
    Settles inert start r := by
  rw [hinert]
  exact .inl h

/-- A key that is passed on leaves the state alone. -/
theorem leavesAlone_passthrough (self : SkkEngine δ) : LeavesAlone self (self, [.passthrough]) :=
  ⟨rfl, rfl, .inl rfl, by simp⟩

/-- So does one that draws a state with the same phase. -/
theorem redraw_leavesAlone {start mid : SkkEngine δ} (hbase : mid.base = start.base)
    (hphase : mid.phase = start.phase) (hromaji : start.KeepsRomaji mid) :
    Yields mid.redraw (LeavesAlone start) := by
  refine (redraw_yields mid).mono ?_
  rintro _ ⟨preedit, rfl⟩
  exact ⟨hbase, hphase, hromaji, by simp⟩

/-- Direct input passes it on. -/
theorem handleAscii_ctrl (h : event.CtrlChar c) :
    Yields (self.handleAscii event) (LeavesAlone self) := by
  have hcommand := h.command
  unfold handleAscii
  rw [if_neg (by simp [h.key, hcommand])]
  exact yields_ok.mpr (leavesAlone_passthrough self)

/-- Full-width input commits the wide form of the character, if there is one: the handler does
not look at Ctrl here. -/
theorem handleWideAscii_ctrl (h : event.CtrlChar c) :
    Yields (self.handleWideAscii event) (Settles (toWideAscii c).isNone self) := by
  have hcommand := h.command
  unfold handleWideAscii
  rw [if_neg (by simp [h.key, hcommand]), if_neg (by simp [h.key]), h.printableChar]
  dsimp only [Option.bind_some]
  cases hwide : toWideAscii c with
  | none => exact yields_ok.mpr (leavesAlone_passthrough self)
  | some wide => exact yields_ok.mpr (.inr (.inr ⟨[wide], by simp, rfl⟩))

/-- The code input takes `u` at its start, and ignores any other character that comes with
Ctrl. -/
theorem handleCodeInput_ctrl [EucJp] (h : event.CtrlChar c) {codePrefix : CodeInputPrefix}
    {buf : Str} (hphase : self.phase = .codeInput codePrefix buf) :
    Yields (self.handleCodeInput event codePrefix buf)
      (Settles (!(decide (codePrefix = .jis) && buf.isEmpty && decide (c = 'u'))) self) := by
  have hcommand := h.command
  unfold handleCodeInput
  rw [if_neg (by simp [h.key]), if_neg (by simp [h.key]), h.printableChar]
  by_cases hunicode : codePrefix = .jis ∧ buf.isEmpty ∧ c = 'u'
  · -- `u` asks for a Unicode code point, with Ctrl or without.
    rw [if_pos (by simpa using hunicode)]
    have hnot : (!(decide (codePrefix = .jis) && buf.isEmpty && decide (c = 'u'))) = false := by
      simp [hunicode]
    rw [hnot]
    refine (redraw_yields _).mono ?_
    rintro _ ⟨preedit, rfl⟩
    refine .inl ?_
    rw [hphase, hunicode.1]
    simp
  · rw [if_neg (by simpa using hunicode), if_neg (by simp [h.key, hcommand])]
    have hinert : (!(decide (codePrefix = .jis) && buf.isEmpty && decide (c = 'u'))) = true := by
      by_contra hfalse
      exact hunicode (by simpa [and_assoc] using hfalse)
    rw [hinert]
    dsimp only
    rw [if_neg (by simp [h.ctrl])]
    exact redraw_leavesAlone rfl rfl (.inl rfl)

variable [DictionaryProvider δ]

/-- The kana modes pass it on, but for the pending romaji, which they may drop. They test Ctrl
before they ask for the character. -/
theorem handleKana_ctrl (h : event.CtrlChar c) (hphase : self.phase.isKana) :
    Yields (self.handleKana event) (LeavesAlone self) := by
  have hcommand := h.command
  unfold handleKana
  rw [if_neg (by simp [h.key, hcommand]), if_neg (by simp [h.key, hcommand]),
    if_neg (by simp [h.key]), if_neg (by simp [h.key]), h.printableChar]
  dsimp only
  rw [if_pos h.ctrl]
  exact yields_ok.mpr ⟨rfl, rfl, .inr ⟨hphase, rfl⟩, by simp⟩

/-- An abbreviation is kept and drawn again. -/
theorem handleAbbrev_ctrl (h : event.CtrlChar c) {buf : Str} :
    Yields (self.handleAbbrev event buf) (LeavesAlone self) := by
  have hcommand := h.command
  unfold handleAbbrev
  rw [if_neg (by simp [h.key]), if_neg (by simp [h.key]), if_neg (by simp [h.key]),
    if_neg (by simp [h.key, hcommand]), if_neg (by simp [h.key]), h.printableChar]
  dsimp only
  rw [if_pos h.ctrl]
  exact redraw_leavesAlone rfl rfl (.inl rfl)

/-- So is the answer of a purge confirmation. -/
theorem handlePurgeConfirm_ctrl (h : event.CtrlChar c) {buf : Str} :
    Yields (self.handlePurgeConfirm event buf) (LeavesAlone self) := by
  unfold handlePurgeConfirm
  rw [if_neg (by simp [h.key]), if_neg (by simp [h.key]), h.printableChar]
  dsimp only
  rw [if_neg (by simp [h.ctrl])]
  exact yields_ok.mpr ⟨rfl, rfl, .inl rfl, by simp⟩

/-! ### Readings -/

/-- The handler leaves the phase of a reading. -/
def LeavesReading (r : SkkEngine δ × List EngineAction) : Prop :=
  ∀ kanaBuf romanBuf, r.1.phase ≠ .midashi kanaBuf romanBuf

omit [DictionaryProvider δ] in
/-- To leave the reading is to act. -/
theorem LeavesReading.settles {kanaBuf romanBuf : Str} {inert : Bool}
    {x : Partial (SkkEngine δ × List EngineAction)}
    (hphase : self.phase = .midashi kanaBuf romanBuf) (hinert : inert = false)
    (hx : Yields x LeavesReading) : Yields x (Settles inert self) := by
  refine hx.mono fun r hr => .of_phase_ne hinert ?_
  rw [hphase]
  exact hr kanaBuf romanBuf

omit [DictionaryProvider δ] in
/-- The kana modes are no readings. -/
theorem toPhase_ne_midashi (mode : KanaMode) (kanaBuf romanBuf : Str) :
    mode.toPhase ≠ .midashi kanaBuf romanBuf := by
  cases mode <;> simp [KanaMode.toPhase]

/-- A lookup ends in the registration mode or at the candidates. -/
theorem startConversion_phase (self : SkkEngine δ) (midashi : Str) (okuri : Option (Str × Str)) :
    Yields (self.startConversion midashi okuri) fun r =>
      r.1.phase = .hiragana ∨ ∃ s, r.1.phase = .selecting s := by
  refine (startConversion_yields self midashi okuri).mono ?_
  rintro _ (⟨preedit, rfl⟩ | ⟨s, actions, -, -, -, -, rfl⟩)
  · exact .inl rfl
  · exact .inr ⟨s, rfl⟩

/-- So a lookup leaves the reading. -/
theorem startConversion_leaves (self : SkkEngine δ) (midashi : Str) (okuri : Option (Str × Str)) :
    Yields (self.startConversion midashi okuri) LeavesReading := by
  refine (startConversion_phase self midashi okuri).mono ?_
  rintro r (h | ⟨s, h⟩) <;> simp [LeavesReading, h]

/-- A typed trigger leaves the reading. -/
theorem convertOnTrigger_leaves (self : SkkEngine δ) (kanaBuf trigger : Str) :
    Yields (self.convertOnTrigger kanaBuf trigger) LeavesReading := by
  unfold convertOnTrigger
  refine Yields.ite (fun _ => ?_) fun _ => startConversion_leaves _ kanaBuf none
  exact yields_ok.mpr fun _ _ => toPhase_ne_midashi _ _ _

/-- An affix key looks a reading up. -/
theorem midashiAffix_leaves {kanaBuf romanBuf : Str} (h : ¬ (kanaBuf ++ romanBuf).isEmpty) :
    Yields (self.midashiAffix kanaBuf romanBuf) LeavesReading := by
  unfold midashiAffix
  rw [if_neg h]
  exact startConversion_leaves _ _ none

/-- The okurigana is waited for, or looked up. Either way the reading is left: the phase waits
for the rest of the okurigana, or it is a selection or a registration after the lookup. -/
theorem handleOkuri_leaves (h : event.key = .char c) {midashi kanaBuf : Str}
    {okuriPrefix : Char} :
    Yields (self.handleOkuri event midashi okuriPrefix kanaBuf) LeavesReading := by
  have hconvert : ∀ (mid : SkkEngine δ) preState lower kanaBuf,
      Yields (mid.convertOkuri midashi preState lower kanaBuf) LeavesReading :=
    fun _ _ _ _ => startConversion_leaves _ midashi _
  -- the character is a plain one, so it goes to the table, with one outcome for each answer of it
  have hwait : ∀ (mid : SkkEngine δ) kanaBuf, mid.phase = .okuri midashi okuriPrefix kanaBuf →
      Yields mid.redraw LeavesReading := by
    intro mid kanaBuf hphase
    refine (redraw_yields mid).mono ?_
    rintro _ ⟨preedit, rfl⟩
    simp [LeavesReading, hphase]
  have hprintable : event.printableChar = some c := by simp [KeyEvent.printableChar, h]
  unfold handleOkuri
  rw [if_neg (by simp [h]), if_neg (by simp [h]), hprintable]
  dsimp only
  cases self.kanaTable.transition self.kanaState c.toLower .hiragana with
  | ok output nextState => exact Yields.ite (fun _ => hconvert _ _ _ _) fun _ => hwait _ _ rfl
  | okRetry output retry => exact Yields.ite (fun _ => hconvert _ _ _ _) fun _ => hwait _ _ rfl
  | noMatch flush retry => exact hwait _ _ rfl

/-- A capital starts the okurigana, whose first character may complete it at once. Either way
the reading is left. -/
theorem midashiOkuri_leaves (h : event.key = .char c) (kanaBuf : Str) :
    Yields (self.midashiOkuri event c kanaBuf) LeavesReading := by
  unfold midashiOkuri
  dsimp only
  split
  · refine (redraw_yields _).mono ?_
    rintro _ ⟨preedit, rfl⟩
    simp [LeavesReading]
  · exact handleOkuri_leaves h

/-- The table takes a character: without output it becomes pending, and else the reading grows
or ends. A reading that has grown is longer than every reading it began with, so it is not the
one there was. That is how a Ctrl combination is seen to act. -/
theorem midashiFeed_phase (self : SkkEngine δ) (kanaBuf output nextState : Str) :
    Yields (self.midashiFeed kanaBuf output nextState) fun r =>
      if output.isEmpty then
        r.1.base = self.base ∧ r.1.kanaState = nextState ∧
          r.1.phase = .midashi kanaBuf nextState ∧ ∃ preedit, r.2 = [.updatePreedit preedit]
      else ∀ before romanBuf, before <+: kanaBuf → r.1.phase ≠ .midashi before romanBuf := by
  obtain ⟨last, hout, -, -, hfed⟩ | ⟨-, completion, hfed⟩ :=
    self.midashiFeed_cases kanaBuf output nextState
  · rw [hfed]
    refine (convertOnTrigger_leaves _ _ _).mono ?_
    intro r hr
    rw [if_neg (by simpa using hout)]
    exact fun before romanBuf _ => hr before romanBuf
  rw [hfed]
  refine (redraw_yields _).mono ?_
  rintro _ ⟨preedit, rfl⟩
  cases output with
  | nil =>
      rw [if_pos (show ([] : Str).isEmpty from rfl), List.append_nil]
      exact ⟨rfl, rfl, rfl, preedit, rfl⟩
  | cons x output =>
      rw [if_neg (by simp)]
      -- a beginning of the reading cannot be the reading with a kana behind it
      rintro before romanBuf ⟨rest, rfl⟩ hsame
      have hlength := congrArg List.length (SkkPhase.midashi.inj hsame).1
      simp at hlength

/-- Fed to a reading that `kanaBuf` begins, a kana leaves the reading `kanaBuf` alone when it is
empty and the pending romaji are the same. In every other case the phase is a new one. The
condition is written as a truth value, since `inert` is one. -/
theorem midashiFeed_settles {mid : SkkEngine δ} {kanaBuf romanBuf reading : Str}
    (hbase : mid.base = self.base) (hphase : self.phase = .midashi kanaBuf romanBuf)
    (hromaji : self.kanaState = romanBuf) (hreading : kanaBuf <+: reading)
    (output nextState : Str) :
    Yields (mid.midashiFeed reading output nextState)
      (Settles (decide (reading = kanaBuf) &&
        (output.isEmpty && decide (nextState = romanBuf))) self) := by
  refine (midashiFeed_phase mid reading output nextState).mono fun r hr => ?_
  by_cases hout : output.isEmpty
  · rw [if_pos hout] at hr
    obtain ⟨hmid, hkana, hmidashi, preedit, hactions⟩ := hr
    by_cases hsame : reading = kanaBuf ∧ nextState = romanBuf
    · obtain ⟨rfl, rfl⟩ := hsame
      unfold Settles
      rw [if_pos (by simp [hout])]
      exact ⟨hmid.trans hbase, hmidashi.trans hphase.symm, .inl (hkana.trans hromaji.symm),
        by simp [hactions]⟩
    · refine .of_phase_ne (by simpa [hout] using hsame) ?_
      rw [hmidashi, hphase]
      simpa using hsame
  · rw [if_neg hout] at hr
    refine .of_phase_ne (by simp [hout]) ?_
    rw [hphase]
    exact hr kanaBuf romanBuf hreading

/-- A character handed back after the reading `reading`, which `kanaBuf` begins. It meets the
reading with nothing pending, and the branches of `handle_midashi` are tried once more. Only
when the table takes it to the very romaji that were pending is nothing changed. -/
theorem handleMidashi_refeed {kanaBuf romanBuf reading : Str} (fuel : Nat)
    (hphase : self.phase = .midashi kanaBuf romanBuf) (hromaji : self.kanaState = romanBuf)
    (hpending : romanBuf ≠ []) (hreading : kanaBuf <+: reading) (retry : Char) :
    Yields (SkkEngine.handleMidashi (fuel + 1)
        { self with kanaState := [], phase := .midashi reading [] }
        (.press (.char retry) {}) reading [])
      (Settles (decide (reading = kanaBuf) && self.refeeds kanaBuf romanBuf retry) self) := by
  have hdropped : ∀ {mid : SkkEngine δ} {reading' : Str} {inert : Bool}, inert = false →
      mid.phase = .midashi reading' [] → Yields mid.redraw (Settles inert self) := by
    intro mid reading' inert hinert hmid
    refine (redraw_yields mid).mono ?_
    rintro _ ⟨preedit, rfl⟩
    refine .of_phase_ne hinert ?_
    rw [hmid, hphase]
    intro hsame
    exact hpending (SkkPhase.midashi.inj hsame).2.symm
  unfold handleMidashi
  rw [if_neg (by simp [KeyEvent.press]), if_neg (by simp [KeyEvent.press]),
    if_neg (by simp [KeyEvent.press]), if_neg (by simp [KeyEvent.press]),
    if_neg (by simp [KeyEvent.press]), if_neg (by simp [KeyEvent.press])]
  dsimp only [KeyEvent.printableChar, KeyEvent.press]
  -- the commands of a reading come first: the triggers, the affixes, the digits and the capitals
  refine Yields.ite (fun htrigger => ?_) fun htrigger => ?_
  · exact LeavesReading.settles hphase (by simp [refeeds, htrigger.1, htrigger.2.2])
      (convertOnTrigger_leaves _ _ _)
  refine Yields.ite (fun haffix => ?_) fun haffix => ?_
  · have hinert : (decide (reading = kanaBuf) && self.refeeds kanaBuf romanBuf retry) = false := by
      simp [refeeds, haffix]
    by_cases hnone : (reading ++ []).isEmpty
    · unfold midashiAffix
      rw [if_pos hnone]
      exact hdropped hinert rfl
    · exact LeavesReading.settles hphase hinert (midashiAffix_leaves hnone)
  refine Yields.ite (fun hdigit => ?_) fun hdigit => ?_
  · exact hdropped (by simp [refeeds, hdigit.1]) rfl
  refine Yields.ite (fun hupper => ?_) fun hupper => ?_
  · refine LeavesReading.settles hphase ?_ (midashiOkuri_leaves rfl _)
    by_cases hsame : reading = kanaBuf
    · subst hsame
      simp [refeeds, hupper.1, hupper.2]
    · simp [hsame]
  -- none of the commands is left, so `refeeds` is down to what the table says
  have hrefeeds : (decide (reading = kanaBuf) && self.refeeds kanaBuf romanBuf retry) =
      (decide (reading = kanaBuf) &&
        decide (self.kanaTable.transition [] retry.toLower .hiragana = .ok [] romanBuf)) := by
    by_cases hsame : reading = kanaBuf
    · subst hsame
      have h1 : (isAscii retry &&
          decide (retry ∈ self.keybindings.conversionTriggerChars)) = false := by
        simpa using htrigger
      have h2 : isAffixChar retry = false := by simpa using haffix
      have h3 : retry.isDigit = false := by simpa using hdigit
      have h4 : (retry.isUpper && !reading.isEmpty) = false := by simpa using hupper
      simp [refeeds, h1, h2, h3, h4]
    · simp [hsame]
  rw [hrefeeds]
  cases htrans : self.kanaTable.transition [] retry.toLower .hiragana with
  | ok output nextState =>
      have hkept : decide (TransitionResult.ok output nextState = .ok [] romanBuf) =
          (output.isEmpty && decide (nextState = romanBuf)) := by
        cases output <;> simp
      rw [hkept]
      exact midashiFeed_settles (by rfl) hphase hromaji hreading output nextState
  | okRetry output retry => exact (KanaTable.transition_okRetry_ne_nil htrans rfl).elim
  | noMatch flush retry' =>
      cases retry' with
      | some retry' => exact (KanaTable.transition_noMatch_ne_nil htrans rfl).elim
      | none =>
          refine Yields.ite (fun _ => ?_) fun _ => hdropped (by simp) rfl
          refine LeavesReading.settles hphase (by simp) ?_
          unfold midashiToggleKana
          exact yields_ok.mpr fun _ _ => toPhase_ne_midashi _ _ _

/-- A reading: a trigger, an affix key and a capital act on it, and the table decides about the
rest. -/
theorem handleMidashi_ctrl (h : event.CtrlChar c) {kanaBuf romanBuf : Str} (fuel : Nat)
    (hphase : self.phase = .midashi kanaBuf romanBuf) (hromaji : self.kanaState = romanBuf) :
    Yields (self.handleMidashi (fuel + 2) event kanaBuf romanBuf)
      (Settles (self.midashiIgnores kanaBuf romanBuf c) self) := by
  have hcommand := h.command
  unfold handleMidashi
  rw [if_neg (by simp [h.key]), if_neg (by simp [h.key]), if_neg (by simp [h.key]),
    if_neg (by simp [h.key]), if_neg (by simp [h.key]), if_neg (by simp [h.key, hcommand]),
    h.printableChar]
  dsimp only
  by_cases htrigger :
      isAscii c ∧ self.kanaState.isEmpty ∧ c ∈ self.keybindings.conversionTriggerChars
  · rw [if_pos htrigger]
    exact LeavesReading.settles hphase (by simp [midashiIgnores, htrigger])
      (convertOnTrigger_leaves _ _ _)
  rw [if_neg htrigger]
  by_cases haffix : isAffixChar c
  · have hignores :
        self.midashiIgnores kanaBuf romanBuf c = (kanaBuf.isEmpty && romanBuf.isEmpty) := by
      rw [midashiIgnores, if_neg htrigger, if_pos haffix]
    rw [if_pos haffix, hignores]
    by_cases hnone : (kanaBuf ++ romanBuf).isEmpty
    · -- Without a reading there is nothing to convert.
      obtain ⟨rfl, rfl⟩ : kanaBuf = [] ∧ romanBuf = [] := by simpa using hnone
      unfold midashiAffix
      rw [if_pos (by simp)]
      exact redraw_leavesAlone rfl hphase.symm (.inl hromaji.symm)
    · exact LeavesReading.settles hphase (by simpa using hnone) (midashiAffix_leaves hnone)
  rw [if_neg haffix, if_neg (by simp [h.ctrl])]
  by_cases hupper : c.isUpper ∧ !kanaBuf.isEmpty
  · rw [if_pos hupper]
    refine LeavesReading.settles hphase ?_ (midashiOkuri_leaves h.key _)
    rw [midashiIgnores, if_neg htrigger, if_neg haffix, if_pos hupper]
  -- None of the special characters is left, so only the table counts.
  have hignores : self.midashiIgnores kanaBuf romanBuf c = self.tableKeeps kanaBuf romanBuf c := by
    rw [midashiIgnores, if_neg htrigger, if_neg haffix, if_neg hupper]
  rw [if_neg hupper, hignores]
  unfold tableKeeps
  cases htrans : self.kanaTable.transition self.kanaState c.toLower .hiragana with
  | ok output nextState =>
      have hfed : Yields (self.midashiFeed kanaBuf output nextState) _ :=
        midashiFeed_settles rfl hphase hromaji (List.prefix_refl kanaBuf) output nextState
      simpa using hfed
  | okRetry output retry =>
      have hpending : romanBuf ≠ [] := by
        rw [← hromaji]
        exact KanaTable.transition_okRetry_ne_nil htrans
      have hrefeed := handleMidashi_refeed fuel hphase hromaji hpending
        (List.prefix_append kanaBuf output) retry
      have hsame : decide (kanaBuf ++ output = kanaBuf) = output.isEmpty := by
        cases output <;> simp
      rw [hsame] at hrefeed
      exact hrefeed
  | noMatch flush retry =>
      cases retry with
      | some retry =>
          have hpending : romanBuf ≠ [] := by
            rw [← hromaji]
            exact KanaTable.transition_noMatch_ne_nil htrans
          have hrefeed := handleMidashi_refeed fuel hphase hromaji hpending
            (List.prefix_refl kanaBuf) retry
          simpa using hrefeed
      | none =>
          -- Only the start state has nothing to hand back.
          have hstart : self.kanaState = [] := KanaTable.transition_noMatch_eq_nil htrans
          dsimp only
          rw [if_neg (by simp [h.ctrl])]
          refine redraw_leavesAlone rfl ?_ (.inl hstart.symm)
          rw [hphase, ← hromaji, hstart]

/-- An okurigana goes to the table as well. A character that is handed back is not fed again
here, so it acts whenever there is something to hand back. -/
theorem handleOkuri_ctrl (h : event.CtrlChar c) {midashi kanaBuf : Str} {okuriPrefix : Char}
    (hphase : self.phase = .okuri midashi okuriPrefix kanaBuf) :
    Yields (self.handleOkuri event midashi okuriPrefix kanaBuf)
      (Settles (self.okuriIgnores c) self) := by
  have hconvert : ∀ (mid : SkkEngine δ) preState lower kanaBuf, self.okuriIgnores c = false →
      Yields (mid.convertOkuri midashi preState lower kanaBuf)
        (Settles (self.okuriIgnores c) self) := by
    intro mid preState lower kanaBuf hinert
    refine (startConversion_phase _ midashi _).mono fun r hr => .of_phase_ne hinert ?_
    rw [hphase]
    rcases hr with hr | ⟨s, hr⟩ <;> simp [hr]
  have hkana : self.phase.isKana = false := by rw [hphase]; rfl
  have hromaji : ∀ {mid : SkkEngine δ} (_ : mid.kanaState ≠ self.kanaState),
      ¬ self.KeepsRomaji mid := by
    rintro mid hne (hsame | ⟨htrue, -⟩)
    · exact hne hsame
    · rw [hkana] at htrue
      cases htrue
  unfold handleOkuri
  rw [if_neg (by simp [h.key]), if_neg (by simp [h.key]), h.printableChar]
  dsimp only
  unfold okuriIgnores at hconvert ⊢
  cases htrans : self.kanaTable.transition self.kanaState c.toLower .hiragana with
  | ok output nextState =>
      rw [htrans] at hconvert
      dsimp only
      -- without a kana the key is inert when the same romaji are pending; with one the buffer
      -- grows
      by_cases hout : output.isEmpty
      · rw [if_neg (by simp [hout])]
        obtain rfl := List.isEmpty_iff.mp hout
        by_cases hsame : nextState = self.kanaState
        · have hkept : (([] : Str).isEmpty && decide (nextState = self.kanaState)) = true := by
            simp [hsame]
          rw [hkept]
          refine redraw_leavesAlone rfl ?_ (.inl hsame)
          rw [hphase, List.append_nil]
        · have hmoved : (([] : Str).isEmpty && decide (nextState = self.kanaState)) = false := by
            simp [hsame]
          rw [hmoved]
          refine (redraw_yields _).mono ?_
          rintro _ ⟨preedit, rfl⟩
          exact .inr (.inl (hromaji hsame))
      · refine Yields.ite (fun _ => hconvert _ _ _ _ (by simp [hout])) fun _ => ?_
        refine (redraw_yields _).mono ?_
        rintro _ ⟨preedit, rfl⟩
        refine .of_phase_ne (by simp [hout]) ?_
        rw [hphase]
        simpa using hout
  | okRetry output retry =>
      rw [htrans] at hconvert
      refine Yields.ite (fun _ => hconvert _ _ _ _ rfl) fun _ => ?_
      refine (redraw_yields _).mono ?_
      rintro _ ⟨preedit, rfl⟩
      exact .inr (.inl (hromaji (KanaTable.transition_okRetry_ne_nil htrans).symm))
  | noMatch flush retry =>
      cases retry with
      | some retry =>
          refine (redraw_yields _).mono ?_
          rintro _ ⟨preedit, rfl⟩
          exact .inr (.inl (hromaji (KanaTable.transition_noMatch_ne_nil htrans).symm))
      | none =>
          have hstart : self.kanaState = [] := KanaTable.transition_noMatch_eq_nil htrans
          exact redraw_leavesAlone rfl hphase.symm (.inl hstart.symm)

/-! ### The candidates -/

omit [DictionaryProvider δ] in
/-- To go back moves the focus, on a page and between pages, wherever there is a position
before. -/
theorem previousIndex_ne {index : Nat} (h : index ≠ 0) : self.previousIndex index ≠ index := by
  unfold previousIndex
  by_cases hlisting : self.inListing index
  · rw [if_pos hlisting]
    simp only [inListing, decide_eq_true_eq] at hlisting
    dsimp only
    split <;> omega
  · rw [if_neg hlisting]
    omega

/-- The cancel key leaves the candidate: for the reading, or for another position of the
list. -/
theorem selectPrevious_phase (self : SkkEngine δ) (s : Selection) :
    Yields (self.selectPrevious s) fun r => r.1.phase ≠ .selecting s := by
  unfold selectPrevious
  refine Yields.ite (fun _ => ?_) fun hindex => ?_
  · unfold backToMidashi
    refine Yields.bind (Yields.of_forall fun _ => trivial) fun preedit _ => ?_
    rw [yields_pure, updateCompletion_eq]
    simp
  · have hmoved :
        SkkPhase.selecting { s with index := self.previousIndex s.index } ≠ .selecting s := by
      intro hsame
      exact previousIndex_ne hindex (congrArg Selection.index (SkkPhase.selecting.inj hsame))
    refine Yields.bind (Yields.of_forall fun _ => trivial) fun preedit _ => ?_
    refine Yields.bind (Yields.of_forall fun _ => trivial) fun page _ => ?_
    cases page <;> exact yields_ok.mpr hmoved

/-- A committed candidate ends the selection, since a commit leaves a kana mode. -/
theorem commitCandidate_phase (self : SkkEngine δ) (s : Selection) (index : Nat) :
    Yields (self.commitCandidate s index) fun r => r.1.phase ≠ .selecting s := by
  have htoPhase : ∀ mode : KanaMode, mode.toPhase ≠ .selecting s := by
    intro mode
    cases mode <;> simp [KanaMode.toPhase]
  unfold commitCandidate
  refine Yields.bind (Yields.of_forall fun _ => trivial) fun chosen _ => ?_
  exact yields_ok.mpr (htoPhase _)

/-- An affix key commits the candidate and starts a reading. -/
theorem selectAffix_phase (self : SkkEngine δ) (s : Selection) :
    Yields (self.selectAffix s) fun r => r.1.phase ≠ .selecting s := by
  unfold selectAffix
  refine Yields.bind (Yields.of_forall fun _ => trivial) fun r _ => ?_
  refine Yields.bind (Yields.of_forall fun _ => trivial) fun preedit _ => ?_
  exact yields_pure.mpr (by simp)

/-- At the candidates the cancel key, a selection key and an affix key act, whatever modifiers
they come with, since their branches do not test for Ctrl. The purge and the commit of a plain
character do. Every other Ctrl combination is passed on. -/
theorem handleSelecting_ctrl (h : event.CtrlChar c) {s : Selection}
    (hphase : self.phase = .selecting s) :
    Yields (self.handleSelecting event s)
      (Settles (decide (c ∉ self.keybindings.cancel) && (self.selectedByKey s event).isNone &&
        !isAffixChar c) self) := by
  have hcommand := h.command
  -- A key that leaves the selection is not inert, and that is all that is asked of it.
  have hleft : ∀ {x : Partial (SkkEngine δ × List EngineAction)},
      (decide (c ∉ self.keybindings.cancel) && (self.selectedByKey s event).isNone &&
        !isAffixChar c) = false →
      (Yields x fun r => r.1.phase ≠ .selecting s) →
      Yields x (Settles (decide (c ∉ self.keybindings.cancel) &&
        (self.selectedByKey s event).isNone && !isAffixChar c) self) := by
    intro x hinert hx
    refine hx.mono fun r hr => .of_phase_ne hinert ?_
    rw [hphase]
    exact hr
  unfold handleSelecting
  rw [if_neg (by simp [h.key]), h.printableChar]
  dsimp only [Option.any_some]
  refine Yields.ite (fun hcancel => ?_) fun hcancel => ?_
  · refine hleft ?_ (selectPrevious_phase self s)
    simp [of_decide_eq_true hcancel]
  rw [if_neg (by simp [h.key]), if_neg (by simp [h.key]), if_neg (by simp [h.key, hcommand]),
    if_neg (by simp [h.key])]
  cases hselected : self.selectedByKey s event with
  | some candIdx =>
      rw [hselected] at hleft
      exact hleft (by simp) (commitCandidate_phase self s candIdx)
  | none =>
      rw [hselected] at hleft
      dsimp only
      rw [if_neg (by simp [h.ctrl])]
      refine Yields.ite (fun haffix => hleft (by simp [haffix]) (selectAffix_phase self s))
        fun haffix => ?_
      rw [if_neg (by simp [h.ctrl])]
      refine yields_ok.mpr ?_
      unfold Settles
      have hinert : c ∉ self.keybindings.cancel := by simpa using hcancel
      rw [if_pos (by simp [hinert, haffix])]
      exact leavesAlone_passthrough self

/-- Whatever the phase, its handler settles a Ctrl combination as `ignoresCtrl` says: it leaves
the state alone exactly where that test is true. -/
theorem dispatch_ctrl [EucJp] (hself : self.Wf) (h : event.CtrlChar c) :
    Yields (self.dispatch event) (Settles (self.ignoresCtrl event c) self) := by
  unfold dispatch ignoresCtrl
  cases hphase : self.phase with
  | hiragana | katakana | halfWidthKatakana => exact handleKana_ctrl h (by rw [hphase]; rfl)
  | ascii => exact handleAscii_ctrl h
  | wideAscii => exact handleWideAscii_ctrl h
  | codeInput codePrefix buf => exact handleCodeInput_ctrl h hphase
  | «abbrev» buf => exact handleAbbrev_ctrl h
  | midashi kanaBuf romanBuf => exact handleMidashi_ctrl h 0 hphase (hself.phase_eq hphase)
  | okuri midashi okuriPrefix kanaBuf => exact handleOkuri_ctrl h hphase
  | selecting s => exact handleSelecting_ctrl h hphase
  | purgeConfirm s buf returnMode => exact handlePurgeConfirm_ctrl h

end Handlers

/-! ### Through a key press -/

section Press
variable [DictionaryProvider δ] [EucJp] {self self' : SkkEngine δ} {event : KeyEvent} {c : Char}
  {actions : List EngineAction}

/-- A Ctrl combination that does not act as text. -/
structure Inert (start self' : SkkEngine δ) (actions : List EngineAction) : Prop where
  commits : ∀ text, .commit text ∉ actions
  dict : self'.dict = start.dict
  /-- The phase, with all buffers of a composition and the selected candidate. -/
  phase : self'.phase = start.phase
  frames : self'.registerStack = start.registerStack
  romaji : start.KeepsRomaji self'

omit [DictionaryProvider δ] [EucJp] in
/-- Without a commit there is no text. -/
theorem committedText_eq_nil {actions : List EngineAction}
    (h : ∀ a ∈ actions, ∀ text, a ≠ .commit text) : committedText actions = [] := by
  refine List.flatMap_eq_nil_iff.mpr fun a ha => ?_
  cases a with
  | commit text => exact (h _ ha text rfl).elim
  | _ => rfl

/-- What a press of a key makes of what the phase handler returns: the state is kept, and
in a registration the top frame takes the text. -/
theorem step_dispatched (hself : self.Wf) (hcooks : self.cooks event)
    (hkey : self.registrationKey event = none) (htoggle : self.isToggle event = false)
    (hstep : Step self event self' actions) :
    ∃ raw stack, self.dispatch event = .ok raw ∧
      self' = { raw.1 with registerStack := stack } ∧
      (self.registerStack = [] → raw.1.registerStack = [] →
        stack = [] ∧ ∃ status, IsStatus status ∧ actions = raw.2 ++ status) ∧
      (∀ frame frames, self.registerStack = frame :: frames →
        raw.1.registerStack = frame :: frames → ∃ frame', stack = frame' :: frames ∧
        frame.Receives (committedText raw.2) (decide (.deleteBack ∈ raw.2)) frame' ∧
        ∀ text, .commit text ∉ actions) := by
  rcases step_cases hstep with ⟨hnot, -⟩ | ⟨-, r, status, hcooked, hstatus, rfl, rfl⟩
  · rw [hcooks] at hnot
    cases hnot
  cases hstack : self.registerStack with
  | nil =>
      obtain ⟨raw, hdispatch, ⟨hraw, rfl⟩ | ⟨frame, frame', hopened, -, hstate⟩⟩ :=
        handleCooked_outside hself hstack htoggle r hcooked
      · refine ⟨r, [], hdispatch, by rw [← hraw], fun _ _ => ⟨rfl, status, hstatus, rfl⟩, ?_⟩
        rintro frame frames ⟨⟩
      · refine ⟨raw, [frame'], hdispatch, hstate, fun _ hraw => ?_, ?_⟩
        · rw [hopened] at hraw
          cases hraw
        · rintro frame frames ⟨⟩
  -- the registration did not take the key, so the handler did, and its text went into the frame
  | cons frame frames =>
      have hregistered := handleCooked_registered hself hstack r hcooked
      cases hregistered with
      | @handled mid rawActions top below top' actions _ hdispatch htop hreceives hshielded =>
          refine ⟨_, top' :: below, hdispatch, rfl, (by rintro ⟨⟩), ?_⟩
          rintro frame' frames' ⟨⟩ hraw
          rw [htop] at hraw
          cases hraw
          exact ⟨top', rfl, hreceives, (shielded_append hshielded hstatus).not_commit⟩
      | edited hsome | finished hsome | finishedLast hsome | cancelled hsome
      | cancelledLast hsome =>
          rw [hkey] at hsome
          cases hsome

omit [EucJp] in
/-- A registration takes no Ctrl combination but `C-g` for itself. In direct input it takes
characters, and tests for Ctrl there. -/
theorem registrationKey_ctrl (h : event.CtrlChar c) : self.registrationKey event = none := by
  have hcommand := h.command
  have hctrlG : isCtrlG event = false := by simp [isCtrlG, h.key, hcommand]
  have hedit : self.regEditDrawn (.char c) = none := rfl
  unfold registrationKey
  split
  · rfl
  split
  · simp [regReadyKey, h.key, hctrlG, hedit]
  rw [if_neg (by simp [hctrlG])]
  split
  · rw [if_neg (by simp [h.key])]
  split
  · simp [regAsciiKey, h.key, hedit, h.printableChar, h.ctrl]
  · rfl

/-- In every state of every run with raw mode off: a Ctrl combination that is no command does
not act as text, exactly when its phase leaves it alone. To act is to commit text, to change a
dictionary, the phase with its buffers, a registration, or the pending romaji. -/
theorem inert_iff_of_session {kanaTable : KanaTable} {keybindings : SkkKeybindings}
    {lispDirectives : Bool} {initialPhase : SkkPhase} {providers : List δ} {history : History δ}
    (hrun : Session (fresh kanaTable keybindings lispDirectives initialPhase providers)
      history self)
    (hraw : self.rawMode = false) (h : event.CtrlChar c) (htoggle : self.isToggle event = false)
    (hrawToggle : self.isRawToggle event = false) :
    ∃ self' actions, Step self event self' actions ∧
      (Inert self self' actions ↔ self.ignoresCtrl event c) := by
  have hself : self.Wf := Session.wf (fresh_wf ..) hrun
  obtain ⟨⟨self', actions⟩, hstep, -⟩ := processKey_wf hself event
  refine ⟨self', actions, hstep, ?_⟩
  have hcooks : self.cooks event := by simp [cooks, h.isPress, hraw, hrawToggle]
  obtain ⟨raw, stack, hdispatch, rfl, houtside, hinside⟩ :=
    step_dispatched hself hcooks (registrationKey_ctrl h) htoggle hstep
  have hsettles := dispatch_ctrl hself h raw hdispatch
  unfold Settles at hsettles
  by_cases hignored : self.ignoresCtrl event c
  · rw [if_pos hignored] at hsettles
    refine iff_of_true ?_ hignored
    have hframes : raw.1.registerStack = self.registerStack := congrArg Prod.fst hsettles.base
    have htext : committedText raw.2 = [] :=
      committedText_eq_nil fun a ha => (hsettles.quiet a ha).2
    have hkeeps : EngineAction.deleteBack ∉ raw.2 := fun hmem => (hsettles.quiet _ hmem).1 rfl
    have hrest : stack = self.registerStack ∧ ∀ text, .commit text ∉ actions := by
      cases hstack : self.registerStack with
      | nil =>
          obtain ⟨rfl, status, hstatus, rfl⟩ := houtside hstack (hframes.trans hstack)
          refine ⟨rfl, fun text hmem => ?_⟩
          rcases List.mem_append.mp hmem with hmem | hmem
          · exact (hsettles.quiet _ hmem).2 text rfl
          · rcases hstatus with rfl | ⟨indicator, rfl⟩
            · cases hmem
            · cases List.mem_singleton.mp hmem
      | cons frame frames =>
          obtain ⟨frame', rfl, hreceives, hcommits⟩ := hinside _ _ hstack (hframes.trans hstack)
          rw [htext, decide_eq_false hkeeps] at hreceives
          rw [hreceives.eq_of_nil]
          exact ⟨rfl, hcommits⟩
    exact ⟨hrest.2, congrArg Prod.snd hsettles.base, hsettles.phase, hrest.1, hsettles.romaji⟩
  · rw [if_neg hignored] at hsettles
    refine iff_of_false ?_ hignored
    intro hinert
    rcases hsettles with hphase | hromaji | ⟨text, htext, rfl⟩
    · exact hphase hinert.phase
    · exact hromaji hinert.romaji
    -- The text goes to the application, or into the top frame.
    cases hstack : self.registerStack with
    | nil =>
        obtain ⟨-, status, -, rfl⟩ := houtside hstack hstack
        exact hinert.commits text (by simp)
    | cons frame frames =>
        obtain ⟨frame', rfl, ⟨before, after, hcommitted, -, rfl⟩, -⟩ := hinside _ _ hstack hstack
        have hsame := hinert.frames
        rw [hstack] at hsame
        have hframe := congrArg RegisterFrame.committed (List.cons.inj hsame).1
        have hlength := congrArg List.length (hframe.trans hcommitted)
        simp [committedText] at hlength
        exact htext hlength

end Press

/-! ### A Ctrl combination that is typed -/

/-- In `WideAscii` the combination `C-c` commits a full-width `c` instead of reaching the
application. The engine is a fresh one. -/
theorem ctrl_typed :
    letI := EucJp.empty
    ∃ (self self' : SkkEngine Empty) (actions : List EngineAction),
      Session (fresh vowelTable {} true .wideAscii []) [] self ∧ self.rawMode = false ∧
      KeyEvent.CtrlChar (.press (.char 'c') { ctrl := true }) 'c' ∧
      isKeyOf (.press (.char 'c') { ctrl := true }) self.keybindings.toggleKeys = false ∧
      self.isRawToggle (.press (.char 'c') { ctrl := true }) = false ∧
      Step self (.press (.char 'c') { ctrl := true }) self' actions ∧
      ¬ Inert self self' actions := by
  let _ := EucJp.empty
  refine ⟨fresh vowelTable {} true .wideAscii [], fresh vowelTable {} true .wideAscii [],
    [.commit ['ｃ']], Run.nil, by decide, ⟨rfl, rfl, rfl, by decide⟩, by decide, by decide, ?_, ?_⟩
  · rfl
  · intro hinert
    exact hinert.commits ['ｃ'] (by simp)

/-- In a reading that waits for nothing `C-b` is left alone. The table has no rule for the
letter. -/
theorem inert_iff_of_session_reading :
    letI := EucJp.empty
    ∃ (history : History Empty) (self self' : SkkEngine Empty) (actions : List EngineAction),
      Session (fresh vowelTable {} true .hiragana []) history self ∧
      self.phase = .midashi ['あ'] [] ∧
      Step self (.press (.char 'b') { ctrl := true }) self' actions ∧
      Inert self self' actions := by
  let _ := EucJp.empty
  have hrecord := exists_session (fresh vowelTable {} true .hiragana []) (KeyEvent.typed ['A'])
    (fun _ (self : SkkEngine Empty) => self.rawMode = false ∧ self.phase = .midashi ['あ'] [] ∧
      self.isToggle (.press (.char 'b') { ctrl := true }) = false ∧
      self.isRawToggle (.press (.char 'b') { ctrl := true }) = false ∧
      self.ignoresCtrl (.press (.char 'b') { ctrl := true }) 'b')
    (by decide +kernel)
  obtain ⟨history, self, hrun, -, hraw, hphase, htoggle, hrawToggle, hignored⟩ := hrecord
  obtain ⟨self', actions, hstep, hiff⟩ :=
    inert_iff_of_session hrun hraw ⟨rfl, rfl, rfl, by decide⟩ htoggle hrawToggle
  exact ⟨history, self, self', actions, hrun, hphase, hstep, hiff.mpr hignored⟩

end SkkEngine

end Y2Skk
