import Y2Skk.Proofs.Conclude
import Y2Skk.Proofs.NoPanic
import Y2Skk.Proofs.Pending

/-!
# `Y2Skk.Proofs.OkuriRetry`: a character handed back in the okurigana

The table may settle the pending romaji and hand the character back, so that it is not
lost; `feed_kana` and `handle_midashi` type it again. `handle_okuri` drops it. What the
press comes to then depends on the kana that was settled alone.

## The handler

`handleOkuri_retry` writes the handler as a function of the kana: the character that was
typed does not occur on the other side but in the dictionary key, and there only when
nothing was pending.

## The press

A press of a character in the okurigana is taken by one of three parts of the engine,
which `taker` names: the toggle of raw mode, the toggle of direct input, or the handler.
`processKey_okuri` gives the press by its taker, and `processKey_takenBy` reads the taker
back from the state after it.

* `retry_kept_iff_of_session`: two such characters can be told apart exactly when the
  handler does not take both.
* `okuri_retry_lost`: a table where the two characters start different syllables, and are
  both lost.
-/

set_option autoImplicit false

namespace Y2Skk

open Outcome Utf8 Transition

namespace KanaTable

/-- The kana a result settles, if the character belongs to it or not. -/
def outputOf : TransitionResult → Str
  | .ok output _ => output
  | .okRetry output _ => output
  | .noMatch _ _ => []

/-- With romaji pending the dictionary key does not depend on the character typed. -/
theorem okuriKey_congr (table : KanaTable) {preState : Str} (hpending : preState ≠ [])
    (c c' : Char) : table.okuriKey preState c = table.okuriKey preState c' := by
  cases preState with
  | nil => exact absurd rfl hpending
  | cons first rest => rfl

end KanaTable

open KanaTable

namespace SkkEngine

variable {δ : Type} [DictionaryProvider δ] {self : SkkEngine δ} {midashi kanaBuf : Str}
  {okuriPrefix : Char}

/-! ### The handler -/

/-- The pending romaji is settled as `output`, on the character `lower`. -/
def okuriSettled (self : SkkEngine δ) (midashi : Str) (okuriPrefix : Char) (kanaBuf : Str)
    (lower : Char) (output : Str) : Partial (SkkEngine δ × List EngineAction) :=
  if !output.isEmpty then
    SkkEngine.convertOkuri { self with kanaState := [] } midashi self.kanaState lower
      (kanaBuf ++ output)
  else { self with kanaState := [], phase := .okuri midashi okuriPrefix kanaBuf }.redraw

/-- A character that is handed back is dropped: the handler goes on with the kana alone. -/
theorem handleOkuri_retry {c retry : Char} (hlower : c.toLower = c)
    (hretry : retryOf (self.kanaTable.transition self.kanaState c .hiragana) = some retry) :
    self.handleOkuri (.press (.char c) {}) midashi okuriPrefix kanaBuf =
      self.okuriSettled midashi okuriPrefix kanaBuf c
        (outputOf (self.kanaTable.transition self.kanaState c .hiragana)) := by
  unfold handleOkuri
  rw [if_neg (by simp [KeyEvent.press]), if_neg (by simp [KeyEvent.press])]
  simp only [KeyEvent.press, KeyEvent.printableChar, hlower]
  cases htable : self.kanaTable.transition self.kanaState c .hiragana with
  | ok output nextState =>
      rw [htable] at hretry
      cases hretry
  | okRetry output retry => rfl
  | noMatch flush retry => rfl

/-- The settled kana decides everything, once romaji was pending. -/
theorem okuriSettled_congr (hpending : self.kanaState ≠ []) (c c' : Char) (output : Str) :
    self.okuriSettled midashi okuriPrefix kanaBuf c output =
      self.okuriSettled midashi okuriPrefix kanaBuf c' output := by
  unfold okuriSettled convertOkuri
  dsimp only
  rw [okuriKey_congr self.kanaTable hpending c c']

/-- The handler leaves neither to raw mode nor to direct input. It draws the okurigana, opens a
selection or opens a registration. -/
theorem okuriSettled_yields (self : SkkEngine δ) (midashi : Str) (okuriPrefix : Char)
    (kanaBuf : Str) (lower : Char) (output : Str) :
    Yields (self.okuriSettled midashi okuriPrefix kanaBuf lower output) fun r =>
      r.1.rawMode = self.rawMode ∧ r.1.phase ≠ .ascii := by
  -- A kana that goes on redraws the okurigana, and one that is complete looks it up.
  unfold okuriSettled convertOkuri
  refine Yields.ite (fun _ => ?_) fun _ => ?_
  · refine (startConversion_yields _ _ _).mono ?_
    rintro _ (⟨preedit, rfl⟩ | ⟨s, actions, -, -, -, -, rfl⟩)
    · exact ⟨rfl, by simp [pushFrame]⟩
    · exact ⟨rfl, by simp⟩
  · refine (redraw_yields _).mono ?_
    rintro _ ⟨preedit, rfl⟩
    exact ⟨rfl, by simp⟩

/-! ### The press -/

/-- Who takes the press of a character: the raw-mode toggle, the toggle of direct input, or the
handler of the phase (in raw mode, nobody). -/
inductive Taker where
  | rawToggle
  | toggle
  | handler
  deriving DecidableEq

/-- The toggles come before the handler, that of raw mode first; raw mode leaves the second one
out. -/
def taker (self : SkkEngine δ) (event : KeyEvent) : Taker :=
  if self.isRawToggle event then .rawToggle
  else if !self.rawMode && self.isToggle event then .toggle
  else .handler

/-- The raw-mode toggle, as it acts in the okurigana: on, it takes the preedit with it; off, it
draws it. -/
def flipRawMode (self : SkkEngine δ) : Partial (SkkEngine δ × List EngineAction) :=
  if self.rawMode then do
    let self := { self with rawMode := false }
    return (self, ← self.renderCurrentPhase)
  else .ok ({ self with rawMode := true }, [.hideCandidates, .clearPreedit])

section Press
variable [EucJp]

/-- What whoever takes the press makes of it. -/
def takeOkuri (self : SkkEngine δ) (event : KeyEvent) (midashi : Str) (okuriPrefix : Char)
    (kanaBuf : Str) : Taker → Partial (SkkEngine δ × List EngineAction)
  | .rawToggle => self.flipRawMode
  | .toggle => .ok self.toggle
  | .handler =>
      if self.rawMode then .ok (self, [.passthrough])
      else self.handleOkuri event midashi okuriPrefix kanaBuf >>= conclude

/-- The press of a character in the okurigana, before the status update. It is taken by the
toggle of raw mode, by the toggle of direct input, or by the handler of the okurigana, and
`taker` says which. -/
theorem handlePress_okuri (hphase : self.phase = .okuri midashi okuriPrefix kanaBuf) (c : Char) :
    self.handlePress (.press (.char c) {}) = self.takeOkuri (.press (.char c) {}) midashi
      okuriPrefix kanaBuf (self.taker (.press (.char c) {})) := by
  have hkey : self.registrationKey (.press (.char c) {}) = none :=
    registrationKey_of_flushText (by rw [hphase]; rfl) (by simp [isCtrlG, KeyEvent.press])
      (by simp [KeyEvent.press])
  have hdispatch : self.dispatch (.press (.char c) {}) =
      self.handleOkuri (.press (.char c) {}) midashi okuriPrefix kanaBuf := by
    rw [dispatch, hphase]
  unfold handlePress taker
  by_cases hraw : self.isRawToggle (.press (.char c) {})
  · rw [if_pos hraw, if_pos hraw, if_pos hraw]
    rfl
  rw [if_neg hraw, if_neg hraw, if_neg hraw]
  cases hmode : self.rawMode with
  | true =>
      -- In raw mode the key is passed on, whatever it is.
      show _ = self.takeOkuri (.press (.char c) {}) midashi okuriPrefix kanaBuf .handler
      rw [takeOkuri, if_pos hmode]
      rfl
  | false =>
      show self.handleCooked (.press (.char c) {}) = _
      cases htoggle : self.isToggle (.press (.char c) {}) with
      | true =>
          show _ = self.takeOkuri (.press (.char c) {}) midashi okuriPrefix kanaBuf .toggle
          unfold handleCooked
          rw [hkey]
          exact if_pos htoggle
      | false =>
          show _ = self.takeOkuri (.press (.char c) {}) midashi okuriPrefix kanaBuf .handler
          rw [handleCooked_eq hkey htoggle, hdispatch, takeOkuri, if_neg (by simp [hmode])]

/-- The press as a whole: what its taker makes of it, and the status update behind it. -/
theorem processKey_okuri (hphase : self.phase = .okuri midashi okuriPrefix kanaBuf) (c : Char) :
    self.processKey (.press (.char c) {}) = (do
      let r ← self.takeOkuri (.press (.char c) {}) midashi okuriPrefix kanaBuf
        (self.taker (.press (.char c) {}))
      .ok (withStatus self.currentModeIndicator r)) := by
  rw [← handlePress_okuri hphase c]
  rfl

section Two
variable {c₁ c₂ retry₁ retry₂ : Char}

/-- Two characters that are handed back, with the same kana settled before them. -/
structure HandedBack (engine : SkkEngine δ) (c₁ c₂ retry₁ retry₂ : Char) : Prop where
  lower₁ : c₁.toLower = c₁
  lower₂ : c₂.toLower = c₂
  retry₁ : retryOf (engine.kanaTable.transition engine.kanaState c₁ .hiragana) = some retry₁
  retry₂ : retryOf (engine.kanaTable.transition engine.kanaState c₂ .hiragana) = some retry₂
  output : outputOf (engine.kanaTable.transition engine.kanaState c₁ .hiragana) =
    outputOf (engine.kanaTable.transition engine.kanaState c₂ .hiragana)

omit [DictionaryProvider δ] [EucJp] in
/-- It is enough that the table settles the same kana before both characters. Then both leave
the same text and state but for the character that is handed back. -/
theorem HandedBack.of_okRetry {output : Str} (hlower₁ : c₁.toLower = c₁) (hlower₂ : c₂.toLower = c₂)
    (h₁ : self.kanaTable.transition self.kanaState c₁ .hiragana = .okRetry output retry₁)
    (h₂ : self.kanaTable.transition self.kanaState c₂ .hiragana = .okRetry output retry₂) :
    self.HandedBack c₁ c₂ retry₁ retry₂ where
  lower₁ := hlower₁
  lower₂ := hlower₂
  retry₁ := by rw [h₁]; rfl
  retry₂ := by rw [h₂]; rfl
  output := by rw [h₁, h₂]; rfl

/-- With the same taker the presses are one and the same: a toggle key does not look at its
character, and the handler uses only what the table answers. -/
theorem processKey_congr (hphase : self.phase = .okuri midashi okuriPrefix kanaBuf)
    (h : self.HandedBack c₁ c₂ retry₁ retry₂)
    (htaker : self.taker (.press (.char c₁) {}) = self.taker (.press (.char c₂) {})) :
    self.processKey (.press (.char c₁) {}) = self.processKey (.press (.char c₂) {}) := by
  have hhandled : self.handleOkuri (.press (.char c₁) {}) midashi okuriPrefix kanaBuf =
      self.handleOkuri (.press (.char c₂) {}) midashi okuriPrefix kanaBuf := by
    rw [handleOkuri_retry h.lower₁ h.retry₁, handleOkuri_retry h.lower₂ h.retry₂, h.output]
    exact okuriSettled_congr (ne_nil_of_retry h.retry₁) c₁ c₂ _
  have htaken : self.takeOkuri (.press (.char c₁) {}) midashi okuriPrefix kanaBuf =
      self.takeOkuri (.press (.char c₂) {}) midashi okuriPrefix kanaBuf := by
    funext taker
    cases taker with
    | rawToggle => rfl
    | toggle => rfl
    | handler => rw [takeOkuri, hhandled, takeOkuri]
  rw [processKey_okuri hphase, processKey_okuri hphase, htaker, htaken]

/-- What tells the takers apart. -/
def TakenBy (start : SkkEngine δ) (r : SkkEngine δ × List EngineAction) : Taker → Prop
  | .rawToggle => r.1.rawMode = !start.rawMode
  | .toggle => r.1.rawMode = start.rawMode ∧ r.1.phase = .ascii
  | .handler => r.1.rawMode = start.rawMode ∧ r.1.phase ≠ .ascii

omit [DictionaryProvider δ] [EucJp] in
/-- A press shows one taker only: no two of the three descriptions fit the same state. -/
theorem TakenBy.unique {r : SkkEngine δ × List EngineAction} {taker taker' : Taker}
    (h : TakenBy self r taker) (h' : TakenBy self r taker') : taker = taker' := by
  cases taker <;> cases taker' <;> simp_all [TakenBy]

/-- Every press shows who took it: raw mode is flipped, direct input is entered, or neither. So
two presses with different takers cannot lead to one result. -/
theorem processKey_takenBy {c retry : Char}
    (hphase : self.phase = .okuri midashi okuriPrefix kanaBuf) (hlower : c.toLower = c)
    (hretry : retryOf (self.kanaTable.transition self.kanaState c .hiragana) = some retry) :
    Yields (self.processKey (.press (.char c) {})) fun r =>
      TakenBy self r (self.taker (.press (.char c) {})) := by
  rw [processKey_okuri hphase]
  -- The status update leaves the state alone.
  refine Yields.bind (P := fun r => TakenBy self r (self.taker (.press (.char c) {}))) ?_
    fun r hr => yields_ok.mpr (by exact hr)
  unfold takeOkuri
  cases htaker : self.taker (.press (.char c) {}) with
  | rawToggle =>
      unfold flipRawMode
      refine Yields.ite (fun hraw => ?_) fun hraw => yields_ok.mpr ?_
      · exact Yields.bind (Yields.of_forall fun _ => trivial) fun _ _ =>
          yields_pure.mpr (by simp [TakenBy, hraw])
      · simp [TakenBy, hraw]
  | toggle =>
      refine yields_ok.mpr ?_
      unfold toggle
      rw [if_neg (by simp [hphase])]
      exact ⟨rfl, rfl⟩
  | handler =>
      refine Yields.ite (fun _ => yields_ok.mpr ⟨rfl, by simp [hphase]⟩) fun _ => ?_
      rw [handleOkuri_retry hlower hretry]
      have hsettled := okuriSettled_yields self midashi okuriPrefix kanaBuf c
        (outputOf (self.kanaTable.transition self.kanaState c .hiragana))
      refine Yields.bind hsettled fun r hr => (conclude_yields r).mono ?_
      rintro r' ⟨stack, -, hstate⟩
      show r'.1.rawMode = self.rawMode ∧ r'.1.phase ≠ .ascii
      rw [hstate]
      exact hr

/-- In every run: two characters that are handed back, with the same kana settled, lead to
different states or actions exactly when they are not taken by the same part of the engine. -/
theorem retry_kept_iff_of_session {kanaTable : KanaTable} {keybindings : SkkKeybindings}
    {lispDirectives : Bool} {initialPhase : SkkPhase} {providers : List δ} {history : History δ}
    (hrun : Session (fresh kanaTable keybindings lispDirectives initialPhase providers)
      history self)
    (hphase : self.phase = .okuri midashi okuriPrefix kanaBuf)
    (h : self.HandedBack c₁ c₂ retry₁ retry₂) :
    self.processKey (.press (.char c₁) {}) ≠ self.processKey (.press (.char c₂) {}) ↔
      self.taker (.press (.char c₁) {}) ≠ self.taker (.press (.char c₂) {}) := by
  constructor
  · intro hdiffer htaker
    exact hdiffer (processKey_congr hphase h htaker)
  · intro htaker hsame
    obtain ⟨r, hr, -⟩ := processKey_wf (Session.wf (fresh_wf ..) hrun) (.press (.char c₁) {})
    have htaken₁ := processKey_takenBy hphase h.lower₁ h.retry₁ r hr
    have htaken₂ := processKey_takenBy hphase h.lower₂ h.retry₂ r (hsame ▸ hr)
    exact htaker (htaken₁.unique htaken₂)

end Two

/-- A kana table with `n` before any other consonant, and the rows of `d` and `g`. -/
def voicedTable : KanaTable :=
  ⟨nasalTable.transitions ++ [⟨[], .char 'd', ['d'], []⟩, ⟨['d'], .char 'e', [], ['で']⟩,
    ⟨[], .char 'g', ['g'], []⟩, ⟨['g'], .char 'e', [], ['げ']⟩], [], []⟩

omit [EucJp] in
/-- After the pending `n` of the okurigana, `d` and `g` are both dropped. The table hands either
back with the same kana settled, and the handler does not feed it again, although the two begin
different syllables. -/
theorem okuri_retry_lost :
    letI := EucJp.empty
    ∃ (history : History Empty) (self : SkkEngine Empty),
      Session (fresh voicedTable {} true .hiragana []) history self ∧
      history.map Visit.input = KeyEvent.typed ['A', 'N'] ∧
      self.phase = .okuri ['あ'] 'n' [] ∧
      self.kanaTable.transition self.kanaState 'd' .hiragana = .okRetry ['ん'] 'd' ∧
      self.kanaTable.transition self.kanaState 'g' .hiragana = .okRetry ['ん'] 'g' ∧
      self.kanaTable.transition [] 'd' .hiragana ≠ self.kanaTable.transition [] 'g' .hiragana ∧
      self.processKey (.press (.char 'd') {}) = self.processKey (.press (.char 'g') {}) := by
  let _ := EucJp.empty
  have hrecord := exists_session (fresh voicedTable {} true .hiragana [])
    (KeyEvent.typed ['A', 'N']) (fun _ (self : SkkEngine Empty) =>
      self.phase = .okuri ['あ'] 'n' [] ∧
      self.kanaTable.transition self.kanaState 'd' .hiragana = .okRetry ['ん'] 'd' ∧
      self.kanaTable.transition self.kanaState 'g' .hiragana = .okRetry ['ん'] 'g' ∧
      self.kanaTable.transition [] 'd' .hiragana ≠ self.kanaTable.transition [] 'g' .hiragana ∧
      self.taker (.press (.char 'd') {}) = self.taker (.press (.char 'g') {}))
    (by decide +kernel)
  obtain ⟨history, self, hrun, hinputs, hphase, hd, hg, hrows, htaker⟩ := hrecord
  have hback : self.HandedBack 'd' 'g' 'd' 'g' := .of_okRetry (by decide) (by decide) hd hg
  exact ⟨history, self, hrun, hinputs, hphase, hd, hg, hrows, processKey_congr hphase hback htaker⟩

omit [EucJp] in
/-- With `d` as the toggle key of direct input the two presses differ: the one toggles, and the
other one goes to the handler. -/
theorem retry_kept_iff_of_session_toggle :
    letI := EucJp.empty
    ∃ (history : History Empty) (self : SkkEngine Empty),
      Session (fresh voicedTable { toggleKeys := [(.char 'd', {})] } true .hiragana [])
        history self ∧
      self.phase = .okuri ['あ'] 'n' [] ∧
      self.processKey (.press (.char 'd') {}) ≠ self.processKey (.press (.char 'g') {}) := by
  let _ := EucJp.empty
  have hrecord := exists_session
    (fresh voicedTable { toggleKeys := [(.char 'd', {})] } true .hiragana [])
    (KeyEvent.typed ['A', 'N']) (fun _ (self : SkkEngine Empty) =>
      self.phase = .okuri ['あ'] 'n' [] ∧
      self.kanaTable.transition self.kanaState 'd' .hiragana = .okRetry ['ん'] 'd' ∧
      self.kanaTable.transition self.kanaState 'g' .hiragana = .okRetry ['ん'] 'g' ∧
      self.taker (.press (.char 'd') {}) ≠ self.taker (.press (.char 'g') {}))
    (by decide +kernel)
  obtain ⟨history, self, hrun, -, hphase, hd, hg, htaker⟩ := hrecord
  have hback : self.HandedBack 'd' 'g' 'd' 'g' := .of_okRetry (by decide) (by decide) hd hg
  exact ⟨history, self, hrun, hphase, (retry_kept_iff_of_session hrun hphase hback).mpr htaker⟩

end Press

end SkkEngine

end Y2Skk
