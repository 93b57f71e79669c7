import Y2Skk.Proofs.Reading
import Y2Skk.Proofs.Retype

/-!
# `Y2Skk.Proofs.OkuriStart`: an uppercase letter after pending romaji

An uppercase letter in a reading starts its okurigana. When the letter does not continue
the pending romaji, the table settles that to a kana first, and the kana can go to the
reading or to the okurigana.

## The two presses

`withReading` is the reading with the kana, and nothing pending.
`startsAlike_iff_of_session` compares the letter pressed in it with the letter pressed in
the state that is. The code sends the kana to the okurigana, so that the two agree in a
few cases only, which `StartsAlike` lists.

## How they are told apart

The two presses are told apart by what they look up.

* `okuri_alike_iff`: after a kana, the press looks up the reading without the kana, the
  other one the reading with it. Only romaji that settles to nothing can make them agree.
* `first_alike_iff`: before the first kana the letter is typed into the reading and starts
  no okurigana, so that the two agree when the letter ends the reading in either case.
* `StartsOkuri` and `StaysOpen` are what either press may leave behind.
-/

set_option autoImplicit false

namespace Y2Skk

open Outcome Utf8 Transition

/-- The lower-case form of a letter is one of `a` to `z`, and so it is a character that the
table may have rules for. -/
theorem toLower_range {c : Char} (h : c.isUpper) :
    97 ≤ c.toLower.toNat ∧ c.toLower.toNat ≤ 122 := by
  have hrange : c.val ≥ 'A'.val ∧ c.val ≤ 'Z'.val := of_decide_eq_true h
  have hlower : c.toLower.val = c.val + ('a'.val - 'A'.val) := by
    unfold Char.toLower
    rw [dif_pos hrange]
  have hnat : c.toLower.toNat = c.toLower.val.toNat := rfl
  have := isUpper_range h
  have hval : c.val.toNat = c.toNat := rfl
  rw [hnat, hlower]
  simp [UInt32.toNat_add]
  omega

/-- The lower-case form of a letter is a letter that types kana: it is ASCII, and neither an
affix character, nor a digit, nor a capital. So in a reading it passes by the commands that come
before the table. -/
theorem toLower_plain {c : Char} (h : c.isUpper) :
    isAscii c.toLower ∧ isAffixChar c.toLower = false ∧ c.toLower.isDigit = false ∧
      c.toLower.isUpper = false := by
  have hrange := toLower_range h
  refine ⟨decide_eq_true (by omega), ?_, ?_, ?_⟩
  · have hne : c.toLower ≠ '>' ∧ c.toLower ≠ '<' ∧ c.toLower ≠ '?' := by
      refine ⟨?_, ?_, ?_⟩
      all_goals
        intro heq
        rw [heq] at hrange
        exact absurd hrange (by decide)
    simp [isAffixChar, hne]
  · cases hdigit : c.toLower.isDigit with
    | false => rfl
    | true =>
        have := isDigit_range hdigit
        omega
  · cases hupper : c.toLower.isUpper with
    | false => rfl
    | true =>
        have := isUpper_range hupper
        omega

/-- The character handed back is the one that was typed, so a retry is about the same character
in the start state. -/
theorem KanaTable.transition_okRetry_eq {table : KanaTable} {state output : Str} {c retry : Char}
    {mode : KanaMode} (h : table.transition state c mode = .okRetry output retry) : retry = c := by
  unfold transition at h
  dsimp only at h
  split at h
  · cases h
  split at h
  · split at h
    · split at h
      · cases h
      · cases h
        rfl
    · cases h
  · split at h
    · cases h
    · cases h

namespace SkkEngine

variable {δ : Type} [DictionaryProvider δ]

/-- The state with the reading `reading` and nothing pending: the kana has been added to the
reading. -/
def withReading (self : SkkEngine δ) (reading : Str) : SkkEngine δ :=
  { self with phase := .midashi reading [], kanaState := [] }

/-- The table does nothing with a letter typed in the start state. -/
def idles (self : SkkEngine δ) (lower : Char) : Bool :=
  match self.kanaTable.transition [] lower .hiragana with
  | .ok output nextState => output.isEmpty && nextState.isEmpty
  | _ => true

/-- The two presses come to the same. Either the romaji settles to nothing, begins with the
letter itself, and the table has no use for the letter. Or there is no kana in the reading yet,
and the letter ends the reading whether it is upper- or lowercase, with the same trigger text. -/
def StartsAlike (self : SkkEngine δ) (c : Char) (kanaBuf output : Str) : Prop :=
  if kanaBuf = [] then
    c ∈ self.keybindings.conversionTriggerChars ∧
      self.endingText c.toLower = some (self.triggerOutput c)
  else
    output = [] ∧ c ∉ self.keybindings.conversionTriggerChars ∧
      self.kanaState.head? = some c.toLower ∧ self.idles c.toLower

variable {self : SkkEngine δ} {event : KeyEvent} {c : Char} {kanaBuf : Str}

/-! ### The letter in a reading -/

/-- An uppercase letter after a kana: with nothing pending a trigger looks the reading up, and
any other letter starts the okurigana. -/
theorem handleMidashi_okuri (hkey : event.key = .char c) (hupper : c.isUpper)
    (hkanaBuf : kanaBuf ≠ []) (fuel : Nat) (romanBuf : Str) :
    self.handleMidashi (fuel + 1) event kanaBuf romanBuf =
      if self.kanaState.isEmpty ∧ c ∈ self.keybindings.conversionTriggerChars then
        self.convertOnTrigger (flushN kanaBuf romanBuf) (self.triggerOutput c)
      else self.midashiOkuri event c kanaBuf := by
  obtain ⟨hascii, haffix, hdigit, hq⟩ := isUpper_plain hupper
  have hprintable : event.printableChar = some c := by rw [KeyEvent.printableChar, hkey]
  have hsome : kanaBuf.isEmpty = false := by simpa using hkanaBuf
  unfold handleMidashi
  rw [hprintable]
  simp only [hkey, Key.char.injEq, reduceCtorEq, false_and, if_false, Bool.false_eq_true, hq,
    hascii, haffix, hdigit, hupper, hsome, true_and, Bool.not_false, and_true, if_true]

/-- Pending romaji that the letter does not continue goes to the okurigana: its kana is looked
up at once, and without a kana the okurigana is still empty. The letter itself is gone in either
case. -/
theorem midashiOkuri_retry (hkey : event.key = .char c) {output : Str} {retry : Char}
    (hretry : self.kanaTable.transition self.kanaState c.toLower .hiragana =
      .okRetry output retry) :
    self.midashiOkuri event c kanaBuf =
      if output = [] then
        SkkEngine.redraw { self with
          completion := none
          kanaState := []
          phase := .okuri kanaBuf (self.kanaState.head?.getD c.toLower) [] }
      else
        SkkEngine.convertOkuri { self with
          completion := none
          kanaState := []
          phase := .okuri kanaBuf (self.kanaState.head?.getD c.toLower) [] }
          kanaBuf self.kanaState c.toLower output := by
  -- The letter is handed back, so it settles no consonant.
  have hsettles : SkkEngine.settlesConsonant { self with completion := none } c.toLower = none := by
    unfold settlesConsonant
    dsimp only
    rw [hretry]
    simp
  unfold midashiOkuri
  dsimp only
  rw [hsettles]
  unfold handleOkuri
  simp only [hkey, reduceCtorEq, if_false, KeyEvent.printableChar, hretry]
  by_cases hout : output = []
  · simp [hout, SkkPhase.cloneMidashi]
  · simp [hout, SkkPhase.cloneMidashi]

/-- With nothing pending the letter is fed to the table as the first of the okurigana. A kana
completes the okurigana, and is looked up. Anything else is waited for. -/
theorem midashiOkuri_fresh (hkey : event.key = .char c) (hpending : self.kanaState = []) :
    self.midashiOkuri event c kanaBuf =
      match self.kanaTable.transition [] c.toLower .hiragana with
      | .ok output nextState =>
          if output ≠ [] ∧ nextState = [] then
            SkkEngine.convertOkuri { self with
              completion := none
              kanaState := []
              phase := .okuri kanaBuf c.toLower [] }
              kanaBuf [] c.toLower output
          else
            SkkEngine.redraw { self with
              completion := none
              kanaState := nextState
              phase := .okuri kanaBuf c.toLower output }
      | _ =>
          SkkEngine.redraw { self with
            completion := none
            kanaState := []
            phase := .okuri kanaBuf c.toLower [] } := by
  have hsettles : SkkEngine.settlesConsonant { self with completion := none } c.toLower = none := by
    unfold settlesConsonant
    dsimp only
    rw [hpending]
    rfl
  unfold midashiOkuri
  dsimp only
  rw [hsettles]
  unfold handleOkuri
  simp only [hkey, reduceCtorEq, if_false, KeyEvent.printableChar, hpending,
    List.head?_nil, Option.getD_none, List.nil_append]
  -- from its start state the table takes a character or has no rule; it hands nothing back
  obtain ⟨output, nextState, hcase⟩ | ⟨flush, hcase⟩ :=
    self.kanaTable.transition_nil_cases c.toLower .hiragana
  · rw [hcase]
    by_cases hdone : output ≠ [] ∧ nextState = []
    · simp [hdone, SkkPhase.cloneMidashi]
    · have hnot : ¬ ((!output.isEmpty) = true ∧ nextState.isEmpty = true) := by simpa using hdone
      simp only [hdone, hnot, if_false]
      rfl
  · rw [hcase]
    rfl

/-! ### The letter as the first of a reading -/

/-- The first letter of a reading that romaji is pending for: the kana is the reading, and the
letter is typed in it in lower case. -/
theorem handleMidashi_first (hkey : event.key = .char c) {output : Str} {retry : Char}
    (hupper : c.isUpper) (fuel : Nat) (romanBuf : Str)
    (hretry : self.kanaTable.transition self.kanaState c.toLower .hiragana =
      .okRetry output retry) :
    self.handleMidashi (fuel + 1) event [] romanBuf =
      SkkEngine.handleMidashi fuel (self.withReading output) (.press (.char c.toLower) {})
        output [] := by
  obtain ⟨hascii, haffix, hdigit, hq⟩ := isUpper_plain hupper
  have hprintable : event.printableChar = some c := by rw [KeyEvent.printableChar, hkey]
  have hempty : self.kanaState.isEmpty = false := by
    simpa using KanaTable.transition_okRetry_ne_nil hretry
  have hsame := KanaTable.transition_okRetry_eq hretry
  subst hsame
  -- Only the outer call is unfolded: the inner one is the letter handed back.
  conv_lhs => unfold handleMidashi
  rw [hprintable]
  simp only [hkey, Key.char.injEq, reduceCtorEq, false_and, if_false, Bool.false_eq_true,
    and_false, hq, haffix, hdigit, hempty, List.isEmpty_nil, Bool.not_true, List.nil_append, hretry]
  rfl

/-- A lower-case letter typed in a reading with nothing pending. It converts when it is a
trigger, it is fed to the table otherwise, and `q` is the one letter that means something
without a rule. -/
theorem handleMidashi_refed (hupper : c.isUpper) (hkanaBuf : kanaBuf ≠ []) (fuel : Nat) :
    SkkEngine.handleMidashi (fuel + 1) (self.withReading kanaBuf) (.press (.char c.toLower) {})
        kanaBuf [] =
      if c.toLower ∈ self.keybindings.conversionTriggerChars then
        (self.withReading kanaBuf).convertOnTrigger kanaBuf (self.triggerOutput c.toLower)
      else
        match self.kanaTable.transition [] c.toLower.toLower .hiragana with
        | .ok output nextState => (self.withReading kanaBuf).midashiFeed kanaBuf output nextState
        | _ =>
            if c.toLower = 'q' then (self.withReading kanaBuf).midashiToggleKana kanaBuf
            else (self.withReading kanaBuf).redraw := by
  obtain ⟨hascii, haffix, hdigit, hlower⟩ := toLower_plain hupper
  have hprintable : (KeyEvent.press (.char c.toLower) {}).printableChar = some c.toLower := rfl
  have hsome : kanaBuf.isEmpty = false := by simpa using hkanaBuf
  unfold handleMidashi
  rw [hprintable]
  simp only [KeyEvent.press, withReading, reduceCtorEq, if_false, Bool.false_eq_true,
    and_false, hascii, haffix, hdigit, hlower, true_and, List.isEmpty_nil, Bool.not_false,
    hsome, and_true, flushN]
  obtain ⟨output, nextState, hcase⟩ | ⟨flush, hcase⟩ :=
    self.kanaTable.transition_nil_cases c.toLower.toLower .hiragana
  · rw [hcase]
    rfl
  · rw [hcase]
    rfl

/-- The letter ends the reading with its trigger text: as an ASCII trigger, or as a kana that is
one. -/
theorem refed_closing (hupper : c.isUpper) (hkanaBuf : kanaBuf ≠ []) (fuel : Nat) {text : Str}
    (h : self.endingText c.toLower = some text) :
    SkkEngine.handleMidashi (fuel + 1) (self.withReading kanaBuf) (.press (.char c.toLower) {})
      kanaBuf [] = (self.withReading kanaBuf).convertOnTrigger kanaBuf text := by
  rw [handleMidashi_refed hupper hkanaBuf]
  unfold endingText at h
  split at h
  · rename_i htrigger
    cases h
    rw [if_pos htrigger]
  · rename_i htrigger
    rw [if_neg htrigger]
    split at h
    · rename_i last hcase
      obtain ⟨found, hends, rfl⟩ := Option.map_eq_some_iff.mp h
      obtain rfl : last = found := by simpa using endsInTrigger_eq_some hends
      -- The reading in front does not change what it ends in.
      have hlonger : (self.withReading kanaBuf).endsInTrigger (kanaBuf ++ [last]) = some last := by
        unfold endsInTrigger at hends ⊢
        rw [List.getLast?_append, List.getLast?_singleton]
        exact hends
      rw [hcase]
      dsimp only
      rw [midashiFeed_trigger (by simp) hlonger, List.dropLast_concat]
      rfl
    · cases h

omit [DictionaryProvider δ] in
/-- A handler that looks nothing up has looked nothing up after its actions are delivered
either. -/
theorem conclude_quiet {start : SkkEngine δ} {r : SkkEngine δ × List EngineAction}
    (hsel : r.1.phase.selection? = none) (hstack : r.1.registerStack = start.registerStack) :
    Yields (conclude r) fun r' => start.lookedUp r'.1 = none ∧ r'.1.phase = r.1.phase ∧
      r'.1.kanaState = r.1.kanaState := by
  refine (conclude_yields r).mono ?_
  rintro r' ⟨stack, htargets, hstate⟩
  rw [hstate]
  refine ⟨lookedUp_eq_none hsel ?_, rfl, rfl⟩
  rw [← hstack]
  exact htargets.length_eq.symm

omit [DictionaryProvider δ] in
/-- A redraw looks nothing up, and leaves the phase and the pending romaji alone, with the
registration behind it or without. -/
theorem redraw_quiet {start mid : SkkEngine δ} (hsel : mid.phase.selection? = none)
    (hstack : mid.registerStack = start.registerStack) :
    Yields (do
      let r ← mid.redraw
      conclude r) fun r' => start.lookedUp r'.1 = none ∧ r'.1.phase = mid.phase ∧
        r'.1.kanaState = mid.kanaState := by
  refine (redraw_yields mid).bind ?_
  rintro _ ⟨preedit, rfl⟩
  exact conclude_quiet hsel hstack

/-- The letter does not end the reading `kanaBuf`: nothing is looked up and no okurigana
starts, or it is another reading that is looked up. -/
def StaysOpen (self : SkkEngine δ) (kanaBuf : Str) (r : SkkEngine δ × List EngineAction) : Prop :=
  (self.lookedUp r.1 = none ∧ ∀ midashi first typed, r.1.phase ≠ .okuri midashi first typed) ∨
    ∃ reading, reading ≠ kanaBuf ∧ self.lookedUp r.1 = some (reading, none)

omit [DictionaryProvider δ] in
/-- So a redrawn reading is still open: nothing was looked up, and the phase is no okurigana. -/
theorem redraw_staysOpen {mid : SkkEngine δ} {reading romanBuf : Str}
    (hphase : mid.phase = .midashi reading romanBuf)
    (hstack : mid.registerStack = self.registerStack) :
    Yields (do
      let r ← mid.redraw
      conclude r) (self.StaysOpen kanaBuf) := by
  refine (redraw_quiet (by rw [hphase]; rfl) hstack).mono ?_
  rintro r ⟨hlooked, hsame, -⟩
  refine .inl ⟨hlooked, fun midashi first typed heq => ?_⟩
  rw [hsame, hphase] at heq
  cases heq

omit [DictionaryProvider δ] in
/-- `q` commits the reading in the other script. The phase is a kana mode then, so no okurigana
has started. -/
theorem midashiToggleKana_staysOpen {mid : SkkEngine δ}
    (hstack : mid.registerStack = self.registerStack) (reading : Str) :
    Yields (do
      let r ← mid.midashiToggleKana reading
      conclude r) (self.StaysOpen kanaBuf) := by
  unfold midashiToggleKana
  rw [ok_bind]
  have hplain := KanaMode.isPlain_toPhase mid.midashiDisplayMode
  refine (conclude_quiet (selection?_of_isPlain hplain) hstack).mono ?_
  rintro r ⟨hlooked, hsame, -⟩
  refine .inl ⟨hlooked, fun midashi first typed heq => ?_⟩
  have hokuri : mid.midashiDisplayMode.toPhase = .okuri midashi first typed := hsame.symm.trans heq
  rw [hokuri] at hplain
  cases hplain

/-- A kana that is no trigger on its own, and ends in one, makes the reading longer. -/
theorem midashiFeed_staysOpen (hkanaBuf : kanaBuf ≠ []) {output nextState : Str}
    (h : self.endingText c = none)
    (htrans : self.kanaTable.transition [] c.toLower .hiragana = .ok output nextState) :
    Yields (do
      let r ← (self.withReading kanaBuf).midashiFeed kanaBuf output nextState
      conclude r) (self.StaysOpen kanaBuf) := by
  obtain ⟨last, hout, rfl, hends, hfed⟩ | ⟨-, completion, hfed⟩ :=
    (self.withReading kanaBuf).midashiFeed_cases kanaBuf output nextState
  · rw [endsInTrigger_append hout] at hends
    have hmore : output.dropLast ≠ [] := dropLast_ne_nil_of_endingText h htrans hends
    rw [hfed, List.dropLast_append_of_ne_nil hout, convertOnTrigger,
      if_neg (by simp [hkanaBuf])]
    refine (startConversion_lookedUp (by rfl) (kanaBuf ++ output.dropLast) none).mono ?_
    rintro r ⟨hlooked, -⟩
    exact .inr ⟨_, by simpa using hmore, hlooked⟩
  · rw [hfed]
    exact redraw_staysOpen rfl rfl

/-- Otherwise it is typed on, or ends a longer reading. The cases are those of the table for the
letter in the start state. -/
theorem refed_open (hupper : c.isUpper) (hkanaBuf : kanaBuf ≠ []) (fuel : Nat)
    (h : self.endingText c.toLower = none) :
    Yields (do
      let r ← SkkEngine.handleMidashi (fuel + 1) (self.withReading kanaBuf)
        (.press (.char c.toLower) {}) kanaBuf []
      conclude r) (self.StaysOpen kanaBuf) := by
  have htrigger : c.toLower ∉ self.keybindings.conversionTriggerChars := by
    intro htrigger
    rw [endingText, if_pos htrigger] at h
    cases h
  rw [handleMidashi_refed hupper hkanaBuf, if_neg htrigger]
  -- The letter is the start of a kana or a kana of its own, or no romaji at all.
  cases hcase : self.kanaTable.transition [] c.toLower.toLower .hiragana with
  | ok output nextState => exact midashiFeed_staysOpen hkanaBuf h hcase
  | okRetry output retry | noMatch flush retry =>
      dsimp only
      split
      · exact midashiToggleKana_staysOpen rfl kanaBuf
      · exact redraw_staysOpen rfl rfl

/-! ### The two presses compared -/

/-- What an uppercase letter does with nothing pending. A trigger looks the reading up. Any
other letter is the first of an okurigana, which is looked up at once or typed on. -/
def StartsOkuri (self : SkkEngine δ) (c : Char) (reading : Str)
    (r : SkkEngine δ × List EngineAction) : Prop :=
  if c ∈ self.keybindings.conversionTriggerChars then
    self.lookedUp r.1 = some (reading, none) ∧
      r.1.conversionTrigger = some (self.triggerOutput c)
  else (∃ typed, self.lookedUp r.1 = some (reading, some typed)) ∨
    (self.lookedUp r.1 = none ∧ ∃ typed, r.1.phase = .okuri reading c.toLower typed ∧
      (typed = [] → r.1.kanaState = [] → self.idles c.toLower))

namespace StartsOkuri
variable {reading : Str} {r : SkkEngine δ × List EngineAction}

omit [DictionaryProvider δ] in
/-- No other reading is looked up: the key looks up this one, as it is or with an okurigana, or
none. -/
theorem reading_eq (h : self.StartsOkuri c reading r) {other : Str} {okuri : Option Str}
    (hlooked : self.lookedUp r.1 = some (other, okuri)) : other = reading := by
  unfold StartsOkuri at h
  rw [hlooked] at h
  split at h
  · exact congrArg Prod.fst (Option.some.inj h.1)
  · rcases h with ⟨typed, hsome⟩ | ⟨hnone, -⟩
    · exact congrArg Prod.fst (Option.some.inj hsome)
    · cases hnone

omit [DictionaryProvider δ] in
/-- Without an okurigana it is a trigger that looks the reading up as it is, and its text waits
for the candidate. -/
theorem of_reading (h : self.StartsOkuri c reading r) {other : Str}
    (hlooked : self.lookedUp r.1 = some (other, none)) :
    c ∈ self.keybindings.conversionTriggerChars ∧
      r.1.conversionTrigger = some (self.triggerOutput c) := by
  unfold StartsOkuri at h
  rw [hlooked] at h
  split at h
  · rename_i htrigger
    exact ⟨htrigger, h.2⟩
  · rcases h with ⟨typed, hsome⟩ | ⟨hnone, -⟩
    · cases congrArg Prod.snd (Option.some.inj hsome)
    · cases hnone

omit [DictionaryProvider δ] in
/-- Where nothing is looked up the okurigana is typed on, and an okurigana without kana and
romaji comes from a letter that the table has no use for. -/
theorem of_quiet (h : self.StartsOkuri c reading r) (hlooked : self.lookedUp r.1 = none) :
    c ∉ self.keybindings.conversionTriggerChars ∧
      ∃ typed, r.1.phase = .okuri reading c.toLower typed ∧
        (typed = [] → r.1.kanaState = [] → self.idles c.toLower) := by
  unfold StartsOkuri at h
  rw [hlooked] at h
  split at h
  · cases h.1
  · rename_i htrigger
    rcases h with ⟨typed, hsome⟩ | ⟨-, htyped⟩
    · cases hsome
    · exact ⟨htrigger, htyped⟩

end StartsOkuri

omit [DictionaryProvider δ] in
/-- The okurigana goes on: only a letter that the table does nothing with leaves no trace. -/
theorem redraw_startsOkuri (htrigger : c ∉ self.keybindings.conversionTriggerChars)
    {mid : SkkEngine δ} {typed : Str} (hphase : mid.phase = .okuri kanaBuf c.toLower typed)
    (hstack : mid.registerStack = self.registerStack)
    (hidles : typed = [] → mid.kanaState = [] → self.idles c.toLower) :
    Yields (do
      let r ← mid.redraw
      conclude r) (self.StartsOkuri c kanaBuf) := by
  refine (redraw_quiet (by rw [hphase]; rfl) hstack).mono ?_
  rintro r ⟨hlooked, hsame, hkana⟩
  rw [StartsOkuri, if_neg htrigger]
  refine .inr ⟨hlooked, typed, hsame.trans hphase, fun htyped hpending => ?_⟩
  exact hidles htyped (hkana.symm.trans hpending)

/-- A letter that is no trigger goes to the table. What it leads to after the kana is settled is
a lookup with the okurigana, or an okurigana that is waited for. -/
theorem midashiOkuri_startsOkuri (hkey : event.key = .char c)
    (htrigger : c ∉ self.keybindings.conversionTriggerChars) :
    Yields (do
      let r ← (self.withReading kanaBuf).midashiOkuri event c kanaBuf
      conclude r) (self.StartsOkuri c kanaBuf) := by
  have htable : (self.withReading kanaBuf).kanaTable = self.kanaTable := rfl
  rw [midashiOkuri_fresh hkey rfl, htable]
  cases hcase : self.kanaTable.transition [] c.toLower .hiragana with
  | ok output nextState =>
      dsimp only
      -- A kana is complete and looked up at once, or the okurigana waits for more.
      by_cases hdone : output ≠ [] ∧ nextState = []
      · rw [if_pos hdone, convertOkuri]
        refine (startConversion_lookedUp (by rfl) kanaBuf _).mono ?_
        rintro r ⟨hlooked, -⟩
        rw [StartsOkuri, if_neg htrigger]
        exact .inl ⟨output, hlooked⟩
      · rw [if_neg hdone]
        refine redraw_startsOkuri htrigger rfl rfl fun htyped hpending => ?_
        unfold idles
        rw [hcase, htyped, show nextState = [] from hpending]
        rfl
  | okRetry output retry | noMatch flush retry =>
      refine redraw_startsOkuri htrigger rfl rfl fun _ _ => ?_
      unfold idles
      rw [hcase]

/-- With nothing pending, the letter looks the reading up or starts the okurigana. A trigger is
tested first. -/
theorem fresh_startsOkuri (hkey : event.key = .char c) (hupper : c.isUpper)
    (hkanaBuf : kanaBuf ≠ []) (fuel : Nat) :
    Yields (do
      let r ← SkkEngine.handleMidashi (fuel + 1) (self.withReading kanaBuf) event kanaBuf []
      conclude r) (self.StartsOkuri c kanaBuf) := by
  have hempty : ((self.withReading kanaBuf).kanaState.isEmpty ∧
      c ∈ (self.withReading kanaBuf).keybindings.conversionTriggerChars) ↔
        c ∈ self.keybindings.conversionTriggerChars := ⟨fun h => h.2, fun h => ⟨rfl, h⟩⟩
  rw [handleMidashi_okuri hkey hupper hkanaBuf]
  by_cases htrigger : c ∈ self.keybindings.conversionTriggerChars
  · rw [if_pos (hempty.mpr htrigger), convertOnTrigger, if_neg (by simpa [flushN] using hkanaBuf)]
    refine (startConversion_lookedUp (by rfl) kanaBuf none).mono fun r hr => ?_
    rw [StartsOkuri, if_pos htrigger]
    exact hr
  · rw [if_neg (fun h => htrigger (hempty.mp h))]
    exact midashiOkuri_startsOkuri hkey htrigger

section Press
variable [EucJp] {output romanBuf : Str} {retry : Char}

/-- After a kana the romaji goes to the okurigana, and the two presses look up different
readings, unless it settles to nothing. -/
theorem okuri_alike_iff (hkey : event.key = .char c) (hself : self.Wf)
    (hphase : self.phase = .midashi kanaBuf romanBuf) (hupper : c.isUpper) (hkanaBuf : kanaBuf ≠ [])
    (hretry : self.kanaTable.transition self.kanaState c.toLower .hiragana =
      .okRetry output retry) :
    ((do
      let r ← self.handleMidashi redispatchFuel event kanaBuf romanBuf
      conclude r) = do
      let r ← SkkEngine.handleMidashi redispatchFuel (self.withReading (kanaBuf ++ output))
        event (kanaBuf ++ output) []
      conclude r) ↔ self.StartsAlike c kanaBuf output := by
  have hpending : self.kanaState ≠ [] := KanaTable.transition_okRetry_ne_nil hretry
  have hreading : kanaBuf ++ output ≠ [] := by simp [hkanaBuf]
  have hold : self.handleMidashi redispatchFuel event kanaBuf romanBuf
      = self.midashiOkuri event c kanaBuf := by
    rw [redispatchFuel, handleMidashi_okuri hkey hupper hkanaBuf]
    exact if_neg fun h => hpending (by simpa using h.1)
  have hruns : Runs (do
      let r ← self.midashiOkuri event c kanaBuf
      conclude r) fun _ => True := by
    rw [← hold, ← dispatch_midashi hphase]
    exact (dispatch_post hself _).bind fun r hr => conclude_runs hr.wf
  rw [hold]
  unfold StartsAlike
  rw [if_neg hkanaBuf]
  constructor
  · intro h
    obtain ⟨r, hr, -⟩ := hruns
    have hnew : self.StartsOkuri c (kanaBuf ++ output) r :=
      fresh_startsOkuri hkey hupper hreading 1 r (h ▸ hr)
    rw [midashiOkuri_retry hkey hretry] at hr
    by_cases hout : output = []
    · -- Both presses type the okurigana on, so the state must be the same.
      rw [if_pos hout] at hr
      have hquiet : self.lookedUp r.1 = none ∧
          r.1.phase = .okuri kanaBuf (self.kanaState.head?.getD c.toLower) [] ∧
          r.1.kanaState = [] := redraw_quiet rfl rfl r hr
      obtain ⟨hlooked, hokuri, hkana⟩ := hquiet
      obtain ⟨htrigger, typed, hphase', hidles⟩ := hnew.of_quiet hlooked
      rw [hokuri] at hphase'
      obtain ⟨-, hfirst, htyped⟩ := SkkPhase.okuri.inj hphase'
      refine ⟨hout, htrigger, ?_, hidles htyped.symm hkana⟩
      cases hstate : self.kanaState with
      | nil => exact (hpending hstate).elim
      | cons first rest =>
          rw [hstate] at hfirst
          exact congrArg some hfirst
    · -- The headword is the reading without the kana.
      rw [if_neg hout] at hr
      have hlooked : self.lookedUp r.1 = some (kanaBuf, some output) :=
        (startConversion_lookedUp rfl kanaBuf _ r hr).1
      have hsame : kanaBuf = kanaBuf ++ output := hnew.reading_eq hlooked
      exact (hout (List.self_eq_append_right.mp hsame)).elim
  · -- The two start the same okurigana, and the table leaves it alone.
    rintro ⟨rfl, htrigger, hhead, hidles⟩
    have hnotrigger : ¬ ((self.withReading (kanaBuf ++ [])).kanaState.isEmpty ∧
        c ∈ (self.withReading (kanaBuf ++ [])).keybindings.conversionTriggerChars) :=
      fun h => htrigger h.2
    rw [midashiOkuri_retry hkey hretry, if_pos rfl, hhead, redispatchFuel,
      handleMidashi_okuri hkey hupper hreading, if_neg hnotrigger, midashiOkuri_fresh hkey rfl,
      List.append_nil]
    unfold idles at hidles
    cases hcase : self.kanaTable.transition [] c.toLower .hiragana with
    | ok typed nextState =>
        rw [hcase] at hidles
        simp only [Bool.and_eq_true, List.isEmpty_iff] at hidles
        obtain ⟨rfl, rfl⟩ := hidles
        rw [show (self.withReading kanaBuf).kanaTable.transition [] c.toLower .hiragana = _
          from hcase]
        rfl
    | okRetry _ _ | noMatch _ _ =>
        rw [show (self.withReading kanaBuf).kanaTable.transition [] c.toLower .hiragana = _
          from hcase]
        rfl

/-- Before the first kana the letter is typed into the reading, and starts no okurigana. So the
two presses agree only when the letter ends the reading either way, with the same text. -/
theorem first_alike_iff (hkey : event.key = .char c) (hself : self.Wf)
    (hphase : self.phase = .midashi [] romanBuf) (hupper : c.isUpper) (hout : output ≠ [])
    (hretry : self.kanaTable.transition self.kanaState c.toLower .hiragana =
      .okRetry output retry) :
    ((do
      let r ← self.handleMidashi redispatchFuel event [] romanBuf
      conclude r) = do
      let r ← SkkEngine.handleMidashi redispatchFuel (self.withReading output)
        event output []
      conclude r) ↔ self.StartsAlike c [] output := by
  have hruns : Runs (do
      let r ← self.handleMidashi redispatchFuel event [] romanBuf
      conclude r) fun _ => True := by
    rw [← dispatch_midashi hphase]
    exact (dispatch_post hself _).bind fun r hr => conclude_runs hr.wf
  rw [redispatchFuel, handleMidashi_first hkey hupper 1 romanBuf hretry] at hruns ⊢
  unfold StartsAlike
  rw [if_pos rfl]
  constructor
  · intro h
    obtain ⟨r, hr, -⟩ := hruns
    have hnew : self.StartsOkuri c output r :=
      fresh_startsOkuri hkey hupper hout 1 r (h ▸ hr)
    cases hending : self.endingText c.toLower with
    | none =>
        rcases refed_open hupper hout 0 hending r hr with ⟨hnone, hokuri⟩ | ⟨reading, hne, hlooked⟩
        · obtain ⟨-, typed, hphase', -⟩ := hnew.of_quiet hnone
          exact (hokuri _ _ _ hphase').elim
        · exact (hne (hnew.reading_eq hlooked)).elim
    | some text =>
        -- Both presses look the reading up, and the trigger text tells them apart.
        rw [refed_closing hupper hout 0 hending] at hr
        unfold convertOnTrigger at hr
        rw [if_neg (by simpa using hout)] at hr
        have hsame : self.lookedUp r.1 = some (output, none) ∧ r.1.conversionTrigger = some text :=
          startConversion_lookedUp rfl output none r hr
        obtain ⟨htrigger, htext⟩ := hnew.of_reading hsame.1
        exact ⟨htrigger, hsame.2.symm.trans htext⟩
  · rintro ⟨htrigger, hending⟩
    have hempty : (self.withReading output).kanaState.isEmpty ∧
        c ∈ (self.withReading output).keybindings.conversionTriggerChars := ⟨rfl, htrigger⟩
    rw [refed_closing hupper hout 0 hending, handleMidashi_okuri hkey hupper hout, if_pos hempty]
    rfl

omit [EucJp] in
/-- A registration does not take an uppercase letter for itself while a reading is typed: Return
and C-g are all it takes there. -/
theorem registrationKey_upper (hkey : event.key = .char c) (hupper : c.isUpper)
    (hphase : self.phase = .midashi kanaBuf romanBuf) : self.registrationKey event = none := by
  have hctrlG : isCtrlG event = false := by
    have hne : c ≠ 'g' := by
      rintro rfl
      cases hupper
    simp [isCtrlG, hkey, hne]
  have hflush : flushText self.phase = some kanaBuf := by
    rw [hphase]
    rfl
  exact registrationKey_of_flushText hflush hctrlG (by simp [hkey])

/-- In every run: an uppercase letter after romaji that it does not continue acts as it does
after the kana, exactly in these cases. A toggle key comes before either. -/
theorem startsAlike_iff_of_session {kanaTable : KanaTable} {keybindings : SkkKeybindings}
    {lispDirectives : Bool} {initialPhase : SkkPhase} {providers : List δ} {history : History δ}
    (hrun : Session (fresh kanaTable keybindings lispDirectives initialPhase providers)
      history self)
    (hphase : self.phase = .midashi kanaBuf romanBuf) (hkey : event.key = .char c)
    (hupper : c.isUpper)
    (hretry : self.kanaTable.transition self.kanaState c.toLower .hiragana = .okRetry output retry)
    (hreading : kanaBuf ++ output ≠ []) :
    self.processKey event = (self.withReading (kanaBuf ++ output)).processKey event ↔
      self.cooks event ∧ (self.isToggle event ∨ self.StartsAlike c kanaBuf output) := by
  have hself : self.Wf := Session.wf (fresh_wf ..) hrun
  by_cases hcooks : self.cooks event
  · rw [processKey_eq hcooks, processKey_eq (by exact hcooks)]
    have hindicator : (self.withReading (kanaBuf ++ output)).currentModeIndicator
        = self.currentModeIndicator := by
      unfold currentModeIndicator withReading
      rw [hphase]
    rw [hindicator]
    by_cases htoggle : self.isToggle event
    · have hstack : self.registerStack = [] := by
        simp only [isToggle, Bool.and_eq_true, List.isEmpty_iff] at htoggle
        exact htoggle.1
      have hsame : (self.withReading (kanaBuf ++ output)).toggle = self.toggle := by
        unfold toggle withReading
        rw [if_neg (by simp), if_neg (by simp [hphase])]
      refine iff_of_true ?_ ⟨hcooks, .inl htoggle⟩
      rw [handleCooked_toggle hstack htoggle,
        handleCooked_toggle (by exact hstack) (by exact htoggle), hsame]
    · have htoggle' : self.isToggle event = false := by simpa using htoggle
      have hphase' : (self.withReading (kanaBuf ++ output)).phase
          = .midashi (kanaBuf ++ output) [] := rfl
      have halike : ((do
          let r ← self.handleMidashi redispatchFuel event kanaBuf romanBuf
          conclude r) = do
          let r ← SkkEngine.handleMidashi redispatchFuel (self.withReading (kanaBuf ++ output))
            event (kanaBuf ++ output) []
          conclude r) ↔ self.StartsAlike c kanaBuf output := by
        -- Without a kana in front the letter does not start an okurigana.
        by_cases hkanaBuf : kanaBuf = []
        · subst hkanaBuf
          exact first_alike_iff hkey hself hphase hupper hreading hretry
        · exact okuri_alike_iff hkey hself hphase hupper hkanaBuf hretry
      rw [handleCooked_eq (registrationKey_upper hkey hupper hphase) htoggle',
        handleCooked_eq (registrationKey_upper hkey hupper hphase') (by exact htoggle'),
        dispatch_midashi hphase, dispatch_midashi hphase']
      simp only [hcooks, htoggle, Bool.false_eq_true, false_or, true_and]
      rw [← halike]
      exact sent_injective self.currentModeIndicator []
  · -- In raw mode the romaji stays pending.
    refine iff_of_false (fun h => ?_) fun h => hcooks h.1
    have hfrozen : self.cooks event = false := by simpa using hcooks
    have hfrozen' : (self.withReading (kanaBuf ++ output)).cooks event = false := hfrozen
    obtain ⟨r, hr, -⟩ := processKey_wf hself event
    obtain ⟨rawMode, hold⟩ := processKey_frozen hfrozen r hr
    obtain ⟨rawMode', hnew⟩ := processKey_frozen hfrozen' r (h ▸ hr)
    rw [hold] at hnew
    exact KanaTable.transition_okRetry_ne_nil hretry (congrArg SkkEngine.kanaState hnew)

end Press

/-- `AnJ` looks the reading `あ` up with the okurigana `ん`, and drops the `j`. After the kana it
would begin an okurigana of the reading `あん`. -/
theorem okurigana_dropped :
    letI := EucJp.empty
    ∃ (history : History Empty) (self self' : SkkEngine Empty) (actions : List EngineAction),
      Session (fresh nasalTable {} true .hiragana []) history self ∧
      history.map Visit.input = KeyEvent.typed ['A', 'n'] ∧
      self.phase = .midashi ['あ'] ['n'] ∧
      self.kanaTable.transition self.kanaState 'j' .hiragana = .okRetry ['ん'] 'j' ∧
      self.processKey (.press (.char 'J') {}) = .ok (self', actions) ∧
      self.lookedUp self' = some (['あ'], some ['ん']) ∧
      (∃ kept drawn, (self.withReading ['あ', 'ん']).processKey (.press (.char 'J') {}) =
        .ok (kept, drawn) ∧ kept.phase = .okuri ['あ', 'ん'] 'j' []) ∧
      self.processKey (.press (.char 'J') {}) ≠
        (self.withReading ['あ', 'ん']).processKey (.press (.char 'J') {}) := by
  let _ := EucJp.empty
  have hrecord := exists_session (fresh nasalTable {} true .hiragana [])
    (KeyEvent.typed ['A', 'n']) (fun _ (self : SkkEngine Empty) =>
      self.phase = .midashi ['あ'] ['n'] ∧
      self.kanaTable.transition self.kanaState 'j' .hiragana = .okRetry ['ん'] 'j' ∧
      (∃ r ∈ (self.processKey (.press (.char 'J') {})).toOption, r.1.phase = .hiragana ∧
        self.lookedUp r.1 = some (['あ'], some ['ん'])) ∧
      ∃ r ∈ ((self.withReading ['あ', 'ん']).processKey (.press (.char 'J') {})).toOption,
        r.1.phase = .okuri ['あ', 'ん'] 'j' [])
    (by decide +kernel)
  obtain ⟨history, self, hrun, hinputs, hphase, hretry, ⟨r, hr, hhiragana, hlooked⟩, r', hr',
    hokuri⟩ := hrecord
  have hold := ok_of_mem_toOption hr
  have hnew := ok_of_mem_toOption hr'
  refine ⟨history, self, r.1, r.2, hrun, hinputs, hphase, hretry, hold, hlooked,
    ⟨r'.1, r'.2, hnew, hokuri⟩, fun hsame => ?_⟩
  rw [hold, hnew] at hsame
  -- the two results have different phases, the kana mode and an okurigana
  rw [Except.ok.inj hsame, hokuri] at hhiragana
  cases hhiragana

/-- A kana table whose pending romaji `j` settles to nothing. -/
def silentTable : KanaTable :=
  ⟨[⟨[], .char 'i', [], ['い']⟩, ⟨[], .char 'k', ['j'], []⟩, ⟨['j'], .wildcard, [], []⟩], [], []⟩

/-- With romaji that settles to nothing the okurigana starts as if it had not been typed. The
table of the example has a rule that hands a character back without any kana. -/
theorem startsAlike_iff_of_session_silent :
    letI := EucJp.empty
    ∃ (history : History Empty) (self : SkkEngine Empty),
      Session (fresh silentTable {} true .hiragana []) history self ∧
      self.phase = .midashi ['い'] ['j'] ∧
      self.processKey (.press (.char 'J') {}) =
        (self.withReading ['い']).processKey (.press (.char 'J') {}) := by
  let _ := EucJp.empty
  have hrecord := exists_session (fresh silentTable {} true .hiragana [])
    (KeyEvent.typed ['I', 'k']) (fun _ (self : SkkEngine Empty) =>
      self.phase = .midashi ['い'] ['j'] ∧
      self.kanaTable.transition self.kanaState ('J'.toLower) .hiragana = .okRetry [] 'j' ∧
      self.cooks (.press (.char 'J') {}) ∧ 'J' ∉ self.keybindings.conversionTriggerChars ∧
      self.kanaState.head? = some ('J'.toLower) ∧ self.idles ('J'.toLower))
    (by decide +kernel)
  obtain ⟨history, self, hrun, -, hphase, hretry, hcooks, htrigger, hhead, hidles⟩ := hrecord
  have hkey : KeyEvent.key (.press (.char 'J') {}) = .char 'J' := rfl
  have hiff := startsAlike_iff_of_session hrun hphase hkey (by decide) hretry (by decide)
  refine ⟨history, self, hrun, hphase, hiff.mpr ⟨hcooks, .inr ?_⟩⟩
  unfold StartsAlike
  rw [if_neg (by decide)]
  exact ⟨rfl, htrigger, hhead, hidles⟩

end SkkEngine

end Y2Skk
