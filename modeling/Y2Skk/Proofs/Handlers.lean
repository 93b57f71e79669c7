import Y2Skk.Proofs.Contract

/-!
# `Y2Skk.Proofs.Handlers`: every phase handler satisfies the contract

One theorem per handler, in the order of the model, each a case analysis that follows the
branches of its definition. The contract itself, `Post`, is in `Proofs/Contract.lean`,
with the families of branches that the proofs here refer to by name.

## Branches

Each phase begins with the two or three ways in which its branches end: a redraw of the
phase with other buffers (`okuri_redraw`, `midashi_redraw`), an exit to a plain mode
(`abbrev_leave`, `midashi_leave`, `kana_leave`), or a lookup. The handlers then choose
among them, in the order in which the source tests the key.

## Triggers

A handler's contract names the conversion trigger that the key types. `typedInMidashi` and
`typedInKana` compute it from the state and the key alone, following the tests of the
handlers.

## Characters that are handed back

`handleMidashi` and `feedKana` recurse, with fuel. A character is handed back only from a
pending state and is fed to the start state, so two levels are enough, and the fuel of the
model is never what ends the recursion.
-/

set_option autoImplicit false

namespace Y2Skk

open Outcome Utf8

namespace SkkEngine

variable {δ : Type} [DictionaryProvider δ]

/-! ### Direct input -/

/-- Direct input: `C-j` goes to Hiragana, every other key is passed on, and leaves the state as
it is. -/
theorem handleAscii_post {self : SkkEngine δ} (hself : self.Wf) (hphase : self.phase = .ascii)
    (event : KeyEvent) : Runs (self.handleAscii event) (Post none False self) := by
  have hkana : self.kanaState = [] := hself.phase_eq hphase
  have hsel : self.phase.selection? = none := by rw [hphase]; rfl
  unfold handleAscii
  refine Runs.ite (fun _ => ?_) fun _ => ?_
  · rw [runs_ok]
    exact .leave hself (self.keeps_compose _ _ _ _ _) hsel rfl hkana
      (fun _ hok => .of_not_midashi hok (by rw [hphase]; rfl) rfl) rfl rfl (by simp)
  · exact runs_ok.mpr (.idle hself rfl rfl)

/-- Full-width input commits the wide form of a character. `C-j` and `C-q` lead to Hiragana
mode, and Escape may lead to direct input. A key without a wide form is passed on. -/
theorem handleWideAscii_post {self : SkkEngine δ} (hself : self.Wf)
    (hphase : self.phase = .wideAscii) (event : KeyEvent) :
    Runs (self.handleWideAscii event) (Post none False self) := by
  have hkana : self.kanaState = [] := hself.phase_eq hphase
  have hsel : self.phase.selection? = none := by rw [hphase]; rfl
  have hcompletion : CompletesPrefixes δ → self.CompletionOk → ∀ self' : SkkEngine δ,
      self'.completion = self.completion → CompletionStep self self' :=
    fun _ hok _ heq => .of_not_midashi hok (by rw [hphase]; rfl) heq
  unfold handleWideAscii
  refine Runs.ite (fun _ => ?_) fun _ => Runs.ite (fun _ => ?_) fun _ => ?_
  · rw [runs_ok]
    exact .leave hself (self.keeps_compose _ _ _ _ _) hsel rfl hkana
      (fun hδ hok => hcompletion hδ hok _ rfl) rfl rfl (by simp)
  · rw [runs_ok]
    refine .leave hself (self.keeps_compose _ _ _ _ _) hsel ?_ hkana
      (fun hδ hok => hcompletion hδ hok _ rfl) rfl rfl (by simp)
    dsimp only
    split
    · rfl
    · rw [hphase]; rfl
  · split
    · exact runs_ok.mpr (.idle hself rfl rfl)
    · exact runs_ok.mpr (.idle hself rfl rfl)

/-! ### Code input -/

section CodeInput
variable {self : SkkEngine δ} {codePrefix : CodeInputPrefix} {buf : Str}

/-- A digit more or less. -/
theorem codeInput_redraw (hself : self.Wf) (hphase : self.phase = .codeInput codePrefix buf)
    (codePrefix' : CodeInputPrefix) (buf' : Str) :
    Runs { self with phase := .codeInput codePrefix' buf' }.redraw (Post none False self) := by
  have hkana : self.kanaState = [] := hself.phase_eq hphase
  exact redraw_post hself (self.keeps_compose _ _ _ _ _) (by rw [hphase]; rfl) rfl hkana
    fun _ hok => .of_not_midashi hok (by rw [hphase]; rfl) rfl

/-- The code input ends in the kana mode it was entered from, with a `ClearPreedit` among its
actions. -/
theorem codeInput_leave (hself : self.Wf) (hphase : self.phase = .codeInput codePrefix buf)
    {actions : List EngineAction} (hlast : lastPreedit actions = some .clearPreedit)
    (hwindow : lastWindow actions = none)
    (hpreedits : ∀ preedit, .updatePreedit preedit ∈ actions → preedit.Wf) :
    Post none False self
      ({ self with phase := self.kanaPhaseFromDisplayMode, kanaState := [] }, actions) :=
  .leave hself (self.keeps_compose _ _ _ _ _) (by rw [hphase]; rfl)
    (KanaMode.isPlain_toPhase _) rfl
    (fun _ hok => .of_not_midashi hok (by rw [hphase]; rfl) rfl) hlast hwindow hpreedits

/-- BackSpace takes a digit back, then the prefix, and then leaves. The first two draw what is
left. -/
theorem codeInputBackSpace_post (hself : self.Wf)
    (hphase : self.phase = .codeInput codePrefix buf) :
    Runs (self.codeInputBackSpace codePrefix buf) (Post none False self) := by
  unfold codeInputBackSpace
  refine Runs.ite (fun _ => ?_) fun _ => Runs.ite (fun _ => ?_) fun _ => ?_
  · exact codeInput_redraw hself hphase _ _
  · exact codeInput_redraw hself hphase _ _
  · exact runs_ok.mpr (codeInput_leave hself hphase rfl rfl (by simp))

/-- Every key of a code. It leaves the code input for the kana mode that was remembered, with
the character of the code or without, or it draws the code again with another buffer. -/
theorem handleCodeInput_post [EucJp] (hself : self.Wf)
    (hphase : self.phase = .codeInput codePrefix buf) (event : KeyEvent) :
    Runs (self.handleCodeInput event codePrefix buf) (Post none False self) := by
  -- a key that is no digit of a code draws the same code again
  have hsame : Runs self.redraw (Post none False self) := by
    have h := codeInput_redraw hself hphase codePrefix buf
    rwa [← hphase] at h
  unfold handleCodeInput
  refine Runs.ite (fun _ => ?_) fun _ => Runs.ite (fun _ => ?_) fun _ => ?_
  · exact runs_ok.mpr (codeInput_leave hself hphase rfl rfl (by simp))
  · exact codeInputBackSpace_post hself hphase
  refine Runs.ite (fun _ => ?_) fun _ => Runs.ite (fun _ => ?_) fun _ => ?_
  · exact codeInput_redraw hself hphase _ _
  · have hcommit : ∀ result : Option Str, Post none False self
        ({ self with phase := self.kanaPhaseFromDisplayMode, kanaState := [] },
          (result.map EngineAction.commit).toList ++ [.clearPreedit]) := by
      intro result
      cases result with
      | none => exact codeInput_leave hself hphase rfl rfl (by simp)
      | some text => exact codeInput_leave hself hphase rfl rfl (by simp)
    exact runs_ok.mpr (hcommit _)
  · split
    · refine Runs.ite (fun _ => ?_) fun _ => hsame
      exact codeInput_redraw hself hphase _ _
    · exact hsame

end CodeInput

/-! ### Abbrev mode -/

section Abbrev
variable {self : SkkEngine δ} {buf : Str}

/-- A character more or less. -/
theorem abbrev_redraw (hself : self.Wf) (hphase : self.phase = .abbrev buf) (buf' : Str) :
    Runs { self with phase := .abbrev buf' }.redraw (Post none False self) := by
  have hkana : self.kanaState = [] := hself.phase_eq hphase
  exact redraw_post hself (self.keeps_compose _ _ _ _ _) (by rw [hphase]; rfl) rfl hkana
    fun _ hok => .of_not_midashi hok (by rw [hphase]; rfl) rfl

/-- An abbreviation ends in the kana mode it was entered from. No romaji was pending in it. -/
theorem abbrev_leave (hself : self.Wf) (hphase : self.phase = .abbrev buf)
    {actions : List EngineAction} (hlast : lastPreedit actions = some .clearPreedit)
    (hwindow : lastWindow actions = none)
    (hpreedits : ∀ preedit, .updatePreedit preedit ∈ actions → preedit.Wf) :
    Post none False self ({ self with phase := self.kanaPhaseFromDisplayMode }, actions) := by
  have hkana : self.kanaState = [] := hself.phase_eq hphase
  exact .leave hself (self.keeps_compose _ _ _ _ _) (by rw [hphase]; rfl)
    (KanaMode.isPlain_toPhase _) hkana
    (fun _ hok => .of_not_midashi hok (by rw [hphase]; rfl) rfl) hlast hwindow hpreedits

/-- Every key of an abbreviation. Space converts the buffer, and the keys that end the
abbreviation commit it or drop it. Everything else draws the buffer as it is or with the
character that was typed. -/
theorem handleAbbrev_post (hself : self.Wf) (hphase : self.phase = .abbrev buf)
    (event : KeyEvent) : Runs (self.handleAbbrev event buf) (Post none False self) := by
  have hkana : self.kanaState = [] := hself.phase_eq hphase
  have hsame : Runs self.redraw (Post none False self) := by
    have h := abbrev_redraw hself hphase buf
    rwa [← hphase] at h
  unfold handleAbbrev
  refine Runs.ite (fun _ => ?_) fun _ => Runs.ite (fun _ => ?_) fun _ => ?_
  · exact runs_ok.mpr (abbrev_leave hself hphase rfl rfl (by simp))
  · refine Runs.ite (fun _ => ?_) fun _ => abbrev_redraw hself hphase _
    exact runs_ok.mpr (abbrev_leave hself hphase rfl rfl (by simp))
  refine Runs.ite (fun _ => ?_) fun _ => Runs.ite (fun _ => ?_) fun _ => ?_
  · refine Runs.ite (fun _ => abbrev_redraw hself hphase _) fun _ => ?_
    -- the lookup draws in either outcome, so the weaker contract follows from it
    exact (convert_drawn hself (.refl self) rfl rfl (by rw [hphase]; rfl) hkana (.inl rfl)).mono
      fun _ h => h.1
  · rw [runs_ok]
    split
    · exact abbrev_leave hself hphase rfl rfl (by simp)
    · exact abbrev_leave hself hphase rfl rfl (by simp)
  refine Runs.ite (fun _ => ?_) fun _ => ?_
  · rw [runs_ok]
    split
    · exact abbrev_leave hself hphase rfl rfl (by simp)
    · exact abbrev_leave hself hphase rfl rfl (by simp)
  · split
    · exact hsame
    · exact Runs.ite (fun _ => hsame) fun _ => abbrev_redraw hself hphase _

end Abbrev

/-! ### Okurigana -/

section Okuri
variable {self : SkkEngine δ} {midashi kanaBuf : Str} {okuriPrefix : Char}

/-- The okurigana is waited for. -/
theorem okuri_redraw (hself : self.Wf) (hphase : self.phase = .okuri midashi okuriPrefix kanaBuf)
    (kanaState' kanaBuf' : Str) :
    Runs { self with kanaState := kanaState', phase := .okuri midashi okuriPrefix kanaBuf' }.redraw
      (Drawn none self) :=
  redraw_drawn hself (self.keeps_compose _ _ _ _ _) (by rw [hphase]; rfl) rfl trivial
    fun _ hok => .of_not_midashi hok (by rw [hphase]; rfl) rfl

/-- BackSpace takes a romaji or a kana back, or goes back to the reading. -/
theorem okuriBackSpace_drawn (hself : self.Wf)
    (hphase : self.phase = .okuri midashi okuriPrefix kanaBuf) :
    Runs (self.okuriBackSpace midashi okuriPrefix kanaBuf) (Drawn none self) := by
  unfold okuriBackSpace
  refine Runs.ite (fun h => ?_) fun _ => okuri_redraw hself hphase _ _
  exact update_drawn hself (self.keeps_compose _ _ _ _ _) (by rw [hphase]; rfl)
    (List.isEmpty_iff.mp h.1) midashi

/-- The okurigana is complete and the reading is looked up. -/
theorem convertOkuri_drawn (hself : self.Wf)
    (hphase : self.phase = .okuri midashi okuriPrefix kanaBuf) {kanaState' : Str}
    (hkana : kanaState' = []) (preState : Str) (lower : Char) (kanaBuf' : Str) :
    Runs ({ self with kanaState := kanaState' }.convertOkuri midashi preState lower kanaBuf')
      (Drawn none self) :=
  convert_drawn hself ⟨rfl, rfl, rfl, rfl⟩ rfl rfl (by rw [hphase]; rfl) hkana (.inl rfl)

/-- With a printable key the handler draws; otherwise it may ignore the key. A caller that hands
on a character needs the first part, since the reading it has entered the okurigana from must
not stay on the screen. -/
theorem handleOkuri_post (hself : self.Wf)
    (hphase : self.phase = .okuri midashi okuriPrefix kanaBuf) (event : KeyEvent) :
    Runs (self.handleOkuri event midashi okuriPrefix kanaBuf) fun r =>
      Post none False self r ∧ (event.printableChar.isSome → Redraws r) := by
  have hdrawn : ∀ {x}, Runs x (Drawn none self) → Runs x fun r =>
      Post none False self r ∧ (event.printableChar.isSome → Redraws r) :=
    fun h => h.mono fun _ hr => ⟨hr.1, fun _ => hr.2⟩
  unfold handleOkuri
  refine Runs.ite (fun _ => ?_) fun _ => Runs.ite (fun _ => ?_) fun _ => ?_
  · rw [runs_ok]
    refine ⟨.leave hself (self.keeps_compose _ _ _ _ _) (by rw [hphase]; rfl) rfl rfl
      (fun _ hok => .of_not_midashi hok (by rw [hphase]; rfl) rfl) rfl rfl (by simp), fun _ => rfl⟩
  · exact hdrawn (okuriBackSpace_drawn hself hphase)
  cases hch : event.printableChar with
  | none => exact runs_ok.mpr ⟨.idle hself rfl rfl, by simp⟩
  | some ch =>
    rw [hch] at hdrawn
    dsimp only
    -- what the table says: the kana completes the okurigana, or more romaji are waited for
    split
    · refine Runs.ite (fun h => ?_) fun _ => hdrawn (okuri_redraw hself hphase _ _)
      exact hdrawn (convertOkuri_drawn hself hphase (List.isEmpty_iff.mp h.2) _ _ _)
    · refine Runs.ite (fun _ => ?_) fun _ => hdrawn (okuri_redraw hself hphase _ _)
      exact hdrawn (convertOkuri_drawn hself hphase rfl _ _ _)
    · exact hdrawn (okuri_redraw hself hphase _ _)

end Okuri

/-! ### The trigger a key types in a reading -/

/-- The keys `handleMidashi` treats before it looks at the character. -/
def isMidashiCommand (event : KeyEvent) : Bool :=
  decide (event.key = .escape ∨ event.key = .backSpace ∨ event.key = .returnKey ∨
    event.key = .space ∨ event.key = .tab ∨ (event.key = .char 'q' ∧ event.modifiers.ctrl))

/-- A trigger typed after a non-empty reading. -/
def typedAfter (self : SkkEngine δ) (reading trigger : Str) : Option TypedTrigger :=
  if reading.isEmpty then none else some ⟨reading, trigger, self.hasCandidates reading⟩

/-- The conversion trigger `event` types in the reading `kanaBuf`: an ASCII trigger in the
start state, or a kana trigger that the table emits. -/
def typedInMidashi : Nat → SkkEngine δ → KeyEvent → Str → Str → Option TypedTrigger
  | 0, _, _, _, _ => none
  | fuel + 1, self, event, kanaBuf, romanBuf =>
    if isMidashiCommand event then none
    else
      match event.printableChar with
      | none => none
      | some ch =>
        if isAscii ch ∧ self.kanaState.isEmpty ∧ ch ∈ self.keybindings.conversionTriggerChars then
          self.typedAfter (flushN kanaBuf romanBuf) (self.triggerOutput ch)
        else if isAffixChar ch ∨ (ch.isDigit ∧ !event.modifiers.ctrl) ∨
            (ch.isUpper ∧ !kanaBuf.isEmpty) then none
        else
          match self.kanaTable.transition self.kanaState ch.toLower .hiragana with
          | .ok output nextState =>
              if !output.isEmpty ∧ nextState.isEmpty then
                (self.endsInTrigger (kanaBuf ++ output)).bind fun last =>
                  self.typedAfter (kanaBuf ++ output).dropLast [last]
              else none
          | .okRetry output retry =>
              typedInMidashi fuel { self with
                kanaState := [], phase := .midashi (kanaBuf ++ output) [] }
                (.press (.char retry) {}) (kanaBuf ++ output) []
          | .noMatch _ (some retryCh) =>
              typedInMidashi fuel { self with kanaState := [], phase := .midashi kanaBuf [] }
                (.press (.char retryCh) {}) kanaBuf []
          | .noMatch _ none => none

/-! ### Readings -/

section Midashi
variable {self : SkkEngine δ} {kanaBuf romanBuf : Str}

/-- A reading with other buffers, whose completion is kept or dropped. The contract allows both,
since a completion that is kept was one of the state before. -/
theorem midashi_redraw (hself : self.Wf) (hphase : self.phase = .midashi kanaBuf romanBuf)
    (kanaBuf' romanBuf' : Str) {completion' : Option CompletionState}
    (hcompletion : completion' = none ∨ completion' = self.completion) :
    Runs { self with
      completion := completion', kanaState := romanBuf', phase := .midashi kanaBuf' romanBuf'
      }.redraw (Drawn none self) := by
  refine redraw_drawn hself (self.keeps_compose _ _ _ _ _) (by rw [hphase]; rfl) rfl rfl
    fun _ hok => ?_
  rcases hcompletion with rfl | rfl
  · exact .of_none rfl
  · exact .of_kept hok rfl rfl

/-- A reading ends in a plain mode, and its completion is dropped. The pending romaji goes with
it. -/
theorem midashi_leave (hself : self.Wf) (hphase : self.phase = .midashi kanaBuf romanBuf)
    {phase' : SkkPhase} {actions : List EngineAction} (hplain : phase'.isPlain)
    (hlast : lastPreedit actions = some .clearPreedit) (hwindow : lastWindow actions = none)
    (hpreedits : ∀ preedit, .updatePreedit preedit ∈ actions → preedit.Wf) :
    Drawn none self
      ({ self with completion := none, phase := phase', kanaState := [] }, actions) :=
  ⟨.leave hself (self.keeps_compose _ _ _ _ _) (by rw [hphase]; rfl) hplain rfl
    (fun _ _ => .of_none rfl) hlast hwindow hpreedits, by rw [Redraws, hlast]; rfl⟩

/-- BackSpace takes back a romaji or a kana, or leaves an empty reading. Only the second
recomputes the completion. -/
theorem midashiBackSpace_drawn (hself : self.Wf)
    (hphase : self.phase = .midashi kanaBuf romanBuf) :
    Runs (self.midashiBackSpace kanaBuf romanBuf) (Drawn none self) := by
  unfold midashiBackSpace
  refine Runs.ite (fun _ => ?_) fun hroman => Runs.ite (fun _ => ?_) fun _ => ?_
  · exact midashi_redraw hself hphase _ _ (.inr rfl)
  · have hnil : romanBuf = [] := by simpa using hroman
    subst hnil
    exact update_drawn hself (self.keeps_compose _ _ _ _ _) (by rw [hphase]; rfl) rfl _
  · exact runs_ok.mpr (midashi_leave hself hphase rfl rfl rfl (by simp))

/-- Return commits the reading as it is and passes the key on; an empty reading has nothing to
commit. -/
theorem midashiReturn_drawn (hself : self.Wf)
    (hphase : self.phase = .midashi kanaBuf romanBuf) :
    Runs (self.midashiReturn kanaBuf romanBuf) (Drawn none self) := by
  unfold midashiReturn
  dsimp only
  rw [runs_ok]
  split
  · exact midashi_leave hself hphase (KanaMode.isPlain_toPhase _) rfl rfl (by simp)
  · exact midashi_leave hself hphase (KanaMode.isPlain_toPhase _) rfl rfl (by simp)

/-- Space looks the reading up, and with nothing typed it leaves to Hiragana. -/
theorem midashiSpace_drawn (hself : self.Wf)
    (hphase : self.phase = .midashi kanaBuf romanBuf) :
    Runs (self.midashiSpace kanaBuf romanBuf) (Drawn none self) := by
  unfold midashiSpace
  refine Runs.ite (fun _ => ?_) fun _ => ?_
  · exact runs_ok.mpr (midashi_leave hself hphase rfl rfl rfl (by simp))
  · exact convert_drawn hself ⟨rfl, rfl, rfl, rfl⟩ rfl rfl (by rw [hphase]; rfl) rfl (.inl rfl)

/-- Tab makes the previewed completion the reading and moves the cycle on. Without a completion
the reading is drawn as it was. -/
theorem midashiTab_drawn (hself : self.Wf) (hphase : self.phase = .midashi kanaBuf romanBuf) :
    Runs (self.midashiTab kanaBuf romanBuf) (Drawn none self) := by
  have hkana : self.kanaState = romanBuf := hself.phase_eq hphase
  have hsel : self.phase.selection? = none := by rw [hphase]; rfl
  have hkept : Runs { self with phase := .midashi kanaBuf romanBuf }.redraw (Drawn none self) :=
    redraw_drawn hself (self.keeps_compose _ _ _ _ _) hsel rfl hkana
      fun _ hok => .of_kept hok rfl rfl
  unfold midashiTab
  refine Runs.ite (fun _ => ?_) fun _ => hkept
  cases hstate : self.completion with
  | none =>
      rw [hstate] at hkept
      exact hkept
  | some state =>
      refine redraw_drawn hself (self.keeps_compose _ _ _ _ _) hsel rfl rfl fun hδ _ c hc => ?_
      -- The next completion of the cycle is one for the same prefix.
      obtain ⟨found, hfound, rfl⟩ := Option.map_eq_some_iff.mp hc
      exact ⟨prefix_findCompletion hδ hfound, state.preview, [], rfl, .inr ⟨state, hstate, rfl⟩⟩

/-- `C-q` commits the reading in half-width katakana, unless there is nothing to commit. -/
theorem midashiHalfwidth_drawn (hself : self.Wf)
    (hphase : self.phase = .midashi kanaBuf romanBuf) :
    Runs (self.midashiHalfwidth kanaBuf) (Drawn none self) := by
  unfold midashiHalfwidth
  rw [runs_ok]
  split
  · exact midashi_leave hself hphase (KanaMode.isPlain_toPhase _) rfl rfl (by simp)
  · exact midashi_leave hself hphase (KanaMode.isPlain_toPhase _) rfl rfl (by simp)

/-- A trigger looks up the reading before it. An empty reading is left, with the trigger
committed. -/
theorem convertOnTrigger_drawn (hself : self.Wf)
    (hphase : self.phase = .midashi kanaBuf romanBuf) {mid : SkkEngine δ}
    (hmid : ∃ kanaState', mid = { self with kanaState := kanaState' }) (reading trigger : Str) :
    Runs (mid.convertOnTrigger reading trigger)
      (Drawn (self.typedAfter reading trigger) self) := by
  obtain ⟨kanaState', rfl⟩ := hmid
  unfold convertOnTrigger typedAfter
  by_cases h : reading.isEmpty
  · simp only [h, if_true]
    exact runs_ok.mpr
      (midashi_leave hself hphase (KanaMode.isPlain_toPhase _) rfl rfl (by simp))
  · simp only [h]
    exact convert_drawn hself ⟨rfl, rfl, rfl, rfl⟩ rfl rfl (by rw [hphase]; rfl) rfl
      (.inr ⟨trigger, rfl, rfl, rfl⟩)

/-- An affix key looks the reading up as a prefix; an empty reading is only drawn again. -/
theorem midashiAffix_drawn (hself : self.Wf) (hphase : self.phase = .midashi kanaBuf romanBuf) :
    Runs (self.midashiAffix kanaBuf romanBuf) (Drawn none self) := by
  unfold midashiAffix
  refine Runs.ite (fun _ => ?_) fun _ => ?_
  · exact midashi_redraw hself hphase _ _ (.inl rfl)
  · exact convert_drawn hself ⟨rfl, rfl, rfl, rfl⟩ rfl rfl (by rw [hphase]; rfl) rfl (.inl rfl)

/-- A capital starts an okurigana, and its character may complete it. The second half is the
handler of the okurigana, in the state that was just made. -/
theorem midashiOkuri_drawn (hself : self.Wf) (hphase : self.phase = .midashi kanaBuf romanBuf)
    {event : KeyEvent} (hprintable : event.printableChar.isSome) (ch : Char) :
    Runs (self.midashiOkuri event ch kanaBuf) (Drawn none self) := by
  have hsel : self.phase.selection? = none := by rw [hphase]; rfl
  unfold midashiOkuri
  dsimp only
  split
  · exact redraw_drawn hself (self.keeps_compose _ _ _ _ _) hsel rfl trivial
      fun _ _ => .of_none rfl
  · rename_i hsettle
    have hmid : SkkEngine.Wf { self with
        completion := none, phase := .okuri kanaBuf (self.kanaState.head?.getD ch.toLower) [] } :=
      ⟨hself.frames, trivial⟩
    refine (handleOkuri_post hmid rfl event).mono fun r hr => ?_
    exact Drawn.of_entered ⟨hr.1, hr.2 hprintable⟩ (self.keeps_compose _ _ _ _ _) hsel rfl
      fun _ => ⟨fun c hc => (by cases hc), fun c hc => (by cases hc)⟩

/-- `q` commits the reading in the other script. -/
theorem midashiToggleKana_drawn (hself : self.Wf)
    (hphase : self.phase = .midashi kanaBuf romanBuf) (reading : Str) :
    Runs (self.midashiToggleKana reading) (Drawn none self) := by
  unfold midashiToggleKana
  exact runs_ok.mpr
    (midashi_leave hself hphase (KanaMode.isPlain_toPhase _) rfl rfl (by simp))

/-- The trigger a kana emitted by the table may be. A kana that ends with a trigger character
converts the reading before it, and is then the text behind the candidate. Any other kana
extends the reading and brings its completions up to date. -/
theorem midashiFeed_drawn (hself : self.Wf) (hphase : self.phase = .midashi kanaBuf romanBuf)
    (output nextState : Str) :
    Runs (self.midashiFeed kanaBuf output nextState)
      (Drawn (if !output.isEmpty ∧ nextState.isEmpty then
        (self.endsInTrigger (kanaBuf ++ output)).bind fun last =>
          self.typedAfter (kanaBuf ++ output).dropLast [last] else none) self) := by
  unfold midashiFeed
  dsimp only
  by_cases houtput : output.isEmpty
  · rw [if_pos houtput, if_neg (by simp [houtput])]
    exact midashi_redraw hself hphase _ _ (.inl rfl)
  rw [if_neg houtput]
  by_cases hnext : nextState.isEmpty
  · rw [if_pos hnext, if_pos ⟨by simpa using houtput, hnext⟩]
    have hnil : nextState = [] := List.isEmpty_iff.mp hnext
    subst hnil
    split
    · -- the last character is cut off the reading again before the lookup
      rename_i last htrigger
      have hlast : self.endsInTrigger (kanaBuf ++ output) = some last := htrigger
      have hget : (kanaBuf ++ output).getLast? = some last :=
        (Option.filter_eq_some_iff.mp hlast).1
      rw [hlast, truncate_getLast hget, ok_bind]
      exact convertOnTrigger_drawn hself hphase ⟨[], rfl⟩ _ _
    · rename_i htrigger
      have hlast : self.endsInTrigger (kanaBuf ++ output) = none := htrigger
      rw [hlast]
      exact update_drawn hself (self.keeps_compose _ _ _ _ _) (by rw [hphase]; rfl) rfl _
  · rw [if_neg hnext, if_neg fun h => hnext h.2]
    exact midashi_redraw hself hphase _ _ (.inl rfl)

/-- A character that the transition table gets types what the table makes of it. A character
that is handed back is typed once more, in the state with nothing pending, so the equation goes
down in the fuel as the handler does. -/
theorem typedInMidashi_table {fuel : Nat} {event : KeyEvent} {ch : Char}
    (hcommand : isMidashiCommand event = false) (hch : event.printableChar = some ch)
    (htrigger : ¬ (isAscii ch ∧ self.kanaState.isEmpty ∧
      ch ∈ self.keybindings.conversionTriggerChars))
    (haffix : ¬ isAffixChar ch) (hdigit : ¬ (ch.isDigit ∧ !event.modifiers.ctrl))
    (hupper : ¬ (ch.isUpper ∧ !kanaBuf.isEmpty)) :
    self.typedInMidashi (fuel + 1) event kanaBuf romanBuf =
      match self.kanaTable.transition self.kanaState ch.toLower .hiragana with
      | .ok output nextState =>
          if !output.isEmpty ∧ nextState.isEmpty then
            (self.endsInTrigger (kanaBuf ++ output)).bind fun last =>
              self.typedAfter (kanaBuf ++ output).dropLast [last]
          else none
      | .okRetry output retry =>
          typedInMidashi fuel { self with
            kanaState := [], phase := .midashi (kanaBuf ++ output) [] }
            (.press (.char retry) {}) (kanaBuf ++ output) []
      | .noMatch _ (some retryCh) =>
          typedInMidashi fuel { self with kanaState := [], phase := .midashi kanaBuf [] }
            (.press (.char retryCh) {}) kanaBuf []
      | .noMatch _ none => none := by
  have hguard : ¬ (isAffixChar ch ∨ (ch.isDigit ∧ !event.modifiers.ctrl) ∨
      (ch.isUpper ∧ !kanaBuf.isEmpty)) := by
    rintro (h | h | h)
    · exact haffix h
    · exact hdigit h
    · exact hupper h
  simp only [typedInMidashi, hcommand, hch]
  rw [if_neg (by simp), if_neg htrigger, if_neg hguard]

/-- The handler does not panic, and with a printable key it draws. A character is handed
back only from a pending state and is fed to the start state, so two levels of fuel are
enough. -/
theorem handleMidashi_post (fuel : Nat) : ∀ {self : SkkEngine δ} {kanaBuf romanBuf : Str},
    self.Wf → self.phase = .midashi kanaBuf romanBuf → 1 ≤ fuel →
    (self.kanaState ≠ [] → 2 ≤ fuel) → ∀ event : KeyEvent,
    Runs (self.handleMidashi fuel event kanaBuf romanBuf) fun r =>
      Post (self.typedInMidashi fuel event kanaBuf romanBuf) False self r ∧
        (event.printableChar.isSome → Redraws r) := by
  induction fuel with
  | zero => intro _ _ _ _ _ hfuel; cases hfuel
  | succ fuel ih =>
    intro self kanaBuf romanBuf hself hphase _ hfuel event
    have hsel : self.phase.selection? = none := by rw [hphase]; rfl
    -- Every branch but the ignored key draws, and few of them type a trigger.
    have hdrawn : ∀ {typed x}, Runs x (Drawn typed self) → Runs x fun r =>
        Post typed False self r ∧ (event.printableChar.isSome → Redraws r) :=
      fun h => h.mono fun _ hr => ⟨hr.1, fun _ => hr.2⟩
    have hplain : ∀ {typed x}, Runs x (Drawn none self) → Runs x fun r =>
        Post typed False self r ∧ (event.printableChar.isSome → Redraws r) :=
      fun h => h.mono fun _ hr => ⟨hr.1.weaken, fun _ => hr.2⟩
    unfold handleMidashi
    refine Runs.ite (fun _ => ?_) fun hescape => Runs.ite (fun _ => ?_) fun hback => ?_
    · exact hplain (runs_ok.mpr (midashi_leave hself hphase rfl rfl rfl (by simp)))
    · exact hplain (midashiBackSpace_drawn hself hphase)
    refine Runs.ite (fun _ => ?_) fun hreturn => Runs.ite (fun _ => ?_) fun hspace => ?_
    · exact hplain (midashiReturn_drawn hself hphase)
    · exact hplain (midashiSpace_drawn hself hphase)
    refine Runs.ite (fun _ => ?_) fun htab => Runs.ite (fun _ => ?_) fun hq => ?_
    · exact hplain (midashiTab_drawn hself hphase)
    · exact hplain (midashiHalfwidth_drawn hself hphase)
    have hcommand : isMidashiCommand event = false := by
      simp only [isMidashiCommand, hescape, hback, hreturn, hspace, htab, hq, or_self,
        decide_false]
    -- The keys without a character are done, apart from those the handler ignores.
    cases hch : event.printableChar with
    | none => exact runs_ok.mpr ⟨(Post.idle hself rfl rfl).weaken, by simp⟩
    | some ch =>
      have hprintable : event.printableChar.isSome := by rw [hch]; rfl
      rw [hch] at hdrawn hplain
      refine Runs.ite (fun htrigger => ?_) fun htrigger => ?_
      · have htyped : self.typedInMidashi (fuel + 1) event kanaBuf romanBuf
            = self.typedAfter (flushN kanaBuf romanBuf) (self.triggerOutput ch) := by
          simp only [typedInMidashi, hcommand, hch]
          rw [if_neg (by simp), if_pos htrigger]
        rw [htyped]
        exact hdrawn (convertOnTrigger_drawn hself hphase ⟨_, rfl⟩ _ _)
      refine Runs.ite (fun _ => ?_) fun haffix => Runs.ite (fun _ => ?_) fun hdigit => ?_
      · exact hplain (midashiAffix_drawn hself hphase)
      · exact hplain (midashi_redraw hself hphase _ _ (.inl rfl))
      refine Runs.ite (fun _ => ?_) fun hupper => ?_
      · exact hplain (midashiOkuri_drawn hself hphase hprintable ch)
      -- The character goes to the transition table.
      have htable : self.typedInMidashi (fuel + 1) event kanaBuf romanBuf = _ :=
        typedInMidashi_table hcommand hch htrigger haffix hdigit hupper
      rw [htable]
      have hpending : ∀ kanaBuf', SkkEngine.Wf { self with
          kanaState := [], phase := .midashi kanaBuf' [] } := fun _ => ⟨hself.frames, rfl⟩
      have hretry : ∀ kanaBuf' retry, self.kanaState ≠ [] →
          Runs (SkkEngine.handleMidashi fuel { self with
              kanaState := [], phase := .midashi kanaBuf' [] }
              (.press (.char retry) {}) kanaBuf' [])
            (Drawn (SkkEngine.typedInMidashi fuel { self with
              kanaState := [], phase := .midashi kanaBuf' [] }
              (.press (.char retry) {}) kanaBuf' []) self) := by
        intro kanaBuf' retry hstate
        have hfuel' : 1 ≤ fuel := by have := hfuel hstate; omega
        refine (ih (hpending kanaBuf') rfl hfuel' (fun h => (h rfl).elim) _).mono fun r hr => ?_
        exact Drawn.of_entered ⟨hr.1, hr.2 rfl⟩ (self.keeps_compose _ _ _ _ _) hsel rfl
          fun hok => ⟨fun c hc => ⟨rfl, (hok c hc).2⟩, fun _ hc => hc⟩
      cases htrans : self.kanaTable.transition self.kanaState ch.toLower .hiragana with
      | ok output nextState => exact hdrawn (midashiFeed_drawn hself hphase output nextState)
      | okRetry output retry =>
          exact hdrawn (hretry _ retry (KanaTable.transition_okRetry_ne_nil htrans))
      | noMatch flush retry =>
          cases retry with
          | some retryCh =>
              exact hdrawn (hretry _ retryCh (KanaTable.transition_noMatch_ne_nil htrans))
          | none =>
              refine Runs.ite (fun _ => ?_) fun _ => ?_
              · exact hplain (midashiToggleKana_drawn hself hphase kanaBuf)
              · exact hplain (midashi_redraw hself hphase kanaBuf [] (.inr rfl))

end Midashi

/-! ### The kana modes -/

/-- The conversion trigger a key types in a kana mode: it starts a reading and ends it. -/
def typedInKana (self : SkkEngine δ) (event : KeyEvent) : Option TypedTrigger :=
  match event.printableChar with
  | some ch =>
      if event.modifiers.ctrl ∨ !self.kanaState.isEmpty ∨ ch ∈ self.keybindings.asciiMode ∨
          ch ∈ self.keybindings.wideAsciiMode ∨ ch ∈ self.keybindings.abbrevMode ∨
          ch ∈ self.keybindings.katakanaMode ∨ !ch.isUpper then none
      else
        SkkEngine.typedInMidashi redispatchFuel { self with
          midashiDisplayMode := kanaModeOf self.phase
          midashiIsAbbrev := false
          phase := .midashi [] [] } event [] []
  | none => none

/-- A key with Ctrl, other than C-j and C-q, whose character the kana handler drops along
with the pending romaji. -/
def isDroppedCtrl (event : KeyEvent) : Bool :=
  event.modifiers.ctrl && event.printableChar.isSome &&
    decide (event.key ≠ .char 'j' ∧ event.key ≠ .char 'q')

section Kana
variable {self : SkkEngine δ}

/-- The kana modes are plain. -/
theorem isPlain_of_isKana {phase : SkkPhase} (h : phase.isKana) : phase.isPlain := by
  cases phase <;> simp_all [SkkPhase.isKana, SkkPhase.isPlain]

/-- A plain phase is no reading. -/
theorem isMidashi_of_isPlain {phase : SkkPhase} (h : phase.isPlain) : phase.isMidashi = false := by
  cases phase <;> simp_all [SkkPhase.isPlain, SkkPhase.isMidashi]

/-- In a kana mode any romaji may be pending. -/
theorem phaseWf_of_isKana {phase : SkkPhase} (h : phase.isKana) (kanaState : Str) :
    PhaseWf kanaState phase := by
  cases phase <;> simp_all [SkkPhase.isKana, PhaseWf]

/-- From a kana mode to a plain mode, with a `ClearPreedit`. It is the last step of most
branches of `handle_kana`. -/
theorem kana_leave (hself : self.Wf) (hkana : self.phase.isKana) {phase' : SkkPhase}
    {kanaState' : Str} {actions : List EngineAction} (hplain : phase'.isPlain)
    (hnil : kanaState' = []) (hlast : lastPreedit actions = some .clearPreedit)
    (hwindow : lastWindow actions = none)
    (hpreedits : ∀ preedit, .updatePreedit preedit ∈ actions → preedit.Wf) :
    Drawn none self ({ self with phase := phase', kanaState := kanaState' }, actions) :=
  have hphase := isPlain_of_isKana hkana
  ⟨.leave hself (self.keeps_compose _ _ _ _ _) (selection?_of_isPlain hphase) hplain hnil
    (fun _ hok => .of_not_midashi hok (isMidashi_of_isPlain hphase) rfl) hlast hwindow hpreedits,
    by rw [Redraws, hlast]; rfl⟩

/-- Within a kana mode the pending romaji changes and is drawn. -/
theorem kana_redraw (hself : self.Wf) (hkana : self.phase.isKana) (kanaState' : Str) :
    Runs { self with kanaState := kanaState' }.redraw (Drawn none self) := by
  have hphase := isPlain_of_isKana hkana
  have hsel := selection?_of_isPlain hphase
  exact redraw_drawn hself (self.keeps_compose _ _ _ _ _) hsel hsel (phaseWf_of_isKana hkana _)
    fun _ hok => .of_not_midashi hok (isMidashi_of_isPlain hphase) rfl

/-- A character fed to the table draws. As in `handleMidashi`, two levels of fuel are enough:
the start state hands nothing back, and a character that is handed back meets that state. -/
theorem feedKana_drawn (fuel : Nat) : ∀ {self : SkkEngine δ}, self.Wf → self.phase.isKana →
    1 ≤ fuel → (self.kanaState ≠ [] → 2 ≤ fuel) → ∀ (ch : Char) (mode : KanaMode),
    Runs (self.feedKana fuel ch mode) (Drawn none self) := by
  induction fuel with
  | zero => intro _ _ _ hfuel; cases hfuel
  | succ fuel ih =>
    intro self hself hkana _ hfuel ch mode
    have hplain := isPlain_of_isKana hkana
    have hsel := selection?_of_isPlain hplain
    -- the retry starts with nothing pending, so one more level of fuel is enough for it
    have hretry : ∀ retry, self.kanaState ≠ [] →
        Runs (SkkEngine.feedKana fuel { self with kanaState := [] } retry mode)
          (Drawn none self) := by
      intro retry hstate
      have hfuel' : 1 ≤ fuel := by have := hfuel hstate; omega
      have hmid : SkkEngine.Wf { self with kanaState := [] } :=
        ⟨hself.frames, phaseWf_of_isKana hkana _⟩
      refine (ih hmid hkana hfuel' (fun h => (h rfl).elim) retry mode).mono fun r hr => ?_
      exact hr.of_entered (self.keeps_compose _ _ _ _ _) hsel hsel fun hok =>
        ⟨hok, fun _ hc => hc⟩
    unfold feedKana
    cases htrans : self.kanaTable.transition self.kanaState ch mode with
    | ok output nextState =>
        refine Runs.ite (fun _ => kana_redraw hself hkana _) fun _ => ?_
        refine Runs.ite (fun hnil => ?_) fun _ => ?_
        · exact runs_ok.mpr (kana_leave hself hkana hplain (List.isEmpty_iff.mp hnil) rfl rfl
            (by simp))
        · obtain ⟨a, ha, hdrawn⟩ := redraw_runs_iff.mp (kana_redraw hself hkana nextState)
          simp only [ha, ok_bind, runs_pure]
          exact hdrawn.prepend_commit output
    | okRetry output retry =>
        refine (hretry retry (KanaTable.transition_okRetry_ne_nil htrans)).bind fun r hr => ?_
        rw [runs_ok]
        split
        · exact hr
        · exact hr.prepend_commit output
    | noMatch flush retry =>
        cases retry with
        | some retryCh => exact hretry retryCh (KanaTable.transition_noMatch_ne_nil htrans)
        | none =>
            exact runs_ok.mpr (kana_leave hself hkana hplain rfl rfl rfl (by simp))

/-- A character in a kana mode with nothing pending: a mode key, the start of a composition, or
one for the table. -/
theorem kanaStart_drawn (hself : self.Wf) (hkana : self.phase.isKana)
    (hstate : self.kanaState = []) {event : KeyEvent} {ch : Char}
    (hch : event.printableChar = some ch) (hctrl : ¬ event.modifiers.ctrl) :
    Runs (self.kanaStart event ch (kanaModeOf self.phase))
      (Drawn (self.typedInKana event) self) := by
  have hplain := isPlain_of_isKana hkana
  have hsel := selection?_of_isPlain hplain
  have hmidashi := isMidashi_of_isPlain hplain
  have hleave : ∀ phase' : SkkPhase, phase'.isPlain → Runs (.ok ({ self with phase := phase' },
      [.clearPreedit])) (Drawn (self.typedInKana event) self) := fun phase' h =>
    have hd := kana_leave hself hkana h hstate rfl rfl (by simp)
    runs_ok.mpr ⟨hd.1.weaken, hd.2⟩
  have hweaken : ∀ {x}, Runs x (Drawn none self) → Runs x (Drawn (self.typedInKana event) self) :=
    fun h => h.mono fun _ hr => ⟨hr.1.weaken, hr.2⟩
  unfold kanaStart
  refine Runs.ite (fun _ => hleave _ rfl) fun hascii => ?_
  refine Runs.ite (fun _ => hleave _ rfl) fun hwide => ?_
  refine Runs.ite (fun _ => ?_) fun habbrev => Runs.ite (fun _ => hleave _ ?_) fun hkata => ?_
  · exact hweaken (redraw_drawn hself (self.keeps_compose _ _ _ _ _) hsel rfl hstate
      fun _ hok => .of_not_midashi hok hmidashi rfl)
  · split <;> rfl
  refine Runs.ite (fun hupper => ?_) fun _ => Runs.ite (fun _ => ?_) fun _ => ?_
  · -- The key starts a reading and is handled in it.
    have htyped : self.typedInKana event = SkkEngine.typedInMidashi redispatchFuel { self with
        midashiDisplayMode := kanaModeOf self.phase
        midashiIsAbbrev := false
        phase := .midashi [] [] } event [] [] := by
      simp only [typedInKana, hch]
      rw [if_neg]
      simp_all
    have hmid : SkkEngine.Wf { self with
        midashiDisplayMode := kanaModeOf self.phase
        midashiIsAbbrev := false
        phase := .midashi [] [] } := ⟨hself.frames, hstate⟩
    rw [htyped]
    refine (handleMidashi_post redispatchFuel hmid rfl (by decide) (fun _ => by decide)
      event).mono fun r hr => ?_
    have hprintable : event.printableChar.isSome := by rw [hch]; rfl
    refine Drawn.of_entered ⟨hr.1, hr.2 hprintable⟩ (self.keeps_compose _ _ _ _ _) hsel rfl
      fun hok => ⟨fun c hc => ⟨rfl, (hok c hc).2⟩, fun _ hc => hc⟩
  · exact hweaken (redraw_drawn hself (self.keeps_compose _ _ _ _ _) hsel rfl hstate
      fun _ hok => .of_not_midashi hok hmidashi rfl)
  · exact hweaken (feedKana_drawn _ hself hkana (by decide) (fun _ => by decide) ch _)

/-- The one silent change of the contract: a dropped Ctrl key clears the pending romaji. Every
other key draws what it changes. A key with Ctrl that is no command is passed on. -/
theorem handleKana_post (hself : self.Wf) (hkana : self.phase.isKana) (event : KeyEvent) :
    Runs (self.handleKana event)
      (Post (self.typedInKana event) (isDroppedCtrl event) self) := by
  have hplain := isPlain_of_isKana hkana
  have hsel := selection?_of_isPlain hplain
  have hpost : ∀ {x}, Runs x (Drawn none self) →
      Runs x (Post (self.typedInKana event) (isDroppedCtrl event) self) :=
    fun h => h.mono fun _ hr => hr.1.weaken
  have hidle : Runs (.ok (self, [.passthrough]))
      (Post (self.typedInKana event) (isDroppedCtrl event) self) :=
    runs_ok.mpr (Post.idle hself rfl rfl).weaken
  unfold handleKana
  refine Runs.ite (fun _ => ?_) fun hj => Runs.ite (fun _ => ?_) fun hq => ?_
  · exact hpost (runs_ok.mpr (kana_leave hself hkana rfl rfl rfl rfl (by simp)))
  · exact hpost (runs_ok.mpr (kana_leave hself hkana (by split <;> rfl) rfl rfl rfl (by simp)))
  refine Runs.ite (fun _ => ?_) fun _ => Runs.ite (fun _ => ?_) fun _ => ?_
  · refine hpost (runs_ok.mpr (kana_leave hself hkana ?_ rfl rfl rfl (by simp)))
    split
    · rfl
    · exact hplain
  · unfold kanaBackSpace
    exact Runs.ite (fun _ => hpost (kana_redraw hself hkana _)) fun _ => hidle
  cases hch : event.printableChar with
  | none => exact hidle
  | some ch =>
    refine Runs.ite (fun hctrl => ?_) fun hctrl => Runs.ite (fun hnil => ?_) fun _ => ?_
    · -- the exception of the contract, spelt out: the romaji are gone and nothing is drawn
      have hdrop : isDroppedCtrl event := by
        simp only [isDroppedCtrl, hctrl, hch, Option.isSome_some, Bool.and_self, Bool.true_and,
          decide_eq_true_eq]
        exact ⟨fun h => hj ⟨h, hctrl⟩, fun h => hq ⟨h, hctrl⟩⟩
      rw [runs_ok]
      exact {
        wf := ⟨hself.frames, phaseWf_of_isKana hkana _⟩
        config := ⟨rfl, rfl, rfl, rfl⟩
        dict := .refl
        stack := .inl rfl
        preedits := by simp
        shows := fun a ha => by cases ha
        silent := fun _ => .inr ⟨hdrop, rfl⟩
        window := fun a ha => by cases ha
        samePage := fun _ => rfl
        trigger := fun hok => .of_none (by exact hok.eq_none hsel) _
        completion := fun _ hok => .of_not_midashi hok (isMidashi_of_isPlain hplain) rfl }
    · exact (kanaStart_drawn hself hkana (List.isEmpty_iff.mp hnil) hch hctrl).mono
        fun _ hr => { hr.1 with silent := fun h => (hr.1.silent h).imp_right fun hd => hd.1.elim }
    · exact hpost (feedKana_drawn _ hself hkana (by decide) (fun _ => by decide) ch _)

end Kana

end SkkEngine

end Y2Skk
