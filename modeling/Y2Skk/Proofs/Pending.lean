import Y2Skk.Proofs.NoPanic

/-!
# `Y2Skk.Proofs.Pending`: the pending romaji

The romaji typed so far is kept twice, in the phase and in the state of the table.
`romaji_of_session` says that the two agree in every reachable state, and that the user
sees it in front of the cursor, so that a character is read with the romaji it is typed
after.

## One romaji, kept twice

That the two copies agree is a part of `SkkEngine.Wf`, phase by phase, and so is that
nothing is pending where the table is not used: in direct input, in an abbreviation, in a
code, and over candidates.

## Where it is drawn

`buildPreedit_endsIn` is about what is drawn: in every phase the text in front of the
cursor ends in the pending romaji. A prompt of a registration stands before and behind it
and does not come between the two, and the ghost of a completion is drawn only when
nothing is pending.
-/

set_option autoImplicit false

namespace Y2Skk

open Outcome Utf8 Transition

/-- The phases whose keys do not go through the kana table. -/
def SkkPhase.bypassesTable : SkkPhase → Bool
  | .ascii | .wideAscii | .abbrev _ | .codeInput _ _ | .selecting _ | .purgeConfirm _ _ _ => true
  | _ => false

/-- The text of the preedit in front of its cursor ends in `text`. -/
def Preedit.EndsIn (preedit : Preedit) (text : Str) : Prop :=
  ∃ before after, preedit.text = before ++ text ++ after ∧
    preedit.cursor = byteLen (before ++ text)

namespace SkkEngine

variable {δ : Type}

/-! ### One romaji, kept twice -/

/-- Wherever it is placed, inside a prompt or on its own, a text keeps the cursor at its end. -/
theorem placePreedit_endsIn {self : SkkEngine δ} (hself : self.Wf) (before text : Str)
    (ghost : Bool) (after : Str) :
    Runs (self.placePreedit (before ++ text ++ after) (byteLen (before ++ text)) ghost)
      (Preedit.EndsIn · text) := by
  unfold placePreedit
  cases hstack : self.registerStack with
  | nil => exact runs_ok.mpr ⟨before, after, rfl, rfl⟩
  | cons frame frames =>
      obtain ⟨front, back, hcommitted, hlen⟩ := (hself.frames frame (by simp [hstack])).cursor
      simp only [hcommitted, ← hlen, sliceTo_append, sliceFrom_append, ok_bind, runs_ok]
      exact ⟨registerPrompt frame (frame :: frames).length ++ front ++ before, after ++ back,
        by simp [List.append_assoc], by simp [Nat.add_assoc]⟩

/-- In every phase the pending romaji ends what is drawn of the phase, before any prompt is put
around it. -/
theorem buildInnerPreedit_suffix {self : SkkEngine δ} (hself : self.Wf) :
    Runs self.buildInnerPreedit fun inner => self.kanaState <:+ inner := by
  have hphase := hself.phase
  unfold buildInnerPreedit
  -- Phase by phase; where the table is not used there is nothing pending to draw.
  cases hcase : self.phase with
  | midashi kanaBuf romanBuf =>
      rw [hcase] at hphase
      rw [show self.kanaState = romanBuf from hphase]
      exact runs_ok.mpr (List.suffix_append _ _)
  | hiragana | katakana | halfWidthKatakana => exact runs_ok.mpr (List.suffix_refl _)
  | okuri midashi okuriPrefix kanaBuf => exact runs_ok.mpr (List.suffix_append _ _)
  | ascii | wideAscii | «abbrev» buf =>
      rw [hcase] at hphase
      rw [show self.kanaState = [] from hphase]
      exact runs_ok.mpr List.nil_suffix
  | codeInput codePrefix buf =>
      rw [hcase] at hphase
      rw [show self.kanaState = [] from hphase]
      cases codePrefix <;> exact runs_ok.mpr List.nil_suffix
  | selecting s | purgeConfirm s buf returnMode =>
      rw [hcase] at hphase
      rw [hphase.1]
      have hruns := buildInnerPreedit_runs hself
      unfold buildInnerPreedit at hruns
      rw [hcase] at hruns
      exact hruns.mono fun _ _ => List.nil_suffix

/-- In every phase the pending romaji is what is typed last in front of the cursor. -/
theorem buildPreedit_endsIn {self : SkkEngine δ} (hself : self.Wf) :
    Runs self.buildPreedit (Preedit.EndsIn · self.kanaState) := by
  have hplain : Runs self.plainPreedit (Preedit.EndsIn · self.kanaState) := by
    unfold plainPreedit
    refine (buildInnerPreedit_suffix hself).bind ?_
    rintro _ ⟨before, rfl⟩
    have hplace := placePreedit_endsIn hself before self.kanaState false []
    rwa [List.append_nil] at hplace
  unfold buildPreedit
  split
  · rename_i kanaBuf state hcase _
    refine Runs.ite (fun hleading => ?_) fun _ => hplain
    obtain ⟨suffix, hpreview⟩ := List.isPrefixOf_iff_prefix.mp hleading
    rw [← hpreview, sliceFrom_append, ok_bind]
    -- A ghost is shown only when nothing is pending.
    have hpending : self.kanaState = [] := hself.phase_eq hcase
    have hplace := placePreedit_endsIn hself
      ('▽' :: displayReading self.midashiDisplayMode kanaBuf) [] true (ghostSeparator ++ suffix)
    have hcursor : byteLen ('▽' :: displayReading self.midashiDisplayMode kanaBuf)
        = 3 + byteLen (displayReading self.midashiDisplayMode kanaBuf) := by
      rw [byteLen_cons]
      rfl
    rw [List.append_nil, hcursor, ← List.append_assoc] at hplace
    rw [hpending]
    exact hplace
  · exact hplain

section Session
variable [DictionaryProvider δ] [EucJp] {history : History δ} {self : SkkEngine δ}

/-- In every reachable state: the romaji of a reading is the state of the table, nothing is
pending where the table is not used, and what is pending stands in front of the cursor. -/
theorem romaji_of_session {kanaTable : KanaTable} {keybindings : SkkKeybindings}
    {lispDirectives : Bool} {initialPhase : SkkPhase} {providers : List δ}
    (hrun : Session (fresh kanaTable keybindings lispDirectives initialPhase providers)
      history self) :
    (∀ kanaBuf romanBuf, self.phase = .midashi kanaBuf romanBuf → romanBuf = self.kanaState) ∧
    (self.phase.bypassesTable → self.kanaState = []) ∧
    Runs self.buildPreedit (Preedit.EndsIn · self.kanaState) := by
  -- The invariant of a reachable state says the first two, and the drawing says the third.
  have hself : self.Wf := Session.wf (fresh_wf ..) hrun
  refine ⟨fun kanaBuf romanBuf hcase => ?_, fun hbypass => ?_, buildPreedit_endsIn hself⟩
  · have hpending : self.kanaState = romanBuf := hself.phase_eq hcase
    exact hpending.symm
  · have hphase := hself.phase
    cases hcase : self.phase with
    | ascii | wideAscii | «abbrev» buf | codeInput codePrefix buf =>
        rw [hcase] at hphase
        exact hphase
    | selecting s | purgeConfirm s buf returnMode =>
        rw [hcase] at hphase
        exact hphase.1
    | _ =>
        rw [hcase] at hbypass
        cases hbypass

end Session

/-- A kana table with `a`, `na`, and `n` before any other character. -/
def nasalTable : KanaTable :=
  ⟨[⟨[], .char 'a', [], ['あ']⟩, ⟨[], .char 'n', ['n'], []⟩, ⟨['n'], .char 'a', [], ['な']⟩,
    ⟨['n'], .wildcard, [], ['ん']⟩], [], []⟩

/-- The romaji of a reading that ends in `n`: reading, kana state and the end of the preedit
agree after the keys `A` and `n`. -/
theorem romaji_of_session_pending :
    letI := EucJp.empty
    ∃ (history : History Empty) (self : SkkEngine Empty),
      Session (fresh nasalTable {} true .hiragana []) history self ∧
      self.phase = .midashi ['あ'] ['n'] ∧ self.kanaState = ['n'] ∧
      Runs self.buildPreedit (Preedit.EndsIn · ['n']) := by
  let _ := EucJp.empty
  have hrecord := exists_session (fresh nasalTable {} true .hiragana [])
    (KeyEvent.typed ['A', 'n']) (fun _ (self : SkkEngine Empty) =>
      self.phase = .midashi ['あ'] ['n'])
    (by decide +kernel)
  obtain ⟨history, self, hrun, -, hphase⟩ := hrecord
  obtain ⟨hreading, -, hshown⟩ := romaji_of_session hrun
  have hpending : self.kanaState = ['n'] := (hreading _ _ hphase).symm
  rw [hpending] at hshown
  exact ⟨history, self, hrun, hphase, hpending, hshown⟩

end SkkEngine

end Y2Skk
