import Y2Skk.Dict.File
import Y2Skk.Ipc.Qt
import Y2Skk.Proofs.Mute

/-!
# `Y2Skk.Proofs.Qt`: the keys of Qt that stand for no character

Most of these keys have no translation of their own, and `qtKeyToKeysym` passes their code
on. It lies in the range of the X11 Unicode keysyms, so the daemon reads a character out
of it.

## The key the engine sees

`qtKeyPress_cases` says which key the engine sees, for the whole range of these keys.
There are three kinds: a key with a character, one of the keys that send or complete what
a composition holds, and a key that no handler looks at. Three predicates on the code
decide it: whether it has a translation, whether its low bits name a character, and
whether it is one of the composing keys.

## What is typed

`isNonText_iff` combines it with what the engine does under such a key: the keys that are
typed as text are those without a translation, and AltGr, whose keysym lies in the range
of the characters. The composing keys have no character, but they send text that was typed
before; two short runs show it for each of them.
-/

set_option autoImplicit false

namespace Y2Skk

open Outcome Utf8 Transition

/-! ### The character of a Qt key -/

/-- Masking above `s` bits is masking the number without its low `s` bits. The prefix of a
keysym is its uppermost byte. -/
theorem land_shiftLeft (v m s : Nat) : v &&& (m <<< s) = ((v >>> s) &&& m) <<< s := by
  apply Nat.eq_of_testBit_eq
  intro i
  rw [Nat.testBit_and, Nat.testBit_shiftLeft, Nat.testBit_shiftLeft, Nat.testBit_and,
    Nat.testBit_shiftRight]
  by_cases hi : s ≤ i
  · simp [hi]
  · simp [hi]

/-- The keys below `0x02000000` have the prefix of a Unicode keysym, so one that is not
translated is read as a character, if it names one. -/
theorem prefix_of_nonText {k : UInt32} (hlow : 0x01000000 ≤ k) (hhigh : k ≤ 0x01FFFFFF) :
    k &&& 0xFF000000 = 0x01000000 := by
  have hlow' : 2 ^ 24 ≤ k.toNat := by simpa using UInt32.le_iff_toNat_le.mp hlow
  have hhigh' : k.toNat < 2 ^ 25 :=
    Nat.lt_succ_of_le (by simpa using UInt32.le_iff_toNat_le.mp hhigh)
  have hshift : k.toNat >>> 24 = 1 := by
    rw [Nat.shiftRight_eq_div_pow]
    omega
  apply UInt32.toNat_inj.mp
  rw [UInt32.toNat_and]
  -- Only bit 24 of the upper byte is set in the range.
  show k.toNat &&& (255 <<< 24) = (1 &&& 255) <<< 24
  rw [land_shiftLeft, hshift]

/-- The low 24 bits of a keysym are a Unicode scalar value, so that the daemon finds a character
there. -/
def namesChar (keySym : UInt32) : Bool := decide (keySym &&& 0x00FFFFFF).toNat.isValidChar

/-- `Qt::Key_AltGr`, the one translated key whose keysym names a character. -/
def qtAltGr : UInt32 := 0x01001103

/-- The key has a translation of its own. -/
def isQtTranslated (qtKey : UInt32) : Bool :=
  (qtSpecialKeysym qtKey).isSome || isQtFunctionKey qtKey

/-- The key is translated to a keysym without a character, or its code names none. -/
def isQtCharless (qtKey : UInt32) : Bool :=
  if isQtTranslated qtKey then decide (qtKey ≠ qtAltGr) else !namesChar qtKey

/-- The keys that send or complete what a composition holds: they are no characters, and yet
text comes of them. -/
def isQtComposing (qtKey : UInt32) : Bool :=
  decide (qtKey = 0x01000001 ∨ qtKey = 0x01000003 ∨ qtKey = 0x01000004 ∨ qtKey = 0x01000005)

/-- A keysym between those of `keysym` that the daemon names. -/
theorem specialKey_eq_none {sym : UInt32} (hlow : 0xFFBE ≤ sym) (hdelete : sym ≠ 0xFFFF) :
    specialKey sym = none := by
  unfold specialKey
  -- Each keysym that is named is below `0xFFBE`, or is that of Delete.
  split <;> first | rfl | exact absurd hlow (by decide) | exact absurd rfl hdelete

/-- The key of a translated keysym: AltGr is a character, four keys belong to the composition,
and the others are keys no handler looks at for text. -/
theorem keysymToKey_qtSpecialKeysym {qtKey sym : UInt32} (h : qtSpecialKeysym qtKey = some sym) :
    (qtKey = qtAltGr ∧ keysymToKey sym = .char (Char.ofNat 0xFE03)) ∨
    (qtKey ≠ qtAltGr ∧ isQtComposing qtKey ∧
      (keysymToKey sym = .tab ∨ keysymToKey sym = .backSpace ∨ keysymToKey sym = .returnKey)) ∨
    (qtKey ≠ qtAltGr ∧ isQtComposing qtKey = false ∧ (keysymToKey sym).isMute) := by
  unfold qtSpecialKeysym at h
  -- One arm of the match at a time, each with its own keysym.
  split at h <;> cases h <;> decide

/-- A function key is one that no handler looks at for text, in the whole range that Qt has and
the daemon numbers. -/
theorem keysymToKey_functionKey {qtKey : UInt32} (h : isQtFunctionKey qtKey) :
    (keysymToKey (f1Base + (qtKey - 0x01000030))).isMute := by
  have hrange := of_decide_eq_true h
  have hsym : f1Base ≤ f1Base + (qtKey - 0x01000030) ∧
      f1Base + (qtKey - 0x01000030) < f1Base + 15 := by
    unfold f1Base
    grind
  have hspecial : specialKey (f1Base + (qtKey - 0x01000030)) = none := by
    refine specialKey_eq_none hsym.1 fun heq => ?_
    rw [heq] at hsym
    exact absurd hsym.2 (by decide)
  unfold keysymToKey
  rw [hspecial]
  dsimp only
  rw [if_pos hsym]
  rfl

/-- An untranslated key is read as a Unicode keysym: as the character it names, or as a key the
daemon does not know. -/
theorem keysymToKey_nonText {qtKey : UInt32} (hlow : 0x01000000 ≤ qtKey)
    (hhigh : qtKey ≤ 0x01FFFFFF) :
    (namesChar qtKey ∧ ∃ c, keysymToKey qtKey = .char c) ∨
      (namesChar qtKey = false ∧ keysymToKey qtKey = .other qtKey) := by
  -- The code is above all keysyms that are named, the function keys included.
  have hspecial : specialKey qtKey = none := by
    refine specialKey_eq_none (UInt32.le_trans (by decide) hlow) ?_
    rintro rfl
    exact absurd hlow (by decide)
  have hfunction : ¬ (f1Base ≤ qtKey ∧ qtKey < f1Base + 15) := by
    unfold f1Base
    grind
  unfold keysymToKey namesChar
  rw [hspecial]
  dsimp only
  rw [if_neg hfunction, if_pos (prefix_of_nonText hlow hhigh), charFromU32]
  by_cases hchar : (qtKey &&& 0x00FFFFFF).toNat.isValidChar
  · rw [dif_pos hchar]
    exact .inl ⟨decide_eq_true hchar, _, rfl⟩
  · rw [dif_neg hchar]
    exact .inr ⟨decide_eq_false hchar, rfl⟩

/-- The key the engine sees, by the kind of the Qt key: a character, a key of the composition,
or one without a text. -/
theorem qtKeyPress_cases {qtKey : UInt32} (hlow : 0x01000000 ≤ qtKey) (hhigh : qtKey ≤ 0x01FFFFFF)
    (qtMods : UInt32) :
    (isQtCharless qtKey = false ∧ ∃ c, (qtKeyPress qtKey qtMods).key = .char c) ∨
    (isQtCharless qtKey ∧ isQtComposing qtKey ∧
      (qtKeyPress qtKey qtMods).printableChar = none) ∨
    (isQtCharless qtKey ∧ isQtComposing qtKey = false ∧ (qtKeyPress qtKey qtMods).key.isMute) := by
  have hkey : (qtKeyPress qtKey qtMods).key = keysymToKey (qtKeyToKeysym qtKey qtMods) := rfl
  rw [KeyEvent.printableChar, hkey]
  unfold qtKeyToKeysym isQtCharless isQtTranslated
  cases hspecial : qtSpecialKeysym qtKey with
  | some sym =>
      dsimp only
      rw [if_pos (show (some sym).isSome || isQtFunctionKey qtKey from rfl)]
      rcases keysymToKey_qtSpecialKeysym hspecial with ⟨hgr, hchar⟩ | ⟨hgr, hcomposing, h⟩ |
        ⟨hgr, hcomposing, hmute⟩
      · exact .inl ⟨decide_eq_false fun hne => hne hgr, _, hchar⟩
      · refine .inr (.inl ⟨decide_eq_true hgr, hcomposing, ?_⟩)
        rcases h with h | h | h <;> rw [h]
      · exact .inr (.inr ⟨decide_eq_true hgr, hcomposing, hmute⟩)
  | none =>
      have hcomposing : isQtComposing qtKey = false := by
        refine decide_eq_false ?_
        rintro (rfl | rfl | rfl | rfl) <;> cases hspecial
      have htranslated : ((none : Option UInt32).isSome || isQtFunctionKey qtKey) =
          isQtFunctionKey qtKey := rfl
      dsimp only
      rw [htranslated]
      by_cases hfunction : isQtFunctionKey qtKey
      · have hgr : qtKey ≠ qtAltGr := by
          rintro rfl
          cases hspecial
        rw [if_pos hfunction, if_pos hfunction]
        exact .inr (.inr ⟨decide_eq_true hgr, hcomposing, keysymToKey_functionKey hfunction⟩)
      · -- Space and the letters are below the range.
        have hspace : qtKey ≠ 0x20 := by
          rintro rfl
          exact absurd hlow (by decide)
        have hletter : ¬ ((0x41 ≤ qtKey ∧ qtKey ≤ 0x5A) ∧ qtMods &&& 0x02000000 = 0) := by
          rintro ⟨⟨-, hle⟩, -⟩
          exact absurd (UInt32.le_trans hlow hle) (by decide)
        rw [if_neg hfunction, if_neg hfunction, if_neg hspace, if_neg hletter]
        rcases keysymToKey_nonText hlow hhigh with ⟨hnames, c, hchar⟩ | ⟨hnames, hother⟩
        · exact .inl ⟨by simp [hnames], c, hchar⟩
        · exact .inr (.inr ⟨by simp [hnames], hcomposing, by rw [hother]; rfl⟩)

namespace SkkEngine

/-! ### The keys that are no text -/

/-- A selection of the digit `5` in all its forms is reached without a dictionary. It serves as
the state in which Return and BackSpace send a text. -/
theorem exists_session_selecting :
    letI := EucJp.empty
    ∃ (history : History Empty) (self : SkkEngine Empty) (s : Selection),
      Session (fresh vowelTable {} true .hiragana []) history self ∧ self.phase = .selecting s ∧
      self.rawMode = false ∧ self.registerStack = [] ∧ self.keybindings = {} := by
  let _ := EucJp.empty
  have hrecord := exists_session (fresh vowelTable {} true .hiragana [])
    (KeyEvent.typed ['A', '5'] ++ [.press .space {}])
    (fun _ (self : SkkEngine Empty) => self.phase.selection?.isSome ∧
      self.phase.texts.length = 2 ∧ self.rawMode = false ∧ self.registerStack = [] ∧
      self.keybindings = {})
    (by decide +kernel)
  obtain ⟨history, self, hrun, -, hselection, htexts, hraw, hstack, hkeys⟩ := hrecord
  cases hphase : self.phase with
  | selecting s => exact ⟨history, self, s, hrun, hphase, hraw, hstack, hkeys⟩
  | purgeConfirm s buf returnMode =>
      rw [hphase] at htexts
      cases htexts
  | _ =>
      rw [hphase] at hselection
      cases hselection

/-- A user dictionary with one headword, `あい`. -/
def aiDict : UserDict := (UserDict.empty.learn ⟨['あ', 'い'], none, [.new ['愛']]⟩).1

/-- The reading `あ` is completed to `あい`: a run that reaches a preview for Tab to take. The
preview is none of the buffers before Tab is pressed. -/
theorem exists_session_completing :
    letI := EucJp.empty
    ∃ (history : History UserDict) (self : SkkEngine UserDict) (state : CompletionState),
      Session (fresh vowelTable {} true .hiragana [aiDict]) history self ∧
      self.phase = .midashi ['あ'] [] ∧ self.completion = some state ∧
      state.preview = ['あ', 'い'] ∧ self.buffers = [[], [], ['あ'], []] ∧
      self.rawMode = false ∧ self.registerStack = [] ∧ self.keybindings = {} := by
  let _ := EucJp.empty
  have hrecord := exists_session (fresh vowelTable {} true .hiragana [aiDict])
    (KeyEvent.typed ['A'])
    (fun _ (self : SkkEngine UserDict) => self.phase = .midashi ['あ'] [] ∧
      self.completion.map CompletionState.preview = some ['あ', 'い'] ∧
      self.buffers = [[], [], ['あ'], []] ∧ self.rawMode = false ∧ self.registerStack = [] ∧
      self.keybindings = {})
    (by decide +kernel)
  obtain ⟨history, self, hrun, -, hphase, hpreview, hrest⟩ := hrecord
  obtain ⟨state, hstate, hpreview⟩ := Option.map_eq_some_iff.mp hpreview
  exact ⟨history, self, state, hrun, hphase, hstate, hpreview, hrest⟩

/-- The key has no character, and a press of it sends and inserts no text, in whatever state a
session has reached. -/
structure IsNonText (qtKey qtMods : UInt32) : Prop where
  charless : (qtKeyPress qtKey qtMods).printableChar = none
  textFree : ∀ {δ : Type} [DictionaryProvider δ] [EucJp] {kanaTable : KanaTable}
    {keybindings : SkkKeybindings} {lispDirectives : Bool} {initialPhase : SkkPhase}
    {providers : List δ} {history : History δ} {self self' : SkkEngine δ}
    {actions : List EngineAction},
    Session (fresh kanaTable keybindings lispDirectives initialPhase providers) history self →
    Step self (qtKeyPress qtKey qtMods) self' actions → TextFree self (self', actions)

/-- With the default keys, a press other than Space reaches the handler, when raw mode is
off. -/
theorem cooks_of_default {δ : Type} {self : SkkEngine δ} {event : KeyEvent}
    (hpress : event.isPress) (hraw : self.rawMode = false) (hkeys : self.keybindings = {})
    (hspace : event.key ≠ .space) : self.cooks event ∧ self.isToggle event = false := by
  simp [cooks, isRawToggle, isToggle, isKeyOf, hpress, hraw, hkeys, hspace]

/-- Return, Enter and BackSpace commit a selection, and Tab completes a reading, so these four
put text into the application. -/
theorem not_isNonText_of_composing {qtKey : UInt32} (h : isQtComposing qtKey) (qtMods : UInt32) :
    ¬ IsNonText qtKey qtMods := by
  intro htext
  have hpress : (qtKeyPress qtKey qtMods).isPress := rfl
  have hkey : (qtKeyPress qtKey qtMods).key = .tab ∨
      ((qtKeyPress qtKey qtMods).key = .backSpace ∨
        (qtKeyPress qtKey qtMods).key = .returnKey) := by
    rcases of_decide_eq_true h with rfl | rfl | rfl | rfl
    · exact .inl rfl
    · exact .inr (.inl rfl)
    · exact .inr (.inr rfl)
    · exact .inr (.inr rfl)
  let _ := EucJp.empty
  rcases hkey with hkey | hkey
  · obtain ⟨history, self, state, hrun, hphase, hstate, hpreview, hbuffers, hraw, hstack, hkeys⟩ :=
      exists_session_completing
    have hself : self.Wf := Session.wf (fresh_wf ..) hrun
    obtain ⟨hcooks, htoggle⟩ := cooks_of_default hpress hraw hkeys (by simp [hkey])
    obtain ⟨self', actions, hstep, hmem⟩ :=
      midashi_completes hself hcooks hstack htoggle hphase hstate hkey
    obtain ⟨old, hold, hsublist⟩ := (htext.textFree hrun hstep).2 _ hmem
    -- No text that was held is as long as the completed reading.
    have hlength := hsublist.length_le
    rw [hpreview] at hlength
    rw [hbuffers] at hold
    simp only [List.mem_cons, List.not_mem_nil, or_false] at hold
    rcases hold with rfl | rfl | rfl | rfl <;> simp at hlength
  · -- Return and BackSpace send the candidate of a selection.
    obtain ⟨history, self, s, hrun, hphase, hraw, hstack, hkeys⟩ := exists_session_selecting
    have hself : self.Wf := Session.wf (fresh_wf ..) hrun
    have hspace : (qtKeyPress qtKey qtMods).key ≠ .space := by
      rcases hkey with hkey | hkey <;> simp [hkey]
    obtain ⟨hcooks, htoggle⟩ := cooks_of_default hpress hraw hkeys hspace
    obtain ⟨self', actions, text, hstep, hmem⟩ :=
      selecting_commits hself hcooks hstack htoggle hphase hkey
    exact (htext.textFree hrun hstep).1 text hmem

/-- A Qt key from the range without characters has none, whatever the modifiers, exactly when
it is translated to a keysym without a character or its code names none. It is no text exactly
when, besides, it is not one of the keys that send or complete a composition. -/
theorem isNonText_iff {qtKey : UInt32} (hlow : 0x01000000 ≤ qtKey) (hhigh : qtKey ≤ 0x01FFFFFF)
    (qtMods : UInt32) :
    ((qtKeyPress qtKey qtMods).printableChar = none ↔ isQtCharless qtKey) ∧
      (IsNonText qtKey qtMods ↔ isQtCharless qtKey ∧ isQtComposing qtKey = false) := by
  -- a key with a character, one that composes without a character, and one that is mute
  rcases qtKeyPress_cases hlow hhigh qtMods with ⟨hchar, c, hkey⟩ |
    ⟨hcharless, hcomposing, hnone⟩ | ⟨hcharless, hcomposing, hmute⟩
  · have hsome : (qtKeyPress qtKey qtMods).printableChar = some c := by
      rw [KeyEvent.printableChar, hkey]
    refine ⟨iff_of_false (by simp [hsome]) (by simp [hchar]), ?_⟩
    refine iff_of_false (fun h => ?_) (by simp [hchar])
    have hnone := h.charless
    rw [hsome] at hnone
    cases hnone
  · refine ⟨iff_of_true hnone hcharless, ?_⟩
    exact iff_of_false (not_isNonText_of_composing hcomposing qtMods) (by simp [hcomposing])
  · have hnone := KeyEvent.printableChar_of_isMute hmute
    refine ⟨iff_of_true hnone hcharless, iff_of_true ⟨hnone, ?_⟩ ⟨hcharless, hcomposing⟩⟩
    intro δ _ _ kanaTable keybindings lispDirectives initialPhase providers history self self'
      actions hrun hstep
    exact step_textFree (Session.wf (fresh_wf ..) hrun) hmute hstep

/-- Escape is no text, and neither is a key whose code names a surrogate. -/
theorem isNonText_iff_escape : IsNonText 0x01000000 0 ∧ IsNonText 0x0100D800 0 :=
  ⟨(isNonText_iff (by decide) (by decide) 0).2.mpr (by decide),
    (isNonText_iff (by decide) (by decide) 0).2.mpr (by decide)⟩

/-- `Qt::Key_Home` has no translation: it is read as the control character U+0010, which a new
engine commits. The low bits of the code are taken for a character code. -/
theorem home_typed :
    letI := EucJp.empty
    (0x01000000 : UInt32) ≤ 0x01000010 ∧ (0x01000010 : UInt32) ≤ 0x01FFFFFF ∧
    (qtKeyPress 0x01000010 0).printableChar = some (Char.ofNat 0x10) ∧
    (∃ (self self' : SkkEngine Empty) (actions : List EngineAction),
      Session (fresh vowelTable {} true .hiragana []) [] self ∧
      Step self (qtKeyPress 0x01000010 0) self' actions ∧
      .commit [Char.ofNat 0x10] ∈ actions) ∧
    ¬ IsNonText 0x01000010 0 := by
  let _ := EucJp.empty
  have hchar : (qtKeyPress 0x01000010 0).printableChar = some (Char.ofNat 0x10) := by decide
  have hrecord := exists_session (fresh vowelTable {} true .hiragana []) []
    (fun _ (self : SkkEngine Empty) =>
      ∃ r ∈ (self.processKey (qtKeyPress 0x01000010 0)).toOption,
        r.2 = [.commit [Char.ofNat 0x10], .clearPreedit])
    (by decide +kernel)
  obtain ⟨history, self, hrun, hinputs, r, hr, hactions⟩ := hrecord
  obtain rfl : history = [] := List.map_eq_nil_iff.mp hinputs
  refine ⟨by decide, by decide, hchar, ⟨self, r.1, r.2, hrun, ok_of_mem_toOption hr, ?_⟩, ?_⟩
  · rw [hactions]
    simp
  · intro h
    have hnone := h.charless
    rw [hchar] at hnone
    cases hnone

end SkkEngine

end Y2Skk
