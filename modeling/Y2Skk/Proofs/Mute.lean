import Y2Skk.Proofs.Conclude

/-!
# `Y2Skk.Proofs.Mute`: keys that stand for no text

A key that moves, deletes or cancels, or that the engine does not know, brings no text
with it. `TextFree` says of a step that nothing is committed and no text that is held has
gained a character, and `step_textFree` that such a key is `TextFree` in every state.

Return, BackSpace and Tab are not among these keys: they send or complete what a
composition holds (`selecting_commits`, `midashi_completes`).

## Texts that are held

`buffers` lists the texts of the engine: the pending romaji, the buffers of the
composition, a conversion trigger, and what was typed into the registrations. A step
inserts nothing when each text afterwards is a sublist of one before. That is what Delete
does to a buffer, and moving the cursor does less; a cancelled registration brings back a
reading that the frame has kept all along.

## The proof

`Recedes` is the contract of a phase handler for these keys, proved once for each phase.
In a registration the key may be taken before a handler sees it, and
`registrationKey_textFree` covers that. `step_textFree` puts the two together along the
cases of a press.
-/

set_option autoImplicit false

namespace Y2Skk

open Outcome Utf8 Transition

/-- The keys that move, delete or cancel, and those the engine does not know. -/
def Key.isMute : Key → Bool
  | .delete | .escape | .up | .down | .left | .right | .pageUp | .pageDown | .f _ | .other _ =>
      true
  | _ => false

/-- The texts of a phase. -/
def SkkPhase.texts : SkkPhase → List Str
  | .codeInput _ buf | .abbrev buf => [buf]
  | .midashi kanaBuf romanBuf => [kanaBuf, romanBuf]
  | .okuri headword _ kanaBuf => [headword, kanaBuf]
  | .selecting s => [s.midashi, s.okuri.getD []]
  | .purgeConfirm s buf _ => [s.midashi, s.okuri.getD [], buf]
  | _ => []

/-- A kana mode holds no text of its own. -/
@[simp] theorem KanaMode.texts_toPhase (mode : KanaMode) : mode.toPhase.texts = [] := by
  cases mode <;> rfl

namespace Key

variable {key : Key}

/-- Such a key is no character. -/
theorem ne_char_of_isMute (h : key.isMute) (c : Char) : key ≠ .char c := by
  rintro rfl
  cases h

/-- Nor one of the keys with a meaning of their own in a composition. -/
theorem ne_special_of_isMute (h : key.isMute) :
    key ≠ .space ∧ key ≠ .returnKey ∧ key ≠ .backSpace ∧ key ≠ .tab := by
  refine ⟨?_, ?_, ?_, ?_⟩ <;> rintro rfl <;> cases h

end Key

/-- It has no character, so the handlers do not come to their tables. -/
theorem KeyEvent.printableChar_of_isMute {event : KeyEvent} (h : event.key.isMute) :
    event.printableChar = none := by
  cases hkey : event.key with
  | char c => exact (Key.ne_char_of_isMute h c hkey).elim
  | space => exact ((Key.ne_special_of_isMute h).1 hkey).elim
  | _ => rw [KeyEvent.printableChar, hkey]

namespace SkkEngine

variable {δ : Type} {self mid : SkkEngine δ} {event : KeyEvent} {actions : List EngineAction}

/-- The texts the engine holds: pending romaji, the composition, a conversion trigger, and what
was typed into the registrations. -/
def buffers (self : SkkEngine δ) : List Str :=
  self.kanaState :: self.conversionTrigger.getD [] :: self.phase.texts ++
    self.registerStack.flatMap fun frame => [frame.originalMidashi, frame.committed]

/-- Every text held afterwards is one that was held before, less some characters. -/
def InsertsNothing (self self' : SkkEngine δ) : Prop :=
  ∀ text ∈ self'.buffers, ∃ old ∈ self.buffers, text.Sublist old

/-- Texts that are kept or dropped. -/
theorem InsertsNothing.of_subset {self' : SkkEngine δ}
    (h : ∀ text ∈ self'.buffers, text = [] ∨ text ∈ self.buffers) : self.InsertsNothing self' := by
  intro text htext
  rcases h text htext with rfl | hold
  · exact ⟨self.kanaState, by simp [buffers], List.nil_sublist _⟩
  · exact ⟨text, hold, .refl text⟩

/-- Nothing is committed, and no character is inserted into any text. -/
def TextFree (self : SkkEngine δ) (r : SkkEngine δ × List EngineAction) : Prop :=
  (∀ text, .commit text ∉ r.2) ∧ self.InsertsNothing r.1

/-- What a phase handler does with a key that stands for no text. -/
structure Recedes (start : SkkEngine δ) (r : SkkEngine δ × List EngineAction) : Prop where
  quiet : ∀ a ∈ r.2, a ≠ .deleteBack ∧ ∀ text, a ≠ .commit text
  stack : r.1.registerStack = start.registerStack
  inserts : start.InsertsNothing r.1

/-- A composition that is kept, left, or cancelled to its reading: the actions send nothing, the
registrations stay, and every text of the new state is empty or one of the old texts. -/
theorem recedes_of (hquiet : ∀ a ∈ actions, a ≠ .deleteBack ∧ ∀ text, a ≠ .commit text)
    (hstack : mid.registerStack = self.registerStack)
    (hkana : mid.kanaState = [] ∨ mid.kanaState = self.kanaState)
    (htrigger : mid.conversionTrigger = none ∨ mid.conversionTrigger = self.conversionTrigger)
    (hphase : ∀ text ∈ mid.phase.texts, text = [] ∨ text ∈ self.phase.texts) :
    Recedes self (mid, actions) := by
  refine ⟨hquiet, hstack, .of_subset fun text htext => ?_⟩
  simp only [buffers, List.cons_append, List.mem_cons, List.mem_append] at htext ⊢
  rcases htext with rfl | rfl | hmem | hmem
  · exact hkana.imp id .inl
  · rcases htrigger with h | h
    · exact .inl (by rw [h]; rfl)
    · exact .inr (.inr (.inl (by rw [h])))
  · exact (hphase text hmem).imp id fun h => .inr (.inr (.inl h))
  · exact .inr (.inr (.inr (.inr (by rw [← hstack]; exact hmem))))

/-- The key is passed on or ignored. -/
theorem recedes_self (hquiet : ∀ a ∈ actions, a ≠ .deleteBack ∧ ∀ text, a ≠ .commit text) :
    Recedes self (self, actions) :=
  recedes_of hquiet rfl (.inr rfl) (.inr rfl) fun _ h => .inr h

/-- A state with fewer texts is drawn. The only action is the preedit, which sends no text to
the application. -/
theorem redraw_recedes (hstack : mid.registerStack = self.registerStack)
    (hkana : mid.kanaState = [] ∨ mid.kanaState = self.kanaState)
    (htrigger : mid.conversionTrigger = none ∨ mid.conversionTrigger = self.conversionTrigger)
    (hphase : ∀ text ∈ mid.phase.texts, text = [] ∨ text ∈ self.phase.texts) :
    Yields mid.redraw (Recedes self) := by
  refine (redraw_yields mid).mono ?_
  rintro _ ⟨preedit, rfl⟩
  exact recedes_of (by simp) hstack hkana htrigger hphase

section Handlers
variable [DictionaryProvider δ]

/-- The reading of a cancelled selection was held by it, so the reading that comes back is no
new text. -/
theorem backToMidashi_recedes {s : Selection} (hphase : self.phase = .selecting s) :
    Yields (self.backToMidashi s) (Recedes self) := by
  unfold backToMidashi
  dsimp only
  rw [updateCompletion_eq]
  refine (preeditAction_yields _).bind ?_
  rintro _ ⟨preedit, rfl⟩
  refine yields_pure.mpr (recedes_of (by simp) rfl (.inl rfl) (.inl rfl) ?_)
  rw [hphase]
  intro text htext
  simp only [SkkPhase.texts, List.mem_cons, List.not_mem_nil, or_false] at htext ⊢
  exact htext.symm.imp id .inl

/-- At the candidates Escape goes back to the reading, and the others are ignored. None of them
has a character, so no branch that compares one is taken. -/
theorem handleSelecting_recedes {s : Selection} (hphase : self.phase = .selecting s)
    (hkey : event.key.isMute) : Yields (self.handleSelecting event s) (Recedes self) := by
  obtain ⟨hspace, hreturn, hbackSpace, -⟩ := Key.ne_special_of_isMute hkey
  have hchar := Key.ne_char_of_isMute hkey
  have hnone := KeyEvent.printableChar_of_isMute hkey
  have hselected : self.selectedByKey s event = none := by
    unfold selectedByKey
    split
    · rw [hnone]
      rfl
    · rfl
  unfold handleSelecting
  refine Yields.ite (fun _ => backToMidashi_recedes hphase) fun _ => ?_
  rw [hselected, hnone, if_neg (by simp), if_neg hbackSpace, if_neg hreturn,
    if_neg (by simp [hchar]), if_neg hspace]
  dsimp only
  rw [if_neg (by simp [hchar]), if_neg (by simp), if_neg (by simp)]
  exact yields_ok.mpr (recedes_self (by simp))

/-- A reading is cancelled by Escape, or kept. No other key of this kind has a branch, and the
key is passed on. -/
theorem handleMidashi_recedes {kanaBuf romanBuf : Str}
    (hkey : event.key.isMute) (fuel : Nat) :
    Yields (self.handleMidashi (fuel + 1) event kanaBuf romanBuf) (Recedes self) := by
  obtain ⟨hspace, hreturn, hbackSpace, htab⟩ := Key.ne_special_of_isMute hkey
  have hchar := Key.ne_char_of_isMute hkey
  unfold handleMidashi
  refine Yields.ite (fun _ => ?_) fun _ => ?_
  · exact yields_ok.mpr (recedes_of (by simp) rfl (.inl rfl) (.inr rfl) (by simp [SkkPhase.texts]))
  rw [if_neg hbackSpace, if_neg hreturn, if_neg hspace, if_neg htab, if_neg (by simp [hchar]),
    KeyEvent.printableChar_of_isMute hkey]
  exact yields_ok.mpr (recedes_self (by simp))

omit [DictionaryProvider δ] in
/-- Escape leaves a mode that holds no text, or a composition. -/
theorem leave_recedes {phase : SkkPhase} (htexts : phase.texts = [])
    (hquiet : ∀ a ∈ actions, a ≠ .deleteBack ∧ ∀ text, a ≠ .commit text) :
    Recedes self ({ self with phase := phase, kanaState := [] }, actions) :=
  recedes_of hquiet rfl (.inl rfl) (.inr rfl) (by simp [htexts])

/-- A kana mode has no text but the pending romaji: Escape drops it, and all other keys of this
kind are passed on. -/
theorem handleKana_recedes (hkana : self.phase.texts = []) (hkey : event.key.isMute) :
    Yields (self.handleKana event) (Recedes self) := by
  obtain ⟨-, -, hbackSpace, -⟩ := Key.ne_special_of_isMute hkey
  have hchar := Key.ne_char_of_isMute hkey
  unfold handleKana
  dsimp only
  rw [if_neg (by simp [hchar]), if_neg (by simp [hchar])]
  refine Yields.ite (fun _ => ?_) fun _ => ?_
  · refine yields_ok.mpr (leave_recedes ?_ (by simp))
    split
    · rfl
    · exact hkana
  · rw [if_neg hbackSpace, KeyEvent.printableChar_of_isMute hkey]
    exact yields_ok.mpr (recedes_self (by simp))

omit [DictionaryProvider δ] in
/-- Full-width input holds no text, and a key without a character commits none. -/
theorem handleWideAscii_recedes (hwide : self.phase.texts = []) (hkey : event.key.isMute) :
    Yields (self.handleWideAscii event) (Recedes self) := by
  have hchar := Key.ne_char_of_isMute hkey
  unfold handleWideAscii
  rw [if_neg (by simp [hchar])]
  refine Yields.ite (fun _ => ?_) fun _ => ?_
  · refine yields_ok.mpr (recedes_of (by simp) rfl (.inr rfl) (.inr rfl) ?_)
    dsimp only
    split
    · simp [SkkPhase.texts]
    · simp [hwide]
  · rw [KeyEvent.printableChar_of_isMute hkey]
    exact yields_ok.mpr (recedes_self (by simp))

omit [DictionaryProvider δ] in
/-- A code is cancelled or kept. The mode passes nothing on, so the code is drawn again where
nothing has changed. -/
theorem handleCodeInput_recedes [EucJp] {codePrefix : CodeInputPrefix} {buf : Str}
    (hkey : event.key.isMute) :
    Yields (self.handleCodeInput event codePrefix buf) (Recedes self) := by
  obtain ⟨-, hreturn, hbackSpace, -⟩ := Key.ne_special_of_isMute hkey
  have hchar := Key.ne_char_of_isMute hkey
  unfold handleCodeInput
  refine Yields.ite (fun _ => ?_) fun _ => ?_
  · exact yields_ok.mpr (leave_recedes (KanaMode.texts_toPhase _) (by simp))
  · rw [if_neg hbackSpace, KeyEvent.printableChar_of_isMute hkey, if_neg (by simp),
      if_neg (by simp [hreturn, hchar])]
    exact redraw_recedes rfl (.inr rfl) (.inr rfl) fun _ h => .inr h

/-- An abbreviation is cancelled or kept, and drawn again where nothing has changed. -/
theorem handleAbbrev_recedes {buf : Str} (hkey : event.key.isMute) :
    Yields (self.handleAbbrev event buf) (Recedes self) := by
  obtain ⟨hspace, hreturn, hbackSpace, -⟩ := Key.ne_special_of_isMute hkey
  have hchar := Key.ne_char_of_isMute hkey
  unfold handleAbbrev
  refine Yields.ite (fun _ => ?_) fun _ => ?_
  · refine yields_ok.mpr (recedes_of (by simp) rfl (.inr rfl) (.inr rfl) ?_)
    simp [kanaPhaseFromDisplayMode]
  · rw [if_neg hbackSpace, if_neg hspace, if_neg (by simp [hchar]), if_neg hreturn,
      KeyEvent.printableChar_of_isMute hkey]
    exact redraw_recedes rfl (.inr rfl) (.inr rfl) fun _ h => .inr h

/-- An okurigana is left by Escape, and its reading with it, or it is kept; a key that has no
branch here is passed on. -/
theorem handleOkuri_recedes {headword kanaBuf : Str} {okuriPrefix : Char}
    (hkey : event.key.isMute) :
    Yields (self.handleOkuri event headword okuriPrefix kanaBuf) (Recedes self) := by
  obtain ⟨-, -, hbackSpace, -⟩ := Key.ne_special_of_isMute hkey
  unfold handleOkuri
  refine Yields.ite (fun _ => ?_) fun _ => ?_
  · exact yields_ok.mpr (leave_recedes rfl (by simp))
  · rw [if_neg hbackSpace, KeyEvent.printableChar_of_isMute hkey]
    exact yields_ok.mpr (recedes_self (by simp))

/-- The answer of a purge is kept. -/
theorem handlePurgeConfirm_recedes {buf : Str} (hkey : event.key.isMute) :
    Yields (self.handlePurgeConfirm event buf) (Recedes self) := by
  obtain ⟨-, hreturn, hbackSpace, -⟩ := Key.ne_special_of_isMute hkey
  unfold handlePurgeConfirm
  rw [if_neg hreturn, if_neg hbackSpace, KeyEvent.printableChar_of_isMute hkey]
  exact yields_ok.mpr (recedes_self (by simp))

/-- Escape leaves most compositions, and everything else leaves them as they are. One lemma for
each phase, and none of them lets a mute key commit a text. -/
theorem dispatch_recedes [EucJp] (hkey : event.key.isMute) :
    Yields (self.dispatch event) (Recedes self) := by
  unfold dispatch
  cases hphase : self.phase with
  | ascii =>
      have hchar := Key.ne_char_of_isMute hkey
      unfold handleAscii
      dsimp only
      rw [if_neg (by simp [hchar])]
      exact yields_ok.mpr (recedes_self (by simp))
  | hiragana | katakana | halfWidthKatakana =>
      exact handleKana_recedes (by rw [hphase]; rfl) hkey
  | wideAscii => exact handleWideAscii_recedes (by rw [hphase]; rfl) hkey
  | codeInput codePrefix buf => exact handleCodeInput_recedes hkey
  | «abbrev» buf => exact handleAbbrev_recedes hkey
  | midashi kanaBuf romanBuf => exact handleMidashi_recedes hkey 1
  | okuri headword okuriPrefix kanaBuf => exact handleOkuri_recedes hkey
  | selecting s => exact handleSelecting_recedes hphase hkey
  | purgeConfirm s buf returnMode => exact handlePurgeConfirm_recedes hkey

/-! ### In a registration -/

section Registrations
variable {frame : RegisterFrame} {frames : List RegisterFrame}

omit [DictionaryProvider δ] in
/-- A key edits the top frame, and none of its text is new: what the edit leaves in the buffer
is what was there, less some characters. -/
theorem editTop_textFree (hstack : self.registerStack = frame :: frames)
    {edit : RegisterFrame → Partial RegisterFrame} (htarget : Yields (edit frame) frame.SameTarget)
    (hedit : Yields (edit frame) fun frame' => frame'.committed.Sublist frame.committed) :
    Yields (do
      let self ← self.editTop edit
      self.redraw) (TextFree self) := by
  rw [editTop_cons hstack]
  cases hframe : edit frame with
  | error e => exact yields_error
  | ok frame' =>
      have hsublist := hedit frame' hframe
      obtain ⟨committed, cursor, rfl⟩ := htarget frame' hframe
      refine (redraw_yields _).mono ?_
      rintro _ ⟨preedit, rfl⟩
      refine ⟨by simp, fun text htext => ?_⟩
      -- Only the buffer of the top frame has changed.
      by_cases hnew : text = committed
      · exact ⟨frame.committed, by simp [buffers, hstack], by rw [hnew]; exact hsublist⟩
      · refine ⟨text, ?_, .refl text⟩
        simp only [buffers, hstack, List.cons_append, List.mem_cons, List.mem_append,
          List.flatMap_cons, List.not_mem_nil] at htext ⊢
        tauto

/-- Delete takes a character out of the buffer. -/
theorem delete_sublist (hframe : frame.Wf) :
    Yields frame.delete fun frame' => frame'.committed.Sublist frame.committed := by
  unfold RegisterFrame.delete
  refine Yields.ite (fun hlt => ?_) fun _ => yields_ok.mpr (.refl _)
  obtain ⟨before, c, after, hcommitted, hcursor⟩ := RegisterFrame.next_eq hframe hlt
  rw [hcommitted, hcursor, removeAt_append, ok_bind, yields_ok]
  exact (List.sublist_cons_self c after).append_left before

/-- The cursor moves, and the buffer is the same. -/
theorem moveLeft_sublist :
    Yields frame.moveLeft fun frame' => frame'.committed.Sublist frame.committed := by
  unfold RegisterFrame.moveLeft
  refine Yields.ite (fun _ => ?_) fun _ => yields_ok.mpr (.refl _)
  exact Yields.bind (Yields.of_forall fun _ => trivial) fun _ _ => yields_ok.mpr (.refl _)

/-- To the right as well. -/
theorem moveRight_sublist :
    Yields frame.moveRight fun frame' => frame'.committed.Sublist frame.committed := by
  unfold RegisterFrame.moveRight
  refine Yields.ite (fun _ => ?_) fun _ => yields_ok.mpr (.refl _)
  refine Yields.bind (Yields.of_forall fun _ => trivial) fun _ _ => ?_
  exact Yields.bind (Yields.of_forall fun _ => trivial) fun _ _ => yields_ok.mpr (.refl _)

omit [DictionaryProvider δ] in
/-- The editing keys of a registration that are of this kind: Delete takes a character away, and
the arrows only move the cursor. -/
theorem regEditDrawn_textFree (hself : self.Wf) (hstack : self.registerStack = frame :: frames)
    {key : Key} (hkey : key.isMute) {edited : Partial (SkkEngine δ × List EngineAction)}
    (h : self.regEditDrawn key = some edited) : Yields edited (TextFree self) := by
  have hframe : frame.Wf := hself.frames frame (by simp [hstack])
  unfold regEditDrawn regEdit at h
  -- Of the keys that edit a frame, BackSpace is the only one that is not mute.
  cases key with
  | delete =>
      cases h
      exact editTop_textFree hstack frame.delete_sameTarget (delete_sublist hframe)
  | left =>
      cases h
      exact editTop_textFree hstack frame.moveLeft_sameTarget moveLeft_sublist
  | right =>
      cases h
      exact editTop_textFree hstack frame.moveRight_sameTarget moveRight_sublist
  | backSpace => cases hkey
  | _ => cases h

/-- The reading a registration was opened from is brought back. The frame held it all the time,
so it is an old text. -/
theorem cancelRegister_textFree (self : SkkEngine δ) :
    Yields self.cancelRegister (TextFree self) := by
  unfold cancelRegister
  cases hstack : self.registerStack with
  | nil => exact yields_error
  | cons frame frames =>
      cases frames with
      | nil =>
          -- The last registration: an abbreviation or a reading is taken up again.
          refine (preeditAction_yields _).bind ?_
          rintro _ ⟨preedit, rfl⟩
          refine yields_pure.mpr ⟨by simp, .of_subset fun text htext => ?_⟩
          dsimp only at htext
          split at htext
          · simp only [buffers, hstack, SkkPhase.texts, List.cons_append, List.mem_cons,
              List.mem_append, List.flatMap_cons, List.flatMap_nil, List.not_mem_nil] at htext ⊢
            tauto
          · rw [updateCompletion_eq] at htext
            simp only [buffers, hstack, SkkPhase.texts, List.cons_append, List.mem_cons,
              List.mem_append, List.flatMap_cons, List.flatMap_nil, List.not_mem_nil] at htext ⊢
            tauto
      | cons below frames =>
          refine (redraw_yields _).mono ?_
          rintro _ ⟨preedit, rfl⟩
          refine ⟨by simp, .of_subset fun text htext => ?_⟩
          simp only [buffers, hstack, SkkPhase.texts, List.cons_append, List.mem_cons,
            List.mem_append, List.flatMap_cons, List.not_mem_nil] at htext ⊢
          tauto

/-- Every such key that the registration takes, in the ready state or in direct input. In the
other states it takes only C-g and Return, which are not of this kind. -/
theorem registrationKey_textFree (hself : self.Wf) (hkey : event.key.isMute)
    {early : Partial (SkkEngine δ × List EngineAction)}
    (h : self.registrationKey event = some early) : Yields early (TextFree self) := by
  obtain ⟨frame, frames, hstack⟩ := List.exists_cons_of_ne_nil (registrationKey_cases h).1
  obtain ⟨-, hreturn, -, -⟩ := Key.ne_special_of_isMute hkey
  have hctrlG : isCtrlG event = false := by simp [isCtrlG, Key.ne_char_of_isMute hkey]
  have hnone := KeyEvent.printableChar_of_isMute hkey
  unfold registrationKey at h
  rw [if_neg (by simp [hstack])] at h
  split at h
  · -- In a kana mode with nothing pending, Escape cancels and the rest edits the frame.
    unfold regReadyKey at h
    rw [if_neg hreturn] at h
    split at h
    · cases h
      exact cancelRegister_textFree self
    · exact regEditDrawn_textFree hself hstack hkey h
  rw [if_neg (by simp [hctrlG])] at h
  split at h
  · cases h
  split at h
  · unfold regAsciiKey at h
    rw [if_neg hreturn] at h
    split at h
    · cases h
      exact cancelRegister_textFree self
    split at h
    · rename_i edited hedited
      cases h
      exact regEditDrawn_textFree hself hstack hkey hedited
    · rw [hnone] at h
      cases h
  · cases h

end Registrations

/-! ### Through a key press -/

omit [DictionaryProvider δ] in
/-- Drawing a state anew sends no text. It is a preedit, a page of candidates, or the order to
clear the preedit. -/
theorem renderCurrentPhase_not_commit (self : SkkEngine δ) (text : Str) :
    Yields self.renderCurrentPhase fun actions => .commit text ∉ actions := by
  have hclear : Yields (.ok [.clearPreedit] : Partial (List EngineAction))
      fun actions => .commit text ∉ actions := yields_ok.mpr (by simp)
  have hpreedit : Yields (do return [← self.preeditAction])
      fun actions => .commit text ∉ actions := by
    refine (preeditAction_yields self).bind ?_
    rintro _ ⟨preedit, rfl⟩
    exact yields_pure.mpr (by simp)
  unfold renderCurrentPhase
  cases self.phase with
  | ascii | wideAscii => exact hclear
  | hiragana | katakana | halfWidthKatakana =>
      exact Yields.ite (fun _ => hclear) fun _ => hpreedit
  | selecting s =>
      refine (preeditAction_yields self).bind ?_
      rintro _ ⟨preedit, rfl⟩
      refine (listingShowAction_yields self s.candidates s.index).bind fun page hpage => ?_
      cases page with
      | none => exact yields_pure.mpr (by simp)
      | some «show» =>
          obtain ⟨rows, keys, rfl⟩ := hpage «show» rfl
          exact yields_pure.mpr (by simp)
  | _ => exact hpreedit

omit [DictionaryProvider δ] in
/-- A status update sends no text, so it may stand behind any actions. -/
theorem TextFree.status {r : SkkEngine δ × List EngineAction} (h : TextFree self r)
    {status : List EngineAction} (hstatus : IsStatus status) :
    TextFree self (r.1, r.2 ++ status) := by
  refine ⟨fun text hmem => ?_, h.2⟩
  rcases List.mem_append.mp hmem with hmem | hmem
  · exact h.1 text hmem
  · rcases hstatus with rfl | ⟨indicator, rfl⟩
    · cases hmem
    · cases List.mem_singleton.mp hmem

omit [DictionaryProvider δ] in
/-- A toggle key sends nothing. Towards direct input it drops the pending romaji, and the phase
it leads to has no text of its own. -/
theorem toggle_textFree (self : SkkEngine δ) : TextFree self self.toggle := by
  unfold toggle
  refine ⟨by simp, .of_subset fun text htext => ?_⟩
  dsimp only at htext
  split at htext
  · simp only [buffers, SkkPhase.texts, List.cons_append, List.mem_cons, List.mem_append,
      List.not_mem_nil] at htext ⊢
    tauto
  · simp only [buffers, SkkPhase.texts, List.cons_append, List.mem_cons, List.mem_append,
      List.not_mem_nil] at htext ⊢
    tauto

section Presses
variable [EucJp] {self' : SkkEngine δ}

/-- Without a handler the state is frozen, and nothing is sent but its display: raw mode passes
keys on, and leaving it draws the phase as it was. -/
theorem frozen_textFree (hcooks : self.cooks event = false)
    (hstep : Step self event self' actions) : TextFree self (self', actions) := by
  obtain ⟨rawMode, hstate⟩ := processKey_frozen hcooks _ hstep
  dsimp only at hstate
  have hsame : self.InsertsNothing self' := by
    rw [hstate]
    exact .of_subset fun _ htext => .inr htext
  refine ⟨fun text => ?_, hsame⟩
  have hpress : Yields (self.handlePress event) fun r => event.isPress → .commit text ∉ r.2 := by
    unfold handlePress
    refine Yields.ite (fun hraw => ?_) fun hraw => ?_
    · -- Raw mode passes the key on, or is left and draws the phase anew.
      refine Yields.ite (fun _ => ?_) fun _ => yields_ok.mpr (by simp)
      refine (renderCurrentPhase_not_commit _ text).bind fun drawn hdrawn => ?_
      exact yields_pure.mpr fun _ => hdrawn
    refine Yields.ite (fun _ => yields_ok.mpr (by simp)) fun htoggle => ?_
    intro r _ hpress
    simp [cooks, hpress, hraw, htoggle] at hcooks
  unfold Step processKey at hstep
  split at hstep
  · cases hstep
    simp
  · rename_i hpressed
    cases hhandled : self.handlePress event with
    | error e =>
        rw [hhandled] at hstep
        cases hstep
    | ok r =>
        rw [hhandled] at hstep
        cases hstep
        have hquiet := hpress r hhandled (by simpa using hpressed)
        split
        · simpa using hquiet
        · exact hquiet

/-- In every well-formed state: a key that moves, deletes, cancels or is unknown sends no text
and inserts none. -/
theorem step_textFree (hself : self.Wf) (hkey : event.key.isMute)
    (hstep : Step self event self' actions) : TextFree self (self', actions) := by
  rcases step_cases hstep with ⟨hfrozen, -⟩ | ⟨hcooks, r, status, hcooked, hstatus, rfl, rfl⟩
  · exact frozen_textFree hfrozen hstep
  cases hearly : self.registrationKey event with
  | some early =>
      -- The registration takes the key before any handler sees it.
      have htaken : self.handleCooked event = early := by
        unfold handleCooked
        rw [hearly]
      rw [htaken] at hcooked
      exact (registrationKey_textFree hself hkey hearly r hcooked).status hstatus
  | none =>
      by_cases htoggle : self.isToggle event
      · have hstack : self.registerStack = [] :=
          List.isEmpty_iff.mp (Bool.and_eq_true_iff.mp htoggle).1
        rw [handleCooked_toggle hstack htoggle] at hcooked
        cases hcooked
        exact (toggle_textFree self).status hstatus
      obtain ⟨raw, stack, hdispatch, hstate, houtside, hinside⟩ :=
        step_dispatched hself hcooks hearly (by simpa using htoggle) hstep
      have hrecedes := dispatch_recedes hkey raw hdispatch
      have htext : committedText raw.2 = [] :=
        committedText_eq_nil fun a ha => (hrecedes.quiet a ha).2
      have hkeeps : EngineAction.deleteBack ∉ raw.2 := fun hmem => (hrecedes.quiet _ hmem).1 rfl
      -- The stack is kept, also through the redirection.
      have hrest : stack = raw.1.registerStack ∧ ∀ text, .commit text ∉ r.2 ++ status := by
        rw [hrecedes.stack]
        cases hstack : self.registerStack with
        | nil =>
            obtain ⟨rfl, status', hstatus', hactions⟩ :=
              houtside hstack (hrecedes.stack.trans hstack)
            rw [hactions]
            have hraw : TextFree self raw :=
              ⟨fun text hmem => (hrecedes.quiet _ hmem).2 text rfl, hrecedes.inserts⟩
            exact ⟨rfl, (hraw.status hstatus').1⟩
        | cons frame frames =>
            obtain ⟨frame', rfl, hreceives, hcommits⟩ :=
              hinside _ _ hstack (hrecedes.stack.trans hstack)
            rw [htext, decide_eq_false hkeeps] at hreceives
            exact ⟨by rw [hreceives.eq_of_nil], hcommits⟩
      refine ⟨hrest.2, ?_⟩
      rw [hstate, hrest.1]
      exact hrecedes.inserts

/-! ### Return, BackSpace and Tab -/

/-- A handled press outside a registration, as the handler made it: nothing is intercepted, and
at most a status update follows. -/
theorem step_of_dispatch (hcooks : self.cooks event) (hstack : self.registerStack = [])
    (htoggle : self.isToggle event = false) {r : SkkEngine δ × List EngineAction}
    (hdispatch : self.dispatch event = .ok r) (hopen : r.1.registerStack = []) :
    ∃ status, Step self event r.1 (r.2 ++ status) := by
  refine ⟨(withStatus self.currentModeIndicator (r.1, [])).2, ?_⟩
  have hsent := withStatus_append self.currentModeIndicator r.1 r.2 []
  rw [List.append_nil] at hsent
  rw [Step, processKey_eq hcooks, handleCooked_eq (registrationKey_nil hstack event) htoggle,
    hdispatch, ok_bind, conclude_nil hopen, ok_bind, hsent]

/-- In a selection, Return and BackSpace commit the candidate. So these two keys are not mute:
the text that is sent is the word in focus with its okurigana. -/
theorem selecting_commits (hself : self.Wf) (hcooks : self.cooks event)
    (hstack : self.registerStack = []) (htoggle : self.isToggle event = false)
    {s : Selection} (hphase : self.phase = .selecting s)
    (hkey : event.key = .backSpace ∨ event.key = .returnKey) :
    ∃ self' actions text, Step self event self' actions ∧ .commit text ∈ actions := by
  have hs : s.Wf := (hself.phase_eq hphase).2
  obtain ⟨r, hcommit, -⟩ : Runs (self.commitCandidate s s.index) (Committed self) :=
    commitCandidate_runs hs hs.index_lt
  have hcommits := commitCandidate_yields self s s.index r hcommit
  obtain ⟨chosen, -, hactions⟩ := hcommits.actions
  have hopen : r.1.registerStack = [] := hcommits.stack.trans hstack
  have hdispatch : ∃ more, self.dispatch event = .ok (r.1, r.2 ++ more) := by
    unfold dispatch handleSelecting
    rw [hphase]
    -- BackSpace also deletes one character back, and Return is passed on; the commit comes before
    -- either.
    rcases hkey with hkey | hkey
    · refine ⟨[.deleteBack], ?_⟩
      simp [KeyEvent.printableChar, hkey, hcommit]
    · refine ⟨[.passthrough], ?_⟩
      simp [KeyEvent.printableChar, hkey, hcommit]
  obtain ⟨more, hdispatch⟩ := hdispatch
  obtain ⟨status, hstep⟩ := step_of_dispatch hcooks hstack htoggle hdispatch hopen
  refine ⟨_, _, chosen.word ++ s.okuri.getD [], hstep, ?_⟩
  rw [hactions]
  simp

/-- In a reading, Tab makes the preview the reading. So Tab is not mute either, as a text is in
the buffers that was not there before. -/
theorem midashi_completes (hself : self.Wf) (hcooks : self.cooks event)
    (hstack : self.registerStack = []) (htoggle : self.isToggle event = false) {kanaBuf : Str}
    (hphase : self.phase = .midashi kanaBuf []) {state : CompletionState}
    (hcompletion : self.completion = some state) (hkey : event.key = .tab) :
    ∃ self' actions, Step self event self' actions ∧ state.preview ∈ self'.buffers := by
  obtain ⟨⟨self', actions⟩, hstep, -⟩ := processKey_wf hself event
  obtain ⟨raw, stack, hdispatch, hstate, -, -⟩ :=
    step_dispatched hself hcooks (registrationKey_nil hstack event) htoggle hstep
  refine ⟨self', actions, hstep, ?_⟩
  have htab : self.dispatch event = self.midashiTab kanaBuf [] := by
    unfold dispatch redispatchFuel handleMidashi
    rw [hphase]
    simp [hkey]
  rw [htab] at hdispatch
  unfold midashiTab at hdispatch
  rw [if_pos (by simp), hcompletion] at hdispatch
  obtain ⟨preedit, rfl⟩ := redraw_yields _ raw hdispatch
  rw [hstate]
  simp [buffers, SkkPhase.texts]

end Presses

end Handlers

end SkkEngine

end Y2Skk
