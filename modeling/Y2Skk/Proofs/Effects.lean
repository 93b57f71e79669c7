import Y2Skk.Proofs.Selection

/-!
# `Y2Skk.Proofs.Effects`: what a phase handler asks of the application

A second contract of the phase handlers, next to `Post`: not what they draw, but what they
ask for. `Handled` says that

* the handler answers every key, a deletion being the last thing it asks for;
* it leaves the registration stack alone or opens one fresh frame, and then it commits
  nothing, unless the key commits a candidate and then starts and ends a reading that has
  none: the candidate goes `stray`;
* it changes the dictionaries only while a candidate is selected;
* the script of the reading and the abbrev flag change only as `style` says.

None of it depends on the engine invariant, so the proofs are about results alone
(`Yields`), family by family: `Handled.plain` for a branch that returns, `redraw_handled`
for one that draws, `startConversion_handled` for a lookup.

## The parameters

`stray` and `style` are what the handler may commit beside a fresh frame and what it
leaves in the two style fields. For each phase they are functions of the state and the key
(`strayText`, `styleAfter`), so that a theorem about a run can name its condition before
the key is handled. Most handlers leave the style alone; a kana mode sets it where it
starts a reading (`kanaStyle`), and so does a selection that commits its candidate and
hands the key on (`selectingStyle`).

## When a frame is opened

`Pushes` is the exact statement: a kana mode opens a frame if and only if the trigger that
the key types ends a reading without candidates. Both directions are needed, since a
theorem that says when text goes astray has to show that it does.
-/

set_option autoImplicit false

namespace Y2Skk

open Outcome Utf8

namespace EngineAction

/-- The action passes text, or the key itself, on to the application. -/
def leaks : EngineAction → Bool
  | .commit _ | .passthrough | .deleteBack => true
  | _ => false

end EngineAction

/-- Nothing was typed into the frame yet, and its reading was typed in abbrev mode as
`isAbbrev` says. -/
def RegisterFrame.IsFresh (frame : RegisterFrame) (isAbbrev : Bool) : Prop :=
  frame.committed = [] ∧ frame.cursor = 0 ∧ frame.isAbbrev = isAbbrev

namespace SkkEngine

variable {δ : Type}

/-- The script of the reading and the abbrev flag. -/
def ownStyle (self : SkkEngine δ) : KanaMode × Bool :=
  (self.midashiDisplayMode, self.midashiIsAbbrev)

/-- The open registrations and the dictionaries. -/
def base (self : SkkEngine δ) : List RegisterFrame × List δ := (self.registerStack, self.dict)

/-- What a phase handler asks for. `stray` is the text it may commit although it opens a frame,
and `style` the script and the abbrev flag it leaves. -/
structure Handled (stray : Str) (style : KanaMode × Bool) (start : SkkEngine δ)
    (r : SkkEngine δ × List EngineAction) : Prop where
  answers : r.2 ≠ []
  deletes : EngineAction.deleteBack ∉ r.2.dropLast
  stack : r.1.registerStack = start.registerStack ∨
    ∃ frame, r.1.registerStack = frame :: start.registerStack ∧
      frame.IsFresh r.1.midashiIsAbbrev ∧
      EngineAction.deleteBack ∉ r.2 ∧ (committedText r.2 = [] ∨ committedText r.2 = stray)
  dict : start.phase.selection? = none → r.1.dict = start.dict
  style : r.1.ownStyle = style

/-! ### Families of branches -/

section Families
variable {stray : Str} {style : KanaMode × Bool} {start mid : SkkEngine δ}

/-- A branch that returns some actions. -/
theorem Handled.plain {actions : List EngineAction} (hbase : mid.base = start.base)
    (hstyle : mid.ownStyle = style) (hanswers : actions ≠ [])
    (hdeletes : EngineAction.deleteBack ∉ actions.dropLast) :
    Handled stray style start (mid, actions) :=
  ⟨hanswers, hdeletes, .inl (congrArg Prod.fst hbase), fun _ => congrArg Prod.snd hbase, hstyle⟩

/-- The preedit action is an `UpdatePreedit`. -/
theorem preeditAction_yields (self : SkkEngine δ) :
    Yields self.preeditAction fun a => ∃ preedit, a = .updatePreedit preedit := by
  unfold preeditAction
  refine Yields.bind (Yields.of_forall fun _ => trivial) ?_
  intro preedit _
  exact yields_pure.mpr ⟨preedit, rfl⟩

/-- A redraw sends one preedit and changes nothing. -/
theorem redraw_yields (self : SkkEngine δ) :
    Yields self.redraw fun r => ∃ preedit, r = (self, [.updatePreedit preedit]) := by
  unfold redraw
  refine (preeditAction_yields self).bind ?_
  rintro _ ⟨preedit, rfl⟩
  exact yields_pure.mpr ⟨preedit, rfl⟩

/-- A branch that ends in a redraw. -/
theorem redraw_handled (hbase : mid.base = start.base)
    (hstyle : mid.ownStyle = style) : Yields mid.redraw (Handled stray style start) := by
  refine (redraw_yields mid).mono ?_
  rintro _ ⟨preedit, rfl⟩
  exact .plain hbase hstyle (by simp) (by simp)

/-- A candidate page is a `ShowCandidates`, focused on its first row. In particular it is no
commit and no deletion. -/
theorem listingShowAction_yields (self : SkkEngine δ) (candidates : List Candidate)
    (index : Nat) : Yields (self.listingShowAction candidates index) fun page =>
      ∀ a, page = some a → ∃ rows keys, a = .showCandidates rows 0 keys := by
  unfold listingShowAction
  refine Yields.ite (fun _ => by simp) fun _ => ?_
  refine Yields.bind (Yields.of_forall fun _ => trivial) fun rows _ => ?_
  refine Yields.bind (Yields.of_forall fun _ => trivial) fun keys _ => ?_
  rw [yields_ok]
  intro a ha
  cases ha
  exact ⟨_, _, rfl⟩

/-- The actions that show a page, if there is one, and the preedit. -/
def IsShown (actions : List EngineAction) : Prop :=
  ∃ preedit, actions = [.updatePreedit preedit] ∨
    ∃ rows keys, actions = [.showCandidates rows 0 keys, .updatePreedit preedit]

/-- A branch that shows a page and the preedit. -/
theorem IsShown.handled {actions : List EngineAction} (h : IsShown actions)
    (hbase : mid.base = start.base) (hstyle : mid.ownStyle = style) :
    Handled stray style start (mid, actions) := by
  obtain ⟨preedit, rfl | ⟨rows, keys, rfl⟩⟩ := h
  · exact .plain hbase hstyle (by simp) (by simp)
  · exact .plain hbase hstyle (by simp) (by simp)

variable [DictionaryProvider δ]

/-- The completion is no part of the stack or the dictionaries. -/
@[simp] theorem updateCompletion_base (self : SkkEngine δ) (kanaBuf : Str) :
    (self.updateCompletion kanaBuf).base = self.base := by
  rw [updateCompletion_eq]
  rfl

/-- Nor is it part of the style. -/
@[simp] theorem updateCompletion_ownStyle (self : SkkEngine δ) (kanaBuf : Str) :
    (self.updateCompletion kanaBuf).ownStyle = self.ownStyle := by
  rw [updateCompletion_eq]
  rfl

/-- A lookup opens a selection, or a fresh frame; either way it only draws. The selection has
the reading and the okurigana that were looked up, and no other part of the engine changes but
the completion, which is dropped. -/
theorem startConversion_yields (self : SkkEngine δ) (midashi : Str) (okuri : Option (Str × Str)) :
    Yields (self.startConversion midashi okuri) fun r =>
      (∃ preedit, r = ({ self with completion := none }.pushFrame
        (self.newFrame midashi (okuri.map Prod.fst) (okuri.map Prod.snd)),
        [.updatePreedit preedit])) ∨
      ∃ s actions, s.midashi = midashi ∧ s.okuri = okuri.map Prod.snd ∧
        s.okuriKey = okuri.map Prod.fst ∧ IsShown actions ∧
        r = ({ self with completion := none, phase := .selecting s }, actions) := by
  unfold startConversion
  refine Yields.bind (Yields.of_forall fun _ => trivial) fun g _ => ?_
  -- no candidate opens a frame, else the first one is focused and its page may be shown
  refine Yields.ite (fun _ => ?_) fun _ => ?_
  · refine (redraw_yields _).mono ?_
    rintro _ ⟨preedit, rfl⟩
    exact .inl ⟨preedit, rfl⟩
  · refine (preeditAction_yields _).bind ?_
    rintro _ ⟨preedit, rfl⟩
    refine (listingShowAction_yields _ _ _).bind fun page hpage => ?_
    cases page with
    | none =>
        exact yields_ok.mpr (.inr ⟨_, _, rfl, rfl, rfl, ⟨preedit, .inl rfl⟩, rfl⟩)
    | some a =>
        obtain ⟨rows, keys, rfl⟩ := hpage a rfl
        exact yields_ok.mpr (.inr ⟨_, _, rfl, rfl, rfl, ⟨preedit, .inr ⟨rows, keys, rfl⟩⟩, rfl⟩)

/-- A branch that looks a reading up. It opens a selection, or a fresh frame on top of the
others, and commits nothing in either case. -/
theorem startConversion_handled (hbase : mid.base = start.base)
    (hstyle : mid.ownStyle = style) (midashi : Str) (okuri : Option (Str × Str)) :
    Yields (mid.startConversion midashi okuri) (Handled stray style start) := by
  refine (startConversion_yields mid midashi okuri).mono ?_
  rintro _ (⟨preedit, rfl⟩ | ⟨s, actions, -, -, -, hshown, rfl⟩)
  · have hframes : mid.registerStack = start.registerStack := congrArg Prod.fst hbase
    have hdict : mid.dict = start.dict := congrArg Prod.snd hbase
    exact ⟨by simp, by simp, .inr ⟨_, by rw [← hframes]; rfl, ⟨rfl, rfl, rfl⟩, by simp, .inl rfl⟩,
      fun _ => hdict, hstyle⟩
  · exact hshown.handled hbase hstyle

end Families

/-! ### The handlers -/

section Handlers
variable [DictionaryProvider δ] {stray : Str} {self : SkkEngine δ}

omit [DictionaryProvider δ] in
/-- Direct input. -/
theorem handleAscii_handled (self : SkkEngine δ) (event : KeyEvent) :
    Yields (self.handleAscii event) (Handled stray self.ownStyle self) := by
  unfold handleAscii
  refine Yields.ite (fun _ => ?_) fun _ => ?_
  · exact yields_ok.mpr (.plain rfl rfl (by simp) (by simp))
  · exact yields_ok.mpr (.plain rfl rfl (by simp) (by simp))

omit [DictionaryProvider δ] in
/-- Full-width input: every branch returns at least one action and leaves the registrations and
the dictionaries alone. -/
theorem handleWideAscii_handled (self : SkkEngine δ) (event : KeyEvent) :
    Yields (self.handleWideAscii event) (Handled stray self.ownStyle self) := by
  unfold handleWideAscii
  refine Yields.ite (fun _ => ?_) fun _ => Yields.ite (fun _ => ?_) fun _ => ?_
  · exact yields_ok.mpr (.plain rfl rfl (by simp) (by simp))
  · exact yields_ok.mpr (.plain rfl rfl (by simp) (by simp))
  · split
    · exact yields_ok.mpr (.plain rfl rfl (by simp) (by simp))
    · exact yields_ok.mpr (.plain rfl rfl (by simp) (by simp))

omit [DictionaryProvider δ] in
/-- The code input commits at most the character of the code. It goes back to the kana mode that
was remembered, so the style of the engine is the same before and after. -/
theorem handleCodeInput_handled [EucJp] (self : SkkEngine δ) (event : KeyEvent)
    (codePrefix : CodeInputPrefix) (buf : Str) :
    Yields (self.handleCodeInput event codePrefix buf) (Handled stray self.ownStyle self) := by
  have hleave : ∀ result : Option Str, Handled stray self.ownStyle self
      ({ self with phase := self.kanaPhaseFromDisplayMode, kanaState := [] },
        (result.map EngineAction.commit).toList ++ [.clearPreedit]) := by
    intro result
    cases result with
    | none => exact .plain rfl rfl (by simp) (by simp)
    | some text => exact .plain rfl rfl (by simp) (by simp)
  unfold handleCodeInput
  refine Yields.ite (fun _ => ?_) fun _ => Yields.ite (fun _ => ?_) fun _ => ?_
  · exact yields_ok.mpr (.plain rfl rfl (by simp) (by simp))
  · unfold codeInputBackSpace
    refine Yields.ite (fun _ => ?_) fun _ => Yields.ite (fun _ => ?_) fun _ => ?_
    · exact redraw_handled rfl rfl
    · exact redraw_handled rfl rfl
    · exact yields_ok.mpr (.plain rfl rfl (by simp) (by simp))
  refine Yields.ite (fun _ => ?_) fun _ => Yields.ite (fun _ => ?_) fun _ => ?_
  · exact redraw_handled rfl rfl
  · exact yields_ok.mpr (hleave _)
  · split
    · exact Yields.ite (fun _ => redraw_handled rfl rfl) fun _ => redraw_handled rfl rfl
    · exact redraw_handled rfl rfl

/-- An abbreviation: it may be converted, committed or dropped. The buffer of an abbreviation is
ASCII text, so no branch feeds the table. -/
theorem handleAbbrev_handled (self : SkkEngine δ) (event : KeyEvent) (buf : Str) :
    Yields (self.handleAbbrev event buf) (Handled stray self.ownStyle self) := by
  have hleave : ∀ actions : List EngineAction, actions ≠ [] →
      EngineAction.deleteBack ∉ actions.dropLast → Handled stray self.ownStyle self
        ({ self with phase := self.kanaPhaseFromDisplayMode }, actions) :=
    fun actions hanswers hdeletes => .plain rfl rfl hanswers hdeletes
  unfold handleAbbrev
  refine Yields.ite (fun _ => ?_) fun _ => Yields.ite (fun _ => ?_) fun _ => ?_
  · exact yields_ok.mpr (hleave _ (by simp) (by simp))
  · refine Yields.ite (fun _ => ?_) fun _ => redraw_handled rfl rfl
    exact yields_ok.mpr (hleave _ (by simp) (by simp))
  -- the lookup when the buffer has text, then the keys that commit the buffer as it is
  refine Yields.ite (fun _ => ?_) fun _ => Yields.ite (fun _ => ?_) fun _ => ?_
  · refine Yields.ite (fun _ => redraw_handled rfl rfl) fun _ => ?_
    exact startConversion_handled rfl rfl buf none
  · refine yields_ok.mpr (hleave _ ?_ ?_)
    · split <;> simp
    · split <;> simp
  refine Yields.ite (fun _ => ?_) fun _ => ?_
  · refine yields_ok.mpr (hleave _ ?_ ?_)
    · split <;> simp
    · split <;> simp
  · split
    · exact redraw_handled rfl rfl
    · exact Yields.ite (fun _ => redraw_handled rfl rfl) fun _ => redraw_handled rfl rfl

/-! ### Readings -/

/-- An okurigana that is complete starts a conversion. -/
theorem convertOkuri_handled {mid : SkkEngine δ} (hbase : mid.base = self.base)
    (hstyle : mid.ownStyle = self.ownStyle) (midashi preState : Str) (lower : Char)
    (kanaBuf : Str) :
    Yields (mid.convertOkuri midashi preState lower kanaBuf)
      (Handled stray self.ownStyle self) :=
  startConversion_handled hbase hstyle _ _

/-- An okurigana. The state that is handled may be one that was entered with the same key, so
the contract is about the one before. -/
theorem handleOkuri_handled {mid : SkkEngine δ} (hbase : mid.base = self.base)
    (hstyle : mid.ownStyle = self.ownStyle) (event : KeyEvent) (midashi : Str)
    (okuriPrefix : Char) (kanaBuf : Str) :
    Yields (mid.handleOkuri event midashi okuriPrefix kanaBuf)
      (Handled stray self.ownStyle self) := by
  unfold handleOkuri
  refine Yields.ite (fun _ => ?_) fun _ => Yields.ite (fun _ => ?_) fun _ => ?_
  · exact yields_ok.mpr (.plain hbase hstyle (by simp) (by simp))
  · unfold okuriBackSpace
    refine Yields.ite (fun _ => ?_) fun _ => redraw_handled hbase hstyle
    exact redraw_handled ((updateCompletion_base ..).trans hbase)
      ((updateCompletion_ownStyle ..).trans hstyle)
  -- a key without a character is passed on; a character goes to the table
  cases event.printableChar with
  | none => exact yields_ok.mpr (.plain hbase hstyle (by simp) (by simp))
  | some ch =>
      dsimp only
      split
      · refine Yields.ite (fun _ => ?_) fun _ => redraw_handled hbase hstyle
        exact convertOkuri_handled (by exact hbase) (by exact hstyle) _ _ _ _
      · refine Yields.ite (fun _ => ?_) fun _ => redraw_handled hbase hstyle
        exact convertOkuri_handled (by exact hbase) (by exact hstyle) _ _ _ _
      · exact redraw_handled hbase hstyle

/-- A trigger character ends the reading `kanaBuf`: an empty reading is left with the trigger
committed, and any other is converted. -/
theorem convertOnTrigger_handled {mid : SkkEngine δ}
    (hbase : mid.base = self.base) (hstyle : mid.ownStyle = self.ownStyle)
    (kanaBuf trigger : Str) :
    Yields (mid.convertOnTrigger kanaBuf trigger) (Handled stray self.ownStyle self) := by
  unfold convertOnTrigger
  refine Yields.ite (fun _ => ?_) fun _ => ?_
  · exact yields_ok.mpr (.plain hbase hstyle (by simp) (by simp))
  · exact startConversion_handled (by exact hbase) (by exact hstyle) _ _

/-- The table's result goes into the reading, or converts it when it ends in a trigger. -/
theorem midashiFeed_handled {mid : SkkEngine δ} (hbase : mid.base = self.base)
    (hstyle : mid.ownStyle = self.ownStyle) (kanaBuf output nextState : Str) :
    Yields (mid.midashiFeed kanaBuf output nextState) (Handled stray self.ownStyle self) := by
  obtain ⟨last, -, -, -, hfed⟩ | ⟨-, completion, hfed⟩ :=
    mid.midashiFeed_cases kanaBuf output nextState
  · rw [hfed]
    exact convertOnTrigger_handled (by exact hbase) (by exact hstyle) _ _
  · rw [hfed]
    exact redraw_handled hbase hstyle

/-- A reading. The induction is over the fuel of the characters that the table hands back. One
branch for each branch of the source, and each of them ends in a redraw, in a lookup, or in a
commit of the reading. -/
theorem handleMidashi_handled (fuel : Nat) : ∀ {mid : SkkEngine δ},
    mid.base = self.base → mid.ownStyle = self.ownStyle →
    ∀ (event : KeyEvent) (kanaBuf romanBuf : Str),
    Yields (mid.handleMidashi fuel event kanaBuf romanBuf)
      (Handled stray self.ownStyle self) := by
  induction fuel with
  | zero =>
      intro mid _ _ event kanaBuf romanBuf
      exact yields_error
  | succ fuel ih =>
      intro mid hbase hstyle event kanaBuf romanBuf
      have hplain : ∀ {mid' : SkkEngine δ} {actions : List EngineAction},
          mid'.base = mid.base → mid'.ownStyle = mid.ownStyle →
          actions ≠ [] → EngineAction.deleteBack ∉ actions.dropLast →
          Handled stray self.ownStyle self (mid', actions) :=
        fun hbase' hstyle' => .plain (hbase'.trans hbase) (hstyle'.trans hstyle)
      unfold handleMidashi
      refine Yields.ite (fun _ => ?_) fun _ => Yields.ite (fun _ => ?_) fun _ => ?_
      · exact yields_ok.mpr (hplain rfl rfl (by simp) (by simp))
      · unfold midashiBackSpace
        refine Yields.ite (fun _ => redraw_handled hbase hstyle) fun _ => ?_
        refine Yields.ite (fun _ => ?_) fun _ => ?_
        · exact redraw_handled ((updateCompletion_base ..).trans hbase)
            ((updateCompletion_ownStyle ..).trans hstyle)
        · exact yields_ok.mpr (hplain rfl rfl (by simp) (by simp))
      refine Yields.ite (fun _ => ?_) fun _ => Yields.ite (fun _ => ?_) fun _ => ?_
      · refine yields_ok.mpr (hplain rfl rfl ?_ ?_)
        · split <;> simp
        · split <;> simp
      · unfold midashiSpace
        refine Yields.ite (fun _ => ?_) fun _ =>
          startConversion_handled (by exact hbase) (by exact hstyle) _ _
        exact yields_ok.mpr (hplain rfl rfl (by simp) (by simp))
      refine Yields.ite (fun _ => ?_) fun _ => Yields.ite (fun _ => ?_) fun _ => ?_
      · unfold midashiTab
        refine Yields.ite (fun _ => ?_) fun _ => redraw_handled hbase hstyle
        split
        · exact redraw_handled hbase hstyle
        · exact redraw_handled hbase hstyle
      · refine yields_ok.mpr (hplain rfl rfl ?_ ?_)
        · split <;> simp
        · split <;> simp
      -- from here on the characters: the commands first, then the table
      cases event.printableChar with
      | none => exact yields_ok.mpr (hplain rfl rfl (by simp) (by simp))
      | some ch =>
          refine Yields.ite
            (fun _ => convertOnTrigger_handled (by exact hbase) (by exact hstyle) _ _) fun _ => ?_
          refine Yields.ite (fun _ => ?_) fun _ => ?_
          · unfold midashiAffix
            refine Yields.ite (fun _ => redraw_handled hbase hstyle) fun _ => ?_
            exact startConversion_handled (by exact hbase) (by exact hstyle) _ _
          refine Yields.ite (fun _ => redraw_handled hbase hstyle) fun _ => ?_
          refine Yields.ite (fun _ => ?_) fun _ => ?_
          · unfold midashiOkuri
            dsimp only
            split
            · exact redraw_handled hbase hstyle
            · exact handleOkuri_handled (by exact hbase) (by exact hstyle) _ _ _ _
          split
          · exact midashiFeed_handled (by exact hbase) (by exact hstyle) _ _ _
          · exact ih (by exact hbase) (by exact hstyle) _ _ _
          · split
            · exact ih (by exact hbase) (by exact hstyle) _ _ _
            · refine Yields.ite (fun _ => ?_) fun _ => redraw_handled hbase hstyle
              exact yields_ok.mpr (hplain rfl rfl (by simp) (by simp))

end Handlers

/-! ### The kana modes -/

/-- The style after a key in a kana mode: the keys that start a composition set it. -/
def kanaStyle (self : SkkEngine δ) (event : KeyEvent) : KanaMode × Bool :=
  match event.printableChar with
  | some ch =>
      if event.modifiers.ctrl ∨ !self.kanaState.isEmpty ∨ ch ∈ self.keybindings.asciiMode ∨
          ch ∈ self.keybindings.wideAsciiMode then self.ownStyle
      else if ch ∈ self.keybindings.abbrevMode then (kanaModeOf self.phase, true)
      else if ch ∈ self.keybindings.katakanaMode then self.ownStyle
      else if ch.isUpper then (kanaModeOf self.phase, false)
      else if ch = '\\' then (kanaModeOf self.phase, self.midashiIsAbbrev)
      else self.ownStyle
  | none => self.ownStyle

section Kana
variable [DictionaryProvider δ] {stray : Str} {self : SkkEngine δ}

omit [DictionaryProvider δ] in
/-- Text committed before the other actions changes nothing in the contract, as long as the
branch opens no frame. -/
theorem Handled.prepend_commit {style : KanaMode × Bool} {r : SkkEngine δ × List EngineAction}
    (h : Handled stray style self r) (hbase : r.1.base = self.base)
    (text : Str) : Handled stray style self (r.1, .commit text :: r.2) where
  answers := by simp
  deletes := by
    rw [List.dropLast_cons_of_ne_nil h.answers]
    simpa using h.deletes
  stack := .inl (congrArg Prod.fst hbase)
  dict := h.dict
  style := h.style

omit [DictionaryProvider δ] in
/-- A character fed to the table opens no frame. What the table writes is committed, and the
pending romaji are drawn. A character that is handed back is fed again, with the text committed
so far in front. -/
theorem feedKana_handled (fuel : Nat) : ∀ {mid : SkkEngine δ},
    mid.base = self.base → mid.ownStyle = self.ownStyle →
    ∀ (ch : Char) (mode : KanaMode), Yields (mid.feedKana fuel ch mode) fun r =>
      Handled stray self.ownStyle self r ∧ r.1.base = self.base := by
  induction fuel with
  | zero =>
      intro mid _ _ ch mode
      exact yields_error
  | succ fuel ih =>
      intro mid hbase hstyle ch mode
      have hdrawn : ∀ {mid' : SkkEngine δ}, mid'.base = self.base →
          mid'.ownStyle = self.ownStyle → Yields mid'.redraw fun r =>
            Handled stray self.ownStyle self r ∧ r.1.base = self.base := by
        intro mid' hbase' hstyle'
        refine (redraw_yields mid').mono ?_
        rintro _ ⟨preedit, rfl⟩
        exact ⟨.plain hbase' hstyle' (by simp) (by simp), hbase'⟩
      unfold feedKana
      split
      · refine Yields.ite (fun _ => hdrawn hbase hstyle) fun _ => ?_
        refine Yields.ite (fun _ => ?_) fun _ => ?_
        · exact yields_ok.mpr ⟨.plain hbase hstyle (by simp) (by simp), hbase⟩
        · refine (preeditAction_yields _).bind ?_
          rintro _ ⟨preedit, rfl⟩
          exact yields_pure.mpr ⟨.plain hbase hstyle (by simp) (by simp), hbase⟩
      · -- the character is handed back: what the retry commits follows the output of this round
        refine (ih (by exact hbase) (by exact hstyle) _ _).bind fun r hr => yields_ok.mpr ?_
        split
        · exact hr
        · exact ⟨hr.1.prepend_commit hr.2 _, hr.2⟩
      · dsimp only
        split
        · exact ih (by exact hbase) (by exact hstyle) _ _
        · exact yields_ok.mpr ⟨.plain hbase hstyle (by simp) (by simp), hbase⟩

/-- A character in a kana mode with nothing pending: the mode keys and the keys that start a
composition come first, and the table takes the rest. -/
theorem kanaStart_handled {event : KeyEvent} {ch : Char} (hch : event.printableChar = some ch)
    (hctrl : ¬ event.modifiers.ctrl) (hkana : self.kanaState.isEmpty) :
    Yields (self.kanaStart event ch (kanaModeOf self.phase))
      (Handled stray (self.kanaStyle event) self) := by
  unfold kanaStart
  by_cases hascii : ch ∈ self.keybindings.asciiMode
  · have hstyle : self.kanaStyle event = self.ownStyle := by simp [kanaStyle, hch, hascii]
    rw [if_pos hascii, hstyle]
    exact yields_ok.mpr (.plain rfl rfl (by simp) (by simp))
  by_cases hwide : ch ∈ self.keybindings.wideAsciiMode
  · have hstyle : self.kanaStyle event = self.ownStyle := by simp [kanaStyle, hch, hwide]
    rw [if_neg hascii, if_pos hwide, hstyle]
    exact yields_ok.mpr (.plain rfl rfl (by simp) (by simp))
  rw [if_neg hascii, if_neg hwide]
  by_cases habbrev : ch ∈ self.keybindings.abbrevMode
  · have hstyle : self.kanaStyle event = (kanaModeOf self.phase, true) := by
      simp [kanaStyle, hch, hctrl, hkana, hascii, hwide, habbrev]
    rw [if_pos habbrev, hstyle]
    exact redraw_handled rfl rfl
  by_cases hkatakana : ch ∈ self.keybindings.katakanaMode
  · have hstyle : self.kanaStyle event = self.ownStyle := by
      simp [kanaStyle, hch, habbrev, hkatakana]
    rw [if_neg habbrev, if_pos hkatakana, hstyle]
    exact yields_ok.mpr (.plain rfl rfl (by simp) (by simp))
  rw [if_neg habbrev, if_neg hkatakana]
  by_cases hupper : ch.isUpper
  · -- The reading has the style of the mode it is started in.
    have hstyle : self.kanaStyle event = (kanaModeOf self.phase, false) := by
      simp [kanaStyle, hch, hctrl, hkana, hascii, hwide, habbrev, hkatakana, hupper]
    rw [if_pos hupper, hstyle]
    exact (handleMidashi_handled redispatchFuel rfl rfl event [] []).mono
      fun r hr => ⟨hr.answers, hr.deletes, hr.stack, fun _ => hr.dict rfl, hr.style⟩
  rw [if_neg hupper]
  by_cases hcode : ch = '\\'
  · subst hcode
    have hstyle : self.kanaStyle event = (kanaModeOf self.phase, self.midashiIsAbbrev) := by
      simp [kanaStyle, hch, hctrl, hkana, hascii, hwide, habbrev, hkatakana, hupper]
    rw [if_pos rfl, hstyle]
    exact redraw_handled rfl rfl
  · have hstyle : self.kanaStyle event = self.ownStyle := by
      simp [kanaStyle, hch, habbrev, hkatakana, hupper, hcode]
    rw [if_neg hcode, hstyle]
    exact (feedKana_handled redispatchFuel rfl rfl ch _).mono fun _ hr => hr.1

/-- A kana mode. A key with Ctrl or without a character leaves the style alone, and so does a
character that meets pending romaji. What is left are the commands of the start state, which set
the script or the flag of the abbreviation. -/
theorem handleKana_handled (self : SkkEngine δ) (event : KeyEvent) :
    Yields (self.handleKana event) (Handled stray (self.kanaStyle event) self) := by
  have hquiet : event.printableChar = none → self.kanaStyle event = self.ownStyle := by
    intro h
    simp [kanaStyle, h]
  have hctrl : event.modifiers.ctrl → self.kanaStyle event = self.ownStyle := by
    intro h
    unfold kanaStyle
    split
    · simp [h]
    · rfl
  have hown : self.kanaStyle event = self.ownStyle →
      ∀ {mid : SkkEngine δ} {actions : List EngineAction}, mid.base = self.base →
      mid.ownStyle = self.ownStyle → actions ≠ [] → EngineAction.deleteBack ∉ actions.dropLast →
      Handled stray (self.kanaStyle event) self (mid, actions) := by
    intro h mid actions hbase hstyle
    exact .plain hbase (hstyle.trans h.symm)
  unfold handleKana
  refine Yields.ite (fun h => ?_) fun _ => Yields.ite (fun h => ?_) fun _ => ?_
  · exact yields_ok.mpr (hown (hctrl h.2) rfl rfl (by simp) (by simp))
  · exact yields_ok.mpr (hown (hctrl h.2) rfl rfl (by simp) (by simp))
  refine Yields.ite (fun h => ?_) fun _ => Yields.ite (fun h => ?_) fun _ => ?_
  · exact yields_ok.mpr (hown (hquiet (by simp [KeyEvent.printableChar, h])) rfl rfl (by simp)
      (by simp))
  · have h := hquiet (by simp [KeyEvent.printableChar, h])
    unfold kanaBackSpace
    refine Yields.ite (fun _ => ?_) fun _ => ?_
    · exact redraw_handled rfl h.symm
    · exact yields_ok.mpr (hown h rfl rfl (by simp) (by simp))
  · split
    · rename_i hnone
      exact yields_ok.mpr (hown (hquiet hnone) rfl rfl (by simp) (by simp))
    · rename_i ch hch
      refine Yields.ite (fun h => ?_) fun h => Yields.ite (fun hkana => ?_) fun hkana => ?_
      · exact yields_ok.mpr (hown (hctrl h) rfl rfl (by simp) (by simp))
      · exact kanaStart_handled hch h hkana
      · have hstyle : self.kanaStyle event = self.ownStyle := by
          unfold kanaStyle
          rw [hch]
          simp [hkana]
        rw [hstyle]
        -- the character goes to the table, which has no say in the style
        exact (feedKana_handled redispatchFuel rfl rfl ch _).mono fun _ hr => hr.1

end Kana

/-! ### Readings that end as they start -/

section Pushes
variable [DictionaryProvider δ] {self : SkkEngine δ}

/-- The typed trigger ends a reading that has no candidates, so a registration is opened. -/
def opensFrame (typed : Option TypedTrigger) : Bool := typed.any fun t => !t.found

/-- The handler opens a registration exactly when the trigger the key types asks for one. -/
def Pushes (typed : Option TypedTrigger) (start : SkkEngine δ)
    (r : SkkEngine δ × List EngineAction) : Prop :=
  r.1.registerStack = start.registerStack ↔ opensFrame typed = false

omit [DictionaryProvider δ] in
/-- A branch that keeps the frames, for a key that types no trigger. -/
theorem Pushes.of_none {typed : Option TypedTrigger} {r : SkkEngine δ × List EngineAction}
    (hnone : typed = none) (hstack : r.1.registerStack = self.registerStack) :
    Pushes typed self r := by
  rw [hnone]
  exact iff_of_true hstack rfl

omit [DictionaryProvider δ] in
/-- A redraw opens no frame. -/
theorem redraw_pushes {mid : SkkEngine δ} {typed : Option TypedTrigger} (hnone : typed = none)
    (hstack : mid.registerStack = self.registerStack) :
    Yields mid.redraw (Pushes typed self) := by
  refine (redraw_yields mid).mono ?_
  rintro _ ⟨preedit, rfl⟩
  exact .of_none hnone hstack

/-- A lookup opens a frame exactly when it has no candidates, which the dictionaries and the
setting of the state before the key decide. -/
theorem startConversion_pushes {mid : SkkEngine δ} (hdict : mid.dict = self.dict)
    (hlisp : mid.lispDirectives = self.lispDirectives) (midashi : Str) :
    Yields (mid.startConversion midashi none) fun r =>
      r.1.registerStack = mid.registerStack ↔ self.hasCandidates midashi = true := by
  have hgather : { mid with completion := none }.gatherCandidates midashi none
      = self.gatherCandidates midashi none := gatherCandidates_congr hdict hlisp _ _
  unfold startConversion
  dsimp only [Option.map_none]
  rw [hgather]
  cases hg : self.gatherCandidates midashi none with
  | error e => simp
  | ok g =>
      rw [ok_bind]
      refine Yields.ite (fun hempty => ?_) fun hempty => ?_
      · -- The fresh frame makes the stack longer.
        refine (redraw_yields _).mono ?_
        rintro _ ⟨preedit, rfl⟩
        refine iff_of_false (List.cons_ne_self _ _) ?_
        simp [hasCandidates, hg, hempty]
      · have hfound : self.hasCandidates midashi = true := by
          simpa [hasCandidates, hg] using hempty
        refine Yields.bind (Yields.of_forall fun _ => trivial) fun _ _ => ?_
        refine Yields.bind (Yields.of_forall fun _ => trivial) fun page _ => ?_
        split <;> exact yields_ok.mpr (iff_of_true rfl hfound)

/-- A trigger opens a frame when the reading before it has no candidates. Without a reading
before it nothing is looked up. -/
theorem convertOnTrigger_pushes {mid : SkkEngine δ} (hdict : mid.dict = self.dict)
    (hlisp : mid.lispDirectives = self.lispDirectives) (kanaBuf trigger : Str) :
    Yields (mid.convertOnTrigger kanaBuf trigger)
      (Pushes (self.typedAfter kanaBuf trigger) mid) := by
  unfold convertOnTrigger
  refine Yields.ite (fun hempty => ?_) fun hne => ?_
  · exact yields_ok.mpr (.of_none (by simp [typedAfter, hempty]) rfl)
  · have hopens : opensFrame (self.typedAfter kanaBuf trigger) = !self.hasCandidates kanaBuf := by
      simp [opensFrame, typedAfter, hne]
    refine (startConversion_pushes (by exact hdict) (by exact hlisp) kanaBuf).mono ?_
    intro r hr
    rw [Pushes, hopens, Bool.not_eq_false']
    exact hr

/-- A kana that ends in a trigger may open one. While the table waits for more romaji, or writes
nothing, no trigger is looked for. -/
theorem midashiFeed_pushes (self : SkkEngine δ) (kanaBuf output nextState : Str) :
    Yields (self.midashiFeed kanaBuf output nextState)
      (Pushes (if !output.isEmpty ∧ nextState.isEmpty then
        (self.endsInTrigger (kanaBuf ++ output)).bind fun last =>
          self.typedAfter (kanaBuf ++ output).dropLast [last]
        else none) self) := by
  obtain ⟨last, hout, hnext, hends, hfed⟩ | ⟨hnone, completion, hfed⟩ :=
    self.midashiFeed_cases kanaBuf output nextState
  · rw [hfed, if_pos (by simp [hout, hnext]), hends]
    exact convertOnTrigger_pushes rfl rfl _ _
  · rw [hfed]
    refine redraw_pushes ?_ rfl
    by_cases hends : !output.isEmpty ∧ nextState.isEmpty
    · rw [if_pos hends, hnone (by simpa using hends.1) (List.isEmpty_iff.mp hends.2)]
      rfl
    · rw [if_neg hends]

/-- A reading that starts with this key, from the start state. Only a table rule can end it
at once: every other key of a reading types no trigger. -/
theorem handleMidashi_pushes (hkana : self.kanaState = []) {fuel : Nat} (hfuel : 1 ≤ fuel)
    (event : KeyEvent) :
    Yields (self.handleMidashi fuel event [] [])
      (Pushes (self.typedInMidashi fuel event [] []) self) := by
  obtain ⟨fuel, rfl⟩ := Nat.exists_eq_add_of_le' hfuel
  have hcommand : ∀ {r : SkkEngine δ × List EngineAction}, isMidashiCommand event = true →
      r.1.registerStack = self.registerStack →
      Pushes (self.typedInMidashi (fuel + 1) event [] []) self r :=
    fun h => .of_none (by simp [typedInMidashi, h])
  unfold handleMidashi
  refine Yields.ite (fun h => ?_) fun hescape => Yields.ite (fun h => ?_) fun hback => ?_
  · exact yields_ok.mpr (hcommand (by simp [isMidashiCommand, h]) rfl)
  · exact yields_ok.mpr (hcommand (by simp [isMidashiCommand, h]) rfl)
  refine Yields.ite (fun h => ?_) fun hreturn => Yields.ite (fun h => ?_) fun hspace => ?_
  · exact yields_ok.mpr (hcommand (by simp [isMidashiCommand, h]) rfl)
  · exact yields_ok.mpr (hcommand (by simp [isMidashiCommand, h]) rfl)
  refine Yields.ite (fun h => ?_) fun htab => Yields.ite (fun h => ?_) fun hq => ?_
  · have hdrawn : ∀ {mid : SkkEngine δ}, mid.registerStack = self.registerStack →
        Yields mid.redraw (Pushes (self.typedInMidashi (fuel + 1) event [] []) self) :=
      redraw_pushes (by simp [typedInMidashi, isMidashiCommand, h])
    unfold midashiTab
    refine Yields.ite (fun _ => ?_) fun _ => hdrawn rfl
    split <;> exact hdrawn rfl
  · exact yields_ok.mpr (hcommand (by simp [isMidashiCommand, h]) rfl)
  have hplain : isMidashiCommand event = false := by
    simp only [isMidashiCommand, hescape, hback, hreturn, hspace, htab, hq, or_self, decide_false]
  cases hch : event.printableChar with
  | none => exact yields_ok.mpr (.of_none (by simp [typedInMidashi, hch]) rfl)
  | some ch =>
      refine Yields.ite (fun htrigger => ?_) fun htrigger => ?_
      · -- A trigger after the empty reading ends nothing.
        refine yields_ok.mpr (.of_none ?_ rfl)
        simp only [typedInMidashi, hplain, hch]
        rw [if_neg (by simp), if_pos htrigger]
        rfl
      have hguarded : ∀ {mid : SkkEngine δ}, (isAffixChar ch ∨
          (ch.isDigit ∧ !event.modifiers.ctrl) ∨ (ch.isUpper ∧ !([] : Str).isEmpty)) →
          mid.registerStack = self.registerStack →
          Yields mid.redraw (Pushes (self.typedInMidashi (fuel + 1) event [] []) self) := by
        intro mid hguard
        refine redraw_pushes ?_
        simp only [typedInMidashi, hplain, hch]
        rw [if_neg (by simp), if_neg htrigger, if_pos hguard]
      refine Yields.ite (fun h => hguarded (.inl h) rfl) fun haffix => ?_
      refine Yields.ite (fun h => hguarded (.inr (.inl h)) rfl) fun hdigit => ?_
      refine Yields.ite (fun h => by cases h.2) fun hupper => ?_
      have htable : self.typedInMidashi (fuel + 1) event [] [] = _ :=
        typedInMidashi_table hplain hch htrigger haffix hdigit hupper
      rw [htable]
      cases htrans : self.kanaTable.transition self.kanaState ch.toLower .hiragana with
      | ok output nextState => exact midashiFeed_pushes self [] output nextState
      | okRetry output retry => exact (KanaTable.transition_okRetry_ne_nil htrans hkana).elim
      | noMatch flush retry =>
          cases retry with
          | some retryCh => exact (KanaTable.transition_noMatch_ne_nil htrans hkana).elim
          | none =>
              exact Yields.ite (fun h => by cases h.2.2) fun _ => redraw_pushes rfl rfl

/-- In a kana mode a key opens a frame exactly when it starts and ends a reading that has no
candidates. -/
theorem handleKana_pushes (self : SkkEngine δ) (event : KeyEvent) :
    Yields (self.handleKana event) (Pushes (self.typedInKana event) self) := by
  -- The character starts no reading, unless it passes the tests of `kanaStart`.
  have hquiet : ∀ {ch : Char}, event.printableChar = some ch → (event.modifiers.ctrl ∨
      !self.kanaState.isEmpty ∨ ch ∈ self.keybindings.asciiMode ∨
      ch ∈ self.keybindings.wideAsciiMode ∨ ch ∈ self.keybindings.abbrevMode ∨
      ch ∈ self.keybindings.katakanaMode ∨ !ch.isUpper) → self.typedInKana event = none := by
    intro ch hch hguard
    unfold typedInKana
    rw [hch]
    exact if_pos hguard
  have hsilent : event.printableChar = none → self.typedInKana event = none := by
    intro hch
    unfold typedInKana
    rw [hch]
  unfold handleKana
  have hctrlKey : ∀ {ch : Char}, event.key = .char ch ∧ event.modifiers.ctrl →
      self.typedInKana event = none :=
    fun h => hquiet (by rw [KeyEvent.printableChar, h.1]) (.inl h.2)
  refine Yields.ite (fun h => yields_ok.mpr (.of_none (hctrlKey h) rfl)) fun _ => ?_
  refine Yields.ite (fun h => yields_ok.mpr (.of_none (hctrlKey h) rfl)) fun _ => ?_
  refine Yields.ite (fun h => ?_) fun _ => ?_
  · exact yields_ok.mpr (.of_none (hsilent (by simp [KeyEvent.printableChar, h])) rfl)
  refine Yields.ite (fun h => ?_) fun _ => ?_
  · have hnone := hsilent (by simp [KeyEvent.printableChar, h])
    exact Yields.ite (fun _ => redraw_pushes hnone rfl) fun _ => yields_ok.mpr (.of_none hnone rfl)
  cases hch : event.printableChar with
  | none => exact yields_ok.mpr (.of_none (hsilent hch) rfl)
  | some ch =>
      have hfeed : self.typedInKana event = none →
          Yields (self.feedKana redispatchFuel ch (kanaModeOf self.phase))
            (Pushes (self.typedInKana event) self) := by
        intro hnone r hr
        have h : Handled [] self.ownStyle self r ∧ r.1.base = self.base :=
          feedKana_handled redispatchFuel rfl rfl ch _ r hr
        exact .of_none hnone (congrArg Prod.fst h.2)
      refine Yields.ite (fun h => ?_) fun hctrl => ?_
      · exact yields_ok.mpr (.of_none (hquiet hch (.inl h)) rfl)
      refine Yields.ite (fun hkana => ?_) fun h =>
        hfeed (hquiet hch (.inr (.inl (by simpa using h))))
      have hbound : ∀ {mid : SkkEngine δ} {actions : List EngineAction},
          (ch ∈ self.keybindings.asciiMode ∨ ch ∈ self.keybindings.wideAsciiMode ∨
            ch ∈ self.keybindings.abbrevMode ∨ ch ∈ self.keybindings.katakanaMode ∨
            !ch.isUpper) → mid.registerStack = self.registerStack →
          Pushes (self.typedInKana event) self (mid, actions) :=
        fun h hstack => .of_none (hquiet hch (.inr (.inr h))) hstack
      unfold kanaStart
      refine Yields.ite (fun h => yields_ok.mpr (hbound (.inl h) rfl)) fun hascii => ?_
      refine Yields.ite (fun h => yields_ok.mpr (hbound (.inr (.inl h)) rfl)) fun hwide => ?_
      refine Yields.ite (fun h => ?_) fun habbrev => ?_
      · exact redraw_pushes (hquiet hch (.inr (.inr (.inr (.inr (.inl h)))))) rfl
      refine Yields.ite (fun h => yields_ok.mpr (hbound (.inr (.inr (.inr (.inl h)))) rfl))
        fun hkatakana => ?_
      refine Yields.ite (fun hupper => ?_) fun hupper => ?_
      · have htyped : self.typedInKana event = SkkEngine.typedInMidashi redispatchFuel { self with
            midashiDisplayMode := kanaModeOf self.phase
            midashiIsAbbrev := false
            phase := .midashi [] [] } event [] [] := by
          unfold typedInKana
          rw [hch]
          dsimp only
          rw [if_neg (by simp [hctrl, hkana, hascii, hwide, habbrev, hkatakana, hupper])]
        have hfuel : 1 ≤ redispatchFuel := by decide
        rw [htyped]
        exact handleMidashi_pushes (by exact List.isEmpty_iff.mp hkana) hfuel event
      · have hnone : self.typedInKana event = none :=
          hquiet hch (.inr (.inr (.inr (.inr (.inr (.inr (by simpa using hupper)))))))
        exact Yields.ite (fun _ => redraw_pushes hnone rfl) fun _ => hfeed hnone

end Pushes

/-! ### Selecting -/

section Selecting
variable [DictionaryProvider δ] {stray : Str} {self : SkkEngine δ}

/-- What a commit returns, whatever the selection. -/
structure Commits (start : SkkEngine δ) (s : Selection) (index : Nat)
    (r : SkkEngine δ × List EngineAction) : Prop where
  stack : r.1.registerStack = start.registerStack
  style : r.1.ownStyle = start.ownStyle
  actions : ∃ chosen, s.candidates[index]? = some chosen ∧
    r.2 = [.hideCandidates, .commit (chosen.word ++ s.okuri.getD []), .clearPreedit]
      ++ (start.conversionTrigger.map EngineAction.commit).toList

/-- The commit of a candidate, whatever is learned with it: the text, the state it leaves and
the candidate that was chosen. -/
theorem commitCandidate_yields (self : SkkEngine δ) (s : Selection) (index : Nat) :
    Yields (self.commitCandidate s index) (Commits self s index) := by
  unfold commitCandidate
  cases hchosen : indexList s.candidates index with
  | error e => simp
  | ok chosen =>
      have hmem := indexList_ok_iff.mp hchosen
      rw [ok_bind, yields_ok]
      cases learnEntry s index chosen with
      | some entry => exact ⟨rfl, rfl, chosen, hmem, rfl⟩
      | none => exact ⟨rfl, rfl, chosen, hmem, rfl⟩

omit [DictionaryProvider δ] in
/-- A commit is an answer. -/
theorem Commits.ne_nil {s : Selection} {index : Nat} {r : SkkEngine δ × List EngineAction}
    (h : Commits self s index r) : r.2 ≠ [] := by
  obtain ⟨chosen, -, hactions⟩ := h.actions
  simp [hactions]

omit [DictionaryProvider δ] in
/-- It deletes nothing. -/
theorem Commits.keeps {s : Selection} {index : Nat} {r : SkkEngine δ × List EngineAction}
    (h : Commits self s index r) : EngineAction.deleteBack ∉ r.2 := by
  obtain ⟨chosen, -, hactions⟩ := h.actions
  rw [hactions]
  cases self.conversionTrigger <;> simp

/-- The text a commit of the candidate at `index` sends, with the pending trigger. -/
def textOf (self : SkkEngine δ) (s : Selection) (index : Nat) : Str :=
  match s.candidates[index]? with
  | some chosen => chosen.word ++ s.okuri.getD [] ++ self.conversionTrigger.getD []
  | none => []

omit [DictionaryProvider δ] in
/-- Its text is that of the candidate, with the okurigana and the trigger. -/
theorem Commits.text {s : Selection} {index : Nat} {r : SkkEngine δ × List EngineAction}
    (h : Commits self s index r) : committedText r.2 = self.textOf s index := by
  obtain ⟨chosen, hchosen, hactions⟩ := h.actions
  rw [hactions, textOf, hchosen]
  cases self.conversionTrigger <;> simp [committedText]

omit [DictionaryProvider δ] in
/-- While a candidate is selected, the dictionaries may change. -/
theorem Handled.selecting {s : Selection} {r : SkkEngine δ × List EngineAction}
    (hphase : self.phase = .selecting s) (hstack : r.1.registerStack = self.registerStack)
    (hstyle : r.1.ownStyle = self.ownStyle) (hanswers : r.2 ≠ [])
    (hdeletes : EngineAction.deleteBack ∉ r.2.dropLast) : Handled stray self.ownStyle self r :=
  ⟨hanswers, hdeletes, .inl hstack, (by rw [hphase]; rintro ⟨⟩), hstyle⟩

/-- A branch that commits, then does `more`: the commit keeps the registrations, so neither does
the whole branch open one. -/
theorem commit_handled {s : Selection} (hphase : self.phase = .selecting s) (index : Nat)
    (more : EngineAction) :
    Yields (self.commitCandidate s index >>= fun r => .ok (r.1, r.2 ++ [more]))
      (Handled stray self.ownStyle self) := by
  refine (commitCandidate_yields self s index).bind fun r hr => yields_ok.mpr ?_
  refine .selecting hphase hr.stack hr.style (by simp) ?_
  rw [List.dropLast_concat]
  exact hr.keeps

/-- A branch that commits a candidate. -/
theorem commitCandidate_handled {s : Selection} (hphase : self.phase = .selecting s)
    (index : Nat) : Yields (self.commitCandidate s index) (Handled stray self.ownStyle self) := by
  refine (commitCandidate_yields self s index).mono fun r hr => ?_
  exact .selecting hphase hr.stack hr.style hr.ne_nil fun h =>
    hr.keeps (List.dropLast_subset _ h)

omit [DictionaryProvider δ] in
/-- Another candidate is focused: its page is shown if it has one, and else the window is
hidden. The continuation is a parameter, since going forwards and going backwards differ in it
alone. -/
theorem reselect_handled {mid : SkkEngine δ} (hbase : mid.base = self.base)
    (hstyle : mid.ownStyle = self.ownStyle) (candidates : List Candidate) (index : Nat)
    (leaving : Bool) {k : EngineAction → Option EngineAction →
      Partial (SkkEngine δ × List EngineAction)}
    (hsome : ∀ preedit page, k preedit (some page) = .ok (mid, [page, preedit]))
    (hnone : ∀ preedit, k preedit none =
      .ok (mid, if leaving then [.hideCandidates, preedit] else [preedit])) :
    Yields (mid.preeditAction >>= fun preedit =>
      mid.listingShowAction candidates index >>= k preedit)
      (Handled stray self.ownStyle self) := by
  refine (preeditAction_yields mid).bind ?_
  rintro _ ⟨preedit, rfl⟩
  refine (listingShowAction_yields mid candidates index).bind fun page hpage => ?_
  cases page with
  | some a =>
      obtain ⟨rows, keys, rfl⟩ := hpage a rfl
      rw [hsome]
      exact yields_ok.mpr (.plain hbase hstyle (by simp) (by simp))
  | none =>
      rw [hnone]
      refine yields_ok.mpr (.plain hbase hstyle ?_ ?_)
      · cases leaving <;> simp
      · cases leaving <;> simp

omit [DictionaryProvider δ] in
/-- A window is hidden before the redraw. -/
theorem hide_handled {mid : SkkEngine δ} (hbase : mid.base = self.base)
    (hstyle : mid.ownStyle = self.ownStyle) :
    Yields (do return (mid, [.hideCandidates, ← mid.preeditAction]))
      (Handled stray self.ownStyle self) := by
  refine (preeditAction_yields mid).bind ?_
  rintro _ ⟨preedit, rfl⟩
  exact yields_pure.mpr (.plain hbase hstyle (by simp) (by simp))

/-- The cancel key at the first candidate goes back to the reading. -/
theorem backToMidashi_handled (self : SkkEngine δ) (s : Selection) :
    Yields (self.backToMidashi s) (Handled stray self.ownStyle self) :=
  hide_handled (updateCompletion_base ..) (updateCompletion_ownStyle ..)

/-- The cancel key at another candidate goes to the one before, and at the first one back to the
reading. -/
theorem selectPrevious_handled (self : SkkEngine δ) (s : Selection) :
    Yields (self.selectPrevious s) (Handled stray self.ownStyle self) := by
  unfold selectPrevious
  refine Yields.ite (fun _ => backToMidashi_handled self s) fun _ => ?_
  dsimp only
  refine reselect_handled (by exact rfl) (by exact rfl) _ _ (self.inListing s.index) ?_ ?_
  · intro preedit page
    rfl
  · intro preedit
    rfl

omit [DictionaryProvider δ] in
/-- Behind the last candidate a registration is opened, with nothing committed. -/
theorem enterRegisterFromSelecting_handled (self : SkkEngine δ) (s : Selection) :
    Yields (self.enterRegisterFromSelecting s) (Handled stray self.ownStyle self) := by
  refine (preeditAction_yields _).bind ?_
  rintro _ ⟨preedit, rfl⟩
  exact yields_pure.mpr ⟨by simp, by simp, .inr ⟨_, rfl, ⟨rfl, rfl, rfl⟩, by simp, .inl rfl⟩,
    fun _ => rfl, rfl⟩

omit [DictionaryProvider δ] in
/-- Space goes to the next candidate, or past the last one into a registration. The frame that
this opens is a fresh one. -/
theorem selectNext_handled (self : SkkEngine δ) (s : Selection) :
    Yields (self.selectNext s) (Handled stray self.ownStyle self) := by
  unfold selectNext
  refine Yields.ite (fun _ => enterRegisterFromSelecting_handled self s) fun _ => ?_
  dsimp only
  refine reselect_handled (by exact rfl) (by exact rfl) _ _ false ?_ ?_
  · intro preedit page
    rfl
  · intro preedit
    rfl

/-- An affix key commits the candidate and starts a reading, which is drawn behind the
commit. -/
theorem selectAffix_handled {s : Selection} (hphase : self.phase = .selecting s) :
    Yields (self.selectAffix s) (Handled stray self.ownStyle self) := by
  unfold selectAffix
  refine (commitCandidate_yields self s s.index).bind fun r hr => ?_
  refine (preeditAction_yields _).bind ?_
  rintro _ ⟨preedit, rfl⟩
  refine yields_pure.mpr (.selecting hphase hr.stack hr.style (by simp) ?_)
  rw [List.dropLast_concat]
  exact hr.keeps

/-- The text a key commits before it starts and ends a reading that has no candidates. -/
def strayIn (self : SkkEngine δ) (s : Selection) (event : KeyEvent) : Str :=
  if opensFrame (self.typedInSelecting s event) then self.textOf s s.index else []

/-- The style after a key while a candidate is selected. -/
def selectingStyle (self : SkkEngine δ) (s : Selection) (event : KeyEvent) : KanaMode × Bool :=
  if self.isRedispatched s event then (self.afterCommit s).kanaStyle event else self.ownStyle

/-- A key that is handed on commits the focused candidate and goes to the kana handler: the
result is what the two return, one after the other. -/
theorem handleSelecting_redispatched {s : Selection} {event : KeyEvent}
    (hredispatched : self.isRedispatched s event) {a : SkkEngine δ × List EngineAction}
    (ha : self.handleSelecting event s = .ok a) :
    ∃ r r', Commits self s s.index r ∧ self.afterCommit s = r.1 ∧
      r.1.handleKana event = .ok r' ∧ a = (r'.1, r.2 ++ r'.2) := by
  have hcases := hredispatched
  simp only [isRedispatched, Bool.and_eq_true, decide_eq_true_eq, not_or] at hcases
  obtain ⟨⟨⟨h1, h2, h3, h4, h5, h6, h7, h8, h9⟩, hprintable⟩, hctrl⟩ := hcases
  have hkey : self.selectedByKey s event = none := by simpa using h7
  unfold handleSelecting at ha
  rw [if_neg h1, if_neg h2, if_neg h3, if_neg h4, if_neg h5, if_neg h6, hkey] at ha
  dsimp only at ha
  rw [if_neg h8, if_neg h9, if_pos ⟨hprintable, hctrl⟩] at ha
  -- The kana mode gets the state that the commit leaves.
  cases hcommit : self.commitCandidate s s.index with
  | error e =>
      rw [hcommit] at ha
      cases ha
  | ok r =>
      rw [hcommit, ok_bind] at ha
      cases hkana : r.1.handleKana event with
      | error e => simp [hkana] at ha
      | ok r' =>
          simp only [hkana, ok_bind, Except.ok.injEq] at ha
          exact ⟨r, r', commitCandidate_yields self s s.index r hcommit,
            by rw [afterCommit, hcommit], hkana, ha.symm⟩

/-- The key that is handed on commits the focused candidate. When the rest of it ends a
reading without candidates, that text is committed while a fresh frame is on top. -/
theorem redispatch_handled {s : Selection} (hphase : self.phase = .selecting s) {event : KeyEvent}
    (hredispatched : self.isRedispatched s event) :
    Yields (self.handleSelecting event s)
      (Handled (self.strayIn s event) (self.selectingStyle s event) self) := by
  intro a ha
  rw [selectingStyle, if_pos hredispatched]
  obtain ⟨r, r', hr, hafter, hkana, rfl⟩ := handleSelecting_redispatched hredispatched ha
  have hpushes := handleKana_pushes r.1 event r' hkana
  have hhandled : Handled [] (r.1.kanaStyle event) r.1 r' :=
    handleKana_handled r.1 event r' hkana
  rw [hafter]
  refine ⟨by simp [hhandled.answers], ?_, ?_, (by rw [hphase]; rintro ⟨⟩), hhandled.style⟩
  · rw [List.dropLast_append_of_ne_nil hhandled.answers, List.mem_append]
    rintro (h | h)
    · exact hr.keeps h
    · exact hhandled.deletes h
  · rw [← hr.stack]
    refine hhandled.stack.imp_right ?_
    rintro ⟨frame, hpushed, hfresh, hkeeps, htext⟩
    refine ⟨frame, hpushed, hfresh, ?_, .inr ?_⟩
    · rw [List.mem_append]
      rintro (h | h)
      · exact hr.keeps h
      · exact hkeeps h
    -- A frame was opened, so the key has typed a trigger after a reading without
    -- candidates.
    have hopens : opensFrame (r.1.typedInKana event) = true := by
      rw [← Bool.not_eq_false]
      intro hclosed
      exact List.cons_ne_self _ _ (hpushed.symm.trans (hpushes.mpr hclosed))
    have htext' : committedText r'.2 = [] := htext.elim id id
    rw [strayIn, typedInSelecting, if_pos hredispatched, hafter, if_pos hopens, ← hr.text]
    rw [committedText, List.flatMap_append]
    exact (congrArg (committedText r.2 ++ ·) htext').trans (List.append_nil _)

/-- The other direction: a key that ends a reading without candidates does open a frame, and
what it has committed before is the text of the candidate. -/
theorem handleSelecting_strays {s : Selection} (hphase : self.phase = .selecting s)
    {event : KeyEvent} (hopens : opensFrame (self.typedInSelecting s event) = true) :
    Yields (self.handleSelecting event s) fun a =>
      a.1.registerStack ≠ self.registerStack ∧ committedText a.2 = self.strayIn s event := by
  have hredispatched : self.isRedispatched s event := by
    by_contra hnot
    rw [typedInSelecting, if_neg hnot] at hopens
    cases hopens
  intro a ha
  have hhandled := redispatch_handled hphase hredispatched a ha
  obtain ⟨r, r', hr, hafter, hkana, rfl⟩ := handleSelecting_redispatched hredispatched ha
  have hpushes := handleKana_pushes r.1 event r' hkana
  rw [typedInSelecting, if_pos hredispatched, hafter] at hopens
  have hpushed : r'.1.registerStack ≠ self.registerStack := by
    rw [← hr.stack]
    intro hsame
    rw [hpushes.mp hsame] at hopens
    cases hopens
  refine ⟨hpushed, ?_⟩
  -- The frame was opened by the kana handler, which commits nothing then.
  obtain ⟨frame, -, -, -, htext⟩ := (handleKana_handled r.1 event r' hkana :
    Handled [] (r.1.kanaStyle event) r.1 r').stack.resolve_left fun h =>
      hpushed (h.trans hr.stack)
  have hnone : committedText r'.2 = [] := htext.elim id id
  rw [strayIn, typedInSelecting, if_pos hredispatched, hafter, if_pos hopens, ← hr.text,
    committedText, List.flatMap_append]
  exact (congrArg (committedText r.2 ++ ·) hnone).trans (List.append_nil _)

/-- A selection. Only a key that is handed on to the kana mode can commit and open a frame. The
branches are those of the source in its order, and `h1` to `h9` are the tests that have failed
so far. -/
theorem handleSelecting_handled {s : Selection} (hphase : self.phase = .selecting s)
    (event : KeyEvent) :
    Yields (self.handleSelecting event s)
      (Handled (self.strayIn s event) (self.selectingStyle s event) self) := by
  by_cases hredispatched : self.isRedispatched s event
  · exact redispatch_handled hphase hredispatched
  · have hstyle : self.selectingStyle s event = self.ownStyle := if_neg hredispatched
    rw [hstyle]
    unfold handleSelecting
    refine Yields.ite (fun _ => backToMidashi_handled self s) fun h1 => ?_
    refine Yields.ite (fun _ => selectPrevious_handled self s) fun h2 => ?_
    refine Yields.ite (fun _ => commit_handled hphase s.index _) fun h3 => ?_
    refine Yields.ite (fun _ => commit_handled hphase s.index _) fun h4 => ?_
    refine Yields.ite (fun _ => commitCandidate_handled hphase s.index) fun h5 => ?_
    refine Yields.ite (fun _ => selectNext_handled self s) fun h6 => ?_
    cases hkey : self.selectedByKey s event with
    | some candIdx => exact commitCandidate_handled hphase candIdx
    | none =>
        refine Yields.ite (fun _ => hide_handled rfl rfl) fun h7 => ?_
        refine Yields.ite (fun _ => selectAffix_handled hphase) fun h8 => ?_
        refine Yields.ite (fun h9 => ?_) fun _ => ?_
        · -- all tests have failed and the key types a character: that is what redispatching means
          refine (hredispatched ?_).elim
          simp only [isRedispatched, Bool.and_eq_true, decide_eq_true_eq, not_or]
          exact ⟨⟨⟨h1, h2, h3, h4, h5, h6, by simp [hkey], h7, h8⟩, h9.1⟩, h9.2⟩
        · exact yields_ok.mpr (.plain rfl rfl (by simp) (by simp))

end Selecting

/-! ### The purge confirmation -/

/-- A key the purge confirmation answers with nothing: Return on another answer than `yes`
and `no`, and every key that is neither BackSpace nor a plain letter. -/
def isIgnoredInPurge (event : KeyEvent) (buf : Str) : Bool :=
  if event.key = .returnKey then decide (buf ≠ ['y', 'e', 's'] ∧ buf ≠ ['n', 'o'])
  else
    decide (event.key ≠ .backSpace) &&
      !event.printableChar.any fun ch => ch.isAlpha && !event.modifiers.ctrl

/-- The phase handler ignores the key. -/
def ignores (self : SkkEngine δ) (event : KeyEvent) : Bool :=
  match self.phase with
  | .purgeConfirm _ buf _ => isIgnoredInPurge event buf
  | _ => false

section Purge
variable [DictionaryProvider δ] {stray : Str} {self : SkkEngine δ}

/-- A candidate that is purged. -/
theorem executePurge_handled {s : Selection} {buf : Str} {returnMode : KanaMode}
    (hphase : self.phase = .purgeConfirm s buf returnMode) :
    Yields self.executePurge (Handled stray self.ownStyle self) := by
  unfold executePurge
  rw [hphase]
  refine Yields.bind (Yields.of_forall fun _ => trivial) fun chosen _ => ?_
  exact yields_ok.mpr ⟨by simp, by simp, .inl rfl, (by rw [hphase]; rintro ⟨⟩), rfl⟩

omit [DictionaryProvider δ] in
/-- A purge that is given up goes back to the selection, which is shown as it was, with its page
when it has one. -/
theorem cancelPurge_handled {s : Selection} {buf : Str} {returnMode : KanaMode}
    (hphase : self.phase = .purgeConfirm s buf returnMode) :
    Yields self.cancelPurge (Handled stray self.ownStyle self) := by
  unfold cancelPurge
  rw [hphase]
  refine (listingShowAction_yields self _ _).bind fun page hpage => ?_
  refine (preeditAction_yields _).bind ?_
  rintro _ ⟨preedit, rfl⟩
  refine yields_pure.mpr (.plain rfl rfl (by simp) ?_)
  rw [List.dropLast_concat]
  cases page with
  | none => simp
  | some a =>
      obtain ⟨rows, keys, rfl⟩ := hpage a rfl
      simp

omit [DictionaryProvider δ] in
/-- A letter of the answer, or one less. -/
theorem updatePurgeBuf_handled {s : Selection} {buf : Str} {returnMode : KanaMode}
    (hphase : self.phase = .purgeConfirm s buf returnMode) (buf' : Str) :
    Yields (self.updatePurgeBuf buf') (Handled stray self.ownStyle self) := by
  unfold updatePurgeBuf
  rw [hphase]
  exact redraw_handled rfl rfl

/-- The purge confirmation: it satisfies the contract, or does nothing at all. The keys of the
second kind get no action, so they are named by a test of their own. -/
theorem handlePurgeConfirm_handled {s : Selection} {buf : Str} {returnMode : KanaMode}
    (hphase : self.phase = .purgeConfirm s buf returnMode) (event : KeyEvent) :
    Yields (self.handlePurgeConfirm event buf) fun r =>
      if isIgnoredInPurge event buf then r = (self, [])
      else Handled stray self.ownStyle self r := by
  unfold handlePurgeConfirm isIgnoredInPurge
  by_cases hreturn : event.key = .returnKey
  · -- Return reads the answer, BackSpace and the letters edit it.
    rw [if_pos hreturn, if_pos hreturn]
    refine Yields.ite (fun hyes => ?_) fun hyes => Yields.ite (fun hno => ?_) fun hno => ?_
    · simp only [hyes, ne_eq, not_true_eq_false, false_and, decide_false, Bool.false_eq_true,
        if_false]
      exact executePurge_handled hphase
    · simp only [hno, ne_eq, not_true_eq_false, and_false, decide_false, Bool.false_eq_true,
        if_false]
      exact cancelPurge_handled hphase
    · simp [hyes, hno]
  rw [if_neg hreturn, if_neg hreturn]
  by_cases hback : event.key = .backSpace
  · rw [if_pos hback]
    simp only [hback, ne_eq, not_true_eq_false, decide_false, Bool.false_and, Bool.false_eq_true,
      if_false]
    exact updatePurgeBuf_handled hphase _
  rw [if_neg hback]
  cases hch : event.printableChar with
  | none => simp [hback]
  | some ch =>
      dsimp only
      refine Yields.ite (fun h => ?_) fun h => ?_
      · simp only [Option.any_some, h, Bool.and_self, Bool.not_true, Bool.and_false,
          Bool.false_eq_true, if_false]
        exact updatePurgeBuf_handled hphase _
      · have hnot : (ch.isAlpha && !event.modifiers.ctrl) = false := by simpa using h
        simp [hback, hnot]

end Purge

/-! ### Dispatch -/

section Dispatch
variable [DictionaryProvider δ]

/-- The text a key commits before it opens a registration, if it does both: it commits a
candidate, and then starts and ends a reading that has none. -/
def strayText (self : SkkEngine δ) (event : KeyEvent) : Str :=
  match self.phase with
  | .selecting s => self.strayIn s event
  | _ => []

/-- The style after a key that reaches the phase handler. -/
def styleAfter (self : SkkEngine δ) (event : KeyEvent) : KanaMode × Bool :=
  match self.phase with
  | .hiragana | .katakana | .halfWidthKatakana => self.kanaStyle event
  | .selecting s => self.selectingStyle s event
  | _ => self.ownStyle

/-- Whatever the phase, its handler satisfies the second contract, or ignores the key. Only the
purge confirmation ignores keys. -/
theorem dispatch_handled [EucJp] (self : SkkEngine δ) (event : KeyEvent) :
    Yields (self.dispatch event) fun r =>
      if self.ignores event then r = (self, [])
      else Handled (self.strayText event) (self.styleAfter event) self r := by
  unfold dispatch ignores strayText styleAfter
  cases hphase : self.phase with
  | hiragana | katakana | halfWidthKatakana => exact handleKana_handled self event
  | ascii => exact handleAscii_handled self event
  | wideAscii => exact handleWideAscii_handled self event
  | codeInput codePrefix buf => exact handleCodeInput_handled self event codePrefix buf
  | «abbrev» buf => exact handleAbbrev_handled self event buf
  | midashi kanaBuf romanBuf => exact handleMidashi_handled redispatchFuel rfl rfl event _ _
  | okuri midashi okuriPrefix kanaBuf => exact handleOkuri_handled rfl rfl event _ _ _
  | selecting s => exact handleSelecting_handled hphase event
  | purgeConfirm s buf returnMode => exact handlePurgeConfirm_handled hphase event

/-- A key whose text goes astray opens a registration and commits that text. Only a selection
that hands the key on can do this. -/
theorem dispatch_strays [EucJp] {self : SkkEngine δ} {event : KeyEvent}
    (hstray : self.strayText event ≠ []) :
    Yields (self.dispatch event) fun r =>
      r.1.registerStack ≠ self.registerStack ∧ committedText r.2 = self.strayText event := by
  unfold strayText at hstray ⊢
  unfold dispatch
  cases hphase : self.phase with
  | selecting s =>
      rw [hphase] at hstray
      dsimp only at hstray ⊢
      refine handleSelecting_strays hphase ?_
      by_contra hclosed
      rw [strayIn, if_neg hclosed] at hstray
      exact hstray rfl
  | _ =>
      rw [hphase] at hstray
      exact absurd rfl hstray

/-- Only a key that is handed on from a selection has text that goes astray: it types a
character, without Ctrl. In every other phase the text is empty by definition. -/
theorem selecting_of_strayText {self : SkkEngine δ} {event : KeyEvent}
    (hstray : self.strayText event ≠ []) :
    ∃ s, self.phase = .selecting s ∧ event.modifiers.ctrl = false := by
  unfold strayText at hstray
  cases hphase : self.phase with
  | selecting s =>
      rw [hphase] at hstray
      refine ⟨s, rfl, ?_⟩
      by_contra hctrl
      rw [Bool.not_eq_false] at hctrl
      have hnot : self.isRedispatched s event = false := by
        rw [isRedispatched, hctrl, Bool.not_true, Bool.and_false]
      dsimp only at hstray
      rw [strayIn, typedInSelecting, if_neg (by rw [hnot]; exact Bool.false_ne_true)] at hstray
      exact hstray rfl
  | _ =>
      rw [hphase] at hstray
      exact absurd rfl hstray

end Dispatch

end SkkEngine

end Y2Skk
