import Y2Skk.Proofs.Ctrl

/-!
# `Y2Skk.Proofs.Leaving`: the mode a composition is left to

A composition remembers the kana mode it was entered from, `midashi_display_mode`. The
handlers choose the phase after it one by one, and `ComesHome` says of a result that it is
that mode, when it is a kana mode at all.

Four exits name Hiragana instead (`endsInHiragana`). `comesHome_iff_of_session` shows that
they are the only ones that can go wrong.

## The exits

The keys that leave a composition are Escape, BackSpace, Return, Space, `C-j` and `C-q`
(`isLeaving`). They leave it directly, or they commit a candidate and leave with it, or
they go back to the reading. `ComesHome` has nothing to say about a result that is no kana
mode, so a selection that goes back to its reading is no exit, and neither is a lookup.

The converse is about the four exits: they do lead to Hiragana
(`dispatch_endsInHiragana`), so from another mode they do not come home.
-/

set_option autoImplicit false

namespace Y2Skk

open Outcome Utf8 Transition

/-- The phases of a composition. -/
def SkkPhase.isComposing : SkkPhase → Bool
  | .abbrev _ | .midashi _ _ | .okuri _ _ _ | .codeInput _ _ | .selecting _ => true
  | _ => false

/-- A press of Escape, BackSpace, Return, Space, C-j or C-q. -/
def KeyEvent.isLeaving (event : KeyEvent) : Bool :=
  event.isPress && (decide (event.key = .escape) || decide (event.key = .backSpace) ||
    decide (event.key = .returnKey) || decide (event.key = .space) ||
    (event.modifiers.ctrl && (decide (event.key = .char 'j') || decide (event.key = .char 'q'))))

namespace SkkEngine

variable {δ : Type}

/-- The exits of a reading and its okurigana that lead to Hiragana from every mode: Escape,
BackSpace or Space in an empty reading, and Escape in the okurigana. -/
def endsInHiragana (self : SkkEngine δ) (event : KeyEvent) : Bool :=
  match self.phase with
  | .midashi kanaBuf romanBuf =>
      decide (event.key = .escape) ||
        (decide (event.key = .backSpace) && kanaBuf.isEmpty && romanBuf.isEmpty) ||
        (decide (event.key = .space) && (flushN kanaBuf romanBuf).isEmpty)
  | .okuri _ _ _ => decide (event.key = .escape)
  | _ => false

/-- A kana mode outside a registration is the mode `home`. -/
def ComesHome (home : SkkPhase) (r : SkkEngine δ × List EngineAction) : Prop :=
  r.1.phase.isKana → r.1.registerStack = [] → r.1.phase = home

/-- What is no kana mode is no exit. -/
theorem ComesHome.of_not_kana {home : SkkPhase} {r : SkkEngine δ × List EngineAction}
    (h : r.1.phase.isKana = false) : ComesHome home r := by
  intro hkana _
  rw [h] at hkana
  cases hkana

/-- A redraw in the composition, or in the mode it should end in. It draws a state and goes
nowhere. -/
theorem redraw_comesHome {self : SkkEngine δ} {home : SkkPhase}
    (h : self.phase.isKana = false ∨ self.phase = home) :
    Yields self.redraw (ComesHome home) := by
  refine (redraw_yields self).mono ?_
  rintro _ ⟨preedit, rfl⟩
  rcases h with h | h
  · exact .of_not_kana h
  · exact fun _ _ => h

section Handlers
variable [DictionaryProvider δ] {self : SkkEngine δ} {event : KeyEvent} {home : SkkPhase}

/-- A lookup opens a frame or a selection, and neither is a way out of the composition. -/
theorem startConversion_comesHome (self : SkkEngine δ) (midashi : Str)
    (okuri : Option (Str × Str)) :
    Yields (self.startConversion midashi okuri) (ComesHome home) := by
  refine (startConversion_yields self midashi okuri).mono ?_
  rintro _ (⟨preedit, rfl⟩ | ⟨s, actions, -, -, -, -, rfl⟩)
  · intro _ hstack
    cases hstack
  · exact .of_not_kana rfl

/-- A trigger converts the reading, or ends an empty one. -/
theorem convertOnTrigger_comesHome (hhome : self.midashiDisplayMode.toPhase = home)
    (kanaBuf trigger : Str) : Yields (self.convertOnTrigger kanaBuf trigger) (ComesHome home) := by
  unfold convertOnTrigger
  refine Yields.ite (fun _ => ?_) fun _ => startConversion_comesHome _ kanaBuf none
  exact yields_ok.mpr fun _ _ => hhome

omit [DictionaryProvider δ] in
/-- A code ends in the mode it was entered from. The mode is the one that is displayed, since
the key that opened the code has recorded it. -/
theorem handleCodeInput_comesHome [EucJp] {codePrefix : CodeInputPrefix} {buf : Str}
    (hphase : self.phase = .codeInput codePrefix buf) :
    Yields (self.handleCodeInput event codePrefix buf)
      (ComesHome self.midashiDisplayMode.toPhase) := by
  have hleave : ∀ actions, Yields (.ok ({ self with
      phase := self.kanaPhaseFromDisplayMode, kanaState := [] }, actions) :
        Partial (SkkEngine δ × List EngineAction))
      (ComesHome self.midashiDisplayMode.toPhase) := fun actions => yields_ok.mpr fun _ _ => rfl
  have hstay : Yields self.redraw (ComesHome self.midashiDisplayMode.toPhase) :=
    redraw_comesHome (.inl (by rw [hphase]; rfl))
  unfold handleCodeInput codeInputBackSpace
  refine Yields.ite (fun _ => hleave _) fun _ => ?_
  refine Yields.ite (fun _ => ?_) fun _ => ?_
  · refine Yields.ite (fun _ => redraw_comesHome (.inl rfl)) fun _ => ?_
    exact Yields.ite (fun _ => redraw_comesHome (.inl rfl)) fun _ => hleave _
  refine Yields.ite (fun _ => redraw_comesHome (.inl rfl)) fun _ => ?_
  refine Yields.ite (fun _ => hleave _) fun _ => ?_
  cases event.printableChar with
  | none => exact hstay
  | some ch => exact Yields.ite (fun _ => redraw_comesHome (.inl rfl)) fun _ => hstay

/-- So does an abbreviation. All keys that end it lead to the recorded mode, and a lookup keeps
the record. -/
theorem handleAbbrev_comesHome {buf : Str} (hphase : self.phase = .abbrev buf) :
    Yields (self.handleAbbrev event buf) (ComesHome self.midashiDisplayMode.toPhase) := by
  have hleave : ∀ actions, Yields (.ok ({ self with
      phase := self.kanaPhaseFromDisplayMode }, actions) :
        Partial (SkkEngine δ × List EngineAction))
      (ComesHome self.midashiDisplayMode.toPhase) := fun actions => yields_ok.mpr fun _ _ => rfl
  have hstay : Yields self.redraw (ComesHome self.midashiDisplayMode.toPhase) :=
    redraw_comesHome (.inl (by rw [hphase]; rfl))
  unfold handleAbbrev
  refine Yields.ite (fun _ => hleave _) fun _ => ?_
  refine Yields.ite (fun _ => ?_) fun _ => ?_
  · exact Yields.ite (fun _ => hleave _) fun _ => redraw_comesHome (.inl rfl)
  refine Yields.ite (fun _ => ?_) fun _ => ?_
  · exact Yields.ite (fun _ => redraw_comesHome (.inl rfl)) fun _ =>
      startConversion_comesHome self buf none
  refine Yields.ite (fun _ => hleave _) fun _ => ?_
  refine Yields.ite (fun _ => hleave _) fun _ => ?_
  cases event.printableChar with
  | none => exact hstay
  | some ch => exact Yields.ite (fun _ => hstay) fun _ => redraw_comesHome (.inl rfl)

/-- The okurigana is typed on, taken back, or looked up. Of these only Escape leaves the
composition, and it leads to Hiragana, which is why the lemma asks that the home is that. -/
theorem handleOkuri_comesHome {midashi kanaBuf : Str} {okuriPrefix : Char}
    (hphase : self.phase = .okuri midashi okuriPrefix kanaBuf)
    (hescape : event.key = .escape → home = .hiragana) :
    Yields (self.handleOkuri event midashi okuriPrefix kanaBuf) (ComesHome home) := by
  unfold handleOkuri okuriBackSpace convertOkuri
  refine Yields.ite (fun hkey => ?_) fun _ => ?_
  · exact yields_ok.mpr fun _ _ => (hescape hkey).symm
  refine Yields.ite (fun _ => ?_) fun _ => ?_
  · exact Yields.ite (fun _ => redraw_comesHome (.inl rfl)) fun _ => redraw_comesHome (.inl rfl)
  cases event.printableChar with
  | none => exact yields_ok.mpr (.of_not_kana (by rw [hphase]; rfl))
  | some ch =>
      dsimp only
      cases self.kanaTable.transition self.kanaState ch.toLower .hiragana with
      | ok output nextState | okRetry output _ =>
          exact Yields.ite (fun _ => startConversion_comesHome _ midashi _) fun _ =>
            redraw_comesHome (.inl rfl)
      | noMatch _ _ => exact redraw_comesHome (.inl rfl)

/-- The table took a character: the reading goes on, or a kana of it was a trigger. -/
theorem midashiFeed_comesHome (hhome : self.midashiDisplayMode.toPhase = home)
    (kanaBuf output nextState : Str) :
    Yields (self.midashiFeed kanaBuf output nextState) (ComesHome home) := by
  obtain ⟨last, -, -, -, hfed⟩ | ⟨-, completion, hfed⟩ :=
    self.midashiFeed_cases kanaBuf output nextState
  · rw [hfed]
    exact convertOnTrigger_comesHome hhome _ _
  · rw [hfed]
    exact redraw_comesHome (.inl rfl)

/-- A capital starts an okurigana. -/
theorem midashiOkuri_comesHome {ch : Char} (hkey : event.key ≠ .escape) (kanaBuf : Str) :
    Yields (self.midashiOkuri event ch kanaBuf) (ComesHome home) := by
  unfold midashiOkuri
  dsimp only
  split
  · exact redraw_comesHome (.inl rfl)
  · exact handleOkuri_comesHome rfl fun h => (hkey h).elim

/-- A key in a reading. A character handed back is no exit, so the induction over it has no
condition on the key. -/
theorem handleMidashi_comesHome (fuel : Nat) : ∀ {self : SkkEngine δ} {event : KeyEvent}
    {kanaBuf romanBuf : Str}, self.phase = .midashi kanaBuf romanBuf →
    self.midashiDisplayMode.toPhase = home →
    (self.endsInHiragana event → home = .hiragana) →
    Yields (self.handleMidashi fuel event kanaBuf romanBuf) (ComesHome home) := by
  induction fuel with
  | zero => intros; exact yields_error
  | succ fuel ih =>
    intro self event kanaBuf romanBuf hphase hhome hexits
    have hends : self.endsInHiragana event = (decide (event.key = .escape) ||
        (decide (event.key = .backSpace) && kanaBuf.isEmpty && romanBuf.isEmpty) ||
        (decide (event.key = .space) && (flushN kanaBuf romanBuf).isEmpty)) := by
      rw [endsInHiragana, hphase]
    -- the key that is fed again is a plain character, and no exit
    have hrefeed : ∀ reading retry, Yields (SkkEngine.handleMidashi fuel
        { self with kanaState := [], phase := .midashi reading [] }
        (.press (.char retry) {}) reading []) (ComesHome home) := by
      intro reading retry
      exact ih rfl hhome fun h => by simp [endsInHiragana, KeyEvent.press] at h
    unfold handleMidashi midashiBackSpace midashiReturn midashiSpace midashiHalfwidth
    refine Yields.ite (fun hkey => ?_) fun hescape => ?_
    · exact yields_ok.mpr fun _ _ => (hexits (by simp [hends, hkey])).symm
    refine Yields.ite (fun hkey => ?_) fun _ => ?_
    · refine Yields.ite (fun _ => redraw_comesHome (.inl rfl)) fun hroman => ?_
      refine Yields.ite (fun _ => redraw_comesHome (.inl rfl)) fun hkana => ?_
      -- BackSpace in an empty reading leaves it to Hiragana
      refine yields_ok.mpr fun _ _ => (hexits ?_).symm
      have hroman' : romanBuf.isEmpty := by simpa using hroman
      have hkana' : kanaBuf.isEmpty := by simpa using hkana
      rw [hends, hkana', hroman', decide_eq_true hkey]
      simp
    refine Yields.ite (fun _ => yields_ok.mpr fun _ _ => hhome) fun _ => ?_
    refine Yields.ite (fun hkey => ?_) fun _ => ?_
    · refine Yields.ite (fun hnone => ?_) fun _ => startConversion_comesHome _ _ none
      exact yields_ok.mpr fun _ _ => (hexits (by rw [hends, hnone]; simp [hkey])).symm
    refine Yields.ite (fun _ => ?_) fun _ => ?_
    · unfold midashiTab
      refine Yields.ite (fun _ => ?_) fun _ => redraw_comesHome (.inl rfl)
      cases self.completion with
      | none => exact redraw_comesHome (.inl rfl)
      | some state => exact redraw_comesHome (.inl rfl)
    refine Yields.ite (fun _ => yields_ok.mpr fun _ _ => hhome) fun _ => ?_
    cases event.printableChar with
    | none => exact yields_ok.mpr (.of_not_kana (by rw [hphase]; rfl))
    | some ch =>
        dsimp only
        refine Yields.ite (fun _ => convertOnTrigger_comesHome hhome _ _) fun _ => ?_
        refine Yields.ite (fun _ => ?_) fun _ => ?_
        · unfold midashiAffix
          exact Yields.ite (fun _ => redraw_comesHome (.inl rfl)) fun _ =>
            startConversion_comesHome _ _ none
        refine Yields.ite (fun _ => redraw_comesHome (.inl rfl)) fun _ => ?_
        refine Yields.ite (fun _ => midashiOkuri_comesHome hescape kanaBuf) fun _ => ?_
        cases self.kanaTable.transition self.kanaState ch.toLower .hiragana with
        | ok output nextState => exact midashiFeed_comesHome hhome kanaBuf output nextState
        | okRetry output retry => exact hrefeed (kanaBuf ++ output) retry
        | noMatch flush retry =>
            cases retry with
            | some retryCh => exact hrefeed kanaBuf retryCh
            | none =>
                refine Yields.ite (fun _ => ?_) fun _ => redraw_comesHome (.inl rfl)
                exact yields_ok.mpr fun _ _ => hhome

/-- Every commit of a candidate returns to the mode of the composition. -/
theorem commitCandidate_comesHome (self : SkkEngine δ) (s : Selection) (index : Nat) :
    Yields (self.commitCandidate s index) (ComesHome self.midashiDisplayMode.toPhase) := by
  unfold commitCandidate
  refine Yields.bind (Yields.of_forall fun _ => trivial) fun chosen _ => yields_ok.mpr ?_
  cases learnEntry s index chosen with
  | some entry => exact fun _ _ => rfl
  | none => exact fun _ _ => rfl

omit [DictionaryProvider δ] in
/-- Another candidate is focused, and the selection goes on. -/
theorem reselect_comesHome {mid : SkkEngine δ} (hphase : mid.phase.isKana = false)
    (candidates : List Candidate) (index : Nat)
    {k : EngineAction → Option EngineAction → Partial (SkkEngine δ × List EngineAction)}
    (hk : ∀ preedit page, ∃ actions, k preedit page = .ok (mid, actions)) :
    Yields (mid.preeditAction >>= fun preedit =>
      mid.listingShowAction candidates index >>= k preedit) (ComesHome home) := by
  refine Yields.bind (Yields.of_forall fun _ => trivial) fun preedit _ => ?_
  refine Yields.bind (Yields.of_forall fun _ => trivial) fun page _ => ?_
  obtain ⟨actions, hactions⟩ := hk preedit page
  rw [hactions]
  exact yields_ok.mpr (.of_not_kana hphase)

/-- A selection commits, or moves, or goes back. Only the commit leaves it, for the mode the
reading was displayed in. -/
theorem handleSelecting_comesHome {s : Selection} (hphase : self.phase = .selecting s)
    (hkey : event.isLeaving) :
    Yields (self.handleSelecting event s) (ComesHome self.midashiDisplayMode.toPhase) := by
  have hcommit : ∀ more, Yields (self.commitCandidate s s.index >>= fun r => .ok (r.1, r.2 ++ more))
      (ComesHome self.midashiDisplayMode.toPhase) := fun more =>
    (commitCandidate_comesHome self s s.index).bind fun r hr => yields_ok.mpr hr
  -- A cancelled selection goes back to its reading, which is no kana mode.
  have hback : Yields (self.backToMidashi s) (ComesHome self.midashiDisplayMode.toPhase) := by
    unfold backToMidashi
    refine Yields.bind (Yields.of_forall fun _ => trivial) fun preedit _ => yields_pure.mpr ?_
    exact .of_not_kana (by rw [updateCompletion_eq]; rfl)
  unfold handleSelecting
  refine Yields.ite (fun _ => hback) fun hescape => ?_
  refine Yields.ite (fun _ => ?_) fun _ => ?_
  · unfold selectPrevious
    refine Yields.ite (fun _ => hback) fun _ => ?_
    refine reselect_comesHome (by rfl) _ _ fun preedit page => ?_
    cases page <;> exact ⟨_, rfl⟩
  refine Yields.ite (fun _ => hcommit _) fun hbackSpace => ?_
  refine Yields.ite (fun _ => hcommit _) fun hreturn => ?_
  refine Yields.ite (fun _ => commitCandidate_comesHome self s s.index) fun hctrlJ => ?_
  refine Yields.ite (fun _ => ?_) fun hspace => ?_
  · unfold selectNext
    refine Yields.ite (fun _ => ?_) fun _ => ?_
    · -- The candidates are exhausted: a registration is opened.
      unfold enterRegisterFromSelecting
      refine Yields.bind (Yields.of_forall fun _ => trivial) fun preedit _ => yields_pure.mpr ?_
      intro _ hstack
      cases hstack
    · refine reselect_comesHome (by rfl) _ _ fun preedit page => ?_
      cases page <;> exact ⟨_, rfl⟩
  -- What is left is C-q, which is a selection key or nothing.
  obtain ⟨hctrl, hq⟩ : event.modifiers.ctrl ∧ event.key = .char 'q' := by
    simp_all [KeyEvent.isLeaving]
  cases self.selectedByKey s event with
  | some candIdx => exact commitCandidate_comesHome self s candIdx
  | none =>
      dsimp only
      rw [if_neg (by simp [hq]), if_neg (by simp [KeyEvent.printableChar, hq, isAffixChar]),
        if_neg (by simp [hctrl])]
      exact yields_ok.mpr (.of_not_kana (by rw [hphase]; rfl))

variable [EucJp]

/-- Every composition, with every key that leaves it. The exits that name Hiragana come home
only when Hiragana is the home, by hypothesis. All others lead to the mode that the engine has
recorded. -/
theorem dispatch_comesHome (hphase : self.phase.isComposing) (hkey : event.isLeaving)
    (hexits : self.endsInHiragana event → self.midashiDisplayMode = .hiragana) :
    Yields (self.dispatch event) (ComesHome self.midashiDisplayMode.toPhase) := by
  have hhome : self.endsInHiragana event → self.midashiDisplayMode.toPhase = .hiragana := by
    intro h
    rw [hexits h]
    rfl
  unfold dispatch
  cases hcase : self.phase with
  | «abbrev» buf => exact handleAbbrev_comesHome hcase
  | midashi kanaBuf romanBuf => exact handleMidashi_comesHome redispatchFuel hcase rfl hhome
  | okuri midashi okuriPrefix kanaBuf =>
      refine handleOkuri_comesHome hcase fun h => hhome ?_
      rw [endsInHiragana, hcase]
      exact decide_eq_true h
  | codeInput codePrefix buf => exact handleCodeInput_comesHome hcase
  | selecting s => exact handleSelecting_comesHome hcase hkey
  | _ =>
      rw [hcase] at hphase
      cases hphase

/-- The exits that name Hiragana do lead there: Escape in a reading or an okurigana, BackSpace
in an empty reading, and Space with nothing to look up. They open and close no frame. -/
theorem dispatch_endsInHiragana (h : self.endsInHiragana event) :
    ∃ r, self.dispatch event = .ok r ∧ r.1.phase = .hiragana ∧
      r.1.registerStack = self.registerStack := by
  unfold endsInHiragana at h
  unfold dispatch
  cases hcase : self.phase with
  | midashi kanaBuf romanBuf =>
      rw [hcase] at h
      dsimp only at h ⊢
      unfold redispatchFuel handleMidashi
      by_cases hescape : event.key = .escape
      · rw [if_pos hescape]
        exact ⟨_, rfl, rfl, rfl⟩
      rw [if_neg hescape]
      by_cases hbackSpace : event.key = .backSpace
      · have hnone : kanaBuf = [] ∧ romanBuf = [] := by simpa [hbackSpace] using h
        unfold midashiBackSpace
        rw [if_pos hbackSpace, if_neg (by simp [hnone]), if_neg (by simp [hnone])]
        exact ⟨_, rfl, rfl, rfl⟩
      · have hspace : event.key = .space ∧ flushN kanaBuf romanBuf = [] := by
          simpa [hescape, hbackSpace] using h
        unfold midashiSpace
        rw [if_neg hbackSpace, if_neg (by simp [hspace]), if_pos hspace.1,
          if_pos (by simp [hspace])]
        exact ⟨_, rfl, rfl, rfl⟩
  | okuri midashi okuriPrefix kanaBuf =>
      rw [hcase] at h
      unfold handleOkuri
      dsimp only
      rw [if_pos (of_decide_eq_true h)]
      exact ⟨_, rfl, rfl, rfl⟩
  | _ =>
      rw [hcase] at h
      cases h

/-! ### Through a key press -/

variable {history : History δ}

/-- A key that is handled, outside a registration, and takes an exit to Hiragana: the engine is
in Hiragana afterwards, in whatever mode the reading was started. -/
theorem step_endsInHiragana (hself : self.Wf) (hstack : self.registerStack = [])
    (hoff : self.isToggle event = false) (hcooks : self.cooks event)
    (hends : self.endsInHiragana event) {self' : SkkEngine δ} {actions : List EngineAction}
    (hstep : Step self event self' actions) :
    self'.phase = .hiragana ∧ self'.registerStack = [] := by
  rcases step_cases hstep with ⟨hnot, -⟩ | ⟨-, r, -, hcooked, -, rfl, -⟩
  · rw [hcooks] at hnot
    cases hnot
  obtain ⟨raw', hdispatch', hhiragana, hsame⟩ := dispatch_endsInHiragana hends
  obtain ⟨raw, hdispatch, ⟨hraw, rfl⟩ | ⟨frame, frame', hopened, -, -⟩⟩ :=
    handleCooked_outside hself hstack hoff r hcooked
  · rw [hdispatch'] at hdispatch
    cases hdispatch
    exact ⟨hhiragana, hraw⟩
  · -- The exit opens no frame.
    rw [hdispatch'] at hdispatch
    cases hdispatch
    rw [hsame, hstack] at hopened
    cases hopened

/-- A key that takes no exit to Hiragana, or takes one to the mode it should. -/
theorem step_comesHome (hself : self.Wf) (hstack : self.registerStack = [])
    (hoff : self.isToggle event = false) (hphase : self.phase.isComposing)
    (hkey : event.isLeaving)
    (hexits : self.isRawToggle event = false → self.endsInHiragana event →
      self.midashiDisplayMode = .hiragana)
    {self' : SkkEngine δ} {actions : List EngineAction} (hstep : Step self event self' actions) :
    ComesHome self.midashiDisplayMode.toPhase (self', actions) := by
  rcases step_cases hstep with ⟨-, rawMode, rfl⟩ | ⟨hcooks, r, -, hcooked, -, rfl, -⟩
  · -- Nothing was handled, and the composition goes on.
    refine .of_not_kana ?_
    dsimp only
    cases hcase : self.phase <;> simp_all [SkkPhase.isComposing, SkkPhase.isKana]
  have hrawToggle : self.isRawToggle event = false := by
    simp only [cooks, Bool.and_eq_true, Bool.not_eq_true'] at hcooks
    exact hcooks.2
  obtain ⟨raw, hdispatch, ⟨-, rfl⟩ | ⟨frame, frame', -, -, hstate⟩⟩ :=
    handleCooked_outside hself hstack hoff r hcooked
  · exact dispatch_comesHome hphase hkey (hexits hrawToggle) r hdispatch
  · intro _ hnil
    rw [hstate] at hnil
    cases hnil

/-- In every run: a key that leaves a composition leaves it to the mode it was entered from,
exactly when it is not one of the exits to Hiragana, or that mode is Hiragana. A raw-mode toggle
leaves the composition as it is. The condition is on the state and the key. -/
theorem comesHome_iff_of_session {kanaTable : KanaTable} {keybindings : SkkKeybindings}
    {lispDirectives : Bool} {initialPhase : SkkPhase} {providers : List δ}
    (hrun : Session (fresh kanaTable keybindings lispDirectives initialPhase providers)
      history self)
    (hraw : self.rawMode = false) (hstack : self.registerStack = [])
    (hphase : self.phase.isComposing) (hkey : event.isLeaving)
    (htoggle : isKeyOf event self.keybindings.toggleKeys = false) :
    (∀ self' actions, Step self event self' actions →
      ComesHome self.midashiDisplayMode.toPhase (self', actions)) ↔
      self.isRawToggle event ∨ self.endsInHiragana event = false ∨
        self.midashiDisplayMode = .hiragana := by
  have hself : self.Wf := Session.wf (fresh_wf ..) hrun
  have hoff : self.isToggle event = false := by simp [isToggle, htoggle]
  constructor
  · intro h
    by_contra hnot
    simp only [not_or, Bool.not_eq_true, Bool.not_eq_false] at hnot
    obtain ⟨hrawToggle, hends, hmode⟩ := hnot
    have hpress : event.isPress := by
      unfold KeyEvent.isLeaving at hkey
      exact (Bool.and_eq_true_iff.mp hkey).1
    have hcooks : self.cooks event := by simp [cooks, hpress, hraw, hrawToggle]
    obtain ⟨⟨self', actions⟩, hstep, -⟩ := processKey_wf hself event
    -- The exit leads to Hiragana, and the mode is another one.
    obtain ⟨hhiragana, hnil⟩ := step_endsInHiragana hself hstack hoff hcooks hends hstep
    have hhome : self'.phase = self.midashiDisplayMode.toPhase :=
      h self' actions hstep (by dsimp only; rw [hhiragana]; rfl) hnil
    rw [hhiragana] at hhome
    revert hmode hhome
    cases self.midashiDisplayMode <;> simp [KanaMode.toPhase]
  · intro hcond self' actions hstep
    refine step_comesHome hself hstack hoff hphase hkey (fun hrawToggle hends => ?_) hstep
    simpa [hrawToggle, hends] using hcond

end Handlers

/-- A reading typed in Katakana is left to Hiragana by Escape. The reading was begun with `A` in
Katakana mode, and the engine still displays Katakana when it is left. -/
theorem katakana_left_by_escape :
    letI := EucJp.empty
    ∃ (history : History Empty) (self self' : SkkEngine Empty) (actions : List EngineAction),
      Session (fresh vowelTable {} true .katakana []) history self ∧
      history.map Visit.input = KeyEvent.typed ['A'] ∧ self.rawMode = false ∧
      self.registerStack = [] ∧ self.phase = .midashi ['あ'] [] ∧
      self.midashiDisplayMode = .katakana ∧
      KeyEvent.isLeaving (.press .escape {}) ∧
      isKeyOf (.press .escape {}) self.keybindings.toggleKeys = false ∧
      Step self (.press .escape {}) self' actions ∧ self'.phase = .hiragana ∧
      ¬ ComesHome self.midashiDisplayMode.toPhase (self', actions) := by
  let _ := EucJp.empty
  have hrecord := exists_session (fresh vowelTable {} true .katakana []) (KeyEvent.typed ['A'])
    (fun _ (self : SkkEngine Empty) => self.rawMode = false ∧ self.registerStack = [] ∧
      self.phase = .midashi ['あ'] [] ∧ self.midashiDisplayMode = .katakana ∧
      isKeyOf (.press .escape {}) self.keybindings.toggleKeys = false ∧
      ∃ r ∈ (self.processKey (.press .escape {})).toOption,
        r.1.phase = .hiragana ∧ r.1.registerStack = [])
    (by decide +kernel)
  obtain ⟨history, self, hrun, hinputs, hraw, hstack, hphase, hmode, htoggle, r, hr, hhiragana,
    hnil⟩ := hrecord
  refine ⟨history, self, r.1, r.2, hrun, hinputs, hraw, hstack, hphase, hmode, rfl, htoggle,
    ok_of_mem_toOption hr, hhiragana, fun hcome => ?_⟩
  have hhome := hcome (by dsimp only; rw [hhiragana]; rfl) hnil
  dsimp only at hhome
  rw [hhiragana, hmode] at hhome
  cases hhome

/-- Return leaves the same reading to Katakana. It is none of the exits that name Hiragana. -/
theorem comesHome_iff_of_session_return :
    letI := EucJp.empty
    ∃ (history : History Empty) (self : SkkEngine Empty),
      Session (fresh vowelTable {} true .katakana []) history self ∧
      self.phase = .midashi ['あ'] [] ∧ ∀ self' actions,
        Step self (.press .returnKey {}) self' actions → ComesHome .katakana (self', actions) := by
  let _ := EucJp.empty
  have hrecord := exists_session (fresh vowelTable {} true .katakana []) (KeyEvent.typed ['A'])
    (fun _ (self : SkkEngine Empty) => self.rawMode = false ∧ self.registerStack = [] ∧
      self.phase = .midashi ['あ'] [] ∧ self.midashiDisplayMode = .katakana ∧
      isKeyOf (.press .returnKey {}) self.keybindings.toggleKeys = false)
    (by decide +kernel)
  obtain ⟨history, self, hrun, -, hraw, hstack, hphase, hmode, htoggle⟩ := hrecord
  have hends : self.endsInHiragana (.press .returnKey {}) = false := by
    rw [endsInHiragana, hphase]
    rfl
  have hiff := comesHome_iff_of_session hrun hraw hstack (by rw [hphase]; rfl) rfl htoggle
  refine ⟨history, self, hrun, hphase, fun self' actions hstep => ?_⟩
  have hcome := hiff.mpr (.inr (.inl hends)) self' actions hstep
  rwa [hmode] at hcome

end SkkEngine

end Y2Skk
