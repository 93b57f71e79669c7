import Y2Skk.Proofs.Press

/-!
# `Y2Skk.Proofs.KeyStep`: the inversion of `processKey`

`processKey_runs` puts the contracts together: from a well-formed state `processKey`
returns, and what it did is one of the four cases of `KeyStep`. Everything proved about
runs of the engine starts from this theorem and looks at no handler.

## The cases

* `ignored`: a release, or a key in raw mode, which is passed on;
* `enterRaw`: the window is hidden and the preedit cleared, and nothing else changes;
* `leaveRaw`: the state that was frozen is drawn again;
* `cooked`: everything else, with the contract `Cooked` of a handled key.

`KeyStep.wf` is its first use: a key keeps the engine invariant. The status update at the
end of a press concerns neither the preedit nor the window, so it is split off.

## Registrations

The keys that a registration takes before the phase handler sees them have an inversion of
their own, `registrationKey_cases`. Return and `C-g` leave a composition without the help
of its handler: what it leaves behind is the exception that `Cooked` makes
(`leavesWindow`, `leavesTrigger`, `leavesCompletion`), and the toggle keys do the same
outside a registration.
-/

set_option autoImplicit false

namespace Y2Skk

open Outcome Utf8

namespace SkkEngine

variable {δ : Type} [DictionaryProvider δ]

/-! ### The keys of the registration mode -/

/-- The keys edit the buffer of the registration: the ready state, or direct input. -/
def atBuffer (self : SkkEngine δ) : Prop := self.inReadyState ∨ self.phase = .ascii

/-- How a registration takes a key for itself, and what it computes. Four of the ways are for
the buffer itself, in the ready state or in direct input. -/
inductive TakesKey (self : SkkEngine δ) (event : KeyEvent) :
    Partial (SkkEngine δ × List EngineAction) → Prop where
  | submit : self.atBuffer → event.key = .returnKey → TakesKey self event self.regReturn
  | drop : self.atBuffer → TakesKey self event self.cancelRegister
  | edit {edited} : self.atBuffer → self.regEditDrawn event.key = some edited →
      TakesKey self event edited
  | type (ch : Char) : self.atBuffer → TakesKey self event (do
      let self ← self.editTop (·.insert [ch])
      self.redraw)
  /-- C-g drops a composition together with its frame. -/
  | abandon : ¬ self.inReadyState → isCtrlG event →
      TakesKey self event
        (SkkEngine.cancelRegister { self with phase := .hiragana, kanaState := [] })
  | flush {text} : flushText self.phase = some text → event.key = .returnKey →
      TakesKey self event (self.regFlush text)

/-- In the ready state the editing keys, Return and `C-g` go to the registration. Escape is the
same as `C-g` there. -/
theorem regReadyKey_cases {self : SkkEngine δ} {event : KeyEvent} (hready : self.inReadyState)
    {early : Partial (SkkEngine δ × List EngineAction)} (h : self.regReadyKey event = some early) :
    TakesKey self event early := by
  unfold regReadyKey at h
  split at h
  · rename_i hreturn
    cases h
    exact .submit (.inl hready) hreturn
  split at h
  · cases h
    exact .drop (.inl hready)
  · exact .edit (.inl hready) h

/-- In direct input, editing keys and characters go to the buffer. Return submits the buffer and
Escape drops the frame. A character with Ctrl is left to the handler. -/
theorem regAsciiKey_cases {self : SkkEngine δ} {event : KeyEvent} (hascii : self.phase = .ascii)
    {early : Partial (SkkEngine δ × List EngineAction)} (h : self.regAsciiKey event = some early) :
    TakesKey self event early := by
  unfold regAsciiKey at h
  split at h
  · rename_i hreturn
    cases h
    exact .submit (.inr hascii) hreturn
  split at h
  · cases h
    exact .drop (.inr hascii)
  -- Return and Escape come first, then the keys that edit the buffer, then characters.
  cases hedit : self.regEditDrawn event.key with
  | some edited =>
      rw [hedit] at h
      cases h
      exact .edit (.inr hascii) hedit
  | none =>
      rw [hedit] at h
      dsimp only at h
      split at h
      · rename_i ch _
        split at h
        · cases h
        · cases h
          exact .type ch (.inr hascii)
      · cases h

/-- Every key that a registration takes for itself is one of the kinds of `TakesKey`. Which keys
these are depends on the phase: a kana mode without romaji, direct input, and a composition each
take their own. -/
theorem registrationKey_cases {self : SkkEngine δ} {event : KeyEvent}
    {early : Partial (SkkEngine δ × List EngineAction)}
    (h : self.registrationKey event = some early) :
    self.registerStack ≠ [] ∧ TakesKey self event early := by
  unfold registrationKey at h
  split at h
  · cases h
  rename_i hstack
  refine ⟨fun hnil => hstack (by simp [hnil]), ?_⟩
  split at h
  · rename_i hready
    exact regReadyKey_cases hready h
  rename_i hready
  split at h
  · rename_i hctrl
    cases h
    exact .abandon hready hctrl
  -- a composition that has a text to flush takes Return; direct input has its own keys
  cases htext : flushText self.phase with
  | some text =>
      rw [htext] at h
      dsimp only at h
      split at h
      · rename_i hreturn
        cases h
        exact .flush htext hreturn
      · cases h
  | none =>
      rw [htext] at h
      dsimp only at h
      split at h
      · rename_i hascii
        exact regAsciiKey_cases hascii h
      · cases h

/-- Return in abbrev, reading or okurigana moves the text into the buffer, and the registration
is back in its ready state. -/
theorem regFlush_cooked {self : SkkEngine δ} (hself : self.Wf) {event : KeyEvent} {text : Str}
    (htext : flushText self.phase = some text) (hstack : self.registerStack ≠ [])
    (hkey : event.key = .returnKey) : Runs (self.regFlush text) (Cooked self event) := by
  have hsel : self.phase.selection? = none := by
    cases hphase : self.phase <;> simp_all [flushText, SkkPhase.selection?]
  have hflush : self.flushesReading event := by
    simp [flushesReading, hstack, htext, hkey]
  -- Return in a reading clears no completion, so one may be left behind.
  have hdone : ∀ {self' : SkkEngine δ}, self'.Wf → self'.phase = .hiragana →
      (∃ stack, self' = { self with
        phase := .hiragana, kanaState := [], registerStack := stack }) →
      Runs self'.redraw (Cooked self event) := by
    rintro self' hself' - ⟨stack, rfl⟩
    refine redraw_cooked hself' ⟨rfl, rfl, rfl, rfl⟩ .refl
      (.inl (by rw [page_eq_none hsel]; rfl))
      (fun hok => .inl (.of_none (by exact hok.eq_none hsel) _)) fun _ _ => ?_
    cases hcompletion : self.completion with
    | none => exact .inl (.of_none rfl)
    | some c => exact .inr (by simp [leavesCompletion, hcompletion, hflush])
  have hmid : SkkEngine.Wf { self with phase := .hiragana, kanaState := [] } :=
    ⟨hself.frames, trivial⟩
  unfold regFlush
  dsimp only
  split
  · refine (editTop_runs hmid fun hf => RegisterFrame.insert_runs hf _).bind fun self' h => ?_
    obtain ⟨stack, hstack'⟩ := h.2.eq
    exact hdone h.1 (by rw [hstack']) ⟨stack, hstack'⟩
  · exact hdone hmid rfl ⟨self.registerStack, rfl⟩

/-- Return on the buffer: the frame is finished, or cancelled when it is empty. Both draw what
comes up below it. -/
theorem regReturn_cooked {self : SkkEngine δ} (hself : self.Wf) (hclean : self.Clean)
    (hstack : self.registerStack ≠ []) {event : KeyEvent} :
    Runs self.regReturn (Cooked self event) := by
  unfold regReturn
  cases hframes : self.registerStack with
  | nil => exact (hstack hframes).elim
  | cons frame frames =>
      refine Runs.ite (fun _ => ?_) fun _ => ?_
      · exact cancelRegister_cooked hself (.inl rfl) (.inl hclean) hstack
      · exact finalizeRegister_cooked hself hclean hstack

/-- Every key the registration takes satisfies the contract of a handled key, whatever was being
composed when it came. -/
theorem registrationKey_cooked {self : SkkEngine δ} (hself : self.Wf) {event : KeyEvent}
    {early : Partial (SkkEngine δ × List EngineAction)}
    (h : self.registrationKey event = some early) : Runs early (Cooked self event) := by
  obtain ⟨hstack, htakes⟩ := registrationKey_cases h
  -- At the buffer nothing is pending.
  have hclean : self.atBuffer → self.Clean := by
    rintro (hready | hascii)
    · exact .of_isPlain (isPlain_of_isKana (Bool.and_eq_true_iff.mp hready).1)
    · exact .of_isPlain (by rw [hascii]; rfl)
  cases htakes with
  | submit hbuffer _ => exact regReturn_cooked hself (hclean hbuffer) hstack
  | drop hbuffer => exact cancelRegister_cooked hself (.inl rfl) (.inl (hclean hbuffer)) hstack
  | edit hbuffer hedit => exact regEditDrawn_cooked hself (hclean hbuffer) hedit
  | type ch hbuffer =>
      exact editTop_redraw hself (hclean hbuffer) fun hf => RegisterFrame.insert_runs hf _
  | abandon hready hctrl =>
      have hinside : self.cancelsInside event := by simp [cancelsInside, hstack, hready, hctrl]
      exact cancelRegister_cooked hself (.inr rfl) (.inr hinside) hstack
  | flush htext hkey => exact regFlush_cooked hself htext hstack hkey

/-! ### The toggle keys -/

/-- A toggle key satisfies the contract of a handled key. It drops the pending romaji and
changes the phase, and what the old phase leaves behind is what `isToggle` makes an exception
for. -/
theorem toggle_cooked {self : SkkEngine δ} (hself : self.Wf) {event : KeyEvent}
    (htoggle : self.isToggle event) : Cooked self event self.toggle := by
  have hstack : self.registerStack = [] :=
    List.isEmpty_iff.mp (Bool.and_eq_true_iff.mp htoggle).1
  have hstate : ∃ phase', self.toggle.1 = { self with phase := phase', kanaState := [] } ∧
      phase'.isPlain := by
    unfold toggle
    split
    · rename_i hascii
      have hkana : self.kanaState = [] := hself.phase_eq hascii
      exact ⟨.hiragana, by rw [← hkana], rfl⟩
    · exact ⟨.ascii, rfl, rfl⟩
  -- From `Ascii` the phase is all that changes, since nothing is pending there.
  obtain ⟨phase', hstate, hplain⟩ := hstate
  have hactions : self.toggle = (self.toggle.1, [.clearPreedit]) := rfl
  rw [hactions, hstate]
  refine {
    wf := ⟨hself.frames, phaseWf_of_isPlain hplain⟩
    config := ⟨rfl, rfl, rfl, rfl⟩
    dict := .refl
    preedits := by simp
    shows := fun a ha => by
      cases ha
      exact ⟨_, buildPreedit_text_of_isPlain hplain rfl hstack, rfl⟩
    silent := fun h => by cases h
    window := fun a ha => by cases ha
    samePage := fun _ => ?_
    trigger := fun _ => ?_
    completion := fun _ _ => ?_ }
  -- What the old phase leaves behind is what `isToggle` makes an exception for.
  · cases hpage : self.page with
    | none => exact .inl (page_eq_none (selection?_of_isPlain hplain))
    | some a => exact .inr (by simp [leavesWindow, hpage, htoggle])
  · cases hpending : self.conversionTrigger with
    | none => exact .inl (.of_none rfl _)
    | some t => exact .inr (by simp [leavesTrigger, hpending, htoggle])
  · cases hcompletion : self.completion with
    | none => exact .inl (.of_none rfl)
    | some c => exact .inr (by simp [leavesCompletion, hcompletion, htoggle])

/-! ### The whole press -/

/-- Outside a registration no key is taken from the phase handler. -/
theorem registrationKey_nil {self : SkkEngine δ} (hstack : self.registerStack = [])
    (event : KeyEvent) : self.registrationKey event = none := by
  unfold registrationKey
  rw [if_pos (by simp [hstack])]

/-- Outside a registration a toggle key has its way in every phase. -/
theorem handleCooked_toggle [EucJp] {self : SkkEngine δ} (hstack : self.registerStack = [])
    {event : KeyEvent} (htoggle : self.isToggle event) :
    self.handleCooked event = .ok self.toggle := by
  unfold handleCooked
  rw [registrationKey_nil hstack]
  exact if_pos htoggle

/-- A handled key satisfies it, whoever handles it: the registration, a toggle key, or the
phase. -/
theorem handleCooked_runs [EucJp] {self : SkkEngine δ} (hself : self.Wf) (event : KeyEvent) :
    Runs (self.handleCooked event) (Cooked self event) := by
  unfold handleCooked
  cases hearly : self.registrationKey event with
  | some early => exact registrationKey_cooked hself hearly
  | none =>
      refine Runs.ite (fun htoggle => ?_) fun htoggle => ?_
      · exact runs_ok.mpr (toggle_cooked hself htoggle)
      · exact dispatch_cooked hself (by simp [reachesHandler, hearly, htoggle])

omit [DictionaryProvider δ] in
/-- Leaving raw mode redraws the frozen page: its last window action is the page of the state,
if that has one. -/
theorem renderCurrentPhase_runs {self : SkkEngine δ} (hself : self.Wf) :
    Runs self.renderCurrentPhase fun actions => lastWindow actions = self.page ∧
      ∀ preedit, .updatePreedit preedit ∈ actions → preedit.Wf := by
  obtain ⟨preedit, -, hpreedit, haction⟩ := preeditAction_eq hself
  have hclear : ∀ {phase}, self.phase = phase → phase.selection? = none →
      Runs (.ok [.clearPreedit]) fun actions => lastWindow actions = self.page ∧
        ∀ preedit, .updatePreedit preedit ∈ actions → preedit.Wf := fun hphase hsel =>
    runs_ok.mpr ⟨(page_eq_none (hphase ▸ hsel)).symm, by simp⟩
  have hshow : ∀ {phase}, self.phase = phase → phase.selection? = none ∨ self.page = none →
      Runs (do return [← self.preeditAction]) fun actions => lastWindow actions = self.page ∧
        ∀ preedit, .updatePreedit preedit ∈ actions → preedit.Wf := by
    intro phase hphase hsel
    have hpage : self.page = none := hsel.elim (fun h => page_eq_none (hphase ▸ h)) id
    rw [haction, ok_bind, runs_pure, hpage]
    exact ⟨rfl, fun p hp => by cases List.mem_singleton.mp hp; exact hpreedit⟩
  unfold renderCurrentPhase
  cases hphase : self.phase with
  | selecting s =>
      have hs := (hself.phase_eq hphase).2
      -- The one phase with a page.
      have hpage : self.page = self.pageAt s.candidates s.index := by rw [page, hphase]
      dsimp only
      rw [haction, ok_bind, listingShowAction_eq self (Nat.le_of_lt hs.index_lt), ok_bind, ← hpage]
      cases hrows : self.page with
      | none =>
          exact runs_pure.mpr ⟨rfl, fun p hp => by cases List.mem_singleton.mp hp; exact hpreedit⟩
      | some a =>
          obtain ⟨rows, keys, rfl⟩ := page_isShow hrows
          refine runs_pure.mpr ⟨rfl, fun p hp => ?_⟩
          rcases List.mem_cons.mp hp with hp | hp
          · cases hp; exact hpreedit
          · cases List.mem_singleton.mp hp
  | ascii => exact hclear hphase rfl
  | wideAscii => exact hclear hphase rfl
  | hiragana => exact Runs.ite (fun _ => hclear hphase rfl) fun _ => hshow hphase (.inl rfl)
  | katakana => exact Runs.ite (fun _ => hclear hphase rfl) fun _ => hshow hphase (.inl rfl)
  | halfWidthKatakana =>
      exact Runs.ite (fun _ => hclear hphase rfl) fun _ => hshow hphase (.inl rfl)
  | purgeConfirm s buf returnMode => exact hshow hphase (.inr (by rw [page, hphase]))
  | _ => exact hshow hphase (.inl rfl)

/-- What `processKey` did, up to the status update at the end of its actions. -/
inductive KeyStep (self : SkkEngine δ) (event : KeyEvent) :
    SkkEngine δ × List EngineAction → Prop
  /-- A release, or a key forwarded in raw mode. -/
  | ignored : event.isPress = false ∨ (self.rawMode ∧ self.isRawToggle event = false) →
      KeyStep self event (self, [.passthrough])
  | enterRaw : event.isPress → self.rawMode = false → self.isRawToggle event →
      KeyStep self event ({ self with rawMode := true }, [.hideCandidates, .clearPreedit])
  | leaveRaw {actions} : self.rawMode → lastWindow actions = self.page →
      (∀ preedit, .updatePreedit preedit ∈ actions → preedit.Wf) →
      KeyStep self event ({ self with rawMode := false }, actions)
  | cooked {r} : event.isPress → self.rawMode = false → self.isRawToggle event = false →
      Cooked self event r → KeyStep self event r

/-- The status update at the end of the actions, when there is one. -/
def IsStatus (actions : List EngineAction) : Prop :=
  actions = [] ∨ ∃ indicator, actions = [.updateStatus indicator]

/-- A status update concerns neither the preedit nor the window. -/
theorem IsStatus.lastPreedit_append {actions status : List EngineAction} (h : IsStatus status) :
    lastPreedit (actions ++ status) = lastPreedit actions := by
  rcases h with rfl | ⟨indicator, rfl⟩
  · rw [List.append_nil]
  · rw [Y2Skk.lastPreedit_append]
    rfl

/-- And it leaves the window as it is. -/
theorem IsStatus.lastWindow_append {actions status : List EngineAction} (h : IsStatus status) :
    lastWindow (actions ++ status) = lastWindow actions := by
  rcases h with rfl | ⟨indicator, rfl⟩
  · rw [List.append_nil]
  · rw [Y2Skk.lastWindow_append]
    rfl

/-- A press, with raw mode: it is entered, left, or passes the key on, and with raw mode off the
key is handled. -/
theorem handlePress_runs [EucJp] {self : SkkEngine δ} (hself : self.Wf) {event : KeyEvent}
    (hpress : event.isPress) : Runs (self.handlePress event) (KeyStep self event) := by
  unfold handlePress
  refine Runs.ite (fun hraw => ?_) fun hraw => ?_
  · refine Runs.ite (fun _ => ?_) fun htoggle => ?_
    · have hself' : SkkEngine.Wf { self with rawMode := false } := ⟨hself.frames, hself.phase⟩
      refine (renderCurrentPhase_runs hself').bind fun actions h => runs_pure.mpr ?_
      exact .leaveRaw hraw h.1 h.2
    · exact runs_ok.mpr (.ignored (.inr ⟨hraw, by simpa using htoggle⟩))
  · have hraw' : self.rawMode = false := by simpa using hraw
    refine Runs.ite (fun htoggle => ?_) fun htoggle => ?_
    · exact runs_ok.mpr (.enterRaw hpress hraw' htoggle)
    · exact (handleCooked_runs hself event).mono fun r hr =>
        .cooked hpress hraw' (by simpa using htoggle) hr

/-- From a well-formed state `processKey` returns, and it did one of the cases of `KeyStep`. In
particular it does not panic. -/
theorem processKey_runs [EucJp] {self : SkkEngine δ} (hself : self.Wf) (event : KeyEvent) :
    Runs (self.processKey event) fun r' => ∃ r status, KeyStep self event r ∧ IsStatus status ∧
      r' = (r.1, r.2 ++ status) := by
  unfold processKey
  refine Runs.ite (fun hrelease => ?_) fun hpress => ?_
  · exact runs_ok.mpr ⟨_, [], .ignored (.inl (by simpa using hrelease)), .inl rfl, rfl⟩
  refine (handlePress_runs hself (by simpa using hpress)).bind fun r hr => runs_ok.mpr ?_
  by_cases hsame : r.1.currentModeIndicator = self.currentModeIndicator
  · exact ⟨r, [], hr, .inl rfl, by rw [if_neg (not_not.mpr hsame), List.append_nil]⟩
  · exact ⟨r, [.updateStatus r.1.currentModeIndicator], hr, .inr ⟨_, rfl⟩, by rw [if_pos hsame]⟩

end SkkEngine

end Y2Skk
