import Y2Skk.Proofs.Selection

/-!
# `Y2Skk.Proofs.Press`: what one key press does

Around the phase handlers, `handlePress` has the keys of the registration mode, the toggle
keys and raw mode. This file extends the handler contract to them. The result is one
inversion theorem, `processKey_runs`: `processKey` does not panic, and what it does is one
of the cases of `KeyStep`.

## The registration buffer

A registration edits its buffer at byte offsets. Each editing step is defined when the
cursor stands between two characters, and keeps it there (`insert_runs`, `backspace_runs`,
`delete_runs`, `moveLeft_runs`, `moveRight_runs`); `editTop_runs` lifts this to the
engine.

## Redirecting actions

Inside a registration the text a handler commits goes into the buffer. `Redirected` says
what the loop over the actions has done after each of them: window and status actions are
kept, text is inserted, and preedits are replaced by one redraw at the end.
`interceptForRegister_runs` is its conclusion.

## Keys that abandon a composition

The keys that abandon a composition without cleaning up after it are named here, since the
contract of a press (`Cooked`) has to except them:

* `leavesWindow`: the candidate window stays open;
* `leavesTrigger`: the conversion trigger stays pending;
* `leavesCompletion`: the completion stays;
* `dropsSilently`: the pending romaji goes without a redraw.

Each of them is a condition on the state before the key and the key. The contract of a
press is then proved branch by branch, one lemma for each way through `handlePress`.
-/

set_option autoImplicit false

namespace Y2Skk

open Outcome Utf8

/-! ### The registration buffer -/

namespace RegisterFrame

/-- Inserting at the cursor puts the text between what is before it and what is after it. -/
theorem insert_eq {frame : RegisterFrame} {before after : Str}
    (hcommitted : frame.committed = before ++ after) (hcursor : byteLen before = frame.cursor)
    (text : Str) : frame.insert text = .ok { frame with
      committed := before ++ text ++ after, cursor := byteLen (before ++ text) } := by
  simp [insert, hcommitted, ← hcursor]

/-- Text is inserted at the cursor, which stands behind it afterwards. -/
theorem insert_runs {frame : RegisterFrame} (hframe : frame.Wf) (text : Str) :
    Runs (frame.insert text) Wf := by
  obtain ⟨before, after, hcommitted, hcursor⟩ := hframe.cursor
  rw [insert_eq hcommitted hcursor, runs_ok]
  exact { hframe with cursor := isBoundary_append _ _ }

/-- Before a cursor that is not at the start there is a character to stop at. -/
theorem previous_eq {frame : RegisterFrame} (hframe : frame.Wf) (hpos : 0 < frame.cursor) :
    ∃ before c after, frame.committed = before ++ c :: after ∧
      frame.cursor = byteLen (before ++ [c]) ∧ frame.previous = .ok (byteLen before) := by
  obtain ⟨upto, after, hcommitted, hcursor⟩ := hframe.cursor
  have hne : upto ≠ [] := by
    rintro rfl
    rw [byteLen_nil] at hcursor
    omega
  obtain ⟨before, c, rfl⟩ := (List.eq_nil_or_concat' upto).resolve_left hne
  refine ⟨before, c, after, by simp [hcommitted], hcursor.symm, ?_⟩
  rw [previous, hcommitted, ← hcursor, sliceTo_append, ok_bind, lastCharIndex_append_singleton]
  rfl

/-- The character before the cursor is deleted, if there is one. -/
theorem backspace_runs {frame : RegisterFrame} (hframe : frame.Wf) :
    Runs frame.backspace Wf := by
  refine Runs.ite (fun hpos => ?_) fun _ => runs_ok.mpr hframe
  obtain ⟨before, c, after, hcommitted, -, hprevious⟩ := previous_eq hframe hpos
  rw [hprevious, ok_bind, hcommitted, removeAt_append, ok_bind, runs_ok]
  exact { hframe with cursor := isBoundary_append _ _ }

/-- After a cursor that is not at the end there is a character, and the cursor stands just
before it. -/
theorem next_eq {frame : RegisterFrame} (hframe : frame.Wf)
    (hlt : frame.cursor < byteLen frame.committed) :
    ∃ before c after, frame.committed = before ++ c :: after ∧ frame.cursor = byteLen before := by
  obtain ⟨before, after, hcommitted, hcursor⟩ := hframe.cursor
  cases after with
  | nil =>
      rw [hcommitted, List.append_nil] at hlt
      omega
  | cons c after => exact ⟨before, c, after, hcommitted, hcursor.symm⟩

/-- The character after the cursor is deleted, if there is one. -/
theorem delete_runs {frame : RegisterFrame} (hframe : frame.Wf) : Runs frame.delete Wf := by
  refine Runs.ite (fun hlt => ?_) fun _ => runs_ok.mpr hframe
  obtain ⟨before, c, after, hcommitted, hcursor⟩ := next_eq hframe hlt
  rw [hcommitted, hcursor, removeAt_append, ok_bind, runs_ok]
  exact { hframe with cursor := isBoundary_append _ _ }

/-- The cursor moves back by one character, and not beyond the start. -/
theorem moveLeft_runs {frame : RegisterFrame} (hframe : frame.Wf) : Runs frame.moveLeft Wf := by
  refine Runs.ite (fun hpos => ?_) fun _ => runs_ok.mpr hframe
  obtain ⟨before, c, after, hcommitted, -, hprevious⟩ := previous_eq hframe hpos
  rw [hprevious, ok_bind, runs_ok]
  exact { hframe with cursor := by rw [hcommitted]; exact isBoundary_append _ _ }

/-- The cursor moves on by one character, and not beyond the end. -/
theorem moveRight_runs {frame : RegisterFrame} (hframe : frame.Wf) : Runs frame.moveRight Wf := by
  refine Runs.ite (fun hlt => ?_) fun _ => runs_ok.mpr hframe
  obtain ⟨before, c, after, hcommitted, hcursor⟩ := next_eq hframe hlt
  rw [hcommitted, hcursor, sliceFrom_append, ok_bind, List.head?_cons, unwrap_some, ok_bind,
    runs_ok]
  exact { hframe with cursor := ⟨before ++ [c], after, by simp, by simp⟩ }

end RegisterFrame

namespace EngineAction

/-- The actions a registration lets through: those of the window and of the status. -/
def isKept : EngineAction → Bool
  | .showCandidates _ _ _ | .hideCandidates | .updateStatus _ => true
  | _ => false

/-- The actions after which a registration redraws the preedit. -/
def isRedrawn : EngineAction → Bool
  | .commit _ | .clearPreedit | .updatePreedit _ | .deleteBack => true
  | _ => false

/-- The text a preedit action shows. -/
def shownText : EngineAction → Str
  | .updatePreedit preedit => preedit.text
  | _ => []

end EngineAction

/-- A registration keeps every window action. -/
theorem lastWindow_filter_isKept (actions : List EngineAction) :
    lastWindow (actions.filter EngineAction.isKept) = lastWindow actions := by
  unfold lastWindow
  rw [List.filter_filter]
  congr 2
  funext a
  cases a <;> rfl

/-- It keeps no preedit. -/
theorem lastPreedit_filter_isKept (actions : List EngineAction) :
    lastPreedit (actions.filter EngineAction.isKept) = none := by
  unfold lastPreedit
  rw [List.filter_filter, List.filter_eq_nil_iff.mpr]
  · rfl
  · intro a _
    cases a <;> simp [EngineAction.isPreedit, EngineAction.isKept]

/-- Actions after which nothing is redrawn have no preedit among them, since a preedit is one of
the actions that are. -/
theorem lastPreedit_eq_none_of_isRedrawn {actions : List EngineAction}
    (h : actions.any EngineAction.isRedrawn = false) : lastPreedit actions = none := by
  unfold lastPreedit
  rw [List.filter_eq_nil_iff.mpr]
  · rfl
  · intro a ha
    have := List.any_eq_false.mp h a ha
    cases a <;> simp_all [EngineAction.isPreedit, EngineAction.isRedrawn]

namespace SkkEngine

variable {δ : Type}

/-- Only the registration buffers differ, and as many are open. -/
structure EditsFrames (a b : SkkEngine δ) : Prop where
  eq : ∃ stack, b = { a with registerStack := stack }
  length : b.registerStack.length = a.registerStack.length

/-- An engine differs from itself in no buffer. -/
theorem EditsFrames.refl (a : SkkEngine δ) : a.EditsFrames a := ⟨⟨a.registerStack, rfl⟩, rfl⟩

/-- Edits of the buffers can follow one another. -/
theorem EditsFrames.trans {a b c : SkkEngine δ} (hab : a.EditsFrames b) (hbc : b.EditsFrames c) :
    a.EditsFrames c := by
  obtain ⟨stack, rfl⟩ := hab.eq
  obtain ⟨stack', rfl⟩ := hbc.eq
  exact ⟨⟨stack', rfl⟩, hbc.length.trans hab.length⟩

/-- Editing the top frame keeps the invariant, as far as the edit does. The frames below and all
other fields are untouched. -/
theorem editTop_runs {self : SkkEngine δ} (hself : self.Wf)
    {edit : RegisterFrame → Partial RegisterFrame}
    (hedit : ∀ {frame : RegisterFrame}, frame.Wf → Runs (edit frame) RegisterFrame.Wf) :
    Runs (self.editTop edit) fun self' => self'.Wf ∧ self.EditsFrames self' := by
  unfold editTop
  cases hstack : self.registerStack with
  | nil => exact runs_ok.mpr ⟨hself, .refl self⟩
  | cons frame frames =>
      refine (hedit (hself.frames frame (by simp [hstack]))).bind fun frame' hframe' => ?_
      rw [runs_ok]
      refine ⟨⟨fun f hf => ?_, hself.phase⟩, ⟨_, rfl⟩, by simp [hstack]⟩
      rcases List.mem_cons.mp hf with rfl | hf
      · exact hframe'
      · exact hself.frames f (by simp [hstack, hf])

/-! ### Redirecting actions into the buffer -/

/-- What the redirection has made of `actions`, from the state `start`, the kept actions
`result` and the redraw flag `needPreedit`: some actions are kept, others ask for a redraw,
and the frames are edited only when one is asked for. -/
structure Redirected (start : SkkEngine δ) (result : List EngineAction) (needPreedit : Bool)
    (actions : List EngineAction) (acc : SkkEngine δ × List EngineAction × Bool) : Prop where
  wf : acc.1.Wf
  edits : start.EditsFrames acc.1
  kept : acc.2.1 = result ++ actions.filter EngineAction.isKept
  needPreedit : acc.2.2 = (needPreedit || actions.any EngineAction.isRedrawn)
  same : actions.any EngineAction.isRedrawn = false → acc.1 = start

/-- One action is redirected: it is kept, or its text is inserted, or it asks for a redraw. A
commit goes into the top frame and a BackSpace deletes there. The actions on the window and the
status are kept, and the preedit is drawn anew at the end. -/
theorem interceptStep_runs {self : SkkEngine δ} (hself : self.Wf) (result : List EngineAction)
    (needPreedit : Bool) (action : EngineAction) :
    Runs (interceptStep (self, result, needPreedit) action)
      (Redirected self result needPreedit [action]) := by
  unfold interceptStep
  cases action with
  | commit text =>
      refine (editTop_runs hself fun hf => RegisterFrame.insert_runs hf text).bind fun _ h => ?_
      exact runs_ok.mpr ⟨h.1, h.2, by simp [EngineAction.isKept], by simp [EngineAction.isRedrawn],
        fun h => by cases h⟩
  | deleteBack =>
      refine (editTop_runs hself RegisterFrame.backspace_runs).bind fun _ h => ?_
      exact runs_ok.mpr ⟨h.1, h.2, by simp [EngineAction.isKept], by simp [EngineAction.isRedrawn],
        fun h => by cases h⟩
  -- these have nothing to do with the frame
  | showCandidates _ _ _ | hideCandidates | updateStatus _ =>
      exact runs_ok.mpr ⟨hself, .refl self, rfl, by simp [EngineAction.isRedrawn], fun _ => rfl⟩
  | updatePreedit _ | clearPreedit | passthrough =>
      exact runs_ok.mpr ⟨hself, .refl self, by simp [EngineAction.isKept],
        by simp [EngineAction.isRedrawn], fun _ => rfl⟩

/-- The redirection loop, over any actions of a handler. It returns, edits frames only, and
keeps those actions that no registration takes. -/
theorem foldlM_interceptStep_runs (rawActions : List EngineAction) :
    ∀ {self : SkkEngine δ} (_ : self.Wf) (result : List EngineAction) (needPreedit : Bool),
    Runs (rawActions.foldlM interceptStep (self, result, needPreedit))
      (Redirected self result needPreedit rawActions) := by
  -- The induction is on the actions; the flag and the kept actions are carried along.
  induction rawActions with
  | nil =>
      intro self hself result needPreedit
      exact runs_pure.mpr ⟨hself, .refl self, by simp, by simp, fun _ => rfl⟩
  | cons action rawActions ih =>
      intro self hself result needPreedit
      rw [List.foldlM_cons]
      refine (interceptStep_runs hself result needPreedit action).bind fun acc h => ?_
      obtain ⟨self', result', needPreedit'⟩ := acc
      refine (ih h.wf result' needPreedit').mono fun acc h' => ?_
      have hkept : result' = result ++ [action].filter EngineAction.isKept := h.kept
      have hneed : needPreedit' = (needPreedit || [action].any EngineAction.isRedrawn) :=
        h.needPreedit
      refine ⟨h'.wf, h.edits.trans h'.edits, ?_, ?_, fun hnone => ?_⟩
      · rw [h'.kept, hkept, List.append_assoc, ← List.filter_append]
        rfl
      · rw [h'.needPreedit, hneed, Bool.or_assoc, ← List.any_append]
        rfl
      · rw [List.any_cons, Bool.or_eq_false_iff] at hnone
        exact (h'.same hnone.2).trans (h.same (by simpa using hnone.1))

/-- What a registration makes of the actions of a phase handler: the kept ones, followed
by a redraw unless no action asked for one. -/
inductive Intercepted (self : SkkEngine δ) (rawActions : List EngineAction) :
    SkkEngine δ × List EngineAction → Prop
  | drawn {self' preedit} : self'.Wf → self.EditsFrames self' →
      self'.buildPreedit = .ok preedit → preedit.Wf →
      Intercepted self rawActions
        (self', rawActions.filter EngineAction.isKept ++ [.updatePreedit preedit])
  | quiet : lastPreedit rawActions = none → self.Wf →
      rawActions.filter EngineAction.isKept ≠ [] →
      Intercepted self rawActions (self, rawActions.filter EngineAction.isKept)

/-- The redirection returns, and it is one of the two cases of `Intercepted`: the prompt is
drawn again, or nothing asked for that. -/
theorem interceptForRegister_runs {self : SkkEngine δ} (hself : self.Wf)
    (rawActions : List EngineAction) :
    Runs (self.interceptForRegister rawActions) (Intercepted self rawActions) := by
  unfold interceptForRegister
  refine (foldlM_interceptStep_runs rawActions hself [] false).bind fun acc h => ?_
  obtain ⟨self', result, needPreedit⟩ := acc
  obtain ⟨hwf, hedits, hresult, hneed, hsame⟩ := h
  dsimp only at hwf hedits hresult hneed hsame ⊢
  rw [List.nil_append] at hresult
  subst hresult
  refine Runs.ite (fun _ => ?_) fun hquiet => ?_
  · obtain ⟨preedit, hbuild, hpreedit, haction⟩ := preeditAction_eq hwf
    simp only [haction, ok_bind, runs_pure]
    exact .drawn hwf hedits hbuild hpreedit
  · rw [runs_ok]
    -- No action asked for a redraw, so the buffer was not edited either.
    simp only [hneed, Bool.false_or, not_or, Bool.not_eq_true] at hquiet
    obtain rfl := hsame hquiet.1
    refine .quiet (lastPreedit_eq_none_of_isRedrawn hquiet.1) hwf fun hnil => ?_
    rw [hnil] at hquiet
    cases hquiet.2

/-! ### Keys that abandon a composition -/

section Press
variable [DictionaryProvider δ]

/-- C-g aborts a composition inside a registration. -/
def cancelsInside (self : SkkEngine δ) (event : KeyEvent) : Bool :=
  !self.registerStack.isEmpty && !self.inReadyState && isCtrlG event

/-- Return moves a reading into the registration buffer. -/
def flushesReading (self : SkkEngine δ) (event : KeyEvent) : Bool :=
  !self.registerStack.isEmpty && (flushText self.phase).isSome && decide (event.key = .returnKey)

/-- A single registration is active, and it was started from a reading. -/
def registersReading (self : SkkEngine δ) : Bool :=
  match self.registerStack with
  | [frame] => !frame.isAbbrev
  | _ => false

/-- The candidate window is left open: by a toggle key, or by C-g in a nested
registration. -/
def leavesWindow (self : SkkEngine δ) (event : KeyEvent) : Bool :=
  self.page.isSome && (self.isToggle event ||
    (self.cancelsInside event && decide (2 ≤ self.registerStack.length)))

/-- A pending trigger is left behind: by a toggle key, or by C-g in a registration. -/
def leavesTrigger (self : SkkEngine δ) (event : KeyEvent) : Bool :=
  self.conversionTrigger.isSome && (self.isToggle event || self.cancelsInside event)

/-- A completion is left behind: by a toggle key, by Return in a registration, or by C-g
in a registration that does not come back to a reading. -/
def leavesCompletion (self : SkkEngine δ) (event : KeyEvent) : Bool :=
  self.completion.isSome && (self.isToggle event || self.flushesReading event ||
    (self.cancelsInside event && !self.registersReading))

/-- The phase handler gets the key: neither a registration nor a toggle takes it. -/
def reachesHandler (self : SkkEngine δ) (event : KeyEvent) : Bool :=
  (self.registrationKey event).isNone && !self.isToggle event

/-- Pending romaji is dropped without a redraw: by a Ctrl key outside a registration. -/
def dropsSilently (self : SkkEngine δ) (event : KeyEvent) : Bool :=
  self.registerStack.isEmpty && self.reachesHandler event && self.dropsRomaji event &&
    !self.kanaState.isEmpty

/-- The conversion trigger a key press types. -/
def typedNow (self : SkkEngine δ) (event : KeyEvent) : Option TypedTrigger :=
  if self.reachesHandler event then self.typedTrigger event else none

/-- The preedit of the state has the text `text`. -/
def Displays (self : SkkEngine δ) (text : Str) : Prop :=
  ∃ preedit, self.buildPreedit = .ok preedit ∧ preedit.text = text

/-- The contract of a key press in raw mode off. It says what the display shows afterwards: the
last preedit and the last page sent are those of the state that is left, and without one the
state still has the old ones, with the exceptions that are named. -/
structure Cooked (start : SkkEngine δ) (event : KeyEvent)
    (r : SkkEngine δ × List EngineAction) : Prop where
  wf : r.1.Wf
  config : start.SameConfig r.1
  dict : DictSteps start.dict r.1.dict
  preedits : ∀ preedit, .updatePreedit preedit ∈ r.2 → preedit.Wf
  shows : ∀ a, lastPreedit r.2 = some a → r.1.Displays a.shownText
  silent : lastPreedit r.2 = none →
    r.1 = start ∨ (start.dropsSilently event ∧ r.1 = { start with kanaState := [] })
  window : ∀ a, lastWindow r.2 = some a → r.1.ShowsPage a
  samePage : lastWindow r.2 = none → r.1.page = start.page ∨ start.leavesWindow event
  trigger : start.TriggerOk →
    TriggerStep (start.typedNow event) start r.1 ∨ start.leavesTrigger event
  completion : CompletesPrefixes δ → start.CompletionOk →
    CompletionStep start r.1 ∨ start.leavesCompletion event

/-! ### The contract of a press, branch by branch -/

omit [DictionaryProvider δ] in
/-- Outside a registration the preedit that is shown has the text of its action. -/
theorem Shows.displays {self : SkkEngine δ} {a : EngineAction} (ha : a.isPreedit)
    (hstack : self.registerStack = []) (h : self.Shows a) : self.Displays a.shownText := by
  cases a with
  | updatePreedit preedit => exact ⟨preedit, h, rfl⟩
  | clearPreedit => exact ⟨_, buildPreedit_text_of_isPlain h.1 h.2 hstack, rfl⟩
  | _ => cases ha

omit [DictionaryProvider δ] in
/-- The page does not depend on the buffers. -/
theorem EditsFrames.page_eq {a b : SkkEngine δ} (h : a.EditsFrames b) : b.page = a.page := by
  obtain ⟨stack, rfl⟩ := h.eq
  rfl

/-- A phase handler whose actions reach the application. The registrations are empty afterwards,
so they were empty before as well. -/
theorem Post.cooked {self : SkkEngine δ} {event : KeyEvent} {r : SkkEngine δ × List EngineAction}
    (h : Post (self.typedTrigger event) (self.dropsRomaji event) self r)
    (hreach : self.reachesHandler event) (hnil : r.1.registerStack = []) : Cooked self event r := by
  have htyped : self.typedNow event = self.typedTrigger event := if_pos hreach
  -- A handler closes no frame, so none was open before.
  have hnil' : self.registerStack = [] := by
    rcases h.stack with hsame | ⟨frame, hpushed⟩
    · exact hsame ▸ hnil
    · rw [hnil] at hpushed
      cases hpushed
  refine {
    wf := h.wf
    config := h.config
    dict := h.dict
    preedits := h.preedits
    shows := fun a ha => (h.shows a ha).displays (isPreedit_of_lastPreedit ha) hnil
    silent := fun hnone => ?_
    window := h.window
    samePage := fun hnone => .inl (h.samePage hnone)
    trigger := fun hok => .inl (htyped ▸ h.trigger hok)
    completion := fun hδ hok => .inl (h.completion hδ hok) }
  rcases h.silent hnone with hsame | ⟨hdrops, heq⟩
  · exact .inl hsame
  · by_cases hkana : self.kanaState = []
    · -- Nothing was pending, so nothing was dropped.
      left
      rw [heq, ← hkana]
    · refine .inr ⟨?_, by rw [heq]⟩
      simp [dropsSilently, hnil', hreach, hdrops, hkana]

/-- A phase handler whose actions a registration redirects. The page stays among them, and the
preedit is that of the prompt. -/
theorem Intercepted.cooked {self : SkkEngine δ} {event : KeyEvent}
    {r r' : SkkEngine δ × List EngineAction} (h' : Intercepted r.1 r.2 r')
    (h : Post (self.typedTrigger event) (self.dropsRomaji event) self r)
    (hreach : self.reachesHandler event) : Cooked self event r' := by
  have htyped : self.typedNow event = self.typedTrigger event := if_pos hreach
  cases h' with
  | @drawn self' preedit hwf hedits hbuild hpreedit =>
      have hwindow : lastWindow (r.2.filter EngineAction.isKept ++ [.updatePreedit preedit])
          = lastWindow r.2 := by
        rw [lastWindow_append, lastWindow_filter_isKept]
        rfl
      have hlast : lastPreedit (r.2.filter EngineAction.isKept ++ [.updatePreedit preedit])
          = some (.updatePreedit preedit) := by
        rw [lastPreedit_append]
        rfl
      -- The only preedit left is the redrawn one.
      have hkeptOnly : ∀ q, EngineAction.updatePreedit q ∉ r.2.filter EngineAction.isKept :=
        updatePreedit_not_mem (lastPreedit_filter_isKept r.2)
      have hpage := hedits.page_eq
      obtain ⟨stack, hstack'⟩ := hedits.eq
      refine {
        wf := hwf
        config := h.config.trans (by rw [hstack']; exact ⟨rfl, rfl, rfl, rfl⟩)
        dict := by rw [hstack']; exact h.dict
        preedits := fun p hp => eq_of_mem_append_redraw hkeptOnly hp ▸ hpreedit
        shows := fun a ha => by rw [hlast] at ha; cases ha; exact ⟨preedit, hbuild, rfl⟩
        silent := fun hnone => by rw [hlast] at hnone; cases hnone
        window := fun a ha => ?_
        samePage := fun hnone => .inl (hpage.trans (h.samePage (hwindow ▸ hnone)))
        trigger := fun hok => by rw [hstack']; exact .inl (htyped ▸ h.trigger hok)
        completion := fun hδ hok => by rw [hstack']; exact .inl (h.completion hδ hok) }
      have hshows := h.window a (hwindow ▸ ha)
      rw [ShowsPage, hpage]
      exact hshows
  | quiet hnone hwf hkept =>
      -- A window action was kept, so the handler is not the one that only drops romaji.
      have hsame : r.1 = self := by
        rcases h.silent hnone with hsame | ⟨-, heq⟩
        · exact hsame
        · rw [heq] at hkept
          exact (hkept rfl).elim
      have hlast := lastPreedit_filter_isKept r.2
      have hwindow := lastWindow_filter_isKept r.2
      exact {
        wf := hwf
        config := h.config
        dict := h.dict
        preedits := fun p hp => by cases (List.mem_filter.mp hp).2
        shows := fun a ha => by rw [hlast] at ha; cases ha
        silent := fun _ => .inl hsame
        window := fun a ha => h.window a (hwindow ▸ ha)
        samePage := fun hnone => .inl (h.samePage (hwindow ▸ hnone))
        trigger := fun hok => .inl (htyped ▸ h.trigger hok)
        completion := fun hδ hok => .inl (h.completion hδ hok) }

/-- The phase handler gets the key, and a registration redirects its actions if there is one. -/
theorem dispatch_cooked [EucJp] {self : SkkEngine δ} (hself : self.Wf) {event : KeyEvent}
    (hreach : self.reachesHandler event) :
    Runs (do
      let (self, rawActions) ← self.dispatch event
      if !self.registerStack.isEmpty then self.interceptForRegister rawActions
      else .ok (self, rawActions)) (Cooked self event) := by
  refine (dispatch_post hself event).bind fun r hr => ?_
  refine Runs.ite (fun _ => ?_) fun hstack => ?_
  · exact (interceptForRegister_runs hr.wf r.2).mono fun r' hr' => hr'.cooked hr hreach
  · exact runs_ok.mpr (hr.cooked hreach (by simpa using hstack))

/-- A key of the registration mode that ends with a redraw. What is drawn is the preedit of the
state it leads to, so only the window, the trigger and the completion are left to account
for. -/
theorem redraw_cooked {self self' : SkkEngine δ} {event : KeyEvent} (hself' : self'.Wf)
    (hconfig : self.SameConfig self') (hdict : DictSteps self.dict self'.dict)
    (hpage : self'.page = self.page ∨ self.leavesWindow event)
    (htrigger : self.TriggerOk →
      TriggerStep (self.typedNow event) self self' ∨ self.leavesTrigger event)
    (hcompletion : CompletesPrefixes δ → self.CompletionOk →
      CompletionStep self self' ∨ self.leavesCompletion event) :
    Runs self'.redraw (Cooked self event) := by
  obtain ⟨preedit, hbuild, hpreedit, haction⟩ := preeditAction_eq hself'
  refine redraw_runs_iff.mpr ⟨_, haction, ?_⟩
  exact {
    wf := hself'
    config := hconfig
    dict := hdict
    preedits := fun p hp => by cases List.mem_singleton.mp hp; exact hpreedit
    shows := fun a ha => by cases ha; exact ⟨preedit, hbuild, rfl⟩
    silent := fun h => by cases h
    window := fun a ha => by cases ha
    samePage := fun _ => hpage
    trigger := htrigger
    completion := hcompletion }

/-- In a plain mode nothing is pending that a key could leave behind. -/
structure Clean (start : SkkEngine δ) : Prop where
  sel : start.phase.selection? = none
  midashi : start.phase.isMidashi = false

omit [DictionaryProvider δ] in
/-- A plain phase has no candidates, no reading and no trigger. -/
theorem Clean.of_isPlain {self : SkkEngine δ} (h : self.phase.isPlain) : self.Clean :=
  ⟨selection?_of_isPlain h, isMidashi_of_isPlain h⟩

/-- From a plain mode to another one, with a redraw. No selection is open on either side, so the
page is none before and after. -/
theorem Clean.redraw {self self' : SkkEngine δ} {event : KeyEvent} (hclean : self.Clean)
    (hself' : self'.Wf) (hconfig : self.SameConfig self')
    (hdict : DictSteps self.dict self'.dict) (hsel' : self'.phase.selection? = none)
    (htrigger : self'.conversionTrigger = self.conversionTrigger)
    (hcompletion : self'.completion = self.completion) :
    Runs self'.redraw (Cooked self event) :=
  redraw_cooked hself' hconfig hdict (.inl (by rw [page_eq_none hclean.sel, page_eq_none hsel']))
    (fun hok => .inl (.of_none (htrigger.trans (hok.eq_none hclean.sel)) _))
    (fun _ hok => .inl (.of_not_midashi hok hclean.midashi hcompletion))

/-- A key that edits the buffer and draws the prompt again. Only the frames change. -/
theorem editTop_redraw {self : SkkEngine δ} (hself : self.Wf) (hclean : self.Clean)
    {event : KeyEvent} {edit : RegisterFrame → Partial RegisterFrame}
    (hedit : ∀ {frame : RegisterFrame}, frame.Wf → Runs (edit frame) RegisterFrame.Wf) :
    Runs (do
      let self ← self.editTop edit
      self.redraw) (Cooked self event) := by
  refine (editTop_runs hself hedit).bind fun self' h => ?_
  obtain ⟨stack, hstack⟩ := h.2.eq
  refine hclean.redraw h.1 ?_ ?_ ?_ ?_ ?_
  all_goals rw [hstack]
  · exact ⟨rfl, rfl, rfl, rfl⟩
  · exact hclean.sel

/-- Each of the editing keys of a registration is such a key: BackSpace, Delete and the two
arrows. -/
theorem regEditDrawn_cooked {self : SkkEngine δ} (hself : self.Wf) (hclean : self.Clean)
    {event : KeyEvent} {key : Key} {edited : Partial (SkkEngine δ × List EngineAction)}
    (h : self.regEditDrawn key = some edited) : Runs edited (Cooked self event) := by
  unfold regEditDrawn regEdit at h
  cases key with
  | backSpace => cases h; exact editTop_redraw hself hclean RegisterFrame.backspace_runs
  | delete => cases h; exact editTop_redraw hself hclean RegisterFrame.delete_runs
  | left => cases h; exact editTop_redraw hself hclean RegisterFrame.moveLeft_runs
  | right => cases h; exact editTop_redraw hself hclean RegisterFrame.moveRight_runs
  | _ => cases h

/-- Return in a registration closes the frame, and commits or inserts its word. The composition
is clean, so there is no window, no trigger and no completion to lose. The only change of the
dictionaries is the word that is learned. -/
theorem finalizeRegister_cooked {self : SkkEngine δ} (hself : self.Wf) (hclean : self.Clean)
    (hstack : self.registerStack ≠ []) {event : KeyEvent} :
    Runs self.finalizeRegister (Cooked self event) := by
  unfold finalizeRegister
  cases hframes : self.registerStack with
  | nil => exact (hstack hframes).elim
  | cons frame frames =>
    have hwf : ∀ f ∈ frames, f.Wf := fun f hf => hself.frames f (by simp [hframes, hf])
    dsimp only
    -- the last frame commits to the application, any other one inserts into the next
    cases hrest : frames with
    | nil =>
        rw [runs_ok]
        have hplain : SkkPhase.hiragana.isPlain := rfl
        exact {
          wf := ⟨fun f hf => (by cases hf), trivial⟩
          config := ⟨rfl, rfl, rfl, rfl⟩
          dict := .single (.learn _ _ _ _ _)
          preedits := by simp
          shows := fun a ha => by
            cases ha
            exact ⟨_, buildPreedit_text_of_isPlain rfl rfl rfl, rfl⟩
          silent := fun h => by cases h
          window := fun a ha => by cases ha
          samePage := fun _ => .inl (by rw [page_eq_none hclean.sel]; rfl)
          trigger := fun hok => .inl (.of_none (by exact hok.eq_none hclean.sel) _)
          completion := fun _ hok => .inl (.of_not_midashi hok hclean.midashi rfl) }
    | cons outer outers =>
        subst hrest
        have hmid : SkkEngine.Wf { self with
            registerStack := outer :: outers
            dict := self.dict.map fun d =>
              (DictionaryProvider.learn d ⟨frame.midashi, frame.okuriKey,
                [⟨Prod.fst <| splitRegisterAnnotation frame.committed,
                  Prod.snd <| splitRegisterAnnotation frame.committed, none⟩]⟩).1 } :=
          ⟨hwf, hself.phase⟩
        refine (editTop_runs hmid fun hf => RegisterFrame.insert_runs hf _).bind fun self' h => ?_
        obtain ⟨stack, hstack'⟩ := h.2.eq
        refine hclean.redraw ⟨h.1.frames, trivial⟩ ?_ ?_ rfl ?_ ?_
        all_goals rw [hstack']
        · exact ⟨rfl, rfl, rfl, rfl⟩
        · exact .single (.learn _ _ _ _ _)

/-! ### Dropping a frame -/

/-- Where a frame is dropped, a pending trigger is left behind, if there is one. This is so when
C-g aborts what is composed inside a registration. -/
theorem dropFrame_trigger {self self' : SkkEngine δ} {event : KeyEvent}
    (hplace : self.Clean ∨ self.cancelsInside event)
    (hsame : self'.conversionTrigger = self.conversionTrigger) (hok : self.TriggerOk) :
    TriggerStep (self.typedNow event) self self' ∨ self.leavesTrigger event := by
  rcases hplace with hclean | hinside
  · exact .inl (.of_none (hsame.trans (hok.eq_none hclean.sel)) _)
  · cases hpending : self.conversionTrigger with
    | none => exact .inl (.of_none (hsame.trans hpending) _)
    | some t => exact .inr (by simp [leavesTrigger, hpending, hinside])

omit [DictionaryProvider δ] in
/-- Where a frame is dropped without a return to a reading, a completion is left behind, if
there is one. -/
theorem dropFrame_completion {self self' : SkkEngine δ} {event : KeyEvent}
    (hplace : self.Clean ∨ self.cancelsInside event) (hsame : self'.completion = self.completion)
    (hreading : self.registersReading = false) (hok : self.CompletionOk) :
    CompletionStep self self' ∨ self.leavesCompletion event := by
  rcases hplace with hclean | hinside
  · exact .inl (.of_not_midashi hok hclean.midashi hsame)
  · cases hcompletion : self.completion with
    | none => exact .inl (.of_none (hsame.trans hcompletion))
    | some c => exact .inr (by simp [leavesCompletion, hcompletion, hinside, hreading])

/-- The outermost frame is dropped: the window is closed and the composition drawn. The state it
leads to has no selection, so no page is to be shown. -/
theorem hideWindow_cooked {self self' : SkkEngine δ} {event : KeyEvent} (hself' : self'.Wf)
    (hconfig : self.SameConfig self') (hdict : DictSteps self.dict self'.dict)
    (hsel' : self'.phase.selection? = none)
    (htrigger : self.TriggerOk →
      TriggerStep (self.typedNow event) self self' ∨ self.leavesTrigger event)
    (hcompletion : CompletesPrefixes δ → self.CompletionOk →
      CompletionStep self self' ∨ self.leavesCompletion event) :
    Runs (do return (self', [.hideCandidates, ← self'.preeditAction])) (Cooked self event) := by
  obtain ⟨preedit, hbuild, hpreedit, haction⟩ := preeditAction_eq hself'
  simp only [haction, ok_bind, runs_pure]
  exact {
    wf := hself'
    config := hconfig
    dict := hdict
    preedits := fun p hp => eq_of_mem_window_redraw rfl hp ▸ hpreedit
    shows := fun a ha => by cases ha; exact ⟨preedit, hbuild, rfl⟩
    silent := fun h => by cases h
    window := fun a ha => by cases ha; exact .inl ⟨rfl, page_eq_none hsel'⟩
    samePage := fun h => by cases h
    trigger := htrigger
    completion := hcompletion }

/-- Dropping the top frame, from a plain mode or by C-g inside a composition. `mid` is the
state after C-g has dropped the composition. -/
theorem cancelRegister_cooked {self mid : SkkEngine δ} (hself : self.Wf)
    (hmid : mid = self ∨ mid = { self with phase := .hiragana, kanaState := [] })
    {event : KeyEvent} (hplace : self.Clean ∨ self.cancelsInside event)
    (hstack : self.registerStack ≠ []) : Runs mid.cancelRegister (Cooked self event) := by
  -- The phase and the romaji of `mid` are overwritten in any case.
  obtain ⟨phase, kanaState, rfl⟩ : ∃ phase kanaState,
      mid = { self with phase := phase, kanaState := kanaState } := by
    rcases hmid with rfl | rfl
    · exact ⟨_, _, rfl⟩
    · exact ⟨_, _, rfl⟩
  unfold cancelRegister
  cases hframes : self.registerStack with
  | nil => exact (hstack hframes).elim
  | cons frame frames =>
    have hwf : ∀ f ∈ frames, f.Wf := fun f hf => hself.frames f (by simp [hframes, hf])
    dsimp only
    cases hrest : frames with
    | nil =>
        cases habbrev : frame.isAbbrev with
        | true =>
            simp only [if_true]
            refine hideWindow_cooked ⟨fun f hf => (by cases hf), rfl⟩ ⟨rfl, rfl, rfl, rfl⟩ .refl
              rfl (dropFrame_trigger hplace rfl) fun _ hok => ?_
            exact dropFrame_completion hplace rfl
              (by simp [registersReading, hframes, hrest, habbrev]) hok
        | false =>
            -- The reading is completed afresh, whatever was left from before.
            have heq := updateCompletion_eq { self with
              registerStack := [], phase := .midashi frame.originalMidashi [], kanaState := [] }
              frame.originalMidashi
            have hphase' : (SkkEngine.updateCompletion { self with
                registerStack := [], phase := .midashi frame.originalMidashi [], kanaState := [] }
                frame.originalMidashi).phase = .midashi frame.originalMidashi [] := by rw [heq]
            simp only [Bool.false_eq_true, if_false]
            refine hideWindow_cooked ?_ ?_ ?_ (by rw [hphase']; rfl)
              (dropFrame_trigger hplace (by rw [heq]))
              fun hδ _ => .inl (.of_update hδ hphase' rfl)
            all_goals rw [heq]
            · exact ⟨fun f hf => (by cases hf), rfl⟩
            · exact ⟨rfl, rfl, rfl, rfl⟩
    | cons outer outers =>
        subst hrest
        refine redraw_cooked ⟨hwf, trivial⟩ ⟨rfl, rfl, rfl, rfl⟩ .refl ?_
          (dropFrame_trigger hplace rfl) fun _ hok => dropFrame_completion hplace rfl ?_ hok
        · -- No window action is sent, so a page that was open stays open.
          rcases hplace with hclean | hinside
          · exact .inl (by rw [page_eq_none hclean.sel]; rfl)
          · cases hpage : self.page with
            | none => exact .inl rfl
            | some a => exact .inr (by simp [leavesWindow, hpage, hinside, hframes])
        · simp [registersReading, hframes]

end Press

end SkkEngine

end Y2Skk
