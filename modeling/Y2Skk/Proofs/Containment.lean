import Y2Skk.Proofs.Effects
import Y2Skk.Proofs.NoPanic
import Y2Skk.Proofs.Registration

/-!
# `Y2Skk.Proofs.Containment`: a registration contains all input

While a registration is open, what the phase handler commits goes into the buffer of the
top frame. `Registered` lists what a key can do then, and `handleCooked_registered` shows
that it does one of these things. `contains_of_session` reads the containment off it: no
text and no key reaches the application before the last frame is finished.

## The exception

There is one key that is not contained: one that commits a candidate and at once opens a
registration of its own, for a reading that it starts and ends. The redirection looks at
the stack after the handler, so the candidate goes into the new frame and not into the one
it was selected for. Its text is `strayText`, and the key is contained exactly when this
is empty (`Registered.contains`, `Registered.not_contains`).

## What a frame receives

* `Receives` is the effect of a list of actions on a frame: a text is inserted at the
  cursor, and then a character may be deleted.
* `receives_of_foldlM` derives it from the loop of the redirection, action by action.
* `Receives.text_eq` reads the text off the two frames, so a frame that has not received
  the text can be told from one that has.

## The cases of a step

`step_cases` and `Registered` are the inversion lemmas of this development: the modules on
cancelling, on retyping and on raw mode take their case analysis from here.
-/

set_option autoImplicit false

namespace Y2Skk

open Outcome Utf8 Transition

/-! ### What a frame receives -/

namespace RegisterFrame

/-- The two frames register the same reading. -/
def SameTarget (frame frame' : RegisterFrame) : Prop :=
  ∃ committed cursor, frame' = { frame with committed := committed, cursor := cursor }

/-- `text` is inserted at the cursor, and then the character before the cursor is deleted
when `deletes` is set. -/
def Receives (frame : RegisterFrame) (text : Str) (deletes : Bool) (frame' : RegisterFrame) :
    Prop :=
  ∃ before after, frame.committed = before ++ after ∧ byteLen before = frame.cursor ∧
    frame' = { frame with
      committed := (if deletes then (before ++ text).dropLast else before ++ text) ++ after
      cursor := byteLen (if deletes then (before ++ text).dropLast else before ++ text) }

/-- A frame registers what it registers. -/
theorem SameTarget.refl (frame : RegisterFrame) : frame.SameTarget frame :=
  ⟨frame.committed, frame.cursor, rfl⟩

/-- The relation composes, as a frame is edited key by key. -/
theorem SameTarget.trans {a b c : RegisterFrame} (h : a.SameTarget b) (h' : b.SameTarget c) :
    a.SameTarget c := by
  obtain ⟨_, _, rfl⟩ := h
  obtain ⟨committed, cursor, rfl⟩ := h'
  exact ⟨committed, cursor, rfl⟩

/-- To receive text edits the buffer alone. -/
theorem Receives.sameTarget {frame frame' : RegisterFrame} {text : Str} {deletes : Bool}
    (h : frame.Receives text deletes frame') : frame.SameTarget frame' := by
  obtain ⟨before, after, -, -, rfl⟩ := h
  exact ⟨_, _, rfl⟩

/-- The cursor stays at the boundary of a character. -/
theorem Receives.wf {frame frame' : RegisterFrame} {text : Str} {deletes : Bool}
    (hframe : frame.Wf) (h : frame.Receives text deletes frame') : frame'.Wf := by
  obtain ⟨before, after, -, -, rfl⟩ := h
  exact { hframe with cursor := isBoundary_append _ _ }

/-- A frame that receives nothing stays as it is. -/
theorem Receives.eq_of_nil {frame frame' : RegisterFrame} (h : frame.Receives [] false frame') :
    frame' = frame := by
  obtain ⟨before, after, hcommitted, hcursor, rfl⟩ := h
  cases frame
  simp_all

/-- Nothing received: the frame is split at its cursor and put together again. -/
theorem receives_refl {frame : RegisterFrame} (hframe : frame.Wf) :
    frame.Receives [] false frame := by
  obtain ⟨before, after, hcommitted, hcursor⟩ := hframe.cursor
  refine ⟨before, after, hcommitted, hcursor, ?_⟩
  cases frame
  simp_all

/-- An insertion at the cursor. -/
theorem receives_of_insert {frame frame' : RegisterFrame} (hframe : frame.Wf) {text : Str}
    (h : frame.insert text = .ok frame') : frame.Receives text false frame' := by
  obtain ⟨before, after, hcommitted, hcursor⟩ := hframe.cursor
  rw [insert_eq hcommitted hcursor] at h
  cases h
  exact ⟨before, after, hcommitted, hcursor, rfl⟩

/-- A deletion before the cursor: one character goes, or none at the start of the buffer. -/
theorem receives_of_backspace {frame frame' : RegisterFrame} (hframe : frame.Wf)
    (h : frame.backspace = .ok frame') : frame.Receives [] true frame' := by
  unfold backspace at h
  by_cases hpos : 0 < frame.cursor
  · obtain ⟨before, c, after, hcommitted, hcursor, hprevious⟩ := previous_eq hframe hpos
    rw [if_pos hpos, hprevious, ok_bind, hcommitted, removeAt_append] at h
    cases h
    exact ⟨before ++ [c], after, by simp [hcommitted], hcursor.symm, by simp⟩
  · rw [if_neg hpos] at h
    cases h
    -- At the start of the buffer there is nothing to delete.
    have hzero : frame.cursor = 0 := by omega
    refine ⟨[], frame.committed, rfl, hzero.symm, ?_⟩
    cases frame
    simp_all

/-- The text a frame has received is determined by the frame it became: what stands in front of
the old cursor and behind the new one is known. -/
theorem Receives.text_eq {frame frame' : RegisterFrame} {s t : Str}
    (hs : frame.Receives s false frame') (ht : frame.Receives t false frame') : s = t := by
  obtain ⟨before, after, hcommitted, hcursor, rfl⟩ := hs
  obtain ⟨before', after', hcommitted', hcursor', heq⟩ := ht
  have hsplit : splitAtByte (before ++ after) (byteLen before') = some (before', after') := by
    rw [← hcommitted, hcommitted']
    exact splitAtByte_append before' after'
  rw [hcursor', ← hcursor, splitAtByte_append] at hsplit
  cases hsplit
  have htexts : before ++ s ++ after = before ++ t ++ after := congrArg committed heq
  simpa using htexts

/-- Two texts received one after the other are one text received, with the deletion of the
second. The text in front of the cursor is determined by the cursor, so the two splits agree. -/
theorem receives_trans {a b c : RegisterFrame} {s t : Str} {deletes : Bool}
    (hab : a.Receives s false b) (hbc : b.Receives t deletes c) :
    a.Receives (s ++ t) deletes c := by
  obtain ⟨before, after, hcommitted, hcursor, rfl⟩ := hab
  obtain ⟨before', after', hcommitted', hcursor', rfl⟩ := hbc
  simp only [Bool.false_eq_true, if_false] at hcommitted' hcursor' ⊢
  have hsplit : splitAtByte (before ++ s ++ after) (byteLen before') = some (before', after') := by
    rw [hcommitted']
    exact splitAtByte_append before' after'
  rw [hcursor', splitAtByte_append] at hsplit
  cases hsplit
  exact ⟨before, after, hcommitted, hcursor, by simp [List.append_assoc]⟩

/-- What the redirection makes of one action. -/
def receive (frame : RegisterFrame) : EngineAction → Partial RegisterFrame
  | .commit text => frame.insert text
  | .deleteBack => frame.backspace
  | _ => .ok frame

/-- The frame receives the committed text, and a deletion that comes last. The induction is on
the actions; only the last of them may delete. -/
theorem receives_of_foldlM (actions : List EngineAction) :
    ∀ {frame frame' : RegisterFrame}, frame.Wf → EngineAction.deleteBack ∉ actions.dropLast →
      actions.foldlM receive frame = .ok frame' →
      frame.Receives (committedText actions) (decide (.deleteBack ∈ actions)) frame' := by
  induction actions with
  | nil =>
      intro frame frame' hframe _ h
      cases h
      exact receives_refl hframe
  | cons action actions ih =>
      intro frame frame' hframe hdeletes h
      have hrest : EngineAction.deleteBack ∉ actions.dropLast := by
        intro hmem
        cases actions with
        | nil => cases hmem
        | cons b rest => exact hdeletes (List.mem_cons_of_mem _ hmem)
      rw [List.foldlM_cons] at h
      cases hfirst : frame.receive action with
      | error e => rw [hfirst] at h; cases h
      | ok mid =>
          rw [hfirst, ok_bind] at h
          cases action with
          | commit text =>
              have hmid := receives_of_insert hframe hfirst
              have hafter := receives_trans hmid (ih (hmid.wf hframe) hrest h)
              simpa [committedText] using hafter
          | deleteBack =>
              -- A deletion is the last action.
              cases actions with
              | cons b rest => exact (hdeletes (by simp)).elim
              | nil =>
                  cases h
                  simpa [committedText] using receives_of_backspace hframe hfirst
          | _ =>
              cases hfirst
              simpa [committedText] using ih hframe hrest h

/-! ### The editing keys -/

section Edits
variable (frame : RegisterFrame)

/-- An insertion keeps the target of the frame. -/
theorem insert_sameTarget (text : Str) : Yields (frame.insert text) frame.SameTarget := by
  unfold insert
  refine Yields.bind (Yields.of_forall fun _ => trivial) fun committed _ => ?_
  exact yields_ok.mpr ⟨_, _, rfl⟩

/-- So does BackSpace. -/
theorem backspace_sameTarget : Yields frame.backspace frame.SameTarget := by
  unfold backspace
  refine Yields.ite (fun _ => ?_) fun _ => yields_ok.mpr (.refl frame)
  refine Yields.bind (Yields.of_forall fun _ => trivial) fun idx _ => ?_
  refine Yields.bind (Yields.of_forall fun _ => trivial) fun committed _ => ?_
  exact yields_ok.mpr ⟨_, _, rfl⟩

/-- So does Delete. -/
theorem delete_sameTarget : Yields frame.delete frame.SameTarget := by
  unfold delete
  refine Yields.ite (fun _ => ?_) fun _ => yields_ok.mpr (.refl frame)
  refine Yields.bind (Yields.of_forall fun _ => trivial) fun committed _ => ?_
  exact yields_ok.mpr ⟨_, frame.cursor, rfl⟩

/-- So does Left. -/
theorem moveLeft_sameTarget : Yields frame.moveLeft frame.SameTarget := by
  unfold moveLeft
  refine Yields.ite (fun _ => ?_) fun _ => yields_ok.mpr (.refl frame)
  refine Yields.bind (Yields.of_forall fun _ => trivial) fun idx _ => ?_
  exact yields_ok.mpr ⟨frame.committed, _, rfl⟩

/-- So does Right. -/
theorem moveRight_sameTarget : Yields frame.moveRight frame.SameTarget := by
  unfold moveRight
  refine Yields.ite (fun _ => ?_) fun _ => yields_ok.mpr (.refl frame)
  refine Yields.bind (Yields.of_forall fun _ => trivial) fun after _ => ?_
  refine Yields.bind (Yields.of_forall fun _ => trivial) fun ch _ => ?_
  exact yields_ok.mpr ⟨frame.committed, _, rfl⟩

end Edits

end RegisterFrame

/-- The key is answered, and neither text nor the key itself reaches the application. -/
def Shielded (actions : List EngineAction) : Prop :=
  actions ≠ [] ∧ ∀ a ∈ actions, a.leaks = false

/-- The status update at the end of a press leaks nothing: it is no commit, and nothing is
passed on with it. -/
theorem shielded_append {actions status : List EngineAction} (h : Shielded actions)
    (hstatus : SkkEngine.IsStatus status) : Shielded (actions ++ status) := by
  refine ⟨by simp [h.1], ?_⟩
  intro a ha
  rcases List.mem_append.mp ha with ha | ha
  · exact h.2 a ha
  · rcases hstatus with rfl | ⟨indicator, rfl⟩
    · cases ha
    · cases List.mem_singleton.mp ha
      rfl

/-- No text is committed. -/
theorem Shielded.not_commit {actions : List EngineAction} (h : Shielded actions) (text : Str) :
    .commit text ∉ actions := by
  intro hmem
  cases h.2 _ hmem

/-- The actions that the redirection keeps leak nothing. -/
theorem leaks_of_isKept {a : EngineAction} (h : a.isKept) : a.leaks = false := by
  cases a <;> simp_all [EngineAction.isKept, EngineAction.leaks]

namespace SkkEngine

variable {δ : Type}

/-- The redirection edits the top frame alone, by what it receives from the actions one after
the other. -/
theorem foldlM_interceptStep_yields (rawActions : List EngineAction) :
    ∀ {self : SkkEngine δ} {frame : RegisterFrame} {frames : List RegisterFrame},
      self.registerStack = frame :: frames → ∀ (result : List EngineAction) (needPreedit : Bool),
    Yields (rawActions.foldlM interceptStep (self, result, needPreedit)) fun acc =>
      ∃ frame', rawActions.foldlM RegisterFrame.receive frame = .ok frame' ∧
        acc.1 = { self with registerStack := frame' :: frames } := by
  induction rawActions with
  | nil =>
      intro self frame frames hstack result needPreedit
      exact yields_pure.mpr ⟨frame, rfl, by rw [← hstack]⟩
  | cons action rawActions ih =>
      intro self frame frames hstack result needPreedit
      -- One step edits the frame by `receive`.
      have hstep : Yields (interceptStep (self, result, needPreedit) action) fun acc =>
          ∃ frame', frame.receive action = .ok frame' ∧
            acc.1 = { self with registerStack := frame' :: frames } := by
        have hedit : ∀ edit : RegisterFrame → Partial RegisterFrame,
            Yields (self.editTop edit) fun self' => ∃ frame', edit frame = .ok frame' ∧
              self' = { self with registerStack := frame' :: frames } := by
          intro edit
          unfold editTop
          rw [hstack]
          dsimp only
          cases edit frame with
          | error e => simp
          | ok frame' => exact yields_ok.mpr ⟨frame', rfl, rfl⟩
        have hsame : ({ self with registerStack := frame :: frames } : SkkEngine δ) = self := by
          rw [← hstack]
        cases action with
        | commit text =>
            exact (hedit _).bind fun self' h => yields_ok.mpr h
        | deleteBack =>
            exact (hedit _).bind fun self' h => yields_ok.mpr h
        | _ => exact yields_ok.mpr ⟨frame, rfl, hsame.symm⟩
      rw [List.foldlM_cons]
      refine hstep.bind ?_
      rintro ⟨self', result', needPreedit'⟩ ⟨frame', hframe', hself'⟩
      dsimp only at hself'
      subst hself'
      refine (ih rfl result' needPreedit').mono ?_
      rintro acc ⟨frame'', hframe'', hacc⟩
      exact ⟨frame'', by rw [List.foldlM_cons, hframe', ok_bind, hframe''], hacc⟩

/-- What the redirection makes of the actions of a handler: the top frame receives their text,
the answer leaks nothing, and nothing else changes. -/
theorem interceptForRegister_yields {self : SkkEngine δ} (hself : self.Wf) {frame : RegisterFrame}
    {frames : List RegisterFrame} (hstack : self.registerStack = frame :: frames)
    {rawActions : List EngineAction} (hdeletes : EngineAction.deleteBack ∉ rawActions.dropLast) :
    Yields (self.interceptForRegister rawActions) fun r => Shielded r.2 ∧ ∃ frame',
      frame.Receives (committedText rawActions) (decide (.deleteBack ∈ rawActions)) frame' ∧
        r.1 = { self with registerStack := frame' :: frames } := by
  have hframe : frame.Wf := hself.frames frame (by simp [hstack])
  have hshielded : Yields (self.interceptForRegister rawActions) fun r => Shielded r.2 := by
    refine (interceptForRegister_runs hself rawActions).yields.mono fun r hr => ?_
    have hkept : ∀ a ∈ rawActions.filter EngineAction.isKept, a.leaks = false := by
      intro a ha
      exact leaks_of_isKept (List.mem_filter.mp ha).2
    -- Either the kept actions are the answer, or the preedit is drawn after them.
    cases hr with
    | quiet _ _ hne => exact ⟨hne, hkept⟩
    | drawn _ _ _ _ =>
        refine ⟨by simp, fun a ha => ?_⟩
        rcases List.mem_append.mp ha with ha | ha
        · exact hkept a ha
        · cases List.mem_singleton.mp ha
          rfl
  intro r hr
  refine ⟨hshielded r hr, ?_⟩
  unfold interceptForRegister at hr
  have hloop := foldlM_interceptStep_yields rawActions hstack [] false
  cases hacc : rawActions.foldlM interceptStep (self, [], false) with
  | error e => rw [hacc] at hr; cases hr
  | ok acc =>
      obtain ⟨frame', hframe', hself'⟩ := hloop acc hacc
      have hreceives := RegisterFrame.receives_of_foldlM rawActions hframe hdeletes hframe'
      have hstate : r.1 = acc.1 := by
        rw [hacc, ok_bind] at hr
        have hsame : Yields (if acc.2.2 ∨ acc.2.1.isEmpty
            then do return (acc.1, acc.2.1 ++ [← acc.1.preeditAction])
            else .ok (acc.1, acc.2.1)) fun r => r.1 = acc.1 := by
          refine Yields.ite (fun _ => ?_) fun _ => yields_ok.mpr rfl
          exact Yields.bind (Yields.of_forall fun _ => trivial) fun _ _ => yields_pure.mpr rfl
        exact hsame r hr
      exact ⟨frame', hreceives, hstate.trans hself'⟩

/-! ### The cases of a step -/

section Cases
variable [DictionaryProvider δ] [EucJp] {self self' : SkkEngine δ} {event : KeyEvent}
  {actions : List EngineAction}

/-- The key is a press in raw mode off, and no raw-mode toggle. -/
def cooks (self : SkkEngine δ) (event : KeyEvent) : Bool :=
  event.isPress && !self.rawMode && !self.isRawToggle event

/-- A step leaves all but raw mode alone, or it is what `handleCooked` does, with a status
update. The first holds of a release, of every key in raw mode, and of the key that enters it.
The results on runs start from this lemma, and none of them unfolds `processKey` again. -/
theorem step_cases (hstep : Step self event self' actions) :
    (self.cooks event = false ∧ ∃ rawMode, self' = { self with rawMode := rawMode }) ∨
    (self.cooks event ∧ ∃ r status, self.handleCooked event = .ok r ∧ IsStatus status ∧
      self' = r.1 ∧ actions = r.2 ++ status) := by
  unfold Step processKey at hstep
  by_cases hpress : event.isPress
  · rw [if_neg (by simp [hpress])] at hstep
    cases hhandled : self.handlePress event with
    | error e => rw [hhandled] at hstep; cases hstep
    | ok r =>
        rw [hhandled] at hstep
        cases hstep
        unfold handlePress at hhandled
        -- in raw mode only the keys that toggle it do anything, and they only draw
        by_cases hraw : self.rawMode
        · refine .inl ⟨by simp [cooks, hraw], ?_⟩
          rw [if_pos hraw] at hhandled
          by_cases htoggle : self.isRawToggle event
          · rw [if_pos htoggle] at hhandled
            dsimp only at hhandled
            cases hrender : SkkEngine.renderCurrentPhase { self with rawMode := false } with
            | error e => rw [hrender] at hhandled; cases hhandled
            | ok shown =>
                rw [hrender] at hhandled
                cases hhandled
                exact ⟨false, rfl⟩
          · rw [if_neg htoggle] at hhandled
            cases hhandled
            exact ⟨self.rawMode, rfl⟩
        rw [if_neg hraw] at hhandled
        by_cases htoggle : self.isRawToggle event
        · rw [if_pos htoggle] at hhandled
          cases hhandled
          exact .inl ⟨by simp [cooks, htoggle], true, rfl⟩
        · rw [if_neg htoggle] at hhandled
          refine .inr ⟨by simp [cooks, hpress, hraw, htoggle], r, ?_⟩
          split
          · exact ⟨_, hhandled, .inr ⟨_, rfl⟩, rfl, rfl⟩
          · exact ⟨[], hhandled, .inl rfl, rfl, by rw [List.append_nil]⟩
  · rw [if_pos (by simpa using hpress)] at hstep
    cases hstep
    exact .inl ⟨by simp [cooks, hpress], self.rawMode, rfl⟩

end Cases

/-! ### What a key does in a registration -/

section Registered
variable [DictionaryProvider δ]

/-- Return finishes the top frame `frame`. -/
structure Finishing (start : SkkEngine δ) (event : KeyEvent) (frame : RegisterFrame) : Prop where
  key : event.key = .returnKey
  place : start.inReadyState ∨ start.phase = .ascii
  committed : frame.committed ≠ []

/-- The state after the outermost frame `frame` was dropped: back in its reading. -/
def restored (self : SkkEngine δ) (frame : RegisterFrame) : SkkEngine δ :=
  if frame.isAbbrev then
    { self with registerStack := [], phase := .abbrev frame.originalMidashi, kanaState := [] }
  else
    SkkEngine.updateCompletion { self with
      registerStack := [], phase := .midashi frame.originalMidashi [], kanaState := [] }
      frame.originalMidashi

/-- A cancel leaves no frame, and the dictionaries as they are. -/
theorem restored_base (self : SkkEngine δ) (frame : RegisterFrame) :
    (self.restored frame).base = ([], self.dict) := by
  unfold restored
  split
  · rfl
  · exact updateCompletion_base ..

/-- It leaves the script and the abbrev flag as they are. -/
theorem restored_ownStyle (self : SkkEngine δ) (frame : RegisterFrame) :
    (self.restored frame).ownStyle = self.ownStyle := by
  unfold restored
  split
  · rfl
  · exact updateCompletion_ownStyle ..

/-- It goes back to the reading of the frame. -/
theorem restored_phase (self : SkkEngine δ) (frame : RegisterFrame) :
    (self.restored frame).phase = if frame.isAbbrev then .abbrev frame.originalMidashi
      else .midashi frame.originalMidashi [] := by
  unfold restored
  by_cases hisAbbrev : frame.isAbbrev
  · rw [if_pos hisAbbrev, if_pos hisAbbrev]
  · rw [if_neg hisAbbrev, if_neg hisAbbrev, updateCompletion_eq]

/-- What a key does while the frames `frame :: frames` are registered, up to the status update.
The first case is a key that the registration leaves to the phase handler; the others are the
keys it takes for itself. -/
inductive Registered [EucJp] (self : SkkEngine δ) (event : KeyEvent) (frame : RegisterFrame)
    (frames : List RegisterFrame) : SkkEngine δ × List EngineAction → Prop
  /-- The phase handler gets the key, and the top frame what it commits. -/
  | handled {mid rawActions top below top' actions} :
      self.registrationKey event = none → self.dispatch event = .ok (mid, rawActions) →
      mid.registerStack = top :: below →
      top.Receives (committedText rawActions) (decide (.deleteBack ∈ rawActions)) top' →
      Shielded actions →
      Registered self event frame frames ({ mid with registerStack := top' :: below }, actions)
  /-- The buffer of the top frame is edited. -/
  | edited {frame' phase kanaState actions} :
      (self.registrationKey event).isSome → frame.SameTarget frame' → Shielded actions →
      Registered self event frame frames ({ self with
        registerStack := frame' :: frames, phase := phase, kanaState := kanaState }, actions)
  /-- The top frame is finished, and its word inserted in the next one. -/
  | finished {next below next' actions} :
      (self.registrationKey event).isSome → self.Finishing event frame → frames = next :: below →
      next.Receives frame.word false next' → Shielded actions →
      Registered self event frame frames ({ self.learnAll frame.entry with
        registerStack := next' :: below, phase := .hiragana, kanaState := [] }, actions)
  /-- The last frame is finished, and its word goes to the application. -/
  | finishedLast :
      (self.registrationKey event).isSome → self.Finishing event frame → frames = [] →
      Registered self event frame frames ({ self.learnAll frame.entry with
        registerStack := [], phase := .hiragana, kanaState := [] },
        [.commit (frame.word ++ frame.okuriKana.getD []), .clearPreedit])
  /-- The top frame is dropped. -/
  | cancelled {next below actions} :
      (self.registrationKey event).isSome → frames = next :: below → Shielded actions →
      Registered self event frame frames ({ self with
        registerStack := frames, phase := .hiragana, kanaState := [] }, actions)
  /-- The last frame is dropped. -/
  | cancelledLast {actions} :
      (self.registrationKey event).isSome → frames = [] → Shielded actions →
      Registered self event frame frames (self.restored frame, actions)

variable [EucJp] {self : SkkEngine δ} {event : KeyEvent} {frame : RegisterFrame}
  {frames : List RegisterFrame}

omit [DictionaryProvider δ] [EucJp] in
/-- A preedit leaks nothing. -/
theorem shielded_redraw (preedit : Preedit) : Shielded [.updatePreedit preedit] :=
  ⟨by simp, by simp [EngineAction.leaks]⟩

/-- Return learns the word of the top frame. It goes into the next frame, or to the application
when there is none. The word is the part of the buffer in front of the annotation, and the frame
below receives it at its cursor. -/
theorem finalizeRegister_registered (hself : self.Wf)
    (hstack : self.registerStack = frame :: frames)
    (hkey : (self.registrationKey event).isSome) (hfinishing : self.Finishing event frame) :
    Yields self.finalizeRegister (Registered self event frame frames) := by
  unfold finalizeRegister
  rw [hstack]
  dsimp only
  cases hframes : frames with
  | nil => exact yields_ok.mpr (.finishedLast hkey hfinishing rfl)
  | cons next below =>
      have hnext : next.Wf := hself.frames next (by simp [hstack, hframes])
      unfold editTop
      dsimp only [learnAll]
      rw [show (Prod.fst <| splitRegisterAnnotation frame.committed) = frame.word from rfl]
      cases hinsert : next.insert frame.word with
      | error e => simp
      | ok next' =>
          have hreceives := RegisterFrame.receives_of_insert hnext hinsert
          refine (redraw_yields _).mono ?_
          rintro _ ⟨preedit, rfl⟩
          exact .finished hkey hfinishing rfl hreceives (shielded_redraw preedit)

/-- The top frame is dropped, whatever the phase and the pending romaji are. The frame below
becomes the top one and nothing in it changes. Without one, the reading that was to be
registered is shown again. -/
theorem cancelRegister_registered {mid : SkkEngine δ} {phase : SkkPhase} {kanaState : Str}
    (hmid : mid = { self with phase := phase, kanaState := kanaState })
    (hstack : self.registerStack = frame :: frames)
    (hkey : (self.registrationKey event).isSome) :
    Yields mid.cancelRegister (Registered self event frame frames) := by
  subst hmid
  unfold cancelRegister
  rw [hstack]
  dsimp only
  cases hframes : frames with
  | nil =>
      dsimp only
      refine (preeditAction_yields _).bind ?_
      rintro _ ⟨preedit, rfl⟩
      exact yields_pure.mpr (.cancelledLast hkey rfl ⟨by simp, by simp [EngineAction.leaks]⟩)
  | cons next below =>
      refine (redraw_yields _).mono ?_
      rintro _ ⟨preedit, rfl⟩
      exact .cancelled hkey rfl (shielded_redraw preedit)

/-- The buffer is edited, and then the engine redraws. The edit is any function that keeps what
the frame is for, so one lemma covers the cursor keys and the keys that delete. -/
theorem editTop_registered {mid : SkkEngine δ} {phase : SkkPhase} {kanaState : Str}
    (hmid : mid = { self with phase := phase, kanaState := kanaState })
    (hstack : self.registerStack = frame :: frames) (hkey : (self.registrationKey event).isSome)
    {edit : RegisterFrame → Partial RegisterFrame}
    (hedit : Yields (edit frame) frame.SameTarget) :
    Yields (do
      let self ← mid.editTop edit
      self.redraw) (Registered self event frame frames) := by
  subst hmid
  unfold editTop
  dsimp only
  rw [hstack]
  dsimp only
  cases hframe : edit frame with
  | error e => simp
  | ok frame' =>
      refine (redraw_yields _).mono ?_
      rintro _ ⟨preedit, rfl⟩
      exact .edited hkey (hedit frame' hframe) (shielded_redraw preedit)

/-- The keys that edit the buffer: the two that delete and the two that move the cursor. Any
other key is none of them. -/
theorem regEditDrawn_registered (hstack : self.registerStack = frame :: frames)
    (hkey : (self.registrationKey event).isSome)
    {edited : Partial (SkkEngine δ × List EngineAction)}
    (h : self.regEditDrawn event.key = some edited) :
    Yields edited (Registered self event frame frames) := by
  have hedit : ∀ edit : RegisterFrame → Partial RegisterFrame,
      Yields (edit frame) frame.SameTarget →
      Yields (do
        let self ← self.editTop edit
        self.redraw) (Registered self event frame frames) := by
    intro edit h
    exact editTop_registered rfl hstack hkey h
  unfold regEditDrawn regEdit at h
  cases hcase : event.key with
  | backSpace => rw [hcase] at h; cases h; exact hedit _ frame.backspace_sameTarget
  | delete => rw [hcase] at h; cases h; exact hedit _ frame.delete_sameTarget
  | left => rw [hcase] at h; cases h; exact hedit _ frame.moveLeft_sameTarget
  | right => rw [hcase] at h; cases h; exact hedit _ frame.moveRight_sameTarget
  | _ => rw [hcase] at h; cases h

/-- Return with an empty buffer cancels the frame, otherwise it finishes it. Both are ways a
registration may answer a key. -/
theorem regReturn_registered (hself : self.Wf) (hstack : self.registerStack = frame :: frames)
    (hkey : (self.registrationKey event).isSome) (hreturn : event.key = .returnKey)
    (hplace : self.inReadyState ∨ self.phase = .ascii) :
    Yields self.regReturn (Registered self event frame frames) := by
  unfold regReturn
  rw [hstack]
  dsimp only
  refine Yields.ite (fun _ => cancelRegister_registered rfl hstack hkey) fun hne => ?_
  exact finalizeRegister_registered hself hstack hkey ⟨hreturn, hplace, by simpa using hne⟩

/-- Return moves the text of a composition into the buffer, at its cursor, and leaves the
composition. -/
theorem regFlush_registered (hstack : self.registerStack = frame :: frames)
    (hkey : (self.registrationKey event).isSome) (text : Str) :
    Yields (self.regFlush text) (Registered self event frame frames) := by
  unfold regFlush
  dsimp only
  by_cases hempty : text.isEmpty
  · -- An empty composition inserts nothing, and the buffer stays as it is.
    rw [if_neg (by simp [hempty])]
    refine (redraw_yields _).mono ?_
    rintro _ ⟨preedit, rfl⟩
    have hdone : Registered self event frame frames ({ self with
        registerStack := frame :: frames, phase := .hiragana, kanaState := [] },
        [.updatePreedit preedit]) := .edited hkey (.refl frame) (shielded_redraw preedit)
    rw [← hstack] at hdone
    exact hdone
  · rw [if_pos (by simp [hempty])]
    exact editTop_registered rfl hstack hkey (frame.insert_sameTarget text)

/-- The keys the registration takes for itself, one case for each kind of them. -/
theorem registrationKey_registered (hself : self.Wf) (hstack : self.registerStack = frame :: frames)
    {early : Partial (SkkEngine δ × List EngineAction)}
    (h : self.registrationKey event = some early) :
    Yields early (Registered self event frame frames) := by
  have hkey : (self.registrationKey event).isSome := by rw [h]; rfl
  cases (registrationKey_cases h).2 with
  | submit hplace hreturn => exact regReturn_registered hself hstack hkey hreturn hplace
  | drop _ => exact cancelRegister_registered rfl hstack hkey
  | edit _ hedit => exact regEditDrawn_registered hstack hkey hedit
  | type ch _ => exact editTop_registered rfl hstack hkey (frame.insert_sameTarget _)
  | abandon _ _ => exact cancelRegister_registered rfl hstack hkey
  | flush _ _ => exact regFlush_registered hstack hkey _

/-- A key press does one of these things while `frame :: frames` are registered. A key that the
registration leaves to the handler is redirected, into the frame the handler may just have
opened. -/
theorem handleCooked_registered (hself : self.Wf) (hstack : self.registerStack = frame :: frames) :
    Yields (self.handleCooked event) (Registered self event frame frames) := by
  unfold handleCooked
  cases hearly : self.registrationKey event with
  | some early => exact registrationKey_registered hself hstack hearly
  | none =>
      rw [if_neg (by simp [isToggle, hstack])]
      intro r hr
      cases hdispatch : self.dispatch event with
      | error e => rw [hdispatch] at hr; cases hr
      | ok raw =>
          rw [hdispatch, ok_bind] at hr
          obtain ⟨hpost, hhandled⟩ :
              Post (self.typedTrigger event) (self.dropsRomaji event) self raw ∧
              if self.ignores event then raw = (self, [])
              else Handled (self.strayText event) (self.styleAfter event) self raw :=
            ⟨(dispatch_post hself event).of_ok hdispatch, dispatch_handled self event raw hdispatch⟩
          have hdeletes : EngineAction.deleteBack ∉ raw.2.dropLast := by
            split at hhandled
            · rw [hhandled]
              simp
            · exact hhandled.deletes
          -- The handler closes no frame, so there still is a top frame.
          obtain ⟨top, below, htop⟩ : ∃ top below, raw.1.registerStack = top :: below := by
            rcases hpost.stack with hsame | ⟨frame', hpushed⟩
            · exact ⟨frame, frames, hsame.trans hstack⟩
            · exact ⟨_, _, hpushed⟩
          dsimp only at hr
          rw [if_pos (by simp [htop])] at hr
          obtain ⟨hshielded, top', hreceives, hstate⟩ :=
            interceptForRegister_yields hpost.wf htop hdeletes r hr
          have heq : r = ({ raw.1 with registerStack := top' :: below }, r.2) := by
            rw [← hstate]
          rw [heq]
          exact .handled hearly hdispatch htop hreceives hshielded

end Registered

/-! ### Containment -/

section Containment
variable [DictionaryProvider δ] [EucJp] {self self' : SkkEngine δ} {event : KeyEvent}
  {frame : RegisterFrame} {frames : List RegisterFrame} {actions : List EngineAction}

/-- A key typed while `frame :: frames` are registered stays in the registration. -/
structure Contains (start : SkkEngine δ) (event : KeyEvent) (frame : RegisterFrame)
    (frames : List RegisterFrame) (self' : SkkEngine δ) (actions : List EngineAction) : Prop where
  /-- While frames are left, nothing reaches the application. -/
  shielded : self'.registerStack ≠ [] → actions ≠ [] ∧ ∀ a ∈ actions, a.leaks = false
  /-- What the phase handler commits is inserted in the top frame. -/
  received : ∀ mid rawActions, start.registrationKey event = none →
    start.dispatch event = .ok (mid, rawActions) → ∃ opened frame',
      self'.registerStack = opened ++ frame' :: frames ∧
      frame.Receives (committedText rawActions) (decide (.deleteBack ∈ rawActions)) frame'
  /-- The frames below the top one stay as they are, but for the word of a finished frame. -/
  below : (∃ opened frame', self'.registerStack = opened ++ frame' :: frames) ∨
    self'.registerStack = frames ∨
    start.finishes event ∧ ∃ next next' rest, frames = next :: rest ∧
      next.Receives frame.word false next' ∧ self'.registerStack = next' :: rest
  /-- Only the last frame commits to the application. -/
  commits : ∀ text, .commit text ∈ actions → start.finishes event ∧ frames = [] ∧
    self'.registerStack = [] ∧ text = frame.word ++ frame.okuriKana.getD []

omit [DictionaryProvider δ] in
/-- Return on a frame with text is one of the keys that finish it. -/
theorem Finishing.finishes (h : self.Finishing event frame)
    (hstack : self.registerStack = frame :: frames) (hpress : event.isPress)
    (hraw : self.rawMode = false) (htoggle : self.isRawToggle event = false) :
    self.finishes event := by
  have hplace := h.place
  simp [SkkEngine.finishes, pressesReturn, isToggle, hpress, hraw, htoggle, hstack, h.key, hplace]

/-- A key the registration takes for itself is contained when nothing leaks: no handler was
asked, so there is no text of one to account for. -/
theorem Contains.of_taken (hkey : (self.registrationKey event).isSome)
    (hshielded : Shielded actions)
    (hbelow : (∃ opened frame', self'.registerStack = opened ++ frame' :: frames) ∨
      self'.registerStack = frames ∨
      self.finishes event ∧ ∃ next next' rest, frames = next :: rest ∧
        next.Receives frame.word false next' ∧ self'.registerStack = next' :: rest) :
    Contains self event frame frames self' actions where
  shielded _ := hshielded
  received _ _ hnone _ := by
    rw [hnone] at hkey
    cases hkey
  below := hbelow
  commits text hmem := (hshielded.not_commit text hmem).elim

/-- What the phase handler commits is received by the frame that was on top, unless it goes
astray. -/
theorem received_of_dispatch (hself : self.Wf) (hstack : self.registerStack = frame :: frames)
    (hstray : self.strayText event = []) {mid : SkkEngine δ} {rawActions : List EngineAction}
    {top top' : RegisterFrame} {below : List RegisterFrame}
    (hdispatch : self.dispatch event = .ok (mid, rawActions))
    (htop : mid.registerStack = top :: below)
    (hreceives : top.Receives (committedText rawActions) (decide (.deleteBack ∈ rawActions)) top') :
    ∃ opened frame', top' :: below = opened ++ frame' :: frames ∧
      frame.Receives (committedText rawActions) (decide (.deleteBack ∈ rawActions)) frame' := by
  have hhandled := dispatch_handled self event _ hdispatch
  split at hhandled
  · -- An ignored key commits nothing.
    cases hhandled
    rw [hstack] at htop
    cases htop
    exact ⟨[], top', rfl, hreceives⟩
  rcases hhandled.stack with hsame | ⟨fresh, hpushed, -, hkeeps, htext⟩
  · dsimp only at hsame
    rw [htop, hstack] at hsame
    cases hsame
    exact ⟨[], top', rfl, hreceives⟩
  · -- The fresh frame on top receives nothing, and neither does the old one.
    dsimp only at hpushed hkeeps htext
    rw [hstray, or_self] at htext
    rw [htop, hstack] at hpushed
    cases hpushed
    rw [htext, decide_eq_false hkeeps] at hreceives ⊢
    rw [hreceives.eq_of_nil]
    have hframe : frame.Wf := hself.frames frame (by simp [hstack])
    exact ⟨[top], frame, rfl, RegisterFrame.receives_refl hframe⟩

/-- A key whose candidate does not go astray is contained. The cases are the ways a registration
answers a key. -/
theorem Registered.contains (hself : self.Wf) (hstack : self.registerStack = frame :: frames)
    (hpress : event.isPress) (hraw : self.rawMode = false)
    (htoggle : self.isRawToggle event = false) (hstray : self.strayText event = [])
    {r : SkkEngine δ × List EngineAction} (h : Registered self event frame frames r)
    {status : List EngineAction} (hstatus : IsStatus status) :
    Contains self event frame frames r.1 (r.2 ++ status) := by
  cases h with
  | handled hkey hdispatch htop hreceives hshielded =>
      have hquiet := shielded_append hshielded hstatus
      obtain ⟨opened, frame', hframe', hinto⟩ :=
        received_of_dispatch hself hstack hstray hdispatch htop hreceives
      refine ⟨fun _ => hquiet, ?_, .inl ⟨opened, frame', hframe'⟩, ?_⟩
      · intro mid' rawActions' _ hdispatch'
        rw [hdispatch] at hdispatch'
        cases hdispatch'
        exact ⟨opened, frame', hframe', hinto⟩
      · intro text hmem
        exact (hquiet.not_commit text hmem).elim
  | edited hkey htarget hshielded =>
      exact .of_taken hkey (shielded_append hshielded hstatus) (.inl ⟨[], _, rfl⟩)
  | finished hkey hfinishing hframes hreceives hshielded =>
      have hfinishes := hfinishing.finishes hstack hpress hraw htoggle
      exact .of_taken hkey (shielded_append hshielded hstatus)
        (.inr (.inr ⟨hfinishes, _, _, _, hframes, hreceives, rfl⟩))
  -- No frame is left, so nothing has to be shielded.
  | finishedLast hkey hfinishing hframes =>
      -- The one way a text reaches the application.
      have hfinishes := hfinishing.finishes hstack hpress hraw htoggle
      refine ⟨fun h => (h rfl).elim, fun _ _ hnone _ => ?_, .inr (.inl hframes.symm), ?_⟩
      · rw [hnone] at hkey
        cases hkey
      intro text hmem
      refine ⟨hfinishes, hframes, rfl, ?_⟩
      rcases List.mem_append.mp hmem with hmem | hmem
      · simpa using hmem
      · rcases hstatus with rfl | ⟨indicator, rfl⟩
        · cases hmem
        · cases List.mem_singleton.mp hmem
  | cancelled hkey hframes hshielded =>
      exact .of_taken hkey (shielded_append hshielded hstatus) (.inr (.inl rfl))
  | cancelledLast hkey hframes hshielded =>
      have hnil : (self.restored frame).registerStack = frames := by
        rw [hframes]
        exact congrArg Prod.fst (restored_base ..)
      exact .of_taken hkey (shielded_append hshielded hstatus) (.inr (.inl hnil))

omit [EucJp] in
/-- While a candidate is selected a registration takes `C-g` alone. -/
theorem registrationKey_selecting {s : Selection} (hphase : self.phase = .selecting s)
    (hctrl : event.modifiers.ctrl = false) : self.registrationKey event = none := by
  unfold registrationKey
  rw [hphase]
  simp [inReadyState, hphase, SkkPhase.isKana, isCtrlG, hctrl, flushText]

/-- A candidate that goes astray is not contained: its text is in the fresh frame, so the
frame that was on top has not received it. -/
theorem Registered.not_contains (hself : self.Wf) (hstack : self.registerStack = frame :: frames)
    (hstray : self.strayText event ≠ []) {r : SkkEngine δ × List EngineAction}
    (h : Registered self event frame frames r) (status : List EngineAction) :
    ¬ Contains self event frame frames r.1 (r.2 ++ status) := by
  obtain ⟨s, hphase, hctrl⟩ := selecting_of_strayText hstray
  have hnone := registrationKey_selecting hphase hctrl
  cases h with
  | @handled mid rawActions top below top' actions hkey hdispatch htop hreceives hshielded =>
      intro hcontains
      obtain ⟨hpushed, htext⟩ := dispatch_strays hstray _ hdispatch
      have hhandled := dispatch_handled self event _ hdispatch
      have hignores : self.ignores event = false := by rw [ignores, hphase]
      dsimp only at hhandled
      rw [hignores, if_neg Bool.false_ne_true] at hhandled
      obtain ⟨fresh, hfresh, -, hkeeps, -⟩ := hhandled.stack.resolve_left hpushed
      dsimp only at hfresh hkeeps htext
      obtain ⟨opened, frame', hstack', hinto⟩ := hcontains.received _ _ hkey hdispatch
      -- One frame was opened, so the frame that should hold the text is the old one.
      rw [htop, hstack] at hfresh
      cases hfresh
      have hsame : frame' = frame := by
        have hlength := congrArg List.length hstack'
        simp only [List.length_cons, List.length_append] at hlength
        obtain ⟨only, rfl⟩ := List.length_eq_one_iff.mp (show opened.length = 1 by omega)
        cases hstack'
        rfl
      rw [hsame, htext, decide_eq_false hkeeps] at hinto
      have hframe : frame.Wf := hself.frames frame (by simp [hstack])
      exact hstray (hinto.text_eq (RegisterFrame.receives_refl hframe))
  | edited hkey _ _ | finished hkey _ _ _ _ | finishedLast hkey _ _ | cancelled hkey _ _
  | cancelledLast hkey _ _ =>
      rw [hnone] at hkey
      cases hkey

/-- In every state of every run: a key typed in a registration is contained exactly when no text
goes astray, that is unless it commits a candidate and, handed on to the kana mode, starts and
ends a reading that has none. The condition is on the state before the key. -/
theorem contains_of_session {kanaTable : KanaTable} {keybindings : SkkKeybindings}
    {lispDirectives : Bool} {initialPhase : SkkPhase} {providers : List δ} {history : History δ}
    (hrun : Session (fresh kanaTable keybindings lispDirectives initialPhase providers)
      history self)
    (hraw : self.rawMode = false) (hstack : self.registerStack = frame :: frames)
    (hpress : event.isPress) (htoggle : self.isRawToggle event = false) :
    ∃ self' actions, Step self event self' actions ∧
      (Contains self event frame frames self' actions ↔ self.strayText event = []) := by
  have hself := Session.wf (fresh_wf ..) hrun
  obtain ⟨r, hstep, -⟩ := processKey_wf hself event
  refine ⟨r.1, r.2, hstep, ?_⟩
  have hcooks : self.cooks event := by simp [cooks, hpress, hraw, htoggle]
  -- the key is a press outside raw mode, so it is cooked, and the registration takes its actions
  rcases step_cases hstep with ⟨hnot, -⟩ | ⟨-, r', status, hcooked, hstatus, hstate, hactions⟩
  · rw [hcooks] at hnot
    cases hnot
  · rw [hstate, hactions]
    have hregistered := handleCooked_registered hself hstack r' hcooked
    constructor
    · intro hcontains
      by_contra hstray
      exact hregistered.not_contains hself hstack hstray status hcontains
    · intro hstray
      exact hregistered.contains hself hstack hpress hraw htoggle hstray hstatus

end Containment

/-! ### The candidate that goes astray -/

/-- A kana table with one rule, whose kana end in a conversion trigger. -/
def triggerTable : KanaTable := ⟨[⟨[], .char 'w', [], ['わ', 'を']⟩], [], []⟩

/-- The keys that lead to a registration for `1x`, and in it to the candidates of `1`: a numeral
converts without any dictionary. -/
def nestedKeys : List KeyEvent :=
  KeyEvent.typed ['/', '1', 'x'] ++ List.replicate 5 (.press .space {}) ++
    KeyEvent.typed ['/', '1'] ++ [.press .space {}]

/-- `W` commits the candidate `1` into the registration it opens itself, for `わ`. The frame that
was on top gets nothing of it. -/
theorem candidate_astray :
    letI := EucJp.empty
    ∃ (history : History Empty) (self self' : SkkEngine Empty) (frame : RegisterFrame)
      (actions : List EngineAction),
      Session (fresh triggerTable {} true .hiragana []) history self ∧
      history.map Visit.input = nestedKeys ∧ self.rawMode = false ∧
      self.registerStack = [frame] ∧ self.isRawToggle (.press (.char 'W') {}) = false ∧
      Step self (.press (.char 'W') {}) self' actions ∧
      ¬ Contains self (.press (.char 'W') {}) frame [] self' actions := by
  let _ := EucJp.empty
  have hrecord := exists_session (fresh triggerTable {} true .hiragana []) nestedKeys
    (fun _ (self : SkkEngine Empty) => self.rawMode = false ∧
      self.registerStack = [⟨['#', 'x'], ['1', 'x'], [['1']], none, none, [], 0, true⟩] ∧
      self.isRawToggle (.press (.char 'W') {}) = false ∧
      self.registrationKey (.press (.char 'W') {}) = none ∧
      (∃ raw ∈ (self.dispatch (.press (.char 'W') {})).toOption, committedText raw.2 = ['1'] ∧
        .deleteBack ∉ raw.2) ∧
      ∃ r ∈ (self.processKey (.press (.char 'W') {})).toOption,
        r.1.registerStack.map RegisterFrame.committed = [['1'], []])
    (by decide +kernel)
  obtain ⟨history, self, hrun, hinputs, hraw, hstack, htoggle, hkey, ⟨raw, hraw', htext, hkeeps⟩,
    r, hr, hframes⟩ := hrecord
  refine ⟨history, self, r.1, _, r.2, hrun, hinputs, hraw, hstack, htoggle,
    ok_of_mem_toOption hr, ?_⟩
  intro hcontains
  obtain ⟨opened, frame', hstack', before, after, hcommitted, -, rfl⟩ :=
    hcontains.received raw.1 raw.2 hkey (ok_of_mem_toOption hraw')
  -- The frame has to hold the committed text, and its buffer is empty.
  rw [hstack', htext, decide_eq_false hkeeps] at hframes
  have hlast := congrArg List.getLast? hframes
  simp at hlast

/-- Typing `a` in a registration is contained. The registration was opened by `A` and Space,
with no dictionary to find the reading in, and the kana goes into its buffer. -/
theorem contains_of_session_typed :
    letI := EucJp.empty
    ∃ (history : History Empty) (self self' : SkkEngine Empty) (frame : RegisterFrame)
      (actions : List EngineAction),
      Session (fresh vowelTable {} true .hiragana []) history self ∧
      self.registerStack = [frame] ∧ Step self (.press (.char 'a') {}) self' actions ∧
      Contains self (.press (.char 'a') {}) frame [] self' actions := by
  let _ := EucJp.empty
  have hrecord := exists_session (fresh vowelTable {} true .hiragana [])
    (KeyEvent.typed ['A'] ++ [.press .space {}])
    (fun _ (self : SkkEngine Empty) => self.rawMode = false ∧
      self.registerStack = [⟨['あ'], ['あ'], [], none, none, [], 0, false⟩] ∧
      self.isRawToggle (.press (.char 'a') {}) = false ∧
      self.strayText (.press (.char 'a') {}) = [])
    (by decide +kernel)
  obtain ⟨history, self, hrun, -, hraw, hstack, htoggle, hstray⟩ := hrecord
  obtain ⟨self', actions, hstep, hcontains⟩ := contains_of_session hrun hraw hstack rfl htoggle
  exact ⟨history, self, self', _, actions, hrun, hstack, hstep, hcontains.mpr hstray⟩

end SkkEngine

end Y2Skk
