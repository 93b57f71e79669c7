import Y2Skk.Proofs.Ctrl

/-!
# `Y2Skk.Proofs.Conclude`: a key press as one equation

Two presses are compared in the modules that follow, so a press is needed as an equation
and not as a list of cases. A press that reaches the phase handler is the handler, then
`conclude`, which hands what it commits to the registration, then the status update.

* `processKey_eq`, `handleCooked_eq`: the equation.
* `interceptForRegister_eq`: in a registration the top frame takes the committed text as a
  whole, and the preedit is drawn once.
* `conclude_yields`: outside of the registration stack nothing is concluded differently.
* `withStatus_injective`, `sent_injective`: the status update hides no difference between
  two presses.

## The redirection as one insertion

The source goes through the actions of the handler one by one and edits the top frame for
each of them. Where nothing is deleted, the loop is a single insertion of all that is
committed (`foldlM_interceptStep_eq`). Insertions compose (`insert_append`) and can be
read off the buffer (`insert_injective`), so two presses leave the same frame only if they
commit the same text. A theorem that says when two presses agree needs just that.
-/

set_option autoImplicit false

namespace Y2Skk

open Outcome Utf8 Transition

/-- The text of two lists of actions is their texts one after the other. -/
theorem committedText_append (xs ys : List EngineAction) :
    committedText (xs ++ ys) = committedText xs ++ committedText ys := List.flatMap_append

/-- The preedit is drawn again, and nothing is deleted. The actions of a handler that ends in
`redraw` are of this kind. -/
def RedrawsText (rawActions : List EngineAction) : Prop :=
  rawActions.any EngineAction.isRedrawn ∧ EngineAction.deleteBack ∉ rawActions

namespace RegisterFrame

/-- To insert nothing changes nothing, when the cursor stands between two characters. -/
theorem insert_nil {frame : RegisterFrame} (hframe : frame.Wf) : frame.insert [] = .ok frame := by
  obtain ⟨before, after, hcommitted, hcursor⟩ := hframe.cursor
  rw [insert_eq hcommitted hcursor, List.append_nil, ← hcommitted, hcursor]

/-- Two texts inserted one after the other are inserted as one, since the cursor goes behind the
first. -/
theorem insert_append {frame frame' : RegisterFrame} (hframe : frame.Wf) {text : Str}
    (h : frame.insert text = .ok frame') (more : Str) :
    frame.insert (text ++ more) = frame'.insert more := by
  obtain ⟨before, after, hcommitted, hcursor⟩ := hframe.cursor
  rw [insert_eq hcommitted hcursor] at h
  cases h
  rw [insert_eq hcommitted hcursor, insert_eq rfl rfl]
  simp [List.append_assoc]

/-- What was inserted can be read off the buffer: two texts that lead to the same frame are
equal. -/
theorem insert_injective {frame frame' : RegisterFrame} (hframe : frame.Wf) {text text' : Str}
    (h : frame.insert text = .ok frame') (h' : frame.insert text' = .ok frame') : text = text' := by
  obtain ⟨before, after, hcommitted, hcursor⟩ := hframe.cursor
  rw [insert_eq hcommitted hcursor] at h h'
  cases h
  have hcommitted' := (RegisterFrame.mk.inj (Except.ok.inj h')).2.2.2.2.2.1
  simpa using hcommitted'.symm

/-- What is redirected into a frame does not change what it registers: only its buffer and its
cursor move. -/
theorem foldlM_receive_sameTarget (actions : List EngineAction) :
    ∀ frame : RegisterFrame, Yields (actions.foldlM receive frame) frame.SameTarget := by
  induction actions with
  | nil => exact fun frame => yields_pure.mpr (.refl frame)
  | cons action actions ih =>
      intro frame
      have hfirst : Yields (frame.receive action) frame.SameTarget := by
        cases action with
        | commit text => exact frame.insert_sameTarget text
        | deleteBack => exact frame.backspace_sameTarget
        | _ => exact yields_ok.mpr (.refl frame)
      rw [List.foldlM_cons]
      exact hfirst.bind fun mid hmid => (ih mid).mono fun _ h => hmid.trans h

end RegisterFrame

namespace SkkEngine

variable {δ : Type}

/-! ### Text in the top frame -/

section Frames
variable {self : SkkEngine δ} {frame : RegisterFrame} {frames : List RegisterFrame}

/-- An edit of the top frame, when there is one. -/
theorem editTop_cons (hstack : self.registerStack = frame :: frames)
    (edit : RegisterFrame → Partial RegisterFrame) : self.editTop edit = (do
      let frame' ← edit frame
      .ok { self with registerStack := frame' :: frames }) := by
  rw [editTop, hstack]

/-- A frame takes any text, since its cursor is at the boundary of a character. -/
theorem insert_ok (hself : self.Wf) (hstack : self.registerStack = frame :: frames) (text : Str) :
    ∃ frame', frame.insert text = .ok frame' ∧ frame'.Wf :=
  RegisterFrame.insert_runs (hself.frames frame (by simp [hstack])) text

/-- The top frame can be replaced by any frame whose cursor stands well. -/
theorem Wf.withTop (hself : self.Wf) (hstack : self.registerStack = frame :: frames)
    {frame' : RegisterFrame} (hframe' : frame'.Wf) :
    SkkEngine.Wf { self with registerStack := frame' :: frames } := by
  refine ⟨fun f hf => ?_, hself.phase⟩
  rcases List.mem_cons.mp hf with rfl | hf
  · exact hframe'
  · exact hself.frames f (by simp [hstack, hf])

/-- The loop of the redirection, as one insertion: the committed texts reach the frame together,
the other actions are kept or dropped by kind, and one that draws asks for a preedit at the
end. -/
theorem foldlM_interceptStep_eq (rawActions : List EngineAction) :
    ∀ {self : SkkEngine δ} {frame : RegisterFrame} {frames : List RegisterFrame}, self.Wf →
      self.registerStack = frame :: frames → EngineAction.deleteBack ∉ rawActions →
      ∀ (result : List EngineAction) (needPreedit : Bool),
    rawActions.foldlM interceptStep (self, result, needPreedit) = (do
      let frame' ← frame.insert (committedText rawActions)
      .ok ({ self with registerStack := frame' :: frames },
        result ++ rawActions.filter EngineAction.isKept,
        needPreedit || rawActions.any EngineAction.isRedrawn)) := by
  -- The frame and what was kept so far change on the way, so the induction is over both.
  induction rawActions with
  | nil =>
      intro self frame frames hself hstack _ result needPreedit
      have hframe : frame.Wf := hself.frames frame (by simp [hstack])
      have hsame : ({ self with registerStack := frame :: frames } : SkkEngine δ) = self := by
        rw [← hstack]
      rw [show committedText [] = [] from rfl, RegisterFrame.insert_nil hframe, ok_bind, hsame]
      simp [pure, Except.pure]
  | cons action rawActions ih =>
      intro self frame frames hself hstack hdeletes result needPreedit
      have hframe : frame.Wf := hself.frames frame (by simp [hstack])
      have hrest : EngineAction.deleteBack ∉ rawActions :=
        fun hmem => hdeletes (List.mem_cons_of_mem _ hmem)
      -- An action without text leaves the frame to the rest.
      have hother : ∀ more needs, committedText [action] = [] →
          interceptStep (self, result, needPreedit) action = .ok (self, result ++ more, needs) →
          more = [action].filter EngineAction.isKept →
          needs = (needPreedit || action.isRedrawn) →
          (action :: rawActions).foldlM interceptStep (self, result, needPreedit) = (do
            let frame' ← frame.insert (committedText (action :: rawActions))
            .ok ({ self with registerStack := frame' :: frames },
              result ++ (action :: rawActions).filter EngineAction.isKept,
              needPreedit || (action :: rawActions).any EngineAction.isRedrawn)) := by
        intro more needs htext hstep hmore hneeds
        have hcons : ∀ xs : List EngineAction, action :: xs = [action] ++ xs := fun _ => rfl
        rw [List.foldlM_cons, hstep, ok_bind, ih hself hstack hrest, hcons, committedText_append,
          htext, List.filter_append, ← hmore, hneeds]
        simp [Bool.or_assoc]
      cases action with
      | commit text =>
          obtain ⟨frame', hinsert, hframe'⟩ := insert_ok hself hstack text
          have hstep : interceptStep (self, result, needPreedit) (.commit text)
              = .ok ({ self with registerStack := frame' :: frames }, result, true) := by
            simp only [interceptStep, editTop_cons hstack, hinsert, ok_bind]
          have htext : committedText (.commit text :: rawActions)
              = text ++ committedText rawActions := rfl
          rw [List.foldlM_cons, hstep, ok_bind, ih (hself.withTop hstack hframe') rfl hrest, htext,
            RegisterFrame.insert_append hframe hinsert]
          simp [EngineAction.isKept, EngineAction.isRedrawn]
      | deleteBack => exact (hdeletes (by simp)).elim
      | clearPreedit | updatePreedit preedit =>
          exact hother [] true rfl (by simp [interceptStep]) rfl (by simp [EngineAction.isRedrawn])
      | showCandidates page focused selKeys | hideCandidates | updateStatus indicator =>
          exact hother [_] needPreedit rfl rfl rfl (by simp [EngineAction.isRedrawn])
      | passthrough =>
          exact hother [] needPreedit rfl (by simp [interceptStep]) rfl
            (by simp [EngineAction.isRedrawn])

/-- In a registration the top frame takes the text, and the preedit is drawn behind the actions
that are kept. -/
theorem interceptForRegister_eq (hself : self.Wf) (hstack : self.registerStack = frame :: frames)
    {rawActions : List EngineAction} (hraw : RedrawsText rawActions) {frame' : RegisterFrame}
    (hinsert : frame.insert (committedText rawActions) = .ok frame') :
    self.interceptForRegister rawActions = (do
      let preedit ← SkkEngine.preeditAction { self with registerStack := frame' :: frames }
      .ok ({ self with registerStack := frame' :: frames },
        rawActions.filter EngineAction.isKept ++ [preedit])) := by
  unfold interceptForRegister
  rw [foldlM_interceptStep_eq rawActions hself hstack hraw.2, hinsert, ok_bind, ok_bind]
  dsimp only
  rw [hraw.1, if_pos (by simp)]
  rfl

end Frames

/-! ### The handler and what follows it -/

section Press
variable [DictionaryProvider δ]

/-- A registration takes what the handler commits. The handler may itself have opened the
registration or a frame of it: the stack is that of the state the handler leaves. -/
def conclude (r : SkkEngine δ × List EngineAction) : Partial (SkkEngine δ × List EngineAction) :=
  if !r.1.registerStack.isEmpty then r.1.interceptForRegister r.2 else .ok r

omit [DictionaryProvider δ] in
/-- Without a registration the answer of the handler is the answer. -/
theorem conclude_nil {r : SkkEngine δ × List EngineAction} (hstack : r.1.registerStack = []) :
    conclude r = .ok r := by
  rw [conclude, if_neg (by simp [hstack])]

omit [DictionaryProvider δ] in
/-- With a registration it is redirected. -/
theorem conclude_cons {r : SkkEngine δ × List EngineAction} (hstack : r.1.registerStack ≠ []) :
    conclude r = r.1.interceptForRegister r.2 := by
  rw [conclude, if_pos (by simpa using hstack)]

omit [DictionaryProvider δ] in
/-- The redirection does not fail in a well-formed state. -/
theorem conclude_runs {r : SkkEngine δ × List EngineAction} (hwf : r.1.Wf) :
    Runs (conclude r) fun _ => True := by
  unfold conclude
  refine Runs.ite (fun _ => ?_) fun _ => runs_ok.mpr trivial
  exact (interceptForRegister_runs hwf r.2).mono fun _ _ => trivial

omit [DictionaryProvider δ] in
/-- Only the buffer of the top frame is edited. `conclude` routes the text that a handler
commits into the frame, and redraws the prompt. The number of frames, their targets and the
frames below the top stay what they were. -/
theorem conclude_yields (r : SkkEngine δ × List EngineAction) :
    Yields (conclude r) fun r' => ∃ stack,
      List.Forall₂ RegisterFrame.SameTarget r.1.registerStack stack ∧
        r'.1 = { r.1 with registerStack := stack } := by
  have hrefl : ∀ frames : List RegisterFrame,
      List.Forall₂ RegisterFrame.SameTarget frames frames := fun frames =>
    List.forall₂_same.mpr fun frame _ => .refl frame
  cases hstack : r.1.registerStack with
  | nil =>
      rw [conclude_nil hstack]
      exact yields_ok.mpr ⟨[], .nil, by rw [← hstack]⟩
  | cons frame frames =>
      rw [conclude_cons (by simp [hstack])]
      unfold interceptForRegister
      refine (foldlM_interceptStep_yields r.2 hstack [] false).bind ?_
      rintro ⟨self', result, needPreedit⟩ ⟨frame', hreceive, hself'⟩
      have htarget := RegisterFrame.foldlM_receive_sameTarget r.2 frame frame' hreceive
      dsimp only at hself' ⊢
      -- whether the prompt is drawn again does not matter for the state
      refine Yields.ite (fun _ => ?_) fun _ => ?_
      · refine Yields.bind (Yields.of_forall fun _ => trivial) fun _ _ => ?_
        exact yields_pure.mpr ⟨frame' :: frames, .cons htarget (hrefl frames), hself'⟩
      · exact yields_ok.mpr ⟨frame' :: frames, .cons htarget (hrefl frames), hself'⟩

/-- The status update that ends a press: it is sent only when the indicator has changed. -/
def withStatus (before : Str) (r : SkkEngine δ × List EngineAction) :
    SkkEngine δ × List EngineAction :=
  (r.1, if r.1.currentModeIndicator ≠ before
    then r.2 ++ [.updateStatus r.1.currentModeIndicator] else r.2)

omit [DictionaryProvider δ] in
/-- The update is the last action, whatever was sent before. -/
theorem withStatus_append (before : Str) (state : SkkEngine δ) (more actions : List EngineAction) :
    withStatus before (state, more ++ actions) =
      (state, more ++ (withStatus before (state, actions)).2) := by
  unfold withStatus
  split <;> simp

omit [DictionaryProvider δ] in
/-- The status depends on the state alone, so two results with the same status have the same
actions before it. -/
theorem withStatus_injective {before : Str} {r r' : SkkEngine δ × List EngineAction}
    (h : withStatus before r = withStatus before r') : r = r' := by
  obtain ⟨state, actions⟩ := r
  obtain ⟨state', actions'⟩ := r'
  obtain rfl : state = state' := congrArg Prod.fst h
  have hactions := congrArg Prod.snd h
  unfold withStatus at hactions
  dsimp only at hactions
  split at hactions
  · rw [List.append_cancel_right hactions]
  · rw [hactions]

omit [DictionaryProvider δ] in
/-- What is sent before and the status after a press do not hide a difference. Two handlers can
so be compared by the whole answers to a key. -/
theorem sent_injective (before : Str) (emitted : List EngineAction)
    {x y : Partial (SkkEngine δ × List EngineAction)} :
    ((do
      let r ← x
      .ok (r.1, emitted ++ (withStatus before r).2)) = do
      let r ← y
      .ok (r.1, emitted ++ (withStatus before r).2)) ↔ x = y := by
  refine ⟨fun h => ?_, fun h => by rw [h]⟩
  -- Either both fail, or both return, and then the status can be taken off.
  cases x with
  | error e =>
      cases y with
      | error e' =>
          cases h
          rfl
      | ok r => cases h
  | ok r =>
      cases y with
      | error e => cases h
      | ok r' =>
          have hboth := Prod.mk.inj (Except.ok.inj h)
          have hactions := List.append_cancel_left hboth.2
          rw [withStatus_injective (Prod.ext hboth.1 hactions)]

variable [EucJp] {self : SkkEngine δ} {event : KeyEvent}

/-- A key that is handled: the handler of the press, then the status update. Releases, raw mode
and its toggle keys are out of the way. -/
theorem processKey_eq (hcooks : self.cooks event) :
    self.processKey event = (do
      let r ← self.handleCooked event
      .ok (withStatus self.currentModeIndicator r)) := by
  simp only [cooks, Bool.and_eq_true, Bool.not_eq_true'] at hcooks
  obtain ⟨⟨hpress, hraw⟩, htoggle⟩ := hcooks
  unfold processKey handlePress
  rw [if_neg (by simp [hpress]), if_neg (by simp [hraw]), if_neg (by simp [htoggle])]
  rfl

/-- A key that is not handled changes raw mode at most, and no other field of the engine. -/
theorem processKey_frozen (hcooks : self.cooks event = false) :
    Yields (self.processKey event) fun r => ∃ rawMode, r.1 = { self with rawMode := rawMode } := by
  intro r hr
  have hstep : Step self event r.1 r.2 := hr
  rcases step_cases hstep with ⟨-, rawMode, hstate⟩ | ⟨hcooks', -⟩
  · exact ⟨rawMode, hstate⟩
  · rw [hcooks] at hcooks'
    cases hcooks'

omit [EucJp] in
/-- In a phase with text to flush a registration takes Return and `C-g` alone: an abbreviation,
a reading or an okurigana. -/
theorem registrationKey_of_flushText {text : Str} (hflush : flushText self.phase = some text)
    (hctrlG : isCtrlG event = false) (hreturn : event.key ≠ .returnKey) :
    self.registrationKey event = none := by
  have hready : self.inReadyState = false := by
    unfold inReadyState
    cases hcase : self.phase with
    | «abbrev» buf | midashi kanaBuf romanBuf | okuri headword okuriPrefix kanaBuf => rfl
    | _ =>
        rw [hcase] at hflush
        cases hflush
  unfold registrationKey
  split
  · rfl
  rw [if_neg (by simp [hready]), if_neg (by simp [hctrlG]), hflush]

/-- A press that neither the registration nor the toggle key takes: the phase handler, then the
registration. -/
theorem handleCooked_eq (hkey : self.registrationKey event = none)
    (htoggle : self.isToggle event = false) :
    self.handleCooked event = (do
      let r ← self.dispatch event
      conclude r) := by
  unfold handleCooked
  rw [hkey]
  dsimp only
  rw [if_neg (by simp [htoggle])]
  rfl

end Press

end SkkEngine

end Y2Skk
