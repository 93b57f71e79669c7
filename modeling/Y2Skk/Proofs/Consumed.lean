import Y2Skk.Ipc.Dispatch
import Y2Skk.Proofs.Containment

/-!
# `Y2Skk.Proofs.Consumed`: every key is answered

An adapter forwards a key that no action consumed, so an empty answer types the key into
the application. `answered_iff_of_session` shows that there is one such answer: the purge
confirmation, outside a registration, to a key it means to swallow.

## What is asked of an answer

`Answered` is about the actions of one press, as an adapter receives them: they are not
empty, the key is forwarded only when one of them asks for it (`Passthrough` or
`DeleteBack`), and in the purge confirmation no action asks for it. The dispatcher is the
shared one of `Ipc.Dispatch`, so the statement holds for every sink, that is for every
adapter.

## The proof

A press is answered by the raw mode, by a registration, or by the handler of the phase. A
registration redirects what the handler commits and draws its own preedit, so its answer
is never empty. The handlers of all phases answer with something, except
`handle_purge_confirm` for the keys that `ignores` lists; there the engine keeps its state
as well.
-/

set_option autoImplicit false

namespace Y2Skk

open Outcome Utf8 Transition

/-- An action that does not leak text to the application does not ask for the key either. -/
theorem asks_of_leaks {a : EngineAction} (h : a.leaks = false) : a.asks = false := by
  cases a <;> simp_all [EngineAction.leaks, EngineAction.asks]

/-- Actions that a registration has redirected ask for no key. -/
theorem Shielded.asks {actions : List EngineAction} (h : Shielded actions) :
    ∀ a ∈ actions, a.asks = false := by
  intro a ha
  exact asks_of_leaks (h.2 a ha)

namespace SkkEngine

variable {δ : Type}

/-- The phase is the purge confirmation. -/
def confirmsPurge (self : SkkEngine δ) : Bool :=
  match self.phase with
  | .purgeConfirm _ _ _ => true
  | _ => false

/-- Leaving raw mode always draws something: the preedit of the phase, or its absence. So the
toggle key that leaves raw mode is never answered with an empty list. -/
theorem renderCurrentPhase_yields (self : SkkEngine δ) :
    Yields self.renderCurrentPhase fun actions => actions ≠ [] := by
  have hdrawn : Yields (do return [← self.preeditAction]) fun actions => actions ≠ [] := by
    refine Yields.bind (Yields.of_forall fun _ => trivial) fun a _ => ?_
    exact yields_pure.mpr (by simp)
  unfold renderCurrentPhase
  cases self.phase with
  | ascii | wideAscii => exact yields_ok.mpr (by simp)
  | hiragana | katakana | halfWidthKatakana =>
      exact Yields.ite (fun _ => yields_ok.mpr (by simp)) fun _ => hdrawn
  | selecting s =>
      refine Yields.bind (Yields.of_forall fun _ => trivial) fun preedit _ => ?_
      refine Yields.bind (Yields.of_forall fun _ => trivial) fun page _ => ?_
      cases page with
      | none => exact yields_pure.mpr (by simp)
      | some a => exact yields_pure.mpr (by simp)
  | _ => exact hdrawn

section Answers
variable [DictionaryProvider δ]

/-- The purge confirmation passes nothing on, neither text nor the key. Some of its keys get no
action at all, though, and those reach the application by way of `dispatch`. -/
theorem handlePurgeConfirm_quiet {self : SkkEngine δ} {s : Selection} {buf : Str}
    {returnMode : KanaMode} (hphase : self.phase = .purgeConfirm s buf returnMode)
    (event : KeyEvent) :
    Yields (self.handlePurgeConfirm event buf) fun r => ∀ a ∈ r.2, a.leaks = false := by
  have hdrawn : ∀ buf', Yields (self.updatePurgeBuf buf') fun r => ∀ a ∈ r.2, a.leaks = false := by
    intro buf'
    unfold updatePurgeBuf
    rw [hphase]
    refine (redraw_yields _).mono ?_
    rintro _ ⟨preedit, rfl⟩
    simp [EngineAction.leaks]
  unfold handlePurgeConfirm
  refine Yields.ite (fun _ => ?_) fun _ => Yields.ite (fun _ => hdrawn _) fun _ => ?_
  · refine Yields.ite (fun _ => ?_) fun _ => Yields.ite (fun _ => ?_) fun _ => by simp
    · -- `yes` purges the candidate, and `no` goes back to the selection.
      unfold executePurge
      rw [hphase]
      refine Yields.bind (Yields.of_forall fun _ => trivial) fun chosen _ => ?_
      exact yields_ok.mpr (by simp [EngineAction.leaks])
    · unfold cancelPurge
      rw [hphase]
      refine (listingShowAction_yields self _ _).bind fun page hpage => ?_
      refine (preeditAction_yields _).bind ?_
      rintro _ ⟨preedit, rfl⟩
      refine yields_pure.mpr ?_
      cases page with
      | none => simp [EngineAction.leaks]
      | some a =>
          obtain ⟨rows, keys, rfl⟩ := hpage a rfl
          simp [EngineAction.leaks]
  · split
    · exact Yields.ite (fun _ => hdrawn _) fun _ => by simp
    · simp

variable [EucJp]

/-- The purge confirmation gets a key that it ignores, outside a registration. -/
def swallows (self : SkkEngine δ) (event : KeyEvent) : Bool :=
  !self.rawMode && !self.isRawToggle event && self.registerStack.isEmpty &&
    !self.isToggle event && self.ignores event

/-- What the actions of a key say: the key is answered, and in the purge confirmation it is not
passed on. This is the part that the handlers decide, before the dispatcher of the adapter sees
the actions. -/
def Answers (start : SkkEngine δ) (actions : List EngineAction) : Prop :=
  actions ≠ [] ∧ (start.confirmsPurge → ∀ a ∈ actions, a.asks = false)

/-- In a registration every key is answered. Finishing the outermost frame answers with its
commit; in the other cases the interception leaves a nonempty list that asks for nothing to be
passed on. -/
theorem Registered.answers {self : SkkEngine δ} {event : KeyEvent} {frame : RegisterFrame}
    {frames : List RegisterFrame} {r : SkkEngine δ × List EngineAction}
    (h : Registered self event frame frames r) : self.Answers r.2 := by
  cases h with
  | handled _ _ _ _ hshielded => exact ⟨hshielded.1, fun _ => hshielded.asks⟩
  | edited _ _ hshielded => exact ⟨hshielded.1, fun _ => hshielded.asks⟩
  | finished _ _ _ _ hshielded => exact ⟨hshielded.1, fun _ => hshielded.asks⟩
  | finishedLast _ _ _ => exact ⟨by simp, fun _ => by simp [EngineAction.asks]⟩
  | cancelled _ _ hshielded => exact ⟨hshielded.1, fun _ => hshielded.asks⟩
  | cancelledLast _ _ hshielded => exact ⟨hshielded.1, fun _ => hshielded.asks⟩

/-- Outside a registration a key is answered unless the purge confirmation swallows it. In that
case nothing else happens either. -/
theorem handleCooked_answers {self : SkkEngine δ} (hself : self.Wf) (event : KeyEvent)
    (hstack : self.registerStack = []) :
    Yields (self.handleCooked event) fun r =>
      if self.isToggle event = false ∧ self.ignores event then r = (self, [])
      else self.Answers r.2 := by
  unfold handleCooked
  rw [registrationKey_nil hstack]
  refine Yields.ite (fun htoggle => ?_) fun htoggle => ?_
  · rw [yields_ok, if_neg (by simp [htoggle])]
    exact ⟨by simp [toggle], fun _ => by simp [toggle, EngineAction.asks]⟩
  intro r hr
  have htoggle' : self.isToggle event = false := by simpa using htoggle
  cases hdispatch : self.dispatch event with
  | error e => rw [hdispatch] at hr; cases hr
  | ok raw =>
      have hpost := (dispatch_post hself event).of_ok hdispatch
      have hhandled := dispatch_handled self event raw hdispatch
      rw [hdispatch, ok_bind] at hr
      dsimp only at hr
      by_cases hignored : self.ignores event
      · rw [if_pos hignored] at hhandled
        rw [if_pos ⟨htoggle', hignored⟩]
        subst hhandled
        rw [if_neg (by simp [hstack])] at hr
        cases hr
        rfl
      rw [if_neg hignored] at hhandled
      rw [if_neg fun h => hignored h.2]
      cases hopen : raw.1.registerStack with
      | nil =>
          rw [if_neg (by simp [hopen])] at hr
          cases hr
          refine ⟨hhandled.answers, fun hpurge => ?_⟩
          unfold confirmsPurge at hpurge
          split at hpurge
          · rename_i s buf returnMode hphase
            unfold SkkEngine.dispatch at hdispatch
            rw [hphase] at hdispatch
            intro a ha
            exact asks_of_leaks (handlePurgeConfirm_quiet hphase event raw hdispatch a ha)
          · cases hpurge
      | cons top below =>
          -- The handler has opened a registration, which redirects the actions.
          rw [if_pos (by simp [hopen])] at hr
          obtain ⟨hshielded, -⟩ := interceptForRegister_yields hpost.wf hopen hhandled.deletes r hr
          exact ⟨hshielded.1, fun _ => hshielded.asks⟩

/-- The same for a press with raw mode: in raw mode every key is passed through, and the keys
that toggle it are answered with what they draw. -/
theorem handlePress_answers {self : SkkEngine δ} (hself : self.Wf) (event : KeyEvent) :
    Yields (self.handlePress event) fun r =>
      if self.swallows event then r = (self, [])
      else r.2 ≠ [] ∧ (self.rawMode = false → self.confirmsPurge → ∀ a ∈ r.2, a.asks = false) := by
  unfold handlePress
  -- in raw mode the key is passed on, or it ends the mode and the phase is drawn again
  by_cases hraw : self.rawMode
  · rw [if_pos hraw]
    have hswallows : self.swallows event = false := by simp [swallows, hraw]
    simp only [hswallows, Bool.false_eq_true, if_false]
    refine Yields.ite (fun _ => ?_) fun _ => ?_
    · refine (renderCurrentPhase_yields _).bind fun actions hactions => yields_pure.mpr ?_
      exact ⟨hactions, fun h => by rw [hraw] at h; cases h⟩
    · exact yields_ok.mpr ⟨by simp, fun h => by rw [hraw] at h; cases h⟩
  rw [if_neg hraw]
  have hraw' : self.rawMode = false := by simpa using hraw
  by_cases htoggle : self.isRawToggle event
  · rw [if_pos htoggle]
    have hswallows : self.swallows event = false := by simp [swallows, htoggle]
    simp only [hswallows, Bool.false_eq_true, if_false]
    exact yields_ok.mpr ⟨by simp, fun _ _ => by simp [EngineAction.asks]⟩
  rw [if_neg htoggle]
  -- outside a registration the purge confirmation can swallow the key; inside one the prompt is
  -- drawn after every key
  cases hstack : self.registerStack with
  | nil =>
      have hswallows : self.swallows event = true ↔
          self.isToggle event = false ∧ self.ignores event = true := by
        simp [swallows, hraw', htoggle, hstack]
      refine (handleCooked_answers hself event hstack).mono fun r hr => ?_
      by_cases h : self.swallows event
      · rw [if_pos h]
        rwa [if_pos (hswallows.mp h)] at hr
      · rw [if_neg h]
        rw [if_neg fun h' => h (hswallows.mpr h')] at hr
        exact ⟨hr.1, fun _ => hr.2⟩
  | cons frame frames =>
      have hswallows : self.swallows event = false := by simp [swallows, hstack]
      simp only [hswallows, Bool.false_eq_true, if_false]
      refine (handleCooked_registered hself hstack).mono fun r hr => ?_
      exact ⟨hr.answers.1, fun _ => hr.answers.2⟩

/-- A key press is answered: its actions are not empty, an adapter forwards the key only
when they ask for it, and it does not forward a key of the purge confirmation. -/
structure Answered (start : SkkEngine δ) (actions : List EngineAction) : Prop where
  answers : actions ≠ []
  asked : ∀ {σ : Type} [ActionSink σ] (sink : σ),
    (Y2Skk.dispatch (actions.map IpcAction.ofEngine) sink).1.consumed = false →
      .passthrough ∈ actions ∨ .deleteBack ∈ actions
  purge : start.rawMode = false → start.confirmsPurge → ∀ {σ : Type} [ActionSink σ] (sink : σ),
    (Y2Skk.dispatch (actions.map IpcAction.ofEngine) sink).1.consumed = true

omit [DictionaryProvider δ] [EucJp] in
/-- From the actions of the engine to what an adapter makes of them: the dispatcher reports a
key as consumed when some action is not one of those that ask for it. -/
theorem answered_of_ne_nil {self : SkkEngine δ} {actions : List EngineAction}
    (hne : actions ≠ [])
    (hpurge : self.rawMode = false → self.confirmsPurge → ∀ a ∈ actions, a.asks = false) :
    self.Answered actions := by
  obtain ⟨a, ha⟩ := List.exists_mem_of_ne_nil actions hne
  refine ⟨hne, fun sink hconsumed => ?_, fun hraw hphase _ _ sink => ?_⟩
  · rw [dispatch_ofEngine] at hconsumed
    have hasks : a.asks = true := by simpa using List.any_eq_false.mp hconsumed a ha
    cases a <;> simp_all [EngineAction.asks]
  · rw [dispatch_ofEngine]
    exact List.any_eq_true.mpr ⟨a, ha, by rw [hpurge hraw hphase a ha]; rfl⟩

/-- In every state of every run a key press is answered, exactly unless the purge confirmation
swallows it outside a registration. The condition is on the state before the key and on the key;
the engine answers in any case, since it cannot fail there. -/
theorem answered_iff_of_session {kanaTable : KanaTable} {keybindings : SkkKeybindings}
    {lispDirectives : Bool} {initialPhase : SkkPhase} {providers : List δ} {history : History δ}
    {self : SkkEngine δ}
    (hrun : Session (fresh kanaTable keybindings lispDirectives initialPhase providers)
      history self)
    {event : KeyEvent} (hpress : event.isPress) :
    ∃ self' actions, Step self event self' actions ∧
      (self.Answered actions ↔ self.swallows event = false) := by
  have hself := Session.wf (fresh_wf ..) hrun
  obtain ⟨r, hstep, -⟩ := processKey_wf hself event
  refine ⟨r.1, r.2, hstep, ?_⟩
  -- The press decides the actions, and the status update at its end can only add one.
  have hpressed := handlePress_answers hself event
  unfold processKey at hstep
  rw [hpress] at hstep
  cases hhandled : self.handlePress event with
  | error e => rw [hhandled] at hstep; cases hstep
  | ok r' =>
      rw [hhandled] at hstep
      cases hstep
      have hanswers := hpressed r' hhandled
      dsimp only at hanswers ⊢
      by_cases hswallows : self.swallows event
      · -- Nothing changes, so there is no status update either.
        rw [if_pos hswallows] at hanswers
        subst hanswers
        rw [hswallows, if_neg (by simp)]
        exact ⟨fun h => (h.answers rfl).elim, fun h => by cases h⟩
      · rw [if_neg hswallows] at hanswers
        refine ⟨fun _ => by simpa using hswallows, fun _ => ?_⟩
        split
        · refine answered_of_ne_nil (by simp) fun hraw hphase a ha => ?_
          rcases List.mem_append.mp ha with ha | ha
          · exact hanswers.2 hraw hphase a ha
          · cases List.mem_singleton.mp ha
            rfl
        · exact answered_of_ne_nil hanswers.1 hanswers.2

end Answers

/-! ### The key that is typed into the application -/

/-- The keys that ask to purge the first candidate of `1`. -/
def confirmKeys : List KeyEvent :=
  KeyEvent.typed ['/', '1'] ++ [.press .space {}, .press (.char 'X') {}]

/-- Return on the empty answer of the purge confirmation is not answered: the list of actions is
empty, so the adapter types the key into the application. -/
theorem return_not_answered :
    letI := EucJp.empty
    ∃ (history : History Empty) (self self' : SkkEngine Empty),
      Session (fresh ⟨[], [], []⟩ {} true .hiragana []) history self ∧
      history.map Visit.input = confirmKeys ∧ self.confirmsPurge ∧
      Step self (.press .returnKey {}) self' [] ∧ ¬ self.Answered [] := by
  let _ := EucJp.empty
  have hrecord := exists_session (fresh ⟨[], [], []⟩ {} true .hiragana []) confirmKeys
    (fun _ (self : SkkEngine Empty) => self.confirmsPurge ∧
      ∃ r ∈ (self.processKey (.press .returnKey {})).toOption, r.2 = [])
    (by decide +kernel)
  obtain ⟨history, self, hrun, hinputs, hphase, ⟨self', actions⟩, hr, rfl⟩ := hrecord
  exact ⟨history, self, self', hrun, hinputs, hphase, ok_of_mem_toOption hr,
    fun h => h.answers rfl⟩

/-- Typing `a` in a kana mode is answered, from the start of a session. The condition is
evaluated on the fresh engine. -/
theorem answered_iff_of_session_typed :
    letI := EucJp.empty
    ∃ (history : History Empty) (self self' : SkkEngine Empty) (actions : List EngineAction),
      Session (fresh vowelTable {} true .hiragana []) history self ∧
      Step self (.press (.char 'a') {}) self' actions ∧ self.Answered actions := by
  let _ := EucJp.empty
  have hrun : Session (fresh vowelTable {} true .hiragana []) []
      (fresh vowelTable {} true .hiragana [] : SkkEngine Empty) := .nil
  have hpress : (KeyEvent.press (.char 'a') {}).isPress := rfl
  obtain ⟨self', actions, hstep, hiff⟩ := answered_iff_of_session hrun hpress
  exact ⟨[], _, self', actions, hrun, hstep, hiff.mpr (by decide)⟩

end SkkEngine

end Y2Skk
