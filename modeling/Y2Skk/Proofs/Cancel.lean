import Y2Skk.Proofs.Containment
import Y2Skk.Proofs.Stack

/-!
# `Y2Skk.Proofs.Cancel`: a cancelled registration

A frame keeps the reading it was opened for, and whether this was typed in abbrev mode.
The script of the reading and the abbrev flag are fields of the engine, and the readings
inside the registration set them as well.

* `step_ownStyle` and `session_ownStyle`: these two fields are what the last key that
  changed them (`restyles`) left there;
* `session_hasBottom`: the outermost frame keeps its reading while it is open;
* `session_converting`: from the reading to its registration nothing else changes.

`restores_iff_of_session` puts the three together: dropping the outermost frame restores
the composition, exactly when the abbrev flag said where the reading was typed and the
keys inside left the two fields as they were.

## The run

The statement follows the run in four parts. From the state with the reading one key
starts the conversion; Space goes through the candidates until the registration is entered
(there may be none, and then the first key enters it at once); any keys are pressed
inside, with further registrations opened and closed; and one key closes the outermost
frame without finishing it.

## The condition

`restyles` and `styleAfter` are read off the state before a key and the key: a key that reaches
a phase handler sets the script and the flag when it starts a reading or a code, and leaves them
alone otherwise. So the condition speaks of what is typed inside the registration and not of
what the cancel does.

The dictionaries are the third thing a cancel must leave alone. It does, while the keys
inside may learn and purge.
-/

set_option autoImplicit false

namespace Y2Skk

open Outcome Utf8 Transition

namespace SkkEngine

variable {δ : Type} [DictionaryProvider δ]

/-! ### A key outside a registration -/

section Outside
variable [EucJp] {self : SkkEngine δ} {event : KeyEvent}

/-- What a key does outside a registration: the phase handler gets it, and a frame it opens
takes what it commits. At most one frame can be opened, and the handler deletes nothing before
its last action. -/
theorem handleCooked_outside (hself : self.Wf) (hstack : self.registerStack = [])
    (htoggle : self.isToggle event = false) :
    Yields (self.handleCooked event) fun r => ∃ raw, self.dispatch event = .ok raw ∧
      (raw.1.registerStack = [] ∧ r = raw ∨
        ∃ frame frame', raw.1.registerStack = [frame] ∧ frame.SameTarget frame' ∧
          r.1 = { raw.1 with registerStack := [frame'] }) := by
  intro r hr
  unfold handleCooked at hr
  rw [registrationKey_nil hstack] at hr
  dsimp only at hr
  rw [if_neg (by simp [htoggle])] at hr
  cases hdispatch : self.dispatch event with
  | error e => rw [hdispatch] at hr; cases hr
  | ok raw =>
      rw [hdispatch, ok_bind] at hr
      refine ⟨raw, rfl, ?_⟩
      have hpost : Post (self.typedTrigger event) (self.dropsRomaji event) self raw :=
        (dispatch_post hself event).of_ok hdispatch
      have hhandled := dispatch_handled self event raw hdispatch
      have hdeletes : EngineAction.deleteBack ∉ raw.2.dropLast := by
        dsimp only at hhandled
        split at hhandled
        · rw [hhandled]
          simp
        · exact hhandled.deletes
      -- without a frame after the handler its result is the answer; with one the handler has
      -- opened it, since there was none before
      cases hopened : raw.1.registerStack with
      | nil =>
          rw [if_neg (by simp [hopened])] at hr
          cases hr
          exact .inl ⟨rfl, rfl⟩
      | cons frame frames =>
          have hframes : frames = [] := by
            rcases hpost.stack with hsame | ⟨frame', hpushed⟩
            · rw [hopened, hstack] at hsame
              cases hsame
            · rw [hopened, hstack] at hpushed
              cases hpushed
              rfl
          subst hframes
          rw [if_pos (by simp [hopened])] at hr
          obtain ⟨-, frame', hreceives, hstate⟩ :=
            interceptForRegister_yields hpost.wf hopened hdeletes r hr
          exact .inr ⟨frame, frame', rfl, hreceives.sameTarget, hstate⟩

end Outside

/-! ### The script and the abbrev flag -/

section Style
variable [EucJp] {self self' start : SkkEngine δ} {event : KeyEvent} {actions : List EngineAction}

/-- The style the key sets, when it is not the one there was. A key that the registration takes
for itself, a toggle key, and a key in raw mode set none. -/
def restyles (self : SkkEngine δ) (event : KeyEvent) : Option (KanaMode × Bool) :=
  if self.cooks event ∧ (self.registrationKey event).isNone ∧ !self.isToggle event ∧
      self.styleAfter event ≠ self.ownStyle then some (self.styleAfter event)
  else none

/-- What the phase handler leaves is `styleAfter`, which looks at the state before the key
only. -/
theorem dispatch_ownStyle {raw : SkkEngine δ × List EngineAction}
    (hdispatch : self.dispatch event = .ok raw) : raw.1.ownStyle = self.styleAfter event := by
  have hhandled := dispatch_handled self event raw hdispatch
  dsimp only at hhandled
  split at hhandled
  · rename_i hignored
    rw [hhandled]
    -- Only the purge confirmation ignores keys.
    unfold ignores at hignored
    unfold styleAfter
    cases hphase : self.phase <;> simp_all
  · exact hhandled.style

omit [EucJp] in
/-- A key that reaches the phase handler leaves the style it sets, or the one there was. -/
theorem restyles_getD (hcooks : self.cooks event) (hkey : self.registrationKey event = none)
    (htoggle : self.isToggle event = false) :
    (self.restyles event).getD self.ownStyle = self.styleAfter event := by
  unfold restyles
  by_cases hstyle : self.styleAfter event = self.ownStyle
  · simp [hstyle]
  · simp [hcooks, hkey, htoggle, hstyle]

/-- A key the registration takes for itself leaves the style alone, also one that finishes or
cancels the frame. -/
theorem Registered.ownStyle {frame : RegisterFrame} {frames : List RegisterFrame}
    (hkey : (self.registrationKey event).isSome) {r : SkkEngine δ × List EngineAction}
    (h : Registered self event frame frames r) : r.1.ownStyle = self.ownStyle := by
  cases h with
  | handled hnone _ _ _ _ =>
      rw [hnone] at hkey
      cases hkey
  | edited _ _ _ => rfl
  | finished _ _ _ _ _ => rfl
  | finishedLast _ _ _ => rfl
  | cancelled _ _ _ => rfl
  | cancelledLast _ _ _ => exact restored_ownStyle ..

/-- A step leaves the style the key sets, or the one there was. The cases are those of a press:
outside a registration with and without the toggle key, and inside one with a key the
registration takes and with one it leaves to the handler. -/
theorem step_ownStyle (hself : self.Wf) (hstep : Step self event self' actions) :
    self'.ownStyle = (self.restyles event).getD self.ownStyle := by
  -- An event that is no press, or raw mode, sets no style.
  rcases step_cases hstep with ⟨hnot, rawMode, rfl⟩ | ⟨hcooks, r, -, hcooked, -, rfl, -⟩
  · simp [restyles, hnot, SkkEngine.ownStyle]
  cases hstack : self.registerStack with
  | nil =>
      by_cases htoggle : self.isToggle event
      · have hnone : self.restyles event = none := by simp [restyles, htoggle]
        rw [handleCooked_toggle hstack htoggle] at hcooked
        cases hcooked
        rw [hnone]
        unfold toggle
        split <;> rfl
      · have hoff : self.isToggle event = false := by simpa using htoggle
        rw [restyles_getD hcooks (registrationKey_nil hstack event) hoff]
        obtain ⟨raw, hdispatch, ⟨-, rfl⟩ | ⟨frame, frame', -, -, hstate⟩⟩ :=
          handleCooked_outside hself hstack hoff r hcooked
        · exact dispatch_ownStyle hdispatch
        · rw [hstate]
          exact dispatch_ownStyle hdispatch
  | cons frame frames =>
      have hregistered := handleCooked_registered hself hstack r hcooked
      cases hkey : self.registrationKey event with
      | some early =>
          have hnone : self.restyles event = none := by simp [restyles, hkey]
          rw [hnone]
          exact hregistered.ownStyle (by simp [hkey])
      | none =>
          have htoggle : self.isToggle event = false := by simp [isToggle, hstack]
          rw [restyles_getD hcooks hkey htoggle]
          cases hregistered with
          | handled _ hdispatch _ _ _ =>
              have hstyle := dispatch_ownStyle hdispatch
              exact hstyle
          -- In the other cases the registration took the key itself, which `hkey` excludes.
          | edited hsome | finished hsome | finishedLast hsome | cancelled hsome
          | cancelledLast hsome =>
              rw [hkey] at hsome
              cases hsome

/-- The keys of a history that changed the style. -/
def restylings (history : History δ) : List (KanaMode × Bool) :=
  history.filterMap fun v => v.pre.restyles v.input

/-- After a run the style is what the last key that changed it left, or the one of the start
when no key did. -/
theorem session_ownStyle {history : History δ} (hstart : start.Wf)
    (hrun : Session start history self) :
    self.ownStyle = (restylings history).getLast?.getD start.ownStyle := by
  have hboth : self.Wf ∧ self.ownStyle = (restylings history).getLast?.getD start.ownStyle := by
    refine hrun.history (fun history self => self.Wf ∧
      self.ownStyle = (restylings history).getLast?.getD start.ownStyle) (fun _ _ => True)
      ⟨hstart, rfl⟩ ?_ fun _ _ => trivial
    rintro h s event s' actions hrun ⟨hs, hstyle⟩ - hstep
    refine ⟨Session.wf hstart (hrun.snoc hstep), ?_⟩
    rw [step_ownStyle hs hstep, hstyle]
    cases hset : s.restyles event with
    | none => simp [restylings, hset]
    | some style => simp [restylings, hset]
  exact hboth.2

end Style

/-! ### The outermost frame -/

section Bottom
variable [EucJp] {self self' start : SkkEngine δ} {event : KeyEvent} {actions : List EngineAction}
  {frame : RegisterFrame} {frames : List RegisterFrame}

/-- The outermost frame registers the reading of `frame`. Its buffer may have been edited
since. -/
def HasBottom (frame : RegisterFrame) (stack : List RegisterFrame) : Prop :=
  ∃ above frame', stack = above ++ [frame'] ∧ frame.SameTarget frame'

/-- A key opens frames on top, or closes the top frame, or edits it. In each case the frames
below are the same, but for the one that receives the text of a closed one. A frame that is
edited or receives a text keeps its target, that is its reading and its flags. -/
theorem Registered.stack (hstack : self.registerStack = frame :: frames)
    {r : SkkEngine δ × List EngineAction} (h : Registered self event frame frames r) :
    (∃ opened frame', r.1.registerStack = opened ++ frame' :: frames ∧
      frame.SameTarget frame') ∨
    (∃ next next' rest, frames = next :: rest ∧ next.SameTarget next' ∧
      r.1.registerStack = next' :: rest) ∨
    frames = [] ∧ r.1.registerStack = [] := by
  cases h with
  | @handled mid rawActions top below top' actions hkey hdispatch htop hreceives hshielded =>
      have hhandled := dispatch_handled self event _ hdispatch
      dsimp only at hhandled
      split at hhandled
      · cases hhandled
        rw [hstack] at htop
        cases htop
        exact .inl ⟨[], top', rfl, hreceives.sameTarget⟩
      -- the handler leaves the stack alone, or pushes one frame, which then receives the text
      rcases hhandled.stack with hsame | ⟨fresh, hpushed, -⟩
      · dsimp only at hsame
        rw [htop, hstack] at hsame
        cases hsame
        exact .inl ⟨[], top', rfl, hreceives.sameTarget⟩
      · dsimp only at hpushed
        rw [htop, hstack] at hpushed
        cases hpushed
        exact .inl ⟨[top'], frame, rfl, .refl frame⟩
  | edited hkey htarget hshielded => exact .inl ⟨[], _, rfl, htarget⟩
  | finished hkey hfinishing hframes hreceives hshielded =>
      exact .inr (.inl ⟨_, _, _, hframes, hreceives.sameTarget, rfl⟩)
  | finishedLast hkey hfinishing hframes => exact .inr (.inr ⟨hframes, rfl⟩)
  | cancelled hkey hframes hshielded =>
      exact .inr (.inl ⟨_, _, _, hframes, .refl _, hframes⟩)
  | cancelledLast hkey hframes hshielded =>
      exact .inr (.inr ⟨hframes, congrArg Prod.fst (restored_base ..)⟩)

/-- A step inside the registration keeps the reading of the outermost frame, or closes the
frame. The outermost frame is the top one or lies below others, and the two cases read off
`Registered.stack` what the key can do to it. -/
theorem step_hasBottom (hself : self.Wf) {bottom : RegisterFrame}
    (hbottom : HasBottom bottom self.registerStack) (hstep : Step self event self' actions) :
    HasBottom bottom self'.registerStack ∨ self'.registerStack = [] := by
  rcases step_cases hstep with ⟨-, rawMode, rfl⟩ | ⟨-, r, -, hcooked, -, rfl, -⟩
  · exact .inl hbottom
  obtain ⟨above, bottom', hstack, htarget⟩ := hbottom
  cases above with
  | nil =>
      have hregistered := handleCooked_registered hself hstack r hcooked
      rcases hregistered.stack hstack with ⟨opened, frame', hstack', hsame⟩ |
        ⟨next, next', rest, hframes, -, -⟩ | ⟨-, hnil⟩
      · exact .inl ⟨opened, frame', hstack', htarget.trans hsame⟩
      · cases hframes
      · exact .inr hnil
  -- the outermost frame is not the top one, so at most it receives the text of the frame above
  | cons top above =>
      have hregistered := handleCooked_registered hself hstack r hcooked
      rcases hregistered.stack hstack with ⟨opened, top', hstack', -⟩ |
        ⟨next, next', rest, hframes, hsame, hstack'⟩ | ⟨hnil, -⟩
      · exact .inl ⟨opened ++ top' :: above, bottom', by simp [hstack'], htarget⟩
      · rw [hstack']
        cases above with
        | nil =>
            cases hframes
            exact .inl ⟨[], next', rfl, htarget.trans hsame⟩
        | cons next above =>
            cases hframes
            exact .inl ⟨next' :: above, bottom', rfl, htarget⟩
      · simp at hnil

/-- Through a run inside the registration the outermost frame keeps its reading. The run is
inside as long as the stack is not empty before each key. -/
theorem session_hasBottom {history : History δ} (hstart : start.Wf)
    (hrun : Session start history self) {bottom : RegisterFrame}
    (hopened : start.registerStack = [bottom])
    (hinside : ∀ v ∈ history, v.pre.registerStack ≠ []) :
    HasBottom bottom self.registerStack ∨ self.registerStack = [] := by
  have hboth : self.Wf ∧ (HasBottom bottom self.registerStack ∨ self.registerStack = []) := by
    refine hrun.invariant (fun self => self.Wf ∧
      (HasBottom bottom self.registerStack ∨ self.registerStack = []))
      (fun self _ => self.registerStack ≠ [])
      ⟨hstart, .inl ⟨[], bottom, hopened, .refl bottom⟩⟩ ?_ hinside
    rintro s event s' actions ⟨hs, hbottom⟩ hopen hstep
    have hs' : s'.Wf := Session.wf hs (Run.nil.snoc hstep)
    exact ⟨hs', step_hasBottom hs (hbottom.resolve_right hopen) hstep⟩
  exact hboth.2

/-- The only frame is still the one that was opened: it has collected text, and registers what
it did. -/
theorem session_sameTarget {history : History δ} (hstart : start.Wf)
    (hrun : Session start history self) {bottom : RegisterFrame}
    (hopened : start.registerStack = [bottom])
    (hinside : ∀ v ∈ history, v.pre.registerStack ≠ []) (hstack : self.registerStack = [frame]) :
    bottom.SameTarget frame := by
  rcases session_hasBottom hstart hrun hopened hinside with ⟨above, frame', happend, htarget⟩ | hnil
  · have hsingle : [] ++ [frame] = above ++ [frame'] := hstack.symm.trans happend
    obtain ⟨-, hlasts⟩ := List.append_inj' hsingle rfl
    cases hlasts
    exact htarget
  · rw [hstack] at hnil
    cases hnil

/-- A step that closes the outermost frame without finishing it restores its reading: the state
is the one before, with the phase taken from the frame. -/
theorem step_restored (hself : self.Wf) (hstack : self.registerStack = [frame])
    (hcancel : ¬ self.Finishing event frame) (hstep : Step self event self' actions)
    (hclosed : self'.registerStack = []) : self' = self.restored frame := by
  rcases step_cases hstep with ⟨-, rawMode, rfl⟩ | ⟨-, r, -, hcooked, -, rfl, -⟩
  · rw [hstack] at hclosed
    cases hclosed
  · have hregistered := handleCooked_registered hself hstack r hcooked
    cases hregistered with
    | handled _ _ _ _ _ | edited _ _ _ => cases hclosed
    | finished _ _ hframes _ _ | cancelled _ hframes _ => cases hframes
    | finishedLast _ hfinishing _ => exact (hcancel hfinishing).elim
    | cancelledLast _ _ _ => rfl

end Bottom

/-! ### From a reading to its registration -/

section Converting
variable {self start : SkkEngine δ} {midashi : Str}

/-- The reading `midashi` is being converted: one of its candidates is selected, or the
outermost frame registers it, when there were no candidates. -/
def Converts (self : SkkEngine δ) (midashi : Str) : Prop :=
  (self.registerStack = [] ∧
    ∃ s, self.phase = .selecting s ∧ s.midashi = midashi ∧ s.okuri = none) ∨
  ∃ frame, self.registerStack = [frame] ∧ frame.originalMidashi = midashi ∧
    frame.okuriKana = none

/-- A conversion of `midashi` that was started in `start` and has changed nothing else so
far, or one that was given up. -/
structure Converting (start : SkkEngine δ) (midashi : Str) (mid : SkkEngine δ) : Prop where
  dict : mid.dict = start.dict
  style : mid.ownStyle = start.ownStyle
  place : mid.registerStack = [] ∧
      (∀ s, mid.phase.selection? = some s → s.midashi = midashi ∧ s.okuri = none) ∨
    ∃ frame, mid.registerStack = [frame] ∧ frame.originalMidashi = midashi ∧
      frame.isAbbrev = start.midashiIsAbbrev

omit [DictionaryProvider δ] in
/-- A state that differs in the phase alone. -/
theorem Converting.withPhase (h : start.Converting midashi self) (hstack : self.registerStack = [])
    {self' : SkkEngine δ} (hbase : self'.base = self.base) (hstyle : self'.ownStyle = self.ownStyle)
    (hplace : ∀ s, self'.phase.selection? = some s → s.midashi = midashi ∧ s.okuri = none) :
    start.Converting midashi self' where
  dict := (congrArg Prod.snd hbase).trans h.dict
  style := hstyle.trans h.style
  place := .inl ⟨(congrArg Prod.fst hbase).trans hstack, hplace⟩

omit [DictionaryProvider δ] in
/-- Another candidate is focused: the reading stays, and no registration is opened. -/
theorem reselect_converting (h : start.Converting midashi self) (hstack : self.registerStack = [])
    {s : Selection} (hs : s.midashi = midashi ∧ s.okuri = none) (index : Nat)
    {k : EngineAction → Option EngineAction → Partial (SkkEngine δ × List EngineAction)}
    (hk : ∀ preedit page, Yields (k preedit page) fun r =>
      r.1 = { self with phase := .selecting { s with index := index } }) :
    Yields (SkkEngine.preeditAction { self with phase := .selecting { s with index := index } }
      >>= fun preedit => SkkEngine.listingShowAction
        { self with phase := .selecting { s with index := index } } s.candidates index
      >>= k preedit) fun r => start.Converting midashi r.1 := by
  refine Yields.bind (Yields.of_forall fun _ => trivial) fun preedit _ => ?_
  refine Yields.bind (Yields.of_forall fun _ => trivial) fun page _ => ?_
  refine (hk preedit page).mono fun r hr => ?_
  rw [hr]
  refine h.withPhase hstack rfl rfl ?_
  intro s' hs'
  cases hs'
  exact hs

omit [DictionaryProvider δ] in
/-- The next candidate keeps the conversion, and past the last one its frame is opened. The
frame takes the abbrev flag that the conversion was started with. -/
theorem selectNext_converting (h : start.Converting midashi self) (hstack : self.registerStack = [])
    {s : Selection} (hs : s.midashi = midashi ∧ s.okuri = none) :
    Yields (self.selectNext s) fun r => start.Converting midashi r.1 := by
  unfold selectNext
  refine Yields.ite (fun _ => ?_) fun _ => ?_
  · unfold enterRegisterFromSelecting
    refine Yields.bind (Yields.of_forall fun _ => trivial) fun preedit _ => ?_
    have hflag : self.midashiIsAbbrev = start.midashiIsAbbrev := congrArg Prod.snd h.style
    have hframes : (self.pushFrame (self.newFrame s.midashi s.okuriKey s.okuri)).registerStack
        = [self.newFrame s.midashi s.okuriKey s.okuri] := by simp [pushFrame, hstack]
    exact yields_pure.mpr ⟨h.dict, h.style, .inr ⟨_, hframes, hs.1, hflag⟩⟩
  · refine reselect_converting h hstack hs _ fun preedit page => ?_
    cases page <;> exact yields_ok.mpr rfl

/-- The candidate before keeps the conversion, and before the first one it is given up for its
reading. -/
theorem selectPrevious_converting (h : start.Converting midashi self)
    (hstack : self.registerStack = []) {s : Selection}
    (hs : s.midashi = midashi ∧ s.okuri = none) :
    Yields (self.selectPrevious s) fun r => start.Converting midashi r.1 := by
  unfold selectPrevious
  refine Yields.ite (fun _ => ?_) fun _ => ?_
  · unfold backToMidashi
    refine Yields.bind (Yields.of_forall fun _ => trivial) fun preedit _ => ?_
    refine yields_pure.mpr (h.withPhase hstack (updateCompletion_base ..)
      (updateCompletion_ownStyle ..) ?_)
    rw [updateCompletion_eq]
    rintro s' ⟨⟩
  · refine reselect_converting h hstack hs _ fun preedit page => ?_
    cases page <;> exact yields_ok.mpr rfl

/-- Space at the candidates. It shows the next candidate, or the last one is passed and the
registration of the reading opens. Either way the conversion is still that of the reading the
run started from, and neither the dictionaries nor the style of the engine has changed. -/
theorem step_converting [EucJp] {self' : SkkEngine δ} {event : KeyEvent}
    {actions : List EngineAction} (hself : self.Wf) (h : start.Converting midashi self)
    (hstack : self.registerStack = []) {s : Selection} (hphase : self.phase = .selecting s)
    (hspace : event.key = .space) (hstep : Step self event self' actions) :
    start.Converting midashi self' := by
  have hs : s.midashi = midashi ∧ s.okuri = none := by
    rcases h.place with ⟨-, hplace⟩ | ⟨frame, hopen, -⟩
    · exact hplace s (by rw [hphase]; rfl)
    · rw [hstack] at hopen
      cases hopen
  rcases step_cases hstep with ⟨-, rawMode, rfl⟩ | ⟨-, r, -, hcooked, -, rfl, -⟩
  · exact ⟨h.dict, h.style, h.place⟩
  by_cases htoggle : self.isToggle event
  · rw [handleCooked_toggle hstack htoggle] at hcooked
    cases hcooked
    unfold toggle
    rw [hphase]
    exact h.withPhase hstack rfl rfl (by rintro s' ⟨⟩)
  obtain ⟨raw, hdispatch, hresult⟩ :=
    handleCooked_outside hself hstack (by simpa using htoggle) r hcooked
  -- a Space that is bound to cancel goes back by one candidate, any other goes on by one
  have hraw : start.Converting midashi raw.1 := by
    unfold dispatch handleSelecting at hdispatch
    rw [hphase] at hdispatch
    dsimp only at hdispatch
    rw [if_neg (by simp [hspace])] at hdispatch
    by_cases hcancel : event.printableChar.any fun c => decide (c ∈ self.keybindings.cancel)
    · rw [if_pos hcancel] at hdispatch
      exact selectPrevious_converting h hstack hs raw hdispatch
    · rw [if_neg hcancel, if_neg (by simp [hspace]), if_neg (by simp [hspace]),
        if_neg (by simp [hspace]), if_pos hspace] at hdispatch
      exact selectNext_converting h hstack hs raw hdispatch
  rcases hresult with ⟨-, rfl⟩ | ⟨frame, frame', hopened, ⟨committed, cursor, rfl⟩, hstate⟩
  · exact hraw
  · rcases hraw.place with ⟨hnil, -⟩ | ⟨frame', hopened', hmidashi, hflag⟩
    · rw [hopened] at hnil
      cases hnil
    · rw [hopened] at hopened'
      cases hopened'
      rw [hstate]
      exact ⟨hraw.dict, hraw.style, .inr ⟨_, rfl, hmidashi, hflag⟩⟩

variable [EucJp]

/-- A reading is typed, and nothing is pending. -/
def Reads (self : SkkEngine δ) (midashi : Str) : Prop :=
  self.registerStack = [] ∧ (self.phase = .abbrev midashi ∨ self.phase = .midashi midashi [])

/-- The key that starts the conversion changes nothing else. It was typed in a reading outside a
registration, so no candidate was committed by it. What it leads to is a selection with the
reading, or a registration frame for it that remembers the abbreviation flag. -/
theorem step_converts {self' : SkkEngine δ} {event : KeyEvent} {actions : List EngineAction}
    (hself : self.Wf) (hreads : self.Reads midashi) (hstep : Step self event self' actions)
    (hconverts : self'.Converts midashi) : self.Converting midashi self' := by
  obtain ⟨hstack, hphase⟩ := hreads
  have hnone : self.phase.selection? = none := by
    rcases hphase with h | h <;> rw [h] <;> rfl
  -- without a selection and without a frame nothing is converted, which excludes the toggles
  have hidle : ∀ mid : SkkEngine δ, mid.registerStack = [] → mid.phase.selection? = none →
      ¬ mid.Converts midashi := by
    rintro mid hmid hselection (⟨-, s, hs, -⟩ | ⟨frame, hframe, -⟩)
    · rw [hs] at hselection
      cases hselection
    · rw [hmid] at hframe
      cases hframe
  rcases step_cases hstep with ⟨-, rawMode, rfl⟩ | ⟨-, r, -, hcooked, -, rfl, -⟩
  · exact (hidle _ hstack hnone hconverts).elim
  by_cases htoggle : self.isToggle event
  · rw [handleCooked_toggle hstack htoggle] at hcooked
    cases hcooked
    refine (hidle _ ?_ ?_ hconverts).elim
    · unfold toggle
      split <;> exact hstack
    · unfold toggle
      split <;> rfl
  obtain ⟨raw, hdispatch, hresult⟩ :=
    handleCooked_outside hself hstack (by simpa using htoggle) r hcooked
  have hhandled : Handled (self.strayText event) self.ownStyle self raw := by
    have h := dispatch_handled self event raw hdispatch
    dsimp only at h
    have hignores : self.ignores event = false := by
      unfold ignores
      rcases hphase with h | h <;> rw [h]
    have hstyle : self.styleAfter event = self.ownStyle := by
      unfold styleAfter
      rcases hphase with h | h <;> rw [h]
    rw [if_neg (by simp [hignores]), hstyle] at h
    exact h
  rcases hresult with ⟨hnil, rfl⟩ | ⟨frame, frame', hopened, ⟨committed, cursor, rfl⟩, hstate⟩
  · refine ⟨hhandled.dict hnone, hhandled.style, ?_⟩
    rcases hconverts with ⟨-, s, hs, hmidashi⟩ | ⟨frame, hframe, -⟩
    · refine .inl ⟨hnil, fun s' hs' => ?_⟩
      rw [hs] at hs'
      cases hs'
      exact hmidashi
    · rw [hnil] at hframe
      cases hframe
  · rw [hstate] at hconverts ⊢
    refine ⟨hhandled.dict hnone, hhandled.style, ?_⟩
    rcases hconverts with ⟨hnil, -⟩ | ⟨frame', hframe, hmidashi, -⟩
    · cases hnil
    · refine .inr ⟨frame', hframe, hmidashi, ?_⟩
      cases hframe
      rcases hhandled.stack with hsame | ⟨fresh, hpushed, hfresh, -⟩
      · rw [hopened, hstack] at hsame
        cases hsame
      · rw [hopened, hstack] at hpushed
        cases hpushed
        exact hfresh.2.2.trans (congrArg Prod.snd hhandled.style)

/-- Pressing Space at the candidates until the registration is entered changes nothing else of
what the conversion was started with. -/
theorem session_converting {conv : SkkEngine δ} {spaces : History δ} (hconv : conv.Wf)
    (h : start.Converting midashi conv) (hrun : Session conv spaces self)
    (hspaces : ∀ v ∈ spaces, v.input.key = .space ∧ v.pre.registerStack = [] ∧
      ∃ s, v.pre.phase = .selecting s) :
    start.Converting midashi self := by
  have hboth : self.Wf ∧ start.Converting midashi self := by
    refine hrun.invariant (fun self => self.Wf ∧ start.Converting midashi self)
      (fun self event => event.key = .space ∧ self.registerStack = [] ∧
        ∃ s, self.phase = .selecting s) ⟨hconv, h⟩ ?_ hspaces
    rintro mid event mid' actions ⟨hmid, hmidConverts⟩ ⟨hspace, hstack, s, hphase⟩ hstep
    exact ⟨Session.wf hmid (Run.nil.snoc hstep),
      step_converting hmid hmidConverts hstack hphase hspace hstep⟩
  exact hboth.2

end Converting

/-! ### Cancelling -/

section Cancelling
variable [EucJp]

/-- The phase is the reading of an abbreviation. -/
def inAbbrev (self : SkkEngine δ) : Bool :=
  match self.phase with
  | .abbrev _ => true
  | _ => false

omit [DictionaryProvider δ] [EucJp] in
/-- The abbrev flag decides which reading a cancel leads back to. -/
theorem Reads.phase_iff {self : SkkEngine δ} {midashi : Str} (h : self.Reads midashi) :
    (if self.midashiIsAbbrev then SkkPhase.abbrev midashi else .midashi midashi []) = self.phase ↔
      self.midashiIsAbbrev = self.inAbbrev := by
  unfold inAbbrev
  rcases h.2 with hphase | hphase <;> rw [hphase] <;> cases self.midashiIsAbbrev <;> simp

/-- A registration that was entered from the reading in `start` and left in `last` by a
cancel leads `back` to that reading. -/
structure Restores (start entered last back : SkkEngine δ) : Prop where
  phase : back.phase = start.phase
  displayMode : back.midashiDisplayMode = start.midashiDisplayMode
  isAbbrev : back.midashiIsAbbrev = start.midashiIsAbbrev
  /-- Entering and leaving do not touch the dictionaries. -/
  opening : entered.dict = start.dict
  inner : DictSteps entered.dict last.dict
  closing : back.dict = last.dict

/-- In every run: from a reading that is converted until it is registered, through any keys
inside the registration, the cancel of its frame leads back to the reading, exactly when the
abbrev flag says where the reading was typed and the last key inside that changed the script or
the flag, if any, set them back. Otherwise the reading comes back in another script, or as an
abbreviation when it was none. -/
theorem restores_iff_of_session {kanaTable : KanaTable} {keybindings : SkkKeybindings}
    {lispDirectives : Bool} {initialPhase : SkkPhase} {providers : List δ}
    {self conv entered last back : SkkEngine δ} {history spaces inner : History δ}
    {key cancelKey : KeyEvent} {midashi : Str} {converted closed : List EngineAction}
    {opened frame : RegisterFrame}
    (hrun : Session (fresh kanaTable keybindings lispDirectives initialPhase providers)
      history self)
    (hreads : self.Reads midashi)
    -- The reading is converted, and the candidates are exhausted.
    (hkey : Step self key conv converted) (hconverts : conv.Converts midashi)
    (hexhaust : Session conv spaces entered)
    (hspaces : ∀ v ∈ spaces, v.input.key = .space ∧ v.pre.registerStack = [] ∧
      ∃ s, v.pre.phase = .selecting s)
    (hentered : entered.registerStack = [opened])
    -- The keys inside the registration.
    (hinner : Session entered inner last) (hinside : ∀ v ∈ inner, v.pre.registerStack ≠ [])
    -- The outermost frame is closed, and not by finishing it.
    (hlast : last.registerStack = [frame]) (hcancel : ¬ last.Finishing cancelKey frame)
    (hback : Step last cancelKey back closed) (hclosed : back.registerStack = []) :
    Restores self entered last back ↔ self.midashiIsAbbrev = self.inAbbrev ∧
      (restylings inner).getLast?.getD self.ownStyle = self.ownStyle := by
  have hself : self.Wf := Session.wf (fresh_wf ..) hrun
  have hconv : conv.Wf := Session.wf hself (Run.nil.snoc hkey)
  have henteredWf : entered.Wf := Session.wf hconv hexhaust
  have hlastWf : last.Wf := Session.wf henteredWf hinner
  -- Up to the registration nothing has changed.
  have hconverting : self.Converting midashi entered :=
    session_converting hconv (step_converts hself hreads hkey hconverts) hexhaust hspaces
  obtain ⟨hmidashi, hflag⟩ : opened.originalMidashi = midashi ∧
      opened.isAbbrev = self.midashiIsAbbrev := by
    rcases hconverting.place with ⟨hnil, -⟩ | ⟨opened', hopened, hmidashi, hflag⟩
    · rw [hentered] at hnil
      cases hnil
    · rw [hentered] at hopened
      cases hopened
      exact ⟨hmidashi, hflag⟩
  obtain ⟨committed, cursor, hframe⟩ : opened.SameTarget frame :=
    session_sameTarget henteredWf hinner hentered hinside hlast
  have hrestored : back = last.restored frame := step_restored hlastWf hlast hcancel hback hclosed
  have hstyle : back.ownStyle = (restylings inner).getLast?.getD self.ownStyle := by
    rw [← hconverting.style, ← session_ownStyle henteredWf hinner, hrestored, restored_ownStyle]
  have hdict : back.dict = last.dict := by
    rw [hrestored]
    exact congrArg Prod.snd (restored_base ..)
  have hphase : back.phase = self.phase ↔ self.midashiIsAbbrev = self.inAbbrev := by
    rw [hrestored, hframe, restored_phase]
    dsimp only
    rw [hflag, hmidashi]
    exact hreads.phase_iff
  constructor
  · intro h
    refine ⟨hphase.mp h.phase, ?_⟩
    rw [← hstyle]
    exact Prod.ext h.displayMode h.isAbbrev
  · rintro ⟨hkind, hkept⟩
    rw [← hstyle] at hkept
    exact ⟨hphase.mpr hkind, congrArg Prod.fst hkept, congrArg Prod.snd hkept,
      hconverting.dict, Session.dictSteps henteredWf hinner, hdict⟩

end Cancelling

/-! ### The script that is lost -/

/-- `C-g`, which drops the top frame. -/
def ctrlG : KeyEvent := .press (.char 'g') { ctrl := true }

/-- A reading typed in Katakana is shown in Hiragana after another one was typed in its
registration, since that one has set the script of the engine. -/
theorem script_lost :
    letI := EucJp.empty
    ∃ (history inner : History Empty) (self entered last back : SkkEngine Empty)
      (frame : RegisterFrame) (converted closed : List EngineAction),
      Session (fresh vowelTable {} true .katakana []) history self ∧
      history.map Visit.input = KeyEvent.typed ['A'] ∧ self.Reads ['あ'] ∧
      Step self (.press .space {}) entered converted ∧ entered.Converts ['あ'] ∧
      Session entered inner last ∧ inner.map Visit.input = KeyEvent.typed ['A'] ∧
      (∀ v ∈ inner, v.pre.registerStack ≠ []) ∧ last.registerStack = [frame] ∧
      ¬ last.Finishing ctrlG frame ∧ Step last ctrlG back closed ∧ back.registerStack = [] ∧
      ¬ Restores self entered last back := by
  let _ := EucJp.empty
  -- one evaluation gives the whole run: the reading, the conversion that finds nothing, the
  -- second reading in the registration, and the cancel
  have hrecord := exists_session (fresh vowelTable {} true .katakana []) (KeyEvent.typed ['A'])
    (fun _ (self : SkkEngine Empty) => self.registerStack = [] ∧
      self.phase = .midashi ['あ'] [] ∧ self.midashiDisplayMode = .katakana ∧
      ∃ r ∈ (self.processKey (.press .space {})).toOption,
        r.1.registerStack = [⟨['あ'], ['あ'], [], none, none, [], 0, false⟩] ∧
        ∃ r' ∈ (r.1.processKey (.press (.char 'A') {})).toOption,
          r'.1.registerStack = [⟨['あ'], ['あ'], [], none, none, [], 0, false⟩] ∧
          ∃ r'' ∈ (r'.1.processKey ctrlG).toOption,
            r''.1.registerStack = [] ∧ r''.1.midashiDisplayMode = .hiragana)
    (by decide +kernel)
  obtain ⟨history, self, hrun, hinputs, hstack, hphase, hmode, r, hr, hentered, r', hr', hlast,
    r'', hr'', hclosed, hlost⟩ := hrecord
  refine ⟨history, _, self, r.1, r'.1, r''.1, _, r.2, r''.2, hrun, hinputs, ⟨hstack, .inr hphase⟩,
    ok_of_mem_toOption hr, .inr ⟨_, hentered, rfl, rfl⟩, Run.nil.snoc (ok_of_mem_toOption hr'), rfl,
    ?_, hlast, ?_, ok_of_mem_toOption hr'', hclosed, ?_⟩
  · intro v hv
    cases List.mem_singleton.mp hv
    simp [hentered]
  · intro hfinishing
    cases hfinishing.key
  · intro hrestores
    have hsame := hrestores.displayMode
    rw [hmode, hlost] at hsame
    cases hsame

/-- A registration that is dropped at once. No key was typed inside, so nothing set the script,
and the flag of the reading is that of a word without abbreviation. -/
theorem restores_iff_of_session_plain :
    letI := EucJp.empty
    ∃ (history : History Empty) (self entered back : SkkEngine Empty),
      Session (fresh vowelTable {} true .katakana []) history self ∧ self.Reads ['あ'] ∧
      entered.registerStack.length = 1 ∧ Restores self entered entered back := by
  let _ := EucJp.empty
  have hrecord := exists_session (fresh vowelTable {} true .katakana []) (KeyEvent.typed ['A'])
    (fun _ (self : SkkEngine Empty) => self.registerStack = [] ∧
      self.phase = .midashi ['あ'] [] ∧ self.midashiIsAbbrev = false ∧
      ∃ r ∈ (self.processKey (.press .space {})).toOption,
        r.1.registerStack = [⟨['あ'], ['あ'], [], none, none, [], 0, false⟩] ∧
        ∃ r' ∈ (r.1.processKey ctrlG).toOption, r'.1.registerStack = [])
    (by decide +kernel)
  obtain ⟨history, self, hrun, -, hstack, hphase, hkind, r, hr, hentered, r', hr', hclosed⟩ :=
    hrecord
  have hreads : self.Reads ['あ'] := ⟨hstack, .inr hphase⟩
  have hcancel : ¬ r.1.Finishing ctrlG ⟨['あ'], ['あ'], [], none, none, [], 0, false⟩ := by
    intro hfinishing
    cases hfinishing.key
  have hrestores := restores_iff_of_session hrun hreads (ok_of_mem_toOption hr)
    (.inr ⟨_, hentered, rfl, rfl⟩) Run.nil (by simp) hentered Run.nil (by simp) hentered hcancel
    (ok_of_mem_toOption hr') hclosed
  refine ⟨history, self, r.1, r'.1, hrun, hreads, by simp [hentered], hrestores.mpr ⟨?_, rfl⟩⟩
  unfold inAbbrev
  rw [hphase, hkind]

end SkkEngine

end Y2Skk
