import Y2Skk.Lib.Transducer
import Y2Skk.Proofs.Retype
import Y2Skk.Proofs.Termination

/-!
# `Y2Skk.Proofs.KanaText`: typing in the kana modes

A kana table is a transducer from characters to kana (`KanaTable.typing`). Its states are
the pending romaji, and a character that is handed back is read again in the start state.

`kanaText_of_session` says that a kana mode is this transducer over whole runs. What it
writes goes to the application, or to the buffer of a registration.
`convertOutput_of_session` compares two modes: without katakana rules the one writes what
the other one does, converted.

## Which keys are typed

`typesKana` says when a key is a character for the table: raw mode is off, no toggle key
is pressed, no modifier is held, and the character is no command. With romaji pending no
character is a command; with nothing pending the mode keys and those that start a
composition are (`q`, `l`, `/`, `\`, capitals, as the key bindings have them).

## The proof

A character has four results in the table: it is taken, it is taken after a kana and read
again, it is read again after what was pending is flushed, or there is no rule for it.
`feedKana_typed` goes through them once, and `processKey_kana` carries the result through
the press, to the application or into the top frame (`Delivers`). The run lemma is an
induction over the history, with the transducer's state as the pending romaji.
-/

set_option autoImplicit false

namespace Y2Skk

open Outcome Utf8 Transition

/-! ### The transducer of a table -/

/-- The same result, with its output converted. -/
def TransitionResult.convert (mode : KanaMode) : TransitionResult → TransitionResult
  | .ok output nextState => .ok (KanaTable.convertOutput output mode) nextState
  | .okRetry output retry => .okRetry (KanaTable.convertOutput output mode) retry
  | .noMatch flush retry => .noMatch flush retry

namespace KanaTable

variable (table : KanaTable) (mode : KanaMode)

/-- A character read in the start state. -/
def begins (c : Char) : Str × Str :=
  match table.transition [] c mode with
  | .ok output nextState => (output, nextState)
  | .okRetry output _ => (output, [])
  | .noMatch _ _ => ([c], [])

/-- The table as a machine: the text it writes, and the romaji that stays pending. A character
that is handed back is read from the start state, and one the table does not know is written as
it is. -/
def typing : Transducer Str Char Char where
  step state c :=
    match table.transition state c mode with
    | .ok output nextState => (output, nextState)
    | .okRetry output retry =>
        let (text, pending) := table.begins mode retry
        (output ++ text, pending)
    | .noMatch _ (some retry) => table.begins mode retry
    | .noMatch _ none => ([c], [])

variable {table mode} {state : Str} {c : Char}

/-- A table hands back the character that it was given, so a retry asks about the same character
from the start state. -/
theorem retryOf_eq {retry : Char} (h : retryOf (table.transition state c mode) = some retry) :
    retry = c := by
  unfold transition at h
  dsimp only at h
  split at h
  · cases h
  · split at h
    · split at h
      · split at h
        · cases h
        · cases h
          rfl
      · cases h
    · split at h
      · cases h
      · cases h
        rfl

/-! Without katakana rules the modes differ in what they write, and that is converted. -/

/-- The conversion to another script is made character by character. -/
theorem convertOutput_append (mode : KanaMode) (text text' : Str) :
    convertOutput (text ++ text') mode = convertOutput text mode ++ convertOutput text' mode := by
  cases mode with
  | hiragana => rfl
  | katakana => exact List.map_append
  | halfWidth => exact List.flatMap_append

section Convert
variable (hoverrides : table.kataOverrides = [])
include hoverrides

/-- The rules are the same in every mode. -/
theorem effectiveTransitions_eq (mode : KanaMode) :
    table.effectiveTransitions mode = table.transitions := by
  cases mode with
  | hiragana => rfl
  | katakana | halfWidth => simp [effectiveTransitions, hoverrides]

/-- A rule writes the same, converted: without rules of its own for katakana the table has one
set of rules, and the mode only changes the script of the output. -/
theorem transition_convert (mode : KanaMode) : table.transition state c mode =
    (table.transition state c .hiragana).convert mode := by
  unfold transition
  rw [effectiveTransitions_eq hoverrides, effectiveTransitions_eq hoverrides]
  dsimp only
  cases table.transitions.find? fun t => t.fromState = state ∧ t.input = .char c with
  | some t => rfl
  | none =>
      cases table.transitions.find? fun t => t.fromState = state ∧ t.input = .wildcard with
      | some t =>
          dsimp only
          split
          · split <;> rfl
          · rfl
      | none =>
          dsimp only
          split <;> rfl

/-- The same of a character in the start state, for a character that the conversion of the
script leaves alone. -/
theorem begins_convert (mode : KanaMode) (hc : convertOutput [c] mode = [c]) :
    table.begins mode c =
      (convertOutput (table.begins .hiragana c).1 mode, (table.begins .hiragana c).2) := by
  unfold begins
  rw [transition_convert hoverrides]
  cases table.transition [] c .hiragana with
  | ok output nextState => rfl
  | okRetry output retry => rfl
  | noMatch flush retry => exact congrArg (·, []) hc.symm

/-- And of one character typed in any state. A character without a rule is written as it is, so
it must be one that the conversion leaves alone. A character that is handed back begins anew,
and what it has flushed is converted with it. -/
theorem typing_convert (mode : KanaMode) (hc : convertOutput [c] mode = [c]) :
    (table.typing mode).step state c =
      (convertOutput ((table.typing .hiragana).step state c).1 mode,
        ((table.typing .hiragana).step state c).2) := by
  unfold typing
  dsimp only
  rw [transition_convert hoverrides]
  cases htable : table.transition state c .hiragana with
  | ok output nextState => rfl
  | okRetry output retry =>
      obtain rfl : retry = c := retryOf_eq (by rw [htable]; rfl)
      show (convertOutput output mode ++ (table.begins mode retry).1, _) = _
      rw [begins_convert hoverrides mode hc, convertOutput_append]
  | noMatch flush retry =>
      cases retry with
      | some retry =>
          obtain rfl : retry = c := retryOf_eq (by rw [htable]; rfl)
          exact begins_convert hoverrides mode hc
      | none => exact congrArg (·, []) hc.symm

/-- And of a whole text, one character after the other: the romaji that stays pending is the
same in both scripts. -/
theorem run_convert (mode : KanaMode) (state : Str) {text : Str}
    (htext : ∀ c ∈ text, convertOutput [c] mode = [c]) :
    (table.typing mode).run state text =
      (convertOutput ((table.typing .hiragana).run state text).1 mode,
        ((table.typing .hiragana).run state text).2) := by
  refine Transducer.run_map id (convertOutput · mode) ?_ (convertOutput_append mode)
    (fun c => convertOutput [c] mode = [c]) ?_ state htext
  · cases mode <;> rfl
  · exact fun state c hc => typing_convert hoverrides mode hc

end Convert

end KanaTable

namespace SkkEngine

variable {δ : Type} [DictionaryProvider δ]

/-! ### One key -/

section Key
variable {self : SkkEngine δ} {c : Char} {mode : KanaMode}

omit [DictionaryProvider δ] in
/-- A character that the table takes. Its output is committed and the new state is pending, and
the preedit is drawn where there is something to draw. In a registration the same actions go
into the frame. -/
theorem feedKana_taken (hself : self.Wf) (hkana : self.phase.isKana) {output nextState : Str}
    (htable : self.kanaTable.transition self.kanaState c mode = .ok output nextState)
    (fuel : Nat) : Runs (self.feedKana (fuel + 1) c mode) (Fed self output nextState) := by
  obtain ⟨preedit, -, -, haction⟩ := preeditAction_eq (hself.withRomaji hkana nextState)
  unfold feedKana
  rw [htable]
  dsimp only
  refine Runs.ite (fun hempty => ?_) fun hsome => ?_
  · have hnil : output = [] := by simpa using hempty
    unfold redraw
    rw [haction, ok_bind]
    refine runs_pure.mpr ⟨rfl, by rw [hnil]; rfl, ?_, rfl, fun h => (h hnil).elim⟩
    simp [RedrawsText, EngineAction.isRedrawn]
  refine Runs.ite (fun hdone => ?_) fun hmore => ?_
  · refine runs_ok.mpr ⟨rfl, by simp [committedText], ?_, rfl, fun _ _ => rfl⟩
    simp [RedrawsText, EngineAction.isRedrawn]
  · rw [haction, ok_bind]
    refine runs_pure.mpr ⟨rfl, by simp [committedText], ?_, rfl, fun _ h => ?_⟩
    · simp [RedrawsText, EngineAction.isRedrawn]
    · exact (hmore (by simp [h])).elim

/-- What a kana mode does with a character. -/
structure TypedKana (start : SkkEngine δ) (text pending : Str)
    (r : SkkEngine δ × List EngineAction) : Prop where
  state : r.1 = { start with kanaState := pending }
  committed : committedText r.2 = text
  redraws : RedrawsText r.2
  kept : r.2.filter EngineAction.isKept = []

omit [DictionaryProvider δ] in
/-- What feeding a character does, whatever the table makes of it: it is one step of the
transducer. A character that is handed back has settled the romaji before it, and is then fed
from the start state, which takes it. -/
theorem feedKana_typed (hself : self.Wf) (hkana : self.phase.isKana) (c : Char) :
    Runs (self.feedKana redispatchFuel c (kanaModeOf self.phase)) (TypedKana self
      ((self.kanaTable.typing (kanaModeOf self.phase)).step self.kanaState c).1
      ((self.kanaTable.typing (kanaModeOf self.phase)).step self.kanaState c).2) := by
  -- both kinds of retry: the text settled first, then what the character begins
  have hretried : ∀ before, KanaTable.retryOf (self.kanaTable.transition self.kanaState c
        (kanaModeOf self.phase)) = some c → self.settled c = before →
      Runs (self.feedKana redispatchFuel c (kanaModeOf self.phase)) (TypedKana self
        (before ++ (self.kanaTable.begins (kanaModeOf self.phase) c).1)
        (self.kanaTable.begins (kanaModeOf self.phase) c).2) := by
    intro before hretry hsettled
    unfold redispatchFuel
    rw [feedKana_retry hretry, hsettled]
    have hstart := hself.withRomaji hkana []
    refine (feedKana_fed hstart hkana rfl 0 c _).bind fun r hr => runs_ok.mpr ?_
    refine ⟨hr.state, ?_, redrawsText_commits hr.redraws before, ?_⟩
    · rw [committedText_append, committedText_commits, hr.committed]
      rfl
    · rw [filter_isKept_commits, hr.kept]
  unfold KanaTable.typing
  dsimp only
  cases htable : self.kanaTable.transition self.kanaState c (kanaModeOf self.phase) with
  | ok output nextState =>
      refine (feedKana_taken hself hkana htable _).mono fun r hr => ?_
      exact ⟨hr.state, hr.committed, hr.redraws, hr.kept⟩
  | okRetry output retry =>
      obtain rfl : retry = c := KanaTable.retryOf_eq (by rw [htable]; rfl)
      exact hretried output (by rw [htable]; rfl) (by rw [settled, htable])
  | noMatch flush retry =>
      cases retry with
      | some retry =>
          obtain rfl : retry = c := KanaTable.retryOf_eq (by rw [htable]; rfl)
          have hretry := hretried [] (by rw [htable]; rfl) (by rw [settled, htable])
          rwa [List.nil_append] at hretry
      | none =>
          unfold redispatchFuel feedKana
          rw [htable]
          refine runs_ok.mpr ⟨rfl, rfl, ?_, rfl⟩
          simp [RedrawsText, EngineAction.isRedrawn]

omit [DictionaryProvider δ] in
/-- A status update commits nothing. -/
theorem committedText_withStatus (before : Str) (r : SkkEngine δ × List EngineAction) :
    committedText (withStatus before r).2 = committedText r.2 := by
  unfold withStatus
  split
  · rw [committedText_append]
    exact List.append_nil _
  · rfl

omit [DictionaryProvider δ] in
/-- What a registration keeps of the actions has no text: the window and the status pass through
it, and commits do not. -/
theorem committedText_filter_isKept (actions : List EngineAction) :
    committedText (actions.filter EngineAction.isKept) = [] := by
  induction actions with
  | nil => rfl
  | cons a actions ih =>
      cases a with
      | commit | updatePreedit | clearPreedit | passthrough | deleteBack => exact ih
      | showCandidates | hideCandidates | updateStatus => exact ih

/-- The text reaches the application, or the buffer of the innermost registration at its
cursor. -/
def Delivers (text : Str) (committed : Str) : List RegisterFrame → List RegisterFrame → Prop
  | [], stack => stack = [] ∧ committed = text
  | frame :: frames, stack => committed = [] ∧ ∃ frame', frame.insert text = .ok frame' ∧
      stack = frame' :: frames

variable [EucJp]

/-- The press is a plain character that goes to the table. -/
def typesKana (self : SkkEngine δ) (event : KeyEvent) : Bool :=
  match event.key with
  | .char c => decide (event = .press (.char c) {}) && self.cooks event && !self.isToggle event &&
      (!self.kanaState.isEmpty || !self.startsAnew c)
  | _ => false

omit [DictionaryProvider δ] [EucJp] in
/-- A typed character, in full: a plain press that reaches the handler, and that continues a
romaji or starts one. -/
theorem typesKana_iff {event : KeyEvent} : self.typesKana event ↔ ∃ c,
    event = .press (.char c) {} ∧ self.cooks event ∧ self.isToggle event = false ∧
      (self.kanaState ≠ [] ∨ self.startsAnew c = false) := by
  unfold typesKana
  constructor
  · intro htypes
    cases hkey : event.key with
    | char c =>
        rw [hkey] at htypes
        simp only [Bool.and_eq_true, decide_eq_true_eq, Bool.not_eq_true', Bool.or_eq_true,
          List.isEmpty_eq_false_iff] at htypes
        exact ⟨c, htypes.1.1.1, htypes.1.1.2, htypes.1.2, htypes.2⟩
    | _ => rw [hkey] at htypes; cases htypes
  · rintro ⟨c, rfl, hcooks, htoggle, hstarts⟩
    rw [KeyEvent.press] at hcooks htoggle
    simpa [KeyEvent.press, hcooks, htoggle] using hstarts

/-- The table is fed, and what the handler commits and leaves pending is what the machine
says. -/
theorem dispatch_typed (hself : self.Wf) (hkana : self.phase.isKana)
    (hstarts : self.kanaState ≠ [] ∨ self.startsAnew c = false) :
    Runs (self.dispatch (.press (.char c) {})) (TypedKana self
      ((self.kanaTable.typing (kanaModeOf self.phase)).step self.kanaState c).1
      ((self.kanaTable.typing (kanaModeOf self.phase)).step self.kanaState c).2) := by
  have hfed := feedKana_typed hself hkana c
  rw [dispatch_kana hkana]
  by_cases hempty : self.kanaState = []
  · have hstart := hstarts.resolve_left (not_not.mpr hempty)
    have hsettles : self.feedKana redispatchFuel c (kanaModeOf self.phase) =
        self.feedKana 1 c (kanaModeOf self.phase) := by
      obtain ⟨x, -, hdone⟩ := self.feedKana_start hempty c (kanaModeOf self.phase)
      rw [hdone 0]
      exact hdone 1
    rwa [if_pos (by simp [hempty]), kanaStart_fed hempty hstart, ← hsettles]
  · rwa [if_neg (by simpa using hempty)]

/-- What a handler commits is delivered, when it redraws and touches no frame itself: to the
application, or to the cursor of the top frame. -/
theorem processKey_delivers {event : KeyEvent} {mid : SkkEngine δ}
    {rawActions : List EngineAction} (hcooks : self.cooks event)
    (hkey : self.registrationKey event = none) (htoggle : self.isToggle event = false)
    (hdispatch : self.dispatch event = .ok (mid, rawActions)) (hmid : mid.Wf)
    (hsame : mid.registerStack = self.registerStack) (hredraws : RedrawsText rawActions) :
    ∃ stack actions, self.processKey event = .ok ({ mid with registerStack := stack }, actions) ∧
      Delivers (committedText rawActions) (committedText actions) self.registerStack stack := by
  rw [processKey_eq hcooks, handleCooked_eq hkey htoggle, hdispatch, ok_bind]
  -- Outside a registration the actions of the handler are the answer.
  cases hstack : self.registerStack with
  | nil =>
      have hnil : conclude (mid, rawActions) = .ok _ := conclude_nil (hsame.trans hstack)
      rw [hnil, ok_bind]
      refine ⟨[], (withStatus self.currentModeIndicator (mid, rawActions)).2, ?_, rfl, ?_⟩
      · rw [← hstack, ← hsame]
        rfl
      · exact committedText_withStatus ..
  | cons frame frames =>
      have hcons : mid.registerStack = frame :: frames := hsame.trans hstack
      obtain ⟨frame', hinsert, hframe'⟩ := insert_ok hmid hcons (committedText rawActions)
      obtain ⟨preedit, -, -, haction⟩ := preeditAction_eq (hmid.withTop hcons hframe')
      have hconclude : conclude (mid, rawActions) = mid.interceptForRegister rawActions :=
        conclude_cons (by simp [hcons])
      rw [hconclude, interceptForRegister_eq hmid hcons hredraws hinsert, haction, ok_bind, ok_bind]
      refine ⟨frame' :: frames, (withStatus self.currentModeIndicator
        ({ mid with registerStack := frame' :: frames },
          rawActions.filter EngineAction.isKept ++ [.updatePreedit preedit])).2, rfl, ?_,
        frame', hinsert, rfl⟩
      rw [committedText_withStatus, committedText_append, committedText_filter_isKept]
      rfl

/-- The text is taken: it is delivered, and the engine is left with the romaji that the machine
has pending. -/
theorem processKey_kana (hself : self.Wf) (hkana : self.phase.isKana)
    (hcooks : self.cooks (.press (.char c) {}))
    (htoggle : self.isToggle (.press (.char c) {}) = false)
    (hstarts : self.kanaState ≠ [] ∨ self.startsAnew c = false) :
    ∃ stack actions, self.processKey (.press (.char c) {}) = .ok ({ self with
        kanaState := ((self.kanaTable.typing (kanaModeOf self.phase)).step self.kanaState c).2
        registerStack := stack }, actions) ∧
      Delivers ((self.kanaTable.typing (kanaModeOf self.phase)).step self.kanaState c).1
        (committedText actions) self.registerStack stack := by
  obtain ⟨fed, hdispatch, hfed⟩ := dispatch_typed hself hkana hstarts
  have hwf : fed.1.Wf := by
    rw [hfed.state]
    exact hself.withRomaji hkana _
  have hdelivered := processKey_delivers hcooks (registrationKey_kana hkana) htoggle hdispatch hwf
    (by rw [hfed.state]) hfed.redraws
  rwa [hfed.committed, hfed.state] at hdelivered

end Key

/-! ### Runs -/

omit [DictionaryProvider δ] in
/-- Two texts one after the other. -/
theorem Delivers.append {text text' committed committed' : Str}
    {stack stack' stack'' : List RegisterFrame}
    (hframes : ∀ frame ∈ stack, frame.Wf) (h : Delivers text committed stack stack')
    (h' : Delivers text' committed' stack' stack'') :
    Delivers (text ++ text') (committed ++ committed') stack stack'' := by
  cases stack with
  | nil =>
      obtain ⟨rfl, rfl⟩ := h
      obtain ⟨rfl, rfl⟩ := h'
      exact ⟨rfl, rfl⟩
  | cons frame frames =>
      obtain ⟨rfl, frame', hinsert, rfl⟩ := h
      obtain ⟨rfl, frame'', hinsert', rfl⟩ := h'
      refine ⟨rfl, frame'', ?_, rfl⟩
      rw [RegisterFrame.insert_append (hframes frame List.mem_cons_self) hinsert]
      exact hinsert'

omit [DictionaryProvider δ] in
/-- Nothing delivers nothing. -/
theorem delivers_nil {stack : List RegisterFrame} (hframes : ∀ frame ∈ stack, frame.Wf) :
    Delivers [] [] stack stack := by
  cases stack with
  | nil => exact ⟨rfl, rfl⟩
  | cons frame frames =>
      obtain ⟨before, after, hcommitted, hcursor⟩ := (hframes frame List.mem_cons_self).cursor
      refine ⟨rfl, frame, ?_, rfl⟩
      rw [RegisterFrame.insert_eq hcommitted hcursor, List.append_nil, ← hcommitted, hcursor]

section Runs
variable [EucJp] {start self : SkkEngine δ} {history : History δ}

/-- The characters typed in a run. -/
def typedText (history : History δ) : Str := history.filterMap fun v => v.input.printableChar

/-- What the table makes of the characters typed in a run. -/
def kanaText (start : SkkEngine δ) (history : History δ) : Str × Str :=
  (start.kanaTable.typing (kanaModeOf start.phase)).run start.kanaState (typedText history)

omit [DictionaryProvider δ] [EucJp] in
/-- One more character is one more step of the transducer. -/
theorem kanaText_snoc (pre : SkkEngine δ) (c : Char) (actions : List EngineAction) :
    start.kanaText (history ++ [⟨pre, .press (.char c) {}, actions⟩]) =
      ((start.kanaText history).1 ++ ((start.kanaTable.typing (kanaModeOf start.phase)).step
        (start.kanaText history).2 c).1,
      ((start.kanaTable.typing (kanaModeOf start.phase)).step (start.kanaText history).2 c).2) := by
  have htyped : typedText (history ++ [⟨pre, .press (.char c) {}, actions⟩]) =
      typedText history ++ [c] := by
    rw [typedText, List.filterMap_append]
    rfl
  unfold kanaText
  rw [htyped, Transducer.run_concat]

/-- The run lemma, from any well-formed state in a kana mode. The text so far has been delivered
and the romaji so far are pending, and the next character continues both. No other field of the
state changes. -/
theorem kanaText_of_wf (hstart : start.Wf) (hkana : start.phase.isKana)
    (hrun : Session start history self) (htypes : ∀ v ∈ history, v.pre.typesKana v.input) :
    ∃ stack, self = { start with
        kanaState := (start.kanaText history).2, registerStack := stack } ∧ self.Wf ∧
      Delivers (start.kanaText history).1 (committedText (outputs history)) start.registerStack
        stack := by
  refine hrun.history (fun history self => ∃ stack, self = { start with
      kanaState := (start.kanaText history).2, registerStack := stack } ∧ self.Wf ∧
    Delivers (start.kanaText history).1 (committedText (outputs history)) start.registerStack stack)
    (fun self event => self.typesKana event) ?_ ?_ htypes
  · exact ⟨start.registerStack, rfl, hstart, delivers_nil hstart.frames⟩
  · -- one key: it types a character, and what the transducer writes for it is delivered
    rintro history self event self' actions _ ⟨stack, rfl, hwf, hdelivers⟩ htype hstep
    obtain ⟨c, rfl, hcooks, htoggle, hstarts⟩ := typesKana_iff.mp htype
    obtain ⟨stack', actions', hkey, htaken⟩ :=
      processKey_kana hwf (by exact hkana) hcooks htoggle hstarts
    have hwf' := ((processKey_wf hwf _).of_ok hstep).1
    obtain ⟨rfl, rfl⟩ := Prod.mk.inj (Except.ok.inj (hkey.symm.trans hstep))
    rw [kanaText_snoc, outputs_snoc, committedText_append]
    exact ⟨stack', rfl, hwf', hdelivers.append hstart.frames htaken⟩

/-- No key changes the table. It is set when the engine is made, so every state of a run has the
one that the run was started with. -/
theorem kanaTable_of_session {kanaTable : KanaTable} {keybindings : SkkKeybindings}
    {lispDirectives : Bool} {initialPhase : SkkPhase} {providers : List δ} {before : History δ}
    (hbefore : Session (fresh kanaTable keybindings lispDirectives initialPhase providers) before
      start) : start.kanaTable = kanaTable := by
  have key : start.Wf ∧ start.kanaTable = kanaTable := by
    refine hbefore.invariant (fun self => self.Wf ∧ self.kanaTable = kanaTable)
      (fun _ _ => True) ⟨fresh_wf .., ?_⟩ ?_ fun _ _ => trivial
    · obtain ⟨dict, phase, -, heq⟩ :=
        fresh_eq kanaTable keybindings lispDirectives initialPhase providers
      rw [heq]
      rfl
    · intro self event self' actions hself _ hstep
      refine ⟨((processKey_wf hself.1 event).of_ok hstep).1, ?_⟩
      obtain ⟨r, status, hkey, -, heq⟩ := (processKey_runs hself.1 event).of_ok hstep
      obtain rfl : self' = r.1 := (Prod.mk.inj heq).1
      cases hkey with
      | ignored _ => exact hself.2
      | enterRaw _ _ _ => exact hself.2
      | leaveRaw _ _ _ => exact hself.2
      | cooked _ _ _ hcooked => exact hcooked.config.kanaTable.trans hself.2
  exact key.2

/-- In a kana mode plain characters go through the table, over whole runs. What the table writes
reaches the application, or the innermost registration. The rest of the state stays. -/
theorem kanaText_of_session {kanaTable : KanaTable} {keybindings : SkkKeybindings}
    {lispDirectives : Bool} {initialPhase : SkkPhase} {providers : List δ} {before : History δ}
    (hbefore : Session (fresh kanaTable keybindings lispDirectives initialPhase providers) before
      start) (hkana : start.phase.isKana) (hrun : Session start history self)
    (htypes : ∀ v ∈ history, v.pre.typesKana v.input) :
    ∃ stack, self = { start with
        kanaState := (start.kanaText history).2, registerStack := stack } ∧
      Delivers (start.kanaText history).1 (committedText (outputs history)) start.registerStack
        stack := by
  have hstart := hbefore.wf (fresh_wf kanaTable keybindings lispDirectives initialPhase providers)
  obtain ⟨stack, hself, -, hdelivers⟩ := kanaText_of_wf hstart hkana hrun htypes
  exact ⟨stack, hself, hdelivers⟩

/-- The same characters in Hiragana and in another kana mode: without katakana rules the text is
converted, and the same romaji stay pending. -/
theorem convertOutput_of_session {kanaTable : KanaTable}
    {keybindings keybindings' : SkkKeybindings} {lispDirectives lispDirectives' : Bool}
    {initialPhase initialPhase' : SkkPhase} {providers providers' : List δ}
    {before before' history' : History δ} {start' self' : SkkEngine δ}
    (hbefore : Session (fresh kanaTable keybindings lispDirectives initialPhase providers) before
      start)
    (hbefore' : Session (fresh kanaTable keybindings' lispDirectives' initialPhase' providers')
      before' start')
    (hoverrides : kanaTable.kataOverrides = []) (hhiragana : start.phase = .hiragana)
    (hkana : start'.phase.isKana) (hpending : start'.kanaState = start.kanaState)
    (houtside : start.registerStack = [] ∧ start'.registerStack = [])
    (hrun : Session start history self) (hrun' : Session start' history' self')
    (htypes : ∀ v ∈ history, v.pre.typesKana v.input)
    (htypes' : ∀ v ∈ history', v.pre.typesKana v.input)
    (hsame : typedText history' = typedText history)
    (hplain : ∀ c ∈ typedText history,
      KanaTable.convertOutput [c] (kanaModeOf start'.phase) = [c]) :
    committedText (outputs history') =
        KanaTable.convertOutput (committedText (outputs history)) (kanaModeOf start'.phase) ∧
      self'.kanaState = self.kanaState := by
  have hstart := hbefore.wf (fresh_wf ..)
  have hstart' := hbefore'.wf (fresh_wf ..)
  have htable := kanaTable_of_session hbefore
  have htable' := kanaTable_of_session hbefore'
  obtain ⟨stack, hself, -, hdelivers⟩ :=
    kanaText_of_wf hstart (by rw [hhiragana]; rfl) hrun htypes
  obtain ⟨stack', hself', -, hdelivers'⟩ := kanaText_of_wf hstart' hkana hrun' htypes'
  rw [houtside.1] at hdelivers
  rw [houtside.2] at hdelivers'
  -- Both runs are runs of a transducer, and without katakana rules the other mode's is the
  -- converted one.
  have htext : start'.kanaText history' =
      (KanaTable.convertOutput (start.kanaText history).1 (kanaModeOf start'.phase),
        (start.kanaText history).2) := by
    unfold kanaText
    rw [hsame, hpending, htable, htable', hhiragana]
    exact KanaTable.run_convert hoverrides _ _ hplain
  rw [hdelivers.2, hdelivers'.2, hself, hself', htext]
  exact ⟨rfl, rfl⟩

end Runs

/-! ### A text -/

/-- A table of two kana, of which the second one needs a character to tell that it is over. -/
def kankaTable : KanaTable :=
  ⟨[⟨[], .char 'k', ['k'], []⟩, ⟨['k'], .char 'a', [], ['か']⟩, ⟨[], .char 'n', ['n'], []⟩,
    ⟨['n'], .wildcard, [], ['ん']⟩], [], []⟩

/-- The text that is typed below. -/
def kanka : Str := ['k', 'a', 'n', 'k', 'a', 'n']

/-- A new engine in a kana mode, without dictionaries. -/
def kankaEngine (phase : SkkPhase) : SkkEngine Empty := fresh kankaTable {} true phase []

/-- It is a session that has just begun. -/
theorem session_kankaEngine [EucJp] (phase : SkkPhase) :
    Session (fresh kankaTable {} true phase []) [] (kankaEngine phase) := .nil

/-- The text typed in Hiragana: the second `n` is still pending. -/
theorem kanaText_of_session_kanka : letI := EucJp.empty
    ∃ history self, Session (kankaEngine .hiragana) history self ∧
      committedText (outputs history) = ['か', 'ん', 'か'] ∧ self.kanaState = ['n'] := by
  let _ := EucJp.empty
  obtain ⟨history, self, hrun, -, htypes, htyped⟩ := exists_session (kankaEngine .hiragana)
    (KeyEvent.typed kanka) (fun history _ => (∀ v ∈ history, v.pre.typesKana v.input) ∧
      typedText history = kanka) (by decide +kernel)
  obtain ⟨stack, rfl, hdelivers⟩ :=
    kanaText_of_session (session_kankaEngine .hiragana) rfl hrun htypes
  have htext : (kankaEngine .hiragana).kanaText history = (['か', 'ん', 'か'], ['n']) := by
    rw [kanaText, htyped]
    decide +kernel
  rw [htext] at hdelivers
  exact ⟨history, _, hrun, hdelivers.2, congrArg Prod.snd htext⟩

/-- The same text in both scripts, on one concrete input. The characters typed are ones that the
conversion leaves alone. -/
theorem convertOutput_of_session_kanka : letI := EucJp.empty
    ∃ history history' self self', Session (kankaEngine .hiragana) history self ∧
      Session (kankaEngine .katakana) history' self' ∧
      committedText (outputs history') =
        KanaTable.convertOutput (committedText (outputs history)) .katakana ∧
      self'.kanaState = self.kanaState := by
  let _ := EucJp.empty
  obtain ⟨history, self, hrun, -, htypes, htyped⟩ := exists_session (kankaEngine .hiragana)
    (KeyEvent.typed kanka) (fun history _ => (∀ v ∈ history, v.pre.typesKana v.input) ∧
      typedText history = kanka) (by decide +kernel)
  obtain ⟨history', self', hrun', -, htypes', htyped'⟩ := exists_session (kankaEngine .katakana)
    (KeyEvent.typed kanka) (fun history _ => (∀ v ∈ history, v.pre.typesKana v.input) ∧
      typedText history = kanka) (by decide +kernel)
  have hall : kanka.all fun c => KanaTable.convertOutput [c] .katakana = [c] := rfl
  have hplain : ∀ c ∈ typedText history, KanaTable.convertOutput [c] .katakana = [c] := by
    rw [htyped]
    exact fun c hc => of_decide_eq_true (List.all_eq_true.mp hall c hc)
  obtain ⟨htext, hpending⟩ := convertOutput_of_session (session_kankaEngine .hiragana)
    (session_kankaEngine .katakana) rfl rfl rfl rfl ⟨rfl, rfl⟩ hrun hrun' htypes htypes'
    (htyped'.trans htyped.symm) hplain
  exact ⟨history, history', self, self', hrun, hrun', htext, hpending⟩

end SkkEngine

end Y2Skk
