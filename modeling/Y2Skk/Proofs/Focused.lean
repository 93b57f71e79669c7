import Y2Skk.Proofs.Editing
import Y2Skk.Proofs.Redrawn
import Y2Skk.Proofs.SelectionKeys

/-!
# `Y2Skk.Proofs.Focused`: what a selection shows is what it commits

`displays_selecting` reads the preedit of a selection: the mark `▼`, the focused candidate
with its okurigana and the trigger, and the annotation. `processKey_takes` is the press of
a key that takes the candidate: what is between the mark and the annotation goes to the
application, or to the cursor of the innermost registration.

## The display

What is on display is the fold of all actions sent so far (`drawn`), for both kinds of
adapter: those that hide the preedit at a commit and those that do not. Over a run whose
keys spoil no preedit it is the preedit of the state (`shown_of_session`), through raw
mode too. `focused_of_session` joins the two: what the user sees is what the key sends.

## Keys

Return, BackSpace and `C-j` take the focused candidate. Behind the commit Return and
BackSpace still do what they are for: a new line, and the deletion of the last character,
which in a registration is the last one of the candidate.
-/

set_option autoImplicit false

namespace Y2Skk

open Outcome Utf8 Transition

/-- The annotation of a candidate behind its word. -/
def Candidate.note (row : Candidate) : Str :=
  match row.annotation with
  | some annotation => ';' :: annotation
  | none => []

namespace SkkEngine

variable {δ : Type} {self : SkkEngine δ} {s : Selection} {row : Candidate}

/-! ### The preedit -/

/-- The preedit around a composition: the prompt and the buffer of the innermost registration. -/
def placed (self : SkkEngine δ) (inner : Str) : Str :=
  match self.registerStack with
  | [] => inner
  | frame :: frames =>
      registerPrompt frame (frames.length + 1) ++ frame.zipper.upto ++ inner ++ frame.zipper.after

/-- What a selection commits for a candidate. -/
def focusedText (self : SkkEngine δ) (s : Selection) (row : Candidate) : Str :=
  row.word ++ s.okuri.getD [] ++ self.conversionTrigger.getD []

/-- The preedit is the composition in its surroundings: between the two halves of the innermost
buffer, which are cut at a character boundary, or alone. -/
theorem placePreedit_text (hself : self.Wf) (inner : Str) (cursorPos : Nat) (ghost : Bool) :
    Runs (self.placePreedit inner cursorPos ghost) fun preedit =>
      preedit.text = self.placed inner := by
  unfold placePreedit placed
  cases hstack : self.registerStack with
  | nil => exact runs_ok.mpr rfl
  | cons frame frames =>
      obtain ⟨before, after, hcommitted, hcursor⟩ :=
        (hself.frames frame (by simp [hstack])).cursor
      dsimp only
      rw [RegisterFrame.zipper_eq hcommitted hcursor, hcommitted, ← hcursor, sliceTo_append,
        ok_bind, sliceFrom_append, ok_bind]
      exact runs_ok.mpr (by simp [Zipper.upto])

/-- The preedit of a selection: the mark, the focused candidate with its okurigana and trigger,
and the annotation, in their surroundings. -/
theorem displays_selecting (hself : self.Wf) (hphase : self.phase = .selecting s)
    (hrow : s.candidates[s.index]? = some row) {text : Str} (hdisplays : self.Displays text) :
    text = self.placed ('▼' :: self.focusedText s row ++ row.note) := by
  obtain ⟨preedit, hbuild, rfl⟩ := hdisplays
  have hinner : self.buildInnerPreedit = .ok ('▼' :: self.focusedText s row ++ row.note) := by
    unfold buildInnerPreedit
    rw [hphase]
    dsimp only
    rw [indexList, hrow]
    cases hnote : row.annotation <;> simp [focusedText, Candidate.note, hnote]
  have hplain : self.buildPreedit = self.plainPreedit := by
    unfold buildPreedit
    rw [hphase]
  rw [hplain, plainPreedit, hinner, ok_bind] at hbuild
  exact (placePreedit_text hself _ _ _).of_ok hbuild

/-! ### The keys that take the candidate -/

section Take
variable [DictionaryProvider δ] {event : KeyEvent} {origin : CandidateOrigin}

/-- Return, BackSpace and `C-j` take the focused candidate. -/
def takesFocused (self : SkkEngine δ) (event : KeyEvent) : Bool :=
  event.key = .returnKey || event.key = .backSpace ||
    (event.key = .char 'j' && event.modifiers.ctrl && decide ('j' ∉ self.keybindings.cancel))

/-- The actions behind the commit: Return and BackSpace still do what they are for. -/
def afterTake (event : KeyEvent) : List EngineAction :=
  if event.key = .backSpace then [.deleteBack]
  else if event.key = .returnKey then [.passthrough]
  else []

/-- The key commits the focused candidate, and then does its own work. Return is passed on to
the application, BackSpace deletes what was committed last, and `C-j` does nothing more. -/
theorem handleSelecting_takes (htakes : self.takesFocused event)
    (hrow : s.candidates[s.index]? = some row) (horigin : s.origin[s.index]? = some origin) :
    self.handleSelecting event s = .ok ((self.commitRow s row origin).1,
      (self.commitRow s row origin).2 ++ afterTake event) := by
  have hcommit : self.commitCandidate s s.index = .ok (self.commitRow s row origin) :=
    commitCandidate_eq hrow horigin
  simp only [takesFocused, Bool.or_eq_true, Bool.and_eq_true, decide_eq_true_eq] at htakes
  unfold handleSelecting afterTake
  -- `C-j` comes behind the cancel key, so it takes the candidate only when it is not bound to
  -- cancel
  rcases htakes with (hreturn | hback) | ⟨⟨hj, hctrl⟩, hcancel⟩
  · rw [if_neg (by simp [hreturn]), if_neg (by simp [KeyEvent.printableChar, hreturn]),
      if_neg (by simp [hreturn]), if_pos hreturn, hcommit, if_neg (by simp [hreturn]),
      if_pos hreturn]
    rfl
  · rw [if_neg (by simp [hback]), if_neg (by simp [KeyEvent.printableChar, hback]), if_pos hback,
      hcommit, if_pos hback]
    rfl
  · rw [if_neg (by simp [hj]), if_neg (by simpa [KeyEvent.printableChar, hj] using hcancel),
      if_neg (by simp [hj]), if_neg (by simp [hj]), if_pos ⟨hj, hctrl⟩, hcommit,
      if_neg (by simp [hj]), if_neg (by simp [hj]), List.append_nil]

/-- The frame with `text` inserted at its cursor, and the last character of it taken back when the
key is BackSpace. -/
def receiving (event : KeyEvent) (frame : RegisterFrame) (text : Str) : RegisterFrame :=
  frame.withText (if event.key = .backSpace then (frame.zipper.insert text).edit .backspace
    else frame.zipper.insert text)

/-- The candidate was taken: its text went to the application, or to the cursor of the innermost
registration. -/
structure Taken (start : SkkEngine δ) (s : Selection) (row : Candidate) (event : KeyEvent)
    (r : SkkEngine δ × List EngineAction) : Prop where
  phase : r.1.phase = start.midashiDisplayMode.toPhase
  committed : start.registerStack = [] →
    r.1.registerStack = [] ∧ committedText r.2 = start.focusedText s row
  inserted : ∀ frame frames, start.registerStack = frame :: frames →
    committedText r.2 = [] ∧
      r.1.registerStack = receiving event frame (start.focusedText s row) :: frames

omit [DictionaryProvider δ] in
/-- A registration takes a text, and a BackSpace behind it. The text goes in at the cursor, and
then the last character before the cursor is cut out, which is the last one of the text when
there is one. -/
theorem interceptForRegister_deleteBack {frame : RegisterFrame} {frames : List RegisterFrame}
    (hself : self.Wf) (hstack : self.registerStack = frame :: frames)
    {rawActions : List EngineAction} (hredraws : RedrawsText rawActions)
    (hback : event.key = .backSpace) :
    Runs (self.interceptForRegister (rawActions ++ [.deleteBack])) fun r =>
      r.1 = { self with
        registerStack := receiving event frame (committedText rawActions) :: frames } ∧
      ∃ preedit, r.2 = rawActions.filter EngineAction.isKept ++ [.updatePreedit preedit] := by
  have hframe := hself.frames frame (by simp [hstack])
  have hinserted : (frame.withText (frame.zipper.insert (committedText rawActions))).Wf := by
    obtain ⟨frame', hinsert, hframe'⟩ := insert_ok hself hstack (committedText rawActions)
    rw [RegisterFrame.insert_zipper hframe] at hinsert
    cases hinsert
    exact hframe'
  -- The text goes in at the cursor, and the BackSpace then takes the character before it.
  have hreceived : (frame.withText (frame.zipper.insert (committedText rawActions))).backspace =
      .ok (receiving event frame (committedText rawActions)) := by
    have hedited := RegisterFrame.editBy_zipper hinserted .backspace
    rw [RegisterFrame.zipper_withText, RegisterFrame.withText_withText] at hedited
    rw [receiving, if_pos hback]
    exact hedited
  have hdeleted := RegisterFrame.backspace_runs hinserted
  rw [hreceived, runs_ok] at hdeleted
  obtain ⟨preedit, -, -, haction⟩ := preeditAction_eq (hself.withTop hstack hdeleted)
  unfold interceptForRegister
  rw [List.foldlM_append, foldlM_interceptStep_eq rawActions hself hstack hredraws.2,
    RegisterFrame.insert_zipper hframe, ok_bind, ok_bind, List.foldlM_cons]
  simp only [interceptStep, regBackspace, editTop, hreceived, ok_bind, List.foldlM_nil]
  rw [pure_bind, if_pos (.inl rfl), haction, ok_bind]
  exact runs_pure.mpr ⟨rfl, preedit, rfl⟩

/-- A registration takes a committed candidate, and what follows on it. Outside a registration
the text goes to the application as it is. Inside one it is inserted into the frame, and the
BackSpace that follows edits the frame as well. -/
theorem conclude_takes (hself : self.Wf) (s : Selection) (row : Candidate)
    (origin : CandidateOrigin) (event : KeyEvent) :
    Runs (conclude ((self.commitRow s row origin).1,
      (self.commitRow s row origin).2 ++ afterTake event)) (Taken self s row event) := by
  have hwf := commitRow_wf hself s row origin
  have hredraws := commitRow_redraws self s row origin
  have htext : committedText (self.commitRow s row origin).2 = self.focusedText s row :=
    committedText_commitRow self s row origin
  have hafter : committedText (afterTake event) = [] := by
    unfold afterTake
    split
    · rfl
    split <;> rfl
  have hstack' : (self.commitRow s row origin).1.registerStack = self.registerStack :=
    learnRow_registerStack self s row origin
  cases hstack : self.registerStack with
  | nil =>
      have hnil : conclude ((self.commitRow s row origin).1,
          (self.commitRow s row origin).2 ++ afterTake event) = .ok _ :=
        conclude_nil (hstack'.trans hstack)
      rw [hnil]
      refine runs_ok.mpr ⟨rfl, fun _ => ⟨hstack'.trans hstack, ?_⟩, ?_⟩
      · rw [committedText_append, htext, hafter, List.append_nil]
      · intro frame frames hcons
        rw [hstack] at hcons
        cases hcons
  | cons frame frames =>
      have hcons : (self.commitRow s row origin).1.registerStack = frame :: frames :=
        hstack'.trans hstack
      have hconclude : conclude ((self.commitRow s row origin).1,
          (self.commitRow s row origin).2 ++ afterTake event) =
          (self.commitRow s row origin).1.interceptForRegister
            ((self.commitRow s row origin).2 ++ afterTake event) :=
        conclude_cons (by simp [hcons])
      rw [hconclude]
      -- BackSpace is the one key that takes something back out of the frame
      by_cases hback : event.key = .backSpace
      · rw [afterTake, if_pos hback]
        refine (interceptForRegister_deleteBack hwf hcons hredraws hback).mono ?_
        rintro r ⟨hr, preedit, hactions⟩
        rw [htext] at hr
        refine ⟨by rw [hr]; rfl, fun hnil => ?_, fun top below hsame => ?_⟩
        · rw [hstack] at hnil
          cases hnil
        · rw [hstack] at hsame
          cases hsame
          refine ⟨?_, by rw [hr]⟩
          rw [hactions, committedText_append, committedText_filter_isKept]
          rfl
      · have hframe := hself.frames frame (by simp [hstack])
        have hquiet : EngineAction.deleteBack ∉ afterTake event := by
          unfold afterTake
          rw [if_neg hback]
          split <;> simp
        have hboth : RedrawsText ((self.commitRow s row origin).2 ++ afterTake event) :=
          ⟨by rw [List.any_append, hredraws.1]; rfl, by simp [hredraws.2, hquiet]⟩
        have hall : committedText ((self.commitRow s row origin).2 ++ afterTake event) =
            self.focusedText s row := by
          rw [committedText_append, htext, hafter, List.append_nil]
        obtain ⟨frame', hinsert, hframe'⟩ := insert_ok hwf hcons (committedText
          ((self.commitRow s row origin).2 ++ afterTake event))
        obtain ⟨preedit, -, -, haction⟩ := preeditAction_eq (hwf.withTop hcons hframe')
        rw [interceptForRegister_eq hwf hcons hboth hinsert, haction, ok_bind]
        rw [hall, RegisterFrame.insert_zipper hframe] at hinsert
        obtain rfl := Except.ok.inj hinsert
        refine runs_ok.mpr ⟨rfl, fun hnil => ?_, fun top below hsame => ?_⟩
        · rw [hstack] at hnil
          cases hnil
        · rw [hstack] at hsame
          cases hsame
          refine ⟨?_, by rw [receiving, if_neg hback]⟩
          rw [committedText_append, committedText_filter_isKept]
          rfl

/-- The press of a key that takes the focused candidate. In a selection the registration leaves
these keys to the handler, whether its frame is empty or not, so one statement covers the runs
inside and outside. -/
theorem processKey_takes [EucJp] (hself : self.Wf) (hphase : self.phase = .selecting s)
    (hrow : s.candidates[s.index]? = some row) (htakes : self.takesFocused event)
    (hcooks : self.cooks event) (htoggle : self.isToggle event = false) :
    Runs (self.processKey event) (Taken self s row event) := by
  have hs : s.Wf := (hself.phase_eq hphase).2
  obtain ⟨origin, horigin⟩ : ∃ origin, s.origin[s.index]? = some origin :=
    ⟨_, List.getElem?_eq_getElem (hs.origin_length ▸ hs.index_lt)⟩
  -- a selection is no ready state, and none of the keys is `C-g`
  have hkey : self.registrationKey event = none := by
    have hctrlG : isCtrlG event = false := by
      simp only [takesFocused, Bool.or_eq_true, Bool.and_eq_true, decide_eq_true_eq] at htakes
      rcases htakes with (hreturn | hback) | ⟨⟨hj, -⟩, -⟩
      · simp [isCtrlG, hreturn]
      · simp [isCtrlG, hback]
      · simp [isCtrlG, hj]
    unfold registrationKey
    rw [hphase]
    simp [inReadyState, hphase, SkkPhase.isKana, hctrlG, flushText]
  have hreaches : self.reachesHandler event := by simp [reachesHandler, hkey, htoggle]
  obtain ⟨r, hr, htaken⟩ := conclude_takes hself s row origin event
  rw [processKey_handler hcooks hreaches, dispatch_selecting hphase,
    handleSelecting_takes htakes hrow horigin, ok_bind, hr, ok_bind]
  refine runs_ok.mpr ⟨htaken.phase, fun hnil => ?_, fun frame frames hcons => ?_⟩
  · rw [committedText_withStatus]
    exact htaken.committed hnil
  · rw [committedText_withStatus]
    exact htaken.inserted frame frames hcons

end Take

/-! ### Every run -/

section Run
variable [DictionaryProvider δ] [EucJp] {event : KeyEvent} {history : History δ}

/-- The preedit on display is that of the engine, through raw mode too, whether or not the
adapter hides its preedit at a commit. The induction is on the session. -/
theorem shown_of_session {kanaTable : KanaTable} {keybindings : SkkKeybindings}
    {lispDirectives : Bool} {initialPhase : SkkPhase} {providers : List δ}
    (hrun : Session (fresh kanaTable keybindings lispDirectives initialPhase providers)
      history self) (hkeeps : ∀ v ∈ history, v.pre.spoilsPreedit v.input = false) (hides : Bool) :
    self.Shown (drawn hides [] (outputs history)) := by
  have hwf := fresh_wf kanaTable keybindings lispDirectives initialPhase providers
  refine hrun.history (fun history self => self.Shown (drawn hides [] (outputs history)))
    (fun self event => self.spoilsPreedit event = false) ?_ ?_ hkeeps
  · obtain ⟨hraw, hshown⟩ := displays_fresh kanaTable keybindings lispDirectives initialPhase
      providers
    rw [Shown, if_neg (by simp [hraw])]
    exact hshown
  · intro history s event s' actions hleading hshown hok hstep
    rw [outputs_snoc, drawn_append]
    exact shown_step (Session.wf hwf hleading) hok hshown hstep hides

/-- In every run whose keys spoil no preedit, a selection shows its focused candidate, and the
keys that take it send what is shown between the mark and the annotation. The candidate is in
the list, as the focus of a selection never leaves it. -/
theorem focused_of_session {kanaTable : KanaTable} {keybindings : SkkKeybindings}
    {lispDirectives : Bool} {initialPhase : SkkPhase} {providers : List δ}
    (hrun : Session (fresh kanaTable keybindings lispDirectives initialPhase providers)
      history self) (hkeeps : ∀ v ∈ history, v.pre.spoilsPreedit v.input = false) (hides : Bool)
    (hphase : self.phase = .selecting s) (htakes : self.takesFocused event)
    (hcooks : self.cooks event) (htoggle : self.isToggle event = false) :
    ∃ row, s.candidates[s.index]? = some row ∧
      drawn hides [] (outputs history) =
        self.placed ('▼' :: self.focusedText s row ++ row.note) ∧
      Runs (self.processKey event) (Taken self s row event) := by
  have hself : self.Wf := Session.wf (fresh_wf ..) hrun
  have hs : s.Wf := (hself.phase_eq hphase).2
  obtain ⟨row, hrow⟩ : ∃ row, s.candidates[s.index]? = some row :=
    ⟨_, List.getElem?_eq_getElem hs.index_lt⟩
  have hraw : self.rawMode = false := by
    simp only [cooks, Bool.and_eq_true, Bool.not_eq_true'] at hcooks
    exact hcooks.1.2
  have hshown := shown_of_session hrun hkeeps hides
  rw [Shown, if_neg (by simp [hraw])] at hshown
  exact ⟨row, hrow, displays_selecting hself hphase hrow hshown,
    processKey_takes hself hphase hrow htakes hcooks htoggle⟩

end Run

/-- The keys that open the registration of `b`, and show the second candidate of `あ` in it. -/
def nestedChoice : List KeyEvent :=
  KeyEvent.typed ['/', 'b'] ++ [.press .space {}] ++ KeyEvent.typed ['A'] ++
    [.press .space {}, .press .space {}]

/-- A registration takes the second candidate. The candidate is shown behind the prompt, and
Return puts it into the buffer of the frame instead of sending it. -/
theorem focused_of_session_nested : letI := EucJp.empty
    ∃ history self r, Session (fresh vowelTable {} true .hiragana [pagedDict]) history self ∧
      drawn false [] (outputs history) =
        ['[', '辞', '書', '登', '録', ']', ' ', 'b', ':', ' ', '▼', '阿'] ∧
      self.processKey (.press .returnKey {}) = .ok r ∧
      r.1.registerStack = [⟨['b'], ['b'], [], none, none, ['阿'], 3, true⟩] := by
  let _ := EucJp.empty
  obtain ⟨history, self, hrun, -, hkeeps, htakes, hcooks, htoggle, hstack, htrigger, hphase⟩ :=
    exists_session (fresh vowelTable {} true .hiragana [pagedDict]) nestedChoice
      (fun history self => (∀ v ∈ history, v.pre.spoilsPreedit v.input = false) ∧
        self.takesFocused (.press .returnKey {}) ∧ self.cooks (.press .returnKey {}) ∧
        self.isToggle (.press .returnKey {}) = false ∧
        self.registerStack = [⟨['b'], ['b'], [], none, none, [], 0, true⟩] ∧
        self.conversionTrigger = none ∧
        self.phase = .selecting ⟨['あ'], none, none, [.new ['亜'], .new ['阿'], .new ['唖']],
          [.dict ['あ'] ['亜'], .dict ['あ'] ['阿'], .dict ['あ'] ['唖']], 1⟩) (by decide +kernel)
  obtain ⟨row, hrow, hshown, r, hr, htaken⟩ :=
    focused_of_session hrun hkeeps false hphase htakes hcooks htoggle
  obtain rfl : Candidate.new ['阿'] = row := Option.some.inj hrow
  have hinserted := (htaken.inserted _ _ hstack).2
  have htext : ∀ s : Selection, s.okuri = none →
      self.focusedText s (.new ['阿']) = ['阿'] := by
    intro s hokuri
    rw [focusedText, htrigger, hokuri]
    rfl
  rw [htext _ rfl] at hinserted hshown
  refine ⟨history, self, r, hrun, ?_, hr, hinserted⟩
  rw [hshown, placed, hstack]
  rfl

end SkkEngine

end Y2Skk
