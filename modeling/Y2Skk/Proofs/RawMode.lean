import Y2Skk.Proofs.Display
import Y2Skk.Proofs.Effects
import Y2Skk.Proofs.Window

/-!
# `Y2Skk.Proofs.RawMode`: raw mode freezes the engine

Between two presses of a raw-mode toggle key every key is passed on and the engine stays
as it is. The first press hides the window and the preedit; what the second press draws is
up to `renderCurrentPhase`.

## The renderer

`renderCurrentPhase_preedit` says what it draws: the preedit of the state, or none where
the phase has no preedit of its own. In a registration such a phase has its prompt to draw
all the same, and the renderer clears it (`losesPrompt`). The page of a selection always
comes back.

## A stay in raw mode

`Freezes` is what it means for a stay to leave no trace: the keys in between are passed
on, the state at the end is the one at the start, and so is what is on display.
`freezes_iff_of_session` says when it holds: unless the prompt of a registration is all
there is to draw. It is about any state of any run with raw mode off, and about any keys
in between.
-/

set_option autoImplicit false

namespace Y2Skk

open Outcome Utf8 Transition

namespace SkkEngine

variable {δ : Type}

/-! ### The renderer -/

/-- The phase has no preedit of its own: direct input, or a kana mode with no pending
romaji. -/
def rendersNothing (self : SkkEngine δ) : Bool :=
  match self.phase with
  | .ascii | .wideAscii => true
  | .hiragana | .katakana | .halfWidthKatakana => self.kanaState.isEmpty
  | _ => false

/-- The prompt of a registration is all there is to draw, and the renderer does not draw it. -/
def losesPrompt (self : SkkEngine δ) : Bool := !self.registerStack.isEmpty && self.rendersNothing

/-- The preedit the actions leave on display is the one of the state. -/
def ShowsPreedit (self : SkkEngine δ) (actions : List EngineAction) : Prop :=
  ∃ preedit, self.buildPreedit = .ok preedit ∧
    (lastPreedit actions = some (.updatePreedit preedit) ∨
      lastPreedit actions = some .clearPreedit ∧ preedit = ⟨[], 0, none⟩)

/-- The renderer clears the preedit, or draws the one of the state. It clears where the state
has no text to show. -/
theorem renderCurrentPhase_preedit {self : SkkEngine δ} (hself : self.Wf) :
    Yields self.renderCurrentPhase fun actions =>
      if self.rendersNothing then actions = [.clearPreedit]
      else ∃ preedit, self.buildPreedit = .ok preedit ∧
        lastPreedit actions = some (.updatePreedit preedit) := by
  obtain ⟨preedit, hbuild, -, haction⟩ := preeditAction_eq hself
  have hdrawn : Yields (do return [← self.preeditAction]) fun actions =>
      ∃ preedit, self.buildPreedit = .ok preedit ∧
        lastPreedit actions = some (.updatePreedit preedit) := by
    rw [haction, ok_bind]
    exact yields_pure.mpr ⟨preedit, hbuild, rfl⟩
  have hclear : Yields (.ok [.clearPreedit] : Partial (List EngineAction)) fun actions =>
      actions = [.clearPreedit] := yields_ok.mpr rfl
  have hkana : Yields (if self.kanaState.isEmpty then .ok [.clearPreedit]
      else do return [← self.preeditAction] : Partial (List EngineAction)) fun actions =>
        if self.kanaState.isEmpty then actions = [.clearPreedit]
        else ∃ preedit, self.buildPreedit = .ok preedit ∧
          lastPreedit actions = some (.updatePreedit preedit) := by
    by_cases hempty : self.kanaState.isEmpty
    · rw [if_pos hempty]
      simp [hempty]
    · rw [if_neg hempty]
      simpa [hempty] using hdrawn
  unfold renderCurrentPhase rendersNothing
  cases hphase : self.phase with
  | ascii | wideAscii => exact hclear
  | hiragana | katakana | halfWidthKatakana => exact hkana
  | selecting s =>
      have hs := (hself.phase_eq hphase).2
      dsimp only
      rw [haction, ok_bind]
      refine (listingShowAction_yields self s.candidates s.index).bind fun page hpage => ?_
      -- The page comes after the preedit.
      cases page with
      | none => exact yields_pure.mpr ⟨preedit, hbuild, rfl⟩
      | some a =>
          obtain ⟨rows, keys, rfl⟩ := hpage a rfl
          exact yields_pure.mpr ⟨preedit, hbuild, rfl⟩
  | _ => exact hdrawn

/-- Outside a registration nothing is all there is to draw. In a kana mode without romaji, or in
direct input, the inner preedit is empty. Inside a registration the prompt comes in front of it,
so the preedit is not empty. -/
theorem buildPreedit_of_rendersNothing {self : SkkEngine δ} (hself : self.Wf)
    (h : self.rendersNothing) {preedit : Preedit} (hbuild : self.buildPreedit = .ok preedit) :
    preedit = ⟨[], 0, none⟩ ↔ self.registerStack = [] := by
  have hplain : self.buildPreedit = self.placePreedit [] 0 false := by
    have hphase := hself.phase
    unfold buildPreedit plainPreedit buildInnerPreedit
    cases hcase : self.phase <;>
      simp_all [rendersNothing, PhaseWf]
  rw [hplain] at hbuild
  unfold placePreedit at hbuild
  -- A registration draws at least its prompt.
  cases hstack : self.registerStack with
  | nil =>
      rw [hstack] at hbuild
      cases hbuild
      simp
  | cons frame frames =>
      obtain ⟨before, after, hcommitted, hcursor⟩ :=
        (hself.frames frame (by simp [hstack])).cursor
      rw [hstack] at hbuild
      dsimp only at hbuild
      rw [hcommitted, ← hcursor, sliceTo_append, sliceFrom_append] at hbuild
      cases hbuild
      simp [registerPrompt]

/-- The renderer brings the preedit back unless it loses the prompt. In a phase that renders
nothing it clears the preedit, which is right just when there is no registration. -/
theorem showsPreedit_iff {self : SkkEngine δ} (hself : self.Wf) {actions : List EngineAction}
    (hrender : self.renderCurrentPhase = .ok actions) :
    self.ShowsPreedit actions ↔ self.losesPrompt = false := by
  have hrendered := renderCurrentPhase_preedit hself actions hrender
  dsimp only at hrendered
  unfold losesPrompt
  -- in the phases that render something the prompt is drawn with it
  by_cases hnothing : self.rendersNothing
  · rw [if_pos hnothing] at hrendered
    subst hrendered
    rw [hnothing, Bool.and_true, Bool.not_eq_false', List.isEmpty_iff]
    constructor
    · rintro ⟨preedit, hbuild, hlast | ⟨-, hnil⟩⟩
      · cases hlast
      · exact (buildPreedit_of_rendersNothing hself hnothing hbuild).mp hnil
    · intro hstack
      obtain ⟨preedit, hbuild, -⟩ := preeditAction_eq hself
      exact ⟨preedit, hbuild, .inr ⟨rfl,
        (buildPreedit_of_rendersNothing hself hnothing hbuild).mpr hstack⟩⟩
  · rw [if_neg hnothing] at hrendered
    obtain ⟨preedit, hbuild, hlast⟩ := hrendered
    simp only [hnothing, Bool.and_false, iff_true]
    exact ⟨preedit, hbuild, .inl hlast⟩

/-- The renderer draws a preedit in any case, or clears it, so nothing of the display before raw
mode is left. -/
theorem lastPreedit_isSome_of_render {self : SkkEngine δ} (hself : self.Wf)
    {actions : List EngineAction} (hrender : self.renderCurrentPhase = .ok actions) :
    (lastPreedit actions).isSome := by
  have hrendered := renderCurrentPhase_preedit hself actions hrender
  dsimp only at hrendered
  split at hrendered
  · rw [hrendered]
    rfl
  · obtain ⟨preedit, -, hlast⟩ := hrendered
    rw [hlast]
    rfl

/-! ### A stay in raw mode -/

section Stay
variable {self : SkkEngine δ} {enter leave : KeyEvent} {inner : List KeyEvent}
  {status actions : List EngineAction}

/-- The history of a stay in raw mode: `enter` adds `status` to what it hides, the keys
`inner` are passed on, and `leave` returns `actions`. -/
def rawStay (self : SkkEngine δ) (enter leave : KeyEvent) (inner : List KeyEvent)
    (status actions : List EngineAction) : History δ :=
  [⟨self, enter, [.hideCandidates, .clearPreedit] ++ status⟩]
    ++ inner.map (fun e => ⟨{ self with rawMode := true }, e, [.passthrough]⟩)
    ++ [⟨{ self with rawMode := true }, leave, actions⟩]

/-- The keys of a stay: the two presses and those in between. -/
theorem rawStay_inputs : (self.rawStay enter leave inner status actions).map Visit.input
    = [enter] ++ inner ++ [leave] := by
  have hinputs : (inner.map fun e => (⟨{ self with rawMode := true }, e, [.passthrough]⟩ :
      Visit (SkkEngine δ) KeyEvent EngineAction)).map Visit.input = inner := by
    simp [Function.comp_def]
  simp [rawStay, hinputs]

/-- The actions of a stay: the display is hidden, each key in between is passed on, and the last
press draws. -/
theorem outputs_rawStay : outputs (self.rawStay enter leave inner status actions)
    = [.hideCandidates, .clearPreedit] ++ status ++ inner.map (fun _ => .passthrough)
      ++ actions := by
  have hpassed : outputs (inner.map fun e => (⟨{ self with rawMode := true }, e, [.passthrough]⟩ :
      Visit (SkkEngine δ) KeyEvent EngineAction)) = inner.map fun _ => .passthrough := by
    unfold outputs
    rw [List.flatMap_map]
    exact List.flatMap_pure_eq_map ..
  rw [rawStay, outputs_snoc]
  simp only [outputs, List.flatMap_append, List.flatMap_cons, List.flatMap_nil,
    List.append_nil] at hpassed ⊢
  rw [hpassed]

/-- The last press decides what preedit is on display. -/
theorem lastPreedit_rawStay {a : EngineAction} (h : lastPreedit actions = some a) :
    lastPreedit (outputs (self.rawStay enter leave inner status actions)) = some a := by
  rw [outputs_rawStay, Y2Skk.lastPreedit_append, h]
  rfl

/-- The page is hidden while raw mode is on, and the last press shows it again. The keys in
between pass through and do not touch the window. -/
theorem windowShown_rawStay (hstatus : IsStatus status) (h : lastWindow actions = self.page) :
    windowShown (outputs (self.rawStay enter leave inner status actions)) = self.page := by
  have hpassed : lastWindow (inner.map fun _ => EngineAction.passthrough) = none := by
    unfold lastWindow
    rw [List.filter_eq_nil_iff.mpr]
    · rfl
    · intro a ha
      obtain ⟨e, -, rfl⟩ := List.mem_map.mp ha
      simp [EngineAction.isWindow]
  have hhidden : lastWindow ([.hideCandidates, .clearPreedit] ++ status
      ++ inner.map fun _ => EngineAction.passthrough) = some .hideCandidates := by
    rw [Y2Skk.lastWindow_append, hpassed, hstatus.lastWindow_append]
    rfl
  unfold windowShown
  rw [outputs_rawStay, Y2Skk.lastWindow_append, hhidden, h]
  cases hcase : self.page with
  | none => rfl
  | some page =>
      obtain ⟨rows, keys, rfl⟩ := page_isShow hcase
      rfl

/-- A visit inside a history, neither its first nor its last one, is one of those in between. -/
theorem mem_of_inside {mid first last : History δ}
    {a b v : Visit (SkkEngine δ) KeyEvent EngineAction}
    (h : [a] ++ mid ++ [b] = first ++ v :: last) (hfirst : first ≠ []) (hlast : last ≠ []) :
    v ∈ mid := by
  obtain ⟨a', first, rfl⟩ := List.exists_cons_of_ne_nil hfirst
  obtain ⟨last, b', rfl⟩ := (List.eq_nil_or_concat' last).resolve_left hlast
  have hinside : mid ++ [b] = (first ++ v :: last) ++ [b'] := by
    have htail := congrArg List.tail h
    simpa using htail
  have hmid : mid = first ++ v :: last := (List.append_inj' hinside rfl).1
  rw [hmid]
  simp

/-- A stay in raw mode leaves no trace: from `start` through the history `frozen` to
`self'`. -/
structure Freezes (start : SkkEngine δ) (frozen : History δ) (self' : SkkEngine δ) : Prop where
  /-- The keys between the toggles are passed on. -/
  passes : ∀ first v last, frozen = first ++ v :: last → first ≠ [] → last ≠ [] →
    v.outputs = [.passthrough]
  dict : ∀ v ∈ frozen, v.pre.dict = start.dict
  state : self' = start
  /-- The preedit and the page of the state are on display again. -/
  preedit : start.ShowsPreedit (outputs frozen)
  page : windowShown (outputs frozen) = start.page

/-- A stay leaves no trace when its last press shows the preedit: everything else about it is
settled. The keys inside change no state, and the state after it is the one before. -/
theorem freezes_rawStay_iff (hstatus : IsStatus status) (hdrawn : (lastPreedit actions).isSome)
    (hwindow : lastWindow actions = self.page) :
    Freezes self (self.rawStay enter leave inner status actions) self ↔
      self.ShowsPreedit actions := by
  obtain ⟨a, ha⟩ := Option.isSome_iff_exists.mp hdrawn
  have hshows : self.ShowsPreedit (outputs (self.rawStay enter leave inner status actions)) ↔
      self.ShowsPreedit actions := by
    unfold ShowsPreedit
    rw [lastPreedit_rawStay ha, ha]
  constructor
  · intro h
    exact hshows.mp h.preedit
  · intro h
    refine ⟨?_, ?_, rfl, hshows.mpr h, windowShown_rawStay hstatus hwindow⟩
    · -- Inside the stay every event is passed on.
      intro first v last hsplit hfirst hlast
      obtain ⟨e, -, rfl⟩ := List.mem_map.mp (mem_of_inside hsplit hfirst hlast)
      rfl
    · intro v hv
      rcases List.mem_append.mp hv with hv | hv
      · rcases List.mem_append.mp hv with hv | hv
        · cases List.mem_singleton.mp hv
          rfl
        · obtain ⟨e, -, rfl⟩ := List.mem_map.mp hv
          rfl
      · cases List.mem_singleton.mp hv
        rfl

end Stay

/-! ### A frozen run -/

section Frozen
variable [DictionaryProvider δ] [EucJp] {self self' : SkkEngine δ} {event : KeyEvent}
  {actions : List EngineAction}

/-- The press of a raw-mode toggle key. -/
def pressesRawToggle (self : SkkEngine δ) (event : KeyEvent) : Bool :=
  event.isPress && self.isRawToggle event

/-- The first press enters raw mode and hides the display. No field but the flag changes. -/
theorem step_enterRaw (hraw : self.rawMode = false) (htoggle : self.pressesRawToggle event) :
    ∃ status, IsStatus status ∧ Step self event { self with rawMode := true }
      ([.hideCandidates, .clearPreedit] ++ status) := by
  obtain ⟨hpress, htoggle⟩ := Bool.and_eq_true_iff.mp htoggle
  have hentered : self.handlePress event
      = .ok ({ self with rawMode := true }, [.hideCandidates, .clearPreedit]) := by
    unfold handlePress
    rw [if_neg (by simp [hraw]), if_pos htoggle]
  unfold Step processKey
  rw [if_neg (by simp [hpress]), hentered, ok_bind]
  dsimp only
  split
  · exact ⟨_, .inr ⟨_, rfl⟩, rfl⟩
  · exact ⟨[], .inl rfl, rfl⟩

/-- In raw mode a key that is no toggle is passed on, presses and releases alike. -/
theorem step_raw (hraw : self.rawMode) (htoggle : self.pressesRawToggle event = false) :
    Step self event self [.passthrough] := by
  unfold Step processKey
  by_cases hpress : event.isPress
  · have hpassed : self.handlePress event = .ok (self, [.passthrough]) := by
      have hkey : self.isRawToggle event = false := by
        simpa [pressesRawToggle, hpress] using htoggle
      unfold handlePress
      rw [if_pos hraw, if_neg (by simp [hkey])]
    rw [if_neg (by simp [hpress]), hpassed, ok_bind]
    dsimp only
    rw [if_neg (by simp)]
  · rw [if_pos (by simpa using hpress)]

/-- The second press draws the state it returns to. The state is the one that was frozen, with
raw mode off, so the page and the preedit are those of that state. -/
theorem step_leaveRaw (hself : self.Wf) (hraw : self.rawMode = false)
    (htoggle : self.pressesRawToggle event) :
    ∃ actions status, IsStatus status ∧ self.renderCurrentPhase = .ok actions ∧
      lastWindow actions = self.page ∧
      Step { self with rawMode := true } event self (actions ++ status) := by
  obtain ⟨hpress, htoggle⟩ := Bool.and_eq_true_iff.mp htoggle
  have hsame : ({ self with rawMode := false } : SkkEngine δ) = self := by rw [← hraw]
  obtain ⟨actions, hrender, hwindow, -⟩ := renderCurrentPhase_runs hself
  have hleft : SkkEngine.handlePress { self with rawMode := true } event
      = .ok (self, actions) := by
    unfold handlePress
    rw [if_pos rfl, if_pos (by exact htoggle)]
    dsimp only
    rw [hsame, hrender]
    rfl
  unfold Step processKey
  rw [if_neg (by simp [hpress]), hleft, ok_bind]
  dsimp only
  split
  · exact ⟨actions, _, .inr ⟨_, rfl⟩, hrender, hwindow, rfl⟩
  · exact ⟨actions, [], .inl rfl, hrender, hwindow, by rw [List.append_nil]⟩

/-- The keys between the two presses leave the frozen state alone, and each is passed on by
itself. -/
theorem session_raw (hraw : self.rawMode) {start : SkkEngine δ} {before : History δ}
    (inner : List KeyEvent) (hinner : ∀ e ∈ inner, self.pressesRawToggle e = false)
    (hrun : Session start before self) :
    Session start (before ++ inner.map fun e => ⟨self, e, [.passthrough]⟩) self := by
  -- The induction is on the keys in between; each leaves the frozen state as it found it.
  induction inner generalizing before with
  | nil => simpa using hrun
  | cons e inner ih =>
      have hstep : Step self e self [.passthrough] := step_raw hraw (hinner e (by simp))
      have hrest := ih (fun e' he' => hinner e' (by simp [he'])) (hrun.snoc hstep)
      rwa [List.append_assoc] at hrest

/-- In every state of every run with raw mode off: a stay in raw mode leaves no trace,
exactly unless the prompt of a registration is all there is to draw. -/
theorem freezes_iff_of_session {kanaTable : KanaTable} {keybindings : SkkKeybindings}
    {lispDirectives : Bool} {initialPhase : SkkPhase} {providers : List δ} {history : History δ}
    (hrun : Session (fresh kanaTable keybindings lispDirectives initialPhase providers)
      history self)
    (hraw : self.rawMode = false) {enter leave : KeyEvent} {inner : List KeyEvent}
    (henter : self.pressesRawToggle enter) (hleave : self.pressesRawToggle leave)
    (hinner : ∀ e ∈ inner, self.pressesRawToggle e = false) :
    ∃ frozen self', Session self frozen self' ∧
      frozen.map Visit.input = [enter] ++ inner ++ [leave] ∧
      (Freezes self frozen self' ↔ self.losesPrompt = false) := by
  have hself := Session.wf (fresh_wf ..) hrun
  obtain ⟨status, hstatus, hentered⟩ := step_enterRaw hraw henter
  obtain ⟨actions, status', hstatus', hrender, hwindow, hleft⟩ := step_leaveRaw hself hraw hleave
  -- The stay is one step in, one step for each inner event, and one step out, which leads back to
  -- `self`.
  have hkept : Session self ([⟨self, enter, [.hideCandidates, .clearPreedit] ++ status⟩]
      ++ inner.map fun e => ⟨{ self with rawMode := true }, e, [.passthrough]⟩)
      { self with rawMode := true } :=
    session_raw rfl inner hinner (Run.nil.snoc hentered)
  have hdrawn : lastPreedit (actions ++ status') = lastPreedit actions :=
    hstatus'.lastPreedit_append
  have hsome : (lastPreedit (actions ++ status')).isSome := by
    rw [hdrawn]
    exact lastPreedit_isSome_of_render hself hrender
  -- What is sent on leaving is the page of the state and a preedit; only the latter can be the
  -- wrong one.
  have hpage : lastWindow (actions ++ status') = self.page := by
    rw [hstatus'.lastWindow_append, hwindow]
  refine ⟨_, self, hkept.snoc hleft, rawStay_inputs,
    (freezes_rawStay_iff hstatus hsome hpage).trans ?_⟩
  rw [← showsPreedit_iff hself hrender]
  unfold ShowsPreedit
  rw [hdrawn]

end Frozen

/-! ### The prompt that is lost -/

/-- Settings with a raw-mode toggle key. -/
def rawSettings : SkkKeybindings := { rawModeToggleKeys := [(.f 12, {})] }

/-- In a registration nothing is drawn when raw mode is left. The prompt was on the screen
before, and the preedit is cleared instead of drawn. -/
theorem prompt_lost :
    letI := EucJp.empty
    ∃ (history frozen : History Empty) (self self' : SkkEngine Empty),
      Session (fresh vowelTable rawSettings true .hiragana []) history self ∧
      history.map Visit.input = KeyEvent.typed ['A'] ++ [.press .space {}] ∧
      self.rawMode = false ∧ Session self frozen self' ∧
      frozen.map Visit.input = [.press (.f 12) {}, .press (.f 12) {}] ∧
      ¬ Freezes self frozen self' := by
  let _ := EucJp.empty
  have hrecord := exists_session (fresh vowelTable rawSettings true .hiragana [])
    (KeyEvent.typed ['A'] ++ [.press .space {}])
    (fun _ (self : SkkEngine Empty) => self.rawMode = false ∧
      (∃ preedit ∈ self.buildPreedit.toOption, preedit.text ≠ []) ∧
      (self.record [.press (.f 12) {}, .press (.f 12) {}]).map (fun r =>
        decide (lastPreedit (outputs r.1) = some .clearPreedit)) = .ok true)
    (by decide +kernel)
  obtain ⟨history, self, hrun, hinputs, hraw, ⟨preedit, hpreedit, htext⟩, hfrozen⟩ := hrecord
  obtain ⟨frozen, self', hstay, hkeys, hlast⟩ := exists_session self _
    (fun (frozen : History Empty) _ => lastPreedit (outputs frozen) = some .clearPreedit) hfrozen
  refine ⟨history, frozen, self, self', hrun, hinputs, hraw, hstay, hkeys, ?_⟩
  intro hfreezes
  obtain ⟨preedit', hbuild, hshown | ⟨-, hnil⟩⟩ := hfreezes.preedit
  · rw [hlast] at hshown
    cases hshown
  · rw [ok_of_mem_toOption hpreedit] at hbuild
    cases hbuild
    rw [hnil] at htext
    exact htext rfl

/-- A stay in raw mode during a reading. The key inside would change the mode of the engine, and
is passed on to the application. -/
theorem freezes_iff_of_session_reading :
    letI := EucJp.empty
    ∃ (history frozen : History Empty) (self self' : SkkEngine Empty),
      Session (fresh vowelTable rawSettings true .hiragana []) history self ∧
      self.phase = .midashi ['あ'] [] ∧ Session self frozen self' ∧
      frozen.map Visit.input =
        [.press (.f 12) {}, .press (.char 'q') { ctrl := true }, .press (.f 12) {}] ∧
      Freezes self frozen self' := by
  let _ := EucJp.empty
  have hrecord := exists_session (fresh vowelTable rawSettings true .hiragana [])
    (KeyEvent.typed ['A']) (fun _ (self : SkkEngine Empty) => self.rawMode = false ∧
      self.phase = .midashi ['あ'] [] ∧ self.pressesRawToggle (.press (.f 12) {}) ∧
      self.pressesRawToggle (.press (.char 'q') { ctrl := true }) = false ∧
      self.losesPrompt = false) (by decide +kernel)
  obtain ⟨history, self, hrun, -, hraw, hphase, htoggle, hkey, hprompt⟩ := hrecord
  obtain ⟨frozen, self', hstay, hkeys, hiff⟩ := freezes_iff_of_session hrun hraw htoggle htoggle
    fun e he => by cases List.mem_singleton.mp he; exact hkey
  exact ⟨history, frozen, self, self', hrun, hphase, hstay, hkeys, hiff.mpr hprompt⟩

end SkkEngine

end Y2Skk
