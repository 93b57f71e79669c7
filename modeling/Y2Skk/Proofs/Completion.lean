import Y2Skk.Proofs.Stack

/-!
# `Y2Skk.Proofs.Completion`: completions belong to their `Midashi` session

The ghost text is a headword that continues a prefix typed in the current `Midashi`
session. A toggle key, Return in a registration, and C-g in a registration leave the phase
without dropping the completion. Over a run without them, `completion_of_session` says
that a completion is there only in `Midashi`, that it continues its prefix, and that the
prefix was the reading at some state of the session.

## The trace

The completion is a field of the engine beside the phase, so nothing in its type ties it
to the reading. `CompletionTraced` does, and it speaks of the history: the prefix was the
reading at an earlier visit, and the phase has been `Midashi` ever since. One step either
keeps the completion with its phase, or replaces it by one whose prefix is the reading of
this very state.

## The providers

That the preview continues the prefix is a promise of the dictionaries,
`CompletesPrefixes`: what they offer for a prefix begins with it. The providers under
`dict/` keep it.
-/

set_option autoImplicit false

namespace Y2Skk

open Outcome Utf8 Transition

namespace SkkEngine

variable {δ : Type} [DictionaryProvider δ]

/-- The key leaves `Midashi` without dropping the completion: one of the three ways out that do
not go through the phase handler. -/
def strandsCompletion (self : SkkEngine δ) (event : KeyEvent) : Bool :=
  event.isPress && !self.rawMode && !self.isRawToggle event && self.leavesCompletion event

/-- `kanaBuf` was the reading at some state of the current `Midashi` session: that state
and all since then are in `Midashi`. -/
def ReadInSession (history : History δ) (self : SkkEngine δ) (kanaBuf : Str) : Prop :=
  self.phase.isMidashi ∧ ((∃ romanBuf, self.phase = .midashi kanaBuf romanBuf) ∨
    ∃ before v after romanBuf, history = before ++ v :: after ∧
      v.pre.phase = .midashi kanaBuf romanBuf ∧ ∀ w ∈ after, w.pre.phase.isMidashi)

omit [DictionaryProvider δ] in
/-- The session goes on when the next state is in `Midashi` too. A prefix that was the reading
of the last state is then the reading at the last visit of the longer history. -/
theorem ReadInSession.snoc {history : History δ} {self self' : SkkEngine δ} {kanaBuf : Str}
    {v : Visit (SkkEngine δ) KeyEvent EngineAction} (h : ReadInSession history self kanaBuf)
    (hpre : v.pre = self) (hphase : self'.phase.isMidashi) :
    ReadInSession (history ++ [v]) self' kanaBuf := by
  refine ⟨hphase, .inr ?_⟩
  rcases h.2 with ⟨romanBuf, hread⟩ | ⟨before, v0, after, romanBuf, rfl, hread, hafter⟩
  · exact ⟨history, v, [], romanBuf, rfl, hpre ▸ hread, fun w hw => by cases hw⟩
  · refine ⟨before, v0, after ++ [v], romanBuf, by simp, hread, fun w hw => ?_⟩
    rcases List.mem_append.mp hw with hw | hw
    · exact hafter w hw
    · rw [List.mem_singleton.mp hw, hpre]
      exact h.1

/-- A completion continues a prefix that was read in the current session. -/
def CompletionTraced (history : History δ) (self : SkkEngine δ) : Prop :=
  ∀ c, self.completion = some c →
    c.cyclePrefix <+: c.preview ∧ ReadInSession history self c.cyclePrefix

omit [DictionaryProvider δ] in
/-- A step that changes neither the phase nor the completion keeps the trace: the session of the
reading goes on by one visit. -/
theorem CompletionTraced.snoc_same {history : History δ} {self self' : SkkEngine δ}
    {v : Visit (SkkEngine δ) KeyEvent EngineAction} (h : CompletionTraced history self)
    (hpre : v.pre = self) (hphase : self'.phase = self.phase)
    (hcompletion : self'.completion = self.completion) :
    CompletionTraced (history ++ [v]) self' := by
  intro c hc
  obtain ⟨hleading, hread⟩ := h c (hcompletion ▸ hc)
  exact ⟨hleading, hread.snoc hpre (hphase ▸ hread.1)⟩

/-- One key keeps the trace of the completion, unless it strands the completion. The new prefix
is either read in this very state or that of the completion before, whose trace is extended by
the key. -/
theorem completion_step [EucJp] (hδ : CompletesPrefixes δ) {self self' : SkkEngine δ}
    {event : KeyEvent} {actions : List EngineAction} {history : History δ} (hself : self.Wf)
    (hkey : self.strandsCompletion event = false) (hbefore : CompletionTraced history self)
    (hstep : Step self event self' actions) :
    CompletionTraced (history ++ [⟨self, event, actions⟩]) self' := by
  obtain ⟨r, status, hkeyStep, -, heq⟩ := (processKey_runs hself event).of_ok hstep
  obtain ⟨rfl, rfl⟩ := Prod.mk.inj heq
  cases hkeyStep with
  | ignored _ => exact hbefore.snoc_same rfl rfl rfl
  | enterRaw _ _ _ => exact hbefore.snoc_same rfl rfl rfl
  | leaveRaw _ _ _ => exact hbefore.snoc_same rfl rfl rfl
  | cooked hpress hraw htoggle hcooked =>
      rw [strandsCompletion, hpress, hraw, htoggle] at hkey
      have hleaves : self.leavesCompletion event = false := by simpa using hkey
      have hok : self.CompletionOk := fun c hc => ⟨(hbefore c hc).2.1, (hbefore c hc).1⟩
      intro c' hc'
      obtain ⟨hleading, kanaBuf, romanBuf, hphase, hfrom⟩ :=
        (hcooked.completion hδ hok).resolve_right (by rw [hleaves]; simp) c' hc'
      have hmidashi : r.1.phase.isMidashi := by rw [hphase]; rfl
      refine ⟨hleading, ?_⟩
      -- The prefix is the reading of this very state, or that of the old completion.
      rcases hfrom with hread | ⟨c, hc, hsame⟩
      · exact ⟨hmidashi, .inl ⟨romanBuf, hread ▸ hphase⟩⟩
      · exact hsame ▸ (hbefore c hc).2.snoc rfl hmidashi

/-- Over every run of a fresh engine in which no key strands a completion, with providers that
complete prefixes: a completion is there only in `Midashi`, and its preview continues a reading
of the current `Midashi` session. -/
theorem completion_of_session [EucJp] (hδ : CompletesPrefixes δ) {kanaTable : KanaTable}
    {keybindings : SkkKeybindings} {lispDirectives : Bool} {initialPhase : SkkPhase}
    {providers : List δ} {history : History δ} {self : SkkEngine δ}
    (hrun : Session (fresh kanaTable keybindings lispDirectives initialPhase providers)
      history self)
    (hkeys : ∀ v ∈ history, v.pre.strandsCompletion v.input = false)
    {c : CompletionState} (hc : self.completion = some c) :
    self.phase.isMidashi ∧ c.cyclePrefix <+: c.preview ∧
      ReadInSession history self c.cyclePrefix := by
  have hwf := fresh_wf kanaTable keybindings lispDirectives initialPhase providers
  have hfresh : CompletionTraced []
      (fresh kanaTable keybindings lispDirectives initialPhase providers) := by
    obtain ⟨dict, phase, -, heq⟩ :=
      fresh_eq kanaTable keybindings lispDirectives initialPhase providers
    intro c hc
    rw [heq] at hc
    cases hc
  -- Well-formedness goes along with the trace, since a step needs both.
  have htraced : CompletionTraced history self := by
    refine hrun.history CompletionTraced (fun self event => self.strandsCompletion event = false)
      hfresh ?_ hkeys
    intro history s event s' actions hleading hs hok hstep
    exact completion_step hδ (Session.wf hwf hleading) hok hs hstep
  obtain ⟨hleading, hread⟩ := htraced c hc
  exact ⟨hread.1, hleading, hread⟩

/-! ### The completion that outlives its session -/

/-- A user dictionary with the one headword `ああ`. -/
def vowelDict : UserDict := (UserDict.empty.learn ⟨['あ', 'あ'], none, [⟨['x'], none, none⟩]⟩).1

/-- After the toggle key the completion of the abandoned reading is still there, in direct
input, where its ghost text has nothing to continue. -/
theorem completion_after_toggle :
    letI := EucJp.empty
    ∃ (history : History UserDict) (self : SkkEngine UserDict),
      Session (fresh vowelTable {} true .hiragana [vowelDict]) history self ∧
      history.map Visit.input = [.press (.char 'A') {}, .press .space { shift := true }] ∧
      self.completion = some ⟨['あ'], 1, ['あ', 'あ']⟩ ∧ self.phase = .ascii := by
  let _ := EucJp.empty
  exact exists_session _ _
    (fun _ self => self.completion = some ⟨['あ'], 1, ['あ', 'あ']⟩ ∧ self.phase = .ascii)
    (by decide +kernel)

/-- A run that meets the condition: one capital starts the reading `あ`, and the dictionary with
あ completes it at once. -/
theorem completion_of_session_vowel :
    letI := EucJp.empty
    ∃ (history : History UserDict) (self : SkkEngine UserDict) (c : CompletionState),
      Session (fresh vowelTable {} true .hiragana [vowelDict]) history self ∧
      self.completion = some c ∧ self.phase.isMidashi ∧ c.cyclePrefix <+: c.preview ∧
      ReadInSession history self c.cyclePrefix := by
  let _ := EucJp.empty
  have hrecord := exists_session (fresh vowelTable {} true .hiragana [vowelDict])
    [.press (.char 'A') {}]
    (fun (history : History UserDict) self =>
      (∀ v ∈ history, v.pre.strandsCompletion v.input = false) ∧ self.completion.isSome)
    (by decide +kernel)
  obtain ⟨history, self, hrun, -, hkeys, hsome⟩ := hrecord
  obtain ⟨c, hc⟩ := Option.isSome_iff_exists.mp hsome
  have hprefixes : CompletesPrefixes UserDict := fun _ _ _ h => UserDict.prefix_of_mem_complete h
  exact ⟨history, self, c, hrun, hc, completion_of_session hprefixes hrun hkeys hc⟩

end SkkEngine

end Y2Skk
