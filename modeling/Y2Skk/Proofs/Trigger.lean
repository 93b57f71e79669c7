import Y2Skk.Proofs.NoPanic

/-!
# `Y2Skk.Proofs.Trigger`: the conversion trigger belongs to its conversion

A trigger character typed at the end of a reading starts a conversion, and is appended to
the text that conversion commits. It outlives the conversion in three cases: the reading
has no candidates, a toggle key is pressed, or C-g aborts the conversion inside a
registration.

## The trace

`StartedBy` is a statement about the history of a run: some step has typed the trigger at
the end of the reading of a selection, and since then the engine has been in that
selection, with whatever candidate focused. `TriggerTraced` says that a pending trigger
has such a trace, and that its selection is still open.

## Over a run

`strandsTrigger` names the three cases, as a condition on the state and the key.
`trigger_step` keeps the trace over any other key, and over a run without these steps,
`trigger_of_session` traces a pending trigger back to the key that typed it and to the
selection that key opened.
-/

set_option autoImplicit false

namespace Y2Skk

open Outcome Utf8 Transition

namespace SkkEngine

variable {δ : Type} [DictionaryProvider δ]

/-- After the key a trigger is pending with no conversion to belong to: the key types one
for a reading without candidates, or abandons the conversion of a pending one. -/
def strandsTrigger (self : SkkEngine δ) (event : KeyEvent) : Bool :=
  event.isPress && !self.rawMode && !self.isRawToggle event &&
    (self.leavesTrigger event || (self.typedNow event).any fun typed => !typed.found)

/-- The trigger `t` was typed in the step `v`, at the end of the reading of `s`. -/
structure Typed (v : Visit (SkkEngine δ) KeyEvent EngineAction) (s : Selection) (t : Str) :
    Prop where
  isPress : v.input.isPress
  cooked : v.pre.rawMode = false
  typed : ∃ found, v.pre.typedNow v.input = some ⟨s.midashi, t, found⟩

/-- The selection `s` was opened by typing the trigger `t`: after the step that did, the
history goes through states of `s` alone, with whatever candidate focused. -/
def StartedBy (history : History δ) (s : Selection) (t : Str) : Prop :=
  ∃ before v after, history = before ++ v :: after ∧ Typed v s t ∧
    ∀ w ∈ after, ∃ index, w.pre.phase.selection? = some { s with index := index }

omit [DictionaryProvider δ] in
/-- A state of `s` with another candidate focused is still a state of `s`. -/
theorem reindex_eq {s s' : Selection} (h : s' = { s with index := s'.index }) (index : Nat) :
    ({ s' with index := index } : Selection) = { s with index := index } := by
  rw [h]

/-- A step that starts in the selection and stays in it makes the trace longer. Only the focused
index may change, and the trace is about the selection with any index. -/
theorem StartedBy.snoc {history : History δ} {s s' : Selection} {t : Str}
    {v : Visit (SkkEngine δ) KeyEvent EngineAction} (h : StartedBy history s t)
    (hpre : v.pre.phase.selection? = some s) (hs' : s' = { s with index := s'.index }) :
    StartedBy (history ++ [v]) s' t := by
  obtain ⟨before, v0, after, rfl, htyped, hafter⟩ := h
  have hmidashi : s'.midashi = s.midashi := by rw [hs']
  refine ⟨before, v0, after ++ [v], by simp, ⟨htyped.isPress, htyped.cooked, ?_⟩, fun w hw => ?_⟩
  · rw [hmidashi]
    exact htyped.typed
  · rcases List.mem_append.mp hw with hw | hw
    · obtain ⟨index, hindex⟩ := hafter w hw
      exact ⟨index, by rw [reindex_eq hs']; exact hindex⟩
    · cases List.mem_singleton.mp hw
      exact ⟨s.index, by rw [reindex_eq hs']; exact hpre⟩

/-- A pending trigger belongs to the open selection, which typing it has started. -/
def TriggerTraced (history : History δ) (self : SkkEngine δ) : Prop :=
  ∀ t, self.conversionTrigger = some t →
    ∃ s, self.phase.selection? = some s ∧ StartedBy history s t

/-- A step that leaves the phase and the trigger alone keeps the trace: the selection goes on by
one visit. -/
theorem TriggerTraced.snoc_same {history : History δ} {self self' : SkkEngine δ}
    {v : Visit (SkkEngine δ) KeyEvent EngineAction} (h : TriggerTraced history self)
    (hpre : v.pre = self) (hphase : self'.phase = self.phase)
    (htrigger : self'.conversionTrigger = self.conversionTrigger) :
    TriggerTraced (history ++ [v]) self' := by
  intro t ht
  obtain ⟨s, hs, hstarted⟩ := h t (htrigger ▸ ht)
  exact ⟨s, hphase ▸ hs, hstarted.snoc (hpre ▸ hs) rfl⟩

/-- One key keeps the trace of the trigger, unless it strands the trigger. A pending trigger was
typed by this very key, or stays with the selection that it was typed for. -/
theorem trigger_step [EucJp] {self self' : SkkEngine δ} {event : KeyEvent}
    {actions : List EngineAction} {history : History δ} (hself : self.Wf)
    (hkey : self.strandsTrigger event = false) (hbefore : TriggerTraced history self)
    (hstep : Step self event self' actions) :
    TriggerTraced (history ++ [⟨self, event, actions⟩]) self' := by
  obtain ⟨r, status, hkeyStep, -, heq⟩ := (processKey_runs hself event).of_ok hstep
  obtain ⟨rfl, rfl⟩ := Prod.mk.inj heq
  cases hkeyStep with
  | ignored _ => exact hbefore.snoc_same rfl rfl rfl
  | enterRaw _ _ _ => exact hbefore.snoc_same rfl rfl rfl
  | leaveRaw _ _ _ => exact hbefore.snoc_same rfl rfl rfl
  | cooked hpress hraw htoggle hcooked =>
      rw [strandsTrigger, hpress, hraw, htoggle] at hkey
      obtain ⟨hleaves, hfound⟩ : self.leavesTrigger event = false ∧
          ((self.typedNow event).any fun typed => !typed.found) = false := by simpa using hkey
      have hok : self.TriggerOk := fun t ht => by
        obtain ⟨s, hs, -⟩ := hbefore t ht
        rw [hs]
        rfl
      intro t ht
      have hcases := (hcooked.trigger hok).resolve_right (by rw [hleaves]; simp) t ht
      rcases hcases with ⟨typed, htyped, rfl, hopen⟩ | ⟨hsame, s, s', hs, hs', heq⟩
      · -- Typed by this key: the conversion is the one it has just started.
        rw [htyped] at hfound
        obtain ⟨s, hphase, hmidashi⟩ := hopen (by simpa using hfound)
        refine ⟨s, by rw [hphase]; rfl, history, _, [], rfl, ⟨hpress, hraw, typed.found, ?_⟩,
          fun w hw => by cases hw⟩
        rw [htyped, hmidashi]
      · -- Pending from before: the conversion is still open, perhaps with another
        -- candidate focused.
        obtain ⟨s0, hs0, hstarted⟩ := hbefore t hsame
        obtain rfl := Option.some.inj (hs0.symm.trans hs)
        exact ⟨s', hs', hstarted.snoc hs heq⟩

/-- Over every run of a fresh engine in which no key strands the trigger: a trigger is
pending only while a selection is open, that selection was opened by typing it, and so a
commit appends it to the text of that conversion only. -/
theorem trigger_of_session [EucJp] {kanaTable : KanaTable} {keybindings : SkkKeybindings}
    {lispDirectives : Bool} {initialPhase : SkkPhase} {providers : List δ} {history : History δ}
    {self : SkkEngine δ}
    (hrun : Session (fresh kanaTable keybindings lispDirectives initialPhase providers)
      history self)
    (hkeys : ∀ v ∈ history, v.pre.strandsTrigger v.input = false) :
    (∀ t, self.conversionTrigger = some t →
      ∃ s, self.phase.selection? = some s ∧ StartedBy history s t) ∧
    ∀ s index r, self.phase = .selecting s → self.commitCandidate s index = .ok r →
      ∃ text appended, r.2 = [.hideCandidates, .commit text, .clearPreedit] ++ appended ∧
        ∀ a ∈ appended, ∃ t, a = .commit t ∧ StartedBy history s t := by
  have hwf := fresh_wf kanaTable keybindings lispDirectives initialPhase providers
  have hfresh : TriggerTraced []
      (fresh kanaTable keybindings lispDirectives initialPhase providers) := by
    obtain ⟨dict, phase, -, heq⟩ :=
      fresh_eq kanaTable keybindings lispDirectives initialPhase providers
    intro t ht
    rw [heq] at ht
    cases ht
  -- The trace goes through the whole run; the fresh engine has no trigger to be traced.
  have htraced : TriggerTraced history self := by
    refine hrun.history TriggerTraced (fun self event => self.strandsTrigger event = false)
      hfresh ?_ hkeys
    intro history s event s' actions hleading hs hok hstep
    exact trigger_step (Session.wf hwf hleading) hok hs hstep
  refine ⟨htraced, fun s index r hphase hcommit => ?_⟩
  unfold commitCandidate at hcommit
  cases hchosen : indexList s.candidates index with
  | error e => rw [hchosen] at hcommit; cases hcommit
  | ok chosen =>
      rw [hchosen, ok_bind] at hcommit
      cases hcommit
      refine ⟨_, _, rfl, fun a ha => ?_⟩
      rw [Option.mem_toList, Option.map_eq_some_iff] at ha
      obtain ⟨t, ht, rfl⟩ := ha
      -- Learning the candidate does not touch the trigger.
      have hpending : self.conversionTrigger = some t := by
        cases hentry : learnEntry s index chosen <;> simpa [hentry, learnAll] using ht
      obtain ⟨s', hs', hstarted⟩ := htraced t hpending
      rw [hphase] at hs'
      cases hs'
      exact ⟨t, rfl, hstarted⟩

/-! ### The trigger of a reading without candidates -/

/-- The trigger `,` after the reading `あ`, which no dictionary has: it stays pending in the
registration mode. -/
theorem trigger_in_registration :
    letI := EucJp.empty
    ∃ (history : History Empty) (self : SkkEngine Empty),
      Session (fresh vowelTable {} true .hiragana []) history self ∧
      history.map Visit.input = KeyEvent.typed ['A', ','] ∧
      self.conversionTrigger = some [','] ∧ self.phase = .hiragana ∧
      self.registerStack.length = 1 := by
  let _ := EucJp.empty
  exact exists_session _ _
    (fun _ self => self.conversionTrigger = some [','] ∧ self.phase = .hiragana ∧
      self.registerStack.length = 1) (by decide +kernel)

/-- A run that meets the condition: the trigger is pending for the candidates of `あ1`, which are
conversions of the digit, with no dictionary. -/
theorem trigger_of_session_numeric :
    letI := EucJp.empty
    ∃ (history : History Empty) (self : SkkEngine Empty) (s : Selection),
      Session (fresh vowelTable {} true .hiragana []) history self ∧
      self.conversionTrigger = some [','] ∧ self.phase.selection? = some s ∧
      StartedBy history s [','] := by
  let _ := EucJp.empty
  have hrecord := exists_session (fresh vowelTable {} true .hiragana [])
    (KeyEvent.typed ['A', '1', ','])
    (fun (history : History Empty) self =>
      (∀ v ∈ history, v.pre.strandsTrigger v.input = false) ∧
      self.conversionTrigger = some [',']) (by decide +kernel)
  obtain ⟨history, self, hrun, -, hkeys, hpending⟩ := hrecord
  obtain ⟨s, hs, hstarted⟩ := (trigger_of_session hrun hkeys).1 _ hpending
  exact ⟨history, self, s, hrun, hpending, hs, hstarted⟩

end SkkEngine

end Y2Skk
