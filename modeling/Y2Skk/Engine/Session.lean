import Y2Skk.Engine.ProcessKey
import Y2Skk.Lib.Run

/-!
# `Y2Skk.Engine.Session`: an engine and the keys typed into it

`fresh` is an engine as the platform builds it, with its dictionaries and its initial
mode. `processKeys` feeds it a sequence of key events, and `Session` is the same as a run
of a transition system, with its history; `record` computes the run.

The two views are used for different statements. A statement about one stretch of typing
from a given state is one about `processKeys`. A statement about every state that can be
reached, or about what was shown and committed before, is one about a `Session`: it
quantifies over all key events, with no assumption on them but what the statement itself
says.

`exists_session` is for examples: a run that was computed and passes a test is a run that
does, so a concrete list of keys can be evaluated once and then used as a `Session`.
-/

set_option autoImplicit false

namespace Y2Skk

open Outcome Utf8 Transition

namespace SkkEngine

variable {δ : Type} [DictionaryProvider δ]

/-- A new engine with the given settings, to which the providers were added one by one, as the
daemon does for a new session. -/
def fresh (kanaTable : KanaTable) (keybindings : SkkKeybindings) (lispDirectives : Bool)
    (initialPhase : SkkPhase) (providers : List δ) : SkkEngine δ :=
  providers.foldl addDict
    (((new kanaTable keybindings).withLispDirectives lispDirectives).withInitialPhase initialPhase)

/-- A fresh engine composes nothing. Adding providers touches the stack of dictionaries only,
and an initial phase that is none leaves the engine in Hiragana mode. Every other field is that
of `new`, so an invariant of a run holds at its start by looking at `new` alone. -/
theorem fresh_eq (kanaTable : KanaTable) (keybindings : SkkKeybindings) (lispDirectives : Bool)
    (initialPhase : SkkPhase) (providers : List δ) : ∃ dict phase, phase.isInitial ∧
      fresh kanaTable keybindings lispDirectives initialPhase providers =
        { (new kanaTable keybindings : SkkEngine δ) with
          lispDirectives := lispDirectives, phase := phase, dict := dict } := by
  -- each provider is added to the dictionaries of the engine that has the ones before it
  have hadd : ∀ (providers : List δ) (self : SkkEngine δ), ∃ dict,
      providers.foldl addDict self = { self with dict := dict } := by
    intro providers
    induction providers with
    | nil => exact fun self => ⟨self.dict, rfl⟩
    | cons provider providers ih =>
        intro self
        obtain ⟨dict, hdict⟩ := ih (self.addDict provider)
        exact ⟨dict, by rw [List.foldl_cons, hdict]; rfl⟩
  obtain ⟨dict, hdict⟩ := hadd providers
    (((new kanaTable keybindings).withLispDirectives lispDirectives).withInitialPhase initialPhase)
  rw [fresh, hdict]
  unfold withInitialPhase
  split
  · exact ⟨dict, initialPhase, by assumption, rfl⟩
  · exact ⟨dict, .hiragana, rfl, rfl⟩

omit [DictionaryProvider δ] in
/-- `base_input_mode`: the input mode that a reload keeps, which is that of the phase, or the
kana mode a conversion started from. -/
def baseInputMode (self : SkkEngine δ) : SkkPhase :=
  match self.phase with
  | .hiragana | .katakana | .halfWidthKatakana | .ascii | .wideAscii => self.phase
  | _ => self.midashiDisplayMode.toPhase

variable [EucJp]

/-- Feeds key events to the engine and collects its actions. -/
def processKeys (self : SkkEngine δ) : List KeyEvent → Partial (SkkEngine δ × List EngineAction)
  | [] => .ok (self, [])
  | event :: events => do
      let (self, actions) ← self.processKey event
      let (self, more) ← self.processKeys events
      .ok (self, actions ++ more)

/-- One key event, as a step of a transition system. -/
def Step (self : SkkEngine δ) (event : KeyEvent) (self' : SkkEngine δ)
    (actions : List EngineAction) : Prop :=
  self.processKey event = .ok (self', actions)

/-- What happened to an engine: the states it was in, the keys, and its actions. -/
abbrev History (δ : Type) := List (Visit (SkkEngine δ) KeyEvent EngineAction)

/-- A run of the engine. -/
abbrev Session (start : SkkEngine δ) : History δ → SkkEngine δ → Prop := Run Step start

/-! ### Evaluating runs -/

/-- A kana table whose only rule makes `a` the kana `あ`. -/
def vowelTable : KanaTable := ⟨[⟨[], .char 'a', [], ['あ']⟩], [], []⟩

/-- Feeds key events to the engine and records the run. It fails where the engine panics. -/
def record (self : SkkEngine δ) : List KeyEvent → Partial (History δ × SkkEngine δ)
  | [] => .ok ([], self)
  | event :: events => do
      let (next, actions) ← self.processKey event
      let (history, last) ← next.record events
      .ok (⟨self, event, actions⟩ :: history, last)

/-- A record extends any run that reached its first state. `record` steps the engine along a
list of events, so a session for a concrete input is found by evaluation. The inputs of the
visits it adds are the events. -/
theorem session_of_record (events : List KeyEvent) : ∀ {start self last : SkkEngine δ}
    {before history : History δ}, Session start before self →
    self.record events = .ok (history, last) →
    Session start (before ++ history) last ∧ history.map Visit.input = events := by
  induction events with
  | nil =>
      intro start self last before history hrun h
      cases h
      exact ⟨by rwa [List.append_nil], rfl⟩
  | cons event events ih =>
      intro start self last before history hrun h
      rw [record] at h
      cases hstep : self.processKey event with
      | error e => rw [hstep] at h; cases h
      | ok r =>
          rw [hstep, ok_bind] at h
          dsimp only at h
          cases hrest : r.1.record events with
          | error e => rw [hrest] at h; cases h
          | ok r' =>
              rw [hrest, ok_bind] at h
              cases h
              -- the first step goes to the end of the run there was, and the rest is recorded
              -- from there
              obtain ⟨hmore, hinputs⟩ := ih (hrun.snoc hstep) hrest
              rw [List.append_assoc] at hmore
              exact ⟨hmore, by rw [List.map_cons, hinputs]⟩

/-- A recorded run that passes a test is a run that does. The test is evaluated together with
the record, so a single computation decides the hypothesis. -/
theorem exists_session (start : SkkEngine δ) (events : List KeyEvent)
    (test : History δ → SkkEngine δ → Prop) [∀ history self, Decidable (test history self)]
    (h : (start.record events).map (fun r => decide (test r.1 r.2)) = .ok true) :
    ∃ history self, Session start history self ∧ history.map Visit.input = events ∧
      test history self := by
  cases hrecord : start.record events with
  | error e => rw [hrecord] at h; cases h
  | ok r =>
      rw [hrecord] at h
      obtain ⟨hrun, hinputs⟩ := session_of_record events .nil hrecord
      exact ⟨r.1, r.2, hrun, hinputs, of_decide_eq_true (Except.ok.inj h)⟩

end SkkEngine

end Y2Skk
