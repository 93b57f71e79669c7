import Y2Skk.Engine.Session
import Y2Skk.Proofs.KeyStep

/-!
# `Y2Skk.Proofs.NoPanic`: the engine never panics

Every index, slice and `unwrap` of the engine is a partial operation of the model, so that
`processKey` returning at all says that each of them was defined.

## The invariant

`SkkEngine.Wf` is what the partial operations rely on: the focused candidate exists and
has an origin, and every cursor of a registration frame stands between two characters of
its buffer. `fresh_wf` starts it, and `processKey_wf` keeps it over a key, whichever
branch the key takes. The second half of `processKey_wf` is about the answer: the offsets
of the preedits it draws are boundaries of their texts too.

## Sequences of keys

* `processKeys_runs`: from a fresh engine, any sequence of key events is processed without
  a panic. The table, the keybindings, the dictionaries and the keys are arbitrary.
* `Session.wf`: the same for runs, which the other proofs about runs build on.
-/

set_option autoImplicit false

namespace Y2Skk

open Outcome Utf8 Transition

namespace SkkEngine

variable {δ : Type} [DictionaryProvider δ]

/-- A step keeps the invariant, and the preedits among its actions are well-formed: a step is
one of a few kinds, and each kind says so of its own actions. -/
theorem KeyStep.wf {self : SkkEngine δ} (hself : self.Wf) {event : KeyEvent}
    {r : SkkEngine δ × List EngineAction} (h : self.KeyStep event r) :
    r.1.Wf ∧ ∀ preedit, .updatePreedit preedit ∈ r.2 → preedit.Wf := by
  cases h with
  | ignored _ => exact ⟨hself, by simp⟩
  | enterRaw _ _ _ => exact ⟨⟨hself.frames, hself.phase⟩, by simp⟩
  | leaveRaw _ _ hpreedits => exact ⟨⟨hself.frames, hself.phase⟩, hpreedits⟩
  | cooked _ _ _ hcooked => exact ⟨hcooked.wf, hcooked.preedits⟩

/-- The status that is shown beside the actions of a handler is no preedit. -/
theorem IsStatus.not_mem {status : List EngineAction} (h : IsStatus status) (preedit : Preedit) :
    EngineAction.updatePreedit preedit ∉ status := by
  rcases h with rfl | ⟨indicator, rfl⟩
  · simp
  · simp

/-- A key keeps the invariant and emits well-formed preedits only. Both are read off the
description of the key, by its cases. -/
theorem processKey_wf [EucJp] {self : SkkEngine δ} (hself : self.Wf) (event : KeyEvent) :
    Runs (self.processKey event) fun r =>
      r.1.Wf ∧ ∀ preedit, .updatePreedit preedit ∈ r.2 → preedit.Wf := by
  refine (processKey_runs hself event).mono ?_
  rintro _ ⟨r, status, hstep, hstatus, rfl⟩
  -- The status action that may follow the key carries no preedit.
  obtain ⟨hwf, hpreedits⟩ := hstep.wf hself
  refine ⟨hwf, fun preedit hmem => ?_⟩
  rcases List.mem_append.mp hmem with hmem | hmem
  · exact hpreedits preedit hmem
  · exact (hstatus.not_mem preedit hmem).elim

/-- So do all keys of a sequence, and the preedits of the whole answer are well-formed. -/
theorem processKeys_wf [EucJp] (events : List KeyEvent) : ∀ {self : SkkEngine δ}, self.Wf →
    Runs (self.processKeys events) fun r =>
      r.1.Wf ∧ ∀ preedit, .updatePreedit preedit ∈ r.2 → preedit.Wf := by
  -- The induction is on the keys: each one starts from the state the key before it has left.
  induction events with
  | nil => exact fun hself => runs_ok.mpr ⟨hself, by simp⟩
  | cons event events ih =>
      intro self hself
      refine (processKey_wf hself event).bind fun r hr => ?_
      refine (ih hr.1).bind fun r' hr' => runs_ok.mpr ⟨hr'.1, fun preedit hmem => ?_⟩
      rcases List.mem_append.mp hmem with hmem | hmem
      · exact hr.2 preedit hmem
      · exact hr'.2 preedit hmem

omit [DictionaryProvider δ] in
/-- The phases an engine may start in are plain: they hold neither a reading nor candidates. -/
theorem isPlain_of_isInitial {phase : SkkPhase} (h : phase.isInitial) : phase.isPlain := by
  cases phase <;> simp_all [SkkPhase.isInitial, SkkPhase.isPlain]

/-- A fresh engine satisfies the invariant, for any table, keybindings and dictionaries. -/
theorem fresh_wf (kanaTable : KanaTable) (keybindings : SkkKeybindings) (lispDirectives : Bool)
    (initialPhase : SkkPhase) (providers : List δ) :
    (fresh kanaTable keybindings lispDirectives initialPhase providers).Wf := by
  obtain ⟨dict, phase, hinitial, heq⟩ :=
    fresh_eq kanaTable keybindings lispDirectives initialPhase providers
  rw [heq]
  exact ⟨fun _ hf => (by cases hf), phaseWf_of_isPlain (isPlain_of_isInitial hinitial)⟩

/-- For every kana table, keybindings, dictionary stack and sequence of key events the
engine returns. In the state reached the focused candidate exists and has an origin, every
registration cursor is on a character boundary of its buffer, and so is every offset of
every preedit emitted. -/
theorem processKeys_runs [EucJp] (kanaTable : KanaTable) (keybindings : SkkKeybindings)
    (lispDirectives : Bool) (initialPhase : SkkPhase) (providers : List δ)
    (events : List KeyEvent) :
    Runs ((fresh kanaTable keybindings lispDirectives initialPhase providers).processKeys events)
      fun r =>
        (∀ s, r.1.phase.selection? = some s → s.candidates ≠ [] ∧
          s.origin.length = s.candidates.length ∧ s.index < s.candidates.length) ∧
        (∀ frame ∈ r.1.registerStack, frame.cursor ≤ byteLen frame.committed ∧
          IsBoundary frame.committed frame.cursor) ∧
        ∀ preedit, .updatePreedit preedit ∈ r.2 → preedit.cursor ≤ byteLen preedit.text ∧
          IsBoundary preedit.text preedit.cursor ∧
          ∀ g, preedit.ghostStart = some g → IsBoundary preedit.text g := by
  refine (processKeys_wf events (fresh_wf kanaTable keybindings lispDirectives initialPhase
    providers)).mono fun r hr => ⟨fun s hs => ?_, fun frame hframe => ?_, fun preedit hmem => ?_⟩
  · have hwf : s.Wf := selection_wf hr.1 hs
    refine ⟨fun hnil => ?_, hwf.origin_length, hwf.index_lt⟩
    -- An index is in range of no empty list.
    have := hwf.index_lt
    rw [hnil] at this
    cases this
  · have hwf := hr.1.frames frame hframe
    exact ⟨hwf.cursor.le, hwf.cursor⟩
  · have hwf := hr.2 preedit hmem
    exact ⟨hwf.cursor.le, hwf.cursor, hwf.ghost⟩

/-! ### Runs -/

section Session
variable [EucJp] {start self : SkkEngine δ} {history : History δ}

/-- Every state of a run satisfies the invariant. -/
theorem Session.wf (hstart : start.Wf) (hrun : Session start history self) : self.Wf :=
  hrun.invariant Wf (fun _ _ => True) hstart
    (fun hs _ hstep => ((processKey_wf hs _).of_ok hstep).1) fun _ _ => trivial

end Session

end SkkEngine

end Y2Skk
