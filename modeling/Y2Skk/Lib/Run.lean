import Mathlib.Data.List.Basic
import Mathlib.Tactic.Common

/-!
# `Y2Skk.Lib.Run`: runs of a labelled transition system

A system reads an input and answers with a list of outputs. A `Run` is a finite execution
from a fixed initial state, together with its history: the state, the input and the
outputs of every step. The history is an index of the run, and not computed from it, so
that a theorem about what was seen so far is a theorem about a list.

## The induction, packaged

Every safety property of a system is proved by the same induction over a run. It is done
once here, and a property is then two small goals: it holds at the start, and each step
keeps it.

* `Run.history`: a property of the history and the state reached;
* `Run.invariant`: the same for a property of the state alone.

Both take a condition `ok` on the steps of the run, since a property may hold only of the
runs that stay clear of certain inputs. The condition is on the state before a step and on
the input, never on what the step answers: it describes the environment and not the
system.

## Conditions that look back

`EachStep` is a condition on the steps that may depend on the steps before them, which is
how an environment with a memory of its own is described (a key is not released unless it
was pressed). It is a statement about the history, and `eachStep_snoc` and `eachStep_cons`
open it at either end.

## Observers

An observer is a partial automaton that reads what it sees of the outputs. `Run.observed`
is the rule for a system that refines one: every state of the system stands for a state of
the observer, each step takes the observer along, and so does every run. That the observer
never gets stuck is the safety property it was built to say.

## Computed runs

`trace` computes the run of a deterministic system (`run_trace`), and so turns a concrete
list of inputs into a run that the theorems apply to.
-/

set_option autoImplicit false

namespace Transition

universe u v w

variable {σ : Type u} {ι : Type v} {ω : Type w}

/-- One step of a history: the state it started in, its input and its outputs. The state it led
to is the `pre` of the next step, or the last state of the run, and is not recorded twice. -/
structure Visit (σ : Type u) (ι : Type v) (ω : Type w) where
  pre : σ
  input : ι
  outputs : List ω

/-- `Run step init h s`: an execution of history `h` leads from `init` to `s`. The history grows
at the end, so the induction over a run peels off the last step, and the induction hypothesis is
about everything before it. -/
inductive Run (step : σ → ι → σ → List ω → Prop) (init : σ) : List (Visit σ ι ω) → σ → Prop
  | nil : Run step init [] init
  | snoc {h : List (Visit σ ι ω)} {s s' : σ} {i : ι} {os : List ω} :
      Run step init h s → step s i s' os → Run step init (h ++ [⟨s, i, os⟩]) s'

/-- All outputs of a history, in order. This is what somebody outside the system sees of a
run. -/
def outputs (h : List (Visit σ ι ω)) : List ω := h.flatMap Visit.outputs

/-- The outputs of one more step come after all the others. -/
@[simp] theorem outputs_snoc (h : List (Visit σ ι ω)) (v : Visit σ ι ω) :
    outputs (h ++ [v]) = outputs h ++ v.outputs := by
  simp [outputs]

variable {step : σ → ι → σ → List ω → Prop} {init : σ}

/-- A property of history and state that holds at the start and is kept by every step within
`ok` holds of every run within `ok`. The step lemma may also use that the history so far is a
run, which saves carrying a first invariant inside the second. -/
theorem Run.history (P : List (Visit σ ι ω) → σ → Prop) (ok : σ → ι → Prop) (hnil : P [] init)
    (hsnoc : ∀ {h s i s' os}, Run step init h s → P h s → ok s i → step s i s' os →
      P (h ++ [⟨s, i, os⟩]) s')
    {h : List (Visit σ ι ω)} {s : σ} (hrun : Run step init h s)
    (hok : ∀ v ∈ h, ok v.pre v.input) : P h s := by
  induction hrun with
  | nil => exact hnil
  | @snoc h s s' i os hrun hstep ih =>
      -- The steps before the last one are within `ok` too, so the property holds there.
      have hprev : P h s := ih fun v hv => hok v (List.mem_append_left _ hv)
      exact hsnoc hrun hprev (hok ⟨s, i, os⟩ (by simp)) hstep

/-- A property of the state that holds at the start and is kept by every step within `ok` holds
of every state a run within `ok` reaches. It is `Run.history` with the history forgotten. -/
theorem Run.invariant (I : σ → Prop) (ok : σ → ι → Prop) (hinit : I init)
    (hkept : ∀ {s i s' os}, I s → ok s i → step s i s' os → I s')
    {h : List (Visit σ ι ω)} {s : σ} (hrun : Run step init h s)
    (hok : ∀ v ∈ h, ok v.pre v.input) : I s :=
  hrun.history (fun _ s => I s) ok hinit (fun _ hs hi hstep => hkept hs hi hstep) hok

/-! ### Conditions that look back -/

/-- Every step meets a condition that may depend on the steps before it. The history is split at
the step, so the condition sees exactly what happened earlier and the step itself with its
outputs. -/
def EachStep (ok : List (Visit σ ι ω) → Visit σ ι ω → Prop) (h : List (Visit σ ι ω)) : Prop :=
  ∀ before v after, h = before ++ v :: after → ok before v

/-- The last step is one of them, after all the others. This is the form an induction over a run
needs, since a run grows at its end. -/
theorem eachStep_snoc {ok : List (Visit σ ι ω) → Visit σ ι ω → Prop} {h : List (Visit σ ι ω)}
    {v : Visit σ ι ω} : EachStep ok (h ++ [v]) ↔ EachStep ok h ∧ ok h v := by
  constructor
  · intro hall
    refine ⟨fun before w after hsplit => ?_, hall h v [] rfl⟩
    exact hall before w (after ++ [v]) (by rw [hsplit, List.append_assoc, List.cons_append])
  · rintro ⟨hbefore, hlast⟩ before w after hsplit
    -- The step is the last one, or one of those before it.
    rcases List.eq_nil_or_concat after with rfl | ⟨rest, last, rfl⟩
    · obtain ⟨rfl, hv⟩ := List.append_inj' hsplit rfl
      cases hv
      exact hlast
    · rw [List.concat_eq_append, ← List.cons_append, ← List.append_assoc] at hsplit
      obtain ⟨rfl, -⟩ := List.append_inj' hsplit rfl
      exact hbefore before w rest rfl

/-- The empty history meets every condition, having no step to meet it with. -/
theorem eachStep_nil {ok : List (Visit σ ι ω) → Visit σ ι ω → Prop} : EachStep ok [] := by
  intro before v after hsplit
  simp at hsplit

/-- The first step is one of them too, and stands before all the others. The rest meets the
condition with the first step put in front of what it looks back on. -/
theorem eachStep_cons {ok : List (Visit σ ι ω) → Visit σ ι ω → Prop} {h : List (Visit σ ι ω)}
    {v : Visit σ ι ω} :
    EachStep ok (v :: h) ↔ ok [] v ∧ EachStep (fun before => ok (v :: before)) h := by
  constructor
  · intro hall
    refine ⟨hall [] v h rfl, fun before w after hsplit => ?_⟩
    exact hall (v :: before) w after (by rw [hsplit, List.cons_append])
  · rintro ⟨hfirst, hrest⟩ before w after hsplit
    cases before with
    | nil =>
        obtain ⟨rfl, -⟩ := List.cons.inj hsplit
        exact hfirst
    | cons first before =>
        obtain ⟨rfl, htail⟩ := List.cons.inj hsplit
        exact hrest before w after htail

/-! ### Observers -/

section Observer

universe x y

variable {α : Type x} {ε : Type y}

/-- Where an observer with the moves `δ` is, from `a`, after what it sees of the outputs; `none`
when it has no move for it. What it does not see (`see` answers `none`) leaves it where it
is. -/
def observe (δ : α → ε → Option α) (see : ω → Option ε) (a : α) (os : List ω) : Option α :=
  (os.filterMap see).foldlM δ a

/-- Observing two lists of outputs is observing the second one from where the first one led. An
observer that got stuck stays stuck. -/
theorem observe_append (δ : α → ε → Option α) (see : ω → Option ε) (a : α) (os os' : List ω) :
    observe δ see a (os ++ os') = (observe δ see a os).bind fun b => observe δ see b os' := by
  rw [observe, List.filterMap_append, List.foldlM_append]
  rfl

/-- If every step within `ok` takes the observer from what its first state stands for to what
its last one does, every run within `ok` does. What a state stands for may depend on the history
too, and so may the condition; the invariant `I` is what the steps may assume of the states they
start in. -/
theorem Run.observed (δ : α → ε → Option α) (see : ω → Option ε)
    (abs : List (Visit σ ι ω) → σ → α) (I : σ → Prop)
    (ok : List (Visit σ ι ω) → Visit σ ι ω → Prop) (hinit : I init)
    (hkept : ∀ {h s i s' os}, I s → ok h ⟨s, i, os⟩ → step s i s' os →
      I s' ∧ observe δ see (abs h s) os = some (abs (h ++ [⟨s, i, os⟩]) s'))
    {h : List (Visit σ ι ω)} {s : σ} (hrun : Run step init h s) (hok : EachStep ok h) :
    observe δ see (abs [] init) (outputs h) = some (abs h s) := by
  -- The condition is moved into the property, because it looks back: the induction can then peel
  -- it step by step along with the run.
  have key : EachStep ok h → I s ∧ observe δ see (abs [] init) (outputs h) = some (abs h s) := by
    refine hrun.history (fun h s => EachStep ok h →
      I s ∧ observe δ see (abs [] init) (outputs h) = some (abs h s)) (fun _ _ => True)
      (fun _ => ⟨hinit, rfl⟩) ?_ fun _ _ => trivial
    intro h s i s' os _ hprev _ hstep hok
    obtain ⟨hbefore, hi⟩ := eachStep_snoc.mp hok
    obtain ⟨hs, hobserved⟩ := hprev hbefore
    obtain ⟨hs', hmoved⟩ := hkept hs hi hstep
    refine ⟨hs', ?_⟩
    rw [outputs_snoc, observe_append, hobserved]
    exact hmoved
  exact (key hok).2

end Observer

/-! ### Deterministic systems -/

/-- The steps of a function, as a relation: a deterministic system is a system, and the rules
above apply to it unchanged. -/
def ofFun (f : σ → ι → σ × List ω) (s : σ) (i : ι) (s' : σ) (os : List ω) : Prop :=
  f s i = (s', os)

/-- The history of feeding a list of inputs to a function, and the state it ends in. It is
computable, so a run on concrete inputs can be evaluated. -/
def trace (f : σ → ι → σ × List ω) : σ → List ι → List (Visit σ ι ω) × σ
  | s, [] => ([], s)
  | s, i :: is =>
      let (s', os) := f s i
      let (history, last) := trace f s' is
      (⟨s, i, os⟩ :: history, last)

/-- A computed history extends any run that reached its first state. The run before it is
generalised over, because a run grows at the end while the computation goes from the front. -/
theorem run_append_trace (f : σ → ι → σ × List ω) (is : List ι) :
    ∀ {before : List (Visit σ ι ω)} {s : σ}, Run (ofFun f) init before s →
      Run (ofFun f) init (before ++ (trace f s is).1) (trace f s is).2 := by
  induction is with
  | nil => intro before s hrun; rwa [trace, List.append_nil]
  | cons i is ih =>
      intro before s hrun
      -- One step of the function is one step of the run; the rest is the induction hypothesis.
      have hmore := ih (hrun.snoc (show ofFun f s i (f s i).1 (f s i).2 from rfl))
      rwa [List.append_assoc] at hmore

/-- A trace is a run, from the state it was computed from. -/
theorem run_trace (f : σ → ι → σ × List ω) (s : σ) (is : List ι) :
    Run (ofFun f) s (trace f s is).1 (trace f s is).2 :=
  run_append_trace f is .nil

/-- The inputs of a trace are the list it was computed from, so a condition on the steps of the
run can be checked on that list. -/
theorem map_input_trace (f : σ → ι → σ × List ω) (is : List ι) :
    ∀ s : σ, (trace f s is).1.map Visit.input = is := by
  induction is with
  | nil => intro s; rfl
  | cons i is ih => intro s; rw [trace, List.map_cons, ih]

end Transition
