import Y2Skk.Kana.Table
import Y2Skk.Lib.Layers

/-!
# `Y2Skk.Kana.Overlay`: a user table over a built-in table

`KanaTable.overlay` puts the rules of a user table over those of a base table. The source
does it with loops that remove and append rules in two lists, and inserts the aliases into
a map. What is wanted of it is a statement about keys: for every state and character,
which rule answers.

## Layers of layers

The rules in effect in a mode are layers once more: the katakana overrides over the
hiragana rules. So the rule for a key is found by going through the layers from the top.
In a katakana mode there are four of them: the user's overrides, the overrides of the
base, the user's rules, and the rules of the base. A rule of the user in hiragana is
therefore below an override of the base.

* `ruleFor_overlay`: the rule in effect, key by key.
* `transition_eq_answer`: a transition looks at two rules only, the exact one and the
  wildcard of the state.
* `overlay_ruleWise`: both together, and the okurigana keys.

The general facts about rules that replace rules are in `Y2Skk.Lib.Layers`.
-/

set_option autoImplicit false

namespace Y2Skk

open Utf8 (Str)
open Layers

namespace KanaTransition

/-- The key of a rule: its state and its input. Two rules with one key compete, and the first
one in the list wins. -/
def key (t : KanaTransition) : Str × KanaInput := (t.fromState, t.input)

end KanaTransition

namespace KanaTable

/-- The rules of `rules` whose key no rule of `user` has, removed key by key, as the two loops
over `retain` in the source do. -/
def retainOthers (rules user : List KanaTransition) : List KanaTransition :=
  user.foldl (fun rules ut => rules.filter fun t =>
    !decide (t.fromState = ut.fromState ∧ t.input = ut.input)) rules

/-- `KanaTable::overlay`: puts a user-defined table over this table. The aliases are inserted in
an order of the map's own, here from the last entry to the first. -/
def overlay (self user : KanaTable) : KanaTable where
  transitions := retainOthers self.transitions user.transitions ++ user.transitions
  kataOverrides := retainOthers self.kataOverrides user.kataOverrides ++ user.kataOverrides
  okuriAliases := user.okuriAliases.foldr (fun e aliases => Layers.insert aliases e.1 e.2)
    self.okuriAliases

/-! ### The rule in effect -/

/-- A rule has a key when its state and its input are those of the key. -/
theorem key_eq_iff (t : KanaTransition) (state : Str) (input : KanaInput) :
    t.key = (state, input) ↔ t.fromState = state ∧ t.input = input := by
  rw [KanaTransition.key, Prod.mk.injEq]

/-- The loop of the source followed by its `extend` is the library's override: it drops the
rules whose state and input the user has, and the user's rules come last. -/
theorem retainOthers_append (rules user : List KanaTransition) :
    retainOthers rules user ++ user = override KanaTransition.key rules user := by
  have hstep : (fun (rules : List KanaTransition) (ut : KanaTransition) => rules.filter fun t =>
      !decide (t.fromState = ut.fromState ∧ t.input = ut.input)) =
      fun rules ut => rules.filter fun t => !decide (t.key = ut.key) := by
    funext rules ut
    refine List.filter_congr fun t _ => ?_
    rw [decide_eq_decide.mpr (key_eq_iff t ut.fromState ut.input).symm]
    rfl
  rw [retainOthers, hstep, foldl_retain, override]

/-- In the katakana modes the overrides are a layer over the hiragana rules. The filter of the
source compares the two parts of a key one by one, and the library compares keys. -/
theorem effectiveTransitions_kata (table : KanaTable) {mode : KanaMode}
    (hmode : mode ≠ .hiragana) : table.effectiveTransitions mode =
      override KanaTransition.key table.transitions table.kataOverrides := by
  have hkeep : (fun t : KanaTransition => !table.kataOverrides.any fun o =>
      decide (o.fromState = t.fromState ∧ o.input = t.input)) =
      fun t => !table.kataOverrides.any fun o => decide (o.key = t.key) := by
    funext t
    congr 2
    funext o
    exact decide_eq_decide.mpr (key_eq_iff o t.fromState t.input).symm
  unfold effectiveTransitions
  cases mode with
  | hiragana => exact absurd rfl hmode
  | katakana => rw [override, ← hkeep]
  | halfWidth => rw [override, ← hkeep]

/-- The rule lists of two tables, top layer first. -/
def layers (base user : KanaTable) : KanaMode → List (List KanaTransition)
  | .hiragana => [user.transitions, base.transitions]
  | .katakana | .halfWidth =>
      [user.kataOverrides, base.kataOverrides, user.transitions, base.transitions]

/-- The first rule for a key, from the top layer down. This is the specification of the overlay:
no list is edited in it. -/
def layeredRule (base user : KanaTable) (mode : KanaMode) (state : Str) (input : KanaInput) :
    Option KanaTransition :=
  (layers base user mode).findSome? fun rules =>
    rules.find? fun t => t.fromState = state ∧ t.input = input

/-- The lookup in the source, in the form the library speaks of. -/
theorem find?_eq_ruleFor (rules : List KanaTransition) (state : Str) (input : KanaInput) :
    (rules.find? fun t => t.fromState = state ∧ t.input = input) =
      ruleFor KanaTransition.key rules (state, input) := by
  unfold ruleFor
  congr 1
  funext t
  exact decide_eq_decide.mpr (key_eq_iff t state input).symm

/-- The rule of the overlay for a key is the one of the first layer that has the key. -/
theorem ruleFor_overlay (base user : KanaTable) (mode : KanaMode) (state : Str)
    (input : KanaInput) :
    (((base.overlay user).effectiveTransitions mode).find? fun t =>
      t.fromState = state ∧ t.input = input) = layeredRule base user mode state input := by
  have htransitions : (base.overlay user).transitions =
      override KanaTransition.key base.transitions user.transitions := retainOthers_append _ _
  have hoverrides : (base.overlay user).kataOverrides =
      override KanaTransition.key base.kataOverrides user.kataOverrides := retainOthers_append _ _
  -- Going through the layers is taking the first of their answers.
  have hcons : ∀ (rules : List KanaTransition) (more : List (List KanaTransition)),
      ((rules :: more).findSome? fun rules => ruleFor KanaTransition.key rules (state, input)) =
        (ruleFor KanaTransition.key rules (state, input)).or
          (more.findSome? fun rules => ruleFor KanaTransition.key rules (state, input)) := by
    intro rules more
    rw [List.findSome?_cons]
    cases ruleFor KanaTransition.key rules (state, input) <;> rfl
  have hkata : mode ≠ .hiragana →
      ruleFor KanaTransition.key ((base.overlay user).effectiveTransitions mode) (state, input) =
        [user.kataOverrides, base.kataOverrides, user.transitions, base.transitions].findSome?
          fun rules => ruleFor KanaTransition.key rules (state, input) := by
    intro hmode
    rw [effectiveTransitions_kata _ hmode, htransitions, hoverrides, ruleFor_override,
      ruleFor_override, ruleFor_override, hcons, hcons, hcons, hcons, List.findSome?_nil,
      Option.or_none, Option.or_assoc]
  rw [find?_eq_ruleFor]
  simp only [layeredRule, find?_eq_ruleFor]
  cases mode with
  | hiragana =>
      rw [effectiveTransitions, htransitions, ruleFor_override, layers, hcons, hcons,
        List.findSome?_nil, Option.or_none]
  | katakana => exact hkata (by simp)
  | halfWidth => exact hkata (by simp)

/-! ### The transition -/

/-- The answer of a transition, given the exact rule and the wildcard rule in effect. It is
`transition` with the two lookups taken out. -/
def answer (exact wildcard : Option KanaTransition) (state : Str) (input : Char)
    (mode : KanaMode) : TransitionResult :=
  match exact, wildcard with
  | some t, _ => .ok (convertOutput t.output mode) t.toState
  | none, some t =>
      -- A wildcard that ends the sequence asks for the character again.
      if t.toState = [] ∧ state ≠ [] then .okRetry (convertOutput t.output mode) input
      else .ok (convertOutput t.output mode) t.toState
  | none, none => if state = [] then .noMatch [] none else .noMatch state (some input)

/-- A transition looks at the exact rule and at the wildcard rule of the state only. So two
tables that agree on these for every state have the same transitions. -/
theorem transition_eq_answer (table : KanaTable) (state : Str) (input : Char) (mode : KanaMode) :
    table.transition state input mode =
      answer
        ((table.effectiveTransitions mode).find? fun t =>
          t.fromState = state ∧ t.input = .char input)
        ((table.effectiveTransitions mode).find? fun t =>
          t.fromState = state ∧ t.input = .wildcard) state input mode := by
  unfold transition
  dsimp only
  cases (table.effectiveTransitions mode).find? fun t =>
      t.fromState = state ∧ t.input = .char input with
  | some t => rfl
  | none =>
      -- no exact rule: a wildcard rule answers, or nothing matches
      cases (table.effectiveTransitions mode).find? fun t =>
          t.fromState = state ∧ t.input = .wildcard with
      | none =>
          cases state with
          | nil => rfl
          | cons c state => rfl
      | some t =>
          unfold answer
          dsimp only
          cases hto : t.toState with
          | nil => cases state <;> rfl
          | cons c rest => rfl

/-- The okurigana key, given what the map has for the pending romaji or the character. -/
def okuriKeyFrom (aliasOf : Str → Option Str) (preState : Str) (inputChar : Char) : Str :=
  match preState with
  | first :: _ => (aliasOf preState).getD [first]
  | [] => (aliasOf [inputChar]).getD [inputChar]

/-- The overlay of two tables is determined rule by rule: an exact rule of the first layer that
has one, else a wildcard rule of the first layer that has one. An exact rule of a lower layer
wins over a wildcard of a higher one. Its okurigana keys are the user's aliases, else the
base's. -/
theorem overlay_ruleWise (base user : KanaTable) (state : Str) (input : Char) (mode : KanaMode) :
    (base.overlay user).transition state input mode =
        answer (layeredRule base user mode state (.char input))
          (layeredRule base user mode state .wildcard) state input mode ∧
      (base.overlay user).okuriKey state input =
        okuriKeyFrom (fun k => (user.okuriAliases.lookup k).or (base.okuriAliases.lookup k))
          state input := by
  constructor
  · rw [transition_eq_answer, ruleFor_overlay, ruleFor_overlay]
  · -- the okurigana keys are looked up in one map, that of the user laid over the base's
    unfold okuriKey okuriKeyFrom overlay
    dsimp only
    cases state with
    | nil =>
        dsimp only
        rw [lookup_foldr_insert]
    | cons first rest =>
        dsimp only
        rw [lookup_foldr_insert]

end KanaTable

end Y2Skk
