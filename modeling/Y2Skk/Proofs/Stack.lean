import Y2Skk.Proofs.NoPanic
import Y2Skk.Proofs.UserDict

/-!
# `Y2Skk.Proofs.Stack`: the dictionary stack over a run

The keys change the dictionaries by `learn` and `purge` alone, so a property of a provider
that both keep holds of every provider at the end of a run.

## Over a run

`DictSteps` is the relation between the stacks before and after: any number of learns and
purges, each applied to every provider of the stack alike. `Session.dictSteps` says that a
run is one of them, and `DictSteps.all` is the induction over it.

## User dictionaries

`userDict_of_session` is the rule for user dictionaries. What has to be shown of a
property is that it holds at the start and that learning a plain candidate and purging
keep it; how the engine comes to do either is of no concern. Its first use is `Learned`
(`learned_of_session`): the dictionaries of an engine that started without entries hold
plain candidates only, and no empty bucket.
-/

set_option autoImplicit false

namespace Y2Skk

open Outcome Utf8 Transition

section Steps
variable {δ : Type} [DictionaryProvider δ]

/-- A property of providers that learning a plain candidate and purging keep holds of every
provider of the stack afterwards. An engine never learns anything but one plain candidate at a
time. -/
theorem DictSteps.all (P : δ → Prop)
    (hlearn : ∀ d midashi okuri word annotation, P d →
      P (DictionaryProvider.learn d ⟨midashi, okuri, [⟨word, annotation, none⟩]⟩).1)
    (hpurge : ∀ d midashi okuri word, P d → P (DictionaryProvider.purge d midashi okuri word).1)
    {dict dict' : List δ} (hsteps : DictSteps dict dict') (h : ∀ d ∈ dict, P d) :
    ∀ d ∈ dict', P d := by
  induction hsteps with
  | refl => exact h
  | tail _ hstep ih =>
      cases hstep with
      -- Both are applied to every provider of the stack alike.
      | learn midashi okuri word annotation =>
          intro d' hd'
          obtain ⟨d, hd, rfl⟩ := List.mem_map.mp hd'
          exact hlearn d midashi okuri word annotation (ih d hd)
      | purge midashi okuri word =>
          intro d' hd'
          obtain ⟨d, hd, rfl⟩ := List.mem_map.mp hd'
          exact hpurge d midashi okuri word (ih d hd)

namespace SkkEngine

variable {start self : SkkEngine δ} {history : History δ}

/-- So does a step of a key: whatever its kind, it learns or purges a few times, or not at
all. -/
theorem KeyStep.dict {event : KeyEvent} {r : SkkEngine δ × List EngineAction}
    (h : self.KeyStep event r) : DictSteps self.dict r.1.dict := by
  cases h with
  | ignored _ => exact .refl
  | enterRaw _ _ _ => exact .refl
  | leaveRaw _ _ _ => exact .refl
  | cooked _ _ _ hcooked => exact hcooked.dict

/-- Over a run the dictionaries change by `learn` and `purge` alone. The invariant carries the
well-formedness of the engine along, which the description of a key asks for. -/
theorem Session.dictSteps [EucJp] (hstart : start.Wf) (hrun : Session start history self) :
    DictSteps start.dict self.dict := by
  have hboth : self.Wf ∧ DictSteps start.dict self.dict := by
    refine hrun.invariant (fun self => self.Wf ∧ DictSteps start.dict self.dict)
      (fun _ _ => True) ⟨hstart, .refl⟩ ?_ fun _ _ => trivial
    rintro s event s' actions ⟨hwf, hdict⟩ - hstep
    obtain ⟨r, status, hkey, -, heq⟩ := (processKey_runs hwf event).of_ok hstep
    obtain ⟨rfl, -⟩ := Prod.mk.inj heq
    exact ⟨(hkey.wf hwf).1, hdict.trans hkey.dict⟩
  exact hboth.2

/-- A fresh engine has the providers it was given, in the order of their priorities. -/
theorem mem_dict_fresh {kanaTable : KanaTable} {keybindings : SkkKeybindings}
    {lispDirectives : Bool} {initialPhase : SkkPhase} {providers : List δ} {d : δ} :
    d ∈ (fresh kanaTable keybindings lispDirectives initialPhase providers).dict ↔
      d ∈ providers := by
  -- `addDict` sorts the stack by priority, so only membership is kept.
  have hadd : ∀ (providers : List δ) (engine : SkkEngine δ),
      d ∈ (providers.foldl addDict engine).dict ↔ d ∈ engine.dict ∨ d ∈ providers := by
    intro providers
    induction providers with
    | nil => simp
    | cons provider providers ih =>
        intro engine
        rw [List.foldl_cons, ih, addDict, List.mem_mergeSort, List.mem_append, List.mem_singleton,
          List.mem_cons, or_assoc]
  rw [fresh, hadd]
  unfold withInitialPhase
  split <;> simp [new, withLispDirectives]

end SkkEngine

end Steps

namespace SkkEngine

variable {ρ : Type} [DictionaryProvider ρ]

/-- What learning a plain candidate and purging keep of a user dictionary is true of those of
an engine, once it is true of the ones it started with. -/
theorem userDict_of_session [EucJp] {P : UserDict → Prop}
    (hlearn : ∀ dict midashi okuri word annotation, P dict →
      P (dict.learn ⟨midashi, okuri, [⟨word, annotation, none⟩]⟩).1)
    (hpurge : ∀ dict midashi okuri word, P dict → P (dict.purge midashi okuri word).1)
    {kanaTable : KanaTable} {keybindings : SkkKeybindings} {lispDirectives : Bool}
    {initialPhase : SkkPhase} {providers : List (Provider ρ)} {history : History (Provider ρ)}
    {self : SkkEngine (Provider ρ)}
    (hrun : Session (fresh kanaTable keybindings lispDirectives initialPhase providers)
      history self)
    (hinit : ∀ dict, .user dict ∈ providers → P dict) {dict : UserDict}
    (hdict : .user dict ∈ self.dict) : P dict := by
  have hwf := fresh_wf kanaTable keybindings lispDirectives initialPhase providers
  have hall : ∀ d ∈ self.dict, ∀ dict, d = .user dict → P dict := by
    -- A provider that is no user dictionary stays one that is none.
    refine DictSteps.all (fun d => ∀ dict, d = .user dict → P dict) ?_ ?_
      (Session.dictSteps hwf hrun) ?_
    · rintro (user | other) midashi okuri word annotation h dict heq
      · cases heq
        exact hlearn user midashi okuri word annotation (h user rfl)
      · cases heq
    · rintro (user | other) midashi okuri word h dict heq
      · cases heq
        exact hpurge user midashi okuri word (h user rfl)
      · cases heq
    · rintro d hd dict rfl
      exact hinit dict (mem_dict_fresh.mp hd)
  exact hall _ hdict dict rfl

/-- The user dictionaries of an engine that started without entries hold plain candidates only:
what is learned in a run has no Lisp form. -/
theorem learned_of_session [EucJp] {kanaTable : KanaTable} {keybindings : SkkKeybindings}
    {lispDirectives : Bool} {initialPhase : SkkPhase} {providers : List (Provider ρ)}
    {history : History (Provider ρ)} {self : SkkEngine (Provider ρ)}
    (hrun : Session (fresh kanaTable keybindings lispDirectives initialPhase providers)
      history self)
    (hempty : ∀ dict, .user dict ∈ providers → dict.entries = .empty) {dict : UserDict}
    (hdict : .user dict ∈ self.dict) : dict.Learned :=
  userDict_of_session
    (fun _ midashi okuri word annotation h => h.learn midashi okuri word annotation)
    (fun _ midashi okuri word h => h.purge midashi okuri word) hrun
    (fun dict hmem => UserDict.learned_of_empty (hempty dict hmem)) hdict

end SkkEngine

end Y2Skk
