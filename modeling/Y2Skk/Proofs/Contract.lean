import Mathlib.Logic.Relation
import Y2Skk.Lib.Distinct
import Y2Skk.Proofs.Invariant

/-!
# `Y2Skk.Proofs.Contract`: what a phase handler may do

Every phase handler satisfies one contract, `Post`, proved once per handler in
`Proofs/Handlers.lean`. It relates the state a handler starts from to the state and the
actions it returns, and says all that the later invariants need:

* the engine invariant is kept, and the dictionaries change only by `learn` and `purge`;
* the last preedit action shows the new state, and a handler that emits none has changed
  nothing but, in the one branch `drops` names, the pending romaji;
* the last candidate-window action shows the new state's page, and a handler that emits
  none has kept the page;
* a pending conversion trigger is one typed by this key, or it belongs to a selection that
  is still open;
* a completion belongs to the `Midashi` phase and to a prefix typed in it.

## Families of branches

A handler's branches fall into a few families: `Post.idle` (nothing happens),
`Post.compose` (one composition becomes another), `Post.close` and `Post.reselect` (a
selection ends or goes on), `convert_drawn` (a lookup). The lemmas here prove the contract
once for each family. Two combinators put handlers together: `Post.andThen`, for a
candidate that is committed before the kana mode gets the key, and `Drawn.of_entered`, for
a handler that enters another phase and hands the key on to it.

## Last actions

A handler may send several preedits. What the application shows afterwards is decided by
the last one, and so for the candidate window; `lastPreedit` and `lastWindow` pick them
out. Lists of actions are joined in many places, so their rules for `++` are the lemmas
used most.
-/

set_option autoImplicit false

namespace Y2Skk

open Outcome Utf8

/-! ### Observing a list of actions -/

namespace EngineAction

/-- The action draws or clears the preedit. -/
def isPreedit : EngineAction → Bool
  | .updatePreedit _ | .clearPreedit => true
  | _ => false

/-- The action shows or hides the candidate window. -/
def isWindow : EngineAction → Bool
  | .showCandidates _ _ _ | .hideCandidates => true
  | _ => false

end EngineAction

/-- The action that decides what the preedit shows. -/
def lastPreedit (actions : List EngineAction) : Option EngineAction :=
  (actions.filter EngineAction.isPreedit).getLast?

/-- The action that decides what the candidate window shows. -/
def lastWindow (actions : List EngineAction) : Option EngineAction :=
  (actions.filter EngineAction.isWindow).getLast?

/-- What the application receives. -/
def committedText (actions : List EngineAction) : Str :=
  actions.flatMap fun
    | .commit text => text
    | _ => []

/-- The last preedit of a joined list is that of its second part, if there is one. -/
theorem lastPreedit_append (xs ys : List EngineAction) :
    lastPreedit (xs ++ ys) = (lastPreedit ys).or (lastPreedit xs) := by
  simp [lastPreedit, List.getLast?_append]

/-- The same for the window. -/
theorem lastWindow_append (xs ys : List EngineAction) :
    lastWindow (xs ++ ys) = (lastWindow ys).or (lastWindow xs) := by
  simp [lastWindow, List.getLast?_append]

/-- What `lastPreedit` finds is a preedit action. -/
theorem isPreedit_of_lastPreedit {actions : List EngineAction} {a : EngineAction}
    (h : lastPreedit actions = some a) : a.isPreedit := by
  have := List.mem_of_getLast? h
  exact (List.mem_filter.mp this).2

/-- Where no preedit action is last, there is none. -/
theorem updatePreedit_not_mem {actions : List EngineAction} (h : lastPreedit actions = none)
    (preedit : Preedit) : EngineAction.updatePreedit preedit ∉ actions := by
  intro hmem
  have hfilter : EngineAction.updatePreedit preedit ∈ actions.filter EngineAction.isPreedit :=
    List.mem_filter.mpr ⟨hmem, rfl⟩
  rw [List.getLast?_eq_none_iff.mp h] at hfilter
  cases hfilter

/-- After actions without a preedit, the one that is drawn last is the only one. -/
theorem eq_of_mem_append_redraw {actions : List EngineAction} {preedit p : Preedit}
    (hnone : ∀ q, EngineAction.updatePreedit q ∉ actions)
    (h : EngineAction.updatePreedit p ∈ actions ++ [.updatePreedit preedit]) : p = preedit := by
  rcases List.mem_append.mp h with h | h
  · exact (hnone p h).elim
  · cases List.mem_singleton.mp h
    rfl

/-- The same after a single window action. -/
theorem eq_of_mem_window_redraw {a : EngineAction} {preedit p : Preedit} (ha : a.isWindow)
    (h : EngineAction.updatePreedit p ∈ [a, .updatePreedit preedit]) : p = preedit := by
  have hnone : ∀ q, EngineAction.updatePreedit q ∉ [a] := by
    rintro q hq
    cases List.mem_singleton.mp hq
    cases ha
  exact eq_of_mem_append_redraw hnone h

/-- The selection a phase works on. -/
def SkkPhase.selection? : SkkPhase → Option Selection
  | .selecting s | .purgeConfirm s _ _ => some s
  | _ => none

/-- The selection of a well-formed state is well-formed, in the phase that shows it and in the
purge confirmation that keeps it. -/
theorem SkkEngine.selection_wf {δ : Type} {self : SkkEngine δ} (hself : self.Wf) {s : Selection}
    (hs : self.phase.selection? = some s) : s.Wf := by
  have hphase := hself.phase
  unfold SkkPhase.selection? at hs
  split at hs
  · rename_i heq
    cases hs
    rw [heq] at hphase
    exact hphase.2
  · rename_i heq
    cases hs
    rw [heq] at hphase
    exact hphase.2
  · cases hs

/-- The phase is `Midashi`. -/
def SkkPhase.isMidashi : SkkPhase → Bool
  | .midashi _ _ => true
  | _ => false

/-- A trigger character typed at the end of a reading, and whether the reading has
candidates. -/
structure TypedTrigger where
  reading : Str
  trigger : Str
  found : Bool

/-- One change of the dictionary stack: every provider learns a plain candidate, or every
provider purges a word. Providers that cannot learn answer with themselves. -/
inductive DictStep {δ : Type} [DictionaryProvider δ] : List δ → List δ → Prop
  | learn (dict : List δ) (midashi : Str) (okuri : Option Str) (word : Str)
      (note : Option Str) :
      DictStep dict (dict.map fun d =>
        (DictionaryProvider.learn d ⟨midashi, okuri, [⟨word, note, none⟩]⟩).1)
  | purge (dict : List δ) (midashi : Str) (okuri : Option Str) (word : Str) :
      DictStep dict (dict.map fun d => (DictionaryProvider.purge d midashi okuri word).1)

/-- Any number of changes of the dictionary stack. -/
abbrev DictSteps {δ : Type} [DictionaryProvider δ] : List δ → List δ → Prop :=
  Relation.ReflTransGen DictStep

/-- What `complete` is documented to return: headwords that start with the prefix. -/
def CompletesPrefixes (δ : Type) [DictionaryProvider δ] : Prop :=
  ∀ (d : δ) (p w : Str), w ∈ DictionaryProvider.complete d p → p <+: w

namespace SkkEngine

variable {δ : Type}

/-- The candidate page of the current state. -/
def page (self : SkkEngine δ) : Option EngineAction :=
  match self.phase with
  | .selecting s => self.pageAt s.candidates s.index
  | _ => none

/-- Without a selection there is no page. -/
theorem page_eq_none {self : SkkEngine δ} (h : self.phase.selection? = none) :
    self.page = none := by
  unfold page
  cases hphase : self.phase <;> simp_all [SkkPhase.selection?]

/-- A page is a `ShowCandidates`, focused on its first row. -/
theorem pageAt_isShow {self : SkkEngine δ} {candidates : List Candidate} {index : Nat}
    {a : EngineAction} (h : self.pageAt candidates index = some a) :
    ∃ rows keys, a = .showCandidates rows 0 keys := by
  unfold pageAt at h
  dsimp only at h
  split at h
  · cases h
  · cases h
    exact ⟨_, _, rfl⟩

/-- The page of a state is a `ShowCandidates` whose first row is focused. -/
theorem page_isShow {self : SkkEngine δ} {a : EngineAction} (h : self.page = some a) :
    ∃ rows keys, a = .showCandidates rows 0 keys := by
  unfold page at h
  split at h
  · exact pageAt_isShow h
  · cases h

/-- Showing the page, or nothing when there is none, followed by the preedit. -/
def showPage (self : SkkEngine δ) (preedit : Preedit) : List EngineAction :=
  self.page.toList ++ [.updatePreedit preedit]

/-- The preedit comes last. -/
@[simp] theorem lastPreedit_showPage (self : SkkEngine δ) (preedit : Preedit) :
    lastPreedit (self.showPage preedit) = some (.updatePreedit preedit) := by
  rw [showPage, lastPreedit_append]
  rfl

/-- The window action of a drawn page is the page: what comes with it only draws the preedit. -/
@[simp] theorem lastWindow_showPage (self : SkkEngine δ) (preedit : Preedit) :
    lastWindow (self.showPage preedit) = self.page := by
  rw [showPage, lastWindow_append]
  cases hpage : self.page with
  | none => rfl
  | some a =>
      obtain ⟨rows, keys, rfl⟩ := page_isShow hpage
      rfl

/-- Only one preedit is drawn. -/
theorem mem_showPage {self : SkkEngine δ} {preedit p : Preedit}
    (h : EngineAction.updatePreedit p ∈ self.showPage preedit) : p = preedit := by
  refine eq_of_mem_append_redraw (fun q hq => ?_) h
  obtain ⟨rows, keys, hshow⟩ := page_isShow (Option.mem_toList.mp hq)
  cases hshow

/-- The last preedit action `a` is what the state shows. A phase handler clears the
preedit only when nothing is being composed. -/
def Shows (self : SkkEngine δ) (a : EngineAction) : Prop :=
  match a with
  | .updatePreedit preedit => self.buildPreedit = .ok preedit
  | _ => self.phase.isPlain ∧ self.kanaState = []

/-- The last window action `a` is what the state shows. -/
def ShowsPage (self : SkkEngine δ) (a : EngineAction) : Prop :=
  (a = .hideCandidates ∧ self.page = none) ∨ self.page = some a

/-- A pending trigger belongs to an open selection. -/
def TriggerOk (self : SkkEngine δ) : Prop :=
  ∀ t, self.conversionTrigger = some t → self.phase.selection?.isSome

/-- A completion belongs to the `Midashi` phase and extends its prefix. -/
def CompletionOk (self : SkkEngine δ) : Prop :=
  ∀ c, self.completion = some c → self.phase.isMidashi ∧ c.cyclePrefix <+: c.preview

/-- A trigger pending afterwards was typed now, for a reading whose candidates are then being
selected, or belongs to a selection that is still open. -/
def TriggerStep (typed : Option TypedTrigger) (self self' : SkkEngine δ) : Prop :=
  ∀ t, self'.conversionTrigger = some t →
    (∃ k, typed = some k ∧ k.trigger = t ∧
      (k.found → ∃ s, self'.phase = .selecting s ∧ s.midashi = k.reading)) ∨
    (self.conversionTrigger = some t ∧ ∃ s s', self.phase.selection? = some s ∧
      self'.phase.selection? = some s' ∧ s' = { s with index := s'.index })

/-- A completion shown afterwards belongs to a prefix of the same `Midashi` session: the
reading itself, or the prefix of the completion shown before. -/
def CompletionStep (self self' : SkkEngine δ) : Prop :=
  ∀ c', self'.completion = some c' → c'.cyclePrefix <+: c'.preview ∧
    ∃ kanaBuf romanBuf, self'.phase = .midashi kanaBuf romanBuf ∧
      (c'.cyclePrefix = kanaBuf ∨
        ∃ c, self.completion = some c ∧ c.cyclePrefix = c'.cyclePrefix)

/-- The settings no key changes, and the raw-mode flag. -/
structure SameConfig (a b : SkkEngine δ) : Prop where
  kanaTable : b.kanaTable = a.kanaTable
  keybindings : b.keybindings = a.keybindings
  lispDirectives : b.lispDirectives = a.lispDirectives
  rawMode : b.rawMode = a.rawMode

/-- The settings of a state are its settings. -/
theorem SameConfig.refl (self : SkkEngine δ) : self.SameConfig self := ⟨rfl, rfl, rfl, rfl⟩

/-- Two changes that keep the settings keep them together. -/
theorem SameConfig.trans {a b c : SkkEngine δ} (hab : a.SameConfig b) (hbc : b.SameConfig c) :
    a.SameConfig c where
  kanaTable := hbc.kanaTable.trans hab.kanaTable
  keybindings := hbc.keybindings.trans hab.keybindings
  lispDirectives := hbc.lispDirectives.trans hab.lispDirectives
  rawMode := hbc.rawMode.trans hab.rawMode

/-! ### Completions -/

/-- Where no completion is left there is nothing to trace. -/
theorem CompletionStep.of_none {self self' : SkkEngine δ} (h : self'.completion = none) :
    CompletionStep self self' := by
  intro c' hc'
  rw [h] at hc'
  cases hc'

/-- Outside `Midashi` there is no completion to carry over, so a branch that does not touch it
has none afterwards either. -/
theorem CompletionStep.of_not_midashi {self self' : SkkEngine δ} (hself : self.CompletionOk)
    (hphase : self.phase.isMidashi = false) (h : self'.completion = self.completion) :
    CompletionStep self self' := by
  intro c' hc'
  rw [h] at hc'
  have := (hself c' hc').1
  rw [hphase] at this
  cases this

/-- Within `Midashi` a completion may be kept, since the completion of the state before was one
for its own reading. -/
theorem CompletionStep.of_kept {self self' : SkkEngine δ} (hself : self.CompletionOk)
    (hphase : self'.phase.isMidashi) (h : self'.completion = self.completion) :
    CompletionStep self self' := by
  intro c' hc'
  rw [h] at hc'
  refine ⟨(hself c' hc').2, ?_⟩
  cases hmidashi : self'.phase with
  | midashi kanaBuf romanBuf => exact ⟨kanaBuf, romanBuf, rfl, .inr ⟨c', hc', rfl⟩⟩
  | _ => rw [hmidashi] at hphase; cases hphase

variable [DictionaryProvider δ]

/-- A completion comes from one of the dictionaries. -/
theorem mem_allCompletions {self : SkkEngine δ} {pre word : Str}
    (h : word ∈ self.allCompletions pre) :
    ∃ d ∈ self.dict, word ∈ DictionaryProvider.complete d pre := by
  rw [allCompletions, Distinct.foldl_insert] at h
  have hword := (Distinct.distinctBy_sublist id _).mem h
  simpa using hword

/-- A completion that was found extends the prefix it was looked up for. -/
theorem prefix_findCompletion {self : SkkEngine δ} (hδ : CompletesPrefixes δ) {pre : Str}
    {startIndex : Nat} {found : Str × Nat}
    (h : self.findCompletion pre startIndex = some found) : pre <+: found.1 := by
  obtain ⟨word, hword, rfl⟩ := Option.map_eq_some_iff.mp h
  obtain ⟨d, -, hd⟩ := mem_allCompletions (List.mem_of_getElem? hword)
  exact hδ d pre word hd

/-- The completion is recomputed for the reading of the new state, so it is a completion of that
reading when the dictionaries complete prefixes. -/
theorem CompletionStep.of_update {self mid self' : SkkEngine δ} (hδ : CompletesPrefixes δ)
    {kanaBuf romanBuf : Str} (hphase : self'.phase = .midashi kanaBuf romanBuf)
    (h : self'.completion = (mid.updateCompletion kanaBuf).completion) :
    CompletionStep self self' := by
  intro c' hc'
  rw [h, updateCompletion] at hc'
  split at hc'
  · cases hc'
  · obtain ⟨found, hfound, rfl⟩ := Option.map_eq_some_iff.mp hc'
    exact ⟨prefix_findCompletion hδ hfound, kanaBuf, romanBuf, hphase, .inl rfl⟩

/-! ### The contract -/

/-- The contract of a phase handler started in `start`. `typed` is the conversion trigger the
key types, and `drops` says that the key drops pending romaji silently. The last two fields
assume what the invariants of the run provide, since a handler alone cannot know where a pending
trigger or a completion came from. -/
structure Post (typed : Option TypedTrigger) (drops : Prop) (start : SkkEngine δ)
    (r : SkkEngine δ × List EngineAction) : Prop where
  wf : r.1.Wf
  config : start.SameConfig r.1
  dict : DictSteps start.dict r.1.dict
  stack : r.1.registerStack = start.registerStack ∨
    ∃ frame, r.1.registerStack = frame :: start.registerStack
  preedits : ∀ preedit, .updatePreedit preedit ∈ r.2 → preedit.Wf
  shows : ∀ a, lastPreedit r.2 = some a → r.1.Shows a
  silent : lastPreedit r.2 = none →
    r.1 = start ∨ (drops ∧ r = ({ start with kanaState := [] }, [.passthrough]))
  window : ∀ a, lastWindow r.2 = some a → r.1.ShowsPage a
  samePage : lastWindow r.2 = none → r.1.page = start.page
  trigger : start.TriggerOk → TriggerStep typed start r.1
  completion : CompletesPrefixes δ → start.CompletionOk → CompletionStep start r.1

/-- The contract of a handler that does not stay silent. -/
def Redraws (r : SkkEngine δ × List EngineAction) : Prop := (lastPreedit r.2).isSome

/-- The contract of a branch that draws its result. Such a branch can be followed by another one
that stays silent. -/
def Drawn (typed : Option TypedTrigger) (start : SkkEngine δ)
    (r : SkkEngine δ × List EngineAction) : Prop :=
  Post typed False start r ∧ Redraws r

/-! ### Families of branches -/

/-- Apart from the composition (phase, pending romaji, display mode, completion) the two
states agree. -/
structure Keeps (a b : SkkEngine δ) : Prop extends a.SameConfig b where
  dict : b.dict = a.dict
  stack : b.registerStack = a.registerStack
  conversionTrigger : b.conversionTrigger = a.conversionTrigger

omit [DictionaryProvider δ] in
/-- A change of the composition fields alone keeps the configuration, the dictionaries, the
registrations and the trigger. -/
theorem keeps_compose (self : SkkEngine δ) (phase : SkkPhase) (kanaState : Str)
    (displayMode : KanaMode) (isAbbrev : Bool) (completion : Option CompletionState) :
    self.Keeps { self with
      phase := phase
      kanaState := kanaState
      midashiDisplayMode := displayMode
      midashiIsAbbrev := isAbbrev
      completion := completion } :=
  ⟨⟨rfl, rfl, rfl, rfl⟩, rfl, rfl, rfl⟩

/-- A branch that neither types a trigger nor drops romaji satisfies every contract: whatever a
handler may do in these two cases, it does not have to. -/
theorem Post.weaken {typed : Option TypedTrigger} {drops : Prop} {self : SkkEngine δ}
    {r : SkkEngine δ × List EngineAction} (h : Post none False self r) :
    Post typed drops self r :=
  { h with
    silent := fun hr => (h.silent hr).imp_right fun hd => hd.1.elim
    trigger := fun hself t ht => by
      rcases h.trigger hself t ht with ⟨k, hk, -⟩ | hkept
      · cases hk
      · exact .inr hkept }

omit [DictionaryProvider δ] in
/-- Outside a selection no trigger is pending: a trigger waits for the candidate it is committed
with. -/
theorem TriggerOk.eq_none {self : SkkEngine δ} (hself : self.TriggerOk)
    (hphase : self.phase.selection? = none) : self.conversionTrigger = none := by
  cases htrigger : self.conversionTrigger with
  | none => rfl
  | some t =>
      have := hself t htrigger
      rw [hphase] at this
      cases this

omit [DictionaryProvider δ] in
/-- Where no trigger is pending afterwards there is nothing to trace. -/
theorem TriggerStep.of_none {self self' : SkkEngine δ} (h : self'.conversionTrigger = none)
    (typed : Option TypedTrigger) : TriggerStep typed self self' := by
  intro t ht
  rw [h] at ht
  cases ht

/-- The key does nothing to the engine; it may still be passed on to the application. -/
theorem Post.idle {self : SkkEngine δ} {actions : List EngineAction} (hself : self.Wf)
    (hpreedit : lastPreedit actions = none) (hwindow : lastWindow actions = none) :
    Post none False self (self, actions) where
  wf := hself
  config := .refl self
  dict := .refl
  stack := .inl rfl
  preedits := fun preedit hmem => (updatePreedit_not_mem hpreedit preedit hmem).elim
  shows := fun a ha => by rw [hpreedit] at ha; cases ha
  silent := fun _ => .inl rfl
  window := fun a ha => by rw [hwindow] at ha; cases ha
  samePage := fun _ => rfl
  trigger := fun hok t ht => by
    obtain ⟨s, hs⟩ := Option.isSome_iff_exists.mp (hok t ht)
    exact .inr ⟨ht, s, s, hs, hs, rfl⟩
  completion := fun _ hok c hc => by
    exact CompletionStep.of_kept hok (hok c hc).1 rfl c hc

/-- One composition becomes another, outside a selection, and the result is drawn. There is no
window before or after, so the trigger of a conversion is none. The completion is the only part
that differs from key to key, which is why it is a hypothesis. -/
theorem Post.compose {self self' : SkkEngine δ} {actions : List EngineAction} {a : EngineAction}
    (hself : self.Wf) (hkeeps : self.Keeps self')
    (hsel : self.phase.selection? = none) (hsel' : self'.phase.selection? = none)
    (hphase : PhaseWf self'.kanaState self'.phase)
    (hcompletion : CompletesPrefixes δ → self.CompletionOk → CompletionStep self self')
    (hlast : lastPreedit actions = some a)
    (hshows : self'.Shows a) (hwindow : lastWindow actions = none)
    (hpreedits : ∀ preedit, .updatePreedit preedit ∈ actions → preedit.Wf) :
    Post none False self (self', actions) where
  wf := ⟨fun frame hframe => hself.frames frame (hkeeps.stack ▸ hframe), hphase⟩
  config := hkeeps.toSameConfig
  dict := by rw [hkeeps.dict]
  stack := .inl hkeeps.stack
  preedits := hpreedits
  shows := fun b hb => by
    rw [hlast] at hb
    cases hb
    exact hshows
  silent := fun h => by rw [hlast] at h; cases h
  window := fun b hb => by rw [hwindow] at hb; cases hb
  samePage := fun _ => by rw [page_eq_none hsel, page_eq_none hsel']
  trigger := fun hok => .of_none (hkeeps.conversionTrigger.trans (hok.eq_none hsel)) none
  completion := hcompletion

/-- A plain phase has no selection. -/
theorem selection?_of_isPlain {phase : SkkPhase} (h : phase.isPlain) :
    phase.selection? = none := by
  cases phase <;> simp_all [SkkPhase.isPlain, SkkPhase.selection?]

/-- The composition ends in a plain mode, with a `ClearPreedit`. The window is not touched,
since no selection was open. -/
theorem Post.leave {self self' : SkkEngine δ} {actions : List EngineAction} (hself : self.Wf)
    (hkeeps : self.Keeps self')
    (hsel : self.phase.selection? = none) (hplain : self'.phase.isPlain)
    (hkana : self'.kanaState = [])
    (hcompletion : CompletesPrefixes δ → self.CompletionOk → CompletionStep self self')
    (hlast : lastPreedit actions = some .clearPreedit)
    (hwindow : lastWindow actions = none)
    (hpreedits : ∀ preedit, .updatePreedit preedit ∈ actions → preedit.Wf) :
    Post none False self (self', actions) :=
  .compose hself hkeeps hsel (selection?_of_isPlain hplain)
    (by rw [hkana]; exact phaseWf_of_isPlain hplain) hcompletion hlast ⟨hplain, hkana⟩ hwindow
    hpreedits

omit [DictionaryProvider δ] in
/-- The preedit action of a well-formed state. -/
theorem preeditAction_eq {self : SkkEngine δ} (hself : self.Wf) :
    ∃ preedit, self.buildPreedit = .ok preedit ∧ preedit.Wf ∧
      self.preeditAction = .ok (.updatePreedit preedit) := by
  obtain ⟨preedit, hbuild, hwf⟩ := buildPreedit_runs hself
  exact ⟨preedit, hbuild, hwf, by rw [preeditAction, hbuild]; rfl⟩

omit [DictionaryProvider δ] in
/-- `redraw` is the preedit action of the state. -/
theorem redraw_runs_iff {self : SkkEngine δ} {Q : SkkEngine δ × List EngineAction → Prop} :
    Runs self.redraw Q ↔ ∃ a, self.preeditAction = .ok a ∧ Q (self, [a]) := by
  unfold redraw
  cases h : self.preeditAction with
  | error e => constructor <;> rintro ⟨a, ha, -⟩ <;> cases ha
  | ok a => simp

/-- One composition becomes another, drawn by a single `UpdatePreedit` of the state that is
left. -/
theorem redraw_drawn {self self' : SkkEngine δ} (hself : self.Wf) (hkeeps : self.Keeps self')
    (hsel : self.phase.selection? = none) (hsel' : self'.phase.selection? = none)
    (hphase : PhaseWf self'.kanaState self'.phase)
    (hcompletion : CompletesPrefixes δ → self.CompletionOk → CompletionStep self self') :
    Runs self'.redraw (Drawn none self) := by
  have hself' : self'.Wf :=
    ⟨fun frame hframe => hself.frames frame (hkeeps.stack ▸ hframe), hphase⟩
  obtain ⟨preedit, hbuild, hwf, haction⟩ := preeditAction_eq hself'
  simp only [redraw, haction, ok_bind, runs_pure]
  refine ⟨.compose hself hkeeps hsel hsel' hphase hcompletion rfl hbuild rfl ?_, rfl⟩
  intro p hp
  cases List.mem_singleton.mp hp
  exact hwf

/-- The same without the claim that something is drawn. -/
theorem redraw_post {self self' : SkkEngine δ} (hself : self.Wf) (hkeeps : self.Keeps self')
    (hsel : self.phase.selection? = none) (hsel' : self'.phase.selection? = none)
    (hphase : PhaseWf self'.kanaState self'.phase)
    (hcompletion : CompletesPrefixes δ → self.CompletionOk → CompletionStep self self') :
    Runs self'.redraw (Post none False self) :=
  (redraw_drawn hself hkeeps hsel hsel' hphase hcompletion).mono fun _ h => h.1

omit [DictionaryProvider δ] in
/-- Two changes of the composition are one. -/
theorem Keeps.trans {a b c : SkkEngine δ} (hab : a.Keeps b) (hbc : b.Keeps c) : a.Keeps c where
  toSameConfig := hab.toSameConfig.trans hbc.toSameConfig
  dict := hbc.dict.trans hab.dict
  stack := hbc.stack.trans hab.stack
  conversionTrigger := hbc.conversionTrigger.trans hab.conversionTrigger

/-- `updateCompletion` changes the completion alone. -/
theorem updateCompletion_eq (self : SkkEngine δ) (kanaBuf : Str) :
    self.updateCompletion kanaBuf
      = { self with completion := (self.updateCompletion kanaBuf).completion } := by
  unfold updateCompletion
  split <;> rfl

omit [DictionaryProvider δ] in
/-- A trigger that a reading ends in is its last character. -/
theorem endsInTrigger_eq_some {self : SkkEngine δ} {kanaBuf : Str} {last : Char}
    (h : self.endsInTrigger kanaBuf = some last) : kanaBuf.getLast? = some last :=
  (Option.filter_eq_some_iff.mp h).1

/-- What the table makes of a character has two results. A kana that ends in a trigger looks
the reading before it up. Otherwise the reading goes on, with what is pending. -/
theorem midashiFeed_cases (self : SkkEngine δ) (kanaBuf output nextState : Str) :
    (∃ last, output ≠ [] ∧ nextState = [] ∧
      self.endsInTrigger (kanaBuf ++ output) = some last ∧
      self.midashiFeed kanaBuf output nextState =
        SkkEngine.convertOnTrigger { self with kanaState := [] } (kanaBuf ++ output).dropLast
          [last]) ∨
    ((output ≠ [] → nextState = [] → self.endsInTrigger (kanaBuf ++ output) = none) ∧
      ∃ completion, self.midashiFeed kanaBuf output nextState =
        SkkEngine.redraw { self with
          completion := completion
          phase := .midashi (kanaBuf ++ output) nextState
          kanaState := nextState }) := by
  unfold midashiFeed
  dsimp only
  by_cases hout : output = []
  · subst hout
    rw [if_pos (show ([] : Str).isEmpty from rfl), List.append_nil]
    exact .inr ⟨fun h => (h rfl).elim, none, rfl⟩
  rw [if_neg (by simpa using hout)]
  by_cases hnext : nextState = []
  · subst hnext
    rw [if_pos (show ([] : Str).isEmpty from rfl)]
    -- The pending romaji play no part in what a trigger is.
    rw [show SkkEngine.endsInTrigger { self with kanaState := [] } (kanaBuf ++ output)
      = self.endsInTrigger (kanaBuf ++ output) from rfl]
    cases hends : self.endsInTrigger (kanaBuf ++ output) with
    | some last =>
        dsimp only
        rw [truncate_getLast (endsInTrigger_eq_some hends), ok_bind]
        exact .inl ⟨last, hout, rfl, rfl, rfl⟩
    | none =>
        dsimp only
        rw [updateCompletion_eq]
        exact .inr ⟨fun _ _ => rfl, _, rfl⟩
  · rw [if_neg (by simpa using hnext)]
    exact .inr ⟨fun _ h => (hnext h).elim, none, rfl⟩

/-- A reading is shown with its completion recomputed. The ghost text of the preedit is the
completion of the reading that is shown. -/
theorem update_drawn {self mid : SkkEngine δ} (hself : self.Wf) (hkeeps : self.Keeps mid)
    (hsel : self.phase.selection? = none) (hkana : mid.kanaState = []) (kanaBuf : Str) :
    Runs { mid.updateCompletion kanaBuf with phase := .midashi kanaBuf [] }.redraw
      (Drawn none self) := by
  refine redraw_drawn hself (hkeeps.trans ?_) hsel rfl ?_ fun hδ _ => .of_update hδ rfl rfl
  · rw [updateCompletion_eq]
    exact mid.keeps_compose _ _ _ _ _
  · rw [updateCompletion_eq]
    exact hkana

/-- A selection ends, and the window is hidden. The candidate was committed, learnt or dropped,
so the dictionaries and the stack of registrations may have changed. The trigger of the
conversion goes with the selection. -/
theorem Post.close {self self' : SkkEngine δ} {actions : List EngineAction} {a : EngineAction}
    (hself' : self'.Wf) (hconfig : self.SameConfig self') (hdict : DictSteps self.dict self'.dict)
    (hstack : self'.registerStack = self.registerStack ∨
      ∃ frame, self'.registerStack = frame :: self.registerStack)
    (hsel' : self'.phase.selection? = none) (htrigger : self'.conversionTrigger = none)
    (hcompletion : CompletesPrefixes δ → self.CompletionOk → CompletionStep self self')
    (hlast : lastPreedit actions = some a) (hshows : self'.Shows a)
    (hwindow : lastWindow actions = some .hideCandidates)
    (hpreedits : ∀ preedit, .updatePreedit preedit ∈ actions → preedit.Wf) :
    Post none False self (self', actions) where
  wf := hself'
  config := hconfig
  dict := hdict
  stack := hstack
  preedits := hpreedits
  shows := fun b hb => by
    rw [hlast] at hb
    cases hb
    exact hshows
  silent := fun h => by rw [hlast] at h; cases h
  window := fun b hb => by
    rw [hwindow] at hb
    cases hb
    exact .inl ⟨rfl, page_eq_none hsel'⟩
  samePage := fun h => by rw [hwindow] at h; cases h
  trigger := fun _ => .of_none htrigger none
  completion := hcompletion

/-- A selection stays open, perhaps with another candidate focused. The candidates, the reading
and the trigger are those of the selection before. Either a page is shown, or the page was on
the screen already. -/
theorem Post.reselect {self self' : SkkEngine δ} {actions : List EngineAction} {a : EngineAction}
    {s s' : Selection} (hself' : self'.Wf) (hkeeps : self.Keeps self')
    (hsel : self.phase.selection? = some s) (hsel' : self'.phase.selection? = some s')
    (hindex : s' = { s with index := s'.index })
    (hcompletion : CompletesPrefixes δ → self.CompletionOk → CompletionStep self self')
    (hlast : lastPreedit actions = some a) (hshows : self'.Shows a)
    (hwindow : ∀ b, lastWindow actions = some b → self'.ShowsPage b)
    (hsame : lastWindow actions = none → self'.page = self.page)
    (hpreedits : ∀ preedit, .updatePreedit preedit ∈ actions → preedit.Wf) :
    Post none False self (self', actions) where
  wf := hself'
  config := hkeeps.toSameConfig
  dict := by rw [hkeeps.dict]
  stack := .inl hkeeps.stack
  preedits := hpreedits
  shows := fun b hb => by
    rw [hlast] at hb
    cases hb
    exact hshows
  silent := fun h => by rw [hlast] at h; cases h
  window := hwindow
  samePage := hsame
  trigger := fun _ t ht => .inr ⟨hkeeps.conversionTrigger ▸ ht, s, s', hsel, hsel', hindex⟩
  completion := hcompletion

/-- The contract looks at the preedits, and at the last action on preedit and window. Actions
that agree in these satisfy it together. -/
theorem Drawn.of_same {self self' : SkkEngine δ} {typed : Option TypedTrigger}
    {actions actions' : List EngineAction} (h : Drawn typed self (self', actions))
    (hpreedits : ∀ p, .updatePreedit p ∈ actions' → .updatePreedit p ∈ actions)
    (hlast : lastPreedit actions' = lastPreedit actions)
    (hwindow : lastWindow actions' = lastWindow actions) :
    Drawn typed self (self', actions') := by
  obtain ⟨h, hr⟩ := h
  exact ⟨{ h with
    preedits := fun p hp => h.preedits p (hpreedits p hp)
    shows := fun a ha => h.shows a (hlast ▸ ha)
    silent := fun hnone => (h.silent (hlast ▸ hnone)).imp_right fun hd => hd.1.elim
    window := fun a ha => h.window a (hwindow ▸ ha)
    samePage := fun hnone => h.samePage (hwindow ▸ hnone) }, by rw [Redraws, hlast]; exact hr⟩

/-- Actions that touch neither the preedit nor the window may come first, such as a commit. -/
theorem Drawn.prepend {self self' : SkkEngine δ} {typed : Option TypedTrigger}
    {before actions : List EngineAction} (hpreedit : lastPreedit before = none)
    (hwindow : lastWindow before = none) (h : Drawn typed self (self', actions)) :
    Drawn typed self (self', before ++ actions) := by
  refine h.of_same (fun p hp => ?_) ?_ ?_
  · rcases List.mem_append.mp hp with hp | hp
    · exact (updatePreedit_not_mem hpreedit p hp).elim
    · exact hp
  · rw [lastPreedit_append, hpreedit, Option.or_none]
  · rw [lastWindow_append, hwindow, Option.or_none]

/-- Such actions may also come last, such as a status update. -/
theorem Drawn.append {self : SkkEngine δ} {typed : Option TypedTrigger}
    {r : SkkEngine δ × List EngineAction} {more : List EngineAction} (h : Drawn typed self r)
    (hpreedit : lastPreedit more = none) (hwindow : lastWindow more = none) :
    Drawn typed self (r.1, r.2 ++ more) := by
  obtain ⟨self', actions⟩ := r
  refine h.of_same (fun p hp => ?_) ?_ ?_
  · rcases List.mem_append.mp hp with hp | hp
    · exact hp
    · exact (updatePreedit_not_mem hpreedit p hp).elim
  · rw [lastPreedit_append, hpreedit, Option.none_or]
  · rw [lastWindow_append, hwindow, Option.none_or]

/-- Text may be committed before the result is drawn. -/
theorem Drawn.prepend_commit {self self' : SkkEngine δ} {typed : Option TypedTrigger}
    {actions : List EngineAction} (h : Drawn typed self (self', actions)) (text : Str) :
    Drawn typed self (self', .commit text :: actions) :=
  have hpreedit : lastPreedit [.commit text] = none := rfl
  h.prepend hpreedit rfl

/-- A selection is committed, and the key is handled once more in the kana mode. The second half
starts in a plain mode, so what it promises holds of the whole. -/
theorem Post.andThen {self mid : SkkEngine δ} {typed : Option TypedTrigger} {drops : Prop}
    {before : List EngineAction} {r : SkkEngine δ × List EngineAction}
    (hbefore : Drawn none self (mid, before)) (hstack : mid.registerStack = self.registerStack)
    (htrigger : mid.conversionTrigger = none) (hkana : mid.kanaState = [])
    (hphase : self.phase.isMidashi = false) (hcompletion : mid.completion = self.completion)
    (h : Post typed drops mid r) : Post typed False self (r.1, before ++ r.2) := by
  obtain ⟨h0, hr⟩ := hbefore
  obtain ⟨a, ha⟩ := Option.isSome_iff_exists.mp hr
  refine {
    wf := h.wf
    config := h0.config.trans h.config
    dict := h0.dict.trans h.dict
    stack := hstack ▸ h.stack
    preedits := fun p hp => (List.mem_append.mp hp).elim (h0.preedits p) (h.preedits p)
    shows := fun b hb => ?_
    silent := fun hnone => ?_
    window := fun b hb => ?_
    samePage := fun hnone => ?_
    trigger := fun _ t ht => ?_
    completion := fun hδ hok c hc => ?_ }
  · rw [lastPreedit_append] at hb
    cases hlast : lastPreedit r.2 with
    | some b' =>
        rw [hlast] at hb
        exact h.shows b (hlast.trans hb)
    | none =>
        rw [hlast, Option.none_or] at hb
        -- The kana handler was silent, so the state is the one the commit drew.
        have hmid : r.1 = mid := by
          rcases h.silent hlast with hmid | ⟨-, hmid⟩
          · exact hmid
          · rw [hmid, ← hkana]
        rw [hmid]
        exact h0.shows b hb
  · rw [lastPreedit_append, ha] at hnone
    cases hlast : lastPreedit r.2 <;> simp [hlast] at hnone
  · rw [lastWindow_append] at hb
    cases hlast : lastWindow r.2 with
    | some b' =>
        rw [hlast] at hb
        exact h.window b (hlast.trans hb)
    | none =>
        rw [hlast, Option.none_or] at hb
        have hpage := h0.window b hb
        rw [ShowsPage, h.samePage hlast]
        exact hpage
  · rw [lastWindow_append, Option.or_eq_none_iff] at hnone
    exact (h.samePage hnone.1).trans (h0.samePage hnone.2)
  · -- The commit has cleared the trigger.
    have hokmid : mid.TriggerOk := fun t' ht' => by rw [htrigger] at ht'; cases ht'
    rcases h.trigger hokmid t ht with htyped | ⟨hkept, -⟩
    · exact .inl htyped
    · rw [htrigger] at hkept
      cases hkept
  · -- A selection has no completion that the second handler could keep.
    have hnone : ∀ c, mid.completion ≠ some c := fun c hc => by
      have := (hok c (hcompletion ▸ hc)).1
      rw [hphase] at this
      cases this
    have hokmid : mid.CompletionOk := fun c hc => (hnone c hc).elim
    obtain ⟨hleading, kanaBuf, romanBuf, hmidashi, hfrom⟩ := h.completion hδ hokmid c hc
    refine ⟨hleading, kanaBuf, romanBuf, hmidashi, .inl ?_⟩
    rcases hfrom with hfrom | ⟨c0, hc0, -⟩
    · exact hfrom
    · exact (hnone c0 hc0).elim

/-- A handler that enters another phase and hands the key on to that phase's handler,
which draws. -/
theorem Drawn.of_entered {self mid : SkkEngine δ} {typed : Option TypedTrigger}
    {r : SkkEngine δ × List EngineAction} (h : Drawn typed mid r) (hkeeps : self.Keeps mid)
    (hsel : self.phase.selection? = none) (hsel' : mid.phase.selection? = none)
    (hcompletion : self.CompletionOk →
      mid.CompletionOk ∧ ∀ c, mid.completion = some c → self.completion = some c) :
    Drawn typed self r := by
  obtain ⟨h, hr⟩ := h
  refine ⟨{
    wf := h.wf
    config := hkeeps.toSameConfig.trans h.config
    dict := hkeeps.dict ▸ h.dict
    stack := hkeeps.stack ▸ h.stack
    preedits := h.preedits
    shows := h.shows
    silent := fun hnone => ?_
    window := h.window
    samePage := fun hnone => ?_
    trigger := fun hok t ht => ?_
    completion := fun hδ hok c hc => ?_ }, hr⟩
  · rw [Redraws, hnone] at hr
    cases hr
  · rw [h.samePage hnone, page_eq_none hsel, page_eq_none hsel']
  · -- No trigger is pending in either phase.
    have hmid : mid.conversionTrigger = none := hkeeps.conversionTrigger.trans (hok.eq_none hsel)
    have hokmid : mid.TriggerOk := fun t' ht' => by rw [hmid] at ht'; cases ht'
    rcases h.trigger hokmid t ht with htyped | ⟨hkept, -⟩
    · exact .inl htyped
    · rw [hmid] at hkept
      cases hkept
  · -- A completion that is kept is one of `mid`, and so one of `self`.
    obtain ⟨hokmid, hback⟩ := hcompletion hok
    obtain ⟨hleading, kanaBuf, romanBuf, hphase, hfrom⟩ := h.completion hδ hokmid c hc
    refine ⟨hleading, kanaBuf, romanBuf, hphase, hfrom.imp_right ?_⟩
    rintro ⟨c0, hc0, heq⟩
    exact ⟨c0, hback c0 hc0, heq⟩

/-! ### Starting a conversion -/

omit [DictionaryProvider δ] in
/-- A registration frame starts with an empty buffer and the template of its reading. -/
theorem newFrame_wf (self : SkkEngine δ) (midashi : Str) {okuriKey okuriKana : Option Str}
    (hokuri : okuriKana.isSome = okuriKey.isSome) :
    (self.newFrame midashi okuriKey okuriKana).Wf where
  cursor := isBoundary_zero _
  scanned := rfl
  okuri := hokuri

omit [DictionaryProvider δ] in
/-- A frame that is pushed on a well-formed stack keeps the engine well-formed: the phase is the
plain Hiragana mode and nothing is pending. -/
theorem pushFrame_wf {self : SkkEngine δ} (hframes : ∀ frame ∈ self.registerStack, frame.Wf)
    {frame : RegisterFrame} (hframe : frame.Wf) : (self.pushFrame frame).Wf := by
  refine ⟨fun f hf => ?_, trivial⟩
  rcases List.mem_cons.mp hf with rfl | hf
  · exact hframe
  · exact hframes f hf

/-- The selection a conversion opens. -/
def openSelection (midashi : Str) (okuri : Option (Str × Str)) (g : Gathered) : Selection where
  midashi := midashi
  okuri := okuri.map Prod.snd
  okuriKey := okuri.map Prod.fst
  candidates := g.candidates
  origin := g.origin
  index := 0

/-- The origins of the candidates are those that were gathered. -/
@[simp] theorem openSelection_origin (midashi : Str) (okuri : Option (Str × Str))
    (g : Gathered) : (openSelection midashi okuri g).origin = g.origin := rfl

/-- A selection over the gathered candidates is well-formed when there are any. -/
theorem openSelection_wf (midashi : Str) (okuri : Option (Str × Str)) {g : Gathered}
    (hg : g.Wf) (hne : g.candidates ≠ []) : (openSelection midashi okuri g).Wf where
  origin_length := hg
  index_lt := List.length_pos_iff.mpr hne
  okuri := by simp [openSelection]

/-- The candidates of a lookup depend on the dictionaries and the directive setting alone, and
not on the phase the conversion is started from. -/
theorem gatherCandidates_congr {self self' : SkkEngine δ} (hdict : self'.dict = self.dict)
    (hlisp : self'.lispDirectives = self.lispDirectives) (midashi : Str)
    (okuriKey : Option Str) :
    self'.gatherCandidates midashi okuriKey = self.gatherCandidates midashi okuriKey := by
  have hall : ∀ key okuri, self'.lookupAll key okuri = self.lookupAll key okuri := by
    intro key okuri
    rw [lookupAll, lookupAll, hdict]
  have hrec : self'.recursiveLookup = self.recursiveLookup := by
    funext key
    rw [recursiveLookup, recursiveLookup, hall, hlisp]
  have hgather : self'.gatherCandidate = self.gatherCandidate := by
    funext hidden key runs g c
    rw [gatherCandidate, gatherCandidate, hrec]
  unfold gatherCandidates
  simp only [hall, hgather, hlisp]

/-- A lookup has candidates to select from. -/
def hasCandidates (self : SkkEngine δ) (midashi : Str) : Bool :=
  match self.gatherCandidates midashi none with
  | .ok g => !g.candidates.isEmpty
  | .error _ => false

/-- The two outcomes of `startConversion`: a registration when there are no candidates,
else a selection with the first candidate focused. -/
inductive Converted (self : SkkEngine δ) (midashi : Str) (okuri : Option (Str × Str)) :
    SkkEngine δ × List EngineAction → Prop
  | register {g preedit self'} :
      self.gatherCandidates midashi (okuri.map Prod.fst) = .ok g → g.candidates = [] →
      self' = { self with completion := none }.pushFrame
        (self.newFrame midashi (okuri.map Prod.fst) (okuri.map Prod.snd)) →
      self'.buildPreedit = .ok preedit → preedit.Wf →
      Converted self midashi okuri (self', [.updatePreedit preedit])
  | select {g preedit self'} :
      self.gatherCandidates midashi (okuri.map Prod.fst) = .ok g → g.Wf → g.candidates ≠ [] →
      self' = { self with
        completion := none, phase := .selecting (openSelection midashi okuri g) } →
      self'.buildPreedit = .ok preedit → preedit.Wf →
      Converted self midashi okuri (self', self'.showPage preedit)

/-- A lookup does not fail, and has one of the two outcomes. Without candidates a frame is
pushed for the reading and its prompt is drawn. With candidates the first one is focused and its
page is shown, if there is one. -/
theorem startConversion_runs {self : SkkEngine δ} (hframes : ∀ frame ∈ self.registerStack, frame.Wf)
    (hkana : self.kanaState = []) (midashi : Str) (okuri : Option (Str × Str)) :
    Runs (self.startConversion midashi okuri) (Converted self midashi okuri) := by
  obtain ⟨g, hgather, hg⟩ := gatherCandidates_runs self midashi (okuri.map Prod.fst)
  have hgather' : { self with completion := none }.gatherCandidates midashi (okuri.map Prod.fst)
      = .ok g := by
    rw [← hgather]
    exact gatherCandidates_congr rfl rfl _ _
  simp only [startConversion, hgather', ok_bind]
  -- no candidates: a registration; else a selection, whose page may be missing in inline
  -- selection
  refine Runs.ite (fun hempty => ?_) fun hne => ?_
  · have hwf : ({ self with completion := none }.pushFrame
        ({ self with completion := none }.newFrame midashi (okuri.map Prod.fst)
          (okuri.map Prod.snd))).Wf := by
      apply pushFrame_wf
      · exact hframes
      · exact newFrame_wf _ _ (by simp)
    obtain ⟨preedit, hbuild, hpreedit, haction⟩ := preeditAction_eq hwf
    simp only [redraw, haction, ok_bind, runs_pure]
    exact .register hgather (List.isEmpty_iff.mp hempty) rfl hbuild hpreedit
  · have hcands : g.candidates ≠ [] := fun h => hne (by simp [h])
    have hsel := openSelection_wf midashi okuri hg hcands
    have hwf : SkkEngine.Wf { self with
        completion := none, phase := .selecting (openSelection midashi okuri g) } :=
      ⟨hframes, hkana, hsel⟩
    obtain ⟨preedit, hbuild, hpreedit, haction⟩ := preeditAction_eq hwf
    have hpage := listingShowAction_eq { self with
      completion := none, phase := .selecting (openSelection midashi okuri g) }
      (Nat.zero_le g.candidates.length)
    have hdone := Converted.select hgather hg hcands rfl hbuild hpreedit
    simp only [showPage, page, openSelection] at hdone haction hpage ⊢
    simp only [haction, ok_bind, hpage]
    cases hshow : pageAt _ g.candidates 0 with
    | none => simpa [hshow] using hdone
    | some a => simpa [hshow] using hdone

/-- A handler that looks a reading up outside a selection. `mid` is the state it calls
`startConversion` in: the trigger is the old one, or the one just typed. -/
theorem convert_drawn {self mid : SkkEngine δ} {typed : Option TypedTrigger} {midashi : Str}
    {okuri : Option (Str × Str)} (hself : self.Wf) (hconfig : self.SameConfig mid)
    (hdict : mid.dict = self.dict) (hstack : mid.registerStack = self.registerStack)
    (hsel : self.phase.selection? = none) (hkana : mid.kanaState = [])
    (htrigger : mid.conversionTrigger = self.conversionTrigger ∨
      ∃ t, mid.conversionTrigger = some t ∧ okuri = none ∧
        typed = some ⟨midashi, t, self.hasCandidates midashi⟩) :
    Runs (mid.startConversion midashi okuri) (Drawn typed self) := by
  have hframes : ∀ frame ∈ mid.registerStack, frame.Wf := hstack ▸ hself.frames
  refine (startConversion_runs hframes hkana midashi okuri).mono fun r hr => ?_
  cases hr with
  | @register g preedit self' hgather hempty heq hbuild hpreedit =>
      have hwf : self'.Wf := by
        rw [heq]
        apply pushFrame_wf
        · exact hframes
        · exact newFrame_wf _ _ (by simp)
      subst heq
      refine ⟨{
        wf := hwf
        config := ⟨hconfig.kanaTable, hconfig.keybindings, hconfig.lispDirectives, hconfig.rawMode⟩
        dict := by rw [pushFrame, hdict]
        stack := .inr ⟨_, by rw [pushFrame, ← hstack]⟩
        preedits := fun p hp => by cases List.mem_singleton.mp hp; exact hpreedit
        shows := fun a ha => by cases ha; exact hbuild
        silent := fun h => by cases h
        window := fun a ha => by cases ha
        samePage := fun _ => by rw [page_eq_none hsel]; rfl
        trigger := fun hok => ?_
        completion := fun _ _ => .of_none rfl }, rfl⟩
      rcases htrigger with hsame | ⟨t', ht', hokuri, htyped⟩
      · refine .of_none ?_ typed
        exact hsame.trans (hok.eq_none hsel)
      · -- A trigger that finds nothing must not stay pending in the registration it opens.
        -- The trigger was typed, for a reading without candidates.
        intro t ht
        refine .inl ⟨_, htyped, Option.some.inj (ht'.symm.trans ht), fun hfound => ?_⟩
        subst hokuri
        have hg : self.gatherCandidates midashi none = .ok g :=
          (gatherCandidates_congr hdict hconfig.lispDirectives _ _).symm.trans hgather
        simp [hasCandidates, hg, hempty] at hfound
  | @select g preedit self' hgather hg hne heq hbuild hpreedit =>
      have hlast := lastPreedit_showPage self' preedit
      have hwindow := lastWindow_showPage self' preedit
      have hwf : self'.Wf := heq ▸ ⟨hframes, hkana, openSelection_wf midashi okuri hg hne⟩
      subst heq
      refine ⟨{
        wf := hwf
        config := ⟨hconfig.kanaTable, hconfig.keybindings, hconfig.lispDirectives, hconfig.rawMode⟩
        dict := by rw [← hdict]
        stack := .inl hstack
        preedits := fun p hp => mem_showPage hp ▸ hpreedit
        shows := fun a ha => by rw [hlast] at ha; cases ha; exact hbuild
        silent := fun h => by rw [hlast] at h; cases h
        window := fun a ha => .inr (by rw [← ha]; exact hwindow.symm)
        samePage := fun h => by rw [page_eq_none hsel, ← h]; exact hwindow.symm
        trigger := fun hok => ?_
        completion := fun _ _ => .of_none rfl }, by rw [Redraws, hlast]; rfl⟩
      -- The selection is open, for the reading the trigger was typed after.
      rcases htrigger with hsame | ⟨t', ht', -, htyped⟩
      · refine .of_none ?_ typed
        exact hsame.trans (hok.eq_none hsel)
      · intro t ht
        exact .inl ⟨_, htyped, Option.some.inj (ht'.symm.trans ht), fun _ => ⟨_, rfl, rfl⟩⟩

end SkkEngine

end Y2Skk
