import Y2Skk.Lib.Distinct
import Y2Skk.Proofs.Paging

/-!
# `Y2Skk.Proofs.TabCycle`: Tab goes through the completions

`update_completion` previews the first completion of the reading. Each Tab makes the
preview the reading and previews the next one, which is looked up again under the prefix
the cycle began with.

## The cycle

`tabbed n` is the state this is meant to reach after `n` presses: the reading is
completion `n`, or the last one when there are fewer, and the preview is the one behind
it. It is written down without the handler, from the list of the completions alone
(`completionsOf`).

* `midashiTab_tabbed`: one press goes from `tabbed n` to `tabbed (n + 1)`, also behind the
  last completion, where it changes nothing.
* `tab_cycles`: every number of presses.

A press is the handler, or the whole of `process_key` where the key gets through to it
(`Takes`). The dictionaries are asked anew at every press; nothing that Tab does changes
what they answer.
-/

set_option autoImplicit false

namespace Y2Skk

open Outcome Utf8 Distinct

namespace SkkEngine

variable {δ : Type} [DictionaryProvider δ] {self : SkkEngine δ} {kanaBuf : Str}

/-- The completions of a reading, over all providers in order and each once. -/
def completionsOf (self : SkkEngine δ) (kanaBuf : Str) : List Str :=
  distinctBy id (self.dict.flatMap fun d => DictionaryProvider.complete d kanaBuf)

/-- The loop over the providers collects this list. -/
theorem allCompletions_eq (self : SkkEngine δ) (kanaBuf : Str) :
    self.allCompletions kanaBuf = self.completionsOf kanaBuf := foldl_insert _

/-- The reading after `n` presses of Tab. -/
def tabbedReading (self : SkkEngine δ) (kanaBuf : Str) : Nat → Str
  | 0 => kanaBuf
  | n + 1 =>
      ((self.completionsOf kanaBuf)[min (n + 1) (self.completionsOf kanaBuf).length - 1]?).getD
        kanaBuf

/-- The state after `n` presses of Tab. -/
def tabbed (self : SkkEngine δ) (kanaBuf : Str) (n : Nat) : SkkEngine δ :=
  { self with
    phase := .midashi (self.tabbedReading kanaBuf n) []
    completion := ((self.completionsOf kanaBuf)[n]?).map fun preview =>
      { cyclePrefix := kanaBuf, nextIndex := n + 1, preview := preview } }

/-- A completion is found by its place in the list. -/
theorem findCompletion_eq (self : SkkEngine δ) (kanaBuf : Str) (startIndex : Nat) :
    self.findCompletion kanaBuf startIndex =
      ((self.completionsOf kanaBuf)[startIndex]?).map fun word => (word, startIndex + 1) := by
  rw [findCompletion, allCompletions_eq]

/-- The cycle begins where `update_completion` leaves the reading. -/
theorem updateCompletion_tabbed (hphase : self.phase = .midashi kanaBuf []) (hne : kanaBuf ≠ []) :
    self.updateCompletion kanaBuf = self.tabbed kanaBuf 0 := by
  unfold updateCompletion tabbed tabbedReading
  rw [if_neg (by simpa using hne), findCompletion_eq, Option.map_map, ← hphase]
  rfl

/-- While there is a completion left, it becomes the reading. -/
theorem tabbedReading_succ {n : Nat} {preview : Str}
    (h : (self.completionsOf kanaBuf)[n]? = some preview) :
    self.tabbedReading kanaBuf (n + 1) = preview := by
  have hlt : n < (self.completionsOf kanaBuf).length := (List.getElem?_eq_some_iff.mp h).1
  have hmin : min (n + 1) (self.completionsOf kanaBuf).length - 1 = n := by omega
  rw [tabbedReading, hmin, h]
  rfl

/-- Behind the last one the reading stays: one more Tab shows the last completion again, or the
reading itself when it has none. -/
theorem tabbedReading_stays {n : Nat} (h : (self.completionsOf kanaBuf)[n]? = none) :
    self.tabbedReading kanaBuf (n + 1) = self.tabbedReading kanaBuf n := by
  have hle : (self.completionsOf kanaBuf).length ≤ n := List.getElem?_eq_none_iff.mp h
  cases n with
  | zero =>
      have hnil : self.completionsOf kanaBuf = [] := List.length_eq_zero_iff.mp (by omega)
      rw [tabbedReading, tabbedReading, hnil]
      rfl
  | succ n =>
      have hmin : min (n + 1 + 1) (self.completionsOf kanaBuf).length
          = min (n + 1) (self.completionsOf kanaBuf).length := by omega
      rw [tabbedReading, tabbedReading, hmin]

/-- One press in the handler. The preview becomes the reading, and the next completion of the
typed prefix becomes the preview. After the last one there is no preview, and the press changes
nothing. -/
theorem midashiTab_tabbed (hkana : self.kanaState = []) (n : Nat) :
    (self.tabbed kanaBuf n).midashiTab (self.tabbedReading kanaBuf n) [] =
      (self.tabbed kanaBuf (n + 1)).redraw := by
  unfold midashiTab
  rw [if_pos (show ([] : Str).isEmpty = true from rfl)]
  cases hnext : (self.completionsOf kanaBuf)[n]? with
  -- At the end of the list there is no preview, and the reading stays.
  | none =>
      have hcompletion : (self.tabbed kanaBuf n).completion = none := by simp [tabbed, hnext]
      have hafter : (self.completionsOf kanaBuf)[n + 1]? = none := by
        rw [List.getElem?_eq_none_iff] at hnext ⊢
        omega
      rw [hcompletion]
      simp [tabbed, hnext, hafter, tabbedReading_stays hnext]
  | some preview =>
      have hcompletion : (self.tabbed kanaBuf n).completion =
          some { cyclePrefix := kanaBuf, nextIndex := n + 1, preview := preview } := by
        simp [tabbed, hnext]
      have hfind : (self.tabbed kanaBuf n).findCompletion kanaBuf (n + 1) =
          self.findCompletion kanaBuf (n + 1) := rfl
      rw [hcompletion]
      dsimp only
      rw [hfind, findCompletion_eq, Option.map_map]
      simp only [tabbed, tabbedReading_succ hnext, hkana]
      rfl

/-- Every state of the cycle satisfies the invariant: nothing is pending in it. -/
theorem tabbed_wf (hself : self.Wf) (hkana : self.kanaState = []) (n : Nat) :
    (self.tabbed kanaBuf n).Wf := ⟨hself.frames, hkana⟩

section Press
variable [EucJp] {event : KeyEvent}
  {press : SkkEngine δ → KeyEvent → Partial (SkkEngine δ × List EngineAction)}

omit [EucJp] in
/-- A registration does not take Tab in a reading. -/
theorem registrationKey_tab {romanBuf : Str} (hphase : self.phase = .midashi kanaBuf romanBuf)
    (htab : event.key = .tab) : self.registrationKey event = none := by
  have hflush : flushText self.phase = some kanaBuf := by
    rw [hphase]
    rfl
  exact registrationKey_of_flushText hflush (by simp [isCtrlG, htab]) (by simp [htab])

/-- Tab gets through in the whole cycle: neither the reading nor the completion decides who
takes the key. -/
theorem Takes.tabbed (htakes : self.Takes event press) (htab : event.key = .tab) (n : Nat) :
    (self.tabbed kanaBuf n).Takes event press := by
  cases htakes with
  | handler => exact .handler
  | key hcooks hreaches =>
      refine .key hcooks ?_
      rw [reachesHandler, registrationKey_tab rfl htab]
      exact (Bool.and_eq_true_iff.mp hreaches).2

/-- One press, through the handler or through `process_key`. Both end with the same state, since
a redraw is all that the registration and the status add. -/
theorem press_tabbed (htakes : self.Takes event press) (htab : event.key = .tab) (hself : self.Wf)
    (hkana : self.kanaState = []) (n : Nat) :
    ∃ actions, press (self.tabbed kanaBuf n) event =
      .ok (self.tabbed kanaBuf (n + 1), actions) := by
  have hwf : (self.tabbed kanaBuf (n + 1)).Wf := tabbed_wf hself hkana (n + 1)
  obtain ⟨preedit, hbuild, -, haction⟩ := preeditAction_eq hwf
  have hredraw : (self.tabbed kanaBuf (n + 1)).redraw =
      .ok (self.tabbed kanaBuf (n + 1), [.updatePreedit preedit]) := by
    rw [redraw, haction]
    rfl
  have hdispatch : (self.tabbed kanaBuf n).dispatch event =
      .ok (self.tabbed kanaBuf (n + 1), [.updatePreedit preedit]) := by
    rw [← hredraw, ← midashiTab_tabbed hkana n]
    show (self.tabbed kanaBuf n).handleMidashi redispatchFuel event
      (self.tabbedReading kanaBuf n) [] = _
    rw [redispatchFuel, handleMidashi]
    simp [htab]
  have hr : Redrawn (self.tabbed kanaBuf (n + 1), [.updatePreedit preedit]) :=
    ⟨hwf, [], preedit, rfl, .inl rfl, hbuild⟩
  obtain ⟨status, -, hpress⟩ := (htakes.tabbed htab n).press_eq hdispatch hr
  exact ⟨_, hpress⟩

/-- The same key pressed a number of times. -/
def pressMany (press : SkkEngine δ → KeyEvent → Partial (SkkEngine δ × List EngineAction))
    (event : KeyEvent) : Nat → SkkEngine δ → Partial (SkkEngine δ)
  | 0, self => .ok self
  | n + 1, self => do
      let mid ← pressMany press event n self
      let r ← press mid event
      .ok r.1

/-- Any number of presses, each advancing the cycle by one from where the last one left it. -/
theorem pressMany_tabbed (htakes : self.Takes event press) (htab : event.key = .tab)
    (hself : self.Wf) (hkana : self.kanaState = []) (n : Nat) :
    pressMany press event n (self.tabbed kanaBuf 0) = .ok (self.tabbed kanaBuf n) := by
  -- The induction is on the number of presses.
  induction n with
  | zero => rfl
  | succ n ih =>
      have hstep : ∃ actions, press (self.tabbed kanaBuf n) event =
          .ok (self.tabbed kanaBuf (n + 1), actions) := press_tabbed htakes htab hself hkana n
      obtain ⟨actions, hpress⟩ := hstep
      rw [pressMany, ih, ok_bind, hpress, ok_bind]

/-- From the state `update_completion` leaves, `n` presses of Tab go to completion `n`, or to
the last one when there are fewer, and a preview is shown while one is left. Nothing else of
the engine changes. -/
theorem tab_cycles (hself : self.Wf) (hphase : self.phase = .midashi kanaBuf [])
    (hne : kanaBuf ≠ []) (htab : event.key = .tab) (htakes : self.Takes event press) (n : Nat) :
    ∃ self', pressMany press event (n + 1) (self.updateCompletion kanaBuf) = .ok self' ∧
      self'.phase = .midashi (if self.completionsOf kanaBuf = [] then kanaBuf else
        ((self.completionsOf kanaBuf)[min (n + 1)
          (self.completionsOf kanaBuf).length - 1]?).getD []) [] ∧
      (self'.completion.isSome ↔ n + 1 < (self.completionsOf kanaBuf).length) ∧
      self' = { self with phase := self'.phase, completion := self'.completion } := by
  have hkana : self.kanaState = [] := hself.phase_eq hphase
  refine ⟨self.tabbed kanaBuf (n + 1), ?_, ?_, ?_, rfl⟩
  · rw [updateCompletion_tabbed hphase hne]
    exact pressMany_tabbed htakes htab hself hkana (n + 1)
  · show SkkPhase.midashi (self.tabbedReading kanaBuf (n + 1)) [] = _
    rw [tabbedReading]
    by_cases hnil : self.completionsOf kanaBuf = []
    · rw [if_pos hnil, hnil]
      rfl
    · -- The number of presses is cut at the length of the list, which is positive.
      have hpos := List.length_pos_iff.mpr hnil
      have hlt : min (n + 1) (self.completionsOf kanaBuf).length - 1
          < (self.completionsOf kanaBuf).length := by omega
      rw [if_neg hnil, List.getElem?_eq_getElem hlt]
      rfl
  · show (((self.completionsOf kanaBuf)[n + 1]?).map _).isSome ↔ _
    simp

end Press

/-- A user dictionary with two completions of `あ`. -/
def tabDict : UserDict :=
  ((UserDict.empty.learn ⟨['あ', 'い'], none, [.new ['x']]⟩).1.learn
    ⟨['あ', 'あ'], none, [.new ['y']]⟩).1

/-- The second press reaches the last completion, and the third stays there. The reading `あ` has
two completions in the dictionary. -/
theorem tab_cycles_twice :
    letI := EucJp.empty
    ∃ (history : History UserDict) (self : SkkEngine UserDict),
      Session (fresh vowelTable {} true .hiragana [tabDict]) history self ∧
      self.completionsOf ['あ'] = [['あ', 'あ'], ['あ', 'い']] ∧
      ∀ n ∈ [1, 2], ∃ self', pressMany processKey (.press .tab {}) (n + 1)
          (self.updateCompletion ['あ']) = .ok self' ∧
        self'.phase = .midashi ['あ', 'い'] [] ∧ self'.completion = none := by
  let _ := EucJp.empty
  have hrecord := exists_session (fresh vowelTable {} true .hiragana [tabDict])
    [.press (.char 'A') {}] (fun _ (self : SkkEngine UserDict) =>
      self.phase = .midashi ['あ'] [] ∧ self.completionsOf ['あ'] = [['あ', 'あ'], ['あ', 'い']] ∧
      self.cooks (.press .tab {}) ∧ self.reachesHandler (.press .tab {}))
    (by decide +kernel)
  obtain ⟨history, self, hrun, -, hphase, hwords, hcooks, hreaches⟩ := hrecord
  refine ⟨history, self, hrun, hwords, fun n hn => ?_⟩
  obtain ⟨self', hpressed, hreading, hpreview, -⟩ := tab_cycles (Session.wf (fresh_wf ..) hrun)
    hphase (by simp) rfl (.key hcooks hreaches) n
  have hlast : min (n + 1) 2 - 1 = 1 ∧ ¬ n + 1 < 2 := by
    simp only [List.mem_cons, List.not_mem_nil, or_false] at hn
    omega
  rw [hwords] at hreading hpreview
  rw [if_neg (by simp), show [['あ', 'あ'], ['あ', 'い']].length = 2 from rfl, hlast.1] at hreading
  refine ⟨self', hpressed, hreading, ?_⟩
  rw [← Option.not_isSome_iff_eq_none, hpreview]
  exact hlast.2

end SkkEngine

end Y2Skk
