import Y2Skk.Proofs.NoPanic

/-!
# `Y2Skk.Proofs.Window`: the candidate window follows the phase

The window shows the last `ShowCandidates` unless a `HideCandidates` came later.

## What it should show

`SkkEngine.window` is the window of a state: the page of the selection when raw mode is
off, and none in raw mode or outside a listing. `window_eq_some` says the same in the
words of the source.

## Over a run

Two exits from a listing forget to hide it: a toggle key, and C-g in a nested
registration. They are named by `strandsWindow`, as a condition on the state and the key.
`window_step` is one key: if the window was right before, it is right afterwards, whether
the key has sent a window action or none. Over a run without the two exits,
`windowShown_of_session` says that the window is open exactly when raw mode is off and the
selection is in a listing, and that it then shows that page.
-/

set_option autoImplicit false

namespace Y2Skk

open Outcome Utf8 Transition

/-- The `ShowCandidates` that is on display after `actions`. -/
def windowShown (actions : List EngineAction) : Option EngineAction :=
  match lastWindow actions with
  | some (.showCandidates rows focused keys) => some (.showCandidates rows focused keys)
  | _ => none

/-- The window actions of the second list decide, if it has any. -/
theorem windowShown_append (xs ys : List EngineAction) : windowShown (xs ++ ys) =
    if lastWindow ys = none then windowShown xs else windowShown ys := by
  unfold windowShown
  rw [lastWindow_append]
  cases lastWindow ys with
  | none => rfl
  | some a => rfl

namespace SkkEngine

variable {δ : Type} [DictionaryProvider δ]

/-- The key leaves a listing without hiding the window: a toggle key, or C-g in a
registration inside a registration. -/
def strandsWindow (self : SkkEngine δ) (event : KeyEvent) : Bool :=
  event.isPress && !self.rawMode && !self.isRawToggle event && self.leavesWindow event

/-- What the window should show in a state: the page of the selection, unless raw mode is on. -/
def window (self : SkkEngine δ) : Option EngineAction :=
  if self.rawMode then none else self.page

omit [DictionaryProvider δ] in
/-- `window` in the source's terms: raw mode is off, and `listing_show_action` has a page for
the selection. The action does not fail, since the index is within the candidates. -/
theorem window_eq_some {self : SkkEngine δ} (hself : self.Wf) {a : EngineAction} :
    self.window = some a ↔ self.rawMode = false ∧ ∃ s, self.phase = .selecting s ∧
      self.listingShowAction s.candidates s.index = .ok (some a) := by
  have hpage : self.page = some a ↔ ∃ s, self.phase = .selecting s ∧
      self.listingShowAction s.candidates s.index = .ok (some a) := by
    unfold page
    cases hphase : self.phase with
    | selecting s =>
        have hs := (hself.phase_eq hphase).2
        have hlisting := listingShowAction_eq self (Nat.le_of_lt hs.index_lt)
        constructor
        · exact fun h => ⟨s, rfl, by rw [hlisting, ← h]⟩
        · rintro ⟨_, ⟨⟩, h⟩
          exact Except.ok.inj (hlisting.symm.trans h)
    | _ =>
        constructor
        · exact fun h => by cases h
        · rintro ⟨_, ⟨⟩, _⟩
  unfold window
  cases self.rawMode with
  | true => simp
  | false => simpa using hpage

omit [DictionaryProvider δ] in
/-- An action list that ends on the window of the state shows it: its last window action is the
page, or hides the window when there is no page. -/
theorem windowShown_of_showsPage {self : SkkEngine δ} {actions : List EngineAction}
    {a : EngineAction} (ha : lastWindow actions = some a) (h : self.ShowsPage a) :
    windowShown actions = self.page := by
  unfold windowShown
  rw [ha]
  rcases h with ⟨rfl, hpage⟩ | hpage
  · exact hpage.symm
  · obtain ⟨rows, keys, rfl⟩ := page_isShow hpage
    exact hpage.symm

/-- One key keeps the window right, unless it strands the window. A key without a window action
leaves the page as it is, and raw mode closes the window on entry and sends the page again on
leaving. -/
theorem window_step [EucJp] {self self' : SkkEngine δ} {event : KeyEvent}
    {actions before : List EngineAction} (hself : self.Wf)
    (hkey : self.strandsWindow event = false) (hbefore : windowShown before = self.window)
    (hstep : Step self event self' actions) :
    windowShown (before ++ actions) = self'.window := by
  obtain ⟨r, status, hkeyStep, hstatus, heq⟩ := (processKey_runs hself event).of_ok hstep
  obtain ⟨rfl, rfl⟩ := Prod.mk.inj heq
  have hlastStatus : lastWindow (r.2 ++ status) = lastWindow r.2 := hstatus.lastWindow_append
  rw [windowShown_append, hlastStatus]
  have hshown : windowShown (r.2 ++ status) = windowShown r.2 := by
    unfold windowShown
    rw [hlastStatus]
  rw [hshown]
  cases hkeyStep with
  | ignored _ => exact hbefore
  | enterRaw _ _ _ => rfl
  | leaveRaw hraw hlast _ =>
      -- Raw mode had closed the window, so the page has to be sent again.
      have hclosed : self.window = none := if_pos hraw
      cases hpage : self.page with
      | none =>
          rw [if_pos (hlast.trans hpage), hbefore, hclosed]
          exact hpage.symm
      | some a =>
          rw [if_neg (by rw [hlast, hpage]; simp)]
          exact windowShown_of_showsPage (hlast.trans hpage) (.inr hpage)
  | cooked hpress hraw htoggle hcooked =>
      have hopen : r.1.window = r.1.page := if_neg (by rw [hcooked.config.rawMode, hraw]; simp)
      rw [hopen]
      cases hlast : lastWindow r.2 with
      | none =>
          rw [if_pos rfl, hbefore, window, hraw]
          -- Nothing about the window was sent: the page is the same, or the key strands it.
          rcases hcooked.samePage hlast with hsame | hleaves
          · exact hsame.symm
          · rw [strandsWindow, hpress, hraw, htoggle, hleaves] at hkey
            cases hkey
      | some a =>
          rw [if_neg (by simp)]
          exact windowShown_of_showsPage hlast (hcooked.window a hlast)

/-- Over every run of a fresh engine in which no key strands the window, the window shows
a page exactly when raw mode is off and the phase is `Selecting` in a listing, and then it
shows that page with its selection keys. -/
theorem windowShown_of_session [EucJp] {kanaTable : KanaTable} {keybindings : SkkKeybindings}
    {lispDirectives : Bool} {initialPhase : SkkPhase} {providers : List δ} {history : History δ}
    {self : SkkEngine δ}
    (hrun : Session (fresh kanaTable keybindings lispDirectives initialPhase providers)
      history self)
    (hkeys : ∀ v ∈ history, v.pre.strandsWindow v.input = false) (a : EngineAction) :
    windowShown (outputs history) = some a ↔ self.rawMode = false ∧
      ∃ s, self.phase = .selecting s ∧
        self.listingShowAction s.candidates s.index = .ok (some a) := by
  have hwf := fresh_wf kanaTable keybindings lispDirectives initialPhase providers
  have hfresh : windowShown [] =
      (fresh kanaTable keybindings lispDirectives initialPhase providers).window := by
    obtain ⟨dict, phase, hinitial, heq⟩ :=
      fresh_eq kanaTable keybindings lispDirectives initialPhase providers
    rw [heq]
    exact (page_eq_none (selection?_of_isPlain (isPlain_of_isInitial hinitial))).symm
  -- the invariant of the run; each step is `window_step`
  have hshown : windowShown (outputs history) = self.window := by
    refine hrun.history
      (fun history (self : SkkEngine δ) => windowShown (outputs history) = self.window)
      (fun self event => self.strandsWindow event = false) hfresh ?_ hkeys
    intro history s event s' actions hleading hs hok hstep
    rw [outputs_snoc]
    exact window_step (Session.wf hwf hleading) hok hs hstep
  rw [hshown]
  exact window_eq_some (Session.wf hwf hrun)

/-! ### The toggle key that strands the window -/

/-- The keys that open a listing of the numeric candidates of `1` in abbrev mode. -/
def listingKeys : List KeyEvent :=
  [.press (.char '/') {}, .press (.char '1') {}, .press .space {}]

/-- After the toggle key the window still shows the candidates, in direct input: the key leaves
the selection without hiding it. The run shows that the condition on the keys is needed. -/
theorem window_after_toggle :
    letI := EucJp.empty
    ∃ (history : History Empty) (self : SkkEngine Empty),
      Session (fresh ⟨[], [], []⟩ { inlineCount := 0 } true .hiragana []) history self ∧
      history.map Visit.input = listingKeys ++ [.press .space { shift := true }] ∧
      (windowShown (outputs history)).isSome ∧ self.phase = .ascii := by
  let _ := EucJp.empty
  exact exists_session _ _
    (fun history self => (windowShown (outputs history)).isSome ∧ self.phase = .ascii)
    (by decide +kernel)

/-- A run that meets the condition, with the window open: with no inline candidates the first
page is listed at once. -/
theorem windowShown_of_session_listing :
    letI := EucJp.empty
    ∃ (history : History Empty) (self : SkkEngine Empty) (a : EngineAction),
      Session (fresh ⟨[], [], []⟩ { inlineCount := 0 } true .hiragana []) history self ∧
      windowShown (outputs history) = some a ∧ self.rawMode = false ∧
      ∃ s, self.phase = .selecting s ∧
        self.listingShowAction s.candidates s.index = .ok (some a) := by
  let _ := EucJp.empty
  have hrecord := exists_session
    (fresh ⟨[], [], []⟩ { inlineCount := 0 } true .hiragana []) listingKeys
    (fun (history : History Empty) _ => (∀ v ∈ history, v.pre.strandsWindow v.input = false) ∧
      (windowShown (outputs history)).isSome) (by decide +kernel)
  obtain ⟨history, self, hrun, -, hkeys, hsome⟩ := hrecord
  obtain ⟨a, ha⟩ := Option.isSome_iff_exists.mp hsome
  exact ⟨history, self, a, hrun, ha, (windowShown_of_session hrun hkeys a).mp ha⟩

end SkkEngine

end Y2Skk
