import Y2Skk.Proofs.NoPanic

/-!
# `Y2Skk.Proofs.Display`: the displayed preedit follows the engine state

What the application shows is the last preedit action it received. Over a run in which raw
mode is never entered this is the preedit of the engine state, unless a Ctrl key drops
pending romaji: `handleKana` then clears the romaji and returns `Passthrough` alone.

## The proof

One key either draws, and then its last preedit action shows the new state, or it draws
nothing, and then the state it leaves is the one that is on display already. Both are
fields of the contract of the phase handlers (`Post.shows` and `Post.silent`), which
`Cooked` carries through a key press; the second has the one exception above, which
`losesRomaji` describes by the state and the key.

Raw mode is excluded because it freezes the preedit on purpose; what is on display after
raw mode is the subject of `Proofs.RawMode`.
-/

set_option autoImplicit false

namespace Y2Skk

open Outcome Utf8 Transition

/-- The preedit text on display after `actions`: that of the last `UpdatePreedit`, or
nothing when a `ClearPreedit` came later or neither was sent. -/
def shownPreedit (actions : List EngineAction) : Str :=
  match lastPreedit actions with
  | some a => a.shownText
  | none => []

/-- More actions change what is shown when there is a preedit among them, and then only the last
of these counts. Otherwise the application keeps what it showed. -/
theorem shownPreedit_append (xs ys : List EngineAction) : shownPreedit (xs ++ ys) =
    match lastPreedit ys with
    | some a => a.shownText
    | none => shownPreedit xs := by
  rw [shownPreedit, lastPreedit_append]
  cases lastPreedit ys with
  | some a => rfl
  | none => rfl

namespace SkkEngine

variable {δ : Type} [DictionaryProvider δ]

/-- A press of a raw-mode toggle key enters raw mode. -/
def entersRaw (self : SkkEngine δ) (event : KeyEvent) : Bool :=
  event.isPress && !self.rawMode && self.isRawToggle event

/-- A Ctrl key other than C-j and C-q, with a printable character and no toggle key, is
pressed outside a registration while a kana mode has pending romaji. -/
def losesRomaji (self : SkkEngine δ) (event : KeyEvent) : Bool :=
  event.isPress && self.dropsSilently event

/-- One key keeps the display right. A preedit among its actions is the one the engine draws;
without one, the drawing of the engine has not changed, since the key drops no romaji. -/
theorem displays_step [EucJp] {self self' : SkkEngine δ} {event : KeyEvent}
    {actions before : List EngineAction} (hself : self.Wf) (hraw : self.rawMode = false)
    (henters : self.entersRaw event = false) (hloses : self.losesRomaji event = false)
    (hbefore : self.Displays (shownPreedit before)) (hstep : Step self event self' actions) :
    self'.rawMode = false ∧ self'.Displays (shownPreedit (before ++ actions)) := by
  obtain ⟨r, status, hkey, hstatus, heq⟩ := (processKey_runs hself event).of_ok hstep
  obtain ⟨rfl, rfl⟩ := Prod.mk.inj heq
  rw [shownPreedit_append, hstatus.lastPreedit_append]
  cases hkey with
  | ignored _ => exact ⟨hraw, hbefore⟩
  | enterRaw hpress _ htoggle =>
      rw [entersRaw, hpress, hraw, htoggle] at henters
      cases henters
  | leaveRaw h _ _ => rw [hraw] at h; cases h
  | cooked hpress _ _ hcooked =>
      refine ⟨hcooked.config.rawMode.trans hraw, ?_⟩
      cases hlast : lastPreedit r.2 with
      | some a => exact hcooked.shows a hlast
      | none =>
          -- No preedit action was sent: the preedit is the same, or the key dropped romaji.
          rcases hcooked.silent hlast with hsame | ⟨hdrops, -⟩
          · rw [hsame]
            exact hbefore
          · rw [losesRomaji, hpress, hdrops] at hloses
            cases hloses

/-- Nothing is shown by a fresh engine: it starts in a plain phase with nothing pending, whose
preedit is empty. -/
theorem displays_fresh (kanaTable : KanaTable) (keybindings : SkkKeybindings)
    (lispDirectives : Bool) (initialPhase : SkkPhase) (providers : List δ) :
    (fresh kanaTable keybindings lispDirectives initialPhase providers).rawMode = false ∧
      (fresh kanaTable keybindings lispDirectives initialPhase providers).Displays [] := by
  obtain ⟨dict, phase, hinitial, heq⟩ :=
    fresh_eq kanaTable keybindings lispDirectives initialPhase providers
  rw [heq]
  exact ⟨rfl, _, buildPreedit_text_of_isPlain (isPlain_of_isInitial hinitial) rfl rfl, rfl⟩

/-- Over every run of a fresh engine in which raw mode is never entered and no Ctrl key drops
pending romaji, the preedit on display is that of the state reached. Both conditions are on the
keys of the run and the states they are typed in. -/
theorem displays_of_session [EucJp] {kanaTable : KanaTable} {keybindings : SkkKeybindings}
    {lispDirectives : Bool} {initialPhase : SkkPhase} {providers : List δ} {history : History δ}
    {self : SkkEngine δ}
    (hrun : Session (fresh kanaTable keybindings lispDirectives initialPhase providers)
      history self)
    (hraw : ∀ v ∈ history, v.pre.entersRaw v.input = false)
    (hkeys : ∀ v ∈ history, v.pre.losesRomaji v.input = false) :
    self.Displays (shownPreedit (outputs history)) := by
  have hfresh := displays_fresh kanaTable keybindings lispDirectives initialPhase providers
  have hwf := fresh_wf kanaTable keybindings lispDirectives initialPhase providers
  -- The invariant carries raw mode along, since leaving it would draw another preedit.
  have hshown : self.rawMode = false ∧ self.Displays (shownPreedit (outputs history)) := by
    refine hrun.history
      (fun history self => self.rawMode = false ∧ self.Displays (shownPreedit (outputs history)))
      (fun self event => self.entersRaw event = false ∧ self.losesRomaji event = false)
      hfresh ?_ fun v hv => ⟨hraw v hv, hkeys v hv⟩
    intro history s event s' actions hleading hs hok hstep
    rw [outputs_snoc]
    exact displays_step (Session.wf hwf hleading) hs.1 hok.1 hok.2 hs.2 hstep
  exact hshown.2

/-! ### The Ctrl key that drops romaji -/

/-- A kana table whose only rule makes `k` wait for a vowel. -/
def pendingTable : KanaTable := ⟨[⟨[], .char 'k', ['k'], []⟩], [], []⟩

/-- After `k` and Ctrl+c the application still shows `k`, which the engine has dropped: the key
is passed on, and no preedit is sent with it. The run shows that the condition on romaji is
needed. -/
theorem ghost_after_ctrl :
    letI := EucJp.empty
    ∃ (history : History Empty) (self : SkkEngine Empty),
      Session (fresh pendingTable {} true .hiragana []) history self ∧
      history.map Visit.input = [.press (.char 'k') {}, .press (.char 'c') { ctrl := true }] ∧
      (∀ v ∈ history, v.pre.entersRaw v.input = false) ∧
      shownPreedit (outputs history) = ['k'] ∧ self.buildPreedit = .ok ⟨[], 0, none⟩ := by
  let _ := EucJp.empty
  exact exists_session _ _
    (fun history self => (∀ v ∈ history, v.pre.entersRaw v.input = false) ∧
      shownPreedit (outputs history) = ['k'] ∧ self.buildPreedit = .ok ⟨[], 0, none⟩)
    (by decide +kernel)

/-- A run that meets the condition: the pending romaji is on display, as the last preedit sent
and as the engine draws it. -/
theorem displays_of_session_pending :
    letI := EucJp.empty
    ∃ (history : History Empty) (self : SkkEngine Empty),
      Session (fresh pendingTable {} true .hiragana []) history self ∧
      shownPreedit (outputs history) = ['k'] ∧ self.Displays ['k'] := by
  let _ := EucJp.empty
  have hrecord := exists_session (fresh pendingTable {} true .hiragana []) [.press (.char 'k') {}]
    (fun (history : History Empty) _ => (∀ v ∈ history, v.pre.entersRaw v.input = false) ∧
      (∀ v ∈ history, v.pre.losesRomaji v.input = false) ∧
      shownPreedit (outputs history) = ['k']) (by decide +kernel)
  obtain ⟨history, self, hrun, -, hraw, hkeys, hshown⟩ := hrecord
  exact ⟨history, self, hrun, hshown, hshown ▸ displays_of_session hrun hraw hkeys⟩

end SkkEngine

end Y2Skk
