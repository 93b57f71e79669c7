import Y2Skk.Proofs.Containment
import Y2Skk.Proofs.RawMode

/-!
# `Y2Skk.Proofs.Redrawn`: a commit is followed by a redraw

Some adapters hide the preedit when they commit text. So what they show agrees with the
engine only if every commit is followed by an action that draws the preedit anew, or if
there is nothing left to draw. `commit_redrawn` says that one of the two holds of every
key.

## What an adapter shows

`drawn` folds the actions over the preedit on display, for adapters that hide it at a
commit and for those that keep it. The last action that touches the preedit decides:
`drawn_hiding` and `drawn_keeping` say what it leaves.

## The contract

* `EndsDrawn`: the contract of a handler. If the last thing it does to the preedit is a
  commit, the state it returns shows nothing.
* `dispatch_endsDrawn`: every handler satisfies it. Most branches end in a redraw or
  commit nothing; a conversion trigger that is committed behind a candidate is the one
  commit that may come last, and then the engine is in a plain mode with nothing pending.

## Keys

A registration lets no commit through and redraws its prompt, so the contract carries over
to a key. `shown_step`: one key keeps the preedit on display right, through raw mode too,
unless the key drops pending romaji or leaves raw mode over the bare prompt of a
registration.
-/

set_option autoImplicit false

namespace Y2Skk

open Outcome Utf8

namespace EngineAction

/-- The actions after which an adapter may show another preedit: a commit hides it. -/
def touchesPreedit : EngineAction → Bool
  | .commit _ | .updatePreedit _ | .clearPreedit => true
  | _ => false

end EngineAction

/-- The last action that an adapter may change its preedit for. -/
def lastTouch (actions : List EngineAction) : Option EngineAction :=
  (actions.filter EngineAction.touchesPreedit).getLast?

/-- The last touch of two lists is that of the second one, if it has any. -/
theorem lastTouch_append (xs ys : List EngineAction) :
    lastTouch (xs ++ ys) = (lastTouch ys).or (lastTouch xs) := by
  simp [lastTouch, List.getLast?_append]

/-- What an adapter makes of an action for the preedit it shows. Some adapters hide the preedit
when they commit a text. -/
def EngineAction.draws (hides : Bool) (shown : Str) : EngineAction → Str
  | .updatePreedit preedit => preedit.text
  | .clearPreedit => []
  | .commit _ => if hides then [] else shown
  | _ => shown

/-- The preedit text an adapter shows after `actions`. -/
def drawn (hides : Bool) (shown : Str) (actions : List EngineAction) : Str :=
  actions.foldl (EngineAction.draws hides) shown

/-- What is shown after two lists is what the second one makes of what the first one has
left. -/
theorem drawn_append (hides : Bool) (shown : Str) (xs ys : List EngineAction) :
    drawn hides shown (xs ++ ys) = drawn hides (drawn hides shown xs) ys := by
  rw [drawn, List.foldl_append]
  rfl

/-- An adapter that keeps the preedit through a commit shows the last preedit sent, and without
one what it showed before. -/
theorem drawn_keeping (shown : Str) (actions : List EngineAction) :
    drawn false shown actions = match lastPreedit actions with
      | some a => a.shownText
      | none => shown := by
  induction actions using List.reverseRecOn with
  | nil => rfl
  | append_singleton actions a ih =>
      rw [drawn_append, lastPreedit_append, ih]
      cases a <;> rfl

/-- An adapter that hides the preedit at a commit shows what the last touch left: the preedit,
or nothing after a commit. -/
theorem drawn_hiding (shown : Str) (actions : List EngineAction) :
    drawn true shown actions = match lastTouch actions with
      | some a => a.shownText
      | none => shown := by
  induction actions using List.reverseRecOn with
  | nil => rfl
  | append_singleton actions a ih =>
      rw [drawn_append, lastTouch_append, ih]
      cases a <;> rfl

/-- An action that touches the preedit, at the end of a list, is its last touch. -/
theorem lastTouch_concat {a : EngineAction} (ha : a.touchesPreedit) (actions : List EngineAction) :
    lastTouch (actions ++ [a]) = some a := by
  rw [lastTouch_append, lastTouch, List.filter_cons_of_pos ha]
  rfl

/-- Actions that commit nothing end in no commit. -/
theorem lastTouch_ne_commit {actions : List EngineAction}
    (h : ∀ text, EngineAction.commit text ∉ actions) (text : Str) :
    lastTouch actions ≠ some (.commit text) := by
  intro hlast
  exact h text (List.mem_filter.mp (List.mem_of_getLast? hlast)).1

/-- If no commit is the last touch, the last preedit action is, and the two kinds of adapters
show the same. -/
theorem lastTouch_eq_lastPreedit {actions : List EngineAction}
    (h : ∀ text, lastTouch actions ≠ some (.commit text)) :
    lastTouch actions = lastPreedit actions := by
  induction actions using List.reverseRecOn with
  | nil => rfl
  | append_singleton actions a ih =>
      rw [lastTouch_append, lastPreedit_append]
      cases a with
      | commit text =>
          exact (h text (lastTouch_concat (a := .commit text) rfl actions)).elim
      | updatePreedit preedit => rfl
      | clearPreedit => rfl
      | _ =>
          refine ih fun text hlast => h text ?_
          rw [lastTouch_append]
          exact hlast

namespace SkkEngine

variable {δ : Type}

/-- The contract of a handler: if a commit is the last thing it does to the preedit, the state it
returns has none. -/
def EndsDrawn (r : SkkEngine δ × List EngineAction) : Prop :=
  ∀ text, lastTouch r.2 = some (.commit text) → r.1.phase.isPlain ∧ r.1.kanaState = []

/-! ### Families of branches -/

/-- The last touch draws or clears the preedit. -/
theorem EndsDrawn.of_preedit {r : SkkEngine δ × List EngineAction} {a : EngineAction}
    (hlast : lastTouch r.2 = some a) (ha : a.isPreedit) : EndsDrawn r := by
  intro text hcommit
  rw [hlast] at hcommit
  cases hcommit
  cases ha

/-- A handler that commits nothing meets the contract. -/
theorem EndsDrawn.of_quiet {r : SkkEngine δ × List EngineAction}
    (h : ∀ text, EngineAction.commit text ∉ r.2) : EndsDrawn r :=
  fun text hlast => (lastTouch_ne_commit h text hlast).elim

/-- The state shows nothing anyway. -/
theorem EndsDrawn.of_plain {self : SkkEngine δ} (actions : List EngineAction)
    (hphase : self.phase.isPlain) (hkana : self.kanaState = []) : EndsDrawn (self, actions) :=
  fun _ _ => ⟨hphase, hkana⟩

/-- What is done first is redrawn by what follows, as long as that touches the preedit at
all. -/
theorem EndsDrawn.prepend {r : SkkEngine δ × List EngineAction} (h : EndsDrawn r)
    (htouch : lastTouch r.2 ≠ none) (before : List EngineAction) :
    EndsDrawn (r.1, before ++ r.2) := by
  intro text hlast
  obtain ⟨a, ha⟩ := Option.ne_none_iff_exists'.mp htouch
  refine h text ?_
  rw [show (r.1, before ++ r.2).2 = before ++ r.2 from rfl, lastTouch_append, ha] at hlast
  rw [ha]
  exact hlast

/-- A redraw meets the contract, and touches the preedit. -/
theorem redraw_endsDrawn (self : SkkEngine δ) :
    Yields self.redraw fun r => EndsDrawn r ∧ lastTouch r.2 ≠ none := by
  refine (redraw_yields self).mono ?_
  rintro _ ⟨preedit, rfl⟩
  exact ⟨.of_preedit rfl rfl, by simp [lastTouch, EngineAction.touchesPreedit]⟩

/-- A redraw with `before` sent ahead of it. -/
theorem redrawAfter_endsDrawn {self mid : SkkEngine δ} (before : List EngineAction) :
    Yields (do return (mid, before ++ [← self.preeditAction])) EndsDrawn := by
  refine (preeditAction_yields self).bind ?_
  rintro _ ⟨preedit, rfl⟩
  exact yields_pure.mpr (.of_preedit (lastTouch_concat rfl before) rfl)

/-- What a selection shows ends in its preedit. -/
theorem IsShown.lastTouch {actions : List EngineAction} (h : IsShown actions) :
    ∃ preedit, lastTouch actions = some (.updatePreedit preedit) := by
  obtain ⟨preedit, rfl | ⟨rows, keys, rfl⟩⟩ := h
  · exact ⟨preedit, rfl⟩
  · exact ⟨preedit, rfl⟩

section Handlers
variable [DictionaryProvider δ]

/-- A conversion commits nothing: it draws a selection or a prompt. -/
theorem startConversion_endsDrawn (self : SkkEngine δ) (midashi : Str)
    (okuri : Option (Str × Str)) : Yields (self.startConversion midashi okuri) EndsDrawn := by
  refine (startConversion_yields self midashi okuri).mono ?_
  rintro _ (⟨preedit, rfl⟩ | ⟨s, actions, -, -, -, hshown, rfl⟩)
  · exact .of_preedit rfl rfl
  · obtain ⟨preedit, hlast⟩ := hshown.lastTouch
    exact .of_preedit hlast rfl

/-! ### Readings -/

/-- So does one that a trigger starts. -/
theorem convertOnTrigger_endsDrawn (self : SkkEngine δ) (kanaBuf trigger : Str) :
    Yields (self.convertOnTrigger kanaBuf trigger) EndsDrawn := by
  unfold convertOnTrigger
  refine Yields.ite (fun _ => ?_) fun _ => startConversion_endsDrawn _ _ _
  exact yields_ok.mpr (.of_preedit rfl rfl)

omit [DictionaryProvider δ] in
/-- The commit of a reading, if there is one, comes before the preedit is cleared. -/
theorem endsDrawn_leave {self : SkkEngine δ} {before : Bool} {actions : List EngineAction}
    (text : Str) (hactions : actions = [] ∨ actions = [.passthrough]) :
    EndsDrawn (self, if before then .clearPreedit :: actions
      else .commit text :: .clearPreedit :: actions) := by
  rcases hactions with rfl | rfl
  · cases before <;> exact .of_preedit rfl rfl
  · cases before <;> exact .of_preedit rfl rfl

/-- The okurigana is redrawn, looked up, or left without a commit. A lookup draws its outcome,
so no branch ends in a commit. -/
theorem handleOkuri_endsDrawn (self : SkkEngine δ) (event : KeyEvent) (midashi : Str)
    (okuriPrefix : Char) (kanaBuf : Str) :
    Yields (self.handleOkuri event midashi okuriPrefix kanaBuf) EndsDrawn := by
  have hredraw : ∀ mid : SkkEngine δ, Yields mid.redraw EndsDrawn := fun mid =>
    (redraw_endsDrawn mid).mono fun _ h => h.1
  have hconvert : ∀ (mid : SkkEngine δ) (lower : Char) (kana : Str),
      Yields (mid.convertOkuri midashi self.kanaState lower kana) EndsDrawn := fun _ _ _ =>
    startConversion_endsDrawn _ _ _
  unfold handleOkuri
  refine Yields.ite (fun _ => yields_ok.mpr (.of_quiet (by simp))) fun _ => ?_
  refine Yields.ite (fun _ => ?_) fun _ => ?_
  · unfold okuriBackSpace
    exact Yields.ite (fun _ => hredraw _) fun _ => hredraw _
  cases event.printableChar with
  | none => exact yields_ok.mpr (.of_quiet (by simp))
  | some ch =>
      dsimp only
      split
      · exact Yields.ite (fun _ => hconvert _ _ _) fun _ => hredraw _
      · exact Yields.ite (fun _ => hconvert _ _ _) fun _ => hredraw _
      · exact hredraw _

/-- A reading is redrawn or looked up, or committed before the preedit is cleared. A commit is
so never the last touch. -/
theorem handleMidashi_endsDrawn (fuel : Nat) : ∀ (self : SkkEngine δ) (event : KeyEvent)
    (kanaBuf romanBuf : Str),
    Yields (self.handleMidashi fuel event kanaBuf romanBuf) EndsDrawn := by
  have hredraw : ∀ mid : SkkEngine δ, Yields mid.redraw EndsDrawn := fun mid =>
    (redraw_endsDrawn mid).mono fun _ h => h.1
  -- The induction is on the fuel: a character that is handed back is read again.
  induction fuel with
  | zero => exact fun _ _ _ _ => yields_error
  | succ fuel ih =>
      intro self event kanaBuf romanBuf
      unfold handleMidashi
      refine Yields.ite (fun _ => yields_ok.mpr (.of_quiet (by simp))) fun _ => ?_
      refine Yields.ite (fun _ => ?_) fun _ => Yields.ite (fun _ => ?_) fun _ => ?_
      · unfold midashiBackSpace
        refine Yields.ite (fun _ => hredraw _) fun _ => Yields.ite (fun _ => hredraw _) fun _ => ?_
        exact yields_ok.mpr (.of_quiet (by simp))
      · exact yields_ok.mpr (endsDrawn_leave _ (.inr rfl))
      refine Yields.ite (fun _ => ?_) fun _ => Yields.ite (fun _ => ?_) fun _ => ?_
      · unfold midashiSpace
        refine Yields.ite (fun _ => ?_) fun _ => startConversion_endsDrawn _ _ _
        exact yields_ok.mpr (.of_quiet (by simp))
      · unfold midashiTab
        refine Yields.ite (fun _ => ?_) fun _ => hredraw _
        split
        · exact hredraw _
        · exact hredraw _
      refine Yields.ite (fun _ => yields_ok.mpr (endsDrawn_leave _ (.inl rfl))) fun _ => ?_
      cases event.printableChar with
      | none => exact yields_ok.mpr (.of_quiet (by simp))
      | some ch =>
          refine Yields.ite (fun _ => convertOnTrigger_endsDrawn _ _ _) fun _ => ?_
          refine Yields.ite (fun _ => ?_) fun _ => Yields.ite (fun _ => hredraw _) fun _ => ?_
          · unfold midashiAffix
            exact Yields.ite (fun _ => hredraw _) fun _ => startConversion_endsDrawn _ _ _
          refine Yields.ite (fun _ => ?_) fun _ => ?_
          · unfold midashiOkuri
            dsimp only
            split
            · exact hredraw _
            · exact handleOkuri_endsDrawn _ _ _ _ _
          split
          · rename_i output nextState _
            rcases self.midashiFeed_cases kanaBuf output nextState with
              ⟨last, -, -, -, hfed⟩ | ⟨-, completion, hfed⟩
            · rw [hfed]
              exact convertOnTrigger_endsDrawn _ _ _
            · rw [hfed]
              exact hredraw _
          · exact ih _ _ _ _
          · split
            · exact ih _ _ _ _
            · refine Yields.ite (fun _ => ?_) fun _ => hredraw _
              exact yields_ok.mpr (.of_preedit rfl rfl)

/-! ### The other phases -/

omit [DictionaryProvider δ] in
/-- A character fed to the table is redrawn, whatever it commits. The induction is on the fuel,
for the character that is handed back. -/
theorem feedKana_endsDrawn (fuel : Nat) : ∀ (self : SkkEngine δ) (ch : Char) (mode : KanaMode),
    Yields (self.feedKana fuel ch mode) fun r => EndsDrawn r ∧ lastTouch r.2 ≠ none := by
  induction fuel with
  | zero => exact fun _ _ _ => yields_error
  | succ fuel ih =>
      intro self ch mode
      unfold feedKana
      split
      · refine Yields.ite (fun _ => redraw_endsDrawn _) fun _ => ?_
        refine Yields.ite (fun _ => ?_) fun _ => ?_
        · exact yields_ok.mpr ⟨.of_preedit rfl rfl, by simp [lastTouch,
            EngineAction.touchesPreedit]⟩
        · refine (preeditAction_yields _).bind ?_
          rintro _ ⟨preedit, rfl⟩
          exact yields_pure.mpr ⟨.of_preedit rfl rfl, by simp [lastTouch,
            EngineAction.touchesPreedit]⟩
      · refine (ih _ _ _).bind fun r hr => yields_ok.mpr ⟨hr.1.prepend hr.2 _, ?_⟩
        -- What the retry draws comes after the output of the pending romaji.
        obtain ⟨a, ha⟩ := Option.ne_none_iff_exists'.mp hr.2
        rw [lastTouch_append, ha]
        simp
      · dsimp only
        split
        · exact ih _ _ _
        · exact yields_ok.mpr ⟨.of_preedit rfl rfl, by simp [lastTouch,
            EngineAction.touchesPreedit]⟩

/-- The kana modes redraw what is pending after each commit. When nothing is pending the commit
comes last, and then the preedit of the state is empty, as the contract asks. -/
theorem handleKana_endsDrawn (self : SkkEngine δ) (event : KeyEvent) :
    Yields (self.handleKana event) EndsDrawn := by
  have hredraw : ∀ mid : SkkEngine δ, Yields mid.redraw EndsDrawn := fun mid =>
    (redraw_endsDrawn mid).mono fun _ h => h.1
  have hquiet : ∀ (mid : SkkEngine δ) (actions : List EngineAction),
      (∀ text, EngineAction.commit text ∉ actions) →
      Yields (.ok (mid, actions) : Partial (SkkEngine δ × List EngineAction)) EndsDrawn :=
    fun mid actions h => yields_ok.mpr (.of_quiet h)
  unfold handleKana
  refine Yields.ite (fun _ => hquiet _ _ (by simp)) fun _ => ?_
  refine Yields.ite (fun _ => hquiet _ _ (by simp)) fun _ => ?_
  refine Yields.ite (fun _ => hquiet _ _ (by simp)) fun _ => Yields.ite (fun _ => ?_) fun _ => ?_
  · exact Yields.ite (fun _ => hredraw _) fun _ => hquiet _ _ (by simp)
  cases event.printableChar with
  | none => exact hquiet _ _ (by simp)
  | some ch =>
      refine Yields.ite (fun _ => hquiet _ _ (by simp)) fun _ => ?_
      refine Yields.ite (fun _ => ?_) fun _ => ?_
      · unfold kanaStart
        refine Yields.ite (fun _ => hquiet _ _ (by simp)) fun _ => ?_
        refine Yields.ite (fun _ => hquiet _ _ (by simp)) fun _ => ?_
        refine Yields.ite (fun _ => hredraw _) fun _ => ?_
        refine Yields.ite (fun _ => hquiet _ _ (by simp)) fun _ => ?_
        refine Yields.ite (fun _ => handleMidashi_endsDrawn _ _ _ _ _) fun _ => ?_
        refine Yields.ite (fun _ => hredraw _) fun _ => ?_
        exact (feedKana_endsDrawn _ _ _ _).mono fun _ h => h.1
      · exact (feedKana_endsDrawn _ _ _ _).mono fun _ h => h.1

omit [DictionaryProvider δ] in
/-- A code is redrawn, or its character is committed before the preedit is cleared. No branch of
the handler ends with a commit. -/
theorem handleCodeInput_endsDrawn [EucJp] (self : SkkEngine δ) (event : KeyEvent)
    (codePrefix : CodeInputPrefix) (buf : Str) :
    Yields (self.handleCodeInput event codePrefix buf) EndsDrawn := by
  have hredraw : ∀ mid : SkkEngine δ, Yields mid.redraw EndsDrawn := fun mid =>
    (redraw_endsDrawn mid).mono fun _ h => h.1
  unfold handleCodeInput
  refine Yields.ite (fun _ => yields_ok.mpr (.of_quiet (by simp))) fun _ => ?_
  refine Yields.ite (fun _ => ?_) fun _ => Yields.ite (fun _ => hredraw _) fun _ => ?_
  · unfold codeInputBackSpace
    refine Yields.ite (fun _ => hredraw _) fun _ => Yields.ite (fun _ => hredraw _) fun _ => ?_
    exact yields_ok.mpr (.of_quiet (by simp))
  refine Yields.ite (fun _ => ?_) fun _ => ?_
  · exact yields_ok.mpr (.of_preedit (lastTouch_concat (a := .clearPreedit) rfl _) rfl)
  · split
    · exact Yields.ite (fun _ => hredraw _) fun _ => hredraw _
    · exact hredraw _

/-- An abbreviation is redrawn or looked up, or committed before the preedit is cleared. -/
theorem handleAbbrev_endsDrawn (self : SkkEngine δ) (event : KeyEvent) (buf : Str) :
    Yields (self.handleAbbrev event buf) EndsDrawn := by
  have hredraw : ∀ mid : SkkEngine δ, Yields mid.redraw EndsDrawn := fun mid =>
    (redraw_endsDrawn mid).mono fun _ h => h.1
  unfold handleAbbrev
  refine Yields.ite (fun _ => yields_ok.mpr (.of_quiet (by simp))) fun _ => ?_
  refine Yields.ite (fun _ => ?_) fun _ => Yields.ite (fun _ => ?_) fun _ => ?_
  · refine Yields.ite (fun _ => yields_ok.mpr (.of_quiet (by simp))) fun _ => hredraw _
  · exact Yields.ite (fun _ => hredraw _) fun _ => startConversion_endsDrawn _ _ _
  refine Yields.ite (fun _ => yields_ok.mpr (endsDrawn_leave _ (.inl rfl))) fun _ => ?_
  refine Yields.ite (fun _ => yields_ok.mpr (endsDrawn_leave _ (.inr rfl))) fun _ => ?_
  split
  · exact hredraw _
  · exact Yields.ite (fun _ => hredraw _) fun _ => hredraw _

/-! ### Selections -/

/-- After a candidate was committed, a kana mode is left with nothing pending. -/
theorem Committed.plain {self : SkkEngine δ} {r : SkkEngine δ × List EngineAction}
    (h : Committed self r) : r.1.phase.isPlain ∧ r.1.kanaState = [] := by
  obtain ⟨dict, -, hstate⟩ := h.state
  rw [hstate]
  exact ⟨KanaMode.isPlain_toPhase _, rfl⟩

/-- Only a trigger can be committed after the preedit is cleared, and then nothing is left to
draw but what the key starts next. -/
theorem redispatch_endsDrawn {self : SkkEngine δ} {s : Selection} (hself : self.Wf)
    (hphase : self.phase = .selecting s) (event : KeyEvent) :
    Yields (do
      let (self, actions) ← self.commitCandidate s s.index
      let (self, more) ← self.handleKana event
      .ok (self, actions ++ more)) EndsDrawn := by
  have hs := (hself.phase_eq hphase).2
  refine (commitCandidate_runs hs hs.index_lt).yields.bind ?_
  rintro ⟨mid, actions⟩ hmid
  obtain ⟨dict, -, hstate⟩ := hmid.state
  have hkana : mid.phase.isKana := by
    rw [show mid = _ from hstate]
    exact isKana_toPhase _
  have hwf : mid.Wf := by
    rw [show mid = _ from hstate]
    exact ⟨hself.frames, phaseWf_of_isKana (isKana_toPhase _) _⟩
  dsimp only
  intro r' hr'
  cases hmore : mid.handleKana event with
  | error e =>
      rw [hmore] at hr'
      cases hr'
  | ok more =>
      rw [hmore] at hr'
      cases hr'
      have hdrawn : EndsDrawn more := handleKana_endsDrawn mid event more hmore
      by_cases htouch : lastTouch more.2 = none
      · -- The key has not touched the preedit, so the engine is as the commit has left it.
        have hnone : lastPreedit more.2 = none := by
          rw [← lastTouch_eq_lastPreedit (by simp [htouch]), htouch]
        have hsilent := ((handleKana_post hwf hkana event).of_ok hmore).silent hnone
        have hsame : more.1.phase = mid.phase ∧ more.1.kanaState = [] := by
          rcases hsilent with hsame | ⟨-, hsame⟩
          · rw [hsame]
            exact ⟨rfl, hmid.plain.2⟩
          · rw [hsame]
            exact ⟨rfl, rfl⟩
        exact .of_plain _ (hsame.1 ▸ hmid.plain.1) hsame.2
      · exact hdrawn.prepend htouch actions

/-- The handler of the selection meets the contract: most of its branches end in a preedit, and
a committed candidate leaves a kana mode with nothing to draw. -/
theorem handleSelecting_endsDrawn {self : SkkEngine δ} {s : Selection} (hself : self.Wf)
    (hphase : self.phase = .selecting s) (event : KeyEvent) :
    Yields (self.handleSelecting event s) EndsDrawn := by
  have hs := (hself.phase_eq hphase).2
  have hhide : ∀ mid : SkkEngine δ,
      Yields (do return (mid, [.hideCandidates, ← mid.preeditAction])) EndsDrawn := fun mid =>
    redrawAfter_endsDrawn [.hideCandidates]
  have hcommit : ∀ {index : Nat}, index < s.candidates.length → ∀ more : List EngineAction,
      Yields (self.commitCandidate s index >>= fun r => .ok (r.1, r.2 ++ more)) EndsDrawn := by
    intro index hindex more
    refine (commitCandidate_runs hs hindex).yields.bind fun r hr => yields_ok.mpr ?_
    exact .of_plain _ hr.plain.1 hr.plain.2
  have hcommitted : ∀ {index : Nat}, index < s.candidates.length →
      Yields (self.commitCandidate s index) EndsDrawn := fun hindex =>
    (commitCandidate_runs hs hindex).yields.mono fun r hr => .of_plain _ hr.plain.1 hr.plain.2
  -- A page that is shown, or hidden, comes before the preedit.
  have hreselect : ∀ (mid : SkkEngine δ) (index : Nat) (leaving : Bool)
      {k : EngineAction → Option EngineAction → Partial (SkkEngine δ × List EngineAction)},
      (∀ preedit page, k preedit (some page) = .ok (mid, [page, preedit])) →
      (∀ preedit, k preedit none =
        .ok (mid, if leaving then [.hideCandidates, preedit] else [preedit])) →
      Yields (mid.preeditAction >>= fun preedit =>
        mid.listingShowAction s.candidates index >>= k preedit) EndsDrawn := by
    intro mid index leaving k hsome hnone
    refine (preeditAction_yields mid).bind ?_
    rintro _ ⟨preedit, rfl⟩
    refine Yields.bind (Yields.of_forall fun _ => trivial) fun page _ => ?_
    cases page with
    | none =>
        rw [hnone]
        cases leaving with
        | true => exact yields_ok.mpr (.of_preedit (lastTouch_concat rfl [.hideCandidates]) rfl)
        | false => exact yields_ok.mpr (.of_preedit (lastTouch_concat rfl []) rfl)
    | some a =>
        rw [hsome]
        exact yields_ok.mpr (.of_preedit (lastTouch_concat rfl [a]) rfl)
  have hback : Yields (self.backToMidashi s) EndsDrawn := hhide _
  unfold handleSelecting
  refine Yields.ite (fun _ => hback) fun _ => Yields.ite (fun _ => ?_) fun _ => ?_
  · unfold selectPrevious
    refine Yields.ite (fun _ => hback) fun _ => ?_
    exact hreselect _ _ (self.inListing s.index) (fun _ _ => rfl) fun _ => rfl
  refine Yields.ite (fun _ => hcommit hs.index_lt _) fun _ => ?_
  refine Yields.ite (fun _ => hcommit hs.index_lt _) fun _ => ?_
  refine Yields.ite (fun _ => hcommitted hs.index_lt) fun _ => Yields.ite (fun _ => ?_) fun _ => ?_
  · unfold selectNext
    refine Yields.ite (fun _ => hhide _) fun _ => ?_
    exact hreselect _ _ false (fun _ _ => rfl) fun _ => rfl
  cases hkey : self.selectedByKey s event with
  | some candIdx => exact hcommitted (selectedByKey_lt hkey)
  | none =>
      refine Yields.ite (fun _ => hhide _) fun _ => Yields.ite (fun _ => ?_) fun _ => ?_
      · unfold selectAffix
        refine (commitCandidate_runs hs hs.index_lt).yields.bind fun r _ => ?_
        exact redrawAfter_endsDrawn r.2
      · refine Yields.ite (fun _ => redispatch_endsDrawn hself hphase event) fun _ => ?_
        exact yields_ok.mpr (.of_quiet (by simp))

/-- The purge confirmation commits nothing. It draws its buffer, the selection it goes back to,
or nothing at all. -/
theorem handlePurgeConfirm_endsDrawn {self : SkkEngine δ} (event : KeyEvent) (buf : Str) :
    Yields (self.handlePurgeConfirm event buf) EndsDrawn := by
  have hredraw : ∀ mid : SkkEngine δ, Yields mid.redraw EndsDrawn := fun mid =>
    (redraw_endsDrawn mid).mono fun _ h => h.1
  have hquiet : ∀ mid : SkkEngine δ,
      Yields (.ok (mid, []) : Partial (SkkEngine δ × List EngineAction)) EndsDrawn :=
    fun mid => yields_ok.mpr (.of_quiet (by simp))
  have hupdate : ∀ buf', Yields (self.updatePurgeBuf buf') EndsDrawn := by
    intro buf'
    unfold updatePurgeBuf
    split
    · exact hredraw _
    · exact hredraw _
  unfold handlePurgeConfirm
  refine Yields.ite (fun _ => ?_) fun _ => Yields.ite (fun _ => hupdate _) fun _ => ?_
  · refine Yields.ite (fun _ => ?_) fun _ => Yields.ite (fun _ => ?_) fun _ => hquiet _
    · unfold executePurge
      split
      · refine Yields.bind (Yields.of_forall fun _ => trivial) fun chosen _ => ?_
        exact yields_ok.mpr (.of_quiet (by simp))
      · exact hquiet _
    · unfold cancelPurge
      split
      · refine Yields.bind (Yields.of_forall fun _ => trivial) fun page _ => ?_
        exact redrawAfter_endsDrawn page.toList
      · exact hquiet _
  · split
    · exact Yields.ite (fun _ => hupdate _) fun _ => hquiet _
    · exact hquiet _

/-- Every handler satisfies the contract. Full-width input ends with a commit, in a phase that
has no preedit and with nothing pending. -/
theorem dispatch_endsDrawn [EucJp] {self : SkkEngine δ} (hself : self.Wf) (event : KeyEvent) :
    Yields (self.dispatch event) EndsDrawn := by
  unfold dispatch
  cases hphase : self.phase with
  | ascii =>
      unfold handleAscii
      refine Yields.ite (fun _ => ?_) fun _ => ?_
      all_goals exact yields_ok.mpr (.of_quiet (by simp))
  | hiragana | katakana | halfWidthKatakana => exact handleKana_endsDrawn self event
  | wideAscii =>
      have hkana : self.kanaState = [] := hself.phase_eq hphase
      unfold handleWideAscii
      refine Yields.ite (fun _ => yields_ok.mpr (.of_quiet (by simp))) fun _ => ?_
      refine Yields.ite (fun _ => yields_ok.mpr (.of_quiet (by simp))) fun _ => ?_
      split
      · exact yields_ok.mpr (.of_plain _ (by rw [hphase]; rfl) hkana)
      · exact yields_ok.mpr (.of_quiet (by simp))
  | codeInput codePrefix buf => exact handleCodeInput_endsDrawn self event codePrefix buf
  | «abbrev» buf => exact handleAbbrev_endsDrawn self event buf
  | midashi kanaBuf romanBuf => exact handleMidashi_endsDrawn _ self event _ _
  | okuri midashi okuriPrefix kanaBuf => exact handleOkuri_endsDrawn self event _ _ _
  | selecting s => exact handleSelecting_endsDrawn hself hphase event
  | purgeConfirm s buf returnMode => exact handlePurgeConfirm_endsDrawn event buf

end Handlers

/-! ### A key press -/

section Press
variable [DictionaryProvider δ]

omit [DictionaryProvider δ] in
/-- A registration lets no commit through: the text goes into its buffer, and what the adapter
gets is the prompt. -/
theorem Intercepted.endsDrawn {self : SkkEngine δ} {rawActions : List EngineAction}
    {r : SkkEngine δ × List EngineAction} (h : Intercepted self rawActions r) (text : Str) :
    lastTouch r.2 ≠ some (.commit text) := by
  have hkept : ∀ text, EngineAction.commit text ∉ rawActions.filter EngineAction.isKept := by
    intro text hmem
    have hcommit := (List.mem_filter.mp hmem).2
    cases hcommit
  cases h with
  | drawn _ _ _ _ =>
      rw [lastTouch_concat rfl]
      rintro ⟨⟩
  | quiet _ _ _ => exact lastTouch_ne_commit hkept text

/-- The keys a registration takes for itself end in a redraw. One case for each kind of key: a
word is submitted, a frame is dropped, the buffer is edited, or a composition is left. -/
theorem registrationKey_endsDrawn {self : SkkEngine δ} {event : KeyEvent}
    {early : Partial (SkkEngine δ × List EngineAction)}
    (h : self.registrationKey event = some early) :
    Yields early fun r => ∀ text, lastTouch r.2 ≠ some (.commit text) := by
  have hnot : ∀ {r : SkkEngine δ × List EngineAction} {a : EngineAction}, a.isPreedit →
      lastTouch r.2 = some a → ∀ text, lastTouch r.2 ≠ some (.commit text) := by
    intro r a ha hlast text hcommit
    rw [hlast] at hcommit
    cases hcommit
    cases ha
  have hredraw : ∀ mid : SkkEngine δ,
      Yields mid.redraw fun r => ∀ text, lastTouch r.2 ≠ some (.commit text) := by
    intro mid
    refine (redraw_yields mid).mono ?_
    rintro _ ⟨preedit, rfl⟩
    exact hnot rfl rfl
  have hedited : ∀ (edited : Partial (SkkEngine δ)) (f : SkkEngine δ → SkkEngine δ), Yields (do
      let self ← edited
      (f self).redraw) fun r => ∀ text, lastTouch r.2 ≠ some (.commit text) := fun edited f =>
    Yields.bind (Yields.of_forall fun _ => trivial) fun mid _ => hredraw (f mid)
  have hcancel : ∀ mid : SkkEngine δ,
      Yields mid.cancelRegister fun r => ∀ text, lastTouch r.2 ≠ some (.commit text) := by
    intro mid
    unfold cancelRegister
    cases mid.registerStack with
    | nil => exact yields_error
    | cons frame frames =>
        cases frames with
        | cons _ _ => exact hredraw _
        | nil =>
            refine (preeditAction_yields _).bind ?_
            rintro _ ⟨preedit, rfl⟩
            exact yields_pure.mpr (hnot rfl rfl)
  -- the outermost frame commits its word, and clears the preedit behind it
  have hsubmit : Yields self.regReturn fun r =>
      ∀ text, lastTouch r.2 ≠ some (.commit text) := by
    unfold regReturn
    split
    · refine Yields.ite (fun _ => hcancel self) fun _ => ?_
      unfold finalizeRegister
      split
      · exact yields_error
      · dsimp only
        split
        · exact yields_ok.mpr (hnot rfl rfl)
        · exact hedited _ fun mid => { mid with phase := .hiragana, kanaState := [] }
    · exact hcancel self
  obtain ⟨-, htakes⟩ := registrationKey_cases h
  cases htakes with
  | submit _ _ => exact hsubmit
  | drop _ => exact hcancel self
  | edit _ hedit =>
      obtain ⟨edited, -, rfl⟩ := Option.map_eq_some_iff.mp hedit
      exact hedited edited id
  | type ch _ => exact hedited _ id
  | abandon _ _ => exact hcancel _
  | flush _ _ =>
      unfold regFlush
      dsimp only
      split
      · exact hedited _ id
      · exact hredraw _

omit [DictionaryProvider δ] in
/-- Leaving raw mode commits nothing: it draws the preedit and the page. So it cannot be the
commit that a redraw has to follow. -/
theorem renderCurrentPhase_quiet (self : SkkEngine δ) :
    Yields self.renderCurrentPhase fun actions => ∀ text, EngineAction.commit text ∉ actions := by
  have hdrawn : Yields (do return [← self.preeditAction]) fun actions =>
      ∀ text, EngineAction.commit text ∉ actions := by
    refine (preeditAction_yields self).bind ?_
    rintro _ ⟨preedit, rfl⟩
    exact yields_pure.mpr (by simp)
  have hclear : Yields (.ok [.clearPreedit] : Partial (List EngineAction)) fun actions =>
      ∀ text, EngineAction.commit text ∉ actions := yields_ok.mpr (by simp)
  unfold renderCurrentPhase
  cases self.phase with
  | ascii | wideAscii => exact hclear
  | hiragana | katakana | halfWidthKatakana => exact Yields.ite (fun _ => hclear) fun _ => hdrawn
  | selecting s =>
      refine (preeditAction_yields self).bind ?_
      rintro _ ⟨preedit, rfl⟩
      refine (listingShowAction_yields self s.candidates s.index).bind fun page hpage => ?_
      cases page with
      | none => exact yields_pure.mpr (by simp)
      | some a =>
          obtain ⟨rows, keys, rfl⟩ := hpage a rfl
          exact yields_pure.mpr (by simp)
  | _ => exact hdrawn

variable [EucJp] {self self' : SkkEngine δ} {event : KeyEvent} {actions : List EngineAction}

/-- A key with raw mode off: if a commit is its last touch, the preedit of the state is empty.
In a registration the actions are redirected, and the prompt is drawn after them. -/
theorem handleCooked_endsDrawn (hself : self.Wf) (event : KeyEvent) :
    Yields (self.handleCooked event) fun r =>
      ∀ text, lastTouch r.2 = some (.commit text) → r.1.Displays [] := by
  unfold handleCooked
  cases hearly : self.registrationKey event with
  | some early =>
      refine (registrationKey_endsDrawn hearly).mono fun r hr text hlast => ?_
      exact (hr text hlast).elim
  | none =>
      refine Yields.ite (fun _ => ?_) fun _ => ?_
      · refine yields_ok.mpr fun text hlast => ?_
        cases hlast
      refine Yields.bind (P := fun r => EndsDrawn r ∧ r.1.Wf) ?_ ?_
      · intro r hr
        exact ⟨dispatch_endsDrawn hself event r hr, ((dispatch_post hself event).of_ok hr).wf⟩
      · rintro ⟨mid, rawActions⟩ ⟨hdrawn, hwf⟩
        refine Yields.ite (fun _ => ?_) fun hstack => ?_
        · refine (interceptForRegister_runs hwf rawActions).yields.mono fun r hr text hlast => ?_
          exact (hr.endsDrawn text hlast).elim
        · refine yields_ok.mpr fun text hlast => ?_
          have hnil : mid.registerStack = [] := by simpa using hstack
          obtain ⟨hplain, hkana⟩ := hdrawn text hlast
          exact ⟨_, buildPreedit_text_of_isPlain hplain hkana hnil, rfl⟩

omit [EucJp] in
/-- The status does not touch the preedit. -/
theorem IsStatus.lastTouch_append {actions status : List EngineAction} (h : IsStatus status) :
    lastTouch (actions ++ status) = lastTouch actions := by
  rcases h with rfl | ⟨indicator, rfl⟩
  · rw [List.append_nil]
  · rw [Y2Skk.lastTouch_append]
    rfl

/-- If a commit is the last thing a key does to the preedit, raw mode is off and there is no
preedit to show. -/
theorem commit_redrawn (hself : self.Wf) (hstep : Step self event self' actions) {text : Str}
    (hlast : lastTouch actions = some (.commit text)) :
    self'.rawMode = false ∧ self'.Displays [] := by
  have hquiet : ∀ {quiet : List EngineAction}, (∀ text, EngineAction.commit text ∉ quiet) →
      lastTouch quiet ≠ some (.commit text) := fun h => lastTouch_ne_commit h text
  unfold Step processKey at hstep
  by_cases hpress : event.isPress
  · rw [if_neg (by simp [hpress])] at hstep
    cases hhandled : self.handlePress event with
    | error e => rw [hhandled] at hstep; cases hstep
    | ok r =>
        rw [hhandled] at hstep
        cases hstep
        have htouch : lastTouch r.2 = some (.commit text) := by
          split at hlast
          · rwa [lastTouch_append] at hlast
          · exact hlast
        unfold handlePress at hhandled
        by_cases hraw : self.rawMode
        · rw [if_pos hraw] at hhandled
          by_cases htoggle : self.isRawToggle event
          · -- The frozen state is drawn again, with nothing committed.
            rw [if_pos htoggle] at hhandled
            dsimp only at hhandled
            cases hrender : SkkEngine.renderCurrentPhase { self with rawMode := false } with
            | error e => rw [hrender] at hhandled; cases hhandled
            | ok rendered =>
                rw [hrender] at hhandled
                cases hhandled
                exact (hquiet (renderCurrentPhase_quiet _ _ hrender) htouch).elim
          · rw [if_neg htoggle] at hhandled
            cases hhandled
            exact (hquiet (by simp) htouch).elim
        rw [if_neg hraw] at hhandled
        by_cases htoggle : self.isRawToggle event
        · rw [if_pos htoggle] at hhandled
          cases hhandled
          exact (hquiet (by simp) htouch).elim
        rw [if_neg htoggle] at hhandled
        have hcooked := (handleCooked_runs hself event).of_ok hhandled
        refine ⟨hcooked.config.rawMode.trans (by simpa using hraw), ?_⟩
        exact handleCooked_endsDrawn hself event r hhandled text htouch
  · rw [if_pos (by simp [hpress])] at hstep
    cases hstep
    exact (hquiet (by simp) hlast).elim

end Press

/-! ### What an adapter shows -/

section Drawn
variable [DictionaryProvider δ] [EucJp] {self self' : SkkEngine δ} {event : KeyEvent}
  {actions : List EngineAction} {text : Str}

/-- The preedit text on display is the right one: in raw mode there is none. -/
def Shown (self : SkkEngine δ) (text : Str) : Prop :=
  if self.rawMode then text = [] else self.Displays text

/-- The key leaves a wrong preedit on display: it drops pending romaji in silence, or it leaves
raw mode over the bare prompt of a registration. -/
def spoilsPreedit (self : SkkEngine δ) (event : KeyEvent) : Bool :=
  event.isPress && if self.rawMode then self.isRawToggle event && self.losesPrompt
    else self.dropsSilently event

/-- Both kinds of adapter show the same after a key: either the last touch is a preedit action,
which both obey, or it is a commit, and there is nothing left to show. -/
theorem drawn_of_step (hself : self.Wf) (hstep : Step self event self' actions)
    (hshown : self'.Shown (drawn false text actions)) (hides : Bool) :
    self'.Shown (drawn hides text actions) := by
  cases hides with
  | false => exact hshown
  | true =>
      by_cases hcommit : ∃ committed, lastTouch actions = some (.commit committed)
      · obtain ⟨committed, hlast⟩ := hcommit
        obtain ⟨hraw, hnothing⟩ := commit_redrawn hself hstep hlast
        rw [drawn_hiding, hlast, Shown, if_neg (by simp [hraw])]
        exact hnothing
      · rw [drawn_hiding, lastTouch_eq_lastPreedit fun committed h => hcommit ⟨committed, h⟩,
          ← drawn_keeping]
        exact hshown

/-- One key keeps the preedit on display right, whether or not the adapter hides it at a
commit. -/
theorem shown_step (hself : self.Wf) (hkeeps : self.spoilsPreedit event = false)
    (hbefore : self.Shown text) (hstep : Step self event self' actions) (hides : Bool) :
    self'.Shown (drawn hides text actions) := by
  refine drawn_of_step hself hstep ?_ hides
  rw [drawn_keeping]
  by_cases hraw : self.rawMode
  · rw [Shown, if_pos hraw] at hbefore
    by_cases htoggle : self.pressesRawToggle event
    · -- The second press of the toggle draws the frozen state again.
      have hsame : ({ ({ self with rawMode := false } : SkkEngine δ) with rawMode := true } :
          SkkEngine δ) = self := by rw [← hraw]
      have hfrozenWf : SkkEngine.Wf { self with rawMode := false } :=
        ⟨hself.frames, hself.phase⟩
      obtain ⟨rendered, status, hstatus, hrender, -, hleave⟩ :=
        step_leaveRaw hfrozenWf rfl htoggle
      rw [hsame] at hleave
      obtain ⟨rfl, rfl⟩ := Prod.mk.inj (Except.ok.inj (hstep.symm.trans hleave))
      have hprompt : SkkEngine.losesPrompt { self with rawMode := false } = false := by
        obtain ⟨hpress, hkey⟩ := Bool.and_eq_true_iff.mp htoggle
        rw [spoilsPreedit, if_pos hraw, hpress, hkey] at hkeeps
        have hfrozen : self.losesPrompt = false := by simpa using hkeeps
        exact hfrozen
      obtain ⟨preedit, hbuild, hlast⟩ := (showsPreedit_iff ⟨hself.frames, hself.phase⟩ hrender).mpr
        hprompt
      rw [hstatus.lastPreedit_append, Shown, if_neg (by simp)]
      rcases hlast with hlast | ⟨hlast, rfl⟩
      · rw [hlast]
        exact ⟨preedit, hbuild, rfl⟩
      · rw [hlast]
        exact ⟨_, hbuild, rfl⟩
    · have hpassed := step_raw hraw (by simpa using htoggle)
      obtain ⟨rfl, rfl⟩ := Prod.mk.inj (Except.ok.inj (hstep.symm.trans hpassed))
      rw [Shown, if_pos hraw]
      exact hbefore
  · rw [Shown, if_neg hraw] at hbefore
    obtain ⟨r, status, hkey, hstatus, heq⟩ := (processKey_runs hself event).of_ok hstep
    obtain ⟨rfl, rfl⟩ := Prod.mk.inj heq
    rw [hstatus.lastPreedit_append]
    cases hkey with
    | ignored _ =>
        rw [Shown, if_neg hraw]
        exact hbefore
    | enterRaw _ _ _ => rfl
    | leaveRaw h _ _ => exact (hraw h).elim
    | cooked hpress hraw' _ hcooked =>
        rw [Shown, if_neg (by simp [hcooked.config.rawMode, hraw'])]
        cases hlast : lastPreedit r.2 with
        | some a => exact hcooked.shows a hlast
        | none =>
            rcases hcooked.silent hlast with hsame | ⟨hdrops, -⟩
            · rw [hsame]
              exact hbefore
            · rw [spoilsPreedit, if_neg hraw, hpress, hdrops] at hkeeps
              cases hkeeps

end Drawn

end SkkEngine

end Y2Skk
