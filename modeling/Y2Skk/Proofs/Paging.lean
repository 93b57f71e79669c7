import Y2Skk.Dict.File
import Y2Skk.Proofs.Conclude
import Y2Skk.Proofs.NoPanic

/-!
# `Y2Skk.Proofs.Paging`: Space goes through all candidates, and cancel back

Space moves on by one candidate or by one page, depending on the position, and the cancel
key moves back with a clamp at the border between the two.

## The positions

`stride` is the number of candidates shown at a position. Space adds it, and the rows
shown are the next `stride` candidates, so what is shown on the way is the list, cut into
pieces.

* `previousIndex_stride`: the step back undoes the step on, at the border too.
* `pageAt_eq`: the page at a position has the next `stride` candidates.

## The walk

* `pages_from`: from any position on, Space shows the rest of the list.
* `cancel_undoes_space`: the cancel key behind a Space leads to the very state before it.
* `selecting_pages`: the walk from a fresh conversion to the registration, and its way
  back.

A press is the handler, or the whole of `process_key` where the key gets through to it
(`Takes`). What a press presents is read from its actions, so that the walk speaks of what
is drawn and not of the position alone.
-/

set_option autoImplicit false

namespace Y2Skk

open Outcome Utf8

namespace SkkEngine

/-! ### The arithmetic of the positions -/

section Positions
variable {δ : Type} (self : SkkEngine δ)

/-- The number of candidates shown at a position. -/
def stride (index : Nat) : Nat :=
  if self.inListing index then self.keybindings.selectionKeys.length else 1

/-- Every position shows a candidate, so Space makes progress. -/
theorem stride_pos (index : Nat) : 0 < self.stride index := by
  unfold stride inListing
  split
  · rename_i hlisting
    exact (of_decide_eq_true hlisting).1
  · exact Nat.one_pos

/-- The step back from the next position leads to the position it was reached from. At the first
page of the listing the step back is a single one, as the step forward was. -/
theorem previousIndex_stride (index : Nat) :
    self.previousIndex (index + self.stride index) = index := by
  have hlisting : ∀ i, self.inListing i = true ↔
      0 < self.keybindings.selectionKeys.length ∧ self.keybindings.inlineCount ≤ i :=
    fun i => decide_eq_true_iff
  unfold stride previousIndex
  by_cases hhere : self.inListing index
  · -- Inside the listing both steps are a page.
    rw [if_pos hhere]
    rw [hlisting] at hhere
    rw [if_pos ((hlisting _).mpr ⟨hhere.1, by omega⟩)]
    dsimp only
    rw [if_neg (by omega)]
    omega
  · rw [if_neg hhere]
    rw [hlisting] at hhere
    by_cases hnext : self.inListing (index + 1)
    · -- The step into the listing: the way back is clamped to the last inline candidate.
      rw [if_pos hnext]
      rw [hlisting] at hnext
      dsimp only
      rw [if_pos (by omega)]
      omega
    · rw [if_neg hnext]
      omega

/-- The page at a position has the next `stride` candidates, with one label for each of them;
outside the listing there is none. -/
theorem pageAt_eq (candidates : List Candidate) (index : Nat) :
    self.pageAt candidates index =
      if self.inListing index then
        some (.showCandidates ((candidates.drop index).take (self.stride index)) 0
          (self.keybindings.selectionKeys.take
            ((candidates.drop index).take (self.stride index)).length))
      else none := by
  unfold pageAt stride inListing
  dsimp only
  by_cases h : self.keybindings.selectionKeys.length = 0 ∨ index < self.keybindings.inlineCount
  · rw [if_pos h, if_neg (by rw [decide_eq_true_iff]; omega)]
  · have hlisting : 0 < self.keybindings.selectionKeys.length ∧
        self.keybindings.inlineCount ≤ index := by omega
    rw [if_neg h, if_pos (decide_eq_true hlisting), if_pos (decide_eq_true hlisting)]

end Positions

/-! ### What a press shows -/

/-- What a press presents of a selection: the page it shows, or the focused candidate. -/
def presented (s : Selection) (actions : List EngineAction) : List Candidate :=
  match lastWindow actions with
  | some (.showCandidates rows _ _) => rows
  | _ => s.candidates[s.index]?.toList

section Focus
variable {δ : Type} (self : SkkEngine δ)

/-- The engine with another candidate of the selection focused, and nothing else changed. -/
def focus (s : Selection) (index : Nat) : SkkEngine δ :=
  { self with phase := .selecting { s with index := index } }

/-- A selection whose page and preedit are drawn presents the next `stride` candidates: those of
the page, or the focused one outside the listing. -/
theorem presented_showPage {s : Selection} (hphase : self.phase = .selecting s)
    (hindex : s.index < s.candidates.length) (preedit : Preedit) {status : List EngineAction}
    (hstatus : IsStatus status) :
    presented s (self.showPage preedit ++ status) =
      (s.candidates.drop s.index).take (self.stride s.index) := by
  have hpage : self.page = self.pageAt s.candidates s.index := by rw [page, hphase]
  unfold presented
  rw [hstatus.lastWindow_append, lastWindow_showPage, hpage, pageAt_eq]
  by_cases hlisting : self.inListing s.index
  · rw [if_pos hlisting]
  · rw [if_neg hlisting, stride, if_neg hlisting, List.drop_eq_getElem_cons hindex,
      List.getElem?_eq_getElem hindex]
    rfl

/-- The engine in the registration that Space enters behind the last candidate. -/
def registered (s : Selection) : SkkEngine δ :=
  { self.pushFrame (self.newFrame s.midashi s.okuriKey s.okuri) with conversionTrigger := none }

end Focus

/-- The actions draw the state they come with: a window action or none, and its preedit. -/
structure Redrawn {δ : Type} (r : SkkEngine δ × List EngineAction) : Prop where
  wf : r.1.Wf
  actions : ∃ windows preedit, r.2 = windows ++ [.updatePreedit preedit] ∧
    (windows = [] ∨ ∃ a, windows = [a] ∧ a.isWindow) ∧ r.1.buildPreedit = .ok preedit

variable {δ : Type} [DictionaryProvider δ] {self : SkkEngine δ} {s : Selection}

omit [DictionaryProvider δ] in
/-- A page and its preedit draw the state they come with, whether or not the state is in the
listing. -/
theorem redrawn_showPage {state : SkkEngine δ} (hstate : state.Wf) {preedit : Preedit}
    (hbuild : state.buildPreedit = .ok preedit) : Redrawn (state, state.showPage preedit) := by
  refine ⟨hstate, state.page.toList, preedit, rfl, ?_, hbuild⟩
  cases hpage : state.page with
  | none => exact .inl rfl
  | some a =>
      obtain ⟨rows, keys, rfl⟩ := page_isShow hpage
      exact .inr ⟨_, rfl, rfl⟩

omit [DictionaryProvider δ] in
/-- So does a preedit that comes with a hidden window. -/
theorem redrawn_hide {state : SkkEngine δ} (hstate : state.Wf) {preedit : Preedit}
    (hbuild : state.buildPreedit = .ok preedit) :
    Redrawn (state, [.hideCandidates, .updatePreedit preedit]) :=
  ⟨hstate, [.hideCandidates], preedit, rfl, .inr ⟨_, rfl, rfl⟩, hbuild⟩

omit [DictionaryProvider δ] in
/-- A registration draws the same preedit once more. So a handler that only redraws a selection
has the same result inside a registration and outside. -/
theorem Redrawn.conclude {r : SkkEngine δ × List EngineAction} (hr : Redrawn r) :
    SkkEngine.conclude r = .ok r := by
  obtain ⟨windows, preedit, hactions, hwindows, hbuild⟩ := hr.actions
  obtain ⟨state, actions⟩ := r
  dsimp only at hactions hbuild
  subst hactions
  cases hstack : state.registerStack with
  | nil => exact conclude_nil hstack
  | cons frame frames =>
      -- nothing is committed, and the actions on the window of candidates are kept
      have hkept :
          (windows ++ [EngineAction.updatePreedit preedit]).filter EngineAction.isKept = windows ∧
          RedrawsText (windows ++ [EngineAction.updatePreedit preedit]) ∧
          committedText (windows ++ [EngineAction.updatePreedit preedit]) = [] := by
        rcases hwindows with rfl | ⟨a, rfl, ha⟩
        · exact ⟨rfl, ⟨rfl, by simp⟩, rfl⟩
        · cases a with
          | showCandidates rows focused keys => exact ⟨rfl, ⟨rfl, by simp⟩, rfl⟩
          | hideCandidates => exact ⟨rfl, ⟨rfl, by simp⟩, rfl⟩
          | _ => cases ha
      obtain ⟨hfilter, hredraws, htext⟩ := hkept
      have hframe : frame.Wf := hr.wf.frames frame (by simp [hstack])
      have hsame : ({ state with registerStack := frame :: frames } : SkkEngine δ) = state := by
        rw [← hstack]
      rw [conclude_cons (by simp [hstack]), interceptForRegister_eq hr.wf hstack hredraws
        (by rw [htext]; exact RegisterFrame.insert_nil hframe), hsame, preeditAction, hbuild,
        ok_bind, hfilter]
      rfl

/-! ### Space and cancel, in the handler -/

/-- Both keys draw the selection at its new focus; `hide` is sent where there is no page. -/
def drawFocus (self : SkkEngine δ) (s : Selection) (index : Nat) (hide : List EngineAction) :
    Partial (SkkEngine δ × List EngineAction) := do
  let preedit ← (self.focus s index).preeditAction
  match ← (self.focus s index).listingShowAction s.candidates index with
  | some «show» => .ok (self.focus s index, [«show», preedit])
  | none => .ok (self.focus s index, hide ++ [preedit])

omit [DictionaryProvider δ] in
/-- Space adds the stride, and enters a registration where the list ends. The two cases of the
source for the next index are the two values of the stride. -/
theorem selectNext_eq (self : SkkEngine δ) (s : Selection) : self.selectNext s =
    if s.candidates.length ≤ s.index + self.stride s.index then self.enterRegisterFromSelecting s
    else self.drawFocus s (s.index + self.stride s.index) [] := by
  have hnext : (if self.inListing s.index then s.index + self.keybindings.selectionKeys.length
      else s.index + 1) = s.index + self.stride s.index := by
    unfold stride
    split <;> rfl
  unfold selectNext
  dsimp only
  rw [hnext]
  rfl

/-- The cancel key steps back, and leads to the reading from the first candidate. -/
theorem selectPrevious_eq (self : SkkEngine δ) (s : Selection) : self.selectPrevious s =
    if s.index = 0 then self.backToMidashi s
    else self.drawFocus s (self.previousIndex s.index)
      (if self.inListing s.index then [.hideCandidates] else []) := by
  unfold selectPrevious drawFocus
  cases self.inListing s.index <;> rfl

section Moves
variable (hself : self.Wf) (hphase : self.phase = .selecting s)
include hself hphase

omit [DictionaryProvider δ] in
/-- A focus inside the list keeps the invariant. -/
theorem focus_wf {index : Nat} (hindex : index < s.candidates.length) : (self.focus s index).Wf :=
  have hwf := hself.phase_eq hphase
  ⟨hself.frames, hwf.1, hwf.2.origin_length, hindex, hwf.2.okuri⟩

omit [DictionaryProvider δ] hself in
/-- To focus the focused candidate changes nothing. -/
theorem focus_self : self.focus s s.index = self := by
  unfold focus
  rw [← hphase]

omit [DictionaryProvider δ] in
/-- The registration that Space enters keeps the invariant: its frame is empty. -/
theorem registered_wf : (self.registered s).Wf :=
  ⟨(pushFrame_wf hself.frames (newFrame_wf self s.midashi (hself.phase_eq hphase).2.okuri)).frames,
    trivial⟩

omit [DictionaryProvider δ] in
/-- Space behind the last candidate enters the registration of the reading, with the window
hidden. -/
theorem selectNext_register (hlast : s.candidates.length ≤ s.index + self.stride s.index) :
    ∃ actions, self.selectNext s = .ok (self.registered s, actions) ∧
      Redrawn (self.registered s, actions) := by
  have hwf := registered_wf hself hphase
  obtain ⟨preedit, hbuild, -, haction⟩ := preeditAction_eq hwf
  refine ⟨_, ?_, redrawn_hide hwf hbuild⟩
  rw [selectNext_eq, if_pos hlast]
  exact congrArg (fun x => x >>= fun a => .ok (self.registered s, [.hideCandidates, a])) haction

omit [DictionaryProvider δ] in
/-- The new focus is drawn, with its page or what hides the page before. It never panics, since
the position is within the list. -/
theorem drawFocus_ok {index : Nat} (hindex : index < s.candidates.length)
    (hide : List EngineAction) :
    ∃ preedit, (self.focus s index).buildPreedit = .ok preedit ∧
      self.drawFocus s index hide = .ok (self.focus s index,
        if self.inListing index then (self.focus s index).showPage preedit
        else hide ++ [.updatePreedit preedit]) := by
  obtain ⟨preedit, hbuild, -, haction⟩ := preeditAction_eq (focus_wf hself hphase hindex)
  refine ⟨preedit, hbuild, ?_⟩
  have hpage : (self.focus s index).page = self.pageAt s.candidates index := rfl
  have hlist : (self.focus s index).listingShowAction s.candidates index
      = .ok (self.pageAt s.candidates index) := listingShowAction_eq _ (by omega)
  rw [drawFocus, haction, ok_bind, hlist, ok_bind, showPage, hpage, inListing_eq self s.candidates]
  cases self.pageAt s.candidates index <;> rfl

omit [DictionaryProvider δ] in
/-- Space at any other position focuses the first candidate it has not shown, and shows it: as a
page in the listing and by the preedit before it. -/
theorem selectNext_focus (hnext : s.index + self.stride s.index < s.candidates.length) :
    ∃ preedit, (self.focus s (s.index + self.stride s.index)).buildPreedit = .ok preedit ∧
      self.selectNext s = .ok (self.focus s (s.index + self.stride s.index),
        (self.focus s (s.index + self.stride s.index)).showPage preedit) := by
  obtain ⟨preedit, hbuild, hdraw⟩ := drawFocus_ok hself hphase hnext []
  refine ⟨preedit, hbuild, ?_⟩
  rw [selectNext_eq, if_neg (by omega), hdraw]
  split
  · rfl
  · rename_i hlisting
    have hpage : (self.focus s (s.index + self.stride s.index)).page = none := by
      show self.pageAt s.candidates (s.index + self.stride s.index) = none
      rw [pageAt_eq, if_neg hlisting]
    rw [showPage, hpage]
    rfl

/-- The cancel key behind the first candidate focuses the position before. It hides the window
when it leaves the listing. -/
theorem selectPrevious_focus (hindex : s.index ≠ 0) :
    ∃ actions, self.selectPrevious s = .ok (self.focus s (self.previousIndex s.index), actions) ∧
      Redrawn (self.focus s (self.previousIndex s.index), actions) := by
  have hprev : self.previousIndex s.index < s.candidates.length :=
    Nat.lt_of_le_of_lt (self.previousIndex_le s.index) (hself.phase_eq hphase).2.index_lt
  have hwf := focus_wf hself hphase hprev
  obtain ⟨preedit, hbuild, hdraw⟩ := drawFocus_ok hself hphase hprev
    (if self.inListing s.index then [.hideCandidates] else [])
  refine ⟨_, by rw [selectPrevious_eq, if_neg hindex, hdraw], ?_⟩
  split
  · exact redrawn_showPage hwf hbuild
  split
  · exact redrawn_hide hwf hbuild
  · exact ⟨hwf, [], preedit, rfl, .inl rfl, hbuild⟩

omit hphase in
/-- The cancel key at the first candidate leads back to the reading, which is drawn, and the
window is hidden. -/
theorem backToMidashi_redrawn :
    ∃ r, self.backToMidashi s = .ok r ∧ r.1.phase = .midashi s.midashi [] ∧ Redrawn r := by
  have hwf : (SkkEngine.updateCompletion { self with
      phase := .midashi s.midashi [], kanaState := [], conversionTrigger := none }
      s.midashi).Wf := by
    rw [updateCompletion_eq]
    exact ⟨hself.frames, rfl⟩
  obtain ⟨preedit, hbuild, -, haction⟩ := preeditAction_eq hwf
  refine ⟨_, ?_, ?_, redrawn_hide hwf hbuild⟩
  · unfold backToMidashi
    dsimp only
    rw [haction]
    rfl
  · rw [updateCompletion_eq]

end Moves

/-! ### A press -/

section Press
variable [EucJp] {event : KeyEvent}
  {press : SkkEngine δ → KeyEvent → Partial (SkkEngine δ × List EngineAction)}

/-- The ways a key is pressed: through the handler of the phase, and through `process_key` where
it gets there: raw mode is off, and neither a registration nor a toggle takes the key. -/
inductive Takes (self : SkkEngine δ) (event : KeyEvent) :
    (SkkEngine δ → KeyEvent → Partial (SkkEngine δ × List EngineAction)) → Prop
  | handler : Takes self event dispatch
  | key : self.cooks event → self.reachesHandler event → Takes self event processKey

/-- Through `process_key`, a press is the handler, the registration and the status: nothing
comes before the handler for a key that reaches it. -/
theorem processKey_handler (hcooks : self.cooks event) (hreaches : self.reachesHandler event) :
    self.processKey event = (do
      let r ← self.dispatch event
      let r ← conclude r
      .ok (withStatus self.currentModeIndicator r)) := by
  simp only [reachesHandler, Bool.and_eq_true, Bool.not_eq_true', Option.isNone_iff_eq_none]
    at hreaches
  rw [processKey_eq hcooks, handleCooked_eq hreaches.1 hreaches.2]
  cases self.dispatch event <;> rfl

/-- In a selection the handler of the selection is called. -/
theorem dispatch_selecting (hphase : self.phase = .selecting s) :
    self.dispatch event = self.handleSelecting event s := by rw [dispatch, hphase]

/-- A press that draws its result is what the handler does, up to a status update. -/
theorem Takes.press_eq (htakes : self.Takes event press) {r : SkkEngine δ × List EngineAction}
    (hdispatch : self.dispatch event = .ok r) (hr : Redrawn r) :
    ∃ status, IsStatus status ∧ press self event = .ok (r.1, r.2 ++ status) := by
  cases htakes with
  | handler => exact ⟨[], .inl rfl, by rw [hdispatch, List.append_nil]⟩
  | key hcooks hreaches =>
      rw [processKey_handler hcooks hreaches, hdispatch, ok_bind, hr.conclude, ok_bind, withStatus]
      split
      · exact ⟨_, .inr ⟨_, rfl⟩, rfl⟩
      · exact ⟨[], .inl rfl, by rw [List.append_nil]⟩

omit [EucJp] in
/-- Space moves on, unless it is a cancel key itself. -/
theorem handleSelecting_space (hspace : event.key = .space)
    (hcancel : ' ' ∉ self.keybindings.cancel) :
    self.handleSelecting event s = self.selectNext s := by
  have hchar : event.printableChar = some ' ' := by rw [KeyEvent.printableChar, hspace]
  unfold handleSelecting
  rw [if_neg (by simp [hspace]), if_neg (by simp [hchar, hcancel]), if_neg (by simp [hspace]),
    if_neg (by simp [hspace]), if_neg (by simp [hspace]), if_pos hspace]

omit [EucJp] in
/-- A cancel key moves back. -/
theorem handleSelecting_cancel {c : Char} (hkey : event.key = .char c)
    (hcancel : c ∈ self.keybindings.cancel) :
    self.handleSelecting event s = self.selectPrevious s := by
  have hchar : event.printableChar = some c := by rw [KeyEvent.printableChar, hkey]
  unfold handleSelecting
  rw [if_neg (by simp [hkey]), if_pos (by simp [hchar, hcancel])]

/-! ### The walk -/

/-- Space pressed until the registration is entered: what each press has presented, beginning
with the press that came before the first Space, and the state at the end. -/
inductive Pages (press : SkkEngine δ → KeyEvent → Partial (SkkEngine δ × List EngineAction))
    (space : KeyEvent) :
    SkkEngine δ → List EngineAction → List (List Candidate) → SkkEngine δ → Prop
  | register {self s shown r} : self.phase = .selecting s → press self space = .ok r →
      r.1.registerStack = self.newFrame s.midashi s.okuriKey s.okuri :: self.registerStack →
      Pages press space self shown [presented s shown] r.1
  | turn {self s shown r s' views last} : self.phase = .selecting s →
      press self space = .ok r → r.1.phase = .selecting s' →
      Pages press space r.1 r.2 views last →
      Pages press space self shown (presented s shown :: views) last

omit [EucJp] in
/-- Whether a registration takes a key does not depend on the position. -/
theorem registrationKey_focus (hphase : self.phase = .selecting s) (index : Nat) :
    (self.focus s index).registrationKey event = self.registrationKey event := by
  unfold registrationKey inReadyState
  rw [hphase]
  rfl

/-- Whether a key gets through is the same at every position, so the argument about one Space
can be repeated for the next. -/
theorem Takes.focus (htakes : self.Takes event press) (hphase : self.phase = .selecting s)
    (index : Nat) : (self.focus s index).Takes event press := by
  cases htakes with
  | handler => exact .handler
  | key hcooks hreaches =>
      refine .key hcooks ?_
      rw [reachesHandler, registrationKey_focus hphase]
      exact hreaches

/-- Space in a selection: on to the registration, or to the next position. The stride is one for
a candidate on its own and the length of the page in a listing. -/
theorem Takes.space_cases (htakes : self.Takes event press) (hspace : event.key = .space)
    (hcancel : ' ' ∉ self.keybindings.cancel) (hself : self.Wf)
    (hphase : self.phase = .selecting s) :
    (s.candidates.length ≤ s.index + self.stride s.index ∧
      ∃ actions, press self event = .ok (self.registered s, actions)) ∨
    (s.index + self.stride s.index < s.candidates.length ∧ ∃ preedit status, IsStatus status ∧
      press self event = .ok (self.focus s (s.index + self.stride s.index),
        (self.focus s (s.index + self.stride s.index)).showPage preedit ++ status)) := by
  have hdispatch : self.dispatch event = self.selectNext s :=
    (dispatch_selecting hphase).trans (handleSelecting_space hspace hcancel)
  by_cases hlast : s.candidates.length ≤ s.index + self.stride s.index
  · obtain ⟨actions, hnext, hr⟩ := selectNext_register hself hphase hlast
    obtain ⟨status, -, hpress⟩ := htakes.press_eq (hdispatch.trans hnext) hr
    exact .inl ⟨hlast, _, hpress⟩
  · have hmore : s.index + self.stride s.index < s.candidates.length := by omega
    obtain ⟨preedit, hbuild, hnext⟩ := selectNext_focus hself hphase hmore
    have hr := redrawn_showPage (focus_wf hself hphase hmore) hbuild
    obtain ⟨status, hstatus, hpress⟩ := htakes.press_eq (hdispatch.trans hnext) hr
    exact .inr ⟨hmore, preedit, status, hstatus, hpress⟩

/-- From any position on, Space shows the rest of the list: the views together are the
candidates from the position on, in their order and each of them once. -/
theorem pages_from (hspace : event.key = .space) (k : Nat) :
    ∀ {self : SkkEngine δ} {s : Selection}, self.Wf → self.phase = .selecting s →
      self.Takes event press → ' ' ∉ self.keybindings.cancel →
      s.candidates.length - s.index ≤ k → ∀ preedit status, IsStatus status →
      ∃ views last, Pages press event self (self.showPage preedit ++ status) views last ∧
        views.flatten = s.candidates.drop s.index := by
  -- On the number of candidates that are left; every Space takes at least one.
  induction k with
  | zero =>
      intro self s hself hphase _ _ hk
      have hindex := (hself.phase_eq hphase).2.index_lt
      omega
  | succ k ih =>
      intro self s hself hphase htakes hcancel hk preedit status hstatus
      have hindex := (hself.phase_eq hphase).2.index_lt
      have hpos := self.stride_pos s.index
      have hshown := self.presented_showPage hphase hindex preedit hstatus
      rcases htakes.space_cases hspace hcancel hself hphase with
        ⟨hlast, actions, hpress⟩ | ⟨hmore, preedit', status', hstatus', hpress⟩
      · refine ⟨_, _, .register hphase hpress rfl, ?_⟩
        rw [hshown, List.flatten_singleton, List.take_of_length_le]
        rw [List.length_drop]
        omega
      · have hk' : s.candidates.length - (s.index + self.stride s.index) ≤ k := by omega
        obtain ⟨views, last, hpages, hflatten⟩ := ih (focus_wf hself hphase hmore) rfl
          (htakes.focus hphase _) hcancel hk' preedit' status' hstatus'
        refine ⟨_, last, .turn hphase hpress rfl hpages, ?_⟩
        rw [List.flatten_cons, hflatten, hshown, ← List.drop_drop, List.take_append_drop]

/-- A conversion that opens a selection shows its first position, and Space the rest, so
together they show the whole list. -/
theorem startConversion_pages (hspace : event.key = .space) {start : SkkEngine δ}
    {shown : List EngineAction} {midashi : Str} {okuri : Option (Str × Str)}
    (hconv : start.startConversion midashi okuri = .ok (self, shown)) (hself : self.Wf)
    (hphase : self.phase = .selecting s) (hcancel : ' ' ∉ self.keybindings.cancel)
    (htakes : self.Takes event press) :
    s.index = 0 ∧ ∃ views last, Pages press event self shown views last ∧
      views.flatten = s.candidates := by
  -- The conversion leaves the registrations and the romaji alone.
  have hkeeps : self.registerStack = start.registerStack ∧ self.kanaState = start.kanaState := by
    rcases startConversion_yields start midashi okuri (self, shown) hconv with
      ⟨preedit, heq⟩ | ⟨s, actions, -, -, -, -, heq⟩
    · cases heq
      cases hphase
    · cases heq
      exact ⟨rfl, rfl⟩
  have hkana : self.kanaState = [] := (hself.phase_eq hphase).1
  obtain ⟨r, hr, hconverted⟩ := startConversion_runs (hkeeps.1 ▸ hself.frames)
    (hkeeps.2 ▸ hkana) midashi okuri
  rw [hconv] at hr
  cases hr
  cases hconverted with
  | register hgather hnone heq hbuild hpreedit =>
      rw [heq] at hphase
      cases hphase
  | @select g preedit _ hgather hg hne heq hbuild hpreedit =>
      have hs : s = openSelection midashi okuri g := by
        rw [heq] at hphase
        exact (SkkPhase.selecting.inj hphase).symm
      have hzero : s.index = 0 := by
        rw [hs]
        rfl
      obtain ⟨views, last, hpages, hflatten⟩ := pages_from hspace s.candidates.length hself hphase
        htakes hcancel (Nat.sub_le _ _) preedit [] (.inl rfl)
      rw [List.append_nil] at hpages
      exact ⟨hzero, views, last, hpages, by rw [hflatten, hzero, List.drop_zero]⟩

/-- The cancel key after Space restores the state before. The position it goes back to is the
one from which the stride led here, also across the border between single candidates and
pages. -/
theorem cancel_undoes_space {space back : KeyEvent} (hspace : space.key = .space)
    (hspaces : self.Takes space press) (hfree : ' ' ∉ self.keybindings.cancel) {c : Char}
    (hback : back.key = .char c) (hcancels : self.Takes back press)
    (hcancel : c ∈ self.keybindings.cancel) (hself : self.Wf) (hphase : self.phase = .selecting s)
    {r : SkkEngine δ × List EngineAction} (hpress : press self space = .ok r) {s' : Selection}
    (hturned : r.1.phase = .selecting s') : ∃ actions, press r.1 back = .ok (self, actions) := by
  rcases hspaces.space_cases hspace hfree hself hphase with
    ⟨-, actions, hregister⟩ | ⟨hmore, preedit, status, -, hturn⟩
  · rw [hregister] at hpress
    cases hpress
    cases hturned
  · rw [hturn] at hpress
    cases hpress
    have hpos := self.stride_pos s.index
    obtain ⟨actions, hprevious, hr⟩ := selectPrevious_focus (focus_wf hself hphase hmore) rfl
      (by dsimp only; omega)
    have hreturns : (self.focus s (s.index + self.stride s.index)).focus
        { s with index := s.index + self.stride s.index }
        (self.previousIndex (s.index + self.stride s.index)) = self := by
      rw [previousIndex_stride]
      exact focus_self hphase
    have hhandled : (self.focus s (s.index + self.stride s.index)).dispatch back = _ :=
      (handleSelecting_cancel hback (by exact hcancel)).trans hprevious
    obtain ⟨status, -, hpressed⟩ := (hcancels.focus hphase _).press_eq hhandled hr
    refine ⟨actions ++ status, hpressed.trans ?_⟩
    exact congrArg (fun state => Except.ok (state, actions ++ status)) hreturns

/-- The cancel key at the first candidate leads back to the reading, whatever the selection was
opened with. -/
theorem cancel_first {c : Char} (hkey : event.key = .char c) (hcancel : c ∈ self.keybindings.cancel)
    (htakes : self.Takes event press) (hself : self.Wf) (hphase : self.phase = .selecting s)
    (hzero : s.index = 0) :
    ∃ r, press self event = .ok r ∧ r.1.phase = .midashi s.midashi [] := by
  obtain ⟨r, hreading, hmidashi, hr⟩ := backToMidashi_redrawn (s := s) hself
  have hprevious : self.selectPrevious s = .ok r := by
    rw [selectPrevious_eq, if_pos hzero, hreading]
  have hdispatch : self.dispatch event = .ok r :=
    (dispatch_selecting hphase).trans ((handleSelecting_cancel hkey hcancel).trans hprevious)
  obtain ⟨status, -, hpress⟩ := htakes.press_eq hdispatch hr
  exact ⟨_, hpress, hmidashi⟩

/-- From a fresh conversion on, Space presents the candidates in order and each once, and then
enters the registration. Wherever Space leads to another position, the cancel key leads back
to the very state before; at the first candidate it leads back to the reading. -/
theorem selecting_pages {space back : KeyEvent} {c : Char} (hspace : space.key = .space)
    (hback : back.key = .char c) :
    (∀ (start self : SkkEngine δ) (shown : List EngineAction) (s : Selection) (midashi : Str)
      (okuri : Option (Str × Str)), start.startConversion midashi okuri = .ok (self, shown) →
      self.Wf → self.phase = .selecting s → ' ' ∉ self.keybindings.cancel →
      self.Takes space press →
      s.index = 0 ∧ ∃ views last, Pages press space self shown views last ∧
        views.flatten = s.candidates) ∧
    (∀ (self : SkkEngine δ) (s s' : Selection) (r : SkkEngine δ × List EngineAction), self.Wf →
      self.phase = .selecting s → ' ' ∉ self.keybindings.cancel → c ∈ self.keybindings.cancel →
      self.Takes space press → self.Takes back press →
      press self space = .ok r → r.1.phase = .selecting s' →
      ∃ actions, press r.1 back = .ok (self, actions)) ∧
    (∀ (self : SkkEngine δ) (s : Selection), self.Wf → self.phase = .selecting s →
      s.index = 0 → c ∈ self.keybindings.cancel → self.Takes back press →
      ∃ r, press self back = .ok r ∧ r.1.phase = .midashi s.midashi []) := by
  refine ⟨?_, ?_, ?_⟩
  · intro start self shown s midashi okuri hconv hself hphase hfree htakes
    exact startConversion_pages hspace hconv hself hphase hfree htakes
  · intro self s s' r hself hphase hfree hcancel hspaces hcancels hpress hturned
    exact cancel_undoes_space hspace hspaces hfree hback hcancels hcancel hself hphase hpress
      hturned
  · intro self s hself hphase hzero hcancel htakes
    exact cancel_first hback hcancel htakes hself hphase hzero

end Press

/-- Three words under one reading. -/
def pagedDict : FileDict where
  entries := OrdMap.empty.insert ['あ']
    (OrdMap.empty.insert none [.new ['亜'], .new ['阿'], .new ['唖']])
  priority := 0

/-- One candidate is offered on its own, the rest in pages of one row. -/
def pagedKeybindings : SkkKeybindings := { inlineCount := 1, selectionKeys := ['a'] }

/-- One candidate on its own, and two pages behind it. The three parts of the general theorem
are all applied to this conversion. -/
theorem selecting_pages_three :
    letI := EucJp.empty
    let start := fresh vowelTable pagedKeybindings true .hiragana [pagedDict]
    ∃ (self : SkkEngine FileDict) (shown : List EngineAction) (s : Selection),
      start.startConversion ['あ'] none = .ok (self, shown) ∧ self.phase = .selecting s ∧
      s.candidates = [.new ['亜'], .new ['阿'], .new ['唖']] ∧
      (∃ views last, Pages processKey (.press .space {}) self shown views last ∧
        views.flatten = s.candidates) ∧
      (∃ r, self.processKey (.press (.char 'x') {}) = .ok r ∧ r.1.phase = .midashi ['あ'] []) ∧
      ∀ r s', self.processKey (.press .space {}) = .ok r → r.1.phase = .selecting s' →
        ∃ actions, r.1.processKey (.press (.char 'x') {}) = .ok (self, actions) := by
  let _ := EucJp.empty
  intro start
  have hopens : ∃ r ∈ (start.startConversion ['あ'] none).toOption,
      r.1.phase = .selecting ⟨['あ'], none, none, [.new ['亜'], .new ['阿'], .new ['唖']],
        [.dict ['あ'] ['亜'], .dict ['あ'] ['阿'], .dict ['あ'] ['唖']], 0⟩ ∧
      r.1.kanaState = [] ∧ r.1.registerStack = [] ∧ r.1.keybindings = pagedKeybindings ∧
      (∀ event ∈ [.press .space {}, .press (.char 'x') {}],
        r.1.cooks event ∧ r.1.reachesHandler event) := by decide +kernel
  obtain ⟨⟨self, shown⟩, hr, hphase, hkana, hstack, hkeys, hkeysTaken⟩ := hopens
  have htakes : ∀ event ∈ [.press .space {}, .press (.char 'x') {}], self.Takes event processKey :=
    fun event hevent => .key (hkeysTaken event hevent).1 (hkeysTaken event hevent).2
  have hspace := htakes (.press .space {}) (by simp)
  have hback := htakes (.press (.char 'x') {}) (by simp)
  have hself : self.Wf := by
    refine ⟨fun frame hframe => ?_, ?_⟩
    · rw [hstack] at hframe
      cases hframe
    · rw [hphase]
      exact ⟨hkana, rfl, by decide, rfl⟩
  have hfree : ' ' ∉ self.keybindings.cancel := by
    rw [hkeys]
    decide
  have hcancel : 'x' ∈ self.keybindings.cancel := by
    rw [hkeys]
    decide
  have hboth := @selecting_pages FileDict _ _ processKey (.press .space {}) (.press (.char 'x') {})
    'x' rfl rfl
  exact ⟨self, shown, _, ok_of_mem_toOption hr, hphase, rfl,
    (hboth.1 start self shown _ _ _ (ok_of_mem_toOption hr) hself hphase hfree hspace).2,
    hboth.2.2 self _ hself hphase rfl hcancel hback,
    fun r s' hpress hturned => hboth.2.1 self _ s' r hself hphase hfree hcancel hspace hback
      hpress hturned⟩

end SkkEngine

end Y2Skk
