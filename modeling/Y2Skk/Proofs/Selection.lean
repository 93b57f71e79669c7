import Y2Skk.Proofs.Handlers

/-!
# `Y2Skk.Proofs.Selection`: the contract of the selection handlers

`handleSelecting`, `handlePurgeConfirm`, and with them the dispatch over all phases.

## Committing

`commitCandidate_runs` says what a commit does to the state: a kana mode with nothing
pending, no trigger, and the window hidden (`Committed`). The candidate and its origin are
looked up by index, and the invariant of the selection is what makes both lookups succeed.

## Moving

Space and the cancel key focus another candidate. `reselect_runs` is the case they share:
the page at the new focus is shown, or the window is hidden when the focus has left the
pages. Whether a window was open before is a question of the old focus, so a window that
is not open is never hidden by mistake.

## The last branch

A key that no branch takes commits the focused candidate and is handled once more, in the
kana mode (`isRedispatched`). This is the only way that a conversion trigger is typed from
a selection, and `typedInSelecting` says which one.

## Dispatch

`dispatch_post` is the contract of whichever handler the phase selects.
-/

set_option autoImplicit false

namespace Y2Skk

open Outcome Utf8

namespace SkkEngine

variable {δ : Type} [DictionaryProvider δ]

section Selecting
variable {self : SkkEngine δ} {s : Selection}

/-! ### Committing -/

/-- What a commit returns: a kana mode with no trigger pending, and the window hidden. Of the
dictionaries only what is learned may change. -/
structure Committed (start : SkkEngine δ) (r : SkkEngine δ × List EngineAction) : Prop where
  state : ∃ dict, DictSteps start.dict dict ∧ r.1 = { start with
    dict := dict
    phase := start.midashiDisplayMode.toPhase
    kanaState := []
    conversionTrigger := none }
  actions : ∃ text, r.2 = [.hideCandidates, .commit text, .clearPreedit]
    ++ (start.conversionTrigger.map EngineAction.commit).toList

/-- A candidate of the selection has an origin, so what is learned is a plain candidate. -/
theorem learnEntry_of_wf (hs : s.Wf) {index : Nat} (hindex : index < s.candidates.length)
    (chosen : Candidate) :
    learnEntry s index chosen = none ∨ ∃ midashi word, learnEntry s index chosen =
      some ⟨midashi, s.okuriKey, [⟨word, chosen.annotation, none⟩]⟩ := by
  have horigin : index < s.origin.length := by rw [hs.origin_length]; exact hindex
  unfold learnEntry
  rw [List.getElem?_eq_getElem horigin]
  cases s.origin[index] with
  | dict templateMidashi templateWord => exact .inr ⟨templateMidashi, templateWord, rfl⟩
  | synthetic => exact .inl rfl

/-- A commit returns, and leaves a kana mode with nothing pending. The index is one of the list,
so the lookup of the candidate does not panic. -/
theorem commitCandidate_runs (hs : s.Wf) {index : Nat} (hindex : index < s.candidates.length) :
    Runs (self.commitCandidate s index) (Committed self) := by
  unfold commitCandidate
  rw [indexList_eq hindex, ok_bind, runs_ok]
  rcases learnEntry_of_wf hs hindex s.candidates[index] with hentry | ⟨midashi, word, hentry⟩
  · rw [hentry]
    exact ⟨⟨_, .refl, rfl⟩, _, rfl⟩
  · rw [hentry]
    exact ⟨⟨_, .single (.learn _ _ _ _ _), rfl⟩, _, rfl⟩

/-- The last thing it does to the preedit is to clear it. -/
theorem Committed.lastPreedit {r : SkkEngine δ × List EngineAction} (h : Committed self r) :
    lastPreedit r.2 = some .clearPreedit := by
  obtain ⟨text, hactions⟩ := h.actions
  rw [hactions]
  cases self.conversionTrigger <;> rfl

/-- The last thing it does to the window is to hide it. -/
theorem Committed.lastWindow {r : SkkEngine δ × List EngineAction} (h : Committed self r) :
    lastWindow r.2 = some .hideCandidates := by
  obtain ⟨text, hactions⟩ := h.actions
  rw [hactions]
  cases self.conversionTrigger <;> rfl

/-- It draws no preedit. -/
theorem Committed.no_preedit {r : SkkEngine δ × List EngineAction} (h : Committed self r)
    (preedit : Preedit) : EngineAction.updatePreedit preedit ∉ r.2 := by
  obtain ⟨text, hactions⟩ := h.actions
  rw [hactions]
  cases self.conversionTrigger <;> simp

/-- A commit satisfies the contract. It leads to a kana mode with nothing pending, which has no
preedit, and it ends with the order to clear the preedit. -/
theorem Committed.drawn {r : SkkEngine δ × List EngineAction} (h : Committed self r)
    (hself : self.Wf) (hphase : self.phase = .selecting s) : Drawn none self r := by
  obtain ⟨⟨dict, hdict, hstate⟩, -⟩ := id h
  have hplain : r.1.phase.isPlain := by rw [hstate]; exact KanaMode.isPlain_toPhase _
  refine ⟨.close ?_ ?_ ?_ ?_ (selection?_of_isPlain hplain) ?_ (fun _ hok => ?_) h.lastPreedit
    ⟨hplain, ?_⟩ h.lastWindow fun p hp => (h.no_preedit p hp).elim, ?_⟩
  · rw [hstate]
    exact ⟨hself.frames, phaseWf_of_isPlain (KanaMode.isPlain_toPhase _)⟩
  · rw [hstate]
    exact ⟨rfl, rfl, rfl, rfl⟩
  · rw [hstate]
    exact hdict
  · rw [hstate]
    exact .inl rfl
  · rw [hstate]
  · rw [hstate]
    exact .of_not_midashi hok (by rw [hphase]; rfl) rfl
  · rw [hstate]
  · rw [Redraws, h.lastPreedit]
    rfl

/-! ### Moving in the list -/

omit [DictionaryProvider δ] in
/-- A focus is in the listing exactly when it has a page. The handlers test the first, and what
is drawn is the second. -/
theorem inListing_eq (self : SkkEngine δ) (candidates : List Candidate) (index : Nat) :
    self.inListing index = (self.pageAt candidates index).isSome := by
  unfold inListing pageAt
  dsimp only
  split
  · rename_i h
    rw [Option.isSome_none, decide_eq_false]
    omega
  · rename_i h
    rw [Option.isSome_some, decide_eq_true]
    omega

omit [DictionaryProvider δ] in
/-- The step back never goes forward, so the position it leads to is still one of the list. -/
theorem previousIndex_le (self : SkkEngine δ) (index : Nat) : self.previousIndex index ≤ index := by
  unfold previousIndex inListing
  dsimp only
  split
  · rename_i h
    have := of_decide_eq_true h
    split <;> omega
  · omega

/-- Another candidate is focused; its page is shown, or the window is hidden when the
focus has left the pages. -/
theorem reselect_runs (hself : self.Wf) (hphase : self.phase = .selecting s) {index : Nat}
    (hindex : index < s.candidates.length) {hide : List EngineAction}
    (hhide : self.pageAt s.candidates index = none →
      hide = [.hideCandidates] ∨ (hide = [] ∧ self.inListing s.index = false)) :
    Runs (do
      let preedit ← { self with phase := .selecting { s with index := index } }.preeditAction
      match ← SkkEngine.listingShowAction { self with
          phase := .selecting { s with index := index } } s.candidates index with
      | some «show» => .ok ({ self with phase := .selecting { s with index := index } },
          [«show», preedit])
      | none => .ok ({ self with phase := .selecting { s with index := index } },
          hide ++ [preedit]))
      (Post none False self) := by
  have hwf := hself.phase_eq hphase
  have hself' : SkkEngine.Wf { self with phase := .selecting { s with index := index } } :=
    ⟨hself.frames, hwf.1, hwf.2.origin_length, hindex, hwf.2.okuri⟩
  obtain ⟨preedit, hbuild, hpreedit, haction⟩ := preeditAction_eq hself'
  have hsel : self.phase.selection? = some s := by rw [hphase]; rfl
  have hcompletion : self.CompletionOk → ∀ self' : SkkEngine δ,
      self'.completion = self.completion → CompletionStep self self' :=
    fun hok _ heq => .of_not_midashi hok (by rw [hphase]; rfl) heq
  have hkeeps := self.keeps_compose (.selecting { s with index := index }) self.kanaState
    self.midashiDisplayMode self.midashiIsAbbrev self.completion
  rw [haction, ok_bind, listingShowAction_eq _ (by omega), ok_bind]
  cases hpage : SkkEngine.pageAt _ s.candidates index with
  | some a =>
      rw [runs_ok]
      obtain ⟨rows, keys, rfl⟩ := pageAt_isShow hpage
      exact .reselect hself' hkeeps hsel rfl rfl (fun _ hok => hcompletion hok _ rfl) rfl hbuild
        (fun b hb => .inr (hpage.trans hb)) (fun h => by cases h)
        (fun p hp => eq_of_mem_window_redraw rfl hp ▸ hpreedit)
  | none =>
      rw [runs_ok]
      rcases hhide hpage with rfl | ⟨rfl, hlisting⟩
      · exact .reselect hself' hkeeps hsel rfl rfl (fun _ hok => hcompletion hok _ rfl) rfl hbuild
          (fun b hb => by cases hb; exact .inl ⟨rfl, hpage⟩) (fun h => by cases h)
          (fun p hp => eq_of_mem_append_redraw (by simp) hp ▸ hpreedit)
      · -- Neither focus is in a page, so there is no window to hide.
        have hbefore : self.page = none := by
          rw [inListing_eq self s.candidates] at hlisting
          rw [page, hphase]
          exact Option.isSome_eq_false_iff.mp hlisting |> Option.isNone_iff_eq_none.mp
        exact .reselect hself' hkeeps hsel rfl rfl (fun _ hok => hcompletion hok _ rfl) rfl hbuild
          (fun b hb => by cases hb) (fun _ => hbefore ▸ hpage)
          (fun p hp => eq_of_mem_append_redraw (by simp) hp ▸ hpreedit)

/-- Back from the selection to its reading. The window is hidden, the trigger of the conversion
is dropped, and the completions are those of the reading again. -/
theorem backToMidashi_post (hself : self.Wf) :
    Runs (self.backToMidashi s) (Post none False self) := by
  have hself' : (SkkEngine.updateCompletion { self with
      phase := .midashi s.midashi [], kanaState := [], conversionTrigger := none }
      s.midashi).Wf := by
    rw [updateCompletion_eq]
    exact ⟨hself.frames, rfl⟩
  obtain ⟨preedit, hbuild, hpreedit, haction⟩ := preeditAction_eq hself'
  simp only [backToMidashi, haction, ok_bind, runs_pure]
  have hmidashi : (SkkEngine.updateCompletion { self with
      phase := .midashi s.midashi [], kanaState := [], conversionTrigger := none }
      s.midashi).phase = .midashi s.midashi [] := by rw [updateCompletion_eq]
  refine .close hself' ?_ ?_ ?_ (by rw [hmidashi]; rfl) ?_
    (fun hδ _ => .of_update hδ hmidashi rfl) rfl hbuild rfl ?_
  · rw [updateCompletion_eq]
    exact ⟨rfl, rfl, rfl, rfl⟩
  · rw [updateCompletion_eq]
  · rw [updateCompletion_eq]
    exact .inl rfl
  · rw [updateCompletion_eq]
  · exact fun p hp => eq_of_mem_window_redraw rfl hp ▸ hpreedit

/-- Behind the last candidate a registration for the reading is opened, on top of those that are
there, and the window is hidden. -/
theorem enterRegisterFromSelecting_post (hself : self.Wf) (hphase : self.phase = .selecting s) :
    Runs (self.enterRegisterFromSelecting s) (Post none False self) := by
  have hs := (hself.phase_eq hphase).2
  have hself' : SkkEngine.Wf { self.pushFrame (self.newFrame s.midashi s.okuriKey s.okuri) with
      conversionTrigger := none } :=
    ⟨(pushFrame_wf hself.frames (newFrame_wf self s.midashi hs.okuri)).frames, trivial⟩
  obtain ⟨preedit, hbuild, hpreedit, haction⟩ := preeditAction_eq hself'
  simp only [enterRegisterFromSelecting, haction, ok_bind, runs_pure]
  refine .close hself' ⟨rfl, rfl, rfl, rfl⟩ .refl (.inr ⟨_, rfl⟩) rfl rfl
    (fun _ hok => .of_not_midashi hok (by rw [hphase]; rfl) rfl) rfl hbuild rfl
    fun p hp => eq_of_mem_window_redraw rfl hp ▸ hpreedit

omit [DictionaryProvider δ] in
/-- A selection key stands for a candidate that is there: the code compares with the length of
the list before it commits. -/
theorem selectedByKey_lt {event : KeyEvent} {candIdx : Nat}
    (h : self.selectedByKey s event = some candIdx) : candIdx < s.candidates.length := by
  unfold selectedByKey at h
  split at h
  · obtain ⟨ch, -, h⟩ := Option.bind_eq_some_iff.mp h
    obtain ⟨selIdx, -, h⟩ := Option.bind_eq_some_iff.mp h
    split at h
    · cases h
      assumption
    · cases h
  · cases h

omit [DictionaryProvider δ] in
/-- The phase of a script is a kana mode. -/
theorem isKana_toPhase (mode : KanaMode) : mode.toPhase.isKana := by cases mode <;> rfl

/-- The cancel key moves back, and from the first candidate to the reading. Where it leaves the
listing the window is hidden with it. -/
theorem selectPrevious_post (hself : self.Wf) (hphase : self.phase = .selecting s) :
    Runs (self.selectPrevious s) (Post none False self) := by
  unfold selectPrevious
  refine Runs.ite (fun _ => ?_) fun _ => ?_
  · exact backToMidashi_post hself
  · have hindex : self.previousIndex s.index < s.candidates.length :=
      Nat.lt_of_le_of_lt (self.previousIndex_le s.index) (hself.phase_eq hphase).2.index_lt
    cases hlisting : self.inListing s.index with
    | true => exact reselect_runs hself hphase hindex fun _ => .inl rfl
    | false => exact reselect_runs hself hphase hindex fun _ => .inr ⟨rfl, hlisting⟩

/-- Space moves on, and from the last candidate to a registration. Moving on never leaves the
listing, so no window has to be hidden for it. -/
theorem selectNext_post (hself : self.Wf) (hphase : self.phase = .selecting s) :
    Runs (self.selectNext s) (Post none False self) := by
  unfold selectNext
  refine Runs.ite (fun _ => ?_) fun hnext => ?_
  · exact enterRegisterFromSelecting_post hself hphase
  · refine reselect_runs hself hphase (by omega) fun hpage => .inr ⟨rfl, ?_⟩
    -- The next index is further down the list, so the page would still be shown.
    have hnone : self.inListing (if self.inListing s.index then
        s.index + self.keybindings.selectionKeys.length else s.index + 1) = false := by
      rw [inListing_eq self s.candidates, hpage]
      rfl
    cases hlisting : self.inListing s.index with
    | false => rfl
    | true =>
        rw [hlisting, if_pos rfl] at hnone
        unfold inListing at hlisting hnone
        have h1 := of_decide_eq_true hlisting
        have h2 := of_decide_eq_false hnone
        omega

/-- A prefix key commits the candidate and starts the reading of a suffix. The reading begins
with `>`, and its preedit is drawn behind the commit. -/
theorem selectAffix_post (hself : self.Wf) (hphase : self.phase = .selecting s) :
    Runs (self.selectAffix s) (Post none False self) := by
  have hs := (hself.phase_eq hphase).2
  refine (commitCandidate_runs hs hs.index_lt).bind fun r hr => ?_
  obtain ⟨⟨dict, hdict, hstate⟩, -⟩ := id hr
  have hmid : SkkEngine.Wf { r.1 with phase := .midashi ['>'] [], kanaState := [] } := by
    rw [hstate]
    exact ⟨hself.frames, rfl⟩
  obtain ⟨preedit, hbuild, hpreedit, haction⟩ := preeditAction_eq hmid
  simp only [haction, ok_bind, runs_pure]
  have hlast : Y2Skk.lastPreedit (r.2 ++ [.updatePreedit preedit])
      = some (.updatePreedit preedit) := by rw [lastPreedit_append]; rfl
  refine .close hmid ?_ ?_ ?_ rfl ?_ (fun _ hok => ?_) hlast hbuild ?_ ?_
  · rw [hstate]
    exact ⟨rfl, rfl, rfl, rfl⟩
  · rw [hstate]
    exact hdict
  · rw [hstate]
    exact .inl rfl
  · rw [hstate]
  · rw [hstate]
    exact .of_not_midashi hok (by rw [hphase]; rfl) rfl
  · rw [lastWindow_append, hr.lastWindow]; rfl
  · exact fun p hp => eq_of_mem_append_redraw hr.no_preedit hp ▸ hpreedit

/-- `X` asks whether the focused candidate is to be purged. The window is hidden while the
question is open. -/
theorem startPurge_post (hself : self.Wf) (hphase : self.phase = .selecting s) :
    Runs (do
      let self := { self with phase := .purgeConfirm s [] self.midashiDisplayMode }
      return (self, [.hideCandidates, ← self.preeditAction])) (Post none False self) := by
  have hwf := hself.phase_eq hphase
  have hself' : SkkEngine.Wf { self with
      phase := .purgeConfirm s [] self.midashiDisplayMode } := ⟨hself.frames, hwf⟩
  obtain ⟨preedit, hbuild, hpreedit, haction⟩ := preeditAction_eq hself'
  simp only [haction, ok_bind, runs_pure]
  exact .reselect hself' (self.keeps_compose _ _ _ _ _) (by rw [hphase]; rfl) rfl rfl
    (fun _ hok => .of_not_midashi hok (by rw [hphase]; rfl) rfl) rfl hbuild
    (fun b hb => by cases hb; exact .inl ⟨rfl, rfl⟩) (fun h => by cases h)
    (fun p hp => eq_of_mem_window_redraw rfl hp ▸ hpreedit)

/-- The key falls through to the last branch of `handleSelecting`: the candidate is
committed and the key handled once more, in the kana mode. -/
def isRedispatched (self : SkkEngine δ) (s : Selection) (event : KeyEvent) : Bool :=
  decide (¬ (event.key = .escape ∨ (event.printableChar.any fun c =>
        decide (c ∈ self.keybindings.cancel)) ∨ event.key = .backSpace ∨
      event.key = .returnKey ∨ (event.key = .char 'j' ∧ event.modifiers.ctrl) ∨
      event.key = .space ∨ (self.selectedByKey s event).isSome ∨
      (event.key = .char 'X' ∧ !event.modifiers.ctrl ∧ !self.inListing s.index) ∨
      event.printableChar.any isAffixChar)) &&
    event.printableChar.isSome && !event.modifiers.ctrl

/-- The state after the focused candidate was committed, in which the key is handled once
more. -/
def afterCommit (self : SkkEngine δ) (s : Selection) : SkkEngine δ :=
  match self.commitCandidate s s.index with
  | .ok r => r.1
  | .error _ => self

/-- The conversion trigger a key types while a candidate is selected. -/
def typedInSelecting (self : SkkEngine δ) (s : Selection) (event : KeyEvent) :
    Option TypedTrigger :=
  if self.isRedispatched s event then (self.afterCommit s).typedInKana event else none

/-- The focused candidate is committed, and the key starts the next input. The contract of the
second half is that of a kana mode, in the state the commit leaves. -/
theorem redispatch_post (hself : self.Wf) (hphase : self.phase = .selecting s)
    {event : KeyEvent} (hredispatched : self.isRedispatched s event) :
    Runs (do
      let (self, actions) ← self.commitCandidate s s.index
      let (self, more) ← self.handleKana event
      .ok (self, actions ++ more)) (Post (self.typedInSelecting s event) False self) := by
  have hs := (hself.phase_eq hphase).2
  have hcommitted : Runs (self.commitCandidate s s.index) (Committed self) :=
    commitCandidate_runs hs hs.index_lt
  obtain ⟨r, hok, hr⟩ := hcommitted
  have hafter : self.afterCommit s = r.1 := by rw [afterCommit, hok]
  rw [typedInSelecting, if_pos hredispatched, hafter, hok, ok_bind]
  obtain ⟨⟨dict, hdict, hstate⟩, -⟩ := id hr
  -- After a commit the engine is in a kana mode with nothing pending.
  have hkana : r.1.phase.isKana := by
    rw [hstate]
    exact isKana_toPhase _
  have hwf : r.1.Wf := by
    rw [hstate]
    exact ⟨hself.frames, phaseWf_of_isKana (isKana_toPhase _) _⟩
  refine (handleKana_post hwf hkana event).bind fun r' hr' => ?_
  rw [runs_ok]
  refine .andThen (hr.drawn hself hphase) ?_ ?_ ?_ (by rw [hphase]; rfl) ?_ hr'
  all_goals rw [hstate]

/-- The handler of the selection, branch by branch: only a key that is handled once more can
type a trigger. -/
theorem handleSelecting_post (hself : self.Wf) (hphase : self.phase = .selecting s)
    (event : KeyEvent) :
    Runs (self.handleSelecting event s) (Post (self.typedInSelecting s event) False self) := by
  have hs := (hself.phase_eq hphase).2
  -- Only a key that is handled once more can type a trigger.
  have hpost : ∀ {x}, Runs x (Post none False self) →
      Runs x (Post (self.typedInSelecting s event) False self) :=
    fun h => h.mono fun _ hr => hr.weaken
  have hcommit : ∀ {index}, index < s.candidates.length → ∀ (more : List EngineAction),
      Y2Skk.lastPreedit more = none → Y2Skk.lastWindow more = none →
      Runs (self.commitCandidate s index >>= fun r => .ok (r.1, r.2 ++ more))
        (Post (self.typedInSelecting s event) False self) := by
    intro index hindex more hpreedit hwindow
    refine (commitCandidate_runs hs hindex).bind fun r hr => ?_
    exact runs_ok.mpr ((hr.drawn hself hphase).append hpreedit hwindow).1.weaken
  have hchoose : ∀ {index}, index < s.candidates.length →
      Runs (self.commitCandidate s index) (Post (self.typedInSelecting s event) False self) := by
    intro index hindex
    exact (commitCandidate_runs hs hindex).mono fun r hr => (hr.drawn hself hphase).1.weaken
  unfold handleSelecting
  refine Runs.ite (fun _ => ?_) fun h1 => Runs.ite (fun _ => ?_) fun h2 => ?_
  · exact hpost (backToMidashi_post hself)
  · exact hpost (selectPrevious_post hself hphase)
  refine Runs.ite (fun _ => ?_) fun h3 => Runs.ite (fun _ => ?_) fun h4 => ?_
  · exact hcommit hs.index_lt _ rfl rfl
  · exact hcommit hs.index_lt _ rfl rfl
  refine Runs.ite (fun _ => ?_) fun h5 => Runs.ite (fun _ => ?_) fun h6 => ?_
  · exact hchoose hs.index_lt
  · exact hpost (selectNext_post hself hphase)
  cases hkey : self.selectedByKey s event with
  | some candIdx => exact hchoose (selectedByKey_lt hkey)
  | none =>
    refine Runs.ite (fun _ => ?_) fun h7 => Runs.ite (fun _ => ?_) fun h8 => ?_
    · exact hpost (startPurge_post hself hphase)
    · exact hpost (selectAffix_post hself hphase)
    refine Runs.ite (fun h9 => ?_) fun _ => ?_
    · -- No branch above has taken the key.
      have hredispatched : self.isRedispatched s event := by
        simp only [isRedispatched, Bool.and_eq_true, decide_eq_true_eq]
        refine ⟨⟨?_, h9.1⟩, h9.2⟩
        rintro (h | h | h | h | h | h | h | h | h)
        · exact h1 h
        · exact h2 h
        · exact h3 h
        · exact h4 h
        · exact h5 h
        · exact h6 h
        · rw [hkey] at h
          cases h
        · exact h7 h
        · exact h8 h
      exact redispatch_post hself hphase hredispatched
    · exact runs_ok.mpr (Post.idle hself rfl rfl).weaken

/-! ### The purge confirmation -/

/-- After `yes` the candidate is purged and a kana mode comes back, the one that was remembered
with the question. -/
theorem executePurge_post {buf : Str} {returnMode : KanaMode} (hself : self.Wf)
    (hphase : self.phase = .purgeConfirm s buf returnMode) :
    Runs self.executePurge (Post none False self) := by
  have hs := (hself.phase_eq hphase).2
  unfold executePurge
  rw [hphase]
  dsimp only
  rw [indexList_eq hs.index_lt, ok_bind, runs_ok]
  have hplain : returnMode.toPhase.isPlain := KanaMode.isPlain_toPhase _
  exact .close ⟨hself.frames, phaseWf_of_isPlain hplain⟩ ⟨rfl, rfl, rfl, rfl⟩
    (.single (.purge _ _ _ _)) (.inl rfl) (selection?_of_isPlain hplain) rfl
    (fun _ hok => .of_not_midashi hok (by rw [hphase]; rfl) rfl) rfl ⟨hplain, rfl⟩ rfl (by simp)

/-- The answer is dropped, and the selection comes back with its page. Nothing of the selection
has changed during the confirmation, so it is reselected at its old index. -/
theorem cancelPurge_post {buf : Str} {returnMode : KanaMode} (hself : self.Wf)
    (hphase : self.phase = .purgeConfirm s buf returnMode) :
    Runs self.cancelPurge (Post none False self) := by
  have hwf := hself.phase_eq hphase
  have hself' : SkkEngine.Wf { self with phase := .selecting s } := ⟨hself.frames, hwf⟩
  obtain ⟨preedit, hbuild, hpreedit, haction⟩ := preeditAction_eq hself'
  unfold cancelPurge
  rw [hphase]
  dsimp only
  rw [listingShowAction_eq self (Nat.le_of_lt hwf.2.index_lt), ok_bind, haction, ok_bind,
    runs_pure]
  have hlast := lastPreedit_showPage { self with phase := .selecting s } preedit
  have hwindow := lastWindow_showPage { self with phase := .selecting s } preedit
  exact .reselect hself' (self.keeps_compose _ _ _ _ _) (by rw [hphase]; rfl) rfl rfl
    (fun _ hok => .of_not_midashi hok (by rw [hphase]; rfl) rfl) hlast hbuild
    (fun b hb => .inr (hwindow.symm.trans hb))
    (fun h => by rw [page, page, hphase]; exact hwindow.symm.trans h)
    (fun p (hp : _ ∈ SkkEngine.showPage { self with phase := .selecting s } preedit) =>
      mem_showPage hp ▸ hpreedit)

/-- The answer is drawn as it is typed, and the selection stays with it. -/
theorem updatePurgeBuf_post {buf : Str} {returnMode : KanaMode} (hself : self.Wf)
    (hphase : self.phase = .purgeConfirm s buf returnMode) (buf' : Str) :
    Runs (self.updatePurgeBuf buf') (Post none False self) := by
  have hwf := hself.phase_eq hphase
  have hself' : SkkEngine.Wf { self with phase := .purgeConfirm s buf' returnMode } :=
    ⟨hself.frames, hwf⟩
  obtain ⟨preedit, hbuild, hpreedit, haction⟩ := preeditAction_eq hself'
  unfold updatePurgeBuf
  rw [hphase]
  refine redraw_runs_iff.mpr ⟨_, haction, ?_⟩
  exact .reselect hself' (self.keeps_compose _ _ _ _ _) (by rw [hphase]; rfl) rfl rfl
    (fun _ hok => .of_not_midashi hok (by rw [hphase]; rfl) rfl) rfl hbuild
    (fun b hb => by cases hb) (fun _ => by rw [page, page, hphase])
    (fun p hp => by cases List.mem_singleton.mp hp; exact hpreedit)

/-- The purge confirmation, branch by branch. The branches without an action leave the state as
it is. -/
theorem handlePurgeConfirm_post {buf : Str} {returnMode : KanaMode} (hself : self.Wf)
    (hphase : self.phase = .purgeConfirm s buf returnMode) (event : KeyEvent) :
    Runs (self.handlePurgeConfirm event buf) (Post none False self) := by
  have hidle : Runs (.ok (self, [])) (Post none False self) :=
    runs_ok.mpr (.idle hself rfl rfl)
  unfold handlePurgeConfirm
  refine Runs.ite (fun _ => ?_) fun _ => Runs.ite (fun _ => ?_) fun _ => ?_
  · refine Runs.ite (fun _ => ?_) fun _ => Runs.ite (fun _ => ?_) fun _ => hidle
    · exact executePurge_post hself hphase
    · exact cancelPurge_post hself hphase
  · exact updatePurgeBuf_post hself hphase _
  · split
    · exact Runs.ite (fun _ => updatePurgeBuf_post hself hphase _) fun _ => hidle
    · exact hidle

end Selecting

/-! ### Dispatch -/

/-- The conversion trigger a key types, in any phase. -/
def typedTrigger (self : SkkEngine δ) (event : KeyEvent) : Option TypedTrigger :=
  match self.phase with
  | .hiragana | .katakana | .halfWidthKatakana => self.typedInKana event
  | .midashi kanaBuf romanBuf => self.typedInMidashi redispatchFuel event kanaBuf romanBuf
  | .selecting s => self.typedInSelecting s event
  | _ => none

/-- The phase handler drops pending romaji without drawing. -/
def dropsRomaji (self : SkkEngine δ) (event : KeyEvent) : Bool :=
  self.phase.isKana && isDroppedCtrl event

/-- Whatever the phase, its handler satisfies the contract. Only the kana modes, a reading and a
selection can type a trigger, and only the kana modes drop romaji in silence. -/
theorem dispatch_post [EucJp] {self : SkkEngine δ} (hself : self.Wf) (event : KeyEvent) :
    Runs (self.dispatch event)
      (Post (self.typedTrigger event) (self.dropsRomaji event) self) := by
  -- The three kana modes have one handler.
  have hkana : self.phase.isKana → self.typedTrigger event = self.typedInKana event →
      Runs (self.handleKana event)
        (Post (self.typedTrigger event) (self.dropsRomaji event) self) := by
    intro hphase htyped
    rw [htyped, dropsRomaji, hphase, Bool.true_and]
    exact handleKana_post hself hphase event
  have hweaken : ∀ {x}, Runs x (Post none False self) →
      Runs x (Post (self.typedTrigger event) (self.dropsRomaji event) self) :=
    fun h => h.mono fun _ hr => hr.weaken
  unfold dispatch
  cases hphase : self.phase with
  | ascii => exact hweaken (handleAscii_post hself hphase event)
  | wideAscii => exact hweaken (handleWideAscii_post hself hphase event)
  | codeInput codePrefix buf => exact hweaken (handleCodeInput_post hself hphase event)
  | «abbrev» buf => exact hweaken (handleAbbrev_post hself hphase event)
  | okuri midashi okuriPrefix kanaBuf =>
      exact hweaken ((handleOkuri_post hself hphase event).mono fun _ hr => hr.1)
  | purgeConfirm s buf returnMode => exact hweaken (handlePurgeConfirm_post hself hphase event)
  | hiragana =>
      exact hkana (by rw [hphase]; rfl) (by rw [typedTrigger, hphase])
  | katakana =>
      exact hkana (by rw [hphase]; rfl) (by rw [typedTrigger, hphase])
  | halfWidthKatakana =>
      exact hkana (by rw [hphase]; rfl) (by rw [typedTrigger, hphase])
  | midashi kanaBuf romanBuf =>
      have htyped : self.typedTrigger event
          = self.typedInMidashi redispatchFuel event kanaBuf romanBuf := by
        rw [typedTrigger, hphase]
      rw [htyped]
      -- `redispatchFuel` covers the character handed back.
      refine (handleMidashi_post redispatchFuel hself hphase (by decide) (fun _ => by decide)
        event).mono fun r hr => ?_
      exact { hr.1 with silent := fun h => (hr.1.silent h).imp_right fun hd => hd.1.elim }
  | selecting s =>
      have htyped : self.typedTrigger event = self.typedInSelecting s event := by
        rw [typedTrigger, hphase]
      rw [htyped]
      exact (handleSelecting_post hself hphase event).mono fun r hr =>
        { hr with silent := fun h => (hr.silent h).imp_right fun hd => hd.1.elim }

end SkkEngine

end Y2Skk
