import Y2Skk.Proofs.Paging
import Y2Skk.Proofs.Reading

/-!
# `Y2Skk.Proofs.SelectionKeys`: a selection key commits the row it labels

In the listing a page is shown with one label per row. The rows and the labels are cut out
in `listing_show_action`, and the press of a label is turned back into a candidate in
`handle_selecting`, behind the checks for other keys.

## Rows and labels

* `listingShowAction_rows`: the rows and the labels of a page. There are as many of one as
  of the other, and never more than there are selection keys.
* `selectedByKey_label`, `selectedByKey_beyond`: the candidate a configured key stands
  for. A label stands for the row at its position, and a selection key beyond the rows for
  none.

## What a press does

`commitRow` is a row committed as its origin says: the text goes to the application or
into a registration, and the template it was made from is learned (`RowCommitted`).

* `selectionKey_commits`: a label commits its row. Any other selection key commits the
  first row and goes on to the kana mode; `>`, `<` and `?` start a suffix instead.
* `selectionKey_exceptions`: beyond the rows the prefix key `>` does not go on to the kana
  mode, and a label that is a toggle key commits nothing.

The space bar has a key of its own, which turns the page. So a blank among the selection
keys is a label that cannot be typed as one, and `selectionKey_commits` asks that there is
none.
-/

set_option autoImplicit false

namespace Y2Skk

open Outcome Utf8

namespace SkkEngine

variable {δ : Type} [DictionaryProvider δ] {self : SkkEngine δ} {s : Selection}

/-! ### Rows and labels -/

section Labels
variable {rows : List Candidate} {focused : Nat} {labels : Str}

omit [DictionaryProvider δ] in
/-- A page is a cut of the candidates, with as many of the selection keys: the rows from the
focused one on, as many as there are keys. -/
theorem listingShowAction_rows (hindex : s.index < s.candidates.length)
    (hpage : self.listingShowAction s.candidates s.index =
      .ok (some (.showCandidates rows focused labels))) :
    self.inListing s.index ∧
      rows = (s.candidates.drop s.index).take self.keybindings.selectionKeys.length ∧
      labels = self.keybindings.selectionKeys.take rows.length ∧
      labels.length = rows.length := by
  rw [listingShowAction_eq self (by omega), pageAt_eq, stride] at hpage
  by_cases hlisting : self.inListing s.index
  · rw [if_pos hlisting, if_pos hlisting] at hpage
    cases hpage
    refine ⟨hlisting, rfl, rfl, ?_⟩
    rw [List.length_take, List.length_take]
    omega
  · rw [if_neg hlisting] at hpage
    cases hpage

omit [DictionaryProvider δ] in
/-- A row is a candidate of the selection, at the position of the row counted from the focus. -/
theorem getElem?_rows (hrows : rows = (s.candidates.drop s.index).take
    self.keybindings.selectionKeys.length) {i : Nat} {row : Candidate}
    (hrow : rows[i]? = some row) :
    i < self.keybindings.selectionKeys.length ∧ s.candidates[s.index + i]? = some row := by
  rw [hrows, List.getElem?_take] at hrow
  split at hrow
  · rename_i hi
    rw [List.getElem?_drop] at hrow
    exact ⟨hi, hrow⟩
  · cases hrow

omit [DictionaryProvider δ] in
/-- A selection key stands for the row at its position, when there is one. With keys that occur
twice it is the first position that counts. -/
theorem selectedByKey_eq (hlisting : self.inListing s.index) {k : Char}
    (hk : k ∈ self.keybindings.selectionKeys) :
    self.selectedByKey s (.press (.char k) {}) =
      if s.index + self.keybindings.selectionKeys.idxOf k < s.candidates.length then
        some (s.index + self.keybindings.selectionKeys.idxOf k)
      else none := by
  have hfound : self.keybindings.selectionKeys.findIdx? (fun c => decide (c = k))
      = some (self.keybindings.selectionKeys.idxOf k) := by
    rw [List.findIdx?_eq_some_of_exists ⟨k, hk, by simp⟩]
    rfl
  unfold selectedByKey
  rw [if_pos hlisting]
  simp only [KeyEvent.printableChar, KeyEvent.press, bind, Option.bind, hfound]

end Labels

/-! ### What a row is committed as -/

/-- The dictionaries have learned the row, as the template it was made from. -/
def learnRow (self : SkkEngine δ) (s : Selection) (row : Candidate) :
    CandidateOrigin → SkkEngine δ
  | .dict templateMidashi templateWord =>
      self.learnAll ⟨templateMidashi, s.okuriKey, [⟨templateWord, row.annotation, none⟩]⟩
  | .synthetic => self

/-- A row of this origin is committed, with the okurigana and the pending trigger. -/
def commitRow (self : SkkEngine δ) (s : Selection) (row : Candidate) (origin : CandidateOrigin) :
    SkkEngine δ × List EngineAction :=
  ({ self.learnRow s row origin with
      phase := self.midashiDisplayMode.toPhase, kanaState := [], conversionTrigger := none },
    [.hideCandidates, .commit (row.word ++ s.okuri.getD []), .clearPreedit]
      ++ (self.conversionTrigger.map EngineAction.commit).toList)

/-- Committing a candidate is committing its row with its origin. -/
theorem commitCandidate_eq {index : Nat} {row : Candidate} {origin : CandidateOrigin}
    (hrow : s.candidates[index]? = some row) (horigin : s.origin[index]? = some origin) :
    self.commitCandidate s index = .ok (self.commitRow s row origin) := by
  unfold commitCandidate learnEntry
  rw [indexList, hrow, horigin]
  cases origin <;> rfl

/-- What came of a committed row: its text went to the application or into the registration,
its template was learned, and the window is hidden. -/
structure RowCommitted (self : SkkEngine δ) (s : Selection) (row : Candidate)
    (origin : CandidateOrigin) (r : SkkEngine δ × List EngineAction) : Prop where
  sends : Sends self (row.word ++ s.okuri.getD [] ++ self.conversionTrigger.getD []) r.1 r.2
  learned : r.1.dict = (self.learnRow s row origin).dict
  hidden : lastWindow r.2 = some .hideCandidates

/-- After the first row was committed, `>`, `<` and `?` start the reading of a suffix. Any
other key is handled as in the kana mode. -/
def afterRow (event : KeyEvent) (k : Char) (r : SkkEngine δ × List EngineAction) :
    Partial (SkkEngine δ × List EngineAction) :=
  if isAffixChar k then do
    let self := { r.1 with phase := .midashi ['>'] [], kanaState := [] }
    let preedit ← self.preeditAction
    .ok (self, r.2 ++ [preedit])
  else do
    let more ← r.1.handleKana event
    .ok (more.1, r.2 ++ more.2)

/-! ### The press of a selection key -/

section Handler
variable {k : Char}

/-- Behind the checks for the other keys. In a listing the character is looked up among the
labels of the page. A selection key beyond the rows commits the first row, and goes on as an
affix or as a character of the kana mode. -/
theorem handleSelecting_selectionKey (hcancel : k ∉ self.keybindings.cancel)
    (hlisting : self.inListing s.index) : self.handleSelecting (.press (.char k) {}) s =
      match self.selectedByKey s (.press (.char k) {}) with
      | some candIdx => self.commitCandidate s candIdx
      | none => self.commitCandidate s s.index >>= afterRow (.press (.char k) {}) k := by
  -- The key is no Escape, no cancel key, and none of the keys with a branch of their own.
  have hchar : KeyEvent.printableChar (.press (.char k) {}) = some k := rfl
  unfold handleSelecting
  rw [if_neg (by simp [KeyEvent.press]), if_neg (by simpa [hchar] using hcancel),
    if_neg (by simp [KeyEvent.press]), if_neg (by simp [KeyEvent.press]),
    if_neg (by simp [KeyEvent.press]), if_neg (by simp [KeyEvent.press])]
  cases self.selectedByKey s (.press (.char k) {}) with
  | some candIdx => rfl
  | none =>
      dsimp only
      rw [if_neg (by simp [hlisting])]
      by_cases haffix : isAffixChar k
      · rw [if_pos (by simpa [hchar] using haffix)]
        have hafter : afterRow (δ := δ) (.press (.char k) {}) k = _ :=
          funext fun r => if_pos haffix
        rw [hafter]
        rfl
      · have hplain : (KeyEvent.printableChar (.press (.char k) {})).isSome ∧
            !(KeyEvent.press (.char k) {}).modifiers.ctrl := ⟨rfl, rfl⟩
        have hafter : afterRow (δ := δ) (.press (.char k) {}) k = _ :=
          funext fun r => if_neg haffix
        rw [if_neg (by simpa [hchar] using haffix), if_pos hplain, hafter]

end Handler

/-! ### The commit of a row, in and outside of a registration -/

section Committed
variable {row : Candidate} {origin : CandidateOrigin}

/-- Learning touches no registration. -/
theorem learnRow_registerStack (self : SkkEngine δ) (s : Selection) (row : Candidate)
    (origin : CandidateOrigin) :
    (self.learnRow s row origin).registerStack = self.registerStack := by
  cases origin <;> rfl

/-- A committed row keeps the invariant. -/
theorem commitRow_wf (hself : self.Wf) (s : Selection) (row : Candidate)
    (origin : CandidateOrigin) : (self.commitRow s row origin).1.Wf := by
  refine ⟨?_, phaseWf_of_isPlain (KanaMode.isPlain_toPhase _)⟩
  show ∀ frame ∈ (self.learnRow s row origin).registerStack, frame.Wf
  rw [learnRow_registerStack]
  exact hself.frames

/-- The actions of a committed row draw: the window goes, and the preedit is cleared. -/
theorem commitRow_redraws (self : SkkEngine δ) (s : Selection) (row : Candidate)
    (origin : CandidateOrigin) : RedrawsText (self.commitRow s row origin).2 := by
  constructor
  · rfl
  · unfold commitRow
    cases self.conversionTrigger <;> simp

/-- The text of a committed row. -/
theorem committedText_commitRow (self : SkkEngine δ) (s : Selection) (row : Candidate)
    (origin : CandidateOrigin) : committedText (self.commitRow s row origin).2 =
      row.word ++ s.okuri.getD [] ++ self.conversionTrigger.getD [] := by
  unfold commitRow
  cases self.conversionTrigger <;> simp [committedText]

/-- A registration keeps the window action, and draws. So the window is hidden by the commit of
a row inside a registration and outside. -/
theorem conclude_commitRow_window (hself : self.Wf) :
    Yields (conclude (self.commitRow s row origin)) fun r =>
      lastWindow r.2 = some .hideCandidates := by
  have hwf := commitRow_wf hself s row origin
  cases hstack : (self.commitRow s row origin).1.registerStack with
  | nil =>
      rw [conclude_nil hstack, yields_ok]
      unfold commitRow
      cases self.conversionTrigger <;> rfl
  | cons frame frames =>
      obtain ⟨frame', hinsert, hframe'⟩ :=
        insert_ok hwf hstack (committedText (self.commitRow s row origin).2)
      rw [conclude_cons (by simp [hstack]),
        interceptForRegister_eq hwf hstack (commitRow_redraws self s row origin) hinsert]
      refine (preeditAction_yields _).bind ?_
      rintro _ ⟨preedit, rfl⟩
      rw [yields_ok]
      unfold commitRow
      cases self.conversionTrigger <;> rfl

/-- Delivered to the application or to the registration, the row is committed. The text arrives,
the dictionaries have learned the row, and the window is hidden; the status update behind it
changes none of this. -/
theorem conclude_commitRow (hself : self.Wf) (s : Selection) (row : Candidate)
    (origin : CandidateOrigin) : ∃ r, conclude (self.commitRow s row origin) = .ok r ∧
      RowCommitted self s row origin (withStatus self.currentModeIndicator r) := by
  have hwf := commitRow_wf hself s row origin
  obtain ⟨r, hr, -⟩ := conclude_runs hwf
  refine ⟨r, hr, ?_⟩
  have hsends := conclude_sends hwf (isKana_toPhase _)
    (learnRow_registerStack self s row origin) (commitRow_redraws self s row origin) r hr
  have hwindow := conclude_commitRow_window hself r hr
  obtain ⟨stack, -, hstate⟩ := conclude_yields _ r hr
  have hdict : r.1.dict = (self.learnRow s row origin).dict := by
    rw [hstate]
    rfl
  rw [committedText_commitRow] at hsends
  unfold withStatus
  split
  · have hstatus : IsStatus [.updateStatus r.1.currentModeIndicator] := .inr ⟨_, rfl⟩
    exact ⟨hsends _ hstatus, hdict, hstatus.lastWindow_append.trans hwindow⟩
  · have hnone := hsends [] (.inl rfl)
    rw [List.append_nil] at hnone
    exact ⟨hnone, hdict, hwindow⟩

end Committed

/-! ### Every run -/

section Run
variable [EucJp] {rows : List Candidate} {focused : Nat} {labels : Str}

omit [DictionaryProvider δ] [EucJp] in
/-- A label stands for the row at its own position. The selection keys are distinct, so the
position of the key among them is that of the label on the page. -/
theorem selectedByKey_label (hindex : s.index < s.candidates.length)
    (hpage : self.listingShowAction s.candidates s.index =
      .ok (some (.showCandidates rows focused labels)))
    (hdistinct : self.keybindings.selectionKeys.Nodup) {i : Nat} {row : Candidate} {k : Char}
    (hrow : rows[i]? = some row) (hlabel : labels[i]? = some k) :
    k ∈ self.keybindings.selectionKeys ∧
      self.selectedByKey s (.press (.char k) {}) = some (s.index + i) ∧
      s.candidates[s.index + i]? = some row := by
  obtain ⟨hlisting, hrows, hlabels, -⟩ := listingShowAction_rows hindex hpage
  obtain ⟨hi, hcandidate⟩ := getElem?_rows hrows hrow
  have hkey : self.keybindings.selectionKeys[i] = k := by
    rw [hlabels, List.getElem?_take] at hlabel
    split at hlabel
    · rw [List.getElem?_eq_getElem hi] at hlabel
      exact Option.some.inj hlabel
    · cases hlabel
  have hmem : k ∈ self.keybindings.selectionKeys := hkey ▸ List.getElem_mem hi
  -- Distinct keys: the label's first position is the position of its row.
  have hidx : self.keybindings.selectionKeys.idxOf k = i := by
    rw [← hkey]
    exact hdistinct.idxOf_getElem i hi
  have hlt : s.index + i < s.candidates.length := (List.getElem?_eq_some_iff.mp hcandidate).1
  refine ⟨hmem, ?_, hcandidate⟩
  rw [selectedByKey_eq hlisting hmem, hidx, if_pos hlt]

omit [DictionaryProvider δ] [EucJp] in
/-- A selection key that labels nothing selects nothing: its position is not less than the
number of rows, so the page is the last one and the candidates end before it. -/
theorem selectedByKey_beyond (hindex : s.index < s.candidates.length)
    (hpage : self.listingShowAction s.candidates s.index =
      .ok (some (.showCandidates rows focused labels)))
    {k : Char} (hk : k ∈ self.keybindings.selectionKeys) (hnone : k ∉ labels) :
    self.selectedByKey s (.press (.char k) {}) = none := by
  obtain ⟨hlisting, hrows, hlabels, -⟩ := listingShowAction_rows hindex hpage
  have hlen : rows.length ≤ self.keybindings.selectionKeys.idxOf k := by
    rw [hlabels, List.mem_take_iff_idxOf_lt hk] at hnone
    omega
  have hlt := List.idxOf_lt_length_of_mem hk
  have hcut : rows.length
      = min self.keybindings.selectionKeys.length (s.candidates.length - s.index) := by
    rw [hrows, List.length_take, List.length_drop]
  rw [selectedByKey_eq hlisting hk, if_neg (by omega)]

/-- The key that types a character. The space bar has a key of its own, so that a blank among the
selection keys would be the key that turns the page. -/
def keyOf (c : Char) : Key := if c = ' ' then .space else .char c

omit [EucJp] in
/-- Every other character is typed as itself. -/
theorem keyOf_eq {c : Char} (h : c ≠ ' ') : keyOf c = .char c := if_neg h

/-- In every run: a page has one label per row. Typing a label commits its row, and typing any
other selection key commits the first row before the key goes on. The selection keys are distinct
and hold neither a blank nor a cancel key. -/
theorem selectionKey_commits {kanaTable : KanaTable} {keybindings : SkkKeybindings}
    {lispDirectives : Bool} {initialPhase : SkkPhase} {providers : List δ} {history : History δ}
    (hrun : Session (fresh kanaTable keybindings lispDirectives initialPhase providers)
      history self)
    (hphase : self.phase = .selecting s)
    (hpage : self.listingShowAction s.candidates s.index =
      .ok (some (.showCandidates rows focused labels)))
    (hdistinct : self.keybindings.selectionKeys.Nodup)
    (hspace : ' ' ∉ self.keybindings.selectionKeys)
    (hcancel : ∀ k ∈ self.keybindings.selectionKeys, k ∉ self.keybindings.cancel) :
    labels.length = rows.length ∧
    (∀ (i : Nat) (row : Candidate) (k : Char), rows[i]? = some row → labels[i]? = some k →
      ∃ origin, s.candidates[s.index + i]? = some row ∧ s.origin[s.index + i]? = some origin ∧
        self.handleSelecting (.press (keyOf k) {}) s = .ok (self.commitRow s row origin) ∧
        (self.cooks (.press (keyOf k) {}) → self.reachesHandler (.press (keyOf k) {}) →
          Runs (self.processKey (.press (keyOf k) {})) (RowCommitted self s row origin))) ∧
    ∀ k ∈ self.keybindings.selectionKeys, k ∉ labels →
      ∃ row origin, rows[0]? = some row ∧ s.candidates[s.index]? = some row ∧
        s.origin[s.index]? = some origin ∧
        self.handleSelecting (.press (keyOf k) {}) s =
          afterRow (.press (keyOf k) {}) k (self.commitRow s row origin) ∧
        (self.cooks (.press (keyOf k) {}) → self.reachesHandler (.press (keyOf k) {}) →
          self.processKey (.press (keyOf k) {}) = (do
            let r ← afterRow (.press (keyOf k) {}) k (self.commitRow s row origin)
            let r ← conclude r
            .ok (withStatus self.currentModeIndicator r))) := by
  have hself : self.Wf := Session.wf (fresh_wf ..) hrun
  have hs : s.Wf := (hself.phase_eq hphase).2
  obtain ⟨hlisting, hrows, -, hlength⟩ := listingShowAction_rows hs.index_lt hpage
  have horigins : ∀ {i : Nat}, i < s.candidates.length → ∃ origin, s.origin[i]? = some origin :=
    fun hi => ⟨_, List.getElem?_eq_getElem (hs.origin_length ▸ hi)⟩
  -- a blank would come as the space key, which turns the page
  have hkeyOf : ∀ k ∈ self.keybindings.selectionKeys, keyOf k = .char k :=
    fun k hk => keyOf_eq fun hblank => hspace (hblank ▸ hk)
  refine ⟨hlength, fun i row k hrow hlabel => ?_, fun k hk hnone => ?_⟩
  · obtain ⟨hk, hselected, hcandidate⟩ :=
      selectedByKey_label hs.index_lt hpage hdistinct hrow hlabel
    rw [hkeyOf k hk]
    obtain ⟨origin, horigin⟩ := horigins (List.getElem?_eq_some_iff.mp hcandidate).1
    have hhandled : self.handleSelecting (.press (.char k) {}) s
        = .ok (self.commitRow s row origin) := by
      rw [handleSelecting_selectionKey (hcancel k hk) hlisting, hselected]
      exact commitCandidate_eq hcandidate horigin
    refine ⟨origin, hcandidate, horigin, hhandled, fun hcooks hreaches => ?_⟩
    obtain ⟨r, hr, hcommitted⟩ := conclude_commitRow hself s row origin
    rw [processKey_handler hcooks hreaches, dispatch_selecting hphase, hhandled, ok_bind, hr,
      ok_bind]
    exact runs_ok.mpr hcommitted
  · rw [hkeyOf k hk]
    obtain ⟨row, hcandidate⟩ : ∃ row, s.candidates[s.index]? = some row :=
      ⟨_, List.getElem?_eq_getElem hs.index_lt⟩
    obtain ⟨origin, horigin⟩ := horigins hs.index_lt
    have hfirst : rows[0]? = some row := by
      have hpos := List.length_pos_of_mem hk
      rw [hrows, List.getElem?_take, if_pos hpos, List.getElem?_drop, Nat.add_zero, hcandidate]
    have hhandled : self.handleSelecting (.press (.char k) {}) s =
        afterRow (.press (.char k) {}) k (self.commitRow s row origin) := by
      rw [handleSelecting_selectionKey (hcancel k hk) hlisting,
        selectedByKey_beyond hs.index_lt hpage hk hnone]
      dsimp only
      rw [commitCandidate_eq hcandidate horigin]
      rfl
    refine ⟨row, origin, hfirst, hcandidate, horigin, hhandled, fun hcooks hreaches => ?_⟩
    rw [processKey_handler hcooks hreaches, dispatch_selecting hphase, hhandled]

end Run

/-- Every candidate is listed, and `>` is the second label. -/
def affixKeybindings : SkkKeybindings := { inlineCount := 0, selectionKeys := ['a', '>'] }

/-- One word under the reading. -/
def singleDict : FileDict where
  entries := OrdMap.empty.insert ['あ'] (OrdMap.empty.insert none [.new ['亜']])
  priority := 0

/-- A press that commits the row and goes on to the kana mode, whatever the key is. -/
def rowThenKana [EucJp] (self : SkkEngine δ) (s : Selection) (row : Candidate)
    (origin : CandidateOrigin) (event : KeyEvent) : Partial (SkkEngine δ × List EngineAction) := do
  let r := self.commitRow s row origin
  let more ← r.1.handleKana event
  let r ← conclude (more.1, r.2 ++ more.2)
  .ok (withStatus self.currentModeIndicator r)

/-- Two selection keys do something else. Beyond the rows, `>` commits the first row and does
not go on to the kana mode; and a label that is a toggle key commits nothing. So a statement
about all selection keys has to name these two kinds. -/
theorem selectionKey_exceptions :
    letI := EucJp.empty
    (∃ (history : History FileDict) (self : SkkEngine FileDict) (s : Selection),
      Session (fresh vowelTable affixKeybindings true .hiragana [singleDict]) history self ∧
      self.phase = .selecting s ∧
      self.listingShowAction s.candidates s.index =
        .ok (some (.showCandidates [.new ['亜']] 0 ['a'])) ∧
      s.origin[s.index]? = some (.dict ['あ'] ['亜']) ∧
      self.processKey (.press (.char '>') {}) ≠
        self.rowThenKana s (.new ['亜']) (.dict ['あ'] ['亜']) (.press (.char '>') {})) ∧
    ∃ (history : History FileDict) (self : SkkEngine FileDict) (s : Selection)
      (r : SkkEngine FileDict × List EngineAction),
      Session (fresh vowelTable { affixKeybindings with toggleKeys := [(.char 'a', {})] } true
        .hiragana [singleDict]) history self ∧
      self.phase = .selecting s ∧
      self.listingShowAction s.candidates s.index =
        .ok (some (.showCandidates [.new ['亜']] 0 ['a'])) ∧
      self.processKey (.press (.char 'a') {}) = .ok r ∧ committedText r.2 = [] := by
  let _ := EucJp.empty
  constructor
  · have hrecord := exists_session (fresh vowelTable affixKeybindings true .hiragana [singleDict])
      [.press (.char 'A') {}, .press .space {}] (fun _ (self : SkkEngine FileDict) =>
        self.phase = .selecting ⟨['あ'], none, none, [.new ['亜']], [.dict ['あ'] ['亜']], 0⟩ ∧
        (∃ page ∈ (self.listingShowAction [.new ['亜']] 0).toOption,
          page = some (.showCandidates [.new ['亜']] 0 ['a'])) ∧
        (∃ r ∈ (self.processKey (.press (.char '>') {})).toOption,
          r.1.phase = .midashi ['>'] []) ∧
        ∃ r ∈ (self.rowThenKana ⟨['あ'], none, none, [.new ['亜']], [.dict ['あ'] ['亜']], 0⟩
            (.new ['亜']) (.dict ['あ'] ['亜']) (.press (.char '>') {})).toOption,
          r.1.phase = .hiragana)
      (by decide +kernel)
    -- The two outcomes differ in their phases: the reading of a suffix, and Hiragana.
    obtain ⟨history, self, hrun, -, hphase, ⟨page, hpage, rfl⟩, ⟨r, hr, hsuffix⟩, r', hr', hkana⟩ :=
      hrecord
    refine ⟨history, self, _, hrun, hphase, ok_of_mem_toOption hpage, rfl, fun hsame => ?_⟩
    rw [ok_of_mem_toOption hr, ok_of_mem_toOption hr'] at hsame
    cases hsame
    rw [hkana] at hsuffix
    cases hsuffix
  · have hrecord := exists_session (fresh vowelTable { affixKeybindings with
        toggleKeys := [(.char 'a', {})] } true .hiragana [singleDict])
      [.press (.char 'A') {}, .press .space {}] (fun _ (self : SkkEngine FileDict) =>
        self.phase = .selecting ⟨['あ'], none, none, [.new ['亜']], [.dict ['あ'] ['亜']], 0⟩ ∧
        (∃ page ∈ (self.listingShowAction [.new ['亜']] 0).toOption,
          page = some (.showCandidates [.new ['亜']] 0 ['a'])) ∧
        ∃ r ∈ (self.processKey (.press (.char 'a') {})).toOption, committedText r.2 = [])
      (by decide +kernel)
    obtain ⟨history, self, hrun, -, hphase, ⟨page, hpage, rfl⟩, r, hr, htext⟩ := hrecord
    exact ⟨history, self, _, r, hrun, hphase, ok_of_mem_toOption hpage, ok_of_mem_toOption hr,
      htext⟩

/-- Pages of up to three rows behind the first candidate. -/
def threeRowKeybindings : SkkKeybindings := { inlineCount := 1, selectionKeys := ['a', 's', 'd'] }

/-- The second of two rows is committed by the second label, and the third selection key commits
the first row and goes on. There are three selection keys on a page of two rows. -/
theorem selectionKey_commits_second :
    letI := EucJp.empty
    ∃ (history : History FileDict) (self : SkkEngine FileDict) (s : Selection),
      Session (fresh vowelTable threeRowKeybindings true .hiragana [pagedDict]) history self ∧
      self.phase = .selecting s ∧ s.index = 1 ∧
      Runs (self.processKey (.press (.char 's') {}))
        (RowCommitted self s (.new ['唖']) (.dict ['あ'] ['唖'])) ∧
      self.handleSelecting (.press (.char 'd') {}) s =
        afterRow (.press (.char 'd') {}) 'd'
          (self.commitRow s (.new ['阿']) (.dict ['あ'] ['阿'])) := by
  let _ := EucJp.empty
  have hrecord := exists_session (fresh vowelTable threeRowKeybindings true .hiragana [pagedDict])
    [.press (.char 'A') {}, .press .space {}, .press .space {}]
    (fun _ (self : SkkEngine FileDict) =>
      self.phase = .selecting ⟨['あ'], none, none, [.new ['亜'], .new ['阿'], .new ['唖']],
        [.dict ['あ'] ['亜'], .dict ['あ'] ['阿'], .dict ['あ'] ['唖']], 1⟩ ∧
      (∃ page ∈ (self.listingShowAction [.new ['亜'], .new ['阿'], .new ['唖']] 1).toOption,
        page = some (.showCandidates [.new ['阿'], .new ['唖']] 0 ['a', 's'])) ∧
      self.keybindings.selectionKeys = ['a', 's', 'd'] ∧ self.keybindings.cancel = ['x'] ∧
      self.cooks (.press (.char 's') {}) ∧ self.reachesHandler (.press (.char 's') {}))
    (by decide +kernel)
  obtain ⟨history, self, hrun, -, hphase, ⟨page, hpage, rfl⟩, hkeys, hcancel, hcooks, hreaches⟩ :=
    hrecord
  have hcommits := selectionKey_commits hrun hphase (ok_of_mem_toOption hpage)
    (by simp [hkeys]) (by simp [hkeys]) (by simp [hkeys, hcancel])
  refine ⟨history, self, _, hrun, hphase, rfl, ?_, ?_⟩
  · obtain ⟨origin, -, horigin, -, hpress⟩ := hcommits.2.1 1 (.new ['唖']) 's' rfl rfl
    cases horigin
    exact hpress hcooks hreaches
  · obtain ⟨row, origin, hrow, -, horigin, hpress, -⟩ :=
      hcommits.2.2 'd' (by simp [hkeys]) (by decide)
    cases hrow
    cases horigin
    exact hpress

end SkkEngine

end Y2Skk
