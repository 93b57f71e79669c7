import Y2Skk.Proofs.Stack

/-!
# `Y2Skk.Proofs.Purge`: purging a candidate

`Return` after `yes` in the purge confirmation calls `purge` on every provider, with the
concrete reading, the okurigana kana and the word on display. A candidate was looked up
under its template reading and the okurigana key, as its template word.

## What a purge does

* `purgedOnly_iff` is about one dictionary: when does a purge of one word under one bucket
  leave it as if another word had been purged under another bucket? Either the two agree
  where it matters, or neither of them finds anything.
* `dict_of_purge` is about the engine: which word and which bucket the purge asks for. The
  dictionaries of the state after the key are those before it, each after that purge.

## When it is the right one

`purge_iff` puts the two together. It says when the words and buckets agree: exactly when
the candidate is gone from the user dictionary afterwards and nothing else has changed. A
reading with okurigana or with digits is where they differ.
-/

set_option autoImplicit false

namespace Y2Skk

open Outcome Utf8 Transition

/-- The bucket has `word` as a plain word, not as a form of a directive. -/
def UserDict.HasPlain (dict : UserDict) (midashi : Str) (okuri : Option Str) (word : Str) : Prop :=
  ∃ c ∈ dict.bucket midashi okuri, c.lispForm = none ∧ c.word = word

/-- `word` is gone from the bucket, and the other buckets are unchanged. -/
def PurgedOnly (dict dict' : UserDict) (midashi : Str) (okuri : Option Str) (word : Str) : Prop :=
  ¬ dict'.HasPlain midashi okuri word ∧
    ∀ midashi' okuri', ¬ (midashi' = midashi ∧ okuri' = okuri) →
      dict'.bucket midashi' okuri' = dict.bucket midashi' okuri'

/-- When a purge of `word` under (`midashi`, `okuri`) purges just the plain word `templateWord`
under (`templateMidashi`, `okuriKey`): it is the same bucket and the word is purged, or it is
another one and there is nothing to purge in either. -/
theorem purgedOnly_iff (dict : UserDict) (midashi : Str) (okuri : Option Str) (word : Str)
    (templateMidashi : Str) (okuriKey : Option Str) (templateWord : Str) :
    PurgedOnly dict (dict.purge midashi okuri word).1 templateMidashi okuriKey templateWord ↔
      if templateMidashi = midashi ∧ okuriKey = okuri then
        templateWord = word ∨ ¬ dict.HasPlain templateMidashi okuriKey templateWord
      else ¬ dict.HasPlain templateMidashi okuriKey templateWord ∧
        ∀ c ∈ dict.bucket midashi okuri, c.word ≠ word := by
  unfold PurgedOnly UserDict.HasPlain
  simp only [UserDict.bucket_purge]
  by_cases hsame : templateMidashi = midashi ∧ okuriKey = okuri
  · obtain ⟨rfl, rfl⟩ := hsame
    rw [if_pos ⟨rfl, rfl⟩, if_pos ⟨rfl, rfl⟩]
    -- A purge of the very bucket leaves the other buckets alone.
    have hframe : ∀ midashi' okuri', ¬ (midashi' = templateMidashi ∧ okuri' = okuriKey) →
        (if midashi' = templateMidashi ∧ okuri' = okuriKey then
          (dict.bucket templateMidashi okuriKey).filter fun c => c.word ≠ word
        else dict.bucket midashi' okuri') = dict.bucket midashi' okuri' :=
      fun _ _ hother => if_neg hother
    rw [and_iff_left hframe]
    constructor
    · intro hgone
      by_cases hword : templateWord = word
      · exact .inl hword
      · refine .inr ?_
        rintro ⟨c, hc, hplain, rfl⟩
        exact hgone ⟨c, List.mem_filter.mpr ⟨hc, by simpa using hword⟩, hplain, rfl⟩
    · rintro (rfl | hnone) ⟨c, hc, hplain, heq⟩
      · exact of_decide_eq_true (List.mem_filter.mp hc).2 heq
      · exact hnone ⟨c, (List.mem_filter.mp hc).1, hplain, heq⟩
  · rw [if_neg hsame, if_neg hsame]
    -- The purge edits another bucket. It has to leave that one alone, too.
    refine and_congr_right fun _ => ?_
    constructor
    · intro hframe c hc heq
      have hkept := hframe midashi okuri fun h => hsame ⟨h.1.symm, h.2.symm⟩
      rw [if_pos ⟨rfl, rfl⟩, List.filter_eq_self] at hkept
      exact of_decide_eq_true (hkept c hc) heq
    · intro hnone midashi' okuri' _
      split
      · rename_i heq
        rw [heq.1, heq.2, List.filter_eq_self]
        exact fun c hc => decide_eq_true (hnone c hc)
      · rfl

namespace SkkEngine

section Return
variable {δ : Type} [DictionaryProvider δ] {self self' : SkkEngine δ} {event : KeyEvent}

/-- Return is pressed in cooked mode, and is no toggle key. -/
def pressesReturn (self : SkkEngine δ) (event : KeyEvent) : Bool :=
  event.isPress && decide (event.key = .returnKey) && !self.rawMode && !self.isRawToggle event &&
    !self.isToggle event

/-- Return after `yes` purges the concrete reading, okurigana and word of the focused candidate,
in every provider of the stack. Outside and inside a registration it is the confirmation that
gets the key. -/
theorem dict_of_purge [EucJp] (hself : self.Wf) {s : Selection} {returnMode : KanaMode}
    (hphase : self.phase = .purgeConfirm s ['y', 'e', 's'] returnMode)
    (hreturn : self.pressesReturn event) {actions : List EngineAction}
    (hstep : Step self event self' actions) : ∃ shown, s.candidates[s.index]? = some shown ∧
      self'.dict = self.dict.map fun d =>
        (DictionaryProvider.purge d s.midashi s.okuri shown.word).1 := by
  have hlt : s.index < s.candidates.length := (hself.phase_eq hphase).2.index_lt
  refine ⟨s.candidates[s.index], List.getElem?_eq_getElem hlt, ?_⟩
  simp only [pressesReturn, Bool.and_eq_true, Bool.not_eq_true', decide_eq_true_eq] at hreturn
  obtain ⟨⟨⟨⟨hpress, hkey⟩, hraw⟩, hrawToggle⟩, htoggle⟩ := hreturn
  -- A registration leaves Return to the confirmation.
  have hregistration : self.registrationKey event = none := by
    unfold registrationKey inReadyState isCtrlG
    rw [hphase, hkey]
    simp [SkkPhase.isKana, flushText]
  have hpost := executePurge_post hself hphase
  obtain ⟨r, hexec, hr⟩ := hpost
  have hdict : r.1.dict = self.dict.map fun d =>
      (DictionaryProvider.purge d s.midashi s.okuri s.candidates[s.index].word).1 := by
    unfold executePurge at hexec
    rw [hphase] at hexec
    dsimp only at hexec
    rw [indexList_eq hlt, ok_bind] at hexec
    cases hexec
    rfl
  have hdispatch : self.dispatch event = .ok r := by
    unfold dispatch
    rw [hphase]
    dsimp only
    rw [handlePurgeConfirm, if_pos hkey, if_pos rfl, hexec]
  -- Redirecting the actions of the handler does not touch the dictionaries.
  have hcooked : Runs (self.handlePress event) fun r' => r'.1.dict = r.1.dict := by
    unfold handlePress handleCooked
    rw [if_neg (by rw [hraw]; simp), if_neg (by rw [hrawToggle]; simp), hregistration]
    dsimp only
    rw [if_neg (by rw [htoggle]; simp), hdispatch, ok_bind]
    refine Runs.ite (fun _ => ?_) fun _ => runs_ok.mpr rfl
    refine (interceptForRegister_runs hr.wf r.2).mono fun r' hr' => ?_
    cases hr' with
    | drawn _ hedits _ _ =>
        obtain ⟨stack, heq⟩ := hedits.eq
        rw [heq]
    | quiet _ _ _ => rfl
  obtain ⟨r', hhandle, hdict'⟩ := hcooked
  unfold Step processKey at hstep
  rw [hpress, hhandle] at hstep
  cases hstep
  rw [hdict', hdict]

end Return

/-- Over every run: in the purge confirmation of a candidate that was looked up as
`templateWord` under (`templateMidashi`, the okurigana key), Return after `yes` removes just
that word from a user dictionary exactly when

* the purge asks for the very bucket of the lookup, and for the template word or for a
  bucket without it, or
* it asks for another bucket, the bucket of the lookup does not have the word, and the
  bucket asked for does not have the word on display. -/
theorem purge_iff [EucJp] {ρ : Type} [DictionaryProvider ρ] {kanaTable : KanaTable}
    {keybindings : SkkKeybindings} {lispDirectives : Bool} {initialPhase : SkkPhase}
    {providers : List (Provider ρ)} {history : History (Provider ρ)}
    {self self' : SkkEngine (Provider ρ)} {event : KeyEvent} {actions : List EngineAction}
    {s : Selection} {returnMode : KanaMode} {templateMidashi templateWord : Str} {shown : Candidate}
    {i : Nat} {dict : UserDict}
    (hrun : Session (fresh kanaTable keybindings lispDirectives initialPhase providers)
      history self)
    (hphase : self.phase = .purgeConfirm s ['y', 'e', 's'] returnMode)
    (_horigin : s.origin[s.index]? = some (.dict templateMidashi templateWord))
    (hshown : s.candidates[s.index]? = some shown) (hdict : self.dict[i]? = some (.user dict))
    (hreturn : self.pressesReturn event) (hstep : Step self event self' actions) :
    (∃ dict', self'.dict[i]? = some (.user dict') ∧
      PurgedOnly dict dict' templateMidashi s.okuriKey templateWord) ↔
      if templateMidashi = s.midashi ∧ s.okuriKey = s.okuri then
        templateWord = shown.word ∨ ¬ dict.HasPlain templateMidashi s.okuriKey templateWord
      else ¬ dict.HasPlain templateMidashi s.okuriKey templateWord ∧
        ∀ c ∈ dict.bucket s.midashi s.okuri, c.word ≠ shown.word := by
  have hwf := Session.wf (fresh_wf ..) hrun
  -- the step purges the word on display under the reading and the okurigana of the selection
  obtain ⟨shown', hshown', hafter⟩ := dict_of_purge hwf hphase hreturn hstep
  obtain rfl : shown = shown' := Option.some.inj (hshown.symm.trans hshown')
  have hdict' : self'.dict[i]? = some (.user (dict.purge s.midashi s.okuri shown.word).1) := by
    rw [hafter, List.getElem?_map, hdict]
    rfl
  rw [← purgedOnly_iff]
  constructor
  · rintro ⟨dict', heq, hpurged⟩
    rw [hdict'] at heq
    cases heq
    exact hpurged
  · exact fun hpurged => ⟨_, hdict', hpurged⟩

/-! ### A candidate with okurigana -/

/-- A user dictionary with `x` under the headword `あ` and the okurigana key `a`, and `y`
under the headword alone. -/
def okuriDict : UserDict :=
  ((UserDict.empty.learn ⟨['あ'], some ['a'], [⟨['x'], none, none⟩]⟩).1.learn
    ⟨['あ'], none, [⟨['y'], none, none⟩]⟩).1

/-- The keys that purge the candidate of a conversion. -/
def purgeKeys : List KeyEvent := KeyEvent.typed ['X', 'y', 'e', 's']

/-- The purge of a candidate with okurigana asks for the okurigana `あ` instead of the key `a`,
and the word stays. The lookup had used the key, so the two buckets differ. -/
theorem okuri_not_purged :
    letI := EucJp.empty
    ∃ (history : History (Provider Empty)) (self self' : SkkEngine (Provider Empty))
      (actions : List EngineAction) (dict : UserDict),
      Session (fresh vowelTable {} true .hiragana [.user okuriDict]) history self ∧
      history.map Visit.input = KeyEvent.typed ['A', 'A'] ++ purgeKeys ∧
      self.phase = .purgeConfirm ⟨['あ'], some ['あ'], some ['a'], [⟨['x'], none, none⟩],
        [.dict ['あ'] ['x']], 0⟩ ['y', 'e', 's'] .hiragana ∧
      Step self (.press .returnKey {}) self' actions ∧ .user dict ∈ self'.dict ∧
      dict.bucket ['あ'] (some ['a']) = [⟨['x'], none, none⟩] := by
  let _ := EucJp.empty
  have hrecord := exists_session (fresh vowelTable {} true .hiragana [.user okuriDict])
    (KeyEvent.typed ['A', 'A'] ++ purgeKeys)
    (fun _ (self : SkkEngine (Provider Empty)) =>
      self.phase = .purgeConfirm ⟨['あ'], some ['あ'], some ['a'], [⟨['x'], none, none⟩],
        [.dict ['あ'] ['x']], 0⟩ ['y', 'e', 's'] .hiragana ∧
      ∃ r ∈ (self.processKey (.press .returnKey {})).toOption, ∃ d ∈ r.1.dict, ∃ dict ∈ d.user?,
        dict.bucket ['あ'] (some ['a']) = [⟨['x'], none, none⟩])
    (by decide +kernel)
  obtain ⟨history, self, hrun, hinputs, hphase, r, hr, d, hd, dict, hdict, hbucket⟩ := hrecord
  exact ⟨history, self, r.1, r.2, dict, hrun, hinputs, hphase, ok_of_mem_toOption hr,
    Provider.user?_eq_some hdict ▸ hd, hbucket⟩

/-- Without okurigana and digits the purge asks for the bucket of the lookup, and the condition
is met: the candidate on display is the word of the dictionary. -/
theorem purge_iff_plain :
    letI := EucJp.empty
    ∃ (history : History (Provider Empty)) (self self' : SkkEngine (Provider Empty))
      (actions : List EngineAction) (dict' : UserDict),
      Session (fresh vowelTable {} true .hiragana [.user okuriDict]) history self ∧
      Step self (.press .returnKey {}) self' actions ∧ self'.dict[0]? = some (.user dict') ∧
      PurgedOnly okuriDict dict' ['あ'] none ['y'] := by
  let _ := EucJp.empty
  have hrecord := exists_session (fresh vowelTable {} true .hiragana [.user okuriDict])
    (KeyEvent.typed ['A'] ++ [.press .space {}] ++ purgeKeys)
    (fun _ (self : SkkEngine (Provider Empty)) =>
      self.phase = .purgeConfirm ⟨['あ'], none, none, [⟨['y'], none, none⟩],
        [.dict ['あ'] ['y']], 0⟩ ['y', 'e', 's'] .hiragana ∧
      self.dict = [.user okuriDict] ∧ self.pressesReturn (.press .returnKey {}))
    (by decide +kernel)
  obtain ⟨history, self, hrun, -, hphase, hdict, hreturn⟩ := hrecord
  obtain ⟨r, hstep, -⟩ := processKey_wf (Session.wf (fresh_wf ..) hrun) (.press .returnKey {})
  have hfirst : self.dict[0]? = some (.user okuriDict) := by rw [hdict]; rfl
  obtain ⟨dict', hdict', hpurged⟩ := (purge_iff hrun hphase rfl rfl hfirst hreturn hstep).mpr (by
    rw [if_pos ⟨rfl, rfl⟩]
    exact .inl rfl)
  exact ⟨history, self, r.1, r.2, dict', hrun, hstep, hdict', hpurged⟩

end SkkEngine

end Y2Skk
