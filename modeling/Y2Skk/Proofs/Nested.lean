import Y2Skk.Proofs.Containment
import Y2Skk.Proofs.Registration

/-!
# `Y2Skk.Proofs.Nested`: a registration inside another one

The word of a finished registration goes to the application, or to the enclosing
registration when there is one. A third way to deliver it is to choose it as a candidate
inside the enclosing registration, once the dictionaries have learned it.

## What each way delivers

* `finishesInto_iff`, `finishesWith_iff`: what each of the first two delivers. The
  enclosing frame gets the word, the application the word and its okurigana.
* `commitCandidate_receives`: what the third one delivers, for any candidate: its text,
  the okurigana of the selection, and the trigger of the conversion if there is one.

## When they agree

* `sameText_iff`: the three texts are equal exactly when the reading has no okurigana and
  everything that the reading is offered for the word is the word itself. A template over
  a reading with digits is inserted as it is, and chosen as its expansion.
* `standsForItself_of_plain`: readings without digits and words without markers meet the
  second half of the condition.

The frame is arbitrary. The enclosing frame has its cursor between two characters, which
is part of the invariant of every reachable state. The candidate that is chosen is any one
that the reading is offered for the registered word, so that the condition has to speak of
all of them.
-/

set_option autoImplicit false

namespace Y2Skk

open Outcome Utf8 Transition

namespace RegisterFrame

/-- A frame whose cursor is between two characters takes any text, and its cursor is between two
characters again afterwards. -/
theorem insert_receives {frame : RegisterFrame} (hcursor : IsBoundary frame.committed frame.cursor)
    (text : Str) : ∃ frame', frame.insert text = .ok frame' ∧ frame.Receives text false frame' ∧
      IsBoundary frame'.committed frame'.cursor := by
  obtain ⟨before, after, hcommitted, hbefore⟩ := hcursor
  exact ⟨_, insert_eq hcommitted hbefore text, ⟨before, after, hcommitted, hbefore, rfl⟩,
    isBoundary_append _ _⟩

end RegisterFrame

namespace SkkEngine

variable {δ : Type}

/-- The prompt of the top frame can be drawn around any text when the cursor of the frame is
between two characters: the buffer is cut there and nowhere else. -/
theorem placePreedit_of_top {self : SkkEngine δ} {frame : RegisterFrame}
    {frames : List RegisterFrame} (hstack : self.registerStack = frame :: frames)
    (hcursor : IsBoundary frame.committed frame.cursor) (inner : Str) (pos : Nat)
    (ghost : Bool) : Runs (self.placePreedit inner pos ghost) fun _ => True := by
  obtain ⟨before, after, hcommitted, hbefore⟩ := hcursor
  unfold placePreedit
  rw [hstack]
  dsimp only
  rw [hcommitted, ← hbefore, sliceTo_append, sliceFrom_append]
  exact runs_ok.mpr trivial

/-- In a kana mode the prompt of the top frame can be drawn, when its cursor is on a boundary of
its buffer. -/
theorem preeditAction_of_isKana {self : SkkEngine δ} {frame : RegisterFrame}
    {frames : List RegisterFrame} (hphase : self.phase.isKana)
    (hstack : self.registerStack = frame :: frames)
    (hcursor : IsBoundary frame.committed frame.cursor) :
    Runs self.preeditAction fun _ => True := by
  have hinner : self.buildInnerPreedit = .ok self.kanaState := by
    unfold buildInnerPreedit
    cases hcase : self.phase <;> simp_all [SkkPhase.isKana]
  have hbuild : self.buildPreedit = self.plainPreedit := by
    unfold buildPreedit
    cases hcase : self.phase <;> simp_all [SkkPhase.isKana]
  unfold preeditAction
  rw [hbuild, plainPreedit, hinner, ok_bind]
  exact (placePreedit_of_top hstack hcursor _ _ _).bind fun _ _ => runs_pure.mpr trivial

/-- So a redraw in a kana mode inside a registration returns, and leaves the engine as it is. -/
theorem redraw_of_isKana {self : SkkEngine δ} {frame : RegisterFrame}
    {frames : List RegisterFrame} (hphase : self.phase.isKana)
    (hstack : self.registerStack = frame :: frames)
    (hcursor : IsBoundary frame.committed frame.cursor) :
    Runs self.redraw fun r => r.1 = self := by
  unfold redraw
  exact (preeditAction_of_isKana hphase hstack hcursor).bind fun a _ => runs_pure.mpr rfl

section Texts
variable [DictionaryProvider δ]

/-- Finishing `frame` inside `outer` inserts `text` at the cursor of `outer`. -/
def FinishesInto (self : SkkEngine δ) (outer : RegisterFrame) (rest : List RegisterFrame)
    (text : Str) : Prop :=
  ∃ r outer', self.finalizeRegister = .ok r ∧ r.1.registerStack = outer' :: rest ∧
    outer.Receives text false outer'

/-- Finishing `frame` as the outermost frame commits `text`. -/
def FinishesWith (self : SkkEngine δ) (frame : RegisterFrame) (text : Str) : Prop :=
  ∃ r, { self with registerStack := [frame] }.finalizeRegister = .ok r ∧
    r.2 = [.commit text, .clearPreedit]

/-- Choosing the word of `frame` as a candidate inside `outer` inserts `text` at the cursor of
`outer`, followed by the trigger of the conversion. The candidate is one that a conversion of
the reading of `frame` offers, over dictionaries that have learned the word: either one that
is offered for the registered word, as its origin says, or one with the same text. -/
def ChoosesInto (self : SkkEngine δ) (frame outer : RegisterFrame) (rest : List RegisterFrame)
    (text : Str) : Prop :=
  ∀ (asking conv : SkkEngine δ) (actions : List EngineAction) (s : Selection) (index : Nat)
    (chosen : Candidate), asking.registerStack = outer :: rest →
    asking.dict = (self.learnAll frame.entry).dict →
    asking.lispDirectives = self.lispDirectives →
    asking.startConversion frame.originalMidashi frame.okuri = .ok (conv, actions) →
    conv.phase = .selecting s → s.candidates[index]? = some chosen →
    (s.origin[index]? = some (.dict frame.midashi frame.word) ∨ chosen.word = frame.word) →
    ∃ r r' outer', conv.commitCandidate s index = .ok r ∧
      r.1.interceptForRegister r.2 = .ok r' ∧ r'.1.registerStack = outer' :: rest ∧
      outer.Receives (text ++ conv.conversionTrigger.getD []) false outer'

/-- The three ways to deliver the word of `frame` deliver the same text. -/
def SameText (self : SkkEngine δ) (frame outer : RegisterFrame) (rest : List RegisterFrame) :
    Prop :=
  ∃ text, self.FinishesInto outer rest text ∧ self.FinishesWith frame text ∧
    self.ChoosesInto frame outer rest text

/-- Whatever the reading of `frame` is offered for the registered word is the word itself: no
other text comes from it over the digits of the reading. -/
def StandsForItself (self : SkkEngine δ) (frame : RegisterFrame) : Prop :=
  ∀ offer ∈ (self.learnAll frame.entry).offers frame.originalMidashi
      (frame.okuri.map Prod.fst),
    offer.2 = .dict frame.midashi frame.word → offer.word = frame.word

variable {self : SkkEngine δ} {frame outer : RegisterFrame} {rest : List RegisterFrame}

/-- The enclosing frame receives the word alone: the okurigana of the inner frame is not
inserted. A text that is inserted at a boundary determines the frame it leads to, so no other
text is received. -/
theorem finishesInto_iff (hstack : self.registerStack = frame :: outer :: rest)
    (hcursor : IsBoundary outer.committed outer.cursor) (text : Str) :
    self.FinishesInto outer rest text ↔ text = frame.word := by
  have hword : (Prod.fst <| splitRegisterAnnotation frame.committed) = frame.word := rfl
  obtain ⟨outer', hinsert, hreceives, hcursor'⟩ :=
    RegisterFrame.insert_receives hcursor frame.word
  have hfinish : Runs self.finalizeRegister fun r => r.1.registerStack = outer' :: rest := by
    unfold finalizeRegister editTop
    rw [hstack]
    dsimp only [learnAll]
    rw [hword, hinsert, ok_bind, ok_bind]
    exact (redraw_of_isKana rfl rfl hcursor').mono fun r hr => by rw [hr]
  obtain ⟨r, hr, hframes⟩ := hfinish
  constructor
  · rintro ⟨r', outer'', hr', hframes', hreceives'⟩
    rw [hr] at hr'
    cases hr'
    rw [hframes] at hframes'
    cases hframes'
    exact hreceives'.text_eq hreceives
  · rintro rfl
    exact ⟨r, outer', hr, hframes, hreceives⟩

/-- The application receives the word and behind it the okurigana of the frame, which an inner
frame leaves out. -/
theorem finishesWith_iff (text : Str) :
    self.FinishesWith frame text ↔ text = frame.word ++ frame.okuriKana.getD [] := by
  unfold FinishesWith finalizeRegister
  constructor
  · rintro ⟨r, hr, hactions⟩
    cases hr
    cases hactions
    rfl
  · rintro rfl
    exact ⟨_, rfl, rfl⟩

omit [DictionaryProvider δ] in
/-- The enclosing frame receives a committed candidate, and its trigger behind it, at its
cursor. -/
theorem intercept_candidate (hphase : self.phase.isKana)
    (hstack : self.registerStack = outer :: rest)
    (hcursor : IsBoundary outer.committed outer.cursor) (text : Str) (trigger : Option Str) :
    Runs (self.interceptForRegister ([.hideCandidates, .commit text, .clearPreedit]
      ++ (trigger.map EngineAction.commit).toList)) fun r => ∃ outer',
        r.1.registerStack = outer' :: rest ∧
        outer.Receives (text ++ trigger.getD []) false outer' := by
  obtain ⟨mid, hmid, hreceives, hcursor'⟩ := RegisterFrame.insert_receives hcursor text
  -- The window is hidden, and the insertion asks for a redraw.
  have hdone : ∀ {frame'}, IsBoundary frame'.committed frame'.cursor →
      outer.Receives (text ++ trigger.getD []) false frame' →
      Runs (do return ({ self with registerStack := frame' :: rest }, [.hideCandidates] ++
        [← SkkEngine.preeditAction { self with registerStack := frame' :: rest }]))
        fun r => ∃ outer',
          r.1.registerStack = outer' :: rest ∧
            outer.Receives (text ++ trigger.getD []) false outer' := by
    intro frame' hcursor' hreceives'
    refine (preeditAction_of_isKana (by exact hphase) rfl hcursor').bind fun a _ => ?_
    exact runs_pure.mpr ⟨frame', rfl, hreceives'⟩
  unfold interceptForRegister
  cases trigger with
  | none =>
      have hloop : [EngineAction.hideCandidates, .commit text, .clearPreedit].foldlM interceptStep
          (self, [], false) = .ok ({ self with registerStack := mid :: rest },
            [.hideCandidates], true) := by
        simp [interceptStep, editTop, hstack, hmid, pure, Except.pure]
      simp only [Option.map_none, Option.toList_none, List.append_nil, hloop, ok_bind]
      exact hdone hcursor' (by simpa using hreceives)
  | some t =>
      obtain ⟨last, hlast, hreceives', hcursor''⟩ := RegisterFrame.insert_receives hcursor' t
      have hloop : [EngineAction.hideCandidates, .commit text, .clearPreedit, .commit t].foldlM
          interceptStep (self, [], false) = .ok ({ self with registerStack := last :: rest },
            [.hideCandidates], true) := by
        simp [interceptStep, editTop, hstack, hmid, hlast, pure, Except.pure]
      simp only [Option.map_some, Option.toList_some, List.cons_append, List.nil_append, hloop,
        ok_bind]
      exact hdone hcursor'' (RegisterFrame.receives_trans hreceives hreceives')

/-- Committing a candidate inside a registration delivers its text, the okurigana of the
selection and the trigger to the enclosing frame. -/
theorem commitCandidate_receives {s : Selection} {index : Nat} {chosen : Candidate}
    (hstack : self.registerStack = outer :: rest)
    (hcursor : IsBoundary outer.committed outer.cursor)
    (hchosen : s.candidates[index]? = some chosen) :
    ∃ r r' outer', self.commitCandidate s index = .ok r ∧
      r.1.interceptForRegister r.2 = .ok r' ∧ r'.1.registerStack = outer' :: rest ∧
      outer.Receives (chosen.word ++ s.okuri.getD [] ++ self.conversionTrigger.getD []) false
        outer' := by
  have hcommit : ∃ r, self.commitCandidate s index = .ok r ∧ r.1.registerStack = outer :: rest ∧
      r.1.phase.isKana ∧ r.2 = [.hideCandidates, .commit (chosen.word ++ s.okuri.getD []),
        .clearPreedit] ++ (self.conversionTrigger.map EngineAction.commit).toList := by
    unfold commitCandidate
    rw [indexList_ok_iff.mpr hchosen, ok_bind]
    cases learnEntry s index chosen with
    | some entry => exact ⟨_, rfl, hstack, isKana_toPhase _, rfl⟩
    | none => exact ⟨_, rfl, hstack, isKana_toPhase _, rfl⟩
  -- The actions of the commit are intercepted one by one, and the prompt is drawn at the end.
  obtain ⟨r, hr, hstack', hphase, hactions⟩ := hcommit
  obtain ⟨r', hr', outer', hframes, hreceives⟩ := intercept_candidate hphase hstack' hcursor
    (chosen.word ++ s.okuri.getD []) self.conversionTrigger
  exact ⟨r, r', outer', hr, hactions ▸ hr', hframes, hreceives⟩

/-- The selection that a conversion opens holds the offers of any engine with the same
dictionaries and the same setting. -/
theorem selection_of_conversion {asking conv : SkkEngine δ} {actions : List EngineAction}
    {s : Selection} {midashi : Str} {okuri : Option (Str × Str)}
    (hdict : asking.dict = self.dict) (hlisp : asking.lispDirectives = self.lispDirectives)
    (hconv : asking.startConversion midashi okuri = .ok (conv, actions))
    (hphase : conv.phase = .selecting s) :
    s = self.offersSelection midashi okuri ∧ conv.registerStack = asking.registerStack := by
  obtain ⟨g, hgather, rfl, -, -, hstack, -⟩ := startConversion_selecting hconv hphase
  rw [gatherCandidates_congr hdict hlisp] at hgather
  obtain ⟨hcands, horigin⟩ :=
    (gatherCandidates_offers self midashi (okuri.map Prod.fst)).of_ok hgather
  refine ⟨?_, hstack⟩
  rw [openSelection, offersSelection, hcands, horigin]

omit [DictionaryProvider δ] in
/-- Without okurigana kana a frame starts its conversion without any, whatever its key. -/
theorem okuri_snd_eq_nil (hnone : frame.okuriKana.getD [] = []) :
    (frame.okuri.map Prod.snd).getD [] = [] := by
  unfold RegisterFrame.okuri
  cases frame.okuriKey with
  | none => rfl
  | some key =>
      cases hkana : frame.okuriKana with
      | none => rfl
      | some kana => simpa [hkana] using hnone

/-- A word that stands for itself is what choosing it delivers, from any engine that has learned
it and by any offer of it. -/
theorem choosesInto_word (hcursor : IsBoundary outer.committed outer.cursor)
    (hnone : frame.okuriKana.getD [] = []) (hself : self.StandsForItself frame) :
    self.ChoosesInto frame outer rest frame.word := by
  intro asking conv actions s index chosen hstack hdict hlisp hconv hphase hchosen hpicked
  obtain ⟨rfl, hframes⟩ := selection_of_conversion (by exact hdict) (by exact hlisp) hconv hphase
  -- Both ways to pick it, the text is the registered word.
  have hword : chosen.word = frame.word := by
    rcases hpicked with horigin | hword
    · obtain ⟨offer, hoffer, rfl⟩ := Option.map_eq_some_iff.mp
        ((List.getElem?_map ..).symm.trans hchosen)
      obtain ⟨offer', hoffer', horigin⟩ := Option.map_eq_some_iff.mp
        ((List.getElem?_map ..).symm.trans horigin)
      rw [hoffer] at hoffer'
      cases hoffer'
      exact hself offer (List.mem_of_getElem? hoffer) horigin
    · exact hword
  obtain ⟨r, r', outer', hr, hr', houter, hreceives⟩ :=
    commitCandidate_receives (hframes.trans hstack) hcursor hchosen
  refine ⟨r, r', outer', hr, hr', houter, ?_⟩
  have hokuri : ((self.learnAll frame.entry).offersSelection frame.originalMidashi
      frame.okuri).okuri.getD [] = [] := okuri_snd_eq_nil hnone
  rwa [hword, hokuri, List.append_nil] at hreceives

/-- Where choosing delivers the registered word, nothing else is offered for it: an offer
with another text could be chosen, and would deliver that. -/
theorem standsForItself_of_choosesInto (hcursor : IsBoundary outer.committed outer.cursor)
    (hnone : frame.okuriKana.getD [] = [])
    (hchooses : self.ChoosesInto frame outer rest frame.word) :
    self.StandsForItself frame := by
  intro offer hoffer horigin
  obtain ⟨index, hindex⟩ := List.mem_iff_getElem?.mp hoffer
  -- An engine in the enclosing registration that has just learned the word.
  let asking : SkkEngine δ := { self.learnAll frame.entry with registerStack := outer :: rest }
  obtain ⟨g, hgather, hcands, horigins⟩ := gatherCandidates_offers (self.learnAll frame.entry)
    frame.originalMidashi (frame.okuri.map Prod.fst)
  have hne : g.candidates ≠ [] := by
    rw [hcands]
    exact fun hnil => List.ne_nil_of_mem (List.mem_map_of_mem hoffer) hnil
  have hdict : asking.dict = (self.learnAll frame.entry).dict := rfl
  have hlisp : asking.lispDirectives = (self.learnAll frame.entry).lispDirectives := rfl
  have hplace : ∀ inner, Runs (asking.placePreedit inner (byteLen inner) false) fun _ => True :=
    fun inner => placePreedit_of_top rfl hcursor inner _ _
  rw [← gatherCandidates_congr hdict hlisp] at hgather
  obtain ⟨⟨conv, actions⟩, hconv, hphase⟩ := startConversion_of_gather hgather hne hplace
  obtain ⟨hs, hframes⟩ := selection_of_conversion hdict hlisp hconv hphase
  have hcandidate : (openSelection frame.originalMidashi frame.okuri g).candidates[index]? =
      some offer.1 := by
    rw [hs, offersSelection, List.getElem?_map, hindex]
    rfl
  have hpicked : (openSelection frame.originalMidashi frame.okuri g).origin[index]? =
      some (.dict frame.midashi frame.word) := by
    rw [hs, offersSelection, List.getElem?_map, hindex, Option.map_some, horigin]
  obtain ⟨r, r', outer', hr, hr', houter, hreceives⟩ :=
    hchooses asking conv actions _ index offer.1 rfl rfl rfl hconv hphase hcandidate
      (.inl hpicked)
  obtain ⟨_, _, outer'', hr₂, hr₂', houter', hreceives'⟩ :=
    commitCandidate_receives hframes hcursor hcandidate
  -- The same commit, so the same frame afterwards: the two texts agree.
  cases hr.symm.trans hr₂
  cases hr'.symm.trans hr₂'
  cases houter.symm.trans houter'
  have htexts := hreceives'.text_eq hreceives
  have hokuri : (openSelection frame.originalMidashi frame.okuri g).okuri.getD [] = [] :=
    okuri_snd_eq_nil hnone
  rw [hokuri, List.append_nil] at htexts
  exact List.append_cancel_right htexts

/-- The ordinary case: without digits, or without markers, a word has no other text. Its only
expansion is the word itself. -/
theorem standsForItself_of_plain
    (hplain : (scan frame.originalMidashi).2 = [] ∨ markerFree frame.word) :
    self.StandsForItself frame := by
  intro offer hoffer horigin
  have htext := word_mem_expansions hoffer horigin
  rw [expansions] at htext
  split at htext
  · exact List.mem_singleton.mp htext
  · rename_i hdigits
    rw [expandWithRecursiveLookup_of_markerFree (hplain.resolve_left hdigits)] at htext
    exact List.mem_singleton.mp htext

/-- The enclosing registration gets the text the application would have got, and the text
the candidate would have given it, exactly when the frame has no okurigana and its word
stands for itself. -/
theorem sameText_iff (hstack : self.registerStack = frame :: outer :: rest)
    (hcursor : IsBoundary outer.committed outer.cursor) :
    self.SameText frame outer rest ↔
      frame.okuriKana.getD [] = [] ∧ self.StandsForItself frame := by
  constructor
  · rintro ⟨text, hinto, hwith, hchooses⟩
    obtain rfl := (finishesInto_iff hstack hcursor text).mp hinto
    have hcommitted := (finishesWith_iff frame.word).mp hwith
    have hnone : frame.okuriKana.getD [] = [] := by simpa using hcommitted
    exact ⟨hnone, standsForItself_of_choosesInto hcursor hnone hchooses⟩
  · rintro ⟨hnone, hself⟩
    refine ⟨frame.word, (finishesInto_iff hstack hcursor _).mpr rfl, ?_,
      choosesInto_word hcursor hnone hself⟩
    exact (finishesWith_iff _).mpr (by rw [hnone, List.append_nil])

end Texts

/-! ### The okurigana that is lost -/

/-- The keys that register `あ` with the okurigana `あ` inside a registration, and fill the
buffer with `あ`. -/
def okuriKeys : List KeyEvent :=
  KeyEvent.typed ['A'] ++ [.press .space {}] ++ KeyEvent.typed ['A', 'A', 'a']

/-- As the outermost frame it would commit `ああ`, and the enclosing one gets `あ`. The frame was
opened for the reading `あ` with the okurigana `あ`, inside the registration of another one. -/
theorem okuri_lost_inside :
    letI := EucJp.empty
    ∃ (history : History Empty) (self : SkkEngine Empty) (frame outer : RegisterFrame),
      Session (fresh vowelTable {} true .hiragana []) history self ∧
      history.map Visit.input = okuriKeys ∧ self.registerStack = [frame, outer] ∧
      self.finishes (.press .returnKey {}) ∧ frame.committed = ['あ'] ∧
      ¬ self.SameText frame outer [] := by
  let _ := EucJp.empty
  have hrecord := exists_session (fresh vowelTable {} true .hiragana []) okuriKeys
    (fun _ (self : SkkEngine Empty) => self.registerStack =
      [⟨['あ'], ['あ'], [], some ['a'], some ['あ'], ['あ'], 3, false⟩,
        ⟨['あ'], ['あ'], [], none, none, [], 0, false⟩] ∧ self.finishes (.press .returnKey {}))
    (by decide +kernel)
  obtain ⟨history, self, hrun, hinputs, hstack, hfinishes⟩ := hrecord
  refine ⟨history, self, _, _, hrun, hinputs, hstack, hfinishes, rfl, ?_⟩
  rintro ⟨text, hinto, hwith, -⟩
  have hword := (finishesInto_iff hstack (isBoundary_zero _) text).mp hinto
  have hcommitted := (finishesWith_iff text).mp hwith
  rw [hword] at hcommitted
  simp at hcommitted

/-- A registration inside another one, for a reading without okurigana. The reading has no
digits, so the registered word stands for itself. -/
theorem sameText_iff_plain :
    letI := EucJp.empty
    ∃ (history : History Empty) (self : SkkEngine Empty) (frame outer : RegisterFrame),
      Session (fresh vowelTable {} true .hiragana []) history self ∧
      self.registerStack = [frame, outer] ∧ frame.committed = ['あ'] ∧
      self.SameText frame outer [] := by
  let _ := EucJp.empty
  have hrecord := exists_session (fresh vowelTable {} true .hiragana [])
    (KeyEvent.typed ['A'] ++ [.press .space {}] ++ KeyEvent.typed ['A', 'a'] ++
      [.press .space {}] ++ KeyEvent.typed ['a'])
    (fun _ (self : SkkEngine Empty) => self.registerStack =
      [⟨['あ', 'あ'], ['あ', 'あ'], [], none, none, ['あ'], 3, false⟩,
        ⟨['あ'], ['あ'], [], none, none, [], 0, false⟩])
    (by decide +kernel)
  obtain ⟨history, self, hrun, -, hstack⟩ := hrecord
  exact ⟨history, self, _, _, hrun, hstack, rfl,
    (sameText_iff hstack (isBoundary_zero _)).mpr
      ⟨rfl, standsForItself_of_plain (.inl (by decide))⟩⟩

end SkkEngine

end Y2Skk
