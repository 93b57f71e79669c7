import Y2Skk.Proofs.Learning
import Y2Skk.Proofs.Offers
import Y2Skk.Proofs.Purge

/-!
# `Y2Skk.Proofs.Registration`: a registration commits what it registers

Return in the registration mode learns the buffer of the top frame for the frame's reading
and, when the frame is the outermost one, commits its word. The next conversion of the
reading goes another way: it expands the learned word over the digits of the reading and
drops the words a directive hides.

## The condition

`GivesWord` is about the dictionaries and the frame, and not about what a conversion
returns: what the registered word stands for over the digits of the reading, which of
these texts a directive lists, and what stands behind them. The first text that can be
shown has to be the word itself; when the word gives none, it may also be the text of
another entry, or of the digits.

* `registers_of_session`: over every run, the committed word is the first candidate of the
  next conversion exactly when the reading gives the word.
* `givesWord_of_markerFree`: words without markers are given, unless another provider
  hides them.
* `template_committed`: the template `#1` for `1x` is committed as it is, where the next
  conversion offers `１`.

## The proof

What the next conversion offers is taken from `Y2Skk.Proofs.Offers`, where the candidate
list is specified without the loop that builds it. The rest is the place of the registered
word: `learn` puts it in front of its bucket (`lookupAll_learned`) and takes it off the
directives of the user dictionary (`mem_listedWords_learned`).
-/

set_option autoImplicit false

namespace Y2Skk

open Outcome Utf8 Transition

namespace RegisterFrame

/-- The okurigana of the conversion that led to a frame. -/
def okuri (frame : RegisterFrame) : Option (Str × Str) :=
  match frame.okuriKey, frame.okuriKana with
  | some key, some kana => some (key, kana)
  | _, _ => none

/-- The word a frame registers. -/
def word (frame : RegisterFrame) : Str := Prod.fst <| splitRegisterAnnotation frame.committed

/-- The annotation a frame registers with its word, if its buffer has one. -/
def note (frame : RegisterFrame) : Option Str :=
  Prod.snd <| splitRegisterAnnotation frame.committed

/-- The entry a frame has learned. -/
def entry (frame : RegisterFrame) : DictEntry :=
  ⟨frame.midashi, frame.okuriKey, [⟨frame.word, frame.note, none⟩]⟩

/-- The okurigana key of a well-formed frame is the one its conversion was started with. -/
theorem Wf.map_okuri {frame : RegisterFrame} (h : frame.Wf) :
    frame.okuri.map Prod.fst = frame.okuriKey := by
  have hsome := h.okuri
  unfold RegisterFrame.okuri
  cases hkey : frame.okuriKey <;> cases hkana : frame.okuriKana <;> simp_all

end RegisterFrame

namespace SkkEngine

section Step
variable {δ : Type} [DictionaryProvider δ] {self self' : SkkEngine δ} {event : KeyEvent}
  {frame : RegisterFrame} {actions : List EngineAction}

/-- Return finishes the registration: in the ready state or in direct input. -/
def finishes [EucJp] (self : SkkEngine δ) (event : KeyEvent) : Bool :=
  self.pressesReturn event && (self.inReadyState || decide (self.phase = .ascii))

/-- The text committed for a frame is its word with the okurigana, and the word is the
first candidate of the next conversion. -/
def RegistersCommitted (self' : SkkEngine δ) (actions : List EngineAction)
    (frame : RegisterFrame) : Prop :=
  ∃ word, committedText actions = word ++ frame.okuriKana.getD [] ∧
    Runs (self'.startConversion frame.originalMidashi frame.okuri) fun r =>
      ∃ s first, r.1.phase = .selecting s ∧ s.candidates[0]? = some first ∧ first.word = word

/-- Completing the outermost frame learns its entry and commits its word, with the okurigana
behind it, and leaves no registration. -/
theorem finalizeRegister_outermost (hstack : self.registerStack = [frame]) :
    Runs self.finalizeRegister fun r =>
      r.1.dict = (self.learnAll frame.entry).dict ∧ r.1.registerStack = [] ∧
      r.1.lispDirectives = self.lispDirectives ∧
      committedText r.2 = frame.word ++ frame.okuriKana.getD [] := by
  unfold finalizeRegister
  rw [hstack]
  exact runs_ok.mpr ⟨rfl, rfl, rfl, List.append_nil _⟩

/-- Return on the outermost frame completes it, when the buffer is not empty. Raw mode and the
toggle keys do not get in between, and the kana mode is ready or the text is typed in
directly. -/
theorem step_of_finishes [EucJp] (hstack : self.registerStack = [frame])
    (hne : frame.committed ≠ []) (hfinishes : self.finishes event)
    (hstep : Step self event self' actions) :
    self'.dict = (self.learnAll frame.entry).dict ∧ self'.registerStack = [] ∧
      self'.lispDirectives = self.lispDirectives ∧
      committedText actions = frame.word ++ frame.okuriKana.getD [] := by
  simp only [finishes, pressesReturn, Bool.and_eq_true, Bool.not_eq_true',
    decide_eq_true_eq] at hfinishes
  obtain ⟨⟨⟨⟨⟨hpress, hkey⟩, hraw⟩, hrawToggle⟩, -⟩, hready⟩ := hfinishes
  obtain ⟨r, hfinalize, hr⟩ := finalizeRegister_outermost hstack
  have hreturn : self.regReturn = .ok r := by
    unfold regReturn
    rw [hstack]
    dsimp only
    rw [if_neg (by simpa using hne), hfinalize]
  -- In both states the registration takes Return for itself.
  have hregistration : self.registrationKey event = some self.regReturn := by
    unfold registrationKey
    rw [if_neg (by rw [hstack]; simp)]
    by_cases hkana : self.inReadyState = true
    · rw [if_pos hkana, regReadyKey, if_pos hkey]
    · have hascii : self.phase = .ascii := by
        simpa [hkana] using hready
      have hflush : flushText .ascii = none := rfl
      rw [if_neg hkana, if_neg (by simp [isCtrlG, hkey]), hascii, hflush]
      dsimp only
      rw [if_pos rfl, regAsciiKey, if_pos hkey]
  have hpressed : self.handlePress event = .ok r := by
    unfold handlePress handleCooked
    rw [if_neg (by rw [hraw]; simp), if_neg (by rw [hrawToggle]; simp), hregistration]
    exact hreturn
  unfold Step processKey at hstep
  rw [hpress, hpressed] at hstep
  obtain ⟨hdict, hframes, hlisp, htext⟩ := hr
  cases hstep
  refine ⟨hdict, hframes, hlisp, ?_⟩
  rw [← htext]
  split
  · -- The status update commits nothing.
    rw [committedText, List.flatMap_append]
    exact List.append_nil _
  · rfl

end Step

section Run
variable {ρ : Type} [DictionaryProvider ρ] {kanaTable : KanaTable} {keybindings : SkkKeybindings}
  {lispDirectives : Bool} {initialPhase : SkkPhase} {providers : List (Provider ρ)}
  {history : History (Provider ρ)} {self self' : SkkEngine (Provider ρ)} {event : KeyEvent}
  {frame : RegisterFrame} {actions : List EngineAction} {user : UserDict}
  {others : List (Provider ρ)}

/-- The other providers hide a word once they have seen the entry of a frame. -/
def othersHide (others : List (Provider ρ)) (frame : RegisterFrame) : Prop :=
  hiddenBy (others.map fun d => (DictionaryProvider.learn d frame.entry).1) frame.midashi
    frame.okuriKey frame.word

/-- The words of a list that no directive of a frame's reading lists, once the dictionaries have
learned the entry of the frame. -/
def unlisted (self : SkkEngine (Provider ρ)) (frame : RegisterFrame) (words : List Str) :
    List Str :=
  words.filter fun word => !(self.lispDirectives &&
    decide (word ∈ listedWords ((self.learnAll frame.entry).lookupAll frame.midashi
      frame.okuriKey)))

/-- What an entry of a frame's reading stands for over the digits of the reading: the word
itself when there are none, and its expansions otherwise. -/
def overDigits (self : SkkEngine (Provider ρ)) (frame : RegisterFrame) (c : Candidate) :
    List Str :=
  (self.learnAll frame.entry).expansions frame.digitRuns c.word

/-- The entries of a frame's reading other than the registered one, which `learn` puts in
front of them. -/
def otherEntries (self : SkkEngine (Provider ρ)) (frame : RegisterFrame) : List Candidate :=
  (((self.learnAll frame.entry).lookupAll frame.midashi frame.okuriKey).tail).filter
    fun c => c.lispForm.isNone

/-- The registered word is the one that its reading gives. Without digits a word stands for
itself, so only a directive of another provider can be in the way. With digits the word is a
template: the first text that it stands for has to be the word itself, or, when none of its
texts can be shown, the first text of the other entries or of the digits alone. -/
def GivesWord (self : SkkEngine (Provider ρ)) (others : List (Provider ρ))
    (frame : RegisterFrame) : Prop :=
  if frame.digitRuns = [] then self.lispDirectives = true → ¬ othersHide others frame
  else
    (self.unlisted frame ((self.learnAll frame.entry).expansions frame.digitRuns frame.word) ++
      self.unlisted frame ((self.otherEntries frame).flatMap (self.overDigits frame)) ++
      syntheticWords frame.originalMidashi).head? = some frame.word

/-- The entries of a frame's reading start with the registered word, and those of the other
providers come behind those of the user dictionary. -/
theorem lookupAll_learned (hdict : self.dict = .user user :: others) :
    (self.learnAll frame.entry).lookupAll frame.midashi frame.okuriKey =
      ⟨frame.word, frame.note, none⟩ ::
        ((self.learnAll frame.entry).lookupAll frame.midashi frame.okuriKey).tail := by
  have hlearned : (self.learnAll frame.entry).dict = .user (user.learn frame.entry).1 ::
      others.map fun d => (DictionaryProvider.learn d frame.entry).1 := by
    rw [learnAll, hdict]
    rfl
  obtain ⟨rest, hhead⟩ := user.bucket_learn_head frame.midashi frame.okuriKey frame.word
    frame.note
  have hlookup := lookupAll_top hlearned frame.midashi frame.okuriKey
  rw [show frame.entry =
    ⟨frame.midashi, frame.okuriKey, [⟨frame.word, frame.note, none⟩]⟩ from rfl] at hlookup ⊢
  rw [hhead] at hlookup
  rw [hlookup]
  rfl

/-- The registered word is among the words that directives list exactly when another
provider hides it: `learn` has taken it off the directives of the user dictionary. -/
theorem mem_listedWords_learned (hdict : self.dict = .user user :: others) :
    frame.word ∈ listedWords
        ((self.learnAll frame.entry).lookupAll frame.midashi frame.okuriKey) ↔
      othersHide others frame := by
  have hlearned : (self.learnAll frame.entry).dict = .user (user.learn frame.entry).1 ::
      others.map fun d => (DictionaryProvider.learn d frame.entry).1 := by
    rw [learnAll, hdict]
    rfl
  rw [lookupAll_top hlearned, ← ignoreSet_eq, ignoreSet, List.flatMap_append, List.mem_append]
  constructor
  · rintro (hown | hother)
    · have hbucket := user.bucket_learn_self frame.midashi frame.okuriKey frame.word frame.note
      rw [show frame.entry = ⟨frame.midashi, frame.okuriKey, [⟨frame.word, frame.note, none⟩]⟩ from
        rfl, hbucket] at hown
      exact absurd (List.mem_singleton_self _) (mem_ignoreSet_unignore hown).2
    · exact hother
  · exact .inr

/-- A word in front of others is the first one that is not listed when it is not listed. -/
theorem head?_unlisted_self (word : Str) (words : List Str) :
    (self.unlisted frame [word] ++ self.unlisted frame words).head? = some word ↔
      (self.lispDirectives = true → word ∉ listedWords
        ((self.learnAll frame.entry).lookupAll frame.midashi frame.okuriKey)) := by
  rw [unlisted, unlisted, ← List.filter_append, List.singleton_append, List.head?_filter,
    List.find?_cons_eq_some]
  have hpass : (!(self.lispDirectives && decide (word ∈ listedWords
      ((self.learnAll frame.entry).lookupAll frame.midashi frame.okuriKey)))) = true ↔
      (self.lispDirectives = true → word ∉ listedWords
        ((self.learnAll frame.entry).lookupAll frame.midashi frame.okuriKey)) := by
    cases self.lispDirectives <;> simp
  rw [← hpass]
  constructor
  · rintro (⟨hshown, -⟩ | ⟨-, hlater⟩)
    · exact hshown
    · -- Found later in the list, the word passes the same test.
      have hword := List.find?_some hlater
      exact hword
  · exact fun hshown => .inl ⟨hshown, rfl⟩

/-- The first word that the reading of a frame is offered is the registered one exactly when
the reading gives it. -/
theorem givesWord_iff (hframe : frame.Wf) (hdict : self.dict = .user user :: others) :
    (((self.learnAll frame.entry).offers frame.originalMidashi frame.okuriKey).map
        Offer.word).head? = some frame.word ↔ self.GivesWord others frame := by
  have hkey : lookupKeyOf frame.originalMidashi = frame.midashi := by
    rw [lookupKeyOf_eq, hframe.scanned]
  have hshown : (self.learnAll frame.entry).shownWords frame.originalMidashi frame.okuriKey =
      self.unlisted frame
          ((self.learnAll frame.entry).expansions frame.digitRuns frame.word) ++
        self.unlisted frame ((self.otherEntries frame).flatMap (self.overDigits frame)) := by
    rw [unlisted, unlisted, ← List.filter_append, shownWords, ignoredFor, hkey, hframe.scanned]
    conv_lhs =>
      rw [lookupAll_learned hdict, List.filter_cons_of_pos (by rfl), List.flatMap_cons]
    rw [← lookupAll_learned hdict]
    rfl
  rw [head?_offers, hshown, hframe.scanned, GivesWord]
  dsimp only
  by_cases hdigits : frame.digitRuns = []
  · -- Without digits the word stands for itself, in front of everything else.
    rw [if_pos hdigits, if_pos hdigits, List.append_nil, expansions, if_pos hdigits,
      head?_unlisted_self, mem_listedWords_learned hdict]
  · rw [if_neg hdigits, if_neg hdigits]

/-- The ordinary case: a word without markers stands for itself over any digits, so its
reading gives it unless another provider hides it. -/
theorem givesWord_of_markerFree (hdict : self.dict = .user user :: others)
    (hfree : markerFree frame.word)
    (hshown : self.lispDirectives = true → ¬ othersHide others frame) :
    self.GivesWord others frame := by
  rw [GivesWord]
  by_cases hdigits : frame.digitRuns = []
  · rw [if_pos hdigits]
    exact hshown
  · have hself : (self.learnAll frame.entry).expansions frame.digitRuns frame.word =
        [frame.word] := by
      rw [expansions, if_neg hdigits, expandWithRecursiveLookup_of_markerFree hfree]
    rw [← mem_listedWords_learned hdict] at hshown
    rw [if_neg hdigits, hself, List.head?_append, (head?_unlisted_self _ _).mpr hshown]
    rfl

/-- What is committed is offered first exactly when the registered word is the first offer:
a conversion focuses the head of the list. -/
theorem registersCommitted_iff (hframe : frame.Wf) (hframes : self'.registerStack = [])
    (htext : committedText actions = frame.word ++ frame.okuriKana.getD []) :
    self'.RegistersCommitted actions frame ↔
      ((self'.offers frame.originalMidashi frame.okuriKey).map Offer.word).head? =
        some frame.word := by
  have hstackWf : ∀ below ∈ self'.registerStack, below.Wf := by
    rw [hframes]
    exact fun _ hmem => by cases hmem
  obtain ⟨r, hr, hopens⟩ := startConversion_opens hstackWf frame.originalMidashi frame.okuri
  have hfirst := hopens.first_iff frame.word
  rw [hframe.map_okuri] at hfirst
  rw [← hfirst]
  unfold RegistersCommitted
  rw [hr]
  constructor
  · rintro ⟨word, hword, hconverts⟩
    -- The okurigana is on both sides, so the words are the same.
    have hsame := List.append_cancel_right (htext.symm.trans hword)
    rw [hsame]
    exact hconverts.of_ok rfl
  · exact fun hoffered => ⟨frame.word, htext, runs_ok.mpr hoffered⟩

/-- Over every run: completing the outermost frame commits the word the next conversion of
its reading offers first, exactly when the reading gives the registered word. -/
theorem registers_of_session [EucJp]
    (hrun : Session (fresh kanaTable keybindings lispDirectives initialPhase providers)
      history self)
    (hstack : self.registerStack = [frame]) (hne : frame.committed ≠ [])
    (hdict : self.dict = .user user :: others) (hfinishes : self.finishes event)
    (hstep : Step self event self' actions) :
    self'.RegistersCommitted actions frame ↔ self.GivesWord others frame := by
  have hframe : frame.Wf := (Session.wf (fresh_wf ..) hrun).frames frame (by simp [hstack])
  obtain ⟨hdict', hframes, hlisp, htext⟩ := step_of_finishes hstack hne hfinishes hstep
  -- The engine after the key has the dictionaries and the setting of the one that learned.
  have hwords : self'.shownWords = (self.learnAll frame.entry).shownWords :=
    shownWords_congr hdict' hlisp
  rw [registersCommitted_iff hframe hframes htext, ← givesWord_iff hframe hdict,
    head?_offers, head?_offers, hwords]

end Run

/-- The keys that lead to a registration for `1x`, and fill its buffer with `#1`. -/
def templateKeys : List KeyEvent :=
  KeyEvent.typed ['/', '1', 'x'] ++ List.replicate 5 (.press .space {}) ++
    KeyEvent.typed ['#', '1']

/-- The registration of `#1` for `1x` commits `#1`, where the next conversion offers `１`. The
word is learned as a template, and it is committed as it was typed. -/
theorem template_committed :
    letI := EucJp.empty
    ∃ (history : History (Provider Empty)) (self self' : SkkEngine (Provider Empty))
      (actions : List EngineAction) (frame : RegisterFrame),
      Session (fresh vowelTable {} true .hiragana [.user .empty]) history self ∧
      history.map Visit.input = templateKeys ∧ self.registerStack = [frame] ∧
      frame.committed = ['#', '1'] ∧ self.dict = [.user .empty] ∧
      self.finishes (.press .returnKey {}) ∧ Step self (.press .returnKey {}) self' actions ∧
      ¬ self'.RegistersCommitted actions frame := by
  let _ := EucJp.empty
  have hrecord := exists_session (fresh vowelTable {} true .hiragana [.user .empty]) templateKeys
    (fun _ (self : SkkEngine (Provider Empty)) =>
      self.registerStack = [⟨['#', 'x'], ['1', 'x'], [['1']], none, none, ['#', '1'], 2, true⟩] ∧
      self.dict = [.user .empty] ∧ self.finishes (.press .returnKey {}) ∧
      ∃ r ∈ (self.processKey (.press .returnKey {})).toOption, committedText r.2 = ['#', '1'] ∧
        ∃ r' ∈ (r.1.startConversion ['1', 'x'] none).toOption,
          r'.1.phase = .selecting ⟨['1', 'x'], none, none, [.new ['１']],
            [.dict ['#', 'x'] ['#', '1']], 0⟩)
    (by decide +kernel)
  obtain ⟨history, self, hrun, hinputs, hstack, hdict, hfinishes, r, hr, htext, r', hr', hphase⟩ :=
    hrecord
  refine ⟨history, self, r.1, r.2, _, hrun, hinputs, hstack, rfl, hdict, hfinishes,
    ok_of_mem_toOption hr, ?_⟩
  rintro ⟨word, hword, hconverts⟩
  obtain ⟨s, first, hs, hfirst, rfl⟩ := hconverts.of_ok (ok_of_mem_toOption hr')
  rw [hphase] at hs
  cases hs
  cases hfirst
  rw [htext] at hword
  cases hword

/-- The registration of `あ` for `1x`: a word without markers for a reading with a digit. It
commits what the next conversion of `1x` offers. The user dictionary is the only one, and it
starts empty. -/
theorem registers_of_session_plain :
    letI := EucJp.empty
    ∃ (history : History (Provider Empty)) (self self' : SkkEngine (Provider Empty))
      (actions : List EngineAction) (frame : RegisterFrame),
      Session (fresh vowelTable {} true .hiragana [.user .empty]) history self ∧
      self.registerStack = [frame] ∧ frame.originalMidashi = ['1', 'x'] ∧
      frame.committed = ['あ'] ∧
      Step self (.press .returnKey {}) self' actions ∧ self'.RegistersCommitted actions frame := by
  let _ := EucJp.empty
  have hrecord := exists_session (fresh vowelTable {} true .hiragana [.user .empty])
    (KeyEvent.typed ['/', '1', 'x'] ++ List.replicate 5 (.press .space {}) ++
      KeyEvent.typed ['a'])
    (fun _ (self : SkkEngine (Provider Empty)) =>
      self.registerStack = [⟨['#', 'x'], ['1', 'x'], [['1']], none, none, ['あ'], 3, true⟩] ∧
      self.dict = [.user .empty] ∧ self.finishes (.press .returnKey {}))
    (by decide +kernel)
  obtain ⟨history, self, hrun, -, hstack, hdict, hfinishes⟩ := hrecord
  obtain ⟨r, hstep, -⟩ := processKey_wf (Session.wf (fresh_wf ..) hrun) (.press .returnKey {})
  have hgives : self.GivesWord ([] : List (Provider Empty))
      ⟨['#', 'x'], ['1', 'x'], [['1']], none, none, ['あ'], 3, true⟩ :=
    givesWord_of_markerFree hdict (by decide) fun _ hhides => by cases hhides
  exact ⟨history, self, r.1, r.2, _, hrun, hstack, rfl, rfl, hstep,
    (registers_of_session hrun hstack (List.cons_ne_nil _ _) hdict hfinishes hstep).mpr hgives⟩

end SkkEngine

end Y2Skk
