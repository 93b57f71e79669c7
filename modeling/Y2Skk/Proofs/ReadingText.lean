import Y2Skk.Proofs.CodeInput
import Y2Skk.Proofs.Reading

/-!
# `Y2Skk.Proofs.ReadingText`: typing a reading

`handleMidashi` has its own loop over the kana table. `reading_of_wf` says what it
computes over whole runs: the characters typed in ▽ make the reading grow by what the
transducer of the table writes, and its romaji stay pending. Hiragana mode is the same
transducer, and so the two agree: `reading_agrees_of_session` says that the reading grows
by the text that Hiragana mode commits.

## Which characters

`readsOn` says which characters go to the table and are read on there. A character without
a rule is not among them: Hiragana mode commits it as it is, and a reading drops it.
Others are commands here, or digits, or they end the reading with the kana they complete.

## One character

`handleMidashi_typed` is one character as one step of the transducer. The table takes it
(`handleMidashi_taken`), or settles what is pending and hands it back, and then the
handler calls itself once more (`handleMidashi_handedBack`). A character that is handed
back opens a rule, so it is not handed back a second time.
-/

set_option autoImplicit false

namespace Y2Skk

open Outcome Utf8 Transition

namespace KanaTable

/-- The table has a rule for a character in the start state. -/
def opens (table : KanaTable) (c : Char) : Bool :=
  match table.transition [] c .hiragana with
  | .ok _ _ => true
  | _ => false

/-- The table takes such a character, and writes something or keeps it pending. -/
theorem opens_iff {table : KanaTable} {c : Char} : table.opens c = true ↔
    ∃ output nextState, table.transition [] c .hiragana = .ok output nextState := by
  unfold opens
  cases table.transition [] c .hiragana with
  | ok output nextState => simp
  | okRetry output retry => simp
  | noMatch flush retry => simp

end KanaTable

namespace SkkEngine

variable {δ : Type} [DictionaryProvider δ]

/-! ### One character -/

/-- A character that converts the reading as one of the configured trigger characters. -/
def isTrigger (self : SkkEngine δ) (c : Char) : Bool :=
  decide (c ∈ self.keybindings.conversionTriggerChars)

/-- The table reads the character on, and neither it nor its kana converts the reading. A
character that is handed back after the pending romaji has to start a rule, and a character
without any rule is not read on. -/
def readsOn (self : SkkEngine δ) (c : Char) : Bool :=
  !isAffixChar c && !c.isDigit && !c.isUpper &&
    (match self.kanaTable.transition self.kanaState c .hiragana with
    | .ok _ _ => !self.kanaState.isEmpty || !(isAscii c && self.isTrigger c)
    | .okRetry _ _ | .noMatch _ (some _) =>
        self.kanaTable.opens c && !(isAscii c && self.isTrigger c)
    | .noMatch _ none => false) &&
    ((self.kanaTable.typing .hiragana).step self.kanaState c).1.all fun d =>
      isAscii d || !self.isTrigger d

/-- What becomes of a reading that goes on: it is longer, and nothing was committed or looked
up. -/
structure ReadOn (start : SkkEngine δ) (reading pending : Str)
    (r : SkkEngine δ × List EngineAction) : Prop where
  state : ∃ completion, r.1 = { start with
    completion := completion, phase := .midashi reading pending, kanaState := pending }
  drawn : ∃ preedit, r.2 = [.updatePreedit preedit]

section Key
variable {self : SkkEngine δ} {c : Char} {kanaBuf romanBuf : Str}

omit [DictionaryProvider δ] in
/-- No kana that the table writes ends the reading. The last character of the reading is the
last one written, which is ASCII or no trigger, and the test asks for neither. -/
theorem endsInTrigger_of_all {output : Str} (hsome : output ≠ [])
    (hall : output.all fun d => isAscii d || !self.isTrigger d) :
    self.endsInTrigger (kanaBuf ++ output) = none := by
  cases hends : self.endsInTrigger (kanaBuf ++ output) with
  | none => rfl
  | some last =>
      have hlast := (Option.filter_eq_some_iff.mp hends).2
      have hmem : last ∈ output := by
        have hget := endsInTrigger_eq_some hends
        rw [List.getLast?_append_of_ne_nil _ hsome] at hget
        exact List.mem_of_getLast? hget
      have hno := List.all_eq_true.mp hall last hmem
      simp only [isTrigger, Bool.or_eq_true, Bool.not_eq_true', decide_eq_false_iff_not] at hno
      simp only [Bool.and_eq_true, Bool.not_eq_true', decide_eq_true_eq] at hlast
      rcases hno with hascii | hfree
      · rw [hascii] at hlast
        cases hlast.1
      · exact absurd hlast.2 hfree

omit [DictionaryProvider δ] in
/-- A reading is well-formed with its romaji pending. -/
theorem Wf.withReadingText (hself : self.Wf) (reading pending : Str)
    (completion : Option CompletionState) : SkkEngine.Wf { self with
      completion := completion, phase := .midashi reading pending, kanaState := pending } :=
  ⟨hself.frames, rfl⟩

/-- A character that the reading takes as it is. -/
def IsReadable (c : Char) : Prop := isAffixChar c = false ∧ c.isDigit = false ∧ c.isUpper = false

/-- A character that is not uppercase is typed as it is. -/
theorem toLower_eq_self (hupper : c.isUpper = false) : c.toLower = c := by
  unfold Char.toLower
  refine dif_neg fun h => ?_
  have hyes : c.isUpper = true := decide_eq_true h
  rw [hupper] at hyes
  cases hyes

/-- The table takes a character: the kana it writes goes to the reading, and the romaji stay
pending. The character is readable, so none of the commands of a reading applies to it. -/
theorem handleMidashi_taken (hself : self.Wf) (hplain : IsReadable c)
    (htrigger : self.kanaState ≠ [] ∨ (isAscii c && self.isTrigger c) = false)
    {output nextState : Str}
    (htable : self.kanaTable.transition self.kanaState c .hiragana = .ok output nextState)
    (hall : output.all fun d => isAscii d || !self.isTrigger d) (fuel : Nat) :
    Runs (self.handleMidashi (fuel + 1) (.press (.char c) {}) kanaBuf romanBuf)
      (ReadOn self (kanaBuf ++ output) nextState) := by
  obtain ⟨haffix, hdigit, hupper⟩ := hplain
  have hlower : c.toLower = c := toLower_eq_self hupper
  -- an ASCII trigger converts with nothing pending only, which the hypothesis excludes
  have hnot : ¬(isAscii c ∧ self.kanaState.isEmpty ∧
      c ∈ self.keybindings.conversionTriggerChars) := by
    rintro ⟨hascii, hempty, hmem⟩
    rcases htrigger with hsome | hfree
    · exact hsome (by simpa using hempty)
    · simp [hascii, isTrigger, hmem] at hfree
  unfold handleMidashi
  rw [if_neg (by simp [KeyEvent.press]), if_neg (by simp [KeyEvent.press]),
    if_neg (by simp [KeyEvent.press]), if_neg (by simp [KeyEvent.press]),
    if_neg (by simp [KeyEvent.press]), if_neg (by simp [KeyEvent.press])]
  dsimp only [KeyEvent.printableChar, KeyEvent.press]
  rw [if_neg hnot, if_neg (by simp [haffix])]
  simp only [hdigit, hupper, Bool.false_eq_true, false_and, if_false, hlower, htable]
  obtain ⟨last, hsome, -, hends, -⟩ | ⟨-, completion, hfed⟩ :=
    self.midashiFeed_cases kanaBuf output nextState
  · rw [endsInTrigger_of_all hsome hall] at hends
    cases hends
  · rw [hfed]
    obtain ⟨preedit, -, -, haction⟩ :=
      preeditAction_eq (hself.withReadingText (kanaBuf ++ output) nextState completion)
    exact redraw_runs_iff.mpr ⟨_, haction, ⟨completion, rfl⟩, preedit, rfl⟩

/-- What the table writes before it hands a character back. -/
def handedText : TransitionResult → Str
  | .okRetry output _ => output
  | _ => []

/-- The table hands the character back, and it is read again. What was pending is settled and
goes to the reading, so the character meets a longer reading with nothing pending. -/
theorem handleMidashi_handedBack (hplain : IsReadable c) (hpending : self.kanaState ≠ [])
    (hretry : KanaTable.retryOf (self.kanaTable.transition self.kanaState c .hiragana) = some c)
    {settled : Str}
    (hsettled : handedText (self.kanaTable.transition self.kanaState c .hiragana) = settled)
    (fuel : Nat) :
    self.handleMidashi (fuel + 1) (.press (.char c) {}) kanaBuf romanBuf =
      SkkEngine.handleMidashi fuel
        { self with kanaState := [], phase := .midashi (kanaBuf ++ settled) [] }
        (.press (.char c) {}) (kanaBuf ++ settled) [] := by
  obtain ⟨haffix, hdigit, hupper⟩ := hplain
  have hlower : c.toLower = c := toLower_eq_self hupper
  subst hsettled
  conv_lhs => unfold handleMidashi
  rw [if_neg (by simp [KeyEvent.press]), if_neg (by simp [KeyEvent.press]),
    if_neg (by simp [KeyEvent.press]), if_neg (by simp [KeyEvent.press]),
    if_neg (by simp [KeyEvent.press]), if_neg (by simp [KeyEvent.press])]
  dsimp only [KeyEvent.printableChar, KeyEvent.press]
  -- With romaji pending the character is no trigger, and it is none of the characters with a
  -- branch of their own.
  rw [if_neg (by simp [hpending]), if_neg (by simp [haffix])]
  simp only [hdigit, hupper, Bool.false_eq_true, false_and, if_false, hlower]
  cases htable : self.kanaTable.transition self.kanaState c .hiragana with
  | ok output nextState =>
      rw [htable] at hretry
      cases hretry
  | okRetry output retry =>
      rw [htable] at hretry
      cases hretry
      rfl
  | noMatch flush retry =>
      rw [htable] at hretry
      cases retry with
      | none => cases hretry
      | some retry =>
          cases hretry
          dsimp only [handedText]
          rw [List.append_nil]

/-- One character of a reading is one step of the transducer: what the step writes is appended
to the reading, and its state is the pending romaji. The cases are those of the table's
answer. -/
theorem handleMidashi_typed (kanaBuf romanBuf : Str) (hself : self.Wf) (hreads : self.readsOn c) :
    Runs (self.handleMidashi redispatchFuel (.press (.char c) {}) kanaBuf romanBuf)
      (ReadOn self (kanaBuf ++ ((self.kanaTable.typing .hiragana).step self.kanaState c).1)
        ((self.kanaTable.typing .hiragana).step self.kanaState c).2) := by
  unfold readsOn at hreads
  simp only [Bool.and_eq_true, Bool.not_eq_true'] at hreads
  obtain ⟨⟨⟨⟨haffix, hdigit⟩, hupper⟩, htakes⟩, hall⟩ := hreads
  have hplain : IsReadable c := ⟨haffix, hdigit, hupper⟩
  -- A character that is handed back opens a rule, and so it comes back only once.
  have hretried : ∀ settled, handedText (self.kanaTable.transition self.kanaState c .hiragana) =
        settled → KanaTable.retryOf (self.kanaTable.transition self.kanaState c .hiragana) =
        some c → self.kanaTable.opens c → (isAscii c && self.isTrigger c) = false →
      ((settled ++ (self.kanaTable.begins .hiragana c).1).all fun d =>
        isAscii d || !self.isTrigger d) →
      Runs (self.handleMidashi redispatchFuel (.press (.char c) {}) kanaBuf romanBuf)
        (ReadOn self (kanaBuf ++ (settled ++ (self.kanaTable.begins .hiragana c).1))
          (self.kanaTable.begins .hiragana c).2) := by
    intro settled hsettled hretry hopens hfree hwritten
    have hpending : self.kanaState ≠ [] := by
      intro hnil
      rw [hnil] at hretry
      obtain ⟨output, nextState, htable⟩ := KanaTable.opens_iff.mp hopens
      rw [htable] at hretry
      cases hretry
    obtain ⟨output, nextState, htable⟩ := KanaTable.opens_iff.mp hopens
    have hbegins : self.kanaTable.begins .hiragana c = (output, nextState) := by
      rw [KanaTable.begins, htable]
    rw [hbegins] at hwritten ⊢
    rw [redispatchFuel, handleMidashi_handedBack hplain hpending hretry hsettled]
    have hwf : SkkEngine.Wf { self with
        kanaState := [], phase := .midashi (kanaBuf ++ settled) [] } := ⟨hself.frames, rfl⟩
    refine (handleMidashi_taken hwf hplain (.inr hfree) htable ?_ 0).mono fun r hr => ?_
    · rw [List.all_append, Bool.and_eq_true] at hwritten
      exact hwritten.2
    · rw [← List.append_assoc]
      exact ⟨hr.state, hr.drawn⟩
  unfold KanaTable.typing at hall ⊢
  dsimp only at hall ⊢
  cases htable : self.kanaTable.transition self.kanaState c .hiragana with
  | ok output nextState =>
      rw [htable] at htakes hall
      rw [Bool.or_eq_true] at htakes
      refine handleMidashi_taken hself hplain (htakes.imp ?_ ?_) htable hall _
      · intro hsome
        simpa using hsome
      · exact (Bool.not_eq_true' _).mp
  | okRetry output retry =>
      rw [htable] at htakes hall
      simp only [Bool.and_eq_true, Bool.not_eq_true'] at htakes
      obtain rfl : retry = c := KanaTable.retryOf_eq (by rw [htable]; rfl)
      exact hretried output (by rw [htable]; rfl) (by rw [htable]; rfl) htakes.1 htakes.2 hall
  | noMatch flush retry =>
      rw [htable] at htakes hall
      cases retry with
      | none => cases htakes
      | some retry =>
          simp only [Bool.and_eq_true, Bool.not_eq_true'] at htakes
          obtain rfl : retry = c := KanaTable.retryOf_eq (by rw [htable]; rfl)
          exact hretried [] (by rw [htable]; rfl) (by rw [htable]; rfl) htakes.1 htakes.2 hall

variable [EucJp]

/-- The press is a plain character that the reading takes. -/
def typesReading (self : SkkEngine δ) (event : KeyEvent) : Bool :=
  match event.key with
  | .char c => decide (event = .press (.char c) {}) && self.cooks event && !self.isToggle event &&
      self.readsOn c
  | _ => false

omit [DictionaryProvider δ] [EucJp] in
/-- Such a press is a plain character, raw mode is off and no toggle takes it. -/
theorem typesReading_iff {event : KeyEvent} : self.typesReading event ↔ ∃ c,
    event = .press (.char c) {} ∧ self.cooks event ∧ self.isToggle event = false ∧
      self.readsOn c := by
  unfold typesReading
  constructor
  · intro htypes
    cases hkey : event.key with
    | char c =>
        rw [hkey] at htypes
        simp only [Bool.and_eq_true, decide_eq_true_eq, Bool.not_eq_true'] at htypes
        exact ⟨c, htypes.1.1.1, htypes.1.1.2, htypes.1.2, htypes.2⟩
    | _ => rw [hkey] at htypes; cases htypes
  · rintro ⟨c, rfl, hcooks, htoggle, hreads⟩
    rw [KeyEvent.press] at hcooks htoggle
    simpa [KeyEvent.press, hcooks, htoggle] using hreads

/-- The reading takes the character. The key is the handler's inside a registration as well, and
nothing is committed, so the frames stay what they were. -/
theorem processKey_reading (hself : self.Wf) (hphase : self.phase = .midashi kanaBuf romanBuf)
    (hcooks : self.cooks (.press (.char c) {}))
    (htoggle : self.isToggle (.press (.char c) {}) = false) (hreads : self.readsOn c) :
    ∃ completion actions, self.processKey (.press (.char c) {}) = .ok ({ self with
        completion := completion
        phase := .midashi
          (kanaBuf ++ ((self.kanaTable.typing .hiragana).step self.kanaState c).1)
          ((self.kanaTable.typing .hiragana).step self.kanaState c).2
        kanaState := ((self.kanaTable.typing .hiragana).step self.kanaState c).2 }, actions) ∧
      committedText actions = [] := by
  obtain ⟨⟨mid, rawActions⟩, hmidashi, ⟨completion, rfl⟩, preedit, rfl⟩ :=
    handleMidashi_typed kanaBuf romanBuf hself hreads
  have hdispatch := (dispatch_midashi hphase).trans hmidashi
  have hflush : flushText self.phase = some kanaBuf := by
    rw [hphase]
    rfl
  have hkey : self.registrationKey (.press (.char c) {}) = none :=
    registrationKey_of_flushText hflush (by simp [isCtrlG, KeyEvent.press])
      (by simp [KeyEvent.press])
  obtain ⟨stack, actions, hprocess, hdelivers⟩ := processKey_delivers hcooks hkey htoggle hdispatch
    (hself.withReadingText _ _ completion) rfl (by simp [RedrawsText, EngineAction.isRedrawn])
  obtain ⟨hcommitted, rfl⟩ := hdelivers.eq_of_nil hself.frames
  exact ⟨completion, actions, hprocess, hcommitted⟩

end Key

/-! ### Runs -/

section Runs
variable [EucJp] {start self : SkkEngine δ} {history : History δ} {kanaBuf romanBuf : Str}

/-- The characters of a run make the reading grow, and nothing else happens but to the
completion. The induction is on the run, with the transducer over the characters typed so
far. -/
theorem reading_of_wf (hstart : start.Wf) (hphase : start.phase = .midashi kanaBuf romanBuf)
    (hrun : Session start history self) (hreads : ∀ v ∈ history, v.pre.typesReading v.input) :
    ∃ completion, self = { start with
        completion := completion
        phase := .midashi (kanaBuf ++ (start.kanaText history).1) (start.kanaText history).2
        kanaState := (start.kanaText history).2 } ∧ self.Wf ∧
      committedText (outputs history) = [] := by
  refine hrun.history (fun history self => ∃ completion, self = { start with
        completion := completion
        phase := .midashi (kanaBuf ++ (start.kanaText history).1) (start.kanaText history).2
        kanaState := (start.kanaText history).2 } ∧ self.Wf ∧
      committedText (outputs history) = [])
    (fun self event => self.typesReading event) ?_ ?_ hreads
  · -- The romaji shown in a reading is what is pending.
    have hromaji : start.kanaState = romanBuf := (hstart.phase_eq hphase)
    refine ⟨start.completion, ?_, hstart, rfl⟩
    have hsame : start.phase = .midashi (kanaBuf ++ []) start.kanaState := by
      rw [List.append_nil, hromaji, hphase]
    change start = { start with phase := .midashi (kanaBuf ++ []) start.kanaState }
    rw [← hsame]
  · rintro history self event self' actions _ ⟨completion, rfl, hwf, hnone⟩ hread hstep
    obtain ⟨c, rfl, hcooks, htoggle, hreadsOn⟩ := typesReading_iff.mp hread
    obtain ⟨completion', actions', hkey, hcommitted⟩ :=
      processKey_reading hwf rfl hcooks htoggle hreadsOn
    have hwf' := ((processKey_wf hwf _).of_ok hstep).1
    obtain ⟨rfl, rfl⟩ := Prod.mk.inj (Except.ok.inj (hkey.symm.trans hstep))
    have hmode : kanaModeOf start.phase = .hiragana := by rw [hphase]; rfl
    rw [kanaText_snoc, outputs_snoc, committedText_append, hnone, hmode, ← List.append_assoc]
    exact ⟨completion', rfl, hwf', hcommitted⟩

/-- A reading and Hiragana mode read the same characters: the reading has grown by the text that
Hiragana mode has committed, with the same romaji pending. Typing it has committed nothing, and
touched no registration. -/
theorem reading_agrees_of_session {kanaTable : KanaTable}
    {keybindings keybindings' : SkkKeybindings} {lispDirectives lispDirectives' : Bool}
    {initialPhase initialPhase' : SkkPhase} {providers providers' : List δ}
    {before before' history' : History δ} {start' self' : SkkEngine δ}
    (hbefore : Session (fresh kanaTable keybindings lispDirectives initialPhase providers) before
      start)
    (hbefore' : Session (fresh kanaTable keybindings' lispDirectives' initialPhase' providers')
      before' start')
    (hphase : start.phase = .midashi kanaBuf romanBuf) (hhiragana : start'.phase = .hiragana)
    (hpending : start'.kanaState = start.kanaState) (houtside : start'.registerStack = [])
    (hrun : Session start history self) (hrun' : Session start' history' self')
    (hreads : ∀ v ∈ history, v.pre.typesReading v.input)
    (htypes : ∀ v ∈ history', v.pre.typesKana v.input)
    (hsame : typedText history' = typedText history) :
    ∃ completion, self = { start with
        completion := completion
        phase := .midashi (kanaBuf ++ committedText (outputs history')) self'.kanaState
        kanaState := self'.kanaState } ∧ committedText (outputs history) = [] := by
  have hstart := hbefore.wf (fresh_wf ..)
  have hstart' := hbefore'.wf (fresh_wf ..)
  obtain ⟨completion, hself, -, hnone⟩ := reading_of_wf hstart hphase hrun hreads
  obtain ⟨stack, hself', -, hdelivers⟩ :=
    kanaText_of_wf hstart' (by rw [hhiragana]; rfl) hrun' htypes
  -- Both runs are described by the transducer of one table, from the same romaji over the same
  -- text.
  have htext : start'.kanaText history' = start.kanaText history := by
    unfold kanaText
    rw [hsame, hpending, kanaTable_of_session hbefore, kanaTable_of_session hbefore', hphase,
      hhiragana]
    rfl
  rw [houtside] at hdelivers
  rw [hdelivers.2, hself', htext]
  exact ⟨completion, hself, hnone⟩

omit [EucJp] in
/-- `Kankan` in ▽ and `kankan` in Hiragana mode. The first letter is typed before the two runs
begin, as the capital opens the reading. -/
theorem reading_agrees_of_session_kanka : letI := EucJp.empty
    ∃ before start history self, Session (kankaEngine .hiragana) before start ∧
      start.phase = .midashi [] ['k'] ∧ Session start history self ∧
      self.phase = .midashi ['か', 'ん', 'か'] ['n'] ∧ committedText (outputs history) = [] := by
  let _ := EucJp.empty
  obtain ⟨before, start, hbefore, -, hphase, hpending, hmore⟩ := exists_session
    (kankaEngine .hiragana) (KeyEvent.typed ['K']) (fun _ start =>
      start.phase = .midashi [] ['k'] ∧ start.kanaState = ['k'] ∧
      (start.record (KeyEvent.typed kanka.tail)).map (fun r => decide (
        (∀ v ∈ r.1, v.pre.typesReading v.input) ∧ typedText r.1 = kanka.tail)) = .ok true)
    (by decide +kernel)
  obtain ⟨before', start', hbefore', -, hphase', hpending', hstack', hmore'⟩ := exists_session
    (kankaEngine .hiragana) (KeyEvent.typed ['k']) (fun _ start =>
      start.phase = .hiragana ∧ start.kanaState = ['k'] ∧ start.registerStack = [] ∧
      (start.record (KeyEvent.typed kanka.tail)).map (fun r => decide (
        (∀ v ∈ r.1, v.pre.typesKana v.input) ∧ typedText r.1 = kanka.tail ∧
        committedText (outputs r.1) = ['か', 'ん', 'か'] ∧ r.2.kanaState = ['n'])) = .ok true)
    (by decide +kernel)
  obtain ⟨history, self, hrun, -, hreads, htyped⟩ := exists_session start _
    (fun history _ => (∀ v ∈ history, v.pre.typesReading v.input) ∧
      typedText history = kanka.tail) hmore
  obtain ⟨history', self', hrun', -, htypes, htyped', htext, hlast⟩ := exists_session start' _
    (fun history self => (∀ v ∈ history, v.pre.typesKana v.input) ∧
      typedText history = kanka.tail ∧ committedText (outputs history) = ['か', 'ん', 'か'] ∧
      self.kanaState = ['n']) hmore'
  obtain ⟨completion, hself, hnone⟩ := reading_agrees_of_session hbefore hbefore' hphase hphase'
    (hpending'.trans hpending.symm) hstack' hrun hrun' hreads htypes (htyped'.trans htyped.symm)
  rw [htext, hlast] at hself
  exact ⟨before, start, history, self, hbefore, hphase, hrun, by rw [hself]; rfl, hnone⟩

end Runs

end SkkEngine

end Y2Skk
