import Y2Skk.Proofs.Conclude
import Y2Skk.Proofs.Pending

/-!
# `Y2Skk.Proofs.Reading`: the ways to end a reading

Space looks a reading up, Return and `C-q` send it, and `>`, `<` and `?` look it up as a
prefix. A romaji that is pending at that moment belongs to the reading when it is `n`, and
is dropped otherwise (`flushN`).

## Four codes for one thing

Each way has its own code for that. Space and Return outside a registration call `flushN`.
Return inside a registration sends the reading without what is pending, and so does `C-q`.
A prefix key adds the romaji itself. `ending_result` says which reading each of them ends,
and `SeesReading` when it is the right one.

## Reading it off the result

`Ends` says of the state after the key and its actions that a given reading was ended: it
was looked up, or its text was sent. What was looked up and what was sent can be read off
the result (`LooksUp.lookedUp`, `Sends.unique`), so that two different readings cannot
both have been ended. `ends_iff_of_session` is the comparison in every run, keys that do
not get through to the reading included.
-/

set_option autoImplicit false

namespace Y2Skk

open Outcome Utf8 Transition

/-- The ways to end a reading. -/
inductive Ending where
  /-- Space. -/
  | convert
  /-- Return. -/
  | commit
  /-- `C-q`. -/
  | halfwidth
  /-- `>`, `<` or `?`. -/
  | affix (ch : Char)
  deriving DecidableEq

/-- The key that ends a reading that way. -/
def KeyEvent.EndsBy (event : KeyEvent) : Ending → Prop
  | .convert => event.key = .space
  | .commit => event.key = .returnKey
  | .halfwidth => event.key = .char 'q' ∧ event.modifiers.ctrl
  | .affix ch => event.key = .char ch ∧ isAffixChar ch

namespace SkkEngine

/-- Flushing leaves the reading alone unless the pending romaji is `n`, the only one that is a
kana by itself. -/
theorem flushN_eq_iff (kanaBuf romanBuf : Str) : flushN kanaBuf romanBuf = kanaBuf ↔
    romanBuf ≠ ['n'] := by
  unfold flushN
  split
  · rename_i h
    simp [h]
  · rename_i h
    simp [h]

/-- It never adds the romaji itself. -/
theorem flushN_eq_append_iff (kanaBuf romanBuf : Str) :
    flushN kanaBuf romanBuf = kanaBuf ++ romanBuf ↔ romanBuf = [] := by
  unfold flushN
  split
  · rename_i h
    simp [h]
  · simp

/-- The half-width form tells the two readings apart as well: it has one character more for the
`ん`. -/
theorem halfwidth_flushN_eq_iff (kanaBuf romanBuf : Str) :
    hiraganaToHalfwidth (flushN kanaBuf romanBuf) = hiraganaToHalfwidth kanaBuf ↔
      romanBuf ≠ ['n'] := by
  rw [← flushN_eq_iff kanaBuf romanBuf]
  constructor
  · intro h
    unfold flushN at h ⊢
    split
    · rename_i hn
      rw [if_pos hn] at h
      have hlength := congrArg List.length h
      simp [hiraganaToHalfwidth, toHalfwidthKatakana, show charToKatakana 'ん' = 'ン' from rfl,
        show halfwidthTable.lookup 'ン' = some ['ﾝ'] from rfl] at hlength
    · rfl
  · intro h
    rw [h]

variable {δ : Type} [DictionaryProvider δ]

/-! ### What an ending comes to -/

/-- The state a reading is looked up in: without a completion, and with nothing pending. -/
def readingDone (self : SkkEngine δ) : SkkEngine δ :=
  { self with completion := none, kanaState := [] }

/-- `reading` was looked up. -/
def LooksUp (start : SkkEngine δ) (reading : Str) (self' : SkkEngine δ)
    (actions : List EngineAction) : Prop :=
  ∃ r status, (do
    let r ← start.readingDone.startConversion reading none
    conclude r) = .ok r ∧ IsStatus status ∧ self' = r.1 ∧ actions = r.2 ++ status

/-- The composition is over, and `text` went to the application or into the top frame. -/
structure Sends (start : SkkEngine δ) (text : Str) (self' : SkkEngine δ)
    (actions : List EngineAction) : Prop where
  phase : self'.phase.isKana
  outside : start.registerStack = [] → committedText actions = text
  inside : ∀ frame frames, start.registerStack = frame :: frames →
    ∃ frame', frame.insert text = .ok frame' ∧ self'.registerStack = frame' :: frames

/-- The reading `reading` was ended. -/
def Ends (start : SkkEngine δ) (reading : Str) (self' : SkkEngine δ) (actions : List EngineAction) :
    Ending → Prop
  | .convert => LooksUp start reading self' actions
  | .commit => Sends start reading self' actions
  | .halfwidth => Sends start (hiraganaToHalfwidth reading) self' actions
  | .affix _ => LooksUp start (reading ++ ['>']) self' actions

variable {start self self' : SkkEngine δ} {actions : List EngineAction}

omit [DictionaryProvider δ] in
/-- What was sent can be read off the result, in a registration and outside: from the committed
text, or from the buffer of the top frame. -/
theorem Sends.unique {text text' : Str} (hstart : start.Wf) (h : Sends start text self' actions)
    (h' : Sends start text' self' actions) : text = text' := by
  cases hstack : start.registerStack with
  | nil => exact (h.outside hstack).symm.trans (h'.outside hstack)
  | cons frame frames =>
      obtain ⟨top, hinsert, hself⟩ := h.inside _ _ hstack
      obtain ⟨top', hinsert', hself'⟩ := h'.inside _ _ hstack
      rw [hself] at hself'
      cases hself'
      have hframe : frame.Wf := hstart.frames frame (by simp [hstack])
      exact RegisterFrame.insert_injective hframe hinsert hinsert'

omit [DictionaryProvider δ] in
/-- The reading and okurigana that were looked up on the way from `start` to `self'`, where a
selection or a registration was opened. -/
def lookedUp (start self' : SkkEngine δ) : Option (Str × Option Str) :=
  match self'.phase with
  | .selecting s => some (s.midashi, s.okuri)
  | _ =>
      if self'.registerStack.length = start.registerStack.length then none
      else self'.registerStack.head?.map fun frame => (frame.originalMidashi, frame.okuriKana)

omit [DictionaryProvider δ] in
/-- Without candidates and with no registration more than before, nothing was looked up. These
are the two traces a lookup leaves. -/
theorem lookedUp_eq_none (hsel : self'.phase.selection? = none)
    (hstack : self'.registerStack.length = start.registerStack.length) :
    start.lookedUp self' = none := by
  unfold lookedUp
  split
  · rename_i s hphase
    rw [hphase] at hsel
    cases hsel
  · exact if_pos hstack

/-- A conversion looks its reading up, whether it opens a selection or a registration, and the
trigger it was started with stays pending. -/
theorem startConversion_lookedUp {mid : SkkEngine δ}
    (hmid : mid.registerStack = start.registerStack) (midashi : Str) (okuri : Option (Str × Str)) :
    Yields (do
      let r ← mid.startConversion midashi okuri
      conclude r) fun r => start.lookedUp r.1 = some (midashi, okuri.map Prod.snd) ∧
        r.1.conversionTrigger = mid.conversionTrigger := by
  refine (startConversion_yields mid midashi okuri).bind ?_
  rintro _ (⟨preedit, rfl⟩ | ⟨s, actions, rfl, hokuri, -, -, rfl⟩)
  · refine (conclude_yields _).mono ?_
    rintro r ⟨stack, htargets, hstate⟩
    rw [hstate]
    refine ⟨?_, rfl⟩
    -- The frame is the one just opened, whatever its buffer.
    cases htargets with
    | @cons _ frame _ frames htarget hframes =>
        have hdepth : (frame :: frames).length ≠ start.registerStack.length := by
          rw [List.length_cons, ← hframes.length_eq, ← hmid]
          exact Nat.succ_ne_self _
        obtain ⟨committed, cursor, rfl⟩ := htarget
        exact if_neg hdepth
  · refine (conclude_yields _).mono ?_
    rintro r ⟨stack, -, hstate⟩
    rw [hstate, ← hokuri]
    exact ⟨rfl, rfl⟩

/-- A reading that was looked up can be read off the state. -/
theorem LooksUp.lookedUp {reading : Str} (h : LooksUp start reading self' actions) :
    start.lookedUp self' = some (reading, none) := by
  obtain ⟨r, status, hr, -, rfl, -⟩ := h
  exact (startConversion_lookedUp rfl reading none r hr).1

/-! ### What each ending does -/

section Press
variable {event : KeyEvent} {kanaBuf romanBuf : Str}

/-- Of the keys that end a reading a registration takes Return. The others are left to the
handler, since a reading is not the ready state and none of them is `C-g`. -/
theorem registrationKey_reading (hphase : self.phase = .midashi kanaBuf romanBuf) {ending : Ending}
    (hends : event.EndsBy ending) : self.registrationKey event =
      if event.key = .returnKey ∧ self.registerStack ≠ [] then some (self.regFlush kanaBuf)
      else none := by
  -- No key that ends a reading is C-g, which alone closes a registration.
  have hctrlG : isCtrlG event = false := by
    cases ending with
    | convert => simp [isCtrlG, show event.key = .space from hends]
    | commit => simp [isCtrlG, show event.key = .returnKey from hends]
    | halfwidth => simp [isCtrlG, hends.1]
    | affix ch =>
        have hne : ch ≠ 'g' := by
          rintro rfl
          cases hends.2
        simp [isCtrlG, hends.1, hne]
  have hflush : flushText self.phase = some kanaBuf := by
    rw [hphase]
    rfl
  by_cases hkey : event.key = .returnKey
  · unfold registrationKey inReadyState
    rw [hphase, hctrlG]
    by_cases hstack : self.registerStack = []
    · simp [hstack]
    · simp [hstack, hkey, SkkPhase.isKana, flushText]
  · rw [if_neg (by simp [hkey])]
    exact registrationKey_of_flushText hflush hctrlG hkey

/-- Space looks up the reading with a pending `n`. -/
theorem handleMidashi_convert (hkey : event.key = .space) (fuel : Nat)
    (hreading : flushN kanaBuf romanBuf ≠ []) :
    self.handleMidashi (fuel + 1) event kanaBuf romanBuf =
      self.readingDone.startConversion (flushN kanaBuf romanBuf) none := by
  unfold handleMidashi midashiSpace
  rw [if_neg (by simp [hkey]), if_neg (by simp [hkey]), if_neg (by simp [hkey]), if_pos hkey]
  exact if_neg (by simpa using hreading)

/-- Return commits the reading with a pending `n`, and leaves to the kana mode of its display.
The text is in Hiragana, in whatever script the reading was shown. -/
theorem handleMidashi_commit (hkey : event.key = .returnKey) (fuel : Nat)
    (hreading : flushN kanaBuf romanBuf ≠ []) :
    self.handleMidashi (fuel + 1) event kanaBuf romanBuf =
      .ok ({ self.readingDone with phase := self.kanaPhaseFromDisplayMode },
        [.commit (flushN kanaBuf romanBuf), .clearPreedit, .passthrough]) := by
  unfold handleMidashi midashiReturn
  rw [if_neg (by simp [hkey]), if_neg (by simp [hkey]), if_pos hkey]
  dsimp only
  rw [if_neg (by simpa using hreading)]
  rfl

/-- `C-q` leaves the pending romaji out. -/
theorem handleMidashi_halfwidth (hkey : event.key = .char 'q') (hctrl : event.modifiers.ctrl)
    (fuel : Nat) :
    self.handleMidashi (fuel + 1) event kanaBuf romanBuf = self.midashiHalfwidth kanaBuf := by
  unfold handleMidashi
  rw [if_neg (by simp [hkey]), if_neg (by simp [hkey]), if_neg (by simp [hkey]),
    if_neg (by simp [hkey]), if_neg (by simp [hkey]), if_pos ⟨hkey, hctrl⟩]

/-- The prefix keys can also be configured as conversion triggers. Then the trigger comes first,
provided that nothing is pending. -/
theorem handleMidashi_affix {ch : Char} (hkey : event.key = .char ch) (haffix : isAffixChar ch)
    (fuel : Nat) :
    self.handleMidashi (fuel + 1) event kanaBuf romanBuf =
      if self.kanaState.isEmpty ∧ ch ∈ self.keybindings.conversionTriggerChars then
        self.convertOnTrigger (flushN kanaBuf romanBuf) (self.triggerOutput ch)
      else self.midashiAffix kanaBuf romanBuf := by
  have hne : ch ≠ 'q' := by
    rintro rfl
    cases haffix
  have hascii : isAscii ch := by
    simp only [isAffixChar, Bool.or_eq_true, decide_eq_true_eq] at haffix
    rcases haffix with (rfl | rfl) | rfl
    · rfl
    · rfl
    · rfl
  have hprintable : event.printableChar = some ch := by rw [KeyEvent.printableChar, hkey]
  unfold handleMidashi
  rw [if_neg (by simp [hkey]), if_neg (by simp [hkey]), if_neg (by simp [hkey]),
    if_neg (by simp [hkey]), if_neg (by simp [hkey]), if_neg (by simp [hkey, hne]), hprintable]
  dsimp only
  simp only [hascii, true_and]
  simp only [haffix, if_true]

omit [DictionaryProvider δ] in
/-- The status commits no text. -/
theorem committedText_status {status : List EngineAction} (h : IsStatus status) :
    committedText status = [] := by
  rcases h with rfl | ⟨indicator, rfl⟩
  · rfl
  · rfl

omit [DictionaryProvider δ] in
/-- A handler that returns to a kana mode with a commit. Outside a registration the text goes to
the application. Inside one it goes into the top frame, and the frames below are the same. -/
theorem conclude_sends {mid : SkkEngine δ} {rawActions : List EngineAction} (hmid : mid.Wf)
    (hkana : mid.phase.isKana) (hsame : mid.registerStack = start.registerStack)
    (hredraws : RedrawsText rawActions) :
    Yields (conclude (mid, rawActions)) fun r => ∀ status, IsStatus status →
      Sends start (committedText rawActions) r.1 (r.2 ++ status) := by
  cases hstack : mid.registerStack with
  -- Outside a registration the actions stay as they are; inside, the texts go to the top frame.
  | nil =>
      rw [conclude_nil (by exact hstack)]
      refine yields_ok.mpr fun status hstatus => ⟨hkana, fun _ => ?_, ?_⟩
      · rw [committedText_append, committedText_status hstatus, List.append_nil]
      · intro frame frames h
        rw [← hsame, hstack] at h
        cases h
  | cons frame frames =>
      obtain ⟨frame', hinsert, hframe'⟩ := insert_ok hmid hstack (committedText rawActions)
      rw [conclude_cons (by simp [hstack]), interceptForRegister_eq hmid hstack hredraws hinsert]
      refine Yields.bind (Yields.of_forall fun _ => trivial) fun preedit _ => ?_
      refine yields_ok.mpr fun status _ => ⟨hkana, fun h => ?_, ?_⟩
      · rw [← hsame, hstack] at h
        cases h
      · intro top below h
        rw [← hsame, hstack] at h
        cases h
        exact ⟨frame', hinsert, rfl⟩

omit [DictionaryProvider δ] in
/-- Return and `C-q` leave to the kana mode the reading was started in. What the handler
committed is sent, to the application or to the top frame. -/
theorem leave_sends (hself : self.Wf) {rawActions : List EngineAction}
    (hredraws : RedrawsText rawActions) :
    Yields (conclude ({ self.readingDone with phase := self.midashiDisplayMode.toPhase },
      rawActions)) fun r => ∀ status, IsStatus status →
        Sends self (committedText rawActions) r.1 (r.2 ++ status) := by
  have hmid : SkkEngine.Wf { self.readingDone with phase := self.midashiDisplayMode.toPhase } :=
    ⟨hself.frames, phaseWf_of_isPlain (KanaMode.isPlain_toPhase _)⟩
  exact conclude_sends hmid (isKana_toPhase _) rfl hredraws

/-- Return, where it reaches the handler of the reading: it sends the reading with the pending
`n`. -/
theorem handleMidashi_return_sends (hself : self.Wf) (hkey : event.key = .returnKey) (fuel : Nat)
    (hreading : flushN kanaBuf romanBuf ≠ []) :
    Yields (do
      let r ← self.handleMidashi (fuel + 1) event kanaBuf romanBuf
      conclude r) fun r => ∀ status, IsStatus status →
        Sends self (flushN kanaBuf romanBuf) r.1 (r.2 ++ status) := by
  have hredraws : RedrawsText
      [.commit (flushN kanaBuf romanBuf), .clearPreedit, .passthrough] := by
    simp [RedrawsText, EngineAction.isRedrawn]
  rw [handleMidashi_commit hkey fuel hreading, ok_bind]
  refine (leave_sends hself hredraws).mono fun r hr status hstatus => ?_
  simpa [committedText] using hr status hstatus

omit [DictionaryProvider δ] in
/-- `C-q` sends the half-width form of the reading, and commits nothing of an empty one. -/
theorem midashiHalfwidth_sends (hself : self.Wf) :
    Yields (do
      let r ← self.midashiHalfwidth kanaBuf
      conclude r) fun r => ∀ status, IsStatus status →
        Sends self (hiraganaToHalfwidth kanaBuf) r.1 (r.2 ++ status) := by
  unfold midashiHalfwidth
  rw [ok_bind]
  split
  · rename_i hempty
    have hnil : kanaBuf = [] := by simpa using hempty
    rw [hnil]
    exact leave_sends hself (by simp [RedrawsText, EngineAction.isRedrawn])
  · have hredraws : RedrawsText
        [.commit (hiraganaToHalfwidth kanaBuf), .clearPreedit] := by
      simp [RedrawsText, EngineAction.isRedrawn]
    refine (leave_sends hself hredraws).mono fun r hr status hstatus => ?_
    simpa [committedText] using hr status hstatus

/-- A prefix key looks the reading up with the romaji as they are, unless it is a trigger. So a
pending `n` is looked up as the letter, and not as the kana it would become. -/
theorem handleMidashi_affix_looksUp {ch : Char} (hromaji : self.kanaState = romanBuf)
    (hkey : event.key = .char ch) (haffix : isAffixChar ch) (fuel : Nat)
    (hreading : flushN kanaBuf romanBuf ≠ []) :
    Yields (do
      let r ← self.handleMidashi (fuel + 1) event kanaBuf romanBuf
      conclude r) fun r => ∀ status, IsStatus status →
        if romanBuf = [] ∧ ch ∈ self.keybindings.conversionTriggerChars
        then self.lookedUp r.1 = some (kanaBuf, none)
        else LooksUp self (kanaBuf ++ romanBuf ++ ['>']) r.1 (r.2 ++ status) := by
  rw [handleMidashi_affix hkey haffix, hromaji]
  by_cases htrigger : romanBuf = [] ∧ ch ∈ self.keybindings.conversionTriggerChars
  · have hsame : flushN kanaBuf romanBuf = kanaBuf := by
      rw [htrigger.1]
      rfl
    rw [hsame] at hreading
    rw [if_pos (by simpa using htrigger), hsame, convertOnTrigger,
      if_neg (by simpa using hreading)]
    refine (startConversion_lookedUp (by rfl) kanaBuf none).mono fun r hr status _ => ?_
    rw [if_pos htrigger]
    exact hr.1
  · -- the reading with its romaji is not empty, or there would be nothing to end
    have hsome : kanaBuf ++ romanBuf ≠ [] := by
      intro hnil
      obtain ⟨rfl, rfl⟩ := List.append_eq_nil_iff.mp hnil
      exact hreading rfl
    rw [if_neg (by simpa using htrigger), midashiAffix, if_neg (by simpa using hsome)]
    intro r hr status hstatus
    rw [if_neg htrigger]
    exact ⟨r, status, hr, hstatus, rfl, rfl⟩

omit [DictionaryProvider δ] in
/-- Return inside a registration. The kana of the reading go into the frame, and what was
pending is dropped. An empty text changes nothing in the frame, so both branches of the source
are one case. -/
theorem regFlush_sends (hself : self.Wf) (text : Str) (hstack : self.registerStack ≠ []) :
    Yields (self.regFlush text) fun r => ∀ actions, Sends self text r.1 actions := by
  obtain ⟨frame, frames, hframes⟩ := List.exists_cons_of_ne_nil hstack
  obtain ⟨frame', hinsert, -⟩ := insert_ok hself hframes text
  have hdone : Yields (SkkEngine.redraw { self with
      phase := .hiragana, kanaState := [], registerStack := frame' :: frames })
      fun r => ∀ actions, Sends self text r.1 actions := by
    refine (redraw_yields _).mono ?_
    rintro _ ⟨preedit, rfl⟩ actions
    refine ⟨rfl, fun h => (hstack h).elim, fun top below h => ?_⟩
    rw [hframes] at h
    cases h
    exact ⟨frame', hinsert, rfl⟩
  unfold regFlush
  dsimp only
  refine Yields.ite (fun _ => ?_) fun hempty => ?_
  · rw [editTop_cons (by exact hframes), hinsert, ok_bind, ok_bind]
    exact hdone
  · have hnil : text = [] := by simpa using hempty
    rw [hnil, RegisterFrame.insert_nil (hself.frames frame (by simp [hframes]))] at hinsert
    rw [← Except.ok.inj hinsert, ← hframes] at hdone
    exact hdone

variable [EucJp]

/-- In a reading the handler of the reading is called. -/
theorem dispatch_midashi (hphase : self.phase = .midashi kanaBuf romanBuf) :
    self.dispatch event = self.handleMidashi redispatchFuel event kanaBuf romanBuf := by
  unfold dispatch
  rw [hphase]

/-- A key that ends a reading, up to the status update. It is cooked, and either taken by the
registration or handled as a key in a reading. -/
theorem step_ending (hphase : self.phase = .midashi kanaBuf romanBuf) {ending : Ending}
    (hends : event.EndsBy ending) (hcooks : self.cooks event)
    (htoggle : self.isToggle event = false) (hstep : Step self event self' actions) :
    ∃ r status, IsStatus status ∧ self' = r.1 ∧ actions = r.2 ++ status ∧
      if event.key = .returnKey ∧ self.registerStack ≠ [] then self.regFlush kanaBuf = .ok r
      else (do
        let r ← self.handleMidashi redispatchFuel event kanaBuf romanBuf
        conclude r) = .ok r := by
  rcases step_cases hstep with ⟨hnot, -⟩ | ⟨-, r, status, hcooked, hstatus, hself', hactions⟩
  · rw [hcooks] at hnot
    cases hnot
  refine ⟨r, status, hstatus, hself', hactions, ?_⟩
  have hkey := registrationKey_reading hphase hends
  split
  · rename_i hreturn
    rw [if_pos hreturn] at hkey
    unfold handleCooked at hcooked
    rw [hkey] at hcooked
    exact hcooked
  · rename_i hreturn
    rw [if_neg hreturn] at hkey
    rw [handleCooked_eq hkey htoggle, dispatch_midashi hphase] at hcooked
    exact hcooked

/-- The reading that the key ends, as the code has it. The four keys differ in what they make of
the pending romaji: Space settles it, Return settles it outside a registration only, `C-q` drops
it, and a prefix key looks it up as it is. -/
theorem ending_result (hself : self.Wf) (hphase : self.phase = .midashi kanaBuf romanBuf)
    (hreading : flushN kanaBuf romanBuf ≠ []) {ending : Ending} (hends : event.EndsBy ending)
    (hcooks : self.cooks event) (htoggle : self.isToggle event = false)
    (hstep : Step self event self' actions) :
    match ending with
    | .convert => LooksUp self (flushN kanaBuf romanBuf) self' actions
    | .commit =>
        Sends self (if self.registerStack = [] then flushN kanaBuf romanBuf else kanaBuf) self'
          actions
    | .halfwidth => Sends self (hiraganaToHalfwidth kanaBuf) self' actions
    | .affix ch =>
        if romanBuf = [] ∧ ch ∈ self.keybindings.conversionTriggerChars
        then self.lookedUp self' = some (kanaBuf, none)
        else LooksUp self (kanaBuf ++ romanBuf ++ ['>']) self' actions := by
  obtain ⟨r, status, hstatus, rfl, rfl, hresult⟩ := step_ending hphase hends hcooks htoggle hstep
  cases ending with
  | convert =>
      have hkey : event.key = .space := hends
      rw [if_neg (by simp [hkey]), redispatchFuel, handleMidashi_convert hkey 1 hreading] at hresult
      exact ⟨r, status, hresult, hstatus, rfl, rfl⟩
  | commit =>
      have hkey : event.key = .returnKey := hends
      dsimp only
      -- inside a registration Return is taken before the handler, which flushes the kana alone
      by_cases hstack : self.registerStack = []
      · rw [if_neg (by simp [hstack])] at hresult
        rw [if_pos hstack]
        exact handleMidashi_return_sends hself hkey 1 hreading r hresult status hstatus
      · rw [if_pos ⟨hkey, hstack⟩] at hresult
        rw [if_neg hstack]
        exact regFlush_sends hself kanaBuf hstack r hresult _
  | halfwidth =>
      rw [if_neg (by simp [hends.1]), redispatchFuel,
        handleMidashi_halfwidth hends.1 hends.2] at hresult
      exact midashiHalfwidth_sends hself r hresult status hstatus
  | affix ch =>
      rw [if_neg (by simp [hends.1])] at hresult
      have hromaji : self.kanaState = romanBuf := hself.phase_eq hphase
      exact handleMidashi_affix_looksUp hromaji hends.1 hends.2 1 hreading r hresult status hstatus

/-- The way of ending takes a pending `n` to the reading and drops other romaji, as far as
there is any. -/
def SeesReading (self : SkkEngine δ) (romanBuf : Str) : Ending → Prop
  | .convert => True
  | .commit => self.registerStack = [] ∨ romanBuf ≠ ['n']
  | .halfwidth => romanBuf ≠ ['n']
  | .affix ch => romanBuf = [] ∧ ch ∉ self.keybindings.conversionTriggerChars

omit [EucJp] in
/-- After a reading was ended the engine is in a kana mode, or the reading was looked up. -/
theorem Ends.isKana_or {reading : Str} {ending : Ending}
    (h : Ends start reading self' actions ending) :
    self'.phase.isKana ∨ (start.lookedUp self').isSome := by
  cases ending with
  | commit | halfwidth => exact .inl h.phase
  | convert | affix ch => exact .inr (by rw [LooksUp.lookedUp h]; rfl)

/-- A key that ends the reading ends the right one exactly when its way of ending does. -/
theorem ends_iff (hself : self.Wf) (hphase : self.phase = .midashi kanaBuf romanBuf)
    (hreading : flushN kanaBuf romanBuf ≠ []) {ending : Ending} (hends : event.EndsBy ending)
    (hcooks : self.cooks event) (htoggle : self.isToggle event = false)
    (hstep : Step self event self' actions) :
    Ends self (flushN kanaBuf romanBuf) self' actions ending ↔
      self.SeesReading romanBuf ending := by
  have hresult := ending_result hself hphase hreading hends hcooks htoggle hstep
  cases ending with
  | convert => exact iff_of_true hresult trivial
  | commit =>
      dsimp only at hresult
      by_cases hstack : self.registerStack = []
      · rw [if_pos hstack] at hresult
        exact iff_of_true hresult (.inl hstack)
      · -- The registration takes the reading without what is pending.
        rw [if_neg hstack] at hresult
        constructor
        · intro h
          exact .inr ((flushN_eq_iff kanaBuf romanBuf).mp (Sends.unique hself h hresult))
        · intro h
          have hsame := (flushN_eq_iff kanaBuf romanBuf).mpr (h.resolve_left hstack)
          unfold Ends
          rw [hsame]
          exact hresult
  | halfwidth =>
      -- `C-q` sends the reading without what is pending.
      dsimp only at hresult
      constructor
      · intro h
        exact (halfwidth_flushN_eq_iff kanaBuf romanBuf).mp (Sends.unique hself h hresult)
      · intro h
        have hsame := (halfwidth_flushN_eq_iff kanaBuf romanBuf).mpr h
        unfold Ends
        rw [hsame]
        exact hresult
  | affix ch =>
      dsimp only at hresult
      constructor
      · intro h
        have hlooked : self.lookedUp self' = some (flushN kanaBuf romanBuf ++ ['>'], none) :=
          LooksUp.lookedUp h
        split at hresult
        · rename_i htrigger
          -- The trigger looks the reading up without the `>`.
          have hsame : flushN kanaBuf romanBuf = kanaBuf := by
            rw [htrigger.1]
            rfl
          rw [hresult, hsame] at hlooked
          simp at hlooked
        · rename_i htrigger
          rw [LooksUp.lookedUp hresult] at hlooked
          -- The two readings differ in front of the `>` alone.
          have happend :=
            List.append_cancel_right (congrArg Prod.fst (Option.some.inj hlooked))
          have hnil := (flushN_eq_append_iff kanaBuf romanBuf).mp happend.symm
          exact ⟨hnil, fun hmem => htrigger ⟨hnil, hmem⟩⟩
      · rintro ⟨hnil, hmem⟩
        rw [if_neg (fun h => hmem h.2)] at hresult
        unfold Ends
        rw [(flushN_eq_append_iff kanaBuf romanBuf).mpr hnil]
        exact hresult

/-- In every run: ending a reading ends what Space looks up, exactly in these cases. The key has
to reach the handler, and its way of ending has to take the pending romaji as Space does. -/
theorem ends_iff_of_session {kanaTable : KanaTable} {keybindings : SkkKeybindings}
    {lispDirectives : Bool} {initialPhase : SkkPhase} {providers : List δ} {history : History δ}
    (hrun : Session (fresh kanaTable keybindings lispDirectives initialPhase providers)
      history self)
    (hphase : self.phase = .midashi kanaBuf romanBuf) (hreading : flushN kanaBuf romanBuf ≠ [])
    {ending : Ending} (hends : event.EndsBy ending) :
    ∃ self' actions, Step self event self' actions ∧
      (Ends self (flushN kanaBuf romanBuf) self' actions ending ↔
        self.cooks event ∧ self.isToggle event = false ∧ self.SeesReading romanBuf ending) := by
  have hself : self.Wf := Session.wf (fresh_wf ..) hrun
  obtain ⟨⟨self', actions⟩, hstep, -⟩ := processKey_wf hself event
  refine ⟨self', actions, hstep, ?_⟩
  -- A key that does not reach the reading leaves it open, or leaves to `Ascii`.
  have hmissed : self'.phase.isKana = false → self.lookedUp self' = none →
      ¬ Ends self (flushN kanaBuf romanBuf) self' actions ending := by
    intro hkana hlooked h
    rcases h.isKana_or with h | h
    · rw [hkana] at h
      cases h
    · rw [hlooked] at h
      cases h
  by_cases hcooks : self.cooks event
  · cases htoggle : self.isToggle event with
    | false => simpa [hcooks] using ends_iff hself hphase hreading hends hcooks htoggle hstep
    | true =>
        refine iff_of_false ?_ (by simp)
        have hstack : self.registerStack = [] := by
          simp only [isToggle, Bool.and_eq_true, List.isEmpty_iff] at htoggle
          exact htoggle.1
        have hpressed : self.processKey event = .ok (self', actions) := hstep
        rw [processKey_eq hcooks, handleCooked_toggle hstack htoggle, ok_bind] at hpressed
        obtain rfl : self.toggle.1 = self' := congrArg Prod.fst (Except.ok.inj hpressed)
        unfold toggle at hmissed ⊢
        rw [if_neg (by simp [hphase])] at hmissed ⊢
        exact hmissed rfl (lookedUp_eq_none rfl rfl)
  · refine iff_of_false ?_ fun h => hcooks h.1
    obtain ⟨rawMode, rfl⟩ := processKey_frozen (by simpa using hcooks) (self', actions) hstep
    refine hmissed ?_ (lookedUp_eq_none ?_ rfl)
    · rw [hphase]
      rfl
    · rw [hphase]
      rfl

end Press

/-- The reading `あn`, looked up as `あん` by Space, is looked up as `あn>` by `>`, and half of it
is lost by `C-q`. Both keys are pressed in the same state. -/
theorem pending_n_lost :
    letI := EucJp.empty
    ∃ (history : History Empty) (self self' prefixed : SkkEngine Empty)
      (actions more : List EngineAction),
      Session (fresh nasalTable {} true .hiragana []) history self ∧
      history.map Visit.input = KeyEvent.typed ['A', 'n'] ∧
      self.phase = .midashi ['あ'] ['n'] ∧ flushN ['あ'] ['n'] = ['あ', 'ん'] ∧
      Step self (.press (.char 'q') { ctrl := true }) self' actions ∧
      actions = [.commit ['ｱ'], .clearPreedit] ∧
      ¬ Ends self ['あ', 'ん'] self' actions .halfwidth ∧
      Step self (.press (.char '>') {}) prefixed more ∧
      self.lookedUp prefixed = some (['あ', 'n', '>'], none) ∧
      ¬ Ends self ['あ', 'ん'] prefixed more (.affix '>') := by
  let _ := EucJp.empty
  have hrecord := exists_session (fresh nasalTable {} true .hiragana [])
    (KeyEvent.typed ['A', 'n']) (fun _ (self : SkkEngine Empty) =>
      self.phase = .midashi ['あ'] ['n'] ∧ self.registerStack = [] ∧
      (∃ r ∈ (self.processKey (.press (.char 'q') { ctrl := true })).toOption,
        r.2 = [.commit ['ｱ'], .clearPreedit]) ∧
      ∃ r ∈ (self.processKey (.press (.char '>') {})).toOption,
        self.lookedUp r.1 = some (['あ', 'n', '>'], none))
    (by decide +kernel)
  obtain ⟨history, self, hrun, hinputs, hphase, hstack, ⟨r, hr, hactions⟩, r', hr', hlooked⟩ :=
    hrecord
  refine ⟨history, self, r.1, r'.1, r.2, r'.2, hrun, hinputs, hphase, rfl, ok_of_mem_toOption hr,
    hactions, fun hends => ?_, ok_of_mem_toOption hr', hlooked, fun hends => ?_⟩
  · have htext := hends.outside hstack
    rw [hactions] at htext
    cases htext
  · have htext := LooksUp.lookedUp hends
    rw [hlooked] at htext
    cases htext

/-- Return outside a registration takes the `n` along, as Space does: what is committed is
`あん`. -/
theorem ends_iff_of_session_return :
    letI := EucJp.empty
    ∃ (history : History Empty) (self self' : SkkEngine Empty) (actions : List EngineAction),
      Session (fresh nasalTable {} true .hiragana []) history self ∧
      self.phase = .midashi ['あ'] ['n'] ∧ Step self (.press .returnKey {}) self' actions ∧
      Ends self ['あ', 'ん'] self' actions .commit := by
  let _ := EucJp.empty
  have hrecord := exists_session (fresh nasalTable {} true .hiragana [])
    (KeyEvent.typed ['A', 'n']) (fun _ (self : SkkEngine Empty) =>
      self.phase = .midashi ['あ'] ['n'] ∧ self.registerStack = [] ∧
      self.cooks (.press .returnKey {}) ∧ self.isToggle (.press .returnKey {}) = false)
    (by decide +kernel)
  obtain ⟨history, self, hrun, -, hphase, hstack, hcooks, htoggle⟩ := hrecord
  have hends : KeyEvent.EndsBy (.press .returnKey {}) .commit := rfl
  obtain ⟨self', actions, hstep, hiff⟩ :=
    ends_iff_of_session hrun hphase (by decide) hends
  exact ⟨history, self, self', actions, hrun, hphase, hstep,
    hiff.mpr ⟨hcooks, htoggle, .inl hstack⟩⟩

end SkkEngine

end Y2Skk
