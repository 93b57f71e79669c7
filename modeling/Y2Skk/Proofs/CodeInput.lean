import Y2Skk.Proofs.KanaText

/-!
# `Y2Skk.Proofs.CodeInput`: characters by their code

`decodeUnicodeCode_eq_iff` reads a hexadecimal code as a number, and `processKeys_code`
types one: every digit is kept, and Return delivers what the code stands for and goes back
to the kana mode. `unicode_of_session` puts the two together: a code delivers the
character of that number, with or without leading zeros and in either case, and nothing
else.

## Codes

The code input keeps the digits in lower case, and `decode_unicode_code` parses them with
`u32::from_str_radix` and `char::from_u32`. A code of more than six digits is refused
before that, so the bound of 32 bits is never what decides. What has to be checked is that
the characters which count as digits are the ones the parser reads as digits: `IsDigit`.

## Typing

The keys of a code are `\`, `u`, the digits and Return. Each of them changes the phase and
draws the preedit, but for the last one, which also commits. A run inside a registration
is covered: there the text goes to the top frame (`Delivers`), and the registration takes
none of these keys for itself.
-/

set_option autoImplicit false

namespace Y2Skk

open Outcome Utf8 Transition

/-! ### Codes -/

/-- The number that hexadecimal digits denote, by Horner's rule. -/
def hexValue (hex : Str) : Nat := hex.foldl (fun acc c => 16 * acc + (hexDigit c).getD 0) 0

/-- What the code input relies on about a digit: in lower case it denotes the same, it is a
single byte, it is not the sign that `from_str_radix` accepts, and it is not the `u` that asks
for a Unicode code. -/
structure IsDigit (c : Char) : Prop where
  lower : hexDigit c.toLower = hexDigit c
  small : c.toLower.utf8Size = 1
  unsigned : c.toLower ≠ '+'
  plain : c ≠ 'u'

instance (c : Char) : Decidable (IsDigit c) :=
  decidable_of_iff (hexDigit c.toLower = hexDigit c ∧ c.toLower.utf8Size = 1 ∧
      c.toLower ≠ '+' ∧ c ≠ 'u')
    ⟨fun ⟨h1, h2, h3, h4⟩ => ⟨h1, h2, h3, h4⟩, fun ⟨h1, h2, h3, h4⟩ => ⟨h1, h2, h3, h4⟩⟩

/-- The ASCII hexadecimal digits are digits in this sense. There are finitely many of them, so
the four conditions are evaluated. -/
theorem isDigit_of_hexdigit {c : Char} (hc : isAsciiHexdigit c) : IsDigit c := by
  have hall : ∀ n : Fin 128, isAsciiHexdigit (Char.ofNat n) → IsDigit (Char.ofNat n) := by
    decide +kernel
  -- The three ranges of `is_ascii_hexdigit` lie below 128.
  have hascii : c.toNat < 128 := by
    unfold isAsciiHexdigit hexDigit at hc
    split at hc
    · rename_i h
      have hle : c.toNat ≤ '9'.toNat := h.2
      exact Nat.lt_of_le_of_lt hle (by decide)
    split at hc
    · rename_i h
      have hle : c.toNat ≤ 'f'.toNat := h.2
      exact Nat.lt_of_le_of_lt hle (by decide)
    split at hc
    · rename_i h
      have hle : c.toNat ≤ 'F'.toNat := h.2
      exact Nat.lt_of_le_of_lt hle (by decide)
    · cases hc
  have hdigit := hall ⟨c.toNat, hascii⟩
  rw [Char.ofNat_toNat] at hdigit
  exact hdigit hc

/-- Digits in any case denote what they do in lower case, so typing `1F` and `1f` is the
same. -/
theorem hexValue_map_toLower {hex : Str} (hhex : ∀ c ∈ hex, isAsciiHexdigit c) :
    hexValue (hex.map Char.toLower) = hexValue hex := by
  have hloop : ∀ (hex : Str) (acc : Nat), (∀ c ∈ hex, isAsciiHexdigit c) →
      (hex.map Char.toLower).foldl (fun acc c => 16 * acc + (hexDigit c).getD 0) acc =
        hex.foldl (fun acc c => 16 * acc + (hexDigit c).getD 0) acc := by
    intro hex
    induction hex with
    | nil => exact fun acc _ => rfl
    | cons c hex ih =>
        intro acc hdigits
        have hc := isDigit_of_hexdigit (hdigits c List.mem_cons_self)
        show (hex.map Char.toLower).foldl _ (16 * acc + (hexDigit c.toLower).getD 0) = _
        rw [ih _ fun d hd => hdigits d (List.mem_cons_of_mem _ hd), hc.lower]
        rfl
  exact hloop hex 0 hhex

/-- A code of digits is read as its number, and rejected when the number is not below the bound.
The leading `+` that the integer parser of the standard library takes is excluded by the
hypothesis, and a digit is never one. -/
theorem fromStrRadix16_eq {hex : Str} (hne : hex ≠ [])
    (hhex : ∀ c ∈ hex, (hexDigit c).isSome ∧ c ≠ '+') (bound : Nat) :
    fromStrRadix16 bound hex = if hexValue hex < bound then some (hexValue hex) else none := by
  -- the accumulator is generalised over: the loop multiplies it by 16 for each digit that follows
  have hloop : ∀ (hex : Str) (acc : Nat), (∀ c ∈ hex, (hexDigit c).isSome) →
      hex.foldlM (fun acc c => (hexDigit c).map (16 * acc + ·)) acc =
        some (hex.foldl (fun acc c => 16 * acc + (hexDigit c).getD 0) acc) := by
    intro hex
    induction hex with
    | nil => exact fun acc _ => rfl
    | cons c hex ih =>
        intro acc hdigits
        obtain ⟨d, hd⟩ := Option.isSome_iff_exists.mp (hdigits c List.mem_cons_self)
        rw [List.foldlM_cons, hd]
        show hex.foldlM _ (16 * acc + d) = _
        rw [ih _ fun e he => hdigits e (List.mem_cons_of_mem _ he), List.foldl_cons, hd]
        rfl
  unfold fromStrRadix16
  split
  · exact ((hhex '+' List.mem_cons_self).2 rfl).elim
  · dsimp only
    rw [if_neg (by simpa using hne), hloop hex 0 fun c hc => (hhex c hc).1]
    rfl

/-- The code of digits, in lower case as the code input keeps them. -/
def codeBuf (hex : Str) : Str := hex.map Char.toLower

/-- The buffer of the code input has one byte for each digit typed, and its characters are
digits without a sign: the two facts that the guard and the parser of `decode_unicode_code`
need. -/
theorem codeBuf_digits {hex : Str} (hhex : ∀ c ∈ hex, isAsciiHexdigit c) :
    byteLen (codeBuf hex) = hex.length ∧
      ∀ c ∈ codeBuf hex, (hexDigit c).isSome ∧ c ≠ '+' := by
  constructor
  · induction hex with
    | nil => rfl
    | cons c hex ih =>
        have hc := isDigit_of_hexdigit (hhex c List.mem_cons_self)
        show byteLen (c.toLower :: codeBuf hex) = _
        rw [byteLen_cons, hc.small, ih fun d hd => hhex d (List.mem_cons_of_mem _ hd),
          List.length_cons]
        omega
  · intro c hc
    obtain ⟨d, hd, rfl⟩ := List.mem_map.mp hc
    have hdigit := isDigit_of_hexdigit (hhex d hd)
    rw [hdigit.lower]
    exact ⟨hhex d hd, hdigit.unsigned⟩

/-- A code stands for one character, when it is not too long and the number is that of a
character. The equation `hexValue hex = c.toNat` says both that the number is no surrogate and
not beyond the last code point, since `c` is a character. -/
theorem decodeUnicodeCode_eq_iff {hex : Str} (hhex : ∀ c ∈ hex, isAsciiHexdigit c) (c : Char) :
    decodeUnicodeCode (codeBuf hex) = some [c] ↔
      hex ≠ [] ∧ hex.length ≤ 6 ∧ hexValue hex = c.toNat := by
  obtain ⟨hlen, hdigits⟩ := codeBuf_digits hhex
  have hvalue : hexValue (codeBuf hex) = hexValue hex := hexValue_map_toLower hhex
  unfold decodeUnicodeCode
  rw [hlen]
  -- the length is checked before the number, so a code of a wrong length is nothing in any case
  by_cases hshape : hex ≠ [] ∧ hex.length ≤ 6
  · have hne : codeBuf hex ≠ [] := by simpa [codeBuf] using hshape.1
    rw [if_neg (by simpa [hne] using hshape.2), fromStrRadix16_eq hne hdigits, hvalue]
    have hcode : (if hexValue hex < 2 ^ 32 then some (hexValue hex) else none).bind (fun code =>
        if code.isValidChar then some [Char.ofNat code] else none) = some [c] ↔
        hexValue hex = c.toNat := by
      have hvalid : c.toNat.isValidChar := c.valid
      have hc : c.toNat < 2 ^ 32 := c.val.toNat_lt
      constructor
      · intro hsome
        obtain ⟨code, hcode, htext⟩ := Option.bind_eq_some_iff.mp hsome
        split at hcode
        · cases hcode
          split at htext
          · rename_i hchar
            have hsame : Char.ofNat (hexValue hex) = c := by simpa using htext
            rw [← hsame, Char.ofNat, dif_pos hchar]
            rfl
          · cases htext
        · cases hcode
      · intro hsame
        rw [hsame, if_pos hc, Option.bind_some, if_pos hvalid, Char.ofNat_toNat]
    exact hcode.trans ⟨fun h => ⟨hshape.1, hshape.2, h⟩, fun h => h.2.2⟩
  · constructor
    · intro hsome
      rw [if_pos] at hsome
      · cases hsome
      · by_cases hnil : hex = []
        · exact .inl (by simp [hnil, codeBuf])
        · have hlong : ¬hex.length ≤ 6 := fun h => hshape ⟨hnil, h⟩
          exact .inr (by omega)
    · intro hall
      exact (hshape ⟨hall.1, hall.2.1⟩).elim

/-- A code stands for one character or for nothing: the text is no number, the number is no
scalar value (a surrogate, or above U+10FFFF), or it is one. -/
theorem decodeUnicodeCode_cases (hex : Str) :
    decodeUnicodeCode hex = none ∨ ∃ c, decodeUnicodeCode hex = some [c] := by
  unfold decodeUnicodeCode
  split
  · exact .inl rfl
  cases fromStrRadix16 (2 ^ 32) hex with
  | none => exact .inl rfl
  | some code =>
      by_cases hvalid : code.isValidChar
      · exact .inr ⟨Char.ofNat code, if_pos hvalid⟩
      · exact .inl (if_neg hvalid)

/-! ### Typing a code -/

namespace SkkEngine

variable {δ : Type} [DictionaryProvider δ] [EucJp] {self : SkkEngine δ}

/-- The key is one that the phase handler gets, whatever composition is open: raw mode is off
and the key toggles nothing. -/
def reaches (self : SkkEngine δ) (event : KeyEvent) : Bool :=
  self.cooks event && !self.isToggle event

omit [DictionaryProvider δ] [EucJp] in
/-- To deliver nothing commits nothing and leaves the registration as it was: inserting the
empty text at a cursor inside the buffer changes neither text nor cursor. -/
theorem Delivers.eq_of_nil {committed : Str} {stack stack' : List RegisterFrame}
    (hframes : ∀ frame ∈ stack, frame.Wf) (h : Delivers [] committed stack stack') :
    committed = [] ∧ stack' = stack := by
  cases stack with
  | nil => exact ⟨h.2, h.1⟩
  | cons frame frames =>
      obtain ⟨hnone, frame', hinsert, rfl⟩ := h
      rw [RegisterFrame.insert_nil (hframes frame List.mem_cons_self)] at hinsert
      cases hinsert
      exact ⟨hnone, rfl⟩

omit [EucJp] in
/-- A registration leaves the keys of a code to the code input, since this phase holds no text
to flush. -/
theorem registrationKey_code {codePrefix : CodeInputPrefix} {buf : Str} {event : KeyEvent}
    (hphase : self.phase = .codeInput codePrefix buf) (hctrlG : isCtrlG event = false) :
    self.registrationKey event = none := by
  unfold registrationKey
  rw [hphase]
  simp [inReadyState, hphase, SkkPhase.isKana, hctrlG, flushText]

/-- A key that only draws another phase: its handler ends in `redraw`, so the state is the one
it was called on and nothing is committed. -/
theorem processKey_redraws (hself : self.Wf) {event : KeyEvent} (hreaches : self.reaches event)
    (hkey : self.registrationKey event = none) {mid : SkkEngine δ} (hmid : mid.Wf)
    (hsame : mid.registerStack = self.registerStack)
    (hdispatch : self.dispatch event = mid.redraw) :
    ∃ actions, self.processKey event = .ok (mid, actions) ∧ committedText actions = [] := by
  simp only [reaches, Bool.and_eq_true, Bool.not_eq_true'] at hreaches
  obtain ⟨preedit, -, -, haction⟩ := preeditAction_eq hmid
  have hdrawn : self.dispatch event = .ok (mid, [.updatePreedit preedit]) := by
    rw [hdispatch, redraw, haction]
    rfl
  obtain ⟨stack, actions, hstep, hdelivers⟩ := processKey_delivers hreaches.1 hkey hreaches.2 hdrawn
    hmid hsame (by simp [RedrawsText, EngineAction.isRedrawn])
  obtain ⟨hnone, rfl⟩ := hdelivers.eq_of_nil hself.frames
  refine ⟨actions, ?_, hnone⟩
  rw [hstep, ← hsame]

/-- The start of a code, from a kana mode with nothing pending: `\` remembers the mode to return
to and opens the code input. -/
theorem processKey_backslash (hself : self.Wf) (hkana : self.phase.isKana)
    (hsettled : self.kanaState = []) (hreaches : self.reaches (.press (.char '\\') {}))
    (hfree : '\\' ∉ self.keybindings.asciiMode ++ self.keybindings.wideAsciiMode ++
      self.keybindings.abbrevMode ++ self.keybindings.katakanaMode) :
    ∃ actions, self.processKey (.press (.char '\\') {}) = .ok ({ self with
        midashiDisplayMode := kanaModeOf self.phase, phase := .codeInput .jis [] }, actions) ∧
      committedText actions = [] := by
  simp only [List.mem_append, not_or] at hfree
  obtain ⟨⟨⟨hascii, hwide⟩, habbrev⟩, hkatakana⟩ := hfree
  refine processKey_redraws hself hreaches (registrationKey_kana hkana) ⟨hself.frames, hsettled⟩
    rfl ?_
  rw [dispatch_kana hkana, if_pos (by simp [hsettled]), kanaStart, if_neg hascii, if_neg hwide,
    if_neg habbrev, if_neg hkatakana, if_neg (by decide), if_pos rfl]

section Code
variable {codePrefix : CodeInputPrefix} {buf : Str}

/-- `u` asks for a Unicode code: as the first key behind the backslash it changes the prefix,
and nothing is committed. -/
theorem processKey_codeU (hself : self.Wf) (hphase : self.phase = .codeInput .jis [])
    (hreaches : self.reaches (.press (.char 'u') {})) :
    ∃ actions, self.processKey (.press (.char 'u') {}) =
        .ok ({ self with phase := .codeInput .unicode [] }, actions) ∧
      committedText actions = [] := by
  have hsettled : self.kanaState = [] := (hself.phase_eq hphase)
  refine processKey_redraws hself hreaches (registrationKey_code hphase (by decide))
    ⟨hself.frames, hsettled⟩ rfl ?_
  unfold dispatch
  rw [hphase]
  rfl

/-- A digit is kept, in lower case, at the end of the buffer; the engine is otherwise as before
and nothing is committed. -/
theorem processKey_codeDigit (hself : self.Wf) (hphase : self.phase = .codeInput codePrefix buf)
    {c : Char} (hc : isAsciiHexdigit c) (hreaches : self.reaches (.press (.char c) {})) :
    ∃ actions, self.processKey (.press (.char c) {}) =
        .ok ({ self with phase := .codeInput codePrefix (buf ++ [c.toLower]) }, actions) ∧
      committedText actions = [] := by
  have hsettled : self.kanaState = [] := (hself.phase_eq hphase)
  have hplain := (isDigit_of_hexdigit hc).plain
  refine processKey_redraws hself hreaches
    (registrationKey_code hphase (by simp [isCtrlG, KeyEvent.press])) ⟨hself.frames, hsettled⟩
    rfl ?_
  unfold dispatch
  rw [hphase]
  dsimp only
  unfold handleCodeInput
  simp [KeyEvent.press, KeyEvent.printableChar, hplain, hc]

/-- What a code stands for: a character of JIS X 0208 or one of Unicode. -/
def decodeCode : CodeInputPrefix → Str → Option Str
  | .jis => decodeJisCode
  | .unicode => decodeUnicodeCode

/-- Return ends the code, and delivers what it stands for, or nothing when it stands for
nothing. The engine goes back to the kana mode that was remembered. -/
theorem processKey_codeReturn (hself : self.Wf) (hphase : self.phase = .codeInput codePrefix buf)
    (hreaches : self.reaches (.press .returnKey {})) :
    ∃ stack actions, self.processKey (.press .returnKey {}) = .ok ({ self with
        phase := self.midashiDisplayMode.toPhase, kanaState := [], registerStack := stack },
        actions) ∧
      Delivers ((decodeCode codePrefix buf).getD []) (committedText actions) self.registerStack
        stack := by
  simp only [reaches, Bool.and_eq_true, Bool.not_eq_true'] at hreaches
  have hmid : SkkEngine.Wf { self with
      phase := self.midashiDisplayMode.toPhase, kanaState := [] } :=
    ⟨hself.frames, phaseWf_of_isPlain (KanaMode.isPlain_toPhase _)⟩
  have hdispatch : self.dispatch (.press .returnKey {}) = .ok ({ self with
      phase := self.midashiDisplayMode.toPhase, kanaState := [] },
      ((decodeCode codePrefix buf).map EngineAction.commit).toList ++ [.clearPreedit]) := by
    have hplain : ¬(codePrefix = .jis ∧ buf.isEmpty ∧
        KeyEvent.printableChar (.press .returnKey {}) = some 'u') := by
      simp [KeyEvent.printableChar, KeyEvent.press]
    unfold dispatch
    rw [hphase]
    dsimp only
    unfold handleCodeInput
    rw [if_neg (by simp [KeyEvent.press]), if_neg (by simp [KeyEvent.press]), if_neg hplain,
      if_pos (.inl rfl)]
    cases codePrefix <;> rfl
  -- the handler commits at most one text and then clears the preedit, so a registration redraws
  have hredraws : RedrawsText
      (((decodeCode codePrefix buf).map EngineAction.commit).toList ++ [.clearPreedit]) := by
    cases decodeCode codePrefix buf <;> simp [RedrawsText, EngineAction.isRedrawn]
  have htext : committedText
      (((decodeCode codePrefix buf).map EngineAction.commit).toList ++ [.clearPreedit]) =
      (decodeCode codePrefix buf).getD [] := by
    cases decodeCode codePrefix buf <;> simp [committedText]
  have hdelivered := processKey_delivers hreaches.1 (registrationKey_code hphase (by decide))
    hreaches.2 hdispatch hmid rfl hredraws
  rwa [htext] at hdelivered

/-- The digits of a code, one after the other. They commit nothing, and whatever keys follow
find all of them in the buffer, in lower case. The keys that follow are a parameter, so the
lemma continues with the Return of the code. -/
theorem processKeys_codeDigits (hself : self.Wf) (hphase : self.phase = .codeInput codePrefix buf)
    {hex : Str} (hhex : ∀ c ∈ hex, isAsciiHexdigit c)
    (hreaches : ∀ event ∈ KeyEvent.typed hex, self.reaches event) :
    ∃ actions, committedText actions = [] ∧
      SkkEngine.Wf { self with phase := .codeInput codePrefix (buf ++ codeBuf hex) } ∧
      ∀ events, self.processKeys (KeyEvent.typed hex ++ events) = (do
        let r ← SkkEngine.processKeys
          { self with phase := .codeInput codePrefix (buf ++ codeBuf hex) } events
        .ok (r.1, actions ++ r.2)) := by
  induction hex generalizing self buf with
  | nil =>
      have hsame : ({ self with phase := .codeInput codePrefix (buf ++ codeBuf []) } :
          SkkEngine δ) = self := by
        rw [codeBuf, List.map_nil, List.append_nil, ← hphase]
      refine ⟨[], rfl, by rwa [hsame], fun events => ?_⟩
      rw [hsame]
      show self.processKeys events = _
      cases self.processKeys events <;> rfl
  | cons c hex ih =>
      obtain ⟨actions, hkey, hnone⟩ := processKey_codeDigit hself hphase
        (hhex c List.mem_cons_self) (hreaches _ List.mem_cons_self)
      have hwf := ((processKey_wf hself _).of_ok hkey).1
      -- the induction goes on in the state after the first digit, with a longer buffer
      obtain ⟨more, hmore, hwf', hrest⟩ := @ih
        { self with phase := .codeInput codePrefix (buf ++ [c.toLower]) } (buf ++ [c.toLower]) hwf
        rfl (fun d hd => hhex d (List.mem_cons_of_mem _ hd))
        fun event hevent => hreaches event (List.mem_cons_of_mem _ hevent)
      have hbuf : buf ++ [c.toLower] ++ codeBuf hex = buf ++ codeBuf (c :: hex) := by
        simp [codeBuf]
      rw [hbuf] at hwf' hrest
      refine ⟨actions ++ more, by rw [committedText_append, hnone, hmore]; rfl, hwf',
        fun events => ?_⟩
      show self.processKeys (.press (.char c) {} :: (KeyEvent.typed hex ++ events)) = _
      rw [processKeys, hkey, ok_bind]
      dsimp only
      rw [hrest]
      cases SkkEngine.processKeys { self with
        phase := .codeInput codePrefix (buf ++ codeBuf (c :: hex)) } events with
      | error e => rfl
      | ok r =>
          show Except.ok (r.1, actions ++ (more ++ r.2)) = Except.ok (r.1, actions ++ more ++ r.2)
          rw [List.append_assoc]

end Code

/-- The keys of a code. -/
def codeKeys (codePrefix : CodeInputPrefix) (hex : Str) : List KeyEvent :=
  KeyEvent.typed (if codePrefix = .unicode then ['\\', 'u'] else ['\\']) ++
    (KeyEvent.typed hex ++ [.press .returnKey {}])

/-- One key, and the keys after it: their actions are joined. -/
theorem processKeys_cons {event : KeyEvent} {events : List KeyEvent} {mid self' : SkkEngine δ}
    {actions more : List EngineAction} (hkey : self.processKey event = .ok (mid, actions))
    (hrest : mid.processKeys events = .ok (self', more)) :
    self.processKeys (event :: events) = .ok (self', actions ++ more) := by
  rw [processKeys, hkey, ok_bind]
  dsimp only
  rw [hrest, ok_bind]

/-- The digits of a code and the Return. The digits commit nothing, so what is delivered is what
the Return delivers: the text that the buffer stands for. -/
theorem processKeys_codeEnd (hself : self.Wf) {codePrefix : CodeInputPrefix}
    (hphase : self.phase = .codeInput codePrefix []) {hex : Str}
    (hhex : ∀ c ∈ hex, isAsciiHexdigit c)
    (hreaches : ∀ event ∈ KeyEvent.typed hex ++ [.press .returnKey {}], self.reaches event) :
    ∃ stack actions, self.processKeys (KeyEvent.typed hex ++ [.press .returnKey {}]) =
        .ok ({ self with
          phase := self.midashiDisplayMode.toPhase, kanaState := [], registerStack := stack },
          actions) ∧
      Delivers ((decodeCode codePrefix (codeBuf hex)).getD []) (committedText actions)
        self.registerStack stack := by
  obtain ⟨typed, hnone, hwf, hrest⟩ := processKeys_codeDigits hself hphase hhex
    fun event hevent => hreaches event (List.mem_append_left _ hevent)
  rw [List.nil_append] at hwf hrest
  obtain ⟨stack, actions, hreturn, hdelivers⟩ := processKey_codeReturn hwf rfl
    (hreaches (.press .returnKey {}) (by simp))
  refine ⟨stack, typed ++ (actions ++ []), ?_, ?_⟩
  · rw [hrest, processKeys_cons hreturn rfl, ok_bind]
  · rw [committedText_append, hnone, List.append_nil, List.nil_append]
    exact hdelivers

/-- A code is typed from its first key to the Return. The command key opens a JIS code, and `u`
turns it into a Unicode code, so the two prefixes differ by one key. After the Return the engine
is in the kana mode it was in, and has nothing pending. -/
theorem processKeys_code (hself : self.Wf) (hkana : self.phase.isKana)
    (hsettled : self.kanaState = []) (codePrefix : CodeInputPrefix) {hex : Str}
    (hhex : ∀ c ∈ hex, isAsciiHexdigit c)
    (hfree : '\\' ∉ self.keybindings.asciiMode ++ self.keybindings.wideAsciiMode ++
      self.keybindings.abbrevMode ++ self.keybindings.katakanaMode)
    (hreaches : ∀ event ∈ codeKeys codePrefix hex, self.reaches event) :
    ∃ stack actions, self.processKeys (codeKeys codePrefix hex) = .ok ({ self with
        midashiDisplayMode := kanaModeOf self.phase, registerStack := stack }, actions) ∧
      Delivers ((decodeCode codePrefix (codeBuf hex)).getD []) (committedText actions)
        self.registerStack stack := by
  have htoggles : ∀ event ∈ KeyEvent.typed hex ++ [.press .returnKey {}], self.reaches event :=
    fun event hevent => hreaches event (List.mem_append_right _ hevent)
  obtain ⟨opened, hopen, hsilent⟩ := processKey_backslash hself hkana hsettled
    (hreaches _ (by cases codePrefix <;> simp [codeKeys, KeyEvent.typed])) hfree
  have hwf := ((processKey_wf hself _).of_ok hopen).1
  -- the mode that is remembered leads back to the phase, as the phase is a kana mode
  have hmode : (kanaModeOf self.phase).toPhase = self.phase := by
    cases hcase : self.phase <;> simp_all [SkkPhase.isKana, kanaModeOf, KanaMode.toPhase]
  cases codePrefix with
  | jis =>
      obtain ⟨stack, actions, htyped, hdelivers⟩ := processKeys_codeEnd hwf rfl hhex htoggles
      refine ⟨stack, opened ++ actions, ?_, ?_⟩
      · refine (processKeys_cons hopen htyped).trans ?_
        dsimp only
        rw [hmode, ← hsettled]
      · rw [committedText_append, hsilent]
        exact hdelivers
  | unicode =>
      obtain ⟨asked, hask, hquiet⟩ := processKey_codeU hwf rfl
        (hreaches (.press (.char 'u') {}) (by simp [codeKeys, KeyEvent.typed]))
      have hwf' := ((processKey_wf hwf _).of_ok hask).1
      obtain ⟨stack, actions, htyped, hdelivers⟩ := processKeys_codeEnd hwf' rfl hhex htoggles
      refine ⟨stack, opened ++ (asked ++ actions), ?_, ?_⟩
      · refine (processKeys_cons hopen (processKeys_cons hask htyped)).trans ?_
        dsimp only
        rw [hmode, ← hsettled]
      · rw [committedText_append, committedText_append, hsilent, hquiet]
        exact hdelivers

/-- In every kana mode with no pending romaji, a Unicode code delivers the one character of that
number, and the engine is as before but for the text in the registration and the mode that the
code input remembers. A code that is empty, too long or no character's delivers nothing. The
hypotheses on the keys say that `\` is not one of the mode keys, that raw mode is off, and that
no key of the code toggles a mode. -/
theorem unicode_of_session {kanaTable : KanaTable} {keybindings : SkkKeybindings}
    {lispDirectives : Bool} {initialPhase : SkkPhase} {providers : List δ} {before : History δ}
    (hbefore : Session (fresh kanaTable keybindings lispDirectives initialPhase providers) before
      self) (hkana : self.phase.isKana) (hsettled : self.kanaState = []) {hex : Str}
    (hhex : ∀ c ∈ hex, isAsciiHexdigit c)
    (hfree : '\\' ∉ self.keybindings.asciiMode ++ self.keybindings.wideAsciiMode ++
      self.keybindings.abbrevMode ++ self.keybindings.katakanaMode)
    (hreaches : ∀ event ∈ codeKeys .unicode hex, self.reaches event) :
    ∃ stack actions text, self.processKeys (codeKeys .unicode hex) = .ok ({ self with
        midashiDisplayMode := kanaModeOf self.phase, registerStack := stack }, actions) ∧
      Delivers text (committedText actions) self.registerStack stack ∧
      (text = [] ∨ ∃ c, text = [c]) ∧
      ∀ c, text = [c] ↔ hex ≠ [] ∧ hex.length ≤ 6 ∧ hexValue hex = c.toNat := by
  have hself := hbefore.wf (fresh_wf kanaTable keybindings lispDirectives initialPhase providers)
  obtain ⟨stack, actions, htyped, hdelivers⟩ :=
    processKeys_code hself hkana hsettled .unicode hhex hfree hreaches
  refine ⟨stack, actions, _, htyped, hdelivers, ?_, fun c => ?_⟩
  · rcases decodeUnicodeCode_cases (codeBuf hex) with hnone | ⟨c, hsome⟩
    · exact .inl (by rw [decodeCode, hnone]; rfl)
    · exact .inr ⟨c, by rw [decodeCode, hsome]; rfl⟩
  · -- Which character it is was settled above for the code alone.
    rw [← decodeUnicodeCode_eq_iff hhex c, decodeCode]
    cases decodeUnicodeCode (codeBuf hex) with
    | none => simp
    | some text => simp

omit [EucJp] in
/-- A code in capital letters, for a character beyond the basic plane: `\u1F600` and Return,
from a fresh engine outside a registration. -/
theorem unicode_of_session_smile : letI := EucJp.empty
    ∃ self actions, (kankaEngine .hiragana).processKeys
        (codeKeys .unicode ['1', 'F', '6', '0', '0']) = .ok (self, actions) ∧
      committedText actions = ['😀'] := by
  let _ := EucJp.empty
  have hhex : ['1', 'F', '6', '0', '0'].all isAsciiHexdigit := rfl
  have hreaches : (codeKeys .unicode ['1', 'F', '6', '0', '0']).all
      (kankaEngine .hiragana).reaches := rfl
  obtain ⟨stack, actions, text, htyped, hdelivers, -, htext⟩ := unicode_of_session
    (session_kankaEngine .hiragana) rfl rfl (List.all_eq_true.mp hhex) (by decide)
    (List.all_eq_true.mp hreaches)
  obtain rfl := (htext '😀').mpr ⟨by decide, by decide, by decide⟩
  exact ⟨_, actions, htyped, hdelivers.2⟩

end SkkEngine

end Y2Skk
