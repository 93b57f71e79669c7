import Y2Skk.Lib.Editor
import Y2Skk.Proofs.KanaText

/-!
# `Y2Skk.Proofs.Editing`: the line of a registration

The buffer of the innermost registration, with its byte cursor and the pending romaji, is
a `Line`: in the kana modes what is typed goes through the table, in direct input it is
taken as it is. `processKey_line` is one key, and `line_of_session` the run: the buffer is
that of the line, every key is answered with the line it leads to, and nothing else of the
engine changes.

## The line editor

`Lib.Editor` knows nothing of bytes: a line is a zipper of characters and a state of the
transducer that turns keys into text. Here the frame of the source is related to it.
`RegisterFrame.zipper` reads the buffer around its cursor, `withText` writes it back, and
`editBy_zipper` says that the byte arithmetic of BackSpace, Delete, Left and Right is the
editing of the zipper. So the facts about lines carry over: `undo_of_session` is one of
them.

## Who takes a key

The registration takes a cursor key when nothing is pending, and a character in direct
input. Otherwise the kana mode gets the key and the registration redirects its answer. In
both cases the same preedit is drawn, so the simulation does not have to tell them apart.
-/

set_option autoImplicit false

namespace Y2Skk

open Outcome Utf8 Transition

/-- The keys that edit at the cursor. -/
def Key.ofEdit : EditKey → Key
  | .backspace => .backSpace
  | .delete => .delete
  | .left => .left
  | .right => .right

namespace RegisterFrame

/-- The buffer around its cursor. -/
def zipper (frame : RegisterFrame) : Zipper Char :=
  match splitAtByte frame.committed frame.cursor with
  | some (before, after) => ⟨before.reverse, after⟩
  | none => ⟨[], frame.committed⟩

/-- The frame with another buffer. -/
def withText (frame : RegisterFrame) (z : Zipper Char) : RegisterFrame :=
  { frame with committed := z.toList, cursor := byteLen z.upto }

/-- A line that was written is read back. -/
@[simp] theorem zipper_withText (frame : RegisterFrame) (z : Zipper Char) :
    (frame.withText z).zipper = z := by
  simp [zipper, withText, Zipper.toList, Zipper.upto]

/-- The second of two writes is what counts. -/
@[simp] theorem withText_withText (frame : RegisterFrame) (z z' : Zipper Char) :
    (frame.withText z).withText z' = frame.withText z' := rfl

/-- The zipper of a buffer that is known in two parts. -/
theorem zipper_eq {frame : RegisterFrame} {before after : Str}
    (hcommitted : frame.committed = before ++ after) (hcursor : byteLen before = frame.cursor) :
    frame.zipper = ⟨before.reverse, after⟩ := by
  rw [zipper, hcommitted, ← hcursor, splitAtByte_append]

/-- A frame whose cursor stands well is the one with its own line. -/
theorem withText_zipper {frame : RegisterFrame} (hframe : frame.Wf) :
    frame.withText frame.zipper = frame := by
  obtain ⟨before, after, hcommitted, hcursor⟩ := hframe.cursor
  rw [zipper_eq hcommitted hcursor]
  simp [withText, Zipper.toList, Zipper.upto, ← hcommitted, hcursor]

/-- Text is inserted at the cursor of the zipper. -/
theorem insert_zipper {frame : RegisterFrame} (hframe : frame.Wf) (text : Str) :
    frame.insert text = .ok (frame.withText (frame.zipper.insert text)) := by
  obtain ⟨before, after, hcommitted, hcursor⟩ := hframe.cursor
  rw [insert_eq hcommitted hcursor, zipper_eq hcommitted hcursor]
  simp [withText, Zipper.toList, Zipper.upto, Zipper.insert]

/-- What a cursor key does to a frame. -/
def editBy (frame : RegisterFrame) : EditKey → Partial RegisterFrame
  | .backspace => frame.backspace
  | .delete => frame.delete
  | .left => frame.moveLeft
  | .right => frame.moveRight

/-- A cursor that is not at the start stands behind a character. Each case gives the zipper, and
the second the position that `reg_backspace` and `reg_move_left` compute. -/
theorem behind_cases {frame : RegisterFrame} (hframe : frame.Wf) :
    (frame.cursor = 0 ∧ frame.zipper.before = []) ∨
      ∃ before c after, 0 < frame.cursor ∧ frame.committed = before ++ c :: after ∧
        frame.zipper = ⟨c :: before.reverse, after⟩ ∧ frame.previous = .ok (byteLen before) := by
  by_cases hpos : 0 < frame.cursor
  · obtain ⟨before, c, after, hcommitted, hcursor, hprevious⟩ := previous_eq hframe hpos
    refine .inr ⟨before, c, after, hpos, hcommitted, ?_, hprevious⟩
    have happend : frame.committed = (before ++ [c]) ++ after := by simp [hcommitted]
    rw [zipper_eq happend hcursor.symm]
    simp
  · have hzero : frame.cursor = 0 := by omega
    exact .inl ⟨hzero, by simp [zipper, hzero]⟩

/-- A cursor that is not at the end stands before a character. Each case gives the zipper that
`reg_delete` and `reg_move_right` act on. -/
theorem ahead_cases {frame : RegisterFrame} (hframe : frame.Wf) :
    (¬frame.cursor < byteLen frame.committed ∧ frame.zipper.after = []) ∨
      ∃ before c after, frame.cursor < byteLen frame.committed ∧
        frame.committed = before ++ c :: after ∧ frame.cursor = byteLen before ∧
        frame.zipper = ⟨before.reverse, c :: after⟩ := by
  by_cases hlt : frame.cursor < byteLen frame.committed
  · obtain ⟨before, c, after, hcommitted, hcursor⟩ := next_eq hframe hlt
    exact .inr ⟨before, c, after, hlt, hcommitted, hcursor, zipper_eq hcommitted hcursor.symm⟩
  · obtain ⟨before, after, hcommitted, hcursor⟩ := hframe.cursor
    refine .inl ⟨hlt, ?_⟩
    rw [zipper_eq hcommitted hcursor]
    cases after with
    | nil => rfl
    | cons c after =>
        have hc := c.utf8Size_pos
        rw [hcommitted, byteLen_append, byteLen_cons] at hlt
        omega

/-- The byte arithmetic of the cursor keys amounts to the keys of a zipper. The cursor is a byte
offset in the source and stands on a character, so the character before it, or the one behind
it, can be cut out. At either end of the buffer the key does nothing. -/
theorem editBy_zipper {frame : RegisterFrame} (hframe : frame.Wf) (key : EditKey) :
    frame.editBy key = .ok (frame.withText (frame.zipper.edit key)) := by
  have hstay : frame.withText ⟨frame.zipper.before, frame.zipper.after⟩ = frame :=
    withText_zipper hframe
  cases key with
  | backspace =>
      show frame.backspace = .ok (frame.withText ⟨frame.zipper.before.tail, frame.zipper.after⟩)
      -- at the start of the buffer nothing is in front of the cursor, else the character before
      -- it is removed
      rcases behind_cases hframe with ⟨hzero, hnil⟩ | ⟨before, c, after, hpos, hcommitted, hz, hp⟩
      · rw [backspace, if_neg (by omega), hnil, List.tail_nil, ← hnil, hstay]
      · rw [backspace, if_pos hpos, hp, ok_bind, hcommitted, removeAt_append, ok_bind, hz]
        simp [withText, Zipper.toList, Zipper.upto]
  | delete =>
      show frame.delete = .ok (frame.withText ⟨frame.zipper.before, frame.zipper.after.tail⟩)
      rcases ahead_cases hframe with ⟨hend, hnil⟩ | ⟨before, c, after, hlt, hcommitted, hcursor, hz⟩
      · rw [delete, if_neg hend, hnil, List.tail_nil, ← hnil, hstay]
      · rw [delete, if_pos hlt, hcommitted, hcursor, removeAt_append, ok_bind, hz]
        simp [withText, Zipper.toList, Zipper.upto, ← hcursor]
  | left =>
      show frame.moveLeft = _
      rcases behind_cases hframe with ⟨hzero, hnil⟩ | ⟨before, c, after, hpos, hcommitted, hz, hp⟩
      · rw [moveLeft, if_neg (by omega), Zipper.edit, hnil]
        exact congrArg _ hstay.symm
      · rw [moveLeft, if_pos hpos, hp, ok_bind, Zipper.edit, hz]
        simp [withText, Zipper.toList, Zipper.upto, ← hcommitted]
  | right =>
      show frame.moveRight = _
      rcases ahead_cases hframe with ⟨hend, hnil⟩ | ⟨before, c, after, hlt, hcommitted, hcursor, hz⟩
      · rw [moveRight, if_neg hend, Zipper.edit, hnil]
        exact congrArg _ hstay.symm
      · rw [moveRight, if_pos hlt, Zipper.edit, hz, hcommitted, hcursor, sliceFrom_append, ok_bind]
        simp [withText, Zipper.toList, Zipper.upto]

end RegisterFrame

namespace SkkEngine

variable {δ : Type} [DictionaryProvider δ] {self : SkkEngine δ} {frame : RegisterFrame}
  {frames : List RegisterFrame}

/-! ### Lines -/

/-- What turns the keys into text: the table, or nothing in direct input. -/
def typist (self : SkkEngine δ) : Transducer Str Char Char :=
  if self.phase = .ascii then .echo else self.kanaTable.typing (kanaModeOf self.phase)

/-- The line in the top frame. -/
def lineOf (self : SkkEngine δ) (frame : RegisterFrame) : Line Char Char :=
  ⟨frame.zipper, self.kanaState⟩

/-- The engine with another line in its top frame. -/
def withLine (self : SkkEngine δ) (frame : RegisterFrame) (frames : List RegisterFrame)
    (line : Line Char Char) : SkkEngine δ :=
  { self with kanaState := line.pending, registerStack := frame.withText line.text :: frames }

/-- The preedit of a line, behind the prompt. -/
def linePreedit (frame : RegisterFrame) (depth : Nat) (line : Line Char Char) : Preedit where
  text := registerPrompt frame depth ++ line.text.upto ++ line.pending ++ line.text.after
  cursor := byteLen (registerPrompt frame depth ++ line.text.upto ++ line.pending)
  ghostStart := none

/-- Text is typed in a kana mode or in direct input. -/
def typesText (self : SkkEngine δ) : Bool := self.phase.isKana || self.phase = .ascii

/-- What a key means to the line of a registration: a cursor key edits, a character types. Other
keys mean nothing to it, and so do characters that are commands in the mode there is. -/
def lineKey [EucJp] (self : SkkEngine δ) (event : KeyEvent) : Option (LineKey Char) :=
  if self.cooks event then
    match event.key with
    | .backSpace => some (.edit .backspace)
    | .delete => some (.edit .delete)
    | .left => some (.edit .left)
    | .right => some (.edit .right)
    | _ =>
      if self.phase = .ascii then
        if event.modifiers.ctrl then none else event.printableChar.map .type
      else if self.typesKana event then event.printableChar.map .type
      else none
  else none

omit [DictionaryProvider δ] in
/-- The second of two lines is what counts. -/
@[simp] theorem withLine_withLine (self : SkkEngine δ) (frame : RegisterFrame)
    (frames : List RegisterFrame) (line line' : Line Char Char) :
    (self.withLine frame frames line).withLine (frame.withText line.text) frames line' =
      self.withLine frame frames line' := rfl

omit [DictionaryProvider δ] in
/-- A line that was put into the engine is read back. -/
@[simp] theorem lineOf_withLine (self : SkkEngine δ) (frame : RegisterFrame)
    (frames : List RegisterFrame) (line : Line Char Char) :
    (self.withLine frame frames line).lineOf (frame.withText line.text) = line := by
  simp [lineOf, withLine]

omit [DictionaryProvider δ] in
/-- The engine is the one with its own line. -/
theorem withLine_lineOf (hself : self.Wf) (hstack : self.registerStack = frame :: frames) :
    self.withLine frame frames (self.lineOf frame) = self := by
  have hframe := hself.frames frame (by simp [hstack])
  show { self with registerStack := frame.withText frame.zipper :: frames } = self
  rw [RegisterFrame.withText_zipper hframe, ← hstack]

omit [DictionaryProvider δ] in
/-- A line at the cursor, behind the prompt. -/
theorem placePreedit_line (line : Line Char Char) :
    (self.withLine frame frames line).placePreedit line.pending (byteLen line.pending) false =
      .ok (linePreedit frame (frames.length + 1) line) := by
  unfold placePreedit withLine
  dsimp only [RegisterFrame.withText, Zipper.toList]
  rw [sliceTo_append, ok_bind, sliceFrom_append, ok_bind]
  simp [linePreedit, registerPrompt, Nat.add_assoc]

omit [DictionaryProvider δ] in
/-- The preedit in a kana mode or in direct input: the prompt of the registration with the line
and its pending romaji. Direct input has none, so the same equation holds there. -/
theorem preeditAction_line (htext : self.typesText) {line : Line Char Char}
    (hdirect : self.phase = .ascii → line.pending = []) :
    (self.withLine frame frames line).preeditAction =
      .ok (.updatePreedit (linePreedit frame (frames.length + 1) line)) := by
  have hphase : (self.withLine frame frames line).phase = self.phase := rfl
  have hinner : (self.withLine frame frames line).buildInnerPreedit = .ok line.pending := by
    unfold buildInnerPreedit
    rw [hphase]
    cases hcase : self.phase with
    | hiragana | katakana | halfWidthKatakana => rfl
    | ascii => exact congrArg _ (hdirect hcase).symm
    | _ => simp [typesText, hcase, SkkPhase.isKana] at htext
  have hplain : (self.withLine frame frames line).buildPreedit =
      (self.withLine frame frames line).plainPreedit := by
    unfold buildPreedit
    rw [hphase]
    cases hcase : self.phase with
    | midashi kanaBuf romanBuf => simp [typesText, hcase, SkkPhase.isKana] at htext
    | _ => rfl
  rw [preeditAction, hplain, plainPreedit, hinner, ok_bind, placePreedit_line]
  rfl

omit [DictionaryProvider δ] in
/-- To redraw a line is its preedit, and nothing else. -/
theorem redraw_line (htext : self.typesText) {line : Line Char Char}
    (hdirect : self.phase = .ascii → line.pending = []) :
    (self.withLine frame frames line).redraw = .ok (self.withLine frame frames line,
      [.updatePreedit (linePreedit frame (frames.length + 1) line)]) := by
  rw [redraw, preeditAction_line htext hdirect]
  rfl

/-! ### One key -/

section Key
variable [EucJp] {event : KeyEvent} {key : LineKey Char}

/-- A key leads to the line, and its answer is that line. -/
def Turns (self : SkkEngine δ) (frame : RegisterFrame) (frames : List RegisterFrame)
    (line : Line Char Char) (answer : Partial (SkkEngine δ × List EngineAction)) : Prop :=
  answer = .ok (self.withLine frame frames line,
    [.updatePreedit (linePreedit frame (frames.length + 1) line)])

omit [DictionaryProvider δ] [EucJp] in
/-- A cursor key at a line without pending romaji. The buffer of the top frame is edited as the
zipper is, and the prompt is drawn again with the new line. -/
theorem regEditDrawn_line (hself : self.Wf) (hstack : self.registerStack = frame :: frames)
    (htext : self.typesText) (hsettled : self.kanaState = []) (key : EditKey) :
    ∃ answer, self.regEditDrawn (.ofEdit key) = some answer ∧
      Turns self frame frames ⟨frame.zipper.edit key, []⟩ answer := by
  have hframe := hself.frames frame (by simp [hstack])
  have hedited : self.editTop (·.editBy key) =
      .ok (self.withLine frame frames ⟨frame.zipper.edit key, []⟩) := by
    unfold editTop
    rw [hstack]
    dsimp only
    rw [RegisterFrame.editBy_zipper hframe, ok_bind]
    rw [withLine, ← hsettled]
  have hredraw : Turns self frame frames ⟨frame.zipper.edit key, []⟩
      (self.editTop (·.editBy key) >>= redraw) := by
    rw [Turns, hedited, ok_bind, redraw_line htext fun _ => rfl]
  cases key with
  | backspace => exact ⟨_, rfl, hredraw⟩
  | delete => exact ⟨_, rfl, hredraw⟩
  | left => exact ⟨_, rfl, hredraw⟩
  | right => exact ⟨_, rfl, hredraw⟩

omit [DictionaryProvider δ] [EucJp] in
/-- Direct input has no pending romaji. -/
theorem pending_of_ascii (hself : self.Wf) (hascii : self.phase = .ascii) :
    self.kanaState = [] := by
  have hphase := hself.phase
  rw [hascii] at hphase
  exact hphase

omit [DictionaryProvider δ] [EucJp] in
/-- The registration takes what a kana mode answers, and draws the line. The text that the
handler commits goes in at the cursor, and the romaji that it leaves pending are those of the
line. -/
theorem conclude_line (hself : self.Wf) (hstack : self.registerStack = frame :: frames)
    (hkana : self.phase.isKana) {text pending : Str} {r : SkkEngine δ × List EngineAction}
    (hr : TypedKana self text pending r) :
    Turns self frame frames ⟨frame.zipper.insert text, pending⟩ (conclude r) := by
  have hframe := hself.frames frame (by simp [hstack])
  have hwf : r.1.Wf := by
    rw [hr.state]
    exact hself.withRomaji hkana pending
  have hcons : r.1.registerStack = frame :: frames := by rw [hr.state]; exact hstack
  -- what the frame receives is what the kana mode committed
  have hinsert : frame.insert (committedText r.2) =
      .ok (frame.withText (frame.zipper.insert text)) := by
    rw [hr.committed, RegisterFrame.insert_zipper hframe]
  have hlast : { r.1 with registerStack := frame.withText (frame.zipper.insert text) :: frames } =
      self.withLine frame frames ⟨frame.zipper.insert text, pending⟩ := by
    rw [hr.state]
    rfl
  have hdirect : self.phase = .ascii → pending = [] := by
    intro hascii
    rw [hascii] at hkana
    cases hkana
  rw [Turns, conclude_cons (by simp [hcons]), interceptForRegister_eq hwf hcons hr.redraws hinsert,
    hr.kept, hlast, preeditAction_line (by simp [typesText, hkana]) hdirect, ok_bind]
  rfl

omit [DictionaryProvider δ] [EucJp] in
/-- The registration keeps a key that a kana mode passes on: the passthrough is replaced by a
preedit, and the line is unchanged. -/
theorem conclude_passthrough (hself : self.Wf) (hstack : self.registerStack = frame :: frames)
    (hkana : self.phase.isKana) :
    Turns self frame frames (self.lineOf frame) (conclude (self, [.passthrough])) := by
  have hdirect : self.phase = .ascii → self.kanaState = [] := pending_of_ascii hself
  have haction : (self.withLine frame frames (self.lineOf frame)).preeditAction =
      .ok (.updatePreedit (linePreedit frame (frames.length + 1) (self.lineOf frame))) :=
    preeditAction_line (by simp [typesText, hkana]) hdirect
  rw [withLine_lineOf hself hstack] at haction
  rw [Turns, conclude_cons (by simp [hstack]), withLine_lineOf hself hstack]
  show (self.preeditAction >>= fun a => Except.ok (self, [] ++ [a])) = _
  rw [haction]
  rfl

omit [EucJp] in
/-- A registration leaves a key at pending romaji to the kana mode. There it edits its own
buffer only with nothing pending, and takes no key but C-g before that. -/
theorem registrationKey_pending (hkana : self.phase.isKana) (hpending : self.kanaState ≠ [])
    (hctrlG : isCtrlG event = false) : self.registrationKey event = none := by
  unfold registrationKey
  split
  · rfl
  rw [if_neg (by simp [inReadyState, hpending]), if_neg (by simp [hctrlG])]
  cases hcase : self.phase with
  | hiragana | katakana | halfWidthKatakana => rfl
  | _ =>
      rw [hcase] at hkana
      cases hkana

/-- A cursor key in a registration does to the line what the editor does. With romaji pending
the kana mode takes it first; with nothing pending the registration edits its buffer itself. -/
theorem handleCooked_edit (hself : self.Wf) (hstack : self.registerStack = frame :: frames)
    (htext : self.typesText) {key : EditKey} (hkey : event.key = .ofEdit key) :
    Turns self frame frames ((self.lineOf frame).press self.typist (.edit key))
      (self.handleCooked event) := by
  have hctrlG : isCtrlG event = false := by cases key <;> simp [isCtrlG, hkey, Key.ofEdit]
  by_cases hsettled : self.kanaState = []
  · -- The registration takes the key.
    obtain ⟨answer, hdrawn, hturns⟩ := regEditDrawn_line hself hstack htext hsettled key
    have hpress : (self.lineOf frame).press self.typist (.edit key) =
        ⟨frame.zipper.edit key, []⟩ := by
      simp [Line.press, lineOf, hsettled]
    have htaken : self.registrationKey event = some answer := by
      unfold registrationKey
      rw [if_neg (by simp [hstack])]
      by_cases hready : self.inReadyState
      · rw [if_pos hready, regReadyKey, if_neg (by cases key <;> simp [hkey, Key.ofEdit]),
          if_neg (by cases key <;> simp [hkey, Key.ofEdit, hctrlG]), hkey]
        exact hdrawn
      · have hascii : self.phase = .ascii := by
          simp [typesText] at htext
          simp [inReadyState, hsettled] at hready
          simpa [hready] using htext
        rw [if_neg hready, if_neg (by simp [hctrlG]), hascii]
        show (if SkkPhase.ascii = SkkPhase.ascii then self.regAsciiKey event else none) = _
        rw [if_pos rfl, regAsciiKey, if_neg (by cases key <;> simp [hkey, Key.ofEdit]),
          if_neg (by cases key <;> simp [hkey, Key.ofEdit]), hkey, hdrawn]
    rw [hpress, handleCooked, htaken]
    exact hturns
  · -- The kana mode takes it, and the registration its answer.
    have hkana : self.phase.isKana := by
      cases hkana : self.phase.isKana with
      | true => rfl
      | false =>
          have hascii : self.phase = .ascii := by simpa [typesText, hkana] using htext
          exact (hsettled (pending_of_ascii hself hascii)).elim
    have hne : self.phase ≠ .ascii := by
      intro hascii
      rw [hascii] at hkana
      cases hkana
    have htoggle : self.isToggle event = false := by simp [isToggle, hstack]
    have hframe := hself.frames frame (by simp [hstack])
    rw [Turns, handleCooked_eq (registrationKey_pending hkana hsettled hctrlG) htoggle]
    have hdispatch : self.dispatch event = self.handleKana event := by
      unfold dispatch
      cases hcase : self.phase with
      | hiragana | katakana | halfWidthKatakana => rfl
      | _ => rw [hcase] at hkana; cases hkana
    rw [hdispatch]
    by_cases hback : key = .backspace
    · subst hback
      obtain ⟨preedit, -, -, haction⟩ :=
        preeditAction_eq (hself.withRomaji hkana self.kanaState.dropLast)
      have hdropped : self.handleKana event = .ok ({ self with
          kanaState := self.kanaState.dropLast }, [.updatePreedit preedit]) := by
        rw [handleKana, if_neg (by simp [hkey, Key.ofEdit]), if_neg (by simp [hkey, Key.ofEdit]),
          if_neg (by simp [hkey, Key.ofEdit]), if_pos (by simp [hkey, Key.ofEdit]), kanaBackSpace,
          if_pos (by simp [hsettled]), redraw, haction]
        rfl
      have hpress : (self.lineOf frame).press self.typist (.edit .backspace) =
          ⟨frame.zipper.insert [], self.kanaState.dropLast⟩ := by
        simp [Line.press, lineOf, hsettled]
      rw [hdropped, ok_bind, hpress]
      exact conclude_line hself hstack hkana
        ⟨rfl, rfl, by simp [RedrawsText, EngineAction.isRedrawn], rfl⟩
    · have hpassed : self.handleKana event = .ok (self, [.passthrough]) := by
        cases key <;> simp_all [handleKana, Key.ofEdit, KeyEvent.printableChar]
      have hpress : (self.lineOf frame).press self.typist (.edit key) = self.lineOf frame := by
        simp [Line.press, lineOf, hsettled, hback]
      rw [hpassed, ok_bind, hpress]
      exact conclude_passthrough hself hstack hkana

/-- A character typed in direct input. The registration takes it before any handler does, and
puts it in at the cursor as it is. -/
theorem handleCooked_direct (hself : self.Wf) (hstack : self.registerStack = frame :: frames)
    (hascii : self.phase = .ascii) (hctrl : event.modifiers.ctrl = false) {c : Char}
    (hchar : event.printableChar = some c) :
    Turns self frame frames ((self.lineOf frame).press self.typist (.type c))
      (self.handleCooked event) := by
  have hframe := hself.frames frame (by simp [hstack])
  have hsettled := pending_of_ascii hself hascii
  have hpress : (self.lineOf frame).press self.typist (.type c) =
      ⟨frame.zipper.insert [c], []⟩ := by
    simp [Line.press, lineOf, typist, hascii, hsettled, Transducer.echo]
  have hedited : self.editTop (·.insert [c]) =
      .ok (self.withLine frame frames ⟨frame.zipper.insert [c], []⟩) := by
    unfold editTop
    rw [hstack]
    dsimp only
    rw [RegisterFrame.insert_zipper hframe, ok_bind, withLine, ← hsettled]
  have htaken : self.registrationKey event =
      some (self.editTop (·.insert [c]) >>= fun self => self.redraw) := by
    unfold registrationKey
    rw [if_neg (by simp [hstack]), if_neg (by simp [inReadyState, hascii, SkkPhase.isKana]),
      if_neg (by simp [isCtrlG, hctrl]), hascii]
    show (if SkkPhase.ascii = SkkPhase.ascii then self.regAsciiKey event else none) = _
    rw [if_pos rfl, regAsciiKey]
    -- a key with a character is none of the cursor keys
    have hdrawn : self.regEditDrawn event.key = none := by
      cases hkey : event.key <;>
        simp_all [KeyEvent.printableChar, regEditDrawn, regEdit]
    rw [if_neg (by rintro hkey; simp [KeyEvent.printableChar, hkey] at hchar),
      if_neg (by rintro hkey; simp [KeyEvent.printableChar, hkey] at hchar), hdrawn]
    dsimp only
    rw [hchar]
    dsimp only
    rw [if_neg (by simp [hctrl])]
  rw [hpress, handleCooked, htaken]
  show Turns self frame frames _ (self.editTop (·.insert [c]) >>= fun self => self.redraw)
  rw [hedited, ok_bind, Turns, redraw_line (by simp [typesText, hascii]) fun _ => rfl]

omit [DictionaryProvider δ] in
/-- What a key on the line is: one of the cursor keys, or a key that types a character. The
character is typed in direct input without Ctrl, or fed to the table in a kana mode. -/
theorem lineKey_cases (hkey : self.lineKey event = some key) : self.cooks event ∧
    ((∃ edit, key = .edit edit ∧ event.key = .ofEdit edit) ∨
      ∃ c, key = .type c ∧ event.printableChar = some c ∧
        ((self.phase = .ascii ∧ event.modifiers.ctrl = false) ∨
          (self.phase ≠ .ascii ∧ self.typesKana event))) := by
  unfold lineKey at hkey
  split at hkey
  · rename_i hcooks
    refine ⟨hcooks, ?_⟩
    -- The four cursor keys come first, and then the characters.
    split at hkey
    · rename_i hback
      exact .inl ⟨.backspace, (Option.some.inj hkey).symm, hback⟩
    · rename_i hdelete
      exact .inl ⟨.delete, (Option.some.inj hkey).symm, hdelete⟩
    · rename_i hleft
      exact .inl ⟨.left, (Option.some.inj hkey).symm, hleft⟩
    · rename_i hright
      exact .inl ⟨.right, (Option.some.inj hkey).symm, hright⟩
    · right
      split at hkey
      · rename_i hascii
        split at hkey
        · cases hkey
        · rename_i hctrl
          obtain ⟨c, hchar, rfl⟩ := Option.map_eq_some_iff.mp hkey
          exact ⟨c, rfl, hchar, .inl ⟨hascii, by simpa using hctrl⟩⟩
      · rename_i hne
        split at hkey
        · rename_i htypes
          obtain ⟨c, hchar, rfl⟩ := Option.map_eq_some_iff.mp hkey
          exact ⟨c, rfl, hchar, .inr ⟨hne, htypes⟩⟩
        · cases hkey
  · cases hkey

/-- One key on the line of a registration leads to the line that the editor says, and is
answered with its preedit. No status update follows, as the mode does not change. -/
theorem processKey_line (hself : self.Wf) (hstack : self.registerStack = frame :: frames)
    (htext : self.typesText) (hkey : self.lineKey event = some key) :
    Turns self frame frames ((self.lineOf frame).press self.typist key)
      (self.processKey event) := by
  obtain ⟨hcooks, hcases⟩ := lineKey_cases hkey
  have hcooked : Turns self frame frames ((self.lineOf frame).press self.typist key)
      (self.handleCooked event) := by
    rcases hcases with ⟨edit, rfl, hedit⟩ | ⟨c, rfl, hchar, ⟨hascii, hctrl⟩ | ⟨hne, htypes⟩⟩
    · exact handleCooked_edit hself hstack htext hedit
    · exact handleCooked_direct hself hstack hascii hctrl hchar
    · have hkana : self.phase.isKana := by simpa [typesText, hne] using htext
      obtain ⟨c', rfl, -, htoggle, hstarts⟩ := typesKana_iff.mp htypes
      obtain rfl : c' = c := by simpa [KeyEvent.printableChar, KeyEvent.press] using hchar
      obtain ⟨r, hdispatch, hr⟩ := dispatch_typed hself hkana hstarts
      rw [handleCooked_eq (registrationKey_kana hkana) htoggle, hdispatch, ok_bind]
      have hpress : (self.lineOf frame).press self.typist (.type c') =
          ⟨frame.zipper.insert ((self.kanaTable.typing (kanaModeOf self.phase)).step
              self.kanaState c').1,
            ((self.kanaTable.typing (kanaModeOf self.phase)).step self.kanaState c').2⟩ := by
        simp [Line.press, lineOf, typist, hne]
      rw [hpress]
      exact conclude_line hself hstack hkana hr
  rw [Turns] at hcooked ⊢
  rw [processKey_eq hcooks, hcooked, ok_bind]
  -- The mode indicator stays as it is.
  have hsame : (self.withLine frame frames ((self.lineOf frame).press self.typist
      key)).currentModeIndicator = self.currentModeIndicator := rfl
  rw [withStatus, if_neg (not_not.mpr hsame)]

end Key

/-! ### Runs -/

section Runs
variable [EucJp] {start self : SkkEngine δ} {history : History δ}

/-- The keys of a run are keys on the line. -/
def Edits (history : History δ) (keys : List (LineKey Char)) : Prop :=
  history.map (fun v => v.pre.lineKey v.input) = keys.map some

/-- The keys of a concrete run can be tested. -/
instance (history : History δ) (keys : List (LineKey Char)) : Decidable (Edits history keys) :=
  inferInstanceAs (Decidable (_ = _))

/-- The line of a registration over a run, from any well-formed state. The induction is over the
run from its start, with the keys split at their end. -/
theorem line_of_wf (hstart : start.Wf) (hstack : start.registerStack = frame :: frames)
    (htext : start.typesText) (hrun : Session start history self) :
    ∀ {keys : List (LineKey Char)}, Edits history keys →
    self = start.withLine frame frames ((start.lineOf frame).run start.typist keys) ∧ self.Wf ∧
      outputs history = ((start.lineOf frame).trail start.typist keys).map fun line =>
        .updatePreedit (linePreedit frame (frames.length + 1) line) := by
  induction hrun with
  | nil =>
      intro keys hkeys
      obtain rfl : keys = [] := by simpa [Edits] using hkeys.symm
      exact ⟨(withLine_lineOf hstart hstack).symm, hstart, rfl⟩
  | @snoc history pre self event actions hrun hstep ih =>
      intro keys hkeys
      obtain ⟨keys, key, rfl⟩ : ∃ keys' key, keys = keys' ++ [key] := by
        refine (List.eq_nil_or_concat' keys).resolve_left ?_
        rintro rfl
        simp [Edits] at hkeys
      have hsplit : Edits history keys ∧ pre.lineKey event = some key := by
        simpa [Edits] using hkeys
      obtain ⟨hpre, hwf, houtputs⟩ := ih hsplit.1
      have hkey := hsplit.2
      subst hpre
      -- the last key is one press on the line, in the state that the run before it has led to
      have hturn := processKey_line hwf rfl (by exact htext) hkey
      have hwf' := ((processKey_wf hwf _).of_ok hstep).1
      obtain ⟨rfl, rfl⟩ := Prod.mk.inj (Except.ok.inj (hturn.symm.trans hstep))
      rw [lineOf_withLine, withLine_withLine]
      refine ⟨?_, by simpa using hwf', ?_⟩
      · rw [Line.run_concat]
        rfl
      · rw [outputs_snoc, houtputs, Line.trail_concat, List.map_append]
        rfl

/-- A registration edits its buffer as a line, over whole runs: it ends with the buffer and the
romaji of the line, every key is answered with the line it leads to, and nothing else changes. -/
theorem line_of_session {kanaTable : KanaTable} {keybindings : SkkKeybindings}
    {lispDirectives : Bool} {initialPhase : SkkPhase} {providers : List δ} {before : History δ}
    (hbefore : Session (fresh kanaTable keybindings lispDirectives initialPhase providers) before
      start) (hstack : start.registerStack = frame :: frames) (htext : start.typesText)
    (hrun : Session start history self) {keys : List (LineKey Char)}
    (hkeys : Edits history keys) :
    self = start.withLine frame frames ((start.lineOf frame).run start.typist keys) ∧
      outputs history = ((start.lineOf frame).trail start.typist keys).map fun line =>
        .updatePreedit (linePreedit frame (frames.length + 1) line) := by
  have hstart := hbefore.wf (fresh_wf kanaTable keybindings lispDirectives initialPhase providers)
  obtain ⟨hself, -, houtputs⟩ := line_of_wf hstart hstack htext hrun hkeys
  exact ⟨hself, houtputs⟩

/-- What was typed can be taken back: as many BackSpaces as characters that it became lead to the
state it was typed in. -/
theorem undo_of_session {kanaTable : KanaTable} {keybindings : SkkKeybindings}
    {lispDirectives : Bool} {initialPhase : SkkPhase} {providers : List δ} {before : History δ}
    (hbefore : Session (fresh kanaTable keybindings lispDirectives initialPhase providers) before
      start) (hstack : start.registerStack = frame :: frames) (htext : start.typesText)
    (hsettled : start.kanaState = []) (hrun : Session start history self) {typed : Str}
    (hdone : (start.typist.run [] typed).2 = [])
    (hkeys : Edits history (typed.map .type ++
      List.replicate (start.typist.run [] typed).1.length (.edit .backspace))) : self = start := by
  have hstart := hbefore.wf (fresh_wf kanaTable keybindings lispDirectives initialPhase providers)
  obtain ⟨hself, -, -⟩ := line_of_wf hstart hstack htext hrun hkeys
  have hback : (start.lineOf frame).run start.typist (typed.map .type ++
      List.replicate (start.typist.run [] typed).1.length (.edit .backspace)) =
      start.lineOf frame := Line.run_type_backspace start.typist hsettled hdone
  rw [hself, hback, withLine_lineOf hstart hstack]

end Runs

/-! ### A line -/

/-- The registration of `か`, which has no candidates. -/
def kaKeys : List KeyEvent := KeyEvent.typed ['K', 'a'] ++ [.press .space {}]

/-- Its frame: no word yet, the cursor at the start. -/
def kaFrame : RegisterFrame := ⟨['か'], ['か'], [], none, none, [], 0, false⟩

/-- The line typed into it: `かんか`, then the `ん` is taken out, and an `n` typed in its place. -/
def kankaLine : List (LineKey Char) :=
  kanka.dropLast.map .type ++ [.edit .left, .edit .backspace, .type 'n']

/-- The keys of that line. -/
def kankaLineKeys : List KeyEvent :=
  KeyEvent.typed kanka.dropLast ++ [.press .left {}, .press .backSpace {}] ++ KeyEvent.typed ['n']

/-- Where the typing of this line leads to: the text before and after the cursor, and a pending
`n`. -/
theorem line_of_session_kanka : letI := EucJp.empty
    ∃ before start history self, Session (kankaEngine .hiragana) before start ∧
      Session start history self ∧ self.registerStack = [kaFrame.withText ⟨['か'], ['か']⟩] ∧
      self.kanaState = ['n'] := by
  let _ := EucJp.empty
  obtain ⟨before, start, hbefore, -, hstack, htext, hempty, hmore⟩ := exists_session
    (kankaEngine .hiragana) kaKeys (fun _ start => start.registerStack = [kaFrame] ∧
      start.typesText ∧ start.kanaState = [] ∧
      (start.record kankaLineKeys).map (fun r => decide (Edits r.1 kankaLine ∧
        (start.lineOf kaFrame).run start.typist kankaLine = ⟨⟨['か'], ['か']⟩, ['n']⟩)) = .ok true)
    (by decide +kernel)
  obtain ⟨history, self, hrun, -, hedits, hline⟩ := exists_session start kankaLineKeys
    (fun history _ => Edits history kankaLine ∧
      (start.lineOf kaFrame).run start.typist kankaLine = ⟨⟨['か'], ['か']⟩, ['n']⟩) hmore
  obtain ⟨rfl, -⟩ := line_of_session hbefore hstack htext hrun hedits
  rw [hline] at hrun
  exact ⟨before, start, history, _, hbefore, hrun, rfl, rfl⟩

/-- Three kana typed, and taken back. -/
def kankaUndone : List KeyEvent :=
  KeyEvent.typed kanka.dropLast ++ List.replicate 3 (.press .backSpace {})

/-- Back in the state in which the three kana were typed. The keys leave nothing pending, and as
many BackSpaces follow as they have become characters. -/
theorem undo_of_session_kanka : letI := EucJp.empty
    ∃ before start history, Session (kankaEngine .hiragana) before start ∧
      Session start history start ∧ history.map Visit.input = kankaUndone := by
  let _ := EucJp.empty
  obtain ⟨before, start, hbefore, -, hstack, htext, hempty, hmore⟩ := exists_session
    (kankaEngine .hiragana) kaKeys (fun _ start => start.registerStack = [kaFrame] ∧
      start.typesText ∧ start.kanaState = [] ∧
      (start.record kankaUndone).map (fun r => decide (
        (start.typist.run [] kanka.dropLast).2 = [] ∧ Edits r.1 (kanka.dropLast.map .type ++
          List.replicate (start.typist.run [] kanka.dropLast).1.length (.edit .backspace)))) =
        .ok true)
    (by decide +kernel)
  obtain ⟨history, self, hrun, hinputs, hdone, hedits⟩ := exists_session start kankaUndone
    (fun history _ => (start.typist.run [] kanka.dropLast).2 = [] ∧
      Edits history (kanka.dropLast.map .type ++
        List.replicate (start.typist.run [] kanka.dropLast).1.length (.edit .backspace))) hmore
  obtain rfl := undo_of_session hbefore hstack htext hempty hrun hdone hedits
  exact ⟨before, self, history, hbefore, hrun, hinputs⟩

end SkkEngine

end Y2Skk
