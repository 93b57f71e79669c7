import Y2Skk.Proofs.Completion

/-!
# `Y2Skk.Proofs.Ghost`: what lies in the ghost region

The bytes of a preedit from `ghost_start` on are meant to be the completion preview, and
the adapters dim them. `build_preedit` puts the text behind the registration cursor there
too.

* `buildPreedit_ghost`: the text of a preedit with a ghost, part by part.
* `ghost_iff_of_session`: the region is the preview alone exactly when the registration
  cursor is at the end of its text, or no registration is active.

## The parts

In a registration the preedit is the prompt, the text before the cursor, the composition,
and the text after the cursor. `surroundings` names the two texts around the composition,
and `placePreedit_eq` says that every branch of `build_preedit` places its composition
between them. The ghost starts where the composition ends without its preview, so the
region reaches to the end of the preedit and takes the second text in.

The cut at the cursor does not fail under the engine invariant, and the second text is
empty exactly when the cursor is behind the whole buffer (`surroundings_runs`).
-/

set_option autoImplicit false

namespace Y2Skk

open Outcome Utf8 Transition

namespace SkkEngine

variable {δ : Type} {self : SkkEngine δ} {preedit : Preedit} {n : Nat}

/-- What the user has typed so far, as it is shown: the prompt and the text of the top frame,
and the reading behind the mark. -/
def settledText (self : SkkEngine δ) (kanaBuf : Str) : Str :=
  (match self.registerStack with
    | frame :: _ => registerPrompt frame self.registerStack.length ++ frame.committed
    | [] => []) ++ '▽' :: displayReading self.midashiDisplayMode kanaBuf

/-- The ghost region is the preview: it begins at the cursor, it is the separator and the part
of the preview beyond the reading, and what was typed is in front of it. -/
def GhostIsPreview (self : SkkEngine δ) (preedit : Preedit) (n : Nat) : Prop :=
  n = preedit.cursor ∧ ∃ kanaBuf state rest, self.phase = .midashi kanaBuf [] ∧
    self.completion = some state ∧ state.preview = kanaBuf ++ rest ∧
    sliceFrom preedit.text n = .ok (ghostSeparator ++ rest) ∧
    sliceTo preedit.text n = .ok (self.settledText kanaBuf)

/-- The cursor of the top frame is behind its text. -/
def cursorAtEnd (self : SkkEngine δ) : Prop :=
  ∀ frame, self.registerStack.head? = some frame → frame.cursor = byteLen frame.committed

/-! ### The parts of the text -/

/-- What a registration shows around the composition: the prompt with the text before its
cursor, and the text after it. -/
def surroundings (self : SkkEngine δ) : Partial (Str × Str) :=
  match self.registerStack with
  | frame :: _ => do
      let before ← sliceTo frame.committed frame.cursor
      let after ← sliceFrom frame.committed frame.cursor
      .ok (registerPrompt frame self.registerStack.length ++ before, after)
  | [] => .ok ([], [])

/-- Whatever is composed is placed in its surroundings: cursor and ghost are moved by the length
of what stands in front. -/
theorem placePreedit_eq (self : SkkEngine δ) (inner : Str) (cursorPos : Nat) (ghost : Bool) :
    self.placePreedit inner cursorPos ghost = (do
      let parts ← self.surroundings
      .ok { text := parts.1 ++ inner ++ parts.2, cursor := byteLen parts.1 + cursorPos,
            ghostStart := if ghost then some (byteLen parts.1 + cursorPos) else none }) := by
  unfold placePreedit surroundings
  cases self.registerStack with
  | nil => simp
  | cons frame frames =>
      dsimp only
      cases sliceTo frame.committed frame.cursor with
      | error e => rfl
      | ok before =>
          cases sliceFrom frame.committed frame.cursor with
          | error e => rfl
          | ok after => simp

/-- Under the invariant the top frame is cut at its cursor. What is behind the cursor is empty
just when the cursor is at the end of the text. Then the reading is drawn last, so all that
comes after it in the preedit is the preview. -/
theorem surroundings_runs (hself : self.Wf) :
    Runs self.surroundings fun parts =>
      (parts.2 = [] ↔ self.cursorAtEnd) ∧
      (self.cursorAtEnd → ∀ kanaBuf,
        parts.1 ++ '▽' :: displayReading self.midashiDisplayMode kanaBuf
          = self.settledText kanaBuf) := by
  unfold surroundings settledText cursorAtEnd
  cases hstack : self.registerStack with
  | nil => exact runs_ok.mpr ⟨by simp, fun _ _ => rfl⟩
  | cons frame frames =>
      obtain ⟨before, after, hcommitted, hlen⟩ := (hself.frames frame (by simp [hstack])).cursor
      simp only [hcommitted, ← hlen, sliceTo_append, sliceFrom_append, ok_bind, runs_ok,
        List.head?_cons, Option.some.injEq, forall_eq', byteLen_append]
      have hend : byteLen before = byteLen before + byteLen after ↔ after = [] := by
        cases after with
        | nil => simp
        | cons c after =>
            have hsize := c.utf8Size_pos
            simp only [byteLen_cons, reduceCtorEq, iff_false]
            omega
      refine ⟨hend.symm, fun h kanaBuf => ?_⟩
      rw [hend.mp h, List.append_nil]

/-- A preedit with a ghost is the reading with its preview, placed in its surroundings. Only the
branch for a reading with a completion and no pending romaji draws one, and the ghost starts at
the cursor, behind the reading. -/
theorem buildPreedit_ghost (hbuild : self.buildPreedit = .ok preedit)
    (hghost : preedit.ghostStart = some n) :
    ∃ kanaBuf state rest parts, self.phase = .midashi kanaBuf [] ∧
      self.completion = some state ∧ state.preview = kanaBuf ++ rest ∧
      self.surroundings = .ok parts ∧ n = preedit.cursor ∧
      n = byteLen (parts.1 ++ '▽' :: displayReading self.midashiDisplayMode kanaBuf) ∧
      preedit.text = parts.1 ++ '▽' :: displayReading self.midashiDisplayMode kanaBuf
        ++ (ghostSeparator ++ rest ++ parts.2) := by
  -- Every other branch draws no ghost.
  have hplain : self.plainPreedit ≠ .ok preedit := by
    intro h
    unfold plainPreedit at h
    cases hinner : self.buildInnerPreedit with
    | error e =>
        rw [hinner] at h
        cases h
    | ok inner =>
        rw [hinner, ok_bind, placePreedit_eq] at h
        cases hparts : self.surroundings with
        | error e =>
            rw [hparts] at h
            cases h
        | ok parts =>
            rw [hparts] at h
            cases h
            cases hghost
  unfold buildPreedit at hbuild
  split at hbuild
  · rename_i kanaBuf state hphase hcompletion
    split at hbuild
    · rename_i hleading
      obtain ⟨rest, hpreview⟩ := List.isPrefixOf_iff_prefix.mp hleading
      rw [← hpreview, sliceFrom_append, ok_bind, placePreedit_eq] at hbuild
      cases hparts : self.surroundings with
      | error e =>
          rw [hparts] at hbuild
          cases hbuild
      | ok parts =>
          rw [hparts] at hbuild
          cases hbuild
          cases hghost
          refine ⟨kanaBuf, state, rest, parts, hphase, hcompletion, hpreview.symm, rfl, rfl, ?_, ?_⟩
          · rw [byteLen_append, byteLen_cons]
            rfl
          · simp [List.append_assoc]
    · exact (hplain hbuild).elim
  · exact (hplain hbuild).elim

/-- In every run: where a preedit has a ghost, the region is the preview exactly when the
registration cursor, if there is one, is behind the text. -/
theorem ghost_iff_of_session [DictionaryProvider δ] [EucJp] {kanaTable : KanaTable}
    {keybindings : SkkKeybindings} {lispDirectives : Bool} {initialPhase : SkkPhase}
    {providers : List δ} {history : History δ}
    (hrun : Session (fresh kanaTable keybindings lispDirectives initialPhase providers)
      history self)
    (hbuild : self.buildPreedit = .ok preedit) (hghost : preedit.ghostStart = some n) :
    GhostIsPreview self preedit n ↔ self.cursorAtEnd := by
  obtain ⟨kanaBuf, state, rest, parts, hphase, hcompletion, hpreview, hparts, hcursor, hn, htext⟩ :=
    buildPreedit_ghost hbuild hghost
  obtain ⟨parts', hparts', hend, hsettled⟩ := surroundings_runs (Session.wf (fresh_wf ..) hrun)
  rw [hparts] at hparts'
  cases hparts'
  have hafter : sliceFrom preedit.text n = .ok (ghostSeparator ++ rest ++ parts.2) := by
    rw [htext, hn, sliceFrom_append]
  constructor
  · rintro ⟨-, kanaBuf', state', rest', hphase', hcompletion', hpreview', hregion, -⟩
    rw [hphase] at hphase'
    rw [hcompletion] at hcompletion'
    cases hphase'
    cases hcompletion'
    have hrest : rest' = rest := List.append_cancel_left (hpreview'.symm.trans hpreview)
    rw [hafter, hrest] at hregion
    -- The text behind the cursor is what the region has too much.
    exact hend.mp (List.append_right_eq_self.mp (Except.ok.inj hregion))
  · intro hatEnd
    refine ⟨hcursor, kanaBuf, state, rest, hphase, hcompletion, hpreview, ?_, ?_⟩
    · rw [hafter, hend.mpr hatEnd, List.append_nil]
    · rw [htext, hn, sliceTo_append, hsettled hatEnd]

/-- A registration for `あ` with `あ` typed, the cursor moved in front of it, and a reading
begun there: the text behind the cursor is in the ghost region. -/
theorem ghost_covers_committed :
    letI := EucJp.empty
    ∃ (history : History UserDict) (self : SkkEngine UserDict) (preedit : Preedit) (n : Nat),
      Session (fresh vowelTable {} true .hiragana [vowelDict]) history self ∧
      history.map Visit.input = [.press (.char 'A') {}, .press .space {}, .press (.char 'a') {},
        .press .left {}, .press (.char 'A') {}] ∧
      self.buildPreedit = .ok preedit ∧ preedit.ghostStart = some n ∧
      sliceFrom preedit.text n = .ok ['|', 'あ', 'あ'] ∧
      self.completion = some ⟨['あ'], 1, ['あ', 'あ']⟩ ∧ ¬ GhostIsPreview self preedit n := by
  let _ := EucJp.empty
  have hrecord := exists_session (fresh vowelTable {} true .hiragana [vowelDict])
    [.press (.char 'A') {}, .press .space {}, .press (.char 'a') {}, .press .left {},
      .press (.char 'A') {}] (fun _ (self : SkkEngine UserDict) =>
      self.phase = .midashi ['あ'] [] ∧ self.completion = some ⟨['あ'], 1, ['あ', 'あ']⟩ ∧
      ∃ preedit ∈ self.buildPreedit.toOption, ∃ n ∈ preedit.ghostStart,
        sliceFrom preedit.text n = .ok ['|', 'あ', 'あ'])
    (by decide +kernel)
  obtain ⟨history, self, hrun, hinputs, hphase, hcompletion, preedit, hbuild, n, hghost, hregion⟩ :=
    hrecord
  refine ⟨history, self, preedit, n, hrun, hinputs, ok_of_mem_toOption hbuild, hghost, hregion,
    hcompletion, ?_⟩
  -- the preview of the completion is one kana, and the region has the committed text behind it
  rintro ⟨-, kanaBuf, state, rest, hphase', hcompletion', hpreview, hregion', -⟩
  rw [hphase] at hphase'
  rw [hcompletion] at hcompletion'
  cases hphase'
  cases hcompletion'
  have hrest : rest = ['あ'] := (List.cons.inj hpreview).2.symm
  rw [hregion, hrest] at hregion'
  cases hregion'

/-- With the cursor behind the text of the registration the region is the preview. The keys are
those of `ghost_covers_committed`, without the one that moves the cursor. -/
theorem ghost_iff_of_session_end :
    letI := EucJp.empty
    ∃ (history : History UserDict) (self : SkkEngine UserDict) (preedit : Preedit) (n : Nat),
      Session (fresh vowelTable {} true .hiragana [vowelDict]) history self ∧
      (self.registerStack.map RegisterFrame.committed) = [['あ']] ∧
      self.buildPreedit = .ok preedit ∧ preedit.ghostStart = some n ∧
      GhostIsPreview self preedit n := by
  let _ := EucJp.empty
  have hrecord := exists_session (fresh vowelTable {} true .hiragana [vowelDict])
    [.press (.char 'A') {}, .press .space {}, .press (.char 'a') {}, .press (.char 'A') {}]
    (fun _ (self : SkkEngine UserDict) =>
      (self.registerStack.map RegisterFrame.committed) = [['あ']] ∧
      (∃ frame ∈ self.registerStack.head?, frame.cursor = byteLen frame.committed) ∧
      ∃ preedit ∈ self.buildPreedit.toOption, preedit.ghostStart.isSome)
    (by decide +kernel)
  obtain ⟨history, self, hrun, -, hcommitted, ⟨frame, hframe, hcursor⟩, preedit, hbuild, hsome⟩ :=
    hrecord
  obtain ⟨n, hghost⟩ := Option.isSome_iff_exists.mp hsome
  have hend : self.cursorAtEnd := by
    intro top htop
    rw [hframe] at htop
    cases htop
    exact hcursor
  exact ⟨history, self, preedit, n, hrun, hcommitted, ok_of_mem_toOption hbuild, hghost,
    (ghost_iff_of_session hrun (ok_of_mem_toOption hbuild) hghost).mpr hend⟩

end SkkEngine

end Y2Skk
