import Y2Skk.Engine.ProcessKey

/-!
# `Y2Skk.Proofs.Invariant`: what every reachable engine state satisfies

`SkkEngine.Wf` is the engine invariant: registration frames with a usable cursor,
selections whose focused candidate exists, and pending romaji only in the phases that type
romaji. This file states it and proves that the total parts of the display, and the
conversion pipeline, are defined under it:

* `buildPreedit_runs`: the preedit can be built, with its offsets between characters.
* `gatherCandidates_runs`: a lookup returns as many origins as candidates.
* `listingShowAction_eq`: the candidate page exists.

## Panics

The source slices strings at byte offsets and indexes lists, and both can panic. The model
returns an error there, and `Runs` says of a computation that it returns a value with some
property. So the invariant is what keeps the slices at the boundaries of characters and
the indices in the lists. The numerals convert within the bounds of their types as well:
that part is in `Proofs.Numerals` and the library.

Nothing here looks at a key handler. The handlers are in `Proofs/Handlers.lean`, and the
preservation of the invariant over a key press in `Proofs/KeyStep.lean`.
-/

set_option autoImplicit false

namespace Y2Skk

open Outcome Utf8

/-- The offsets of a preedit fall between characters of its text. -/
structure Preedit.Wf (preedit : Preedit) : Prop where
  cursor : IsBoundary preedit.text preedit.cursor
  ghost : ∀ g, preedit.ghostStart = some g → IsBoundary preedit.text g

/-- The focused candidate exists and has an origin, and the okurigana comes with its
key. -/
structure Selection.Wf (s : Selection) : Prop where
  origin_length : s.origin.length = s.candidates.length
  index_lt : s.index < s.candidates.length
  okuri : s.okuri.isSome = s.okuriKey.isSome

/-- The cursor is usable, and the frame holds the template of its own reading. -/
structure RegisterFrame.Wf (frame : RegisterFrame) : Prop where
  cursor : IsBoundary frame.committed frame.cursor
  scanned : scan frame.originalMidashi = (frame.midashi, frame.digitRuns)
  okuri : frame.okuriKana.isSome = frame.okuriKey.isSome

/-- The part of the invariant that depends on the phase: `Midashi` shows the pending
romaji as its own buffer, the kana phases and `Okuri` keep it in `kana_state` alone, and
no other phase has any. -/
def PhaseWf (kanaState : Str) : SkkPhase → Prop
  | .hiragana | .katakana | .halfWidthKatakana | .okuri _ _ _ => True
  | .ascii | .wideAscii | .abbrev _ | .codeInput _ _ => kanaState = []
  | .midashi _ romanBuf => kanaState = romanBuf
  | .selecting s => kanaState = [] ∧ s.Wf
  | .purgeConfirm s _ _ => kanaState = [] ∧ s.Wf

/-- As many origins as candidates. -/
def Gathered.Wf (g : Gathered) : Prop := g.origin.length = g.candidates.length

/-- The engine invariant. -/
structure SkkEngine.Wf {δ : Type} (engine : SkkEngine δ) : Prop where
  frames : ∀ frame ∈ engine.registerStack, frame.Wf
  phase : PhaseWf engine.kanaState engine.phase

/-- The phase part of the invariant, at a known phase. -/
theorem SkkEngine.Wf.phase_eq {δ : Type} {engine : SkkEngine δ} (h : engine.Wf) {phase : SkkPhase}
    (hphase : engine.phase = phase) : PhaseWf engine.kanaState phase := hphase ▸ h.phase

/-- With no pending romaji, the phases that show nothing of their own. -/
def SkkPhase.isPlain : SkkPhase → Bool
  | .hiragana | .katakana | .halfWidthKatakana | .ascii | .wideAscii => true
  | _ => false

/-- The plain phases are fine with nothing pending. -/
theorem phaseWf_of_isPlain {phase : SkkPhase} (h : phase.isPlain) : PhaseWf [] phase := by
  cases phase <;> simp_all [SkkPhase.isPlain, PhaseWf]

/-- The kana modes are plain phases. -/
@[simp] theorem KanaMode.isPlain_toPhase (mode : KanaMode) : mode.toPhase.isPlain := by
  cases mode <;> rfl

namespace SkkEngine

variable {δ : Type}

/-! ### The preedit -/

/-- A phase handler sees no registration prompt, so it clears the preedit exactly when
the inner one is empty. -/
theorem buildInnerPreedit_of_isPlain {self : SkkEngine δ} (hphase : self.phase.isPlain)
    (hkana : self.kanaState = []) : self.buildInnerPreedit = .ok [] := by
  unfold buildInnerPreedit
  cases h : self.phase <;> simp_all [SkkPhase.isPlain]

/-- The composition is drawn without a panic: the focused candidate exists, which is the only
index into a list here. -/
theorem buildInnerPreedit_runs {self : SkkEngine δ} (hself : self.Wf) :
    Runs self.buildInnerPreedit fun _ => True := by
  unfold buildInnerPreedit
  cases hphase : self.phase with
  | codeInput codePrefix buf => cases codePrefix <;> simp
  | selecting s =>
      have hs : s.Wf := by
        have := hself.phase
        rw [hphase] at this
        exact this.2
      simp only [indexList_eq hs.index_lt, ok_bind]
      split <;> simp
  | _ => simp

/-- Placing an inner preedit at the registration cursor keeps its offset between two characters.
The text before the cursor and the prompt are put in front, so the offset moves by their
lengths. The cursor is a boundary of the buffer, by the invariant on frames. -/
theorem placePreedit_runs {self : SkkEngine δ} (hself : self.Wf) {inner : Str} {cursorPos : Nat}
    (hcursor : IsBoundary inner cursorPos) (ghost : Bool) :
    Runs (self.placePreedit inner cursorPos ghost) Preedit.Wf := by
  unfold placePreedit
  cases hstack : self.registerStack with
  | nil =>
      rw [runs_ok]
      refine ⟨hcursor, fun g hg => ?_⟩
      cases ghost <;> simp_all
  | cons frame frames =>
      obtain ⟨before, after, hcommitted, hlen⟩ := (hself.frames frame (by simp [hstack])).cursor
      obtain ⟨x, y, rfl, rfl⟩ := hcursor
      simp only [hcommitted, ← hlen, sliceTo_append, sliceFrom_append, ok_bind, runs_ok]
      -- the offset behind the prompt, the text before the cursor and the part of the inner
      -- preedit
      have hboundary : ∀ pre : Str, IsBoundary (pre ++ before ++ (x ++ y) ++ after)
          (byteLen pre + byteLen before + byteLen x) := fun pre =>
        ⟨pre ++ before ++ x, y ++ after, by simp, by simp [Nat.add_assoc]⟩
      refine ⟨hboundary _, fun g hg => ?_⟩
      cases ghost
      · cases hg
      · cases hg
        exact hboundary _

/-- The branches without a ghost. -/
theorem plainPreedit_runs {self : SkkEngine δ} (hself : self.Wf) :
    Runs self.plainPreedit Preedit.Wf :=
  (buildInnerPreedit_runs hself).bind fun _ _ =>
    placePreedit_runs hself (isBoundary_byteLen _) false

/-- Under the invariant the preedit can be built, and its offsets are usable: they are on
character boundaries of its text. -/
theorem buildPreedit_runs {self : SkkEngine δ} (hself : self.Wf) :
    Runs self.buildPreedit Preedit.Wf := by
  -- A ghost is drawn behind the reading only, and every other branch is a plain preedit.
  unfold buildPreedit
  split
  · rename_i kanaBuf state _ _
    refine Runs.ite (fun hleading => ?_) fun _ => plainPreedit_runs hself
    obtain ⟨suffix, hpreview⟩ := List.isPrefixOf_iff_prefix.mp hleading
    rw [← hpreview, sliceFrom_append, ok_bind]
    -- The cursor stands after the display form, where the ghost starts.
    exact placePreedit_runs hself
      ⟨'▽' :: displayReading self.midashiDisplayMode kanaBuf, ghostSeparator ++ suffix,
        by simp, by rw [byteLen_cons]; rfl⟩ true
  · exact plainPreedit_runs hself

/-- With no pending composition and no registration the preedit is empty, and `ClearPreedit`
shows the same. -/
theorem buildPreedit_text_of_isPlain {self : SkkEngine δ} (hphase : self.phase.isPlain)
    (hkana : self.kanaState = []) (hstack : self.registerStack = []) :
    self.buildPreedit = .ok ⟨[], 0, none⟩ := by
  have hplain : self.plainPreedit = .ok ⟨[], 0, none⟩ := by
    unfold plainPreedit placePreedit
    rw [buildInnerPreedit_of_isPlain hphase hkana, ok_bind, hstack]
    rfl
  unfold buildPreedit
  split
  · simp_all [SkkPhase.isPlain]
  · exact hplain

/-! ### The candidate page -/

/-- The page at `index` when it is in listing mode, one row per selection key. -/
def pageAt (self : SkkEngine δ) (candidates : List Candidate) (index : Nat) :
    Option EngineAction :=
  let keys := self.keybindings.selectionKeys
  if keys.length = 0 ∨ index < self.keybindings.inlineCount then none
  else
    let page := (candidates.drop index).take keys.length
    some (.showCandidates page 0 (keys.take page.length))

/-- Up to the end of the list the page is defined, and both slices of the source are within
their bounds. -/
theorem listingShowAction_eq (self : SkkEngine δ) {candidates : List Candidate} {index : Nat}
    (hindex : index ≤ candidates.length) :
    self.listingShowAction candidates index = .ok (self.pageAt candidates index) := by
  unfold listingShowAction pageAt
  dsimp only
  split
  · rfl
  · have hlen := List.length_take_le self.keybindings.selectionKeys.length
      (candidates.drop index)
    rw [dropFrom_eq hindex, ok_bind, takeTo_eq hlen, ok_bind]

/-! ### The conversion pipeline -/

section Conversion
variable [DictionaryProvider δ]

/-- `word` is an expansion of the dictionary word `template` over the digit runs. -/
def Expands (self : SkkEngine δ) (digitRuns : List Str) (template word : Str) : Prop :=
  if digitRuns.isEmpty then word = template
  else ∃ alts, expandWithRecursiveLookup template digitRuns self.recursiveLookup = .ok alts ∧
    word ∈ alts

omit [DictionaryProvider δ] in
/-- An offer pushes the word or does nothing, so what pushing a shown word keeps, an offer
keeps. -/
theorem offer_keeps {P : Gathered → Prop} {g : Gathered} (hg : P g) {hidden : Str → Bool}
    {word : Str} {note : Option Str} {origin : CandidateOrigin}
    (hpush : hidden word = false → P (g.push word note origin)) :
    P (g.offer hidden word note origin) := by
  unfold Gathered.offer
  split
  · exact hg
  · rename_i hshown
    split
    · exact hg
    · exact hpush (by simpa using hshown)

/-- A round of the candidate loop keeps what pushing an expansion of its word keeps. The entries
that are skipped change nothing. With several expansions the round pushes them one by one, so
the induction is over the list of them. -/
theorem gatherCandidate_keeps {self : SkkEngine δ} (P : Gathered → Prop) {g : Gathered}
    (hg : P g) {hidden : Str → Bool} {lookupKey : Str} {digitRuns : List Str} {c : Candidate}
    (hpush : ∀ g word, P g → hidden word = false → self.Expands digitRuns c.word word →
      P (g.push word c.annotation (.dict lookupKey c.word))) :
    Runs (self.gatherCandidate hidden lookupKey digitRuns g c) P := by
  have hoffer : ∀ g word, P g → self.Expands digitRuns c.word word →
      P (g.offer hidden word c.annotation (.dict lookupKey c.word)) :=
    fun g word hg hword => offer_keeps hg fun hshown => hpush g word hg hshown hword
  unfold gatherCandidate
  refine Runs.ite (fun _ => runs_ok.mpr hg) fun _ => ?_
  refine Runs.ite (fun hruns => runs_ok.mpr (hoffer g _ hg ?_)) fun hruns => ?_
  · rw [Expands, if_pos hruns]
  obtain ⟨alts, hexpand, -⟩ := expandWithRecursiveLookup_runs c.word digitRuns self.recursiveLookup
  have hexpands : ∀ word ∈ alts, self.Expands digitRuns c.word word := fun word hword => by
    rw [Expands, if_neg hruns]
    exact ⟨alts, hexpand, hword⟩
  rw [hexpand, ok_bind]
  refine Runs.ite (fun _ => runs_ok.mpr hg) fun hsome => ?_
  refine Runs.ite (fun hlen => ?_) fun hmany => ?_
  · obtain ⟨word, rfl⟩ := List.length_eq_one_iff.mp hlen
    exact runs_ok.mpr (hoffer g word hg (hexpands word (List.mem_singleton_self word)))
  · rw [runs_ok]
    -- The expansions are offered in order; the induction is on those that are left.
    clear hexpand hsome hmany
    induction alts generalizing g with
    | nil => exact hg
    | cons word alts ih =>
        refine ih (hoffer g word hg (hexpands word List.mem_cons_self)) fun w hw => ?_
        exact hexpands w (List.mem_cons_of_mem _ hw)

omit [DictionaryProvider δ] in
/-- The numerals behind the entries keep what pushing a word without an annotation keeps. -/
theorem appendSynthetic_keeps (P : Gathered → Prop) (words : List Str) {g : Gathered} (hg : P g)
    (hpush : ∀ g word, P g → P { g with
      candidates := g.candidates ++ [⟨word, none, none⟩], origin := g.origin ++ [.synthetic] }) :
    P (appendSynthetic words g) := by
  unfold appendSynthetic
  induction words generalizing g with
  | nil => exact hg
  | cons w words ih =>
      rw [List.foldl_cons]
      apply ih
      split
      · exact hg
      · exact hpush g w hg

/-- A lookup does not panic and pairs every candidate with an origin, so the index of the focus
is good for both lists. -/
theorem gatherCandidates_runs (self : SkkEngine δ) (midashi : Str) (okuriKey : Option Str) :
    Runs (self.gatherCandidates midashi okuriKey) Gathered.Wf := by
  unfold gatherCandidates
  have hempty : Gathered.Wf ⟨[], [], []⟩ := rfl
  refine (Runs.foldlM Gathered.Wf _ _ hempty fun g c _ hg =>
    gatherCandidate_keeps Gathered.Wf hg fun g word hg _ _ => ?_).bind fun g hg => ?_
  · simpa [Gathered.Wf, Gathered.push] using hg
  · refine Runs.ite (fun _ => ?_) fun _ => runs_ok.mpr hg
    refine (synthesize_runs _ _).bind fun words _ => runs_ok.mpr ?_
    exact appendSynthetic_keeps Gathered.Wf words hg fun g word hg => by
      simpa [Gathered.Wf] using hg

end Conversion

end SkkEngine

end Y2Skk
