import Mathlib.Data.List.Forall2
import Y2Skk.Proofs.Contract

/-!
# `Y2Skk.Proofs.Gather`: what a lookup offers

The candidates of a reading come from the entries under its template, one after the other.
Two facts about the list are needed to relate one conversion to the next:

* `gatherCandidates_explained`: every candidate with a dictionary origin is an expansion
  of the template word of its origin, and no directive hides it;
* `gatherCandidates_head`: the first plain entry comes first when it expands to one word
  that is not hidden.

A commit learns the template word of the candidate's origin, and a learned word becomes
the first entry of its dictionary. So the first fact says what was learned, and the second
that the next conversion offers it first.

The list is an accumulator of three parts, the candidates, their origins and the words
seen so far. Entries only ever add to its end, which is why the head can be read off the
first entry.
-/

set_option autoImplicit false

namespace Y2Skk

open Outcome Utf8

namespace SkkEngine

variable {δ : Type} [DictionaryProvider δ]

/-- A directive under the key hides the word. -/
def hides (self : SkkEngine δ) (lookupKey : Str) (okuriKey : Option Str) (word : Str) : Bool :=
  self.lispDirectives && decide (word ∈ ignoreSet (self.lookupAll lookupKey okuriKey))

/-- The lookup key of a reading is its template: without digits that is the reading. So the two
branches of the source come together in one equation. The entries are folded over one after the
other, and the synthetic numerals are appended behind them. -/
theorem gatherCandidates_eq (self : SkkEngine δ) (midashi : Str) (okuriKey : Option Str) :
    self.gatherCandidates midashi okuriKey = (do
      let gathered ← (self.lookupAll (scan midashi).1 okuriKey).foldlM
        (self.gatherCandidate (self.hides (scan midashi).1 okuriKey) (scan midashi).1
          (scan midashi).2) ⟨[], [], []⟩
      if (scan midashi).2 ≠ [] ∧ (gathered.candidates.isEmpty ∨ (scan midashi).1 = ['#']) then do
        let words ← synthesize (scan midashi).2 NumType.synthTypes
        .ok (appendSynthetic words gathered)
      else .ok gathered) := by
  have hkey : (if !(scan midashi).2.isEmpty then (scan midashi).1 else midashi)
      = (scan midashi).1 := by
    by_cases hruns : (scan midashi).2 = []
    · rw [hruns, scan_of_no_runs hruns]
      rfl
    · simp [hruns]
  have hguard : ((!(scan midashi).2.isEmpty) = true) = ((scan midashi).2 ≠ []) := by
    cases (scan midashi).2 <;> simp
  unfold gatherCandidates
  simp only [hkey]
  simp only [hguard]
  rfl

/-! ### Where the candidates come from -/

/-- The candidate is explained by its origin. -/
def Explains (self : SkkEngine δ) (lookupKey : Str) (okuriKey : Option Str)
    (digitRuns : List Str) (c : Candidate) : CandidateOrigin → Prop
  | .dict templateMidashi templateWord => templateMidashi = lookupKey ∧
      self.hides lookupKey okuriKey c.word = false ∧ self.Expands digitRuns templateWord c.word
  | .synthetic => True

/-- Every candidate is explained by its origin. -/
def Explained (self : SkkEngine δ) (lookupKey : Str) (okuriKey : Option Str)
    (digitRuns : List Str) (g : Gathered) : Prop :=
  List.Forall₂ (self.Explains lookupKey okuriKey digitRuns) g.candidates g.origin

variable {self : SkkEngine δ} {lookupKey : Str} {okuriKey : Option Str} {digitRuns : List Str}

/-- Every candidate of a lookup is explained by its origin. Both loops only append, a dictionary
word with the entry it was expanded from and a bare conversion as synthetic, so the relation is
kept word by word. -/
theorem gatherCandidates_explained (self : SkkEngine δ) (midashi : Str)
    (okuriKey : Option Str) : Runs (self.gatherCandidates midashi okuriKey)
      (self.Explained (scan midashi).1 okuriKey (scan midashi).2) := by
  rw [gatherCandidates_eq]
  have hinit : self.Explained (scan midashi).1 okuriKey (scan midashi).2 ⟨[], [], []⟩ := .nil
  refine (Runs.foldlM (self.Explained (scan midashi).1 okuriKey (scan midashi).2) _ _ hinit
    fun g c _ hg => gatherCandidate_keeps _ hg fun g word hg hshown hexpands =>
      List.rel_append hg (.cons ⟨rfl, hshown, hexpands⟩ .nil)).bind fun g hg => ?_
  refine Runs.ite (fun _ => ?_) fun _ => runs_ok.mpr hg
  refine (synthesize_runs _ _).bind fun words _ => runs_ok.mpr ?_
  exact appendSynthetic_keeps (self.Explained (scan midashi).1 okuriKey (scan midashi).2) words hg
    fun g word hg => List.rel_append hg (.cons trivial .nil)

/-! ### The first candidate -/

/-- The first entry is offered first when it is plain and expands to one word that is not
hidden. Its annotation goes with it. What comes after it only appends, so the statement is about
the empty list of candidates. -/
theorem gatherCandidate_first {hidden : Str → Bool} {c : Candidate} (hplain : c.lispForm = none)
    {word : Str} (hexpands : if digitRuns.isEmpty then word = c.word
      else expandWithRecursiveLookup c.word digitRuns self.recursiveLookup = .ok [word])
    (hshown : hidden word = false) :
    Runs (self.gatherCandidate hidden lookupKey digitRuns ⟨[], [], []⟩ c) fun g =>
      g.candidates = [⟨word, c.annotation, none⟩] := by
  have hoffer : (Gathered.offer ⟨[], [], []⟩ hidden word c.annotation
      (.dict lookupKey c.word)).candidates = [⟨word, c.annotation, none⟩] := by
    rw [Gathered.offer, hshown]
    rfl
  unfold gatherCandidate
  rw [hplain]
  refine Runs.ite (fun h => by cases h) fun _ => ?_
  refine Runs.ite (fun hruns => ?_) fun hruns => ?_
  · rw [if_pos hruns] at hexpands
    rw [← hexpands, runs_ok]
    rw [← hexpands] at hoffer
    exact hoffer
  · rw [if_neg hruns] at hexpands
    rw [hexpands, ok_bind]
    exact runs_ok.mpr hoffer

/-- The first entry of a lookup is the first candidate, whatever the other entries and the
numerals add. -/
theorem gatherCandidates_head (self : SkkEngine δ) {midashi : Str} {okuriKey : Option Str}
    {c : Candidate} {rest : List Candidate}
    (hlookup : self.lookupAll (scan midashi).1 okuriKey = c :: rest) (hplain : c.lispForm = none)
    {word : Str} (hexpands : if (scan midashi).2.isEmpty then word = c.word
      else expandWithRecursiveLookup c.word (scan midashi).2 self.recursiveLookup = .ok [word])
    (hshown : self.hides (scan midashi).1 okuriKey word = false) :
    Runs (self.gatherCandidates midashi okuriKey) fun g =>
      g.candidates.head? = some ⟨word, c.annotation, none⟩ := by
  have hhead : ∀ g : Gathered, [⟨word, c.annotation, none⟩] <+: g.candidates →
      g.candidates.head? = some ⟨word, c.annotation, none⟩ := by
    rintro g ⟨more, hmore⟩
    rw [← hmore]
    rfl
  rw [gatherCandidates_eq, hlookup, List.foldlM_cons, bind_assoc]
  refine (gatherCandidate_first hplain hexpands hshown).bind fun g hg => ?_
  refine (Runs.foldlM (fun g' => [⟨word, c.annotation, none⟩] <+: g'.candidates) rest g
    (hg ▸ List.prefix_refl _) fun g' c' _ hg' => ?_).bind fun g' hg' => ?_
  · -- Candidates are only ever added at the end.
    exact gatherCandidate_keeps _ hg' fun g'' word hg'' _ _ => hg''.trans (List.prefix_append _ _)
  · refine Runs.ite (fun _ => ?_) fun _ => runs_ok.mpr (hhead g' hg')
    refine (synthesize_runs _ _).bind fun words _ => runs_ok.mpr (hhead _ ?_)
    exact appendSynthetic_keeps
      (fun g'' => [(⟨word, c.annotation, none⟩ : Candidate)] <+: g''.candidates) words hg'
      fun g'' w hg'' => hg''.trans (List.prefix_append _ _)

end SkkEngine

end Y2Skk
