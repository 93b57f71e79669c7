import Y2Skk.Proofs.Learning
import Y2Skk.Proofs.Invariant

/-!
# `Y2Skk.Proofs.Unignore`: what learning a word changes

Learning edits one bucket: the word moves to its front, the directives lose the word and
are rendered anew, and the directives left empty go.

## The bucket

`withoutWord` says what becomes of one candidate of the bucket, and
`unignore_eq_filterMap` that the code, which edits the directives first and filters the
empty ones out afterwards, does just that to each. `bucket?_learn_self` is the bucket a
word was learned into, and `bucket?_learn_of_ne` the frame: no other bucket changes.

## The next conversion

`learn_unignores` says so for every bucket of every user dictionary. With that dictionary
alone the next conversion of the reading offers the word first, since no directive is left
that hides it. The word has to stand for itself, so the reading has no digits.
-/

set_option autoImplicit false

namespace Y2Skk

open Outcome Utf8 Transition

namespace Candidate

/-- What is left of a candidate of the bucket `word` is learned into. A directive loses the
word, and is gone when it had no other. -/
def withoutWord (word : Str) (c : Candidate) : Option Candidate :=
  match c.lispForm with
  | some (.ignoreDicWord words) =>
      match words.filter (· ≠ word) with
      | [] => none
      | w :: left => some { c with
          word := renderIgnoreDicWord (w :: left), lispForm := some (.ignoreDicWord (w :: left)) }
  | _ => some c

end Candidate

namespace UserDict

/-- The directives are edited one by one. The source maps over the bucket and then filters the
empty directives out, and the two passes are one here. -/
theorem unignore_eq_filterMap (word : Str) (list : List Candidate) :
    unignore [word] list = list.filterMap (Candidate.withoutWord word) := by
  induction list with
  | nil => rfl
  | cons c list ih =>
      rw [List.filterMap_cons, ← ih, unignore, unignore, List.map_cons]
      cases hform : c.lispForm with
      | none =>
          have hsame : unignoreIn [word] c = c := by rw [unignoreIn, hform]
          rw [hsame, List.filter_cons_of_pos (by simp [hform]), Candidate.withoutWord, hform]
      | some form =>
      cases form with
      | unknown =>
          have hsame : unignoreIn [word] c = c := by rw [unignoreIn, hform]
          rw [hsame, List.filter_cons_of_pos (by simp [hform]), Candidate.withoutWord, hform]
      | ignoreDicWord words =>
          -- To take one word out is to keep the words that differ from it.
          have hleft : words.filter (fun w => w ∉ [word]) = words.filter (· ≠ word) :=
            List.filter_congr fun w _ => by simp
          have hedit : unignoreIn [word] c = { c with
              word := renderIgnoreDicWord (words.filter (· ≠ word)),
              lispForm := some (.ignoreDicWord (words.filter (· ≠ word))) } := by
            rw [unignoreIn, hform]
            dsimp only
            rw [hleft]
          rw [hedit, Candidate.withoutWord, hform]
          dsimp only
          -- A directive without words is dropped, and any other is kept with those that are left.
          cases words.filter (· ≠ word) with
          | nil => rw [List.filter_cons_of_neg (by simp)]
          | cons w left => rw [List.filter_cons_of_pos (by simp)]

/-- The bucket a word was learned into: the word with its annotation, and behind it what is left
of the others. -/
theorem bucket?_learn_self (dict : UserDict) (midashi : Str) (okuri : Option Str) (word : Str)
    (note : Option Str) :
    (dict.learn ⟨midashi, okuri, [⟨word, note, none⟩]⟩).1.bucket? midashi okuri =
      some (⟨word, note, none⟩ :: (((dict.bucket? midashi okuri).getD []).filter
        fun c => c.word ≠ word).filterMap (Candidate.withoutWord word)) := by
  have hlearned : (([⟨word, note, none⟩] : List Candidate).filter
      Candidate.isDisplayable).map Candidate.word = [word] := rfl
  rw [bucket?_learn, if_pos ⟨rfl, rfl⟩, hlearned, unignore_eq_filterMap, promote_singleton]
  rfl

/-- No other bucket changes, under the same headword or under another one. -/
theorem bucket?_learn_of_ne (dict : UserDict) {midashi midashi' : Str} {okuri okuri' : Option Str}
    (word : Str) (note : Option Str) (h : (midashi', okuri') ≠ (midashi, okuri)) :
    (dict.learn ⟨midashi, okuri, [⟨word, note, none⟩]⟩).1.bucket? midashi' okuri' =
      dict.bucket? midashi' okuri' := by
  rw [bucket?_learn, if_neg]
  rintro ⟨rfl, rfl⟩
  exact h rfl

end UserDict

namespace SkkEngine

/-- Learning a word edits its own bucket and no other. With that dictionary alone the next
conversion of the reading offers the word first. -/
theorem learn_unignores [EucJp] {ρ : Type} [DictionaryProvider ρ] (dict : UserDict)
    (midashi : Str) (okuri : Option Str) (word : Str) (note : Option Str) :
    let learned := (dict.learn ⟨midashi, okuri, [⟨word, note, none⟩]⟩).1
    learned.bucket? midashi okuri =
        some (⟨word, note, none⟩ :: (((dict.bucket? midashi okuri).getD []).filter
          fun c => c.word ≠ word).filterMap (Candidate.withoutWord word)) ∧
      (∀ midashi' okuri', (midashi', okuri') ≠ (midashi, okuri) →
        learned.bucket? midashi' okuri' = dict.bucket? midashi' okuri') ∧
      ∀ (kanaTable : KanaTable) (keybindings : SkkKeybindings) (lispDirectives : Bool)
        (initialPhase : SkkPhase) (providers : List (Provider ρ))
        (history : History (Provider ρ)) (self : SkkEngine (Provider ρ))
        (conversion : Option (Str × Str)),
        Session (fresh kanaTable keybindings lispDirectives initialPhase providers) history self →
        self.dict = [.user learned] → (∀ c ∈ midashi, c.isDigit = false) →
        conversion.map Prod.fst = okuri →
        Runs (self.startConversion midashi conversion) fun r => ∃ s, r.1.phase = .selecting s ∧
          s.candidates[0]? = some ⟨word, note, none⟩ := by
  intro learned
  refine ⟨dict.bucket?_learn_self midashi okuri word note,
    fun midashi' okuri' h => dict.bucket?_learn_of_ne word note h, ?_⟩
  intro kanaTable keybindings lispDirectives initialPhase providers history self conversion
    hrun hdict hdigits hokuri
  have hscan := scan_of_no_digits hdigits
  have hwf : self.Wf := Session.wf (fresh_wf ..) hrun
  have hlearned : self.dict = .user (dict.learn ⟨(scan midashi).1, conversion.map Prod.fst,
      [⟨word, note, none⟩]⟩).1 :: [] := by
    rw [hdict, hscan, hokuri]
  have hshown : self.hides (scan midashi).1 (conversion.map Prod.fst) word = false := by
    rw [Bool.eq_false_iff]
    intro hhides
    -- There is no other dictionary, and the own directives have lost the word.
    rcases (hides_of_learned hlearned hhides).2 with hother | ⟨-, hself⟩
    · cases hother
    · exact hself rfl
  have hexpands : if (scan midashi).2.isEmpty then word = word
      else expandWithRecursiveLookup word (scan midashi).2 self.recursiveLookup = .ok [word] := by
    rw [hscan]
    exact rfl
  exact startConversion_of_learned hlearned hexpands hshown fun inner =>
    (placePreedit_runs hwf (isBoundary_byteLen inner) false).mono fun _ _ => trivial

/-- A directive as it is written, with the words it lists. -/
def ignoring (words : List Str) : Candidate :=
  .lisp (renderIgnoreDicWord words) (.ignoreDicWord words)

/-- A bucket with two directives that hide `x`. -/
def ignoringDict : UserDict :=
  (UserDict.empty.learn
    ⟨['あ'], none, [.new ['z'], ignoring [['x'], ['y']], ignoring [['x']]]⟩).1

/-- After `x` was learned one directive is left, without `x`, and the next conversion of `あ`
offers `x` first. The dictionary had ignored the word in both directives of the bucket. -/
theorem learn_unignores_ignoringDict :
    letI := EucJp.empty
    let learned := (ignoringDict.learn ⟨['あ'], none, [⟨['x'], none, none⟩]⟩).1
    learned.bucket? ['あ'] none = some [.new ['x'], .new ['z'], ignoring [['y']]] ∧
      learned.bucket? ['い'] none = none ∧
      Runs ((fresh vowelTable {} true .hiragana [(.user learned : Provider Empty)]).startConversion
        ['あ'] none) fun r => ∃ s, r.1.phase = .selecting s ∧
          s.candidates[0]? = some ⟨['x'], none, none⟩ := by
  let _ := EucJp.empty
  obtain ⟨hbucket, hframe, hconverts⟩ :=
    learn_unignores (ρ := Empty) ignoringDict ['あ'] none ['x'] none
  refine ⟨hbucket.trans (by decide +kernel), ?_, ?_⟩
  · exact (hframe ['い'] none (by decide)).trans (by decide +kernel)
  · have hdigits : ∀ c ∈ ['あ'], c.isDigit = false := by
      intro c hc
      rw [List.mem_singleton.mp hc]
      rfl
    exact hconverts vowelTable {} true .hiragana _ [] _ none .nil (by decide +kernel) hdigits rfl

end SkkEngine

end Y2Skk
