import Y2Skk.Dict.File
import Y2Skk.Lib.Distinct
import Y2Skk.Proofs.Gather
import Y2Skk.Proofs.NoPanic

/-!
# `Y2Skk.Proofs.Offers`: the candidate list of a conversion

`start_conversion` builds its candidates in a loop with three branches, a set of seen
words and a synthetic tail. `offers` is the list it is meant to build: one pass over the
entries found, the words that are hidden left out, first occurrences only, and the tail.

## The specification

`offers` takes from the model what the dictionaries answer to a key and the expansion of
one template over given lookups. The words a directive lists, the words a `#4` marker
stands for, the order of the list and what is left out of it are said here a second time,
in terms of the entries, so that the loop and its two lookup closures are compared with
something that does not use them.

## The code builds it

* `recursiveLookup_eq`: both paths of the lookup that a `#4` marker makes return the
  `secondaryWords`, which are read off the entries.
* `gatherCandidates_offers`: the loop builds that list, candidates and origins alike.
* `startConversion_offers`: a conversion opens a selection of the list, or a registration
  when the list is empty.

## What follows for the list

* `nodup_offers`: no word is offered twice.
* `head?_offers`: the first word offered is the first word shown, read off the entries
  without the list. The registration of a template is decided by it.
* `neverIgnored_iff`: which words a directive fails to hide. The tail is not filtered, so
  a synthesised word that a directive lists is offered.
-/

set_option autoImplicit false

namespace Y2Skk

open Outcome Utf8 Distinct

/-- A candidate with its origin. -/
abbrev Offer := Candidate × CandidateOrigin

namespace Offer

/-- The text of an offer, by which offers are told apart. -/
def word (offer : Offer) : Str := offer.1.word

/-- A word made of the digits alone. -/
def synthetic (word : Str) : Offer := (⟨word, none, none⟩, .synthetic)

end Offer

/-- The headword that is looked up for a reading. -/
def lookupKeyOf (midashi : Str) : Str :=
  if (scan midashi).2 = [] then midashi else (scan midashi).1

/-- The words the digits of a reading stand for. -/
def syntheticWords (midashi : Str) : List Str :=
  match synthesize (scan midashi).2 NumType.synthTypes with
  | .ok words => words
  | .error _ => []

/-- The words that the `skk-ignore-dic-word` forms among some entries list, in the order of the
entries. Other Lisp forms and plain entries list none. -/
def listedWords (entries : List Candidate) : List Str :=
  entries.flatMap fun c =>
    match c.lispForm with
    | some (.ignoreDicWord words) => words
    | _ => []

namespace SkkEngine

variable {δ : Type} [DictionaryProvider δ]

/-- The words a `#4` marker over a digit run stands for: the plain entries that the
dictionaries have for the run itself, without okurigana. With directives enabled the words
these same entries list are left out; then first occurrences, and no more than 256 of them. -/
def secondaryWords (self : SkkEngine δ) (key : Str) : List Str :=
  let entries := self.lookupAll key none
  let plain := (entries.filter fun c => c.lispForm = none).map Candidate.word
  (distinctBy id (plain.filter fun word =>
    !(self.lispDirectives && decide (word ∈ listedWords entries)))).take 256

/-- The words a dictionary word stands for: itself, or its expansions over the digits. -/
def expansions (self : SkkEngine δ) (digitRuns : List Str) (word : Str) : List Str :=
  if digitRuns = [] then [word]
  else
    match expandWithRecursiveLookup word digitRuns self.secondaryWords with
    | .ok alts => alts
    | .error _ => []

/-- What an entry offers: its annotation goes to every expansion of its word. -/
def entryOffers (self : SkkEngine δ) (lookupKey : Str) (digitRuns : List Str) (c : Candidate) :
    List Offer :=
  (self.expansions digitRuns c.word).map fun word =>
    (⟨word, c.annotation, none⟩, .dict lookupKey c.word)

/-- What the dictionaries have for a reading, entry by entry in the order of the
dictionaries. -/
def foundOffers (self : SkkEngine δ) (midashi : Str) (okuriKey : Option Str) : List Offer :=
  ((self.lookupAll (lookupKeyOf midashi) okuriKey).filter fun c => c.lispForm.isNone).flatMap
    (self.entryOffers (lookupKeyOf midashi) (scan midashi).2)

/-- The words the directives of a reading list. -/
def ignoredFor (self : SkkEngine δ) (midashi : Str) (okuriKey : Option Str) : List Str :=
  listedWords (self.lookupAll (lookupKeyOf midashi) okuriKey)

/-- The part of the list that comes from the dictionaries. -/
def dictOffers (self : SkkEngine δ) (midashi : Str) (okuriKey : Option Str) : List Offer :=
  distinctBy Offer.word ((self.foundOffers midashi okuriKey).filter fun offer =>
    !(self.lispDirectives && decide (offer.word ∈ self.ignoredFor midashi okuriKey)))

/-- The digits are offered by themselves when no dictionary has anything, and always for a
purely numeric reading. -/
def offersDigits (self : SkkEngine δ) (midashi : Str) (okuriKey : Option Str) : Prop :=
  (scan midashi).2 ≠ [] ∧ (self.dictOffers midashi okuriKey = [] ∨ (scan midashi).1 = ['#'])

/-- Whether the digits are offered by themselves can be computed from the entries. -/
instance (self : SkkEngine δ) (midashi : Str) (okuriKey : Option Str) :
    Decidable (self.offersDigits midashi okuriKey) :=
  inferInstanceAs (Decidable (_ ∧ _))

/-- The whole list: the words of the dictionaries, and behind them the digits by themselves,
each word where it occurs first. -/
def offers (self : SkkEngine δ) (midashi : Str) (okuriKey : Option Str) : List Offer :=
  let dict := self.dictOffers midashi okuriKey
  if self.offersDigits midashi okuriKey then
    dict ++ (distinctBy Offer.word ((syntheticWords midashi).map Offer.synthetic)).filter
      fun offer => offer.word ∉ dict.map Offer.word
  else dict

end SkkEngine

/-! ### The lookup of a `#4` marker -/

/-- The set the code builds from the entries is the set of the listed words. -/
theorem SkkEngine.ignoreSet_eq (entries : List Candidate) :
    ignoreSet entries = listedWords entries := rfl

/-- Both closures return the same list: the one that materialises the entries filters with
their directives, the one that streams them has nothing to filter. -/
theorem SkkEngine.recursiveLookup_eq {δ : Type} [DictionaryProvider δ] (self : SkkEngine δ) :
    self.recursiveLookup = self.secondaryWords := by
  funext key
  have hplain : (self.lookupAll key none).filter Candidate.isDisplayable =
      (self.lookupAll key none).filter fun c => c.lispForm = none := by
    refine List.filter_congr fun c _ => ?_
    unfold Candidate.isDisplayable
    cases c.lispForm <;> rfl
  unfold recursiveLookup secondaryWords
  dsimp only
  rw [hplain, ignoreSet_eq]
  -- the two closures of the source; both drop repeated words, and only one filters
  cases self.lispDirectives with
  | false =>
      rw [if_neg Bool.false_ne_true, dedupWords, foldl_insert]
      simp only [Bool.false_and, Bool.not_false, List.filter_true]
      rfl
  | true =>
      rw [if_pos rfl, dedupWords, foldl_insert]
      simp only [Bool.true_and, decide_not]
      rfl

/-! ### The candidate loop -/

namespace Gathered

/-- The state of the candidate loop when it has gathered `offers`. -/
def ofOffers (offers : List Offer) : Gathered where
  seen := offers.map Offer.word
  candidates := offers.map Prod.fst
  origin := offers.map Prod.snd

/-- One offer of the loop, hidden or not: the list grows by a word that is shown and new to
it. -/
theorem offer_ofOffers (offers : List Offer) (hidden : Str → Bool) (word : Str)
    (note : Option Str) (origin : CandidateOrigin) :
    (ofOffers offers).offer hidden word note origin =
      ofOffers (if hidden word then offers
        else pushNew Offer.word offers (⟨word, note, none⟩, origin)) := by
  unfold Gathered.offer pushNew
  by_cases hhidden : hidden word
  · rw [if_pos hhidden, if_pos hhidden]
  · rw [if_neg hhidden, if_neg hhidden]
    by_cases hseen : word ∈ offers.map Offer.word
    · rw [if_pos (by exact hseen), if_pos (by exact hseen)]
    · rw [if_neg (by exact hseen), if_neg (by exact hseen)]
      simp [ofOffers, push, Offer.word]

/-- The tail is pushed in the same way; the set of seen words is no longer used. The source
compares with the candidates instead, so the invariant of the induction is that candidates and
origins are those of the offers. -/
theorem appendSynthetic_ofOffers (words : List Str) : ∀ (g : Gathered) (offers : List Offer),
    g.candidates = offers.map Prod.fst → g.origin = offers.map Prod.snd →
    (SkkEngine.appendSynthetic words g).candidates =
        (words.foldl (fun acc w => pushNew Offer.word acc (.synthetic w)) offers).map Prod.fst ∧
      (SkkEngine.appendSynthetic words g).origin =
        (words.foldl (fun acc w => pushNew Offer.word acc (.synthetic w)) offers).map Prod.snd := by
  unfold SkkEngine.appendSynthetic
  induction words with
  | nil => exact fun g offers hcands horigin => ⟨hcands, horigin⟩
  | cons w words ih =>
      intro g offers hcands horigin
      -- The source looks the word up among the candidates, the specification among the offers.
      have hany : (g.candidates.any fun c => c.word = w) = decide (w ∈ offers.map Offer.word) := by
        rw [hcands, List.any_map, Bool.eq_iff_iff, List.any_eq_true, decide_eq_true_eq,
          List.mem_map]
        simp [Offer.word]
      rw [List.foldl_cons, List.foldl_cons, hany, pushNew]
      by_cases hmem : w ∈ offers.map Offer.word
      · rw [if_pos (by simpa using hmem), if_pos (by exact hmem)]
        exact ih g offers hcands horigin
      · rw [if_neg (by simpa using hmem), if_neg (by exact hmem)]
        apply ih
        · simp [hcands, Offer.synthetic]
        · simp [horigin, Offer.synthetic]

end Gathered

namespace SkkEngine

open Gathered

variable {δ : Type} [DictionaryProvider δ] {self : SkkEngine δ} {lookupKey : Str}
  {digitRuns : List Str}

/-- A round of the loop, branch by branch, pushes what the entry offers. The branch for one
expansion and the one for several push the same; only what is moved and what is cloned
differs. -/
theorem gatherCandidate_ofOffers (self : SkkEngine δ) (hidden : Str → Bool) (lookupKey : Str)
    (digitRuns : List Str) (offers : List Offer) (c : Candidate) :
    self.gatherCandidate hidden lookupKey digitRuns (ofOffers offers) c =
      .ok (ofOffers (if c.lispForm.isNone then
        (self.entryOffers lookupKey digitRuns c).foldl
          (fun acc offer => if hidden offer.word then acc else pushNew Offer.word acc offer) offers
        else offers)) := by
  have hloop : ∀ (words : List Str) (offers : List Offer),
      words.foldl (fun g word => g.offer hidden word c.annotation (.dict lookupKey c.word))
          (ofOffers offers) =
        ofOffers ((words.map fun word =>
          ((⟨word, c.annotation, none⟩, .dict lookupKey c.word) : Offer)).foldl
          (fun acc offer => if hidden offer.word then acc else pushNew Offer.word acc offer)
          offers) := by
    intro words
    induction words with
    | nil => exact fun _ => rfl
    | cons word words ih =>
        intro offers
        rw [List.foldl_cons, offer_ofOffers, ih]
        rfl
  unfold gatherCandidate
  cases hlisp : c.lispForm with
  | some form => rfl
  | none =>
      rw [if_neg (by simp), if_pos (show (none : Option LispForm).isNone = true from rfl),
        entryOffers, expansions]
      by_cases hruns : digitRuns = []
      · rw [if_pos (by simp [hruns]), if_pos hruns]
        exact congrArg Except.ok (hloop [c.word] offers)
      · obtain ⟨alts, halts, -⟩ :=
          expandWithRecursiveLookup_runs c.word digitRuns self.secondaryWords
        rw [self.recursiveLookup_eq, if_neg (by simpa using hruns), if_neg hruns, halts, ok_bind]
        dsimp only
        -- No expansion, a single one and several are three branches of the source.
        by_cases hnone : alts = []
        · rw [if_pos (by simp [hnone]), hnone]
          rfl
        · rw [if_neg (by simpa using hnone)]
          by_cases hone : alts.length = 1
          · obtain ⟨word, rfl⟩ := List.length_eq_one_iff.mp hone
            rw [if_pos hone]
            exact congrArg Except.ok (hloop [word] offers)
          · rw [if_neg hone]
            exact congrArg Except.ok (hloop alts offers)

/-- The loop pushes what all the entries offer, one after the other. The induction is on the
entries, for any offers gathered before. -/
theorem foldlM_gatherCandidate (self : SkkEngine δ) (hidden : Str → Bool) (lookupKey : Str)
    (digitRuns : List Str) (entries : List Candidate) : ∀ offers : List Offer,
    entries.foldlM (self.gatherCandidate hidden lookupKey digitRuns) (ofOffers offers) =
      .ok (ofOffers (((entries.filter fun c => c.lispForm.isNone).flatMap
        (self.entryOffers lookupKey digitRuns)).foldl
          (fun acc offer => if hidden offer.word then acc else pushNew Offer.word acc offer)
          offers)) := by
  induction entries with
  | nil => exact fun _ => rfl
  | cons c entries ih =>
      intro offers
      rw [List.foldlM_cons, gatherCandidate_ofOffers, ok_bind, ih, List.filter_cons]
      by_cases hplain : c.lispForm.isNone
      · rw [if_pos hplain, if_pos hplain, List.flatMap_cons, List.foldl_append]
      · rw [if_neg hplain, if_neg hplain]

/-- The loop that skips hidden words and words seen before, as first occurrences of the rest. -/
theorem foldl_shown (hidden : Str → Bool) (found : List Offer) :
    found.foldl
        (fun acc offer => if hidden offer.word then acc else pushNew Offer.word acc offer) [] =
      distinctBy Offer.word (found.filter fun offer => !hidden offer.word) := by
  have hskip : (fun (acc : List Offer) (offer : Offer) =>
      if hidden offer.word then acc else pushNew Offer.word acc offer) =
      fun acc offer => if !hidden offer.word then pushNew Offer.word acc offer else acc := by
    funext acc offer
    cases hidden offer.word <;> rfl
  have hpush := foldl_pushNew Offer.word (found.filter fun offer => !hidden offer.word) []
  rw [hskip, ← List.foldl_filter]
  refine Eq.trans hpush ?_
  simp

/-- The key of the specification is the one the scanner builds while it collects the digit
runs. -/
theorem lookupKeyOf_eq (midashi : Str) : lookupKeyOf midashi = (scan midashi).1 := by
  unfold lookupKeyOf
  split
  · rename_i hruns
    exact (scan_of_no_runs hruns).symm
  · rfl

/-- The candidate loop and the tail build the list, with the origins beside the candidates. -/
theorem gatherCandidates_offers (self : SkkEngine δ) (midashi : Str) (okuriKey : Option Str) :
    Runs (self.gatherCandidates midashi okuriKey) fun g =>
      g.candidates = (self.offers midashi okuriKey).map Prod.fst ∧
        g.origin = (self.offers midashi okuriKey).map Prod.snd := by
  have hloop := foldlM_gatherCandidate self (self.hides (scan midashi).1 okuriKey)
    (scan midashi).1 (scan midashi).2 (self.lookupAll (scan midashi).1 okuriKey) []
  have hdict : self.dictOffers midashi okuriKey =
      distinctBy Offer.word ((self.foundOffers midashi okuriKey).filter fun offer =>
        !self.hides (scan midashi).1 okuriKey offer.word) := by
    -- The loop gathers the part from the dictionaries; the tail is pushed behind it.
    unfold dictOffers ignoredFor
    rw [lookupKeyOf_eq]
    rfl
  have hfound : self.foundOffers midashi okuriKey =
      ((self.lookupAll (scan midashi).1 okuriKey).filter fun c => c.lispForm.isNone).flatMap
        (self.entryOffers (scan midashi).1 (scan midashi).2) := by
    unfold foundOffers
    rw [lookupKeyOf_eq]
  rw [foldl_shown, ← hfound, ← hdict] at hloop
  rw [gatherCandidates_eq]
  rw [show (⟨[], [], []⟩ : Gathered) = ofOffers [] from rfl, hloop, ok_bind]
  have hguard : ((scan midashi).2 ≠ [] ∧ ((ofOffers (self.dictOffers midashi
      okuriKey)).candidates.isEmpty ∨ (scan midashi).1 = ['#'])) ↔
      self.offersDigits midashi okuriKey := by
    unfold offersDigits
    rw [ofOffers]
    simp
  unfold offers
  dsimp only
  by_cases hdigits : self.offersDigits midashi okuriKey
  · rw [if_pos (hguard.mpr hdigits), if_pos hdigits, syntheticWords]
    obtain ⟨words, hwords, -⟩ := synthesize_runs (scan midashi).2 NumType.synthTypes
    rw [hwords, ok_bind, runs_ok]
    dsimp only
    have htail := foldl_pushNew Offer.word (words.map Offer.synthetic)
      (self.dictOffers midashi okuriKey)
    rw [List.foldl_map] at htail
    have hboth := appendSynthetic_ofOffers words
      (ofOffers (self.dictOffers midashi okuriKey)) _ rfl rfl
    exact ⟨hboth.1.trans (congrArg (List.map Prod.fst) htail),
      hboth.2.trans (congrArg (List.map Prod.snd) htail)⟩
  · rw [if_neg (fun h => hdigits (hguard.mp h)), if_neg hdigits, runs_ok]
    exact ⟨rfl, rfl⟩

/-- An offer with a dictionary origin is one of the texts the word of its origin stands for. -/
theorem word_mem_expansions {midashi : Str} {okuriKey : Option Str} {offer : Offer}
    {key word : Str} (hoffer : offer ∈ self.offers midashi okuriKey)
    (horigin : offer.2 = .dict key word) :
    offer.word ∈ self.expansions (scan midashi).2 word := by
  have hdict : offer ∈ self.dictOffers midashi okuriKey := by
    unfold offers at hoffer
    dsimp only at hoffer
    split at hoffer
    · rcases List.mem_append.mp hoffer with hdict | htail
      · exact hdict
      · -- The tail has synthetic origins.
        have htail := (distinctBy_sublist Offer.word _).subset (List.mem_filter.mp htail).1
        obtain ⟨digits, -, rfl⟩ := List.mem_map.mp htail
        cases horigin
    · exact hoffer
  have hfound := (List.mem_filter.mp ((distinctBy_sublist Offer.word _).subset hdict)).1
  obtain ⟨c, -, hentry⟩ := List.mem_flatMap.mp hfound
  obtain ⟨text, htext, rfl⟩ := List.mem_map.mp hentry
  cases horigin
  exact htext

/-! ### The first offer -/

/-- The words that the entries of a reading stand for, in the order of the entries, without
those that a directive of the reading lists. A word may still be there twice. -/
def shownWords (self : SkkEngine δ) (midashi : Str) (okuriKey : Option Str) : List Str :=
  (((self.lookupAll (lookupKeyOf midashi) okuriKey).filter fun c => c.lispForm.isNone).flatMap
    fun c => self.expansions (scan midashi).2 c.word).filter fun word =>
      !(self.lispDirectives && decide (word ∈ self.ignoredFor midashi okuriKey))

/-- The words found for a reading are those of its entries: the annotation and the origin of
an offer do not decide whether it is shown. -/
theorem words_foundOffers (self : SkkEngine δ) (midashi : Str) (okuriKey : Option Str) :
    ((self.foundOffers midashi okuriKey).filter fun offer =>
      !(self.lispDirectives && decide (offer.word ∈ self.ignoredFor midashi okuriKey))).map
        Offer.word = self.shownWords midashi okuriKey := by
  have hwords : (self.foundOffers midashi okuriKey).map Offer.word =
      ((self.lookupAll (lookupKeyOf midashi) okuriKey).filter fun c =>
        c.lispForm.isNone).flatMap fun c => self.expansions (scan midashi).2 c.word := by
    rw [foundOffers, List.map_flatMap]
    refine List.flatMap_congr fun c _ => ?_
    rw [entryOffers, List.map_map]
    exact List.map_id _
  rw [shownWords, ← hwords, List.filter_map]
  rfl

/-- The first word offered is the first one shown, and for a reading with digits, when none
is shown, the first of the words the digits stand for by themselves. -/
theorem head?_offers (self : SkkEngine δ) (midashi : Str) (okuriKey : Option Str) :
    ((self.offers midashi okuriKey).map Offer.word).head? =
      (self.shownWords midashi okuriKey ++
        if (scan midashi).2 = [] then [] else syntheticWords midashi).head? := by
  have hdict : ((self.dictOffers midashi okuriKey).map Offer.word).head? =
      (self.shownWords midashi okuriKey).head? := by
    rw [← words_foundOffers, List.head?_map, List.head?_map, dictOffers, head?_distinctBy]
  have hnil : self.dictOffers midashi okuriKey = [] ↔ self.shownWords midashi okuriKey = [] := by
    rw [← List.map_eq_nil_iff (f := Offer.word), ← List.head?_eq_none_iff, hdict,
      List.head?_eq_none_iff]
  unfold offers
  dsimp only
  by_cases hdigits : self.offersDigits midashi okuriKey
  · rw [if_pos hdigits, if_neg hdigits.1, List.map_append, List.head?_append,
      List.head?_append, hdict]
    by_cases hnone : self.dictOffers midashi okuriKey = []
    · -- Nothing stands before the digits, so nothing is left out of them.
      rw [hnone]
      simp only [List.map_nil, List.not_mem_nil, not_false_eq_true, decide_true,
        List.filter_true]
      rw [List.head?_map, head?_distinctBy, List.head?_map, Option.map_map]
      congr 1
      exact Option.map_id'
    · -- Something does, and the first word is not taken from the digits.
      obtain ⟨first, rest, hshown⟩ :=
        List.exists_cons_of_ne_nil fun h => hnone (hnil.mpr h)
      rw [hshown]
      rfl
  · rw [if_neg hdigits, hdict]
    by_cases hruns : (scan midashi).2 = []
    · rw [if_pos hruns, List.append_nil]
    · -- With digits and nothing shown the digits would be offered.
      obtain ⟨first, rest, hshown⟩ := List.exists_cons_of_ne_nil
        fun h => hdigits ⟨hruns, .inl (hnil.mpr h)⟩
      rw [hshown]
      rfl

/-- Only the entries and the setting matter for the words that are shown, so an engine that has
learned a word can be compared with the one that has closed the registration. -/
theorem shownWords_congr {self' : SkkEngine δ} (hdict : self'.dict = self.dict)
    (hlisp : self'.lispDirectives = self.lispDirectives) :
    self'.shownWords = self.shownWords := by
  have hall : self'.lookupAll = self.lookupAll := by
    funext key okuriKey
    rw [lookupAll, lookupAll, hdict]
  have hsecondary : self'.secondaryWords = self.secondaryWords := by
    funext key
    rw [secondaryWords, secondaryWords, hall, hlisp]
  have hexpansions : self'.expansions = self.expansions := by
    funext digitRuns word
    rw [expansions, expansions, hsecondary]
  funext midashi okuriKey
  rw [shownWords, shownWords, ignoredFor, ignoredFor, hall, hexpansions, hlisp]

/-! ### The conversion -/

/-- The selection of all the offers, with the first one focused. It is what a conversion opens
when there are any. -/
def offersSelection (self : SkkEngine δ) (midashi : Str) (okuri : Option (Str × Str)) :
    Selection where
  midashi := midashi
  okuri := okuri.map Prod.snd
  okuriKey := okuri.map Prod.fst
  candidates := (self.offers midashi (okuri.map Prod.fst)).map Prod.fst
  origin := (self.offers midashi (okuri.map Prod.fst)).map Prod.snd
  index := 0

/-- The conversion has opened a selection of the offers, or a registration when there are
none. -/
def OpensOffers (self : SkkEngine δ) (midashi : Str) (okuri : Option (Str × Str))
    (r : SkkEngine δ × List EngineAction) : Prop :=
  if self.offers midashi (okuri.map Prod.fst) = [] then
    r.1.phase = .hiragana ∧ r.1.registerStack =
      self.newFrame midashi (okuri.map Prod.fst) (okuri.map Prod.snd) :: self.registerStack
  else
    r.1.phase = .selecting (self.offersSelection midashi okuri) ∧
      r.1.registerStack = self.registerStack

/-- The first candidate of the selection that a conversion has opened is the first offer; a
conversion that has opened a registration has neither. So what a next conversion offers first
can be read off the offers, without a look at the phases. -/
theorem OpensOffers.first_iff {midashi : Str} {okuri : Option (Str × Str)}
    {r : SkkEngine δ × List EngineAction} (h : self.OpensOffers midashi okuri r) (word : Str) :
    (∃ s first, r.1.phase = .selecting s ∧ s.candidates[0]? = some first ∧ first.word = word) ↔
      ((self.offers midashi (okuri.map Prod.fst)).map Offer.word).head? = some word := by
  unfold OpensOffers at h
  cases hoffers : self.offers midashi (okuri.map Prod.fst) with
  -- Without an offer a registration is opened, and there is no first candidate.
  | nil =>
      rw [if_pos hoffers] at h
      rw [h.1]
      simp
  | cons offer rest =>
      rw [if_neg (by rw [hoffers]; exact List.cons_ne_nil _ _)] at h
      have hfirst : (self.offersSelection midashi okuri).candidates[0]? = some offer.1 := by
        rw [offersSelection, hoffers]
        rfl
      rw [h.1]
      constructor
      · rintro ⟨s, first, hs, hcandidate, rfl⟩
        cases hs
        rw [hfirst] at hcandidate
        cases hcandidate
        rfl
      · intro hword
        exact ⟨_, offer.1, rfl, hfirst, Option.some.inj hword⟩

omit [DictionaryProvider δ] in
/-- A selection can be drawn whatever romaji is pending, since its preedit does not show the
romaji. -/
theorem preeditAction_selecting (hframes : ∀ frame ∈ self.registerStack, frame.Wf)
    {s : Selection} (hphase : self.phase = .selecting s) (hs : s.Wf) :
    Runs self.preeditAction fun _ => True := by
  have hwf : SkkEngine.Wf { self with kanaState := [] } := by
    refine ⟨hframes, ?_⟩
    show PhaseWf [] self.phase
    rw [hphase]
    exact ⟨rfl, hs⟩
  obtain ⟨preedit, hbuild, -, -⟩ := preeditAction_eq hwf
  have hsame : self.buildPreedit = SkkEngine.buildPreedit { self with kanaState := [] } := by
    unfold buildPreedit plainPreedit buildInnerPreedit
    dsimp only
    rw [hphase]
    rfl
  rw [preeditAction, hsame, hbuild, ok_bind]
  exact runs_pure.mpr trivial

/-- A conversion returns, and it has opened a selection of the offers or a registration. Neither
the preedit nor the page that is shown has a part in this. -/
theorem startConversion_opens (hframes : ∀ frame ∈ self.registerStack, frame.Wf)
    (midashi : Str) (okuri : Option (Str × Str)) :
    Runs (self.startConversion midashi okuri) (self.OpensOffers midashi okuri) := by
  obtain ⟨g, hgather, hcands, horigin⟩ :=
    gatherCandidates_offers self midashi (okuri.map Prod.fst)
  have hgather' : { self with completion := none }.gatherCandidates midashi (okuri.map Prod.fst)
      = .ok g := (gatherCandidates_congr rfl rfl _ _).trans hgather
  unfold startConversion
  dsimp only
  rw [hgather', ok_bind]
  by_cases hnone : self.offers midashi (okuri.map Prod.fst) = []
  · rw [if_pos (by simp [hcands, hnone])]
    have hframe : (self.newFrame midashi (okuri.map Prod.fst) (okuri.map Prod.snd)).Wf :=
      newFrame_wf self midashi (by simp)
    obtain ⟨preedit, -, -, haction⟩ := preeditAction_eq (pushFrame_wf hframes hframe)
    refine redraw_runs_iff.mpr ⟨_, haction, ?_⟩
    rw [OpensOffers, if_pos hnone]
    exact ⟨rfl, rfl⟩
  · have hne : g.candidates ≠ [] := by simpa [hcands] using hnone
    -- the candidates and origins that were gathered are those of the offers
    have hopen : openSelection midashi okuri g = self.offersSelection midashi okuri := by
      simp only [openSelection, offersSelection, hcands, horigin]
    have hs : (openSelection midashi okuri g).Wf := by
      refine openSelection_wf midashi okuri ?_ hne
      rw [Gathered.Wf, hcands, horigin]
      simp
    rw [if_neg (by simpa using hne)]
    refine (preeditAction_selecting (by exact hframes) rfl hs).bind fun preedit _ => ?_
    rw [listingShowAction_eq _ (Nat.zero_le _), ok_bind]
    have hdone : ∀ actions, self.OpensOffers midashi okuri ({ self with
        completion := none, phase := .selecting (openSelection midashi okuri g) }, actions) := by
      intro actions
      rw [OpensOffers, if_neg hnone]
      exact ⟨congrArg SkkPhase.selecting hopen, rfl⟩
    cases pageAt _ g.candidates 0 with
    | none => exact runs_ok.mpr (hdone _)
    | some page => exact runs_ok.mpr (hdone _)

/-- A template, the same word again and a directive under the reading `3`. -/
def threeDict : FileDict where
  entries := OrdMap.empty.insert ['#']
    (OrdMap.empty.insert none
      [.lisp "(skk-ignore-dic-word \"三\")".toList (.ignoreDicWord [['三']]),
       Candidate.withAnnotation ['#', '0'] ['a'], .new ['#', '3'], .new ['3']])
  priority := 0

/-- An entry of the reading has an expansion that no directive lists. -/
def FindsShown (self : SkkEngine δ) (midashi : Str) (okuriKey : Option Str) : Prop :=
  ∃ c ∈ self.lookupAll (lookupKeyOf midashi) okuriKey, c.lispForm = none ∧
    ∃ word ∈ self.expansions (scan midashi).2 c.word, word ∉ self.ignoredFor midashi okuriKey

/-- The words that come from the dictionaries, with directives enabled: the expansions of the
plain entries, less the words that the directives of the reading list. -/
theorem mem_dictOffers (hlisp : self.lispDirectives = true) {midashi : Str}
    {okuriKey : Option Str} {word : Str} :
    word ∈ (self.dictOffers midashi okuriKey).map Offer.word ↔
      word ∉ self.ignoredFor midashi okuriKey ∧
        ∃ c ∈ self.lookupAll (lookupKeyOf midashi) okuriKey, c.lispForm = none ∧
          word ∈ self.expansions (scan midashi).2 c.word := by
  rw [dictOffers, mem_keys_distinctBy, hlisp]
  constructor
  · intro hmem
    obtain ⟨offer, hoffer, rfl⟩ := List.mem_map.mp hmem
    obtain ⟨hfound, hshown⟩ := List.mem_filter.mp hoffer
    obtain ⟨c, hc, hoffered⟩ := List.mem_flatMap.mp hfound
    obtain ⟨hentry, hplain⟩ := List.mem_filter.mp hc
    obtain ⟨word, hword, rfl⟩ := List.mem_map.mp hoffered
    refine ⟨by simpa using hshown, c, hentry, by simpa using hplain, hword⟩
  · rintro ⟨hshown, c, hentry, hplain, hword⟩
    refine List.mem_map.mpr ⟨(⟨word, c.annotation, none⟩, .dict (lookupKeyOf midashi) c.word),
      List.mem_filter.mpr ⟨?_, ?_⟩, rfl⟩
    · refine List.mem_flatMap.mpr ⟨c, List.mem_filter.mpr ⟨hentry, by simp [hplain]⟩, ?_⟩
      exact List.mem_map.mpr ⟨word, hword, rfl⟩
    · rw [decide_eq_false (by exact hshown)]
      rfl

/-- The dictionaries offer nothing exactly when every word they have is listed by a directive.
To drop repeated words does not empty a list. -/
theorem dictOffers_eq_nil_iff (hlisp : self.lispDirectives = true) {midashi : Str}
    {okuriKey : Option Str} :
    self.dictOffers midashi okuriKey = [] ↔ ¬ self.FindsShown midashi okuriKey := by
  constructor
  · rintro hnil ⟨c, hentry, hplain, word, hword, hshown⟩
    have hmem := (mem_dictOffers hlisp).mpr ⟨hshown, c, hentry, hplain, hword⟩
    rw [hnil] at hmem
    cases hmem
  · intro hnone
    by_contra hne
    obtain ⟨offer, rest, hcons⟩ := List.exists_cons_of_ne_nil hne
    have hmem : offer.word ∈ (self.dictOffers midashi okuriKey).map Offer.word := by
      rw [hcons]
      exact List.mem_cons_self
    obtain ⟨hshown, c, hentry, hplain, hword⟩ := (mem_dictOffers hlisp).mp hmem
    exact hnone ⟨c, hentry, hplain, offer.word, hword, hshown⟩

/-- The words of the whole list: those from the dictionaries, and the synthetic numerals where
the digits are offered by themselves. A numeral that a dictionary has offered already is not
offered again, which does not change the set of words. -/
theorem mem_offers {midashi : Str} {okuriKey : Option Str} {word : Str} :
    word ∈ (self.offers midashi okuriKey).map Offer.word ↔
      word ∈ (self.dictOffers midashi okuriKey).map Offer.word ∨
        (self.offersDigits midashi okuriKey ∧ word ∈ syntheticWords midashi) := by
  -- Among the numerals, taking out repetitions does not change which words are there.
  have htail : ∀ w, w ∈ (distinctBy Offer.word ((syntheticWords midashi).map
      Offer.synthetic)).map Offer.word ↔ w ∈ syntheticWords midashi := by
    intro w
    rw [mem_keys_distinctBy, List.map_map]
    have hid : Offer.word ∘ Offer.synthetic = id := rfl
    rw [hid, List.map_id]
  unfold offers
  dsimp only
  split
  · rename_i hdigits
    rw [List.map_append, List.mem_append]
    by_cases hold : word ∈ (self.dictOffers midashi okuriKey).map Offer.word
    · simp [hold]
    · simp only [hold, false_or, hdigits, true_and]
      rw [← htail word]
      constructor
      · intro hmem
        obtain ⟨offer, hoffer, rfl⟩ := List.mem_map.mp hmem
        exact List.mem_map.mpr ⟨offer, (List.mem_filter.mp hoffer).1, rfl⟩
      · intro hmem
        obtain ⟨offer, hoffer, rfl⟩ := List.mem_map.mp hmem
        exact List.mem_map.mpr ⟨offer, List.mem_filter.mpr ⟨hoffer, by simpa using hold⟩, rfl⟩
  · rename_i hdigits
    simp [hdigits]

/-- A conversion offers no word that a directive of the reading lists. -/
def NeverIgnored (self : SkkEngine δ) (midashi : Str) (okuri : Option (Str × Str)) : Prop :=
  Runs (self.startConversion midashi okuri) fun r => ∀ s, r.1.phase = .selecting s →
    ∀ c ∈ s.candidates, c.word ∉ self.ignoredFor midashi (okuri.map Prod.fst)

/-- Hidden words stay hidden exactly when the digits are not offered by themselves, or no
directive lists one of the words they stand for. -/
theorem neverIgnored_iff (hframes : ∀ frame ∈ self.registerStack, frame.Wf)
    (hlisp : self.lispDirectives = true) (midashi : Str) (okuri : Option (Str × Str)) :
    self.NeverIgnored midashi okuri ↔
      (scan midashi).2 = [] ∨
      ((scan midashi).1 ≠ ['#'] ∧ self.FindsShown midashi (okuri.map Prod.fst)) ∨
      ∀ word ∈ syntheticWords midashi, word ∉ self.ignoredFor midashi (okuri.map Prod.fst) := by
  obtain ⟨r, hr, hopens⟩ := startConversion_opens hframes midashi okuri
  -- What is offered is the list, so the question is which of its words are listed.
  have hwords : self.NeverIgnored midashi okuri ↔
      ∀ word ∈ (self.offers midashi (okuri.map Prod.fst)).map Offer.word,
        word ∉ self.ignoredFor midashi (okuri.map Prod.fst) := by
    unfold NeverIgnored
    rw [hr, runs_ok]
    unfold OpensOffers at hopens
    split at hopens
    · rename_i hnil
      rw [hnil, hopens.1]
      simp
    · rw [hopens.1]
      constructor
      · intro hall word hword
        obtain ⟨offer, hoffer, rfl⟩ := List.mem_map.mp hword
        exact hall _ rfl offer.1 (List.mem_map_of_mem hoffer)
      · rintro hall s hs c hc
        cases hs
        obtain ⟨offer, hoffer, rfl⟩ := List.mem_map.mp hc
        exact hall _ (List.mem_map_of_mem hoffer)
  have hdigits : self.offersDigits midashi (okuri.map Prod.fst) ↔ ¬ ((scan midashi).2 = [] ∨
      ((scan midashi).1 ≠ ['#'] ∧ self.FindsShown midashi (okuri.map Prod.fst))) := by
    unfold offersDigits
    rw [dictOffers_eq_nil_iff hlisp]
    tauto
  rw [hwords, ← or_assoc]
  constructor
  · intro hall
    by_cases hnone : self.offersDigits midashi (okuri.map Prod.fst)
    · exact .inr fun word hword => hall word (mem_offers.mpr (.inr ⟨hnone, hword⟩))
    · exact .inl (Classical.not_not.mp fun h => hnone (hdigits.mpr h))
  · intro hcases word hword
    rcases mem_offers.mp hword with hdict | ⟨hoffered, hsynthetic⟩
    · exact ((mem_dictOffers hlisp).mp hdict).1
    · rcases hcases with hnot | hall
      · exact absurd hnot (hdigits.mp hoffered)
      · exact hall word hsynthetic

/-- A word and the directive that hides it. -/
def hidingDict : FileDict where
  entries := OrdMap.empty.insert ['あ']
    (OrdMap.empty.insert none
      [.new ['亜'], .new ['阿'],
       .lisp "(skk-ignore-dic-word \"亜\")".toList (.ignoreDicWord [['亜']])])
  priority := 0

/-- Without digits a directive hides its words, also those that come before it. -/
theorem neverIgnored_iff_plain :
    (fresh vowelTable {} true .hiragana [hidingDict]).ignoredFor ['あ'] none = [['亜']] ∧
      (fresh vowelTable {} true .hiragana [hidingDict]).NeverIgnored ['あ'] none :=
  ⟨by decide +kernel,
    (neverIgnored_iff (fresh_wf ..).frames (by decide) ['あ'] none).mpr (.inl (by decide))⟩

/-- The digit `3` is offered as `三`, which a directive lists: it comes from the tail, whose loop
does not ask for the directives. -/
theorem digit_not_hidden :
    (fresh vowelTable {} true .hiragana [threeDict]).lispDirectives = true ∧
      ¬ (fresh vowelTable {} true .hiragana [threeDict]).NeverIgnored ['3'] none := by
  have hopens : ∃ r ∈ ((fresh vowelTable {} true .hiragana [threeDict]).startConversion
      ['3'] none).toOption, ∃ s ∈ r.1.phase.selection?, r.1.phase = .selecting s ∧
        .new ['三'] ∈ s.candidates := by decide +kernel
  obtain ⟨r, hr, s, -, hphase, hoffered⟩ := hopens
  refine ⟨by decide, fun hnever => ?_⟩
  have hshown := hnever.of_ok (ok_of_mem_toOption hr) s hphase _ hoffered
  exact hshown (by decide +kernel)

end SkkEngine

end Y2Skk
