import Y2Skk.Lib.Recency
import Y2Skk.Proofs.UserDict

/-!
# `Y2Skk.Proofs.Recency`: the user dictionary as a most-recently-used store

A `Change` is what the engine does to a user dictionary: it learns one plain candidate, or
purges a word. `after changes` is the dictionary that a history of changes leaves of an
empty one. What it answers is said in terms of the history alone, without a dictionary:

* `Live`: a word was learned, and not purged since;
* `LearnedAs`: the annotation of the latest learn;
* `Learns` and `Uses`: the changes that touch a word of a bucket, and a headword.

## The buckets

`Holds` says that a list of candidates has the live words of a bucket with their
annotations, the last learned first. Every change keeps it: `Holds.learn` and
`Holds.purge` for the bucket it is about, `Holds.skip` for the others. `holds_bucket` is
the induction over the history.

## The headwords

The order of the headwords is kept by an ordered map, which moves a headword to the front
when a word is learned under it. `lastFirst_keys` says that it is the order of the last
use; a purge may drop a headword, and then no word of it is live.

## Together

`recency_of_changes` puts the two orders together: `lookup` gives the live words of a
bucket, and `complete` the headwords with a live word, the last used first in both.
-/

set_option autoImplicit false

namespace Y2Skk

open Utf8 Recency

namespace UserDict

/-- A change of the dictionary by the engine. -/
inductive Change where
  | learn (midashi : Str) (okuri : Option Str) (word : Str) (note : Option Str)
  | purge (midashi : Str) (okuri : Option Str) (word : Str)
  deriving DecidableEq

/-- What a change makes of a dictionary, by the functions that the engine calls. -/
def apply (dict : UserDict) : Change → UserDict
  | .learn midashi okuri word ann => (dict.learn ⟨midashi, okuri, [⟨word, ann, none⟩]⟩).1
  | .purge midashi okuri word => (dict.purge midashi okuri word).1

/-- The dictionary after a history of changes. -/
def after (changes : List Change) : UserDict := changes.foldl apply .empty

/-- The last change is applied to what the others have left. -/
theorem after_snoc (changes : List Change) (change : Change) :
    after (changes ++ [change]) = (after changes).apply change := by
  simp [after]

/-! ### What a history says -/

/-- The change learns the word under the headword and the okurigana key. -/
def Learns (midashi : Str) (okuri : Option Str) (word : Str) (change : Change) : Prop :=
  ∃ ann, change = .learn midashi okuri word ann

/-- The change learns some word under the headword. -/
def Uses (midashi : Str) (change : Change) : Prop := ∃ okuri word, Learns midashi okuri word change

/-- The word was learned after its last purge. -/
def Live (changes : List Change) (midashi : Str) (okuri : Option Str) (word : Str) : Prop :=
  Since (· ≠ .purge midashi okuri word) (Learns midashi okuri word) changes

/-- The latest learn of the word gave it the annotation. -/
def LearnedAs (changes : List Change) (midashi : Str) (okuri : Option Str) (word : Str)
    (ann : Option Str) : Prop :=
  Since (¬ Learns midashi okuri word ·) (· = .learn midashi okuri word ann) changes

/-- The candidates are the live words of a bucket with their annotations, the last learned
first. -/
structure Holds (changes : List Change) (midashi : Str) (okuri : Option Str)
    (candidates : List Candidate) : Prop where
  words : LastFirst (Learns midashi okuri) (Live changes midashi okuri) changes
    (candidates.map Candidate.word)
  learned : ∀ c ∈ candidates, c.lispForm = none ∧
    LearnedAs changes midashi okuri c.word c.annotation

/-! ### The buckets -/

variable {changes : List Change} {dict : UserDict} {midashi midashi' : Str}
  {okuri okuri' : Option Str} {word : Str} {ann : Option Str} {candidates : List Candidate}

/-- A history leaves plain candidates only, and no empty bucket: learning and purging both keep
that. -/
theorem learned_after (changes : List Change) : (after changes).Learned := by
  induction changes using List.reverseRecOn with
  | nil => exact learned_of_empty rfl
  | append_singleton changes change ih =>
      rw [after_snoc]
      cases change with
      | learn midashi okuri word ann => exact ih.learn midashi okuri word ann
      | purge midashi okuri word => exact ih.purge midashi okuri word

/-- A learned candidate comes first in its bucket, instead of the old one for its word. No other
bucket changes. The candidates of the bucket are plain, so there is no directive that the
learning would have to edit. -/
theorem bucket_learn (h : dict.Learned) :
    (dict.apply (.learn midashi okuri word ann)).bucket midashi' okuri' =
      if midashi' = midashi ∧ okuri' = okuri then
        ⟨word, ann, none⟩ :: (dict.bucket midashi okuri).filter fun c => c.word ≠ word
      else dict.bucket midashi' okuri' := by
  -- The bucket holds plain candidates only, so editing its directives leaves it alone.
  have hplain : ∀ c ∈ ⟨word, ann, none⟩ :: (dict.bucket midashi okuri).filter
      (fun c => c.word ≠ word), c.lispForm = none := by
    intro c hc
    rcases List.mem_cons.mp hc with rfl | hc
    · rfl
    · have hmem := (List.mem_filter.mp hc).1
      unfold bucket at hmem
      cases hbucket : dict.bucket? midashi okuri with
      | none => simp [hbucket] at hmem
      | some candidates => exact h.plain hbucket c (by simpa [hbucket] using hmem)
  show ((dict.learn _).1.bucket? midashi' okuri').getD [] = _
  rw [bucket?_learn]
  split
  · rename_i heq
    rw [heq.1, heq.2, promote_singleton]
    exact unignore_of_plain _ hplain
  · rfl

/-- Dropping a word from the candidates drops it from their words. -/
theorem map_word_filter (candidates : List Candidate) (word : Str) :
    (candidates.filter fun c => c.word ≠ word).map Candidate.word =
      (candidates.map Candidate.word).filter fun w => w ≠ word := by
  rw [List.filter_map]
  rfl

/-- A change that neither learns nor purges in the bucket leaves what the bucket holds, and
which words are live there. -/
theorem Holds.skip (h : Holds changes midashi okuri candidates) {change : Change}
    (hlearn : ∀ word, ¬ Learns midashi okuri word change)
    (hpurge : ∀ word, change ≠ .purge midashi okuri word) :
    Holds (changes ++ [change]) midashi okuri candidates where
  words := h.words.skip hlearn fun word => by
    simp [Live, since_snoc, hlearn word, hpurge word]
  learned := by
    intro c hc
    obtain ⟨hplain, hann⟩ := h.learned c hc
    exact ⟨hplain, since_snoc.mpr (.inr ⟨hlearn c.word, hann⟩)⟩

/-- A learn puts its word in front, and an older candidate for it goes. The annotation is the
one it was learned with, and of all words in the bucket it is now the last one used. -/
theorem Holds.learn (h : Holds changes midashi okuri candidates) :
    Holds (changes ++ [.learn midashi okuri word ann]) midashi okuri
      (⟨word, ann, none⟩ :: candidates.filter fun c => c.word ≠ word) where
  words := by
    rw [List.map_cons, map_word_filter]
    refine h.words.touch ?_ ?_
    · intro word'
      simp [Learns, eq_comm]
    · intro word'
      simp [Live, since_snoc, Learns, eq_comm]
  learned := by
    intro c hc
    rcases List.mem_cons.mp hc with rfl | hc
    · exact ⟨rfl, since_snoc.mpr (.inl rfl)⟩
    · obtain ⟨hmem, hne⟩ := List.mem_filter.mp hc
      obtain ⟨hplain, hann⟩ := h.learned c hmem
      refine ⟨hplain, since_snoc.mpr (.inr ⟨?_, hann⟩)⟩
      -- the candidates that are left are for other words, which this learn does not touch
      rintro ⟨ann', heq⟩
      cases heq
      simp at hne

/-- A purge learns nothing. -/
theorem not_learns_purge (word' : Str) :
    ¬ Learns midashi okuri word' (.purge midashi' okuri' word) := by
  rintro ⟨ann', heq⟩
  cases heq

/-- A purge drops its word, and the order of the others stays. A word is live when it was
learned and not purged since, so the purge ends the life of its own word only. -/
theorem Holds.purge (h : Holds changes midashi okuri candidates) :
    Holds (changes ++ [.purge midashi okuri word]) midashi okuri
      (candidates.filter fun c => c.word ≠ word) where
  words := by
    rw [map_word_filter]
    refine h.words.keep _ not_learns_purge ?_
    intro word'
    have hother : Change.purge midashi okuri word ≠ .purge midashi okuri word' ↔
        decide (word' ≠ word) = true := by
      simp [ne_comm]
    show Since _ _ _ ↔ Since _ _ _ ∧ _
    rw [since_snoc, hother]
    simp only [not_learns_purge word', false_or]
    exact and_comm
  learned := by
    intro c hc
    obtain ⟨hplain, hann⟩ := h.learned c (List.mem_filter.mp hc).1
    exact ⟨hplain, since_snoc.mpr (.inr ⟨not_learns_purge c.word, hann⟩)⟩

/-- Every bucket holds the live words of the history, the last learned first. A change acts on
one bucket, and the others skip it. -/
theorem holds_bucket (changes : List Change) (midashi : Str) (okuri : Option Str) :
    Holds changes midashi okuri ((after changes).bucket midashi okuri) := by
  -- The induction is on the history, with the last change taken off.
  induction changes using List.reverseRecOn with
  | nil =>
      have hempty : (after []).bucket midashi okuri = [] := rfl
      rw [hempty]
      exact ⟨LastFirst.nil fun word => not_since_nil _ _, by simp⟩
  | append_singleton changes change ih =>
      rw [after_snoc]
      cases change with
      | learn midashi' okuri' word ann =>
          rw [bucket_learn (learned_after changes)]
          split
          · rename_i heq
            rw [heq.1, heq.2] at ih ⊢
            exact ih.learn
          · rename_i hne
            refine ih.skip ?_ (by simp)
            rintro word' ⟨ann', heq⟩
            cases heq
            exact hne ⟨rfl, rfl⟩
      | purge midashi' okuri' word =>
          show Holds _ _ _ (((after changes).purge midashi' okuri' word).1.bucket midashi okuri)
          rw [bucket_purge]
          split
          · rename_i heq
            rw [heq.1, heq.2] at ih ⊢
            exact ih.purge
          · rename_i hne
            refine ih.skip not_learns_purge ?_
            rintro word' heq
            cases heq
            exact hne ⟨rfl, rfl⟩

/-! ### The headwords -/

/-- A purge keeps the order of the headwords, and may drop its own. It drops the headword when
the last bucket of it has become empty. -/
theorem keys_purge (dict : UserDict) (midashi : Str) (okuri : Option Str) (word : Str) :
    (dict.purge midashi okuri word).1.entries.keys = dict.entries.keys ∨
    (dict.purge midashi okuri word).1.entries.keys =
      dict.entries.keys.filter fun m => m ≠ midashi := by
  unfold purge
  cases hmap : dict.entries.get? midashi with
  | none => exact .inl rfl
  | some okuriMap =>
      dsimp only
      cases okuriMap.get? okuri with
      | none => exact .inl rfl
      | some candidates =>
          dsimp only
          generalize (if (candidates.filter fun c => c.word ≠ word).isEmpty = true then
            okuriMap.erase okuri else _) = okuriMap'
          have hmem : midashi ∈ dict.entries.keys := (OrdMap.mem_keys_iff ..).mpr ⟨_, hmap⟩
          split
          · exact .inr (OrdMap.keys_erase ..)
          · exact .inl (OrdMap.keys_insert_of_mem hmem _)

/-- The headwords are in the order of their last use, and those that a purge dropped have no
live word. A learn moves its headword to the end, which is the front of the reversed list. -/
theorem lastFirst_keys (changes : List Change) :
    LastFirst Uses (· ∈ (after changes).entries.keys) changes
      (after changes).entries.keys.reverse := by
  induction changes using List.reverseRecOn with
  | nil => exact LastFirst.nil (by simp [after, UserDict.empty, OrdMap.empty, OrdMap.keys])
  | append_singleton changes change ih =>
      rw [after_snoc]
      cases change with
      | learn midashi okuri word ann =>
          have hkeys : ((after changes).apply (.learn midashi okuri word ann)).entries.keys =
              ((after changes).entries.keys.filter fun m => m ≠ midashi) ++ [midashi] :=
            OrdMap.keys_insert_erase ..
          rw [hkeys, List.reverse_append, ← List.filter_reverse]
          refine ih.touch ?_ ?_
          · intro midashi'
            simp [Uses, Learns, eq_comm]
          · intro midashi'
            by_cases heq : midashi' = midashi <;> simp [heq]
      | purge midashi okuri word =>
          have htouch : ∀ midashi', ¬ Uses midashi' (.purge midashi okuri word) := by
            rintro midashi' ⟨okuri', word', hlearns⟩
            exact not_learns_purge word' hlearns
          show LastFirst Uses (· ∈ ((after changes).purge midashi okuri word).1.entries.keys) _
            ((after changes).purge midashi okuri word).1.entries.keys.reverse
          -- a purge is no use of its headword, so the order stays with it or without it
          rcases keys_purge (after changes) midashi okuri word with hkeys | hkeys
          · rw [hkeys]
            exact ih.skip htouch fun _ => Iff.rfl
          · rw [hkeys, ← List.filter_reverse]
            exact ih.keep _ htouch fun midashi' => List.mem_filter

/-- `complete` selects headwords by their buckets: those that start with the prefix, are longer,
and have a bucket without okurigana, in the reverse of the dictionary's order. -/
theorem complete_eq (dict : UserDict) (pre : Str) :
    dict.complete pre = dict.entries.keys.reverse.filter fun m =>
      pre.isPrefixOf m && decide (m ≠ pre) && (dict.bucket? m none).isSome := by
  have hbucket : ∀ e ∈ dict.entries.entries.reverse,
      (pre.isPrefixOf e.1 && decide (e.1 ≠ pre) && (e.2.get? none).isSome) =
        (pre.isPrefixOf e.1 && decide (e.1 ≠ pre) && (dict.bucket? e.1 none).isSome) := by
    intro e he
    have hget : dict.entries.get? e.1 = some e.2 :=
      (OrdMap.get?_eq_some_iff ..).mpr (List.mem_reverse.mp he)
    rw [bucket?, hget]
    rfl
  rw [complete, List.filter_congr hbucket, OrdMap.keys, ← List.map_reverse, List.filter_map]
  rfl

/-- A bucket is there as long as one of its words is live: the purge of its last word takes the
bucket out. -/
theorem isSome_bucket?_iff (changes : List Change) (midashi : Str) (okuri : Option Str) :
    ((after changes).bucket? midashi okuri).isSome ↔ ∃ word, Live changes midashi okuri word := by
  have hholds := holds_bucket changes midashi okuri
  constructor
  · intro hsome
    obtain ⟨candidates, hbucket⟩ := Option.isSome_iff_exists.mp hsome
    obtain ⟨c, hc⟩ := List.exists_mem_of_ne_nil _ ((learned_after changes).ne_nil hbucket)
    rw [bucket, hbucket] at hholds
    exact ⟨c.word, (hholds.words.mem _).mp (List.mem_map_of_mem hc)⟩
  · rintro ⟨word, hlive⟩
    have hmem := (hholds.words.mem _).mpr hlive
    unfold bucket at hmem
    cases hbucket : (after changes).bucket? midashi okuri with
    | none => simp [hbucket] at hmem
    | some candidates => rfl

/-- After any history of learns and purges, `lookup` answers with the live words of a bucket
and `complete` with the headwords that have one, the last used first. -/
theorem recency_of_changes (changes : List Change) :
    (∀ midashi okuri, match (after changes).lookup midashi okuri with
      | none => ∀ word, ¬ Live changes midashi okuri word
      | some entry => entry.midashi = midashi ∧ entry.okuri = okuri ∧ entry.candidates ≠ [] ∧
          Holds changes midashi okuri entry.candidates) ∧
    ∀ pre, LastFirst Uses
      (fun midashi => pre <+: midashi ∧ midashi ≠ pre ∧ ∃ word, Live changes midashi none word)
      changes ((after changes).complete pre) := by
  constructor
  · intro midashi okuri
    have hholds := holds_bucket changes midashi okuri
    have hlive := isSome_bucket?_iff changes midashi okuri
    rw [lookup_eq]
    cases hbucket : (after changes).bucket? midashi okuri with
    | none =>
        intro word hword
        rw [hbucket] at hlive
        simpa using hlive.mpr ⟨word, hword⟩
    | some candidates =>
        rw [bucket, hbucket] at hholds
        exact ⟨rfl, rfl, (learned_after changes).ne_nil hbucket, hholds⟩
  · intro pre
    -- the completions are the headwords in reverse, restricted to the prefix and to live ones
    rw [complete_eq]
    refine (lastFirst_keys changes).restrict _ ?_
    intro midashi
    have hlive := isSome_bucket?_iff changes midashi none
    have hkey : ((after changes).bucket? midashi none).isSome →
        midashi ∈ (after changes).entries.keys := by
      intro hsome
      rw [OrdMap.mem_keys_iff]
      obtain ⟨candidates, hbucket⟩ := Option.isSome_iff_exists.mp hsome
      obtain ⟨okuriMap, hmap, -⟩ := Option.bind_eq_some_iff.mp hbucket
      exact ⟨okuriMap, hmap⟩
    simp only [Bool.and_eq_true, decide_eq_true_eq, List.isPrefixOf_iff_prefix, ← hlive]
    tauto

end UserDict

end Y2Skk
