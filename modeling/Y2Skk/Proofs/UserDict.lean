import Y2Skk.Dict.File

/-!
# `Y2Skk.Proofs.UserDict`: the buckets of the user dictionary

A user dictionary is read one bucket at a time: `bucket? midashi okuri` is the candidate
list of a headword and an okurigana key. `learn` and `purge` change one bucket each.

## Learn and purge

* `bucket?_learn`: the candidates that are learned move to the front, and the directives
  lose their words.
* `bucket?_purge`: the word goes, and with the last candidate the bucket. The code keeps
  two maps, one inside the other, and removes a headword when its inner map is empty;
  `get?_purged` and `get?_cleaned` say that the lookup does not notice.

Both are equations for every bucket, so they are the frame as well.

## Learned dictionaries

`Learned` is what the dictionary of an engine looks like that started without entries: no
bucket is empty, and every candidate is a plain word. `Learned.learn` and `Learned.purge`
keep it.
-/

set_option autoImplicit false

namespace Y2Skk

open Utf8

namespace UserDict

/-- The candidates of a headword and an okurigana key. -/
def bucket? (dict : UserDict) (midashi : Str) (okuri : Option Str) : Option (List Candidate) :=
  (dict.entries.get? midashi).bind fun okuriMap => okuriMap.get? okuri

/-- A lookup answers with the bucket under its own headword and key. -/
theorem lookup_eq (dict : UserDict) (midashi : Str) (okuri : Option Str) :
    dict.lookup midashi okuri = (dict.bucket? midashi okuri).map fun c => ⟨midashi, okuri, c⟩ := by
  unfold lookup bucket?
  cases dict.entries.get? midashi with
  | none => rfl
  | some okuriMap => cases h : okuriMap.get? okuri <;> simp [h]

/-- Learning promotes the candidates in their bucket and edits its directives; no other bucket
changes. The headword goes to the end of the order, which a lookup does not see. -/
theorem bucket?_learn (dict : UserDict) (entry : DictEntry) (midashi : Str)
    (okuri : Option Str) : (dict.learn entry).1.bucket? midashi okuri =
      if midashi = entry.midashi ∧ okuri = entry.okuri then
        some (unignore ((entry.candidates.filter Candidate.isDisplayable).map Candidate.word)
          (promote ((dict.bucket? midashi okuri).getD []) entry.candidates))
      else dict.bucket? midashi okuri := by
  unfold bucket? learn
  dsimp only
  rw [OrdMap.get?_insert]
  -- The headword was erased and inserted anew, with one bucket of its map changed.
  by_cases hmidashi : midashi = entry.midashi
  · subst hmidashi
    rw [if_pos rfl, Option.bind_some, OrdMap.get?_upsert]
    by_cases hokuri : okuri = entry.okuri
    · subst hokuri
      rw [if_pos rfl, if_pos ⟨rfl, rfl⟩]
      cases dict.entries.get? entry.midashi <;> rfl
    · rw [if_neg hokuri, if_neg fun h => hokuri h.2]
      cases dict.entries.get? entry.midashi <;> rfl
  · rw [if_neg hmidashi, if_neg fun h => hmidashi h.1, OrdMap.get?_erase, if_neg hmidashi]

/-- What a purge leaves of a bucket. -/
def purged (word : Str) (candidates : List Candidate) : Option (List Candidate) :=
  let kept := candidates.filter fun c => c.word ≠ word
  if kept.isEmpty then none else some kept

/-- The okurigana map a purge writes back: a bucket that would be empty is erased, which reads
as `purged` says. -/
theorem get?_purged (okuriMap : OkuriMap) (okuri okuri' : Option Str) (word : Str)
    (candidates : List Candidate) :
    (if (candidates.filter fun c => c.word ≠ word).isEmpty then okuriMap.erase okuri
      else okuriMap.insert okuri (candidates.filter fun c => c.word ≠ word)).get? okuri' =
      if okuri' = okuri then purged word candidates else okuriMap.get? okuri' := by
  unfold purged
  dsimp only
  split
  · exact OrdMap.get?_erase ..
  · exact OrdMap.get?_insert ..

/-- A headword is removed when its okurigana map is empty, which reads the same: an absent
headword has no bucket either. -/
theorem get?_cleaned (entries : UserEntryMap) (midashi midashi' : Str) (okuriMap : OkuriMap)
    (okuri' : Option Str) :
    ((if okuriMap.entries.isEmpty then entries.erase midashi
      else entries.insert midashi okuriMap).get? midashi').bind (·.get? okuri') =
      if midashi' = midashi then okuriMap.get? okuri'
      else (entries.get? midashi').bind (·.get? okuri') := by
  split
  · rename_i hempty
    have hnone : okuriMap.get? okuri' = none := by
      rw [OrdMap.get?, List.isEmpty_iff.mp hempty]
      rfl
    rw [OrdMap.get?_erase, hnone]
    split <;> rfl
  · rw [OrdMap.get?_insert]
    split <;> rfl

/-- A purge takes the word out of its bucket, and the bucket away when it was the last one; no
other bucket changes. -/
theorem bucket?_purge (dict : UserDict) (midashi : Str) (okuri : Option Str) (word : Str)
    (midashi' : Str) (okuri' : Option Str) :
    (dict.purge midashi okuri word).1.bucket? midashi' okuri' =
      if midashi' = midashi ∧ okuri' = okuri then (dict.bucket? midashi okuri).bind (purged word)
      else dict.bucket? midashi' okuri' := by
  -- A purge of a bucket that is not there changes nothing.
  have hsame : dict.bucket? midashi okuri = none → dict.bucket? midashi' okuri' =
      if midashi' = midashi ∧ okuri' = okuri then (dict.bucket? midashi okuri).bind (purged word)
      else dict.bucket? midashi' okuri' := by
    intro hnone
    split
    · rename_i heq
      rw [heq.1, heq.2, hnone]
      rfl
    · rfl
  unfold purge
  cases hmap : dict.entries.get? midashi with
  | none => exact hsame (by rw [bucket?, hmap]; rfl)
  | some okuriMap =>
      dsimp only
      have hbucket : ∀ o, dict.bucket? midashi o = okuriMap.get? o := fun o => by
        rw [bucket?, hmap]
        rfl
      cases hcands : okuriMap.get? okuri with
      | none => exact hsame ((hbucket okuri).trans hcands)
      | some candidates =>
          -- The two maps are written back one after the other: first the headword is
          -- looked up, then its okurigana key.
          rw [hbucket, hcands, Option.bind_some]
          refine (get?_cleaned ..).trans ?_
          rw [get?_purged]
          by_cases hmidashi : midashi' = midashi
          · subst hmidashi
            rw [if_pos rfl, ← hbucket]
            simp
          · rw [if_neg hmidashi, if_neg fun h => hmidashi h.1]
            rfl

/-- The candidates of a bucket, in their order; none when there is no bucket. -/
def bucket (dict : UserDict) (midashi : Str) (okuri : Option Str) : List Candidate :=
  (dict.bucket? midashi okuri).getD []

/-- A purge filters its bucket and leaves the others. A bucket that has become empty is taken
away, which reads as an empty list all the same. -/
theorem bucket_purge (dict : UserDict) (midashi : Str) (okuri : Option Str) (word : Str)
    (midashi' : Str) (okuri' : Option Str) :
    (dict.purge midashi okuri word).1.bucket midashi' okuri' =
      if midashi' = midashi ∧ okuri' = okuri then
        (dict.bucket midashi okuri).filter fun c => c.word ≠ word
      else dict.bucket midashi' okuri' := by
  unfold bucket
  rw [bucket?_purge]
  split
  · cases dict.bucket? midashi okuri with
    | none => rfl
    | some candidates =>
        rw [Option.bind_some, purged, Option.getD_some]
        split
        · rename_i hempty
          exact (List.isEmpty_iff.mp hempty).symm
        · rfl
  · rfl

/-- Completions continue the prefix. -/
theorem prefix_of_mem_complete {dict : UserDict} {pre word : Str} (h : word ∈ dict.complete pre) :
    pre <+: word := by
  obtain ⟨e, he, rfl⟩ := List.mem_map.mp h
  have hkeep := (List.mem_filter.mp he).2
  rw [Bool.and_eq_true, Bool.and_eq_true] at hkeep
  exact List.isPrefixOf_iff_prefix.mp hkeep.1.1

/-! ### Dictionaries of plain candidates -/

/-- No bucket is empty, and every candidate is a plain word. -/
structure Learned (dict : UserDict) : Prop where
  ne_nil : ∀ {midashi okuri candidates}, dict.bucket? midashi okuri = some candidates →
    candidates ≠ []
  plain : ∀ {midashi okuri candidates}, dict.bucket? midashi okuri = some candidates →
    ∀ c ∈ candidates, c.lispForm = none

/-- A dictionary without entries has no bucket to be empty. -/
theorem learned_of_empty {dict : UserDict} (h : dict.entries = .empty) : dict.Learned := by
  have hnone : ∀ midashi okuri, dict.bucket? midashi okuri = none := fun _ _ => by
    rw [bucket?, h]
    rfl
  exact ⟨fun h => (by rw [hnone] at h; cases h), fun h => (by rw [hnone] at h; cases h)⟩

/-- Directives are all that `unignore` changes: a list of plain candidates is given back as it
is. -/
theorem unignore_of_plain (learnedWords : List Str) {list : List Candidate}
    (h : ∀ c ∈ list, c.lispForm = none) : unignore learnedWords list = list := by
  have hmap : list.map (unignoreIn learnedWords) = list := by
    conv_rhs => rw [← List.map_id list]
    refine List.map_congr_left fun c hc => ?_
    rw [unignoreIn, h c hc]
    rfl
  rw [unignore, hmap, List.filter_eq_self]
  intro c hc
  rw [h c hc]
  rfl

/-- One candidate is promoted by taking the place of the one with its word. -/
theorem promote_singleton (list : List Candidate) (newCand : Candidate) :
    promote list [newCand] = newCand :: list.filter fun c => c.word ≠ newCand.word := rfl

/-- Learning a plain candidate leaves plain candidates, in a bucket that is not empty. The
bucket was plain before, so there is no directive to edit. -/
theorem Learned.learn {dict : UserDict} (h : dict.Learned) (midashi : Str) (okuri : Option Str)
    (word : Str) (note : Option Str) :
    (dict.learn ⟨midashi, okuri, [⟨word, note, none⟩]⟩).1.Learned := by
  -- What is promoted is the learned candidate and what was in the bucket before.
  have hplain : ∀ c ∈ promote ((dict.bucket? midashi okuri).getD []) [⟨word, note, none⟩],
      c.lispForm = none := by
    intro c hc
    rcases List.mem_cons.mp hc with rfl | hc
    · rfl
    · have hmem := (List.mem_filter.mp hc).1
      cases hbucket : dict.bucket? midashi okuri with
      | none => rw [hbucket] at hmem; cases hmem
      | some candidates =>
          rw [hbucket] at hmem
          exact h.plain hbucket c hmem
  -- A bucket afterwards is the promoted one or one from before.
  have hafter : ∀ {midashi' okuri' candidates},
      (dict.learn ⟨midashi, okuri, [⟨word, note, none⟩]⟩).1.bucket? midashi' okuri'
        = some candidates →
      candidates = promote ((dict.bucket? midashi okuri).getD []) [⟨word, note, none⟩] ∨
        dict.bucket? midashi' okuri' = some candidates := by
    intro midashi' okuri' candidates hbucket
    rw [bucket?_learn] at hbucket
    split at hbucket
    · rename_i heq
      obtain ⟨rfl, rfl⟩ := heq
      rw [unignore_of_plain _ hplain] at hbucket
      exact .inl (Option.some.inj hbucket).symm
    · exact .inr hbucket
  refine ⟨fun hbucket => ?_, fun hbucket => ?_⟩
  · rcases hafter hbucket with rfl | hold
    · exact List.cons_ne_nil _ _
    · exact h.ne_nil hold
  · rcases hafter hbucket with rfl | hold
    · exact hplain
    · exact h.plain hold

/-- A purge leaves plain candidates, and takes a bucket away with its last one. So the invariant
that no bucket is empty is kept by both changes of a dictionary. -/
theorem Learned.purge {dict : UserDict} (h : dict.Learned) (midashi : Str) (okuri : Option Str)
    (word : Str) : (dict.purge midashi okuri word).1.Learned := by
  have hafter : ∀ {midashi' okuri' candidates},
      (dict.purge midashi okuri word).1.bucket? midashi' okuri' = some candidates →
      candidates ≠ [] ∧ ∃ before, dict.bucket? midashi' okuri' = some before ∧
        ∀ c ∈ candidates, c ∈ before := by
    intro midashi' okuri' candidates hbucket
    rw [bucket?_purge] at hbucket
    split at hbucket
    · rename_i heq
      obtain ⟨rfl, rfl⟩ := heq
      obtain ⟨before, hbefore, hpurged⟩ := Option.bind_eq_some_iff.mp hbucket
      unfold purged at hpurged
      dsimp only at hpurged
      split at hpurged
      · cases hpurged
      · rename_i hne
        cases hpurged
        exact ⟨fun hnil => hne (by rw [hnil]; rfl), before, hbefore,
          fun c hc => (List.mem_filter.mp hc).1⟩
    · exact ⟨h.ne_nil hbucket, candidates, hbucket, fun _ hc => hc⟩
  refine ⟨fun hbucket => (hafter hbucket).1, fun hbucket c hc => ?_⟩
  obtain ⟨-, before, hbefore, hsub⟩ := hafter hbucket
  exact h.plain hbefore c (hsub c hc)

end UserDict

end Y2Skk
