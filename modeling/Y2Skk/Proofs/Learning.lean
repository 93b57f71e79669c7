import Y2Skk.Proofs.Gather
import Y2Skk.Proofs.Stack

/-!
# `Y2Skk.Proofs.Learning`: a learned word comes first

Learning moves a word to the front of its bucket in the user dictionary, and takes it off
the bucket's directives. With the user dictionary at the top of the stack the next lookup
meets it first:

* `startConversion_of_learned`: a conversion after a learned word offers its expansion
  first, unless a directive hides it;
* `commitCandidate_offered_first`: the candidate committed last is offered first.

## From the commit to the next lookup

A commit learns the template word of the candidate's origin, under the template of the
reading, and not the word that is displayed. So the next conversion has to expand it
again, over the same digits: without a `#4` the expansion is the one that was committed,
since it makes no lookup that learning could change (`Expands.unique`).

That the word is shown again needs that no directive hides it now. Learning adds no word
to a directive, and what hid nothing at the first conversion hides nothing at the second
(`hides_of_learned`).
-/

set_option autoImplicit false

namespace Y2Skk

open Outcome Utf8 Transition

/-! ### Directives -/

namespace SkkEngine

/-- Learning only takes words off the directives of a bucket: no word gets listed by it, and the
learned words are not listed any more. -/
theorem mem_ignoreSet_unignore {learnedWords : List Str} {list : List Candidate} {word : Str}
    (h : word ∈ ignoreSet (UserDict.unignore learnedWords list)) :
    word ∈ ignoreSet list ∧ word ∉ learnedWords := by
  obtain ⟨c, hc, hword⟩ := List.mem_flatMap.mp h
  obtain ⟨before, hbefore, rfl⟩ := List.mem_map.mp (List.mem_filter.mp hc).1
  cases hform : before.lispForm with
  | none => simp [UserDict.unignoreIn, Candidate.ignoredWords, hform] at hword
  | some form =>
      cases form with
      | unknown => simp [UserDict.unignoreIn, Candidate.ignoredWords, hform] at hword
      | ignoreDicWord words =>
          simp only [UserDict.unignoreIn, Candidate.ignoredWords, hform, List.mem_filter,
            decide_eq_true_eq] at hword
          refine ⟨List.mem_flatMap.mpr ⟨before, hbefore, ?_⟩, hword.2⟩
          simpa only [Candidate.ignoredWords, hform] using hword.1

/-- The learned candidate itself is no directive, so to move it to the front lists no word. -/
theorem mem_ignoreSet_promote {list : List Candidate} {newWord word : Str}
    {note : Option Str}
    (h : word ∈ ignoreSet (UserDict.promote list [⟨newWord, note, none⟩])) :
    word ∈ ignoreSet list := by
  rw [UserDict.promote_singleton] at h
  obtain ⟨c, hc, hword⟩ := List.mem_flatMap.mp h
  rcases List.mem_cons.mp hc with rfl | hc
  · cases hword
  · exact List.mem_flatMap.mpr ⟨c, (List.mem_filter.mp hc).1, hword⟩

end SkkEngine

/-- The bucket a single word is learned into. -/
theorem UserDict.bucket_learn_self (user : UserDict) (midashi : Str) (okuri : Option Str)
    (word : Str) (note : Option Str) :
    (user.learn ⟨midashi, okuri, [⟨word, note, none⟩]⟩).1.bucket midashi okuri =
      unignore [word] (promote (user.bucket midashi okuri) [⟨word, note, none⟩]) := by
  rw [bucket, bucket?_learn, if_pos ⟨rfl, rfl⟩]
  rfl

/-- A learned word is the first of its bucket. -/
theorem UserDict.bucket_learn_head (user : UserDict) (midashi : Str) (okuri : Option Str)
    (word : Str) (note : Option Str) :
    ∃ rest, (user.learn ⟨midashi, okuri, [⟨word, note, none⟩]⟩).1.bucket midashi okuri =
      ⟨word, note, none⟩ :: rest := by
  rw [bucket_learn_self, promote_singleton, unignore, List.map_cons, List.filter_cons_of_pos]
  · exact ⟨_, rfl⟩
  · rfl

namespace SkkEngine

section Opening
variable {δ : Type} [DictionaryProvider δ] {self : SkkEngine δ} {midashi : Str}
  {okuri : Option (Str × Str)} {g : Gathered}

omit [DictionaryProvider δ] in
/-- Whether the preedit can be placed depends on the registration frames alone. The slices are
those of the committed text at its cursor, and neither the inner preedit nor the phase has a say
in them. -/
theorem placePreedit_of_ok {self' : SkkEngine δ} (hstack : self'.registerStack = self.registerStack)
    {inner : Str} {cursorPos : Nat} {ghost : Bool} {preedit : Preedit}
    (h : self.placePreedit inner cursorPos ghost = .ok preedit) (inner' : Str) :
    Runs (self'.placePreedit inner' (byteLen inner') false) fun _ => True := by
  unfold placePreedit at h ⊢
  rw [hstack]
  cases hframes : self.registerStack with
  | nil => exact runs_ok.mpr trivial
  | cons frame frames =>
      rw [hframes] at h
      dsimp only at h ⊢
      cases hbefore : sliceTo frame.committed frame.cursor with
      | error e => rw [hbefore, error_bind] at h; cases h
      | ok before =>
          rw [hbefore, ok_bind] at h
          cases hafter : sliceFrom frame.committed frame.cursor with
          | error e => rw [hafter, error_bind] at h; cases h
          | ok after =>
              rw [ok_bind, ok_bind]
              exact runs_ok.mpr trivial

/-- A conversion that finds candidates opens a selection of them, as long as the preedit can be
placed in the prompt. -/
theorem startConversion_of_gather
    (hgather : self.gatherCandidates midashi (okuri.map Prod.fst) = .ok g)
    (hne : g.candidates ≠ [])
    (hplace : ∀ inner, Runs (self.placePreedit inner (byteLen inner) false) fun _ => True) :
    Runs (self.startConversion midashi okuri) fun r =>
      r.1.phase = .selecting (openSelection midashi okuri g) := by
  have hgather' : { self with completion := none }.gatherCandidates midashi (okuri.map Prod.fst)
      = .ok g := (gatherCandidates_congr rfl rfl _ _).trans hgather
  obtain ⟨first, rest, hcands⟩ := List.exists_cons_of_ne_nil hne
  -- The first candidate exists, so only the placement of the preedit could fail.
  have hpreedit : ∀ opened : SkkEngine δ, opened.registerStack = self.registerStack →
      opened.completion = none →
      opened.phase = .selecting (openSelection midashi okuri g) →
      Runs opened.preeditAction fun _ => True := by
    intro opened hstack hcompletion hphase
    have hplain : Runs opened.plainPreedit fun _ => True := by
      unfold plainPreedit buildInnerPreedit
      rw [hphase]
      have hfirst : indexList (openSelection midashi okuri g).candidates
          (openSelection midashi okuri g).index = .ok first := by
        rw [indexList_ok_iff]
        simp [openSelection, hcands]
      simp only [hfirst, ok_bind]
      obtain ⟨preedit, hok, -⟩ := hplace []
      cases first.annotation with
      | none => exact placePreedit_of_ok hstack hok _
      | some annotation => exact placePreedit_of_ok hstack hok _
    unfold preeditAction buildPreedit
    rw [hphase, hcompletion]
    exact hplain.bind fun _ _ => runs_pure.mpr trivial
  unfold startConversion
  dsimp only
  rw [hgather', ok_bind, if_neg (by simpa using hne)]
  refine (hpreedit _ ?_ ?_ ?_).bind fun preedit _ => ?_
  · rfl
  · rfl
  · rfl
  rw [listingShowAction_eq _ (Nat.zero_le _), ok_bind]
  cases pageAt _ g.candidates 0 <;> exact runs_ok.mpr rfl

/-- A conversion that opened a selection: where the candidates come from, and what it changed.
The dictionaries, the setting and the frames are the same as before. -/
theorem startConversion_selecting {conv : SkkEngine δ} {actions : List EngineAction}
    {s : Selection} (h : self.startConversion midashi okuri = .ok (conv, actions))
    (hphase : conv.phase = .selecting s) :
    ∃ g, self.gatherCandidates midashi (okuri.map Prod.fst) = .ok g ∧
      s = openSelection midashi okuri g ∧ conv.dict = self.dict ∧
      conv.lispDirectives = self.lispDirectives ∧ conv.registerStack = self.registerStack ∧
      ∀ inner, Runs (conv.placePreedit inner (byteLen inner) false) fun _ => True := by
  obtain ⟨g, hgather, -⟩ := gatherCandidates_runs self midashi (okuri.map Prod.fst)
  have hgather' : { self with completion := none }.gatherCandidates midashi (okuri.map Prod.fst)
      = .ok g := (gatherCandidates_congr rfl rfl _ _).trans hgather
  refine ⟨g, hgather, ?_⟩
  unfold startConversion at h
  dsimp only at h
  rw [hgather', ok_bind] at h
  split at h
  · -- The registration mode is no selection.
    unfold redraw at h
    cases haction : preeditAction _ with
    | error e => rw [haction] at h; cases h
    | ok action =>
        rw [haction] at h
        cases h
        cases hphase
  · -- A selection was opened: the preedit and the page were built from the state that is the
    -- result.
    cases haction : preeditAction _ with
    | error e => rw [haction] at h; cases h
    | ok action =>
        rw [haction, ok_bind, listingShowAction_eq _ (Nat.zero_le _), ok_bind] at h
        have hconv : conv = { self with
            completion := none, phase := .selecting (openSelection midashi okuri g) } := by
          cases hpage : pageAt _ g.candidates 0 with
          | none => rw [hpage] at h; cases h; rfl
          | some page => rw [hpage] at h; cases h; rfl
        subst hconv
        refine ⟨(SkkPhase.selecting.inj hphase).symm, rfl, rfl, rfl, fun inner => ?_⟩
        -- The preedit was built, so its frame can be sliced.
        unfold preeditAction buildPreedit plainPreedit at haction
        dsimp only at haction
        cases hinner : buildInnerPreedit _ with
        | error e => rw [hinner] at haction; cases haction
        | ok shown =>
            rw [hinner, ok_bind] at haction
            cases hplace : placePreedit _ shown (byteLen shown) false with
            | error e => rw [hplace] at haction; cases haction
            | ok preedit => exact placePreedit_of_ok rfl hplace inner

end Opening

/-! ### The user dictionary at the top of the stack -/

section Top
variable {ρ : Type} [DictionaryProvider ρ] {self : SkkEngine (Provider ρ)} {user : UserDict}
  {others : List (Provider ρ)}

/-- The candidates of the user dictionary come first, when it is the first provider. -/
theorem lookupAll_top (hdict : self.dict = .user user :: others) (key : Str)
    (okuriKey : Option Str) : self.lookupAll key okuriKey = user.bucket key okuriKey ++
      (others.filterMap fun d => DictionaryProvider.lookup d key okuriKey).flatMap
        DictEntry.candidates := by
  have huser : DictionaryProvider.lookup (Provider.user user : Provider ρ) key okuriKey
      = user.lookup key okuriKey := rfl
  rw [lookupAll, hdict, List.filterMap_cons, huser, UserDict.lookup_eq, UserDict.bucket]
  cases user.bucket? key okuriKey <;> rfl

/-- A word another provider of the stack hides. -/
def hiddenBy (others : List (Provider ρ)) (key : Str) (okuriKey : Option Str) (word : Str) : Prop :=
  word ∈ ignoreSet ((others.filterMap fun d => DictionaryProvider.lookup d key okuriKey).flatMap
    DictEntry.candidates)

/-- After a word was learned a directive hides what one of the others hides, or what the
user dictionary hid already and is not the word. -/
theorem hides_of_learned {midashi : Str} {okuriKey : Option Str} {newWord word : Str}
    {note : Option Str}
    (hdict : self.dict =
      .user (user.learn ⟨midashi, okuriKey, [⟨newWord, note, none⟩]⟩).1 :: others)
    (h : self.hides midashi okuriKey word = true) : self.lispDirectives = true ∧
      (hiddenBy others midashi okuriKey word ∨
        word ∈ ignoreSet (user.bucket midashi okuriKey) ∧ word ≠ newWord) := by
  rw [hides, Bool.and_eq_true, decide_eq_true_eq, lookupAll_top hdict, ignoreSet,
    List.flatMap_append, List.mem_append] at h
  refine ⟨h.1, h.2.symm.imp_right fun hmem => ?_⟩
  rw [UserDict.bucket_learn_self] at hmem
  -- In the user dictionary `learn` has taken the word off the directives.
  obtain ⟨hmem, hnew⟩ := mem_ignoreSet_unignore hmem
  exact ⟨mem_ignoreSet_promote hmem, fun heq => hnew (by simp [heq])⟩

/-- A conversion after `newWord` was learned for its reading offers the expansion of `newWord`
first, unless that is hidden. The word was put in front of its bucket, and the user dictionary
is asked before the others. -/
theorem startConversion_of_learned {midashi : Str} {okuri : Option (Str × Str)}
    {newWord word : Str} {note : Option Str}
    (hdict : self.dict = .user (user.learn
      ⟨(scan midashi).1, okuri.map Prod.fst, [⟨newWord, note, none⟩]⟩).1 :: others)
    (hexpands : if (scan midashi).2.isEmpty then word = newWord
      else expandWithRecursiveLookup newWord (scan midashi).2 self.recursiveLookup = .ok [word])
    (hshown : self.hides (scan midashi).1 (okuri.map Prod.fst) word = false)
    (hplace : ∀ inner, Runs (self.placePreedit inner (byteLen inner) false) fun _ => True) :
    Runs (self.startConversion midashi okuri) fun r => ∃ s, r.1.phase = .selecting s ∧
      s.candidates[0]? = some ⟨word, note, none⟩ := by
  obtain ⟨rest, hhead⟩ := user.bucket_learn_head (scan midashi).1 (okuri.map Prod.fst) newWord
    note
  have hlookup := lookupAll_top hdict (scan midashi).1 (okuri.map Prod.fst)
  rw [hhead, List.cons_append] at hlookup
  -- the first entry that is looked up is the one that was learned
  obtain ⟨g, hgather, hfirst⟩ := gatherCandidates_head self hlookup rfl hexpands hshown
  rw [List.head?_eq_getElem?] at hfirst
  have hne : g.candidates ≠ [] := fun hnil => by rw [hnil] at hfirst; cases hfirst
  exact (startConversion_of_gather hgather hne hplace).mono fun r hr => ⟨_, hr, hfirst⟩

/-- Learning on a stack where the user dictionary alone learns: the other providers refuse, and
stay as they are. -/
theorem dict_learnAll (hdict : self.dict = .user user :: others)
    (hothers : ∀ d ∈ others, ∀ entry, ∃ e, DictionaryProvider.learn d entry = (d, .error e))
    (entry : DictEntry) :
    (self.learnAll entry).dict = .user (user.learn entry).1 :: others := by
  have hsame : others.map (fun d => (DictionaryProvider.learn d entry).1) = others := by
    -- A failed `learn` leaves its provider as it was.
    conv_rhs => rw [← List.map_id others]
    refine List.map_congr_left fun d hd => ?_
    obtain ⟨e, he⟩ := hothers d hd entry
    rw [he]
    rfl
  rw [learnAll, hdict, List.map_cons, hsame]
  rfl

/-- Committing a candidate learns the template word of its origin, and leaves the registrations
as they are. -/
theorem commitCandidate_learns {s : Selection} {i : Nat} {chosen : Candidate}
    {templateMidashi templateWord : Str} (hchosen : s.candidates[i]? = some chosen)
    (horigin : s.origin[i]? = some (.dict templateMidashi templateWord)) :
    Runs (self.commitCandidate s i) fun done =>
      done.1.dict = (self.learnAll
        ⟨templateMidashi, s.okuriKey, [⟨templateWord, chosen.annotation, none⟩]⟩).dict ∧
      done.1.lispDirectives = self.lispDirectives ∧
      done.1.registerStack = self.registerStack := by
  have hentry : learnEntry s i chosen =
      some ⟨templateMidashi, s.okuriKey, [⟨templateWord, chosen.annotation, none⟩]⟩ := by
    rw [learnEntry, horigin]
  unfold commitCandidate
  rw [indexList_ok_iff.mpr hchosen, ok_bind]
  dsimp only
  rw [hentry, runs_ok]
  exact ⟨rfl, rfl, rfl⟩

/-- Without `#4` the expansion is the only one, whatever the dictionaries are. So the expansion
that was offered before the commit is the one that is offered after it, although the
dictionaries have changed in between. -/
theorem Expands.unique {digitRuns : List Str} {templateWord word : Str}
    (h : self.Expands digitRuns templateWord word) (hno : NoRecursive templateWord)
    (lookup : Str → List Str) :
    if digitRuns.isEmpty then word = templateWord
    else expandWithRecursiveLookup templateWord digitRuns lookup = .ok [word] := by
  rw [Expands] at h
  split
  · rename_i hruns
    rwa [if_pos hruns] at h
  · rename_i hruns
    rw [if_neg hruns] at h
    obtain ⟨alts, halts, hmem⟩ := h
    obtain ⟨hlen, hother⟩ := (expandWithRecursiveLookup_of_no_recursive hno digitRuns
      self.recursiveLookup lookup).of_ok halts
    rw [hother]
    obtain ⟨alt, rfl⟩ :=
      List.length_eq_one_iff.mp (hlen.antisymm (List.length_pos_of_mem hmem))
    rw [List.mem_singleton.mp hmem]

/-- The candidate committed last is offered first: a candidate of a conversion that comes
from a dictionary word without `#4` is the first candidate of the next conversion of the
same reading, with its annotation. -/
theorem commitCandidate_offered_first {midashi : Str} {okuri : Option (Str × Str)}
    {conv : SkkEngine (Provider ρ)} {actions : List EngineAction} {s : Selection} {i : Nat}
    {templateMidashi templateWord : Str}
    (hdict : self.dict = .user user :: others)
    (hothers : ∀ d ∈ others, ∀ entry, ∃ e, DictionaryProvider.learn d entry = (d, .error e))
    (hconv : self.startConversion midashi okuri = .ok (conv, actions))
    (hphase : conv.phase = .selecting s)
    (horigin : s.origin[i]? = some (.dict templateMidashi templateWord))
    (hno : NoRecursive templateWord) :
    Runs (conv.commitCandidate s i) fun done =>
      Runs (done.1.startConversion midashi okuri) fun again =>
        ∃ s' chosen first, again.1.phase = .selecting s' ∧ s.candidates[i]? = some chosen ∧
          s'.candidates[0]? = some first ∧ first.word = chosen.word ∧
          first.annotation = chosen.annotation := by
  obtain ⟨g, hgather, rfl, hconvDict, hconvLisp, -, hplace⟩ :=
    startConversion_selecting hconv hphase
  -- The origin says which word the candidate was expanded from.
  have hexplained := (gatherCandidates_explained self midashi (okuri.map Prod.fst)).of_ok hgather
  obtain ⟨hi, horiginEq⟩ := List.getElem?_eq_some_iff.mp horigin
  have hlt : i < g.candidates.length := hexplained.length_eq ▸ hi
  have hchosen : (openSelection midashi okuri g).candidates[i]? = some g.candidates[i] :=
    List.getElem?_eq_getElem hlt
  have hexplains := (List.forall₂_iff_get.mp hexplained).2 i hlt hi
  simp only [openSelection_origin] at horiginEq
  simp only [List.get_eq_getElem, horiginEq, Explains] at hexplains
  obtain ⟨rfl, hshown, hexpands⟩ := hexplains
  generalize g.candidates[i] = chosen at hchosen hshown hexpands
  refine (commitCandidate_learns hchosen horigin).mono ?_
  rintro ⟨done, _⟩ ⟨hdone, hlisp, hstack⟩
  -- That word is now the first of its bucket, and the other providers are unchanged.
  have hlearned := hdone.trans (dict_learnAll (hconvDict.trans hdict) hothers _)
  refine (startConversion_of_learned hlearned (hexpands.unique hno _) ?_ fun inner => ?_).mono ?_
  · -- Learning adds no word to a directive.
    rw [Bool.eq_false_iff]
    intro hhides
    obtain ⟨hon, hmem⟩ := hides_of_learned hlearned hhides
    refine Bool.eq_false_iff.mp hshown ?_
    rw [hides, Bool.and_eq_true, decide_eq_true_eq, lookupAll_top hdict, ignoreSet,
      List.flatMap_append, List.mem_append]
    exact ⟨hconvLisp.symm.trans (hlisp.symm.trans hon), hmem.elim .inr fun h => .inl h.1⟩
  · obtain ⟨preedit, hok, -⟩ := hplace inner
    exact placePreedit_of_ok hstack hok inner
  · rintro again ⟨s', hs', hfirst⟩
    exact ⟨s', chosen, _, hs', hchosen, hfirst, rfl, rfl⟩

end Top

/-- A dictionary file with two templates under `#x`. -/
def templateDict : FileDict where
  entries := OrdMap.empty.insert ['#', 'x']
    (OrdMap.empty.insert none [.new ['#', '0'], .new ['#', '1']])
  priority := 0

/-- An engine with an empty user dictionary and `templateDict`. -/
def templateEngine : SkkEngine (Provider FileDict) :=
  { (new vowelTable {} : SkkEngine (Provider FileDict)) with
    dict := [.user .empty, .other templateDict] }

/-- The second candidate of `1x` comes first after it was committed. It is the full-width
expansion of a template, so the word that is learned is the template and not the text. -/
theorem commitCandidate_offered_first_template : ∃ conv actions s,
    templateEngine.startConversion ['1', 'x'] none = .ok (conv, actions) ∧
    s.candidates = [.new ['1'], .new ['１']] ∧
    Runs (conv.commitCandidate s 1) fun done =>
      Runs (done.1.startConversion ['1', 'x'] none) fun again =>
        ∃ s' first, again.1.phase = .selecting s' ∧ s'.candidates[0]? = some first ∧
          first.word = ['１'] := by
  have hothers : ∀ d ∈ [Provider.other templateDict], ∀ entry,
      ∃ e, DictionaryProvider.learn d entry = (d, .error e) := by
    rintro d hd entry
    obtain rfl := List.mem_singleton.mp hd
    exact ⟨.readOnly, rfl⟩
  have hopens : ∃ r ∈ (templateEngine.startConversion ['1', 'x'] none).toOption,
      r.1.phase = .selecting ⟨['1', 'x'], none, none, [.new ['1'], .new ['１']],
        [.dict ['#', 'x'] ['#', '0'], .dict ['#', 'x'] ['#', '1']], 0⟩ := by decide +kernel
  obtain ⟨⟨conv, actions⟩, hconv, hphase⟩ := hopens
  have hstart := ok_of_mem_toOption hconv
  refine ⟨conv, actions, ⟨['1', 'x'], none, none, [.new ['1'], .new ['１']],
    [.dict ['#', 'x'] ['#', '0'], .dict ['#', 'x'] ['#', '1']], 0⟩, hstart, rfl, ?_⟩
  refine (commitCandidate_offered_first rfl hothers hstart hphase rfl (by decide)).mono ?_
  intro done hdone
  refine hdone.mono ?_
  rintro again ⟨s', chosen, first, hs', hchosen, hfirst, hword, -⟩
  cases hchosen
  exact ⟨s', first, hs', hfirst, hword⟩

end SkkEngine

end Y2Skk
