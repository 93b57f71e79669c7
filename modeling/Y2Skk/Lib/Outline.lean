import Y2Skk.Lib.Program

/-!
# `Y2Skk.Lib.Outline`: programs that share a lock

Several threads run the same kind of program, and a lock keeps them apart for a part of
it. The usual argument is that the holder may rely on what the lock protects, and must
restore it before giving the lock back. This module makes that argument a rule for the
pools of `Y2Skk.Lib.Program`.

## Control points

An `Outline` follows the programs of a machine through control points. A point says what
the program still has to do (`rest`), and whether it holds the lock there (`holds`). Each
thread also keeps a `tag`, which its start takes from the shared state: a ghost, on which
no step of the program depends, for statements that compare the end of a thread with its
beginning.

## Obligations

`Discipline` are the obligations of rely and guarantee, with a lock that owns a resource.
Every step is within `guar`, and a step of a thread that does not hold the lock is within
`quiet` too. The assertion `here` at a point has to survive the steps of the other
threads: all that is in `guar`, and only what is in `quiet` while the thread holds the
lock. While the lock is free, the resource satisfies `free`. The four kinds of operation
(outside the lock, taking it, inside, giving it back) have one field each, so an instance
proves one small lemma for each operation of its program.

## The rule

`Discipline.followed` is the rule: in every run at most one thread holds the lock, every
thread is at a point whose assertion is true, and a free lock has its resource. Its proof
is three step lemmas (`Followed.env`, `Followed.spawn`, `Followed.perform`) and one
induction over the run.
-/

set_option autoImplicit false

namespace Concurrent

open Transition

universe u v w

variable {Op : Type u} {Reply : Op → Type v} {σ γ χ ι ω Λ τ : Type w}

/-- Control points for the programs of a machine. The two laws say that a program starts at its
starting point, and that each operation leads to the point that `next` names, whatever the
reply. -/
structure Outline (M : Machine Op Reply σ γ χ ι ω) (Λ τ : Type w) where
  /-- What a program still has to do at a point. -/
  rest : Λ → Program Op Reply PUnit
  start : γ → Λ
  next : Λ → (o : Op) → Reply o → Λ
  /-- What a thread keeps of the state it starts in. -/
  tag : σ → γ → τ
  holds : Λ → Bool
  rest_start : ∀ request, rest (start request) = M.body request
  rest_next : ∀ l o k r, rest l = .perform o k → k r = rest (next l o r)

namespace Outline

variable {M : Machine Op Reply σ γ χ ι ω} (P : Outline M Λ τ)

/-- The obligations of a lock discipline. They mention one thread at a time: that the others are
not disturbed is in the relations `guar` and `quiet`, which every assertion has to survive. -/
structure Discipline (ok : σ → Op → Prop) (locked : σ → Bool) (free : σ → Prop)
    (here : τ → Λ → σ → Prop) (guar quiet : σ → σ → Prop) : Prop where
  start : ∀ s request,
    P.holds (P.start request) = false ∧ here (P.tag s request) (P.start request) s
  env : ∀ i s, guar s (M.env i s) ∧ quiet s (M.env i s)
  locked_quiet : ∀ {s s'}, quiet s s' → locked s' = locked s
  free_keep : ∀ {s s'}, guar s s' → quiet s s' → free s → free s'
  here_keep : ∀ {t l s s'}, guar s s' → (P.holds l = true → quiet s s') → here t l s → here t l s'
  /-- An operation outside the lock. -/
  outside : ∀ {choice s t l o k}, P.rest l = .perform o k → ok s o → here t l s →
    P.holds l = false → P.holds (P.next l o (M.exec choice s o).1) = false →
      guar s (M.exec choice s o).2.1 ∧ quiet s (M.exec choice s o).2.1 ∧
        here t (P.next l o (M.exec choice s o).1) (M.exec choice s o).2.1
  /-- Taking the lock, and its resource. -/
  acquire : ∀ {choice s t l o k}, P.rest l = .perform o k → ok s o → here t l s →
    P.holds l = false → P.holds (P.next l o (M.exec choice s o).1) = true →
      locked s = false ∧ (free s → guar s (M.exec choice s o).2.1 ∧
        locked (M.exec choice s o).2.1 = true ∧
        here t (P.next l o (M.exec choice s o).1) (M.exec choice s o).2.1)
  /-- An operation of the holder. -/
  inside : ∀ {choice s t l o k}, P.rest l = .perform o k → ok s o → here t l s →
    P.holds l = true → P.holds (P.next l o (M.exec choice s o).1) = true →
      guar s (M.exec choice s o).2.1 ∧ locked (M.exec choice s o).2.1 = locked s ∧
        here t (P.next l o (M.exec choice s o).1) (M.exec choice s o).2.1
  /-- Giving the lock back, with its resource. -/
  release : ∀ {choice s t l o k}, P.rest l = .perform o k → ok s o → here t l s →
    P.holds l = true → P.holds (P.next l o (M.exec choice s o).1) = false →
      guar s (M.exec choice s o).2.1 ∧ locked (M.exec choice s o).2.1 = false ∧
        free (M.exec choice s o).2.1 ∧
        here t (P.next l o (M.exec choice s o).1) (M.exec choice s o).2.1

/-- The threads are at `places`, each with its tag. `holder` is the one that holds the lock.
This is the invariant of a pool that the rule establishes. -/
structure Followed (locked : σ → Bool) (free : σ → Prop) (here : τ → Λ → σ → Prop)
    (pool : Pool Op Reply σ) (places : List (τ × Λ)) (holder : Option Nat) : Prop where
  threads : pool.threads = places.map fun p => P.rest p.2
  asserted : ∀ (i : Nat) (p : τ × Λ), places[i]? = some p → here p.1 p.2 pool.shared
  /-- Exactly the holder is at a point that holds the lock. -/
  exclusive : ∀ (i : Nat) (p : τ × Λ), places[i]? = some p → (P.holds p.2 = true ↔ holder = some i)
  isThread : ∀ i, holder = some i → i < places.length
  isLocked : locked pool.shared = holder.isSome
  resource : holder = none → free pool.shared

variable {P} {ok : σ → Op → Prop} {locked : σ → Bool} {free : σ → Prop} {here : τ → Λ → σ → Prop}
  {guar quiet : σ → σ → Prop}

section Steps
variable {pool : Pool Op Reply σ} {places : List (τ × Λ)} {holder : Option Nat}

/-- The environment's steps concern nobody: they are within both relations, so every assertion
survives them, and the lock stays as it is. -/
theorem Followed.env (h : P.Discipline ok locked free here guar quiet)
    (hpool : P.Followed locked free here pool places holder) (i : ι) :
    P.Followed locked free here { pool with shared := M.env i pool.shared } places holder := by
  obtain ⟨hguar, hquiet⟩ := h.env i pool.shared
  constructor
  · exact hpool.threads
  · intro j p hp
    exact h.here_keep hguar (fun _ => hquiet) (hpool.asserted j p hp)
  · exact hpool.exclusive
  · exact hpool.isThread
  · rw [← hpool.isLocked]
    exact h.locked_quiet hquiet
  · intro hnone
    exact h.free_keep hguar hquiet (hpool.resource hnone)

/-- A new thread starts outside the lock, and its tag is taken from the state it starts in. The
threads there were are followed as before, at their old places. The lock and what it guards do
not change, since a thread that has not taken a step holds nothing. -/
theorem Followed.spawn (h : P.Discipline ok locked free here guar quiet)
    (hpool : P.Followed locked free here pool places holder) (request : γ) :
    P.Followed locked free here { pool with threads := pool.threads ++ [M.body request] }
      (places ++ [(P.tag pool.shared request, P.start request)]) holder := by
  obtain ⟨hholds, hhere⟩ := h.start pool.shared request
  -- the last place is the new thread's, and every other one is an old thread's
  have hcases : ∀ {i : Nat} {p : τ × Λ},
      (places ++ [(P.tag pool.shared request, P.start request)])[i]? = some p →
      places[i]? = some p ∨
        i = places.length ∧ p = (P.tag pool.shared request, P.start request) := by
    intro i p hp
    rcases Nat.lt_trichotomy i places.length with hlt | heq | hgt
    · rw [List.getElem?_append_left hlt] at hp
      exact .inl hp
    · subst heq
      refine .inr ⟨rfl, ?_⟩
      simpa [eq_comm] using hp
    · rw [List.getElem?_eq_none (by simp; omega)] at hp
      cases hp
  constructor
  · simp [hpool.threads, P.rest_start]
  · intro i p hp
    rcases hcases hp with hp | ⟨-, rfl⟩
    · exact hpool.asserted i p hp
    · exact hhere
  · intro i p hp
    rcases hcases hp with hp | ⟨rfl, rfl⟩
    · exact hpool.exclusive i p hp
    · rw [hholds]
      constructor
      · intro hfalse
        cases hfalse
      · intro hholder
        exact (Nat.lt_irrefl _ (hpool.isThread _ hholder)).elim
  · intro i hi
    have hlt := hpool.isThread i hi
    simp only [List.length_append, List.length_singleton]
    omega
  · exact hpool.isLocked
  · exact hpool.resource

/-- A step of thread `i` from its place to the next, once its assertion there, the lock and the
resource are settled. `holder'` is the holder afterwards. The four kinds of operation differ
only in how they settle these. -/
theorem Followed.move (h : P.Discipline ok locked free here guar quiet)
    (hpool : P.Followed locked free here pool places holder) {i : Nat} {t : τ} {l l' : Λ}
    (hi : places[i]? = some (t, l)) {s' : σ} {holder' : Option Nat} (hguar : guar pool.shared s')
    (hhere : here t l' s') (hquiet : P.holds l = false → holder.isSome → quiet pool.shared s')
    (hself : P.holds l' = true ↔ holder' = some i)
    (hother : ∀ j, j ≠ i → (holder = some j ↔ holder' = some j))
    (hlocked : locked s' = holder'.isSome) (hfree : holder' = none → free s') :
    P.Followed locked free here ⟨s', pool.threads.set i (P.rest l')⟩ (places.set i (t, l'))
      holder' := by
  have hlt : i < places.length := (List.getElem?_eq_some_iff.mp hi).1
  have hcases : ∀ {j : Nat} {p : τ × Λ}, (places.set i (t, l'))[j]? = some p →
      j = i ∧ p = (t, l') ∨ j ≠ i ∧ places[j]? = some p := by
    intro j p hp
    by_cases hj : j = i
    · subst hj
      rw [List.getElem?_set_self hlt] at hp
      exact .inl ⟨rfl, (Option.some.inj hp).symm⟩
    · rw [List.getElem?_set_ne (Ne.symm hj)] at hp
      exact .inr ⟨hj, hp⟩
  constructor
  · simp [hpool.threads, List.map_set]
  · intro j p hp
    rcases hcases hp with ⟨rfl, rfl⟩ | ⟨hj, hp⟩
    · exact hhere
    · refine h.here_keep hguar (fun hholds => ?_) (hpool.asserted j p hp)
      -- Another thread holds the lock, so this one does not.
      have hholder := (hpool.exclusive j p hp).mp hholds
      refine hquiet ?_ (by rw [hholder]; rfl)
      cases hl : P.holds l with
      | false => rfl
      | true =>
          have hthis := (hpool.exclusive i (t, l) hi).mp hl
          rw [hthis] at hholder
          exact (hj (Option.some.inj hholder).symm).elim
  · intro j p hp
    rcases hcases hp with ⟨rfl, rfl⟩ | ⟨hj, hp⟩
    · exact hself
    · exact (hpool.exclusive j p hp).trans (hother j hj)
  · intro j hj
    rw [List.length_set]
    by_cases heq : j = i
    · exact heq ▸ hlt
    · exact hpool.isThread j ((hother j heq).mpr hj)
  · exact hlocked
  · exact hfree

/-- A thread performs its next operation. The cases are whether it holds the lock before and
after: that is what tells the four kinds of operation apart. -/
theorem Followed.perform (h : P.Discipline ok locked free here guar quiet)
    (hpool : P.Followed locked free here pool places holder) {i : Nat} {t : τ} {l : Λ}
    (hi : places[i]? = some (t, l)) {o : Op} {k : Reply o → Program Op Reply PUnit}
    (hrest : P.rest l = .perform o k) (hok : ok pool.shared o) (choice : χ) : ∃ holder',
      P.Followed locked free here ⟨(M.exec choice pool.shared o).2.1,
          pool.threads.set i (k (M.exec choice pool.shared o).1)⟩
        (places.set i (t, P.next l o (M.exec choice pool.shared o).1)) holder' := by
  have hexcl := hpool.exclusive i (t, l) hi
  have hhere := hpool.asserted i (t, l) hi
  rw [P.rest_next l o k _ hrest]
  cases hl : P.holds l with
  -- Outside the lock: it stays outside, or takes the lock.
  | false =>
      have hnot : holder ≠ some i := by
        intro hholder
        have htrue := hexcl.mpr hholder
        rw [hl] at htrue
        cases htrue
      cases hl' : P.holds (P.next l o (M.exec choice pool.shared o).1) with
      | false =>
          obtain ⟨hguar, hquiet, hhere'⟩ := h.outside hrest hok hhere hl hl'
          refine ⟨holder, hpool.move h hi hguar hhere' (fun _ _ => hquiet) ?_
            (fun _ _ => Iff.rfl) ?_ ?_⟩
          · rw [hl']
            exact iff_of_false Bool.false_ne_true hnot
          · rw [h.locked_quiet hquiet, hpool.isLocked]
          · intro hnone
            exact h.free_keep hguar hquiet (hpool.resource hnone)
      | true =>
          obtain ⟨hunlocked, hacquire⟩ := h.acquire hrest hok hhere hl hl'
          -- A lock that is taken was free, so nobody held it.
          have hnone : holder = none := by
            rw [hpool.isLocked] at hunlocked
            simpa using hunlocked
          obtain ⟨hguar, hlocked, hhere'⟩ := hacquire (hpool.resource hnone)
          refine ⟨some i, hpool.move h hi hguar hhere' ?_ ?_ ?_ hlocked (fun hno => by cases hno)⟩
          · intro _ hsome
            rw [hnone] at hsome
            cases hsome
          · exact iff_of_true hl' rfl
          · intro j hj
            rw [hnone]
            exact iff_of_false (fun hno => by cases hno) fun heq => hj (Option.some.inj heq).symm
  | true =>
      -- Inside: this thread is the holder, and keeps the lock or gives it back.
      have hholder : holder = some i := hexcl.mp hl
      have hquiet : P.holds l = false → holder.isSome →
          quiet pool.shared (M.exec choice pool.shared o).2.1 := by
        intro hfalse
        rw [hl] at hfalse
        cases hfalse
      cases hl' : P.holds (P.next l o (M.exec choice pool.shared o).1) with
      | true =>
          obtain ⟨hguar, hlocked, hhere'⟩ := h.inside hrest hok hhere hl hl'
          refine ⟨holder, hpool.move h hi hguar hhere' hquiet ?_ (fun _ _ => Iff.rfl) ?_ ?_⟩
          · exact iff_of_true hl' hholder
          · rw [hlocked, hpool.isLocked]
          · intro hnone
            rw [hholder] at hnone
            cases hnone
      | false =>
          obtain ⟨hguar, hlocked, hfree, hhere'⟩ := h.release hrest hok hhere hl hl'
          refine ⟨none, hpool.move h hi hguar hhere' hquiet ?_ ?_ hlocked fun _ => hfree⟩
          · rw [hl']
            exact iff_of_false Bool.false_ne_true fun hno => by cases hno
          · intro j hj
            rw [hholder]
            exact iff_of_false (fun heq => hj (Option.some.inj heq).symm) fun hno => by cases hno

end Steps

/-! ### Runs -/

variable (P) in
/-- Each request of the history has left its tag. -/
def Tagged (history : List (Visit (Pool Op Reply σ) (Input γ χ ι) ω)) (tags : List τ) : Prop :=
  ∀ v ∈ history, ∀ request, v.input = .spawn request → P.tag v.pre.shared request ∈ tags

/-- Tags are never lost, and a new request leaves its own. The other steps of a history start
nothing. -/
theorem Tagged.snoc {history : List (Visit (Pool Op Reply σ) (Input γ χ ι) ω)} {tags tags' : List τ}
    (h : P.Tagged history tags) (hsub : tags ⊆ tags') {v : Visit (Pool Op Reply σ) (Input γ χ ι) ω}
    (hnew : ∀ request, v.input = .spawn request → P.tag v.pre.shared request ∈ tags') :
    P.Tagged (history ++ [v]) tags' := by
  intro w hw request hrequest
  rcases List.mem_append.mp hw with hw | hw
  · exact hsub (h w hw request hrequest)
  · rw [List.mem_singleton.mp hw] at hrequest ⊢
    exact hnew request hrequest

/-- A thread that moves on keeps its tag, so the list of all tags does not change. -/
theorem map_fst_set {places : List (τ × Λ)} {i : Nat} {t : τ} {l : Λ}
    (hi : places[i]? = some (t, l)) (l' : Λ) :
    (places.set i (t, l')).map Prod.fst = places.map Prod.fst := by
  obtain ⟨hlt, hget⟩ := List.getElem?_eq_some_iff.mp hi
  have hlt' : i < (places.map Prod.fst).length := by rwa [List.length_map]
  have ht : (places.map Prod.fst)[i] = t := by rw [List.getElem_map, hget]
  calc (places.set i (t, l')).map Prod.fst
      = (places.map Prod.fst).set i t := List.map_set ..
    _ = (places.map Prod.fst).set i (places.map Prod.fst)[i] := by rw [ht]
    _ = places.map Prod.fst := List.set_getElem_self hlt'

/-- In every run whose operations satisfy `ok`, the threads are followed, and each request left
its tag with the thread it started. -/
theorem Discipline.followed (h : P.Discipline ok locked free here guar quiet) {init : σ}
    (hunlocked : locked init = false) (hinit : free init)
    {history : List (Visit (Pool Op Reply σ) (Input γ χ ι) ω)} {pool : Pool Op Reply σ}
    (hrun : M.Interleaving init history pool) (hok : ∀ v ∈ history, v.pre.Allows ok v.input) :
    ∃ places holder, P.Followed locked free here pool places holder ∧
      P.Tagged history (places.map Prod.fst) := by
  refine hrun.history (fun history pool => ∃ places holder,
    P.Followed locked free here pool places holder ∧ P.Tagged history (places.map Prod.fst))
    (fun pool input => pool.Allows ok input) ?_ ?_ hok
  · refine ⟨[], none, ⟨rfl, ?_, ?_, ?_, hunlocked, fun _ => hinit⟩, fun v hv => by cases hv⟩
    · intro i p hp
      cases hp
    · intro i p hp
      cases hp
    · intro i hi
      cases hi
  · rintro history pool input pool' outs - ⟨places, holder, hpool, htags⟩ hallowed hstep
    obtain rfl : (M.step pool input).1 = pool' := by rw [show M.step pool input = _ from hstep]
    -- One step of the pool is one of the three step lemmas.
    cases input with
    | env i =>
        refine ⟨places, holder, hpool.env h i, htags.snoc (List.Subset.refl _) ?_⟩
        intro request hrequest
        cases hrequest
    | spawn started =>
        refine ⟨_, holder, hpool.spawn h started, ?_⟩
        rw [List.map_append]
        refine htags.snoc (List.subset_append_left ..) ?_
        intro request hrequest
        cases hrequest
        exact List.mem_append_right _ (List.mem_singleton_self _)
    | perform i choice =>
        have hkept : P.Tagged (history ++ [⟨pool, .perform i choice, outs⟩])
            (places.map Prod.fst) := by
          refine htags.snoc (List.Subset.refl _) ?_
          intro request hrequest
          cases hrequest
        unfold Machine.step
        dsimp only
        split
        · rename_i o k hthread
          have hplace := hthread
          rw [hpool.threads, List.getElem?_map, Option.map_eq_some_iff] at hplace
          obtain ⟨⟨t, l⟩, hi, hrest⟩ := hplace
          have hoko : ok pool.shared o := hallowed o (by rw [Pool.nextOp, hthread]; rfl)
          obtain ⟨holder', hpool'⟩ := hpool.perform h hi hrest hoko choice
          refine ⟨_, holder', hpool', ?_⟩
          rw [map_fst_set hi]
          exact hkept
        · exact ⟨places, holder, hpool, hkept⟩

end Outline

end Concurrent
