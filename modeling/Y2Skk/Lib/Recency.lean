import Mathlib.Data.List.Nodup
import Mathlib.Tactic.Common

/-!
# `Y2Skk.Lib.Recency`: what a history of events says about recency

"Most recently used first" is a statement about the past, and a program keeps a list
instead of the past. This library says what such a list has to be, from the history alone,
and how it follows the history one event at a time.

## The operator since

A history is a list of events, oldest first. `Since p q h` is the past-time operator
"since": `q` happened in `h`, and every event after it satisfies `p`. `since_snoc` is its
unfolding at the newest event, and the only law about it that an induction over a history
needs.

## Lists by last use

Events touch keys. `Later` orders keys by the last event that touched them, and
`LastFirst` says of a list that it names the live keys, each once, the last touched one
first. Which keys are live is a parameter, since keys also disappear, and not only by
being touched. The rules `LastFirst.touch` and `LastFirst.keep` say how such a list
follows one more event, `LastFirst.skip` that an event about other keys leaves it alone,
and `LastFirst.restrict` how it follows a selection.
-/

set_option autoImplicit false

namespace Recency

universe u v

variable {ε : Type u} {κ : Type v}

/-- `q` happened, and every event since then satisfies `p`. The witness need not be the last
event that satisfies `q`. -/
def Since (p q : ε → Prop) (h : List ε) : Prop :=
  ∃ before e after, h = before ++ e :: after ∧ q e ∧ ∀ x ∈ after, p x

/-- In the empty history nothing has happened. -/
@[simp] theorem not_since_nil (p q : ε → Prop) : ¬ Since p q [] := by
  rintro ⟨before, e, after, heq, -, -⟩
  simp at heq

/-- The newest event is the one that happened, or it comes after it. This is the fixpoint
equation of the operator, read from the end of the history. -/
theorem since_snoc {p q : ε → Prop} {h : List ε} {e : ε} :
    Since p q (h ++ [e]) ↔ q e ∨ p e ∧ Since p q h := by
  constructor
  · rintro ⟨before, x, after, heq, hx, hafter⟩
    -- Either nothing came after the witness, or the newest event did.
    rcases List.eq_nil_or_concat after with rfl | ⟨after, last, rfl⟩
    · have hlast : e = x := by simpa using congrArg List.getLast? heq
      exact .inl (hlast ▸ hx)
    · rw [List.concat_eq_append, ← List.cons_append, ← List.append_assoc] at heq
      obtain ⟨rfl, hlast⟩ := List.append_inj' heq rfl
      have hpe : p e := by
        rw [List.singleton_inj.mp hlast]
        exact hafter last (by simp)
      exact .inr ⟨hpe, before, x, after, rfl, hx, fun y hy => hafter y (by simp [hy])⟩
  · rintro (hqe | ⟨hpe, before, x, after, rfl, hx, hafter⟩)
    · exact ⟨h, e, [], rfl, hqe, by simp⟩
    · refine ⟨before, x, after ++ [e], by simp, hx, ?_⟩
      intro y hy
      rcases List.mem_append.mp hy with hy | hy
      · exact hafter y hy
      · rwa [List.mem_singleton.mp hy]

variable (touches : κ → ε → Prop)

/-- `a` was touched, and `b` was not touched since: the last use of `a` is later than that of
`b`, if `b` was used at all. -/
def Later (h : List ε) (a b : κ) : Prop := Since (fun e => ¬ touches b e) (touches a) h

/-- The list names the keys of `live`, each once, the last touched first. -/
structure LastFirst (live : κ → Prop) (h : List ε) (l : List κ) : Prop where
  mem : ∀ k, k ∈ l ↔ live k
  nodup : l.Nodup
  later : l.Pairwise (Later touches h)

variable {touches} {live live' : κ → Prop} {h : List ε} {e : ε} {l : List κ}

/-- Without a live key the list is empty. -/
theorem LastFirst.nil (hlive : ∀ k, ¬ live k) : LastFirst touches live h [] where
  mem k := by simp [hlive k]
  nodup := List.nodup_nil
  later := List.Pairwise.nil

/-- An event that touches one key brings it to the front, whether it was in the list or not. -/
theorem LastFirst.touch [DecidableEq κ] (hl : LastFirst touches live h l) {k : κ}
    (htouch : ∀ k', touches k' e ↔ k' = k) (hlive : ∀ k', live' k' ↔ k' = k ∨ live k') :
    LastFirst touches live' (h ++ [e]) (k :: l.filter fun k' => k' ≠ k) where
  mem k' := by
    rw [hlive, ← hl.mem]
    by_cases hk : k' = k <;> simp [hk]
  nodup := by
    rw [List.nodup_cons]
    exact ⟨by simp, hl.nodup.filter _⟩
  later := by
    rw [List.pairwise_cons]
    constructor
    · intro k' _
      exact since_snoc.mpr (.inl ((htouch k).mpr rfl))
    · refine (hl.later.filter _).imp_of_mem ?_
      intro a b _ hb hlater
      -- The other keys are not touched, and keep their order.
      have hne : b ≠ k := by simpa using (List.mem_filter.mp hb).2
      exact since_snoc.mpr (.inr ⟨fun htouched => hne ((htouch b).mp htouched), hlater⟩)

/-- An event that touches no key keeps the order of those that stay. Keys may cease to be live
with it, as when an entry is deleted. -/
theorem LastFirst.keep (hl : LastFirst touches live h l) (keep : κ → Bool)
    (htouch : ∀ k, ¬ touches k e) (hlive : ∀ k, live' k ↔ live k ∧ keep k = true) :
    LastFirst touches live' (h ++ [e]) (l.filter keep) where
  mem k := by rw [hlive, List.mem_filter, hl.mem]
  nodup := hl.nodup.filter keep
  later := by
    refine (hl.later.filter keep).imp ?_
    intro a b hlater
    exact since_snoc.mpr (.inr ⟨htouch b, hlater⟩)

/-- An event that has to do with none of the keys leaves the list as it is. -/
theorem LastFirst.skip (hl : LastFirst touches live h l) (htouch : ∀ k, ¬ touches k e)
    (hlive : ∀ k, live' k ↔ live k) : LastFirst touches live' (h ++ [e]) l := by
  have hall : LastFirst touches live' (h ++ [e]) (l.filter fun _ => true) :=
    hl.keep (fun _ => true) htouch (by simp [hlive])
  rwa [List.filter_true] at hall

/-- A part of the keys, at the same point of the history: the order is that of the whole
list. -/
theorem LastFirst.restrict (hl : LastFirst touches live h l) (keep : κ → Bool)
    (hlive : ∀ k, live' k ↔ live k ∧ keep k = true) :
    LastFirst touches live' h (l.filter keep) where
  mem k := by rw [hlive, List.mem_filter, hl.mem]
  nodup := hl.nodup.filter keep
  later := hl.later.filter keep

end Recency
