import Mathlib.Data.List.Nodup
import Mathlib.Tactic.Common

/-!
# `Y2Skk.Lib.Regroup`: what grouping does to an insertion order

A program keeps keys in the order in which they were added, and a file format writes them
in two sections. When the file is read again, the keys stand in the order of their first
occurrence in the file, and the question is what is left of the original order.

Keys that are collected one by one stand in the order of their first occurrence
(`collect`). When a list of keys is written in two groups, first those that satisfy `p`
and then those that satisfy `q`, collecting them again keeps the order inside a group
only:

* `collect_groups`: the collected keys are the list with its `p` part first;
* `regrouped_eq_self_iff`: this is the list itself exactly when no key outside `p` comes
  before one inside.

A key may be written several times in a row, once for each of its lines, and may be in
both groups; it is collected where it occurs first.
-/

set_option autoImplicit false

namespace Regroup

universe u

variable {κ : Type u}

/-! ### Collecting -/

section Collect
variable [DecidableEq κ]

/-- Appends a key that is new. -/
def push (keys : List κ) (k : κ) : List κ := if k ∈ keys then keys else keys ++ [k]

/-- Appends the keys of `l` that are new, in their order. This is how a reader builds an
insertion order from a stream of keys. -/
def collect (keys l : List κ) : List κ := l.foldl push keys

/-- Two lists are collected one after the other. -/
theorem collect_append (keys l l' : List κ) :
    collect keys (l ++ l') = collect (collect keys l) l' := List.foldl_append

/-- A run of one key counts once, and an empty run does not count. -/
theorem collect_replicate (keys : List κ) (n : Nat) (k : κ) :
    collect keys (List.replicate n k) = if n = 0 then keys else push keys k := by
  induction n generalizing keys with
  | zero => rfl
  | succ n ih =>
      have hagain : push (push keys k) k = push keys k := by
        unfold push
        by_cases hk : k ∈ keys <;> simp [hk]
      show collect (push keys k) (List.replicate n k) = _
      rw [ih, hagain]
      simp

/-- Runs of distinct keys: each key is appended where its run is, unless it was there or its run
is empty. -/
theorem collect_runs (n : κ → Nat) {l : List κ} (hl : l.Nodup) (keys : List κ) :
    collect keys (l.flatMap fun k => List.replicate (n k) k)
      = keys ++ l.filter fun k => decide (n k ≠ 0) && decide (k ∉ keys) := by
  induction l generalizing keys with
  | nil => simp [collect]
  | cons k l ih =>
      obtain ⟨hk, hl⟩ := List.nodup_cons.mp hl
      rw [List.flatMap_cons, collect_append, collect_replicate, ih hl]
      by_cases hn : n k = 0
      · simp [hn]
      by_cases hmem : k ∈ keys
      · simp [hn, hmem, push]
      · -- The keys behind `k` are other keys, so the new one does not concern them.
        have hrest : ∀ k' ∈ l, (decide (n k' ≠ 0) && decide (k' ∉ keys ++ [k]))
            = (decide (n k' ≠ 0) && decide (k' ∉ keys)) := by
          intro k' hk'
          have hne : k' ≠ k := fun heq => hk (heq ▸ hk')
          simp [hne]
        rw [if_neg hn, push, if_neg hmem, List.filter_congr hrest]
        simp [hn, hmem]

/-- Two groups of the same keys: first the keys of the first group, then those of the second
that are not in the first. -/
theorem collect_groups (n m : κ → Nat) {l : List κ} (hl : l.Nodup) :
    collect [] ((l.flatMap fun k => List.replicate (n k) k)
        ++ l.flatMap fun k => List.replicate (m k) k)
      = l.filter (fun k => decide (n k ≠ 0))
        ++ l.filter fun k => decide (m k ≠ 0) && decide (n k = 0) := by
  rw [collect_append, collect_runs n hl, collect_runs m hl, List.nil_append]
  -- Nothing was collected before the first group, so no key of it is dropped.
  have hfirst : (l.filter fun k => decide (n k ≠ 0) && decide (k ∉ ([] : List κ)))
      = l.filter fun k => decide (n k ≠ 0) := by simp
  rw [hfirst]
  congr 1
  refine List.filter_congr fun k hk => ?_
  simp [hk]

end Collect

/-! ### The order -/

/-- The keys that satisfy `p` before the others, each part in its old order. -/
def regrouped (p : κ → Bool) (l : List κ) : List κ := l.filter p ++ l.filter fun k => !p k

/-- Regrouping changes nothing exactly when the groups are in order: a key before one that
satisfies `p` satisfies it too. -/
theorem regrouped_eq_self_iff (p : κ → Bool) (l : List κ) :
    regrouped p l = l ↔ l.Pairwise fun a b => p b → p a := by
  constructor
  · intro h
    rw [← h, regrouped, List.pairwise_append]
    refine ⟨List.pairwise_iff_forall_sublist.mpr ?_, List.pairwise_iff_forall_sublist.mpr ?_, ?_⟩
    · intro a b hsub _
      exact (List.mem_filter.mp (hsub.subset (by simp))).2
    · intro a b hsub hb
      have hnot := (List.mem_filter.mp (hsub.subset (show b ∈ [a, b] by simp))).2
      simp [hb] at hnot
    · intro a ha b hb hpb
      exact (List.mem_filter.mp ha).2
  · intro h
    induction l with
    | nil => rfl
    | cons k l ih =>
        obtain ⟨hk, hl⟩ := List.pairwise_cons.mp h
        unfold regrouped at ih ⊢
        by_cases hp : p k
        · simp [hp, ih hl]
        · -- Then no later key satisfies `p`.
          have hnone : l.filter p = [] := by
            refine List.filter_eq_nil_iff.mpr fun b hb hpb => ?_
            exact hp (hk b hb hpb)
          have hall : l.filter (fun k => !p k) = l := by
            simpa [hnone] using ih hl
          simp [hp, hnone, hall]

end Regroup
