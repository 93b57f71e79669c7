import Mathlib.Data.List.Basic

/-!
# `Y2Skk.Lib.Layers`: rules that replace rules

Rules have keys, and the first rule with a key is the one in effect. A base set of rules
and a set of the user's are merged: `override key base user` drops the rules of `base`
whose key `user` has, and puts the rules of `user` after the rest. A program does this
with loops that delete and append; what is wanted of it is one statement about lookups.

* `foldl_retain`: the loop that removes the replaced rules one key at a time, as one
  filter.
* `ruleFor_override`: for every key, the rule of `user` is in effect, else the one of
  `base`. Which list comes first, and how often a key occurs in it, does not matter.
* `lookup_foldr_insert`: the same for two maps, one inserted into the other.

The two facts behind `ruleFor_override` are that a key of `user` finds nothing in what was
kept (`ruleFor_dropped`), and that any other key finds what it found before
(`ruleFor_kept`).
-/

set_option autoImplicit false

namespace Layers

universe u v

section Rules
variable {ρ : Type u} {κ : Type v} [DecidableEq κ]

/-- The rule in effect for a key: the first one that has it. -/
def ruleFor (key : ρ → κ) (rules : List ρ) (k : κ) : Option ρ :=
  rules.find? fun r => key r = k

/-- The rules of `base` that `user` does not replace, then those of `user`. -/
def override (key : ρ → κ) (base user : List ρ) : List ρ :=
  (base.filter fun r => !user.any fun u => key u = key r) ++ user

/-- Removing the replaced rules one key of `user` at a time is one filter over `base`. The order
of the keys is irrelevant, and so is a key that `user` has twice. -/
theorem foldl_retain (key : ρ → κ) (user : List ρ) : ∀ base : List ρ,
    user.foldl (fun rules u => rules.filter fun r => !decide (key r = key u)) base =
      base.filter fun r => !user.any fun u => key u = key r := by
  induction user with
  | nil => simp
  | cons u user ih =>
      intro base
      rw [List.foldl_cons, ih, List.filter_filter]
      refine List.filter_congr fun r _ => ?_
      rw [List.any_cons]
      by_cases hkey : key r = key u
      · simp [hkey]
      · have hkey' : ¬ key u = key r := fun h => hkey h.symm
        simp [hkey, hkey']

/-- A lookup in two lists is one in the first, then in the second. -/
theorem ruleFor_append (key : ρ → κ) (xs ys : List ρ) (k : κ) :
    ruleFor key (xs ++ ys) k = (ruleFor key xs k).or (ruleFor key ys k) := List.find?_append

/-- A key that `user` does not have is looked up in what was kept of `base`, and finds what it
found in `base`. -/
theorem ruleFor_kept {key : ρ → κ} {user : List ρ} {k : κ} (h : ruleFor key user k = none)
    (base : List ρ) :
    ruleFor key (base.filter fun r => !user.any fun u => key u = key r) k = ruleFor key base k := by
  have hnone : ∀ u ∈ user, key u ≠ k := by
    intro u hu
    have hu' := List.find?_eq_none.mp h u hu
    simpa using hu'
  induction base with
  | nil => rfl
  | cons r base ih =>
      by_cases hr : key r = k
      · -- The rule is kept, since no rule of `user` has its key.
        have hkept : (!user.any fun u => key u = key r) = true := by
          rw [Bool.not_eq_true', List.any_eq_false]
          intro u hu
          rw [hr]
          simpa using hnone u hu
        rw [List.filter_cons, if_pos hkept]
        simp [ruleFor, hr]
      · have hskip : ruleFor key (r :: base) k = ruleFor key base k := by simp [ruleFor, hr]
        rw [hskip, List.filter_cons]
        split
        · rw [← ih]
          simp [ruleFor, hr]
        · exact ih

/-- A key that `user` has is not in what was kept of `base`, so the rule that is found for it is
the user's. -/
theorem ruleFor_dropped {key : ρ → κ} {user : List ρ} {k : κ} {u : ρ}
    (h : ruleFor key user k = some u) (base : List ρ) :
    ruleFor key (base.filter fun r => !user.any fun u => key u = key r) k = none := by
  have hkey : key u = k := by simpa using List.find?_some h
  refine List.find?_eq_none.mpr fun r hr => ?_
  have hkept := (List.mem_filter.mp hr).2
  rw [Bool.not_eq_true', List.any_eq_false] at hkept
  have hother := hkept u (List.mem_of_find?_eq_some h)
  rw [hkey] at hother
  intro hr'
  exact hother (by simpa using (of_decide_eq_true hr').symm)

/-- The rule of `user` is in effect when there is one, else the rule of `base`. -/
theorem ruleFor_override (key : ρ → κ) (base user : List ρ) (k : κ) :
    ruleFor key (override key base user) k =
      (ruleFor key user k).or (ruleFor key base k) := by
  rw [override, ruleFor_append]
  -- Whether `user` has the key decides which half the rule comes from.
  cases huser : ruleFor key user k with
  | none => rw [ruleFor_kept huser, Option.or_none, Option.none_or]
  | some u => rw [ruleFor_dropped huser, Option.none_or, Option.some_or]

end Rules

section Maps
variable {κ : Type u} {α : Type v} [BEq κ]

/-- Insertion into a map given as the list of its entries. The old entry of the key goes, so the
list has no key twice if it had none before. -/
def insert (entries : List (κ × α)) (k : κ) (a : α) : List (κ × α) :=
  (k, a) :: entries.filter fun e => e.1 != k

variable [LawfulBEq κ]

/-- The inserted key finds its new value. -/
theorem lookup_insert_self (entries : List (κ × α)) (k : κ) (a : α) :
    (insert entries k a).lookup k = some a := by
  rw [insert, List.lookup_cons, beq_self_eq_true]

/-- Another key finds what it found before: an insertion removes the entries of its own key
only. -/
theorem lookup_insert_of_ne (entries : List (κ × α)) {k k' : κ} (hk : k' ≠ k) (a : α) :
    (insert entries k a).lookup k' = entries.lookup k' := by
  rw [insert, List.lookup_cons, beq_false_of_ne hk]
  dsimp only
  induction entries with
  | nil => rfl
  | cons e entries ih =>
      obtain ⟨ke, ae⟩ := e
      rw [List.lookup_cons, List.filter_cons]
      by_cases he : ke = k
      · rw [if_neg (by simp [he]), ih, he, beq_false_of_ne hk]
      · rw [if_pos (by simp [he]), List.lookup_cons, ih]

/-- One map inserted into another: the inserted entries win, and the others stay. Of several
entries with one key the first counts, as in a lookup. -/
theorem lookup_foldr_insert (base user : List (κ × α)) (k : κ) :
    (user.foldr (fun e entries => insert entries e.1 e.2) base).lookup k =
      (user.lookup k).or (base.lookup k) := by
  induction user with
  | nil => rfl
  | cons e user ih =>
      obtain ⟨ke, ae⟩ := e
      rw [List.foldr_cons, List.lookup_cons]
      by_cases hk : k = ke
      · rw [hk, lookup_insert_self, beq_self_eq_true]
        rfl
      · rw [lookup_insert_of_ne _ hk, ih, beq_false_of_ne hk]

end Maps

end Layers
