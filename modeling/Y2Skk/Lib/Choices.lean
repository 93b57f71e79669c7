import Mathlib.Data.List.Forall2
import Mathlib.Data.List.Lex
import Mathlib.Data.List.Perm.Basic

/-!
# `Y2Skk.Lib.Choices`: one choice at each of several places

Several places are filled, each from a list of its own, and the results are wanted in a
fixed order and only up to some number. This is what an expansion of a template with
several holes does, or any enumeration of a product. What such a program computes is a
nested loop with a stop in it; what is to be said about it is which choices come out, in
which order, and that the stop loses none that would have been among the first.

## The reference order

`positions ns` lists the ways to choose a number below each bound of `ns`, the last place
varying fastest. It has every choice, in lexicographic order (`mem_positions`,
`pairwise_positions`), and `eq_positions` says that no other list does. So a list with
these two properties is the reference, however it was computed. `flatMap_eq_flatMap_range`
goes from the elements of a list to their positions, and so brings an enumeration of
elements to this form.

## Cutting off early

`take_flatMap_take` is about cutting a product off. When every element fans out to
something, the first `n` elements already have the first `n` elements of the product, so
the product may be cut off at each place and not only at the end. An element that fans out
to nothing would break this, since it takes up one of the first `n` without adding to the
product.
-/

set_option autoImplicit false

namespace Choices

/-- The choices of a number below each bound, in lexicographic order. Without a place to fill
there is one choice, the empty one; with a bound of zero there is none. -/
def positions : List Nat → List (List Nat)
  | [] => [[]]
  | n :: ns => (List.range n).flatMap fun i => (positions ns).map (i :: ·)

/-- Every choice is listed, and nothing else: the members are the lists with one number below
each bound. -/
theorem mem_positions {ns v : List Nat} :
    v ∈ positions ns ↔ List.Forall₂ (· < ·) v ns := by
  induction ns generalizing v with
  | nil => rw [positions, List.mem_singleton, List.forall₂_nil_right_iff]
  | cons n ns ih =>
      rw [positions, List.mem_flatMap]
      constructor
      · rintro ⟨i, hi, hv⟩
        obtain ⟨w, hw, rfl⟩ := List.mem_map.mp hv
        exact .cons (List.mem_range.mp hi) (ih.mp hw)
      · intro hv
        cases hv with
        | cons hi hw =>
            exact ⟨_, List.mem_range.mpr hi, List.mem_map.mpr ⟨_, ih.mpr hw, rfl⟩⟩

/-- The choices come in lexicographic order, none twice. The order is strict, so distinctness is
part of the statement. -/
theorem pairwise_positions (ns : List Nat) : (positions ns).Pairwise (List.Lex (· < ·)) := by
  induction ns with
  | nil => exact List.pairwise_singleton _ _
  | cons n ns ih =>
      rw [positions, List.pairwise_flatMap]
      constructor
      · intro i _
        exact ih.map _ fun v w h => .cons h
      · refine List.pairwise_lt_range.imp fun {i j} hij v hv w hw => ?_
        obtain ⟨v, -, rfl⟩ := List.mem_map.mp hv
        obtain ⟨w, -, rfl⟩ := List.mem_map.mp hw
        exact .rel hij

/-- The order leaves no choice: a list that has exactly the choices, sorted, is `positions`. The
proof goes through permutations, because two sorted lists with the same members are one list. -/
theorem eq_positions {ns : List Nat} {vs : List (List Nat)}
    (hmem : ∀ v, v ∈ vs ↔ List.Forall₂ (· < ·) v ns)
    (hsorted : vs.Pairwise (List.Lex (· < ·))) : vs = positions ns := by
  have hasymm : ∀ v w : List Nat, List.Lex (· < ·) v w → ¬ List.Lex (· < ·) w v :=
    fun v w => Std.Asymm.asymm v w
  have hnodup : ∀ us : List (List Nat), us.Pairwise (List.Lex (· < ·)) → us.Nodup := by
    intro us hus
    refine hus.imp fun {v w} hlt heq => ?_
    rw [heq] at hlt
    exact hasymm w w hlt hlt
  -- The two lists have the same members, none twice, so one is the other rearranged.
  have hperm : vs.Perm (positions ns) := by
    rw [List.perm_ext_iff_of_nodup (hnodup vs hsorted) (hnodup _ (pairwise_positions ns))]
    intro v
    rw [hmem, mem_positions]
  exact hperm.eq_of_pairwise (fun v w _ _ hvw hwv => (hasymm v w hvw hwv).elim) hsorted
    (pairwise_positions ns)

/-- Choosing an element is choosing its position. The default is never used, since every
position is inside the list. -/
theorem flatMap_eq_flatMap_range {α β : Type} (l : List α) (d : α) (f : α → List β) :
    l.flatMap f = (List.range l.length).flatMap fun i => f (l[i]?.getD d) := by
  have hl : (List.range l.length).map (fun i => l[i]?.getD d) = l := by
    refine List.ext_getElem (by simp) ?_
    intro i _ hi
    simp [hi]
  conv_lhs => rw [← hl, List.flatMap_map]

/-- A product may be cut off before its last place: the elements past the first `n` cannot
contribute to the first `n` results when each of the first `n` elements contributes one. -/
theorem take_flatMap_take {α β : Type} (n : Nat) (l : List α) {f : α → List β}
    (hf : ∀ a ∈ l, f a ≠ []) : ((l.take n).flatMap f).take n = (l.flatMap f).take n := by
  -- A product is at least as long as the list it fans out from.
  have hlong : ∀ l : List α, (∀ a ∈ l, f a ≠ []) → l.length ≤ (l.flatMap f).length := by
    intro l
    induction l with
    | nil => intro _; simp
    | cons a l ih =>
        intro hl
        have hhead : 0 < (f a).length := List.length_pos_of_ne_nil (hl a List.mem_cons_self)
        have htail := ih fun b hb => hl b (List.mem_cons_of_mem _ hb)
        rw [List.flatMap_cons, List.length_append, List.length_cons]
        omega
  -- Either nothing was cut off, or the elements that were kept fill the product up.
  rcases Nat.lt_or_ge l.length n with hshort | hcut
  · rw [List.take_of_length_le (Nat.le_of_lt hshort)]
  · have hle := hlong (l.take n) fun a ha => hf a (List.mem_of_mem_take ha)
    rw [List.length_take, Nat.min_eq_left hcut] at hle
    conv_rhs => rw [← List.take_append_drop n l, List.flatMap_append]
    rw [List.take_append_of_le_length hle]

end Choices
