import Mathlib.Algebra.Ring.Int.Defs
import Mathlib.Algebra.Ring.Nat
import Y2Skk.Lib.Outcome

/-!
# `Y2Skk.Lib.Text`: strings addressed by byte offset

A string is its list of characters. Positions in it are byte offsets of its UTF-8
encoding, so a position is usable only when it falls between two characters. This is how
languages whose strings are byte arrays with an encoding invariant address them: an offset
inside a character is not a wrong answer but a panic.

## One partial operation

`splitAtByte` is the one partial operation, and every slice and every edit at an offset
goes through it. `IsBoundary s n` says that it succeeds, and `splitAtByte_append`
evaluates it at the length of a known prefix. A proof about a cursor therefore never
computes with offsets: it writes the string as what stands before the cursor and what
stands after it, and the offset is the length of the first part.

## What the operations return

`splitAt`, `sliceTo`, `sliceFrom`, `insertStr`, `removeAt`, `truncate` are the operations
under their names in the standard library of the source language. Each of them has one
simp lemma, its value at the length of a prefix (`sliceTo_append`, `insertStr_append` and
so on), and `lastCharIndex` gives the offset at which the last character starts.
-/

set_option autoImplicit false

namespace Utf8

open Outcome

/-- A string, as its characters. The encoding is not stored: it is determined by the characters,
and `byteLen` is all a program can observe of it. -/
abbrev Str := List Char

/-- Comparing strings with `==` is comparing them. -/
instance : LawfulBEq Str := inferInstance

/-- The length in bytes (`str::len`), between one and four for each character. -/
def byteLen (s : Str) : Nat := (s.map Char.utf8Size).sum

/-- The two halves of `s` around the byte offset `n`, when `n` is a character boundary of `s`.
The recursion spends the bytes of the first character, and fails when the offset lies inside it
or past the end. -/
def splitAtByte : Str → Nat → Option (Str × Str)
  | s, 0 => some ([], s)
  | [], _ + 1 => none
  | c :: s, n + 1 =>
      if c.utf8Size ≤ n + 1 then
        (splitAtByte s (n + 1 - c.utf8Size)).map fun p => (c :: p.1, p.2)
      else none

/-- `n` falls between two characters of `s`, or at one of its ends (`str::is_char_boundary`). -/
def IsBoundary (s : Str) (n : Nat) : Prop := ∃ a b, s = a ++ b ∧ byteLen a = n

section Length

/-- The empty string has no bytes. -/
@[simp] theorem byteLen_nil : byteLen [] = 0 := rfl

/-- A first character adds its own bytes. -/
@[simp] theorem byteLen_cons (c : Char) (s : Str) :
    byteLen (c :: s) = c.utf8Size + byteLen s := by
  simp [byteLen]

/-- The bytes of two strings add up. With this the offset of a cursor is computed from the parts
of the string around it. -/
@[simp] theorem byteLen_append (s t : Str) : byteLen (s ++ t) = byteLen s + byteLen t := by
  simp [byteLen]

end Length

section Split

/-- The offset `0` is always a boundary: nothing stands before it. -/
@[simp] theorem splitAtByte_zero (s : Str) : splitAtByte s 0 = some ([], s) := by
  cases s <;> rfl

/-- At the length of a prefix, the split returns that prefix and the rest. Every evaluation of a
slice or an edit comes down to this equation. -/
@[simp] theorem splitAtByte_append (a b : Str) :
    splitAtByte (a ++ b) (byteLen a) = some (a, b) := by
  induction a with
  | nil => simp
  | cons c a ih =>
      have hc := c.utf8Size_pos
      obtain ⟨n, hn⟩ : ∃ n, byteLen (c :: a) = n + 1 :=
        ⟨byteLen (c :: a) - 1, by rw [byteLen_cons]; omega⟩
      have hle : c.utf8Size ≤ n + 1 := by rw [← hn, byteLen_cons]; omega
      have hrest : n + 1 - c.utf8Size = byteLen a := by rw [← hn, byteLen_cons]; omega
      rw [hn, List.cons_append, splitAtByte, if_pos hle, hrest, ih]
      rfl

/-- The two halves make up the string: a split loses nothing and invents nothing. -/
theorem append_of_splitAtByte {s a b : Str} {n : Nat} (h : splitAtByte s n = some (a, b)) :
    a ++ b = s := by
  induction s generalizing n a with
  | nil =>
      cases n with
      | zero =>
          rw [splitAtByte_zero] at h
          cases h
          rfl
      | succ n => cases h
  | cons c s ih =>
      cases n with
      | zero =>
          rw [splitAtByte_zero] at h
          cases h
          rfl
      | succ n =>
          rw [splitAtByte] at h
          split at h
          · obtain ⟨p, hp, heq⟩ := Option.map_eq_some_iff.mp h
            cases heq
            rw [List.cons_append, ih hp]
          · cases h

/-- The length of a prefix is a boundary. -/
theorem isBoundary_append (a b : Str) : IsBoundary (a ++ b) (byteLen a) := ⟨a, b, rfl, rfl⟩

/-- The start of a string is a boundary. -/
@[simp] theorem isBoundary_zero (s : Str) : IsBoundary s 0 := ⟨[], s, rfl, rfl⟩

/-- The end of a string is a boundary. -/
@[simp] theorem isBoundary_byteLen (s : Str) : IsBoundary s (byteLen s) :=
  ⟨s, [], by simp, rfl⟩

/-- A boundary does not lie past the end. -/
theorem IsBoundary.le {s : Str} {n : Nat} (h : IsBoundary s n) : n ≤ byteLen s := by
  obtain ⟨a, b, rfl, rfl⟩ := h
  simp

end Split

/-! ### The partial operations -/

/-- `s.split_at(n)`; the source of every slice and edit below. An offset that is no boundary
panics. -/
def splitAt (s : Str) (n : Nat) : Partial (Str × Str) :=
  match splitAtByte s n with
  | some p => .ok p
  | none => .error .slice

/-- `&s[..n]`, up to a character boundary. -/
def sliceTo (s : Str) (n : Nat) : Partial Str := do return (← splitAt s n).1

/-- `&s[n..]`, from a character boundary. -/
def sliceFrom (s : Str) (n : Nat) : Partial Str := do return (← splitAt s n).2

/-- `s.insert_str(n, t)`: the text `t` goes between the two characters around the offset `n`. -/
def insertStr (s : Str) (n : Nat) (t : Str) : Partial Str := do
  let (before, after) ← splitAt s n
  return before ++ t ++ after

/-- `s.remove(n)`: drops the character that starts at the offset `n`. The end of the string is a
boundary at which no character starts, so it panics there. -/
def removeAt (s : Str) (n : Nat) : Partial Str := do
  let (before, after) ← splitAt s n
  match after with
  | _ :: rest => return before ++ rest
  | [] => .error .slice

/-- `s.truncate(n)`: does nothing when `n` is past the end, and panics inside a character. -/
def truncate (s : Str) (n : Nat) : Partial Str :=
  if n ≤ byteLen s then sliceTo s n else .ok s

/-- `s.char_indices().next_back()`: the last character and the offset it starts at. -/
def lastCharIndex (s : Str) : Option (Nat × Char) :=
  s.getLast?.map fun c => (byteLen s.dropLast, c)

section Operations

variable (a b : Str)

/-- At the length of a prefix the split is that prefix and the rest. -/
@[simp] theorem splitAt_append : splitAt (a ++ b) (byteLen a) = .ok (a, b) := by
  simp [splitAt]

/-- The slice up to the length of a prefix is the prefix. -/
@[simp] theorem sliceTo_append : sliceTo (a ++ b) (byteLen a) = .ok a := by
  simp [sliceTo, pure, Except.pure]

/-- The slice from the length of a prefix is the rest. -/
@[simp] theorem sliceFrom_append : sliceFrom (a ++ b) (byteLen a) = .ok b := by
  simp [sliceFrom, pure, Except.pure]

/-- An insertion at the length of a prefix goes between the prefix and the rest. -/
@[simp] theorem insertStr_append (t : Str) :
    insertStr (a ++ b) (byteLen a) t = .ok (a ++ t ++ b) := by
  simp [insertStr, pure, Except.pure]

/-- A removal at the length of a prefix drops the first character of the rest. -/
@[simp] theorem removeAt_append (c : Char) : removeAt (a ++ c :: b) (byteLen a) = .ok (a ++ b) := by
  simp [removeAt, pure, Except.pure]

/-- A cut at the length of a prefix leaves the prefix. -/
@[simp] theorem truncate_append : truncate (a ++ b) (byteLen a) = .ok a := by
  simp [truncate]

/-- Cutting the last character off, by the offset at which it starts. -/
theorem truncate_getLast {s : Str} {c : Char} (h : s.getLast? = some c) :
    truncate s (byteLen s - c.utf8Size) = .ok s.dropLast := by
  obtain ⟨t, rfl⟩ := List.getLast?_eq_some_iff.mp h
  simp

/-- The last character starts where the text before it ends. -/
@[simp] theorem lastCharIndex_append_singleton (c : Char) :
    lastCharIndex (a ++ [c]) = some (byteLen a, c) := by
  simp [lastCharIndex]

end Operations

end Utf8
