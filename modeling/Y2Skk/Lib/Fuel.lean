import Y2Skk.Lib.Text

/-!
# `Y2Skk.Lib.Fuel`: computations that come to an end

A recursion that the source does not bound takes fuel in the model, and running out of it
is an outcome of its own, `stackOverflow`. The model is then a total function of the fuel,
and the question whether the program terminates becomes a theorem: with the right fuel,
that outcome does not occur.

`Ends x` says so of a computation: it returns, or one of its partial operations is
undefined. It is deliberately weaker than `Runs`, so that termination can be proved
without proving the absence of panics, and by rules that need no assertion about
intermediate values (`Ends.bind` quantifies over all of them).

The rules follow the program text (`Ends.bind`, `Ends.ite`, `Ends.foldlM`), and no
operation of the libraries runs out of fuel: the lemmas at the end say it once for each of
them, as simp lemmas, and a proof about a handler then has nothing left but its recursive
calls.
-/

set_option autoImplicit false

namespace Outcome

universe u v

section Rules
variable {α : Type u} {β : Type u}

/-- The computation does not run out of fuel. It may still panic for another reason: that is the
business of `Runs`. -/
def Ends (x : Partial α) : Prop := x ≠ .error .stackOverflow

/-- A value is an end. -/
@[simp] theorem ends_ok (a : α) : Ends (.ok a) := by
  intro h
  cases h

/-- The same for `pure`. -/
@[simp] theorem ends_pure (a : α) : Ends (pure a) := ends_ok a

/-- An error is an end unless it is the one that says the fuel ran out. -/
@[simp] theorem ends_error_iff (e : Panic) : Ends (.error e : Partial α) ↔ e ≠ .stackOverflow := by
  constructor
  · intro h he
    exact h (by rw [he])
  · intro h herror
    exact h (Except.error.inj herror)

/-- Sequencing: both computations end, the second one from every value. The value is not
constrained, so a function that ends on all inputs is used here without a fact about the first
computation. -/
theorem Ends.bind {x : Partial α} {f : α → Partial β} (hx : Ends x) (hf : ∀ a, Ends (f a)) :
    Ends (x >>= f) := by
  cases x with
  | error e => exact (ends_error_iff e).mpr ((ends_error_iff e).mp hx)
  | ok a => exact hf a

/-- A branch: each side ends under its own guard. -/
theorem Ends.ite {c : Prop} [Decidable c] {x y : Partial α} (hx : c → Ends x)
    (hy : ¬ c → Ends y) : Ends (if c then x else y) := by
  by_cases h : c
  · rw [if_pos h]
    exact hx h
  · rw [if_neg h]
    exact hy h

/-- A computation that returns has ended. -/
theorem Runs.ends {x : Partial α} {Q : α → Prop} (hx : Runs x Q) : Ends x := by
  obtain ⟨a, rfl, -⟩ := hx
  exact ends_ok a

/-- A loop over a list ends when each of its steps does. The list is finite, so the loop itself
needs no fuel. -/
theorem Ends.foldlM {γ : Type v} {step : β → γ → Partial β} (hstep : ∀ b x, Ends (step b x))
    (xs : List γ) : ∀ b : β, Ends (xs.foldlM step b) := by
  induction xs with
  | nil => exact fun b => ends_pure b
  | cons x xs ih =>
      intro b
      rw [List.foldlM_cons]
      exact (hstep b x).bind ih

end Rules

section Operations
variable {α : Type u}

/-- An index may be out of bounds, which is another outcome than running out of fuel. -/
@[simp] theorem indexList_ends (xs : List α) (i : Nat) : Ends (indexList xs i) := by
  unfold indexList
  split <;> simp

/-- A slice from an offset takes no fuel. -/
@[simp] theorem dropFrom_ends (xs : List α) (n : Nat) : Ends (dropFrom xs n) :=
  Ends.ite (fun _ => ends_ok _) fun _ => by simp

/-- A slice up to an offset takes no fuel. -/
@[simp] theorem takeTo_ends (xs : List α) (n : Nat) : Ends (takeTo xs n) :=
  Ends.ite (fun _ => ends_ok _) fun _ => by simp

/-- An absent value is another outcome than running out of fuel. -/
@[simp] theorem unwrap_ends (o : Option α) : Ends (unwrap o) := by
  cases o <;> simp [unwrap]

end Operations

end Outcome

namespace Utf8

open Outcome

/-- Splitting a string takes no fuel. The operations below are built from it, and inherit
this. -/
theorem splitAt_ends (s : Str) (n : Nat) : Ends (splitAt s n) := by
  unfold splitAt
  split <;> simp

/-- A slice of a string up to an offset takes no fuel. -/
@[simp] theorem sliceTo_ends (s : Str) (n : Nat) : Ends (sliceTo s n) :=
  (splitAt_ends s n).bind fun _ => ends_pure _

/-- A slice of a string from an offset takes no fuel. -/
@[simp] theorem sliceFrom_ends (s : Str) (n : Nat) : Ends (sliceFrom s n) :=
  (splitAt_ends s n).bind fun _ => ends_pure _

/-- An insertion takes no fuel. -/
@[simp] theorem insertStr_ends (s : Str) (n : Nat) (t : Str) : Ends (insertStr s n t) :=
  (splitAt_ends s n).bind fun _ => ends_pure _

/-- A removal takes no fuel. The offset at the end of the string has no character to remove,
which is a panic of another kind. -/
@[simp] theorem removeAt_ends (s : Str) (n : Nat) : Ends (removeAt s n) := by
  refine (splitAt_ends s n).bind fun parts => ?_
  obtain ⟨before, after⟩ := parts
  cases after <;> simp

/-- Cutting a string off takes no fuel. -/
@[simp] theorem truncate_ends (s : Str) (n : Nat) : Ends (truncate s n) :=
  Ends.ite (fun _ => sliceTo_ends s n) fun _ => ends_ok s

end Utf8
