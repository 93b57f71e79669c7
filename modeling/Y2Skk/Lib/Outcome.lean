import Mathlib.Tactic.Common

/-!
# `Y2Skk.Lib.Outcome`: computations that may panic

A partial operation (an index, a slice, an `unwrap`) is an `Except Panic` computation, so
that a caller cannot use its result without saying what happens when the operation is
undefined. A definition translated from a program is then as partial as the program: it
panics on the inputs on which the program does, and a theorem that it returns is a theorem
that the program does not panic there.

## The two predicates

`Runs x Q` is the total-correctness statement about a computation: it returns, and its
result satisfies `Q`. `Yields x Q` is the partial-correctness one: if it returns, its
result satisfies `Q`. A proof uses `Runs` wherever the result must exist, and `Yields` for
facts about a result that do not depend on why there is one; `Runs.yields` leads from the
one to the other.

* `Runs.bind`, `Runs.ite`, `Runs.mono` and `Runs.foldlM` are the rules a proof about a
  handler is built from, one for each construct of the program text.
* `Yields.bind`, `Yields.ite` and `Yields.mono` are the same rules for the weaker
  predicate. They hold for any error type, since nothing is said about the computation
  that fails.
* The values of `pure`, `ok` and `error` are simp lemmas, so that `simp` evaluates a
  predicate on a computation that is already a value.

## The operations

`indexList`, `dropFrom`, `takeTo` and `unwrap` are the partial operations on lists and
options. Each one has the equation it satisfies inside its domain (`indexList_eq`,
`dropFrom_eq`, `takeTo_eq`, `unwrap_some`), and a proof never unfolds the operation
itself. The operations on strings are in `Y2Skk.Lib.Text`, where the domain is a matter of
character boundaries.
-/

set_option autoImplicit false

namespace Outcome

universe u v w

/-- Why a computation stopped without a result. The constructors name the kind of operation that
was undefined and not the place where it stands, since no program observes the place. -/
inductive Panic where
  /-- An index past the end. -/
  | index
  /-- A slice bound past the end, or inside a character. -/
  | slice
  /-- `unwrap` or `expect` on an absent value. -/
  | unwrap
  /-- The recursion did not end within its fuel. -/
  | stackOverflow
  deriving DecidableEq, Repr

/-- A computation that returns an `α` or panics. It is an `Except`, so the `do` notation and the
lemmas about `Except` apply to it as they are. -/
abbrev Partial (α : Type u) := Except Panic α

section Rules
variable {α : Type u} {β : Type u} {ε : Type w}

/-- Sequencing after a value is the continuation at that value. Stated for the constructor,
because that is what `simp` meets once an operation has been evaluated. -/
@[simp] theorem ok_bind (a : α) (f : α → Except ε β) : (Except.ok a >>= f) = f a := rfl

/-- Sequencing after an error is that error: what follows a panic is never run. -/
@[simp] theorem error_bind (e : ε) (f : α → Except ε β) :
    ((Except.error e : Except ε α) >>= f) = .error e := rfl

/-- A computation seen through `toOption` returned the value that is seen there. This is the way
back for definitions that forget the error. -/
theorem ok_of_mem_toOption {x : Except ε α} {a : α} (h : a ∈ x.toOption) : x = .ok a := by
  cases x with
  | error e => cases h
  | ok b => cases h; rfl

/-- The computation returns, and its result satisfies `Q`. Both halves matter: a body that
always panics satisfies no `Runs` statement, whatever `Q` is. -/
def Runs (x : Partial α) (Q : α → Prop) : Prop := ∃ a, x = .ok a ∧ Q a

/-- A value satisfies a total-correctness statement exactly when the value meets the
postcondition. -/
@[simp] theorem runs_ok {a : α} {Q : α → Prop} : Runs (.ok a) Q ↔ Q a := by
  constructor
  · rintro ⟨b, hb, hQ⟩
    cases hb
    exact hQ
  · intro hQ
    exact ⟨a, rfl, hQ⟩

/-- The same for `pure`, the form a `return` of a `do` block elaborates to. -/
@[simp] theorem runs_pure {a : α} {Q : α → Prop} : Runs (pure a) Q ↔ Q a := runs_ok

/-- A panic satisfies no total-correctness statement. With `runs_ok` this decides the predicate
on every computation that has been evaluated. -/
@[simp] theorem not_runs_error {e : Panic} {Q : α → Prop} : ¬ Runs (.error e) Q := by
  rintro ⟨a, ha, -⟩
  cases ha

/-- Sequencing: the first computation returns a value from which the second one returns as
wanted. `P` is the assertion between the two, and a caller chooses it: most often it is what the
spec lemma of the first computation says. -/
theorem Runs.bind {x : Partial α} {f : α → Partial β} {P : α → Prop} {Q : β → Prop}
    (hx : Runs x P) (hf : ∀ a, P a → Runs (f a) Q) : Runs (x >>= f) Q := by
  obtain ⟨a, rfl, ha⟩ := hx
  exact hf a ha

/-- A branch: each side returns as wanted under its own guard. The guards are handed to the
sides as hypotheses, which is where the bounds of a later index come from. -/
theorem Runs.ite {c : Prop} [Decidable c] {x y : Partial α} {Q : α → Prop}
    (hx : c → Runs x Q) (hy : ¬ c → Runs y Q) : Runs (if c then x else y) Q := by
  by_cases h : c
  · rw [if_pos h]
    exact hx h
  · rw [if_neg h]
    exact hy h

/-- Weakening the postcondition. A spec lemma is proved once with the strongest useful
postcondition, and each caller weakens it to what it needs. -/
theorem Runs.mono {x : Partial α} {P Q : α → Prop} (hx : Runs x P)
    (h : ∀ a, P a → Q a) : Runs x Q := by
  obtain ⟨a, ha, hP⟩ := hx
  exact ⟨a, ha, h a hP⟩

/-- What holds of the result of a computation that returned. This turns a spec lemma into a fact
about a value that is already at hand. -/
theorem Runs.of_ok {x : Partial α} {Q : α → Prop} {a : α} (hx : Runs x Q)
    (ha : x = .ok a) : Q a := by
  obtain ⟨b, hb, hQ⟩ := hx
  rw [ha] at hb
  cases hb
  exact hQ

/-- A loop over a list keeps its invariant: the accumulator satisfies `I` at the start, and each
step returns one that still does. The step may use that its element is one of the list, so a
property of all elements need not be carried in the invariant. -/
theorem Runs.foldlM {step : β → α → Partial β} (I : β → Prop) :
    ∀ (xs : List α) (b : β), I b → (∀ b x, x ∈ xs → I b → Runs (step b x) I) →
      Runs (xs.foldlM step b) I := by
  intro xs
  induction xs with
  | nil => intro b hb _; exact ⟨b, rfl, hb⟩
  | cons x xs ih =>
      intro b hb hstep
      rw [List.foldlM_cons]
      refine (hstep b x (by simp) hb).bind fun b' hb' => ?_
      exact ih b' hb' fun b x hx => hstep b x (by simp [hx])

/-- If the computation returns, its result satisfies `Q`. Nothing is said when it does not,
which is what makes the predicate easy to keep: an error satisfies it. -/
def Yields (x : Except ε α) (Q : α → Prop) : Prop := ∀ a, x = .ok a → Q a

/-- A value satisfies a partial-correctness statement exactly when it meets the postcondition;
on values the two predicates agree. -/
@[simp] theorem yields_ok {a : α} {Q : α → Prop} : Yields (.ok a : Except ε α) Q ↔ Q a := by
  constructor
  · intro h
    exact h a rfl
  · rintro hQ b hb
    cases hb
    exact hQ

/-- The same for `pure`, the form a `return` of a `do` block elaborates to. -/
@[simp] theorem yields_pure {a : α} {Q : α → Prop} : Yields (pure a : Except ε α) Q ↔ Q a :=
  yields_ok

/-- An error satisfies every partial-correctness statement. -/
@[simp] theorem yields_error {e : ε} {Q : α → Prop} : Yields (.error e : Except ε α) Q := by
  intro a ha
  cases ha

/-- Sequencing. An error of the first computation is one of the whole, and satisfies anything; a
value of it is a state from which the second one yields as wanted. -/
theorem Yields.bind {x : Except ε α} {f : α → Except ε β} {P : α → Prop} {Q : β → Prop}
    (hx : Yields x P) (hf : ∀ a, P a → Yields (f a) Q) : Yields (x >>= f) Q := by
  cases x with
  | error e => simp
  | ok a => exact hf a (hx a rfl)

/-- A branch: each side yields as wanted under its own guard. -/
theorem Yields.ite {c : Prop} [Decidable c] {x y : Except ε α} {Q : α → Prop}
    (hx : c → Yields x Q) (hy : ¬ c → Yields y Q) : Yields (if c then x else y) Q := by
  by_cases h : c
  · rw [if_pos h]
    exact hx h
  · rw [if_neg h]
    exact hy h

/-- Weakening the postcondition. -/
theorem Yields.mono {x : Except ε α} {P Q : α → Prop} (hx : Yields x P)
    (h : ∀ a, P a → Q a) : Yields x Q := fun a ha => h a (hx a ha)

/-- Whatever is computed, a fact about every value holds of the result. It closes the goals in
which the postcondition does not depend on the computation at all. -/
theorem Yields.of_forall {x : Except ε α} {Q : α → Prop} (h : ∀ a, Q a) : Yields x Q :=
  fun a _ => h a

/-- Total correctness implies partial correctness. -/
theorem Runs.yields {x : Partial α} {Q : α → Prop} (hx : Runs x Q) : Yields x Q :=
  fun _ ha => hx.of_ok ha

end Rules

section Operations
variable {α : Type u}

/-- `xs[i]`. An index at or past the length panics. -/
def indexList (xs : List α) (i : Nat) : Partial α :=
  match xs[i]? with
  | some x => .ok x
  | none => .error .index

/-- `&xs[n..]`. The bound may be the length itself, and the slice is empty then; only a bound
past the end panics. -/
def dropFrom (xs : List α) (n : Nat) : Partial (List α) :=
  if n ≤ xs.length then .ok (xs.drop n) else .error .slice

/-- `&xs[..n]`. As for `dropFrom`, the length itself is a legal bound. -/
def takeTo (xs : List α) (n : Nat) : Partial (List α) :=
  if n ≤ xs.length then .ok (xs.take n) else .error .slice

/-- `o.unwrap()`, and `o.expect(..)`, whose message no result depends on. -/
def unwrap (o : Option α) : Partial α :=
  match o with
  | some x => .ok x
  | none => .error .unwrap

/-- Inside its domain an index returns the element that stands there. -/
theorem indexList_eq {xs : List α} {i : Nat} (h : i < xs.length) :
    indexList xs i = .ok xs[i] := by
  simp [indexList, List.getElem?_eq_getElem h]

/-- An index returns an element exactly when the total lookup finds it. The statement has no
bound in it, so it rewrites in both directions without a side condition. -/
theorem indexList_ok_iff {xs : List α} {i : Nat} {x : α} :
    indexList xs i = .ok x ↔ xs[i]? = some x := by
  unfold indexList
  cases xs[i]? <;> simp

/-- Inside its domain the slice is `List.drop`. -/
theorem dropFrom_eq {xs : List α} {n : Nat} (h : n ≤ xs.length) :
    dropFrom xs n = .ok (xs.drop n) := if_pos h

/-- Inside its domain the slice is `List.take`. -/
theorem takeTo_eq {xs : List α} {n : Nat} (h : n ≤ xs.length) :
    takeTo xs n = .ok (xs.take n) := if_pos h

/-- Inside its domain `unwrap` returns the value. -/
@[simp] theorem unwrap_some (x : α) : unwrap (some x) = .ok x := rfl

end Operations

end Outcome
