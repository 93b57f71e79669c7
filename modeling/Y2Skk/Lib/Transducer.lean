import Mathlib.Data.List.Basic

/-!
# `Y2Skk.Lib.Transducer`: machines that read symbols and write words

A transducer reads a symbol at a time, and writes a word for each. `run` reads a list of
symbols and collects what is written. It is the shape of every reader that keeps a little
state between keys and answers each of them at once, and two such readers are compared by
comparing single steps.

`run_append` splits a run in two, and `run_map` is the rule for a machine that does what
another one does, up to its states and its output: the simulation is checked on single
symbols, and only on those the condition allows, and the rule carries it over a run.
`echo` is the machine for the mode of a reader in which it passes everything on.
-/

set_option autoImplicit false

universe u v w u' w'

/-- A deterministic machine: what it writes for a symbol, and the state it goes to. -/
structure Transducer (σ : Type u) (α : Type v) (β : Type w) where
  step : σ → α → List β × σ

namespace Transducer

variable {σ : Type u} {α : Type v} {β : Type w} (T : Transducer σ α β)

/-- What is written for a list of symbols, and the state in the end. -/
def run : σ → List α → List β × σ
  | s, [] => ([], s)
  | s, a :: l =>
      let (out, s) := T.step s a
      let (more, s) := run s l
      (out ++ more, s)

/-- Without a symbol to read nothing is written, and the state stays. -/
@[simp] theorem run_nil (s : σ) : T.run s [] = ([], s) := rfl

/-- The first symbol is read, then the others from the state it led to. -/
theorem run_cons (s : σ) (a : α) (l : List α) : T.run s (a :: l) =
    ((T.step s a).1 ++ (T.run (T.step s a).2 l).1, (T.run (T.step s a).2 l).2) := rfl

/-- Two lists are read one after the other: the outputs are joined, and the second reading
starts where the first one ended. -/
theorem run_append (s : σ) (l l' : List α) : T.run s (l ++ l') =
    ((T.run s l).1 ++ (T.run (T.run s l).2 l').1, (T.run (T.run s l).2 l').2) := by
  induction l generalizing s with
  | nil => rfl
  | cons a l ih =>
      rw [List.cons_append, run_cons, run_cons, ih]
      simp only [List.append_assoc]

/-- The last symbol of a list is read in the state that the others lead to. -/
theorem run_concat (s : σ) (l : List α) (a : α) : T.run s (l ++ [a]) =
    ((T.run s l).1 ++ (T.step (T.run s l).2 a).1, (T.step (T.run s l).2 a).2) := by
  rw [run_append, run_cons, run_nil, List.append_nil]

/-- The machine that writes what it reads, and never changes its state. -/
def echo {σ : Type u} {α : Type v} : Transducer σ α α := ⟨fun s a => ([a], s)⟩

variable {T}

/-- A machine whose steps are those of `T` up to `f` on states and `g` on words has the runs of
`T`. The translation `g` of the output must respect joining, since a run joins the outputs of
its steps; `ok` restricts the symbols, and a list of allowed symbols is read alike. -/
theorem run_map {σ' : Type u'} {γ : Type w'} {T' : Transducer σ' α γ} (f : σ → σ')
    (g : List β → List γ) (hnil : g [] = []) (happend : ∀ l l', g (l ++ l') = g l ++ g l')
    (ok : α → Prop)
    (hstep : ∀ s a, ok a → T'.step (f s) a = (g (T.step s a).1, f (T.step s a).2)) (s : σ)
    {l : List α} (hok : ∀ a ∈ l, ok a) : T'.run (f s) l = (g (T.run s l).1, f (T.run s l).2) := by
  induction l generalizing s with
  | nil => rw [run_nil, run_nil, hnil]
  | cons a l ih =>
      rw [run_cons, run_cons, hstep s a (hok a List.mem_cons_self)]
      rw [ih _ fun b hb => hok b (List.mem_cons_of_mem a hb), happend]

end Transducer
