import Y2Skk.Lib.Execution

/-!
# `Y2Skk.Lib.Solo`: a program that nobody disturbs

In an interleaving little can be said about how far a program gets: any other thread may
come first. `Program.Solo` is the complementary statement: it says that a program ends,
and with what, when it runs alone and the environment always makes the same choice.
Statements about recovery are of this kind: once the disturbance is over, one request
brings the system back.

There is one rule for each construct of the program text (`solo_pure`, `solo_bind`,
`solo_call`, `solo_ite`), all of them simp lemmas, so that `simp` executes a program
symbolically. Unlike the rules for interleavings these follow the state too: nobody else
changes it.

`Solo.trace` turns such a statement into a run of a machine in which only the thread of
the program takes steps, from any pool, whatever its other threads are in the middle of.
-/

set_option autoImplicit false

namespace Concurrent

open Transition

universe u v w

variable {Op : Type u} {Reply : Op → Type v} {σ γ χ ι ω : Type w} {α β : Type v}

namespace Program

section Solo
variable (exec : χ → σ → (o : Op) → Reply o × σ × List ω) (choice : χ)

/-- Run alone from the state `s`, after the outputs `outs`, the program ends with a value that
`Q` allows, beside the outputs and the state in the end. A program that aborts satisfies no such
statement, so proving one proves that it does not. -/
def Solo (Q : List ω → σ → α → Prop) : List ω → σ → Program Op Reply α → Prop
  | outs, s, done a => Q outs s a
  | _, _, abort => False
  | outs, s, perform o next =>
      (next (exec choice s o).1).Solo Q (outs ++ (exec choice s o).2.2) (exec choice s o).2.1

variable {exec} {choice} {Q : List ω → σ → α → Prop} {outs : List ω} {s : σ}

/-- A value is the end: the postcondition is met here and now. -/
@[simp] theorem solo_pure (a : α) :
    (pure a : Program Op Reply α).Solo exec choice Q outs s ↔ Q outs s a := Iff.rfl

/-- One operation: the postcondition is met by its reply, after its outputs, in the state it
leaves. -/
@[simp] theorem solo_call {o : Op} {Q : List ω → σ → Reply o → Prop} :
    (call o : Program Op Reply (Reply o)).Solo exec choice Q outs s ↔
      Q (outs ++ (exec choice s o).2.2) (exec choice s o).2.1 (exec choice s o).1 := Iff.rfl

/-- Weakening the postcondition. -/
theorem Solo.mono {Q' : List ω → σ → α → Prop} {p : Program Op Reply α}
    (h : p.Solo exec choice Q outs s) (hQ : ∀ outs s a, Q outs s a → Q' outs s a) :
    p.Solo exec choice Q' outs s := by
  induction p generalizing outs s with
  | done a => exact hQ _ _ _ h
  | abort => exact h
  | perform o next ih => exact ih _ h

end Solo

section Trace
variable (M : Machine Op Reply σ γ χ ι ω)

/-- In the pool the thread alone takes steps, until its program has ended. Only its own steps
are counted, and every one of them is made under the same choice. -/
theorem Solo.trace {choice : χ} {Q : List ω → σ → PUnit → Prop} {p : Program Op Reply PUnit}
    {before : List ω} (pool : Pool Op Reply σ) {thread : Nat}
    (h : p.Solo M.exec choice Q before pool.shared) (hthread : pool.threads[thread]? = some p) :
    ∃ n, Q (before ++
        outputs (Transition.trace M.step pool (List.replicate n (.perform thread choice))).1)
      (Transition.trace M.step pool (List.replicate n (.perform thread choice))).2.shared ⟨⟩ := by
  induction p generalizing before pool with
  | done a =>
      have hend : Q before pool.shared a := h
      refine ⟨0, ?_⟩
      simpa [Transition.trace, outputs] using hend
  | abort => exact h.elim
  | perform o next ih =>
      -- The step of the pool is the operation of this thread; the others stand still.
      have hstep : M.step pool (.perform thread choice) =
          (⟨(M.exec choice pool.shared o).2.1,
            pool.threads.set thread (next (M.exec choice pool.shared o).1)⟩,
            (M.exec choice pool.shared o).2.2) := by
        simp only [Machine.step, hthread]
      have hlt := (List.getElem?_eq_some_iff.mp hthread).1
      obtain ⟨n, hn⟩ := ih (M.exec choice pool.shared o).1
        (M.step pool (.perform thread choice)).1 (by rw [hstep]; exact h)
        (by rw [hstep]; exact List.getElem?_set_self hlt)
      refine ⟨n + 1, ?_⟩
      rw [List.replicate_succ]
      rw [List.append_assoc] at hn
      simpa [Transition.trace, outputs, hstep] using hn

end Trace

end Program

end Concurrent
