import Y2Skk.Lib.Program

/-!
# `Y2Skk.Lib.Execution`: one program in an environment that does anything

Some properties of a program hold whatever happens around it: how often it performs an
operation in one go, or what it puts out after what. They are best proved of the program
alone, in an environment about which nothing is assumed.

An `Execution` follows one program through the operations it performs. Between them the
environment may put the shared state anywhere, so what is true of every execution is true
of the program in every interleaving (`Interleaving.execution`), and also next to programs
that a `Machine` does not have.

## What a program puts out

`Program.Ensures` says what a program puts out, whatever its operations are answered, with
one rule for each construct of the program text (`ensures_pure`, `ensures_bind`,
`ensures_call`, `ensures_ite`). It also asks that `I` holds of the outputs at every point
on the way, so it is a safety property and holds of executions that were cut short.
`Execution.ensures` says that the rule holds of every execution.

## Threads

The second half connects the two views. `performedBy` extracts from the history of a pool
what one thread has performed, and `Interleaving.execution` says that this is an execution
of the program of the request that the thread serves.
-/

set_option autoImplicit false

namespace Concurrent

open Transition

universe u v w

variable {Op : Type u} {Reply : Op → Type v} {σ γ χ ι ω : Type w} {α β : Type v}

namespace Program

/-- The value of a program that has ended with one. -/
def result? : Program Op Reply α → Option α
  | done a => some a
  | _ => none

/-! ### What a program puts out -/

section Ensures
variable (emits : (o : Op) → Reply o → List ω → Prop) (I : List ω → Prop)

/-- After the outputs `outs`, the program puts out only what `I` allows, and ends with a value
that `Q` allows. The replies are only constrained by `emits`, which relates a reply to what its
operation put out. -/
def Ensures (Q : List ω → α → Prop) : List ω → Program Op Reply α → Prop
  | outs, done a => I outs ∧ Q outs a
  | outs, abort => I outs
  | outs, perform o next =>
      I outs ∧ ∀ r os, emits o r os → (next r).Ensures Q (outs ++ os)

variable {emits} {I} {Q : List ω → α → Prop} {outs : List ω}

/-- What has been put out so far is allowed, wherever the program stands. -/
theorem Ensures.inv {p : Program Op Reply α} (h : p.Ensures emits I Q outs) : I outs := by
  cases p with
  | done a => exact h.1
  | abort => exact h
  | perform o next => exact h.1

/-- The value a program has ended with is allowed after what it has put out. -/
theorem Ensures.result {p : Program Op Reply α} (h : p.Ensures emits I Q outs) {a : α}
    (ha : p.result? = some a) : Q outs a := by
  cases p with
  | done a' => cases ha; exact h.2
  | abort => cases ha
  | perform o next => cases ha

/-- A value ends the program: what was put out has to be allowed, with this value. -/
@[simp] theorem ensures_pure (a : α) :
    (pure a : Program Op Reply α).Ensures emits I Q outs ↔ I outs ∧ Q outs a := Iff.rfl

/-- An aborted program has no value, but what it has put out still has to be allowed. -/
@[simp] theorem ensures_abort :
    (abort : Program Op Reply α).Ensures emits I Q outs ↔ I outs := Iff.rfl

/-- One operation: its outputs come after the others, and its reply is the value. -/
@[simp] theorem ensures_call {o : Op} {Q : List ω → Reply o → Prop} :
    (call o : Program Op Reply (Reply o)).Ensures emits I Q outs ↔
      I outs ∧ ∀ r os, emits o r os → I (outs ++ os) ∧ Q (outs ++ os) r := Iff.rfl

/-- Sequencing: what the first program has put out is what the second one starts after. An abort
ends the whole. -/
@[simp] theorem ensures_bind {Q : List ω → β → Prop} {p : Program Op Reply α}
    {f : α → Program Op Reply β} :
    (p >>= f).Ensures emits I Q outs ↔
      p.Ensures emits I (fun outs a => (f a).Ensures emits I Q outs) outs := by
  show (p.bind f).Ensures emits I Q outs ↔ _
  induction p generalizing outs with
  | done a => exact ⟨fun h => ⟨h.inv, h⟩, And.right⟩
  | abort => exact Iff.rfl
  | perform o next ih =>
      exact and_congr_right fun _ => forall_congr' fun r => forall_congr' fun os =>
        imp_congr_right fun _ => ih r

/-- A branch: each side ensures it under its own guard. -/
@[simp] theorem ensures_ite {c : Prop} [Decidable c] {p q : Program Op Reply α} :
    (if c then p else q).Ensures emits I Q outs ↔
      (c → p.Ensures emits I Q outs) ∧ (¬ c → q.Ensures emits I Q outs) := by
  by_cases h : c <;> simp [h]

end Ensures

end Program

open Program

/-! ### Executions -/

/-- An operation that was performed: the shared state it found, and the choice of the
environment. Reply and outputs are determined by these, and not stored. -/
structure Performed (Op : Type u) (σ χ : Type w) where
  state : σ
  choice : χ
  op : Op

section Execution
variable (exec : χ → σ → (o : Op) → Reply o × σ × List ω)

namespace Performed

/-- What the operation was answered. -/
def reply (e : Performed Op σ χ) : Reply e.op := (exec e.choice e.state e.op).1

/-- What the operation put out. -/
def outputs (e : Performed Op σ χ) : List ω := (exec e.choice e.state e.op).2.2

end Performed

/-- What a program has put out, in order. -/
def emitted (es : List (Performed Op σ χ)) : List ω := es.flatMap fun e => e.outputs exec

/-- `Execution exec p es q`: having performed `es`, the program `p` has become `q`. The states
in `es` are not chained: the one that an operation finds need not be the one that the operation
before it left. -/
inductive Execution : Program Op Reply α → List (Performed Op σ χ) → Program Op Reply α → Prop
  | refl (p : Program Op Reply α) : Execution p [] p
  | perform (e : Performed Op σ χ) {next : Reply e.op → Program Op Reply α}
      {es : List (Performed Op σ χ)} {q : Program Op Reply α} :
      Execution (next (e.reply exec)) es q → Execution (.perform e.op next) (e :: es) q

variable {exec} {p q : Program Op Reply α} {es : List (Performed Op σ χ)}

/-- Every execution of a program puts out what the program ensures. This holds in the middle of
the program as well as at its end. -/
theorem Execution.ensures {emits : (o : Op) → Reply o → List ω → Prop} {I : List ω → Prop}
    {Q : List ω → α → Prop}
    (hemits : ∀ choice s o, emits o (exec choice s o).1 (exec choice s o).2.2)
    (h : Execution exec p es q) {outs : List ω} (hp : p.Ensures emits I Q outs) :
    q.Ensures emits I Q (outs ++ emitted exec es) := by
  induction h generalizing outs with
  | refl p => simpa [emitted] using hp
  | perform e _ ih =>
      have hnext := ih (hp.2 _ _ (hemits e.choice e.state e.op))
      simpa [emitted, Performed.outputs] using hnext

/-- A program that has ended performs nothing. -/
theorem execution_pure {a : α} (h : Execution exec (pure a) es q) : es = [] ∧ q = pure a := by
  cases h with
  | refl => exact ⟨rfl, rfl⟩

/-- The first operation of an execution is the one its program performs. -/
theorem execution_perform {o : Op} {next : Reply o → Program Op Reply α} {e : Performed Op σ χ}
    (h : Execution exec (.perform o next) (e :: es) q) :
    e = ⟨e.state, e.choice, o⟩ ∧ Execution exec (next (exec e.choice e.state o).1) es q := by
  cases h with
  | perform _ hrest => exact ⟨rfl, hrest⟩

/-- The last operation of an execution: what has become of the program performs its next
operation. -/
theorem Execution.snoc {e : Performed Op σ χ} {next : Reply e.op → Program Op Reply α}
    (h : Execution exec p es q) (hq : q = .perform e.op next) :
    Execution exec p (es ++ [e]) (next (e.reply exec)) := by
  induction h with
  | refl p =>
      rw [hq]
      exact .perform e (.refl _)
  | perform e' _ ih => exact .perform e' (ih hq)

/-- An execution of two programs in sequence executes the first one, whose value the second one
may already have got. -/
theorem execution_bind {f : α → Program Op Reply β} {q : Program Op Reply β}
    (h : Execution exec (p >>= f) es q) :
    (∃ p', Execution exec p es p' ∧ q = p' >>= f) ∨
    ∃ es₁ es₂ a, es = es₁ ++ es₂ ∧ Execution exec p es₁ (pure a) ∧ Execution exec (f a) es₂ q := by
  induction p generalizing es with
  | done a => exact .inr ⟨[], es, a, rfl, .refl _, h⟩
  | abort =>
      cases h with
      | refl => exact .inl ⟨.abort, .refl _, rfl⟩
  | perform o next ih =>
      cases h with
      | refl => exact .inl ⟨_, .refl _, rfl⟩
      | perform e hrest =>
          rcases ih _ hrest with ⟨p', hp', rfl⟩ | ⟨es₁, es₂, a, rfl, hp', hf⟩
          · exact .inl ⟨p', .perform e hp', rfl⟩
          · exact .inr ⟨e :: es₁, es₂, a, rfl, .perform e hp', hf⟩

/-- The execution of a program whose operations nobody disturbs: each of them finds the state
that the one before it left. It is computable, and so produces examples of executions. -/
def alone (exec : χ → σ → (o : Op) → Reply o × σ × List ω) :
    List χ → σ → Program Op Reply α → List (Performed Op σ χ) × Program Op Reply α
  | choice :: choices, s, .perform o next =>
      let (es, q) := alone exec choices (exec choice s o).2.1 (next (exec choice s o).1)
      (⟨s, choice, o⟩ :: es, q)
  | _, _, p => ([], p)

/-- An undisturbed execution is an execution, so what holds of every execution holds of the one
that runs by itself. -/
theorem execution_alone (choices : List χ) (s : σ) (p : Program Op Reply α) :
    Execution exec p (alone exec choices s p).1 (alone exec choices s p).2 := by
  induction choices generalizing s p with
  | nil => exact .refl p
  | cons choice choices ih =>
      cases p with
      | done a => exact .refl _
      | abort => exact .refl _
      | perform o next => exact .perform ⟨s, choice, o⟩ (ih _ _)

end Execution

/-! ### The threads of an interleaving -/

section Threads
variable {M : Machine Op Reply σ γ χ ι ω}

/-- The requests that a step starts to serve. -/
def Input.requests : Input γ χ ι → List γ
  | .spawn request => [request]
  | _ => []

/-- The requests of a history, in the order of the threads that serve them: a new thread takes
the next place. -/
def requests (history : List (Visit (Pool Op Reply σ) (Input γ χ ι) ω)) : List γ :=
  history.flatMap fun v => v.input.requests

/-- The operation that a step of the thread performs, if any. -/
def Pool.performed (thread : Nat) (pool : Pool Op Reply σ) :
    Input γ χ ι → Option (Performed Op σ χ)
  | .perform thread' choice =>
      if thread' = thread then (pool.nextOp thread).map fun o => ⟨pool.shared, choice, o⟩ else none
  | _ => none

/-- The operations of a thread, as a history of the pool records them. -/
def performedBy (thread : Nat) (history : List (Visit (Pool Op Reply σ) (Input γ χ ι) ω)) :
    List (Performed Op σ χ) :=
  history.filterMap fun v => v.pre.performed thread v.input

/-- The step of a thread that has an operation to perform: the shared state after it, and the
thread where its reply leads. -/
theorem step_perform {pool : Pool Op Reply σ} {thread : Nat} {choice : χ} {o : Op}
    {next : Reply o → Program Op Reply PUnit}
    (h : pool.threads[thread]? = some (.perform o next)) :
    (M.step pool (.perform thread choice)).1 = ⟨(M.exec choice pool.shared o).2.1,
      pool.threads.set thread (next (M.exec choice pool.shared o).1)⟩ := by
  simp only [Machine.step, h]

/-- The step of a thread that has nothing to perform changes nothing: it has ended, or was never
started. -/
theorem step_idle {pool : Pool Op Reply σ} {thread : Nat} {choice : χ}
    (h : pool.nextOp thread = none) : (M.step pool (.perform thread choice)).1 = pool := by
  unfold Machine.step
  dsimp only
  split
  · rename_i hthread
    simp [Pool.nextOp, hthread, Program.next?] at h
  · rfl

/-- The program of a thread after one more step. A step of the thread itself adds one operation
to its execution, and any other step adds none. -/
theorem execution_step {pool : Pool Op Reply σ} {input : Input γ χ ι} {thread : Nat}
    {p q : Program Op Reply PUnit} {es : List (Performed Op σ χ)}
    (h : Execution M.exec p es q) (hq : pool.threads[thread]? = some q) :
    ∃ q', (M.step pool input).1.threads[thread]? = some q' ∧
      Execution M.exec p (es ++ (pool.performed thread input).toList) q' := by
  have hlt : thread < pool.threads.length := (List.getElem?_eq_some_iff.mp hq).1
  -- A step that is none of the thread's operations.
  have hother : pool.performed thread input = none →
      (M.step pool input).1.threads[thread]? = some q →
      ∃ q', (M.step pool input).1.threads[thread]? = some q' ∧
        Execution M.exec p (es ++ (pool.performed thread input).toList) q' := by
    intro hnone hsame
    exact ⟨q, hsame, by simpa [hnone] using h⟩
  cases input with
  | spawn request =>
      refine hother rfl ?_
      show (pool.threads ++ [M.body request])[thread]? = some q
      rw [List.getElem?_append_left hlt, hq]
  | env input => exact hother rfl hq
  | perform thread' choice =>
      -- A step of this thread adds an operation, if its program has one; a step of another thread
      -- leaves this one where it was.
      by_cases hthread : thread' = thread
      · subst hthread
        cases hop : pool.nextOp thread' with
        | none =>
            refine hother (by simp [Pool.performed, hop]) ?_
            rw [step_idle hop, hq]
        | some o =>
            cases q with
            | done a => simp [Pool.nextOp, hq, Program.next?] at hop
            | abort => simp [Pool.nextOp, hq, Program.next?] at hop
            | perform o' next =>
                have hoo : o' = o := by simpa [Pool.nextOp, hq, Program.next?] using hop
                subst hoo
                rw [step_perform hq]
                refine ⟨_, List.getElem?_set_self hlt, ?_⟩
                rw [Pool.performed, if_pos rfl, hop]
                exact h.snoc rfl
      · refine hother (by simp [Pool.performed, hthread]) ?_
        unfold Machine.step
        dsimp only
        split
        · rw [List.getElem?_set_ne hthread, hq]
        · exact hq

/-- A step starts the thread of the request it takes, and no other one. Threads that have ended
keep their place. -/
theorem length_step (pool : Pool Op Reply σ) (input : Input γ χ ι) :
    (M.step pool input).1.threads.length = pool.threads.length + input.requests.length := by
  cases input with
  | spawn request => exact List.length_append
  | env input => rfl
  | perform thread choice =>
      unfold Machine.step
      dsimp only
      split
      · exact List.length_set ..
      · rfl

/-- The operations of a thread in a history that has one more step. -/
theorem performedBy_snoc (thread : Nat)
    (history : List (Visit (Pool Op Reply σ) (Input γ χ ι) ω)) (pool : Pool Op Reply σ)
    (input : Input γ χ ι) (outs : List ω) :
    performedBy thread (history ++ [⟨pool, input, outs⟩]) =
      performedBy thread history ++ (pool.performed thread input).toList := by
  cases hp : pool.performed thread input <;> simp [performedBy, hp]

/-- A thread that is not there does nothing. -/
theorem performed_of_le {pool : Pool Op Reply σ} {thread : Nat}
    (h : pool.threads.length ≤ thread) (input : Input γ χ ι) :
    pool.performed thread input = none := by
  have hop : pool.nextOp thread = none := by simp [Pool.nextOp, List.getElem?_eq_none h]
  cases input <;> simp [Pool.performed, hop]

/-- A thread that has not been started has done nothing. The induction is on the run, whose pool
only grows. -/
theorem performedBy_of_le {init : σ}
    {history : List (Visit (Pool Op Reply σ) (Input γ χ ι) ω)} {pool : Pool Op Reply σ}
    (hrun : M.Interleaving init history pool) {thread : Nat} (h : pool.threads.length ≤ thread) :
    performedBy thread history = [] := by
  induction hrun with
  | nil => rfl
  | @snoc history pool pool' input outs hrun hstep ih =>
      obtain rfl : (M.step pool input).1 = pool' := by rw [show M.step pool input = _ from hstep]
      rw [length_step] at h
      have hle : pool.threads.length ≤ thread := by omega
      rw [performedBy_snoc, ih hle, performed_of_le hle]
      rfl

/-- Every thread of an interleaving executes the program of its request. The threads and the
requests are as many, and stand in the same order, so a request is found at the place of its
thread. -/
theorem Interleaving.execution {init : σ}
    {history : List (Visit (Pool Op Reply σ) (Input γ χ ι) ω)} {pool : Pool Op Reply σ}
    (hrun : M.Interleaving init history pool) :
    pool.threads.length = (requests history).length ∧
    ∀ thread request, (requests history)[thread]? = some request →
      ∃ p, pool.threads[thread]? = some p ∧
        Execution M.exec (M.body request) (performedBy thread history) p := by
  induction hrun with
  | nil => exact ⟨rfl, fun thread request hrequest => by simp [requests] at hrequest⟩
  | @snoc history pool pool' input outs hrun hstep ih =>
      obtain ⟨hlength, hthreads⟩ := ih
      obtain rfl : (M.step pool input).1 = pool' := by rw [show M.step pool input = _ from hstep]
      have hrequests : requests (history ++ [⟨pool, input, outs⟩]) =
          requests history ++ input.requests := by simp [requests]
      rw [hrequests]
      refine ⟨by rw [length_step, hlength, List.length_append], ?_⟩
      intro thread request hrequest
      rw [performedBy_snoc]
      by_cases hlt : thread < (requests history).length
      · rw [List.getElem?_append_left hlt] at hrequest
        obtain ⟨p, hp, hexec⟩ := hthreads thread request hrequest
        exact execution_step hexec hp
      · -- The thread has just been started, and has done nothing.
        have hle := Nat.le_of_not_lt hlt
        rw [List.getElem?_append_right hle] at hrequest
        rw [← hlength] at hle hrequest
        rw [performedBy_of_le hrun hle, performed_of_le hle]
        cases input with
        | env input => simp [Input.requests] at hrequest
        | perform thread' choice => simp [Input.requests] at hrequest
        | spawn request' =>
            refine ⟨M.body request, ?_, .refl _⟩
            show (pool.threads ++ [M.body request'])[thread]? = _
            rw [List.getElem?_append_right hle]
            have hlast := congrArg (Option.map M.body) hrequest
            rw [← List.getElem?_map] at hlast
            exact hlast

end Threads

end Concurrent
