import Y2Skk.Lib.Run

/-!
# `Y2Skk.Lib.Program`: programs over atomic operations, and their interleavings

A `Program` performs operations one at a time and ends with a value, or is aborted. It is
a tree: an operation, and for every reply the program that goes on from it. The `do`
notation builds such trees, so a program reads like the text it models, and every point
between two operations is a point at which somebody else may run.

## Machines and pools

A `Machine` says what an operation does to the shared state, and a `Pool` is a shared
state with the programs that are running on it. In each step of the pool one of the
programs performs its next operation, a new program starts, or the environment changes the
shared state, so a run of a pool is one interleaving of its programs. Which thread goes
next, and what the environment chooses for an operation, is part of the input of the step:
a theorem about all runs is one about all schedulers and all environments.

## Tokens

The rules here prove a property of what the operations put out. The method tracks the
*tokens* a program holds: an operation uses tokens, and its reply may hand out new ones.

* `Program.Knows`: a program uses only tokens that it was handed, with one rule for each
  construct of the program text (`knows_pure`, `knows_bind`, `knows_call`, `knows_ite`).
* `Machine.Sound.outputs`: if valid tokens stay valid, and an operation hands out valid
  tokens and puts out good outputs when the tokens it uses are valid, then every output of
  every run is good.

The point of the method is that nothing has to be said about where in its text a thread
is: what it holds is enough.
-/

set_option autoImplicit false

namespace Concurrent

open Transition

universe u v w

/-- A program that performs operations `o : Op` with replies in `Reply o`. The type of the reply
depends on the operation, so a program cannot be given an answer to another question. -/
inductive Program (Op : Type u) (Reply : Op → Type v) (α : Type v) : Type (max u v) where
  | done (a : α)
  /-- The program stopped without a value. -/
  | abort
  | perform (o : Op) (next : Reply o → Program Op Reply α)

namespace Program

variable {Op : Type u} {Reply : Op → Type v} {α β : Type v}

/-- Sequencing: the second program goes on where the first one has ended, and an aborted program
stays aborted. -/
def bind : Program Op Reply α → (α → Program Op Reply β) → Program Op Reply β
  | done a, f => f a
  | abort, _ => abort
  | perform o next, f => perform o fun r => (next r).bind f

/-- Programs are written in `do` notation. -/
instance : Monad (Program Op Reply) where
  pure := done
  bind := bind

/-- The program of one operation, which ends with its reply. -/
def call (o : Op) : Program Op Reply (Reply o) := perform o done

/-- The operation the program performs next; none when it has ended or was aborted. -/
def next? : Program Op Reply α → Option Op
  | perform o _ => some o
  | _ => none

/-! ### Tokens -/

section Tokens
variable {κ : Type w} (uses : Op → List κ) (learns : (o : Op) → Reply o → List κ)

/-- Run by a holder of the tokens `held`, the program uses tokens that it holds and ends with a
value and tokens that satisfy `Q`. Nothing is asked of a program that aborts. -/
def Knows (Q : List κ → α → Prop) : List κ → Program Op Reply α → Prop
  | held, done a => Q held a
  | _, abort => True
  | held, perform o next => uses o ⊆ held ∧ ∀ r, (next r).Knows Q (learns o r ++ held)

variable {uses learns} {Q : List κ → α → Prop} {held : List κ}

/-- A value ends with the tokens it started from. -/
@[simp] theorem knows_pure (a : α) :
    Knows uses learns Q held (pure a : Program Op Reply α) ↔ Q held a := Iff.rfl

/-- An aborted program uses nothing any more. -/
@[simp] theorem knows_abort : Knows uses learns Q held (abort : Program Op Reply α) := trivial

/-- One operation uses tokens that are held, and its reply adds the ones it hands out. -/
@[simp] theorem knows_call {o : Op} {Q : List κ → Reply o → Prop} :
    Knows uses learns Q held (call o : Program Op Reply (Reply o)) ↔
      uses o ⊆ held ∧ ∀ r, Q (learns o r ++ held) r := Iff.rfl

/-- Sequencing: what the first program ends with is what the second one starts from, tokens
included. -/
@[simp] theorem knows_bind {Q : List κ → β → Prop} {p : Program Op Reply α}
    {f : α → Program Op Reply β} :
    Knows uses learns Q held (p >>= f) ↔
      Knows uses learns (fun held a => Knows uses learns Q held (f a)) held p := by
  show Knows uses learns Q held (p.bind f) ↔ _
  induction p generalizing held with
  | done a => exact Iff.rfl
  | abort => exact Iff.rfl
  | perform o next ih => exact and_congr_right fun _ => forall_congr' fun r => ih r

/-- A branch: each side keeps the discipline under its own guard. -/
@[simp] theorem knows_ite {c : Prop} [Decidable c] {p q : Program Op Reply α} :
    Knows uses learns Q held (if c then p else q) ↔
      (c → Knows uses learns Q held p) ∧ (¬ c → Knows uses learns Q held q) := by
  by_cases h : c <;> simp [h]

end Tokens

end Program

/-- What the programs of a pool run on: the program of a request, what an operation replies,
does and puts out under a choice of the environment, and what the environment does by itself. -/
structure Machine (Op : Type u) (Reply : Op → Type v) (σ γ χ ι ω : Type w) where
  body : γ → Program Op Reply PUnit
  exec : χ → σ → (o : Op) → Reply o × σ × List ω
  env : ι → σ → σ

/-- A shared state and the programs running on it, each known by its place in the list. -/
structure Pool (Op : Type u) (Reply : Op → Type v) (σ : Type w) where
  shared : σ
  threads : List (Program Op Reply PUnit)

/-- One step of a pool. The scheduler is in it: which thread performs its next operation is
chosen by whoever feeds the inputs. -/
inductive Input (γ χ ι : Type w) where
  /-- A request comes in. -/
  | spawn (request : γ)
  /-- A thread performs its next operation. -/
  | perform (thread : Nat) (choice : χ)
  | env (input : ι)

variable {Op : Type u} {Reply : Op → Type v} {σ γ χ ι ω : Type w}

namespace Pool

/-- The next operation of a thread; none when there is no such thread, or it has ended. -/
def nextOp (pool : Pool Op Reply σ) (thread : Nat) : Option Op :=
  (pool.threads[thread]?).bind Program.next?

/-- The operation a step performs, if any, satisfies `ok` where it is performed. This is how a
condition on the environment is stated that excludes some choices at some operations. -/
def Allows (ok : σ → Op → Prop) (pool : Pool Op Reply σ) : Input γ χ ι → Prop
  | .perform thread _ => ∀ o ∈ pool.nextOp thread, ok pool.shared o
  | _ => True

/-- The condition can be decided when the one on operations can, so a concrete run can be
checked. -/
instance (ok : σ → Op → Prop) [∀ s o, Decidable (ok s o)] (pool : Pool Op Reply σ)
    (input : Input γ χ ι) : Decidable (pool.Allows ok input) :=
  match input with
  | .perform thread _ =>
      inferInstanceAs (Decidable (∀ o ∈ pool.nextOp thread, ok pool.shared o))
  | .spawn _ => .isTrue trivial
  | .env _ => .isTrue trivial

end Pool

namespace Machine

variable (M : Machine Op Reply σ γ χ ι ω)

/-- One step: the pool after it, and what it put out. A thread that has ended is idle, and so is
one that does not exist. -/
def step (pool : Pool Op Reply σ) : Input γ χ ι → Pool Op Reply σ × List ω
  | .spawn request => ({ pool with threads := pool.threads ++ [M.body request] }, [])
  | .perform thread choice =>
      match pool.threads[thread]? with
      | some (.perform o next) =>
          let (reply, shared, outputs) := M.exec choice pool.shared o
          (⟨shared, pool.threads.set thread (next reply)⟩, outputs)
      | _ => (pool, [])
  | .env input => ({ pool with shared := M.env input pool.shared }, [])

/-- An interleaving of programs, from a state in which none is running. -/
abbrev Interleaving (init : σ) :
    List (Visit (Pool Op Reply σ) (Input γ χ ι) ω) → Pool Op Reply σ → Prop :=
  Run (Transition.ofFun M.step) ⟨init, []⟩

section Rule
variable {κ : Type w}

/-- The obligations of a token discipline: `inv` is an invariant of the shared state, and
`valid` says which tokens are valid in a state. An operation has to keep both, and to put out
good outputs when the tokens it uses are valid; so has the environment. -/
structure Sound (uses : Op → List κ) (learns : (o : Op) → Reply o → List κ) (inv : σ → Prop)
    (valid : σ → κ → Prop) (ok : σ → Op → Prop) (good : ω → Prop) : Prop where
  body : ∀ request, (M.body request).Knows uses learns (fun _ _ => True) []
  exec : ∀ choice s o, inv s → (∀ k ∈ uses o, valid s k) → ok s o →
    inv (M.exec choice s o).2.1 ∧
    (∀ k, valid s k → valid (M.exec choice s o).2.1 k) ∧
    (∀ k ∈ learns o (M.exec choice s o).1, valid (M.exec choice s o).2.1 k) ∧
    ∀ w ∈ (M.exec choice s o).2.2, good w
  env : ∀ input s, inv s → inv (M.env input s) ∧ ∀ k, valid s k → valid (M.env input s) k

variable {M} {uses : Op → List κ} {learns : (o : Op) → Reply o → List κ} {inv : σ → Prop}
  {valid : σ → κ → Prop} {ok : σ → Op → Prop} {good : ω → Prop}

/-- Every thread holds valid tokens only, and the shared state satisfies its invariant. The
tokens of a thread are not recorded anywhere: that there are such is all that is said. -/
def Safe (uses : Op → List κ) (learns : (o : Op) → Reply o → List κ) (inv : σ → Prop)
    (valid : σ → κ → Prop) (pool : Pool Op Reply σ) : Prop :=
  inv pool.shared ∧ ∀ p ∈ pool.threads, ∃ held,
    p.Knows uses learns (fun _ _ => True) held ∧ ∀ k ∈ held, valid pool.shared k

/-- A step keeps the tokens of every thread valid, and puts out good outputs. There is one case
for a new thread, one for the environment and one for an operation. -/
theorem Sound.step (h : M.Sound uses learns inv valid ok good) {pool : Pool Op Reply σ}
    {input : Input γ χ ι} (hpool : Safe uses learns inv valid pool) (hok : pool.Allows ok input) :
    Safe uses learns inv valid (M.step pool input).1 ∧ ∀ w ∈ (M.step pool input).2, good w := by
  obtain ⟨hinv, hthreads⟩ := hpool
  cases input with
  | spawn request =>
      refine ⟨⟨hinv, fun p hp => ?_⟩, fun w hw => by cases hw⟩
      -- A new thread holds nothing, and its program keeps the discipline from there.
      rcases List.mem_append.mp hp with hp | hp
      · exact hthreads p hp
      · rw [List.mem_singleton.mp hp]
        exact ⟨[], h.body request, fun k hk => by cases hk⟩
  | env input =>
      obtain ⟨hinv', hvalid⟩ := h.env input pool.shared hinv
      refine ⟨⟨hinv', fun p hp => ?_⟩, fun w hw => by cases hw⟩
      obtain ⟨held, hknows, hheld⟩ := hthreads p hp
      exact ⟨held, hknows, fun k hk => hvalid k (hheld k hk)⟩
  | perform thread choice =>
      unfold Machine.step
      dsimp only
      split
      · rename_i o next hthread
        have hmem := List.mem_of_getElem? hthread
        obtain ⟨held, ⟨huses, hnext⟩, hheld⟩ := hthreads _ hmem
        -- The thread is at an operation, whose tokens it holds, so they are valid here.
        have hoko : ok pool.shared o := hok o (by rw [Pool.nextOp, hthread]; rfl)
        obtain ⟨hinv', hvalid, hlearns, hgood⟩ := h.exec choice pool.shared o hinv
          (fun k hk => hheld k (huses hk)) hoko
        refine ⟨⟨hinv', fun p hp => ?_⟩, hgood⟩
        -- The other threads are where they were; this one has learnt from the reply.
        rcases List.mem_or_eq_of_mem_set hp with hp | rfl
        · obtain ⟨held', hknows, hheld'⟩ := hthreads p hp
          exact ⟨held', hknows, fun k hk => hvalid k (hheld' k hk)⟩
        · refine ⟨_, hnext _, fun k hk => ?_⟩
          rcases List.mem_append.mp hk with hk | hk
          · exact hlearns k hk
          · exact hvalid k (hheld k hk)
      · exact ⟨⟨hinv, hthreads⟩, fun w hw => by cases hw⟩

/-- Every output of a run whose operations satisfy `ok` is good. This is the one induction over
interleavings that the method needs. -/
theorem Sound.outputs (h : M.Sound uses learns inv valid ok good) {init : σ} (hinit : inv init)
    {history : List (Visit (Pool Op Reply σ) (Input γ χ ι) ω)} {pool : Pool Op Reply σ}
    (hrun : M.Interleaving init history pool) (hok : ∀ v ∈ history, v.pre.Allows ok v.input) :
    ∀ w ∈ Transition.outputs history, good w := by
  have hboth : (∀ w ∈ Transition.outputs history, good w) ∧
      Safe uses learns inv valid pool := by
    refine hrun.history (fun history pool => (∀ w ∈ Transition.outputs history, good w) ∧
      Safe uses learns inv valid pool) (fun pool input => pool.Allows ok input) ?_ ?_ hok
    · exact ⟨fun w hw => (by cases hw), hinit, fun p hp => (by cases hp)⟩
    · rintro history pool input pool' outs - ⟨hgood, hsafe⟩ hallowed hstep
      obtain ⟨hsafe', hgood'⟩ := h.step hsafe hallowed
      rw [hstep] at hsafe' hgood'
      refine ⟨fun w hw => ?_, hsafe'⟩
      rw [outputs_snoc, List.mem_append] at hw
      exact hw.elim (hgood w) (hgood' w)
  exact hboth.1

end Rule

end Machine

end Concurrent
