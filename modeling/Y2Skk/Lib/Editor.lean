import Mathlib.Data.List.Induction
import Y2Skk.Lib.Transducer

/-!
# `Y2Skk.Lib.Editor`: a line of text with a cursor

A `Zipper` is a list with a cursor in it: what stands before the cursor, the nearest
first, and what stands after it. Each editing key is one step at the cursor, with no
position to compute and no bound to check, so the zipper is what an editor is compared
with and not how it is programmed.

A `Line` has besides the symbols that are typed but not yet settled: what is typed goes
through a transducer, whose state they are, and what that writes is inserted at the
cursor. BackSpace takes the unsettled symbols first, and the other keys do nothing while
there are some. Input methods work like this, since several keys may make up one
character.

## Runs of keys

`press` is one key, `run` a list of them, and `trail` lists the lines in between, for
statements about what is seen after every key. `run_type` says that typing inserts what
the transducer writes, and `run_type_backspace` that as many BackSpaces as symbols were
inserted restore the line, cursor and surroundings included.
-/

set_option autoImplicit false

universe u v

/-- A list with a cursor: what is before the cursor, the nearest first, and what is after it.
The part before is reversed, so that every edit touches the heads of the two lists only. -/
structure Zipper (α : Type u) where
  before : List α
  after : List α
  deriving DecidableEq, Repr

/-- The keys that edit a list at its cursor. -/
inductive EditKey where
  | backspace
  | delete
  | left
  | right
  deriving DecidableEq, Repr

namespace Zipper

variable {α : Type u}

/-- What is before the cursor, in reading order. -/
def upto (z : Zipper α) : List α := z.before.reverse

/-- The whole list, with the cursor forgotten. -/
def toList (z : Zipper α) : List α := z.upto ++ z.after

/-- The cursor ends up behind what is inserted. -/
def insert (z : Zipper α) (l : List α) : Zipper α := ⟨l.reverse ++ z.before, z.after⟩

/-- One key at the cursor: BackSpace and Delete remove the symbol before and after it, the
arrows move it over one symbol. At an end of the list the keys do nothing. -/
def edit (z : Zipper α) : EditKey → Zipper α
  | .backspace => ⟨z.before.tail, z.after⟩
  | .delete => ⟨z.before, z.after.tail⟩
  | .left =>
    match z.before with
    | [] => z
    | a :: before => ⟨before, a :: z.after⟩
  | .right =>
    match z.after with
    | [] => z
    | a :: after => ⟨a :: z.before, after⟩

/-- What is inserted stands before the cursor, behind what stood there. -/
@[simp] theorem upto_insert (z : Zipper α) (l : List α) : (z.insert l).upto = z.upto ++ l := by
  simp [upto, insert]

/-- What is after the cursor stays there. -/
@[simp] theorem after_insert (z : Zipper α) (l : List α) : (z.insert l).after = z.after := rfl

/-- Inserting nothing changes nothing. -/
@[simp] theorem insert_nil (z : Zipper α) : z.insert [] = z := rfl

/-- Two insertions in a row are one insertion of both texts, since the cursor follows what is
inserted. -/
theorem insert_insert (z : Zipper α) (l l' : List α) :
    (z.insert l).insert l' = z.insert (l ++ l') := by
  simp [insert]

/-- BackSpace takes back the last symbol inserted. -/
theorem backspace_insert_concat (z : Zipper α) (l : List α) (a : α) :
    (z.insert (l ++ [a])).edit .backspace = z.insert l := by
  simp [insert, edit]

end Zipper

/-- A line that is being edited: settled text with a cursor, and the symbols that a transducer
still holds. -/
structure Line (α : Type u) (β : Type v) where
  text : Zipper β
  /-- Typed, and not yet settled. -/
  pending : List α
  deriving DecidableEq, Repr

/-- A key on a line: a symbol that is typed, or one of the editing keys. -/
inductive LineKey (α : Type u) where
  | type (a : α)
  | edit (key : EditKey)
  deriving DecidableEq, Repr

namespace Line

variable {α : Type u} {β : Type v} (T : Transducer (List α) α β)

/-- One key on a line. A symbol goes through the transducer, and what that writes is inserted.
While symbols are pending, BackSpace drops the last of them and the other editing keys are
inert. -/
def press (line : Line α β) : LineKey α → Line α β
  | .type a => ⟨line.text.insert (T.step line.pending a).1, (T.step line.pending a).2⟩
  | .edit key =>
      if line.pending.isEmpty then ⟨line.text.edit key, line.pending⟩
      else if key = .backspace then ⟨line.text, line.pending.dropLast⟩
      else line

/-- The lines that the keys lead through, one for each key. The first line is left out, so the
trail is as long as the list of keys. -/
def trail (line : Line α β) : List (LineKey α) → List (Line α β)
  | [] => []
  | key :: keys => line.press T key :: (line.press T key).trail keys

/-- The line after a list of keys. -/
def run (line : Line α β) (keys : List (LineKey α)) : Line α β := keys.foldl (press T) line

/-- The last key of a list is pressed on the line that the others lead to. -/
@[simp] theorem run_concat (line : Line α β) (keys : List (LineKey α)) (key : LineKey α) :
    line.run T (keys ++ [key]) = (line.run T keys).press T key := by
  simp [run]

/-- The last key of a list adds one line to the trail: what the keys before have left, pressed
once more. -/
@[simp] theorem trail_concat (line : Line α β) (keys : List (LineKey α)) (key : LineKey α) :
    line.trail T (keys ++ [key]) = line.trail T keys ++ [(line.run T keys).press T key] := by
  induction keys generalizing line with
  | nil => rfl
  | cons first keys ih =>
      show line.press T first :: (line.press T first).trail T (keys ++ [key]) = _
      rw [ih]
      rfl

/-- Two lists of keys are pressed one after the other. -/
theorem run_append (line : Line α β) (keys keys' : List (LineKey α)) :
    line.run T (keys ++ keys') = (line.run T keys).run T keys' := List.foldl_append

/-- Typing inserts what the transducer writes, all at once; the symbols it has not settled are
pending then. -/
theorem run_type (line : Line α β) (l : List α) :
    line.run T (l.map .type) =
      ⟨line.text.insert (T.run line.pending l).1, (T.run line.pending l).2⟩ := by
  induction l generalizing line with
  | nil => rfl
  | cons a l ih =>
      show (line.press T (.type a)).run T (l.map .type) = _
      rw [ih, Transducer.run_cons]
      simp only [press, Zipper.insert_insert]

/-- As many BackSpaces as symbols take back what was inserted. The induction is from the right,
since BackSpace takes the last one. -/
theorem run_backspace (z : Zipper β) (l : List β) :
    Line.run T ⟨z.insert l, []⟩ (List.replicate l.length (.edit .backspace)) = ⟨z, []⟩ := by
  induction l using List.reverseRecOn with
  | nil => rfl
  | append_singleton l b ih =>
      rw [List.length_append, List.length_singleton, List.replicate_succ]
      show (Line.press T ⟨z.insert (l ++ [b]), []⟩ (.edit .backspace)).run T
        (List.replicate l.length (.edit .backspace)) = _
      rw [press, if_pos rfl, Zipper.backspace_insert_concat]
      exact ih

/-- What was typed is taken back, when all of it has settled. With symbols still pending the
first BackSpaces would go to them, and the count would be wrong. -/
theorem run_type_backspace {line : Line α β} (hsettled : line.pending = []) {l : List α}
    (hdone : (T.run [] l).2 = []) :
    line.run T (l.map .type ++
      List.replicate (T.run [] l).1.length (.edit .backspace)) = line := by
  obtain ⟨z, pending⟩ := line
  obtain rfl : pending = [] := hsettled
  rw [run_append, run_type, hdone, run_backspace]

end Line
