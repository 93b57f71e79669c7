import Mathlib.Data.List.Basic
import Mathlib.Data.List.Count
import Mathlib.Tactic.Common

/-!
# `Y2Skk.Lib.Ticker`: timer threads that report through a pipe

A ticker is a thread that sleeps, looks at its cancel flag, and writes a tag into a pipe
that all tickers share. Some then end, others sleep again. An event loop reads the pipe,
and acts on the tags it finds. This is how a loop that waits on file descriptors gets
timers without a timer wheel.

## The race

Between the look at the flag and the write anything can happen, so a ticker that is
cancelled there still writes, once. A loop that cancels a timer and starts another one for
the same tag can therefore read the tag of the old one. The pipe has a capacity; a write
that finds it full fails, and ends its thread.

## What can be said

* `Due`: a tag is in the pipe, or a ticker that nobody has cancelled will write it. Only a
  full pipe takes a tag that is due away (`Due.advance`).
* `OwnedBy`: of the tickers of a tag, at most the one of the owner is not cancelled. A
  loop that remembers the last ticker it started for a tag, and cancels it before it
  starts the next, keeps this (`OwnedBy.cancel_owner`, `OwnedBy.spawn`).
* `late`: the tickers, other than that of the owner, that are about to write the tag. They
  are what the race leaves behind, and `count_advance_le` bounds what they add to the
  pipe: each of them one tag, and none is added to their number but by a cancellation.
-/

set_option autoImplicit false

namespace Timers

/-- Where a ticker stands. The look at the flag and the write are two steps, since the flag may
be set between them. -/
inductive Stage where
  | asleep
  /-- It found its flag unset, and is about to write. -/
  | firing
  | ended
  deriving DecidableEq, Repr

/-- A timer thread: the tag it writes, whether it goes on after a write, its cancel flag, and
where it stands. -/
structure Ticker (τ : Type) where
  tag : τ
  /-- It sleeps again after a write. -/
  again : Bool
  cancelled : Bool := false
  stage : Stage := .asleep
  deriving DecidableEq, Repr

namespace Ticker
variable {τ : Type}

/-- Sets the cancel flag. The thread finds out the next time it looks. -/
def cancel (t : Ticker τ) : Ticker τ := { t with cancelled := true }

/-- The ticker is not cancelled, and has not ended: it will write its tag again. -/
def Live (t : Ticker τ) : Prop := t.cancelled = false ∧ t.stage ≠ .ended

/-- Whether a ticker is live is seen from its two fields. -/
instance (t : Ticker τ) : Decidable t.Live := inferInstanceAs (Decidable (_ ∧ _))

/-- The ticker after its next step, and what it writes. `room` says that the pipe is not full; a
write into a full pipe fails, and the thread ends. -/
def advance (t : Ticker τ) (room : Bool) : Ticker τ × List τ :=
  match t.stage with
  | .asleep => ({ t with stage := if t.cancelled then .ended else .firing }, [])
  | .firing =>
      if room then ({ t with stage := if t.again then .asleep else .ended }, [t.tag])
      else ({ t with stage := .ended }, [])
  | .ended => (t, [])

/-- A ticker never changes its tag. -/
@[simp] theorem advance_tag (t : Ticker τ) (room : Bool) : (t.advance room).1.tag = t.tag := by
  unfold advance
  split
  · rfl
  · split <;> rfl
  · rfl

/-- A ticker does not touch its own flag. -/
@[simp] theorem advance_cancelled (t : Ticker τ) (room : Bool) :
    (t.advance room).1.cancelled = t.cancelled := by
  unfold advance
  split
  · rfl
  · split <;> rfl
  · rfl

/-- A live ticker that finds room has written its tag, or is still live. The hypothesis about
room is only needed where it writes. -/
theorem Live.advance {t : Ticker τ} (h : t.Live) (room : Bool)
    (hroom : t.stage = .firing → room = true) :
    t.tag ∈ (t.advance room).2 ∨ (t.advance room).1.Live := by
  obtain ⟨hcancelled, hstage⟩ := h
  cases hs : t.stage with
  | asleep =>
      right
      simp [Ticker.advance, hs, hcancelled, Live]
  | firing =>
      left
      simp [Ticker.advance, hs, hroom hs]
  | ended => exact absurd hs hstage

section Late
variable [DecidableEq τ]

/-- The ticker was cancelled when it was about to write the tag: it will write it
nevertheless. -/
def isLate (tag : τ) (t : Ticker τ) : Bool :=
  t.tag = tag ∧ t.cancelled = true ∧ t.stage = .firing

/-- No ticker gets late by a step of its own: after the look at a set flag it ends, and after a
write it is asleep or has ended. -/
theorem isLate_advance (t : Ticker τ) (tag : τ) (room : Bool) :
    (t.advance room).1.isLate tag = false := by
  cases hstage : t.stage with
  | asleep => cases hc : t.cancelled <;> simp [isLate, advance, hstage, hc]
  | firing => cases room <;> cases ha : t.again <;> simp [isLate, advance, hstage, ha]
  | ended => simp [isLate, advance, hstage]

/-- A cancelled ticker writes the tag only when it is late, and then once: it had woken up
before it was cancelled. -/
theorem count_advance_le (t : Ticker τ) (tag : τ) (room : Bool)
    (hcancelled : t.tag = tag → t.cancelled = true) :
    (t.advance room).2.count tag ≤ if t.isLate tag then 1 else 0 := by
  cases hstage : t.stage with
  | asleep => simp [advance, hstage]
  | ended => simp [advance, hstage]
  | firing =>
      by_cases htag : t.tag = tag
      · rw [if_pos (by simp [isLate, htag, hcancelled htag, hstage])]
        cases room <;> simp [advance, hstage, htag]
      · cases room <;> simp [advance, hstage, htag]

end Late

end Ticker

/-- The tickers, each known by its place, and what is in the pipe. -/
structure Tickers (τ : Type) where
  threads : List (Ticker τ) := []
  pipe : List τ := []
  deriving DecidableEq, Repr

namespace Tickers
variable {τ : Type}

/-- Starts a ticker. Its place is the number of those before it, and stays its own, since
tickers that end are not removed. -/
def spawn (s : Tickers τ) (tag : τ) (again : Bool) : Tickers τ :=
  { s with threads := s.threads ++ [⟨tag, again, false, .asleep⟩] }

/-- Sets the flag of a ticker, if there is one to cancel. -/
def cancel (s : Tickers τ) (owner : Option Nat) : Tickers τ :=
  match owner with
  | none => s
  | some i =>
    match s.threads[i]? with
    | some t => { s with threads := s.threads.set i t.cancel }
    | none => s

/-- What a ticker writes in its next step: one tag or none. -/
def written (capacity : Nat) (s : Tickers τ) (i : Nat) : List τ :=
  match s.threads[i]? with
  | some t => (t.advance (s.pipe.length < capacity)).2
  | none => []

/-- A ticker takes its next step. What it writes goes to the end of the pipe. -/
def advance (capacity : Nat) (s : Tickers τ) (i : Nat) : Tickers τ :=
  match s.threads[i]? with
  | some t =>
      { threads := s.threads.set i (t.advance (s.pipe.length < capacity)).1
        pipe := s.pipe ++ s.written capacity i }
  | none => s

/-- Somebody reads from the pipe, and takes its oldest tags. -/
def drop (s : Tickers τ) (n : Nat) : Tickers τ := { s with pipe := s.pipe.drop n }

/-- Starting a ticker writes nothing. -/
@[simp] theorem spawn_pipe (s : Tickers τ) (tag : τ) (again : Bool) :
    (s.spawn tag again).pipe = s.pipe := rfl

/-- Setting a flag writes nothing, and takes nothing back from the pipe. -/
@[simp] theorem cancel_pipe (s : Tickers τ) (owner : Option Nat) :
    (s.cancel owner).pipe = s.pipe := by
  unfold cancel
  split
  · rfl
  · split <;> rfl

/-- Setting a flag starts and removes no ticker, so the numbers of the others stay what they
are. -/
@[simp] theorem cancel_length (s : Tickers τ) (owner : Option Nat) :
    (s.cancel owner).threads.length = s.threads.length := by
  unfold cancel
  split
  · rfl
  · split
    · exact List.length_set ..
    · rfl

/-- A step adds to the pipe what the ticker writes. -/
@[simp] theorem advance_pipe (capacity : Nat) (s : Tickers τ) (i : Nat) :
    (s.advance capacity i).pipe = s.pipe ++ s.written capacity i := by
  unfold advance
  split
  · rfl
  · rename_i hnone
    simp [written, hnone]

/-- Reading takes from the front. -/
@[simp] theorem drop_pipe (s : Tickers τ) (n : Nat) : (s.drop n).pipe = s.pipe.drop n := rfl

/-- The tickers after a new one was started: the old ones, and the new one at the next place. -/
theorem getElem?_spawn {s : Tickers τ} {tag : τ} {again : Bool} {i : Nat} {t : Ticker τ}
    (h : (s.spawn tag again).threads[i]? = some t) :
    s.threads[i]? = some t ∨ (i = s.threads.length ∧ t = ⟨tag, again, false, .asleep⟩) := by
  have hget : (s.threads ++ [⟨tag, again, false, .asleep⟩])[i]? = some t := h
  by_cases hlt : i < s.threads.length
  · left
    rwa [List.getElem?_append_left hlt] at hget
  · right
    rw [List.getElem?_append_right (Nat.le_of_not_lt hlt)] at hget
    have hsmall := (List.getElem?_eq_some_iff.mp hget).1
    simp only [List.length_singleton] at hsmall
    have hi : i = s.threads.length := by omega
    rw [hi, Nat.sub_self] at hget
    exact ⟨hi, (Option.some.inj hget).symm⟩

/-- The old tickers keep their places. -/
theorem getElem?_spawn_old (s : Tickers τ) (tag : τ) (again : Bool) {i : Nat} {t : Ticker τ}
    (h : s.threads[i]? = some t) : (s.spawn tag again).threads[i]? = some t := by
  have hlt := (List.getElem?_eq_some_iff.mp h).1
  show (s.threads ++ [_])[i]? = some t
  rw [List.getElem?_append_left hlt, h]

/-- The tickers after one of them was cancelled. Its flag is set and the others are as they
were. Without an owner, or with one that is no ticker, nothing changes. -/
theorem getElem?_cancel (s : Tickers τ) (owner : Option Nat) (i : Nat) :
    (s.cancel owner).threads[i]? =
      if owner = some i then s.threads[i]?.map Ticker.cancel else s.threads[i]? := by
  cases owner with
  | none => simp [cancel]
  | some j =>
      cases hj : s.threads[j]? with
      | none =>
          by_cases h : j = i
          · subst h
            simp [cancel, hj]
          · simp [cancel, hj, h]
      | some t =>
          have hlt := (List.getElem?_eq_some_iff.mp hj).1
          by_cases h : j = i
          · subst h
            simp [cancel, hj, List.getElem?_set_self hlt]
          · simp [cancel, hj, h, List.getElem?_set_ne h]

/-- The tickers after one of them took a step; the others stand still. Whether it can write
depends on the room in the pipe. -/
theorem getElem?_advance (capacity : Nat) (s : Tickers τ) (i j : Nat) :
    (s.advance capacity i).threads[j]? =
      if i = j then s.threads[j]?.map fun t => (t.advance (s.pipe.length < capacity)).1
      else s.threads[j]? := by
  cases hi : s.threads[i]? with
  | none =>
      by_cases h : i = j
      · subst h
        simp [advance, hi]
      · simp [advance, hi, h]
  | some t =>
      have hlt := (List.getElem?_eq_some_iff.mp hi).1
      by_cases h : i = j
      · subst h
        simp [advance, hi, List.getElem?_set_self hlt]
      · simp [advance, hi, h, List.getElem?_set_ne h]

/-! ### A tag that is due -/

/-- The tag is in the pipe, or a live ticker will write it. In either case the loop will read
it, if the pipe has room when it is written. -/
def Due (s : Tickers τ) (tag : τ) : Prop :=
  tag ∈ s.pipe ∨ ∃ (i : Nat) (t : Ticker τ), s.threads[i]? = some t ∧ t.tag = tag ∧ t.Live

/-- A ticker that was just started makes its tag due. -/
theorem due_spawn (s : Tickers τ) (tag : τ) (again : Bool) : (s.spawn tag again).Due tag := by
  right
  refine ⟨s.threads.length, ⟨tag, again, false, .asleep⟩, ?_, rfl, rfl, by simp⟩
  simp [spawn]

/-- Another ticker that is started takes nothing away. -/
theorem Due.spawn {s : Tickers τ} {tag : τ} (h : s.Due tag) (tag' : τ) (again : Bool) :
    (s.spawn tag' again).Due tag := by
  rcases h with hpipe | ⟨i, t, ht, hlive⟩
  · exact .inl hpipe
  · exact .inr ⟨i, t, getElem?_spawn_old s tag' again ht, hlive⟩

/-- A tag that is due stays so while its tickers find room in the pipe. The step of another
tag's ticker needs no room: it is not what the tag is waiting for. -/
theorem Due.advance {capacity : Nat} {s : Tickers τ} {tag : τ} (h : s.Due tag) (i : Nat)
    (hroom : ∀ t, s.threads[i]? = some t → t.tag = tag → t.stage = .firing →
      s.pipe.length < capacity) : (s.advance capacity i).Due tag := by
  rcases h with hpipe | ⟨j, t, hj, htag, hlive⟩
  · left
    rw [advance_pipe]
    exact List.mem_append_left _ hpipe
  · by_cases hij : i = j
    · -- The live ticker itself takes the step.
      subst hij
      have hstep := hlive.advance (s.pipe.length < capacity)
        (fun hstage => decide_eq_true (hroom t hj htag hstage))
      rcases hstep with hwritten | hstill
      · left
        rw [advance_pipe, ← htag]
        refine List.mem_append_right _ ?_
        simpa [Tickers.written, hj] using hwritten
      · right
        refine ⟨i, _, ?_, ?_, hstill⟩
        · rw [getElem?_advance, if_pos rfl, hj]
          rfl
        · rw [Ticker.advance_tag, htag]
    · right
      refine ⟨j, t, ?_, htag, hlive⟩
      rw [getElem?_advance, if_neg hij, hj]

/-! ### The owner of a tag -/

/-- The owner is a ticker of the tag, and the only one that may not be cancelled. The owner
itself may have been cancelled, or have ended. -/
structure OwnedBy (s : Tickers τ) (tag : τ) (owner : Option Nat) : Prop where
  own : ∀ i, owner = some i → ∃ t, s.threads[i]? = some t ∧ t.tag = tag
  only : ∀ i t, s.threads[i]? = some t → t.tag = tag → t.cancelled = false → owner = some i

/-- Without tickers there is no owner. -/
theorem ownedBy_empty (tag : τ) : ({} : Tickers τ).OwnedBy tag none where
  own i hi := by cases hi
  only i t ht htag hcancelled := by cases ht

/-- The steps of the tickers change neither tags nor flags, so the owner stays the owner. -/
theorem OwnedBy.advance {capacity : Nat} {s : Tickers τ} {tag : τ} {owner : Option Nat}
    (h : s.OwnedBy tag owner) (i : Nat) : (s.advance capacity i).OwnedBy tag owner where
  own j hj := by
    obtain ⟨t, ht, htag⟩ := h.own j hj
    rw [getElem?_advance]
    split
    · exact ⟨_, by rw [ht]; rfl, by rw [Ticker.advance_tag, htag]⟩
    · exact ⟨t, ht, htag⟩
  only j t ht htag hcancelled := by
    rw [getElem?_advance] at ht
    split at ht
    · obtain ⟨old, hold, rfl⟩ := Option.map_eq_some_iff.mp ht
      rw [Ticker.advance_tag] at htag
      rw [Ticker.advance_cancelled] at hcancelled
      exact h.only j old hold htag hcancelled
    · exact h.only j t ht htag hcancelled

/-- Cancelling a ticker of another tag, or any ticker at all, leaves the owner in place: flags
are only set. -/
theorem OwnedBy.cancel {s : Tickers τ} {tag : τ} {owner : Option Nat} (h : s.OwnedBy tag owner)
    (other : Option Nat) : (s.cancel other).OwnedBy tag owner where
  own i hi := by
    obtain ⟨t, ht, htag⟩ := h.own i hi
    rw [getElem?_cancel]
    split
    · exact ⟨t.cancel, by rw [ht]; rfl, htag⟩
    · exact ⟨t, ht, htag⟩
  only i t ht htag hcancelled := by
    rw [getElem?_cancel] at ht
    split at ht
    · obtain ⟨old, _, rfl⟩ := Option.map_eq_some_iff.mp ht
      cases hcancelled
    · exact h.only i t ht htag hcancelled

/-- Once the owner is cancelled, every ticker of the tag is, and the tag has no owner any
more. -/
theorem OwnedBy.cancel_owner {s : Tickers τ} {tag : τ} {owner : Option Nat}
    (h : s.OwnedBy tag owner) : (s.cancel owner).OwnedBy tag none where
  own i hi := by cases hi
  only i t ht htag hcancelled := by
    rw [getElem?_cancel] at ht
    split at ht
    · obtain ⟨old, _, rfl⟩ := Option.map_eq_some_iff.mp ht
      cases hcancelled
    · rename_i hnot
      exact absurd (h.only i t ht htag hcancelled) hnot

/-- The new ticker is the owner, once nobody else is: all others with its tag have been
cancelled. -/
theorem OwnedBy.spawn {s : Tickers τ} {tag : τ} (h : s.OwnedBy tag none) (again : Bool) :
    (s.spawn tag again).OwnedBy tag (some s.threads.length) where
  own i hi := by
    cases hi
    exact ⟨⟨tag, again, false, .asleep⟩, by simp [Tickers.spawn], rfl⟩
  only i t ht htag hcancelled := by
    rcases getElem?_spawn ht with hold | ⟨hi, _⟩
    · cases h.only i t hold htag hcancelled
    · rw [hi]

/-- A ticker of another tag does not concern the owner, which keeps its number. -/
theorem OwnedBy.spawn_other {s : Tickers τ} {tag : τ} {owner : Option Nat}
    (h : s.OwnedBy tag owner) {tag' : τ} (htag' : tag' ≠ tag) (again : Bool) :
    (s.spawn tag' again).OwnedBy tag owner where
  own i hi := by
    obtain ⟨t, ht, htag⟩ := h.own i hi
    exact ⟨t, getElem?_spawn_old s tag' again ht, htag⟩
  only i t ht htag hcancelled := by
    rcases getElem?_spawn ht with hold | ⟨_, rfl⟩
    · exact h.only i t hold htag hcancelled
    · exact absurd htag htag'

/-- Reading from the pipe does not concern the tickers. -/
theorem OwnedBy.drop {s : Tickers τ} {tag : τ} {owner : Option Nat} (h : s.OwnedBy tag owner)
    (n : Nat) : (s.drop n).OwnedBy tag owner := ⟨h.own, h.only⟩

/-- Cancelling the owner of another tag leaves a tag due: the cancelled ticker writes that other
tag. -/
theorem Due.cancel_other {s : Tickers τ} {tag tag' : τ} (h : s.Due tag) {owner : Option Nat}
    (howner : s.OwnedBy tag' owner) (htag' : tag' ≠ tag) : (s.cancel owner).Due tag := by
  rcases h with hpipe | ⟨i, t, hi, htag, hlive⟩
  · exact .inl (by rwa [cancel_pipe])
  · right
    refine ⟨i, t, ?_, htag, hlive⟩
    rw [getElem?_cancel, if_neg, hi]
    -- The cancelled ticker would have both tags.
    intro hsame
    obtain ⟨t', ht', hother⟩ := howner.own i hsame
    rw [hi] at ht'
    exact htag' (by rw [← hother, ← htag, Option.some.inj ht'])

/-! ### Late writes -/

section Late
variable [DecidableEq τ]

/-- The tickers that were cancelled when they were about to write the tag. -/
def late (s : Tickers τ) (tag : τ) : Nat := s.threads.countP fun t => t.isLate tag

/-- Reading from the pipe makes no ticker late. -/
@[simp] theorem late_drop (s : Tickers τ) (tag : τ) (n : Nat) : (s.drop n).late tag = s.late tag :=
  rfl

/-- A new ticker is asleep, and so not late. -/
theorem late_spawn (s : Tickers τ) (tag tag' : τ) (again : Bool) :
    (s.spawn tag' again).late tag = s.late tag := by
  unfold late spawn
  rw [List.countP_append]
  simp [Ticker.isLate]

/-- Cancelling the owner of another tag makes no ticker of this one late. -/
theorem OwnedBy.late_cancel {s : Tickers τ} {tag tag' : τ} {owner : Option Nat}
    (h : s.OwnedBy tag' owner) (htag' : tag' ≠ tag) : (s.cancel owner).late tag = s.late tag := by
  cases owner with
  | none => rfl
  | some i =>
      obtain ⟨t, ht, htag⟩ := h.own i rfl
      obtain ⟨hlt, hget⟩ := List.getElem?_eq_some_iff.mp ht
      have hother : t.tag ≠ tag := by rwa [htag]
      have hset : (s.cancel (some i)).threads = s.threads.set i t.cancel := by
        simp [Tickers.cancel, ht]
      unfold Tickers.late
      rw [hset, List.countP_set hlt, hget]
      simp [Ticker.isLate, Ticker.cancel, hother]

/-- What a step adds to the pipe was owed by a late ticker, or the owner wrote it. Written as a
sum: tags added, plus late tickers left, are at most the late tickers before, plus what the
owner wrote. -/
theorem OwnedBy.count_advance_le (capacity : Nat) {s : Tickers τ} {tag : τ} {owner : Option Nat}
    (h : s.OwnedBy tag owner) (i : Nat) :
    (s.written capacity i).count tag + (s.advance capacity i).late tag ≤
      s.late tag + if owner = some i then (s.written capacity i).count tag else 0 := by
  cases ht : s.threads[i]? with
  | none => simp [written, Tickers.advance, ht]
  | some t =>
      obtain ⟨hlt, hget⟩ := List.getElem?_eq_some_iff.mp ht
      -- Only the ticker that takes the step may stop being late.
      have hlate : (s.advance capacity i).late tag =
          s.late tag - if t.isLate tag then 1 else 0 := by
        unfold Tickers.late Tickers.advance
        rw [ht]
        dsimp only
        rw [List.countP_set hlt, hget, Ticker.isLate_advance]
        simp
      have hpos : t.isLate tag = true → 0 < s.late tag := by
        intro hl
        exact List.countP_pos_iff.mpr ⟨t, List.mem_iff_getElem?.mpr ⟨i, ht⟩, hl⟩
      have hwritten : s.written capacity i = (t.advance (s.pipe.length < capacity)).2 := by
        simp [written, ht]
      rw [hlate, hwritten]
      -- The owner may write freely; any other ticker of the tag is cancelled, and pays with its
      -- lateness.
      by_cases howner : owner = some i
      · rw [if_pos howner]
        omega
      · -- A ticker of the tag that is not the owner's is cancelled.
        have hcancelled : t.tag = tag → t.cancelled = true := by
          intro htag
          cases hc : t.cancelled with
          | true => rfl
          | false => exact absurd (h.only i t ht htag hc) howner
        have hle := t.count_advance_le tag (s.pipe.length < capacity) hcancelled
        rw [if_neg howner]
        by_cases hl : t.isLate tag = true
        · have := hpos hl
          rw [if_pos hl] at hle ⊢
          omega
        · rw [if_neg hl] at hle ⊢
          omega

end Late

end Tickers

end Timers
