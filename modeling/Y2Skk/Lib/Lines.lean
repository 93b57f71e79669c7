import Mathlib.Data.List.DropRight
import Mathlib.Data.List.Infix
import Y2Skk.Lib.Text

/-!
# `Y2Skk.Lib.Lines`: lines, separators and white space

The `str` methods a line-based text format is read with: `lines`, `splitOnce`, `splitN`
and `trim`. They are total, and defined by recursion on the text, so that a round trip can
be proved by induction on what was written.

## Lines

A text is read line by line as it was written: `lines_flatMap` for a text of lines each
ended by a newline, `lines_newline` for one of them. `mem_lines` is the converse
information, that what is read as a line has no newline in it. The carriage return of a
Windows line end is dropped (`stripCr`), so a line that ends in one of its own is not read
back; the hypothesis of `lines_newline` says so.

## Separators

`splitOnce` cuts at the first occurrence of a pattern. `splitOnce_eq_some` and
`not_infix_of_splitOnce` describe a split that succeeded, and `splitOnce_append` computes
it at a known occurrence. For a pattern of several characters it is not enough that the
part before does not contain it: an occurrence may begin before and end inside the known
one, which is why the hypothesis speaks of the part before together with all but the last
character of the pattern. For a single character that subtlety disappears
(`splitOnce_singleton`).

## White space

`isWhitespace` is the Unicode property, and `isAsciiWhitespace` the shorter list of
characters that a parser for an ASCII format uses. A text is left alone by `trim` exactly
when neither of its ends is white space, and `trim_eq_self` asks for that.
-/

set_option autoImplicit false

namespace Utf8

/-! ### Lines -/

/-- A line without the carriage return of its line end. Only one is dropped, and only at the
end. -/
def stripCr (line : Str) : Str := if line.getLast? = some '\r' then line.dropLast else line

/-- The lines of a text, after the start `line` of the first one. The last line need not end in
a newline, and keeps its carriage return then; an empty rest after the last newline is no
line. -/
def linesFrom : Str → Str → List Str
  | line, [] => if line.isEmpty then [] else [line]
  | line, c :: s => if c = '\n' then stripCr line :: linesFrom [] s else linesFrom (line ++ [c]) s

/-- `str::lines`: the lines of a text, without their line ends. -/
def lines (s : Str) : List Str := linesFrom [] s

/-- A newline separates the lines before it from those after it, whatever stands before the text
on its first line. -/
theorem linesFrom_append_newline (x y : Str) : ∀ line : Str,
    linesFrom line (x ++ '\n' :: y) = linesFrom line (x ++ ['\n']) ++ lines y := by
  induction x with
  | nil => intro line; simp [linesFrom, lines]
  | cons c x ih =>
      intro line
      simp only [List.cons_append, linesFrom]
      split
      · rw [ih]; rfl
      · exact ih _

/-- A newline separates the lines before it from those after it. The rest is read from the start
of a line, so the two readings do not depend on each other. -/
theorem lines_append_newline (x y : Str) :
    lines (x ++ '\n' :: y) = lines (x ++ ['\n']) ++ lines y :=
  linesFrom_append_newline x y []

/-- A text of lines, each ended by a newline, is read as the readings of its lines. This is the
shape in which a serialiser writes. -/
theorem lines_flatMap (ls : List Str) :
    lines (ls.flatMap (· ++ ['\n'])) = ls.flatMap fun l => lines (l ++ ['\n']) := by
  induction ls with
  | nil => rfl
  | cons l ls ih =>
      rw [List.flatMap_cons, List.flatMap_cons, List.append_assoc, List.singleton_append,
        lines_append_newline, ih]

/-- A text without a newline is one line, and its carriage return goes with the newline that
ends it. -/
theorem linesFrom_newline {x : Str} (h : '\n' ∉ x) : ∀ line : Str,
    linesFrom line (x ++ ['\n']) = [stripCr (line ++ x)] := by
  induction x with
  | nil => intro line; simp [linesFrom]
  | cons c x ih =>
      intro line
      have hc : c ≠ '\n' := fun heq => h (heq ▸ List.mem_cons_self)
      rw [List.cons_append, linesFrom, if_neg hc, ih fun hx => h (List.mem_cons_of_mem _ hx),
        List.append_assoc, List.singleton_append]

/-- A line that has no newline and no carriage return at its end is read back as it was
written. -/
theorem lines_newline {x : Str} (h : '\n' ∉ x) (hcr : x.getLast? ≠ some '\r') :
    lines (x ++ ['\n']) = [x] := by
  rw [lines, linesFrom_newline h, List.nil_append, stripCr, if_neg hcr]

/-- A character of a stripped line is one of the line. -/
theorem mem_stripCr {line : Str} {c : Char} (h : c ∈ stripCr line) : c ∈ line := by
  unfold stripCr at h
  split at h
  · exact List.mem_of_mem_dropLast h
  · exact h

/-- No line has a newline in it, when the start of the first line has none. A carriage return
that is stripped from the end of a line only makes it shorter. -/
theorem mem_linesFrom (s : Str) : ∀ {line l : Str}, '\n' ∉ line → l ∈ linesFrom line s →
    '\n' ∉ l := by
  induction s with
  | nil =>
      intro line l hline hl
      unfold linesFrom at hl
      split at hl
      · cases hl
      · rwa [List.mem_singleton.mp hl]
  | cons c s ih =>
      intro line l hline hl
      unfold linesFrom at hl
      split at hl
      · -- a newline: the line read so far is done, and the next one starts empty
        rcases List.mem_cons.mp hl with rfl | hl
        · exact fun hmem => hline (mem_stripCr hmem)
        · exact ih List.not_mem_nil hl
      · rename_i hc
        refine ih ?_ hl
        rw [List.mem_append, List.mem_singleton]
        rintro (hmem | heq)
        · exact hline hmem
        · exact hc heq.symm

/-- A line has no newline in it, so what a line-based reader stores can be written on a line
again. -/
theorem mem_lines {s l : Str} (h : l ∈ lines s) : '\n' ∉ l := mem_linesFrom s List.not_mem_nil h

/-! ### Separators -/

/-- `s.split_once(pat)`, or the slices around `s.find(pat)`: the text before and after the first
occurrence. The empty pattern occurs at the start of every text. -/
def splitOnce (pat : Str) : Str → Option (Str × Str)
  | [] => if pat.isEmpty then some ([], []) else none
  | c :: s =>
      match pat.isPrefixOf? (c :: s) with
      | some rest => some ([], rest)
      | none => (splitOnce pat s).map fun p => (c :: p.1, p.2)

/-- A text that starts with the pattern is the pattern and the rest after it. -/
theorem isPrefixOf?_append (pat rest : Str) : pat.isPrefixOf? (pat ++ rest) = some rest :=
  List.isPrefixOf?_eq_some_iff_append_eq.mpr rfl

/-- The test for a prefix fails on a text that does not start with the pattern. -/
theorem isPrefixOf?_eq_none {pat s : Str} (h : ¬ pat <+: s) : pat.isPrefixOf? s = none := by
  cases hopt : pat.isPrefixOf? s with
  | none => rfl
  | some rest => exact (h ⟨rest, List.isPrefixOf?_eq_some_iff_append_eq.mp hopt⟩).elim

/-- A split is around an occurrence: the text is the part before, the pattern, and the part
after. That it is the first occurrence is not needed here. -/
theorem splitOnce_eq_some {pat s a b : Str} (h : splitOnce pat s = some (a, b)) :
    s = a ++ pat ++ b := by
  induction s generalizing a with
  | nil =>
      unfold splitOnce at h
      split at h
      · rename_i hpat
        cases h
        rw [List.isEmpty_iff.mp hpat]
        rfl
      · cases h
  | cons c s ih =>
      unfold splitOnce at h
      cases hpre : pat.isPrefixOf? (c :: s) with
      | some rest =>
          rw [hpre] at h
          cases h
          exact (List.isPrefixOf?_eq_some_iff_append_eq.mp hpre).symm
      | none =>
          rw [hpre] at h
          obtain ⟨⟨a', b'⟩, hsplit, heq⟩ := Option.map_eq_some_iff.mp h
          cases heq
          rw [ih hsplit]
          rfl

/-- The pattern does not occur before the split, since the split is at its first occurrence. The
empty pattern is excluded, because it occurs everywhere. -/
theorem not_infix_of_splitOnce {pat s a b : Str} (hpat : pat ≠ [])
    (h : splitOnce pat s = some (a, b)) : ¬ pat <:+: a := by
  induction s generalizing a with
  | nil =>
      unfold splitOnce at h
      split at h
      · rename_i hnil
        exact (hpat (List.isEmpty_iff.mp hnil)).elim
      · cases h
  | cons c s ih =>
      unfold splitOnce at h
      cases hpre : pat.isPrefixOf? (c :: s) with
      | some rest =>
          rw [hpre] at h
          cases h
          exact fun hinside => hpat (List.infix_nil.mp hinside)
      | none =>
          rw [hpre] at h
          obtain ⟨⟨a', b'⟩, hsplit, heq⟩ := Option.map_eq_some_iff.mp h
          cases heq
          intro hinside
          rcases List.infix_cons_iff.mp hinside with hleading | hinside
          · -- A prefix of the part before the split is a prefix of the whole.
            obtain ⟨rest, hrest⟩ := hleading
            have hwhole : c :: s = pat ++ (rest ++ pat ++ b') := by
              rw [splitOnce_eq_some hsplit, ← List.append_assoc, ← List.append_assoc, hrest]
              simp
            rw [hwhole, isPrefixOf?_append] at hpre
            cases hpre
          · exact ih hsplit hinside

/-- The split at a first occurrence. The last character of the pattern must not complete an
earlier one, so the hypothesis looks for the pattern in the part before it followed by all but
that character. -/
theorem splitOnce_append {pat : Str} (hpat : pat ≠ []) {a : Str} (b : Str)
    (h : ¬ pat <:+: a ++ pat.dropLast) : splitOnce pat (a ++ pat ++ b) = some (a, b) := by
  induction a with
  | nil =>
      obtain ⟨c, pat', rfl⟩ := List.exists_cons_of_ne_nil hpat
      rw [List.nil_append, List.cons_append, splitOnce, ← List.cons_append, isPrefixOf?_append]
  | cons c a ih =>
      -- A prefix of the whole text would lie within `a` and the pattern less its last
      -- character, since it is no longer than that.
      have hnot : ¬ pat <+: c :: (a ++ pat ++ b) := by
        intro hleading
        have hsub : c :: (a ++ pat.dropLast) <+: c :: (a ++ pat ++ b) := by
          have hinit : pat.dropLast <+: pat := List.dropLast_prefix pat
          rw [List.append_assoc, List.cons_prefix_cons]
          exact ⟨rfl, (List.prefix_append_right_inj a).mpr
            (hinit.trans (List.prefix_append pat b))⟩
        have hlen : pat.length ≤ (c :: (a ++ pat.dropLast)).length := by
          rw [List.length_cons, List.length_append, List.length_dropLast]
          omega
        exact h (List.prefix_of_prefix_length_le hleading hsub hlen).isInfix
      rw [List.cons_append, List.cons_append, splitOnce, isPrefixOf?_eq_none hnot]
      dsimp only
      rw [ih fun hinside => h (hinside.trans (List.infix_cons (List.infix_refl _)))]
      rfl

/-- The split at a character: the part before is what holds no such character. -/
theorem splitOnce_singleton {c : Char} {a : Str} (b : Str) (h : c ∉ a) :
    splitOnce [c] (a ++ c :: b) = some (a, b) := by
  have hnot : ¬ [c] <:+: a ++ [c].dropLast := fun hinside => by
    rw [List.dropLast_singleton, List.append_nil] at hinside
    exact h (hinside.subset (List.mem_singleton_self c))
  simpa using splitOnce_append (List.cons_ne_nil c []) b hnot

/-- A character that does not occur is not split at. -/
theorem splitOnce_eq_none {c : Char} {s : Str} (h : c ∉ s) : splitOnce [c] s = none := by
  cases hsplit : splitOnce [c] s with
  | none => rfl
  | some p =>
      have hs := splitOnce_eq_some hsplit
      rw [hs] at h
      simp at h

/-- `s.splitn(n, c)`: at most `n` parts, the last one with the separators left in it. A text of
fewer parts gives all of them. -/
def splitN (c : Char) : Nat → Str → List Str
  | 0, _ => []
  | 1, s => [s]
  | n + 2, s =>
      match splitOnce [c] s with
      | some (field, rest) => field :: splitN c (n + 1) rest
      | none => [s]

/-- A first field without the separator is cut off, and the rest is split into one part less. -/
theorem splitN_cons {c : Char} {field : Str} (h : c ∉ field) (n : Nat) (rest : Str) :
    splitN c (n + 2) (field ++ c :: rest) = field :: splitN c (n + 1) rest := by
  rw [splitN, splitOnce_singleton rest h]

/-- A text without the separator is one part, however many were allowed. -/
theorem splitN_last {c : Char} {field : Str} (h : c ∉ field) (n : Nat) :
    splitN c (n + 1) field = [field] := by
  cases n with
  | zero => rfl
  | succ n => rw [splitN, splitOnce_eq_none h]

/-- A field is a part of the text without the separator. Both facts are wanted together: the
first to write the field again, the second to carry a property of the whole text over to it. -/
theorem mem_splitOn {a : Char} (s : Str) : ∀ field ∈ s.splitOn a, a ∉ field ∧ field ⊆ s := by
  induction s with
  | nil =>
      intro field hfield
      rw [List.splitOn_nil, List.mem_singleton] at hfield
      simp [hfield]
  | cons x s ih =>
      intro field hfield
      rw [List.splitOn_cons_eq_if_modifyHead] at hfield
      by_cases hx : x = a
      · rw [if_pos (by simpa using hx)] at hfield
        rcases List.mem_cons.mp hfield with rfl | hfield
        · simp
        · exact ⟨(ih field hfield).1, List.subset_cons_of_subset x (ih field hfield).2⟩
      · rw [if_neg (by simpa using hx)] at hfield
        obtain ⟨first, rest, hsplit⟩ := List.exists_cons_of_ne_nil (List.splitOn_ne_nil a s)
        -- the character belongs to the first field of the rest
        rw [hsplit, List.modifyHead_cons] at hfield
        rw [hsplit] at ih
        rcases List.mem_cons.mp hfield with rfl | hfield
        · obtain ⟨hnot, hsub⟩ := ih first (by simp)
          refine ⟨?_, List.cons_subset_cons x hsub⟩
          rw [List.mem_cons, not_or]
          exact ⟨fun heq => hx heq.symm, hnot⟩
        · obtain ⟨hnot, hsub⟩ := ih field (by simp [hfield])
          exact ⟨hnot, List.subset_cons_of_subset x hsub⟩

/-- Texts joined by a separator that also follows the last one are the texts each followed by
it. The empty list is excluded, since its join has no separator to be followed by. -/
theorem intercalate_append_self (sep : Str) {ls : List Str} (h : ls ≠ []) :
    sep.intercalate ls ++ sep = ls.flatMap (· ++ sep) := by
  induction ls with
  | nil => exact (h rfl).elim
  | cons l ls ih =>
      cases ls with
      | nil => simp
      | cons l' ls =>
          rw [List.intercalate_cons_cons, List.append_assoc, ih (List.cons_ne_nil _ _)]
          rfl

/-- Joining with an empty text at the end puts the separator after every other one, and this
holds of the empty list too. -/
theorem intercalate_append_nil (sep : Str) (ls : List Str) :
    sep.intercalate (ls ++ [[]]) = ls.flatMap (· ++ sep) := by
  induction ls with
  | nil => simp
  | cons l ls ih =>
      rw [List.cons_append, List.intercalate_cons_of_ne_nil (by simp), ih, List.flatMap_cons]

/-! ### White space -/

/-- `char::is_whitespace`: the Unicode property `White_Space`, as the ranges of code points that
have it. -/
def isWhitespace (c : Char) : Bool :=
  let n := c.toNat
  decide ((9 ≤ n ∧ n ≤ 13) ∨ n = 0x20 ∨ n = 0x85 ∨ n = 0xA0 ∨ n = 0x1680 ∨
    (0x2000 ≤ n ∧ n ≤ 0x200A) ∨ n = 0x2028 ∨ n = 0x2029 ∨ n = 0x202F ∨ n = 0x205F ∨ n = 0x3000)

/-- `char::is_ascii_whitespace`: no vertical tab, and nothing outside ASCII. -/
def isAsciiWhitespace (c : Char) : Bool :=
  c = ' ' || c = '\t' || c = '\n' || c = '\x0c' || c = '\r'

/-- `str::trim_start`: the text from its first character that is not white space. -/
def trimStart (s : Str) : Str := s.dropWhile isWhitespace

/-- `str::trim_end`: the text up to its last character that is not white space. -/
def trimEnd (s : Str) : Str := s.rdropWhile isWhitespace

/-- `str::trim`: white space is dropped at both ends, and inside the text it stays. -/
def trim (s : Str) : Str := trimEnd (trimStart s)

/-- Nothing to trim: neither end of the text is white space. The empty text has no ends, and
meets both hypotheses. -/
theorem trim_eq_self {s : Str} (hhead : ∀ c, s.head? = some c → isWhitespace c = false)
    (hlast : ∀ c, s.getLast? = some c → isWhitespace c = false) : trim s = s := by
  have hstart : trimStart s = s := by
    cases s with
    | nil => rfl
    | cons c s => rw [trimStart, List.dropWhile_cons_of_neg (by simp [hhead c rfl])]
  rw [trim, hstart, trimEnd, List.rdropWhile_eq_self_iff]
  intro hne
  have := hlast _ (List.getLast?_eq_some_getLast hne)
  rw [this]
  exact Bool.false_ne_true

/-- What is left after trimming does not start with white space: it is a beginning of what was
left when the start was trimmed. -/
theorem head?_trim {s : Str} {c : Char} (h : (trim s).head? = some c) :
    isWhitespace c = false := by
  have hleading : trim s <+: trimStart s := List.rdropWhile_prefix _ _
  obtain ⟨rest, hrest⟩ := hleading
  have hstart : (trimStart s).head? = some c := by
    rw [← hrest, List.head?_append, h]
    rfl
  cases hdrop : trimStart s with
  | nil => rw [hdrop] at hstart; cases hstart
  | cons d t =>
      rw [hdrop, List.head?_cons, Option.some.injEq] at hstart
      have := List.head?_dropWhile_not isWhitespace s
      rw [show s.dropWhile isWhitespace = d :: t from hdrop, List.head?_cons] at this
      simpa [hstart] using this

/-- Trimming adds no characters. -/
theorem mem_trim {s : Str} {c : Char} (h : c ∈ trim s) : c ∈ s := by
  have hleading : trim s <+: trimStart s := List.rdropWhile_prefix _ _
  exact (List.dropWhile_sublist _).subset (hleading.subset h)

end Utf8
