import Y2Skk.Lib.Text

/-!
# `Y2Skk.Num.Convert`: digit strings in the notations of the numeric markers

`convert digits ty` writes a run of ASCII digits in one of the notations of `NumType`. It
returns `none` where the notation has no form for the value: the kanji and Roman notations
read the digits as a number, which must fit into 64 bits, and the Roman and circled ones
have a largest number of their own. The notations that work digit by digit have no bound.

## No index out of range

The only partial operation is the index into the digit characters of the kanji notations,
so `convert` is a `Partial` computation; `convert_runs` shows that it always returns. The
argument is about places: every group the large units leave is below 10000, so every digit
written inside a group is below 10 (`Places`). The same invariant gives more than the
absence of a panic: `kanjiNumber_eq` says what is written, as the texts of the groups one
after the other, without the loops and their running remainder.

The tables of digits, units and Roman numerals are those of the source, in its order.
-/

set_option autoImplicit false

namespace Y2Skk

open Outcome
open Utf8 (Str)

/-- Numeric conversion type, one for each marker character other than `4`. The recursive lookup
of `#4` is no conversion of the digits and is handled on its own. -/
inductive NumType where
  | raw
  | zenkaku
  | kanjiPos
  | kanjiSeq
  | daiji
  | shogi
  | romanUpperUnicode
  | romanLowerUnicode
  | romanUpperAscii
  | romanLowerAscii
  | circled
  deriving DecidableEq, Repr

namespace NumType

/-- `NumType::from_marker`: the type of a marker character. `'4'` is not among them: it asks for
a dictionary lookup, and neither is `'8'`, which stands for nothing. -/
def fromMarker (ch : Char) : Option NumType :=
  if ch = '0' then some .raw
  else if ch = '1' then some .zenkaku
  else if ch = '2' then some .kanjiPos
  else if ch = '3' then some .kanjiSeq
  else if ch = '5' then some .daiji
  else if ch = '9' then some .shogi
  else if ch = '6' then some .romanUpperUnicode
  else if ch = '7' then some .romanLowerUnicode
  else if ch = 'a' then some .romanUpperAscii
  else if ch = 'b' then some .romanLowerAscii
  else if ch = 'c' then some .circled
  else none

/-- `SYNTH_TYPES`: the types candidates are synthesised in, in this order. -/
def synthTypes : List NumType :=
  [.raw, .zenkaku, .kanjiPos, .kanjiSeq, .daiji, .shogi, .romanUpperUnicode,
   .romanLowerUnicode, .romanUpperAscii, .romanLowerAscii, .circled]

end NumType

/-- `char::from_u32`: none for a surrogate, and past the last code point. -/
def charFromU32 (n : Nat) : Option Char :=
  if h : n.isValidChar then some (Char.ofNatAux n h) else none

/-- The value of a string of ASCII digits. Leading zeros do not count. -/
def digitsValue (digits : Str) : Nat :=
  digits.foldl (fun acc c => acc * 10 + (c.toNat - '0'.toNat)) 0

/-- The sign `str::parse::<u64>` accepts before the digits. -/
def dropPlus (digits : Str) : Str := if digits.head? = some '+' then digits.tail else digits

/-- `str::parse::<u64>`: an optional `+`, then at least one ASCII digit, with a value
below `2 ^ 64`. -/
def parseU64 (digits : Str) : Option Nat :=
  if dropPlus digits = [] ∨ ¬ (dropPlus digits).all Char.isDigit then none
  else if digitsValue (dropPlus digits) < 2 ^ 64 then some (digitsValue (dropPlus digits))
  else none

/-- The digit `c` replaced by its counterpart in `table`; other characters are kept. -/
def mapDigit (table : List (Char × Char)) (c : Char) : Char := (table.lookup c).getD c

/-- `to_zenkaku`: full-width digits, one for one. -/
def toZenkaku (digits : Str) : Str :=
  digits.map <| mapDigit
    [('0', '０'), ('1', '１'), ('2', '２'), ('3', '３'), ('4', '４'), ('5', '５'), ('6', '６'),
     ('7', '７'), ('8', '８'), ('9', '９')]

/-- `to_kanji_positional`: kanji digits, one for one, without units. -/
def toKanjiPositional (digits : Str) : Str :=
  digits.map <| mapDigit
    [('0', '〇'), ('1', '一'), ('2', '二'), ('3', '三'), ('4', '四'), ('5', '五'), ('6', '六'),
     ('7', '七'), ('8', '八'), ('9', '九')]

/-- The ten digits of the common kanji notation. -/
def kanjiDigits : List Char := ['〇', '一', '二', '三', '四', '五', '六', '七', '八', '九']

/-- The ten digits of the formal notation, some of which have forms of their own. -/
def daijiDigits : List Char := ['零', '壱', '弐', '参', '四', '伍', '六', '七', '八', '九']

/-- The units of a group of four digits each. The largest one is enough for 64 bits. -/
def largeUnits : List (Nat × Str) :=
  [(10000000000000000, ['京']), (1000000000000, ['兆']), (100000000, ['億']), (10000, ['万'])]

/-- The units inside a group. -/
def kanjiSmallUnits : List (Nat × Str) := [(1000, ['千']), (100, ['百']), (10, ['十'])]

/-- The units inside a group, in the formal notation. -/
def daijiSmallUnits : List (Nat × Str) := [(1000, ['阡']), (100, ['百']), (10, ['拾'])]

/-- The loop of `kanji_group` over the small units still to be written, with the remainder and
the text so far. -/
def kanjiGroupLoop (digitChars : List Char) (omitLeadingOne : Bool) :
    List (Nat × Str) → Nat → Str → Partial Str
  | [], rem, result =>
      if 0 < rem then do return result ++ [← indexList digitChars rem] else .ok result
  | (placeVal, placeName) :: units, rem, result =>
      let d := rem / placeVal
      if 0 < d then
        -- `百` for 一百, but `壱百` in formal notation.
        if d = 1 ∧ omitLeadingOne then
          kanjiGroupLoop digitChars omitLeadingOne units (rem - d * placeVal)
            (result ++ placeName)
        else do
          let digit ← indexList digitChars d
          kanjiGroupLoop digitChars omitLeadingOne units (rem - d * placeVal)
            (result ++ [digit] ++ placeName)
      else kanjiGroupLoop digitChars omitLeadingOne units rem result

/-- `kanji_group`: a number 1–9999 within a group. -/
def kanjiGroup (n : Nat) (digitChars : List Char) (smallUnits : List (Nat × Str))
    (omitLeadingOne : Bool) : Partial Str :=
  kanjiGroupLoop digitChars omitLeadingOne smallUnits n []

/-- The loop of `kanji_number` over the large units still to be written. A unit whose group is
empty is skipped. -/
def kanjiNumberLoop (digitChars : List Char) (smallUnits : List (Nat × Str))
    (omitLeadingOne : Bool) : List (Nat × Str) → Nat → Str → Partial Str
  | [], rem, result =>
      if 0 < rem then do
        return result ++ (← kanjiGroup rem digitChars smallUnits omitLeadingOne)
      else .ok result
  | (unitVal, unitName) :: units, rem, result =>
      let group := rem / unitVal
      if 0 < group then do
        let written ← kanjiGroup group digitChars smallUnits omitLeadingOne
        kanjiNumberLoop digitChars smallUnits omitLeadingOne units (rem - group * unitVal)
          (result ++ written ++ unitName)
      else kanjiNumberLoop digitChars smallUnits omitLeadingOne units rem result

/-- `kanji_number`: a number in units, and the digit zero for zero, which no loop would
write. -/
def kanjiNumber (n : Nat) (digitChars : List Char) (smallUnits : List (Nat × Str))
    (omitLeadingOne : Bool) : Partial Str :=
  if n = 0 then do return [← indexList digitChars 0]
  else kanjiNumberLoop digitChars smallUnits omitLeadingOne largeUnits n []

/-- `parse_u64(digits)?` before a conversion that may panic: digits that are no 64-bit number
have no form. -/
def withU64 (digits : Str) (f : Nat → Partial (Option Str)) : Partial (Option Str) :=
  match parseU64 digits with
  | some n => f n
  | none => .ok none

/-- `to_kanji_sequential`: the common kanji notation with units, in which a leading one is left
out. -/
def toKanjiSequential (digits : Str) : Partial (Option Str) :=
  withU64 digits fun n => do return some (← kanjiNumber n kanjiDigits kanjiSmallUnits true)

/-- `to_daiji`: the formal notation, in which a one is always written. -/
def toDaiji (digits : Str) : Partial (Option Str) :=
  withU64 digits fun n => do return some (← kanjiNumber n daijiDigits daijiSmallUnits false)

/-- `to_shogi`: the first digit full-width, the others in kanji. The table of the tail has no
arm for `'0'`, so a zero there stays an ASCII digit. -/
def toShogi (digits : Str) : Option Str :=
  match digits with
  | [] => none
  | first :: rest =>
      some (toZenkaku [first] ++ rest.map (mapDigit
        [('1', '一'), ('2', '二'), ('3', '三'), ('4', '四'), ('5', '五'), ('6', '六'), ('7', '七'),
         ('8', '八'), ('9', '九')]))

/-- The values of the subtractive notation, with their ASCII and Unicode forms, largest
first. -/
def romanValues : List (Nat × Str × Str) :=
  [(1000, ['M'], ['Ⅿ']), (900, ['C', 'M'], ['Ⅽ', 'Ⅿ']), (500, ['D'], ['Ⅾ']),
   (400, ['C', 'D'], ['Ⅽ', 'Ⅾ']), (100, ['C'], ['Ⅽ']), (90, ['X', 'C'], ['Ⅹ', 'Ⅽ']),
   (50, ['L'], ['Ⅼ']), (40, ['X', 'L'], ['Ⅹ', 'Ⅼ']), (10, ['X'], ['Ⅹ']), (9, ['I', 'X'], ['Ⅸ']),
   (5, ['V'], ['Ⅴ']), (4, ['I', 'V'], ['Ⅳ']), (1, ['I'], ['Ⅰ'])]

/-- The subtractive loop: `while rem >= val` runs `rem / val` times. -/
def romanLoop : List (Nat × Str) → Nat → Str
  | [], _ => []
  | (val, s) :: rest, rem => (List.replicate (rem / val) s).flatten ++ romanLoop rest (rem % val)

/-- `to_roman_unicode`: the numerals of Unicode, from 1 to 3999. The lower-case ones stand
sixteen code points behind the others. -/
def toRomanUnicode (n : Nat) (uppercase : Bool) : Option Str :=
  if n = 0 ∨ n > 3999 then none
  else
    some <| romanLoop (romanValues.map fun r =>
      (r.1, if uppercase then r.2.2
        else r.2.2.map fun c => (charFromU32 (c.toNat + 0x10)).getD c)) n

/-- `to_roman_ascii`: the numerals in letters, from 1 to 3999. -/
def toRomanAscii (n : Nat) (uppercase : Bool) : Option Str :=
  if n = 0 ∨ n > 3999 then none
  else
    let result := romanLoop (romanValues.map fun r => (r.1, r.2.1)) n
    some (if uppercase then result else result.map Char.toLower)

/-- `to_circled`: the circled numbers of Unicode, from 1 to 50. There is none for zero. -/
def toCircled (n : Nat) : Option Str :=
  if n = 0 ∨ n > 50 then none
  else
    -- The circled numbers stand in three blocks.
    let cp := if n ≤ 20 then 0x2460 + n - 1
      else if n ≤ 35 then 0x3251 + n - 21
      else 0x32B1 + n - 36
    (charFromU32 cp).map fun c => [c]

/-- `convert`: the digit string in the given notation, or `none` where the notation cannot write
it. -/
def convert (digits : Str) (ty : NumType) : Partial (Option Str) :=
  match ty with
  | .raw => .ok (some digits)
  | .zenkaku => .ok (some (toZenkaku digits))
  | .kanjiPos => .ok (some (toKanjiPositional digits))
  | .kanjiSeq => toKanjiSequential digits
  | .daiji => toDaiji digits
  | .shogi => .ok (toShogi digits)
  | .romanUpperUnicode => withU64 digits fun n => .ok (toRomanUnicode n true)
  | .romanLowerUnicode => withU64 digits fun n => .ok (toRomanUnicode n false)
  | .romanUpperAscii => withU64 digits fun n => .ok (toRomanAscii n true)
  | .romanLowerAscii => withU64 digits fun n => .ok (toRomanAscii n false)
  | .circled => withU64 digits fun n => .ok (toCircled n)

/-! ### No index out of range

Every group the large units leave is below 10000, so every digit written inside a group
is below 10, and the loops write the texts of their places one after the other. -/

/-- A parsed number fits into 64 bits, since a larger one is no `u64` and is refused. -/
theorem parseU64_lt {digits : Str} {n : Nat} (h : parseU64 digits = some n) : n < 2 ^ 64 := by
  unfold parseU64 at h
  split at h
  · cases h
  · split at h
    · rename_i hlt
      rw [← Option.some.inj h]
      exact hlt
    · cases h

/-- The units split a number below `bound` into digits below `radix`: each unit is at least a
`radix`th part of the one before it, and what the last one leaves is a digit itself. -/
def Places (radix : Nat) : List (Nat × Str) → Nat → Prop
  | [], bound => bound ≤ radix
  | (place, _) :: units, bound => 0 < place ∧ bound ≤ radix * place ∧ Places radix units place

/-- What is written for the digit `d` of a place: nothing for zero, the unit alone for a leading
one that is left out, and the digit with its unit otherwise. -/
def placeText (digitChars : List Char) (omitLeadingOne : Bool) (d : Nat) (name : Str) : Str :=
  if d = 0 then []
  else if d = 1 ∧ omitLeadingOne then name
  else digitChars[d]?.toList ++ name

/-- What is written for a number within a group. -/
def groupText (digitChars : List Char) (omitLeadingOne : Bool) : List (Nat × Str) → Nat → Str
  | [], rem => if rem = 0 then [] else digitChars[rem]?.toList
  | (place, name) :: units, rem =>
      placeText digitChars omitLeadingOne (rem / place) name ++
        groupText digitChars omitLeadingOne units (rem % place)

/-- What is written for a number: a group for each large unit that occurs, and the last
group. -/
def numberText (digitChars : List Char) (smallUnits : List (Nat × Str)) (omitLeadingOne : Bool) :
    List (Nat × Str) → Nat → Str
  | [], rem => if rem = 0 then [] else groupText digitChars omitLeadingOne smallUnits rem
  | (unit, name) :: units, rem =>
      (if rem / unit = 0 then []
        else groupText digitChars omitLeadingOne smallUnits (rem / unit) ++ name) ++
        numberText digitChars smallUnits omitLeadingOne units (rem % unit)

/-- What the loops take off at a place leaves the remainder. -/
theorem sub_div_mul (rem place : Nat) : rem - rem / place * place = rem % place := by
  rw [Nat.mod_eq_sub_mul_div, Nat.mul_comm]

/-- The digit at a place is below the radix. -/
theorem div_lt_of_place {rem place radix bound : Nat} (hrem : rem < bound)
    (hbound : bound ≤ radix * place) : rem / place < radix := by
  refine Nat.div_lt_of_lt_mul ?_
  rw [Nat.mul_comm]
  omega

/-- The loop over the small units writes the text of the group behind what it was given. The
bound goes down with the units, and that it holds is what keeps every index in range. -/
theorem kanjiGroupLoop_eq {digitChars : List Char} (hlen : digitChars.length = 10)
    (omitLeadingOne : Bool) (units : List (Nat × Str)) :
    ∀ (bound rem : Nat) (result : Str), Places 10 units bound → rem < bound →
      kanjiGroupLoop digitChars omitLeadingOne units rem result =
        .ok (result ++ groupText digitChars omitLeadingOne units rem) := by
  induction units with
  | nil =>
      intro bound rem result hplaces hrem
      have hlt : rem < digitChars.length := by
        rw [hlen]
        exact Nat.lt_of_lt_of_le hrem hplaces
      rw [kanjiGroupLoop, groupText]
      by_cases h0 : rem = 0
      · rw [if_neg (by omega), if_pos h0, List.append_nil]
      · rw [if_pos (by omega), if_neg h0, indexList_eq hlt, List.getElem?_eq_getElem hlt]
        rfl
  | cons unit units ih =>
      intro bound rem result hplaces hrem
      obtain ⟨place, name⟩ := unit
      obtain ⟨hpos, hbound, hunits⟩ := hplaces
      have hd : rem / place < digitChars.length := by
        rw [hlen]
        exact div_lt_of_place hrem hbound
      have hrest := fun result' => ih place (rem % place) result' hunits (Nat.mod_lt rem hpos)
      rw [kanjiGroupLoop, groupText, placeText, sub_div_mul]
      by_cases h0 : rem / place = 0
      · -- Nothing is written, and nothing is taken off.
        have hsame : rem % place = rem := by
          have hsub := sub_div_mul rem place
          rw [h0] at hsub
          omega
        rw [if_neg (by omega), if_pos h0, List.nil_append, ← hrest, hsame]
      rw [if_pos (Nat.pos_of_ne_zero h0), if_neg h0]
      by_cases hone : rem / place = 1 ∧ omitLeadingOne
      · rw [if_pos hone, if_pos hone, hrest, List.append_assoc]
      · rw [if_neg hone, if_neg hone, indexList_eq hd, ok_bind, hrest, List.getElem?_eq_getElem hd]
        simp

/-- A group below 10000 is written as its text. -/
theorem kanjiGroup_eq {digitChars : List Char} (hlen : digitChars.length = 10)
    {smallUnits : List (Nat × Str)} (hsmall : Places 10 smallUnits 10000) (omitLeadingOne : Bool)
    {n : Nat} (hn : n < 10000) : kanjiGroup n digitChars smallUnits omitLeadingOne =
      .ok (groupText digitChars omitLeadingOne smallUnits n) := by
  rw [kanjiGroup, kanjiGroupLoop_eq hlen omitLeadingOne smallUnits 10000 n [] hsmall hn]
  rfl

/-- The loop over the large units writes the text of the number behind what it was given: the
same argument, one level up, with groups for digits. -/
theorem kanjiNumberLoop_eq {digitChars : List Char} (hlen : digitChars.length = 10)
    {smallUnits : List (Nat × Str)} (hsmall : Places 10 smallUnits 10000) (omitLeadingOne : Bool)
    (units : List (Nat × Str)) :
    ∀ (bound rem : Nat) (result : Str), Places 10000 units bound → rem < bound →
      kanjiNumberLoop digitChars smallUnits omitLeadingOne units rem result =
        .ok (result ++ numberText digitChars smallUnits omitLeadingOne units rem) := by
  induction units with
  | nil =>
      intro bound rem result hplaces hrem
      rw [kanjiNumberLoop, numberText]
      by_cases h0 : rem = 0
      · rw [if_neg (by omega), if_pos h0, List.append_nil]
      · have hlt : rem < 10000 := Nat.lt_of_lt_of_le hrem hplaces
        rw [if_pos (by omega), if_neg h0, kanjiGroup_eq hlen hsmall omitLeadingOne hlt]
        rfl
  | cons unit units ih =>
      intro bound rem result hplaces hrem
      obtain ⟨unitVal, name⟩ := unit
      obtain ⟨hpos, hbound, hunits⟩ := hplaces
      have hgroup := kanjiGroup_eq hlen hsmall omitLeadingOne (div_lt_of_place hrem hbound)
      have hrest := fun result' => ih unitVal (rem % unitVal) result' hunits (Nat.mod_lt rem hpos)
      rw [kanjiNumberLoop, numberText, sub_div_mul]
      -- a unit that the number does not reach writes nothing and takes nothing off
      by_cases h0 : rem / unitVal = 0
      · have hsame : rem % unitVal = rem := by
          have hsub := sub_div_mul rem unitVal
          rw [h0] at hsub
          omega
        rw [if_neg (by omega), if_pos h0, List.nil_append, ← hrest, hsame]
      · rw [if_pos (Nat.pos_of_ne_zero h0), if_neg h0, hgroup, ok_bind, hrest]
        simp

/-- The number as it is written: its groups, or the digit zero. This is the form in which later
proofs use the notation. -/
theorem kanjiNumber_eq {digitChars : List Char} (hlen : digitChars.length = 10)
    {smallUnits : List (Nat × Str)} (hsmall : Places 10 smallUnits 10000) (omitLeadingOne : Bool)
    {n : Nat} (hn : n < 2 ^ 64) : kanjiNumber n digitChars smallUnits omitLeadingOne =
      .ok (if n = 0 then digitChars[0]?.toList
        else numberText digitChars smallUnits omitLeadingOne largeUnits n) := by
  have hlarge : Places 10000 largeUnits (2 ^ 64) := by simp [Places, largeUnits]
  rw [kanjiNumber]
  by_cases h0 : n = 0
  · rw [if_pos h0, if_pos h0, indexList_eq (by omega), List.getElem?_eq_getElem (by omega)]
    rfl
  · rw [if_neg h0, if_neg h0,
      kanjiNumberLoop_eq hlen hsmall omitLeadingOne largeUnits (2 ^ 64) n [] hlarge hn]
    rfl

/-- The units of the common notation split a group into ten digits each. -/
theorem places_kanjiSmallUnits : Places 10 kanjiSmallUnits 10000 := by
  simp [Places, kanjiSmallUnits]

/-- The units of the formal notation split a group into ten digits each. -/
theorem places_daijiSmallUnits : Places 10 daijiSmallUnits 10000 := by
  simp [Places, daijiSmallUnits]

/-- A conversion of a parsed number returns when it does so below `2 ^ 64`. -/
theorem withU64_runs {digits : Str} {f : Nat → Partial (Option Str)}
    (hf : ∀ n, n < 2 ^ 64 → Runs (f n) fun _ => True) :
    Runs (withU64 digits f) fun _ => True := by
  unfold withU64
  cases h : parseU64 digits with
  | none => simp
  | some n => exact hf n (parseU64_lt h)

/-- `convert` returns on every digit string and every notation. Only the notations with kanji
units can index out of their digits or divide by a unit. They are total since the units are
places of a number system, and a number of more than 64 bits is turned away before. -/
theorem convert_runs (digits : Str) (ty : NumType) : Runs (convert digits ty) fun _ => True := by
  cases ty with
  | kanjiSeq =>
      refine withU64_runs fun n hn => ?_
      rw [kanjiNumber_eq rfl places_kanjiSmallUnits true hn]
      exact runs_ok.mpr trivial
  | daiji =>
      refine withU64_runs fun n hn => ?_
      rw [kanjiNumber_eq rfl places_daijiSmallUnits false hn]
      exact runs_ok.mpr trivial
  -- these notations go digit by digit, or look up a table
  | raw => simp [convert]
  | zenkaku => simp [convert]
  | kanjiPos => simp [convert]
  | shogi => simp [convert]
  | romanUpperUnicode => exact withU64_runs fun _ _ => by simp
  | romanLowerUnicode => exact withU64_runs fun _ _ => by simp
  | romanUpperAscii => exact withU64_runs fun _ _ => by simp
  | romanLowerAscii => exact withU64_runs fun _ _ => by simp
  | circled => exact withU64_runs fun _ _ => by simp

end Y2Skk
