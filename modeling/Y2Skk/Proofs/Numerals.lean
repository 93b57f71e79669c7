import Mathlib.Tactic.IntervalCases
import Y2Skk.Num.Convert

/-!
# `Y2Skk.Proofs.Numerals`: what the kanji notations denote

`readNumeral` reads a numeral back by the usual rules, sign by sign: a digit waits for its
unit, a small unit without a digit counts once, and a large unit multiplies the group in
front of it. Both styles are read by the same table of signs.

## Reading back

The reader is written independently of the converter. It goes through the signs from the
left and keeps three numbers: the groups that are complete, the group being read, and a
digit that waits. `read_placeText`, `read_groupText` and `read_numberText` say what it has
read after a digit, after a group of four digits and after a whole numeral, for any style
whose characters are signs for its digits.

## The notations

* `numeral_denotes`: the numeral of a number is read back as the number, so two numbers
  never share a numeral. A number that does not fit 64 bits has none.
* `shogi_iff`: the shogi notation has positional kanji behind its first digit, except for
  the digit zero, which its table leaves out.
-/

set_option autoImplicit false

namespace Y2Skk

open Outcome
open Utf8 (Str)

/-! ### Reading a numeral -/

/-- What a character of a numeral stands for. -/
inductive Sign where
  | digit (value : Nat)
  | small (unit : Nat)
  | large (unit : Nat)
  deriving DecidableEq, Repr

/-- The signs of both styles, the everyday one and the formal one, with what each stands for. -/
def signs : List (Char × Sign) :=
  [('〇', .digit 0), ('一', .digit 1), ('二', .digit 2), ('三', .digit 3), ('四', .digit 4),
   ('五', .digit 5), ('六', .digit 6), ('七', .digit 7), ('八', .digit 8), ('九', .digit 9),
   ('零', .digit 0), ('壱', .digit 1), ('弐', .digit 2), ('参', .digit 3), ('伍', .digit 5),
   ('十', .small 10), ('百', .small 100), ('千', .small 1000),
   ('拾', .small 10), ('阡', .small 1000),
   ('万', .large 10000), ('億', .large 100000000), ('兆', .large 1000000000000),
   ('京', .large 10000000000000000)]

/-- What was read of a numeral: the groups that have their large unit, the group being read,
and a digit that waits for its unit. -/
structure NumeralState where
  total : Nat
  group : Nat
  digit : Option Nat
  deriving DecidableEq, Repr

namespace NumeralState

/-- The value of the group being read, with the digit that waits added as ones. -/
def groupValue (st : NumeralState) : Nat := st.group + st.digit.getD 0

/-- The value of what has been read so far, a digit that waits for its unit counted as ones. -/
def value (st : NumeralState) : Nat := st.total + st.groupValue

/-- Reads one sign. Two digits in a row are no numeral. -/
def read (st : NumeralState) (c : Char) : Option NumeralState :=
  match signs.lookup c with
  | some (.digit d) => if st.digit.isSome then none else some { st with digit := some d }
  | some (.small unit) =>
      some { st with group := st.group + st.digit.getD 1 * unit, digit := none }
  | some (.large unit) => some ⟨st.total + st.groupValue * unit, 0, none⟩
  | none => none

end NumeralState

/-- The number a numeral denotes, if its signs can be read in their order. -/
def readNumeral (s : Str) : Option Nat :=
  (s.foldlM NumeralState.read ⟨0, 0, none⟩).map NumeralState.value

/-! ### Groups -/

/-- The characters of a style are signs for their digits: the character at place `d` is read as
`d`. -/
def SignsDigits (digitChars : List Char) : Prop :=
  ∀ d < 10, ∃ c, digitChars[d]? = some c ∧ signs.lookup c = some (.digit d)

/-- The units are written by their signs. -/
def SignsUnits (sign : Nat → Sign) (units : List (Nat × Str)) : Prop :=
  ∀ unit ∈ units, ∃ c, unit.2 = [c] ∧ signs.lookup c = some (sign unit.1)

section Reading
variable {digitChars : List Char} (omitLeadingOne : Bool)

/-- A digit and its unit are added to the group. A zero writes nothing, and a one may be left
out before its unit, which alone counts once. -/
theorem read_placeText (hdigits : SignsDigits digitChars) {c : Char} {place : Nat}
    (hc : signs.lookup c = some (.small place)) {d : Nat} (hd : d < 10) (total group : Nat) :
    (placeText digitChars omitLeadingOne d [c]).foldlM NumeralState.read ⟨total, group, none⟩ =
      some ⟨total, group + d * place, none⟩ := by
  unfold placeText
  by_cases h0 : d = 0
  · subst h0
    rw [if_pos rfl, Nat.zero_mul]
    rfl
  rw [if_neg h0]
  by_cases hone : d = 1 ∧ omitLeadingOne
  · rw [if_pos hone, hone.1]
    simp [NumeralState.read, hc]
  · obtain ⟨digit, hchar, hdigit⟩ := hdigits d hd
    rw [if_neg hone, hchar]
    simp [NumeralState.read, hdigit, hc]

/-- A group is added up, but for a last digit that waits. The induction is over the units, from
the largest one down: a place is read, and what is left is below that place. -/
theorem read_groupText (hdigits : SignsDigits digitChars) {units : List (Nat × Str)}
    (hunits : SignsUnits .small units) (total : Nat) :
    ∀ bound rem group, Places 10 units bound → rem < bound →
      ∃ st, (groupText digitChars omitLeadingOne units rem).foldlM NumeralState.read
          ⟨total, group, none⟩ = some st ∧
        st.total = total ∧ st.groupValue = group + rem := by
  induction units with
  | nil =>
      intro bound rem group hplaces hrem
      rw [groupText]
      by_cases h0 : rem = 0
      · rw [if_pos h0, h0]
        exact ⟨_, rfl, rfl, rfl⟩
      · obtain ⟨digit, hchar, hdigit⟩ := hdigits rem (Nat.lt_of_lt_of_le hrem hplaces)
        rw [if_neg h0, hchar]
        exact ⟨⟨total, group, some rem⟩, by simp [NumeralState.read, hdigit], rfl, rfl⟩
  | cons unit units ih =>
      intro bound rem group hplaces hrem
      obtain ⟨place, name⟩ := unit
      obtain ⟨hpos, hbound, hrest⟩ := hplaces
      obtain ⟨c, hname, hc⟩ := hunits _ List.mem_cons_self
      obtain rfl : name = [c] := hname
      have hplace := read_placeText omitLeadingOne hdigits hc
        (div_lt_of_place hrem hbound) total group
      obtain ⟨st, hread, htotal, hvalue⟩ :=
        ih (fun u hu => hunits u (List.mem_cons_of_mem _ hu)) place (rem % place)
          (group + rem / place * place) hrest (Nat.mod_lt rem hpos)
      refine ⟨st, ?_, htotal, ?_⟩
      · rw [groupText, List.foldlM_append, hplace]
        exact hread
      · -- what the place stands for and what is left of the group make up the group
        have hsplit := Nat.div_add_mod rem place
        rw [Nat.mul_comm] at hsplit
        omega

/-- The groups are added up, each times its large unit. What is below the least large unit is
the last group, and it has no unit. -/
theorem read_numberText (hdigits : SignsDigits digitChars) {smallUnits : List (Nat × Str)}
    (hplaces : Places 10 smallUnits 10000) (hsmall : SignsUnits .small smallUnits)
    {units : List (Nat × Str)} (hunits : SignsUnits .large units) :
    ∀ bound rem total, Places 10000 units bound → rem < bound →
      ∃ st, (numberText digitChars smallUnits omitLeadingOne units rem).foldlM
          NumeralState.read ⟨total, 0, none⟩ = some st ∧ st.value = total + rem := by
  -- The induction is on the large units, from the largest down: each takes the digits above it.
  induction units with
  | nil =>
      intro bound rem total hbound hrem
      rw [numberText]
      by_cases h0 : rem = 0
      · rw [if_pos h0, h0]
        exact ⟨_, rfl, rfl⟩
      · rw [if_neg h0]
        obtain ⟨st, hread, htotal, hvalue⟩ := read_groupText omitLeadingOne
          hdigits hsmall total 10000 rem 0 hplaces (Nat.lt_of_lt_of_le hrem hbound)
        exact ⟨st, hread, by rw [NumeralState.value, htotal, hvalue, Nat.zero_add]⟩
  | cons unit units ih =>
      intro bound rem total hbounds hrem
      obtain ⟨unitVal, name⟩ := unit
      obtain ⟨hpos, hbound, hrest⟩ := hbounds
      obtain ⟨c, hname, hc⟩ := hunits _ List.mem_cons_self
      obtain rfl : name = [c] := hname
      have hsplit := Nat.div_add_mod rem unitVal
      rw [Nat.mul_comm] at hsplit
      have hgroup : (if rem / unitVal = 0 then []
          else groupText digitChars omitLeadingOne smallUnits (rem / unitVal) ++ [c]).foldlM
            NumeralState.read ⟨total, 0, none⟩ =
          some ⟨total + rem / unitVal * unitVal, 0, none⟩ := by
        by_cases h0 : rem / unitVal = 0
        · rw [if_pos h0, h0, Nat.zero_mul]
          rfl
        · rw [if_neg h0]
          obtain ⟨st, hread, htotal, hvalue⟩ := read_groupText omitLeadingOne
            hdigits hsmall total 10000 (rem / unitVal) 0 hplaces (div_lt_of_place hrem hbound)
          rw [List.foldlM_append, hread]
          simp [NumeralState.read, hc, htotal, hvalue]
      obtain ⟨st, hread, hvalue⟩ :=
        ih (fun u hu => hunits u (List.mem_cons_of_mem _ hu)) unitVal (rem % unitVal)
          (total + rem / unitVal * unitVal) hrest (Nat.mod_lt rem hpos)
      refine ⟨st, ?_, by omega⟩
      rw [numberText, List.foldlM_append, hgroup]
      exact hread

/-- A number is read back from its numeral. Zero has a numeral of its own, and every other
number is read group by group. The digits and the small units are parameters, so the lemma
covers the kanji and the daiji. -/
theorem readNumeral_kanjiNumber (hlen : digitChars.length = 10) (hdigits : SignsDigits digitChars)
    {smallUnits : List (Nat × Str)} (hplaces : Places 10 smallUnits 10000)
    (hsmall : SignsUnits .small smallUnits) {n : Nat} (hn : n < 2 ^ 64) :
    ∃ s, kanjiNumber n digitChars smallUnits omitLeadingOne = .ok s ∧ readNumeral s = some n := by
  rw [kanjiNumber_eq hlen hplaces omitLeadingOne hn]
  refine ⟨_, rfl, ?_⟩
  unfold readNumeral
  by_cases h0 : n = 0
  · obtain ⟨zero, hchar, hzero⟩ := hdigits 0 (by omega)
    rw [if_pos h0, hchar, h0]
    simp [NumeralState.read, hzero, NumeralState.value, NumeralState.groupValue]
  · have hlarge : SignsUnits .large largeUnits := by
      simp only [SignsUnits, largeUnits, List.mem_cons, List.not_mem_nil, or_false]
      rintro unit (rfl | rfl | rfl | rfl)
      all_goals exact ⟨_, rfl, rfl⟩
    obtain ⟨st, hread, hvalue⟩ := read_numberText omitLeadingOne hdigits hplaces hsmall hlarge
      (2 ^ 64) n 0 (by simp [Places, largeUnits]) hn
    rw [if_neg h0, hread, Option.map_some, hvalue, Nat.zero_add]

end Reading

/-! ### The two styles -/

/-- It is enough to look up each of the ten digits in the table. -/
theorem signsDigits_of_lookup {digitChars : List Char}
    (h : ∀ d < 10, (digitChars[d]?.bind fun c => signs.lookup c) = some (.digit d)) :
    SignsDigits digitChars :=
  fun d hd => Option.bind_eq_some_iff.mp (h d hd)

/-- A digit string that fits has a numeral, which denotes its value. Both notations are the same
number writer with other digits and other small units, and `1` is left out before a unit in the
one and written in the other. -/
theorem convert_numeral {ty : NumType} (hty : ty = .kanjiSeq ∨ ty = .daiji) {digits : Str}
    {n : Nat} (h : parseU64 digits = some n) :
    ∃ s, convert digits ty = .ok (some s) ∧ readNumeral s = some n := by
  have hn := parseU64_lt h
  rcases hty with rfl | rfl
  · have hdigits : SignsDigits kanjiDigits := signsDigits_of_lookup (by decide)
    have hsmall : SignsUnits .small kanjiSmallUnits := by
      simp only [SignsUnits, kanjiSmallUnits, List.mem_cons, List.not_mem_nil, or_false]
      rintro unit (rfl | rfl | rfl)
      all_goals exact ⟨_, rfl, rfl⟩
    obtain ⟨s, hs, hread⟩ := readNumeral_kanjiNumber true rfl hdigits places_kanjiSmallUnits
      hsmall hn
    exact ⟨s, by rw [convert, toKanjiSequential, withU64, h]; simp [hs], hread⟩
  · have hdigits : SignsDigits daijiDigits := signsDigits_of_lookup (by decide)
    have hsmall : SignsUnits .small daijiSmallUnits := by
      simp only [SignsUnits, daijiSmallUnits, List.mem_cons, List.not_mem_nil, or_false]
      rintro unit (rfl | rfl | rfl)
      all_goals exact ⟨_, rfl, rfl⟩
    obtain ⟨s, hs, hread⟩ := readNumeral_kanjiNumber false rfl hdigits places_daijiSmallUnits
      hsmall hn
    exact ⟨s, by rw [convert, toDaiji, withU64, h]; simp [hs], hread⟩

/-- A string of digits is a number unless it is too large: `u64::from_str` fails from 2^64
on. -/
theorem parseU64_of_digits {digits : Str} (hne : digits ≠ []) (hdigits : ∀ c ∈ digits, c.isDigit) :
    parseU64 digits = if digitsValue digits < 2 ^ 64 then some (digitsValue digits) else none := by
  have hplus : dropPlus digits = digits := by
    unfold dropPlus
    refine if_neg fun hhead => ?_
    have := hdigits '+' (List.mem_of_head? hhead)
    cases this
  have hall : digits.all Char.isDigit := List.all_eq_true.mpr hdigits
  rw [parseU64, hplus, if_neg (by simp [hne, hall])]

/-- The kanji and daiji numerals of a digit string denote its value, so different values have
different numerals, and a value of 64 bits or more has none. The conversion always returns:
no digit is looked up behind the end of the digit characters. -/
theorem numeral_denotes {digits : Str} (hne : digits ≠ []) (hdigits : ∀ c ∈ digits, c.isDigit)
    {ty : NumType} (hty : ty = .kanjiSeq ∨ ty = .daiji) :
    (digitsValue digits < 2 ^ 64 →
      ∃ s, convert digits ty = .ok (some s) ∧ readNumeral s = some (digitsValue digits)) ∧
    (2 ^ 64 ≤ digitsValue digits → convert digits ty = .ok none) ∧
    ∀ digits' s s', digits' ≠ [] → (∀ c ∈ digits', c.isDigit) →
      convert digits ty = .ok (some s) → convert digits' ty = .ok (some s') →
      digitsValue digits ≠ digitsValue digits' → s ≠ s' := by
  have hfits : ∀ digits : Str, digits ≠ [] → (∀ c ∈ digits, c.isDigit) →
      digitsValue digits < 2 ^ 64 →
      ∃ s, convert digits ty = .ok (some s) ∧ readNumeral s = some (digitsValue digits) := by
    intro digits hne hdigits hlt
    exact convert_numeral hty (by rw [parseU64_of_digits hne hdigits, if_pos hlt])
  have hlarge : ∀ digits : Str, digits ≠ [] → (∀ c ∈ digits, c.isDigit) →
      2 ^ 64 ≤ digitsValue digits → convert digits ty = .ok none := by
    intro digits hne hdigits hle
    have hnone : parseU64 digits = none := by
      rw [parseU64_of_digits hne hdigits, if_neg (by omega)]
    rcases hty with rfl | rfl
    · rw [convert, toKanjiSequential, withU64, hnone]
    · rw [convert, toDaiji, withU64, hnone]
  -- the third part: a numeral denotes one value, so equal numerals come from equal values
  have hreads : ∀ (digits s : Str), digits ≠ [] → (∀ c ∈ digits, c.isDigit) →
      convert digits ty = .ok (some s) → readNumeral s = some (digitsValue digits) := by
    intro digits s hne hdigits hs
    rcases Nat.lt_or_ge (digitsValue digits) (2 ^ 64) with hlt | hle
    · obtain ⟨s', hs', hread⟩ := hfits digits hne hdigits hlt
      rw [hs] at hs'
      cases hs'
      exact hread
    · rw [hlarge digits hne hdigits hle] at hs
      cases hs
  refine ⟨hfits digits hne hdigits, hlarge digits hne hdigits, ?_⟩
  intro digits' s s' hne' hdigits' hs hs' hvalues heq
  have hread := hreads digits s hne hdigits hs
  rw [heq, hreads digits' s' hne' hdigits' hs'] at hread
  exact hvalues (Option.some.inj hread).symm

/-- The largest number of 64 bits and the next one. -/
theorem numeral_denotes_max :
    (∃ s, convert "18446744073709551615".toList .daiji = .ok (some s) ∧
      readNumeral s = some 18446744073709551615) ∧
    convert "18446744073709551616".toList .daiji = .ok none := by
  constructor
  · exact (numeral_denotes (by decide) (List.all_eq_true.mp rfl) (.inr rfl)).1 (by decide)
  · exact (numeral_denotes (by decide) (List.all_eq_true.mp rfl) (.inr rfl)).2.1 (by decide)

/-! ### Shogi notation -/

/-- A digit is one of the ten. What holds of every digit can so be checked one by one. -/
theorem mem_digits {c : Char} (h : c.isDigit) :
    c ∈ ['0', '1', '2', '3', '4', '5', '6', '7', '8', '9'] := by
  have hcase : (decide (c.val ≥ '0'.val) && decide (c.val ≤ '9'.val)) = true := h
  have hrange : 48 ≤ c.toNat ∧ c.toNat ≤ 57 := by
    simpa [UInt32.le_iff_toNat_le] using hcase
  rw [← Char.ofNat_toNat c]
  generalize c.toNat = n at hrange
  obtain ⟨hlow, hhigh⟩ := hrange
  interval_cases n <;> decide

/-- The tail of the shogi notation is written sign by sign, in the signs of the positional
notation except for zero. -/
theorem toShogi_cons : ∃ tail : Char → Char,
    (∀ x y, toShogi (x :: y) = some (toZenkaku [x] ++ y.map tail)) ∧ tail '0' = '0' ∧
      ['1', '2', '3', '4', '5', '6', '7', '8', '9'].all fun c => toKanjiPositional [c] = [tail c] :=
  ⟨_, fun _ _ => rfl, rfl, by decide⟩

/-- The full-width form of a digit is no ASCII digit. -/
theorem not_isDigit_of_mem_toZenkaku {x c : Char} (hx : x.isDigit) (hc : c ∈ toZenkaku [x]) :
    c.isDigit = false := by
  have hall : ['0', '1', '2', '3', '4', '5', '6', '7', '8', '9'].all fun x =>
      (toZenkaku [x]).all fun c => !c.isDigit := by decide
  have hone := List.all_eq_true.mp hall x (mem_digits hx)
  simpa using List.all_eq_true.mp hone c hc

/-- Neither is any positional kanji. -/
theorem not_isDigit_of_mem_toKanjiPositional {y : Str} (hy : ∀ c ∈ y, c.isDigit) {c : Char}
    (hc : c ∈ toKanjiPositional y) : c.isDigit = false := by
  have hall : ['0', '1', '2', '3', '4', '5', '6', '7', '8', '9'].all fun d =>
      (toKanjiPositional [d]).all fun c => !c.isDigit := by decide
  obtain ⟨d, hd, rfl⟩ := List.mem_map.mp hc
  have hone := List.all_eq_true.mp hall d (mem_digits (hy d hd))
  simpa using List.all_eq_true.mp hone _ List.mem_cons_self

/-- The shogi notation of a digit string is its full-width first digit and the positional
kanji of the others, without an ASCII digit, exactly when there is no zero among the
others. -/
theorem shogi_iff {x : Char} {y : Str} (hdigits : ∀ c ∈ x :: y, c.isDigit) :
    (∃ z head tail, convert (x :: y) .shogi = .ok (some z) ∧
      convert [x] .zenkaku = .ok (some head) ∧ convert y .kanjiPos = .ok (some tail) ∧
      z = head ++ tail ∧ ∀ c ∈ z, c.isDigit = false) ↔ '0' ∉ y := by
  obtain ⟨tail, hshogi, hzero, htail⟩ := toShogi_cons
  have hx : x.isDigit := hdigits x List.mem_cons_self
  have hy : ∀ c ∈ y, c.isDigit := fun c hc => hdigits c (List.mem_cons_of_mem _ hc)
  constructor
  · rintro ⟨z, head, tail', hz, -, -, -, hplain⟩ hmem
    rw [convert, hshogi] at hz
    cases hz
    have hkept := hplain '0' (List.mem_append_right _ (List.mem_map.mpr ⟨'0', hmem, hzero⟩))
    cases hkept
  · intro hmem
    -- without a zero the shogi digits behind the first are the positional ones, character by
    -- character
    have hsame : ∀ y : Str, (∀ c ∈ y, c.isDigit) → '0' ∉ y → y.map tail = toKanjiPositional y := by
      intro y
      induction y with
      | nil => intro _ _; rfl
      | cons c y ih =>
          intro hy hmem
          rw [List.mem_cons, not_or] at hmem
          have hc : c ∈ ['1', '2', '3', '4', '5', '6', '7', '8', '9'] := by
            rcases List.mem_cons.mp (mem_digits (hy c List.mem_cons_self)) with hc | hc
            · exact (hmem.1 hc.symm).elim
            · exact hc
          have hsplit : toKanjiPositional (c :: y) =
              toKanjiPositional [c] ++ toKanjiPositional y := rfl
          have hone := of_decide_eq_true (List.all_eq_true.mp htail c hc)
          rw [hsplit, hone, ← ih (fun d hd => hy d (List.mem_cons_of_mem _ hd)) hmem.2]
          rfl
    refine ⟨toZenkaku [x] ++ toKanjiPositional y, _, _, ?_, rfl, rfl, rfl, ?_⟩
    · rw [convert, hshogi, hsame y hy hmem]
    · intro c hc
      rcases List.mem_append.mp hc with hc | hc
      · exact not_isDigit_of_mem_toZenkaku hx hc
      · exact not_isDigit_of_mem_toKanjiPositional hy hc

/-- The shogi notation of `10` keeps the ASCII zero. -/
theorem shogi_ten : convert ['1', '0'] .shogi = .ok (some ['１', '0']) ∧
    convert ['1'] .zenkaku = .ok (some ['１']) ∧ convert ['0'] .kanjiPos = .ok (some ['〇']) ∧
    (['１', '0'] : Str) ≠ ['１'] ++ ['〇'] ∧ '0' ∈ (['１', '0'] : Str) :=
  ⟨rfl, rfl, rfl, by decide, by decide⟩

/-- The digit string `34`. -/
theorem shogi_iff_thirtyFour :
    (∃ z head tail, convert ['3', '4'] .shogi = .ok (some z) ∧
      convert ['3'] .zenkaku = .ok (some head) ∧ convert ['4'] .kanjiPos = .ok (some tail) ∧
      z = head ++ tail ∧ ∀ c ∈ z, c.isDigit = false) ↔ '0' ∉ ['4'] :=
  shogi_iff (List.all_eq_true.mp rfl)

end Y2Skk
