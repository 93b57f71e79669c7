import Y2Skk.Lib.Text

/-!
# `Y2Skk.Kana.Table`: the kana conversion table

A table is a list of rules `(fromState, input) → (toState, output)`. The state is the
romaji that is pending, and a rule says what a further character makes of it. The same
table serves the three kana modes: the katakana modes replace some rules by overrides of
their own, and transform what a rule writes.

## A transition

`KanaTable.transition` looks an exact rule up first and a wildcard rule second. A wildcard
rule that returns to the start state asks for the character to be typed again (`okRetry`),
and so does a character that no rule takes from a pending state (`noMatch` with a
`retry`). The caller is the one who types it again, so a single key may take several
transitions.

## What the engine's recursion rests on

`transition_nil_retry`: from the start state no character is ever handed back. A retry is
made from the start state, so it happens at most once for each key, and the recursion of
the engine over retries ends. The other lemmas say the same in the shapes the callers
need: which results the start state has (`transition_nil_cases`), and that a result with a
retry came from a pending state.

The half-width forms are those of the `match` in the source, as a table of pairs, with the
voicing mark as a character of its own.
-/

set_option autoImplicit false

namespace Y2Skk

open Utf8 (Str)

/-- Input specifier of a transition rule. The wildcard covers the characters that no exact rule
of the same state covers, wherever it stands in the list. -/
inductive KanaInput where
  /-- Matches exactly this character. -/
  | char (c : Char)
  /-- Matches any character that no exact rule covers. -/
  | wildcard
  deriving DecidableEq, Repr

/-- The transition rule `(from, input) → (to, output)`. The empty state is the start state, in
which nothing is pending. -/
structure KanaTransition where
  fromState : Str
  input : KanaInput
  toState : Str
  output : Str
  deriving DecidableEq, Repr

/-- The kana table: hiragana rules, the rules that replace them in the katakana modes,
and the okurigana key aliases (the `HashMap`, as the list of its entries). -/
structure KanaTable where
  transitions : List KanaTransition
  kataOverrides : List KanaTransition
  okuriAliases : List (Str × Str)
  deriving DecidableEq, Repr

/-- The three kana scripts. They differ in the rules in effect and in what becomes of an
output. -/
inductive KanaMode where
  | hiragana
  | katakana
  | halfWidth
  deriving DecidableEq, Repr

/-- Result of one transition of the table: an output and the next state, an output and a
character to be typed again, or a refusal, with the pending text that is to be flushed and the
character to be typed again, if any. -/
inductive TransitionResult where
  | ok (output nextState : Str)
  | okRetry (output : Str) (retry : Char)
  | noMatch (flush : Str) (retry : Option Char)
  deriving DecidableEq, Repr

/-- U+3041–U+3096 shifted to U+30A1–U+30F6. -/
def charToKatakana (c : Char) : Char :=
  if 0x3041 ≤ c.toNat ∧ c.toNat ≤ 0x3096 then Char.ofNat (c.toNat + 0x60) else c

/-- `hiragana_to_katakana`: character by character, so that the length in characters does not
change. -/
def hiraganaToKatakana (s : Str) : Str := s.map charToKatakana

/-- The arms of `to_halfwidth_katakana`: a katakana or punctuation character and its
half-width form, with the voicing mark as a character of its own. -/
def halfwidthTable : List (Char × Str) :=
  [('ァ', ['ｧ']), ('ア', ['ｱ']), ('ィ', ['ｨ']), ('イ', ['ｲ']), ('ゥ', ['ｩ']), ('ウ', ['ｳ']),
   ('ェ', ['ｪ']), ('エ', ['ｴ']), ('ォ', ['ｫ']), ('オ', ['ｵ']), ('カ', ['ｶ']),
   ('ガ', ['ｶ', 'ﾞ']), ('キ', ['ｷ']), ('ギ', ['ｷ', 'ﾞ']), ('ク', ['ｸ']), ('グ', ['ｸ', 'ﾞ']),
   ('ケ', ['ｹ']), ('ゲ', ['ｹ', 'ﾞ']), ('コ', ['ｺ']), ('ゴ', ['ｺ', 'ﾞ']), ('サ', ['ｻ']),
   ('ザ', ['ｻ', 'ﾞ']), ('シ', ['ｼ']), ('ジ', ['ｼ', 'ﾞ']), ('ス', ['ｽ']), ('ズ', ['ｽ', 'ﾞ']),
   ('セ', ['ｾ']), ('ゼ', ['ｾ', 'ﾞ']), ('ソ', ['ｿ']), ('ゾ', ['ｿ', 'ﾞ']), ('タ', ['ﾀ']),
   ('ダ', ['ﾀ', 'ﾞ']), ('チ', ['ﾁ']), ('ヂ', ['ﾁ', 'ﾞ']), ('ッ', ['ｯ']), ('ツ', ['ﾂ']),
   ('ヅ', ['ﾂ', 'ﾞ']), ('テ', ['ﾃ']), ('デ', ['ﾃ', 'ﾞ']), ('ト', ['ﾄ']), ('ド', ['ﾄ', 'ﾞ']),
   ('ナ', ['ﾅ']), ('ニ', ['ﾆ']), ('ヌ', ['ﾇ']), ('ネ', ['ﾈ']), ('ノ', ['ﾉ']), ('ハ', ['ﾊ']),
   ('バ', ['ﾊ', 'ﾞ']), ('パ', ['ﾊ', 'ﾟ']), ('ヒ', ['ﾋ']), ('ビ', ['ﾋ', 'ﾞ']), ('ピ', ['ﾋ', 'ﾟ']),
   ('フ', ['ﾌ']), ('ブ', ['ﾌ', 'ﾞ']), ('プ', ['ﾌ', 'ﾟ']), ('ヘ', ['ﾍ']), ('ベ', ['ﾍ', 'ﾞ']),
   ('ペ', ['ﾍ', 'ﾟ']), ('ホ', ['ﾎ']), ('ボ', ['ﾎ', 'ﾞ']), ('ポ', ['ﾎ', 'ﾟ']), ('マ', ['ﾏ']),
   ('ミ', ['ﾐ']), ('ム', ['ﾑ']), ('メ', ['ﾒ']), ('モ', ['ﾓ']), ('ャ', ['ｬ']), ('ヤ', ['ﾔ']),
   ('ュ', ['ｭ']), ('ユ', ['ﾕ']), ('ョ', ['ｮ']), ('ヨ', ['ﾖ']), ('ラ', ['ﾗ']), ('リ', ['ﾘ']),
   ('ル', ['ﾙ']), ('レ', ['ﾚ']), ('ロ', ['ﾛ']), ('ワ', ['ﾜ']), ('ヲ', ['ｦ']), ('ン', ['ﾝ']),
   ('ヴ', ['ｳ', 'ﾞ']), ('ヵ', ['ｶ']), ('ヶ', ['ｹ']), ('ー', ['ｰ']), ('。', ['｡']), ('「', ['｢']),
   ('」', ['｣']), ('、', ['､']), ('・', ['･'])]

/-- `to_halfwidth_katakana`: hiragana goes through katakana first, and what has no half-width
form stays as it is. -/
def toHalfwidthKatakana (c : Char) : Str :=
  let k := charToKatakana c
  (halfwidthTable.lookup k).getD [k]

/-- `hiragana_to_halfwidth`: a voiced kana becomes two characters, so the length may grow. -/
def hiraganaToHalfwidth (s : Str) : Str := s.flatMap toHalfwidthKatakana

namespace KanaTable

/-- The rules in effect in a mode: in the katakana modes, the hiragana rules that no
override replaces, then the overrides. -/
def effectiveTransitions (table : KanaTable) (mode : KanaMode) : List KanaTransition :=
  match mode with
  | .hiragana => table.transitions
  | .katakana | .halfWidth =>
      (table.transitions.filter fun t =>
        !table.kataOverrides.any fun o => o.fromState = t.fromState ∧ o.input = t.input)
        ++ table.kataOverrides

/-- What a rule writes, in the script of the mode. The rules themselves are written in
hiragana. -/
def convertOutput (output : Str) (mode : KanaMode) : Str :=
  match mode with
  | .hiragana => output
  | .katakana => hiraganaToKatakana output
  | .halfWidth => hiraganaToHalfwidth output

/-- `KanaTable::transition`: one step of the table from `state` on the character `input`. An
exact rule is looked for among all rules of the state before any wildcard is. -/
def transition (table : KanaTable) (state : Str) (input : Char) (mode : KanaMode) :
    TransitionResult :=
  let transitions := table.effectiveTransitions mode
  match transitions.find? fun t => t.fromState = state ∧ t.input = .char input with
  -- An exact rule wins over a wildcard.
  | some t => .ok (convertOutput t.output mode) t.toState
  | none =>
    match transitions.find? fun t => t.fromState = state ∧ t.input = .wildcard with
    | some t =>
        let output := convertOutput t.output mode
        if t.toState.isEmpty then
          -- From the start state a retry would meet the same wildcard again.
          if state.isEmpty then .ok output [] else .okRetry output input
        else .ok output t.toState
    -- A character that fits nowhere is handed back unless the start state refused it.
    | none => if state.isEmpty then .noMatch [] none else .noMatch state (some input)

/-- `KanaTable::okuri_key`: the dictionary key of an okurigana whose last kana was emitted from
`preState` on `inputChar`. An alias is looked up for the whole pending romaji, or for the
character when nothing was pending. -/
def okuriKey (table : KanaTable) (preState : Str) (inputChar : Char) : Str :=
  match preState with
  -- The whole pending romaji is looked up, its first letter is the default.
  | first :: _ => (table.okuriAliases.lookup preState).getD [first]
  | [] => (table.okuriAliases.lookup [inputChar]).getD [inputChar]

/-- The character a result hands back to be typed again from the start state. -/
def retryOf : TransitionResult → Option Char
  | .ok _ _ => none
  | .okRetry _ retry => some retry
  | .noMatch _ retry => retry

/-- From the start state no character is handed back. The two guards on the empty state in the
source are there for this, and the engine's recursion needs it. -/
theorem transition_nil_retry (table : KanaTable) (c : Char) (mode : KanaMode) :
    retryOf (table.transition [] c mode) = none := by
  unfold transition
  dsimp only
  split
  · rfl
  · split
    · split <;> rfl
    · rfl

/-- The start state takes a character or refuses it: the third kind of result does not occur. -/
theorem transition_nil_cases (table : KanaTable) (c : Char) (mode : KanaMode) :
    (∃ output nextState, table.transition [] c mode = .ok output nextState) ∨
      ∃ flush, table.transition [] c mode = .noMatch flush none := by
  have hretry := table.transition_nil_retry c mode
  cases hcase : table.transition [] c mode with
  | ok output nextState => exact .inl ⟨output, nextState, rfl⟩
  | okRetry output retry =>
      rw [hcase] at hretry
      cases hretry
  | noMatch flush retry =>
      rw [hcase] at hretry
      cases hretry
      exact .inr ⟨flush, rfl⟩

/-- The start state hands nothing back, so a result that does came from a pending state. -/
theorem ne_nil_of_retry {table : KanaTable} {state : Str} {c retry : Char} {mode : KanaMode}
    (h : retryOf (table.transition state c mode) = some retry) : state ≠ [] := by
  intro hnil
  rw [hnil, transition_nil_retry] at h
  cases h

/-- A wildcard that asks for the character again was met in a pending state. -/
theorem transition_okRetry_ne_nil {table : KanaTable} {state output : Str} {c retry : Char}
    {mode : KanaMode} (h : table.transition state c mode = .okRetry output retry) :
    state ≠ [] := by
  have hretry : retryOf (table.transition state c mode) = some retry := by rw [h]; rfl
  exact ne_nil_of_retry hretry

/-- A refusal that asks for the character again was met in a pending state. -/
theorem transition_noMatch_ne_nil {table : KanaTable} {state flush : Str} {c retry : Char}
    {mode : KanaMode} (h : table.transition state c mode = .noMatch flush (some retry)) :
    state ≠ [] := by
  have hretry : retryOf (table.transition state c mode) = some retry := by rw [h]; rfl
  exact ne_nil_of_retry hretry

/-- A pending state that refuses a character hands it back. So a refusal without a retry is one
by the start state, and there is nothing to flush. -/
theorem transition_noMatch_eq_nil {table : KanaTable} {state flush : Str} {c : Char}
    {mode : KanaMode} (h : table.transition state c mode = .noMatch flush none) : state = [] := by
  by_contra hstate
  unfold transition at h
  dsimp only at h
  split at h
  · cases h
  · split at h
    · split at h
      · split at h <;> cases h
      · cases h
    · rw [if_neg (by simpa using hstate)] at h
      cases h

end KanaTable

end Y2Skk
