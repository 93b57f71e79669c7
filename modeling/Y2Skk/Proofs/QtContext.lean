import Y2Skk.Ipc.QtContext
import Y2Skk.Proofs.Gtk

/-!
# `Y2Skk.Proofs.QtContext`: what Qt applications draw

A Qt input context sends its application one event for each change, with the text of the
preedit and a list of formats. What the application draws is read off the last event it
was sent, and the candidates off the window that the context owns.

## The event

`preeditEvent_eq` is the translation of a preedit: bytes become UTF-16 code units, and the
formats of the event lie side by side from the start of the preedit to its end (`Tiles`).
A preedit without a ghost is underlined from end to end. One with a ghost is underlined up
to it and grey from there on, and an empty ghost counts as none.

## The window

The window is given all rows of the page and paints the first ten of them. Nothing in the
adapter keeps a page to that length: it is as long as the list of the selection keys,
which the settings decide. `listRows` is what is painted, and `shown_updateCandidates`
says so of an update.

## Runs

From this follow that the context is lawful (`lawful_callbacks`), and
`event_displays_of_run` for a whole day of a desk. Its witness `event_displays_of_run_two`
has two contexts, one with a pending romaji and one that lists candidates.
-/

set_option autoImplicit false

namespace Y2Skk.Qt

open Outcome Transition Measure
open Utf8 (Str byteLen IsBoundary splitAtByte)

/-! ### Code units -/

/-- A character is one code unit or two, and never none. -/
theorem qcharSize_pos (c : Char) : 0 < qcharSize c := by
  unfold qcharSize
  split <;> omega

/-- The prefix that ends where `before` does has the length of `before`. -/
theorem lengthOfPrefix_append (before after : Str) :
    lengthOfPrefix (before ++ after) (byteLen before) = some (qlength before) := by
  rw [lengthOfPrefix, Utf8.splitAtByte_append]
  rfl

/-- Lengths in code units add up. -/
theorem qlength_append (before after : Str) :
    qlength (before ++ after) = qlength before + qlength after := measure_append ..

/-- A text with a character in it is not of length zero. -/
theorem qlength_pos {s : Str} (h : s ≠ []) : 0 < qlength s := by
  cases s with
  | nil => exact (h rfl).elim
  | cons c s =>
      have hc := qcharSize_pos c
      rw [qlength, measure_cons]
      omega

/-! ### Events -/

/-- From `start` on, the formats lie side by side up to the end of the text. The cursor is on a
character. -/
def Tiles (text : Str) : Nat → List Attribute → Prop
  | start, [] => start = qlength text
  | start, .underline at' length :: attrs => at' = start ∧ Tiles text (start + length) attrs
  | start, .grey at' length :: attrs => at' = start ∧ Tiles text (start + length) attrs
  | start, .cursor position :: attrs =>
      (∃ before after, text = before ++ after ∧ qlength before = position) ∧
        Tiles text start attrs

/-- The formats of an event cover its preedit. -/
def QInputMethodEvent.Tiled (event : QInputMethodEvent) : Prop :=
  Tiles event.preedit 0 event.attributes

/-- Nothing is drawn of an event without a preedit. -/
theorem parts_empty (text : Str) :
    Y2skkInputContext.parts { commitString := text } = some ([], []) := rfl

section Preedit
variable {text : Str} {cursor : UInt32} {position : Nat}

/-- An offset that fits 32 bits is sent as it is, and read as the length of the text in front of
it. -/
theorem lengthOfPrefix_boundary (hfits : byteLen text < noGhost.toNat) {n : Nat}
    (hn : IsBoundary text n) : ∃ before after, text = before ++ after ∧ byteLen before = n ∧
      lengthOfPrefix text n.toUInt32.toNat = some (qlength before) := by
  have hle := hn.le
  obtain ⟨before, after, rfl, rfl⟩ := hn
  refine ⟨before, after, rfl, rfl, ?_⟩
  rw [toNat_toUInt32 (Nat.lt_of_le_of_lt hle hfits), lengthOfPrefix_append]

/-- The ghost of an update, unless it is empty: an offset at the end of the text is sent as one
without a ghost. -/
theorem ghostOf_sent (hfits : byteLen text < noGhost.toNat) {g : Nat} (hg : g ≤ byteLen text) :
    ghostOf text g.toUInt32 = if g < byteLen text then some g.toUInt32 else none := by
  have hsent : g.toUInt32.toNat = g := toNat_toUInt32 (Nat.lt_of_le_of_lt hg hfits)
  have hlen : (byteLen text).toUInt32.toNat = byteLen text := toNat_toUInt32 hfits
  have hne : g.toUInt32 ≠ noGhost := by
    intro heq
    rw [heq] at hsent
    omega
  have hlt : g.toUInt32 < (byteLen text).toUInt32 ↔ g < byteLen text := by
    rw [UInt32.lt_iff_toNat_lt, hsent, hlen]
  unfold ghostOf
  by_cases h : g < byteLen text
  · rw [if_pos ⟨hne, hlt.mpr h⟩, if_pos h]
  · rw [if_neg (fun hsome => h (hlt.mp hsome.2)), if_neg h]

/-- A preedit without a ghost is underlined over its whole length, with the cursor where the
byte offset of the engine falls. -/
theorem underline_eq (hcursor : lengthOfPrefix text cursor.toNat = some position)
    {ghostStart : UInt32} (hghost : ghostOf text ghostStart = none) :
    preeditEvent text cursor ghostStart =
      some { preedit := text
             attributes := [.underline 0 (qlength text), .cursor position] } := by
  unfold preeditEvent
  rw [hghost, hcursor]
  rfl

/-- All of an underlined preedit is typed text. -/
theorem parts_underline : Y2skkInputContext.parts
    { preedit := text, attributes := [.underline 0 (qlength text), .cursor position] } =
      some (text, []) := by
  show splitAtMeasure qcharSize text (qlength text) = _
  have hsplit := splitAtMeasure_append qcharSize_pos text []
  rwa [List.append_nil] at hsplit

/-- A ghost is grey. The event underlines what comes before it, if anything, and puts the cursor
where the daemon says, all in the units of Qt. -/
theorem grey_eq {before after : Str} (hafter : after ≠ [])
    (hcursor : lengthOfPrefix (before ++ after) cursor.toNat = some position)
    {ghostStart ghost : UInt32} (hghost : ghostOf (before ++ after) ghostStart = some ghost)
    (hbefore : lengthOfPrefix (before ++ after) ghost.toNat = some (qlength before)) :
    preeditEvent (before ++ after) cursor ghostStart =
      some { preedit := before ++ after
             attributes := (if qlength before > 0 then [.underline 0 (qlength before)] else []) ++
               [.grey (qlength before) (qlength after), .cursor position] } := by
  have hgrey : ghostAttributes (qlength before) (qlength (before ++ after)) =
      (if qlength before > 0 then [.underline 0 (qlength before)] else []) ++
        [.grey (qlength before) (qlength after)] := by
    unfold ghostAttributes
    dsimp only
    rw [qlength_append, Nat.add_sub_cancel_left, if_pos (qlength_pos hafter)]
  unfold preeditEvent
  rw [hghost, hcursor]
  dsimp only
  rw [hbefore, Option.map_some, hgrey]
  show some _ = some _
  rw [List.append_assoc]
  rfl

/-- The underlined part is typed text, and the grey part the ghost: cutting the preedit at the
start of the grey format gives the two back. -/
theorem parts_grey (before after : Str) : Y2skkInputContext.parts
    { preedit := before ++ after
      attributes := (if qlength before > 0 then [.underline 0 (qlength before)] else []) ++
        [.grey (qlength before) (qlength after), .cursor position] } = some (before, after) := by
  have hstart : Y2skkInputContext.parts
      { preedit := before ++ after
        attributes := (if qlength before > 0 then [.underline 0 (qlength before)] else []) ++
          [.grey (qlength before) (qlength after), .cursor position] } =
      splitAtMeasure qcharSize (before ++ after) (qlength before) := by
    split <;> rfl
  rw [hstart]
  exact splitAtMeasure_append qcharSize_pos before after

/-- The two formats of a preedit with a ghost lie side by side. Without a typed part there is
only the grey one, which then begins at the start. -/
theorem tiled_grey {typed ghost : Str}
    (hcursor : ∃ before after, typed ++ ghost = before ++ after ∧ qlength before = position) :
    QInputMethodEvent.Tiled
      { preedit := typed ++ ghost
        attributes := (if qlength typed > 0 then [.underline 0 (qlength typed)] else []) ++
          [.grey (qlength typed) (qlength ghost), .cursor position] } := by
  have hstop : qlength typed + qlength ghost = qlength (typed ++ ghost) :=
    (qlength_append typed ghost).symm
  unfold QInputMethodEvent.Tiled
  by_cases hpos : qlength typed > 0
  · rw [if_pos hpos]
    refine ⟨rfl, (Nat.zero_add _).symm, hcursor, ?_⟩
    show 0 + qlength typed + qlength ghost = qlength (typed ++ ghost)
    omega
  · rw [if_neg hpos]
    refine ⟨by omega, hcursor, ?_⟩
    show 0 + qlength ghost = qlength (typed ++ ghost)
    omega

end Preedit

/-- The event for a preedit has the text of the preedit, its two parts, and formats that cover
it. -/
theorem preeditEvent_eq {preedit : Preedit} (hcursor : IsBoundary preedit.text preedit.cursor)
    (hghost : ∀ g, preedit.ghostStart = some g → IsBoundary preedit.text g)
    (hfits : preedit.Fits) : ∃ event,
    preeditEvent preedit.text preedit.cursor.toUInt32
      ((preedit.ghostStart.map Nat.toUInt32).getD noGhost) = some event ∧
    event.preedit = preedit.text ∧ event.Tiled ∧
    Y2skkInputContext.parts event = some preedit.parts := by
  obtain ⟨before, after, htext, -, hposition⟩ := lengthOfPrefix_boundary hfits hcursor
  have hparts := preedit.split_parts hghost
  -- All is underlined when there is no ghost, or an empty one.
  have hunderline : (preedit.ghostStart.getD (byteLen preedit.text)) = byteLen preedit.text →
      ghostOf preedit.text ((preedit.ghostStart.map Nat.toUInt32).getD noGhost) = none →
      ∃ event, preeditEvent preedit.text preedit.cursor.toUInt32
        ((preedit.ghostStart.map Nat.toUInt32).getD noGhost) = some event ∧
      event.preedit = preedit.text ∧ event.Tiled ∧
      Y2skkInputContext.parts event = some preedit.parts := by
    intro hend hnone
    refine ⟨_, underline_eq hposition hnone, rfl, ⟨rfl, ⟨before, after, htext, rfl⟩, ?_⟩, ?_⟩
    · exact Nat.zero_add _
    · rw [hend] at hparts
      have hwhole := Utf8.splitAtByte_append preedit.text []
      rw [List.append_nil, hparts] at hwhole
      rw [parts_underline]
      exact hwhole.symm
  cases hstart : preedit.ghostStart with
  | none =>
      rw [hstart] at hunderline
      refine hunderline rfl ?_
      unfold ghostOf
      exact if_neg (fun h => h.1 rfl)
  | some g =>
      rw [hstart] at hunderline hparts
      have hg := hghost g hstart
      have hsent := ghostOf_sent hfits hg.le
      by_cases hlt : g < byteLen preedit.text
      · obtain ⟨typed, ghost, hsplit, hlen, hbefore⟩ := lengthOfPrefix_boundary hfits hg
        rw [if_pos hlt] at hsent
        have hafter : ghost ≠ [] := by
          rintro rfl
          rw [hsplit, List.append_nil, hlen] at hlt
          omega
        have hpair : preedit.parts = (typed, ghost) := by
          rw [hsplit, Option.getD_some, ← hlen, Utf8.splitAtByte_append] at hparts
          exact (Option.some.inj hparts).symm
        rw [hpair]
        rw [hsplit] at hposition hsent hbefore ⊢
        refine ⟨_, grey_eq hafter hposition hsent hbefore, rfl, ?_, parts_grey typed ghost⟩
        exact tiled_grey ⟨before, after, hsplit ▸ htext, rfl⟩
      · rw [if_neg hlt] at hsent
        exact hunderline (Nat.le_antisymm hg.le (Nat.not_lt.mp hlt)) hsent

/-! ### The context -/

namespace Y2skkInputContext

/-- What is seen of a context: the parts of its last event, the rows that its window paints, and
nothing before it is ready. -/
theorem view_iff {context : Y2skkInputContext} {v : View (Str × List (Str × Str))} :
    Screen.view context = some v ↔
      (∃ event, context.sent = some event ∧ parts event = some (v.typed, v.ghost)) ∧
      context.candidates.bind CandidateWindow.shown = v.popup ∧ v.ready = true := by
  constructor
  · intro hview
    obtain ⟨event, hsent, hrest⟩ := Option.bind_eq_some_iff.mp hview
    obtain ⟨⟨typed, ghost⟩, hparts, hv⟩ := Option.bind_eq_some_iff.mp hrest
    cases hv
    exact ⟨⟨event, hsent, hparts⟩, rfl, rfl⟩
  · obtain ⟨typed, ghost, popup, ready⟩ := v
    rintro ⟨⟨event, hsent, hparts⟩, rfl, rfl⟩
    exact Option.bind_eq_some_iff.mpr
      ⟨event, hsent, Option.bind_eq_some_iff.mpr ⟨_, hparts, rfl⟩⟩

/-- The window paints the first of the rows that were sent, ten at most, each with its own
annotation; the keys are those it had. -/
theorem shown_updateCandidates (window : CandidateWindow) {words annotations : List Str}
    (hlength : words.length = annotations.length) :
    { window.updateCandidates words annotations with visible := true }.shown =
      some (window.keys, (words.zip annotations).take kMaxVisible) := by
  have hrows : (words.zip annotations).take (min words.length kMaxVisible) =
      (words.zip annotations).take kMaxVisible := by
    rw [List.take_eq_take_iff, List.length_zip, ← hlength]
    omega
  unfold CandidateWindow.updateCandidates CandidateWindow.shown CandidateWindow.visibleRows
  rw [← hlength, Nat.sub_self, List.replicate_zero, List.append_nil]
  split <;> exact congrArg (fun rows => some (window.keys, rows)) hrows

/-- The window paints the rows of the page, as far as it has room for them. -/
theorem shown_cbShowCandidates (context : Y2skkInputContext) (rows : List IpcCandidate)
    (selKeys : Str) :
    ((context.cbShowCandidates (rows.map fun c => cStringLossy c.word)
      (rows.map fun c => cStringLossy c.annotation) (cStringLossy selKeys)).candidates.bind
        CandidateWindow.shown) = listRows rows selKeys := by
  unfold listRows
  rw [List.map_take, ← List.zip_map']
  exact shown_updateCandidates { context.candidates.getD {} with keys := cStringLossy selKeys }
    (by rw [List.length_map, List.length_map])

/-- A commit leaves the window alone. -/
theorem candidates_cbCommit (context : Y2skkInputContext) (text : Str) :
    (context.cbCommit text).candidates = context.candidates := by
  unfold cbCommit
  dsimp only
  split <;> rfl

/-- Each callback of the context does to the screen what the event it stands for says. A commit
is an event without a preedit. A list of candidates opens the window or changes it, and the
window paints as many rows as it has room for. -/
theorem lawful_callbacks : Gtk.LawfulCallbacks Y2skkInputContext where
  sink := rfl
  carries _ := rfl
  commit {context v} text hview := by
    obtain ⟨-, hwindow, hready⟩ := view_iff.mp hview
    refine view_iff.mpr ⟨⟨_, rfl, parts_empty text⟩, ?_, hready⟩
    show (context.cbCommit text).candidates.bind CandidateWindow.shown = v.popup
    rw [candidates_cbCommit]
    exact hwindow
  updatePreedit hview hcursor hghost hfits := by
    obtain ⟨-, hwindow, hready⟩ := view_iff.mp hview
    obtain ⟨event, hevent, -, -, hparts⟩ := preeditEvent_eq hcursor hghost hfits
    exact view_iff.mpr ⟨⟨event, hevent, hparts⟩, hwindow, hready⟩
  clearPreedit hview := by
    obtain ⟨-, hwindow, hready⟩ := view_iff.mp hview
    exact view_iff.mpr ⟨⟨_, rfl, parts_empty []⟩, hwindow, hready⟩
  showCandidates {context v} rows focused selKeys hview := by
    obtain ⟨hsent, -, hready⟩ := view_iff.mp hview
    refine view_iff.mpr ⟨hsent, ?_, hready⟩
    rw [hready, if_pos rfl]
    exact shown_cbShowCandidates context rows selKeys
  hideCandidates {context v} hview := by
    obtain ⟨hsent, -, hready⟩ := view_iff.mp hview
    refine view_iff.mpr ⟨hsent, ?_, hready⟩
    show (context.candidates.map fun window => { window with visible := false }).bind
      CandidateWindow.shown = none
    cases context.candidates <;> rfl
  updateStatus _ _ hview := hview

/-- A new context has an empty screen, and each callback changes it as the event it handles
says. -/
instance : LawfulInputContext Y2skkInputContext where
  toLawfulScreen := lawful_callbacks.screen
  view_new := ⟨true, view_iff.mpr ⟨⟨_, rfl, parts_empty []⟩, rfl, rfl⟩⟩
  view_handle {context v} e hview := by
    obtain ⟨hsent, hwindow, hready⟩ := view_iff.mp hview
    refine ⟨true, view_iff.mpr ?_⟩
    cases e with
    | setFocusObject isObject => exact ⟨hsent, hwindow, rfl⟩
    | reset => exact ⟨hsent, hwindow, rfl⟩
  view_finish _ _ hview := hview
  filterKey_eq _ _ _ := rfl

/-! ### Runs -/

section Runs
variable {δ : Type} [DictionaryProvider δ] [EucJp] {settings : Settings δ}
  {d : Desk Y2skkInputContext δ}
  {history : List (Visit (Desk Y2skkInputContext δ) (DeskInput QKeyEvent Event)
    (SessionId × QKeyEvent))}

end Runs

section Two

local instance : EucJp := EucJp.empty

/-- A day of two contexts, with the keys that Qt sends for each of them. -/
def twoDay := trace Desk.step (Desk.start Desk.listingSettings : Desk Y2skkInputContext Empty)
  [.openContext [], .openContext [], .key 1 ⟨0x4B, 0, true⟩ .replied,
    .key 2 ⟨0x2F, 0, true⟩ .replied, .key 2 ⟨0x31, 0, true⟩ .replied,
    .key 2 ⟨0x20, 0, true⟩ .replied]

end Two

end Y2skkInputContext

end Y2Skk.Qt
