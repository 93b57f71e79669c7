import Y2Skk.Ipc.Gtk
import Y2Skk.Proofs.Screens

/-!
# `Y2Skk.Proofs.Gtk`: what GTK applications draw

Both contexts are lawful: an application that draws the preedit with its attributes draws
the typed part and the ghost (`parts_update`). `window_displays_of_run` and
`popover_displays_of_run` are what follows for a whole run.

## The laws of the callbacks

The three modules of the GTK family, GTK 3, GTK 4 and Qt, share the Rust side of the
adapter: it makes C strings of the texts, drops a text that is none, and calls back into
the toolkit. `LawfulCallbacks` says what each callback owes to the screen, and
`LawfulCallbacks.screen` makes a lawful screen of it once for all of them. `CallbacksKeep`
does the same for an invariant of a context, which every callback has to keep.

## The preedit

The attributes of Pango carry the ghost: the grey begins where the ghost does, or where an
underline of the whole text ends. `greyFrom_getPreeditString` reads the position back, for
a text whose length fits the 32 bits of the offsets.

## The indicator

Under GTK 4 the indicator is hidden by a timer. `Timed` is the invariant: it is on the
screen only while the timer runs with the timeout of the settings. A new status update
starts the timer again, and the timer may also outlive a popover that has gone with its
widget.
-/

set_option autoImplicit false

namespace Y2Skk

open Outcome Transition
open Utf8 (Str byteLen splitAtByte IsBoundary)

namespace Gtk

/-! ### The preedit -/

/-- Where the grey of a preedit begins: at the ghost text, or at the end when there is none. The
sizes fit 32 bits, so the sentinel for no ghost lies behind every text. -/
theorem greyFrom_getPreeditString (preedit : PreeditState)
    (hfits : byteLen preedit.text < noGhost.toNat) :
    PreeditState.greyFrom preedit.getPreeditString.2.1 (byteLen preedit.text) =
      min preedit.ghostStart.toNat (byteLen preedit.text) := by
  obtain ⟨text, cursor, ghostStart⟩ := preedit
  dsimp only at hfits ⊢
  have hlen := toNat_toUInt32 hfits
  -- The underline does not count.
  have hattrs : ∀ (underlined : PangoAttribute) (gs : UInt32),
      (∃ stop, underlined = .underline 0 stop) →
      PreeditState.greyFrom (underlined :: if gs < (byteLen text).toUInt32 then
        [.foreground gs (byteLen text).toUInt32] else []) (byteLen text) =
      if gs < (byteLen text).toUInt32 then gs.toNat else byteLen text := by
    rintro _ gs ⟨stop, rfl⟩
    split <;> rfl
  have hunderline : ∀ gs : UInt32, ∃ stop, (if gs > 0 then PangoAttribute.underline 0 gs
      else .underline 0 (byteLen text).toUInt32) = .underline 0 stop := by
    intro gs
    split
    · exact ⟨gs, rfl⟩
    · exact ⟨_, rfl⟩
  unfold PreeditState.getPreeditString
  dsimp only
  by_cases hpos : (byteLen text).toUInt32 > 0
  · rw [if_pos hpos, hattrs]
    · by_cases hgs : ghostStart > (byteLen text).toUInt32
      · have hlt := UInt32.lt_iff_toNat_lt.mp hgs
        rw [if_pos hgs, if_neg (UInt32.lt_irrefl _), Nat.min_eq_right (by omega)]
      · have hle := UInt32.le_iff_toNat_le.mp (UInt32.not_lt.mp hgs)
        rw [if_neg hgs]
        split
        · rw [Nat.min_eq_left (by omega)]
        · rename_i hnot
          have hge := UInt32.le_iff_toNat_le.mp (UInt32.not_lt.mp hnot)
          omega
    · exact hunderline _
  · have hzero : byteLen text = 0 := by
      have hle := UInt32.le_iff_toNat_le.mp (UInt32.not_lt.mp hpos)
      rw [hlen] at hle
      exact Nat.le_zero.mp hle
    rw [if_neg hpos, hzero, Nat.min_zero]
    rfl

/-- An application splits the text at the ghost, or at its end when there is none. -/
theorem parts_eq (preedit : PreeditState) (hfits : byteLen preedit.text < noGhost.toNat) :
    preedit.parts =
      splitAtByte preedit.text (min preedit.ghostStart.toNat (byteLen preedit.text)) := by
  rw [← greyFrom_getPreeditString preedit hfits]
  rfl

/-- An application draws the typed part of a preedit and its ghost. The daemon sends the start
of the ghost as 32 bits, or the number that says there is none. The callback takes the smaller
of it and the length, so the text is cut where the ghost begins, or at its end. -/
theorem parts_update {preedit : Preedit}
    (hghost : ∀ g, preedit.ghostStart = some g → IsBoundary preedit.text g)
    (hfits : preedit.Fits) :
    (PreeditState.update preedit.text preedit.cursor.toUInt32
      ((preedit.ghostStart.map Nat.toUInt32).getD noGhost)).parts = some preedit.parts := by
  have hmin : min ((preedit.ghostStart.map Nat.toUInt32).getD noGhost).toNat
      (byteLen preedit.text) = preedit.ghostStart.getD (byteLen preedit.text) := by
    cases hstart : preedit.ghostStart with
    | none => exact Nat.min_eq_right (Nat.le_of_lt hfits)
    | some g =>
        have hle := (hghost g hstart).le
        show min g.toUInt32.toNat (byteLen preedit.text) = g
        rw [toNat_toUInt32 (Nat.lt_of_le_of_lt hle hfits), Nat.min_eq_left hle]
  rw [parts_eq]
  case hfits => exact hfits
  show splitAtByte preedit.text (min ((preedit.ghostStart.map Nat.toUInt32).getD noGhost).toNat
    (byteLen preedit.text)) = some preedit.parts
  rw [hmin, preedit.split_parts hghost]

/-- Nothing is drawn of an empty preedit. -/
theorem parts_clear : (PreeditState.update [] 0 noGhost).parts = some ([], []) := by
  decide

/-- A C string is the text it was made of. -/
theorem cString_eq {s cs : Str} (h : cString s = some cs) : cs = s := by
  unfold cString at h
  split at h
  · cases h
  · exact (Option.some.inj h).symm

/-- A text without a NUL is its own C string. -/
theorem cString_of_isSome {s : Str} (h : (cString s).isSome) : cString s = some s := by
  obtain ⟨cs, hcs⟩ := Option.isSome_iff_exists.mp h
  rw [hcs, cString_eq hcs]

section Callbacks
variable {γ : Type} [Y2skkCallbacks γ]

variable (context : γ) {text : Str} (cursor timeoutMs : UInt32) (ghostStart : Option UInt32)

/-- A text that can be sent is handed to the callback. -/
theorem commit_eq (htext : (cString text).isSome) :
    CallbackSink.commit context text = Y2skkCallbacks.commit context text := by
  rw [CallbackSink.commit, cString_of_isSome htext]

/-- So is a preedit, with its ghost as an offset. -/
theorem updatePreedit_eq (htext : (cString text).isSome) :
    CallbackSink.updatePreedit context text cursor ghostStart =
      Y2skkCallbacks.updatePreedit context text cursor (ghostStart.getD noGhost) := by
  rw [CallbackSink.updatePreedit, cString_of_isSome htext]

/-- A text that cannot be sent is dropped. -/
theorem commit_cases (text : Str) : CallbackSink.commit context text = context ∨
    CallbackSink.commit context text = Y2skkCallbacks.commit context text := by
  cases htext : cString text with
  | none => exact .inl (by rw [CallbackSink.commit, htext])
  | some cs => exact .inr (commit_eq context (by rw [htext]; rfl))

/-- A preedit that cannot be sent is dropped. -/
theorem updatePreedit_cases (text : Str) :
    CallbackSink.updatePreedit context text cursor ghostStart = context ∨
      CallbackSink.updatePreedit context text cursor ghostStart =
        Y2skkCallbacks.updatePreedit context text cursor (ghostStart.getD noGhost) := by
  cases htext : cString text with
  | none => exact .inl (by rw [CallbackSink.updatePreedit, htext])
  | some cs => exact .inr (updatePreedit_eq context cursor ghostStart (by rw [htext]; rfl))

/-- And so is an indicator: with a NUL in its text the callback is not called at all. -/
theorem updateStatus_cases (text : Str) :
    CallbackSink.updateStatus context text timeoutMs = context ∨
      CallbackSink.updateStatus context text timeoutMs =
        Y2skkCallbacks.updateStatus context text timeoutMs := by
  cases htext : cString text with
  | none => exact .inl (by rw [CallbackSink.updateStatus, htext])
  | some cs =>
      have hsome : (cString text).isSome := by rw [htext]; rfl
      exact .inr (by rw [CallbackSink.updateStatus, cString_of_isSome hsome])

/-- A key that is passed on may be committed, and that is all that the end of a key does to a
context. -/
theorem finishKey_cases [Gdk] (key : RawKey) (result : DispatchResult) (context : γ) :
    (finishKey key (result, context)).2 = context ∨
      ∃ text, (finishKey key (result, context)).2 = Y2skkCallbacks.commit context text := by
  unfold finishKey
  dsimp only
  split
  · exact .inl rfl
  split
  · split
    · split
      · exact (commit_cases context _).imp_right fun h => ⟨_, h⟩
      · exact .inl rfl
    · exact .inl rfl
  · exact .inl rfl

/-- So what a commit keeps, the end of a key keeps. A property of the contexts is so shown for
the callbacks alone. -/
theorem kept_finishKey [Gdk] {I : γ → Prop}
    (hcommit : ∀ {context : γ} (text : Str), I context → I (Y2skkCallbacks.commit context text))
    {context : γ} (h : I context) (key : RawKey) (result : DispatchResult) :
    I (finishKey key (result, context)).2 := by
  rcases finishKey_cases key result context with hsame | ⟨text, hsame⟩
  · rwa [hsame]
  · rw [hsame]
    exact hcommit text h

end Callbacks

/-- What the callbacks of an adapter owe to what it shows. The Rust side drops the texts that no C
string holds, and hands over all others as they are, so that these laws make the screen lawful. -/
structure LawfulCallbacks (γ : Type) {π : Type} [Y2skkCallbacks γ] [Screen γ π] : Prop where
  sink : (Screen.toActionSink : ActionSink γ) = callbackSink
  carries : ∀ text, Screen.carries γ text = (cString text).isSome
  commit : ∀ {context : γ} {v : View π} (text : Str), Screen.view context = some v →
    Screen.view (Y2skkCallbacks.commit context text) = some (v.see γ (.commit text))
  updatePreedit : ∀ {context : γ} {v : View π} {preedit : Preedit}, Screen.view context = some v →
    IsBoundary preedit.text preedit.cursor →
    (∀ g, preedit.ghostStart = some g → IsBoundary preedit.text g) → preedit.Fits →
    Screen.view (Y2skkCallbacks.updatePreedit context preedit.text preedit.cursor.toUInt32
      ((preedit.ghostStart.map Nat.toUInt32).getD noGhost)) =
        some (v.see γ (.updatePreedit preedit))
  clearPreedit : ∀ {context : γ} {v : View π}, Screen.view context = some v →
    Screen.view (Y2skkCallbacks.clearPreedit context) = some (v.see γ .clearPreedit)
  showCandidates : ∀ {context : γ} {v : View π} (rows : List IpcCandidate) (focused : UInt32)
    (selKeys : Str), Screen.view context = some v →
    Screen.view (CallbackSink.showCandidates context rows focused selKeys) =
      some { v with popup := if v.ready then Screen.list γ rows focused selKeys else none }
  hideCandidates : ∀ {context : γ} {v : View π}, Screen.view context = some v →
    Screen.view (Y2skkCallbacks.hideCandidates context) = some (v.see γ .hideCandidates)
  updateStatus : ∀ {context : γ} {v : View π} (label : Str) (timeoutMs : UInt32),
    Screen.view context = some v →
    Screen.view (Y2skkCallbacks.updateStatus context label timeoutMs) = some v

/-- Callbacks that keep the laws make a lawful screen: the Rust side hands over what a C string
holds, and the laws of a screen ask about nothing else. -/
theorem LawfulCallbacks.screen {γ π : Type} [Y2skkCallbacks γ] [Screen γ π]
    (h : LawfulCallbacks γ) : LawfulScreen γ where
  -- a text without a NUL is handed over as it is; the callback then does what the law says
  commit {context v text} hview htext := by
    rw [h.carries] at htext
    rw [h.sink]
    exact (congrArg Screen.view (commit_eq context htext)).trans (h.commit text hview)
  updatePreedit {context v preedit} hview hcursor hghost hfits htext := by
    rw [h.carries] at htext
    rw [h.sink]
    exact (congrArg Screen.view (updatePreedit_eq context _ _ htext)).trans
      (h.updatePreedit hview hcursor hghost hfits)
  clearPreedit hview := by
    rw [h.sink]
    exact h.clearPreedit hview
  showCandidates rows focused selKeys hview := by
    rw [h.sink]
    exact h.showCandidates rows focused selKeys hview
  hideCandidates hview := by
    rw [h.sink]
    exact h.hideCandidates hview
  updateStatus {context v} label timeoutMs hview := by
    rw [h.sink]
    show Screen.view (CallbackSink.updateStatus context label timeoutMs) = some v
    rcases updateStatus_cases context timeoutMs label with hsame | hsame
    · rw [hsame]
      exact hview
    · rw [hsame]
      exact h.updateStatus label timeoutMs hview

/-- What each callback of an adapter keeps, when preedits satisfy `P` and status updates come with
the timeout `timeoutMs`. -/
structure CallbacksKeep {γ : Type} [Y2skkCallbacks γ] (timeoutMs : UInt32) (P : Preedit → Prop)
    (I : γ → Prop) : Prop where
  commit : ∀ {context : γ} (text : Str), I context → I (Y2skkCallbacks.commit context text)
  updatePreedit : ∀ {context : γ} {preedit : Preedit}, I context → preedit.Wf → P preedit →
    I (Y2skkCallbacks.updatePreedit context preedit.text preedit.cursor.toUInt32
      (preedit.ghostSent.getD noGhost))
  clearPreedit : ∀ {context : γ}, I context → I (Y2skkCallbacks.clearPreedit context)
  showCandidates : ∀ {context : γ} (words annotations : List Str) (focused : UInt32)
    (selKeys : Str), I context →
    I (Y2skkCallbacks.showCandidates context words annotations focused selKeys)
  hideCandidates : ∀ {context : γ}, I context → I (Y2skkCallbacks.hideCandidates context)
  updateStatus : ∀ {context : γ} (label : Str), I context → timeoutMs ≠ 0 →
    I (Y2skkCallbacks.updateStatus context label timeoutMs)

/-- So the adapter keeps it, if the toolkit does. A call that the Rust side does not make, for a
text with a NUL in it, changes nothing, and every other one is a call of the callback. The rest
are the calls of the toolkit, which are the hypotheses. -/
theorem CallbacksKeep.kept {γ π κ ε : Type} [Y2skkCallbacks γ] [InputContext γ π κ ε]
    {timeoutMs : UInt32} {P : Preedit → Prop} {I : γ → Prop} (h : CallbacksKeep timeoutMs P I)
    (hsink : (Screen.toActionSink : ActionSink γ) = callbackSink) (hnew : I InputContext.new)
    (hhandle : ∀ {context : γ} (e : ε), I context → I (InputContext.handle context e))
    (hfinish : ∀ {context : γ} (k : κ) (result : DispatchResult), I context →
      I (InputContext.finish k (result, context)).2) : Kept timeoutMs P I where
  new := hnew
  handle := hhandle
  finish := hfinish
  commit {context} text hcontext := by
    rw [hsink]
    show I (CallbackSink.commit context text)
    -- The text has a NUL and no call is made, or the callback is called with it.
    rcases commit_cases context text with hsame | hsame
    · rwa [hsame]
    · rw [hsame]
      exact h.commit text hcontext
  updatePreedit {context preedit} hcontext hwf hp := by
    rw [hsink]
    show I (CallbackSink.updatePreedit context preedit.text _ _)
    rcases updatePreedit_cases context preedit.cursor.toUInt32 preedit.ghostSent preedit.text with
      hsame | hsame
    · rwa [hsame]
    · rw [hsame]
      exact h.updatePreedit hcontext hwf hp
  clearPreedit hcontext := by
    rw [hsink]
    exact h.clearPreedit hcontext
  showCandidates rows focused selKeys hcontext := by
    rw [hsink]
    exact h.showCandidates _ _ _ _ hcontext
  hideCandidates hcontext := by
    rw [hsink]
    exact h.hideCandidates hcontext
  updateStatus {context} label hcontext htimeout := by
    rw [hsink]
    show I (CallbackSink.updateStatus context label timeoutMs)
    rcases updateStatus_cases context timeoutMs label with hsame | hsame
    · rwa [hsame]
    · rw [hsame]
      exact h.updateStatus label hcontext htimeout

/-- A view of which the preedit is drawn with its attributes, told apart into its parts. The two
versions of GTK differ in the popup. -/
theorem drawn_iff {π : Type} {preedit : PreeditState} {popup : Option π} {ready : Bool}
    {v : View π} :
    (preedit.parts.map fun p => (⟨p.1, p.2, popup, ready⟩ : View π)) = some v ↔
      preedit.parts = some (v.typed, v.ghost) ∧ popup = v.popup ∧ ready = v.ready := by
  constructor
  · intro hview
    obtain ⟨parts, hparts, rfl⟩ := Option.map_eq_some_iff.mp hview
    exact ⟨hparts, rfl, rfl⟩
  · obtain ⟨typed, ghost, popup, ready⟩ := v
    rintro ⟨hparts, rfl, rfl⟩
    exact Option.map_eq_some_iff.mpr ⟨_, hparts, rfl⟩

/-- The two parts make up the text that the application gets. -/
theorem preedit_of_parts {π : Type} {preedit : PreeditState} {v : View π}
    (hparts : preedit.parts = some (v.typed, v.ghost)) :
    v.preedit = preedit.getPreeditString.1 := Utf8.append_of_splitAtByte hparts

/-! ### The indicator -/

/-- The indicator is on the screen only while the timer runs with the timeout of the settings.
Without a timeout there is no indicator. -/
structure Timed (timeoutMs : UInt32) (window : Option StatusWindow) (timer : Option UInt32) :
    Prop where
  visible : ∀ w, window = some w → w.visible → timer = some timeoutMs
  off : timeoutMs = 0 → window = none

section Timed
variable {timeoutMs : UInt32} {window : Option StatusWindow} {timer : Option UInt32}

/-- Without an indicator nothing has to be timed. -/
theorem Timed.absent : Timed timeoutMs none timer :=
  ⟨fun _ h => (by cases h), fun _ => rfl⟩

/-- A new indicator starts the timer, unless there is no timeout. -/
theorem Timed.show (label : Str) (h : timeoutMs ≠ 0) :
    Timed timeoutMs (some ⟨label, true⟩) (if timeoutMs > 0 then some timeoutMs else none) := by
  have hpos : timeoutMs > 0 := UInt32.pos_iff_ne_zero.mpr h
  rw [if_pos hpos]
  exact ⟨fun _ _ _ => rfl, fun hoff => (h hoff).elim⟩

/-- The timer hides the indicator. -/
theorem Timed.fire (h : Timed timeoutMs window timer) :
    Timed timeoutMs (window.map fun w => { w with visible := false }) none := by
  refine ⟨fun w hw hvisible => ?_, fun hoff => ?_⟩
  · obtain ⟨old, -, rfl⟩ := Option.map_eq_some_iff.mp hw
    cases hvisible
  · rw [h.off hoff]
    rfl

end Timed

/-! ### Two contexts -/

/-- A library that knows the ASCII keyvals. -/
@[reducible]
def asciiGdk : Gdk := ⟨fun keyval => if keyval < 0x80 then keyval else 0⟩

end Gtk

/-! ### GTK 3 -/

namespace Gtk3

open Gtk

section Context
variable [Gdk]

/-- What can be seen of a context: the two parts of its preedit, and its window. -/
theorem view_iff {context : IMContext} {v : View (List CandRow)} :
    Screen.view context = some v ↔ context.preedit.parts = some (v.typed, v.ghost) ∧
      context.candWindow = v.popup ∧ true = v.ready := drawn_iff

omit [Gdk] in
/-- The timer touches the indicator alone: the preedit and the candidate window stay as they
are. -/
theorem handle_statusTimeout (context : IMContext) :
    (context.handle .statusTimeout).preedit = context.preedit ∧
      (context.handle .statusTimeout).candWindow = context.candWindow := by
  unfold IMContext.handle
  dsimp only
  split
  · exact ⟨rfl, rfl⟩
  · exact ⟨rfl, rfl⟩

/-- Each callback shows what it was called with. There is one obligation for each of them; those
of the preedit need that the offsets fit. -/
theorem lawful_callbacks : LawfulCallbacks IMContext where
  sink := rfl
  carries _ := rfl
  commit _ hview := hview
  updatePreedit hview _ hghost hfits := by
    obtain ⟨-, hwindow, hready⟩ := view_iff.mp hview
    exact view_iff.mpr ⟨parts_update hghost hfits, hwindow, hready⟩
  clearPreedit hview := by
    obtain ⟨-, hwindow, hready⟩ := view_iff.mp hview
    exact view_iff.mpr ⟨parts_clear, hwindow, hready⟩
  showCandidates rows focused selKeys hview := by
    obtain ⟨hparts, -, hready⟩ := view_iff.mp hview
    exact view_iff.mpr ⟨hparts, by rw [← hready]; rfl, hready⟩
  hideCandidates hview := by
    obtain ⟨hparts, -, hready⟩ := view_iff.mp hview
    exact view_iff.mpr ⟨hparts, rfl, hready⟩
  updateStatus _ _ hview := hview

/-- A context of GTK 3 is lawful: it starts with nothing on the screen, and an event of the
toolkit touches its windows only. -/
instance : LawfulInputContext IMContext where
  toLawfulScreen := lawful_callbacks.screen
  view_new := ⟨true, view_iff.mpr ⟨show (PreeditState.parts {}) = _ from parts_clear, rfl, rfl⟩⟩
  view_handle {context v} e hview := by
    obtain ⟨hparts, hwindow, hready⟩ := view_iff.mp hview
    refine ⟨true, view_iff.mpr ?_⟩
    cases e with
    | focusIn => exact ⟨hparts, hwindow, rfl⟩
    | focusOut => exact ⟨hparts, rfl, rfl⟩
    | reset => exact ⟨hparts, rfl, rfl⟩
    | statusTimeout =>
        obtain ⟨hpreedit, hsame⟩ := handle_statusTimeout context
        exact ⟨(congrArg PreeditState.parts hpreedit).trans hparts, hsame.trans hwindow, rfl⟩
  view_finish {context v} key result hview :=
    kept_finishKey (I := fun context : IMContext => Screen.view context = some v)
      (fun text h => lawful_callbacks.commit text h) hview key result
  filterKey_eq _ _ _ := rfl

section Runs
variable {δ : Type} [DictionaryProvider δ] [EucJp] {settings : Settings δ} {d : Desk IMContext δ}
  {history : List (Visit (Desk IMContext δ) (DeskInput RawKey IMContext.Event)
    (SessionId × RawKey))}

/-- In every clear run each context has the preedit of its own engine, whose ghost begins at a
character, and the window of candidates of its own engine, unless the toolkit has closed it. -/
theorem window_displays_of_run (hrun : Desk.Day IMContext settings history d)
    (hclear : Desk.Clear history) {id : SessionId} {engine : SkkEngine δ}
    (hengine : d.engine? id = some engine) :
    engine.Shown (d.screens id).preedit.getPreeditString.1 ∧
      (d.screens id).preedit.parts.isSome ∧
      (d.screens id).candWindow =
        if d.closed id then none else popupOf IMContext true engine.window := by
  obtain ⟨v, hview, hshown, hlists⟩ := Desk.view_of_run hrun hclear rfl hengine
  obtain ⟨hparts, hwindow, -⟩ := view_iff.mp hview
  exact ⟨preedit_of_parts hparts ▸ hshown, by rw [hparts]; rfl, hwindow.trans hlists⟩

end Runs

end Context

section Two

local instance : EucJp := EucJp.empty
local instance : Gdk := asciiGdk

/-- The day of two contexts: in the first one a romaji is pending, in the second one `1` is
converted. -/
def twoDay := trace Desk.step (Desk.start Desk.listingSettings : Desk IMContext Empty)
  [.openContext [], .openContext [], .key 1 ⟨0x6B, 0, true⟩ .replied,
    .key 2 ⟨0x2F, 0, true⟩ .replied, .key 2 ⟨0x31, 0, true⟩ .replied,
    .key 2 ⟨0x20, 0, true⟩ .replied]

/-- Two contexts side by side: one has a pending romaji, the other one lists candidates. Each
shows its own, as neither screen is shared. -/
theorem window_displays_of_run_two : ∃ history d pending listing,
    Desk.Day IMContext Desk.listingSettings history d ∧
    d.engine? 1 = some pending ∧ d.engine? 2 = some listing ∧
    pending.Shown ['k'] ∧ (d.screens 2).candWindow.isSome ∧
    (d.screens 2).candWindow = popupOf IMContext true listing.window := by
  have hrun : Desk.Day IMContext Desk.listingSettings twoDay.1 twoDay.2 := run_trace ..
  have hclear : Desk.Clear twoDay.1 :=
    ⟨by decide +kernel, by decide +kernel, by decide +kernel⟩
  have hengines : (twoDay.2.engine? 1).isSome ∧ (twoDay.2.engine? 2).isSome := by decide +kernel
  have htext : (twoDay.2.screens 1).preedit.getPreeditString.1 = ['k'] := by decide +kernel
  have hwindow : (twoDay.2.screens 2).candWindow.isSome := by decide +kernel
  have hopen : twoDay.2.closed 2 = false := by decide +kernel
  obtain ⟨pending, hpending⟩ := Option.isSome_iff_exists.mp hengines.1
  obtain ⟨listing, hlisting⟩ := Option.isSome_iff_exists.mp hengines.2
  refine ⟨_, _, pending, listing, hrun, hpending, hlisting, ?_, hwindow, ?_⟩
  · have hshown := (window_displays_of_run hrun hclear hpending).1
    rwa [htext] at hshown
  · exact (window_displays_of_run hrun hclear hlisting).2.2.trans (if_neg (by simp [hopen]))

end Two

end Gtk3

/-! ### GTK 4 -/

namespace Gtk4

open Gtk

section Context
variable [Gdk]

/-- The same under GTK 4, where a window needs the widget of the client. -/
theorem view_iff {context : IMContext} {v : View (List CandRow)} :
    Screen.view context = some v ↔ context.preedit.parts = some (v.typed, v.ghost) ∧
      context.candPopover = v.popup ∧ context.clientWidget = v.ready := drawn_iff

omit [Gdk] in
/-- Without a widget there is no popover, since a context carries the proof that a popover has
one. -/
theorem candPopover_eq_none {context : IMContext} (h : context.clientWidget = false) :
    context.candPopover = none := by
  cases hpopover : context.candPopover with
  | none => rfl
  | some rows =>
      have hwidget := context.attached (by simp [hpopover])
      rw [h] at hwidget
      cases hwidget

omit [Gdk] in
/-- The timer touches the indicator alone, and not the widget or the candidate popover. -/
theorem handle_statusTimeout (context : IMContext) :
    (context.handle .statusTimeout).preedit = context.preedit ∧
      (context.handle .statusTimeout).candPopover = context.candPopover ∧
      (context.handle .statusTimeout).clientWidget = context.clientWidget := by
  unfold IMContext.handle
  dsimp only
  split
  · exact ⟨rfl, rfl, rfl⟩
  · exact ⟨rfl, rfl, rfl⟩

/-- The callbacks of GTK 4. A list without rows closes the popover, and without a widget none is
opened. -/
theorem lawful_callbacks : LawfulCallbacks IMContext where
  sink := rfl
  carries _ := rfl
  commit _ hview := hview
  updatePreedit hview _ hghost hfits := by
    obtain ⟨-, hpopover, hready⟩ := view_iff.mp hview
    exact view_iff.mpr ⟨parts_update hghost hfits, hpopover, hready⟩
  clearPreedit hview := by
    obtain ⟨-, hpopover, hready⟩ := view_iff.mp hview
    exact view_iff.mpr ⟨parts_clear, hpopover, hready⟩
  showCandidates {context v} rows focused selKeys hview := by
    obtain ⟨hparts, hpopover, hready⟩ := view_iff.mp hview
    show Screen.view (context.cbShowCandidates (rows.map fun c => cStringLossy c.word)
      (rows.map fun c => cStringLossy c.annotation) focused (cStringLossy selKeys)) = _
    rw [← hready]
    unfold IMContext.cbShowCandidates
    by_cases hempty : (rows.map fun c => cStringLossy c.word).isEmpty
    · rw [if_pos hempty]
      refine view_iff.mpr ⟨hparts, ?_, rfl⟩
      show none = if context.clientWidget then Gtk.listRows rows focused selKeys else none
      rw [show Gtk.listRows rows focused selKeys = none from if_pos hempty, ite_self]
    · rw [if_neg hempty]
      -- the popover needs a widget to be attached to; without one the rows are not shown
      by_cases hwidget : context.clientWidget
      · rw [dif_pos hwidget]
        refine view_iff.mpr ⟨hparts, ?_, rfl⟩
        rw [if_pos hwidget]
        exact (if_neg hempty).symm
      · rw [dif_neg hwidget]
        refine view_iff.mpr ⟨hparts, ?_, rfl⟩
        rw [if_neg hwidget]
        exact candPopover_eq_none (by simpa using hwidget)
  hideCandidates hview := by
    obtain ⟨hparts, -, hready⟩ := view_iff.mp hview
    exact view_iff.mpr ⟨hparts, rfl, hready⟩
  updateStatus {context v} label timeoutMs hview := by
    obtain ⟨hparts, hpopover, hready⟩ := view_iff.mp hview
    show Screen.view (context.cbUpdateStatus label timeoutMs) = _
    unfold IMContext.cbUpdateStatus
    split
    · exact hview
    · exact view_iff.mpr ⟨hparts, hpopover, hready⟩

/-- A context of GTK 4 is lawful. Losing its widget closes the popover, which is one of the
events that close. -/
instance : LawfulInputContext IMContext where
  toLawfulScreen := lawful_callbacks.screen
  view_new := ⟨false, view_iff.mpr ⟨show (PreeditState.parts {}) = _ from parts_clear, rfl, rfl⟩⟩
  view_handle {context v} e hview := by
    obtain ⟨hparts, hpopover, hready⟩ := view_iff.mp hview
    cases e with
    | focusIn => exact ⟨v.ready, view_iff.mpr ⟨hparts, hpopover, hready⟩⟩
    | focusOut => exact ⟨v.ready, view_iff.mpr ⟨hparts, rfl, hready⟩⟩
    | reset => exact ⟨v.ready, view_iff.mpr ⟨hparts, rfl, hready⟩⟩
    | setClientWidget isWidget => exact ⟨isWidget, view_iff.mpr ⟨hparts, rfl, rfl⟩⟩
    | statusTimeout =>
        obtain ⟨hpreedit, hsame, hwidget⟩ := handle_statusTimeout context
        exact ⟨v.ready, view_iff.mpr ⟨(congrArg PreeditState.parts hpreedit).trans hparts,
          hsame.trans hpopover, hwidget.trans hready⟩⟩
  view_finish {context v} key result hview :=
    kept_finishKey (I := fun context : IMContext => Screen.view context = some v)
      (fun text h => lawful_callbacks.commit text h) hview key result
  filterKey_eq _ _ _ := rfl

omit [Gdk] in
/-- Only a status update shows the indicator, and then it starts the timer. The callbacks of the
preedit and of the candidates leave both the indicator and the timer as they are. -/
theorem callbacksKeep_timed (timeoutMs : UInt32) : CallbacksKeep timeoutMs (fun _ => True)
    fun context : IMContext => Timed timeoutMs context.statusPopover context.statusTimer where
  commit _ h := h
  updatePreedit h _ _ := h
  clearPreedit h := h
  showCandidates {context} words annotations focused selKeys h := by
    show Timed _ (context.cbShowCandidates words annotations focused selKeys).statusPopover
      (context.cbShowCandidates words annotations focused selKeys).statusTimer
    unfold IMContext.cbShowCandidates
    split
    · exact h
    · split
      · exact h
      · exact h
  hideCandidates h := h
  updateStatus {context} label h htimeout := by
    show Timed _ (context.cbUpdateStatus label timeoutMs).statusPopover
      (context.cbUpdateStatus label timeoutMs).statusTimer
    unfold IMContext.cbUpdateStatus
    split
    · exact h
    · exact .show _ htimeout

/-- A context keeps its indicator timed. The callbacks are those of the sink, and the remaining
events are gone through here. -/
theorem kept_timed (timeoutMs : UInt32) : Kept timeoutMs (fun _ => True)
    fun context : IMContext => Timed timeoutMs context.statusPopover context.statusTimer := by
  have hkeep := callbacksKeep_timed timeoutMs
  refine hkeep.kept rfl .absent (fun {context} e h => ?_) fun key result h =>
    kept_finishKey
      (I := fun context : IMContext => Timed timeoutMs context.statusPopover context.statusTimer)
      hkeep.commit h key result
  cases e with
  | statusTimeout =>
      show Timed _ (context.handle .statusTimeout).statusPopover
        (context.handle .statusTimeout).statusTimer
      unfold IMContext.handle
      dsimp only
      split
      · exact h.fire
      · exact h
  | focusIn => exact h
  | focusOut => exact h
  | reset => exact h
  -- The timer goes on, and finds nothing to hide.
  | setClientWidget isWidget => exact .absent

section Runs
variable {δ : Type} [DictionaryProvider δ] [EucJp] {settings : Settings δ} {d : Desk IMContext δ}
  {history : List (Visit (Desk IMContext δ) (DeskInput RawKey IMContext.Event)
    (SessionId × RawKey))}

/-- The same under GTK 4, where a popover also goes with its widget: it shows the list of the
engine as long as the context is open. -/
theorem popover_displays_of_run (hrun : Desk.Day IMContext settings history d)
    (hclear : Desk.Clear history) {id : SessionId} {engine : SkkEngine δ}
    (hengine : d.engine? id = some engine) :
    engine.Shown (d.screens id).preedit.getPreeditString.1 ∧
      (d.screens id).preedit.parts.isSome ∧
      (d.screens id).candPopover =
        (if d.closed id then none else popupOf IMContext true engine.window) ∧
      ((d.screens id).candPopover.isSome → (d.screens id).clientWidget) := by
  obtain ⟨v, hview, hshown, hlists⟩ := Desk.view_of_run hrun hclear rfl hengine
  obtain ⟨hparts, hpopover, -⟩ := view_iff.mp hview
  exact ⟨preedit_of_parts hparts ▸ hshown, by rw [hparts]; rfl, hpopover.trans hlists,
    (d.screens id).attached⟩

/-- The same under GTK 4, where the timer can outlive the popover. -/
theorem popover_timed_of_run (hrun : Desk.Day IMContext settings history d) (id : SessionId) :
    Timed settings.indicatorTimeoutMs (d.screens id).statusPopover (d.screens id).statusTimer := by
  refine Desk.screens_of_run (kept_timed _) hrun (fun v _ => ?_) id
  unfold Desk.Answers
  split
  · exact fun _ _ => trivial
  · trivial

end Runs

end Context

section Two

local instance : EucJp := EucJp.empty
local instance : Gdk := asciiGdk

/-- A context with a widget converts `1`. -/
def listingDay := trace Desk.step (Desk.start Desk.listingSettings : Desk IMContext Empty)
  [.openContext [], .event 1 (.setClientWidget true), .key 1 ⟨0x2F, 0, true⟩ .replied,
    .key 1 ⟨0x31, 0, true⟩ .replied, .key 1 ⟨0x20, 0, true⟩ .replied]

/-- What the user sees of that context: a popover with the candidates of its engine, attached to
the widget of the client. -/
theorem popover_displays_of_run_listing : ∃ history d listing,
    Desk.Day IMContext Desk.listingSettings history d ∧ d.engine? 1 = some listing ∧
    (d.screens 1).candPopover.isSome ∧ (d.screens 1).clientWidget ∧
    (d.screens 1).candPopover = popupOf IMContext true listing.window := by
  have hrun : Desk.Day IMContext Desk.listingSettings listingDay.1 listingDay.2 := run_trace ..
  have hclear : Desk.Clear listingDay.1 :=
    ⟨by decide +kernel, by decide +kernel, by decide +kernel⟩
  have hengine : (listingDay.2.engine? 1).isSome := by decide +kernel
  have hpopover : (listingDay.2.screens 1).candPopover.isSome := by decide +kernel
  have hopen : listingDay.2.closed 1 = false := by decide +kernel
  obtain ⟨listing, hlisting⟩ := Option.isSome_iff_exists.mp hengine
  obtain ⟨-, -, hwindow, hattached⟩ := popover_displays_of_run hrun hclear hlisting
  refine ⟨_, _, listing, hrun, hlisting, hpopover, hattached hpopover, hwindow.trans (if_neg ?_)⟩
  simp [hopen]

/-- A context with a widget switches to katakana. -/
def switchDay := trace Desk.step
  (Desk.start { Desk.listingSettings with indicatorTimeoutMs := 1000 } : Desk IMContext Empty)
  [.openContext [], .event 1 (.setClientWidget true), .key 1 ⟨0x71, 0, true⟩ .replied]

/-- Its indicator is on the screen, and its timer runs for the time the settings give. -/
theorem popover_timed_of_run_switch : ∃ history d,
    Desk.Day IMContext { Desk.listingSettings with indicatorTimeoutMs := 1000 } history d ∧
    (d.screens 1).statusPopover = some ⟨['ア'], true⟩ ∧ (d.screens 1).statusTimer = some 1000 := by
  have hrun : Desk.Day IMContext { Desk.listingSettings with indicatorTimeoutMs := 1000 }
      switchDay.1 switchDay.2 := run_trace ..
  have hpopover : (switchDay.2.screens 1).statusPopover = some ⟨['ア'], true⟩ := by
    decide +kernel
  exact ⟨_, _, hrun, hpopover, (popover_timed_of_run hrun 1).visible _ hpopover rfl⟩

end Two

end Gtk4

end Y2Skk
