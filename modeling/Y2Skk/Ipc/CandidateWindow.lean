import Y2Skk.Ipc.Message

/-!
# `Y2Skk.Ipc.CandidateWindow`: the candidate window of the Wayland adapter

One surface shows the candidate list or the mode indicator. As an input-panel overlay it
can be drawn on at once. As a layer-shell surface it must wait for its first configure
event: until then a request only fills the slot `pending`, which `handleConfigure` draws.

## Who wins

Candidates take priority: the indicator is not drawn while candidates are visible, and to
hide one of the two does nothing when the surface shows the other. `DisplayState` says
what is there. The slot `pending` holds one draw, and a later request replaces an earlier
one whatever it was.

## Canvases

A canvas is what has been painted on it, so the glyphs of the font and their blending are
not modelled. The proxies of the compositor are not modelled either: of the surface there
is the buffer that was attached to it last. A buffer is made in shared memory, which can
fail, so the functions that may make one are told whether it can be made (`shm`).

As an overlay the indicator has a buffer of its own, as large as its box. As a layer
surface it is drawn in a corner of the candidates' buffer.

## Runs

`shown` is what the user sees, and `Call` lists what the event loop asks of a window. A
run of calls is a fold of `step`.
-/

set_option autoImplicit false

namespace Y2Skk.Wayland

open Utf8 (Str)

/-! ### Layout -/

/-- `FONT_SIZE`, in pixels. -/
def fontSize : Int := 16
/-- Vertical padding inside each candidate row (pixels above and below text). -/
def rowPad : Int := 4
/-- Horizontal margin inside the window. -/
def hMargin : Int := 8
/-- The height of a row. -/
def lineH : Int := fontSize + rowPad * 2
/-- `MAX_ROWS`: a longer list is cut, whatever the number of selection keys. -/
def maxRows : Nat := 10

/-- The width of the candidate list. -/
def candW : Int := 380
/-- The height of the candidate list with all its rows. A shorter list leaves the rest
transparent. -/
def candH : Int := lineH * maxRows + rowPad * 2

/-- The height of the box of the indicator. -/
def indH : Int := lineH + rowPad * 2
/-- The box of the indicator is a square. -/
def indW : Int := indH

/-- ARGB8888 in little-endian order: the bytes are B, G, R, A. -/
structure Argb where
  b : UInt8
  g : UInt8
  r : UInt8
  a : UInt8
  deriving DecidableEq, Repr

/-- The background, a light yellow. -/
def bgColor : Argb := ⟨0xE0, 0xFF, 0xFF, 0xFF⟩
/-- The background of the focused row. -/
def focusBg : Argb := ⟨0xCC, 0xCC, 0xFF, 0xFF⟩
/-- Black. -/
def textColor : Argb := ⟨0x00, 0x00, 0x00, 0xFF⟩
/-- Grey, for the border of either box. -/
def borderColor : Argb := ⟨0x80, 0x80, 0x80, 0xFF⟩

/-! ### Drawing -/

/-- One drawing primitive. -/
inductive Paint where
  | text (text : Str) (startX baselineY : Int) (color : Argb)
  | filledRect (x y w h : Int) (color : Argb)
  | rect (x y w h : Int) (color : Argb)
  deriving DecidableEq, Repr

/-- What was painted since the canvas was last filled transparent, first to last. -/
abbrev Canvas := List Paint

/-- `fill_transparent`: what was painted before is gone. -/
def fillTransparent : Canvas := []

namespace Canvas

/-- `draw_text`, from the start of its baseline. -/
def drawText (canvas : Canvas) (text : Str) (startX baselineY : Int) (color : Argb) : Canvas :=
  canvas ++ [.text text startX baselineY color]

/-- `draw_filled_rect`. -/
def drawFilledRect (canvas : Canvas) (x y w h : Int) (color : Argb) : Canvas :=
  canvas ++ [.filledRect x y w h color]

/-- `draw_rect`, one pixel wide. -/
def drawRect (canvas : Canvas) (x y w h : Int) (color : Argb) : Canvas :=
  canvas ++ [.rect x y w h color]

end Canvas

/-- The text of row `i`: the selection key when there is one, the word, and the annotation. -/
def rowText (keyChars : List Char) (cand : IpcCandidate) (i : Nat) : Str :=
  let text :=
    match keyChars[i]? with
    | some key => key :: ':' :: ' ' :: cand.word
    | none => cand.word
  if cand.hasAnnotation then text ++ [' ', ' ', ';'] ++ cand.annotation else text

/-- The loop body of `renderCandidates`. -/
def renderRow (focused : UInt32) (selKeys : Str) (canvas : Canvas) (row : IpcCandidate × Nat) :
    Canvas :=
  let (cand, i) := row
  let rowY := rowPad + i * lineH
  let canvas :=
    if i = focused.toNat then canvas.drawFilledRect 1 rowY (candW - 2) lineH focusBg else canvas
  canvas.drawText (rowText selKeys cand i) hMargin (rowY + (fontSize + rowPad)) textColor

/-- `render_candidates`: border, background, and the first rows of the list, the focused one on
its own background. -/
def renderCandidates (candidates : List IpcCandidate) (focused : UInt32) (selKeys : Str) :
    Canvas :=
  let n := min candidates.length maxRows
  let contentH := n * lineH + rowPad * 2
  let canvas := Canvas.drawRect fillTransparent 0 0 candW contentH borderColor
  let canvas := canvas.drawFilledRect 1 1 (candW - 2) (contentH - 2) bgColor
  (candidates.zipIdx.take n).foldl (renderRow focused selKeys) canvas

/-- The indicator box is the whole surface. -/
def renderIndicatorOverlay (indicator : Str) : Canvas :=
  let canvas := Canvas.drawRect fillTransparent 0 0 indW indH borderColor
  let canvas := canvas.drawFilledRect 1 1 (indW - 2) (indH - 2) bgColor
  canvas.drawText indicator hMargin (rowPad + fontSize) textColor

/-- The indicator box stands at the bottom left of a candidate-sized surface. -/
def renderIndicatorLegacy (indicator : Str) : Canvas :=
  let boxX := 0
  let boxY := candH - indH
  let canvas := Canvas.drawRect fillTransparent boxX boxY indW indH borderColor
  let canvas := canvas.drawFilledRect (boxX + 1) (boxY + 1) (indW - 2) (indH - 2) bgColor
  canvas.drawText indicator (boxX + hMargin) (boxY + rowPad + fontSize) textColor

/-! ### The window -/

/-- A buffer of shared memory: its size and what is painted on it. -/
structure ShmBuf where
  width : Int
  height : Int
  canvas : Canvas
  deriving DecidableEq, Repr

/-- Fresh shared memory is zero, so the buffer starts transparent. -/
def ShmBuf.new (shm : Bool) (width height : Int) : Option ShmBuf :=
  if shm then some ⟨width, height, fillTransparent⟩ else none

/-- The role of the surface, chosen once from what the compositor offers. -/
inductive SurfaceBackend where
  | layerShell
  | overlayPanel
  deriving DecidableEq, Repr

/-- `is_overlay`: an overlay is drawn on without a configure event. -/
def SurfaceBackend.isOverlay : SurfaceBackend → Bool
  | .overlayPanel => true
  | .layerShell => false

/-- The draw queued while the layer surface is not yet configured. -/
inductive PendingDraw where
  | candidates (candidates : List IpcCandidate) (focused : UInt32) (selKeys : Str)
  | status (indicator : Str)
  deriving DecidableEq, Repr

/-- What is on the surface. -/
inductive DisplayState where
  | empty
  | candidates
  | status
  deriving DecidableEq, Repr

/-- Which buffer of the window is attached to the surface. -/
inductive BufSlot where
  | cand
  | ind
  deriving DecidableEq, Repr

/-- `CandidateWindow`: the state of a window. Whether a buffer is made and whether it is
attached are two things: the indicator's buffer stays when the candidates are shown. -/
structure CandidateWindow where
  backend : SurfaceBackend
  /-- The buffer attached at the last commit of the surface with one. -/
  attached : Option BufSlot
  /-- The buffer of the candidate list. In layer-shell mode the indicator is drawn here too. -/
  candBuf : Option ShmBuf
  /-- The small buffer of the indicator, in overlay mode only. -/
  indBuf : Option ShmBuf
  /-- The surface can be drawn on. -/
  configured : Bool
  pending : Option PendingDraw
  state : DisplayState
  deriving DecidableEq, Repr

namespace CandidateWindow

/-- A window on what the compositor advertises, an input panel before a layer shell. -/
def new (layerShell inputPanel : Bool) : Option CandidateWindow :=
  if inputPanel then some ⟨.overlayPanel, none, none, none, true, none, .empty⟩
  else if layerShell then some ⟨.layerShell, none, none, none, false, none, .empty⟩
  else none

/-- The buffer of the slot, made when there is none yet. -/
def ensureBuf (slot : Option ShmBuf) (shm : Bool) (width height : Int) : Option ShmBuf :=
  match slot with
  | some buf => some buf
  | none => ShmBuf.new shm width height

/-- `attach_and_commit`: the surface shows the chosen buffer from now on. -/
def attachAndCommit (self : CandidateWindow) (isCandBuf : Bool) : CandidateWindow :=
  { self with attached := some (if isCandBuf then .cand else .ind) }

/-- `do_draw_candidates`: paints and attaches the candidates' buffer. Without shared memory the
surface stays as it is. -/
def doDrawCandidates (self : CandidateWindow) (candidates : List IpcCandidate)
    (focused : UInt32) (selKeys : Str) (shm : Bool) : CandidateWindow :=
  match ensureBuf self.candBuf shm candW candH with
  | none => self
  | some buf =>
      { self with
          candBuf := some { buf with canvas := renderCandidates candidates focused selKeys }
        }.attachAndCommit true

/-- `do_draw_status`: the same for the indicator, in the buffer that the role of the surface
asks for. -/
def doDrawStatus (self : CandidateWindow) (indicator : Str) (shm : Bool) : CandidateWindow :=
  if self.backend.isOverlay then
    match ensureBuf self.indBuf shm indW indH with
    | none => self
    | some buf =>
        { self with
            indBuf := some { buf with canvas := renderIndicatorOverlay indicator }
          }.attachAndCommit false
  else
    match ensureBuf self.candBuf shm candW candH with
    | none => self
    | some buf =>
        { self with
            candBuf := some { buf with canvas := renderIndicatorLegacy indicator }
          }.attachAndCommit true

/-- The candidate buffer is painted transparent and attached again: the compositor would keep
showing a surface whose buffer was only detached. -/
def fadeOutCandBuf (self : CandidateWindow) : CandidateWindow :=
  match self.candBuf with
  | none => self
  | some buf =>
      { self with candBuf := some { buf with canvas := fillTransparent } }.attachAndCommit true

/-- The same for the buffer that shows the indicator, which is one of its own on an overlay and
the candidate buffer on a layer-shell window. -/
def fadeOutIndBuf (self : CandidateWindow) : CandidateWindow :=
  if self.backend.isOverlay then
    match self.indBuf with
    | none => self
    | some buf =>
        { self with indBuf := some { buf with canvas := fillTransparent } }.attachAndCommit false
  else
    match self.candBuf with
    | none => self
    | some buf =>
        { self with candBuf := some { buf with canvas := fillTransparent } }.attachAndCommit true

/-- Show candidates (takes priority over the status indicator). -/
def «show» (self : CandidateWindow) (candidates : List IpcCandidate) (focused : UInt32)
    (selKeys : Str) (shm : Bool) : CandidateWindow :=
  if !self.configured then
    { self with pending := some (.candidates candidates focused selKeys) }
  else
    { self.doDrawCandidates candidates focused selKeys shm with state := .candidates }

/-- Hide candidates, if they are what the window shows. Before the window is configured it is
the pending list that goes. -/
def hide (self : CandidateWindow) : CandidateWindow :=
  if !self.configured then
    match self.pending with
    | some (.candidates _ _ _) => { self with pending := none }
    | _ => self
  else if self.state = .candidates then
    { self.fadeOutCandBuf with state := .empty }
  else self

/-- Show the mode indicator (no-op while candidates are visible). -/
def showStatus (self : CandidateWindow) (indicator : Str) (shm : Bool) : CandidateWindow :=
  if self.state = .candidates then self
  else if !self.configured then
    -- a candidate list that waits in `pending` is not looked at
    { self with pending := some (.status indicator) }
  else
    { self.doDrawStatus indicator shm with state := .status }

/-- Hide the mode indicator, when its timer fires. A list that has taken its place in the
meantime stays. -/
def hideStatus (self : CandidateWindow) : CandidateWindow :=
  if !self.configured then
    match self.pending with
    | some (.status _) => { self with pending := none }
    | _ => self
  else if self.state = .status then
    { self.fadeOutIndBuf with state := .empty }
  else self

/-- The first configure event draws what is pending. Later ones change nothing. -/
def handleConfigure (self : CandidateWindow) (shm : Bool) : CandidateWindow :=
  let wasConfigured := self.configured
  let self := { self with configured := true }
  if !wasConfigured then
    let pending := self.pending
    let self := { self with pending := none }
    match pending with
    | some (.candidates candidates focused selKeys) =>
        { self.doDrawCandidates candidates focused selKeys shm with state := .candidates }
    | some (.status indicator) =>
        { self.doDrawStatus indicator shm with state := .status }
    | none => self
  else self

/-! ### Runs -/

/-- What the surface shows: the canvas of the buffer attached to it. -/
def shown (self : CandidateWindow) : Canvas :=
  match self.attached with
  | none => fillTransparent
  | some .cand => (self.candBuf.map ShmBuf.canvas).getD fillTransparent
  | some .ind => (self.indBuf.map ShmBuf.canvas).getD fillTransparent

/-- A call on the window, with what it finds when it has to make a buffer. -/
inductive Call where
  | showCandidates (candidates : List IpcCandidate) (focused : UInt32) (selKeys : Str)
      (shm : Bool)
  | hideCandidates
  | showStatus (indicator : Str) (shm : Bool)
  | hideStatus
  deriving DecidableEq, Repr

/-- A buffer the call needs can be made. -/
def Call.buffersMade : Call → Bool
  | .showCandidates _ _ _ shm => shm
  | .showStatus _ shm => shm
  | _ => true

/-- One call. -/
def step (self : CandidateWindow) : Call → CandidateWindow
  | .showCandidates candidates focused selKeys shm => self.show candidates focused selKeys shm
  | .hideCandidates => self.hide
  | .showStatus indicator shm => self.showStatus indicator shm
  | .hideStatus => self.hideStatus

/-- The calls one after the other. -/
def run (self : CandidateWindow) (calls : List Call) : CandidateWindow :=
  calls.foldl step self

end CandidateWindow

end Y2Skk.Wayland
