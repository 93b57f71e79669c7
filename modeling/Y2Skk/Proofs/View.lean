import Y2Skk.Ipc.Screen
import Y2Skk.Proofs.Redrawn

/-!
# `Y2Skk.Proofs.View`: what the actions of a key leave on a screen

What a screen shows after the actions of a key is a fold over them. The adapters differ in
what their screens are made of, and `LawfulScreen` is what they have in common: each
action does to the view what `View.see` says.

## From actions to the screen

`view_dispatchAction` is one action, from the engine through the wire to the screen: texts
that get through, and offsets that fit their 32 bits, arrive as they were. `view_dispatch`
is the list of them.

## The two parts of a view

The preedit a fold ends with depends on the last action that draws, and the window of
candidates on the last window action. `drawn_of_some` says so for the preedit and
`View.popup_foldl` for the window. `SkkEngine.window_act` connects the second with the
engine: the last window action of a key asks for the window of its state.
-/

set_option autoImplicit false

namespace Y2Skk

open Outcome
open Utf8 (Str byteLen)

/-! ### One action after the other -/

section Screen
variable {σ π : Type} [Screen σ π]

/-- An action as the screen needs it: its texts get through, and so do the offsets of a preedit. -/
def EngineAction.Sound (σ : Type) {π : Type} [Screen σ π] (a : EngineAction) : Prop :=
  a.Carried σ ∧ ∀ preedit, a = .updatePreedit preedit → preedit.Wf

namespace SessionManager

variable {δ : Type} (self : SessionManager δ)

/-- The actions are sent one after the other. -/
theorem ipcActions_cons (a : EngineAction) (actions : List EngineAction) :
    self.ipcActions (a :: actions) = self.ipcActions [a] ++ self.ipcActions actions := by
  simp only [ipcActions, List.map_cons, List.map_nil, List.filter_cons, List.filter_nil]
  split <;> simp

/-- Every action but a status update is sent as it is. A status update is left out when the
settings have no indicator. -/
theorem ipcActions_singleton {a : EngineAction} (ha : ∀ indicator, a ≠ .updateStatus indicator) :
    self.ipcActions [a] = [.ofEngine a] := by
  have hkind : (IpcAction.ofEngine a).kind ≠ actionUpdateStatus := by
    cases a with
    | updateStatus indicator => exact (ha indicator rfl).elim
    | _ => simp [IpcAction.ofEngine, actionUpdateStatus, actionCommit, actionUpdatePreedit,
        actionClearPreedit, actionShowCandidates, actionHideCandidates, actionPassthrough]
  simp [ipcActions, hkind]

/-- A status update is sent with the timeout of the settings, or not at all. -/
theorem ipcActions_status (indicator : Str) :
    self.ipcActions [.updateStatus indicator] = [] ∨ ∃ timeoutMs,
      self.ipcActions [.updateStatus indicator] =
        [{ kind := actionUpdateStatus, text := indicator, cursor := timeoutMs }] := by
  by_cases hoff : self.settings.indicatorTimeoutMs = 0
  · exact .inl (by simp [ipcActions, IpcAction.ofEngine, hoff])
  · exact .inr ⟨self.settings.indicatorTimeoutMs, by simp [ipcActions, IpcAction.ofEngine, hoff]⟩

end SessionManager

/-- An offset that can be sent arrives as it is. -/
theorem toNat_toUInt32 {n : Nat} (h : n < noGhost.toNat) : n.toUInt32.toNat = n :=
  Nat.mod_eq_of_lt (Nat.lt_trans h (by decide))

section Actions
variable [LawfulScreen σ] {δ : Type} {manager : SessionManager δ} {s : σ} {v : View π}

omit [LawfulScreen σ] in
/-- The offset of a ghost is told from the mark for no ghost, as long as the preedit fits its 32
bits. -/
theorem ghost_sent {preedit : Preedit}
    (hghost : ∀ g, preedit.ghostStart = some g → Utf8.IsBoundary preedit.text g)
    (hfits : preedit.Fits) :
    (let sent := (preedit.ghostStart.map Nat.toUInt32).getD noGhost
     if sent ≠ noGhost then some sent else none) = preedit.ghostStart.map Nat.toUInt32 := by
  cases hstart : preedit.ghostStart with
  | none => simp
  | some g =>
      have hlt : g < noGhost.toNat := Nat.lt_of_le_of_lt (hghost g hstart).le hfits
      have hne : g.toUInt32 ≠ noGhost := by
        intro heq
        have hval := toNat_toUInt32 hlt
        rw [heq] at hval
        omega
      simp [hne]

/-- One action, as it arrives at the screen. The daemon sends one message for it, or none, and
the client makes one call of the adapter. The laws of the screen say what the call draws. -/
theorem view_dispatchAction {a : EngineAction} (hview : Screen.view s = some v)
    (ha : a.Sound σ) (result : DispatchResult) :
    Screen.view ((manager.ipcActions [a]).foldl dispatchStep (result, s)).2
      = some (v.see σ a) := by
  cases a with
  | updateStatus indicator =>
      -- A status is sent only with a timeout, and it shows in no view.
      rcases manager.ipcActions_status indicator with hsent | ⟨timeoutMs, hsent⟩
      · rw [hsent]
        exact hview
      · rw [hsent]
        exact LawfulScreen.updateStatus indicator timeoutMs hview
  | commit text =>
      rw [manager.ipcActions_singleton (by simp)]
      exact LawfulScreen.commit hview ha.1
  | updatePreedit preedit =>
      rw [manager.ipcActions_singleton (by simp)]
      have hwf := ha.2 preedit rfl
      have hghost := hwf.ghost
      have hupdated := LawfulScreen.updatePreedit hview hwf.cursor hghost ha.1.2 ha.1.1
      rwa [← ghost_sent hghost ha.1.2] at hupdated
  | clearPreedit =>
      rw [manager.ipcActions_singleton (by simp)]
      exact LawfulScreen.clearPreedit hview
  | showCandidates page focused selKeys =>
      rw [manager.ipcActions_singleton (by simp)]
      exact LawfulScreen.showCandidates _ _ _ hview
  | hideCandidates =>
      rw [manager.ipcActions_singleton (by simp)]
      exact LawfulScreen.hideCandidates hview
  | passthrough =>
      rw [manager.ipcActions_singleton (by simp)]
      exact hview
  | deleteBack =>
      rw [manager.ipcActions_singleton (by simp)]
      exact hview

/-- What a screen shows after the actions of a key: they are seen one after the other. -/
theorem view_dispatch (actions : List EngineAction) (hview : Screen.view s = some v)
    (hactions : ∀ a ∈ actions, a.Sound σ) :
    Screen.view (dispatch (manager.ipcActions actions) s).2
      = some (actions.foldl (View.see σ) v) := by
  have hloop : ∀ (actions : List EngineAction) (acc : DispatchResult × σ) (v : View π),
      Screen.view acc.2 = some v → (∀ a ∈ actions, a.Sound σ) →
      Screen.view ((manager.ipcActions actions).foldl dispatchStep acc).2
        = some (actions.foldl (View.see σ) v) := by
    intro actions
    induction actions with
    | nil => exact fun acc v hacc _ => hacc
    | cons a actions ih =>
        intro acc v hacc hsound
        rw [manager.ipcActions_cons, List.foldl_append]
        refine ih _ _ ?_ fun a ha => hsound a (List.mem_cons_of_mem _ ha)
        exact view_dispatchAction hacc (hsound a List.mem_cons_self) acc.1
  exact hloop actions _ v hview hactions

end Actions

/-! ### The two parts of a view -/

section Fold
variable (v : View π) (actions : List EngineAction)

/-- Whether a screen is ready does not depend on the actions. -/
@[simp] theorem View.ready_foldl : (actions.foldl (View.see σ) v).ready = v.ready := by
  induction actions generalizing v with
  | nil => rfl
  | cons a actions ih =>
      rw [List.foldl_cons, ih]
      cases a <;> rfl

/-- The two parts of a preedit make up its text. -/
theorem Preedit.parts_append (preedit : Preedit) :
    preedit.parts.1 ++ preedit.parts.2 = preedit.text := by
  unfold parts
  cases hsplit : Utf8.splitAtByte preedit.text
      (preedit.ghostStart.getD (byteLen preedit.text)) with
  | none => exact List.append_nil _
  | some p => exact Utf8.append_of_splitAtByte hsplit

/-- The parts of a preedit whose ghost begins at a character are those on both sides of it. -/
theorem Preedit.split_parts (preedit : Preedit)
    (hghost : ∀ g, preedit.ghostStart = some g → Utf8.IsBoundary preedit.text g) :
    Utf8.splitAtByte preedit.text (preedit.ghostStart.getD (byteLen preedit.text)) =
      some preedit.parts := by
  have hboundary :
      Utf8.IsBoundary preedit.text (preedit.ghostStart.getD (byteLen preedit.text)) := by
    cases hstart : preedit.ghostStart with
    | none => exact Utf8.isBoundary_byteLen _
    | some g => exact hghost g hstart
  obtain ⟨typed, ghost, htext, hlen⟩ := hboundary
  have hsplit : Utf8.splitAtByte preedit.text (preedit.ghostStart.getD (byteLen preedit.text)) =
      some (typed, ghost) := by
    rw [← hlen, htext, Utf8.splitAtByte_append]
  rw [parts, hsplit]
  rfl

/-- Without a ghost everything is typed. -/
theorem Preedit.parts_of_none {preedit : Preedit} (h : preedit.ghostStart = none) :
    preedit.parts = (preedit.text, []) := by
  have hwhole := Utf8.splitAtByte_append preedit.text []
  rw [List.append_nil] at hwhole
  rw [parts, h, Option.getD_none, hwhole]
  rfl

/-- One action changes the preedit of a view as `draws` says, whether or not the adapter hides
it at a commit. -/
theorem View.preedit_see (a : EngineAction) :
    (v.see σ a).preedit = a.draws (Screen.hides σ) v.preedit := by
  cases a with
  | commit text =>
      show (if Screen.hides σ then [] else v.typed) ++ (if Screen.hides σ then [] else v.ghost) =
        if Screen.hides σ then [] else v.typed ++ v.ghost
      split <;> rfl
  | updatePreedit preedit => exact preedit.parts_append
  | _ => rfl

/-- And so do all of them, one after the other. -/
theorem View.preedit_foldl :
    (actions.foldl (View.see σ) v).preedit = drawn (Screen.hides σ) v.preedit actions := by
  induction actions generalizing v with
  | nil => rfl
  | cons a actions ih =>
      rw [List.foldl_cons, ih]
      show drawn _ _ actions = drawn _ (a.draws (Screen.hides σ) v.preedit) actions
      rw [View.preedit_see]

variable (σ) in
/-- The window that the last window action asks for. -/
def popupOf (ready : Bool) : Option EngineAction → Option π
  | some (.showCandidates page focused selKeys) =>
      if ready then
        Screen.list σ (page.map fun c => ⟨c.word, c.annotation.getD []⟩) focused.toUInt32 selKeys
      else none
  | _ => none

/-- The last window action decides about the window, and without one it stays. The induction is
on the actions from their end. -/
theorem View.popup_foldl : (actions.foldl (View.see σ) v).popup =
    match lastWindow actions with
    | some a => popupOf σ v.ready (some a)
    | none => v.popup := by
  induction actions using List.reverseRecOn with
  | nil => rfl
  | append_singleton actions a ih =>
      rw [List.foldl_append, lastWindow_append, List.foldl_cons, List.foldl_nil]
      have hready := View.ready_foldl (σ := σ) v actions
      cases a with
      | showCandidates page focused selKeys =>
          show (if _ then _ else _) = _
          rw [hready]
          rfl
      | hideCandidates => rfl
      | _ => exact ih

end Fold

end Screen

/-! ### What a key does to the engine's part of a view -/

section Engine
variable {σ π δ : Type} [Screen σ π]

/-- The actions that list are the window actions. -/
theorem lists_eq (a : EngineAction) : a.lists = a.isWindow := by
  cases a <;> rfl

/-- Actions that do not draw leave the preedit; for an adapter that hides it at a commit, a
commit is one that draws. -/
theorem drawn_of_none {actions : List EngineAction}
    (h : actions.any (EngineAction.drawsOn σ) = false) (shown : Str) :
    drawn (Screen.hides σ) shown actions = shown := by
  induction actions using List.reverseRecOn with
  | nil => rfl
  | append_singleton actions a ih =>
      rw [List.any_append, Bool.or_eq_false_iff] at h
      rw [drawn_append, ih h.1]
      have ha : a.drawsOn σ = false := by simpa using h.2
      cases a with
      | commit text =>
          show (if Screen.hides σ then [] else shown) = shown
          exact if_neg (by simpa [EngineAction.drawsOn] using ha)
      | updatePreedit preedit => cases ha
      | clearPreedit => cases ha
      | _ => rfl

/-- Actions that draw leave nothing of the preedit before. Each action that draws sets the
preedit as a whole, so only the last of them counts. -/
theorem drawn_of_some {actions : List EngineAction} (h : actions.any (EngineAction.drawsOn σ))
    (shown shown' : Str) :
    drawn (Screen.hides σ) shown actions = drawn (Screen.hides σ) shown' actions := by
  induction actions using List.reverseRecOn with
  | nil => cases h
  | append_singleton actions a ih =>
      rw [drawn_append, drawn_append]
      by_cases hactions : actions.any (EngineAction.drawsOn σ)
      · rw [ih hactions]
      have ha : a.drawsOn σ := by simpa [hactions] using h
      cases a with
      | commit text =>
          show (if Screen.hides σ then [] else _) = if Screen.hides σ then [] else _
          have hhides : Screen.hides σ = true := ha
          rw [if_pos hhides, if_pos hhides]
      | updatePreedit preedit => rfl
      | clearPreedit => rfl
      | _ => cases ha

/-- A window action among the actions is there to be the last one. -/
theorem lastWindow_isSome (actions : List EngineAction) :
    actions.any EngineAction.lists = (lastWindow actions).isSome := by
  induction actions using List.reverseRecOn with
  | nil => rfl
  | append_singleton actions a ih =>
      rw [List.any_append, lastWindow_append, ih, List.any_cons, List.any_nil, lists_eq]
      cases a <;> simp [EngineAction.isWindow, lastWindow]

/-- Only a page opens the window, so what the last action asks for is what is shown. -/
theorem popupOf_lastWindow (ready : Bool) (actions : List EngineAction) :
    popupOf σ ready (lastWindow actions) = popupOf σ ready (windowShown actions) := by
  unfold windowShown
  split
  · rename_i h
    rw [h]
  · rename_i h
    cases hlast : lastWindow actions with
    | none => rfl
    | some a =>
        cases a with
        | showCandidates rows focused keys => exact (h rows focused keys hlast).elim
        | _ => rfl

namespace SkkEngine

/-- Every state has a preedit to show, if only an empty one. -/
theorem exists_shown {self : SkkEngine δ} (hself : self.Wf) : ∃ text, self.Shown text := by
  unfold Shown
  split
  · exact ⟨[], rfl⟩
  · obtain ⟨preedit, hbuild, -⟩ := preeditAction_eq hself
    exact ⟨preedit.text, preedit, hbuild, rfl⟩

variable [DictionaryProvider δ] [EucJp] {self self' : SkkEngine δ} {event : KeyEvent}
  {actions : List EngineAction}

/-- The last window action of a key asks for the window of the state, and without one the window
stays the same. The key is not one that strands the window. -/
theorem window_act (hself : self.Wf) (hkey : self.strandsWindow event = false)
    (hstep : Step self event self' actions) :
    if (lastWindow actions).isSome then windowShown actions = self'.window
    else self.window = self'.window := by
  have hopen : windowShown self.window.toList = self.window := by
    cases hwindow : self.window with
    | none => rfl
    | some a =>
        have hpage : self.page = some a := by
          unfold window at hwindow
          split at hwindow
          · cases hwindow
          · exact hwindow
        obtain ⟨rows, keys, rfl⟩ := page_isShow hpage
        rfl
  have hstepped := window_step hself hkey hopen hstep
  rw [windowShown_append, hopen] at hstepped
  cases hlast : lastWindow actions with
  | none => simpa [hlast] using hstepped
  | some a => simpa [hlast] using hstepped

end SkkEngine

end Engine

end Y2Skk
