import Y2Skk.Ipc.Message

/-!
# `Y2Skk.Ipc.Dispatch`: what an adapter does with the actions

Every adapter hands the actions of a key to `dispatch`, with a sink of its own. The result
says whether the key was consumed; a key that was not, or that is forced through, goes to
the application.

The adapters differ in their sinks, and in nothing else that is decided here:
`dispatch_result` says that the result does not depend on the sink. It is therefore a
function of the actions alone, and for the actions of an engine `dispatch_ofEngine`
computes it. A key is consumed by any action that does something, and forced through by
any that asks to pass it on; both can happen for one key, as when a candidate is committed
by a key that the application is to get too. A key with no action at all is neither, and
so goes to the application.

A kind that the adapter does not know is skipped, as the source does for a daemon that is
newer than the adapter.
-/

set_option autoImplicit false

namespace Y2Skk

open Utf8 (Str)

/-- Receiver of IME actions, one for each platform. -/
class ActionSink (σ : Type) where
  commit : σ → Str → σ
  /-- `none` is no ghost preview. -/
  updatePreedit : σ → Str → UInt32 → Option UInt32 → σ
  clearPreedit : σ → σ
  /-- The rows, the focused one, and a selection key for each row. -/
  showCandidates : σ → List IpcCandidate → UInt32 → Str → σ
  hideCandidates : σ → σ
  /-- The indicator, and how long it is shown in milliseconds (0: persistent). -/
  updateStatus : σ → Str → UInt32 → σ

/-- What became of a key: whether some action consumed it, and whether it is passed on
nevertheless. -/
structure DispatchResult where
  /-- Some action consumed the key. -/
  consumed : Bool
  /-- The key goes to the application even when it was consumed. -/
  forcePassthrough : Bool
  deriving DecidableEq, Repr

section Dispatch
variable {σ : Type} [ActionSink σ]

/-- One round of the loop of `dispatch`: the action goes to the sink, and the result notes that
something was consumed or that the key is to be passed on. -/
def dispatchStep (acc : DispatchResult × σ) (action : IpcAction) : DispatchResult × σ :=
  let (result, sink) := acc
  let consumed := { result with consumed := true }
  -- Passing a key on can accompany a commit.
  if action.kind = actionPassthrough then ({ result with forcePassthrough := true }, sink)
  else if action.kind = actionCommit then (consumed, ActionSink.commit sink action.text)
  else if action.kind = actionUpdatePreedit then
    let ghost := if action.ghostStart ≠ noGhost then some action.ghostStart else none
    (consumed, ActionSink.updatePreedit sink action.text action.cursor ghost)
  else if action.kind = actionClearPreedit then (consumed, ActionSink.clearPreedit sink)
  else if action.kind = actionShowCandidates then
    (consumed, ActionSink.showCandidates sink action.candidates action.focused action.text)
  else if action.kind = actionHideCandidates then (consumed, ActionSink.hideCandidates sink)
  -- A mode switch must not reach the application.
  else if action.kind = actionUpdateStatus then
    (consumed, ActionSink.updateStatus sink action.text action.cursor)
  else (result, sink)

/-- `dispatch`: hands the actions to the sink, in order. -/
def dispatch (actions : List IpcAction) (sink : σ) : DispatchResult × σ :=
  actions.foldl dispatchStep (⟨false, false⟩, sink)

end Dispatch

section Dispatch
variable {σ τ : Type} [ActionSink σ] [ActionSink τ]

/-- One round treats the result alike for every sink. -/
theorem dispatchStep_result (result : DispatchResult) (sink : σ) (sink' : τ) (action : IpcAction) :
    (dispatchStep (result, sink) action).1 = (dispatchStep (result, sink') action).1 := by
  unfold dispatchStep
  dsimp only
  repeat' split
  all_goals rfl

/-- The result does not depend on the sink, so the adapters agree on which keys they take. -/
theorem dispatch_result (actions : List IpcAction) (sink : σ) (sink' : τ) :
    (dispatch actions sink).1 = (dispatch actions sink').1 := by
  have hloop : ∀ (actions : List IpcAction) (acc : DispatchResult × σ)
      (acc' : DispatchResult × τ), acc.1 = acc'.1 →
      (actions.foldl dispatchStep acc).1 = (actions.foldl dispatchStep acc').1 := by
    intro actions
    induction actions with
    | nil => intro acc acc' hacc; exact hacc
    | cons action actions ih =>
        intro acc acc' hacc
        refine ih _ _ ?_
        have hstep := dispatchStep_result acc.1 acc.2 acc'.2 action
        rwa [show (acc.1, acc'.2) = acc' by rw [hacc]] at hstep
  exact hloop actions _ _ rfl

end Dispatch

/-- The engine asks to pass the key on. -/
def EngineAction.asks : EngineAction → Bool
  | .passthrough | .deleteBack => true
  | _ => false

section Dispatch
variable {σ : Type} [ActionSink σ]

/-- One round for an action of the engine: it consumes the key or asks to pass it on, and never
both. -/
theorem dispatchStep_ofEngine (acc : DispatchResult × σ) (a : EngineAction) :
    (dispatchStep acc (.ofEngine a)).1 =
      ⟨acc.1.consumed || !a.asks, acc.1.forcePassthrough || a.asks⟩ := by
  cases a <;> simp [dispatchStep, IpcAction.ofEngine, EngineAction.asks, actionPassthrough,
    actionCommit, actionUpdatePreedit, actionClearPreedit, actionShowCandidates,
    actionHideCandidates, actionUpdateStatus]

/-- A key is consumed by any action that does not ask to pass it on, and forced through by any
that does. -/
theorem dispatch_ofEngine (actions : List EngineAction) (sink : σ) :
    (dispatch (actions.map IpcAction.ofEngine) sink).1 =
      ⟨actions.any fun a => !a.asks, actions.any EngineAction.asks⟩ := by
  have hloop : ∀ (actions : List EngineAction) (acc : DispatchResult × σ),
      ((actions.map IpcAction.ofEngine).foldl dispatchStep acc).1 =
        ⟨acc.1.consumed || actions.any fun a => !a.asks,
          acc.1.forcePassthrough || actions.any EngineAction.asks⟩ := by
    intro actions
    induction actions with
    | nil => intro acc; simp
    | cons a actions ih =>
        intro acc
        rw [List.map_cons, List.foldl_cons, ih, dispatchStep_ofEngine]
        simp [Bool.or_assoc]
  exact (hloop actions _).trans (by simp)

end Dispatch

end Y2Skk
