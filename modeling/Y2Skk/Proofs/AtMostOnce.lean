import Y2Skk.Ipc.World
import Y2Skk.Lib.Execution
import Y2Skk.Proofs.Isolation

/-!
# `Y2Skk.Proofs.AtMostOnce`: how often a key is applied

`ReconnectingClient.processKey` sends a key a second time when the daemon does not know
its session. `applied_le_one_of_execution` says that the key is applied at most once all
the same, exactly once when the call returns actions of a known session, and not at all in
a cooldown.

## The environment

The theorem is about every execution of the call: between its operations the environment
may put the client and the daemon in any state, and every call to the daemon may get lost
on its way there or on its way back. So it covers other threads that use the same client,
other clients of the same daemon, a daemon that restarts, and a daemon that applies a key
and whose reply never arrives.

## The proof

There is a rule for each program of the client (`Ensures`) over what an operation puts out
(`Emits`). A program keeps the invariant that at most one key was applied so far, and what
is known at its end is its postcondition. The retry is the one place where a second key is
sent, and it is reached only with the answer that carries `ACTION_SESSION_INVALID`. A
daemon that answers so has not applied the key, since no action of an engine is sent under
that kind (`kind_ofEngine`): the retry starts from nothing.

`execution_of_run` connects this to the interleaving of all clients in `Ipc.World`: every
call of a run is such an execution.
-/

set_option autoImplicit false

namespace Y2Skk

open Outcome Concurrent Transition Program

/-- The daemon did not know the session. -/
def invalidates (actions : List IpcAction) : Bool :=
  actions.any fun a => a.kind = actionSessionInvalid

/-- The kinds of the engine's actions are those of `protocol.rs` without the one for an invalid
session, so an answer with that kind was made up by the session manager. -/
theorem kind_ofEngine (action : EngineAction) :
    (IpcAction.ofEngine action).kind ≠ actionSessionInvalid := by
  cases action <;>
    simp [IpcAction.ofEngine, actionPassthrough, actionCommit, actionUpdatePreedit,
      actionClearPreedit, actionShowCandidates, actionHideCandidates, actionUpdateStatus,
      actionSessionInvalid]

namespace SessionManager

variable {δ : Type} {daemon daemon' : SessionManager δ} {id : SessionId} {key : RawKey}
  {actions : List IpcAction}

/-- Nothing that an engine asks for is sent as an invalid session. The actions are converted
from engine actions, and no engine action is converted to `SESSION_INVALID`, so a client takes
it for none. -/
theorem invalidates_ipcActions (actions : List EngineAction) :
    invalidates (daemon.ipcActions actions) = false := by
  unfold invalidates
  rw [List.any_eq_false]
  intro a ha
  unfold ipcActions at ha
  obtain ⟨b, hb, rfl⟩ := List.mem_map.mp ha
  obtain ⟨action, -, rfl⟩ := List.mem_map.mp (List.mem_filter.mp hb).1
  have hkind := kind_ofEngine action
  split <;> simpa using hkind

/-- The daemon answers with an invalid session exactly when it does not know the session. This
is what makes a retry safe: the answer that asks for one tells that no engine has seen the
key. -/
theorem invalidates_processKey [DictionaryProvider δ] [EucJp]
    (h : daemon.processKey id key = .ok (daemon', actions)) :
    invalidates actions = (daemon.sessions.get? id).isNone := by
  unfold processKey at h
  -- The session manager looks the session up first; only then there is an engine.
  cases hget : daemon.sessions.get? id with
  | none =>
      rw [hget] at h
      cases h
      rfl
  | some engine =>
      rw [hget] at h
      cases hstep : { engine with dict := daemon.dict }.processKey (keyEventFromRaw key) with
      | error e => simp [hstep] at h
      | ok r =>
          simp only [hstep] at h
          cases h
          exact invalidates_ipcActions _

end SessionManager

namespace World

variable {δ : Type} [DictionaryProvider δ]

/-- What an operation may put out with its reply: a key is applied at most once, and by a daemon
that answers it exactly when the session is known. A call whose reply got lost may have applied
its key or not. No other operation applies keys. -/
def Emits : (o : Op) → Reply o → List Applied → Prop
  | .processKey _ _ _ _, reply, outs => outs.length ≤ 1 ∧
      ∀ actions, reply = some actions → outs.length = if invalidates actions then 0 else 1
  | _, _, outs => outs = []

/-- The operations of the model put out what `Emits` allows, whatever becomes of the call to the
daemon and whatever state it finds. -/
theorem emits_exec [EucJp] (delivery : Delivery) (w : World δ) (o : Op) :
    Emits o (exec delivery w o).1 (exec delivery w o).2.2 := by
  cases o with
  | createSession c owner appId => unfold exec; split <;> rfl
  | destroySession c ticket => unfold exec; split <;> rfl
  | processKey c handle ticket key =>
      unfold exec
      split
      · exact ⟨Nat.zero_le 1, by simp⟩
      · dsimp only
        have hone : ∀ applied : Applied,
            (if w.knows ticket.id then [applied] else []).length ≤ 1 := by
          intro applied
          split <;> simp
        split
        · rename_i daemon actions hprocess
          refine ⟨hone _, ?_⟩
          intro actions' hreply
          -- A reply that arrives is the one that was sent.
          have hsame : actions = actions' := by
            unfold Delivery.reply at hreply
            split at hreply
            · exact Option.some.inj hreply
            · cases hreply
          subst hsame
          rw [SessionManager.invalidates_processKey hprocess, knows]
          cases w.daemon.sessions.get? ticket.id <;> rfl
        · exact ⟨hone _, by simp⟩
  | _ => rfl

/-! ### The programs -/

section Programs
open ReconnectingClient

variable {α : Type} {outs : List Applied} {self : ClientId} {handle : LocalHandle}

/-- At most one key is applied so far. -/
def AtMostOne (outs : List Applied) : Prop := outs.length ≤ 1

/-- The program applies at most one key in all, and ends as `Q` says. -/
abbrev Delivers (Q : List Applied → α → Prop) (outs : List Applied) (p : Call α) : Prop :=
  p.Ensures Emits AtMostOne Q outs

/-- An operation that applies no key leaves the count as it is, and the program goes on. -/
theorem delivers_run {o : Op} {Q : List Applied → Reply o → Prop} (hinv : AtMostOne outs)
    (hemits : ∀ r os, Emits o r os → os = []) (hQ : ∀ r, Q outs r) : Delivers Q outs o.run := by
  refine ensures_call.mpr ⟨hinv, ?_⟩
  intro r os hos
  rw [hemits r os hos, List.append_nil]
  exact ⟨hinv, hQ r⟩

/-- Two operations: the cooldown begins, and every session id is forgotten. -/
theorem delivers_markFailed {Q : List Applied → Unit → Prop} (hinv : AtMostOne outs)
    (hQ : Q outs ()) : Delivers Q outs (markFailed self) := by
  refine ensures_bind.mpr (delivers_run hinv (fun _ _ h => h) fun _ => ?_)
  exact delivers_run hinv (fun _ _ h => h) fun _ => hQ

/-- The cooldown is over. -/
theorem delivers_markRecovered {Q : List Applied → Unit → Prop} (hinv : AtMostOne outs)
    (hQ : Q outs ()) : Delivers Q outs (markRecovered self) :=
  delivers_run hinv (fun _ _ h => h) fun _ => hQ

/-- Looking up the session of a handle, or creating it, applies no key, however it ends. -/
theorem delivers_ensureDaemonSession {Q : List Applied → Except ProcessKeyError Ticket → Prop}
    (hinv : AtMostOne outs) (hQ : ∀ r, Q outs r) :
    Delivers Q outs (ensureDaemonSession self handle) := by
  unfold ensureDaemonSession
  refine ensures_bind.mpr (delivers_run hinv (fun _ _ h => h) fun entry => ?_)
  cases entry with
  | none => exact ⟨hinv, hQ _⟩
  | some entry =>
      refine ensures_ite.mpr ⟨fun _ => ⟨hinv, hQ _⟩, fun _ => ?_⟩
      refine ensures_bind.mpr (delivers_run hinv (fun _ _ h => h) fun ticket => ?_)
      cases ticket with
      | none => exact ensures_bind.mpr (delivers_markFailed hinv ⟨hinv, hQ _⟩)
      | some ticket =>
          refine ensures_bind.mpr (delivers_run hinv (fun _ _ h => h) fun found => ?_)
          exact ensures_ite.mpr ⟨fun _ => ⟨hinv, hQ _⟩, fun _ => hinv⟩

/-- Creating a session in place of the one the daemon has forgotten applies no key either. -/
theorem delivers_recreateDaemonSession {Q : List Applied → Option Ticket → Prop}
    (hinv : AtMostOne outs) (hQ : ∀ r, Q outs r) :
    Delivers Q outs (recreateDaemonSession self handle) := by
  unfold recreateDaemonSession
  refine ensures_bind.mpr (delivers_run hinv (fun _ _ h => h) fun entry => ?_)
  cases entry with
  | none => exact ⟨hinv, hQ _⟩
  | some entry =>
      refine ensures_bind.mpr (delivers_run hinv (fun _ _ h => h) fun ticket => ?_)
      cases ticket with
      | none => exact ⟨hinv, hQ _⟩
      | some ticket =>
          exact ensures_bind.mpr (delivers_run hinv (fun _ _ h => h) fun _ => ⟨hinv, hQ _⟩)

/-- A key is sent while none has been applied. The two premises are the two ways on: without a
reply the key may have been applied or not, and with a reply the answer tells which. -/
theorem delivers_callProcessKey {Q : List Applied → Option (List IpcAction) → Prop}
    {ticket : Ticket} {key : RawKey}
    (hnone : ∀ outs, AtMostOne outs → Q outs none)
    (hsome : ∀ outs actions, AtMostOne outs →
      outs.length = (if invalidates actions then 0 else 1) → Q outs (some actions)) :
    Delivers Q [] (callProcessKey self handle ticket key) := by
  refine ensures_call.mpr ⟨Nat.zero_le 1, ?_⟩
  rintro r os ⟨hle, hlength⟩
  rw [List.nil_append]
  refine ⟨hle, ?_⟩
  cases r with
  | none => exact hnone os hle
  | some actions => exact hsome os actions hle (hlength actions rfl)

/-- A call that returned actions of a known session has applied its key. -/
def AppliedOnce (outs : List Applied) (result : Except ProcessKeyError (List IpcAction)) : Prop :=
  ∀ actions, result = .ok actions → invalidates actions = false → outs.length = 1

/-- An error promises nothing about the key. -/
theorem appliedOnce_error (outs : List Applied) (e : ProcessKeyError) :
    AppliedOnce outs (.error e) := by
  intro actions h
  cases h

/-- Actions come with the count that the daemon's answer tells. -/
theorem appliedOnce_ok {outs : List Applied} {actions : List IpcAction}
    (h : outs.length = if invalidates actions then 0 else 1) : AppliedOnce outs (.ok actions) := by
  intro actions' heq hvalid
  cases heq
  rw [h, hvalid]
  rfl

/-- The whole call: it looks for a session, sends the key, and sends it once more to a new
session when the first answer was that of an unknown one. -/
theorem delivers_processKey (key : RawKey) :
    Delivers AppliedOnce [] (processKey self handle key) := by
  have hinv : AtMostOne [] := Nat.zero_le 1
  -- How the call ends when the daemon cannot be reached, and when it answers: both are needed for
  -- the first attempt and for the retry.
  have hfailed : ∀ outs, AtMostOne outs → Delivers AppliedOnce outs (do
      markFailed self
      pure (.error .unavailable)) := by
    intro outs hinv
    exact ensures_bind.mpr (delivers_markFailed hinv ⟨hinv, appliedOnce_error _ _⟩)
  have hrecovered : ∀ outs actions, AtMostOne outs →
      outs.length = (if invalidates actions then 0 else 1) → Delivers AppliedOnce outs (do
        markRecovered self
        pure (.ok actions)) := by
    intro outs actions hinv hlength
    exact ensures_bind.mpr (delivers_markRecovered hinv ⟨hinv, appliedOnce_ok hlength⟩)
  unfold processKey
  refine ensures_bind.mpr (delivers_run hinv (fun _ _ h => h) fun cooldown => ?_)
  refine ensures_ite.mpr ⟨fun _ => ⟨hinv, appliedOnce_error _ _⟩, fun _ => ?_⟩
  refine ensures_bind.mpr (delivers_ensureDaemonSession hinv fun ticket => ?_)
  cases ticket with
  | error e => exact ⟨hinv, appliedOnce_error _ _⟩
  | ok ticket =>
      refine ensures_bind.mpr (delivers_callProcessKey hfailed ?_)
      intro outs actions hinv' hlength
      refine ensures_ite.mpr ⟨fun hinvalid => ?_, fun _ => hrecovered _ _ hinv' hlength⟩
      -- The daemon has not applied the key, so the retry starts from nothing.
      have hnil : outs = [] := by
        rw [show invalidates actions = true from hinvalid] at hlength
        exact List.eq_nil_of_length_eq_zero hlength
      subst hnil
      refine ensures_bind.mpr (delivers_recreateDaemonSession hinv fun ticket => ?_)
      cases ticket with
      | none => exact hfailed [] hinv
      | some ticket => exact ensures_bind.mpr (delivers_callProcessKey hfailed hrecovered)

end Programs

/-! ### Executions -/

variable [EucJp] {self : ClientId} {handle : LocalHandle} {key : RawKey}
  {es : List (Performed Op (World δ) Delivery)}

/-- In a cooldown the call ends at once: no operation on the daemon is performed, no key is
delivered, and the answer is an error. -/
theorem execution_of_inCooldown {e : Performed Op (World δ) Delivery}
    {rest : Call (Except ProcessKeyError (List IpcAction))}
    (h : Execution exec (ReconnectingClient.processKey self handle key) (e :: es) rest)
    (hcooldown : (e.state.clients self).inCooldown e.state.now = true) :
    emitted exec (e :: es) = [] ∧ rest = pure (.error .unavailable) := by
  -- The program starts by asking for the cooldown.
  obtain ⟨he, hnext⟩ := execution_perform (o := Op.inCooldown self) h
  have hreply : (exec e.choice e.state (Op.inCooldown self)).1 = true := hcooldown
  rw [hreply] at hnext
  obtain ⟨rfl, hrest⟩ := execution_pure (a := Except.error ProcessKeyError.unavailable) hnext
  refine ⟨?_, hrest⟩
  rw [he]
  rfl

/-- However the environment interferes, a call to `process_key` applies its key at most once;
exactly once if it returns actions of a known session; and never in a cooldown, where it returns
an error at once. The execution may also be one that has not ended yet: then `rest` is what is
left of the call, and the bound holds already. -/
theorem applied_le_one_of_execution {rest : Call (Except ProcessKeyError (List IpcAction))}
    (h : Execution exec (ReconnectingClient.processKey self handle key) es rest) :
    (emitted exec es).length ≤ 1 ∧
    (∀ actions, rest.result? = some (.ok actions) → invalidates actions = false →
      (emitted exec es).length = 1) ∧
    (∀ e ∈ es.head?, (e.state.clients self).inCooldown e.state.now = true →
      emitted exec es = [] ∧ rest.result? = some (.error .unavailable)) := by
  have hensures := h.ensures emits_exec (delivers_processKey key)
  refine ⟨hensures.inv, fun actions hresult => hensures.result hresult actions rfl, ?_⟩
  -- The rules above say nothing about the cooldown, which is the first thing the call asks for.
  intro e he hcooldown
  cases es with
  | nil => cases he
  | cons e' es =>
      obtain rfl : e' = e := Option.some.inj he
      obtain ⟨hnone, rfl⟩ := execution_of_inCooldown h hcooldown
      exact ⟨hnone, rfl⟩

/-- Every call to `process_key` of a run of the clients and the daemon is such an execution:
what the other threads do between its operations is the interference of the environment. -/
theorem execution_of_run {settings : Settings δ}
    {history : List (Visit (Pool Op Reply (World δ)) (Input Request Delivery (Event δ)) Applied)}
    {pool : Pool Op Reply (World δ)} (hrun : machine.Interleaving (start settings) history pool)
    {thread : Nat} (hrequest : (requests history)[thread]? = some (.processKey self handle key)) :
    ∃ rest, Execution exec (ReconnectingClient.processKey self handle key)
      (performedBy thread history) rest := by
  obtain ⟨p, -, hexec⟩ := (Interleaving.execution hrun).2 thread _ hrequest
  rcases execution_bind hexec with ⟨rest, hrest, -⟩ | ⟨es, es', result, heq, hes, hes'⟩
  · exact ⟨rest, hrest⟩
  · -- The call has returned, and its thread does nothing more.
    obtain ⟨rfl, -⟩ := execution_pure hes'
    rw [heq, List.append_nil]
    exact ⟨_, hes⟩

/-! ### A retry -/

/-- A client whose handle 1 has a session that the daemon has forgotten, as after a restart of
the daemon. -/
def staleWorld : World Empty :=
  (start plainSettings).edit 0 fun s => { s with sessions := s.sessions.insert 1 ⟨[], ⟨1, 0⟩⟩ }

/-- The key `a`. -/
def keyA : RawKey := ⟨0x61, 0, true⟩

omit [EucJp] in
/-- A key for a stale session is sent twice and applied once. The operations of the call are
listed: the first `process_key` finds no session, the second one goes to the session that was
created in between. -/
theorem applied_le_one_of_execution_stale :
    letI := EucJp.empty
    ∃ es rest, Execution (@exec Empty _ _) (ReconnectingClient.processKey 0 1 keyA) es rest ∧
      es.map Performed.op = [.inCooldown 0, .getEntry 0 1, .processKey 0 1 ⟨1, 0⟩ keyA,
        .getEntry 0 1, .createSession 0 (some 1) [], .setSession 0 1 ⟨1, 0⟩,
        .processKey 0 1 ⟨1, 0⟩ keyA, .markRecovered 0] ∧
      rest.result? = some (.ok ([.commit ['あ'], .clearPreedit].map IpcAction.ofEngine)) ∧
      (emitted exec es).length = 1 := by
  let _ := EucJp.empty
  have hexec : Execution (@exec Empty _ _) (ReconnectingClient.processKey 0 1 keyA) _ _ :=
    execution_alone (List.replicate 8 Delivery.replied) staleWorld _
  have hresult : (alone (@exec Empty _ _) (List.replicate 8 Delivery.replied) staleWorld
      (ReconnectingClient.processKey 0 1 keyA)).2.result? =
        some (.ok ([.commit ['あ'], .clearPreedit].map IpcAction.ofEngine)) := by
    rfl
  exact ⟨_, _, hexec, rfl, hresult, (applied_le_one_of_execution hexec).2.1 _ hresult rfl⟩

end World

end Y2Skk
