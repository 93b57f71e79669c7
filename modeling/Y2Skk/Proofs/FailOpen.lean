import Y2Skk.Ipc.Wayland
import Y2Skk.Lib.Run

/-!
# `Y2Skk.Proofs.FailOpen`: no key is lost in the Wayland adapter

A key the adapter does not ignore is consumed by the input method, or handed back to the
application. `keyAccounted_iff` says when that is so: when the key has a keysym and the
daemon answers. A key without a keysym never reaches the daemon, and of a failed call the
adapter only takes a note, where `ProcessKeyError` asks to treat the key as a passthrough;
both times the application never hears of the key.

## What is counted

The keyboard is grabbed, so `context.key` is the only way of a key to the application.
`KeyAccounted` counts the requests that hand back this very event: one with its serial,
its time and its state. Releases that the adapter makes up when it stops a repeat are
requests of the same kind, but none of them is the press that is handled
(`stopAllRepeat_count`).

## The proof

`Admitted` lists the ways an event passes the filter of the `Key` handler, and with
`onKey_ok` and `handleKey_eq` it says what the handler sends. The daemon's actions reach
the application through the sink of the adapter, which sends no keys (`keyFree_dispatch`):
a key is handed back by the handler or not at all.
-/

set_option autoImplicit false

namespace Y2Skk.Wayland

/-! ### The sink -/

/-- The request hands a key to the application. -/
def Request.isKey : Request → Bool
  | .key _ => true
  | _ => false

namespace ContextSink

/-- Nothing that was sent hands a key to the application. -/
def KeyFree (self : ContextSink) : Prop := ∀ r ∈ self.sent, r.isKey = false

/-- More requests that are no keys. -/
theorem KeyFree.send {self : ContextSink} (hself : self.KeyFree) {requests : List Request}
    (hrequests : ∀ r ∈ requests, r.isKey = false) : (self.send requests).KeyFree := by
  intro r hr
  rcases List.mem_append.mp hr with hold | hnew
  · exact hself r hold
  · exact hrequests r hnew

/-- One action of the daemon sends no key. Passing a key on is decided behind the loop, from the
result of all actions. -/
theorem keyFree_dispatchStep {acc : DispatchResult × ContextSink} (hacc : acc.2.KeyFree)
    (action : IpcAction) : (dispatchStep acc action).2.KeyFree := by
  unfold dispatchStep
  dsimp only
  -- Every branch leaves the sink alone or sends requests that are no keys.
  repeat' split
  all_goals first
    | exact hacc
    | exact hacc.send (by simp [Request.isKey])

/-- The actions of the daemon send no key, by the step lemma over the list of them. -/
theorem keyFree_dispatch (actions : List IpcAction) (serial : UInt32) :
    (dispatch actions (⟨serial, []⟩ : ContextSink)).2.KeyFree := by
  have hloop : ∀ (actions : List IpcAction) (acc : DispatchResult × ContextSink),
      acc.2.KeyFree → (actions.foldl dispatchStep acc).2.KeyFree := by
    intro actions
    induction actions with
    | nil => intro acc hacc; exact hacc
    | cons action actions ih =>
        intro acc hacc
        exact ih _ (keyFree_dispatchStep hacc action)
  exact hloop actions _ (by simp [KeyFree])

end ContextSink

/-- What `dispatch` reports of the actions. -/
def verdict (actions : List IpcAction) : DispatchResult :=
  (dispatch actions (⟨0, []⟩ : ContextSink)).1

/-- The actions consume the key: some action does, and none forces it through. -/
def consumes (actions : List IpcAction) : Bool :=
  (verdict actions).consumed && !(verdict actions).forcePassthrough

namespace WaylandState
variable {ξ : Type}

/-! ### Asking the daemon -/

/-- What the daemon is asked about a key. -/
def rawKey (active : ActiveContext ξ) (event : WlKey) (keysym : UInt32) : RawKey :=
  ⟨keysym, active.skkMods, event.state = .pressed⟩

/-- What is sent when the daemon answers: a key is handed back unless the actions consume it. -/
theorem onKey_ok {s : WaylandState ξ} {active : ActiveContext ξ} {event : WlKey}
    {keysym : UInt32} {daemon : Daemon} {actions : List IpcAction} (forward : Bool)
    (hactive : s.active = some active) (hok : daemon (rawKey active event keysym) = .ok actions) :
    ∃ sent : List Request, (∀ r ∈ sent, r.isKey = false) ∧
      s.onKey event keysym forward daemon =
        (consumes actions, sent ++ if !consumes actions && forward then [.key event] else []) := by
  -- The verdict does not depend on the serial that the sink carries.
  have hresult : (dispatch actions (⟨active.serial, []⟩ : ContextSink)).1 = verdict actions :=
    dispatch_result actions _ _
  refine ⟨(dispatch actions (⟨active.serial, []⟩ : ContextSink)).2.sent,
    ContextSink.keyFree_dispatch actions active.serial, ?_⟩
  have hask : daemon ⟨keysym, active.skkMods, event.state = .pressed⟩ = .ok actions := hok
  have hconsumes : ((verdict actions).consumed && !(verdict actions).forcePassthrough) =
      consumes actions := rfl
  simp only [onKey, hactive, hask, hresult, hconsumes]
  cases hforwards : (!consumes actions && forward) with
  | true => rw [if_pos rfl, if_pos rfl]
  | false => simp

/-- Without an answer nothing is sent, and the key counts as not consumed. -/
theorem onKey_error {s : WaylandState ξ} {active : ActiveContext ξ} {event : WlKey}
    {keysym : UInt32} {daemon : Daemon} {e : ProcessKeyError} (forward : Bool)
    (hactive : s.active = some active)
    (herror : daemon (rawKey active event keysym) = .error e) :
    s.onKey event keysym forward daemon = (false, []) := by
  have hask : daemon ⟨keysym, active.skkMods, event.state = .pressed⟩ = .error e := herror
  simp only [onKey, hactive, hask]

/-! ### Stopping a repeat -/

/-- Stopping a repeat sends releases only, and only for a key whose press the application has
seen. -/
theorem released_of_mem_stopAllRepeat {s : WaylandState ξ} {r : Request}
    (hr : r ∈ s.stopAllRepeat.2) : ∃ event : WlKey, r = .key event ∧ event.state = .released := by
  cases hrepeat : s.repeatActive with
  | none => simp [stopAllRepeat, takeRepeat, hrepeat] at hr
  | some old =>
      cases hconsumed : old.consumed with
      | true => simp [stopAllRepeat, takeRepeat, hrepeat, hconsumed] at hr
      | false =>
          -- The application saw the press, and gets the release if a context is active.
          cases hactive : s.active with
          | none =>
              simp [stopAllRepeat, takeRepeat, hrepeat, hconsumed, sendKeyReleaseToApp,
                hactive] at hr
          | some active =>
              simp only [stopAllRepeat, takeRepeat, hrepeat, hconsumed, sendKeyReleaseToApp,
                hactive, Bool.false_eq_true, if_false, List.mem_singleton] at hr
              exact ⟨_, hr, rfl⟩

/-- The press that is handled is none of the releases. -/
theorem stopAllRepeat_count {s : WaylandState ξ} {event : WlKey} (hpress : event.state = .pressed) :
    s.stopAllRepeat.2.count (.key event) = 0 := by
  rw [List.count_eq_zero]
  intro hmem
  obtain ⟨released, heq, hreleased⟩ := released_of_mem_stopAllRepeat hmem
  rw [← Request.key.inj heq, hpress] at hreleased
  cases hreleased

/-- The context stays. -/
@[simp] theorem stopAllRepeat_active (s : WaylandState ξ) :
    s.stopAllRepeat.1.active = s.active := by
  cases hrepeat : s.repeatActive with
  | none => simp [stopAllRepeat, takeRepeat, hrepeat]
  | some old => simp [stopAllRepeat, takeRepeat, hrepeat]

/-- So does the rate. -/
@[simp] theorem stopAllRepeat_repeatRate (s : WaylandState ξ) :
    s.stopAllRepeat.1.repeatRate = s.repeatRate := by
  cases hrepeat : s.repeatActive with
  | none => simp [stopAllRepeat, takeRepeat, hrepeat]
  | some old => simp [stopAllRepeat, takeRepeat, hrepeat]

/-- Nothing repeats any more. -/
@[simp] theorem stopAllRepeat_repeatActive (s : WaylandState ξ) :
    s.stopAllRepeat.1.repeatActive = none := by
  cases hrepeat : s.repeatActive with
  | none => simp [stopAllRepeat, takeRepeat, hrepeat]
  | some old => simp [stopAllRepeat, takeRepeat, hrepeat]

/-- A new repeat sends what stopping the old one does. -/
theorem startRepeat_sent (s : WaylandState ξ) (keycode keysym : UInt32) (consumed fdCloned : Bool) :
    (s.startRepeat keycode keysym consumed fdCloned).2 = s.stopAllRepeat.2 := by
  unfold startRepeat
  dsimp only
  repeat' split
  all_goals rfl

/-! ### The filter of the `Key` handler -/

/-- The event is ignored: a stray one, or a release whose effect is deferred. -/
def discards (s : WaylandState ξ) (event : WlKey) : Bool :=
  match event.state with
  | .pressed =>
      decide (event.key ∈ s.pressedKeys) &&
        !(s.isRepeating event.key && s.pendingStopRelease.isSome)
  | .released => s.isRepeating event.key || decide (event.key ∉ s.pressedKeys)

/-- How an event passes: the state it is handled in, and what was sent by then. -/
inductive Admitted (s : WaylandState ξ) (event : WlKey) : WaylandState ξ → List Request → Prop
  | press : event.state = .pressed → event.key ∉ s.pressedKeys →
      Admitted s event { s with pressedKeys := insert event.key s.pressedKeys } []
  /-- Tapped again within the grace of its release. -/
  | retap : event.state = .pressed → s.isRepeating event.key = true →
      Admitted s event
        { s.stopAllRepeat.1 with
          pressedKeys := insert event.key s.stopAllRepeat.1.pressedKeys } s.stopAllRepeat.2
  | release : event.state = .released → s.isRepeating event.key = false →
      event.key ∈ s.pressedKeys →
      Admitted s event { s with pressedKeys := s.pressedKeys.erase event.key } []

namespace Admitted

variable {s s' : WaylandState ξ} {event : WlKey} {before : List Request}

/-- The filter leaves the context alone. -/
theorem active (hadmitted : Admitted s event s' before) : s'.active = s.active := by
  cases hadmitted with
  | press => rfl
  | retap => exact stopAllRepeat_active s
  | release => rfl

/-- And the rate. -/
theorem repeatRate (hadmitted : Admitted s event s' before) : s'.repeatRate = s.repeatRate := by
  cases hadmitted with
  | press => rfl
  | retap => exact stopAllRepeat_repeatRate s
  | release => rfl

/-- What was sent by then does not hand back the event. -/
theorem count (hadmitted : Admitted s event s' before) : before.count (.key event) = 0 := by
  cases hadmitted with
  | press => rfl
  | retap hpress => exact stopAllRepeat_count hpress
  | release => rfl

end Admitted

variable [Xkb ξ]

/-- An event that is not ignored is admitted and handled. What was sent before is what stopping
an old repeat sends. -/
theorem onKeyEvent_of_heard {s : WaylandState ξ} {event : WlKey} (hheard : s.discards event = false)
    (daemon : Daemon) (fdCloned : Bool) (now : Nat) :
    ∃ s' before, Admitted s event s' before ∧
      s.onKeyEvent event daemon fdCloned now =
        ((s'.handleKey event daemon fdCloned).1,
          before ++ (s'.handleKey event daemon fdCloned).2) := by
  cases hstate : event.state with
  | pressed =>
      by_cases hmem : event.key ∈ s.pressedKeys
      · -- A key that is down passes only as a new tap in the grace of its release.
        have hretap : (s.isRepeating event.key && s.pendingStopRelease.isSome) = true := by
          simpa [discards, hstate, hmem] using hheard
        refine ⟨_, _, .retap hstate (Bool.and_eq_true_iff.mp hretap).1, ?_⟩
        simp only [onKeyEvent, hstate, keyPressed, hmem, not_true_eq_false, if_false, hretap,
          if_true]
      · refine ⟨_, _, .press hstate hmem, ?_⟩
        simp only [onKeyEvent, hstate, keyPressed, hmem, not_false_eq_true, if_true,
          List.nil_append]
  | released =>
      have hfree : s.isRepeating event.key = false ∧ event.key ∈ s.pressedKeys := by
        simpa [discards, hstate] using hheard
      refine ⟨_, _, .release hstate hfree.1 hfree.2, ?_⟩
      simp only [onKeyEvent, hstate, keyReleased, hfree.1, hfree.2, Bool.false_eq_true, if_false,
        not_true_eq_false, List.nil_append]

/-- The keysym is read from the active context. -/
theorem keysym_congr {s s' : WaylandState ξ} (hactive : s'.active = s.active) (keycode : UInt32) :
    s'.keysym keycode = s.keysym keycode := by
  unfold keysym
  rw [hactive]

/-- Whether a key repeats is a matter of the active context too. -/
theorem repeatEligible_congr {s s' : WaylandState ξ} (hactive : s'.active = s.active)
    (keycode : UInt32) : s'.repeatEligible keycode = s.repeatEligible keycode := by
  unfold repeatEligible
  rw [keysym_congr hactive, hactive]

/-- The answer to an event: whether it was consumed, and what was sent. -/
def answer (s : WaylandState ξ) (event : WlKey) (daemon : Daemon) : Bool × List Request :=
  if s.keysym event.key ≠ 0 then s.onKey event (s.keysym event.key) true daemon else (false, [])

/-- The handler answers, and a press may begin a repeat. The old repeat is stopped behind the
answer. -/
theorem handleKey_eq (s : WaylandState ξ) (event : WlKey) (daemon : Daemon) (fdCloned : Bool) :
    s.handleKey event daemon fdCloned =
      if event.state = .pressed ∧ s.repeatEligible event.key then
        ((s.startRepeat event.key (s.keysym event.key) (s.answer event daemon).1 fdCloned).1,
          (s.answer event daemon).2 ++ s.stopAllRepeat.2)
      else (s, (s.answer event daemon).2) := by
  rw [← startRepeat_sent s event.key (s.keysym event.key) (s.answer event daemon).1 fdCloned]
  rfl

/-- What is sent after the answer does not hand back the event. -/
theorem handleKey_count (s : WaylandState ξ) (event : WlKey) (daemon : Daemon) (fdCloned : Bool) :
    (s.handleKey event daemon fdCloned).2.count (.key event) =
      (s.answer event daemon).2.count (.key event) := by
  rw [handleKey_eq]
  by_cases hrepeats : event.state = .pressed ∧ s.repeatEligible event.key
  · rw [if_pos hrepeats, List.count_append, stopAllRepeat_count hrepeats.1, Nat.add_zero]
  · rw [if_neg hrepeats]

/-- The answer depends on the context alone. -/
theorem answer_congr {s s' : WaylandState ξ} (hactive : s'.active = s.active) (event : WlKey)
    (daemon : Daemon) : s'.answer event daemon = s.answer event daemon := by
  unfold answer onKey
  rw [keysym_congr hactive, hactive]

/-- An event that is not ignored is handed back as often as the answer to it does. -/
theorem onKeyEvent_count {s : WaylandState ξ} {event : WlKey} (hheard : s.discards event = false)
    (daemon : Daemon) (fdCloned : Bool) (now : Nat) :
    (s.onKeyEvent event daemon fdCloned now).2.count (.key event) =
      (s.answer event daemon).2.count (.key event) := by
  obtain ⟨s', before, hadmitted, heq⟩ := onKeyEvent_of_heard hheard daemon fdCloned now
  rw [heq, List.count_append, hadmitted.count, Nat.zero_add, handleKey_count,
    answer_congr hadmitted.active]

/-! ### No key is lost -/

/-- The daemon is asked about the event and answers. -/
def Answered (s : WaylandState ξ) (active : ActiveContext ξ) (event : WlKey) (daemon : Daemon)
    (actions : List IpcAction) : Prop :=
  s.keysym event.key ≠ 0 ∧ daemon (rawKey active event (s.keysym event.key)) = .ok actions

/-- The input method consumes the key: `dispatch` reports so, and does not force it through. -/
def Consumed (s : WaylandState ξ) (active : ActiveContext ξ) (event : WlKey) (daemon : Daemon) :
    Prop :=
  ∃ actions, s.Answered active event daemon actions ∧ consumes actions = true

/-- The event is consumed, or `context.key` hands it back once, as it came. -/
def KeyAccounted (s : WaylandState ξ) (active : ActiveContext ξ) (event : WlKey) (daemon : Daemon)
    (fdCloned : Bool) (now : Nat) : Prop :=
  s.Consumed active event daemon ∨
    (s.onKeyEvent event daemon fdCloned now).2.count (.key event) = 1

/-- An answered key is handed back once, unless it is consumed: the actions send no key, so only
the end of the call can. -/
theorem answer_count_of_answered {s : WaylandState ξ} {active : ActiveContext ξ} {event : WlKey}
    {daemon : Daemon} {actions : List IpcAction} (hactive : s.active = some active)
    (hanswered : s.Answered active event daemon actions) :
    (s.answer event daemon).2.count (.key event) = if consumes actions then 0 else 1 := by
  obtain ⟨sent, hfree, heq⟩ := onKey_ok true hactive hanswered.2
  have hsent : sent.count (.key event) = 0 := by
    rw [List.count_eq_zero]
    intro hmem
    exact absurd (hfree _ hmem) (by simp [Request.isKey])
  rw [answer, if_pos hanswered.1, heq, List.count_append, hsent]
  cases consumes actions with
  | true => simp
  | false => simp

/-- A key the daemon did not answer for is swallowed, whether the call failed or the key has no
keysym. -/
theorem answer_of_not_answered {s : WaylandState ξ} {active : ActiveContext ξ} {event : WlKey}
    {daemon : Daemon} (hactive : s.active = some active)
    (hnone : ∀ actions, ¬s.Answered active event daemon actions) :
    s.answer event daemon = (false, []) := by
  by_cases hsym : s.keysym event.key ≠ 0
  · rw [answer, if_pos hsym]
    cases hreply : daemon (rawKey active event (s.keysym event.key)) with
    | error e => exact onKey_error true hactive hreply
    | ok actions => exact absurd ⟨hsym, hreply⟩ (hnone actions)
  · rw [answer, if_neg hsym]

/-- With an active input context, a key event that is not ignored is consumed or handed back
just when it has a keysym and the daemon answers. The condition is on the state, the event and
the daemon at that moment. -/
theorem keyAccounted_iff {s : WaylandState ξ} {active : ActiveContext ξ} {event : WlKey}
    (daemon : Daemon) (fdCloned : Bool) (now : Nat) (hactive : s.active = some active)
    (hheard : s.discards event = false) :
    s.KeyAccounted active event daemon fdCloned now ↔
      s.keysym event.key ≠ 0 ∧
        ∃ actions, daemon (rawKey active event (s.keysym event.key)) = .ok actions := by
  have hcount := onKeyEvent_count hheard daemon fdCloned now
  constructor
  · intro haccounted
    by_contra hnone
    -- Without an answer nothing is sent, so the event cannot have been handed back.
    have hswallowed : s.answer event daemon = (false, []) :=
      answer_of_not_answered hactive fun actions h => hnone ⟨h.1, actions, h.2⟩
    rcases haccounted with ⟨actions, hanswered, _⟩ | hhanded
    · exact hnone ⟨hanswered.1, actions, hanswered.2⟩
    · rw [hcount, hswallowed] at hhanded
      cases hhanded
  · rintro ⟨hsym, actions, hok⟩
    have hanswered : s.Answered active event daemon actions := ⟨hsym, hok⟩
    cases hconsumes : consumes actions with
    | true => exact .inl ⟨actions, hanswered, hconsumes⟩
    | false =>
        refine .inr ?_
        rw [hcount, answer_count_of_answered hactive hanswered, hconsumes]
        rfl

end WaylandState

/-! ### A daemon that is gone -/

/-- The key A of a US keyboard, whose evdev keycode is 30; no other key has a symbol. -/
inductive UsLayout where
  | plain
  | shifted
  deriving DecidableEq

/-- The keymap of this keyboard. Shift, latched or held, selects the second level. -/
instance : Xkb UsLayout where
  keyGetOneSym
    | .plain, keycode => if keycode = 38 then 0x61 else 0
    | .shifted, keycode => if keycode = 38 then 0x41 else 0
  keyRepeats _ keycode := keycode = 38
  updateMask _ depressed latched _ _ :=
    if (depressed ||| latched) &&& 0x01 ≠ 0 then .shifted else .plain

/-- An input context has become active, and the keymap has arrived. -/
def activated : WaylandState UsLayout :=
  (Transition.trace WaylandState.step .new [.activate, .keymap (some ⟨.plain⟩)]).2

/-- Its input context. -/
def activeContext : ActiveContext UsLayout := { xkbState := some ⟨.plain⟩ }

/-- A press of that key. -/
def pressA : WlKey := ⟨17, 4200, 30, .pressed⟩

/-- What the daemon answers to a key it has no use for. -/
def passedOn : List IpcAction := [.ofEngine .passthrough]

/-- A key that the daemon passes on is handed back. -/
theorem keyAccounted_iff_passedOn :
    activated.KeyAccounted activeContext pressA (fun _ => .ok passedOn) true 0 :=
  (WaylandState.keyAccounted_iff (fun _ => .ok passedOn) true 0 (by decide +kernel)
    (by decide +kernel)).mpr ⟨by decide +kernel, passedOn, rfl⟩

/-- A key that is pressed while the daemon is gone is lost: it is neither passed on nor
answered. -/
theorem key_lost :
    ¬∀ (s : WaylandState UsLayout) (active : ActiveContext UsLayout) (event : WlKey)
      (daemon : Daemon) (fdCloned : Bool) (now : Nat), s.active = some active →
        s.discards event = false → s.KeyAccounted active event daemon fdCloned now := by
  intro hall
  have haccounted := hall activated activeContext pressA (fun _ => .error .unavailable) true 0
    (by decide +kernel) (by decide +kernel)
  rcases haccounted with ⟨actions, ⟨_, hanswer⟩, _⟩ | hhanded
  · cases hanswer
  · exact absurd hhanded (by decide +kernel)

end Y2Skk.Wayland
