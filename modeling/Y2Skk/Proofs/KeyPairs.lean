import Y2Skk.Proofs.FailOpen

/-!
# `Y2Skk.Proofs.KeyPairs`: presses and releases as the application sees them

The application gets the keys the adapter hands back. For every keycode these should be
press, release, press, release in turn: a release is forwarded only if the press it ends
was.

## What can go wrong

The adapter has no record of the presses it forwarded. It has `pressed_keys`, the keys
that are physically down, and `repeat_active`, the one consumed key that repeats; a
release of the repeating key is held back, and every other release of a pressed key goes
the way of any event. So a press that is consumed and begins no repeat leaves its key in
`pressed_keys` like a forwarded one, and its release goes to the application, which never
saw a press (`release_unpaired`).

## The result

`forwards_alternate` is the result for the runs that stay clear of that. It is about every
run from a state with no key pressed, over all the events of the adapter, activations and
keymaps included, and its condition is on each step and the steps before it (`Pairs`):

* a press that is heard and consumed begins a repeat;
* a release that is heard has a keysym just when the press it ends had one, since a key
  without a keysym is neither consumed nor forwarded.

## The observer

The application is an observer of one key, `appKey`. A state of the adapter stands for the
key being down when it is pressed and not repeating (`isDown`) and had a symbol at its
press (`hadSymbol`). `KeyView` lists what one step can mean to the application,
`readable_step` finds the case of every step, and `KeyView.observe` has the observer
follow it; the induction over the run is `Run.observed`.
-/

set_option autoImplicit false

namespace Y2Skk.Wayland

open Transition

/-! ### The application -/

/-- The other of the two states. -/
def KeyState.other : KeyState → KeyState
  | .released => .pressed
  | .pressed => .released

/-- The states alternate, and begin with `next`. -/
def Alternates : KeyState → List KeyState → Prop
  | _, [] => True
  | next, state :: states => state = next ∧ Alternates next.other states

/-- The states of a concrete run can be tested. -/
instance decidableAlternates : ∀ (next : KeyState) (states : List KeyState),
    Decidable (Alternates next states)
  | _, [] => .isTrue trivial
  | next, state :: states =>
      let _ := decidableAlternates next.other states
      inferInstanceAs (Decidable (state = next ∧ Alternates next.other states))

/-- What the application gets of one key. -/
def ofKey (keycode : UInt32) : Request → Option KeyState
  | .key event => if event.key = keycode then some event.state else none
  | _ => none

/-- The events of a key that are forwarded to the application. -/
def forwarded (keycode : UInt32) (sent : List Request) : List KeyState :=
  sent.filterMap (ofKey keycode)

/-- A key of the application, down or up: a press takes it down, a release up again. -/
def appKey : Bool → KeyState → Option Bool
  | false, .pressed => some true
  | true, .released => some false
  | _, _ => none

/-- The event that is next for a key. -/
def nextEvent (down : Bool) : KeyState := if down then .released else .pressed

/-- What an observer can follow alternates, beginning with the event that is next for it. The
induction is on the events, with the state of the key generalized. -/
theorem alternates_of_appKey (states : List KeyState) :
    ∀ {down last : Bool}, states.foldlM appKey down = some last →
      Alternates (nextEvent down) states := by
  induction states with
  | nil => intro down last _; trivial
  | cons state states ih =>
      intro down last hread
      cases hmove : appKey down state with
      | none => simp [List.foldlM_cons, hmove] at hread
      | some down' =>
          have hrest : states.foldlM appKey down' = some last := by
            simpa [List.foldlM_cons, hmove] using hread
          have hnext := ih hrest
          -- Only a press of a key that is up and a release of one that is down are moves.
          cases down <;> cases state <;> cases hmove
          · exact ⟨rfl, hnext⟩
          · exact ⟨rfl, hnext⟩

/-- The events of two parts one after the other. -/
theorem forwarded_append (keycode : UInt32) (sent sent' : List Request) :
    forwarded keycode (sent ++ sent') = forwarded keycode sent ++ forwarded keycode sent' :=
  List.filterMap_append

/-- Where no key is handed back, none of this key is. -/
theorem forwarded_eq_nil {sent : List Request} (hsent : ∀ r ∈ sent, r.isKey = false)
    (keycode : UInt32) : forwarded keycode sent = [] := by
  rw [forwarded, List.filterMap_eq_nil_iff]
  intro r hr
  cases r with
  | key event => exact absurd (hsent _ hr) (by simp [Request.isKey])
  | _ => rfl

namespace WaylandState
variable {ξ : Type}

/-! ### What a state stands for -/

/-- The adapter treats the key as one the application holds: it is pressed, and its press is not
the one that repeats. The application does hold it when its press was forwarded. That is so along
the runs of `forwards_alternate`, and fails for a consumed press that began no repeat. -/
def isDown (s : WaylandState ξ) (keycode : UInt32) : Bool :=
  decide (keycode ∈ s.pressedKeys) && !s.isRepeating keycode

/-- Only consumed keys repeat, and the key that does is pressed. -/
structure Settled (s : WaylandState ξ) : Prop where
  consumed : ∀ r, s.repeatActive = some r → r.consumed = true
  pressed : ∀ r, s.repeatActive = some r → r.keycode ∈ s.pressedKeys

/-- Nothing repeats. -/
theorem settled_of_none {s : WaylandState ξ} (hnone : s.repeatActive = none) : s.Settled where
  consumed r hr := by rw [hnone] at hr; cases hr
  pressed r hr := by rw [hnone] at hr; cases hr

/-- Only the repeat and the pressed keys count. -/
theorem Settled.congr {s s' : WaylandState ξ} (hs : s.Settled)
    (hrepeat : s'.repeatActive = s.repeatActive) (hpressed : s'.pressedKeys = s.pressedKeys) :
    s'.Settled where
  consumed r hr := hs.consumed r (hrepeat ▸ hr)
  pressed r hr := hpressed ▸ hs.pressed r (hrepeat ▸ hr)

/-- And so for what is down. -/
theorem isDown_congr {s s' : WaylandState ξ} (hrepeat : s'.repeatActive = s.repeatActive)
    (hpressed : s'.pressedKeys = s.pressedKeys) (keycode : UInt32) :
    s'.isDown keycode = s.isDown keycode := by
  unfold isDown isRepeating
  rw [hrepeat, hpressed]

/-- Without a repeat the keys that are down are the pressed ones. -/
theorem isDown_of_none {s : WaylandState ξ} (hnone : s.repeatActive = none) (keycode : UInt32) :
    s.isDown keycode = decide (keycode ∈ s.pressedKeys) := by
  simp [isDown, isRepeating, hnone]

/-- The key that repeats, by its keycode. -/
theorem isRepeating_eq {s : WaylandState ξ} {r : RepeatActive} (hr : s.repeatActive = some r)
    (keycode : UInt32) : s.isRepeating keycode = decide (r.keycode = keycode) := by
  simp [isRepeating, hr]

/-- The key that repeats is pressed. -/
theorem Settled.mem_of_isRepeating {s : WaylandState ξ} (hs : s.Settled) {keycode : UInt32}
    (hrepeating : s.isRepeating keycode = true) : keycode ∈ s.pressedKeys := by
  cases hr : s.repeatActive with
  | none => simp [isRepeating, hr] at hrepeating
  | some r =>
      have hkey : r.keycode = keycode := by simpa [isRepeating, hr] using hrepeating
      exact hkey ▸ hs.pressed r hr

/-- A settled state stops its repeat in silence, and the application does not notice: the key
that repeats was never pressed for it. -/
theorem Settled.stopAllRepeat {s : WaylandState ξ} (hs : s.Settled) :
    s.stopAllRepeat.2 = [] ∧
      ∀ keycode, decide (keycode ∈ s.stopAllRepeat.1.pressedKeys) = s.isDown keycode := by
  cases hr : s.repeatActive with
  | none => simp [WaylandState.stopAllRepeat, takeRepeat, hr, isDown, isRepeating]
  | some r =>
      -- A consumed key was never handed to the application, so no release is owed.
      refine ⟨by simp [WaylandState.stopAllRepeat, takeRepeat, hr, hs.consumed r hr], ?_⟩
      intro keycode
      have hpressed : s.stopAllRepeat.1.pressedKeys = s.pressedKeys.erase r.keycode := by
        simp [WaylandState.stopAllRepeat, takeRepeat, hr]
      rw [hpressed, isDown, isRepeating_eq hr]
      by_cases hkey : r.keycode = keycode
      · simp [hkey]
      · simp [hkey, Ne.symm hkey]

/-! ### What a step means to the application -/

/-- What a step is to the application's key: nothing, a press or a release of a key that has a
symbol. -/
inductive KeyView (symbol : Prop) (keycode : UInt32) (s s' : WaylandState ξ) :
    List KeyState → Prop
  | still : (symbol → s'.isDown keycode = s.isDown keycode) → KeyView symbol keycode s s' []
  | press : symbol → s.isDown keycode = false → s'.isDown keycode = true →
      KeyView symbol keycode s s' [.pressed]
  | release : symbol → s.isDown keycode = true → s'.isDown keycode = false →
      KeyView symbol keycode s s' [.released]

section Steps
variable {hasSymbol : UInt32 → Prop}

/-- The application reads every key in the step from `s` to `s'` that sends `sent`. -/
def Readable (hasSymbol : UInt32 → Prop) (s s' : WaylandState ξ) (sent : List Request) : Prop :=
  ∀ keycode, KeyView (hasSymbol keycode) keycode s s' (forwarded keycode sent)

/-- A step that hands back no key, and changes nothing for the application. -/
theorem Readable.of_still {s s' : WaylandState ξ} {sent : List Request}
    (hdown : ∀ keycode, s'.isDown keycode = s.isDown keycode)
    (hsent : ∀ r ∈ sent, r.isKey = false) : Readable hasSymbol s s' sent := by
  intro keycode
  rw [forwarded_eq_nil hsent]
  exact .still fun _ => hdown keycode

/-- A step that leaves the pressed keys and the repeat alone. -/
theorem Readable.of_same {s s' : WaylandState ξ} {sent : List Request}
    (hrepeat : s'.repeatActive = s.repeatActive) (hpressed : s'.pressedKeys = s.pressedKeys)
    (hsent : ∀ r ∈ sent, r.isKey = false) : Readable hasSymbol s s' sent :=
  .of_still (isDown_congr hrepeat hpressed) hsent

/-- The key that stops repeating is neither pressed nor down, and was not down before. -/
theorem isDown_stopAllRepeat {s : WaylandState ξ} (hs : s.Settled) (keycode : UInt32) :
    s.stopAllRepeat.1.isDown keycode = s.isDown keycode := by
  rw [isDown_of_none (stopAllRepeat_repeatActive s)]
  exact hs.stopAllRepeat.2 keycode

/-- Stopping the repeat, after requests that hand back no key. -/
theorem Readable.stopAllRepeat {s : WaylandState ξ} (hs : s.Settled) {sent : List Request}
    (hsent : ∀ r ∈ sent, r.isKey = false) :
    Readable hasSymbol s s.stopAllRepeat.1 (sent ++ s.stopAllRepeat.2) := by
  rw [hs.stopAllRepeat.1, List.append_nil]
  exact .of_still (isDown_stopAllRepeat hs) hsent

/-! ### The main loop -/

/-- The grace check stops the repeat or does nothing, so it leaves the state settled. -/
theorem Settled.graceCheck {s : WaylandState ξ} (hs : s.Settled) (now : Nat) :
    (s.graceCheck now).1.Settled := by
  cases hpending : s.pendingStopRelease with
  | none => rwa [WaylandState.graceCheck, hpending]
  | some deadline =>
      rw [WaylandState.graceCheck, hpending]
      dsimp only
      split
      · exact settled_of_none (stopAllRepeat_repeatActive s)
      · exact hs

/-- And the application does not notice. A repeat that is stopped by the deadline sends no
release, since its press was consumed. -/
theorem readable_graceCheck {s : WaylandState ξ} (hs : s.Settled) (now : Nat) :
    Readable hasSymbol s (s.graceCheck now).1 (s.graceCheck now).2 := by
  cases hpending : s.pendingStopRelease with
  | none =>
      rw [graceCheck, hpending]
      exact .of_same rfl rfl (by simp)
  | some deadline =>
      rw [graceCheck, hpending]
      dsimp only
      split
      · have hempty : ∀ r ∈ ([] : List Request), r.isKey = false := by simp
        exact Readable.stopAllRepeat hs hempty
      · exact .of_same rfl rfl (by simp)

/-- A tick is not forwarded, whatever the daemon answers: passing on is for real key events
only. -/
theorem onKey_tick (s : WaylandState ξ) (event : WlKey) (keysym : UInt32) (daemon : Daemon) :
    ∀ r ∈ (s.onKey event keysym false daemon).2, r.isKey = false := by
  cases hactive : s.active with
  | none => simp [onKey, hactive]
  | some active =>
      cases hreply : daemon (rawKey active event keysym) with
      | error e => simp [onKey_error false hactive hreply]
      | ok actions =>
          obtain ⟨sent, hfree, heq⟩ := onKey_ok false hactive hreply
          rw [heq]
          simpa using hfree

/-- The ticks leave the repeat as it is, or stop it. What they send on the way is what the
daemon's answers ask for, and no key event. -/
theorem ticks_cases {s : WaylandState ξ} (hs : s.Settled) (daemons : List Daemon) :
    ∃ sent : List Request, (∀ r ∈ sent, r.isKey = false) ∧
      (s.ticks daemons = (s, sent) ∨
        s.ticks daemons = (s.stopAllRepeat.1, sent ++ s.stopAllRepeat.2)) := by
  -- A tick that is consumed leaves the state as it was, so the state is fixed in the induction.
  induction daemons with
  | nil => exact ⟨[], by simp, .inl rfl⟩
  | cons daemon daemons ih =>
      cases hr : s.repeatActive with
      | none => exact ⟨[], by simp, .inl (by rw [ticks, hr])⟩
      | some r =>
          have hquiet := onKey_tick s ⟨0, 0, r.keycode, .pressed⟩ r.keysym daemon
          simp only [ticks, hr, hs.consumed r hr, if_true]
          cases hconsumed : (s.onKey ⟨0, 0, r.keycode, .pressed⟩ r.keysym false daemon).1 with
          | false => exact ⟨_, hquiet, .inr rfl⟩
          | true =>
              obtain ⟨sent, hsent, hticks⟩ := ih
              refine ⟨(s.onKey ⟨0, 0, r.keycode, .pressed⟩ r.keysym false daemon).2 ++ sent, ?_, ?_⟩
              · intro request hrequest
                rcases List.mem_append.mp hrequest with hfirst | hrest
                · exact hquiet request hfirst
                · exact hsent request hrest
              · rcases hticks with hticks | hticks
                · exact .inl (by rw [hticks, if_pos rfl])
                · exact .inr (by rw [hticks, if_pos rfl, List.append_assoc])

/-- The ticks keep the state settled. -/
theorem Settled.ticks {s : WaylandState ξ} (hs : s.Settled) (daemons : List Daemon) :
    (s.ticks daemons).1.Settled := by
  obtain ⟨sent, _, hticks | hticks⟩ := ticks_cases hs daemons
  · rwa [hticks]
  · rw [hticks]
    exact settled_of_none (stopAllRepeat_repeatActive s)

/-- And the application does not notice them either. -/
theorem readable_ticks {s : WaylandState ξ} (hs : s.Settled) (daemons : List Daemon) :
    Readable hasSymbol s (s.ticks daemons).1 (s.ticks daemons).2 := by
  obtain ⟨sent, hsent, hticks | hticks⟩ := ticks_cases hs daemons
  · rw [hticks]
    exact .of_same rfl rfl hsent
  · rw [hticks]
    exact .stopAllRepeat hs hsent

/-! ### Key events -/

/-- An admitted key was up for a press, or down for a release; then it is the other way around,
and all other keys are as before. -/
theorem Admitted.isDown {s s' : WaylandState ξ} {event : WlKey} {before : List Request}
    (hs : s.Settled) (hadmitted : Admitted s event s' before) :
    s'.Settled ∧ before = [] ∧ s.isDown event.key = decide (event.state = .released) ∧
      ∀ keycode, s'.isDown keycode =
        if keycode = event.key then decide (event.state = .pressed) else s.isDown keycode := by
  cases hadmitted with
  | press hstate hmem =>
      -- What repeats is pressed, so a key that was not pressed does not repeat.
      have hfree : s.isRepeating event.key = false := by
        cases hrepeating : s.isRepeating event.key with
        | false => rfl
        | true => exact absurd (hs.mem_of_isRepeating hrepeating) hmem
      refine ⟨⟨hs.consumed, fun r hr => Finset.mem_insert_of_mem (hs.pressed r hr)⟩, rfl, ?_, ?_⟩
      · simp [WaylandState.isDown, hmem, hstate]
      · intro keycode
        by_cases hkey : keycode = event.key
        · have hfree' : isRepeating { s with pressedKeys := insert event.key s.pressedKeys }
              event.key = false := hfree
          simp [WaylandState.isDown, hkey, hstate, hfree']
        · simp [WaylandState.isDown, isRepeating, hkey]
  | retap hstate hrepeating =>
      -- The repeat ends before the key is pressed again.
      refine ⟨settled_of_none (stopAllRepeat_repeatActive s), hs.stopAllRepeat.1, ?_, ?_⟩
      · simp [WaylandState.isDown, hrepeating, hstate]
      · intro keycode
        have hnone : ({ s.stopAllRepeat.1 with
            pressedKeys := insert event.key s.stopAllRepeat.1.pressedKeys } :
            WaylandState ξ).repeatActive = none := stopAllRepeat_repeatActive s
        rw [isDown_of_none hnone]
        by_cases hkey : keycode = event.key
        · simp [hkey, hstate]
        · rw [if_neg hkey, ← hs.stopAllRepeat.2 keycode]
          simp [hkey]
  | release hstate hrepeating hmem =>
      -- The repeat, if there is one, is of another key and goes on.
      have hne : ∀ r, s.repeatActive = some r → r.keycode ≠ event.key := by
        intro r hr
        simpa [isRepeating_eq hr] using hrepeating
      refine ⟨⟨hs.consumed, fun r hr => Finset.mem_erase.mpr ⟨hne r hr, hs.pressed r hr⟩⟩, rfl,
        ?_, ?_⟩
      · simp [WaylandState.isDown, hmem, hrepeating, hstate]
      · intro keycode
        by_cases hkey : keycode = event.key
        · simp [WaylandState.isDown, hkey, hstate]
        · simp [WaylandState.isDown, isRepeating, hkey]

/-- A key that was not consumed begins no repeat. -/
theorem startRepeat_unconsumed (s : WaylandState ξ) (keycode keysym : UInt32) (fdCloned : Bool) :
    s.startRepeat keycode keysym false fdCloned = s.stopAllRepeat := by
  simp [startRepeat]

/-- A consumed key begins a repeat when there is a rate and the pipe could be duplicated. -/
theorem startRepeat_consumed {s : WaylandState ξ} (hrate : s.repeatRate ≠ 0)
    (keycode keysym : UInt32) :
    s.startRepeat keycode keysym true true =
      ({ s.stopAllRepeat.1 with repeatActive := some ⟨keycode, keysym, true⟩ },
        s.stopAllRepeat.2) := by
  simp [startRepeat, hrate]

/-- Whether or not a repeat begins, a key that is down stays settled. A repeat that does begin
is the key's own, and was consumed. -/
theorem Settled.startRepeat {s : WaylandState ξ} (hs : s.Settled) {keycode : UInt32}
    (hdown : s.isDown keycode = true) (keysym : UInt32) (consumed fdCloned : Bool) :
    (s.startRepeat keycode keysym consumed fdCloned).1.Settled := by
  have hstopped : s.stopAllRepeat.1.Settled := settled_of_none (stopAllRepeat_repeatActive s)
  have hmem : keycode ∈ s.stopAllRepeat.1.pressedKeys := by
    have hpressed := hs.stopAllRepeat.2 keycode
    rw [hdown] at hpressed
    exact of_decide_eq_true hpressed
  cases consumed with
  | false => rwa [startRepeat_unconsumed]
  | true =>
      -- No consumed key, no rate, no timer pipe: each ends with the repeat stopped.
      unfold WaylandState.startRepeat
      dsimp only
      split
      · exact hstopped
      · split
        · exact hstopped
        · split
          · exact hstopped
          · refine ⟨fun r hr => ?_, fun r hr => ?_⟩
            · rw [← Option.some.inj hr]
            · rw [← Option.some.inj hr]
              exact hmem

variable [Xkb ξ]

/-- The handler keeps the state settled, when a press has its key down. Only a press that may
repeat starts or stops a repeat. -/
theorem Settled.handleKey {s : WaylandState ξ} (hs : s.Settled) {event : WlKey}
    (hdown : event.state = .pressed → s.isDown event.key = true) (daemon : Daemon)
    (fdCloned : Bool) : (s.handleKey event daemon fdCloned).1.Settled := by
  rw [handleKey_eq]
  by_cases hrepeats : event.state = .pressed ∧ s.repeatEligible event.key
  · rw [if_pos hrepeats]
    exact hs.startRepeat (hdown hrepeats.1) _ _ _
  · rwa [if_neg hrepeats]

/-- An event that is ignored at most sets the deadline of the repeat. It is a second press of a
key that is down, or a release of one that is not, or of the one that repeats. -/
theorem onKeyEvent_of_discards {s : WaylandState ξ} {event : WlKey}
    (hdiscards : s.discards event = true) (daemon : Daemon) (fdCloned : Bool) (now : Nat) :
    ∃ deadline, s.onKeyEvent event daemon fdCloned now =
      ({ s with pendingStopRelease := deadline }, []) := by
  cases hstate : event.state with
  | pressed =>
      -- The key is down already, and no release of it is pending.
      have hstray : event.key ∈ s.pressedKeys ∧
          (s.isRepeating event.key && s.pendingStopRelease.isSome) = false := by
        simpa only [discards, hstate, Bool.and_eq_true, decide_eq_true_eq, Bool.not_eq_true']
          using hdiscards
      refine ⟨s.pendingStopRelease, ?_⟩
      simp only [onKeyEvent, hstate, keyPressed, hstray.1, hstray.2, not_true_eq_false, if_false,
        Bool.false_eq_true]
  | released =>
      cases hrepeating : s.isRepeating event.key with
      | true =>
          -- The release of the repeating key only starts the grace.
          exact ⟨_, by simp only [onKeyEvent, hstate, keyReleased, hrepeating, if_true]; rfl⟩
      | false =>
          have hstray : event.key ∉ s.pressedKeys := by
            simpa [discards, hstate, hrepeating] using hdiscards
          refine ⟨s.pendingStopRelease, ?_⟩
          simp only [onKeyEvent, hstate, keyReleased, hrepeating, hstray, Bool.false_eq_true,
            if_false, not_false_eq_true, if_true]

/-- So does the whole `Key` handler, for an event that it ignores and for one that it hands
on. -/
theorem Settled.onKeyEvent {s : WaylandState ξ} (hs : s.Settled) (event : WlKey) (daemon : Daemon)
    (fdCloned : Bool) (now : Nat) : (s.onKeyEvent event daemon fdCloned now).1.Settled := by
  cases hdiscards : s.discards event with
  | true =>
      obtain ⟨deadline, heq⟩ := onKeyEvent_of_discards hdiscards daemon fdCloned now
      rw [heq]
      exact hs.congr rfl rfl
  | false =>
      obtain ⟨s', before, hadmitted, heq⟩ := onKeyEvent_of_heard hdiscards daemon fdCloned now
      rw [heq]
      obtain ⟨hsettled, _, _, hdown⟩ := hadmitted.isDown hs
      refine hsettled.handleKey (fun hpress => ?_) daemon fdCloned
      rw [hdown, if_pos rfl, hpress]
      rfl

/-- A press that is consumed begins a repeat, and an event has a keysym just when its key is one
that has a symbol. -/
def Steady (hasSymbol : UInt32 → Prop) (s : WaylandState ξ) : Input ξ → Prop
  | .key event daemon fdCloned _ => s.discards event = false →
      (s.keysym event.key ≠ 0 ↔ hasSymbol event.key) ∧
        (event.state = .pressed →
          (∃ active, s.active = some active ∧ s.Consumed active event daemon) →
            s.repeatEligible event.key = true ∧ s.repeatRate ≠ 0 ∧ fdCloned = true)
  | _ => True

/-- The daemon answers every key, and passes every release on. -/
def PassesReleases : Input ξ → Prop
  | .key _ daemon _ _ => ∀ raw : RawKey, ∃ actions, daemon raw = .ok actions ∧
      (raw.isPress = false → actions = passedOn)
  | _ => True

/-- A key without a keysym is not forwarded, and not consumed. -/
theorem answer_of_no_keysym {s : WaylandState ξ} {event : WlKey} (hsym : s.keysym event.key = 0)
    (daemon : Daemon) : s.answer event daemon = (false, []) := by
  simp [answer, hsym]

/-- A key with a keysym has a context to come from. -/
theorem active_of_keysym {s : WaylandState ξ} {keycode : UInt32} (hsym : s.keysym keycode ≠ 0) :
    ∃ active, s.active = some active := by
  cases hactive : s.active with
  | some active => exact ⟨active, rfl⟩
  | none => exact absurd (by simp [keysym, hactive]) hsym

/-- An answered event is forwarded unless it is consumed, once and under its own keycode. -/
theorem forwarded_answer {s : WaylandState ξ} {active : ActiveContext ξ} {event : WlKey}
    {daemon : Daemon} {actions : List IpcAction} (hactive : s.active = some active)
    (hanswered : s.Answered active event daemon actions) (keycode : UInt32) :
    (s.answer event daemon).1 = consumes actions ∧
      forwarded keycode (s.answer event daemon).2 =
        if !consumes actions && decide (event.key = keycode) then [event.state] else [] := by
  obtain ⟨sent, hfree, heq⟩ := onKey_ok true hactive hanswered.2
  rw [answer, if_pos hanswered.1, heq, forwarded_append, forwarded_eq_nil hfree, List.nil_append,
    Bool.and_true]
  refine ⟨rfl, ?_⟩
  cases consumes actions with
  | true => rfl
  | false =>
      by_cases hkey : event.key = keycode
      · simp [forwarded, ofKey, hkey]
      · simp [forwarded, ofKey, hkey]

/-- A key that is not consumed leaves the application's keys as they are, but for what is
forwarded. -/
theorem handleKey_unconsumed {s : WaylandState ξ} (hs : s.Settled) {event : WlKey}
    {daemon : Daemon} (hanswer : (s.answer event daemon).1 = false) (fdCloned : Bool)
    (keycode : UInt32) :
    (s.handleKey event daemon fdCloned).1.isDown keycode = s.isDown keycode ∧
      forwarded keycode (s.handleKey event daemon fdCloned).2 =
        forwarded keycode (s.answer event daemon).2 := by
  rw [handleKey_eq, hanswer]
  split
  · rw [startRepeat_unconsumed, hs.stopAllRepeat.1, List.append_nil]
    exact ⟨isDown_stopAllRepeat hs keycode, rfl⟩
  · exact ⟨rfl, rfl⟩

/-- A consumed press that begins a repeat takes its key out of the application's sight: it is
not forwarded, and the key is not down for the application. -/
theorem handleKey_consumed {s : WaylandState ξ} (hs : s.Settled) {event : WlKey}
    {daemon : Daemon} (hanswer : (s.answer event daemon).1 = true)
    (hpress : event.state = .pressed) (heligible : s.repeatEligible event.key = true)
    (hrate : s.repeatRate ≠ 0) (keycode : UInt32) :
    (s.handleKey event daemon true).1.isDown keycode =
        (s.isDown keycode && !decide (event.key = keycode)) ∧
      forwarded keycode (s.handleKey event daemon true).2 =
        forwarded keycode (s.answer event daemon).2 := by
  rw [handleKey_eq, hanswer, if_pos ⟨hpress, heligible⟩, startRepeat_consumed hrate,
    hs.stopAllRepeat.1, List.append_nil]
  refine ⟨?_, rfl⟩
  rw [← isDown_stopAllRepeat hs, isDown_of_none (stopAllRepeat_repeatActive s)]
  simp [WaylandState.isDown, isRepeating]

section Admitted
variable {s s' : WaylandState ξ} {event : WlKey} {before : List Request} {daemon : Daemon}

/-- Nothing is forwarded of a key without a keysym, and it is none whose state matters. -/
theorem readable_of_no_keysym (hs : s.Settled) (hadmitted : Admitted s event s' before)
    (hsym : s.keysym event.key ≠ 0 ↔ hasSymbol event.key) (hkeysym : s.keysym event.key = 0)
    (daemon : Daemon) (fdCloned : Bool) :
    Readable hasSymbol s (s'.handleKey event daemon fdCloned).1
      (s'.handleKey event daemon fdCloned).2 := by
  intro keycode
  obtain ⟨hsettled, _, -, hafter⟩ := hadmitted.isDown hs
  have hsame : s'.keysym event.key = s.keysym event.key := keysym_congr hadmitted.active event.key
  have hanswer := answer_of_no_keysym (hsame.trans hkeysym) daemon
  obtain ⟨hdown, hforwarded⟩ := handleKey_unconsumed hsettled (by rw [hanswer]) fdCloned keycode
  rw [hforwarded, hanswer]
  refine .still fun hsymbol => ?_
  have hne : keycode ≠ event.key := fun heq => hsym.mpr (heq ▸ hsymbol) hkeysym
  rw [hdown, hafter, if_neg hne]

variable {active : ActiveContext ξ} {actions : List IpcAction}

/-- A key that is not consumed is forwarded, and goes down or up for the application. -/
theorem readable_unconsumed (hs : s.Settled) (hadmitted : Admitted s event s' before)
    (hsymbol : hasSymbol event.key) (hactive : s'.active = some active)
    (hanswered : s'.Answered active event daemon actions) (hconsumes : consumes actions = false)
    (fdCloned : Bool) :
    Readable hasSymbol s (s'.handleKey event daemon fdCloned).1
      (s'.handleKey event daemon fdCloned).2 := by
  intro keycode
  obtain ⟨hsettled, _, hbefore, hafter⟩ := hadmitted.isDown hs
  obtain ⟨hanswer, hsent⟩ := forwarded_answer hactive hanswered keycode
  rw [hconsumes] at hanswer
  obtain ⟨hdown, hforwarded⟩ := handleKey_unconsumed hsettled hanswer fdCloned keycode
  rw [hforwarded, hsent, hconsumes]
  by_cases hkey : event.key = keycode
  · -- The event's own key: `Admitted.isDown` says where it was and where it is now.
    subst hkey
    rw [hafter, if_pos rfl] at hdown
    cases hstate : event.state with
    | pressed =>
        rw [hstate] at hbefore hdown
        simpa using KeyView.press hsymbol hbefore hdown
    | released =>
        rw [hstate] at hbefore hdown
        simpa using KeyView.release hsymbol hbefore hdown
  · rw [hafter, if_neg (Ne.symm hkey)] at hdown
    simpa [hkey] using KeyView.still fun _ => hdown

/-- A consumed press that begins a repeat is not forwarded, and its key stays up for the
application. -/
theorem readable_consumed (hs : s.Settled) (hadmitted : Admitted s event s' before)
    (hactive : s'.active = some active) (hanswered : s'.Answered active event daemon actions)
    (hconsumes : consumes actions = true) (hpress : event.state = .pressed)
    (heligible : s.repeatEligible event.key = true) (hrate : s.repeatRate ≠ 0) :
    Readable hasSymbol s (s'.handleKey event daemon true).1
      (s'.handleKey event daemon true).2 := by
  intro keycode
  obtain ⟨hsettled, _, hbefore, hafter⟩ := hadmitted.isDown hs
  obtain ⟨hanswer, hsent⟩ := forwarded_answer hactive hanswered keycode
  rw [hconsumes] at hanswer
  obtain ⟨hdown, hforwarded⟩ := handleKey_consumed hsettled hanswer hpress
    ((repeatEligible_congr hadmitted.active _).trans heligible)
    (hadmitted.repeatRate ▸ hrate) keycode
  rw [hforwarded, hsent, hconsumes]
  -- The key was up before the press, and the repeat hides it again.
  refine KeyView.still fun _ => ?_
  rw [hdown, hafter]
  by_cases hkey : event.key = keycode
  · simp [← hkey, hbefore, hpress]
  · simp [hkey, Ne.symm hkey]

end Admitted

/-- The application reads the result of an event that is not ignored. The cases are whether the
key has a keysym, and whether it is consumed. -/
theorem readable_handleKey {s s' : WaylandState ξ} {event : WlKey} {daemon : Daemon}
    {fdCloned : Bool} {before : List Request} (hs : s.Settled)
    (hadmitted : Admitted s event s' before)
    (hsym : s.keysym event.key ≠ 0 ↔ hasSymbol event.key)
    (hrepeats : event.state = .pressed →
      (∃ active, s.active = some active ∧ s.Consumed active event daemon) →
        s.repeatEligible event.key = true ∧ s.repeatRate ≠ 0 ∧ fdCloned = true)
    (hdaemon : ∀ raw : RawKey, ∃ actions, daemon raw = .ok actions ∧
      (raw.isPress = false → actions = passedOn)) :
    Readable hasSymbol s (s'.handleKey event daemon fdCloned).1
      (s'.handleKey event daemon fdCloned).2 := by
  by_cases hkeysym : s.keysym event.key = 0
  · exact readable_of_no_keysym hs hadmitted hsym hkeysym daemon fdCloned
  obtain ⟨active, hactive⟩ := active_of_keysym hkeysym
  obtain ⟨actions, hok, hpassed⟩ := hdaemon (rawKey active event (s.keysym event.key))
  have hactive' : s'.active = some active := hadmitted.active.trans hactive
  have hanswered : s'.Answered active event daemon actions := by
    rw [Answered, keysym_congr hadmitted.active event.key]
    exact ⟨hkeysym, hok⟩
  cases hconsumes : consumes actions with
  | false =>
      exact readable_unconsumed hs hadmitted (hsym.mp hkeysym) hactive' hanswered hconsumes
        fdCloned
  | true =>
      -- A release is passed on, so this is a press.
      have hpress : event.state = .pressed := by
        cases hstate : event.state with
        | pressed => rfl
        | released =>
            rw [hpassed (by simp [rawKey, hstate])] at hconsumes
            exact absurd hconsumes (by decide +kernel)
      have hconsumed : s.Consumed active event daemon := ⟨actions, ⟨hkeysym, hok⟩, hconsumes⟩
      obtain ⟨heligible, hrate, rfl⟩ := hrepeats hpress ⟨active, hactive, hconsumed⟩
      exact readable_consumed hs hadmitted hactive' hanswered hconsumes hpress heligible hrate

/-! ### Steps and runs -/

/-- New modifiers leave the keys alone, or stop the repeat after that, when they changed while a
key was repeating. -/
theorem modifiers_cases (s : WaylandState ξ) (depressed latched locked group : UInt32) :
    ∃ updated : WaylandState ξ, updated.repeatActive = s.repeatActive ∧
      updated.pressedKeys = s.pressedKeys ∧
      (s.modifiers depressed latched locked group = (updated, []) ∨
        s.modifiers depressed latched locked group = updated.stopAllRepeat) := by
  unfold modifiers
  dsimp only
  split
  · refine ⟨_, ?_, ?_, .inr rfl⟩ <;> rfl
  · refine ⟨_, ?_, ?_, .inl rfl⟩ <;> rfl

/-- Every input keeps the state settled: only a consumed key repeats, and it is pressed. The
inputs that set neither the repeat nor the pressed keys are a matter of `congr`, and those that
stop the repeat leave nothing to ask for. -/
theorem Settled.step {s : WaylandState ξ} (hs : s.Settled) (i : Input ξ) :
    (s.step i).1.Settled := by
  cases i with
  | activate => exact hs.congr rfl rfl
  | deactivate => exact settled_of_none (stopAllRepeat_repeatActive s)
  | commitState serial => exact hs.congr rfl rfl
  | reset =>
      cases hactive : s.active with
      | none => rwa [WaylandState.step, hactive]
      | some active => rwa [WaylandState.step, hactive]
  | keymap xkb =>
      cases xkb with
      | none => exact hs
      | some xkb => exact hs.congr rfl rfl
  | key event daemon fdCloned now => exact hs.onKeyEvent event daemon fdCloned now
  | modifiers depressed latched locked group =>
      -- a change of the modifiers may stop the repeat, and then no key repeats
      obtain ⟨updated, hrepeat, hpressed, heq | heq⟩ :=
        modifiers_cases s depressed latched locked group
      · rw [WaylandState.step, heq]
        exact hs.congr hrepeat hpressed
      · rw [WaylandState.step, heq]
        exact settled_of_none (stopAllRepeat_repeatActive updated)
  | repeatInfo rate delay =>
      rw [WaylandState.step]
      split
      · exact hs.congr rfl rfl
      · exact hs
  | seatRepeatInfo rate delay => exact hs.congr rfl rfl
  | graceCheck now => exact hs.graceCheck now
  | ticks daemons => exact hs.ticks daemons

/-- The application reads every step. There is one case for each input of the adapter, and each
has its own lemma on what is sent and which keys are down. -/
theorem readable_step {s : WaylandState ξ} (hs : s.Settled) {i : Input ξ}
    (hsteady : Steady hasSymbol s i) (hdaemon : PassesReleases i) :
    Readable hasSymbol s (s.step i).1 (s.step i).2 := by
  cases i with
  | activate => exact .of_same rfl rfl (by simp [step])
  | deactivate =>
      -- The pressed keys stay, so that a release after the deactivation is paired too.
      rw [step, hs.stopAllRepeat.1]
      exact .of_still (isDown_stopAllRepeat hs) (by simp)
  | commitState serial => exact .of_same rfl rfl (by simp [step])
  | reset =>
      cases hactive : s.active with
      | none =>
          rw [step, hactive]
          exact .of_same rfl rfl (by simp)
      | some active =>
          rw [step, hactive]
          exact .of_same rfl rfl (by simp [Request.isKey])
  | keymap xkb =>
      cases xkb with
      | none => exact .of_same rfl rfl (by simp [step])
      | some xkb => exact .of_same rfl rfl (by simp [step])
  | key event daemon fdCloned now =>
      rw [step]
      cases hdiscards : s.discards event with
      | true =>
          obtain ⟨deadline, heq⟩ := onKeyEvent_of_discards hdiscards daemon fdCloned now
          rw [heq]
          exact .of_same rfl rfl (by simp)
      | false =>
          obtain ⟨s', before, hadmitted, heq⟩ := onKeyEvent_of_heard hdiscards daemon fdCloned now
          rw [heq, (hadmitted.isDown hs).2.1, List.nil_append]
          -- An event that is heard is handled; whether it is consumed decides what becomes of it.
          obtain ⟨hsym, hrepeats⟩ := hsteady hdiscards
          exact readable_handleKey hs hadmitted hsym hrepeats hdaemon
  | modifiers depressed latched locked group =>
      obtain ⟨updated, hrepeat, hpressed, heq | heq⟩ :=
        modifiers_cases s depressed latched locked group
      · rw [step, heq]
        exact .of_same hrepeat hpressed (by simp)
      · have hupdated : updated.Settled := hs.congr hrepeat hpressed
        rw [step, heq, hupdated.stopAllRepeat.1]
        refine .of_still (fun keycode => ?_) (by simp)
        rw [isDown_stopAllRepeat hupdated, isDown_congr hrepeat hpressed]
  | repeatInfo rate delay =>
      rw [step]
      split
      · exact .of_same rfl rfl (by simp)
      · exact .of_same rfl rfl (by simp)
  | seatRepeatInfo rate delay => exact .of_same rfl rfl (by simp [step])
  | graceCheck now => exact readable_graceCheck hs now
  | ticks daemons => exact readable_ticks hs daemons

/-- Every state the adapter reaches is settled. -/
theorem settled_of_run {h : List (Visit (WaylandState ξ) (Input ξ) Request)} {s : WaylandState ξ}
    (hrun : Run (ofFun step) new h s) : s.Settled := by
  refine hrun.invariant Settled (fun _ _ => True) (settled_of_none rfl) ?_ fun _ _ => trivial
  intro s i s' os hs _ hstep
  rw [← show (s.step i).1 = s' from congrArg Prod.fst hstep]
  exact hs.step i

/-! ### The symbol of a press -/

/-- Whether a key has a keysym at its last press that was heard, after one more event. -/
def symbolAfter (s : WaylandState ξ) (keycode : UInt32) (had : Bool) : Input ξ → Bool
  | .key event _ _ _ =>
      if event.key = keycode ∧ event.state = .pressed ∧ s.discards event = false then
        decide (s.keysym keycode ≠ 0)
      else had
  | _ => had

/-- Whether a key had a keysym at its last press in a history that was heard. -/
def hadSymbol (history : List (Visit (WaylandState ξ) (Input ξ) Request)) (keycode : UInt32) :
    Bool :=
  history.foldl (fun had v => v.pre.symbolAfter keycode had v.input) false

/-- One more input. -/
theorem hadSymbol_snoc (history : List (Visit (WaylandState ξ) (Input ξ) Request))
    (v : Visit (WaylandState ξ) (Input ξ) Request) (keycode : UInt32) :
    hadSymbol (history ++ [v]) keycode =
      v.pre.symbolAfter keycode (hadSymbol history keycode) v.input := by
  rw [hadSymbol, List.foldl_append]
  rfl

/-- The condition on a step, after a history. A press that is heard and consumed begins a repeat.
A release that is heard has a keysym just when the press it ends had one. -/
def Pairs (history : List (Visit (WaylandState ξ) (Input ξ) Request))
    (v : Visit (WaylandState ξ) (Input ξ) Request) : Prop :=
  match v.input with
  | .key event daemon fdCloned _ => v.pre.discards event = false →
      match event.state with
      | .pressed => (∃ active, v.pre.active = some active ∧ v.pre.Consumed active event daemon) →
          v.pre.repeatEligible event.key = true ∧ v.pre.repeatRate ≠ 0 ∧ fdCloned = true
      | .released => v.pre.keysym event.key ≠ 0 ↔ hadSymbol history event.key = true
  | _ => True

/-- So the step is steady for the symbols after it: a press sets the symbol of its key, and a
release finds it as it was set. Both sides of `Steady` are about the keymap at that moment,
which `Pairs` compares with the one at the press. -/
theorem Pairs.steady {history : List (Visit (WaylandState ξ) (Input ξ) Request)}
    {v : Visit (WaylandState ξ) (Input ξ) Request} (h : Pairs history v) :
    Steady (fun keycode => hadSymbol (history ++ [v]) keycode = true) v.pre v.input := by
  obtain ⟨s, i, os⟩ := v
  cases i with
  | key event daemon fdCloned now =>
      intro hheard
      have hstep := h hheard
      dsimp only
      rw [hadSymbol_snoc, symbolAfter]
      cases hstate : event.state with
      | pressed =>
          rw [hstate] at hstep
          rw [if_pos ⟨rfl, rfl, hheard⟩]
          exact ⟨by simp, fun _ => hstep⟩
      | released =>
          rw [hstate] at hstep
          rw [if_neg (by rintro ⟨-, hpress, -⟩; cases hpress)]
          exact ⟨hstep, fun hpress => by cases hpress⟩
  | _ => trivial

/-- The symbol of a key changes only when a press of it is heard, and then the application has
the key up. -/
theorem isDown_of_symbolAfter {s : WaylandState ξ} (hs : s.Settled) {keycode : UInt32}
    {had : Bool} {i : Input ξ} (hchange : s.symbolAfter keycode had i ≠ had) :
    s.isDown keycode = false := by
  unfold symbolAfter at hchange
  split at hchange
  · rename_i event daemon fdCloned now
    split at hchange
    · rename_i hpress
      obtain ⟨rfl, hstate, hheard⟩ := hpress
      obtain ⟨s', before, hadmitted, -⟩ := onKeyEvent_of_heard hheard daemon fdCloned now
      rw [(hadmitted.isDown hs).2.2.1, hstate]
      rfl
    · exact absurd rfl hchange
  · exact absurd rfl hchange

omit [Xkb ξ] in
/-- The observer of a key follows every step that the application reads. It holds the key while
the key is down and was pressed with a symbol; a key without one is never handed to it. -/
theorem KeyView.observe {keycode : UInt32} {s s' : WaylandState ξ} {sent : List Request}
    {had had' : Bool} (hview : KeyView (had' = true) keycode s s' (forwarded keycode sent))
    (hchange : had' ≠ had → s.isDown keycode = false) :
    Transition.observe appKey (ofKey keycode) (s.isDown keycode && had) sent =
      some (s'.isDown keycode && had') := by
  show (forwarded keycode sent).foldlM appKey _ = _
  -- Only the list of states matters, which the view has one case for each of.
  generalize forwarded keycode sent = states at hview
  cases hview with
  | still hdown =>
      by_cases hsame : had' = had
      · subst hsame
        cases had' with
        | false => simp
        | true => simp [hdown rfl]
      · have hup := hchange hsame
        cases had' with
        | false => simp [hup]
        | true => simp [hdown rfl, hup]
  | press hsymbol hup hdown => simp [hsymbol, hup, hdown, appKey]
  | release hsymbol hdown hup =>
      -- A key that is down was pressed with the symbol that it has now.
      have hsame : had = true := by
        by_contra hnot
        have hfalse := hchange (by rw [hsymbol]; exact fun h => hnot h.symm)
        rw [hdown] at hfalse
        cases hfalse
      simp [hsame, hup, hdown, appKey]

/-- In every run from a state the adapter reaches with no key pressed, from start-up in
particular: if the daemon answers and passes every release on, and every step meets the
condition, then the events of a key that are forwarded to the application alternate, and begin
with a press. The run may activate and deactivate contexts while keys are held. -/
theorem forwards_alternate {before during : List (Visit (WaylandState ξ) (Input ξ) Request)}
    {s s' : WaylandState ξ} (hbefore : Run (ofFun step) new before s)
    (hup : s.pressedKeys = ∅) (hduring : Run (ofFun step) s during s')
    (hdaemon : ∀ v ∈ during, PassesReleases v.input) (hpairs : EachStep Pairs during)
    (keycode : UInt32) : Alternates .pressed (forwarded keycode (outputs during)) := by
  have hok : EachStep (fun history v => Pairs history v ∧ PassesReleases v.input) during := by
    rintro pre v post rfl
    exact ⟨hpairs pre v post rfl, hdaemon v (List.mem_append_right _ List.mem_cons_self)⟩
  have hobserved := hduring.observed appKey (ofKey keycode)
    (fun history s => s.isDown keycode && hadSymbol history keycode) Settled _
    (settled_of_run hbefore) ?_ hok
  · have hstart : s.isDown keycode = false := by simp [isDown, hup]
    simp only [hstart, Bool.false_and] at hobserved
    exact alternates_of_appKey _ hobserved
  · -- One step: it keeps the state settled, and the observer follows it.
    intro history s i s' os hs hstepOk hstep
    have hstate : (s.step i).1 = s' := congrArg Prod.fst hstep
    have hsent : (s.step i).2 = os := congrArg Prod.snd hstep
    have hview := readable_step hs hstepOk.1.steady hstepOk.2 keycode
    rw [← hstate, ← hsent]
    rw [hsent] at hview
    refine ⟨hs.step i, ?_⟩
    rw [hsent]
    refine hview.observe fun hchange => ?_
    rw [hadSymbol_snoc] at hchange
    exact isDown_of_symbolAfter hs hchange

end Steps

end WaylandState

/-! ### A consumed press that does not repeat -/

/-- A daemon that commits a kana for a press, and passes releases on. -/
def kanaDaemon : Daemon := fun raw =>
  if raw.isPress then .ok [.ofEngine (.commit ['あ'])] else .ok passedOn

/-- The release of the key A. -/
def releaseA : WlKey := ⟨18, 4300, 30, .released⟩

/-- A daemon that has no use for any key. -/
def idleDaemon : Daemon := fun _ => .ok passedOn

/-- The key A is pressed, repeats once and is released. When the grace of the release has elapsed,
the key is typed once more, for the application this time. -/
def repeatingA : List (Input UsLayout) :=
  [.key pressA kanaDaemon true 0, .ticks [kanaDaemon], .key releaseA kanaDaemon true 600,
    .graceCheck 1200, .key pressA idleDaemon true 1300, .key releaseA idleDaemon true 1400]

/-- It answers every key. -/
theorem passesReleases_kanaDaemon (event : WlKey) (fdCloned : Bool) (now : Nat) :
    WaylandState.PassesReleases (.key event kanaDaemon fdCloned now : Input UsLayout) := by
  intro raw
  cases hpress : raw.isPress with
  | true => exact ⟨[.ofEngine (.commit ['あ'])], by simp [kanaDaemon, hpress], by simp⟩
  | false => exact ⟨passedOn, by simp [kanaDaemon, hpress], fun _ => rfl⟩

/-- So does this one. -/
theorem passesReleases_idleDaemon (event : WlKey) (fdCloned : Bool) (now : Nat) :
    WaylandState.PassesReleases (.key event idleDaemon fdCloned now : Input UsLayout) :=
  fun _ => ⟨passedOn, rfl, fun _ => rfl⟩

/-- The application gets the second press of the key and its release. The first press was
consumed, so the application hears neither of it nor of its release, and what is forwarded
begins with a press again. -/
theorem forwards_alternate_repeatingA :
    Alternates .pressed (forwarded 30 (outputs (trace WaylandState.step activated repeatingA).1)) :=
  WaylandState.forwards_alternate (run_trace WaylandState.step .new _) (by decide +kernel)
    (run_trace WaylandState.step activated repeatingA)
    (by
      intro v hv
      simp only [repeatingA, trace, List.mem_cons, List.not_mem_nil, or_false] at hv
      rcases hv with rfl | rfl | rfl | rfl | rfl | rfl
      · exact passesReleases_kanaDaemon _ _ _
      · trivial
      · exact passesReleases_kanaDaemon _ _ _
      · trivial
      · exact passesReleases_idleDaemon _ _ _
      · exact passesReleases_idleDaemon _ _ _)
    (by
      simp only [repeatingA, trace, eachStep_cons]
      refine ⟨fun _ _ => ?_, trivial, fun hheard => ?_, trivial, fun _ _ => ?_, fun _ => ?_,
        eachStep_nil⟩
      · decide +kernel
      · exact absurd hheard (by decide +kernel)
      · decide +kernel
      · exact iff_of_true (by decide +kernel) (by decide +kernel))
    30

example :
    forwarded 30 (outputs (trace WaylandState.step activated repeatingA).1) =
      [.pressed, .released] := by decide +kernel

/-- What happens to a keyboard while one context is active. -/
def Input.isOfKeyboard {ξ : Type} : Input ξ → Bool
  | .key _ _ _ _ | .modifiers _ _ _ _ | .repeatInfo _ _ | .graceCheck _ | .ticks _ => true
  | _ => false

/-- The key A is pressed and released on a keyboard that does not repeat. -/
def typingA : List (Input UsLayout) :=
  [.repeatInfo 0 500, .key pressA kanaDaemon true 0, .key releaseA kanaDaemon true 100]

/-- Without repeats, the application gets the release of a key whose press was consumed. The run
is one activation with a US layout and the rate 0. -/
theorem release_unpaired :
    ¬∀ (before during : List (Visit (WaylandState UsLayout) (Input UsLayout) Request))
      (s s' : WaylandState UsLayout), Run (ofFun WaylandState.step) .new before s →
        Run (ofFun WaylandState.step) s during s' → s.active.isSome = true → s.pressedKeys = ∅ →
        (∀ v ∈ during, v.input.isOfKeyboard = true ∧ WaylandState.PassesReleases v.input) →
        ∀ keycode, Alternates .pressed (forwarded keycode (outputs during)) := by
  intro hall
  have halternates := hall _ _ _ _ (run_trace WaylandState.step .new _)
    (run_trace WaylandState.step activated typingA) (by decide +kernel) (by decide +kernel)
    (by
      intro v hv
      simp only [typingA, trace, List.mem_cons, List.not_mem_nil, or_false] at hv
      rcases hv with rfl | rfl | rfl
      · exact ⟨rfl, trivial⟩
      · exact ⟨rfl, passesReleases_kanaDaemon _ _ _⟩
      · exact ⟨rfl, passesReleases_kanaDaemon _ _ _⟩) 30
  exact absurd halternates (by decide +kernel)

end Y2Skk.Wayland
