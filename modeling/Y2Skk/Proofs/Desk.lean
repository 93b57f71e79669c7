import Y2Skk.Proofs.Reload
import Y2Skk.Proofs.View

/-!
# `Y2Skk.Proofs.Desk`: every context shows its own engine

`Agrees` relates a screen to the engine of the session that owns it. Two such relations
hold in every run of a desk:

* `Shows`: the preedit on a screen is the one of the engine that drew it last;
* `Lists`: so is the window of candidates, unless the toolkit has closed it.

`Agrees.answered` carries a relation through a key of one session: the other sessions keep
their screens, and share no more than the dictionaries, on which neither depends.
`shows_of_run` and `lists_of_run` are the run lemmas. `owned_of_run` names the owner where
each context has a screen of its own.

## The adapters

Everything here is about any adapter that is an `InputContext` with its laws
(`LawfulInputContext`): the two GTK modules, the Qt plugin and the XIM server are
instances, and their modules only add what is special about them, such as the popover of
GTK 4 or the cap of the Qt window. An adapter has a screen for each context, or one that
all contexts share.

## The conditions

A run is `Clear` when nothing gets lost, no key spoils a preedit and no key strands a
window.

* A call that is not answered ends the session of the context, and the next key is served
  by a new one, while the screen is as the old one left it. `GetsThrough` asks for
  answers.
* A key that drops romaji silently, or leaves raw mode over the bare prompt of a registration,
  leaves a preedit that is not the engine's. `Proofs.Redrawn` says which keys these are.
* A toggle key, or `C-g` in a registration inside a registration, may leave a listing with its
  window open. `Proofs.Window` says which.

## The proof

`key_cases` is the inversion lemma of a key: it leaves the desk as it is, or one engine
takes it and its answer is drawn. Every invariant has a lemma for a key, one for the other
inputs, and one for a run.
-/

set_option autoImplicit false

namespace Y2Skk

open Outcome Transition
open Utf8 (Str byteLen)

namespace Desk

section Steps
variable {σ π κ ε δ : Type} [InputContext σ π κ ε] [DictionaryProvider δ]

/-! ### Invariants -/

/-- The engines are well-formed, and no adapter has panicked. -/
structure Sound (d : Desk σ δ) : Prop where
  inStep : d.daemon.InStep
  alive : ∀ screen, ∃ v, Screen.view (d.screens screen) = some v

/-- A screen and the engine of the session that owns it are related by `R`: the session is one
that draws on this screen, it has an engine, and the screen can be viewed. -/
def Agrees (d : Desk σ δ) (owner : SessionId → Option SessionId)
    (R : SessionId → SkkEngine δ → View π → Prop) : Prop :=
  ∀ screen id, owner screen = some id → screenOf σ id = screen ∧
    ∃ engine v, d.engine? id = some engine ∧ Screen.view (d.screens screen) = some v ∧
      R screen engine v

/-- The preedit of a screen is the one of the engine that drew it last. -/
def Shows (d : Desk σ δ) : Prop := d.Agrees d.drawnBy fun _ engine v => engine.Shown v.preedit

/-- The window of candidates of a screen is the one of the engine that drew it last, unless the
toolkit has closed it. -/
def Lists (d : Desk σ δ) : Prop := d.Agrees d.listedBy fun screen engine v =>
  v.popup = if d.closed screen then none else popupOf σ true engine.window

/-- A context with a screen of its own is the one that drew it. -/
def Owned (d : Desk σ δ) : Prop :=
  InputContext.shared σ = false → ∀ id, (d.daemon.sessions.get? id).isSome →
    d.drawnBy id = some id ∧ d.listedBy id = some id

/-! ### Conditions on an input -/

/-- The input is a key that the engine of its session gets, and the engine and the key event
satisfy `p`. -/
def onKey (p : SkkEngine δ → KeyEvent → Bool) (d : Desk σ δ) : DeskInput κ ε → Bool
  | .key id k _ =>
    match d.engine? id, InputContext.rawKey σ k with
    | some engine, some raw => p engine (keyEventFromRaw raw)
    | _, _ => false
  | _ => false

variable [EucJp]

/-- A new session gets an id that is not in use, every call to the daemon is answered, and the
texts of the answers get through to the toolkit. After a call that is not answered a context has
a new engine, while its screen is as the old one left it. -/
def GetsThrough (d : Desk σ δ) : DeskInput κ ε → Prop
  | .openContext _ => d.daemon.sessions.get? d.daemon.nextId = none
  | .key id k delivery => delivery = .replied ∧ ∀ a ∈ d.answer id k, a.Carried σ
  | _ => True

/-- The condition can be tested on a concrete run. -/
instance (d : Desk σ δ) (input : DeskInput κ ε) : Decidable (d.GetsThrough input) := by
  unfold GetsThrough
  split <;> infer_instance

/-! ### What a key does to a desk -/

/-- A key leaves a desk as it is, or one engine takes it and its answer is drawn. -/
inductive KeyTurn (d : Desk σ δ) (id : SessionId) (k : κ) (d' : Desk σ δ) : Prop
  | quiet : d'.daemon = d.daemon → d'.screens = d.screens →
      d'.drawnBy = d.drawnBy → d'.listedBy = d.listedBy → d'.closed = d.closed → KeyTurn d id k d'
  | answered {engine engine' : SkkEngine δ} {raw : RawKey} {actions : List EngineAction}
      {v : View π} : d.engine? id = some engine → InputContext.rawKey σ k = some raw →
      SkkEngine.Step engine (keyEventFromRaw raw) engine' actions →
      d'.daemon = { d.daemon with
        sessions := d.daemon.sessions.insert id engine', dict := engine'.dict } →
      Screen.view (d.screens (screenOf σ id)) = some v →
      Screen.view (d'.screens (screenOf σ id)) = some (actions.foldl (View.see σ) v) →
      d'.screens = Function.update d.screens (screenOf σ id) (InputContext.finish k
        (dispatch (d.daemon.ipcActions actions) (d.screens (screenOf σ id)))).2 →
      d'.drawnBy = (if actions.any (EngineAction.drawsOn σ) then
        Function.update d.drawnBy (screenOf σ id) (some id) else d.drawnBy) →
      d'.listedBy = (if actions.any EngineAction.lists then
        Function.update d.listedBy (screenOf σ id) (some id) else d.listedBy) →
      d'.closed = (if actions.any EngineAction.lists then
        Function.update d.closed (screenOf σ id) !v.ready else d.closed) → KeyTurn d id k d'

variable {d : Desk σ δ} [LawfulInputContext σ]

omit [InputContext σ π κ ε] [LawfulInputContext σ] in
/-- A call that is answered is served by the session itself. -/
theorem serve_replied {daemon served : SessionManager δ} {id : SessionId} {raw : RawKey}
    {actions : List IpcAction} (hkey : daemon.processKey id raw = .ok (served, actions)) :
    serve daemon id .replied raw = (served, .ok actions) := by
  rw [serve, if_neg (by simp), hkey]
  rfl

/-- Every key that gets through is one of the two turns. A key without a keysym is not asked
about; an engine does not fail on any other, and the law of the adapter says what it draws. -/
theorem key_cases (hsound : d.Sound) {id : SessionId} (hid : (d.daemon.sessions.get? id).isSome)
    {k : κ} {delivery : Delivery} (hthrough : d.GetsThrough (.key id k delivery)) :
    KeyTurn d id k (d.key id k delivery).1 := by
  obtain ⟨old, hold⟩ := Option.isSome_iff_exists.mp hid
  obtain ⟨rfl, hcarried⟩ := hthrough
  have hengine : d.engine? id = some { old with dict := d.daemon.dict } := by
    rw [engine?, hold]
    rfl
  have hself : SkkEngine.Wf { old with dict := d.daemon.dict } :=
    ((hsound.inStep id old hold).setDict d.daemon.dict).wf
  -- without a keysym the adapter does not ask; with one the daemon finds the session and its
  -- engine
  cases hraw : InputContext.rawKey σ k with
  | none =>
      have hanswer : d.answer id k = [] := by
        unfold answer
        rw [hengine, hraw]
      refine .quiet ?_ ?_ ?_ ?_ ?_
      · simp only [key, hraw]
      · simp only [key, LawfulInputContext.filterKey_eq, hraw, Function.update_eq_self]
      · simp [key, hanswer]
      · simp [key, hanswer]
      · simp [key, hanswer]
  | some raw =>
      obtain ⟨⟨engine', actions⟩, hstep, -, hpreedits⟩ :=
        SkkEngine.processKey_wf hself (keyEventFromRaw raw)
      obtain ⟨v, hview⟩ := hsound.alive (screenOf σ id)
      have hanswer : d.answer id k = actions := by
        unfold answer
        rw [hengine, hraw]
        dsimp only
        rw [hstep]
      have hserve : serve d.daemon id .replied raw = ({ d.daemon with
          sessions := d.daemon.sessions.insert id engine', dict := engine'.dict },
          .ok (d.daemon.ipcActions actions)) := by
        refine serve_replied ?_
        unfold SessionManager.processKey
        rw [hold]
        dsimp only
        rw [hstep]
        rfl
      -- what an engine sends has its offsets on character boundaries, so no adapter fails on it
      have hsent : ∀ a ∈ actions, a.Sound σ := by
        intro a ha
        refine ⟨hcarried a (by rw [hanswer]; exact ha), ?_⟩
        rintro preedit rfl
        exact hpreedits preedit ha
      have hdrawn : Screen.view (dispatch (d.daemon.ipcActions actions)
          (d.screens (screenOf σ id))).2 = some (actions.foldl (View.see σ) v) :=
        view_dispatch actions hview hsent
      have hfinished := LawfulInputContext.view_finish k
        (dispatch (d.daemon.ipcActions actions) (d.screens (screenOf σ id))).1 hdrawn
      refine .answered hengine hraw hstep ?_ hview ?_ ?_ ?_ ?_ ?_
      · simp only [key, hraw, hserve]
      · simp only [key, LawfulInputContext.filterKey_eq, hraw, hserve, Function.update_self]
        exact hfinished
      · simp only [key, LawfulInputContext.filterKey_eq, hraw, hserve]
      · simp only [key, hanswer, if_true]
      · simp only [key, hanswer, if_true]
      · simp only [key, hanswer, if_true, hview, Option.map_some, Option.getD_some]

omit [LawfulInputContext σ] [EucJp] [InputContext σ π κ ε] [DictionaryProvider δ] in
/-- After a key the other engines are as they were, up to the dictionaries, which all sessions
share. -/
theorem engine?_answered {d' : Desk σ δ} {id : SessionId} {engine' : SkkEngine δ}
    (hdaemon : d'.daemon = { d.daemon with
      sessions := d.daemon.sessions.insert id engine', dict := engine'.dict }) (id' : SessionId) :
    d'.engine? id' = if id' = id then some engine'
      else (d.engine? id').map fun engine => { engine with dict := engine'.dict } := by
  unfold engine?
  rw [hdaemon]
  dsimp only
  rw [OrdMap.get?_insert]
  split
  · rfl
  · cases d.daemon.sessions.get? id' <;> rfl

/-! ### The invariants are kept -/

/-- A key keeps the engines well-formed, and no adapter panics on an answer. The engine of the
key is stepped in the dictionaries that are current, the others only see these change. The
screen of the key has drawn the answer, and the other screens are untouched. -/
theorem Sound.key (h : d.Sound) {id : SessionId} (hid : (d.daemon.sessions.get? id).isSome)
    {k : κ} {delivery : Delivery} (hthrough : d.GetsThrough (.key id k delivery)) :
    (d.key id k delivery).1.Sound := by
  cases key_cases h hid hthrough with
  | quiet hdaemon hscreens _ _ _ =>
      refine ⟨?_, fun screen => ?_⟩
      · rw [hdaemon]
        exact h.inStep
      · rw [hscreens]
        exact h.alive screen
  | answered hengine _ hstep hdaemon _ hdrawn hscreens _ _ _ =>
      refine ⟨?_, fun screen => ?_⟩
      · rw [hdaemon]
        obtain ⟨old, hold, rfl⟩ := Option.map_eq_some_iff.mp hengine
        intro id' other hother
        show SessionManager.RunsOn d.daemon.settings other
        dsimp only at hother
        rw [OrdMap.get?_insert] at hother
        split at hother
        · cases hother
          exact ((h.inStep id old hold).setDict d.daemon.dict).processKey hstep
        · exact h.inStep id' other hother
      · -- the screen that has drawn has a view; the others keep theirs
        by_cases hscreen : screen = screenOf σ id
        · subst hscreen
          exact ⟨_, hdrawn⟩
        · rw [hscreens, Function.update_of_ne hscreen]
          exact h.alive screen

section Agrees
variable {d' : Desk σ δ} {owner owner' : SessionId → Option SessionId}
  {R R' : SessionId → SkkEngine δ → View π → Prop}

omit [LawfulInputContext σ] [EucJp] [DictionaryProvider δ] in
/-- A key of one session keeps the relation on every screen: `hown` and `hsame` are about the
session, `hkeep` about another one that owns the same screen, `hrest` about the other screens. -/
theorem Agrees.answered (h : d.Agrees owner R) {id : SessionId} {engine engine' : SkkEngine δ}
    {v v' : View π} {touched : Bool} (hengine : d.engine? id = some engine)
    (hdaemon : d'.daemon = { d.daemon with
      sessions := d.daemon.sessions.insert id engine', dict := engine'.dict })
    (hbefore : Screen.view (d.screens (screenOf σ id)) = some v)
    (hdrawn : Screen.view (d'.screens (screenOf σ id)) = some v')
    {s : σ} (hscreens : d'.screens = Function.update d.screens (screenOf σ id) s)
    (howner : owner' =
      if touched then Function.update owner (screenOf σ id) (some id) else owner)
    (hown : touched → R' (screenOf σ id) engine' v')
    (hsame : touched = false → R (screenOf σ id) engine v → R' (screenOf σ id) engine' v')
    (hkeep : touched = false → ∀ other dict, R (screenOf σ id) other v →
      R' (screenOf σ id) { other with dict := dict } v')
    (hrest : ∀ screen other dict w, screen ≠ screenOf σ id → R screen other w →
      R' screen { other with dict := dict } w) : d'.Agrees owner' R' := by
  intro screen id' hid'
  rw [howner] at hid'
  rw [engine?_answered hdaemon]
  by_cases hscreen : screen = screenOf σ id
  · subst hscreen
    rw [hdrawn]
    cases htouched : touched with
    | true =>
        rw [htouched, if_pos rfl, Function.update_self] at hid'
        cases hid'
        exact ⟨rfl, engine', v', if_pos rfl, rfl, hown htouched⟩
    -- nothing was drawn: the owner is the one before, which may be the session of the key or
    -- another one that shares the screen
    | false =>
        rw [htouched, if_neg (by simp)] at hid'
        obtain ⟨hscreenOf, other, w, hother, hw, hR⟩ := h _ _ hid'
        rw [hbefore] at hw
        cases hw
        by_cases heq : id' = id
        · subst heq
          rw [hengine] at hother
          cases hother
          exact ⟨rfl, engine', v', if_pos rfl, rfl, hsame htouched hR⟩
        · rw [if_neg heq, hother]
          exact ⟨hscreenOf, _, v', rfl, rfl, hkeep htouched other _ hR⟩
  · have hid : owner screen = some id' := by
      cases htouched : touched with
      | true =>
          rwa [htouched, if_pos rfl, Function.update_of_ne hscreen] at hid'
      | false => rwa [htouched, if_neg (by simp)] at hid'
    obtain ⟨hscreenOf, other, w, hother, hw, hR⟩ := h _ _ hid
    have hne : id' ≠ id := by
      rintro rfl
      exact hscreen hscreenOf.symm
    rw [hscreens, Function.update_of_ne hscreen, if_neg hne, hother, hw]
    exact ⟨hscreenOf, _, w, rfl, rfl, hrest screen other _ w hscreen hR⟩

omit [DictionaryProvider δ] [EucJp] [LawfulInputContext σ] in
/-- Nothing that the relation speaks of has changed. -/
theorem Agrees.quiet (h : d.Agrees owner R) (hdaemon : d'.daemon = d.daemon)
    (hscreens : d'.screens = d.screens) : d'.Agrees owner R := by
  intro screen id hid
  rw [engine?, hdaemon, hscreens]
  exact h screen id hid

end Agrees

omit [LawfulInputContext σ] [EucJp] [DictionaryProvider δ] in
/-- The engine of a session is well-formed. -/
theorem engine_wf (hsound : d.Sound) {id : SessionId} {engine : SkkEngine δ}
    (hengine : d.engine? id = some engine) : engine.Wf := by
  obtain ⟨old, hold, rfl⟩ := Option.map_eq_some_iff.mp hengine
  exact ((hsound.inStep id old hold).setDict d.daemon.dict).wf

section Key
variable {id : SessionId} {k : κ} {delivery : Delivery}

/-- A key keeps the preedits right: the answer shows the new state on the screen of its own
context, and the other engines display what they did. -/
theorem Shows.key (h : d.Shows) (hsound : d.Sound) (hid : (d.daemon.sessions.get? id).isSome)
    (hthrough : d.GetsThrough (.key id k delivery))
    (hspoils : d.onKey SkkEngine.spoilsPreedit (.key id k delivery) = false) :
    (d.key id k delivery).1.Shows := by
  cases key_cases hsound hid hthrough with
  | quiet hdaemon hscreens hdrawnBy _ _ =>
      unfold Shows
      rw [hdrawnBy]
      exact Agrees.quiet h hdaemon hscreens
  | @answered engine engine' raw actions v hengine hraw hstep hdaemon hbefore hdrawn hscreens
        hdrawnBy _ _ =>
      have hself := engine_wf hsound hengine
      have hkeeps : engine.spoilsPreedit (keyEventFromRaw raw) = false := by
        simpa [onKey, hengine, hraw] using hspoils
      have hstepped : ∀ text, engine.Shown text →
          engine'.Shown (drawn (Screen.hides σ) text actions) := fun text htext =>
        SkkEngine.shown_step hself hkeeps htext hstep (Screen.hides σ)
      refine Agrees.answered h hengine hdaemon hbefore hdrawn hscreens hdrawnBy ?_ ?_ ?_ ?_
      · -- Nothing is left of what was there before.
        intro hdraws
        obtain ⟨text, htext⟩ := SkkEngine.exists_shown hself
        rw [View.preedit_foldl, drawn_of_some hdraws v.preedit text]
        exact hstepped text htext
      · intro _ hshown
        rw [View.preedit_foldl]
        exact hstepped v.preedit hshown
      · intro hquiet other dict hshown
        rw [View.preedit_foldl, drawn_of_none hquiet]
        exact hshown
      · exact fun screen other dict w _ hshown => hshown

/-- A key keeps the windows of candidates right: the window of its screen is that of the engine
that answered, and the others do not change. -/
theorem Lists.key (h : d.Lists) (hsound : d.Sound) (hid : (d.daemon.sessions.get? id).isSome)
    (hthrough : d.GetsThrough (.key id k delivery))
    (hstrands : d.onKey SkkEngine.strandsWindow (.key id k delivery) = false) :
    (d.key id k delivery).1.Lists := by
  cases key_cases hsound hid hthrough with
  | quiet hdaemon hscreens _ hlistedBy hclosed =>
      unfold Lists
      rw [hlistedBy, hclosed]
      exact Agrees.quiet h hdaemon hscreens
  | @answered engine engine' raw actions v hengine hraw hstep hdaemon hbefore hdrawn hscreens
        _ hlistedBy hclosed =>
      have hkeeps : engine.strandsWindow (keyEventFromRaw raw) = false := by
        simpa [onKey, hengine, hraw] using hstrands
      have hact := SkkEngine.window_act (engine_wf hsound hengine) hkeeps hstep
      rw [← lastWindow_isSome] at hact
      have hpopup := View.popup_foldl (σ := σ) v actions
      -- Without a window action the window on the screen stays as it is.
      have hquiet : actions.any EngineAction.lists = false →
          (actions.foldl (View.see σ) v).popup = v.popup ∧
          (d.key id k delivery).1.closed = d.closed := by
        intro hnone
        rw [lastWindow_isSome, Option.isSome_eq_false_iff, Option.isNone_iff_eq_none] at hnone
        rw [hpopup, hnone]
        exact ⟨rfl, by rw [hclosed, lastWindow_isSome, hnone]; rfl⟩
      refine Agrees.answered h hengine hdaemon hbefore hdrawn hscreens hlistedBy ?_ ?_ ?_ ?_
      · intro hlists
        rw [if_pos hlists] at hact
        have hsome := (lastWindow_isSome actions).symm.trans hlists
        obtain ⟨a, ha⟩ := Option.isSome_iff_exists.mp hsome
        have hasked : popupOf σ v.ready (some a) = popupOf σ v.ready engine'.window := by
          rw [← ha, popupOf_lastWindow, hact]
        rw [hclosed, if_pos hlists, Function.update_self, hpopup, ha]
        refine hasked.trans ?_
        cases v.ready with
        | true => rfl
        | false =>
            unfold popupOf
            split <;> rfl
      · intro hnone hlisted
        rw [if_neg (by simp [hnone])] at hact
        rw [(hquiet hnone).1, (hquiet hnone).2, ← hact]
        exact hlisted
      · intro hnone other dict hlisted
        rw [(hquiet hnone).1, (hquiet hnone).2]
        exact hlisted
      · intro screen other dict w hscreen hlisted
        have hsame : (d.key id k delivery).1.closed screen = d.closed screen := by
          rw [hclosed]
          split
          · exact Function.update_of_ne hscreen ..
          · rfl
        rw [hsame]
        exact hlisted

/-- The context whose key was answered has drawn its own screen. Screens that are not shared
belong to one context each, so no other context has drawn there in between. -/
theorem Owned.key (h : d.Owned) (hsound : d.Sound) (hid : (d.daemon.sessions.get? id).isSome)
    (hthrough : d.GetsThrough (.key id k delivery)) : (d.key id k delivery).1.Owned := by
  intro hshared id' hid'
  cases key_cases hsound hid hthrough with
  | quiet hdaemon _ hdrawnBy hlistedBy _ =>
      rw [hdaemon] at hid'
      rw [hdrawnBy, hlistedBy]
      exact h hshared id' hid'
  | answered hengine _ _ hdaemon _ _ _ hdrawnBy hlistedBy _ =>
      -- A screen that is not shared has the id of its session.
      have hscreen : screenOf σ id = id := if_neg (by simp [hshared])
      rw [hdrawnBy, hlistedBy, hscreen]
      by_cases hsame : id' = id
      · subst hsame
        obtain ⟨hdrawn, hlisted⟩ := h hshared id' hid
        constructor
        · split
          · exact Function.update_self ..
          · exact hdrawn
        · split
          · exact Function.update_self ..
          · exact hlisted
      · rw [hdaemon] at hid'
        dsimp only at hid'
        -- Another context that is open now was open before, with the same screen.
        rw [OrdMap.get?_insert, if_neg hsame] at hid'
        obtain ⟨hdrawn, hlisted⟩ := h hshared id' hid'
        constructor
        · split
          · rwa [Function.update_of_ne hsame]
          · exact hdrawn
        · split
          · rwa [Function.update_of_ne hsame]
          · exact hlisted

end Key

/-! ### The other inputs -/

section Others
omit [EucJp] [LawfulInputContext σ]

/-- An engine is not touched by the creation of a session, unless that takes its id. -/
theorem engine?_createSession (hfresh : d.daemon.sessions.get? d.daemon.nextId = none)
    {d' : Desk σ δ} {appId : Str} (hdaemon : d'.daemon = (d.daemon.createSession appId).1)
    {id : SessionId} {engine : SkkEngine δ} (hengine : d.engine? id = some engine) :
    d'.engine? id = some engine := by
  obtain ⟨old, hold, rfl⟩ := Option.map_eq_some_iff.mp hengine
  have hne : id ≠ d.daemon.nextId := by
    rintro rfl
    rw [hfresh] at hold
    cases hold
  unfold engine?
  rw [hdaemon]
  unfold SessionManager.createSession
  dsimp only
  rw [OrdMap.get?_insert, if_neg hne, hold]
  rfl

/-- The engine of a new session is a fresh one on the settings of the daemon, with the
dictionaries as they are. -/
theorem engine?_new {d' : Desk σ δ} {appId : Str}
    (hdaemon : d'.daemon = (d.daemon.createSession appId).1) :
    d'.engine? d.daemon.nextId =
      some { SessionManager.newEngine d.daemon.settings with dict := d.daemon.dict } := by
  unfold engine?
  rw [hdaemon]
  unfold SessionManager.createSession
  dsimp only
  rw [OrdMap.get?_insert, if_pos rfl]
  rfl

variable {owner : SessionId → Option SessionId} {R : SessionId → SkkEngine δ → View π → Prop}

/-- A new context asks the daemon for a session. -/
theorem daemon_openContext (appId : Str) :
    (d.openContext appId).daemon = (d.daemon.createSession appId).1 := by
  unfold openContext
  dsimp only
  split <;> rfl

/-- A new context that shares the screen of the others changes nothing there: it sends no
action, and its id is a fresh one. -/
theorem Agrees.openContext_shared (h : d.Agrees owner R) (hshared : InputContext.shared σ)
    (hfresh : d.daemon.sessions.get? d.daemon.nextId = none) (appId : Str) :
    (d.openContext appId).Agrees owner R := by
  intro screen id hid
  obtain ⟨hscreen, engine, v, hengine, hview, hR⟩ := h screen id hid
  refine ⟨hscreen, engine, v, engine?_createSession hfresh (daemon_openContext appId) hengine,
    ?_, hR⟩
  unfold openContext
  dsimp only
  rw [if_pos hshared]
  exact hview

/-- A new context with a screen of its own shows nothing there. Its engine is new as well, so
the relation has to hold of a new engine and an empty view. The other screens and the engines
behind them do not change. -/
theorem Agrees.openContext_own [LawfulInputContext σ] {R' : SessionId → SkkEngine δ → View π → Prop}
    (h : d.Agrees owner R) (hshared : InputContext.shared σ = false)
    (hfresh : d.daemon.sessions.get? d.daemon.nextId = none) (appId : Str)
    (hnew : ∀ ready, R' d.daemon.nextId
      { SessionManager.newEngine d.daemon.settings with dict := d.daemon.dict }
      ⟨[], [], none, ready⟩)
    (hrest : ∀ screen engine v, screen ≠ d.daemon.nextId → R screen engine v →
      R' screen engine v) :
    (d.openContext appId).Agrees (Function.update owner d.daemon.nextId (some d.daemon.nextId))
      R' := by
  intro screen id hid
  -- The screens are those from before and one more, under the id of the new session.
  have hscreens : (d.openContext appId).screens =
      Function.update d.screens d.daemon.nextId InputContext.new := by
    unfold openContext
    dsimp only
    rw [if_neg (by simp [hshared])]
    rfl
  by_cases hscreen : screen = d.daemon.nextId
  · subst hscreen
    rw [Function.update_self] at hid
    cases hid
    obtain ⟨ready, hview⟩ := LawfulInputContext.view_new (σ := σ)
    refine ⟨if_neg (by simp [hshared]), _, _, engine?_new (daemon_openContext appId), ?_,
      hnew ready⟩
    rw [hscreens, Function.update_self]
    exact hview
  · rw [Function.update_of_ne hscreen] at hid
    obtain ⟨hscreenOf, engine, v, hengine, hview, hR⟩ := h screen id hid
    refine ⟨hscreenOf, engine, v,
      engine?_createSession hfresh (daemon_openContext appId) hengine, ?_,
      hrest screen engine v hscreen hR⟩
    rw [hscreens, Function.update_of_ne hscreen]
    exact hview

omit [DictionaryProvider δ] in
/-- A closed context owns no screen any more. Nothing is drawn for it, and the sessions that are
left are those there were, so every other screen agrees with its engine as before. -/
theorem Agrees.closeContext (h : d.Agrees owner R) (id : SessionId) :
    (d.closeContext id).Agrees
      (fun screen => if owner screen = some id then none else owner screen) R := by
  intro screen id' hid'
  dsimp only at hid'
  split at hid'
  · cases hid'
  rename_i hne
  obtain ⟨hscreen, engine, v, hengine, hview, hR⟩ := h screen id' hid'
  refine ⟨hscreen, engine, v, ?_, hview, hR⟩
  -- an owner that is left is not the session that was closed
  have hid : id' ≠ id := by
    rintro rfl
    exact hne hid'
  obtain ⟨old, hold, rfl⟩ := Option.map_eq_some_iff.mp hengine
  unfold engine? Desk.closeContext SessionManager.destroySession
  dsimp only
  rw [OrdMap.get?_erase, if_neg hid, hold]
  rfl

omit [DictionaryProvider δ] in
/-- An event of the toolkit touches one screen. It may close the window of candidates there and
change whether the widget is ready. The preedit of the view stays, and so does the engine, since
no call is made. -/
theorem Agrees.event [LawfulInputContext σ] {R' : SessionId → SkkEngine δ → View π → Prop}
    (h : d.Agrees owner R) (id : SessionId) (e : ε)
    (hown : ∀ engine v ready, R (screenOf σ id) engine v → R' (screenOf σ id) engine
      { v with popup := if InputContext.closes σ e then none else v.popup, ready := ready })
    (hrest : ∀ screen engine v, screen ≠ screenOf σ id → R screen engine v → R' screen engine v) :
    (d.event id e).Agrees owner R' := by
  intro screen id' hid'
  obtain ⟨hscreenOf, engine, v, hengine, hview, hR⟩ := h screen id' hid'
  by_cases hscreen : screen = screenOf σ id
  · subst hscreen
    obtain ⟨ready, hhandled⟩ := LawfulInputContext.view_handle e hview
    refine ⟨hscreenOf, engine, _, hengine, ?_, hown engine v ready hR⟩
    unfold Desk.event
    dsimp only
    rw [Function.update_self]
    exact hhandled
  · refine ⟨hscreenOf, engine, v, hengine, ?_, hrest screen engine v hscreen hR⟩
    unfold Desk.event
    dsimp only
    rw [Function.update_of_ne hscreen]
    exact hview

/-- A new engine displays nothing: no preedit and no window. -/
theorem newEngine_shows (settings : Settings δ) :
    (SessionManager.newEngine settings).Shown [] ∧
      (SessionManager.newEngine settings).window = none := by
  obtain ⟨hraw, hshown⟩ := SkkEngine.displays_fresh settings.kanaTable settings.keybindings
    settings.lispDirectives settings.initialPhase settings.providers
  constructor
  · unfold SkkEngine.Shown
    rw [if_neg (by simp [SessionManager.newEngine, hraw])]
    exact hshown
  · obtain ⟨dict, phase, hinitial, heq⟩ := SkkEngine.fresh_eq settings.kanaTable
      settings.keybindings settings.lispDirectives settings.initialPhase settings.providers
    rw [SessionManager.newEngine, heq]
    have hplain := SkkEngine.isPlain_of_isInitial hinitial
    exact SkkEngine.page_eq_none (SkkEngine.selection?_of_isPlain hplain)

end Others

/-! ### Steps and runs -/

section Step
variable {input : DeskInput κ ε}

/-- Every input keeps the engines well-formed and the adapters alive. One case for each kind of
input: a new engine is well-formed, a closed session is gone, a key is `Sound.key`, and an event
of the toolkit is handled by the adapter on its own. -/
theorem Sound.step (h : d.Sound) (hthrough : d.GetsThrough input) : (d.step input).1.Sound := by
  cases input with
  | openContext appId =>
      refine ⟨?_, fun screen => ?_⟩
      · show (d.openContext appId).daemon.InStep
        rw [daemon_openContext]
        exact h.inStep.createSession appId
      · show ∃ v, Screen.view ((d.openContext appId).screens screen) = some v
        unfold openContext
        dsimp only
        split
        · exact h.alive screen
        · by_cases hscreen : screen = d.daemon.nextId
          · subst hscreen
            -- The screen of the new context is alive by the first law, every other one as before.
            obtain ⟨ready, hview⟩ := LawfulInputContext.view_new (σ := σ)
            refine ⟨⟨[], [], none, ready⟩, ?_⟩
            show Screen.view (Function.update d.screens d.daemon.nextId _ d.daemon.nextId) = _
            rw [Function.update_self]
            exact hview
          · show ∃ v, Screen.view (Function.update d.screens d.daemon.nextId _ screen) = some v
            rw [Function.update_of_ne hscreen]
            exact h.alive screen
  | closeContext id => exact ⟨h.inStep.destroySession id, h.alive⟩
  | key id k delivery =>
      unfold Desk.step
      dsimp only
      split
      · rename_i hid
        exact h.key hid hthrough
      · exact h
  | event id e =>
      unfold Desk.step
      dsimp only
      split
      · refine ⟨h.inStep, fun screen => ?_⟩
        show ∃ v, Screen.view (Function.update d.screens (screenOf σ id) _ screen) = some v
        by_cases hscreen : screen = screenOf σ id
        · subst hscreen
          obtain ⟨v, hview⟩ := h.alive (screenOf σ id)
          -- An event leaves a screen alive by the second law.
          obtain ⟨ready, hhandled⟩ := LawfulInputContext.view_handle e hview
          rw [Function.update_self]
          exact ⟨_, hhandled⟩
        · rw [Function.update_of_ne hscreen]
          exact h.alive screen
      · exact h

/-- Every input keeps the preedits right. A new context has an empty preedit and a new engine. A
key that spoils no preedit leaves the preedit of its engine on the screen. An event of the
toolkit does not touch the preedit. -/
theorem Shows.step (h : d.Shows) (hsound : d.Sound) (hthrough : d.GetsThrough input)
    (hspoils : d.onKey SkkEngine.spoilsPreedit input = false) : (d.step input).1.Shows := by
  cases input with
  | openContext appId =>
      show (d.openContext appId).Shows
      -- contexts with one screen for all of them open none; the others get a screen of their own
      cases hshared : InputContext.shared σ with
      | true =>
          have hsame : (d.openContext appId).drawnBy = d.drawnBy := by
            unfold openContext
            dsimp only
            rw [if_pos hshared]
          unfold Shows
          rw [hsame]
          exact Agrees.openContext_shared h hshared hthrough appId
      | false =>
          have hown : (d.openContext appId).drawnBy =
              Function.update d.drawnBy d.daemon.nextId (some d.daemon.nextId) := by
            unfold openContext
            dsimp only
            rw [if_neg (by simp [hshared])]
            rfl
          unfold Shows
          rw [hown]
          refine Agrees.openContext_own h hshared hthrough appId (fun ready => ?_)
            fun screen engine v _ hshown => hshown
          exact (newEngine_shows d.daemon.settings).1
  | closeContext id => exact Agrees.closeContext h id
  | key id k delivery =>
      unfold Desk.step
      dsimp only
      split
      · rename_i hid
        exact h.key hsound hid hthrough hspoils
      · exact h
  | event id e =>
      unfold Desk.step
      dsimp only
      split
      · exact Agrees.event h id e (fun engine v ready hshown => hshown)
          fun screen engine v _ hshown => hshown
      · exact h

/-- Every input keeps the windows right: an event of the toolkit may close one, which is
recorded, until a key draws the window again. The cases are those of `Shows.step`. -/
theorem Lists.step (h : d.Lists) (hsound : d.Sound) (hthrough : d.GetsThrough input)
    (hstrands : d.onKey SkkEngine.strandsWindow input = false) : (d.step input).1.Lists := by
  cases input with
  | openContext appId =>
      show (d.openContext appId).Lists
      cases hshared : InputContext.shared σ with
      -- A shared screen is not made anew: neither who has listed there nor whether it is closed
      -- changes.
      | true =>
          have hsame : (d.openContext appId).listedBy = d.listedBy ∧
              (d.openContext appId).closed = d.closed := by
            unfold openContext
            dsimp only
            rw [if_pos hshared]
            exact ⟨rfl, rfl⟩
          unfold Lists
          rw [hsame.1, hsame.2]
          exact Agrees.openContext_shared h hshared hthrough appId
      -- The new context becomes the owner of its own screen, whose window is open and empty.
      | false =>
          have hown : (d.openContext appId).listedBy =
                Function.update d.listedBy d.daemon.nextId (some d.daemon.nextId) ∧
              (d.openContext appId).closed = Function.update d.closed d.daemon.nextId false := by
            unfold openContext
            dsimp only
            rw [if_neg (by simp [hshared])]
            exact ⟨rfl, rfl⟩
          unfold Lists
          rw [hown.1, hown.2]
          refine Agrees.openContext_own h hshared hthrough appId (fun ready => ?_) ?_
          · rw [Function.update_self, if_neg (by simp)]
            show none = popupOf σ true (SessionManager.newEngine d.daemon.settings).window
            rw [(newEngine_shows d.daemon.settings).2]
            rfl
          · intro screen engine v hscreen hlisted
            rw [Function.update_of_ne hscreen]
            exact hlisted
  | closeContext id => exact Agrees.closeContext h id
  | key id k delivery =>
      unfold Desk.step
      dsimp only
      split
      · rename_i hid
        exact h.key hsound hid hthrough hstrands
      · exact h
  | event id e =>
      unfold Desk.step
      dsimp only
      split
      · -- The toolkit may close the window of this one screen; where it is closed the relation
        -- asks for no rows.
        have hclosed : (d.event id e).closed = if InputContext.closes σ e then
            Function.update d.closed (screenOf σ id) true else d.closed := rfl
        unfold Lists
        rw [hclosed]
        refine Agrees.event h id e (fun engine v ready hlisted => ?_) ?_
        · dsimp only
          split
          · rw [Function.update_self]
            rfl
          · exact hlisted
        · intro screen engine v hscreen hlisted
          split
          · rw [Function.update_of_ne hscreen]
            exact hlisted
          · exact hlisted
      · exact h

/-- Every input keeps the owners of the screens: each session is the one that last drew its own
screen. A new session owns the screen that is made for it, and an event of the toolkit does not
draw. -/
theorem Owned.step (h : d.Owned) (hsound : d.Sound) (hthrough : d.GetsThrough input) :
    (d.step input).1.Owned := by
  cases input with
  | openContext appId =>
      intro hshared id hid
      have hopened : (d.step (.openContext appId : DeskInput κ ε)).1 = d.openContext appId := rfl
      rw [hopened] at hid ⊢
      rw [daemon_openContext] at hid
      unfold SessionManager.createSession at hid
      dsimp only at hid
      rw [OrdMap.get?_insert] at hid
      unfold openContext
      dsimp only
      rw [if_neg (by simp [hshared])]
      show Function.update d.drawnBy d.daemon.nextId (some d.daemon.nextId) id = _ ∧
        Function.update d.listedBy d.daemon.nextId (some d.daemon.nextId) id = _
      by_cases hnew : id = d.daemon.nextId
      · subst hnew
        exact ⟨Function.update_self .., Function.update_self ..⟩
      · rw [if_neg hnew] at hid
        rw [Function.update_of_ne hnew, Function.update_of_ne hnew]
        exact h hshared id hid
  | closeContext id =>
      intro hshared id' hid'
      -- a session that is still there is not the one that was closed
      have hne : id' ≠ id := by
        rintro rfl
        change ((d.daemon.sessions.erase id').get? id').isSome at hid'
        rw [OrdMap.get?_erase, if_pos rfl] at hid'
        cases hid'
      have hold : (d.daemon.sessions.get? id').isSome := by
        change ((d.daemon.sessions.erase id).get? id').isSome at hid'
        rwa [OrdMap.get?_erase, if_neg hne] at hid'
      obtain ⟨hdrawn, hlisted⟩ := h hshared id' hold
      constructor
      · show (if d.drawnBy id' = some id then none else d.drawnBy id') = some id'
        rw [hdrawn, if_neg (by simpa using hne)]
      · show (if d.listedBy id' = some id then none else d.listedBy id') = some id'
        rw [hlisted, if_neg (by simpa using hne)]
  | key id k delivery =>
      unfold Desk.step
      dsimp only
      split
      · rename_i hid
        exact h.key hsound hid hthrough
      · exact h
  | event id e =>
      unfold Desk.step
      dsimp only
      split
      · exact h
      · exact h

end Step

/-! ### Runs -/

variable (σ) in
/-- What happens at a desk from the start of the daemon on. -/
abbrev Day (settings : Settings δ) :
    List (Visit (Desk σ δ) (DeskInput κ ε) (SessionId × κ)) → Desk σ δ → Prop :=
  Run (ofFun Desk.step) (Desk.start settings)

section Runs
variable {settings : Settings δ}
  {history : List (Visit (Desk σ δ) (DeskInput κ ε) (SessionId × κ))}

omit [EucJp] in
/-- At the start there is no session, and every screen can be viewed. -/
theorem sound_start : (Desk.start settings : Desk σ δ).Sound := by
  refine ⟨SessionManager.inStep_new settings, fun screen => ?_⟩
  obtain ⟨ready, hview⟩ := LawfulInputContext.view_new (σ := σ)
  exact ⟨_, hview⟩

/-- In every run that gets through. -/
theorem sound_of_run (hrun : Day σ settings history d)
    (hthrough : ∀ v ∈ history, v.pre.GetsThrough v.input) : d.Sound := by
  refine hrun.invariant Sound GetsThrough sound_start ?_ hthrough
  intro d input d' os hs hok hstep
  obtain rfl : (d.step input).1 = d' := congrArg Prod.fst hstep
  exact hs.step hok

/-- A context with a screen of its own owns it in every run, so what is on it was sent by the
engine of that context. -/
theorem owned_of_run (hrun : Day σ settings history d)
    (hthrough : ∀ v ∈ history, v.pre.GetsThrough v.input) : d.Owned := by
  have key : d.Sound ∧ d.Owned := by
    refine hrun.invariant (fun d => d.Sound ∧ d.Owned) GetsThrough ⟨sound_start, ?_⟩ ?_ hthrough
    · intro _ id hid
      cases hid
    · intro d input d' os hs hok hstep
      obtain rfl : (d.step input).1 = d' := congrArg Prod.fst hstep
      exact ⟨hs.1.step hok, hs.2.step hs.1 hok⟩
  exact key.2

/-- In every run whose keys spoil no preedit, every screen shows the preedit of the engine that
drew it. -/
theorem shows_of_run (hrun : Day σ settings history d)
    (hthrough : ∀ v ∈ history, v.pre.GetsThrough v.input)
    (hspoils : ∀ v ∈ history, v.pre.onKey SkkEngine.spoilsPreedit v.input = false) : d.Shows := by
  have key : d.Sound ∧ d.Shows := by
    refine hrun.invariant (fun d => d.Sound ∧ d.Shows)
      (fun d input => d.GetsThrough input ∧ d.onKey SkkEngine.spoilsPreedit input = false)
      ⟨sound_start, ?_⟩ ?_ fun v hv => ⟨hthrough v hv, hspoils v hv⟩
    · intro screen id hid
      cases hid
    · intro d input d' os hs hok hstep
      obtain rfl : (d.step input).1 = d' := congrArg Prod.fst hstep
      exact ⟨hs.1.step hok.1, hs.2.step hs.1 hok.1 hok.2⟩
  exact key.2

/-- In every run whose keys strand no window, every screen shows the window of candidates of the
engine that drew it, unless the toolkit has closed it. -/
theorem lists_of_run (hrun : Day σ settings history d)
    (hthrough : ∀ v ∈ history, v.pre.GetsThrough v.input)
    (hstrands : ∀ v ∈ history, v.pre.onKey SkkEngine.strandsWindow v.input = false) :
    d.Lists := by
  have key : d.Sound ∧ d.Lists := by
    refine hrun.invariant (fun d => d.Sound ∧ d.Lists)
      (fun d input => d.GetsThrough input ∧ d.onKey SkkEngine.strandsWindow input = false)
      ⟨sound_start, ?_⟩ ?_ fun v hv => ⟨hthrough v hv, hstrands v hv⟩
    · intro screen id hid
      cases hid
    · intro d input d' os hs hok hstep
      obtain rfl : (d.step input).1 = d' := congrArg Prod.fst hstep
      exact ⟨hs.1.step hok.1, hs.2.step hs.1 hok.1 hok.2⟩
  exact key.2

/-- Nothing in the run gets lost, and no key spoils a preedit or strands a window. -/
structure Clear (history : List (Visit (Desk σ δ) (DeskInput κ ε) (SessionId × κ))) : Prop where
  through : ∀ v ∈ history, v.pre.GetsThrough v.input
  spoils : ∀ v ∈ history, v.pre.onKey SkkEngine.spoilsPreedit v.input = false
  strands : ∀ v ∈ history, v.pre.onKey SkkEngine.strandsWindow v.input = false

/-- In a clear run a context with a screen of its own shows its own engine: its preedit, and its
candidates unless the toolkit has closed the window. This is the result that the adapters
instantiate. -/
theorem view_of_run (hrun : Day σ settings history d) (hclear : Clear history)
    (hshared : InputContext.shared σ = false) {id : SessionId} {engine : SkkEngine δ}
    (hengine : d.engine? id = some engine) :
    ∃ v, Screen.view (d.screens id) = some v ∧ engine.Shown v.preedit ∧
      v.popup = if d.closed id then none else popupOf σ true engine.window := by
  have hid : (d.daemon.sessions.get? id).isSome := by
    obtain ⟨old, hold, -⟩ := Option.map_eq_some_iff.mp hengine
    rw [hold]
    rfl
  -- the screen is its own, so the session that drew the preedit and the window there is this one
  obtain ⟨hdrawn, hlisted⟩ := owned_of_run hrun hclear.through hshared id hid
  obtain ⟨-, engine₁, v, hengine₁, hview, hshown⟩ :=
    shows_of_run hrun hclear.through hclear.spoils id id hdrawn
  obtain ⟨-, engine₂, v₂, hengine₂, hview₂, hlists⟩ :=
    lists_of_run hrun hclear.through hclear.strands id id hlisted
  rw [hengine] at hengine₁ hengine₂
  cases hengine₁
  cases hengine₂
  rw [hview] at hview₂
  cases hview₂
  exact ⟨v, hview, hshown, hlists⟩

end Runs

end Steps

/-! ### Settings to try a desk with -/

/-- The settings of a daemon without dictionaries, whose candidates are listed at once. -/
def listingSettings : Settings Empty where
  kanaTable := SkkEngine.pendingTable
  keybindings := { inlineCount := 0 }
  initialPhase := .hiragana
  providers := []
  indicatorTimeoutMs := 0
  lispDirectives := true

end Desk

end Y2Skk
