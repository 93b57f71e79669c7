import Y2Skk.Proofs.Desk

/-!
# `Y2Skk.Proofs.Screens`: invariants of a screen

`Kept timeoutMs P I` says that an adapter keeps `I`, whatever the toolkit and the daemon
do: the daemon sends preedits that are well-formed and satisfy `P`, and status updates
with a timeout. `screens_of_run` is the rule: then `I` holds of every screen in every run.

## What an adapter has to show

An adapter is told of actions, of calls that fail, and of events of its toolkit, and
`Kept` has one field for each. `Kept.dispatchAction` is one action as the daemon sends it,
and `Kept.dispatch` an answer.

## What the daemon sends

The preedits of an answer are well-formed because the engines are (`serve_answer`). That
holds too when a call was lost: the client then asks for a new session, and the next key
is served by a fresh engine on the same settings, which is well-formed like every new one.
A key of which only the reply was lost has changed the dictionaries, and nothing of it
reaches the screen.

## The rule

`Keeps` is the invariant of a desk: the engines are in step, the settings are those of the
start, and every screen satisfies `I`. `Keeps.step` is one step of the desk, and
`screens_of_run` the induction.
-/

set_option autoImplicit false

namespace Y2Skk

open Outcome Transition
open Utf8 (Str byteLen)

/-- The start of the ghost as an adapter gets it. -/
def Preedit.ghostSent (preedit : Preedit) : Option UInt32 :=
  let sent := (preedit.ghostStart.map Nat.toUInt32).getD noGhost
  if sent ≠ noGhost then some sent else none

/-- The adapter keeps `I` when preedits satisfy `P` and status updates come with the timeout
`timeoutMs`. -/
structure Kept {σ π κ ε : Type} [InputContext σ π κ ε] (timeoutMs : UInt32) (P : Preedit → Prop)
    (I : σ → Prop) : Prop where
  new : I InputContext.new
  handle : ∀ {s : σ} (e : ε), I s → I (InputContext.handle s e)
  finish : ∀ {s : σ} (k : κ) (result : DispatchResult), I s →
    I (InputContext.finish k (result, s)).2
  commit : ∀ {s : σ} (text : Str), I s → I (ActionSink.commit s text)
  updatePreedit : ∀ {s : σ} {preedit : Preedit}, I s → preedit.Wf → P preedit →
    I (ActionSink.updatePreedit s preedit.text preedit.cursor.toUInt32 preedit.ghostSent)
  clearPreedit : ∀ {s : σ}, I s → I (ActionSink.clearPreedit s)
  showCandidates : ∀ {s : σ} (rows : List IpcCandidate) (focused : UInt32) (selKeys : Str), I s →
    I (ActionSink.showCandidates s rows focused selKeys)
  hideCandidates : ∀ {s : σ}, I s → I (ActionSink.hideCandidates s)
  updateStatus : ∀ {s : σ} (indicator : Str), I s → timeoutMs ≠ 0 →
    I (ActionSink.updateStatus s indicator timeoutMs)

section Actions
variable {σ π κ ε δ : Type} [InputContext σ π κ ε] {timeoutMs : UInt32} {P : Preedit → Prop}
  {I : σ → Prop} {manager : SessionManager δ} {s : σ}

/-- One action. A status update is sent only with a timer, by the settings of the daemon, so the
callback for it is asked about in that case alone. Every other action is one call of a callback,
or none. -/
theorem Kept.dispatchAction (hkept : Kept timeoutMs P I)
    (htimeout : manager.settings.indicatorTimeoutMs = timeoutMs) {a : EngineAction}
    (ha : ∀ preedit, a = .updatePreedit preedit → preedit.Wf ∧ P preedit) (hs : I s)
    (result : DispatchResult) :
    I ((manager.ipcActions [a]).foldl dispatchStep (result, s)).2 := by
  cases a with
  | updateStatus indicator =>
      by_cases hoff : timeoutMs = 0
      · have hsent : manager.ipcActions [.updateStatus indicator] = [] := by
          simp [SessionManager.ipcActions, IpcAction.ofEngine, htimeout, hoff]
        rw [hsent]
        exact hs
      · have hsent : manager.ipcActions [.updateStatus indicator] =
            [{ kind := actionUpdateStatus, text := indicator, cursor := timeoutMs }] := by
          simp [SessionManager.ipcActions, IpcAction.ofEngine, htimeout, hoff]
        rw [hsent]
        exact hkept.updateStatus indicator hs hoff
  | commit text =>
      rw [manager.ipcActions_singleton (by simp)]
      exact hkept.commit text hs
  | updatePreedit preedit =>
      rw [manager.ipcActions_singleton (by simp)]
      exact hkept.updatePreedit hs (ha preedit rfl).1 (ha preedit rfl).2
  | clearPreedit =>
      rw [manager.ipcActions_singleton (by simp)]
      exact hkept.clearPreedit hs
  | showCandidates page focused selKeys =>
      rw [manager.ipcActions_singleton (by simp)]
      exact hkept.showCandidates _ _ _ hs
  | hideCandidates =>
      rw [manager.ipcActions_singleton (by simp)]
      exact hkept.hideCandidates hs
  -- The last two kinds of action are for the caller and touch no screen.
  | passthrough =>
      rw [manager.ipcActions_singleton (by simp)]
      exact hs
  | deleteBack =>
      rw [manager.ipcActions_singleton (by simp)]
      exact hs

/-- An answer is its actions, one after the other, and each of them keeps `I`: its preedit, if
it has one, is well formed and satisfies `P`. -/
theorem Kept.dispatch (hkept : Kept timeoutMs P I)
    (htimeout : manager.settings.indicatorTimeoutMs = timeoutMs) (actions : List EngineAction)
    (hs : I s) (hactions : ∀ preedit, .updatePreedit preedit ∈ actions →
      preedit.Wf ∧ P preedit) : I (dispatch (manager.ipcActions actions) s).2 := by
  have hloop : ∀ (actions : List EngineAction) (acc : DispatchResult × σ), I acc.2 →
      (∀ preedit, .updatePreedit preedit ∈ actions → preedit.Wf ∧ P preedit) →
      I ((manager.ipcActions actions).foldl dispatchStep acc).2 := by
    intro actions
    induction actions with
    | nil => exact fun acc hacc _ => hacc
    | cons a actions ih =>
        intro acc hacc hsound
        rw [manager.ipcActions_cons, List.foldl_append]
        refine ih _ ?_ fun preedit ha => hsound preedit (List.mem_cons_of_mem _ ha)
        refine hkept.dispatchAction htimeout (fun preedit heq => ?_) hacc acc.1
        exact hsound preedit (heq ▸ List.mem_cons_self)
  exact hloop actions _ hs hactions

end Actions

/-! ### Runs -/

namespace Desk

section Runs
variable {σ π κ ε δ : Type} [InputContext σ π κ ε] [DictionaryProvider δ] {timeoutMs : UInt32}
  {P : Preedit → Prop} {I : σ → Prop} {d : Desk σ δ}

/-- A new context has a screen on which `I` holds, and no other screen is touched. Without a new
session no screen is. -/
theorem kept_openContext (hkept : Kept timeoutMs P I) (hd : ∀ screen, I (d.screens screen))
    (appId : Str) (screen : SessionId) : I ((d.openContext appId).screens screen) := by
  unfold openContext
  dsimp only
  split
  · exact hd screen
  · show I (Function.update d.screens d.daemon.nextId InputContext.new screen)
    by_cases hscreen : screen = d.daemon.nextId
    · subst hscreen
      rw [Function.update_self]
      exact hkept.new
    · rw [Function.update_of_ne hscreen]
      exact hd screen

omit [DictionaryProvider δ] in
/-- An event of the toolkit changes the screen it is for, and keeps `I` there. Every other
screen is the same as before. -/
theorem kept_event (hkept : Kept timeoutMs P I) (hd : ∀ screen, I (d.screens screen))
    (id : SessionId) (e : ε) (screen : SessionId) : I ((d.event id e).screens screen) := by
  show I (Function.update d.screens (screenOf σ id) _ screen)
  by_cases hscreen : screen = screenOf σ id
  · subst hscreen
    rw [Function.update_self]
    exact hkept.handle e (hd _)
  · rw [Function.update_of_ne hscreen]
    exact hd screen

variable [EucJp]

/-- The preedits of the answer to a key satisfy `P`; other inputs have no answer. -/
def Answers (P : Preedit → Prop) (d : Desk σ δ) : DeskInput κ ε → Prop
  | .key id k _ => ∀ preedit, .updatePreedit preedit ∈ d.answer id k → P preedit
  | _ => True

omit [EucJp] in
/-- New engines run on the settings of the daemon. -/
theorem inStep_renewed (daemon : SessionManager δ) : (renewed daemon).InStep := by
  intro id engine hengine
  unfold renewed at hengine ⊢
  dsimp only at hengine ⊢
  rw [OrdMap.get?_mapValues] at hengine
  obtain ⟨old, -, rfl⟩ := Option.map_eq_some_iff.mp hengine
  exact (SessionManager.runsOn_newEngine daemon.settings).setDict daemon.dict

/-- The daemon answers a key with the actions of the engine, whose preedits are well-formed.
When the request or the reply is lost the adapter hears of nothing. The client then has a new
session, so the settings and the invariant on engines hold as before. -/
theorem serve_answer (hinStep : d.daemon.InStep) {id : SessionId}
    (hid : (d.daemon.sessions.get? id).isSome) {k : κ} {raw : RawKey}
    (hraw : InputContext.rawKey σ k = some raw) (delivery : Delivery) :
    (serve d.daemon id delivery raw).1.InStep ∧
      (serve d.daemon id delivery raw).1.settings = d.daemon.settings ∧
      (∀ preedit, .updatePreedit preedit ∈ d.answer id k → preedit.Wf) ∧
      ∀ sent, (serve d.daemon id delivery raw).2 = .ok sent →
        sent = d.daemon.ipcActions (d.answer id k) := by
  obtain ⟨old, hold⟩ := Option.isSome_iff_exists.mp hid
  have hself : SkkEngine.Wf { old with dict := d.daemon.dict } :=
    ((hinStep id old hold).setDict d.daemon.dict).wf
  obtain ⟨⟨engine', actions⟩, hstep, -, hpreedits⟩ :=
    SkkEngine.processKey_wf hself (keyEventFromRaw raw)
  -- The answer that the desk records is what the engine of the session computes on this key.
  have hanswer : d.answer id k = actions := by
    unfold answer engine?
    rw [hold, hraw]
    dsimp only [Option.map_some]
    rw [hstep]
  have hkey : d.daemon.processKey id raw = .ok ({ d.daemon with
      sessions := d.daemon.sessions.insert id engine', dict := engine'.dict },
      d.daemon.ipcActions actions) := by
    unfold SessionManager.processKey
    rw [hold]
    dsimp only
    rw [hstep]
    rfl
  rw [hanswer]
  cases delivery with
  | replied =>
      rw [serve_replied hkey]
      refine ⟨hinStep.processKey hkey, rfl, hpreedits, fun sent hsent => ?_⟩
      cases hsent
      rfl
  -- With the request lost the daemon has not moved; with the reply lost it has, and in both cases
  -- the sessions are renewed.
  | requestLost => exact ⟨inStep_renewed _, rfl, hpreedits, fun sent hsent => by cases hsent⟩
  | replyLost =>
      have hserve : serve d.daemon id .replyLost raw = (renewed { d.daemon with
          sessions := d.daemon.sessions.insert id engine', dict := engine'.dict },
          .error .unavailable) := by
        rw [serve, if_neg (by simp), hkey]
        rfl
      rw [hserve]
      exact ⟨inStep_renewed _, rfl, hpreedits, fun sent hsent => by cases hsent⟩

variable [LawfulInputContext σ]

/-- A key changes the screen of its session by the answer, or by the failure of the call. The
screens of the other contexts are not touched. -/
theorem kept_key (hkept : Kept timeoutMs P I) (hinStep : d.daemon.InStep)
    (htimeout : d.daemon.settings.indicatorTimeoutMs = timeoutMs)
    (hd : ∀ screen, I (d.screens screen)) {id : SessionId}
    (hid : (d.daemon.sessions.get? id).isSome) {k : κ} {delivery : Delivery}
    (hanswers : d.Answers P (.key id k delivery)) (screen : SessionId) :
    I ((d.key id k delivery).1.screens screen) := by
  by_cases hscreen : screen = screenOf σ id
  · subst hscreen
    unfold Desk.key
    dsimp only
    rw [Function.update_self, LawfulInputContext.filterKey_eq]
    cases hraw : InputContext.rawKey σ k with
    | none => exact hd _
    | some raw =>
        dsimp only
        obtain ⟨-, -, hwf, hserved⟩ := serve_answer hinStep hid hraw delivery
        cases hserve : (serve d.daemon id delivery raw).2 with
        -- The call failed: the adapter hears of no action.
        | error e => exact hd _
        | ok sent =>
            rw [hserved sent hserve]
            exact hkept.finish k _ (hkept.dispatch htimeout _ (hd _)
              fun preedit hp => ⟨hwf preedit hp, hanswers preedit hp⟩)
  · unfold Desk.key
    dsimp only
    rw [Function.update_of_ne hscreen]
    exact hd screen

/-- A desk of which every screen satisfies `I`. -/
structure Keeps (settings : Settings δ) (I : σ → Prop) (d : Desk σ δ) : Prop where
  inStep : d.daemon.InStep
  settings : d.daemon.settings = settings
  screens : ∀ screen, I (d.screens screen)

omit [LawfulInputContext σ] in
/-- A key keeps the engines in step and the settings as they are, whether its call got through
or not. -/
theorem daemon_key (hinStep : d.daemon.InStep) {id : SessionId}
    (hid : (d.daemon.sessions.get? id).isSome) (k : κ) (delivery : Delivery) :
    (d.key id k delivery).1.daemon.InStep ∧
      (d.key id k delivery).1.daemon.settings = d.daemon.settings := by
  unfold Desk.key
  dsimp only
  cases hraw : InputContext.rawKey σ k with
  | none => exact ⟨hinStep, rfl⟩
  | some raw =>
      obtain ⟨hstep, hsettings, -, -⟩ := serve_answer hinStep hid hraw delivery
      exact ⟨hstep, hsettings⟩

/-- One step of the desk, a new context, an event or a key. An input for a session that does not
exist does nothing. -/
theorem Keeps.step {settings : Settings δ} (hkept : Kept settings.indicatorTimeoutMs P I)
    (h : d.Keeps settings I) {input : DeskInput κ ε} (hanswers : d.Answers P input) :
    (d.step input).1.Keeps settings I := by
  cases input with
  | openContext appId =>
      show (d.openContext appId).Keeps settings I
      refine ⟨?_, ?_, kept_openContext hkept h.screens appId⟩
      · rw [daemon_openContext]
        exact h.inStep.createSession appId
      · rw [daemon_openContext]
        exact h.settings
  | closeContext id => exact ⟨h.inStep.destroySession id, h.settings, h.screens⟩
  | key id k delivery =>
      by_cases hid : (d.daemon.sessions.get? id).isSome
      · have hstep : (d.step (.key id k delivery)).1 = (d.key id k delivery).1 := by
          simp only [Desk.step, if_pos hid]
        rw [hstep]
        -- The settings do not change over a key, so the timeout is still the one that `I` is kept
        -- for.
        obtain ⟨hinStep, hsettings⟩ := daemon_key h.inStep hid k delivery
        exact ⟨hinStep, hsettings.trans h.settings,
          kept_key hkept h.inStep (by rw [h.settings]) h.screens hid hanswers⟩
      · have hstep : (d.step (.key id k delivery)).1 = d := by
          simp only [Desk.step, if_neg hid]
        rw [hstep]
        exact h
  | event id e =>
      by_cases hid : (d.daemon.sessions.get? id).isSome
      · have hstep : (d.step (.event id e)).1 = d.event id e := by
          simp only [Desk.step, if_pos hid]
        rw [hstep]
        exact ⟨h.inStep, h.settings, kept_event hkept h.screens id e⟩
      · have hstep : (d.step (.event id e)).1 = d := by
          simp only [Desk.step, if_neg hid]
        rw [hstep]
        exact h

/-- What an adapter keeps holds of every screen in every run whose answers satisfy `P`. The
invariant of the induction also has the daemon in step, with the settings it was started
with. -/
theorem screens_of_run {settings : Settings δ} (hkept : Kept settings.indicatorTimeoutMs P I)
    {history : List (Visit (Desk σ δ) (DeskInput κ ε) (SessionId × κ))}
    (hrun : Day σ settings history d) (hanswers : ∀ v ∈ history, v.pre.Answers P v.input)
    (screen : SessionId) : I (d.screens screen) := by
  have key : d.Keeps settings I := by
    refine hrun.invariant (Keeps settings I) (Answers P)
      ⟨SessionManager.inStep_new settings, rfl, fun _ => hkept.new⟩ ?_ hanswers
    intro d input d' os hs hok hstep
    obtain rfl : (d.step input).1 = d' := congrArg Prod.fst hstep
    exact hs.step hkept hok
  exact key.screens screen

end Runs

end Desk

end Y2Skk
