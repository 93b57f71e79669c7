import Y2Skk.Ipc.World

/-!
# `Y2Skk.Proofs.Isolation`: whose engine a key reaches

A restarted daemon issues the same small ids again. A handle that still has an id from
before the restart does not notice when the daemon has meanwhile given that id to another
handle (`key_reaches_other_handle`). `isolated_of_run` says that nothing else goes wrong:
in a run in which no key is sent under such an id, every key reaches an engine that was
created for its handle.

## Tickets

The proof follows the tickets. A ticket is a session id with the start of the daemon that
issued it; the adapters see the id only. A program gets a ticket from the daemon or from
the entry of its handle (`program_knows`). A ticket of the running daemon is good for its
handle, and stays so (`exec_kept`): ids are issued in order, a session is made for one
owner, and only a restart forgets the owners.

## Programs and the world

A client is a program over operations, and the operations of different threads interleave
freely. `Holds` is the rule for a single program: it uses the tokens it was handed and no
others. `Kept` is the rule for a single operation in any state of the world.
`machine_sound` joins the two by the theorem on interleavings of the library, which is
proved once for any such discipline.

## The ids

The condition on a run also says that the ids do not run out: the counter of the daemon
wraps, and its ids begin anew at 1.
-/

set_option autoImplicit false

namespace Y2Skk

open Outcome Concurrent Transition

namespace World

variable {δ : Type}

/-- A ticket that a client holds for a handle. -/
structure Token where
  client : ClientId
  handle : LocalHandle
  ticket : Ticket
  deriving DecidableEq

/-- The token in an entry, if its session was created. -/
def held (client : ClientId) (handle : LocalHandle) (ticket : Ticket) : List Token :=
  if ticket.id ≠ 0 then [⟨client, handle, ticket⟩] else []

/-- The tokens an operation uses. -/
def uses : Op → List Token
  | .processKey c handle ticket _ => [⟨c, handle, ticket⟩]
  | .setSession c handle ticket => [⟨c, handle, ticket⟩]
  | .insertEntry c handle entry => held c handle entry.daemonSessionId
  | _ => []

/-- The tokens a reply hands out. -/
def learns : (o : Op) → Reply o → List Token
  | .createSession c (some handle) _, some ticket => [⟨c, handle, ticket⟩]
  | .getEntry c handle, some entry => held c handle entry.daemonSessionId
  | _, _ => []

/-- A ticket of the running daemon has been issued, for the handle that holds it. -/
def Valid (w : World δ) (token : Token) : Prop :=
  token.ticket.boot ≤ w.boot ∧ (token.ticket.boot = w.boot →
    token.ticket.id < w.daemon.nextId ∧
    w.createdFor token.ticket.id = some (token.client, token.handle))

/-- Every entry of a client has a valid ticket, or none. -/
def Inv (w : World δ) : Prop :=
  ∀ client handle entry, (w.clients client).sessions.get? handle = some entry →
    ∀ token ∈ held client handle entry.daemonSessionId, w.Valid token

/-- No key is sent under an id of a previous daemon that the running daemon knows, and the
ids do not run out. -/
def sendsCurrent (w : World δ) : Op → Prop
  | .processKey _ _ ticket _ => ticket.boot = w.boot ∨ w.knows ticket.id = false
  | .createSession _ _ _ => w.daemon.nextId ≠ 0xFFFFFFFF
  | _ => True

/-- The condition can be tested on a concrete run. -/
instance (w : World δ) (o : Op) : Decidable (w.sendsCurrent o) := by
  unfold sendsCurrent
  split <;> infer_instance

/-- The key reached an engine that was created for its handle. -/
def Own (applied : Applied) : Prop :=
  applied.createdFor = some (applied.client, applied.handle)

/-- So can the conclusion. -/
instance (applied : Applied) : Decidable (Own applied) :=
  inferInstanceAs (Decidable (_ = _))

/-! ### The programs -/

section Programs
open Program ReconnectingClient

variable {α : Type} {tokens : List Token} {self : ClientId} {handle : LocalHandle}

/-- The program uses only tokens it was handed, and ends as `Q` says. -/
abbrev Holds (Q : List Token → α → Prop) (tokens : List Token) (p : Call α) : Prop :=
  Knows uses learns Q tokens p

/-- An operation uses what the program has, and what it replies may be used after it. -/
theorem holds_run {o : Op} {Q : List Token → Reply o → Prop} :
    Holds Q tokens o.run ↔ uses o ⊆ tokens ∧ ∀ r, Q (learns o r ++ tokens) r := Iff.rfl

/-- An operation that has to do with no ticket. -/
theorem holds_run_of_nil {o : Op} {Q : List Token → Reply o → Prop} (huses : uses o = [])
    (hlearns : ∀ r, learns o r = []) : Holds Q tokens o.run ↔ ∀ r, Q tokens r := by
  rw [holds_run, huses]
  simp only [hlearns, List.nil_append, List.nil_subset, true_and]

/-- A session that was created is a token. -/
theorem mem_held {ticket : Ticket} (h : ticket.id ≠ 0) : ⟨self, handle, ticket⟩ ∈
    held self handle ticket := by
  rw [held, if_pos h]
  exact List.mem_singleton_self _

/-- The cooldown has to do with no ticket. -/
theorem holds_inCooldown {Q : List Token → Bool → Prop} :
    Holds Q tokens (inCooldown self) ↔ ∀ r, Q tokens r :=
  holds_run_of_nil rfl fun _ => rfl

/-- Nor has a failure, which only forgets tickets. -/
theorem holds_markFailed {Q : List Token → Unit → Prop} (h : Q tokens ()) :
    Holds Q tokens (markFailed self) :=
  knows_bind.mpr ((holds_run_of_nil rfl fun _ => rfl).mpr fun _ =>
    (holds_run_of_nil rfl fun _ => rfl).mpr fun _ => h)

/-- Nor has a recovery. -/
theorem holds_markRecovered {Q : List Token → Unit → Prop} (h : Q tokens ()) :
    Holds Q tokens (markRecovered self) :=
  (holds_run_of_nil rfl fun _ => rfl).mpr fun _ => h

/-- A ticket from the daemon may be used: `CreateSession` hands it out for this handle, or the
call fails and there is none. -/
theorem holds_tryCreate {Q : List Token → Option Ticket → Prop} {appId : Utf8.Str}
    (hsome : ∀ ticket, Q (⟨self, handle, ticket⟩ :: tokens) (some ticket))
    (hnone : Q tokens none) :
    Holds Q tokens (tryCreateDaemonSession self (some handle) appId) := by
  refine holds_run.mpr ⟨List.nil_subset _, fun r => ?_⟩
  cases r with
  | none => exact hnone
  | some ticket => exact hsome ticket

/-- The entry of a handle has a ticket that may be used, if any. -/
theorem holds_getEntry {Q : List Token → Option SessionEntry → Prop}
    (hsome : ∀ entry, Q (held self handle entry.daemonSessionId ++ tokens) (some entry))
    (hnone : Q tokens none) : Holds Q tokens (getEntry self handle) := by
  refine holds_run.mpr ⟨List.nil_subset _, fun r => ?_⟩
  cases r with
  | none => exact hnone
  | some entry => exact hsome entry

/-- A ticket is stored under the handle it is for. -/
theorem holds_setSession {Q : List Token → Bool → Prop} {ticket : Ticket}
    (huses : ⟨self, handle, ticket⟩ ∈ tokens) (hQ : ∀ r, Q tokens r) :
    Holds Q tokens (setSession self handle ticket) :=
  holds_run.mpr ⟨List.cons_subset.mpr ⟨huses, List.nil_subset _⟩, hQ⟩

/-- A key is sent under the ticket of its handle. -/
theorem holds_callProcessKey {Q : List Token → Option (List IpcAction) → Prop} {ticket : Ticket}
    {key : RawKey} (huses : ⟨self, handle, ticket⟩ ∈ tokens) (hQ : ∀ r, Q tokens r) :
    Holds Q tokens (callProcessKey self handle ticket key) :=
  holds_run.mpr ⟨List.cons_subset.mpr ⟨huses, List.nil_subset _⟩, hQ⟩

/-- The session of a handle, as a key is about to use it: the ticket that the entry holds, or
the one of a session just created. -/
theorem holds_ensureDaemonSession {Q : List Token → Except ProcessKeyError Ticket → Prop}
    (hok : ∀ tokens' ticket, ⟨self, handle, ticket⟩ ∈ tokens' → Q tokens' (.ok ticket))
    (herror : ∀ tokens' e, Q tokens' (.error e)) :
    Holds Q tokens (ensureDaemonSession self handle) := by
  unfold ensureDaemonSession
  refine knows_bind.mpr (holds_getEntry (fun entry => ?_) (herror _ _))
  refine knows_ite.mpr ⟨fun hid => ?_, fun _ => ?_⟩
  · exact hok _ _ (List.mem_append_left _ (mem_held hid))
  refine knows_bind.mpr (holds_tryCreate (fun ticket => ?_) ?_)
  · refine knows_bind.mpr (holds_setSession List.mem_cons_self fun found => ?_)
    -- A thread whose handle is gone panics, and uses nothing any more.
    exact knows_ite.mpr ⟨fun _ => hok _ _ List.mem_cons_self, fun _ => trivial⟩
  · exact knows_bind.mpr (holds_markFailed (herror _ _))

/-- A new session in place of one that is not known: the ticket of the daemon is for the handle
that asks. -/
theorem holds_recreateDaemonSession {Q : List Token → Option Ticket → Prop}
    (hsome : ∀ tokens' ticket, ⟨self, handle, ticket⟩ ∈ tokens' → Q tokens' (some ticket))
    (hnone : ∀ tokens', Q tokens' none) :
    Holds Q tokens (recreateDaemonSession self handle) := by
  unfold recreateDaemonSession
  refine knows_bind.mpr (holds_getEntry (fun entry => ?_) (hnone _))
  refine knows_bind.mpr (holds_tryCreate (fun ticket => ?_) (hnone _))
  exact knows_bind.mpr (holds_setSession List.mem_cons_self fun _ =>
    hsome _ _ List.mem_cons_self)

/-- The program of a key. It uses the ticket of its own handle, and when the daemon does not
know the session it retries once, with the ticket of a new one. -/
theorem holds_processKey (key : RawKey) :
    Holds (fun _ _ => True) tokens (processKey self handle key) := by
  unfold processKey
  refine knows_bind.mpr (holds_inCooldown.mpr fun cooldown => ?_)
  refine knows_ite.mpr ⟨fun _ => trivial, fun _ => ?_⟩
  refine knows_bind.mpr (holds_ensureDaemonSession (fun tokens ticket hticket => ?_) fun _ _ =>
    trivial)
  refine knows_bind.mpr (holds_callProcessKey hticket fun answer => ?_)
  cases answer with
  | none => exact knows_bind.mpr (holds_markFailed trivial)
  | some actions =>
      refine knows_ite.mpr ⟨fun _ => ?_, fun _ => ?_⟩
      · -- The session was unknown. The retry uses the ticket of the new one.
        refine knows_bind.mpr (holds_recreateDaemonSession (fun tokens ticket hticket => ?_)
          fun _ => knows_bind.mpr (holds_markFailed trivial))
        refine knows_bind.mpr (holds_callProcessKey hticket fun answer => ?_)
        cases answer with
        | none => exact knows_bind.mpr (holds_markFailed trivial)
        | some actions => exact knows_bind.mpr (holds_markRecovered trivial)
      · exact knows_bind.mpr (holds_markRecovered trivial)

/-- The program of a new handle. In a cooldown it inserts an entry without a session, and
otherwise tries to create one. -/
theorem holds_createHandle (appId : Utf8.Str) :
    Holds (fun _ _ => True) tokens (createHandle self appId) := by
  unfold createHandle
  refine knows_bind.mpr ((holds_run_of_nil rfl fun _ => rfl).mpr fun handle => ?_)
  refine knows_bind.mpr (holds_inCooldown.mpr fun cooldown => ?_)
  -- The entry is inserted with the new ticket, or with none.
  have hinsert : ∀ tokens' ticket, held self handle ticket ⊆ tokens' →
      Holds (fun _ _ => True) tokens'
        (do
          Op.run (.insertEntry self handle ⟨appId, ticket⟩)
          pure handle) := fun tokens' ticket huses =>
    knows_bind.mpr (holds_run.mpr ⟨huses, fun _ => trivial⟩)
  have hunset : ∀ tokens', held self handle Ticket.unset ⊆ tokens' := fun tokens' =>
    List.nil_subset _
  refine knows_bind.mpr ?_
  refine knows_ite.mpr ⟨fun _ => (knows_pure _).mpr (hinsert _ _ (hunset _)), fun _ => ?_⟩
  refine knows_bind.mpr (holds_tryCreate (fun ticket => hinsert _ _ ?_) ?_)
  · unfold held
    split
    · exact List.cons_subset.mpr ⟨List.mem_cons_self, List.nil_subset _⟩
    · exact List.nil_subset _
  · exact knows_bind.mpr (holds_markFailed (hinsert _ _ (hunset _)))

/-- The program that destroys one. To remove the entry and to destroy its session is no use of a
ticket. -/
theorem holds_destroyHandle : Holds (fun _ _ => True) tokens (destroyHandle self handle) := by
  unfold destroyHandle
  refine knows_bind.mpr ((holds_run_of_nil rfl fun _ => rfl).mpr fun entry => ?_)
  cases entry with
  | none => trivial
  | some entry =>
      refine knows_ite.mpr ⟨fun _ => ?_, fun _ => trivial⟩
      refine knows_bind.mpr (holds_inCooldown.mpr fun cooldown => ?_)
      refine knows_ite.mpr ⟨fun _ => trivial, fun _ => ?_⟩
      exact knows_bind.mpr ((holds_run_of_nil rfl fun _ => rfl).mpr fun _ => trivial)

/-- The probe of the monitor makes a session for itself and destroys it. No handle gets to know
its ticket. -/
theorem holds_probe : Holds (fun _ _ => True) tokens (probe self) := by
  unfold probe
  refine knows_bind.mpr ((holds_run_of_nil rfl fun _ => rfl).mpr fun ticket => ?_)
  cases ticket with
  | none => exact (holds_run_of_nil rfl fun _ => rfl).mpr fun _ => trivial
  | some ticket =>
      refine knows_bind.mpr ((holds_run_of_nil rfl fun _ => rfl).mpr fun _ => ?_)
      exact holds_markRecovered trivial

/-- A program uses only tickets that it was handed. -/
theorem program_knows (request : Request) : Holds (fun _ _ => True) [] (program request) := by
  cases request with
  | createHandle c appId =>
      exact knows_bind.mpr (holds_createHandle appId)
  | destroyHandle c handle => exact knows_bind.mpr holds_destroyHandle
  | processKey c handle key => exact knows_bind.mpr (holds_processKey key)
  | probe c => exact knows_bind.mpr holds_probe

end Programs

/-! ### The operations -/

/-- The next id is a new one, as long as the ids do not run out. -/
theorem lt_succ_of_ne_max {n : SessionId} (h : n ≠ 0xFFFFFFFF) : n < n + 1 := by
  have hne : n.toNat ≠ 0xFFFFFFFF := fun heq => h (UInt32.toNat_inj.mp heq)
  have hlt := n.toNat_lt
  rw [UInt32.lt_iff_toNat_lt, UInt32.toNat_add]
  simp only [UInt32.reduceToNat]
  omega

/-- A key issues no id, whether or not the session is known. -/
theorem nextId_processKey [DictionaryProvider δ] [EucJp] {daemon daemon' : SessionManager δ}
    {id : SessionId} {key : RawKey} {actions : List IpcAction}
    (h : daemon.processKey id key = .ok (daemon', actions)) : daemon'.nextId = daemon.nextId := by
  unfold SessionManager.processKey at h
  split at h
  · cases h
    rfl
  · rename_i engine _
    cases hstep : { engine with dict := daemon.dict }.processKey (keyEventFromRaw key) with
    | error e => rw [hstep] at h; cases h
    | ok r => rw [hstep] at h; cases h; rfl

variable {w w' : World δ} {client : ClientId}

/-- Editing a client issues no id; the invariant is about the entries it has afterwards, and
those of the other clients are untouched. -/
theorem Inv.edit (h : w.Inv) {f : Client → Client}
    (hf : ∀ handle entry, (f (w.clients client)).sessions.get? handle = some entry →
      ∀ token ∈ held client handle entry.daemonSessionId, w.Valid token) :
    (w.edit client f).Inv := by
  intro client' handle entry hentry
  by_cases hclient : client' = client
  · subst hclient
    have hstate : (w.edit client' f).clients client' = f (w.clients client') :=
      Function.update_self ..
    rw [hstate] at hentry
    exact hf handle entry hentry
  · have hstate : (w.edit client f).clients client' = w.clients client' :=
      Function.update_of_ne hclient ..
    rw [hstate] at hentry
    exact h client' handle entry hentry

/-- Editing a client's entries only by dropping some. -/
theorem Inv.edit_of_imp (h : w.Inv) {f : Client → Client}
    (hf : ∀ handle entry, (f (w.clients client)).sessions.get? handle = some entry →
      (w.clients client).sessions.get? handle = some entry) : (w.edit client f).Inv :=
  h.edit fun handle entry hentry => h client handle entry (hf handle entry hentry)

/-- A step of the daemon under which valid tickets stay valid. -/
theorem Inv.of_valid (h : w.Inv) (hclients : w'.clients = w.clients)
    (hvalid : ∀ token, w.Valid token → w'.Valid token) : w'.Inv := by
  intro client handle entry hentry token htoken
  rw [hclients] at hentry
  exact hvalid token (h client handle entry hentry token htoken)

/-- An entry may get a valid ticket. Its other fields and the other entries stay as they are. -/
theorem Inv.setSession (h : w.Inv) {handle : LocalHandle} {ticket : Ticket}
    (hticket : w.Valid ⟨client, handle, ticket⟩) :
    (w.edit client fun s => s.setSession handle ticket).Inv := by
  refine h.edit fun handle' entry hentry => ?_
  unfold Client.setSession at hentry
  split at hentry
  · rename_i old hold
    rw [OrdMap.get?_insert] at hentry
    split at hentry
    · rename_i heq
      cases hentry
      intro token htoken
      -- The new entry holds the token that was set, if its id is not 0.
      unfold held at htoken
      split at htoken
      · rw [List.mem_singleton.mp htoken, heq]
        exact hticket
      · cases htoken
    · exact h client handle' entry hentry
  · exact h client handle' entry hentry

/-- What an operation does with tickets: the invariant holds afterwards, valid tokens stay
valid, the reply hands out valid ones, and a key reaches an engine of its handle. -/
structure Kept (w : World δ) (o : Op) (r : Reply o × World δ × List Applied) : Prop where
  inv : r.2.1.Inv
  valid : ∀ token, w.Valid token → r.2.1.Valid token
  learned : ∀ token ∈ learns o r.1, r.2.1.Valid token
  own : ∀ applied ∈ r.2.2, Own applied

/-- An operation on a client that hands out no ticket. -/
theorem Kept.edit {o : Op} {reply : Reply o} {f : Client → Client}
    (hinv : (w.edit client f).Inv) (hlearns : learns o reply = []) :
    w.Kept o (reply, w.edit client f, []) where
  inv := hinv
  valid := fun _ h => h
  learned := fun token h => by rw [hlearns] at h; cases h
  own := fun _ h => by cases h

/-- An operation that changes nothing. -/
theorem Kept.same {o : Op} {reply : Reply o} (h : w.Inv)
    (hlearns : ∀ token ∈ learns o reply, w.Valid token) : w.Kept o (reply, w, []) where
  inv := h
  valid := fun _ h => h
  learned := hlearns
  own := fun _ h => by cases h

/-- A call that changes the sessions of the daemon, but issues no id: every ticket that was
valid still is, and nothing new is learned. -/
theorem Kept.daemon {o : Op} {reply : Reply o} {daemon : SessionManager δ} {out : List Applied}
    (h : w.Inv) (hnext : daemon.nextId = w.daemon.nextId) (hlearns : learns o reply = [])
    (hown : ∀ applied ∈ out, Own applied) : w.Kept o (reply, { w with daemon := daemon }, out) where
  inv := h.of_valid rfl fun _ htoken => by
    rw [Valid, hnext]
    exact htoken
  valid := fun _ htoken => by
    rw [Valid, hnext]
    exact htoken
  learned := fun token h => by rw [hlearns] at h; cases h
  own := hown

variable [DictionaryProvider δ]

/-- A new session takes the next id, which no ticket of the running daemon has, unless the ids
have run out. -/
theorem createSession_valid (owner : Option (ClientId × LocalHandle)) (appId : Utf8.Str)
    (hroom : w.daemon.nextId ≠ 0xFFFFFFFF) (token : Token) (h : w.Valid token) :
    (w.createSession owner appId).1.Valid token := by
  refine ⟨h.1, fun hboot => ?_⟩
  -- The id of the token is below the next one, so another session is not in its way.
  obtain ⟨hlt, hfor⟩ := h.2 hboot
  refine ⟨UInt32.lt_trans hlt (lt_succ_of_ne_max hroom), ?_⟩
  exact (Function.update_of_ne (UInt32.ne_of_lt hlt) ..).trans hfor

/-- And the session is the one of its owner. -/
theorem createSession_valid_new {handle : LocalHandle} (appId : Utf8.Str)
    (hroom : w.daemon.nextId ≠ 0xFFFFFFFF) :
    (w.createSession (some (client, handle)) appId).1.Valid
      ⟨client, handle, (w.createSession (some (client, handle)) appId).2⟩ :=
  ⟨Nat.le_refl _, fun _ => ⟨lt_succ_of_ne_max hroom, Function.update_self ..⟩⟩

/-- A call to `create_session`: the reply may get lost, and then the session is in nobody's
entry. -/
theorem kept_createSession {c : ClientId} {owner : Option LocalHandle} {appId : Utf8.Str}
    (h : w.Inv) (hroom : w.daemon.nextId ≠ 0xFFFFFFFF) (delivery : Delivery) :
    w.Kept (.createSession c owner appId)
      (delivery.reply (w.createSession (owner.map fun handle => (c, handle)) appId).2,
        (w.createSession (owner.map fun handle => (c, handle)) appId).1, []) where
  -- The entries are as they were, and no valid ticket has the new id.
  inv := h.of_valid rfl fun token => createSession_valid _ appId hroom token
  valid := fun token => createSession_valid _ appId hroom token
  learned := by
    intro token htoken
    unfold Delivery.reply at htoken
    cases owner with
    | none => split at htoken <;> cases htoken
    | some handle =>
        split at htoken
        · rw [List.mem_singleton.mp htoken]
          exact createSession_valid_new appId hroom
        · cases htoken
  own := fun _ h => by cases h

/-- A key: an unknown session answers nothing, and a known one belongs to the handle when the
ticket is current. -/
theorem kept_processKey [EucJp] {c : ClientId} {handle : LocalHandle} {ticket : Ticket}
    {key : RawKey} (h : w.Inv) (hticket : w.Valid ⟨c, handle, ticket⟩)
    (hcurrent : ticket.boot = w.boot ∨ w.knows ticket.id = false) (delivery : Delivery) :
    w.Kept (.processKey c handle ticket key)
      (exec delivery w (.processKey c handle ticket key)) := by
  have hown : ∀ applied ∈ (if w.knows ticket.id then
      [(⟨c, handle, w.createdFor ticket.id⟩ : Applied)] else []), Own applied := by
    intro applied happlied
    split at happlied
    · rename_i hknown
      rw [List.mem_singleton.mp happlied]
      -- A current ticket names an engine of the handle; an old one names none at all.
      rcases hcurrent with hboot | hunknown
      · exact (hticket.2 hboot).2
      · rw [hunknown] at hknown
        cases hknown
    · cases happlied
  unfold exec
  split
  · exact .same h fun _ htoken => by cases htoken
  · dsimp only
    split
    · rename_i daemon actions hprocess
      exact .daemon h (nextId_processKey hprocess) rfl hown
    · exact .daemon h rfl rfl hown

/-- What the operations do with tickets, one case for each. Those that send or store a ticket
are given a valid one, and those that learn one learn a valid one. -/
theorem exec_kept [EucJp] (delivery : Delivery) (h : w.Inv) (o : Op)
    (huses : ∀ token ∈ uses o, w.Valid token) (hok : w.sendsCurrent o) :
    w.Kept o (exec delivery w o) := by
  cases o with
  | nextHandle c => exact .edit (h.edit_of_imp fun _ _ hentry => hentry) rfl
  | inCooldown c => exact .same h fun _ htoken => by cases htoken
  | recordFailure c => exact .edit (h.edit_of_imp fun _ _ hentry => hentry) rfl
  | invalidateSessions c =>
      refine .edit (h.edit fun handle entry hentry => ?_) rfl
      -- An entry without a session holds no token.
      rw [Client.invalidateSessions, OrdMap.get?_mapValues] at hentry
      obtain ⟨old, -, rfl⟩ := Option.map_eq_some_iff.mp hentry
      intro token htoken
      cases htoken
  | markRecovered c => exact .edit (h.edit_of_imp fun _ _ hentry => hentry) rfl
  | getEntry c handle =>
      refine .same h fun token htoken => ?_
      cases hentry : (w.clients c).sessions.get? handle with
      | none => rw [hentry] at htoken; cases htoken
      | some entry => rw [hentry] at htoken; exact h c handle entry hentry token htoken
  | insertEntry c handle entry =>
      refine .edit (h.edit fun handle' entry' hentry => ?_) rfl
      rw [OrdMap.get?_insert] at hentry
      split at hentry
      · rename_i heq
        cases hentry
        rw [heq]
        exact huses
      · exact h c handle' entry' hentry
  | removeEntry c handle =>
      refine .edit (h.edit_of_imp fun handle' entry hentry => ?_) rfl
      rw [OrdMap.get?_erase] at hentry
      split at hentry
      · cases hentry
      · exact hentry
  | setSession c handle ticket =>
      exact .edit (h.setSession (huses _ (List.mem_singleton_self _))) rfl
  | createSession c owner appId =>
      unfold exec
      split
      · exact .same h fun _ htoken => by cases owner <;> cases htoken
      · exact kept_createSession h hok delivery
  | destroySession c ticket =>
      unfold exec
      split
      · exact .same h fun _ htoken => by cases htoken
      · exact .daemon h rfl rfl fun _ happlied => by cases happlied
  | processKey c handle ticket key =>
      exact kept_processKey h (huses _ (List.mem_singleton_self _)) hok delivery

/-- The discipline of tickets: the programs use only what they know, the operations keep the
invariant, and so do time and the restarts of the daemon. -/
theorem machine_sound [EucJp] :
    (machine : Machine Op Reply (World δ) Request Delivery (Event δ) Applied).Sound uses learns
      Inv Valid sendsCurrent Own where
  body := program_knows
  exec delivery w o h huses hok :=
    have hkept := exec_kept delivery h o huses hok
    ⟨hkept.inv, hkept.valid, hkept.learned, hkept.own⟩
  env input w h := by
    cases input with
    | tick ms => exact ⟨h, fun _ htoken => htoken⟩
    | restart settings =>
        -- Every ticket is of a previous daemon now.
        have hvalid : ∀ token, w.Valid token →
            (happen (.restart settings) w).Valid token := fun token htoken =>
          ⟨Nat.le_succ_of_le htoken.1, fun hboot =>
            absurd (hboot ▸ htoken.1) (Nat.not_succ_le_self _)⟩
        exact ⟨h.of_valid rfl hvalid, hvalid⟩

/-- In every run in which no key is sent under an id that was issued before the daemon's last
restart and that the running daemon knows, every key that reaches an engine reaches one that was
created for its handle. The run is any interleaving of any number of clients and threads, with
restarts of the daemon and lost calls. -/
theorem isolated_of_run [EucJp] {settings : Settings δ}
    {history : List (Visit (Pool Op Reply (World δ)) (Input Request Delivery (Event δ)) Applied)}
    {pool : Pool Op Reply (World δ)} (hrun : machine.Interleaving (start settings) history pool)
    (hok : ∀ v ∈ history, v.pre.Allows sendsCurrent v.input) :
    ∀ applied ∈ outputs history, Own applied :=
  machine_sound.outputs (fun _ _ _ hentry => by cases hentry) hrun hok

/-! ### Who wakes up first -/

/-- The settings of a daemon without dictionaries. -/
def plainSettings : Settings Empty where
  kanaTable := SkkEngine.vowelTable
  keybindings := {}
  initialPhase := .hiragana
  providers := []
  indicatorTimeoutMs := 0
  lispDirectives := true

/-- A thread performs `n` operations; no call gets lost. -/
def performs (thread n : Nat) : List (Input Request Delivery (Event Empty)) :=
  List.replicate n (.perform thread .replied)

/-- Two handles are created and the daemon restarts. Then a key is typed for each handle. -/
def wakeUp (first second : LocalHandle) (last : Nat) :
    List (Input Request Delivery (Event Empty)) :=
  .spawn (.createHandle 0 []) :: performs 0 4 ++ .spawn (.createHandle 0 []) :: performs 1 4
    ++ .env (.restart plainSettings)
    :: .spawn (.processKey 0 first ⟨0x61, 0, true⟩) :: performs 2 8
    ++ .spawn (.processKey 0 second ⟨0x61, 0, true⟩) :: performs 3 last

/-- Clients of a daemon without dictionaries. -/
abbrev plainMachine [EucJp] :
    Machine Op Reply (World Empty) Request Delivery (Event Empty) Applied :=
  machine

/-- The second handle wakes up first and gets the id 1 of the first one, whose key then
reaches its engine. -/
theorem key_reaches_other_handle :
    letI := EucJp.empty
    ∃ history pool, plainMachine.Interleaving (start plainSettings) history pool ∧
      history.map Visit.input = wakeUp 2 1 4 ∧
      ∃ applied ∈ outputs history, applied.handle = 1 ∧ applied.createdFor = some (0, 2) ∧
        ¬ Own applied := by
  let _ := EucJp.empty
  have happlied : (⟨0, 1, some (0, 2)⟩ : Applied) ∈
      outputs (trace plainMachine.step ⟨start plainSettings, []⟩ (wakeUp 2 1 4)).1 := by
    decide +kernel
  exact ⟨_, _, run_trace _ _ (wakeUp 2 1 4), map_input_trace _ _ _, _, happlied, rfl, rfl,
    by decide⟩

/-- The first handle wakes up first: both handles get their old ids back, and each key is served
by the session of its own handle. -/
theorem isolated_of_run_in_order :
    letI := EucJp.empty
    ∃ history pool, plainMachine.Interleaving (start plainSettings) history pool ∧
      outputs history = [⟨0, 1, some (0, 1)⟩, ⟨0, 2, some (0, 2)⟩] ∧
      ∀ applied ∈ outputs history, Own applied := by
  let _ := EucJp.empty
  have hrun := run_trace plainMachine.step ⟨start plainSettings, []⟩ (wakeUp 1 2 8)
  have hok : ∀ v ∈ (trace plainMachine.step ⟨start plainSettings, []⟩ (wakeUp 1 2 8)).1,
      v.pre.Allows sendsCurrent v.input := by decide +kernel
  exact ⟨_, _, hrun, by decide +kernel, isolated_of_run hrun hok⟩

end World

end Y2Skk
