import ContextVM.Transport.Server.Initialized
import ContextVM.Transport.Server.Isolation

/-!
# A client does not notice the others

The clients of a server share its two maps, its cleanup and its calls.  Take a run, let all
clients but one be silent, and leave everything else that comes from outside as it is: the
calls of the consumer, the ticks and the clock.  What is left is a run too, and in it the one
client has sent and got the same messages, in the same order.

The condition is that no other client uses the event id of one of the client's requests, as an
event id or as a progress token; such a client can take the answer, or have the route deleted.
-/

namespace ContextVM.Server

open Lib NostrServerTransport
open Symbolic (toolCall emptyResponse initialized)

variable {S : Sdk} {server : NostrServerTransport S}

/-! ## What a client has to do with -/

/-- The message is of the client, or goes to it. -/
def Obs.concerns (c : String) : Obs S → Bool
  | .forwarded _ r => decide (r.clientPubkey = c)
  | .responded _ _ p | .notified _ p => decide (S.toHex p.recipient = c)
  | _ => false

/-- The messages of the client and those that went to it, newest first. -/
def seenBy (c : String) (log : List (Obs S)) : List (Obs S) := log.filter (Obs.concerns c)

/-- What comes from outside.  The steps of the calls are taken by the server itself. -/
def Action.isInput : Action S → Bool
  | .resume .. | .snapshot .. => false
  | _ => true

/-- What comes from outside when the other clients are silent. -/
def Action.remains (server : NostrServerTransport S) (c : String) : Action S → Bool
  | .receive event =>
    match server.accept event with
    | .ok r => decide (r.clientPubkey = c)
    | .error _ => false
  | a => a.isInput

/-- The clients of a snapshot, as far as they are the client. -/
def only (c : String) (clients : List String) : List String :=
  clients.filter fun c' ↦ decide (c' = c)

/-- A broadcast finds the client alone. -/
def Action.narrow (c : String) : Action S → Action S
  | .snapshot i clients => .snapshot i (only c clients)
  | a => a

/-- The other clients use no event id of the client's requests. -/
def KeepsOff (c : String) (rs : List IncomingRequest) : Prop :=
  ∀ k, SentRequest c k rs → ∀ c', c' ≠ c → ¬ SentRequest c' k rs ∧ ¬ SentToken c' k rs

/-- The string names another client, whose messages do not go to the client. -/
def Apart (S : Sdk) (c c' : String) : Prop :=
  c' ≠ c ∧ ∀ key, S.fromHex c' = .ok key → S.toHex key ≠ c

/-- What the maps hold for other clients.  The event ids of the client's requests are those in
`own`. -/
structure Foreign (own : String → Prop) (c : String) (s : State S) : Prop where
  owned : ∀ e, s.eventToClient.lookup e = some c → own e
  route : ∀ e c', s.eventToClient.lookup e = some c' → c' ≠ c → Apart S c c' ∧ ¬ own e
  session : ∀ c' session, s.sessions.lookup c' = some session → c' ≠ c →
    Apart S c c' ∧ ∀ k ∈ session.trackedKeys, ¬ own k

theorem keepsOff_iff {c : String} {rs : List IncomingRequest} :
    KeepsOff c rs ↔ ∀ r ∈ rs, ∀ r' ∈ rs, r.clientPubkey = c → r.message.isRequest = true →
      r'.clientPubkey ≠ c → (r'.message.isRequest = true → r'.eventId ≠ r.eventId) ∧
        r'.progressToken ≠ some r.eventId := by
  constructor
  · intro h r hr r' hr' hc hreq hc'
    obtain ⟨hrequest, htoken⟩ := h r.eventId ⟨r, hr, hc, hreq, rfl⟩ r'.clientPubkey hc'
    exact ⟨fun hreq' hid ↦ hrequest ⟨r', hr', rfl, hreq', hid⟩, fun ht ↦ htoken ⟨r', hr', rfl, ht⟩⟩
  · rintro h k ⟨r, hr, hc, hreq, rfl⟩ c' hc'
    constructor
    · rintro ⟨r', hr', rfl, hreq', hid⟩
      exact (h r hr r' hr' hc hreq hc').1 hreq' hid
    · rintro ⟨r', hr', rfl, ht⟩
      exact (h r hr r' hr' hc hreq hc').2 ht

theorem SentRequest.mono {c k : String} {rs rs' : List IncomingRequest} (hsub : rs ⊆ rs')
    (h : SentRequest c k rs) : SentRequest c k rs' := by
  obtain ⟨r, hr, hrest⟩ := h
  exact ⟨r, hsub hr, hrest⟩

theorem SentToken.mono {c k : String} {rs rs' : List IncomingRequest} (hsub : rs ⊆ rs')
    (h : SentToken c k rs) : SentToken c k rs' := by
  obtain ⟨r, hr, hrest⟩ := h
  exact ⟨r, hsub hr, hrest⟩

theorem Reachable.apart (hS : S.Lawful) {s : State S} (hs : Reachable server s)
    {r : IncomingRequest} (hr : r ∈ requests s.log) {c : String} (hc : r.clientPubkey ≠ c) :
    Apart S c r.clientPubkey :=
  ⟨hc, fun _ hkey heq ↦ hc ((hs.toHex_of_fromHex hS hr hkey).symm.trans heq)⟩

/-- What the maps hold comes from the messages that have been accepted so far. -/
theorem Reachable.foreign (hS : S.Lawful) {s : State S} (hs : Reachable server s) {c : String}
    {rs : List IncomingRequest} (hsub : requests s.log ⊆ rs) (hoff : KeepsOff c rs) :
    Foreign (fun k ↦ SentRequest c k rs) c s := by
  have hroute : ∀ e c', s.eventToClient.lookup e = some c' →
      ∃ r ∈ requests s.log, r.clientPubkey = c' ∧ SentRequest c' e rs := by
    intro e c' hl
    obtain ⟨r, hlast, rfl⟩ := hs.route_latest e c' hl
    obtain ⟨hr, hreq, hid⟩ := lastRequest_eq_some hlast
    exact ⟨r, hr, rfl, r, hsub hr, rfl, hreq, hid⟩
  constructor
  · intro e hl
    obtain ⟨-, -, -, hsent⟩ := hroute e c hl
    exact hsent
  · intro e c' hl hc
    obtain ⟨r, hr, rfl, hsent⟩ := hroute e c' hl
    exact ⟨hs.apart hS hr hc, fun hown ↦ (hoff e hown _ hc).1 hsent⟩
  · intro c' session hl hc
    obtain ⟨r, hlast, -⟩ := hs.session_mirrors c' session hl
    obtain ⟨hr, rfl⟩ := lastFrom_eq_some hlast
    have hkeys := hs.sessionKeys _ session hl
    refine ⟨hs.apart hS hr hc, fun k hk hown ↦ ?_⟩
    rcases ClientSession.mem_trackedKeys.1 hk with hp | ht
    · obtain ⟨v, hv⟩ := Option.isSome_iff_exists.1 (AList.lookup_isSome.2 hp)
      rcases hkeys.pending k v hv with hsent | htoken
      · exact (hoff k hown _ hc).1 (hsent.mono hsub)
      · exact (hoff k hown _ hc).2 (htoken.mono hsub)
    · obtain ⟨v, hv⟩ := Option.isSome_iff_exists.1 (AList.lookup_isSome.2 ht)
      exact (hoff k hown _ hc).1 ((hkeys.token k v hv).mono hsub)

/-! ## The state with the client alone -/

/-- The step is about another client. -/
def ResponseStep.IsApart (S : Sdk) (c : String) : ResponseStep → Prop
  | .findClient _ => False
  | .findSession _ c' | .publish _ c' _ | .cleanSession c' => Apart S c c'
  | .cleanRoute => True

/-- The call does the same with the client alone: it is about this client, or about no one yet. -/
def Task.IsShared (c : String) : Task → Prop
  | .response _ (.findSession _ c') | .response _ (.publish _ c' _)
  | .response _ (.cleanSession c') | .notification c' _ _ (.publish _) => c' = c
  | .broadcast .. => False
  | _ => True

/-- A call under way, and what there is of it with the client alone.  A call about another
client has failed there already, and a broadcast does not stop at the others. -/
inductive Shadow (S : Sdk) (own : String → Prop) (c : String) : Option Task → Option Task → Prop
  | idle : Shadow S own c none none
  | shared (task : Task) (h : task.IsShared c) : Shadow S own c (some task) (some task)
  | response (e : String) (next : ResponseStep) (he : ¬ own e) (h : next.IsApart S c) :
      Shadow S own c (some (.response e next)) none
  | notification (c' : String) (n : JsonRpcMessage) (correlated : Option String) (enc : Bool)
      (h : Apart S c c') :
      Shadow S own c (some (.notification c' n correlated (.publish enc))) none
  | broadcast (n : JsonRpcMessage) (clients : List String) :
      Shadow S own c (some (.broadcast n clients .findSession))
        (some (.broadcast n (only c clients) .findSession))
  | telling (n : JsonRpcMessage) (clients : List String) (enc : Bool) :
      Shadow S own c (some (.broadcast n (c :: clients) (.publish enc)))
        (some (.broadcast n (c :: only c clients) (.publish enc)))
  | tellingOther (n : JsonRpcMessage) (c' : String) (clients : List String) (enc : Bool)
      (h : Apart S c c') :
      Shadow S own c (some (.broadcast n (c' :: clients) (.publish enc)))
        (some (.broadcast n (only c clients) .findSession))

/-- The state `t` is `s` with the client alone. -/
structure Alone (own : String → Prop) (c : String) (s t : State S) : Prop where
  now : t.now = s.now
  calls : t.calls = s.calls
  sessions : ∀ c', t.sessions.lookup c' = if c' = c then s.sessions.lookup c else none
  routes : ∀ e c', t.eventToClient.lookup e = some c' ↔
    c' = c ∧ s.eventToClient.lookup e = some c
  tasks : ∀ i, Shadow S own c (s.tasks.lookup i) (t.tasks.lookup i)
  log : seenBy c t.log = seenBy c s.log

namespace Alone

variable {own : String → Prop} {c : String} {s t : State S}

theorem init : Alone own c (.init : State S) .init where
  now := rfl
  calls := rfl
  sessions c' := by
    split <;> rfl
  routes e c' := by
    show (∅ : Table String String).lookup e = _ ↔ _ ∧ (∅ : Table String String).lookup e = _
    simp
  tasks i := .idle
  log := rfl

/-! ### The steps of a call -/

theorem setTasks (h : Alone own c s t) {tasks tasks' : Table Nat Task} {log log' : List (Obs S)}
    (htasks : ∀ i, Shadow S own c (tasks.lookup i) (tasks'.lookup i))
    (hlog : seenBy c log' = seenBy c log) :
    Alone own c { s with tasks, log } { t with tasks := tasks', log := log' } :=
  ⟨h.now, h.calls, h.sessions, h.routes, htasks, hlog⟩

theorem observe (h : Alone own c s t) (o : Obs S) : Alone own c (s.observe o) (t.observe o) := by
  refine h.setTasks h.tasks ?_
  simp only [seenBy, List.filter_cons]
  split
  · exact congrArg (o :: ·) h.log
  · exact h.log

/-- What does not concern the client need not be known. -/
theorem observe_left (h : Alone own c s t) {o : Obs S} (ho : o.concerns c = false) :
    Alone own c (s.observe o) t := by
  refine h.setTasks h.tasks ?_
  rw [seenBy, seenBy, List.filter_cons_of_neg (by simp [ho])]
  exact h.log

theorem goto (h : Alone own c s t) {i : Nat} {task task' : Task}
    (hshadow : Shadow S own c (some task) (some task')) :
    Alone own c (s.goto i task) (t.goto i task') := by
  refine h.setTasks (fun j ↦ ?_) h.log
  rw [Table.lookup_insert_eq, Table.lookup_insert_eq]
  split
  · exact hshadow
  · exact h.tasks j

theorem goto_left (h : Alone own c s t) {i : Nat} {task : Task}
    (hshadow : Shadow S own c (some task) (t.tasks.lookup i)) :
    Alone own c (s.goto i task) t := by
  refine h.setTasks (fun j ↦ ?_) h.log
  rw [Table.lookup_insert_eq]
  split
  · next hj => exact hj ▸ hshadow
  · exact h.tasks j

theorem finish (h : Alone own c s t) (i : Nat) (result result' : Except Error Unit) :
    Alone own c (s.finish i result) (t.finish i result') := by
  refine h.setTasks (fun j ↦ ?_) h.log
  rw [Table.lookup_erase_eq, Table.lookup_erase_eq]
  split
  · exact .idle
  · exact h.tasks j

theorem finish_left (h : Alone own c s t) {i : Nat} (result : Except Error Unit)
    (ht : t.tasks.lookup i = none) : Alone own c (s.finish i result) t := by
  refine h.setTasks (fun j ↦ ?_) h.log
  rw [Table.lookup_erase_eq]
  split
  · next hj =>
      rw [hj, ht]
      exact .idle
  · exact h.tasks j

/-- A call goes on that has failed with the client alone. -/
theorem goto_finish (h : Alone own c s t) {i : Nat} {task : Task} (result : Except Error Unit)
    (hshadow : Shadow S own c (some task) none) :
    Alone own c (s.goto i task) (t.finish i result) := by
  refine h.setTasks (fun j ↦ ?_) h.log
  rw [Table.lookup_insert_eq, Table.lookup_erase_eq]
  split
  · exact hshadow
  · exact h.tasks j

theorem setSessions (h : Alone own c s t) {sessions sessions' : Table String ClientSession}
    (hsessions : ∀ c', sessions'.lookup c' = if c' = c then sessions.lookup c else none) :
    Alone own c { s with sessions } { t with sessions := sessions' } :=
  ⟨h.now, h.calls, hsessions, h.routes, h.tasks, h.log⟩

theorem setRoutes (h : Alone own c s t) {routes routes' : Table String String}
    (hroutes : ∀ e c', routes'.lookup e = some c' ↔ c' = c ∧ routes.lookup e = some c) :
    Alone own c { s with eventToClient := routes } { t with eventToClient := routes' } :=
  ⟨h.now, h.calls, h.sessions, hroutes, h.tasks, h.log⟩

/-! ### What is read of the maps -/

theorem lookup_session (h : Alone own c s t) : t.sessions.lookup c = s.sessions.lookup c := by
  rw [h.sessions, if_pos rfl]

theorem lookup_session_of_ne (h : Alone own c s t) {c' : String} (hc : c' ≠ c) :
    t.sessions.lookup c' = none := by
  rw [h.sessions, if_neg hc]

theorem lookup_route (h : Alone own c s t) {e : String} (he : s.eventToClient.lookup e = some c) :
    t.eventToClient.lookup e = some c :=
  (h.routes e c).2 ⟨rfl, he⟩

theorem lookup_route_of_ne (h : Alone own c s t) {e : String}
    (he : s.eventToClient.lookup e ≠ some c) : t.eventToClient.lookup e = none := by
  cases hl : t.eventToClient.lookup e with
  | none => rfl
  | some c' => exact absurd ((h.routes e c').1 hl).2 he

/-- A call reads nothing of the other clients, unless it is about one of them. -/
theorem resume_shared (h : Alone own c s t) (hf : Foreign own c s) {i : Nat} (amb : Ambient S)
    {task : Task} (hshared : task.IsShared c) :
    Option.Rel (Alone own c) (Server.resume server amb s i task)
      (Server.resume server amb t i task) := by
  cases task with
  | response e next =>
      cases next with
      | findClient response =>
          simp only [Server.resume, findClient]
          cases hl : s.eventToClient.lookup e with
          | none =>
              rw [h.lookup_route_of_ne (by simp [hl])]
              exact .some (h.finish i _ _)
          | some c' =>
              by_cases hc : c' = c
              · subst hc
                rw [h.lookup_route hl]
                exact .some ((h.observe _).goto (.shared _ rfl))
              · obtain ⟨hapart, hown⟩ := hf.route e c' hl hc
                rw [h.lookup_route_of_ne (by simp [hl, hc])]
                exact .some ((h.observe_left rfl).goto_finish _ (.response e _ hown hapart))
      | findSession response c' =>
          obtain rfl : c' = c := hshared
          simp only [Server.resume, responseSession, readSession, h.lookup_session]
          cases s.sessions.lookup c' with
          | none => exact .some (h.finish i _ _)
          | some session => exact .some ((h.observe _).goto (.shared _ rfl))
      | publish response c' enc =>
          obtain rfl : c' = c := hshared
          simp only [Server.resume]
          cases server.publishResponse amb e c' response enc with
          | ok p => exact .some ((h.observe _).goto (.shared _ rfl))
          | error err => exact .some (h.finish i _ _)
      | cleanSession c' =>
          obtain rfl : c' = c := hshared
          refine .some (Alone.goto (h.setSessions fun c'' ↦ ?_) (.shared _ trivial))
          rw [lookup_cleanSession, lookup_cleanSession, if_pos rfl, h.lookup_session]
          split
          · rfl
          · next hc => exact h.lookup_session_of_ne hc
      | cleanRoute =>
          refine .some (Alone.finish (h.setRoutes fun e' c' ↦ ?_) i _ _)
          rw [Table.lookup_erase_eq_some, Table.lookup_erase_eq_some, h.routes]
          tauto
  | notification c' n correlated next =>
      cases next with
      | findSession =>
          simp only [Server.resume, notificationSession, readSession]
          by_cases hc : c' = c
          · subst hc
            rw [h.lookup_session]
            cases s.sessions.lookup c' with
            | none => exact .some (h.finish i _ _)
            | some session => exact .some ((h.observe _).goto (.shared _ rfl))
          · rw [h.lookup_session_of_ne hc]
            cases hl : s.sessions.lookup c' with
            | none => exact .some (h.finish i _ _)
            | some session =>
                have hapart := (hf.session c' session hl hc).1
                exact .some ((h.observe_left rfl).goto_finish _ (.notification c' n _ _ hapart))
      | publish enc =>
          obtain rfl : c' = c := hshared
          simp only [Server.resume]
          cases server.publishNotification amb c' n correlated enc with
          | ok p => exact .some ((h.observe _).finish i _ _)
          | error err => exact .some (h.finish i _ _)
  | snapshot n => exact .none
  | broadcast n clients next => exact hshared.elim
  | clearSessions =>
      refine .some (Alone.goto (h.setSessions fun c' ↦ ?_) (.shared _ trivial))
      split <;> rfl
  | clearRoutes =>
      refine .some (Alone.finish (h.setRoutes fun e c' ↦ ?_) i _ _)
      rw [AList.lookup_empty]
      simp

/-- A response that is apart is published to another client. -/
theorem concerns_of_published {amb : Ambient S} {e c' : String} {response : JsonRpcMessage}
    {enc : Bool} {p : Publication S} (hc : Apart S c c')
    (hp : server.publishResponse amb e c' response enc = .ok p) (i : Nat) :
    (Obs.responded i e p).concerns c = false :=
  decide_eq_false (hc.2 _ (publishResponse_ok hp).2.1)

theorem concerns_of_notified {amb : Ambient S} {c' : String} {n : JsonRpcMessage}
    {correlated : Option String} {enc : Bool} {p : Publication S} (hc : Apart S c c')
    (hp : server.publishNotification amb c' n correlated enc = .ok p) (i : Nat) :
    (Obs.notified i p).concerns c = false :=
  decide_eq_false (hc.2 _ (publishNotification_ok hp).2.1)

/-- A step of a response to another client. -/
theorem resume_response (h : Alone own c s t) (hf : Foreign own c s) {i : Nat} {amb : Ambient S}
    {e : String} {next : ResponseStep} (he : ¬ own e) (hnext : next.IsApart S c)
    (ht : t.tasks.lookup i = none) {s' : State S}
    (hres : Server.resume server amb s i (.response e next) = some s') : Alone own c s' t := by
  have hgoto : ∀ {next' : ResponseStep}, next'.IsApart S c →
      Shadow S own c (some (.response e next')) (t.tasks.lookup i) := fun hnext' ↦
    ht ▸ .response e _ he hnext'
  cases next with
  | findClient response => exact hnext.elim
  | findSession response c' =>
      simp only [Server.resume] at hres
      split at hres
      · cases hres
        exact (h.observe_left rfl).goto_left (hgoto hnext)
      · cases hres
        exact h.finish_left _ ht
  | publish response c' enc =>
      simp only [Server.resume] at hres
      split at hres
      · next p hp =>
          cases hres
          exact (h.observe_left (concerns_of_published hnext hp i)).goto_left (hgoto hnext)
      · cases hres
        exact h.finish_left _ ht
  | cleanSession c' =>
      cases hres
      refine Alone.goto_left (h.setSessions fun c'' ↦ ?_) (hgoto trivial)
      rw [h.sessions, lookup_cleanSession, if_neg (Ne.symm hnext.1)]
  | cleanRoute =>
      cases hres
      refine Alone.finish_left (h.setRoutes fun e' c' ↦ ?_) _ ht
      rw [Table.lookup_erase_eq_some, h.routes]
      -- the route that goes is not one of the client's
      have hne : s.eventToClient.lookup e' = some c → e' ≠ e := by
        rintro hl rfl
        exact he (hf.owned _ hl)
      tauto

/-- A step of a notification to another client. -/
theorem resume_notification (h : Alone own c s t) {i : Nat} {amb : Ambient S} {c' : String}
    {n : JsonRpcMessage} {correlated : Option String} {enc : Bool} (hc : Apart S c c')
    (ht : t.tasks.lookup i = none) {s' : State S}
    (hres : Server.resume server amb s i (.notification c' n correlated (.publish enc)) = some s') :
    Alone own c s' t := by
  simp only [Server.resume] at hres
  split at hres
  · next p hp =>
      cases hres
      exact (h.observe_left (concerns_of_notified hc hp i)).finish_left _ ht
  · cases hres
    exact h.finish_left _ ht

theorem only_cons_self (clients : List String) : only c (c :: clients) = c :: only c clients :=
  List.filter_cons_of_pos (by simp)

theorem only_cons_of_ne {c' : String} (hc : c' ≠ c) (clients : List String) :
    only c (c' :: clients) = only c clients :=
  List.filter_cons_of_neg (by simp [hc])

/-- The next client of a broadcast is looked up.  If it is not the client, the broadcast stands
still. -/
theorem resume_broadcast (h : Alone own c s t) (hf : Foreign own c s) {i : Nat}
    {amb : Ambient S} {n : JsonRpcMessage} {clients : List String}
    (ht : t.tasks.lookup i = some (.broadcast n (only c clients) .findSession)) {s' : State S}
    (hres : Server.resume server amb s i (.broadcast n clients .findSession) = some s') :
    Alone own c s' t ∨ ∃ t', Server.resume server amb t i
      (.broadcast n (only c clients) .findSession) = some t' ∧ Alone own c s' t' := by
  cases clients with
  | nil =>
      cases hres
      exact .inr ⟨_, rfl, h.finish i _ _⟩
  | cons c' cs =>
      simp only [Server.resume, notificationSession, readSession] at hres
      by_cases hc : c' = c
      · subst hc
        rw [only_cons_self]
        simp only [Server.resume, notificationSession, readSession, h.lookup_session]
        cases hl : s.sessions.lookup c' with
        | none =>
            simp only [hl, Option.some.injEq] at hres
            subst hres
            exact .inr ⟨_, rfl, h.goto (.broadcast n cs)⟩
        | some session =>
            simp only [hl, Option.some.injEq] at hres
            subst hres
            exact .inr ⟨_, rfl, (h.observe _).goto (.telling n cs _)⟩
      · rw [only_cons_of_ne hc] at ht
        cases hl : s.sessions.lookup c' with
        | none =>
            simp only [hl, Option.some.injEq] at hres
            subst hres
            exact .inl (h.goto_left (ht ▸ .broadcast n cs))
        | some session =>
            simp only [hl, Option.some.injEq] at hres
            subst hres
            have hapart := (hf.session c' session hl hc).1
            exact .inl ((h.observe_left rfl).goto_left (ht ▸ .tellingOther n c' cs _ hapart))

/-- The client is told. -/
theorem resume_telling (h : Alone own c s t) {i : Nat} (amb : Ambient S) (n : JsonRpcMessage)
    (clients : List String) (enc : Bool) :
    Option.Rel (Alone own c)
      (Server.resume server amb s i (.broadcast n (c :: clients) (.publish enc)))
      (Server.resume server amb t i (.broadcast n (c :: only c clients) (.publish enc))) := by
  simp only [Server.resume]
  cases server.publishNotification amb c n none enc with
  | ok p => exact .some ((h.observe _).goto (.broadcast n clients))
  | error err => exact .some (h.goto (.broadcast n clients))

/-- Another client is told. -/
theorem resume_tellingOther (h : Alone own c s t) {i : Nat} {amb : Ambient S}
    {n : JsonRpcMessage} {c' : String} {clients : List String} {enc : Bool} (hc : Apart S c c')
    (ht : t.tasks.lookup i = some (.broadcast n (only c clients) .findSession)) {s' : State S}
    (hres : Server.resume server amb s i (.broadcast n (c' :: clients) (.publish enc)) = some s') :
    Alone own c s' t := by
  have hgoto : Shadow S own c (some (.broadcast n clients .findSession)) (t.tasks.lookup i) :=
    ht ▸ .broadcast n clients
  simp only [Server.resume] at hres
  split at hres
  · next p hp =>
      cases hres
      exact (h.observe_left (concerns_of_notified hc hp i)).goto_left hgoto
  · cases hres
    exact h.goto_left hgoto

/-- A step of a call is a step with the client alone, or nothing happens there. -/
theorem resume (h : Alone own c s t) (hf : Foreign own c s) {i : Nat} {amb : Ambient S}
    {s' : State S} (hstep : Server.step server s (.resume i amb) = some s') :
    Alone own c s' t ∨
      ∃ t', Server.step server t (.resume i amb) = some t' ∧ Alone own c s' t' := by
  obtain ⟨task, hs, hres⟩ := Option.bind_eq_some_iff.1 hstep
  have hshadow := h.tasks i
  rw [hs] at hshadow
  generalize ht : t.tasks.lookup i = shadow at hshadow
  have hrel : ∀ {task'}, shadow = some task' → Option.Rel (Alone own c) (some s')
      (Server.resume server amb t i task') →
      ∃ t', Server.step server t (.resume i amb) = some t' ∧ Alone own c s' t' := by
    intro task' hshadow' hrel
    generalize hres' : Server.resume server amb t i task' = o at hrel
    cases hrel with
    | some hrel =>
        exact ⟨_, Option.bind_eq_some_iff.2 ⟨task', ht.trans hshadow', hres'⟩, hrel⟩
  cases hshadow with
  | shared task hshared =>
      exact .inr (hrel rfl (hres ▸ h.resume_shared hf amb hshared))
  | response e next he hnext => exact .inl (h.resume_response hf he hnext ht hres)
  | notification c' n correlated enc hc => exact .inl (h.resume_notification hc ht hres)
  | broadcast n clients =>
      refine (h.resume_broadcast hf ht hres).imp id ?_
      rintro ⟨t', ht', halone⟩
      exact ⟨t', Option.bind_eq_some_iff.2 ⟨_, ht, ht'⟩, halone⟩
  | telling n clients enc => exact .inr (hrel rfl (hres ▸ h.resume_telling amb n clients enc))
  | tellingOther n c' clients enc hc => exact .inl (h.resume_tellingOther hc ht hres)

/-! ### The other steps -/

theorem track (h : Alone own c s t) (event : S.Event) {r : IncomingRequest}
    (hr : r.clientPubkey = c) : Alone own c (s.track event r) (t.track event r) := by
  have hseen := h.observe (.forwarded event r)
  refine ⟨h.now, h.calls, fun c' ↦ ?_, fun e c' ↦ ?_, h.tasks, hseen.log⟩
  · rw [State.lookup_sessions_track, State.lookup_sessions_track, hr, if_pos rfl, h.lookup_session,
      h.now]
    split
    · rfl
    · next hc => exact h.lookup_session_of_ne hc
  · rw [State.lookup_eventToClient_track, State.lookup_eventToClient_track, hr]
    split
    · simp [eq_comm]
    · exact h.routes e c'

/-- A message of another client changes nothing of what there is of this one. -/
theorem track_left (h : Alone own c s t) (hf : Foreign own c s) (event : S.Event)
    {r : IncomingRequest} (hr : r.clientPubkey ≠ c)
    (hown : r.message.isRequest = true → ¬ own r.eventId) : Alone own c (s.track event r) t := by
  have hseen : (Obs.forwarded event r).concerns c = false := decide_eq_false hr
  refine ⟨h.now, h.calls, fun c' ↦ ?_, fun e c' ↦ ?_, h.tasks, (h.observe_left hseen).log⟩
  · rw [State.lookup_sessions_track, if_neg (Ne.symm hr)]
    exact h.sessions c'
  · rw [State.lookup_eventToClient_track, h.routes]
    split
    · next hreq =>
        have hne : s.eventToClient.lookup e ≠ some c := fun hl ↦
          hown hreq.1 (hreq.2 ▸ hf.owned e hl)
        simp [hne, hr]
    · rfl

theorem call (h : Alone own c s t) (op : Operation) : Alone own c (s.call op) (t.call op) := by
  have hseen : (Obs.called s.calls op : Obs S).concerns c = false := rfl
  refine ⟨h.now, congrArg (· + 1) h.calls, h.sessions, h.routes, fun i ↦ ?_, ?_⟩
  · rw [State.lookup_call, State.lookup_call, h.calls]
    split
    · refine .shared _ ?_
      cases op <;> trivial
    · exact h.tasks i
  · show seenBy c (.called t.calls op :: t.log) = _
    rw [h.calls]
    exact (h.observe (.called s.calls op)).log

/-- A tick finds the session of the client as old as it is, and deletes no route of it with the
session of another. -/
theorem cleanup (h : Alone own c s t) (hf : Foreign own c s) :
    Alone own c (s.cleanup server) (t.cleanup server) := by
  refine ⟨h.now, h.calls, fun c' ↦ Option.ext fun session ↦ ?_, fun e c' ↦ ?_, h.tasks, h.log⟩
  · show (keptSessions t.now server.config.sessionTimeout t.sessions).lookup c' = some session ↔ _
    rw [lookup_keptSessions, h.sessions, h.now]
    split
    · exact lookup_keptSessions.symm
    · exact iff_of_false (nofun ∘ And.left) nofun
  · rw [State.lookup_eventToClient_cleanup_eq_some, State.lookup_eventToClient_cleanup_eq_some,
      h.routes, h.now]
    have hkeys : s.eventToClient.lookup e = some c →
        (e ∈ expiredKeys s.now server.config.sessionTimeout t.sessions ↔
          e ∈ expiredKeys s.now server.config.sessionTimeout s.sessions) := by
      intro hl
      rw [mem_expiredKeys, mem_expiredKeys]
      constructor
      · rintro ⟨c', session, hsession, hrest⟩
        rw [h.sessions, Option.ite_none_right_eq_some] at hsession
        exact ⟨c, session, hsession.2, hrest⟩
      · rintro ⟨c', session, hsession, hexp, hk⟩
        by_cases hc : c' = c
        · subst hc
          exact ⟨c', session, h.lookup_session.trans hsession, hexp, hk⟩
        · exact absurd (hf.owned e hl) ((hf.session c' session hsession hc).2 e hk)
    constructor
    · rintro ⟨hk, rfl, hl⟩
      exact ⟨rfl, fun hk' ↦ hk ((hkeys hl).2 hk'), hl⟩
    · rintro ⟨rfl, hk, hl⟩
      exact ⟨fun hk' ↦ hk ((hkeys hl).1 hk'), rfl, hl⟩

/-- The snapshot with the client alone is what the snapshot has of it. -/
theorem perm_only (h : Alone own c s t) {clients : List String}
    (hperm : clients.Perm (initializedClients s.sessions)) :
    (only c clients).Perm (initializedClients t.sessions) := by
  have hnodup := (hperm.nodup_iff.2 (nodup_initializedClients s.sessions)).filter
    fun c' ↦ decide (c' = c)
  refine (List.perm_ext_iff_of_nodup hnodup (nodup_initializedClients t.sessions)).2 fun c' ↦ ?_
  rw [mem_initializedClients, List.mem_filter, decide_eq_true_eq, hperm.mem_iff,
    mem_initializedClients, Initialized, Initialized, h.sessions]
  by_cases hc : c' = c
  · subst hc
    simp
  · simp [hc]

theorem snapshot (h : Alone own c s t) {i : Nat} {clients : List String} {s' : State S}
    (hstep : Server.step server s (.snapshot i clients) = some s') :
    ∃ t', Server.step server t (.snapshot i (only c clients)) = some t' ∧ Alone own c s' t' := by
  simp only [Server.step] at hstep
  split at hstep
  · next n hs =>
      simp only [Option.ite_none_right_eq_some, Option.some.injEq] at hstep
      obtain ⟨hperm, rfl⟩ := hstep
      have ht : t.tasks.lookup i = some (.snapshot n) := by
        have hshadow := h.tasks i
        rw [hs] at hshadow
        generalize t.tasks.lookup i = shadow at hshadow
        cases hshadow
        rfl
      have hobs : Alone own c (s.observe (.snapshot i clients))
        (t.observe (.snapshot i (only c clients))) := h.setTasks h.tasks h.log
      refine ⟨_, ?_, hobs.goto (.broadcast n clients)⟩
      simp only [Server.step, ht]
      exact if_pos (h.perm_only hperm)
  · cases hstep

end Alone

theorem Shadow.of_some {own : String → Prop} {c : String} {o : Option Task} {task' : Task}
    (h : Shadow S own c o (some task')) : ∃ task, o = some task ∧ task'.isClose = task.isClose := by
  cases h <;> exact ⟨_, rfl, rfl⟩

/-- The borrows that permit a call permit it with the client alone. -/
theorem Alone.admits {own : String → Prop} {c : String} {s t : State S} (h : Alone own c s t)
    {op : Operation} (hop : s.Admits op) : t.Admits op := by
  have hentry : ∀ i task', t.tasks.lookup i = some task' →
      ∃ task, s.tasks.lookup i = some task ∧ task'.isClose = task.isClose := fun i task' ht ↦
    (ht ▸ h.tasks i).of_some
  cases op with
  | close =>
      show t.tasks.keys = []
      rw [List.eq_nil_iff_forall_not_mem]
      intro i hi
      rw [← AList.mem_keys, ← AList.lookup_isSome, Option.isSome_iff_exists] at hi
      obtain ⟨task', ht⟩ := hi
      obtain ⟨task, hs, -⟩ := hentry i task' ht
      rw [hop.lookup_eq_none] at hs
      cases hs
  | _ =>
      intro e he
      obtain ⟨task, hs, hclose⟩ := hentry e.1 e.2 (AList.mem_lookup_iff.2 he)
      exact hclose.trans (hop.isClose_eq hs)

/-- What happens with the others there happens with the client alone, or nothing does. -/
theorem Alone.step {own : String → Prop} {c : String} {s s' t : State S} {a : Action S}
    (h : Alone own c s t) (hf : Foreign own c s) (hstep : Server.step server s a = some s')
    (hown : ∀ event r, a = .receive event → server.accept event = .ok r → r.clientPubkey ≠ c →
      r.message.isRequest = true → ¬ own r.eventId) :
    (a.remains server c = false ∧ Alone own c s' t) ∨
      ((a.narrow c).isInput = a.remains server c ∧
        ∃ t', Server.step server t (a.narrow c) = some t' ∧ Alone own c s' t') := by
  cases a with
  | receive event =>
      simp only [Server.step] at hstep
      simp only [Action.remains, Action.narrow, Server.step, Action.isInput]
      cases hacc : server.accept event with
      | error why =>
          simp only [hacc, Option.some.injEq] at hstep
          exact .inl ⟨rfl, hstep ▸ h⟩
      | ok r =>
          simp only [hacc, Option.some.injEq] at hstep
          subst hstep
          by_cases hr : r.clientPubkey = c
          · exact .inr ⟨(decide_eq_true hr).symm, _, rfl, h.track event hr⟩
          · exact .inl ⟨decide_eq_false hr, h.track_left hf event hr (hown event r rfl hacc hr)⟩
  | call op =>
      simp only [Server.step, Option.ite_none_right_eq_some, Option.some.injEq] at hstep
      obtain ⟨hop, rfl⟩ := hstep
      exact .inr ⟨rfl, t.call op, if_pos (h.admits hop), h.call op⟩
  | resume i amb => exact (h.resume hf hstep).imp (⟨rfl, ·⟩) (⟨rfl, ·⟩)
  | snapshot i clients => exact .inr ⟨rfl, h.snapshot hstep⟩
  | cleanup =>
      cases hstep
      exact .inr ⟨rfl, _, rfl, h.cleanup hf⟩
  | elapse d =>
      cases hstep
      exact .inr ⟨rfl, _, rfl, congrArg (· + d) h.now, h.calls, h.sessions, h.routes, h.tasks,
        h.log⟩

/-! ## The run with the client alone -/

theorem Action.narrow_of_remains {c : String} {a : Action S} (h : a.remains server c = true) :
    a.narrow c = a := by
  cases a <;> first | rfl | cases h

/-- Every step of a run starts from a reachable state, and its log is a part of the last. -/
theorem always_past {as : List (Action S)} {s : State S}
    (hrun : run (step server) .init as = some s) :
    Always (step server) (fun m a ↦ Reachable server m ∧
      ∀ m', step server m a = some m' → m'.log <:+ s.log) .init as := by
  refine Always.of_forall fun pre a post m has hpre ↦ ⟨⟨pre, hpre⟩, fun m' hm' ↦ ?_⟩
  obtain ⟨m₀, hm₀, hrest⟩ := (run_append_eq_some _).1 (has ▸ hrun)
  cases hpre.symm.trans hm₀
  obtain ⟨m₁, hm₁, hpost⟩ := (run_cons_eq_some _).1 hrest
  cases hm'.symm.trans hm₁
  exact run_log_suffix hpost

/-- A client that no other interferes with notices nothing of the others.  There is a run with
the inputs of the client alone, the calls, the ticks and the clock, by steps of the given run;
and in it the client has sent and got the same, and has the same session and routes. -/
theorem seen_alone (hS : S.Lawful) {c : String} {as : List (Action S)} {s : State S}
    (hrun : run (step server) .init as = some s) (hoff : KeepsOff c (requests s.log)) :
    ∃ bs t, run (step server) .init bs = some t ∧ bs.Sublist (as.map (Action.narrow c)) ∧
      bs.filter Action.isInput = as.filter (Action.remains server c) ∧
      seenBy c t.log = seenBy c s.log ∧ t.sessions.lookup c = s.sessions.lookup c ∧
      ∀ e, t.eventToClient.lookup e = some c ↔ s.eventToClient.lookup e = some c := by
  let own k := SentRequest c k (requests s.log)
  have hfollow : ∀ m t a m', Alone own c m t → (Reachable server m ∧
      ∀ m', step server m a = some m' → m'.log <:+ s.log) → step server m a = some m' →
      (a.remains server c = false ∧ Alone own c m' t) ∨
        ((a.narrow c).isInput = a.remains server c ∧
          ∃ t', step server t (a.narrow c) = some t' ∧ Alone own c m' t') := by
    rintro m t a m' h ⟨hm, hlog⟩ hstep
    have hsuf := (step_transition hstep).log_suffix.trans (hlog m' hstep)
    have hforeign : Foreign own c m :=
      hm.foreign hS (fun r hr ↦ mem_requests_of_suffix hsuf hr) hoff
    refine h.step hforeign hstep ?_
    rintro event r rfl hacc hr hreq hsent
    have hmem : r ∈ requests m'.log := by
      simp only [step, hacc, Option.some.injEq] at hstep
      exact hstep ▸ List.mem_cons_self
    have hsent' : SentRequest r.clientPubkey r.eventId (requests s.log) :=
      ⟨r, mem_requests_of_suffix (hlog m' hstep) hmem, rfl, hreq, rfl⟩
    exact (hoff _ hsent _ hr).1 hsent'
  obtain ⟨bs, t, hbs, halone, hsub, hinputs⟩ := run_thins (Action.narrow c) Action.isInput
    (Action.remains server c) hfollow .init (always_past hrun) hrun
  refine ⟨bs, t, hbs, hsub, ?_, halone.log, halone.lookup_session, fun e ↦ ?_⟩
  · rw [hinputs]
    refine (List.map_congr_left fun a ha ↦ ?_).trans (List.map_id _)
    exact Action.narrow_of_remains (List.mem_filter.1 ha).2
  · exact (halone.routes e c).trans (and_iff_right rfl)

/-- Two clients at once: a request of each, and a broadcast. -/
def crowdedRun : List (Action Symbolic.sdk) :=
  [.receive (Symbolic.message "A" 0 [] initialized),
    .receive (Symbolic.message "B" 1 [] initialized),
    .receive (Symbolic.message "B" 2 [] toolCall),
    .receive (Symbolic.message "A" 3 [] toolCall),
    .call (.sendResponse "B/25910/2" emptyResponse), .call (.broadcastNotification initialized),
    .call (.sendResponse "A/25910/3" emptyResponse),
    .resume 0 (Symbolic.ambient 4), .snapshot 1 ["B", "A"],
    .resume 0 (Symbolic.ambient 4), .resume 2 (Symbolic.ambient 4),
    .resume 1 (Symbolic.ambient 5), .resume 1 (Symbolic.ambient 5),
    .resume 0 (Symbolic.ambient 5), .resume 2 (Symbolic.ambient 5),
    .resume 1 (Symbolic.ambient 6), .resume 1 (Symbolic.ambient 6),
    .resume 2 (Symbolic.ambient 6)]

def crowdedState : State Symbolic.sdk := (run (step openServer) .init crowdedRun).get rfl

theorem seen_alone_crowdedState : ∃ bs t, run (step openServer) .init bs = some t ∧
    bs.filter Action.isInput = [.receive (Symbolic.message "A" 0 [] initialized),
      .receive (Symbolic.message "A" 3 [] toolCall),
      .call (.sendResponse "B/25910/2" emptyResponse), .call (.broadcastNotification initialized),
      .call (.sendResponse "A/25910/3" emptyResponse)] ∧
    seenBy "A" t.log = seenBy "A" crowdedState.log ∧ (seenBy "A" t.log).length = 4 := by
  have hrun : run (step openServer) .init crowdedRun = some crowdedState := rfl
  have hoff : KeepsOff "A" (requests crowdedState.log) := keepsOff_iff.2 (by decide)
  obtain ⟨bs, t, hbs, -, hinputs, hseen, -⟩ := seen_alone Symbolic.lawful hrun hoff
  refine ⟨bs, t, hbs, hinputs, hseen, ?_⟩
  rw [hseen]
  rfl

end ContextVM.Server
