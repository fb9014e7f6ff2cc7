import ContextVM.Transport.Server.Atomic
import ContextVM.Transport.Server.Broadcast
import ContextVM.Transport.Server.Desk

/-!
# What the server keeps

Each request puts up to four entries into the maps: its route, its id, its progress token and
the entry of that token.  The call that answers it removes them, in two steps.  So the maps
hold no more than is owed: an entry of the routes and of the tokens and two of the pending
requests, for each request that no call has answered yet (`footprint`).  No expiry of sessions
is needed for this, and it does not matter how the calls interleave or what tokens the clients
choose.
-/

namespace ContextVM.Server

open Lib NostrServerTransport

variable {S : Sdk} {server : NostrServerTransport S} {s s' : State S} {a : Action S}

/-! ## What is owed -/

/-- A call of `send_response` for the event id `e`. -/
def Obs.answerOf? (e : String) : Obs S → Option Nat
  | .called i (.sendResponse e' _) => if e' = e then some i else none
  | _ => none

/-- A call has answered the request `e` and returned `Ok`. -/
def answered (e : String) (log : List (Obs S)) : Bool :=
  (log.filterMap (Obs.answerOf? e)).any fun i ↦ (returnsOf i log).any Except.isOk

/-- The requests that wait for an answer, or for the end of the call that answers them. -/
def owed (log : List (Obs S)) : List IncomingRequest :=
  (requests log).filter fun r ↦ r.message.isRequest && !answered r.eventId log

def owedTo (c : String) (log : List (Obs S)) : List IncomingRequest :=
  (owed log).filter fun r ↦ r.clientPubkey = c

theorem returned_ok_of_any {i : Nat} {log : List (Obs S)}
    (h : (returnsOf i log).any Except.isOk = true) : .returned i (.ok ()) ∈ log := by
  obtain ⟨result, hresult, hok⟩ := List.any_eq_true.1 h
  obtain ⟨o, ho, hread⟩ := List.mem_filterMap.1 hresult
  cases o with
  | returned j result' =>
      obtain ⟨rfl, hsame⟩ := Option.ite_none_right_eq_some.1 hread
      cases hsame
      cases result with
      | ok => exact ho
      | error err => cases hok
  | _ => cases hread

theorem answered_iff {e : String} {log : List (Obs S)} :
    answered e log = true ↔ Answered e log := by
  simp only [answered, List.any_eq_true, List.mem_filterMap]
  constructor
  · rintro ⟨i, ⟨o, ho, hcall⟩, hreturned⟩
    cases o with
    | called j op =>
        cases op with
        | sendResponse e' response =>
            obtain ⟨rfl, hsame⟩ := Option.ite_none_right_eq_some.1 hcall
            cases hsame
            exact ⟨_, response, ho, returned_ok_of_any (List.any_eq_true.2 hreturned)⟩
        | _ => cases hcall
    | _ => cases hcall
  · rintro ⟨i, response, hcalled, hreturned⟩
    exact ⟨i, ⟨_, hcalled, if_pos rfl⟩, .ok (), List.mem_filterMap.2 ⟨_, hreturned, if_pos rfl⟩,
      rfl⟩

theorem mem_owed {log : List (Obs S)} {r : IncomingRequest} :
    r ∈ owed log ↔ r ∈ requests log ∧ r.message.isRequest = true ∧
      answered r.eventId log = false := by
  simp [owed]

theorem mem_owedTo {c : String} {log : List (Obs S)} {r : IncomingRequest} :
    r ∈ owedTo c log ↔ r ∈ owed log ∧ r.clientPubkey = c := by
  simp [owedTo]

/-! ## The client of a call -/

def ResponseStep.client? : ResponseStep → Option String
  | .findSession _ c | .publish _ c _ | .cleanSession c => some c
  | _ => none

/-- A call that has read a route goes on with the client that it has read. -/
theorem Transition.client_from (h : Transition server s a s') {i : Nat} {e c : String}
    {next : ResponseStep} (hi : s'.tasks.lookup i = some (.response e next))
    (hc : next.client? = some c) :
    (∃ old, s.tasks.lookup i = some (.response e old) ∧ old.client? = some c) ∨
      s.eventToClient.lookup e = some c := by
  have hgoto : ∀ {j : Nat} {e' : String} {old new : ResponseStep},
      s.tasks.lookup j = some (.response e' old) →
      (s.tasks.insert j (.response e' new)).lookup i = some (.response e next) →
      old.client? = new.client? →
      ∃ old, s.tasks.lookup i = some (.response e old) ∧ old.client? = some c := by
    intro j e' old new hj hi hsame
    rw [Table.lookup_insert_eq] at hi
    split at hi
    · next hij =>
        cases hi
        exact ⟨old, hij ▸ hj, hsame.trans hc⟩
    · exact ⟨next, hi, hc⟩
  have herase : ∀ {j : Nat}, (s.tasks.erase j).lookup i = some (.response e next) →
      ∃ old, s.tasks.lookup i = some (.response e old) ∧ old.client? = some c :=
    fun hi ↦ ⟨next, (Table.lookup_erase_eq_some.1 hi).2, hc⟩
  cases h with
  | foundClient j amb e' response c' ht hroute =>
      rw [State.lookup_goto] at hi
      split at hi
      · cases hi
        cases hc
        exact .inr hroute
      · exact .inl ⟨next, hi, hc⟩
  | foundSession j amb e' response c' session ht hs => exact .inl (hgoto ht hi rfl)
  | responded j amb e' response c' enc p ht hp => exact .inl (hgoto ht hi rfl)
  | cleanedSession j amb e' c' ht =>
      rw [State.lookup_goto] at hi
      split at hi
      · cases hi
        cases hc
      · exact .inl ⟨next, hi, hc⟩
  | cleanedRoute | failed | clearedRoutes => exact .inl (herase hi)
  | called op hop =>
      rw [State.lookup_call] at hi
      split at hi
      · cases op <;> cases hi
        cases hc
      · exact .inl ⟨next, hi, hc⟩
  | clearedSessions j amb ht =>
      rw [State.lookup_goto] at hi
      split at hi
      · cases hi
      · exact .inl ⟨next, hi, hc⟩
  | notifying a j task s' ha ht hn hnot =>
      by_cases hij : i = j
      · subst hij
        cases hnot.own _ hi
      · exact .inl ⟨next, hnot.others i hij ▸ hi, hc⟩
  | _ => exact .inl ⟨next, hi, hc⟩

/-- The client of a call has sent a request under the event id. -/
theorem Reachable.request_of_client (hs : Reachable server s) {i : Nat} {e c : String}
    {next : ResponseStep} (hi : s.tasks.lookup i = some (.response e next))
    (hc : next.client? = some c) :
    ∃ r ∈ requests s.log, r.message.isRequest = true ∧ r.eventId = e ∧ r.clientPubkey = c := by
  refine hs.induct (fun s ↦ ∀ i e c next, s.tasks.lookup i = some (.response e next) →
    next.client? = some c → ∃ r ∈ requests s.log, r.message.isRequest = true ∧ r.eventId = e ∧
      r.clientPubkey = c) ?_ ?_ i e c next hi hc
  · intro i e c next hi
    cases hi
  · intro s a s' hs ih htrans i e c next hi hc
    rcases htrans.client_from hi hc with ⟨old, hold, hc'⟩ | hroute
    · obtain ⟨r, hr, h⟩ := ih i e c old hold hc'
      exact ⟨r, mem_requests_of_suffix htrans.log_suffix hr, h⟩
    · obtain ⟨r, hlast, hclient⟩ := hs.route_latest e c hroute
      obtain ⟨hr, hreq, hid⟩ := lastRequest_eq_some hlast
      exact ⟨r, mem_requests_of_suffix htrans.log_suffix hr, hreq, hid, hclient⟩

/-! ## What is cleared -/

/-- A call has answered the request `e` and removed what its session has of it. -/
def Cleared (s : State S) (e : String) : Prop :=
  ∃ i ∈ answerers e s.log, ∀ c, s.tasks.lookup i ≠ some (.response e (.cleanSession c))

theorem Cleared.of_step (hs : Reachable server s) (hstep : step server s a = some s')
    {e : String} (h : Cleared s' e) : Cleared s e ∨
      ∃ i amb c, a = .resume i amb ∧ s.tasks.lookup i = some (.response e (.cleanSession c)) := by
  obtain ⟨i, hi, hnot⟩ := h
  have htrans := step_transition hstep
  have hold : i ∈ answerers e s.log → Cleared s e ∨ ∃ i amb c, a = .resume i amb ∧
      s.tasks.lookup i = some (.response e (.cleanSession c)) := by
    intro hi
    by_cases hc : ∃ c, s.tasks.lookup i = some (.response e (.cleanSession c))
    · obtain ⟨c, hc⟩ := hc
      rcases htrans.task_kept hs hc with hkept | ⟨amb, rfl⟩ | ⟨cs, rfl⟩
      · exact absurd hkept (hnot c)
      · exact .inr ⟨i, amb, c, rfl, hc⟩
      · simp [Server.step, hc] at hstep
    · exact .inl ⟨i, hi, fun c hc' ↦ hc ⟨c, hc'⟩⟩
  rcases htrans.answerers_eq e with heq | ⟨j, response, c, enc, hj, heq, next, hnext, hclean⟩
  · exact hold (heq ▸ hi)
  · rcases List.mem_cons.1 (heq ▸ hi) with rfl | hi
    · -- the call has just answered, and goes on to remove what the session has
      rcases htrans.task_kept hs hj with hkept | ⟨amb, rfl⟩ | ⟨cs, rfl⟩
      · cases hkept.symm.trans hnext
        cases hclean
      · simp only [Server.step, hj, Option.bind_some, resume] at hstep
        split at hstep
        · cases hstep
          exact absurd (State.lookup_goto_self ..) (hnot c)
        · cases hstep
          rw [State.lookup_finish_self] at hnext
          cases hnext
      · simp [Server.step, hj] at hstep
    · exact hold hi

theorem not_answered_of_not_cleared (hs : Reachable server s) {e : String}
    (h : ¬ Cleared s e) : answered e s.log = false := by
  rw [← Bool.not_eq_true, answered_iff]
  rintro ⟨i, response, hcalled, hreturned⟩
  refine h ⟨i, hs.outcomes.ok i e response hcalled hreturned, fun c hc ↦ ?_⟩
  cases hs.settled.returned i _ _ hreturned hc

/-! ## The entries of the sessions -/

/-- The client `c` has sent the request, and no call has cleared it. -/
structure Owes (s : State S) (c : String) (r : IncomingRequest) : Prop where
  mem : r ∈ requests s.log
  isRequest : r.message.isRequest = true
  client : r.clientPubkey = c
  open' : ¬ Cleared s r.eventId

/-- Every entry of the session belongs to a request that has not been cleared. -/
structure SessionOwed (s : State S) (c : String) (session : ClientSession) : Prop where
  pending : ∀ k ∈ session.pendingRequests, ∃ r, Owes s c r ∧
    (k = r.eventId ∨ session.eventToProgressToken.lookup r.eventId = some k)
  token : ∀ e ∈ session.eventToProgressToken, ∃ r, Owes s c r ∧ r.eventId = e

def SessionsOwed (s : State S) : Prop :=
  ∀ c session, s.sessions.lookup c = some session → SessionOwed s c session

theorem Owes.of_step {c : String} {r : IncomingRequest} (h : Owes s c r)
    (htrans : Transition server s a s') (hopen : Cleared s' r.eventId → Cleared s r.eventId) :
    Owes s' c r where
  mem := mem_requests_of_suffix htrans.log_suffix h.mem
  isRequest := h.isRequest
  client := h.client
  open' := h.open' ∘ hopen

theorem SessionOwed.of_step {c : String} {session : ClientSession} (h : SessionOwed s c session)
    (htrans : Transition server s a s')
    (hopen : ∀ r, Owes s c r → Cleared s' r.eventId → Cleared s r.eventId) :
    SessionOwed s' c session where
  pending k hk := by
    obtain ⟨r, hr, hkey⟩ := h.pending k hk
    exact ⟨r, hr.of_step htrans (hopen r hr), hkey⟩
  token e he := by
    obtain ⟨r, hr, hid⟩ := h.token e he
    exact ⟨r, hr.of_step htrans (hopen r hr), hid⟩

theorem sessionOwed_new (s : State S) (c : String) (now : Nat) (isEncrypted : Bool) :
    SessionOwed s c (.new now isEncrypted) where
  pending k hk := by cases hk
  token e he := by cases he

/-- A request that comes in under a new event id has not been cleared. -/
theorem Owes.of_track (hs : Reachable server s) {r : IncomingRequest} (event : S.Event)
    (hreq : r.message.isRequest = true) (hnew : ¬ Requested r.eventId (requests s.log)) :
    Owes (s.track event r) r.clientPubkey r where
  mem := List.mem_cons_self
  isRequest := hreq
  client := rfl
  open' := by
    rintro ⟨i, hi, -⟩
    exact hnew (hs.requested_of_answered hi)

theorem SessionOwed.track (hs : Reachable server s) {r : IncomingRequest} {event : S.Event}
    (htrans : Transition server s a (s.track event r)) {session : ClientSession}
    (h : SessionOwed s r.clientPubkey session)
    (hnew : r.message.isRequest = true → ¬ Requested r.eventId (requests s.log)) :
    SessionOwed (s.track event r) r.clientPubkey (session.track s.now r) := by
  -- the requests that own the old entries have come in under other ids
  have hne : ∀ r₀, Owes s r.clientPubkey r₀ →
      ¬ (r₀.eventId = r.eventId ∧ r.progressToken.isSome = true) := by
    rintro r₀ hr₀ ⟨hid, htoken⟩
    obtain ⟨token, htoken⟩ := Option.isSome_iff_exists.1 htoken
    exact hnew (IncomingRequest.isRequest_of_progressToken htoken)
      ⟨r₀, hr₀.mem, hr₀.isRequest, hid⟩
  have hsame : ∀ e, Cleared (s.track event r) e → Cleared s e := fun _ h ↦ h
  constructor
  · intro k hk
    rcases ClientSession.mem_track_pendingRequests.1 hk with htoken | ⟨hreq, rfl⟩ | hk
    · have hreq := IncomingRequest.isRequest_of_progressToken htoken
      refine ⟨r, .of_track hs event hreq (hnew hreq), .inr ?_⟩
      rw [ClientSession.lookup_track_eventToProgressToken, if_pos ⟨rfl, by simp [htoken]⟩, htoken]
    · exact ⟨r, .of_track hs event hreq (hnew hreq), .inl rfl⟩
    · obtain ⟨r₀, hr₀, hkey⟩ := h.pending k hk
      refine ⟨r₀, hr₀.of_step htrans (hsame _), hkey.imp_right fun hkey ↦ ?_⟩
      rw [ClientSession.lookup_track_eventToProgressToken, if_neg (hne r₀ hr₀), hkey]
  · intro e he
    rw [← AList.lookup_isSome, ClientSession.lookup_track_eventToProgressToken] at he
    split at he
    · next hr =>
        obtain ⟨token, htoken⟩ := Option.isSome_iff_exists.1 hr.2
        have hreq := IncomingRequest.isRequest_of_progressToken htoken
        exact ⟨r, .of_track hs event hreq (hnew hreq), hr.1.symm⟩
    · obtain ⟨r₀, hr₀, hid⟩ := h.token e (AList.lookup_isSome.1 he)
      exact ⟨r₀, hr₀.of_step htrans (hsame _), hid⟩

/-- What is left in the session belongs to other requests. -/
theorem SessionOwed.forget {c e : String} {session : ClientSession} (h : SessionOwed s c session)
    (htrans : Transition server s a s')
    (hopen : ∀ e', e' ≠ e → Cleared s' e' → Cleared s e') :
    SessionOwed s' c (session.forget e) where
  pending k hk := by
    obtain ⟨hke, htoken, hk⟩ := ClientSession.mem_forget_pendingRequests.1 hk
    obtain ⟨r, hr, hkey⟩ := h.pending k hk
    have hne : r.eventId ≠ e := by
      rintro rfl
      exact hkey.elim hke htoken
    refine ⟨r, hr.of_step htrans (hopen _ hne), hkey.imp_right fun hkey ↦ ?_⟩
    rw [ClientSession.lookup_forget_eventToProgressToken, if_neg hne, hkey]
  token e' he := by
    rw [← AList.lookup_isSome, ClientSession.lookup_forget_eventToProgressToken] at he
    split at he
    · cases he
    · next hne =>
        obtain ⟨r, hr, rfl⟩ := h.token e' (AList.lookup_isSome.1 he)
        exact ⟨r, hr.of_step htrans (hopen _ hne), rfl⟩

/-- A call clears the session of the client that it has answered, and the request that it
clears is of no other client. -/
theorem SessionsOwed.cleaned (h : SessionsOwed s) (hs : Reachable server s)
    (hunique : UniqueRequests s.log) {i : Nat} {e c : String}
    (ht : s.tasks.lookup i = some (.response e (.cleanSession c)))
    (htrans : Transition server s a s') (hsessions : s'.sessions = cleanSession e c s.sessions)
    (hopen : ∀ e', e' ≠ e → Cleared s' e' → Cleared s e') : SessionsOwed s' := by
  intro c' session hl
  rw [hsessions, lookup_cleanSession] at hl
  split at hl
  · next hc =>
      obtain ⟨old, hold, rfl⟩ := Option.map_eq_some_iff.1 hl
      rw [hc]
      exact (h c old hold).forget htrans hopen
  · next hc =>
      refine (h c' session hl).of_step htrans fun r hr ↦ hopen _ ?_
      rintro rfl
      obtain ⟨r', hr', hreq', hid', hclient'⟩ := hs.request_of_client ht rfl
      obtain rfl := hunique r' hr' r hr.mem hreq' hr.isRequest hid'
      exact hc (hr.client.symm.trans hclient')

theorem SessionsOwed.step (h : SessionsOwed s) (hs : Reachable server s)
    (hunique : UniqueRequests s.log) (hfresh : IdsFresh server s a)
    (hstep : Server.step server s a = some s') : SessionsOwed s' := by
  have htrans := step_transition hstep
  have hcleared : ∀ e, Cleared s' e → Cleared s e ∨ ∃ i amb c, a = .resume i amb ∧
      s.tasks.lookup i = some (.response e (.cleanSession c)) :=
    fun e he ↦ he.of_step hs hstep
  -- a step other than that which clears a session, and that leaves the sessions
  have hkept : (∀ c session, s'.sessions.lookup c = some session →
      s.sessions.lookup c = some session) → (∀ i amb e c, a = .resume i amb →
        s.tasks.lookup i ≠ some (.response e (.cleanSession c))) → SessionsOwed s' := by
    intro hsessions hnot c session hl
    refine (h c session (hsessions c session hl)).of_step htrans fun r _ hr ↦ ?_
    exact (hcleared r.eventId hr).resolve_right fun ⟨i, amb, c, ha, hi⟩ ↦
      hnot i amb r.eventId c ha hi
  cases htrans with
  | tracked event r hacc =>
      intro c session hl
      rw [State.lookup_sessions_track] at hl
      split at hl
      · next hc =>
          cases hl
          rw [hc]
          refine SessionOwed.track hs (.tracked event r hacc) ?_ fun hreq ↦
            hfresh r.eventId r hacc hreq rfl
          cases hold : s.sessions.lookup r.clientPubkey with
          | none => exact sessionOwed_new ..
          | some session => exact h _ session hold
      · exact (h c session hl).of_step (.tracked event r hacc) fun _ _ h ↦ h
  | cleanedSession i amb e c ht =>
      refine h.cleaned hs hunique ht (step_transition hstep) rfl fun e' hne he' ↦ ?_
      refine (hcleared e' he').resolve_right ?_
      rintro ⟨j, amb', c', ha, hj⟩
      cases ha
      cases ht.symm.trans hj
      exact hne rfl
  | cleanup => exact hkept (fun c session hl ↦ (lookup_keptSessions.1 hl).1) (by rintro _ _ _ _ ⟨⟩)
  | clearedSessions i amb ht =>
      intro c session hl
      cases hl
  | notifying a i task s' ha ht hn hnot =>
      refine hkept (fun c session hl ↦ hnot.sessions ▸ hl) ?_
      rintro j amb e c rfl hj
      rcases ha with ⟨amb', ha⟩ | ⟨cs, ha⟩ <;> cases ha
      cases ht.symm.trans hj
      cases hn
  | refused | called | elapsed => exact hkept (fun c session hl ↦ hl) (by rintro _ _ _ _ ⟨⟩)
  | foundClient i amb e response c ht | foundSession i amb e response c session ht
  | responded i amb e response c enc p ht | cleanedRoute i amb e ht | clearedRoutes i amb ht =>
      refine hkept (fun c session hl ↦ hl) ?_
      rintro j amb' e' c' ⟨⟩ hj
      cases ht.symm.trans hj
  | failed i amb e next err ht hn =>
      refine hkept (fun c session hl ↦ hl) ?_
      rintro j amb' e' c' ⟨⟩ hj
      cases ht.symm.trans hj
      cases hn

/-! ## The routes -/

/-- A call that has answered has removed the route when it returns. -/
def RoutesOwed (s : State S) : Prop :=
  ∀ e c, s.eventToClient.lookup e = some c → answered e s.log = false

theorem RoutesOwed.step (h : RoutesOwed s) (hs : Reachable server s)
    (hfresh : IdsFresh server s a) (hstep : Server.step server s a = some s') :
    RoutesOwed s' := by
  intro e c hroute
  rw [← Bool.not_eq_true, answered_iff]
  intro hanswered
  have htrans := step_transition hstep
  rcases htrans.answered_from hs hanswered with hold | hnone
  · have hnone : s.eventToClient.lookup e = none := by
      refine Option.eq_none_iff_forall_ne_some.2 fun c' hc' ↦ ?_
      have hnot := h e c' hc'
      rw [answered_iff.2 hold] at hnot
      cases hnot
    rw [(hfresh e).route_none htrans (hs.requested_of_answered_ok hold) hnone] at hroute
    cases hroute
  · rw [hnone] at hroute
    cases hroute

/-! ## Bounds -/

theorem length_le_of_keys {α : Type} {t : Table String α} {ks : List String}
    (h : ∀ k ∈ t, k ∈ ks) : t.entries.length ≤ ks.length := by
  have hnodup : t.keys.Nodup := t.nodupKeys
  have hsub : t.keys ⊆ ks := fun k hk ↦ h k (AList.mem_keys.2 hk)
  have hle := (List.subperm_of_subset hnodup hsub).length_le
  rwa [AList.keys, List.keys, List.length_map] at hle

/-- The maps hold no more than what is owed. -/
structure Footprint (s : State S) : Prop where
  routes : s.eventToClient.entries.length ≤ (owed s.log).length
  pending : ∀ c session, s.sessions.lookup c = some session →
    session.pendingRequests.entries.length ≤ 2 * (owedTo c s.log).length
  tokens : ∀ c session, s.sessions.lookup c = some session →
    session.eventToProgressToken.entries.length ≤ (owedTo c s.log).length

theorem Owes.mem_owedTo {c : String} {r : IncomingRequest} (h : Owes s c r)
    (hs : Reachable server s) : r ∈ owedTo c s.log :=
  Server.mem_owedTo.2
    ⟨mem_owed.2 ⟨h.mem, h.isRequest, not_answered_of_not_cleared hs h.open'⟩, h.client⟩

theorem SessionOwed.length_pending {c : String} {session : ClientSession}
    (h : SessionOwed s c session) (hs : Reachable server s) :
    session.pendingRequests.entries.length ≤ 2 * (owedTo c s.log).length := by
  let ids := (owedTo c s.log).map fun r ↦ r.eventId
  let tokens := (owedTo c s.log).filterMap fun r ↦ session.eventToProgressToken.lookup r.eventId
  have hle : session.pendingRequests.entries.length ≤ (ids ++ tokens).length := by
    refine length_le_of_keys fun k hk ↦ ?_
    obtain ⟨r, hr, hkey⟩ := h.pending k hk
    have hmem := hr.mem_owedTo hs
    rcases hkey with rfl | hkey
    · exact List.mem_append_left _ (List.mem_map.2 ⟨r, hmem, rfl⟩)
    · exact List.mem_append_right _ (List.mem_filterMap.2 ⟨r, hmem, hkey⟩)
  have htokens : tokens.length ≤ (owedTo c s.log).length := List.length_filterMap_le ..
  rw [List.length_append, List.length_map] at hle
  omega

theorem SessionOwed.length_tokens {c : String} {session : ClientSession}
    (h : SessionOwed s c session) (hs : Reachable server s) :
    session.eventToProgressToken.entries.length ≤ (owedTo c s.log).length := by
  have hle : session.eventToProgressToken.entries.length ≤
      ((owedTo c s.log).map fun r ↦ r.eventId).length := by
    refine length_le_of_keys fun e he ↦ ?_
    obtain ⟨r, hr, hid⟩ := h.token e he
    exact List.mem_map.2 ⟨r, hr.mem_owedTo hs, hid⟩
  rwa [List.length_map] at hle

theorem RoutesOwed.length_routes (h : RoutesOwed s) (hs : Reachable server s) :
    s.eventToClient.entries.length ≤ (owed s.log).length := by
  have hle : s.eventToClient.entries.length ≤
      ((owed s.log).map fun r ↦ r.eventId).length := by
    refine length_le_of_keys fun e he ↦ ?_
    obtain ⟨c, hroute⟩ := Option.isSome_iff_exists.1 (AList.lookup_isSome.2 he)
    obtain ⟨r, hlast, -⟩ := hs.route_latest e c hroute
    obtain ⟨hr, hreq, rfl⟩ := lastRequest_eq_some hlast
    exact List.mem_map.2 ⟨r, mem_owed.2 ⟨hr, hreq, h _ c hroute⟩, rfl⟩
  rwa [List.length_map] at hle

/-- If no event id is used twice, the maps hold no more than what is owed, in every state.  So
they are empty when every request has been answered. -/
theorem footprint {as : List (Action S)} (hrun : run (step server) .init as = some s)
    (hfresh : Always (step server) (IdsFresh server) .init as) : Footprint s := by
  have hinv := run_invariant_of_always (fun s ↦ Reachable server s ∧ UniqueRequests s.log ∧
    SessionsOwed s ∧ RoutesOwed s) ?_ ?_ hfresh hrun
  · obtain ⟨hs, -, hsessions, hroutes⟩ := hinv
    exact
      { routes := hroutes.length_routes hs
        pending := fun c session hl ↦ (hsessions c session hl).length_pending hs
        tokens := fun c session hl ↦ (hsessions c session hl).length_tokens hs }
  · rintro s a s' ⟨hs, hunique, hsessions, hroutes⟩ hfresh hstep
    exact ⟨hs.step hstep, hunique.transition hfresh (step_transition hstep),
      hsessions.step hs hunique hfresh hstep, hroutes.step hs hfresh hstep⟩
  · refine ⟨.init, ?_, ?_, ?_⟩
    · intro r hr
      cases hr
    · intro c session hl
      cases hl
    · intro e c hl
      cases hl

/-- Of the three requests, those of `A` are owed, and the routes are theirs.  Its session has a
token for one of them, and three keys of the pending requests for the two. -/
theorem footprint_answeredState : ∃ session, answeredState.sessions.lookup "A" = some session ∧
    answeredState.eventToClient.entries.length ≤ (owed answeredState.log).length ∧
    session.pendingRequests.entries.length ≤ 2 * (owedTo "A" answeredState.log).length ∧
    session.eventToProgressToken.entries.length ≤ (owedTo "A" answeredState.log).length := by
  have hrun : run (step openServer) .init answeredRun = some answeredState := rfl
  have h := footprint hrun (orderly_answeredRun.imp fun _ _ hord ↦ hord.fresh)
  exact ⟨_, rfl, h.routes, h.pending _ _ rfl, h.tokens _ _ rfl⟩

end ContextVM.Server
