import ContextVM.Transport.Server.Answers

/-!
# The id of a response

A response is published with the id that the session has recorded for its event.  The map
that holds these ids has the progress tokens among its keys as well, so a token can take the
place of an id, and the answer to another request can remove it.  `LeavesIds` says when an
accepted message does neither; as long as every message is like that, and responses are sent
one at a time, the session has the right id whenever a call reads it.

The invariant has two parts.  `IdsKept` is about the maps: a route leads to a session that
has the id (`Has`), unless a call is just ending the route.  `Restored` is about the calls:
what they are about to publish has the id already.
-/

namespace ContextVM.Server

open Lib NostrServerTransport
open Symbolic (toolCall emptyResponse)

variable {S : Sdk} {server : NostrServerTransport S}

/-! ## What messages and calls may do -/

/-- The server is to answer the event `e` to `c`: there is a route, or a call has read it. -/
def Outstanding (s : State S) (c e : String) : Prop :=
  s.eventToClient.lookup e = some c ∨
    ∃ i response, s.tasks.lookup i = some (.response e (.findSession response c))

/-- An accepted message leaves the recorded ids of outstanding requests as they are. -/
structure LeavesIds (s : State S) (r : IncomingRequest) : Prop where
  /-- Its progress token is not its own event id. -/
  own : r.progressToken ≠ some r.eventId
  /-- Nor that of an outstanding request of its client. -/
  token : ∀ token, r.progressToken = some token → ¬ Outstanding s r.clientPubkey token
  /-- Its event id is not a progress token that its session still has. -/
  id : r.message.isRequest = true → ∀ session e,
    s.sessions.lookup r.clientPubkey = some session →
      session.eventToProgressToken.lookup e ≠ some r.eventId
  /-- It does not begin a new session when a call is about to read the old one. -/
  session : s.sessions.lookup r.clientPubkey = none → ∀ i e response,
    s.tasks.lookup i = some (.response e (.findSession response r.clientPubkey)) →
      r.message.isRequest = true ∧ r.eventId = e

/-- A message leaves the ids when no call is under way, if its token has no route and its event
id is no token. -/
theorem LeavesIds.of_idle {s : State S} {r : IncomingRequest}
    (htasks : ∀ i, s.tasks.lookup i = none) (hown : r.progressToken ≠ some r.eventId)
    (htoken : ∀ token, r.progressToken = some token → s.eventToClient.lookup token = none)
    (hid : ∀ session e, s.sessions.lookup r.clientPubkey = some session →
      session.eventToProgressToken.lookup e ≠ some r.eventId) : LeavesIds s r where
  own := hown
  token token ht := by
    rintro (hroute | ⟨i, response, hi⟩)
    · cases (htoken token ht).symm.trans hroute
    · cases (htasks i).symm.trans hi
  id _ session e := hid session e
  session _ i e response hi := by cases (htasks i).symm.trans hi

/-- So does one without a token, of a client that has no session. -/
theorem LeavesIds.of_new {s : State S} {r : IncomingRequest}
    (htasks : ∀ i, s.tasks.lookup i = none) (htoken : r.progressToken = none)
    (hsession : s.sessions.lookup r.clientPubkey = none) : LeavesIds s r := by
  refine .of_idle htasks ?_ ?_ ?_
  · rw [htoken]
    rintro ⟨⟩
  · rw [htoken]
    rintro token ⟨⟩
  · intro session e hl
    cases hsession.symm.trans hl

/-- Every message that is accepted leaves the ids. -/
def AcceptsLeavingIds (server : NostrServerTransport S) (s : State S) : Action S → Prop
  | .receive event => ∀ r, server.accept event = .ok r → LeavesIds s r
  | _ => True

/-- Responses are sent one at a time. -/
def OneAtATime (s : State S) : Action S → Prop
  | .call (.sendResponse ..) => ∀ i task, s.tasks.lookup i = some task →
      task.isResponse = false
  | _ => True

/-- At most one response is being sent. -/
def OneResponse (s : State S) : Prop :=
  ∀ i j task task', s.tasks.lookup i = some task → task.isResponse = true →
    s.tasks.lookup j = some task' → task'.isResponse = true → i = j

theorem OneResponse.transition {s s' : State S} {a : Action S} (h : OneResponse s)
    (hone : OneAtATime s a) (htrans : Transition server s a s') : OneResponse s' := by
  intro i j task task' hi hresp hj hresp'
  rcases htrans.task_before hi with ⟨told, hiold, hr, -⟩ | ⟨op, rfl, hop, rfl, rfl, rfl⟩
  · rcases htrans.task_before hj with ⟨told', hjold, hr', -⟩ | ⟨op, rfl, hop, rfl, rfl, rfl⟩
    · exact h i j told told' hiold (hr.trans hresp) hjold (hr'.trans hresp')
    · cases op <;> cases hresp'
      rw [hone i told hiold] at hr
      rw [← hr] at hresp
      cases hresp
  · cases op <;> cases hresp
    rcases htrans.task_before hj with ⟨told', hjold, hr', -⟩ | ⟨-, -, -, -, rfl, -⟩
    · rw [hone j told' hjold] at hr'
      rw [← hr'] at hresp'
      cases hresp'
    · rfl

theorem OneResponse.readsRouteAlone {s : State S} (h : OneResponse s) (e : String)
    (a : Action S) : ReadsRouteAlone e s a := by
  cases a with
  | resume i amb =>
      rintro response c hi - j ⟨next, hj, hnext⟩
      obtain rfl := h i j _ _ hi rfl hj rfl
      cases hi.symm.trans hj
      cases hnext
  | _ => trivial

theorem OneResponse.init : OneResponse (.init : State S) := by
  intro i j task task' hi
  cases hi

/-- Calls that are made one at a time read a route one after the other. -/
theorem readsRouteAlone_of_oneAtATime (e : String) {as : List (Action S)}
    (hone : Always (step server) OneAtATime .init as) :
    Always (step server) (ReadsRouteAlone e) .init as := by
  refine Always.of_forall fun pre a post m has hrun ↦ ?_
  rw [has] at hone
  have h : OneResponse m := run_invariant_of_always OneResponse
    (fun s a s' h hone hstep ↦ h.transition hone (step_transition hstep)) .init hone.left hrun
  exact h.readsRouteAlone e a

/-! ## The id in a session -/

/-- The session has the JSON-RPC id of the request that arrived as the event `e`. -/
def Has (session : ClientSession) (e : String) (rs : List IncomingRequest) : Prop :=
  ∃ r ∈ rs, r.message.isRequest = true ∧ r.eventId = e ∧
    session.pendingRequests.lookup e = r.requestId

theorem Has.track {session : ClientSession} {e : String} {rs : List IncomingRequest}
    {r : IncomingRequest} (h : Has session e rs) (now : Nat) (ht : r.progressToken ≠ some e) :
    Has (session.track now r) e (r :: rs) := by
  obtain ⟨r', hr', hreq', hid', hl⟩ := h
  by_cases hr : r.message.isRequest = true ∧ e = r.eventId
  · refine ⟨r, List.mem_cons_self, hr.1, hr.2.symm, ?_⟩
    rw [ClientSession.lookup_track_pendingRequests, if_neg ht, if_pos hr]
  · refine ⟨r', List.mem_cons_of_mem _ hr', hreq', hid', ?_⟩
    rw [ClientSession.lookup_track_pendingRequests, if_neg ht, if_neg hr, hl]

/-- A tracked request has its own id in the session, unless it is its own token. -/
theorem Has.of_track (session : ClientSession) {rs : List IncomingRequest}
    {r : IncomingRequest} (now : Nat) (hreq : r.message.isRequest = true)
    (ht : r.progressToken ≠ some r.eventId) : Has (session.track now r) r.eventId (r :: rs) := by
  refine ⟨r, List.mem_cons_self, hreq, rfl, ?_⟩
  rw [ClientSession.lookup_track_pendingRequests, if_neg ht, if_pos ⟨hreq, rfl⟩]

theorem Has.cons {session : ClientSession} {e : String} {rs : List IncomingRequest}
    (h : Has session e rs) (r : IncomingRequest) : Has session e (r :: rs) := by
  obtain ⟨r', hr', h'⟩ := h
  exact ⟨r', List.mem_cons_of_mem _ hr', h'⟩

theorem Has.forget {session : ClientSession} {e e' : String} {rs : List IncomingRequest}
    (h : Has session e rs) (hne : e ≠ e')
    (ht : session.eventToProgressToken.lookup e' ≠ some e) : Has (session.forget e') e rs := by
  obtain ⟨r, hr, hreq, hid, hl⟩ := h
  refine ⟨r, hr, hreq, hid, ?_⟩
  rw [ClientSession.lookup_forget_pendingRequests, if_neg (not_or.2 ⟨hne, ht⟩), hl]

theorem Has.mem {session : ClientSession} {e : String} {rs : List IncomingRequest}
    (h : Has session e rs) : e ∈ session.pendingRequests := by
  obtain ⟨r, hr, hreq, hid, hl⟩ := h
  rw [← AList.lookup_isSome, hl]
  exact IncomingRequest.isSome_requestId hreq

/-! ## The maps -/

/-- A call is about to remove the route of `e`. -/
def Ending (s : State S) (e : String) : Prop :=
  ∃ i, s.tasks.lookup i = some (.response e .cleanRoute) ∨
    s.tasks.lookup i = some .clearRoutes

/-- The sessions have the ids of the requests that are to be answered. -/
structure IdsKept (s : State S) : Prop where
  route : ∀ e c, s.eventToClient.lookup e = some c → ¬ Ending s e →
    ∃ session, s.sessions.lookup c = some session ∧ Has session e (requests s.log)
  /-- A call that has read the route will read the id, if the session is there at all. -/
  task : ∀ i e response c, s.tasks.lookup i = some (.response e (.findSession response c)) →
    ∀ session, s.sessions.lookup c = some session → Has session e (requests s.log)
  /-- The answer to another request does not remove the id. -/
  token : ∀ c session e token, s.sessions.lookup c = some session →
    session.eventToProgressToken.lookup e = some token →
      token ≠ e ∧ ¬ Outstanding s c token

/-- The steps that move one call and write no map. -/
theorem IdsKept.of_maps_eq {s s' : State S} (h : IdsKept s)
    (hsessions : s'.sessions = s.sessions) (hroutes : s'.eventToClient = s.eventToClient)
    (hrequests : requests s'.log = requests s.log) (hending : ∀ e, Ending s e → Ending s' e)
    (htask : ∀ i e response c,
      s'.tasks.lookup i = some (.response e (.findSession response c)) →
        s.tasks.lookup i = some (.response e (.findSession response c)) ∨
          s.eventToClient.lookup e = some c ∧ ¬ Ending s e) : IdsKept s' where
  route e c hl hne := by
    rw [hsessions, hrequests]
    exact h.route e c (hroutes ▸ hl) fun he ↦ hne (hending e he)
  task i e response c hi session hl := by
    rw [hsessions] at hl
    rw [hrequests]
    rcases htask i e response c hi with hold | ⟨hroute, hne⟩
    · exact h.task i e response c hold session hl
    · obtain ⟨session', hl', hhas⟩ := h.route e c hroute hne
      rw [hl, Option.some.injEq] at hl'
      exact hl' ▸ hhas
  token c session e token hl ht := by
    rw [hsessions] at hl
    obtain ⟨hne, hout⟩ := h.token c session e token hl ht
    refine ⟨hne, ?_⟩
    rintro (hroute | ⟨i, response, hi⟩)
    · exact hout (.inl (hroutes ▸ hroute))
    · rcases htask i token response c hi with hold | ⟨hroute, -⟩
      · exact hout (.inr ⟨i, response, hold⟩)
      · exact hout (.inl hroute)

/-- A request makes its own id outstanding, and no other. -/
theorem Outstanding.of_track {s : State S} {r : IncomingRequest} {event : S.Event}
    {c e : String} (h : Outstanding (s.track event r) c e) :
    Outstanding s c e ∨
      r.message.isRequest = true ∧ c = r.clientPubkey ∧ e = r.eventId := by
  rcases h with hroute | htask
  · rw [State.lookup_eventToClient_track] at hroute
    split at hroute
    · next hreq => exact .inr ⟨hreq.1, (Option.some.inj hroute).symm, hreq.2⟩
    · exact .inl (.inl hroute)
  · exact .inl (.inr htask)

theorem IdsKept.track {s : State S} {r : IncomingRequest} (h : IdsKept s)
    (hr : LeavesIds s r) (event : S.Event) : IdsKept (s.track event r) where
  route e c hl hne := by
    rw [State.lookup_eventToClient_track] at hl
    rw [State.lookup_sessions_track]
    split at hl
    · next hreq =>
        obtain ⟨hreq, rfl⟩ := hreq
        rw [Option.some.injEq] at hl
        rw [if_pos hl.symm]
        exact ⟨_, rfl, Has.of_track _ _ hreq hr.own⟩
    · obtain ⟨session, hsession, hhas⟩ := h.route e c hl hne
      by_cases hc : c = r.clientPubkey
      · rw [if_pos hc]
        subst hc
        rw [hsession]
        exact ⟨_, rfl, hhas.track _ fun ht ↦ hr.token e ht (.inl hl)⟩
      · rw [if_neg hc]
        exact ⟨session, hsession, hhas.cons r⟩
  task i e response c hi session hl := by
    rw [State.lookup_sessions_track] at hl
    by_cases hc : c = r.clientPubkey
    · subst hc
      rw [if_pos rfl, Option.some.injEq] at hl
      subst hl
      cases hold : s.sessions.lookup r.clientPubkey with
      | none =>
          -- only the request itself begins the session anew
          obtain ⟨hreq, rfl⟩ := hr.session hold i e response hi
          exact Has.of_track _ _ hreq hr.own
      | some old =>
          refine (h.task i e response _ hi old hold).track _ fun ht ↦ ?_
          exact hr.token e ht (.inr ⟨i, response, hi⟩)
    · rw [if_neg hc] at hl
      exact (h.task i e response c hi session hl).cons r
  token c session e token hl ht := by
    rw [State.lookup_sessions_track] at hl
    by_cases hc : c = r.clientPubkey
    · subst hc
      rw [if_pos rfl, Option.some.injEq] at hl
      subst hl
      rw [ClientSession.lookup_track_eventToProgressToken] at ht
      split at ht
      · next hnew =>
          obtain ⟨rfl, -⟩ := hnew
          have hown : token ≠ r.eventId := fun heq ↦ hr.own (heq ▸ ht)
          refine ⟨hown, fun hout ↦ ?_⟩
          rcases hout.of_track with hold | ⟨-, -, heq⟩
          · exact hr.token token ht hold
          · exact hown heq
      · cases hold : s.sessions.lookup r.clientPubkey with
        | none =>
            rw [hold] at ht
            cases ht
        | some old =>
            rw [hold] at ht
            obtain ⟨hne, hnot⟩ := h.token _ old e token hold ht
            refine ⟨hne, fun hout ↦ ?_⟩
            rcases hout.of_track with hold' | ⟨hreq, -, rfl⟩
            · exact hnot hold'
            · exact hr.id hreq old e hold ht
    · rw [if_neg hc] at hl
      obtain ⟨hne, hnot⟩ := h.token c session e token hl ht
      refine ⟨hne, fun hout ↦ ?_⟩
      rcases hout.of_track with hold | ⟨-, hc', -⟩
      · exact hnot hold
      · exact hc hc'

theorem IdsKept.cleanup {s : State S} (h : IdsKept s) : IdsKept (s.cleanup server) where
  route e c hl hne := by
    obtain ⟨-, hroute⟩ := State.lookup_eventToClient_cleanup_eq_some.1 hl
    obtain ⟨session, hsession, hhas⟩ := h.route e c hroute hne
    have hlive := State.isExpired_of_cleanup hl hsession hhas.mem
    exact ⟨session, lookup_keptSessions.2 ⟨hsession, hlive⟩, hhas⟩
  task i e response c hi session hl :=
    h.task i e response c hi session (lookup_keptSessions.1 hl).1
  token c session e token hl ht := by
    obtain ⟨hne, hout⟩ := h.token c session e token (lookup_keptSessions.1 hl).1 ht
    refine ⟨hne, ?_⟩
    rintro (hroute | htask)
    · exact hout (.inl (State.lookup_eventToClient_cleanup_eq_some.1 hroute).2)
    · exact hout (.inr htask)

/-- A call moves on from a task that is not the removal of a route. -/
theorem Ending.of_others {s s' : State S} {i : Nat} {old : Task}
    (hi : s.tasks.lookup i = some old)
    (hothers : ∀ j, j ≠ i → s'.tasks.lookup j = s.tasks.lookup j)
    (hold : ∀ e, old ≠ .response e .cleanRoute) (hclose : old ≠ .clearRoutes) {e : String}
    (h : Ending s e) : Ending s' e := by
  obtain ⟨j, hj⟩ := h
  have hji : j ≠ i := by
    rintro rfl
    rw [hi] at hj
    rcases hj with hj | hj
    · exact hold e (Option.some.inj hj)
    · exact hclose (Option.some.inj hj)
  exact ⟨j, (hothers j hji).symm ▸ hj⟩

/-- A call moves on to a task that does not read a session. -/
theorem Outstanding.of_others {s s' : State S} {c e : String} (h : Outstanding s' c e)
    (i : Nat)
    (hroutes : ∀ c, s'.eventToClient.lookup e = some c → s.eventToClient.lookup e = some c)
    (hothers : ∀ j, j ≠ i → s'.tasks.lookup j = s.tasks.lookup j)
    (hown : ∀ response, s'.tasks.lookup i ≠ some (.response e (.findSession response c))) :
    Outstanding s c e := by
  rcases h with hroute | ⟨j, response, hj⟩
  · exact .inl (hroutes c hroute)
  · have hji : j ≠ i := by
      rintro rfl
      exact hown response hj
    exact .inr ⟨j, response, hothers j hji ▸ hj⟩

/-- A call returns after removing routes. -/
theorem Outstanding.of_finish {s : State S} {routes : Table String String} {i : Nat}
    {result : Except Error Unit} {c e : String}
    (h : Outstanding ({ s with eventToClient := routes }.finish i result) c e)
    (hroutes : ∀ c, routes.lookup e = some c → s.eventToClient.lookup e = some c) :
    Outstanding s c e := by
  refine h.of_others i hroutes (fun j hj ↦ ?_) fun response hi ↦ ?_
  · exact State.lookup_finish_of_ne _ _ hj
  · rw [State.lookup_finish_self] at hi
    cases hi

/-- The tokens of a session that has been cleaned it had before. -/
theorem token_of_cleanSession {sessions : Table String ClientSession} {e c c' e' token : String}
    {session : ClientSession}
    (hl : (NostrServerTransport.cleanSession e c sessions).lookup c' = some session)
    (ht : session.eventToProgressToken.lookup e' = some token) :
    ∃ old, sessions.lookup c' = some old ∧
      old.eventToProgressToken.lookup e' = some token := by
  rw [lookup_cleanSession] at hl
  by_cases hc : c' = c
  · subst hc
    rw [if_pos rfl] at hl
    obtain ⟨old, hold, rfl⟩ := Option.map_eq_some_iff.1 hl
    rw [ClientSession.lookup_forget_eventToProgressToken] at ht
    split at ht
    · cases ht
    · exact ⟨old, hold, ht⟩
  · rw [if_neg hc] at hl
    exact ⟨session, hl, ht⟩

theorem IdsKept.cleanSession {s : State S} (h : IdsKept s) (hone : OneResponse s) {i : Nat}
    {e c : String} (hi : s.tasks.lookup i = some (.response e (.cleanSession c))) :
    IdsKept ({ s with sessions := cleanSession e c s.sessions }.goto i
      (.response e .cleanRoute)) where
  route e' c' hl hne := by
    have hee : e' ≠ e := by
      rintro rfl
      exact hne ⟨i, .inl (State.lookup_goto_self ..)⟩
    have hending : ¬ Ending s e' := by
      refine fun he ↦ hne (he.of_others hi ?_ (by simp) (by simp))
      intro j hj
      rw [State.lookup_goto_of_ne _ _ hj]
    obtain ⟨session, hsession, hhas⟩ := h.route e' c' hl hending
    show ∃ session, (NostrServerTransport.cleanSession e c s.sessions).lookup c' =
      some session ∧ _
    rw [lookup_cleanSession]
    by_cases hc : c' = c
    · subst hc
      rw [if_pos rfl, hsession]
      refine ⟨_, rfl, hhas.forget hee fun ht ↦ ?_⟩
      exact (h.token c' session e e' hsession ht).2 (.inl hl)
    · rw [if_neg hc]
      exact ⟨session, hsession, hhas⟩
  task j e' response c' hj session hl := by
    rw [State.lookup_goto] at hj
    split at hj
    · cases hj
    · next hji => exact absurd (hone j i _ _ hj rfl hi rfl) hji
  token c' session e' token hl ht := by
    obtain ⟨old, hold, ht⟩ := token_of_cleanSession hl ht
    obtain ⟨hne, hnot⟩ := h.token c' old e' token hold ht
    refine ⟨hne, fun hout ↦ hnot ?_⟩
    refine hout.of_others i (fun _ hl ↦ hl) ?_ ?_
    · intro j hj
      rw [State.lookup_goto_of_ne _ _ hj]
    · intro response hi'
      rw [State.lookup_goto_self] at hi'
      cases hi'

theorem IdsKept.cleanRoute {s : State S} (h : IdsKept s) {i : Nat} {e : String}
    (hi : s.tasks.lookup i = some (.response e .cleanRoute)) :
    IdsKept ({ s with eventToClient := s.eventToClient.erase e }.finish i (.ok ())) where
  route e' c' hl hne := by
    obtain ⟨hee, hl⟩ := Table.lookup_erase_eq_some.1 hl
    refine h.route e' c' hl fun ⟨j, hj⟩ ↦ hne ⟨j, ?_⟩
    rw [State.lookup_finish, if_neg]
    · exact hj
    · rintro rfl
      rw [hi] at hj
      rcases hj with hj | hj
      · cases hj
        exact hee rfl
      · cases hj
  task j e' response c' hj session hl := by
    exact h.task j e' response c' (Table.lookup_erase_eq_some.1 hj).2 session hl
  token c' session e' token hl ht := by
    obtain ⟨hne, hnot⟩ := h.token c' session e' token hl ht
    refine ⟨hne, fun hout ↦ hnot (hout.of_finish fun c hroute ↦ ?_)⟩
    exact (Table.lookup_erase_eq_some.1 hroute).2

/-- A call makes a step that writes no map. -/
theorem IdsKept.of_others {s s' : State S} (h : IdsKept s) {i : Nat} {old : Task}
    (hi : s.tasks.lookup i = some old) (hsessions : s'.sessions = s.sessions)
    (hroutes : s'.eventToClient = s.eventToClient)
    (hrequests : requests s'.log = requests s.log)
    (hothers : ∀ j, j ≠ i → s'.tasks.lookup j = s.tasks.lookup j)
    (hold : ∀ e, old ≠ .response e .cleanRoute) (hclose : old ≠ .clearRoutes)
    (hown : ∀ e response c, s'.tasks.lookup i = some (.response e (.findSession response c)) →
      s.eventToClient.lookup e = some c ∧ ¬ Ending s e) : IdsKept s' := by
  apply h.of_maps_eq hsessions hroutes hrequests
  · exact fun e he ↦ he.of_others hi hothers hold hclose
  · intro j e response c hj
    by_cases hji : j = i
    · exact .inr (hown e response c (hji ▸ hj))
    · exact .inl (hothers j hji ▸ hj)

/-- A call goes on to another task and writes no map. -/
theorem IdsKept.of_goto {s s' : State S} (h : IdsKept s) {i : Nat} {old task : Task}
    (hi : s.tasks.lookup i = some old) (htasks : s'.tasks = s.tasks.insert i task)
    (hsessions : s'.sessions = s.sessions) (hroutes : s'.eventToClient = s.eventToClient)
    (hrequests : requests s'.log = requests s.log)
    (hold : ∀ e, old ≠ .response e .cleanRoute) (hclose : old ≠ .clearRoutes)
    (hown : ∀ e response c, task = .response e (.findSession response c) →
      s.eventToClient.lookup e = some c ∧ ¬ Ending s e) : IdsKept s' := by
  refine h.of_others hi hsessions hroutes hrequests (fun j hj ↦ ?_) hold hclose ?_
  · rw [htasks, Table.lookup_insert_eq, if_neg hj]
  · intro e response c hi'
    rw [htasks, Table.lookup_insert_eq, if_pos rfl, Option.some.injEq] at hi'
    exact hown e response c hi'

theorem IdsKept.call {s : State S} (h : IdsKept s) (hs : Reachable server s)
    (op : Operation) : IdsKept (s.call op) := by
  have hlt : ∀ i task, s.tasks.lookup i = some task → i ≠ s.calls := fun i task hi ↦
    ne_of_lt (hs.task_lt_calls i task hi)
  refine h.of_maps_eq rfl rfl rfl ?_ ?_
  · rintro e ⟨i, hi⟩
    refine ⟨i, ?_⟩
    have hne : i ≠ s.calls := hi.elim (hlt i _) (hlt i _)
    rw [State.lookup_call, if_neg hne]
    exact hi
  · intro i e response c hi
    rw [State.lookup_call] at hi
    split at hi
    · cases op <;> cases hi
    · exact .inl hi

/-- While the sessions and routes of a closing transport are cleared, nothing is to be
answered. -/
theorem IdsKept.clearSessions (s : State S) (i : Nat) :
    IdsKept ({ s with sessions := ∅ }.goto i .clearRoutes) where
  route e c _ hne := absurd ⟨i, .inr (State.lookup_goto_self ..)⟩ hne
  task j e response c _ session hl := by cases hl
  token c session e token hl := by cases hl

theorem IdsKept.clearRoutes {s : State S} (h : IdsKept s) (i : Nat) :
    IdsKept ({ s with eventToClient := ∅ }.finish i (.ok ())) where
  route e c hl := by cases hl
  task j e response c hj session hl := by
    exact h.task j e response c (Table.lookup_erase_eq_some.1 hj).2 session hl
  token c session e token hl ht := by
    obtain ⟨hne, hnot⟩ := h.token c session e token hl ht
    refine ⟨hne, fun hout ↦ hnot (hout.of_finish fun c hroute ↦ ?_)⟩
    cases hroute

theorem IdsKept.transition {s s' : State S} {a : Action S} (h : IdsKept s)
    (hs : Reachable server s) (hone : OneResponse s)
    (haccept : AcceptsLeavingIds server s a) (htrans : Transition server s a s') :
    IdsKept s' := by
  cases htrans with
  | refused event why hacc => exact h
  | tracked event r hacc => exact h.track (haccept r hacc) event
  | called op hop => exact h.call hs op
  | foundClient i amb e response c ht hc =>
      refine h.of_goto ht rfl rfl rfl rfl (by simp) (by simp) ?_
      rintro e' response' c' ⟨⟩
      refine ⟨hc, ?_⟩
      rintro ⟨j, hj | hj⟩
      · obtain rfl := hone i j _ _ ht rfl hj rfl
        rw [ht] at hj
        cases hj
      · obtain rfl := hs.close_alone j i _ _ hj rfl ht
        rw [ht] at hj
        cases hj
  | foundSession i amb e response c session ht hsession =>
      exact h.of_goto ht rfl rfl rfl rfl (by simp) (by simp) (by rintro e' response' c' ⟨⟩)
  | responded i amb e response c enc p ht hp =>
      exact h.of_goto ht rfl rfl rfl rfl (by simp) (by simp) (by rintro e' response' c' ⟨⟩)
  | cleanedSession i amb e c ht => exact h.cleanSession hone ht
  | cleanedRoute i amb e ht => exact h.cleanRoute ht
  | failed i amb e next err ht hn =>
      refine h.of_others ht rfl rfl rfl ?_ ?_ (by simp) ?_
      · intro j hj
        rw [State.lookup_finish_of_ne _ _ hj]
      · rintro e' ⟨⟩
        cases hn
      · intro e' response' c' hi
        rw [State.lookup_finish_self] at hi
        cases hi
  | notifying a i task s' ha ht hn hnot =>
      apply h.of_others ht hnot.sessions hnot.eventToClient hnot.requests_eq hnot.others
      · rintro e rfl
        cases hn
      · rintro rfl
        cases hn
      · intro e response c hi
        cases hnot.own _ hi
  | clearedSessions i amb ht => exact IdsKept.clearSessions s i
  | clearedRoutes i amb ht => exact h.clearRoutes i
  | cleanup => exact h.cleanup
  | elapsed d => exact h.of_maps_eq rfl rfl rfl (fun _ he ↦ he) fun _ _ _ _ hi ↦ .inl hi

/-! ## The responses -/

theorem restoreId_restoreId (id id' : Value) (m : JsonRpcMessage) :
    (m.restoreId id').restoreId id = m.restoreId id := by
  cases m <;> rfl

/-- The message has the JSON-RPC id of the request that arrived as the event `e`, if it is a
response. -/
def RestoredFor (m : JsonRpcMessage) (e : String) (rs : List IncomingRequest) : Prop :=
  ∃ r ∈ rs, r.message.isRequest = true ∧ r.eventId = e ∧
    ∃ id, r.requestId = some id ∧ m.restoreId id = m

theorem Has.restoredFor {session : ClientSession} {e : String} {rs : List IncomingRequest}
    (h : Has session e rs) (response : JsonRpcMessage) :
    RestoredFor (session.restore e response) e rs := by
  obtain ⟨id, hid⟩ := Option.isSome_iff_exists.1 (AList.lookup_isSome.2 h.mem)
  obtain ⟨r, hr, hreq, he, hl⟩ := h
  refine ⟨r, hr, hreq, he, id, hl ▸ hid, ?_⟩
  rw [ClientSession.restore, hid]
  exact restoreId_restoreId id id response

theorem RestoredFor.of_suffix {m : JsonRpcMessage} {e : String} {h log : List (Obs S)}
    (hm : RestoredFor m e (requests h)) (hsuf : h <:+ log) :
    RestoredFor m e (requests log) := by
  obtain ⟨r, hr, h'⟩ := hm
  exact ⟨r, mem_requests_of_suffix hsuf hr, h'⟩

/-- What calls are about to publish has the id, and what they have published had it. -/
structure Restored (s : State S) : Prop where
  publishing : ∀ i e m c enc, s.tasks.lookup i = some (.response e (.publish m c enc)) →
    RestoredFor m e (requests s.log)
  responded : Each (fun o h ↦ ∀ i e p, o = .responded i e p →
    RestoredFor p.message e (requests h)) s.log

/-- A step in which the call `i` does not come to publish a response. -/
theorem Restored.of_others {s s' : State S} (h : Restored s) (i : Nat) (os : List (Obs S))
    (hlog : s'.log = os ++ s.log) (hos : ∀ o ∈ os, ∀ j e p, o ≠ .responded j e p)
    (hothers : ∀ j, j ≠ i → s'.tasks.lookup j = s.tasks.lookup j)
    (hown : ∀ e m c enc, s'.tasks.lookup i = some (.response e (.publish m c enc)) →
      RestoredFor m e (requests s.log)) : Restored s' where
  publishing j e m c enc hj := by
    have hsuf : s.log <:+ s'.log := hlog ▸ List.suffix_append _ _
    by_cases hji : j = i
    · exact (hown e m c enc (hji ▸ hj)).of_suffix hsuf
    · exact (h.publishing j e m c enc (hothers j hji ▸ hj)).of_suffix hsuf
  responded := by
    rw [hlog]
    exact h.responded.append_of_forall fun o ho _ j e p heq ↦ absurd heq (hos o ho j e p)

theorem Restored.of_tasks_eq {s s' : State S} (h : Restored s) (os : List (Obs S))
    (hlog : s'.log = os ++ s.log) (hos : ∀ o ∈ os, ∀ j e p, o ≠ .responded j e p)
    (htasks : s'.tasks = s.tasks) : Restored s' :=
  h.of_others 0 os hlog hos (fun _ _ ↦ by rw [htasks]) fun e m c enc hi ↦
    h.publishing 0 e m c enc (htasks ▸ hi)

theorem Restored.of_goto {s s' : State S} (h : Restored s) (i : Nat) (os : List (Obs S))
    (task : Task) (hlog : s'.log = os ++ s.log)
    (hos : ∀ o ∈ os, ∀ j e p, o ≠ .responded j e p)
    (htasks : s'.tasks = s.tasks.insert i task)
    (hown : ∀ e m c enc, task = .response e (.publish m c enc) →
      RestoredFor m e (requests s.log)) : Restored s' := by
  apply h.of_others i os hlog hos
  · intro j hj
    rw [htasks, Table.lookup_insert_eq, if_neg hj]
  · intro e m c enc hi
    rw [htasks, Table.lookup_insert_eq, if_pos rfl, Option.some.injEq] at hi
    exact hown e m c enc hi

theorem Restored.of_finish {s s' : State S} (h : Restored s) (i : Nat)
    (result : Except Error Unit) (hlog : s'.log = .returned i result :: s.log)
    (htasks : s'.tasks = s.tasks.erase i) : Restored s' := by
  apply h.of_others i [.returned i result] hlog (by simp)
  · intro j hj
    rw [htasks, Table.lookup_erase_eq, if_neg hj]
  · intro e m c enc hi
    rw [htasks, Table.lookup_erase_eq, if_pos rfl] at hi
    cases hi

theorem Restored.transition {s s' : State S} {a : Action S} (h : Restored s) (hids : IdsKept s)
    (htrans : Transition server s a s') : Restored s' := by
  cases htrans with
  | refused event why hacc => exact h
  | tracked event r hacc => exact h.of_tasks_eq [.forwarded event r] rfl (by simp) rfl
  | called op hop =>
      apply h.of_goto s.calls [.called s.calls op] _ rfl (by simp) rfl
      intro e m c enc htask
      cases op <;> cases htask
  | foundClient i amb e response c ht hc =>
      exact h.of_goto i [.foundClient i e c] _ rfl (by simp) rfl (by simp)
  | foundSession i amb e response c session ht hsession =>
      apply h.of_goto i [.foundSession i c session] _ rfl (by simp) rfl
      rintro e' m c' enc ⟨⟩
      exact (hids.task i e response c ht session hsession).restoredFor response
  | responded i amb e m c enc p ht hp =>
      have hm : RestoredFor p.message e (requests s.log) := by
        rw [(publishResponse_ok hp).1]
        exact h.publishing i e m c enc ht
      refine ⟨?_, ?_, h.responded⟩
      · intro j e' m' c' enc' hj
        rw [State.lookup_goto] at hj
        split at hj
        · cases hj
        · exact (h.publishing j e' m' c' enc' hj).of_suffix (List.suffix_cons _ _)
      · rintro i e p ⟨⟩
        exact hm
  | cleanedSession i amb e c ht => exact h.of_goto i [] _ rfl (by simp) rfl (by simp)
  | cleanedRoute i amb e ht => exact h.of_finish i _ rfl rfl
  | failed i amb e next err ht hn => exact h.of_finish i _ rfl rfl
  | notifying a i task s' ha ht hn hnot =>
      obtain ⟨os, hlog, hos⟩ := hnot.log
      refine h.of_others i os hlog ?_ hnot.others ?_
      · rintro o ho j e p rfl
        cases hos _ ho
      · intro e m c enc hi
        cases hnot.own _ hi
  | clearedSessions i amb ht => exact h.of_goto i [] _ rfl (by simp) rfl (by simp)
  | clearedRoutes i amb ht => exact h.of_finish i _ rfl rfl
  | cleanup => exact h.of_tasks_eq [] rfl (by simp) rfl
  | elapsed d => exact h.of_tasks_eq [] rfl (by simp) rfl

/-- In a run that sends responses one at a time and whose messages leave the ids, what is
published has the id of its request. -/
theorem restored_of_run {as : List (Action S)} {s : State S}
    (hrun : run (step server) .init as = some s)
    (hone : Always (step server) OneAtATime .init as)
    (hleave : Always (step server) (AcceptsLeavingIds server) .init as) : Restored s := by
  refine (run_invariant_of_always
    (fun s ↦ Reachable server s ∧ OneResponse s ∧ IdsKept s ∧ Restored s) ?_ ?_
    (hone.and hleave) hrun).2.2.2
  · rintro s a s' ⟨hs, hresp, hids, hrest⟩ ⟨hone, hleave⟩ hstep
    have htrans := step_transition hstep
    exact ⟨hs.step hstep, hresp.transition hone htrans,
      hids.transition hs hresp hleave htrans, hrest.transition hids htrans⟩
  · refine ⟨.init, .init, ⟨?_, ?_, ?_⟩, ⟨?_, trivial⟩⟩
    · intro e c hl
      cases hl
    · intro i e response c hi
      cases hi
    · intro c session e token hl
      cases hl
    · intro i e m c enc hi
      cases hi

/-- As long as messages leave the ids and responses are sent one at a time, what is published
for the event `e` is the response of the consumer with the id of the request `e`. -/
theorem response_id_restored (hS : S.Lawful) {as : List (Action S)} {s : State S}
    (hrun : run (step server) .init as = some s) (hids : AuthenticIds server as)
    (hone : Always (step server) OneAtATime .init as)
    (hleave : Always (step server) (AcceptsLeavingIds server) .init as)
    {newer h : List (Obs S)} {i : Nat} {e : String} {p : Publication S}
    (hlog : s.log = newer ++ .responded i e p :: h) :
    ∃ response, latest (Obs.called? i) h = some (.sendResponse e response) ∧
      (∃ r ∈ requests h, r.message.isRequest = true ∧ r.eventId = e) ∧
      ∀ r ∈ requests h, r.message.isRequest = true → r.eventId = e →
        ∃ id, r.requestId = some id ∧ p.message = response.restoreId id := by
  have hs : Reachable server s := ⟨as, hrun⟩
  obtain ⟨response, c, session, amb, hcalled, -, -, hpub⟩ := hs.explained hlog
  have hrest := (restored_of_run hrun hone hleave).responded
  rw [hlog] at hrest
  obtain ⟨r₀, hr₀, hreq₀, hid₀, id, hid, hm⟩ := hrest.at i e p rfl
  refine ⟨response, hcalled, ⟨r₀, hr₀, hreq₀, hid₀⟩, ?_⟩
  intro r hr hreq he
  have hsuf : h <:+ s.log := by
    rw [hlog]
    exact (List.suffix_cons _ _).trans (List.suffix_append _ _)
  have hcons := (hids.consistent hS hrun).of_suffix hsuf
  have hsame := (hcons r hr r₀ hr₀ (he.trans hid₀.symm)).2
  refine ⟨id, ?_, ?_⟩
  · rw [← hid, IncomingRequest.requestId, IncomingRequest.requestId, hsame]
  · calc p.message = p.message.restoreId id := hm.symm
      _ = (session.restore e response).restoreId id := by rw [(publishResponse_ok hpub).1]
      _ = response.restoreId id := by
        unfold ClientSession.restore
        cases session.pendingRequests.lookup e with
        | none => rfl
        | some id' => exact restoreId_restoreId id id' response

/-- A call with the progress token `p`. -/
def progressCall : JsonRpcMessage :=
  .request ⟨"2.0", .str "2", "tools/call",
    some (.ofJson (.obj [("_meta", .obj [("progressToken", .str "p")])]))⟩

/-- Two requests of `A`, the second with a token, and one of `B`. -/
def askedRun : List (Action Symbolic.sdk) :=
  [.receive (Symbolic.message "A" 0 [] toolCall),
    .receive (Symbolic.message "A" 1 [] progressCall),
    .receive (Symbolic.message "B" 2 [] toolCall)]

/-- The call `i` of `send_response`, and `n` steps of it. -/
def answer (i : Nat) (e : String) (n : Nat) : List (Action Symbolic.sdk) :=
  .call (.sendResponse e emptyResponse) :: .replicate n (.resume i (Symbolic.ambient 3))

/-- The request of `B` is answered, then the second of `A`, up to the removal of its route. -/
def answeredRun : List (Action Symbolic.sdk) :=
  askedRun ++ answer 0 "B/25910/2" 5 ++ answer 1 "A/25910/1" 3

def answeredState : State Symbolic.sdk := (run (step openServer) .init answeredRun).get rfl

/-- A condition on the steps of `answeredRun`, where the calls are made one at a time. -/
theorem always_answeredRun {P : State Symbolic.sdk → Action Symbolic.sdk → Prop}
    (hasked : Always (step openServer) P .init askedRun)
    (hcall : ∀ m e, (∀ i, m.tasks.lookup i = none) → P m (.call (.sendResponse e emptyResponse)))
    (hresume : ∀ m i amb, P m (.resume i amb)) :
    Always (step openServer) P .init answeredRun := by
  have hanswer : ∀ m i e n, (∀ i, m.tasks.lookup i = none) →
      Always (step openServer) P m (answer i e n) := by
    intro m i e n hidle
    refine ⟨hcall m e hidle, fun _ _ ↦ Always.of_mem fun a ha m ↦ ?_⟩
    rw [List.eq_of_mem_replicate ha]
    exact hresume m i _
  have hrun : run (step openServer) .init askedRun = some _ := rfl
  have hrun' : run (step openServer) .init (askedRun ++ answer 0 "B/25910/2" 5) = some _ := rfl
  exact (hasked.append hrun (hanswer _ _ _ _ fun _ ↦ rfl)).append hrun'
    (hanswer _ _ _ _ fun _ ↦ rfl)

theorem oneAtATime_answeredRun : Always (step openServer) OneAtATime .init answeredRun := by
  refine always_answeredRun (Always.of_mem (by simp [askedRun, OneAtATime])) ?_ fun _ _ _ ↦ trivial
  intro m e hidle i task hi
  cases (hidle i).symm.trans hi

theorem acceptsLeavingIds_answeredRun :
    Always (step openServer) (AcceptsLeavingIds openServer) .init answeredRun := by
  refine always_answeredRun ?_ (fun _ _ _ ↦ trivial) fun _ _ _ ↦ trivial
  constructor
  · rintro r ⟨⟩
    exact .of_new (fun _ ↦ rfl) rfl rfl
  rintro _ ⟨⟩
  constructor
  · rintro r ⟨⟩
    have hown : some "p" ≠ some "A/25910/1" := by decide
    refine .of_idle (fun _ ↦ rfl) hown ?_ ?_
    · rintro token ⟨⟩
      rfl
    · rintro session e ⟨⟩ ⟨⟩
  rintro _ ⟨⟩
  constructor
  · rintro r ⟨⟩
    exact .of_new (fun _ ↦ rfl) rfl rfl
  intro _ _
  trivial

/-- The second request has the id `2`, which its session has under its event id; under its token
the session has the event id. -/
theorem response_id_restored_answeredRun :
    ∃ (h : List (Obs Symbolic.sdk)) (p : Publication Symbolic.sdk),
      answeredState.log = .responded 1 "A/25910/1" p :: h ∧
      ∃ response, latest (Obs.called? 1) h = some (.sendResponse "A/25910/1" response) ∧
        (∃ r ∈ requests h, r.message.isRequest = true ∧ r.eventId = "A/25910/1") ∧
        ∀ r ∈ requests h, r.message.isRequest = true → r.eventId = "A/25910/1" →
          ∃ id, r.requestId = some id ∧ p.message = response.restoreId id := by
  have hrun : run (step openServer) .init answeredRun = some answeredState := rfl
  have hids : AuthenticIds openServer answeredRun := authenticIds_of_plain (by decide) (by decide)
  refine ⟨_, _, rfl, ?_⟩
  exact response_id_restored Symbolic.lawful hrun hids oneAtATime_answeredRun
    acceptsLeavingIds_answeredRun (List.nil_append _).symm

/-- Two requests of a client, the second with the event id of the first as its token, then
the answer to the first. -/
def overwrittenRun : List (Action Symbolic.sdk) :=
  [.receive (Symbolic.message "A" 0 [] toolCall),
    .receive (Symbolic.message "A" 1 [] tokenCall),
    .call (.sendResponse "A/25910/0" emptyResponse),
    .resume 0 (Symbolic.ambient 3), .resume 0 (Symbolic.ambient 3),
    .resume 0 (Symbolic.ambient 3)]

def overwrittenState : State Symbolic.sdk :=
  (run (step openServer) .init overwrittenRun).get rfl

/-- A response can be published with an event id in place of the request's id. -/
theorem response_id_overwritten :
    ¬ ∀ (S : Sdk) (_ : S.Lawful) (server : NostrServerTransport S) (as : List (Action S))
      (s : State S) (newer h : List (Obs S)) (i : Nat) (e : String) (p : Publication S)
      (response : JsonRpcMessage), run (step server) .init as = some s →
      AuthenticIds server as → Always (step server) OneAtATime .init as →
      s.log = newer ++ .responded i e p :: h →
      latest (Obs.called? i) h = some (.sendResponse e response) →
        ∀ r ∈ requests h, r.message.isRequest = true → r.eventId = e →
          ∃ id, r.requestId = some id ∧ p.message = response.restoreId id := by
  intro hall
  have hids : AuthenticIds openServer overwrittenRun :=
    authenticIds_of_plain (by decide) (by decide)
  have hone : Always (step openServer) OneAtATime .init overwrittenRun := by
    refine ⟨trivial, ?_⟩
    rintro _ ⟨⟩
    refine ⟨trivial, ?_⟩
    rintro _ ⟨⟩
    constructor
    · rintro i task ⟨⟩
    · intro _ _
      exact Always.of_mem (by simp [OneAtATime])
  obtain ⟨id, hid, hm⟩ := hall Symbolic.sdk Symbolic.lawful openServer overwrittenRun
    overwrittenState [] _ 0 "A/25910/0" _ emptyResponse rfl hids hone rfl rfl
    ⟨toolCall, "A", "A/25910/0", false⟩ (.tail _ (.head _)) rfl rfl
  cases hid
  exact absurd (congrArg (fun m ↦ m.id.bind Value.asStr) hm) (by decide)

end ContextVM.Server
