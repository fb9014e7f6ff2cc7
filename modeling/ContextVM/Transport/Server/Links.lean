import ContextVM.Transport.Server.Restore

/-!
# Routes and the sessions they lead to

A session expires with its routes: the cleanup finds them by the keys of the session's
`pending_requests`.  A route whose event id is not among them is not found, and stays for
good once its session has expired.

While nobody answers, every route is among the pending requests of its client (`Linked`).
The answer to a request also removes the key that the client has chosen as its progress
token, and if that is the id of another request of the client, the link of that request is
broken.  `SparesLinks` says that an answer does not do so.  `Awaited` says what the routes
are for: each is of a request that has not been answered.
-/

namespace ContextVM.Server

open Lib NostrServerTransport
open Symbolic (toolCall emptyResponse)

variable {S : Sdk} {server : NostrServerTransport S}

/-! ## Links -/

/-- The pending requests of the client `c` contain `e`. -/
def Pending (sessions : Table String ClientSession) (c e : String) : Prop :=
  ∃ session, sessions.lookup c = some session ∧ e ∈ session.pendingRequests

/-- Every route is among the pending requests of its client, unless a call is about to remove
it. -/
def Linked (s : State S) : Prop :=
  ∀ e c, s.eventToClient.lookup e = some c → ¬ Ending s e → Pending s.sessions c e

/-- The answer to a request does not remove, as its progress token, the link of another. -/
def SparesLinks (s : State S) : Action S → Prop
  | .resume i _ => ∀ e c session token,
      s.tasks.lookup i = some (.response e (.cleanSession c)) →
      s.sessions.lookup c = some session →
      session.eventToProgressToken.lookup e = some token → token ≠ e →
      s.eventToClient.lookup token = some c → Ending s token
  | _ => True

theorem Pending.track {s : State S} {c e : String} (h : Pending s.sessions c e)
    (event : S.Event) (r : IncomingRequest) : Pending (s.track event r).sessions c e := by
  obtain ⟨session, hl, hmem⟩ := h
  unfold Pending
  rw [State.lookup_sessions_track]
  split
  · next hc =>
      subst hc
      rw [hl]
      exact ⟨_, rfl, ClientSession.mem_track_pendingRequests.2 (.inr (.inr hmem))⟩
  · exact ⟨session, hl, hmem⟩

theorem Pending.of_track {s : State S} {r : IncomingRequest} (event : S.Event)
    (h : r.message.isRequest = true) :
    Pending (s.track event r).sessions r.clientPubkey r.eventId := by
  unfold Pending
  rw [State.lookup_sessions_track, if_pos rfl]
  exact ⟨_, rfl, ClientSession.mem_track_pendingRequests.2 (.inr (.inl ⟨h, rfl⟩))⟩

theorem Pending.cleanSession {sessions : Table String ClientSession} {c c' e e' : String}
    (h : Pending sessions c e) (hne : e ≠ e')
    (ht : ∀ session, sessions.lookup c = some session → c = c' →
      session.eventToProgressToken.lookup e' ≠ some e) :
    Pending (NostrServerTransport.cleanSession e' c' sessions) c e := by
  obtain ⟨session, hl, hmem⟩ := h
  unfold Pending
  rw [lookup_cleanSession]
  split
  · next hc =>
      rw [← hc, hl]
      exact ⟨_, rfl, ClientSession.mem_forget_pendingRequests.2 ⟨hne, ht session hl hc, hmem⟩⟩
  · exact ⟨session, hl, hmem⟩

/-- A route that a tick leaves is of a session that has not expired. -/
theorem Pending.cleanup {s : State S} {c e : String} (h : Pending s.sessions c e)
    (hroute : (s.cleanup server).eventToClient.lookup e = some c) :
    ∃ session, (s.cleanup server).sessions.lookup c = some session ∧
      session.isExpired s.now server.config.sessionTimeout = false ∧
      e ∈ session.pendingRequests := by
  obtain ⟨session, hl, hmem⟩ := h
  have hlive := State.isExpired_of_cleanup hroute hl hmem
  exact ⟨session, lookup_keptSessions.2 ⟨hl, hlive⟩, hlive, hmem⟩

/-- A call that is about to remove a route is so until it does. -/
theorem Ending.step {s s' : State S} {a : Action S} {e : String} (h : Ending s e)
    (hs : Reachable server s) (hstep : Server.step server s a = some s') :
    Ending s' e ∨ s'.eventToClient.lookup e = none := by
  obtain ⟨i, hi | hi⟩ := h
  · rcases (step_transition hstep).task_kept hs hi with hkept | ⟨amb, rfl⟩ | ⟨cs, rfl⟩
    · exact .inl ⟨i, .inl hkept⟩
    · simp only [Server.step, hi, Option.bind_some, resume, Option.some.injEq] at hstep
      subst hstep
      exact .inr (AList.lookup_erase ..)
    · simp [Server.step, hi] at hstep
  · rcases (step_transition hstep).task_kept hs hi with hkept | ⟨amb, rfl⟩ | ⟨cs, rfl⟩
    · exact .inl ⟨i, .inr hkept⟩
    · simp only [Server.step, hi, Option.bind_some, resume, Option.some.injEq] at hstep
      subst hstep
      exact .inr rfl
    · simp [Server.step, hi] at hstep

theorem Linked.step {s s' : State S} {a : Action S} (h : Linked s) (hs : Reachable server s)
    (hspare : SparesLinks s a) (hstep : Server.step server s a = some s') : Linked s' := by
  intro e c hroute' hnot'
  have hnot : ¬ Ending s e := by
    intro he
    rcases he.step hs hstep with he' | hnone
    · exact hnot' he'
    · rw [hnone] at hroute'
      cases hroute'
  have hold : s.eventToClient.lookup e = some c → Pending s.sessions c e := fun hroute ↦
    h e c hroute hnot
  have htrans := step_transition hstep
  have hfrom := htrans.route_from hroute'
  cases htrans with
  | tracked event r hacc =>
      rw [State.lookup_eventToClient_track] at hroute'
      split at hroute'
      · next hreq =>
          cases hroute'
          rw [hreq.2]
          exact .of_track event hreq.1
      · exact (hold hroute').track event r
  | cleanedSession i amb e' c' ht =>
      have hne : e ≠ e' := by
        rintro rfl
        exact hnot' ⟨i, .inl (State.lookup_goto_self ..)⟩
      refine (hold hroute').cleanSession hne ?_
      rintro session hl rfl htoken
      exact hnot (hspare e' c session e ht hl htoken hne hroute')
  | cleanup =>
      have hroute := hfrom.resolve_right (by rintro ⟨event, r, ⟨⟩, -⟩)
      obtain ⟨session, hl, -, hmem⟩ := (hold hroute).cleanup hroute'
      exact ⟨session, hl, hmem⟩
  | cleanedRoute i amb e' ht => exact hold (hfrom.resolve_right (by rintro ⟨event, r, ⟨⟩, -⟩))
  | clearedSessions i amb ht =>
      exact absurd ⟨i, .inr (State.lookup_goto_self ..)⟩ hnot'
  | clearedRoutes i amb ht => cases hroute'
  | notifying a i task s' ha ht hn hnot => exact hnot.sessions ▸ hold (hnot.eventToClient ▸ hroute')
  | _ => exact hold hroute'

/-! ## Requests without an answer -/

/-- What the observation tells about who waits for the answer to `e`. -/
def Obs.awaiting? (e : String) : Obs S → Option (Option String)
  | .forwarded _ r =>
    if r.message.isRequest ∧ r.eventId = e then some (some r.clientPubkey) else none
  | .responded _ e' _ => if e' = e then some none else none
  | _ => none

/-- The client of the request `e`, if no response has been published since the request was
forwarded. -/
def awaiting (e : String) (log : List (Obs S)) : Option String :=
  (latest (Obs.awaiting? e) log).join

theorem awaiting_forwarded (e : String) (event : S.Event) (r : IncomingRequest)
    (log : List (Obs S)) : awaiting e (.forwarded event r :: log) =
      if r.message.isRequest ∧ r.eventId = e then some r.clientPubkey else awaiting e log := by
  unfold awaiting
  split
  · next hr =>
      have hread : Obs.awaiting? e (.forwarded event r) = some (some r.clientPubkey) := if_pos hr
      rw [latest_cons_of_some hread, Option.join_some]
  · next hr =>
      have hread : Obs.awaiting? e (.forwarded event r) = none := if_neg hr
      rw [latest_cons_of_none hread]

/-- Whoever has a route is waiting, unless the answer has just been published. -/
theorem Transition.awaiting {s s' : State S} {a : Action S} (h : Transition server s a s')
    {e c : String} (hroute' : s'.eventToClient.lookup e = some c)
    (hold : s.eventToClient.lookup e = some c → Server.awaiting e s.log = some c) :
    Server.awaiting e s'.log = some c ∨ ∃ i, CleaningUp s' e i := by
  have hfrom := h.route_from hroute'
  -- a step that forwards no request for `e` and publishes no response to it
  have hkept : (∃ os, s'.log = os ++ s.log ∧ ∀ o ∈ os, o.awaiting? e = none) →
      (¬ ∃ event, a = .receive event) → Server.awaiting e s'.log = some c := by
    rintro ⟨os, hlog, hos⟩ hnot
    have hroute := hfrom.resolve_right fun ⟨event, _, ha, _⟩ ↦ hnot ⟨event, ha⟩
    rw [← hold hroute, Server.awaiting, Server.awaiting, hlog, latest_append_of_none hos]
  cases h with
  | refused event why hacc => exact .inl (hold hroute')
  | tracked event r hacc =>
      left
      rw [State.lookup_eventToClient_track] at hroute'
      refine (awaiting_forwarded e event r s.log).trans ?_
      split at hroute'
      · next hreq => rw [if_pos ⟨hreq.1, hreq.2.symm⟩, hroute']
      · next hreq => rw [if_neg fun hr ↦ hreq ⟨hr.1, hr.2.symm⟩, hold hroute']
  | responded i amb e' response c' enc p ht hp =>
      by_cases he : e' = e
      · subst he
        exact .inr ⟨i, .cleanSession c', State.lookup_goto_self .., rfl⟩
      · refine .inl (hkept ⟨[.responded i e' p], rfl, ?_⟩ (by simp))
        rintro o ho
        rw [List.mem_singleton.1 ho]
        exact if_neg he
  | notifying a i task s' ha ht hn hnot =>
      obtain ⟨os, hlog, hos⟩ := hnot.log
      refine .inl (hkept ⟨os, hlog, fun o ho ↦ ?_⟩ ?_)
      · have hobs := hos o ho
        cases o <;> first | rfl | cases hobs
      · rcases ha with ⟨amb, rfl⟩ | ⟨clients, rfl⟩ <;> simp
  | cleanup | elapsed | cleanedSession | clearedSessions =>
      exact .inl (hkept ⟨[], rfl, by simp⟩ (by simp))
  | _ => exact .inl (hkept ⟨[_], rfl, by simp [Obs.awaiting?]⟩ (by simp))

/-- A route is of a request without an answer, unless its answer is just being completed. -/
theorem Reachable.awaiting {s : State S} (hs : Reachable server s) {e c : String}
    (hroute : s.eventToClient.lookup e = some c) :
    Server.awaiting e s.log = some c ∨ ∃ i, CleaningUp s e i := by
  refine Reaches.induct (Server.step server) hs (fun s ↦ s.eventToClient.lookup e = some c →
    Server.awaiting e s.log = some c ∨ ∃ i, CleaningUp s e i) nofun ?_ hroute
  intro s a s' hs ih hstep hroute'
  by_cases hclean : ∃ i, CleaningUp s e i
  · obtain ⟨i, hi⟩ := hclean
    rcases cleaningUp_until hs hstep hi with hi' | ⟨hnone, -⟩
    · exact .inr ⟨i, hi'⟩
    · rw [hnone] at hroute'
      cases hroute'
  · exact (step_transition hstep).awaiting hroute' fun hroute ↦
      (ih hroute).resolve_right hclean

/-! ## States in which nobody answers -/

/-- No call of `send_response` or `close` is under way. -/
def Idle (s : State S) : Prop :=
  ∀ i task, s.tasks.lookup i = some task → task.isResponse = false ∧ task.isClose = false

theorem Idle.not_ending {s : State S} (h : Idle s) (e : String) : ¬ Ending s e := by
  rintro ⟨i, hi | hi⟩
  · cases (h i _ hi).1
  · cases (h i _ hi).2

theorem Idle.not_cleaningUp {s : State S} (h : Idle s) (e : String) (i : Nat) :
    ¬ CleaningUp s e i := by
  rintro ⟨next, hi, -⟩
  cases (h i _ hi).1

/-- The requests of the sessions that have not been answered, with their clients. -/
def unanswered (s : State S) : List (String × String) :=
  s.sessions.entries.flatMap fun entry ↦
    (entry.2.pendingRequests.keys.filter fun e ↦ awaiting e s.log = some entry.1).map
      fun e ↦ (e, entry.1)

theorem mem_unanswered {s : State S} {e c : String} :
    (e, c) ∈ unanswered s ↔ Pending s.sessions c e ∧ awaiting e s.log = some c := by
  simp only [unanswered, List.mem_flatMap, List.mem_map, List.mem_filter, decide_eq_true_eq,
    Prod.mk.injEq]
  constructor
  · rintro ⟨⟨c, session⟩, hentry, e, ⟨hmem, hwait⟩, rfl, rfl⟩
    exact ⟨⟨session, AList.mem_lookup_iff.2 hentry, AList.mem_keys.2 hmem⟩, hwait⟩
  · rintro ⟨⟨session, hl, hmem⟩, hwait⟩
    exact ⟨⟨c, session⟩, AList.mem_lookup_iff.1 hl, e, ⟨AList.mem_keys.1 hmem, hwait⟩, rfl, rfl⟩

/-- The routes are linked, a tick leaves no route of a client whose session has expired, and
there are no more routes than requests to be answered. -/
structure NoDanglingRoute (server : NostrServerTransport S) (s : State S) : Prop where
  linked : ∀ e c, s.eventToClient.lookup e = some c → Pending s.sessions c e
  live : ∀ e c, (s.cleanup server).eventToClient.lookup e = some c →
    ∃ session, (s.cleanup server).sessions.lookup c = some session ∧
      session.isExpired s.now server.config.sessionTimeout = false
  bounded : s.eventToClient.entries.length ≤ (unanswered s).length
  boundedAfter : (s.cleanup server).eventToClient.entries.length ≤
    (unanswered (s.cleanup server)).length

theorem length_routes_le {s : State S} (hs : Reachable server s) (hidle : Idle s)
    (hlinked : ∀ e c, s.eventToClient.lookup e = some c → Pending s.sessions c e) :
    s.eventToClient.entries.length ≤ (unanswered s).length := by
  have hnodup : (s.eventToClient.entries.map fun entry ↦ (entry.1, entry.2)).Nodup := by
    apply List.Nodup.of_map Prod.fst
    rw [List.map_map]
    exact s.eventToClient.nodupKeys
  have hsub : (s.eventToClient.entries.map fun entry ↦ (entry.1, entry.2)) ⊆ unanswered s := by
    intro pair hpair
    obtain ⟨⟨e, c⟩, hentry, rfl⟩ := List.mem_map.1 hpair
    have hroute : s.eventToClient.lookup e = some c := AList.mem_lookup_iff.2 hentry
    refine mem_unanswered.2 ⟨hlinked e c hroute, ?_⟩
    exact (hs.awaiting hroute).resolve_right fun ⟨i, hi⟩ ↦ hidle.not_cleaningUp e i hi
  have hle := (List.subperm_of_subset hnodup hsub).length_le
  rwa [List.length_map] at hle

/-- If no answer removes the link of another request, no route is left dangling. -/
theorem no_dangling_route {as : List (Action S)} {s : State S}
    (hrun : run (step server) .init as = some s)
    (hspare : Always (step server) SparesLinks .init as) (hidle : Idle s) :
    NoDanglingRoute server s := by
  have hs : Reachable server s := ⟨as, hrun⟩
  have hinv : Linked s := (run_invariant_of_always (fun s ↦ Reachable server s ∧ Linked s)
    (fun m a m' h hspare hstep ↦ ⟨h.1.step hstep, h.2.step h.1 hspare hstep⟩)
    ⟨.init, nofun⟩ hspare hrun).2
  have hlinked : ∀ e c, s.eventToClient.lookup e = some c → Pending s.sessions c e :=
    fun e c hroute ↦ hinv e c hroute (hidle.not_ending e)
  have hcleaned : Reachable server (s.cleanup server) := hs.step (a := .cleanup) rfl
  have hkept := fun e c (hroute : (s.cleanup server).eventToClient.lookup e = some c) ↦
    (hlinked e c (State.lookup_eventToClient_cleanup_eq_some.1 hroute).2).cleanup hroute
  refine ⟨hlinked, fun e c hroute ↦ ?_, length_routes_le hs hidle hlinked,
    length_routes_le hcleaned hidle fun e c hroute ↦ ?_⟩
  · obtain ⟨session, hl, hlive, -⟩ := hkept e c hroute
    exact ⟨session, hl, hlive⟩
  · obtain ⟨session, hl, -, hmem⟩ := hkept e c hroute
    exact ⟨session, hl, hmem⟩

/-- A request with a token that is no event id, and its answer. -/
def tokenRun : List (Action Symbolic.sdk) :=
  [.receive (Symbolic.message "A" 1 [] tokenCall),
    .receive (Symbolic.message "A" 2 [] toolCall),
    .call (.sendResponse "A/25910/1" emptyResponse),
    .resume 0 (Symbolic.ambient 3), .resume 0 (Symbolic.ambient 3),
    .resume 0 (Symbolic.ambient 3), .resume 0 (Symbolic.ambient 3),
    .resume 0 (Symbolic.ambient 3)]

def tokenState : State Symbolic.sdk := (run (step openServer) .init tokenRun).get rfl

theorem no_dangling_route_tokenState : NoDanglingRoute openServer tokenState := by
  have hrun : run (step openServer) .init tokenRun = some tokenState := rfl
  have hspare : Always (step openServer) SparesLinks .init tokenRun := by
    refine ⟨trivial, ?_⟩
    rintro _ ⟨⟩
    refine ⟨trivial, ?_⟩
    rintro _ ⟨⟩
    refine ⟨trivial, ?_⟩
    rintro _ ⟨⟩
    refine ⟨by rintro e c session token ⟨⟩, ?_⟩
    rintro _ ⟨⟩
    refine ⟨by rintro e c session token ⟨⟩, ?_⟩
    rintro _ ⟨⟩
    refine ⟨by rintro e c session token ⟨⟩, ?_⟩
    rintro _ ⟨⟩
    constructor
    · -- the token is the id of no request
      rintro e c session token ⟨⟩ ⟨⟩ ⟨⟩ - ⟨⟩
    rintro _ ⟨⟩
    refine ⟨by rintro e c session token ⟨⟩, ?_⟩
    rintro _ ⟨⟩
    trivial
  have hidle : Idle tokenState := by
    intro i task hi
    cases hi
  exact no_dangling_route hrun hspare hidle

/-- Two requests of a client, the second with the event id of the first as its token, then
the answer to the second. -/
def danglingRun : List (Action Symbolic.sdk) :=
  [.receive (Symbolic.message "A" 0 [] toolCall),
    .receive (Symbolic.message "A" 1 [] tokenCall),
    .call (.sendResponse "A/25910/1" emptyResponse),
    .resume 0 (Symbolic.ambient 3), .resume 0 (Symbolic.ambient 3),
    .resume 0 (Symbolic.ambient 3), .resume 0 (Symbolic.ambient 3),
    .resume 0 (Symbolic.ambient 3)]

def danglingState : State Symbolic.sdk := (run (step openServer) .init danglingRun).get rfl

/-- The answer to one request can break the link of another. -/
theorem route_left_dangling :
    ¬ ∀ (S : Sdk) (_ : S.Lawful) (server : NostrServerTransport S) (as : List (Action S))
      (s : State S), run (step server) .init as = some s → AuthenticIds server as → Idle s →
      NoDanglingRoute server s := by
  intro hall
  have hids : AuthenticIds openServer danglingRun :=
    authenticIds_of_plain (by decide) (by decide)
  have hidle : Idle danglingState := by
    intro i task hi
    cases hi
  have hnone := hall Symbolic.sdk Symbolic.lawful openServer danglingRun danglingState rfl hids
    hidle
  obtain ⟨session, hl, hmem⟩ := hnone.linked "A/25910/0" "A" rfl
  cases hl
  exact absurd (AList.mem_keys.1 hmem) (by decide)

end ContextVM.Server
