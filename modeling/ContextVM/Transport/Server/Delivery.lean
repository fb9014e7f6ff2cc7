import ContextVM.Transport.Server.Restore

/-!
# How often a request is forwarded

The event loop does not look at what it has forwarded before: what it forwards is what it
accepts of the events it receives, in their order, whatever has been answered or has expired
in the meantime.  The event ids that requests are told apart by are those of the events the
loop reads, and for a gift wrap that is the event inside.  The relay pool knows the outer
events only, so an event that is wrapped twice is forwarded twice, under one id.

Where the events that are read have distinct ids, an event id is that of one request, its
route is gone when the request has been answered, and it does not come back.
-/

namespace ContextVM.Server

open Lib NostrServerTransport
open Symbolic (toolCall emptyResponse)

variable {S : Sdk} {server : NostrServerTransport S}

/-! ## What the loop makes of a stream of events -/

namespace Action

/-- The event that the loop goes by. -/
def read? (server : NostrServerTransport S) : Action S → Option S.Event
  | .receive event => (server.layer event).toOption.map Prod.fst
  | _ => none

/-- The request that the loop forwards. -/
def accepted? (server : NostrServerTransport S) : Action S → Option IncomingRequest
  | .receive event => (server.accept event).toOption
  | _ => none

theorem accepted?_eq_some {a : Action S} {r : IncomingRequest} :
    a.accepted? server = some r ↔ ∃ event, a = .receive event ∧ server.accept event = .ok r := by
  cases a with
  | receive event => cases h : server.accept event <;> simp [accepted?, h, Except.toOption]
  | _ => simp [accepted?]

/-- What the loop accepts has the id of what it has read. -/
theorem read?_of_accepted? {a : Action S} {r : IncomingRequest}
    (h : a.accepted? server = some r) :
    ∃ read, a.read? server = some read ∧ S.idToHex read.id = r.eventId := by
  obtain ⟨event, rfl, hacc⟩ := accepted?_eq_some.1 h
  obtain ⟨read, hread⟩ := accept_ok hacc
  exact ⟨read, by simp [read?, hread.layer, Except.toOption], hread.id.symm⟩

end Action

theorem Transition.requests_eq {s s' : State S} {a : Action S} (h : Transition server s a s') :
    requests s'.log = (a.accepted? server).toList ++ requests s.log := by
  cases h with
  | refused event why hacc => simp [Action.accepted?, hacc, Except.toOption]
  | tracked event r hacc =>
      simp [Action.accepted?, hacc, Except.toOption, State.track]
  | notifying a i task s' ha ht hn hnot =>
      rw [hnot.requests_eq]
      rcases ha with ⟨amb, rfl⟩ | ⟨clients, rfl⟩ <;> rfl
  | _ => rfl

/-- The loop forwards what it accepts, in the order of the events. -/
theorem requests_of_run {s s' : State S} {as : List (Action S)}
    (hrun : run (step server) s as = some s') :
    requests s'.log = (as.filterMap (Action.accepted? server)).reverse ++ requests s.log := by
  induction as generalizing s with
  | nil =>
      cases hrun
      rfl
  | cons a as ih =>
      obtain ⟨m, hm, hrest⟩ := (run_cons_eq_some _).1 hrun
      rw [ih hrest, (step_transition hm).requests_eq]
      cases ha : a.accepted? server with
      | none => rw [List.filterMap_cons_none ha, Option.toList_none, List.nil_append]
      | some r => simp [List.filterMap_cons_some ha]

/-- The event ids of the requests that have been forwarded. -/
def requestIds (log : List (Obs S)) : List String :=
  ((requests log).filter fun r ↦ r.message.isRequest).map IncomingRequest.eventId

/-- The ids of the events that the loop reads are pairwise distinct. -/
def DistinctReads (server : NostrServerTransport S) (as : List (Action S)) : Prop :=
  ((as.filterMap (Action.read? server)).map Event.id).Nodup

theorem accepted_sublist_read (as : List (Action S)) :
    List.Sublist ((as.filterMap (Action.accepted? server)).map IncomingRequest.eventId)
      (((as.filterMap (Action.read? server)).map Event.id).map S.idToHex) := by
  induction as with
  | nil => exact .slnil
  | cons a as ih =>
      cases ha : a.accepted? server with
      | some r =>
          obtain ⟨read, hread, hid⟩ := Action.read?_of_accepted? ha
          rw [List.filterMap_cons_some ha, List.filterMap_cons_some hread]
          simp only [List.map_cons, hid]
          exact ih.cons_cons _
      | none =>
          rw [List.filterMap_cons_none ha]
          refine ih.trans (List.Sublist.map _ (List.Sublist.map _ ?_))
          exact (List.sublist_cons_self a as).filterMap _

theorem DistinctReads.nodup_eventIds (hS : S.Lawful) {as : List (Action S)} {s : State S}
    (hdistinct : DistinctReads server as) (hrun : run (step server) .init as = some s) :
    ((requests s.log).map IncomingRequest.eventId).Nodup := by
  have hlog : requests s.log = (as.filterMap (Action.accepted? server)).reverse :=
    (requests_of_run hrun).trans (List.append_nil _)
  rw [hlog, List.map_reverse, List.nodup_reverse]
  have hreads := List.Nodup.map (fun _ _ h ↦ hS.idToHex_injective h) hdistinct
  exact hreads.sublist (accepted_sublist_read as)

theorem DistinctReads.nodup_requestIds (hS : S.Lawful) {as : List (Action S)} {s : State S}
    (hdistinct : DistinctReads server as) (hrun : run (step server) .init as = some s) :
    (requestIds s.log).Nodup :=
  (hdistinct.nodup_eventIds hS hrun).sublist (List.filter_sublist.map _)

/-- Where the events that are read have distinct ids, every event id is received once. -/
theorem DistinctReads.receivesOnce (hS : S.Lawful) {as : List (Action S)} {s : State S}
    (hdistinct : DistinctReads server as) (hrun : run (step server) .init as = some s) :
    Always (step server) (fun m a ↦ ∀ e, ReceivesOnce server e m a) .init as := by
  refine Always.of_forall fun pre a post m has hm e ↦ ?_
  cases a with
  | receive event =>
      rintro r hacc - hid ⟨r', hr', -, hid'⟩
      obtain ⟨m', hm', hrest⟩ := (run_append_eq_some _).1 (has ▸ hrun)
      rw [hm, Option.some.injEq] at hm'
      subst hm'
      obtain ⟨m₁, hm₁, hrest⟩ := (run_cons_eq_some _).1 hrest
      -- the request is the next one after those of the prefix, among which is `r'`
      have hlog : requests s.log =
          (post.filterMap (Action.accepted? server)).reverse ++ r :: requests m.log := by
        rw [requests_of_run hrest, (step_transition hm₁).requests_eq]
        simp [Action.accepted?, hacc, Except.toOption]
      have hnodup := hdistinct.nodup_eventIds hS hrun
      rw [hlog, List.map_append, List.map_cons] at hnodup
      refine (List.nodup_cons.1 hnodup.of_append_right).1 ?_
      exact List.mem_map.2 ⟨r', hr', hid'.trans hid.symm⟩
  | _ => trivial

/-! ## The route of a request that has been answered -/

/-- Who has answered has held a route. -/
theorem Reachable.requested_of_answered {s : State S} (hs : Reachable server s) {e : String}
    {i : Nat} (h : i ∈ answerers e s.log) : Requested e (requests s.log) := by
  refine hs.induct (fun s ↦ i ∈ answerers e s.log → Requested e (requests s.log)) nofun ?_ h
  intro s a s' hs ih htrans hi
  rcases htrans.answerers_eq e with heq | ⟨j, response, c, enc, ht, -, -⟩
  · rw [heq] at hi
    exact (ih hi).of_suffix htrans.log_suffix
  · have hholding : Holding s e j := ⟨_, ht, rfl⟩
    exact (hs.requested_of_holding hholding).of_suffix htrans.log_suffix

/-- Some call of `send_response` has returned `Ok` for the event `e`. -/
def Answered (e : String) (log : List (Obs S)) : Prop :=
  ∃ i response, .called i (.sendResponse e response) ∈ log ∧ .returned i (.ok ()) ∈ log

theorem Reachable.requested_of_answered_ok {s : State S} (hs : Reachable server s) {e : String}
    (h : Answered e s.log) : Requested e (requests s.log) := by
  obtain ⟨i, response, hcalled, hret⟩ := h
  exact hs.requested_of_answered (hs.outcomes.ok i e response hcalled hret)

/-- A call that the log tells of is not new, or has just been made. -/
theorem Transition.log_called {s s' : State S} {a : Action S} (h : Transition server s a s')
    {i : Nat} {op : Operation} (hmem : .called i op ∈ s'.log) :
    .called i op ∈ s.log ∨ i = s.calls := by
  refine (h.logs hmem).imp_right fun hnew ↦ ?_
  cases hnew with
  | called => rfl
  | notifying _ _ _ _ _ _ _ _ _ ho => exact ho.elim

/-- A call that returns `Ok` sends notifications, or has come to the end of `close` or of
`send_response`. -/
theorem Transition.log_returned {s s' : State S} {a : Action S} (h : Transition server s a s')
    {i : Nat} (hmem : .returned i (.ok ()) ∈ s'.log) :
    .returned i (.ok ()) ∈ s.log ∨ ∃ task, s.tasks.lookup i = some task ∧
      ∀ e next, task = .response e next → s'.eventToClient.lookup e = none := by
  refine (h.logs hmem).imp_right fun hnew ↦ ?_
  cases hnew with
  | cleanedRoute _ amb e ht =>
      refine ⟨_, ht, ?_⟩
      rintro e' next ⟨⟩
      exact AList.lookup_erase ..
  | clearedRoutes _ amb ht => exact ⟨_, ht, fun _ _ _ ↦ rfl⟩
  | notifying _ j task _ _ _ ht hn _ ho =>
      obtain rfl : i = j := ho
      refine ⟨task, ht, ?_⟩
      rintro e next rfl
      cases hn

/-- A request that has just been answered has no route. -/
theorem Transition.answered_from {s s' : State S} {a : Action S}
    (h : Transition server s a s') (hs : Reachable server s) {e : String}
    (hans : Answered e s'.log) : Answered e s.log ∨ s'.eventToClient.lookup e = none := by
  obtain ⟨i, response, hcalled, hret⟩ := hans
  -- a call that returns was made before
  have hcalled' : i < s.calls → .called i (.sendResponse e response) ∈ s.log := fun hlt ↦
    (h.log_called hcalled).resolve_right (Nat.ne_of_lt hlt)
  rcases h.log_returned hret with hret | ⟨task, ht, hend⟩
  · exact .inl ⟨i, response, hcalled' (hs.outcomes.fresh _ hret i rfl), hret⟩
  · right
    have hmem := hcalled' (hs.task_lt_calls i task ht)
    obtain ⟨next, hnext⟩ := hs.outcomes.kind i e response task hmem ht
    exact hend e next hnext

/-- Where the events that are read have distinct ids, the route of a request that has been
answered does not come back. -/
theorem DistinctReads.route_none (hS : S.Lawful) {as : List (Action S)} {s : State S}
    (hdistinct : DistinctReads server as) (hrun : run (step server) .init as = some s)
    {e : String} (hans : Answered e s.log) : s.eventToClient.lookup e = none := by
  have hkeep := run_invariant_of_always
    (fun s ↦ Reachable server s ∧ (Answered e s.log → s.eventToClient.lookup e = none)) ?_
    ⟨.init, nofun⟩ (hdistinct.receivesOnce hS hrun) hrun
  · exact hkeep.2 hans
  · rintro s a s' ⟨hs, ih⟩ honce hstep
    refine ⟨hs.step hstep, fun hans ↦ ?_⟩
    have htrans := step_transition hstep
    rcases htrans.answered_from hs hans with hans | hnone
    · exact (honce e).route_none htrans (hs.requested_of_answered_ok hans) (ih hans)
    · exact hnone

/-! ## Event ids as keys -/

/-- The requests that have been forwarded under the event id `e`. -/
def requestsFor (e : String) (log : List (Obs S)) : List IncomingRequest :=
  (requests log).filter fun r ↦ r.message.isRequest && decide (r.eventId = e)

/-- With distinct event ids, a request is the only one under its id. -/
theorem requestsFor_eq {e : String} {log : List (Obs S)} (hnodup : (requestIds log).Nodup)
    {r : IncomingRequest} (hr : r ∈ requests log) (hreq : r.message.isRequest = true)
    (hid : r.eventId = e) : requestsFor e log = [r] := by
  have hmem : r ∈ requestsFor e log := by simp [requestsFor, hr, hreq, hid]
  have hlen : (requestsFor e log).length = 1 :=
    calc (requestsFor e log).length
      _ = (requestIds log).count e := by
        rw [requestsFor, requestIds, List.count, List.countP_map, List.countP_filter,
          List.countP_eq_length_filter]
        congr 2
        funext r
        exact Bool.and_comm ..
      _ = 1 := by
        refine List.count_eq_one_of_mem hnodup ?_
        exact List.mem_map.2 ⟨r, List.mem_filter.2 ⟨hr, hreq⟩, hid⟩
  obtain ⟨r', hr'⟩ := List.length_eq_one_iff.1 hlen
  rw [hr'] at hmem ⊢
  rw [List.mem_singleton.1 hmem]

/-- The loop forwards what it accepts, once for each time that it receives it.  If the events
that it reads have distinct ids, then so have the requests it forwards: a route is that of
one request, it is gone when a call has answered the request, and calls that read it one
after the other answer the request once. -/
theorem requests_distinct (hS : S.Lawful) {as : List (Action S)} {s : State S}
    (hrun : run (step server) .init as = some s) :
    requests s.log = (as.filterMap (Action.accepted? server)).reverse ∧
      (DistinctReads server as → (requestIds s.log).Nodup ∧
        (∀ e c, s.eventToClient.lookup e = some c →
          ∃ r, requestsFor e s.log = [r] ∧ r.clientPubkey = c) ∧
        (∀ e, Answered e s.log → s.eventToClient.lookup e = none) ∧
        ∀ e, Always (step server) (ReadsRouteAlone e) .init as → OneAnswer e s.log) := by
  refine ⟨(requests_of_run hrun).trans (List.append_nil _), fun hdistinct ↦ ?_⟩
  have hnodup := hdistinct.nodup_requestIds hS hrun
  have hs : Reachable server s := ⟨as, hrun⟩
  refine ⟨hnodup, fun e c hc ↦ ?_, fun e ↦ hdistinct.route_none hS hrun, fun e halone ↦ ?_⟩
  · obtain ⟨r, hlast, hclient⟩ := hs.route_latest e c hc
    obtain ⟨hmem, hreq, hid⟩ := lastRequest_eq_some hlast
    exact ⟨r, requestsFor_eq hnodup hmem hreq hid, hclient⟩
  · have honce := (hdistinct.receivesOnce hS hrun).imp fun m a h ↦ h e
    exact (single_of_run hrun honce halone).oneAnswer hs

theorem distinctReads_answeredRun : DistinctReads openServer answeredRun := by
  have hids : (answeredRun.filterMap (Action.read? openServer)).map Event.id =
    ["A/25910/0", "A/25910/1", "B/25910/2"] := rfl
  have hnodup : (["A/25910/0", "A/25910/1", "B/25910/2"] : List String).Nodup := by decide
  rw [DistinctReads, hids]
  exact hnodup

theorem requests_distinct_answeredState :
    (requestIds answeredState.log).Nodup ∧
      (∃ r, requestsFor "A/25910/0" answeredState.log = [r] ∧ r.clientPubkey = "A") ∧
      answeredState.eventToClient.lookup "B/25910/2" = none ∧
      OneAnswer "B/25910/2" answeredState.log := by
  have hrun : run (step openServer) .init answeredRun = some answeredState := rfl
  obtain ⟨-, hkeys⟩ := requests_distinct Symbolic.lawful hrun
  obtain ⟨hnodup, hroutes, hgone, hone⟩ := hkeys distinctReads_answeredRun
  have hanswered : Answered "B/25910/2" answeredState.log :=
    ⟨0, emptyResponse, .tail _ (.tail _ (.tail _ (.tail _ (.tail _ (.tail _ (.tail _ (.tail _
      (.head _)))))))), .tail _ (.tail _ (.tail _ (.tail _ (.head _))))⟩
  exact ⟨hnodup, hroutes _ _ rfl, hgone _ hanswered,
    hone _ (readsRouteAlone_of_oneAtATime _ oneAtATime_answeredRun)⟩

/-- An event of the client `A` in two gift wraps. -/
def rewrappedRun : List (Action Symbolic.sdk) :=
  [.receive (Symbolic.wrap "K" "server" 1 (Symbolic.message "A" 0 [] toolCall)),
    .receive (Symbolic.wrap "L" "server" 2 (Symbolic.message "A" 0 [] toolCall))]

/-- Distinct events are forwarded as requests with one event id. -/
theorem request_duplicated :
    ¬ ∀ (S : Sdk) (_ : S.Lawful) (server : NostrServerTransport S) (as : List (Action S))
      (s : State S), run (step server) .init as = some s →
      ((as.filterMap Action.event?).map Event.id).Nodup → (requestIds s.log).Nodup := by
  intro hall
  have hids : ((rewrappedRun.filterMap Action.event?).map Event.id).Nodup := by decide
  have hnodup := hall Symbolic.sdk Symbolic.lawful openServer rewrappedRun _ rfl hids
  exact absurd hnodup (by decide)

end ContextVM.Server
