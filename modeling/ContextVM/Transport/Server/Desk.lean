import ContextVM.Lib.Desk
import ContextVM.Transport.Server.Delivery

/-!
# What the server is for

To its consumer and its clients the server is a desk: requests come in under their event ids,
and an answer goes to the client that has asked, with the id that the client has given the
request.  The two maps, the five steps of `send_response` and the expiry of sessions are how
this is done.

`Fits` says when an answer fits a request, and `desk` which requests have a ticket: those that
have a route or are held by a call, and that no call has answered.  The server refines the
desk in `Orderly` runs, where no event id is used twice, messages leave the recorded ids, and
responses are sent one at a time.
-/

namespace ContextVM

theorem ClientSession.restore_restoreId (session : ClientSession) (eventId : String)
    (response : JsonRpcMessage) (id : Value) :
    (session.restore eventId response).restoreId id = response.restoreId id := by
  unfold ClientSession.restore
  cases session.pendingRequests.lookup eventId with
  | none => rfl
  | some id' => exact Server.restoreId_restoreId id id' response

namespace Server

open Lib NostrServerTransport
open Symbolic (toolCall emptyResponse)

variable {S : Sdk} {server : NostrServerTransport S}

/-! ## The server as a desk -/

/-- An answer goes to the client of the request.  If it is a response, it has the id of the
request. -/
def Fits (r : IncomingRequest) (p : Publication S) : Prop :=
  S.toHex p.recipient = r.clientPubkey ∧
    ∃ id, r.requestId = some id ∧ p.message.restoreId id = p.message

abbrev DeskEvent (S : Sdk) := Desk.Event String IncomingRequest (Publication S)

/-- Notifications that come in have no ticket, and those that go out answer none. -/
def Obs.desk? : Obs S → Option (DeskEvent S)
  | .forwarded _ r => if r.message.isRequest then some (.opened r.eventId r) else none
  | .responded _ e p => some (.settled e p)
  | _ => none

/-- What the server has shown, the oldest first. -/
def deskTrace (s : State S) : List (DeskEvent S) := s.log.reverse.filterMap Obs.desk?

/-- A call can still answer the request, and none has. -/
def Awaits (s : State S) (e : String) : Prop :=
  ((∃ c, s.eventToClient.lookup e = some c) ∨ ∃ i, Holding s e i) ∧ ∀ i, ¬ CleaningUp s e i

open Classical in
/-- The tickets of the requests that are open. -/
noncomputable def desk (s : State S) : Desk String IncomingRequest := fun e ↦
  if Awaits s e then lastRequest e (requests s.log) else none

theorem desk_eq_some {s : State S} {e : String} {r : IncomingRequest} :
    desk s e = some r ↔ Awaits s e ∧ lastRequest e (requests s.log) = some r := by
  unfold desk
  split
  · next h => exact (and_iff_right h).symm
  · next h => simp [h]

/-- A desk that has lost tickets and gained none. -/
theorem desk_dropped {s' : State S} {d : Desk String IncomingRequest} {e : String}
    (h : ∀ r, Awaits s' e → lastRequest e (requests s'.log) = some r → d e = some r) :
    desk s' e = none ∨ desk s' e = d e := by
  cases hd : desk s' e with
  | none => exact .inl rfl
  | some r =>
      obtain ⟨hawaits, hlast⟩ := desk_eq_some.1 hd
      exact .inr (h r hawaits hlast).symm

/-! ## What a step shows -/

theorem deskTrace_of_log {s s' : State S} {os : List (Obs S)} (hlog : s'.log = os ++ s.log) :
    deskTrace s' = deskTrace s ++ os.reverse.filterMap Obs.desk? := by
  rw [deskTrace, hlog, List.reverse_append, List.filterMap_append]
  rfl

theorem deskTrace_of_cons {s s' : State S} {o : Obs S} (hlog : s'.log = o :: s.log) :
    deskTrace s' = deskTrace s ++ o.desk?.toList := by
  have h : s'.log = [o] ++ s.log := hlog
  rw [deskTrace_of_log h]
  cases ho : o.desk? <;> simp [ho]

/-- A step that shows nothing at the desk. -/
structure Behind (server : NostrServerTransport S) (s : State S) (a : Action S) (s' : State S) :
    Prop where
  trace : deskTrace s' = deskTrace s
  requests : ∀ e, lastRequest e (requests s'.log) = lastRequest e (requests s.log)
  receive : ∀ event r, a = .receive event → server.accept event = .ok r →
    r.message.isRequest = false

theorem Behind.of_log {s s' : State S} {a : Action S} (os : List (Obs S))
    (hlog : s'.log = os ++ s.log) (hos : ∀ o ∈ os, o.desk? = none)
    (hreqs : ∀ e, lastRequest e (Server.requests s'.log) = lastRequest e (Server.requests s.log))
    (ha : ∀ event r, a = .receive event → server.accept event = .ok r →
      r.message.isRequest = false) : Behind server s a s' := by
  refine ⟨?_, hreqs, ha⟩
  have hnone : os.reverse.filterMap Obs.desk? = [] :=
    List.filterMap_eq_nil_iff.2 fun o ho ↦ hos o (List.mem_reverse.1 ho)
  rw [deskTrace_of_log hlog, hnone, List.append_nil]

/-- A request comes in, an answer goes out, or the step is behind the desk. -/
theorem Transition.desk_cases {s s' : State S} {a : Action S} (h : Transition server s a s') :
    Behind server s a s' ∨
      (∃ event r, a = .receive event ∧ server.accept event = .ok r ∧
        r.message.isRequest = true ∧ s' = s.track event r) ∨
      ∃ i amb e response c enc p, a = .resume i amb ∧
        s.tasks.lookup i = some (.response e (.publish response c enc)) ∧
        s' = (s.observe (.responded i e p)).goto i (.response e (.cleanSession c)) := by
  cases h with
  | tracked event r hacc =>
      cases hr : r.message.isRequest with
      | true => exact .inr (.inl ⟨event, r, rfl, hacc, hr, rfl⟩)
      | false =>
          refine .inl (.of_log [.forwarded event r] rfl (by simp [Obs.desk?, hr]) ?_ ?_)
          · intro e
            simp [State.track, lastRequest_cons, hr]
          · rintro event' r' ⟨⟩ hacc'
            cases hacc.symm.trans hacc'
            exact hr
  | responded i amb e response c enc p ht hp =>
      exact .inr (.inr ⟨i, amb, e, response, c, enc, p, rfl, ht, rfl⟩)
  | refused event why hacc =>
      refine .inl (.of_log [] rfl (by simp) (fun _ ↦ rfl) ?_)
      rintro event' r' ⟨⟩ hacc'
      cases hacc.symm.trans hacc'
  | notifying a i task s' ha ht hn hnot =>
      obtain ⟨os, hlog, hos⟩ := hnot.log
      refine .inl (.of_log os hlog (fun o ho ↦ ?_) (fun e ↦ by rw [hnot.requests_eq]) ?_)
      · have ho := hos o ho
        cases o <;> first | rfl | exact ho.elim
      · rintro event r rfl
        rcases ha with ⟨amb, ha⟩ | ⟨cs, ha⟩ <;> cases ha
  | cleanedSession | clearedSessions | cleanup | elapsed =>
      exact .inl (.of_log [] rfl (by simp) (fun _ ↦ rfl) (by rintro _ _ ⟨⟩))
  | called op => exact .inl (.of_log [.called s.calls op] rfl (by simp [Obs.desk?])
      (fun _ ↦ rfl) (by rintro _ _ ⟨⟩))
  | foundClient i amb e response c => exact .inl (.of_log [.foundClient i e c] rfl
      (by simp [Obs.desk?]) (fun _ ↦ rfl) (by rintro _ _ ⟨⟩))
  | foundSession i amb e response c session => exact .inl (.of_log [.foundSession i c session]
      rfl (by simp [Obs.desk?]) (fun _ ↦ rfl) (by rintro _ _ ⟨⟩))
  | cleanedRoute i | clearedRoutes i => exact .inl (.of_log [.returned i (.ok ())] rfl
      (by simp [Obs.desk?]) (fun _ ↦ rfl) (by rintro _ _ ⟨⟩))
  | failed i amb e next err => exact .inl (.of_log [.returned i (.error err)] rfl
      (by simp [Obs.desk?]) (fun _ ↦ rfl) (by rintro _ _ ⟨⟩))

/-! ## Orderly runs -/

/-- No request arrives under an event id that one has arrived under before. -/
def IdsFresh (server : NostrServerTransport S) (s : State S) (a : Action S) : Prop :=
  ∀ e, ReceivesOnce server e s a

/-- Event ids are used once, messages leave the recorded ids of requests, and responses are
sent one at a time. -/
structure Orderly (server : NostrServerTransport S) (s : State S) (a : Action S) : Prop where
  fresh : IdsFresh server s a
  one : OneAtATime s a
  leaves : AcceptsLeavingIds server s a

/-- No two requests have arrived under one event id. -/
def UniqueRequests (log : List (Obs S)) : Prop :=
  ∀ r ∈ requests log, ∀ r' ∈ requests log, r.message.isRequest = true →
    r'.message.isRequest = true → r.eventId = r'.eventId → r = r'

/-- What holds in every state of an orderly run. -/
structure InOrder (server : NostrServerTransport S) (s : State S) : Prop where
  reachable : Reachable server s
  one : OneResponse s
  ids : IdsKept s
  restored : Restored s
  single : ∀ e, Single e s
  unique : UniqueRequests s.log

theorem UniqueRequests.transition {s s' : State S} {a : Action S} (h : UniqueRequests s.log)
    (hfresh : IdsFresh server s a) (htrans : Transition server s a s') :
    UniqueRequests s'.log := by
  have hnew : ∀ {r}, r ∈ requests s'.log → r ∈ requests s.log ∨
      (r.message.isRequest = true → ¬ Requested r.eventId (requests s.log)) ∧
        requests s'.log = r :: requests s.log := by
    intro r hr
    obtain ⟨event, hmem⟩ := mem_requests.1 hr
    rcases htrans.log_forwarded hmem with hold | ⟨rfl, hacc⟩
    · exact .inl (mem_requests.2 ⟨event, hold⟩)
    · refine .inr ⟨fun hreq ↦ hfresh r.eventId r hacc hreq rfl, ?_⟩
      generalize ha : Action.receive event = a at htrans
      cases htrans with
      | tracked event' r' hacc' =>
          cases ha
          cases hacc.symm.trans hacc'
          rfl
      | refused event' why hacc' =>
          cases ha
          cases hacc.symm.trans hacc'
      | notifying a i task s' ha' =>
          subst ha
          rcases ha' with ⟨amb, ha'⟩ | ⟨cs, ha'⟩ <;> cases ha'
      | _ => cases ha
  intro r hr r' hr' hreq hreq' hid
  rcases hnew hr with hold | ⟨hnone, heq⟩
  · rcases hnew hr' with hold' | ⟨hnone', -⟩
    · exact h r hold r' hold' hreq hreq' hid
    · exact absurd ⟨r, hold, hreq, hid⟩ (hnone' hreq')
  · rcases hnew hr' with hold' | ⟨-, heq'⟩
    · exact absurd ⟨r', hold', hreq', hid.symm⟩ (hnone hreq)
    · exact (List.cons.inj (heq.symm.trans heq')).1

theorem InOrder.init : InOrder server (.init : State S) where
  reachable := .init
  one := .init
  ids := by
    refine ⟨?_, ?_, ?_⟩
    · intro e c hl
      cases hl
    · intro i e response c hi
      cases hi
    · intro c session e token hl
      cases hl
  restored := by
    refine ⟨?_, trivial⟩
    intro i e m c enc hi
    cases hi
  single e := by
    refine ⟨?_, .inl rfl⟩
    rintro i j ⟨next, hi, -⟩
    cases hi
  unique r hr := by cases hr

theorem InOrder.step {s s' : State S} {a : Action S} (h : InOrder server s)
    (hord : Orderly server s a) (hstep : Server.step server s a = some s') :
    InOrder server s' := by
  have htrans := step_transition hstep
  exact
    { reachable := h.reachable.step hstep
      one := h.one.transition hord.one htrans
      ids := h.ids.transition h.reachable h.one hord.leaves htrans
      restored := h.restored.transition h.ids htrans
      single := fun e ↦ (h.single e).step h.reachable (hord.fresh e) (h.one.readsRouteAlone e a)
        hstep
      unique := h.unique.transition hord.fresh htrans }

/-! ## Refinement -/

/-- Only a request that comes in is new to those that await an answer. -/
theorem InOrder.awaits_from {s s' : State S} {a : Action S} (h : InOrder server s)
    (hstep : Server.step server s a = some s') {e : String}
    (hnew : ∀ event r, a = .receive event → server.accept event = .ok r →
      r.message.isRequest = true → r.eventId ≠ e) (he : Awaits s' e) : Awaits s e := by
  have htrans := step_transition hstep
  have halone := h.one.readsRouteAlone e a
  obtain ⟨hopen, hnone⟩ := he
  constructor
  · rcases hopen with ⟨c, hc⟩ | ⟨i, hi⟩
    · rcases htrans.route_from hc with hold | ⟨event, r, rfl, hacc, hr, hid⟩
      · exact .inl ⟨c, hold⟩
      · exact absurd hid (hnew event r rfl hacc hr)
    · rcases htrans.holding_from hi with hold | ⟨amb, response, c, -, -, hc⟩
      · exact .inr ⟨i, hold⟩
      · exact .inl ⟨c, hc⟩
  · intro i hi
    rcases cleaningUp_until h.reachable hstep hi with hclean | ⟨hroute, htasks⟩
    · exact hnone i hclean
    · -- the call that has answered has returned, and no other holds the route
      rcases hopen with ⟨c, hc⟩ | ⟨j, hj⟩
      · rw [hroute] at hc
        cases hc
      · rcases halone.holding_from htrans hj with hold | ⟨-, -, hfree⟩
        · obtain rfl := (h.single e).alone i j hi.holding hold
          obtain ⟨next, hj, -⟩ := hj
          rw [htasks, Table.lookup_erase_eq, if_pos rfl] at hj
          cases hj
        · exact hfree i hi.holding

/-- What goes out as a response fits the request. -/
theorem InOrder.fits (hS : S.Lawful) {s : State S} (h : InOrder server s) {i : Nat}
    {e : String} {p : Publication S} {log : List (Obs S)}
    (hlog : s.log = .responded i e p :: log) {r : IncomingRequest}
    (hlast : lastRequest e (requests log) = some r) : Fits r p := by
  obtain ⟨hr, hreq, hid⟩ := lastRequest_eq_some hlast
  have hreqs : requests s.log = requests log := by rw [hlog]; rfl
  have hsame : ∀ r' ∈ requests log, r'.message.isRequest = true → r'.eventId = e → r' = r :=
    fun r' hr' hreq' hid' ↦ h.unique r' (hreqs ▸ hr') r (hreqs ▸ hr) hreq' hreq
      (hid'.trans hid.symm)
  constructor
  · obtain ⟨h₀, last, hmoment, hlast', hrecipient⟩ :=
      h.reachable.recipient_latest hS (show s.log = [] ++ .responded i e p :: log from hlog)
    obtain ⟨hmem, hreq', hid'⟩ := lastRequest_eq_some hlast'
    have hmem' := mem_requests_of_suffix (routeMoment_suffix hmoment) hmem
    rw [hrecipient, hsame last hmem' hreq' hid']
  · have hrest := h.restored.responded
    rw [hlog] at hrest
    obtain ⟨r₀, hr₀, hreq₀, hid₀, id, hrid, hm⟩ := hrest.1 i e p rfl
    exact ⟨id, hsame r₀ hr₀ hreq₀ hid₀ ▸ hrid, hm⟩

/-- The desk can follow every step of an orderly run. -/
theorem desk_refines (hS : S.Lawful) :
    Refines (step server) (Orderly server) deskTrace (Desk.Step Fits)
      fun s d ↦ InOrder server s ∧ d = desk s := by
  rintro s a s' _ ⟨h, rfl⟩ hord hstep
  have htrans := step_transition hstep
  have h' := h.step hord hstep
  rcases htrans.desk_cases with hbehind | ⟨event, r, rfl, hacc, hr, rfl⟩ |
    ⟨i, amb, e, response, c, enc, p, rfl, ht, rfl⟩
  · refine ⟨[], desk s', by rw [hbehind.trace, List.append_nil], .of_silent ?_, h', rfl⟩
    refine .dropped _ _ fun e ↦ desk_dropped fun r hawaits hlast ↦ desk_eq_some.2 ⟨?_, ?_⟩
    · refine h.awaits_from hstep (fun event r ha hacc hr ↦ ?_) hawaits
      rw [hbehind.receive event r ha hacc] at hr
      cases hr
    · rw [← hbehind.requests, hlast]
  · -- the request is new under its id, so it has no ticket yet
    have hfree : desk s r.eventId = none := by
      cases hd : desk s r.eventId with
      | none => rfl
      | some r' =>
          have hrequested := lastRequest_eq_some (desk_eq_some.1 hd).2
          exact absurd ⟨r', hrequested⟩ (hord.fresh r.eventId r hacc hr rfl)
    refine ⟨[.opened r.eventId r], desk (s.track event r), ?_, ?_, h', rfl⟩
    · rw [deskTrace_of_cons (o := .forwarded event r) rfl]
      simp [Obs.desk?, hr]
    · refine .shows (.opened _ _ r hfree) (.of_silent (.dropped _ _ fun e ↦ ?_))
      refine desk_dropped fun r' hawaits hlast ↦ ?_
      have hlast' : lastRequest e (r :: requests s.log) = some r' := hlast
      rw [lastRequest_cons] at hlast'
      by_cases hid : r.eventId = e
      · rw [if_pos ⟨hr, hid⟩] at hlast'
        rw [← hid, Function.update_self, hlast']
      · rw [if_neg fun hcond ↦ hid hcond.2] at hlast'
        rw [Function.update_of_ne (Ne.symm hid)]
        refine desk_eq_some.2 ⟨h.awaits_from hstep ?_ hawaits, hlast'⟩
        rintro _ r'' ⟨⟩ hacc' -
        cases hacc.symm.trans hacc'
        exact hid
  · -- the call holds the request and has not answered, so there is a ticket
    have hholding : Holding s e i := ⟨_, ht, rfl⟩
    have hawaits : Awaits s e := by
      refine ⟨.inr ⟨i, hholding⟩, fun j hj ↦ ?_⟩
      obtain rfl := (h.single e).alone i j hholding hj.holding
      obtain ⟨next, hj, hnext⟩ := hj
      cases hj.symm.trans ht
      cases hnext
    obtain ⟨r, hlast⟩ : ∃ r, lastRequest e (requests s.log) = some r := by
      obtain ⟨r, hr, hreq, hid⟩ := h.reachable.requested_of_holding hholding
      unfold lastRequest
      exact Option.isSome_iff_exists.1 (List.find?_isSome.2 ⟨r, hr, by simp [hreq, hid]⟩)
    have hfits : Fits r p := h'.fits hS rfl hlast
    refine ⟨[.settled e p], _, deskTrace_of_cons (o := .responded i e p) rfl, ?_, h', rfl⟩
    refine .shows (.settled _ _ r p (desk_eq_some.2 ⟨hawaits, hlast⟩) hfits)
      (.of_silent (.dropped _ _ fun e' ↦ desk_dropped fun r' hawaits' hlast' ↦ ?_))
    by_cases he : e' = e
    · subst he
      exact absurd ⟨_, State.lookup_goto_self .., rfl⟩ (hawaits'.2 i)
    · rw [Function.update_of_ne he]
      exact desk_eq_some.2 ⟨h.awaits_from hstep (by rintro _ _ ⟨⟩) hawaits', hlast'⟩

theorem desk_init : desk (.init : State S) = Desk.empty := by
  funext e
  refine Option.eq_none_iff_forall_ne_some.2 fun r hr ↦ ?_
  cases (desk_eq_some.1 hr).2

/-- In an orderly run the server is a desk: what it shows a desk can show, and what it awaits
are the open tickets. -/
theorem server_refines_desk (hS : S.Lawful) {as : List (Action S)} {s : State S}
    (hrun : run (step server) .init as = some s)
    (hord : Always (step server) (Orderly server) .init as) :
    Path (Desk.Step Fits) Desk.empty (deskTrace s) (desk s) := by
  obtain ⟨obs, d, htrace, hpath, -, rfl⟩ :=
    (desk_refines hS).run ⟨.init, rfl⟩ hord hrun
  rw [desk_init] at hpath
  rwa [htrace]

/-- It is in order to receive a request under a new event id, with no progress token, from a
client that has no session, while no call is under way. -/
theorem orderly_receive {s : State S} {event : S.Event} {r : IncomingRequest}
    (hacc : server.accept event = .ok r) (hnew : ∀ r' ∈ requests s.log, r'.eventId ≠ r.eventId)
    (htoken : r.progressToken = none) (hsession : s.sessions.lookup r.clientPubkey = none)
    (htasks : ∀ i, s.tasks.lookup i = none) : Orderly server s (.receive event) where
  fresh := by
    rintro e r' hacc' - rfl ⟨r'', hr'', -, hid⟩
    cases hacc.symm.trans hacc'
    exact hnew r'' hr'' hid
  one := trivial
  leaves := by
    intro r' hacc'
    cases hacc.symm.trans hacc'
    exact .of_new htasks htoken hsession

theorem orderly_answeredRun :
    Always (step openServer) (Orderly openServer) .init answeredRun := by
  have hrun : run (step openServer) .init answeredRun = some answeredState := rfl
  have hfresh := distinctReads_answeredRun.receivesOnce Symbolic.lawful hrun
  refine (hfresh.and (oneAtATime_answeredRun.and acceptsLeavingIds_answeredRun)).imp ?_
  rintro m a ⟨hfresh, hone, hleaves⟩
  exact ⟨hfresh, hone, hleaves⟩

/-- Two requests of `A` and one of `B` are open when that of `B` is settled, then one of `A`. -/
theorem server_refines_desk_answeredState :
    ∃ r r' r'' p p', deskTrace answeredState =
        [.opened "A/25910/0" r, .opened "A/25910/1" r', .opened "B/25910/2" r'',
          .settled "B/25910/2" p, .settled "A/25910/1" p'] ∧
      Path (Desk.Step Fits) Desk.empty (deskTrace answeredState) (desk answeredState) := by
  have hrun : run (step openServer) .init answeredRun = some answeredState := rfl
  exact ⟨_, _, _, _, _, rfl, server_refines_desk Symbolic.lawful hrun orderly_answeredRun⟩

/-! ## What a desk promises -/

theorem called_of_latest {log newer h : List (Obs S)} {o : Obs S} (hlog : log = newer ++ o :: h)
    {i : Nat} {op : Operation} (hop : latest (Obs.called? i) h = some op) :
    .called i op ∈ log := by
  obtain ⟨⟨_, h₀⟩, hread, rfl⟩ := Option.map_eq_some_iff.1 hop
  obtain ⟨o', before, ho', rfl, -⟩ := rewind_eq_some hread
  cases o' <;> simp only [Obs.called?, reduceCtorEq, Option.ite_none_right_eq_some,
    Option.some.injEq] at ho'
  obtain ⟨rfl, rfl⟩ := ho'
  simp [hlog]

end Server

end ContextVM
