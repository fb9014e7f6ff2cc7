import ContextVM.Transport.Server.Routing

/-!
# Isolation of clients

When the session of a client expires, the cleanup deletes from the shared routes all keys of
its `pending_requests`.  These are the ids of its own requests, and its progress tokens.  A
token is any string, so it can be the event id of another client's request, whose route then
goes with the expired session.  Nothing else that a client can do removes or redirects the
route of another.

This is under the assumption that event ids are authentic: events with one id have one
content and one author.
-/

namespace ContextVM.Server

open Lib NostrServerTransport
open Symbolic (toolCall initialized)

variable {S : Sdk} {server : NostrServerTransport S}

/-! ## Authentic ids -/

/-- Among the events that the loop goes by in a run, those with one id say the same. -/
def AuthenticIds (server : NostrServerTransport S) (as : List (Action S)) : Prop :=
  ∀ event event' read read' b b', .receive event ∈ as → .receive event' ∈ as →
    server.layer event = .ok (read, b) → server.layer event' = .ok (read', b') →
    read.id = read'.id → read.unsigned = read'.unsigned

/-- Requests with one event id are of one client and are one message. -/
def Consistent (rs : List IncomingRequest) : Prop :=
  ∀ r ∈ rs, ∀ r' ∈ rs, r.eventId = r'.eventId →
    r.clientPubkey = r'.clientPubkey ∧ r.message = r'.message

theorem AuthenticIds.consistent (hS : S.Lawful) {as : List (Action S)} {s : State S}
    (hids : AuthenticIds server as) (hrun : run (step server) .init as = some s) :
    Consistent (requests s.log) := by
  intro r hr r' hr' hid
  obtain ⟨event, hmem⟩ := mem_requests.1 hr
  obtain ⟨event', hmem'⟩ := mem_requests.1 hr'
  obtain ⟨hact, hacc⟩ := forwarded_of_run_init hrun hmem
  obtain ⟨hact', hacc'⟩ := forwarded_of_run_init hrun hmem'
  obtain ⟨read, hread⟩ := accept_ok hacc
  obtain ⟨read', hread'⟩ := accept_ok hacc'
  rw [hread.id, hread'.id] at hid
  have hsame := hids event event' read read' _ _ hact hact' hread.layer hread'.layer
    (hS.idToHex_injective hid)
  simp only [Event.unsigned, Prod.mk.injEq] at hsame
  obtain ⟨hpubkey, -, -, -, hcontent⟩ := hsame
  refine ⟨by rw [hread.client, hread'.client, hpubkey], ?_⟩
  have hmessage := hread.message
  rw [hcontent, hread'.message, Option.some.injEq] at hmessage
  exact hmessage.symm

/-- The event that the relay pool hands to the loop. -/
def Action.event? : Action S → Option S.Event
  | .receive event => some event
  | _ => none

/-- Plaintext events with distinct ids. -/
theorem authenticIds_of_plain {as : List (Action S)}
    (hplain : ∀ event ∈ as.filterMap Action.event?, event.kind ≠ giftWrapKind)
    (hids : ((as.filterMap Action.event?).map Event.id).Nodup) : AuthenticIds server as := by
  have hread : ∀ event read b, .receive event ∈ as → server.layer event = .ok (read, b) →
      event ∈ as.filterMap Action.event? ∧ event = read := by
    intro event read b hact hlayer
    have hmem : event ∈ as.filterMap Action.event? := List.mem_filterMap.2 ⟨_, hact, rfl⟩
    refine ⟨hmem, ?_⟩
    cases b with
    | true => exact absurd (layer_encrypted.1 hlayer).1 (hplain event hmem)
    | false => exact (layer_plain.1 hlayer).2.2
  intro event event' read read' b b' hact hact' hlayer hlayer' hid
  obtain ⟨hmem, rfl⟩ := hread event read b hact hlayer
  obtain ⟨hmem', rfl⟩ := hread event' read' b' hact' hlayer'
  rw [List.inj_on_of_nodup_map hids hmem hmem' hid]

theorem Consistent.of_suffix {h log : List (Obs S)} (hcons : Consistent (requests log))
    (hsuf : h <:+ log) : Consistent (requests h) := fun r hr r' hr' ↦
  hcons r (mem_requests_of_suffix hsuf hr) r' (mem_requests_of_suffix hsuf hr')

/-! ## The keys of a session -/

/-- The client has sent a request with this event id. -/
def SentRequest (c k : String) (rs : List IncomingRequest) : Prop :=
  ∃ r ∈ rs, r.clientPubkey = c ∧ r.message.isRequest = true ∧ r.eventId = k

/-- The client has sent a request with this progress token. -/
def SentToken (c k : String) (rs : List IncomingRequest) : Prop :=
  ∃ r ∈ rs, r.clientPubkey = c ∧ r.progressToken = some k

/-- What a session has is what its client has sent. -/
structure SessionKeys (c : String) (session : ClientSession) (rs : List IncomingRequest) :
    Prop where
  pending : ∀ k v, session.pendingRequests.lookup k = some v →
    SentRequest c k rs ∨ SentToken c k rs
  token : ∀ k v, session.eventToProgressToken.lookup k = some v → SentRequest c k rs

theorem SentRequest.cons {c k : String} {rs : List IncomingRequest} (r : IncomingRequest)
    (h : SentRequest c k rs) : SentRequest c k (r :: rs) := by
  obtain ⟨r', hr', h'⟩ := h
  exact ⟨r', List.mem_cons_of_mem _ hr', h'⟩

theorem SentToken.cons {c k : String} {rs : List IncomingRequest} (r : IncomingRequest)
    (h : SentToken c k rs) : SentToken c k (r :: rs) := by
  obtain ⟨r', hr', h'⟩ := h
  exact ⟨r', List.mem_cons_of_mem _ hr', h'⟩

theorem SessionKeys.cons {c : String} {session : ClientSession} {rs : List IncomingRequest}
    (r : IncomingRequest) (h : SessionKeys c session rs) : SessionKeys c session (r :: rs) where
  pending k v hl := (h.pending k v hl).imp (.cons r) (.cons r)
  token k v hl := (h.token k v hl).cons r

theorem SessionKeys.new (c : String) (now : Nat) (enc : Bool) (rs : List IncomingRequest) :
    SessionKeys c (.new now enc) rs where
  pending k v hl := by cases hl
  token k v hl := by cases hl

theorem SessionKeys.track {session : ClientSession} {rs : List IncomingRequest} (now : Nat)
    (r : IncomingRequest) (h : SessionKeys r.clientPubkey session rs) :
    SessionKeys r.clientPubkey (session.track now r) (r :: rs) where
  pending k v hl := by
    rw [ClientSession.lookup_track_pendingRequests] at hl
    split at hl
    · next ht => exact .inr ⟨r, List.mem_cons_self, rfl, ht⟩
    · split at hl
      · next hk => exact .inl ⟨r, List.mem_cons_self, rfl, hk.1, hk.2.symm⟩
      · exact (h.pending k v hl).imp (.cons r) (.cons r)
  token k v hl := by
    rw [ClientSession.lookup_track_eventToProgressToken] at hl
    split at hl
    · next hk =>
        obtain ⟨token, ht⟩ := Option.isSome_iff_exists.1 hk.2
        exact ⟨r, List.mem_cons_self, rfl, IncomingRequest.isRequest_of_progressToken ht,
          hk.1.symm⟩
    · exact (h.token k v hl).cons r

theorem SessionKeys.forget {c : String} {session : ClientSession} {rs : List IncomingRequest}
    (e : String) (h : SessionKeys c session rs) : SessionKeys c (session.forget e) rs where
  pending k v hl := by
    rw [ClientSession.lookup_forget_pendingRequests] at hl
    split at hl
    · cases hl
    · exact h.pending k v hl
  token k v hl := by
    rw [ClientSession.lookup_forget_eventToProgressToken] at hl
    split at hl
    · cases hl
    · exact h.token k v hl

theorem Reachable.sessionKeys {s : State S} (hs : Reachable server s) :
    ∀ c session, s.sessions.lookup c = some session →
      SessionKeys c session (requests s.log) := by
  refine hs.induct_sessions SessionKeys ?_ ?_ ?_
  · intro now r rs old? ih
    apply SessionKeys.track now r
    cases old? with
    | none => exact .new _ _ _ _
    | some old => exact ih old rfl
  · exact fun c session r rs _ h ↦ h.cons r
  · exact fun c session e rs h ↦ h.forget e

/-- A key of a session that is the id of another client's request is a progress token. -/
theorem Reachable.sentToken_of_foreign {s : State S} (hs : Reachable server s)
    (hcons : Consistent (requests s.log)) {r : IncomingRequest} (hr : r ∈ requests s.log)
    {c : String} (hc : c ≠ r.clientPubkey) {session : ClientSession}
    (hl : s.sessions.lookup c = some session) (hk : r.eventId ∈ session.pendingRequests) :
    SentToken c r.eventId (requests s.log) := by
  obtain ⟨v, hv⟩ := Option.isSome_iff_exists.1 (AList.lookup_isSome.2 hk)
  rcases (hs.sessionKeys c session hl).pending _ v hv with ⟨r', hr', rfl, -, hid⟩ | htoken
  · exact absurd (hcons r' hr' r hr hid).1 hc
  · exact htoken

/-! ## The route of an unanswered request -/

/-- The route of a request, and the session of its client, are there. -/
structure Routed (s : State S) (r : IncomingRequest) : Prop where
  route : s.eventToClient.lookup r.eventId = some r.clientPubkey
  session : ∃ session, s.sessions.lookup r.clientPubkey = some session

/-- The step is not one by which the route of the request comes to its end: the clean-up after
its answer, a close, or a tick that finds its client idle for too long. -/
def Undisturbed (server : NostrServerTransport S) (r : IncomingRequest) (s : State S) :
    Action S → Prop
  | .resume i _ => s.tasks.lookup i ≠ some (.response r.eventId .cleanRoute) ∧
      s.tasks.lookup i ≠ some .clearSessions ∧ s.tasks.lookup i ≠ some .clearRoutes
  | .cleanup => ∀ session, s.sessions.lookup r.clientPubkey = some session →
      session.isExpired s.now server.config.sessionTimeout = false
  | _ => True

/-- The step is not a tick at which another client's session expires while the id of the
request is one of its keys. -/
def SparesToken (server : NostrServerTransport S) (r : IncomingRequest) (s : State S) :
    Action S → Prop
  | .cleanup => ∀ c session, c ≠ r.clientPubkey → s.sessions.lookup c = some session →
      session.isExpired s.now server.config.sessionTimeout = true →
      r.eventId ∉ session.pendingRequests
  | _ => True

theorem Routed.track {s : State S} {r : IncomingRequest} (h : Routed s r) (event : S.Event)
    {r' : IncomingRequest} (hsame : r'.eventId = r.eventId → r'.clientPubkey = r.clientPubkey) :
    Routed (s.track event r') r := by
  constructor
  · rw [State.lookup_eventToClient_track]
    split
    · next hr => rw [hsame hr.2.symm]
    · exact h.route
  · rw [State.lookup_sessions_track]
    split
    · exact ⟨_, rfl⟩
    · exact h.session

/-- A request is routed when it is forwarded. -/
theorem Routed.of_track {s : State S} {r : IncomingRequest} (hreq : r.message.isRequest = true)
    (event : S.Event) : Routed (s.track event r) r := by
  constructor
  · rw [State.lookup_eventToClient_track, if_pos ⟨hreq, rfl⟩]
  · rw [State.lookup_sessions_track, if_pos rfl]
    exact ⟨_, rfl⟩

/-- A tick removes no route of a client that it keeps, unless as another's token. -/
theorem Routed.cleanup {s : State S} {r : IncomingRequest} (h : Routed s r)
    (hs : Reachable server s) (hcons : Consistent (requests s.log)) (hr : r ∈ requests s.log)
    (hund : Undisturbed server r s .cleanup) (hspare : SparesToken server r s .cleanup) :
    Routed (s.cleanup server) r := by
  obtain ⟨session, hsession⟩ := h.session
  have hkept := hund session hsession
  constructor
  · rw [State.lookup_eventToClient_cleanup, if_neg, h.route]
    intro hk
    obtain ⟨c, session', hl, hexp, hk⟩ := mem_expiredKeys.1 hk
    have hc : c ≠ r.clientPubkey := by
      rintro rfl
      rw [hund session' hl] at hexp
      cases hexp
    rcases ClientSession.mem_trackedKeys.1 hk with hp | ht
    · exact hspare c session' hc hl hexp hp
    · obtain ⟨v, hv⟩ := Option.isSome_iff_exists.1 (AList.lookup_isSome.2 ht)
      obtain ⟨r', hr', rfl, -, hid⟩ := (hs.sessionKeys c session' hl).token _ v hv
      exact hc (hcons r' hr' r hr hid).1
  · exact ⟨session, lookup_keptSessions.2 ⟨hsession, hkept⟩⟩

/-- A tick that finds the id of a request among the keys of an expired session deletes the
route of the request. -/
theorem not_routed_cleanup {s : State S} {r : IncomingRequest} {c : String}
    {session : ClientSession} (hl : s.sessions.lookup c = some session)
    (hexp : session.isExpired s.now server.config.sessionTimeout = true)
    (hk : r.eventId ∈ session.pendingRequests) : ¬ Routed (s.cleanup server) r := by
  intro h
  rw [State.isExpired_of_cleanup h.route hl hk] at hexp
  cases hexp

theorem Routed.transition {s s' : State S} {a : Action S} {r : IncomingRequest}
    (h : Routed s r) (hs : Reachable server s) (hcons : Consistent (requests s'.log))
    (hr : r ∈ requests s.log) (hund : Undisturbed server r s a)
    (hspare : SparesToken server r s a) (htrans : Transition server s a s') :
    Routed s' r := by
  cases htrans with
  | tracked event r' hacc =>
      refine h.track event fun hid ↦ ?_
      exact (hcons r' List.mem_cons_self r (List.mem_cons_of_mem _ hr) hid).1
  | cleanedSession i amb e c ht =>
      refine ⟨h.route, ?_⟩
      obtain ⟨session, hsession⟩ := h.session
      show ∃ session, (cleanSession e c s.sessions).lookup r.clientPubkey = some session
      rw [lookup_cleanSession]
      split
      · next hc => exact ⟨session.forget e, by rw [← hc, hsession]; rfl⟩
      · exact ⟨session, hsession⟩
  | cleanedRoute i amb e ht =>
      refine ⟨?_, h.session⟩
      show (s.eventToClient.erase e).lookup r.eventId = _
      rw [Table.lookup_erase_eq, if_neg, h.route]
      rintro rfl
      exact hund.1 ht
  | clearedSessions i amb ht => exact absurd ht hund.2.1
  | clearedRoutes i amb ht => exact absurd ht hund.2.2
  | cleanup => exact h.cleanup hs hcons hr hund hspare
  | notifying a i task s' ha ht hn hnot =>
      exact ⟨hnot.eventToClient ▸ h.route, hnot.sessions ▸ h.session⟩
  | _ => exact ⟨h.route, h.session⟩

/-- The route of a request is there as long as nothing ends it, exactly if no tick of that
time finds its id among the keys of another client's expired session. -/
theorem route_kept_iff (hS : S.Lawful) {before after : List (Action S)} {event : S.Event}
    {r : IncomingRequest} {s₀ s₁ s₂ : State S}
    (hbefore : run (step server) .init before = some s₀) (hacc : server.accept event = .ok r)
    (hreq : r.message.isRequest = true)
    (hstep : step server s₀ (.receive event) = some s₁)
    (hafter : run (step server) s₁ after = some s₂)
    (hids : AuthenticIds server (before ++ .receive event :: after))
    (hund : Always (step server) (Undisturbed server r) s₁ after) :
    (∀ pre post m, after = pre ++ post → run (step server) s₁ pre = some m → Routed m r) ↔
      Always (step server) (SparesToken server r) s₁ after := by
  have hs₁ : s₁ = s₀.track event r := by simpa [step, hacc] using hstep.symm
  have hreach : Reachable server s₁ := Reachable.step ⟨before, hbefore⟩ hstep
  have hr : r ∈ requests s₁.log := hs₁ ▸ List.mem_cons_self
  have hcons : Consistent (requests s₂.log) := by
    refine hids.consistent hS ((run_append_eq_some _).2 ⟨s₀, hbefore, ?_⟩)
    exact (run_cons_eq_some _).2 ⟨s₁, hstep, hafter⟩
  constructor
  · intro hrouted
    refine Always.of_forall fun pre a post m hpre hm ↦ ?_
    cases a with
    | cleanup =>
        intro c session hc hl hexp hk
        have hm' : run (step server) s₁ (pre ++ [.cleanup]) = some (m.cleanup server) :=
          (run_append_eq_some _).2 ⟨m, hm, rfl⟩
        have hrouted' := hrouted (pre ++ [.cleanup]) post _ (by simp [hpre]) hm'
        exact not_routed_cleanup hl hexp hk hrouted'
    | _ => trivial
  · intro hspare pre post m hpre hm
    have hsuf : m.log <:+ s₂.log := by
      obtain ⟨m', hm', hrest⟩ := (run_append_eq_some _).1 (hpre ▸ hafter)
      rw [hm, Option.some.injEq] at hm'
      exact run_log_suffix (hm' ▸ hrest)
    have hconds := (hpre ▸ hund).left.and (hpre ▸ hspare).left
    suffices hinv : Consistent (requests m.log) →
        Reachable server m ∧ r ∈ requests m.log ∧ Routed m r from
      (hinv (hcons.of_suffix hsuf)).2.2
    refine run_invariant_of_always (fun m ↦ Consistent (requests m.log) →
      Reachable server m ∧ r ∈ requests m.log ∧ Routed m r) ?_ ?_ hconds hm
    · intro m a m' hI hP hstep' hcons'
      have htrans := step_transition hstep'
      obtain ⟨hm, hmem, hrouted⟩ := hI (hcons'.of_suffix htrans.log_suffix)
      refine ⟨hm.step hstep', mem_requests_of_suffix htrans.log_suffix hmem, ?_⟩
      exact hrouted.transition hm hcons' hmem hP.1 hP.2 htrans
    · intro _
      refine ⟨hreach, hr, ?_⟩
      rw [hs₁]
      exact Routed.of_track hreq event

/-- A call with the progress token `A/25910/0`. -/
def tokenCall : JsonRpcMessage :=
  .request ⟨"2.0", .str "1", "tools/call",
    some (.ofJson (.obj [("_meta", .obj [("progressToken", .str "A/25910/0")])]))⟩

/-- The client `B` uses the event id of a request of `A` as a token and falls silent; `A` goes
on. -/
def silentRun : List (Action Symbolic.sdk) :=
  [.receive (Symbolic.message "B" 1 [] tokenCall), .elapse 200,
    .receive (Symbolic.message "A" 2 [] initialized), .elapse 101, .cleanup]

def requestOfA : IncomingRequest := ⟨toolCall, "A", "A/25910/0", false⟩

theorem authenticIds_silentRun :
    AuthenticIds openServer ([] ++ .receive (Symbolic.message "A" 0 [] toolCall) :: silentRun) :=
  authenticIds_of_plain (by decide) (by decide)

theorem undisturbed_silentRun :
    Always (step openServer) (Undisturbed openServer requestOfA)
      (State.init.track (Symbolic.message "A" 0 [] toolCall) requestOfA) silentRun := by
  refine ⟨trivial, ?_⟩
  rintro _ ⟨⟩
  refine ⟨trivial, ?_⟩
  rintro _ ⟨⟩
  refine ⟨trivial, ?_⟩
  rintro _ ⟨⟩
  refine ⟨trivial, ?_⟩
  rintro _ ⟨⟩
  refine ⟨?_, fun _ _ ↦ trivial⟩
  rintro session ⟨⟩
  rfl

theorem route_kept_iff_silentRun :
    (∀ pre post m, silentRun = pre ++ post → run (step openServer)
      (State.init.track (Symbolic.message "A" 0 [] toolCall) requestOfA) pre = some m →
      Routed m requestOfA) ↔
    Always (step openServer) (SparesToken openServer requestOfA)
      (State.init.track (Symbolic.message "A" 0 [] toolCall) requestOfA) silentRun := by
  have hbefore : run (step openServer) .init [] = some .init := rfl
  exact route_kept_iff Symbolic.lawful hbefore rfl rfl rfl rfl authenticIds_silentRun
    undisturbed_silentRun

/-- A client can have the route of another's request removed. -/
theorem route_lost :
    ¬ ∀ (S : Sdk) (_ : S.Lawful) (server : NostrServerTransport S)
      (before after : List (Action S)) (event : S.Event) (r : IncomingRequest)
      (s₀ s₁ s₂ : State S), run (step server) .init before = some s₀ →
      server.accept event = .ok r → r.message.isRequest = true →
      step server s₀ (.receive event) = some s₁ → run (step server) s₁ after = some s₂ →
      AuthenticIds server (before ++ .receive event :: after) →
      Always (step server) (Undisturbed server r) s₁ after → Routed s₂ r := by
  intro hall
  have hrouted := hall Symbolic.sdk Symbolic.lawful openServer [] silentRun
    (Symbolic.message "A" 0 [] toolCall) requestOfA _ _ _ rfl rfl rfl rfl rfl
    authenticIds_silentRun undisturbed_silentRun
  cases hrouted.route

end ContextVM.Server
