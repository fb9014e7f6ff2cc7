import ContextVM.Transport.Client.Authenticity
import ContextVM.Transport.Server.Send

/-!
# Correlated messages

The server puts the tag `e` on a response and on the notifications that belong to a request
under way.  The loop of the client looks at the tag and not at the kind of the message: the
first message that is correlated with a request takes the request off the pending set, and
what comes after it is refused.

`correlated` is what an event says about a request, `arrivals` what a run received about it,
and `deliveries` what the log says was forwarded.
-/

namespace ContextVM.Client

open Lib NostrClientTransport
open Symbolic (toolCall emptyResponse)

variable {S : Sdk} {client : NostrClientTransport S}

/-- The message of an event that is by the server and correlated with the request `e`. -/
def correlated (client : NostrClientTransport S) (e : String) (event : S.Event) :
    Option JsonRpcMessage :=
  match client.layer event with
  | .ok read =>
    if read.pubkey = client.serverPubkey ∧ getTagValue read.tags "e" = some e then
      nostrEventToMcpMessage S read.content
    else none
  | .error _ => none

def Action.correlated? (client : NostrClientTransport S) (e : String) :
    Action S → Option JsonRpcMessage
  | .receive event => correlated client e event
  | _ => none

/-- The messages about the request `e` that arrive in a run, in their order. -/
def arrivals (client : NostrClientTransport S) (e : String) (as : List (Action S)) :
    List JsonRpcMessage :=
  as.filterMap (Action.correlated? client e)

def Obs.delivered? (e : String) : Obs S → Option JsonRpcMessage
  | .forwarded _ eTag message => if eTag = some e then some message else none
  | _ => none

/-- The messages about the request `e` that were forwarded, in their order. -/
def deliveries (e : String) (log : List (Obs S)) : List JsonRpcMessage :=
  (log.filterMap (Obs.delivered? e)).reverse

/-- The loop is not at a message about the request `e`. -/
def Idle (e : String) (s : State S) : Prop :=
  ∀ t, s.loop = some t → t.eTag = some e → nostrEventToMcpMessage S t.content = none

theorem idle_of_loop {e : String} {s : State S} (h : s.loop = none) : Idle e s := by
  intro t ht
  cases h.symm.trans ht

theorem correlated_eq_some {e : String} {event : S.Event} {message : JsonRpcMessage} :
    correlated client e event = some message ↔
      ∃ content read, Read client event content (some e) read ∧
        nostrEventToMcpMessage S content = some message := by
  unfold correlated
  constructor
  · intro h
    cases hl : client.layer event with
    | error why => simp [hl] at h
    | ok read =>
        simp only [hl, Option.ite_none_right_eq_some] at h
        exact ⟨read.content, read, ⟨hl, h.1.1, rfl, h.1.2⟩, h.2⟩
  · rintro ⟨content, read, hread, hm⟩
    rw [hread.layer]
    simp only [hread.author, hread.eTag, hread.content, and_self, if_true, hm]

/-- The loop forwards a message about a request if the request is pending when the loop
checks the message, and only then. -/
theorem forwards_of_pending {e : String} {s : State S} {event : S.Event}
    {message : JsonRpcMessage} (hcorr : correlated client e event = some message)
    (hidle : s.loop = none) (hpending : e ∈ s.pendingRequests) :
    Forwards client s event (some e) message := by
  obtain ⟨content, read, hread, hm⟩ := correlated_eq_some.1 hcorr
  refine forwards_of_take hidle (take_ok.2 ⟨⟨read, hread⟩, ?_⟩) hm
  intro id hid
  exact Option.some.inj hid ▸ hpending

theorem pending_of_forwards {e : String} {s : State S} {event : S.Event}
    {message : JsonRpcMessage} (hcorr : correlated client e event = some message)
    (h : Forwards client s event (some e) message) : e ∈ s.pendingRequests := by
  obtain ⟨content, eTag, htake⟩ := h.take
  obtain ⟨⟨read, hread⟩, hpending⟩ := take_ok.1 htake
  obtain ⟨_, read', hread', -⟩ := correlated_eq_some.1 hcorr
  exact hpending e (hread.unique hread').2

/-! ## What the server sends about a request -/

/-- What the loop reads of an event that the server has sent to the client. -/
theorem read_of_sent (hS : S.Lawful) {base : BaseTransport S}
    (hserver : client.serverPubkey = S.publicKey base.keys) {amb : Ambient S}
    {message : JsonRpcMessage} {tags : List Tag} {encrypted : Bool}
    {signed published : S.Event}
    (h : Sent base amb message (S.publicKey client.keys) ctxvmMessagesKind tags encrypted
      signed published) :
    Read client published signed.content (getTagValue signed.tags "e") signed := by
  refine ⟨?_, (h.signed_pubkey hS).trans hserver.symm, rfl, rfl⟩
  have hkind := h.kind_eq_giftWrap_iff hS (by decide)
  unfold NostrClientTransport.layer
  cases encrypted with
  | true => rw [if_pos (hkind.2 rfl), hS.innerEvent_giftWrap (h.wraps rfl)]
  | false => rw [if_neg (fun hk ↦ nomatch hkind.1 hk), h.plain rfl]

theorem correlated_of_sent (hS : S.Lawful) {base : BaseTransport S}
    (hserver : client.serverPubkey = S.publicKey base.keys) {amb : Ambient S}
    {message : JsonRpcMessage} {eventId : S.EventId} {encrypted : Bool}
    {signed published : S.Event}
    (h : Sent base amb message (S.publicKey client.keys) ctxvmMessagesKind
      (createResponseTags S (S.publicKey client.keys) eventId) encrypted signed published) :
    correlated client (S.idToHex eventId) published = some message.canonical := by
  have hread := read_of_sent hS hserver h
  rw [h.signed_tags hS, getTagValue_createResponseTags] at hread
  exact correlated_eq_some.2 ⟨_, _, hread, h.signed_message hS⟩

/-- A response to the client is correlated with the request it was sent for. -/
theorem correlated_publishResponse (hS : S.Lawful) {server : NostrServerTransport S}
    (hserver : client.serverPubkey = S.publicKey server.keys) {amb : Ambient S}
    {eventId : S.EventId} {c : String} {response : JsonRpcMessage} {enc : Bool}
    {p : Publication S}
    (h : server.publishResponse amb (S.idToHex eventId) c response enc = .ok p)
    (hclient : p.recipient = S.publicKey client.keys) :
    correlated client (S.idToHex eventId) p.event = some response.canonical := by
  obtain ⟨-, -, eid, signed, heid, hsent⟩ := NostrServerTransport.publishResponse_ok h
  cases (hS.idFromHex_idToHex eventId).symm.trans heid
  rw [hclient] at hsent
  exact correlated_of_sent hS hserver hsent

/-- And so is a notification about the request. -/
theorem correlated_publishNotification (hS : S.Lawful) {server : NostrServerTransport S}
    (hserver : client.serverPubkey = S.publicKey server.keys) {amb : Ambient S}
    {eventId : S.EventId} {c : String} {notification : JsonRpcMessage} {enc : Bool}
    {p : Publication S}
    (h : server.publishNotification amb c notification (some (S.idToHex eventId)) enc = .ok p)
    (hclient : p.recipient = S.publicKey client.keys) :
    correlated client (S.idToHex eventId) p.event = some notification.canonical := by
  rw [NostrServerTransport.publishNotification_some] at h
  exact correlated_publishResponse hS hserver h hclient

/-! ## What a step does to a request -/

@[simp] theorem deliveries_cons (e : String) (o : Obs S) (log : List (Obs S)) :
    deliveries e (o :: log) = deliveries e log ++ (o.delivered? e).toList := by
  unfold deliveries
  cases h : o.delivered? e <;> simp [h]

/-- A step that is not the loop's: it receives nothing, forwards nothing, and what is
pending stays pending. -/
theorem Transition.aside {s s' : State S} {a : Action S} (h : Transition client s a s')
    (hreceive : ∀ event, a ≠ .receive event) (hdeliver : a ≠ .deliver) (e : String) :
    s'.loop = s.loop ∧ deliveries e s'.log = deliveries e s.log ∧
      (e ∈ s.pendingRequests → e ∈ s'.pendingRequests) := by
  cases h with
  | refused event | taken event => exact absurd rfl (hreceive event)
  | forwarded | unparsed => exact absurd rfl hdeliver
  | registered i amb eventId ht =>
      refine ⟨rfl, ?_, fun he ↦ Finset.mem_insert_of_mem he⟩
      simp [State.finish, State.register, Obs.delivered?]
  | _ =>
      refine ⟨rfl, ?_, id⟩
      simp [State.call, State.finish, State.observe, State.publish, Obs.delivered?]

/-- An idle loop forwards nothing about the request. -/
theorem Transition.delivered_other {s s' : State S} (h : Transition client s .deliver s')
    {e : String} (hidle : Idle e s) :
    Idle e s' ∧ deliveries e s'.log = deliveries e s.log ∧
      (e ∈ s.pendingRequests → e ∈ s'.pendingRequests) := by
  cases h with
  | forwarded t message hl hm =>
      have htag : t.eTag ≠ some e := fun htag ↦ by simp [hidle t hl htag] at hm
      refine ⟨by rintro t' ⟨⟩, by simp [State.forward, Obs.delivered?, htag], fun he ↦ ?_⟩
      cases htag' : t.eTag with
      | none => simpa [State.forward, cleanUp, htag'] using he
      | some id =>
          have hne : e ≠ id := fun h ↦ htag (by rw [htag', h])
          simpa [State.forward, cleanUp, htag', hne] using he
  | unparsed t hl hm => exact ⟨by rintro t' ⟨⟩, rfl, id⟩

/-- The message that is forwarded takes the request off the pending set. -/
theorem Transition.delivered {s s' : State S} (h : Transition client s .deliver s')
    {e : String} {t : Taken S} {message : JsonRpcMessage} (hloop : s.loop = some t)
    (htag : t.eTag = some e) (hm : nostrEventToMcpMessage S t.content = some message) :
    s' = s.forward t message ∧ e ∉ s'.pendingRequests ∧
      deliveries e s'.log = deliveries e s.log ++ [message] := by
  cases h with
  | forwarded t' message' hl hm' =>
      cases hl.symm.trans hloop
      cases hm'.symm.trans hm
      refine ⟨rfl, by simp [State.forward, cleanUp, htag], ?_⟩
      simp [State.forward, Obs.delivered?, htag]
  | unparsed t' hl hm' =>
      cases hl.symm.trans hloop
      exact absurd hm (by simp [hm'])

/-- While the request is pending, the loop takes every message about it. -/
theorem Transition.received {s s' : State S} {event : S.Event}
    (h : Transition client s (.receive event) s') {e : String} {message : JsonRpcMessage}
    (hcorr : correlated client e event = some message) (hpending : e ∈ s.pendingRequests) :
    ∃ content, s' = { s with loop := some ⟨event, content, some e⟩ } ∧
      nostrEventToMcpMessage S content = some message := by
  obtain ⟨content, read, hread, hm⟩ := correlated_eq_some.1 hcorr
  have htake : client.take s.pendingRequests event = .ok (content, some e) := by
    refine take_ok.2 ⟨⟨read, hread⟩, ?_⟩
    intro id hid
    exact Option.some.inj hid ▸ hpending
  cases h with
  | refused event why hl h => cases h.symm.trans htake
  | taken event content' eTag hl h =>
      cases h.symm.trans htake
      exact ⟨content, rfl, hm⟩

/-- Other messages leave the loop idle. -/
theorem Transition.received_other {s s' : State S} {event : S.Event}
    (h : Transition client s (.receive event) s') {e : String}
    (hcorr : correlated client e event = none) :
    Idle e s' ∧ s'.log = s.log ∧ s'.pendingRequests = s.pendingRequests := by
  cases h with
  | refused event why hl h =>
      refine ⟨fun t ht ↦ ?_, rfl, rfl⟩
      cases hl.symm.trans ht
  | taken event content eTag hl h =>
      refine ⟨fun t ht htag ↦ ?_, rfl, rfl⟩
      cases ht
      by_contra hm
      obtain ⟨message, hm⟩ := Option.ne_none_iff_exists'.1 hm
      obtain ⟨⟨read, hread⟩, -⟩ := take_ok.1 h
      have htag : eTag = some e := htag
      rw [htag] at hread
      have hsome := correlated_eq_some.2 ⟨content, read, hread, hm⟩
      exact absurd hcorr (by simp [hsome])

/-- The loop that is at a message receives none. -/
theorem Transition.not_receive {s s' : State S} {a : Action S} (h : Transition client s a s')
    {t : Taken S} (hloop : s.loop = some t) (event : S.Event) : a ≠ .receive event := by
  rintro rfl
  cases h with
  | refused _ why hl | taken _ content eTag hl => cases hl.symm.trans hloop

/-! ## What a run does to a request -/

/-- As long as nothing about the request arrives, it waits. -/
theorem Transition.waits {s s' : State S} {a : Action S} (h : Transition client s a s')
    {e : String} (ha : a.correlated? client e = none) (hidle : Idle e s) :
    Idle e s' ∧ deliveries e s'.log = deliveries e s.log ∧
      (e ∈ s.pendingRequests → e ∈ s'.pendingRequests) := by
  cases a with
  | receive event =>
      obtain ⟨hidle', hlog, hpending⟩ := h.received_other ha
      exact ⟨hidle', by rw [hlog], fun he ↦ hpending ▸ he⟩
  | deliver => exact h.delivered_other hidle
  | call message =>
      obtain ⟨hloop, hrest⟩ := h.aside nofun nofun e
      exact ⟨fun t ht ↦ hidle t (hloop ▸ ht), hrest⟩
  | resume i amb =>
      obtain ⟨hloop, hrest⟩ := h.aside nofun nofun e
      exact ⟨fun t ht ↦ hidle t (hloop ▸ ht), hrest⟩

theorem arrivals_cons_eq_nil {e : String} {a : Action S} {as : List (Action S)} :
    arrivals client e (a :: as) = [] ↔
      a.correlated? client e = none ∧ arrivals client e as = [] := by
  unfold arrivals
  cases h : a.correlated? client e <;> simp [h]

theorem run_waits {s s' : State S} {as : List (Action S)} {e : String} (hidle : Idle e s)
    (hrun : run (step client) s as = some s') (has : arrivals client e as = []) :
    Idle e s' ∧ deliveries e s'.log = deliveries e s.log ∧
      (e ∈ s.pendingRequests → e ∈ s'.pendingRequests) := by
  induction as generalizing s with
  | nil =>
      cases hrun
      exact ⟨hidle, rfl, id⟩
  | cons a as ih =>
      obtain ⟨m, hm, hrest⟩ := (run_cons_eq_some _).1 hrun
      obtain ⟨ha, has⟩ := arrivals_cons_eq_nil.1 has
      obtain ⟨hidle₁, hlog₁, hpending₁⟩ := (step_transition hm).waits ha hidle
      obtain ⟨hidle₂, hlog₂, hpending₂⟩ := ih hidle₁ hrest has
      exact ⟨hidle₂, hlog₂.trans hlog₁, hpending₂ ∘ hpending₁⟩

/-- The request is pending at every step of the run. -/
def Pending (client : NostrClientTransport S) (e : String) (s : State S)
    (as : List (Action S)) : Prop :=
  Always (step client) (fun m _ ↦ e ∈ m.pendingRequests) s as

theorem pending_of_waits {s s' : State S} {as : List (Action S)} {b : Action S} {e : String}
    (hidle : Idle e s) (hrun : run (step client) s as = some s')
    (has : arrivals client e as = []) (hpending : e ∈ s.pendingRequests) :
    Pending client e s (as ++ [b]) := by
  induction as generalizing s with
  | nil => exact ⟨hpending, fun _ _ ↦ trivial⟩
  | cons a as ih =>
      obtain ⟨ha, has⟩ := arrivals_cons_eq_nil.1 has
      refine ⟨hpending, fun m hm ↦ ?_⟩
      have hrest : run (step client) m as = some s' := by simpa [hm] using hrun
      obtain ⟨hidle', -, hpending'⟩ := (step_transition hm).waits ha hidle
      exact ih hidle' hrest has (hpending' hpending)

theorem Pending.head {s : State S} {as : List (Action S)} {b : Action S} {e : String}
    (h : Pending client e s (as ++ [b])) : e ∈ s.pendingRequests := by
  cases as with
  | nil => exact h.1
  | cons a as => exact h.1

/-- The loop forwards the message it is at, and nothing else about the request. -/
theorem run_answers {s s' : State S} {as : List (Action S)} {e : String} {t : Taken S}
    {message : JsonRpcMessage} (hloop : s.loop = some t) (htag : t.eTag = some e)
    (hm : nostrEventToMcpMessage S t.content = some message)
    (hrun : run (step client) s as = some s') (has : arrivals client e as = [])
    (hidle : Idle e s') : deliveries e s'.log = deliveries e s.log ++ [message] := by
  induction as generalizing s with
  | nil =>
      cases hrun
      exact absurd (hidle t hloop htag) (by simp [hm])
  | cons a as ih =>
      obtain ⟨m, hstep, hrest⟩ := (run_cons_eq_some _).1 hrun
      obtain ⟨-, has⟩ := arrivals_cons_eq_nil.1 has
      have htrans := step_transition hstep
      by_cases ha : a = .deliver
      · subst ha
        obtain ⟨rfl, -, hlog⟩ := htrans.delivered hloop htag hm
        obtain ⟨-, hlog', -⟩ := run_waits (idle_of_loop rfl) hrest has
        rw [hlog', hlog]
      · obtain ⟨hloop', hlog, -⟩ := htrans.aside (htrans.not_receive hloop) ha e
        rw [ih (hloop'.trans hloop) hrest has, hlog]

/-- As long as the request is pending, the loop stays at the first message about it. -/
theorem run_stays {s s' : State S} {as : List (Action S)} {b : Action S} {e : String}
    {t : Taken S} {message : JsonRpcMessage} (hloop : s.loop = some t)
    (htag : t.eTag = some e) (hm : nostrEventToMcpMessage S t.content = some message)
    (hrun : run (step client) s as = some s') (hpending : Pending client e s (as ++ [b])) :
    s'.loop = some t := by
  induction as generalizing s with
  | nil => exact Option.some.inj hrun ▸ hloop
  | cons a as ih =>
      obtain ⟨m, hstep, hrest⟩ := (run_cons_eq_some _).1 hrun
      have hpending' : Pending client e m (as ++ [b]) := hpending.2 m hstep
      have htrans := step_transition hstep
      refine ih (htrans.loop_stays hloop ?_) hrest hpending'
      rintro rfl
      exact (htrans.delivered hloop htag hm).2.1 hpending'.head

/-- If the request is pending throughout, then the loop could not have received a message
about it and go on to receive another event. -/
theorem arrivals_eq_nil_of_pending {s s' s'' : State S} {as : List (Action S)}
    {event : S.Event} {e : String} (hidle : Idle e s)
    (hrun : run (step client) s as = some s')
    (hreceive : step client s' (.receive event) = some s'')
    (hpending : Pending client e s (as ++ [.receive event])) : arrivals client e as = [] := by
  induction as generalizing s with
  | nil => rfl
  | cons a as ih =>
      obtain ⟨m, hstep, hrest⟩ := (run_cons_eq_some _).1 hrun
      have hpending' : Pending client e m (as ++ [.receive event]) := hpending.2 m hstep
      have htrans := step_transition hstep
      cases ha : a.correlated? client e with
      | none =>
          obtain ⟨hidle', -, -⟩ := htrans.waits ha hidle
          exact arrivals_cons_eq_nil.2 ⟨ha, ih hidle' hrest hpending'⟩
      | some message =>
          cases a with
          | receive first =>
              obtain ⟨content, rfl, hm⟩ := htrans.received ha hpending.head
              have hloop := run_stays rfl rfl hm hrest hpending'
              exact absurd rfl ((step_transition hreceive).not_receive hloop event)
          | _ => cases ha

/-! ## Correlated messages and the response -/

/-- Everything about a request is forwarded, and the request is pending until the response,
exactly if the response is the first message about it. -/
theorem correlated_delivered_iff {s s' : State S} {e : String}
    (hpending : e ∈ s.pendingRequests) (hidle : Idle e s) {pre post : List (Action S)}
    {event : S.Event} (hrun : run (step client) s (pre ++ .receive event :: post) = some s')
    {response : JsonRpcMessage} (hresponse : correlated client e event = some response)
    (hpost : arrivals client e post = []) (hidle' : Idle e s') :
    (deliveries e s'.log = deliveries e s.log ++ arrivals client e pre ++ [response] ∧
        Pending client e s (pre ++ [.receive event])) ↔ arrivals client e pre = [] := by
  obtain ⟨m, hpre, hrest⟩ := (run_append_eq_some _).1 hrun
  obtain ⟨m', hreceive, hrest⟩ := (run_cons_eq_some _).1 hrest
  constructor
  · rintro ⟨-, halways⟩
    exact arrivals_eq_nil_of_pending hidle hpre hreceive halways
  · intro hnone
    obtain ⟨-, hlog, hkept⟩ := run_waits hidle hpre hnone
    obtain ⟨content, rfl, hm⟩ :=
      (step_transition hreceive).received hresponse (hkept hpending)
    have hanswer := run_answers rfl rfl hm hrest hpost hidle'
    refine ⟨?_, pending_of_waits hidle hpre hnone hpending⟩
    rw [hanswer, hlog, hnone, List.append_nil]

/-- A newly registered request is one that `correlated_delivered_iff` is about. -/
theorem Reachable.awaits {s s' : State S} {a : Action S} (hs : Reachable client s)
    (hstep : Client.step client s a = some s') {i : Nat} {e : String}
    (hnew : ∀ j, .registered j e ∉ s.log) (hmem : .registered i e ∈ s'.log) :
    e ∈ s'.pendingRequests ∧ Idle e s' := by
  have htrans := step_transition hstep
  have hpending : e ∈ s'.pendingRequests :=
    (htrans.log_registered hmem).resolve_left (hnew i)
  refine ⟨hpending, fun t hl htag ↦ ?_⟩
  rcases htrans.loop_from hl with hl | ⟨-, htake⟩
  · obtain ⟨j, hj⟩ := hs.registered.loop t e hl htag
    exact absurd hj (hnew j)
  · obtain ⟨j, hj⟩ := hs.registered.pending e ((take_ok.1 htake).2 e htag)
    exact absurd hj (hnew j)

/-- A client that sends plaintext. -/
def plainClient : NostrClientTransport Symbolic.sdk where
  keys := "A"
  serverPubkey := "server"
  encryptionMode := .disabled
  isStateless := false

/-- The client has sent one request. -/
def awaitingRun : List (Action Symbolic.sdk) :=
  [.call toolCall, .resume 0 (Symbolic.ambient 0), .resume 0 (Symbolic.ambient 0)]

def awaitingState : State Symbolic.sdk := (run (step plainClient) .init awaitingRun).get rfl

def progress : JsonRpcMessage := .notification ⟨"2.0", "notifications/progress", none⟩

/-- What the server sends about the request. -/
def about (time : Nat) (message : JsonRpcMessage) : Symbolic.sdk.Event :=
  Symbolic.message "server" time (createResponseTags Symbolic.sdk "A" "A/25910/0") message

/-- What the server sends about no request of the client. -/
def news (time : Nat) : Symbolic.sdk.Event :=
  Symbolic.message "server" time (createRecipientTags Symbolic.sdk "A") progress

/-- A notification, and a response to a request that the client has not made. -/
def newsRun : List (Action Symbolic.sdk) :=
  [.receive (news 1), .deliver,
    .receive (Symbolic.message "server" 2
      (createResponseTags Symbolic.sdk "A" "A/25910/9") emptyResponse)]

theorem correlated_delivered_iff_awaitingState :
    ∃ s' : State Symbolic.sdk, run (step plainClient) awaitingState
        (newsRun ++ .receive (about 3 emptyResponse) :: [.deliver, .receive (news 4), .deliver]) =
          some s' ∧
      deliveries "A/25910/0" s'.log = [emptyResponse] ∧
      Pending plainClient "A/25910/0" awaitingState
        (newsRun ++ [.receive (about 3 emptyResponse)]) := by
  have hrun : run (step plainClient) awaitingState
    (newsRun ++ .receive (about 3 emptyResponse) :: [.deliver, .receive (news 4), .deliver]) =
      some _ := rfl
  refine ⟨_, hrun, ?_⟩
  have hpending : "A/25910/0" ∈ awaitingState.pendingRequests := Finset.mem_insert_self ..
  have hidle : Idle "A/25910/0" awaitingState := idle_of_loop rfl
  have hresponse : correlated plainClient "A/25910/0" (about 3 emptyResponse) =
    some emptyResponse := rfl
  have hnone : arrivals plainClient "A/25910/0" newsRun = [] := rfl
  have hboth := correlated_delivered_iff hpending hidle hrun hresponse rfl (idle_of_loop rfl)
  exact hboth.2 hnone

/-- A notification about a request costs the client the response. -/
theorem response_after_notification_lost :
    ¬ ∀ (S : Sdk) (_ : S.Lawful) (client : NostrClientTransport S) (s s' : State S)
      (e : String) (pre post : List (Action S)) (event : S.Event) (response : JsonRpcMessage),
      Reachable client s → e ∈ s.pendingRequests → Idle e s →
      run (step client) s (pre ++ .receive event :: post) = some s' →
      (∀ message ∈ arrivals client e pre, message.isNotification = true) →
      correlated client e event = some response →
      (response.isResponse = true ∨ response.isError = true) →
      arrivals client e post = [] → Idle e s' →
        deliveries e s'.log = deliveries e s.log ++ arrivals client e pre ++ [response] ∧
          Pending client e s (pre ++ [.receive event]) := by
  intro h
  have hreach : Reachable plainClient awaitingState := ⟨awaitingRun, rfl⟩
  have hpending : "A/25910/0" ∈ awaitingState.pendingRequests := Finset.mem_insert_self ..
  have hnotes : ∀ message ∈ arrivals plainClient "A/25910/0"
      [.receive (about 1 progress), .deliver], message.isNotification = true := by
    have hpre : arrivals plainClient "A/25910/0" [.receive (about 1 progress), .deliver] =
      [progress] := rfl
    rw [hpre]
    rintro message (_ | ⟨_, ⟨⟩⟩)
    rfl
  have hlost := h Symbolic.sdk Symbolic.lawful plainClient awaitingState _ "A/25910/0"
    [.receive (about 1 progress), .deliver] [] (about 2 emptyResponse) emptyResponse
    hreach hpending (idle_of_loop rfl) rfl hnotes rfl (.inl rfl) rfl (idle_of_loop rfl)
  have hlength := congrArg List.length hlost.1
  exact absurd hlength (by decide)

end ContextVM.Client
