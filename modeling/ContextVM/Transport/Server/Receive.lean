import ContextVM.Transport.Base

/-!
# The server: receiving

The body of the server's event loop and the cleanup of idle sessions
(`transport/server.rs`), as functions on the two shared maps.

The loop first decides about an event on its own, from the configuration alone: `accept`
gives the request that will be forwarded, or the reason why the loop goes on to the next
event.  Only then does it touch the maps, in `trackSessions` and `trackRoutes`.
-/

namespace ContextVM

open Lib

variable {S : Sdk}

/-- The settings that the running transport reads. -/
structure NostrServerTransportConfig where
  encryptionMode : EncryptionMode
  /-- Allowed client public keys (hex).  Empty: allow all. -/
  allowedPublicKeys : List String
  /-- Capabilities excluded from the allowlist. -/
  excludedCapabilities : List CapabilityExclusion
  sessionTimeout : Nat

/-- The parts of the server transport that do not change while it runs. -/
structure NostrServerTransport (S : Sdk) where
  keys : S.Keys
  config : NostrServerTransportConfig

/-- A message for the consumer, with what is needed to route the response. -/
structure IncomingRequest where
  message : JsonRpcMessage
  clientPubkey : String
  eventId : String
  isEncrypted : Bool

namespace NostrServerTransport

/-- `new` hands the configured encryption mode to the base transport. -/
def base (server : NostrServerTransport S) : BaseTransport S :=
  ⟨server.keys, server.config.encryptionMode⟩

/-! ## The decision about an event -/

/-- The event whose content, author and id the loop goes by, and whether it was wrapped:
the inner event of a gift wrap, and any other event itself. -/
def layer (server : NostrServerTransport S) (event : S.Event) :
    Except Refusal (S.Event × Bool) :=
  if event.kind = giftWrapKind then
    if server.config.encryptionMode = .disabled then .error .encryptionDisabled
    else (innerEvent server.keys event).map fun inner ↦ (inner, true)
  else
    if server.config.encryptionMode = .required then .error .encryptionRequired
    else .ok (event, false)

/-- Whether a method is open to clients that are not on the allowlist. -/
def isCapabilityExcluded (excluded : List CapabilityExclusion) (method : String)
    (name : Option String) : Bool :=
  -- the fundamental methods are always allowed
  if method = "initialize" ∨ method = "notifications/initialized" then true
  else excluded.any fun excl ↦
    if excl.method ≠ method then false
    else
      match excl.name, name with
      | some exclName, some reqName => exclName = reqName
      | none, _ => true
      | _, _ => false

/-- The string `name` in the params of a request. -/
def capabilityName : JsonRpcMessage → Option String
  | .request r => (r.params.bind fun p ↦ p.get "name").bind Value.asStr
  | _ => none

/-- The authorization check.  Messages without a method are checked under the method `""`. -/
def isAuthorized (server : NostrServerTransport S) (mcpMsg : JsonRpcMessage)
    (senderPubkey : String) : Bool :=
  if server.config.allowedPublicKeys ≠ [] then
    let method := mcpMsg.method.getD ""
    let name := capabilityName mcpMsg
    let isExcluded := isCapabilityExcluded server.config.excludedCapabilities method name
    !(!server.config.allowedPublicKeys.contains senderPubkey && !isExcluded)
  else true

/-- The request the loop forwards for an event, or why there is none. -/
def accept (server : NostrServerTransport S) (event : S.Event) :
    Except Refusal IncomingRequest := do
  let (read, isEncrypted) ← server.layer event
  let senderPubkey := S.toHex read.pubkey
  match nostrEventToMcpMessage S read.content with
  | none => .error .invalidMessage
  | some mcpMsg =>
    if server.isAuthorized mcpMsg senderPubkey then
      .ok
        { message := mcpMsg
          clientPubkey := senderPubkey
          eventId := S.idToHex read.id
          isEncrypted }
    else .error .unauthorized

/-! ### What acceptance means -/

theorem layer_encrypted {server : NostrServerTransport S} {event read : S.Event} :
    server.layer event = .ok (read, true) ↔ event.kind = giftWrapKind ∧
      server.config.encryptionMode ≠ .disabled ∧ innerEvent server.keys event = .ok read := by
  unfold layer
  by_cases hk : event.kind = giftWrapKind
  · by_cases hm : server.config.encryptionMode = .disabled
    · simp [hk, hm]
    · cases hi : innerEvent server.keys event <;> simp [hk, hm, Except.map]
  · by_cases hm : server.config.encryptionMode = .required <;> simp [hk, hm]

theorem layer_plain {server : NostrServerTransport S} {event read : S.Event} :
    server.layer event = .ok (read, false) ↔ event.kind ≠ giftWrapKind ∧
      server.config.encryptionMode ≠ .required ∧ event = read := by
  unfold layer
  by_cases hk : event.kind = giftWrapKind
  · by_cases hm : server.config.encryptionMode = .disabled
    · simp [hk, hm]
    · cases hi : innerEvent server.keys event <;> simp [hk, hm, Except.map]
  · by_cases hm : server.config.encryptionMode = .required <;> simp [hk, hm]

/-- The request that is forwarded for an event, in terms of the event `read` that the loop
goes by. -/
structure Accepted (server : NostrServerTransport S) (event : S.Event) (r : IncomingRequest)
    (read : S.Event) : Prop where
  layer : server.layer event = .ok (read, r.isEncrypted)
  message : nostrEventToMcpMessage S read.content = some r.message
  client : r.clientPubkey = S.toHex read.pubkey
  id : r.eventId = S.idToHex read.id
  authorized : server.isAuthorized r.message r.clientPubkey = true

/-- The flag of a request tells how it travelled. -/
theorem Accepted.isEncrypted_iff {server : NostrServerTransport S} {event read : S.Event}
    {r : IncomingRequest} (h : Accepted server event r read) :
    r.isEncrypted = true ↔ event.kind = giftWrapKind := by
  have hlayer := h.layer
  cases henc : r.isEncrypted with
  | true => exact iff_of_true rfl (layer_encrypted.1 (henc ▸ hlayer)).1
  | false => exact iff_of_false nofun (layer_plain.1 (henc ▸ hlayer)).1

theorem accept_ok {server : NostrServerTransport S} {event : S.Event} {r : IncomingRequest}
    (h : server.accept event = .ok r) : ∃ read, Accepted server event r read := by
  unfold accept at h
  cases hl : server.layer event with
  | error why => simp [hl, bind, Except.bind] at h
  | ok layer =>
      obtain ⟨read, isEncrypted⟩ := layer
      simp only [hl, bind, Except.bind] at h
      cases hm : nostrEventToMcpMessage S read.content with
      | none => simp [hm] at h
      | some message =>
          simp only [hm] at h
          split at h
          · next hauth =>
              cases h
              exact ⟨read, hl, hm, rfl, rfl, hauth⟩
          · cases h

end NostrServerTransport

/-! ## The session and route of a request -/

/-- The string `_meta.progressToken` in the params of a request. -/
def JsonRpcRequest.progressToken (req : JsonRpcRequest) : Option String :=
  ((req.params.bind fun p ↦ p.get "_meta").bind fun m ↦ m.get "progressToken").bind Value.asStr

namespace IncomingRequest

/-- The JSON-RPC id of a request. -/
def requestId (r : IncomingRequest) : Option Value :=
  match r.message with
  | .request req => some req.id
  | _ => none

def progressToken (r : IncomingRequest) : Option String :=
  match r.message with
  | .request req => req.progressToken
  | _ => none

theorem isSome_requestId {r : IncomingRequest} (h : r.message.isRequest = true) :
    r.requestId.isSome = true := by
  unfold requestId
  cases hm : r.message with
  | request req => rfl
  | _ => simp [hm, JsonRpcMessage.isRequest] at h

/-- Only requests have a progress token. -/
theorem isRequest_of_progressToken {r : IncomingRequest} {token : String}
    (h : r.progressToken = some token) : r.message.isRequest = true := by
  unfold progressToken at h
  cases hm : r.message with
  | request req => rfl
  | _ => simp [hm] at h

end IncomingRequest

namespace ClientSession

/-- Record a request.  The event id and the progress token are keys of one map. -/
def trackRequest (session : ClientSession) (eventId : String) (req : JsonRpcRequest) :
    ClientSession :=
  let session :=
    { session with pendingRequests := session.pendingRequests.insert eventId req.id }
  match req.progressToken with
  | none => session
  | some token =>
    { session with
      pendingRequests := session.pendingRequests.insert token (.str eventId)
      eventToProgressToken := session.eventToProgressToken.insert eventId token }

/-- What an accepted message does to the session of its sender. -/
def track (session : ClientSession) (now : Nat) (r : IncomingRequest) : ClientSession :=
  let session := { session.updateActivity now with isEncrypted := r.isEncrypted }
  match r.message with
  | .request req => session.trackRequest r.eventId req
  | .notification n =>
    if n.method = "notifications/initialized" then { session with isInitialized := true }
    else session
  | _ => session

@[simp] theorem track_isEncrypted (session : ClientSession) (now : Nat)
    (r : IncomingRequest) : (session.track now r).isEncrypted = r.isEncrypted := by
  unfold track
  cases r.message with
  | request req =>
      simp only [trackRequest]
      cases req.progressToken <;> rfl
  | notification n =>
      simp only []
      split <;> rfl
  | _ => rfl

/-- The token and the event id are keys of one map.  The token is inserted last. -/
theorem lookup_track_pendingRequests (session : ClientSession) (now : Nat)
    (r : IncomingRequest) (k : String) :
    (session.track now r).pendingRequests.lookup k =
      if r.progressToken = some k then some (.str r.eventId)
      else if r.message.isRequest ∧ k = r.eventId then r.requestId
      else session.pendingRequests.lookup k := by
  unfold track IncomingRequest.progressToken IncomingRequest.requestId
  cases r.message with
  | request req =>
      simp only [trackRequest]
      cases ht : req.progressToken with
      | none => simp [Table.lookup_insert_eq, JsonRpcMessage.isRequest, updateActivity]
      | some token =>
          simp [Table.lookup_insert_eq, JsonRpcMessage.isRequest, updateActivity, eq_comm]
  | notification n =>
      simp only [JsonRpcMessage.isRequest]
      split <;> simp [updateActivity]
  | _ => simp [JsonRpcMessage.isRequest, updateActivity]

theorem mem_track_pendingRequests {session : ClientSession} {now : Nat} {r : IncomingRequest}
    {k : String} : k ∈ (session.track now r).pendingRequests ↔ r.progressToken = some k ∨
      (r.message.isRequest = true ∧ k = r.eventId) ∨ k ∈ session.pendingRequests := by
  rw [← AList.lookup_isSome, lookup_track_pendingRequests, ← AList.lookup_isSome]
  split
  · next ht => exact iff_of_true rfl (.inl ht)
  · next ht =>
      rw [or_iff_right ht]
      split
      · next hk => exact iff_of_true (IncomingRequest.isSome_requestId hk.1) (.inl hk)
      · next hk => rw [or_iff_right hk]

theorem lookup_track_eventToProgressToken (session : ClientSession) (now : Nat)
    (r : IncomingRequest) (k : String) :
    (session.track now r).eventToProgressToken.lookup k =
      if k = r.eventId ∧ r.progressToken.isSome then r.progressToken
      else session.eventToProgressToken.lookup k := by
  unfold track IncomingRequest.progressToken
  cases r.message with
  | request req =>
      simp only [trackRequest]
      cases ht : req.progressToken with
      | none => simp [updateActivity]
      | some token => simp [Table.lookup_insert_eq, updateActivity]
  | notification n =>
      simp only []
      split <;> simp [updateActivity]
  | _ => simp [updateActivity]

/-- `last_activity.elapsed() > timeout`. -/
def isExpired (session : ClientSession) (now timeout : Nat) : Bool :=
  decide (timeout < now - session.lastActivity)

/-- The keys that the cleanup of an expired session deletes from the routes. -/
def trackedKeys (session : ClientSession) : List String :=
  session.pendingRequests.keys ++ session.eventToProgressToken.keys

end ClientSession

namespace NostrServerTransport

/-- The sessions after an accepted message: the sender's is created if there is none. -/
def trackSessions (now : Nat) (r : IncomingRequest) (sessions : Table String ClientSession) :
    Table String ClientSession :=
  let session := (sessions.lookup r.clientPubkey).getD (.new now r.isEncrypted)
  sessions.insert r.clientPubkey (session.track now r)

/-- The routes after an accepted message: only requests have one. -/
def trackRoutes (r : IncomingRequest) (eventToClient : Table String String) :
    Table String String :=
  match r.message with
  | .request _ => eventToClient.insert r.eventId r.clientPubkey
  | _ => eventToClient

/-! ## Cleanup -/

/-- The sessions that a tick keeps. -/
def keptSessions (now timeout : Nat) (sessions : Table String ClientSession) :
    Table String ClientSession :=
  Table.retain (fun _ session ↦ !session.isExpired now timeout) sessions

/-- The keys that a tick deletes from the routes. -/
def expiredKeys (now timeout : Nat) (sessions : Table String ClientSession) : List String :=
  (sessions.entries.filter fun e ↦ e.2.isExpired now timeout).flatMap fun e ↦ e.2.trackedKeys

/-- `cleanup_sessions`: the sessions, the routes and the number of sessions removed. -/
def cleanupSessions (now timeout : Nat) (sessions : Table String ClientSession)
    (eventToClient : Table String String) :
    Table String ClientSession × Table String String × Nat :=
  (keptSessions now timeout sessions,
    Table.eraseAll (expiredKeys now timeout sessions) eventToClient,
    (sessions.entries.filter fun e ↦ e.2.isExpired now timeout).length)

/-! ## What is read of the maps afterwards -/

theorem lookup_trackSessions (now : Nat) (r : IncomingRequest)
    (sessions : Table String ClientSession) (c : String) :
    (trackSessions now r sessions).lookup c =
      if c = r.clientPubkey then
        some (((sessions.lookup r.clientPubkey).getD (.new now r.isEncrypted)).track now r)
      else sessions.lookup c :=
  Table.lookup_insert_eq ..

theorem lookup_trackRoutes (r : IncomingRequest) (routes : Table String String) (e : String) :
    (trackRoutes r routes).lookup e =
      if r.message.isRequest ∧ e = r.eventId then some r.clientPubkey else routes.lookup e := by
  unfold trackRoutes JsonRpcMessage.isRequest
  cases r.message with
  | request req => simp [Table.lookup_insert_eq]
  | _ => simp

theorem lookup_keptSessions {now timeout : Nat} {sessions : Table String ClientSession}
    {c : String} {session : ClientSession} :
    (keptSessions now timeout sessions).lookup c = some session ↔
      sessions.lookup c = some session ∧ session.isExpired now timeout = false := by
  rw [keptSessions, Table.lookup_retain_eq_some]
  simp

theorem mem_expiredKeys {now timeout : Nat} {sessions : Table String ClientSession}
    {k : String} :
    k ∈ expiredKeys now timeout sessions ↔ ∃ c session, sessions.lookup c = some session ∧
      session.isExpired now timeout = true ∧ k ∈ session.trackedKeys := by
  simp only [expiredKeys, List.mem_flatMap, List.mem_filter]
  constructor
  · rintro ⟨⟨c, session⟩, ⟨hmem, hexp⟩, hk⟩
    exact ⟨c, session, AList.mem_lookup_iff.2 hmem, hexp, hk⟩
  · rintro ⟨c, session, hl, hexp, hk⟩
    exact ⟨⟨c, session⟩, ⟨AList.mem_lookup_iff.1 hl, hexp⟩, hk⟩

theorem ClientSession.mem_trackedKeys {session : ClientSession} {k : String} :
    k ∈ session.trackedKeys ↔
      k ∈ session.pendingRequests ∨ k ∈ session.eventToProgressToken := by
  simp [ClientSession.trackedKeys, AList.mem_keys]

end NostrServerTransport

end ContextVM
