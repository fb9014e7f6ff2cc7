import ContextVM.Transport.Server.Receive

/-!
# The server: sending

`send_response` and `send_notification` of `transport/server.rs`, cut where the code gives
up a lock or waits for the network.  Between two of these pieces any other task can run;
`Transport/Server/System.lean` puts them in sequence.
-/

namespace ContextVM

open Lib

variable {S : Sdk}

/-- Put the id of the original request into a response.  Other messages have no id to
restore. -/
def JsonRpcMessage.restoreId (originalId : Value) : JsonRpcMessage → JsonRpcMessage
  | .response r => .response { r with id := originalId }
  | .errorResponse r => .errorResponse { r with id := originalId }
  | message => message

/-- A message that has gone out, with the key it is for. -/
structure Publication (S : Sdk) where
  message : JsonRpcMessage
  recipient : S.PublicKey
  event : S.Event

namespace ClientSession

/-- The response with the id that the session has recorded for the event, if it has one. -/
def restore (session : ClientSession) (eventId : String) (response : JsonRpcMessage) :
    JsonRpcMessage :=
  match session.pendingRequests.lookup eventId with
  | some originalId => response.restoreId originalId
  | none => response

/-- Drop what an answered request left in the session: its progress token, the entry of that
token, and its own entry. -/
def forget (session : ClientSession) (eventId : String) : ClientSession :=
  let session :=
    match session.eventToProgressToken.lookup eventId with
    | none => session
    | some token =>
      { session with
        pendingRequests := session.pendingRequests.erase token
        eventToProgressToken := session.eventToProgressToken.erase eventId }
  { session with pendingRequests := session.pendingRequests.erase eventId }

end ClientSession

namespace NostrServerTransport

/-! ## The pieces of `send_response` -/

/-- Read the route of the event. -/
def findClient (eventToClient : Table String String) (eventId : String) : Except Error String :=
  match eventToClient.lookup eventId with
  | some clientPubkeyHex => .ok clientPubkeyHex
  | none => .error (.other ("No client found for event " ++ eventId))

/-- Read the session of a client.  The two callers have their own words for a failure. -/
def readSession (failure : String) (sessions : Table String ClientSession)
    (clientPubkeyHex : String) : Except Error ClientSession :=
  match sessions.lookup clientPubkeyHex with
  | some session => .ok session
  | none => .error (.other (failure ++ clientPubkeyHex))

def responseSession (sessions : Table String ClientSession) (clientPubkeyHex : String) :
    Except Error ClientSession :=
  readSession "No session for client " sessions clientPubkeyHex

def publishResponse (server : NostrServerTransport S) (amb : Ambient S)
    (eventId clientPubkeyHex : String) (response : JsonRpcMessage) (isEncrypted : Bool) :
    Except Error (Publication S) := do
  let clientPubkey ← (S.fromHex clientPubkeyHex).mapError .other
  let eventIdParsed ← (S.idFromHex eventId).mapError .other
  let tags := createResponseTags S clientPubkey eventIdParsed
  let (_, event) ← server.base.sendMcpMessage amb response clientPubkey ctxvmMessagesKind tags
    (some isEncrypted)
  return { message := response, recipient := clientPubkey, event }

/-- Clean up the session, if the client still has one. -/
def cleanSession (eventId clientPubkeyHex : String) (sessions : Table String ClientSession) :
    Table String ClientSession :=
  match sessions.lookup clientPubkeyHex with
  | none => sessions
  | some session => sessions.insert clientPubkeyHex (session.forget eventId)

/-! ## The pieces of `send_notification` -/

def notificationSession (sessions : Table String ClientSession) (clientPubkeyHex : String) :
    Except Error ClientSession :=
  readSession "No session for " sessions clientPubkeyHex

def publishNotification (server : NostrServerTransport S) (amb : Ambient S)
    (clientPubkeyHex : String) (notification : JsonRpcMessage)
    (correlatedEventId : Option String) (isEncrypted : Bool) :
    Except Error (Publication S) := do
  let clientPubkey ← (S.fromHex clientPubkeyHex).mapError .other
  let tags ← match correlatedEventId with
    | none => .ok (createRecipientTags S clientPubkey)
    | some eid => do
      let eventId ← (S.idFromHex eid).mapError .other
      .ok (createRecipientTags S clientPubkey ++ [.event (S.idToHex eventId)])
  let (_, event) ← server.base.sendMcpMessage amb notification clientPubkey ctxvmMessagesKind
    tags (some isEncrypted)
  return { message := notification, recipient := clientPubkey, event }

/-- The clients a broadcast goes to, in the order of the table. -/
def initializedClients (sessions : Table String ClientSession) : List String :=
  (sessions.entries.filter fun e ↦ e.2.isInitialized).map fun e ↦ e.1

/-! ## What the pieces do -/

theorem findClient_ok {routes : Table String String} {e c : String} :
    findClient routes e = .ok c ↔ routes.lookup e = some c := by
  unfold findClient
  cases routes.lookup e <;> simp

theorem readSession_ok {failure : String} {sessions : Table String ClientSession} {c : String}
    {session : ClientSession} :
    readSession failure sessions c = .ok session ↔ sessions.lookup c = some session := by
  unfold readSession
  cases sessions.lookup c <;> simp

theorem readSession_error {failure : String} {sessions : Table String ClientSession} {c : String}
    {err : Error} (h : readSession failure sessions c = .error err) :
    sessions.lookup c = none := by
  unfold readSession at h
  cases hl : sessions.lookup c with
  | none => rfl
  | some session => simp [hl] at h

theorem lookup_cleanSession (e c c' : String) (sessions : Table String ClientSession) :
    (cleanSession e c sessions).lookup c' =
      if c' = c then (sessions.lookup c).map fun session ↦ session.forget e
      else sessions.lookup c' := by
  unfold cleanSession
  cases hl : sessions.lookup c with
  | none =>
      by_cases h : c' = c
      · subst h
        simp [hl]
      · simp [h]
  | some session => exact Table.lookup_insert_eq ..

/-- What is known of a response that went out. -/
theorem publishResponse_ok {server : NostrServerTransport S} {amb : Ambient S}
    {e c : String} {response : JsonRpcMessage} {enc : Bool} {p : Publication S}
    (h : server.publishResponse amb e c response enc = .ok p) :
    p.message = response ∧ S.fromHex c = .ok p.recipient ∧
      ∃ eid signed, S.idFromHex e = .ok eid ∧
        Sent server.base amb response p.recipient ctxvmMessagesKind
          (createResponseTags S p.recipient eid)
          (shouldEncrypt server.config.encryptionMode ctxvmMessagesKind (some enc))
          signed p.event := by
  unfold publishResponse at h
  cases hc : S.fromHex c with
  | error err => simp [hc, Except.mapError, bind, Except.bind] at h
  | ok key =>
      cases he : S.idFromHex e with
      | error err => simp [hc, he, Except.mapError, bind, Except.bind] at h
      | ok eid =>
          simp only [hc, he, Except.mapError, bind, Except.bind, pure, Except.pure] at h
          split at h
          · cases h
          · next sent hs =>
              obtain ⟨-, signed, hsent⟩ := BaseTransport.sendMcpMessage_ok hs
              cases h
              exact ⟨rfl, rfl, eid, signed, rfl, hsent⟩

/-- A notification about a request goes out as a response to it does, with the same tags. -/
theorem publishNotification_some (server : NostrServerTransport S) (amb : Ambient S)
    (c e : String) (notification : JsonRpcMessage) (enc : Bool) :
    server.publishNotification amb c notification (some e) enc =
      server.publishResponse amb e c notification enc := by
  unfold publishNotification publishResponse
  cases S.fromHex c with
  | error err => simp [Except.mapError, bind, Except.bind]
  | ok key =>
      cases he : S.idFromHex e <;>
        simp [he, Except.mapError, bind, Except.bind, createRecipientTags, createResponseTags]

/-- What is known of a notification that went out. -/
theorem publishNotification_ok {server : NostrServerTransport S} {amb : Ambient S}
    {c : String} {notification : JsonRpcMessage} {correlated : Option String} {enc : Bool}
    {p : Publication S}
    (h : server.publishNotification amb c notification correlated enc = .ok p) :
    p.message = notification ∧ S.fromHex c = .ok p.recipient ∧
      ∃ tags signed, Sent server.base amb notification p.recipient ctxvmMessagesKind tags
        (shouldEncrypt server.config.encryptionMode ctxvmMessagesKind (some enc))
        signed p.event := by
  cases correlated with
  | some e =>
      rw [publishNotification_some] at h
      obtain ⟨hmessage, hrecipient, eid, signed, -, hsent⟩ := publishResponse_ok h
      exact ⟨hmessage, hrecipient, _, signed, hsent⟩
  | none =>
      unfold publishNotification at h
      cases hc : S.fromHex c with
      | error err => simp [hc, Except.mapError, bind, Except.bind] at h
      | ok key =>
          simp only [hc, Except.mapError, bind, Except.bind, pure, Except.pure] at h
          split at h
          · cases h
          · next sent hs =>
              obtain ⟨-, signed, hsent⟩ := BaseTransport.sendMcpMessage_ok hs
              cases h
              exact ⟨rfl, rfl, _, signed, hsent⟩

end NostrServerTransport

/-! ## The session after a response -/

namespace ClientSession

@[simp] theorem forget_isEncrypted (session : ClientSession) (e : String) :
    (session.forget e).isEncrypted = session.isEncrypted := by
  unfold forget
  cases session.eventToProgressToken.lookup e <;> rfl

/-- An entry survives unless it is the request's own or that of its progress token. -/
theorem lookup_forget_pendingRequests (session : ClientSession) (e k : String) :
    (session.forget e).pendingRequests.lookup k =
      if k = e ∨ session.eventToProgressToken.lookup e = some k then none
      else session.pendingRequests.lookup k := by
  unfold forget
  cases ht : session.eventToProgressToken.lookup e with
  | none => simp [Table.lookup_erase_eq]
  | some token =>
      simp only [Table.lookup_erase_eq, Option.some.injEq]
      by_cases hk : k = e <;> by_cases hk' : k = token <;> simp [hk, hk', eq_comm]

theorem mem_forget_pendingRequests {session : ClientSession} {e k : String} :
    k ∈ (session.forget e).pendingRequests ↔ k ≠ e ∧
      session.eventToProgressToken.lookup e ≠ some k ∧ k ∈ session.pendingRequests := by
  rw [← AList.lookup_isSome, lookup_forget_pendingRequests, ← AList.lookup_isSome]
  split
  · next h => exact iff_of_false nofun fun hk ↦ h.elim hk.1 hk.2.1
  · next h => simp [not_or.1 h]

theorem lookup_forget_eventToProgressToken (session : ClientSession) (e k : String) :
    (session.forget e).eventToProgressToken.lookup k =
      if k = e then none else session.eventToProgressToken.lookup k := by
  unfold forget
  cases ht : session.eventToProgressToken.lookup e with
  | none =>
      by_cases h : k = e
      · subst h
        simp [ht]
      · simp [h]
  | some token => exact Table.lookup_erase_eq ..

end ClientSession

end ContextVM
