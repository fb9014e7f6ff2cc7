import ContextVM.Core.ServerInfo
import ContextVM.Nostr.Relay
import ContextVM.Transport.Lifecycle

/-!
# The server: announcing

`announce`, the four `publish_*` calls and `delete_announcements` of `transport/server.rs`, as
programs over what the relays keep.
-/

namespace ContextVM

open Lib

variable {S : Sdk}

/-- What a call that publishes an event meets. -/
structure Sending (S : Sdk) where
  signedAt : Nat
  signRng : S.Rng
  /-- Whether the event gets to relays that keep it. -/
  delivered : Bool
  /-- What `send_event` returns.  An event may have got there although it fails. -/
  relays : Except String Unit
  /-- Left out is that `send_event` returns `Ok` when every relay has answered that it does not
  keep the event. -/
  delivered_of_ok : relays = .ok () → delivered = true

/-- Build, sign and publish an event. -/
def RelayPool.publish (relay : Relay S) (keys : S.Keys) (sending : Sending S)
    (builder : EventBuilder S.Text) : Call (Store S) S.EventId := do
  let event ← ofExcept ((S.sign keys sending.signedAt sending.signRng builder).mapError
    .transport)
  if sending.delivered then modify fun store ↦ relay.receive store event
  ofExcept (sending.relays.mapError .transport)
  return event.id

/-- A tag for a value that need not be there. -/
def optionalTag (name : String) (value : Option String) : List Tag :=
  value.toList.map fun v ↦ [name, v]

/-- The server transport with the setting that only `announce` reads. -/
structure AnnouncedServer (S : Sdk) extends NostrServerTransport S where
  serverInfo : Option ServerInfo

/-- The event of `announce`. -/
def AnnouncedServer.announcement (server : AnnouncedServer S) (info : ServerInfo) :
    EventBuilder S.Text where
  kind := serverAnnouncementKind
  content := S.print info.encode
  tags := optionalTag "name" info.name ++ optionalTag "about" info.about ++
    optionalTag "website" info.website ++ optionalTag "picture" info.picture ++
    if server.config.encryptionMode ≠ .disabled then [["support_encryption"]] else []

/-- Publish the server announcement. -/
def AnnouncedServer.announce (server : AnnouncedServer S) (relay : Relay S)
    (sending : Sending S) : Call (Store S) S.EventId :=
  match server.serverInfo with
  | none => throw (.other "No server info configured")
  | some info => RelayPool.publish relay server.keys sending (server.announcement info)

namespace NostrServerTransport

/-- The event of the four calls that publish a list. -/
def listEvent (S : Sdk) (kind : UInt16) (key : String) (list : List Value) :
    EventBuilder S.Text where
  kind := kind
  content := S.print (Value.singleton key list).json
  tags := []

variable (server : NostrServerTransport S) (relay : Relay S) (sending : Sending S)

def publishTools (tools : List Value) : Call (Store S) S.EventId :=
  RelayPool.publish relay server.keys sending (listEvent S toolsListKind "tools" tools)

def publishResources (resources : List Value) : Call (Store S) S.EventId :=
  RelayPool.publish relay server.keys sending
    (listEvent S resourcesListKind "resources" resources)

def publishPrompts (prompts : List Value) : Call (Store S) S.EventId :=
  RelayPool.publish relay server.keys sending (listEvent S promptsListKind "prompts" prompts)

def publishResourceTemplates (templates : List Value) : Call (Store S) S.EventId :=
  RelayPool.publish relay server.keys sending
    (listEvent S resourcetemplatesListKind "resourceTemplates" templates)

/-- The request to delete the announcements of one kind. -/
def deletionRequest (S : Sdk) (reason : S.Text) (kind : UInt16) : EventBuilder S.Text where
  kind := deletionKind
  content := reason
  tags := [["k", toString kind.toNat]]

/-- Publish a deletion request for each kind, up to the first that fails.  The key is asked for
and not used. -/
def deleteAnnouncements (answers : Answers S) (sending : UInt16 → Sending S) (reason : S.Text) :
    Call (Store S) Unit := do
  let _ ← ofExcept (BaseTransport.getPublicKey answers)
  unencryptedKinds.forM fun kind ↦ do
    let _ ← RelayPool.publish relay server.keys (sending kind) (deletionRequest S reason kind)

end NostrServerTransport

/-! ## What a call leaves on the relays -/

/-- The event that gets to the relays. -/
def Sending.event? (sending : Sending S) (keys : S.Keys) (builder : EventBuilder S.Text) :
    Option S.Event :=
  match S.sign keys sending.signedAt sending.signRng builder with
  | .ok event => if sending.delivered then some event else none
  | .error _ => none

/-- The event is on the relays whether the call returns its id or an error. -/
theorem exec_publish_snd (relay : Relay S) (keys : S.Keys) (sending : Sending S)
    (builder : EventBuilder S.Text) (store : Store S) :
    (exec (RelayPool.publish relay keys sending builder) store).2 =
      (sending.event? keys builder).elim store (relay.receive store) := by
  unfold RelayPool.publish Sending.event?
  cases S.sign keys sending.signedAt sending.signRng builder with
  | error e => simp [exec_bind, Except.mapError]
  | ok event =>
      cases sending.delivered <;> cases sending.relays <;> simp [exec_bind, Except.mapError]

/-- A call that returns an id has got the event of this id to the relays. -/
theorem event?_of_publish_ok {relay : Relay S} {keys : S.Keys} {sending : Sending S}
    {builder : EventBuilder S.Text} {store : Store S} {id : S.EventId}
    (h : (exec (RelayPool.publish relay keys sending builder) store).1 = .ok id) :
    ∃ event, sending.event? keys builder = some event ∧ event.id = id := by
  unfold RelayPool.publish at h
  unfold Sending.event?
  cases hsign : S.sign keys sending.signedAt sending.signRng builder with
  | error e =>
      rw [hsign] at h
      cases h
  | ok event =>
      rw [hsign] at h
      cases hrelays : sending.relays with
      | error e =>
          rw [hrelays] at h
          cases hdelivered : sending.delivered <;> rw [hdelivered] at h <;> cases h
      | ok _ =>
          have hdelivered := sending.delivered_of_ok hrelays
          rw [hrelays, hdelivered] at h
          exact ⟨event, if_pos hdelivered, Except.ok.inj h⟩

theorem Sending.sign_of_event? {sending : Sending S} {keys : S.Keys}
    {builder : EventBuilder S.Text} {event : S.Event}
    (h : sending.event? keys builder = some event) :
    S.sign keys sending.signedAt sending.signRng builder = .ok event := by
  unfold Sending.event? at h
  split at h
  · next event' hsign =>
      rw [Option.ite_none_right_eq_some] at h
      rw [hsign, Option.some.inj h.2]
  · cases h

/-- A deletion request as the code builds it deletes nothing. -/
theorem deletes_deletionRequest (hS : S.Lawful) {keys : S.Keys} {sending : Sending S}
    {reason : S.Text} {kind : UInt16} {event : S.Event}
    (h : sending.event? keys (NostrServerTransport.deletionRequest S reason kind) = some event)
    (old : S.Event) : deletes S event old = false := by
  refine deletes_eq_false_of_tags (fun tag htag ↦ ?_) old
  rw [hS.sign_tags (Sending.sign_of_event? h)] at htag
  obtain rfl : tag = ["k", toString kind.toNat] := by
    simpa [NostrServerTransport.deletionRequest] using (List.mem_filter.1 htag).1
  simp

/-- After `delete_announcements`, the relays keep what they kept of every other kind. -/
theorem find_deleteAnnouncements (hS : S.Lawful) (server : NostrServerTransport S)
    (relay : Relay S) (answers : Answers S) (sending : UInt16 → Sending S) (reason : S.Text)
    (store : Store S) (slot : S.PublicKey × UInt16) (hslot : slot.2 ≠ deletionKind) :
    (exec (server.deleteAnnouncements relay answers sending reason) store).2.find slot =
      store.find slot := by
  unfold NostrServerTransport.deleteAnnouncements
  rw [exec_bind, exec_ofExcept]
  cases BaseTransport.getPublicKey answers with
  | error e => rfl
  | ok pubkey =>
      refine exec_forM_keeps (fun store' : Store S ↦ store'.find slot = store.find slot) ?_ rfl
      rintro kind - store' hstore'
      have hleft := exec_publish_snd relay server.keys (sending kind)
        (NostrServerTransport.deletionRequest S reason kind) store'
      cases hevent : (sending kind).event? server.keys
          (NostrServerTransport.deletionRequest S reason kind) with
      | none =>
          rw [hevent] at hleft
          simp [hleft, hstore']
      | some event =>
          have hkind : event.slot ≠ slot := by
            rintro rfl
            exact hslot (hS.sign_kind (Sending.sign_of_event? hevent))
          rw [hevent] at hleft
          simp [hleft, relay.receive_eq_put store' (deletes_deletionRequest hS hevent),
            Keyed.find_put, hkind, hstore']

end ContextVM
