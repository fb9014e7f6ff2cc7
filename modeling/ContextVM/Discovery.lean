import ContextVM.Core.Constants
import ContextVM.Core.ServerInfo
import ContextVM.Nostr.Relay

/-!
# Discovery

`discovery/mod.rs`: servers and their lists, from the events that the relays keep.  A client is
taken as its `fetch_events`.
-/

namespace ContextVM.Discovery

open Lib

variable {S : Sdk}

/-- What a client gets for a filter. -/
abbrev Client (S : Sdk) := EventFilter S → Except String (List S.Event)

/-- A client of relays that answer. -/
def client (store : Store S) : Client S := fun filter ↦ .ok (store.fetchEvents filter)

/-- A discovered server announcement. -/
structure ServerAnnouncement (S : Sdk) where
  /-- Server public key (hex). -/
  pubkey : String
  pubkeyParsed : S.PublicKey
  serverInfo : ServerInfo
  eventId : S.EventId
  createdAt : Nat

/-- The announcement in an event.  Content that is no server information reads as one without
any. -/
def announcementOf (event : S.Event) : ServerAnnouncement S where
  pubkey := S.toHex event.pubkey
  pubkeyParsed := event.pubkey
  serverInfo := ((S.parse event.content).bind ServerInfo.decode).getD .default
  eventId := event.id
  createdAt := event.createdAt

def discoverServers (client : Client S) : Except Error (List (ServerAnnouncement S)) := do
  let events ← (client ⟨serverAnnouncementKind, none⟩).mapError .transport
  return events.map announcementOf

/-- The list of that name in the newest event.  `jsonError` is the text of the parser's error,
for content that is not JSON. -/
def fetchList (jsonError : S.Text → String) (client : Client S) (serverPubkey : S.PublicKey)
    (kind : UInt16) (listKey : String) : Except Error (List Value) := do
  let events ← (client ⟨kind, some serverPubkey⟩).mapError .transport
  match events.head? with
  | none => return []
  | some event =>
    match S.parse event.content with
    | none => throw (.other (jsonError event.content))
    | some parsed => return (((Value.ofJson parsed).get listKey).bind Value.asArray).getD []

section

variable (jsonError : S.Text → String) (client : Client S) (serverPubkey : S.PublicKey)

def discoverTools : Except Error (List Value) :=
  fetchList jsonError client serverPubkey toolsListKind "tools"

def discoverResources : Except Error (List Value) :=
  fetchList jsonError client serverPubkey resourcesListKind "resources"

def discoverPrompts : Except Error (List Value) :=
  fetchList jsonError client serverPubkey promptsListKind "prompts"

def discoverResourceTemplates : Except Error (List Value) :=
  fetchList jsonError client serverPubkey resourcetemplatesListKind "resourceTemplates"

end

/-! ## What is discovered on relays that answer -/

/-- Of a server, the announcement that is kept is discovered, and no other. -/
theorem exists_discoverServers_filter (store : Store S) (pubkey : S.PublicKey) :
    ∃ as, discoverServers (client store) = .ok as ∧ as.filter (fun a ↦ a.pubkeyParsed = pubkey) =
      ((store.find (pubkey, serverAnnouncementKind)).map announcementOf).toList := by
  refine ⟨_, rfl, ?_⟩
  have hkept : (store.fetchEvents ⟨serverAnnouncementKind, none⟩).filter
      (fun event ↦ event.pubkey = pubkey) =
        (store.find (pubkey, serverAnnouncementKind)).toList := by
    refine Keyed.eq_toList_find ?_ fun event ↦ ?_
    · have hnodup := store.nodup_items.filter
        (EventFilter.matchEvent (S := S) ⟨serverAnnouncementKind, none⟩)
      exact ((List.perm_insertionSort _ _).nodup_iff.2 hnodup).filter _
    · rw [List.mem_filter, mem_fetchEvents]
      simp [EventFilter.matchEvent, Event.slot, and_assoc, and_comm, and_left_comm]
  rw [Option.toList_map, ← hkept, List.filter_map]
  rfl

/-- The servers that are discovered are those of which an announcement is kept. -/
theorem exists_discoverServers (store : Store S) (pubkey : S.PublicKey) :
    ∃ as, discoverServers (client store) = .ok as ∧
      ((∀ a ∈ as, a.pubkeyParsed ≠ pubkey) ↔
        store.find (pubkey, serverAnnouncementKind) = none) := by
  obtain ⟨as, has, hfilter⟩ := exists_discoverServers_filter store pubkey
  refine ⟨as, has, ?_⟩
  have hnil : as.filter (fun a ↦ a.pubkeyParsed = pubkey) = [] ↔
      ∀ a ∈ as, a.pubkeyParsed ≠ pubkey := by
    simp [List.filter_eq_nil_iff]
  rw [← hnil, hfilter, Option.toList_eq_nil_iff, Option.map_eq_none_iff]

/-- The list of a server is read from the event of that kind that is kept. -/
theorem fetchList_client (jsonError : S.Text → String) (store : Store S)
    (pubkey : S.PublicKey) (kind : UInt16) (listKey : String) :
    fetchList jsonError (client store) pubkey kind listKey =
      match store.find (pubkey, kind) with
      | none => .ok []
      | some event =>
        match S.parse event.content with
        | none => .error (.other (jsonError event.content))
        | some parsed =>
          .ok ((((Value.ofJson parsed).get listKey).bind Value.asArray).getD []) := by
  rw [← head?_fetchEvents]
  rfl

end ContextVM.Discovery
