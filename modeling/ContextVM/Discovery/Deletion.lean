import ContextVM.Discovery.History
import ContextVM.Nostr.Symbolic

/-!
# Deletion and discovery

A deletion request of the code has a `k` tag only.  It names no event and no coordinate, so the
relays delete nothing: discovery is empty after a deletion exactly if the server had nothing to
be discovered before it (`deletion_empties_iff`).
-/

namespace ContextVM.Discovery

open Lib

variable {S : Sdk}

/-- Nothing is discovered of a server. -/
structure Emptied (jsonError : S.Text → String) (client : Client S) (pubkey : S.PublicKey) :
    Prop where
  server : ∃ as, discoverServers client = .ok as ∧ ∀ a ∈ as, a.pubkeyParsed ≠ pubkey
  lists : ∀ sort : ListSort, sort.discover jsonError client pubkey = .ok []

/-- No announcement of a server and no list with items that is the newest of its sort has got to
the relays. -/
structure NothingToDelete (relay : Relay S) (acts : List (Act S)) (pubkey : S.PublicKey) :
    Prop where
  server : ∀ p ∈ posts acts, p.event.pubkey = pubkey → p.publish ≠ .announce
  lists : ∀ sort, newestList relay acts pubkey sort = []

/-- The posts under the kind of the announcements are the announcements. -/
theorem newestPost_eq_none_iff (hS : S.Lawful) {relay : Relay S} {acts : List (Act S)}
    {pubkey : S.PublicKey} :
    newestPost relay acts (pubkey, serverAnnouncementKind) = none ↔
      ∀ p ∈ posts acts, p.event.pubkey = pubkey → p.publish ≠ .announce := by
  rw [newestPost, newest_eq_none, List.filter_eq_nil_iff]
  refine forall₂_congr fun p hp ↦ ?_
  have hgenuine := Post.genuine hS hp
  rw [decide_eq_true_iff]
  constructor
  · rintro hslot rfl hannounce
    exact hslot (Prod.ext rfl (hgenuine.announced hannounce).1)
  · intro hnot hslot
    obtain ⟨hpubkey, hkind⟩ := Prod.mk.inj hslot
    exact hnot hpubkey (hgenuine.announce_of_kind hkind)

/-- What is discovered is what the relays keep, and a history decides what they keep. -/
theorem emptied_iff (hS : S.Lawful) (jsonError : S.Text → String) (relay : Relay S)
    {store : Store S} {acts : List (Act S)} {pubkey : S.PublicKey}
    (hfind : ∀ kind, kind ≠ deletionKind →
      store.find (pubkey, kind) = (newestPost relay acts (pubkey, kind)).map Post.event) :
    Emptied jsonError (client store) pubkey ↔ NothingToDelete relay acts pubkey := by
  have hserver : (∃ as, discoverServers (client store) = .ok as ∧
      ∀ a ∈ as, a.pubkeyParsed ≠ pubkey) ↔
        ∀ p ∈ posts acts, p.event.pubkey = pubkey → p.publish ≠ .announce := by
    obtain ⟨as, has, hiff⟩ := exists_discoverServers store pubkey
    have hnone : store.find (pubkey, serverAnnouncementKind) = none ↔
        newestPost relay acts (pubkey, serverAnnouncementKind) = none := by
      rw [hfind serverAnnouncementKind (by decide), Option.map_eq_none_iff]
    rw [← newestPost_eq_none_iff hS, ← hnone, ← hiff]
    constructor
    · rintro ⟨as', has', hall⟩
      cases has.symm.trans has'
      exact hall
    · exact fun hall ↦ ⟨as, has, hall⟩
  have hlist : ∀ sort : ListSort, sort.discover jsonError (client store) pubkey = .ok [] ↔
      newestList relay acts pubkey sort = [] := by
    intro sort
    rw [discover_of_find hS jsonError relay (hfind sort.kind sort.kind_ne_deletionKind),
      Except.ok.injEq]
  constructor
  · exact fun h ↦ ⟨hserver.1 h.server, fun sort ↦ (hlist sort).1 (h.lists sort)⟩
  · exact fun h ↦ ⟨hserver.2 h.server, fun sort ↦ (hlist sort).2 (h.lists sort)⟩

/-- On relays that had nothing of the server at first, discovery is empty after a history and a
deletion exactly if the history left nothing to delete. -/
theorem deletion_empties_iff (hS : S.Lawful) (jsonError : S.Text → String) (relay : Relay S)
    (store : Store S) (server : AnnouncedServer S)
    (hnew : ∀ event ∈ store.items, event.pubkey ≠ S.publicKey server.keys)
    (acts : List (Act S)) (answers : Answers S) (sending : UInt16 → Sending S) (reason : S.Text)
    (store' : Store S)
    (hdelete : exec (server.deleteAnnouncements relay answers sending reason)
      (after relay store acts) = (.ok (), store')) :
    Emptied jsonError (client store') (S.publicKey server.keys) ↔
      NothingToDelete relay acts (S.publicKey server.keys) := by
  refine emptied_iff hS jsonError relay fun kind hkind ↦ ?_
  have hkept := find_deleteAnnouncements hS server.toNostrServerTransport relay answers sending
    reason (after relay store acts) (S.publicKey server.keys, kind) hkind
  rw [hdelete] at hkept
  rw [← find_after_of_new hS relay acts hnew]
  exact hkept

/-! ## A server that is still there -/

/-- A publication that the relays accept. -/
def accepted (time : Nat) : Sending Symbolic.sdk where
  signedAt := time
  signRng := (0 : Nat)
  delivered := true
  relays := .ok ()
  delivered_of_ok _ := rfl

/-- A server with a name. -/
def namedServer : AnnouncedServer Symbolic.sdk where
  keys := "server"
  config :=
    { encryptionMode := .optional, allowedPublicKeys := [], excludedCapabilities := []
      sessionTimeout := 300 }
  serverInfo := some { ServerInfo.default with name := some "server" }

/-- A server announces itself and publishes one tool. -/
def announcedActs : List (Act Symbolic.sdk) :=
  [⟨namedServer, accepted 1, .announce⟩, ⟨namedServer, accepted 2, .list .tools [.str "tool"]⟩]

/-- What the relays keep after the server has deleted its announcements. -/
def deletedStore : Store Symbolic.sdk :=
  (exec (namedServer.deleteAnnouncements (Relay.lastArrival _) Lifecycle.compliant
    (fun _ ↦ accepted 3) (.json .null)) (after (Relay.lastArrival _) Keyed.empty announcedActs)).2

theorem deletion_empties_iff_announcedActs :
    Emptied (fun _ ↦ "") (client deletedStore) "server" ↔
      NothingToDelete (Relay.lastArrival _) announcedActs "server" :=
  deletion_empties_iff Symbolic.lawful (fun _ ↦ "") (Relay.lastArrival _) Keyed.empty namedServer
    (by rintro event ⟨⟩) announcedActs Lifecycle.compliant (fun _ ↦ accepted 3) (.json .null)
    deletedStore rfl

theorem discovered_after_deletion :
    ¬ ∀ (S : Sdk) (_ : S.Lawful) (jsonError : S.Text → String) (relay : Relay S)
      (server : AnnouncedServer S) (acts : List (Act S)) (answers : Answers S)
      (sending : UInt16 → Sending S) (reason : S.Text) (store' : Store S),
      (∀ act ∈ acts, act.server = server) →
      exec (server.deleteAnnouncements relay answers sending reason)
        (after relay Keyed.empty acts) = (.ok (), store') →
        Emptied jsonError (client store') (S.publicKey server.keys) := by
  intro hall
  have hemptied : Emptied (fun _ ↦ "") (client deletedStore) "server" :=
    hall Symbolic.sdk Symbolic.lawful (fun _ ↦ "") (Relay.lastArrival _) namedServer announcedActs
      Lifecycle.compliant (fun _ ↦ accepted 3) (.json .null) deletedStore
      (by simp [announcedActs]) rfl
  -- the tool is still discovered
  have htools : Except.ok [Value.str "tool"] = Except.ok [] := hemptied.lists .tools
  cases htools

end ContextVM.Discovery
