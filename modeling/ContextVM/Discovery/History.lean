import ContextVM.Discovery
import ContextVM.Transport.Server.Announce

/-!
# Histories of publications

A history is a sequence of calls that publish, of any servers.  What the relays keep after it
under a slot is the newest event that the calls have got to them under this slot
(`find_after`), and from this the lists are discovered (`discover_of_find`).
-/

namespace ContextVM.Discovery

open Lib

variable {S : Sdk}

/-! ## Calls -/

/-- The sorts of lists. -/
inductive ListSort where
  | tools
  | resources
  | prompts
  | resourceTemplates
deriving DecidableEq

namespace ListSort

def kind : ListSort → UInt16
  | .tools => toolsListKind
  | .resources => resourcesListKind
  | .prompts => promptsListKind
  | .resourceTemplates => resourcetemplatesListKind

def key : ListSort → String
  | .tools => "tools"
  | .resources => "resources"
  | .prompts => "prompts"
  | .resourceTemplates => "resourceTemplates"

/-- The call that publishes a list of this sort. -/
def publish (server : NostrServerTransport S) (relay : Relay S) (sending : Sending S)
    (list : List Value) : ListSort → Call (Store S) S.EventId
  | .tools => server.publishTools relay sending list
  | .resources => server.publishResources relay sending list
  | .prompts => server.publishPrompts relay sending list
  | .resourceTemplates => server.publishResourceTemplates relay sending list

/-- The call that discovers the list of this sort. -/
def discover (jsonError : S.Text → String) (client : Client S) (serverPubkey : S.PublicKey) :
    ListSort → Except Error (List Value)
  | .tools => discoverTools jsonError client serverPubkey
  | .resources => discoverResources jsonError client serverPubkey
  | .prompts => discoverPrompts jsonError client serverPubkey
  | .resourceTemplates => discoverResourceTemplates jsonError client serverPubkey

/-- Publisher and reader of a sort agree on the kind and the key. -/
theorem publish_eq (sort : ListSort) (server : NostrServerTransport S) (relay : Relay S)
    (sending : Sending S) (list : List Value) :
    sort.publish server relay sending list = RelayPool.publish relay server.keys sending
      (NostrServerTransport.listEvent S sort.kind sort.key list) := by
  cases sort <;> rfl

theorem discover_eq (sort : ListSort) (jsonError : S.Text → String) (client : Client S)
    (serverPubkey : S.PublicKey) : sort.discover jsonError client serverPubkey =
      fetchList jsonError client serverPubkey sort.kind sort.key := by
  cases sort <;> rfl

theorem kind_ne_deletionKind (sort : ListSort) : sort.kind ≠ deletionKind := by
  cases sort <;> decide

theorem kind_ne_serverAnnouncementKind (sort : ListSort) : sort.kind ≠ serverAnnouncementKind := by
  cases sort <;> decide

theorem kind_injective : Function.Injective kind := by
  intro sort sort' h
  cases sort <;> cases sort' <;> first | rfl | exact absurd h (by decide)

end ListSort

/-- What a call publishes. -/
inductive Publish where
  | announce
  | list (sort : ListSort) (items : List Value)

/-- A call that publishes, and what it meets. -/
structure Act (S : Sdk) where
  server : AnnouncedServer S
  sending : Sending S
  publish : Publish

namespace Act

def run (relay : Relay S) (act : Act S) : Call (Store S) S.EventId :=
  match act.publish with
  | .announce => act.server.announce relay act.sending
  | .list sort items =>
    sort.publish act.server.toNostrServerTransport relay act.sending items

/-- The event that the call is to publish. -/
def builder? (act : Act S) : Option (EventBuilder S.Text) :=
  match act.publish with
  | .announce => act.server.serverInfo.map act.server.announcement
  | .list sort items => some (NostrServerTransport.listEvent S sort.kind sort.key items)

/-- The event that the call gets to the relays. -/
def event? (act : Act S) : Option S.Event :=
  act.builder?.bind (act.sending.event? act.server.keys)

/-- The calls differ in the event that they publish. -/
theorem run_eq (relay : Relay S) (act : Act S) :
    act.run relay = act.builder?.elim (throw (.other "No server info configured"))
      (RelayPool.publish relay act.server.keys act.sending) := by
  unfold run builder?
  cases act.publish with
  | announce =>
      change act.server.announce relay act.sending = _
      unfold AnnouncedServer.announce
      cases act.server.serverInfo <;> rfl
  | list sort items => exact sort.publish_eq ..

theorem exec_run_snd (relay : Relay S) (act : Act S) (store : Store S) :
    (exec (act.run relay) store).2 = act.event?.elim store (relay.receive store) := by
  rw [run_eq, event?]
  cases act.builder? with
  | none => rfl
  | some builder => exact exec_publish_snd ..

theorem event?_of_ok {relay : Relay S} {act : Act S} {store : Store S} {id : S.EventId}
    (h : (exec (act.run relay) store).1 = .ok id) :
    ∃ event, act.event? = some event ∧ event.id = id := by
  rw [run_eq] at h
  unfold event?
  cases hbuilder : act.builder? with
  | none =>
      rw [hbuilder] at h
      cases h
  | some builder =>
      rw [hbuilder] at h
      exact event?_of_publish_ok h

end Act

/-! ## Histories -/

/-- What the relays keep after a history. -/
def after (relay : Relay S) (store : Store S) (acts : List (Act S)) : Store S :=
  acts.foldl (fun store act ↦ (exec (act.run relay) store).2) store

/-- An event that a call has got to the relays. -/
structure Post (S : Sdk) where
  server : AnnouncedServer S
  publish : Publish
  event : S.Event

def posts (acts : List (Act S)) : List (Post S) :=
  acts.filterMap fun act ↦ act.event?.map (Post.mk act.server act.publish)

/-- The newest post under a slot. -/
def newestPost (relay : Relay S) (acts : List (Act S)) (slot : S.PublicKey × UInt16) :
    Option (Post S) :=
  newest (fun p p' ↦ relay.replaces p.event p'.event)
    ((posts acts).filter fun p ↦ p.event.slot = slot)

/-- The author, the kind and the content of a post. -/
structure Post.Genuine (p : Post S) : Prop where
  pubkey : p.event.pubkey = S.publicKey p.server.keys
  announced : p.publish = .announce → p.event.kind = serverAnnouncementKind ∧
    ∃ info, p.server.serverInfo = some info ∧ p.event.content = S.print info.encode
  listed : ∀ sort items, p.publish = .list sort items → p.event.kind = sort.kind ∧
    p.event.content = S.print (Value.singleton sort.key items).json

theorem Post.genuine (hS : S.Lawful) {acts : List (Act S)} {p : Post S} (hp : p ∈ posts acts) :
    p.Genuine := by
  obtain ⟨act, -, hact⟩ := List.mem_filterMap.1 hp
  obtain ⟨event, hevent, rfl⟩ := Option.map_eq_some_iff.1 hact
  obtain ⟨builder, hbuilder, hsent⟩ := Option.bind_eq_some_iff.1 hevent
  have hsign := Sending.sign_of_event? hsent
  refine ⟨hS.sign_pubkey hsign, fun h ↦ ?_, fun sort items h ↦ ?_⟩
  · have h : act.publish = .announce := h
    simp only [Act.builder?, h, Option.map_eq_some_iff] at hbuilder
    obtain ⟨info, hinfo, rfl⟩ := hbuilder
    exact ⟨hS.sign_kind hsign, info, hinfo, hS.sign_content hsign⟩
  · have h : act.publish = .list sort items := h
    simp only [Act.builder?, h, Option.some.injEq] at hbuilder
    subst hbuilder
    exact ⟨hS.sign_kind hsign, hS.sign_content hsign⟩

theorem Post.Genuine.kind_ne_deletionKind {p : Post S} (hp : p.Genuine) :
    p.event.kind ≠ deletionKind := by
  cases hpublish : p.publish with
  | announce =>
      rw [(hp.announced hpublish).1]
      decide
  | list sort items =>
      rw [(hp.listed sort items hpublish).1]
      exact sort.kind_ne_deletionKind

/-- The post under the kind of a sort of lists is a list of this sort. -/
theorem Post.Genuine.exists_list {p : Post S} (hp : p.Genuine) {sort : ListSort}
    (hkind : p.event.kind = sort.kind) : ∃ items, p.publish = .list sort items := by
  cases hpublish : p.publish with
  | announce =>
      rw [(hp.announced hpublish).1] at hkind
      exact absurd hkind.symm sort.kind_ne_serverAnnouncementKind
  | list sort' items =>
      rw [(hp.listed sort' items hpublish).1] at hkind
      obtain rfl := ListSort.kind_injective hkind
      exact ⟨items, rfl⟩

/-- The post under the kind of the announcements is an announcement. -/
theorem Post.Genuine.announce_of_kind {p : Post S} (hp : p.Genuine)
    (hkind : p.event.kind = serverAnnouncementKind) : p.publish = .announce := by
  cases hpublish : p.publish with
  | announce => rfl
  | list sort items =>
      rw [(hp.listed sort items hpublish).1] at hkind
      exact absurd hkind sort.kind_ne_serverAnnouncementKind

theorem mem_newestPost {relay : Relay S} {acts : List (Act S)} {slot : S.PublicKey × UInt16}
    {p : Post S} (h : newestPost relay acts slot = some p) :
    p ∈ posts acts ∧ p.event.slot = slot := by
  have hmem := List.mem_filter.1 (newest_mem _ h)
  exact ⟨hmem.1, of_decide_eq_true hmem.2⟩

theorem after_eq (hS : S.Lawful) (relay : Relay S) (store : Store S) (acts : List (Act S)) :
    after relay store acts =
      ((posts acts).map Post.event).foldl (Keyed.put relay.replaces) store := by
  induction acts generalizing store with
  | nil => rfl
  | cons act acts ih =>
      change after relay (exec (act.run relay) store).2 acts = _
      rw [ih, act.exec_run_snd]
      cases hevent : act.event? with
      | none => simp [posts, hevent]
      | some event =>
          have hpost : Post.mk act.server act.publish event ∈ posts (act :: acts) := by
            simp [posts, hevent]
          have hput := relay.receive_eq_put store
            (deletes_eq_false_of_kind (Post.genuine hS hpost).kind_ne_deletionKind)
          simp [posts, hevent, ← hput]

/-- On relays that had nothing under a slot, the newest post is kept there. -/
theorem find_after (hS : S.Lawful) (relay : Relay S) {store : Store S} (acts : List (Act S))
    {slot : S.PublicKey × UInt16} (hslot : store.find slot = none) :
    (after relay store acts).find slot = (newestPost relay acts slot).map Post.event := by
  rw [after_eq hS, Keyed.find_foldl_put, hslot, List.filter_map]
  exact newest_map ..

/-- On relays that had nothing of an author, the newest of its posts are kept. -/
theorem find_after_of_new (hS : S.Lawful) (relay : Relay S) {store : Store S} (acts : List (Act S))
    {pubkey : S.PublicKey} (hnew : ∀ event ∈ store.items, event.pubkey ≠ pubkey) (kind : UInt16) :
    (after relay store acts).find (pubkey, kind) =
      (newestPost relay acts (pubkey, kind)).map Post.event := by
  refine find_after hS relay acts (Option.eq_none_iff_forall_ne_some.2 fun event hfind ↦ ?_)
  obtain ⟨hmem, hslot⟩ := Keyed.find_eq_some.1 hfind
  exact hnew event hmem (Prod.mk.inj hslot).1

/-- The items of a list that was published. -/
def Publish.items? : Publish → Option (List Value)
  | .announce => none
  | .list _ items => some items

/-- The list of this sort that a server has last got to the relays.  Empty, if there is none. -/
def newestList (relay : Relay S) (acts : List (Act S)) (pubkey : S.PublicKey)
    (sort : ListSort) : List Value :=
  ((newestPost relay acts (pubkey, sort.kind)).bind fun p ↦ p.publish.items?).getD []

theorem discover_of_find (hS : S.Lawful) (jsonError : S.Text → String) (relay : Relay S)
    {store : Store S} {acts : List (Act S)} {pubkey : S.PublicKey} {sort : ListSort}
    (hfind : store.find (pubkey, sort.kind) =
      (newestPost relay acts (pubkey, sort.kind)).map Post.event) :
    sort.discover jsonError (client store) pubkey = .ok (newestList relay acts pubkey sort) := by
  rw [sort.discover_eq, fetchList_client, hfind, newestList]
  cases hp : newestPost relay acts (pubkey, sort.kind) with
  | none => rfl
  | some p =>
      obtain ⟨hmem, hslot⟩ := mem_newestPost hp
      have hgenuine := Post.genuine hS hmem
      obtain ⟨items, hpublish⟩ := hgenuine.exists_list (Prod.mk.inj hslot).2
      have hcontent := (hgenuine.listed sort items hpublish).2
      simp [hcontent, hS.parse_print, Value.asArray_get_singleton, hpublish, Publish.items?]

end ContextVM.Discovery
