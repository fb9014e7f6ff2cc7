import ContextVM.Discovery.Deletion

/-!
# What is published is discovered

If the times of a server's publications of each kind increase, then the newest that the relays
keep is the last.  So what is discovered of a server after a history is told by its calls alone:
the list that it published last of each sort, and the information that it announced last
(`publish_discover_roundtrip`).
-/

namespace ContextVM.Discovery

open Lib

variable {S : Sdk}

/-! ## The last publications -/

/-- The times of the posts under each slot increase. -/
def Increasing (acts : List (Act S)) : Prop :=
  (posts acts).Pairwise fun p p' ↦
    p.event.slot = p'.event.slot → p.event.createdAt < p'.event.createdAt

theorem increasing_of_times {acts : List (Act S)}
    (h : ((posts acts).map fun p ↦ p.event.createdAt).Pairwise (· < ·)) : Increasing acts := by
  refine List.Pairwise.imp ?_ (List.pairwise_map.1 h)
  exact fun hlt _ ↦ hlt

/-- The list of this sort that a server has published with this post. -/
def Post.list? (pubkey : S.PublicKey) (sort : ListSort) (p : Post S) : Option (List Value) :=
  match p.publish with
  | .announce => none
  | .list sort' items =>
    if S.publicKey p.server.keys = pubkey ∧ sort' = sort then some items else none

/-- The information that a server has announced with this post. -/
def Post.info? (pubkey : S.PublicKey) (p : Post S) : Option ServerInfo :=
  match p.publish with
  | .announce => if S.publicKey p.server.keys = pubkey then p.server.serverInfo else none
  | .list _ _ => none

/-- The list of this sort that a server has published last.  Empty, if there is none. -/
def lastList (acts : List (Act S)) (pubkey : S.PublicKey) (sort : ListSort) : List Value :=
  ((posts acts).filterMap (Post.list? pubkey sort)).getLast?.getD []

/-- The information that a server has announced last. -/
def lastInfo (acts : List (Act S)) (pubkey : S.PublicKey) : Option ServerInfo :=
  ((posts acts).filterMap (Post.info? pubkey)).getLast?

/-- A post says under its slot whose it is and of which sort. -/
theorem Post.Genuine.list?_eq {p : Post S} (hp : p.Genuine) (pubkey : S.PublicKey)
    (sort : ListSort) : p.list? pubkey sort =
      if p.event.slot = (pubkey, sort.kind) then p.publish.items? else none := by
  unfold Post.list?
  cases hpublish : p.publish with
  | announce => exact (ite_self none).symm
  | list sort' items =>
      refine if_congr ?_ rfl rfl
      rw [Event.slot, Prod.mk.injEq, hp.pubkey, (hp.listed sort' items hpublish).1]
      exact and_congr_right fun _ ↦ ListSort.kind_injective.eq_iff.symm

theorem Post.Genuine.info?_eq {p : Post S} (hp : p.Genuine) (pubkey : S.PublicKey) :
    p.info? pubkey =
      if p.event.slot = (pubkey, serverAnnouncementKind) then p.server.serverInfo else none := by
  unfold Post.info?
  cases hpublish : p.publish with
  | announce =>
      refine if_congr ?_ rfl rfl
      rw [Event.slot, Prod.mk.injEq, hp.pubkey, (hp.announced hpublish).1]
      exact (and_iff_left rfl).symm
  | list sort items =>
      refine (if_neg fun hslot ↦ ?_).symm
      have hannounce := hp.announce_of_kind (Prod.mk.inj hslot).2
      rw [hpublish] at hannounce
      cases hannounce

/-! ## The newest is the last -/

theorem newestPost_eq_getLast? (relay : Relay S) {acts : List (Act S)} (h : Increasing acts)
    (slot : S.PublicKey × UInt16) : newestPost relay acts slot =
      ((posts acts).filter fun p ↦ p.event.slot = slot).getLast? := by
  refine newest_eq_getLast? _ ((h.filter _).imp_of_mem fun hp hp' hlt ↦ relay.newer (hlt ?_))
  have hslot := of_decide_eq_true (List.mem_filter.1 hp).2
  have hslot' := of_decide_eq_true (List.mem_filter.1 hp').2
  exact hslot.trans hslot'.symm

/-- What is read from the newest post under a slot is what is read last, if every post under
this slot is read and no other. -/
theorem newestPost_bind {β : Type} (hS : S.Lawful) (relay : Relay S) {acts : List (Act S)}
    (h : Increasing acts) {slot : S.PublicKey × UInt16} {read? value? : Post S → Option β}
    (hread : ∀ p, p.Genuine → read? p = if p.event.slot = slot then value? p else none)
    (hvalue : ∀ p, p.Genuine → p.event.slot = slot → (value? p).isSome) :
    (newestPost relay acts slot).bind value? = ((posts acts).filterMap read?).getLast? := by
  have hfilter : (posts acts).filterMap read? =
      ((posts acts).filter fun p ↦ p.event.slot = slot).filterMap value? := by
    rw [List.filterMap_filter]
    refine List.filterMap_congr fun p hp ↦ ?_
    rw [hread p (Post.genuine hS hp)]
    exact if_congr decide_eq_true_iff.symm rfl rfl
  rw [newestPost_eq_getLast? relay h, hfilter, getLast?_filterMap_of_isSome]
  intro p hp
  obtain ⟨hmem, hslot⟩ := List.mem_filter.1 hp
  exact hvalue p (Post.genuine hS hmem) (of_decide_eq_true hslot)

theorem newestList_eq_lastList (hS : S.Lawful) (relay : Relay S) {acts : List (Act S)}
    (h : Increasing acts) (pubkey : S.PublicKey) (sort : ListSort) :
    newestList relay acts pubkey sort = lastList acts pubkey sort := by
  refine congrArg (Option.getD · []) (newestPost_bind hS relay h
    (fun p hp ↦ hp.list?_eq pubkey sort) fun p hp hslot ↦ ?_)
  obtain ⟨items, hpublish⟩ := hp.exists_list (Prod.mk.inj hslot).2
  rw [hpublish]
  rfl

theorem newestPost_eq_lastInfo (hS : S.Lawful) (relay : Relay S) {acts : List (Act S)}
    (h : Increasing acts) (pubkey : S.PublicKey) :
    ((newestPost relay acts (pubkey, serverAnnouncementKind)).bind fun p ↦ p.server.serverInfo) =
      lastInfo acts pubkey := by
  refine newestPost_bind hS relay h (fun p hp ↦ hp.info?_eq pubkey) fun p hp hslot ↦ ?_
  obtain ⟨-, info, hinfo, -⟩ := hp.announced (hp.announce_of_kind (Prod.mk.inj hslot).2)
  rw [hinfo]
  rfl

/-! ## Round trip -/

/-- The information that is discovered of a server is that of the announcement that is kept. -/
theorem discoverServers_of_find (hS : S.Lawful) (relay : Relay S) {store : Store S}
    {acts : List (Act S)} {pubkey : S.PublicKey}
    (hfind : store.find (pubkey, serverAnnouncementKind) =
      (newestPost relay acts (pubkey, serverAnnouncementKind)).map Post.event) :
    ∃ as, discoverServers (client store) = .ok as ∧
      (as.filter fun a ↦ a.pubkeyParsed = pubkey).map ServerAnnouncement.serverInfo =
        ((newestPost relay acts (pubkey, serverAnnouncementKind)).bind
          fun p ↦ p.server.serverInfo).toList := by
  obtain ⟨as, has, hfilter⟩ := exists_discoverServers_filter store pubkey
  refine ⟨as, has, ?_⟩
  rw [hfilter, hfind]
  cases hp : newestPost relay acts (pubkey, serverAnnouncementKind) with
  | none => rfl
  | some p =>
      obtain ⟨hmem, hslot⟩ := mem_newestPost hp
      have hgenuine := Post.genuine hS hmem
      have hannounce := hgenuine.announce_of_kind (Prod.mk.inj hslot).2
      obtain ⟨-, info, hinfo, hcontent⟩ := hgenuine.announced hannounce
      have hread : (announcementOf p.event).serverInfo = info := by
        simp [announcementOf, hcontent, hS.parse_print, ServerInfo.decode_encode]
      simp [hinfo, hread]

/-- A call that returns the id of an event has its post in the history. -/
theorem exists_post_of_ok {relay : Relay S} {acts : List (Act S)} {act : Act S} (hact : act ∈ acts)
    {store : Store S} {id : S.EventId} (h : (exec (act.run relay) store).1 = .ok id) :
    ∃ p ∈ posts acts, p.server = act.server ∧ p.publish = act.publish ∧ p.event.id = id := by
  obtain ⟨event, hevent, hid⟩ := Act.event?_of_ok h
  refine ⟨⟨act.server, act.publish, event⟩, List.mem_filterMap.2 ⟨act, hact, ?_⟩, rfl, rfl, hid⟩
  rw [hevent]
  rfl

/-- On relays that had nothing of a server at first, what is discovered of it after a history is
what it has published last.  Every call that returns the id of an event counts. -/
theorem publish_discover_roundtrip (hS : S.Lawful) (jsonError : S.Text → String)
    (relay : Relay S) (store : Store S) (acts : List (Act S)) (pubkey : S.PublicKey)
    (hnew : ∀ event ∈ store.items, event.pubkey ≠ pubkey) (htimes : Increasing acts) :
    (∀ sort : ListSort, sort.discover jsonError (client (after relay store acts)) pubkey =
      .ok (lastList acts pubkey sort)) ∧
    (∃ as, discoverServers (client (after relay store acts)) = .ok as ∧
      (as.filter fun a ↦ a.pubkeyParsed = pubkey).map ServerAnnouncement.serverInfo =
        (lastInfo acts pubkey).toList) ∧
    ∀ act ∈ acts, ∀ store' id, (exec (act.run relay) store').1 = .ok id →
      ∃ p ∈ posts acts, p.server = act.server ∧ p.publish = act.publish ∧ p.event.id = id := by
  have hfind := find_after_of_new hS relay acts hnew
  refine ⟨fun sort ↦ ?_, ?_, fun act hact store' id ↦ exists_post_of_ok hact⟩
  · rw [discover_of_find hS jsonError relay (hfind sort.kind),
      newestList_eq_lastList hS relay htimes]
  · rw [← newestPost_eq_lastInfo hS relay htimes]
    exact discoverServers_of_find hS relay (hfind serverAnnouncementKind)

/-! ## Two servers -/

/-- Another server, which announces no more than itself. -/
def otherServer : AnnouncedServer Symbolic.sdk :=
  { namedServer with keys := "other", serverInfo := some .default }

/-- Two servers publish by turns, and one of them publishes its tools twice. -/
def interleavedActs : List (Act Symbolic.sdk) :=
  [⟨namedServer, accepted 1, .list .tools [.str "old"]⟩,
    ⟨otherServer, accepted 2, .list .tools [.str "other"]⟩, ⟨namedServer, accepted 3, .announce⟩,
    ⟨namedServer, accepted 4, .list .tools [.str "new"]⟩, ⟨otherServer, accepted 5, .announce⟩]

theorem increasing_interleavedActs : Increasing interleavedActs := by
  refine increasing_of_times ?_
  change [1, 2, 3, 4, 5].Pairwise (· < ·)
  decide

theorem publish_discover_roundtrip_interleavedActs :
    discoverTools (fun _ ↦ "") (client (after (Relay.lastArrival _) Keyed.empty interleavedActs))
      "server" = .ok [.str "new"] ∧
    discoverPrompts (fun _ ↦ "") (client (after (Relay.lastArrival _) Keyed.empty interleavedActs))
      "server" = .ok [] ∧
    ∃ as, discoverServers (client (after (Relay.lastArrival _) Keyed.empty interleavedActs)) =
      .ok as ∧ (as.filter fun a ↦ a.pubkeyParsed = "server").map ServerAnnouncement.serverInfo =
        [{ ServerInfo.default with name := some "server" }] := by
  have h := publish_discover_roundtrip Symbolic.lawful (fun _ ↦ "") (Relay.lastArrival _)
    Keyed.empty interleavedActs "server" (by rintro event ⟨⟩) increasing_interleavedActs
  exact ⟨h.1 .tools, h.1 .prompts, h.2.1⟩

end ContextVM.Discovery
