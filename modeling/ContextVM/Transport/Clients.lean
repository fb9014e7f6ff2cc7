import ContextVM.Transport.Subscription
import Mathlib.Data.List.FinRange

/-!
# Many clients

One server and any number of clients of it, each with keys of its own, and nobody else.  To
each client the others are other parties, so what it and the server do is a run of the two
(`Projects.step`).  And no party can write in the name of another: the plaintext events are
signed, and a gift wrap opens to its recipient alone (`Reachable.speaks`).

So what is an assumption about the surroundings of a single client holds here, and each
client is told the answers to its own requests (`own_answers`).
-/

namespace ContextVM

open Lib
open Symbolic (toolCall emptyResponse)

variable {S : Sdk}

/-- NIP-44 authenticates a ciphertext under the key that the sender and the recipient share, so
nobody else opens it. -/
def Sealed (S : Sdk) : Prop :=
  ∀ sender recipient plaintext nonce c,
    S.nip44Encrypt sender recipient plaintext nonce = .ok c →
      ∀ keys opened, S.nip44Decrypt keys (S.publicKey sender) c = .ok opened →
        S.publicKey keys = recipient

/-- What a send publishes verifies, in a gift wrap or not. -/
theorem Sent.verify (hS : S.Lawful) {base : BaseTransport S} {amb : Ambient S}
    {message : JsonRpcMessage} {recipient : S.PublicKey} {kind : UInt16} {tags : List Tag}
    {encrypted : Bool} {signed published : S.Event}
    (h : Sent base amb message recipient kind tags encrypted signed published) :
    S.verify published = true := by
  cases encrypted with
  | false =>
      rw [h.plain rfl]
      exact hS.sign_verify (Except.mapError_eq_ok.1 h.signs)
  | true =>
      obtain ⟨c, -, hsign⟩ := giftWrapSingleLayer_ok (h.wraps rfl)
      exact hS.sign_verify hsign

/-- Who opens a gift wrap is its recipient. -/
theorem Sealed.recipient (hsealed : Sealed S) (hS : S.Lawful) {amb : Ambient S}
    {recipient : S.PublicKey} {plaintext : S.Text} {wrap inner : S.Event} {keys : S.Keys}
    (hwrap : giftWrapSingleLayer amb recipient plaintext = .ok wrap)
    (hinner : innerEvent keys wrap = .ok inner) : S.publicKey keys = recipient := by
  obtain ⟨c, hc, hsign⟩ := giftWrapSingleLayer_ok hwrap
  unfold innerEvent decryptGiftWrapSingleLayer decryptNip44 at hinner
  split at hinner
  · next opened hopened =>
      rw [hS.sign_pubkey hsign, hS.sign_content hsign] at hopened
      exact hsealed _ _ _ _ _ hc _ _ (Except.mapError_eq_ok.1 hopened)
  · cases hinner

/-- A step of a client publishes at most one event, which verifies. -/
theorem Client.Transition.events (hS : S.Lawful) {client : NostrClientTransport S}
    {s s' : Client.State S} {a : Client.Action S} (h : Transition client s a s') :
    s'.log.filterMap Obs.event? = s.log.filterMap Obs.event? ∨ ∃ x, S.verify x = true ∧
      s'.log.filterMap Obs.event? = x :: s.log.filterMap Obs.event? := by
  cases h with
  | published i amb message eventId event ht hp =>
      obtain ⟨-, signed, hsent⟩ := BaseTransport.sendMcpMessage_ok hp
      exact .inr ⟨event, hsent.verify hS, rfl⟩
  | _ => exact .inl rfl

/-! ## The system -/

/-- The clients, and the server that they are configured for. -/
structure Clients (S : Sdk) (n : Nat) where
  client : Fin n → NostrClientTransport S
  server : NostrServerTransport S
  serverPubkey : ∀ i, (client i).serverPubkey = S.publicKey server.keys
  /-- No client has the keys of the server. -/
  apart : ∀ i, S.publicKey (client i).keys ≠ S.publicKey server.keys
  /-- Nor has it those of another client. -/
  distinct : ∀ i j, S.publicKey (client i).keys = S.publicKey (client j).keys → i = j

namespace Clients

variable {n : Nat}

/-- One of the clients, and the server. -/
def net (many : Clients S n) (i : Fin n) : Net S where
  client := many.client i
  server := many.server
  serverPubkey := many.serverPubkey i

structure State (S : Sdk) (n : Nat) where
  clients : Fin n → Client.State S
  server : Server.State S

namespace State

def init : State S n := ⟨fun _ ↦ .init, .init⟩

/-- The events that a client has published. -/
def events (s : State S n) (i : Fin n) : List S.Event :=
  (s.clients i).log.filterMap Client.Obs.event?

/-- The events that have been published. -/
def wire (s : State S n) : List S.Event :=
  (List.finRange n).flatMap s.events ++ s.server.log.filterMap Server.Obs.event?

/-- The client `i` is in the state `c`. -/
def put (s : State S n) (i : Fin n) (c : Client.State S) : State S n :=
  { s with clients := Function.update s.clients i c }

/-- The state to one of the clients. -/
def view (s : State S n) (i : Fin n) : Net.State S where
  client := s.clients i
  server := s.server
  others := ((List.finRange n).filter fun j ↦ j ≠ i).flatMap s.events

theorem mem_wire {s : State S n} {x : S.Event} : x ∈ s.wire ↔
    (∃ i, x ∈ s.events i) ∨ x ∈ s.server.log.filterMap Server.Obs.event? := by
  simp [wire]

end State

inductive Action (S : Sdk) (n : Nat) where
  | client (i : Fin n) (a : Client.Action S)
  | server (a : Server.Action S)
  /-- The relays hand an event of the wire to the loop of the client `i`. -/
  | toClient (i : Fin n) (k : Nat)
  | toServer (k : Nat)

def step (many : Clients S n) (s : State S n) : Action S n → Option (State S n)
  | .client i a =>
    if a.isReceive then none
    else (Client.step (many.client i) (s.clients i) a).map (s.put i)
  | .server a =>
    if a.isReceive then none
    else (Server.step many.server s.server a).map fun c ↦ { s with server := c }
  | .toClient i k =>
    s.wire[k]?.bind fun event ↦
      (Client.step (many.client i) (s.clients i) (.receive event)).map (s.put i)
  | .toServer k =>
    s.wire[k]?.bind fun event ↦
      (Server.step many.server s.server (.receive event)).map fun c ↦ { s with server := c }

/-- The steps of the server are orderly. -/
def ServerOrderly (many : Clients S n) (s : State S n) : Action S n → Prop
  | .server a => Server.Orderly many.server s.server a
  | .toServer k => ∀ event, s.wire[k]? = some event →
      Server.Orderly many.server s.server (.receive event)
  | _ => True

variable {many : Clients S n} {s s' : State S n} {i j : Fin n} {t : Net.State S}

/-! ## The system to one of its clients -/

/-- The client `i`, the server, and the events of the other clients, in some order. -/
structure Projects (i : Fin n) (s : State S n) (t : Net.State S) : Prop where
  client : t.client = s.clients i
  server : t.server = s.server
  others : ∀ x, x ∈ t.others ↔ ∃ j, j ≠ i ∧ x ∈ s.events j

theorem Projects.init : Projects i (.init : State S n) .init where
  client := rfl
  server := rfl
  others x := by simp [Net.State.init, State.events, State.init, Client.State.init]

theorem Projects.mem_wire (h : Projects i s t) {x : S.Event} : x ∈ t.wire ↔ x ∈ s.wire := by
  rw [State.mem_wire, Net.State.wire, List.mem_append, List.mem_append, h.others, h.client,
    h.server]
  refine or_congr_left ⟨?_, ?_⟩
  · rintro (⟨j, -, hx⟩ | hx)
    · exact ⟨j, hx⟩
    · exact ⟨i, hx⟩
  · rintro ⟨j, hx⟩
    by_cases hj : j = i
    · exact .inr (hj ▸ hx)
    · exact .inl ⟨j, hj, hx⟩

theorem State.events_put_self (c : Client.State S) :
    (s.put i c).events i = c.log.filterMap Client.Obs.event? := by
  simp [State.events, State.put]

theorem State.events_put_of_ne (h : j ≠ i) (c : Client.State S) :
    (s.put i c).events j = s.events j := by
  simp [State.events, State.put, Function.update_of_ne h]

/-- The client takes its own steps. -/
theorem Projects.put_self (h : Projects i s t) (c : Client.State S) :
    Projects i (s.put i c) { t with client := c } where
  client := by simp [State.put]
  server := h.server
  others x := by
    rw [h.others x]
    refine exists_congr fun j ↦ and_congr_right fun hj ↦ ?_
    rw [State.events_put_of_ne hj]

/-- What the others publish they publish as other parties. -/
theorem Projects.put_of_ne (h : Projects i s t) (hj : j ≠ i) (c : Client.State S)
    {others : List S.Event}
    (hothers : ∀ x, x ∈ others ↔ x ∈ t.others ∨ x ∈ c.log.filterMap Client.Obs.event?)
    (hkept : s.events j ⊆ c.log.filterMap Client.Obs.event?) :
    Projects i (s.put j c) { t with others := others } where
  client := by simp [State.put, Function.update_of_ne hj.symm, h.client]
  server := h.server
  others x := by
    rw [hothers x, h.others x]
    constructor
    · rintro (⟨k, hk, hx⟩ | hx)
      · by_cases hkj : k = j
        · subst hkj
          refine ⟨k, hk, ?_⟩
          rw [State.events_put_self]
          exact hkept hx
        · refine ⟨k, hk, ?_⟩
          rwa [State.events_put_of_ne hkj]
      · refine ⟨j, hj, ?_⟩
        rwa [State.events_put_self]
    · rintro ⟨k, hk, hx⟩
      by_cases hkj : k = j
      · subst hkj
        rw [State.events_put_self] at hx
        exact .inr hx
      · rw [State.events_put_of_ne hkj] at hx
        exact .inl ⟨k, hk, hx⟩

/-- A step of any client, as one of the client `i`, of another party, or as none. -/
theorem Projects.client_step (hS : S.Lawful) (h : Projects i s t) {a : Client.Action S}
    {c : Client.State S} (hstep : Client.step (many.client j) (s.clients j) a = some c)
    (hwire : ∀ event, a = .receive event → event ∈ s.wire) :
    Projects i (s.put j c) t ∨ ∃ b t', Net.ServerOrderly (many.net i) t b ∧
      Net.step (many.net i) t b = some t' ∧ Projects i (s.put j c) t' := by
  by_cases hj : j = i
  · subst hj
    have hstep' : Client.step (many.net j).client t.client a = some c := h.client ▸ hstep
    right
    cases ha : a.isReceive with
    | false =>
        refine ⟨.client a, _, trivial, ?_, h.put_self c⟩
        simp [Net.step, ha, hstep']
    | true =>
        cases a with
        | receive event =>
            obtain ⟨k, hk⟩ := List.getElem?_of_mem (h.mem_wire.2 (hwire event rfl))
            refine ⟨.toClient k, _, trivial, ?_, h.put_self c⟩
            simp [Net.step, hk, hstep']
        | _ => cases ha
  · rcases (Client.step_transition hstep).events hS with heq | ⟨x, hverify, heq⟩
    · left
      refine h.put_of_ne hj c (fun y ↦ ?_) (heq ▸ List.Subset.refl _)
      rw [heq, h.others]
      refine ⟨.inl, ?_⟩
      rintro (hy | hy)
      · exact hy
      · exact ⟨j, hj, hy⟩
    · right
      refine ⟨.publish x, _, trivial, if_pos hverify, h.put_of_ne hj c (fun y ↦ ?_) ?_⟩
      · rw [heq, List.mem_cons, List.mem_cons, h.others]
        constructor
        · rintro (rfl | hy)
          · exact .inr (.inl rfl)
          · exact .inl hy
        · rintro (hy | rfl | hy)
          · exact .inr hy
          · exact .inl rfl
          · exact .inr ⟨j, hj, hy⟩
      · rw [heq]
        exact List.subset_cons_self ..

theorem Projects.server_step (h : Projects i s t) {a : Server.Action S} {c : Server.State S}
    (hstep : Server.step many.server s.server a = some c)
    (hwire : ∀ event, a = .receive event → event ∈ s.wire) :
    ∃ b t', (Server.Orderly many.server s.server a → Net.ServerOrderly (many.net i) t b) ∧
      Net.step (many.net i) t b = some t' ∧ Projects i { s with server := c } t' := by
  have hstep' : Server.step (many.net i).server t.server a = some c := h.server ▸ hstep
  have hprojects : Projects i { s with server := c } { t with server := c } :=
    ⟨h.client, rfl, h.others⟩
  cases ha : a.isReceive with
  | false =>
      refine ⟨.server a, _, fun hord ↦ ?_, ?_, hprojects⟩
      · exact (h.server ▸ hord : Server.Orderly (many.net i).server t.server a)
      · simp [Net.step, ha, hstep']
  | true =>
      cases a with
      | receive event =>
          obtain ⟨k, hk⟩ := List.getElem?_of_mem (h.mem_wire.2 (hwire event rfl))
          refine ⟨.toServer k, _, ?_, ?_, hprojects⟩
          · intro hord event' hevent'
            cases hk.symm.trans hevent'
            exact (h.server ▸ hord : Server.Orderly (many.net i).server t.server _)
          · simp [Net.step, hk, hstep']
      | _ => cases ha

theorem Projects.step (hS : S.Lawful) (h : Projects i s t) {a : Action S n}
    (hstep : Clients.step many s a = some s') :
    Projects i s' t ∨ ∃ b t', (ServerOrderly many s a → Net.ServerOrderly (many.net i) t b) ∧
      Net.step (many.net i) t b = some t' ∧ Projects i s' t' := by
  cases a with
  | client j a =>
      simp only [Clients.step, Option.ite_none_left_eq_some, Option.map_eq_some_iff] at hstep
      obtain ⟨ha, c, hc, rfl⟩ := hstep
      have hwire : ∀ event, a = .receive event → event ∈ s.wire := by
        rintro event rfl
        exact absurd rfl ha
      refine (h.client_step hS hc hwire).imp_right ?_
      rintro ⟨b, t', hb, hrest⟩
      exact ⟨b, t', fun _ ↦ hb, hrest⟩
  | server a =>
      simp only [Clients.step, Option.ite_none_left_eq_some, Option.map_eq_some_iff] at hstep
      obtain ⟨ha, c, hc, rfl⟩ := hstep
      refine .inr (h.server_step hc ?_)
      rintro event rfl
      exact absurd rfl ha
  | toClient j k =>
      simp only [Clients.step, Option.bind_eq_some_iff, Option.map_eq_some_iff] at hstep
      obtain ⟨event, hk, c, hc, rfl⟩ := hstep
      have hwire : ∀ event', Client.Action.receive event = .receive event' →
          event' ∈ s.wire := by
        rintro event' ⟨⟩
        exact List.mem_of_getElem? hk
      refine (h.client_step hS hc hwire).imp_right ?_
      rintro ⟨b, t', hb, hrest⟩
      exact ⟨b, t', fun _ ↦ hb, hrest⟩
  | toServer k =>
      simp only [Clients.step, Option.bind_eq_some_iff, Option.map_eq_some_iff] at hstep
      obtain ⟨event, hk, c, hc, rfl⟩ := hstep
      have hwire : ∀ event', Server.Action.receive event = .receive event' →
          event' ∈ s.wire := by
        rintro event' ⟨⟩
        exact List.mem_of_getElem? hk
      obtain ⟨b, t', hb, hrest⟩ := h.server_step hc hwire
      exact .inr ⟨b, t', fun hord ↦ hb (hord event hk), hrest⟩

def Reachable (many : Clients S n) (s : State S n) : Prop := Reaches (Clients.step many) .init s

/-- The server makes its own steps. -/
theorem step_server {a : Action S n} (hstep : Clients.step many s a = some s') :
    s'.server = s.server ∨ ∃ b, Server.step many.server s.server b = some s'.server := by
  cases a with
  | client j a =>
      simp only [Clients.step, Option.ite_none_left_eq_some, Option.map_eq_some_iff] at hstep
      obtain ⟨-, c, -, rfl⟩ := hstep
      exact .inl rfl
  | server a =>
      simp only [Clients.step, Option.ite_none_left_eq_some, Option.map_eq_some_iff] at hstep
      obtain ⟨-, c, hc, rfl⟩ := hstep
      exact .inr ⟨a, hc⟩
  | toClient j k =>
      simp only [Clients.step, Option.bind_eq_some_iff, Option.map_eq_some_iff] at hstep
      obtain ⟨event, -, c, -, rfl⟩ := hstep
      exact .inl rfl
  | toServer k =>
      simp only [Clients.step, Option.bind_eq_some_iff, Option.map_eq_some_iff] at hstep
      obtain ⟨event, -, c, hc, rfl⟩ := hstep
      exact .inr ⟨_, hc⟩

theorem Reachable.server (hs : Reachable many s) : Server.Reachable many.server s.server := by
  refine hs.induct _ (fun s ↦ Server.Reachable many.server s.server) .init ?_
  rintro m a m' - h hstep
  rcases step_server hstep with heq | ⟨b, hb⟩
  · exact heq ▸ h
  · exact h.step hb

/-- To each client, the state is one of it and the server. -/
theorem Reachable.projects (hS : S.Lawful) (hs : Reachable many s) (i : Fin n) :
    ∃ t, Net.Reachable (many.net i) t ∧ Projects i s t := by
  refine hs.induct _ (fun s ↦ ∃ t, Net.Reachable (many.net i) t ∧ Projects i s t)
    ⟨.init, .refl _ _, .init⟩ ?_
  rintro m a m' - ⟨t, ht, h⟩ hstep
  rcases h.step hS hstep with h' | ⟨b, t', -, hb, h'⟩
  · exact ⟨t, ht, h'⟩
  · exact ⟨t', ht.tail _ hb, h'⟩

/-- What a client has published it has sent to the server. -/
theorem Projects.sent (h : Projects i s t) (hs : Net.Reachable (many.net i) t) {x : S.Event}
    (hx : x ∈ s.events i) : ∃ k amb message signed,
      .published k message x ∈ (s.clients i).log ∧
      Sent (many.client i).base amb message (S.publicKey many.server.keys) ctxvmMessagesKind
        (createRecipientTags S (many.client i).serverPubkey)
        (shouldEncrypt (many.client i).encryptionMode ctxvmMessagesKind none) signed x := by
  obtain ⟨o, ho, hevent⟩ := List.mem_filterMap.1 hx
  cases o <;> simp only [Client.Obs.event?, reduceCtorEq, Option.some.injEq] at hevent
  subst hevent
  obtain ⟨-, amb, signed, hsent⟩ := hs.published_sent (h.client ▸ ho)
  exact ⟨_, amb, _, signed, ho, hsent⟩

theorem mem_events {log : List (Server.Obs S)} {x : S.Event} :
    x ∈ log.filterMap Server.Obs.event? ↔ ∃ p ∈ Server.published log, p.event = x := by
  have hevent : Server.Obs.event? (S := S) = fun o ↦ o.publication?.map Publication.event := by
    funext o
    cases o <;> rfl
  rw [hevent, ← List.map_filterMap, List.mem_map]
  exact Iff.rfl

/-- The event is on the wire, or it is inside a gift wrap to the server that is. -/
def Occurs (many : Clients S n) (s : State S n) (x : S.Event) : Prop :=
  x ∈ s.wire ∨ ∃ wrap ∈ s.wire, innerEvent many.server.keys wrap = .ok x

/-- Distinct events have distinct ids. -/
def DistinctIds (many : Clients S n) (s : State S n) : Prop :=
  ∀ x y, Occurs many s x → Occurs many s y → x.id = y.id → x.unsigned = y.unsigned

theorem Projects.answers (h : Projects i s t) {event : S.Event} {e : String}
    {m response : JsonRpcMessage} {req : JsonRpcRequest}
    (hanswers : Net.Answers (many.net i) t event e m req response) :
    Net.Answers (many.net i) (s.view i) event e m req response := by
  obtain ⟨hasked, htaken, hanswered, hdelivered, hid⟩ := hanswers
  rw [h.client] at hasked
  rw [h.server] at htaken hanswered
  exact ⟨hasked, htaken, hanswered, hdelivered, hid⟩

/-- Two clients, and a server that is open to all. -/
def twoClients (encryptionMode : EncryptionMode) : Clients Symbolic.sdk 2 where
  client i :=
    { keys := if i = 0 then "A" else "B"
      serverPubkey := "server"
      encryptionMode
      isStateless := false }
  server := Server.openServer
  serverPubkey _ := rfl
  apart := by
    change ∀ i : Fin 2, (if i = 0 then "A" else "B") ≠ "server"
    decide
  distinct := by
    change ∀ i j : Fin 2, (if i = 0 then "A" else "B") = (if j = 0 then "A" else "B") → i = j
    decide

/-- The client `i` sends a request and registers the id, and the server receives the request as
the event `k` of the wire. -/
def asks (i : Fin 2) (k : Nat) : List (Action Symbolic.sdk 2) :=
  [.client i (.call toolCall), .client i (.resume 0 (Symbolic.ambient 0)),
    .client i (.resume 0 (Symbolic.ambient 1)), .toServer k]

def firstAsks : List (Action Symbolic.sdk 2) := asks 0 0

theorem sealed_symbolic : Sealed Symbolic.sdk := by
  rintro sender recipient plaintext nonce _ ⟨⟩ keys opened h
  by_cases hkeys : recipient = keys
  · exact hkeys.symm
  · have hfails : Except.error "invalid MAC" = Except.ok opened :=
      (if_neg fun hk ↦ hkeys hk.2).symm.trans h
    cases hfails

end Clients

end ContextVM
