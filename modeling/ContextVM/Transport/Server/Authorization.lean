import ContextVM.Nostr.Symbolic
import ContextVM.Transport.Server.Steps

/-!
# Who gets a message forwarded

The event loop decides about an event by itself, so an event it refuses could as well not
have arrived, and what it forwards satisfies the allowlist or one of its exceptions.

The allowlist is about the public key that the read event names.  For a plaintext event that
key has signed, because the relay pool verifies what it hands over.  For a gift wrap the
pool verifies the wrap only and the loop does not verify the event inside, so the law that a
forwarded request was signed by its client holds as far as the gift wraps are honest.
-/

namespace ContextVM.Server

open Lib NostrServerTransport
open Symbolic (toolCall emptyResponse)

variable {S : Sdk} {server : NostrServerTransport S}

/-! ## Refused events -/

/-- The loop refuses the event of this action. -/
def Action.isRefused (server : NostrServerTransport S) : Action S → Bool
  | .receive event =>
    match server.accept event with
    | .ok _ => false
    | .error _ => true
  | _ => false

/-- A refused event changes nothing at all. -/
theorem step_of_isRefused {s : State S} {a : Action S} (h : a.isRefused server = true) :
    step server s a = some s := by
  cases a with
  | receive event =>
      cases hacc : server.accept event with
      | ok r => simp [Action.isRefused, hacc] at h
      | error why => simp [step, hacc]
  | _ => cases h

/-! ## The allowlist -/

/-- `method` is the method under which the message is checked: on the allowlist are the
client's key, two methods, and what the exclusions name. -/
def Permitted (config : NostrServerTransportConfig) (method : Option String)
    (r : IncomingRequest) : Prop :=
  r.clientPubkey ∈ config.allowedPublicKeys ∨
    method = some "initialize" ∨ method = some "notifications/initialized" ∨
    ∃ excl ∈ config.excludedCapabilities, method = some excl.method ∧
      (excl.name = none ∨ ∃ name, excl.name = some name ∧ capabilityName r.message = some name)

theorem isCapabilityExcluded_eq_true {excluded : List CapabilityExclusion} {method : String}
    {name : Option String} :
    isCapabilityExcluded excluded method name = true ↔
      method = "initialize" ∨ method = "notifications/initialized" ∨
      ∃ excl ∈ excluded, method = excl.method ∧
        (excl.name = none ∨ ∃ n, excl.name = some n ∧ name = some n) := by
  unfold isCapabilityExcluded
  split
  · next h =>
      rcases h with h | h <;> simp [h]
  · next h =>
      rw [not_or] at h
      simp only [h.1, h.2, false_or, List.any_eq_true]
      refine exists_congr fun excl ↦ and_congr_right fun _ ↦ ?_
      by_cases hm : excl.method = method
      · cases hn : excl.name with
        | none => simp [hm]
        | some n => cases name <;> simp [hm, eq_comm]
      · simp [hm, Ne.symm hm]

theorem permitted_of_isAuthorized {r : IncomingRequest}
    (hallow : server.config.allowedPublicKeys ≠ [])
    (h : server.isAuthorized r.message r.clientPubkey = true) :
    Permitted server.config (some (r.message.method.getD "")) r := by
  simp only [isAuthorized, hallow, ne_eq, not_false_eq_true, if_true, Bool.not_eq_true',
    Bool.and_eq_false_iff, Bool.not_eq_false', List.contains_iff_mem,
    isCapabilityExcluded_eq_true] at h
  rcases h with h | h
  · exact .inl h
  · right
    simpa using h

/-- Refused events do not interfere, and the allowlist is kept: a run with its refused
events deleted ends in the same state, and what is forwarded is on the allowlist.  A
response has no method and is checked under the method `""`. -/
theorem refused_noninterference_and_permitted (as : List (Action S)) :
    run (step server) .init (as.filter fun a ↦ !a.isRefused server) =
        run (step server) .init as ∧
      ∀ s, run (step server) .init as = some s →
        server.config.allowedPublicKeys ≠ [] → ∀ r ∈ requests s.log,
          Permitted server.config (some (r.message.method.getD "")) r := by
  constructor
  · refine run_filter _ ?_ _ as
    intro s a ha
    exact step_of_isRefused (by simpa using ha)
  · intro s hrun hallow r hr
    obtain ⟨event, hmem⟩ := mem_requests.1 hr
    obtain ⟨-, hacc⟩ := forwarded_of_run_init hrun hmem
    obtain ⟨read, hread⟩ := accept_ok hacc
    exact permitted_of_isAuthorized hallow hread.authorized

/-- A server whose one exclusion has the empty method. -/
def emptyMethodServer : NostrServerTransport Symbolic.sdk where
  keys := "server"
  config :=
    { encryptionMode := .optional
      allowedPublicKeys := ["A"]
      excludedCapabilities := [⟨"", none⟩]
      sessionTimeout := 300 }

/-- A request of `B` is refused, a response of `B` and a request of `A` are not. -/
def mixedRun : List (Action Symbolic.sdk) :=
  [.receive (Symbolic.message "B" 0 [] toolCall),
    .receive (Symbolic.message "B" 1 [] emptyResponse),
    .receive (Symbolic.message "A" 2 [] toolCall)]

theorem refused_noninterference_and_permitted_emptyMethodServer :
    run (step emptyMethodServer) .init mixedRun.tail = run (step emptyMethodServer) .init mixedRun ∧
      Permitted emptyMethodServer.config (some "") ⟨emptyResponse, "B", "B/25910/1", false⟩ ∧
      Permitted emptyMethodServer.config (some "tools/call")
        ⟨toolCall, "A", "A/25910/2", false⟩ := by
  have hrun : run (step emptyMethodServer) .init mixedRun = some _ := rfl
  obtain ⟨hrefused, hpermitted⟩ :=
    @refused_noninterference_and_permitted _ emptyMethodServer mixedRun
  have hforwarded := hpermitted _ hrun (by decide)
  exact ⟨hrefused, hforwarded _ (.tail _ (.head _)), hforwarded _ (.head _)⟩

/-- A message without a method does get past an allowlist: an exclusion with the empty
method covers responses. -/
theorem response_permitted_without_method :
    ¬ ∀ (S : Sdk) (server : NostrServerTransport S) (as : List (Action S)) (s : State S),
      run (step server) .init as = some s → server.config.allowedPublicKeys ≠ [] →
        ∀ r ∈ requests s.log, Permitted server.config r.message.method r := by
  intro h
  have hp := h Symbolic.sdk emptyMethodServer
    [.receive (Symbolic.message "B" 0 [] emptyResponse)] _ rfl (by decide)
    ⟨emptyResponse, "B", "B/25910/0", false⟩ (List.mem_singleton.2 rfl)
  rcases hp with hp | hp | hp | ⟨excl, -, hp, -⟩
  · exact absurd hp (by decide)
  all_goals cases hp

/-! ## Authenticity -/

/-- The event that comes as `event`: the one inside if it is a gift wrap, and else itself. -/
def Brings (server : NostrServerTransport S) (event read : S.Event) : Prop :=
  if event.kind = giftWrapKind then innerEvent server.keys event = .ok read else read = event

/-- The event is signed by the client of the request, and has its id and its message. -/
structure Backs (event : S.Event) (r : IncomingRequest) : Prop where
  verified : S.verify event = true
  client : S.toHex event.pubkey = r.clientPubkey
  id : S.idToHex event.id = r.eventId
  message : nostrEventToMcpMessage S event.content = some r.message

/-- What comes as `event` backs the request, and unless the method is excepted, the key that
has signed it is on the allowlist. -/
def BackedBy (server : NostrServerTransport S) (event : S.Event) (r : IncomingRequest) : Prop :=
  ∃ read, Brings server event read ∧ Backs read r ∧ (server.config.allowedPublicKeys ≠ [] →
    isCapabilityExcluded server.config.excludedCapabilities (r.message.method.getD "")
      (capabilityName r.message) = false →
    S.toHex read.pubkey ∈ server.config.allowedPublicKeys)

/-- The relay pool has verified the event itself. -/
def PoolVerified (as : List (Action S)) : Prop :=
  ∀ event, .receive event ∈ as → S.verify event = true

/-- If a gift wrap is accepted, the event inside it verifies. -/
def HonestWrap (server : NostrServerTransport S) (event : S.Event) : Prop :=
  ∀ r inner, server.accept event = .ok r → server.layer event = .ok (inner, true) →
    S.verify inner = true

theorem brings_of_layer {event read : S.Event} {wrapped : Bool}
    (h : server.layer event = .ok (read, wrapped)) : Brings server event read := by
  unfold Brings
  cases wrapped with
  | true =>
      obtain ⟨hkind, -, hinner⟩ := layer_encrypted.1 h
      rw [if_pos hkind]
      exact hinner
  | false =>
      obtain ⟨hkind, -, heq⟩ := layer_plain.1 h
      rw [if_neg hkind]
      exact heq.symm

/-- An accepted event backs the request that is forwarded for it, if it or the event inside
verifies. -/
theorem backedBy_of_accept {event : S.Event} {r : IncomingRequest}
    (hacc : server.accept event = .ok r) (hpool : S.verify event = true)
    (hwrap : HonestWrap server event) : BackedBy server event r := by
  obtain ⟨read, hread⟩ := accept_ok hacc
  have hverify : S.verify read = true := by
    cases henc : r.isEncrypted with
    | true => exact hwrap r read hacc (henc ▸ hread.layer)
    | false =>
        obtain ⟨-, -, rfl⟩ := layer_plain.1 (henc ▸ hread.layer)
        exact hpool
  refine ⟨read, brings_of_layer hread.layer,
    ⟨hverify, hread.client.symm, hread.id.symm, hread.message⟩, ?_⟩
  intro hallow hnot
  rw [← hread.client]
  have hauth := hread.authorized
  simp only [isAuthorized, hallow, ne_eq, not_false_eq_true, if_true, hnot] at hauth
  simpa using hauth

/-- What has been received and is accepted has been forwarded. -/
theorem forwarded_of_receive {as : List (Action S)} {s s' : State S}
    (hrun : run (step server) s as = some s') {event : S.Event} {r : IncomingRequest}
    (hact : .receive event ∈ as) (hacc : server.accept event = .ok r) :
    .forwarded event r ∈ s'.log := by
  induction as generalizing s with
  | nil => cases hact
  | cons a as ih =>
      obtain ⟨m, hm, hrest⟩ := (run_cons_eq_some _).1 hrun
      rcases List.mem_cons.1 hact with rfl | hact
      · simp only [step, hacc, Option.some.injEq] at hm
        subst hm
        exact (run_log_suffix hrest).subset List.mem_cons_self
      · exact ih hrest hact

/-- Every forwarded request comes as an event that its client has signed, and unless its method
is excepted with a key of the allowlist, exactly if the gift wraps of the run are honest. -/
theorem forwarded_backed_iff {as : List (Action S)} {s : State S}
    (hrun : run (step server) .init as = some s) (hpool : PoolVerified as) :
    (∀ event r, .forwarded event r ∈ s.log → .receive event ∈ as ∧ BackedBy server event r) ↔
      ∀ event, .receive event ∈ as → HonestWrap server event := by
  constructor
  · intro hbacked event hact r inner hacc hlayer
    obtain ⟨-, read, hbrings, hbacks, -⟩ :=
      hbacked event r (forwarded_of_receive hrun hact hacc)
    obtain ⟨hkind, -, hinner⟩ := layer_encrypted.1 hlayer
    rw [Brings, if_pos hkind, hinner] at hbrings
    cases hbrings
    exact hbacks.verified
  · intro hwraps event r hmem
    obtain ⟨hact, hacc⟩ := forwarded_of_run_init hrun hmem
    exact ⟨hact, backedBy_of_accept hacc (hpool event hact) (hwraps event hact)⟩

/-- A server that serves one client. -/
def privateServer : NostrServerTransport Symbolic.sdk where
  keys := "server"
  config :=
    { encryptionMode := .optional
      allowedPublicKeys := ["A"]
      excludedCapabilities := []
      sessionTimeout := 300 }

/-- The client sends one request in a gift wrap and one in plaintext. -/
theorem forwarded_backed_iff_privateServer :
    let wrap := Symbolic.wrap "K" "server" 1 (Symbolic.message "A" 0 [] toolCall)
    let plain := Symbolic.message "A" 2 [] toolCall
    BackedBy privateServer wrap ⟨toolCall, "A", "A/25910/0", true⟩ ∧
      BackedBy privateServer plain ⟨toolCall, "A", "A/25910/2", false⟩ := by
  intro wrap plain
  have hpool : PoolVerified [.receive wrap, .receive plain] := by
    intro event hevent
    simp only [List.mem_cons, Action.receive.injEq, List.not_mem_nil, or_false] at hevent
    rcases hevent with rfl | rfl <;> decide
  have hwraps : ∀ event, .receive event ∈ [Action.receive wrap, .receive plain] →
      HonestWrap privateServer event := by
    intro event hevent r inner _ hlayer
    have hinner := (layer_encrypted.1 hlayer).2.2
    simp only [List.mem_cons, Action.receive.injEq, List.not_mem_nil, or_false] at hevent
    rcases hevent with rfl | rfl
    · cases hinner
      decide
    · cases hinner
  have hrun : run (step privateServer) .init [.receive wrap, .receive plain] = some _ := rfl
  have hbacked := (forwarded_backed_iff hrun hpool).2 hwraps
  exact ⟨(hbacked _ _ (.tail _ (.head _))).2, (hbacked _ _ (.head _)).2⟩

/-- Anyone can have a request forwarded in the name of an allowed client: the event inside this
gift wrap names the client and has the right id, but its signature is by another key, and so
is that of the wrap. -/
theorem forged_request_forwarded :
    ¬ ∀ (S : Sdk) (_ : S.Lawful) (server : NostrServerTransport S) (as : List (Action S))
      (s : State S), run (step server) .init as = some s → PoolVerified as →
        ∀ r ∈ requests s.log, ∃ event, .receive event ∈ as ∧ BackedBy server event r := by
  intro h
  let wrap := Symbolic.wrap "M" "server" 1 (Symbolic.forged "M" "A" "A/25910/0" toolCall)
  have hpool : PoolVerified [.receive wrap] := by
    intro event hevent
    cases List.mem_singleton.1 hevent
    decide
  obtain ⟨event, hact, read, hbrings, hbacks, -⟩ := h Symbolic.sdk Symbolic.lawful privateServer
    [.receive wrap] _ rfl hpool ⟨toolCall, "A", "A/25910/0", true⟩ (List.mem_singleton.2 rfl)
  cases List.mem_singleton.1 hact
  cases hbrings
  exact absurd hbacks.verified (by decide)

end ContextVM.Server
