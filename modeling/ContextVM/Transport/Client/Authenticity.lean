import ContextVM.Nostr.Symbolic
import ContextVM.Transport.Client.System

/-!
# Whom the client listens to

The event loop forwards what the configured server has written, by the public key that the
read event names.  As on the server, the relay pool has verified that key for a plaintext
event, and nothing has verified it for the event inside a gift wrap.
-/

namespace ContextVM.Client

open Lib NostrClientTransport
open Symbolic (initialized)

variable {S : Sdk} {client : NostrClientTransport S}

/-- The event itself, or the event inside it. -/
def Carries (client : NostrClientTransport S) (event read : S.Event) : Prop :=
  read = event ∨ innerEvent client.keys event = .ok read

theorem layer_ok {event read : S.Event} (h : client.layer event = .ok read) :
    (event.kind ≠ giftWrapKind ∧ read = event) ∨
      (event.kind = giftWrapKind ∧ innerEvent client.keys event = .ok read) := by
  unfold layer at h
  split at h
  · next hk => exact .inr ⟨hk, h⟩
  · next hk => exact .inl ⟨hk, (Except.ok.inj h).symm⟩

/-- The loop is at an event that it has received, and so was whatever it has forwarded. -/
structure Origin (client : NostrClientTransport S) (P : S.Event → Prop) (s : State S) :
    Prop where
  loop : ∀ t, s.loop = some t → P t.event ∧ ∃ read, Read client t.event t.content t.eTag read
  log : ∀ event eTag message, .forwarded event eTag message ∈ s.log →
    P event ∧ ∃ content read, Read client event content eTag read ∧
      nostrEventToMcpMessage S content = some message

theorem Origin.step {P : S.Event → Prop} {s s' : State S} {a : Action S}
    (h : Origin client P s) (ha : ∀ event, a = .receive event → P event)
    (htrans : Transition client s a s') : Origin client P s' := by
  refine ⟨fun t hloop ↦ ?_, fun event eTag message hmem ↦ ?_⟩
  · rcases htrans.loop_from hloop with hloop | ⟨hact, htake⟩
    · exact h.loop t hloop
    · exact ⟨ha t.event hact, (take_ok.1 htake).1⟩
  · rcases htrans.log_forwarded hmem with hmem | ⟨content, hloop, hm⟩
    · exact h.log event eTag message hmem
    · obtain ⟨hP, read, hread⟩ := h.loop _ hloop
      exact ⟨hP, content, read, hread, hm⟩

/-- Every forwarded message is what the loop read of an event that it received. -/
theorem forwarded_of_run {P : S.Event → Prop} {as : List (Action S)} {s : State S}
    (hrun : run (step client) .init as = some s) (hP : ∀ event, .receive event ∈ as → P event)
    {event : S.Event} {eTag : Option String} {message : JsonRpcMessage}
    (hmem : .forwarded event eTag message ∈ s.log) :
    P event ∧ ∃ content read, Read client event content eTag read ∧
      nostrEventToMcpMessage S content = some message := by
  have hinit : Origin client P .init := ⟨nofun, nofun⟩
  have hreceived : Always (step client) (fun _ a ↦ ∀ event, a = .receive event → P event)
      .init as := by
    refine .of_mem fun a ha _ event heq ↦ ?_
    exact hP event (heq ▸ ha)
  have h := run_invariant_of_always (Origin client P)
    (fun s a s' h ha hstep ↦ h.step ha (step_transition hstep)) hinit hreceived hrun
  exact h.log event eTag message hmem

/-! ## Authenticity -/

/-- The relay pool has verified the event itself. -/
def PoolVerified (as : List (Action S)) : Prop :=
  ∀ event, .receive event ∈ as → S.verify event = true

/-- If a gift wrap opens to an event that names the server, that event verifies. -/
def HonestWrap (client : NostrClientTransport S) (event : S.Event) : Prop :=
  ∀ inner, event.kind = giftWrapKind → innerEvent client.keys event = .ok inner →
    inner.pubkey = client.serverPubkey → S.verify inner = true

/-- An event carries the message under the signature of the server. -/
def SignedByServer (client : NostrClientTransport S) (event : S.Event)
    (message : JsonRpcMessage) : Prop :=
  ∃ signed, Carries client event signed ∧ S.verify signed = true ∧
    signed.pubkey = client.serverPubkey ∧
    nostrEventToMcpMessage S signed.content = some message

/-- In a run whose gift wraps are honest, every forwarded message was signed by the server. -/
theorem forwarded_signed_by_server {as : List (Action S)} {s : State S}
    (hrun : run (step client) .init as = some s) (hpool : PoolVerified as)
    (hwraps : ∀ event, .receive event ∈ as → HonestWrap client event) {event : S.Event}
    {eTag : Option String} {message : JsonRpcMessage}
    (hmem : .forwarded event eTag message ∈ s.log) :
    .receive event ∈ as ∧ SignedByServer client event message := by
  obtain ⟨hact, content, read, hread, hm⟩ :=
    forwarded_of_run (P := fun event ↦ .receive event ∈ as) hrun (fun _ h ↦ h) hmem
  rw [← hread.content] at hm
  refine ⟨hact, read, ?_⟩
  rcases layer_ok hread.layer with ⟨-, rfl⟩ | ⟨hk, hinner⟩
  · exact ⟨.inl rfl, hpool read hact, hread.author, hm⟩
  · exact ⟨.inr hinner, hwraps event hact read hk hinner hread.author, hread.author, hm⟩

/-- A client that takes both plaintext and gift wraps. -/
def openClient : NostrClientTransport Symbolic.sdk where
  keys := "A"
  serverPubkey := "server"
  encryptionMode := .optional
  isStateless := false

/-- The server sends one message in a gift wrap and one in plaintext. -/
theorem forwarded_signed_by_server_openClient :
    SignedByServer openClient
      (Symbolic.wrap "K" "A" 1 (Symbolic.message "server" 0 [] initialized)) initialized := by
  let wrap := Symbolic.wrap "K" "A" 1 (Symbolic.message "server" 0 [] initialized)
  let plain := Symbolic.message "server" 2 [] initialized
  have hpool : PoolVerified [.receive wrap, .deliver, .receive plain, .deliver] := by
    intro event hevent
    simp only [List.mem_cons, Action.receive.injEq, List.not_mem_nil, reduceCtorEq, or_false,
      false_or] at hevent
    rcases hevent with rfl | rfl <;> decide
  have hwraps : ∀ event, .receive event ∈
      [Action.receive wrap, .deliver, .receive plain, .deliver] →
      HonestWrap openClient event := by
    intro event hevent inner hk hinner _
    simp only [List.mem_cons, Action.receive.injEq, List.not_mem_nil, reduceCtorEq, or_false,
      false_or] at hevent
    rcases hevent with rfl | rfl
    · cases hinner
      decide
    · cases hinner
  have hrun : run (step openClient) .init
    [.receive wrap, .deliver, .receive plain, .deliver] = some _ := rfl
  exact (forwarded_signed_by_server hrun hpool hwraps (.tail _ (.head _))).2

/-- Anyone can have a message forwarded in the name of the server: the event inside this
gift wrap is signed by another key, and so is the wrap. -/
theorem forged_message_forwarded :
    ¬ ∀ (S : Sdk) (_ : S.Lawful) (client : NostrClientTransport S) (as : List (Action S))
      (s : State S), run (step client) .init as = some s → PoolVerified as →
        ∀ event eTag message, .forwarded event eTag message ∈ s.log →
          SignedByServer client event message := by
  intro h
  let wrap := Symbolic.wrap "M" "A" 1 (Symbolic.forged "M" "server" "e" initialized)
  have hpool : PoolVerified [.receive wrap, .deliver] := by
    intro event hevent
    simp only [List.mem_cons, Action.receive.injEq, List.not_mem_nil, reduceCtorEq,
      or_false] at hevent
    rcases hevent with rfl
    decide
  obtain ⟨signed, hcarries, hverify, hauthor, -⟩ := h Symbolic.sdk Symbolic.lawful openClient
    [.receive wrap, .deliver] _ rfl hpool wrap none initialized (.head _)
  rcases hcarries with rfl | hinner
  · exact absurd hauthor (by decide)
  · cases hinner
    exact absurd hverify (by decide)

end ContextVM.Client
