import ContextVM.Transport.Client.Authenticity
import ContextVM.Transport.Server.Mirror

/-!
# The content of events

What is written into the content of an event is read back by the other side, and what was
read can be written and read again.

The contents that the event loops read are not all contents that `convertEventToMcp` would
accept.  Both loops decode a content with `nostrEventToMcpMessage`, which looks neither at
its size nor at the version it declares, and which takes an array for a struct.
-/

namespace ContextVM

open Lib
open Symbolic (toolCall)

variable {S : Sdk}

/-! ## Writing and reading -/

/-- A message is read back as it was written, except that an optional field that is
`Some(null)` is `None`.  What was read is read back as it is. -/
theorem content_roundtrip (hS : S.Lawful) (kind : UInt16) (tags : List Tag) :
    (∀ message, nostrEventToMcpMessage S (mcpToNostrEvent S message kind tags).content =
      some message.canonical) ∧
    ∀ content message, nostrEventToMcpMessage S content = some message →
      nostrEventToMcpMessage S (mcpToNostrEvent S message kind tags).content =
        some message := by
  constructor
  · intro message
    exact hS.nostrEventToMcpMessage_content message kind tags
  · intro content message h
    obtain ⟨j, -, hj⟩ := Option.bind_eq_some_iff.1 h
    rw [hS.nostrEventToMcpMessage_content, JsonRpcMessage.canonical_of_decode hj]

theorem content_roundtrip_symbolic :
    let nullParams : JsonRpcMessage := .request ⟨"2.0", .str "1", "tools/call", some .null⟩
    nostrEventToMcpMessage Symbolic.sdk
        (mcpToNostrEvent Symbolic.sdk nullParams ctxvmMessagesKind []).content = some toolCall ∧
      nostrEventToMcpMessage Symbolic.sdk
        (mcpToNostrEvent Symbolic.sdk toolCall ctxvmMessagesKind []).content = some toolCall := by
  obtain ⟨hwrite, hread⟩ := content_roundtrip Symbolic.lawful ctxvmMessagesKind []
  exact ⟨hwrite _, hread _ _ (hwrite toolCall)⟩

/-! ## What the event loops accept -/

/-- An event loop has forwarded a message that it read from this content. -/
inductive ForwardedFrom (S : Sdk) (content : S.Text) (message : JsonRpcMessage) : Prop
  | server (server : NostrServerTransport S) (s : Server.State S) (event read : S.Event)
      (r : IncomingRequest) (hs : Server.Reachable server s)
      (hmem : .forwarded event r ∈ s.log) (hm : r.message = message)
      (hread : server.layer event = .ok (read, r.isEncrypted)) (hc : read.content = content)
  | client (client : NostrClientTransport S) (s : Client.State S) (event read : S.Event)
      (eTag : Option String) (hs : Client.Reachable client s)
      (hmem : .forwarded event eTag message ∈ s.log)
      (hread : client.layer event = .ok read) (hc : read.content = content)

/-- The message is what the content decodes to. -/
theorem ForwardedFrom.decoded {content : S.Text} {message : JsonRpcMessage}
    (h : ForwardedFrom S content message) :
    nostrEventToMcpMessage S content = some message := by
  cases h with
  | server server s event read r hs hmem hm hread hc =>
      obtain ⟨as, hrun⟩ := hs
      obtain ⟨read', haccepted⟩ :=
        NostrServerTransport.accept_ok (Server.forwarded_of_run_init hrun hmem).2
      cases hread.symm.trans haccepted.layer
      rw [← hc, haccepted.message, hm]
  | client client s event read eTag hs hmem hread hc =>
      obtain ⟨as, hrun⟩ := hs
      obtain ⟨-, content', read', hread', hm⟩ :=
        Client.forwarded_of_run (P := fun _ ↦ True) hrun (fun _ _ ↦ trivial) hmem
      cases hread.symm.trans hread'.layer
      rw [← hc, hread'.content, hm]

/-- The validating conversion accepts a content that a loop has read exactly if the content
has at most 1 MiB and is an object that declares version 2.0. -/
theorem forwarded_validated_iff {content : S.Text} {message : JsonRpcMessage}
    (h : ForwardedFrom S content message) :
    (convertEventToMcp S content).isSome ↔
      S.len content ≤ maxMessageSize ∧ (S.parse content).bind Json.version = some "2.0" :=
  isSome_convertEventToMcp h.decoded

theorem forwarded_validated_iff_toolCall :
    (convertEventToMcp Symbolic.sdk (Symbolic.sdk.print toolCall.encode)).isSome ↔
      Symbolic.sdk.len (Symbolic.sdk.print toolCall.encode) ≤ maxMessageSize ∧
        (Symbolic.sdk.parse (Symbolic.sdk.print toolCall.encode)).bind Json.version =
          some "2.0" := by
  have hrun : run (Server.step Server.openServer) .init
    [.receive (Symbolic.message "A" 0 [] toolCall)] = some _ := rfl
  apply forwarded_validated_iff
  exact .server Server.openServer _ _ _ _ ⟨_, hrun⟩ (.head _) rfl rfl rfl

/-- A request that declares another version is forwarded. -/
theorem unvalidated_message_forwarded :
    ¬ ∀ (S : Sdk) (_ : S.Lawful) (content : S.Text) (message : JsonRpcMessage),
      ForwardedFrom S content message → (convertEventToMcp S content).isSome := by
  intro h
  let outdated : JsonRpcMessage := .request ⟨"1.0", .str "1", "test", none⟩
  have hrun : run (Server.step Server.openServer) .init
    [.receive (Symbolic.message "A" 0 [] outdated)] = some _ := rfl
  have hforwarded : ForwardedFrom Symbolic.sdk (Symbolic.sdk.print outdated.encode) outdated :=
    .server Server.openServer _ _ _ _ ⟨_, hrun⟩ (.head _) rfl rfl rfl
  exact absurd (h Symbolic.sdk Symbolic.lawful _ _ hforwarded) (by decide)

end ContextVM
