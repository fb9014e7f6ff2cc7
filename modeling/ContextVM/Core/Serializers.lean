import ContextVM.Core.Codec
import ContextVM.Nostr.Sdk

/-!
# Messages and events

The conversions of `core/serializers.rs` between messages and the content of events.
-/

namespace ContextVM

variable {S : Sdk}

/-- The message is written as JSON into the content of the event. -/
def mcpToNostrEvent (S : Sdk) (message : JsonRpcMessage) (kind : UInt16) (tags : List Tag) :
    EventBuilder S.Text where
  kind := kind
  content := S.print message.encode
  tags := tags

/-- `None` if the content is not JSON or no JSON-RPC message. -/
def nostrEventToMcpMessage (S : Sdk) (content : S.Text) : Option JsonRpcMessage :=
  (S.parse content).bind JsonRpcMessage.decode

/-- The second string of the first tag of that name which has one. -/
def getTagValue (tags : List Tag) (name : String) : Option String :=
  tags.findSome? fun tag ↦ if tag.head? = some name then tag[1]? else none

theorem Sdk.Lawful.nostrEventToMcpMessage_content (hS : S.Lawful) (message : JsonRpcMessage)
    (kind : UInt16) (tags : List Tag) :
    nostrEventToMcpMessage S (mcpToNostrEvent S message kind tags).content =
      some message.canonical := by
  simp [nostrEventToMcpMessage, mcpToNostrEvent, hS.parse_print, JsonRpcMessage.decode_encode]

end ContextVM
