import ContextVM.Core.Json
import ContextVM.Lib.Table

/-!
# Core types of the protocol
-/

namespace ContextVM

open Lib

/-- Whether messages travel as plaintext events or in gift wraps. -/
inductive EncryptionMode where
  /-- Encrypt responses only when the incoming request was encrypted (mirror mode). -/
  | optional
  /-- Enforce encryption for all messages; reject plaintext. -/
  | required
  /-- Disable encryption entirely. -/
  | disabled
deriving DecidableEq

/-- The errors the transports return. -/
inductive Error where
  | transport (message : String)
  | encryption (message : String)
  | decryption (message : String)
  | other (message : String)
deriving DecidableEq

/-! ## JSON-RPC messages -/

structure JsonRpcRequest where
  jsonrpc : String
  id : Value
  method : String
  params : Option Value

structure JsonRpcResponse where
  jsonrpc : String
  id : Value
  result : Value

structure JsonRpcError where
  code : Int64
  message : String
  data : Option Value

structure JsonRpcErrorResponse where
  jsonrpc : String
  id : Value
  error : JsonRpcError

structure JsonRpcNotification where
  jsonrpc : String
  method : String
  params : Option Value

/-- A message: the enum is untagged, its variants are tried in this order. -/
inductive JsonRpcMessage where
  | request (r : JsonRpcRequest)
  | response (r : JsonRpcResponse)
  | errorResponse (r : JsonRpcErrorResponse)
  | notification (n : JsonRpcNotification)

namespace JsonRpcMessage

def isRequest : JsonRpcMessage → Bool
  | .request _ => true
  | _ => false

def isResponse : JsonRpcMessage → Bool
  | .response _ => true
  | _ => false

def isError : JsonRpcMessage → Bool
  | .errorResponse _ => true
  | _ => false

def isNotification : JsonRpcMessage → Bool
  | .notification _ => true
  | _ => false

/-- The method name of a request or notification. -/
def method : JsonRpcMessage → Option String
  | .request r => some r.method
  | .notification n => some n.method
  | _ => none

/-- The id of a request or response. -/
def id : JsonRpcMessage → Option Value
  | .request r => some r.id
  | .response r => some r.id
  | .errorResponse r => some r.id
  | .notification _ => none

end JsonRpcMessage

/-- An exception to the allowlist: a method, and for some methods one name. -/
structure CapabilityExclusion where
  method : String
  name : Option String
deriving DecidableEq

/-! ## Client sessions -/

/-- What the server keeps for one client. -/
structure ClientSession where
  isInitialized : Bool
  isEncrypted : Bool
  /-- The instant of the client's last accepted message. -/
  lastActivity : Nat
  /-- The code's field comment reads "event_id → original request ID". -/
  pendingRequests : Table String Value
  /-- From event id to progress token. -/
  eventToProgressToken : Table String String

namespace ClientSession

/-- `ClientSession::new`, at the instant `now`. -/
def new (now : Nat) (isEncrypted : Bool) : ClientSession where
  isInitialized := false
  isEncrypted := isEncrypted
  lastActivity := now
  pendingRequests := ∅
  eventToProgressToken := ∅

def updateActivity (session : ClientSession) (now : Nat) : ClientSession :=
  { session with lastActivity := now }

end ClientSession

end ContextVM
