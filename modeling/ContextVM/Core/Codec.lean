import ContextVM.Core.Types

/-!
# The JSON form of the messages

What `#[derive(Serialize, Deserialize)]` generates for the message types.

Decoding starts from the tree the parser read, with the members of an object in text order
and repeated names kept.  A derived struct is read from an object by name, where a repeated
field is refused and an unknown one ignored, or from an array by position, where a
longer array than the struct has fields is refused.  The enum is untagged: its four
variants are tried in order and the first that succeeds is taken.
-/

namespace ContextVM

/-! ## Derived structs -/

/-- How often a name occurs among the members of an object. -/
def occurrences (key : String) (members : Json.Members) : Nat :=
  (members.filter fun m ↦ m.1 = key).length

/-- The fields of a struct with the given field names, as its derived visitor finds them. -/
def structFields (names : List String) : Json → Option (String → Option Json)
  | .obj members =>
    if names.all fun n ↦ occurrences n members ≤ 1 then
      some fun n ↦ Json.find? n members
    else none
  | .arr elems =>
    if elems.length ≤ names.length then some fun n ↦ elems[names.idxOf n]? else none
  | _ => none

/-- An `Option<Value>` field with `#[serde(default)]`: absent and `null` both read as
`None`. -/
def optionalField : Option Json → Option Value
  | none | some .null => none
  | some j => some (Value.ofJson j)

/-- An `i64` field. -/
def Json.asI64 : Json → Option Int64
  | .num (.int n _) =>
    if -9223372036854775808 ≤ n ∧ n < 9223372036854775808 then some (Int64.ofInt n) else none
  | _ => none

/-- A member that is written only when there is a value
(`skip_serializing_if = "Option::is_none"`). -/
def optionalMember (key : String) : Option Value → Json.Members
  | none => []
  | some v => [(key, v.json)]

/-- What is read back of an optional value: `Some(null)` is written as `null`. -/
def dropNull : Option Value → Option Value
  | none => none
  | some v => if v.json matches .null then none else some v

theorem optionalField_some (v : Value) : optionalField (some v.json) = dropNull (some v) := by
  obtain ⟨j, hj⟩ := v
  cases j <;> first | rfl | exact congrArg some (Value.ofJson_json _)

/-! ## Decoding -/

namespace JsonRpcRequest

def decode (j : Json) : Option JsonRpcRequest := do
  let field ← structFields ["jsonrpc", "id", "method", "params"] j
  let jsonrpc ← (← field "jsonrpc").asStr
  let id ← field "id"
  let method ← (← field "method").asStr
  return ⟨jsonrpc, .ofJson id, method, optionalField (field "params")⟩

def encode (r : JsonRpcRequest) : Json :=
  .obj ([("jsonrpc", .str r.jsonrpc), ("id", r.id.json), ("method", .str r.method)] ++
    optionalMember "params" r.params)

end JsonRpcRequest

namespace JsonRpcResponse

def decode (j : Json) : Option JsonRpcResponse := do
  let field ← structFields ["jsonrpc", "id", "result"] j
  let jsonrpc ← (← field "jsonrpc").asStr
  let id ← field "id"
  let result ← field "result"
  return ⟨jsonrpc, .ofJson id, .ofJson result⟩

def encode (r : JsonRpcResponse) : Json :=
  .obj [("jsonrpc", .str r.jsonrpc), ("id", r.id.json), ("result", r.result.json)]

end JsonRpcResponse

namespace JsonRpcError

def decode (j : Json) : Option JsonRpcError := do
  let field ← structFields ["code", "message", "data"] j
  let code ← (← field "code").asI64
  let message ← (← field "message").asStr
  return ⟨code, message, optionalField (field "data")⟩

def encode (e : JsonRpcError) : Json :=
  .obj ([("code", .num (.ofInt64 e.code)), ("message", .str e.message)] ++
    optionalMember "data" e.data)

end JsonRpcError

namespace JsonRpcErrorResponse

def decode (j : Json) : Option JsonRpcErrorResponse := do
  let field ← structFields ["jsonrpc", "id", "error"] j
  let jsonrpc ← (← field "jsonrpc").asStr
  let id ← field "id"
  let error ← JsonRpcError.decode (← field "error")
  return ⟨jsonrpc, .ofJson id, error⟩

def encode (r : JsonRpcErrorResponse) : Json :=
  .obj [("jsonrpc", .str r.jsonrpc), ("id", r.id.json), ("error", r.error.encode)]

end JsonRpcErrorResponse

namespace JsonRpcNotification

def decode (j : Json) : Option JsonRpcNotification := do
  let field ← structFields ["jsonrpc", "method", "params"] j
  let jsonrpc ← (← field "jsonrpc").asStr
  let method ← (← field "method").asStr
  return ⟨jsonrpc, method, optionalField (field "params")⟩

def encode (n : JsonRpcNotification) : Json :=
  .obj ([("jsonrpc", .str n.jsonrpc), ("method", .str n.method)] ++
    optionalMember "params" n.params)

end JsonRpcNotification

namespace JsonRpcMessage

/-- The untagged enum: the first variant that reads the tree. -/
def decode (j : Json) : Option JsonRpcMessage :=
  (JsonRpcRequest.decode j).map .request <|>
  (JsonRpcResponse.decode j).map .response <|>
  (JsonRpcErrorResponse.decode j).map .errorResponse <|>
  (JsonRpcNotification.decode j).map .notification

def encode : JsonRpcMessage → Json
  | .request r => r.encode
  | .response r => r.encode
  | .errorResponse r => r.encode
  | .notification n => n.encode

end JsonRpcMessage

/-! ## Reading back what was written -/

theorem Json.asI64_ofInt64 (c : Int64) : (Json.num (.ofInt64 c)).asI64 = some c := by
  have hlo := c.le_toInt
  have hhi := c.toInt_lt
  simp only [Json.asI64, Number.ofInt64, Int64.ofInt_toInt]
  rw [if_pos ⟨by simpa using hlo, by simpa using hhi⟩]

theorem JsonRpcRequest.decode_encode (r : JsonRpcRequest) :
    decode r.encode = some { r with params := dropNull r.params } := by
  obtain ⟨jsonrpc, id, method, params⟩ := r
  cases params with
  | none => simp [decode, encode, structFields, occurrences, Json.find?, optionalMember, Json.asStr,
      optionalField, dropNull]
  | some v => simp [decode, encode, structFields, occurrences, Json.find?, optionalMember,
      Json.asStr, optionalField_some]

theorem JsonRpcResponse.decode_encode (r : JsonRpcResponse) : decode r.encode = some r := by
  simp [decode, encode, structFields, occurrences, Json.find?, Json.asStr]

theorem JsonRpcError.decode_encode (e : JsonRpcError) :
    decode e.encode = some { e with data := dropNull e.data } := by
  obtain ⟨code, message, data⟩ := e
  cases data with
  | none => simp [decode, encode, structFields, occurrences, Json.find?, optionalMember, Json.asStr,
      optionalField, dropNull, Json.asI64_ofInt64]
  | some v => simp [decode, encode, structFields, occurrences, Json.find?, optionalMember,
      Json.asStr, optionalField_some, Json.asI64_ofInt64]

theorem JsonRpcErrorResponse.decode_encode (r : JsonRpcErrorResponse) :
    decode r.encode = some { r with error := { r.error with data := dropNull r.error.data } } := by
  simp [decode, encode, structFields, occurrences, Json.find?, Json.asStr,
    JsonRpcError.decode_encode]

theorem JsonRpcNotification.decode_encode (n : JsonRpcNotification) :
    decode n.encode = some { n with params := dropNull n.params } := by
  obtain ⟨jsonrpc, method, params⟩ := n
  cases params with
  | none => simp [decode, encode, structFields, occurrences, Json.find?, optionalMember, Json.asStr,
      optionalField, dropNull]
  | some v => simp [decode, encode, structFields, occurrences, Json.find?, optionalMember,
      Json.asStr, optionalField_some]

/-! A written variant is refused by the variants tried before it: each of them has a
required field that the written object lacks. -/

theorem JsonRpcRequest.decode_response (r : JsonRpcResponse) : decode r.encode = none := by
  simp [decode, JsonRpcResponse.encode, structFields, occurrences, Json.find?, Json.asStr]

theorem JsonRpcRequest.decode_errorResponse (r : JsonRpcErrorResponse) :
    decode r.encode = none := by
  simp [decode, JsonRpcErrorResponse.encode, structFields, occurrences, Json.find?, Json.asStr]

theorem JsonRpcResponse.decode_errorResponse (r : JsonRpcErrorResponse) :
    decode r.encode = none := by
  simp [decode, JsonRpcErrorResponse.encode, structFields, occurrences, Json.find?, Json.asStr]

theorem JsonRpcRequest.decode_notification (n : JsonRpcNotification) :
    decode n.encode = none := by
  cases hp : n.params <;>
    simp [decode, JsonRpcNotification.encode, hp, optionalMember, structFields, occurrences,
      Json.find?, Json.asStr]

theorem JsonRpcResponse.decode_notification (n : JsonRpcNotification) :
    decode n.encode = none := by
  cases hp : n.params <;>
    simp [decode, JsonRpcNotification.encode, hp, optionalMember, structFields, occurrences,
      Json.find?, Json.asStr]

theorem JsonRpcErrorResponse.decode_notification (n : JsonRpcNotification) :
    decode n.encode = none := by
  cases hp : n.params <;>
    simp [decode, JsonRpcNotification.encode, hp, optionalMember, structFields, occurrences,
      Json.find?, Json.asStr]

/-! What was read has no optional field that is `Some(null)`. -/

theorem dropNull_optionalField (j : Option Json) :
    dropNull (optionalField j) = optionalField j := by
  cases j with
  | none => rfl
  | some j => cases j <;> rfl

theorem JsonRpcRequest.dropNull_of_decode {j : Json} {r : JsonRpcRequest}
    (h : decode j = some r) : dropNull r.params = r.params := by
  simp only [decode, Option.bind_eq_bind, Option.bind_eq_some_iff, Option.pure_def,
    Option.some.injEq] at h
  obtain ⟨field, -, -, -, -, -, -, -, -, -, -, -, rfl⟩ := h
  exact dropNull_optionalField _

theorem JsonRpcError.dropNull_of_decode {j : Json} {e : JsonRpcError}
    (h : decode j = some e) : dropNull e.data = e.data := by
  simp only [decode, Option.bind_eq_bind, Option.bind_eq_some_iff, Option.pure_def,
    Option.some.injEq] at h
  obtain ⟨field, -, -, -, -, -, -, -, -, -, rfl⟩ := h
  exact dropNull_optionalField _

theorem JsonRpcErrorResponse.dropNull_of_decode {j : Json} {r : JsonRpcErrorResponse}
    (h : decode j = some r) : dropNull r.error.data = r.error.data := by
  simp only [decode, Option.bind_eq_bind, Option.bind_eq_some_iff, Option.pure_def,
    Option.some.injEq] at h
  obtain ⟨field, -, _, -, _, -, _, -, _, -, error, herror, rfl⟩ := h
  exact JsonRpcError.dropNull_of_decode herror

theorem JsonRpcNotification.dropNull_of_decode {j : Json} {n : JsonRpcNotification}
    (h : decode j = some n) : dropNull n.params = n.params := by
  simp only [decode, Option.bind_eq_bind, Option.bind_eq_some_iff, Option.pure_def,
    Option.some.injEq] at h
  obtain ⟨field, -, -, -, -, -, -, -, -, -, rfl⟩ := h
  exact dropNull_optionalField _

namespace JsonRpcMessage

/-- The message with the optional fields that are `Some(null)` dropped. -/
def canonical : JsonRpcMessage → JsonRpcMessage
  | .request r => .request { r with params := dropNull r.params }
  | .response r => .response r
  | .errorResponse r =>
    .errorResponse { r with error := { r.error with data := dropNull r.error.data } }
  | .notification n => .notification { n with params := dropNull n.params }

/-- Reading the tree a message was written to gives the message back, up to optional fields
that are `Some(null)`. -/
theorem decode_encode (m : JsonRpcMessage) : decode m.encode = some m.canonical := by
  cases m with
  | request r => simp [decode, encode, canonical, JsonRpcRequest.decode_encode]
  | response r =>
      simp [decode, encode, canonical, JsonRpcRequest.decode_response,
        JsonRpcResponse.decode_encode]
  | errorResponse r =>
      simp [decode, encode, canonical, JsonRpcRequest.decode_errorResponse,
        JsonRpcResponse.decode_errorResponse, JsonRpcErrorResponse.decode_encode]
  | notification n =>
      simp [decode, encode, canonical, JsonRpcRequest.decode_notification,
        JsonRpcResponse.decode_notification, JsonRpcErrorResponse.decode_notification,
        JsonRpcNotification.decode_encode]

theorem canonical_of_decode {j : Json} {m : JsonRpcMessage}
    (h : decode j = some m) : m.canonical = m := by
  simp only [decode, Option.orElse_eq_orElse, Option.orElse_eq_or, Option.or_eq_some_iff,
    Option.map_eq_some_iff] at h
  rcases h with ⟨r, hr, rfl⟩ | ⟨-, ⟨r, hr, rfl⟩ | ⟨-, ⟨r, hr, rfl⟩ | ⟨-, n, hn, rfl⟩⟩⟩
  · rw [canonical, JsonRpcRequest.dropNull_of_decode hr]
  · rfl
  · rw [canonical, JsonRpcErrorResponse.dropNull_of_decode hr]
  · rw [canonical, JsonRpcNotification.dropNull_of_decode hn]

end JsonRpcMessage

end ContextVM
