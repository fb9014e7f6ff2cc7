import ContextVM.Core.Validation

/-!
# The grammar of messages

Which values `validateMessage` accepts, and as what.  The four struct decoders overlap, and
the untagged enum takes the first that reads the value.  `Grammar` says the outcome in terms
of the members of the value alone, with no decoder in it.
-/

namespace ContextVM

namespace Value

def isObject (v : Value) : Bool := v.json matches .obj _

/-- The string at a name. -/
def getStr (v : Value) (key : String) : Option String := (v.get key).bind asStr

/-- `Value::as_i64`. -/
def asI64 (v : Value) : Option Int64 := v.json.asI64

def getI64 (v : Value) (key : String) : Option Int64 := (v.get key).bind asI64

theorem isObject_of_get {v w : Value} {key : String} (h : v.get key = some w) :
    v.isObject = true := by
  have hw := map_json_get v key
  rw [h] at hw
  unfold isObject
  cases hv : v.json with
  | obj ms => rfl
  | _ => simp [hv, Json.get?] at hw

theorem isObject_of_getStr {v : Value} {key s : String} (h : v.getStr key = some s) :
    v.isObject = true :=
  have ⟨_, hw, _⟩ := Option.bind_eq_some_iff.1 h
  isObject_of_get hw

/-- The fields of a struct that is read from an object are its members: no name of a value
occurs twice. -/
theorem structFields_json {v : Value} (h : v.isObject = true) (names : List String) :
    structFields names v.json = some fun n ↦ (v.get n).map Value.json := by
  have hget := map_json_get v
  obtain ⟨j, hj⟩ := v
  cases j with
  | obj members =>
      have honce : ∀ n ∈ names, occurrences n members ≤ 1 := fun n _ ↦
        Json.occurrences_le_one_of_membersNormal hj n
      simp only [structFields, List.all_eq_true, decide_eq_true_eq]
      rw [if_pos honce]
      exact congrArg some (funext fun n ↦ (hget n).symm)
  | _ => cases h

end Value

/-! ## One form for each struct -/

/-- An optional field has the member of its name, with `null` read as absent. -/
theorem optionalField_map_json (v : Option Value) :
    optionalField (v.map Value.json) = dropNull v := by
  cases v with
  | none => rfl
  | some v => exact optionalField_some v

/-- The members of a value that is a request. -/
structure JsonRpcRequest.Form (v : Value) (r : JsonRpcRequest) : Prop where
  jsonrpc : v.getStr "jsonrpc" = some r.jsonrpc
  id : v.get "id" = some r.id
  method : v.getStr "method" = some r.method
  params : r.params = dropNull (v.get "params")

theorem JsonRpcRequest.decode_eq_some_iff {v : Value} (hv : v.isObject = true)
    {r : JsonRpcRequest} : decode v.json = some r ↔ r.Form v := by
  simp only [decode, Value.structFields_json hv, Option.bind_eq_bind, Option.bind_some,
    Option.bind_eq_some_iff, Option.map_eq_some_iff, Option.pure_def, Option.some.injEq,
    optionalField_map_json]
  constructor
  · rintro ⟨_, ⟨j, hj, rfl⟩, jsonrpc, hjs, _, ⟨id, hid, rfl⟩, _, ⟨m, hm, rfl⟩, method, hms, rfl⟩
    exact ⟨Option.bind_eq_some_iff.2 ⟨j, hj, hjs⟩, by simp [hid],
      Option.bind_eq_some_iff.2 ⟨m, hm, hms⟩, rfl⟩
  · rintro ⟨hjsonrpc, hid, hmethod, hparams⟩
    obtain ⟨j, hj, hjs⟩ := Option.bind_eq_some_iff.1 hjsonrpc
    obtain ⟨m, hm, hms⟩ := Option.bind_eq_some_iff.1 hmethod
    refine ⟨_, ⟨j, hj, rfl⟩, _, hjs, _, ⟨_, hid, rfl⟩, _, ⟨m, hm, rfl⟩, _, hms, ?_⟩
    rw [Value.ofJson_json, ← hparams]

/-- The members of a value that is a response. -/
structure JsonRpcResponse.Form (v : Value) (r : JsonRpcResponse) : Prop where
  jsonrpc : v.getStr "jsonrpc" = some r.jsonrpc
  id : v.get "id" = some r.id
  result : v.get "result" = some r.result

theorem JsonRpcResponse.decode_eq_some_iff {v : Value} (hv : v.isObject = true)
    {r : JsonRpcResponse} : decode v.json = some r ↔ r.Form v := by
  simp only [decode, Value.structFields_json hv, Option.bind_eq_bind, Option.bind_some,
    Option.bind_eq_some_iff, Option.map_eq_some_iff, Option.pure_def, Option.some.injEq]
  constructor
  · rintro ⟨_, ⟨j, hj, rfl⟩, jsonrpc, hjs, _, ⟨id, hid, rfl⟩, _, ⟨result, hr, rfl⟩, rfl⟩
    exact ⟨Option.bind_eq_some_iff.2 ⟨j, hj, hjs⟩, by simp [hid],
      by simp [hr]⟩
  · rintro ⟨hjsonrpc, hid, hresult⟩
    obtain ⟨j, hj, hjs⟩ := Option.bind_eq_some_iff.1 hjsonrpc
    refine ⟨_, ⟨j, hj, rfl⟩, _, hjs, _, ⟨_, hid, rfl⟩, _, ⟨_, hresult, rfl⟩, ?_⟩
    rw [Value.ofJson_json, Value.ofJson_json]

/-- An error is an object with the members `code` and `message`, and perhaps `data`, or an
array that lists the three in this order. -/
inductive JsonRpcError.Form (v : Value) : JsonRpcError → Prop where
  | object {code : Int64} {message : String} (hcode : v.getI64 "code" = some code)
    (hmessage : v.getStr "message" = some message) :
    Form v ⟨code, message, dropNull (v.get "data")⟩
  | array {c m : Json} {rest : List Json} {code : Int64} {message : String}
    (helems : v.json = .arr (c :: m :: rest)) (hrest : rest.length ≤ 1)
    (hcode : c.asI64 = some code) (hmessage : m.asStr = some message) :
    Form v ⟨code, message, optionalField rest.head?⟩

theorem JsonRpcError.decode_of_isObject {v : Value} (hv : v.isObject = true)
    {e : JsonRpcError} :
    decode v.json = some e ↔ v.getI64 "code" = some e.code ∧
      v.getStr "message" = some e.message ∧ e.data = dropNull (v.get "data") := by
  simp only [decode, Value.structFields_json hv, Option.bind_eq_bind, Option.bind_some,
    Option.bind_eq_some_iff, Option.map_eq_some_iff, Option.pure_def, Option.some.injEq,
    optionalField_map_json]
  constructor
  · rintro ⟨_, ⟨c, hc, rfl⟩, code, hcs, _, ⟨m, hm, rfl⟩, message, hms, rfl⟩
    exact ⟨Option.bind_eq_some_iff.2 ⟨c, hc, hcs⟩, Option.bind_eq_some_iff.2 ⟨m, hm, hms⟩, rfl⟩
  · rintro ⟨hcode, hmessage, hdata⟩
    obtain ⟨c, hc, hcs⟩ := Option.bind_eq_some_iff.1 hcode
    obtain ⟨m, hm, hms⟩ := Option.bind_eq_some_iff.1 hmessage
    refine ⟨_, ⟨c, hc, rfl⟩, _, hcs, _, ⟨m, hm, rfl⟩, _, hms, ?_⟩
    rw [← hdata]

theorem JsonRpcError.decode_arr {elems : List Json} {e : JsonRpcError} :
    decode (.arr elems) = some e ↔ ∃ c m rest, elems = c :: m :: rest ∧ rest.length ≤ 1 ∧
      c.asI64 = some e.code ∧ m.asStr = some e.message ∧ e.data = optionalField rest.head? := by
  simp only [decode, structFields, Option.bind_eq_bind, Option.bind_eq_some_iff,
    Option.ite_none_right_eq_some, Option.some.injEq, Option.pure_def]
  constructor
  · rintro ⟨_, ⟨hlen, rfl⟩, c, hc, code, hcs, m, hm, message, hms, rfl⟩
    change elems[0]? = some c at hc
    change elems[1]? = some m at hm
    change elems.length ≤ 3 at hlen
    rcases elems with _ | ⟨c', _ | ⟨m', rest⟩⟩
    · cases hc
    · cases hm
    · cases hc
      cases hm
      rw [List.length_cons, List.length_cons] at hlen
      refine ⟨c, m, rest, rfl, by omega, hcs, hms, ?_⟩
      rw [List.head?_eq_getElem?]
      rfl
  · rintro ⟨c, m, rest, rfl, hlen, hcs, hms, hdata⟩
    rw [List.head?_eq_getElem?] at hdata
    obtain ⟨code, message, data⟩ := e
    subst hdata
    have helems : (c :: m :: rest).length ≤ 3 := by
      rw [List.length_cons, List.length_cons]
      omega
    exact ⟨_, ⟨helems, rfl⟩, c, rfl, _, hcs, m, rfl, _, hms, rfl⟩

theorem JsonRpcError.decode_eq_some_iff {v : Value} {e : JsonRpcError} :
    decode v.json = some e ↔ e.Form v := by
  constructor
  · intro h
    cases hj : v.json with
    | obj members =>
        have hv : v.isObject = true := by simp [Value.isObject, hj]
        obtain ⟨code, message, data⟩ := e
        obtain ⟨hcode, hmessage, rfl⟩ := (decode_of_isObject hv).1 h
        exact .object hcode hmessage
    | arr elems =>
        obtain ⟨code, message, data⟩ := e
        rw [hj, decode_arr] at h
        obtain ⟨c, m, rest, rfl, hrest, hcode, hmessage, rfl⟩ := h
        exact .array hj hrest hcode hmessage
    | _ => simp [hj, decode, structFields] at h
  · intro h
    cases h with
    | object hcode hmessage =>
        exact (decode_of_isObject (Value.isObject_of_getStr hmessage)).2 ⟨hcode, hmessage, rfl⟩
    | array helems hrest hcode hmessage =>
        rw [helems, decode_arr]
        exact ⟨_, _, _, rfl, hrest, hcode, hmessage, rfl⟩

/-- The members of a value that is an error response. -/
structure JsonRpcErrorResponse.Form (v : Value) (r : JsonRpcErrorResponse) : Prop where
  jsonrpc : v.getStr "jsonrpc" = some r.jsonrpc
  id : v.get "id" = some r.id
  error : ∃ error, v.get "error" = some error ∧ r.error.Form error

theorem JsonRpcErrorResponse.decode_eq_some_iff {v : Value} (hv : v.isObject = true)
    {r : JsonRpcErrorResponse} : decode v.json = some r ↔ r.Form v := by
  simp only [decode, Value.structFields_json hv, Option.bind_eq_bind, Option.bind_some,
    Option.bind_eq_some_iff, Option.map_eq_some_iff, Option.pure_def, Option.some.injEq]
  constructor
  · rintro ⟨_, ⟨j, hj, rfl⟩, jsonrpc, hjs, _, ⟨id, hid, rfl⟩, _, ⟨error, he, rfl⟩, e, hes, rfl⟩
    exact ⟨Option.bind_eq_some_iff.2 ⟨j, hj, hjs⟩, by simp [hid],
      error, he, JsonRpcError.decode_eq_some_iff.1 hes⟩
  · rintro ⟨hjsonrpc, hid, error, he, hform⟩
    obtain ⟨j, hj, hjs⟩ := Option.bind_eq_some_iff.1 hjsonrpc
    refine ⟨_, ⟨j, hj, rfl⟩, _, hjs, _, ⟨_, hid, rfl⟩, _, ⟨_, he, rfl⟩, _,
      JsonRpcError.decode_eq_some_iff.2 hform, ?_⟩
    rw [Value.ofJson_json]

/-- The members of a value that is a notification. -/
structure JsonRpcNotification.Form (v : Value) (n : JsonRpcNotification) : Prop where
  jsonrpc : v.getStr "jsonrpc" = some n.jsonrpc
  method : v.getStr "method" = some n.method
  params : n.params = dropNull (v.get "params")

theorem JsonRpcNotification.decode_eq_some_iff {v : Value} (hv : v.isObject = true)
    {n : JsonRpcNotification} : decode v.json = some n ↔ n.Form v := by
  simp only [decode, Value.structFields_json hv, Option.bind_eq_bind, Option.bind_some,
    Option.bind_eq_some_iff, Option.map_eq_some_iff, Option.pure_def, Option.some.injEq,
    optionalField_map_json]
  constructor
  · rintro ⟨_, ⟨j, hj, rfl⟩, jsonrpc, hjs, _, ⟨m, hm, rfl⟩, method, hms, rfl⟩
    exact ⟨Option.bind_eq_some_iff.2 ⟨j, hj, hjs⟩, Option.bind_eq_some_iff.2 ⟨m, hm, hms⟩, rfl⟩
  · rintro ⟨hjsonrpc, hmethod, hparams⟩
    obtain ⟨j, hj, hjs⟩ := Option.bind_eq_some_iff.1 hjsonrpc
    obtain ⟨m, hm, hms⟩ := Option.bind_eq_some_iff.1 hmethod
    refine ⟨_, ⟨j, hj, rfl⟩, _, hjs, _, ⟨m, hm, rfl⟩, _, hms, ?_⟩
    rw [← hparams]

/-! ## The enum -/

/-- What a value is read as, by the names it has and the types of their members. -/
inductive Grammar (v : Value) : JsonRpcMessage → Prop where
  | request {r : JsonRpcRequest} (version : r.jsonrpc = "2.0") (form : r.Form v) :
    Grammar v (.request r)
  | response {r : JsonRpcResponse} (version : r.jsonrpc = "2.0")
    (noMethod : v.getStr "method" = none) (form : r.Form v) : Grammar v (.response r)
  | errorResponse {r : JsonRpcErrorResponse} (version : r.jsonrpc = "2.0")
    (noMethod : v.getStr "method" = none) (noResult : v.get "result" = none) (form : r.Form v) :
    Grammar v (.errorResponse r)
  | notification {n : JsonRpcNotification} (version : n.jsonrpc = "2.0")
    (noId : v.get "id" = none) (form : n.Form v) : Grammar v (.notification n)

theorem validateMessage_eq_some {v : Value} {m : JsonRpcMessage} :
    validateMessage v = some m ↔
      v.getStr "jsonrpc" = some "2.0" ∧ JsonRpcMessage.decode v.json = some m := by
  simp only [validateMessage, Option.bind_eq_bind, Option.bind_eq_some_iff, ite_not,
    Option.ite_none_right_eq_some, Value.getStr]
  constructor
  · rintro ⟨w, hw, _, hs, rfl, hm⟩
    exact ⟨⟨w, hw, hs⟩, hm⟩
  · rintro ⟨⟨w, hw, hs⟩, hm⟩
    exact ⟨w, hw, _, hs, rfl, hm⟩

/-- No variant is tried in vain: a value that the earlier variants refuse lacks a name of
theirs. -/
theorem JsonRpcRequest.decode_eq_none {v : Value} {jsonrpc : String}
    (hversion : v.getStr "jsonrpc" = some jsonrpc) :
    decode v.json = none ↔ v.get "id" = none ∨ v.getStr "method" = none := by
  have hv := Value.isObject_of_getStr hversion
  rw [Option.eq_none_iff_forall_not_mem]
  constructor
  · intro h
    by_contra hne
    simp only [not_or, ← ne_eq, Option.ne_none_iff_exists'] at hne
    obtain ⟨⟨id, hid⟩, method, hmethod⟩ := hne
    exact h ⟨jsonrpc, id, method, _⟩ ((decode_eq_some_iff hv).2 ⟨hversion, hid, hmethod, rfl⟩)
  · intro h r hr
    obtain ⟨-, hid, hmethod, -⟩ := (decode_eq_some_iff hv).1 hr
    rcases h with h | h
    · rw [h] at hid
      cases hid
    · rw [h] at hmethod
      cases hmethod

theorem JsonRpcResponse.decode_eq_none {v : Value} {jsonrpc : String}
    (hversion : v.getStr "jsonrpc" = some jsonrpc) :
    decode v.json = none ↔ v.get "id" = none ∨ v.get "result" = none := by
  have hv := Value.isObject_of_getStr hversion
  rw [Option.eq_none_iff_forall_not_mem]
  constructor
  · intro h
    by_contra hne
    simp only [not_or, ← ne_eq, Option.ne_none_iff_exists'] at hne
    obtain ⟨⟨id, hid⟩, result, hresult⟩ := hne
    exact h ⟨jsonrpc, id, result⟩ ((decode_eq_some_iff hv).2 ⟨hversion, hid, hresult⟩)
  · intro h r hr
    obtain ⟨-, hid, hresult⟩ := (decode_eq_some_iff hv).1 hr
    rcases h with h | h
    · rw [h] at hid
      cases hid
    · rw [h] at hresult
      cases hresult

theorem validateMessage_eq_some_iff {v : Value} {m : JsonRpcMessage} :
    validateMessage v = some m ↔ Grammar v m := by
  rw [validateMessage_eq_some]
  simp only [JsonRpcMessage.decode, Option.orElse_eq_orElse, Option.orElse_eq_or,
    Option.or_eq_some_iff, Option.map_eq_some_iff, Option.map_eq_none_iff]
  constructor
  · rintro ⟨hversion, h⟩
    have hv := Value.isObject_of_getStr hversion
    have hsame : ∀ {jsonrpc : String}, v.getStr "jsonrpc" = some jsonrpc → jsonrpc = "2.0" :=
      fun hj ↦ Option.some.inj (hj.symm.trans hversion)
    rw [JsonRpcRequest.decode_eq_none hversion, JsonRpcResponse.decode_eq_none hversion] at h
    rcases h with ⟨r, hr, rfl⟩ | ⟨hreq, ⟨r, hr, rfl⟩ | ⟨hres, ⟨r, hr, rfl⟩ | ⟨herr, n, hn, rfl⟩⟩⟩
    · have hform := (JsonRpcRequest.decode_eq_some_iff hv).1 hr
      exact .request (hsame hform.jsonrpc) hform
    · have hform := (JsonRpcResponse.decode_eq_some_iff hv).1 hr
      exact .response (hsame hform.jsonrpc) (hreq.resolve_left (by simp [hform.id])) hform
    · have hform := (JsonRpcErrorResponse.decode_eq_some_iff hv).1 hr
      exact .errorResponse (hsame hform.jsonrpc) (hreq.resolve_left (by simp [hform.id]))
        (hres.resolve_left (by simp [hform.id])) hform
    · have hform := (JsonRpcNotification.decode_eq_some_iff hv).1 hn
      exact .notification (hsame hform.jsonrpc) (hreq.resolve_right (by simp [hform.method])) hform
  · intro h
    cases h with
    | request version form =>
        have hversion := version ▸ form.jsonrpc
        have hv := Value.isObject_of_getStr hversion
        exact ⟨hversion, .inl ⟨_, (JsonRpcRequest.decode_eq_some_iff hv).2 form, rfl⟩⟩
    | response version noMethod form =>
        have hversion := version ▸ form.jsonrpc
        have hv := Value.isObject_of_getStr hversion
        exact ⟨hversion, .inr ⟨(JsonRpcRequest.decode_eq_none hversion).2 (.inr noMethod),
          .inl ⟨_, (JsonRpcResponse.decode_eq_some_iff hv).2 form, rfl⟩⟩⟩
    | errorResponse version noMethod noResult form =>
        have hversion := version ▸ form.jsonrpc
        have hv := Value.isObject_of_getStr hversion
        exact ⟨hversion, .inr ⟨(JsonRpcRequest.decode_eq_none hversion).2 (.inr noMethod),
          .inr ⟨(JsonRpcResponse.decode_eq_none hversion).2 (.inr noResult),
            .inl ⟨_, (JsonRpcErrorResponse.decode_eq_some_iff hv).2 form, rfl⟩⟩⟩⟩
    | notification version noId form =>
        have hversion := version ▸ form.jsonrpc
        have hv := Value.isObject_of_getStr hversion
        have herror : JsonRpcErrorResponse.decode v.json = none := by
          rw [Option.eq_none_iff_forall_not_mem]
          intro r hr
          have hid := ((JsonRpcErrorResponse.decode_eq_some_iff hv).1 hr).id
          rw [noId] at hid
          cases hid
        exact ⟨hversion, .inr ⟨(JsonRpcRequest.decode_eq_none hversion).2 (.inl noId),
          .inr ⟨(JsonRpcResponse.decode_eq_none hversion).2 (.inl noId),
            .inr ⟨herror, _, (JsonRpcNotification.decode_eq_some_iff hv).2 form, rfl⟩⟩⟩⟩

/-! ## The shapes of a value -/

namespace Value

/-- The value is an object with `jsonrpc` = "2.0". -/
def Declares (v : Value) : Prop := v.getStr "jsonrpc" = some "2.0"

/-- There is an `id`, which may be `null`, and `method` is a string. -/
def RequestShape (v : Value) : Prop := (v.get "id").isSome ∧ (v.getStr "method").isSome

def ResponseShape (v : Value) : Prop := (v.get "id").isSome ∧ (v.get "result").isSome

/-- There is an `id`, and `error` reads as an error. -/
def ErrorShape (v : Value) : Prop :=
  (v.get "id").isSome ∧ ∃ error e, v.get "error" = some error ∧ JsonRpcError.Form error e

def NotificationShape (v : Value) : Prop := v.get "id" = none ∧ (v.getStr "method").isSome

end Value

/-- Every field of the message is the member of its name. -/
def JsonRpcMessage.Form (v : Value) : JsonRpcMessage → Prop
  | .request r => r.Form v
  | .response r => r.Form v
  | .errorResponse r => r.Form v
  | .notification n => n.Form v

namespace Grammar

variable {v : Value} {m : JsonRpcMessage}

theorem declares (h : Grammar v m) : v.Declares := by
  cases h with
  | request version form => exact form.jsonrpc.trans (congrArg some version)
  | response version _ form => exact form.jsonrpc.trans (congrArg some version)
  | errorResponse version _ _ form => exact form.jsonrpc.trans (congrArg some version)
  | notification version _ form => exact form.jsonrpc.trans (congrArg some version)

theorem form (h : Grammar v m) : m.Form v := by
  cases h with
  | request _ form => exact form
  | response _ _ form => exact form
  | errorResponse _ _ _ form => exact form
  | notification _ _ form => exact form

/-! Each variant is read from the values of its shape which have no earlier shape. -/

theorem exists_request (hv : v.Declares) : (∃ r, Grammar v (.request r)) ↔ v.RequestShape := by
  constructor
  · rintro ⟨r, h⟩
    cases h with
    | request version form => exact ⟨by simp [form.id], by simp [form.method]⟩
  · rintro ⟨hid, hmethod⟩
    obtain ⟨id, hid⟩ := Option.isSome_iff_exists.1 hid
    obtain ⟨method, hmethod⟩ := Option.isSome_iff_exists.1 hmethod
    exact ⟨⟨"2.0", id, method, _⟩, .request rfl ⟨hv, hid, hmethod, rfl⟩⟩

theorem exists_response (hv : v.Declares) :
    (∃ r, Grammar v (.response r)) ↔ ¬ v.RequestShape ∧ v.ResponseShape := by
  constructor
  · rintro ⟨r, h⟩
    cases h with
    | response version noMethod form =>
        exact ⟨fun hreq ↦ by simpa [noMethod] using hreq.2, by simp [form.id],
          by simp [form.result]⟩
  · rintro ⟨hreq, hid, hresult⟩
    have hmethod := Option.not_isSome_iff_eq_none.1 fun h ↦ hreq ⟨hid, h⟩
    obtain ⟨id, hid⟩ := Option.isSome_iff_exists.1 hid
    obtain ⟨result, hresult⟩ := Option.isSome_iff_exists.1 hresult
    exact ⟨⟨"2.0", id, result⟩, .response rfl hmethod ⟨hv, hid, hresult⟩⟩

theorem exists_errorResponse (hv : v.Declares) :
    (∃ r, Grammar v (.errorResponse r)) ↔
      ¬ v.RequestShape ∧ ¬ v.ResponseShape ∧ v.ErrorShape := by
  constructor
  · rintro ⟨r, h⟩
    cases h with
    | errorResponse version noMethod noResult form =>
        obtain ⟨error, herror, hform⟩ := form.error
        exact ⟨fun hreq ↦ by simpa [noMethod] using hreq.2,
          fun hres ↦ by simpa [noResult] using hres.2, by simp [form.id], error, _, herror, hform⟩
  · rintro ⟨hreq, hres, hid, error, e, herror, hform⟩
    have hmethod := Option.not_isSome_iff_eq_none.1 fun h ↦ hreq ⟨hid, h⟩
    have hresult := Option.not_isSome_iff_eq_none.1 fun h ↦ hres ⟨hid, h⟩
    obtain ⟨id, hid⟩ := Option.isSome_iff_exists.1 hid
    exact ⟨⟨"2.0", id, e⟩, .errorResponse rfl hmethod hresult ⟨hv, hid, error, herror, hform⟩⟩

theorem exists_notification (hv : v.Declares) :
    (∃ n, Grammar v (.notification n)) ↔ v.NotificationShape := by
  constructor
  · rintro ⟨n, h⟩
    cases h with
    | notification version noId form => exact ⟨noId, by simp [form.method]⟩
  · rintro ⟨hid, hmethod⟩
    obtain ⟨method, hmethod⟩ := Option.isSome_iff_exists.1 hmethod
    exact ⟨⟨"2.0", method, _⟩, .notification rfl hid ⟨hv, hmethod, rfl⟩⟩

end Grammar

/-- Validation accepts exactly the values of the four shapes, takes the first shape that a
value has, and copies the members into the fields. -/
theorem validateMessage_grammar (v : Value) :
    (¬ v.Declares → validateMessage v = none) ∧
    (v.Declares →
      ((∃ r, validateMessage v = some (.request r)) ↔ v.RequestShape) ∧
      ((∃ r, validateMessage v = some (.response r)) ↔ ¬ v.RequestShape ∧ v.ResponseShape) ∧
      ((∃ r, validateMessage v = some (.errorResponse r)) ↔
        ¬ v.RequestShape ∧ ¬ v.ResponseShape ∧ v.ErrorShape) ∧
      ((∃ n, validateMessage v = some (.notification n)) ↔ v.NotificationShape) ∧
      (validateMessage v = none ↔
        ¬ (v.RequestShape ∨ v.ResponseShape ∨ v.ErrorShape ∨ v.NotificationShape))) ∧
    ∀ m, validateMessage v = some m → m.Form v := by
  refine ⟨fun hv ↦ ?_, fun hv ↦ ?_, fun m hm ↦ (validateMessage_eq_some_iff.1 hm).form⟩
  · rw [Option.eq_none_iff_forall_not_mem]
    exact fun m hm ↦ hv (validateMessage_eq_some_iff.1 hm).declares
  · have hreq := Grammar.exists_request hv
    have hres := Grammar.exists_response hv
    have herr := Grammar.exists_errorResponse hv
    have hnot := Grammar.exists_notification hv
    simp only [← validateMessage_eq_some_iff] at hreq hres herr hnot
    refine ⟨hreq, hres, herr, hnot, ?_⟩
    rw [Option.eq_none_iff_forall_not_mem]
    constructor
    · intro hnone hshape
      by_cases h₁ : v.RequestShape
      · exact (hreq.2 h₁).elim fun _ h ↦ hnone _ h
      by_cases h₂ : v.ResponseShape
      · exact (hres.2 ⟨h₁, h₂⟩).elim fun _ h ↦ hnone _ h
      by_cases h₃ : v.ErrorShape
      · exact (herr.2 ⟨h₁, h₂, h₃⟩).elim fun _ h ↦ hnone _ h
      exact (hnot.2 (((hshape.resolve_left h₁).resolve_left h₂).resolve_left h₃)).elim
        fun _ h ↦ hnone _ h
    · intro hshape m hm
      apply hshape
      cases m with
      | request r => exact .inl (hreq.1 ⟨r, hm⟩)
      | response r => exact .inr (.inl (hres.1 ⟨r, hm⟩).2)
      | errorResponse r => exact .inr (.inr (.inl (herr.1 ⟨r, hm⟩).2.2))
      | notification n => exact .inr (.inr (.inr (hnot.1 ⟨n, hm⟩)))

end ContextVM
