import ContextVM.Core.Codec
import ContextVM.Core.Constants
import ContextVM.Nostr.Sdk

/-!
# Message validation

`core/validation.rs`: the size of a content, and the shape of a `serde_json::Value`.

A `Value` is a tree in normal form, so validation decodes the normal form of what the parser
read.  `JsonRpcMessage.isSome_decode_normalize` says that whatever is read as a message from
the tree itself is also read as one from its normal form.  It need not be the same message:
a member that occurs twice is refused in the tree if it is a field of the variant, and in
the normal form it occurs once.
-/

namespace ContextVM

variable {S : Sdk}

def validateMessageSize (S : Sdk) (content : S.Text) : Bool :=
  decide (S.len content ≤ maxMessageSize)

/-- A message is a value that says `jsonrpc: "2.0"` and can be decoded. -/
def validateMessage (value : Value) : Option JsonRpcMessage := do
  let jsonrpc ← (← value.get "jsonrpc").asStr
  if jsonrpc ≠ "2.0" then none else JsonRpcMessage.decode value.json

/-! ## Members of a normal form -/

namespace Json

theorem occurrences_cons (key k : String) (v : Json) (ms : Members) :
    occurrences key ((k, v) :: ms) = (if k = key then 1 else 0) + occurrences key ms := by
  unfold occurrences
  by_cases h : k = key
  · simp [h, Nat.add_comm]
  · simp [h]

theorem occurrences_eq_zero {key : String} {ms : Members} :
    occurrences key ms = 0 ↔ find? key ms = none := by
  induction ms with
  | nil => exact iff_of_true rfl rfl
  | cons m ms ih =>
      obtain ⟨k, v⟩ := m
      rw [occurrences_cons, find?]
      by_cases h : k = key
      · simp [h]
      · simp [h, ih]

/-- The names below which a list of members lies are not among its own. -/
theorem find?_of_nameBelow {key : String} {ms : Members} (hms : membersNormal ms = true)
    (h : nameBelow key ms = true) : find? key ms = none := by
  induction ms with
  | nil => rfl
  | cons m ms ih =>
      obtain ⟨k, v⟩ := m
      have hlt : key < k := of_decide_eq_true h
      simp only [membersNormal, Bool.and_eq_true] at hms
      obtain ⟨-, hbelow, htail⟩ := hms
      rw [find?, if_neg (ne_of_gt hlt)]
      apply ih htail
      cases ms with
      | nil => rfl
      | cons m' ms => exact decide_eq_true (lt_trans hlt (of_decide_eq_true hbelow))

theorem occurrences_le_one_of_membersNormal {ms : Members} (hms : membersNormal ms = true)
    (key : String) : occurrences key ms ≤ 1 := by
  induction ms with
  | nil => exact Nat.zero_le 1
  | cons m ms ih =>
      obtain ⟨k, v⟩ := m
      simp only [membersNormal, Bool.and_eq_true] at hms
      obtain ⟨-, hbelow, htail⟩ := hms
      rw [occurrences_cons]
      by_cases h : k = key
      · rw [if_pos h, occurrences_eq_zero.2 (h ▸ find?_of_nameBelow htail hbelow)]
      · rw [if_neg h, Nat.zero_add]
        exact ih htail

theorem find?_insertMember (key k : String) (v : Json) {ms : Members}
    (hms : membersNormal ms = true) :
    find? key (insertMember k v ms) =
      if k = key then some ((find? key ms).getD v) else find? key ms := by
  induction ms with
  | nil => simp [insertMember, find?]
  | cons m ms ih =>
      obtain ⟨k', v'⟩ := m
      rw [insertMember]
      split
      · next hlt =>
          have hnone : find? k ((k', v') :: ms) = none :=
            find?_of_nameBelow hms (decide_eq_true hlt)
          rw [find?]
          split
          · next h => rw [← h, hnone, Option.getD_none]
          · rfl
      · split
        · next heq =>
            subst heq
            rw [find?]
            split <;> simp
        · next hne =>
            simp only [membersNormal, Bool.and_eq_true] at hms
            rw [find?, find?, ih hms.2.2]
            by_cases h' : k' = key
            · have hk : k ≠ key := fun h ↦ hne (h.trans h'.symm)
              rw [if_pos h', if_pos h', if_neg hk]
            · rw [if_neg h', if_neg h']

/-- A name that occurs once in the text has its value in the map. -/
theorem find?_normalizeMembers {key : String} {ms : Members} (h : occurrences key ms ≤ 1) :
    find? key (normalizeMembers ms) = (find? key ms).map Json.normalize := by
  induction ms with
  | nil => rfl
  | cons m ms ih =>
      obtain ⟨k, v⟩ := m
      rw [occurrences_cons] at h
      rw [normalizeMembers, find?_insertMember key k _ (membersNormal_normalizeMembers ms),
        ih (by omega), find?]
      by_cases hk : k = key
      · rw [if_pos hk] at h
        have hnone : find? key ms = none := occurrences_eq_zero.1 (by omega)
        rw [if_pos hk, if_pos hk, hnone]
        rfl
      · rw [if_neg hk, if_neg hk]

theorem normalizeElems_eq_map (js : List Json) : normalizeElems js = js.map Json.normalize := by
  induction js with
  | nil => rfl
  | cons j js ih => rw [normalizeElems, ih, List.map_cons]

@[simp] theorem asStr_normalize (j : Json) : j.normalize.asStr = j.asStr := by
  cases j <;> rfl

@[simp] theorem asI64_normalize (j : Json) : j.normalize.asI64 = j.asI64 := by
  cases j <;> rfl

end Json

/-! ## Decoding a normal form -/

open Json in
/-- The fields of a struct are found in the normal form of a tree as in the tree. -/
theorem structFields_normalize {names : List String} {j : Json}
    {field : String → Option Json} (h : structFields names j = some field) :
    ∃ field', structFields names j.normalize = some field' ∧
      ∀ n ∈ names, field' n = (field n).map Json.normalize := by
  cases j with
  | obj members =>
      simp only [structFields, Option.ite_none_right_eq_some, Option.some.injEq,
        List.all_eq_true, decide_eq_true_eq] at h
      obtain ⟨honce, rfl⟩ := h
      refine ⟨fun n ↦ find? n (normalizeMembers members), ?_, ?_⟩
      · simp only [Json.normalize, structFields, Option.ite_none_right_eq_some, List.all_eq_true,
          decide_eq_true_eq, and_true]
        intro n _
        exact occurrences_le_one_of_membersNormal (membersNormal_normalizeMembers members) n
      · intro n hn
        exact find?_normalizeMembers (honce n hn)
  | arr elems =>
      simp only [structFields, Option.ite_none_right_eq_some, Option.some.injEq] at h
      obtain ⟨hlen, rfl⟩ := h
      refine ⟨fun n ↦ (normalizeElems elems)[names.idxOf n]?, ?_, ?_⟩
      · simp only [Json.normalize, structFields, Option.ite_none_right_eq_some, and_true]
        simpa [normalizeElems_eq_map] using hlen
      · intro n _
        simp [normalizeElems_eq_map]
  | _ => cases h

theorem Value.ofJson_normalize (j : Json) : Value.ofJson j.normalize = Value.ofJson j :=
  Value.ext (Json.normalize_of_isNormal j.isNormal_normalize)

theorem optionalField_normalize (j : Option Json) :
    optionalField (j.map Json.normalize) = optionalField j := by
  cases j with
  | none => rfl
  | some j => cases j <;> first | rfl | exact congrArg some (Value.ofJson_normalize _)

theorem bind_map_normalize {β : Type} (j : Option Json) (f : Json → Option β) :
    (j.map Json.normalize).bind f = j.bind fun j ↦ f j.normalize := by
  cases j <;> rfl

/-! A struct whose fields are found reads the same of a tree and of its normal form. -/

theorem JsonRpcRequest.decode_normalize {j : Json}
    (h : (structFields ["jsonrpc", "id", "method", "params"] j).isSome) :
    decode j.normalize = decode j := by
  obtain ⟨field, hfield⟩ := Option.isSome_iff_exists.1 h
  obtain ⟨field', hfield', heq⟩ := structFields_normalize hfield
  simp [decode, hfield, hfield', heq, bind_map_normalize, Value.ofJson_normalize,
    optionalField_normalize]

theorem JsonRpcResponse.decode_normalize {j : Json}
    (h : (structFields ["jsonrpc", "id", "result"] j).isSome) :
    decode j.normalize = decode j := by
  obtain ⟨field, hfield⟩ := Option.isSome_iff_exists.1 h
  obtain ⟨field', hfield', heq⟩ := structFields_normalize hfield
  simp [decode, hfield, hfield', heq, bind_map_normalize, Value.ofJson_normalize]

theorem JsonRpcError.decode_normalize {j : Json}
    (h : (structFields ["code", "message", "data"] j).isSome) :
    decode j.normalize = decode j := by
  obtain ⟨field, hfield⟩ := Option.isSome_iff_exists.1 h
  obtain ⟨field', hfield', heq⟩ := structFields_normalize hfield
  simp [decode, hfield, hfield', heq, bind_map_normalize, optionalField_normalize]

theorem JsonRpcNotification.decode_normalize {j : Json}
    (h : (structFields ["jsonrpc", "method", "params"] j).isSome) :
    decode j.normalize = decode j := by
  obtain ⟨field, hfield⟩ := Option.isSome_iff_exists.1 h
  obtain ⟨field', hfield', heq⟩ := structFields_normalize hfield
  simp [decode, hfield, hfield', heq, bind_map_normalize, optionalField_normalize]

/-! What a variant reads of a tree, it reads of the normal form. -/

theorem JsonRpcRequest.fields_of_decode {j : Json} {r : JsonRpcRequest}
    (h : decode j = some r) :
    (structFields ["jsonrpc", "id", "method", "params"] j).isSome := by
  simp only [decode, Option.bind_eq_bind, Option.bind_eq_some_iff] at h
  exact Option.isSome_iff_exists.2 (h.imp fun _ hf ↦ hf.1)

theorem JsonRpcResponse.fields_of_decode {j : Json} {r : JsonRpcResponse}
    (h : decode j = some r) : (structFields ["jsonrpc", "id", "result"] j).isSome := by
  simp only [decode, Option.bind_eq_bind, Option.bind_eq_some_iff] at h
  exact Option.isSome_iff_exists.2 (h.imp fun _ hf ↦ hf.1)

theorem JsonRpcError.fields_of_decode {j : Json} {e : JsonRpcError}
    (h : decode j = some e) : (structFields ["code", "message", "data"] j).isSome := by
  simp only [decode, Option.bind_eq_bind, Option.bind_eq_some_iff] at h
  exact Option.isSome_iff_exists.2 (h.imp fun _ hf ↦ hf.1)

theorem JsonRpcErrorResponse.fields_of_decode {j : Json} {r : JsonRpcErrorResponse}
    (h : decode j = some r) : (structFields ["jsonrpc", "id", "error"] j).isSome := by
  simp only [decode, Option.bind_eq_bind, Option.bind_eq_some_iff] at h
  exact Option.isSome_iff_exists.2 (h.imp fun _ hf ↦ hf.1)

theorem JsonRpcNotification.fields_of_decode {j : Json} {n : JsonRpcNotification}
    (h : decode j = some n) : (structFields ["jsonrpc", "method", "params"] j).isSome := by
  simp only [decode, Option.bind_eq_bind, Option.bind_eq_some_iff] at h
  exact Option.isSome_iff_exists.2 (h.imp fun _ hf ↦ hf.1)

/-- The object inside an error response is decoded from the tree too: it may repeat a name
that its normal form does not. -/
theorem JsonRpcErrorResponse.decode_normalize_of_decode {j : Json} {r : JsonRpcErrorResponse}
    (h : decode j = some r) : decode j.normalize = some r := by
  simp only [decode, Option.bind_eq_bind, Option.bind_eq_some_iff, Option.pure_def,
    Option.some.injEq] at h
  obtain ⟨field, hfield, jv, hj, _, hjs, id, hid, ev, he, e, herr, rfl⟩ := h
  obtain ⟨field', hfield', heq⟩ := structFields_normalize hfield
  have herr' : JsonRpcError.decode ev.normalize = some e :=
    (JsonRpcError.decode_normalize (JsonRpcError.fields_of_decode herr)).trans herr
  simp [decode, hfield', heq, hj, hjs, hid, he, herr', Value.ofJson_normalize]

namespace JsonRpcMessage

/-- The untagged enum reads a tree as soon as one of its variants does. -/
theorem isSome_decode {j : Json} :
    (decode j).isSome ↔ (JsonRpcRequest.decode j).isSome ∨ (JsonRpcResponse.decode j).isSome ∨
      (JsonRpcErrorResponse.decode j).isSome ∨ (JsonRpcNotification.decode j).isSome := by
  simp [decode]

/-- What is read as a message from a tree is read as a message from its normal form, though
perhaps as another variant. -/
theorem isSome_decode_normalize {j : Json} {m : JsonRpcMessage} (h : decode j = some m) :
    (decode j.normalize).isSome := by
  simp only [decode, Option.orElse_eq_orElse, Option.orElse_eq_or, Option.or_eq_some_iff,
    Option.map_eq_some_iff] at h
  rw [isSome_decode]
  rcases h with ⟨r, hr, -⟩ | ⟨-, ⟨r, hr, -⟩ | ⟨-, ⟨r, hr, -⟩ | ⟨-, n, hn, -⟩⟩⟩
  · rw [JsonRpcRequest.decode_normalize (JsonRpcRequest.fields_of_decode hr), hr]
    exact .inl rfl
  · rw [JsonRpcResponse.decode_normalize (JsonRpcResponse.fields_of_decode hr), hr]
    exact .inr (.inl rfl)
  · rw [JsonRpcErrorResponse.decode_normalize_of_decode hr]
    exact .inr (.inr (.inl rfl))
  · rw [JsonRpcNotification.decode_normalize (JsonRpcNotification.fields_of_decode hn), hn]
    exact .inr (.inr (.inr rfl))

end JsonRpcMessage

/-! ## What validation adds to decoding -/

/-- The version that an object declares. -/
def Json.version (j : Json) : Option String := (j.get? "jsonrpc").bind Json.asStr

theorem Value.map_json_get (v : Value) (key : String) :
    (v.get key).map Value.json = v.json.get? key := by
  unfold Value.get
  split
  · next j hj => exact hj.symm
  · next hnone => exact hnone.symm

theorem isSome_validateMessage {value : Value} :
    (validateMessage value).isSome ↔
      value.json.version = some "2.0" ∧ (JsonRpcMessage.decode value.json).isSome := by
  rw [Json.version, ← Value.map_json_get]
  unfold validateMessage
  cases value.get "jsonrpc" with
  | none => simp
  | some v =>
      cases hv : v.asStr with
      | none => simp [hv, show v.json.asStr = none from hv]
      | some jsonrpc =>
          by_cases h : jsonrpc = "2.0" <;> simp [hv, show v.json.asStr = some _ from hv, h]

/-- A tree that is read as a message names its version once, or by its position. -/
theorem JsonRpcMessage.structFields_of_decode {j : Json} {m : JsonRpcMessage}
    (h : decode j = some m) : ∃ names, "jsonrpc" ∈ names ∧ (structFields names j).isSome := by
  simp only [decode, Option.orElse_eq_orElse, Option.orElse_eq_or, Option.or_eq_some_iff,
    Option.map_eq_some_iff] at h
  rcases h with ⟨r, hr, -⟩ | ⟨-, ⟨r, hr, -⟩ | ⟨-, ⟨r, hr, -⟩ | ⟨-, n, hn, -⟩⟩⟩
  · exact ⟨_, by simp, JsonRpcRequest.fields_of_decode hr⟩
  · exact ⟨_, by simp, JsonRpcResponse.fields_of_decode hr⟩
  · exact ⟨_, by simp, JsonRpcErrorResponse.fields_of_decode hr⟩
  · exact ⟨_, by simp, JsonRpcNotification.fields_of_decode hn⟩

theorem occurrences_of_structFields {names : List String} {members : Json.Members}
    (h : (structFields names (.obj members)).isSome) :
    ∀ n ∈ names, occurrences n members ≤ 1 := by
  simpa [structFields] using h

theorem JsonRpcMessage.version_normalize {j : Json} {m : JsonRpcMessage}
    (h : decode j = some m) : j.normalize.version = j.version := by
  obtain ⟨names, hmem, hfields⟩ := structFields_of_decode h
  cases j with
  | obj members =>
      show (Json.find? "jsonrpc" (Json.normalizeMembers members)).bind Json.asStr =
        (Json.find? "jsonrpc" members).bind Json.asStr
      rw [Json.find?_normalizeMembers (occurrences_of_structFields hfields _ hmem)]
      cases Json.find? "jsonrpc" members <;> simp
  | _ => rfl

/-- Of the trees that are read as messages, validation accepts the objects that declare
version 2.0. -/
theorem isSome_validateMessage_of_decode {j : Json} {m : JsonRpcMessage}
    (h : JsonRpcMessage.decode j = some m) :
    (validateMessage (.ofJson j)).isSome ↔ j.version = some "2.0" := by
  rw [isSome_validateMessage]
  show j.normalize.version = some "2.0" ∧ (JsonRpcMessage.decode j.normalize).isSome ↔ _
  rw [JsonRpcMessage.version_normalize h]
  exact and_iff_left (JsonRpcMessage.isSome_decode_normalize h)

end ContextVM
