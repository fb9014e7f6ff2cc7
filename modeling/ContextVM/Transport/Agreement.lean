import ContextVM.Core.Grammar
import ContextVM.Nostr.Symbolic
import ContextVM.Transport.Base

/-!
# Agreement of the two decoders

The event loops decode a content from its tree, where a struct refuses a field that occurs
twice.  `convertEventToMcp` decodes from the value, where the last of repeated members is
left.  A variant that the tree is refused by can so be the one that the value is read as, and
the tree goes on to a later variant: an object with two `id` members and a `method` is a
notification to the event loops and a request to the validating conversion.
-/

namespace ContextVM

variable {S : Sdk}

/-! ## Members of a tree and of its value -/

/-- How often the object has a member of that name. -/
def Json.count (key : String) : Json → Nat
  | .obj members => occurrences key members
  | _ => 0

open Json in
theorem Json.find?_normalizeMembers_eq_none {key : String} {ms : Members} :
    find? key (normalizeMembers ms) = none ↔ find? key ms = none := by
  induction ms with
  | nil => exact Iff.rfl
  | cons m ms ih =>
      obtain ⟨k, v⟩ := m
      rw [normalizeMembers, find?_insertMember key k _ (membersNormal_normalizeMembers ms), find?]
      by_cases hk : k = key
      · simp [hk]
      · rw [if_neg hk, if_neg hk, ih]

theorem Value.get_ofJson_eq_none {j : Json} {key : String} :
    (Value.ofJson j).get key = none ↔ j.count key = 0 := by
  rw [← Option.map_eq_none_iff (f := Value.json), Value.map_json_get]
  cases j with
  | obj members =>
      exact Json.find?_normalizeMembers_eq_none.trans Json.occurrences_eq_zero.symm
  | _ => exact iff_of_true rfl rfl

theorem structFields_isSome {j : Json} (hj : (Value.ofJson j).isObject = true)
    (names : List String) :
    (structFields names j).isSome ↔ ∀ n ∈ names, j.count n ≤ 1 := by
  cases j with
  | obj members => simp [structFields, Json.count]
  | _ => cases hj

/-! ## When the decoders agree -/

/-- No repeated member decides the variant: `id` occurs at most once; if the last `method` is
a string, `method` and `params` occur at most once; and if it is not, `result` does. -/
structure Unambiguous (j : Json) : Prop where
  id : j.count "id" ≤ 1
  request : ((Value.ofJson j).getStr "method").isSome →
    j.count "method" ≤ 1 ∧ j.count "params" ≤ 1
  response : (Value.ofJson j).getStr "method" = none → j.count "result" ≤ 1

/-- A tree with the fields of a later variant that is refused as a request is refused as one
in its value too. -/
theorem Unambiguous.not_request {j : Json} (h : Unambiguous j) (hv : (Value.ofJson j).Declares)
    (hversion : j.count "jsonrpc" ≤ 1) (hnone : JsonRpcRequest.decode j = none) :
    (Value.ofJson j).get "id" = none ∨ (Value.ofJson j).getStr "method" = none := by
  by_cases hmethod : ((Value.ofJson j).getStr "method").isSome
  · have hfields : (structFields ["jsonrpc", "id", "method", "params"] j).isSome := by
      rw [structFields_isSome (Value.isObject_of_getStr hv)]
      simp [hversion, h.id, h.request hmethod]
    exact (JsonRpcRequest.decode_eq_none hv).1
      ((JsonRpcRequest.decode_normalize hfields).trans hnone)
  · exact .inr (Option.not_isSome_iff_eq_none.1 hmethod)

/-- If no repeated member decides the variant, what the tree is read as is what the grammar
gives to the value. -/
theorem Unambiguous.grammar {j : Json} {m : JsonRpcMessage} (h : Unambiguous j)
    (hv : (Value.ofJson j).Declares) (hm : JsonRpcMessage.decode j = some m) :
    Grammar (Value.ofJson j) m := by
  have hobj := Value.isObject_of_getStr hv
  have hsame : ∀ {jsonrpc : String},
      (Value.ofJson j).getStr "jsonrpc" = some jsonrpc → jsonrpc = "2.0" :=
    fun hj ↦ Option.some.inj (hj.symm.trans hv)
  simp only [JsonRpcMessage.decode, Option.orElse_eq_orElse, Option.orElse_eq_or,
    Option.or_eq_some_iff, Option.map_eq_some_iff, Option.map_eq_none_iff] at hm
  rcases hm with ⟨r, hr, rfl⟩ | ⟨hreq, ⟨r, hr, rfl⟩ | ⟨hres, ⟨r, hr, rfl⟩ | ⟨herr, n, hn, rfl⟩⟩⟩
  · have hfields := JsonRpcRequest.fields_of_decode hr
    have hform := (JsonRpcRequest.decode_eq_some_iff hobj).1
      ((JsonRpcRequest.decode_normalize hfields).trans hr)
    exact .request (hsame hform.jsonrpc) hform
  · have hfields := JsonRpcResponse.fields_of_decode hr
    have hform := (JsonRpcResponse.decode_eq_some_iff hobj).1
      ((JsonRpcResponse.decode_normalize hfields).trans hr)
    have honce := (structFields_isSome hobj _).1 hfields
    have hmethod := (h.not_request hv (honce _ (by simp)) hreq).resolve_left (by simp [hform.id])
    exact .response (hsame hform.jsonrpc) hmethod hform
  · have hfields := JsonRpcErrorResponse.fields_of_decode hr
    have hform := (JsonRpcErrorResponse.decode_eq_some_iff hobj).1
      (JsonRpcErrorResponse.decode_normalize_of_decode hr)
    have honce := (structFields_isSome hobj _).1 hfields
    have hmethod := (h.not_request hv (honce _ (by simp)) hreq).resolve_left (by simp [hform.id])
    have hresFields : (structFields ["jsonrpc", "id", "result"] j).isSome := by
      rw [structFields_isSome hobj]
      simp [honce "jsonrpc" (by simp), h.id, h.response hmethod]
    have hresult := ((JsonRpcResponse.decode_eq_none hv).1
      ((JsonRpcResponse.decode_normalize hresFields).trans hres)).resolve_left (by simp [hform.id])
    exact .errorResponse (hsame hform.jsonrpc) hmethod hresult hform
  · have hfields := JsonRpcNotification.fields_of_decode hn
    have hform := (JsonRpcNotification.decode_eq_some_iff hobj).1
      ((JsonRpcNotification.decode_normalize hfields).trans hn)
    have honce := (structFields_isSome hobj _).1 hfields
    have hid := (h.not_request hv (honce _ (by simp)) hreq).resolve_right (by simp [hform.method])
    exact .notification (hsame hform.jsonrpc) hid hform

/-- If the tree and the value are read as the same message, and no object with an `id` as a
notification, then no repeated member decided the variant. -/
theorem Unambiguous.of_grammar {j : Json} {m : JsonRpcMessage}
    (hm : JsonRpcMessage.decode j = some m) (hgrammar : Grammar (Value.ofJson j) m)
    (hid : 0 < j.count "id" → ¬ m.isNotification) : Unambiguous j := by
  have hobj := Value.isObject_of_getStr hgrammar.declares
  simp only [JsonRpcMessage.decode, Option.orElse_eq_orElse, Option.orElse_eq_or,
    Option.or_eq_some_iff, Option.map_eq_some_iff, Option.map_eq_none_iff] at hm
  rcases hm with ⟨r, hr, rfl⟩ | ⟨-, ⟨r, hr, rfl⟩ | ⟨-, ⟨r, hr, rfl⟩ | ⟨-, n, hn, rfl⟩⟩⟩
  · have honce := (structFields_isSome hobj _).1 (JsonRpcRequest.fields_of_decode hr)
    cases hgrammar with
    | request version form =>
        exact ⟨honce _ (by simp), fun _ ↦ ⟨honce _ (by simp), honce _ (by simp)⟩,
          fun hnone ↦ by simp [form.method] at hnone⟩
  · have honce := (structFields_isSome hobj _).1 (JsonRpcResponse.fields_of_decode hr)
    cases hgrammar with
    | response version noMethod form =>
        exact ⟨honce _ (by simp), fun hsome ↦ by simp [noMethod] at hsome,
          fun _ ↦ honce _ (by simp)⟩
  · have honce := (structFields_isSome hobj _).1 (JsonRpcErrorResponse.fields_of_decode hr)
    cases hgrammar with
    | errorResponse version noMethod noResult form =>
        exact ⟨honce _ (by simp), fun hsome ↦ by simp [noMethod] at hsome,
          fun _ ↦ (Value.get_ofJson_eq_none.1 noResult).trans_le zero_le_one⟩
  · have honce := (structFields_isSome hobj _).1 (JsonRpcNotification.fields_of_decode hn)
    cases hgrammar with
    | notification version noId form =>
        exact ⟨(Value.get_ofJson_eq_none.1 noId).trans_le zero_le_one,
          fun _ ↦ ⟨honce _ (by simp), honce _ (by simp)⟩,
          fun hnone ↦ by simp [form.method] at hnone⟩

theorem convertEventToMcp_eq_some {content : S.Text} {j : Json} {m : JsonRpcMessage}
    (hj : S.parse content = some j) (h : convertEventToMcp S content = some m) :
    Grammar (Value.ofJson j) m := by
  unfold convertEventToMcp at h
  split at h
  · cases h
  · simp only [hj, Option.map_some, Option.bind_eq_bind, Option.bind_some] at h
    exact validateMessage_eq_some_iff.1 h

/-- On the contents that both decoders read, they read the same message, and none with an
`id` as a notification, exactly if no repeated member decides the variant. -/
theorem decoders_agree_iff {content : S.Text} {j : Json} {m m' : JsonRpcMessage}
    (hj : S.parse content = some j) (hm : nostrEventToMcpMessage S content = some m)
    (hm' : convertEventToMcp S content = some m') :
    (m = m' ∧ (0 < j.count "id" → ¬ m.isNotification ∧ ¬ m'.isNotification)) ↔
      Unambiguous j := by
  have hdecode : JsonRpcMessage.decode j = some m := by
    simpa [nostrEventToMcpMessage, hj] using hm
  have hgrammar := convertEventToMcp_eq_some hj hm'
  constructor
  · rintro ⟨rfl, hid⟩
    exact .of_grammar hdecode hgrammar fun h ↦ (hid h).1
  · intro h
    have hsame := h.grammar hgrammar.declares hdecode
    obtain rfl : m = m' := Option.some.inj ((validateMessage_eq_some_iff.2 hsame).symm.trans
      (validateMessage_eq_some_iff.2 hgrammar))
    refine ⟨rfl, fun hpos ↦ ?_⟩
    have hnot : ¬ m.isNotification := by
      cases hsame with
      | notification version noId form =>
          exact absurd (Value.get_ofJson_eq_none.1 noId) hpos.ne'
      | _ => simp [JsonRpcMessage.isNotification]
    exact ⟨hnot, hnot⟩

/-- `{"jsonrpc":"2.0","id":null,"method":"m"}`. -/
def singleId : Json := .obj [("jsonrpc", .str "2.0"), ("id", .null), ("method", .str "m")]

/-- The same object with the `id` twice. -/
def repeatedId : Json :=
  .obj [("jsonrpc", .str "2.0"), ("id", .null), ("id", .null), ("method", .str "m")]

theorem decoders_agree_iff_singleId : Unambiguous singleId := by
  have hj : Symbolic.sdk.parse (.json singleId) = some singleId := rfl
  have hm : nostrEventToMcpMessage Symbolic.sdk (.json singleId) =
    some (.request ⟨"2.0", .null, "m", none⟩) := rfl
  have hm' : convertEventToMcp Symbolic.sdk (.json singleId) =
    some (.request ⟨"2.0", .null, "m", none⟩) := rfl
  exact (decoders_agree_iff hj hm hm').1 ⟨rfl, fun _ ↦ ⟨Bool.false_ne_true, Bool.false_ne_true⟩⟩

/-- The two decoders read one content as a notification and as a request. -/
theorem repeatedId_decoded_twice :
    nostrEventToMcpMessage Symbolic.sdk (.json repeatedId) =
        some (.notification ⟨"2.0", "m", none⟩) ∧
      convertEventToMcp Symbolic.sdk (.json repeatedId) =
        some (.request ⟨"2.0", .null, "m", none⟩) ∧
      0 < repeatedId.count "id" :=
  ⟨rfl, rfl, by decide⟩

end ContextVM
