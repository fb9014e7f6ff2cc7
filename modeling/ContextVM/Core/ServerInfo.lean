import ContextVM.Core.Codec

/-!
# Server information

`ServerInfo` of `core/types.rs`, the content of an announcement, and what
`#[derive(Serialize, Deserialize)]` generates for it.  An absent field is not written.
-/

namespace ContextVM

structure ServerInfo where
  name : Option String
  version : Option String
  picture : Option String
  website : Option String
  about : Option String
deriving DecidableEq

/-- An `Option<String>` field: absent and `null` both read as `None`. -/
def optionalString : Option Json → Option (Option String)
  | none | some .null => some none
  | some j => j.asStr.map some

@[simp] theorem optionalString_map_str (x : Option String) :
    optionalString (x.map (Value.json ∘ Value.str)) = some x := by
  cases x <;> rfl

/-! ## Objects of optional members -/

theorem find?_append (key : String) (ms ms' : Json.Members) :
    Json.find? key (ms ++ ms') = (Json.find? key ms).or (Json.find? key ms') := by
  induction ms with
  | nil => rfl
  | cons m ms ih =>
      simp only [List.cons_append, Json.find?, ih]
      split <;> rfl

theorem find?_optionalMember (key k : String) (v : Option Value) :
    Json.find? key (optionalMember k v) = if k = key then v.map Value.json else none := by
  cases v with
  | none => simp [optionalMember, Json.find?]
  | some v => simp [optionalMember, Json.find?]

theorem occurrences_append (key : String) (ms ms' : Json.Members) :
    occurrences key (ms ++ ms') = occurrences key ms + occurrences key ms' := by
  simp [occurrences]

theorem occurrences_optionalMember_self (key : String) (v : Option Value) :
    occurrences key (optionalMember key v) ≤ 1 := by
  cases v <;> simp [occurrences, optionalMember]

theorem occurrences_optionalMember_of_ne {key k : String} (h : k ≠ key) (v : Option Value) :
    occurrences key (optionalMember k v) = 0 := by
  cases v <;> simp [occurrences, optionalMember, h]

namespace ServerInfo

/-- `ServerInfo::default`. -/
def default : ServerInfo := ⟨none, none, none, none, none⟩

/-- The fields, in the order in which they are written and read. -/
def fieldNames : List String := ["name", "version", "picture", "website", "about"]

/-- An array must have an element for each field. -/
def decode (j : Json) : Option ServerInfo := do
  let field ← structFields fieldNames j
  if let .arr elems := j then guard (elems.length = fieldNames.length)
  let name ← optionalString (field "name")
  let version ← optionalString (field "version")
  let picture ← optionalString (field "picture")
  let website ← optionalString (field "website")
  let about ← optionalString (field "about")
  return { name, version, picture, website, about }

def encode (info : ServerInfo) : Json :=
  .obj (optionalMember "name" (info.name.map .str) ++
    optionalMember "version" (info.version.map .str) ++
    optionalMember "picture" (info.picture.map .str) ++
    optionalMember "website" (info.website.map .str) ++
    optionalMember "about" (info.about.map .str))

/-- The fields that are found are the members of the object. -/
theorem structFields_encode (info : ServerInfo) :
    structFields fieldNames info.encode = some fun n ↦ info.encode.get? n := by
  refine if_pos ?_
  simp [fieldNames, occurrences_append, occurrences_optionalMember_self,
    occurrences_optionalMember_of_ne]

/-- A server information is read back as it was written. -/
theorem decode_encode (info : ServerInfo) : decode info.encode = some info := by
  unfold decode
  rw [structFields_encode]
  -- what was written is no array
  change (do
    let name ← optionalString (info.encode.get? "name")
    let version ← optionalString (info.encode.get? "version")
    let picture ← optionalString (info.encode.get? "picture")
    let website ← optionalString (info.encode.get? "website")
    let about ← optionalString (info.encode.get? "about")
    return ({ name, version, picture, website, about } : ServerInfo)) = some info
  simp [encode, Json.get?, find?_append, find?_optionalMember]

end ServerInfo

end ContextVM
