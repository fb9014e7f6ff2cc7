import Mathlib.Data.String.Basic

/-!
# JSON trees and values

Two forms of JSON occur in the code and they differ on objects.

* `Json` is what the parser reads: the members of an object in text order, with repeated
  names kept.  An untagged enum is decoded from this form.
* `Value` is `serde_json::Value`: every object is a map, so its names are distinct, and the
  later of two members with one name has replaced the earlier.  A `Value` carries the proof
  that its tree is in this form.

`Json.normalize` goes from the first form to the second and is the identity on it
(`Json.normalize_of_isNormal`).
-/

namespace ContextVM

/-- A JSON number: an integer that is an `i64` or a `u64`, or the bits of a finite `f64`. -/
inductive Number where
  | int (n : Int) (h : -9223372036854775808 ≤ n ∧ n < 18446744073709551616)
  | float (bits : UInt64) (h : bits &&& 0x7ff0000000000000 ≠ 0x7ff0000000000000)
deriving DecidableEq

/-- `Number::from(i64)`. -/
def Number.ofInt64 (c : Int64) : Number :=
  .int c.toInt ⟨by simpa using c.le_toInt, lt_trans c.toInt_lt (by decide)⟩

/-- A JSON tree as the parser reads it. -/
inductive Json where
  | null
  | bool (b : Bool)
  | num (n : Number)
  | str (s : String)
  | arr (elems : List Json)
  | obj (members : List (String × Json))

namespace Json

abbrev Members := List (String × Json)

/-! ## Normal form -/

/-- `k` comes before the first name of a list of members. -/
def nameBelow (k : String) : Members → Bool
  | [] => true
  | (k', _) :: _ => decide (k < k')

mutual

/-- Every object of the tree lists its names in strictly increasing order. -/
def isNormal : Json → Bool
  | .null | .bool _ | .num _ | .str _ => true
  | .arr elems => elemsNormal elems
  | .obj members => membersNormal members

def elemsNormal : List Json → Bool
  | [] => true
  | j :: js => j.isNormal && elemsNormal js

def membersNormal : Members → Bool
  | [] => true
  | (k, v) :: ms => v.isNormal && (nameBelow k ms && membersNormal ms)

end

/-- Enter a member into a map whose entries all come later in the text: an entry of the
same name that is there already is the later one and stays. -/
def insertMember (k : String) (v : Json) : Members → Members
  | [] => [(k, v)]
  | (k', v') :: ms =>
    if k < k' then (k, v) :: (k', v') :: ms
    else if k = k' then (k', v') :: ms
    else (k', v') :: insertMember k v ms

mutual

/-- The tree with every object turned into a map. -/
def normalize : Json → Json
  | .null => .null
  | .bool b => .bool b
  | .num n => .num n
  | .str s => .str s
  | .arr elems => .arr (normalizeElems elems)
  | .obj members => .obj (normalizeMembers members)

def normalizeElems : List Json → List Json
  | [] => []
  | j :: js => j.normalize :: normalizeElems js

def normalizeMembers : Members → Members
  | [] => []
  | (k, v) :: ms => insertMember k v.normalize (normalizeMembers ms)

end

theorem nameBelow_insertMember {k k' : String} (h : k' < k) (v : Json) (ms : Members)
    (hms : nameBelow k' ms = true) : nameBelow k' (insertMember k v ms) = true := by
  cases ms with
  | nil => simpa [insertMember, nameBelow] using h
  | cons m ms =>
      simp only [insertMember]
      split
      · simpa [nameBelow] using h
      · split <;> exact hms

theorem membersNormal_insertMember (k : String) {v : Json} (hv : v.isNormal = true)
    {ms : Members} (hms : membersNormal ms = true) :
    membersNormal (insertMember k v ms) = true := by
  induction ms with
  | nil => simp [insertMember, membersNormal, nameBelow, hv]
  | cons m ms ih =>
      simp only [membersNormal, Bool.and_eq_true] at hms
      obtain ⟨hv', hb, htail⟩ := hms
      simp only [insertMember]
      split
      · next h =>
          have hk : nameBelow k (m :: ms) = true := decide_eq_true h
          simp [membersNormal, hv, hv', hb, htail, hk]
      · next h =>
          split
          · simp [membersNormal, hv', hb, htail]
          · next hne =>
              have hlt : m.1 < k := lt_of_le_of_ne (not_lt.1 h) (Ne.symm hne)
              simp [membersNormal, hv', ih htail, nameBelow_insertMember hlt v ms hb]

mutual

theorem isNormal_normalize : ∀ j : Json, j.normalize.isNormal = true
  | .null | .bool _ | .num _ | .str _ => rfl
  | .arr elems => elemsNormal_normalizeElems elems
  | .obj members => membersNormal_normalizeMembers members

theorem elemsNormal_normalizeElems : ∀ js : List Json, elemsNormal (normalizeElems js) = true
  | [] => rfl
  | j :: js => by
      simp [normalizeElems, elemsNormal, isNormal_normalize j, elemsNormal_normalizeElems js]

theorem membersNormal_normalizeMembers :
    ∀ ms : Members, membersNormal (normalizeMembers ms) = true
  | [] => rfl
  | (k, v) :: ms =>
      membersNormal_insertMember k (isNormal_normalize v) (membersNormal_normalizeMembers ms)

end

theorem insertMember_of_nameBelow {k : String} {v : Json} {ms : Members}
    (h : nameBelow k ms = true) : insertMember k v ms = (k, v) :: ms := by
  cases ms with
  | nil => rfl
  | cons m ms => simp [insertMember, of_decide_eq_true h]

mutual

/-- A tree in normal form is its own normal form. -/
theorem normalize_of_isNormal : ∀ {j : Json}, j.isNormal = true → j.normalize = j
  | .null, _ | .bool _, _ | .num _, _ | .str _, _ => rfl
  | .arr _, h => congrArg Json.arr (normalizeElems_of_elemsNormal h)
  | .obj _, h => congrArg Json.obj (normalizeMembers_of_membersNormal h)

theorem normalizeElems_of_elemsNormal :
    ∀ {js : List Json}, elemsNormal js = true → normalizeElems js = js
  | [], _ => rfl
  | j :: js, h => by
      simp only [elemsNormal, Bool.and_eq_true] at h
      rw [normalizeElems, normalize_of_isNormal h.1, normalizeElems_of_elemsNormal h.2]

theorem normalizeMembers_of_membersNormal :
    ∀ {ms : Members}, membersNormal ms = true → normalizeMembers ms = ms
  | [], _ => rfl
  | (k, v) :: ms, h => by
      simp only [membersNormal, Bool.and_eq_true] at h
      obtain ⟨hv, hb, hms⟩ := h
      rw [normalizeMembers, normalize_of_isNormal hv, normalizeMembers_of_membersNormal hms,
        insertMember_of_nameBelow hb]

end

/-! ## Access -/

/-- The first member of a name. -/
def find? (key : String) : Members → Option Json
  | [] => none
  | (k, v) :: ms => if k = key then some v else find? key ms

/-- The member of that name, of an object. -/
def get? (key : String) : Json → Option Json
  | .obj members => find? key members
  | _ => none

def asStr : Json → Option String
  | .str s => some s
  | _ => none

theorem isNormal_of_find? {key : String} {v : Json} :
    ∀ {ms : Members}, membersNormal ms = true → find? key ms = some v → v.isNormal = true
  | [], _, h => by simp [find?] at h
  | (k, w) :: ms, hn, h => by
      simp only [membersNormal, Bool.and_eq_true] at hn
      simp only [find?] at h
      split at h
      · exact Option.some.inj h ▸ hn.1
      · exact isNormal_of_find? hn.2.2 h

theorem isNormal_of_get? {key : String} {j v : Json} (hn : j.isNormal = true)
    (h : j.get? key = some v) : v.isNormal = true := by
  cases j with
  | obj members => exact isNormal_of_find? hn h
  | _ => simp [get?] at h

end Json

/-- `serde_json::Value`: a tree whose objects are maps. -/
@[ext]
structure Value where
  json : Json
  normal : json.isNormal = true

namespace Value

/-- Read a tree as a value: the last of repeated names wins. -/
def ofJson (j : Json) : Value := ⟨j.normalize, j.isNormal_normalize⟩

@[simp] theorem ofJson_json (v : Value) : ofJson v.json = v :=
  Value.ext (Json.normalize_of_isNormal v.normal)

def null : Value := ⟨.null, rfl⟩

/-- `Value::String`. -/
def str (s : String) : Value := ⟨.str s, rfl⟩

/-- `Value::get` with a name: `None` unless the value is an object with that member. -/
def get (v : Value) (key : String) : Option Value :=
  match h : v.json.get? key with
  | some j => some ⟨j, Json.isNormal_of_get? v.normal h⟩
  | none => none

/-- `Value::as_str`. -/
def asStr (v : Value) : Option String := v.json.asStr

@[simp] theorem asStr_str (s : String) : (str s).asStr = some s := rfl

theorem elemsNormal_map_json : ∀ vs : List Value, Json.elemsNormal (vs.map json) = true
  | [] => rfl
  | v :: vs => by simp [Json.elemsNormal, v.normal, elemsNormal_map_json vs]

/-- `json!({ key: list })`. -/
def singleton (key : String) (list : List Value) : Value where
  json := .obj [(key, .arr (list.map json))]
  normal := by simp [Json.isNormal, Json.membersNormal, Json.nameBelow, elemsNormal_map_json]

/-- `Value::as_array`. -/
def asArray (v : Value) : Option (List Value) :=
  match v.json with
  | .arr elems => some (elems.map ofJson)
  | _ => none

theorem asArray_get_singleton (key : String) (list : List Value) :
    ((singleton key list).get key).bind asArray = some list := by
  have hget : (singleton key list).json.get? key = some (.arr (list.map json)) := by
    simp [singleton, Json.get?, Json.find?]
  unfold get
  split
  · next j hj =>
      obtain rfl := Option.some.inj (hget.symm.trans hj)
      have hid : ofJson ∘ json = id := funext ofJson_json
      simp only [Option.bind_some, asArray, List.map_map, hid, List.map_id]
  · next hj => cases hget.symm.trans hj

end Value

end ContextVM
