import LetsEmbed.Text

/-! JSON values as the source's `serde_json` hands them over, and the decoding
of structs from them: by field name from an object, in order from an array. -/

namespace LetsEmbed

/-- A JSON value. Numbers other than `u64` integers are never looked into. The
keys of a parsed object are distinct. -/
inductive Json where
  | null
  | bool (value : Bool)
  | unsigned (value : Nat)
  | number
  | str (value : String)
  | arr (items : List Json)
  | obj (fields : List (String × Json))
  deriving Repr

namespace Json

def isNull : Json → Bool
  | .null => true
  | _ => false

def asStr : Json → Option String
  | .str value => some value
  | _ => none

def asU64 : Json → Option Nat
  | .unsigned value => some value
  | _ => none

def asArray : Json → Option (List Json)
  | .arr items => some items
  | _ => none

def get (value : Json) (key : String) : Option Json :=
  match value with
  | .obj fields => fields.lookup key
  | _ => none

def getAt (value : Json) (index : Nat) : Option Json :=
  match value with
  | .arr items => items[index]?
  | _ => none

/-- `value[key]`: null where there is nothing. -/
def index (value : Json) (key : String) : Json := (value.get key).getD .null

/-- The items a struct's fields are read from, one slot a field. An array must
have exactly as many items as the struct has fields, but may end early where
every field left has a default; an object's other keys are ignored. -/
def slots (value : Json) (names : List String) (optional : Nat) : Option (List (Option Json)) :=
  match value with
  | .obj fields => some (names.map fun name => fields.lookup name)
  | .arr items =>
    if items.length ≤ names.length ∧ names.length ≤ items.length + optional then
      some (items.map some ++ List.replicate (names.length - items.length) none)
    else none
  | _ => none

def decodeString : Option Json → Option String
  | some (.str value) => some value
  | _ => none

/-- An `Option<String>`: missing and null are both `None`. -/
def decodeOptional : Option Json → Option (Option String)
  | none | some .null => some none
  | some (.str value) => some (some value)
  | _ => none

def decodeList {α : Type} (item : Json → Option α) : Json → Option (List α)
  | .arr items => items.mapM item
  | _ => none

end Json
end LetsEmbed
