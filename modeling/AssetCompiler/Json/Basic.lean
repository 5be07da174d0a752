import AssetCompiler.Fields

/-! # JSON values

An object is the list of its fields as they were read. Its canonical form has each key once,
with the last value given for it, in the order of the keys.
-/
namespace AssetCompiler

inductive Json where
  | null
  | bool (b : Bool)
  | integer (i : Int)
  | float (f : Float)
  | string (s : String)
  | array (items : List Json)
  | object (fields : List (String × Json))
  deriving Inhabited, Repr

namespace Json

mutual
/-- Sorts the fields of every object. -/
def canonical : Json → Json
  | .array items => .array (canonicalItems items)
  | .object fields => .object (Fields.sort (canonicalFields fields))
  | v => v

def canonicalItems : List Json → List Json
  | [] => []
  | v :: vs => canonical v :: canonicalItems vs

def canonicalFields : List (String × Json) → List (String × Json)
  | [] => []
  | (k, v) :: rest => (k, canonical v) :: canonicalFields rest
end

def field? : Json → String → Option Json
  | object fields, key => Fields.get? fields key
  | _, _ => none

end Json

end AssetCompiler
