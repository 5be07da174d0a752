import AssetCompiler.Json.Printer
import AssetCompiler.Log

/-! # Application configuration

A tree of values that texts look up by dotted keys. A value is shown as it is when it is a
string and as compact JSON otherwise; a filter may ask for JSON in every case.
-/
namespace AssetCompiler

open Text (pieces)

/-- The root of the tree. Without configuration it is null, and every look-up misses. -/
structure AppConfig where
  root : Json := .null
  deriving Inhabited, Repr

namespace AppConfig

/-- Walks down the objects along a list of keys. -/
def descend : Json → List String → Option Json
  | v, [] => some v
  | v, key :: keys => (v.field? key).bind (descend · keys)

def lookup? (c : AppConfig) (dotted : String) : Option Json :=
  descend c.root ((pieces '.' dotted.toList).map String.ofList)

def plainText : Json → String
  | .string s => s
  | v => v.compact

/-- The text of a key under a filter; nothing, with a warning, for an unknown key or filter. -/
def render (c : AppConfig) (dotted filter : String) : String × List LogLine :=
  match c.lookup? dotted with
  | none => ("", [.warn ("app config key `" ++ dotted ++ "` not found")])
  | some v =>
    match filter with
    | "" => (plainText v, [])
    | "json" => (v.compact, [])
    | _ => ("", [.warn ("unknown app config filter `" ++ filter ++ "` for `" ++ dotted ++ "`")])

end AppConfig

end AssetCompiler
