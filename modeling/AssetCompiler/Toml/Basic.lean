import AssetCompiler.Fields

/-! # TOML values

The values of a configuration text. Tables are sorted by key. Merging lays one value over
another: tables are merged key by key, anything else is replaced as a whole.
-/
namespace AssetCompiler

inductive Toml where
  | string (s : String)
  | integer (i : Int)
  | float (f : Float)
  | boolean (b : Bool)
  /-- A date or time, in its normal spelling. -/
  | datetime (text : String)
  | array (items : List Toml)
  | table (entries : List (String × Toml))
  deriving Inhabited, Repr

namespace Toml

mutual
def merge (base overlay : Toml) : Toml :=
  match overlay with
  | .table upper =>
    match base with
    | .table entries => .table (mergeEntries entries upper)
    | _ => .table upper
  | v => v

def mergeEntries (entries : List (String × Toml)) (upper : List (String × Toml)) :
    List (String × Toml) :=
  match upper with
  | [] => entries
  | (k, v) :: rest =>
    let merged := match Fields.get? entries k with
      | some b => merge b v
      | none => v
    mergeEntries (Fields.insert k merged entries) rest
end

def entry? : Toml → String → Option Toml
  | table entries, key => Fields.get? entries key
  | _, _ => none

end Toml

end AssetCompiler
