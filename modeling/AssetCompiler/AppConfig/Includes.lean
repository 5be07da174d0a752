import AssetCompiler.AppConfig
import AssetCompiler.Files.Tree
import AssetCompiler.Json.Reader

/-! # Includes of an application configuration

Any object may name files whose objects are laid over it, in the order in which they are
named. Includes nest, but no file may include itself, directly or not; so a chain of includes
is never longer than the number of files there are.
-/
namespace AssetCompiler

inductive IncludeFault where
  | entryNotString (entry : Json)
  | valueNotString (value : Json)
  | notObject
  deriving Repr

inductive AppConfigError where
  | file (path : Path) (fault : Fault)
  /-- The file is no JSON. -/
  | malformed (path : Path)
  | cycle (path : Path)
  | badInclude (path : Path) (fault : IncludeFault)
  deriving Repr

namespace AppConfig

def includeKey : String := "__include"

/-- The file in a configuration directory that loading starts with. -/
def indexName : String := "index.json"

def includeNames (base : Path) : Option Json → Except AppConfigError (List String)
  | none => .ok []
  | some (.string name) => .ok [name]
  | some (.array items) => items.mapM fun
    | .string name => .ok name
    | entry => .error (.badInclude base (.entryNotString entry))
  | some v => .error (.badInclude base (.valueNotString v))

/-- Lays the fields of one object over those of another. -/
def overlay (fields upper : List (String × Json)) : List (String × Json) :=
  upper.foldl (fun fs kv => Fields.insert kv.1 kv.2 fs) fields

def includeAll (load : Path → Except AppConfigError Json) (base : Path)
    (fields : List (String × Json)) (names : List String) :
    Except AppConfigError (List (String × Json)) :=
  names.foldlM (fun fields name => do
    let path := base.join ⟨name⟩
    match ← load path with
    | .object included => .ok (overlay fields included)
    | _ => .error (.badInclude path .notObject)) fields

mutual
/-- Expands the includes of a value read from a directory. The own fields of an object are
expanded first. -/
def expand (load : Path → Except AppConfigError Json) (base : Path) :
    Json → Except AppConfigError Json
  | .object fields => do
    let own ← expandFields load base fields
    let names ← includeNames base (Fields.get? fields includeKey)
    (includeAll load base own names).map .object
  | .array items => (expandItems load base items).map .array
  | v => .ok v

def expandItems (load : Path → Except AppConfigError Json) (base : Path) :
    List Json → Except AppConfigError (List Json)
  | [] => .ok []
  | v :: vs => do
    let v ← expand load base v
    let vs ← expandItems load base vs
    .ok (v :: vs)

def expandFields (load : Path → Except AppConfigError Json) (base : Path) :
    List (String × Json) → Except AppConfigError (List (String × Json))
  | [] => .ok []
  | (k, v) :: rest =>
    if k = includeKey then expandFields load base rest
    else do
      let v ← expand load base v
      let rest ← expandFields load base rest
      .ok ((k, v) :: rest)
end

/-- The number of locations of a tree that are not in a list. -/
def outside (t : Tree) (opened : List Location) : Nat :=
  ((t.entries.map Prod.fst).filter fun l => !opened.contains l).length

theorem outside_cons_lt {t : Tree} {opened : List Location} {l : Location}
    (hl : l ∈ t.entries.map Prod.fst) (ho : l ∉ opened) :
    outside t (l :: opened) < outside t opened := by
  have h : (t.entries.map Prod.fst).filter (fun m => !(l :: opened).contains m) =
      ((t.entries.map Prod.fst).filter fun m => !opened.contains m).filter (· != l) := by
    rw [List.filter_filter]
    refine List.filter_congr fun m _ => ?_
    by_cases hm : m = l
    · simp [hm]
    · simp [hm]
  unfold outside
  rw [h]
  exact List.length_filter_lt_length_iff_exists.mpr
    ⟨l, List.mem_filter.mpr ⟨hl, by simpa using ho⟩, by simp⟩

/-- Loads a file while other files are open, and expands its includes. -/
def loadFile (t : Tree) (opened : List Location) (p : Path) : Except AppConfigError Json :=
  match t.locate p with
  | .error fault => .error (.file p fault)
  | .ok l =>
    match h : t.get? l with
    | none => .error (.file p .missing)
    | some (.directory _) => .error (.file (Tree.pathOf l) .isDirectory)
    | some (.file f) =>
      if ho : l ∈ opened then .error (.cycle (Tree.pathOf l))
      else match String.fromUTF8? f.bytes with
        | none => .error (.file (Tree.pathOf l) .notText)
        | some text => match Json.parse? text with
          | none => .error (.malformed (Tree.pathOf l))
          | some v =>
            have := outside_cons_lt (Tree.mem_of_get?_file h) ho
            expand (loadFile t (l :: opened)) (Tree.pathOf l.dropLast) v
  termination_by outside t opened

def load (t : Tree) (dir : Path) : Except AppConfigError AppConfig :=
  (loadFile t [] (dir.join ⟨indexName⟩)).map AppConfig.mk

end AppConfig

namespace AppConfigError

def reason : IncludeFault → String
  | .entryNotString entry => "include entry " ++ entry.compact ++ " is not a string"
  | .valueNotString v => AppConfig.includeKey ++ " must be a string, got " ++ v.compact
  | .notObject => "included file is not a JSON object"

/-- The text of an error; of a malformed file only where it is. -/
def message : AppConfigError → String
  | file path fault => "failed to read " ++ path.text ++ ": " ++ fault.message
  | malformed path => path.text
  | cycle path => "include cycle through " ++ path.text
  | badInclude path fault => path.text ++ ": " ++ reason fault

end AppConfigError

end AssetCompiler
