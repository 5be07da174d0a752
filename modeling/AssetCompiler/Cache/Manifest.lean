import AssetCompiler.Json.Printer
import AssetCompiler.Json.Reader
import AssetCompiler.Path

/-! # What a cache remembers

The rows of a cache, and the text that they are kept in.
-/

namespace AssetCompiler

/-! ## Cache rows

A row remembers how an asset was last compiled: where its target is, what source and target
looked like, and what the targets of its dependencies looked like at that time.
-/

/-- A dependency's target and the checksum of its content. -/
structure Stamp where
  target : Path
  checksum : String
  deriving DecidableEq, Inhabited, Repr

/-- Targets are compared as paths. -/
def Stamp.same (a b : Stamp) : Bool := a.target == b.target && a.checksum == b.checksum

/-- Whether two lists of stamps agree one by one. -/
def Stamp.sameAll : List Stamp → List Stamp → Bool
  | [], [] => true
  | a :: as, b :: bs => a.same b && sameAll as bs
  | _, _ => false

structure Row where
  source : Path
  target : Path
  language : Option String
  modified : Nat
  checksum : String
  outputChecksum : String
  dependencies : List Stamp
  deriving DecidableEq, Inhabited, Repr

/-- The stamp that dependents of a row keep. -/
def Row.stamp (r : Row) : Stamp := ⟨r.target, r.outputChecksum⟩

def Row.hasKey (r : Row) (source : Path) (language : Option String) : Bool :=
  r.source == source && r.language == language

end AssetCompiler

/-! ## The manifest of a cache

The manifest is a JSON text with a version and the rows. A record is read from an object, in
which unknown keys are passed over, or from an array of exactly its fields. What is passed over
has to be well formed but need not stand for anything.
-/

namespace AssetCompiler.Manifest

def version : Nat := 2

def ofStamp (s : Stamp) : Json :=
  .object [("target", .string s.target.text), ("checksum", .string s.checksum)]

def ofRow (r : Row) : Json :=
  .object [
    ("source", .string r.source.text),
    ("target", .string r.target.text),
    ("language", (r.language.map Json.string).getD .null),
    ("last_modified", .integer r.modified),
    ("checksum", .string r.checksum),
    ("output_checksum", .string r.outputChecksum),
    ("dependencies", .array (r.dependencies.map ofStamp))]

def render (rows : List Row) : String :=
  (Json.object [("version", .integer version), ("entries", .array (rows.map ofRow))]).indented

/-- The fields of a record with the given names: each name at most once. -/
def recordFields? (names : List String) : Json.Form → Option (List (String × Json.Form))
  | .object fields => do
    let keyed ← fields.mapM fun (key?, v) => key?.map (·, v)
    let known := keyed.filter fun f => names.contains f.1
    if (known.map Prod.fst).Nodup then some known else none
  | .array items => if items.length = names.length then some (names.zip items) else none
  | .scalar _ => none

def string? : Json.Form → Option String
  | .scalar (some (.string s)) => some s
  | _ => none

def unsigned? (bits : Nat) : Json.Form → Option Nat
  | .scalar (some (.integer i)) => if 0 ≤ i && i < 2 ^ bits then some i.toNat else none
  | _ => none

/-- A list of which every item is read. -/
def list? {α : Type} (read : Json.Form → Option α) : Json.Form → Option (List α)
  | .array items => items.mapM read
  | _ => none

/-- A language may be null or left out. -/
def language? : Option Json.Form → Option (Option String)
  | none => some none
  | some (.scalar (some .null)) => some none
  | some v => (string? v).map some

def stamp? (v : Json.Form) : Option Stamp := do
  let fields ← recordFields? ["target", "checksum"] v
  some {
    target := ⟨← (Fields.get? fields "target").bind string?⟩
    checksum := ← (Fields.get? fields "checksum").bind string? }

def rowFields : List String :=
  ["source", "target", "language", "last_modified", "checksum", "output_checksum", "dependencies"]

def row? (v : Json.Form) : Option Row := do
  let fields ← recordFields? rowFields v
  some {
    source := ⟨← (Fields.get? fields "source").bind string?⟩
    target := ⟨← (Fields.get? fields "target").bind string?⟩
    language := ← language? (Fields.get? fields "language")
    modified := ← (Fields.get? fields "last_modified").bind (unsigned? 64)
    checksum := ← (Fields.get? fields "checksum").bind string?
    outputChecksum := ← (Fields.get? fields "output_checksum").bind string?
    dependencies := ← (Fields.get? fields "dependencies").bind (list? stamp?) }

def parse? (text : String) : Option (Nat × List Row) := do
  let fields ← recordFields? ["version", "entries"] (← Json.readForm? none text)
  let v ← (Fields.get? fields "version").bind (unsigned? 32)
  let rows ← (Fields.get? fields "entries").bind (list? row?)
  some (v, rows)

end AssetCompiler.Manifest
