import AssetCompiler.Toml.Scalar

/-! # Tables under construction

A document defines its tables piece by piece. Each table remembers what defined it, because
a header may complete a table that was only implied, a dotted key may extend a table that
dotted keys made, and nothing else may be defined twice. Entries are kept in the order of
their definition, since a table whose first key is `dateKey` stands for a date.
-/
namespace AssetCompiler.Toml

inductive Origin where
  /-- A longer header. -/
  | implied
  /-- A dotted key. -/
  | dotted
  /-- Its own header. -/
  | header
  deriving DecidableEq, Repr

inductive Node where
  /-- A string, a number, a truth value or a date. -/
  | leaf (v : Toml)
  | list (items : List Node)
  /-- A table that is the value of a key, which nothing can be added to. -/
  | inlineTable (entries : List (String × Node))
  | table (origin : Origin) (entries : List (String × Node))
  /-- An array of tables, the newest first. -/
  | tables (newestFirst : List (List (String × Node)))

abbrev Entries := List (String × Node)

/-- Gives a key its value, at its place or, when it is new, at the end. -/
def Entries.put (key : String) (n : Node) : Entries → Entries
  | [] => [(key, n)]
  | (k, old) :: rest => if k = key then (key, n) :: rest else (k, old) :: put key n rest

/-- Gives a key its value and moves it to the end. -/
def Entries.putLast (key : String) (n : Node) (entries : Entries) : Entries :=
  entries.filter (fun e => e.1 != key) ++ [(key, n)]

abbrev Change := Origin → Entries → Option (Origin × Entries)

namespace Node

/-- Makes a change in the table at a path. Tables on the way are created when they are
missing; of an array of tables the newest is meant. -/
def within (dotted : Bool) (change : Change) : List String → Change
  | [], origin, entries => change origin entries
  | k :: ks, origin, entries => do
    let child ← match Fields.get? entries k with
      | none =>
        (within dotted change ks (if dotted then .dotted else .implied) []).map
          fun (o, es) => table o es
      | some (table o es) =>
        if dotted && o = .header then none
        else (within dotted change ks o es).map fun (o, es) => table o es
      | some (tables (t :: ts)) =>
        (within dotted change ks .header t).map fun (_, t) => tables (t :: ts)
      | some _ => none
    some (origin, Entries.put k child entries)

/-- Defines a table by its header. A table that was implied so far becomes the last of its
parent. -/
def openTable (key : String) : Change := fun origin entries =>
  match Fields.get? entries key with
  | none => some (origin, Entries.put key (table .header []) entries)
  | some (table .implied es) => some (origin, Entries.putLast key (table .header es) entries)
  | some _ => none

def addTable (key : String) : Change := fun origin entries =>
  match Fields.get? entries key with
  | none => some (origin, Entries.put key (tables [[]]) entries)
  | some (tables ts) => some (origin, Entries.put key (tables ([] :: ts)) entries)
  | some _ => none

/-- Gives a new key its value, in a table that was made for it. -/
def setValue (key : String) (n : Node) (viaDots : Bool) : Change := fun origin entries =>
  if viaDots && origin ≠ .dotted then none
  else match Fields.get? entries key with
    | none => some (origin, Entries.put key n entries)
    | some _ => none

/-- Makes a change that needs the last key of a path in the table of the keys before it. -/
def atPath (dotted : Bool) (change : String → Change) (path : List String) : Change :=
  fun origin entries =>
    match path.getLast? with
    | none => none
    | some key => within dotted (change key) path.dropLast origin entries

def define (path : List String) (n : Node) : Change :=
  atPath true (fun key => setValue key n (path.length != 1)) path

/-- The key of a table that stands for the date in its value. -/
def dateKey : String := "$__toml_private_datetime"

def date? : Node → Option Toml
  | leaf (.string s) =>
    (datetime? .ofString s.toList).map fun text => .datetime (String.ofList text)
  | _ => none

mutual
/-- The value of a node. What follows the date in a table that stands for one is not looked
at. -/
def toToml? : Node → Option Toml
  | leaf v => some v
  | list items => (itemsToToml? items).map .array
  | inlineTable entries => tableToToml? entries
  | table _ entries => tableToToml? entries
  | tables newestFirst => (tablesToToml? newestFirst).map fun ts => .array ts.reverse

def itemsToToml? : List Node → Option (List Toml)
  | [] => some []
  | n :: ns => do
    let v ← toToml? n
    let vs ← itemsToToml? ns
    some (v :: vs)

def tableToToml? : List (String × Node) → Option Toml
  | [] => some (.table [])
  | (k, n) :: rest =>
    if k = dateKey then date? n
    else do
      let v ← toToml? n
      let fields ← entriesToToml? rest
      some (.table (Fields.sort ((k, v) :: fields)))

def entriesToToml? : List (String × Node) → Option (List (String × Toml))
  | [] => some []
  | (k, n) :: rest => do
    let v ← toToml? n
    let fields ← entriesToToml? rest
    some ((k, v) :: fields)

def tablesToToml? : List (List (String × Node)) → Option (List Toml)
  | [] => some []
  | t :: ts => do
    let v ← tableToToml? t
    let vs ← tablesToToml? ts
    some (v :: vs)
end

end Node

end AssetCompiler.Toml
