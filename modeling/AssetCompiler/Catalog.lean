import AssetCompiler.Files.Tree
import AssetCompiler.Json.Reader
import AssetCompiler.Log

/-! # Message catalogs

A directory holds one table of texts for each language. A table is read on the first use of
its language and kept; one that cannot be read counts as empty. A key without a text
stands for itself.
-/
namespace AssetCompiler

abbrev MessageTable := List (String × String)

/-- The directory of the tables and the tables read so far. -/
structure Catalog where
  directory? : Option Path := none
  tables : List (String × MessageTable) := []
  deriving Inhabited, Repr

namespace Catalog

def textField? : String × Json → Option (String × String)
  | (k, .string s) => some (k, s)
  | _ => none

/-- The table of a JSON object of strings; the last value of a key counts. -/
def tableOf? (text : String) : Option MessageTable :=
  match Json.read? (some Json.maxDepth) text with
  | some (.object fields) => (fields.mapM textField?).map Fields.sort
  | _ => none

def tablePath (dir : Path) (language : String) : Path := dir.join ⟨language ++ ".json"⟩

def readTable (files : Tree) (directory? : Option Path) (language : String) :
    MessageTable × List LogLine :=
  match directory? with
  | none => ([], [])
  | some dir =>
    let path := tablePath dir language
    match files.readText path with
    | .error fault =>
      ([], [.warn ("no translations for `" ++ language ++ "` (" ++ path.text ++ ": " ++
        fault.message ++ ")")])
    | .ok text =>
      match tableOf? text with
      | some table => (table, [])
      | none => ([], [.warn ("ignoring invalid translations " ++ path.text)])

/-- The table of a language, read if this is its first use. -/
def table (files : Tree) (language : String) (t : Catalog) :
    MessageTable × Catalog × List LogLine :=
  match t.tables.lookup language with
  | some table => (table, t, [])
  | none =>
    let (table, log) := readTable files t.directory? language
    (table, { t with tables := (language, table) :: t.tables }, log)

/-- The text for a key in a language. Outside localised texts a key stands for itself. -/
def message (files : Tree) (key : String) (language? : Option String) (t : Catalog) :
    String × Catalog × List LogLine :=
  match language? with
  | none => (key, t, [])
  | some language =>
    let (table, t, log) := t.table files language
    match Fields.get? table key with
    | some text => (text, t, log)
    | none =>
      (key, t, log ++ [.warn ("missing `" ++ language ++ "` translation for `" ++ key ++ "`")])

end Catalog

end AssetCompiler
