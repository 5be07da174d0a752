import AssetCompiler.Asset.Collection
import AssetCompiler.Directive.Scan
import AssetCompiler.Text.Utf8
import AssetCompiler.Workspace

/-! # References between assets

Reading an asset finds the directives of its text and, for each that refers to a file, the
asset meant. A reference to no asset is noted and kept as unresolved.
-/
namespace AssetCompiler

structure ParseError where
  path : Path
  fault : Fault
  deriving DecidableEq, Repr

def ParseError.message (e : ParseError) : String :=
  "failed to read " ++ e.path.text ++ ": " ++ e.fault.message

namespace Collection

def referencePath (c : Config) (r : Reference) : Path :=
  let root := (c.sectionOf r.kind).source
  if r.isInclude then
    root.join (Naming.partialReference r.path (if r.kind = .markup then some "html" else none))
  else root.join ⟨Naming.forwardSlashes r.path⟩

/-- The dependencies found so far, each once. -/
structure Links where
  occurrences : List Occurrence := []
  dependencies : List Nat := []
  unresolved : List Path := []
  log : List LogLine := []

/-- Adds an element that is not there yet at the end. -/
def addNew {α : Type} [BEq α] (x : α) (xs : List α) : List α :=
  if xs.contains x then xs else xs ++ [x]

/-- Resolves the reference of one occurrence. -/
def link (c : Config) (as : Collection) (a : Asset) (ls : Links) (o : Occurrence) : Links :=
  match o.directive.reference? a.kind with
  | none => { ls with occurrences := ls.occurrences ++ [o] }
  | some r =>
    let path := referencePath c r
    match as.findFor? path a.language with
    | some i => { ls with
        occurrences := ls.occurrences ++ [{ o with dependency? := some i }]
        dependencies := addNew i ls.dependencies }
    | none => { ls with
        occurrences := ls.occurrences ++ [o]
        unresolved := addNew path ls.unresolved
        log := ls.log ++ [.warn (a.label ++ ": could not find dependency " ++ path.text)] }

def withText (c : Config) (as : Collection) (a : Asset) (text : String) : Asset × List LogLine :=
  let ls := (AssetCompiler.occurrences a.kind text).foldl (link c as a) {}
  ({ a with
    content := some text
    occurrences := ls.occurrences
    dependencies := ls.dependencies
    unresolved := ls.unresolved }, ls.log)

def notTextWarning (a : Asset) (bytes : ByteArray) : LogLine :=
  let reason := ((Text.utf8Fault? bytes).map Text.Utf8Fault.message).getD ""
  .warn (a.label ++ ": not valid UTF-8 (" ++ reason ++ "), copying without macro expansion")

/-- Reads an asset. Images are not read. -/
def parse (files : Tree) (c : Config) (as : Collection) (a : Asset) :
    Except ParseError (Asset × List LogLine) :=
  if a.kind = .image then .ok (a, [])
  else match files.read a.source with
    | .error fault => .error ⟨a.source, fault⟩
    | .ok bytes =>
      match String.fromUTF8? bytes with
      | some text => .ok (withText c as a text)
      | none => .ok (a, [notTextWarning a bytes])

/-- Reads the assets from an index on, up to the first that cannot be read. What was found
before stays. -/
def parseFrom (c : Config) (i : Nat) : Nat → Collection → Workspace →
    Except ParseError Unit × Collection × Workspace
  | 0, as, w => (.ok (), as, w)
  | n + 1, as, w =>
    match parse w.files c as (as.get i) with
    | .error e => (.error e, as, w)
    | .ok (a, log) => parseFrom c (i + 1) n (as.update i fun _ => a) (w.note log)

def parseAll (c : Config) (as : Collection) (w : Workspace) :
    Except ParseError Unit × Collection × Workspace :=
  parseFrom c 0 as.length as w

end Collection

end AssetCompiler
