import AssetCompiler.Path

/-! # Names of files

How the name of a file makes it a partial, what is put into the name of a target, and how one file is
linked from another.
-/

namespace AssetCompiler.Naming

/-! ## Partials

A file whose name starts with an underscore is a partial: it can be included and has no
public address. A reference to a partial may leave out the underscore and the extension.
-/

def partialMark : Char := '_'

def isPartial (p : Path) : Bool :=
  match p.fileName? with
  | some n => n.toList.head? == some partialMark
  | none => false

def forwardSlashes (s : String) : String :=
  String.ofList (s.toList.map fun c => if c = '\\' then '/' else c)

/-- Puts the mark in front of a file name that lacks it. -/
def markName (name : String) : String :=
  if name.toList.head? == some partialMark then name else String.ofList (partialMark :: name.toList)

def completeName (name : String) : Option String → String
  | none => name
  | some extension =>
    if (Path.ofString name).extension?.isNone then name ++ "." ++ extension else name

/-- The relative path of the partial that an include reference names. -/
def partialReference (reference : String) (defaultExtension : Option String) : Path :=
  let path := Path.ofString (forwardSlashes reference)
  let name := completeName (markName (path.fileName?.getD "")) defaultExtension
  match path.parent? with
  | some dir => if dir.text == "" then ⟨name⟩ else dir.join ⟨name⟩
  | none => ⟨name⟩

/-! ## Decorated file names

A target name is a source name with a fingerprint, another extension and a language put in,
in this order. Suffixes go between stem and extension, after a dash.
-/


structure Decoration where
  fingerprint : Option String := none
  extension : Option String := none
  language : Option String := none
  deriving DecidableEq, Repr

/-- The file name of a path with `-suffix` at the end of its stem. -/
def suffixedName (p : Path) (suffix : String) : String :=
  let base := p.stem?.getD "" ++ "-" ++ suffix
  match p.extension? with
  | some extension => base ++ "." ++ extension
  | none => base

def suffixStem (p : Path) (suffix : String) : Path :=
  p.withFileName (suffixedName p suffix)

def applyIfSome (f : Path → String → Path) (p : Path) : Option String → Path
  | some s => f p s
  | none => p

def decorate (p : Path) (d : Decoration) : Path :=
  applyIfSome suffixStem
    (applyIfSome Path.withExtension (applyIfSome suffixStem p d.fingerprint) d.extension)
    d.language

/-! ## Relative links

A link from a directory to a file climbs with `..` out of the part of the directory that
the two do not share, then descends to the file.
-/


/-- How many components two lists share at the start. -/
def sharedLength : List Component → List Component → Nat
  | a :: as, b :: bs => if a = b then sharedLength as bs + 1 else 0
  | _, _ => 0

def linkSteps (target dir : List Component) : List Component :=
  let shared := sharedLength target dir
  List.replicate (dir.length - shared) .up ++ target.drop shared

def relativeLink (target dir : Path) : String :=
  Path.joinComponents (linkSteps target.components dir.components)

end AssetCompiler.Naming
