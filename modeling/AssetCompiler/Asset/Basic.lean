import AssetCompiler.Config.Basic
import AssetCompiler.Directive.Basic
import AssetCompiler.Naming

/-! # Assets

An asset is a source file, perhaps compiled for one language. Its target lies below the target
root of its kind, or below the root of partials, under its path from the source root with
decorations in the file name.
-/
namespace AssetCompiler

structure Asset where
  kind : Kind
  source : Path
  language : Option String := none
  /-- The assets it refers to, each once, in order of first occurrence. -/
  dependencies : List Nat := []
  /-- Paths it refers to that are no asset. -/
  unresolved : List Path := []
  rebuilt : Bool := false
  /-- Its text; images and sources that are not UTF-8 have none. -/
  content : Option String := none
  occurrences : List Occurrence := []
  target : Option Path := none
  deriving Inhabited

namespace Asset

def ofSource (kind : Kind) (source : Path) (language : Option String) : Asset :=
  { kind, source, language }

def isPartial (a : Asset) : Bool := Naming.isPartial a.source

def label (a : Asset) : String :=
  a.kind.label ++ " " ++ a.source.text ++ (a.language.map fun l => " [" ++ l ++ "]").getD ""

/-- Whether two identities are the same: the source as a path, and the language. -/
def hasIdentity (a : Asset) (source : Path) (language : Option String) : Bool :=
  a.source == source && a.language == language

/-- Whether the source is written in the language that scripts are transpiled from. -/
def needsTranspile (a : Asset) : Bool :=
  a.kind == .script && (a.source.extension?.map Kind.lowerAscii) == some "coffee"

/-- Whether the target's name gets a fingerprint. -/
def isFingerprinted (a : Asset) : Bool := !a.isPartial && a.kind != .markup

/-- The path from the source root, or the file name of a source outside of it. -/
def relativeSource (a : Asset) (c : Config) : Path :=
  (a.source.stripPrefix? (c.sectionOf a.kind).source).getD ⟨a.source.fileName?.getD ""⟩

def targetRoot (a : Asset) (c : Config) : Path :=
  if a.isPartial then c.partialsDir.join ⟨a.kind.dirName⟩ else (c.sectionOf a.kind).target

def decoration (a : Asset) (fingerprint : Option String) : Naming.Decoration :=
  { fingerprint, extension := if a.needsTranspile then some "js" else none, language := a.language }

/-- The target under a fingerprint, which only fingerprinted assets are given. -/
def targetPath (a : Asset) (c : Config) (fingerprint : Option String) : Path :=
  (a.targetRoot c).join (Naming.decorate (a.relativeSource c) (a.decoration fingerprint))

def targetDir (a : Asset) (c : Config) : Path :=
  (((a.targetRoot c).join (a.relativeSource c)).parent?).getD (a.targetRoot c)

end Asset

end AssetCompiler
