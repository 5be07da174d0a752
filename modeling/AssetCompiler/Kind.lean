import AssetCompiler.Path

/-! # Kinds of resources

The extension of a file decides its kind, ASCII letters of either case being the same. The
kind decides the grammar of its directives and where its source and target live.
-/
namespace AssetCompiler

inductive Kind where
  | markup
  | stylesheet
  | script
  | image
  deriving DecidableEq, Inhabited, Repr

namespace Kind

/-- All kinds, in the order in which sources are listed. -/
def all : List Kind := [markup, stylesheet, script, image]

def extensions : Kind → List String
  | markup => ["html"]
  | stylesheet => ["css", "scss", "sass"]
  | script => ["js", "coffee"]
  | image => ["png", "jpg", "jpeg", "gif", "svg", "webp", "ico"]

/-- ASCII letters in lower case, other characters as they are. -/
def lowerAscii (s : String) : String := String.ofList (s.toList.map Char.toLower)

def ofExtension? (extension : String) : Option Kind :=
  all.find? fun k => k.extensions.contains (lowerAscii extension)

def ofPath? (p : Path) : Option Kind := p.extension?.bind ofExtension?

def dirName : Kind → String
  | markup => "html"
  | stylesheet => "stylesheets"
  | script => "scripts"
  | image => "images"

def label : Kind → String
  | markup => "markup"
  | stylesheet => "stylesheet"
  | script => "script"
  | image => "image"

instance : ToString Kind := ⟨label⟩

end Kind

end AssetCompiler
